import Mathlib.Algebra.BigOperators.Fin
import Mathlib.Algebra.Order.BigOperators.Ring.Finset
import Mathlib.Algebra.Order.Ring.Int
import Mathlib.Data.Int.ConditionallyCompleteOrder
import Mathlib.Data.Set.Function
import Mathlib.Tactic.Linarith
import Mathlib.Tactic.Ring

/-!
# Row-major order

The cells of an `n`-dimensional array, numbered with the last axis running fastest.  `rowMajorIndex`
is the loop that multiplies by the next extent and adds the next coordinate; `rowMajorCoordinates`
takes the number apart again, last axis first.  They are inverse to each other between the cells of
the array and the numbers below its volume: `rowMajorCoordinates_rowMajorIndex`,
`rowMajorIndex_rowMajorCoordinates`.
-/

namespace Spearhed
namespace Library

def rowMajorIndex : {n : ℕ} → (Fin n → ℤ) → (Fin n → ℤ) → ℤ
  | 0, _, _ => 0
  | n + 1, dims, c => rowMajorIndex (Fin.init dims) (Fin.init c) * dims (Fin.last n) + c (Fin.last n)

def rowMajorCoordinates : {n : ℕ} → (Fin n → ℤ) → ℤ → (Fin n → ℤ)
  | 0, _, _ => Fin.elim0
  | n + 1, dims, r =>
    Fin.snoc (rowMajorCoordinates (Fin.init dims) (r / dims (Fin.last n))) (r % dims (Fin.last n))

section RowMajor

variable {n : ℕ} {dims c : Fin n → ℤ} {r : ℤ}

theorem rowMajorIndex_succ {dims c : Fin (n + 1) → ℤ} :
    rowMajorIndex dims c = rowMajorIndex (Fin.init dims) (Fin.init c) * dims (Fin.last n) + c (Fin.last n) :=
  rfl

theorem rowMajorIndex_zero (dims : Fin n → ℤ) : rowMajorIndex dims 0 = 0 := by
  induction n with
  | zero => rfl
  | succ n ih =>
    have hinit : Fin.init (0 : Fin (n + 1) → ℤ) = 0 := rfl
    rw [rowMajorIndex_succ, hinit, ih, zero_mul, zero_add]
    rfl

theorem prod_eq_prod_init (dims : Fin (n + 1) → ℤ) : ∏ d, dims d = (∏ d, Fin.init dims d) * dims (Fin.last n) :=
  Fin.prod_univ_castSucc dims

theorem init_pos {dims : Fin (n + 1) → ℤ} (hdims : ∀ d, 0 < dims d) : ∀ d, 0 < Fin.init dims d :=
  fun d => hdims d.castSucc

theorem init_mem {dims c : Fin (n + 1) → ℤ} (hc : ∀ d, 0 ≤ c d ∧ c d < dims d) :
    ∀ d, 0 ≤ Fin.init c d ∧ Fin.init c d < Fin.init dims d :=
  fun d => hc d.castSucc

theorem rowMajorIndex_mem (hdims : ∀ d, 0 < dims d) (hc : ∀ d, 0 ≤ c d ∧ c d < dims d) :
    rowMajorIndex dims c ∈ Set.Ico 0 (∏ d, dims d) := by
  induction n with
  | zero => exact ⟨le_refl 0, by simp [rowMajorIndex]⟩
  | succ n ih =>
    obtain ⟨hlo, hhi⟩ := ih (init_pos hdims) (init_mem hc)
    obtain ⟨hlo', hhi'⟩ := hc (Fin.last n)
    rw [rowMajorIndex_succ, prod_eq_prod_init]
    refine ⟨add_nonneg (mul_nonneg hlo (hdims _).le) hlo', ?_⟩
    calc rowMajorIndex (Fin.init dims) (Fin.init c) * dims (Fin.last n) + c (Fin.last n)
        < rowMajorIndex (Fin.init dims) (Fin.init c) * dims (Fin.last n) + dims (Fin.last n) := by linarith
      _ = (rowMajorIndex (Fin.init dims) (Fin.init c) + 1) * dims (Fin.last n) := by ring
      _ ≤ (∏ d, Fin.init dims d) * dims (Fin.last n) := mul_le_mul_of_nonneg_right (by linarith) (hdims _).le

theorem rowMajorCoordinates_mem (hdims : ∀ d, 0 < dims d) (d : Fin n) :
    0 ≤ rowMajorCoordinates dims r d ∧ rowMajorCoordinates dims r d < dims d := by
  induction n generalizing r with
  | zero => exact d.elim0
  | succ n ih =>
    refine Fin.lastCases ?_ (fun d => ?_) d
    · rw [rowMajorCoordinates, Fin.snoc_last]
      exact ⟨Int.emod_nonneg _ (hdims _).ne', Int.emod_lt_of_pos _ (hdims _)⟩
    · rw [rowMajorCoordinates, Fin.snoc_castSucc]
      exact ih (init_pos hdims) d

theorem rowMajorCoordinates_rowMajorIndex (hdims : ∀ d, 0 < dims d) (hc : ∀ d, 0 ≤ c d ∧ c d < dims d) :
    rowMajorCoordinates dims (rowMajorIndex dims c) = c := by
  induction n with
  | zero => exact Subsingleton.elim _ _
  | succ n ih =>
    obtain ⟨hlo, hhi⟩ := hc (Fin.last n)
    have hne := (hdims (Fin.last n)).ne'
    have hquotient : rowMajorIndex dims c / dims (Fin.last n) = rowMajorIndex (Fin.init dims) (Fin.init c) := by
      rw [rowMajorIndex_succ, add_comm, Int.add_mul_ediv_right _ _ hne, Int.ediv_eq_zero_of_lt hlo hhi, zero_add]
    have hremainder : rowMajorIndex dims c % dims (Fin.last n) = c (Fin.last n) := by
      rw [rowMajorIndex_succ, add_comm, Int.add_mul_emod_self_right, Int.emod_eq_of_lt hlo hhi]
    rw [rowMajorCoordinates, hquotient, hremainder,
      ih (init_pos hdims) (init_mem hc), Fin.snoc_init_self]

theorem rowMajorIndex_rowMajorCoordinates (hdims : ∀ d, 0 < dims d) (hr : r ∈ Set.Ico 0 (∏ d, dims d)) :
    rowMajorIndex dims (rowMajorCoordinates dims r) = r := by
  induction n generalizing r with
  | zero =>
    obtain ⟨hlo, hhi⟩ := hr
    rw [rowMajorIndex]
    have hone : ∏ d, dims d = 1 := Fin.prod_univ_zero dims
    omega
  | succ n ih =>
    have hpos := hdims (Fin.last n)
    have hquotient : r / dims (Fin.last n) ∈ Set.Ico 0 (∏ d, Fin.init dims d) := by
      rw [prod_eq_prod_init] at hr
      exact ⟨Int.ediv_nonneg hr.1 hpos.le, Int.ediv_lt_of_lt_mul hpos hr.2⟩
    rw [rowMajorIndex_succ, rowMajorCoordinates, Fin.init_snoc, Fin.snoc_last,
      ih (init_pos hdims) hquotient, mul_comm, Int.mul_ediv_add_emod]

end RowMajor

end Library
end Spearhed
