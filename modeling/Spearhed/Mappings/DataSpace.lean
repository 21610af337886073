import Mathlib.Algebra.BigOperators.Fin
import Mathlib.Data.Fintype.BigOperators
import Mathlib.Data.Int.ConditionallyCompleteOrder
import Mathlib.Data.Set.Card
import Mathlib.Data.Set.Lattice
import Mathlib.Order.CompletePartialOrder
import Mathlib.Order.Interval.Set.Disjoint
import Mathlib.Tactic.FinCases
import Spearhed.Library.Enumeration
import Spearhed.Library.IntArithmetic

/-!
# Index spaces

A `DataSpace` has one integer per axis, in the source an `int`, and its operators act per axis; where a
value may leave the range of `int` it is wrapped by `int32`.  The regions a mapper hands
out are boxes: a half-open range on every axis.  Boxes of dimension two and three are counted off by
remainders and quotients, in whichever order of the axes the code has chosen.
-/

namespace Spearhed
namespace Mappings

open Library

/-- An index, an extent or an offset, one integer per axis. -/
abbrev DataSpace (DIM : ℕ) : Type := Fin DIM → ℤ

/-- The cells from `lo` on and below `hi` on every axis. -/
def box {DIM : ℕ} (lo hi : DataSpace DIM) : Set (DataSpace DIM) := {c | ∀ d, lo d ≤ c d ∧ c d < hi d}

section Box

variable {DIM : ℕ} {lo hi lo' hi' c : DataSpace DIM}

@[simp] theorem mem_box : c ∈ box lo hi ↔ ∀ d, lo d ≤ c d ∧ c d < hi d := Iff.rfl

theorem box_subset_box (hlo : ∀ d, lo' d ≤ lo d) (hhi : ∀ d, hi d ≤ hi' d) : box lo hi ⊆ box lo' hi' :=
  fun _ hc d => ⟨(hlo d).trans (hc d).1, (hc d).2.trans_le (hhi d)⟩

/-- A translated box. -/
theorem bijOn_add_box (lo hi s : DataSpace DIM) : Set.BijOn (fun c => c + s) (box lo hi) (box (lo + s) (hi + s)) := by
  refine ⟨fun c hc d => ?_, fun c _ c' _ h => add_right_cancel h, fun c hc => ?_⟩
  · exact ⟨add_le_add_left (hc d).1 (s d), add_lt_add_left (hc d).2 (s d)⟩
  · refine ⟨c - s, fun d => ?_, sub_add_cancel c s⟩
    exact ⟨le_sub_iff_add_le.mpr (hc d).1, sub_lt_iff_lt_add.mpr (hc d).2⟩

theorem box_eq_piFinset (lo hi : DataSpace DIM) :
    box lo hi = (Fintype.piFinset fun d => Finset.Ico (lo d) (hi d) : Set (DataSpace DIM)) := by
  ext c
  simp [box]

theorem finite_box (lo hi : DataSpace DIM) : (box lo hi).Finite := by
  rw [box_eq_piFinset]
  exact Finset.finite_toSet _

/-- The number of cells of a box. -/
theorem ncard_box (lo hi : DataSpace DIM) (h : ∀ d, lo d ≤ hi d) : ((box lo hi).ncard : ℤ) = ∏ d, (hi d - lo d) := by
  rw [box_eq_piFinset, Set.ncard_coe_finset, Fintype.card_piFinset, Nat.cast_prod]
  refine Finset.prod_congr rfl fun d _ => ?_
  rw [Int.card_Ico, Int.toNat_of_nonneg (sub_nonneg.mpr (h d))]

theorem mem_box_fin_two {lo hi c : DataSpace 2} :
    c ∈ box lo hi ↔ (lo 0 ≤ c 0 ∧ c 0 < hi 0) ∧ (lo 1 ≤ c 1 ∧ c 1 < hi 1) := by
  rw [mem_box, Fin.forall_fin_two]

theorem mem_box_fin_three {lo hi c : DataSpace 3} :
    c ∈ box lo hi ↔
      (lo 0 ≤ c 0 ∧ c 0 < hi 0) ∧ (lo 1 ≤ c 1 ∧ c 1 < hi 1) ∧ (lo 2 ≤ c 2 ∧ c 2 < hi 2) := by
  rw [mem_box, Fin.forall_fin_succ, Fin.forall_fin_two]
  rfl

/-- The blocks of a kernel launch. -/
def blocks (gridDim : DataSpace DIM) : Set (DataSpace DIM) := box 0 gridDim

@[simp] theorem mem_blocks {gridDim b : DataSpace DIM} : b ∈ blocks gridDim ↔ ∀ d, 0 ≤ b d ∧ b d < gridDim d :=
  Iff.rfl

end Box

/-! ## Boxes as products of ranges -/

section Products

variable (a b c w h l : ℤ)

theorem bijOn_box_two :
    Set.BijOn (fun p : ℤ × ℤ => (![p.1 + a, p.2 + b] : DataSpace 2)) (Set.Ico 0 w ×ˢ Set.Ico 0 h)
      (box ![a, b] ![a + w, b + h]) := by
  refine ⟨fun p hp => ?_, fun p _ q _ hpq => ?_, fun v hv => ⟨(v 0 - a, v 1 - b), ?_, ?_⟩⟩
  · obtain ⟨⟨h1, h2⟩, h3, h4⟩ := hp
    simp [Fin.forall_fin_two]
    omega
  · have h0 := congrFun hpq 0
    have h1 := congrFun hpq 1
    exact Prod.ext (add_right_cancel h0) (add_right_cancel h1)
  · rw [mem_box_fin_two] at hv
    simp at hv ⊢
    omega
  · funext d
    fin_cases d <;> simp

/-- The three axes of a box in the order of the index, the outermost last. -/
theorem bijOn_box_three :
    Set.BijOn (fun p : ℤ × ℤ × ℤ => (![p.1 + a, p.2.1 + b, p.2.2 + c] : DataSpace 3))
      (Set.Ico 0 w ×ˢ Set.Ico 0 h ×ˢ Set.Ico 0 l) (box ![a, b, c] ![a + w, b + h, c + l]) := by
  refine ⟨fun p hp => ?_, fun p _ q _ hpq => ?_, fun v hv => ⟨(v 0 - a, v 1 - b, v 2 - c), ?_, ?_⟩⟩
  · obtain ⟨⟨h1, h2⟩, ⟨h3, h4⟩, h5, h6⟩ := hp
    rw [mem_box_fin_three]
    simp
    omega
  · have h0 := congrFun hpq 0
    have h1 := congrFun hpq 1
    have h2 := congrFun hpq 2
    exact Prod.ext (add_right_cancel h0) (Prod.ext (add_right_cancel h1) (add_right_cancel h2))
  · rw [mem_box_fin_three] at hv
    simp at hv ⊢
    omega
  · funext d
    fin_cases d <;> simp

/-- The axes of the box are renamed. -/
theorem bijOn_box_comp {DIM : ℕ} (σ : Equiv.Perm (Fin DIM)) (lo hi : DataSpace DIM) :
    Set.BijOn (fun v : DataSpace DIM => v ∘ σ) (box lo hi) (box (lo ∘ σ) (hi ∘ σ)) := by
  refine ⟨fun v hv d => hv (σ d), fun v _ u _ h => σ.surjective.injective_comp_right h, fun v hv => ?_⟩
  refine ⟨v ∘ σ.symm, fun d => ?_, ?_⟩
  · have := hv (σ.symm d)
    rwa [Function.comp_apply, Function.comp_apply, σ.apply_symm_apply] at this
  · funext d
    exact congrArg v (σ.symm_apply_apply d)

end Products

end Mappings
end Spearhed
