import Mathlib.Algebra.BigOperators.Group.Finset.Basic
import Mathlib.Algebra.Order.BigOperators.Ring.Finset
import Mathlib.Algebra.Order.Ring.Int
import Mathlib.Tactic.Linarith

/-!
# Arithmetic of 32-bit integers

An `int` is an integer from `-2 ^ 31` to `2 ^ 31 - 1`.  What does not fit wraps around, so a sum or a
product may be wrapped at the end only: `int32_int32_mul`.
-/

namespace Spearhed
namespace Library

/-- The integers that an `int` holds. -/
def IsInt32 (x : ℤ) : Prop := -2 ^ 31 ≤ x ∧ x < 2 ^ 31

instance (x : ℤ) : Decidable (IsInt32 x) := inferInstanceAs (Decidable (_ ∧ _))

/-- The `int` that an integer wraps around to. -/
def int32 (x : ℤ) : ℤ := x.bmod (2 ^ 32)

theorem isInt32_int32 (x : ℤ) : IsInt32 (int32 x) := by
  have hlow := Int.le_bmod (x := x) (m := 2 ^ 32) (by norm_num)
  have hhigh := Int.bmod_lt (x := x) (m := 2 ^ 32) (by norm_num)
  norm_num at hlow hhigh
  exact ⟨hlow, hhigh⟩

theorem int32_eq_self {x : ℤ} (h : IsInt32 x) : int32 x = x :=
  Int.bmod_eq_of_le (by norm_num; exact h.1) (by norm_num; exact h.2)

theorem int32_eq_of_nonneg {x : ℤ} (h : 0 ≤ x) (hlt : x < 2 ^ 31) : int32 x = x :=
  int32_eq_self ⟨by omega, hlt⟩

/-- An integer is its `int` and some multiple of `2 ^ 32`. -/
theorem exists_int32_eq (x : ℤ) : ∃ k, int32 x = x + 2 ^ 32 * k := by
  obtain ⟨k, hk⟩ := Int.dvd_bmod_sub_self (x := x) (m := 2 ^ 32)
  refine ⟨k, ?_⟩
  norm_num at hk
  rw [int32]
  norm_num
  omega

@[simp] theorem int32_int32 (x : ℤ) : int32 (int32 x) = int32 x := Int.bmod_bmod

theorem int32_int32_mul (x y : ℤ) : int32 (int32 x * y) = int32 (x * y) := Int.bmod_mul_bmod

theorem int32_mul_int32 (x y : ℤ) : int32 (x * int32 y) = int32 (x * y) := Int.mul_bmod_bmod

theorem int32_int32_add (x y : ℤ) : int32 (int32 x + y) = int32 (x + y) := Int.bmod_add_bmod

theorem int32_sub_int32 (x y : ℤ) : int32 (x - int32 y) = int32 (x - y) := Int.sub_bmod_bmod

theorem int32_add_int32 (x y : ℤ) : int32 (x + int32 y) = int32 (x + y) := Int.add_bmod_bmod

/-- Where all factors grow by the same steps twice, the second increment of the product is the larger one. -/
theorem two_mul_prod_le {ι : Type*} (s : Finset ι) {a t : ι → ℤ} (ha : ∀ i ∈ s, 0 ≤ a i) (ht : ∀ i ∈ s, 0 ≤ t i) :
    2 * ∏ i ∈ s, (a i + t i) ≤ ∏ i ∈ s, (a i + 2 * t i) + ∏ i ∈ s, a i := by
  classical
  induction s using Finset.induction_on with
  | empty => simp
  | insert i s hi ih =>
    have hai := ha i (Finset.mem_insert_self i s)
    have hti := ht i (Finset.mem_insert_self i s)
    have ha' : ∀ j ∈ s, 0 ≤ a j := fun j hj => ha j (Finset.mem_insert_of_mem hj)
    have ht' : ∀ j ∈ s, 0 ≤ t j := fun j hj => ht j (Finset.mem_insert_of_mem hj)
    have hle : ∏ j ∈ s, (a j + t j) ≤ ∏ j ∈ s, (a j + 2 * t j) :=
      Finset.prod_le_prod (fun j hj => add_nonneg (ha' j hj) (ht' j hj))
        fun j hj => by linarith [ht' j hj]
    rw [Finset.prod_insert hi, Finset.prod_insert hi, Finset.prod_insert hi]
    have hconvex := mul_le_mul_of_nonneg_left (ih ha' ht') hai
    have hgrow := mul_le_mul_of_nonneg_left hle hti
    linarith

end Library
end Spearhed
