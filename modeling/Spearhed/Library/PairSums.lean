import Mathlib.Algebra.BigOperators.Group.List.Basic
import Mathlib.Algebra.BigOperators.Group.Multiset.Basic
import Mathlib.Algebra.BigOperators.Group.Finset.Basic
import Mathlib.Algebra.Group.Torsion

/-!
# Sums over pairs

A loop over neighbours adds up one number for each pair it accepts.  What it leaves is a sum over
all pairs in which the others count for nothing, in any order (`sum_map_filterMap`,
`sum_map_flatMap`).  If exchanging the partners negates the number, the sum over all ordered pairs
is zero (`sum_pairs_eq_zero`).
-/

namespace Spearhed
namespace Library

variable {α β M : Type*}

section AddMonoid

variable [AddMonoid M]

/-- A loop that adds to an accumulator. -/
theorem foldl_add_eq (l : List α) (g : α → M) (z : M) :
    l.foldl (fun acc a => acc + g a) z = z + (l.map g).sum := by
  induction l generalizing z with
  | nil => rw [List.foldl_nil, List.map_nil, List.sum_nil, add_zero]
  | cons a l ih => rw [List.foldl_cons, ih, List.map_cons, List.sum_cons, add_assoc]

theorem sum_map_flatMap (l : List α) (f : α → List β) (g : β → M) :
    ((l.flatMap f).map g).sum = (l.map fun a => ((f a).map g).sum).sum := by
  induction l with
  | nil => rfl
  | cons a l ih =>
    rw [List.flatMap_cons, List.map_append, List.sum_append, ih, List.map_cons, List.sum_cons]

/-- What is skipped counts for nothing. -/
theorem sum_map_filterMap (l : List α) (f : α → Option β) (g : β → M) :
    ((l.filterMap f).map g).sum = (l.map fun a => (f a).elim 0 g).sum := by
  induction l with
  | nil => rfl
  | cons a l ih =>
    rw [List.map_cons, List.sum_cons, ← ih]
    cases h : f a with
    | none => rw [List.filterMap_cons_none h, Option.elim_none, zero_add]
    | some b =>
      rw [List.filterMap_cons_some h, List.map_cons, List.sum_cons, Option.elim_some]

theorem sum_map_filter (l : List α) (p : α → Bool) (g : α → M) :
    ((l.filter p).map g).sum = (l.map fun a => if p a = true then g a else 0).sum := by
  induction l with
  | nil => rfl
  | cons a l ih =>
    rw [List.map_cons, List.sum_cons, ← ih]
    by_cases h : p a = true
    · rw [List.filter_cons_of_pos h, List.map_cons, List.sum_cons, if_pos h]
    · rw [List.filter_cons_of_neg h, if_neg h, zero_add]

end AddMonoid

/-- Two nested sums may be swapped. -/
theorem sum_map_sum_comm [AddCommMonoid M] (l : List α) (l' : List β) (f : α → β → M) :
    (l.map fun a => (l'.map fun b => f a b).sum).sum =
      (l'.map fun b => (l.map fun a => f a b).sum).sum := by
  simpa only [Multiset.map_coe, Multiset.sum_coe] using
    Multiset.sum_map_sum_map (l : Multiset α) (l' : Multiset β) (f := f)

theorem sum_map_finset_sum {ι : Type*} [AddCommMonoid M] (l : List α) (s : Finset ι)
    (f : ι → α → M) : ∑ i ∈ s, (l.map (f i)).sum = (l.map fun a => ∑ i ∈ s, f i a).sum := by
  induction l with
  | nil => exact Finset.sum_const_zero
  | cons a l ih => simp only [List.map_cons, List.sum_cons, Finset.sum_add_distrib, ih]

theorem sum_map_neg [SubtractionCommMonoid M] (l : List α) (g : α → M) :
    (l.map fun a => -g a).sum = -(l.map g).sum := by
  rw [List.sum_neg, List.map_map]
  rfl

/-- A sum without the terms of some elements. -/
theorem sum_map_ite_zero [AddCommGroup M] (l : List α) (skip : α → Bool) (g : α → M) :
    (l.map fun a => if skip a = true then 0 else g a).sum =
      (l.map g).sum - ((l.filter skip).map g).sum := by
  rw [sum_map_filter, eq_sub_iff_add_eq, ← List.sum_map_add]
  refine congrArg List.sum (List.map_congr_left fun a _ => ?_)
  by_cases hskip : skip a = true
  · rw [if_pos hskip, if_pos hskip, zero_add]
  · rw [if_neg hskip, if_neg hskip, add_zero]

/-- **Action and reaction.**  What changes sign when the partners are exchanged adds up to zero. -/
theorem sum_pairs_eq_zero [AddCommGroup M] [IsAddTorsionFree M]
    {l : List α} {f : α → α → M} (h : ∀ a ∈ l, ∀ b ∈ l, f a b = -f b a) :
    (l.map fun a => (l.map fun b => f a b).sum).sum = 0 := by
  have hneg : (l.map fun a => (l.map fun b => f a b).sum).sum =
      -(l.map fun a => (l.map fun b => f a b).sum).sum := by
    calc (l.map fun a => (l.map fun b => f a b).sum).sum
        = (l.map fun a => (l.map fun b => -f b a).sum).sum := by
          refine congrArg List.sum (List.map_congr_left fun a ha => congrArg List.sum ?_)
          exact List.map_congr_left fun b hb => h a ha b hb
      _ = -(l.map fun a => (l.map fun b => f b a).sum).sum := by
          simp only [sum_map_neg]
      _ = -(l.map fun a => (l.map fun b => f a b).sum).sum := by
          rw [sum_map_sum_comm]
  exact self_eq_neg.mp hneg

end Library
end Spearhed
