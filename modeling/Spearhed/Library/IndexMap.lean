import Mathlib.Tactic
import Spearhed.Library.Blocks

/-!
# Index maps

An index map hands out the indices below a bound to a number of groups (blocks of a grid, workers of
a block), each index to one group.  What the groups do with their indices is then done once for every
index, whichever map is used.

* `IndexMap`: the indices of a group, together with the fact that they partition the range.
* `IndexMap.flatMap_indices_perm`: a loop over the indices of every group is a loop over the range.
* `IndexMap.strided`, `IndexMap.contiguous`: every `groups`-th index, and ranges of nearly equal
  length.
-/

namespace Spearhed
namespace Library

/-- The indices below `total` that a group among `groups` takes. -/
structure IndexMap where
  indices : (total groups group : ℕ) → List (Fin total)
  /-- Together the groups take every index once. -/
  partition : ∀ total groups, 0 < groups →
    ((List.range groups).flatMap (indices total groups)).Perm (List.finRange total)

/-- Groups that are described by a test partition a list, where every element passes the test of
exactly one. -/
theorem flatMap_filter_perm {α : Type*} {l : List α} {n : ℕ} {p : ℕ → α → Prop}
    [∀ k, DecidablePred (p k)] (h : ∀ a ∈ l, ∃ k < n, ∀ j < n, p j a ↔ j = k) :
    ((List.range n).flatMap fun k => l.filter fun a => decide (p k a)).Perm l := by
  classical
  have hkey : ∃ key : α → ℕ, ∀ a ∈ l, key a < n ∧ ∀ j < n, p j a ↔ j = key a := by
    choose key hlt hkey using h
    refine ⟨fun a => if ha : a ∈ l then key a ha else 0, fun a ha => ?_⟩
    dsimp only
    rw [dif_pos ha]
    exact ⟨hlt a ha, hkey a ha⟩
  obtain ⟨key, hkey⟩ := hkey
  refine List.Perm.trans (List.Perm.of_eq ?_)
    (perm_flatMap_filter_key fun a ha => (hkey a ha).1).symm
  refine List.flatMap_congr fun k hk => List.filter_congr fun a ha => ?_
  rw [decide_eq_decide, (hkey a ha).2 k (List.mem_range.mp hk)]
  exact eq_comm

namespace IndexMap

/-- **A loop over the indices of every group is a loop over the range.** -/
theorem flatMap_indices_perm (map : IndexMap) {β : Type*} {total groups : ℕ} (hgroups : 0 < groups)
    (f : Fin total → List β) :
    ((List.range groups).flatMap fun g => (map.indices total groups g).flatMap f).Perm
      ((List.finRange total).flatMap f) := by
  rw [← List.flatMap_assoc]
  exact (map.partition total groups hgroups).flatMap_right f

/-- Group `g` takes `g`, `g + groups`, `g + 2 groups`, … -/
def strided : IndexMap where
  indices := fun total groups group =>
    (List.finRange total).filter fun i => decide (i.val % groups = group)
  partition := fun _ _ hgroups =>
    (perm_flatMap_filter_key fun i _ => Nat.mod_lt i.val hgroups).symm

/-- The lengths of the ranges: the first `total % groups` are one longer than the others. -/
def rangeLengths (total groups : ℕ) : List ℕ :=
  (List.range groups).map fun g => total / groups + if g < total % groups then 1 else 0

theorem sum_rangeLengths (total : ℕ) {groups : ℕ} (hgroups : 0 < groups) :
    (rangeLengths total groups).sum = total := by
  have hprefix : ∀ n, ((List.range n).map fun g =>
      total / groups + if g < total % groups then 1 else 0).sum =
      n * (total / groups) + min n (total % groups) := by
    intro n
    induction n with
    | zero => simp
    | succ n ih =>
      rw [List.range_succ, List.map_append, List.sum_append, ih, List.map_singleton,
        List.sum_singleton, Nat.succ_mul]
      split <;> omega
  have hmod : total % groups < groups := Nat.mod_lt total hgroups
  rw [rangeLengths, hprefix, Nat.min_eq_right hmod.le]
  exact Nat.div_add_mod total groups

/-- Consecutive ranges, one for every group. -/
def contiguous : IndexMap where
  indices := fun total groups group =>
    (List.finRange total).filter fun i => decide (InBlock (rangeLengths total groups) group i.val)
  partition := fun total groups hgroups => by
    refine flatMap_filter_perm fun i _ => ?_
    have hi : i.val < (rangeLengths total groups).sum := by
      rw [sum_rangeLengths total hgroups]
      exact i.isLt
    obtain ⟨k, hk⟩ := exists_inBlock hi
    have hlength : (rangeLengths total groups).length = groups := by
      rw [rangeLengths, List.length_map, List.length_range]
    refine ⟨k, hlength ▸ hk.lt_length, fun j _ => ⟨fun hj => hj.unique hk, ?_⟩⟩
    rintro rfl
    exact hk

end IndexMap

end Library
end Spearhed
