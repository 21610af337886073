import Mathlib.Data.Multiset.Bind
import Mathlib.Algebra.BigOperators.Group.List.Basic
import Mathlib.Data.List.GetD
import Mathlib.Data.List.OfFn
import Mathlib.Data.List.Nodup
import Mathlib.Order.Basic
import Mathlib.Tactic.Ring

/-!
# Blocks laid out one after the other

Several lists of the program are stored as one flat array: block `k` occupies the positions
from `blockStart counts k` up to `blockStart counts (k + 1)`.  The counts are the lengths of the
blocks, zero allowed.

* `blockStart`: the exclusive prefix sum.
* `InBlock`: position `i` lies in block `k`.
* `exists_inBlock`, `InBlock.unique`: every position of the array lies in exactly one block.
* `map_range_eq_flatten`: reading the array from front to end gives the blocks in order.
* `filter_flatMap_key`, `perm_flatMap_filter_key`: the items of blocks that carry keys.
-/

namespace Spearhed
namespace Library

/-- The exclusive prefix sum: where block `k` begins. -/
def blockStart (counts : List ℕ) (k : ℕ) : ℕ := (counts.take k).sum

@[simp] theorem blockStart_zero (counts : List ℕ) : blockStart counts 0 = 0 := by
  simp [blockStart]

theorem blockStart_length (counts : List ℕ) : blockStart counts counts.length = counts.sum := by
  simp [blockStart]

theorem blockStart_succ (counts : List ℕ) (k : ℕ) :
    blockStart counts (k + 1) = blockStart counts k + counts.getD k 0 := by
  unfold blockStart
  by_cases hk : k < counts.length
  · rw [List.sum_take_succ counts k hk, List.getD_eq_getElem _ _ hk]
  · have hk' : counts.length ≤ k := by omega
    rw [List.take_of_length_le (by omega), List.take_of_length_le hk',
      List.getD_eq_default _ _ hk', Nat.add_zero]

theorem blockStart_le_succ (counts : List ℕ) (k : ℕ) :
    blockStart counts k ≤ blockStart counts (k + 1) := by
  rw [blockStart_succ]
  exact Nat.le_add_right _ _

theorem blockStart_mono (counts : List ℕ) : Monotone (blockStart counts) :=
  monotone_nat_of_le_succ (blockStart_le_succ counts)

/-- The first block starts at zero, the others are shifted by it. -/
theorem blockStart_cons_succ (c : ℕ) (counts : List ℕ) (k : ℕ) :
    blockStart (c :: counts) (k + 1) = c + blockStart counts k := by
  simp [blockStart]

/-- Appending blocks does not move the ones already there. -/
theorem blockStart_append_of_le {counts : List ℕ} (counts' : List ℕ) {k : ℕ}
    (hk : k ≤ counts.length) : blockStart (counts ++ counts') k = blockStart counts k := by
  rw [blockStart, blockStart, List.take_append_of_le_length hk]

theorem blockStart_le_sum (counts : List ℕ) (k : ℕ) : blockStart counts k ≤ counts.sum := by
  rcases le_or_gt k counts.length with hk | hk
  · rw [← blockStart_length]
    exact blockStart_mono counts hk
  · rw [blockStart, List.take_of_length_le (by omega)]

/-- The length of a block, where the counts are given as a function. -/
theorem getD_ofFn {n : ℕ} (counts : Fin n → ℕ) (k : Fin n) :
    (List.ofFn counts).getD k 0 = counts k := by
  rw [List.getD_eq_getElem _ _ (by rw [List.length_ofFn]; exact k.isLt), List.getElem_ofFn]

/-- Position `i` of the array lies in block `k`. -/
def InBlock (counts : List ℕ) (k i : ℕ) : Prop :=
  blockStart counts k ≤ i ∧ i < blockStart counts (k + 1)

instance (counts : List ℕ) (k i : ℕ) : Decidable (InBlock counts k i) :=
  inferInstanceAs (Decidable (_ ∧ _))

theorem InBlock.lt_length {counts : List ℕ} {k i : ℕ} (h : InBlock counts k i) :
    k < counts.length := by
  by_contra hk
  have h0 : counts.getD k 0 = 0 := List.getD_eq_default _ _ (by omega)
  have := h.2
  rw [blockStart_succ, h0] at this
  have := h.1
  omega

theorem InBlock.lt_sum {counts : List ℕ} {k i : ℕ} (h : InBlock counts k i) :
    i < counts.sum :=
  lt_of_lt_of_le h.2 (blockStart_le_sum counts (k + 1))

/-- The position inside its block is below the block's length. -/
theorem InBlock.sub_lt {counts : List ℕ} {k i : ℕ} (h : InBlock counts k i) :
    i - blockStart counts k < counts.getD k 0 := by
  have h1 := h.1
  have h2 := h.2
  rw [blockStart_succ] at h2
  omega

/-- The positions of block `k`, by their offset in it. -/
theorem inBlock_add {counts : List ℕ} {k i : ℕ} (h : i < counts.getD k 0) :
    InBlock counts k (blockStart counts k + i) := by
  refine ⟨Nat.le_add_right _ _, ?_⟩
  rw [blockStart_succ]
  omega

/-- Later blocks hold later positions. -/
theorem InBlock.lt_of_lt {counts : List ℕ} {k l i j : ℕ} (hi : InBlock counts k i)
    (hj : InBlock counts l j) (hkl : k < l) : i < j :=
  calc i < blockStart counts (k + 1) := hi.2
    _ ≤ blockStart counts l := blockStart_mono counts hkl
    _ ≤ j := hj.1

/-- A position lies in one block only. -/
theorem InBlock.unique {counts : List ℕ} {k l i : ℕ} (hk : InBlock counts k i)
    (hl : InBlock counts l i) : k = l := by
  rcases lt_trichotomy k l with h | h | h
  · exact absurd (hk.lt_of_lt hl h) (lt_irrefl i)
  · exact h
  · exact absurd (hl.lt_of_lt hk h) (lt_irrefl i)

/-- **Every position lies in a block.** -/
theorem exists_inBlock {counts : List ℕ} {i : ℕ} (hi : i < counts.sum) :
    ∃ k, InBlock counts k i := by
  by_contra hno
  have hbelow : ∀ k, blockStart counts k ≤ i := by
    intro k
    induction k with
    | zero => simp
    | succ k ih =>
      by_contra hk
      exact hno ⟨k, ih, by omega⟩
  have := hbelow counts.length
  rw [blockStart_length] at this
  omega

/-- Reading an array that holds a list of lists block by block, or something computed from it, is
reading the lists one after the other. -/
theorem map_range_eq_flatten {α β : Type*} (lists : List (List α)) (f : ℕ → β) (G : α → β)
    (hf : ∀ k i l x, lists[k]? = some l → l[i]? = some x →
      f (blockStart (lists.map List.length) k + i) = G x) :
    (List.range (lists.map List.length).sum).map f = lists.flatten.map G := by
  induction lists generalizing f with
  | nil => rfl
  | cons l lists ih =>
    rw [List.map_cons, List.sum_cons, List.range_add, List.map_append, List.flatten_cons,
      List.map_append, List.map_map]
    congr 1
    · refine List.ext_getElem (by simp) fun i hi hi' => ?_
      rw [List.length_map] at hi'
      rw [List.getElem_map, List.getElem_range, List.getElem_map]
      have := hf 0 i l l[i] rfl (List.getElem?_eq_getElem hi')
      rwa [blockStart_zero, Nat.zero_add] at this
    · refine ih (f ∘ (l.length + ·)) fun k i l' x hl hx => ?_
      have := hf (k + 1) i l' x hl hx
      rwa [List.map_cons, blockStart_cons_succ, Nat.add_assoc] at this

/-- The items of the blocks laid out one after the other, by block and offset. -/
theorem getElem?_flatMap_blockStart {α β : Type*} {l : List α} {f : α → List β} {k i : ℕ} {a : α}
    {b : β} (hk : l[k]? = some a) (hi : (f a)[i]? = some b) :
    (l.flatMap f)[blockStart (l.map fun a => (f a).length) k + i]? = some b := by
  induction l generalizing k with
  | nil => cases hk
  | cons head l ih =>
    rw [List.flatMap_cons, List.map_cons]
    cases k with
    | zero =>
      obtain rfl := Option.some.inj hk
      rw [blockStart_zero, Nat.zero_add, List.getElem?_append_left
        (List.getElem?_eq_some_iff.mp hi).1]
      exact hi
    | succ k =>
      rw [blockStart_cons_succ, Nat.add_assoc, List.getElem?_append_right (Nat.le_add_right _ _),
        Nat.add_sub_cancel_left]
      exact ih hk

/-- Where every item of a block carries the block's key, the items with one key are those of the
blocks with that key. -/
theorem filter_flatMap_key {α β κ : Type*} [DecidableEq κ] {l : List α} {f : α → List β}
    {key : β → κ} {blockKey : α → κ} (hkey : ∀ a ∈ l, ∀ b ∈ f a, key b = blockKey a) (k : κ) :
    (l.flatMap f).filter (fun b => decide (key b = k)) =
      (l.filter fun a => decide (blockKey a = k)).flatMap f := by
  induction l with
  | nil => rfl
  | cons a l ih =>
    rw [List.flatMap_cons, List.filter_append,
      ih fun a' ha' => hkey a' (List.mem_cons_of_mem a ha')]
    by_cases ha : blockKey a = k
    · have hall : (f a).filter (fun b => decide (key b = k)) = f a :=
        List.filter_eq_self.mpr fun b hb =>
          decide_eq_true ((hkey a List.mem_cons_self b hb).trans ha)
      rw [List.filter_cons_of_pos (by simpa using ha), List.flatMap_cons, hall]
    · have hnone : (f a).filter (fun b => decide (key b = k)) = [] :=
        List.filter_eq_nil_iff.mpr fun b hb => by
          rw [hkey a List.mem_cons_self b hb]
          simpa using ha
      rw [List.filter_cons_of_neg (by simpa using ha), hnone, List.nil_append]

/-- The items of a list, sorted by keys below a bound. -/
theorem perm_flatMap_filter_key {α : Type*} {l : List α} {key : α → ℕ} {n : ℕ}
    (h : ∀ a ∈ l, key a < n) :
    l.Perm ((List.range n).flatMap fun k => l.filter fun a => decide (key a = k)) := by
  have hbelow : ∀ n, (l.filter fun a => decide (key a < n)).Perm
      ((List.range n).flatMap fun k => l.filter fun a => decide (key a = k)) := by
    intro n
    induction n with
    | zero => simp
    | succ n ih =>
      rw [List.range_succ, List.flatMap_append, List.flatMap_singleton]
      refine (List.filter_append_perm (fun a => decide (key a < n)) _).symm.trans ?_
      rw [List.filter_filter, List.filter_filter]
      refine List.Perm.append ((List.Perm.of_eq (List.filter_congr fun a _ => ?_)).trans ih)
        (List.Perm.of_eq (List.filter_congr fun a _ => ?_))
      · rw [Bool.eq_iff_iff]
        simp only [Bool.and_eq_true, decide_eq_true_eq]
        omega
      · rw [Bool.eq_iff_iff]
        simp only [Bool.and_eq_true, Bool.not_eq_true', decide_eq_false_iff_not, decide_eq_true_eq]
        omega
  have hall := hbelow n
  rwa [List.filter_eq_self.mpr fun a ha => decide_eq_true (h a ha)] at hall

/-- Two nested loops may be exchanged. -/
theorem flatMap_flatMap_perm {α β γ : Type*} (l : List α) (l' : List β) (f : α → β → List γ) :
    (l.flatMap fun a => l'.flatMap (f a)).Perm (l'.flatMap fun b => l.flatMap fun a => f a b) := by
  have h := Multiset.bind_bind (l : Multiset α) (l' : Multiset β) (f := fun a b => (f a b : Multiset γ))
  simp only [Multiset.coe_bind] at h
  exact Multiset.coe_eq_coe.mp h

/-- An element of a list without duplicates is found once. -/
theorem filter_eq_singleton {α : Type*} [DecidableEq α] {l : List α} (hl : l.Nodup) {a : α}
    (ha : a ∈ l) : l.filter (fun b => decide (b = a)) = [a] := by
  have hcount := List.filter_beq (l := l) a
  rw [List.count_eq_one_of_mem hl ha] at hcount
  exact hcount

end Library
end Spearhed
