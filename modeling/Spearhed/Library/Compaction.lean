import Mathlib.Tactic
import Mathlib.Data.List.Basic

/-!
# Compacting an array in place

A loop walks over an array with two positions: it reads at one and, where the element is kept,
writes at the other and moves on.  The write position never overtakes the read position, so every
element is read before it is overwritten, and the written part ends up as the kept elements in
their old order (`slide_spec`).

Which positions are kept is an arbitrary predicate, so one statement serves several arrays that
are compacted in step.
-/

namespace Spearhed
namespace Library

variable {β : Type*}

/-- The array and the write position after `i` iterations. -/
def slide (keep : ℕ → Bool) (xs : List β) : ℕ → List β × ℕ
  | 0 => (xs, 0)
  | i + 1 =>
    let r := slide keep xs i
    if keep i then
      ((match r.1[i]? with
        | some x => r.1.set r.2 x
        | none => r.1), r.2 + 1)
    else r

/-- The elements at the kept positions below `i`. -/
def keptBelow (keep : ℕ → Bool) (xs : List β) (i : ℕ) : List β :=
  ((List.range i).filter keep).filterMap fun k => xs[k]?

theorem keptBelow_succ (keep : ℕ → Bool) (xs : List β) {i : ℕ} {x : β} (hx : xs[i]? = some x) :
    keptBelow keep xs (i + 1) = keptBelow keep xs i ++ if keep i then [x] else [] := by
  rw [keptBelow, keptBelow, List.range_succ, List.filter_append, List.filterMap_append]
  by_cases hk : keep i = true
  · simp [hk, hx]
  · simp [hk]

/-- **The loop invariant.**  The written part holds the kept elements, the unread part is
untouched. -/
theorem slide_spec (keep : ℕ → Bool) (xs : List β) {i : ℕ} (hi : i ≤ xs.length) :
    (slide keep xs i).2 ≤ i ∧ (slide keep xs i).1.length = xs.length ∧
      (slide keep xs i).1.take (slide keep xs i).2 = keptBelow keep xs i ∧
      ∀ j, i ≤ j → (slide keep xs i).1[j]? = xs[j]? := by
  induction i with
  | zero => simp [slide, keptBelow]
  | succ i ih =>
    obtain ⟨hout, hlen, htake, hrest⟩ := ih (by omega)
    obtain ⟨x, hx⟩ : ∃ x, xs[i]? = some x := ⟨_, List.getElem?_eq_getElem (by omega)⟩
    rw [keptBelow_succ keep xs hx, slide]
    by_cases hk : keep i = true
    · simp only [hk, if_true, hrest i le_rfl, hx]
      refine ⟨by omega, by rw [List.length_set, hlen], ?_, fun j hj => ?_⟩
      · rw [List.take_add_one, List.take_set, List.getElem?_set_self (by omega), htake,
          List.set_eq_of_length_le]
        · rfl
        · rw [← htake, List.length_take]
          omega
      · rw [List.getElem?_set_ne (by omega)]
        exact hrest j (by omega)
    · simp only [hk, Bool.false_eq_true, if_false, List.append_nil]
      exact ⟨by omega, hlen, htake, fun j hj => hrest j (by omega)⟩

theorem slide_snd (keep : ℕ → Bool) (xs : List β) (i : ℕ) :
    (slide keep xs i).2 = ((List.range i).filter keep).length := by
  induction i with
  | zero => rfl
  | succ i ih =>
    rw [slide, List.range_succ, List.filter_append, List.length_append]
    by_cases hk : keep i = true
    · simp [hk, ih]
    · simp [hk, ih]

/-! ## Counting by position -/

/-- Counting the positions whose element satisfies `p` counts the elements that do. -/
theorem countP_range_getElem? (p : β → Bool) (xs : List β) :
    (List.range xs.length).countP (fun k => (xs[k]?).any p) = xs.countP p := by
  induction xs using List.reverseRecOn with
  | nil => rfl
  | append_singleton xs x ih =>
    rw [List.length_append, List.length_singleton, List.range_succ, List.countP_append,
      List.countP_append, ← ih]
    refine congrArg₂ _ (List.countP_congr fun k hk => ?_) ?_
    · rw [List.getElem?_append_left (List.mem_range.mp hk)]
    · simp

/-- Two predicates on positions that differ at most at `k`. -/
theorem countP_range_of_ne_at {P Q : ℕ → Bool} {n k : ℕ} (hk : k < n)
    (h : ∀ j, j < n → j ≠ k → P j = Q j) :
    (List.range n).countP P + (Q k).toNat = (List.range n).countP Q + (P k).toNat := by
  induction n with
  | zero => omega
  | succ n ih =>
    rw [List.range_succ, List.countP_append, List.countP_append, List.countP_singleton,
      List.countP_singleton]
    rcases Nat.lt_succ_iff_lt_or_eq.mp hk with hlt | rfl
    · have hrest := ih hlt fun j hj => h j (by omega)
      rw [h n (Nat.lt_succ_self n) (by omega)]
      omega
    · have hrest : (List.range k).countP P = (List.range k).countP Q := by
        refine List.countP_congr fun j hj => ?_
        have hlt := List.mem_range.mp hj
        rw [h j (by omega) (by omega)]
      rw [hrest]
      cases P k <;> cases Q k <;> simp

/-- The kept elements that satisfy `p`, counted by their old positions. -/
theorem countP_keptBelow (keep : ℕ → Bool) (xs : List β) (i : ℕ) (p : β → Bool) :
    (keptBelow keep xs i).countP p =
      (List.range i).countP fun k => keep k && (xs[k]?).any p := by
  rw [keptBelow, List.countP_filterMap, List.countP_filter]
  refine List.countP_congr fun k _ => ?_
  cases xs[k]? <;> simp [and_comm]

/-! ## The kept elements by position -/

theorem getElem?_filterMap_getElem? {xs : List β} {l : List ℕ} (hl : ∀ k ∈ l, k < xs.length) (j : ℕ) :
    (l.filterMap fun k => xs[k]?)[j]? = l[j]?.bind fun k => xs[k]? := by
  induction l generalizing j with
  | nil => rfl
  | cons k l ih =>
    have hk := List.getElem?_eq_getElem (hl k List.mem_cons_self)
    rw [List.filterMap_cons_some hk]
    cases j with
    | zero => rw [List.getElem?_cons_zero, List.getElem?_cons_zero, Option.bind_some, hk]
    | succ j => rw [List.getElem?_cons_succ, List.getElem?_cons_succ, ih fun k' hk' => hl k' (List.mem_cons_of_mem k hk')]

/-- Lists that are compacted in step keep their elements in step. -/
theorem getElem?_keptBelow (keep : ℕ → Bool) (xs : List β) {i : ℕ} (hi : i ≤ xs.length) (j : ℕ) :
    (keptBelow keep xs i)[j]? = ((List.range i).filter keep)[j]?.bind fun k => xs[k]? :=
  getElem?_filterMap_getElem? (fun _ hk => (List.mem_range.mp (List.mem_of_mem_filter hk)).trans_le hi) j

theorem filterMap_range_getElem? (xs : List β) : ((List.range xs.length).filterMap fun k => xs[k]?) = xs := by
  refine List.ext_getElem? fun j => ?_
  rw [getElem?_filterMap_getElem? fun k hk => List.mem_range.mp hk]
  by_cases hj : j < xs.length
  · rw [List.getElem?_range hj, Option.bind_some]
  · rw [List.getElem?_eq_none (by rw [List.length_range]; omega), List.getElem?_eq_none (by omega), Option.bind_none]

/-- Where everything is kept, nothing changes. -/
theorem keptBelow_eq_self {keep : ℕ → Bool} {xs : List β} (h : ∀ k < xs.length, keep k = true) :
    keptBelow keep xs xs.length = xs := by
  rw [keptBelow, List.filter_eq_self.mpr fun k hk => h k (List.mem_range.mp hk), filterMap_range_getElem?]

/-- **Compaction keeps the order.** -/
theorem keptBelow_sublist (keep : ℕ → Bool) (xs : List β) : (keptBelow keep xs xs.length).Sublist xs := by
  have h := (List.filter_sublist (p := keep) (l := List.range xs.length)).filterMap fun k => xs[k]?
  rwa [filterMap_range_getElem?] at h

theorem keptBelow_map {γ : Type*} (keep : ℕ → Bool) (f : β → γ) (xs : List β) (i : ℕ) :
    keptBelow keep (xs.map f) i = (keptBelow keep xs i).map f := by
  rw [keptBelow, keptBelow, List.map_filterMap]
  exact List.filterMap_congr fun k _ => List.getElem?_map

theorem keptBelow_congr {keep keep' : ℕ → Bool} (xs : List β) {i : ℕ} (h : ∀ k < i, keep k = keep' k) :
    keptBelow keep xs i = keptBelow keep' xs i := by
  rw [keptBelow, keptBelow, List.filter_congr fun k hk => h k (List.mem_range.mp hk)]

/-- One position less is kept. -/
theorem keptBelow_perm_cons {keep keep' : ℕ → Bool} {xs : List β} {k : ℕ} {x : β} (hx : xs[k]? = some x)
    (hkeep : keep k = true) (hkeep' : keep' k = false) (h : ∀ j, j ≠ k → keep j = keep' j) :
    (keptBelow keep xs xs.length).Perm (x :: keptBelow keep' xs xs.length) := by
  have hk : k < xs.length := (List.getElem?_eq_some_iff.mp hx).1
  have hperm : ((List.range xs.length).filter keep).Perm (k :: (List.range xs.length).filter keep') := by
    refine (List.perm_ext_iff_of_nodup (List.nodup_range.filter _) (List.nodup_cons.mpr ⟨?_, List.nodup_range.filter _⟩)).mpr
      fun j => ?_
    · rw [List.mem_filter, hkeep']
      exact fun hmem => Bool.noConfusion hmem.2
    · rw [List.mem_cons, List.mem_filter, List.mem_filter]
      rcases eq_or_ne j k with rfl | hne
      · exact ⟨fun _ => Or.inl rfl, fun _ => ⟨List.mem_range.mpr hk, hkeep⟩⟩
      · rw [h j hne]
        exact ⟨Or.inr, fun hj => hj.resolve_left hne⟩
  have hmap := hperm.filterMap fun k => xs[k]?
  rwa [List.filterMap_cons_some hx] at hmap

end Library
end Spearhed
