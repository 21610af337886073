import Mathlib.Tactic
import Mathlib.Data.Fintype.BigOperators
import Spearhed.Library.StepSystem

/-!
# Appending through a shared cursor

Several blocks append to one array.  Each block has a cursor; a worker that has an item to append
first takes the cursor's value and advances it, atomically, and later writes the item to the place
it took.  The two actions of one worker may be separated by any number of actions of others, in the
same block or in another.

The model keeps, for each block, the list of items in the order in which they took the cursor; the
`k`-th of them owns place `place b k`.  Items are taken in any order, which covers every order in
which workers loop over their own.  Every run ends with each item appended once
(`claimed_perm_of_terminal`); when places of different blocks and different positions differ, each
is in its own place (`memory_of_terminal`), whatever the order of the writes.
-/

namespace Spearhed
namespace Library

variable {β ι π γ : Type*} [DecidableEq β] [DecidableEq π]

/-- What the blocks have to append, where, and as what. -/
structure SharedCursor (β ι π γ : Type*) where
  /-- The items of each block. -/
  items : β → List ι
  nodup : ∀ b, (items b).Nodup
  /-- The place that position `k` of block `b`'s cursor stands for. -/
  place : β → ℕ → π
  /-- What is written for an item. -/
  value : ι → γ

namespace SharedCursor

/-- A state of the appending blocks. -/
structure State (β ι π γ : Type*) where
  /-- The items that took the cursor of each block, in order. -/
  claimed : β → List ι
  /-- The items of each block that are written. -/
  written : β → List ι
  memory : π → γ

namespace State

variable (s : State β ι π γ) (b : β) (x : ι)

/-- An item takes the cursor of its block. -/
def claim : State β ι π γ :=
  { s with claimed := Function.update s.claimed b (s.claimed b ++ [x]) }

/-- An item is written to its place. -/
def write (p : π) (v : γ) : State β ι π γ :=
  { s with
    written := Function.update s.written b (x :: s.written b)
    memory := Function.update s.memory p v }

omit [DecidableEq π] in
@[simp] theorem claim_claimed_self : (s.claim b x).claimed b = s.claimed b ++ [x] :=
  Function.update_self ..

omit [DecidableEq π] in
@[simp] theorem claim_claimed_of_ne {c : β} (h : c ≠ b) :
    (s.claim b x).claimed c = s.claimed c :=
  Function.update_of_ne h ..

@[simp] theorem write_written_self (p : π) (v : γ) :
    (s.write b x p v).written b = x :: s.written b :=
  Function.update_self ..

@[simp] theorem write_written_of_ne (p : π) (v : γ) {c : β} (h : c ≠ b) :
    (s.write b x p v).written c = s.written c :=
  Function.update_of_ne h ..

@[simp] theorem write_memory_self (p : π) (v : γ) : (s.write b x p v).memory p = v :=
  Function.update_self ..

@[simp] theorem write_memory_of_ne (p : π) (v : γ) {q : π} (h : q ≠ p) :
    (s.write b x p v).memory q = s.memory q :=
  Function.update_of_ne h ..

end State

variable (C : SharedCursor β ι π γ)

/-- One atomic action of one worker. -/
inductive Step : State β ι π γ → State β ι π γ → Prop
  | claim {s : State β ι π γ} {b : β} {x : ι} (hx : x ∈ C.items b) (hnew : x ∉ s.claimed b) :
      Step s (s.claim b x)
  | write {s : State β ι π γ} {b : β} {k : ℕ} {x : ι} (hk : (s.claimed b)[k]? = some x)
      (hnew : x ∉ s.written b) : Step s (s.write b x (C.place b k) (C.value x))

/-- All runs from a given memory. -/
def system (memory : π → γ) : StepSystem (State β ι π γ) where
  init := fun s => s = ⟨fun _ => [], fun _ => [], memory⟩
  step := C.Step

/-- No two positions stand for the same place. -/
def Separated : Prop :=
  ∀ b k b' k', k < (C.items b).length → k' < (C.items b').length →
    C.place b k = C.place b' k' → b = b' ∧ k = k'

/-- What holds in every state: items are appended once, and written once they have a place. -/
structure Inv (s : State β ι π γ) : Prop where
  nodup : ∀ b, (s.claimed b).Nodup
  claimed : ∀ b, ∀ x ∈ s.claimed b, x ∈ C.items b
  writtenNodup : ∀ b, (s.written b).Nodup
  written : ∀ b, ∀ x ∈ s.written b, x ∈ s.claimed b

/-- The items that are written are in their places. -/
def Placed (s : State β ι π γ) : Prop :=
  ∀ (b : β) (k : ℕ) (x : ι), (s.claimed b)[k]? = some x → x ∈ s.written b →
    s.memory (C.place b k) = C.value x

variable {C}

omit [DecidableEq β] [DecidableEq π] in
theorem Inv.length_claimed_le {s : State β ι π γ} (h : C.Inv s) (b : β) :
    (s.claimed b).length ≤ (C.items b).length :=
  (List.subperm_of_subset (h.nodup b) (h.claimed b)).length_le

omit [DecidableEq β] [DecidableEq π] in
theorem Inv.length_written_le {s : State β ι π γ} (h : C.Inv s) (b : β) :
    (s.written b).length ≤ (s.claimed b).length :=
  (List.subperm_of_subset (h.writtenNodup b) (h.written b)).length_le

theorem Inv.step {s t : State β ι π γ} (h : C.Inv s) (hst : C.Step s t) : C.Inv t := by
  cases hst with
  | @claim b x hx hnew =>
    refine ⟨fun b' => ?_, fun b' y hy => ?_, h.writtenNodup, fun b' y hy => ?_⟩
    · rcases eq_or_ne b' b with rfl | hne
      · rw [State.claim_claimed_self, List.nodup_append]
        refine ⟨h.nodup b', List.nodup_singleton _, fun y hy z hz hyz => ?_⟩
        rw [hyz, List.mem_singleton.mp hz] at hy
        exact hnew hy
      · rw [State.claim_claimed_of_ne _ _ _ hne]
        exact h.nodup b'
    · rcases eq_or_ne b' b with rfl | hne
      · rw [State.claim_claimed_self, List.mem_append, List.mem_singleton] at hy
        rcases hy with hy | rfl
        · exact h.claimed b' y hy
        · exact hx
      · rw [State.claim_claimed_of_ne _ _ _ hne] at hy
        exact h.claimed b' y hy
    · have hold := h.written b' y hy
      rcases eq_or_ne b' b with rfl | hne
      · rw [State.claim_claimed_self]
        exact List.mem_append_left _ hold
      · rw [State.claim_claimed_of_ne _ _ _ hne]
        exact hold
  | @write b k x hk hnew =>
    refine ⟨h.nodup, h.claimed, fun b' => ?_, fun b' y hy => ?_⟩
    · rcases eq_or_ne b' b with rfl | hne
      · rw [State.write_written_self]
        exact List.nodup_cons.mpr ⟨hnew, h.writtenNodup b'⟩
      · rw [State.write_written_of_ne _ _ _ _ _ hne]
        exact h.writtenNodup b'
    · rcases eq_or_ne b' b with rfl | hne
      · rw [State.write_written_self, List.mem_cons] at hy
        rcases hy with rfl | hy
        · exact List.mem_of_getElem? hk
        · exact h.written b' y hy
      · rw [State.write_written_of_ne _ _ _ _ _ hne] at hy
        exact h.written b' y hy

theorem Placed.step (hsep : C.Separated) {s t : State β ι π γ} (hinv : C.Inv s)
    (h : C.Placed s) (hst : C.Step s t) : C.Placed t := by
  cases hst with
  | @claim b x hx hnew =>
    intro b' k y hk hy
    rcases eq_or_ne b' b with rfl | hne
    · rw [State.claim_claimed_self] at hk
      -- a written item was claimed before, so it is not the new one
      have hlt : k < (s.claimed b').length := by
        by_contra hge
        rw [List.getElem?_append_right (by omega)] at hk
        obtain rfl := List.mem_singleton.mp (List.mem_of_getElem? hk)
        exact hnew (hinv.written b' _ hy)
      rw [List.getElem?_append_left hlt] at hk
      exact h b' k y hk hy
    · rw [State.claim_claimed_of_ne _ _ _ hne] at hk
      exact h b' k y hk hy
  | @write b k x hk hnew =>
    intro b' k' y hk' hy
    change (s.claimed b')[k']? = some y at hk'
    have hlt : k < (C.items b).length :=
      lt_of_lt_of_le (List.getElem?_eq_some_iff.mp hk).1 (hinv.length_claimed_le b)
    have hlt' : k' < (C.items b').length :=
      lt_of_lt_of_le (List.getElem?_eq_some_iff.mp hk').1 (hinv.length_claimed_le b')
    by_cases hsame : b' = b ∧ k' = k
    · obtain ⟨rfl, rfl⟩ := hsame
      rw [hk', Option.some.injEq] at hk
      rw [State.write_memory_self, hk]
    · have hplace : C.place b' k' ≠ C.place b k := fun heq =>
        hsame (hsep b' k' b k hlt' hlt heq)
      rw [State.write_memory_of_ne _ _ _ _ _ hplace]
      refine h b' k' y hk' ?_
      rcases eq_or_ne b' b with rfl | hne
      · rw [State.write_written_self, List.mem_cons] at hy
        rcases hy with rfl | hy
        · -- the same item at two positions
          obtain ⟨hkl, hkx⟩ := List.getElem?_eq_some_iff.mp hk
          obtain ⟨hkl', hkx'⟩ := List.getElem?_eq_some_iff.mp hk'
          have heq := (hinv.nodup b').getElem_inj_iff.mp (hkx'.trans hkx.symm)
          exact absurd ⟨rfl, heq⟩ hsame
        · exact hy
      · rwa [State.write_written_of_ne _ _ _ _ _ hne] at hy

theorem inv_of_reachable {memory : π → γ} {s : State β ι π γ}
    (h : (C.system memory).Reachable s) : C.Inv s := by
  refine h.invariant (fun s hs => ?_) fun _ _ _ hinv hst => hinv.step hst
  rw [hs]
  exact ⟨fun _ => List.nodup_nil, nofun, fun _ => List.nodup_nil, nofun⟩

theorem placed_of_reachable (hsep : C.Separated) {memory : π → γ} {s : State β ι π γ}
    (h : (C.system memory).Reachable s) : C.Placed s := by
  refine h.invariant (fun s hs => ?_) fun _ _ hs hplaced hst =>
    hplaced.step hsep (inv_of_reachable hs) hst
  rw [hs]
  exact nofun

/-- **At the end every item has taken its cursor once.** -/
theorem claimed_perm_of_terminal {memory : π → γ} {s : State β ι π γ}
    (h : (C.system memory).Reachable s) (ht : (C.system memory).Terminal s) (b : β) :
    (s.claimed b).Perm (C.items b) := by
  have hinv := inv_of_reachable h
  refine (List.perm_ext_iff_of_nodup (hinv.nodup b) (C.nodup b)).mpr fun x =>
    ⟨hinv.claimed b x, fun hx => ?_⟩
  by_contra hnew
  exact ht _ (Step.claim hx hnew)

/-- **At the end every item is in its place.**  The order of the places is the order in which the
items took the cursor. -/
theorem memory_of_terminal (hsep : C.Separated) {memory : π → γ} {s : State β ι π γ}
    (h : (C.system memory).Reachable s) (ht : (C.system memory).Terminal s) {b : β} {k : ℕ} {x : ι}
    (hk : (s.claimed b)[k]? = some x) : s.memory (C.place b k) = C.value x := by
  refine placed_of_reachable hsep h b k x hk ?_
  by_contra hnew
  exact ht _ (Step.write hk hnew)

/-- What the blocks have left to do. -/
def actionsLeft [Fintype β] (C : SharedCursor β ι π γ) (s : State β ι π γ) : ℕ :=
  ∑ b, (2 * (C.items b).length - (s.claimed b).length - (s.written b).length)

/-- Every run ends. -/
theorem terminating [Fintype β] {memory : π → γ} {s : State β ι π γ}
    (h : (C.system memory).Reachable s) : (C.system memory).Terminating s := by
  refine h.terminating (actionsLeft C) fun s t hs hst => ?_
  have hinv' := inv_of_reachable (hs.step hst)
  have hclaimed := hinv'.length_claimed_le
  have hwritten := hinv'.length_written_le
  cases hst with
  | @claim b x hx hnew =>
    have hlt : 2 * (C.items b).length - ((s.claim b x).claimed b).length - (s.written b).length <
        2 * (C.items b).length - (s.claimed b).length - (s.written b).length := by
      have h1 := hclaimed b
      have h2 := hwritten b
      rw [State.claim_claimed_self, List.length_append, List.length_singleton] at h1 h2 ⊢
      change (s.written b).length ≤ _ at h2
      omega
    refine Finset.sum_lt_sum (fun b' _ => ?_) ⟨b, Finset.mem_univ b, hlt⟩
    rcases eq_or_ne b' b with rfl | hne
    · exact hlt.le
    · rw [State.claim_claimed_of_ne _ _ _ hne]
      exact le_rfl
  | @write b k x hk hnew =>
    have hlt : 2 * (C.items b).length - (s.claimed b).length -
        ((s.write b x (C.place b k) (C.value x)).written b).length <
        2 * (C.items b).length - (s.claimed b).length - (s.written b).length := by
      have h1 := hclaimed b
      have h2 := hwritten b
      rw [State.write_written_self, List.length_cons] at h2 ⊢
      change (s.claimed b).length ≤ _ at h1
      change _ ≤ (s.claimed b).length at h2
      omega
    refine Finset.sum_lt_sum (fun b' _ => ?_) ⟨b, Finset.mem_univ b, hlt⟩
    rcases eq_or_ne b' b with rfl | hne
    · exact hlt.le
    · rw [State.write_written_of_ne _ _ _ _ _ hne]
      exact le_rfl

end SharedCursor

end Library
end Spearhed
