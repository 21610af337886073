import Mathlib.Tactic
import Mathlib.Data.Set.Basic
import Mathlib.Data.List.TakeWhile

/-!
# Appending to a linked list by exchanging its last pointer

A singly linked list keeps a pointer to its first node and one to its last.  To append a node, a
participant first exchanges the last pointer for its own node and later stores its node in the
`next` field of the node it got back, or in the first pointer when it got none.  Between the two
actions the list is broken behind the older node, and other participants may meanwhile append
further nodes behind the new one; several such gaps may be open at once.

The nodes, in the order of their exchanges, are the *order* of the list.  A node is *pending* from
its exchange until it is stored.  `AppendList` says what the pointers are at every moment: the last
pointer is the end of the order, and every other pointer leads to the successor in the order,
unless that one is pending.

* `AppendList.exchange`, `AppendList.storeNext`, `AppendList.storeFirst`: what the actions do.
* `AppendList.walk_takeWhile`: a walk along the pointers visits the order up to the first gap.
* `AppendList.walk`: when no node is pending, it visits the order.
-/

namespace Spearhed
namespace Library

variable {ν : Type*}

/-- A walk along `next` pointers from a pointer visits these nodes and ends at null. -/
def Walk (next : ν → Option ν) : Option ν → List ν → Prop
  | start, [] => start = none
  | start, a :: l => start = some a ∧ Walk next (next a) l

@[simp] theorem walk_nil {next : ν → Option ν} {start : Option ν} :
    Walk next start [] ↔ start = none := Iff.rfl

@[simp] theorem walk_cons {next : ν → Option ν} {start : Option ν} {a : ν} {l : List ν} :
    Walk next start (a :: l) ↔ start = some a ∧ Walk next (next a) l := Iff.rfl

/-- A walk reads the pointers of the nodes it visits. -/
theorem Walk.congr {next next' : ν → Option ν} {start : Option ν} {l : List ν}
    (h : Walk next start l) (hnext : ∀ a ∈ l, next' a = next a) : Walk next' start l := by
  induction l generalizing start with
  | nil => exact h
  | cons a l ih =>
    rw [walk_cons] at h ⊢
    refine ⟨h.1, ?_⟩
    rw [hnext a List.mem_cons_self]
    exact ih h.2 fun b hb => hnext b (List.mem_cons_of_mem a hb)

/-- There is only one walk from a pointer. -/
theorem Walk.unique {next : ν → Option ν} {start : Option ν} {l l' : List ν}
    (h : Walk next start l) (h' : Walk next start l') : l = l' := by
  induction l generalizing start l' with
  | nil =>
    cases l' with
    | nil => rfl
    | cons a l' => exact absurd (h.symm.trans h'.1) (by simp)
  | cons a l ih =>
    cases l' with
    | nil => exact absurd (h'.symm.trans h.1) (by simp)
    | cons b l' =>
      obtain rfl := Option.some.inj (h.1.symm.trans h'.1)
      rw [ih h.2 h'.2]

/-- The nodes on the way from a pointer, up to a number of them. -/
def walkNodes (next : ν → Option ν) : ℕ → Option ν → List ν
  | fuel + 1, some a => a :: walkNodes next fuel (next a)
  | _, _ => []

/-- A walk that is not too long is found. -/
theorem Walk.walkNodes_eq {next : ν → Option ν} {start : Option ν} {l : List ν}
    (h : Walk next start l) {fuel : ℕ} (hfuel : l.length ≤ fuel) :
    walkNodes next fuel start = l := by
  induction l generalizing start fuel with
  | nil =>
    obtain rfl : start = none := h
    cases fuel <;> rfl
  | cons a l ih =>
    obtain ⟨rfl, hnext⟩ := h
    cases fuel with
    | zero => exact absurd hfuel (Nat.not_succ_le_zero _)
    | succ fuel => rw [walkNodes, ih hnext (Nat.le_of_succ_le_succ hfuel)]

/-- A pointer whose target is the given successor, where that one is not pending. -/
inductive PointsTo (pending : Set ν) : Option ν → Option ν → Prop
  | stored {target : Option ν} (h : ∀ a ∈ target, a ∉ pending) : PointsTo pending target target
  | gap {a : ν} (h : a ∈ pending) : PointsTo pending none (some a)

namespace PointsTo

variable {pending pending' : Set ν} {pointer target : Option ν}

theorem none : PointsTo pending none none := stored nofun

/-- Only whether the target is pending matters. -/
theorem congr (h : PointsTo pending pointer target)
    (hpending : ∀ a ∈ target, a ∈ pending' ↔ a ∈ pending) : PointsTo pending' pointer target := by
  cases h with
  | stored h => exact stored fun a ha ha' => h a ha ((hpending a ha).mp ha')
  | gap h => exact gap ((hpending _ rfl).mpr h)

theorem eq_of_not_mem (h : PointsTo pending pointer target) (ht : ∀ a ∈ target, a ∉ pending) :
    pointer = target := by
  cases h with
  | stored h => rfl
  | gap h => exact absurd h (ht _ rfl)

theorem eq_none_of_mem {a : ν} (h : PointsTo pending pointer (some a)) (ha : a ∈ pending) :
    pointer = Option.none := by
  cases h with
  | stored h => exact absurd ha (h a rfl)
  | gap h => rfl

/-- What storing a pending node does to the pointers that it does not write. -/
theorem store {a : ν} (h : PointsTo pending pointer target)
    (hpending : ∀ b, b ∈ pending' ↔ b ≠ a ∧ b ∈ pending) (hne : target ≠ some a) :
    PointsTo pending' pointer target :=
  h.congr fun b hb => by
    rw [hpending]
    exact and_iff_right fun hba => hne (hba ▸ hb)

/-- The pointer that it writes. -/
theorem store_self {a : ν} (hpending : ∀ b, b ∈ pending' ↔ b ≠ a ∧ b ∈ pending) :
    PointsTo pending' (some a) (some a) :=
  stored fun b hb hb' => ((hpending b).mp hb').1 (Option.some.inj hb).symm

end PointsTo

/-- The pointers of a list with the given order and pending nodes. -/
structure AppendList (firstNode lastNode : Option ν) (next : ν → Option ν) (pending : Set ν)
    (order : List ν) : Prop where
  nodup : order.Nodup
  lastNode : lastNode = order.getLast?
  firstNode : PointsTo pending firstNode order.head?
  next : ∀ front a back, order = front ++ a :: back → PointsTo pending (next a) back.head?

/-- The node that an exchange for `a` returned. -/
def Follows (order : List ν) (a : ν) (old : Option ν) : Prop :=
  ∃ front back, order = front ++ a :: back ∧ old = front.getLast?

theorem Follows.mem {order : List ν} {a : ν} {old : Option ν} (h : Follows order a old) :
    a ∈ order := by
  obtain ⟨front, back, rfl, -⟩ := h
  exact List.mem_append_right front List.mem_cons_self

/-- Later exchanges do not change what an earlier one returned. -/
theorem Follows.append {order : List ν} {a : ν} {old : Option ν} (h : Follows order a old)
    (l : List ν) : Follows (order ++ l) a old := by
  obtain ⟨front, back, rfl, hold⟩ := h
  exact ⟨front, back ++ l, by simp, hold⟩

theorem follows_concat (order : List ν) (a : ν) : Follows (order ++ [a]) a order.getLast? :=
  ⟨order, [], rfl, rfl⟩

/-- The node returned precedes the new one. -/
theorem Follows.mem_old {order : List ν} {a old : ν} (h : Follows order a (some old)) :
    old ∈ order := by
  obtain ⟨front, back, rfl, hold⟩ := h
  exact List.mem_append_left _ (List.mem_of_getLast? hold.symm)

/-- In a list without duplicates a node has one predecessor. -/
theorem Follows.eq_some {order : List ν} {a : ν} {old : Option ν} (h : Follows order a old) (hnodup : order.Nodup)
    {front back : List ν} {b : ν} (hsplit : order = front ++ b :: back) (ha : back.head? = some a) :
    old = some b := by
  obtain ⟨front', back', rfl, rfl⟩ := h
  obtain ⟨back, rfl⟩ := List.head?_eq_some_iff.mp ha
  rw [List.nodup_middle, List.nodup_cons, List.mem_append, not_or] at hnodup
  have hsplit' : (front ++ [b]) ++ a :: back = front' ++ a :: back' := by simp [hsplit]
  obtain ⟨hfront, -, -⟩ := (List.append_cons_inj_of_notMem hnodup.1.1 hnodup.1.2).mp hsplit'.symm
  simp [hfront]

/-- The head of a list has no predecessor. -/
theorem Follows.eq_none {order : List ν} {a : ν} {old : Option ν} (h : Follows order a old) (hnodup : order.Nodup)
    (ha : order.head? = some a) : old = none := by
  obtain ⟨front, back, rfl, rfl⟩ := h
  cases front with
  | nil => rfl
  | cons b front =>
    obtain rfl := Option.some.inj ha
    exact absurd (List.mem_append_right _ List.mem_cons_self) (List.nodup_cons.mp hnodup).1

namespace AppendList

variable {firstNode lastNode : Option ν} {next next' : ν → Option ν} {pending pending' : Set ν}
  {order : List ν} {a : ν}

/-- The empty list. -/
theorem nil : AppendList none none next pending [] :=
  ⟨List.nodup_nil, rfl, PointsTo.none, fun front a back h => by simp at h⟩

/-- What happens to other nodes does not matter. -/
theorem congr (h : AppendList firstNode lastNode next pending order)
    (hnext : ∀ a ∈ order, next' a = next a) (hpending : ∀ a ∈ order, a ∈ pending' ↔ a ∈ pending) :
    AppendList firstNode lastNode next' pending' order := by
  refine ⟨h.nodup, h.lastNode, h.firstNode.congr fun a ha => hpending a (List.mem_of_head? ha), ?_⟩
  rintro front a back rfl
  rw [hnext a (by simp)]
  refine (h.next front a back rfl).congr fun b hb => hpending b ?_
  exact List.mem_append_right front (List.mem_cons_of_mem a (List.mem_of_head? hb))

/-- **The exchange of the last pointer** appends to the order a node that is pending. -/
theorem exchange (h : AppendList firstNode lastNode next pending order) (hnew : a ∉ order)
    (hnull : next a = none) (hpending : ∀ b, b ∈ pending' ↔ b = a ∨ b ∈ pending) :
    AppendList firstNode (some a) next pending' (order ++ [a]) := by
  have hold : ∀ b ∈ order, b ∈ pending' ↔ b ∈ pending := fun b hb => by
    rw [hpending]
    exact or_iff_right fun hba => hnew (hba ▸ hb)
  have hgap : PointsTo pending' none (some a) := PointsTo.gap ((hpending a).mpr (Or.inl rfl))
  have h' := h.congr (fun _ _ => rfl) hold
  refine ⟨?_, by simp, ?_, fun front b back hsplit => ?_⟩
  · rw [List.nodup_append]
    exact ⟨h.nodup, List.nodup_singleton a, fun b hb c hc => by
      rw [List.mem_singleton.mp hc]; exact fun hba => hnew (hba ▸ hb)⟩
  · cases order with
    | nil =>
      rw [h'.firstNode.eq_of_not_mem nofun]
      exact hgap
    | cons b l => exact h'.firstNode
  · -- the end of the order is `a`, or `a` is the new end of what lies behind `b`
    rcases List.eq_nil_or_concat back with rfl | ⟨init, c, rfl⟩
    · obtain ⟨-, hb⟩ := List.append_inj' hsplit rfl
      obtain rfl := (List.cons.inj hb).1
      rw [hnull]
      exact PointsTo.none
    · have hsplit' : order ++ [a] = (front ++ b :: init) ++ [c] := by simpa using hsplit
      obtain ⟨horder, hc⟩ := List.append_inj' hsplit' rfl
      obtain rfl := (List.cons.inj hc).1
      have hb := h'.next front b init horder
      cases init with
      | nil =>
        rw [hb.eq_of_not_mem nofun]
        exact hgap
      | cons d init => exact hb

/-- **Storing the node in the older one** closes a gap. -/
theorem storeNext [DecidableEq ν] (h : AppendList firstNode lastNode next pending order) {old : ν}
    (hold : Follows order a (some old)) (hpending : ∀ b, b ∈ pending' ↔ b ≠ a ∧ b ∈ pending) :
    AppendList firstNode lastNode (Function.update next old (some a)) pending' order := by
  refine ⟨h.nodup, h.lastNode, h.firstNode.store hpending fun hhead => ?_, ?_⟩
  · exact absurd (hold.eq_none h.nodup hhead) (by simp)
  · intro front b back hsplit
    rcases eq_or_ne b old with rfl | hne
    · -- the successor of the older node is the new one
      obtain ⟨front', back', hsplit', hlast⟩ := hold
      obtain ⟨init, rfl⟩ := List.getLast?_eq_some_iff.mp hlast.symm
      have hnodup := h.nodup
      rw [hsplit, List.nodup_middle, List.nodup_cons, List.mem_append, not_or] at hnodup
      have heq : front ++ b :: back = init ++ b :: (a :: back') := by
        rw [← hsplit, hsplit']
        simp
      obtain ⟨-, -, rfl⟩ := (List.append_cons_inj_of_notMem hnodup.1.1 hnodup.1.2).mp heq
      rw [Function.update_self]
      exact PointsTo.store_self hpending
    · rw [Function.update_of_ne hne]
      refine (h.next front b back hsplit).store hpending fun hhead => hne ?_
      exact (Option.some.inj (hold.eq_some h.nodup hsplit hhead)).symm

/-- **Storing the node as the first** closes the gap at the front. -/
theorem storeFirst (h : AppendList firstNode lastNode next pending order)
    (hold : Follows order a none) (hpending : ∀ b, b ∈ pending' ↔ b ≠ a ∧ b ∈ pending) :
    AppendList (some a) lastNode next pending' order := by
  refine ⟨h.nodup, h.lastNode, ?_, fun front b back hsplit => ?_⟩
  · obtain ⟨front, back, rfl, hlast⟩ := hold
    obtain rfl := List.getLast?_eq_none_iff.mp hlast.symm
    exact PointsTo.store_self hpending
  · refine (h.next front b back hsplit).store hpending fun hhead => ?_
    exact absurd (hold.eq_some h.nodup hsplit hhead) (by simp)

open Classical in
/-- **A walk visits the order up to the first gap.** -/
theorem walk_takeWhile (h : AppendList firstNode lastNode next pending order) :
    Walk next firstNode (order.takeWhile fun a => decide (a ∉ pending)) := by
  suffices hsuffix : ∀ front back start, order = front ++ back →
      PointsTo pending start back.head? →
        Walk next start (back.takeWhile fun a => decide (a ∉ pending)) from
    hsuffix [] order firstNode rfl h.firstNode
  intro front back
  induction back generalizing front with
  | nil => exact fun start _ hstart => hstart.eq_of_not_mem nofun
  | cons a back ih =>
    intro start hsplit hstart
    by_cases ha : a ∈ pending
    · rw [List.takeWhile_cons_of_neg (by simpa using ha)]
      exact hstart.eq_none_of_mem ha
    · rw [List.takeWhile_cons_of_pos (by simpa using ha)]
      refine ⟨hstart.eq_of_not_mem fun b hb => Option.some.inj hb ▸ ha, ?_⟩
      exact ih (front ++ [a]) (next a) (by simp [hsplit]) (h.next front a back hsplit)

/-- **Without a gap a walk visits the order.** -/
theorem walk (h : AppendList firstNode lastNode next pending order)
    (hpending : ∀ a ∈ order, a ∉ pending) : Walk next firstNode order := by
  classical
  have hwalk := h.walk_takeWhile
  rwa [List.takeWhile_eq_self_iff.mpr fun a ha => decide_eq_true (hpending a ha)] at hwalk

end AppendList

end Library
end Spearhed
