import Spearhed.Library.LinkedList
import Spearhed.Library.StepSystem
import Spearhed.Particles.FrameList

/-!
# Concurrent calls of `pushBack`

`SinglyLinkedListDevice.hpp`.  Any number of calls of `pushBack` run interleaved on one list.  A call
clears the `next` pointer of its node, exchanges `m_lastNode` for the node, and stores the node where
the exchange says: in the node that was last before, or in `m_firstNode` when there was none.  The
list may hold nodes when the calls begin.

The nodes are in the order of their exchanges.  Between its exchange and its store a node is
*unlinked*: the list is broken in front of it.

* `Inv.step`: every atomic action keeps the pointers an `AppendList`.
* `concurrent_pushBack`: what a walk from `m_firstNode` meets at any moment, and at the end.
-/

namespace Spearhed
namespace Particles
namespace PushBack

open Library

variable {ι : Type}

/-- Where a call stands. -/
inductive Phase
  /-- Before `node->next = nullptr`. -/
  | called
  /-- Before the exchange of `m_lastNode`. -/
  | cleared
  /-- Before the store, with what the exchange returned. -/
  | exchanged (oldLast : Option FramePtr)
  | returned
  deriving DecidableEq

/-- The list, the `next` pointers on the heap, and the calls.  The exchanges so far are recorded. -/
structure State (ι : Type) where
  list : SingleLinkedListDevice
  next : FramePtr → Option FramePtr
  phase : ι → Phase
  exchanges : List FramePtr

/-- A list with these nodes: null is reached, and `m_lastNode` is the node before. -/
structure Holds (list : SingleLinkedListDevice) (next : FramePtr → Option FramePtr)
    (nodes : List FramePtr) : Prop where
  walk : Walk next list.firstNode nodes
  lastNode : list.lastNode = nodes.getLast?

/-- `size`, as far as the loop gets with some iterations. -/
def size (next : FramePtr → Option FramePtr) : ℕ → Option FramePtr → Option ℕ
  | _, none => some 0
  | 0, some _ => none
  | fuel + 1, some node => (size next fuel (next node)).map (· + 1)

/-- The loop of `size` counts the nodes of a walk. -/
theorem size_eq {next : FramePtr → Option FramePtr} {start : Option FramePtr} {nodes : List FramePtr}
    (h : Walk next start nodes) {fuel : ℕ} (hfuel : nodes.length ≤ fuel) :
    size next fuel start = some nodes.length := by
  induction nodes generalizing start fuel with
  | nil =>
    obtain rfl : start = none := h
    cases fuel <;> rfl
  | cons node nodes ih =>
    obtain ⟨rfl, hnext⟩ := h
    cases fuel with
    | zero => exact absurd hfuel (Nat.not_succ_le_zero _)
    | succ fuel =>
      rw [size, ih hnext (Nat.le_of_succ_le_succ hfuel)]
      rfl

section Calls

variable [DecidableEq ι]

namespace State

/-- A call goes on to its next phase. -/
def setPhase (s : State ι) (i : ι) (phase : Phase) : State ι :=
  { s with phase := Function.update s.phase i phase }

/-- The next atomic action of call `i`, whose argument is `node i`. -/
def step (node : ι → Option FramePtr) (s : State ι) (i : ι) : Option (State ι) :=
  match s.phase i, node i with
  | .called, none => some (s.setPhase i .returned)
  | .called, some a =>
    some ({ s with next := Function.update s.next a none }.setPhase i .cleared)
  | .cleared, some a =>
    some ({ s with
      list := { s.list with lastNode := some a }
      exchanges := s.exchanges ++ [a] }.setPhase i (.exchanged s.list.lastNode))
  | .exchanged (some oldLast), some a =>
    some ({ s with next := Function.update s.next oldLast (some a) }.setPhase i .returned)
  | .exchanged none, some a =>
    some ({ s with list := { s.list with firstNode := some a } }.setPhase i .returned)
  | _, _ => none

/-- A node whose exchange is done and whose store is not. -/
def Unlinked (node : ι → Option FramePtr) (s : State ι) (a : FramePtr) : Prop :=
  ∃ i oldLast, node i = some a ∧ s.phase i = .exchanged oldLast

end State

/-- All interleavings of the calls, on a list that holds some nodes. -/
def system (node : ι → Option FramePtr) (old : List FramePtr) : StepSystem (State ι) where
  init := fun s => Holds s.list s.next old ∧ (∀ i, s.phase i = .called) ∧ s.exchanges = []
  step := fun s s' => ∃ i, s.step node i = some s'

/-- The nodes of the calls are new and distinct. -/
structure NewNodes (node : ι → Option FramePtr) (old : List FramePtr) : Prop where
  distinct : ∀ i j a, node i = some a → node j = some a → i = j
  new : ∀ i a, node i = some a → a ∉ old

/-! ## What an action does -/

variable {node : ι → Option FramePtr} {old : List FramePtr} {s s' : State ι}

/-- **The actions of a call.** -/
theorem step_cases {i : ι} (h : s.step node i = some s') :
    (node i = none ∧ s' = s.setPhase i .returned) ∨
    ∃ a, node i = some a ∧
      ((s.phase i = .called ∧
          s' = { s with next := Function.update s.next a none }.setPhase i .cleared) ∨
        (s.phase i = .cleared ∧
          s' = { s with
            list := { s.list with lastNode := some a }
            exchanges := s.exchanges ++ [a] }.setPhase i (.exchanged s.list.lastNode)) ∨
        (∃ oldLast, s.phase i = .exchanged (some oldLast) ∧
          s' = { s with next := Function.update s.next oldLast (some a) }.setPhase i .returned) ∨
        (s.phase i = .exchanged none ∧
          s' = { s with list := { s.list with firstNode := some a } }.setPhase i .returned)) := by
  unfold State.step at h
  split at h
  · next hnode => exact Or.inl ⟨hnode, (Option.some.inj h).symm⟩
  · next a hphase hnode => exact Or.inr ⟨a, hnode, Or.inl ⟨hphase, (Option.some.inj h).symm⟩⟩
  · next a hphase hnode =>
    exact Or.inr ⟨a, hnode, Or.inr (Or.inl ⟨hphase, (Option.some.inj h).symm⟩)⟩
  · next oldLast a hphase hnode =>
    exact Or.inr ⟨a, hnode, Or.inr (Or.inr (Or.inl ⟨oldLast, hphase, (Option.some.inj h).symm⟩))⟩
  · next a hphase hnode =>
    exact Or.inr ⟨a, hnode, Or.inr (Or.inr (Or.inr ⟨hphase, (Option.some.inj h).symm⟩))⟩
  · cases h

theorem setPhase_self (s : State ι) (i : ι) (phase : Phase) : (s.setPhase i phase).phase i = phase :=
  Function.update_self ..

theorem setPhase_of_ne (s : State ι) {i j : ι} (phase : Phase) (h : j ≠ i) :
    (s.setPhase i phase).phase j = s.phase j :=
  Function.update_of_ne h ..

/-- An action only appends to the exchanges. -/
theorem exchanges_grow {i : ι} (h : s.step node i = some s') : s.exchanges <+: s'.exchanges := by
  rcases step_cases h with ⟨-, rfl⟩ | ⟨a, -, ⟨-, rfl⟩ | ⟨-, rfl⟩ | ⟨oldLast, -, rfl⟩ | ⟨-, rfl⟩⟩
  · exact List.prefix_refl _
  · exact List.prefix_refl _
  · exact List.prefix_append _ _
  · exact List.prefix_refl _
  · exact List.prefix_refl _

/-! ## The invariant -/

/-- The unlinked nodes are the gaps of an `AppendList`. -/
structure Inv (node : ι → Option FramePtr) (old : List FramePtr) (s : State ι) : Prop where
  chain : AppendList s.list.firstNode s.list.lastNode s.next {a | s.Unlinked node a}
    (old ++ s.exchanges)
  follows : ∀ i a oldLast, node i = some a → s.phase i = .exchanged oldLast →
    Follows (old ++ s.exchanges) a oldLast
  cleared : ∀ i a, node i = some a → s.phase i = .cleared → s.next a = none
  /-- The exchanges are those of the calls that have made theirs. -/
  exchanged : ∀ i a, node i = some a →
    (a ∈ s.exchanges ↔ s.phase i ≠ .called ∧ s.phase i ≠ .cleared)
  pushed : ∀ a ∈ s.exchanges, ∃ i, node i = some a

/-- Which nodes are unlinked after call `i` has gone on. -/
theorem unlinked_setPhase (hnodes : NewNodes node old) {t : State ι} {i : ι} {a : FramePtr}
    (hnode : node i = some a) {phase : Phase} (b : FramePtr) :
    (t.setPhase i phase).Unlinked node b ↔
      (b = a ∧ ∃ oldLast, phase = .exchanged oldLast) ∨ (b ≠ a ∧ t.Unlinked node b) := by
  constructor
  · rintro ⟨j, oldLast, hj, hphase⟩
    rcases eq_or_ne j i with rfl | hne
    · obtain rfl := Option.some.inj (hnode.symm.trans hj)
      rw [setPhase_self] at hphase
      exact Or.inl ⟨rfl, oldLast, hphase⟩
    · rw [setPhase_of_ne t phase hne] at hphase
      refine Or.inr ⟨?_, j, oldLast, hj, hphase⟩
      rintro rfl
      exact hne (hnodes.distinct j i b hj hnode)
  · rintro (⟨rfl, oldLast, rfl⟩ | ⟨hne, j, oldLast, hj, hphase⟩)
    · exact ⟨i, oldLast, hnode, setPhase_self ..⟩
    · refine ⟨j, oldLast, hj, ?_⟩
      rw [setPhase_of_ne]
      · exact hphase
      · rintro rfl
        exact hne (Option.some.inj (hj.symm.trans hnode))

omit [DecidableEq ι] in
/-- A node is not in the list before its exchange. -/
theorem Inv.not_mem (h : Inv node old s) (hnodes : NewNodes node old) {i : ι} {a : FramePtr}
    (hnode : node i = some a) (hphase : s.phase i = .called ∨ s.phase i = .cleared) :
    a ∉ old ++ s.exchanges := by
  rw [List.mem_append, not_or, h.exchanged i a hnode]
  refine ⟨hnodes.new i a hnode, ?_⟩
  rcases hphase with hphase | hphase <;> simp [hphase]

/-- A call without a node changes no more than its phase. -/
theorem Inv.returnAtOnce (h : Inv node old s) {i : ι} (hnode : node i = none) :
    Inv node old (s.setPhase i .returned) := by
  have hother : ∀ j a, node j = some a → (s.setPhase i .returned).phase j = s.phase j := by
    intro j a hj
    refine setPhase_of_ne s .returned ?_
    rintro rfl
    exact absurd (hj.symm.trans hnode) (Option.some_ne_none a)
  refine ⟨h.chain.congr (fun _ _ => rfl) fun a _ => ?_, fun j a oldLast hj hphase => ?_,
    fun j a hj hphase => ?_, fun j a hj => ?_, h.pushed⟩
  · show State.Unlinked node _ a ↔ State.Unlinked node s a
    constructor
    · rintro ⟨j, oldLast, hj, hphase⟩
      exact ⟨j, oldLast, hj, (hother j a hj).symm.trans hphase⟩
    · rintro ⟨j, oldLast, hj, hphase⟩
      exact ⟨j, oldLast, hj, (hother j a hj).trans hphase⟩
  · exact h.follows j a oldLast hj ((hother j a hj).symm.trans hphase)
  · exact h.cleared j a hj ((hother j a hj).symm.trans hphase)
  · rw [hother j a hj]
    exact h.exchanged j a hj

/-- `node->next = nullptr`. -/
theorem Inv.clear (h : Inv node old s) (hnodes : NewNodes node old) {i : ι} {a : FramePtr}
    (hnode : node i = some a) (hphase : s.phase i = .called) :
    Inv node old ({ s with next := Function.update s.next a none }.setPhase i .cleared) := by
  have hmem := h.not_mem hnodes hnode (Or.inl hphase)
  refine ⟨h.chain.congr (fun b hb => ?_) fun b hb => ?_, fun j b oldLast hj hj' => ?_,
    fun j b hj hj' => ?_, fun j b hj => ?_, h.pushed⟩
  · exact Function.update_of_ne (fun hba : b = a => hmem (hba ▸ hb)) ..
  · refine (unlinked_setPhase hnodes hnode b).trans ?_
    have hba : b ≠ a := fun hba => hmem (hba ▸ hb)
    simp only [hba, false_and, false_or, ne_eq, not_false_eq_true, true_and]
    exact Iff.rfl
  · rcases eq_or_ne j i with rfl | hne
    · rw [setPhase_self] at hj'
      cases hj'
    · rw [setPhase_of_ne _ _ hne] at hj'
      exact h.follows j b oldLast hj hj'
  · show Function.update s.next a none b = none
    rcases eq_or_ne j i with rfl | hne
    · obtain rfl := Option.some.inj (hnode.symm.trans hj)
      exact Function.update_self ..
    · rw [setPhase_of_ne _ _ hne] at hj'
      rw [Function.update_of_ne]
      · exact h.cleared j b hj hj'
      · rintro rfl
        exact hne (hnodes.distinct j i b hj hnode)
  · show b ∈ s.exchanges ↔ _
    rcases eq_or_ne j i with rfl | hne
    · rw [setPhase_self]
      have := h.exchanged j b hj
      simpa [hphase] using this
    · rw [setPhase_of_ne _ _ hne]
      exact h.exchanged j b hj

/-- The exchange of `m_lastNode`. -/
theorem Inv.exchange (h : Inv node old s) (hnodes : NewNodes node old) {i : ι} {a : FramePtr}
    (hnode : node i = some a) (hphase : s.phase i = .cleared) :
    Inv node old ({ s with
      list := { s.list with lastNode := some a }
      exchanges := s.exchanges ++ [a] }.setPhase i (.exchanged s.list.lastNode)) := by
  have hmem := h.not_mem hnodes hnode (Or.inr hphase)
  have happend : old ++ (s.exchanges ++ [a]) = old ++ s.exchanges ++ [a] :=
    (List.append_assoc ..).symm
  refine ⟨?_, fun j b oldLast hj hj' => ?_, fun j b hj hj' => ?_, fun j b hj => ?_, fun b hb => ?_⟩
  · show AppendList s.list.firstNode (some a) s.next _ (old ++ (s.exchanges ++ [a]))
    rw [happend]
    refine h.chain.exchange hmem (h.cleared i a hnode hphase) fun b => ?_
    refine (unlinked_setPhase hnodes hnode b).trans ?_
    rcases eq_or_ne b a with rfl | hne
    · simp
    · simp only [hne, false_and, false_or, ne_eq, not_false_eq_true, true_and]
      exact Iff.rfl
  · show Follows (old ++ (s.exchanges ++ [a])) b oldLast
    rw [happend]
    rcases eq_or_ne j i with rfl | hne
    · obtain rfl := Option.some.inj (hnode.symm.trans hj)
      rw [setPhase_self] at hj'
      cases hj'
      rw [h.chain.lastNode]
      exact follows_concat _ a
    · rw [setPhase_of_ne _ _ hne] at hj'
      exact (h.follows j b oldLast hj hj').append [a]
  · rcases eq_or_ne j i with rfl | hne
    · rw [setPhase_self] at hj'
      cases hj'
    · rw [setPhase_of_ne _ _ hne] at hj'
      exact h.cleared j b hj hj'
  · show b ∈ s.exchanges ++ [a] ↔ _
    rw [List.mem_append, List.mem_singleton]
    rcases eq_or_ne j i with rfl | hne
    · rw [setPhase_self]
      obtain rfl := Option.some.inj (hnode.symm.trans hj)
      simp
    · have hba : b ≠ a := by
        rintro rfl
        exact hne (hnodes.distinct j i b hj hnode)
      rw [setPhase_of_ne _ _ hne, or_iff_left hba]
      exact h.exchanged j b hj
  · rcases List.mem_append.mp hb with hb | hb
    · exact h.pushed b hb
    · obtain rfl := List.mem_singleton.mp hb
      exact ⟨i, hnode⟩

/-- The store, wherever it goes. -/
theorem Inv.store (h : Inv node old s) (hnodes : NewNodes node old) {i : ι} {a : FramePtr}
    (hnode : node i = some a) {oldLast : Option FramePtr}
    (hphase : s.phase i = .exchanged oldLast) {t : State ι} (ht : t.phase = s.phase)
    (hexchanges : t.exchanges = s.exchanges)
    (hnext : ∀ b, b ∉ old ++ s.exchanges → t.next b = s.next b)
    (hchain : ∀ pending : Set FramePtr, (∀ b, b ∈ pending ↔ b ≠ a ∧ s.Unlinked node b) →
      AppendList t.list.firstNode t.list.lastNode t.next pending (old ++ s.exchanges)) :
    Inv node old (t.setPhase i .returned) := by
  refine ⟨?_, fun j b oldLast' hj hj' => ?_, fun j b hj hj' => ?_, fun j b hj => ?_, fun b hb => ?_⟩
  · show AppendList t.list.firstNode t.list.lastNode t.next _ (old ++ t.exchanges)
    rw [hexchanges]
    refine hchain _ fun b => (unlinked_setPhase hnodes hnode b).trans ?_
    simp only [reduceCtorEq, exists_false, and_false, false_or, State.Unlinked, ht]
  · show Follows (old ++ t.exchanges) b oldLast'
    rw [hexchanges]
    rcases eq_or_ne j i with rfl | hne
    · rw [setPhase_self] at hj'
      cases hj'
    · rw [setPhase_of_ne _ _ hne, ht] at hj'
      exact h.follows j b oldLast' hj hj'
  · rcases eq_or_ne j i with rfl | hne
    · rw [setPhase_self] at hj'
      cases hj'
    · rw [setPhase_of_ne _ _ hne, ht] at hj'
      show t.next b = none
      rw [hnext b (h.not_mem hnodes hj (Or.inr hj'))]
      exact h.cleared j b hj hj'
  · show b ∈ t.exchanges ↔ _
    rw [hexchanges]
    rcases eq_or_ne j i with rfl | hne
    · rw [setPhase_self]
      have := h.exchanged j b hj
      simpa [hphase] using this
    · rw [setPhase_of_ne _ _ hne, ht]
      exact h.exchanged j b hj
  · exact h.pushed b (hexchanges ▸ hb)

/-- **Every action keeps the invariant.** -/
theorem Inv.step (h : Inv node old s) (hnodes : NewNodes node old) {i : ι}
    (hstep : s.step node i = some s') : Inv node old s' := by
  rcases step_cases hstep with ⟨hnode, rfl⟩ | ⟨a, hnode, ⟨hphase, rfl⟩ | ⟨hphase, rfl⟩ |
    ⟨oldLast, hphase, rfl⟩ | ⟨hphase, rfl⟩⟩
  · exact h.returnAtOnce hnode
  · exact h.clear hnodes hnode hphase
  · exact h.exchange hnodes hnode hphase
  · have hfollows := h.follows i a _ hnode hphase
    refine h.store hnodes hnode hphase rfl rfl (fun b hb => ?_)
      fun pending hpending => h.chain.storeNext hfollows hpending
    exact Function.update_of_ne (fun hbo : b = oldLast => hb (hbo ▸ hfollows.mem_old)) ..
  · have hfollows := h.follows i a _ hnode hphase
    exact h.store hnodes hnode hphase rfl rfl (fun _ _ => rfl)
      fun pending hpending => h.chain.storeFirst hfollows hpending

/-- A list without gaps is an `AppendList`. -/
theorem Holds.appendList {list : SingleLinkedListDevice} {next : FramePtr → Option FramePtr}
    {nodes : List FramePtr} (h : Holds list next nodes) :
    AppendList list.firstNode list.lastNode next ∅ nodes := by
  refine ⟨h.walk.nodup, h.lastNode, ?_, ?_⟩
  · have hhead : list.firstNode = nodes.head? := by
      cases hnodes : nodes with
      | nil => rw [hnodes] at h; exact h.walk
      | cons a l => rw [hnodes] at h; exact h.walk.1
    rw [hhead]
    exact PointsTo.stored fun _ _ => Set.notMem_empty _
  · rintro front a back rfl
    obtain ⟨middle, -, hback⟩ := h.walk.of_append
    have hhead : next a = back.head? := by
      cases back with
      | nil => exact hback
      | cons b l => exact hback.1
    rw [hhead]
    exact PointsTo.stored fun _ _ => Set.notMem_empty _

theorem inv_of_reachable (hnodes : NewNodes node old) (h : (system node old).Reachable s) :
    Inv node old s := by
  refine h.invariant (fun s hs => ?_) fun s s' _ hinv hstep => ?_
  · obtain ⟨hlist, hphase, hexchanges⟩ := hs
    refine ⟨?_, fun i a oldLast _ hi => ?_, fun i a _ hi => ?_, fun i a _ => ?_, fun a ha => ?_⟩
    · rw [hexchanges, List.append_nil]
      refine hlist.appendList.congr (fun _ _ => rfl) fun a _ => ?_
      refine iff_of_false ?_ (Set.notMem_empty a)
      rintro ⟨i, oldLast, -, hi⟩
      exact absurd ((hphase i).symm.trans hi) (by simp)
    · exact absurd ((hphase i).symm.trans hi) (by simp)
    · exact absurd ((hphase i).symm.trans hi) (by simp)
    · simp [hexchanges, hphase i]
    · rw [hexchanges] at ha
      exact absurd ha List.not_mem_nil
  · obtain ⟨i, hi⟩ := hstep
    exact hinv.step hnodes hi

/-- Runs only append to the exchanges. -/
theorem exchanges_grow_of_run (h : Relation.ReflTransGen (system node old).step s s') :
    s.exchanges <+: s'.exchanges := by
  induction h with
  | refl => exact List.prefix_refl _
  | tail _ hstep ih =>
    obtain ⟨i, hi⟩ := hstep
    exact ih.trans (exchanges_grow hi)

/-- **Concurrent calls of `pushBack` append their nodes in the order of their exchanges.**  At every
moment a walk from `m_firstNode` ends at null; it meets the old nodes and the new ones in that order,
all of them up to the first unlinked one, and nothing later changes this order.  When all calls have
returned it meets every old node and every new one once, and ends at `m_lastNode`. -/
theorem concurrent_pushBack (hnodes : NewNodes node old) (h : (system node old).Reachable s) :
    (∃ chain, Walk s.next s.list.firstNode chain ∧ chain.Nodup ∧
      (∀ fuel ≥ chain.length, size s.next fuel s.list.firstNode = some chain.length) ∧
      (∀ front a, front ++ [a] <+: old ++ s.exchanges →
        (∀ b ∈ front ++ [a], ¬ s.Unlinked node b) → a ∈ chain) ∧
      ∀ s', Relation.ReflTransGen (system node old).step s s' → chain <+: old ++ s'.exchanges) ∧
    ((∀ i, s.phase i = .returned) →
      Walk s.next s.list.firstNode (old ++ s.exchanges) ∧
      s.list.lastNode = (old ++ s.exchanges).getLast? ∧ (old ++ s.exchanges).Nodup ∧
      ∀ a, a ∈ s.exchanges ↔ ∃ i, node i = some a) := by
  classical
  have hinv := inv_of_reachable hnodes h
  refine ⟨⟨_, hinv.chain.walk_takeWhile, hinv.chain.walk_takeWhile.nodup,
      fun _ => size_eq hinv.chain.walk_takeWhile, ?_, fun s' hrun => ?_⟩,
    fun hreturned => ⟨hinv.chain.walk fun a _ => ?_, hinv.chain.lastNode, hinv.chain.nodup,
      fun a => ⟨hinv.pushed a, ?_⟩⟩⟩
  · rintro front a ⟨back, hback⟩ hlinked
    have hpos : ∀ b ∈ front ++ [a], decide (b ∉ {a | s.Unlinked node a}) = true :=
      fun b hb => decide_eq_true (hlinked b hb)
    rw [← hback, List.takeWhile_append_of_pos hpos]
    simp
  · exact ( List.takeWhile_prefix _).trans
      ((List.prefix_append_right_inj old).mpr (exchanges_grow_of_run hrun))
  · rintro ⟨i, oldLast, -, hi⟩
    exact absurd ((hreturned i).symm.trans hi) (by simp)
  · rintro ⟨i, hi⟩
    rw [hinv.exchanged i a hi, hreturned i]
    simp

/-- A schedule: which call makes the next action. -/
def run (node : ι → Option FramePtr) (s : State ι) : List ι → Option (State ι)
  | [] => some s
  | i :: schedule => (s.step node i).bind fun s' => run node s' schedule

theorem reachable_run {schedule : List ι} (h : (system node old).Reachable s)
    (hrun : run node s schedule = some s') : (system node old).Reachable s' := by
  induction schedule generalizing s with
  | nil => exact Option.some.inj hrun ▸ h
  | cons i schedule ih =>
    obtain ⟨t, ht, hrest⟩ := Option.bind_eq_some_iff.mp hrun
    exact ih (h.step ⟨i, ht⟩) hrest

end Calls

/-- The node of each of two calls. -/
def twoNodes (i : Bool) : Option FramePtr := some (if i then 4 else 9)

/-- The two calls begin on an empty list. -/
def twoCalls : State Bool := ⟨{}, fun _ => some 2, fun _ => .called, []⟩

/-- The second call exchanges and stores before the first one publishes `m_firstNode`. -/
theorem concurrent_pushBack_two_on_empty :
    ∃ s, run twoNodes twoCalls [false, true, false, true, true, false] = some s ∧
      Walk s.next s.list.firstNode [9, 4] ∧ s.list.lastNode = some 4 := by
  obtain ⟨s, hrun, hreturned, hexchanges⟩ :
      ∃ s, run twoNodes twoCalls [false, true, false, true, true, false] = some s ∧
        (∀ i, s.phase i = .returned) ∧ s.exchanges = [9, 4] := ⟨_, rfl, by decide, rfl⟩
  have hinit : (system twoNodes []).init twoCalls := ⟨⟨rfl, rfl⟩, fun _ => rfl, rfl⟩
  have hnodes : NewNodes twoNodes [] := ⟨by decide +revert, fun _ _ _ => List.not_mem_nil⟩
  obtain ⟨hwalk, hlast, -⟩ :=
    (concurrent_pushBack hnodes (reachable_run (.init hinit) hrun)).2 hreturned
  rw [hexchanges] at hwalk hlast
  exact ⟨s, hrun, hwalk, hlast⟩

end PushBack
end Particles
end Spearhed
