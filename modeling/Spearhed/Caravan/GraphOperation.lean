import Mathlib.Tactic
import Mathlib.Data.Fintype.BigOperators
import Spearhed.Caravan.GraphTopology
import Spearhed.Library.StepSystem

/-!
# Running a graph of senders

`GraphOperation` of `core/sender/graph.hpp` starts the nodes without predecessors and then lets
every completion start the successors it releases.  The ready lists are computed under the lock
but started outside of it, so several `startNodes` loops may be under way at once, on several
threads or nested inside one another when a node completes inside its own `start()`.

The model keeps one list for each such loop: the nodes it has still to start.  A step is one
action that touches the operation: `start()` reading one counter, a loop starting its next node,
the critical section of one `complete()`, or the call of the receiver.  Any order of these steps
is a run, so a nested loop and a loop on another thread are the same thing here.

The counters are integers.  The source decrements unsigned numbers, and it does so correctly as
long as no value below zero would come out.

## Main results

* `Inv.step`: every step keeps the bookkeeping invariant.
* `Inv.of_terminal`: a run that can go no further has started every node and called the receiver.
* `graph_operation_correct`: the two put together, for every run.
-/

namespace Spearhed
namespace Caravan
namespace GraphOperation

open Library

variable {n : ℕ}

/-! ## The critical section -/

/-- The members that `complete()` updates under the lock. -/
structure Counters (n : ℕ) where
  /-- `m_remainingPredecessors`. -/
  remainingPredecessors : Fin n → ℤ
  /-- `m_resolved`. -/
  resolved : Fin n → Bool
  /-- `m_unresolved`. -/
  unresolved : ℤ

/-- The counters the constructor leaves. -/
def Counters.initial (T : GraphTopology n) : Counters n where
  remainingPredecessors := fun node => (List.finRange n).countP fun c => T.predecessors node c
  resolved := fun _ => false
  unresolved := n

/-- `resolve`. -/
def resolve (C : Counters n) (node : Fin n) : Counters n :=
  { C with resolved := Function.update C.resolved node true, unresolved := C.unresolved - 1 }

/-- `--m_remainingPredecessors[node]`. -/
def Counters.decrement (C : Counters n) (node : Fin n) : Counters n :=
  { C with remainingPredecessors :=
      Function.update C.remainingPredecessors node (C.remainingPredecessors node - 1) }

/-- One iteration of the loop over the successors of node `i`. -/
def visitSuccessor (T : GraphTopology n) (i : Fin n) (r : Counters n × List (Fin n))
    (successor : Fin n) : Counters n × List (Fin n) :=
  if !r.1.resolved successor && T.predecessors successor i then
    let C := r.1.decrement successor
    (C, if C.remainingPredecessors successor = 0 then r.2 ++ [successor] else r.2)
  else r

/-- The critical section of `complete<i>()`: the new counters and the ready list. -/
def completeSection (T : GraphTopology n) (i : Fin n) (C : Counters n) :
    Counters n × List (Fin n) :=
  ((List.finRange n).filter fun successor => decide (i < successor)).foldl (visitSuccessor T i)
    (resolve C i, [])

/-- `ready` after the loop has visited the nodes of `l`. -/
def released (T : GraphTopology n) (i : Fin n) (C : Counters n) (l : List (Fin n)) :
    List (Fin n) :=
  l.filter fun x => !C.resolved x && T.predecessors x i && decide (C.remainingPredecessors x = 1)

/-- The loop decrements each successor once and collects those that reach zero. -/
theorem foldl_visitSuccessor (T : GraphTopology n) (i : Fin n) (l : List (Fin n))
    (hl : l.Nodup) (C : Counters n) (ready : List (Fin n)) :
    l.foldl (visitSuccessor T i) (C, ready) =
      ({ C with remainingPredecessors := fun x =>
          if x ∈ l ∧ C.resolved x = false ∧ T.predecessors x i = true then
            C.remainingPredecessors x - 1
          else C.remainingPredecessors x }, ready ++ released T i C l) := by
  induction l generalizing C ready with
  | nil => simp [released]
  | cons y l ih =>
    obtain ⟨hy, hl⟩ := List.nodup_cons.mp hl
    rw [List.foldl_cons]
    by_cases hc : C.resolved y = false ∧ T.predecessors y i = true
    · have hvisit : visitSuccessor T i (C, ready) y =
          (C.decrement y, if C.remainingPredecessors y = 1 then ready ++ [y] else ready) := by
        simp [visitSuccessor, Counters.decrement, hc.1, hc.2, sub_eq_zero]
      have hrest : released T i (C.decrement y) l = released T i C l := by
        refine List.filter_congr fun x hx => ?_
        have hne : x ≠ y := fun h => hy (h ▸ hx)
        simp [Counters.decrement, hne]
      rw [hvisit, ih hl, hrest]
      refine Prod.ext ?_ ?_
      · simp only [Counters.decrement, Counters.mk.injEq, and_true]
        funext x
        by_cases hxy : x = y
        · subst hxy
          simp [hy, hc.1, hc.2]
        · simp [hxy]
      · simp only [released, List.filter_cons, hc.1, hc.2, Bool.not_false, Bool.true_and,
          decide_eq_true_eq]
        split <;> simp
    · have hvisit : visitSuccessor T i (C, ready) y = (C, ready) := by
        rw [visitSuccessor, if_neg]
        simpa using hc
      rw [hvisit, ih hl]
      refine Prod.ext ?_ ?_
      · simp only [Counters.mk.injEq, and_true]
        funext x
        by_cases hxy : x = y
        · subst hxy
          simp [hy, hc]
        · simp [hxy]
      · have hno : (!C.resolved y && T.predecessors y i) = false := by simpa using hc
        simp [released, hno]

/-! ## Runs -/

/-- How far the child operation of a node is. -/
inductive NodeStatus
  | idle
  | running
  | completed
  deriving DecidableEq

/-- A state of the operation. -/
structure State (n : ℕ) where
  counters : Counters n
  /-- `start()` while it reads the counters: the next node and `ready` so far. -/
  scan : Option (ℕ × List (Fin n))
  /-- The nodes each `startNodes` loop has still to start. -/
  activations : List (List (Fin n))
  status : Fin n → NodeStatus
  /-- How often the child operation of each node was started. -/
  starts : Fin n → ℕ
  /-- How many calls of `complete()` saw `finished` and have not called the receiver yet. -/
  finishing : ℕ
  /-- How often `m_receiver.set_value()` was called. -/
  delivered : ℕ

/-- The state in which `start()` is entered. -/
def State.initial (T : GraphTopology n) : State n :=
  ⟨Counters.initial T, some (0, []), [], fun _ => NodeStatus.idle, fun _ => 0, 0, 0⟩

/-- The state after the critical section of `complete<i>()`.  A call that saw `finished` goes on
to the receiver, any other to `startNodes` when it released something. -/
def State.complete (T : GraphTopology n) (s : State n) (i : Fin n) : State n :=
  let r := completeSection T i s.counters
  { s with
    counters := r.1
    status := Function.update s.status i NodeStatus.completed
    activations :=
      if r.1.unresolved = 0 then s.activations
      else if r.2.length ≠ 0 then r.2 :: s.activations else s.activations
    finishing := if r.1.unresolved = 0 then s.finishing + 1 else s.finishing }

/-- One action that touches the operation. -/
inductive Step (T : GraphTopology n) : State n → State n → Prop
  | scan {s : State n} {k : ℕ} {ready : List (Fin n)} (hs : s.scan = some (k, ready))
      (hk : k < n) :
      Step T s { s with scan := some (k + 1,
        if s.counters.remainingPredecessors ⟨k, hk⟩ = 0 then ready ++ [⟨k, hk⟩] else ready) }
  | scanned {s : State n} {ready : List (Fin n)} (hs : s.scan = some (n, ready)) :
      Step T s { s with scan := none, activations := ready :: s.activations }
  | startNode {s : State n} {i : Fin n} {l : List (Fin n)} {A B : List (List (Fin n))}
      (ha : s.activations = A ++ (i :: l) :: B) :
      Step T s { s with
        activations := A ++ l :: B
        status := Function.update s.status i NodeStatus.running
        starts := Function.update s.starts i (s.starts i + 1) }
  | complete {s : State n} {i : Fin n} (hi : s.status i = NodeStatus.running) :
      Step T s (s.complete T i)
  | setValue {s : State n} (hf : 0 < s.finishing) :
      Step T s { s with finishing := s.finishing - 1, delivered := s.delivered + 1 }

/-- All runs of the operation. -/
def system (T : GraphTopology n) : StepSystem (State n) where
  init := fun s => s = State.initial T
  step := Step T

/-! ## The invariant -/

/-- The predecessors of node `i` that have not completed. -/
def openPredecessors (T : GraphTopology n) (status : Fin n → NodeStatus) (i : Fin n) :
    Finset (Fin n) :=
  Finset.univ.filter fun p => T.predecessors i p = true ∧ status p ≠ NodeStatus.completed

/-- The nodes that have not completed. -/
def unfinished (status : Fin n → NodeStatus) : Finset (Fin n) :=
  Finset.univ.filter fun i => status i ≠ NodeStatus.completed

/-- The node may be started and has not been. -/
def Releasable (T : GraphTopology n) (status : Fin n → NodeStatus) (i : Fin n) : Prop :=
  status i = NodeStatus.idle ∧ openPredecessors T status i = ∅

/-- The bookkeeping that holds in every state of a run. -/
structure Inv (T : GraphTopology n) (s : State n) : Prop where
  remaining : ∀ i, s.counters.remainingPredecessors i = (openPredecessors T s.status i).card
  resolved : ∀ i, s.counters.resolved i = true ↔ s.status i = NodeStatus.completed
  unresolved : s.counters.unresolved = (unfinished s.status).card
  starts : ∀ i, s.starts i = if s.status i = NodeStatus.idle then 0 else 1
  startedAfter : ∀ i, s.status i ≠ NodeStatus.idle → openPredecessors T s.status i = ∅
  scanning : ∀ k ready, s.scan = some (k, ready) → k ≤ n ∧ (∀ i, s.status i = NodeStatus.idle) ∧
    s.activations = [] ∧ ready.Nodup ∧
    ∀ i : Fin n, i ∈ ready ↔ i.val < k ∧ Releasable T s.status i
  pending : s.scan = none → s.activations.flatten.Nodup ∧
    ∀ i, i ∈ s.activations.flatten ↔ Releasable T s.status i
  signal : s.finishing + s.delivered = if unfinished s.status = ∅ then 1 else 0

theorem mem_openPredecessors {T : GraphTopology n} {status : Fin n → NodeStatus} {i p : Fin n} :
    p ∈ openPredecessors T status i ↔
      T.predecessors i p = true ∧ status p ≠ NodeStatus.completed := by
  simp [openPredecessors]

theorem mem_unfinished {status : Fin n → NodeStatus} {i : Fin n} :
    i ∈ unfinished status ↔ status i ≠ NodeStatus.completed := by
  simp [unfinished]

theorem inv_initial (T : GraphTopology (n + 1)) : Inv T (State.initial T) where
  remaining := by
    intro i
    have hfilter : openPredecessors T (State.initial T).status i =
        Finset.univ.filter fun p => T.predecessors i p = true := by
      simp [openPredecessors, State.initial]
    rw [hfilter, ← List.toFinset_finRange, ← List.toFinset_filter,
      List.toFinset_card_of_nodup ((List.nodup_finRange _).filter _)]
    simp [State.initial, Counters.initial, List.countP_eq_length_filter]
  resolved := by simp [State.initial, Counters.initial]
  unresolved := by simp [unfinished, State.initial, Counters.initial]
  starts := by simp [State.initial]
  startedAfter := by simp [State.initial]
  scanning := by
    rintro k ready ⟨⟩
    simp [State.initial]
  pending := by
    rintro ⟨⟩
  signal := by
    have hne : unfinished (State.initial T).status ≠ ∅ :=
      Finset.nonempty_iff_ne_empty.mp ⟨0, by simp [unfinished, State.initial]⟩
    rw [if_neg hne]
    rfl

/-! ## One step -/

variable {T : GraphTopology n} {s : State n}

theorem Inv.scan (h : Inv T s) {k : ℕ} {ready : List (Fin n)} (hs : s.scan = some (k, ready))
    (hk : k < n) :
    Inv T { s with scan := some (k + 1,
      if s.counters.remainingPredecessors ⟨k, hk⟩ = 0 then ready ++ [⟨k, hk⟩] else ready) } := by
  refine { h with scanning := ?_, pending := by rintro ⟨⟩ }
  rintro k' ready' ⟨⟩
  obtain ⟨-, hidle, hact, hnodup, hmem⟩ := h.scanning k ready hs
  have hzero : s.counters.remainingPredecessors ⟨k, hk⟩ = 0 ↔
      Releasable T s.status ⟨k, hk⟩ := by
    rw [h.remaining, Nat.cast_eq_zero, Finset.card_eq_zero]
    exact (and_iff_right (hidle _)).symm
  have hnew : (⟨k, hk⟩ : Fin n) ∉ ready := by simp [hmem]
  have hlt : ∀ i : Fin n, i.val < k + 1 ↔ i.val < k ∨ i = ⟨k, hk⟩ := by
    intro i
    rw [Fin.ext_iff]
    exact Nat.lt_succ_iff_lt_or_eq
  refine ⟨hk, hidle, hact, ?_, fun i => ?_⟩
  · split
    · rw [List.nodup_append]
      refine ⟨hnodup, List.nodup_singleton _, fun a ha b hb hab => ?_⟩
      rw [hab, List.mem_singleton.mp hb] at ha
      exact hnew ha
    · exact hnodup
  · rw [hlt]
    split
    · next hr =>
      rw [List.mem_append, List.mem_singleton, hmem, or_and_right]
      exact or_congr_right ⟨fun hi => ⟨hi, hi ▸ hzero.mp hr⟩, And.left⟩
    · next hr =>
      rw [hmem, or_and_right]
      refine ⟨Or.inl, fun hi => hi.resolve_right ?_⟩
      rintro ⟨rfl, hrel⟩
      exact hr (hzero.mpr hrel)

theorem Inv.scanned (h : Inv T s) {ready : List (Fin n)} (hs : s.scan = some (n, ready)) :
    Inv T { s with scan := none, activations := ready :: s.activations } := by
  obtain ⟨-, -, hact, hnodup, hmem⟩ := h.scanning n ready hs
  refine { h with scanning := by rintro k ready ⟨⟩, pending := fun _ => ?_ }
  rw [hact, List.flatten_cons, List.flatten_nil, List.append_nil]
  exact ⟨hnodup, fun i => (hmem i).trans (and_iff_right i.isLt)⟩

/-- A node that some loop has yet to start is releasable. -/
theorem Inv.releasable_of_mem (h : Inv T s) {i : Fin n} (hi : i ∈ s.activations.flatten) :
    s.scan = none ∧ Releasable T s.status i := by
  rcases hsc : s.scan with _ | ⟨k, ready⟩
  · exact ⟨rfl, ((h.pending hsc).2 i).mp hi⟩
  · rw [(h.scanning k ready hsc).2.2.1] at hi
    simp at hi

theorem Inv.startNode (h : Inv T s) {i : Fin n} {rest : List (Fin n)}
    {A B : List (List (Fin n))} (ha : s.activations = A ++ (i :: rest) :: B) :
    Inv T { s with
      activations := A ++ rest :: B
      status := Function.update s.status i NodeStatus.running
      starts := Function.update s.starts i (s.starts i + 1) } := by
  obtain ⟨hscan, hidle, hopen⟩ := h.releasable_of_mem (i := i) (by simp [ha])
  set status := Function.update s.status i NodeStatus.running with hstatus
  have hcompleted : ∀ x, status x = NodeStatus.completed ↔
      s.status x = NodeStatus.completed := by
    intro x
    rcases eq_or_ne x i with rfl | hne
    · simp [hstatus, hidle]
    · simp [hstatus, hne]
  have hopenEq : ∀ x, openPredecessors T status x = openPredecessors T s.status x := by
    intro x
    ext p
    simp only [mem_openPredecessors, ne_eq, hcompleted]
  have hunfinished : unfinished status = unfinished s.status := by
    ext x
    simp only [mem_unfinished, ne_eq, hcompleted]
  refine ⟨fun x => ?_, fun x => ?_, ?_, fun x => ?_, fun x hx => ?_, fun k ready hk => ?_,
    fun _ => ?_, ?_⟩
  · rw [hopenEq]
    exact h.remaining x
  · rw [hcompleted]
    exact h.resolved x
  · rw [hunfinished]
    exact h.unresolved
  · rcases eq_or_ne x i with rfl | hne
    · simp [hstatus, h.starts, hidle]
    · simpa [hstatus, hne] using h.starts x
  · rw [hopenEq]
    rcases eq_or_ne x i with rfl | hne
    · exact hopen
    · exact h.startedAfter x (by simpa [hstatus, hne] using hx)
  · rw [hscan] at hk
    cases hk
  · -- the started node leaves its loop's list and stops being releasable
    obtain ⟨hnodup, hmem⟩ := h.pending hscan
    have hperm : s.activations.flatten.Perm (i :: (A ++ rest :: B).flatten) := by
      simp [ha]
    obtain ⟨hnot, hrest⟩ := List.nodup_cons.mp (hperm.nodup_iff.mp hnodup)
    refine ⟨hrest, fun x => ?_⟩
    have hx := (hperm.mem_iff (a := x)).symm.trans (hmem x)
    rw [Releasable, hopenEq]
    rcases eq_or_ne x i with rfl | hne
    · exact iff_of_false hnot (by simp [hstatus])
    · rw [List.mem_cons, or_iff_right hne, Releasable] at hx
      dsimp only
      rw [hx, hstatus, Function.update_of_ne hne]
  · rw [hunfinished]
    exact h.signal

theorem Inv.setValue (h : Inv T s) (hf : 0 < s.finishing) :
    Inv T { s with finishing := s.finishing - 1, delivered := s.delivered + 1 } := by
  refine { h with signal := ?_ }
  rw [← h.signal]
  dsimp only
  omega

/-- The critical section, with its loop run. -/
theorem completeSection_eq (T : GraphTopology n) (i : Fin n) (C : Counters n) :
    completeSection T i C =
      ({ resolve C i with remainingPredecessors := fun x =>
          if i < x ∧ (resolve C i).resolved x = false ∧ T.predecessors x i = true then
            C.remainingPredecessors x - 1
          else C.remainingPredecessors x },
        released T i (resolve C i) ((List.finRange n).filter fun x => decide (i < x))) := by
  rw [completeSection, foldl_visitSuccessor T i _ ((List.nodup_finRange n).filter _),
    List.nil_append]
  congr 2
  funext x
  exact if_congr (by simp) rfl rfl

/-- A node with a running predecessor waits for it. -/
theorem Inv.idle_of_running (h : Inv T s) {i x : Fin n} (hi : s.status i = NodeStatus.running)
    (hx : T.predecessors x i = true) :
    s.status x = NodeStatus.idle ∧ i ∈ openPredecessors T s.status x := by
  have hmem : i ∈ openPredecessors T s.status x := mem_openPredecessors.mpr ⟨hx, by simp [hi]⟩
  refine ⟨?_, hmem⟩
  by_contra hne
  rw [h.startedAfter x hne] at hmem
  cases hmem

/-- What the critical section of `complete<i>()` computes, given the invariant: every counter of a
successor goes down by one, and the ready list holds the successors `i` was the last to block. -/
theorem Inv.completeSection (h : Inv T s) {i : Fin n} (hi : s.status i = NodeStatus.running) :
    (∀ x, (completeSection T i s.counters).1.remainingPredecessors x =
        ((openPredecessors T s.status x).erase i).card) ∧
      (completeSection T i s.counters).1.resolved = Function.update s.counters.resolved i true ∧
      (completeSection T i s.counters).1.unresolved = ((unfinished s.status).erase i).card ∧
      (completeSection T i s.counters).2.Nodup ∧
      ∀ x, x ∈ (completeSection T i s.counters).2 ↔
        T.predecessors x i = true ∧ (openPredecessors T s.status x).erase i = ∅ := by
  have hguard : ∀ x, T.predecessors x i = true →
      i < x ∧ (resolve s.counters i).resolved x = false := by
    intro x hx
    have hlt := T.lt_of_predecessors hx
    have hres : s.counters.resolved x ≠ true := by simp [h.resolved, (h.idle_of_running hi hx).1]
    exact ⟨hlt, by simpa [resolve, hlt.ne'] using hres⟩
  have hpos : ∀ x, T.predecessors x i = true → 0 < (openPredecessors T s.status x).card :=
    fun x hx => Finset.card_pos.mpr ⟨i, (h.idle_of_running hi hx).2⟩
  rw [completeSection_eq]
  refine ⟨fun x => ?_, rfl, ?_, ?_, fun x => ?_⟩
  · dsimp only
    rw [h.remaining]
    by_cases hx : T.predecessors x i = true
    · have := hpos x hx
      rw [if_pos ⟨(hguard x hx).1, (hguard x hx).2, hx⟩,
        Finset.card_erase_of_mem (h.idle_of_running hi hx).2]
      omega
    · rw [if_neg (by simp [hx]), Finset.erase_eq_of_notMem]
      simp [mem_openPredecessors, hx]
  · have hmem : i ∈ unfinished s.status := mem_unfinished.mpr (by simp [hi])
    have := Finset.card_pos.mpr ⟨i, hmem⟩
    rw [Finset.card_erase_of_mem hmem]
    simp only [resolve, h.unresolved]
    omega
  · exact ((List.nodup_finRange n).filter _).filter _
  · simp only [released, List.mem_filter, List.mem_finRange, true_and, decide_eq_true_eq,
      Bool.and_eq_true, Bool.not_eq_true', resolve, h.remaining]
    constructor
    · rintro ⟨-, ⟨-, hx⟩, hone⟩
      refine ⟨hx, Finset.card_eq_zero.mp ?_⟩
      rw [Finset.card_erase_of_mem (h.idle_of_running hi hx).2]
      omega
    · rintro ⟨hx, hempty⟩
      refine ⟨(hguard x hx).1, ⟨(hguard x hx).2, hx⟩, ?_⟩
      have hcard := Finset.card_erase_of_mem (h.idle_of_running hi hx).2
      rw [hempty, Finset.card_empty] at hcard
      have := hpos x hx
      omega

theorem Inv.complete (h : Inv T s) {i : Fin n} (hi : s.status i = NodeStatus.running) :
    Inv T (s.complete T i) := by
  obtain ⟨hrem, hres, hunr, hnodup, hready⟩ := h.completeSection hi
  have hscan : s.scan = none := by
    rcases hsc : s.scan with _ | ⟨k, ready⟩
    · rfl
    · have := (h.scanning k ready hsc).2.1 i
      rw [hi] at this
      cases this
  set status := Function.update s.status i NodeStatus.completed with hstatus
  have hopen : ∀ x, openPredecessors T status x = (openPredecessors T s.status x).erase i := by
    intro x
    ext p
    rcases eq_or_ne p i with rfl | hne
    · simp [mem_openPredecessors, hstatus]
    · simp [mem_openPredecessors, hstatus, hne]
  have hunf : unfinished status = (unfinished s.status).erase i := by
    ext p
    rcases eq_or_ne p i with rfl | hne
    · simp [mem_unfinished, hstatus]
    · simp [mem_unfinished, hstatus, hne]
  have hzero : (GraphOperation.completeSection T i s.counters).1.unresolved = 0 ↔
      unfinished status = ∅ := by
    rw [hunr, hunf, Nat.cast_eq_zero, Finset.card_eq_zero]
  have hflat : (s.complete T i).activations.flatten =
      (GraphOperation.completeSection T i s.counters).2 ++ s.activations.flatten := by
    simp only [State.complete]
    split
    · next hfin =>
      -- with nothing left unresolved no successor was waiting, so the ready list is empty
      have hnil : (GraphOperation.completeSection T i s.counters).2 = [] := by
        refine List.eq_nil_iff_forall_not_mem.mpr fun x hx => ?_
        have hpred := ((hready x).mp hx).1
        have hmem : x ∈ unfinished status := by
          rw [mem_unfinished, hstatus, Function.update_of_ne (T.lt_of_predecessors hpred).ne',
            (h.idle_of_running hi hpred).1]
          simp
        rw [hzero.mp hfin] at hmem
        cases hmem
      rw [hnil, List.nil_append]
    · split
      · rfl
      · next hlen =>
        rw [List.length_eq_zero_iff.mp (not_not.mp hlen), List.nil_append]
  obtain ⟨hpn, hpm⟩ := h.pending hscan
  refine ⟨fun x => (hrem x).trans (by rw [← hopen]; rfl), fun x => ?_,
    hunr.trans (by rw [← hunf]; rfl), fun x => ?_, fun x hx => ?_, fun k ready hk => ?_,
    fun _ => ⟨?_, fun x => ?_⟩, ?_⟩
  · rcases eq_or_ne x i with rfl | hne
    · simp [State.complete, hres]
    · simpa [State.complete, hres, hne] using h.resolved x
  · rcases eq_or_ne x i with rfl | hne
    · simp [State.complete, h.starts, hi]
    · simpa [State.complete, hne] using h.starts x
  · have hold : openPredecessors T s.status x = ∅ := by
      refine h.startedAfter x ?_
      rcases eq_or_ne x i with rfl | hne
      · simp [hi]
      · simpa [State.complete, hne] using hx
    exact (hopen x).trans (by rw [hold, Finset.erase_empty])
  · rw [State.complete] at hk
    rw [hscan] at hk
    cases hk
  · rw [hflat, List.nodup_append]
    refine ⟨hnodup, hpn, fun a ha b hb hab => ?_⟩
    -- a node listed before had no open predecessor, a released one had `i`
    subst hab
    have hmem := (h.idle_of_running hi ((hready a).mp ha).1).2
    rw [((hpm a).mp hb).2] at hmem
    cases hmem
  · rw [hflat, List.mem_append, hready, hpm, Releasable]
    change _ ↔ status x = NodeStatus.idle ∧ openPredecessors T status x = ∅
    rw [hopen]
    constructor
    · rintro (⟨hx, hempty⟩ | ⟨hidle, hempty⟩)
      · refine ⟨?_, hempty⟩
        rw [hstatus, Function.update_of_ne (T.lt_of_predecessors hx).ne']
        exact (h.idle_of_running hi hx).1
      · have hne : x ≠ i := by
          rintro rfl
          rw [hi] at hidle
          cases hidle
        rw [hempty, Finset.erase_empty, hstatus, Function.update_of_ne hne]
        exact ⟨hidle, rfl⟩
    · rintro ⟨hidle, hempty⟩
      have hne : x ≠ i := by
        rintro rfl
        simp [hstatus] at hidle
      rw [hstatus, Function.update_of_ne hne] at hidle
      by_cases hx : T.predecessors x i = true
      · exact Or.inl ⟨hx, hempty⟩
      · rw [Finset.erase_eq_of_notMem (by simp [mem_openPredecessors, hx])] at hempty
        exact Or.inr ⟨hidle, hempty⟩
  · have hold : unfinished s.status ≠ ∅ :=
      Finset.nonempty_iff_ne_empty.mp ⟨i, mem_unfinished.mpr (by simp [hi])⟩
    have hsig := h.signal
    rw [if_neg hold] at hsig
    change (if _ then s.finishing + 1 else s.finishing) + s.delivered =
      if unfinished status = ∅ then 1 else 0
    by_cases hfin : unfinished status = ∅
    · rw [if_pos (hzero.mpr hfin), if_pos hfin]
      omega
    · rw [if_neg (mt hzero.mp hfin), if_neg hfin]
      exact hsig

/-- **Every step keeps the invariant.** -/
theorem Inv.step {t : State n} (h : Inv T s) (hst : Step T s t) : Inv T t := by
  cases hst with
  | scan hs hk => exact h.scan hs hk
  | scanned hs => exact h.scanned hs
  | startNode ha => exact h.startNode ha
  | complete hi => exact h.complete hi
  | setValue hf => exact h.setValue hf

theorem inv_of_reachable {T : GraphTopology (n + 1)} {s : State (n + 1)}
    (h : (system T).Reachable s) : Inv T s :=
  h.invariant (fun s hs => by rw [hs]; exact inv_initial T) fun _ _ _ hinv hst => hinv.step hst

/-! ## Where runs end -/

/-- Once the receiver is called, nothing touches the operation any more. -/
theorem Inv.terminal_of_delivered {T : GraphTopology (n + 1)} {s : State (n + 1)} (h : Inv T s)
    (hd : 0 < s.delivered) :
    (∀ i, s.status i = NodeStatus.completed) ∧ (system T).Terminal s := by
  have hempty : unfinished s.status = ∅ := by
    by_contra hne
    have := h.signal
    rw [if_neg hne] at this
    omega
  have hall : ∀ i, s.status i = NodeStatus.completed := by
    intro i
    by_contra hne
    have := mem_unfinished.mpr hne
    rw [hempty] at this
    cases this
  have hsig := h.signal
  rw [if_pos hempty] at hsig
  refine ⟨hall, fun t hst => ?_⟩
  cases hst with
  | scan hs hk =>
    have := (h.scanning _ _ hs).2.1 ⟨_, hk⟩
    rw [hall] at this
    cases this
  | scanned hs =>
    have := (h.scanning _ _ hs).2.1 0
    rw [hall] at this
    cases this
  | @startNode i rest A B ha =>
    have := (h.releasable_of_mem (i := i) (by simp [ha])).2.1
    rw [hall] at this
    cases this
  | @complete i hi =>
    rw [hall] at hi
    cases hi
  | setValue hf => omega

/-- **A run that can go no further is complete.**  A node that was never started would have a
first one among them, whose predecessors are all completed; some loop would still hold it. -/
theorem Inv.of_terminal (h : Inv T s) (ht : (system T).Terminal s) :
    (∀ i, s.status i = NodeStatus.completed ∧ s.starts i = 1) ∧ s.delivered = 1 := by
  have hscan : s.scan = none := by
    rcases hsc : s.scan with _ | ⟨k, ready⟩
    · rfl
    · obtain ⟨hk, -⟩ := h.scanning k ready hsc
      rcases Nat.lt_or_eq_of_le hk with hlt | rfl
      · exact absurd (Step.scan hsc hlt) (ht _)
      · exact absurd (Step.scanned hsc) (ht _)
  have hnoact : s.activations.flatten = [] := by
    refine List.eq_nil_iff_forall_not_mem.mpr fun i hi => ?_
    obtain ⟨l, hl, hil⟩ := List.mem_flatten.mp hi
    obtain ⟨A, B, hAB⟩ := List.append_of_mem hl
    rcases l with _ | ⟨j, rest⟩
    · cases hil
    · exact ht _ (Step.startNode hAB)
  have hall : ∀ i, s.status i = NodeStatus.completed := by
    intro i
    induction i using WellFoundedLT.induction with
    | ind i ih =>
      have hopen : openPredecessors T s.status i = ∅ := by
        refine Finset.eq_empty_of_forall_notMem fun p hp => ?_
        obtain ⟨hpred, hne⟩ := mem_openPredecessors.mp hp
        exact hne (ih p (T.lt_of_predecessors hpred))
      rcases hst : s.status i with _ | _ | _
      · have := ((h.pending hscan).2 i).mpr ⟨hst, hopen⟩
        rw [hnoact] at this
        cases this
      · exact absurd (Step.complete hst) (ht _)
      · rfl
  have hempty : unfinished s.status = ∅ :=
    Finset.eq_empty_of_forall_notMem fun i hi => mem_unfinished.mp hi (hall i)
  have hsig := h.signal
  rw [if_pos hempty] at hsig
  have hfin : s.finishing = 0 := by
    by_contra hne
    exact ht _ (Step.setValue (Nat.pos_of_ne_zero hne))
  exact ⟨fun i => ⟨hall i, by simp [h.starts, hall i]⟩, by omega⟩

/-- What a node still costs: a start and a completion, which may add a call of the receiver. -/
def NodeStatus.weight : NodeStatus → ℕ
  | idle => 3
  | running => 2
  | completed => 0

/-- The steps a run has left, at most. -/
def stepsLeft (s : State n) : ℕ :=
  (match s.scan with
    | some (k, _) => n + 1 - k
    | none => 0) + (∑ i, (s.status i).weight) + s.finishing

theorem sum_weight_update (status : Fin n → NodeStatus) (i : Fin n) (x : NodeStatus) :
    (∑ j, (Function.update status i x j).weight) + (status i).weight =
      (∑ j, (status j).weight) + x.weight := by
  rw [← Finset.add_sum_erase Finset.univ _ (Finset.mem_univ i),
    ← Finset.add_sum_erase Finset.univ (fun j => (status j).weight) (Finset.mem_univ i)]
  have hrest : ∑ j ∈ Finset.univ.erase i, (Function.update status i x j).weight =
      ∑ j ∈ Finset.univ.erase i, (status j).weight := by
    refine Finset.sum_congr rfl fun j hj => ?_
    rw [Function.update_of_ne (Finset.ne_of_mem_erase hj)]
  rw [hrest, Function.update_self]
  omega

theorem Inv.stepsLeft_lt {t : State n} (h : Inv T s) (hst : Step T s t) :
    stepsLeft t < stepsLeft s := by
  cases hst with
  | scan hs hk =>
    simp only [stepsLeft, hs]
    omega
  | scanned hs =>
    simp only [stepsLeft, hs]
    omega
  | @startNode i rest A B ha =>
    have hidle := (h.releasable_of_mem (i := i) (by simp [ha])).2.1
    have hsum := sum_weight_update s.status i NodeStatus.running
    rw [hidle] at hsum
    simp only [stepsLeft, NodeStatus.weight] at hsum ⊢
    omega
  | @complete i hi =>
    have hsum := sum_weight_update s.status i NodeStatus.completed
    rw [hi] at hsum
    have hle : (s.complete T i).finishing ≤ s.finishing + 1 := by
      simp only [State.complete]
      split <;> omega
    simp only [stepsLeft, State.complete, NodeStatus.weight] at hsum hle ⊢
    omega
  | setValue hf =>
    simp only [stepsLeft]
    omega

/-- **A graph operation runs its graph.**  For every topology `caravan::graph` accepts and in
every state of every run: a node is started at most once, and only after its predecessors have
completed; neither counter underflows; the receiver is called at most once, only after all nodes
have completed, and nothing touches the operation afterwards; and every run is finite and ends
with all nodes completed, each started exactly once, and the receiver called exactly once. -/
theorem graph_operation_correct (T : GraphTopology (n + 1)) (s : State (n + 1))
    (h : (system T).Reachable s) :
    (∀ i, s.starts i ≤ 1 ∧
        (0 < s.starts i → ∀ p, T.predecessors i p = true → s.status p = NodeStatus.completed)) ∧
      ((∀ i, 0 ≤ s.counters.remainingPredecessors i) ∧ 0 ≤ s.counters.unresolved) ∧
      (s.delivered ≤ 1 ∧ (0 < s.delivered →
        (∀ i, s.status i = NodeStatus.completed) ∧ (system T).Terminal s)) ∧
      (system T).Terminating s ∧
      ((system T).Terminal s →
        (∀ i, s.status i = NodeStatus.completed ∧ s.starts i = 1) ∧ s.delivered = 1) := by
  have hinv := inv_of_reachable h
  refine ⟨fun i => ⟨?_, fun hpos p hp => ?_⟩, ⟨fun i => ?_, ?_⟩, ⟨?_, hinv.terminal_of_delivered⟩,
    ?_, hinv.of_terminal⟩
  · rw [hinv.starts]
    split <;> omega
  · have hidle : s.status i ≠ NodeStatus.idle := by
      intro hidle
      rw [hinv.starts, if_pos hidle] at hpos
      exact absurd hpos (lt_irrefl 0)
    by_contra hne
    have hmem := mem_openPredecessors.mpr ⟨hp, hne⟩
    rw [hinv.startedAfter i hidle] at hmem
    cases hmem
  · rw [hinv.remaining]
    exact Int.natCast_nonneg _
  · rw [hinv.unresolved]
    exact Int.natCast_nonneg _
  · have := hinv.signal
    split at this <;> omega
  · exact h.terminating stepsLeft fun s t hs hst => (inv_of_reachable hs).stepsLeft_lt hst

/-- Two nodes, the second after the first. -/
def chain : GraphTopology 2 where
  identity := !["load", "run"]
  after := ![[], ["load"]]
  hasUniqueNames := by decide
  isTopologicallyOrdered := by decide

/-- A run in which the first node completes and releases the second. -/
theorem exists_reachable_chain : ∃ s, (system chain).Reachable s ∧ s.starts 1 = 1 := by
  have h0 : (system chain).Reachable (State.initial chain) := StepSystem.Reachable.init rfl
  have h1 := h0.step (Step.scan rfl (by decide))
  have h2 := h1.step (Step.scan rfl (by decide))
  have h3 := h2.step (Step.scanned rfl)
  have h4 := h3.step (Step.startNode (i := 0) (l := []) (A := []) (B := []) rfl)
  have h5 := h4.step (Step.complete (i := 0) rfl)
  have h6 := h5.step (Step.startNode (i := 1) (l := []) (A := []) (B := [[]]) rfl)
  exact ⟨_, h6, rfl⟩

theorem graph_operation_correct_chain :
    ∃ s : State 2, s.starts 1 = 1 ∧ chain.predecessors 1 0 = true ∧
      s.status 0 = NodeStatus.completed := by
  obtain ⟨s, h, hone⟩ := exists_reachable_chain
  exact ⟨s, hone, by decide, ((graph_operation_correct chain s h).1 1).2 (by omega) 0 (by decide)⟩

end GraphOperation
end Caravan
end Spearhed
