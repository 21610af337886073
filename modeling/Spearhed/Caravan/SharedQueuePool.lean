import Mathlib.Data.List.Sort
import Mathlib.Data.Nat.ModEq
import Spearhed.Caravan.LaneAssignment
import Spearhed.Caravan.SubmitOperation
import Spearhed.Library.LockOrder

/-!
# The shared queue pool

`SharedQueuePool` maps the lanes of every connected graph to a fixed ring of queues.  Starting a
graph locks the queues it uses in ascending order, submits all stages, unlocks, and publishes.  This
file models the pool, the threads that start graphs and the queues they submit to.

* `acquire` and `Binding`: the base advances around the ring by the lane count of each graph.
* `lockOrder`: the deduplicated and sorted indices that `Binding::start` locks.
* `HostStep`: one action of a thread inside `start`, in the order of the code.
* `execute`: a queue finishes its front item.  A wait holds its queue up until the event it names
  is complete, and nothing else does.

Stages, fences and the commands of a stage are those of `SubmitOperation`, with the index of a queue
in the pool for its handle.  Events are named by graph and stage: an event of the pool is leased to
one fence at a time and returned when its graph is quiescent.
-/

namespace Spearhed
namespace Caravan

open Library ManagedSubmitSender

/-! ## Binding lanes to queues -/

/-- A sender for the pool, with one lane and one callable per stage; a callable is the number of
work items it enqueues. -/
structure PoolSender where
  sender : ManagedSubmitSender ℕ
  /-- `std::array<std::size_t, stageCount> lanes`. -/
  lanes_length : sender.lanes.length = sender.dependencies.stageCount
  topological : sender.dependencies.IsTopological

/-- `Binding::operator[]` as an index into `m_queues`. -/
def physicalQueue (size base lane : ℕ) : ℕ :=
  (base + lane) % size

/-- The loop of `Binding::start` that collects every index once. -/
def distinctQueues (size base : ℕ) (lanes : List ℕ) : List ℕ :=
  lanes.foldl (fun distinct lane =>
    if physicalQueue size base lane ∈ distinct then distinct
    else distinct ++ [physicalQueue size base lane]) []

/-- The indices `Binding::start` locks, in the order it locks them. -/
def lockOrder (size base : ℕ) (lanes : List ℕ) : List ℕ :=
  (distinctQueues size base lanes).insertionSort (· ≤ ·)

/-- A connected graph: its sender, `m_base`, and `m_queues` as `bindQueues` filled it. -/
structure ConnectedGraph where
  graph : PoolSender
  base : ℕ
  queues : ℕ → ℕ

/-- The submit operation of a connected graph. -/
def ConnectedGraph.operation (c : ConnectedGraph) : SubmitOperation ℕ where
  queues := c.queues
  dependencies := c.graph.sender.dependencies
  tasks := fun i => c.graph.sender.submits.getD i 0
  topological := c.graph.topological

/-! ## The state of the pool -/

/-- Where a thread is in `Binding::start` of graph `g`. -/
inductive StartPhase
  /-- Not inside `start`. -/
  | idle
  /-- About to lock `distinct[i]`. -/
  | locking (g : ℕ) (distinct : List ℕ) (i : ℕ)
  /-- In `submitStage<stage>`, after `offset` of its commands. -/
  | submitting (g : ℕ) (distinct : List ℕ) (stage offset : ℕ)
  /-- With `i` more locks to release. -/
  | unlocking (g : ℕ) (distinct : List ℕ) (i : ℕ)
  /-- About to call `publish`. -/
  | publishing (g : ℕ)

/-- A submitted command.  The ticket numbers all items in the order they are enqueued. -/
structure QueueItem where
  ticket : ℕ
  graph : ℕ
  command : SubmitOperation.Command

/-- The pool, the threads that use it, and the queues of the device. -/
structure PoolState (Thread : Type) where
  /-- `m_queues.size()`. -/
  size : ℕ
  /-- `m_next`. -/
  next : ℕ
  /-- `m_started`. -/
  started : Bool
  /-- The connected graphs, in the order of their connection. -/
  graphs : List ConnectedGraph
  /-- The graphs whose `start` was called. -/
  startCalled : ℕ → Bool
  phase : Thread → StartPhase
  /-- The owners of `m_queueMutexes`. -/
  owner : ℕ → Option Thread
  /-- The items of a queue that have not executed. -/
  items : ℕ → List QueueItem
  /-- `m_recorded` of the fences of a graph, with the ticket of the record. -/
  recordedAt : ℕ → ℕ → Option ℕ
  /-- The events that are complete. -/
  complete : ℕ → ℕ → Bool
  /-- The next ticket. -/
  ticket : ℕ

namespace PoolState

variable {Thread : Type} [DecidableEq Thread]

/-- `SharedQueuePool::acquire` followed by `bindQueues`. -/
def connect (s : PoolState Thread) (graph : PoolSender) : PoolState Thread :=
  { s with
    started := true
    next := (s.next + graph.sender.laneCount % s.size) % s.size
    graphs := s.graphs ++ [⟨graph, s.next, fun i =>
      physicalQueue s.size s.next (graph.sender.laneAt i)⟩] }

def setPhase (s : PoolState Thread) (t : Thread) (p : StartPhase) : PoolState Thread :=
  { s with phase := Function.update s.phase t p }

/-- The item goes to the end of queue `q`. -/
def enqueue (s : PoolState Thread) (q g : ℕ) (c : SubmitOperation.Command) : PoolState Thread :=
  { s with
    items := Function.update s.items q (s.items q ++ [⟨s.ticket, g, c⟩])
    ticket := s.ticket + 1 }

/-- The host enqueues a command of graph `g`.  `CompletionFence::record` does so only once. -/
def submitCommand (s : PoolState Thread) (q g : ℕ) :
    SubmitOperation.Command → PoolState Thread
  | .record f =>
      if (s.recordedAt g f).isSome then s
      else { s.enqueue q g (.record f) with
        recordedAt := Function.update s.recordedAt g
          (Function.update (s.recordedAt g) f (some s.ticket)) }
  | c => s.enqueue q g c

/-- The front item of a queue may execute. -/
def Enabled (s : PoolState Thread) (x : QueueItem) : Prop :=
  ∀ f, x.command = .wait f → s.complete x.graph f = true

/-- Queue `q` finishes its front item `x`, and `rest` stays. -/
def execute (s : PoolState Thread) (q : ℕ) (x : QueueItem) (rest : List QueueItem) :
    PoolState Thread :=
  { s with
    items := Function.update s.items q rest
    complete := match x.command with
      | .record f => Function.update s.complete x.graph
          (Function.update (s.complete x.graph) f true)
      | _ => s.complete }

/-- One action of thread `t` inside `Binding::start`. -/
inductive HostStep (t : Thread) : PoolState Thread → PoolState Thread → Prop
  | lock {s : PoolState Thread} {g i k : ℕ} {distinct : List ℕ}
      (hp : s.phase t = .locking g distinct i) (hk : distinct[i]? = some k)
      (hfree : s.owner k = none) :
      HostStep t s { s.setPhase t (.locking g distinct (i + 1)) with
        owner := Function.update s.owner k (some t) }
  | locked {s : PoolState Thread} {g : ℕ} {distinct : List ℕ}
      (hp : s.phase t = .locking g distinct distinct.length) :
      HostStep t s (s.setPhase t (.submitting g distinct 0 0))
  | issue {s : PoolState Thread} {g stage offset : ℕ} {distinct : List ℕ} {c : ConnectedGraph}
      {command : SubmitOperation.Command} (hp : s.phase t = .submitting g distinct stage offset)
      (hg : s.graphs[g]? = some c) (hs : stage < c.operation.stageCount)
      (hc : c.operation.command stage offset = some command) :
      HostStep t s ((s.submitCommand (c.queues stage) g command).setPhase t
        (.submitting g distinct stage (offset + 1)))
  | nextStage {s : PoolState Thread} {g stage offset : ℕ} {distinct : List ℕ}
      {c : ConnectedGraph} (hp : s.phase t = .submitting g distinct stage offset)
      (hg : s.graphs[g]? = some c) (hs : stage < c.operation.stageCount)
      (ho : offset = (c.operation.stageCommands stage).length) :
      HostStep t s (s.setPhase t (.submitting g distinct (stage + 1) 0))
  | submitted {s : PoolState Thread} {g stage offset : ℕ} {distinct : List ℕ}
      {c : ConnectedGraph} (hp : s.phase t = .submitting g distinct stage offset)
      (hg : s.graphs[g]? = some c) (hs : stage = c.operation.stageCount) :
      HostStep t s (s.setPhase t (.unlocking g distinct distinct.length))
  | unlock {s : PoolState Thread} {g i k : ℕ} {distinct : List ℕ}
      (hp : s.phase t = .unlocking g distinct (i + 1)) (hk : distinct[i]? = some k) :
      HostStep t s { s.setPhase t (.unlocking g distinct i) with
        owner := Function.update s.owner k none }
  | unlocked {s : PoolState Thread} {g : ℕ} {distinct : List ℕ}
      (hp : s.phase t = .unlocking g distinct 0) :
      HostStep t s (s.setPhase t (.publishing g))
  | publish {s : PoolState Thread} {g : ℕ} (hp : s.phase t = .publishing g) :
      HostStep t s (s.setPhase t .idle)

/-- One action of a user of the pool, of a thread inside `start`, or of a queue.  A pool that has
started does not grow, and a callable starts no graph, so only idle threads call `start`. -/
inductive Step : PoolState Thread → PoolState Thread → Prop
  | addQueues {s : PoolState Thread} (count : ℕ) (hs : s.started = false) :
      Step s { s with size := s.size + count }
  | connect {s : PoolState Thread} (graph : PoolSender) : Step s (s.connect graph)
  | start {s : PoolState Thread} {t : Thread} {g : ℕ} {c : ConnectedGraph}
      (hp : s.phase t = .idle) (hg : s.graphs[g]? = some c) (hcalled : s.startCalled g = false) :
      Step s { s.setPhase t
          (.locking g (lockOrder s.size c.base c.graph.sender.lanes) 0) with
        startCalled := Function.update s.startCalled g true }
  | host {s s' : PoolState Thread} {t : Thread} (h : HostStep t s s') : Step s s'
  | execute {s : PoolState Thread} {q : ℕ} {x : QueueItem} {rest : List QueueItem}
      (hq : s.items q = x :: rest) (hx : s.Enabled x) : Step s (s.execute q x rest)

/-- A pool as its constructor leaves it. -/
def Initial (s : PoolState Thread) : Prop :=
  ∃ queueCount, 0 < queueCount ∧ s = ⟨queueCount, 0, false, [], fun _ => false,
    fun _ => .idle, fun _ => none, fun _ => [], fun _ _ => none, fun _ _ => false, 0⟩

/-- All runs of a pool. -/
def system (Thread : Type) [DecidableEq Thread] : StepSystem (PoolState Thread) where
  init := Initial
  step := Step

end PoolState

/-! ## The indices that are locked -/

section LockOrder

variable {size base : ℕ} {lanes : List ℕ}

theorem foldl_distinct (acc : List ℕ) (hacc : acc.Nodup) :
    (lanes.foldl (fun distinct lane =>
      if physicalQueue size base lane ∈ distinct then distinct
      else distinct ++ [physicalQueue size base lane]) acc).Nodup ∧
    ∀ k, k ∈ lanes.foldl (fun distinct lane =>
      if physicalQueue size base lane ∈ distinct then distinct
      else distinct ++ [physicalQueue size base lane]) acc ↔
        k ∈ acc ∨ ∃ lane ∈ lanes, physicalQueue size base lane = k := by
  induction lanes generalizing acc with
  | nil => exact ⟨hacc, fun k => by simp⟩
  | cons lane lanes ih =>
    rw [List.foldl_cons]
    split
    · next hseen =>
      obtain ⟨hnodup, hmem⟩ := ih acc hacc
      refine ⟨hnodup, fun k => (hmem k).trans ?_⟩
      rw [List.exists_mem_cons_iff]
      refine or_congr_right' fun hk => (or_iff_right ?_).symm
      rintro rfl
      exact hk hseen
    · next hnew =>
      obtain ⟨hnodup, hmem⟩ := ih (acc ++ [physicalQueue size base lane])
        (List.nodup_append.mpr ⟨hacc, List.nodup_singleton _, by
          rintro a ha b hb rfl
          exact hnew (List.mem_singleton.mp hb ▸ ha)⟩)
      refine ⟨hnodup, fun k => (hmem k).trans ?_⟩
      rw [List.mem_append, List.mem_singleton, List.exists_mem_cons_iff, or_assoc, eq_comm]

/-- **The locks are exactly the queues of the lanes.** -/
theorem mem_lockOrder {k : ℕ} :
    k ∈ lockOrder size base lanes ↔ ∃ lane ∈ lanes, physicalQueue size base lane = k := by
  rw [lockOrder, List.mem_insertionSort, distinctQueues, (foldl_distinct [] List.nodup_nil).2]
  exact or_iff_right List.not_mem_nil

/-- Each lock is taken once, in ascending order. -/
theorem pairwise_lockOrder : (lockOrder size base lanes).Pairwise (· < ·) := by
  have hnodup : (lockOrder size base lanes).Nodup :=
    (List.perm_insertionSort _ _).nodup_iff.mpr (foldl_distinct [] List.nodup_nil).1
  have hsorted : (lockOrder size base lanes).Pairwise (· ≤ ·) :=
    List.pairwise_insertionSort (· ≤ ·) _
  exact (hsorted.and hnodup).imp fun h => lt_of_le_of_ne h.1 h.2

theorem lt_of_mem_lockOrder (hsize : 0 < size) {k : ℕ} (hk : k ∈ lockOrder size base lanes) :
    k < size := by
  obtain ⟨lane, -, rfl⟩ := mem_lockOrder.mp hk
  exact Nat.mod_lt _ hsize

/-- **Consecutive lanes are bound to different queues** until the ring is used up. -/
theorem card_physicalQueue (hsize : 0 < size) (laneCount : ℕ) :
    ((Finset.range laneCount).image (physicalQueue size base)).card = min laneCount size := by
  have hinj : Set.InjOn (physicalQueue size base) (Finset.range (min laneCount size)) := by
    intro i hi j hj hij
    rw [Finset.coe_range, Set.mem_Iio, lt_min_iff] at hi hj
    exact (Nat.ModEq.add_left_cancel' base hij).eq_of_lt_of_lt hi.2 hj.2
  refine le_antisymm (le_min ?_ ?_) ?_
  · exact Finset.card_image_le.trans_eq (Finset.card_range laneCount)
  · have hsub : (Finset.range laneCount).image (physicalQueue size base) ⊆ Finset.range size := by
      intro k hk
      obtain ⟨lane, -, rfl⟩ := Finset.mem_image.mp hk
      exact Finset.mem_range.mpr (Nat.mod_lt _ hsize)
    exact (Finset.card_le_card hsub).trans_eq (Finset.card_range size)
  · have hsub : (Finset.range (min laneCount size)).image (physicalQueue size base) ⊆
        (Finset.range laneCount).image (physicalQueue size base) :=
      Finset.image_subset_image (Finset.range_subset_range.mpr (min_le_left _ _))
    have hcard := Finset.card_le_card hsub
    rwa [Finset.card_image_of_injOn hinj, Finset.card_range] at hcard

end LockOrder

end Caravan
end Spearhed
