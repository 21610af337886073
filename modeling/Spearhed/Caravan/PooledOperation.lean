import Spearhed.Caravan.LeasePools
import Spearhed.Caravan.SharedQueuePool
import Spearhed.Library.Leasing

/-!
# Leases of pooled operations

Connected operations lease queues and events, and other code may hold leases in variables of its
own.  This file models lease objects by the place they are constructed in: a variable, the
`m_binding` of an operation, or the lease of one of its fences.  Operations go through their
life cycle step by step, including the exceptions of their constructor, and their stages run as in
`SubmitOperation`.

An operation may be destroyed before `start` is called, and after its receiver was; destroying it
in between is excluded for every sender.
-/

namespace Spearhed
namespace Caravan

open Library ManagedSubmitSender

/-- Where a lease object lives. -/
inductive Place
  | variable (n : ℕ)
  /-- `m_binding` of operation `g`. -/
  | binding (g : ℕ)
  /-- `m_lease` of `m_fences[i]` of operation `g`. -/
  | fence (g i : ℕ)
  deriving DecidableEq

/-- The life cycle of a `PooledSubmitOperation`. -/
inductive OperationPhase
  /-- The constructor has come to the fences of the stages below `k`. -/
  | constructing (k : ℕ)
  | connected
  /-- `start` was called; stages are submitted and fences polled. -/
  | started
  /-- All fences were complete, and those below `k` are reset. -/
  | resetting (k : ℕ)
  /-- About to reset the binding, in `Receiver::set_value`. -/
  | unbinding
  /-- About to call the receiver. -/
  | delivering
  /-- The receiver was called. -/
  | delivered
  /-- The destructor, or an exception of the constructor, has come to the fences below `k`. -/
  | destroying (k : ℕ)

/-- A `PooledSubmitOperation`. -/
structure PooledOperation where
  graph : PoolSender
  /-- `m_operation`, on the queues of the binding. -/
  operation : SubmitOperation ℕ
  phase : OperationPhase
  progress : SubmitOperation.Progress
  /-- `start` was called. -/
  hasStarted : Bool

/-- The operation that `bindQueues` builds for a lease. -/
def bindOperation (graph : PoolSender) (lease : QueueLease) : SubmitOperation ℕ where
  queues := fun i => lease.entries.getD (graph.sender.laneAt i) 0
  dependencies := graph.sender.dependencies
  tasks := fun i => graph.sender.submits.getD i 0
  topological := graph.topological

/-- The pools, the lease objects and the operations.  The counters record, for the entries of the
two pools, how often each one was leased and returned. -/
structure LeaseWorld where
  queuePool : QueuePool
  eventPool : EventPool
  queueLeases : Place → Option QueueLease
  eventLeases : Place → Option EventLease
  operations : ℕ → Option PooledOperation
  queueGrants : ℕ → ℕ
  queueReturns : ℕ → ℕ
  eventGrants : ℕ → ℕ
  eventReturns : ℕ → ℕ

/-- The entries a queue lease object holds; none after it was moved from. -/
def QueueLease.held : Option QueueLease → List ℕ
  | some ⟨true, entries⟩ => entries
  | _ => []

/-- The entry an event lease object holds; none after it was moved from. -/
def EventLease.held : Option EventLease → List ℕ
  | some ⟨true, entry⟩ => [entry]
  | _ => []

namespace LeaseWorld

/-! ## Lease objects -/

/-- A lease object is constructed from what `acquire` returned. -/
def bindQueues (w : LeaseWorld) (p : Place) (lease : QueueLease) (pool : QueuePool) :
    LeaseWorld :=
  { w with
    queuePool := pool
    queueLeases := Function.update w.queueLeases p (some lease)
    queueGrants := fun e => w.queueGrants e + lease.entries.count e }

/-- `Lease(Lease&& other)`. -/
def moveQueues (w : LeaseWorld) (src dst : Place) (lease : QueueLease) : LeaseWorld :=
  { w with
    queueLeases := Function.update (Function.update w.queueLeases dst (some lease)) src
      (some ⟨false, []⟩) }

/-- `~Lease`, where there is a lease object. -/
def destroyQueues (w : LeaseWorld) (p : Place) : LeaseWorld :=
  { w with
    queuePool := w.queuePool.release (QueueLease.held (w.queueLeases p))
    queueLeases := Function.update w.queueLeases p none
    queueReturns := fun e => w.queueReturns e + (QueueLease.held (w.queueLeases p)).count e }

/-- A lease object is constructed from what `acquire` returned. -/
def bindEvent (w : LeaseWorld) (p : Place) (lease : EventLease) (pool : EventPool) : LeaseWorld :=
  { w with
    eventPool := pool
    eventLeases := Function.update w.eventLeases p (some lease)
    eventGrants := fun e => w.eventGrants e + [lease.entry].count e }

/-- `Lease(Lease&& other)`. -/
def moveEvent (w : LeaseWorld) (src dst : Place) (lease : EventLease) : LeaseWorld :=
  { w with
    eventLeases := Function.update (Function.update w.eventLeases dst (some lease)) src
      (some ⟨false, lease.entry⟩) }

/-- `~Lease`, where there is a lease object. -/
def destroyEvent (w : LeaseWorld) (p : Place) : LeaseWorld :=
  match w.eventLeases p with
  | some ⟨true, entry⟩ =>
      { w with
        eventPool := w.eventPool.release entry
        eventLeases := Function.update w.eventLeases p none
        eventReturns := fun e => w.eventReturns e + [entry].count e }
  | _ => { w with eventLeases := Function.update w.eventLeases p none }

/-! ## Steps -/

/-- Operation `g` is replaced by `o`. -/
def setOperation (w : LeaseWorld) (g : ℕ) (o : PooledOperation) : LeaseWorld :=
  { w with operations := Function.update w.operations g (some o) }

/-- Operation `g` goes on to phase `p`. -/
def setPhase (w : LeaseWorld) (g : ℕ) (o : PooledOperation) (p : OperationPhase) : LeaseWorld :=
  w.setOperation g { o with phase := p }

/-- One action on lease objects in variables, or of an operation. -/
inductive Step : LeaseWorld → LeaseWorld → Prop
  | acquireQueues {w : LeaseWorld} {n count creatable : ℕ} {lease : QueueLease}
      {pool : QueuePool} (hn : w.queueLeases (.variable n) = none)
      (h : w.queuePool.acquire count creatable = (some lease, pool)) :
      Step w (w.bindQueues (.variable n) lease pool)
  | acquireQueuesThrow {w : LeaseWorld} {count creatable : ℕ} {pool : QueuePool}
      (h : w.queuePool.acquire count creatable = (none, pool)) :
      Step w { w with queuePool := pool }
  | moveQueues {w : LeaseWorld} {n m : ℕ} {lease : QueueLease}
      (hn : w.queueLeases (.variable n) = some lease) (hm : w.queueLeases (.variable m) = none) :
      Step w (w.moveQueues (.variable n) (.variable m) lease)
  | destroyQueues {w : LeaseWorld} (n : ℕ) : Step w (w.destroyQueues (.variable n))
  | acquireEvent {w : LeaseWorld} {n : ℕ} {creatable : Bool} {lease : EventLease}
      {pool : EventPool} (hn : w.eventLeases (.variable n) = none)
      (h : w.eventPool.acquire creatable = (some lease, pool)) :
      Step w (w.bindEvent (.variable n) lease pool)
  | moveEvent {w : LeaseWorld} {n m : ℕ} {lease : EventLease}
      (hn : w.eventLeases (.variable n) = some lease) (hm : w.eventLeases (.variable m) = none) :
      Step w (w.moveEvent (.variable n) (.variable m) lease)
  | destroyEvent {w : LeaseWorld} (n : ℕ) : Step w (w.destroyEvent (.variable n))
  | connect {w : LeaseWorld} {g creatable : ℕ} {graph : PoolSender} {lease : QueueLease}
      {pool : QueuePool} (hg : w.operations g = none)
      (h : w.queuePool.acquire graph.sender.laneCount creatable = (some lease, pool)) :
      Step w ((w.bindQueues (.binding g) lease pool).setOperation g
        ⟨graph, bindOperation graph lease, .constructing graph.sender.dependencies.stageCount,
          SubmitOperation.Progress.initial, false⟩)
  | shareFence {w : LeaseWorld} {g i : ℕ} {o : PooledOperation} (hg : w.operations g = some o)
      (hp : o.phase = .constructing (i + 1)) (hs : o.operation.sharesFence i = true) :
      Step w (w.setPhase g o (.constructing i))
  | makeFence {w : LeaseWorld} {g i : ℕ} {o : PooledOperation} {creatable : Bool}
      {lease : EventLease} {pool : EventPool} (hg : w.operations g = some o)
      (hp : o.phase = .constructing (i + 1)) (hs : o.operation.sharesFence i = false)
      (h : w.eventPool.acquire creatable = (some lease, pool)) :
      Step w ((w.bindEvent (.fence g i) lease pool).setPhase g o (.constructing i))
  | makeFenceThrow {w : LeaseWorld} {g i : ℕ} {o : PooledOperation} {pool : EventPool}
      {creatable : Bool} (hg : w.operations g = some o) (hp : o.phase = .constructing (i + 1))
      (hs : o.operation.sharesFence i = false) (h : w.eventPool.acquire creatable = (none, pool)) :
      Step w ({ w with eventPool := pool }.setPhase g o (.destroying o.operation.stageCount))
  | constructed {w : LeaseWorld} {g : ℕ} {o : PooledOperation} (hg : w.operations g = some o)
      (hp : o.phase = .constructing 0) : Step w (w.setPhase g o .connected)
  | start {w : LeaseWorld} {g : ℕ} {o : PooledOperation} (hg : w.operations g = some o)
      (hp : o.phase = .connected) :
      Step w (w.setOperation g { o with phase := .started, hasStarted := true })
  | run {w : LeaseWorld} {g : ℕ} {o : PooledOperation} {progress : SubmitOperation.Progress}
      (hg : w.operations g = some o) (hp : o.phase = .started)
      (h : o.operation.Step o.progress progress) :
      Step w (w.setOperation g { o with progress := progress })
  | pollReady {w : LeaseWorld} {g : ℕ} {o : PooledOperation} (hg : w.operations g = some o)
      (hp : o.phase = .started) (hs : o.progress.stage = o.operation.stageCount)
      (h : o.operation.pollResult o.progress = true) :
      Step w (w.setOperation g
        { o with phase := .resetting 0, progress := o.operation.afterPoll o.progress })
  | resetFence {w : LeaseWorld} {g i : ℕ} {o : PooledOperation} (hg : w.operations g = some o)
      (hp : o.phase = .resetting i) (hi : i < o.operation.stageCount) :
      Step w ((w.destroyEvent (.fence g i)).setPhase g o (.resetting (i + 1)))
  | resetFences {w : LeaseWorld} {g : ℕ} {o : PooledOperation} (hg : w.operations g = some o)
      (hp : o.phase = .resetting o.operation.stageCount) : Step w (w.setPhase g o .unbinding)
  | unbind {w : LeaseWorld} {g : ℕ} {o : PooledOperation} (hg : w.operations g = some o)
      (hp : o.phase = .unbinding) :
      Step w ((w.destroyQueues (.binding g)).setPhase g o .delivering)
  | deliver {w : LeaseWorld} {g : ℕ} {o : PooledOperation} (hg : w.operations g = some o)
      (hp : o.phase = .delivering) : Step w (w.setPhase g o .delivered)
  | destroy {w : LeaseWorld} {g : ℕ} {o : PooledOperation} (hg : w.operations g = some o)
      (hp : o.phase = .connected ∨ o.phase = .delivered) :
      Step w (w.setPhase g o (.destroying o.operation.stageCount))
  | destroyFence {w : LeaseWorld} {g i : ℕ} {o : PooledOperation} (hg : w.operations g = some o)
      (hp : o.phase = .destroying (i + 1)) :
      Step w ((w.destroyEvent (.fence g i)).setPhase g o (.destroying i))
  | destroyed {w : LeaseWorld} {g : ℕ} {o : PooledOperation} (hg : w.operations g = some o)
      (hp : o.phase = .destroying 0) :
      Step w { w.destroyQueues (.binding g) with
        operations := Function.update w.operations g none }

/-- Pools as their constructors leave them, with `queueCount` queues made in advance. -/
def initial (queueCount : ℕ) : LeaseWorld :=
  ⟨⟨List.replicate queueCount false⟩, ⟨0, fun _ => none, none⟩, fun _ => none, fun _ => none,
    fun _ => none, fun _ => 0, fun _ => 0, fun _ => 0, fun _ => 0⟩

/-- All runs of the pools and their users. -/
def system : StepSystem LeaseWorld where
  init := fun w => ∃ queueCount, w = initial queueCount
  step := Step

end LeaseWorld

end Caravan
end Spearhed
