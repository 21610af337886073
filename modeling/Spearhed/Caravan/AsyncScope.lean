import Mathlib.Data.List.Basic
import Spearhed.Library.StepSystem

/-!
# Structured scopes

An `AsyncScope` owns the operations that are spawned into it.  `reserve()` counts an operation, the
receiver of the operation publishes its result, destroys the operation it is a part of and counts it
down again, and `join()` closes the scope.  Whoever brings the count of a closed scope to zero, or finds
it there, completes the joined event; the critical section and the completion of the event are two
steps, between which anything can happen.

A `ControlContext` adds a loop.  The completion of an operation that is spawned through it waits in the
loop until some thread runs it, and `wait` runs tasks of the loop until its event is ready.

The steps of one operation are taken in order, and nothing else is said about the threads that take
them: an operation may complete inside of `spawn`, inside of another operation's publication, or on a
thread of its own.

* `Scope.Inv`: the invariant.
* `scope_accounting`: what holds in every reachable state.
-/

namespace Spearhed
namespace Caravan
namespace AsyncScope

open Library

variable {V : Type}

/-- `AsyncScopeStatus`. -/
inductive AsyncScopeStatus
  | «open»
  | joining
  | joined
  deriving DecidableEq

/-- The order in which the status moves. -/
def AsyncScopeStatus.rank : AsyncScopeStatus → ℕ
  | «open» => 0
  | joining => 1
  | joined => 2

/-- The output of a spawned operation: the `EventSource` of `spawn` or the `Promise` of `spawnFuture`. -/
inductive Output (V : Type)
  | event (ready : Bool)
  | future (value : Option V)

namespace Output

/-- `setReady` or `setValue`. -/
def publish : Output V → V → Output V
  | event _, _ => event true
  | future none, v => future (some v)
  | future (some v), _ => future (some v)

/-- The state of the event or of the future. -/
def isReady : Output V → Bool
  | event ready => ready
  | future value => value.isSome

theorem isReady_publish (output : Output V) (v : V) : (output.publish v).isReady = true := by
  cases output with
  | event ready => rfl
  | future value => cases value <;> rfl

end Output

/-- How far a spawned operation has come. -/
inductive Phase (V : Type)
  /-- `reserve()` has returned. -/
  | reserved
  /-- The operation is allocated. -/
  | constructed
  /-- `start()` was called. -/
  | started
  /-- Its completion waits in the control loop. -/
  | queued (v : V)
  /-- At the publication of the result, in `set_value`. -/
  | publishing (v : V)
  /-- At `owner.destroy(..)`, in `finishSpawn`. -/
  | destroying
  /-- At `scope->complete()`. -/
  | completing
  /-- The receiver has finished. -/
  | finished

/-- A spawned operation. -/
structure Operation (V : Type) where
  phase : Phase V
  output : Output V
  /-- The operation state exists. -/
  alive : Bool
  /-- It was spawned through a `ControlContext`. -/
  routed : Bool

/-- A task of the control loop. -/
inductive Task
  /-- The completion of an operation. -/
  | completion (k : ℕ)
  /-- What `wait` attaches to its event. -/
  | wake
  /-- Other control work. -/
  | work

/-- A call of `ControlContext::wait` on the joined event. -/
inductive WaitPc
  /-- At the test of the loop. -/
  | testing
  /-- In `m_loop.runOne()`. -/
  | running
  | returned
  /-- A control continuation cannot wait on pending work. -/
  | threw
  deriving DecidableEq

/-- The state of a scope and of the control loop. -/
structure Scope (V : Type) where
  /-- `m_operations`, as an integer. -/
  operations : ℤ
  /-- `m_status`. -/
  status : AsyncScopeStatus
  /-- `m_joined` is ready. -/
  joined : Bool
  /-- The spawned operations. -/
  ops : List (Operation V)
  /-- Calls of `complete()` and `join()` that are about to set the event. -/
  firing : ℕ
  /-- How often the event changed from pending to ready. -/
  fires : ℕ
  /-- How many calls of `join()` have passed the critical section. -/
  joins : ℕ
  /-- `m_tasks` of the loop. -/
  tasks : List Task
  /-- The calls of `wait`. -/
  waits : List WaitPc
  /-- How many of them have a wake-up attached to the pending event. -/
  wakes : ℕ

namespace Scope

/-- The constructed scope. -/
def initial : Scope V where
  operations := 0
  status := AsyncScopeStatus.open
  joined := false
  ops := []
  firing := 0
  fires := 0
  joins := 0
  tasks := []
  waits := []
  wakes := 0

/-- `reserve()`, for an operation with this output. -/
def reserve (s : Scope V) (output : Output V) (routed : Bool) : Except String (Scope V) :=
  if s.status ≠ AsyncScopeStatus.open then Except.error "Cannot spawn into a joined Caravan async scope"
  else Except.ok { s with
    operations := s.operations + 1
    ops := s.ops ++ [⟨Phase.reserved, output, false, routed⟩] }

/-- An operation is in a new state. -/
def setOp (s : Scope V) (k : ℕ) (op : Operation V) : Scope V := { s with ops := s.ops.set k op }

/-- The critical section of `complete()`. -/
def complete (s : Scope V) : Scope V :=
  let operations := s.operations - 1
  let joined := decide (s.status = AsyncScopeStatus.joining ∧ operations = 0)
  { s with
    operations := operations
    status := if joined then AsyncScopeStatus.joined else s.status
    firing := s.firing + if joined then 1 else 0 }

/-- The critical section of `join()`. -/
def join (s : Scope V) : Scope V :=
  let joined := decide (s.operations = 0)
  let status := if s.status = AsyncScopeStatus.open then AsyncScopeStatus.joining else s.status
  { s with
    status := if joined then AsyncScopeStatus.joined else status
    firing := s.firing + if joined then 1 else 0 }

theorem complete_last {s : Scope V} (h : s.status = AsyncScopeStatus.joining ∧ s.operations - 1 = 0) :
    s.complete = { s with
      operations := s.operations - 1, status := AsyncScopeStatus.joined, firing := s.firing + 1 } := by
  simp only [complete, h, and_self, decide_true, if_true]

theorem complete_of_not {s : Scope V} (h : ¬ (s.status = AsyncScopeStatus.joining ∧ s.operations - 1 = 0)) :
    s.complete = { s with operations := s.operations - 1 } := by
  simp only [complete, h, decide_false, Bool.false_eq_true, if_false, Nat.add_zero]

theorem join_zero {s : Scope V} (h : s.operations = 0) :
    s.join = { s with status := AsyncScopeStatus.joined, firing := s.firing + 1 } := by
  simp only [join, h, decide_true, if_true]

theorem join_pos {s : Scope V} (h : s.operations ≠ 0) :
    s.join = { s with
      status := if s.status = AsyncScopeStatus.open then AsyncScopeStatus.joining else s.status } := by
  simp only [join, h, decide_false, Bool.false_eq_true, if_false, Nat.add_zero]

/-- `m_joined.setReady()`, which posts the wake-ups that are attached to the event. -/
def setReady (s : Scope V) : Scope V :=
  if s.joined then s
  else { s with joined := true, fires := s.fires + 1, tasks := s.tasks ++ List.replicate s.wakes Task.wake, wakes := 0 }

/-- The entry of `wait`, on a thread that runs tasks or not. -/
def wait (s : Scope V) (isExecutorThread : Bool) : Scope V :=
  if isExecutorThread && !s.joined then { s with waits := s.waits ++ [WaitPc.threw] }
  else if s.joined then { s with waits := s.waits ++ [WaitPc.testing], tasks := s.tasks ++ [Task.wake] }
  else { s with waits := s.waits ++ [WaitPc.testing], wakes := s.wakes + 1 }

/-- A task of the loop is run: the completion of an operation enters its receiver. -/
def runTask (s : Scope V) : Task → Scope V
  | Task.completion k =>
    match s.ops[k]? with
    | some ⟨Phase.queued v, output, alive, routed⟩ => s.setOp k ⟨Phase.publishing v, output, alive, routed⟩
    | _ => s
  | Task.wake => s
  | Task.work => s

end Scope

open Scope

/-- One step of any thread. -/
inductive Step : Scope V → Scope V → Prop
  -- `spawn` and `spawnFuture`
  | reserve {s t : Scope V} {output : Output V} {routed : Bool} (hnew : output.isReady = false)
      (h : s.reserve output routed = Except.ok t) : Step s t
  | reserveRejected {s : Scope V} {output : Output V} {routed : Bool} {e : String}
      (h : s.reserve output routed = Except.error e) : Step s s
  | construct {s : Scope V} {k : ℕ} {output : Output V} {alive routed : Bool}
      (h : s.ops[k]? = some ⟨Phase.reserved, output, alive, routed⟩) :
      Step s (s.setOp k ⟨Phase.constructed, output, true, routed⟩)
  | start {s : Scope V} {k : ℕ} {output : Output V} {alive routed : Bool}
      (h : s.ops[k]? = some ⟨Phase.constructed, output, alive, routed⟩) :
      Step s (s.setOp k ⟨Phase.started, output, alive, routed⟩)
  -- the operation completes, into the control loop or into the receiver
  | post {s : Scope V} {k : ℕ} {output : Output V} {alive : Bool} (v : V)
      (h : s.ops[k]? = some ⟨Phase.started, output, alive, true⟩) :
      Step s { s.setOp k ⟨Phase.queued v, output, alive, true⟩ with tasks := s.tasks ++ [Task.completion k] }
  | setValue {s : Scope V} {k : ℕ} {output : Output V} {alive : Bool} (v : V)
      (h : s.ops[k]? = some ⟨Phase.started, output, alive, false⟩) :
      Step s (s.setOp k ⟨Phase.publishing v, output, alive, false⟩)
  -- the receiver
  | publish {s : Scope V} {k : ℕ} {v : V} {output : Output V} {alive routed : Bool}
      (h : s.ops[k]? = some ⟨Phase.publishing v, output, alive, routed⟩) :
      Step s (s.setOp k ⟨Phase.destroying, output.publish v, alive, routed⟩)
  | destroy {s : Scope V} {k : ℕ} {output : Output V} {alive routed : Bool}
      (h : s.ops[k]? = some ⟨Phase.destroying, output, alive, routed⟩) :
      Step s (s.setOp k ⟨Phase.completing, output, false, routed⟩)
  | complete {s : Scope V} {k : ℕ} {output : Output V} {alive routed : Bool}
      (h : s.ops[k]? = some ⟨Phase.completing, output, alive, routed⟩) :
      Step s (s.complete.setOp k ⟨Phase.finished, output, alive, routed⟩)
  | join {s : Scope V} : Step s { s.join with joins := s.joins + 1 }
  | setReady {s : Scope V} {n : ℕ} (h : s.firing = n + 1) : Step s { s.setReady with firing := n }
  -- the control loop
  | postWork {s : Scope V} : Step s { s with tasks := s.tasks ++ [Task.work] }
  | runReady {s : Scope V} {task : Task} {rest : List Task} (h : s.tasks = task :: rest) :
      Step s (Scope.runTask { s with tasks := rest } task)
  | wait {s : Scope V} (isExecutorThread : Bool) : Step s (s.wait isExecutorThread)
  | testPending {s : Scope V} {i : ℕ} (h : s.waits[i]? = some WaitPc.testing) (hj : s.joined = false) :
      Step s { s with waits := s.waits.set i WaitPc.running }
  | testReady {s : Scope V} {i : ℕ} (h : s.waits[i]? = some WaitPc.testing) (hj : s.joined = true) :
      Step s { s with waits := s.waits.set i WaitPc.returned }
  | runOne {s : Scope V} {i : ℕ} {task : Task} {rest : List Task} (h : s.waits[i]? = some WaitPc.running)
      (ht : s.tasks = task :: rest) :
      Step s (Scope.runTask { s with tasks := rest, waits := s.waits.set i WaitPc.testing } task)

/-- All runs of a scope. -/
def system (V : Type) : StepSystem (Scope V) where
  init := fun s => s = Scope.initial
  step := Step

/-! ## The invariant -/

/-- The receiver of an operation has not finished. -/
def Operation.unfinished (op : Operation V) : Bool :=
  match op.phase with
  | Phase.finished => false
  | _ => true

/-- An operation is published before it is destroyed, and destroyed before it is counted down. -/
def Operation.Ok (op : Operation V) : Prop :=
  match op.phase with
  | Phase.reserved => op.output.isReady = false
  | Phase.constructed => op.output.isReady = false ∧ op.alive = true
  | Phase.started => op.output.isReady = false ∧ op.alive = true
  | Phase.queued _ => op.output.isReady = false ∧ op.alive = true
  | Phase.publishing _ => op.output.isReady = false ∧ op.alive = true
  | Phase.destroying => op.output.isReady = true ∧ op.alive = true
  | Phase.completing => op.output.isReady = true ∧ op.alive = false
  | Phase.finished => op.output.isReady = true ∧ op.alive = false

/-- The invariant of a scope. -/
structure Scope.Inv (s : Scope V) : Prop where
  ok : ∀ op ∈ s.ops, op.Ok
  count : s.operations = (s.ops.countP Operation.unfinished : ℕ)
  joins : s.joins ≠ 0 ↔ s.status ≠ AsyncScopeStatus.open
  joining : s.status = AsyncScopeStatus.joining → s.operations ≠ 0
  zero : s.status = AsyncScopeStatus.joined → s.operations = 0
  /-- The event of a joined scope is ready, or is about to be set. -/
  joined : s.status = AsyncScopeStatus.joined ↔ s.joined = true ∨ s.firing ≠ 0
  fires : s.fires = if s.joined then 1 else 0
  waits : WaitPc.returned ∈ s.waits → s.joined = true

namespace Scope.Inv

variable {s t : Scope V}

theorem initial : Scope.Inv (Scope.initial : Scope V) where
  ok := nofun
  count := rfl
  joins := ⟨fun h => absurd rfl h, fun h => absurd rfl h⟩
  joining := nofun
  zero := nofun
  joined := by simp [Scope.initial]
  fires := rfl
  waits := nofun

/-- An operation moves on, with its receiver unfinished as before. -/
theorem setOp (h : Scope.Inv s) {k : ℕ} {op op' : Operation V} (hk : s.ops[k]? = some op)
    (hop : op.unfinished = true) (hop' : op'.unfinished = true) (hok : op'.Ok) : Scope.Inv (s.setOp k op') := by
  obtain ⟨hlt, hget⟩ := List.getElem?_eq_some_iff.mp hk
  obtain ⟨h1, h2, h3, h4, h5, h6, h7, h8⟩ := h
  refine ⟨fun o ho => ?_, ?_, h3, h4, h5, h6, h7, h8⟩
  · rcases List.mem_or_eq_of_mem_set ho with ho | rfl
    · exact h1 o ho
    · exact hok
  · rw [Scope.setOp]
    dsimp only
    rw [h2, List.countP_set hlt, hget, hop, hop']
    have hpos : 0 < s.ops.countP Operation.unfinished := List.countP_pos_iff.mpr ⟨op, List.mem_of_getElem? hk, hop⟩
    simp only [if_true]
    omega

/-- Control work does not touch the scope. -/
theorem control (h : Scope.Inv s) (tasks : List Task) (waits : List WaitPc) (wakes : ℕ)
    (hwaits : WaitPc.returned ∈ waits → s.joined = true) :
    Scope.Inv { s with tasks := tasks, waits := waits, wakes := wakes } :=
  ⟨h.ok, h.count, h.joins, h.joining, h.zero, h.joined, h.fires, hwaits⟩

theorem runTask (h : Scope.Inv s) (task : Task) : Scope.Inv (s.runTask task) := by
  cases task with
  | completion k =>
    rcases hk : s.ops[k]? with _ | ⟨phase, output, alive, routed⟩
    · rw [Scope.runTask, hk]
      exact h
    · rw [Scope.runTask, hk]
      cases phase with
      | queued v =>
        have hok := h.ok _ (List.mem_of_getElem? hk)
        exact h.setOp hk rfl rfl hok
      | _ => exact h
  | wake => exact h
  | work => exact h

theorem reserve (h : Scope.Inv s) {output : Output V} {routed : Bool} (hnew : output.isReady = false)
    (ht : s.reserve output routed = Except.ok t) : Scope.Inv t := by
  unfold Scope.reserve at ht
  split at ht
  · cases ht
  · next hopen =>
    obtain rfl := Except.ok.inj ht
    have hstatus : s.status = AsyncScopeStatus.open := not_not.mp hopen
    obtain ⟨h1, h2, h3, h4, h5, h6, h7, h8⟩ := h
    refine ⟨fun o ho => ?_, ?_, h3, fun hj => ?_, fun hj => ?_, h6, h7, h8⟩
    · rcases List.mem_append.mp ho with ho | ho
      · exact h1 o ho
      · rw [List.mem_singleton.mp ho]
        exact hnew
    · rw [List.countP_append, h2]
      rfl
    · rw [hstatus] at hj
      cases hj
    · rw [hstatus] at hj
      cases hj

/-- The critical section of `complete()`, by an operation that is published and destroyed. -/
theorem complete (h : Scope.Inv s) {k : ℕ} {output : Output V} {alive routed : Bool}
    (hk : s.ops[k]? = some ⟨Phase.completing, output, alive, routed⟩) :
    Scope.Inv (s.complete.setOp k ⟨Phase.finished, output, alive, routed⟩) := by
  obtain ⟨hlt, hget⟩ := List.getElem?_eq_some_iff.mp hk
  obtain ⟨h1, h2, h3, h4, h5, h6, h7, h8⟩ := h
  have hpos : 0 < s.ops.countP Operation.unfinished := List.countP_pos_iff.mpr ⟨_, List.mem_of_getElem? hk, rfl⟩
  have hnotJoined : s.status ≠ AsyncScopeStatus.joined := fun hj => by
    have := h5 hj
    omega
  have hquiet : ¬ (s.joined = true ∨ s.firing ≠ 0) := fun hor => hnotJoined (h6.mpr hor)
  have hok : ∀ op ∈ s.ops.set k ⟨Phase.finished, output, alive, routed⟩, op.Ok := by
    intro o ho
    rcases List.mem_or_eq_of_mem_set ho with ho | rfl
    · exact h1 o ho
    · exact (h1 _ (List.mem_of_getElem? hk) : output.isReady = true ∧ alive = false)
  have hcount : s.operations - 1 =
      ((s.ops.set k ⟨Phase.finished, output, alive, routed⟩).countP Operation.unfinished : ℕ) := by
    rw [List.countP_set hlt, hget, h2]
    simp only [Operation.unfinished, if_true, Bool.false_eq_true, if_false]
    omega
  by_cases hlast : s.status = AsyncScopeStatus.joining ∧ s.operations - 1 = 0
  · rw [Scope.complete_last hlast]
    exact ⟨hok, hcount, iff_of_true (h3.mpr (by rw [hlast.1]; exact nofun)) nofun, nofun, fun _ => hlast.2,
      iff_of_true rfl (Or.inr (Nat.succ_ne_zero _)), h7, h8⟩
  · rw [Scope.complete_of_not hlast]
    exact ⟨hok, hcount, h3, fun hj hzero => hlast ⟨hj, hzero⟩, fun hj => absurd hj hnotJoined, h6, h7, h8⟩

theorem join (h : Scope.Inv s) : Scope.Inv { s.join with joins := s.joins + 1 } := by
  obtain ⟨h1, h2, h3, h4, h5, h6, h7, h8⟩ := h
  by_cases hzero : s.operations = 0
  · rw [Scope.join_zero hzero]
    exact ⟨h1, h2, iff_of_true (Nat.succ_ne_zero _) nofun, nofun, fun _ => hzero, iff_of_true rfl (Or.inr (Nat.succ_ne_zero _)),
      h7, h8⟩
  · rw [Scope.join_pos hzero]
    have hnotJoined : s.status ≠ AsyncScopeStatus.joined := fun hj => hzero (h5 hj)
    refine ⟨h1, h2, iff_of_true (Nat.succ_ne_zero _) ?_, fun _ => hzero, fun hj => absurd hj ?_, ?_, h7, h8⟩
    · dsimp only
      split
      · exact nofun
      · next hopen => exact hopen
    · dsimp only
      split
      · exact nofun
      · exact hnotJoined
    · refine iff_of_false ?_ fun hor => hnotJoined (h6.mpr hor)
      dsimp only
      split
      · exact nofun
      · exact hnotJoined

theorem setReady (h : Scope.Inv s) {n : ℕ} (hn : s.firing = n + 1) : Scope.Inv { s.setReady with firing := n } := by
  obtain ⟨h1, h2, h3, h4, h5, h6, h7, h8⟩ := h
  have hjoined : s.status = AsyncScopeStatus.joined := h6.mpr (Or.inr (by omega))
  unfold Scope.setReady
  split
  · next hready => exact ⟨h1, h2, h3, h4, h5, iff_of_true hjoined (Or.inl hready), h7, h8⟩
  · next hpending =>
    refine ⟨h1, h2, h3, h4, h5, iff_of_true hjoined (Or.inl rfl), ?_, fun _ => rfl⟩
    dsimp only
    rw [h7, if_neg hpending]
    rfl

theorem wait (h : Scope.Inv s) (isExecutorThread : Bool) : Scope.Inv (s.wait isExecutorThread) := by
  have hwaits : ∀ pc, pc ≠ WaitPc.returned → WaitPc.returned ∈ s.waits ++ [pc] → s.joined = true := by
    intro pc hpc hmem
    rcases List.mem_append.mp hmem with hmem | hmem
    · exact h.waits hmem
    · exact absurd (List.mem_singleton.mp hmem).symm hpc
  unfold Scope.wait
  split
  · exact h.control _ _ _ (hwaits _ nofun)
  · split
    · exact h.control _ _ _ (hwaits _ nofun)
    · exact h.control _ _ _ (hwaits _ nofun)

/-- A call of `wait` moves on. -/
theorem setWait (h : Scope.Inv s) (tasks : List Task) (i : ℕ) {pc : WaitPc} (hpc : pc = WaitPc.returned → s.joined = true) :
    Scope.Inv { s with tasks := tasks, waits := s.waits.set i pc } := by
  refine h.control _ _ _ fun hmem => ?_
  rcases List.mem_or_eq_of_mem_set hmem with hmem | heq
  · exact h.waits hmem
  · exact hpc heq.symm

theorem step (h : Scope.Inv s) (hst : Step s t) : Scope.Inv t := by
  cases hst with
  | reserve hnew ht => exact h.reserve hnew ht
  | reserveRejected => exact h
  | construct hk => exact h.setOp hk rfl rfl ⟨h.ok _ (List.mem_of_getElem? hk), rfl⟩
  | start hk =>
    have hok := h.ok _ (List.mem_of_getElem? hk)
    exact h.setOp hk rfl rfl hok
  | @post k output alive v hk =>
    have hok := h.ok _ (List.mem_of_getElem? hk)
    have hqueued : Scope.Inv (s.setOp k ⟨Phase.queued v, output, alive, true⟩) := h.setOp hk rfl rfl hok
    exact hqueued.control _ _ _ hqueued.waits
  | setValue v hk =>
    have hok := h.ok _ (List.mem_of_getElem? hk)
    exact h.setOp hk rfl rfl hok
  | publish hk => exact h.setOp hk rfl rfl ⟨Output.isReady_publish _ _, (h.ok _ (List.mem_of_getElem? hk)).2⟩
  | destroy hk => exact h.setOp hk rfl rfl ⟨(h.ok _ (List.mem_of_getElem? hk)).1, rfl⟩
  | complete hk => exact h.complete hk
  | join => exact h.join
  | setReady hn => exact h.setReady hn
  | postWork => exact h.control _ _ _ h.waits
  | runReady ht => exact (h.control _ _ _ h.waits).runTask _
  | wait isExecutorThread => exact h.wait isExecutorThread
  | testPending hi hj => exact h.setWait s.tasks _ nofun
  | testReady hi hj => exact h.setWait _ _ fun _ => hj
  | @runOne i task rest hi ht =>
    have hwait : Scope.Inv { s with tasks := rest, waits := s.waits.set i WaitPc.testing } := h.setWait rest i nofun
    exact hwait.runTask _

theorem of_reachable (h : (system V).Reachable s) : Scope.Inv s :=
  h.invariant (fun _ hs => hs ▸ initial) fun _ _ _ hinv hst => hinv.step hst

theorem finished_of_zero (h : Scope.Inv s) (hzero : s.operations = 0) : ∀ op ∈ s.ops, op.unfinished = false := by
  have hcount : s.ops.countP Operation.unfinished = 0 := by
    have := h.count
    omega
  exact fun op hop => Bool.eq_false_iff.mpr (List.countP_eq_zero.mp hcount op hop)

/-- The event is set, or about to be, exactly when the scope is closed and all operations are finished. -/
theorem fired_iff (h : Scope.Inv s) :
    s.joined = true ∨ s.firing ≠ 0 ↔ s.joins ≠ 0 ∧ ∀ op ∈ s.ops, op.unfinished = false := by
  constructor
  · intro hfired
    have hjoined := h.joined.mpr hfired
    exact ⟨h.joins.mpr (by rw [hjoined]; exact nofun), h.finished_of_zero (h.zero hjoined)⟩
  · rintro ⟨hjoins, hall⟩
    refine h.joined.mp ?_
    have hzero : s.operations = 0 := by
      rw [h.count, List.countP_eq_zero.mpr fun op hop => Bool.eq_false_iff.mp (hall op hop)]
      rfl
    cases hstatus : s.status with
    | «open» => exact absurd hstatus (h.joins.mp hjoins)
    | joining => exact absurd hzero (h.joining hstatus)
    | joined => rfl

/-- A closed scope accepts nothing. -/
theorem reserve_eq_error (h : Scope.Inv s) (hjoins : s.joins ≠ 0) (output : Output V) (routed : Bool) :
    s.reserve output routed = Except.error "Cannot spawn into a joined Caravan async scope" := by
  unfold Scope.reserve
  rw [if_pos (h.joins.mp hjoins)]

end Scope.Inv

/-! ## Every run -/

section Runs

variable {s t : Scope V}

theorem Operation.Ok.finished {op : Operation V} (h : op.Ok) (hf : op.unfinished = false) :
    op.output.isReady = true ∧ op.alive = false := by
  obtain ⟨phase, output, alive, routed⟩ := op
  cases phase with
  | finished => exact h
  | _ => cases hf

theorem status_runTask (s : Scope V) (task : Task) : (s.runTask task).status = s.status := by
  unfold Scope.runTask
  split
  · split <;> rfl
  · rfl
  · rfl

/-- The status only moves forward. -/
theorem Step.rank_le (hst : Step s t) : s.status.rank ≤ t.status.rank := by
  cases hst with
  | reserve hnew ht =>
    unfold Scope.reserve at ht
    split at ht
    · cases ht
    · obtain rfl := Except.ok.inj ht
      exact le_rfl
  | @complete k output alive routed hk =>
    by_cases hlast : s.status = AsyncScopeStatus.joining ∧ s.operations - 1 = 0
    · rw [complete_last hlast, hlast.1]
      exact Nat.le_succ 1
    · rw [complete_of_not hlast]
      exact le_rfl
  | join =>
    by_cases hzero : s.operations = 0
    · rw [join_zero hzero]
      dsimp only
      cases s.status <;> decide
    · rw [join_pos hzero]
      dsimp only
      cases s.status <;> decide
  | setReady hn =>
    unfold Scope.setReady
    split <;> exact le_rfl
  | @runReady task rest ht => rw [status_runTask]
  | wait isExecutorThread =>
    unfold Scope.wait
    split
    · exact le_rfl
    · split <;> exact le_rfl
  | @runOne i task rest hi ht => rw [status_runTask]
  | _ => exact le_rfl

/-- What was joined stays as it is. -/
theorem Scope.Inv.stable (h : Scope.Inv s) (hjoined : s.joined = true) (hst : Step s t) :
    t.joined = true ∧ t.ops = s.ops := by
  have hall := (h.fired_iff.mp (Or.inl hjoined)).2
  have hno : ∀ {k : ℕ} {op : Operation V}, s.ops[k]? = some op → op.unfinished = true → False := by
    intro k op hk hop
    rw [hall op (List.mem_of_getElem? hk)] at hop
    cases hop
  have hrun : ∀ {u : Scope V} (task : Task), u.joined = true → u.ops = s.ops →
      (u.runTask task).joined = true ∧ (u.runTask task).ops = s.ops := by
    intro u task hu hops
    cases task with
    | completion k =>
      rcases hk : u.ops[k]? with _ | ⟨phase, output, alive, routed⟩
      · rw [Scope.runTask, hk]
        exact ⟨hu, hops⟩
      · rw [Scope.runTask, hk]
        rw [hops] at hk
        cases phase with
        | queued v => exact (hno hk rfl).elim
        | _ => exact ⟨hu, hops⟩
    | wake => exact ⟨hu, hops⟩
    | work => exact ⟨hu, hops⟩
  cases hst with
  | reserve hnew ht =>
    rw [h.reserve_eq_error (h.fired_iff.mp (Or.inl hjoined)).1] at ht
    cases ht
  | reserveRejected => exact ⟨hjoined, rfl⟩
  | construct hk | start hk | post v hk | setValue v hk | publish hk | destroy hk | complete hk => exact (hno hk rfl).elim
  | join =>
    rw [join_zero (h.zero (h.joined.mpr (Or.inl hjoined)))]
    exact ⟨hjoined, rfl⟩
  | setReady hn =>
    unfold Scope.setReady
    rw [if_pos hjoined]
    exact ⟨hjoined, rfl⟩
  | postWork => exact ⟨hjoined, rfl⟩
  | runReady ht => exact hrun _ hjoined rfl
  | wait isExecutorThread =>
    unfold Scope.wait
    split <;> exact ⟨hjoined, rfl⟩
  | testPending hi hj => exact ⟨hjoined, rfl⟩
  | testReady hi hj => exact ⟨hjoined, rfl⟩
  | runOne hi ht => exact hrun _ hjoined rfl

/-- The accounting of a scope. -/
structure Accounting (s : Scope V) : Prop where
  /-- `m_operations` is the number of reserved operations whose receiver has not finished. -/
  count : s.operations = (s.ops.countP Operation.unfinished : ℕ)
  /-- So counting one of them down does not underflow. -/
  positive : ∀ op ∈ s.ops, op.unfinished = true → 1 ≤ s.operations
  /-- Once `join` was called, `spawn` throws. -/
  rejects : s.joins ≠ 0 → ∀ (output : Output V) (routed : Bool),
    s.reserve output routed = Except.error "Cannot spawn into a joined Caravan async scope"
  /-- The joined event fires at most once. -/
  once : s.fires = if s.joined then 1 else 0
  /-- It has fired, or a call is about to set it, exactly when the scope is closed and no operation is
  left. -/
  fired : s.joined = true ∨ s.firing ≠ 0 ↔ s.joins ≠ 0 ∧ ∀ op ∈ s.ops, op.unfinished = false
  /-- Then all operations are published and destroyed. -/
  quiescent : s.joined = true ∨ s.firing ≠ 0 → s.operations = 0 ∧
    ∀ op ∈ s.ops, op.output.isReady = true ∧ op.alive = false
  /-- And this is where `wait` returns. -/
  waited : WaitPc.returned ∈ s.waits → s.joined = true
  /-- The status moves forward, and a joined scope stays as it is. -/
  forward : ∀ t, Step s t → s.status.rank ≤ t.status.rank ∧ (s.joined = true → t.joined = true ∧ t.ops = s.ops)

/-- **Structured scope accounting**, for every interleaving of `spawn` and `spawnFuture`, completions,
calls of `join` and `wait`, and control work. -/
theorem scope_accounting (s : Scope V) (h : (system V).Reachable s) : Accounting s := by
  have hinv := Scope.Inv.of_reachable h
  refine ⟨hinv.count, fun op hop hun => ?_, fun hjoins => hinv.reserve_eq_error hjoins, hinv.fires, hinv.fired_iff,
    fun hfired => ?_, hinv.waits, fun t hst => ⟨hst.rank_le, fun hj => hinv.stable hj hst⟩⟩
  · have hpos : 0 < s.ops.countP Operation.unfinished := List.countP_pos_iff.mpr ⟨op, hop, hun⟩
    rw [hinv.count]
    omega
  · have hall := (hinv.fired_iff.mp hfired).2
    exact ⟨hinv.zero (hinv.joined.mpr hfired), fun op hop => (hinv.ok op hop).finished (hall op hop)⟩

/-- A run in which an operation is spawned, `join` is called, the operation completes and a call of
`wait` returns. -/
theorem exists_reachable_waited :
    ∃ s : Scope Unit, (system Unit).Reachable s ∧ WaitPc.returned ∈ s.waits ∧ s.ops.length = 1 := by
  have h0 : (system Unit).Reachable Scope.initial := StepSystem.Reachable.init rfl
  have h1 := (h0.step (@Step.reserve _ _ _ (Output.event false) true rfl rfl)).step (@Step.construct _ _ 0 _ _ _ rfl)
  have h2 := (h1.step (@Step.start _ _ 0 _ _ _ rfl)).step Step.join
  have h3 := (h2.step (Step.wait false)).step (@Step.post _ _ 0 _ _ () rfl)
  have h4 := (h3.step (@Step.testPending _ _ 0 rfl rfl)).step (@Step.runOne _ _ 0 _ _ rfl rfl)
  have h5 := (h4.step (@Step.publish _ _ 0 _ _ _ _ rfl)).step (@Step.destroy _ _ 0 _ _ _ rfl)
  have h6 := (h5.step (@Step.complete _ _ 0 _ _ _ rfl)).step (@Step.setReady _ _ 0 rfl)
  exact ⟨_, h6.step (@Step.testReady _ _ 0 rfl rfl), by decide, rfl⟩

/-- Then the scope has come to rest. -/
theorem scope_accounting_waited : ∃ s : Scope Unit, (system Unit).Reachable s ∧ s.ops.length = 1 ∧
    s.operations = 0 ∧ s.fires = 1 := by
  obtain ⟨s, hs, hw, hlen⟩ := exists_reachable_waited
  have hacc := scope_accounting s hs
  have hjoined := hacc.waited hw
  exact ⟨s, hs, hlen, (hacc.quiescent (Or.inl hjoined)).1, by rw [hacc.once, if_pos hjoined]⟩

end Runs

end AsyncScope
end Caravan
end Spearhed
