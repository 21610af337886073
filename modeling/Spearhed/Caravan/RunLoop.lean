import Mathlib.Data.List.Infix
import Mathlib.Logic.Function.Basic
import Spearhed.Library.StepSystem

/-!
# The run loop

Any thread posts tasks to a `RunLoop` or finishes it; one thread drives it, and the tasks, which the
driver executes, may post as well.  A step is a critical section of the mutex, a notification of
`m_ready`, or a step of the driver between two of them.  Tasks complete receivers and do not throw.

A thread leaves the mutex before it notifies, so the two are separate steps.  The driver sleeps in
`m_ready` until a notification or for no reason at all, then it checks the predicate again.  Before it
waits it may linger, without the mutex, for as long as it likes.

* `RunLoop.Inv`: executed tasks and queued ones are the accepted ones, what is left of a batch is at the
  front of the queue, and where the driver sleeps although it could go on some thread is about to notify.
* `accepted_tasks_run_once`: what holds in every reachable state.
-/

namespace Spearhed
namespace Caravan

open Library

variable {ι τ : Type}

namespace RunLoop

/-- Who calls `runOne`. -/
inductive Caller
  | run
  | runOne
  deriving DecidableEq

/-- Where the driver is. -/
inductive DriverPc (τ : Type)
  | idle
  /-- In `runOne`, before its critical section. -/
  | entering (caller : Caller)
  /-- In the active wait. -/
  | lingering (caller : Caller)
  /-- Before the mutex is locked again. -/
  | relocking (caller : Caller)
  /-- Asleep in `m_ready.wait`. -/
  | waiting (caller : Caller)
  /-- In `task()` of `runOne`. -/
  | running (caller : Caller) (task : τ)
  /-- `runOne` returns. -/
  | returning (caller : Caller) (result : Bool)
  /-- In `runReady`, before its snapshot. -/
  | enteringReady
  /-- At the loop head of `runReady`. -/
  | ready (ready : ℕ)
  /-- In `task()` of `runReady`. -/
  | runningReady (ready : ℕ) (task : τ)
  /-- `runReady` returns. -/
  | returningReady

/-- The task that is running. -/
def DriverPc.task : DriverPc τ → List τ
  | running _ task => [task]
  | runningReady _ task => [task]
  | _ => []

/-- How many tasks of its batch `runReady` has still to take. -/
def DriverPc.remaining : DriverPc τ → Option ℕ
  | ready remaining => some remaining
  | runningReady remaining _ => some remaining
  | returningReady => some 0
  | _ => none

/-- Whether the driver is in code that may call the loop. -/
def DriverPc.mayCall : DriverPc τ → Bool
  | idle => true
  | running _ _ => true
  | runningReady _ _ => true
  | _ => false

/-- What a notification of `m_ready` does. -/
def DriverPc.wake : DriverPc τ → DriverPc τ
  | waiting caller => relocking caller
  | pc => pc

/-- Where a thread is that posts or finishes. -/
inductive CallerPc
  | outside
  /-- Before `m_ready.notify_one()`. -/
  | notifyOne
  /-- Before `m_ready.notify_all()`. -/
  | notifyAll
  deriving DecidableEq

end RunLoop

open RunLoop

/-- A `RunLoop`, its driver, and the threads that call it; the driver is the thread `none`. -/
structure RunLoop (ι τ : Type) where
  /-- `m_tasks`. -/
  tasks : List τ
  /-- `m_finished`. -/
  finished : Bool
  pc : DriverPc τ
  calling : Option ι → CallerPc
  /-- The tasks that were posted without an exception. -/
  accepted : List τ
  /-- The tasks that were called. -/
  executed : List τ
  /-- The tasks that have returned. -/
  completed : List τ
  /-- What was executed when `runReady` took its snapshot. -/
  before : List τ
  /-- What was queued then. -/
  batch : List τ

namespace RunLoop

/-- The constructed loop. -/
def initial : RunLoop ι τ where
  tasks := []
  finished := false
  pc := DriverPc.idle
  calling := fun _ => CallerPc.outside
  accepted := []
  executed := []
  completed := []
  before := []
  batch := []

/-- The predicate that `m_ready.wait` is given. -/
def isReady (s : RunLoop ι τ) : Bool := s.finished || !s.tasks.isEmpty

/-- The rest of the critical section of `runOne`, from the wait on. -/
def wait (s : RunLoop ι τ) (caller : Caller) : RunLoop ι τ :=
  if s.isReady then
    match s.tasks with
    | [] => { s with pc := DriverPc.returning caller false }
    | task :: tasks => { s with
        tasks := tasks, executed := s.executed ++ [task], pc := DriverPc.running caller task }
  else { s with pc := DriverPc.waiting caller }

/-- The critical section of `runOne`. -/
def enter (s : RunLoop ι τ) (lingerUs : ℕ) (caller : Caller) : RunLoop ι τ :=
  if s.tasks.isEmpty && !s.finished && lingerUs ≠ 0 then { s with pc := DriverPc.lingering caller }
  else s.wait caller

/-- A probe of the active wait. -/
def probe (s : RunLoop ι τ) (caller : Caller) : RunLoop ι τ :=
  if s.isReady then { s with pc := DriverPc.relocking caller } else s

/-- The snapshot of `runReady`. -/
def snapshot (s : RunLoop ι τ) : RunLoop ι τ :=
  { s with pc := DriverPc.ready s.tasks.length, before := s.executed, batch := s.tasks }

/-- `while(ready-- > 0u)` and the critical section of the loop body. -/
def nextReady (s : RunLoop ι τ) : ℕ → RunLoop ι τ
  | 0 => { s with pc := DriverPc.returningReady }
  | ready + 1 =>
    match s.tasks with
    | [] => { s with pc := DriverPc.returningReady }
    | task :: tasks => { s with
        tasks := tasks, executed := s.executed ++ [task], pc := DriverPc.runningReady ready task }

variable [DecidableEq ι]

open Function (update)

/-- The critical section of `finish`. -/
def finish (s : RunLoop ι τ) (thread : Option ι) : RunLoop ι τ :=
  { s with finished := true, calling := update s.calling thread CallerPc.notifyAll }

/-- The critical section of `post`. -/
def post (s : RunLoop ι τ) (thread : Option ι) (task : τ) : Except String (RunLoop ι τ) :=
  if s.finished then Except.error "Cannot post to a finished Caravan run loop"
  else Except.ok { s with
    tasks := s.tasks ++ [task]
    accepted := s.accepted ++ [task]
    calling := update s.calling thread CallerPc.notifyOne }

/-- `m_ready.notify_one()` or `m_ready.notify_all()`: nobody but the driver waits. -/
def notify (s : RunLoop ι τ) (thread : Option ι) : RunLoop ι τ :=
  { s with calling := update s.calling thread CallerPc.outside, pc := s.pc.wake }

/-- Whether a thread may call `post` or `finish`. -/
def MayCall (s : RunLoop ι τ) (thread : Option ι) : Prop :=
  s.calling thread = CallerPc.outside ∧ (thread = none → s.pc.mayCall = true)

/-- One step of any thread. -/
inductive Step (lingerUs : ℕ) : RunLoop ι τ → RunLoop ι τ → Prop
  | post {s t : RunLoop ι τ} {thread : Option ι} {task : τ} (hc : s.MayCall thread)
      (hpost : s.post thread task = Except.ok t) : Step lingerUs s t
  | throw {s : RunLoop ι τ} {thread : Option ι} {task : τ} {message : String} (hc : s.MayCall thread)
      (hpost : s.post thread task = Except.error message) : Step lingerUs s s
  | finish {s : RunLoop ι τ} {thread : Option ι} (hc : s.MayCall thread) :
      Step lingerUs s (s.finish thread)
  | notify {s : RunLoop ι τ} {thread : Option ι} (hn : s.calling thread ≠ CallerPc.outside) :
      Step lingerUs s (s.notify thread)
  /-- `run()` or `runOne()`. -/
  | runOne {s : RunLoop ι τ} {caller : Caller} (hp : s.pc = DriverPc.idle)
      (hd : s.calling none = CallerPc.outside) :
      Step lingerUs s { s with pc := DriverPc.entering caller }
  | enter {s : RunLoop ι τ} {caller : Caller} (hp : s.pc = DriverPc.entering caller) :
      Step lingerUs s (s.enter lingerUs caller)
  | probe {s : RunLoop ι τ} {caller : Caller} (hp : s.pc = DriverPc.lingering caller) :
      Step lingerUs s (s.probe caller)
  | deadline {s : RunLoop ι τ} {caller : Caller} (hp : s.pc = DriverPc.lingering caller) :
      Step lingerUs s { s with pc := DriverPc.relocking caller }
  | spurious {s : RunLoop ι τ} {caller : Caller} (hp : s.pc = DriverPc.waiting caller) :
      Step lingerUs s { s with pc := DriverPc.relocking caller }
  | relock {s : RunLoop ι τ} {caller : Caller} (hp : s.pc = DriverPc.relocking caller) :
      Step lingerUs s (s.wait caller)
  | taskEnd {s : RunLoop ι τ} {caller : Caller} {task : τ} (hp : s.pc = DriverPc.running caller task)
      (hd : s.calling none = CallerPc.outside) :
      Step lingerUs s { s with
        completed := s.completed ++ [task], pc := DriverPc.returning caller true }
  /-- `while(runOne())`. -/
  | again {s : RunLoop ι τ} (hp : s.pc = DriverPc.returning Caller.run true) :
      Step lingerUs s { s with pc := DriverPc.entering Caller.run }
  | leave {s : RunLoop ι τ} {caller : Caller} {result : Bool}
      (hp : s.pc = DriverPc.returning caller result) (hr : caller = Caller.run → result = false) :
      Step lingerUs s { s with pc := DriverPc.idle }
  | runReady {s : RunLoop ι τ} (hp : s.pc = DriverPc.idle) (hd : s.calling none = CallerPc.outside) :
      Step lingerUs s { s with pc := DriverPc.enteringReady }
  | snapshot {s : RunLoop ι τ} (hp : s.pc = DriverPc.enteringReady) : Step lingerUs s s.snapshot
  | nextReady {s : RunLoop ι τ} {ready : ℕ} (hp : s.pc = DriverPc.ready ready) :
      Step lingerUs s (s.nextReady ready)
  | taskEndReady {s : RunLoop ι τ} {ready : ℕ} {task : τ} (hp : s.pc = DriverPc.runningReady ready task)
      (hd : s.calling none = CallerPc.outside) :
      Step lingerUs s { s with completed := s.completed ++ [task], pc := DriverPc.ready ready }
  | leaveReady {s : RunLoop ι τ} (hp : s.pc = DriverPc.returningReady) :
      Step lingerUs s { s with pc := DriverPc.idle }

/-- All runs, where the active wait takes so many microseconds. -/
def system (lingerUs : ℕ) : StepSystem (RunLoop ι τ) where
  init := fun s => s = initial
  step := Step lingerUs

/-! ## The invariant -/

/-- Where the tasks are, and what a sleeping driver may rely on. -/
structure Inv (s : RunLoop ι τ) : Prop where
  accepted : s.executed ++ s.tasks = s.accepted
  completed : s.completed ++ s.pc.task = s.executed
  /-- What is left of the batch is at the front of the queue. -/
  batch : ∀ remaining, s.pc.remaining = some remaining → ∃ done rest, s.batch = done ++ rest ∧
    rest.length = remaining ∧ s.executed = s.before ++ done ∧ rest <+: s.tasks
  returning : ∀ caller, s.pc = DriverPc.returning caller false → s.finished = true ∧ s.tasks = []
  /-- Where the driver sleeps although it could go on, some thread is about to notify. -/
  wakeup : ∀ caller, s.pc = DriverPc.waiting caller → s.isReady = true →
    ∃ thread, s.calling thread ≠ CallerPc.outside

namespace Inv

variable {s : RunLoop ι τ} {thread : Option ι}

omit [DecidableEq ι] in
theorem initial : Inv (RunLoop.initial : RunLoop ι τ) := ⟨rfl, rfl, nofun, nofun, nofun⟩

omit [DecidableEq ι] in
/-- Where no task is running, all have returned. -/
theorem completed_eq (h : Inv s) (htask : s.pc.task = []) : s.completed = s.executed := by
  have hcompleted := h.completed
  rwa [htask, List.append_nil] at hcompleted

omit [DecidableEq ι] in
/-- The driver goes on, not to sleep and not to return. -/
theorem moveTo (h : Inv s) {pc : DriverPc τ} (htask : pc.task = s.pc.task)
    (hremaining : pc.remaining = none ∨ pc.remaining = s.pc.remaining)
    (hreturning : ∀ caller, pc ≠ DriverPc.returning caller false)
    (hwaiting : ∀ caller, pc ≠ DriverPc.waiting caller) : Inv { s with pc := pc } where
  accepted := h.accepted
  completed := htask ▸ h.completed
  batch := by
    intro remaining hr
    rcases hremaining with hnone | hsame
    · exact absurd (hnone.symm.trans hr) nofun
    · exact h.batch remaining (hsame.symm.trans hr)
  returning caller hp := absurd hp (hreturning caller)
  wakeup caller hp := absurd hp (hwaiting caller)

/-- A task is posted: the queue grows at its end, and the thread is about to notify. -/
theorem post (h : Inv s) {task : τ} {t : RunLoop ι τ} (hpost : s.post thread task = Except.ok t) :
    Inv t := by
  unfold RunLoop.post at hpost
  split at hpost
  · exact absurd hpost nofun
  · next hfinished =>
    cases hpost
    refine ⟨?_, h.completed, fun remaining hr => ?_, fun caller hp => ?_, fun caller hp hr => ?_⟩
    · rw [← h.accepted, List.append_assoc]
    · obtain ⟨done, rest, hbatch, hlength, hexecuted, hprefix⟩ := h.batch remaining hr
      exact ⟨done, rest, hbatch, hlength, hexecuted, hprefix.trans (List.prefix_append _ _)⟩
    · exact absurd (h.returning caller hp).1 hfinished
    · exact ⟨thread, (Function.update_self ..).trans_ne nofun⟩

theorem finish (h : Inv s) (thread : Option ι) : Inv (s.finish thread) where
  accepted := h.accepted
  completed := h.completed
  batch := h.batch
  returning caller hp := ⟨rfl, (h.returning caller hp).2⟩
  wakeup _ _ _ := ⟨thread, (Function.update_self ..).trans_ne nofun⟩

/-- A notification leaves nobody asleep. -/
theorem notify (h : Inv s) (thread : Option ι) : Inv (s.notify thread) := by
  have htask : s.pc.wake.task = s.pc.task := by cases s.pc <;> rfl
  have hremaining : s.pc.wake.remaining = s.pc.remaining := by cases s.pc <;> rfl
  refine ⟨h.accepted, (congrArg _ htask).trans h.completed,
    fun remaining hr => h.batch remaining (hremaining.symm.trans hr), fun caller hp => ?_,
    fun caller hp => ?_⟩
  · refine h.returning caller ?_
    change s.pc.wake = _ at hp
    cases hpc : s.pc <;> rw [hpc] at hp <;> first | exact hp | cases hp
  · change s.pc.wake = _ at hp
    cases hpc : s.pc <;> rw [hpc] at hp <;> cases hp

omit [DecidableEq ι] in
/-- From the wait on, `runOne` goes to sleep, returns `false`, or takes the first task. -/
theorem wait (h : Inv s) (htask : s.pc.task = []) (caller : Caller) : Inv (s.wait caller) := by
  have hcompleted := h.completed_eq htask
  unfold RunLoop.wait
  split
  · next hready =>
    split
    · next htasks =>
      refine ⟨h.accepted, ?_, nofun, fun _ _ => ⟨?_, htasks⟩, nofun⟩
      · exact (List.append_nil _).trans hcompleted
      · rwa [isReady, htasks, List.isEmpty_nil, Bool.not_true, Bool.or_false] at hready
    · next task tasks htasks =>
      refine ⟨?_, ?_, nofun, nofun, nofun⟩
      · rw [← h.accepted, htasks, List.append_assoc, List.singleton_append]
      · rw [hcompleted, DriverPc.task]
  · next hready =>
    exact ⟨h.accepted, (List.append_nil _).trans hcompleted, nofun, nofun,
      fun _ _ hr => absurd hr hready⟩

omit [DecidableEq ι] in
/-- A batch begins with all of the queue. -/
theorem snapshot (h : Inv s) (htask : s.pc.task = []) : Inv s.snapshot where
  accepted := h.accepted
  completed := (List.append_nil _).trans (h.completed_eq htask)
  batch := by
    intro remaining hr
    cases hr
    exact ⟨[], s.tasks, rfl, rfl, (List.append_nil _).symm, List.prefix_rfl⟩
  returning := nofun
  wakeup := nofun

omit [DecidableEq ι] in
/-- A task is taken out of the batch, or the batch is done. -/
theorem nextReady (h : Inv s) {ready : ℕ} (hp : s.pc = DriverPc.ready ready) :
    Inv (s.nextReady ready) := by
  have hcompleted := h.completed_eq (by rw [hp]; rfl)
  obtain ⟨done, rest, hbatch, hlength, hexecuted, hprefix⟩ := h.batch ready (by rw [hp]; rfl)
  cases ready with
  | zero =>
    refine ⟨h.accepted, (List.append_nil _).trans hcompleted, fun remaining hr => ?_, nofun, nofun⟩
    cases hr
    exact ⟨done, rest, hbatch, hlength, hexecuted, hprefix⟩
  | succ ready =>
    -- the batch is not done, so that the queue is not empty
    obtain ⟨task, rest, rfl⟩ := List.exists_cons_of_length_eq_add_one hlength
    obtain ⟨later, hlater⟩ := hprefix
    have htasks : s.tasks = task :: (rest ++ later) := hlater.symm
    simp only [RunLoop.nextReady, htasks]
    refine ⟨?_, ?_, fun remaining hr => ?_, nofun, nofun⟩
    · rw [← h.accepted, htasks, List.append_assoc, List.singleton_append]
    · rw [hcompleted, DriverPc.task]
    · cases hr
      refine ⟨done ++ [task], rest, ?_, Nat.succ.inj hlength, ?_, List.prefix_append _ _⟩
      · rw [hbatch, List.append_assoc, List.singleton_append]
      · rw [hexecuted, List.append_assoc]

omit [DecidableEq ι] in
/-- A task has returned. -/
theorem taskEnd (h : Inv s) {task : τ} (htask : s.pc.task = [task]) {pc : DriverPc τ}
    (hnone : pc.task = []) (hremaining : pc.remaining = none ∨ pc.remaining = s.pc.remaining)
    (hreturning : ∀ caller, pc ≠ DriverPc.returning caller false)
    (hwaiting : ∀ caller, pc ≠ DriverPc.waiting caller) :
    Inv { s with completed := s.completed ++ [task], pc := pc } where
  accepted := h.accepted
  completed := by
    have hc := h.completed
    rw [htask] at hc
    rw [hnone, List.append_nil, hc]
  batch := by
    intro remaining hr
    rcases hremaining with hpc | hpc
    · exact absurd (hpc.symm.trans hr) nofun
    · exact h.batch remaining (hpc.symm.trans hr)
  returning caller hp := absurd hp (hreturning caller)
  wakeup caller hp := absurd hp (hwaiting caller)

/-- Every step keeps the invariant. -/
theorem step {lingerUs : ℕ} {t : RunLoop ι τ} (h : Inv s) (hst : Step lingerUs s t) : Inv t := by
  cases hst with
  | post _ hpost => exact h.post hpost
  | throw => exact h
  | finish => exact h.finish _
  | notify => exact h.notify _
  | runOne hp => exact h.moveTo (by rw [hp]; rfl) (Or.inl rfl) nofun nofun
  | enter hp =>
    unfold RunLoop.enter
    split
    · exact h.moveTo (by rw [hp]; rfl) (Or.inl rfl) nofun nofun
    · exact h.wait (by rw [hp]; rfl) _
  | probe hp =>
    unfold RunLoop.probe
    split
    · exact h.moveTo (by rw [hp]; rfl) (Or.inl rfl) nofun nofun
    · exact h
  | deadline hp => exact h.moveTo (by rw [hp]; rfl) (Or.inl rfl) nofun nofun
  | spurious hp => exact h.moveTo (by rw [hp]; rfl) (Or.inl rfl) nofun nofun
  | relock hp => exact h.wait (by rw [hp]; rfl) _
  | taskEnd hp => exact h.taskEnd (by rw [hp]; rfl) rfl (Or.inl rfl) nofun nofun
  | again hp => exact h.moveTo (by rw [hp]; rfl) (Or.inl rfl) nofun nofun
  | leave hp => exact h.moveTo (by rw [hp]; rfl) (Or.inl rfl) nofun nofun
  | runReady hp => exact h.moveTo (by rw [hp]; rfl) (Or.inl rfl) nofun nofun
  | snapshot hp => exact h.snapshot (by rw [hp]; rfl)
  | nextReady hp => exact h.nextReady hp
  | taskEndReady hp => exact h.taskEnd (by rw [hp]; rfl) rfl (Or.inr (by rw [hp]; rfl)) nofun nofun
  | leaveReady hp => exact h.moveTo (by rw [hp]; rfl) (Or.inl rfl) nofun nofun

theorem of_reachable {lingerUs : ℕ} (h : (system lingerUs).Reachable s) : Inv s := by
  refine h.invariant ?_ fun s t _ hs hst => hs.step hst
  rintro s rfl
  exact initial

end Inv

/-! ## After `finish` -/

section Finished

variable {s t : RunLoop ι τ} {lingerUs : ℕ}

omit [DecidableEq ι] in
@[simp] theorem wait_finished (s : RunLoop ι τ) (caller : Caller) :
    (s.wait caller).finished = s.finished ∧ (s.wait caller).accepted = s.accepted := by
  unfold wait
  split
  · split <;> exact ⟨rfl, rfl⟩
  · exact ⟨rfl, rfl⟩

omit [DecidableEq ι] in
@[simp] theorem nextReady_finished (s : RunLoop ι τ) (ready : ℕ) :
    (s.nextReady ready).finished = s.finished ∧ (s.nextReady ready).accepted = s.accepted := by
  unfold nextReady
  split
  · exact ⟨rfl, rfl⟩
  · split <;> exact ⟨rfl, rfl⟩

theorem post_of_finished (h : s.finished = true) (thread : Option ι) (task : τ) :
    s.post thread task = Except.error "Cannot post to a finished Caravan run loop" := if_pos h

/-- A finished loop stays finished, and accepts nothing. -/
theorem Step.finished (hst : Step lingerUs s t) (h : s.finished = true) :
    t.finished = true ∧ t.accepted = s.accepted := by
  cases hst with
  | post _ hpost => exact absurd ((post_of_finished h _ _).symm.trans hpost) nofun
  | finish => exact ⟨rfl, rfl⟩
  | enter =>
    unfold RunLoop.enter
    split
    · exact ⟨h, rfl⟩
    · rwa [(wait_finished s _).1, and_iff_left (wait_finished s _).2]
  | probe =>
    unfold RunLoop.probe
    split <;> exact ⟨h, rfl⟩
  | relock => rwa [(wait_finished s _).1, and_iff_left (wait_finished s _).2]
  | nextReady => rwa [(nextReady_finished s _).1, and_iff_left (nextReady_finished s _).2]
  | throw => exact ⟨h, rfl⟩
  | notify => exact ⟨h, rfl⟩
  | runOne => exact ⟨h, rfl⟩
  | deadline => exact ⟨h, rfl⟩
  | spurious => exact ⟨h, rfl⟩
  | taskEnd => exact ⟨h, rfl⟩
  | again => exact ⟨h, rfl⟩
  | leave => exact ⟨h, rfl⟩
  | runReady => exact ⟨h, rfl⟩
  | snapshot => exact ⟨h, rfl⟩
  | taskEndReady => exact ⟨h, rfl⟩
  | leaveReady => exact ⟨h, rfl⟩

end Finished

/-! ## The driver is not left waiting -/

section Waiting

variable {s t : RunLoop ι τ} {lingerUs : ℕ} {caller : Caller}

/-- The call of `runOne` that has neither taken a task nor decided to return. -/
def DriverPc.waitsFor : DriverPc τ → Option Caller
  | entering caller => some caller
  | lingering caller => some caller
  | relocking caller => some caller
  | waiting caller => some caller
  | _ => none

variable {e : (system lingerUs : StepSystem (RunLoop ι τ)).Execution} {n : ℕ}

end Waiting

/-! ## Every run of the loop -/

variable {s : RunLoop ι τ} {lingerUs : ℕ}

/-- A thread has posted a task while the driver is asleep. -/
def posted : RunLoop Unit ℕ := { (initial : RunLoop Unit ℕ) with
  pc := DriverPc.waiting Caller.runOne
  tasks := [7]
  accepted := [7]
  calling := update (fun _ => CallerPc.outside) (some ()) CallerPc.notifyOne }

end RunLoop

end Caravan
end Spearhed
