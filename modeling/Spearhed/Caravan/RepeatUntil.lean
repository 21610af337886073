import Mathlib.Data.List.Basic
import Mathlib.Logic.Function.Basic
import Spearhed.Library.StepSystem

/-!
# `repeatUntil`

`RepeatUntilOperation` runs one child operation after another until a child completes with `true`.
The thread that starts a child and the thread that completes it both come to an exchange on `m_state`,
and whoever comes second runs the loop on; the other returns without touching the operation again,
since it may be destroyed by then.

A child may complete on the thread that starts it, inside of `start()`, or on any other thread, before
or after `start()` has returned.  The stack of a thread is kept as a list of frames, so that an inline
completion is a frame on top of the loop, and a re-entered loop would be a second frame of `run`.

* `Trace`: what has happened after a number of iterations; only the return of `start()` and the
  delivery of the completion may come in either order.
* `Holds`: the positions that the threads can have together, with a rank that every step makes smaller
  within an iteration.
* `repeatUntil_one_at_a_time`: the result, for every stream of iteration results and every schedule.
-/

namespace Spearhed
namespace Caravan
namespace RepeatUntil

open Library

variable {T : Type}

/-- `State`. -/
inductive State
  | starting
  | waiting
  | completed
  deriving DecidableEq

/-- The next action of a thread in `run()`. -/
inductive RunPc
  /-- At `m_iteration.reset()`. -/
  | reset
  /-- At the test of `m_done`. -/
  | testDone
  /-- At the call of the receiver. -/
  | setValue
  /-- At the store to `m_state`. -/
  | storeStarting
  /-- At the call of the factory and `m_iteration.emplace`. -/
  | emplace
  /-- At the call of `m_iteration->start()`. -/
  | start
  /-- Inside of `m_iteration->start()`. -/
  | starting
  /-- At the exchange of `m_state`. -/
  | exchange

/-- The next action of a thread in `complete()`. -/
inductive CompletePc
  /-- At the store to `m_done`. -/
  | store
  /-- At the exchange of `m_state`. -/
  | exchange

/-- A frame on the stack of a thread. -/
inductive Frame
  | run (pc : RunPc)
  /-- `complete`, called by the child of this iteration. -/
  | complete (iteration : ℕ) (pc : CompletePc)

/-- A child operation: which iteration it is, and how far it has come. -/
structure Child where
  iteration : ℕ
  started : Bool
  returned : Bool
  /-- Its completion was called. -/
  called : Bool

/-- What can be observed of the operation. -/
inductive Event
  | invoked (iteration : ℕ)
  | started (iteration : ℕ)
  | returned (iteration : ℕ)
  | delivered (iteration : ℕ)
  | destroyed (iteration : ℕ)
  /-- The loop reads `m_done`. -/
  | tested (done : Bool)
  /-- The receiver is called. -/
  | finished
  deriving DecidableEq

/-- `RepeatUntilOperation`, with the threads that run its code. -/
structure Operation (T : Type) where
  /-- `m_state`. -/
  state : State
  /-- `m_done`. -/
  done : Bool
  /-- `m_iteration`. -/
  iteration : Option Child
  /-- How often the factory was invoked. -/
  invocations : ℕ
  /-- `start()` was called. -/
  begun : Bool
  stack : T → List Frame
  events : List Event

namespace Operation

/-- The constructed operation. -/
def initial : Operation T where
  state := State.starting
  done := false
  iteration := none
  invocations := 0
  begun := false
  stack := fun _ => []
  events := []

/-- The destruction of the child that `m_iteration` holds. -/
def dropped (s : Operation T) : List Event := (s.iteration.map fun child => Event.destroyed child.iteration).toList

end Operation

open Function (update)

/-- One action of a thread.  `stream` says what each iteration completes with. -/
inductive Step [DecidableEq T] (stream : ℕ → Bool) : Operation T → Operation T → Prop
  /-- The parent calls `start()`. -/
  | begin {s : Operation T} {τ : T} (hb : s.begun = false) (hτ : s.stack τ = []) :
      Step stream s { s with begun := true, stack := update s.stack τ [Frame.run RunPc.reset] }
  | reset {s : Operation T} {τ : T} {rest : List Frame} (hτ : s.stack τ = Frame.run RunPc.reset :: rest) :
      Step stream s { s with
        iteration := none
        stack := update s.stack τ (Frame.run RunPc.testDone :: rest)
        events := s.events ++ s.dropped }
  | testDone {s : Operation T} {τ : T} {rest : List Frame} (hτ : s.stack τ = Frame.run RunPc.testDone :: rest) :
      Step stream s { s with
        stack := update s.stack τ (Frame.run (if s.done then RunPc.setValue else RunPc.storeStarting) :: rest)
        events := s.events ++ [Event.tested s.done] }
  | setValue {s : Operation T} {τ : T} {rest : List Frame} (hτ : s.stack τ = Frame.run RunPc.setValue :: rest) :
      Step stream s { s with stack := update s.stack τ rest, events := s.events ++ [Event.finished] }
  | storeStarting {s : Operation T} {τ : T} {rest : List Frame} (hτ : s.stack τ = Frame.run RunPc.storeStarting :: rest) :
      Step stream s { s with
        state := State.starting
        stack := update s.stack τ (Frame.run RunPc.emplace :: rest) }
  -- a child that `m_iteration` still held would be destroyed here
  | emplace {s : Operation T} {τ : T} {rest : List Frame} (hτ : s.stack τ = Frame.run RunPc.emplace :: rest) :
      Step stream s { s with
        iteration := some ⟨s.invocations, false, false, false⟩
        invocations := s.invocations + 1
        stack := update s.stack τ (Frame.run RunPc.start :: rest)
        events := s.events ++ s.dropped ++ [Event.invoked s.invocations] }
  | start {s : Operation T} {τ : T} {rest : List Frame} {child : Child}
      (hτ : s.stack τ = Frame.run RunPc.start :: rest) (hc : s.iteration = some child) :
      Step stream s { s with
        iteration := some { child with started := true }
        stack := update s.stack τ (Frame.run RunPc.starting :: rest)
        events := s.events ++ [Event.started child.iteration] }
  | startReturned {s : Operation T} {τ : T} {rest : List Frame} {child : Child}
      (hτ : s.stack τ = Frame.run RunPc.starting :: rest) (hc : s.iteration = some child) :
      Step stream s { s with
        iteration := some { child with returned := true }
        stack := update s.stack τ (Frame.run RunPc.exchange :: rest)
        events := s.events ++ [Event.returned child.iteration] }
  /-- The child completes, inside of its `start()` or on a thread that runs no code of the operation. -/
  | setValueChild {s : Operation T} {τ : T} {child : Child}
      (hτ : s.stack τ = [] ∨ ∃ rest, s.stack τ = Frame.run RunPc.starting :: rest) (hc : s.iteration = some child)
      (hstarted : child.started = true) (hcalled : child.called = false) :
      Step stream s { s with
        iteration := some { child with called := true }
        stack := update s.stack τ (Frame.complete child.iteration CompletePc.store :: s.stack τ) }
  | storeDone {s : Operation T} {τ : T} {rest : List Frame} {n : ℕ}
      (hτ : s.stack τ = Frame.complete n CompletePc.store :: rest) :
      Step stream s { s with
        done := stream n
        stack := update s.stack τ (Frame.complete n CompletePc.exchange :: rest) }
  | exchangeCompleted {s : Operation T} {τ : T} {rest : List Frame} {n : ℕ}
      (hτ : s.stack τ = Frame.complete n CompletePc.exchange :: rest) :
      Step stream s { s with
        state := State.completed
        stack := update s.stack τ (if s.state = State.waiting then Frame.run RunPc.reset :: rest else rest)
        events := s.events ++ [Event.delivered n] }
  | exchangeWaiting {s : Operation T} {τ : T} {rest : List Frame} (hτ : s.stack τ = Frame.run RunPc.exchange :: rest) :
      Step stream s { s with
        state := State.waiting
        stack := update s.stack τ (if s.state = State.completed then Frame.run RunPc.reset :: rest else rest) }

/-- All runs of an operation. -/
def system [DecidableEq T] (stream : ℕ → Bool) : StepSystem (Operation T) where
  init := fun s => s = Operation.initial
  step := Step stream

/-! ## What has happened -/

/-- The end of `start()` and the delivery of the completion, in either order. -/
inductive Race (n : ℕ) : Bool → Bool → List Event → Prop
  | nil : Race n false false []
  | returned {delivered : Bool} {l : List Event} (h : Race n false delivered l) :
      Race n true delivered (l ++ [Event.returned n])
  | delivered {returned : Bool} {l : List Event} (h : Race n returned false l) :
      Race n returned true (l ++ [Event.delivered n])

/-- What has happened after `n` iterations, before `m_done` is tested. -/
inductive Trace (stream : ℕ → Bool) : ℕ → Bool → List Event → Prop
  | zero : Trace stream 0 false []
  | next {n : ℕ} {l race : List Event} (h : Trace stream n false l) (hrace : Race n true true race) :
      Trace stream (n + 1) (stream n)
        (l ++ [Event.tested false, Event.invoked n, Event.started n] ++ race ++ [Event.destroyed n])

namespace Trace

variable {stream : ℕ → Bool} {n : ℕ} {done : Bool} {l : List Event}

theorem done_eq (h : Trace stream n done l) {m : ℕ} (hn : n = m + 1) : done = stream m := by
  cases h with
  | zero => cases hn
  | next h hrace => rw [Nat.succ.inj hn]

/-- Every iteration before the last completed with `false`. -/
theorem stream_eq_false (h : Trace stream n done l) : ∀ j, j + 1 < n → stream j = false := by
  induction h with
  | zero => nofun
  | @next n l race h hrace ih =>
    intro j hj
    rcases Nat.lt_or_eq_of_le (Nat.lt_succ_iff.mp hj) with hlt | heq
    · exact ih j hlt
    · exact (h.done_eq heq.symm).symm

theorem stream_eq_false_of_false (h : Trace stream n false l) : ∀ j < n, stream j = false := by
  intro j hj
  rcases Nat.lt_or_eq_of_le (Nat.succ_le_of_lt hj) with hlt | heq
  · exact h.stream_eq_false j hlt
  · exact (h.done_eq heq.symm).symm

/-- The last thing before the test is that the child is destroyed. -/
theorem exists_destroyed (h : Trace stream n done l) {k : ℕ} (hn : n = k + 1) : ∃ l', l = l' ++ [Event.destroyed k] := by
  cases h with
  | zero => cases hn
  | next h hrace =>
    rw [Nat.succ.inj hn]
    exact ⟨_, rfl⟩

/-- The receiver is called after the first iteration that completes with `true`. -/
theorem first_true (h : Trace stream n true l) : ∃ k, n = k + 1 ∧ stream k = true ∧ ∀ j < k, stream j = false := by
  obtain _ | k := n
  · cases h
  · exact ⟨k, rfl, (h.done_eq rfl).symm, fun j hj => h.stream_eq_false j (by omega)⟩

theorem notMem_finished (h : Trace stream n done l) : Event.finished ∉ l := by
  induction h with
  | zero => nofun
  | @next n l race h hrace ih =>
    have hnot : ∀ {r d : Bool} {race : List Event}, Race n r d race → Event.finished ∉ race := by
      intro r d race hrace
      induction hrace with
      | nil => nofun
      | returned _ ih => simpa using ih
      | delivered _ ih => simpa using ih
    simpa [ih] using hnot hrace

end Trace

/-- A race that is under way can be run to its end. -/
theorem Race.exists_full {n : ℕ} {returned delivered : Bool} {race : List Event} (h : Race n returned delivered race) :
    ∃ rest, Race n true true (race ++ rest) := by
  cases returned with
  | false =>
    cases delivered with
    | false => exact ⟨[Event.returned n, Event.delivered n], by simpa using h.returned.delivered⟩
    | true => exact ⟨_, h.returned⟩
  | true =>
    cases delivered with
    | false => exact ⟨_, h.delivered⟩
    | true => exact ⟨[], by simpa using h⟩

/-! ## Where the threads are -/

/-- The frames of `run()`, when at most one thread is in it. -/
def runFrames [DecidableEq T] : Option (T × RunPc) → T → List Frame
  | none, _ => []
  | some (d, pc), τ => if τ = d then [Frame.run pc] else []

/-- The frames of `complete()`, when at most one thread is in it. -/
def completeFrames [DecidableEq T] : Option (T × ℕ × CompletePc) → T → List Frame
  | none, _ => []
  | some (c, n, pc), τ => if τ = c then [Frame.complete n pc] else []

/-- The stacks. -/
def frames [DecidableEq T] (D : Option (T × RunPc)) (C : Option (T × ℕ × CompletePc)) (τ : T) : List Frame :=
  completeFrames C τ ++ runFrames D τ

section Frames

variable [DecidableEq T] {D : Option (T × RunPc)} {C : Option (T × ℕ × CompletePc)} {τ : T} {rest : List Frame} {n : ℕ}

theorem runFrames_eq_cons {pc : RunPc} (h : runFrames D τ = Frame.run pc :: rest) : D = some (τ, pc) ∧ rest = [] := by
  obtain _ | ⟨d, pc'⟩ := D
  · cases h
  · rw [runFrames] at h
    split at h
    · next heq =>
      obtain ⟨hpc, hrest⟩ := List.cons.inj h
      exact ⟨by rw [heq, Frame.run.inj hpc], hrest.symm⟩
    · cases h

theorem runFrames_ne_complete {pc : CompletePc} : runFrames D τ ≠ Frame.complete n pc :: rest := by
  intro h
  obtain _ | ⟨d, pc'⟩ := D
  · cases h
  · rw [runFrames] at h
    split at h <;> cases h

/-- Who is in `run()` with nothing above it. -/
theorem driver_of_frames {pc : RunPc} (h : frames D C τ = Frame.run pc :: rest) :
    D = some (τ, pc) ∧ rest = [] ∧ completeFrames C τ = [] := by
  rw [frames] at h
  obtain _ | ⟨c, n, pc'⟩ := C
  · exact ⟨(runFrames_eq_cons h).1, (runFrames_eq_cons h).2, rfl⟩
  · rw [completeFrames] at h ⊢
    split at h
    · cases h
    · next hne => exact ⟨(runFrames_eq_cons h).1, (runFrames_eq_cons h).2, if_neg hne⟩

/-- Who is in `complete()`. -/
theorem completer_of_frames {pc : CompletePc} (h : frames D C τ = Frame.complete n pc :: rest) :
    C = some (τ, n, pc) ∧ rest = runFrames D τ := by
  rw [frames] at h
  obtain _ | ⟨c, m, pc'⟩ := C
  · exact absurd h runFrames_ne_complete
  · rw [completeFrames] at h
    split at h
    · next heq =>
      obtain ⟨hframe, hrest⟩ := List.cons.inj h
      obtain ⟨rfl, rfl⟩ := Frame.complete.inj hframe
      exact ⟨by rw [heq], hrest.symm⟩
    · exact absurd h runFrames_ne_complete

theorem update_driver {pc : RunPc} (pc' : RunPc) (hC : completeFrames C τ = []) :
    update (frames (some (τ, pc)) C) τ [Frame.run pc'] = frames (some (τ, pc')) C := by
  funext t
  rcases eq_or_ne t τ with rfl | hne
  · rw [Function.update_self, frames, hC, runFrames, if_pos rfl, List.nil_append]
  · rw [Function.update_of_ne hne, frames, frames, runFrames, runFrames, if_neg hne, if_neg hne]

theorem update_driver_none {pc : RunPc} (hC : completeFrames C τ = []) :
    update (frames (some (τ, pc)) C) τ [] = frames none C := by
  funext t
  rcases eq_or_ne t τ with rfl | hne
  · rw [Function.update_self, frames, hC, runFrames, List.nil_append]
  · rw [Function.update_of_ne hne, frames, frames, runFrames, runFrames, if_neg hne]

/-- A new driver, where there was none. -/
theorem update_new_driver (pc : RunPc) : update (frames none none) τ [Frame.run pc] = frames (some (τ, pc)) none := by
  funext t
  rcases eq_or_ne t τ with rfl | hne
  · rw [Function.update_self, frames, runFrames, if_pos rfl, completeFrames, List.nil_append]
  · rw [Function.update_of_ne hne, frames, frames, runFrames, runFrames, if_neg hne]

theorem update_new_completer (n : ℕ) (pc : CompletePc) :
    update (frames D none) τ (Frame.complete n pc :: frames D none τ) = frames D (some (τ, n, pc)) := by
  funext t
  rcases eq_or_ne t τ with rfl | hne
  · rw [Function.update_self, frames, frames, completeFrames, completeFrames, if_pos rfl]
    rfl
  · rw [Function.update_of_ne hne, frames, frames, completeFrames, completeFrames, if_neg hne]

theorem update_completer {pc : CompletePc} (pc' : CompletePc) :
    update (frames D (some (τ, n, pc))) τ (Frame.complete n pc' :: runFrames D τ) = frames D (some (τ, n, pc')) := by
  funext t
  rcases eq_or_ne t τ with rfl | hne
  · rw [Function.update_self, frames, completeFrames, if_pos rfl]
    rfl
  · rw [Function.update_of_ne hne, frames, frames, completeFrames, completeFrames, if_neg hne, if_neg hne]

theorem update_completer_none {pc : CompletePc} :
    update (frames D (some (τ, n, pc))) τ (runFrames D τ) = frames D none := by
  funext t
  rcases eq_or_ne t τ with rfl | hne
  · rw [Function.update_self, frames, completeFrames, List.nil_append]
  · rw [Function.update_of_ne hne, frames, frames, completeFrames, completeFrames, if_neg hne]

/-- The loop is handed over to the completing thread. -/
theorem update_handover {pc : CompletePc} (pc' : RunPc) :
    update (frames none (some (τ, n, pc))) τ [Frame.run pc'] = frames (some (τ, pc')) none := by
  funext t
  rcases eq_or_ne t τ with rfl | hne
  · rw [Function.update_self, frames, runFrames, if_pos rfl, completeFrames, List.nil_append]
  · rw [Function.update_of_ne hne, frames, frames, runFrames, runFrames, completeFrames, completeFrames, if_neg hne,
      if_neg hne]

end Frames

/-- The starting thread, while the child is running. -/
inductive RaceDriver : Option (T × RunPc) → Bool → ℕ → Prop
  | starting (d : T) : RaceDriver (some (d, RunPc.starting)) false 2
  | exchange (d : T) : RaceDriver (some (d, RunPc.exchange)) true 1
  | left : RaceDriver none true 0

/-- What holds of the operation while its child is running. -/
structure Racing (stream : ℕ → Bool) (s : Operation T) (n : ℕ) (returned called delivered : Bool) : Prop where
  invocations : s.invocations = n + 1
  iteration : s.iteration = some ⟨n, true, returned, called⟩
  events : ∃ l race, Trace stream n false l ∧ Race n returned delivered race ∧
    s.events = l ++ [Event.tested false, Event.invoked n, Event.started n] ++ race

/-- `m_state` before the completion is delivered. -/
def undelivered : Option (T × RunPc) → State
  | none => State.waiting
  | some _ => State.starting

/-- What holds of an operation whose threads are at these positions, and how many steps of the
iteration are left at most. -/
inductive Holds (stream : ℕ → Bool) (s : Operation T) : Option (T × RunPc) → Option (T × ℕ × CompletePc) → ℕ → Prop
  | reset (d : T) (hcalled : ∀ child, s.iteration = some child → child.called = true)
      (htrace : Trace stream s.invocations s.done (s.events ++ s.dropped)) :
      Holds stream s (some (d, RunPc.reset)) none 5
  | testDone (d : T) (hi : s.iteration = none) (htrace : Trace stream s.invocations s.done s.events) :
      Holds stream s (some (d, RunPc.testDone)) none 4
  | setValue (d : T) (hi : s.iteration = none) {l : List Event} (htrace : Trace stream s.invocations true l)
      (he : s.events = l ++ [Event.tested true]) : Holds stream s (some (d, RunPc.setValue)) none 3
  | storeStarting (d : T) (hi : s.iteration = none) {l : List Event} (htrace : Trace stream s.invocations false l)
      (he : s.events = l ++ [Event.tested false]) : Holds stream s (some (d, RunPc.storeStarting)) none 3
  | emplace (d : T) (hstate : s.state = State.starting) (hi : s.iteration = none) {l : List Event}
      (htrace : Trace stream s.invocations false l) (he : s.events = l ++ [Event.tested false]) :
      Holds stream s (some (d, RunPc.emplace)) none 2
  | start (d : T) (hstate : s.state = State.starting) {n : ℕ} (hn : s.invocations = n + 1)
      (hi : s.iteration = some ⟨n, false, false, false⟩) {l : List Event} (htrace : Trace stream n false l)
      (he : s.events = l ++ [Event.tested false, Event.invoked n]) : Holds stream s (some (d, RunPc.start)) none 15
  | absent {D : Option (T × RunPc)} {returned : Bool} {r n : ℕ} (hD : RaceDriver D returned r)
      (h : Racing stream s n returned false false) (hstate : s.state = undelivered D) : Holds stream s D none (r + 9)
  | storing {D : Option (T × RunPc)} {returned : Bool} {r n : ℕ} (c : T) (hD : RaceDriver D returned r)
      (h : Racing stream s n returned true false) (hstate : s.state = undelivered D) :
      Holds stream s D (some (c, n, CompletePc.store)) (r + 8)
  | exchanging {D : Option (T × RunPc)} {returned : Bool} {r n : ℕ} (c : T) (hD : RaceDriver D returned r)
      (h : Racing stream s n returned true false) (hstate : s.state = undelivered D) (hdone : s.done = stream n) :
      Holds stream s D (some (c, n, CompletePc.exchange)) (r + 7)
  | delivered {D : Option (T × RunPc)} {returned : Bool} {r n : ℕ} (hD : RaceDriver D returned r) (hsome : D ≠ none)
      (h : Racing stream s n returned true true) (hstate : s.state = State.completed) (hdone : s.done = stream n) :
      Holds stream s D none (r + 6)
  | over (hi : s.iteration = none) {l : List Event} (htrace : Trace stream s.invocations true l)
      (he : s.events = l ++ [Event.tested true, Event.finished]) : Holds stream s none none 0

/-- The invariant, with a rank. -/
inductive Inv [DecidableEq T] (stream : ℕ → Bool) (s : Operation T) : ℕ → Prop
  | idle (hb : s.begun = false) (hstack : s.stack = frames none none) (hd : s.done = false) (hi : s.iteration = none)
      (hn : s.invocations = 0) (he : s.events = []) : Inv stream s 6
  | running {r : ℕ} (hb : s.begun = true) (D : Option (T × RunPc)) (C : Option (T × ℕ × CompletePc))
      (hstack : s.stack = frames D C) (h : Holds stream s D C r) : Inv stream s r

/-- A step comes closer to the end of the iteration, or it begins the next one. -/
def Closer (stream : ℕ → Bool) (s t : Operation T) (r r' : ℕ) : Prop :=
  t.invocations = s.invocations ∧ r' < r ∨
    t.invocations = s.invocations + 1 ∧ r' ≤ 15 ∧ ∀ j < s.invocations, stream j = false

section Steps

variable [DecidableEq T] {stream : ℕ → Bool} {s : Operation T} {r : ℕ} {τ : T} {rest : List Frame}

/-- Where a thread runs code of the operation, the operation was started. -/
theorem Inv.running_of_stack {frame : Frame} (h : Inv stream s r) (hτ : s.stack τ = frame :: rest) :
    s.begun = true ∧ ∃ D C, s.stack = frames D C ∧ Holds stream s D C r := by
  cases h with
  | idle hb hstack =>
    rw [hstack] at hτ
    cases hτ
  | running hb D C hstack h => exact ⟨hb, D, C, hstack, h⟩

/-- A thread in `run()` is the driver. -/
theorem Inv.driver {pc : RunPc} (h : Inv stream s r) (hτ : s.stack τ = Frame.run pc :: rest) :
    s.begun = true ∧ rest = [] ∧ ∃ C, completeFrames C τ = [] ∧ s.stack = frames (some (τ, pc)) C ∧
      Holds stream s (some (τ, pc)) C r := by
  obtain ⟨hb, D, C, hstack, h⟩ := h.running_of_stack hτ
  rw [hstack] at hτ
  obtain ⟨rfl, hrest, hC⟩ := driver_of_frames hτ
  exact ⟨hb, hrest, C, hC, hstack, h⟩

/-- A thread in `complete()` is the completer. -/
theorem Inv.completer {n : ℕ} {pc : CompletePc} (h : Inv stream s r) (hτ : s.stack τ = Frame.complete n pc :: rest) :
    s.begun = true ∧ ∃ D, rest = runFrames D τ ∧ s.stack = frames D (some (τ, n, pc)) ∧
      Holds stream s D (some (τ, n, pc)) r := by
  obtain ⟨hb, D, C, hstack, h⟩ := h.running_of_stack hτ
  rw [hstack] at hτ
  obtain ⟨rfl, hrest⟩ := completer_of_frames hτ
  exact ⟨hb, D, hrest, hstack, h⟩

theorem Inv.begin (h : Inv stream s r) (τ : T) (hb : s.begun = false) :
    Inv stream { s with begun := true, stack := update s.stack τ [Frame.run RunPc.reset] } 5 ∧ 5 < r := by
  cases h with
  | idle hb hstack hd hi hn he =>
    refine ⟨Inv.running rfl (some (τ, RunPc.reset)) none ?_ (Holds.reset τ ?_ ?_), by omega⟩
    · rw [hstack]
      exact update_new_driver _
    · intro child hc
      rw [hi] at hc
      cases hc
    · have hdropped : s.dropped = [] := by rw [Operation.dropped, hi]; rfl
      change Trace stream s.invocations s.done (s.events ++ s.dropped)
      rw [hdropped, hd, hn, he]
      exact Trace.zero
  | running hb' => rw [hb] at hb'; cases hb'

theorem Inv.reset (h : Inv stream s r) (hτ : s.stack τ = Frame.run RunPc.reset :: rest) :
    Inv stream { s with
      iteration := none
      stack := update s.stack τ (Frame.run RunPc.testDone :: rest)
      events := s.events ++ s.dropped } 4 ∧ 4 < r := by
  obtain ⟨hb, rfl, C, hC, hstack, h⟩ := h.driver hτ
  cases h with
  | reset _ hcalled htrace =>
    exact ⟨Inv.running hb _ none (by rw [hstack]; exact update_driver _ hC) (Holds.testDone τ rfl htrace), by omega⟩
  | absent hD => cases hD
  | storing c hD => cases hD
  | exchanging c hD => cases hD
  | delivered hD => cases hD

theorem Inv.testDone (h : Inv stream s r) (hτ : s.stack τ = Frame.run RunPc.testDone :: rest) :
    Inv stream { s with
      stack := update s.stack τ (Frame.run (if s.done then RunPc.setValue else RunPc.storeStarting) :: rest)
      events := s.events ++ [Event.tested s.done] } 3 ∧ 3 < r := by
  obtain ⟨hb, rfl, C, hC, hstack, h⟩ := h.driver hτ
  cases h with
  | testDone _ hi htrace =>
    refine ⟨Inv.running hb _ none (by rw [hstack]; exact update_driver _ hC) ?_, by omega⟩
    cases hd : s.done with
    | false => exact Holds.storeStarting τ hi (hd ▸ htrace) rfl
    | true => exact Holds.setValue τ hi (hd ▸ htrace) rfl
  | absent hD => cases hD
  | storing c hD => cases hD
  | exchanging c hD => cases hD
  | delivered hD => cases hD

theorem Inv.setValue (h : Inv stream s r) (hτ : s.stack τ = Frame.run RunPc.setValue :: rest) :
    Inv stream { s with stack := update s.stack τ rest, events := s.events ++ [Event.finished] } 0 ∧ 0 < r := by
  obtain ⟨hb, rfl, C, hC, hstack, h⟩ := h.driver hτ
  cases h with
  | setValue _ hi htrace he =>
    refine ⟨Inv.running hb none none (by rw [hstack]; exact update_driver_none hC) (Holds.over hi htrace ?_), by omega⟩
    rw [he, List.append_assoc]
    rfl
  | absent hD => cases hD
  | storing c hD => cases hD
  | exchanging c hD => cases hD
  | delivered hD => cases hD

theorem Inv.storeStarting (h : Inv stream s r) (hτ : s.stack τ = Frame.run RunPc.storeStarting :: rest) :
    Inv stream { s with state := State.starting, stack := update s.stack τ (Frame.run RunPc.emplace :: rest) } 2 ∧
      2 < r := by
  obtain ⟨hb, rfl, C, hC, hstack, h⟩ := h.driver hτ
  cases h with
  | storeStarting _ hi htrace he =>
    exact ⟨Inv.running hb _ none (by rw [hstack]; exact update_driver _ hC) (Holds.emplace τ rfl hi htrace he), by omega⟩
  | absent hD => cases hD
  | storing c hD => cases hD
  | exchanging c hD => cases hD
  | delivered hD => cases hD

theorem Inv.emplace (h : Inv stream s r) (hτ : s.stack τ = Frame.run RunPc.emplace :: rest) :
    Inv stream { s with
      iteration := some ⟨s.invocations, false, false, false⟩
      invocations := s.invocations + 1
      stack := update s.stack τ (Frame.run RunPc.start :: rest)
      events := s.events ++ s.dropped ++ [Event.invoked s.invocations] } 15 ∧ ∀ j < s.invocations, stream j = false := by
  obtain ⟨hb, rfl, C, hC, hstack, h⟩ := h.driver hτ
  cases h with
  | emplace _ hstate hi htrace he =>
    refine ⟨Inv.running hb _ none (by rw [hstack]; exact update_driver _ hC)
      (Holds.start τ hstate rfl rfl htrace ?_), fun j hj => ?_⟩
    · have hdropped : s.dropped = [] := by rw [Operation.dropped, hi]; rfl
      change s.events ++ s.dropped ++ [Event.invoked s.invocations] = _
      rw [hdropped, he, List.append_nil, List.append_assoc]
      rfl
    · exact htrace.stream_eq_false_of_false j hj
  | absent hD => cases hD
  | storing c hD => cases hD
  | exchanging c hD => cases hD
  | delivered hD => cases hD

theorem Inv.start {child : Child} (h : Inv stream s r) (hτ : s.stack τ = Frame.run RunPc.start :: rest)
    (hc : s.iteration = some child) :
    Inv stream { s with
      iteration := some { child with started := true }
      stack := update s.stack τ (Frame.run RunPc.starting :: rest)
      events := s.events ++ [Event.started child.iteration] } 11 ∧ 11 < r := by
  obtain ⟨hb, rfl, C, hC, hstack, h⟩ := h.driver hτ
  cases h with
  | start _ hstate hn hi htrace he =>
    obtain rfl := Option.some.inj (hc.symm.trans hi)
    refine ⟨Inv.running hb _ none (by rw [hstack]; exact update_driver _ hC)
      (Holds.absent (RaceDriver.starting τ) ⟨hn, rfl, _, [], htrace, Race.nil, ?_⟩ hstate), by omega⟩
    rw [he, List.append_nil, List.append_assoc]
    rfl
  | absent hD => cases hD
  | storing c hD => cases hD
  | exchanging c hD => cases hD
  | delivered hD => cases hD

omit [DecidableEq T] in
/-- `start()` of the child returns. -/
theorem Racing.startReturned {n : ℕ} {called delivered : Bool} {child : Child} {stack : T → List Frame}
    (h : Racing stream s n false called delivered) (hc : s.iteration = some child) :
    Racing stream { s with
      iteration := some { child with returned := true }
      stack := stack
      events := s.events ++ [Event.returned child.iteration] } n true called delivered := by
  obtain ⟨hn, hi, l, race, htrace, hrace, he⟩ := h
  obtain rfl := Option.some.inj (hc.symm.trans hi)
  refine ⟨hn, rfl, l, _, htrace, hrace.returned, ?_⟩
  dsimp only
  rw [he, List.append_assoc]

theorem Inv.startReturned {child : Child} (h : Inv stream s r) (hτ : s.stack τ = Frame.run RunPc.starting :: rest)
    (hc : s.iteration = some child) :
    ∃ r' < r, Inv stream { s with
      iteration := some { child with returned := true }
      stack := update s.stack τ (Frame.run RunPc.exchange :: rest)
      events := s.events ++ [Event.returned child.iteration] } r' := by
  obtain ⟨hb, rfl, C, hC, hstack, h⟩ := h.driver hτ
  have hframes : update s.stack τ [Frame.run RunPc.exchange] = frames (some (τ, RunPc.exchange)) C := by
    rw [hstack]
    exact update_driver _ hC
  cases h with
  | absent hD hr hstate =>
    cases hD
    exact ⟨_, by omega, Inv.running hb _ _ hframes (Holds.absent (RaceDriver.exchange τ) (hr.startReturned hc) hstate)⟩
  | storing c hD hr hstate =>
    cases hD
    exact ⟨_, by omega, Inv.running hb _ _ hframes (Holds.storing c (RaceDriver.exchange τ) (hr.startReturned hc) hstate)⟩
  | exchanging c hD hr hstate hdone =>
    cases hD
    exact ⟨_, by omega, Inv.running hb _ _ hframes
      (Holds.exchanging c (RaceDriver.exchange τ) (hr.startReturned hc) hstate hdone)⟩
  | delivered hD hsome hr hstate hdone =>
    cases hD
    exact ⟨_, by omega, Inv.running hb _ _ hframes
      (Holds.delivered (RaceDriver.exchange τ) (Option.some_ne_none _) (hr.startReturned hc) hstate hdone)⟩

/-- The completion of the child is called, on whatever thread. -/
theorem Inv.setValueChild {child : Child} (h : Inv stream s r) (τ : T) (hc : s.iteration = some child)
    (hstarted : child.started = true) (hcalled : child.called = false) :
    ∃ r' < r, Inv stream { s with
      iteration := some { child with called := true }
      stack := update s.stack τ (Frame.complete child.iteration CompletePc.store :: s.stack τ) } r' := by
  cases h with
  | idle hb hstack hd hi => rw [hi] at hc; cases hc
  | running hb D C hstack h =>
    cases h with
    | absent hD hr hstate =>
      obtain ⟨hn, hi, he⟩ := hr
      obtain rfl := Option.some.inj (hc.symm.trans hi)
      rename_i returned r n
      refine ⟨r + 8, by omega, Inv.running hb D (some (τ, n, CompletePc.store)) ?_ ?_⟩
      · rw [hstack]
        exact update_new_completer _ _
      · exact Holds.storing τ hD ⟨hn, rfl, he⟩ hstate
    | reset d hcalled' =>
      rw [hcalled' child hc] at hcalled
      cases hcalled
    | testDone d hi => rw [hi] at hc; cases hc
    | setValue d hi => rw [hi] at hc; cases hc
    | storeStarting d hi => rw [hi] at hc; cases hc
    | emplace d hstate hi => rw [hi] at hc; cases hc
    | «over» hi => rw [hi] at hc; cases hc
    | start d hstate hn hi =>
      obtain rfl := Option.some.inj (hc.symm.trans hi)
      cases hstarted
    | storing c hD hr =>
      obtain rfl := Option.some.inj (hc.symm.trans hr.iteration)
      cases hcalled
    | exchanging c hD hr =>
      obtain rfl := Option.some.inj (hc.symm.trans hr.iteration)
      cases hcalled
    | delivered hD hsome hr =>
      obtain rfl := Option.some.inj (hc.symm.trans hr.iteration)
      cases hcalled

theorem Inv.storeDone {n : ℕ} (h : Inv stream s r) (hτ : s.stack τ = Frame.complete n CompletePc.store :: rest) :
    ∃ r' < r, Inv stream { s with
      done := stream n
      stack := update s.stack τ (Frame.complete n CompletePc.exchange :: rest) } r' := by
  obtain ⟨hb, D, rfl, hstack, h⟩ := h.completer hτ
  have hframes : update s.stack τ (Frame.complete n CompletePc.exchange :: runFrames D τ) =
      frames D (some (τ, n, CompletePc.exchange)) := by
    rw [hstack]
    exact update_completer _
  cases h with
  | @storing _ returned r _ _ hD hr hstate =>
    obtain ⟨hn, hi, he⟩ := hr
    refine ⟨r + 7, by omega, Inv.running hb D _ hframes ?_⟩
    exact Holds.exchanging τ hD ⟨hn, hi, he⟩ hstate rfl

omit [DecidableEq T] in
/-- After both threads have come, the child can be destroyed. -/
theorem Racing.reset {n : ℕ} {state : State} {stack : T → List Frame} (d : T)
    (h : Racing stream s n true true true) (hdone : s.done = stream n) :
    Holds stream { s with state := state, stack := stack } (some (d, RunPc.reset)) none 5 := by
  obtain ⟨hn, hi, l, race, htrace, hrace, he⟩ := h
  refine Holds.reset d (fun child hc => ?_) ?_
  · dsimp only at hc
    obtain rfl := Option.some.inj (hc.symm.trans hi)
    rfl
  · have hdropped : s.dropped = [Event.destroyed n] := by rw [Operation.dropped, hi]; rfl
    change Trace stream s.invocations s.done (s.events ++ s.dropped)
    rw [hn, hdone, he, hdropped]
    exact htrace.next hrace

omit [DecidableEq T] in
/-- The completion is delivered. -/
theorem Racing.deliver {n : ℕ} {returned : Bool} (state : State) (stack : T → List Frame)
    (h : Racing stream s n returned true false) :
    Racing stream { s with state := state, stack := stack, events := s.events ++ [Event.delivered n] } n returned true true := by
  obtain ⟨hn, hi, l, race, htrace, hrace, he⟩ := h
  refine ⟨hn, hi, l, _, htrace, hrace.delivered, ?_⟩
  dsimp only
  rw [he, List.append_assoc]

/-- The completing thread runs the loop on if the starting thread has left it. -/
theorem Inv.exchangeCompleted {n : ℕ} (h : Inv stream s r)
    (hτ : s.stack τ = Frame.complete n CompletePc.exchange :: rest) :
    ∃ r' < r, Inv stream { s with
      state := State.completed
      stack := update s.stack τ (if s.state = State.waiting then Frame.run RunPc.reset :: rest else rest)
      events := s.events ++ [Event.delivered n] } r' := by
  obtain ⟨hb, D, rfl, hstack, h⟩ := h.completer hτ
  cases h with
  | @exchanging _ returned r _ _ hD hr hstate hdone =>
    cases hD with
    | left =>
      refine ⟨5, by omega, Inv.running hb (some (τ, RunPc.reset)) none ?_ ?_⟩
      · have hwaiting : s.state = State.waiting := hstate
        rw [if_pos hwaiting, hstack]
        exact update_handover _
      · exact (hr.deliver State.completed s.stack).reset τ hdone
    | starting d =>
      refine ⟨_, by omega, Inv.running hb (some (d, RunPc.starting)) none ?_
        (Holds.delivered (RaceDriver.starting d) (Option.some_ne_none _) (hr.deliver _ _) rfl hdone)⟩
      rw [hstate, if_neg nofun, hstack]
      exact update_completer_none
    | exchange d =>
      refine ⟨_, by omega, Inv.running hb (some (d, RunPc.exchange)) none ?_
        (Holds.delivered (RaceDriver.exchange d) (Option.some_ne_none _) (hr.deliver _ _) rfl hdone)⟩
      rw [hstate, if_neg nofun, hstack]
      exact update_completer_none

/-- The starting thread runs the loop on if the completion was delivered. -/
theorem Inv.exchangeWaiting (h : Inv stream s r) (hτ : s.stack τ = Frame.run RunPc.exchange :: rest) :
    ∃ r' < r, Inv stream { s with
      state := State.waiting
      stack := update s.stack τ (if s.state = State.completed then Frame.run RunPc.reset :: rest else rest) } r' := by
  obtain ⟨hb, rfl, C, hC, hstack, h⟩ := h.driver hτ
  have hleft : s.state = State.starting → update s.stack τ
      (if s.state = State.completed then [Frame.run RunPc.reset] else []) = frames none C := by
    intro hstate
    rw [hstate, if_neg (by decide), hstack]
    exact update_driver_none hC
  cases h with
  | absent hD hr hstate =>
    cases hD
    exact ⟨_, by omega, Inv.running hb none _ (hleft hstate)
      (Holds.absent RaceDriver.left ⟨hr.invocations, hr.iteration, hr.events⟩ rfl)⟩
  | storing c hD hr hstate =>
    cases hD
    exact ⟨_, by omega, Inv.running hb none _ (hleft hstate)
      (Holds.storing c RaceDriver.left ⟨hr.invocations, hr.iteration, hr.events⟩ rfl)⟩
  | exchanging c hD hr hstate hdone =>
    cases hD
    exact ⟨_, by omega, Inv.running hb none _ (hleft hstate)
      (Holds.exchanging c RaceDriver.left ⟨hr.invocations, hr.iteration, hr.events⟩ rfl hdone)⟩
  | delivered hD hsome hr hstate hdone =>
    cases hD
    refine ⟨5, by omega, Inv.running hb (some (τ, RunPc.reset)) none ?_ (hr.reset τ hdone)⟩
    rw [if_pos hstate, hstack]
    exact update_driver _ hC

/-- **The step lemma.** -/
theorem Inv.step {t : Operation T} (h : Inv stream s r) (hst : Step stream s t) :
    ∃ r', Inv stream t r' ∧ Closer stream s t r r' := by
  have hcloser : ∀ {t : Operation T}, t.invocations = s.invocations → (∃ r' < r, Inv stream t r') →
      ∃ r', Inv stream t r' ∧ Closer stream s t r r' := by
    rintro t ht ⟨r', hlt, hinv⟩
    exact ⟨r', hinv, Or.inl ⟨ht, hlt⟩⟩
  cases hst with
  | @begin τ hb hτ => exact hcloser rfl ⟨_, (h.begin τ hb).2, (h.begin τ hb).1⟩
  | reset hτ => exact hcloser rfl ⟨_, (h.reset hτ).2, (h.reset hτ).1⟩
  | testDone hτ => exact hcloser rfl ⟨_, (h.testDone hτ).2, (h.testDone hτ).1⟩
  | setValue hτ => exact hcloser rfl ⟨_, (h.setValue hτ).2, (h.setValue hτ).1⟩
  | storeStarting hτ => exact hcloser rfl ⟨_, (h.storeStarting hτ).2, (h.storeStarting hτ).1⟩
  | emplace hτ => exact ⟨15, (h.emplace hτ).1, Or.inr ⟨rfl, le_rfl, (h.emplace hτ).2⟩⟩
  | start hτ hc => exact hcloser rfl ⟨_, (h.start hτ hc).2, (h.start hτ hc).1⟩
  | startReturned hτ hc => exact hcloser rfl (h.startReturned hτ hc)
  | @setValueChild τ child hτ hc hstarted hcalled => exact hcloser rfl (h.setValueChild τ hc hstarted hcalled)
  | storeDone hτ => exact hcloser rfl (h.storeDone hτ)
  | exchangeCompleted hτ => exact hcloser rfl (h.exchangeCompleted hτ)
  | exchangeWaiting hτ => exact hcloser rfl (h.exchangeWaiting hτ)

theorem Inv.initial : Inv stream (Operation.initial : Operation T) 6 := Inv.idle rfl rfl rfl rfl rfl rfl

theorem inv_of_reachable (h : (system stream).Reachable s) : ∃ r, Inv stream s r := by
  refine StepSystem.Reachable.invariant (P := fun s => ∃ r, Inv stream s r) (fun s hs => ?_) (fun s t _ hinv hst => ?_) h
  · rw [hs]
    exact ⟨6, Inv.initial⟩
  · obtain ⟨r, hinv⟩ := hinv
    obtain ⟨r', hinv', -⟩ := hinv.step hst
    exact ⟨r', hinv'⟩

end Steps

/-! ## Every run -/

/-- `run()` and `complete()`. -/
def Frame.isRun : Frame → Bool
  | run _ => true
  | complete _ _ => false

/-- What can be observed of a whole run. -/
inductive Whole (stream : ℕ → Bool) : List Event → Prop
  /-- Some iterations. -/
  | running {n : ℕ} {done : Bool} {l : List Event} (h : Trace stream n done l) : Whole stream l
  /-- All of them, and the call of the receiver. -/
  | over {n : ℕ} {l : List Event} (h : Trace stream n true l) : Whole stream (l ++ [Event.tested true, Event.finished])

section Runs

variable [DecidableEq T] {stream : ℕ → Bool} {s : Operation T} {r : ℕ} {D : Option (T × RunPc)}
  {C : Option (T × ℕ × CompletePc)}

omit [DecidableEq T] in
/-- An iteration that is under way can be completed. -/
theorem Racing.exists_trace {n : ℕ} {returned called delivered : Bool} (h : Racing stream s n returned called delivered) :
    ∃ n done w, Trace stream n done w ∧ s.events <+: w := by
  obtain ⟨-, -, l, race, htrace, hrace, he⟩ := h
  obtain ⟨rest, hrest⟩ := hrace.exists_full
  refine ⟨_, _, _, htrace.next hrest, rest ++ [Event.destroyed n], ?_⟩
  rw [he]
  simp only [List.append_assoc]

theorem Trace.exists_next {n : ℕ} {l : List Event} (h : Trace stream n false l) :
    ∃ n' done w, Trace stream n' done w ∧ l ++ [Event.tested false, Event.invoked n, Event.started n] <+: w :=
  ⟨_, _, _, h.next Race.nil.returned.delivered, [Event.returned n, Event.delivered n, Event.destroyed n], by simp⟩

omit [DecidableEq T] in
/-- What has happened at each position. -/
theorem Holds.events_eq (h : Holds stream s D C r) :
    (∃ n done w, Trace stream n done w ∧ s.events <+: w) ∨
      (∃ l, Trace stream s.invocations true l ∧ s.events = l ++ [Event.tested true]) ∨
      D = none ∧ C = none ∧ s.iteration = none ∧
        ∃ l, Trace stream s.invocations true l ∧ s.events = l ++ [Event.tested true, Event.finished] := by
  cases h with
  | reset d hcalled htrace => exact Or.inl ⟨_, _, _, htrace, List.prefix_append _ _⟩
  | testDone d hi htrace => exact Or.inl ⟨_, _, _, htrace, List.prefix_rfl⟩
  | setValue d hi htrace he => exact Or.inr (Or.inl ⟨_, htrace, he⟩)
  | storeStarting d hi htrace he | emplace d hstate hi htrace he =>
    obtain ⟨n, done, w, hw, hprefix⟩ := htrace.exists_next
    refine Or.inl ⟨n, done, w, hw, List.IsPrefix.trans ?_ hprefix⟩
    rw [he]
    exact ⟨[Event.invoked _, Event.started _], by rw [List.append_assoc]; rfl⟩
  | start d hstate hn hi htrace he =>
    obtain ⟨n, done, w, hw, hprefix⟩ := htrace.exists_next
    refine Or.inl ⟨n, done, w, hw, List.IsPrefix.trans ?_ hprefix⟩
    rw [he]
    exact ⟨[Event.started _], by rw [List.append_assoc]; rfl⟩
  | absent hD h => exact Or.inl h.exists_trace
  | storing c hD h => exact Or.inl h.exists_trace
  | exchanging c hD h => exact Or.inl h.exists_trace
  | delivered hD hsome h => exact Or.inl h.exists_trace
  | «over» hi htrace he => exact Or.inr (Or.inr ⟨rfl, rfl, hi, _, htrace, he⟩)

omit [DecidableEq T] in
theorem Holds.exists_whole (h : Holds stream s D C r) : ∃ w, Whole stream w ∧ s.events <+: w := by
  rcases h.events_eq with ⟨n, done, w, hw, hprefix⟩ | ⟨l, hl, he⟩ | ⟨-, -, -, l, hl, he⟩
  · exact ⟨w, Whole.running hw, hprefix⟩
  · refine ⟨_, Whole.over hl, [Event.finished], ?_⟩
    rw [he, List.append_assoc]
    rfl
  · exact ⟨_, Whole.over hl, [], by rw [he, List.append_nil]⟩

omit [DecidableEq T] in
/-- The receiver is called at the end, by the last thread in the operation. -/
theorem Holds.finished (h : Holds stream s D C r) (hf : Event.finished ∈ s.events) :
    D = none ∧ C = none ∧ s.iteration = none ∧
      ∃ l, Trace stream s.invocations true l ∧ s.events = l ++ [Event.tested true, Event.finished] := by
  rcases h.events_eq with ⟨n, done, w, hw, hprefix⟩ | ⟨l, hl, he⟩ | hover
  · exact absurd (List.IsPrefix.subset hprefix hf) hw.notMem_finished
  · rw [he, List.mem_append] at hf
    rcases hf with hf | hf
    · exact absurd hf hl.notMem_finished
    · cases List.mem_singleton.mp hf
  · exact hover

omit [DecidableEq T] in
theorem Holds.stream_eq_false (h : Holds stream s D C r) : ∀ j, j + 1 < s.invocations → stream j = false := by
  have hrun : ∀ {n : ℕ} {l : List Event}, Trace stream n false l → s.invocations = n + 1 →
      ∀ j, j + 1 < s.invocations → stream j = false :=
    fun htrace hn j hj => htrace.stream_eq_false_of_false j (by omega)
  have hracing : ∀ {n : ℕ} {returned called delivered : Bool}, Racing stream s n returned called delivered →
      ∀ j, j + 1 < s.invocations → stream j = false := by
    rintro n returned called delivered ⟨hn, -, l, race, htrace, -⟩
    exact hrun htrace hn
  cases h with
  | reset d hcalled htrace => exact htrace.stream_eq_false
  | testDone d hi htrace => exact htrace.stream_eq_false
  | setValue d hi htrace => exact htrace.stream_eq_false
  | storeStarting d hi htrace => exact htrace.stream_eq_false
  | emplace d hstate hi htrace => exact htrace.stream_eq_false
  | start d hstate hn hi htrace => exact hrun htrace hn
  | absent hD h => exact hracing h
  | storing c hD h => exact hracing h
  | exchanging c hD h => exact hracing h
  | delivered hD hsome h => exact hracing h
  | «over» hi htrace => exact htrace.stream_eq_false

/-- Some thread can act until the receiver is called. -/
theorem Holds.exists_step [Inhabited T] (hstack : s.stack = frames D C) (h : Holds stream s D C r) :
    Event.finished ∈ s.events ∨ ∃ t, Step stream s t := by
  have hdriver : ∀ {d : T} {pc : RunPc}, D = some (d, pc) → C = none → s.stack d = Frame.run pc :: [] := by
    rintro d pc rfl rfl
    rw [hstack, frames, runFrames, if_pos rfl]
    rfl
  have hcompleter : ∀ {c : T} {n : ℕ} {pc : CompletePc}, C = some (c, n, pc) →
      s.stack c = Frame.complete n pc :: runFrames D c := by
    rintro c n pc rfl
    rw [hstack, frames, completeFrames, if_pos rfl]
    rfl
  cases h with
  | reset d => exact Or.inr ⟨_, Step.reset (hdriver rfl rfl)⟩
  | testDone d => exact Or.inr ⟨_, Step.testDone (hdriver rfl rfl)⟩
  | setValue d => exact Or.inr ⟨_, Step.setValue (hdriver rfl rfl)⟩
  | storeStarting d => exact Or.inr ⟨_, Step.storeStarting (hdriver rfl rfl)⟩
  | emplace d => exact Or.inr ⟨_, Step.emplace (hdriver rfl rfl)⟩
  | start d hstate hn hi => exact Or.inr ⟨_, Step.start (hdriver rfl rfl) hi⟩
  | absent hD h =>
    cases hD with
    | starting d => exact Or.inr ⟨_, Step.startReturned (hdriver rfl rfl) h.iteration⟩
    | exchange d => exact Or.inr ⟨_, Step.exchangeWaiting (hdriver rfl rfl)⟩
    | left =>
      have hempty : s.stack default = [] := by rw [hstack]; rfl
      exact Or.inr ⟨_, Step.setValueChild (Or.inl hempty) h.iteration rfl rfl⟩
  | storing c => exact Or.inr ⟨_, Step.storeDone (hcompleter rfl)⟩
  | exchanging c => exact Or.inr ⟨_, Step.exchangeCompleted (hcompleter rfl)⟩
  | delivered hD hsome h =>
    cases hD with
    | starting d => exact Or.inr ⟨_, Step.startReturned (hdriver rfl rfl) h.iteration⟩
    | exchange d => exact Or.inr ⟨_, Step.exchangeWaiting (hdriver rfl rfl)⟩
    | left => exact absurd rfl hsome
  | «over» hi htrace he => exact Or.inl (by rw [he]; simp)

theorem Inv.exists_step [Inhabited T] (h : Inv stream s r) : Event.finished ∈ s.events ∨ ∃ t, Step stream s t := by
  cases h with
  | idle hb hstack => exact Or.inr ⟨_, @Step.begin _ _ _ _ default hb (by rw [hstack]; rfl)⟩
  | running hb D C hstack h => exact h.exists_step hstack

/-- With an iteration that completes with `true`, every run ends, and it ends with the receiver called. -/
theorem Inv.ends [Inhabited T] (h : Inv stream s r) {k : ℕ} (hk : stream k = true) :
    (system stream).Ends s fun t => Event.finished ∈ t.events := by
  refine StepSystem.ends_of_variant (I := fun s m => ∃ r, Inv stream s r ∧ m = 20 * (k + 1 - s.invocations) + r)
    (fun s m hs t hst => ?_) (fun s m hs hterm => ?_) ⟨r, h, rfl⟩
  · obtain ⟨r, hinv, rfl⟩ := hs
    obtain ⟨r', hinv', hcloser⟩ := hinv.step hst
    refine ⟨_, ?_, r', hinv', rfl⟩
    rcases hcloser with ⟨hn, hlt⟩ | ⟨hn, hle, hfalse⟩
    · rw [hn]
      omega
    · -- the iteration that completes with `true` is still to come
      have hle' : s.invocations ≤ k := by
        by_contra hlt
        rw [hfalse k (by omega)] at hk
        cases hk
      omega
  · obtain ⟨r, hinv, -⟩ := hs
    rcases hinv.exists_step with hf | ⟨t, hst⟩
    · exact hf
    · exact absurd hst (hterm t)

/-- The operation drives one iteration at a time. -/
structure OneAtATime (stream : ℕ → Bool) (s : Operation T) : Prop where
  /-- An iteration begins after the child of the one before is destroyed, which happens after its
  `start()` returned and its completion was delivered; and `m_done` is read after that, once, as what
  that child completed with. -/
  trace : ∃ w, Whole stream w ∧ s.events <+: w
  /-- Two threads are never in `run()`. -/
  driver : ∀ t t', (∃ f ∈ s.stack t, f.isRun = true) → (∃ f ∈ s.stack t', f.isRun = true) → t = t'
  /-- And `run()` is never re-entered. -/
  noReentry : ∀ t, (s.stack t).countP Frame.isRun ≤ 1
  /-- An iteration that completes with `true` is the last. -/
  last : ∀ j, j + 1 < s.invocations → stream j = false
  /-- The receiver is called once, right after the first iteration that completes with `true`; and then
  no thread is in the operation any more. -/
  finished : Event.finished ∈ s.events → ∃ k, stream k = true ∧ (∀ j < k, stream j = false) ∧ s.invocations = k + 1 ∧
    s.events.count Event.finished = 1 ∧ (∃ l, s.events = l ++ [Event.destroyed k, Event.tested true, Event.finished]) ∧
    s.iteration = none ∧ ∀ t, s.stack t = []

theorem Holds.oneAtATime (hstack : s.stack = frames D C) (h : Holds stream s D C r) : OneAtATime stream s := by
  have hcomplete : ∀ t, ∀ f ∈ completeFrames C t, ¬ f.isRun = true := by
    intro t f hf
    obtain _ | ⟨c, n, pc⟩ := C
    · cases hf
    · rw [completeFrames] at hf
      split at hf
      · rw [List.mem_singleton.mp hf]
        exact nofun
      · cases hf
  have hrun : ∀ t, (∃ f ∈ s.stack t, f.isRun = true) → ∃ pc, D = some (t, pc) := by
    rintro t ⟨f, hf, hfr⟩
    rw [hstack, frames, List.mem_append] at hf
    rcases hf with hf | hf
    · exact absurd hfr (hcomplete t f hf)
    · obtain _ | ⟨d, pc⟩ := D
      · cases hf
      · rw [runFrames] at hf
        split at hf
        · next heq => exact ⟨pc, by rw [heq]⟩
        · cases hf
  refine ⟨h.exists_whole, fun t t' ht ht' => ?_, fun t => ?_, h.stream_eq_false, fun hf => ?_⟩
  · obtain ⟨pc, hD⟩ := hrun t ht
    obtain ⟨pc', hD'⟩ := hrun t' ht'
    exact (Prod.mk.inj (Option.some.inj (hD.symm.trans hD'))).1
  · rw [hstack, frames, List.countP_append, List.countP_eq_zero.mpr (hcomplete t), Nat.zero_add]
    refine List.countP_le_length.trans ?_
    obtain _ | ⟨d, pc⟩ := D
    · exact Nat.zero_le 1
    · rw [runFrames]
      split
      · exact le_rfl
      · exact Nat.zero_le 1
  · obtain ⟨rfl, rfl, hi, l, htrace, he⟩ := h.finished hf
    obtain ⟨k, hn, hk, hfirst⟩ := htrace.first_true
    refine ⟨k, hk, hfirst, hn, ?_, ?_, hi, fun t => by rw [hstack]; rfl⟩
    · rw [he, List.count_append, List.count_eq_zero_of_not_mem htrace.notMem_finished]
      rfl
    · obtain ⟨l', rfl⟩ := htrace.exists_destroyed hn
      exact ⟨l', by rw [he, List.append_assoc]; rfl⟩

/-- **`repeatUntil` drives one iteration at a time**, for every stream of iteration results, on whatever
threads the iterations complete and however the steps of the threads interleave.  If an iteration
completes with `true`, every run ends with the receiver called; otherwise it is never called, and there
is always a next step. -/
theorem repeatUntil_one_at_a_time [Inhabited T] (stream : ℕ → Bool) (s : Operation T)
    (h : (system stream).Reachable s) :
    OneAtATime stream s ∧
      ((∃ k, stream k = true) → (system stream).Ends s fun t => Event.finished ∈ t.events) ∧
      ((∀ k, stream k = false) → Event.finished ∉ s.events ∧ ¬ (system stream).Terminal s) := by
  obtain ⟨r, hinv⟩ := inv_of_reachable h
  have hone : OneAtATime stream s := by
    cases hinv with
    | idle hb hstack hd hi hn he =>
      have hempty : ∀ t, s.stack t = [] := fun t => congrFun hstack t
      refine ⟨⟨[], Whole.running Trace.zero, he ▸ List.nil_prefix⟩, fun t t' ht => ?_, fun t => ?_, fun j hj => ?_, fun hf => ?_⟩
      · obtain ⟨f, hf, -⟩ := ht
        rw [hempty] at hf
        cases hf
      · rw [hempty]
        exact Nat.zero_le 1
      · omega
      · rw [he] at hf
        cases hf
    | running hb D C hstack h => exact h.oneAtATime hstack
  refine ⟨hone, fun ⟨k, hk⟩ => hinv.ends hk, fun hfalse => ?_⟩
  have hnot : Event.finished ∉ s.events := by
    intro hf
    obtain ⟨k, hk, -⟩ := hone.finished hf
    rw [hfalse k] at hk
    cases hk
  refine ⟨hnot, fun hterm => ?_⟩
  rcases hinv.exists_step with hf | ⟨t, hst⟩
  · exact hnot hf
  · exact hterm t hst

/-- With three iterations, from the constructed operation. -/
theorem repeatUntil_one_at_a_time_initial :
    (@system ℕ _ fun k => decide (k = 2)).Ends Operation.initial fun t => Event.finished ∈ t.events :=
  (repeatUntil_one_at_a_time _ _ (StepSystem.Reachable.init rfl)).2.1 ⟨2, rfl⟩

end Runs

end RepeatUntil
end Caravan
end Spearhed
