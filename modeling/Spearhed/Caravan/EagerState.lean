import Mathlib.Tactic
import Spearhed.Library.Placement
import Spearhed.Library.StepSystem

/-!
# Event continuations

A `State` collects continuations until it is completed; whoever completes it takes them out under the
lock and dispatches them after it, and a continuation that comes later is dispatched by its subscriber.
`dispatch` puts a continuation into a queue of the thread, linked through the tasks' own `next` pointers,
and only the outermost call on a thread runs them.  Continuations are arbitrary code that may subscribe
to and complete any states again; those that the library subscribes do not throw.

The stack of a thread is a list of frames, with the innermost call first.  All states share the queue of
a thread, so there is a state object for each element of a type.

* `Located.step`: every continuation is in one place (`Library.Placed`).
* `Shaped.step`: the stacks a thread can have.
-/

namespace Spearhed
namespace Caravan
namespace Eager

open Library

variable {T σ V : Type}

/-- A call that a thread is in, with what it does next. -/
inductive Frame (σ V : Type)
  /-- At the lock of `subscribe`. -/
  | subscribe (x : σ) (task : ℕ)
  /-- At the lock of `complete`. -/
  | complete (x : σ) (v : V)
  /-- In the loop of `complete`, with the continuations that are left. -/
  | dispatchAll (continuations : List ℕ)
  /-- At the entry of `dispatch`. -/
  | dispatch (task : ℕ)
  /-- At the loop head of the outermost `dispatch`. -/
  | drain
  /-- In a continuation. -/
  | function (task : ℕ)

/-- `DispatchQueue`. -/
structure DispatchQueue where
  running : Bool
  head : Option ℕ
  tail : Option ℕ

/-- `State`, with the value of a `FutureState`. -/
structure StateObject (V : Type) where
  /-- `m_completion` is `ready`. -/
  ready : Bool
  value : Option V
  /-- `m_continuations`. -/
  continuations : List ℕ
  /-- How many calls of `complete` returned `true`. -/
  succeeded : ℕ

/-- All threads and states. -/
structure Runtime (T σ V : Type) where
  states : σ → StateObject V
  /-- The states that were subscribed to, in order; a default `Event` has none.  A continuation is named
  by its position here. -/
  subscriptions : List (Option σ)
  /-- `task->next`. -/
  next : ℕ → Option ℕ
  queue : T → DispatchQueue
  stack : T → List (Frame σ V)
  /-- The continuations that were dispatched on a thread, in order. -/
  dispatched : T → List ℕ
  /-- The continuations that were called on a thread, in order. -/
  called : T → List ℕ

namespace Runtime

/-- Nothing has happened. -/
def initial : Runtime T σ V where
  states := fun _ => ⟨false, none, [], 0⟩
  subscriptions := []
  next := fun _ => none
  queue := fun _ => ⟨false, none, none⟩
  stack := fun _ => []
  dispatched := fun _ => []
  called := fun _ => []

open Function (update)

variable [DecidableEq T] [DecidableEq σ]

/-- The first part of `dispatch`: the task is linked behind the last one. -/
def enqueue (s : Runtime T σ V) (τ : T) (task : ℕ) : Runtime T σ V :=
  match (s.queue τ).tail with
  | some last => { s with
      next := update s.next last (some task)
      queue := update s.queue τ { s.queue τ with tail := some task }
      dispatched := update s.dispatched τ (s.dispatched τ ++ [task]) }
  | none => { s with
      queue := update s.queue τ { s.queue τ with head := some task, tail := some task }
      dispatched := update s.dispatched τ (s.dispatched τ ++ [task]) }

/-- A call of a thread moves on. -/
def setStack (s : Runtime T σ V) (τ : T) (frames : List (Frame σ V)) : Runtime T σ V :=
  { s with stack := update s.stack τ frames }

/-- A state changes. -/
def setState (s : Runtime T σ V) (x : σ) (o : StateObject V) : Runtime T σ V :=
  { s with states := update s.states x o }

/-- The first task is taken out of the queue. -/
def pop (s : Runtime T σ V) (τ : T) (task : ℕ) : Runtime T σ V :=
  { s with
    next := update s.next task none
    queue := update s.queue τ { s.queue τ with
      head := s.next task
      tail := if s.next task = none then none else (s.queue τ).tail } }

/-- A call of a continuation, for the record. -/
def record (s : Runtime T σ V) (τ : T) (task : ℕ) : Runtime T σ V :=
  { s with called := update s.called τ (s.called τ ++ [task]) }

/-- `dispatchQueue.running`. -/
def setRunning (s : Runtime T σ V) (τ : T) (running : Bool) : Runtime T σ V :=
  { s with queue := update s.queue τ { s.queue τ with running := running } }

section Queues

omit [DecidableEq σ]

theorem queue_setRunning (s : Runtime T σ V) (τ : T) (running : Bool) :
    (s.setRunning τ running).queue τ = ⟨running, (s.queue τ).head, (s.queue τ).tail⟩ := by
  rw [setRunning]
  exact Function.update_self _ _ _

theorem queue_setRunning_of_ne (s : Runtime T σ V) {τ t : T} (hne : t ≠ τ) (running : Bool) :
    (s.setRunning τ running).queue t = s.queue t := by
  rw [setRunning]
  exact Function.update_of_ne hne _ _

theorem queue_pop (s : Runtime T σ V) (τ : T) (task : ℕ) : (s.pop τ task).queue τ =
    ⟨(s.queue τ).running, s.next task, if s.next task = none then none else (s.queue τ).tail⟩ := by
  rw [pop]
  exact Function.update_self _ _ _

theorem queue_pop_of_ne (s : Runtime T σ V) {τ t : T} (hne : t ≠ τ) (task : ℕ) : (s.pop τ task).queue t = s.queue t := by
  rw [pop]
  exact Function.update_of_ne hne _ _

@[simp] theorem queue_record (s : Runtime T σ V) (τ : T) (task : ℕ) : (s.record τ task).queue = s.queue :=
  rfl

theorem queue_enqueue (s : Runtime T σ V) (τ : T) (task : ℕ) : (s.enqueue τ task).queue τ =
    ⟨(s.queue τ).running, if (s.queue τ).tail = none then some task else (s.queue τ).head, some task⟩ := by
  unfold enqueue
  split
  · next last ht =>
    rw [ht, if_neg (Option.some_ne_none last)]
    exact Function.update_self _ _ _
  · next ht =>
    rw [if_pos ht]
    exact Function.update_self _ _ _

theorem queue_enqueue_of_ne (s : Runtime T σ V) {τ t : T} (hne : t ≠ τ) (task : ℕ) :
    (s.enqueue τ task).queue t = s.queue t := by
  unfold enqueue
  split <;> exact Function.update_of_ne hne _ _

/-- What `enqueue` does apart from the queue. -/
theorem enqueue_eq (s : Runtime T σ V) (τ : T) (task : ℕ) :
    (s.enqueue τ task).states = s.states ∧ (s.enqueue τ task).subscriptions = s.subscriptions ∧
      (s.enqueue τ task).stack = s.stack ∧ (s.enqueue τ task).called = s.called ∧
      (s.enqueue τ task).dispatched = update s.dispatched τ (s.dispatched τ ++ [task]) := by
  unfold enqueue
  split <;> exact ⟨rfl, rfl, rfl, rfl, rfl⟩

theorem next_enqueue_some (s : Runtime T σ V) {τ : T} {last : ℕ} (ht : (s.queue τ).tail = some last) (task : ℕ) :
    (s.enqueue τ task).next = update s.next last (some task) := by
  unfold enqueue
  simp only [ht]

theorem next_enqueue_none (s : Runtime T σ V) {τ : T} (ht : (s.queue τ).tail = none) (task : ℕ) :
    (s.enqueue τ task).next = s.next := by
  unfold enqueue
  simp only [ht]

end Queues

end Runtime

open Spearhed.Caravan.Eager.Runtime

/-- Where a thread may call anything: outside of all calls, and in a continuation. -/
inductive Free : List (Frame σ V) → Prop
  | outside : Free []
  | function {task : ℕ} {rest : List (Frame σ V)} : Free (Frame.function task :: rest)

variable [DecidableEq T] [DecidableEq σ]

/-- One step of a thread. -/
inductive Step : Runtime T σ V → Runtime T σ V → Prop
  | callSubscribe {s : Runtime T σ V} {τ : T} (x : σ) (hτ : Free (s.stack τ)) :
      Step s { s.setStack τ (Frame.subscribe x s.subscriptions.length :: s.stack τ) with
        subscriptions := s.subscriptions ++ [some x] }
  | callSubscribeReady {s : Runtime T σ V} {τ : T} (hτ : Free (s.stack τ)) :
      Step s { s.setStack τ (Frame.dispatch s.subscriptions.length :: s.stack τ) with
        subscriptions := s.subscriptions ++ [none] }
  | callComplete {s : Runtime T σ V} {τ : T} (x : σ) (v : V) (hτ : Free (s.stack τ)) :
      Step s (s.setStack τ (Frame.complete x v :: s.stack τ))
  -- `subscribe`
  | subscribePending {s : Runtime T σ V} {τ : T} {x : σ} {task : ℕ} {rest : List (Frame σ V)}
      (hτ : s.stack τ = Frame.subscribe x task :: rest) (hx : (s.states x).ready = false) :
      Step s ((s.setStack τ rest).setState x
        { s.states x with continuations := (s.states x).continuations ++ [task] })
  | subscribeReady {s : Runtime T σ V} {τ : T} {x : σ} {task : ℕ} {rest : List (Frame σ V)}
      (hτ : s.stack τ = Frame.subscribe x task :: rest) (hx : (s.states x).ready = true) :
      Step s (s.setStack τ (Frame.dispatch task :: rest))
  -- `complete`
  | completePending {s : Runtime T σ V} {τ : T} {x : σ} {v : V} {rest : List (Frame σ V)}
      (hτ : s.stack τ = Frame.complete x v :: rest) (hx : (s.states x).ready = false) :
      Step s ((s.setStack τ (Frame.dispatchAll (s.states x).continuations :: rest)).setState x
        { ready := true, value := some v, continuations := [], succeeded := (s.states x).succeeded + 1 })
  | completeReady {s : Runtime T σ V} {τ : T} {x : σ} {v : V} {rest : List (Frame σ V)}
      (hτ : s.stack τ = Frame.complete x v :: rest) (hx : (s.states x).ready = true) :
      Step s (s.setStack τ rest)
  | dispatchNext {s : Runtime T σ V} {τ : T} {task : ℕ} {continuations : List ℕ} {rest : List (Frame σ V)}
      (hτ : s.stack τ = Frame.dispatchAll (task :: continuations) :: rest) :
      Step s (s.setStack τ (Frame.dispatch task :: Frame.dispatchAll continuations :: rest))
  | completeReturn {s : Runtime T σ V} {τ : T} {rest : List (Frame σ V)} (hτ : s.stack τ = Frame.dispatchAll [] :: rest) :
      Step s (s.setStack τ rest)
  -- `dispatch`
  | dispatchNested {s : Runtime T σ V} {τ : T} {task : ℕ} {rest : List (Frame σ V)}
      (hτ : s.stack τ = Frame.dispatch task :: rest) (hr : (s.queue τ).running = true) :
      Step s ((s.setStack τ rest).enqueue τ task)
  | dispatchOutermost {s : Runtime T σ V} {τ : T} {task : ℕ} {rest : List (Frame σ V)}
      (hτ : s.stack τ = Frame.dispatch task :: rest) (hr : (s.queue τ).running = false) :
      Step s (((s.setStack τ (Frame.drain :: rest)).enqueue τ task).setRunning τ true)
  | call {s : Runtime T σ V} {τ : T} {task : ℕ} {rest : List (Frame σ V)} (hτ : s.stack τ = Frame.drain :: rest)
      (hh : (s.queue τ).head = some task) :
      Step s (((s.setStack τ (Frame.function task :: Frame.drain :: rest)).pop τ task).record τ task)
  | functionReturn {s : Runtime T σ V} {τ : T} {task : ℕ} {rest : List (Frame σ V)}
      (hτ : s.stack τ = Frame.function task :: rest) : Step s (s.setStack τ rest)
  | drained {s : Runtime T σ V} {τ : T} {rest : List (Frame σ V)} (hτ : s.stack τ = Frame.drain :: rest)
      (hh : (s.queue τ).head = none) : Step s ((s.setStack τ rest).setRunning τ false)

/-- All runs. -/
def system (T σ V : Type) [DecidableEq T] [DecidableEq σ] : StepSystem (Runtime T σ V) where
  init := fun s => s = Runtime.initial
  step := Step

/-! ## Where the continuations are -/

/-- The continuation that a call is about to register. -/
def Frame.subscribing : Frame σ V → List ℕ
  | subscribe _ task => [task]
  | _ => []

/-- The continuations that a call is about to dispatch. -/
def Frame.held : Frame σ V → List ℕ
  | dispatchAll continuations => continuations
  | dispatch task => [task]
  | _ => []

/-- Where a continuation can be. -/
inductive Place (T σ : Type)
  | subscribing (t : T)
  | registered (x : σ)
  | held (t : T)
  | dispatched (t : T)

/-- The continuations at each place. -/
def Runtime.contents (s : Runtime T σ V) : Place T σ → List ℕ
  | Place.subscribing t => (s.stack t).flatMap Frame.subscribing
  | Place.registered x => (s.states x).continuations
  | Place.held t => (s.stack t).flatMap Frame.held
  | Place.dispatched t => s.dispatched t

/-- Every continuation is in one place, and the states are completed where they have to be. -/
structure Located (s : Runtime T σ V) (place : ℕ → Option (Place T σ)) : Prop where
  placed : Placed s.contents place
  bound : ∀ k, place k = none ↔ s.subscriptions.length ≤ k
  target : ∀ t x k, Frame.subscribe x k ∈ s.stack t → s.subscriptions[k]? = some (some x)
  registered : ∀ x, ∀ k ∈ (s.states x).continuations, s.subscriptions[k]? = some (some x)
  held : ∀ t, ∀ k ∈ (s.stack t).flatMap Frame.held, ∀ x, s.subscriptions[k]? = some (some x) → (s.states x).ready = true
  dispatched : ∀ t, ∀ k ∈ s.dispatched t, ∀ x, s.subscriptions[k]? = some (some x) → (s.states x).ready = true
  pending : ∀ x, (s.states x).ready = true → (s.states x).continuations = []
  succeeded : ∀ x, (s.states x).succeeded = if (s.states x).ready then 1 else 0

namespace Located

variable {s t : Runtime T σ V} {place : ℕ → Option (Place T σ)} {τ : T}

omit [DecidableEq T] [DecidableEq σ] in
theorem initial : Located (Runtime.initial : Runtime T σ V) fun _ => none := by
  refine ⟨⟨fun c => ?_, fun c a => ?_⟩, fun k => iff_of_true rfl (Nat.zero_le k), nofun, nofun, nofun, nofun, nofun,
    fun _ => rfl⟩
  · cases c <;> exact List.nodup_nil
  · cases c <;> exact iff_of_false List.not_mem_nil nofun

omit [DecidableEq T] [DecidableEq σ] in
/-- The pointers do not matter. -/
theorem congr (h : Located s place) (hstates : t.states = s.states) (hsubscriptions : t.subscriptions = s.subscriptions)
    (hstack : t.stack = s.stack) (hdispatched : t.dispatched = s.dispatched) : Located t place := by
  have hcontents : t.contents = s.contents := by
    funext c
    cases c <;> simp only [Runtime.contents, hstates, hstack, hdispatched]
  obtain ⟨h1, h2, h3, h4, h5, h6, h7, h8⟩ := h
  exact ⟨hcontents ▸ h1, by rwa [hsubscriptions], by rwa [hstack, hsubscriptions], by rwa [hstates, hsubscriptions],
    by rwa [hstack, hsubscriptions, hstates], by rwa [hdispatched, hsubscriptions, hstates], by rwa [hstates],
    by rwa [hstates]⟩

omit [DecidableEq σ] in
theorem stack_setStack (s : Runtime T σ V) (τ : T) (frames : List (Frame σ V)) :
    (s.setStack τ frames).stack τ = frames := Function.update_self _ _ _

omit [DecidableEq σ] in
theorem stack_setStack_of_ne (s : Runtime T σ V) {τ t : T} (hne : t ≠ τ) (frames : List (Frame σ V)) :
    (s.setStack τ frames).stack t = s.stack t := Function.update_of_ne hne _ _

omit [DecidableEq σ] in
/-- A call moves on without handing anything over. -/
theorem setStack (h : Located s place) {frames : List (Frame σ V)}
    (hsubscribing : frames.flatMap Frame.subscribing = (s.stack τ).flatMap Frame.subscribing)
    (hheld : frames.flatMap Frame.held = (s.stack τ).flatMap Frame.held)
    (htarget : ∀ x k, Frame.subscribe x k ∈ frames → Frame.subscribe x k ∈ s.stack τ) :
    Located (s.setStack τ frames) place := by
  have hcontents : (s.setStack τ frames).contents = s.contents := by
    funext c
    cases c with
    | subscribing t =>
      rcases eq_or_ne t τ with rfl | hne
      · rw [Runtime.contents, Runtime.contents, stack_setStack, hsubscribing]
      · rw [Runtime.contents, Runtime.contents, stack_setStack_of_ne s hne]
    | held t =>
      rcases eq_or_ne t τ with rfl | hne
      · rw [Runtime.contents, Runtime.contents, stack_setStack, hheld]
      · rw [Runtime.contents, Runtime.contents, stack_setStack_of_ne s hne]
    | registered x => rfl
    | dispatched t => rfl
  obtain ⟨h1, h2, h3, h4, h5, h6, h7, h8⟩ := h
  refine ⟨hcontents ▸ h1, h2, fun t x k hk => ?_, h4, fun t k hk => ?_, h6, h7, h8⟩
  · rcases eq_or_ne t τ with rfl | hne
    · rw [stack_setStack] at hk
      exact h3 t x k (htarget x k hk)
    · rw [stack_setStack_of_ne s hne] at hk
      exact h3 t x k hk
  · rcases eq_or_ne t τ with rfl | hne
    · rw [stack_setStack, hheld] at hk
      exact h5 t k hk
    · rw [stack_setStack_of_ne s hne] at hk
      exact h5 t k hk

omit [DecidableEq σ] in
theorem contents_setStack_of_ne (s : Runtime T σ V) (frames : List (Frame σ V)) {c : Place T σ}
    (hs : c ≠ Place.subscribing τ) (hh : c ≠ Place.held τ) : (s.setStack τ frames).contents c = s.contents c := by
  cases c with
  | subscribing t => rw [Runtime.contents, Runtime.contents, stack_setStack_of_ne s fun heq => hs (by rw [heq])]
  | held t => rw [Runtime.contents, Runtime.contents, stack_setStack_of_ne s fun heq => hh (by rw [heq])]
  | registered x => rfl
  | dispatched t => rfl

omit [DecidableEq σ] in
theorem contents_setStack_subscribing (s : Runtime T σ V) (frames : List (Frame σ V)) :
    (s.setStack τ frames).contents (Place.subscribing τ) = frames.flatMap Frame.subscribing := by
  rw [Runtime.contents, stack_setStack]

omit [DecidableEq σ] in
theorem contents_setStack_held (s : Runtime T σ V) (frames : List (Frame σ V)) :
    (s.setStack τ frames).contents (Place.held τ) = frames.flatMap Frame.held := by
  rw [Runtime.contents, stack_setStack]

omit [DecidableEq T] [DecidableEq σ] in
/-- What is somewhere was subscribed. -/
theorem lt_of_mem (h : Located s place) {c : Place T σ} {k : ℕ} (hk : k ∈ s.contents c) : k < s.subscriptions.length := by
  by_contra hge
  rw [h.placed.mem, (h.bound k).mpr (Nat.le_of_not_lt hge)] at hk
  cases hk

omit [DecidableEq T] [DecidableEq σ] in
theorem bound_update (h : Located s place) (target : Option σ) (c : Place T σ) (k : ℕ) :
    Function.update place s.subscriptions.length (some c) k = none ↔ (s.subscriptions ++ [target]).length ≤ k := by
  rw [List.length_append, List.length_singleton]
  rcases eq_or_ne k s.subscriptions.length with rfl | hne
  · rw [Function.update_self]
    exact iff_of_false nofun (by omega)
  · rw [Function.update_of_ne hne, h.bound]
    omega

omit [DecidableEq σ] in
/-- A new continuation arrives in a call. -/
theorem arrive (h : Located s place) {f : Frame σ V} {target : Option σ} {c : Place T σ}
    (hto : ((s.setStack τ (f :: s.stack τ)).contents c).Perm (s.subscriptions.length :: s.contents c))
    (hother : ∀ d, d ≠ c → (s.setStack τ (f :: s.stack τ)).contents d = s.contents d)
    (hf : ∀ x k, f = Frame.subscribe x k → k = s.subscriptions.length ∧ target = some x)
    (hheld : ∀ k ∈ f.held, k = s.subscriptions.length ∧ target = none) : ∃ place', Located
    { s.setStack τ (f :: s.stack τ) with subscriptions := s.subscriptions ++ [target] } place' := by
  have hnew : (s.subscriptions ++ [target])[s.subscriptions.length]? = some target := List.getElem?_concat_length
  have hmono : ∀ {k : ℕ} {y : Option σ}, s.subscriptions[k]? = some y → (s.subscriptions ++ [target])[k]? = some y :=
    fun hk => by rw [List.getElem?_append_left (List.getElem?_eq_some_iff.mp hk).1, hk]
  have hold : ∀ {c : Place T σ} {k : ℕ}, k ∈ s.contents c → (s.subscriptions ++ [target])[k]? = s.subscriptions[k]? :=
    fun hk => List.getElem?_append_left (h.lt_of_mem hk)
  have hplaced := h.placed.add ((h.bound s.subscriptions.length).mpr le_rfl) hto hother
  have hstack : ∀ {t : T} {frame : Frame σ V}, frame ∈ (s.setStack τ (f :: s.stack τ)).stack t →
      frame = f ∨ frame ∈ s.stack t := by
    intro t frame hframe
    rcases eq_or_ne t τ with rfl | hne
    · rw [stack_setStack] at hframe
      exact List.mem_cons.mp hframe
    · rw [stack_setStack_of_ne s hne] at hframe
      exact Or.inr hframe
  refine ⟨_, hplaced, h.bound_update _ _, fun t y k hk => ?_, fun y k hk => hmono (h.registered y k hk),
    fun t k hk y hy => ?_, fun t k hk y hy => ?_, h.pending, h.succeeded⟩
  · rcases hstack hk with hk | hk
    · obtain ⟨rfl, rfl⟩ := hf y k hk.symm
      exact hnew
    · exact hmono (h.target t y k hk)
  · obtain ⟨frame, hframe, hkf⟩ := List.mem_flatMap.mp hk
    rcases hstack hframe with heq | hframe
    · obtain ⟨rfl, rfl⟩ := hheld k (heq ▸ hkf)
      cases hnew.symm.trans hy
    · have hk' : k ∈ s.contents (Place.held t) := List.mem_flatMap.mpr ⟨frame, hframe, hkf⟩
      exact h.held t k hk' y ((hold hk').symm.trans hy)
  · have hk' : k ∈ s.contents (Place.dispatched t) := hk
    exact h.dispatched t k hk y ((hold hk').symm.trans hy)

omit [DecidableEq σ] in
theorem callSubscribe (h : Located s place) (x : σ) : ∃ place', Located
    { s.setStack τ (Frame.subscribe x s.subscriptions.length :: s.stack τ) with
      subscriptions := s.subscriptions ++ [some x] } place' := by
  refine h.arrive (c := Place.subscribing τ) ?_ (fun d hd => ?_) (fun y k hf => ?_) nofun
  · rw [contents_setStack_subscribing]
    exact List.Perm.refl _
  · by_cases hheld : d = Place.held τ
    · rw [hheld, contents_setStack_held]
      rfl
    · exact contents_setStack_of_ne s _ hd hheld
  · obtain ⟨rfl, rfl⟩ := Frame.subscribe.inj hf
    exact ⟨rfl, rfl⟩

omit [DecidableEq σ] in
theorem callSubscribeReady (h : Located s place) : ∃ place', Located
    { s.setStack τ (Frame.dispatch s.subscriptions.length :: s.stack τ) with
      subscriptions := s.subscriptions ++ [none] } place' := by
  refine h.arrive (c := Place.held τ) ?_ (fun d hd => ?_) nofun fun k hk => ⟨List.mem_singleton.mp hk, rfl⟩
  · rw [contents_setStack_held]
    exact List.Perm.refl _
  · by_cases hsub : d = Place.subscribing τ
    · rw [hsub, contents_setStack_subscribing]
      rfl
    · exact contents_setStack_of_ne s _ hsub hd

omit [DecidableEq T] [DecidableEq σ] in
/-- Continuations are handed from one place to another. -/
theorem handover (h : Located s place) (c c' : Place T σ) (l : List ℕ) (hne : c ≠ c')
    (hfrom : (s.contents c).Perm (l ++ t.contents c)) (hto : (t.contents c').Perm (l ++ s.contents c'))
    (hother : ∀ d, d ≠ c → d ≠ c' → t.contents d = s.contents d) (hsubscriptions : t.subscriptions = s.subscriptions)
    (htarget : ∀ t' x k, Frame.subscribe x k ∈ t.stack t' → Frame.subscribe x k ∈ s.stack t')
    (hready : ∀ x, (s.states x).ready = true → (t.states x).ready = true)
    (hregistered : ∀ x, c' = Place.registered x → ∀ k ∈ l, s.subscriptions[k]? = some (some x))
    (hl : (∀ x, c' ≠ Place.registered x) → ∀ k ∈ l, ∀ x, s.subscriptions[k]? = some (some x) → (t.states x).ready = true)
    (hpending : ∀ x, (t.states x).ready = true → (t.states x).continuations = [])
    (hsucceeded : ∀ x, (t.states x).succeeded = if (t.states x).ready then 1 else 0) : ∃ place', Located t place' := by
  have hin : ∀ d k, k ∈ t.contents d → (d = c' ∧ k ∈ l) ∨ k ∈ s.contents d := by
    intro d k hk
    by_cases hc : d = c
    · rw [hc] at hk ⊢
      exact Or.inr (hfrom.mem_iff.mpr (List.mem_append_right _ hk))
    · by_cases hc' : d = c'
      · rw [hc'] at hk ⊢
        exact (List.mem_append.mp (hto.mem_iff.mp hk)).imp_left fun hl => ⟨rfl, hl⟩
      · exact Or.inr (hother d hc hc' ▸ hk)
  refine ⟨_, h.placed.move hne hfrom hto hother, fun k => ?_, fun t' x k hk => ?_, fun x k hk => ?_,
    fun t' k hk x hx => ?_, fun t' k hk x hx => ?_, hpending, hsucceeded⟩
  · rw [hsubscriptions]
    by_cases hk : k ∈ l
    · have hlt := h.lt_of_mem (hfrom.mem_iff.mpr (List.mem_append_left _ hk))
      rw [if_pos hk]
      exact iff_of_false nofun (by omega)
    · rw [if_neg hk, h.bound]
  · rw [hsubscriptions]
    exact h.target t' x k (htarget t' x k hk)
  · rw [hsubscriptions]
    rcases hin (Place.registered x) k hk with ⟨hc', hk⟩ | hk
    · exact hregistered x hc'.symm k hk
    · exact h.registered x k hk
  · rw [hsubscriptions] at hx
    rcases hin (Place.held t') k hk with ⟨hc', hk⟩ | hk
    · exact hl (fun y => hc' ▸ nofun) k hk x hx
    · exact hready x (h.held t' k hk x hx)
  · rw [hsubscriptions] at hx
    rcases hin (Place.dispatched t') k hk with ⟨hc', hk⟩ | hk
    · exact hl (fun y => hc' ▸ nofun) k hk x hx
    · exact hready x (h.dispatched t' k hk x hx)

omit [DecidableEq T] in
theorem states_setState (s : Runtime T σ V) (x : σ) (o : StateObject V) : (s.setState x o).states x = o :=
  Function.update_self _ _ _

omit [DecidableEq T] in
theorem states_setState_of_ne (s : Runtime T σ V) {x y : σ} (hne : y ≠ x) (o : StateObject V) :
    (s.setState x o).states y = s.states y := Function.update_of_ne hne _ _

omit [DecidableEq T] in
/-- The continuations at a place after a state has changed. -/
theorem contents_setState_of_ne (s : Runtime T σ V) (o : StateObject V) {x : σ} {c : Place T σ}
    (hc : c ≠ Place.registered x) : (s.setState x o).contents c = s.contents c := by
  cases c with
  | registered y =>
    have hne : y ≠ x := fun heq => hc (by rw [heq])
    rw [Runtime.contents, Runtime.contents, states_setState_of_ne s hne]
  | subscribing t => rfl
  | held t => rfl
  | dispatched t => rfl

omit [DecidableEq σ] in
/-- A call that is replaced leaves the other calls as they are. -/
theorem mem_stack_of_setStack {frames rest : List (Frame σ V)} {f : Frame σ V} (hτ : s.stack τ = f :: rest)
    (hframes : ∀ x k, Frame.subscribe x k ∈ frames → Frame.subscribe x k ∈ rest) :
    ∀ t x k, Frame.subscribe x k ∈ (s.setStack τ frames).stack t → Frame.subscribe x k ∈ s.stack t := by
  intro t x k hk
  rcases eq_or_ne t τ with rfl | hne
  · rw [stack_setStack] at hk
    rw [hτ]
    exact List.mem_cons_of_mem _ (hframes x k hk)
  · rwa [stack_setStack_of_ne s hne] at hk

/-- A continuation is registered with a pending state. -/
theorem subscribePending (h : Located s place) {x : σ} {task : ℕ} {rest : List (Frame σ V)}
    (hτ : s.stack τ = Frame.subscribe x task :: rest) (hx : (s.states x).ready = false) : ∃ place', Located
    ((s.setStack τ rest).setState x { s.states x with continuations := (s.states x).continuations ++ [task] }) place' := by
  have hsub : s.contents (Place.subscribing τ) = task :: rest.flatMap Frame.subscribing := by
    rw [Runtime.contents, hτ]
    rfl
  have hheld : s.contents (Place.held τ) = rest.flatMap Frame.held := by
    rw [Runtime.contents, hτ]
    rfl
  have htask : s.subscriptions[task]? = some (some x) := h.target τ x task (by rw [hτ]; exact List.mem_cons_self)
  have hstates : ∀ y, y ≠ x → ((s.setStack τ rest).setState x
      { s.states x with continuations := (s.states x).continuations ++ [task] }).states y = s.states y :=
    fun y hne => states_setState_of_ne (s.setStack τ rest) hne _
  have hself := states_setState (s.setStack τ rest) x
    { s.states x with continuations := (s.states x).continuations ++ [task] }
  refine h.handover (Place.subscribing τ) (Place.registered x) [task] nofun ?_ ?_ (fun d hd hd' => ?_) rfl
    (mem_stack_of_setStack hτ fun _ _ hk => hk) (fun y hy => ?_) (fun y hc k hk => ?_) (fun hc => absurd rfl (hc x))
    (fun y hy => ?_) fun y => ?_
  · have hne : Place.subscribing τ ≠ Place.registered x := nofun
    rw [contents_setState_of_ne _ _ hne, contents_setStack_subscribing, hsub]
    exact List.Perm.refl _
  · rw [Runtime.contents, hself]
    exact List.perm_append_comm
  · rw [contents_setState_of_ne _ _ hd']
    by_cases hh : d = Place.held τ
    · rw [hh, contents_setStack_held, hheld]
    · exact contents_setStack_of_ne s _ hd hh
  · rcases eq_or_ne y x with rfl | hne
    · rw [hself]
      exact hy
    · rwa [hstates y hne]
  · rw [List.mem_singleton.mp hk, htask]
    cases hc
    rfl
  · rcases eq_or_ne y x with rfl | hne
    · rw [hself] at hy
      exact absurd (hx.symm.trans hy) nofun
    · rw [hstates y hne] at hy ⊢
      exact h.pending y hy
  · rcases eq_or_ne y x with rfl | hne
    · rw [hself]
      exact h.succeeded y
    · rw [hstates y hne]
      exact h.succeeded y

omit [DecidableEq σ] in
/-- A continuation that comes too late to be registered is dispatched by its subscriber. -/
theorem subscribeReady (h : Located s place) {x : σ} {task : ℕ} {rest : List (Frame σ V)}
    (hτ : s.stack τ = Frame.subscribe x task :: rest) (hx : (s.states x).ready = true) :
    ∃ place', Located (s.setStack τ (Frame.dispatch task :: rest)) place' := by
  have hsub : s.contents (Place.subscribing τ) = task :: rest.flatMap Frame.subscribing := by
    rw [Runtime.contents, hτ]
    rfl
  have hheld : s.contents (Place.held τ) = rest.flatMap Frame.held := by
    rw [Runtime.contents, hτ]
    rfl
  have htask : s.subscriptions[task]? = some (some x) := h.target τ x task (by rw [hτ]; exact List.mem_cons_self)
  refine h.handover (Place.subscribing τ) (Place.held τ) [task] nofun ?_ ?_ (fun d hd hd' => ?_) rfl
    (mem_stack_of_setStack hτ fun y k hk => ?_) (fun y hy => hy) (fun y hc => ?_) (fun _ k hk y hy => ?_) h.pending h.succeeded
  · rw [contents_setStack_subscribing, hsub]
    exact List.Perm.refl _
  · rw [contents_setStack_held, hheld]
    exact List.Perm.refl _
  · exact contents_setStack_of_ne s _ hd hd'
  · rcases List.mem_cons.mp hk with hk | hk
    · cases hk
    · exact hk
  · cases hc
  · rw [List.mem_singleton.mp hk, htask] at hy
    obtain rfl := Option.some.inj (Option.some.inj hy)
    exact hx

/-- **A state is completed**: its continuations go to the call that completed it. -/
theorem completePending (h : Located s place) {x : σ} {v : V} {rest : List (Frame σ V)}
    (hτ : s.stack τ = Frame.complete x v :: rest) (hx : (s.states x).ready = false) : ∃ place', Located
    ((s.setStack τ (Frame.dispatchAll (s.states x).continuations :: rest)).setState x
      { ready := true, value := some v, continuations := [], succeeded := (s.states x).succeeded + 1 }) place' := by
  have hsub : s.contents (Place.subscribing τ) = rest.flatMap Frame.subscribing := by
    rw [Runtime.contents, hτ]
    rfl
  have hheld : s.contents (Place.held τ) = rest.flatMap Frame.held := by
    rw [Runtime.contents, hτ]
    rfl
  have hself := states_setState (s.setStack τ (Frame.dispatchAll (s.states x).continuations :: rest)) x
    { ready := true, value := some v, continuations := [], succeeded := (s.states x).succeeded + 1 }
  have hstates : ∀ y, y ≠ x → ((s.setStack τ (Frame.dispatchAll (s.states x).continuations :: rest)).setState x
      { ready := true, value := some v, continuations := [], succeeded := (s.states x).succeeded + 1 }).states y =
        s.states y := fun y hne => states_setState_of_ne _ hne _
  refine h.handover (Place.registered x) (Place.held τ) (s.states x).continuations nofun ?_ ?_ (fun d hd hd' => ?_) rfl
    (mem_stack_of_setStack hτ fun y k hk => ?_) (fun y hy => ?_) nofun (fun _ k hk y hy => ?_) (fun y hy => ?_) fun y => ?_
  · rw [Runtime.contents, Runtime.contents, hself, List.append_nil]
  · have hne : Place.held τ ≠ Place.registered x := nofun
    rw [contents_setState_of_ne _ _ hne, contents_setStack_held, hheld]
    exact List.Perm.refl _
  · rw [contents_setState_of_ne _ _ hd]
    by_cases hs : d = Place.subscribing τ
    · rw [hs, contents_setStack_subscribing, hsub]
      rfl
    · exact contents_setStack_of_ne s _ hs hd'
  · simpa using hk
  · rcases eq_or_ne y x with rfl | hne
    · rw [hself]
    · rwa [hstates y hne]
  · have hyx : some (some y) = some (some x) := hy.symm.trans (h.registered x k hk)
    rw [Option.some.inj (Option.some.inj hyx), hself]
  · rcases eq_or_ne y x with rfl | hne
    · rw [hself]
    · rw [hstates y hne] at hy ⊢
      exact h.pending y hy
  · rcases eq_or_ne y x with rfl | hne
    · have hold := h.succeeded y
      rw [hx, if_neg nofun] at hold
      rw [hself, hold]
      rfl
    · rw [hstates y hne]
      exact h.succeeded y

omit [DecidableEq σ] in
/-- A continuation is dispatched. -/
theorem dispatch (h : Located s place) {task : ℕ} {frames rest : List (Frame σ V)}
    (hτ : s.stack τ = Frame.dispatch task :: rest) (hframes : frames = rest ∨ frames = Frame.drain :: rest) :
    ∃ place', Located ((s.setStack τ frames).enqueue τ task) place' := by
  have hsub : s.contents (Place.subscribing τ) = rest.flatMap Frame.subscribing := by
    rw [Runtime.contents, hτ]
    rfl
  have hheld : s.contents (Place.held τ) = task :: rest.flatMap Frame.held := by
    rw [Runtime.contents, hτ]
    rfl
  have hframesSub : frames.flatMap Frame.subscribing = rest.flatMap Frame.subscribing := by
    rcases hframes with rfl | rfl <;> rfl
  have hframesHeld : frames.flatMap Frame.held = rest.flatMap Frame.held := by
    rcases hframes with rfl | rfl <;> rfl
  obtain ⟨hstates, hsubscriptions, hstack, -, hdispatched⟩ := enqueue_eq (s.setStack τ frames) τ task
  have hsame : ∀ d, d ≠ Place.dispatched τ →
      ((s.setStack τ frames).enqueue τ task).contents d = (s.setStack τ frames).contents d := by
    intro d hd
    cases d with
    | subscribing t => rw [Runtime.contents, Runtime.contents, hstack]
    | registered x => rw [Runtime.contents, Runtime.contents, hstates]
    | held t => rw [Runtime.contents, Runtime.contents, hstack]
    | dispatched t =>
      have hne : t ≠ τ := fun heq => hd (by rw [heq])
      rw [Runtime.contents, Runtime.contents, hdispatched, Function.update_of_ne hne]
  refine h.handover (Place.held τ) (Place.dispatched τ) [task] nofun ?_ ?_ (fun d hd hd' => ?_) hsubscriptions
    (fun t y k hk => ?_) (fun y hy => ?_) nofun (fun _ k hk y hy => ?_) (fun y hy => ?_) fun y => ?_
  · have hne : (Place.held τ : Place T σ) ≠ Place.dispatched τ := nofun
    rw [hsame _ hne, contents_setStack_held, hframesHeld, hheld]
    exact List.Perm.refl _
  · rw [Runtime.contents, hdispatched, Function.update_self]
    exact List.perm_append_comm
  · rw [hsame d hd']
    by_cases hs : d = Place.subscribing τ
    · rw [hs, contents_setStack_subscribing, hframesSub, hsub]
    · exact contents_setStack_of_ne s _ hs hd
  · rw [hstack] at hk
    refine mem_stack_of_setStack hτ (fun y k hk => ?_) t y k hk
    rcases hframes with rfl | rfl
    · exact hk
    · simpa using hk
  · rw [hstates]
    exact hy
  · rw [hstates]
    refine h.held τ k ?_ y hy
    rw [List.mem_singleton.mp hk, hτ]
    exact List.mem_cons_self
  · rw [hstates] at hy ⊢
    exact h.pending y hy
  · rw [hstates]
    exact h.succeeded y

/-- **The step lemma.** -/
theorem step (h : Located s place) (hst : Step s t) : ∃ place', Located t place' := by
  have hquiet : ∀ {f : Frame σ V} {frames rest : List (Frame σ V)} {τ : T}, s.stack τ = f :: rest → f.subscribing = [] →
      frames.flatMap Frame.subscribing = rest.flatMap Frame.subscribing →
      frames.flatMap Frame.held = f.held ++ rest.flatMap Frame.held →
      (∀ x k, Frame.subscribe x k ∈ frames → Frame.subscribe x k ∈ rest) → Located (s.setStack τ frames) place := by
    intro f frames rest τ hτ hf hsub hheld htarget
    refine h.setStack ?_ ?_ fun x k hk => ?_
    · rw [hτ, List.flatMap_cons, hf, hsub]
      rfl
    · rw [hτ, List.flatMap_cons, hheld]
    · rw [hτ]
      exact List.mem_cons_of_mem _ (htarget x k hk)
  cases hst with
  | callSubscribe x hτ => exact h.callSubscribe x
  | callSubscribeReady hτ => exact h.callSubscribeReady
  | callComplete x v hτ =>
    refine ⟨place, h.setStack rfl rfl fun y k hk => ?_⟩
    rcases List.mem_cons.mp hk with hk | hk
    · cases hk
    · exact hk
  | subscribePending hτ hx => exact h.subscribePending hτ hx
  | subscribeReady hτ hx => exact h.subscribeReady hτ hx
  | completePending hτ hx => exact h.completePending hτ hx
  | completeReady hτ hx => exact ⟨place, hquiet hτ rfl rfl rfl fun _ _ hk => hk⟩
  | dispatchNext hτ => exact ⟨place, hquiet hτ rfl rfl rfl fun y k hk => by simpa using hk⟩
  | completeReturn hτ => exact ⟨place, hquiet hτ rfl rfl rfl fun _ _ hk => hk⟩
  | dispatchNested hτ hr => exact h.dispatch hτ (Or.inl rfl)
  | dispatchOutermost hτ hr =>
    obtain ⟨place', h'⟩ := h.dispatch hτ (Or.inr rfl)
    exact ⟨place', h'.congr rfl rfl rfl rfl⟩
  | @call τ task rest hτ hh =>
    have hstack : Located (s.setStack τ (Frame.function task :: Frame.drain :: rest)) place :=
      hquiet hτ rfl rfl rfl fun y k hk => by simpa using hk
    exact ⟨place, hstack.congr rfl rfl rfl rfl⟩
  | functionReturn hτ => exact ⟨place, hquiet hτ rfl rfl rfl fun _ _ hk => hk⟩
  | drained hτ hh => exact ⟨place, (hquiet hτ rfl rfl rfl fun _ _ hk => hk).congr rfl rfl rfl rfl⟩

end Located

/-! ## The stacks of the threads -/

/-- A continuation is running. -/
def Frame.isFunction : Frame σ V → Bool
  | function _ => true
  | _ => false

/-- The outermost `dispatch` of a thread. -/
def Frame.isDrain : Frame σ V → Bool
  | drain => true
  | _ => false

/-- What is below the outermost `dispatch` of a thread. -/
inductive Below : List (Frame σ V) → Prop
  | nil : Below []
  | dispatchAll (continuations : List ℕ) : Below [Frame.dispatchAll continuations]

/-- The stack where a call is made: outside of all calls, or in a continuation that the outermost
`dispatch` has called.  The flag says that there is such a `dispatch`. -/
inductive Base : Bool → List (Frame σ V) → Prop
  | outside : Base false []
  | function (task : ℕ) {below : List (Frame σ V)} (h : Below below) :
      Base true (Frame.function task :: Frame.drain :: below)

/-- The stack of a thread. -/
inductive Shape : Bool → List (Frame σ V) → Prop
  | base {r : Bool} {frames : List (Frame σ V)} (h : Base r frames) : Shape r frames
  | drain {below : List (Frame σ V)} (h : Below below) : Shape true (Frame.drain :: below)
  | subscribe (x : σ) (task : ℕ) {r : Bool} {frames : List (Frame σ V)} (h : Base r frames) :
      Shape r (Frame.subscribe x task :: frames)
  | complete (x : σ) (v : V) {r : Bool} {frames : List (Frame σ V)} (h : Base r frames) :
      Shape r (Frame.complete x v :: frames)
  | dispatchAll (continuations : List ℕ) {r : Bool} {frames : List (Frame σ V)} (h : Base r frames) :
      Shape r (Frame.dispatchAll continuations :: frames)
  | dispatch (task : ℕ) {r : Bool} {frames : List (Frame σ V)} (h : Base r frames) :
      Shape r (Frame.dispatch task :: frames)
  | dispatchOne (task : ℕ) (continuations : List ℕ) {r : Bool} {frames : List (Frame σ V)} (h : Base r frames) :
      Shape r (Frame.dispatch task :: Frame.dispatchAll continuations :: frames)

namespace Shape

variable {r : Bool} {x : σ} {v : V} {task : ℕ} {continuations : List ℕ} {rest frames : List (Frame σ V)}

omit [DecidableEq T] [DecidableEq σ]

theorem free (h : Shape r frames) (hfree : Free frames) : Base r frames := by
  cases hfree with
  | outside =>
    cases h with
    | base h => exact h
  | function =>
    cases h with
    | base h => exact h

theorem of_subscribe (h : Shape r (Frame.subscribe x task :: rest)) : Base r rest := by
  cases h with
  | base h => cases h
  | subscribe _ _ h => exact h

theorem of_complete (h : Shape r (Frame.complete x v :: rest)) : Base r rest := by
  cases h with
  | base h => cases h
  | complete _ _ h => exact h

theorem of_dispatchAll (h : Shape r (Frame.dispatchAll continuations :: rest)) : Base r rest := by
  cases h with
  | base h => cases h
  | dispatchAll _ h => exact h

/-- A nested `dispatch` returns to where it was called. -/
theorem of_dispatch (h : Shape r (Frame.dispatch task :: rest)) : Shape r rest := by
  cases h with
  | base h => cases h
  | dispatch _ h => exact base h
  | dispatchOne _ _ h => exact dispatchAll _ h

/-- The outermost one goes on to drain the queue. -/
theorem of_dispatch_outermost (h : Shape false (Frame.dispatch task :: rest)) : Below rest := by
  cases h with
  | base h => cases h
  | dispatch _ h =>
    cases h
    exact Below.nil
  | dispatchOne _ _ h =>
    cases h
    exact Below.dispatchAll _

theorem of_drain (h : Shape r (Frame.drain :: rest)) : r = true ∧ Below rest := by
  cases h with
  | base h => cases h
  | drain h => exact ⟨rfl, h⟩

theorem of_function (h : Shape r (Frame.function task :: rest)) : Shape r rest := by
  cases h with
  | base h =>
    cases h with
    | function _ h => exact drain h

theorem of_below (h : Below frames) : Shape false frames := by
  cases h with
  | nil => exact base Base.outside
  | dispatchAll continuations => exact dispatchAll _ Base.outside

/-- A thread runs at most one continuation and is in at most one outermost `dispatch`. -/
theorem countP_le (h : Shape r frames) :
    frames.countP Frame.isFunction ≤ 1 ∧ frames.countP Frame.isDrain = if r then 1 else 0 := by
  have hbelow : ∀ {l : List (Frame σ V)}, Below l → l.countP Frame.isFunction = 0 ∧ l.countP Frame.isDrain = 0 := by
    intro l hl
    cases hl <;> exact ⟨rfl, rfl⟩
  have hbase : ∀ {r : Bool} {l : List (Frame σ V)}, Base r l →
      l.countP Frame.isFunction ≤ 1 ∧ l.countP Frame.isDrain = if r then 1 else 0 := by
    intro r l hl
    cases hl with
    | outside => exact ⟨Nat.zero_le 1, rfl⟩
    | function _ h =>
      obtain ⟨h1, h2⟩ := hbelow h
      simp [List.countP_cons, Frame.isFunction, Frame.isDrain, h1, h2]
  cases h with
  | base h => exact hbase h
  | drain h =>
    obtain ⟨h1, h2⟩ := hbelow h
    simp [List.countP_cons, Frame.isFunction, Frame.isDrain, h1, h2]
  | subscribe _ _ h => simpa [Frame.isFunction, Frame.isDrain] using hbase h
  | complete _ _ h => simpa [Frame.isFunction, Frame.isDrain] using hbase h
  | dispatchAll _ h => simpa [Frame.isFunction, Frame.isDrain] using hbase h
  | dispatch _ h => simpa [Frame.isFunction, Frame.isDrain] using hbase h
  | dispatchOne _ _ h => simpa [Frame.isFunction, Frame.isDrain] using hbase h

end Shape

/-- The threads run `dispatch` one call deep. -/
def Shaped (s : Runtime T σ V) : Prop := ∀ t, Shape (s.queue t).running (s.stack t)

namespace Shaped

variable {s t : Runtime T σ V} {τ : T}

omit [DecidableEq T] [DecidableEq σ] in
theorem initial : Shaped (Runtime.initial : Runtime T σ V) := fun _ => Shape.base Base.outside

omit [DecidableEq T] [DecidableEq σ] in
theorem congr (h : Shaped s) (hrunning : ∀ t', (t.queue t').running = (s.queue t').running) (hstack : t.stack = s.stack) :
    Shaped t := fun t' => by
  rw [hrunning, hstack]
  exact h t'

omit [DecidableEq σ] in
theorem setStack (h : Shaped s) {frames : List (Frame σ V)} (hframes : Shape (s.queue τ).running frames) :
    Shaped (s.setStack τ frames) := by
  intro t'
  rcases eq_or_ne t' τ with rfl | hne
  · rw [Located.stack_setStack]
    exact hframes
  · rw [Located.stack_setStack_of_ne s hne]
    exact h t'

omit [DecidableEq σ] in
/-- A thread enters or leaves the outermost `dispatch`. -/
theorem setRunning (h : ∀ t', t' ≠ τ → Shape (s.queue t').running (s.stack t')) {running : Bool}
    (hτ : Shape running (s.stack τ)) : Shaped (s.setRunning τ running) := by
  intro t'
  rcases eq_or_ne t' τ with rfl | hne
  · rw [queue_setRunning]
    exact hτ
  · rw [queue_setRunning_of_ne s hne]
    exact h t' hne

omit [DecidableEq σ] in
theorem running_enqueue (s : Runtime T σ V) (τ : T) (task : ℕ) (t' : T) :
    ((s.enqueue τ task).queue t').running = (s.queue t').running := by
  rcases eq_or_ne t' τ with rfl | hne
  · rw [queue_enqueue]
  · rw [queue_enqueue_of_ne s hne]

omit [DecidableEq σ] in
theorem running_pop (s : Runtime T σ V) (τ : T) (task : ℕ) (t' : T) :
    ((s.pop τ task).queue t').running = (s.queue t').running := by
  rcases eq_or_ne t' τ with rfl | hne
  · rw [queue_pop]
  · rw [queue_pop_of_ne s hne]

/-- **The step lemma.** -/
theorem step (h : Shaped s) (hst : Step s t) : Shaped t := by
  have hshape : ∀ {τ : T} {frames : List (Frame σ V)}, s.stack τ = frames → Shape (s.queue τ).running frames :=
    fun hτ => hτ ▸ h _
  cases hst with
  | callSubscribe x hτ => exact (h.setStack (Shape.subscribe _ _ ((h _).free hτ))).congr (fun _ => rfl) rfl
  | callSubscribeReady hτ => exact (h.setStack (Shape.dispatch _ ((h _).free hτ))).congr (fun _ => rfl) rfl
  | callComplete x v hτ => exact h.setStack (Shape.complete _ _ ((h _).free hτ))
  | subscribePending hτ hx => exact (h.setStack (Shape.base (hshape hτ).of_subscribe)).congr (fun _ => rfl) rfl
  | subscribeReady hτ hx => exact h.setStack (Shape.dispatch _ (hshape hτ).of_subscribe)
  | completePending hτ hx => exact (h.setStack (Shape.dispatchAll _ (hshape hτ).of_complete)).congr (fun _ => rfl) rfl
  | completeReady hτ hx => exact h.setStack (Shape.base (hshape hτ).of_complete)
  | dispatchNext hτ => exact h.setStack (Shape.dispatchOne _ _ (hshape hτ).of_dispatchAll)
  | completeReturn hτ => exact h.setStack (Shape.base (hshape hτ).of_dispatchAll)
  | @dispatchNested τ task rest hτ hr =>
    exact (h.setStack (hshape hτ).of_dispatch).congr (running_enqueue _ τ task) (enqueue_eq _ _ _).2.2.1
  | @dispatchOutermost τ task rest hτ hr =>
    have hbelow : Below rest := Shape.of_dispatch_outermost (hr ▸ hshape hτ)
    have hstack := (enqueue_eq (s.setStack τ (Frame.drain :: rest)) τ task).2.2.1
    refine setRunning (fun t' hne => ?_) ?_
    · rw [running_enqueue, hstack, Located.stack_setStack_of_ne s hne]
      exact h t'
    · rw [hstack, Located.stack_setStack]
      exact Shape.drain hbelow
  | @call τ task rest hτ hh =>
    obtain ⟨hr, hbelow⟩ := (hshape hτ).of_drain
    have hframes : Shape (s.queue τ).running (Frame.function task :: Frame.drain :: rest) := by
      rw [hr]
      exact Shape.base (Base.function task hbelow)
    exact (h.setStack hframes).congr (running_pop _ τ task) rfl
  | functionReturn hτ => exact h.setStack (hshape hτ).of_function
  | @drained τ rest hτ hh =>
    refine setRunning (fun t' hne => ?_) ?_
    · rw [Located.stack_setStack_of_ne s hne]
      exact h t'
    · rw [Located.stack_setStack]
      exact Shape.of_below (hshape hτ).of_drain.2

end Shaped

end Eager
end Caravan
end Spearhed
