import Mathlib.Tactic
import Mathlib.Algebra.BigOperators.Group.Finset.Basic
import Spearhed.Library.StepSystem
import Spearhed.Mpi.ManagedCollectiveLane

/-!
# The MPI context

`MpiContext` (`mpi/context.cpp`) is driven from two sides.  Any thread submits commands, reserves,
commits and abandons collective tickets and requests shutdown; the owner thread calls `progress()`,
which executes queued commands, starts ready collectives, retires completed requests and finally
frees the communicators.  All shared members are accessed under one mutex, so a step of the model
is one critical section or one piece of owner code between two of them.

The owner's position inside `progress()` is the program counter `Pc`.  User callbacks run on the
owner thread between two steps; whatever they do to the context is again one of the steps any
thread may take, so callbacks need no position of their own beyond the one they return to.

The model covers the runs in which the process lives: `submit` after shutdown and failing MPI calls
terminate it and are therefore not steps.  What MPI does is left open.  `start` may produce any
batch, and `MPI_Testsome` may complete and report any set of active requests in any order.

Next to the members of the source the state carries the history that statements are about: the
number of accepted operations, the callbacks that were invoked, and for each communicator the
ledger of its tickets and the start functions that were handed out.
-/

namespace Spearhed
namespace Mpi

open Library

variable {α R S : Type}

/-- `NativeSubmission` or `NativeInvocation`. -/
inductive CommandKind
  | submission
  | invocation
  deriving DecidableEq

/-- A queued command.  Operations are numbered in the order in which they were accepted. -/
structure Command where
  operation : ℕ
  kind : CommandKind

/-- `NativeGroup`.  `remaining` is an integer, so that a decrement below zero would show. -/
structure NativeGroup (S : Type) where
  operation : ℕ
  statuses : List S
  remaining : ℤ

/-- `NativeGroup::retire` up to the test of `remaining`. -/
def NativeGroup.retire (G : NativeGroup S) (index : ℕ) (status : S) : NativeGroup S :=
  { G with statuses := G.statuses.set index status, remaining := G.remaining - 1 }

/-- Where the owner thread is. -/
inductive Pc (α R S : Type)
  /-- Outside of `progress()`. -/
  | idle
  /-- At the loop head of `drainQueue`. -/
  | drainQueue (remaining : ℕ)
  /-- A popped command is about to run. -/
  | execute (command : Command) (remaining : ℕ)
  /-- In the loop of `trackNative`, at `index`, with the rest of the batch. -/
  | trackNative (group index : ℕ) (batch : List (Option R)) (remaining : ℕ)
  /-- The completion callback has run, `finishOperation` has not. -/
  | finishOperation (next : Pc α R S)
  /-- At the loop head of `drainManagedCollectives`. -/
  | drainManagedCollectives (remaining : ℕ)
  /-- A popped start function is about to run. -/
  | runStart (start : α) (remaining : ℕ)
  /-- At the entry of `progressRequests`. -/
  | progressRequests
  /-- In the loop over the reported indices. -/
  | retire (reported : List (ℕ × S))
  /-- At the last check of `progress()`. -/
  | checkFinished
  /-- At the call of `releaseCommunicators`. -/
  | releaseCommunicators
  /-- At the store to `m_finished`. -/
  | setFinished

/-- `submissionBatchSize`. -/
def submissionBatchSize : ℕ := 64

/-- A state of the context. -/
structure Context (α R S : Type) where
  /-- `m_queue`. -/
  queue : List Command
  /-- `m_outstanding`, as an integer. -/
  outstanding : ℤ
  /-- `m_accepting`. -/
  accepting : Bool
  /-- `m_stopping`. -/
  stopping : Bool
  /-- `m_finished`. -/
  finished : Bool
  /-- The keys of `m_managedCollectives`. -/
  communicators : Finset ℕ
  /-- The values of `m_managedCollectives`; a default-constructed lane at every other key. -/
  lanes : ℕ → ManagedCollectiveLane α
  /-- `m_requests`; `none` is `MPI_REQUEST_NULL`. -/
  requests : List (Option R)
  /-- `m_active`: the group and the index each request was registered under. -/
  active : List (ℕ × ℕ)
  /-- The groups ever allocated. -/
  groups : List (NativeGroup S)
  /-- `releaseCommunicators` has run. -/
  released : Bool
  pc : Pc α R S
  /-- How many operations were accepted. -/
  accepted : ℕ
  /-- The operations whose completion callback was invoked, in order. -/
  called : List ℕ
  /-- The tickets of each communicator. -/
  ledger : ℕ → Ledger α
  /-- The start functions `popReady` handed out on each communicator, with their tickets. -/
  started : ℕ → List (ℕ × α)

namespace Context

/-- The constructed context. -/
def initial : Context α R S where
  queue := []
  outstanding := 0
  accepting := true
  stopping := false
  finished := false
  communicators := ∅
  lanes := fun _ => ManagedCollectiveLane.empty
  requests := []
  active := []
  groups := []
  released := false
  pc := Pc.idle
  accepted := 0
  called := []
  ledger := fun _ => Ledger.empty
  started := fun _ => []

/-! ## What any thread may do -/

/-- `submit`, while the context is accepting. -/
def submit (s : Context α R S) (kind : CommandKind) : Context α R S :=
  { s with
    queue := s.queue ++ [⟨s.accepted, kind⟩]
    outstanding := s.outstanding + 1
    accepted := s.accepted + 1 }

/-- `reserveManagedCollective`, while the context is accepting. -/
def reserveManagedCollective (s : Context α R S) (c : ℕ) : Context α R S :=
  { s with
    communicators := insert c s.communicators
    lanes := Function.update s.lanes c (s.lanes c).reserve.1
    outstanding := s.outstanding + 1
    ledger := Function.update s.ledger c (s.ledger c).reserve }

/-- `releaseManagedCollective`: how it returns, and the context it leaves. -/
def releaseManagedCollective (s : Context α R S) (c sequence : ℕ) (start : α) :
    Except String Unit × Context α R S :=
  if c ∈ s.communicators then
    match (s.lanes c).commit sequence start with
    | (Except.error e, L) => (Except.error e, { s with lanes := Function.update s.lanes c L })
    | (Except.ok (), L) => (Except.ok (), { s with
        lanes := Function.update s.lanes c L
        ledger := Function.update s.ledger c
          ((s.ledger c).settle sequence (Fate.committed start)) })
  else (Except.error "Unknown managed collective ticket", s)

/-- `abandonManagedCollective`. -/
def abandonManagedCollective (s : Context α R S) (c sequence : ℕ) : Context α R S :=
  if c ∈ s.communicators then
    { s with
      lanes := Function.update s.lanes c ((s.lanes c).skip sequence)
      ledger := Function.update s.ledger c ((s.ledger c).settle sequence Fate.skipped) }
  else s

/-- `requestShutdown`. -/
def requestShutdown (s : Context α R S) : Context α R S :=
  { s with
    accepting := false
    stopping := true
    lanes := fun c => if c ∈ s.communicators then (s.lanes c).skipReserved else s.lanes c
    ledger := fun c => if c ∈ s.communicators then (s.ledger c).settleAll else s.ledger c }

/-! ## What the owner thread does -/

/-- `popReady` on the lane of communicator `c`, in the critical section that also decrements
`m_outstanding`. -/
def popManagedCollective (s : Context α R S) (c : ℕ) (start : Option α)
    (L : ManagedCollectiveLane α) (remaining : ℕ) : Context α R S :=
  { s with
    lanes := Function.update s.lanes c L
    outstanding := s.outstanding - 1
    pc := match start with
      | some f => Pc.runStart f remaining
      | none => Pc.drainManagedCollectives remaining }

/-- The retirement of the front ticket of communicator `c`, for the record, with the start function
that was handed out. -/
def recordRetired (s : Context α R S) (c sequence : ℕ) (start : Option α) : Context α R S :=
  { s with
    ledger := Function.update s.ledger c (s.ledger c).retire
    started := Function.update s.started c
      (s.started c ++ (start.map fun f => (sequence, f)).toList) }

/-- The completion callback of an operation without requests. -/
def complete (s : Context α R S) (operation : ℕ) (next : Pc α R S) : Context α R S :=
  { s with called := s.called ++ [operation], pc := Pc.finishOperation next }

/-- `group->retire(..)` with the completion callback it may invoke. -/
def retireIn (s : Context α R S) (group index : ℕ) (status : S) (next : Pc α R S) :
    Context α R S :=
  match s.groups[group]? with
  | none => s
  | some G =>
    let G' := G.retire index status
    if G'.remaining = 0 then
      { s with
        groups := s.groups.set group G'
        called := s.called ++ [G.operation]
        pc := Pc.finishOperation next }
    else { s with groups := s.groups.set group G', pc := next }

/-- `m_requests` after an `MPI_Testsome` that set the requests at `done` to null. -/
def nullAt (requests : List (Option R)) (done : List ℕ) : List (Option R) :=
  requests.mapIdx fun k r => if k ∈ done then none else r

/-- One iteration of the compaction loop over `m_requests` and `m_active`. -/
def compactStep (r : List (Option R) × List (ℕ × ℕ) × ℕ) (input : ℕ) :
    List (Option R) × List (ℕ × ℕ) × ℕ :=
  match r.1[input]?, r.2.1[input]? with
  | some (some request), some entry =>
      (r.1.set r.2.2 (some request), r.2.1.set r.2.2 entry, r.2.2 + 1)
  | _, _ => r

/-- The compaction loop and the two `resize` calls at the end of `progressRequests`. -/
def compact (s : Context α R S) : Context α R S :=
  let r := (List.range s.requests.length).foldl compactStep (s.requests, s.active, 0)
  { s with requests := r.1.take r.2.2, active := r.2.1.take r.2.2 }

end Context

open Context

/-- One step of the owner or of any other thread. -/
inductive Step [Inhabited S] : Context α R S → Context α R S → Prop
  | submit {s : Context α R S} (kind : CommandKind) (ha : s.accepting = true) :
      Step s (s.submit kind)
  | reserve {s : Context α R S} {c : ℕ} (ha : s.accepting = true) :
      Step s (s.reserveManagedCollective c)
  | release {s : Context α R S} {c k : ℕ} {f : α} :
      Step s (s.releaseManagedCollective c k f).2
  | abandon {s : Context α R S} {c k : ℕ} : Step s (s.abandonManagedCollective c k)
  | shutdown {s : Context α R S} : Step s s.requestShutdown
  -- `progress()`
  | progress {s : Context α R S} (hp : s.pc = Pc.idle) (hf : s.finished = false) :
      Step s { s with pc := Pc.drainQueue submissionBatchSize }
  -- `drainQueue`
  | queueDrained {s : Context α R S} {m : ℕ} (hp : s.pc = Pc.drainQueue m)
      (hm : m = 0 ∨ s.queue = []) :
      Step s { s with pc := Pc.drainManagedCollectives submissionBatchSize }
  | popCommand {s : Context α R S} {m : ℕ} {command : Command} {rest : List Command}
      (hp : s.pc = Pc.drainQueue (m + 1)) (hq : s.queue = command :: rest) :
      Step s { s with queue := rest, pc := Pc.execute command m }
  | invoke {s : Context α R S} {m op : ℕ}
      (hp : s.pc = Pc.execute ⟨op, CommandKind.invocation⟩ m) :
      Step s (s.complete op (Pc.drainQueue m))
  | startEmpty {s : Context α R S} {m op : ℕ}
      (hp : s.pc = Pc.execute ⟨op, CommandKind.submission⟩ m) :
      Step s (s.complete op (Pc.drainQueue m))
  | startNative {s : Context α R S} {m op : ℕ} {batch : List (Option R)}
      (hp : s.pc = Pc.execute ⟨op, CommandKind.submission⟩ m) (hb : batch ≠ []) :
      Step s { s with
        groups := s.groups ++ [⟨op, List.replicate batch.length default, batch.length⟩]
        pc := Pc.trackNative s.groups.length 0 batch m }
  -- `trackNative`
  | trackNull {s : Context α R S} {g i m : ℕ} {batch : List (Option R)}
      (hp : s.pc = Pc.trackNative g i (none :: batch) m) :
      Step s (s.retireIn g i default (Pc.trackNative g (i + 1) batch m))
  | trackActive {s : Context α R S} {g i m : ℕ} {r : R} {batch : List (Option R)}
      (hp : s.pc = Pc.trackNative g i (some r :: batch) m) :
      Step s { s with
        requests := s.requests ++ [some r]
        active := s.active ++ [(g, i)]
        pc := Pc.trackNative g (i + 1) batch m }
  | tracked {s : Context α R S} {g i m : ℕ} (hp : s.pc = Pc.trackNative g i [] m) :
      Step s { s with pc := Pc.drainQueue m }
  | finishOperation {s : Context α R S} {next : Pc α R S} (hp : s.pc = Pc.finishOperation next) :
      Step s { s with outstanding := s.outstanding - 1, pc := next }
  -- `drainManagedCollectives`, over the lanes in any order
  | lanesDrained {s : Context α R S} {m : ℕ} (hp : s.pc = Pc.drainManagedCollectives m)
      (hm : m = 0 ∨ ∀ c ∈ s.communicators, (s.lanes c).popReady = none) :
      Step s { s with pc := Pc.progressRequests }
  | popReady {s : Context α R S} {m c : ℕ} {start : Option α} {L : ManagedCollectiveLane α}
      (hp : s.pc = Pc.drainManagedCollectives (m + 1)) (hc : c ∈ s.communicators)
      (hpop : (s.lanes c).popReady = some (start, L)) :
      Step s ((s.popManagedCollective c start L m).recordRetired c (s.lanes c).firstSequence start)
  | started {s : Context α R S} {m : ℕ} {f : α} (hp : s.pc = Pc.runStart f m) :
      Step s { s with pc := Pc.drainManagedCollectives m }
  -- `progressRequests`
  | noneCompleted {s : Context α R S} (hp : s.pc = Pc.progressRequests) :
      Step s { s with pc := Pc.checkFinished }
  | testSome {s : Context α R S} {reported : List (ℕ × S)} {done : List ℕ}
      (hp : s.pc = Pc.progressRequests) (hne : reported ≠ [])
      (hnodup : (reported.map Prod.fst).Nodup)
      (hlt : ∀ k ∈ reported.map Prod.fst, k < s.requests.length)
      (hdone : ∀ k ∈ done, k ∈ reported.map Prod.fst) :
      Step s { s with requests := nullAt s.requests done, pc := Pc.retire reported }
  | stillPending {s : Context α R S} {k : ℕ} {status : S} {reported : List (ℕ × S)} {r : R}
      (hp : s.pc = Pc.retire ((k, status) :: reported)) (hr : s.requests[k]? = some (some r)) :
      Step s { s with pc := Pc.retire reported }
  | retireActive {s : Context α R S} {k g i : ℕ} {status : S} {reported : List (ℕ × S)}
      (hp : s.pc = Pc.retire ((k, status) :: reported)) (hr : s.requests[k]? = some none)
      (ha : s.active[k]? = some (g, i)) :
      Step s (s.retireIn g i status (Pc.retire reported))
  | compact {s : Context α R S} (hp : s.pc = Pc.retire []) :
      Step s { s.compact with pc := Pc.checkFinished }
  -- the end of `progress()`
  | proceed {s : Context α R S} (hp : s.pc = Pc.checkFinished)
      (hs : s.stopping = false ∨ s.outstanding ≠ 0) : Step s { s with pc := Pc.idle }
  | drained {s : Context α R S} (hp : s.pc = Pc.checkFinished) (hs : s.stopping = true)
      (ho : s.outstanding = 0) : Step s { s with pc := Pc.releaseCommunicators }
  | releaseCommunicators {s : Context α R S} (hp : s.pc = Pc.releaseCommunicators) :
      Step s { s with released := true, pc := Pc.setFinished }
  | setFinished {s : Context α R S} (hp : s.pc = Pc.setFinished) :
      Step s { s with finished := true, pc := Pc.idle }

/-- All runs of a context. -/
def system (α R S : Type) [Inhabited S] : StepSystem (Context α R S) where
  init := fun s => s = Context.initial
  step := Step

end Mpi
end Spearhed
