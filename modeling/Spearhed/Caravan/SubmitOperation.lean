import Spearhed.Caravan.SubmissionDependencies
import Spearhed.Library.StepSystem

/-!
# Submitting a stage graph to queues

`SubmitOperation` of `alpaka/submission.hpp` turns a dependency matrix and an assignment of
stages to queues into queue commands: a wait on a fence for every edge between two queues, the
stage's own work, and a record of the stage's fence.  An edge inside one queue gets no command at
all; it is left to the queue's FIFO order.  Fences are shared along unbranched runs of adjacent
stages on one queue, so not every stage records one.

The file models three things and their interplay.

* `buildFences`: the constructor's loop from the last stage to the first, with its sharing test.
* `stageCommands`: what `submitStage<i>` enqueues, in order.
* `system`: the host issuing these commands while the queues run.  A command may start once every
  command issued earlier to the same queue has finished, and a wait also needs the event of its
  fence; nothing else orders the queues.

A stage enqueues any number of work items, given by `tasks`.
-/

namespace Spearhed
namespace Caravan

open Library SubmissionDependencies

/-- The arguments of a `SubmitOperation`: the queue of each stage, the dependency matrix, and the
number of work items each stage's callable enqueues. -/
structure SubmitOperation (Q : Type) where
  /-- `m_queues`, dereferenced: stages alias a queue when the handles compare equal. -/
  queues : ℕ → Q
  /-- `m_dependencies`. -/
  dependencies : SubmissionDependencies
  /-- How many items `std::invoke(submit, queue)` enqueues. -/
  tasks : ℕ → ℕ
  /-- The matrix is topological, which its class comment demands of every composition. -/
  topological : dependencies.IsTopological

namespace SubmitOperation

variable {Q : Type} [DecidableEq Q] (op : SubmitOperation Q)

/-- `stageCount`. -/
def stageCount : ℕ := op.dependencies.stageCount

/-- `incoming[i]` after the counting loops of the constructor. -/
def incoming (i : ℕ) : ℕ := (List.range i).countP fun j => op.dependencies.predecessors i j

/-- `outgoing[j]` after the counting loops of the constructor. -/
def outgoing (j : ℕ) : ℕ :=
  (List.range op.stageCount).countP fun i => decide (j < i) && op.dependencies.predecessors i j

/-- The test under which stage `i` uses the fence of stage `i + 1`. -/
def sharesFence (i : ℕ) : Bool :=
  decide (i + 1 < op.stageCount) && decide (op.queues i = op.queues (i + 1)) &&
    op.dependencies.predecessors (i + 1) i && decide (op.outgoing i = 1) &&
    decide (op.incoming (i + 1) = 1)

/-- `m_fenceIndices`, and which entries of `m_fences` are engaged. -/
structure Fences where
  index : ℕ → ℕ
  engaged : ℕ → Bool

/-- One iteration of the constructor's fence loop. -/
def assignFence (i : ℕ) (F : Fences) : Fences :=
  if op.sharesFence i then
    { F with index := Function.update F.index i (F.index (i + 1)) }
  else
    { index := Function.update F.index i i, engaged := Function.update F.engaged i true }

/-- The constructor's fence loop, which runs from the last stage down to the first. -/
def buildFences : Fences :=
  (List.range op.stageCount).foldr op.assignFence ⟨fun _ => 0, fun _ => false⟩

/-- `m_fenceIndices[i]`. -/
def fenceIndex (i : ℕ) : ℕ := op.buildFences.index i

/-- `m_fences[i].has_value()`. -/
def fenceEngaged (i : ℕ) : Bool := op.buildFences.engaged i

/-! ## What the fence loop leaves behind -/

/-- The loop over the stages from `k` on. -/
def fencesFrom (k : ℕ) : Fences :=
  (List.range' k (op.stageCount - k)).foldr op.assignFence ⟨fun _ => 0, fun _ => false⟩

theorem fencesFrom_zero : op.fencesFrom 0 = op.buildFences := by
  rw [fencesFrom, buildFences, Nat.sub_zero, List.range_eq_range']

theorem fencesFrom_of_lt {k : ℕ} (hk : k < op.stageCount) :
    op.fencesFrom k = op.assignFence k (op.fencesFrom (k + 1)) := by
  have h : op.stageCount - k = op.stageCount - (k + 1) + 1 := by omega
  rw [fencesFrom, h, List.range'_succ, List.foldr_cons, fencesFrom]

/-- Later iterations of the loop do not touch the entries of later stages. -/
theorem fencesFrom_index_eq {k i : ℕ} (hk : k ≤ i) (hi : i < op.stageCount) :
    (op.fencesFrom k).index i = (op.fencesFrom i).index i ∧
      (op.fencesFrom k).engaged i = (op.fencesFrom i).engaged i := by
  induction hd : i - k generalizing k with
  | zero =>
    obtain rfl : k = i := by omega
    exact ⟨rfl, rfl⟩
  | succ d ih =>
    obtain ⟨h1, h2⟩ := ih (show k + 1 ≤ i by omega) (by omega)
    have hne : i ≠ k := by omega
    rw [op.fencesFrom_of_lt (show k < op.stageCount by omega), assignFence]
    split
    · exact ⟨by simpa [hne] using h1, h2⟩
    · exact ⟨by simpa [hne] using h1, by simpa [hne] using h2⟩

/-- The loop engages no fence of a stage it has not come to. -/
theorem fencesFrom_engaged_of_lt {k i : ℕ} (hk : i < k) :
    (op.fencesFrom k).engaged i = false := by
  induction hd : op.stageCount - k generalizing k with
  | zero =>
    rw [fencesFrom, hd]
    rfl
  | succ d ih =>
    have hne : i ≠ k := by omega
    have hrest := ih (show i < k + 1 by omega) (by omega)
    rw [op.fencesFrom_of_lt (by omega), assignFence]
    split
    · exact hrest
    · simpa [hne] using hrest

theorem sharesFence_iff {i : ℕ} :
    op.sharesFence i = true ↔ i + 1 < op.stageCount ∧ op.queues i = op.queues (i + 1) ∧
      op.dependencies.predecessors (i + 1) i = true ∧ op.outgoing i = 1 ∧
      op.incoming (i + 1) = 1 := by
  simp [sharesFence, and_assoc]

/-- **The recursion the loop computes.**  A stage that shares takes the fence of the next stage
and engages none; any other stage engages its own. -/
theorem fenceIndex_eq {i : ℕ} (hi : i < op.stageCount) :
    op.fenceIndex i = (if op.sharesFence i then op.fenceIndex (i + 1) else i) ∧
      (op.fenceEngaged i = true ↔ op.sharesFence i = false) := by
  have hself := op.fencesFrom_index_eq (Nat.zero_le i) hi
  rw [fencesFrom_zero, op.fencesFrom_of_lt hi, assignFence] at hself
  obtain ⟨h1, h2⟩ := hself
  rw [fenceIndex, fenceEngaged, h1, h2]
  by_cases hs : op.sharesFence i = true
  · have hlt : i + 1 < op.stageCount := (op.sharesFence_iff.mp hs).1
    have hnext := (op.fencesFrom_index_eq (Nat.zero_le (i + 1)) hlt).1
    rw [fencesFrom_zero] at hnext
    have hno := op.fencesFrom_engaged_of_lt (Nat.lt_succ_self i)
    simp [hs, fenceIndex, hnext, hno]
  · simp [hs]

/-- The fence a stage uses belongs to a later stage of the same queue that engages it. -/
theorem fenceIndex_spec {i : ℕ} (hi : i < op.stageCount) :
    i ≤ op.fenceIndex i ∧ op.fenceIndex i < op.stageCount ∧
      op.queues (op.fenceIndex i) = op.queues i ∧ op.fenceEngaged (op.fenceIndex i) = true ∧
      op.fenceIndex (op.fenceIndex i) = op.fenceIndex i := by
  induction hd : op.stageCount - i generalizing i with
  | zero => omega
  | succ d ih =>
    obtain ⟨heq, heng⟩ := op.fenceIndex_eq hi
    by_cases hs : op.sharesFence i = true
    · obtain ⟨hlt, hq, -⟩ := op.sharesFence_iff.mp hs
      rw [if_pos hs] at heq
      obtain ⟨h1, h2, h3, h4, h5⟩ := ih hlt (by omega)
      rw [heq]
      exact ⟨by omega, h2, by rw [h3, hq], h4, h5⟩
    · rw [if_neg hs] at heq
      rw [heq]
      exact ⟨le_rfl, hi, rfl, heng.mpr (by simpa using hs), heq⟩

/-- A stage that shares has the next stage as its only successor. -/
theorem eq_succ_of_sharesFence {i j : ℕ} (hs : op.sharesFence j = true)
    (hij : op.dependencies.predecessors i j = true) : i = j + 1 := by
  obtain ⟨hlt, -, hnext, hout, -⟩ := op.sharesFence_iff.mp hs
  obtain ⟨hji, hi⟩ := op.topological i j hij
  rw [outgoing, List.countP_eq_length_filter, List.length_eq_one_iff] at hout
  obtain ⟨k, hk⟩ := hout
  have hmem : ∀ x, x < op.stageCount → j < x → op.dependencies.predecessors x j = true →
      x = k := by
    intro x hx hjx hxj
    rw [← List.mem_singleton, ← hk]
    simp [hx, hjx, hxj]
  rw [hmem i hi hji hij, hmem (j + 1) hlt (Nat.lt_succ_self j) hnext]

/-- The source of an edge between two queues records its own fence. -/
theorem fenceIndex_of_cross {i j : ℕ} (hij : op.dependencies.predecessors i j = true)
    (hq : op.queues i ≠ op.queues j) : op.fenceIndex j = j := by
  have hj : j < op.stageCount := by
    have := op.topological i j hij
    simp only [stageCount]
    omega
  rw [(op.fenceIndex_eq hj).1, if_neg]
  intro hs
  have hi := op.eq_succ_of_sharesFence hs hij
  subst hi
  exact hq (op.sharesFence_iff.mp hs).2.1.symm

/-! ## The commands of a stage -/

/-- What the host enqueues. -/
inductive Command
  | wait (fence : ℕ)
  | run (task : ℕ)
  | record (fence : ℕ)
  deriving DecidableEq

/-- `submitStage<i>`: the waits of the cross-queue edges, the stage's work, and the record of the
stage's own fence where it has one.  All go to the queue of stage `i`. -/
def stageCommands (i : ℕ) : List Command :=
  (((List.range i).filter fun j =>
      op.dependencies.predecessors i j && decide (op.queues i ≠ op.queues j)).map
    fun j => Command.wait (op.fenceIndex j)) ++
  (List.range (op.tasks i)).map Command.run ++
  if op.fenceIndex i = i then [Command.record i] else []

/-- Command `o` of stage `i`. -/
def command (i o : ℕ) : Option Command := (op.stageCommands i)[o]?

variable {op} in
theorem mem_stageCommands {i : ℕ} {c : Command} :
    c ∈ op.stageCommands i ↔
      (∃ j, op.dependencies.predecessors i j = true ∧ op.queues i ≠ op.queues j ∧ j < i ∧
        c = Command.wait (op.fenceIndex j)) ∨
      (∃ k, k < op.tasks i ∧ c = Command.run k) ∨
      (op.fenceIndex i = i ∧ c = Command.record i) := by
  simp only [stageCommands, List.mem_append, List.mem_map, List.mem_filter, List.mem_range,
    Bool.and_eq_true, decide_eq_true_eq]
  constructor
  · rintro ((⟨j, ⟨hj, hp, hq⟩, rfl⟩ | ⟨k, hk, rfl⟩) | h)
    · exact Or.inl ⟨j, hp, hq, hj, rfl⟩
    · exact Or.inr (Or.inl ⟨k, hk, rfl⟩)
    · split at h
      · next hi => exact Or.inr (Or.inr ⟨hi, List.mem_singleton.mp h⟩)
      · cases h
  · rintro (⟨j, hp, hq, hj, rfl⟩ | ⟨k, hk, rfl⟩ | ⟨hi, rfl⟩)
    · exact Or.inl (Or.inl ⟨j, ⟨hj, hp, hq⟩, rfl⟩)
    · exact Or.inl (Or.inr ⟨k, hk, rfl⟩)
    · exact Or.inr (by simp [hi])

/-- Within a stage, waits come before work and work before the record. -/
def Command.phase : Command → ℕ
  | wait _ => 0
  | run _ => 1
  | record _ => 2

theorem pairwise_phase_stageCommands (i : ℕ) :
    (op.stageCommands i).Pairwise fun c d => c.phase ≤ d.phase := by
  rw [stageCommands]
  refine List.pairwise_append.mpr ⟨List.pairwise_append.mpr ⟨?_, ?_, ?_⟩, ?_, ?_⟩
  · exact List.pairwise_map.mpr (List.pairwise_of_forall fun _ _ => le_rfl)
  · exact List.pairwise_map.mpr (List.pairwise_of_forall fun _ _ => le_rfl)
  · intro c hc d hd
    obtain ⟨j, -, rfl⟩ := List.mem_map.mp hc
    exact Nat.zero_le _
  · split
    · exact List.pairwise_singleton _ _
    · exact List.Pairwise.nil
  · intro c hc d hd
    have hd2 : d.phase = 2 := by
      split at hd
      · rw [List.mem_singleton.mp hd]
        rfl
      · cases hd
    rw [hd2]
    cases c <;> simp [Command.phase]

variable {op} in
/-- An earlier phase means an earlier position. -/
theorem lt_of_phase_lt {i o o' : ℕ} {c d : Command} (hc : op.command i o = some c)
    (hd : op.command i o' = some d) (h : c.phase < d.phase) : o < o' := by
  obtain ⟨ho, rfl⟩ := List.getElem?_eq_some_iff.mp hc
  obtain ⟨ho', rfl⟩ := List.getElem?_eq_some_iff.mp hd
  by_contra hle
  rcases Nat.lt_or_eq_of_le (Nat.le_of_not_lt hle) with hlt | heq
  · have := List.pairwise_iff_getElem.mp (op.pairwise_phase_stageCommands i) o' o ho' ho hlt
    omega
  · subst heq
    omega

variable {op} in
theorem exists_command {i : ℕ} {c : Command} (h : c ∈ op.stageCommands i) :
    ∃ o, op.command i o = some c :=
  List.getElem?_of_mem h

variable {op} in
theorem mem_of_command {i o : ℕ} {c : Command} (h : op.command i o = some c) :
    c ∈ op.stageCommands i :=
  List.mem_of_getElem? h

variable {op} in
/-- The record is the last command of its stage. -/
theorem command_record {i o f : ℕ} (h : op.command i o = some (Command.record f)) :
    f = i ∧ o + 1 = (op.stageCommands i).length := by
  have hf : f = i := by
    rcases mem_stageCommands.mp (mem_of_command h) with ⟨j, -, -, -, hc⟩ | ⟨k, -, hc⟩ | ⟨-, hc⟩
    · cases hc
    · cases hc
    · injection hc
  refine ⟨hf, ?_⟩
  rw [command, stageCommands] at h
  rw [stageCommands]
  generalize hA : List.map _ _ ++ List.map _ _ = A at h ⊢
  have hno : Command.record f ∉ A := by
    rw [← hA]
    simp
  split at h
  · next hi =>
    rw [if_pos hi, List.length_append, List.length_singleton]
    rcases Nat.lt_trichotomy o A.length with hlt | heq | hgt
    · rw [List.getElem?_append_left hlt] at h
      exact absurd (List.mem_of_getElem? h) hno
    · rw [heq]
    · rw [List.getElem?_eq_none (by simp; omega)] at h
      cases h
  · rw [List.append_nil] at h
    exact absurd (List.mem_of_getElem? h) hno

/-- The number of waits of a stage. -/
def waitCount (i : ℕ) : ℕ :=
  ((List.range i).filter fun j =>
    op.dependencies.predecessors i j && decide (op.queues i ≠ op.queues j)).length

variable {op} in
/-- The work items of a stage stand behind its waits, in their order. -/
theorem command_eq_run_iff {i o k : ℕ} :
    op.command i o = some (Command.run k) ↔ k < op.tasks i ∧ o = op.waitCount i + k := by
  have hwaits : ∀ (l : List ℕ) (p : ℕ),
      (l.map fun j => Command.wait (op.fenceIndex j))[p]? ≠ some (Command.run k) := by
    intro l p h
    obtain ⟨j, -, hj⟩ := List.mem_map.mp (List.mem_of_getElem? h)
    cases hj
  have hrecord : ∀ p : ℕ, (if op.fenceIndex i = i then [Command.record i] else [])[p]? ≠
      some (Command.run k) := by
    intro p h
    have hmem := List.mem_of_getElem? h
    split at hmem
    · cases List.mem_singleton.mp hmem
    · cases hmem
  rw [command, stageCommands, List.append_assoc, List.getElem?_append, List.length_map]
  split
  · next hlt =>
    refine ⟨fun h => absurd h (hwaits _ o), fun h => ?_⟩
    have hlt' : o < op.waitCount i := hlt
    omega
  · next hge =>
    have hge' : op.waitCount i ≤ o := Nat.le_of_not_lt hge
    rw [List.getElem?_append, List.length_map, List.length_range]
    split
    · next hlt =>
      rw [List.getElem?_map, List.getElem?_range hlt, Option.map_some, Option.some_inj,
        Command.run.injEq]
      have hlt' : o - op.waitCount i < op.tasks i := hlt
      change o - op.waitCount i = k ↔ _
      omega
    · next hge =>
      have hlast : op.tasks i ≤ o - op.waitCount i := Nat.le_of_not_lt hge
      refine ⟨fun h => absurd h (hrecord _), fun h => ?_⟩
      omega

variable {op} in
/-- **Every work item of a stage is enqueued once.** -/
theorem existsUnique_command_run {i k : ℕ} (hk : k < op.tasks i) :
    ∃! o, op.command i o = some (Command.run k) :=
  ⟨op.waitCount i + k, command_eq_run_iff.mpr ⟨hk, rfl⟩,
    fun _ ho => (command_eq_run_iff.mp ho).2⟩

/-! ## Running the commands -/

/-- How far a queue is with a command. -/
inductive Status
  | pending
  | queued
  | running
  | done
  deriving DecidableEq

/-- A state of the run: the host's position in `submitStage`, the status of every command, and
the two flags of every fence. -/
structure Progress where
  /-- `T_Index` of the `submitStage` the host is in. -/
  stage : ℕ
  /-- How many commands of that stage are enqueued. -/
  offset : ℕ
  /-- The status of command `o` of stage `i`. -/
  status : ℕ → ℕ → Status
  /-- `m_recorded`. -/
  recorded : ℕ → Bool
  /-- `m_complete`. -/
  complete : ℕ → Bool

namespace Progress

/-- The state with the status of one command changed. -/
def setStatus (s : Progress) (i o : ℕ) (x : Status) : Progress :=
  { s with status := fun i' o' => if i' = i ∧ o' = o then x else s.status i' o' }

/-- The queue has taken up the command. -/
def Started (s : Progress) (i o : ℕ) : Prop :=
  s.status i o = Status.running ∨ s.status i o = Status.done

/-- The host enqueues the next command.  `CompletionFence::record` enqueues only once. -/
def issue (s : Progress) : Command → Progress
  | Command.record f =>
      if s.recorded f then { s with offset := s.offset + 1 }
      else { s.setStatus s.stage s.offset Status.queued with
        offset := s.offset + 1, recorded := Function.update s.recorded f true }
  | _ => { s.setStatus s.stage s.offset Status.queued with offset := s.offset + 1 }

end Progress

/-- `m_event.isComplete()`: the queue has passed the point where the fence was recorded. -/
def eventComplete (s : Progress) (f : ℕ) : Bool :=
  (List.range (op.stageCommands f).length).any fun o =>
    decide (op.command f o = some (Command.record f)) && decide (s.status f o = Status.done)

/-- The answer of `poll()`: every engaged fence polls true. -/
def pollResult (s : Progress) : Bool :=
  (List.range op.stageCount).all fun f =>
    !op.fenceEngaged f || !s.recorded f || s.complete f || op.eventComplete s f

/-- `poll()` remembers the fences it saw complete. -/
def afterPoll (s : Progress) : Progress :=
  { s with complete := fun f =>
      s.complete f || (op.fenceEngaged f && s.recorded f && op.eventComplete s f) }

/-- Command `(i, o)` was enqueued before command `(j, p)`, to the same queue. -/
def EnqueuedBefore (i o j p : ℕ) : Prop :=
  (i < j ∨ (i = j ∧ o < p)) ∧ op.queues i = op.queues j

/-- One step of the host or of one queue.  The queues are FIFO, a wait blocks its queue until the
fence's recorded point is reached, and `poll` runs only after `publish`, hence after the last
`submitStage`. -/
inductive Step : Progress → Progress → Prop
  | issue {s : Progress} {c : Command} (hs : s.stage < op.stageCount)
      (hc : op.command s.stage s.offset = some c) : Step s (s.issue c)
  | nextStage {s : Progress} (hs : s.stage < op.stageCount)
      (ho : s.offset = (op.stageCommands s.stage).length) :
      Step s { s with stage := s.stage + 1, offset := 0 }
  | start {s : Progress} {i o : ℕ} (hq : s.status i o = Status.queued)
      (hfifo : ∀ i' o', op.EnqueuedBefore i' o' i o → s.status i' o' ≠ Status.pending →
        s.status i' o' = Status.done)
      (hwait : ∀ f, op.command i o = some (Command.wait f) → op.eventComplete s f = true) :
      Step s (s.setStatus i o Status.running)
  | finish {s : Progress} {i o : ℕ} (hr : s.status i o = Status.running) :
      Step s (s.setStatus i o Status.done)
  | poll {s : Progress} (hs : s.stage = op.stageCount) : Step s (op.afterPoll s)

/-- The state in which `submit()` begins. -/
def Progress.initial : Progress :=
  ⟨0, 0, fun _ _ => Status.pending, fun _ => false, fun _ => false⟩

/-- All runs of the operation, from the start of `submit()`. -/
def system : StepSystem Progress where
  init := fun s => s = Progress.initial
  step := op.Step

/-- Stage `i` is submitted, and each of its work items was enqueued and is finished. -/
def StageFinished (s : Progress) (i : ℕ) : Prop :=
  i < s.stage ∧ ∀ k, k < op.tasks i →
    ∃ o, op.command i o = some (Command.run k) ∧ s.status i o = Status.done

/-! ## The invariant -/

/-- The command is enqueued: the host has passed it. -/
def Issued (s : Progress) (i o : ℕ) : Prop :=
  o < (op.stageCommands i).length ∧ i < op.stageCount ∧
    (i < s.stage ∨ (i = s.stage ∧ o < s.offset))

/-- What holds in every state of a run. -/
structure Inv (s : Progress) : Prop where
  stage_le : s.stage ≤ op.stageCount
  issued : ∀ i o, s.status i o ≠ Status.pending ↔ op.Issued s i o
  fifo : ∀ i o, s.Started i o → ∀ i' o', op.EnqueuedBefore i' o' i o →
    o' < (op.stageCommands i').length → s.status i' o' = Status.done
  waits : ∀ i o f, s.Started i o → op.command i o = some (Command.wait f) →
    op.eventComplete s f = true
  recorded : ∀ f, s.recorded f = true ↔
    ∃ o, op.command f o = some (Command.record f) ∧ op.Issued s f o
  complete : ∀ f, s.complete f = true → op.eventComplete s f = true

variable {op}

theorem eventComplete_iff {s : Progress} {f : ℕ} :
    op.eventComplete s f = true ↔
      ∃ o, op.command f o = some (Command.record f) ∧ s.status f o = Status.done := by
  simp only [eventComplete, List.any_eq_true, List.mem_range, Bool.and_eq_true,
    decide_eq_true_eq]
  constructor
  · rintro ⟨o, -, h⟩
    exact ⟨o, h⟩
  · rintro ⟨o, h, hd⟩
    exact ⟨o, (List.getElem?_eq_some_iff.mp h).1, h, hd⟩

/-- Events stay complete. -/
theorem eventComplete_mono {s t : Progress}
    (h : ∀ i o, s.status i o = Status.done → t.status i o = Status.done) {f : ℕ}
    (hf : op.eventComplete s f = true) : op.eventComplete t f = true := by
  obtain ⟨o, ho, hd⟩ := eventComplete_iff.mp hf
  exact eventComplete_iff.mpr ⟨o, ho, h f o hd⟩

theorem inv_init : op.Inv Progress.initial where
  stage_le := Nat.zero_le _
  issued := by
    intro i o
    simp [Issued, Progress.initial]
  fifo := by
    intro i o h
    rcases h with h | h <;> cases h
  waits := by
    intro i o f h
    rcases h with h | h <;> cases h
  recorded := by
    intro f
    simp [Issued, Progress.initial]
  complete := by
    intro f h
    cases h

/-- The host never comes to a record twice. -/
theorem Inv.not_recorded {s : Progress} (h : op.Inv s) {f : ℕ}
    (hc : op.command s.stage s.offset = some (Command.record f)) : s.recorded f = false := by
  obtain ⟨rfl, hlast⟩ := command_record hc
  rw [← Bool.not_eq_true, h.recorded]
  rintro ⟨o, ho, -, -, hlt | ⟨-, hlt⟩⟩
  · omega
  · have := (command_record ho).2
    omega

/-- What issuing a command changes. -/
theorem Inv.issue_eq {s : Progress} (h : op.Inv s) {c : Command}
    (hc : op.command s.stage s.offset = some c) :
    s.issue c = { s.setStatus s.stage s.offset Status.queued with
      offset := s.offset + 1,
      recorded := fun f => s.recorded f || decide (c = Command.record f) } := by
  cases c with
  | wait f => simp [Progress.issue, Progress.setStatus]
  | run k => simp [Progress.issue, Progress.setStatus]
  | record f =>
    have hupd : Function.update s.recorded f true =
        fun g => s.recorded g || decide (Command.record f = Command.record g) := by
      funext g
      by_cases hg : g = f
      · simp [hg]
      · simp [hg, Ne.symm hg]
    rw [Progress.issue, if_neg (by simp [h.not_recorded hc]), hupd]

theorem Inv.issue {s : Progress} (h : op.Inv s) {c : Command} (hs : s.stage < op.stageCount)
    (hc : op.command s.stage s.offset = some c) : op.Inv (s.issue c) := by
  rw [h.issue_eq hc]
  have hlen : s.offset < (op.stageCommands s.stage).length := (List.getElem?_eq_some_iff.mp hc).1
  have hpending : s.status s.stage s.offset = Status.pending := by
    by_contra hne
    have := ((h.issued _ _).mp hne).2.2
    omega
  have hdone : ∀ i o, s.status i o = Status.done →
      (s.setStatus s.stage s.offset Status.queued).status i o = Status.done := by
    intro i o hd
    have hne : ¬ (i = s.stage ∧ o = s.offset) := by
      rintro ⟨rfl, rfl⟩
      rw [hpending] at hd
      cases hd
    simpa [Progress.setStatus, hne] using hd
  have hstarted : ∀ i o, (s.setStatus s.stage s.offset Status.queued).Started i o →
      s.Started i o := by
    intro i o hst
    simp only [Progress.Started, Progress.setStatus] at hst ⊢
    split at hst
    · simp at hst
    · exact hst
  refine ⟨h.stage_le, fun i o => ?_, fun i o hst i' o' hb ho' => ?_, fun i o f hst hw => ?_,
    fun f => ?_, fun f hf => ?_⟩
  · by_cases hio : i = s.stage ∧ o = s.offset
    · obtain ⟨rfl, rfl⟩ := hio
      simp [Progress.setStatus, Issued, hs, hlen]
    · have := h.issued i o
      simp only [Progress.setStatus, hio, if_false, this, Issued]
      constructor
      · rintro ⟨h1, h2, h3⟩
        exact ⟨h1, h2, by omega⟩
      · rintro ⟨h1, h2, h3⟩
        exact ⟨h1, h2, by omega⟩
  · exact hdone _ _ (h.fifo i o (hstarted i o hst) i' o' hb ho')
  · exact eventComplete_mono hdone (h.waits i o f (hstarted i o hst) hw)
  · rw [Bool.or_eq_true, h.recorded, decide_eq_true_eq]
    constructor
    · rintro (⟨o, ho, h1, h2, h3⟩ | rfl)
      · exact ⟨o, ho, h1, h2, by dsimp only [Progress.setStatus]; omega⟩
      · obtain rfl := (command_record hc).1
        exact ⟨s.offset, hc, hlen, hs, Or.inr ⟨rfl, Nat.lt_succ_self _⟩⟩
    · rintro ⟨o, ho, h1, h2, h3⟩
      by_cases hnew : f = s.stage ∧ o = s.offset
      · obtain ⟨rfl, rfl⟩ := hnew
        exact Or.inr (Option.some.inj (hc.symm.trans ho))
      · exact Or.inl ⟨o, ho, h1, h2, by dsimp only [Progress.setStatus] at h3; omega⟩
  · exact eventComplete_mono hdone (h.complete f hf)

theorem Inv.nextStage {s : Progress} (h : op.Inv s) (hs : s.stage < op.stageCount)
    (ho : s.offset = (op.stageCommands s.stage).length) :
    op.Inv { s with stage := s.stage + 1, offset := 0 } := by
  have hissued : ∀ i o, op.Issued { s with stage := s.stage + 1, offset := 0 } i o ↔
      op.Issued s i o := by
    intro i o
    simp only [Issued]
    constructor
    · rintro ⟨h1, h2, h3⟩
      refine ⟨h1, h2, ?_⟩
      rcases Nat.lt_or_ge i s.stage with hi | hi
      · exact Or.inl hi
      · obtain rfl : i = s.stage := by omega
        exact Or.inr ⟨rfl, by omega⟩
    · rintro ⟨h1, h2, h3⟩
      exact ⟨h1, h2, by omega⟩
  exact ⟨hs, fun i o => (h.issued i o).trans (hissued i o).symm, h.fifo, h.waits,
    fun f => (h.recorded f).trans (exists_congr fun o => and_congr_right fun _ =>
      (hissued f o).symm), h.complete⟩

/-- A queue taking up or finishing a command.  Both steps leave `pending` alone and never undo a
`done`, so only the FIFO and wait conditions of the command itself are new. -/
theorem Inv.setStatus {s : Progress} (h : op.Inv s) {i o : ℕ} {x : Status}
    (hx : x ≠ Status.pending) (hcur : s.status i o ≠ Status.pending)
    (hdone : s.status i o ≠ Status.done)
    (hfifo : ∀ i' o', op.EnqueuedBefore i' o' i o → o' < (op.stageCommands i').length →
      s.status i' o' = Status.done)
    (hwait : ∀ f, op.command i o = some (Command.wait f) → op.eventComplete s f = true) :
    op.Inv (s.setStatus i o x) := by
  have hmono : ∀ i' o', s.status i' o' = Status.done →
      (s.setStatus i o x).status i' o' = Status.done := by
    intro i' o' hd
    have hne : ¬ (i' = i ∧ o' = o) := by
      rintro ⟨rfl, rfl⟩
      exact hdone hd
    simpa [Progress.setStatus, hne] using hd
  refine ⟨h.stage_le, fun i' o' => ?_, fun i' o' hst i'' o'' hb ho'' => hmono _ _ ?_,
    fun i' o' f hst hw => eventComplete_mono hmono ?_, h.recorded,
    fun f hf => eventComplete_mono hmono (h.complete f hf)⟩
  · by_cases hio : i' = i ∧ o' = o
    · obtain ⟨rfl, rfl⟩ := hio
      have := (h.issued i' o').mp hcur
      simp only [Progress.setStatus, and_self, if_true, ne_eq, hx, not_false_eq_true, true_iff]
      exact this
    · simp only [Progress.setStatus, hio, if_false]
      exact h.issued i' o'
  · by_cases hio : i' = i ∧ o' = o
    · obtain ⟨rfl, rfl⟩ := hio
      exact hfifo i'' o'' hb ho''
    · refine h.fifo i' o' ?_ i'' o'' hb ho''
      simpa [Progress.Started, Progress.setStatus, hio] using hst
  · by_cases hio : i' = i ∧ o' = o
    · obtain ⟨rfl, rfl⟩ := hio
      exact hwait f hw
    · refine h.waits i' o' f ?_ hw
      simpa [Progress.Started, Progress.setStatus, hio] using hst

/-- Commands enqueued before an enqueued command are enqueued. -/
theorem Inv.ne_pending_of_enqueuedBefore {s : Progress} (h : op.Inv s) {i o i' o' : ℕ}
    (hcur : s.status i o ≠ Status.pending) (hb : op.EnqueuedBefore i' o' i o)
    (ho' : o' < (op.stageCommands i').length) : s.status i' o' ≠ Status.pending := by
  obtain ⟨h1, h2, h3⟩ := (h.issued i o).mp hcur
  obtain ⟨hlt, -⟩ := hb
  exact (h.issued i' o').mpr ⟨ho', by omega, by omega⟩

/-- **Every step keeps the invariant.** -/
theorem Inv.step {s t : Progress} (h : op.Inv s) (hst : op.Step s t) : op.Inv t := by
  cases hst with
  | issue hs hc => exact h.issue hs hc
  | nextStage hs ho => exact h.nextStage hs ho
  | @start i o hq hfifo hwait =>
    have hcur : s.status i o ≠ Status.pending := by simp [hq]
    exact h.setStatus (by simp) hcur (by simp [hq])
      (fun i' o' hb ho' => hfifo i' o' hb (h.ne_pending_of_enqueuedBefore hcur hb ho')) hwait
  | @finish i o hr =>
    exact h.setStatus (by simp) (by simp [hr]) (by simp [hr])
      (fun i' o' hb ho' => h.fifo i o (Or.inl hr) i' o' hb ho')
      (fun f hf => h.waits i o f (Or.inl hr) hf)
  | poll hs =>
    refine ⟨h.stage_le, h.issued, h.fifo, h.waits, h.recorded, fun f hf => ?_⟩
    simp only [afterPoll, Bool.or_eq_true, Bool.and_eq_true] at hf
    rcases hf with hf | ⟨-, hf⟩
    · exact h.complete f hf
    · exact hf

theorem inv_of_reachable {s : Progress} (h : op.system.Reachable s) : op.Inv s :=
  h.invariant (fun s hs => by rw [hs]; exact inv_init) fun _ _ _ hinv hst => hinv.step hst

/-! ## What the invariant gives -/

/-- The record of an unshared stage is among its commands. -/
theorem exists_record {i : ℕ} (h : op.fenceIndex i = i) :
    ∃ o, op.command i o = some (Command.record i) :=
  exists_command (mem_stageCommands.mpr (Or.inr (Or.inr ⟨h, rfl⟩)))

/-- A stage has finished when all of its commands that are work are done. -/
theorem stageFinished_of_done {s : Progress} {i : ℕ} (hs : i < s.stage)
    (hdone : ∀ o k, op.command i o = some (Command.run k) → s.status i o = Status.done) :
    op.StageFinished s i := by
  refine ⟨hs, fun k hk => ?_⟩
  obtain ⟨o, ho, -⟩ := existsUnique_command_run hk
  exact ⟨o, ho, hdone o k ho⟩

/-- Once an event is complete, all work on its queue up to the stage that recorded it is done. -/
theorem Inv.stageFinished_of_eventComplete {s : Progress} (h : op.Inv s) {i f : ℕ} (hif : i ≤ f)
    (hq : op.queues i = op.queues f) (hs : i < s.stage)
    (hf : op.eventComplete s f = true) : op.StageFinished s i := by
  refine stageFinished_of_done hs fun o k hk => ?_
  obtain ⟨r, hr, hd⟩ := eventComplete_iff.mp hf
  refine h.fifo f r (Or.inr hd) i o ⟨?_, hq⟩ (List.getElem?_eq_some_iff.mp hk).1
  rcases Nat.lt_or_eq_of_le hif with hlt | rfl
  · exact Or.inl hlt
  · exact Or.inr ⟨rfl, lt_of_phase_lt hk hr (by simp [Command.phase])⟩

/-- **Work of a stage starts only after its predecessors have finished.** -/
theorem Inv.predecessors_finished {s : Progress} (h : op.Inv s) {i j o k : ℕ}
    (hk : op.command i o = some (Command.run k)) (hst : s.Started i o)
    (hij : op.dependencies.predecessors i j = true) : op.StageFinished s j := by
  have hji : j < i := (op.topological i j hij).1
  have hne : s.status i o ≠ Status.pending := by
    rcases hst with hst | hst <;> simp [hst]
  have hjs : j < s.stage := by
    have := ((h.issued i o).mp hne).2.2
    omega
  by_cases hq : op.queues i = op.queues j
  · -- FIFO order of the common queue
    exact stageFinished_of_done hjs fun o' k' hk' => h.fifo i o hst j o' ⟨Or.inl hji, hq.symm⟩
      (List.getElem?_eq_some_iff.mp hk').1
  · -- the wait that stage `i` enqueued before its work
    obtain ⟨w, hw⟩ := exists_command (mem_stageCommands.mpr
      (Or.inl ⟨j, hij, hq, hji, rfl⟩))
    have hwd : s.status i w = Status.done := h.fifo i o hst i w
      ⟨Or.inr ⟨rfl, lt_of_phase_lt hw hk (by simp [Command.phase])⟩, rfl⟩
      (List.getElem?_eq_some_iff.mp hw).1
    have hev := h.waits i w _ (Or.inr hwd) hw
    rw [op.fenceIndex_of_cross hij hq] at hev
    exact h.stageFinished_of_eventComplete le_rfl rfl hjs hev

/-- **A wait refers to a fence that exists and is recorded.** -/
theorem Inv.wait_recorded {s : Progress} (h : op.Inv s) {f : ℕ} (hs : s.stage < op.stageCount)
    (hf : op.command s.stage s.offset = some (Command.wait f)) :
    op.fenceEngaged f = true ∧ s.recorded f = true := by
  rcases mem_stageCommands.mp (mem_of_command hf) with ⟨j, hij, hq, hji, hc⟩ | ⟨k, -, hc⟩ | ⟨-, hc⟩
  · obtain rfl : f = op.fenceIndex j := by injection hc
    have hj := op.fenceIndex_of_cross hij hq
    have hspec := op.fenceIndex_spec (show j < op.stageCount by omega)
    obtain ⟨r, hr⟩ := exists_record hj
    refine ⟨hspec.2.2.2.1, ?_⟩
    rw [hj, h.recorded]
    exact ⟨r, hr, (List.getElem?_eq_some_iff.mp hr).1, by omega, Or.inl hji⟩
  · cases hc
  · cases hc

/-- **A positive poll means that every stage has finished.** -/
theorem Inv.finished_of_poll {s : Progress} (h : op.Inv s) (hs : s.stage = op.stageCount)
    (hpoll : op.pollResult s = true) {i : ℕ} (hi : i < op.stageCount) :
    op.StageFinished s i := by
  obtain ⟨hle, hlt, hq, heng, hfix⟩ := op.fenceIndex_spec hi
  obtain ⟨r, hr⟩ := exists_record hfix
  have hrec : s.recorded (op.fenceIndex i) = true :=
    (h.recorded _).mpr ⟨r, hr, (List.getElem?_eq_some_iff.mp hr).1, hlt, Or.inl (by omega)⟩
  have hfence := List.all_eq_true.mp hpoll _ (List.mem_range.mpr hlt)
  simp only [heng, hrec, Bool.not_true, Bool.false_or, Bool.or_eq_true] at hfence
  have hev : op.eventComplete s (op.fenceIndex i) = true := hfence.elim (h.complete _) id
  exact h.stageFinished_of_eventComplete hle hq.symm (by omega) hev

/-- **Submission lowering preserves every dependency.**  Every work item of a stage is enqueued
once.  In every state of every run of the host and the queues: work of a stage that has started has
all direct predecessors of the stage behind it; a wait the host is about to enqueue names an engaged
and recorded fence; and once the operation is published, a positive poll means that every stage has
finished. -/
theorem submission_preserves_dependencies (op : SubmitOperation Q) (s : Progress)
    (h : op.system.Reachable s) :
    (∀ i k, k < op.tasks i → ∃! o, op.command i o = some (Command.run k)) ∧
      (∀ i o k j, op.command i o = some (Command.run k) → s.Started i o →
        op.dependencies.predecessors i j = true → op.StageFinished s j) ∧
      (∀ f, s.stage < op.stageCount → op.command s.stage s.offset = some (Command.wait f) →
        op.fenceEngaged f = true ∧ s.recorded f = true) ∧
      (s.stage = op.stageCount → op.pollResult s = true →
        ∀ i, i < op.stageCount → op.StageFinished s i) := by
  have hinv := inv_of_reachable h
  exact ⟨fun i k hk => existsUnique_command_run hk,
    fun i o k j hk hst hij => hinv.predecessors_finished hk hst hij,
    fun f hs hf => hinv.wait_recorded hs hf,
    fun hs hpoll i hi => hinv.finished_of_poll hs hpoll hi⟩

/-- Two stages on two queues, the second depending on the first, one work item each. -/
def crossQueuePair : SubmitOperation ℕ where
  queues := fun i => i
  dependencies := ⟨2, fun i j => decide (i = 1 ∧ j = 0)⟩
  tasks := fun _ => 1
  topological := by
    intro i j h
    simp only [decide_eq_true_eq] at h
    dsimp only
    omega

/-- The host has submitted the first stage of the pair and turns to the second. -/
def afterFirstStage : Progress :=
  { (Progress.initial.issue (Command.run 0)).issue (Command.record 0) with stage := 1, offset := 0 }

/-- Both stages are submitted. -/
def afterSecondStage : Progress :=
  { ((afterFirstStage.issue (Command.wait 0)).issue (Command.run 0)).issue (Command.record 1) with
    stage := 2, offset := 0 }

/-- The queue takes up a command and gets to its end. -/
def execute (s : Progress) (i o : ℕ) : Progress :=
  (s.setStatus i o Status.running).setStatus i o Status.done

/-- The first queue is through, and the second one is in the work of its stage. -/
def secondRunning : Progress :=
  (execute (execute (execute afterSecondStage 0 0) 0 1) 1 0).setStatus 1 1 Status.running

/-- Both queues are through. -/
def bothFinished : Progress := execute (secondRunning.setStatus 1 1 Status.done) 1 2

theorem reachable_afterFirstStage : crossQueuePair.system.Reachable afterFirstStage := by
  have h0 : crossQueuePair.system.Reachable Progress.initial := StepSystem.Reachable.init rfl
  have h1 := h0.step (Step.issue (c := Command.run 0) (by decide) (by decide))
  have h2 := h1.step (Step.issue (c := Command.record 0) (by decide) (by decide))
  exact h2.step (Step.nextStage (by decide) (by decide))

theorem reachable_afterSecondStage : crossQueuePair.system.Reachable afterSecondStage := by
  have h1 := reachable_afterFirstStage.step (Step.issue (c := Command.wait 0) (by decide) (by decide))
  have h2 := h1.step (Step.issue (c := Command.run 0) (by decide) (by decide))
  have h3 := h2.step (Step.issue (c := Command.record 1) (by decide) (by decide))
  exact h3.step (Step.nextStage (by decide) (by decide))

/-- On queues of their own, a command waits for those before it in its stage. -/
theorem crossQueuePair_start {s : Progress} {i o : ℕ} {c : Command}
    (hq : s.status i o = Status.queued) (hc : crossQueuePair.command i o = some c)
    (hbefore : ∀ o' < o, s.status i o' = Status.done)
    (hwait : ∀ f, c = Command.wait f → crossQueuePair.eventComplete s f = true) :
    crossQueuePair.Step s (s.setStatus i o Status.running) := by
  refine Step.start hq (fun i' o' hb _ => ?_) fun f hf => hwait f (Option.some.inj (hc.symm.trans hf))
  obtain ⟨hlt | ⟨rfl, hlt⟩, hqueue⟩ := hb
  · exact absurd hqueue hlt.ne
  · exact hbefore o' hlt

theorem reachable_execute {s : Progress} {i o : ℕ} {c : Command}
    (h : crossQueuePair.system.Reachable s) (hq : s.status i o = Status.queued)
    (hc : crossQueuePair.command i o = some c) (hbefore : ∀ o' < o, s.status i o' = Status.done)
    (hwait : ∀ f, c = Command.wait f → crossQueuePair.eventComplete s f = true) :
    crossQueuePair.system.Reachable (execute s i o) := by
  refine (h.step (crossQueuePair_start hq hc hbefore hwait)).step (Step.finish ?_)
  simp [Progress.setStatus]

theorem reachable_secondRunning : crossQueuePair.system.Reachable secondRunning := by
  have h1 := reachable_execute (i := 0) (o := 0) (c := Command.run 0) reachable_afterSecondStage
    (by decide) (by decide) (by decide) (by rintro f ⟨⟩)
  have h2 := reachable_execute (i := 0) (o := 1) (c := Command.record 0) h1
    (by decide) (by decide) (by decide) (by rintro f ⟨⟩)
  have h3 := reachable_execute (i := 1) (o := 0) (c := Command.wait 0) h2
    (by decide) (by decide) (by decide) (by rintro f ⟨⟩; decide)
  exact h3.step (crossQueuePair_start (c := Command.run 0) (by decide) (by decide) (by decide)
    (by rintro f ⟨⟩))

theorem reachable_bothFinished : crossQueuePair.system.Reachable bothFinished :=
  reachable_execute (c := Command.record 1)
    (reachable_secondRunning.step (Step.finish (by decide))) (by decide) (by decide) (by decide)
    (by rintro f ⟨⟩)

/-- The first stage has finished when the second one works, and both have when the poll says so. -/
theorem submission_preserves_dependencies_crossQueuePair :
    (∃! o, crossQueuePair.command 1 o = some (Command.run 0)) ∧
      (crossQueuePair.fenceEngaged 0 = true ∧ afterFirstStage.recorded 0 = true) ∧
      crossQueuePair.StageFinished secondRunning 0 ∧
      ∀ i, i < 2 → crossQueuePair.StageFinished bothFinished i :=
  ⟨(submission_preserves_dependencies crossQueuePair afterFirstStage
      reachable_afterFirstStage).1 1 0 (by decide),
    (submission_preserves_dependencies crossQueuePair afterFirstStage
      reachable_afterFirstStage).2.2.1 0 (by decide) (by decide),
    (submission_preserves_dependencies crossQueuePair secondRunning
      reachable_secondRunning).2.1 1 1 0 0 (by decide) (Or.inl (by decide)) (by decide),
    (submission_preserves_dependencies crossQueuePair bothFinished
      reachable_bothFinished).2.2.2 (by decide) (by decide)⟩

end SubmitOperation

end Caravan
end Spearhed
