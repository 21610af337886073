import Spearhed.Library.LinkedList
import Spearhed.Library.StepSystem

/-!
# The completion thread

A task that is posted to a `CompletionThread` is linked into lists through its own `next` pointer: into
the submission list by `post()`, from there into the pending list of the loop, and, when a poll has
answered that the task is not complete, into the deferred list that becomes the next pending list.
Posts may come at any moment, also from inside of a poll, and a task may be destroyed by the poll that
answers that it is complete; its address can then be used for a new task.

A step carries the tasks whose members it reads or writes.

* `CompletionThread.Inv`: the lists behind the pointers.
* `tasks_neither_lost_nor_polled_twice`: what holds in every reachable state.  While a task is polled it
  is in none of the three lists, and only the loop's own variable leads to it.
-/

namespace Spearhed
namespace Caravan

open Library

variable {ν : Type}

/-- `CompletionPollingPolicy`. -/
inductive CompletionPollingPolicy
  | timed
  | continuous
  deriving DecidableEq

namespace CompletionThread

/-- Where the thread is in `run()`. -/
inductive RunPc (ν : Type)
  /-- At the critical section, which waits for a post or for `stopped`. -/
  | locking
  /-- At the loop head of a scan. -/
  | scanning
  /-- In `task->poll()`. -/
  | polling (task : ν)
  | returned

/-- The task that is polled. -/
def RunPc.task : RunPc ν → List ν
  | polling task => [task]
  | _ => []

end CompletionThread

open CompletionThread

/-- A `CompletionThread`, the local variables of its loop, and the `next` pointers of all tasks. -/
structure CompletionThread (ν : Type) where
  /-- `task->next`. -/
  next : ν → Option ν
  /-- `m_head`. -/
  head : Option ν
  /-- `m_tail`. -/
  tail : Option ν
  /-- `m_stopped`. -/
  stopped : Bool
  /-- `m_pollingPolicy`. -/
  pollingPolicy : CompletionPollingPolicy
  pending : Option ν
  deferred : Option ν
  /-- The task whose `next` the local `tail` points to; without one it points to `deferred`. -/
  deferredTail : Option ν
  pc : RunPc ν
  /-- The tasks that were posted and have not finished. -/
  unfinished : List ν
  /-- The tasks that were unfinished when the scan began. -/
  scan : List ν
  /-- The tasks that were polled in the scan. -/
  polled : List ν

namespace CompletionThread

/-- The constructed thread. -/
def initial (pollingPolicy : CompletionPollingPolicy) : CompletionThread ν where
  next := fun _ => none
  head := none
  tail := none
  stopped := false
  pollingPolicy := pollingPolicy
  pending := none
  deferred := none
  deferredTail := none
  pc := RunPc.locking
  unfinished := []
  scan := []
  polled := []

variable [DecidableEq ν]

open Function (update)

/-- `post`. -/
def post (s : CompletionThread ν) (task : ν) : CompletionThread ν :=
  match s.tail with
  | some last => { s with
      next := update s.next last (some task), tail := some task, unfinished := s.unfinished ++ [task] }
  | none => { s with head := some task, tail := some task, unfinished := s.unfinished ++ [task] }

/-- Whether the wait of the critical section can end, where a wait for a time always can. -/
def mayProceed (s : CompletionThread ν) : Bool :=
  if s.pending.isSome && s.pollingPolicy = CompletionPollingPolicy.timed then true
  else if s.pending.isNone && s.head.isNone then s.stopped
  else true

/-- The submission list is put in front of the pending list. -/
def splice (s : CompletionThread ν) : CompletionThread ν :=
  match s.head with
  | none => s
  | some first => { s with
      next := match s.tail with
        | some last => update s.next last s.pending
        | none => s.next
      pending := some first
      head := none
      tail := none }

/-- The rest of the critical section and the beginning of the scan. -/
def enter (s : CompletionThread ν) : CompletionThread ν :=
  if s.pending.isNone && s.stopped then { s with pc := RunPc.returned }
  else if s.pending.isNone then s
  else { s with
    deferred := none, deferredTail := none, pc := RunPc.scanning, scan := s.unfinished, polled := [] }

/-- `pending = std::exchange(task->next, nullptr)`. -/
def take (s : CompletionThread ν) (task : ν) : CompletionThread ν :=
  { s with pending := s.next task, next := update s.next task none, pc := RunPc.polling task }

/-- The poll has answered `true`, and the task may be destroyed. -/
def finish (s : CompletionThread ν) (task : ν) : CompletionThread ν :=
  { s with unfinished := s.unfinished.erase task, pc := RunPc.scanning, polled := s.polled ++ [task] }

/-- The poll has answered `false`: `*tail = task; tail = &task->next`. -/
def defer (s : CompletionThread ν) (task : ν) : CompletionThread ν :=
  match s.deferredTail with
  | some last => { s with
      next := update s.next last (some task), deferredTail := some task, pc := RunPc.scanning
      polled := s.polled ++ [task] }
  | none => { s with
      deferred := some task, deferredTail := some task, pc := RunPc.scanning, polled := s.polled ++ [task] }

/-- One step of any thread, with the tasks whose members are accessed. -/
inductive Step : CompletionThread ν → List ν → CompletionThread ν → Prop
  /-- A task is posted once. -/
  | post {s : CompletionThread ν} {task : ν} (hnew : task ∉ s.unfinished) : Step s s.tail.toList (s.post task)
  | stop {s : CompletionThread ν} : Step s [] { s with stopped := true }
  | lock {s : CompletionThread ν} (hp : s.pc = RunPc.locking) (hw : s.mayProceed = true) :
      Step s s.tail.toList s.splice.enter
  | take {s : CompletionThread ν} {task : ν} (hp : s.pc = RunPc.scanning) (ht : s.pending = some task) :
      Step s [task] (s.take task)
  | finish {s : CompletionThread ν} {task : ν} (hp : s.pc = RunPc.polling task) : Step s [task] (s.finish task)
  | defer {s : CompletionThread ν} {task : ν} (hp : s.pc = RunPc.polling task) :
      Step s (task :: s.deferredTail.toList) (s.defer task)
  | endScan {s : CompletionThread ν} (hp : s.pc = RunPc.scanning) (ht : s.pending = none) :
      Step s [] { s with pending := s.deferred, pc := RunPc.locking }

/-- All runs under a policy. -/
def system (pollingPolicy : CompletionPollingPolicy) : StepSystem (CompletionThread ν) where
  init := fun s => s = initial pollingPolicy
  step := fun s t => ∃ accessed, Step s accessed t

/-! ## The lists behind the pointers -/

/-- The thread is in a scan. -/
def RunPc.inScan : RunPc ν → Bool
  | scanning => true
  | polling _ => true
  | _ => false

/-- The three lists, and the task that is polled. -/
structure Lists (s : CompletionThread ν) (submitted pending deferred : List ν) : Prop where
  walkSubmitted : Walk s.next s.head submitted
  tail : s.tail = submitted.getLast?
  walkPending : Walk s.next s.pending pending
  walkDeferred : s.pc.inScan = true → Walk s.next s.deferred deferred ∧ s.deferredTail = deferred.getLast?
  outside : s.pc.inScan = false → deferred = []
  perm : (submitted ++ pending ++ deferred ++ s.pc.task).Perm s.unfinished
  nodup : s.unfinished.Nodup
  /-- A task that is in no list has a null pointer. -/
  fresh : ∀ a ∉ s.unfinished, s.next a = none
  polling : ∀ a ∈ s.pc.task, s.next a = none
  /-- The scan polls the tasks that were unfinished when it began, one after the other. -/
  scan : s.pc.inScan = true → s.scan.Nodup ∧ (s.polled ++ s.pc.task ++ pending).Perm s.scan

omit [DecidableEq ν] in
/-- Four lists without a common element. -/
theorem disjoint_of_nodup {a b c d : List ν} (h : (a ++ b ++ c ++ d).Nodup) :
    (a.Disjoint b ∧ a.Disjoint c ∧ a.Disjoint d) ∧ (b.Disjoint c ∧ b.Disjoint d) ∧ c.Disjoint d := by
  obtain ⟨habc, -, hd⟩ := List.nodup_append'.mp h
  obtain ⟨hab, -, hc⟩ := List.nodup_append'.mp habc
  obtain ⟨-, -, hb⟩ := List.nodup_append'.mp hab
  exact ⟨⟨hb, (List.disjoint_append_left.mp hc).1, (List.disjoint_append_left.mp (List.disjoint_append_left.mp hd).1).1⟩,
    ⟨(List.disjoint_append_left.mp hc).2, (List.disjoint_append_left.mp (List.disjoint_append_left.mp hd).1).2⟩,
    (List.disjoint_append_left.mp hd).2⟩

namespace Lists

variable {s : CompletionThread ν} {submitted pending deferred : List ν} {task : ν}

omit [DecidableEq ν] in
theorem disjoint (h : Lists s submitted pending deferred) :
    (submitted.Disjoint pending ∧ submitted.Disjoint deferred ∧ submitted.Disjoint s.pc.task) ∧
      (pending.Disjoint deferred ∧ pending.Disjoint s.pc.task) ∧ deferred.Disjoint s.pc.task :=
  disjoint_of_nodup (h.perm.nodup_iff.mpr h.nodup)

omit [DecidableEq ν] in
theorem mem_unfinished (h : Lists s submitted pending deferred) {a : ν} :
    a ∈ s.unfinished ↔ a ∈ submitted ∨ a ∈ pending ∨ a ∈ deferred ∨ a ∈ s.pc.task := by
  rw [← h.perm.mem_iff]
  simp only [List.mem_append, or_assoc]

omit [DecidableEq ν] in
theorem initial (pollingPolicy : CompletionPollingPolicy) :
    Lists (CompletionThread.initial pollingPolicy : CompletionThread ν) [] [] [] :=
  ⟨rfl, rfl, rfl, nofun, fun _ => rfl, List.Perm.refl _, List.nodup_nil, fun _ _ => rfl, nofun, nofun⟩

/-- A new task is linked behind the last one that was submitted. -/
theorem post (h : Lists s submitted pending deferred) (hnew : task ∉ s.unfinished) :
    Lists (s.post task) (submitted ++ [task]) pending deferred := by
  have hperm : (submitted ++ [task] ++ pending ++ deferred ++ s.pc.task).Perm (s.unfinished ++ [task]) := by
    refine List.Perm.trans ?_ (h.perm.append_right [task])
    have hrest : ([task] ++ (pending ++ deferred ++ s.pc.task)).Perm (pending ++ deferred ++ s.pc.task ++ [task]) :=
      List.perm_append_comm
    simpa only [List.append_assoc] using hrest.append_left submitted
  have hnodup : (s.unfinished ++ [task]).Nodup := by
    rw [List.nodup_append']
    exact ⟨h.nodup, List.nodup_singleton _, by simpa using hnew⟩
  have hlast : (submitted ++ [task]).getLast? = some task := List.getLast?_concat
  have hsingle : Walk s.next (some task) [task] := ⟨rfl, h.fresh task hnew⟩
  rcases ht : s.tail with _ | last
  · have hnil : submitted = [] := List.getLast?_eq_none_iff.mp (h.tail.symm.trans ht)
    subst hnil
    unfold CompletionThread.post
    simp only [ht]
    exact ⟨hsingle, rfl, h.walkPending, h.walkDeferred, h.outside, hperm, hnodup,
      fun a ha => h.fresh a fun hmem => ha (List.mem_append_left _ hmem), h.polling, h.scan⟩
  · have hmem : last ∈ submitted.getLast? := h.tail.symm.trans ht
    have hsub : last ∈ submitted := List.mem_of_getLast? hmem
    obtain ⟨⟨hsp, hsd, hst⟩, -⟩ := h.disjoint
    unfold CompletionThread.post
    simp only [ht]
    refine ⟨h.walkSubmitted.join hsingle hmem ?_, hlast.symm, h.walkPending.update (hsp hsub) _,
      fun hin => ⟨(h.walkDeferred hin).1.update (hsd hsub) _, (h.walkDeferred hin).2⟩, h.outside, hperm, hnodup,
      fun a ha => ?_, fun a ha => ?_, h.scan⟩
    · intro a ha ha'
      rw [List.mem_singleton.mp ha'] at ha
      exact hnew (h.mem_unfinished.mpr (Or.inl ha))
    · have hne : a ≠ last := fun heq => ha (List.mem_append_left _ (heq ▸ h.mem_unfinished.mpr (Or.inl hsub)))
      exact (Function.update_of_ne hne _ _).trans (h.fresh a fun hmem => ha (List.mem_append_left _ hmem))
    · have hne : a ≠ last := fun heq => hst hsub (heq ▸ ha)
      exact (Function.update_of_ne hne _ _).trans (h.polling a ha)

/-- The submission list is put in front of the pending list. -/
theorem splice (h : Lists s submitted pending deferred) (hp : s.pc = RunPc.locking) :
    Lists s.splice [] (submitted ++ pending) [] ∧ s.splice.pc = RunPc.locking ∧ s.splice.stopped = s.stopped ∧
      s.splice.unfinished = s.unfinished := by
  obtain rfl : deferred = [] := h.outside (by rw [hp]; rfl)
  rcases hh : s.head with _ | first
  · have hnil : submitted = [] := by
      cases submitted with
      | nil => rfl
      | cons a l => cases hh.symm.trans h.walkSubmitted.1
    subst hnil
    have hsame : s.splice = s := by
      unfold CompletionThread.splice
      simp only [hh]
    rw [hsame]
    exact ⟨h, hp, rfl, rfl⟩
  · have hne : submitted ≠ [] := by
      rintro rfl
      cases hh.symm.trans h.walkSubmitted
    obtain ⟨last, hlast⟩ : ∃ last, s.tail = some last := by
      rw [h.tail]
      exact ⟨_, List.getLast?_eq_some_getLast hne⟩
    have hmem : last ∈ submitted.getLast? := h.tail.symm.trans hlast
    have hsub : last ∈ s.unfinished := h.mem_unfinished.mpr (Or.inl (List.mem_of_getLast? hmem))
    have hsplice : s.splice = { s with
        next := update s.next last s.pending, pending := some first, head := none, tail := none } := by
      unfold CompletionThread.splice
      simp only [hh, hlast]
    have hin : ¬ s.pc.inScan = true := by rw [hp]; exact nofun
    have hwalk : Walk s.next (some first) submitted := hh ▸ h.walkSubmitted
    rw [hsplice]
    refine ⟨⟨rfl, rfl, hwalk.join h.walkPending hmem h.disjoint.1.1, fun hin' => absurd hin' hin, fun _ => rfl, ?_,
      h.nodup, fun a ha => ?_, ?_, fun hin' => absurd hin' hin⟩, hp, rfl, rfl⟩
    · exact h.perm
    · have hne : a ≠ last := fun heq => ha (heq ▸ hsub)
      exact (Function.update_of_ne hne _ _).trans (h.fresh a ha)
    · rw [hp]
      exact nofun

omit [DecidableEq ν] in
/-- A scan begins with the tasks that are unfinished then. -/
theorem enter (h : Lists s [] pending []) (hp : s.pc = RunPc.locking) : Lists s.enter [] pending [] := by
  have hperm := h.perm
  rw [hp] at hperm
  have hpending : pending.Perm s.unfinished := by simpa [RunPc.task] using hperm
  unfold CompletionThread.enter
  split
  · exact ⟨h.walkSubmitted, h.tail, h.walkPending, nofun, fun _ => rfl, hperm, h.nodup, h.fresh, nofun, nofun⟩
  · split
    · exact h
    · exact ⟨h.walkSubmitted, h.tail, h.walkPending, fun _ => ⟨rfl, rfl⟩, nofun, hperm, h.nodup, h.fresh, nofun,
        fun _ => ⟨h.nodup, by simpa [RunPc.task] using hpending⟩⟩

/-- The next task is taken out of the pending list. -/
theorem take (h : Lists s submitted pending deferred) (hp : s.pc = RunPc.scanning) (ht : s.pending = some task) :
    ∃ rest, pending = task :: rest ∧ Lists (s.take task) submitted rest deferred := by
  obtain _ | ⟨a, rest⟩ := pending
  · cases ht.symm.trans h.walkPending
  obtain rfl : task = a := Option.some.inj (ht.symm.trans h.walkPending.1)
  refine ⟨rest, rfl, ?_⟩
  obtain ⟨⟨hsp, -, -⟩, ⟨hpd, -⟩, -⟩ := h.disjoint
  have hsub : task ∉ submitted := fun hmem => hsp hmem List.mem_cons_self
  have hrest : task ∉ rest := (List.nodup_cons.mp h.walkPending.nodup).1
  have hdef : task ∉ deferred := hpd List.mem_cons_self
  have hin : s.pc.inScan = true := by rw [hp]; rfl
  have hperm := h.perm
  have hscan := (h.scan hin).2
  rw [hp] at hperm hscan
  refine ⟨h.walkSubmitted.update hsub _, h.tail, h.walkPending.2.update hrest _,
    fun _ => ⟨(h.walkDeferred hin).1.update hdef _, (h.walkDeferred hin).2⟩, nofun, ?_, h.nodup, fun a ha => ?_,
    fun a ha => ?_, fun _ => ⟨(h.scan hin).1, ?_⟩⟩
  · refine List.Perm.trans ?_ hperm
    simp only [CompletionThread.take, RunPc.task, List.append_nil, List.append_assoc, List.cons_append]
    refine List.Perm.append_left submitted ?_
    rw [← List.append_assoc]
    exact List.perm_append_singleton task (rest ++ deferred)
  · have hne : a ≠ task := by
      rintro rfl
      exact ha (h.mem_unfinished.mpr (Or.inr (Or.inl List.mem_cons_self)))
    exact (Function.update_of_ne hne _ _).trans (h.fresh a ha)
  · rw [List.mem_singleton.mp ha]
    exact Function.update_self _ _ _
  · refine List.Perm.trans ?_ hscan
    simp [CompletionThread.take, RunPc.task]

/-- A task that is complete is dropped. -/
theorem finish (h : Lists s submitted pending deferred) (hp : s.pc = RunPc.polling task) :
    Lists (s.finish task) submitted pending deferred := by
  have hin : s.pc.inScan = true := by rw [hp]; rfl
  have hperm := h.perm
  have hscan := (h.scan hin).2
  have hnext : s.next task = none := h.polling task (by rw [hp]; exact List.mem_singleton_self task)
  rw [hp] at hperm hscan
  refine ⟨h.walkSubmitted, h.tail, h.walkPending, fun _ => h.walkDeferred hin, nofun, ?_, h.nodup.erase task,
    fun a ha => ?_, nofun, fun _ => ⟨(h.scan hin).1, ?_⟩⟩
  · have herase := ((List.perm_append_singleton task (submitted ++ pending ++ deferred)).symm.trans hperm).erase task
    rw [List.erase_cons_head] at herase
    simpa [CompletionThread.finish, RunPc.task] using herase
  · rcases eq_or_ne a task with rfl | hne
    · exact hnext
    · exact h.fresh a fun hmem => ha ((List.mem_erase_of_ne hne).mpr hmem)
  · simpa [CompletionThread.finish, RunPc.task] using hscan

/-- A task that is not complete is linked behind the last one that was deferred. -/
theorem defer (h : Lists s submitted pending deferred) (hp : s.pc = RunPc.polling task) :
    Lists (s.defer task) submitted pending (deferred ++ [task]) := by
  have hin : s.pc.inScan = true := by rw [hp]; rfl
  have hnext : s.next task = none := h.polling task (by rw [hp]; exact List.mem_singleton_self task)
  obtain ⟨⟨-, hsd, hst⟩, ⟨hpd, hpt⟩, hdt⟩ := h.disjoint
  have hperm := h.perm
  have hscan := (h.scan hin).2
  rw [hp] at hperm hscan hdt
  obtain ⟨hwalk, hlast⟩ := h.walkDeferred hin
  have hperm' : (submitted ++ pending ++ (deferred ++ [task]) ++ []).Perm s.unfinished := by
    simpa [RunPc.task] using hperm
  have hscan' : (s.polled ++ [task] ++ [] ++ pending).Perm s.scan := by simpa [RunPc.task] using hscan
  have hsingle : Walk s.next (some task) [task] := ⟨rfl, hnext⟩
  rcases ht : s.deferredTail with _ | last
  · have hnil : deferred = [] := List.getLast?_eq_none_iff.mp (hlast.symm.trans ht)
    subst hnil
    unfold CompletionThread.defer
    simp only [ht]
    exact ⟨h.walkSubmitted, h.tail, h.walkPending, fun _ => ⟨hsingle, rfl⟩, nofun, hperm', h.nodup, h.fresh, nofun,
      fun _ => ⟨(h.scan hin).1, hscan'⟩⟩
  · have hmem : last ∈ deferred.getLast? := hlast.symm.trans ht
    have hdef : last ∈ deferred := List.mem_of_getLast? hmem
    unfold CompletionThread.defer
    simp only [ht]
    refine ⟨h.walkSubmitted.update (fun hmem' => hsd hmem' hdef) _, h.tail,
      h.walkPending.update (fun hmem' => hpd hmem' hdef) _,
      fun _ => ⟨hwalk.join hsingle hmem hdt, List.getLast?_concat.symm⟩, nofun, hperm', h.nodup, fun a ha => ?_, nofun,
      fun _ => ⟨(h.scan hin).1, hscan'⟩⟩
    have hne : a ≠ last := by
      rintro rfl
      exact ha (h.mem_unfinished.mpr (Or.inr (Or.inr (Or.inl hdef))))
    exact (Function.update_of_ne hne _ _).trans (h.fresh a ha)

omit [DecidableEq ν] in
/-- What was deferred is pending in the next scan. -/
theorem endScan (h : Lists s submitted pending deferred) (hp : s.pc = RunPc.scanning) (ht : s.pending = none) :
    pending = [] ∧ Lists { s with pending := s.deferred, pc := RunPc.locking } submitted deferred [] := by
  have hin : s.pc.inScan = true := by rw [hp]; rfl
  obtain rfl : pending = [] := by
    cases pending with
    | nil => rfl
    | cons a l => cases ht.symm.trans h.walkPending.1
  have hperm := h.perm
  rw [hp] at hperm
  refine ⟨rfl, h.walkSubmitted, h.tail, (h.walkDeferred hin).1, nofun, fun _ => rfl, ?_, h.nodup, h.fresh, nofun, nofun⟩
  simpa [RunPc.task] using hperm

/-- **The step lemma.** -/
theorem step {accessed : List ν} {t : CompletionThread ν} (h : Lists s submitted pending deferred)
    (hst : Step s accessed t) : ∃ submitted' pending' deferred', Lists t submitted' pending' deferred' := by
  cases hst with
  | post hnew => exact ⟨_, _, _, h.post hnew⟩
  | stop => exact ⟨_, _, _, h.walkSubmitted, h.tail, h.walkPending, h.walkDeferred, h.outside, h.perm, h.nodup, h.fresh,
      h.polling, h.scan⟩
  | lock hp hw =>
    obtain ⟨hsplice, hp', -⟩ := h.splice hp
    exact ⟨_, _, _, hsplice.enter hp'⟩
  | take hp ht =>
    obtain ⟨rest, -, htake⟩ := h.take hp ht
    exact ⟨_, _, _, htake⟩
  | finish hp => exact ⟨_, _, _, h.finish hp⟩
  | defer hp => exact ⟨_, _, _, h.defer hp⟩
  | endScan hp ht => exact ⟨_, _, _, (h.endScan hp ht).2⟩

omit [DecidableEq ν] in
theorem tail_mem (h : Lists s submitted pending deferred) {a : ν} (ha : a ∈ s.tail.toList) : a ∈ s.unfinished := by
  have hmem : a ∈ submitted.getLast? := h.tail ▸ Option.mem_toList.mp ha
  exact h.mem_unfinished.mpr (Or.inl (List.mem_of_getLast? hmem))

omit [DecidableEq ν] in
theorem task_mem (h : Lists s submitted pending deferred) (hp : s.pc = RunPc.polling task) : task ∈ s.unfinished := by
  refine h.mem_unfinished.mpr (Or.inr (Or.inr (Or.inr ?_)))
  rw [hp]
  exact List.mem_singleton_self task

/-- A step accesses unfinished tasks only. -/
theorem accessed {accessed : List ν} {t : CompletionThread ν} (h : Lists s submitted pending deferred)
    (hst : Step s accessed t) : ∀ a ∈ accessed, a ∈ s.unfinished := by
  cases hst with
  | post hnew => exact fun a ha => h.tail_mem ha
  | stop => exact nofun
  | lock hp hw => exact fun a ha => h.tail_mem ha
  | take hp ht =>
    intro a ha
    obtain rfl := List.mem_singleton.mp ha
    obtain ⟨rest, rfl, -⟩ := h.take hp ht
    exact h.mem_unfinished.mpr (Or.inr (Or.inl List.mem_cons_self))
  | finish hp =>
    intro a ha
    obtain rfl := List.mem_singleton.mp ha
    exact h.task_mem hp
  | defer hp =>
    intro a ha
    rcases List.mem_cons.mp ha with rfl | ha
    · exact h.task_mem hp
    · have hin : s.pc.inScan = true := by rw [hp]; rfl
      have hmem : a ∈ deferred.getLast? := (h.walkDeferred hin).2 ▸ Option.mem_toList.mp ha
      exact h.mem_unfinished.mpr (Or.inr (Or.inr (Or.inl (List.mem_of_getLast? hmem))))
  | endScan hp ht => exact nofun

/-- The thread returns when it is stopped and nothing is left. -/
theorem returns {accessed : List ν} {t : CompletionThread ν} (h : Lists s submitted pending deferred)
    (hst : Step s accessed t) (hs : s.pc ≠ RunPc.returned) (ht : t.pc = RunPc.returned) :
    t.stopped = true ∧ t.unfinished = [] ∧ t.head = none ∧ t.pending = none := by
  cases hst with
  | @post task hnew =>
    unfold CompletionThread.post at ht
    split at ht <;> exact absurd ht hs
  | stop => exact absurd ht hs
  | lock hp hw =>
    obtain ⟨hsplice, hp', -, -⟩ := h.splice hp
    unfold CompletionThread.enter at ht ⊢
    split at ht
    · next hdone =>
      obtain ⟨hpending, hstopped⟩ := Bool.and_eq_true_iff.mp hdone
      have hnone : s.splice.pending = none := Option.isNone_iff_eq_none.mp hpending
      have hnil : submitted ++ pending = [] := by
        have hwalk := hsplice.walkPending
        rw [hnone] at hwalk
        cases hl : submitted ++ pending with
        | nil => rfl
        | cons a l =>
          rw [hl] at hwalk
          cases hwalk.1
      have hperm := hsplice.perm
      rw [hnil, hp'] at hperm
      rw [if_pos hdone]
      exact ⟨hstopped, hperm.symm.eq_nil, hsplice.walkSubmitted, hnone⟩
    · split at ht
      · exact absurd (hp'.symm.trans ht) nofun
      · cases ht
  | take hp hpend => cases ht
  | finish hp => cases ht
  | @defer task hp =>
    unfold CompletionThread.defer at ht
    split at ht <;> cases ht
  | endScan hp hpend => cases ht

end Lists

/-! ## Every run -/

/-- The tasks of a thread are accounted for. -/
structure Tracked (s : CompletionThread ν) : Prop where
  /-- Every unfinished task is in one of the lists or is being polled; the lists end at null, and `m_tail`
  is the end of the submission list. -/
  lists : ∃ submitted pending deferred, Lists s submitted pending deferred
  acyclic : ∀ l, Walk s.next s.head l ∨ Walk s.next s.pending l → l.Nodup
  tail : s.tail = none ↔ s.head = none
  /-- A task that has finished is never accessed again. -/
  accessed : ∀ accessed t, Step s accessed t → ∀ a ∈ accessed, a ∈ s.unfinished
  /-- A scan begins with all unfinished tasks, -/
  begins : ∀ accessed t, Step s accessed t → s.pc = RunPc.locking → t.pc = RunPc.scanning →
    t.scan = t.unfinished ∧ t.polled = []
  /-- and at its end it has polled each of them once. -/
  ends : s.pc = RunPc.scanning → s.pending = none → s.scan.Nodup ∧ s.polled.Perm s.scan
  /-- The thread returns only when it is stopped and no task is pending or queued. -/
  returns : ∀ accessed t, Step s accessed t → s.pc ≠ RunPc.returned → t.pc = RunPc.returned →
    t.stopped = true ∧ t.unfinished = [] ∧ t.head = none ∧ t.pending = none

theorem lists_of_reachable {pollingPolicy : CompletionPollingPolicy} {s : CompletionThread ν}
    (h : (system pollingPolicy).Reachable s) : ∃ submitted pending deferred, Lists s submitted pending deferred := by
  refine StepSystem.Reachable.invariant (P := fun s => ∃ xs ys zs, Lists s xs ys zs) (fun s hs => ?_)
    (fun s t _ hinv hst => ?_) h
  · rw [hs]
    exact ⟨_, _, _, Lists.initial pollingPolicy⟩
  · obtain ⟨xs, ys, zs, hlists⟩ := hinv
    obtain ⟨accessed, hst⟩ := hst
    exact hlists.step hst

/-- **The completion thread neither loses nor double-polls tasks**, for every interleaving of posts with
its loop, under both policies and for any answers of the polls. -/
theorem tasks_neither_lost_nor_polled_twice (pollingPolicy : CompletionPollingPolicy) (s : CompletionThread ν)
    (h : (system pollingPolicy).Reachable s) : Tracked s := by
  obtain ⟨submitted, pending, deferred, hlists⟩ := lists_of_reachable h
  refine ⟨⟨_, _, _, hlists⟩, fun l hl => ?_, ?_, fun _ _ hst => hlists.accessed hst, fun accessed t hst hs ht => ?_,
    fun hs ht => ?_, fun _ _ hst => hlists.returns hst⟩
  · exact hl.elim Walk.nodup Walk.nodup
  · rw [hlists.tail, List.getLast?_eq_none_iff]
    constructor
    · intro hnil
      have hwalk := hlists.walkSubmitted
      rwa [hnil] at hwalk
    · intro hnone
      have hwalk := hlists.walkSubmitted
      rw [hnone] at hwalk
      cases submitted with
      | nil => rfl
      | cons a l => cases hwalk.1
  · cases hst with
    | @post task hnew =>
      unfold CompletionThread.post at ht
      split at ht <;> exact absurd (hs.symm.trans ht) nofun
    | stop => exact absurd (hs.symm.trans ht) nofun
    | lock hp hw =>
      unfold CompletionThread.enter at ht ⊢
      split at ht
      · cases ht
      · next hne =>
        split at ht
        · exact absurd ((hlists.splice hp).2.1.symm.trans ht) nofun
        · next hsome => rw [if_neg hne, if_neg hsome]; exact ⟨rfl, rfl⟩
    | take hp => exact absurd (hs.symm.trans hp) nofun
    | finish hp => exact absurd (hs.symm.trans hp) nofun
    | defer hp => exact absurd (hs.symm.trans hp) nofun
    | endScan hp => exact absurd (hs.symm.trans hp) nofun
  · have hin : s.pc.inScan = true := by rw [hs]; rfl
    obtain ⟨hnodup, hperm⟩ := hlists.scan hin
    rw [hs, (hlists.endScan hs ht).1] at hperm
    exact ⟨hnodup, by simpa [RunPc.task] using hperm⟩

/-- A run in which a task is posted and polled. -/
theorem reachable_polling (pollingPolicy : CompletionPollingPolicy) :
    ∃ s : CompletionThread ℕ, (system pollingPolicy).Reachable s ∧ s.unfinished = [0] ∧ s.head = none ∧
      s.pending = none ∧ s.deferred = none := by
  have h0 : (system pollingPolicy).Reachable (initial pollingPolicy : CompletionThread ℕ) := StepSystem.Reachable.init rfl
  have h1 := h0.step ⟨_, @Step.post _ _ _ 0 nofun⟩
  have h2 := h1.step ⟨_, Step.lock rfl rfl⟩
  exact ⟨_, h2.step ⟨_, Step.take rfl rfl⟩, rfl, rfl, rfl, rfl⟩

/-- Of three tasks one has been deferred and one has finished; the last is polled while a fourth is posted. -/
theorem tasks_neither_lost_nor_polled_twice_scanning : ∃ s : CompletionThread ℕ,
    (system CompletionPollingPolicy.continuous).Reachable s ∧ s.pc = RunPc.polling 2 ∧ s.unfinished = [0, 2, 3] ∧
      s.deferred = some 0 ∧ s.head = some 3 ∧ Tracked s := by
  have h0 : (system CompletionPollingPolicy.continuous).Reachable (initial _ : CompletionThread ℕ) :=
    StepSystem.Reachable.init rfl
  have h1 := ((h0.step ⟨_, @Step.post _ _ _ 0 nofun⟩).step ⟨_, @Step.post _ _ _ 1 (by decide)⟩).step
    ⟨_, @Step.post _ _ _ 2 (by decide)⟩
  have h2 := ((h1.step ⟨_, Step.lock rfl rfl⟩).step ⟨_, Step.take rfl rfl⟩).step ⟨_, Step.defer rfl⟩
  have h3 := (h2.step ⟨_, Step.take rfl rfl⟩).step ⟨_, Step.finish rfl⟩
  have h4 := (h3.step ⟨_, Step.take rfl rfl⟩).step ⟨_, @Step.post _ _ _ 3 (by decide)⟩
  exact ⟨_, h4, rfl, rfl, rfl, rfl, tasks_neither_lost_nor_polled_twice CompletionPollingPolicy.continuous _ h4⟩

/-- While it is polled, a task is in none of the three lists. -/
theorem polled_task_in_no_list : ¬ ∀ s : CompletionThread ℕ,
    (system CompletionPollingPolicy.continuous).Reachable s → ∃ submitted pending deferred,
      Walk s.next s.head submitted ∧ Walk s.next s.pending pending ∧ Walk s.next s.deferred deferred ∧
        ∀ a ∈ s.unfinished, a ∈ submitted ++ pending ++ deferred := by
  intro hall
  obtain ⟨s, hs, hun, hhead, hpending, hdeferred⟩ := reachable_polling CompletionPollingPolicy.continuous
  obtain ⟨xs, ys, zs, hx, hy, hz, hmem⟩ := hall s hs
  rw [hhead] at hx
  rw [hpending] at hy
  rw [hdeferred] at hz
  have hnil : ∀ {l : List ℕ}, Walk s.next none l → l = [] := fun hl => hl.unique rfl
  rw [hnil hx, hnil hy, hnil hz, hun] at hmem
  exact absurd (hmem 0 (List.mem_singleton_self 0)) nofun

end CompletionThread

end Caravan
end Spearhed
