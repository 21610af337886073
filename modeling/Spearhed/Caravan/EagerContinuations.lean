import Spearhed.Caravan.EagerState
import Spearhed.Library.LinkedList

/-!
# Continuations run once

The queue of a thread is mutated while it is drained: a continuation that is called may dispatch others,
behind those that are waiting or into a queue whose last node was just taken out.  `Queued` says what the
pointers are at every moment, and with the places and the stacks of `EagerState` it gives the result.

* `Queued.enqueue`, `Queued.pop`: what the two operations do.
* `continuations_run_once`: what holds in every reachable state.
-/

namespace Spearhed
namespace Caravan
namespace Eager

open Library
open Spearhed.Caravan.Eager.Runtime

variable {T σ V : Type} [DecidableEq T] [DecidableEq σ]

/-! ## The queues -/

/-- The pointers of the queues lead through the continuations that were dispatched and did not run yet. -/
structure Queued (s : Runtime T σ V) (waiting : T → List ℕ) : Prop where
  walk : ∀ t, Walk s.next (s.queue t).head (waiting t)
  tail : ∀ t, (s.queue t).tail = (waiting t).getLast?
  order : ∀ t, s.dispatched t = s.called t ++ waiting t
  unlinked : ∀ k, (∀ t, k ∉ waiting t) → s.next k = none

/-- A thread outside of `dispatch` has an empty queue. -/
def Idle (s : Runtime T σ V) (waiting : T → List ℕ) : Prop := ∀ t, (s.queue t).running = false → waiting t = []

namespace Queued

variable {s t : Runtime T σ V} {waiting : T → List ℕ} {place : ℕ → Option (Place T σ)} {τ : T}

omit [DecidableEq T] [DecidableEq σ] in
theorem initial : Queued (Runtime.initial : Runtime T σ V) fun _ => [] :=
  ⟨fun _ => rfl, fun _ => rfl, fun _ => rfl, fun _ _ => rfl⟩

omit [DecidableEq T] [DecidableEq σ] in
theorem congr (h : Queued s waiting) (hnext : t.next = s.next)
    (hqueue : ∀ t', (t.queue t').head = (s.queue t').head ∧ (t.queue t').tail = (s.queue t').tail)
    (hdispatched : t.dispatched = s.dispatched) (hcalled : t.called = s.called) : Queued t waiting := by
  refine ⟨fun t' => ?_, fun t' => ?_, fun t' => ?_, ?_⟩
  · rw [hnext, (hqueue t').1]
    exact h.walk t'
  · rw [(hqueue t').2]
    exact h.tail t'
  · rw [hdispatched, hcalled]
    exact h.order t'
  · rw [hnext]
    exact h.unlinked

omit [DecidableEq T] [DecidableEq σ] in
/-- No continuation waits in two queues. -/
theorem notMem (h : Queued s waiting) (hloc : Located s place) {t' : T} {k : ℕ} (hk : k ∈ waiting τ) (hne : t' ≠ τ) :
    k ∉ waiting t' := by
  intro hk'
  have hin : ∀ {t : T}, k ∈ waiting t → k ∈ s.contents (Place.dispatched t) := fun {t} hk => by
    rw [Runtime.contents, h.order]
    exact List.mem_append_right _ hk
  have hplace := hloc.placed.eq (hin hk') (hin hk)
  cases hplace
  exact hne rfl

omit [DecidableEq σ] in
/-- A continuation is linked behind the others. -/
theorem enqueue (h : Queued s waiting) (hloc : Located s place) (τ : T) {task : ℕ} (hnew : ∀ t, task ∉ s.dispatched t) :
    Queued (s.enqueue τ task) (Function.update waiting τ (waiting τ ++ [task])) := by
  have hfree : ∀ t, task ∉ waiting t := fun t hk => hnew t (h.order t ▸ List.mem_append_right _ hk)
  have hsingle : Walk s.next (some task) [task] := ⟨rfl, h.unlinked task hfree⟩
  obtain ⟨-, -, -, hcalled, hdispatched⟩ := enqueue_eq s τ task
  have hmem : ∀ {k : ℕ}, (∀ t, k ∉ Function.update waiting τ (waiting τ ++ [task]) t) → ∀ t, k ∉ waiting t := by
    intro k hk t hkt
    refine hk t ?_
    rcases eq_or_ne t τ with rfl | hne
    · rw [Function.update_self]
      exact List.mem_append_left _ hkt
    · rwa [Function.update_of_ne hne]
  refine ⟨fun t => ?_, fun t => ?_, fun t => ?_, fun k hk => ?_⟩
  · rcases ht : (s.queue τ).tail with _ | last
    · have hnil : waiting τ = [] := List.getLast?_eq_none_iff.mp ((h.tail τ).symm.trans ht)
      rw [next_enqueue_none s ht]
      rcases eq_or_ne t τ with rfl | hne
      · rw [queue_enqueue, if_pos ht, Function.update_self, hnil]
        exact hsingle
      · rw [queue_enqueue_of_ne s hne, Function.update_of_ne hne]
        exact h.walk t
    · have hlast : last ∈ (waiting τ).getLast? := (h.tail τ).symm.trans ht
      rw [next_enqueue_some s ht]
      rcases eq_or_ne t τ with rfl | hne
      · rw [queue_enqueue, ht, if_neg (Option.some_ne_none last), Function.update_self]
        exact (h.walk t).join hsingle hlast fun a ha ha' => hfree t (List.mem_singleton.mp ha' ▸ ha)
      · rw [queue_enqueue_of_ne s hne, Function.update_of_ne hne]
        exact (h.walk t).update (h.notMem hloc (List.mem_of_getLast? hlast) hne) _
  · rcases eq_or_ne t τ with rfl | hne
    · rw [queue_enqueue, Function.update_self, List.getLast?_concat]
    · rw [queue_enqueue_of_ne s hne, Function.update_of_ne hne]
      exact h.tail t
  · rw [hdispatched, hcalled]
    rcases eq_or_ne t τ with rfl | hne
    · rw [Function.update_self, Function.update_self, h.order, List.append_assoc]
    · rw [Function.update_of_ne hne, Function.update_of_ne hne]
      exact h.order t
  · have hold := h.unlinked k (hmem hk)
    rcases ht : (s.queue τ).tail with _ | last
    · rwa [next_enqueue_none s ht]
    · have hlast : last ∈ (waiting τ).getLast? := (h.tail τ).symm.trans ht
      have hne : k ≠ last := by
        rintro rfl
        exact hmem hk τ (List.mem_of_getLast? hlast)
      rwa [next_enqueue_some s ht, Function.update_of_ne hne]

omit [DecidableEq σ] in
/-- The first continuation is called. -/
theorem pop (h : Queued s waiting) (hloc : Located s place) {task : ℕ} (hh : (s.queue τ).head = some task) :
    ∃ rest, waiting τ = task :: rest ∧ Queued ((s.pop τ task).record τ task) (Function.update waiting τ rest) := by
  have hwalk := h.walk τ
  rw [hh] at hwalk
  rcases hw : waiting τ with _ | ⟨a, rest⟩
  · rw [hw] at hwalk
    cases hwalk
  rw [hw] at hwalk
  obtain rfl : task = a := Option.some.inj hwalk.1
  have hmem : task ∈ waiting τ := hw ▸ List.mem_cons_self
  have hrest : task ∉ rest := (List.nodup_cons.mp hwalk.nodup).1
  refine ⟨rest, rfl, fun t => ?_, fun t => ?_, fun t => ?_, fun k hk => ?_⟩
  · rcases eq_or_ne t τ with rfl | hne
    · rw [queue_record, queue_pop, Function.update_self]
      exact hwalk.2.update hrest _
    · rw [queue_record, queue_pop_of_ne s hne, Function.update_of_ne hne]
      exact (h.walk t).update (h.notMem hloc hmem hne) _
  · rcases eq_or_ne t τ with rfl | hne
    · rw [queue_record, queue_pop, Function.update_self, h.tail, hw]
      cases rest with
      | nil => exact if_pos hwalk.2
      | cons b rest =>
        rw [if_neg (by rw [hwalk.2.1]; exact Option.some_ne_none b), List.getLast?_cons_cons]
    · rw [queue_record, queue_pop_of_ne s hne, Function.update_of_ne hne]
      exact h.tail t
  · rcases eq_or_ne t τ with rfl | hne
    · have hcalled : ((s.pop t task).record t task).called t = s.called t ++ [task] :=
        Function.update_self _ _ _
      have hdispatched : ((s.pop t task).record t task).dispatched = s.dispatched := rfl
      rw [hdispatched, hcalled, Function.update_self, h.order, hw, List.append_assoc]
      rfl
    · have hcalled : ((s.pop τ task).record τ task).called t = s.called t :=
        Function.update_of_ne hne _ _
      have hdispatched : ((s.pop τ task).record τ task).dispatched = s.dispatched := rfl
      rw [hdispatched, hcalled, Function.update_of_ne hne]
      exact h.order t
  · have hnext : ((s.pop τ task).record τ task).next = Function.update s.next task none := rfl
    rw [hnext]
    rcases eq_or_ne k task with rfl | hne
    · exact Function.update_self _ _ _
    · rw [Function.update_of_ne hne]
      refine h.unlinked k fun t hkt => ?_
      rcases eq_or_ne t τ with rfl | hnet
      · rw [hw] at hkt
        have hkr := hk t
        rw [Function.update_self] at hkr
        exact hkr (List.mem_of_ne_of_mem hne hkt)
      · have hkr := hk t
        rw [Function.update_of_ne hnet] at hkr
        exact hkr hkt

end Queued

omit [DecidableEq σ] in
/-- The stack and the queue are apart. -/
theorem enqueue_setStack (s : Runtime T σ V) (τ : T) (frames : List (Frame σ V)) (task : ℕ) :
    (s.setStack τ frames).enqueue τ task = (s.enqueue τ task).setStack τ frames := by
  have hqueue : (s.setStack τ frames).queue = s.queue := rfl
  unfold Runtime.enqueue
  rw [hqueue]
  split <;> rfl

/-- The invariant. -/
def Inv (s : Runtime T σ V) : Prop :=
  ∃ place waiting, Located s place ∧ Shaped s ∧ Queued s waiting ∧ Idle s waiting

namespace Inv

variable {s t : Runtime T σ V}

omit [DecidableEq T] [DecidableEq σ] in
theorem initial : Inv (Runtime.initial : Runtime T σ V) :=
  ⟨_, _, Located.initial, Shaped.initial, Queued.initial, fun _ _ => rfl⟩

/-- What the queues do in a step. -/
theorem queued {place : ℕ → Option (Place T σ)} {waiting : T → List ℕ} (hloc : Located s place) (hshape : Shaped s)
    (h : Queued s waiting) (hidle : Idle s waiting) (hst : Step s t) : ∃ waiting', Queued t waiting' ∧ Idle t waiting' := by
  have hnew : ∀ {τ : T} {task : ℕ} {rest : List (Frame σ V)}, s.stack τ = Frame.dispatch task :: rest →
      ∀ t, task ∉ s.dispatched t := by
    intro τ task rest hτ t hmem
    have hheld : task ∈ s.contents (Place.held τ) := by
      rw [Runtime.contents, hτ]
      exact List.mem_cons_self
    have hdispatched : task ∈ s.contents (Place.dispatched t) := hmem
    cases hloc.placed.eq hheld hdispatched
  have hquiet : t.next = s.next → t.queue = s.queue → t.dispatched = s.dispatched → t.called = s.called →
      ∃ waiting', Queued t waiting' ∧ Idle t waiting' := by
    intro hnext hqueue hdispatched hcalled
    refine ⟨waiting, h.congr hnext (fun t' => by rw [hqueue]; exact ⟨rfl, rfl⟩) hdispatched hcalled, fun t' ht' => ?_⟩
    rw [hqueue] at ht'
    exact hidle t' ht'
  cases hst with
  | callSubscribe | callSubscribeReady | callComplete | subscribePending | subscribeReady | completePending | completeReady
  | dispatchNext | completeReturn | functionReturn => exact hquiet rfl rfl rfl rfl
  | @dispatchNested τ task rest hτ hr =>
    refine ⟨_, (h.enqueue hloc τ (hnew hτ)).congr ?_ ?_ ?_ ?_, fun t' ht' => ?_⟩
    · rw [enqueue_setStack]
      rfl
    · rw [enqueue_setStack]
      exact fun _ => ⟨rfl, rfl⟩
    · rw [enqueue_setStack]
      rfl
    · rw [enqueue_setStack]
      rfl
    · rw [Shaped.running_enqueue] at ht'
      have hne : t' ≠ τ := by
        rintro rfl
        exact absurd (ht'.symm.trans hr) Bool.false_ne_true
      rw [Function.update_of_ne hne]
      exact hidle t' ht'
  | @dispatchOutermost τ task rest hτ hr =>
    rw [enqueue_setStack]
    refine ⟨_, (h.enqueue hloc τ (hnew hτ)).congr rfl (fun t' => ?_) rfl rfl, fun t' ht' => ?_⟩
    · rcases eq_or_ne t' τ with rfl | hne
      · rw [queue_setRunning]
        exact ⟨rfl, rfl⟩
      · rw [queue_setRunning_of_ne _ hne]
        exact ⟨rfl, rfl⟩
    · have hne : t' ≠ τ := by
        rintro rfl
        rw [queue_setRunning] at ht'
        cases ht'
      rw [Function.update_of_ne hne]
      refine hidle t' ?_
      rw [queue_setRunning_of_ne _ hne] at ht'
      exact (Shaped.running_enqueue s τ task t').symm.trans ht'
  | @call τ task rest hτ hh =>
    obtain ⟨waiting', -, hpop⟩ := h.pop hloc hh
    refine ⟨_, hpop.congr rfl (fun _ => ⟨rfl, rfl⟩) rfl rfl, fun t' ht' => ?_⟩
    rw [queue_record, Shaped.running_pop] at ht'
    have hne : t' ≠ τ := by
      rintro rfl
      have hdrain := hshape t'
      rw [hτ] at hdrain
      exact absurd (ht'.symm.trans hdrain.of_drain.1) Bool.false_ne_true
    rw [Function.update_of_ne hne]
    exact hidle t' ht'
  | @drained τ rest hτ hh =>
    have hnil : waiting τ = [] := by
      have hwalk := h.walk τ
      rw [hh] at hwalk
      exact hwalk.unique rfl
    refine ⟨waiting, h.congr rfl (fun t' => ?_) rfl rfl, fun t' ht' => ?_⟩
    · rcases eq_or_ne t' τ with rfl | hne
      · rw [queue_setRunning]
        exact ⟨rfl, rfl⟩
      · rw [queue_setRunning_of_ne _ hne]
        exact ⟨rfl, rfl⟩
    · rcases eq_or_ne t' τ with rfl | hne
      · exact hnil
      · rw [queue_setRunning_of_ne _ hne] at ht'
        exact hidle t' ht'

/-- **The step lemma.** -/
theorem step (h : Inv s) (hst : Step s t) : Inv t := by
  obtain ⟨place, waiting, hloc, hshape, hqueued, hidle⟩ := h
  obtain ⟨place', hloc'⟩ := hloc.step hst
  obtain ⟨waiting', hqueued', hidle'⟩ := queued hloc hshape hqueued hidle hst
  exact ⟨place', waiting', hloc', hshape.step hst, hqueued', hidle'⟩

theorem of_reachable (h : (system T σ V).Reachable s) : Inv s :=
  h.invariant (fun _ hs => hs ▸ initial) fun _ _ _ hinv hst => hinv.step hst

end Inv

/-! ## Every run -/

section Runs

variable {s t : Runtime T σ V}

/-- A completed state stays as it is. -/
theorem Step.states_of_ready (hst : Step s t) {x : σ} (hx : (s.states x).ready = true) : t.states x = s.states x := by
  have hother : ∀ {y : σ} {s' : Runtime T σ V} {o : StateObject V}, (s.states y).ready = false → s'.states = s.states →
      (s'.setState y o).states x = s.states x := by
    intro y s' o hy hs'
    have hne : x ≠ y := by
      rintro rfl
      exact absurd (hx.symm.trans hy) nofun
    rw [Located.states_setState_of_ne _ hne, hs']
  cases hst with
  | callSubscribe | callSubscribeReady | callComplete | subscribeReady | completeReady | dispatchNext | completeReturn
  | call | functionReturn | drained => rfl
  | subscribePending hτ hy => exact hother hy rfl
  | completePending hτ hy => exact hother hy rfl
  | @dispatchNested τ task rest hτ hr => exact congrFun (enqueue_eq (s.setStack τ rest) τ task).1 x
  | @dispatchOutermost τ task rest hτ hr => exact congrFun (enqueue_eq (s.setStack τ (Frame.drain :: rest)) τ task).1 x

/-- The continuations of the states run once. -/
structure RunOnce (s : Runtime T σ V) : Prop where
  /-- Exactly one `complete` succeeds, -/
  succeeded : ∀ x, (s.states x).succeeded = if (s.states x).ready then 1 else 0
  /-- and the state does not change after it. -/
  final : ∀ t, Step s t → ∀ x, (s.states x).ready = true → t.states x = s.states x
  /-- No continuation is dispatched twice, on one thread or on two, -/
  once : ∀ τ τ' k, k ∈ s.dispatched τ → (s.dispatched τ).count k = 1 ∧ (k ∈ s.dispatched τ' → τ = τ')
  /-- none before its state is completed, -/
  after : ∀ τ k x, k ∈ s.dispatched τ → s.subscriptions[k]? = some (some x) → (s.states x).ready = true
  /-- and each one is dispatched, or is registered with a pending state, or is in a call that registers or
  dispatches it. -/
  accounted : ∀ k < s.subscriptions.length, (∃ τ, k ∈ s.dispatched τ) ∨
    (∃ x, s.subscriptions[k]? = some (some x) ∧ (s.states x).ready = false ∧ k ∈ (s.states x).continuations) ∨
      ∃ τ, ∃ f ∈ s.stack τ, k ∈ f.subscribing ∨ k ∈ f.held
  /-- A thread calls continuations in the order in which they were dispatched; the others are in its
  queue. -/
  order : ∀ τ, ∃ waiting, Walk s.next (s.queue τ).head waiting ∧ (s.queue τ).tail = waiting.getLast? ∧
    s.dispatched τ = s.called τ ++ waiting
  /-- It runs them one at a time, in one call of `dispatch`. -/
  oneAtATime : ∀ τ, (s.stack τ).countP Frame.isFunction ≤ 1 ∧
    (s.stack τ).countP Frame.isDrain = if (s.queue τ).running then 1 else 0
  /-- Outside of that call its queue is empty. -/
  empty : ∀ τ, (s.queue τ).running = false →
    (s.queue τ).head = none ∧ (s.queue τ).tail = none ∧ s.called τ = s.dispatched τ
  /-- So when all calls have returned, every continuation of a completed state has run. -/
  quiescent : (∀ τ, s.stack τ = []) → ∀ k < s.subscriptions.length,
    (∀ x, s.subscriptions[k]? = some (some x) → (s.states x).ready = true) → ∃ τ, k ∈ s.called τ

/-- **Event continuations run exactly once**, for every interleaving of calls of `complete` and `subscribe`
on any threads, also from inside of continuations. -/
theorem continuations_run_once (s : Runtime T σ V) (h : (system T σ V).Reachable s) : RunOnce s := by
  obtain ⟨place, waiting, hloc, hshape, hqueued, hidle⟩ := Inv.of_reachable h
  have hempty : ∀ τ, (s.queue τ).running = false →
      (s.queue τ).head = none ∧ (s.queue τ).tail = none ∧ s.called τ = s.dispatched τ := by
    intro τ hr
    have hnil := hidle τ hr
    have hwalk := hqueued.walk τ
    have htail := hqueued.tail τ
    have horder := hqueued.order τ
    rw [hnil] at hwalk htail horder
    exact ⟨hwalk, htail, by rw [horder, List.append_nil]⟩
  have haccounted : ∀ k < s.subscriptions.length, (∃ τ, k ∈ s.dispatched τ) ∨
      (∃ x, s.subscriptions[k]? = some (some x) ∧ (s.states x).ready = false ∧ k ∈ (s.states x).continuations) ∨
        ∃ τ, ∃ f ∈ s.stack τ, k ∈ f.subscribing ∨ k ∈ f.held := by
    intro k hk
    obtain ⟨c, hc⟩ := Option.ne_none_iff_exists'.mp fun hnone => absurd ((hloc.bound k).mp hnone) (by omega)
    have hmem := (hloc.placed.mem c k).mpr hc
    cases c with
    | subscribing τ =>
      obtain ⟨f, hf, hkf⟩ := List.mem_flatMap.mp hmem
      exact Or.inr (Or.inr ⟨τ, f, hf, Or.inl hkf⟩)
    | held τ =>
      obtain ⟨f, hf, hkf⟩ := List.mem_flatMap.mp hmem
      exact Or.inr (Or.inr ⟨τ, f, hf, Or.inr hkf⟩)
    | dispatched τ => exact Or.inl ⟨τ, hmem⟩
    | registered x =>
      refine Or.inr (Or.inl ⟨x, hloc.registered x k hmem, ?_, hmem⟩)
      by_contra hready
      have hnil := hloc.pending x (Bool.eq_true_of_not_eq_false hready)
      rw [Runtime.contents, hnil] at hmem
      cases hmem
  refine ⟨hloc.succeeded, fun t hst x hx => hst.states_of_ready hx, fun τ τ' k hk => ⟨?_, fun hk' => ?_⟩,
    fun τ k x hk hx => hloc.dispatched τ k hk x hx, haccounted,
    fun τ => ⟨waiting τ, hqueued.walk τ, hqueued.tail τ, hqueued.order τ⟩, fun τ => (hshape τ).countP_le, hempty,
    fun hstack k hk hready => ?_⟩
  · exact List.count_eq_one_of_mem (hloc.placed.nodup (Place.dispatched τ)) hk
  · have hd : k ∈ s.contents (Place.dispatched τ) := hk
    have hd' : k ∈ s.contents (Place.dispatched τ') := hk'
    have hplace := hloc.placed.eq hd hd'
    cases hplace
    rfl
  · rcases haccounted k hk with ⟨τ, hmem⟩ | ⟨x, hx, hpending, -⟩ | ⟨τ, f, hf, -⟩
    · have hr : (s.queue τ).running = false := by
        have hbase := (hshape τ).free (hstack τ ▸ Free.outside)
        rw [hstack τ] at hbase
        cases hr : (s.queue τ).running with
        | false => rfl
        | true => rw [hr] at hbase; cases hbase
      exact ⟨τ, (hempty τ hr).2.2 ▸ hmem⟩
    · exact absurd (hpending.symm.trans (hready x hx)) Bool.false_ne_true
    · rw [hstack τ] at hf
      cases hf

/-- A run in which a continuation is registered, the state is completed and the continuation runs. -/
theorem exists_reachable_called :
    ∃ s : Runtime Unit Unit Unit, (system Unit Unit Unit).Reachable s ∧ (∀ τ, s.stack τ = []) ∧
      s.subscriptions = [some ()] ∧ (s.states ()).ready = true := by
  have h0 : (system Unit Unit Unit).Reachable Runtime.initial := StepSystem.Reachable.init rfl
  have h1 := (h0.step (@Step.callSubscribe _ _ _ _ _ _ () () Free.outside)).step (@Step.subscribePending _ _ _ _ _ _ () _ _ _ rfl rfl)
  have h2 := (h1.step (@Step.callComplete _ _ _ _ _ _ () () () Free.outside)).step (@Step.completePending _ _ _ _ _ _ () _ _ _ rfl rfl)
  have h3 := (h2.step (@Step.dispatchNext _ _ _ _ _ _ () _ _ _ rfl)).step (@Step.dispatchOutermost _ _ _ _ _ _ () _ _ rfl rfl)
  have h4 := (h3.step (@Step.call _ _ _ _ _ _ () 0 _ rfl rfl)).step (@Step.functionReturn _ _ _ _ _ _ () _ _ rfl)
  have h5 := (h4.step (@Step.drained _ _ _ _ _ _ () _ rfl rfl)).step (@Step.completeReturn _ _ _ _ _ _ () _ rfl)
  exact ⟨_, h5, fun _ => rfl, rfl, rfl⟩

/-- So it has run. -/
theorem continuations_run_once_called : ∃ s : Runtime Unit Unit Unit,
    (system Unit Unit Unit).Reachable s ∧ 0 ∈ s.called () := by
  obtain ⟨s, hs, hstack, hsub, hready⟩ := exists_reachable_called
  obtain ⟨τ, hτ⟩ := (continuations_run_once s hs).quiescent hstack 0 (by rw [hsub]; exact Nat.one_pos) fun _ _ => hready
  exact ⟨s, hs, hτ⟩

end Runs

end Eager
end Caravan
end Spearhed
