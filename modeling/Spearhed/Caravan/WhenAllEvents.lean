import Spearhed.Caravan.EagerProgress
import Spearhed.Caravan.WhenAllOperation

/-!
# The join of several events

`whenAll` subscribes one continuation to each event of the span, also where an event occurs twice.  Each
continuation counts itself in a `WhenAllState`, and the one that counts the last completes it.  Around it
all threads go on with anything that `EagerState` allows, apart from completing that state, which nobody
else can name.

* `Eager.Step.advance`: a step replaces the top of one stack.
* `Inv.step`: the counter is the number of continuations that have not counted themselves.
* `ends_of_ready`: once all events are ready, the calls return and the join is ready.
* `joins_complete_once`: the two forms of a join.
-/

namespace Spearhed
namespace Caravan

open Library

namespace Eager

open Spearhed.Caravan.Eager.Runtime

variable {T σ V : Type}

/-- A thread replaces the top of its stack. -/
structure Advance (s t : Runtime T σ V) (τ : T) (old new rest : List (Frame σ V)) : Prop where
  before : s.stack τ = old ++ rest
  length : old.length ≤ 1
  after : t.stack τ = new ++ rest
  others : ∀ τ', τ' ≠ τ → t.stack τ' = s.stack τ'
  /-- `complete` is left when the state is ready, -/
  completed : ∀ x v, Frame.complete x v ∈ old → (t.states x).ready = true
  /-- is the only way to make it ready, -/
  ready : ∀ x, (t.states x).ready = true → (s.states x).ready = true ∨ ∃ v, Frame.complete x v ∈ old
  /-- and is entered by a call. -/
  complete : ∀ x v, Frame.complete x v ∈ new → t.stack τ = Frame.complete x v :: s.stack τ
  called : t.called = s.called ∨
    ∃ k, Frame.function k ∈ new ∧ t.called τ = s.called τ ++ [k] ∧ ∀ τ', τ' ≠ τ → t.called τ' = s.called τ'
  function : ∀ k, Frame.function k ∈ new → k ∈ t.called τ
  subscriptions : s.subscriptions <+: t.subscriptions

variable [DecidableEq T] [DecidableEq σ] {s t : Runtime T σ V}

/-- **What a step does to the stacks.** -/
theorem Step.advance (hst : Step s t) : ∃ τ old new rest, Advance s t τ old new rest := by
  have hsetStack : ∀ (τ : T) (frames : List (Frame σ V)) (u : Runtime T σ V), u.stack = (s.setStack τ frames).stack →
      u.stack τ = frames ∧ ∀ τ', τ' ≠ τ → u.stack τ' = s.stack τ' := by
    intro τ frames u hu
    rw [hu]
    exact ⟨Located.stack_setStack s τ frames, fun τ' hne => Located.stack_setStack_of_ne s hne frames⟩
  -- a frame that touches no state and calls nothing
  have hquiet : ∀ {τ : T} (old new : List (Frame σ V)) {rest : List (Frame σ V)}, s.stack τ = old ++ rest → old.length ≤ 1 → t.stack τ = new ++ rest →
      (∀ τ', τ' ≠ τ → t.stack τ' = s.stack τ') → (∀ x, (t.states x).ready = (s.states x).ready) → t.called = s.called →
      s.subscriptions <+: t.subscriptions → (∀ x v, Frame.complete x v ∈ old → (s.states x).ready = true) →
      (∀ x v, Frame.complete x v ∈ new → t.stack τ = Frame.complete x v :: s.stack τ) → (∀ k, Frame.function k ∉ new) →
      ∃ τ old new rest, Advance s t τ old new rest := by
    intro τ old new rest hbefore hlength hafter hothers hready hcalled hsubscriptions hold hnew hfunction
    exact ⟨τ, old, new, rest, hbefore, hlength, hafter, hothers, fun x v hx => (hready x).trans (hold x v hx),
      fun x hx => Or.inl ((hready x).symm.trans hx), hnew, Or.inl hcalled, fun k hk => absurd hk (hfunction k), hsubscriptions⟩
  have hsetState : ∀ {u : Runtime T σ V} {y : σ} {o : StateObject V}, u.states = s.states → o.ready = (s.states y).ready →
      ∀ x, ((u.setState y o).states x).ready = (s.states x).ready := by
    intro u y o hu ho x
    rcases eq_or_ne x y with rfl | hne
    · rw [Located.states_setState, ho]
    · rw [Located.states_setState_of_ne _ hne, hu]
  cases hst with
  | @callSubscribe τ x hτ =>
    obtain ⟨hself, hothers⟩ := hsetStack τ _ ({ s.setStack τ _ with subscriptions := _ }) rfl
    exact hquiet [] [Frame.subscribe x _] rfl (Nat.zero_le _) hself hothers (fun _ => rfl) rfl ⟨_, rfl⟩
      (fun _ _ => nofun) (by simp) (by simp)
  | @callSubscribeReady τ hτ =>
    obtain ⟨hself, hothers⟩ := hsetStack τ _ ({ s.setStack τ _ with subscriptions := _ }) rfl
    exact hquiet [] [Frame.dispatch _] rfl (Nat.zero_le _) hself hothers (fun _ => rfl) rfl ⟨_, rfl⟩
      (fun _ _ => nofun) (by simp) (by simp)
  | @callComplete τ x v hτ =>
    obtain ⟨hself, hothers⟩ := hsetStack τ _ (s.setStack τ _) rfl
    refine hquiet [] [Frame.complete x v] rfl (Nat.zero_le _) hself hothers (fun _ => rfl) rfl (List.prefix_refl _)
      (fun _ _ => nofun) (fun y w hy => ?_) (by simp)
    obtain ⟨rfl, rfl⟩ := Frame.complete.inj (List.mem_singleton.mp hy)
    exact hself
  | @subscribePending τ x task rest hτ hx =>
    obtain ⟨hself, hothers⟩ := hsetStack τ rest ((s.setStack τ rest).setState x _) rfl
    exact hquiet [_] [] hτ le_rfl hself hothers (hsetState rfl rfl) rfl (List.prefix_refl _) (by simp) (by simp)
      (by simp)
  | @subscribeReady τ x task rest hτ hx =>
    obtain ⟨hself, hothers⟩ := hsetStack τ _ (s.setStack τ (Frame.dispatch task :: rest)) rfl
    exact hquiet [_] [_] hτ le_rfl hself hothers (fun _ => rfl) rfl (List.prefix_refl _) (by simp) (by simp)
      (by simp)
  | @completePending τ x v rest hτ hx =>
    obtain ⟨hself, hothers⟩ := hsetStack τ (Frame.dispatchAll (s.states x).continuations :: rest)
      ((s.setStack τ _).setState x _) rfl
    refine ⟨τ, [Frame.complete x v], [_], rest, hτ, le_rfl, hself, hothers, fun y w hy => ?_, fun y hy => ?_, by simp, Or.inl rfl,
      by simp, List.prefix_refl _⟩
    · obtain ⟨rfl, rfl⟩ := Frame.complete.inj (List.mem_singleton.mp hy)
      rw [Located.states_setState]
    · rcases eq_or_ne y x with rfl | hne
      · exact Or.inr ⟨v, List.mem_singleton_self _⟩
      · rw [Located.states_setState_of_ne _ hne] at hy
        exact Or.inl hy
  | @completeReady τ x v rest hτ hx =>
    obtain ⟨hself, hothers⟩ := hsetStack τ _ (s.setStack τ rest) rfl
    refine hquiet [_] [] hτ le_rfl hself hothers (fun _ => rfl) rfl (List.prefix_refl _) (fun y w hy => ?_)
      (by simp) (by simp)
    obtain ⟨rfl, rfl⟩ := Frame.complete.inj (List.mem_singleton.mp hy)
    exact hx
  | @dispatchNext τ task continuations rest hτ =>
    obtain ⟨hself, hothers⟩ := hsetStack τ _ (s.setStack τ _) rfl
    exact hquiet [_] [_, _] hτ le_rfl hself hothers (fun _ => rfl) rfl (List.prefix_refl _) (by simp) (by simp)
      (by simp)
  | @completeReturn τ rest hτ =>
    obtain ⟨hself, hothers⟩ := hsetStack τ _ (s.setStack τ rest) rfl
    exact hquiet [_] [] hτ le_rfl hself hothers (fun _ => rfl) rfl (List.prefix_refl _) (by simp) (by simp)
      (by simp)
  | @dispatchNested τ task rest hτ hr =>
    obtain ⟨hstates, hsubscriptions, hstack, hcalled, -⟩ := enqueue_eq (s.setStack τ rest) τ task
    obtain ⟨hself, hothers⟩ := hsetStack τ _ _ hstack
    exact hquiet [_] [] hτ le_rfl hself hothers (fun x => by rw [hstates]; rfl) (by rw [hcalled]; rfl)
      (by rw [hsubscriptions]; exact List.prefix_refl _) (by simp) (by simp) (by simp)
  | @dispatchOutermost τ task rest hτ hr =>
    obtain ⟨hstates, hsubscriptions, hstack, hcalled, -⟩ := enqueue_eq (s.setStack τ (Frame.drain :: rest)) τ task
    obtain ⟨hself, hothers⟩ := hsetStack τ _ (((s.setStack τ (Frame.drain :: rest)).enqueue τ task).setRunning τ true) hstack
    exact hquiet [_] [_] hτ le_rfl hself hothers (fun x => congrArg StateObject.ready (congrFun hstates x))
      hcalled ⟨[], (List.append_nil _).trans hsubscriptions.symm⟩ (by simp) (by simp) (by simp)
  | @call τ task rest hτ hh =>
    obtain ⟨hself, hothers⟩ := hsetStack τ (Frame.function task :: Frame.drain :: rest)
      (((s.setStack τ _).pop τ task).record τ task) rfl
    have hcalled : (((s.setStack τ (Frame.function task :: Frame.drain :: rest)).pop τ task).record τ
        task).called τ = s.called τ ++ [task] := Function.update_self _ _ _
    refine ⟨τ, [Frame.drain], [Frame.function task, Frame.drain], rest, hτ, le_rfl, hself, hothers, by simp, fun x hx => Or.inl hx,
      by simp, Or.inr ⟨task, List.mem_cons_self, hcalled, fun τ' hne => Function.update_of_ne hne _ _⟩, fun k hk => ?_,
      List.prefix_refl _⟩
    have hk : k = task := by simpa using hk
    rw [hcalled, hk]
    exact List.mem_append_right _ (List.mem_singleton_self _)
  | @functionReturn τ task rest hτ =>
    obtain ⟨hself, hothers⟩ := hsetStack τ _ (s.setStack τ rest) rfl
    exact hquiet [_] [] hτ le_rfl hself hothers (fun _ => rfl) rfl (List.prefix_refl _) (by simp) (by simp)
      (by simp)
  | @drained τ rest hτ hh =>
    obtain ⟨hself, hothers⟩ := hsetStack τ _ ((s.setStack τ rest).setRunning τ false) rfl
    exact hquiet [_] [] hτ le_rfl hself hothers (fun _ => rfl) rfl (List.prefix_refl _) (by simp) (by simp)
      (by simp)

namespace Advance

variable {τ τ' : T} {old new rest : List (Frame σ V)} {k : ℕ}

omit [DecidableEq T] [DecidableEq σ]

theorem called_mono (h : Advance s t τ old new rest) (hk : k ∈ s.called τ') : k ∈ t.called τ' := by
  classical
  rcases h.called with hsame | ⟨a, -, hself, hothers⟩
  · rwa [hsame]
  · rcases eq_or_ne τ' τ with rfl | hne
    · rw [hself]
      exact List.mem_append_left _ hk
    · rwa [hothers τ' hne]

/-- A continuation that is called is called by the top of the stack. -/
theorem of_called (h : Advance s t τ old new rest) (hk : k ∈ t.called τ') :
    k ∈ s.called τ' ∨ Frame.function k ∈ t.stack τ' := by
  rcases h.called with hsame | ⟨a, ha, hself, hothers⟩
  · exact Or.inl (by rwa [hsame] at hk)
  · rcases eq_or_ne τ' τ with rfl | hne
    · rw [hself, List.mem_append, List.mem_singleton] at hk
      rcases hk with hk | rfl
      · exact Or.inl hk
      · rw [h.after]
        exact Or.inr (List.mem_append_left _ ha)
    · rw [hothers τ' hne] at hk
      exact Or.inl hk

theorem of_mem_after (h : Advance s t τ old new rest) {f : Frame σ V} (hf : f ∈ t.stack τ') :
    f ∈ s.stack τ' ∨ τ' = τ ∧ f ∈ new := by
  rcases eq_or_ne τ' τ with rfl | hne
  · rw [h.after, List.mem_append] at hf
    rcases hf with hf | hf
    · exact Or.inr ⟨rfl, hf⟩
    · rw [h.before]
      exact Or.inl (List.mem_append_right _ hf)
  · rw [h.others τ' hne] at hf
    exact Or.inl hf

theorem of_mem_before (h : Advance s t τ old new rest) {f : Frame σ V} (hf : f ∈ s.stack τ') :
    f ∈ t.stack τ' ∨ τ' = τ ∧ f ∈ old := by
  rcases eq_or_ne τ' τ with rfl | hne
  · rw [h.before, List.mem_append] at hf
    rcases hf with hf | hf
    · exact Or.inr ⟨rfl, hf⟩
    · rw [h.after]
      exact Or.inl (List.mem_append_right _ hf)
  · rw [h.others τ' hne]
    exact Or.inl hf

/-- Only the top of the stack is replaced. -/
theorem before_of_mem (h : Advance s t τ old new rest) {f : Frame σ V} (hf : f ∈ old) : s.stack τ = f :: rest := by
  obtain ⟨a, rfl⟩ := List.length_eq_one_iff.mp (le_antisymm h.length (List.length_pos_of_mem hf))
  rw [h.before, List.mem_singleton.mp hf]
  rfl

end Advance

/-- What has been called was dispatched once. -/
theorem RunOnce.count_called {s : Runtime T σ V} (h : RunOnce s) {τ : T} {k : ℕ} (hk : k ∈ s.called τ) :
    (s.called τ).count k = 1 ∧ ∀ τ', k ∈ s.called τ' → τ = τ' := by
  have hdispatched : ∀ τ' l, k ∈ s.called τ' → s.dispatched τ' = s.called τ' ++ l → k ∈ s.dispatched τ' :=
    fun τ' l hk' hl => hl ▸ List.mem_append_left _ hk'
  obtain ⟨waiting, -, -, horder⟩ := h.order τ
  have hmem := hdispatched τ waiting hk horder
  refine ⟨le_antisymm ?_ (List.count_pos_iff.mpr hk), fun τ' hk' => ?_⟩
  · have hone := (h.once τ τ k hmem).1
    rw [horder, List.count_append] at hone
    omega
  · obtain ⟨waiting', -, -, horder'⟩ := h.order τ'
    exact (h.once τ τ' k hmem).2 (hdispatched τ' waiting' hk' horder')

end Eager

namespace WhenAll

open Spearhed.Caravan.Eager

variable {T σ : Type} [DecidableEq T] [DecidableEq σ]

/-- The threads and a `WhenAllState`. -/
structure Joining (T σ : Type) where
  runtime : Runtime T σ Unit
  /-- `m_remaining`. -/
  remaining : ℤ
  /-- The continuations that `whenAll` subscribed, in the order of the events. -/
  subscribed : List ℕ
  /-- The calls of `arrive`, with the thread and the continuation. -/
  arrived : List (T × ℕ)
  /-- How many of them brought the counter to zero. -/
  zeros : ℕ

namespace Joining

/-- The thread has called a continuation of `whenAll` that has not called `arrive`. -/
def Arriving (s : Joining T σ) (τ : T) (k : ℕ) : Prop :=
  (∃ rest, s.runtime.stack τ = Frame.function k :: rest) ∧ k ∈ s.subscribed ∧
    s.arrived.count (τ, k) < (s.runtime.called τ).count k

/-- `Event::subscribe`; a default event dispatches the continuation. -/
def subscribe (s : Runtime T σ Unit) (τ : T) : Option σ → Runtime T σ Unit
  | some x => { s.setStack τ (Frame.subscribe x s.subscriptions.length :: s.stack τ) with
      subscriptions := s.subscriptions ++ [some x] }
  | none => { s.setStack τ (Frame.dispatch s.subscriptions.length :: s.stack τ) with
      subscriptions := s.subscriptions ++ [none] }

theorem step_subscribe {s : Runtime T σ Unit} {τ : T} (hτ : Free (s.stack τ)) (e : Option σ) :
    Eager.Step s (subscribe s τ e) := by
  cases e with
  | none => exact Eager.Step.callSubscribeReady hτ
  | some x => exact Eager.Step.callSubscribe x hτ

omit [DecidableEq σ] in
theorem stack_subscribe (s : Runtime T σ Unit) (τ : T) (e : Option σ) :
    ∃ f, (∀ x, f ≠ Frame.complete x ()) ∧ (subscribe s τ e).stack τ = f :: s.stack τ ∧
      ∀ τ', τ' ≠ τ → (subscribe s τ e).stack τ' = s.stack τ' := by
  cases e with
  | none => exact ⟨Frame.dispatch _, fun _ => nofun, Located.stack_setStack s τ _, fun τ' hne => Located.stack_setStack_of_ne s hne _⟩
  | some x =>
    exact ⟨Frame.subscribe x _, fun _ => nofun, Located.stack_setStack s τ _,
      fun τ' hne => Located.stack_setStack_of_ne s hne _⟩

/-- `WhenAllState::arrive` up to the call of `complete`. -/
def arrive (s : Joining T σ) (r : σ) (τ : T) : Joining T σ :=
  if s.remaining = 1 then
    { s with
      runtime := s.runtime.setStack τ (Frame.complete r () :: s.runtime.stack τ)
      remaining := s.remaining - 1 }
  else { s with remaining := s.remaining - 1 }

/-- A continuation has counted itself, for the record, and whether the count came to zero. -/
def record (s : Joining T σ) (τ : T) (k : ℕ) : Joining T σ :=
  { s with
    arrived := s.arrived ++ [(τ, k)]
    zeros := s.zeros + if s.remaining = 0 then 1 else 0 }

/-- One step, while `whenAll` joins the events into the state `r`. -/
inductive Step (events : List (Option σ)) (r : σ) : Joining T σ → Joining T σ → Prop
  -- whatever else happens does not complete `r` and is not in a continuation of `whenAll`
  | other {s : Joining T σ} {u : Runtime T σ Unit} (hst : Eager.Step s.runtime u)
      (hmove : ∀ τ k, s.Arriving τ k → u.stack τ = s.runtime.stack τ)
      (hr : ∀ τ, u.stack τ ≠ Frame.complete r () :: s.runtime.stack τ) : Step events r s { s with runtime := u }
  | subscribe {s : Joining T σ} {τ : T} {e : Option σ} (hn : 2 ≤ events.length)
      (he : events[s.subscribed.length]? = some e) (hτ : Free (s.runtime.stack τ)) (hmove : ∀ k, ¬ s.Arriving τ k) :
      Step events r s { s with
        runtime := subscribe s.runtime τ e, subscribed := s.subscribed ++ [s.runtime.subscriptions.length] }
  | arrive {s : Joining T σ} {τ : T} {k : ℕ} (hτ : s.Arriving τ k) : Step events r s ((s.arrive r τ).record τ k)

/-- All runs. -/
def system (T : Type) [DecidableEq T] (events : List (Option σ)) (r : σ) : StepSystem (Joining T σ) where
  init := fun s => s = ⟨Runtime.initial, events.length, [], [], 0⟩
  step := Step events r

/-- Every continuation of `whenAll` that was called has counted itself or is on a stack. -/
structure Counted (events : List (Option σ)) (s : Joining T σ) : Prop where
  reachable : (Eager.system T σ Unit).Reachable s.runtime
  target : ∀ (i k : ℕ), s.subscribed[i]? = some k → ∃ e, events[i]? = some e ∧ s.runtime.subscriptions[k]? = some e
  nodup : s.subscribed.Nodup
  arrived : ∀ τ k, (τ, k) ∈ s.arrived → k ∈ s.subscribed ∧ k ∈ s.runtime.called τ
  once : (s.arrived.map Prod.snd).Nodup
  function : ∀ τ k, Frame.function k ∈ s.runtime.stack τ → k ∈ s.runtime.called τ
  called : ∀ τ k, k ∈ s.runtime.called τ → k ∈ s.subscribed →
    (τ, k) ∈ s.arrived ∨ Frame.function k ∈ s.runtime.stack τ

namespace Counted

variable {events : List (Option σ)} {s : Joining T σ} {u : Runtime T σ Unit}

theorem initial (n : ℤ) : Counted events (⟨Runtime.initial, n, [], [], 0⟩ : Joining T σ) where
  reachable := StepSystem.Reachable.init rfl
  target := nofun
  nodup := List.nodup_nil
  arrived := nofun
  once := List.nodup_nil
  function := nofun
  called := nofun

/-- The threads move on, and no continuation of `whenAll` returns before it has counted itself. -/
theorem advance (h : Counted events s) (hst : Eager.Step s.runtime u)
    (hmove : ∀ τ k, s.Arriving τ k → Frame.function k ∈ u.stack τ) : Counted events { s with runtime := u } := by
  obtain ⟨τ, old, new, rest, hadv⟩ := hst.advance
  refine ⟨h.reachable.step hst, fun i k hk => ?_, h.nodup, fun τ' k hk => ?_, h.once, fun τ' k hk => ?_,
    fun τ' k hk hsub => ?_⟩
  · obtain ⟨e, he, hsub⟩ := h.target i k hk
    obtain ⟨l, hl⟩ := hadv.subscriptions
    refine ⟨e, he, ?_⟩
    rw [← hl, List.getElem?_append_left (List.getElem?_eq_some_iff.mp hsub).1]
    exact hsub
  · exact ⟨(h.arrived τ' k hk).1, hadv.called_mono (h.arrived τ' k hk).2⟩
  · rcases hadv.of_mem_after hk with hk | ⟨rfl, hk⟩
    · exact hadv.called_mono (h.function τ' k hk)
    · exact hadv.function k hk
  · rcases hadv.of_called hk with hk | hk
    · rcases h.called τ' k hk hsub with harrived | hfunction
      · exact Or.inl harrived
      rcases hadv.of_mem_before hfunction with hstack | ⟨rfl, hold⟩
      · exact Or.inr hstack
      by_cases harrived : (τ', k) ∈ s.arrived
      · exact Or.inl harrived
      · refine Or.inr (hmove τ' k ⟨⟨rest, hadv.before_of_mem hold⟩, hsub, ?_⟩)
        rw [List.count_eq_zero_of_not_mem harrived]
        exact List.count_pos_iff.mpr hk
    · exact Or.inr hk

theorem subscribe (h : Counted events s) {τ : T} {e : Option σ} (he : events[s.subscribed.length]? = some e)
    (hτ : Free (s.runtime.stack τ)) (hmove : ∀ k, ¬ s.Arriving τ k) :
    Counted events { s with
      runtime := Joining.subscribe s.runtime τ e, subscribed := s.subscribed ++ [s.runtime.subscriptions.length] } := by
  obtain ⟨-, -, -, hstack⟩ := stack_subscribe s.runtime τ e
  have hsubscriptions : (Joining.subscribe s.runtime τ e).subscriptions = s.runtime.subscriptions ++ [e] := by
    cases e <;> rfl
  have hcalled : (Joining.subscribe s.runtime τ e).called = s.runtime.called := by
    cases e <;> rfl
  have hnew : ∀ τ', s.runtime.subscriptions.length ∉ s.runtime.called τ' := by
    intro τ' hmem
    obtain ⟨place, waiting, hloc, -, hqueued, -⟩ := Eager.Inv.of_reachable h.reachable
    have hdispatched : s.runtime.subscriptions.length ∈ s.runtime.contents (Place.dispatched τ') := by
      change _ ∈ s.runtime.dispatched τ'
      rw [hqueued.order τ']
      exact List.mem_append_left _ hmem
    exact lt_irrefl _ (hloc.lt_of_mem hdispatched)
  have hadv := h.advance (step_subscribe hτ e) fun τ' k hk => by
    rcases eq_or_ne τ' τ with rfl | hne
    · exact absurd hk (hmove k)
    · obtain ⟨⟨rest, hrest⟩, -, -⟩ := hk
      rw [hstack τ' hne, hrest]
      exact List.mem_cons_self
  refine ⟨hadv.reachable, fun i k hk => ?_, ?_, fun τ' k hk => ?_, h.once, hadv.function, fun τ' k hk hsub => ?_⟩
  · rcases Nat.lt_trichotomy i s.subscribed.length with hlt | rfl | hgt
    · exact hadv.target i k (by rwa [List.getElem?_append_left hlt] at hk)
    · rw [List.getElem?_concat_length] at hk
      obtain rfl := Option.some.inj hk
      refine ⟨e, he, ?_⟩
      change (Joining.subscribe s.runtime τ e).subscriptions[s.runtime.subscriptions.length]? = some e
      rw [hsubscriptions, List.getElem?_concat_length]
    · rw [List.getElem?_eq_none (by rw [List.length_append, List.length_singleton]; omega)] at hk
      cases hk
  · refine List.nodup_append'.mpr ⟨h.nodup, List.nodup_singleton _, List.disjoint_singleton.mpr fun hmem => ?_⟩
    obtain ⟨i, hi⟩ := List.getElem?_of_mem hmem
    obtain ⟨e', -, hsub⟩ := h.target i _ hi
    exact lt_irrefl _ (List.getElem?_eq_some_iff.mp hsub).1
  · exact ⟨List.mem_append_left _ (hadv.arrived τ' k hk).1, (hadv.arrived τ' k hk).2⟩
  · rcases List.mem_append.mp hsub with hsub | hsub
    · exact hadv.called τ' k hk hsub
    · have hk' : k ∈ s.runtime.called τ' := hcalled ▸ hk
      exact absurd (List.mem_singleton.mp hsub ▸ hk') (hnew τ')

/-- A continuation counts itself once. -/
theorem notMem_arrived (h : Counted events s) {τ : T} {k : ℕ} (hk : s.Arriving τ k) : k ∉ s.arrived.map Prod.snd := by
  obtain ⟨⟨rest, hrest⟩, -, hcount⟩ := hk
  have hcalled : k ∈ s.runtime.called τ := h.function τ k (hrest ▸ List.mem_cons_self)
  obtain ⟨hone, hthread⟩ := (continuations_run_once s.runtime h.reachable).count_called hcalled
  intro hmem
  obtain ⟨⟨τ', k'⟩, harrived, hk'⟩ := List.mem_map.mp hmem
  obtain rfl : k' = k := hk'
  obtain rfl := hthread τ' (h.arrived τ' k' harrived).2
  have hpos := List.count_pos_iff.mpr harrived
  omega

/-- A continuation has counted itself. -/
theorem count (h : Counted events s) {τ : T} {k : ℕ} (hk : s.Arriving τ k) {n : ℤ} {z : ℕ} :
    Counted events { s with remaining := n, arrived := s.arrived ++ [(τ, k)], zeros := z } := by
  have hnot := h.notMem_arrived hk
  obtain ⟨⟨rest, hrest⟩, hsub, -⟩ := hk
  refine ⟨h.reachable, h.target, h.nodup, fun τ' k' hk' => ?_, ?_, h.function, fun τ' k' hk' hsub' => ?_⟩
  · rcases List.mem_append.mp hk' with hk' | hk'
    · exact h.arrived τ' k' hk'
    · obtain ⟨rfl, rfl⟩ := Prod.mk.inj (List.mem_singleton.mp hk')
      exact ⟨hsub, h.function τ' k' (hrest ▸ List.mem_cons_self)⟩
  · change ((s.arrived ++ [(τ, k)]).map Prod.snd).Nodup
    rw [List.map_append]
    exact List.nodup_append'.mpr ⟨h.once, List.nodup_singleton _, List.disjoint_singleton.mpr hnot⟩
  · rcases h.called τ' k' hk' hsub' with harrived | hfunction
    · exact Or.inl (List.mem_append_left _ harrived)
    · exact Or.inr hfunction

theorem arrive (h : Counted events s) (r : σ) {τ : T} {k : ℕ} (hk : s.Arriving τ k) : Counted events ((s.arrive r τ).record τ k) := by
  unfold Joining.record Joining.arrive
  split
  · obtain ⟨⟨rest, hrest⟩, -, -⟩ := id hk
    have hfree : Free (s.runtime.stack τ) := hrest ▸ Free.function
    refine (h.count hk).advance (s := { s with remaining := _, arrived := _, zeros := _ }) (Eager.Step.callComplete r () hfree)
      fun τ' k' hk' => ?_
    obtain ⟨⟨rest', hrest'⟩, -, -⟩ := hk'
    have hmem : Frame.function k' ∈ s.runtime.stack τ' := hrest' ▸ List.mem_cons_self
    rcases eq_or_ne τ' τ with rfl | hne
    · rw [Located.stack_setStack]
      exact List.mem_cons_of_mem _ hmem
    · rwa [Located.stack_setStack_of_ne s.runtime hne]
  · exact h.count hk

theorem length_subscribed (h : Counted events s) : s.subscribed.length ≤ events.length := by
  by_contra hlt
  have hlt : events.length < s.subscribed.length := by omega
  obtain ⟨e, he, -⟩ := h.target events.length _ (List.getElem?_eq_getElem hlt)
  rw [List.getElem?_eq_none le_rfl] at he
  cases he

theorem subset_subscribed (h : Counted events s) : s.arrived.map Prod.snd ⊆ s.subscribed := by
  intro k hk
  obtain ⟨⟨τ, k⟩, harrived, rfl⟩ := List.mem_map.mp hk
  exact (h.arrived τ k harrived).1

theorem length_arrived (h : Counted events s) : s.arrived.length ≤ events.length := by
  have hle := (h.once.subperm h.subset_subscribed).length_le
  rw [List.length_map] at hle
  exact hle.trans h.length_subscribed

end Counted

/-- The counter, and what the result is. -/
structure Inv (events : List (Option σ)) (r : σ) (s : Joining T σ) : Prop extends Counted events s where
  remaining : s.remaining = events.length - s.arrived.length
  pending : s.remaining ≠ 0 → (s.runtime.states r).ready = false ∧ ∀ τ, Frame.complete r () ∉ s.runtime.stack τ
  completed : s.remaining = 0 → (s.runtime.states r).ready = true ∨ ∃ τ, Frame.complete r () ∈ s.runtime.stack τ
  zeros : s.zeros = if s.remaining = 0 then 1 else 0

namespace Inv

variable {events : List (Option σ)} {r : σ} {s t : Joining T σ} {u : Runtime T σ Unit}

theorem initial (hn : 2 ≤ events.length) :
    Inv events r (⟨Runtime.initial, events.length, [], [], 0⟩ : Joining T σ) where
  toCounted := Counted.initial _
  remaining := (Int.sub_zero _).symm
  pending := fun _ => ⟨rfl, fun _ => List.not_mem_nil⟩
  completed := fun hzero => by
    change (events.length : ℤ) = 0 at hzero
    omega
  zeros := by
    rw [if_neg]
    change ¬ (events.length : ℤ) = 0
    omega

/-- Nobody calls `complete` of the result. -/
theorem result (h : Inv events r s) (hst : Eager.Step s.runtime u)
    (hr : ∀ τ, u.stack τ ≠ Frame.complete r () :: s.runtime.stack τ) :
    (s.remaining ≠ 0 → (u.states r).ready = false ∧ ∀ τ, Frame.complete r () ∉ u.stack τ) ∧
      (s.remaining = 0 → (u.states r).ready = true ∨ ∃ τ, Frame.complete r () ∈ u.stack τ) := by
  obtain ⟨τ, old, new, rest, hadv⟩ := hst.advance
  refine ⟨fun hne => ⟨?_, fun τ' hmem => ?_⟩, fun hzero => ?_⟩
  · obtain ⟨hpending, hframes⟩ := h.pending hne
    by_contra hready
    rcases hadv.ready r (Bool.eq_true_of_not_eq_false hready) with hready | ⟨v, hv⟩
    · exact absurd (hready.symm.trans hpending) nofun
    · exact hframes τ (hadv.before ▸ List.mem_append_left _ hv)
  · rcases hadv.of_mem_after hmem with hmem | ⟨rfl, hnew⟩
    · exact (h.pending hne).2 τ' hmem
    · exact hr τ' (hadv.complete r () hnew)
  · rcases h.completed hzero with hready | ⟨τ', hmem⟩
    · exact Or.inl ((congrArg StateObject.ready (hst.states_of_ready hready)).trans hready)
    · rcases hadv.of_mem_before hmem with hmem | ⟨rfl, hold⟩
      · exact Or.inr ⟨τ', hmem⟩
      · exact Or.inl (hadv.completed r () hold)

/-- **The step lemma.** -/
theorem step (h : Inv events r s) (hst : Step events r s t) : Inv events r t := by
  cases hst with
  | other hst hmove hr =>
    have hcounted := h.advance hst fun τ k hk => by
      obtain ⟨rest, hrest⟩ := hk.1
      rw [hmove τ k hk, hrest]
      exact List.mem_cons_self
    obtain ⟨hpending, hcompleted⟩ := h.result hst hr
    exact ⟨hcounted, h.remaining, hpending, hcompleted, h.zeros⟩
  | @subscribe τ e hn he hτ hmove =>
    obtain ⟨f, hf, hself, hothers⟩ := stack_subscribe s.runtime τ e
    obtain ⟨hpending, hcompleted⟩ := h.result (step_subscribe hτ e) fun τ' heq => by
      rcases eq_or_ne τ' τ with rfl | hne
      · exact hf r (List.cons.inj (hself.symm.trans heq)).1
      · exact List.cons_ne_self _ _ ((hothers τ' hne).symm.trans heq).symm
    exact ⟨h.toCounted.subscribe he hτ hmove, h.remaining, hpending, hcompleted, h.zeros⟩
  | @arrive τ k hτ =>
    have hcounted := h.toCounted.arrive r hτ
    have hlength := hcounted.length_arrived
    have hlt : s.arrived.length < events.length := by
      have harrived : ((s.arrive r τ).record τ k).arrived = s.arrived ++ [(τ, k)] := by
        unfold Joining.record Joining.arrive
        split <;> rfl
      rw [harrived, List.length_append, List.length_singleton] at hlength
      omega
    have hne : s.remaining ≠ 0 := by
      rw [h.remaining]
      omega
    have hzeros := h.zeros
    rw [if_neg hne] at hzeros
    have hremaining : s.remaining - 1 = events.length - ((s.arrived ++ [(τ, k)]).length : ℕ) := by
      rw [h.remaining, List.length_append, List.length_singleton]
      omega
    obtain ⟨hready, hframes⟩ := h.pending hne
    unfold Joining.record Joining.arrive at hcounted ⊢
    split at hcounted
    · next hone =>
      rw [if_pos hone]
      refine ⟨hcounted, hremaining, fun hne' => absurd ?_ hne', fun _ => Or.inr ⟨τ, ?_⟩, ?_⟩
      · change s.remaining - 1 = 0
        omega
      · change _ ∈ (s.runtime.setStack τ _).stack τ
        rw [Located.stack_setStack]
        exact List.mem_cons_self
      · change (s.zeros + if s.remaining - 1 = 0 then 1 else 0) = if s.remaining - 1 = 0 then 1 else 0
        rw [hzeros, Nat.zero_add]
    · next hone =>
      rw [if_neg hone]
      refine ⟨hcounted, hremaining, fun _ => ⟨hready, hframes⟩, fun hzero => absurd ?_ hone, ?_⟩
      · change s.remaining - 1 = 0 at hzero
        omega
      · change (s.zeros + if s.remaining - 1 = 0 then 1 else 0) = if s.remaining - 1 = 0 then 1 else 0
        rw [hzeros, Nat.zero_add]

theorem of_reachable (hn : 2 ≤ events.length) (h : (system T events r).Reachable s) : Inv events r s :=
  h.invariant (fun _ hs => hs ▸ initial hn) fun _ _ _ hinv hst => hinv.step hst

/-- When the counter is zero, the continuations of all events have run. -/
theorem called_of_zero (h : Inv events r s) (hzero : s.remaining = 0) {i : ℕ} {e : Option σ} (he : events[i]? = some e) :
    ∃ τ, ∃ k ∈ s.runtime.called τ, s.runtime.subscriptions[k]? = some e := by
  have hsub := h.once.subperm h.subset_subscribed
  have hlength : events.length = (s.arrived.map Prod.snd).length := by
    rw [List.length_map]
    have := h.remaining
    omega
  have hperm := hsub.perm_of_length_le (hlength ▸ h.length_subscribed)
  have hi : i < s.subscribed.length := by
    rw [← hperm.length_eq, ← hlength]
    exact (List.getElem?_eq_some_iff.mp he).1
  obtain ⟨e', he', hk⟩ := h.target i _ (List.getElem?_eq_getElem hi)
  obtain rfl := Option.some.inj (he.symm.trans he')
  obtain ⟨⟨τ, k⟩, harrived, heq⟩ := List.mem_map.mp (hperm.mem_iff.mpr (List.getElem_mem hi))
  obtain rfl : k = s.subscribed[i] := heq
  exact ⟨τ, _, (h.arrived τ _ harrived).2, hk⟩

/-- When the continuations of all events have returned, the counter is zero. -/
theorem zero_of_called (h : Inv events r s) (hstack : ∀ τ, s.runtime.stack τ = [])
    (hsub : s.subscribed.length = events.length) (hcalled : ∀ k ∈ s.subscribed, ∃ τ, k ∈ s.runtime.called τ) :
    s.remaining = 0 := by
  have harrived : s.subscribed ⊆ s.arrived.map Prod.snd := by
    intro k hk
    obtain ⟨τ, hτ⟩ := hcalled k hk
    rcases h.called τ k hτ hk with harrived | hfunction
    · exact List.mem_map_of_mem harrived
    · rw [hstack τ] at hfunction
      cases hfunction
  have hle := (h.nodup.subperm harrived).length_le
  rw [List.length_map] at hle
  have := h.length_arrived
  have := h.remaining
  omega

end Inv

/-- `Event::isReady`. -/
def IsReady (s : Runtime T σ Unit) (e : Option σ) : Prop := ∀ x, e = some x → (s.states x).ready = true

/-- The event that `whenAll` returns. -/
def whenAll (events : List (Option σ)) (r : σ) : Option σ :=
  match events with
  | [] => none
  | [e] => e
  | _ => some r

omit [DecidableEq σ] in
theorem whenAll_of_two_le {events : List (Option σ)} (hn : 2 ≤ events.length) (r : σ) : whenAll events r = some r := by
  rcases events with _ | ⟨e, _ | ⟨e', events⟩⟩
  · exact absurd hn (Nat.not_succ_le_zero 1)
  · exact absurd hn (Nat.not_succ_le_self 1)
  · rfl

/-- When all events are ready and all calls have returned, the result is ready. -/
theorem Inv.isReady_of_returned {events : List (Option σ)} {r : σ} {s : Joining T σ} (h : Inv events r s)
    (hstack : ∀ τ, s.runtime.stack τ = []) (hsub : s.subscribed.length = events.length)
    (hready : ∀ e ∈ events, IsReady s.runtime e) : (s.runtime.states r).ready = true := by
  have hcalled : ∀ k ∈ s.subscribed, ∃ τ, k ∈ s.runtime.called τ := by
    intro k hk
    obtain ⟨i, hi⟩ := List.getElem?_of_mem hk
    obtain ⟨e, he, htarget⟩ := h.target i k hi
    refine (continuations_run_once s.runtime h.reachable).quiescent hstack k (List.getElem?_eq_some_iff.mp htarget).1 fun x hx => ?_
    exact hready e (List.mem_of_getElem? he) x (Option.some.inj (htarget.symm.trans hx))
  rcases h.completed (h.zero_of_called hstack hsub hcalled) with hresult | ⟨τ, hmem⟩
  · exact hresult
  · rw [hstack τ] at hmem
    cases hmem

/-! ## The calls go on -/

/-- No call is entered but that of a continuation, and those of `whenAll` count themselves. -/
inductive GoesOn (r : σ) : Joining T σ → Joining T σ → Prop
  | other {s : Joining T σ} {u : Runtime T σ Unit} (hst : Eager.Step s.runtime u) (hreturns : Returns s.runtime u)
      (hmove : ∀ τ k, s.Arriving τ k → u.stack τ = s.runtime.stack τ) : GoesOn r s { s with runtime := u }
  | arrive {s : Joining T σ} {τ : T} {k : ℕ} (hτ : s.Arriving τ k) : GoesOn r s ((s.arrive r τ).record τ k)

/-- The runs in which the calls go on. -/
def goesOn (T : Type) [DecidableEq T] (events : List (Option σ)) (r : σ) : StepSystem (Joining T σ) where
  init := (system T events r).Reachable
  step := GoesOn r

section GoesOn

variable {events : List (Option σ)} {r : σ} {s t : Joining T σ}

theorem GoesOn.step (hst : GoesOn r s t) : Step events r s t := by
  cases hst with
  | other hst hreturns hmove =>
    exact Step.other hst hmove fun τ hτ => Bool.false_ne_true (hreturns τ (Frame.complete r ()) hτ)
  | arrive hτ => exact Step.arrive hτ

theorem GoesOn.subscribed (hst : GoesOn r s t) : t.subscribed = s.subscribed := by
  cases hst with
  | other hst hreturns hmove => rfl
  | arrive hτ =>
    unfold Joining.record Joining.arrive
    split <;> rfl

theorem reachable_of_goesOn (h : (system T events r).Reachable s) (hst : Relation.ReflTransGen (goesOn T events r).step s t) :
    (system T events r).Reachable t ∧ t.subscribed = s.subscribed := by
  induction hst with
  | refl => exact ⟨h, rfl⟩
  | tail _ hst ih => exact ⟨ih.1.step (GoesOn.step hst), (GoesOn.subscribed hst).trans ih.2⟩

theorem GoesOn.isReady (hst : GoesOn r s t) {e : Option σ} (he : IsReady s.runtime e) : IsReady t.runtime e := by
  intro x hx
  have hready := he x hx
  cases hst with
  | other hst hreturns hmove => rw [hst.states_of_ready hready, hready]
  | arrive hτ =>
    unfold Joining.record Joining.arrive
    split <;> exact hready

/-- What is left to do, with the continuations that have not counted themselves. -/
noncomputable def weight (events : List (Option σ)) (s : Joining T σ) : ℕ :=
  s.runtime.weight + 3 * (events.length - s.arrived.length)

/-- **The calls come to their end.** -/
theorem GoesOn.weight_lt (h : Counted events s) (hst : GoesOn r s t) : weight events t < weight events s := by
  have hfinite := finite_of_reachable h.reachable
  cases hst with
  | other hst hreturns hmove =>
    obtain ⟨τ, X, hchanges⟩ := hst.changes (Eager.Inv.of_reachable h.reachable)
    exact Nat.add_lt_add_right (hchanges.weight_lt hfinite hreturns) _
  | @arrive τ k hτ =>
    have hlength := (h.arrive r hτ).length_arrived
    unfold Joining.record Joining.arrive at hlength ⊢
    have hle : ((if s.remaining = 1 then
        { s with runtime := s.runtime.setStack τ (Frame.complete r () :: s.runtime.stack τ), remaining := s.remaining - 1 }
      else { s with remaining := s.remaining - 1 } : Joining T σ).runtime).weight ≤ s.runtime.weight + 2 := by
      split
      · exact (weight_setStack_cons hfinite τ _).le
      · exact Nat.le_add_right _ _
    have harrived : (if s.remaining = 1 then
        { s with runtime := s.runtime.setStack τ (Frame.complete r () :: s.runtime.stack τ), remaining := s.remaining - 1 }
      else { s with remaining := s.remaining - 1 } : Joining T σ).arrived = s.arrived := by
      split <;> rfl
    rw [weight, weight]
    simp only [harrived, List.length_append, List.length_singleton] at hlength ⊢
    omega

/-- **Progress**: the calls return, and where all events are ready, the result is. -/
theorem ends_of_ready (hn : 2 ≤ events.length) (h : (system T events r).Reachable s)
    (hsub : s.subscribed.length = events.length) (hready : ∀ e ∈ events, IsReady s.runtime e) :
    (goesOn T events r).Ends s fun t => (∀ τ, t.runtime.stack τ = []) ∧ (t.runtime.states r).ready = true := by
  refine StepSystem.ends_of_variant
    (I := fun s n => (system T events r).Reachable s ∧ s.subscribed.length = events.length ∧
      (∀ e ∈ events, IsReady s.runtime e) ∧ n = weight events s) ?_ ?_ ⟨h, hsub, hready, rfl⟩
  · rintro s n ⟨hs, hsub, hready, rfl⟩ t hst
    have hst : GoesOn r s t := hst
    refine ⟨_, hst.weight_lt (Inv.of_reachable hn hs).toCounted, hs.step hst.step, ?_, fun e he => hst.isReady (hready e he), rfl⟩
    rw [hst.subscribed, hsub]
  · rintro s n ⟨hs, hsub, hready, -⟩ hterminal
    have hstack : ∀ τ, s.runtime.stack τ = [] := by
      intro τ
      by_contra hne
      obtain ⟨f, rest, hτ⟩ := List.exists_cons_of_ne_nil hne
      by_cases harriving : ∃ k, s.Arriving τ k
      · obtain ⟨k, hk⟩ := harriving
        exact hterminal _ (GoesOn.arrive hk)
      · obtain ⟨u, hst, hreturns, hothers⟩ := exists_step hτ
        refine hterminal _ (GoesOn.other hst hreturns fun τ' k hk => hothers τ' ?_)
        rintro rfl
        exact harriving ⟨k, hk⟩
    exact ⟨hstack, (Inv.of_reachable hn hs).isReady_of_returned hstack hsub hready⟩

end GoesOn

/-- The result becomes ready with the last event. -/
structure CompletesWithLast (events : List (Option σ)) (r : σ) (s : Joining T σ) : Prop where
  /-- It is not ready before all events are, -/
  before : IsReady s.runtime (whenAll events r) → ∀ e ∈ events, IsReady s.runtime e
  /-- and it is when they are and all calls have returned, also the one of `whenAll`. -/
  after : (∀ τ, s.runtime.stack τ = []) → (2 ≤ events.length → s.subscribed.length = events.length) →
    (∀ e ∈ events, IsReady s.runtime e) → IsReady s.runtime (whenAll events r)
  /-- The counter is never negative, and one call of `arrive` brings it to zero. -/
  counter : 2 ≤ events.length → 0 ≤ s.remaining ∧ s.zeros = if s.remaining = 0 then 1 else 0
  /-- That call completes the result. -/
  completes : 2 ≤ events.length → (s.runtime.states r).ready = true → s.remaining = 0
  /-- When `whenAll` has returned and all events are ready, every run in which the calls go on comes to its end,
  and there the result is ready. -/
  progress : 2 ≤ events.length → s.subscribed.length = events.length → (∀ e ∈ events, IsReady s.runtime e) →
    (goesOn T events r).Ends s fun t => (∀ τ, t.runtime.stack τ = []) ∧ (t.runtime.states r).ready = true

theorem completesWithLast {events : List (Option σ)} {r : σ} {s : Joining T σ} (h : (system T events r).Reachable s) :
    CompletesWithLast events r s := by
  by_cases hn : 2 ≤ events.length
  · have hinv := Inv.of_reachable hn h
    have honce := continuations_run_once s.runtime hinv.reachable
    have hzero : (s.runtime.states r).ready = true → s.remaining = 0 := by
      intro hready
      by_contra hne
      exact absurd (hready.symm.trans (hinv.pending hne).1) nofun
    refine ⟨fun hresult e he => ?_, fun hstack hsub hready => ?_, fun _ => ⟨?_, hinv.zeros⟩, fun _ => hzero,
      fun _ hsub hready => ends_of_ready hn h hsub hready⟩
    · rw [whenAll_of_two_le hn] at hresult
      obtain ⟨i, hi⟩ := List.getElem?_of_mem he
      obtain ⟨τ, k, hk, htarget⟩ := hinv.called_of_zero (hzero (hresult r rfl)) hi
      obtain ⟨waiting, -, -, horder⟩ := honce.order τ
      rintro x rfl
      exact honce.after τ k x (horder ▸ List.mem_append_left _ hk) htarget
    · rw [whenAll_of_two_le hn]
      rintro x hx
      obtain rfl := Option.some.inj hx
      exact hinv.isReady_of_returned hstack (hsub hn) hready
    · have := hinv.remaining
      have := hinv.length_arrived
      omega
  · refine ⟨fun hresult e he => ?_, fun _ _ hready => ?_, fun h2 => absurd h2 hn, fun h2 => absurd h2 hn,
      fun h2 => absurd h2 hn⟩
    · rcases events with _ | ⟨a, _ | ⟨b, events⟩⟩
      · cases he
      · rwa [List.mem_singleton.mp he]
      · exact absurd (Nat.le_add_left 2 events.length) hn
    · rcases events with _ | ⟨a, _ | ⟨b, events⟩⟩
      · exact nofun
      · exact hready a (List.mem_singleton_self a)
      · exact absurd (Nat.le_add_left 2 events.length) hn

/-- A run of one thread that subscribes to two events, which are ready before: the first continuation has
returned, the second one is not yet dispatched. -/
theorem exists_reachable_subscribed :
    ∃ s : Joining Unit Unit, (system Unit [none, none] ()).Reachable s ∧ s.subscribed.length = 2 ∧
      s.runtime.stack () = [Frame.dispatch 1] := by
  have h0 : (system Unit [none, none] ()).Reachable (⟨Runtime.initial, 2, [], [], 0⟩ : Joining Unit Unit) :=
    StepSystem.Reachable.init rfl
  have h1 := h0.step (@Step.subscribe Unit Unit _ _ [none, none] () _ () none le_rfl rfl Free.outside
    fun k ⟨⟨_, h⟩, _⟩ => by cases h)
  have h2 := h1.step (Step.other (@Eager.Step.dispatchOutermost Unit Unit Unit _ _ _ () 0 [] rfl rfl)
    (fun _ k ⟨⟨_, h⟩, _⟩ => by cases h) nofun)
  have h3 := h2.step (Step.other (@Eager.Step.call Unit Unit Unit _ _ _ () 0 [] rfl rfl)
    (fun _ k ⟨⟨_, h⟩, _⟩ => by cases h) nofun)
  have h4 := h3.step (@Step.arrive Unit Unit _ _ [none, none] () _ () 0 ⟨⟨_, rfl⟩, by decide, by decide⟩)
  have h5 := h4.step (Step.other (@Eager.Step.functionReturn Unit Unit Unit _ _ _ () 0 _ rfl)
    (fun ⟨⟩ k ⟨⟨_, h⟩, _, hc⟩ => by cases h; exact absurd hc (by decide)) nofun)
  have h6 := h5.step (Step.other (@Eager.Step.drained Unit Unit Unit _ _ _ () _ rfl rfl)
    (fun _ k ⟨⟨_, h⟩, _⟩ => by cases h) nofun)
  have h7 := h6.step (@Step.subscribe Unit Unit _ _ [none, none] () _ () none le_rfl rfl Free.outside
    fun k ⟨⟨_, h⟩, _⟩ => by cases h)
  exact ⟨_, h7, rfl, rfl⟩

end Joining

/-- **Joins complete exactly once**, with the last event and after the last child. -/
theorem joins_complete_once (T σ : Type) [DecidableEq T] [DecidableEq σ] :
    (∀ (events : List (Option σ)) (r : σ) (s : Joining T σ), (Joining.system T events r).Reachable s →
      Joining.CompletesWithLast events r s) ∧
    ∀ (V : Type) (n : ℕ) (values : Fin n → List V) (s : Operation n V), (Operation.system values).Reachable s →
      Operation.CompletesOnce values s :=
  ⟨fun _ _ _ h => Joining.completesWithLast h, fun _ _ _ _ h => Operation.completesOnce h⟩

/-- Two events that are ready before are joined into one that is, and two children into one value. -/
theorem joins_complete_once_ready :
    (∃ s t : Joining Unit Unit, (Joining.system Unit [none, none] ()).Reachable s ∧ s.runtime.stack () ≠ [] ∧
      Relation.ReflTransGen (Joining.goesOn Unit [none, none] ()).step s t ∧ (∀ τ, t.runtime.stack τ = []) ∧
      (t.runtime.states ()).ready = true ∧ t.remaining = 0 ∧ t.zeros = 1) ∧
      ∃ s : Operation 2 ℕ, (Operation.system ![[1, 2], [3]]).Reachable s ∧
        s.received = [[1, 2, 3]] := by
  have hevents : ∀ s : Joining Unit Unit, ∀ e ∈ [none, none], Joining.IsReady s.runtime (e : Option Unit) :=
    fun s e he x hx => by
      have hnone : e = none := by simpa using he
      cases hnone.symm.trans hx
  obtain ⟨s, hs, hsub, hstack⟩ := Joining.exists_reachable_subscribed
  have hends := ((joins_complete_once Unit Unit).1 _ _ s hs).progress le_rfl hsub (hevents s)
  obtain ⟨t, hst, hterminal⟩ := hends.1.exists_terminal
  obtain ⟨hreturned, -⟩ := hends.2 t hst hterminal
  obtain ⟨ht, hsubt⟩ := Joining.reachable_of_goesOn hs hst
  have hjoin := (joins_complete_once Unit Unit).1 _ _ t ht
  have hready : (t.runtime.states ()).ready = true :=
    hjoin.after hreturned (fun _ => hsubt ▸ hsub) (hevents t) () rfl
  have hzero := hjoin.completes le_rfl hready
  refine ⟨⟨s, t, hs, by rw [hstack]; exact List.cons_ne_nil _ _, hst, hreturned, hready, hzero,
    (hjoin.counter le_rfl).2.trans (if_pos hzero)⟩, ?_⟩
  have hstart : (Operation.system ![[1, 2], [3]]).Reachable Operation.initial := StepSystem.Reachable.init rfl
  have hends := ((joins_complete_once Unit Unit).2 ℕ 2 _ _ hstart).ends
  obtain ⟨t, hst, ht⟩ := hends.1.exists_terminal
  exact ⟨t, hstart.trans hst, hends.2 t hst ht⟩

end WhenAll
end Caravan
end Spearhed
