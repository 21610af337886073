import Mathlib.Algebra.BigOperators.Finprod
import Spearhed.Caravan.EagerContinuations

/-!
# The calls return

A step either enters a call or takes something off the work that is left: the calls on the stacks of the
threads, the continuations in their queues and those that are registered with a state.  So where nothing
is called from outside and the continuations call nothing, every run is finite, and it ends when all
calls have returned.

* `Step.changes`: what a step does to the work that is left.
* `Changes.weight_lt`: a step that enters no call makes it smaller.
* `exists_step`: there is such a step as long as a thread is in a call.
-/

namespace Spearhed
namespace Caravan
namespace Eager

open Library
open Spearhed.Caravan.Eager.Runtime

variable {T σ V : Type}

/-! ## The work that is left -/

/-- What is left of a call. -/
def Frame.weight : Frame σ V → ℕ
  | subscribe _ _ => 6
  | complete _ _ => 2
  | dispatchAll continuations => 1 + 5 * continuations.length
  | dispatch _ => 4
  | drain => 1
  | function _ => 1

/-- What is left on a thread: its calls, and the continuations in its queue. -/
def Runtime.load (s : Runtime T σ V) (τ : T) : ℕ :=
  ((s.stack τ).map Frame.weight).sum + 2 * ((s.dispatched τ).length - (s.called τ).length)

/-- The continuations that are registered with a state. -/
def Runtime.registered (s : Runtime T σ V) (x : σ) : ℕ := (s.states x).continuations.length

/-- All that is left. -/
noncomputable def Runtime.weight (s : Runtime T σ V) : ℕ :=
  ∑ᶠ τ, s.load τ + 5 * ∑ᶠ x, s.registered x

/-- Only finitely many threads and states have something left. -/
def Runtime.Finite (s : Runtime T σ V) : Prop :=
  (Function.support s.load).Finite ∧ (Function.support s.registered).Finite

/-- No call is entered, but that of a continuation. -/
def Returns (s t : Runtime T σ V) : Prop := ∀ τ f, t.stack τ = f :: s.stack τ → f.isFunction = true

/-- A sum changes by what its terms in a set change by. -/
theorem finsum_add_sum {ι : Type} {f g : ι → ℕ} (X : Finset ι) (hf : (Function.support f).Finite)
    (h : ∀ i ∉ X, g i = f i) : ∑ᶠ i, g i + ∑ i ∈ X, f i = ∑ᶠ i, f i + ∑ i ∈ X, g i := by
  classical
  have hsum : ∀ k : ι → ℕ, (∀ i ∉ X, k i = f i) → ∑ᶠ i, k i = ∑ i ∈ hf.toFinset \ X, f i + ∑ i ∈ X, k i := by
    intro k hk
    have hsupport : Function.support k ⊆ ↑(hf.toFinset ∪ X) := by
      intro i hi
      rw [Finset.coe_union, Set.mem_union, Finset.mem_coe, Set.Finite.mem_toFinset]
      by_cases hX : i ∈ X
      · exact Or.inr hX
      · exact Or.inl (Function.mem_support.mpr (hk i hX ▸ hi))
    rw [finsum_eq_sum_of_support_subset k hsupport, ← Finset.sdiff_union_self_eq_union,
      Finset.sum_union Finset.sdiff_disjoint]
    congr 1
    exact Finset.sum_congr rfl fun i hi => hk i (Finset.mem_sdiff.mp hi).2
  rw [hsum g h, hsum f fun _ _ => rfl]
  ring

theorem support_finite_of_eq {ι : Type} {f g : ι → ℕ} (X : Finset ι) (hf : (Function.support f).Finite)
    (h : ∀ i ∉ X, g i = f i) : (Function.support g).Finite := by
  refine (hf.union X.finite_toSet).subset fun i hi => ?_
  by_cases hX : i ∈ X
  · exact Or.inr hX
  · exact Or.inl (Function.mem_support.mpr (h i hX ▸ hi))

/-- What a step does to the work that is left: it acts on one thread and on the states in a set. -/
structure Changes (s t : Runtime T σ V) (τ : T) (X : Finset σ) : Prop where
  threads : ∀ τ', τ' ≠ τ → t.load τ' = s.load τ'
  states : ∀ x ∉ X, t.registered x = s.registered x
  lighter : Returns s t → t.load τ + 5 * ∑ x ∈ X, t.registered x < s.load τ + 5 * ∑ x ∈ X, s.registered x

namespace Changes

variable {s t : Runtime T σ V} {τ : T} {X : Finset σ}

theorem finite (h : Changes s t τ X) (hs : s.Finite) : t.Finite :=
  ⟨support_finite_of_eq {τ} hs.1 fun τ' hne => h.threads τ' (Finset.notMem_singleton.mp hne),
    support_finite_of_eq X hs.2 h.states⟩

theorem weight_lt (h : Changes s t τ X) (hs : s.Finite) (hreturns : Returns s t) : t.weight < s.weight := by
  have hload := finsum_add_sum {τ} hs.1 fun τ' hne => h.threads τ' (Finset.notMem_singleton.mp hne)
  have hregistered := finsum_add_sum X hs.2 h.states
  have hlighter := h.lighter hreturns
  rw [Finset.sum_singleton, Finset.sum_singleton] at hload
  rw [Runtime.weight, Runtime.weight]
  omega

end Changes

variable {s t : Runtime T σ V} {τ : T}

theorem load_congr (hstack : t.stack τ = s.stack τ) (hdispatched : t.dispatched τ = s.dispatched τ)
    (hcalled : t.called τ = s.called τ) : t.load τ = s.load τ := by
  rw [Runtime.load, Runtime.load, hstack, hdispatched, hcalled]

/-- A step that only moves the calls of a thread on. -/
theorem changes_of_stack {frames : List (Frame σ V)} (hothers : ∀ τ', τ' ≠ τ → t.stack τ' = s.stack τ')
    (hself : t.stack τ = frames) (hstates : t.states = s.states) (hdispatched : t.dispatched = s.dispatched)
    (hcalled : t.called = s.called)
    (hlighter : Returns s t → (frames.map Frame.weight).sum < ((s.stack τ).map Frame.weight).sum) :
    Changes s t τ ∅ where
  threads τ' hne := load_congr (hothers τ' hne) (congrFun hdispatched τ') (congrFun hcalled τ')
  states x _ := by rw [Runtime.registered, Runtime.registered, hstates]
  lighter hreturns := by
    have := hlighter hreturns
    rw [Runtime.load, Runtime.load, hself, hdispatched, hcalled, Finset.sum_empty, Finset.sum_empty]
    omega

variable [DecidableEq T]

/-- A call that is entered. -/
theorem changes_of_entered {f : Frame σ V} (hstack : t.stack = (s.setStack τ (f :: s.stack τ)).stack)
    (hstates : t.states = s.states) (hdispatched : t.dispatched = s.dispatched) (hcalled : t.called = s.called)
    (hf : f.isFunction = false) : ∃ τ X, Changes s t τ X := by
  have hself : t.stack τ = f :: s.stack τ := by rw [hstack, Located.stack_setStack]
  refine ⟨τ, ∅, changes_of_stack (fun τ' hne => ?_) hself hstates hdispatched hcalled fun hreturns => ?_⟩
  · rw [hstack, Located.stack_setStack_of_ne s hne]
  · exact absurd ((hreturns τ f hself).symm.trans hf) nofun

/-- A call that moves on. -/
theorem changes_of_moved {frames : List (Frame σ V)} (hstack : t.stack = (s.setStack τ frames).stack)
    (hstates : t.states = s.states) (hdispatched : t.dispatched = s.dispatched) (hcalled : t.called = s.called)
    (hlt : (frames.map Frame.weight).sum < ((s.stack τ).map Frame.weight).sum) : ∃ τ X, Changes s t τ X := by
  have hself : t.stack τ = frames := by rw [hstack, Located.stack_setStack]
  refine ⟨τ, ∅, changes_of_stack (fun τ' hne => ?_) hself hstates hdispatched hcalled fun _ => hlt⟩
  rw [hstack, Located.stack_setStack_of_ne s hne]

/-- A continuation that is dispatched. -/
theorem changes_of_dispatched {frames : List (Frame σ V)} {task : ℕ} (hstack : t.stack = (s.setStack τ frames).stack)
    (hstates : t.states = s.states) (hcalled : t.called = s.called)
    (hdispatched : t.dispatched = Function.update s.dispatched τ (s.dispatched τ ++ [task]))
    (hlt : (frames.map Frame.weight).sum + 2 < ((s.stack τ).map Frame.weight).sum) : ∃ τ X, Changes s t τ X := by
  refine ⟨τ, ∅, fun τ' hne => load_congr ?_ ?_ (congrFun hcalled τ'), fun x _ => ?_, fun _ => ?_⟩
  · rw [hstack, Located.stack_setStack_of_ne s hne]
  · rw [hdispatched, Function.update_of_ne hne]
  · rw [Runtime.registered, Runtime.registered, hstates]
  · rw [Runtime.load, Runtime.load, hstack, Located.stack_setStack, hdispatched, Function.update_self, hcalled,
      List.length_append, List.length_singleton, Finset.sum_empty, Finset.sum_empty]
    omega

/-- A continuation that is called: it leaves the queue of its thread. -/
theorem changes_of_called {task : ℕ} {rest : List (Frame σ V)} (h : Inv s) (hτ : s.stack τ = Frame.drain :: rest)
    (hh : (s.queue τ).head = some task) :
    ∃ τ' X, Changes s (((s.setStack τ (Frame.function task :: Frame.drain :: rest)).pop τ task).record τ task) τ' X := by
  obtain ⟨place, waiting, hloc, -, hqueued, -⟩ := h
  obtain ⟨waiting', hwaiting, -⟩ := hqueued.pop hloc hh
  have hlt : (s.called τ).length < (s.dispatched τ).length := by
    rw [hqueued.order τ, hwaiting, List.length_append, List.length_cons]
    omega
  have hcalled : (((s.setStack τ (Frame.function task :: Frame.drain :: rest)).pop τ task).record τ task).called =
      Function.update s.called τ (s.called τ ++ [task]) := rfl
  have hself : (((s.setStack τ (Frame.function task :: Frame.drain :: rest)).pop τ task).record τ task).stack τ =
      Frame.function task :: Frame.drain :: rest := Located.stack_setStack s τ _
  have hdispatched : (((s.setStack τ (Frame.function task :: Frame.drain :: rest)).pop τ task).record τ task).dispatched =
      s.dispatched := rfl
  refine ⟨τ, ∅, fun τ' hne => load_congr (Located.stack_setStack_of_ne s hne _) rfl ?_, fun _ _ => rfl, fun _ => ?_⟩
  · rw [hcalled, Function.update_of_ne hne]
  · rw [Runtime.load, Runtime.load, hself, hdispatched, hcalled, Function.update_self, hτ, List.length_append,
      List.length_singleton, Finset.sum_empty, Finset.sum_empty]
    simp only [List.map_cons, List.sum_cons, Frame.weight]
    omega

variable [DecidableEq σ]

/-- A call that moves on and changes a state. -/
theorem changes_of_setState {frames : List (Frame σ V)} {x : σ} {o : StateObject V}
    (hlt : (frames.map Frame.weight).sum + 5 * o.continuations.length <
      ((s.stack τ).map Frame.weight).sum + 5 * (s.states x).continuations.length) :
    ∃ τ' X, Changes s ((s.setStack τ frames).setState x o) τ' X := by
  have hself : ((s.setStack τ frames).setState x o).stack τ = frames := Located.stack_setStack s τ frames
  have hload : ((s.setStack τ frames).setState x o).load τ =
      (frames.map Frame.weight).sum + 2 * ((s.dispatched τ).length - (s.called τ).length) := by
    rw [Runtime.load, hself]
    rfl
  have hregistered : ((s.setStack τ frames).setState x o).registered x = o.continuations.length := by
    rw [Runtime.registered, Located.states_setState]
  refine ⟨τ, {x}, fun τ' hne => load_congr (Located.stack_setStack_of_ne s hne frames) rfl rfl, fun y hy => ?_, fun _ => ?_⟩
  · rw [Runtime.registered, Located.states_setState_of_ne _ (Finset.notMem_singleton.mp hy)]
    rfl
  · rw [Finset.sum_singleton, Finset.sum_singleton, hload, hregistered, Runtime.load, Runtime.registered]
    omega

/-- **What a step does to the work that is left.** -/
theorem Step.changes (h : Inv s) (hst : Step s t) : ∃ τ X, Changes s t τ X := by
  cases hst with
  | callSubscribe x hτ => exact changes_of_entered rfl rfl rfl rfl rfl
  | callSubscribeReady hτ => exact changes_of_entered rfl rfl rfl rfl rfl
  | callComplete x v hτ => exact changes_of_entered rfl rfl rfl rfl rfl
  | subscribePending hτ hx =>
    refine changes_of_setState ?_
    rw [hτ, List.map_cons, List.sum_cons, Frame.weight, List.length_append, List.length_singleton]
    omega
  | subscribeReady hτ hx =>
    refine changes_of_moved rfl rfl rfl rfl ?_
    simp only [hτ, List.map_cons, List.sum_cons, Frame.weight]
    omega
  | completePending hτ hx =>
    refine changes_of_setState ?_
    simp only [hτ, List.map_cons, List.sum_cons, Frame.weight, List.length_nil]
    omega
  | completeReady hτ hx =>
    refine changes_of_moved rfl rfl rfl rfl ?_
    simp only [hτ, List.map_cons, List.sum_cons, Frame.weight]
    omega
  | dispatchNext hτ =>
    refine changes_of_moved rfl rfl rfl rfl ?_
    simp only [hτ, List.map_cons, List.sum_cons, Frame.weight, List.length_cons]
    omega
  | completeReturn hτ =>
    refine changes_of_moved rfl rfl rfl rfl ?_
    simp only [hτ, List.map_cons, List.sum_cons, Frame.weight]
    omega
  | @dispatchNested τ task rest hτ hr =>
    obtain ⟨hstates, -, hstack, hcalled, hdispatched⟩ := enqueue_eq (s.setStack τ rest) τ task
    refine changes_of_dispatched hstack hstates hcalled hdispatched ?_
    simp only [hτ, List.map_cons, List.sum_cons, Frame.weight]
    omega
  | @dispatchOutermost τ task rest hτ hr =>
    obtain ⟨hstates, -, hstack, hcalled, hdispatched⟩ := enqueue_eq (s.setStack τ (Frame.drain :: rest)) τ task
    refine changes_of_dispatched hstack hstates hcalled hdispatched ?_
    simp only [hτ, List.map_cons, List.sum_cons, Frame.weight]
    omega
  | call hτ hh => exact changes_of_called h hτ hh
  | functionReturn hτ =>
    refine changes_of_moved rfl rfl rfl rfl ?_
    simp only [hτ, List.map_cons, List.sum_cons, Frame.weight]
    omega
  | drained hτ hh =>
    refine changes_of_moved rfl rfl rfl rfl ?_
    simp only [hτ, List.map_cons, List.sum_cons, Frame.weight]
    omega

/-- What is left is finite in every reachable state. -/
theorem finite_of_reachable (h : (system T σ V).Reachable s) : s.Finite := by
  refine h.invariant (fun s hs => ?_) fun s t hs hfinite hst => ?_
  · subst hs
    have hload : Function.support (Runtime.initial : Runtime T σ V).load = ∅ :=
      Function.support_eq_empty_iff.mpr (funext fun _ => rfl)
    have hregistered : Function.support (Runtime.initial : Runtime T σ V).registered = ∅ :=
      Function.support_eq_empty_iff.mpr (funext fun _ => rfl)
    exact ⟨hload ▸ Set.finite_empty, hregistered ▸ Set.finite_empty⟩
  · obtain ⟨τ, X, hchanges⟩ := hst.changes (Inv.of_reachable hs)
    exact hchanges.finite hfinite

omit [DecidableEq σ] in
/-- A call that is entered adds what is left of it. -/
theorem weight_setStack_cons (hs : s.Finite) (τ : T) (f : Frame σ V) :
    (s.setStack τ (f :: s.stack τ)).weight = s.weight + f.weight := by
  have hload := finsum_add_sum (g := (s.setStack τ (f :: s.stack τ)).load) {τ} hs.1 fun τ' hne =>
    load_congr (Located.stack_setStack_of_ne s (Finset.notMem_singleton.mp hne) _) rfl rfl
  have hself : (s.setStack τ (f :: s.stack τ)).load τ = f.weight + s.load τ := by
    rw [Runtime.load, Located.stack_setStack, List.map_cons, List.sum_cons, Nat.add_assoc]
    rfl
  have hregistered : (s.setStack τ (f :: s.stack τ)).registered = s.registered := rfl
  rw [Finset.sum_singleton, Finset.sum_singleton, hself] at hload
  rw [Runtime.weight, Runtime.weight, hregistered]
  omega

/-- A thread that is in a call goes on. -/
theorem exists_step {f : Frame σ V} {rest : List (Frame σ V)} (hτ : s.stack τ = f :: rest) :
    ∃ u, Step s u ∧ Returns s u ∧ ∀ τ', τ' ≠ τ → u.stack τ' = s.stack τ' := by
  have hgoes : ∀ {u : Runtime T σ V} {frames : List (Frame σ V)}, Step s u → u.stack = (s.setStack τ frames).stack →
      (∀ g, frames = g :: f :: rest → g.isFunction = true) →
      ∃ u, Step s u ∧ Returns s u ∧ ∀ τ', τ' ≠ τ → u.stack τ' = s.stack τ' := by
    intro u frames hst hstack hframes
    have hothers : ∀ τ', τ' ≠ τ → u.stack τ' = s.stack τ' := fun τ' hne => by
      rw [hstack, Located.stack_setStack_of_ne s hne]
    refine ⟨u, hst, fun τ' g hg => ?_, hothers⟩
    rcases eq_or_ne τ' τ with rfl | hne
    · rw [hstack, Located.stack_setStack, hτ] at hg
      exact hframes g hg
    · exact absurd ((hothers τ' hne).symm.trans hg).symm (List.cons_ne_self _ _)
  -- the call that is entered is longer by one frame
  have hshorter : ∀ {frames : List (Frame σ V)}, frames.length ≤ rest.length + 1 →
      ∀ g, frames = g :: f :: rest → g.isFunction = true := by
    rintro frames hle g rfl
    rw [List.length_cons, List.length_cons] at hle
    omega
  cases f with
  | subscribe x task =>
    cases hx : (s.states x).ready with
    | false => exact hgoes (Step.subscribePending hτ hx) rfl (hshorter (Nat.le_succ _))
    | true => exact hgoes (Step.subscribeReady hτ hx) rfl (hshorter le_rfl)
  | complete x v =>
    cases hx : (s.states x).ready with
    | false => exact hgoes (Step.completePending hτ hx) rfl (hshorter le_rfl)
    | true => exact hgoes (Step.completeReady hτ hx) rfl (hshorter (Nat.le_succ _))
  | dispatchAll continuations =>
    cases continuations with
    | nil => exact hgoes (Step.completeReturn hτ) rfl (hshorter (Nat.le_succ _))
    | cons task continuations =>
      refine hgoes (Step.dispatchNext hτ) rfl fun g hg => ?_
      have hlonger := congrArg List.length (Frame.dispatchAll.inj (List.cons.inj (List.cons.inj hg).2).1)
      rw [List.length_cons] at hlonger
      omega
  | dispatch task =>
    cases hr : (s.queue τ).running with
    | true => exact hgoes (Step.dispatchNested hτ hr) (enqueue_eq _ τ task).2.2.1 (hshorter (Nat.le_succ _))
    | false => exact hgoes (Step.dispatchOutermost hτ hr) (enqueue_eq (s.setStack τ _) τ task).2.2.1 (hshorter le_rfl)
  | drain =>
    cases hh : (s.queue τ).head with
    | none => exact hgoes (Step.drained hτ hh) rfl (hshorter (Nat.le_succ _))
    | some task =>
      refine hgoes (Step.call hτ hh) rfl fun g hg => ?_
      rw [← (List.cons.inj hg).1]
      rfl
  | function task => exact hgoes (Step.functionReturn hτ) rfl (hshorter (Nat.le_succ _))

end Eager
end Caravan
end Spearhed
