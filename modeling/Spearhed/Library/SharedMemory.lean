import Mathlib.Algebra.Order.BigOperators.Group.Finset
import Mathlib.Data.Set.Basic
import Mathlib.Logic.Function.Basic
import Spearhed.Library.StepSystem

/-!
# Threads on a shared memory

A thread is a tree of reads and writes, one address at a time, that ends with a result.  `exec` runs
it alone; `system` runs many threads at once, one action of one of them after the other.

If no thread writes an address that another one reads or writes (`Independent`), interleaving does
not show: every run ends, each thread ends with the result it has when it runs alone, and memory
holds what the threads leave when each runs alone (`Independent.terminal`).

The values of addresses may have different types.
-/

namespace Spearhed
namespace Library

/-- A thread. -/
inductive Program {Addr : Type} (Val : Addr → Type) (α : Type)
  | done (result : α)
  | read (a : Addr) (next : Val a → Program Val α)
  | write (a : Addr) (v : Val a) (next : Program Val α)

namespace Program

variable {Addr : Type} {Val : Addr → Type} {α β : Type}

/-- `p`, and then `f` with its result. -/
def bind : Program Val α → (α → Program Val β) → Program Val β
  | .done result, f => f result
  | .read a next, f => .read a fun v => (next v).bind f
  | .write a v next, f => .write a v (next.bind f)

instance : Monad (Program Val) where
  pure := .done
  bind := Program.bind

/-- A loop over a list, which keeps the result of every turn. -/
def forEach {ι : Type} [DecidableEq ι] {C : ι → Type} (f : (i : ι) → Program Val (C i)) :
    (l : List ι) → Program Val (∀ i ∈ l, C i)
  | [] => pure fun _ h => absurd h List.not_mem_nil
  | i :: l => do
      let x ← f i
      let xs ← forEach f l
      pure fun j hj => if h : j = i then h ▸ x else xs j ((List.mem_cons.mp hj).resolve_left h)

/-- All reads of a thread are in `R` and all writes in `W`, whatever it reads. -/
def Within (R W : Set Addr) : Program Val α → Prop
  | .done _ => True
  | .read a next => a ∈ R ∧ ∀ v, (next v).Within R W
  | .write a _ next => a ∈ W ∧ next.Within R W

theorem Within.bind {R W : Set Addr} {p : Program Val α} {f : α → Program Val β}
    (hp : p.Within R W) (hf : ∀ x, (f x).Within R W) : (p >>= f).Within R W := by
  induction p with
  | done result => exact hf result
  | read a next ih => exact ⟨hp.1, fun v => ih v (hp.2 v)⟩
  | write a v next ih => exact ⟨hp.1, ih hp.2⟩

theorem Within.mono {R R' W W' : Set Addr} (hR : R ⊆ R') (hW : W ⊆ W') {p : Program Val α}
    (hp : p.Within R W) : p.Within R' W' := by
  induction p with
  | done result => trivial
  | read a next ih => exact ⟨hR hp.1, fun v => ih v (hp.2 v)⟩
  | write a v next ih => exact ⟨hW hp.1, ih hp.2⟩

theorem Within.pure {R W : Set Addr} (x : α) : (Pure.pure x : Program Val α).Within R W := trivial

theorem Within.forEach {ι : Type} [DecidableEq ι] {C : ι → Type} {R W : Set Addr}
    {f : (i : ι) → Program Val (C i)} {l : List ι} (hf : ∀ i ∈ l, (f i).Within R W) :
    (Program.forEach f l).Within R W := by
  induction l with
  | nil => exact Within.pure _
  | cons i l ih =>
    refine (hf i List.mem_cons_self).bind fun x => Within.bind (ih fun j hj => ?_) fun xs =>
      Within.pure _
    exact hf j (List.mem_cons_of_mem i hj)

/-! ## Running alone -/

variable [DecidableEq Addr]

/-- The result of a thread that runs alone, and the memory it leaves. -/
def exec : Program Val α → (∀ a, Val a) → α × ∀ a, Val a
  | .done result, m => (result, m)
  | .read a next, m => (next (m a)).exec m
  | .write a v next, m => next.exec (Function.update m a v)

@[simp] theorem exec_pure (x : α) (m : ∀ a, Val a) :
    (Pure.pure x : Program Val α).exec m = (x, m) := rfl

@[simp] theorem exec_bind (p : Program Val α) (f : α → Program Val β) (m : ∀ a, Val a) :
    (p >>= f).exec m = (f (p.exec m).1).exec (p.exec m).2 := by
  induction p generalizing m with
  | done result => rfl
  | read a next ih => exact ih (m a) m
  | write a v next ih => exact ih (Function.update m a v)

/-- A thread leaves what it does not write. -/
theorem Within.exec_of_notMem {R W : Set Addr} {p : Program Val α} (hp : p.Within R W)
    (m : ∀ a, Val a) {a : Addr} (ha : a ∉ W) : (p.exec m).2 a = m a := by
  induction p generalizing m with
  | done result => rfl
  | read b next ih => exact ih (m b) (hp.2 (m b)) m
  | write b v next ih =>
    have hne : a ≠ b := fun h => ha (h ▸ hp.1)
    exact (ih hp.2 _).trans (Function.update_of_ne hne _ _)

/-- A thread that writes nothing. -/
theorem Within.exec_of_empty {R : Set Addr} {p : Program Val α} (hp : p.Within R ∅)
    (m : ∀ a, Val a) : (p.exec m).2 = m :=
  funext fun a => hp.exec_of_notMem m (Set.notMem_empty a)

/-- What a loop over threads that write nothing keeps. -/
theorem exec_forEach_of_empty {ι : Type} [DecidableEq ι] {C : ι → Type} {R : Set Addr}
    {f : (i : ι) → Program Val (C i)} {l : List ι} (hf : ∀ i ∈ l, (f i).Within R ∅)
    (m : ∀ a, Val a) : (forEach f l).exec m = (fun i _ => ((f i).exec m).1, m) := by
  refine Prod.ext ?_ ((Within.forEach hf).exec_of_empty m)
  induction l with
  | nil => exact funext fun i => funext fun h => absurd h List.not_mem_nil
  | cons i l ih =>
    rw [forEach, exec_bind, exec_bind, exec_pure, (hf i List.mem_cons_self).exec_of_empty]
    funext j hj
    by_cases hji : j = i
    · subst hji
      exact dif_pos rfl
    · refine (dif_neg hji).trans ?_
      rw [ih fun k hk => hf k (List.mem_cons_of_mem i hk)]

/-- Threads with the same reads and writes in front of them do the same. -/
theorem Within.exec_congr {R W : Set Addr} {p : Program Val α} (hp : p.Within R W)
    {m m' : ∀ a, Val a} (h : ∀ a ∈ R ∪ W, m a = m' a) :
    (p.exec m).1 = (p.exec m').1 ∧ ∀ a ∈ R ∪ W, (p.exec m).2 a = (p.exec m').2 a := by
  induction p generalizing m m' with
  | done result => exact ⟨rfl, h⟩
  | read b next ih =>
    rw [exec, exec, ← h b (Or.inl hp.1)]
    exact ih (m b) (hp.2 (m b)) h
  | write b v next ih =>
    refine ih hp.2 fun a ha => ?_
    by_cases hab : a = b
    · rw [hab, Function.update_self, Function.update_self]
    · rw [Function.update_of_ne hab, Function.update_of_ne hab, h a ha]

/-- What a loop leaves of the writes of one turn, where no turn writes what another one reads or
writes. -/
theorem exec_forEach_of_mem {ι : Type} [DecidableEq ι] {C : ι → Type} {R W : ι → Set Addr}
    {f : (i : ι) → Program Val (C i)} {l : List ι} (hnodup : l.Nodup)
    (hf : ∀ i ∈ l, (f i).Within (R i) (W i)) (hW : ∀ i j, i ≠ j → ∀ a ∈ W i, a ∉ R j ∪ W j)
    (m : ∀ a, Val a) {i : ι} (hi : i ∈ l) {a : Addr} (ha : a ∈ W i) :
    ((forEach f l).exec m).2 a = ((f i).exec m).2 a := by
  induction l generalizing m with
  | nil => exact absurd hi List.not_mem_nil
  | cons j l ih =>
    obtain ⟨hj, hnodup⟩ := List.nodup_cons.mp hnodup
    have hrest : (forEach f l).Within Set.univ {a | ∃ k ∈ l, a ∈ W k} := Within.forEach fun k hk =>
      (hf k (List.mem_cons_of_mem j hk)).mono (Set.subset_univ _) fun a ha =>
        Exists.intro k ⟨hk, ha⟩
    rw [forEach, exec_bind, exec_bind, exec_pure]
    by_cases hij : i = j
    · subst hij
      refine hrest.exec_of_notMem _ ?_
      rintro ⟨k, hk, hak⟩
      exact hW i k (fun h => hj (h ▸ hk)) a ha (Or.inr hak)
    · have hil := (List.mem_cons.mp hi).resolve_left hij
      refine (ih hnodup (fun k hk => hf k (List.mem_cons_of_mem j hk)) _ hil).trans ?_
      refine ((hf i hi).exec_congr fun b hb => ?_).2 a (Or.inr ha)
      exact (hf j List.mem_cons_self).exec_of_notMem m fun hbj =>
        hW j i (Ne.symm hij) b hbj hb

/-- The number of actions of a thread that runs alone. -/
def actions : Program Val α → (∀ a, Val a) → ℕ
  | .done _, _ => 0
  | .read a next, m => (next (m a)).actions m + 1
  | .write a v next, m => next.actions (Function.update m a v) + 1

theorem Within.actions_congr {R W : Set Addr} {p : Program Val α} (hp : p.Within R W)
    {m m' : ∀ a, Val a} (h : ∀ a ∈ R ∪ W, m a = m' a) : p.actions m = p.actions m' := by
  induction p generalizing m m' with
  | done result => rfl
  | read b next ih =>
    rw [actions, actions, ← h b (Or.inl hp.1), ih (m b) (hp.2 (m b)) h]
  | write b v next ih =>
    rw [actions, actions, ih hp.2 fun a ha => ?_]
    by_cases hab : a = b
    · rw [hab, Function.update_self, Function.update_self]
    · rw [Function.update_of_ne hab, Function.update_of_ne hab, h a ha]

/-! ## Running together -/

variable {ι : Type} [DecidableEq ι]

/-- What is left of each thread, and the memory. -/
structure State (ι : Type) (Val : Addr → Type) (α : Type) where
  programs : ι → Program Val α
  memory : ∀ a, Val a

/-- Thread `i` goes on with `p`, on memory `m`. -/
def State.advance (s : State ι Val α) (i : ι) (p : Program Val α) (m : ∀ a, Val a) :
    State ι Val α :=
  ⟨Function.update s.programs i p, m⟩

omit [DecidableEq Addr] in
@[simp] theorem State.advance_self (s : State ι Val α) (i : ι) (p : Program Val α)
    (m : ∀ a, Val a) : (s.advance i p m).programs i = p :=
  Function.update_self _ _ _

omit [DecidableEq Addr] in
@[simp] theorem State.advance_of_ne (s : State ι Val α) {i j : ι} (hj : j ≠ i)
    (p : Program Val α) (m : ∀ a, Val a) : (s.advance i p m).programs j = s.programs j :=
  Function.update_of_ne hj _ _

/-- One action of one thread. -/
inductive Step : State ι Val α → State ι Val α → Prop
  | read {s : State ι Val α} {i : ι} {a : Addr} {next : Val a → Program Val α}
      (h : s.programs i = .read a next) : Step s (s.advance i (next (s.memory a)) s.memory)
  | write {s : State ι Val α} {i : ι} {a : Addr} {v : Val a} {next : Program Val α}
      (h : s.programs i = .write a v next) :
      Step s (s.advance i next (Function.update s.memory a v))

/-- All interleavings of some threads on a memory. -/
def system (programs : ι → Program Val α) (memory : ∀ a, Val a) : StepSystem (State ι Val α) where
  init := fun s => s = ⟨programs, memory⟩
  step := Step

/-- Some run ends with these results and this memory. -/
def Runs (programs : ι → Program Val α) (memory : ∀ a, Val a) (results : ι → α)
    (memory' : ∀ a, Val a) : Prop :=
  ∃ s, (system programs memory).Reachable s ∧ (system programs memory).Terminal s ∧
    (∀ i, s.programs i = .done (results i)) ∧ s.memory = memory'

/-- No thread writes what another one reads or writes. -/
structure Independent (programs : ι → Program Val α) (R W : ι → Set Addr) : Prop where
  within : ∀ i, (programs i).Within (R i) (W i)
  apart : ∀ i j, i ≠ j → ∀ a ∈ W i, a ∉ R j ∪ W j

/-- Each thread goes on as if it were alone. -/
structure Alone (programs : ι → Program Val α) (R W : ι → Set Addr) (memory : ∀ a, Val a)
    (s : State ι Val α) : Prop where
  within : ∀ i, (s.programs i).Within (R i) (W i)
  result : ∀ i, ((s.programs i).exec s.memory).1 = ((programs i).exec memory).1
  leaves : ∀ i, ∀ a ∈ R i ∪ W i,
    ((s.programs i).exec s.memory).2 a = ((programs i).exec memory).2 a
  untouched : ∀ a, (∀ i, a ∉ W i) → s.memory a = memory a

namespace Independent

variable {programs : ι → Program Val α} {R W : ι → Set Addr} {memory : ∀ a, Val a}
  {s t : State ι Val α}

omit [DecidableEq ι] in
/-- A write of one thread is not seen by another. -/
theorem update_agrees (h : Independent programs R W) {i j : ι} (hij : i ≠ j) {a : Addr}
    (ha : a ∈ W i) (v : Val a) (m : ∀ a, Val a) : ∀ b ∈ R j ∪ W j, m b = Function.update m a v b := by
  intro b hb
  have hne : b ≠ a := fun hba => h.apart i j hij a ha (hba ▸ hb)
  exact (Function.update_of_ne hne _ _).symm

theorem alone_step (h : Independent programs R W) (hs : Alone programs R W memory s)
    (hstep : Step s t) : Alone programs R W memory t := by
  cases hstep with
  | @read i a next hi =>
    have hw := hs.within i
    rw [hi] at hw
    have hexec : ∀ j, ((s.advance i (next (s.memory a)) s.memory).programs j).exec s.memory =
        (s.programs j).exec s.memory := fun j => by
      by_cases hj : j = i
      · rw [hj, State.advance_self, hi, exec]
      · rw [State.advance_of_ne s hj]
    refine ⟨fun j => ?_, fun j => ?_, fun j => ?_, hs.untouched⟩
    · by_cases hj : j = i
      · rw [hj, State.advance_self]
        exact hw.2 _
      · rw [State.advance_of_ne s hj]
        exact hs.within j
    · exact (congrArg Prod.fst (hexec j)).trans (hs.result j)
    · exact fun b hb => (congrArg (fun x => x.2 b) (hexec j)).trans (hs.leaves j b hb)
  | @write i a v next hi =>
    have hw := hs.within i
    rw [hi] at hw
    have hself : next.exec (Function.update s.memory a v) = (s.programs i).exec s.memory := by
      rw [hi, exec]
    have hother := fun {j : ι} (hj : j ≠ i) =>
      (hs.within j).exec_congr (h.update_agrees (Ne.symm hj) hw.1 v s.memory)
    refine ⟨fun j => ?_, fun j => ?_, fun j b hb => ?_, fun b hb => ?_⟩
    · by_cases hj : j = i
      · rw [hj, State.advance_self]
        exact hw.2
      · rw [State.advance_of_ne s hj]
        exact hs.within j
    · by_cases hj : j = i
      · rw [hj, State.advance_self]
        exact (congrArg Prod.fst hself).trans (hs.result i)
      · rw [State.advance_of_ne s hj]
        exact (hother hj).1.symm.trans (hs.result j)
    · by_cases hj : j = i
      · subst hj
        rw [State.advance_self]
        exact (congrArg (fun x => x.2 b) hself).trans (hs.leaves j b hb)
      · rw [State.advance_of_ne s hj]
        exact ((hother hj).2 b hb).symm.trans (hs.leaves j b hb)
    · have hne : b ≠ a := fun hba => hb i (hba ▸ hw.1)
      exact (Function.update_of_ne hne _ _).trans (hs.untouched b hb)

/-- **Each thread goes on as if it were alone**, in every reachable state. -/
theorem alone (h : Independent programs R W) (hs : (system programs memory).Reachable s) :
    Alone programs R W memory s := by
  refine hs.invariant (P := Alone programs R W memory) ?_ fun _ _ _ hinv hstep =>
    h.alone_step hinv hstep
  rintro _ rfl
  exact ⟨h.within, fun _ => rfl, fun _ _ _ => rfl, fun _ _ => rfl⟩

/-- **Where a run ends**, each thread has the result, and memory the contents, of threads that run
alone. -/
theorem terminal (h : Independent programs R W) (hs : (system programs memory).Reachable s)
    (ht : (system programs memory).Terminal s) :
    (∀ i, s.programs i = .done ((programs i).exec memory).1) ∧
      (∀ i, ∀ a ∈ W i, s.memory a = ((programs i).exec memory).2 a) ∧
      ∀ a, (∀ i, a ∉ W i) → s.memory a = memory a := by
  have halone := h.alone hs
  have hdone : ∀ i, ∃ x, s.programs i = .done x := fun i => by
    cases hi : s.programs i with
    | done x => exact ⟨x, rfl⟩
    | read a next => exact absurd (Step.read hi) (ht _)
    | write a v next => exact absurd (Step.write hi) (ht _)
  refine ⟨fun i => ?_, fun i a ha => ?_, halone.untouched⟩
  · obtain ⟨x, hx⟩ := hdone i
    have hresult := halone.result i
    rw [hx, exec] at hresult
    rw [hx, ← hresult]
  · obtain ⟨x, hx⟩ := hdone i
    have hmemory := halone.leaves i a (Or.inr ha)
    rwa [hx, exec] at hmemory

/-- **Every run ends.** -/
theorem terminating [Fintype ι] (h : Independent programs R W)
    (hs : (system programs memory).Reachable s) : (system programs memory).Terminating s := by
  refine hs.terminating (fun s => ∑ i, (s.programs i).actions s.memory) fun s t hs hstep => ?_
  have halone := h.alone hs
  cases hstep with
  | @read i a next hi =>
    refine Finset.sum_lt_sum (fun j _ => ?_) ⟨i, Finset.mem_univ i, ?_⟩
    · by_cases hj : j = i
      · rw [hj, State.advance_self, hi, actions]
        exact Nat.le_succ _
      · rw [State.advance_of_ne s hj]
        exact le_rfl
    · rw [State.advance_self, hi, actions]
      exact Nat.lt_succ_self _
  | @write i a v next hi =>
    have hw := halone.within i
    rw [hi] at hw
    refine Finset.sum_lt_sum (fun j _ => ?_) ⟨i, Finset.mem_univ i, ?_⟩
    · by_cases hj : j = i
      · rw [hj, State.advance_self, hi, actions]
        exact Nat.le_succ _
      · rw [State.advance_of_ne s hj, (halone.within j).actions_congr
          (h.update_agrees (Ne.symm hj) hw.1 v s.memory)]
        exact le_rfl
    · rw [State.advance_self, hi, actions]
      exact Nat.lt_succ_self _

/-- What a run ends with. -/
theorem runs (h : Independent programs R W) {results : ι → α} {memory' : ∀ a, Val a}
    (hr : Runs programs memory results memory') :
    (∀ i, results i = ((programs i).exec memory).1) ∧
      (∀ i, ∀ a ∈ W i, memory' a = ((programs i).exec memory).2 a) ∧
      ∀ a, (∀ i, a ∉ W i) → memory' a = memory a := by
  obtain ⟨s, hs, ht, hresults, rfl⟩ := hr
  obtain ⟨hdone, hwritten⟩ := h.terminal hs ht
  exact ⟨fun i => Program.done.inj ((hresults i).symm.trans (hdone i)), hwritten⟩

/-- There is a run. -/
theorem exists_runs [Fintype ι] (h : Independent programs R W) (memory : ∀ a, Val a) :
    ∃ results memory', Runs programs memory results memory' := by
  have hinit : (system programs memory).Reachable ⟨programs, memory⟩ := .init rfl
  obtain ⟨s, hrun, ht⟩ := (h.terminating hinit).exists_terminal
  have hs := hinit.trans hrun
  exact ⟨_, _, s, hs, ht, (h.terminal hs ht).1, rfl⟩

end Independent

end Program

end Library
end Spearhed
