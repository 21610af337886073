import Mathlib.Algebra.Order.BigOperators.Group.Finset
import Mathlib.Data.Fintype.BigOperators
import Mathlib.Data.Fintype.EquivFin
import Spearhed.Library.StepSystem

/-!
# The join of several senders

`WhenAllOperation` owns the operations of its senders and starts them one after the other.  Each child
calls `setValue` from wherever it completes: inside of its `start`, while later children are not started
yet, or on another thread.  The child that brings the counter to zero calls the receiver with all values,
and the receiver may destroy the operation.

A step carries a flag that says whether it accesses the operation.

* `Inv.step`: the counter is the number of children that have not stored their values.
* `Inv.ends`: every run ends, after the call of the receiver.
-/

namespace Spearhed
namespace Caravan
namespace WhenAll

open Library

variable {V : Type} {n : ℕ}

/-- How far a child is. -/
inductive Phase
  /-- Its `Holder::start` has not been called. -/
  | waiting
  | running
  /-- It called `set_value` and is at the lock of `setValue`. -/
  | calling
  /-- It holds the mutex. -/
  | locked
  /-- It has stored its values and counted itself; the flag is `complete`. -/
  | stored (complete : Bool)
  /-- It is about to call `finish`. -/
  | finishing
  | returned
  deriving DecidableEq

namespace Phase

/-- The child has not stored its values. -/
def Pending : Phase → Prop
  | waiting | running | calling | locked => True
  | _ => False

instance : DecidablePred Pending := fun p => by
  cases p <;> unfold Pending <;> infer_instance

/-- The child will call `finish`. -/
def Completing : Phase → Prop
  | stored true | finishing => True
  | _ => False

/-- The child holds the mutex. -/
def Holding : Phase → Prop
  | locked | stored _ => True
  | _ => False

/-- How many steps a child has to take. -/
def rank : Phase → ℕ
  | waiting => 6
  | running => 5
  | calling => 4
  | locked => 3
  | stored _ => 2
  | finishing => 1
  | returned => 0

end Phase

/-- A `WhenAllOperation` with its children. -/
structure Operation (n : ℕ) (V : Type) where
  /-- How many calls of `Holder::start` were made, once `start` was called. -/
  started : Option ℕ
  phase : Fin n → Phase
  mutex : Option (Fin n)
  /-- `m_remaining`. -/
  remaining : ℤ
  /-- `m_values`. -/
  slots : Fin n → Option (List V)
  /-- The calls of the receiver. -/
  received : List (List V)
  destroyed : Bool

namespace Operation

open Function (update)

/-- The constructor. -/
def initial : Operation n V where
  started := none
  phase := fun _ => Phase.waiting
  mutex := none
  remaining := n
  slots := fun _ => none
  received := []
  destroyed := false

/-- A child moves on. -/
def move (s : Operation n V) (i : Fin n) (p : Phase) : Operation n V :=
  { s with phase := update s.phase i p }

theorem phase_move (s : Operation n V) (i : Fin n) (p : Phase) : (s.move i p).phase i = p := Function.update_self _ _ _

theorem phase_move_of_ne (s : Operation n V) {i j : Fin n} (hne : j ≠ i) (p : Phase) :
    (s.move i p).phase j = s.phase j := Function.update_of_ne hne _ _

/-- What all children deliver, in the order of the senders. -/
def concatenation (values : Fin n → List V) : List V := (List.ofFn values).flatten

/-- One step, with a flag that says whether it accesses the operation.  Child `i` delivers `values i`. -/
inductive Step (values : Fin n → List V) : Operation n V → Bool → Operation n V → Prop
  -- `start`
  | startNone {s : Operation n V} (hs : s.started = none) (hn : n = 0) :
      Step values s true { s with started := some 0, received := s.received ++ [[]] }
  | start {s : Operation n V} (hs : s.started = none) (hn : n ≠ 0) : Step values s false { s with started := some 0 }
  | startChild {s : Operation n V} {i : Fin n} (hs : s.started = some i) :
      Step values s true { s.move i Phase.running with started := some (i + 1) }
  | complete {s : Operation n V} {i : Fin n} (hi : s.phase i = Phase.running) :
      Step values s false (s.move i Phase.calling)
  -- `setValue`
  | lock {s : Operation n V} {i : Fin n} (hi : s.phase i = Phase.calling) (hm : s.mutex = none) :
      Step values s true { s.move i Phase.locked with mutex := some i }
  | store {s : Operation n V} {i : Fin n} (hi : s.phase i = Phase.locked) :
      Step values s true { s.move i (Phase.stored (decide (s.remaining - 1 = 0))) with
        slots := update s.slots i (some (values i)), remaining := s.remaining - 1 }
  | unlock {s : Operation n V} {i : Fin n} {complete : Bool} (hi : s.phase i = Phase.stored complete) :
      Step values s true { s.move i (if complete then Phase.finishing else Phase.returned) with mutex := none }
  -- `finish` dereferences every slot
  | finish {s : Operation n V} {i : Fin n} {v : Fin n → List V} (hi : s.phase i = Phase.finishing)
      (hv : ∀ j, s.slots j = some (v j)) :
      Step values s true { s.move i Phase.returned with received := s.received ++ [concatenation v] }
  -- the receiver was called and gives the operation up
  | destroy {s : Operation n V} (hr : s.received ≠ []) (hd : s.destroyed = false) :
      Step values s false { s with destroyed := true }

/-- All runs. -/
def system (values : Fin n → List V) : StepSystem (Operation n V) where
  init := fun s => s = initial
  step := fun s t => ∃ access, Step values s access t

/-- Whether the receiver is still to be called, is about to be called, or was called. -/
inductive Stage (values : Fin n → List V) (s : Operation n V) : Prop
  | collecting (hphase : ∀ i, ¬ (s.phase i).Completing) (hs : s.started = none ∨ s.remaining ≠ 0) (hr : s.received = [])
  | completing (i : Fin n) (hi : (s.phase i).Completing) (hphase : ∀ j, j ≠ i → s.phase j = Phase.returned)
      (hr : s.received = [])
  | received (hs : s.started = some n) (hphase : ∀ i, s.phase i = Phase.returned)
      (hr : s.received = [concatenation values])

/-- The invariant. -/
structure Inv (values : Fin n → List V) (s : Operation n V) : Prop where
  remaining : s.remaining = (Finset.univ.filter fun i => (s.phase i).Pending).card
  slots : ∀ i, ¬ (s.phase i).Pending → s.slots i = some (values i)
  mutex : ∀ i, s.mutex = some i ↔ (s.phase i).Holding
  waiting : ∀ i, s.phase i = Phase.waiting ↔ ∀ k, s.started = some k → k ≤ i
  started : ∀ k, s.started = some k → k ≤ n
  stage : Stage values s
  destroyed : s.destroyed = true → s.received ≠ []

namespace Inv

variable {values : Fin n → List V} {s t : Operation n V}

theorem initial : Inv values (Operation.initial : Operation n V) where
  remaining := by
    have hall : (Finset.univ.filter fun i => ((Operation.initial : Operation n V).phase i).Pending) = Finset.univ :=
      Finset.filter_true_of_mem fun _ _ => trivial
    rw [hall, Finset.card_univ, Fintype.card_fin]
    rfl
  slots := fun _ hi => absurd trivial hi
  mutex := fun _ => iff_of_false nofun id
  waiting := fun _ => iff_of_true rfl nofun
  started := nofun
  stage := Stage.collecting (fun _ => id) (Or.inl rfl) rfl
  destroyed := nofun

/-! ### Before the receiver is called -/

/-- A child that has not returned and will not call `finish` keeps the receiver from being called. -/
theorem collecting (h : Inv values s) {i : Fin n} {p : Phase} (hi : s.phase i = p) (hp : p ≠ Phase.returned)
    (hc : ¬ p.Completing) :
    (∀ j, ¬ (s.phase j).Completing) ∧ (s.started = none ∨ s.remaining ≠ 0) ∧ s.received = [] := by
  subst hi
  cases h.stage with
  | collecting hphase hs hr => exact ⟨hphase, hs, hr⟩
  | completing j hj hphase hr =>
    have hij : i = j := by
      by_contra hne
      exact hp (hphase i hne)
    exact absurd (hij ▸ hj) hc
  | received _ hphase _ => exact absurd (hphase i) hp

/-- Only one child calls `finish`. -/
theorem completing (h : Inv values s) {i : Fin n} {p : Phase} (hi : s.phase i = p) (hp : p.Completing) :
    (∀ j, j ≠ i → s.phase j = Phase.returned) ∧ s.received = [] := by
  subst hi
  cases h.stage with
  | collecting hphase _ _ => exact absurd hp (hphase i)
  | completing j hj hphase hr =>
    have hij : i = j := by
      by_contra hne
      rw [hphase i hne] at hp
      exact hp
    exact ⟨fun k hk => hphase k (hij ▸ hk), hr⟩
  | received _ hphase _ =>
    rw [hphase i] at hp
    exact hp.elim

theorem not_destroyed (h : Inv values s) (hr : s.received = []) : s.destroyed = false := by
  cases hd : s.destroyed with
  | false => rfl
  | true => exact absurd hr (h.destroyed hd)

/-- **No access after the receiver was called.** -/
theorem received_of_access (h : Inv values s) (hst : Step values s true t) : s.received = [] := by
  cases hst with
  | startNone hs hn =>
    cases h.stage with
    | collecting _ _ hr => exact hr
    | completing _ _ _ hr => exact hr
    | received hs' _ _ => exact absurd (hs.symm.trans hs') nofun
  | @startChild i hs =>
    have hw : s.phase i = Phase.waiting := by
      rw [h.waiting]
      intro k hk
      rw [hs] at hk
      exact le_of_eq (Option.some.inj hk).symm
    exact (h.collecting hw nofun id).2.2
  | lock hi hm => exact (h.collecting hi nofun id).2.2
  | store hi => exact (h.collecting hi nofun id).2.2
  | @unlock i complete hi =>
    cases complete with
    | false => exact (h.collecting hi nofun id).2.2
    | true => exact (h.completing hi trivial).2
  | @finish i v hi hv => exact (h.completing hi trivial).2

/-! ### The steps -/

/-- A child moves on without storing anything. -/
theorem remaining_move (h : Inv values s) {i : Fin n} {p : Phase} (hp : p.Pending ↔ (s.phase i).Pending) :
    s.remaining = (Finset.univ.filter fun j => ((s.move i p).phase j).Pending).card := by
  rw [h.remaining]
  congr 2
  ext j
  rcases eq_or_ne j i with rfl | hne
  · simp only [Finset.mem_filter, Finset.mem_univ, true_and, phase_move, hp]
  · simp only [Finset.mem_filter, Finset.mem_univ, true_and, phase_move_of_ne s hne]

theorem slots_move (h : Inv values s) {i : Fin n} {p : Phase} (hp : p.Pending ↔ (s.phase i).Pending) (j : Fin n)
    (hj : ¬ ((s.move i p).phase j).Pending) : s.slots j = some (values j) := by
  rcases eq_or_ne j i with rfl | hne
  · rw [phase_move, hp] at hj
    exact h.slots j hj
  · rw [phase_move_of_ne s hne] at hj
    exact h.slots j hj

theorem mutex_move (h : Inv values s) {i : Fin n} {p : Phase} (hp : p.Holding ↔ (s.phase i).Holding) (j : Fin n) :
    s.mutex = some j ↔ ((s.move i p).phase j).Holding := by
  rcases eq_or_ne j i with rfl | hne
  · rw [phase_move, hp, h.mutex]
  · rw [phase_move_of_ne s hne, h.mutex]

/-- A child that was started moves on. -/
theorem waiting_move (h : Inv values s) {i : Fin n} {p : Phase} (hi : s.phase i ≠ Phase.waiting) (hp : p ≠ Phase.waiting)
    (j : Fin n) : (s.move i p).phase j = Phase.waiting ↔ ∀ k, s.started = some k → k ≤ j := by
  rcases eq_or_ne j i with rfl | hne
  · rw [phase_move, ← h.waiting]
    exact iff_of_false hp hi
  · rw [phase_move_of_ne s hne, h.waiting]

/-- While values are collected, a child moves on that still does not call `finish`. -/
theorem stage_move (h : Inv values s) {i : Fin n} {p q : Phase} (hi : s.phase i = q) (hq : q ≠ Phase.returned)
    (hc : ¬ q.Completing) (hp : ¬ p.Completing) : Stage values (s.move i p) := by
  obtain ⟨hphase, hs, hr⟩ := h.collecting hi hq hc
  refine Stage.collecting (fun j => ?_) hs hr
  rcases eq_or_ne j i with rfl | hne
  · rwa [phase_move]
  · rw [phase_move_of_ne s hne]
    exact hphase j

/-- The child that holds the mutex is the only one that has stored its values and not returned. -/
theorem returned_of_holding (h : Inv values s) {i j : Fin n} (hi : (s.phase i).Holding) (hne : j ≠ i)
    (hj : ¬ (s.phase j).Pending) (hc : ¬ (s.phase j).Completing) : s.phase j = Phase.returned := by
  have hmutex : ¬ (s.phase j).Holding := by
    rw [← h.mutex, (h.mutex i).mpr hi]
    exact fun heq => hne (Option.some.inj heq).symm
  cases hp : s.phase j with
  | returned => rfl
  | waiting | running | calling | locked => exact absurd (hp ▸ trivial) hj
  | stored complete => exact absurd (hp ▸ trivial) hmutex
  | finishing => exact absurd (hp ▸ trivial) hc

/-- The child that stores its values is counted. -/
theorem card_pending_store {i : Fin n} (hi : s.phase i = Phase.locked) {complete : Bool} :
    (Finset.univ.filter fun j => ((s.move i (Phase.stored complete)).phase j).Pending) =
      (Finset.univ.filter fun j => (s.phase j).Pending).erase i := by
  ext j
  rcases eq_or_ne j i with rfl | hne
  · simp only [Finset.mem_filter, Finset.mem_univ, true_and, phase_move, Finset.mem_erase, ne_eq, not_true, false_and,
      iff_false]
    exact id
  · simp only [Finset.mem_filter, Finset.mem_univ, true_and, phase_move_of_ne s hne, Finset.mem_erase, ne_eq, hne,
      not_false_iff]

theorem store (h : Inv values s) {i : Fin n} (hi : s.phase i = Phase.locked) :
    Inv values { s.move i (Phase.stored (decide (s.remaining - 1 = 0))) with
      slots := Function.update s.slots i (some (values i)), remaining := s.remaining - 1 } := by
  have hmem : i ∈ Finset.univ.filter fun j => (s.phase j).Pending :=
    Finset.mem_filter.mpr ⟨Finset.mem_univ i, hi ▸ trivial⟩
  have hpos : 0 < (Finset.univ.filter fun j => (s.phase j).Pending).card := Finset.card_pos.mpr ⟨i, hmem⟩
  obtain ⟨hphase, -, hr⟩ := h.collecting hi nofun id
  refine ⟨?_, fun j hj => ?_, h.mutex_move (by rw [hi]; exact Iff.rfl), h.waiting_move (hi ▸ nofun) nofun, h.started, ?_,
    h.destroyed⟩
  · change s.remaining - 1 = _
    rw [h.remaining]
    change _ = (((Finset.univ.filter fun j => ((s.move i (Phase.stored _)).phase j).Pending).card : ℕ) : ℤ)
    rw [card_pending_store hi, Finset.card_erase_of_mem hmem]
    omega
  · rcases eq_or_ne j i with rfl | hne
    · exact Function.update_self _ _ _
    · have hslots : s.slots j = some (values j) := h.slots j (by rwa [← phase_move_of_ne s hne])
      exact (Function.update_of_ne hne _ _).trans hslots
  · by_cases hzero : s.remaining - 1 = 0
    · -- all others have stored their values before, and have released the mutex
      rw [decide_eq_true hzero]
      refine Stage.completing i ?_ (fun j hne => ?_) hr
      · change ((s.move i (Phase.stored true)).phase i).Completing
        rw [phase_move]
        trivial
      · change (s.move i (Phase.stored true)).phase j = _
        rw [phase_move_of_ne s hne]
        refine h.returned_of_holding (hi ▸ trivial) hne (fun hj => ?_) (hphase j)
        have hone : (Finset.univ.filter fun j => (s.phase j).Pending).card ≤ 1 := by
          have := h.remaining
          omega
        exact hne (Finset.card_le_one.mp hone j (Finset.mem_filter.mpr ⟨Finset.mem_univ j, hj⟩) i hmem)
    · rw [decide_eq_false hzero]
      refine Stage.collecting (fun j => ?_) (Or.inr hzero) hr
      change ¬ ((s.move i (Phase.stored false)).phase j).Completing
      rcases eq_or_ne j i with rfl | hne
      · rw [phase_move]
        exact id
      · rw [phase_move_of_ne s hne]
        exact hphase j

theorem unlock (h : Inv values s) {i : Fin n} {complete : Bool} (hi : s.phase i = Phase.stored complete) :
    Inv values { s.move i (if complete then Phase.finishing else Phase.returned) with mutex := none } := by
  have hpending : (if complete then Phase.finishing else Phase.returned).Pending ↔ (s.phase i).Pending := by
    rw [hi]
    cases complete <;> exact Iff.rfl
  have hholding : s.mutex = some i := (h.mutex i).mpr (hi ▸ trivial)
  refine ⟨h.remaining_move hpending, h.slots_move hpending, fun j => iff_of_false nofun ?_,
    h.waiting_move (hi ▸ nofun) (by cases complete <;> exact nofun), h.started, ?_, h.destroyed⟩
  · change ¬ ((s.move i _).phase j).Holding
    rcases eq_or_ne j i with rfl | hne
    · rw [phase_move]
      cases complete <;> exact id
    · rw [phase_move_of_ne s hne, ← h.mutex, hholding]
      exact fun heq => hne (Option.some.inj heq).symm
  · cases complete with
    | true =>
      obtain ⟨hphase, hr⟩ := h.completing hi trivial
      refine Stage.completing i ?_ (fun j hne => ?_) hr
      · change ((s.move i Phase.finishing).phase i).Completing
        rw [phase_move]
        trivial
      · exact (phase_move_of_ne s hne _).trans (hphase j hne)
    | false =>
      obtain ⟨hphase, hs, hr⟩ := h.collecting hi nofun id
      refine Stage.collecting (fun j => ?_) hs hr
      change ¬ ((s.move i Phase.returned).phase j).Completing
      rcases eq_or_ne j i with rfl | hne
      · rw [phase_move]
        exact id
      · rw [phase_move_of_ne s hne]
        exact hphase j

theorem finish (h : Inv values s) {i : Fin n} {v : Fin n → List V} (hi : s.phase i = Phase.finishing)
    (hv : ∀ j, s.slots j = some (v j)) :
    Inv values { s.move i Phase.returned with received := s.received ++ [concatenation v] } := by
  obtain ⟨hphase, hr⟩ := h.completing hi trivial
  have hpending : Phase.returned.Pending ↔ (s.phase i).Pending := by
    rw [hi]
    exact Iff.rfl
  have hreturned : ∀ j, (s.move i Phase.returned).phase j = Phase.returned := by
    intro j
    rcases eq_or_ne j i with rfl | hne
    · exact phase_move s j _
    · exact (phase_move_of_ne s hne _).trans (hphase j hne)
  have hvalues : v = values := by
    funext j
    have hslot := h.slots_move hpending j (by rw [hreturned j]; exact id)
    exact Option.some.inj ((hv j).symm.trans hslot)
  refine ⟨h.remaining_move hpending, h.slots_move hpending, h.mutex_move (by rw [hi]; exact Iff.rfl),
    h.waiting_move (hi ▸ nofun) nofun, h.started, Stage.received ?_ hreturned ?_, fun _ => ?_⟩
  · change s.started = some n
    -- no child is waiting, so the loop over the children has ended
    have hn : 0 < n := i.pos
    have hlast := (h.waiting_move (i := i) (p := Phase.returned) (hi ▸ nofun) nofun ⟨n - 1, by omega⟩).not.mp
      (by rw [hreturned]; exact nofun)
    obtain ⟨k, hk⟩ := not_forall.mp hlast
    obtain ⟨hk, hlt⟩ := Classical.not_imp.mp hk
    have hle := h.started k hk
    rw [hk]
    have hkn : k = n := by
      have : ¬ k ≤ n - 1 := hlt
      omega
    rw [hkn]
  · change s.received ++ [concatenation v] = _
    rw [hr, hvalues]
    rfl
  · exact List.append_ne_nil_of_right_ne_nil _ (List.cons_ne_nil _ _)

/-- **The step lemma.** -/
theorem step (h : Inv values s) {access : Bool} (hst : Step values s access t) : Inv values t := by
  cases hst with
  | startNone hs hn =>
    subst hn
    have hr := h.received_of_access (Step.startNone hs rfl)
    refine ⟨h.remaining, h.slots, h.mutex, fun i => i.elim0, fun k hk => le_of_eq (Option.some.inj hk).symm,
      Stage.received rfl (fun i => i.elim0) ?_, fun _ => ?_⟩
    · change s.received ++ [[]] = _
      rw [hr]
      rfl
    · exact List.append_ne_nil_of_right_ne_nil _ (List.cons_ne_nil _ _)
  | start hs hn =>
    have hwaiting : ∀ i, s.phase i = Phase.waiting := by
      intro i
      rw [h.waiting, hs]
      exact nofun
    have hall : (Finset.univ.filter fun i => (s.phase i).Pending) = Finset.univ :=
      Finset.filter_true_of_mem fun i _ => hwaiting i ▸ trivial
    obtain ⟨hphase, -, hr⟩ := h.collecting (hwaiting ⟨0, Nat.pos_of_ne_zero hn⟩) nofun id
    refine ⟨h.remaining, h.slots, h.mutex, fun i => iff_of_true (hwaiting i) fun k hk => ?_, fun k hk => ?_,
      Stage.collecting hphase (Or.inr ?_) hr, h.destroyed⟩
    · rw [← Option.some.inj hk]
      exact Nat.zero_le _
    · rw [← Option.some.inj hk]
      exact Nat.zero_le _
    · change s.remaining ≠ 0
      rw [h.remaining, hall, Finset.card_univ, Fintype.card_fin]
      exact_mod_cast hn
  | @startChild i hs =>
    have hwaiting : s.phase i = Phase.waiting := by
      rw [h.waiting]
      intro k hk
      rw [hs] at hk
      exact le_of_eq (Option.some.inj hk).symm
    have hpending : Phase.running.Pending ↔ (s.phase i).Pending := by
      rw [hwaiting]
      exact Iff.rfl
    obtain ⟨hphase, hcount, hr⟩ := h.collecting hwaiting nofun id
    refine ⟨h.remaining_move hpending, h.slots_move hpending, h.mutex_move (by rw [hwaiting]; exact Iff.rfl), fun j => ?_,
      fun k hk => ?_, Stage.collecting (fun j => ?_) (Or.inr ?_) hr, h.destroyed⟩
    · have hiff : (∀ k, some ((i : ℕ) + 1) = some k → k ≤ (j : ℕ)) ↔ (i : ℕ) + 1 ≤ j :=
        ⟨fun hk => hk _ rfl, fun hle k hk => Option.some.inj hk ▸ hle⟩
      change (s.move i Phase.running).phase j = _ ↔ ∀ k, some ((i : ℕ) + 1) = some k → k ≤ (j : ℕ)
      rw [hiff]
      rcases eq_or_ne j i with rfl | hne
      · rw [phase_move]
        exact iff_of_false nofun (by omega)
      · rw [phase_move_of_ne s hne, h.waiting, hs]
        have hval : (j : ℕ) ≠ i := fun heq => hne (Fin.ext heq)
        constructor
        · intro hk
          have := hk _ rfl
          omega
        · intro hle k hk
          rw [← Option.some.inj hk]
          omega
    · rw [← Option.some.inj hk]
      exact i.isLt
    · change ¬ ((s.move i Phase.running).phase j).Completing
      rcases eq_or_ne j i with rfl | hne
      · rw [phase_move]
        exact id
      · rw [phase_move_of_ne s hne]
        exact hphase j
    · exact hcount.resolve_left (hs ▸ nofun)
  | @complete i hi =>
    have hpending : Phase.calling.Pending ↔ (s.phase i).Pending := by
      rw [hi]
      exact Iff.rfl
    exact ⟨h.remaining_move hpending, h.slots_move hpending, h.mutex_move (by rw [hi]; exact Iff.rfl),
      h.waiting_move (hi ▸ nofun) nofun, h.started, h.stage_move hi nofun id id, h.destroyed⟩
  | @lock i hi hm =>
    have hpending : Phase.locked.Pending ↔ (s.phase i).Pending := by
      rw [hi]
      exact Iff.rfl
    obtain ⟨hphase, hs, hr⟩ := h.collecting hi nofun id
    refine ⟨h.remaining_move hpending, h.slots_move hpending, fun j => ?_, h.waiting_move (hi ▸ nofun) nofun, h.started,
      ?_, h.destroyed⟩
    · change some i = some j ↔ ((s.move i Phase.locked).phase j).Holding
      rcases eq_or_ne j i with rfl | hne
      · rw [phase_move]
        exact iff_of_true rfl trivial
      · rw [phase_move_of_ne s hne, ← h.mutex, hm]
        exact iff_of_false (fun heq => hne (Option.some.inj heq).symm) nofun
    · have hstage : Stage values (s.move i Phase.locked) := h.stage_move hi nofun id id
      cases hstage with
      | collecting hphase hs hr => exact Stage.collecting hphase hs hr
      | completing j hj hphase hr => exact Stage.completing j hj hphase hr
      | received hs hphase hr => exact Stage.received hs hphase hr
  | store hi => exact h.store hi
  | unlock hi => exact h.unlock hi
  | finish hi hv => exact h.finish hi hv
  | destroy hr hd =>
    refine ⟨h.remaining, h.slots, h.mutex, h.waiting, h.started, ?_, fun _ => hr⟩
    cases h.stage with
    | collecting hphase hs hr => exact Stage.collecting hphase hs hr
    | completing j hj hphase hr => exact Stage.completing j hj hphase hr
    | received hs hphase hr => exact Stage.received hs hphase hr

theorem of_reachable (h : (system values).Reachable s) : Inv values s :=
  h.invariant (fun _ hs => hs ▸ initial) fun _ _ _ hinv ⟨_, hst⟩ => hinv.step hst

/-! ### Where runs end -/

/-- How many steps are left. -/
def variant (s : Operation n V) : ℕ :=
  (∑ i, (s.phase i).rank) + (if s.started = none then 1 else 0) + (if s.destroyed then 0 else 1)

theorem sum_rank_move {i : Fin n} {p q : Phase} (hi : s.phase i = q) (hp : p.rank < q.rank) :
    ∑ j, ((s.move i p).phase j).rank < ∑ j, (s.phase j).rank := by
  refine Finset.sum_lt_sum (fun j _ => ?_) ⟨i, Finset.mem_univ i, ?_⟩
  · rcases eq_or_ne j i with rfl | hne
    · rw [phase_move, hi]
      exact hp.le
    · rw [phase_move_of_ne s hne]
  · rw [phase_move, hi]
    exact hp

theorem variant_lt (h : Inv values s) {access : Bool} (hst : Step values s access t) : variant t < variant s := by
  have hmove : ∀ {i : Fin n} {p q : Phase} {t : Operation n V}, s.phase i = q → p.rank < q.rank →
      t.phase = (s.move i p).phase → t.started = s.started → t.destroyed = s.destroyed → variant t < variant s := by
    intro i p q t hi hp hphase hstarted hdestroyed
    unfold variant
    rw [hphase, hstarted, hdestroyed]
    have := sum_rank_move hi hp
    omega
  cases hst with
  | startNone hs hn => exact Nat.add_lt_add_right (Nat.add_lt_add_left (by rw [hs]; exact Nat.one_pos) _) _
  | start hs hn => exact Nat.add_lt_add_right (Nat.add_lt_add_left (by rw [hs]; exact Nat.one_pos) _) _
  | @startChild i hs =>
    have hwaiting : s.phase i = Phase.waiting := by
      rw [h.waiting]
      intro k hk
      rw [hs] at hk
      exact le_of_eq (Option.some.inj hk).symm
    have hlt := sum_rank_move (p := Phase.running) hwaiting (by decide)
    refine Nat.add_lt_add_right ?_ _
    change ∑ j, ((s.move i Phase.running).phase j).rank + 0 < ∑ j, (s.phase j).rank + _
    omega
  | complete hi => exact hmove hi (by decide) rfl rfl rfl
  | lock hi hm => exact hmove hi (by decide) rfl rfl rfl
  | store hi => exact hmove (p := Phase.stored _) hi (Nat.lt_succ_self 2) rfl rfl rfl
  | @unlock i complete hi =>
    refine hmove hi ?_ rfl rfl rfl
    cases complete <;> decide
  | finish hi hv => exact hmove hi (by decide) rfl rfl rfl
  | destroy hr hd =>
    refine Nat.add_lt_add_left ?_ _
    rw [hd]
    exact Nat.one_pos

/-- Where nobody can move, the receiver was called. -/
theorem received_of_terminal (h : Inv values s) (hterm : (system values).Terminal s) :
    s.received = [concatenation values] := by
  have hstuck : ∀ {access : Bool} {t : Operation n V}, ¬ Step values s access t := fun hst => hterm _ ⟨_, hst⟩
  have hfree : s.mutex = none := by
    by_contra hm
    obtain ⟨i, hm⟩ := Option.ne_none_iff_exists'.mp hm
    have hi := (h.mutex i).mp hm
    cases hp : s.phase i with
    | locked => exact hstuck (Step.store hp)
    | stored complete => exact hstuck (Step.unlock hp)
    | waiting | running | calling | finishing | returned => rw [hp] at hi; exact hi
  obtain ⟨k, hk⟩ : ∃ k, s.started = some k := by
    by_contra hnone
    have hs : s.started = none := by
      by_contra hs
      exact hnone (Option.ne_none_iff_exists'.mp hs)
    by_cases hn : n = 0
    · exact hstuck (Step.startNone hs hn)
    · exact hstuck (Step.start hs hn)
  have hkn : ¬ k < n := fun hlt => hstuck (Step.startChild (i := ⟨k, hlt⟩) hk)
  have hphase : ∀ i, (s.phase i).Completing ∨ s.phase i = Phase.returned := by
    intro i
    cases hp : s.phase i with
    | waiting =>
      have := (h.waiting i).mp hp k hk
      omega
    | running => exact absurd (Step.complete hp) hstuck
    | calling => exact absurd (Step.lock hp hfree) hstuck
    | locked => exact absurd (Step.store hp) hstuck
    | stored complete => exact absurd (Step.unlock hp) hstuck
    | finishing => exact Or.inl trivial
    | returned => exact Or.inr rfl
  have hpending : ∀ i, ¬ (s.phase i).Pending := by
    intro i hi
    rcases hphase i with hc | hr
    · cases hp : s.phase i <;> rw [hp] at hi hc <;> first | exact hi | exact hc
    · rw [hr] at hi
      exact hi
  cases h.stage with
  | collecting _ hs hr =>
    have hzero : s.remaining = 0 := by
      rw [h.remaining, Finset.filter_false_of_mem fun i _ => hpending i]
      rfl
    exact absurd hzero (hs.resolve_left (hk ▸ nofun))
  | completing i hi hphase hr =>
    cases hp : s.phase i with
    | stored complete => exact absurd (Step.unlock hp) hstuck
    | finishing => exact absurd (Step.finish hp fun j => h.slots j (hpending j)) hstuck
    | waiting | running | calling | locked | returned =>
      rw [hp] at hi
      exact hi.elim
  | received _ _ hr => exact hr

/-- **Total correctness.** -/
theorem ends (h : Inv values s) : (system values).Ends s fun t => t.received = [concatenation values] :=
  StepSystem.ends_of_variant (S := system values) (I := fun s k => Inv values s ∧ k = variant s)
    (fun _ _ hs t ⟨_, hst⟩ => ⟨variant t, hs.2 ▸ variant_lt hs.1 hst, hs.1.step hst, rfl⟩)
    (fun _ _ hs hterm => received_of_terminal hs.1 hterm) ⟨h, rfl⟩

end Inv

/-- The receiver is called once, with the values of all children. -/
structure CompletesOnce (values : Fin n → List V) (s : Operation n V) : Prop where
  /-- It is called at most once, with the values in the order of the senders, -/
  received : s.received = [] ∨ s.received = [concatenation values]
  /-- after all children were started and delivered them; -/
  delivered : s.received ≠ [] → s.started = some n ∧ ∀ i, s.phase i = Phase.returned ∧ s.slots i = some (values i)
  /-- and the operation, which exists until then, is not accessed after the call. -/
  access : ∀ t, Step values s true t → s.received = [] ∧ s.destroyed = false
  /-- Every run ends, after the call. -/
  ends : (system values).Ends s fun t => t.received = [concatenation values]

theorem completesOnce {values : Fin n → List V} {s : Operation n V} (h : (system values).Reachable s) :
    CompletesOnce values s := by
  have hinv := Inv.of_reachable h
  refine ⟨?_, fun hr => ?_, fun t hst => ?_, hinv.ends⟩
  · cases hinv.stage with
    | collecting _ _ hr => exact Or.inl hr
    | completing _ _ _ hr => exact Or.inl hr
    | received _ _ hr => exact Or.inr hr
  · cases hinv.stage with
    | collecting _ _ hr' => exact absurd hr' hr
    | completing _ _ _ hr' => exact absurd hr' hr
    | received hs hphase _ => exact ⟨hs, fun i => ⟨hphase i, hinv.slots i (by rw [hphase i]; exact id)⟩⟩
  · have hr := hinv.received_of_access hst
    exact ⟨hr, hinv.not_destroyed hr⟩

end Operation
end WhenAll
end Caravan
end Spearhed
