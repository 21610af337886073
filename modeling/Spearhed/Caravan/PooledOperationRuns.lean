import Spearhed.Caravan.PooledOperation

/-!
# Leasing is exclusive and lossless

Every action on lease objects is an action on the book of its pool: `grant` for a lease that
`acquire` returned, `transfer` for a move, `release` for a destructor (`queueBook_bindQueues` and
the lemmas after it).  `Leases.Exclusive` is therefore kept along every run.  On top of that,
`OperationInv` follows the leases of one operation through its life cycle, up to the poll that finds
every fence complete and so, by the invariant of `SubmitOperation`, every stage finished.
-/

namespace Spearhed
namespace Caravan

open Library

theorem QueueLease.held_of_pool {lease : QueueLease} (h : lease.pool = true) :
    QueueLease.held (some lease) = lease.entries := by
  obtain ⟨pool, entries⟩ := lease
  obtain rfl : pool = true := h
  rfl

theorem EventLease.held_of_pool {lease : EventLease} (h : lease.pool = true) :
    EventLease.held (some lease) = [lease.entry] := by
  obtain ⟨pool, entry⟩ := lease
  obtain rfl : pool = true := h
  rfl

namespace LeaseWorld

variable {w w' : LeaseWorld}

/-! ## The books -/

/-- The book of the queue pool. -/
def queueBook (w : LeaseWorld) : Leases Place ℕ :=
  ⟨fun p => QueueLease.held (w.queueLeases p), w.queuePool.flag, w.queueGrants, w.queueReturns⟩

/-- The book of the event pool, for given marks. -/
def eventBook (w : LeaseWorld) (leased : ℕ → Bool) : Leases Place ℕ :=
  ⟨fun p => EventLease.held (w.eventLeases p), leased, w.eventGrants, w.eventReturns⟩

theorem held_update (leases : Place → Option QueueLease) (p : Place) (l : Option QueueLease) :
    (fun q => QueueLease.held (Function.update leases p l q)) =
      Function.update (fun q => QueueLease.held (leases q)) p (QueueLease.held l) :=
  funext fun q => Function.apply_update (fun _ => QueueLease.held) leases p l q

theorem held_updateEvent (leases : Place → Option EventLease) (p : Place)
    (l : Option EventLease) :
    (fun q => EventLease.held (Function.update leases p l q)) =
      Function.update (fun q => EventLease.held (leases q)) p (EventLease.held l) :=
  funext fun q => Function.apply_update (fun _ => EventLease.held) leases p l q

theorem queueBook_bindQueues {count creatable : ℕ} {lease : QueueLease} {pool : QueuePool}
    (h : w.queuePool.acquire count creatable = (some lease, pool)) (p : Place) :
    (w.bindQueues p lease pool).queueBook = w.queueBook.grant p lease.entries := by
  obtain ⟨hpool, -, -, -, -, -, hflag⟩ := QueuePool.acquire_eq_some h
  have hholds := held_update w.queueLeases p (some lease)
  rw [QueueLease.held_of_pool hpool] at hholds
  rw [queueBook, bindQueues, Leases.grant, hholds, funext hflag]
  rfl

theorem queueBook_moveQueues {src dst : Place} {lease : QueueLease}
    (hsrc : w.queueLeases src = some lease) :
    (w.moveQueues src dst lease).queueBook = w.queueBook.transfer src dst := by
  rw [queueBook, moveQueues, Leases.transfer, held_update, held_update, ← hsrc]
  rfl

theorem queueBook_destroyQueues (p : Place)
    (hlt : ∀ e ∈ QueueLease.held (w.queueLeases p), e < w.queuePool.leased.length) :
    (w.destroyQueues p).queueBook = w.queueBook.release p := by
  rw [queueBook, destroyQueues, Leases.release, held_update,
    funext (QueuePool.release_flag hlt)]
  rfl

theorem eventBook_bindEvent {lease : EventLease} {pool : EventPool} (hpool : lease.pool = true)
    (p : Place) (leased : ℕ → Bool) :
    (w.bindEvent p lease pool).eventBook (fun e => leased e || decide (e ∈ [lease.entry])) =
      (w.eventBook leased).grant p [lease.entry] := by
  have hholds := held_updateEvent w.eventLeases p (some lease)
  rw [EventLease.held_of_pool hpool] at hholds
  rw [eventBook, bindEvent, Leases.grant, hholds]
  rfl

theorem eventBook_moveEvent {src dst : Place} {lease : EventLease}
    (hsrc : w.eventLeases src = some lease) (leased : ℕ → Bool) :
    (w.moveEvent src dst lease).eventBook leased = (w.eventBook leased).transfer src dst := by
  rw [eventBook, moveEvent, Leases.transfer, held_updateEvent, held_updateEvent, ← hsrc]
  rfl

/-! ## The pools -/

/-- What holds of the pools and the lease objects. -/
structure BookInv (w : LeaseWorld) : Prop where
  queues : w.queueBook.Exclusive
  queues_lt : ∀ p, ∀ e ∈ QueueLease.held (w.queueLeases p), e < w.queuePool.leased.length
  events : ∃ leased, (w.eventBook leased).Exclusive ∧ w.eventPool.FreeList leased

/-- Operations are not part of the books. -/
theorem BookInv.withOperations (h : BookInv w) (operations : ℕ → Option PooledOperation) :
    BookInv { w with operations := operations } :=
  ⟨h.queues, h.queues_lt, h.events⟩

theorem BookInv.bindQueues (h : BookInv w) {p : Place} (hp : w.queueLeases p = none)
    {count creatable : ℕ} {lease : QueueLease} {pool : QueuePool}
    (hacquire : w.queuePool.acquire count creatable = (some lease, pool)) :
    BookInv (w.bindQueues p lease pool) := by
  obtain ⟨hpool, -, hnodup, hidle, hlt, hle, -⟩ := QueuePool.acquire_eq_some hacquire
  refine ⟨?_, fun q e he => ?_, h.events⟩
  · rw [queueBook_bindQueues hacquire]
    refine h.queues.grant ?_ hnodup hidle
    show QueueLease.held (w.queueLeases p) = []
    rw [hp]
    rfl
  · replace he : e ∈ QueueLease.held (Function.update w.queueLeases p (some lease) q) := he
    by_cases hq : q = p
    · rw [hq, Function.update_self, QueueLease.held_of_pool hpool] at he
      exact hlt e he
    · rw [Function.update_of_ne hq] at he
      exact (h.queues_lt q e he).trans_le hle

theorem BookInv.moveQueues (h : BookInv w) {src dst : Place} {lease : QueueLease}
    (hsrc : w.queueLeases src = some lease) (hdst : w.queueLeases dst = none) :
    BookInv (w.moveQueues src dst lease) := by
  have hne : src ≠ dst := by
    rintro rfl
    rw [hsrc] at hdst
    cases hdst
  refine ⟨?_, fun q e he => ?_, h.events⟩
  · rw [queueBook_moveQueues hsrc]
    refine h.queues.transfer ?_ hne
    show QueueLease.held (w.queueLeases dst) = []
    rw [hdst]
    rfl
  · replace he : e ∈ QueueLease.held (Function.update
        (Function.update w.queueLeases dst (some lease)) src (some ⟨false, []⟩) q) := he
    by_cases hqs : q = src
    · rw [hqs, Function.update_self] at he
      exact absurd he List.not_mem_nil
    · rw [Function.update_of_ne hqs] at he
      by_cases hqd : q = dst
      · rw [hqd, Function.update_self, ← hsrc] at he
        exact h.queues_lt src e he
      · rw [Function.update_of_ne hqd] at he
        exact h.queues_lt q e he

theorem BookInv.destroyQueues (h : BookInv w) (p : Place) : BookInv (w.destroyQueues p) := by
  refine ⟨?_, fun q e he => ?_, h.events⟩
  · rw [queueBook_destroyQueues p (h.queues_lt p)]
    exact h.queues.release p
  · replace he : e ∈ QueueLease.held (Function.update w.queueLeases p none q) := he
    by_cases hq : q = p
    · rw [hq, Function.update_self] at he
      exact absurd he List.not_mem_nil
    · rw [Function.update_of_ne hq] at he
      rw [LeaseWorld.destroyQueues, QueuePool.release, QueuePool.length_foldl_set]
      exact h.queues_lt q e he

theorem BookInv.bindEvent (h : BookInv w) {p : Place} (hp : w.eventLeases p = none)
    {creatable : Bool} {lease : EventLease} {pool : EventPool}
    (hacquire : w.eventPool.acquire creatable = (some lease, pool)) :
    BookInv (w.bindEvent p lease pool) := by
  obtain ⟨leased, hexclusive, hfree⟩ := h.events
  have hpool := EventPool.pool_of_acquire hacquire
  obtain ⟨hidle, hfree'⟩ := EventPool.acquire_eq_some hfree hacquire
  refine ⟨h.queues, h.queues_lt, _, ?_, hfree'⟩
  rw [eventBook_bindEvent hpool]
  refine hexclusive.grant ?_ (List.nodup_singleton _) fun e he => ?_
  · show EventLease.held (w.eventLeases p) = []
    rw [hp]
    rfl
  · rw [List.mem_singleton.mp he]
    exact hidle

theorem BookInv.moveEvent (h : BookInv w) {src dst : Place} {lease : EventLease}
    (hsrc : w.eventLeases src = some lease) (hdst : w.eventLeases dst = none) :
    BookInv (w.moveEvent src dst lease) := by
  obtain ⟨leased, hexclusive, hfree⟩ := h.events
  have hne : src ≠ dst := by
    rintro rfl
    rw [hsrc] at hdst
    cases hdst
  refine ⟨h.queues, h.queues_lt, leased, ?_, hfree⟩
  rw [eventBook_moveEvent hsrc]
  refine hexclusive.transfer ?_ hne
  show EventLease.held (w.eventLeases dst) = []
  rw [hdst]
  rfl

theorem BookInv.destroyEvent (h : BookInv w) (p : Place) : BookInv (w.destroyEvent p) := by
  obtain ⟨leased, hexclusive, hfree⟩ := h.events
  have hrelease := hexclusive.release p
  -- a lease that was moved from, or an empty optional, returns nothing
  have hnothing : EventLease.held (w.eventLeases p) = [] →
      BookInv { w with eventLeases := Function.update w.eventLeases p none } := by
    intro hheld
    refine ⟨h.queues, h.queues_lt, leased, ?_, hfree⟩
    have hbook : LeaseWorld.eventBook { w with
        eventLeases := Function.update w.eventLeases p none } leased =
        (w.eventBook leased).release p := by
      rw [eventBook, Leases.release, held_updateEvent]
      simp only [eventBook, hheld, List.not_mem_nil, decide_false, Bool.not_false, Bool.and_true,
        List.count_nil, Nat.add_zero]
      rfl
    rw [hbook]
    exact hrelease
  rw [LeaseWorld.destroyEvent]
  split
  · next entry hlease =>
    have hheld : EventLease.held (w.eventLeases p) = [entry] := by
      rw [hlease]
      rfl
    have hmem : leased entry = true := by
      refine (hexclusive.leased_iff entry).mpr ⟨p, ?_⟩
      show entry ∈ EventLease.held (w.eventLeases p)
      rw [hheld]
      exact List.mem_singleton.mpr rfl
    refine ⟨h.queues, h.queues_lt, _, ?_, hfree.release hmem⟩
    rw [Leases.release] at hrelease
    rw [eventBook, held_updateEvent]
    simp only [eventBook, hheld] at hrelease
    exact hrelease
  · next hno =>
    refine hnothing ?_
    cases hlease : w.eventLeases p with
    | none => rfl
    | some lease =>
      obtain ⟨pool, entry⟩ := lease
      cases pool with
      | false => rfl
      | true => exact absurd hlease (hno entry)

theorem bindQueues_of_ne {p q : Place} {lease : QueueLease} {pool : QueuePool} (h : q ≠ p) :
    (w.bindQueues p lease pool).queueLeases q = w.queueLeases q :=
  Function.update_of_ne h _ _

theorem moveQueues_of_ne {p q r : Place} {lease : QueueLease} (hp : r ≠ p) (hq : r ≠ q) :
    (w.moveQueues p q lease).queueLeases r = w.queueLeases r :=
  (Function.update_of_ne hp _ _).trans (Function.update_of_ne hq _ _)

theorem destroyQueues_of_ne {p q : Place} (h : q ≠ p) :
    (w.destroyQueues p).queueLeases q = w.queueLeases q :=
  Function.update_of_ne h _ _

theorem bindEvent_of_ne {p q : Place} {lease : EventLease} {pool : EventPool} (h : q ≠ p) :
    (w.bindEvent p lease pool).eventLeases q = w.eventLeases q :=
  Function.update_of_ne h _ _

theorem moveEvent_of_ne {p q r : Place} {lease : EventLease} (hp : r ≠ p) (hq : r ≠ q) :
    (w.moveEvent p q lease).eventLeases r = w.eventLeases r :=
  (Function.update_of_ne hp _ _).trans (Function.update_of_ne hq _ _)

theorem destroyEvent_eq (w : LeaseWorld) (p : Place) :
    (w.destroyEvent p).eventLeases = Function.update w.eventLeases p none ∧
      (w.destroyEvent p).queueLeases = w.queueLeases ∧
      (w.destroyEvent p).operations = w.operations := by
  rw [destroyEvent]
  split <;> exact ⟨rfl, rfl, rfl⟩

/-! ## Operations -/

/-- The fences of an operation: those of the stages from `k` on are made, where they are not shared,
and no others. -/
structure FencesFrom (op : SubmitOperation ℕ) (k : ℕ) (fences : ℕ → Option EventLease) : Prop where
  made : ∀ i, k ≤ i → i < op.stageCount → op.sharesFence i = false →
    ∃ entry, fences i = some ⟨true, entry⟩
  none : ∀ i, i < k ∨ op.stageCount ≤ i ∨ op.sharesFence i = true → fences i = none

/-- The binding holds the queues the operation is submitted to. -/
def Bound (binding : Option QueueLease) (o : PooledOperation) : Prop :=
  ∃ lease, binding = some lease ∧ lease.pool = true ∧ o.operation = bindOperation o.graph lease

/-- All stages have finished. -/
def AllFinished (o : PooledOperation) : Prop :=
  ∀ i < o.operation.stageCount, o.operation.StageFinished o.progress i

/-- The leases of an operation in each phase of its life. -/
def PhaseInv (binding : Option QueueLease) (fences : ℕ → Option EventLease)
    (o : PooledOperation) : OperationPhase → Prop
  | .constructing k => Bound binding o ∧
      FencesFrom o.operation k fences ∧ k ≤ o.operation.stageCount ∧ o.hasStarted = false ∧
      o.progress = SubmitOperation.Progress.initial
  | .connected => Bound binding o ∧
      FencesFrom o.operation 0 fences ∧ o.hasStarted = false ∧
      o.progress = SubmitOperation.Progress.initial
  | .started => Bound binding o ∧ FencesFrom o.operation 0 fences ∧
      o.operation.Inv o.progress
  | .resetting k => Bound binding o ∧
      FencesFrom o.operation k fences ∧ AllFinished o
  | .unbinding => Bound binding o ∧ (∀ i, fences i = none) ∧
      AllFinished o
  | .delivering => binding = none ∧ (∀ i, fences i = none) ∧ AllFinished o
  | .delivered => binding = none ∧ (∀ i, fences i = none) ∧ AllFinished o
  | .destroying k => (∀ i, k ≤ i → fences i = none) ∧ (o.hasStarted = true → AllFinished o)

/-- Only operations have leases in their members. -/
def OperationInv (binding : Option QueueLease) (fences : ℕ → Option EventLease) :
    Option PooledOperation → Prop
  | some o => PhaseInv binding fences o o.phase
  | none => binding = none ∧ ∀ i, fences i = none

/-- The invariant of the operations. -/
def OperationsInv (w : LeaseWorld) : Prop :=
  ∀ g, OperationInv (w.queueLeases (.binding g)) (fun i => w.eventLeases (.fence g i))
    (w.operations g)

theorem OperationsInv.phase (h : OperationsInv w) {g : ℕ} {o : PooledOperation}
    {p : OperationPhase} (hg : w.operations g = some o) (hp : o.phase = p) :
    PhaseInv (w.queueLeases (.binding g)) (fun i => w.eventLeases (.fence g i)) o p := by
  have hinv := h g
  rw [hg] at hinv
  exact hp ▸ hinv

/-- A step of operation `g` concerns its own leases only. -/
theorem OperationsInv.ofOperation (h : OperationsInv w) {g : ℕ}
    (hself : OperationInv (w'.queueLeases (.binding g)) (fun i => w'.eventLeases (.fence g i))
      (w'.operations g))
    (hother : ∀ g', g' ≠ g → w'.queueLeases (.binding g') = w.queueLeases (.binding g') ∧
      (∀ i, w'.eventLeases (.fence g' i) = w.eventLeases (.fence g' i)) ∧
      w'.operations g' = w.operations g') : OperationsInv w' := by
  intro g'
  by_cases hg : g' = g
  · exact hg ▸ hself
  · obtain ⟨hbinding, hfences, hoperation⟩ := hother g' hg
    rw [hbinding, hoperation, funext hfences]
    exact h g'

/-- A step on variables does not concern operations. -/
theorem OperationsInv.frame (h : OperationsInv w)
    (hbinding : ∀ g, w'.queueLeases (.binding g) = w.queueLeases (.binding g))
    (hfences : ∀ g i, w'.eventLeases (.fence g i) = w.eventLeases (.fence g i))
    (hoperations : w'.operations = w.operations) : OperationsInv w' := by
  intro g
  rw [hbinding, hoperations, funext (hfences g)]
  exact h g

/-- Operation `g` goes on, after changes to its own leases only. -/
theorem OperationsInv.setOperation (h : OperationsInv w) {g : ℕ} {o : PooledOperation}
    (hoperations : w'.operations = w.operations)
    (hbinding : ∀ g', g' ≠ g → w'.queueLeases (.binding g') = w.queueLeases (.binding g'))
    (hfences : ∀ g', g' ≠ g → ∀ i, w'.eventLeases (.fence g' i) = w.eventLeases (.fence g' i))
    (hself : PhaseInv (w'.queueLeases (.binding g)) (fun i => w'.eventLeases (.fence g i)) o
      o.phase) : OperationsInv (w'.setOperation g o) := by
  refine h.ofOperation (g := g) ?_ fun g' hg => ⟨hbinding g' hg, hfences g' hg, ?_⟩
  · show OperationInv _ _ (Function.update w'.operations g (some o) g)
    rw [Function.update_self]
    exact hself
  · show Function.update w'.operations g (some o) g' = _
    rw [Function.update_of_ne hg, hoperations]

/-- The phase of an operation changes, and nothing else. -/
theorem OperationsInv.setPhase (h : OperationsInv w) {g : ℕ} {o : PooledOperation}
    (p : OperationPhase)
    (hself : PhaseInv (w.queueLeases (.binding g)) (fun i => w.eventLeases (.fence g i)) o p) :
    OperationsInv (w.setPhase g o p) :=
  h.setOperation rfl (fun _ _ => rfl) (fun _ _ _ => rfl) hself

theorem destroyEvent_fence (w : LeaseWorld) (g i j : ℕ) :
    (w.destroyEvent (.fence g i)).eventLeases (.fence g j) =
      if j = i then none else w.eventLeases (.fence g j) := by
  rw [(destroyEvent_eq w _).1]
  by_cases hj : j = i
  · rw [hj, Function.update_self, if_pos rfl]
  · rw [Function.update_of_ne (by simpa using hj), if_neg hj]

/-- The lease of a fence is destroyed. -/
theorem OperationsInv.destroyFence (h : OperationsInv w) {g i : ℕ} {o : PooledOperation}
    (p : OperationPhase)
    (hself : PhaseInv (w.queueLeases (.binding g))
      (fun j => if j = i then none else w.eventLeases (.fence g j)) o p) :
    OperationsInv ((w.destroyEvent (.fence g i)).setPhase g o p) := by
  obtain ⟨hevents, hqueues, hoperations⟩ := destroyEvent_eq w (.fence g i)
  refine h.setOperation hoperations (fun g' _ => by rw [hqueues]) (fun g' hg j => ?_) ?_
  · rw [hevents, Function.update_of_ne (by simp [hg])]
  · rw [hqueues, funext (destroyEvent_fence w g i)]
    exact hself

/-- Fences of a shared stage are skipped. -/
theorem FencesFrom.share {op : SubmitOperation ℕ} {i : ℕ} {fences : ℕ → Option EventLease}
    (h : FencesFrom op (i + 1) fences) (hs : op.sharesFence i = true) :
    FencesFrom op i fences := by
  refine ⟨fun j hij hj hshare => ?_, fun j hj => ?_⟩
  · have hne : j ≠ i := by
      rintro rfl
      rw [hs] at hshare
      cases hshare
    exact h.made j (by omega) hj hshare
  · exact h.none j (hj.imp_left fun hlt => Nat.lt_succ_of_lt hlt)

/-- A fence is made. -/
theorem FencesFrom.make {op : SubmitOperation ℕ} {i : ℕ} {fences : ℕ → Option EventLease}
    (h : FencesFrom op (i + 1) fences) (hi : i < op.stageCount) (hs : op.sharesFence i = false)
    (entry : ℕ) : FencesFrom op i fun j => if j = i then some ⟨true, entry⟩ else fences j := by
  refine ⟨fun j hij hj hshare => ?_, fun j hj => ?_⟩
  · by_cases hji : j = i
    · exact ⟨entry, if_pos hji⟩
    · rw [if_neg hji]
      exact h.made j (by omega) hj hshare
  · have hne : j ≠ i := by
      rintro rfl
      rcases hj with hj | hj | hj
      · exact Nat.lt_irrefl _ hj
      · omega
      · rw [hs] at hj
        cases hj
    rw [if_neg hne]
    exact h.none j (hj.imp_left fun hlt => Nat.lt_succ_of_lt hlt)

/-- A fence is reset. -/
theorem FencesFrom.reset {op : SubmitOperation ℕ} {i : ℕ} {fences : ℕ → Option EventLease}
    (h : FencesFrom op i fences) :
    FencesFrom op (i + 1) fun j => if j = i then Option.none else fences j := by
  refine ⟨fun j hij hj hshare => ?_, fun j hj => ?_⟩
  · rw [if_neg (by omega)]
    exact h.made j (by omega) hj hshare
  · by_cases hji : j = i
    · exact if_pos hji
    · rw [if_neg hji]
      exact h.none j (hj.imp_left fun hlt => by omega)

theorem FencesFrom.eq_none {op : SubmitOperation ℕ} {fences : ℕ → Option EventLease}
    (h : FencesFrom op op.stageCount fences) (i : ℕ) : fences i = Option.none :=
  h.none i ((Nat.lt_or_ge i op.stageCount).imp_right Or.inl)

/-! ## All runs -/

theorem BookInv.step (hoperations : OperationsInv w) (h : BookInv w) (hstep : Step w w') :
    BookInv w' := by
  cases hstep with
  | acquireQueues hn hacquire => exact h.bindQueues hn hacquire
  | acquireQueuesThrow hacquire =>
    obtain ⟨hext, hflag⟩ := QueuePool.acquire_eq_none hacquire
    refine ⟨?_, fun p e he => (h.queues_lt p e he).trans_le hext.length_le, h.events⟩
    have hqueues := h.queues
    rw [queueBook] at hqueues ⊢
    rwa [funext hflag]
  | moveQueues hn hm => exact h.moveQueues hn hm
  | destroyQueues n => exact h.destroyQueues _
  | acquireEvent hn hacquire => exact h.bindEvent hn hacquire
  | moveEvent hn hm => exact h.moveEvent hn hm
  | destroyEvent n => exact h.destroyEvent _
  | @connect g creatable graph lease pool hg hacquire =>
    have hinv := hoperations g
    rw [hg] at hinv
    exact (h.bindQueues hinv.1 hacquire).withOperations _
  | shareFence hg hp hs => exact h.withOperations _
  | @makeFence g i o creatable lease pool hg hp hs hacquire =>
    obtain ⟨-, hfences, -⟩ := hoperations.phase hg hp
    exact (h.bindEvent (hfences.none i (Or.inl (Nat.lt_succ_self i))) hacquire).withOperations _
  | makeFenceThrow hg hp hs hacquire =>
    rw [EventPool.acquire_eq_none hacquire]
    exact h.withOperations _
  | constructed hg hp => exact h.withOperations _
  | start hg hp => exact h.withOperations _
  | run hg hp hrun => exact h.withOperations _
  | pollReady hg hp hs hpoll => exact h.withOperations _
  | resetFence hg hp hi => exact (h.destroyEvent _).withOperations _
  | resetFences hg hp => exact h.withOperations _
  | unbind hg hp => exact (h.destroyQueues _).withOperations _
  | deliver hg hp => exact h.withOperations _
  | destroy hg hp => exact h.withOperations _
  | destroyFence hg hp => exact (h.destroyEvent _).withOperations _
  | destroyed hg hp => exact (h.destroyQueues _).withOperations _

theorem OperationsInv.step (h : OperationsInv w) (hstep : Step w w') : OperationsInv w' := by
  cases hstep with
  | acquireQueues hn hacquire =>
    exact h.frame (fun _ => bindQueues_of_ne nofun) (fun _ _ => rfl) rfl
  | acquireQueuesThrow hacquire => exact h.frame (fun _ => rfl) (fun _ _ => rfl) rfl
  | moveQueues hn hm =>
    exact h.frame (fun _ => moveQueues_of_ne nofun nofun) (fun _ _ => rfl) rfl
  | destroyQueues n => exact h.frame (fun _ => destroyQueues_of_ne nofun) (fun _ _ => rfl) rfl
  | acquireEvent hn hacquire =>
    exact h.frame (fun _ => rfl) (fun _ _ => bindEvent_of_ne nofun) rfl
  | moveEvent hn hm =>
    exact h.frame (fun _ => rfl) (fun _ _ => moveEvent_of_ne nofun nofun) rfl
  | destroyEvent n =>
    obtain ⟨hevents, hqueues, hops⟩ := destroyEvent_eq w (.variable n)
    refine h.frame (fun _ => by rw [hqueues]) (fun g i => ?_) hops
    rw [hevents]
    exact Function.update_of_ne (by simp) _ _
  | @connect g creatable graph lease pool hg hacquire =>
    have hinv := h g
    rw [hg] at hinv
    refine h.setOperation rfl (fun g' hne => bindQueues_of_ne (by simpa using hne))
      (fun _ _ _ => rfl) ?_
    obtain ⟨hpool, -⟩ := QueuePool.acquire_eq_some hacquire
    exact ⟨⟨lease, Function.update_self _ _ _, hpool, rfl⟩,
      ⟨fun i hi hlt _ => absurd hlt (Nat.not_lt.mpr hi), fun i _ => hinv.2 i⟩, le_rfl, rfl, rfl⟩
  | shareFence hg hp hs =>
    obtain ⟨hbinding, hfences, hk, hrest⟩ := h.phase hg hp
    exact h.setPhase _ ⟨hbinding, hfences.share hs, Nat.le_of_succ_le hk, hrest⟩
  | @makeFence g i o creatable lease pool hg hp hs hacquire =>
    obtain ⟨hbinding, hfences, hk, hrest⟩ := h.phase hg hp
    have hpool := EventPool.pool_of_acquire hacquire
    refine h.setOperation rfl (fun _ _ => rfl)
      (fun g' hne j => bindEvent_of_ne (by simp [hne])) ?_
    refine ⟨hbinding, ?_, Nat.le_of_succ_le hk, hrest⟩
    have hmake := hfences.make hk hs lease.entry
    have heq : (fun j => Function.update w.eventLeases (.fence g i) (some lease) (.fence g j)) =
        fun j => if j = i then some ⟨true, lease.entry⟩ else w.eventLeases (.fence g j) := by
      funext j
      by_cases hj : j = i
      · rw [hj, Function.update_self, if_pos rfl, ← hpool]
      · rw [Function.update_of_ne (by simpa using hj), if_neg hj]
    rw [← heq] at hmake
    exact hmake
  | makeFenceThrow hg hp hs hacquire =>
    obtain ⟨-, hfences, -, hstarted, -⟩ := h.phase hg hp
    refine h.setOperation rfl (fun _ _ => rfl) (fun _ _ _ => rfl)
      ⟨fun i hi => hfences.none i (Or.inr (Or.inl hi)), fun hs' => ?_⟩
    rw [hstarted] at hs'
    cases hs'
  | constructed hg hp =>
    obtain ⟨hbinding, hfences, -, hrest⟩ := h.phase hg hp
    exact h.setPhase _ ⟨hbinding, hfences, hrest⟩
  | start hg hp =>
    obtain ⟨hbinding, hfences, -, hprogress⟩ := h.phase hg hp
    refine h.setOperation rfl (fun _ _ => rfl) (fun _ _ _ => rfl) ⟨hbinding, hfences, ?_⟩
    rw [hprogress]
    exact SubmitOperation.inv_init
  | run hg hp hrun =>
    obtain ⟨hbinding, hfences, hinv⟩ := h.phase hg hp
    refine h.setOperation rfl (fun _ _ => rfl) (fun _ _ _ => rfl) ?_
    rw [hp]
    exact ⟨hbinding, hfences, hinv.step hrun⟩
  | pollReady hg hp hs hpoll =>
    obtain ⟨hbinding, hfences, hinv⟩ := h.phase hg hp
    exact h.setOperation rfl (fun _ _ => rfl) (fun _ _ _ => rfl)
      ⟨hbinding, hfences, fun i hi => hinv.finished_of_poll hs hpoll hi⟩
  | resetFence hg hp hi =>
    obtain ⟨hbinding, hfences, hfinished⟩ := h.phase hg hp
    exact h.destroyFence _ ⟨hbinding, hfences.reset, hfinished⟩
  | resetFences hg hp =>
    obtain ⟨hbinding, hfences, hfinished⟩ := h.phase hg hp
    exact h.setPhase _ ⟨hbinding, hfences.eq_none, hfinished⟩
  | unbind hg hp =>
    obtain ⟨-, hfences, hfinished⟩ := h.phase hg hp
    exact h.setOperation rfl (fun g' hne => destroyQueues_of_ne (by simpa using hne))
      (fun _ _ _ => rfl) ⟨Function.update_self _ _ _, hfences, hfinished⟩
  | deliver hg hp =>
    obtain ⟨hbinding, hfences, hfinished⟩ := h.phase hg hp
    exact h.setPhase _ ⟨hbinding, hfences, hfinished⟩
  | destroy hg hp =>
    rcases hp with hp | hp
    · obtain ⟨-, hfences, hstarted, -⟩ := h.phase hg hp
      refine h.setPhase _ ⟨fun i hi => hfences.none i (Or.inr (Or.inl hi)), fun hs => ?_⟩
      rw [hstarted] at hs
      cases hs
    · obtain ⟨-, hfences, hfinished⟩ := h.phase hg hp
      exact h.setPhase _ ⟨fun i _ => hfences i, fun _ => hfinished⟩
  | @destroyFence g i o hg hp =>
    obtain ⟨hfences, hfinished⟩ := h.phase hg hp
    refine h.destroyFence _ ⟨fun j hj => ?_, hfinished⟩
    by_cases hji : j = i
    · exact if_pos hji
    · exact (if_neg hji).trans (hfences j (by omega))
  | @destroyed g o hg hp =>
    obtain ⟨hfences, -⟩ := h.phase hg hp
    refine h.ofOperation (g := g) ?_ fun g' hne =>
      ⟨destroyQueues_of_ne (by simpa using hne), fun _ => rfl, Function.update_of_ne hne _ _⟩
    show OperationInv _ _ (Function.update w.operations g none g)
    rw [Function.update_self]
    exact ⟨Function.update_self _ _ _, fun i => hfences i (Nat.zero_le i)⟩

theorem bookInv_initial (queueCount : ℕ) : BookInv (initial queueCount) := by
  have hflag : ∀ e, (initial queueCount).queuePool.flag e = false := fun e => by
    show (List.replicate queueCount false).getD e false = false
    rw [List.getD_eq_getElem?_getD, List.getElem?_replicate]
    split <;> rfl
  refine ⟨⟨fun _ => List.nodup_nil, fun _ _ _ h => absurd h List.not_mem_nil, fun e => ?_,
    fun e => ?_⟩, fun _ _ h => absurd h List.not_mem_nil, fun _ => false,
    ⟨fun _ => List.nodup_nil, fun _ _ _ h => absurd h List.not_mem_nil, fun e => ?_, fun e => rfl⟩,
    [], rfl, List.nodup_nil, fun e => ?_, fun e h => by cases h⟩
  · refine iff_of_false ?_ fun ⟨_, h⟩ => List.not_mem_nil h
    show ¬ (initial queueCount).queuePool.flag e = true
    rw [hflag]
    exact Bool.false_ne_true
  · show 0 = 0 + if (initial queueCount).queuePool.flag e then 1 else 0
    rw [hflag]
    rfl
  · exact iff_of_false Bool.false_ne_true fun ⟨_, h⟩ => List.not_mem_nil h
  · exact iff_of_false List.not_mem_nil fun h => Nat.not_lt_zero e h.1

theorem inv_of_reachable (h : system.Reachable w) : BookInv w ∧ OperationsInv w := by
  refine h.invariant (P := fun w => BookInv w ∧ OperationsInv w) ?_ fun _ _ _ hinv hstep =>
    ⟨hinv.1.step hinv.2 hstep, hinv.2.step hstep⟩
  rintro _ ⟨queueCount, rfl⟩
  exact ⟨bookInv_initial queueCount, fun _ => ⟨rfl, fun _ => rfl⟩⟩

/-- Queues are leased exclusively, and returned once per lease. -/
structure QueuesSound (w : LeaseWorld) : Prop where
  exclusive : ∀ p q e, e ∈ QueueLease.held (w.queueLeases p) →
    e ∈ QueueLease.held (w.queueLeases q) → p = q
  nodup : ∀ p, (QueueLease.held (w.queueLeases p)).Nodup
  leased_iff : ∀ e, w.queuePool.flag e = true ↔ ∃ p, e ∈ QueueLease.held (w.queueLeases p)
  returned : ∀ e, w.queueGrants e = w.queueReturns e + if w.queuePool.flag e then 1 else 0
  acquire : ∀ count creatable lease pool,
    w.queuePool.acquire count creatable = (some lease, pool) →
      lease.entries.length = count ∧ lease.entries.Nodup ∧
        ∀ e ∈ lease.entries, ∀ p, e ∉ QueueLease.held (w.queueLeases p)
  acquire_throw : ∀ count creatable pool, w.queuePool.acquire count creatable = (none, pool) →
    w.queuePool.leased <+: pool.leased ∧
      (∀ e, w.queuePool.leased.length ≤ e → pool.flag e = false) ∧
        ∀ e, pool.flag e = w.queuePool.flag e

/-- Events are leased exclusively, and returned once per lease to a free list of the others. -/
structure EventsSound (w : LeaseWorld) : Prop where
  exclusive : ∀ p q e, e ∈ EventLease.held (w.eventLeases p) →
    e ∈ EventLease.held (w.eventLeases q) → p = q
  freeList : ∃ l, Walk w.eventPool.next w.eventPool.free l ∧ l.Nodup ∧
    ∀ e, e ∈ l ↔ e < w.eventPool.count ∧ ∀ p, e ∉ EventLease.held (w.eventLeases p)
  returned : ∀ e, (∀ p, e ∈ EventLease.held (w.eventLeases p) →
      w.eventGrants e = w.eventReturns e + 1) ∧
    ((∀ p, e ∉ EventLease.held (w.eventLeases p)) → w.eventGrants e = w.eventReturns e)
  acquire : ∀ creatable lease pool, w.eventPool.acquire creatable = (some lease, pool) →
    ∀ p, lease.entry ∉ EventLease.held (w.eventLeases p)
  acquire_throw : ∀ creatable pool, w.eventPool.acquire creatable = (none, pool) →
    pool = w.eventPool

/-- Operations return their leases between the end of their last stage and the call of the
receiver. -/
structure OperationsSound (w : LeaseWorld) : Prop where
  held : ∀ g o, w.operations g = some o → o.hasStarted = true → ¬ AllFinished o →
    Bound (w.queueLeases (.binding g)) o ∧
      ∀ i < o.operation.stageCount, o.operation.sharesFence i = false →
        ∃ e, w.eventLeases (.fence g i) = some ⟨true, e⟩
  returned : ∀ g o, w.operations g = some o → o.phase = .delivering ∨ o.phase = .delivered →
    w.queueLeases (.binding g) = none ∧ ∀ i, w.eventLeases (.fence g i) = none

theorem BookInv.queuesSound (h : BookInv w) : QueuesSound w := by
  refine ⟨h.queues.unique, h.queues.nodup, h.queues.leased_iff, h.queues.balance, ?_, ?_⟩
  · intro count creatable lease pool hacquire
    obtain ⟨-, hlength, hnodup, hidle, -⟩ := QueuePool.acquire_eq_some hacquire
    exact ⟨hlength, hnodup, fun e he => h.queues.not_mem (hidle e he)⟩
  · intro count creatable pool hacquire
    obtain ⟨hext, hflag⟩ := QueuePool.acquire_eq_none hacquire
    refine ⟨hext, fun e he => ?_, hflag⟩
    rw [hflag]
    exact List.getD_eq_default _ _ he

theorem BookInv.eventsSound (h : BookInv w) : EventsSound w := by
  obtain ⟨leased, hexclusive, hfree⟩ := h.events
  have hheld : ∀ e, leased e = true ↔ ∃ p, e ∈ EventLease.held (w.eventLeases p) :=
    hexclusive.leased_iff
  have hidle : ∀ e, leased e = false ↔ ∀ p, e ∉ EventLease.held (w.eventLeases p) := fun e => by
    rw [← not_exists, ← hheld, Bool.not_eq_true]
  have hbalance : ∀ e, w.eventGrants e = w.eventReturns e + if leased e then 1 else 0 :=
    hexclusive.balance
  refine ⟨hexclusive.unique, ?_, fun e => ⟨fun p hp => ?_, fun hp => ?_⟩, ?_, ?_⟩
  · obtain ⟨l, hwalk, hnodup, hmem, -⟩ := hfree
    exact ⟨l, hwalk, hnodup, fun e => (hmem e).trans (and_congr_right' (hidle e))⟩
  · rw [hbalance, if_pos ((hheld e).mpr ⟨p, hp⟩)]
  · rw [hbalance, (hidle e).mpr hp]
    rfl
  · intro creatable lease pool hacquire
    exact (hidle _).mp (EventPool.acquire_eq_some hfree hacquire).1
  · exact fun _ _ hacquire => EventPool.acquire_eq_none hacquire

theorem OperationsInv.sound (h : OperationsInv w) : OperationsSound w := by
  refine ⟨fun g o hg hstarted hunfinished => ?_, fun g o hg hp => ?_⟩
  · have hinv := h.phase hg rfl
    cases hp : o.phase <;> rw [hp] at hinv
    case constructing k => exact absurd (hstarted.symm.trans hinv.2.2.2.1) (by simp)
    case connected => exact absurd (hstarted.symm.trans hinv.2.2.1) (by simp)
    case started => exact ⟨hinv.1, fun i hi hs => hinv.2.1.made i (Nat.zero_le i) hi hs⟩
    case resetting k => exact absurd hinv.2.2 hunfinished
    case unbinding => exact absurd hinv.2.2 hunfinished
    case delivering => exact absurd hinv.2.2 hunfinished
    case delivered => exact absurd hinv.2.2 hunfinished
    case destroying k => exact absurd (hinv.2 hstarted) hunfinished
  · rcases hp with hp | hp
    · obtain ⟨hbinding, hfences, -⟩ := h.phase hg hp
      exact ⟨hbinding, hfences⟩
    · obtain ⟨hbinding, hfences, -⟩ := h.phase hg hp
      exact ⟨hbinding, hfences⟩

/-- **Leasing is exclusive and lossless**, for every interleaving of lease objects in variables and
of operations, whether they are started or not and whether their construction succeeds or throws. -/
theorem leasing_exclusive_lossless (w : LeaseWorld) (h : system.Reachable w) :
    QueuesSound w ∧ EventsSound w ∧ OperationsSound w := by
  obtain ⟨hbook, hoperations⟩ := inv_of_reachable h
  exact ⟨hbook.queuesSound, hbook.eventsSound, hoperations.sound⟩

/-- A pool of one queue, which is leased to variable 0 and moved to variable 1. -/
def movedLease : LeaseWorld :=
  ((initial 1).bindQueues (.variable 0) ⟨true, [0]⟩ ⟨[true]⟩).moveQueues (.variable 0) (.variable 1)
    ⟨true, [0]⟩

theorem reachable_movedLease : system.Reachable movedLease := by
  have hinit : system.Reachable (initial 1) := .init ⟨1, rfl⟩
  have hacquire : (initial 1).queuePool.acquire 1 0 = (some ⟨true, [0]⟩, ⟨[true]⟩) := rfl
  have hleased := hinit.step (Step.acquireQueues (n := 0) rfl hacquire)
  exact hleased.step (Step.moveQueues rfl rfl)

theorem leasing_exclusive_lossless_movedLease :
    QueuesSound movedLease ∧ EventsSound movedLease ∧ OperationsSound movedLease :=
  leasing_exclusive_lossless movedLease reachable_movedLease

end LeaseWorld

end Caravan
end Spearhed
