import Spearhed.Caravan.SharedQueuePool

/-!
# Runs of the shared queue pool

No run of the pool gets stuck, neither the threads on the queue mutexes nor the queues on events.

* Threads: a thread holds a prefix of its ascending lock order and waits for the next one, so the
  rule for ordered locks applies (`HostInv.ordered`).
* Queues: a wait is enqueued after the record of its event, in whatever order graphs are submitted
  (`DeviceInv.waits`).  So the item with the smallest ticket, which is the front of its queue, is
  enabled.
-/

namespace Spearhed
namespace Caravan

open Library ManagedSubmitSender SubmitOperation

namespace StartPhase

/-- The locks a thread holds. -/
def held : StartPhase → List ℕ
  | locking _ distinct i => distinct.take i
  | submitting _ distinct _ _ => distinct
  | unlocking _ distinct i => distinct.take i
  | _ => []

/-- The lock a thread waits for. -/
def waits : StartPhase → Option ℕ
  | locking _ distinct i => distinct[i]?
  | _ => none

/-- The graph that is started, and the locks for it. -/
def target : StartPhase → Option (ℕ × List ℕ)
  | locking g distinct _ => some (g, distinct)
  | submitting g distinct _ _ => some (g, distinct)
  | unlocking g distinct _ => some (g, distinct)
  | _ => none

/-- The counters of a phase are in range. -/
def InRange : StartPhase → Prop
  | locking _ distinct i => i ≤ distinct.length
  | unlocking _ distinct i => i ≤ distinct.length
  | _ => True

end StartPhase

namespace PoolState

variable {Thread : Type} [DecidableEq Thread] {s s' : PoolState Thread}

/-! ## The ring -/

/-- What holds of the pool's own data. -/
structure PoolInv (s : PoolState Thread) : Prop where
  size_pos : 0 < s.size
  next_lt : s.next < s.size
  started : s.graphs ≠ [] → s.started = true
  bound : ∀ c ∈ s.graphs, ∀ i, c.queues i =
    physicalQueue s.size c.base (c.graph.sender.laneAt i)

omit [DecidableEq Thread] in
/-- A graph stays connected. -/
theorem getElem?_graphs_connect {g : ℕ} {c : ConnectedGraph} (graph : PoolSender)
    (hg : s.graphs[g]? = some c) : (s.connect graph).graphs[g]? = some c := by
  rw [connect, List.getElem?_append_left (List.getElem?_eq_some_iff.mp hg).1, hg]

/-- Threads and queues leave the pool's own data alone. -/
theorem HostStep.pool {t : Thread} (h : HostStep t s s') :
    s'.size = s.size ∧ s'.next = s.next ∧ s'.started = s.started ∧ s'.graphs = s.graphs ∧
      s'.startCalled = s.startCalled := by
  cases h with
  | @issue g stage offset distinct c command hp hg hs hc =>
    cases command with
    | wait f => exact ⟨rfl, rfl, rfl, rfl, rfl⟩
    | run k => exact ⟨rfl, rfl, rfl, rfl, rfl⟩
    | record f =>
      rw [submitCommand]
      split <;> exact ⟨rfl, rfl, rfl, rfl, rfl⟩
  | _ => exact ⟨rfl, rfl, rfl, rfl, rfl⟩

theorem PoolInv.step (h : PoolInv s) (hstep : Step s s') : PoolInv s' := by
  cases hstep with
  | addQueues count hs =>
    have hgraphs : s.graphs = [] := by
      by_contra hne
      rw [h.started hne] at hs
      cases hs
    refine ⟨Nat.add_pos_left h.size_pos count, Nat.lt_add_right count h.next_lt, h.started,
      fun c hc => ?_⟩
    rw [show s.graphs = [] from hgraphs] at hc
    exact absurd hc List.not_mem_nil
  | connect graph =>
    refine ⟨h.size_pos, Nat.mod_lt _ h.size_pos, fun _ => rfl, fun c hc i => ?_⟩
    rcases List.mem_append.mp hc with hc | hc
    · exact h.bound c hc i
    · rw [List.mem_singleton.mp hc]
      rfl
  | start hp hg hcalled => exact ⟨h.size_pos, h.next_lt, h.started, h.bound⟩
  | host hstep =>
    obtain ⟨hsize, hnext, hstarted, hgraphs, -⟩ := hstep.pool
    refine ⟨hsize ▸ h.size_pos, hsize ▸ hnext ▸ h.next_lt, ?_, ?_⟩
    · rw [hgraphs, hstarted]
      exact h.started
    · rw [hgraphs, hsize]
      exact h.bound
  | execute hq hx => exact ⟨h.size_pos, h.next_lt, h.started, h.bound⟩

/-! ## Locks -/

/-- What holds of the threads and the mutexes. -/
structure HostInv (s : PoolState Thread) : Prop where
  target : ∀ t g distinct, (s.phase t).target = some (g, distinct) →
    ∃ c, s.graphs[g]? = some c ∧ distinct = lockOrder s.size c.base c.graph.sender.lanes
  inRange : ∀ t, (s.phase t).InRange
  owner : ∀ k t, s.owner k = some t ↔ k ∈ (s.phase t).held

omit [DecidableEq Thread] in
theorem HostInv.pairwise (h : HostInv s) {t : Thread} {g : ℕ} {distinct : List ℕ}
    (ht : (s.phase t).target = some (g, distinct)) : distinct.Pairwise (· < ·) := by
  obtain ⟨c, -, rfl⟩ := h.target t g distinct ht
  exact pairwise_lockOrder

@[simp] theorem setPhase_phase_self (t : Thread) (p : StartPhase) :
    (s.setPhase t p).phase t = p :=
  Function.update_self _ _ _

theorem setPhase_phase_of_ne {t u : Thread} (p : StartPhase) (h : u ≠ t) :
    (s.setPhase t p).phase u = s.phase u :=
  Function.update_of_ne h _ _

/-- Thread `t` moves to phase `p`, and the owners change for `t` only. -/
theorem HostInv.move (h : HostInv s) {t : Thread} {p : StartPhase} {owner : ℕ → Option Thread}
    (htarget : ∀ g distinct, p.target = some (g, distinct) →
      ∃ c, s.graphs[g]? = some c ∧ distinct = lockOrder s.size c.base c.graph.sender.lanes)
    (hrange : p.InRange) (hself : ∀ k, owner k = some t ↔ k ∈ p.held)
    (hother : ∀ k u, u ≠ t → (owner k = some u ↔ s.owner k = some u)) :
    HostInv { s.setPhase t p with owner := owner } := by
  have hphase : ∀ u, u ≠ t → (s.setPhase t p).phase u = s.phase u :=
    fun u hu => setPhase_phase_of_ne p hu
  have hp : (s.setPhase t p).phase t = p := setPhase_phase_self t p
  constructor
  · intro u g distinct hu
    by_cases hut : u = t
    · rw [hut] at hu
      exact htarget g distinct ((congrArg StartPhase.target hp).symm.trans hu)
    · exact h.target u g distinct ((congrArg StartPhase.target (hphase u hut)).symm.trans hu)
  · intro u
    show ((s.setPhase t p).phase u).InRange
    by_cases hut : u = t
    · rw [hut, hp]
      exact hrange
    · rw [hphase u hut]
      exact h.inRange u
  · intro k u
    show owner k = some u ↔ k ∈ ((s.setPhase t p).phase u).held
    by_cases hut : u = t
    · rw [hut, hp]
      exact hself k
    · rw [hphase u hut]
      exact (hother k u hut).trans (h.owner k u)

/-- A step that keeps what the thread holds. -/
theorem HostInv.setPhase (h : HostInv s) {t : Thread} {p : StartPhase}
    (htarget : ∀ g distinct, p.target = some (g, distinct) →
      (s.phase t).target = some (g, distinct)) (hrange : p.InRange)
    (hheld : p.held = (s.phase t).held) : HostInv (s.setPhase t p) :=
  h.move (fun g distinct hp => h.target t g distinct (htarget g distinct hp)) hrange
    (fun k => hheld ▸ h.owner k t) fun _ _ _ => Iff.rfl

/-- Locking the next mutex of the order. -/
theorem HostInv.lock (h : HostInv s) {t : Thread} {g i k : ℕ} {distinct : List ℕ}
    (hp : s.phase t = .locking g distinct i) (hk : distinct[i]? = some k)
    (hfree : s.owner k = none) :
    HostInv { s.setPhase t (.locking g distinct (i + 1)) with
      owner := Function.update s.owner k (some t) } := by
  obtain ⟨hi, hget⟩ := List.getElem?_eq_some_iff.mp hk
  have hheld : ∀ j, s.owner j = some t ↔ j ∈ distinct.take i := fun j => by
    have := h.owner j t
    rwa [hp] at this
  refine h.move (fun g' d hd => h.target t g' d (by rw [hp]; exact hd)) hi (fun j => ?_)
    fun j u hu => ?_
  · show _ ↔ j ∈ distinct.take (i + 1)
    rw [List.take_add_one, hk, List.mem_append, ← hheld]
    by_cases hjk : j = k
    · rw [hjk, Function.update_self]
      exact iff_of_true rfl (Or.inr (List.mem_singleton.mpr rfl))
    · rw [Function.update_of_ne hjk]
      exact (or_iff_left fun hj => hjk (List.mem_singleton.mp hj)).symm
  · by_cases hjk : j = k
    · rw [hjk, Function.update_self, hfree]
      exact iff_of_false (fun h => hu (Option.some.inj h).symm) (fun h => by cases h)
    · rw [Function.update_of_ne hjk]

/-- Unlocking the last mutex that is held. -/
theorem HostInv.unlock (h : HostInv s) {t : Thread} {g i k : ℕ} {distinct : List ℕ}
    (hp : s.phase t = .unlocking g distinct (i + 1)) (hk : distinct[i]? = some k) :
    HostInv { s.setPhase t (.unlocking g distinct i) with
      owner := Function.update s.owner k none } := by
  obtain ⟨hi, hget⟩ := List.getElem?_eq_some_iff.mp hk
  have hheld : ∀ j, s.owner j = some t ↔ j ∈ distinct.take (i + 1) := fun j => by
    have := h.owner j t
    rwa [hp] at this
  have htake : distinct.take (i + 1) = distinct.take i ++ [k] := by
    rw [List.take_add_one, hk]
    rfl
  have hmem : s.owner k = some t := by
    rw [hheld, htake]
    exact List.mem_append_right _ (List.mem_singleton.mpr rfl)
  have hnodup : k ∉ distinct.take i := by
    have hpair := (h.pairwise (t := t) (by rw [hp]; rfl)).sublist (List.take_sublist (i + 1) distinct)
    rw [htake, List.pairwise_append] at hpair
    exact fun hin => (hpair.2.2 k hin k (List.mem_singleton.mpr rfl)).ne rfl
  refine h.move (fun g' d hd => h.target t g' d (by rw [hp]; exact hd)) hi.le (fun j => ?_)
    fun j u hu => ?_
  · show _ ↔ j ∈ distinct.take i
    by_cases hjk : j = k
    · rw [hjk, Function.update_self]
      exact iff_of_false (fun h => by cases h) hnodup
    · rw [Function.update_of_ne hjk, hheld, htake, List.mem_append]
      exact or_iff_left fun hj => hjk (List.mem_singleton.mp hj)
  · by_cases hjk : j = k
    · rw [hjk, Function.update_self, hmem]
      exact iff_of_false (fun h => by cases h) (fun h => hu (Option.some.inj h).symm)
    · rw [Function.update_of_ne hjk]

omit [DecidableEq Thread] in
/-- Only phases, owners, graphs and the size matter. -/
theorem HostInv.congr (h : HostInv s) (hphase : s'.phase = s.phase) (howner : s'.owner = s.owner)
    (hgraphs : s'.graphs = s.graphs) (hsize : s'.size = s.size) : HostInv s' := by
  refine ⟨fun t g distinct => ?_, fun t => ?_, fun k t => ?_⟩
  · rw [hphase, hgraphs, hsize]
    exact h.target t g distinct
  · rw [hphase]
    exact h.inRange t
  · rw [hphase, howner]
    exact h.owner k t

omit [DecidableEq Thread] in
theorem submitCommand_host (q g : ℕ) (c : Command) :
    (s.submitCommand q g c).phase = s.phase ∧ (s.submitCommand q g c).owner = s.owner ∧
      (s.submitCommand q g c).graphs = s.graphs ∧ (s.submitCommand q g c).size = s.size := by
  cases c with
  | wait f => exact ⟨rfl, rfl, rfl, rfl⟩
  | run k => exact ⟨rfl, rfl, rfl, rfl⟩
  | record f =>
    rw [submitCommand]
    split <;> exact ⟨rfl, rfl, rfl, rfl⟩

theorem HostInv.hostStep (h : HostInv s) {t : Thread} (hstep : HostStep t s s') : HostInv s' := by
  cases hstep with
  | lock hp hk hfree => exact h.lock hp hk hfree
  | locked hp =>
    refine h.setPhase (fun g d hd => by rw [hp]; exact hd) trivial ?_
    rw [hp]
    exact (List.take_length).symm
  | @issue g stage offset distinct c command hp hg hs hc =>
    obtain ⟨hphase, howner, hgraphs, hsize⟩ := submitCommand_host (s := s) (c.queues stage) g command
    have hsame := h.congr hphase howner hgraphs hsize
    refine hsame.setPhase (fun g d hd => ?_) trivial ?_
    · rw [hphase, hp]
      exact hd
    · rw [hphase, hp]
      rfl
  | nextStage hp hg hs ho =>
    exact h.setPhase (fun g d hd => by rw [hp]; exact hd) trivial (by rw [hp]; rfl)
  | @submitted g stage offset distinct c hp hg hs =>
    refine h.setPhase (fun g d hd => by rw [hp]; exact hd) le_rfl ?_
    rw [hp]
    exact List.take_length
  | unlock hp hk => exact h.unlock hp hk
  | unlocked hp =>
    refine h.setPhase (fun g d hd => by cases hd) trivial ?_
    rw [hp]
    rfl
  | publish hp =>
    refine h.setPhase (fun g d hd => by cases hd) trivial ?_
    rw [hp]
    rfl

theorem HostInv.step (hpool : PoolInv s) (h : HostInv s) (hstep : Step s s') : HostInv s' := by
  cases hstep with
  | addQueues count hs =>
    -- no graph is connected yet
    refine ⟨fun t g distinct ht => ?_, h.inRange, h.owner⟩
    obtain ⟨c, hg, -⟩ := h.target t g distinct ht
    have hne : s.graphs ≠ [] := fun hnil => by
      rw [hnil] at hg
      cases hg
    rw [hpool.started hne] at hs
    cases hs
  | connect graph =>
    refine ⟨fun t g distinct ht => ?_, h.inRange, h.owner⟩
    obtain ⟨c, hg, hd⟩ := h.target t g distinct ht
    exact ⟨c, getElem?_graphs_connect graph hg, hd⟩
  | @start t g c hp hg hcalled =>
    have hmove : HostInv { s.setPhase t
        (.locking g (lockOrder s.size c.base c.graph.sender.lanes) 0) with owner := s.owner } := by
      refine h.move ?_ (Nat.zero_le _) (fun k => ?_) fun _ _ _ => Iff.rfl
      · intro g' d hd
        obtain ⟨rfl, rfl⟩ := Prod.mk.inj (Option.some.inj hd)
        exact ⟨c, hg, rfl⟩
      · rw [h.owner k t, hp]
        exact iff_of_false List.not_mem_nil List.not_mem_nil
    exact hmove.congr rfl rfl rfl rfl
  | host hstep => exact h.hostStep hstep
  | execute hq hx => exact h.congr rfl rfl rfl rfl

/-! ## Events -/

/-- What holds of the items in the queues. -/
structure ItemsInv (s : PoolState Thread) : Prop where
  ticket_lt : ∀ q, ∀ x ∈ s.items q, x.ticket < s.ticket
  fifo : ∀ q, (s.items q).Pairwise fun x y => x.ticket < y.ticket
  recorded_lt : ∀ g f τ, s.recordedAt g f = some τ → τ < s.ticket
  /-- A recorded event is complete, or its record is still queued. -/
  recorded : ∀ g f τ, s.recordedAt g f = some τ → s.complete g f = true ∨
    ∃ q, ∃ x ∈ s.items q, x.ticket = τ ∧ x.graph = g ∧ x.command = .record f
  records : ∀ q, ∀ x ∈ s.items q, ∀ f, x.command = .record f →
    s.recordedAt x.graph f = some x.ticket
  /-- A wait is enqueued after the record of its event. -/
  waits : ∀ q, ∀ x ∈ s.items q, ∀ f, x.command = .wait f →
    ∃ τ < x.ticket, s.recordedAt x.graph f = some τ

omit [DecidableEq Thread] in
theorem mem_items_enqueue {q g q' : ℕ} {c : Command} {x : QueueItem} :
    x ∈ (s.enqueue q g c).items q' ↔ x ∈ s.items q' ∨ q' = q ∧ x = ⟨s.ticket, g, c⟩ := by
  show x ∈ Function.update s.items q (s.items q ++ [⟨s.ticket, g, c⟩]) q' ↔ _
  by_cases hq : q' = q
  · subst hq
    rw [Function.update_self, List.mem_append, List.mem_singleton]
    exact or_congr_right (and_iff_right rfl).symm
  · rw [Function.update_of_ne hq]
    exact (or_iff_left fun h => hq h.1).symm

omit [DecidableEq Thread] in
/-- One more item.  If it is a record, its event gets the item's ticket. -/
theorem ItemsInv.enqueue (h : ItemsInv s) {q g : ℕ} {c : Command} {rec : ℕ → ℕ → Option ℕ}
    (hold : ∀ g' f τ, s.recordedAt g' f = some τ → rec g' f = some τ)
    (hnew : ∀ g' f τ, rec g' f = some τ →
      s.recordedAt g' f = some τ ∨ τ = s.ticket ∧ g' = g ∧ c = .record f)
    (hrecord : ∀ f, c = .record f → rec g f = some s.ticket)
    (hwait : ∀ f, c = .wait f → ∃ τ < s.ticket, s.recordedAt g f = some τ) :
    ItemsInv { s.enqueue q g c with recordedAt := rec } := by
  have hlt : s.ticket < s.ticket + 1 := Nat.lt_succ_self _
  constructor
  · intro q' x hx
    rcases mem_items_enqueue.mp hx with hx | ⟨-, rfl⟩
    · exact (h.ticket_lt q' x hx).trans hlt
    · exact hlt
  · intro q'
    show (Function.update s.items q (s.items q ++ [⟨s.ticket, g, c⟩]) q').Pairwise _
    by_cases hq : q' = q
    · subst hq
      rw [Function.update_self, List.pairwise_append]
      refine ⟨h.fifo q', List.pairwise_singleton _ _, fun x hx y hy => ?_⟩
      rw [List.mem_singleton.mp hy]
      exact h.ticket_lt q' x hx
    · rw [Function.update_of_ne hq]
      exact h.fifo q'
  · intro g' f τ hτ
    rcases hnew g' f τ hτ with hτ | ⟨rfl, -⟩
    · exact (h.recorded_lt g' f τ hτ).trans hlt
    · exact hlt
  · intro g' f τ hτ
    rcases hnew g' f τ hτ with hτ | ⟨rfl, rfl, hc⟩
    · refine (h.recorded g' f τ hτ).imp_right fun ⟨q', x, hx, hprops⟩ => ?_
      exact ⟨q', x, mem_items_enqueue.mpr (Or.inl hx), hprops⟩
    · exact Or.inr ⟨q, ⟨s.ticket, g', c⟩, mem_items_enqueue.mpr (Or.inr ⟨rfl, rfl⟩), rfl, rfl, hc⟩
  · intro q' x hx f hc
    rcases mem_items_enqueue.mp hx with hx | ⟨-, rfl⟩
    · exact hold _ _ _ (h.records q' x hx f hc)
    · exact hrecord f hc
  · intro q' x hx f hc
    rcases mem_items_enqueue.mp hx with hx | ⟨-, rfl⟩
    · obtain ⟨τ, hτ, hrec⟩ := h.waits q' x hx f hc
      exact ⟨τ, hτ, hold _ _ _ hrec⟩
    · obtain ⟨τ, hτ, hrec⟩ := hwait f hc
      exact ⟨τ, hτ, hold _ _ _ hrec⟩

omit [DecidableEq Thread] in
theorem ItemsInv.submitCommand (h : ItemsInv s) {q g : ℕ} {c : Command}
    (hwait : ∀ f, c = .wait f → ∃ τ < s.ticket, s.recordedAt g f = some τ) :
    ItemsInv (s.submitCommand q g c) := by
  cases c with
  | wait f =>
    exact h.enqueue (fun _ _ _ h => h) (fun _ _ _ h => Or.inl h) (fun _ h => by cases h) hwait
  | run k =>
    exact h.enqueue (fun _ _ _ h => h) (fun _ _ _ h => Or.inl h) (fun _ h => by cases h) hwait
  | record f =>
    rw [PoolState.submitCommand]
    split
    · exact h
    · next hnone =>
      have hupd : ∀ g' f', Function.update s.recordedAt g
          (Function.update (s.recordedAt g) f (some s.ticket)) g' f' =
          if g' = g ∧ f' = f then some s.ticket else s.recordedAt g' f' := by
        intro g' f'
        by_cases hg : g' = g
        · subst hg
          rw [Function.update_self]
          by_cases hf : f' = f
          · rw [hf, Function.update_self, if_pos ⟨rfl, rfl⟩]
          · rw [Function.update_of_ne hf, if_neg fun h => hf h.2]
        · rw [Function.update_of_ne hg, if_neg fun h => hg h.1]
      refine h.enqueue (fun g' f' τ hτ => ?_) (fun g' f' τ hτ => ?_) (fun f' hf => ?_) hwait
      · rw [hupd, if_neg, hτ]
        rintro ⟨rfl, rfl⟩
        rw [hτ] at hnone
        exact hnone rfl
      · rw [hupd] at hτ
        split at hτ
        · next heq =>
          obtain ⟨rfl, rfl⟩ := heq
          exact Or.inr ⟨(Option.some.inj hτ).symm, rfl, rfl⟩
        · exact Or.inl hτ
      · obtain rfl := Command.record.inj hf
        rw [hupd, if_pos ⟨rfl, rfl⟩]

omit [DecidableEq Thread] in
theorem ItemsInv.execute (h : ItemsInv s) {q : ℕ} {x : QueueItem} {rest : List QueueItem}
    (hq : s.items q = x :: rest) : ItemsInv (s.execute q x rest) := by
  have hself : (s.execute q x rest).items q = rest := Function.update_self _ _ _
  have hother : ∀ q', q' ≠ q → (s.execute q x rest).items q' = s.items q' :=
    fun q' h => Function.update_of_ne h _ _
  have hsub : ∀ {q' y}, y ∈ (s.execute q x rest).items q' → y ∈ s.items q' := fun {q' y} hy => by
    by_cases hqq : q' = q
    · rw [hqq, hself] at hy
      rw [hqq, hq]
      exact List.mem_cons_of_mem x hy
    · rwa [hother q' hqq] at hy
  have hcomplete : ∀ g f, s.complete g f = true →
      (s.execute q x rest).complete g f = true := fun g f hg => by
    cases hc : x.command with
    | wait f' => simpa only [PoolState.execute, hc] using hg
    | run k => simpa only [PoolState.execute, hc] using hg
    | record f' =>
      simp only [PoolState.execute, hc]
      by_cases hgx : g = x.graph
      · subst hgx
        rw [Function.update_self]
        by_cases hf : f = f'
        · rw [hf, Function.update_self]
        · rwa [Function.update_of_ne hf]
      · rwa [Function.update_of_ne hgx]
  constructor
  · exact fun q' y hy => h.ticket_lt q' y (hsub hy)
  · intro q'
    by_cases hqq : q' = q
    · have hfifo := h.fifo q
      rw [hq] at hfifo
      rw [hqq, hself]
      exact hfifo.of_cons
    · rw [hother q' hqq]
      exact h.fifo q'
  · exact h.recorded_lt
  · intro g f τ hτ
    rcases h.recorded g f τ hτ with hdone | ⟨q', y, hy, hticket, hg, hf⟩
    · exact Or.inl (hcomplete g f hdone)
    · by_cases hkeep : y ∈ (s.execute q x rest).items q'
      · exact Or.inr ⟨q', y, hkeep, hticket, hg, hf⟩
      · -- the record is the item that was executed
        have hqq : q' = q := by
          by_contra hne
          exact hkeep (by rwa [hother q' hne])
        have hyx : y = x := by
          rw [hqq, hq] at hy
          refine (List.mem_cons.mp hy).resolve_right fun hin => hkeep ?_
          rwa [hqq, hself]
        subst hyx
        left
        simp only [PoolState.execute, hf, hg, Function.update_self]
  · exact fun q' y hy => h.records q' y (hsub hy)
  · exact fun q' y hy => h.waits q' y (hsub hy)

/-- What a thread has done when it comes to command `offset` of stage `stage` of graph `g`: the
fences it has passed are recorded. -/
structure Submitted (recordedAt : ℕ → ℕ → Option ℕ) (g stage offset : ℕ) (c : ConnectedGraph) :
    Prop where
  stage_le : stage ≤ c.operation.stageCount
  offset_le : stage < c.operation.stageCount →
    offset ≤ (c.operation.stageCommands stage).length
  recorded : ∀ f o, c.operation.command f o = some (.record f) →
    (f < stage ∨ f = stage ∧ o < offset) → (recordedAt g f).isSome

def IssuedInv (s : PoolState Thread) : Prop :=
  ∀ t g distinct stage offset c, s.phase t = .submitting g distinct stage offset →
    s.graphs[g]? = some c → Submitted s.recordedAt g stage offset c

omit [DecidableEq Thread] in
theorem isSome_recordedAt_submitCommand {q g g' f : ℕ} {c : Command}
    (h : (s.recordedAt g' f).isSome) : ((s.submitCommand q g c).recordedAt g' f).isSome := by
  cases c with
  | wait f' => exact h
  | run k => exact h
  | record f' =>
    rw [submitCommand]
    split
    · exact h
    · show (Function.update s.recordedAt g _ g' f).isSome
      by_cases hg : g' = g
      · rw [hg, Function.update_self]
        by_cases hf : f = f'
        · rw [hf, Function.update_self]
          rfl
        · rw [Function.update_of_ne hf, ← hg]
          exact h
      · rwa [Function.update_of_ne hg]

omit [DecidableEq Thread] in
theorem isSome_recordedAt_record {q g f : ℕ} :
    ((s.submitCommand q g (.record f)).recordedAt g f).isSome := by
  rw [submitCommand]
  split
  · next h => exact h
  · show (Function.update s.recordedAt g _ g f).isSome
    rw [Function.update_self, Function.update_self]
    rfl

omit [DecidableEq Thread] in
/-- **A wait comes after the record of its event.** -/
theorem IssuedInv.wait (h : IssuedInv s) (hitems : ItemsInv s) {t : Thread}
    {g stage offset : ℕ} {distinct : List ℕ} {c : ConnectedGraph} {f : ℕ}
    (hp : s.phase t = .submitting g distinct stage offset) (hg : s.graphs[g]? = some c)
    (hc : c.operation.command stage offset = some (.wait f)) :
    ∃ τ < s.ticket, s.recordedAt g f = some τ := by
  rcases mem_stageCommands.mp (mem_of_command hc) with ⟨j, hij, hq, hj, hwait⟩ | ⟨k, -, h⟩ | ⟨-, h⟩
  · -- an edge between two queues names the fence that its source records itself
    have hfix := c.operation.fenceIndex_of_cross hij hq
    obtain rfl : f = j := (Command.wait.inj hwait).trans hfix
    obtain ⟨o, ho⟩ := exists_record hfix
    obtain ⟨τ, hτ⟩ := Option.isSome_iff_exists.mp
      ((h t g distinct stage offset c hp hg).recorded f o ho (Or.inl hj))
    exact ⟨τ, hitems.recorded_lt g f τ hτ, hτ⟩
  · cases h
  · cases h

theorem IssuedInv.setPhase (h : IssuedInv s) {t : Thread} {p : StartPhase}
    (hp : ∀ g distinct stage offset c, p = .submitting g distinct stage offset →
      s.graphs[g]? = some c → Submitted s.recordedAt g stage offset c) : IssuedInv (s.setPhase t p) := by
  intro u g distinct stage offset c hu hg
  by_cases hut : u = t
  · rw [hut, setPhase_phase_self] at hu
    exact hp g distinct stage offset c hu hg
  · rw [setPhase_phase_of_ne p hut] at hu
    exact h u g distinct stage offset c hu hg

omit [DecidableEq Thread] in
/-- One command further. -/
theorem Submitted.issue {g stage offset : ℕ} {c : ConnectedGraph} {command : Command}
    (h : Submitted s.recordedAt g stage offset c) (q : ℕ)
    (hc : c.operation.command stage offset = some command) :
    Submitted (s.submitCommand q g command).recordedAt g stage (offset + 1) c := by
  refine ⟨h.stage_le, fun _ => (List.getElem?_eq_some_iff.mp hc).1, fun f o hf hlt => ?_⟩
  by_cases hnow : f = stage ∧ o = offset
  · obtain ⟨rfl, rfl⟩ := hnow
    obtain rfl := Option.some.inj (hc.symm.trans hf)
    exact isSome_recordedAt_record
  · exact isSome_recordedAt_submitCommand (h.recorded f o hf (by omega))

omit [DecidableEq Thread] in
/-- All commands of a stage are issued. -/
theorem Submitted.nextStage {g stage offset : ℕ} {c : ConnectedGraph}
    (h : Submitted s.recordedAt g stage offset c) (hs : stage < c.operation.stageCount)
    (ho : offset = (c.operation.stageCommands stage).length) :
    Submitted s.recordedAt g (stage + 1) 0 c := by
  refine ⟨hs, fun _ => Nat.zero_le _, fun f o hf hlt => h.recorded f o hf ?_⟩
  have hlen : o < (c.operation.stageCommands f).length := (List.getElem?_eq_some_iff.mp hf).1
  rcases hlt with hlt | ⟨-, hlt⟩
  · rcases Nat.lt_or_eq_of_le (Nat.le_of_lt_succ hlt) with hlt | rfl
    · exact Or.inl hlt
    · exact Or.inr ⟨rfl, ho ▸ hlen⟩
  · exact absurd hlt (Nat.not_lt_zero o)

theorem IssuedInv.hostStep (h : IssuedInv s) {t : Thread} (hstep : HostStep t s s') :
    IssuedInv s' := by
  cases hstep with
  | lock hp hk hfree => exact h.setPhase (fun _ _ _ _ _ heq => by cases heq)
  | locked hp =>
    refine h.setPhase fun g d stage offset c heq _ => ?_
    obtain ⟨-, -, rfl, rfl⟩ := StartPhase.submitting.inj heq
    exact ⟨Nat.zero_le _, fun _ => Nat.zero_le _, fun f o _ hlt => by omega⟩
  | @issue g stage offset distinct c command hp hg hs hc =>
    obtain ⟨hphase, -, hgraphs, -⟩ := submitCommand_host (s := s) (c.queues stage) g command
    have hmono : IssuedInv (s.submitCommand (c.queues stage) g command) := by
      intro u g' d' stage' offset' c' hu hg'
      rw [hphase] at hu
      rw [hgraphs] at hg'
      have hsub := h u g' d' stage' offset' c' hu hg'
      exact ⟨hsub.stage_le, hsub.offset_le, fun f o hf hlt =>
        isSome_recordedAt_submitCommand (hsub.recorded f o hf hlt)⟩
    refine hmono.setPhase fun g' d' stage' offset' c' heq hg' => ?_
    obtain ⟨rfl, rfl, rfl, rfl⟩ := StartPhase.submitting.inj heq
    rw [hgraphs, hg, Option.some.injEq] at hg'
    subst hg'
    exact (h t g distinct stage offset c hp hg).issue _ hc
  | @nextStage g stage offset distinct c hp hg hs ho =>
    refine h.setPhase fun g' d' stage' offset' c' heq hg' => ?_
    obtain ⟨rfl, rfl, rfl, rfl⟩ := StartPhase.submitting.inj heq
    rw [hg, Option.some.injEq] at hg'
    subst hg'
    exact (h t g distinct stage offset c hp hg).nextStage hs ho
  | submitted hp hg hs => exact h.setPhase (fun _ _ _ _ _ heq => by cases heq)
  | unlock hp hk => exact h.setPhase (fun _ _ _ _ _ heq => by cases heq)
  | unlocked hp => exact h.setPhase (fun _ _ _ _ _ heq => by cases heq)
  | publish hp => exact h.setPhase (fun _ _ _ _ _ heq => by cases heq)

theorem IssuedInv.step (hhost : HostInv s) (h : IssuedInv s) (hstep : Step s s') :
    IssuedInv s' := by
  cases hstep with
  | addQueues count hs => exact h
  | connect graph =>
    intro t g d stage offset c hp hg
    obtain ⟨c', hc', -⟩ := hhost.target t g d (congrArg StartPhase.target hp)
    obtain rfl := Option.some.inj ((getElem?_graphs_connect graph hc').symm.trans hg)
    exact h t g d stage offset c' hp hc'
  | start hp hg hcalled => exact h.setPhase (fun _ _ _ _ _ heq => by cases heq)
  | host hstep => exact h.hostStep hstep
  | execute hq hx => exact h

theorem ItemsInv.step (hissued : IssuedInv s) (h : ItemsInv s) (hstep : Step s s') :
    ItemsInv s' := by
  cases hstep with
  | addQueues count hs => exact ⟨h.1, h.2, h.3, h.4, h.5, h.6⟩
  | connect graph => exact ⟨h.1, h.2, h.3, h.4, h.5, h.6⟩
  | start hp hg hcalled => exact ⟨h.1, h.2, h.3, h.4, h.5, h.6⟩
  | host hstep =>
    cases hstep with
    | @issue g stage offset distinct c command hp hg hs hc =>
      have hsub : ItemsInv (s.submitCommand (c.queues stage) g command) :=
        h.submitCommand fun f hf => hissued.wait h hp hg (hf ▸ hc)
      exact ⟨hsub.1, hsub.2, hsub.3, hsub.4, hsub.5, hsub.6⟩
    | _ => exact ⟨h.1, h.2, h.3, h.4, h.5, h.6⟩
  | execute hq hx => exact h.execute hq

/-! ## All runs -/

/-- The invariant of the pool. -/
structure Inv (s : PoolState Thread) : Prop where
  pool : PoolInv s
  host : HostInv s
  items : ItemsInv s
  issued : IssuedInv s

theorem Inv.step (h : Inv s) (hstep : Step s s') : Inv s' :=
  ⟨h.pool.step hstep, h.host.step h.pool hstep, h.items.step h.issued hstep,
    h.issued.step h.host hstep⟩

omit [DecidableEq Thread] in
theorem inv_initial (h : Initial s) : Inv s := by
  obtain ⟨queueCount, hpos, rfl⟩ := h
  refine ⟨⟨hpos, hpos, fun h => (h rfl).elim, fun c hc => (List.not_mem_nil hc).elim⟩,
    ⟨fun t g d ht => ?_, fun t => trivial, fun k t => ?_⟩,
    ⟨fun q x hx => (List.not_mem_nil hx).elim, fun q => List.Pairwise.nil,
      fun g f τ hτ => ?_, fun g f τ hτ => ?_, fun q x hx => (List.not_mem_nil hx).elim,
      fun q x hx => (List.not_mem_nil hx).elim⟩, fun t g d stage offset c ht => ?_⟩
  · cases ht
  · exact iff_of_false (fun h => by cases h) List.not_mem_nil
  · cases hτ
  · cases hτ
  · cases ht

theorem inv_of_reachable (h : (system Thread).Reachable s) : Inv s :=
  h.invariant (P := Inv) (fun _ hinit => inv_initial hinit) fun _ _ _ hinv hstep =>
    hinv.step hstep

/-! ## Threads -/

/-- The threads and mutexes of a state. -/
def lockState (s : PoolState Thread) : LockState Thread :=
  ⟨fun t => (s.phase t).waits, s.owner⟩

omit [DecidableEq Thread] in
/-- A thread waits for the next mutex of its order, and holds the ones before. -/
theorem HostInv.waits_eq (h : HostInv s) {t : Thread} {k : ℕ} (hk : (s.phase t).waits = some k) :
    ∃ g distinct i, s.phase t = .locking g distinct i ∧ distinct[i]? = some k ∧
      distinct.Pairwise (· < ·) := by
  cases hp : s.phase t with
  | locking g distinct i =>
    rw [hp] at hk
    exact ⟨g, distinct, i, rfl, hk, h.pairwise (t := t) (by rw [hp]; rfl)⟩
  | _ =>
    rw [hp] at hk
    cases hk

omit [DecidableEq Thread] in
/-- **Waiting threads hold only smaller mutexes.** -/
theorem HostInv.ordered (h : HostInv s) : s.lockState.Ordered := by
  intro t k hk j hj
  obtain ⟨g, distinct, i, hp, hget, hpair⟩ := h.waits_eq hk
  have hmem := (h.owner j t).mp hj
  rw [hp] at hmem
  obtain ⟨l, hl, rfl⟩ := List.mem_take_iff_getElem.mp hmem
  obtain ⟨hi, rfl⟩ := List.getElem?_eq_some_iff.mp hget
  exact List.pairwise_iff_getElem.mp hpair l i _ hi (lt_of_lt_of_le hl (min_le_left _ _))

omit [DecidableEq Thread] in
theorem HostInv.waits_lt (hpool : PoolInv s) (h : HostInv s) {t : Thread} {k : ℕ}
    (hk : s.lockState.waits t = some k) : k < s.size := by
  obtain ⟨g, distinct, i, hp, hget, -⟩ := h.waits_eq hk
  obtain ⟨c, -, rfl⟩ := h.target t g distinct (by rw [hp]; rfl)
  exact lt_of_mem_lockOrder hpool.size_pos (List.mem_of_getElem? hget)

/-- A thread inside `start` that is not blocked can act. -/
theorem HostInv.exists_hostStep (h : HostInv s) (hissued : IssuedInv s) {t : Thread} (ht : s.phase t ≠ .idle)
    (hfree : s.lockState.Unblocked t) : ∃ s', HostStep t s s' := by
  have hrange := h.inRange t
  cases hp : s.phase t with
  | idle => exact absurd hp ht
  | locking g distinct i =>
    rw [hp] at hrange
    rcases Nat.lt_or_eq_of_le hrange with hi | rfl
    · have hk := List.getElem?_eq_getElem hi
      refine ⟨_, .lock hp hk (hfree _ ?_)⟩
      show (s.phase t).waits = _
      rw [hp]
      exact hk
    · exact ⟨_, .locked hp⟩
  | submitting g distinct stage offset =>
    obtain ⟨c, hg, -⟩ := h.target t g distinct (by rw [hp]; rfl)
    have hsub := hissued t g distinct stage offset c hp hg
    rcases Nat.lt_or_eq_of_le hsub.stage_le with hs | hs
    · rcases Nat.lt_or_eq_of_le (hsub.offset_le hs) with ho | ho
      · exact ⟨_, .issue hp hg hs (List.getElem?_eq_getElem ho)⟩
      · exact ⟨_, .nextStage hp hg hs ho⟩
    · exact ⟨_, .submitted hp hg hs⟩
  | unlocking g distinct i =>
    rw [hp] at hrange
    cases i with
    | zero => exact ⟨_, .unlocked hp⟩
    | succ i => exact ⟨_, .unlock hp (List.getElem?_eq_getElem hrange)⟩
  | publishing g => exact ⟨_, .publish hp⟩

omit [DecidableEq Thread] in
/-- A thread that owns a mutex is inside `start`. -/
theorem HostInv.ne_idle_of_owner (h : HostInv s) {t : Thread} {k : ℕ} (hk : s.owner k = some t) :
    s.phase t ≠ .idle := by
  intro hp
  have hmem := (h.owner k t).mp hk
  rw [hp] at hmem
  exact List.not_mem_nil hmem

/-- **Some thread inside `start` can act**, as long as there is one. -/
theorem Inv.host_progress (h : Inv s) {t : Thread} (ht : s.phase t ≠ .idle) :
    ∃ u s', s.phase u ≠ .idle ∧ HostStep u s s' := by
  obtain ⟨u, htu, hu⟩ := h.host.ordered.exists_unblocked (n := s.size)
    (fun t k hk => HostInv.waits_lt h.pool h.host hk) t
  have hidle : s.phase u ≠ .idle := by
    rcases htu.cases_tail with rfl | ⟨v, -, k, -, howner⟩
    · exact ht
    · exact h.host.ne_idle_of_owner howner
  obtain ⟨s', hstep⟩ := h.host.exists_hostStep h.issued hidle hu
  exact ⟨u, s', hidle, hstep⟩

/-! ## Queues -/

/-- Item `x` cannot execute before item `y`: it is behind `y` in a queue, or it waits for the event
that `y` records. -/
def WaitsForItem (s : PoolState Thread) (x y : QueueItem) : Prop :=
  (∃ q front, front ++ [y] <+: s.items q ∧ x ∈ (s.items q).drop (front.length + 1)) ∨
    ∃ q q' f, x ∈ s.items q ∧ y ∈ s.items q' ∧ x.command = .wait f ∧ y.graph = x.graph ∧
      y.command = .record f

omit [DecidableEq Thread] in
theorem ItemsInv.lt_of_waitsForItem (h : ItemsInv s) {x y : QueueItem}
    (hxy : s.WaitsForItem x y) : y.ticket < x.ticket := by
  rcases hxy with ⟨q, front, ⟨rest, hq⟩, hx⟩ | ⟨q, q', f, hx, hy, hwait, hgraph, hrecord⟩
  · have hfifo := h.fifo q
    have hdrop : (s.items q).drop (front.length + 1) = rest := by
      rw [← hq, List.drop_append_of_le_length (by simp), List.drop_of_length_le (by simp),
        List.nil_append]
    rw [← hq, List.pairwise_append] at hfifo
    exact hfifo.2.2 y (List.mem_append_right _ (List.mem_singleton.mpr rfl)) x (hdrop ▸ hx)
  · obtain ⟨τ, hτ, hrec⟩ := h.waits q x hx f hwait
    have hy' := h.records q' y hy f hrecord
    rw [hgraph, hrec, Option.some.injEq] at hy'
    rwa [← hy']

omit [DecidableEq Thread] in
/-- **Waits never form a cycle.** -/
theorem ItemsInv.not_circular (h : ItemsInv s) (x : QueueItem) :
    ¬ Relation.TransGen s.WaitsForItem x x := by
  intro hcycle
  have hlt := transGen_le_of_trans (s := fun x y : QueueItem => y.ticket < x.ticket)
    (fun _ _ h' => h.lt_of_waitsForItem h') (fun _ _ _ h₁ h₂ => h₂.trans h₁) hcycle
  exact lt_irrefl _ hlt

omit [DecidableEq Thread] in
/-- **The oldest item can execute.** -/
theorem ItemsInv.exists_enabled (h : ItemsInv s) {q : ℕ} (hq : s.items q ≠ []) :
    ∃ q x rest, s.items q = x :: rest ∧ s.Enabled x := by
  -- the smallest ticket in any queue
  have hexists : ∃ τ, ∃ q, ∃ x ∈ s.items q, x.ticket = τ := by
    obtain ⟨x, hx⟩ := List.exists_mem_of_ne_nil _ hq
    exact ⟨x.ticket, q, x, hx, rfl⟩
  classical
  obtain ⟨q, x, hx, hticket⟩ := Nat.find_spec hexists
  have hmin : ∀ q' y, y ∈ s.items q' → x.ticket ≤ y.ticket := fun q' y hy => by
    rw [hticket]
    exact Nat.find_min' hexists ⟨q', y, hy, rfl⟩
  cases hitems : s.items q with
  | nil =>
    rw [hitems] at hx
    exact absurd hx List.not_mem_nil
  | cons y rest =>
    have hxy : x = y := by
      have hfifo := h.fifo q
      rw [hitems] at hx hfifo
      refine (List.mem_cons.mp hx).resolve_right fun hrest => ?_
      have hlt := (List.pairwise_cons.mp hfifo).1 x hrest
      exact absurd (hmin q y (hitems ▸ List.mem_cons_self)) (Nat.not_le.mpr hlt)
    subst hxy
    refine ⟨q, x, rest, hitems, fun f hf => ?_⟩
    obtain ⟨τ, hτ, hrec⟩ := h.waits q x (hitems ▸ List.mem_cons_self) f hf
    refine (h.recorded _ _ _ hrec).resolve_right ?_
    rintro ⟨q', y, hy, rfl, -⟩
    exact absurd (hmin q' y hy) (Nat.not_le.mpr hτ)

/-! ## No deadlock -/

/-- What holds in every state of a shared pool. -/
structure DeadlockFree (s : PoolState Thread) : Prop where
  /-- The base stays inside the ring. -/
  next_lt : s.next < s.size
  /-- The lanes of a graph are bound to as many queues as there are, and its stages to those of
  their lanes. -/
  bound : ∀ c ∈ s.graphs,
    ((Finset.range c.graph.sender.laneCount).image (physicalQueue s.size c.base)).card =
        min c.graph.sender.laneCount s.size ∧
      ∀ i, c.queues i = physicalQueue s.size c.base (c.graph.sender.laneAt i)
  /-- A thread holds each of its mutexes once, and only ones smaller than the one it waits for. -/
  held : ∀ t, (s.phase t).held.Nodup ∧ (∀ k, s.owner k = some t ↔ k ∈ (s.phase t).held) ∧
    ∀ k, (s.phase t).waits = some k → ∀ j, s.owner j = some t → j < k
  /-- While it submits, it holds exactly the mutexes of the queues of the graph's stages. -/
  locked : ∀ t g distinct stage offset, s.phase t = .submitting g distinct stage offset →
    ∃ c, s.graphs[g]? = some c ∧
      ∀ k, s.owner k = some t ↔ ∃ i < c.operation.stageCount, c.operation.queues i = k
  /-- It holds none when it publishes. -/
  released : ∀ t g, s.phase t = .publishing g → ∀ k, s.owner k ≠ some t
  /-- No threads wait for each other in a circle, -/
  not_circular : ∀ t, ¬ Relation.TransGen s.lockState.WaitsFor t t
  /-- and as long as a thread is inside `start`, such a thread can act. -/
  host_progress : ∀ t, s.phase t ≠ .idle → ∃ u s', s.phase u ≠ .idle ∧ HostStep u s s'
  /-- The event of a wait was recorded by an item enqueued earlier. -/
  recorded : ∀ q, ∀ x ∈ s.items q, ∀ f, x.command = .wait f →
    ∃ τ < x.ticket, s.recordedAt x.graph f = some τ
  /-- No items wait for each other in a circle, -/
  items_not_circular : ∀ x, ¬ Relation.TransGen s.WaitsForItem x x
  /-- and as long as an item is queued, the front of some queue is enabled. -/
  device_progress : (∃ q, s.items q ≠ []) → ∃ q x rest, s.items q = x :: rest ∧ s.Enabled x

omit [DecidableEq Thread] in
theorem HostInv.nodup_held (h : HostInv s) (t : Thread) : (s.phase t).held.Nodup := by
  have hnodup : ∀ g distinct, (s.phase t).target = some (g, distinct) → distinct.Nodup :=
    fun g distinct ht => (h.pairwise ht).imp fun hlt => hlt.ne
  cases hp : s.phase t with
  | idle => exact List.nodup_nil
  | locking g distinct i => exact (hnodup g distinct (by rw [hp]; rfl)).sublist (List.take_sublist _ _)
  | submitting g distinct stage offset => exact hnodup g distinct (by rw [hp]; rfl)
  | unlocking g distinct i =>
    exact (hnodup g distinct (by rw [hp]; rfl)).sublist (List.take_sublist _ _)
  | publishing g => exact List.nodup_nil

omit [DecidableEq Thread] in
/-- The locked mutexes are those of the stages' queues. -/
theorem Inv.locked (h : Inv s) {t : Thread} {g stage offset : ℕ} {distinct : List ℕ}
    (hp : s.phase t = .submitting g distinct stage offset) :
    ∃ c, s.graphs[g]? = some c ∧
      ∀ k, s.owner k = some t ↔ ∃ i < c.operation.stageCount, c.operation.queues i = k := by
  obtain ⟨c, hg, hd⟩ := h.host.target t g distinct (by rw [hp]; rfl)
  refine ⟨c, hg, fun k => ?_⟩
  have hbound := h.pool.bound c (List.mem_of_getElem? hg)
  have howner := h.host.owner k t
  rw [hp] at howner
  rw [howner, StartPhase.held, hd, mem_lockOrder]
  constructor
  · rintro ⟨lane, hlane, rfl⟩
    obtain ⟨i, hi, rfl⟩ := List.mem_iff_getElem.mp hlane
    refine ⟨i, by rw [c.graph.lanes_length] at hi; exact hi, ?_⟩
    show c.queues i = _
    rw [hbound, laneAt, List.getD_eq_getElem _ _ hi]
  · rintro ⟨i, hi, rfl⟩
    have hi' : i < c.graph.sender.lanes.length := by
      rw [c.graph.lanes_length]
      exact hi
    refine ⟨_, List.getElem_mem hi', ?_⟩
    show _ = c.queues i
    rw [hbound, laneAt, List.getD_eq_getElem _ _ hi']

/-- **A shared queue pool cannot deadlock**, in any run of any threads on any graphs. -/
theorem shared_queue_pool_deadlock_free (s : PoolState Thread)
    (h : (system Thread).Reachable s) : DeadlockFree s := by
  have hinv := inv_of_reachable h
  refine ⟨hinv.pool.next_lt, fun c hc => ⟨?_, hinv.pool.bound c hc⟩, fun t => ⟨?_, ?_, ?_⟩,
    fun t g d stage offset hp => hinv.locked hp, fun t g hp k hk => ?_,
    hinv.host.ordered.not_circular, fun t ht => hinv.host_progress ht, hinv.items.waits,
    hinv.items.not_circular, fun ⟨q, hq⟩ => hinv.items.exists_enabled hq⟩
  · exact card_physicalQueue hinv.pool.size_pos _
  · exact hinv.host.nodup_held t
  · exact fun k => hinv.host.owner k t
  · exact hinv.host.ordered t
  · have hmem := (hinv.host.owner k t).mp hk
    rw [hp] at hmem
    exact List.not_mem_nil hmem

theorem isTopological_two : SubmissionDependencies.IsTopological ⟨2, fun i j => decide (i = 1 ∧ j = 0)⟩ := by
  intro i j h
  simp only [decide_eq_true_eq] at h
  dsimp only
  omega

/-- Two stages on two lanes, the second after the first, for a ring of two queues. -/
def twoLaneSender : PoolSender where
  sender := ⟨[1, 1], [0, 1], 2, ⟨2, fun i j => decide (i = 1 ∧ j = 0)⟩⟩
  lanes_length := rfl
  topological := isTopological_two

/-- A new pool of two queues. -/
def newPool : PoolState Unit :=
  ⟨2, 0, false, [], fun _ => false, fun _ => .idle, fun _ => none, fun _ => [],
    fun _ _ => none, fun _ _ => false, 0⟩

/-- The graph is connected, and a thread has locked the first of its two queues. -/
def halfLocked : PoolState Unit :=
  let s := { (newPool.connect twoLaneSender).setPhase ()
      (.locking 0 (lockOrder 2 0 twoLaneSender.sender.lanes) 0) with
    startCalled := Function.update (fun _ => false) 0 true }
  { s.setPhase () (.locking 0 (lockOrder 2 0 twoLaneSender.sender.lanes) 1) with
    owner := Function.update s.owner 0 (some ()) }

theorem reachable_halfLocked : (system Unit).Reachable halfLocked := by
  have h0 : (system Unit).Reachable newPool := .init ⟨2, by decide, rfl⟩
  have h1 := h0.step (Step.connect twoLaneSender)
  have h2 := h1.step (Step.start (t := ()) (g := 0) rfl rfl rfl)
  exact h2.step (Step.host (HostStep.lock (t := ()) (k := 0) rfl (by decide) rfl))

theorem shared_queue_pool_deadlock_free_halfLocked :
    halfLocked.owner 0 = some () ∧ (halfLocked.phase ()).waits = some 1 ∧
      DeadlockFree halfLocked :=
  ⟨rfl, by decide, shared_queue_pool_deadlock_free halfLocked reachable_halfLocked⟩

end PoolState

end Caravan
end Spearhed
