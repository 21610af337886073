import Spearhed.Mpi.Context

/-!
# Managed collectives start in reservation order

Of all the steps of a context only a few touch the lane of a given communicator, and each of them
is one lane operation (`Step.laneMove`).  Hence the ledger describes the lane in every reachable
state (`recorded_of_reachable`), and the order in which collectives start can be read off the
ledger: it is the reservation order of the committed tickets.

Two ranks are two contexts.  They agree on what a ticket stands for and on which tickets are
skipped; nothing is said about when either happens.
-/

namespace Spearhed
namespace Mpi

open Library Context

variable {α R S : Type}

namespace Ledger

/-- A decided fate is final: no operation on reserved tickets changes it. -/
theorem update_final (H : Ledger α) (g : ℕ → Fate α → Fate α)
    (hg : ∀ k f, f ≠ Fate.reserved → g k f = f) {k : ℕ} {f : Fate α}
    (hf : H.tickets[k]? = some f) (hne : f ≠ Fate.reserved) :
    (H.update g hg).tickets[k]? = some f := by
  rw [update, List.getElem?_mapIdx, hf, Option.map_some, hg k f hne]

theorem reserve_final (H : Ledger α) {k : ℕ} {f : Fate α} (hf : H.tickets[k]? = some f) :
    H.reserve.tickets[k]? = some f := by
  rw [reserve, List.getElem?_append_left (List.getElem?_eq_some_iff.mp hf).1, hf]

/-- Only a committed ticket has a start function. -/
theorem entry_start_eq_some {f : Fate α} {start : α} :
    f.entry.start = some start ↔ f = Fate.committed start := by
  cases f <;> simp [Fate.entry, Entry.fresh]

theorem mem_started {H : Ledger α} {k : ℕ} {start : α} :
    (k, start) ∈ H.started ↔
      k < H.retired ∧ H.tickets[k]? = some (Fate.committed start) := by
  simp only [started, List.mem_filterMap, List.mem_range, Option.bind_eq_some_iff,
    Option.map_eq_some_iff, entry_start_eq_some, Prod.mk.injEq]
  constructor
  · rintro ⟨j, hj, f, hf, start', rfl, rfl, rfl⟩
    exact ⟨hj, hf⟩
  · rintro ⟨hk, hf⟩
    exact ⟨k, hk, _, hf, start, rfl, rfl, rfl⟩

theorem pairwise_started (H : Ledger α) : H.started.Pairwise fun a b => a.1 < b.1 := by
  rw [started, List.pairwise_filterMap]
  refine List.Pairwise.imp ?_ List.pairwise_lt_range
  intro j k hjk a ha b hb
  simp only [Option.bind_eq_some_iff, Option.map_eq_some_iff] at ha hb
  obtain ⟨-, -, -, -, rfl⟩ := ha
  obtain ⟨-, -, -, -, rfl⟩ := hb
  exact hjk

/-- Ledgers that agree on the retired tickets of the shorter one start the same functions, as far
as the shorter one goes. -/
theorem started_prefix {H K : Ledger α} (hle : H.retired ≤ K.retired)
    (h : ∀ k, k < H.retired → H.tickets[k]? = K.tickets[k]?) : H.started <+: K.started := by
  obtain ⟨d, hd⟩ := Nat.exists_eq_add_of_le hle
  have hcongr : H.started = (List.range H.retired).filterMap fun k =>
      (K.tickets[k]?).bind fun f => f.entry.start.map fun start => (k, start) := by
    refine List.filterMap_congr fun k hk => ?_
    rw [h k (List.mem_range.mp hk)]
  rw [hcongr, started, hd, List.range_add, List.filterMap_append]
  exact List.prefix_append _ _

/-- Same skipped tickets and same functions make the retired parts equal. -/
theorem tickets_eq_of_agree {H K : Ledger α} (hle : H.retired ≤ K.retired)
    (hskip : ∀ k, k < H.retired → k < K.retired →
      (H.tickets[k]? = some Fate.skipped ↔ K.tickets[k]? = some Fate.skipped))
    (hstart : ∀ (k : ℕ) (f g : α), H.tickets[k]? = some (Fate.committed f) →
      K.tickets[k]? = some (Fate.committed g) → f = g) {k : ℕ} (hk : k < H.retired) :
    H.tickets[k]? = K.tickets[k]? := by
  have hk' : k < K.retired := by omega
  obtain ⟨f, hf, hfne⟩ := H.settled k hk
  obtain ⟨g, hg, hgne⟩ := K.settled k hk'
  have hiff := hskip k hk hk'
  cases f with
  | reserved => exact absurd rfl hfne
  | skipped => rw [hf, hiff.mp hf]
  | committed f =>
    cases g with
    | reserved => exact absurd rfl hgne
    | skipped =>
      rw [hiff.mpr hg] at hf
      cases hf
    | committed g => rw [hf, hg, hstart k f g hf hg]

end Ledger

/-! ## One step, seen from one lane -/

/-- What a step may do to communicator `c`. -/
inductive LaneMove (s t : Context α R S) (c : ℕ) : Prop
  | stay (hl : t.lanes c = s.lanes c) (hh : t.ledger c = s.ledger c)
      (hs : t.started c = s.started c)
  | reserve (hl : t.lanes c = (s.lanes c).reserve.1) (hh : t.ledger c = (s.ledger c).reserve)
      (hs : t.started c = s.started c)
  | commit (k : ℕ) (f : α) (hok : ((s.lanes c).commit k f).1 = Except.ok ())
      (hl : t.lanes c = ((s.lanes c).commit k f).2)
      (hh : t.ledger c = (s.ledger c).settle k (Fate.committed f))
      (hs : t.started c = s.started c)
  | commitThrows (k : ℕ) (f : α) (e : String) (he : ((s.lanes c).commit k f).1 = Except.error e)
      (hl : t.lanes c = ((s.lanes c).commit k f).2) (hh : t.ledger c = s.ledger c)
      (hs : t.started c = s.started c)
  | skip (k : ℕ) (hl : t.lanes c = (s.lanes c).skip k)
      (hh : t.ledger c = (s.ledger c).settle k Fate.skipped) (hs : t.started c = s.started c)
  | skipReserved (hl : t.lanes c = (s.lanes c).skipReserved)
      (hh : t.ledger c = (s.ledger c).settleAll) (hs : t.started c = s.started c)
  | popReady (start : Option α) (hl : (s.lanes c).popReady = some (start, t.lanes c))
      (hh : t.ledger c = (s.ledger c).retire)
      (hs : t.started c =
        s.started c ++ (start.map fun f => ((s.lanes c).firstSequence, f)).toList)

theorem Context.retireIn_stay (s : Context α R S) (g i : ℕ) (status : S) (next : Pc α R S)
    (c : ℕ) : LaneMove s (s.retireIn g i status next) c := by
  rw [retireIn]
  split
  · exact LaneMove.stay rfl rfl rfl
  · dsimp only
    split
    · exact LaneMove.stay rfl rfl rfl
    · exact LaneMove.stay rfl rfl rfl

/-- **A step is at most one operation of a lane.** -/
theorem Step.laneMove [Inhabited S] {s t : Context α R S} (h : Step s t) (c : ℕ) :
    LaneMove s t c := by
  cases h with
  | @reserve c' ha =>
    rcases eq_or_ne c c' with rfl | hne
    · exact LaneMove.reserve (by simp [reserveManagedCollective])
        (by simp [reserveManagedCollective]) rfl
    · exact LaneMove.stay (by simp [reserveManagedCollective, hne])
        (by simp [reserveManagedCollective, hne]) rfl
  | @release c' k f =>
    rw [releaseManagedCollective]
    split
    · rcases hcommit : (s.lanes c').commit k f with ⟨e | u, L⟩
      · rcases eq_or_ne c c' with rfl | hne
        · exact LaneMove.commitThrows k f e (by rw [hcommit]) (by simp [hcommit]) rfl rfl
        · exact LaneMove.stay (by simp [hne]) rfl rfl
      · rcases eq_or_ne c c' with rfl | hne
        · exact LaneMove.commit k f (by rw [hcommit]) (by simp [hcommit]) (by simp) rfl
        · exact LaneMove.stay (by simp [hne]) (by simp [hne]) rfl
    · exact LaneMove.stay rfl rfl rfl
  | @abandon c' k =>
    rw [abandonManagedCollective]
    split
    · rcases eq_or_ne c c' with rfl | hne
      · exact LaneMove.skip k (by simp) (by simp) rfl
      · exact LaneMove.stay (by simp [hne]) (by simp [hne]) rfl
    · exact LaneMove.stay rfl rfl rfl
  | shutdown =>
    by_cases hc : c ∈ s.communicators
    · exact LaneMove.skipReserved (by simp [requestShutdown, hc]) (by simp [requestShutdown, hc]) rfl
    · exact LaneMove.stay (by simp [requestShutdown, hc]) (by simp [requestShutdown, hc]) rfl
  | @popReady m c' start L hp hc hpop =>
    rcases eq_or_ne c c' with rfl | hne
    · exact LaneMove.popReady start (by simp [popManagedCollective, recordRetired, hpop])
        (by simp [popManagedCollective, recordRetired]) (by simp [popManagedCollective, recordRetired])
    · exact LaneMove.stay (by simp [popManagedCollective, recordRetired, hne])
        (by simp [popManagedCollective, recordRetired, hne])
        (by simp [popManagedCollective, recordRetired, hne])
  | trackNull hp => exact s.retireIn_stay _ _ _ _ c
  | retireActive hp hr ha => exact s.retireIn_stay _ _ _ _ c
  | _ => exact LaneMove.stay rfl rfl rfl

/-- The ledger and the log of communicator `c` describe its lane. -/
structure Recorded (s : Context α R S) (c : ℕ) : Prop where
  lane : s.lanes c = (s.ledger c).lane
  started : s.started c = (s.ledger c).started

theorem Ledger.started_update (H : Ledger α) (g : ℕ → Fate α → Fate α)
    (hg : ∀ k f, f ≠ Fate.reserved → g k f = f) : (H.update g hg).started = H.started := by
  refine List.filterMap_congr fun k hk => ?_
  obtain ⟨f, hf, hne⟩ := H.settled k (List.mem_range.mp hk)
  rw [H.update_final g hg hf hne, hf]

theorem Ledger.started_reserve (H : Ledger α) : H.reserve.started = H.started := by
  refine List.filterMap_congr fun k hk => ?_
  obtain ⟨f, hf, -⟩ := H.settled k (List.mem_range.mp hk)
  rw [H.reserve_final hf, hf]

theorem Recorded.laneMove {s t : Context α R S} {c : ℕ} (h : Recorded s c)
    (hm : LaneMove s t c) : Recorded t c := by
  obtain ⟨hlane, hstarted⟩ := h
  cases hm with
  | stay hl hh hs => exact ⟨by rw [hl, hh, hlane], by rw [hs, hh, hstarted]⟩
  | reserve hl hh hs =>
    exact ⟨by rw [hl, hh, hlane, Ledger.lane_reserve],
      by rw [hs, hh, hstarted, Ledger.started_reserve]⟩
  | commit k f hok hl hh hs =>
    have hk : (s.ledger c).tickets[k]? = some Fate.reserved := by
      by_contra hne
      rw [hlane, Ledger.lane_commit_of_ne _ f hne] at hok
      cases hok
    exact ⟨by rw [hl, hh, hlane, Ledger.lane_commit_of_reserved _ f hk],
      by rw [hs, hh, hstarted, Ledger.settle, Ledger.started_update]⟩
  | commitThrows k f e he hl hh hs =>
    have hk : (s.ledger c).tickets[k]? ≠ some Fate.reserved := by
      intro hk
      rw [hlane, Ledger.lane_commit_of_reserved _ f hk] at he
      cases he
    exact ⟨by rw [hl, hh, hlane, Ledger.lane_commit_of_ne _ f hk], by rw [hs, hh, hstarted]⟩
  | skip k hl hh hs =>
    exact ⟨by rw [hl, hh, hlane, Ledger.lane_skip],
      by rw [hs, hh, hstarted, Ledger.settle, Ledger.started_update]⟩
  | skipReserved hl hh hs =>
    exact ⟨by rw [hl, hh, hlane, Ledger.lane_skipReserved],
      by rw [hs, hh, hstarted, Ledger.settleAll, Ledger.started_update]⟩
  | popReady start hl hh hs =>
    rw [hlane] at hl
    obtain ⟨f, hf, hne, rfl, hL⟩ := Ledger.popReady_lane_eq_some _ hl
    refine ⟨by rw [hL, hh], ?_⟩
    rw [hs, hh, hstarted, Ledger.started_retire _ hf hne, hlane]
    rfl

theorem recorded_of_reachable [Inhabited S] {s : Context α R S}
    (h : (system α R S).Reachable s) (c : ℕ) : Recorded s c :=
  h.invariant (P := fun s => Recorded s c)
    (fun s hs => by rw [hs]; exact ⟨Ledger.lane_empty.symm, rfl⟩)
    fun _ _ _ hr hst => hr.laneMove (Step.laneMove hst c)

/-- A ticket keeps a decided fate in every step. -/
theorem LaneMove.final {s t : Context α R S} {c k : ℕ} {f : Fate α} (hm : LaneMove s t c)
    (hf : (s.ledger c).tickets[k]? = some f) (hne : f ≠ Fate.reserved) :
    (t.ledger c).tickets[k]? = some f := by
  cases hm with
  | stay hl hh hs => rw [hh, hf]
  | reserve hl hh hs => rw [hh, Ledger.reserve_final _ hf]
  | commit k f hok hl hh hs => rw [hh, Ledger.settle, Ledger.update_final _ _ _ hf hne]
  | commitThrows k f e he hl hh hs => rw [hh, hf]
  | skip k hl hh hs => rw [hh, Ledger.settle, Ledger.update_final _ _ _ hf hne]
  | skipReserved hl hh hs => rw [hh, Ledger.settleAll, Ledger.update_final _ _ _ hf hne]
  | popReady start hl hh hs => rw [hh, Ledger.retire_tickets, hf]

/-- When `commit` throws, and what it leaves then. -/
theorem Recorded.commit_throws_iff {s : Context α R S} {c k : ℕ} (h : Recorded s c) (f : α)
    (hk : k < (s.ledger c).tickets.length) :
    ((∃ e, ((s.lanes c).commit k f).1 = Except.error e) ↔
        k < (s.ledger c).retired ∨
        (∃ g, (s.ledger c).tickets[k]? = some (Fate.committed g)) ∨
        (s.ledger c).tickets[k]? = some Fate.skipped) ∧
      ((∃ e, ((s.lanes c).commit k f).1 = Except.error e) →
        ((s.lanes c).commit k f).2 = s.lanes c) := by
  rw [h.lane]
  by_cases hr : (s.ledger c).tickets[k]? = some Fate.reserved
  · have hret := Ledger.retired_le_of_reserved _ hr
    rw [Ledger.lane_commit_of_reserved _ f hr]
    simp only [reduceCtorEq, exists_false, false_iff, hr, Option.some.injEq, or_false, not_lt,
      false_imp_iff, and_true]
    exact hret
  · rw [Ledger.lane_commit_of_ne _ f hr]
    refine ⟨iff_of_true ⟨_, rfl⟩ (Or.inr ?_), fun _ => rfl⟩
    rcases hf : (s.ledger c).tickets[k]? with _ | f'
    · rw [List.getElem?_eq_none_iff] at hf
      omega
    · cases f' with
      | reserved => exact absurd hf hr
      | committed g => exact Or.inl ⟨g, rfl⟩
      | skipped => exact Or.inr rfl

/-- What `popReady` does with the first unretired ticket: a committed one hands out its function, a
skipped one retires without, and a reserved one stays, as does a lane without tickets. -/
structure Ledger.PopsFront (H : Ledger α) (L : ManagedCollectiveLane α) : Prop where
  committed : ∀ f, H.tickets[H.retired]? = some (Fate.committed f) →
    L.popReady = some (some f, ⟨H.retired + 1, (H.tickets.drop (H.retired + 1)).map Fate.entry⟩)
  skipped : H.tickets[H.retired]? = some Fate.skipped →
    L.popReady = some (none, ⟨H.retired + 1, (H.tickets.drop (H.retired + 1)).map Fate.entry⟩)
  reserved : H.tickets[H.retired]? = some Fate.reserved → L.popReady = none
  empty : H.tickets[H.retired]? = none → L.popReady = none

theorem Ledger.popsFront_lane (H : Ledger α) : H.PopsFront H.lane := by
  have hpop : ∀ f, H.tickets[H.retired]? = some f → f ≠ Fate.reserved → H.lane.popReady =
      some (f.entry.start, ⟨H.retired + 1, (H.tickets.drop (H.retired + 1)).map Fate.entry⟩) := by
    intro f hf hne
    rw [H.lane_popReady hf hne, lane, retire_tickets, H.retire_retired ⟨f, hf, hne⟩]
  have hnone : (∀ f, H.tickets[H.retired]? = some f → f = Fate.reserved) → H.lane.popReady = none := by
    intro hall
    rw [ManagedCollectiveLane.popReady, if_neg]
    intro hready
    obtain ⟨f, hf, hne⟩ := H.lane_ready.mp hready
    exact hne (hall f hf)
  refine ⟨fun f hf => hpop _ hf (by rintro ⟨⟩), fun hf => hpop _ hf (by rintro ⟨⟩), fun hf => hnone fun f hf' => ?_,
    fun hf => hnone fun f hf' => ?_⟩
  · exact Option.some.inj (hf'.symm.trans hf)
  · cases hf'.symm.trans hf

/-- **Managed collectives start in reservation order on every rank.**  In every state of every
run and on every communicator: tickets are numbered consecutively; the deque holds exactly the
unretired ones, in order from `firstSequence`; the functions handed out are those of the retired
committed tickets, once each and in increasing order; no retired ticket is undecided, so none
passed an earlier reserved one; no step changes a decided fate; `commit` throws exactly on
retired, committed and skipped tickets and then leaves the lane as it is; `popReady` takes the front
ticket exactly when it is decided.  Two ranks that agree on the functions and on the skipped tickets
hand out the same functions in the same order. -/
theorem collectives_start_in_reservation_order [Inhabited S] (s t : Context α R S)
    (hs : (system α R S).Reachable s) (ht : (system α R S).Reachable t) (c : ℕ) :
    (s.lanes c).reserve.2 = (s.ledger c).tickets.length ∧
      s.lanes c = ⟨(s.ledger c).retired,
        ((s.ledger c).tickets.drop (s.ledger c).retired).map Fate.entry⟩ ∧
      ((s.started c).Pairwise (fun a b => a.1 < b.1) ∧ ∀ k f, (k, f) ∈ s.started c ↔
        k < (s.ledger c).retired ∧ (s.ledger c).tickets[k]? = some (Fate.committed f)) ∧
      (∀ k, k < (s.ledger c).retired → (s.ledger c).tickets[k]? ≠ some Fate.reserved) ∧
      (∀ u, Step s u → ∀ (k : ℕ) (f : Fate α), (s.ledger c).tickets[k]? = some f →
        f ≠ Fate.reserved → (u.ledger c).tickets[k]? = some f) ∧
      (∀ k f, k < (s.ledger c).tickets.length →
        ((∃ e, ((s.lanes c).commit k f).1 = Except.error e) ↔
            k < (s.ledger c).retired ∨
            (∃ g, (s.ledger c).tickets[k]? = some (Fate.committed g)) ∨
            (s.ledger c).tickets[k]? = some Fate.skipped) ∧
          ((∃ e, ((s.lanes c).commit k f).1 = Except.error e) →
            ((s.lanes c).commit k f).2 = s.lanes c)) ∧
      (s.ledger c).PopsFront (s.lanes c) ∧
      ((∀ k, k < (s.ledger c).retired → k < (t.ledger c).retired →
          ((s.ledger c).tickets[k]? = some Fate.skipped ↔
            (t.ledger c).tickets[k]? = some Fate.skipped)) →
        (∀ (k : ℕ) (f g : α), (s.ledger c).tickets[k]? = some (Fate.committed f) →
          (t.ledger c).tickets[k]? = some (Fate.committed g) → f = g) →
        (s.ledger c).retired ≤ (t.ledger c).retired →
        s.started c <+: t.started c ∧
          ((s.ledger c).retired = (t.ledger c).retired → s.started c = t.started c)) := by
  have hrs := recorded_of_reachable hs c
  have hrt := recorded_of_reachable ht c
  refine ⟨by rw [hrs.lane, Ledger.lane_reserve], hrs.lane, ⟨?_, fun k f => ?_⟩, fun k hk hr => ?_,
    fun u hu k f hf hne => (hu.laneMove c).final hf hne, fun k f hk => hrs.commit_throws_iff f hk,
    by rw [hrs.lane]; exact (s.ledger c).popsFront_lane, fun hskip hstart hle => ?_⟩
  · rw [hrs.started]
    exact Ledger.pairwise_started _
  · rw [hrs.started]
    exact Ledger.mem_started
  · exact absurd (Ledger.retired_le_of_reserved _ hr) (not_le.mpr hk)
  · have heq : ∀ k, k < (s.ledger c).retired →
        (s.ledger c).tickets[k]? = (t.ledger c).tickets[k]? :=
      fun k hk => Ledger.tickets_eq_of_agree hle hskip hstart hk
    rw [hrs.started, hrt.started]
    refine ⟨Ledger.started_prefix hle heq, fun hretired => ?_⟩
    exact (Ledger.started_prefix hle heq).eq_of_length_le
      (Ledger.started_prefix hretired.ge fun k hk => (heq k (by omega)).symm).length_le

/-- A rank that reserves two tickets and commits the second one first. -/
theorem exists_reachable_committed_backwards :
    ∃ s : Context Bool Unit Unit, (system Bool Unit Unit).Reachable s ∧
      (s.ledger 0).retired = 2 ∧
      (s.ledger 0).tickets = [Fate.committed false, Fate.committed true] := by
  have h0 : (system Bool Unit Unit).Reachable Context.initial := StepSystem.Reachable.init rfl
  have h1 := (h0.step (Step.reserve (c := 0) rfl)).step (Step.reserve (c := 0) rfl)
  have h2 := h1.step (Step.release (c := 0) (k := 1) (f := true))
  have h3 := h2.step (Step.release (c := 0) (k := 0) (f := false))
  have h4 := (h3.step (Step.progress rfl rfl)).step (Step.queueDrained rfl (Or.inr rfl))
  have h5 := h4.step (Step.popReady (c := 0) rfl (by decide) rfl)
  have h6 := (h5.step (Step.started rfl)).step (Step.popReady (c := 0) rfl (by decide) rfl)
  exact ⟨_, h6, rfl, rfl⟩

/-- A rank that commits each of its two tickets right after reserving it. -/
theorem exists_reachable_committed_forwards :
    ∃ s : Context Bool Unit Unit, (system Bool Unit Unit).Reachable s ∧
      (s.ledger 0).retired = 2 ∧
      (s.ledger 0).tickets = [Fate.committed false, Fate.committed true] := by
  have h0 : (system Bool Unit Unit).Reachable Context.initial := StepSystem.Reachable.init rfl
  have h1 := (h0.step (Step.reserve (c := 0) rfl)).step (Step.release (c := 0) (k := 0) (f := false))
  have h2 := (h1.step (Step.reserve (c := 0) rfl)).step (Step.release (c := 0) (k := 1) (f := true))
  have h4 := (h2.step (Step.progress rfl rfl)).step (Step.queueDrained rfl (Or.inr rfl))
  have h5 := h4.step (Step.popReady (c := 0) rfl (by decide) rfl)
  have h6 := (h5.step (Step.started rfl)).step (Step.popReady (c := 0) rfl (by decide) rfl)
  exact ⟨_, h6, rfl, rfl⟩

/-- Both hand out the functions in the same order. -/
theorem collectives_start_in_reservation_order_two_ranks :
    ∃ s t : Context Bool Unit Unit, (system Bool Unit Unit).Reachable s ∧
      (system Bool Unit Unit).Reachable t ∧ (1, true) ∈ s.started 0 ∧
      s.started 0 = t.started 0 := by
  obtain ⟨s, hs, hsr, hst⟩ := exists_reachable_committed_backwards
  obtain ⟨t, ht, htr, htt⟩ := exists_reachable_committed_forwards
  have h := collectives_start_in_reservation_order s t hs ht 0
  refine ⟨s, t, hs, ht, (h.2.2.1.2 1 true).mpr ⟨by omega, by rw [hst]; rfl⟩, ?_⟩
  refine (h.2.2.2.2.2.2.2 (fun k _ _ => by rw [hst, htt]) (fun k f g hf hg => ?_) (by omega)).2
    (by omega)
  rw [hst] at hf
  rw [htt, hf] at hg
  simpa using hg

end Mpi
end Spearhed
