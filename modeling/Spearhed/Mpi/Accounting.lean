import Spearhed.Mpi.RequestTracking

/-!
# What `m_outstanding` counts

`m_outstanding` is incremented and decremented at six places on two threads.  The invariant `Inv`
says what it counts at every point of a run: queued commands, the command being executed, the
operation whose callback has run but whose `finishOperation` has not, the groups that still wait for
requests, and the entries of all lanes.  Next to the number it keeps the identities: every accepted
operation is in exactly one of these places or has had its callback.

`progress()` frees the communicators when the counter is zero and shutdown was requested.  Nothing
can be accepted from then on, so the emptiness that the zero stands for lasts.
-/

namespace Spearhed
namespace Mpi

open Library Context

variable {α R S : Type}

namespace Pc

/-- The command that was popped and has not started. -/
def executing : Pc α R S → List ℕ
  | execute command _ => [command.operation]
  | _ => []

/-- An operation whose `finishOperation` is still to come. -/
def finishing : Pc α R S → ℕ
  | finishOperation _ => 1
  | _ => 0

/-- The requests of group `g` that `trackNative` has still to register. -/
def batchLeft (g : ℕ) : Pc α R S → ℕ
  | trackNative g' _ batch _ => if g' = g then batch.length else 0
  | finishOperation next => next.batchLeft g
  | _ => 0

/-- The reported positions that the retire loop has still to handle. -/
def reported : Pc α R S → List ℕ
  | retire reported => reported.map Prod.fst
  | finishOperation next => next.reported
  | _ => []

/-- The owner is in the retire loop, where `m_requests` may hold null requests. -/
def retiring : Pc α R S → Bool
  | retire _ => true
  | finishOperation next => next.retiring
  | _ => false

/-- The owner is between the last check of `progress()` and its return. -/
def closing : Pc α R S → Bool
  | releaseCommunicators => true
  | setFinished => true
  | _ => false

/-- Nothing is under way at this position. -/
structure Quiet (pc : Pc α R S) : Prop where
  executing : pc.executing = []
  finishing : pc.finishing = 0
  batchLeft : ∀ g, pc.batchLeft g = 0
  reported : pc.reported = []
  retiring : pc.retiring = false

end Pc

namespace Context

/-- The native request groups that are not completed. -/
def openGroups (s : Context α R S) : List (NativeGroup S) :=
  s.groups.filter fun G => decide (G.remaining ≠ 0)

/-- The entries in all managed-collective lanes. -/
def laneEntries (s : Context α R S) : ℕ :=
  ∑ c ∈ s.communicators, (s.lanes c).entries.length

/-- The context is past the last check of `progress()`. -/
def Closed (s : Context α R S) : Prop :=
  s.pc.closing = true ∨ s.released = true ∨ s.finished = true

end Context

/-- The bookkeeping that holds in every state of a run. -/
structure Inv (s : Context α R S) : Prop where
  outstanding : s.outstanding = s.queue.length + s.pc.executing.length + s.pc.finishing +
    s.openGroups.length + s.laneEntries
  operations : (s.queue.map Command.operation ++ s.pc.executing ++
    s.openGroups.map NativeGroup.operation ++ s.called).Perm (List.range s.accepted)
  aligned : s.requests.length = s.active.length
  reported : s.pc.reported.Nodup
  nonnull : s.pc.retiring = false → ∀ r ∈ s.requests, r ≠ none
  remaining : ∀ (g : ℕ) (G : NativeGroup S), s.groups[g]? = some G →
    G.remaining = (liveCount s.requests s.active s.pc.reported g + s.pc.batchLeft g : ℕ)
  registered : ∀ a ∈ s.active, a.1 < s.groups.length
  tracked : ∀ g, s.pc.batchLeft g ≠ 0 → g < s.groups.length
  plain : ∀ next, s.pc = Pc.finishOperation next → next.executing = [] ∧ next.finishing = 0 ∧
    next.closing = false
  lanes : ∀ c, c ∉ s.communicators → (s.lanes c).entries = []
  stopping : s.stopping = true → s.accepting = false
  closed : s.Closed → s.stopping = true ∧ s.outstanding = 0 ∧
    (s.pc.closing = true ∨ s.pc = Pc.idle)
  finished : s.released = true → s.finished = true ∨ s.pc = Pc.setFinished

theorem inv_initial : Inv (Context.initial : Context α R S) where
  outstanding := rfl
  operations := List.Perm.refl _
  aligned := rfl
  reported := List.nodup_nil
  nonnull := by
    intro _ r hr
    cases hr
  remaining := by
    intro g G hG
    cases hG
  registered := by
    intro a ha
    cases ha
  tracked := by
    intro g hg
    exact absurd rfl hg
  plain := by
    intro next h
    cases h
  lanes := fun _ _ => rfl
  stopping := by
    intro h
    cases h
  closed := by
    rintro (h | h | h) <;> cases h
  finished := by
    intro h
    cases h

/-! ## Steps that only move the owner -/

theorem Inv.not_closed {s : Context α R S} (h : Inv s) (hc : s.pc.closing = false)
    (hi : s.pc ≠ Pc.idle) : s.released = false ∧ s.finished = false := by
  constructor
  · by_contra hr
    rcases (h.closed (Or.inr (Or.inl (by simpa using hr)))).2.2 with hp | hp
    · rw [hc] at hp
      cases hp
    · exact hi hp
  · by_contra hf
    rcases (h.closed (Or.inr (Or.inr (by simpa using hf)))).2.2 with hp | hp
    · rw [hc] at hp
      cases hp
    · exact hi hp

/-- Moving between two positions at which nothing is under way. -/
theorem Inv.move {s : Context α R S} (h : Inv s) {pc : Pc α R S} (hq : s.pc.Quiet)
    (hq' : pc.Quiet) (hopen : s.released = false ∧ s.finished = false)
    (hclosing : pc.closing = true → s.stopping = true ∧ s.outstanding = 0) :
    Inv { s with pc := pc } := by
  refine { h with
    outstanding := ?_, operations := ?_, reported := ?_, nonnull := fun _ => h.nonnull hq.retiring
    remaining := fun g G hG => ?_, tracked := fun g hg => absurd (hq'.batchLeft g) hg
    plain := ?_, closed := ?_, finished := ?_ }
  · have := h.outstanding
    rw [hq.executing, hq.finishing] at this
    dsimp only
    rw [hq'.executing, hq'.finishing]
    exact this
  · have := h.operations
    rw [hq.executing] at this
    dsimp only
    rw [hq'.executing]
    exact this
  · dsimp only
    rw [hq'.reported]
    exact List.nodup_nil
  · have := h.remaining g G hG
    rw [hq.reported, hq.batchLeft] at this
    dsimp only
    rw [hq'.reported, hq'.batchLeft]
    exact this
  · rintro next rfl
    have := hq'.finishing
    cases this
  · rintro (hc | hr | hf)
    · exact ⟨(hclosing hc).1, (hclosing hc).2, Or.inl hc⟩
    · rw [hopen.1] at hr
      cases hr
    · rw [hopen.2] at hf
      cases hf
  · intro hr
    rw [hopen.1] at hr
    cases hr

/-- The same, from a position inside `progress()`. -/
theorem Inv.moveFrom {s : Context α R S} (h : Inv s) {p pc : Pc α R S} (hp : s.pc = p)
    (hq : p.Quiet) (hc : p.closing = false) (hi : p ≠ Pc.idle) (hq' : pc.Quiet)
    (hclosing : pc.closing = true → s.stopping = true ∧ s.outstanding = 0) :
    Inv { s with pc := pc } := by
  subst hp
  exact h.move hq hq' (h.not_closed hc hi) hclosing

theorem not_closed_of_open {s : Context α R S} (hc : s.pc.closing = false)
    (hopen : s.released = false ∧ s.finished = false) : ¬ s.Closed := by
  rintro (h | h | h)
  · rw [hc] at h
    cases h
  · rw [hopen.1] at h
    cases h
  · rw [hopen.2] at h
    cases h

/-! ## Steps that change lanes -/

theorem ManagedCollectiveLane.length_store (L : ManagedCollectiveLane α) (k : ℕ) (e : Entry α) :
    (L.store k e).entries.length = L.entries.length :=
  List.length_set

theorem ManagedCollectiveLane.length_commit (L : ManagedCollectiveLane α) (k : ℕ) (f : α) :
    (L.commit k f).2.entries.length = L.entries.length := by
  rw [ManagedCollectiveLane.commit]
  split
  · rfl
  · split
    · rfl
    · exact L.length_store k _

theorem ManagedCollectiveLane.length_skip (L : ManagedCollectiveLane α) (k : ℕ) :
    (L.skip k).entries.length = L.entries.length := by
  rw [ManagedCollectiveLane.skip]
  split
  · rfl
  · split
    · exact L.length_store k _
    · rfl

theorem ManagedCollectiveLane.length_popReady {L L' : ManagedCollectiveLane α} {start : Option α}
    (h : L.popReady = some (start, L')) : L'.entries.length + 1 = L.entries.length := by
  rw [ManagedCollectiveLane.popReady] at h
  split at h
  · obtain ⟨e, he, heq⟩ := Option.map_eq_some_iff.mp h
    rw [Prod.mk.injEq] at heq
    rw [← heq.2, List.length_tail]
    have hpos : L.entries ≠ [] := by
      intro hnil
      rw [hnil] at he
      cases he
    have := List.length_pos_iff.mpr hpos
    omega
  · cases h

theorem sum_entries_update (C : Finset ℕ) (lanes : ℕ → ManagedCollectiveLane α) {c : ℕ}
    (hc : c ∈ C) (L : ManagedCollectiveLane α) :
    (∑ x ∈ C, (Function.update lanes c L x).entries.length) + (lanes c).entries.length =
      (∑ x ∈ C, (lanes x).entries.length) + L.entries.length := by
  rw [← Finset.add_sum_erase C _ hc,
    ← Finset.add_sum_erase C (fun x => (lanes x).entries.length) hc]
  have hrest : ∑ x ∈ C.erase c, (Function.update lanes c L x).entries.length =
      ∑ x ∈ C.erase c, (lanes x).entries.length := by
    refine Finset.sum_congr rfl fun x hx => ?_
    rw [Function.update_of_ne (Finset.ne_of_mem_erase hx)]
  rw [hrest, Function.update_self]
  omega

/-- A change of the lanes that the counter follows. -/
theorem Inv.withLanes {s : Context α R S} (h : Inv s) {C : Finset ℕ}
    {lanes : ℕ → ManagedCollectiveLane α} {o : ℤ} {ledger : ℕ → Ledger α}
    {started : ℕ → List (ℕ × α)}
    (ho : o + s.laneEntries = s.outstanding + (∑ c ∈ C, (lanes c).entries.length : ℕ))
    (hl : ∀ c, c ∉ C → (lanes c).entries = []) (hclosed : s.Closed → o = 0) :
    Inv { s with
      communicators := C, lanes := lanes, outstanding := o, ledger := ledger,
      started := started } := by
  refine { h with outstanding := ?_, lanes := hl, closed := fun hc => ?_ }
  · have := h.outstanding
    change o = s.queue.length + s.pc.executing.length + s.pc.finishing + s.openGroups.length +
      (∑ c ∈ C, (lanes c).entries.length : ℕ)
    omega
  · obtain ⟨h1, -, h3⟩ := h.closed hc
    exact ⟨h1, hclosed hc, h3⟩

/-- A change of one lane that keeps its length. -/
theorem Inv.withLane {s : Context α R S} (h : Inv s) {c : ℕ} (hc : c ∈ s.communicators)
    {L : ManagedCollectiveLane α} (hL : L.entries.length = (s.lanes c).entries.length)
    {ledger : ℕ → Ledger α} :
    Inv { s with lanes := Function.update s.lanes c L, ledger := ledger } := by
  refine h.withLanes (C := s.communicators) (o := s.outstanding) ?_ (fun c' hc' => ?_)
    fun hcl => (h.closed hcl).2.1
  · have := sum_entries_update s.communicators s.lanes hc L
    rw [hL] at this
    rw [laneEntries]
    omega
  · have hne : c' ≠ c := by
      rintro rfl
      exact hc' hc
    rw [Function.update_of_ne hne]
    exact h.lanes c' hc'

theorem Inv.reserve {s : Context α R S} (h : Inv s) (ha : s.accepting = true) (c : ℕ) :
    Inv (s.reserveManagedCollective c) := by
  refine h.withLanes ?_ (fun c' hc' => ?_) fun hcl => ?_
  · by_cases hc : c ∈ s.communicators
    · have := sum_entries_update s.communicators s.lanes hc (s.lanes c).reserve.1
      rw [Finset.insert_eq_of_mem hc, laneEntries]
      simp only [ManagedCollectiveLane.reserve, List.length_append, List.length_singleton] at this ⊢
      omega
    · -- `operator[]` default-constructs the lane
      have hrest : ∑ x ∈ s.communicators,
          (Function.update s.lanes c (s.lanes c).reserve.1 x).entries.length = s.laneEntries := by
        refine Finset.sum_congr rfl fun x hx => ?_
        have hne : x ≠ c := by
          rintro rfl
          exact hc hx
        rw [Function.update_of_ne hne]
      rw [Finset.sum_insert hc, hrest, Function.update_self]
      simp only [ManagedCollectiveLane.reserve, h.lanes c hc, List.nil_append,
        List.length_singleton]
      omega
  · rw [Finset.mem_insert, not_or] at hc'
    rw [Function.update_of_ne hc'.1]
    exact h.lanes c' hc'.2
  · have := h.stopping (h.closed hcl).1
    rw [ha] at this
    cases this

theorem Inv.release {s : Context α R S} (h : Inv s) (c k : ℕ) (f : α) :
    Inv (s.releaseManagedCollective c k f).2 := by
  rw [releaseManagedCollective]
  split
  · next hc =>
    have hlen := (s.lanes c).length_commit k f
    rcases hcommit : (s.lanes c).commit k f with ⟨e | u, L⟩
    · rw [hcommit] at hlen
      exact h.withLane hc hlen
    · rw [hcommit] at hlen
      exact h.withLane hc hlen
  · exact h

theorem Inv.abandon {s : Context α R S} (h : Inv s) (c k : ℕ) :
    Inv (s.abandonManagedCollective c k) := by
  rw [abandonManagedCollective]
  split
  · next hc => exact h.withLane hc ((s.lanes c).length_skip k)
  · exact h

theorem Inv.shutdown {s : Context α R S} (h : Inv s) : Inv s.requestShutdown := by
  have hentries : ∀ c ∈ s.communicators,
      (if c ∈ s.communicators then (s.lanes c).skipReserved else s.lanes c).entries.length =
        (s.lanes c).entries.length := by
    intro c hc
    rw [if_pos hc]
    exact List.length_map _
  have hlanes : Inv { s with
      lanes := fun c => if c ∈ s.communicators then (s.lanes c).skipReserved else s.lanes c
      ledger := fun c => if c ∈ s.communicators then (s.ledger c).settleAll else s.ledger c } := by
    refine h.withLanes (C := s.communicators) (o := s.outstanding) ?_ (fun c hc => ?_)
      fun hcl => (h.closed hcl).2.1
    · rw [Finset.sum_congr rfl hentries]
      rfl
    · rw [if_neg hc]
      exact h.lanes c hc
  exact { hlanes with
    stopping := fun _ => rfl
    closed := fun hc => ⟨rfl, (h.closed hc).2⟩ }

/-! ## Steps that move operations -/

theorem Inv.submit {s : Context α R S} (h : Inv s) (ha : s.accepting = true)
    (kind : CommandKind) : Inv (s.submit kind) := by
  refine { h with outstanding := ?_, operations := ?_, closed := fun hc => ?_ }
  · have := h.outstanding
    simp only [Context.submit, List.length_append, List.length_singleton]
    change s.outstanding + 1 = _ + _ + _ + (s.openGroups.length : ℤ) + s.laneEntries
    push_cast
    omega
  · have hperm : (s.accepted :: (s.queue.map Command.operation ++ s.pc.executing ++
        s.openGroups.map NativeGroup.operation ++ s.called)).Perm
        (s.accepted :: List.range s.accepted) := h.operations.cons _
    rw [Context.submit]
    dsimp only
    rw [List.range_succ, List.map_append, List.map_singleton]
    refine List.Perm.trans ?_ (hperm.trans (List.perm_append_singleton _ _).symm)
    simp only [List.append_assoc, List.singleton_append]
    exact List.perm_middle
  · have := h.stopping (h.closed hc).1
    rw [ha] at this
    cases this

theorem Inv.popCommand {s : Context α R S} (h : Inv s) {m : ℕ} {command : Command}
    {rest : List Command} (hp : s.pc = Pc.drainQueue (m + 1)) (hq : s.queue = command :: rest) :
    Inv { s with queue := rest, pc := Pc.execute command m } := by
  have hopen := h.not_closed (by rw [hp]; rfl) (by rw [hp]; exact nofun)
  have hcl : ¬ Context.Closed { s with queue := rest, pc := Pc.execute command m } :=
    not_closed_of_open rfl hopen
  obtain ⟨h1, h2, h3, h4, h5, h6, h7, h8, h9, h10, h11, h12, h13⟩ := h
  rw [hp, hq] at h1 h2
  rw [hp] at h4 h5 h6 h8
  refine ⟨?_, ?_, h3, h4, h5, h6, h7, h8, nofun, h10, h11, fun hc => absurd hc hcl, ?_⟩
  · simp only [Pc.executing, Pc.finishing, List.length_cons, List.length_nil] at h1 ⊢
    change s.outstanding = _ + _ + _ + (s.openGroups.length : ℤ) + s.laneEntries
    push_cast at h1 ⊢
    omega
  · refine List.Perm.trans ?_ h2
    simp only [Pc.executing, List.map_cons, List.append_assoc, List.cons_append, List.nil_append]
    exact List.perm_middle
  · intro hr
    rw [hopen.1] at hr
    cases hr

/-- The callback of an operation without requests. -/
theorem Inv.complete {s : Context α R S} (h : Inv s) {m op : ℕ} {kind : CommandKind}
    (hp : s.pc = Pc.execute ⟨op, kind⟩ m) : Inv (s.complete op (Pc.drainQueue m)) := by
  have hopen := h.not_closed (by rw [hp]; rfl) (by rw [hp]; exact nofun)
  have hcl : ¬ (s.complete op (Pc.drainQueue m)).Closed := not_closed_of_open rfl hopen
  obtain ⟨h1, h2, h3, h4, h5, h6, h7, h8, h9, h10, h11, h12, h13⟩ := h
  rw [hp] at h1 h2 h4 h5 h6 h8
  refine ⟨h1, ?_, h3, h4, h5, h6, h7, h8, ?_, h10, h11, fun hc => absurd hc hcl, ?_⟩
  · refine List.Perm.trans ?_ h2
    simp only [Context.complete, Pc.executing, List.append_assoc, List.nil_append]
    refine List.Perm.append_left _ ?_
    rw [← List.append_assoc]
    exact List.perm_append_comm
  · rintro next ⟨⟩
    exact ⟨rfl, rfl, rfl⟩
  · intro hr
    rw [Context.complete, hopen.1] at hr
    cases hr

theorem Inv.finishOperation {s : Context α R S} (h : Inv s) {next : Pc α R S}
    (hp : s.pc = Pc.finishOperation next) :
    Inv { s with outstanding := s.outstanding - 1, pc := next } := by
  obtain ⟨hexec, hfin, hclosing⟩ := h.plain next hp
  have hopen := h.not_closed (by rw [hp]; rfl) (by rw [hp]; exact nofun)
  have hcl : ¬ Context.Closed { s with outstanding := s.outstanding - 1, pc := next } :=
    not_closed_of_open hclosing hopen
  obtain ⟨h1, h2, h3, h4, h5, h6, h7, h8, h9, h10, h11, h12, h13⟩ := h
  rw [hp] at h1 h2 h4 h5 h6 h8
  refine ⟨?_, ?_, h3, h4, h5, h6, h7, h8, ?_, h10, h11, fun hc => absurd hc hcl, ?_⟩
  · dsimp only
    rw [hexec, hfin]
    simp only [Pc.executing, Pc.finishing, List.length_nil] at h1 ⊢
    change s.outstanding - 1 = _ + _ + _ + (s.openGroups.length : ℤ) + s.laneEntries
    push_cast at h1 ⊢
    omega
  · dsimp only
    rw [hexec]
    exact h2
  · rintro next' rfl
    cases hfin
  · intro hr
    rw [hopen.1] at hr
    cases hr

/-! ## Steps that move requests -/

theorem Inv.startNative [Inhabited S] {s : Context α R S} (h : Inv s) {m op : ℕ}
    {batch : List (Option R)} (hp : s.pc = Pc.execute ⟨op, CommandKind.submission⟩ m)
    (hb : batch ≠ []) :
    Inv { s with
      groups := s.groups ++ [⟨op, List.replicate batch.length default, batch.length⟩]
      pc := Pc.trackNative s.groups.length 0 batch m } := by
  have hopen := h.not_closed (by rw [hp]; rfl) (by rw [hp]; exact nofun)
  have hcl : ¬ Context.Closed { s with
      groups := s.groups ++ [⟨op, List.replicate batch.length default, batch.length⟩]
      pc := Pc.trackNative s.groups.length 0 batch m } := not_closed_of_open rfl hopen
  have hgroups : Context.openGroups { s with
      groups := s.groups ++ [⟨op, List.replicate batch.length default, batch.length⟩]
      pc := Pc.trackNative s.groups.length 0 batch m } =
      s.openGroups ++ [⟨op, List.replicate batch.length default, batch.length⟩] := by
    simp [openGroups, hb]
  obtain ⟨h1, h2, h3, h4, h5, h6, h7, h8, h9, h10, h11, h12, h13⟩ := h
  rw [hp] at h1 h2 h4 h5 h6 h8
  refine ⟨?_, ?_, h3, h4, h5, fun g G hG => ?_, fun a ha => ?_, fun g hg => ?_, nofun, h10, h11,
    fun hc => absurd hc hcl, ?_⟩
  · rw [hgroups]
    simp only [Pc.executing, Pc.finishing, List.length_cons, List.length_nil,
      List.length_append] at h1 ⊢
    change s.outstanding = _ + _ + _ + _ + (s.laneEntries : ℤ)
    push_cast at h1 ⊢
    omega
  · rw [hgroups]
    refine List.Perm.trans ?_ h2
    simp only [Pc.executing, List.map_append, List.map_cons, List.map_nil, List.append_assoc,
      List.nil_append, List.singleton_append]
    exact List.Perm.append_left _ List.perm_middle
  · rcases Nat.lt_or_ge g s.groups.length with hlt | hge
    · rw [List.getElem?_append_left hlt] at hG
      have := h6 g G hG
      simp only [Pc.batchLeft, Pc.reported] at this ⊢
      rw [if_neg (by omega)]
      exact this
    · -- the new group: all of its requests are still in the batch
      obtain rfl : g = s.groups.length := by
        have := (List.getElem?_eq_some_iff.mp hG).1
        rw [List.length_append, List.length_singleton] at this
        omega
      rw [List.getElem?_append_right le_rfl, Nat.sub_self, List.getElem?_cons_zero,
        Option.some.injEq] at hG
      have hnone : liveCount s.requests s.active [] s.groups.length = 0 := by
        rw [liveCount_of_nonnull s.active h3 (h5 rfl), List.countP_eq_zero]
        intro a ha
        have := h7 a ha
        simp only [decide_eq_true_eq]
        omega
      rw [← hG]
      simp only [Pc.batchLeft, Pc.reported, if_true, hnone, Nat.zero_add]
  · have := h7 a ha
    rw [List.length_append, List.length_singleton]
    omega
  · simp only [Pc.batchLeft] at hg
    split at hg
    · next hgg =>
      rw [List.length_append, List.length_singleton]
      omega
    · exact absurd rfl hg
  · intro hr
    rw [hopen.1] at hr
    cases hr

theorem Inv.trackActive {s : Context α R S} (h : Inv s) {g i m : ℕ} {r : R}
    {batch : List (Option R)} (hp : s.pc = Pc.trackNative g i (some r :: batch) m) :
    Inv { s with
      requests := s.requests ++ [some r]
      active := s.active ++ [(g, i)]
      pc := Pc.trackNative g (i + 1) batch m } := by
  have hopen := h.not_closed (by rw [hp]; rfl) (by rw [hp]; exact nofun)
  have hcl : ¬ Context.Closed { s with
      requests := s.requests ++ [some r]
      active := s.active ++ [(g, i)]
      pc := Pc.trackNative g (i + 1) batch m } := not_closed_of_open rfl hopen
  have hg : g < s.groups.length := h.tracked g (by simp [hp, Pc.batchLeft])
  obtain ⟨h1, h2, h3, h4, h5, h6, h7, h8, h9, h10, h11, h12, h13⟩ := h
  rw [hp] at h1 h2 h4 h5 h6 h8
  refine ⟨h1, h2, ?_, h4, fun _ r' hr' => ?_, fun g' G hG => ?_, fun a ha => ?_, fun g' hg' => ?_,
    nofun, h10, h11, fun hc => absurd hc hcl, ?_⟩
  · rw [List.length_append, List.length_append, h3]
    rfl
  · rcases List.mem_append.mp hr' with hr' | hr'
    · exact h5 rfl r' hr'
    · rw [List.mem_singleton.mp hr']
      exact Option.some_ne_none r
  · have := h6 g' G hG
    simp only [Pc.batchLeft, Pc.reported, List.length_cons] at this ⊢
    rw [liveCount_append _ _ h3, this]
    split <;> omega
  · rcases List.mem_append.mp ha with ha | ha
    · exact h7 a ha
    · rw [List.mem_singleton.mp ha]
      exact hg
  · simp only [Pc.batchLeft] at hg'
    split at hg'
    · next hgg => exact hgg ▸ hg
    · exact absurd rfl hg'
  · intro hr
    rw [hopen.1] at hr
    cases hr

/-- One position of a list replaced, as far as the open groups are concerned. -/
theorem openGroups_set {groups : List (NativeGroup S)} {g : ℕ} {G : NativeGroup S}
    (G' : NativeGroup S) (hG : groups[g]? = some G) (hne : G.remaining ≠ 0) :
    ∃ rest : List (NativeGroup S),
      (groups.filter fun G => decide (G.remaining ≠ 0)).Perm (G :: rest) ∧
      ((groups.set g G').filter fun G => decide (G.remaining ≠ 0)).Perm
        (if G'.remaining ≠ 0 then G' :: rest else rest) := by
  obtain ⟨hlt, rfl⟩ := List.getElem?_eq_some_iff.mp hG
  refine ⟨(groups.eraseIdx g).filter fun G => decide (G.remaining ≠ 0), ?_, ?_⟩
  · have hperm := (List.getElem_cons_eraseIdx_perm hlt).symm.filter
      fun G => decide (G.remaining ≠ 0)
    rwa [List.filter_cons, if_pos (by simpa using hne)] at hperm
  · have hperm := (List.set_perm_cons_eraseIdx hlt G').filter fun G => decide (G.remaining ≠ 0)
    rw [List.filter_cons] at hperm
    simpa using hperm

/-- Retiring one request of a group, from a position `pc` to a position `next` that has one
request of that group less to go. -/
theorem Inv.retireIn {s : Context α R S} (h : Inv s) {g i : ℕ} {status : S} {next : Pc α R S}
    (hexec : s.pc.executing = []) (hfin : s.pc.finishing = 0)
    (hopen : s.released = false ∧ s.finished = false)
    (hnexec : next.executing = []) (hnfin : next.finishing = 0) (hnclosing : next.closing = false)
    (hnplain : ∀ p, next ≠ Pc.finishOperation p)
    (hg : g < s.groups.length) (hnodup : next.reported.Nodup)
    (hnonnull : next.retiring = s.pc.retiring)
    (hcount : ∀ g', liveCount s.requests s.active s.pc.reported g' + s.pc.batchLeft g' =
      liveCount s.requests s.active next.reported g' + next.batchLeft g' +
        if g = g' then 1 else 0)
    (htracked : ∀ g', next.batchLeft g' ≠ 0 → g' < s.groups.length) :
    Inv (s.retireIn g i status next) := by
  obtain ⟨G, hG⟩ : ∃ G, s.groups[g]? = some G := ⟨_, List.getElem?_eq_getElem hg⟩
  have hrem := h.remaining g G hG
  have hpos := hcount g
  rw [if_pos rfl] at hpos
  obtain ⟨rest, hold, hnew⟩ := openGroups_set (G.retire i status) hG (by omega)
  have hremaining : ∀ (g' : ℕ) (G' : NativeGroup S),
      (s.groups.set g (G.retire i status))[g']? = some G' → G'.remaining =
        (liveCount s.requests s.active next.reported g' + next.batchLeft g' : ℕ) := by
    intro g' G' hG'
    have hc := hcount g'
    rcases eq_or_ne g g' with rfl | hne
    · rw [List.getElem?_set_self hg, Option.some.injEq] at hG'
      rw [← hG', NativeGroup.retire]
      dsimp only
      rw [if_pos rfl] at hc
      omega
    · rw [List.getElem?_set_ne hne] at hG'
      rw [if_neg hne] at hc
      have := h.remaining g' G' hG'
      omega
  have hlen := h.outstanding
  have hops := h.operations
  rw [hexec] at hlen hops
  rw [hfin, openGroups, hold.length_eq, List.length_cons, List.length_nil] at hlen
  rw [Context.retireIn, hG]
  dsimp only
  split
  · next hzero =>
    -- the last request: the callback runs and `finishOperation` is due
    rw [if_neg (not_not.mpr hzero)] at hnew
    have hgroups : Context.openGroups { s with
        groups := s.groups.set g (G.retire i status)
        called := s.called ++ [G.operation]
        pc := Pc.finishOperation next } =
        (s.groups.set g (G.retire i status)).filter fun G => decide (G.remaining ≠ 0) := rfl
    refine ⟨?_, ?_, h.aligned, hnodup, fun hr => h.nonnull (hnonnull ▸ hr), hremaining,
      fun a ha => ?_, fun g' hg' => ?_, ?_, h.lanes, h.stopping,
      fun hc => absurd hc (not_closed_of_open rfl hopen), fun hr => ?_⟩
    · rw [hgroups, hnew.length_eq]
      simp only [Pc.executing, Pc.finishing, List.length_nil]
      change s.outstanding = _ + _ + _ + _ + (s.laneEntries : ℤ)
      push_cast at hlen ⊢
      omega
    · rw [hgroups]
      refine List.Perm.trans ?_ hops
      have hmap := (hold.map NativeGroup.operation).symm
      have hmap' := hnew.map NativeGroup.operation
      simp only [Pc.executing, List.append_nil, List.append_assoc]
      refine List.Perm.append_left _ ?_
      refine ((hmap'.append_right _).trans ?_).trans (hmap.append_right _)
      rw [List.map_cons, List.cons_append, ← List.append_assoc]
      exact List.perm_append_singleton _ _
    · rw [List.length_set]
      exact h.registered a ha
    · rw [List.length_set]
      exact htracked g' hg'
    · rintro p ⟨⟩
      exact ⟨hnexec, hnfin, hnclosing⟩
    · rw [hopen.1] at hr
      cases hr
  · next hzero =>
    rw [if_pos hzero] at hnew
    have hgroups : Context.openGroups { s with
        groups := s.groups.set g (G.retire i status), pc := next } =
        (s.groups.set g (G.retire i status)).filter fun G => decide (G.remaining ≠ 0) := rfl
    refine ⟨?_, ?_, h.aligned, hnodup, fun hr => h.nonnull (hnonnull ▸ hr), hremaining,
      fun a ha => ?_, fun g' hg' => ?_, fun p hp => absurd hp (hnplain p), h.lanes, h.stopping,
      fun hc => absurd hc (not_closed_of_open hnclosing hopen), fun hr => ?_⟩
    · rw [hgroups, hnew.length_eq, hnexec, hnfin]
      change s.outstanding = _ + _ + _ + _ + (s.laneEntries : ℤ)
      simp only [List.length_cons, List.length_nil]
      push_cast at hlen ⊢
      omega
    · rw [hgroups, hnexec]
      refine List.Perm.trans ?_ hops
      have hmap := (hold.map NativeGroup.operation).symm
      have hmap' := hnew.map NativeGroup.operation
      exact ((hmap'.trans hmap).append_left _).append_right _
    · rw [List.length_set]
      exact h.registered a ha
    · rw [List.length_set]
      exact htracked g' hg'
    · rw [hopen.1] at hr
      cases hr

/-- A change of the reports that keeps what the groups wait for. -/
theorem Inv.withReports {s : Context α R S} (h : Inv s) {requests : List (Option R)}
    {active : List (ℕ × ℕ)} {pc : Pc α R S}
    (hopen : s.released = false ∧ s.finished = false) (hexec : s.pc.executing = [])
    (hfin : s.pc.finishing = 0) (hbatch : ∀ g, s.pc.batchLeft g = 0)
    (hexec' : pc.executing = []) (hfin' : pc.finishing = 0) (hbatch' : ∀ g, pc.batchLeft g = 0)
    (hclosing : pc.closing = false) (haligned : requests.length = active.length)
    (hnodup : pc.reported.Nodup) (hnonnull : pc.retiring = false → ∀ r ∈ requests, r ≠ none)
    (hcount : ∀ g, liveCount requests active pc.reported g =
      liveCount s.requests s.active s.pc.reported g)
    (hactive : ∀ a ∈ active, a ∈ s.active) :
    Inv { s with requests := requests, active := active, pc := pc } := by
  refine { h with
    outstanding := ?_, operations := ?_, aligned := haligned, reported := hnodup
    nonnull := hnonnull, remaining := fun g G hG => ?_
    registered := fun a ha => h.registered a (hactive a ha)
    tracked := fun g hg => absurd (hbatch' g) hg, plain := ?_
    closed := fun hc => absurd hc (not_closed_of_open hclosing hopen), finished := ?_ }
  · have := h.outstanding
    rw [hexec, hfin] at this
    dsimp only
    rw [hexec', hfin']
    exact this
  · have := h.operations
    rw [hexec] at this
    dsimp only
    rw [hexec']
    exact this
  · have := h.remaining g G hG
    rw [hbatch] at this
    dsimp only
    rw [hcount, hbatch', this]
  · rintro next rfl
    cases hfin'
  · intro hr
    rw [hopen.1] at hr
    cases hr

theorem Inv.popReady {s : Context α R S} (h : Inv s) {m c : ℕ} {start : Option α}
    {L : ManagedCollectiveLane α} (hp : s.pc = Pc.drainManagedCollectives (m + 1))
    (hc : c ∈ s.communicators) (hpop : (s.lanes c).popReady = some (start, L)) :
    Inv ((s.popManagedCollective c start L m).recordRetired c (s.lanes c).firstSequence start) := by
  have hopen := h.not_closed (by rw [hp]; rfl) (by rw [hp]; exact nofun)
  have hlen := ManagedCollectiveLane.length_popReady hpop
  have hsum := sum_entries_update s.communicators s.lanes hc L
  have hlanes : Inv { s with
      lanes := Function.update s.lanes c L
      outstanding := s.outstanding - 1
      ledger := Function.update s.ledger c (s.ledger c).retire
      started := Function.update s.started c
        (s.started c ++ (start.map fun f => ((s.lanes c).firstSequence, f)).toList) } := by
    refine h.withLanes (C := s.communicators) ?_ (fun c' hc' => ?_) fun hcl => ?_
    · rw [laneEntries]
      omega
    · have hne : c' ≠ c := by
        rintro rfl
        exact hc' hc
      rw [Function.update_of_ne hne]
      exact h.lanes c' hc'
    · exact absurd hcl (not_closed_of_open (by rw [hp]; rfl) hopen)
  have hquiet : s.pc.Quiet := by
    rw [hp]
    exact ⟨rfl, rfl, fun _ => rfl, rfl, rfl⟩
  rcases start with _ | f
  · exact hlanes.move hquiet ⟨rfl, rfl, fun _ => rfl, rfl, rfl⟩ hopen nofun
  · exact hlanes.move hquiet ⟨rfl, rfl, fun _ => rfl, rfl, rfl⟩ hopen nofun

/-- A null request counts as completed. -/
theorem Inv.trackNull [Inhabited S] {s : Context α R S} (h : Inv s) {g i m : ℕ} {batch : List (Option R)}
    (hp : s.pc = Pc.trackNative g i (none :: batch) m) :
    Inv (s.retireIn g i default (Pc.trackNative g (i + 1) batch m)) := by
  refine h.retireIn (by rw [hp]; rfl) (by rw [hp]; rfl)
    (h.not_closed (by rw [hp]; rfl) (by rw [hp]; exact nofun)) rfl rfl rfl nofun
    (h.tracked g (by simp [hp, Pc.batchLeft])) List.nodup_nil (by rw [hp]; rfl)
    (fun g' => ?_) (fun g' hg' => ?_)
  · rw [hp]
    simp only [Pc.batchLeft, Pc.reported, List.length_cons]
    split <;> omega
  · refine h.tracked g' ?_
    rw [hp]
    simp only [Pc.batchLeft, List.length_cons] at hg' ⊢
    split at hg'
    · next hgg => rw [if_pos hgg]; omega
    · exact absurd rfl hg'

/-- `MPI_Testsome` replaces requests that are done by null requests, and reports them. -/
theorem Inv.testSome {s : Context α R S} (h : Inv s) {reported : List (ℕ × S)} {done : List ℕ}
    (hp : s.pc = Pc.progressRequests) (hnodup : (reported.map Prod.fst).Nodup)
    (hdone : ∀ k ∈ done, k ∈ reported.map Prod.fst) :
    Inv { s with requests := nullAt s.requests done, pc := Pc.retire reported } := by
  refine h.withReports (h.not_closed (by rw [hp]; rfl) (by rw [hp]; exact nofun))
    (by rw [hp]; rfl) (by rw [hp]; rfl) (fun g => by rw [hp]; rfl) rfl rfl (fun _ => rfl) rfl ?_
    hnodup (fun hretiring => absurd hretiring.symm Bool.false_ne_true) (fun g => ?_) fun a ha => ha
  · rw [nullAt, List.length_mapIdx, h.aligned]
  · rw [hp]
    exact liveCount_nullAt s.active (h.nonnull (by rw [hp]; rfl)) hdone g

/-- A report for a request that is still active changes nothing. -/
theorem Inv.stillPending {s : Context α R S} (h : Inv s) {k : ℕ} {status : S} {reported : List (ℕ × S)} {r : R}
    (hp : s.pc = Pc.retire ((k, status) :: reported)) (hr : s.requests[k]? = some (some r)) :
    Inv { s with pc := Pc.retire reported } := by
  have hnodup := h.reported
  rw [hp] at hnodup
  refine h.withReports (h.not_closed (by rw [hp]; rfl) (by rw [hp]; exact nofun))
    (by rw [hp]; rfl) (by rw [hp]; rfl) (fun g => by rw [hp]; rfl) rfl rfl (fun _ => rfl) rfl
    h.aligned (List.nodup_cons.mp hnodup).2 (fun hretiring => absurd hretiring.symm Bool.false_ne_true)
    (fun g => ?_) fun a ha => ha
  rw [hp]
  exact liveCount_stillPending s.active hr _ g

/-- A reported request that is null is retired. -/
theorem Inv.retireActive {s : Context α R S} (h : Inv s) {k g i : ℕ} {status : S} {reported : List (ℕ × S)}
    (hp : s.pc = Pc.retire ((k, status) :: reported)) (hr : s.requests[k]? = some none)
    (ha : s.active[k]? = some (g, i)) : Inv (s.retireIn g i status (Pc.retire reported)) := by
  have hnodup := h.reported
  rw [hp] at hnodup
  obtain ⟨hnot, hrest⟩ := List.nodup_cons.mp hnodup
  refine h.retireIn (by rw [hp]; rfl) (by rw [hp]; rfl)
    (h.not_closed (by rw [hp]; rfl) (by rw [hp]; exact nofun)) rfl rfl rfl nofun
    (h.registered _ (List.mem_of_getElem? ha)) hrest (by rw [hp]; rfl) (fun g' => ?_)
    fun g' hg' => absurd rfl hg'
  rw [hp]
  exact liveCount_retire hr ha hnot g'

/-- Compaction drops what was retired. -/
theorem Inv.compact {s : Context α R S} (h : Inv s) (hp : s.pc = Pc.retire []) :
    Inv { s.compact with pc := Pc.checkFinished } := by
  have hcompact : Inv { s with
      requests := s.compact.requests, active := s.compact.active, pc := Pc.checkFinished } := by
    refine h.withReports (h.not_closed (by rw [hp]; rfl) (by rw [hp]; exact nofun))
      (by rw [hp]; rfl) (by rw [hp]; rfl) (fun g => by rw [hp]; rfl) rfl rfl (fun _ => rfl) rfl
      (length_compact h.aligned) List.nodup_nil
      (fun _ r hr => ne_none_of_mem_compact h.aligned hr) (fun g => ?_)
      fun a ha => mem_active_of_mem_compact h.aligned ha
    rw [hp]
    exact liveCount_compact h.aligned g
  exact hcompact

/-- **Every step keeps the bookkeeping.** -/
theorem Inv.step [Inhabited S] {s t : Context α R S} (h : Inv s) (hst : Step s t) : Inv t := by
  cases hst with
  | submit kind ha => exact h.submit ha kind
  | reserve ha => exact h.reserve ha _
  | release => exact h.release _ _ _
  | abandon => exact h.abandon _ _
  | shutdown => exact h.shutdown
  | progress hp hf =>
    have hquiet : s.pc.Quiet := by
      rw [hp]
      exact ⟨rfl, rfl, fun _ => rfl, rfl, rfl⟩
    have hr : s.released = false := by
      by_contra hr
      rcases h.finished (by simpa using hr) with hfin | hset
      · rw [hf] at hfin
        cases hfin
      · rw [hp] at hset
        cases hset
    exact h.move hquiet ⟨rfl, rfl, fun _ => rfl, rfl, rfl⟩ ⟨hr, hf⟩ nofun
  | queueDrained hp hm =>
    exact h.moveFrom hp ⟨rfl, rfl, fun _ => rfl, rfl, rfl⟩ rfl nofun
      ⟨rfl, rfl, fun _ => rfl, rfl, rfl⟩ nofun
  | popCommand hp hq => exact h.popCommand hp hq
  | invoke hp => exact h.complete hp
  | startEmpty hp => exact h.complete hp
  | startNative hp hb => exact h.startNative hp hb
  | trackNull hp => exact h.trackNull hp
  | trackActive hp => exact h.trackActive hp
  | tracked hp =>
    exact h.moveFrom hp ⟨rfl, rfl, fun g => by simp [Pc.batchLeft], rfl, rfl⟩ rfl nofun
      ⟨rfl, rfl, fun _ => rfl, rfl, rfl⟩ nofun
  | finishOperation hp => exact h.finishOperation hp
  | lanesDrained hp hm =>
    exact h.moveFrom hp ⟨rfl, rfl, fun _ => rfl, rfl, rfl⟩ rfl nofun
      ⟨rfl, rfl, fun _ => rfl, rfl, rfl⟩ nofun
  | popReady hp hc hpop => exact h.popReady hp hc hpop
  | started hp =>
    exact h.moveFrom hp ⟨rfl, rfl, fun _ => rfl, rfl, rfl⟩ rfl nofun
      ⟨rfl, rfl, fun _ => rfl, rfl, rfl⟩ nofun
  | noneCompleted hp =>
    exact h.moveFrom hp ⟨rfl, rfl, fun _ => rfl, rfl, rfl⟩ rfl nofun
      ⟨rfl, rfl, fun _ => rfl, rfl, rfl⟩ nofun
  | testSome hp hne hnodup hlt hdone => exact h.testSome hp hnodup hdone
  | stillPending hp hr => exact h.stillPending hp hr
  | retireActive hp hr ha => exact h.retireActive hp hr ha
  | compact hp => exact h.compact hp
  | proceed hp hs =>
    exact h.moveFrom hp ⟨rfl, rfl, fun _ => rfl, rfl, rfl⟩ rfl nofun
      ⟨rfl, rfl, fun _ => rfl, rfl, rfl⟩ nofun
  | drained hp hs ho =>
    exact h.moveFrom hp ⟨rfl, rfl, fun _ => rfl, rfl, rfl⟩ rfl nofun
      ⟨rfl, rfl, fun _ => rfl, rfl, rfl⟩ fun _ => ⟨hs, ho⟩
  | releaseCommunicators hp =>
    obtain ⟨hstop, hzero, -⟩ := h.closed (Or.inl (by rw [hp]; rfl))
    obtain ⟨h1, h2, h3, h4, h5, h6, h7, h8, h9, h10, h11, h12, h13⟩ := h
    rw [hp] at h1 h2 h4 h5 h6 h8
    exact ⟨h1, h2, h3, h4, h5, h6, h7, h8, nofun, h10, h11, fun _ => ⟨hstop, hzero, Or.inl rfl⟩,
      fun _ => Or.inr rfl⟩
  | setFinished hp =>
    obtain ⟨hstop, hzero, -⟩ := h.closed (Or.inl (by rw [hp]; rfl))
    obtain ⟨h1, h2, h3, h4, h5, h6, h7, h8, h9, h10, h11, h12, h13⟩ := h
    rw [hp] at h1 h2 h4 h5 h6 h8
    exact ⟨h1, h2, h3, h4, h5, h6, h7, h8, nofun, h10, h11, fun _ => ⟨hstop, hzero, Or.inr rfl⟩,
      fun _ => Or.inl rfl⟩

theorem inv_of_reachable [Inhabited S] {s : Context α R S} (h : (system α R S).Reachable s) :
    Inv s :=
  h.invariant (fun s hs => by rw [hs]; exact inv_initial) fun _ _ _ hinv hst => hinv.step hst

/-! ## What a zero stands for -/

/-- With no open group there is no request outside of the retire loop. -/
theorem Inv.requests_eq_nil {s : Context α R S} (h : Inv s) (hr : s.pc.retiring = false)
    (hg : s.openGroups = []) : s.requests = [] := by
  by_contra hne
  have hactive : s.active ≠ [] := by
    intro hnil
    have := h.aligned
    rw [hnil, List.length_nil, List.length_eq_zero_iff] at this
    exact hne this
  obtain ⟨a, ha⟩ := List.exists_mem_of_ne_nil _ hactive
  obtain ⟨G, hG⟩ : ∃ G, s.groups[a.1]? = some G :=
    ⟨_, List.getElem?_eq_getElem (h.registered a ha)⟩
  have hpos : 0 < s.active.countP fun b => decide (b.1 = a.1) :=
    List.countP_pos_iff.mpr ⟨a, ha, by simp⟩
  have hrem := h.remaining a.1 G hG
  rw [liveCount_of_nonnull s.active h.aligned (h.nonnull hr)] at hrem
  have hmem : G ∈ s.openGroups := by
    rw [openGroups, List.mem_filter]
    exact ⟨List.mem_of_getElem? hG, by simp only [decide_eq_true_eq]; omega⟩
  rw [hg] at hmem
  cases hmem

/-- **MPI context accounting.**  In every state of every run: `m_outstanding` is the number of
queued commands, commands being executed, operations whose `finishOperation` is still to run,
native request groups not yet completed, and entries of all lanes; it is never negative; and once
`progress()` has decided to free the communicators, the queue, `m_requests` and every lane are empty
and every accepted operation has had its callback invoked exactly once. -/
theorem outstanding_accounting [Inhabited S] (s : Context α R S)
    (h : (system α R S).Reachable s) :
    s.outstanding = s.queue.length + s.pc.executing.length + s.pc.finishing +
        s.openGroups.length + s.laneEntries ∧
      0 ≤ s.outstanding ∧
      (s.Closed → s.queue = [] ∧ s.requests = [] ∧ (∀ c, (s.lanes c).entries = []) ∧
        ∀ op, op < s.accepted → s.called.count op = 1) := by
  have hinv := inv_of_reachable h
  have hcount := hinv.outstanding
  refine ⟨hcount, by omega, fun hcl => ?_⟩
  obtain ⟨-, hzero, hpc⟩ := hinv.closed hcl
  have hqueue : s.queue = [] := List.length_eq_zero_iff.mp (by omega)
  have hgroups : s.openGroups = [] := List.length_eq_zero_iff.mp (by omega)
  have hexec : s.pc.executing = [] := List.length_eq_zero_iff.mp (by omega)
  have hretiring : s.pc.retiring = false := by
    cases hp : s.pc <;> simp_all [Pc.closing, Pc.retiring]
  refine ⟨hqueue, hinv.requests_eq_nil hretiring hgroups, fun c => ?_, fun op hop => ?_⟩
  · by_cases hc : c ∈ s.communicators
    · have hsum : s.laneEntries = 0 := by omega
      exact List.length_eq_zero_iff.mp (Finset.sum_eq_zero_iff.mp hsum c hc)
    · exact hinv.lanes c hc
  · have hops := hinv.operations
    rw [hqueue, hexec, hgroups] at hops
    rw [List.map_nil, List.map_nil, List.nil_append, List.nil_append, List.nil_append] at hops
    rw [hops.count_eq, List.count_eq_one_of_mem List.nodup_range (List.mem_range.mpr hop)]

/-- A run in which a request is tracked while a collective is reserved; the collective starts, the
request completes, shutdown is requested and the owner frees the communicators. -/
theorem exists_reachable_finished :
    ∃ s t : Context Unit Unit Unit, (system Unit Unit Unit).Reachable s ∧
      (system Unit Unit Unit).Reachable t ∧ s.pc = Pc.drainQueue 63 ∧ s.queue = [] ∧
      s.openGroups.length = 1 ∧ s.laneEntries = 1 ∧ t.finished = true ∧ t.accepted = 1 := by
  have h0 : (system Unit Unit Unit).Reachable Context.initial := StepSystem.Reachable.init rfl
  have h1 := (h0.step (Step.submit CommandKind.submission rfl)).step (Step.reserve (c := 0) rfl)
  have h2 := (h1.step (Step.progress rfl rfl)).step (Step.popCommand rfl rfl)
  have h3 := (h2.step (@Step.startNative _ _ _ _ _ _ _ [some ()] rfl nofun)).step (Step.trackActive rfl)
  have h4 := h3.step (Step.tracked rfl)
  -- the collective
  have h5 := (h4.step (Step.release (c := 0) (k := 0) (f := ()))).step
    (Step.queueDrained rfl (Or.inr rfl))
  have h6 := (h5.step (Step.popReady (c := 0) rfl (by decide) rfl)).step (Step.started rfl)
  have h7 := h6.step (Step.lanesDrained rfl (Or.inr (by decide)))
  -- the request
  have h8 := h7.step (@Step.testSome _ _ _ _ _ [(0, ())] [0] rfl nofun (by decide) (by decide)
    (by decide))
  have h9 := (h8.step (Step.retireActive rfl rfl rfl)).step (Step.finishOperation rfl)
  have h10 := ((h9.step (Step.compact rfl)).step Step.shutdown).step (Step.drained rfl rfl rfl)
  have h11 := (h10.step (Step.releaseCommunicators rfl)).step (Step.setFinished rfl)
  exact ⟨_, _, h4, h11, rfl, rfl, rfl, rfl, rfl, rfl⟩

/-- The request and the lane are outstanding first, and nothing is left at the end. -/
theorem outstanding_accounting_finished :
    ∃ s t : Context Unit Unit Unit, (system Unit Unit Unit).Reachable s ∧
      (system Unit Unit Unit).Reachable t ∧ s.openGroups.length = 1 ∧ s.laneEntries = 1 ∧
      s.outstanding = 2 ∧ t.finished = true ∧ t.queue = [] ∧ t.requests = [] ∧
      (∀ c, (t.lanes c).entries = []) ∧ t.called.count 0 = 1 := by
  obtain ⟨s, t, hs, ht, hpc, hqueue, hgroups, hlanes, hf, ha⟩ := exists_reachable_finished
  obtain ⟨houtstanding, -, -⟩ := outstanding_accounting s hs
  obtain ⟨hq, hrequests, hentries, hcalled⟩ := (outstanding_accounting t ht).2.2 (Or.inr (Or.inr hf))
  refine ⟨s, t, hs, ht, hgroups, hlanes, ?_, hf, hq, hrequests, hentries, hcalled 0 (by omega)⟩
  rw [houtstanding, hpc, hqueue, hgroups, hlanes]
  rfl

end Mpi
end Spearhed
