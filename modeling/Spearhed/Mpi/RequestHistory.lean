import Spearhed.Mpi.Accounting

/-!
# The history of native requests

`trackNative` registers the requests of a batch under a group and an index, and `progressRequests`
retires them by the positions that `MPI_Testsome` reports.  What a request was registered under is
not stored with the request; it is found at the same position of a second vector.  So the question is
whether the two vectors stay aligned while callbacks run and both are compacted.

The history next to a context records the registrations, the answers of MPI by request, and what
happened to the groups.  `System` runs the context with its history: the other threads do not touch
it, and every step of the owner adds what `History.record` says.

* `History.Inv.step`: the invariant, one case for each kind of step.
* `requests_stay_aligned`: what holds in every reachable state.
-/

namespace Spearhed
namespace Mpi

open Library Context

variable {α R S : Type}

/-- What happens to a group. -/
inductive GroupEvent (S : Type)
  | retired (group index : ℕ) (status : S)
  | completed (group : ℕ) (statuses : List S)

/-- The history of a context. -/
structure History (R S : Type) where
  /-- The active requests that were registered, with their group and index. -/
  registered : List (R × ℕ × ℕ)
  /-- The requests that `MPI_Testsome` completed, with their statuses. -/
  answers : List (R × S)
  events : List (GroupEvent S)

/-- The group and the index of a retired request. -/
def GroupEvent.key : GroupEvent S → Option (ℕ × ℕ)
  | retired group index _ => some (group, index)
  | completed _ _ => none

/-- The retired requests, null ones included, in order. -/
def retiredKeys (events : List (GroupEvent S)) : List (ℕ × ℕ) := events.filterMap GroupEvent.key

/-- What `NativeGroup::retire` does to a group. -/
def retireEvents (s : Context α R S) (group index : ℕ) (status : S) : List (GroupEvent S) :=
  match s.groups[group]? with
  | none => []
  | some G =>
    let G' := G.retire index status
    .retired group index status :: if G'.remaining = 0 then [.completed group G'.statuses] else []

/-- What a step of the owner from `s` to `t` adds. -/
def History.record [Inhabited S] (H : History R S) (s t : Context α R S) : History R S :=
  match s.pc, t.pc with
  | .trackNative g i (none :: _) _, _ => { H with events := H.events ++ retireEvents s g i default }
  | .trackNative g i (some r :: _) _, _ => { H with registered := H.registered ++ [(r, g, i)] }
  | .progressRequests, .retire reported =>
    { H with answers := H.answers ++ reported.filterMap fun a =>
        match s.requests[a.1]?, t.requests[a.1]? with
        | some (some r), some none => some (r, a.2)
        | _, _ => none }
  | .retire ((k, status) :: _), _ =>
    match s.requests[k]?, s.active[k]? with
    | some none, some (g, i) => { H with events := H.events ++ retireEvents s g i status }
    | _, _ => H
  | _, _ => H

/-- One step of a context with its history.  Only steps of the owner move its position. -/
inductive HistoryStep [Inhabited S] : Context α R S × History R S → Context α R S × History R S → Prop
  | other {s t : Context α R S} {H : History R S} (h : Step s t) (hpc : t.pc = s.pc) : HistoryStep (s, H) (t, H)
  | owner {s t : Context α R S} {H : History R S} (h : Step s t) (hpc : t.pc ≠ s.pc) :
      HistoryStep (s, H) (t, H.record s t)

/-- All runs of a context with its history. -/
def historySystem (α R S : Type) [Inhabited S] : StepSystem (Context α R S × History R S) where
  init := fun x => x = (Context.initial, ⟨[], [], []⟩)
  step := HistoryStep

/-! ## Which requests are where -/

namespace Pc

/-- The requests of the batch that `trackNative` has still to register or to retire. -/
def keysLeft : Pc α R S → List (ℕ × ℕ)
  | trackNative g i batch _ => (List.range' i batch.length).map fun j => (g, j)
  | finishOperation next => next.keysLeft
  | _ => []

/-- The reports that the retire loop has still to handle. -/
def reports : Pc α R S → List (ℕ × S)
  | retire reported => reported
  | finishOperation next => next.reports
  | _ => []

theorem reported_eq (pc : Pc α R S) : pc.reported = pc.reports.map Prod.fst := by
  induction pc with
  | retire reported => rfl
  | finishOperation next ih => exact ih
  | _ => rfl

end Pc

/-- The requests of all groups. -/
def groupKeys (groups : List (NativeGroup S)) : List (ℕ × ℕ) :=
  (List.range groups.length).flatMap fun g =>
    (List.range ((groups[g]?.map fun G => G.statuses.length).getD 0)).map fun i => (g, i)

/-- The registered requests that are not retired. -/
def liveKeys (requests : List (Option R)) (active : List (ℕ × ℕ)) (reported : List ℕ) : List (ℕ × ℕ) :=
  keptBelow (isLive requests reported) active active.length

section Keys

variable {groups : List (NativeGroup S)} {G : NativeGroup S} {g i : ℕ}

theorem mem_groupKeys : (g, i) ∈ groupKeys groups ↔ ∃ G, groups[g]? = some G ∧ i < G.statuses.length := by
  simp only [groupKeys, List.mem_flatMap, List.mem_range, List.mem_map, Prod.mk.injEq]
  constructor
  · rintro ⟨g', hg', i', hi', rfl, rfl⟩
    rw [List.getElem?_eq_getElem hg'] at hi' ⊢
    exact ⟨_, rfl, hi'⟩
  · rintro ⟨G, hG, hi⟩
    refine ⟨g, (List.getElem?_eq_some_iff.mp hG).1, i, ?_, rfl, rfl⟩
    rw [hG]
    exact hi

theorem nodup_groupKeys (groups : List (NativeGroup S)) : (groupKeys groups).Nodup := by
  rw [groupKeys, List.nodup_flatMap]
  refine ⟨fun g _ => List.nodup_range.map fun i j hij => (Prod.mk.inj hij).2, ?_⟩
  refine List.nodup_range.pairwise_of_forall_ne fun g _ g' _ hne => ?_
  intro key hkey hkey'
  obtain ⟨i, -, rfl⟩ := List.mem_map.mp hkey
  obtain ⟨j, -, hj⟩ := List.mem_map.mp hkey'
  exact hne (Prod.mk.inj hj).1.symm

theorem groupKeys_concat (groups : List (NativeGroup S)) (G : NativeGroup S) :
    groupKeys (groups ++ [G]) = groupKeys groups ++ (List.range G.statuses.length).map fun i => (groups.length, i) := by
  rw [groupKeys, List.length_append, List.length_singleton, List.range_succ, List.flatMap_append, List.flatMap_singleton]
  refine congrArg₂ _ (List.flatMap_congr fun g hg => ?_) ?_
  · rw [List.getElem?_append_left (List.mem_range.mp hg)]
  · rw [List.getElem?_append_right le_rfl]
    simp

/-- Retiring a request does not change how many the group has. -/
theorem groupKeys_set {G' : NativeGroup S} (hG : groups[g]? = some G) (hlen : G'.statuses.length = G.statuses.length) :
    groupKeys (groups.set g G') = groupKeys groups := by
  rw [groupKeys, groupKeys, List.length_set]
  refine List.flatMap_congr fun g' _ => ?_
  rcases eq_or_ne g g' with rfl | hne
  · rw [List.getElem?_set_self (List.getElem?_eq_some_iff.mp hG).1, hG, Option.map_some, Option.map_some, hlen]
  · rw [List.getElem?_set_ne hne]

/-- The requests a group waits for, as a count and as a list. -/
theorem liveCount_eq_countP {requests : List (Option R)} {active : List (ℕ × ℕ)} (h : requests.length = active.length)
    (reported : List ℕ) (g : ℕ) :
    liveCount requests active reported g = (liveKeys requests active reported).countP fun a => decide (a.1 = g) := by
  rw [liveKeys, countP_keptBelow, liveCount, h]
  rfl

theorem batchLeft_eq_countP (pc : Pc α R S) (g : ℕ) :
    pc.batchLeft g = pc.keysLeft.countP fun a => decide (a.1 = g) := by
  induction pc with
  | trackNative g' i batch m =>
    rw [Pc.batchLeft, Pc.keysLeft, List.countP_map]
    split
    · next hg =>
      have hall : ∀ j ∈ List.range' i batch.length, ((fun a : ℕ × ℕ => decide (a.1 = g)) ∘ fun j => (g', j)) j = true :=
        fun _ _ => decide_eq_true hg
      rw [List.countP_eq_length.mpr hall, List.length_range']
    · next hg =>
      exact (List.countP_eq_zero.mpr fun _ _ => by simpa using hg).symm
  | finishOperation next ih => exact ih
  | _ => rfl

end Keys

/-! ## What happened to the groups -/

/-- The events of the groups, where these requests are still to be retired. -/
structure EventsInv (groups : List (NativeGroup S)) (waiting : List (ℕ × ℕ)) (events : List (GroupEvent S)) : Prop where
  /-- Every request is waiting or retired, once. -/
  accounted : (waiting ++ retiredKeys events).Perm (groupKeys groups)
  /-- A status is stored at the index of its request. -/
  statuses : ∀ g i status, GroupEvent.retired g i status ∈ events →
    ∃ G, groups[g]? = some G ∧ G.statuses[i]? = some status
  /-- A group is completed once, after all of its requests were retired and with their statuses. -/
  completed : ∀ l₁ g sts l₂, events = l₁ ++ GroupEvent.completed g sts :: l₂ →
    (∃ G, groups[g]? = some G ∧ sts.length = G.statuses.length) ∧
      (∀ i < sts.length, ∃ status, sts[i]? = some status ∧ GroupEvent.retired g i status ∈ l₁) ∧
      ∀ sts', GroupEvent.completed g sts' ∉ l₁
  /-- And then it is. -/
  complete : ∀ g G, groups[g]? = some G → (∀ i < G.statuses.length, (g, i) ∈ retiredKeys events) →
    ∃ sts, GroupEvent.completed g sts ∈ events

section Events

variable {groups : List (NativeGroup S)} {G : NativeGroup S} {waiting waiting' : List (ℕ × ℕ)}
  {events : List (GroupEvent S)} {g i : ℕ} {status : S}

theorem mem_retiredKeys : (g, i) ∈ retiredKeys events ↔ ∃ status, GroupEvent.retired g i status ∈ events := by
  rw [retiredKeys, List.mem_filterMap]
  constructor
  · rintro ⟨e, he, hkey⟩
    cases e with
    | retired g' i' status =>
      obtain ⟨rfl, rfl⟩ := Prod.mk.inj (Option.some.inj hkey)
      exact ⟨status, he⟩
    | completed g' sts => cases hkey
  · rintro ⟨status, he⟩
    exact ⟨_, he, rfl⟩

theorem retiredKeys_append (events events' : List (GroupEvent S)) :
    retiredKeys (events ++ events') = retiredKeys events ++ retiredKeys events' :=
  List.filterMap_append

/-- Where the end of a list is split off. -/
theorem concat_eq_append_cons {β : Type*} {xs l₁ l₂ : List β} {a c : β} (h : xs ++ [c] = l₁ ++ a :: l₂) :
    (l₁ = xs ∧ a = c) ∨ ∃ l₂', l₂ = l₂' ++ [c] ∧ xs = l₁ ++ a :: l₂' := by
  rcases List.eq_nil_or_concat' l₂ with rfl | ⟨l₂', z, rfl⟩
  · obtain ⟨hxs, ha⟩ := List.append_inj' h rfl
    exact Or.inl ⟨hxs.symm, (List.cons.inj ha).1.symm⟩
  · have h' : xs ++ [c] = (l₁ ++ a :: l₂') ++ [z] := by simpa using h
    obtain ⟨hxs, hz⟩ := List.append_inj' h' rfl
    obtain rfl := (List.cons.inj hz).1
    exact Or.inr ⟨l₂', rfl, hxs⟩

namespace EventsInv

theorem nil : EventsInv ([] : List (NativeGroup S)) [] [] :=
  ⟨List.Perm.refl _, nofun, fun l₁ g sts l₂ h => by simp at h, fun g G h => by simp at h⟩

theorem perm (h : EventsInv groups waiting events) (hperm : waiting'.Perm waiting) : EventsInv groups waiting' events :=
  ⟨(hperm.append_right _).trans h.accounted, h.statuses, h.completed, h.complete⟩

theorem nodup (h : EventsInv groups waiting events) : (waiting ++ retiredKeys events).Nodup :=
  h.accounted.nodup_iff.mpr (nodup_groupKeys groups)

/-- A request that is waiting was not retired. -/
theorem notMem_retired (h : EventsInv groups waiting events) (hw : (g, i) ∈ waiting) : (g, i) ∉ retiredKeys events :=
  fun hr => (List.nodup_append.mp h.nodup).2.2 _ hw _ hr rfl

/-- A new group with at least one request. -/
theorem open' [Inhabited S] (h : EventsInv groups waiting events) (op : ℕ) {n : ℕ} (hn : n ≠ 0) :
    EventsInv (groups ++ [⟨op, List.replicate n default, n⟩])
      (waiting ++ (List.range' 0 n).map fun j => (groups.length, j)) events := by
  have hold : ∀ g G, groups[g]? = some G → (groups ++ [(⟨op, List.replicate n default, n⟩ : NativeGroup S)])[g]? = some G :=
    fun g G hG => by rw [List.getElem?_append_left (List.getElem?_eq_some_iff.mp hG).1, hG]
  refine ⟨?_, fun g i status he => ?_, fun l₁ g sts l₂ hsplit => ?_, fun g G hG hall => ?_⟩
  · rw [groupKeys_concat, List.length_replicate, ← List.range_eq_range', List.append_assoc]
    refine (List.perm_append_comm.append_left waiting).trans ?_
    rw [← List.append_assoc]
    exact h.accounted.append_right _
  · obtain ⟨G, hG, hstatus⟩ := h.statuses g i status he
    exact ⟨G, hold g G hG, hstatus⟩
  · obtain ⟨⟨G, hG, hlen⟩, hrest⟩ := h.completed l₁ g sts l₂ hsplit
    exact ⟨⟨G, hold g G hG, hlen⟩, hrest⟩
  · by_cases hg : g < groups.length
    · rw [List.getElem?_append_left hg] at hG
      exact h.complete g G hG hall
    · -- the new group still waits for its first request
      have hlast : g = groups.length := by
        have hlt := (List.getElem?_eq_some_iff.mp hG).1
        rw [List.length_append, List.length_singleton] at hlt
        omega
      rw [hlast, List.getElem?_append_right le_rfl, Nat.sub_self, List.getElem?_cons_zero] at hG
      obtain rfl := Option.some.inj hG
      have hfirst := hall 0 (by rw [List.length_replicate]; omega)
      have hmem : (g, 0) ∈ groupKeys groups := h.accounted.mem_iff.mp (List.mem_append_right _ hfirst)
      obtain ⟨G, hG, -⟩ := mem_groupKeys.mp hmem
      exact absurd (List.getElem?_eq_some_iff.mp hG).1 hg

/-- The groups after a request of group `g` is retired. -/
theorem getElem?_retire_self (hG : groups[g]? = some G) (status : S) :
    (groups.set g (G.retire i status))[g]? = some (G.retire i status) :=
  List.getElem?_set_self (List.getElem?_eq_some_iff.mp hG).1

theorem lt_statuses (h : EventsInv groups waiting events) (hG : groups[g]? = some G) (hw : (g, i) ∈ waiting) :
    i < G.statuses.length := by
  obtain ⟨G', hG', hi⟩ := mem_groupKeys.mp (h.accounted.mem_iff.mp (List.mem_append_left _ hw))
  obtain rfl := Option.some.inj (hG.symm.trans hG')
  exact hi

/-- Each status is stored, the new one too. -/
theorem statuses_retire (h : EventsInv groups waiting events) (hG : groups[g]? = some G) (hw : (g, i) ∈ waiting)
    {status : S} {g' i' : ℕ} {status' : S}
    (he : GroupEvent.retired g' i' status' ∈ events ++ [GroupEvent.retired g i status]) :
    ∃ G', (groups.set g (G.retire i status))[g']? = some G' ∧ G'.statuses[i']? = some status' := by
  rcases List.mem_append.mp he with he | he
  · obtain ⟨G', hG', hstatus⟩ := h.statuses g' i' status' he
    rcases eq_or_ne g g' with rfl | hne
    · obtain rfl := Option.some.inj (hG.symm.trans hG')
      refine ⟨_, getElem?_retire_self hG status, ?_⟩
      have hii : i ≠ i' := fun heq => h.notMem_retired hw (mem_retiredKeys.mpr ⟨status', heq ▸ he⟩)
      rw [NativeGroup.retire, List.getElem?_set_ne hii]
      exact hstatus
    · exact ⟨G', by rw [List.getElem?_set_ne hne, hG'], hstatus⟩
  · obtain ⟨rfl, rfl, rfl⟩ := GroupEvent.retired.inj (List.mem_singleton.mp he)
    exact ⟨_, getElem?_retire_self hG status', List.getElem?_set_self (h.lt_statuses hG hw)⟩

/-- A key moves from the waiting ones to the retired ones. -/
theorem accounted_retire (h : EventsInv groups waiting events) (hG : groups[g]? = some G)
    (hw : waiting.Perm ((g, i) :: waiting')) (status : S) :
    (waiting' ++ retiredKeys (events ++ [GroupEvent.retired g i status])).Perm
      (groupKeys (groups.set g (G.retire i status))) := by
  rw [groupKeys_set hG List.length_set, retiredKeys_append]
  refine List.Perm.trans ?_ h.accounted
  refine List.Perm.trans ?_ (hw.append_right _).symm
  rw [← List.append_assoc, List.cons_append]
  exact List.perm_append_singleton _ _

/-- What was completed before stays as it was. -/
theorem completed_retire (h : EventsInv groups waiting events) (hG : groups[g]? = some G) {status : S}
    {l₁ l₂ : List (GroupEvent S)} {g' : ℕ} {sts : List S}
    (hsplit : events ++ [GroupEvent.retired g i status] = l₁ ++ GroupEvent.completed g' sts :: l₂) :
    (∃ G', (groups.set g (G.retire i status))[g']? = some G' ∧ sts.length = G'.statuses.length) ∧
      (∀ i' < sts.length, ∃ status', sts[i']? = some status' ∧ GroupEvent.retired g' i' status' ∈ l₁) ∧
      ∀ sts', GroupEvent.completed g' sts' ∉ l₁ := by
  rcases concat_eq_append_cons hsplit with ⟨-, hlast⟩ | ⟨l₂', -, hevents⟩
  · cases hlast
  · obtain ⟨⟨G', hG', hsts⟩, hrest⟩ := h.completed l₁ g' sts l₂' hevents
    refine ⟨?_, hrest⟩
    rcases eq_or_ne g g' with rfl | hne
    · obtain rfl := Option.some.inj (hG.symm.trans hG')
      exact ⟨_, getElem?_retire_self hG status, hsts.trans List.length_set.symm⟩
    · exact ⟨G', by rw [List.getElem?_set_ne hne, hG'], hsts⟩

/-- Other groups are complete if they were. -/
theorem complete_retire_of_ne (h : EventsInv groups waiting events) {status : S} {g' : ℕ} {G' : NativeGroup S}
    (hG' : (groups.set g (G.retire i status))[g']? = some G') (hne : g ≠ g')
    (hall : ∀ i' < G'.statuses.length, (g', i') ∈ retiredKeys (events ++ [GroupEvent.retired g i status])) :
    ∃ sts, GroupEvent.completed g' sts ∈ events := by
  rw [List.getElem?_set_ne hne] at hG'
  refine h.complete g' G' hG' fun i' hi' => ?_
  have hmem := hall i' hi'
  rw [retiredKeys_append] at hmem
  refine (List.mem_append.mp hmem).resolve_right fun heq => hne ?_
  exact (Prod.mk.inj (List.mem_singleton.mp heq)).1.symm

/-- A group with a waiting request was not completed. -/
theorem notMem_completed (h : EventsInv groups waiting events) (hG : groups[g]? = some G) (hw : (g, i) ∈ waiting)
    (sts : List S) : GroupEvent.completed g sts ∉ events := by
  intro hmem
  obtain ⟨front, back, hfront⟩ := List.append_of_mem hmem
  obtain ⟨⟨G', hG', hsts⟩, hretired, -⟩ := h.completed front _ sts back hfront
  obtain rfl := Option.some.inj (hG.symm.trans hG')
  obtain ⟨status, -, hstatus⟩ := hretired i (hsts ▸ h.lt_statuses hG hw)
  exact h.notMem_retired hw (mem_retiredKeys.mpr ⟨status, hfront ▸ List.mem_append_left _ hstatus⟩)

/-- **A request is retired.**  The group counts the requests that it waits for, so it is completed by
the last of them. -/
theorem retire (h : EventsInv groups waiting events) (hG : groups[g]? = some G) (hw : waiting.Perm ((g, i) :: waiting'))
    (hremaining : G.remaining = (waiting.countP fun a => decide (a.1 = g) : ℕ)) (status : S) :
    EventsInv (groups.set g (G.retire i status)) waiting' (events ++ GroupEvent.retired g i status ::
      if (G.retire i status).remaining = 0 then [GroupEvent.completed g (G.retire i status).statuses] else []) := by
  have hself : (groups.set g (G.retire i status))[g]? = some (G.retire i status) := getElem?_retire_self hG status
  have hwait : (g, i) ∈ waiting := hw.mem_iff.mpr List.mem_cons_self
  have haccounted := h.accounted_retire hG hw status
  have hleft : (G.retire i status).remaining = (waiting'.countP fun a => decide (a.1 = g) : ℕ) := by
    have hcount : waiting.countP (fun a => decide (a.1 = g)) = waiting'.countP (fun a => decide (a.1 = g)) + 1 :=
      (hw.countP_eq _).trans (List.countP_cons_of_pos (decide_eq_true rfl))
    rw [NativeGroup.retire, hremaining, hcount]
    push_cast
    ring
  by_cases hzero : (G.retire i status).remaining = 0
  · rw [if_pos hzero, List.append_cons]
    -- no request of the group is waiting, so all of them are retired
    have hnone : ∀ i', (g, i') ∉ waiting' := by
      intro i' hmem
      have hcount : waiting'.countP (fun a => decide (a.1 = g)) = 0 := by omega
      exact List.countP_eq_zero.mp hcount _ hmem (decide_eq_true rfl)
    have hall : ∀ i' < (G.retire i status).statuses.length,
        (g, i') ∈ retiredKeys (events ++ [GroupEvent.retired g i status]) := by
      intro i' hi'
      have hmem : (g, i') ∈ groupKeys (groups.set g (G.retire i status)) := mem_groupKeys.mpr ⟨_, hself, hi'⟩
      exact (List.mem_append.mp (haccounted.mem_iff.mpr hmem)).resolve_left (hnone i')
    have hsame : retiredKeys (events ++ [GroupEvent.retired g i status] ++
        [GroupEvent.completed g (G.retire i status).statuses]) =
        retiredKeys (events ++ [GroupEvent.retired g i status]) := by
      rw [retiredKeys_append _ [GroupEvent.completed g _]]
      exact List.append_nil _
    refine ⟨?_, fun g' i' status' he => ?_, fun l₁ g' sts l₂ hsplit => ?_, fun g' G' hG' hall' => ?_⟩
    · rwa [hsame]
    · rcases List.mem_append.mp he with he | he
      · exact h.statuses_retire hG hwait he
      · cases List.mem_singleton.mp he
    · rcases concat_eq_append_cons hsplit with ⟨rfl, hlast⟩ | ⟨l₂', -, hevents⟩
      · obtain ⟨rfl, rfl⟩ := GroupEvent.completed.inj hlast
        refine ⟨⟨_, hself, rfl⟩, fun i' hi' => ?_, fun sts' hmem => ?_⟩
        · obtain ⟨status', hstatus'⟩ := mem_retiredKeys.mp (hall i' hi')
          obtain ⟨G', hG', hstored⟩ := h.statuses_retire hG hwait hstatus'
          obtain rfl := Option.some.inj (hself.symm.trans hG')
          exact ⟨status', hstored, hstatus'⟩
        · rcases List.mem_append.mp hmem with hmem | hmem
          · exact h.notMem_completed hG hwait sts' hmem
          · cases List.mem_singleton.mp hmem
      · exact h.completed_retire hG hevents
    · rcases eq_or_ne g g' with rfl | hne
      · exact ⟨_, List.mem_append_right _ (List.mem_singleton_self _)⟩
      · rw [hsame] at hall'
        obtain ⟨sts, hsts⟩ := h.complete_retire_of_ne hG' hne hall'
        exact ⟨sts, List.mem_append_left _ (List.mem_append_left _ hsts)⟩
  · rw [if_neg hzero]
    refine ⟨haccounted, fun g' i' status' he => h.statuses_retire hG hwait he,
      fun l₁ g' sts l₂ hsplit => h.completed_retire hG hsplit, fun g' G' hG' hall => ?_⟩
    rcases eq_or_ne g g' with rfl | hne
    · -- a request of the group is waiting
      obtain rfl := Option.some.inj (hself.symm.trans hG')
      have hpos : 0 < waiting'.countP fun a => decide (a.1 = g) := by omega
      obtain ⟨⟨g', i'⟩, hmem, hg'⟩ := List.countP_pos_iff.mp hpos
      obtain rfl : g' = g := of_decide_eq_true hg'
      have hkey : (g', i') ∈ groupKeys (groups.set g' (G.retire i status)) :=
        haccounted.mem_iff.mp (List.mem_append_left _ hmem)
      obtain ⟨G', hG'', hi'⟩ := mem_groupKeys.mp hkey
      obtain rfl := Option.some.inj (hself.symm.trans hG'')
      have hnodup := haccounted.nodup_iff.mpr (nodup_groupKeys _)
      exact absurd rfl ((List.nodup_append.mp hnodup).2.2 _ hmem _ (hall i' hi'))
    · obtain ⟨sts, hsts⟩ := h.complete_retire_of_ne hG' hne hall
      exact ⟨sts, List.mem_append_left _ hsts⟩

end EventsInv

end Events

/-! ## Where the registered requests are -/

section Live

variable {requests : List (Option R)} {active : List (ℕ × ℕ)} {reported : List ℕ}

theorem isLive_of_ne_none (hne : ∀ r ∈ requests, r ≠ none) {k : ℕ} (hk : k < requests.length) :
    isLive requests reported k = true := by
  rw [isLive, List.getElem?_eq_getElem hk, Option.any_some,
    Option.isSome_iff_ne_none.mpr (hne _ (List.getElem_mem hk)), Bool.true_or]

/-- Without null requests all entries are live. -/
theorem liveKeys_of_ne_none (h : requests.length = active.length) (hne : ∀ r ∈ requests, r ≠ none) :
    liveKeys requests active reported = active :=
  keptBelow_eq_self fun _ hk => isLive_of_ne_none hne (h.symm ▸ hk)

/-- Completed requests are live until their report is handled. -/
theorem liveKeys_nullAt (h : requests.length = active.length) (hne : ∀ r ∈ requests, r ≠ none) {done : List ℕ}
    (hdone : ∀ k ∈ done, k ∈ reported) : liveKeys (nullAt requests done) active reported = active := by
  refine keptBelow_eq_self fun k hk => ?_
  have hk' : k < requests.length := h.symm ▸ hk
  have hsome : (requests[k]).isSome = true := Option.isSome_iff_ne_none.mpr (hne _ (List.getElem_mem hk'))
  rw [isLive, nullAt, List.getElem?_mapIdx, List.getElem?_eq_getElem hk']
  by_cases hd : k ∈ done
  · simp [hd, hdone k hd]
  · simp [hd, hsome]

theorem liveKeys_stillPending (active : List (ℕ × ℕ)) {k : ℕ} {r : R} (hr : requests[k]? = some (some r))
    (reported : List ℕ) : liveKeys requests active reported = liveKeys requests active (k :: reported) := by
  refine keptBelow_congr _ fun j _ => ?_
  rw [isLive, isLive]
  rcases eq_or_ne j k with rfl | hne
  · simp [hr]
  · simp [hne]

/-- Handling the report of a completed request takes it out. -/
theorem liveKeys_retire {k : ℕ} {key : ℕ × ℕ} (hr : requests[k]? = some none) (ha : active[k]? = some key)
    (hnot : k ∉ reported) :
    (liveKeys requests active (k :: reported)).Perm (key :: liveKeys requests active reported) := by
  refine keptBelow_perm_cons ha ?_ ?_ fun j hj => ?_
  · simp [isLive]
  · simp [isLive, hr, hnot]
  · simp [isLive, hj]

end Live

section Retire

variable {s : Context α R S} {G : NativeGroup S} {g i : ℕ} {status : S} {next : Pc α R S}

theorem retireIn_tracking (hG : s.groups[g]? = some G) :
    (s.retireIn g i status next).groups = s.groups.set g (G.retire i status) ∧
      (s.retireIn g i status next).requests = s.requests ∧ (s.retireIn g i status next).active = s.active ∧
      (s.retireIn g i status next).pc.keysLeft = next.keysLeft ∧
      (s.retireIn g i status next).pc.reports = next.reports := by
  unfold retireIn
  simp only [hG]
  split <;> exact ⟨rfl, rfl, rfl, rfl, rfl⟩

theorem retireIn_keysLeft (status : S) (next : Pc α R S) (hG : s.groups[g]? = some G) :
    (s.retireIn g i status next).pc.keysLeft = next.keysLeft :=
  (retireIn_tracking hG).2.2.2.1

theorem retireIn_reports (status : S) (next : Pc α R S) (hG : s.groups[g]? = some G) :
    (s.retireIn g i status next).pc.reports = next.reports :=
  (retireIn_tracking hG).2.2.2.2

theorem retireEvents_eq (hG : s.groups[g]? = some G) :
    retireEvents s g i status = GroupEvent.retired g i status ::
      if (G.retire i status).remaining = 0 then [GroupEvent.completed g (G.retire i status).statuses] else [] := by
  unfold retireEvents
  simp only [hG]

end Retire

theorem Inv.exists_group_of_batchLeft {s : Context α R S} (h : Inv s) {g : ℕ} (hg : s.pc.batchLeft g ≠ 0) :
    ∃ G, s.groups[g]? = some G :=
  ⟨_, List.getElem?_eq_getElem (h.tracked g hg)⟩

theorem Inv.exists_group_of_active {s : Context α R S} (h : Inv s) {a : ℕ × ℕ} (ha : a ∈ s.active) :
    ∃ G, s.groups[a.1]? = some G :=
  ⟨_, List.getElem?_eq_getElem (h.registered a ha)⟩

/-- The entries of the two vectors, by the registrations they come from. -/
structure Aligned (requests : List (Option R)) (active : List (ℕ × ℕ)) (registered E : List (R × ℕ × ℕ)) : Prop where
  /-- Registrations that are dropped leave the others in their order. -/
  sublist : E.Sublist registered
  active : active = E.map Prod.snd
  requests : ∀ (k : ℕ) (r : R) (e : R × ℕ × ℕ), requests[k]? = some (some r) → E[k]? = some e → r = e.1

theorem Aligned.compact {s : Context α R S} {registered E : List (R × ℕ × ℕ)} (hlen : s.requests.length = s.active.length)
    (h : Aligned s.requests s.active registered E) :
    Aligned s.compact.requests s.compact.active registered (keptBelow (survives s.requests) E E.length) := by
  have hE : E.length = s.active.length := by rw [h.active, List.length_map]
  refine ⟨(keptBelow_sublist _ _).trans h.sublist, ?_, fun j r e hr he => ?_⟩
  · rw [(compact_eq hlen).2, ← keptBelow_map, ← h.active, hE]
  · rw [(compact_eq hlen).1, getElem?_keptBelow _ _ le_rfl] at hr
    rw [getElem?_keptBelow _ _ le_rfl, hE, ← hlen] at he
    obtain ⟨k, hk, hrk⟩ := Option.bind_eq_some_iff.mp hr
    rw [hk, Option.bind_some] at he
    exact h.requests k r e hrk he

/-- The invariant of a context with its history. -/
structure History.Inv (s : Context α R S) (H : History R S) [Inhabited S] : Prop where
  events : EventsInv s.groups (s.pc.keysLeft ++ liveKeys s.requests s.active s.pc.reported) H.events
  entries : ∃ E, Aligned s.requests s.active H.registered E ∧
    ∀ a ∈ s.pc.reports, s.requests[a.1]? = some none → ∀ e, E[a.1]? = some e → (e.1, a.2) ∈ H.answers
  keys : ∀ e ∈ H.registered, e.2 ∈ liveKeys s.requests s.active s.pc.reported ∨ e.2 ∈ retiredKeys H.events
  unique : (H.registered.map Prod.snd).Nodup
  answered : ∀ g i status, GroupEvent.retired g i status ∈ H.events →
    ∀ r, (r, g, i) ∈ H.registered → (r, status) ∈ H.answers
  null : ∀ g i status, GroupEvent.retired g i status ∈ H.events → (∀ r, (r, g, i) ∉ H.registered) → status = default

namespace History.Inv

variable [Inhabited S] {s t : Context α R S} {H : History R S}

theorem initial : History.Inv (Context.initial : Context α R S) ⟨[], [], []⟩ where
  events := EventsInv.nil
  entries := ⟨[], ⟨List.Sublist.refl _, rfl, fun k r e h => by simp [Context.initial] at h⟩, nofun⟩
  keys := nofun
  unique := List.nodup_nil
  answered := nofun
  null := nofun

/-- A step that does not touch the requests. -/
theorem quiet (h : History.Inv s H) (hrequests : t.requests = s.requests) (hactive : t.active = s.active)
    (hgroups : t.groups = s.groups) (hkeys : t.pc.keysLeft = s.pc.keysLeft) (hreports : t.pc.reports = s.pc.reports) :
    History.Inv t H := by
  have hreported : t.pc.reported = s.pc.reported := by rw [Pc.reported_eq, Pc.reported_eq, hreports]
  obtain ⟨hevents, hentries, hregistered, hunique, hanswered, hnull⟩ := h
  exact ⟨by rwa [hgroups, hkeys, hrequests, hactive, hreported], by rwa [hrequests, hactive, hreports],
    by rwa [hrequests, hactive, hreported], hunique, hanswered, hnull⟩

/-- A retired key that is registered belongs to one request. -/
theorem eq_of_registered (h : History.Inv s H) {r r' : R} {key : ℕ × ℕ} (hr : (r, key) ∈ H.registered)
    (hr' : (r', key) ∈ H.registered) : r = r' := by
  have heq := List.inj_on_of_nodup_map h.unique hr hr' rfl
  exact (Prod.mk.inj heq).1

/-- A request is retired, its report or its place in the batch being the next one. -/
theorem retire (h : History.Inv s H) (hctx : Mpi.Inv s) {G : NativeGroup S} {g i : ℕ} {status : S} {next : Pc α R S}
    (hG : s.groups[g]? = some G)
    (hkeys : (s.pc.keysLeft ++ liveKeys s.requests s.active s.pc.reported).Perm
      ((g, i) :: (next.keysLeft ++ liveKeys s.requests s.active next.reported)))
    (hlive : ∀ key ∈ liveKeys s.requests s.active s.pc.reported,
      key = (g, i) ∨ key ∈ liveKeys s.requests s.active next.reported)
    (hreports : ∀ a ∈ next.reports, a ∈ s.pc.reports)
    (hanswered : ∀ r, (r, g, i) ∈ H.registered → (r, status) ∈ H.answers)
    (hnull : (∀ r, (r, g, i) ∉ H.registered) → status = default) :
    History.Inv (s.retireIn g i status next) { H with events := H.events ++ retireEvents s g i status } := by
  obtain ⟨hgroups, hrequests, hactive, hleft, hreps⟩  :=
    retireIn_tracking (S := S) hG
  have hreported : (s.retireIn g i status next).pc.reported = next.reported := by
    rw [Pc.reported_eq, Pc.reported_eq, hreps]
  have hremaining : G.remaining =
      ((s.pc.keysLeft ++ liveKeys s.requests s.active s.pc.reported).countP fun a => decide (a.1 = g) : ℕ) := by
    rw [hctx.remaining g G hG, liveCount_eq_countP hctx.aligned, batchLeft_eq_countP, List.countP_append, Nat.add_comm]
  have hnew : ∀ g' i' status', GroupEvent.retired g' i' status' ∈ H.events ++ retireEvents s g i status →
      GroupEvent.retired g' i' status' ∈ H.events ∨ g' = g ∧ i' = i ∧ status' = status := by
    intro g' i' status' he
    rcases List.mem_append.mp he with he | he
    · exact Or.inl he
    · rw [retireEvents_eq hG, List.mem_cons] at he
      rcases he with he | he
      · exact Or.inr (GroupEvent.retired.inj he)
      · split at he
        · cases List.mem_singleton.mp he
        · exact absurd he List.not_mem_nil
  refine ⟨?_, ?_, fun e he => ?_, h.unique, fun g' i' status' he r hr => ?_, fun g' i' status' he hno => ?_⟩
  · rw [hgroups, hrequests, hactive, hleft, hreported, retireEvents_eq hG]
    exact h.events.retire hG hkeys hremaining status
  · obtain ⟨E, haligned, hans⟩ := h.entries
    rw [hrequests, hactive, hreps]
    exact ⟨E, haligned, fun a ha => hans a (hreports a ha)⟩
  · rw [hrequests, hactive, hreported, retiredKeys_append, List.mem_append]
    rcases h.keys e he with hlv | hret
    · rcases hlive _ hlv with heq | hlv'
      · refine Or.inr (Or.inr ?_)
        rw [heq, mem_retiredKeys, retireEvents_eq hG]
        exact ⟨status, List.mem_cons_self⟩
      · exact Or.inl hlv'
    · exact Or.inr (Or.inl hret)
  · rcases hnew g' i' status' he with he | ⟨rfl, rfl, rfl⟩
    · exact h.answered g' i' status' he r hr
    · exact hanswered r hr
  · rcases hnew g' i' status' he with he | ⟨rfl, rfl, rfl⟩
    · exact h.null g' i' status' he hno
    · exact hnull hno

/-- An active request of a batch is registered. -/
theorem register (h : History.Inv s H) (hctx : Mpi.Inv s) {g i m : ℕ} {r : R} {batch : List (Option R)}
    (hp : s.pc = Pc.trackNative g i (some r :: batch) m) :
    History.Inv { s with
        requests := s.requests ++ [some r]
        active := s.active ++ [(g, i)]
        pc := Pc.trackNative g (i + 1) batch m } { H with registered := H.registered ++ [(r, g, i)] } := by
  have hne := hctx.nonnull (by rw [hp]; rfl)
  have hne' : ∀ r' ∈ s.requests ++ [some r], r' ≠ none := by
    intro r' hr'
    rcases List.mem_append.mp hr' with hr' | hr'
    · exact hne r' hr'
    · rw [List.mem_singleton.mp hr']
      exact Option.some_ne_none r
  have hlen : (s.requests ++ [some r]).length = (s.active ++ [(g, i)]).length := by
    rw [List.length_append, List.length_append, hctx.aligned]
    rfl
  have hlive : liveKeys s.requests s.active s.pc.reported = s.active := liveKeys_of_ne_none hctx.aligned hne
  have hlive' : ∀ reported, liveKeys (s.requests ++ [some r]) (s.active ++ [(g, i)]) reported = s.active ++ [(g, i)] :=
    fun reported => liveKeys_of_ne_none hlen hne'
  have hevents := h.events
  have hkeys := h.keys
  rw [hlive] at hevents hkeys
  rw [hp] at hevents
  have hfresh : (g, i) ∉ H.registered.map Prod.snd := by
    intro hmem
    obtain ⟨e, he, hkey⟩ := List.mem_map.mp hmem
    have hnodup := hevents.nodup
    rw [Pc.keysLeft, List.length_cons, List.range'_succ, List.map_cons, List.cons_append, List.cons_append,
      List.nodup_cons] at hnodup
    refine hnodup.1 ?_
    rw [← hkey]
    rcases hkeys e he with hact | hret
    · exact List.mem_append_left _ (List.mem_append_right _ hact)
    · exact List.mem_append_right _ hret
  refine ⟨?_, ?_, fun e he => ?_, ?_, fun g' i' status he r' hr' => ?_, fun g' i' status he hno => ?_⟩
  · rw [hlive']
    refine hevents.perm ?_
    rw [Pc.keysLeft, Pc.keysLeft, List.length_cons, List.range'_succ, List.map_cons, ← List.append_assoc]
    exact List.perm_append_singleton _ _
  · obtain ⟨E, haligned, -⟩ := h.entries
    have hE : E.length = s.requests.length := by rw [hctx.aligned, haligned.active, List.length_map]
    refine ⟨E ++ [(r, g, i)], ⟨haligned.sublist.append (List.Sublist.refl _), ?_, fun k r' e hr' he => ?_⟩, nofun⟩
    · rw [haligned.active, List.map_append]
      rfl
    · by_cases hk : k < s.requests.length
      · rw [List.getElem?_append_left hk] at hr'
        rw [List.getElem?_append_left (hE ▸ hk)] at he
        exact haligned.requests k r' e hr' he
      · rw [List.getElem?_append_right (by omega)] at hr' he
        rw [hE] at he
        have hk0 : k - s.requests.length = 0 := by
          have := (List.getElem?_eq_some_iff.mp hr').1
          rw [List.length_singleton] at this
          omega
        rw [hk0, List.getElem?_cons_zero] at hr' he
        rw [← Option.some.inj he, ← Option.some.inj (Option.some.inj hr')]
  · rw [hlive']
    rcases List.mem_append.mp he with he | he
    · exact (hkeys e he).imp_left (List.mem_append_left _)
    · rw [List.mem_singleton.mp he]
      exact Or.inl (List.mem_append_right _ (List.mem_singleton_self _))
  · rw [List.map_append, List.nodup_append]
    refine ⟨h.unique, List.nodup_singleton _, fun key hkey key' hkey' heq => hfresh ?_⟩
    rw [List.map_singleton, List.mem_singleton] at hkey'
    obtain rfl : key' = (g, i) := hkey'
    exact heq ▸ hkey
  · rcases List.mem_append.mp hr' with hr' | hr'
    · exact h.answered g' i' status he r' hr'
    · -- a request that is only registered now was not retired before
      obtain ⟨-, rfl, rfl⟩ : r' = r ∧ g' = g ∧ i' = i := by simpa using List.mem_singleton.mp hr'
      refine absurd (mem_retiredKeys.mpr ⟨status, he⟩) (hevents.notMem_retired ?_)
      rw [Pc.keysLeft, List.length_cons, List.range'_succ, List.map_cons]
      exact List.mem_append_left _ List.mem_cons_self
  · exact h.null g' i' status he fun r' hr' => hno r' (List.mem_append_left _ hr')

/-- A new group waits for its whole batch. -/
theorem startNative (h : History.Inv s H) {m op : ℕ} {batch : List (Option R)}
    (hp : s.pc = Pc.execute ⟨op, CommandKind.submission⟩ m) (hb : batch ≠ []) :
    History.Inv { s with
        groups := s.groups ++ [⟨op, List.replicate batch.length default, batch.length⟩]
        pc := Pc.trackNative s.groups.length 0 batch m } H := by
  obtain ⟨hevents, ⟨E, haligned, -⟩, hkeys, hunique, hanswered, hnull⟩ := h
  rw [hp] at hevents hkeys
  refine ⟨?_, ⟨E, haligned, nofun⟩, hkeys, hunique, hanswered, hnull⟩
  have hlength : batch.length ≠ 0 := fun hzero => hb (List.length_eq_zero_iff.mp hzero)
  exact (hevents.open' op hlength).perm List.perm_append_comm

/-- A null request is retired with an empty status. -/
theorem trackNull (h : History.Inv s H) (hctx : Mpi.Inv s) {g i m : ℕ} {batch : List (Option R)}
    (hp : s.pc = Pc.trackNative g i (none :: batch) m) :
    History.Inv (s.retireIn g i default (Pc.trackNative g (i + 1) batch m))
      { H with events := H.events ++ retireEvents s g i default } := by
  obtain ⟨G, hG⟩ := hctx.exists_group_of_batchLeft (g := g) (by simp [hp, Pc.batchLeft])
  have hleft : s.pc.keysLeft = (g, i) :: (Pc.trackNative g (i + 1) batch m : Pc α R S).keysLeft := by
    rw [hp, Pc.keysLeft, Pc.keysLeft, List.length_cons, List.range'_succ, List.map_cons]
  have hreported : s.pc.reported = (Pc.trackNative g (i + 1) batch m : Pc α R S).reported := by rw [hp]; rfl
  have hfresh : ∀ r, (r, g, i) ∉ H.registered := by
    intro r hr
    have hnodup := h.events.nodup
    rw [hleft, List.cons_append, List.cons_append, List.nodup_cons] at hnodup
    refine hnodup.1 ?_
    rcases h.keys _ hr with hlive | hret
    · exact List.mem_append_left _ (List.mem_append_right _ hlive)
    · exact List.mem_append_right _ hret
  refine h.retire hctx hG ?_ (fun key hkey => Or.inr (hreported ▸ hkey)) (fun a ha => absurd ha List.not_mem_nil)
    (fun r hr => absurd hr (hfresh r)) fun _ => rfl
  rw [hleft, hreported, List.cons_append]

/-- The entry of a registered request. -/
theorem exists_entry (h : History.Inv s H) {k : ℕ} {status : S} {reported : List (ℕ × S)} {key : ℕ × ℕ}
    (hp : s.pc = Pc.retire ((k, status) :: reported)) (hr : s.requests[k]? = some none) (ha : s.active[k]? = some key) :
    ∃ r, (r, key) ∈ H.registered ∧ (r, status) ∈ H.answers := by
  obtain ⟨E, haligned, hans⟩ := h.entries
  rw [haligned.active, List.getElem?_map] at ha
  obtain ⟨⟨r, key'⟩, he, rfl⟩ := Option.map_eq_some_iff.mp ha
  refine ⟨r, haligned.sublist.subset (List.mem_of_getElem? he), ?_⟩
  have hmem : (k, status) ∈ s.pc.reports := by
    rw [hp]
    exact List.mem_cons_self
  exact hans _ hmem hr _ he

/-- A completed request is retired in the group and at the index it was registered under. -/
theorem retireActive (h : History.Inv s H) (hctx : Mpi.Inv s) {k g i : ℕ} {status : S} {reported : List (ℕ × S)}
    (hp : s.pc = Pc.retire ((k, status) :: reported)) (hr : s.requests[k]? = some none)
    (ha : s.active[k]? = some (g, i)) :
    History.Inv (s.retireIn g i status (Pc.retire reported))
      { H with events := H.events ++ retireEvents s g i status } := by
  obtain ⟨G, hG⟩ := hctx.exists_group_of_active (List.mem_of_getElem? ha)
  obtain ⟨r, hregistered, hanswered⟩ := h.exists_entry hp hr ha
  have hnodup := hctx.reported
  rw [hp] at hnodup
  have hperm : (liveKeys s.requests s.active s.pc.reported).Perm
      ((g, i) :: liveKeys s.requests s.active (reported.map Prod.fst)) := by
    rw [hp]
    exact liveKeys_retire hr ha (List.nodup_cons.mp hnodup).1
  refine h.retire hctx hG ?_ (fun key hkey => List.mem_cons.mp (hperm.mem_iff.mp hkey)) (fun a ha' => ?_) (fun r' hr' => ?_)
    fun hno => absurd hregistered (hno r)
  · rw [hp] at hperm ⊢
    exact hperm
  · rw [hp]
    exact List.mem_cons_of_mem _ ha'
  · rwa [h.eq_of_registered hr' hregistered]

/-- `MPI_Testsome` answers for the requests at some positions. -/
theorem testSome (h : History.Inv s H) (hctx : Mpi.Inv s) {reported : List (ℕ × S)} {done : List ℕ}
    (hp : s.pc = Pc.progressRequests) (hdone : ∀ k ∈ done, k ∈ reported.map Prod.fst) :
    History.Inv { s with requests := nullAt s.requests done, pc := Pc.retire reported }
      (H.record s { s with requests := nullAt s.requests done, pc := Pc.retire reported }) := by
  have hne := hctx.nonnull (by rw [hp]; rfl)
  have hlive : liveKeys (nullAt s.requests done) s.active (reported.map Prod.fst) =
      liveKeys s.requests s.active s.pc.reported := by
    rw [liveKeys_nullAt hctx.aligned hne hdone, liveKeys_of_ne_none hctx.aligned hne]
  have hrecord : H.record s { s with requests := nullAt s.requests done, pc := Pc.retire reported } =
      { H with answers := H.answers ++ reported.filterMap fun a =>
          match s.requests[a.1]?, (nullAt s.requests done)[a.1]? with
          | some (some r), some none => some (r, a.2)
          | _, _ => none } := by
    unfold History.record
    rw [hp]
  have hnullAt : ∀ (k : ℕ) (x : Option R), (nullAt s.requests done)[k]? = some x →
      ∃ r, s.requests[k]? = some (some r) ∧ (x = some r ∨ x = none) := by
    intro k x hx
    rw [nullAt, List.getElem?_mapIdx] at hx
    obtain ⟨y, hy, hyx⟩ := Option.map_eq_some_iff.mp hx
    obtain ⟨r, rfl⟩ := Option.ne_none_iff_exists'.mp (hne y (List.mem_of_getElem? hy))
    refine ⟨r, hy, ?_⟩
    split at hyx
    · exact Or.inr hyx.symm
    · exact Or.inl hyx.symm
  obtain ⟨hevents, ⟨E, haligned, -⟩, hkeys, hunique, hanswered, hnull⟩ := h
  rw [← hlive] at hevents hkeys
  rw [hp] at hevents
  rw [hrecord]
  refine ⟨hevents, ⟨E, ⟨haligned.sublist, haligned.active, fun k r e hr he => ?_⟩, fun a ha hr e he => ?_⟩, hkeys, hunique,
    fun g i status he r hr => List.mem_append_left _ (hanswered g i status he r hr), hnull⟩
  · obtain ⟨r', hr', heq | heq⟩ := hnullAt k _ hr
    · rw [Option.some.inj heq]
      exact haligned.requests k r' e hr' he
    · cases heq
  · obtain ⟨r', hr', -⟩ := hnullAt a.1 _ hr
    refine List.mem_append_right _ (List.mem_filterMap.mpr ⟨a, ha, ?_⟩)
    dsimp only at hr
    rw [hr', hr, haligned.requests a.1 r' e hr' he]

/-- A report for a request that is still active changes nothing. -/
theorem stillPending (h : History.Inv s H) {k : ℕ} {status : S} {reported : List (ℕ × S)} {r : R}
    (hp : s.pc = Pc.retire ((k, status) :: reported)) (hr : s.requests[k]? = some (some r)) :
    History.Inv { s with pc := Pc.retire reported } H := by
  have hlive : liveKeys s.requests s.active s.pc.reported = liveKeys s.requests s.active (reported.map Prod.fst) := by
    rw [hp]
    exact (liveKeys_stillPending s.active hr _).symm
  obtain ⟨hevents, ⟨E, haligned, hans⟩, hkeys, hunique, hanswered, hnull⟩ := h
  rw [hlive] at hevents hkeys
  rw [hp] at hevents hans
  exact ⟨hevents, ⟨E, haligned, fun a ha => hans a (List.mem_cons_of_mem _ ha)⟩, hkeys, hunique, hanswered, hnull⟩

/-- Compaction drops what was retired. -/
theorem compact (h : History.Inv s H) (hctx : Mpi.Inv s) (hp : s.pc = Pc.retire []) :
    History.Inv { s.compact with pc := Pc.checkFinished } H := by
  have hlive : liveKeys s.requests s.active s.pc.reported = liveKeys s.compact.requests s.compact.active [] := by
    rw [liveKeys_of_ne_none (length_compact hctx.aligned) fun _ hr => ne_none_of_mem_compact hctx.aligned hr,
      (compact_eq hctx.aligned).2, liveKeys, hp]
    refine keptBelow_congr _ fun k _ => ?_
    simp [isLive, survives, Pc.reported]
  obtain ⟨hevents, ⟨E, haligned, -⟩, hkeys, hunique, hanswered, hnull⟩ := h
  rw [hlive] at hevents hkeys
  rw [hp] at hevents
  exact ⟨hevents, ⟨_, haligned.compact hctx.aligned, fun a ha => absurd ha List.not_mem_nil⟩, hkeys, hunique, hanswered,
    hnull⟩

/-- The other threads do not touch the requests. -/
theorem other (h : History.Inv s H) (hctx : Mpi.Inv s) (hst : Step s t) (hpc : t.pc = s.pc) : History.Inv t H := by
  have hself : ∀ next : Pc α R S, Pc.finishOperation next ≠ next := by
    intro next heq
    have := congrArg sizeOf heq
    simp at this
  cases hst with
  | submit kind ha => exact h.quiet rfl rfl rfl rfl rfl
  | reserve ha => exact h.quiet rfl rfl rfl rfl rfl
  | @release c k f =>
    unfold Context.releaseManagedCollective
    split
    · split <;> exact h.quiet rfl rfl rfl rfl rfl
    · exact h
  | @abandon c k =>
    unfold Context.abandonManagedCollective
    split
    · exact h.quiet rfl rfl rfl rfl rfl
    · exact h
  | shutdown => exact h.quiet rfl rfl rfl rfl rfl
  | progress hp | queueDrained hp | popCommand hp | invoke hp | startEmpty hp | startNative hp | trackActive hp
  | tracked hp | lanesDrained hp | started hp | noneCompleted hp | testSome hp | stillPending hp
  | compact hp | proceed hp | drained hp | releaseCommunicators hp | setFinished hp =>
    rw [hp] at hpc
    cases hpc
  | @popReady m c start L hp hc hpop =>
    rw [hp] at hpc
    cases start <;> cases hpc
  | finishOperation hp => exact absurd (hp.symm.trans hpc.symm) (hself _)
  | @trackNull g i m batch hp =>
    obtain ⟨G, hG⟩ := hctx.exists_group_of_batchLeft (g := g) (by simp [hp, Pc.batchLeft])
    have hleft := retireIn_keysLeft (i := i) default (Pc.trackNative g (i + 1) batch m) hG
    have hlength := congrArg List.length hleft
    rw [hpc, hp] at hlength
    simp [Pc.keysLeft] at hlength
  | @retireActive k g i status reported hp hr ha =>
    obtain ⟨G, hG⟩ := hctx.exists_group_of_active (List.mem_of_getElem? ha)
    have hreports := retireIn_reports (i := i) status (Pc.retire reported) hG
    have hlength := congrArg List.length hreports
    rw [hpc, hp] at hlength
    simp [Pc.reports] at hlength

/-- Each step of the owner, with what it adds to the history. -/
theorem owner (h : History.Inv s H) (hctx : Mpi.Inv s) (hst : Step s t) (hpc : t.pc ≠ s.pc) :
    History.Inv t (H.record s t) := by
  cases hst with
  | submit kind ha => exact absurd rfl hpc
  | reserve ha => exact absurd rfl hpc
  | @release c k f =>
    refine absurd ?_ hpc
    unfold Context.releaseManagedCollective
    split
    · split <;> rfl
    · rfl
  | @abandon c k =>
    refine absurd ?_ hpc
    unfold Context.abandonManagedCollective
    split <;> rfl
  | shutdown => exact absurd rfl hpc
  | progress hp | queueDrained hp | popCommand hp | invoke hp | startEmpty hp | tracked hp | lanesDrained hp | started hp
  | finishOperation hp | proceed hp | drained hp | releaseCommunicators hp | setFinished hp =>
    have hquiet : ∀ t, H.record s t = H := fun t => by
      unfold History.record
      rw [hp]
    rw [hquiet]
    exact h.quiet rfl rfl rfl (by rw [hp]; rfl) (by rw [hp]; rfl)
  | @popReady m c start L hp hc hpop =>
    have hquiet : ∀ t, H.record s t = H := fun t => by
      unfold History.record
      rw [hp]
    rw [hquiet]
    cases start <;> exact h.quiet rfl rfl rfl (by rw [hp]; rfl) (by rw [hp]; rfl)
  | noneCompleted hp =>
    have hquiet : H.record s { s with pc := Pc.checkFinished } = H := by
      unfold History.record
      rw [hp]
    rw [hquiet]
    exact h.quiet rfl rfl rfl (by rw [hp]; rfl) (by rw [hp]; rfl)
  | startNative hp hb =>
    have hquiet : ∀ t, H.record s t = H := fun t => by
      unfold History.record
      rw [hp]
    rw [hquiet]
    exact h.startNative hp hb
  | @trackNull g i m batch hp =>
    have hrecord : ∀ t, H.record s t = { H with events := H.events ++ retireEvents s g i default } := fun t => by
      unfold History.record
      rw [hp]
    rw [hrecord]
    exact h.trackNull hctx hp
  | @trackActive g i m r batch hp =>
    have hrecord : ∀ t, H.record s t = { H with registered := H.registered ++ [(r, g, i)] } := fun t => by
      unfold History.record
      rw [hp]
    rw [hrecord]
    exact h.register hctx hp
  | testSome hp hne hnodup hlt hdone => exact h.testSome hctx hp hdone
  | @stillPending k status reported r hp hr =>
    have hquiet : ∀ t, H.record s t = H := fun t => by
      unfold History.record
      rw [hp]
      simp only [hr]
    rw [hquiet]
    exact h.stillPending hp hr
  | @retireActive k g i status reported hp hr ha =>
    have hrecord : ∀ t, H.record s t = { H with events := H.events ++ retireEvents s g i status } := fun t => by
      unfold History.record
      rw [hp]
      simp only [hr, ha]
    rw [hrecord]
    exact h.retireActive hctx hp hr ha
  | compact hp =>
    have hquiet : ∀ t, H.record s t = H := fun t => by
      unfold History.record
      rw [hp]
    rw [hquiet]
    exact h.compact hctx hp

/-- One step of a context with its history. -/
theorem step {x y : Context α R S × History R S} (h : History.Inv x.1 x.2) (hctx : Mpi.Inv x.1)
    (hst : HistoryStep x y) : History.Inv y.1 y.2 := by
  cases hst with
  | other hst hpc => exact h.other hctx hst hpc
  | owner hst hpc => exact h.owner hctx hst hpc

end History.Inv

/-! ## Every run -/

section Runs

variable [Inhabited S] {x : Context α R S × History R S}

/-- A context with its history runs like the context. -/
theorem system_of_historySystem (h : (historySystem α R S).Reachable x) : (system α R S).Reachable x.1 := by
  induction h with
  | init h =>
    rw [h]
    exact StepSystem.Reachable.init rfl
  | step _ hst ih =>
    cases hst with
    | other hst _ => exact ih.step hst
    | owner hst _ => exact ih.step hst

theorem History.inv_of_reachable (h : (historySystem α R S).Reachable x) : History.Inv x.1 x.2 := by
  refine StepSystem.Reachable.invariant (P := fun x => History.Inv x.1 x.2) (fun y hy => ?_) (fun y z hy hinv hst => ?_) h
  · rw [hy]
    exact History.Inv.initial
  · exact hinv.step (Mpi.inv_of_reachable (system_of_historySystem hy)) hst

/-- The two vectors, the registrations and what happened to the groups agree. -/
structure RequestsAligned (s : Context α R S) (H : History R S) : Prop where
  length : s.requests.length = s.active.length
  /-- The positions hold a part of the registrations, in their order: an entry of `m_active` is what
  its request was registered under. -/
  aligned : ∃ E, Aligned s.requests s.active H.registered E
  /-- No two requests are registered under the same group and index. -/
  unique : (H.registered.map Prod.snd).Nodup
  /-- Each request of a group is still to be registered, waiting for its completion, or retired, and
  it is retired once. -/
  accounted : (s.pc.keysLeft ++ liveKeys s.requests s.active s.pc.reported ++ retiredKeys H.events).Perm
    (groupKeys s.groups)
  /-- It is retired with the status of its own request, or with an empty one if it was null. -/
  own : ∀ g i status, GroupEvent.retired g i status ∈ H.events →
    (∃ G, s.groups[g]? = some G ∧ G.statuses[i]? = some status) ∧
      (∀ r, (r, g, i) ∈ H.registered → (r, status) ∈ H.answers) ∧
      ((∀ r, (r, g, i) ∉ H.registered) → status = default)
  /-- A group is completed at most once, and only when all of its requests are retired. -/
  only : ∀ l₁ g sts l₂, H.events = l₁ ++ GroupEvent.completed g sts :: l₂ →
    (∃ G, s.groups[g]? = some G ∧ sts.length = G.statuses.length) ∧
      (∀ i < sts.length, ∃ status, sts[i]? = some status ∧ GroupEvent.retired g i status ∈ l₁) ∧
      ∀ sts', GroupEvent.completed g sts' ∉ l₁
  /-- When they are, it is. -/
  all : ∀ g G, s.groups[g]? = some G → (∀ i < G.statuses.length, (g, i) ∈ retiredKeys H.events) →
    ∃ sts, GroupEvent.completed g sts ∈ H.events
  nonneg : ∀ G ∈ s.groups, 0 ≤ G.remaining

/-- **Requests stay aligned.**  In every state of every run, whatever `MPI_Testsome` completes and in
whatever order: `m_requests` and `m_active` have equal length and an entry of `m_active` is the group
and the index that its request was registered under; each request is retired once, with its own
status at its own index; a group is completed once, when and only when all of its requests are
retired; and no group is retired below zero. -/
theorem requests_stay_aligned (s : Context α R S) (H : History R S) (h : (historySystem α R S).Reachable (s, H)) :
    RequestsAligned s H := by
  have hctx := Mpi.inv_of_reachable (system_of_historySystem h)
  have hinv := History.inv_of_reachable h
  refine ⟨hctx.aligned, ?_, hinv.unique, hinv.events.accounted, fun g i status he => ?_, hinv.events.completed,
    hinv.events.complete, fun G hG => ?_⟩
  · obtain ⟨E, haligned, -⟩ := hinv.entries
    exact ⟨E, haligned⟩
  · exact ⟨hinv.events.statuses g i status he, hinv.answered g i status he, hinv.null g i status he⟩
  · obtain ⟨g, hg⟩ := List.mem_iff_getElem?.mp hG
    rw [hctx.remaining g G hg]
    exact Int.natCast_nonneg _

/-- A run that registers a null and an active request and retires both. -/
theorem exists_reachable_retired :
    ∃ s H, (historySystem Unit ℕ ℕ).Reachable (s, H) ∧ H.registered = [(7, 0, 1)] ∧
      H.events = [GroupEvent.retired 0 0 0, GroupEvent.retired 0 1 5, GroupEvent.completed 0 [0, 5]] := by
  have h0 : (historySystem Unit ℕ ℕ).Reachable (Context.initial, ⟨[], [], []⟩) := StepSystem.Reachable.init rfl
  have h1 := (h0.step (HistoryStep.other (Step.submit CommandKind.submission rfl) rfl)).step
    (HistoryStep.owner (Step.progress rfl rfl) nofun)
  have h2 := (h1.step (HistoryStep.owner (Step.popCommand rfl rfl) nofun)).step
    (HistoryStep.owner (@Step.startNative Unit ℕ ℕ _ _ _ _ [none, some 7] rfl nofun) nofun)
  have h3 := (h2.step (HistoryStep.owner (Step.trackNull rfl) nofun)).step
    (HistoryStep.owner (Step.trackActive rfl) nofun)
  have h4 := (h3.step (HistoryStep.owner (Step.tracked rfl) nofun)).step
    (HistoryStep.owner (Step.queueDrained rfl (Or.inr rfl)) nofun)
  have h5 := (h4.step (HistoryStep.owner (Step.lanesDrained rfl (Or.inr fun c hc => by cases hc)) nofun)).step
    (HistoryStep.owner (@Step.testSome Unit ℕ ℕ _ _ [(0, 5)] [0] rfl nofun (by decide) (by decide) (by decide)) nofun)
  have h6 := h5.step (HistoryStep.owner (Step.retireActive rfl rfl rfl) nofun)
  exact ⟨_, _, h6, rfl, rfl⟩

theorem requests_stay_aligned_retired : ∃ s : Context Unit ℕ ℕ, ∃ H, RequestsAligned s H ∧
    GroupEvent.completed 0 [0, 5] ∈ H.events := by
  obtain ⟨s, H, h, -, hevents⟩ := exists_reachable_retired
  exact ⟨s, H, requests_stay_aligned s H h, by rw [hevents]; simp⟩

end Runs

end Mpi
end Spearhed
