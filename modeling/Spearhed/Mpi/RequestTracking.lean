import Spearhed.Library.Compaction
import Spearhed.Mpi.Context

/-!
# Which requests a group still waits for

A group counts down from the size of its batch: null requests retire while the batch is registered,
active ones when `MPI_Testsome` has completed them.  Between the two, the requests a group waits for
sit at some positions of `m_requests` and `m_active`.  `liveCount` counts these positions.  During
the retire loop a completed request is null already but still counts until its report is handled.

The lemmas say how each step of the owner changes the count.  The compaction loop runs over both
vectors at once and is reduced to `Library.slide` on each of them.
-/

namespace Spearhed
namespace Mpi

open Library Context

variable {α R S : Type}

/-- The request at position `k` has not been retired. -/
def isLive (requests : List (Option R)) (reported : List ℕ) (k : ℕ) : Bool :=
  (requests[k]?).any Option.isSome || decide (k ∈ reported)

/-- Position `k` of `m_active` belongs to group `g`. -/
def isIn (active : List (ℕ × ℕ)) (g k : ℕ) : Bool :=
  (active[k]?).any fun a => decide (a.1 = g)

/-- How many unretired requests of group `g` are registered. -/
def liveCount (requests : List (Option R)) (active : List (ℕ × ℕ)) (reported : List ℕ) (g : ℕ) :
    ℕ :=
  (List.range requests.length).countP fun k => isLive requests reported k && isIn active g k

/-- Registering an active request. -/
theorem liveCount_append (requests : List (Option R)) (active : List (ℕ × ℕ))
    (h : requests.length = active.length) (r : R) (g g' i : ℕ) :
    liveCount (requests ++ [some r]) (active ++ [(g, i)]) [] g' =
      liveCount requests active [] g' + if g = g' then 1 else 0 := by
  rw [liveCount, List.length_append, List.length_singleton, List.range_succ, List.countP_append,
    liveCount]
  refine congrArg₂ _ (List.countP_congr fun k hk => ?_) ?_
  · have hlt := List.mem_range.mp hk
    rw [isLive, isLive, isIn, isIn, List.getElem?_append_left hlt,
      List.getElem?_append_left (by omega)]
  · rw [List.countP_singleton, isLive, isIn, List.getElem?_append_right le_rfl, h,
      List.getElem?_append_right le_rfl]
    simp

/-- With no null request, every registered position counts. -/
theorem liveCount_of_nonnull {requests : List (Option R)} (active : List (ℕ × ℕ))
    (h : requests.length = active.length) (hne : ∀ r ∈ requests, r ≠ none) (reported : List ℕ)
    (g : ℕ) : liveCount requests active reported g = active.countP fun a => decide (a.1 = g) := by
  rw [← countP_range_getElem? (fun a : ℕ × ℕ => decide (a.1 = g)) active, liveCount, h]
  refine List.countP_congr fun k hk => ?_
  have hlt : k < requests.length := by
    have := List.mem_range.mp hk
    omega
  have hlive : isLive requests reported k = true := by
    rw [isLive, List.getElem?_eq_getElem hlt, Option.any_some,
      Option.isSome_iff_ne_none.mpr (hne _ (List.getElem_mem hlt)), Bool.true_or]
  rw [hlive, Bool.true_and, isIn]

/-- Completed requests count until their report is handled. -/
theorem liveCount_nullAt {requests : List (Option R)} (active : List (ℕ × ℕ))
    (hne : ∀ r ∈ requests, r ≠ none) {done reported : List ℕ}
    (hdone : ∀ k ∈ done, k ∈ reported) (g : ℕ) :
    liveCount (nullAt requests done) active reported g = liveCount requests active [] g := by
  rw [liveCount, liveCount, nullAt, List.length_mapIdx]
  refine List.countP_congr fun k hk => ?_
  have hlt := List.mem_range.mp hk
  have hsome : (requests[k]).isSome = true :=
    Option.isSome_iff_ne_none.mpr (hne _ (List.getElem_mem hlt))
  rw [isLive, isLive, List.getElem?_mapIdx, List.getElem?_eq_getElem hlt]
  by_cases hd : k ∈ done
  · simp [hd, hdone k hd, hsome]
  · simp [hd, hsome]

/-- A reported request that is still active goes on counting. -/
theorem liveCount_stillPending {requests : List (Option R)} (active : List (ℕ × ℕ)) {k : ℕ} {r : R}
    (hr : requests[k]? = some (some r)) (reported : List ℕ) (g : ℕ) :
    liveCount requests active reported g = liveCount requests active (k :: reported) g := by
  refine List.countP_congr fun j _ => ?_
  have hlive : isLive requests reported j = isLive requests (k :: reported) j := by
    rw [isLive, isLive]
    rcases eq_or_ne j k with rfl | hne
    · simp [hr]
    · simp [hne]
  rw [hlive]

/-- Retiring a completed request takes one off its group. -/
theorem liveCount_retire {requests : List (Option R)} {active : List (ℕ × ℕ)} {k g i : ℕ}
    (hr : requests[k]? = some none) (ha : active[k]? = some (g, i)) {reported : List ℕ}
    (hnot : k ∉ reported) (g' : ℕ) :
    liveCount requests active (k :: reported) g' =
      liveCount requests active reported g' + if g = g' then 1 else 0 := by
  have hlt : k < requests.length := (List.getElem?_eq_some_iff.mp hr).1
  have hcount := countP_range_of_ne_at
    (P := fun j => isLive requests (k :: reported) j && isIn active g' j)
    (Q := fun j => isLive requests reported j && isIn active g' j) hlt (by
      intro j _ hne
      simp [isLive, hne])
  simp only [isLive, isIn, hr, ha] at hcount
  simp only [liveCount, isLive, isIn]
  by_cases hg : g = g'
  · simpa [hg, hnot] using hcount
  · simpa [hg, hnot] using hcount

/-! ## Compaction -/

/-- The positions that survive. -/
def survives (requests : List (Option R)) (k : ℕ) : Bool := (requests[k]?).any Option.isSome

/-- The compaction loop slides both vectors. -/
theorem foldl_compactStep {requests : List (Option R)} {active : List (ℕ × ℕ)}
    (h : requests.length = active.length) {i : ℕ} (hi : i ≤ requests.length) :
    (List.range i).foldl compactStep (requests, active, 0) =
      ((slide (survives requests) requests i).1, (slide (survives requests) active i).1,
        (slide (survives requests) requests i).2) := by
  induction i with
  | zero => rfl
  | succ i ih =>
    have hout : (slide (survives requests) active i).2 = (slide (survives requests) requests i).2 := by
      rw [slide_snd, slide_snd]
    have hr := (slide_spec (survives requests) requests (i := i) (by omega)).2.2.2 i le_rfl
    have ha := (slide_spec (survives requests) active (i := i) (by omega)).2.2.2 i le_rfl
    rw [List.range_succ, List.foldl_append, ih (by omega), List.foldl_cons, List.foldl_nil,
      compactStep, slide, slide]
    dsimp only
    rw [hr, ha, hout, List.getElem?_eq_getElem (by omega : i < active.length),
      List.getElem?_eq_getElem (by omega : i < requests.length)]
    rcases hx : requests[i] with _ | x
    · have hno : survives requests i = false := by
        rw [survives, List.getElem?_eq_getElem (by omega), hx]
        rfl
      simp [hno]
    · have hyes : survives requests i = true := by
        rw [survives, List.getElem?_eq_getElem (by omega), hx]
        rfl
      simp [hyes]

/-- What `progressRequests` leaves in the two vectors. -/
theorem compact_eq {s : Context α R S} (h : s.requests.length = s.active.length) :
    s.compact.requests = keptBelow (survives s.requests) s.requests s.requests.length ∧
      s.compact.active = keptBelow (survives s.requests) s.active s.active.length := by
  have hout : (slide (survives s.requests) s.requests s.requests.length).2 =
      (slide (survives s.requests) s.active s.active.length).2 := by
    rw [slide_snd, slide_snd, h]
  rw [compact, foldl_compactStep h le_rfl]
  refine ⟨(slide_spec (survives s.requests) s.requests le_rfl).2.2.1, ?_⟩
  dsimp only
  rw [hout, h]
  exact (slide_spec (survives s.requests) s.active le_rfl).2.2.1

/-- No null request survives. -/
theorem ne_none_of_mem_compact {s : Context α R S} (h : s.requests.length = s.active.length)
    {r : Option R} (hr : r ∈ s.compact.requests) : r ≠ none := by
  rw [(compact_eq h).1, keptBelow, List.mem_filterMap] at hr
  obtain ⟨k, hk, hget⟩ := hr
  have hkeep : survives s.requests k = true := (List.mem_filter.mp hk).2
  rw [survives, hget] at hkeep
  exact Option.isSome_iff_ne_none.mp hkeep

theorem length_keptBelow {β : Type*} (keep : ℕ → Bool) (xs : List β) {i : ℕ}
    (hi : i ≤ xs.length) : (keptBelow keep xs i).length = ((List.range i).filter keep).length := by
  rw [← slide_snd keep xs, ← (slide_spec keep xs hi).2.2.1, List.length_take]
  have := slide_spec keep xs hi
  omega

theorem length_compact {s : Context α R S} (h : s.requests.length = s.active.length) :
    s.compact.requests.length = s.compact.active.length := by
  rw [(compact_eq h).1, (compact_eq h).2, length_keptBelow _ _ le_rfl, length_keptBelow _ _ le_rfl,
    h]

/-- Compaction keeps what each group waits for. -/
theorem liveCount_compact {s : Context α R S} (h : s.requests.length = s.active.length) (g : ℕ) :
    liveCount s.compact.requests s.compact.active [] g =
      liveCount s.requests s.active [] g := by
  rw [liveCount_of_nonnull _ (length_compact h) (fun r hr => ne_none_of_mem_compact h hr),
    (compact_eq h).2, countP_keptBelow, liveCount, h]
  refine List.countP_congr fun k _ => ?_
  rw [survives, isLive, isIn]
  simp

theorem mem_active_of_mem_compact {s : Context α R S} (h : s.requests.length = s.active.length)
    {a : ℕ × ℕ} (ha : a ∈ s.compact.active) : a ∈ s.active := by
  rw [(compact_eq h).2, keptBelow, List.mem_filterMap] at ha
  obtain ⟨k, -, hget⟩ := ha
  exact List.mem_of_getElem? hget

end Mpi
end Spearhed
