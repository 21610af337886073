import Spearhed.Communication.GridController

/-!
# All ranks of a grid

The Cartesian communicator numbers the ranks in row-major order of their base coordinates.  Every
rank slides on its own, and all of them the same number of times.

* `ranks_eq_iff`: the table of a rank names exactly the rank that stands one step away.
* `topologyConsistent_iff`: the topology is consistent after any number of slides, and one call of
  `setStateAfterSlides` is as good as the slides unless they make up whole turns.
-/

namespace Spearhed
namespace Communication

open Library Mappings

/-- A grid of ranks, periodic on the axes where the entry is not zero. -/
structure RankGrid (n : ℕ) where
  dims : DataSpace (n + 2)
  periodic : DataSpace (n + 2)
  dims_pos : ∀ d, 0 < dims d

namespace RankGrid

variable {n : ℕ} (G : RankGrid n)

def ranks : Set ℤ := Set.Ico 0 (∏ d, G.dims d)

def baseCoordinates (rank : ℤ) : DataSpace (n + 2) := rowMajorCoordinates G.dims rank

/-- A rank before the first slide; its table of ranks holds what the memory held. -/
def start (subGrid : SubGrid n) (uninitialised : ℕ → ℤ) (rank : ℤ) : GridController n :=
  ⟨CommunicatorMPI.init G.dims G.periodic (G.baseCoordinates rank) uninitialised, subGrid⟩

/-- What the ranks start from besides the grid. -/
structure Memory (n : ℕ) where
  subGrid : ℤ → SubGrid n
  uninitialised : ℤ → ℕ → ℤ

variable (mem : Memory n)

def controller (rank : ℤ) : GridController n := G.start (mem.subGrid rank) (mem.uninitialised rank) rank

/-- The communicator of a rank after some slides. -/
def slid (numSlides : ℕ) (rank : ℤ) : CommunicatorMPI n := ((G.controller mem rank).slides numSlides).2.comm

/-- Rank `B` stands one step `v` away from rank `A`, around the end of periodic axes only. -/
def IsNeighbour (numSlides : ℕ) (v : DataSpace (n + 2)) (A B : ℤ) : Prop :=
  B ∈ G.ranks ∧ ∀ d, (G.slid mem numSlides B).coordinates d =
    if G.periodic d = 0 then (G.slid mem numSlides A).coordinates d + v d
    else ((G.slid mem numSlides A).coordinates d + v d) % G.dims d

/-- What the claim about slides says of a grid. -/
structure TopologyConsistent (numSlides : ℕ) : Prop where
  inside : ∀ A ∈ G.ranks, (G.slid mem numSlides A).coordinates ∈ box 0 G.dims
  distinct : ∀ A ∈ G.ranks, ∀ B ∈ G.ranks,
    (G.slid mem numSlides A).coordinates = (G.slid mem numSlides B).coordinates → A = B
  symmetric : ∀ A ∈ G.ranks, ∀ B ∈ G.ranks, ∀ e e', 1 ≤ e → e < NumberOfExchanges (n + 2) →
    Mask.getMirroredExchangeType e = some e' →
    ((G.slid mem numSlides A).ranks e = B ↔ (G.slid mem numSlides B).ranks e' = A)
  mask : ∀ A ∈ G.ranks, ∀ e, (G.slid mem numSlides A).communicationMask.isSet e = true ↔
    (1 ≤ e ∧ e < NumberOfExchanges (n + 2)) ∧
      ∃ B, G.IsNeighbour mem numSlides (getRelativeDirections (n + 2) e) A B
  closedForm : ∀ A ∈ G.ranks,
    (G.controller mem A).setStateAfterSlides numSlides = (G.controller mem A).slides numSlides

section States

variable {G mem} {numSlides : ℕ} {A B : ℤ}

theorem baseCoordinates_mem (rank : ℤ) : G.baseCoordinates rank ∈ CommunicatorMPI.grid G.dims := fun d =>
  rowMajorCoordinates_mem G.dims_pos d

theorem init_updated (numProcesses periodic base : DataSpace (n + 2)) (uninitialised : ℕ → ℤ) :
    (CommunicatorMPI.init numProcesses periodic base uninitialised).updateCoordinates =
      CommunicatorMPI.init numProcesses periodic base uninitialised := by
  refine CommunicatorMPI.updateCoordinates_congr rfl rfl rfl rfl fun i hi => ?_
  rw [CommunicatorMPI.init, CommunicatorMPI.updateCoordinates_ranks]
  exact if_neg hi

theorem controller_dims (mem : Memory n) (A : ℤ) : (G.controller mem A).comm.dims = G.dims := rfl

theorem controller_baseCoordinates (A : ℤ) : (G.controller mem A).comm.baseCoordinates = G.baseCoordinates A := rfl

theorem controller_yoffset (A : ℤ) : (G.controller mem A).comm.yoffset = 0 := rfl

theorem controller_updated (A : ℤ) : (G.controller mem A).comm.updateCoordinates = (G.controller mem A).comm :=
  init_updated _ _ _ _

theorem controller_snd (A : ℤ) :
    ((G.controller mem A).setStateAfterSlides numSlides).2 = ((G.controller mem A).slides numSlides).2 :=
  GridController.setStateAfterSlides_snd (controller_dims mem A ▸ G.dims_pos 1) (controller_yoffset A)
    (controller_updated A) numSlides

theorem controller_fst_iff (A : ℤ) :
    ((G.controller mem A).setStateAfterSlides numSlides).1 = ((G.controller mem A).slides numSlides).1 ↔
      (numSlides = 0 ∨ ¬ G.dims 1 ∣ numSlides ∨ G.baseCoordinates A 1 ≠ G.dims 1 - 1) := by
  have hflag := GridController.setStateAfterSlides_fst_iff (controller_dims mem A ▸ G.dims_pos 1)
    (controller_yoffset A) (baseCoordinates_mem A) (controller_updated A) numSlides
  rwa [controller_dims mem, controller_baseCoordinates] at hflag

/-- The state of a rank, as its communicator was slid. -/
theorem slid_eq (numSlides : ℕ) (rank : ℤ) :
    G.slid mem numSlides rank =
      ((CommunicatorMPI.init G.dims G.periodic (G.baseCoordinates rank) (mem.uninitialised rank)).slides numSlides).2 :=
  GridController.slides_comm numSlides

theorem slid_dims (numSlides : ℕ) (rank : ℤ) : (G.slid mem numSlides rank).dims = G.dims := by
  rw [slid_eq, CommunicatorMPI.slides_dims]
  rfl

theorem slid_periodic (numSlides : ℕ) (rank : ℤ) : (G.slid mem numSlides rank).periodic = G.periodic := by
  rw [slid_eq, CommunicatorMPI.slides_periodic]
  rfl

theorem slid_yoffset (numSlides : ℕ) (rank : ℤ) :
    (G.slid mem numSlides rank).yoffset = CommunicatorMPI.offsetAfter (G.dims 1) numSlides := by
  rw [slid_eq, CommunicatorMPI.slides_yoffset (G.dims_pos 1) rfl]
  rfl

theorem slid_updated (numSlides : ℕ) (rank : ℤ) :
    (G.slid mem numSlides rank).updateCoordinates = G.slid mem numSlides rank := by
  rw [slid_eq]
  exact CommunicatorMPI.slides_updated (init_updated _ _ _ _) numSlides

theorem slid_coordinates (numSlides : ℕ) (rank : ℤ) :
    (G.slid mem numSlides rank).coordinates =
      CommunicatorMPI.slidCoordinates G.dims (G.baseCoordinates rank) numSlides := by
  rw [slid_eq]
  exact CommunicatorMPI.slides_coordinates (G.dims_pos 1) (baseCoordinates_mem rank) rfl (init_updated _ _ _ _) numSlides

theorem rowMajorIndex_baseCoordinates {rank : ℤ} (hrank : rank ∈ G.ranks) :
    rowMajorIndex G.dims (G.baseCoordinates rank) = rank :=
  rowMajorIndex_rowMajorCoordinates G.dims_pos hrank

theorem slid_coordinates_mem (numSlides : ℕ) (rank : ℤ) :
    (G.slid mem numSlides rank).coordinates ∈ CommunicatorMPI.grid G.dims := by
  rw [slid_coordinates]
  exact CommunicatorMPI.slidCoordinates_mem G.dims_pos (baseCoordinates_mem rank) numSlides

theorem slid_coordinates_inj (hA : A ∈ G.ranks) (hB : B ∈ G.ranks)
    (h : (G.slid mem numSlides A).coordinates = (G.slid mem numSlides B).coordinates) : A = B := by
  rw [slid_coordinates, slid_coordinates] at h
  have hbase := CommunicatorMPI.slidCoordinates_injOn numSlides (baseCoordinates_mem A) (baseCoordinates_mem B) h
  rw [← rowMajorIndex_baseCoordinates hA, hbase, rowMajorIndex_baseCoordinates hB]

/-- Some rank starts at the upper end of the y axis. -/
theorem exists_rank_at_end (G : RankGrid n) : ∃ A ∈ G.ranks, G.baseCoordinates A 1 = G.dims 1 - 1 := by
  let base : DataSpace (n + 2) := fun d => G.dims d - 1
  have hbase : ∀ d, 0 ≤ base d ∧ base d < G.dims d := fun d =>
    ⟨Int.sub_nonneg_of_le (G.dims_pos d), sub_one_lt _⟩
  refine ⟨rowMajorIndex G.dims base, rowMajorIndex_mem G.dims_pos hbase, ?_⟩
  exact congrFun (rowMajorCoordinates_rowMajorIndex G.dims_pos hbase) 1

/-- The rank one step away, whether or not the grid ends in between. -/
def stepRank (G : RankGrid n) (v : DataSpace (n + 2)) (A : ℤ) : ℤ :=
  rowMajorIndex G.dims (CommunicatorMPI.baseNeighbour G.dims (G.baseCoordinates A) v)

theorem stepRank_mem (v : DataSpace (n + 2)) (A : ℤ) : G.stepRank v A ∈ G.ranks :=
  rowMajorIndex_mem G.dims_pos (CommunicatorMPI.baseNeighbour_mem G.dims_pos _ _)

theorem baseCoordinates_stepRank (v : DataSpace (n + 2)) (A : ℤ) :
    G.baseCoordinates (G.stepRank v A) = CommunicatorMPI.baseNeighbour G.dims (G.baseCoordinates A) v :=
  rowMajorCoordinates_rowMajorIndex G.dims_pos (CommunicatorMPI.baseNeighbour_mem G.dims_pos _ _)

theorem coordinates_stepRank (v : DataSpace (n + 2)) (A : ℤ) :
    (G.slid mem numSlides (G.stepRank v A)).coordinates =
      CommunicatorMPI.baseNeighbour G.dims (G.slid mem numSlides A).coordinates v := by
  rw [slid_coordinates, slid_coordinates, baseCoordinates_stepRank, CommunicatorMPI.slidCoordinates_baseNeighbour]

/-- The step does not leave the grid over an axis that is not periodic. -/
def StaysInside (G : RankGrid n) (mem : Memory n) (numSlides : ℕ) (v : DataSpace (n + 2)) (A : ℤ) : Prop :=
  (G.slid mem numSlides A).neighbourExists ((G.slid mem numSlides A).coordinates + v)

theorem staysInside_iff (v : DataSpace (n + 2)) :
    G.StaysInside mem numSlides v A ↔ ∀ d, G.periodic d = 0 →
      0 ≤ (G.slid mem numSlides A).coordinates d + v d ∧ (G.slid mem numSlides A).coordinates d + v d < G.dims d := by
  refine forall_congr' fun d => ?_
  rw [slid_periodic, slid_dims, not_and, not_or, not_lt, ge_iff_le, not_le]
  rfl

/-- **The neighbour is the rank one step away**, when the step stays inside. -/
theorem isNeighbour_iff (hB : B ∈ G.ranks) (v : DataSpace (n + 2)) :
    G.IsNeighbour mem numSlides v A B ↔ G.StaysInside mem numSlides v A ∧ G.stepRank v A = B := by
  constructor
  · rintro ⟨-, h⟩
    have hinside : G.StaysInside mem numSlides v A := by
      refine (staysInside_iff v).mpr fun d hd => ?_
      have hBd := h d
      rw [if_pos hd] at hBd
      exact hBd ▸ slid_coordinates_mem numSlides B d
    refine ⟨hinside, slid_coordinates_inj (stepRank_mem v A) hB (?_ : (G.slid mem numSlides _).coordinates = _)⟩
    rw [coordinates_stepRank]
    funext d
    rw [h d, CommunicatorMPI.baseNeighbour]
    split
    · next hd =>
      obtain ⟨hlo, hhi⟩ := (staysInside_iff v).mp hinside d hd
      exact Int.emod_eq_of_lt hlo hhi
    · rfl
  · rintro ⟨hinside, rfl⟩
    refine ⟨stepRank_mem v A, fun d => ?_⟩
    rw [coordinates_stepRank, CommunicatorMPI.baseNeighbour]
    split
    · next hd =>
      obtain ⟨hlo, hhi⟩ := (staysInside_iff v).mp hinside d hd
      exact Int.emod_eq_of_lt hlo hhi
    · rfl

/-- A step back leads to where the step came from. -/
theorem isNeighbour_neg (hA : A ∈ G.ranks) {v : DataSpace (n + 2)} (h : G.IsNeighbour mem numSlides v A B) :
    G.IsNeighbour mem numSlides (-v) B A := by
  refine ⟨hA, fun d => ?_⟩
  obtain ⟨hlo, hhi⟩ : 0 ≤ (G.slid mem numSlides A).coordinates d ∧ (G.slid mem numSlides A).coordinates d < G.dims d :=
    slid_coordinates_mem numSlides A d
  have hBd := h.2 d
  rw [hBd, Pi.neg_apply]
  split
  · rw [add_neg_cancel_right]
  · rw [Int.emod_add_emod, add_neg_cancel_right, Int.emod_eq_of_lt hlo hhi]

/-! ## The tables -/

section Tables

variable (hn : n ≤ 1) {e : ℕ} (he : 1 ≤ e ∧ e < 3 ^ (n + 2))
include hn he

theorem neighbourCoordinates_eq (A : ℤ) :
    CommunicatorMPI.neighbourCoordinates (G.slid mem numSlides A).ownCoordinates e =
      (G.slid mem numSlides A).coordinates + getRelativeDirections (n + 2) e := by
  rw [← CommunicatorMPI.updateCoordinates_coordinates, slid_updated]
  exact funext fun d => congrArg _ (CommunicatorMPI.neighbourStep_eq hn he.2 d)

omit hn he in
theorem neighbourRank_step (v : DataSpace (n + 2)) (A : ℤ) :
    (G.slid mem numSlides A).neighbourRank ((G.slid mem numSlides A).coordinates + v) = G.stepRank v A := by
  rw [CommunicatorMPI.neighbourRank_eq (by rw [slid_dims]; exact G.dims_pos), stepRank, slid_dims]
  congr 1
  funext d
  rw [CommunicatorMPI.baseNeighbour, Pi.add_apply, slid_coordinates, slid_yoffset]
  by_cases hd : d = 1
  · subst hd
    rw [if_pos rfl, CommunicatorMPI.slidCoordinates, Function.update_self, CommunicatorMPI.offsetAfter, sub_neg_eq_add,
      add_assoc, Int.emod_add_emod, ← add_assoc, Int.add_emod_emod]
    congr 1
    ring
  · rw [if_neg hd, CommunicatorMPI.slidCoordinates, Function.update_of_ne hd]

/-- An entry of the table of a rank. -/
theorem slid_ranks (A : ℤ) [Decidable (G.StaysInside mem numSlides (getRelativeDirections (n + 2) e) A)] :
    (G.slid mem numSlides A).ranks e =
      if G.StaysInside mem numSlides (getRelativeDirections (n + 2) e) A then
        G.stepRank (getRelativeDirections (n + 2) e) A
      else -1 := by
  have hentry : (G.slid mem numSlides A).ranks e = (G.slid mem numSlides A).tableEntry e := by
    have hupdated := congrFun (CommunicatorMPI.updateCoordinates_ranks (G.slid mem numSlides A)) e
    rw [slid_updated] at hupdated
    exact hupdated.trans (if_pos ((CommunicatorMPI.mem_exchanges hn).mpr he))
  rw [hentry, CommunicatorMPI.tableEntry, neighbourCoordinates_eq hn he, neighbourRank_step]
  exact if_congr Iff.rfl rfl rfl

/-- **The table of a rank names its neighbours** and nothing else. -/
theorem ranks_eq_iff (hB : B ∈ G.ranks) :
    (G.slid mem numSlides A).ranks e = B ↔ G.IsNeighbour mem numSlides (getRelativeDirections (n + 2) e) A B := by
  classical
  rw [slid_ranks hn he, isNeighbour_iff hB]
  split
  · next hinside => rw [and_iff_right hinside]
  · next houtside =>
    have hne : (-1 : ℤ) ≠ B := fun h => absurd (h ▸ hB.1) (by decide)
    exact iff_of_false hne fun h => houtside h.1

omit hn he in
theorem staysInside_iff_exists :
    G.StaysInside mem numSlides (getRelativeDirections (n + 2) e) A ↔
      ∃ B, G.IsNeighbour mem numSlides (getRelativeDirections (n + 2) e) A B := by
  constructor
  · intro hinside
    exact ⟨_, (isNeighbour_iff (stepRank_mem _ A) _).mpr ⟨hinside, rfl⟩⟩
  · rintro ⟨B, hB⟩
    exact ((isNeighbour_iff hB.1 _).mp hB).1

end Tables

/-- The mask has the directions of the table. -/
theorem isSet_mask (hn : n ≤ 1) (A : ℤ) {e : ℕ} :
    (G.slid mem numSlides A).communicationMask.isSet e = true ↔
      (1 ≤ e ∧ e < 3 ^ (n + 2)) ∧ G.StaysInside mem numSlides (getRelativeDirections (n + 2) e) A := by
  have hlt : ∀ i ∈ CommunicatorMPI.exchanges (n + 2), i < 32 := by
    intro i hi
    have hi' := ((CommunicatorMPI.mem_exchanges hn).mp hi).2
    interval_cases n <;> omega
  rw [← slid_updated, CommunicatorMPI.updateCoordinates, CommunicatorMPI.isSet_foldl_visitExchange hlt,
    CommunicatorMPI.mem_exchanges hn, Mask.isSet_empty]
  simp only [Bool.false_eq_true, false_or]
  refine and_congr_right fun he => ?_
  rw [neighbourCoordinates_eq hn he]
  rfl

/-- **The topology of every grid is consistent**, but for the result of one call over whole turns. -/
theorem topologyConsistent_iff_of_le (hn : n ≤ 1) (hdirections : NumberOfExchanges (n + 2) = 3 ^ (n + 2)) :
    G.TopologyConsistent mem numSlides ↔ (numSlides = 0 ∨ ¬ G.dims 1 ∣ numSlides) := by
  constructor
  · intro h
    obtain ⟨A, hA, hend⟩ := exists_rank_at_end G
    rcases (controller_fst_iff A).mp (congrArg Prod.fst (h.closedForm A hA)) with hzero | hndvd | hne
    · exact Or.inl hzero
    · exact Or.inr hndvd
    · exact absurd hend hne
  · intro hslides
    exact {
      inside := fun A _ => slid_coordinates_mem numSlides A
      distinct := fun A hA B hB h => slid_coordinates_inj hA hB h
      symmetric := fun A hA B hB e e' he he' hmirror => by
        have hlt : e < 3 ^ (n + 2) := hdirections ▸ he'
        obtain ⟨m, hm, hm', hoffsets⟩ := Mask.getRelativeDirections_mirrored (by omega) hlt
        obtain rfl : m = e' := Option.some_injective _ (hm.symm.trans hmirror)
        have hpos : 1 ≤ m := by
          refine Nat.one_le_iff_ne_zero.mpr fun hzero => Nat.one_le_iff_ne_zero.mp he ?_
          rw [hzero, getRelativeDirections_zero, eq_comm, neg_eq_zero] at hoffsets
          exact (getRelativeDirections_eq_zero hlt).mp hoffsets
        rw [ranks_eq_iff hn ⟨he, hlt⟩ hB, ranks_eq_iff hn ⟨hpos, hm'⟩ hA, hoffsets]
        refine ⟨isNeighbour_neg hA, fun hback => ?_⟩
        have hforth := isNeighbour_neg hB hback
        rwa [neg_neg] at hforth
      mask := fun A _ e => by
        rw [isSet_mask hn, hdirections]
        exact and_congr_right fun _ => staysInside_iff_exists
      closedForm := fun A _ => Prod.ext ((controller_fst_iff A).mpr (by tauto)) (controller_snd A) }

end States

/-- **The topology stays consistent under slides**, in two and in three dimensions, exactly for slides
that do not make up whole turns of the grid in y. -/
theorem topologyConsistent_iff (G : RankGrid 0) (mem : Memory 0) (G' : RankGrid 1) (mem' : Memory 1) (numSlides : ℕ) :
    (G.TopologyConsistent mem numSlides ↔ (numSlides = 0 ∨ ¬ G.dims 1 ∣ numSlides)) ∧
      (G'.TopologyConsistent mem' numSlides ↔ (numSlides = 0 ∨ ¬ G'.dims 1 ∣ numSlides)) :=
  ⟨topologyConsistent_iff_of_le zero_le_one rfl, topologyConsistent_iff_of_le le_rfl rfl⟩

/-- One slide of two ranks on the y axis, and of a grid of twelve: the rank at the end is at the start afterwards. -/
theorem topologyConsistent_iff_one_slide :
    let G : RankGrid 0 := ⟨![1, 2], ![1, 1], by decide⟩
    let mem : Memory 0 := ⟨fun _ => ⟨![8, 8], ![0, 0], ![0, 0]⟩, fun _ _ => 0⟩
    let G' : RankGrid 1 := ⟨![2, 3, 2], ![1, 1, 0], by decide⟩
    let mem' : Memory 1 := ⟨fun _ => ⟨![8, 8, 8], ![0, 0, 0], ![0, 0, 0]⟩, fun _ _ => 0⟩
    (G.TopologyConsistent mem 1 ∧ G'.TopologyConsistent mem' 1) ∧
      (1 ∈ G.ranks ∧ (G.controller mem 1).comm.coordinates = ![0, 1]) ∧
        (G.slid mem 1 1).coordinates = ![0, 0] ∧ (G.slid mem 1 0).coordinates = ![0, 1] := by
  intro G mem G' mem'
  have hiff := topologyConsistent_iff G mem G' mem' 1
  refine ⟨⟨hiff.1.mpr (Or.inr ?_), hiff.2.mpr (Or.inr ?_)⟩, ⟨And.intro (by decide) (by decide +kernel), ?_⟩, ?_, ?_⟩
  all_goals decide +kernel

/-- Two ranks on the y axis, two slides: the upper one is back at the end, and one call says it is not. -/
theorem setStateAfterSlides_misses_end :
    ∃ (G : RankGrid 0) (mem : Memory 0), G.dims = ![1, 2] ∧ 1 ∈ G.ranks ∧
      ((G.controller mem 1).setStateAfterSlides 2).1 = false ∧ ((G.controller mem 1).slides 2).1 = true ∧
        ¬ G.TopologyConsistent mem 2 := by
  let G : RankGrid 0 := ⟨![1, 2], ![1, 1], by decide⟩
  let mem : Memory 0 := ⟨fun _ => ⟨![8, 8], ![0, 0], ![0, 0]⟩, fun _ _ => 0⟩
  have hmem : (1 : ℤ) ∈ G.ranks := And.intro (by decide) (by decide +kernel)
  refine ⟨G, mem, rfl, hmem, by decide +kernel, by decide +kernel, fun h => ?_⟩
  have hflags := congrArg Prod.fst (h.closedForm 1 hmem)
  revert hflags
  decide +kernel

end RankGrid
end Communication
end Spearhed
