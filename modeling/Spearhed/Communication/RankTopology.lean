import Spearhed.Communication.RankGrid
import Spearhed.Mappings.ExchangeMapping

/-!
# What a buffer asks the communicator

A buffer that exchanges its halo asks the communicator of its rank two things: whether a direction has
a neighbour, and which rank that is.  `RankTopology` holds the answers of all ranks together with what
makes them consistent; grids of two and three dimensions have one after any number of slides
(`RankGrid.topology`), and so has a row of ranks (`RankLine.topology`).
-/

namespace Spearhed
namespace Communication

open Library Mappings MappingDescription

variable {DIM : ℕ}

/-- Rank `B` stands one step `v` away from rank `A`, around the end of periodic axes only. -/
def StepsTo (dims periodic : DataSpace DIM) (v a b : DataSpace DIM) : Prop :=
  ∀ d, b d = if periodic d = 0 then a d + v d else (a d + v d) % dims d

/-- The answers of the communicators of all ranks. -/
structure RankTopology (DIM : ℕ) where
  dims : DataSpace DIM
  periodic : DataSpace DIM
  coordinates : ℤ → DataSpace DIM
  exchangeTypeToRank : ℤ → ℕ → ℤ
  communicationMask : ℤ → Mask
  dims_pos : ∀ d, 0 < dims d
  coordinates_mem : ∀ A ∈ Set.Ico 0 (∏ d, dims d), coordinates A ∈ box 0 dims
  coordinates_inj : ∀ A ∈ Set.Ico 0 (∏ d, dims d), ∀ B ∈ Set.Ico 0 (∏ d, dims d), coordinates A = coordinates B → A = B
  mask_iff : ∀ A ∈ Set.Ico 0 (∏ d, dims d), ∀ e ∈ exchangeDirections DIM, (communicationMask A).isSet e = true ↔
    ∃ B ∈ Set.Ico 0 (∏ d, dims d), StepsTo dims periodic (getRelativeDirections DIM e) (coordinates A) (coordinates B)
  rank_iff : ∀ A ∈ Set.Ico 0 (∏ d, dims d), ∀ B ∈ Set.Ico 0 (∏ d, dims d), ∀ e ∈ exchangeDirections DIM,
    exchangeTypeToRank A e = B ↔ StepsTo dims periodic (getRelativeDirections DIM e) (coordinates A) (coordinates B)

namespace RankTopology

variable (T : RankTopology DIM)

def ranks : Set ℤ := Set.Ico 0 (∏ d, T.dims d)

def IsNeighbour (v : DataSpace DIM) (A B : ℤ) : Prop :=
  B ∈ T.ranks ∧ StepsTo T.dims T.periodic v (T.coordinates A) (T.coordinates B)

variable {T} {A B : ℤ} {e : ℕ}

theorem isNeighbour_neg (hA : A ∈ T.ranks) {v : DataSpace DIM} (h : T.IsNeighbour v A B) : T.IsNeighbour (-v) B A := by
  refine ⟨hA, fun d => ?_⟩
  obtain ⟨hlo, hhi⟩ := T.coordinates_mem A hA d
  rw [h.2 d, Pi.neg_apply]
  split
  · rw [add_neg_cancel_right]
  · rw [Int.emod_add_emod, add_neg_cancel_right, Int.emod_eq_of_lt hlo hhi]

theorem isSet_iff (hA : A ∈ T.ranks) (he : e ∈ exchangeDirections DIM) :
    (T.communicationMask A).isSet e = true ↔ ∃ B, T.IsNeighbour (getRelativeDirections DIM e) A B :=
  T.mask_iff A hA e he

theorem exchangeTypeToRank_eq (hA : A ∈ T.ranks) (he : e ∈ exchangeDirections DIM)
    (h : T.IsNeighbour (getRelativeDirections DIM e) A B) : T.exchangeTypeToRank A e = B :=
  (T.rank_iff A hA B h.1 e he).mpr h.2

/-- A direction that is set has the rank of the table as its neighbour. -/
theorem isNeighbour_of_isSet (hA : A ∈ T.ranks) (he : e ∈ exchangeDirections DIM)
    (hset : (T.communicationMask A).isSet e = true) :
    T.IsNeighbour (getRelativeDirections DIM e) A (T.exchangeTypeToRank A e) := by
  obtain ⟨B, hB⟩ := (isSet_iff hA he).mp hset
  rwa [exchangeTypeToRank_eq hA he hB]

end RankTopology

/-! ## Grids of two and three dimensions -/

/-- The topology of a grid after some slides. -/
def RankGrid.topology {n : ℕ} (G : RankGrid n) (mem : RankGrid.Memory n) (numSlides : ℕ) (hn : n ≤ 1)
    (hdirections : NumberOfExchanges (n + 2) = 3 ^ (n + 2)) : RankTopology (n + 2) where
  dims := G.dims
  periodic := G.periodic
  coordinates A := (G.slid mem numSlides A).coordinates
  exchangeTypeToRank A := (G.slid mem numSlides A).ranks
  communicationMask A := (G.slid mem numSlides A).communicationMask
  dims_pos := G.dims_pos
  coordinates_mem A _ := RankGrid.slid_coordinates_mem numSlides A
  coordinates_inj _ hA _ hB h := RankGrid.slid_coordinates_inj hA hB h
  mask_iff A _ e he := by
    have he' : 1 ≤ e ∧ e < 3 ^ (n + 2) := ⟨he.1, hdirections ▸ he.2⟩
    rw [RankGrid.isSet_mask hn, and_iff_right he', RankGrid.staysInside_iff_exists]
    rfl
  rank_iff A _ B hB e he := by
    rw [RankGrid.ranks_eq_iff hn ⟨he.1, hdirections ▸ he.2⟩ hB]
    exact and_iff_right hB

/-! ## A row of ranks -/

/-- The ranks of one dimension.  There is no y axis and nothing slides. -/
structure RankLine where
  dims : DataSpace 1
  periodic : DataSpace 1
  dims_pos : ∀ d, 0 < dims d
  /-- What the tables of ranks held before their first update. -/
  uninitialised : ℤ → ℕ → ℤ

namespace RankLine

variable (L : RankLine)

def ranks : Set ℤ := Set.Ico 0 (∏ d, L.dims d)

def coordinates (rank : ℤ) : DataSpace 1 := rowMajorCoordinates L.dims rank

def NeighbourExists (mcoords : DataSpace 1) : Prop := ∀ j, ¬ (L.periodic j = 0 ∧ (mcoords j < 0 ∨ mcoords j ≥ L.dims j))

instance (mcoords : DataSpace 1) : Decidable (L.NeighbourExists mcoords) := inferInstanceAs (Decidable (∀ _, _))

def neighbourRank (mcoords : DataSpace 1) : ℤ :=
  rowMajorIndex L.dims fun dimension =>
    let coordinate := (mcoords dimension).tmod (L.dims dimension)
    if coordinate < 0 then coordinate + L.dims dimension else coordinate

/-- One turn of the loop over the directions. -/
def visitExchange (coords : DataSpace 1) (table : (ℕ → ℤ) × Mask) (i : ℕ) : (ℕ → ℤ) × Mask :=
  let mcoords : DataSpace 1 := fun d => coords d + CommunicatorMPI.neighbourStep (Mask.single i) d
  if L.NeighbourExists mcoords then (Function.update table.1 i (L.neighbourRank mcoords), table.2 + Mask.single i)
  else (Function.update table.1 i (-1), table.2)

def updateCoordinates (rank : ℤ) : (ℕ → ℤ) × Mask :=
  (CommunicatorMPI.exchanges 1).foldl (L.visitExchange (L.coordinates rank)) (L.uninitialised rank, {})

variable {L} {A B : ℤ} {e : ℕ}

theorem coordinates_mem (A : ℤ) : L.coordinates A ∈ box 0 L.dims := fun d => rowMajorCoordinates_mem L.dims_pos d

theorem coordinates_inj (hA : A ∈ L.ranks) (hB : B ∈ L.ranks) (h : L.coordinates A = L.coordinates B) : A = B := by
  rw [← rowMajorIndex_rowMajorCoordinates L.dims_pos hA, ← rowMajorIndex_rowMajorCoordinates L.dims_pos hB]
  exact congrArg _ h

/-- The coordinates a direction leads to, before they are taken around the end. -/
def target (L : RankLine) (rank : ℤ) (e : ℕ) : DataSpace 1 := L.coordinates rank + getRelativeDirections 1 e

theorem target_eq (he : e ∈ exchangeDirections 1) (rank : ℤ) :
    (fun d => L.coordinates rank d + CommunicatorMPI.neighbourStep (Mask.single e) d : DataSpace 1) = L.target rank e := by
  funext d
  obtain ⟨hlo, hhi⟩ : 1 ≤ e ∧ e < 3 := he
  have hstep : ∀ d : Fin 1, CommunicatorMPI.neighbourStep (Mask.single e) d = getRelativeDirections 1 e d := by
    interval_cases e <;> decide +kernel
  exact congrArg _ (hstep d)

/-- The rank and the mask of a direction, the two of which are visited one after the other. -/
theorem updateCoordinates_spec (he : e ∈ exchangeDirections 1) (rank : ℤ) :
    (L.updateCoordinates rank).1 e = (if L.NeighbourExists (L.target rank e) then L.neighbourRank (L.target rank e) else -1) ∧
      ((L.updateCoordinates rank).2.isSet e = true ↔ L.NeighbourExists (L.target rank e)) := by
  have hrun : L.updateCoordinates rank =
      L.visitExchange (L.coordinates rank) (L.visitExchange (L.coordinates rank) (L.uninitialised rank, {}) 1) 2 := rfl
  have h1 := target_eq (L := L) (show 1 ∈ exchangeDirections 1 by constructor <;> decide) rank
  have h2 := target_eq (L := L) (show 2 ∈ exchangeDirections 1 by constructor <;> decide) rank
  have hempty : ∀ i, ({ bitMask := 0#32 } : Mask).isSet i = false := Mask.isSet_empty
  obtain ⟨hlo, hhi⟩ : 1 ≤ e ∧ e < 3 := he
  rw [hrun, visitExchange, visitExchange, h1, h2]
  interval_cases e <;>
    by_cases hfirst : L.NeighbourExists (L.target rank 1) <;>
    by_cases hsecond : L.NeighbourExists (L.target rank 2) <;>
    simp [hfirst, hsecond, Mask.isSet_single, hempty]

theorem neighbourExists_iff (mcoords : DataSpace 1) :
    L.NeighbourExists mcoords ↔ ∀ d, L.periodic d = 0 → 0 ≤ mcoords d ∧ mcoords d < L.dims d := by
  refine forall_congr' fun d => ?_
  rw [not_and, not_or, not_lt, ge_iff_le, not_le]

theorem coordinates_neighbourRank (mcoords : DataSpace 1) (d : Fin 1) :
    L.coordinates (L.neighbourRank mcoords) d = mcoords d % L.dims d := by
  have hcoordinates : (fun dimension => mcoords dimension % L.dims dimension) ∈ box 0 L.dims := fun d =>
    ⟨Int.emod_nonneg _ (L.dims_pos d).ne', Int.emod_lt_of_pos _ (L.dims_pos d)⟩
  have hrank : L.neighbourRank mcoords = rowMajorIndex L.dims fun dimension => mcoords dimension % L.dims dimension :=
    congrArg _ (funext fun d => CommunicatorMPI.tmod_raised (L.dims_pos d))
  rw [coordinates, hrank, rowMajorCoordinates_rowMajorIndex L.dims_pos hcoordinates]

theorem neighbourRank_mem (mcoords : DataSpace 1) : L.neighbourRank mcoords ∈ L.ranks := by
  refine rowMajorIndex_mem L.dims_pos fun d => ?_
  have hraised := CommunicatorMPI.tmod_raised (a := mcoords d) (L.dims_pos d)
  exact ⟨hraised.symm ▸ Int.emod_nonneg _ (L.dims_pos d).ne', hraised.symm ▸ Int.emod_lt_of_pos _ (L.dims_pos d)⟩

/-- One step along the row, where it does not leave it. -/
theorem stepsTo_iff (hB : B ∈ L.ranks) : StepsTo L.dims L.periodic (getRelativeDirections 1 e) (L.coordinates A) (L.coordinates B) ↔
    L.NeighbourExists (L.target A e) ∧ L.neighbourRank (L.target A e) = B := by
  rw [neighbourExists_iff]
  constructor
  · intro h
    have hinside : ∀ d, L.periodic d = 0 → 0 ≤ L.target A e d ∧ L.target A e d < L.dims d := fun d hd => by
      have hBd : L.coordinates B d = L.target A e d := (h d).trans (if_pos hd)
      exact hBd ▸ coordinates_mem B d
    refine ⟨hinside, coordinates_inj (neighbourRank_mem _) hB (funext fun d => ?_)⟩
    rw [coordinates_neighbourRank, h d]
    split
    · next hd => exact Int.emod_eq_of_lt (hinside d hd).1 (hinside d hd).2
    · rfl
  · rintro ⟨hinside, rfl⟩ d
    rw [coordinates_neighbourRank]
    split
    · next hd => exact Int.emod_eq_of_lt (hinside d hd).1 (hinside d hd).2
    · rfl

/-- The topology of a row of ranks. -/
def topology (L : RankLine) : RankTopology 1 where
  dims := L.dims
  periodic := L.periodic
  coordinates := L.coordinates
  exchangeTypeToRank A := (L.updateCoordinates A).1
  communicationMask A := (L.updateCoordinates A).2
  dims_pos := L.dims_pos
  coordinates_mem A _ := coordinates_mem A
  coordinates_inj _ hA _ hB h := coordinates_inj hA hB h
  mask_iff A _ e he := by
    rw [(updateCoordinates_spec he A).2]
    constructor
    · exact fun hexists => ⟨_, neighbourRank_mem _, (stepsTo_iff (neighbourRank_mem _)).mpr ⟨hexists, rfl⟩⟩
    · rintro ⟨B, hB, hstep⟩
      exact ((stepsTo_iff hB).mp hstep).1
  rank_iff A _ B hB e he := by
    rw [(updateCoordinates_spec he A).1, stepsTo_iff hB]
    split
    · next hexists => rw [and_iff_right hexists]
    · next hnone => exact iff_of_false (fun h => absurd (h ▸ hB.1) (by decide)) fun h => hnone h.1

end RankLine

end Communication
end Spearhed
