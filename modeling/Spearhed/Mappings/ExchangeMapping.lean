import Spearhed.Mappings.AreaMapping
import Spearhed.Mappings.Mask

/-!
# The mapper of one exchange direction

The cells a rank sends and receives in one direction are a box at the end of the grid the direction
points to, on the axes where it is not zero, and the middle of the grid on the others.

* `ExchangeZones`: a frame cut into its two ends and its middle on every axis.  The zones of the
  directions are disjoint and together they are the frame without its middle.
* `MappingDescription.partitionsGrid_iff`: what the mappers promise holds exactly for grids that hold
  guard and border and have a GUARD that can be counted, which is more than the constructor checks.

No sum or difference of this mapper leaves the range of `int` where guard and border fit.
-/

namespace Spearhed
namespace Mappings

open Library

/-! ## Zones of a frame -/

/-- The part of one axis a direction points to. -/
def zoneRange (lo hi g : ℤ) (v : ℤ) : Set ℤ :=
  if v = 0 then Set.Ico (lo + g) (hi - g) else if v = 1 then Set.Ico (hi - g) hi else Set.Ico lo (lo + g)

section ZoneRange

variable {lo hi g x v w : ℤ}

@[simp] theorem zoneRange_zero : zoneRange lo hi g 0 = Set.Ico (lo + g) (hi - g) := if_pos rfl

theorem zoneRange_unique (hlohi : lo + g ≤ hi - g) (hv : v = -1 ∨ v = 0 ∨ v = 1)
    (hw : w = -1 ∨ w = 0 ∨ w = 1) (hxv : x ∈ zoneRange lo hi g v) (hxw : x ∈ zoneRange lo hi g w) : v = w := by
  rcases hv with rfl | rfl | rfl <;> rcases hw with rfl | rfl | rfl <;>
    simp [zoneRange] at hxv hxw ⊢ <;> omega

theorem exists_zoneRange (hx : x ∈ Set.Ico lo hi) : ∃ v, (v = -1 ∨ v = 0 ∨ v = 1) ∧ x ∈ zoneRange lo hi g v := by
  obtain ⟨hlo, hhi⟩ := hx
  by_cases hleft : x < lo + g
  · exact ⟨-1, Or.inl rfl, by simp [zoneRange, hlo, hleft]⟩
  · by_cases hright : hi - g ≤ x
    · exact ⟨1, Or.inr (Or.inr rfl), by simp [zoneRange, hright, hhi]⟩
    · exact ⟨0, Or.inr (Or.inl rfl), by simp [zoneRange]; omega⟩

theorem zoneRange_subset (hg : 0 ≤ g) (hlohi : lo + g ≤ hi - g) (hx : x ∈ zoneRange lo hi g v) : x ∈ Set.Ico lo hi := by
  unfold zoneRange at hx
  split at hx
  · exact ⟨by linarith [hx.1], by linarith [hx.2]⟩
  · split at hx
    · exact ⟨by linarith [hx.1], hx.2⟩
    · exact ⟨hx.1, by linarith [hx.2]⟩

end ZoneRange

/-- The zone of a direction. -/
def zone {DIM : ℕ} (lo hi g v : DataSpace DIM) : Set (DataSpace DIM) := {c | ∀ d, c d ∈ zoneRange (lo d) (hi d) (g d) (v d)}

section Zone

variable {DIM : ℕ} {lo hi g v w : DataSpace DIM}

theorem disjoint_zone (h : ∀ d, 0 ≤ g d ∧ lo d + g d ≤ hi d - g d) (hv : v ∈ unitOffsets DIM)
    (hw : w ∈ unitOffsets DIM) (hvw : v ≠ w) : Disjoint (zone lo hi g v) (zone lo hi g w) :=
  Set.disjoint_left.mpr fun _ hcv hcw =>
    hvw (funext fun d => zoneRange_unique (h d).2 (hv d) (hw d) (hcv d) (hcw d))

/-- The directions other than zero have the frame without its middle. -/
theorem iUnion_zone (h : ∀ d, 0 ≤ g d ∧ lo d + g d ≤ hi d - g d) :
    ⋃ v ∈ unitOffsets DIM \ {0}, zone lo hi g v = box lo hi \ box (lo + g) (hi - g) := by
  ext c
  simp only [Set.mem_iUnion₂, Set.mem_sdiff, Set.mem_singleton_iff]
  constructor
  · rintro ⟨v, ⟨hv, hv0⟩, hc⟩
    refine ⟨fun d => zoneRange_subset (h d).1 (h d).2 (hc d), fun hmiddle => hv0 (funext fun d => ?_)⟩
    refine zoneRange_unique (h d).2 (hv d) (Or.inr (Or.inl rfl)) (hc d) ?_
    rw [Pi.zero_apply, zoneRange_zero]
    exact hmiddle d
  · rintro ⟨hc, hmiddle⟩
    choose v hv hcv using fun d => exists_zoneRange (g := g d) (show c d ∈ Set.Ico (lo d) (hi d) from hc d)
    refine ⟨v, ⟨hv, fun hv0 => hmiddle fun d => ?_⟩, hcv⟩
    have hd := hcv d
    rwa [hv0, Pi.zero_apply, zoneRange_zero] at hd

end Zone

/-! ## The mapper -/

namespace MappingDescription

variable {DIM : ℕ} (M : MappingDescription DIM)

/-- The blocks of an exchange; for other areas than GUARD and BORDER the whole grid. -/
def exchangeGridDim (areaType : AreaType) (exchangeType : ℕ) : DataSpace DIM :=
  let directions := getRelativeDirections DIM exchangeType
  match areaType with
  | .GUARD => fun d =>
    if directions d ≠ 0 then M.guardingSuperCells d else M.gridSuperCells d - 2 * M.guardingSuperCells d
  | .BORDER => fun d =>
    if directions d ≠ 0 then M.guardingSuperCells d else M.gridSuperCells d - 4 * M.guardingSuperCells d
  | _ => M.gridSuperCells

def exchangeSuperCellIndex (areaType : AreaType) (exchangeType : ℕ) (blockIdx : DataSpace DIM) : DataSpace DIM :=
  let directions := getRelativeDirections DIM exchangeType
  match areaType with
  | .GUARD => fun d =>
    if directions d = 0 then blockIdx d + M.guardingSuperCells d
    else if directions d = 1 then blockIdx d + (M.gridSuperCells d - M.guardingSuperCells d)
    else blockIdx d
  | .BORDER => fun d =>
    if directions d = 0 then blockIdx d + 2 * M.guardingSuperCells d
    else if directions d = -1 then blockIdx d + M.guardingSuperCells d
    else if directions d = 1 then blockIdx d + (M.gridSuperCells d - 2 * M.guardingSuperCells d)
    else blockIdx d
  | _ => blockIdx

/-- The supercells of an exchange. -/
def exchanged (areaType : AreaType) (exchangeType : ℕ) : Set (DataSpace DIM) :=
  M.exchangeSuperCellIndex areaType exchangeType '' blocks (M.exchangeGridDim areaType exchangeType)

/-- The directions to the neighbours. -/
def exchangeDirections (DIM : ℕ) : Set ℕ := {e | 1 ≤ e ∧ e < NumberOfExchanges DIM}

variable {M} {exchangeType : ℕ}

/-- Where the blocks of an exchange are translated to. -/
def exchangeShift (M : MappingDescription DIM) (areaType : AreaType) (exchangeType : ℕ) : DataSpace DIM :=
  M.exchangeSuperCellIndex areaType exchangeType 0

theorem exchangeSuperCellIndex_eq_add (areaType : AreaType) (exchangeType : ℕ) (b : DataSpace DIM) :
    M.exchangeSuperCellIndex areaType exchangeType b = b + M.exchangeShift areaType exchangeType := by
  funext d
  rw [Pi.add_apply, exchangeShift]
  cases areaType <;> simp only [exchangeSuperCellIndex, Pi.zero_apply, zero_add, add_zero]
  all_goals split_ifs <;> simp only [add_zero]

theorem exchanged_eq_box (areaType : AreaType) (exchangeType : ℕ) :
    M.exchanged areaType exchangeType = box (M.exchangeShift areaType exchangeType)
      (M.exchangeGridDim areaType exchangeType + M.exchangeShift areaType exchangeType) := by
  have himage := (bijOn_add_box 0 (M.exchangeGridDim areaType exchangeType)
    (M.exchangeShift areaType exchangeType)).image_eq
  rw [zero_add] at himage
  rw [exchanged, funext (M.exchangeSuperCellIndex_eq_add areaType exchangeType)]
  exact himage

theorem exchanged_guard (M : MappingDescription DIM) (exchangeType : ℕ) :
    M.exchanged .GUARD exchangeType =
      zone 0 M.gridSuperCells M.guardingSuperCells (getRelativeDirections DIM exchangeType) := by
  rw [exchanged_eq_box]
  ext c
  refine forall_congr' fun d => ?_
  rcases getRelativeDirections_mem DIM exchangeType d with h | h | h
  all_goals
    simp [exchangeShift, exchangeSuperCellIndex, exchangeGridDim, zoneRange, h]
    try omega

theorem exchanged_border (M : MappingDescription DIM) (exchangeType : ℕ) :
    M.exchanged .BORDER exchangeType =
      zone M.guardingSuperCells (M.gridSuperCells - M.guardingSuperCells) M.guardingSuperCells
        (getRelativeDirections DIM exchangeType) := by
  rw [exchanged_eq_box]
  ext c
  refine forall_congr' fun d => ?_
  rcases getRelativeDirections_mem DIM exchangeType d with h | h | h
  all_goals
    simp [exchangeShift, exchangeSuperCellIndex, exchangeGridDim, zoneRange, h]
    try omega

/-- The directions to the neighbours are the offsets other than zero. -/
theorem bijOn_exchangeDirections (hDIM : NumberOfExchanges DIM = 3 ^ DIM) :
    Set.BijOn (getRelativeDirections DIM) (exchangeDirections DIM) (unitOffsets DIM \ {0}) := by
  have hall := bijOn_getRelativeDirections DIM
  refine ⟨fun e he => ?_, fun e he e' he' => hall.injOn (hDIM ▸ he.2) (hDIM ▸ he'.2), fun v hv => ?_⟩
  · have hlt : e < 3 ^ DIM := hDIM ▸ he.2
    refine ⟨hall.mapsTo hlt, fun hzero => ?_⟩
    exact absurd ((getRelativeDirections_eq_zero hlt).mp hzero) (Nat.one_le_iff_ne_zero.mp he.1)
  · obtain ⟨e, he, rfl⟩ := hall.surjOn hv.1
    refine ⟨e, ⟨Nat.one_le_iff_ne_zero.mpr fun hzero => hv.2 ?_, hDIM ▸ he⟩, rfl⟩
    exact (getRelativeDirections_eq_zero he).mpr hzero

/-- What the mappers of a description promise. -/
structure PartitionsGrid [GuardMapping DIM] (M : MappingDescription DIM) : Prop where
  gridDim_nonneg : ∀ area d, 0 ≤ M.getGridDim area d
  bijOn : ∀ area, Set.BijOn (M.getSuperCellIndex area) (blocks (M.getGridDim area)) (M.areaCells area)
  disjoint_core_border : Disjoint (M.processed .CORE) (M.processed .BORDER)
  disjoint_core_guard : Disjoint (M.processed .CORE) (M.processed .GUARD)
  disjoint_border_guard : Disjoint (M.processed .BORDER) (M.processed .GUARD)
  cover : M.processed .CORE ∪ M.processed .BORDER ∪ M.processed .GUARD = M.gridCells
  exchange_disjoint : ∀ areaType, areaType = .GUARD ∨ areaType = .BORDER →
    (exchangeDirections DIM).PairwiseDisjoint (M.exchanged areaType)
  exchange_cover : ∀ areaType, areaType = .GUARD ∨ areaType = .BORDER →
    ⋃ e ∈ exchangeDirections DIM, M.exchanged areaType e = M.areaCells areaType

/-- The zones of all exchanges: disjoint, and the frame without its middle. -/
theorem zones_of_exchanges (hDIM : NumberOfExchanges DIM = 3 ^ DIM) (lo hi g : DataSpace DIM)
    (h : ∀ d, 0 ≤ g d ∧ lo d + g d ≤ hi d - g d) :
    (exchangeDirections DIM).PairwiseDisjoint (fun e => zone lo hi g (getRelativeDirections DIM e)) ∧
      ⋃ e ∈ exchangeDirections DIM, zone lo hi g (getRelativeDirections DIM e) = box lo hi \ box (lo + g) (hi - g) := by
  have hdirections := bijOn_exchangeDirections hDIM
  constructor
  · intro e he e' he' hee'
    refine disjoint_zone h (hdirections.mapsTo he).1 (hdirections.mapsTo he').1 fun hsame => hee' ?_
    exact hdirections.injOn he he' hsame
  · rw [← iUnion_zone h, ← hdirections.image_eq, Set.biUnion_image]

namespace HoldsBorder

variable (h : M.HoldsBorder)
include h

theorem exchange_guard (hDIM : NumberOfExchanges DIM = 3 ^ DIM) :
    (exchangeDirections DIM).PairwiseDisjoint (M.exchanged .GUARD) ∧
      ⋃ e ∈ exchangeDirections DIM, M.exchanged .GUARD e = M.areaCells .GUARD := by
  have hzones := zones_of_exchanges hDIM 0 M.gridSuperCells M.guardingSuperCells
    fun d => ⟨(h d).1, by simp; linarith [(h d).1, (h d).2]⟩
  rw [funext (exchanged_guard M), areaCells, guardCells, inner, one_zsmul]
  rwa [zero_add] at hzones

theorem exchange_border (hDIM : NumberOfExchanges DIM = 3 ^ DIM) :
    (exchangeDirections DIM).PairwiseDisjoint (M.exchanged .BORDER) ∧
      ⋃ e ∈ exchangeDirections DIM, M.exchanged .BORDER e = M.areaCells .BORDER := by
  have hzones := zones_of_exchanges hDIM M.guardingSuperCells (M.gridSuperCells - M.guardingSuperCells)
    M.guardingSuperCells fun d => ⟨(h d).1, by simp; linarith [(h d).2]⟩
  rw [funext (exchanged_border M), areaCells, h.borderCells_eq, inner, inner, one_zsmul, two_zsmul,
    ← sub_sub]
  exact hzones

theorem partitionsGrid [GuardMapping DIM] [LawfulGuardMapping DIM] (hDIM : NumberOfExchanges DIM = 3 ^ DIM)
    (hfits : M.guardVolume < 2 ^ 32) : M.PartitionsGrid := by
  have hprocessed : ∀ area, M.processed area = M.areaCells area := fun area => (h.bijOn hfits area).image_eq
  exact {
    gridDim_nonneg := h.gridDim_nonneg hfits
    bijOn := h.bijOn hfits
    disjoint_core_border := by rw [hprocessed, hprocessed]; exact M.disjoint_core_border
    disjoint_core_guard := by rw [hprocessed, hprocessed]; exact M.disjoint_core_guard
    disjoint_border_guard := by rw [hprocessed, hprocessed]; exact M.disjoint_border_guard
    cover := by rw [hprocessed, hprocessed, hprocessed]; exact M.core_union_border_union_guard
    exchange_disjoint := by
      rintro _ (rfl | rfl)
      · exact (h.exchange_guard hDIM).1
      · exact (h.exchange_border hDIM).1
    exchange_cover := by
      rintro _ (rfl | rfl)
      · exact (h.exchange_guard hDIM).2
      · exact (h.exchange_border hDIM).2 }

end HoldsBorder

/-- The constructor leaves blocks for the core and the border on every axis. -/
theorem gridDim_core_border_ne_zero [GuardMapping DIM] (M : MappingDescription DIM) (d : Fin DIM) :
    M.getGridDim .CORE_BORDER d ≠ 0 := by
  show int32 (M.gridSuperCells d - int32 (2 * M.guardingSuperCells d)) ≠ 0
  obtain ⟨hn, hn'⟩ := (M.isInt32 d).1
  obtain ⟨k, hk⟩ := exists_int32_eq (M.gridSuperCells d - 2 * M.guardingSuperCells d)
  rw [int32_sub_int32, hk]
  intro hzero
  rcases M.verified d with ⟨hguard, hgrid⟩ | hgrid
  · omega
  · -- two guards are the grid, modulo `2 ^ 32`, so the grid is even and one more still fits
    rw [int32_int32_add] at hgrid
    obtain ⟨l, hl⟩ := exists_int32_eq (2 * M.guardingSuperCells d + 1)
    obtain ⟨hlow, hhigh⟩ := isInt32_int32 (2 * M.guardingSuperCells d + 1)
    omega

/-- A first supercell outside the core and border or outside the core, or a core of a negative size. -/
theorem PartitionsGrid.holdsBorder [GuardMapping DIM] (h : M.PartitionsGrid) : M.HoldsBorder := by
  have hfirst : (0 : DataSpace DIM) ∈ blocks (M.getGridDim .CORE_BORDER) := fun d =>
    ⟨le_refl 0, lt_of_le_of_ne (h.gridDim_nonneg .CORE_BORDER d) (M.gridDim_core_border_ne_zero d).symm⟩
  have hcell : M.getSuperCellIndex .CORE_BORDER 0 ∈ M.gridCells \ M.guardCells := by
    have hmem := (h.bijOn .CORE_BORDER).mapsTo hfirst
    refine ⟨?_, fun hguard => ?_⟩
    · rw [← M.core_union_border_union_guard]
      exact Or.inl hmem
    · exact (Set.disjoint_left.mp (Set.disjoint_union_left.mpr ⟨M.disjoint_core_guard, M.disjoint_border_guard⟩)
        hmem) hguard
  have hindex : M.getSuperCellIndex .CORE_BORDER 0 = M.guardingSuperCells := by
    funext d
    show int32 (0 + M.guardingSuperCells d) = _
    rw [zero_add, int32_eq_self (M.isInt32 d).2]
  rw [hindex, guardCells, Set.sdiff_sdiff_right_self] at hcell
  intro d
  have hgrid := (hcell.1 d).1
  have hinner := (hcell.2 d).2
  have hcore := h.gridDim_nonneg .CORE d
  change 0 ≤ int32 (M.gridSuperCells d - int32 (4 * M.guardingSuperCells d)) at hcore
  obtain ⟨hn, hn'⟩ := (M.isInt32 d).1
  rw [Pi.zero_apply] at hgrid
  simp only [Pi.sub_apply, Pi.smul_apply, smul_eq_mul] at hinner
  rw [int32_sub_int32, int32_eq_self ⟨by omega, by omega⟩] at hcore
  exact ⟨hgrid, by omega⟩

/-- A GUARD that is counted off by its blocks is not too large. -/
theorem PartitionsGrid.guardVolume_lt [GuardMapping DIM] [LawfulGuardMapping DIM] (h : M.PartitionsGrid) :
    M.guardVolume < 2 ^ 32 := by
  have hbijOn := h.bijOn .GUARD
  rw [areaCells, guardCells, inner, one_zsmul] at hbijOn
  exact shellVolume_lt_of_bijOn h.holdsBorder.holdsGuards (h.gridDim_nonneg .GUARD) hbijOn

/-- **The area mappers partition the grid exactly when it holds guard and border at both ends of
every axis and GUARD has fewer than `2 ^ 32` supercells**, in two and in three dimensions.  In the
documented index space the first condition is enough.  The constructor checks neither. -/
theorem partitionsGrid_iff (M : MappingDescription 2) (M' : MappingDescription 3) :
    (M.PartitionsGrid ↔ M.HoldsBorder ∧ M.guardVolume < 2 ^ 32) ∧
    (M'.PartitionsGrid ↔ M'.HoldsBorder ∧ M'.guardVolume < 2 ^ 32) ∧
    (M.InIndexSpace → (M.PartitionsGrid ↔ M.HoldsBorder)) ∧
    (M'.InIndexSpace → (M'.PartitionsGrid ↔ M'.HoldsBorder)) :=
  ⟨⟨fun h => ⟨h.holdsBorder, h.guardVolume_lt⟩, fun h => h.1.partitionsGrid rfl h.2⟩,
    ⟨fun h => ⟨h.holdsBorder, h.guardVolume_lt⟩, fun h => h.1.partitionsGrid rfl h.2⟩,
    fun hlimit => ⟨PartitionsGrid.holdsBorder, fun h => h.partitionsGrid rfl (h.guardVolume_lt hlimit)⟩,
    fun hlimit => ⟨PartitionsGrid.holdsBorder, fun h => h.partitionsGrid rfl (h.guardVolume_lt hlimit)⟩⟩

/-- Nine by nine supercells with a guard of one are counted off; where half of GUARD has more than `2 ^ 31`
supercells its grid dimension is negative. -/
theorem partitionsGrid_iff_nine :
    (⟨![9, 9], ![1, 1], by decide, by decide⟩ : MappingDescription 2).PartitionsGrid ∧
    (⟨![131072, 65536], ![1, 16384], by decide, by decide⟩ : MappingDescription 2).HoldsBorder ∧
    ¬ (⟨![131072, 65536], ![1, 16384], by decide, by decide⟩ : MappingDescription 2).PartitionsGrid := by
  let cube : MappingDescription 3 := ⟨![9, 9, 9], ![1, 1, 1], by decide, by decide⟩
  refine ⟨(partitionsGrid_iff _ cube).1.mpr ⟨by decide, by decide⟩, by decide, fun h => ?_⟩
  exact absurd ((partitionsGrid_iff _ cube).1.mp h).2 (by decide)

/-- Three supercells with a guard of one pass the constructor, and the core has a negative size. -/
theorem construct_not_partitionsGrid :
    ∃ M : MappingDescription 2, construct ![8, 8] ![24, 24] ![1, 1] = some M ∧ ¬ M.PartitionsGrid := by
  let M : MappingDescription 2 := ⟨![3, 3], ![1, 1], by decide, by decide⟩
  have hcells : (fun d => M.gridSuperCells d * ![8, 8] d) = ![24, 24] := by decide
  have hconstruct := M.exists_construct (by decide : ∀ d, 0 < (![8, 8] : DataSpace 2) d)
  refine ⟨M, hcells ▸ hconstruct, fun h => ?_⟩
  exact absurd (h.gridDim_nonneg .CORE 0) (by decide)

end MappingDescription

end Mappings
end Spearhed
