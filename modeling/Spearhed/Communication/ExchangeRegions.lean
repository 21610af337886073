import Spearhed.Communication.Exchange

/-!
# Where exchanges lie

The offset of an exchange is worked out from the bits of its direction, axis by axis.  Read off the
relative offsets of the direction instead, the exchanges of the guard are disjoint zones of the frame
that is `guardingCells` wide, and each of them has the global cells of the border exchange that the
neighbour in its direction has for the mirrored direction (`globalCell_counterpart`).
-/

namespace Spearhed
namespace Communication

open Library Mappings MappingDescription

variable {DIM : ℕ}

/-- Widths that fit the guard and the interior. -/
structure WidthsFit (layout : GridLayout DIM) (guardingCells : DataSpace DIM) : Prop where
  nonneg : ∀ d, 0 ≤ guardingCells d
  guard : ∀ d, guardingCells d ≤ layout.guardSizeND d
  interior : ∀ d, guardingCells d ≤ layout.sizeWithoutGuardND d

namespace GridLayout

variable (layout : GridLayout DIM) (guardingCells v : DataSpace DIM)

/-- The cells of the buffer. -/
def cells : Set (DataSpace DIM) := box 0 layout.sizeND

/-- The cells of the buffer without its guard. -/
def interior : Set (DataSpace DIM) := box layout.guardSizeND (layout.guardSizeND + layout.sizeWithoutGuardND)

def extent : DataSpace DIM := fun d => if v d = 0 then layout.sizeWithoutGuardND d else guardingCells d

def guardOffset : DataSpace DIM := fun d =>
  if v d = 1 then layout.sizeND d - layout.guardSizeND d
  else if v d = -1 then layout.guardSizeND d - guardingCells d
  else layout.guardSizeND d

def borderOffset : DataSpace DIM := fun d =>
  if v d = 1 then layout.sizeND d - layout.guardSizeND d - guardingCells d else layout.guardSizeND d

/-- The guard cells of a direction that are within the exchange width. -/
def guardZone : Set (DataSpace DIM) :=
  box (layout.guardOffset guardingCells v) (layout.guardOffset guardingCells v + layout.extent guardingCells v)

/-- The cells at the end of the interior a direction points to. -/
def borderZone : Set (DataSpace DIM) :=
  box (layout.borderOffset guardingCells v) (layout.borderOffset guardingCells v + layout.extent guardingCells v)

end GridLayout

section Regions

variable {layout : GridLayout DIM} {guardingCells v w c : DataSpace DIM}

theorem guardZone_eq_zone (hv : v ∈ unitOffsets DIM) : layout.guardZone guardingCells v =
    zone (layout.guardSizeND - guardingCells) (layout.sizeND - layout.guardSizeND + guardingCells) guardingCells v := by
  ext c
  refine forall_congr' fun d => ?_
  rcases hv d with h | h | h
  all_goals
    simp [GridLayout.guardOffset, GridLayout.extent, GridLayout.sizeND, zoneRange, h]
    try omega

/-- The guard cells of different directions are different. -/
theorem disjoint_guardZone (hfit : WidthsFit layout guardingCells) (hv : v ∈ unitOffsets DIM) (hw : w ∈ unitOffsets DIM)
    (hvw : v ≠ w) : Disjoint (layout.guardZone guardingCells v) (layout.guardZone guardingCells w) := by
  rw [guardZone_eq_zone hv, guardZone_eq_zone hw]
  refine disjoint_zone (fun d => ⟨hfit.nonneg d, ?_⟩) hv hw hvw
  have hsize := (hfit.nonneg d).trans (hfit.interior d)
  simp [GridLayout.sizeND]
  omega

theorem guardZone_subset (hfit : WidthsFit layout guardingCells) (hv : v ∈ unitOffsets DIM) :
    layout.guardZone guardingCells v ⊆ layout.cells := fun c hc d => by
  have hcd := hc d
  have hnonneg := hfit.nonneg d
  have hguard := hfit.guard d
  have hinterior := hfit.interior d
  rcases hv d with h | h | h
  all_goals
    simp [GridLayout.guardOffset, GridLayout.extent, GridLayout.sizeND, h] at hcd ⊢
    omega

theorem borderZone_subset (hfit : WidthsFit layout guardingCells) (hv : v ∈ unitOffsets DIM) :
    layout.borderZone guardingCells v ⊆ layout.interior := fun c hc d => by
  have hcd := hc d
  have hnonneg := hfit.nonneg d
  have hinterior := hfit.interior d
  rcases hv d with h | h | h
  all_goals
    simp [GridLayout.borderOffset, GridLayout.extent, GridLayout.sizeND, h] at hcd ⊢
    omega

theorem interior_subset (hfit : WidthsFit layout guardingCells) : layout.interior ⊆ layout.cells := fun c hc d => by
  have hcd := hc d
  have hguard := (hfit.nonneg d).trans (hfit.guard d)
  simp [GridLayout.sizeND] at hcd ⊢
  omega

/-- The guard cells of a direction to a neighbour are outside the interior. -/
theorem disjoint_guardZone_interior (hv : v ∈ unitOffsets DIM) (hne : v ≠ 0) :
    Disjoint (layout.guardZone guardingCells v) layout.interior := by
  obtain ⟨d, hd⟩ := Function.ne_iff.mp hne
  refine Set.disjoint_left.mpr fun c hc hc' => ?_
  have hcd := hc d
  have hcd' := hc' d
  rcases hv d with h | h | h
  · simp [GridLayout.guardOffset, GridLayout.extent, h] at hcd hcd'
    omega
  · exact hd h
  · simp [GridLayout.guardOffset, GridLayout.extent, GridLayout.sizeND, h] at hcd hcd'
    omega

theorem extent_neg : layout.extent guardingCells (-v) = layout.extent guardingCells v := by
  funext d
  simp [GridLayout.extent]

theorem extent_nonneg (hfit : WidthsFit layout guardingCells) (d : Fin DIM) : 0 ≤ layout.extent guardingCells v d := by
  rw [GridLayout.extent]
  split
  · exact (hfit.nonneg d).trans (hfit.interior d)
  · exact hfit.nonneg d

end Regions

/-! ## The regions of the directions -/

section Directions

variable {layout : GridLayout DIM} {guardingCells : DataSpace DIM} {e : ℕ} {tag : BitVec 32}

theorem containsExchangeType_upperType (hDIM : DIM ≤ 3) (he : e < 3 ^ DIM) (d : Fin DIM) :
    (Mask.single e).containsExchangeType (upperType d) = decide (getRelativeDirections DIM e d = 1) := by
  interval_cases DIM <;> interval_cases e <;> revert d <;> decide +kernel

theorem containsExchangeType_lowerType (hDIM : DIM ≤ 3) (he : e < 3 ^ DIM) (d : Fin DIM) :
    (Mask.single e).containsExchangeType (lowerType d) = decide (getRelativeDirections DIM e d = -1) := by
  interval_cases DIM <;> interval_cases e <;> revert d <;> decide +kernel

variable (hDIM : DIM ≤ 3) (he : e < 3 ^ DIM)
include hDIM he

theorem capacityND_inGrid (area : AreaType) : (Exchange.inGrid layout guardingCells e tag area).capacityND =
    layout.extent guardingCells (getRelativeDirections DIM e) := by
  funext d
  simp only [Exchange.inGrid, exchangeTypeToDim, containsExchangeType_upperType hDIM he,
    containsExchangeType_lowerType hDIM he, GridLayout.extent]
  rcases getRelativeDirections_mem DIM e d with h | h | h <;> simp [h]

theorem exchangeTypeToOffset_guard : exchangeTypeToOffset e layout guardingCells .GUARD =
    layout.guardOffset guardingCells (getRelativeDirections DIM e) := by
  funext d
  simp only [exchangeTypeToOffset, containsExchangeType_upperType hDIM he, containsExchangeType_lowerType hDIM he,
    GridLayout.guardOffset]
  rcases getRelativeDirections_mem DIM e d with h | h | h <;> simp [h]

theorem exchangeTypeToOffset_border : exchangeTypeToOffset e layout guardingCells .BORDER =
    layout.borderOffset guardingCells (getRelativeDirections DIM e) := by
  funext d
  simp only [exchangeTypeToOffset, containsExchangeType_upperType hDIM he, GridLayout.borderOffset]
  rcases getRelativeDirections_mem DIM e d with h | h | h <;> simp [h]

theorem cells_inGrid_guard : (Exchange.inGrid layout guardingCells e tag .GUARD).cells =
    layout.guardZone guardingCells (getRelativeDirections DIM e) := by
  rw [Exchange.cells, capacityND_inGrid hDIM he, GridLayout.guardZone, ← exchangeTypeToOffset_guard hDIM he]
  rfl

theorem cells_inGrid_border : (Exchange.inGrid layout guardingCells e tag .BORDER).cells =
    layout.borderZone guardingCells (getRelativeDirections DIM e) := by
  rw [Exchange.cells, capacityND_inGrid hDIM he, GridLayout.borderZone, ← exchangeTypeToOffset_border hDIM he]
  rfl

end Directions

/-! ## Global cells -/

/-- The cell of the whole domain a cell of a rank stands for, around the end of periodic axes. -/
def globalCell (T : RankTopology DIM) (layout : GridLayout DIM) (rank : ℤ) (c : DataSpace DIM) : DataSpace DIM := fun d =>
  let position := T.coordinates rank d * layout.sizeWithoutGuardND d + (c d - layout.guardSizeND d)
  if T.periodic d = 0 then position else position % (T.dims d * layout.sizeWithoutGuardND d)

section GlobalCell

variable {T : RankTopology DIM} {layout : GridLayout DIM} {A B : ℤ} {c g v guardingCells : DataSpace DIM}

/-- The rank a global cell belongs to and the cell there, on one axis. -/
theorem eq_of_position {a b m x y : ℤ} (hx : 0 ≤ x ∧ x < m) (hy : 0 ≤ y ∧ y < m) (h : a * m + x = b * m + y) :
    a = b ∧ x = y := by
  have hm : m ≠ 0 := by omega
  have hdiv := congrArg (· / m) h
  simp only [add_comm _ x, add_comm _ y, Int.add_mul_ediv_right _ _ hm, Int.ediv_eq_zero_of_lt hx.1 hx.2,
    Int.ediv_eq_zero_of_lt hy.1 hy.2, zero_add] at hdiv
  subst hdiv
  exact ⟨rfl, add_left_cancel h⟩

/-- A position whose rank has been taken around the end. -/
theorem add_emod_wrapped (x y n m : ℤ) : (x % n * m + y) % (n * m) = (x * m + y) % (n * m) := by
  have hwrapped : x % n * m + y = x * m + y + n * m * (-(x / n)) := by
    rw [Int.emod_def]
    ring
  rw [hwrapped, Int.add_mul_emod_self_left]

theorem mem_interior_iff : g ∈ layout.interior ↔
    ∀ d, 0 ≤ g d - layout.guardSizeND d ∧ g d - layout.guardSizeND d < layout.sizeWithoutGuardND d := by
  refine forall_congr' fun d => ?_
  rw [Pi.add_apply, sub_nonneg, sub_lt_iff_lt_add']

/-- A position in the domain is not taken around its end. -/
theorem globalCell_of_interior (hA : A ∈ T.ranks) (hg : g ∈ layout.interior) (d : Fin DIM) : globalCell T layout A g d =
    T.coordinates A d * layout.sizeWithoutGuardND d + (g d - layout.guardSizeND d) := by
  rw [globalCell]
  split
  · rfl
  · obtain ⟨hlo, hhi⟩ := T.coordinates_mem A hA d
    obtain ⟨hglo, hghi⟩ := mem_interior_iff.mp hg d
    have hm : 0 < layout.sizeWithoutGuardND d := by omega
    refine Int.emod_eq_of_lt (add_nonneg (mul_nonneg hlo hm.le) hglo) ?_
    calc T.coordinates A d * layout.sizeWithoutGuardND d + (g d - layout.guardSizeND d)
        < T.coordinates A d * layout.sizeWithoutGuardND d + layout.sizeWithoutGuardND d := by linarith
      _ = (T.coordinates A d + 1) * layout.sizeWithoutGuardND d := by ring
      _ ≤ T.dims d * layout.sizeWithoutGuardND d := mul_le_mul_of_nonneg_right hhi hm.le

/-- Every cell of the domain is an interior cell of at most one rank. -/
theorem eq_of_globalCell (hA : A ∈ T.ranks) (hB : B ∈ T.ranks) (hg : g ∈ layout.interior) (hc : c ∈ layout.interior)
    (h : globalCell T layout A g = globalCell T layout B c) : A = B ∧ g = c := by
  have haxis : ∀ d, T.coordinates A d = T.coordinates B d ∧ g d - layout.guardSizeND d = c d - layout.guardSizeND d :=
    fun d => by
      have hd := congrFun h d
      rw [globalCell_of_interior hA hg, globalCell_of_interior hB hc] at hd
      exact eq_of_position (mem_interior_iff.mp hg d) (mem_interior_iff.mp hc d) hd
  exact ⟨T.coordinates_inj A hA B hB (funext fun d => (haxis d).1), funext fun d => sub_left_injective (haxis d).2⟩

/-- Where a cell of the exchange in direction `v` is in the exchange of the neighbour in the mirrored direction. -/
def counterpart (layout : GridLayout DIM) (guardingCells v : DataSpace DIM) (c : DataSpace DIM) : DataSpace DIM :=
  layout.borderOffset guardingCells (-v) + (c - layout.guardOffset guardingCells v)

theorem counterpart_sub (hv : v ∈ unitOffsets DIM) (d : Fin DIM) :
    counterpart layout guardingCells v c d = c d - v d * layout.sizeWithoutGuardND d := by
  rcases hv d with h | h | h <;>
    simp [counterpart, GridLayout.borderOffset, GridLayout.guardOffset, GridLayout.sizeND, h] <;> ring

theorem counterpart_mem (hc : c ∈ layout.guardZone guardingCells v) :
    counterpart layout guardingCells v c ∈ layout.borderZone guardingCells (-v) := fun d => by
  have hcd := hc d
  simp only [Pi.add_apply] at hcd
  simp only [counterpart, extent_neg, Pi.add_apply, Pi.sub_apply]
  omega

/-- **A guard cell and its counterpart at the neighbour are the same cell of the domain.** -/
theorem globalCell_counterpart (hv : v ∈ unitOffsets DIM) (h : T.IsNeighbour v B A) :
    globalCell T layout A (counterpart layout guardingCells v c) = globalCell T layout B c := by
  funext d
  have hposition : (T.coordinates B d + v d) * layout.sizeWithoutGuardND d +
      (counterpart layout guardingCells v c d - layout.guardSizeND d) =
        T.coordinates B d * layout.sizeWithoutGuardND d + (c d - layout.guardSizeND d) := by
    rw [counterpart_sub hv]
    ring
  rw [globalCell, globalCell, h.2 d, ← hposition]
  split
  · rfl
  · rw [add_emod_wrapped]

end GlobalCell

end Communication
end Spearhed
