import Spearhed.Mappings.DataSpace

/-!
# The grid of supercells and its areas

A `MappingDescription` is a grid of supercells with a guard on both ends of every axis.  Its
constructor checks each axis; the check is a field here, so every value has passed it.

The areas are defined by layers: GUARD is the outermost guard layers of the grid, BORDER the next
guard layers, and CORE is what is left.

Two things are not checked: that the grid has room for a border, which is `HoldsBorder`, and that an
`int` counts its supercells.  `DataSpace.hpp` limits the index space to 2 giga elements, which is
`InIndexSpace`; GUARD alone is counted off in two halves, hence `guardVolume`.
-/

namespace Spearhed
namespace Mappings

open Library

/-- The number of cells of a grid that are in its outermost guards. -/
def shellVolume {DIM : ℕ} (guard gBlocks : DataSpace DIM) : ℤ := ∏ d, gBlocks d - ∏ d, (gBlocks d - 2 * guard d)

/-- What the constructor verifies on one axis. -/
def guardFits (gridSuperCells guardingSuperCells : ℤ) : Prop :=
  (guardingSuperCells = 0 ∧ gridSuperCells ≥ 1) ∨ gridSuperCells ≥ int32 (int32 (2 * guardingSuperCells) + 1)

instance (gridSuperCells guardingSuperCells : ℤ) : Decidable (guardFits gridSuperCells guardingSuperCells) :=
  inferInstanceAs (Decidable (_ ∨ _))

structure MappingDescription (DIM : ℕ) where
  gridSuperCells : DataSpace DIM
  guardingSuperCells : DataSpace DIM
  verified : ∀ d, guardFits (gridSuperCells d) (guardingSuperCells d)
  /-- The components of a `DataSpace` are of type `int`. -/
  isInt32 : ∀ d, IsInt32 (gridSuperCells d) ∧ IsInt32 (guardingSuperCells d)

namespace MappingDescription

variable {DIM : ℕ}

/-- The constructor: the grid is the local cells over the size of a supercell, the division of `int`.  It
has no arguments but those of type `int`. -/
def construct (SuperCellSize localGridCells guardingSuperCells : DataSpace DIM) : Option (MappingDescription DIM) :=
  let gridSuperCells : DataSpace DIM := fun d => (localGridCells d).tdiv (SuperCellSize d)
  if h : (∀ d, guardFits (gridSuperCells d) (guardingSuperCells d)) ∧
      ∀ d, IsInt32 (gridSuperCells d) ∧ IsInt32 (guardingSuperCells d) then
    some ⟨gridSuperCells, guardingSuperCells, h.1, h.2⟩
  else
    none

/-- Every description is built by the constructor, from the cells of its supercells. -/
theorem exists_construct (M : MappingDescription DIM) {SuperCellSize : DataSpace DIM} (hsize : ∀ d, 0 < SuperCellSize d) :
    construct SuperCellSize (fun d => M.gridSuperCells d * SuperCellSize d) M.guardingSuperCells = some M := by
  have hgrid : ∀ d, (M.gridSuperCells d * SuperCellSize d).tdiv (SuperCellSize d) = M.gridSuperCells d := fun d =>
    Int.mul_tdiv_cancel _ (hsize d).ne'
  obtain ⟨grid, guard, verified, isInt32⟩ := M
  simp only [construct, hgrid]
  exact dif_pos ⟨verified, isInt32⟩

section Cells

variable (M : MappingDescription DIM)

/-- All supercells of the grid. -/
def gridCells : Set (DataSpace DIM) := box 0 M.gridSuperCells

/-- What is left of the grid `k` guards away from its ends. -/
def inner (k : ℤ) : Set (DataSpace DIM) := box (k • M.guardingSuperCells) (M.gridSuperCells - k • M.guardingSuperCells)

def guardCells : Set (DataSpace DIM) := M.gridCells \ M.inner 1
def borderCells : Set (DataSpace DIM) := (M.gridCells \ M.inner 2) \ M.guardCells
def coreCells : Set (DataSpace DIM) := M.gridCells \ (M.guardCells ∪ M.borderCells)

/-- The guard is not negative and the grid holds a guard and a border at both ends. -/
def HoldsBorder : Prop := ∀ d, 0 ≤ M.guardingSuperCells d ∧ 4 * M.guardingSuperCells d ≤ M.gridSuperCells d

instance : Decidable M.HoldsBorder := inferInstanceAs (Decidable (∀ _, _ ∧ _))

/-- The supercells of the grid are within the index space that `DataSpace.hpp` documents. -/
def InIndexSpace : Prop := ∏ d, M.gridSuperCells d < 2 ^ 31

/-- What the kernels over the areas of a grid rely on. -/
structure Usable : Prop where
  holdsBorder : M.HoldsBorder
  inIndexSpace : M.InIndexSpace

/-- The number of supercells of GUARD. -/
def guardVolume : ℤ := shellVolume M.guardingSuperCells M.gridSuperCells

theorem core_union_border_union_guard : M.coreCells ∪ M.borderCells ∪ M.guardCells = M.gridCells := by
  rw [Set.union_assoc, Set.union_comm M.borderCells, coreCells, Set.sdiff_union_self]
  exact Set.union_eq_left.mpr (Set.union_subset Set.sdiff_subset (Set.sdiff_subset.trans Set.sdiff_subset))

theorem disjoint_core_border : Disjoint M.coreCells M.borderCells :=
  Set.disjoint_left.mpr fun _ hcore hborder => hcore.2 (Or.inr hborder)

theorem disjoint_core_guard : Disjoint M.coreCells M.guardCells :=
  Set.disjoint_left.mpr fun _ hcore hguard => hcore.2 (Or.inl hguard)

theorem disjoint_border_guard : Disjoint M.borderCells M.guardCells :=
  Set.disjoint_left.mpr fun _ hborder => hborder.2

@[simp] theorem mem_inner {k : ℤ} {c : DataSpace DIM} :
    c ∈ M.inner k ↔ ∀ d, k * M.guardingSuperCells d ≤ c d ∧ c d < M.gridSuperCells d - k * M.guardingSuperCells d :=
  Iff.rfl

namespace HoldsBorder

variable {M} (h : M.HoldsBorder)
include h

/-- In the documented index space GUARD is counted off without overflow. -/
theorem guardVolume_lt (hlimit : M.InIndexSpace) : M.guardVolume < 2 ^ 32 := by
  have hinner : 0 ≤ ∏ d, (M.gridSuperCells d - 2 * M.guardingSuperCells d) :=
    Finset.prod_nonneg fun d _ => by linarith [(h d).1, (h d).2]
  unfold InIndexSpace at hlimit
  unfold guardVolume shellVolume
  omega

theorem inner_subset_inner {k l : ℤ} (hkl : k ≤ l) : M.inner l ⊆ M.inner k := by
  refine box_subset_box (fun d => ?_) (fun d => ?_)
  · exact mul_le_mul_of_nonneg_right hkl (h d).1
  · exact sub_le_sub_left (mul_le_mul_of_nonneg_right hkl (h d).1) _

theorem inner_subset_gridCells {k : ℤ} (hk : 0 ≤ k) : M.inner k ⊆ M.gridCells := by
  have hinner : M.inner 0 = M.gridCells := by rw [inner, gridCells, zero_zsmul, sub_zero]
  exact hinner ▸ h.inner_subset_inner hk

theorem core_union_border : M.coreCells ∪ M.borderCells = M.inner 1 := by
  have hcover := M.core_union_border_union_guard
  have hdisjoint : Disjoint (M.coreCells ∪ M.borderCells) M.guardCells :=
    Set.disjoint_union_left.mpr ⟨M.disjoint_core_guard, M.disjoint_border_guard⟩
  calc M.coreCells ∪ M.borderCells = M.gridCells \ M.guardCells := by
        rw [← hcover, Set.union_sdiff_right, hdisjoint.sdiff_eq_left]
    _ = M.inner 1 := by
        rw [guardCells, Set.sdiff_sdiff_cancel_left (h.inner_subset_gridCells (by decide))]

/-- The border is the shell of the grid without its guard. -/
theorem borderCells_eq : M.borderCells = M.inner 1 \ M.inner 2 := by
  rw [borderCells, Set.sdiff_sdiff_comm, guardCells,
    Set.sdiff_sdiff_cancel_left (h.inner_subset_gridCells (by decide))]

/-- The core is a box, possibly without cells. -/
theorem coreCells_eq : M.coreCells = M.inner 2 := by
  have hdisjoint := M.disjoint_core_border
  calc M.coreCells = (M.coreCells ∪ M.borderCells) \ M.borderCells := by
        rw [Set.union_sdiff_right, hdisjoint.sdiff_eq_left]
    _ = M.inner 2 := by
        rw [h.core_union_border, h.borderCells_eq,
          Set.sdiff_sdiff_cancel_left (h.inner_subset_inner (by decide))]

end HoldsBorder

end Cells

end MappingDescription
end Mappings
end Spearhed
