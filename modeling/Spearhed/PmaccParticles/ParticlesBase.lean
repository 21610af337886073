import Mathlib.Data.Fintype.Pi
import Spearhed.Mappings.AreaMapping
import Spearhed.PmaccParticles.FillGaps

/-!
# Kernels over an area

`ParticlesBase` launches its kernels with a block for each supercell of an area, which the mapper of the area
counts off.

* `mem_areaSuperCells`: these are the supercells of the area, and every block has one of its own.
* `fillGaps_area_ends`: what `fillGaps` does to a whole area, and to the rest of the grid.
-/

namespace Spearhed
namespace PmaccParticles

open Library Mappings MappingDescription

variable {DIM frameSize : ℕ} {A : Type}

/-- The blocks of a launch. -/
def gridBlocks (gridDim : DataSpace DIM) : Finset (DataSpace DIM) :=
  Fintype.piFinset fun d => (Finset.range (gridDim d).toNat).image Nat.cast

theorem mem_gridBlocks {gridDim b : DataSpace DIM} : b ∈ gridBlocks gridDim ↔ b ∈ blocks gridDim := by
  rw [gridBlocks, Fintype.mem_piFinset, mem_blocks]
  refine forall_congr' fun d => ?_
  rw [Finset.mem_image]
  refine ⟨?_, fun h => ⟨(b d).toNat, Finset.mem_range.mpr (by omega), by omega⟩⟩
  rintro ⟨i, hi, hb⟩
  have hlt := Finset.mem_range.mp hi
  omega

section Area

variable [GuardMapping DIM] (M : MappingDescription DIM) (area : AreaType)

/-- The supercells of the blocks. -/
def areaSuperCells : Finset (DataSpace DIM) := (gridBlocks (M.getGridDim area)).image (M.getSuperCellIndex area)

variable {M area} [LawfulGuardMapping DIM]

/-- **A launch over an area has its supercells.** -/
theorem mem_areaSuperCells (h : M.Usable) {c : DataSpace DIM} : c ∈ areaSuperCells M area ↔ c ∈ M.areaCells area := by
  rw [areaSuperCells, Finset.mem_image, ← (h.bijOn area).image_eq]
  exact exists_congr fun b => and_congr_left fun _ => mem_gridBlocks

end Area

/-- `ParticlesBase::fillGaps` for the mapper of an area. -/
def fillGaps [GuardMapping DIM] (M : MappingDescription DIM) (area : AreaType) (box : ParticlesBox DIM frameSize A) :
    StepSystem (FillGaps.State DIM frameSize A) :=
  FillGaps.system (areaSuperCells M area) box

/-- **Filling the gaps of an area.**  Each block has a supercell of its own.  Every run ends, whatever numbers
the threads get and in whatever order the blocks take their steps; then every supercell of the area is
well-formed, with the particles that it had.  The frames that are no longer needed are back in the heap, and
the supercells outside of the area are as they were. -/
theorem fillGaps_area_ends [GuardMapping DIM] [LawfulGuardMapping DIM] {M : MappingDescription DIM} (hM : M.Usable)
    (area : AreaType) {box : ParticlesBox DIM frameSize A} {L : DataSpace DIM → List FramePtr} (h : box.Holds L)
    (hunmarked : ∀ c ∈ M.areaCells area, ∀ p ∈ L c, Unmarked (box.frames p).slots) (hpos : 0 < frameSize)
    (hF : frameSize ≤ INV_LOC_IDX) (hlt : ∀ c ∈ M.areaCells area, (box.particles (L c)).card < 2 ^ 32) :
    Set.InjOn (M.getSuperCellIndex area) (blocks (M.getGridDim area)) ∧
      (fillGaps M area box).Ends ⟨box, fun _ => .start⟩ fun s => ∃ L', s.box.Holds L' ∧
        (∀ c ∈ M.areaCells area, ForEachParticle.WellFormed s.box c (L' c)) ∧
        (∀ c, L' c <+: L c ∧ s.box.particles (L' c) = box.particles (L c) ∧
          (s.box.superCells c).mustShift = (box.superCells c).mustShift) ∧
        (∀ c ∉ M.areaCells area, L' c = L c ∧ s.box.superCells c = box.superCells c ∧
          ∀ p ∈ L c, s.box.frames p = box.frames p) ∧
        ∀ p, p ∈ s.box.allocated ↔ p ∈ box.allocated ∧ ∀ c, p ∈ L c → p ∈ L' c := by
  refine ⟨(hM.bijOn area).injOn, (FillGaps.fillGaps_ends h (fun c hc => hunmarked c ((mem_areaSuperCells hM).mp hc)) hpos hF
    fun c hc => hlt c ((mem_areaSuperCells hM).mp hc)).mono ?_⟩
  rintro s ⟨L', hkept, hwell⟩
  exact ⟨L', hkept.holds, fun c hc => (hwell c ((mem_areaSuperCells hM).mpr hc)).2,
    fun c => ⟨hkept.sublist c, hkept.particles c, hkept.mustShift c⟩,
    fun c hc => hkept.others c fun hmem => hc ((mem_areaSuperCells hM).mp hmem), hkept.allocated⟩

/-- A grid of four times four supercells, the outer ones of which are the guard. -/
def sixteenSuperCells : MappingDescription 2 := ⟨![4, 4], ![1, 1], by decide, by decide⟩

theorem sixteenSuperCells_usable : sixteenSuperCells.Usable := by
  refine ⟨by decide, ?_⟩
  rw [InIndexSpace, Fin.prod_univ_two]
  decide

/-- Two frames for two particles, both half empty. -/
def gapBox : ParticlesBox 2 2 ℕ :=
  let memory : ParticlesBox 2 2 ℕ := ⟨fun _ => ⟨fun _ => ⟨0, 0⟩, none, none⟩, ∅, fun _ => ⟨none, none, 0, false⟩⟩
  let first := (memory.reset.getEmptyFrame 0).setAsLastFrame 0 0
  let second := (first.getEmptyFrame 1).setAsLastFrame 1 0
  (second.setSlots 0 ![⟨0, 0⟩, ⟨1, 7⟩]).setSlots 1 ![⟨1, 8⟩, ⟨0, 0⟩]

/-- The frames of `gapBox`. -/
def gapLists : DataSpace 2 → List FramePtr :=
  Function.update (Function.update (fun _ => []) 0 [0]) 0 [0, 1]

theorem gapLists_of_ne {c : DataSpace 2} (hc : c ≠ 0) : gapLists c = [] := by
  rw [gapLists, Function.update_of_ne hc, Function.update_of_ne hc]

theorem gapBox_holds : gapBox.Holds gapLists := by
  have hfirst := ((ParticlesBox.Holds.reset (⟨fun _ => ⟨fun _ => ⟨0, 0⟩, none, none⟩, ∅,
    fun _ => ⟨none, none, 0, false⟩⟩ : ParticlesBox 2 2 ℕ)).getEmptyFrame (p := 0)).setAsLastFrame
    (fun _ => List.not_mem_nil) (Finset.mem_insert_self 0 _) 0
  refine (((hfirst.getEmptyFrame (p := 1)).setAsLastFrame (p := 1) (fun c => ?_) (Finset.mem_insert_self 1 _) 0).setSlots _).setSlots _
  rcases eq_or_ne c 0 with rfl | hne
  · rw [Function.update_self]
    decide
  · rw [Function.update_of_ne hne]
    exact List.not_mem_nil

/-- Its two particles end up in one frame. -/
theorem fillGaps_area_ends_gapBox :
    Set.InjOn (sixteenSuperCells.getSuperCellIndex .GUARD) (blocks (sixteenSuperCells.getGridDim .GUARD)) ∧
      (fillGaps sixteenSuperCells .GUARD gapBox).Ends ⟨gapBox, fun _ => .start⟩ fun s => ∃ L', s.box.Holds L' ∧
        (∀ c ∈ sixteenSuperCells.areaCells .GUARD, ForEachParticle.WellFormed s.box c (L' c)) ∧
        (∀ c, L' c <+: gapLists c ∧ s.box.particles (L' c) = gapBox.particles (gapLists c) ∧
          (s.box.superCells c).mustShift = (gapBox.superCells c).mustShift) ∧
        (∀ c ∉ sixteenSuperCells.areaCells .GUARD, L' c = gapLists c ∧ s.box.superCells c = gapBox.superCells c ∧
          ∀ p ∈ gapLists c, s.box.frames p = gapBox.frames p) ∧
        ∀ p, p ∈ s.box.allocated ↔ p ∈ gapBox.allocated ∧ ∀ c, p ∈ gapLists c → p ∈ L' c :=
  fillGaps_area_ends sixteenSuperCells_usable .GUARD gapBox_holds
    (fun c _ p hp i => by
      rcases eq_or_ne c 0 with rfl | hne
      · rw [gapLists, Function.update_self] at hp
        rcases List.mem_pair.mp hp with rfl | rfl <;> revert i <;> decide
      · rw [gapLists_of_ne hne] at hp
        exact absurd hp List.not_mem_nil)
    (by decide) (by decide) fun c _ => by
      rcases eq_or_ne c 0 with rfl | hne
      · rw [gapLists, Function.update_self]
        decide
      · rw [gapLists_of_ne hne]
        exact Nat.two_pow_pos 32

end PmaccParticles
end Spearhed
