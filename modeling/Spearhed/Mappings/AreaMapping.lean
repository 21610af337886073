import Mathlib.Algebra.Order.Ring.Int
import Mathlib.Logic.Equiv.Fin.Rotate
import Mathlib.Tactic.Abel
import Spearhed.Mappings.MappingDescription

/-!
# The mapper of the areas of a grid

A kernel over an area is launched with `getGridDim` blocks, and `getSuperCellIndex` says which
supercell a block works on.  Three of the areas are boxes and their mappers translate the block
index.  GUARD is a shell: both planes of an axis are counted off by the first component of the block
index, slab after slab, and the second component chooses the plane.  BORDER is the shell of the grid
without its guard.

`bijOn_guardIndex` says that the blocks count off the shell of any grid that holds two guards; it is
proved for two and for three dimensions on their own, since the slabs differ.
-/

namespace Spearhed
namespace Mappings

open Library

/-! ## The shell of a grid -/

/-- The mapper of GUARD, which exists for two and for three dimensions. -/
class GuardMapping (DIM : ℕ) where
  /-- The blocks, from the guard and the grid. -/
  getGridDim : DataSpace DIM → DataSpace DIM → DataSpace DIM
  /-- The supercell of a block, from the guard, the grid and the block index. -/
  getSuperCellIndex : DataSpace DIM → DataSpace DIM → DataSpace DIM → DataSpace DIM

/-! The bodies of the methods.  Every result of type `int` goes through `int`: that is `int32` in the
code, and `id` in an arithmetic without overflow. -/

section Methods

variable (int : ℤ → ℤ)

def guardGridDim2 (guard gBlocks : DataSpace 2) : DataSpace 2 :=
  let x := gBlocks 0
  let y_ := int (gBlocks 1 - int (2 * guard 1))
  let xArea := int (x * guard 1)
  let y_Area := int (y_ * guard 0)
  ![int (xArea + y_Area), 2]

def guardSuperCellIndex2 (guard gBlocks blockIdx : DataSpace 2) : DataSpace 2 :=
  let x := gBlocks 0
  let xArea := int (x * guard 1)
  if blockIdx 0 < xArea then
    let tmp_x := blockIdx 0
    -- the second component of the block is 1 in the bottom plane
    ![tmp_x.tmod x, int (tmp_x.tdiv x + int (blockIdx 1 * int (gBlocks 1 - guard 1)))]
  else
    let tmp_x := int (blockIdx 0 - xArea)
    -- 1 in the right plane
    ![int (tmp_x.tmod (guard 0) + int (blockIdx 1 * int (gBlocks 0 - guard 0))), int (tmp_x.tdiv (guard 0) + guard 1)]

def guardGridDim3 (guard gBlocks : DataSpace 3) : DataSpace 3 :=
  let x := gBlocks 0
  let x_ := int (gBlocks 0 - int (2 * guard 0))
  let y := gBlocks 1
  let z_ := int (gBlocks 2 - int (2 * guard 2))
  let xyVolume := int (int (x * y) * guard 2)
  let z_yVolume := int (int (z_ * y) * guard 0)
  let z_x_Volume := int (int (z_ * x_) * guard 1)
  ![int (int (xyVolume + z_x_Volume) + z_yVolume), 2, 1]

def guardSuperCellIndex3 (guard gBlocks blockIdx : DataSpace 3) : DataSpace 3 :=
  let x := gBlocks 0
  let x_ := int (gBlocks 0 - int (2 * guard 0))
  let y := gBlocks 1
  let z_ := int (gBlocks 2 - int (2 * guard 2))
  let xyVolume := int (int (x * y) * guard 2)
  let z_yVolume := int (int (z_ * y) * guard 0)
  if blockIdx 0 < xyVolume then
    let xyPlane := int (x * y)
    let tmp_x := blockIdx 0
    -- the second component of the block is 1 in the back plane
    ![tmp_x.tmod x, (tmp_x.tdiv x).tmod y,
      int (tmp_x.tdiv xyPlane + int (blockIdx 1 * int (gBlocks 2 - guard 2)))]
  else if blockIdx 0 ≥ xyVolume ∧ blockIdx 0 < int (xyVolume + z_yVolume) then
    let z_yPlane := int (z_ * y)
    let tmp_x := int (blockIdx 0 - xyVolume)
    -- 1 in the right plane
    ![int (tmp_x.tdiv z_yPlane + int (blockIdx 1 * int (gBlocks 0 - guard 0))), tmp_x.tmod y,
      int ((tmp_x.tdiv y).tmod z_ + guard 2)]
  else
    let x_z_Plane := int (x_ * z_)
    let tmp_x := int (int (blockIdx 0 - xyVolume) - z_yVolume)
    -- 1 in the bottom plane
    ![int (tmp_x.tmod x_ + guard 0), int (tmp_x.tdiv x_z_Plane + int (blockIdx 1 * int (gBlocks 1 - guard 1))),
      int ((tmp_x.tdiv x_).tmod z_ + guard 2)]

end Methods

instance : GuardMapping 2 := ⟨guardGridDim2 int32, guardSuperCellIndex2 int32⟩

instance : GuardMapping 3 := ⟨guardGridDim3 int32, guardSuperCellIndex3 int32⟩

/-- The cells of a grid that are in its outermost guards. -/
def shell {DIM : ℕ} (guard gBlocks : DataSpace DIM) : Set (DataSpace DIM) := box 0 gBlocks \ box guard (gBlocks - guard)

/-- The shell of a grid that is put inside another, one guard away from its origin. -/
theorem bijOn_add_shell {DIM : ℕ} (guard gBlocks : DataSpace DIM) :
    Set.BijOn (fun c => c + guard) (shell guard gBlocks)
      (box guard (gBlocks + guard) \ box (guard + guard) (gBlocks - guard + guard)) := by
  have hinj : Function.Injective fun c : DataSpace DIM => c + guard := add_left_injective guard
  have himage : (fun c => c + guard) '' shell guard gBlocks =
      box guard (gBlocks + guard) \ box (guard + guard) (gBlocks - guard + guard) := by
    rw [shell, Set.image_sdiff hinj, (bijOn_add_box _ _ guard).image_eq, (bijOn_add_box _ _ guard).image_eq, zero_add]
  exact himage ▸ hinj.injOn.bijOn_image

/-- The guard is not negative, the grid holds two guards, and both are of type `int`. -/
def HoldsGuards {DIM : ℕ} (guard gBlocks : DataSpace DIM) : Prop :=
  ∀ d, 0 ≤ guard d ∧ 2 * guard d ≤ gBlocks d ∧ gBlocks d < 2 ^ 31

theorem shell_subset {DIM : ℕ} (guard gBlocks : DataSpace DIM) : shell guard gBlocks ⊆ box 0 gBlocks := Set.sdiff_subset

theorem ncard_shell {DIM : ℕ} {guard gBlocks : DataSpace DIM} (h : HoldsGuards guard gBlocks) :
    ((shell guard gBlocks).ncard : ℤ) = shellVolume guard gBlocks := by
  have hinner : box guard (gBlocks - guard) ⊆ box 0 gBlocks :=
    box_subset_box (fun d => (h d).1) fun d => sub_le_self _ (h d).1
  have hsize : ∀ d, guard d ≤ (gBlocks - guard) d := fun d => by
    have hd := h d
    rw [Pi.sub_apply]
    omega
  have hsplit := Set.ncard_sdiff_add_ncard_of_subset hinner (finite_box _ _)
  have hall := ncard_box 0 gBlocks fun d => by
    have hd := h d
    rw [Pi.zero_apply]
    omega
  have hmiddle := ncard_box _ _ hsize
  have hprod : ∏ d, ((gBlocks - guard) d - guard d) = ∏ d, (gBlocks d - 2 * guard d) :=
    Finset.prod_congr rfl fun d _ => by rw [Pi.sub_apply]; ring
  simp only [Pi.zero_apply, sub_zero] at hall
  rw [hprod] at hmiddle
  rw [shell, shellVolume]
  omega

/-- The blocks of the mapper count off the shell of every grid that holds two guards and has a shell that
two numbers of type `int` count off; they never count off more. -/
class LawfulGuardMapping (DIM : ℕ) [GuardMapping DIM] : Prop where
  gridDim_nonneg {guard gBlocks : DataSpace DIM} (h : HoldsGuards guard gBlocks)
    (hfits : shellVolume guard gBlocks < 2 ^ 32) (d : Fin DIM) : 0 ≤ GuardMapping.getGridDim guard gBlocks d
  bijOn_guardIndex {guard gBlocks : DataSpace DIM} (h : HoldsGuards guard gBlocks)
    (hfits : shellVolume guard gBlocks < 2 ^ 32) :
    Set.BijOn (GuardMapping.getSuperCellIndex guard gBlocks) (blocks (GuardMapping.getGridDim guard gBlocks))
      (shell guard gBlocks)
  prod_gridDim_lt (guard gBlocks : DataSpace DIM) : ∏ d, GuardMapping.getGridDim guard gBlocks d < 2 ^ 32

/-- A shell that the blocks count off is not too large. -/
theorem shellVolume_lt_of_bijOn {DIM : ℕ} [GuardMapping DIM] [LawfulGuardMapping DIM] {guard gBlocks : DataSpace DIM}
    (h : HoldsGuards guard gBlocks) (hnonneg : ∀ d, 0 ≤ GuardMapping.getGridDim guard gBlocks d)
    {f : DataSpace DIM → DataSpace DIM}
    (hbijOn : Set.BijOn f (blocks (GuardMapping.getGridDim guard gBlocks)) (shell guard gBlocks)) :
    shellVolume guard gBlocks < 2 ^ 32 := by
  have hblocks := ncard_box 0 _ hnonneg
  simp only [Pi.zero_apply, sub_zero] at hblocks
  calc shellVolume guard gBlocks = (shell guard gBlocks).ncard := (ncard_shell h).symm
    _ = (blocks (GuardMapping.getGridDim guard gBlocks)).ncard := by
        rw [← hbijOn.image_eq, hbijOn.injOn.ncard_image]
    _ = ∏ d, GuardMapping.getGridDim guard gBlocks d := hblocks
    _ < 2 ^ 32 := LawfulGuardMapping.prod_gridDim_lt guard gBlocks

/-! ## Counting off the slabs of a shell -/

section Slabs

variable {a b : ℤ}

/-- A rectangle, first axis first. -/
theorem enumerates_rectangle (ha : 0 ≤ a) (b p q : ℤ) :
    Enumerates (fun i => (![i.tmod a + p, i.tdiv a + q] : DataSpace 2)) (a * b) (box ![p, q] ![p + a, q + b]) := by
  refine ((Enumerates.grid ha b).map (bijOn_box_two p q a b)).congr fun i hi _ => ?_
  rw [Int.tmod_eq_emod_of_nonneg hi, Int.tdiv_eq_ediv_of_nonneg hi]

/-- A cuboid, first axis first. -/
theorem enumerates_cuboid (ha : 0 ≤ a) (hb : 0 ≤ b) (l p q r : ℤ) :
    Enumerates (fun i => (![i.tmod a + p, (i.tdiv a).tmod b + q, i.tdiv (a * b) + r] : DataSpace 3)) (a * b * l)
      (box ![p, q, r] ![p + a, q + b, r + l]) := by
  refine ((Enumerates.grid3 ha hb l).map (bijOn_box_three p q r a b l)).congr fun i hi _ => ?_
  rw [Int.tmod_eq_emod_of_nonneg hi, Int.tdiv_eq_ediv_of_nonneg hi, Int.tdiv_eq_ediv_of_nonneg hi,
    Int.tmod_eq_emod_of_nonneg (Int.ediv_nonneg hi ha)]

/-- A cuboid with its second axis first, the third next and the first outermost. -/
theorem enumerates_cuboid_yzx (ha : 0 ≤ a) (hb : 0 ≤ b) (l p q r : ℤ) :
    Enumerates (fun i => (![i.tdiv (b * a) + p, i.tmod a + q, (i.tdiv a).tmod b + r] : DataSpace 3)) (b * a * l)
      (box ![p, q, r] ![p + l, q + a, r + b]) := by
  have hmap := (enumerates_cuboid ha hb l q r p).map (bijOn_box_comp (finRotate 3).symm _ _)
  rw [mul_comm b a]
  have hlo : (![q, r, p] : DataSpace 3) ∘ (finRotate 3).symm = ![p, q, r] := by funext d; fin_cases d <;> rfl
  have hhi : (![q + a, r + b, p + l] : DataSpace 3) ∘ (finRotate 3).symm = ![p + l, q + a, r + b] := by
    funext d; fin_cases d <;> rfl
  rw [hlo, hhi] at hmap
  refine hmap.congr fun i _ _ => ?_
  funext d
  fin_cases d <;> rfl

/-- A cuboid with its first axis first, the third next and the second outermost. -/
theorem enumerates_cuboid_xzy (ha : 0 ≤ a) (hb : 0 ≤ b) (l p q r : ℤ) :
    Enumerates (fun i => (![i.tmod a + p, i.tdiv (a * b) + q, (i.tdiv a).tmod b + r] : DataSpace 3)) (a * b * l)
      (box ![p, q, r] ![p + a, q + l, r + b]) := by
  have hmap := (enumerates_cuboid ha hb l p r q).map (bijOn_box_comp (Equiv.swap 1 2) _ _)
  have hlo : (![p, r, q] : DataSpace 3) ∘ Equiv.swap 1 2 = ![p, q, r] := by funext d; fin_cases d <;> rfl
  have hhi : (![p + a, r + b, q + l] : DataSpace 3) ∘ Equiv.swap 1 2 = ![p + a, q + l, r + b] := by
    funext d; fin_cases d <;> rfl
  rw [hlo, hhi] at hmap
  refine hmap.congr fun i _ _ => ?_
  funext d
  fin_cases d <;> rfl

theorem Ico_zero_two : Set.Ico (0 : ℤ) 2 = {0, 1} := by
  ext s
  simp only [Set.mem_Ico, Set.mem_insert_iff, Set.mem_singleton_iff]
  omega

theorem pairwiseDisjoint_Ico_zero_two {DIM : ℕ} {P : ℤ → Set (DataSpace DIM)} (hP : Disjoint (P 0) (P 1)) :
    (Set.Ico (0 : ℤ) 2).PairwiseDisjoint P := by
  rw [Ico_zero_two, Set.pairwiseDisjoint_insert]
  refine ⟨Set.pairwiseDisjoint_singleton _ _, fun s hs _ => ?_⟩
  rwa [Set.mem_singleton_iff.mp hs]

theorem bijOn_blocks_two (N : ℤ) :
    Set.BijOn (fun b : DataSpace 2 => (b 0, b 1)) (blocks ![N, 2]) (Set.Ico 0 N ×ˢ Set.Ico 0 2) := by
  refine ⟨fun b hb => ⟨hb 0, hb 1⟩, fun b _ b' _ hbb' => ?_, fun p hp => ⟨![p.1, p.2], ?_, rfl⟩⟩
  · obtain ⟨h0, h1⟩ := Prod.mk.inj hbb'
    exact funext (Fin.forall_fin_two.mpr ⟨h0, h1⟩)
  · exact Fin.forall_fin_two.mpr ⟨hp.1, hp.2⟩

theorem bijOn_blocks_three (N : ℤ) :
    Set.BijOn (fun b : DataSpace 3 => (b 0, b 1)) (blocks ![N, 2, 1]) (Set.Ico 0 N ×ˢ Set.Ico 0 2) := by
  refine ⟨fun b hb => ⟨hb 0, hb 1⟩, fun b hb b' hb' hbb' => ?_, fun p hp => ⟨![p.1, p.2, 0], ?_, rfl⟩⟩
  · obtain ⟨h0, h1⟩ := Prod.mk.inj hbb'
    have h2 : ∀ {c : DataSpace 3}, c ∈ blocks ![N, 2, 1] → c 2 = 0 := fun hc =>
      le_antisymm (Int.lt_add_one_iff.mp (hc 2).2) (hc 2).1
    funext d
    fin_cases d
    · exact h0
    · exact h1
    · exact (h2 hb).trans (h2 hb').symm
  · exact mem_box_fin_three.mpr ⟨hp.1, hp.2, le_refl 0, zero_lt_one⟩

end Slabs

/-! ## Two dimensions -/

section TwoDimensions

variable {guard gBlocks : DataSpace 2}

/-- The plane `s` of the shell: a full row block, and a column block between the rows. -/
def shellPlane2 (guard gBlocks : DataSpace 2) (s : ℤ) : Set (DataSpace 2) :=
  box ![0, s * (gBlocks 1 - guard 1)] ![0 + gBlocks 0, s * (gBlocks 1 - guard 1) + guard 1] ∪
    box ![s * (gBlocks 0 - guard 0), guard 1]
      ![s * (gBlocks 0 - guard 0) + guard 0, guard 1 + (gBlocks 1 - 2 * guard 1)]

theorem enumerates_shellPlane2 (h : HoldsGuards guard gBlocks) {s : ℤ} (hs : s ∈ Set.Ico (0 : ℤ) 2) :
    Enumerates (fun i => guardSuperCellIndex2 id guard gBlocks ![i, s])
      (guardGridDim2 id guard gBlocks 0) (shellPlane2 guard gBlocks s) := by
  have hx := h 0
  have hy := h 1
  have hrows := enumerates_rectangle (a := gBlocks 0) (by omega) (guard 1) 0 (s * (gBlocks 1 - guard 1))
  have hcolumns := enumerates_rectangle hx.1 (gBlocks 1 - 2 * guard 1) (s * (gBlocks 0 - guard 0)) (guard 1)
  have happend := hrows.append (mul_nonneg (by omega) hy.1) (mul_nonneg hx.1 (by omega)) hcolumns ?_
  · rw [mul_comm (guard 0)] at happend
    refine happend.congr fun i _ _ => ?_
    rw [add_zero]
    rfl
  · refine Set.disjoint_left.mpr fun c hrow hcolumn => ?_
    rw [mem_box_fin_two] at hrow hcolumn
    obtain rfl | rfl : s = 0 ∨ s = 1 := by simpa [Ico_zero_two] using hs
    all_goals
      simp at hrow hcolumn
      omega

theorem iUnion_shellPlane2 (h : HoldsGuards guard gBlocks) :
    ⋃ s ∈ Set.Ico (0 : ℤ) 2, shellPlane2 guard gBlocks s = shell guard gBlocks := by
  rw [Ico_zero_two, Set.biUnion_pair]
  ext c
  have hx := h 0
  have hy := h 1
  simp only [shellPlane2, shell, Set.mem_union, Set.mem_sdiff, mem_box_fin_two]
  simp
  omega

theorem pairwiseDisjoint_shellPlane2 (h : HoldsGuards guard gBlocks) :
    (Set.Ico (0 : ℤ) 2).PairwiseDisjoint (shellPlane2 guard gBlocks) := by
  have hdisjoint : Disjoint (shellPlane2 guard gBlocks 0) (shellPlane2 guard gBlocks 1) := by
    refine Set.disjoint_left.mpr fun c hleft hright => ?_
    have hx := h 0
    have hy := h 1
    simp only [shellPlane2, Set.mem_union, mem_box_fin_two] at hleft hright
    simp at hleft hright
    omega
  exact pairwiseDisjoint_Ico_zero_two hdisjoint

theorem bijOn_guardSuperCellIndex2 (h : HoldsGuards guard gBlocks) :
    Set.BijOn (guardSuperCellIndex2 id guard gBlocks) (blocks (guardGridDim2 id guard gBlocks)) (shell guard gBlocks) := by
  have hplanes := Enumerates.planes (fun s hs => enumerates_shellPlane2 h hs) (pairwiseDisjoint_shellPlane2 h)
  rw [iUnion_shellPlane2 h] at hplanes
  exact hplanes.comp (bijOn_blocks_two _)

/-- The volumes that the first component of a block is compared with. -/
theorem areas_two (h : HoldsGuards guard gBlocks) (hfits : shellVolume guard gBlocks < 2 ^ 32) :
    0 ≤ gBlocks 0 * guard 1 ∧ 0 ≤ (gBlocks 1 - 2 * guard 1) * guard 0 ∧
      gBlocks 0 * guard 1 + (gBlocks 1 - 2 * guard 1) * guard 0 < 2 ^ 31 := by
  have hx := h 0
  have hy := h 1
  refine ⟨mul_nonneg (by omega) hy.1, mul_nonneg (by omega) hx.1, ?_⟩
  have htwice : shellVolume guard gBlocks = 2 * (gBlocks 0 * guard 1 + (gBlocks 1 - 2 * guard 1) * guard 0) := by
    rw [shellVolume, Fin.prod_univ_two, Fin.prod_univ_two]
    ring
  omega

theorem guardGridDim2_int32 (h : HoldsGuards guard gBlocks) (hfits : shellVolume guard gBlocks < 2 ^ 32) :
    guardGridDim2 int32 guard gBlocks = guardGridDim2 id guard gBlocks := by
  obtain ⟨hx, hy, hlt⟩ := areas_two h hfits
  simp only [guardGridDim2, int32_add_int32, int32_int32_add, int32_sub_int32, int32_int32_mul, id]
  rw [int32_eq_of_nonneg (add_nonneg hx hy) hlt]

/-- No block of a shell that is not too large meets an overflow. -/
theorem guardSuperCellIndex2_int32 (h : HoldsGuards guard gBlocks) (hfits : shellVolume guard gBlocks < 2 ^ 32)
    {b : DataSpace 2} (hb : b ∈ blocks (guardGridDim2 id guard gBlocks)) :
    guardSuperCellIndex2 int32 guard gBlocks b = guardSuperCellIndex2 id guard gBlocks b := by
  obtain ⟨hx, hy, hlt⟩ := areas_two h hfits
  have hcell := shell_subset _ _ ((bijOn_guardSuperCellIndex2 h).mapsTo hb)
  have hfit : ∀ d, int32 (guardSuperCellIndex2 id guard gBlocks b d) = guardSuperCellIndex2 id guard gBlocks b d :=
    fun d => int32_eq_of_nonneg (hcell d).1 ((hcell d).2.trans (h d).2.2)
  have harea : int32 (gBlocks 0 * guard 1) = gBlocks 0 * guard 1 := int32_eq_of_nonneg hx (by omega)
  obtain ⟨hb0, hb0'⟩ := hb 0
  have hb0'' : b 0 < gBlocks 0 * guard 1 + (gBlocks 1 - 2 * guard 1) * guard 0 := hb0'
  simp only [guardSuperCellIndex2, harea, int32_add_int32, int32_mul_int32, id] at hfit ⊢
  by_cases hfirst : b 0 < gBlocks 0 * guard 1
  · simp only [if_pos hfirst] at hfit ⊢
    exact funext (Fin.forall_fin_two.mpr ⟨rfl, hfit 1⟩)
  · have htmp : int32 (b 0 - gBlocks 0 * guard 1) = b 0 - gBlocks 0 * guard 1 := int32_eq_of_nonneg (by omega) (by omega)
    simp only [if_neg hfirst, htmp] at hfit ⊢
    exact funext (Fin.forall_fin_two.mpr ⟨hfit 0, hfit 1⟩)

instance : LawfulGuardMapping 2 where
  gridDim_nonneg {guard gBlocks} h hfits := by
    obtain ⟨hx, hy, -⟩ := areas_two h hfits
    show ∀ d, 0 ≤ guardGridDim2 int32 guard gBlocks d
    rw [guardGridDim2_int32 h hfits]
    exact Fin.forall_fin_two.mpr ⟨add_nonneg hx hy, zero_le_two⟩
  bijOn_guardIndex {guard gBlocks} h hfits := by
    show Set.BijOn (guardSuperCellIndex2 int32 guard gBlocks) (blocks (guardGridDim2 int32 guard gBlocks)) _
    rw [guardGridDim2_int32 h hfits]
    exact (bijOn_guardSuperCellIndex2 h).congr fun b hb => (guardSuperCellIndex2_int32 h hfits hb).symm
  prod_gridDim_lt guard gBlocks := by
    have hfirst : IsInt32 (GuardMapping.getGridDim guard gBlocks 0) := isInt32_int32 _
    rw [Fin.prod_univ_two]
    show GuardMapping.getGridDim guard gBlocks 0 * 2 < 2 ^ 32
    have hlt := hfirst.2
    omega

end TwoDimensions

/-! ## Three dimensions -/

section ThreeDimensions

variable {guard gBlocks : DataSpace 3}

/-- The plane `s` of the shell: a full slab of the z axis, a slab of the x axis between these, and a
slab of the y axis between both. -/
def shellPlane3 (guard gBlocks : DataSpace 3) (s : ℤ) : Set (DataSpace 3) :=
  box ![0, 0, s * (gBlocks 2 - guard 2)] ![0 + gBlocks 0, 0 + gBlocks 1, s * (gBlocks 2 - guard 2) + guard 2] ∪
    (box ![s * (gBlocks 0 - guard 0), 0, guard 2]
        ![s * (gBlocks 0 - guard 0) + guard 0, 0 + gBlocks 1, guard 2 + (gBlocks 2 - 2 * guard 2)] ∪
      box ![guard 0, s * (gBlocks 1 - guard 1), guard 2]
        ![guard 0 + (gBlocks 0 - 2 * guard 0), s * (gBlocks 1 - guard 1) + guard 1,
          guard 2 + (gBlocks 2 - 2 * guard 2)])

theorem enumerates_shellPlane3 (h : HoldsGuards guard gBlocks) {s : ℤ} (hs : s ∈ Set.Ico (0 : ℤ) 2) :
    Enumerates (fun i => guardSuperCellIndex3 id guard gBlocks ![i, s, 0])
      (guardGridDim3 id guard gBlocks 0) (shellPlane3 guard gBlocks s) := by
  obtain ⟨hx, hx'⟩ := h 0
  obtain ⟨hy, hy'⟩ := h 1
  obtain ⟨hz, hz'⟩ := h 2
  have hgx : 0 ≤ gBlocks 0 := by omega
  have hgy : 0 ≤ gBlocks 1 := by omega
  have hx_ : 0 ≤ gBlocks 0 - 2 * guard 0 := by omega
  have hz_ : 0 ≤ gBlocks 2 - 2 * guard 2 := by omega
  have hxy := enumerates_cuboid hgx hgy (guard 2) 0 0 (s * (gBlocks 2 - guard 2))
  have hz_y := enumerates_cuboid_yzx hgy hz_ (guard 0) (s * (gBlocks 0 - guard 0)) 0 (guard 2)
  have hx_z := enumerates_cuboid_xzy hx_ hz_ (guard 1) (guard 0) (s * (gBlocks 1 - guard 1)) (guard 2)
  have hrest := hz_y.append (by positivity) (by positivity) hx_z ?_
  · have happend := hxy.append (by positivity) (by positivity) hrest ?_
    · have hvolume : guardGridDim3 id guard gBlocks 0 =
          gBlocks 0 * gBlocks 1 * guard 2 + ((gBlocks 2 - 2 * guard 2) * gBlocks 1 * guard 0 +
            (gBlocks 0 - 2 * guard 0) * (gBlocks 2 - 2 * guard 2) * guard 1) := by
        calc guardGridDim3 id guard gBlocks 0 =
              gBlocks 0 * gBlocks 1 * guard 2 + (gBlocks 2 - 2 * guard 2) * (gBlocks 0 - 2 * guard 0) * guard 1 +
                (gBlocks 2 - 2 * guard 2) * gBlocks 1 * guard 0 := rfl
          _ = _ := by ring
      rw [hvolume]
      refine happend.congr fun i _ _ => ?_
      -- the source tests the second slab against both of its ends and the third by what is left
      have hslab : i - gBlocks 0 * gBlocks 1 * guard 2 < (gBlocks 2 - 2 * guard 2) * gBlocks 1 * guard 0 ↔
          i < gBlocks 0 * gBlocks 1 * guard 2 + (gBlocks 2 - 2 * guard 2) * gBlocks 1 * guard 0 := by
        rw [sub_lt_iff_lt_add, add_comm]
      change (if i < gBlocks 0 * gBlocks 1 * guard 2 then _ else if i ≥ gBlocks 0 * gBlocks 1 * guard 2 ∧
        i < gBlocks 0 * gBlocks 1 * guard 2 + (gBlocks 2 - 2 * guard 2) * gBlocks 1 * guard 0 then _ else _) = _
      by_cases hfirst : i < gBlocks 0 * gBlocks 1 * guard 2
      · rw [if_pos hfirst, if_pos hfirst, add_zero, add_zero]
        rfl
      · rw [if_neg hfirst, if_neg hfirst]
        by_cases hsecond : i - gBlocks 0 * gBlocks 1 * guard 2 < (gBlocks 2 - 2 * guard 2) * gBlocks 1 * guard 0
        · rw [if_pos hsecond, if_pos ⟨not_lt.mp hfirst, hslab.mp hsecond⟩, add_zero]
          rfl
        · rw [if_neg hsecond, if_neg fun hboth => hsecond (hslab.mpr hboth.2)]
          rfl
    · refine Set.disjoint_left.mpr fun c hfirst hrest => ?_
      rw [Set.mem_union, mem_box_fin_three, mem_box_fin_three] at hrest
      rw [mem_box_fin_three] at hfirst
      obtain rfl | rfl : s = 0 ∨ s = 1 := by simpa [Ico_zero_two] using hs
      all_goals
        simp at hfirst hrest
        omega
  · refine Set.disjoint_left.mpr fun c hsecond hthird => ?_
    rw [mem_box_fin_three] at hsecond hthird
    obtain rfl | rfl : s = 0 ∨ s = 1 := by simpa [Ico_zero_two] using hs
    all_goals
      simp at hsecond hthird
      omega

theorem iUnion_shellPlane3 (h : HoldsGuards guard gBlocks) :
    ⋃ s ∈ Set.Ico (0 : ℤ) 2, shellPlane3 guard gBlocks s = shell guard gBlocks := by
  rw [Ico_zero_two, Set.biUnion_pair]
  ext c
  have hx := h 0
  have hy := h 1
  have hz := h 2
  simp only [shellPlane3, shell, Set.mem_union, Set.mem_sdiff, mem_box_fin_three]
  simp
  omega

theorem pairwiseDisjoint_shellPlane3 (h : HoldsGuards guard gBlocks) :
    (Set.Ico (0 : ℤ) 2).PairwiseDisjoint (shellPlane3 guard gBlocks) := by
  have hdisjoint : Disjoint (shellPlane3 guard gBlocks 0) (shellPlane3 guard gBlocks 1) := by
    refine Set.disjoint_left.mpr fun c hleft hright => ?_
    have hx := h 0
    have hy := h 1
    have hz := h 2
    simp only [shellPlane3, Set.mem_union, mem_box_fin_three] at hleft hright
    simp at hleft hright
    omega
  exact pairwiseDisjoint_Ico_zero_two hdisjoint

theorem bijOn_guardSuperCellIndex3 (h : HoldsGuards guard gBlocks) :
    Set.BijOn (guardSuperCellIndex3 id guard gBlocks) (blocks (guardGridDim3 id guard gBlocks)) (shell guard gBlocks) := by
  have hplanes := Enumerates.planes (fun s hs => enumerates_shellPlane3 h hs) (pairwiseDisjoint_shellPlane3 h)
  rw [iUnion_shellPlane3 h] at hplanes
  exact hplanes.comp (bijOn_blocks_three _)

/-- The volumes that the first component of a block is compared with. -/
theorem volumes_three (h : HoldsGuards guard gBlocks) (hfits : shellVolume guard gBlocks < 2 ^ 32) :
    0 ≤ gBlocks 0 * gBlocks 1 * guard 2 ∧ 0 ≤ (gBlocks 2 - 2 * guard 2) * gBlocks 1 * guard 0 ∧
      0 ≤ (gBlocks 2 - 2 * guard 2) * (gBlocks 0 - 2 * guard 0) * guard 1 ∧
      gBlocks 0 * gBlocks 1 * guard 2 + (gBlocks 2 - 2 * guard 2) * (gBlocks 0 - 2 * guard 0) * guard 1 +
        (gBlocks 2 - 2 * guard 2) * gBlocks 1 * guard 0 < 2 ^ 31 := by
  obtain ⟨hx, hx', -⟩ := h 0
  obtain ⟨hy, hy', -⟩ := h 1
  obtain ⟨hz, hz', -⟩ := h 2
  have hgx : 0 ≤ gBlocks 0 := by omega
  have hgy : 0 ≤ gBlocks 1 := by omega
  have hx_ : 0 ≤ gBlocks 0 - 2 * guard 0 := by omega
  have hz_ : 0 ≤ gBlocks 2 - 2 * guard 2 := by omega
  refine ⟨by positivity, by positivity, by positivity, ?_⟩
  have htwice : shellVolume guard gBlocks = 2 * (gBlocks 0 * gBlocks 1 * guard 2 +
      (gBlocks 2 - 2 * guard 2) * (gBlocks 0 - 2 * guard 0) * guard 1 +
        (gBlocks 2 - 2 * guard 2) * gBlocks 1 * guard 0) := by
    rw [shellVolume, Fin.prod_univ_three, Fin.prod_univ_three]
    ring
  omega

theorem guardGridDim3_int32 (h : HoldsGuards guard gBlocks) (hfits : shellVolume guard gBlocks < 2 ^ 32) :
    guardGridDim3 int32 guard gBlocks = guardGridDim3 id guard gBlocks := by
  obtain ⟨hxy, hz_y, hz_x_, hlt⟩ := volumes_three h hfits
  simp only [guardGridDim3, int32_add_int32, int32_int32_add, int32_sub_int32, int32_int32_mul, int32_mul_int32, id]
  rw [int32_eq_of_nonneg (add_nonneg (add_nonneg hxy hz_x_) hz_y) hlt]

/-- A plane of a slab is not larger than the slab. -/
theorem int32_plane {plane depth volume i : ℤ} (hplane : 0 ≤ plane) (hdepth : 0 ≤ depth) (hlow : 0 ≤ i)
    (hi : i < plane * depth) (hvolume : plane * depth ≤ volume) (hlt : volume < 2 ^ 31) : int32 plane = plane := by
  have hpos : 1 ≤ depth := by
    rcases hdepth.eq_or_lt with rfl | hpos
    · rw [mul_zero] at hi
      omega
    · omega
  exact int32_eq_of_nonneg hplane (by nlinarith)

/-- No block of a shell that is not too large meets an overflow. -/
theorem guardSuperCellIndex3_int32 (h : HoldsGuards guard gBlocks) (hfits : shellVolume guard gBlocks < 2 ^ 32)
    {b : DataSpace 3} (hb : b ∈ blocks (guardGridDim3 id guard gBlocks)) :
    guardSuperCellIndex3 int32 guard gBlocks b = guardSuperCellIndex3 id guard gBlocks b := by
  obtain ⟨hxy, hz_y, hz_x_, hlt⟩ := volumes_three h hfits
  obtain ⟨hx, hx', hgx⟩ := h 0
  obtain ⟨hy, hy', hgy⟩ := h 1
  obtain ⟨hz, hz', hgz⟩ := h 2
  have hcell := shell_subset _ _ ((bijOn_guardSuperCellIndex3 h).mapsTo hb)
  have hfit : ∀ d, int32 (guardSuperCellIndex3 id guard gBlocks b d) = guardSuperCellIndex3 id guard gBlocks b d :=
    fun d => int32_eq_of_nonneg (hcell d).1 ((hcell d).2.trans (h d).2.2)
  have hx_ : int32 (gBlocks 0 - 2 * guard 0) = gBlocks 0 - 2 * guard 0 := int32_eq_of_nonneg (by omega) (by omega)
  have hz_ : int32 (gBlocks 2 - 2 * guard 2) = gBlocks 2 - 2 * guard 2 := int32_eq_of_nonneg (by omega) (by omega)
  have hfirst := int32_eq_of_nonneg hxy (by omega)
  have hsecond := int32_eq_of_nonneg hz_y (by omega)
  have hboth := int32_eq_of_nonneg (add_nonneg hxy hz_y) (by omega)
  obtain ⟨hb0, hb0'⟩ := hb 0
  change b 0 < gBlocks 0 * gBlocks 1 * guard 2 + (gBlocks 2 - 2 * guard 2) * (gBlocks 0 - 2 * guard 0) * guard 1 +
    (gBlocks 2 - 2 * guard 2) * gBlocks 1 * guard 0 at hb0'
  rw [Pi.zero_apply] at hb0
  simp only [guardSuperCellIndex3, int32_sub_int32, int32_int32_mul, int32_add_int32, int32_mul_int32, hx_, hz_, hfirst,
    hsecond, hboth, id] at hfit ⊢
  by_cases hslab : b 0 < gBlocks 0 * gBlocks 1 * guard 2
  · have hplane : int32 (gBlocks 0 * gBlocks 1) = gBlocks 0 * gBlocks 1 :=
      int32_plane (mul_nonneg (by omega) (by omega)) hz hb0 hslab (by omega) hlt
    simp only [if_pos hslab, hplane] at hfit ⊢
    exact funext (Fin.forall_fin_succ.mpr ⟨rfl, Fin.forall_fin_two.mpr ⟨rfl, hfit 2⟩⟩)
  have htmp : int32 (b 0 - gBlocks 0 * gBlocks 1 * guard 2) = b 0 - gBlocks 0 * gBlocks 1 * guard 2 :=
    int32_eq_of_nonneg (by omega) (by omega)
  by_cases hslab' : b 0 < gBlocks 0 * gBlocks 1 * guard 2 + (gBlocks 2 - 2 * guard 2) * gBlocks 1 * guard 0
  · have hplane : int32 ((gBlocks 2 - 2 * guard 2) * gBlocks 1) = (gBlocks 2 - 2 * guard 2) * gBlocks 1 :=
      int32_plane (i := b 0 - gBlocks 0 * gBlocks 1 * guard 2) (mul_nonneg (by omega) (by omega)) hx (by omega)
        (by omega) (by omega) hlt
    simp only [if_neg hslab, htmp, if_pos (And.intro (not_lt.mp hslab) hslab'), hplane] at hfit ⊢
    exact funext (Fin.forall_fin_succ.mpr ⟨hfit 0, Fin.forall_fin_two.mpr ⟨rfl, hfit 2⟩⟩)
  · have hrest : int32 (b 0 - gBlocks 0 * gBlocks 1 * guard 2 - (gBlocks 2 - 2 * guard 2) * gBlocks 1 * guard 0) =
        b 0 - gBlocks 0 * gBlocks 1 * guard 2 - (gBlocks 2 - 2 * guard 2) * gBlocks 1 * guard 0 :=
      int32_eq_of_nonneg (by omega) (by omega)
    have hplane : int32 ((gBlocks 0 - 2 * guard 0) * (gBlocks 2 - 2 * guard 2)) =
        (gBlocks 0 - 2 * guard 0) * (gBlocks 2 - 2 * guard 2) := by
      rw [mul_comm]
      exact int32_plane
        (i := b 0 - gBlocks 0 * gBlocks 1 * guard 2 - (gBlocks 2 - 2 * guard 2) * gBlocks 1 * guard 0)
        (mul_nonneg (by omega) (by omega)) hy (by omega) (by omega) (by omega) hlt
    have hneither : ¬ (b 0 ≥ gBlocks 0 * gBlocks 1 * guard 2 ∧
        b 0 < gBlocks 0 * gBlocks 1 * guard 2 + (gBlocks 2 - 2 * guard 2) * gBlocks 1 * guard 0) :=
      fun hslabs => hslab' hslabs.2
    simp only [if_neg hslab, htmp, hrest, if_neg hneither, hplane] at hfit ⊢
    exact funext (Fin.forall_fin_succ.mpr ⟨hfit 0, Fin.forall_fin_two.mpr ⟨hfit 1, hfit 2⟩⟩)

instance : LawfulGuardMapping 3 where
  gridDim_nonneg {guard gBlocks} h hfits := by
    obtain ⟨hxy, hz_y, hz_x_, -⟩ := volumes_three h hfits
    show ∀ d, 0 ≤ guardGridDim3 int32 guard gBlocks d
    rw [guardGridDim3_int32 h hfits]
    exact Fin.forall_fin_succ.mpr
      ⟨add_nonneg (add_nonneg hxy hz_x_) hz_y, Fin.forall_fin_two.mpr ⟨zero_le_two, zero_le_one⟩⟩
  bijOn_guardIndex {guard gBlocks} h hfits := by
    show Set.BijOn (guardSuperCellIndex3 int32 guard gBlocks) (blocks (guardGridDim3 int32 guard gBlocks)) _
    rw [guardGridDim3_int32 h hfits]
    exact (bijOn_guardSuperCellIndex3 h).congr fun b hb => (guardSuperCellIndex3_int32 h hfits hb).symm
  prod_gridDim_lt guard gBlocks := by
    have hfirst : IsInt32 (GuardMapping.getGridDim guard gBlocks 0) := isInt32_int32 _
    rw [Fin.prod_univ_three]
    show GuardMapping.getGridDim guard gBlocks 0 * 2 * 1 < 2 ^ 32
    have hlt := hfirst.2
    omega

end ThreeDimensions

/-! ## The areas -/

/-- The blocks of a translating mapper count off a box. -/
theorem bijOn_blocks_add {DIM : ℕ} {g n : DataSpace DIM} {k l : ℤ} (hl : k + k = l) :
    Set.BijOn (fun b => b + k • g) (blocks (n - l • g)) (box (k • g) (n - k • g)) := by
  have hbijOn := bijOn_add_box 0 (n - l • g) (k • g)
  have hhi : n - l • g + k • g = n - k • g := by
    rw [← hl, add_zsmul, sub_add_eq_sub_sub, sub_add_cancel]
  rwa [zero_add, hhi] at hbijOn

/-- The areas a mapper is made for. -/
inductive AreaType
  | CORE
  | BORDER
  | GUARD
  | CORE_BORDER
  | CORE_BORDER_GUARD
deriving DecidableEq

namespace MappingDescription

variable {DIM : ℕ} [GuardMapping DIM] (M : MappingDescription DIM)

/-- The grid without its guard, for which BORDER is the guard. -/
def sizeWithoutGuard : DataSpace DIM := fun d => int32 (M.gridSuperCells d - int32 (2 * M.guardingSuperCells d))

def getGridDim : AreaType → DataSpace DIM
  | .CORE_BORDER_GUARD => M.gridSuperCells
  | .CORE => fun d => int32 (M.gridSuperCells d - int32 (4 * M.guardingSuperCells d))
  | .CORE_BORDER => fun d => int32 (M.gridSuperCells d - int32 (2 * M.guardingSuperCells d))
  | .GUARD => GuardMapping.getGridDim M.guardingSuperCells M.gridSuperCells
  | .BORDER => GuardMapping.getGridDim M.guardingSuperCells M.sizeWithoutGuard

def getSuperCellIndex : AreaType → DataSpace DIM → DataSpace DIM
  | .CORE_BORDER_GUARD, blockIdx => blockIdx
  | .CORE, blockIdx => fun d => int32 (blockIdx d + int32 (2 * M.guardingSuperCells d))
  | .CORE_BORDER, blockIdx => fun d => int32 (blockIdx d + M.guardingSuperCells d)
  | .GUARD, blockIdx => GuardMapping.getSuperCellIndex M.guardingSuperCells M.gridSuperCells blockIdx
  | .BORDER, blockIdx => fun d =>
    int32 (GuardMapping.getSuperCellIndex M.guardingSuperCells M.sizeWithoutGuard blockIdx d + M.guardingSuperCells d)

/-- The supercells the blocks of an area work on. -/
def processed (area : AreaType) : Set (DataSpace DIM) := M.getSuperCellIndex area '' blocks (M.getGridDim area)

/-- The supercells of an area. -/
def areaCells {DIM : ℕ} (M : MappingDescription DIM) : AreaType → Set (DataSpace DIM)
  | .CORE => M.coreCells
  | .BORDER => M.borderCells
  | .GUARD => M.guardCells
  | .CORE_BORDER => M.coreCells ∪ M.borderCells
  | .CORE_BORDER_GUARD => M.coreCells ∪ M.borderCells ∪ M.guardCells

variable {M}

namespace HoldsBorder

section Sizes

variable (h : M.HoldsBorder)
include h

omit [GuardMapping DIM] in
theorem holdsGuards : HoldsGuards M.guardingSuperCells M.gridSuperCells := fun d =>
  ⟨(h d).1, by linarith [(h d).1, (h d).2], (M.isInt32 d).1.2⟩

theorem gridDim_core : M.getGridDim .CORE = M.gridSuperCells - (4 : ℤ) • M.guardingSuperCells := by
  funext d
  have hd := h d
  have hint := (M.isInt32 d).1.2
  show int32 (M.gridSuperCells d - int32 (4 * M.guardingSuperCells d)) = _
  rw [int32_sub_int32, int32_eq_of_nonneg (by omega) (by omega)]
  rfl

theorem gridDim_core_border : M.getGridDim .CORE_BORDER = M.gridSuperCells - (2 : ℤ) • M.guardingSuperCells := by
  funext d
  have hd := h d
  have hint := (M.isInt32 d).1.2
  show int32 (M.gridSuperCells d - int32 (2 * M.guardingSuperCells d)) = _
  rw [int32_sub_int32, int32_eq_of_nonneg (by omega) (by omega)]
  rfl

theorem sizeWithoutGuard_eq : M.sizeWithoutGuard = M.gridSuperCells - (2 : ℤ) • M.guardingSuperCells :=
  h.gridDim_core_border

theorem holdsGuards_border : HoldsGuards M.guardingSuperCells M.sizeWithoutGuard := fun d => by
  have hd := h d
  have hint := (M.isInt32 d).1.2
  rw [h.sizeWithoutGuard_eq]
  simp only [Pi.sub_apply, Pi.smul_apply, smul_eq_mul]
  omega

/-- BORDER has no more supercells than GUARD. -/
theorem shellVolume_border_le : shellVolume M.guardingSuperCells M.sizeWithoutGuard ≤ M.guardVolume := by
  have hle := two_mul_prod_le Finset.univ (a := fun d => M.gridSuperCells d - 4 * M.guardingSuperCells d)
    (t := fun d => 2 * M.guardingSuperCells d) (fun d _ => by linarith [(h d).2]) (fun d _ => by linarith [(h d).1])
  have hall : ∀ d, M.gridSuperCells d - 4 * M.guardingSuperCells d + 2 * (2 * M.guardingSuperCells d) =
      M.gridSuperCells d := fun d => by ring
  have hmiddle : ∀ d, M.gridSuperCells d - 4 * M.guardingSuperCells d + 2 * M.guardingSuperCells d =
      M.gridSuperCells d - 2 * M.guardingSuperCells d := fun d => by ring
  have hinner : ∀ d, M.gridSuperCells d - 2 * M.guardingSuperCells d - 2 * M.guardingSuperCells d =
      M.gridSuperCells d - 4 * M.guardingSuperCells d := fun d => by ring
  simp only [hall, hmiddle] at hle
  rw [guardVolume, shellVolume, shellVolume, h.sizeWithoutGuard_eq]
  simp only [Pi.sub_apply, Pi.smul_apply, smul_eq_mul, hinner]
  linarith

end Sizes

omit [GuardMapping DIM] in
/-- A cell of the grid is not wrapped. -/
theorem int32_of_mem {c : DataSpace DIM} (hc : c ∈ M.gridCells) : (fun d => int32 (c d)) = c :=
  funext fun d => int32_eq_of_nonneg (hc d).1 ((hc d).2.trans (M.isInt32 d).1.2)

omit [GuardMapping DIM] in
/-- Where a mapper translates into the grid, there is no overflow. -/
theorem bijOn_int32 {f : DataSpace DIM → DataSpace DIM} {B S : Set (DataSpace DIM)} (hf : Set.BijOn f B S)
    (hS : S ⊆ M.gridCells) : Set.BijOn (fun b d => int32 (f b d)) B S :=
  hf.congr fun _ hb => (int32_of_mem (hS (hf.mapsTo hb))).symm

variable [LawfulGuardMapping DIM] (h : M.HoldsBorder) (hfits : M.guardVolume < 2 ^ 32)
include h hfits

/-- **The mapper of an area counts it off**, in every grid that holds guard and border and has a GUARD
whose halves an `int` counts. -/
theorem bijOn (area : AreaType) :
    Set.BijOn (M.getSuperCellIndex area) (blocks (M.getGridDim area)) (M.areaCells area) := by
  cases area with
  | CORE =>
    rw [areaCells, h.coreCells_eq, h.gridDim_core]
    show Set.BijOn (fun (b : DataSpace DIM) d => int32 (b d + int32 (2 * M.guardingSuperCells d))) _ _
    simp only [int32_add_int32]
    exact bijOn_int32 (bijOn_blocks_add rfl) (h.inner_subset_gridCells (by decide))
  | CORE_BORDER =>
    rw [areaCells, h.core_union_border, h.gridDim_core_border]
    have hbijOn := bijOn_blocks_add (g := M.guardingSuperCells) (n := M.gridSuperCells) (k := 1) rfl
    rw [one_zsmul] at hbijOn
    have hinner : M.inner 1 = box M.guardingSuperCells (M.gridSuperCells - M.guardingSuperCells) := by
      rw [inner, one_zsmul]
    refine bijOn_int32 (hinner ▸ hbijOn) (h.inner_subset_gridCells (by decide))
  | CORE_BORDER_GUARD =>
    rw [areaCells, core_union_border_union_guard]
    exact Set.bijOn_id _
  | GUARD =>
    have hbijOn := LawfulGuardMapping.bijOn_guardIndex h.holdsGuards hfits
    rwa [areaCells, guardCells, inner, one_zsmul]
  | BORDER =>
    have hshell := LawfulGuardMapping.bijOn_guardIndex h.holdsGuards_border (h.shellVolume_border_le.trans_lt hfits)
    have hhi : M.sizeWithoutGuard + M.guardingSuperCells = M.gridSuperCells - (1 : ℤ) • M.guardingSuperCells := by
      rw [h.sizeWithoutGuard_eq, one_zsmul, two_zsmul]
      abel
    have hhi' : M.sizeWithoutGuard - M.guardingSuperCells + M.guardingSuperCells =
        M.gridSuperCells - (2 : ℤ) • M.guardingSuperCells := by
      rw [h.sizeWithoutGuard_eq, sub_add_cancel]
    have hshift := bijOn_add_shell M.guardingSuperCells M.sizeWithoutGuard
    rw [hhi, hhi', ← two_zsmul] at hshift
    have hborder : M.areaCells .BORDER =
        box M.guardingSuperCells (M.gridSuperCells - (1 : ℤ) • M.guardingSuperCells) \
          box ((2 : ℤ) • M.guardingSuperCells) (M.gridSuperCells - (2 : ℤ) • M.guardingSuperCells) := by
      rw [areaCells, h.borderCells_eq, inner, inner, one_zsmul]
    rw [← hborder] at hshift
    exact bijOn_int32 (hshift.comp hshell) (Set.sdiff_subset.trans Set.sdiff_subset)

theorem gridDim_nonneg (area : AreaType) (d : Fin DIM) : 0 ≤ M.getGridDim area d := by
  have hg := (h d).1
  have hn := (h d).2
  cases area with
  | CORE =>
    rw [h.gridDim_core]
    exact sub_nonneg.mpr (by simpa using hn)
  | CORE_BORDER =>
    rw [h.gridDim_core_border]
    exact sub_nonneg.mpr (by simp; linarith)
  | CORE_BORDER_GUARD => exact (by linarith : 0 ≤ M.gridSuperCells d)
  | GUARD => exact LawfulGuardMapping.gridDim_nonneg h.holdsGuards hfits d
  | BORDER =>
    exact LawfulGuardMapping.gridDim_nonneg h.holdsGuards_border (h.shellVolume_border_le.trans_lt hfits) d

end HoldsBorder

namespace Usable

variable [LawfulGuardMapping DIM] (h : M.Usable) (area : AreaType)
include h

theorem bijOn : Set.BijOn (M.getSuperCellIndex area) (blocks (M.getGridDim area)) (M.areaCells area) :=
  h.holdsBorder.bijOn (h.holdsBorder.guardVolume_lt h.inIndexSpace) area

theorem gridDim_nonneg (d : Fin DIM) : 0 ≤ M.getGridDim area d :=
  h.holdsBorder.gridDim_nonneg (h.holdsBorder.guardVolume_lt h.inIndexSpace) area d

end Usable

end MappingDescription

end Mappings
end Spearhed
