import Spearhed.Communication.Exchange
import Spearhed.Mappings.MappingDescription

/-!
# Strided areas

A `StrideMapping` hands out the supercells of an area in several launches.  In one launch they are
those with the same remainders by the stride, which is the offset of the mapper; `next` goes on to
the next offset with supercells.

All of it is arithmetic of `int`: the number of offsets, the supercells of a launch and the sum in
`getGridDim` have to fit, which is `Valid`.

* `mem_superCells`, `exists_stride_le`: the supercells of a launch, and how far they are apart.
* `next_spec`: `next` leaves out no supercell.
* `launches_partition`: together the launches have every supercell of the area, each in one of them.
-/

namespace Spearhed
namespace Mappings

open Library Communication MappingDescription

/-- The areas that `StrideMappingMethods` has methods for. -/
inductive StrideArea
  | CORE
  | CORE_BORDER
  | CORE_BORDER_GUARD

structure StrideMapping (DIM : ℕ) where
  base : MappingDescription DIM
  area : StrideArea
  stride : ℕ
  /-- The constructor starts with the offset zero. -/
  offset : DataSpace DIM := 0

namespace StrideMapping

variable {DIM : ℕ}

section Mapper

variable (S : StrideMapping DIM)

/-- `getGridDim` of the methods. -/
def areaGridDim : DataSpace DIM := fun d =>
  match S.area with
  | .CORE => int32 (S.base.gridSuperCells d - int32 (4 * S.base.guardingSuperCells d))
  | .CORE_BORDER => int32 (S.base.gridSuperCells d - int32 (2 * S.base.guardingSuperCells d))
  | .CORE_BORDER_GUARD => S.base.gridSuperCells d

def shift (value : DataSpace DIM) : DataSpace DIM := fun d =>
  match S.area with
  | .CORE => int32 (value d + int32 (2 * S.base.guardingSuperCells d))
  | .CORE_BORDER => int32 (value d + S.base.guardingSuperCells d)
  | .CORE_BORDER_GUARD => value d

/-- `DataSpace<DIM>::create(stride)`. -/
def strides : DataSpace DIM := fun _ => int32 S.stride

/-- The division is that of `int`. -/
def getGridDim : DataSpace DIM := fun d =>
  (int32 (int32 (int32 (S.areaGridDim d - S.offset d) + S.strides d) - 1)).tdiv (S.strides d)

def getSuperCellIndex (blockIdx : DataSpace DIM) : DataSpace DIM :=
  S.shift fun d => int32 (int32 (blockIdx d * S.strides d) + S.offset d)

/-- The mapper with the offset of a number. -/
def atOffset (linearOffset : ℤ) : StrideMapping DIM :=
  { S with offset := mapToND S.strides linearOffset }

def linearOffset : ℤ := int32 (linearize S.strides S.offset)

/-- `next`, as far as some calls take it; `none` when the whole area was processed. -/
def nextFrom : ℕ → StrideMapping DIM → Option (StrideMapping DIM)
  | 0, _ => none
  | fuel + 1, S =>
    let linearOffset := int32 (S.linearOffset + 1)
    if int32 (productOfComponents S.strides) ≤ linearOffset then none
    else if int32 (productOfComponents (S.atOffset linearOffset).getGridDim) = 0 then
      nextFrom fuel (S.atOffset linearOffset)
    else some (S.atOffset linearOffset)

/-- There are not more calls than offsets. -/
def next : Option (StrideMapping DIM) := nextFrom (productOfComponents S.strides).toNat S

/-- The launches of `do … while(mapper.next())`, as far as some turns of the loop take them. -/
def launchesFrom : ℕ → StrideMapping DIM → Option (List (StrideMapping DIM))
  | 0, _ => none
  | fuel + 1, S =>
    match S.next with
    | none => some [S]
    | some T => (launchesFrom fuel T).map (S :: ·)

/-- The supercells of a launch. -/
def superCells : Set (DataSpace DIM) := S.getSuperCellIndex '' blocks S.getGridDim

/-- How many times the guard is left out at both ends. -/
def layers : ℤ :=
  match S.area with
  | .CORE => 2
  | .CORE_BORDER => 1
  | .CORE_BORDER_GUARD => 0

/-- The supercells of the area. -/
def areaCells : Set (DataSpace DIM) :=
  match S.area with
  | .CORE => S.base.coreCells
  | .CORE_BORDER => S.base.coreCells ∪ S.base.borderCells
  | .CORE_BORDER_GUARD => S.base.gridCells

/-- What the code relies on: guard and border fit, the offset is one of the offsets, and the supercells,
the offsets and the last supercell of a launch with the stride added are counted by an `int`. -/
structure Valid : Prop where
  holdsBorder : S.base.HoldsBorder
  inIndexSpace : S.base.InIndexSpace
  stride_pos : 0 < S.stride
  offsets_lt : S.stride ^ DIM < 2 ^ 31
  grid_add_stride_lt : ∀ d, S.base.gridSuperCells d + S.stride < 2 ^ 31
  offset_mem : S.offset ∈ box 0 S.strides

end Mapper

variable {S T : StrideMapping DIM} {c c' : DataSpace DIM}

@[simp] theorem atOffset_strides (r : ℤ) : (S.atOffset r).strides = S.strides := rfl
@[simp] theorem atOffset_atOffset (r r' : ℤ) : (S.atOffset r).atOffset r' = S.atOffset r' := rfl

/-- The blocks of one axis, where the area has `n` supercells. -/
theorem exists_block_iff {n o s x : ℤ} (hs : 0 < s) (ho : 0 ≤ o) (hos : o < s) (hn : 0 ≤ n) :
    (∃ b, (0 ≤ b ∧ b < (n - o + s - 1).tdiv s) ∧ b * s + o = x) ↔ (0 ≤ x ∧ x < n) ∧ x % s = o := by
  have hdiv : (n - o + s - 1).tdiv s = (n - o + s - 1) / s := Int.tdiv_eq_ediv_of_nonneg (by omega)
  have hlt : ∀ b, b < (n - o + s - 1) / s ↔ b * s + o < n := fun b => by
    rw [← Int.add_one_le_iff, Int.le_ediv_iff_mul_le hs, add_mul, one_mul]
    omega
  rw [hdiv]
  constructor
  · rintro ⟨b, ⟨hb, hblt⟩, rfl⟩
    refine ⟨⟨by positivity, (hlt b).mp hblt⟩, ?_⟩
    rw [Int.add_comm, Int.add_mul_emod_self_right, Int.emod_eq_of_lt ho hos]
  · rintro ⟨⟨hx, hxn⟩, hmod⟩
    have hsplit : x / s * s + o = x := by
      rw [← hmod]
      exact Int.ediv_mul_add_emod x s
    exact ⟨x / s, ⟨Int.ediv_nonneg hx hs.le, (hlt _).mpr (by omega)⟩, hsplit⟩

theorem layers_bounds (S : StrideMapping DIM) : 0 ≤ S.layers ∧ S.layers ≤ 2 := by
  cases harea : S.area <;> simp [layers, harea]

/-- A launch without blocks has no supercells. -/
theorem superCells_eq_empty (hzero : productOfComponents S.getGridDim = 0) : S.superCells = ∅ := by
  obtain ⟨d, -, hd⟩ := Finset.prod_eq_zero_iff.mp hzero
  refine Set.image_eq_empty.mpr (Set.eq_empty_of_forall_notMem fun b hb => ?_)
  have hlt := hb d
  rw [hd] at hlt
  exact absurd hlt.2 (not_lt.mpr hlt.1)

namespace Valid

variable (h : S.Valid)
include h

/-! Without overflow. -/

theorem layers_mul_le (d : Fin DIM) : 0 ≤ S.layers * S.base.guardingSuperCells d ∧
    2 * (S.layers * S.base.guardingSuperCells d) ≤ S.base.gridSuperCells d := by
  obtain ⟨hguard, hgrid⟩ := h.holdsBorder d
  have hlayers := S.layers_bounds
  have hle : S.layers * S.base.guardingSuperCells d ≤ 2 * S.base.guardingSuperCells d :=
    mul_le_mul_of_nonneg_right hlayers.2 hguard
  exact ⟨mul_nonneg hlayers.1 hguard, by omega⟩

theorem areaGridDim_eq (d : Fin DIM) :
    S.areaGridDim d = S.base.gridSuperCells d - 2 * (S.layers * S.base.guardingSuperCells d) := by
  have hgrid := (S.base.isInt32 d).1.2
  have hborder := h.holdsBorder d
  cases harea : S.area <;> simp only [areaGridDim, layers, harea, int32_sub_int32]
  · rw [int32_eq_of_nonneg (by omega) (by omega)]
    ring
  · rw [int32_eq_of_nonneg (by omega) (by omega)]
    ring
  · ring

theorem strides_apply (d : Fin DIM) : S.strides d = S.stride := by
  have hle : S.stride ≤ S.stride ^ DIM := Nat.le_self_pow (Fin.pos d).ne' S.stride
  have hlt := h.offsets_lt
  exact int32_eq_of_nonneg (Int.natCast_nonneg _) (by exact_mod_cast hle.trans_lt hlt)

theorem strides_pos (d : Fin DIM) : 0 < S.strides d := by
  rw [h.strides_apply]
  exact Int.natCast_pos.mpr h.stride_pos

theorem offset_bounds (d : Fin DIM) : 0 ≤ S.offset d ∧ S.offset d < S.stride := by
  have hmem := h.offset_mem d
  rwa [h.strides_apply] at hmem

theorem productOfComponents_strides : productOfComponents S.strides = (S.stride ^ DIM : ℕ) := by
  simp [productOfComponents, h.strides_apply]

theorem areaGridDim_nonneg (d : Fin DIM) : 0 ≤ S.areaGridDim d := by
  rw [h.areaGridDim_eq]
  linarith [h.layers_mul_le d]

theorem getGridDim_eq (d : Fin DIM) :
    S.getGridDim d = (S.areaGridDim d - S.offset d + S.stride - 1).tdiv S.stride := by
  have hsum := h.grid_add_stride_lt d
  have hoffset := h.offset_bounds d
  have hnonneg := h.areaGridDim_nonneg d
  have harea := h.areaGridDim_eq d
  have hlayers := h.layers_mul_le d
  have hpos := h.stride_pos
  simp only [getGridDim, h.strides_apply, int32_int32_add, sub_eq_add_neg]
  rw [int32_eq_of_nonneg (by omega) (by omega)]

/-- A block of a launch. -/
theorem getSuperCellIndex_eq {b : DataSpace DIM} (hb : b ∈ blocks S.getGridDim) (d : Fin DIM) :
    S.getSuperCellIndex b d = b d * S.stride + S.offset d + S.layers * S.base.guardingSuperCells d := by
  have hbd := hb d
  rw [h.getGridDim_eq] at hbd
  obtain ⟨⟨hlow, hhigh⟩, -⟩ := (exists_block_iff (Int.natCast_pos.mpr h.stride_pos) (h.offset_bounds d).1
    (h.offset_bounds d).2 (h.areaGridDim_nonneg d)).mp ⟨b d, hbd, rfl⟩
  have hgrid := (S.base.isInt32 d).1.2
  have hguard := (h.holdsBorder d).1
  have harea := h.areaGridDim_eq d
  have hvalue : int32 (int32 (b d * S.strides d) + S.offset d) = b d * S.stride + S.offset d := by
    have hlayers := h.layers_mul_le d
    rw [h.strides_apply, int32_int32_add, int32_eq_of_nonneg hlow (by omega)]
  cases hS : S.area <;> simp only [layers, hS] at harea <;>
    simp only [getSuperCellIndex, shift, layers, hS, hvalue, int32_add_int32]
  · rw [int32_eq_of_nonneg (by omega) (by omega)]
  · rw [int32_eq_of_nonneg (by omega) (by omega)]
    ring
  · ring

/-- The blocks of a launch are counted by an `int`. -/
theorem int32_productOfComponents :
    int32 (productOfComponents S.getGridDim) = productOfComponents S.getGridDim := by
  have hdim : ∀ d, 0 ≤ S.getGridDim d ∧ S.getGridDim d ≤ S.base.gridSuperCells d := fun d => by
    have hoffset := h.offset_bounds d
    have hnonneg := h.areaGridDim_nonneg d
    have harea := h.areaGridDim_eq d
    have hlayers := h.layers_mul_le d
    have hpos : (0 : ℤ) < S.stride := Int.natCast_pos.mpr h.stride_pos
    rw [h.getGridDim_eq, Int.tdiv_eq_ediv_of_nonneg (by omega)]
    refine ⟨Int.ediv_nonneg (by omega) hpos.le, ?_⟩
    have hle : S.areaGridDim d - S.offset d + S.stride - 1 < (S.areaGridDim d + 1) * S.stride := by nlinarith
    have hquotient := Int.ediv_lt_of_lt_mul hpos hle
    omega
  have hprod : productOfComponents S.getGridDim ≤ ∏ d, S.base.gridSuperCells d :=
    Finset.prod_le_prod (fun d _ => (hdim d).1) fun d _ => (hdim d).2
  exact int32_eq_of_nonneg (Finset.prod_nonneg fun d _ => (hdim d).1) (hprod.trans_lt h.inIndexSpace)

theorem areaCells_eq : S.areaCells = S.base.inner S.layers := by
  cases harea : S.area
  · simp only [areaCells, layers, harea]
    exact h.holdsBorder.coreCells_eq
  · simp only [areaCells, layers, harea]
    exact h.holdsBorder.core_union_border
  · simp only [areaCells, layers, harea]
    rw [MappingDescription.inner, gridCells, zero_zsmul, sub_zero]

/-- **The supercells of a launch** are those of the area with the remainders of its offset. -/
theorem mem_superCells : c ∈ S.superCells ↔
    c ∈ S.areaCells ∧ ∀ d, (c d - S.layers * S.base.guardingSuperCells d) % S.stride = S.offset d := by
  have haxis : ∀ d, (∃ b, (0 ≤ b ∧ b < S.getGridDim d) ∧
    b * S.stride + S.offset d + S.layers * S.base.guardingSuperCells d = c d) ↔
      (S.layers * S.base.guardingSuperCells d ≤ c d ∧
        c d < S.base.gridSuperCells d - S.layers * S.base.guardingSuperCells d) ∧
        (c d - S.layers * S.base.guardingSuperCells d) % S.stride = S.offset d := by
    intro d
    have hblock := exists_block_iff (x := c d - S.layers * S.base.guardingSuperCells d)
      (Int.natCast_pos.mpr h.stride_pos)
      (h.offset_bounds d).1 (h.offset_bounds d).2 (h.areaGridDim_nonneg d)
    have harea := h.areaGridDim_eq d
    rw [h.getGridDim_eq]
    refine (exists_congr fun b => ?_).trans (hblock.trans ?_)
    · refine and_congr_right fun _ => ?_
      omega
    · refine and_congr_left fun _ => ?_
      omega
  rw [superCells, Set.mem_image, h.areaCells_eq]
  constructor
  · rintro ⟨b, hb, rfl⟩
    have hall := fun d => (haxis d).mp ⟨b d, hb d, (h.getSuperCellIndex_eq hb d).symm⟩
    exact ⟨fun d => (hall d).1, fun d => (hall d).2⟩
  · rintro ⟨hc, hmod⟩
    choose b hb hbc using fun d => (haxis d).mpr ⟨hc d, hmod d⟩
    exact ⟨b, hb, funext fun d => (h.getSuperCellIndex_eq hb d).trans (hbc d)⟩

/-- No two blocks of a launch have the same supercell. -/
theorem injOn_getSuperCellIndex : Set.InjOn S.getSuperCellIndex (blocks S.getGridDim) := fun b hb b' hb' heq => by
  funext d
  have hd := congrFun heq d
  rw [h.getSuperCellIndex_eq hb, h.getSuperCellIndex_eq hb'] at hd
  exact mul_right_cancel₀ (Int.natCast_pos.mpr h.stride_pos).ne' (by linarith)

/-- **Two supercells of a launch** are far apart. -/
theorem exists_stride_le (hc : c ∈ S.superCells) (hc' : c' ∈ S.superCells) (hne : c ≠ c') :
    ∃ d, (S.stride : ℤ) ≤ |c d - c' d| := by
  obtain ⟨d, hd⟩ := Function.ne_iff.mp hne
  obtain ⟨-, hmod⟩ := h.mem_superCells.mp hc
  obtain ⟨-, hmod'⟩ := h.mem_superCells.mp hc'
  have hdvd : (S.stride : ℤ) ∣ c d - c' d := by
    have hsub := Int.emod_eq_emod_iff_emod_sub_eq_zero.mp ((hmod d).trans (hmod' d).symm)
    rw [sub_sub_sub_cancel_right] at hsub
    exact Int.dvd_of_emod_eq_zero hsub
  exact ⟨d, Int.le_of_dvd (abs_pos.mpr (sub_ne_zero.mpr hd)) ((dvd_abs _ _).mpr hdvd)⟩

/-- Nor do they have a neighbour in common. -/
theorem not_near (hstride : 3 ≤ S.stride) (hc : c ∈ S.superCells) (hc' : c' ∈ S.superCells)
    (hne : c ≠ c') {n : DataSpace DIM}
    (hn : ∀ d, |n d - c d| ≤ 1) : ¬ ∀ d, |n d - c' d| ≤ 1 := fun hn' => by
  obtain ⟨d, hd⟩ := h.exists_stride_le hc hc' hne
  have hcd := abs_le.mp (hn d)
  have hcd' := abs_le.mp (hn' d)
  have hle : |c d - c' d| ≤ 2 := abs_le.mpr ⟨by linarith [hcd.1, hcd'.2], by linarith [hcd.2, hcd'.1]⟩
  have hstride' : (3 : ℤ) ≤ S.stride := by exact_mod_cast hstride
  linarith

/-! ## One launch after the other -/

theorem productOfComponents_strides_lt : productOfComponents S.strides < 2 ^ 31 := by
  rw [h.productOfComponents_strides]
  exact_mod_cast h.offsets_lt

theorem linearOffset_eq : S.linearOffset = linearize S.strides S.offset :=
  have hmem := linearize_mem h.offset_mem
  int32_eq_of_nonneg hmem.1 (hmem.2.trans h.productOfComponents_strides_lt)

theorem linearOffset_mem : S.linearOffset ∈ Set.Ico 0 (productOfComponents S.strides) := by
  rw [h.linearOffset_eq]
  exact linearize_mem h.offset_mem

theorem atOffset {r : ℤ} (hr : r ∈ Set.Ico 0 (productOfComponents S.strides)) :
    (S.atOffset r).Valid := by
  refine ⟨h.holdsBorder, h.inIndexSpace, h.stride_pos, h.offsets_lt, h.grid_add_stride_lt, ?_⟩
  obtain ⟨k, rfl⟩ := Int.eq_ofNat_of_zero_le hr.1
  have hlt := hr.2
  exact mapToND_mem (fun d => (h.strides_pos d).le) (by omega)

theorem linearOffset_atOffset {r : ℤ} (hr : r ∈ Set.Ico 0 (productOfComponents S.strides)) :
    (S.atOffset r).linearOffset = r := by
  rw [(h.atOffset hr).linearOffset_eq]
  exact linearize_mapToND h.strides_pos hr

theorem atOffset_linearOffset : S.atOffset S.linearOffset = S := by
  have hlinear := h.linearOffset_eq
  obtain ⟨base, area, stride, offset⟩ := S
  have hoffset := mapToND_linearize h.offset_mem
  rw [hlinear]
  exact congrArg (StrideMapping.mk base area stride) hoffset

/-- No `int` of a call of `next` overflows. -/
theorem nextFrom_succ (fuel : ℕ) : nextFrom (fuel + 1) S =
    if productOfComponents S.strides ≤ S.linearOffset + 1 then none
    else if productOfComponents (S.atOffset (S.linearOffset + 1)).getGridDim = 0 then
      nextFrom fuel (S.atOffset (S.linearOffset + 1))
    else some (S.atOffset (S.linearOffset + 1)) := by
  have hmem := h.linearOffset_mem
  have hlt := h.productOfComponents_strides_lt
  have hsucc : int32 (S.linearOffset + 1) = S.linearOffset + 1 :=
    int32_eq_of_nonneg (by linarith [hmem.1]) (by linarith [hmem.2])
  have hproduct : int32 (productOfComponents S.strides) = productOfComponents S.strides :=
    int32_eq_of_nonneg (by linarith [hmem.1, hmem.2]) hlt
  simp only [nextFrom, hsucc, hproduct]
  by_cases hend : productOfComponents S.strides ≤ S.linearOffset + 1
  · rw [if_pos hend, if_pos hend]
  · rw [if_neg hend, if_neg hend,
      (h.atOffset ⟨by linarith [hmem.1], not_le.mp hend⟩).int32_productOfComponents]

/-- What `next` goes on to. -/
theorem nextFrom_spec {fuel : ℕ} (hfuel : productOfComponents S.strides ≤ S.linearOffset + fuel) :
    (∀ T, nextFrom fuel S = some T → ∃ r, S.linearOffset < r ∧ r < productOfComponents S.strides ∧
      T = S.atOffset r ∧
      ∀ r', S.linearOffset < r' → r' < r → (S.atOffset r').superCells = ∅) ∧
    (nextFrom fuel S = none → ∀ r', S.linearOffset < r' → r' < productOfComponents S.strides →
      (S.atOffset r').superCells = ∅) := by
  induction fuel generalizing S with
  | zero =>
    have hlt := h.linearOffset_mem.2
    exact absurd hfuel (by simp; omega)
  | succ fuel ih =>
    rw [h.nextFrom_succ]
    have hnonneg := h.linearOffset_mem.1
    by_cases hend : productOfComponents S.strides ≤ S.linearOffset + 1
    · rw [if_pos hend]
      exact ⟨fun T hT => absurd hT.symm (Option.some_ne_none T),
        fun _ r' hr' hlt => absurd hlt (by omega)⟩
    rw [if_neg hend]
    have hr : S.linearOffset + 1 ∈ Set.Ico 0 (productOfComponents S.strides) := ⟨by omega, by omega⟩
    by_cases hzero : productOfComponents (S.atOffset (S.linearOffset + 1)).getGridDim = 0
    · rw [if_pos hzero]
      have hnext := ih (h.atOffset hr)
        (by rw [h.linearOffset_atOffset hr, atOffset_strides]; push_cast at hfuel; omega)
      rw [h.linearOffset_atOffset hr, atOffset_strides] at hnext
      have hempty := superCells_eq_empty hzero
      have hbetween : ∀ r', S.linearOffset < r' →
        (S.linearOffset + 1 < r' → (S.atOffset r').superCells = ∅) →
          (S.atOffset r').superCells = ∅ := fun r' hr' himp => by
        rcases eq_or_lt_of_le (Int.add_one_le_of_lt hr') with rfl | hlt
        · exact hempty
        · exact himp hlt
      refine ⟨fun T hT => ?_,
        fun hnone r' hr' hlt => hbetween r' hr' fun hr'' => hnext.2 hnone r' hr'' hlt⟩
      obtain ⟨r, hr₀, hr₁, rfl, hskip⟩ := hnext.1 T hT
      exact ⟨r, by omega, hr₁, rfl, fun r' hr' hlt => hbetween r' hr' fun hr'' => hskip r' hr'' hlt⟩
    · rw [if_neg hzero]
      refine ⟨fun T hT => ?_, fun hnone => absurd hnone (Option.some_ne_none _)⟩
      exact ⟨_, by omega, by omega, (Option.some.inj hT).symm, fun r' hr' hlt => absurd hlt (by omega)⟩

theorem next_spec :
    (∀ T, S.next = some T → ∃ r, S.linearOffset < r ∧ r < productOfComponents S.strides ∧
      T = S.atOffset r ∧
      ∀ r', S.linearOffset < r' → r' < r → (S.atOffset r').superCells = ∅) ∧
    (S.next = none → ∀ r', S.linearOffset < r' → r' < productOfComponents S.strides →
      (S.atOffset r').superCells = ∅) :=
  h.nextFrom_spec (by
    have hmem := h.linearOffset_mem
    have hpos : 0 < productOfComponents S.strides := hmem.1.trans_lt hmem.2
    have hnonneg := hmem.1
    omega)

/-- A supercell of the area belongs to one offset. -/
theorem exists_offset (hc : c ∈ S.areaCells) :
    ∃ r ∈ Set.Ico 0 (productOfComponents S.strides), c ∈ (S.atOffset r).superCells := by
  let offset : DataSpace DIM := fun d => (c d - S.layers * S.base.guardingSuperCells d) % S.stride
  have hpos : (0 : ℤ) < S.stride := Int.natCast_pos.mpr h.stride_pos
  have hoffset : offset ∈ box 0 S.strides := fun d => by
    rw [h.strides_apply]
    exact ⟨Int.emod_nonneg _ hpos.ne', Int.emod_lt_of_pos _ hpos⟩
  have hr := linearize_mem hoffset
  refine ⟨linearize S.strides offset, hr, (h.atOffset hr).mem_superCells.mpr ⟨hc, fun d => ?_⟩⟩
  exact (congrFun (mapToND_linearize hoffset) d).symm

theorem offset_unique {r r' : ℤ} (hr : r ∈ Set.Ico 0 (productOfComponents S.strides))
    (hr' : r' ∈ Set.Ico 0 (productOfComponents S.strides))
    (hc : c ∈ (S.atOffset r).superCells) (hc' : c ∈ (S.atOffset r').superCells) : r = r' := by
  have hsame : (S.atOffset r).offset = (S.atOffset r').offset := funext fun d =>
    (((h.atOffset hr).mem_superCells.mp hc).2 d).symm.trans
      (((h.atOffset hr').mem_superCells.mp hc').2 d)
  rw [← h.linearOffset_atOffset hr, ← h.linearOffset_atOffset hr', linearOffset, hsame]
  rfl

/-- The launches from a mapper on have the offsets from its own on that have supercells. -/
theorem launchesFrom_spec (n : ℕ) (hn : productOfComponents S.strides ≤ S.linearOffset + n) :
    ∃ l, (∀ fuel, n ≤ fuel → launchesFrom fuel S = some l) ∧
      (∀ T ∈ l, ∃ r, S.linearOffset ≤ r ∧ r < productOfComponents S.strides ∧ T = S.atOffset r) ∧
      l.Pairwise (fun T T' => T.linearOffset < T'.linearOffset) ∧
      ∀ r, S.linearOffset ≤ r → r < productOfComponents S.strides → ∀ c ∈ (S.atOffset r).superCells,
      ∃ T ∈ l, c ∈ T.superCells := by
  induction n generalizing S with
  | zero =>
    have hlt := h.linearOffset_mem.2
    exact absurd hn (by simp; omega)
  | succ n ih =>
    have hself := h.atOffset_linearOffset
    have hmem := h.linearOffset_mem
    rcases hnext : S.next with _ | T
    · refine ⟨[S], fun fuel hfuel => ?_, fun T hT => ⟨S.linearOffset, le_rfl, hmem.2, ?_⟩,
        List.pairwise_singleton _ _,
        fun r hr hlt c hc => ⟨S, List.mem_singleton_self S, ?_⟩⟩
      · obtain ⟨fuel, rfl⟩ :=
          Nat.exists_eq_add_of_le' (Nat.one_le_iff_ne_zero.mpr (by omega : fuel ≠ 0))
        rw [launchesFrom, hnext]
      · rw [List.mem_singleton.mp hT, hself]
      · rcases eq_or_lt_of_le hr with rfl | hgt
        · rwa [hself] at hc
        · rw [h.next_spec.2 hnext r hgt hlt] at hc
          exact absurd hc (Set.notMem_empty c)
    · obtain ⟨r, hr₀, hr₁, rfl, hskip⟩ := h.next_spec.1 T hnext
      have hr : r ∈ Set.Ico 0 (productOfComponents S.strides) := ⟨by have := hmem.1; omega, hr₁⟩
      have hoffset := h.linearOffset_atOffset hr
      obtain ⟨l, hl, hfrom, hpairwise, hcover⟩ :=
        ih (h.atOffset hr) (by rw [hoffset, atOffset_strides]; push_cast at hn; omega)
      rw [hoffset, atOffset_strides] at hcover
      refine ⟨S :: l, fun fuel hfuel => ?_, fun T hT => ?_,
        List.pairwise_cons.mpr ⟨fun T hT => ?_, hpairwise⟩,
        fun r' hr' hlt c hc => ?_⟩
      · obtain ⟨fuel, rfl⟩ :=
          Nat.exists_eq_add_of_le' (Nat.one_le_iff_ne_zero.mpr (by omega : fuel ≠ 0))
        rw [launchesFrom, hnext]
        exact congrArg (Option.map (S :: ·)) (hl fuel (by omega))
      · rcases List.mem_cons.mp hT with rfl | hT
        · exact ⟨_, le_rfl, hmem.2, hself.symm⟩
        · obtain ⟨r', hr', hlt, rfl⟩ := hfrom T hT
          rw [hoffset] at hr'
          exact ⟨r', by omega, hlt, rfl⟩
      · obtain ⟨r', hr', hlt, rfl⟩ := hfrom T hT
        rw [hoffset] at hr'
        rw [atOffset_atOffset, h.linearOffset_atOffset ⟨by have := hmem.1; omega, hlt⟩]
        omega
      · rcases eq_or_lt_of_le hr' with rfl | hgt
        · exact ⟨S, List.mem_cons_self, by rwa [hself] at hc⟩
        rcases lt_or_ge r' r with hbefore | hafter
        · rw [hskip r' hgt hbefore] at hc
          exact absurd hc (Set.notMem_empty c)
        · obtain ⟨T, hT, hcT⟩ := hcover r' hafter hlt c hc
          exact ⟨T, List.mem_cons_of_mem S hT, hcT⟩

end Valid

/-- The mapper that the constructor makes. -/
theorem valid_zero {M : MappingDescription DIM} (hM : M.Usable) (area : StrideArea) {stride : ℕ} (hstride : 0 < stride) (hoffsets : stride ^ DIM < 2 ^ 31)
    (hsum : ∀ d, M.gridSuperCells d + stride < 2 ^ 31) :
    (⟨M, area, stride, 0⟩ : StrideMapping DIM).Valid := by
  refine ⟨hM.holdsBorder, hM.inIndexSpace, hstride, hoffsets, hsum, fun d => ⟨le_rfl, ?_⟩⟩
  have hle : stride ≤ stride ^ DIM := Nat.le_self_pow (Fin.pos d).ne' stride
  show 0 < int32 stride
  rw [int32_eq_of_nonneg (Int.natCast_nonneg _) (by exact_mod_cast hle.trans_lt hoffsets)]
  exact Int.natCast_pos.mpr hstride

theorem linearOffset_zero (M : MappingDescription DIM) (area : StrideArea) (stride : ℕ) :
    (⟨M, area, stride, 0⟩ : StrideMapping DIM).linearOffset = 0 := by
  have hzero : linearize (⟨M, area, stride, 0⟩ : StrideMapping DIM).strides 0 = 0 := rowMajorIndex_zero _
  show int32 (linearize _ 0) = 0
  rw [hzero]
  rfl

/-- **The launches over an area.**  The loop ends.  Every supercell of the area is in one launch,
with a block of its own, and no other supercell is.  Two supercells of a launch are at least the
stride apart on some axis.  The offsets and the supercells must be counted by an `int`, and so must an
axis with the stride added. -/
theorem launches_partition {M : MappingDescription DIM} (hM : M.Usable) (area : StrideArea)
    {stride : ℕ} (hstride : 0 < stride) (hoffsets : stride ^ DIM < 2 ^ 31)
    (hsum : ∀ d, M.gridSuperCells d + stride < 2 ^ 31) :
    ∃ l, (∀ fuel, stride ^ DIM ≤ fuel →
      launchesFrom fuel (⟨M, area, stride, 0⟩ : StrideMapping DIM) = some l) ∧
      (∀ c, c ∈ (⟨M, area, stride, 0⟩ : StrideMapping DIM).areaCells ↔ ∃ T ∈ l, c ∈ T.superCells) ∧
      l.Pairwise (fun T T' => Disjoint T.superCells T'.superCells) ∧
      ∀ T ∈ l, Set.InjOn T.getSuperCellIndex (blocks T.getGridDim) ∧
        ∀ c ∈ T.superCells, ∀ c' ∈ T.superCells, c ≠ c' → ∃ d, (stride : ℤ) ≤ |c d - c' d| := by
  have h := valid_zero hM area hstride hoffsets hsum
  have hzero := linearOffset_zero M area stride
  have hproduct : productOfComponents (⟨M, area, stride, 0⟩ : StrideMapping DIM).strides = (stride ^ DIM : ℕ) :=
    h.productOfComponents_strides
  obtain ⟨l, hl, hfrom, hpairwise, hcover⟩ :=
    h.launchesFrom_spec (stride ^ DIM) (by rw [hzero, hproduct, zero_add])
  rw [hzero] at hfrom hcover
  refine ⟨l, hl, fun c => ⟨fun hc => ?_, ?_⟩,
    hpairwise.imp_of_mem fun {T T'} hT hT' hlt => Set.disjoint_left.mpr fun c hc hc' => ?_,
    fun T hT => ?_⟩
  · obtain ⟨r, hr, hcr⟩ := h.exists_offset hc
    exact hcover r hr.1 hr.2 c hcr
  · rintro ⟨T, hT, hc⟩
    obtain ⟨r, hr, hlt, rfl⟩ := hfrom T hT
    exact ((h.atOffset ⟨hr, hlt⟩).mem_superCells.mp hc).1
  · obtain ⟨r, hr, hlt', rfl⟩ := hfrom T hT
    obtain ⟨r', hr', hlt'', rfl⟩ := hfrom T' hT'
    rw [h.offset_unique ⟨hr, hlt'⟩ ⟨hr', hlt''⟩ hc hc'] at hlt
    exact lt_irrefl _ hlt
  · obtain ⟨r, hr, hlt, rfl⟩ := hfrom T hT
    have hvalid := h.atOffset ⟨hr, hlt⟩
    exact ⟨hvalid.injOn_getSuperCellIndex,
      fun c hc c' hc' hne => hvalid.exists_stride_le hc hc' hne⟩

/-- Nine supercells in a row, the outer ones of which are the guard. -/
def nineSuperCells : MappingDescription 1 := ⟨fun _ => 9, fun _ => 1, by decide, by decide⟩

theorem nineSuperCells_usable : nineSuperCells.Usable := by
  refine ⟨by decide, ?_⟩
  rw [InIndexSpace, Fin.prod_univ_one]
  decide

/-- Three launches over the seven in the middle. -/
theorem launches_partition_nine :
    ∃ l, (∀ fuel, 3 ^ 1 ≤ fuel →
      launchesFrom fuel (⟨nineSuperCells, .CORE_BORDER, 3, 0⟩ : StrideMapping 1) = some l) ∧
      (∀ c, c ∈ (⟨nineSuperCells, .CORE_BORDER, 3, 0⟩ : StrideMapping 1).areaCells ↔ ∃ T ∈ l,
        c ∈ T.superCells) ∧
      l.Pairwise (fun T T' => Disjoint T.superCells T'.superCells) ∧
      ∀ T ∈ l, Set.InjOn T.getSuperCellIndex (blocks T.getGridDim) ∧
        ∀ c ∈ T.superCells, ∀ c' ∈ T.superCells, c ≠ c' → ∃ d, (3 : ℤ) ≤ |c d - c' d| :=
  launches_partition nineSuperCells_usable .CORE_BORDER (by decide) (by decide) (by decide)

end StrideMapping
end Mappings
end Spearhed
