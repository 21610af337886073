import Mathlib.Algebra.BigOperators.Fin
import Mathlib.Algebra.Order.Floor.Defs
import Mathlib.Data.UInt
import Spearhed.Library.Literals
import Spearhed.Particles.Geometry

/-!
# Simple cubic lattices

`particles/initialization/SC.hpp`: how many cells of a lattice there are along each axis of a box, and
the placement of a particle at the centre of a cell.  Counts and indices are `uint32_t`; coordinates are
elements of an ordered field, so that their arithmetic is exact.

The placement decomposes the index of a particle in a mixed radix, with a running product that may wrap
around.  Where the product of all counts does not, indices and cells are in bijection
(`SC.bijOn_cells`), so that all indices together give each site of the lattice once (`SC.map_place`);
sites are inside of the box (`SC.site_mem`) and apart from each other (`SC.exists_site_apart`).
-/

namespace Spearhed
namespace Particles

open Library.Literals

variable {K : Type} [Field K] [LinearOrder K] {d : ℕ}

/-! ## Counts -/

section Counts

variable [FloorSemiring K]

/-- `static_cast<uint32_t>`. -/
def castUInt32 (value : K) : UInt32 := UInt32.ofNat ⌊value⌋₊

/-- `truncateNearInteger`, with `std::numeric_limits<Scalar>::epsilon()`. -/
def truncateNearInteger (epsilon value : K) : UInt32 :=
  let truncated := castUInt32 value
  let scale := if value > 1 then value else 1
  let tolerance := 4 * epsilon * scale
  let distanceToNext := ((truncated + 1).toNat : K) - value
  if distanceToNext ≥ 0 ∧ distanceToNext ≤ tolerance then truncated + 1 else truncated

/-- `computeSCCellCounts`. -/
def computeSCCellCounts (epsilon : K) (aabb : AABB K d) (spacing : K) : Fin (d + 1) → UInt32 := fun i =>
  let value := (aabb.max i - aabb.min i) / spacing
  let count := if i = 0 then truncateNearInteger epsilon value else castUInt32 (value + 1 / 2)
  if count = 0 then 1 else count

theorem one_le_computeSCCellCounts (epsilon : K) (aabb : AABB K d) (spacing : K) (i : Fin (d + 1)) :
    1 ≤ (computeSCCellCounts epsilon aabb spacing i).toNat := by
  rw [computeSCCellCounts]
  generalize (if i = 0 then truncateNearInteger epsilon ((aabb.max i - aabb.min i) / spacing)
    else castUInt32 ((aabb.max i - aabb.min i) / spacing + 1 / 2)) = count
  split
  · exact le_rfl
  · next hne => exact Nat.one_le_iff_ne_zero.mpr fun hzero => hne (UInt32.toNat_inj.mp hzero)

end Counts

/-- The product of the first `k` counts. -/
def latticeProduct (n : Fin (d + 1) → UInt32) : (k : ℕ) → k ≤ d + 1 → UInt32
  | 0, _ => 1
  | k + 1, hk => latticeProduct n k (k.le_succ.trans hk) * n ⟨k, hk⟩

/-- `numSCLatticeSites`. -/
def numSCLatticeSites (n : Fin (d + 1) → UInt32) : UInt32 := latticeProduct n (d + 1) le_rfl

/-- Partial products are products of natural numbers, if the whole product fits. -/
theorem toNat_latticeProduct {n : Fin (d + 1) → UInt32} (hn : ∀ i, 1 ≤ (n i).toNat)
    (hprod : ∏ i, (n i).toNat < 2 ^ 32) (k : ℕ) (hk : k ≤ d + 1) :
    (latticeProduct n k hk).toNat = ∏ j : Fin k, (n (Fin.castLE hk j)).toNat := by
  induction k with
  | zero => rw [Fin.prod_univ_zero]; rfl
  | succ k ih =>
    have hsplit : ∏ j : Fin (k + 1), (n (Fin.castLE hk j)).toNat =
        (∏ j : Fin k, (n (Fin.castLE (k.le_succ.trans hk) j)).toNat) * (n ⟨k, hk⟩).toNat :=
      Fin.prod_univ_castSucc _
    have hle : ∏ j : Fin (k + 1), (n (Fin.castLE hk j)).toNat ≤ ∏ i, (n i).toNat := by
      refine Nat.le_of_dvd (Finset.prod_pos fun i _ => hn i) ?_
      have hmap := Finset.prod_map Finset.univ (Fin.castLEEmb hk) fun i => (n i).toNat
      exact hmap ▸ Finset.prod_dvd_prod_of_subset _ _ _ (Finset.subset_univ _)
    rw [latticeProduct, UInt32.toNat_mul, ih, ← hsplit, Nat.mod_eq_of_lt (hle.trans_lt hprod)]

theorem toNat_numSCLatticeSites {n : Fin (d + 1) → UInt32} (hn : ∀ i, 1 ≤ (n i).toNat)
    (hprod : ∏ i, (n i).toNat < 2 ^ 32) : (numSCLatticeSites n).toNat = ∏ i, (n i).toNat :=
  toNat_latticeProduct hn hprod (d + 1) le_rfl

/-! ## Placement -/

namespace SC

/-- The variables of the placement: the running product, the cell indices so far, and the position. -/
structure Placement (K : Type) (d : ℕ) where
  accum : UInt32
  /-- The `ik` of the axes. -/
  cells : Fin (d + 1) → UInt32
  relativePos : Vec K d

/-- The loop over the axes, after `k` of them. -/
def axes (aabb : AABB K d) (n : Fin (d + 1) → UInt32) (globalParticleIdx : UInt32)
    (relativePos : Vec K d) : (k : ℕ) → k ≤ d + 1 → Placement K d
  | 0, _ => ⟨1, fun _ => 0, relativePos⟩
  | k + 1, hk =>
    let s := axes aabb n globalParticleIdx relativePos k (k.le_succ.trans hk)
    let i : Fin (d + 1) := ⟨k, hk⟩
    let ik := globalParticleIdx / s.accum % n i
    let di := (aabb.max i - aabb.min i) / ((n i).toNat : K)
    ⟨s.accum * n i, Function.update s.cells i ik,
      Function.update s.relativePos i (aabb.min i + ((ik.toNat : K) + 1 / 2) * di)⟩

/-- `SC::operator()` with an array of counts. -/
def place (aabb : AABB K d) (n : Fin (d + 1) → UInt32) (globalParticleIdx : UInt32)
    (relativePos : Vec K d) : Placement K d :=
  axes aabb n globalParticleIdx relativePos (d + 1) le_rfl

/-- The centre of a cell. -/
def site (aabb : AABB K d) (n cell : Fin (d + 1) → ℕ) : Vec K d := fun i =>
  aabb.min i + ((cell i : K) + 1 / 2) * ((aabb.max i - aabb.min i) / (n i : K))

variable {aabb : AABB K d} {n : Fin (d + 1) → UInt32} {relativePos : Vec K d}

omit [LinearOrder K] in
/-- What the loop has computed for the axes it has visited. -/
theorem axes_spec (aabb : AABB K d) (n : Fin (d + 1) → UInt32) (idx : UInt32) (relativePos : Vec K d)
    (k : ℕ) (hk : k ≤ d + 1) :
    (axes aabb n idx relativePos k hk).accum = latticeProduct n k hk ∧
      ∀ i : Fin (d + 1), i.val < k →
        (axes aabb n idx relativePos k hk).cells i =
            idx / latticeProduct n i.val i.isLt.le % n i ∧
          (axes aabb n idx relativePos k hk).relativePos i =
            site aabb (fun j => (n j).toNat)
              (fun j => (idx / latticeProduct n j.val j.isLt.le % n j).toNat) i := by
  induction k with
  | zero => exact ⟨rfl, nofun⟩
  | succ k ih =>
    obtain ⟨haccum, hvisited⟩ := ih (k.le_succ.trans hk)
    refine ⟨by rw [axes, latticeProduct, ← haccum], fun i hi => ?_⟩
    rw [axes]
    dsimp only
    rcases eq_or_ne i ⟨k, hk⟩ with rfl | hne
    · rw [Function.update_self, Function.update_self, haccum]
      exact ⟨rfl, rfl⟩
    · rw [Function.update_of_ne hne, Function.update_of_ne hne]
      have hval : i.val ≠ k := fun heq => hne (Fin.ext heq)
      exact hvisited i (by omega)

omit [LinearOrder K] in
theorem cells_place (aabb : AABB K d) (n : Fin (d + 1) → UInt32) (idx : UInt32)
    (relativePos : Vec K d) (i : Fin (d + 1)) : (place aabb n idx relativePos).cells i =
      idx / latticeProduct n i.val i.isLt.le % n i :=
  ((axes_spec aabb n idx relativePos (d + 1) le_rfl).2 i i.isLt).1

omit [LinearOrder K] in
/-- A particle is placed at the centre of its cell. -/
theorem relativePos_place (aabb : AABB K d) (n : Fin (d + 1) → UInt32) (idx : UInt32)
    (relativePos : Vec K d) : (place aabb n idx relativePos).relativePos =
      site aabb (fun i => (n i).toNat) (fun i => ((place aabb n idx relativePos).cells i).toNat) := by
  funext i
  simp only [cells_place]
  exact ((axes_spec aabb n idx relativePos (d + 1) le_rfl).2 i i.isLt).2

omit [LinearOrder K] in
/-- The cell indices are the digits in the mixed radix of the counts. -/
theorem toNat_cells_place (hn : ∀ i, 1 ≤ (n i).toNat) (hprod : ∏ i, (n i).toNat < 2 ^ 32)
    (aabb : AABB K d) (relativePos : Vec K d) {idx : UInt32}
    (hidx : idx.toNat < ∏ i, (n i).toNat) (i : Fin (d + 1)) :
    ((place aabb n idx relativePos).cells i).toNat =
      (finPiFinEquiv.symm (⟨idx.toNat, hidx⟩ : Fin (∏ i, (n i).toNat)) i).val := by
  rw [cells_place, UInt32.toNat_mod, UInt32.toNat_div, toNat_latticeProduct hn hprod]
  rfl

omit [LinearOrder K] in
/-- **Indices and cells are in bijection.** -/
theorem bijOn_cells (hn : ∀ i, 1 ≤ (n i).toNat) (hprod : ∏ i, (n i).toNat < 2 ^ 32)
    (aabb : AABB K d) (relativePos : Vec K d) :
    Set.BijOn (fun idx => (place aabb n idx relativePos).cells) {idx | idx < numSCLatticeSites n}
      {cell | ∀ i, cell i < n i} := by
  have hindex : ∀ idx < numSCLatticeSites n, idx.toNat < ∏ i, (n i).toNat := fun idx hidx => by
    rw [← toNat_numSCLatticeSites hn hprod]
    exact UInt32.lt_iff_toNat_lt.mp hidx
  refine ⟨fun idx hidx i => ?_, fun idx hidx idx' hidx' heq => ?_, fun cell hcell => ?_⟩
  · rw [UInt32.lt_iff_toNat_lt, toNat_cells_place hn hprod aabb relativePos (hindex idx hidx)]
    exact Fin.isLt _
  · have hdigits : finPiFinEquiv.symm ⟨idx.toNat, hindex idx hidx⟩ =
        finPiFinEquiv.symm ⟨idx'.toNat, hindex idx' hidx'⟩ := by
      funext i
      have hcell : ((place aabb n idx relativePos).cells i).toNat =
          ((place aabb n idx' relativePos).cells i).toNat := congrArg UInt32.toNat (congrFun heq i)
      rw [toNat_cells_place hn hprod aabb relativePos (hindex idx hidx),
        toNat_cells_place hn hprod aabb relativePos (hindex idx' hidx')] at hcell
      exact Fin.ext hcell
    exact UInt32.toNat_inj.mp (Fin.mk.inj (finPiFinEquiv.symm.injective hdigits))
  · set digits : ∀ i, Fin (n i).toNat := fun i => ⟨(cell i).toNat, UInt32.lt_iff_toNat_lt.mp (hcell i)⟩
    have htoNat : (UInt32.ofNat (finPiFinEquiv digits).val).toNat = (finPiFinEquiv digits).val :=
      UInt32.toNat_ofNat_of_lt' ((finPiFinEquiv digits).isLt.trans hprod)
    refine ⟨UInt32.ofNat (finPiFinEquiv digits).val, ?_, funext fun i => UInt32.toNat_inj.mp ?_⟩
    · show UInt32.ofNat (finPiFinEquiv digits).val < numSCLatticeSites n
      rw [UInt32.lt_iff_toNat_lt, htoNat, toNat_numSCLatticeSites hn hprod]
      exact Fin.isLt _
    · rw [toNat_cells_place hn hprod aabb relativePos (htoNat.symm ▸ (finPiFinEquiv digits).isLt)]
      simp only [htoNat, Fin.eta, Equiv.symm_apply_apply]
      rfl

/-- The centres of all cells. -/
def latticeSites (aabb : AABB K d) (n : Fin (d + 1) → UInt32) : Multiset (Vec K d) :=
  (Finset.univ : Finset (∀ i, Fin (n i).toNat)).val.map fun cell =>
    site aabb (fun i => (n i).toNat) fun i => (cell i).val

omit [LinearOrder K] in
/-- **All indices together give each site once.** -/
theorem map_place (hn : ∀ i, 1 ≤ (n i).toNat) (hprod : ∏ i, (n i).toNat < 2 ^ 32) (aabb : AABB K d)
    (initial : ℕ → Vec K d) : Multiset.ofList ((List.range (numSCLatticeSites n).toNat).map fun k =>
      (place aabb n (UInt32.ofNat k) (initial k)).relativePos) = latticeSites aabb n := by
  have hplace : ∀ k : Fin (∏ i, (n i).toNat),
      (place aabb n (UInt32.ofNat k.val) (initial k.val)).relativePos =
        site aabb (fun i => (n i).toNat) fun i => (finPiFinEquiv.symm k i).val := fun k => by
    have htoNat : (UInt32.ofNat k.val).toNat = k.val := UInt32.toNat_ofNat_of_lt' (k.isLt.trans hprod)
    rw [relativePos_place]
    refine congrArg (site aabb _) (funext fun i => ?_)
    rw [toNat_cells_place hn hprod aabb _ (htoNat.symm ▸ k.isLt)]
    simp only [htoNat, Fin.eta]
  rw [toNat_numSCLatticeSites hn hprod, ← List.map_coe_finRange_eq_range, List.map_map,
    latticeSites, ← Multiset.map_univ_val_equiv finPiFinEquiv.symm, Multiset.map_map]
  exact congrArg Multiset.ofList (List.map_congr_left fun k _ => hplace k)

variable [IsStrictOrderedRing K]

/-- **Centres are strictly inside of the box.** -/
theorem site_mem {n cell : Fin (d + 1) → ℕ} (hextent : ∀ i, aabb.min i < aabb.max i)
    (hcell : ∀ i, cell i < n i) (i : Fin (d + 1)) :
    aabb.min i < site aabb n cell i ∧ site aabb n cell i < aabb.max i := by
  have hn : (0 : K) < n i := Nat.cast_pos.mpr (Nat.zero_lt_of_lt (hcell i))
  have hwidth : 0 < (aabb.max i - aabb.min i) / (n i : K) :=
    div_pos (sub_pos.mpr (hextent i)) hn
  have hcast : (cell i : K) + 1 ≤ n i := by exact_mod_cast hcell i
  have hhalf : (1 / 2 : K) < 1 := by norm_num
  constructor
  · exact lt_add_of_pos_right _ (mul_pos (by positivity) hwidth)
  · calc site aabb n cell i
        < aabb.min i + (n i : K) * ((aabb.max i - aabb.min i) / (n i : K)) :=
          add_lt_add_right (mul_lt_mul_of_pos_right (by linarith) hwidth) _
      _ = aabb.max i := by rw [mul_div_cancel₀ _ hn.ne', add_sub_cancel]

/-- **Centres of different cells are a cell apart on some axis.** -/
theorem exists_site_apart {n cell cell' : Fin (d + 1) → ℕ}
    (hextent : ∀ i, aabb.min i < aabb.max i) (hne : cell ≠ cell') :
    ∃ i, (aabb.max i - aabb.min i) / (n i : K) ≤ |site aabb n cell i - site aabb n cell' i| := by
  obtain ⟨i, hi⟩ := Function.ne_iff.mp hne
  have hwidth : 0 ≤ (aabb.max i - aabb.min i) / (n i : K) :=
    div_nonneg (sub_nonneg.mpr (hextent i).le) (Nat.cast_nonneg _)
  have hdiff : site aabb n cell i - site aabb n cell' i =
      ((cell i : K) - cell' i) * ((aabb.max i - aabb.min i) / (n i : K)) := by
    rw [site, site]
    ring
  have hone : (1 : K) ≤ |(cell i : K) - cell' i| := by
    have hint : (1 : ℤ) ≤ |(cell i : ℤ) - cell' i| :=
      Int.one_le_abs (sub_ne_zero.mpr (Nat.cast_injective.ne hi))
    exact_mod_cast hint
  refine ⟨i, ?_⟩
  rw [hdiff, abs_mul, abs_of_nonneg hwidth]
  exact le_mul_of_one_le_left hwidth hone

/-- Different cells have different centres. -/
theorem nodup_latticeSites (hextent : ∀ i, aabb.min i < aabb.max i) (hn : ∀ i, 1 ≤ (n i).toNat) :
    (latticeSites aabb n).Nodup := by
  refine Multiset.Nodup.map (fun cell cell' heq => ?_) Finset.univ.nodup
  by_contra hne
  have hcells : (fun i => (cell i).val) ≠ fun i => (cell' i).val := fun hval =>
    hne (funext fun i => Fin.ext (congrFun hval i))
  obtain ⟨i, hi⟩ := exists_site_apart (n := fun i => (n i).toNat) hextent hcells
  have hwidth : 0 < (aabb.max i - aabb.min i) / ((n i).toNat : K) :=
    div_pos (sub_pos.mpr (hextent i)) (Nat.cast_pos.mpr (hn i))
  rw [congrFun heq i, sub_self, abs_zero] at hi
  exact absurd hi hwidth.not_ge

end SC

end Particles
end Spearhed
