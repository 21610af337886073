import Mathlib.Data.Prod.Lex
import Spearhed.Particles.InitParticles

/-!
# The frame location of a block inverts the scan

`findFrameLocation` on what `inclusiveScanHost` leaves: the blocks of the kernel are the frames of all
regions, in the order of the regions and of the frames in each (`findFrameLocation_inverts_scan`).
Regions without frames repeat an entry of the scan, and the search stops at the last of equal entries,
so it finds none of them.
-/

namespace Spearhed
namespace Particles

open Library

/-- The counts that are scanned. -/
def scanCounts (data : ℕ → UInt32) (numRegions : ℕ) : List ℕ :=
  (List.range numRegions).map fun i => (data i).toNat

/-- The location of a block in the scan of some counts. -/
def scanLocation (data : ℕ → UInt32) (numRegions b : ℕ) : FrameLocation :=
  findFrameLocation b (inclusiveScanHost data numRegions).1 numRegions

variable {data : ℕ → UInt32} {numRegions b : ℕ}

theorem length_scanCounts : (scanCounts data numRegions).length = numRegions := by
  rw [scanCounts, List.length_map, List.length_range]

theorem getD_scanCounts {i : ℕ} (hi : i < numRegions) :
    (scanCounts data numRegions).getD i 0 = (data i).toNat := by
  rw [List.getD_eq_getElem _ _ (by rwa [length_scanCounts])]
  simp [scanCounts]

/-- **A block is found in its region, at its place in it.** -/
theorem scanLocation_eq (hsum : (scanCounts data numRegions).sum < 2 ^ 31) {r : ℕ}
    (hb : InBlock (scanCounts data numRegions) r b) : scanLocation data numRegions b =
      ⟨r, ((b - blockStart (scanCounts data numRegions) r : ℕ) : ℤ),
        (scanCounts data numRegions).getD r 0⟩ := by
  have hdata : ∀ i < (scanCounts data numRegions).length,
      data i = UInt32.ofNat ((scanCounts data numRegions).getD i 0) := fun i hi => by
    rw [length_scanCounts] at hi
    rw [getD_scanCounts hi, UInt32.ofNat_toNat]
  have hscan : ∀ i < (scanCounts data numRegions).length,
      toInt ((inclusiveScanHost data numRegions).1 i) =
        blockStart (scanCounts data numRegions) (i + 1) := fun i hi => by
    have hentry := inclusiveScanHost_ofNat hdata hi
    rw [length_scanCounts] at hentry
    rw [hentry]
    exact toInt_ofNat ((blockStart_le_sum _ _).trans_lt hsum)
  have hloc := findFrameLocation_eq hscan hb
  rwa [length_scanCounts] at hloc

/-- **The lookup inverts the scan.**  Blocks are found in regions with frames only, every frame of every
region has one block, and later blocks have later frames. -/
theorem findFrameLocation_inverts_scan (data : ℕ → UInt32) (numRegions : ℕ)
    (hsum : (scanCounts data numRegions).sum < 2 ^ 31) :
    (∀ b < (scanCounts data numRegions).sum,
      (scanLocation data numRegions b).regionIdx < numRegions ∧
      0 < (data (scanLocation data numRegions b).regionIdx).toNat ∧
      (scanLocation data numRegions b).framesInRegion =
        (data (scanLocation data numRegions b).regionIdx).toNat) ∧
    Set.BijOn
      (fun b => ((scanLocation data numRegions b).regionIdx, (scanLocation data numRegions b).localFrameIdx))
      {b | b < (scanCounts data numRegions).sum}
      {x | x.1 < numRegions ∧ 0 ≤ x.2 ∧ x.2 < (data x.1).toNat} ∧
    StrictMonoOn
      (fun b => toLex
        ((scanLocation data numRegions b).regionIdx, (scanLocation data numRegions b).localFrameIdx))
      {b | b < (scanCounts data numRegions).sum} := by
  have hlocation : ∀ b < (scanCounts data numRegions).sum, ∃ r, InBlock (scanCounts data numRegions) r b ∧
      r < numRegions ∧ scanLocation data numRegions b =
        ⟨r, ((b - blockStart (scanCounts data numRegions) r : ℕ) : ℤ), ((data r).toNat : ℕ)⟩ :=
    fun b hb => by
      obtain ⟨r, hr⟩ := exists_inBlock hb
      have hlt := hr.lt_length
      rw [length_scanCounts] at hlt
      refine ⟨r, hr, hlt, ?_⟩
      rw [scanLocation_eq hsum hr, getD_scanCounts hlt]
  have hmono : StrictMonoOn (fun b => toLex
      ((scanLocation data numRegions b).regionIdx, (scanLocation data numRegions b).localFrameIdx))
      {b | b < (scanCounts data numRegions).sum} := by
    intro b hb b' hb' hlt
    obtain ⟨r, hr, -, heq⟩ := hlocation b hb
    obtain ⟨r', hr', -, heq'⟩ := hlocation b' hb'
    simp only [heq, heq', Prod.Lex.toLex_lt_toLex]
    rcases lt_trichotomy r r' with h | rfl | h
    · exact Or.inl h
    · -- the same region, so a later place in it
      refine Or.inr ⟨rfl, ?_⟩
      have := hr.1
      omega
    · exact absurd (hr'.lt_of_lt hr h) (by omega)
  refine ⟨fun b hb => ?_, ⟨fun b hb => ?_, fun b hb b' hb' h => ?_, fun x hx => ?_⟩, hmono⟩
  · obtain ⟨r, hr, hlt, heq⟩ := hlocation b hb
    rw [heq]
    refine ⟨hlt, ?_, rfl⟩
    have hpos := hr.sub_lt
    rw [getD_scanCounts hlt] at hpos
    exact (Nat.zero_le _).trans_lt hpos
  · obtain ⟨r, hr, hlt, heq⟩ := hlocation b hb
    have hpos := hr.sub_lt
    rw [getD_scanCounts hlt] at hpos
    simp only [heq]
    exact ⟨hlt, Int.natCast_nonneg _, Int.ofNat_lt.mpr hpos⟩
  · exact hmono.injOn hb hb' (congrArg toLex h)
  · obtain ⟨r, i⟩ := x
    obtain ⟨hlt, hnonneg, hi⟩ := hx
    obtain ⟨k, rfl⟩ := Int.eq_ofNat_of_zero_le hnonneg
    have hblock : InBlock (scanCounts data numRegions) r
        (blockStart (scanCounts data numRegions) r + k) :=
      inBlock_add (by rw [getD_scanCounts hlt]; exact Int.ofNat_lt.mp hi)
    refine ⟨_, hblock.lt_sum, ?_⟩
    simp only [scanLocation_eq hsum hblock, Nat.add_sub_cancel_left]

/-- Empty regions at the start, in the middle and at the end. -/
def gappedCounts (i : ℕ) : UInt32 := if i = 1 then 2 else if i = 3 then 1 else 0

theorem findFrameLocation_inverts_scan_gapped :
    (∀ b < 3, (scanLocation gappedCounts 5 b).regionIdx < 5 ∧
      0 < (gappedCounts (scanLocation gappedCounts 5 b).regionIdx).toNat) ∧
    StrictMonoOn (fun b => toLex
      ((scanLocation gappedCounts 5 b).regionIdx, (scanLocation gappedCounts 5 b).localFrameIdx))
      {b | b < 3} := by
  obtain ⟨hfound, -, hmono⟩ := findFrameLocation_inverts_scan gappedCounts 5 (by decide)
  exact ⟨fun b hb => ⟨(hfound b hb).1, (hfound b hb).2.1⟩, hmono⟩

end Particles
end Spearhed
