import Spearhed.Particles.NeighbourRegions

/-!
# The finished neighbour lists as rows of one array

What `calculateNeighbourEntrySender` returns is an array of source indices and the offsets of its
rows.  `ExactRows` says that the offsets cut the array into one row for every target region, that the
array is as long as the last offset, that row `i` holds the indices of the source regions whose box
meets the expanded box of target `i`, and that no block ever leaves its own row.

The array is allocated with the size `static_cast<int>(totalPairs)`, so from `2 ^ 31` pairs on its
size is negative: `exactRows_iff`.
-/

namespace Spearhed
namespace Particles

open Library

variable {K : Type} [Field K] [LinearOrder K] {d : ℕ}

/-- The size that the array of neighbour indices is allocated with. -/
def neighbourRegionsSize (numWorkers : ℕ) (targetPR sourcePR : List (ParticleRegion K d)) (smoothingLength : K) : ℤ :=
  toInt (regionOffsets numWorkers targetPR sourcePR smoothingLength).2

/-- The rows of a target region, read between its offsets once the write pass has ended. -/
def row (offsets memory : ℕ → UInt32) (i : ℕ) : List ℕ :=
  (List.range ((offsets (i + 1)).toNat - (offsets i).toNat)).map fun k => (memory ((offsets i).toNat + k)).toNat

/-- The offsets and the rows are exact in every run of the write pass. -/
structure ExactRows (numWorkers : ℕ) (targetPR sourcePR : List (ParticleRegion K d)) (smoothingLength : K)
    (offsets : ℕ → UInt32) : Prop where
  zero : offsets 0 = 0
  count : ∀ i : Fin targetPR.length, (offsets (i + 1)).toNat - (offsets i).toNat =
    ((List.range sourcePR.length).filter (meets ((targetPR.get i).volume.expand smoothingLength) sourcePR)).length
  mono : ∀ i < targetPR.length, (offsets i).toNat ≤ (offsets (i + 1)).toNat
  size : ((offsets targetPR.length).toNat : ℤ) = neighbourRegionsSize numWorkers targetPR sourcePR smoothingLength
  terminating : ∀ memory s, ((writePass numWorkers targetPR sourcePR smoothingLength).system memory).Reachable s →
    ((writePass numWorkers targetPR sourcePR smoothingLength).system memory).Terminating s
  /-- The assertion at the end of a block holds, and it holds before. -/
  assertion : ∀ memory s, ((writePass numWorkers targetPR sourcePR smoothingLength).system memory).Reachable s →
    ∀ b : Fin targetPR.length, (offsets b + UInt32.ofNat (s.claimed b).length).toNat ≤ (offsets (b + 1)).toNat
  inside : ∀ memory s, ((writePass numWorkers targetPR sourcePR smoothingLength).system memory).Reachable s →
    ∀ (b : Fin targetPR.length) (k : ℕ), k < (s.claimed b).length →
      (offsets b).toNat ≤ (writePass numWorkers targetPR sourcePR smoothingLength).place b k ∧
        (writePass numWorkers targetPR sourcePR smoothingLength).place b k < (offsets (b + 1)).toNat
  rows : ∀ memory s, ((writePass numWorkers targetPR sourcePR smoothingLength).system memory).Reachable s →
    ((writePass numWorkers targetPR sourcePR smoothingLength).system memory).Terminal s →
      ∀ b : Fin targetPR.length, (row offsets s.memory b).Nodup ∧
        ∀ j, j ∈ row offsets s.memory b ↔
          ∃ other, sourcePR[j]? = some other ∧ ((targetPR.get b).volume.expand smoothingLength).intersects other.volume

section Rows

variable {k : ℕ} {targetPR sourcePR : List (ParticleRegion K d)} {smoothingLength : K}
  (hfit : pairs targetPR sourcePR smoothingLength < 2 ^ 32)
include hfit

theorem regionOffsets_toNat {i : ℕ} (hi : i ≤ targetPR.length) :
    ((regionOffsets (2 ^ k) targetPR sourcePR smoothingLength).1 i).toNat =
      blockStart (rowLengths targetPR sourcePR smoothingLength) i := by
  rw [regionOffsets_eq k hi, UInt32.toNat_ofNat_of_lt' ((blockStart_le_sum _ i).trans_lt hfit)]

theorem regionOffsets_succ_toNat (b : Fin targetPR.length) :
    ((regionOffsets (2 ^ k) targetPR sourcePR smoothingLength).1 (b + 1)).toNat =
      ((regionOffsets (2 ^ k) targetPR sourcePR smoothingLength).1 b).toNat +
        (neighbours (targetPR.get b) sourcePR smoothingLength).length := by
  rw [regionOffsets_toNat hfit b.isLt, regionOffsets_toNat hfit b.isLt.le, blockStart_succ, rowLengths_getD_fin]
  rfl

theorem regionOffsets_last_toNat :
    ((regionOffsets (2 ^ k) targetPR sourcePR smoothingLength).1 targetPR.length).toNat =
      pairs targetPR sourcePR smoothingLength := by
  have hlen : (rowLengths targetPR sourcePR smoothingLength).length = targetPR.length := by
    rw [rowLengths, List.length_map]
  rw [regionOffsets_toNat hfit le_rfl, ← hlen, blockStart_length, pairs]

/-- The last offset is the size of the array unless the size is negative. -/
theorem regionOffsets_last_eq_size_iff :
    (((regionOffsets (2 ^ k) targetPR sourcePR smoothingLength).1 targetPR.length).toNat : ℤ) =
      neighbourRegionsSize (2 ^ k) targetPR sourcePR smoothingLength ↔
    pairs targetPR sourcePR smoothingLength < 2 ^ 31 := by
  rw [regionOffsets_last_toNat hfit, neighbourRegionsSize, totalPairs_eq]
  constructor
  · intro hsize
    by_contra hge
    have hneg : toInt (UInt32.ofNat (pairs targetPR sourcePR smoothingLength)) < 0 :=
      toInt_neg_of_le (by rw [UInt32.toNat_ofNat_of_lt' hfit]; omega)
    omega
  · intro hlt
    exact (toInt_ofNat hlt).symm

/-- A block has taken no more positions than its row has. -/
theorem length_claimed_le_row {memory : ℕ → UInt32} {s : SharedCursor.State (Fin targetPR.length) ℕ ℕ UInt32}
    (h : ((writePass (2 ^ k) targetPR sourcePR smoothingLength).system memory).Reachable s) (b : Fin targetPR.length) :
    (s.claimed b).length ≤ (neighbours (targetPR.get b) sourcePR smoothingLength).length :=
  calc (s.claimed b).length ≤ ((writePass (2 ^ k) targetPR sourcePR smoothingLength).items b).length :=
        (SharedCursor.inv_of_reachable h).length_claimed_le b
    _ = (neighbours (targetPR.get b) sourcePR smoothingLength).length := (writePass_items_perm hfit b).length_eq

theorem writePass_place_inside {memory : ℕ → UInt32} {s : SharedCursor.State (Fin targetPR.length) ℕ ℕ UInt32}
    (h : ((writePass (2 ^ k) targetPR sourcePR smoothingLength).system memory).Reachable s) (b : Fin targetPR.length)
    {i : ℕ} (hi : i < (s.claimed b).length) :
    ((regionOffsets (2 ^ k) targetPR sourcePR smoothingLength).1 b).toNat ≤
        (writePass (2 ^ k) targetPR sourcePR smoothingLength).place b i ∧
      (writePass (2 ^ k) targetPR sourcePR smoothingLength).place b i <
        ((regionOffsets (2 ^ k) targetPR sourcePR smoothingLength).1 (b + 1)).toNat := by
  have hrow : i < (neighbours (targetPR.get b) sourcePR smoothingLength).length := hi.trans_le (length_claimed_le_row hfit h b)
  have hplace := writePass_place_eq (k := k) hfit (by rw [rowLengths_getD_fin b]; exact hrow)
  rw [regionOffsets_succ_toNat hfit, regionOffsets_toNat hfit b.isLt.le, hplace]
  omega

/-- **The row of a target region**, in the order in which its block took the positions. -/
theorem row_perm (hsource : sourcePR.length < 2 ^ 31) {memory : ℕ → UInt32}
    {s : SharedCursor.State (Fin targetPR.length) ℕ ℕ UInt32}
    (h : ((writePass (2 ^ k) targetPR sourcePR smoothingLength).system memory).Reachable s)
    (ht : ((writePass (2 ^ k) targetPR sourcePR smoothingLength).system memory).Terminal s) (b : Fin targetPR.length) :
    (row (regionOffsets (2 ^ k) targetPR sourcePR smoothingLength).1 s.memory b).Perm
      (neighbours (targetPR.get b) sourcePR smoothingLength) := by
  have hperm := (row_perm_neighbours hfit h ht b).map UInt32.toNat
  have hget : targetPR[b] = targetPR.get b := rfl
  rw [List.map_map, List.map_map, hget] at hperm
  have hid : (neighbours (targetPR.get b) sourcePR smoothingLength).map (UInt32.toNat ∘ UInt32.ofNat) =
      neighbours (targetPR.get b) sourcePR smoothingLength := by
    refine (List.map_congr_left fun j hj => ?_).trans (List.map_id _)
    have hlt := lt_of_mem_neighbours hj
    exact UInt32.toNat_ofNat_of_lt' (by rw [UInt32.size]; omega)
  rw [hid] at hperm
  rw [row, regionOffsets_succ_toNat hfit, regionOffsets_toNat hfit b.isLt.le, Nat.add_sub_cancel_left]
  exact hperm

end Rows

theorem mem_neighbours_iff {region : ParticleRegion K d} {sourcePR : List (ParticleRegion K d)} {smoothingLength : K}
    {j : ℕ} : j ∈ neighbours region sourcePR smoothingLength ↔
      ∃ other, sourcePR[j]? = some other ∧ (region.volume.expand smoothingLength).intersects other.volume := by
  constructor
  · intro hj
    have hget := List.getElem?_eq_getElem (lt_of_mem_neighbours hj)
    refine ⟨_, hget, ?_⟩
    rw [← meets_eq_true hget]
    exact List.of_mem_filter hj
  · rintro ⟨other, hget, hmeets⟩
    rw [neighbours, List.mem_filter, List.mem_range, meets_eq_true hget]
    exact ⟨(List.getElem?_eq_some_iff.mp hget).1, hmeets⟩

/-- **The lists are exact exactly below `2 ^ 31` pairs**, with one worker for a block or with 32, for
any margin, and with no target or no source region at all.  The loop over the source regions must not
leave `int`. -/
theorem exactRows_iff {numWorkers : ℕ} (hw : numWorkers = 1 ∨ numWorkers = 32)
    {targetPR sourcePR : List (ParticleRegion K d)}
    (hsource : sourcePR.length + numWorkers ≤ 2 ^ 31) {smoothingLength : K}
    (hfit : pairs targetPR sourcePR smoothingLength < 2 ^ 32) :
    ExactRows numWorkers targetPR sourcePR smoothingLength
        (regionOffsets numWorkers targetPR sourcePR smoothingLength).1 ↔
      pairs targetPR sourcePR smoothingLength < 2 ^ 31 := by
  obtain ⟨k, rfl⟩ : ∃ k, numWorkers = 2 ^ k := by
    rcases hw with rfl | rfl
    · exact ⟨0, rfl⟩
    · exact ⟨5, rfl⟩
  refine ⟨fun h => (regionOffsets_last_eq_size_iff hfit).mp h.size, fun hlt => ?_⟩
  exact {
    zero := by
      rw [regionOffsets_eq k (Nat.zero_le _), blockStart_zero]
      rfl
    count := fun i => by
      rw [regionOffsets_succ_toNat hfit, Nat.add_sub_cancel_left]
      rfl
    mono := fun i hi => by
      rw [regionOffsets_succ_toNat hfit ⟨i, hi⟩]
      exact Nat.le_add_right _ _
    size := (regionOffsets_last_eq_size_iff hfit).mpr hlt
    terminating := fun memory s h => SharedCursor.terminating h
    assertion := fun memory s h b => by
      have hle := length_claimed_le_row hfit h b
      have hrow := regionOffsets_succ_toNat (k := k) hfit b
      calc ((regionOffsets (2 ^ k) targetPR sourcePR smoothingLength).1 b + UInt32.ofNat (s.claimed b).length).toNat
          ≤ ((regionOffsets (2 ^ k) targetPR sourcePR smoothingLength).1 b).toNat + (s.claimed b).length := by
            rw [UInt32.toNat_add, UInt32.toNat_ofNat']
            exact (Nat.mod_le _ _).trans (Nat.add_le_add_left (Nat.mod_le _ _) _)
        _ ≤ ((regionOffsets (2 ^ k) targetPR sourcePR smoothingLength).1 (b + 1)).toNat := by
            rw [hrow]
            exact Nat.add_le_add_left hle _
    inside := fun memory s h b i hi => writePass_place_inside hfit h b hi
    rows := fun memory s h ht b => by
      have hpos := Nat.two_pow_pos k
      have hperm := row_perm hfit (by omega) h ht b
      refine ⟨hperm.nodup_iff.mpr (nodup_neighbours _ _ _), fun j => ?_⟩
      rw [hperm.mem_iff]
      exact mem_neighbours_iff }

/-- Two regions, both of them at the origin. -/
theorem exactRows_iff_two_regions :
    ExactRows 32 [shiftedRegion 0] [shiftedRegion 0, shiftedRegion 0] 1
      (regionOffsets 32 [shiftedRegion 0] [shiftedRegion 0, shiftedRegion 0] 1).1 := by
  have hpairs : pairs [shiftedRegion 0] [shiftedRegion 0, shiftedRegion 0] 1 ≤ 2 := by
    rw [pairs, rowLengths, List.map_singleton, List.sum_singleton]
    exact List.length_filter_le ..
  exact (exactRows_iff (Or.inr rfl) (by norm_num) (hpairs.trans_lt (by norm_num))).mpr (hpairs.trans_lt (by norm_num))

section Large

/-- Copies of one region all meet each other. -/
theorem pairs_replicate {region : ParticleRegion K d} {smoothingLength : K}
    (hmeets : (region.volume.expand smoothingLength).intersects region.volume = true) (n m : ℕ) :
    pairs (List.replicate n region) (List.replicate m region) smoothingLength = n * m := by
  have hrow : neighbours region (List.replicate m region) smoothingLength = List.range m := by
    rw [neighbours, List.length_replicate, List.filter_eq_self]
    intro j hj
    rw [meets_eq_true (List.getElem?_replicate_of_lt (List.mem_range.mp hj)), hmeets]
  rw [pairs, rowLengths, List.map_replicate, hrow, List.length_range, List.sum_replicate, smul_eq_mul]

theorem shiftedRegion_meets_itself :
    ((shiftedRegion 0).volume.expand 1).intersects (shiftedRegion 0).volume = true := by
  rw [AABB.expand_intersects_iff]
  intro t
  norm_num [shiftedRegion]

theorem not_exactRows_replicate {n m : ℕ} (hm : m + 32 ≤ 2 ^ 31) (hle : 2 ^ 31 ≤ n * m) (hlt : n * m < 2 ^ 32) :
    pairs (List.replicate n (shiftedRegion 0)) (List.replicate m (shiftedRegion 0)) 1 < 2 ^ 32 ∧
      ¬ ExactRows 32 (List.replicate n (shiftedRegion 0)) (List.replicate m (shiftedRegion 0)) 1
        (regionOffsets 32 (List.replicate n (shiftedRegion 0)) (List.replicate m (shiftedRegion 0)) 1).1 := by
  have hpairs := pairs_replicate shiftedRegion_meets_itself n m
  rw [exactRows_iff (Or.inr rfl) (by rwa [List.length_replicate]) (by rwa [hpairs]), hpairs]
  exact ⟨hlt, by omega⟩

/-- With `2 ^ 31` pairs, which an unsigned counter holds, the array has a negative size. -/
theorem exactRows_needs_int_size :
    pairs (List.replicate 65536 (shiftedRegion 0)) (List.replicate 32768 (shiftedRegion 0)) 1 < 2 ^ 32 ∧
      ¬ ExactRows 32 (List.replicate 65536 (shiftedRegion 0)) (List.replicate 32768 (shiftedRegion 0)) 1
        (regionOffsets 32 (List.replicate 65536 (shiftedRegion 0)) (List.replicate 32768 (shiftedRegion 0)) 1).1 :=
  not_exactRows_replicate (by norm_num) (by norm_num) (by norm_num)

end Large

end Particles
end Spearhed
