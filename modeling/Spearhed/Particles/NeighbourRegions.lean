import Mathlib.Tactic
import Spearhed.Library.Lockstep
import Spearhed.Library.SharedCursor
import Spearhed.Particles.FrameDispatch

/-!
# The neighbour-region lists

`FindNeighbourRegionsFunctor` and `calculateNeighbourEntrySender` of `NeighbourRegions.hpp`.  Every
target region gets the list of the source regions whose box meets its own box expanded by a margin.
The lists of all regions are stored one after the other: a first kernel counts, the host turns the
counts into offsets, a second kernel appends the indices at these offsets.

One block works on one target region.  Its workers share the source regions in a strided loop; while
writing, they take positions from a counter in shared memory, so the order inside a list is the
order of these atomic additions.

* `writePass_items_perm`: as long as there are fewer than `2 ^ 32` pairs, every run of the second
  kernel appends the same indices.
* `row_perm_neighbours`: they are found between the offsets of the region.
* `HasClosePair.storedBoxesWithin`: with equal origins, close particles have close boxes.
-/

namespace Spearhed
namespace Particles

open Library

variable {K : Type} [Field K] [LinearOrder K] {d : ℕ}

/-! ## The loops of one block -/

/-- The test of both kernels, for the source region at an index. -/
def meets (searchVolume : AABB K d) (sourcePR : List (ParticleRegion K d)) (otherIdx : ℕ) : Bool :=
  (sourcePR[otherIdx]?).any fun other => searchVolume.intersects other.volume

/-- The source regions that one worker of a block finds. -/
def found (numWorkers threadIdx : ℕ) (searchVolume : AABB K d)
    (sourcePR : List (ParticleRegion K d)) : List ℕ :=
  (strided threadIdx numWorkers sourcePR.length).filter (meets searchVolume sourcePR)

/-- The source regions that the block of a target region finds, in ascending order. -/
def neighbours (region : ParticleRegion K d) (sourcePR : List (ParticleRegion K d))
    (smoothingLength : K) : List ℕ :=
  (List.range sourcePR.length).filter (meets (region.volume.expand smoothingLength) sourcePR)

omit [Field K] in
theorem meets_eq_true {searchVolume : AABB K d} {sourcePR : List (ParticleRegion K d)}
    {j : ℕ} {other : ParticleRegion K d} (h : sourcePR[j]? = some other) :
    meets searchVolume sourcePR j = searchVolume.intersects other.volume := by
  rw [meets, h, Option.any_some]

theorem mem_neighbours {region other : ParticleRegion K d} {sourcePR : List (ParticleRegion K d)}
    {smoothingLength : K} {j : ℕ} (h : sourcePR[j]? = some other) :
    j ∈ neighbours region sourcePR smoothingLength ↔
      ∀ t, region.volume.min t - smoothingLength ≤ other.volume.max t ∧
        other.volume.min t ≤ region.volume.max t + smoothingLength := by
  have hj : j < sourcePR.length := (List.getElem?_eq_some_iff.mp h).1
  rw [neighbours, List.mem_filter, List.mem_range, meets_eq_true h, AABB.expand_intersects_iff]
  exact and_iff_right hj

theorem nodup_neighbours (region : ParticleRegion K d) (sourcePR : List (ParticleRegion K d))
    (smoothingLength : K) : (neighbours region sourcePR smoothingLength).Nodup :=
  List.nodup_range.filter _

theorem lt_of_mem_neighbours {region : ParticleRegion K d} {sourcePR : List (ParticleRegion K d)}
    {smoothingLength : K} {j : ℕ} (h : j ∈ neighbours region sourcePR smoothingLength) :
    j < sourcePR.length :=
  List.mem_range.mp (List.mem_of_mem_filter h)

/-- The workers of a block find every source region once. -/
theorem found_perm_neighbours {numWorkers : ℕ} (hw : 0 < numWorkers)
    (region : ParticleRegion K d) (sourcePR : List (ParticleRegion K d)) (smoothingLength : K) :
    ((List.range numWorkers).flatMap fun w =>
      found numWorkers w (region.volume.expand smoothingLength) sourcePR).Perm
      (neighbours region sourcePR smoothingLength) := by
  unfold found neighbours
  rw [← List.filter_flatMap]
  exact (flatMap_strided_perm hw _).filter _

/-! ## Counting -/

/-- What the block of a target region counts: every worker its own finds, then a tree reduction. -/
def countBlock (numWorkers : ℕ) (region : ParticleRegion K d)
    (sourcePR : List (ParticleRegion K d)) (smoothingLength : K) : UInt32 :=
  treeReduce (· + ·) numWorkers (fun w => UInt32.ofNat
    (found numWorkers w (region.volume.expand smoothingLength) sourcePR).length) 0

theorem countBlock_eq (k : ℕ) (region : ParticleRegion K d) (sourcePR : List (ParticleRegion K d))
    (smoothingLength : K) :
    countBlock (2 ^ k) region sourcePR smoothingLength =
      UInt32.ofNat (neighbours region sourcePR smoothingLength).length := by
  have hperm := (found_perm_neighbours (Nat.two_pow_pos k) region sourcePR smoothingLength).length_eq
  rw [countBlock, treeReduce_zero, sum_ofNat, ← hperm, List.length_flatMap]

/-- `regionOffsets` after the count kernel: entry zero is zero, entry `i + 1` the count of
region `i`.  Without source regions the kernel is not launched. -/
def countPass (numWorkers : ℕ) (targetPR sourcePR : List (ParticleRegion K d))
    (smoothingLength : K) : ℕ → UInt32
  | 0 => 0
  | b + 1 =>
    match targetPR[b]? with
    | some region =>
      if sourcePR.length > 0 then countBlock numWorkers region sourcePR smoothingLength else 0
    | none => 0

/-- `regionOffsets` and `totalPairs` after the scan on the host. -/
def regionOffsets (numWorkers : ℕ) (targetPR sourcePR : List (ParticleRegion K d))
    (smoothingLength : K) : (ℕ → UInt32) × UInt32 :=
  inclusiveScanHost (countPass numWorkers targetPR sourcePR smoothingLength) (targetPR.length + 1)

/-- The lengths of the lists. -/
def rowLengths (targetPR sourcePR : List (ParticleRegion K d)) (smoothingLength : K) : List ℕ :=
  targetPR.map fun region => (neighbours region sourcePR smoothingLength).length

/-- The number of pairs of regions that meet. -/
def pairs (targetPR sourcePR : List (ParticleRegion K d)) (smoothingLength : K) : ℕ :=
  (rowLengths targetPR sourcePR smoothingLength).sum

variable {targetPR sourcePR : List (ParticleRegion K d)} {smoothingLength : K}

theorem rowLengths_getD {i : ℕ} {region : ParticleRegion K d} (h : targetPR[i]? = some region) :
    (rowLengths targetPR sourcePR smoothingLength).getD i 0 =
      (neighbours region sourcePR smoothingLength).length := by
  rw [rowLengths, List.getD_eq_getElem?_getD, List.getElem?_map, h]
  rfl

theorem countPass_eq (k : ℕ) {i : ℕ} (hi : i < targetPR.length + 1) :
    countPass (2 ^ k) targetPR sourcePR smoothingLength i =
      UInt32.ofNat ((0 :: rowLengths targetPR sourcePR smoothingLength).getD i 0) := by
  cases i with
  | zero => rfl
  | succ b =>
    have hb : targetPR[b]? = some targetPR[b] := List.getElem?_eq_getElem (by omega)
    rw [List.getD_cons_succ, rowLengths_getD hb, countPass, hb]
    dsimp only
    split
    · exact countBlock_eq k _ _ _
    · next hnone =>
      rw [List.eq_nil_of_length_eq_zero (by omega : sourcePR.length = 0)]
      rfl

/-- **The offsets are where the lists begin**, modulo `2 ^ 32`. -/
theorem regionOffsets_eq (k : ℕ) {i : ℕ} (hi : i ≤ targetPR.length) :
    (regionOffsets (2 ^ k) targetPR sourcePR smoothingLength).1 i =
      UInt32.ofNat (blockStart (rowLengths targetPR sourcePR smoothingLength) i) := by
  have hlen : (0 :: rowLengths targetPR sourcePR smoothingLength).length = targetPR.length + 1 := by
    rw [List.length_cons, rowLengths, List.length_map]
  rw [regionOffsets, ← hlen, inclusiveScanHost_ofNat (fun i hi => countPass_eq k (by omega))
    (by omega), blockStart_cons_succ, Nat.zero_add]

theorem totalPairs_eq (k : ℕ) :
    (regionOffsets (2 ^ k) targetPR sourcePR smoothingLength).2 =
      UInt32.ofNat (pairs targetPR sourcePR smoothingLength) := by
  have hlen : (0 :: rowLengths targetPR sourcePR smoothingLength).length = targetPR.length + 1 := by
    rw [List.length_cons, rowLengths, List.length_map]
  rw [regionOffsets, ← hlen, inclusiveScanHost_ofNat_total (fun i hi => countPass_eq k (by omega)),
    List.sum_cons, Nat.zero_add, pairs]

/-! ## Writing -/

/-- The write kernel: block `b` appends what its workers find, from `regionOffsets[b]` on. -/
def writeKernel (numWorkers : ℕ) (targetPR sourcePR : List (ParticleRegion K d))
    (smoothingLength : K) (offsets : ℕ → UInt32) :
    SharedCursor (Fin targetPR.length) ℕ ℕ UInt32 where
  items b := (List.range numWorkers).flatMap fun w =>
    found numWorkers w (targetPR[b].volume.expand smoothingLength) sourcePR
  nodup b := by
    rcases Nat.eq_zero_or_pos numWorkers with rfl | hw
    · exact List.nodup_nil
    · exact (found_perm_neighbours hw _ _ _).nodup_iff.mpr (nodup_neighbours _ _ _)
  place b k := (offsets b + UInt32.ofNat k).toNat
  value := UInt32.ofNat

/-- The write pass of `calculateNeighbourEntrySender`: the kernel is launched when the total that
the scan returned is positive. -/
def writePass (numWorkers : ℕ) (targetPR sourcePR : List (ParticleRegion K d))
    (smoothingLength : K) : SharedCursor (Fin targetPR.length) ℕ ℕ UInt32 :=
  let offsets := regionOffsets numWorkers targetPR sourcePR smoothingLength
  let kernel := writeKernel numWorkers targetPR sourcePR smoothingLength offsets.1
  if offsets.2 > 0 then kernel
  else { kernel with items := fun _ => [], nodup := fun _ => List.nodup_nil }

/-! ## The finished lists -/

section Rows

variable {k : ℕ} {memory : ℕ → UInt32} {s : SharedCursor.State (Fin targetPR.length) ℕ ℕ UInt32}

theorem rowLengths_getD_fin (b : Fin targetPR.length) :
    (rowLengths targetPR sourcePR smoothingLength).getD b 0 =
      (neighbours targetPR[b] sourcePR smoothingLength).length :=
  rowLengths_getD (List.getElem?_eq_getElem b.isLt)

/-- With fewer than `2 ^ 32` pairs the write pass has every neighbour to append, launched or not. -/
theorem writePass_items_perm (hfit : pairs targetPR sourcePR smoothingLength < 2 ^ 32)
    (b : Fin targetPR.length) :
    ((writePass (2 ^ k) targetPR sourcePR smoothingLength).items b).Perm
      (neighbours targetPR[b] sourcePR smoothingLength) := by
  rw [writePass]
  split
  · exact found_perm_neighbours (Nat.two_pow_pos k) _ _ _
  · next hzero =>
    -- the total did not wrap around, so there is no pair at all
    have htotal : pairs targetPR sourcePR smoothingLength = 0 := by
      rw [totalPairs_eq, gt_iff_lt, UInt32.pos_iff_ne_zero, not_not] at hzero
      have h := congrArg UInt32.toNat hzero
      rwa [UInt32.toNat_ofNat_of_lt' hfit] at h
    have hrow : (neighbours targetPR[b] sourcePR smoothingLength).length = 0 := by
      by_contra hne
      rw [← rowLengths_getD_fin] at hne
      have hlt := (inBlock_add (Nat.pos_of_ne_zero hne)).lt_sum
      rw [pairs] at htotal
      omega
    rw [List.eq_nil_of_length_eq_zero hrow]

theorem writePass_place (b : Fin targetPR.length) (i : ℕ) :
    (writePass (2 ^ k) targetPR sourcePR smoothingLength).place b i =
      (UInt32.ofNat (blockStart (rowLengths targetPR sourcePR smoothingLength) b + i)).toNat := by
  have hplace : (writePass (2 ^ k) targetPR sourcePR smoothingLength).place b i =
      ((regionOffsets (2 ^ k) targetPR sourcePR smoothingLength).1 b + UInt32.ofNat i).toNat := by
    unfold writePass
    dsimp only
    split <;> rfl
  rw [hplace, regionOffsets_eq k b.isLt.le, UInt32.ofNat_add]

/-- A position inside a list stands for itself. -/
theorem writePass_place_eq (hfit : pairs targetPR sourcePR smoothingLength < 2 ^ 32)
    {b : Fin targetPR.length} {i : ℕ}
    (hi : i < (rowLengths targetPR sourcePR smoothingLength).getD b 0) :
    (writePass (2 ^ k) targetPR sourcePR smoothingLength).place b i =
      blockStart (rowLengths targetPR sourcePR smoothingLength) b + i := by
  have hlt := (inBlock_add hi).lt_sum
  rw [writePass_place, UInt32.toNat_ofNat_of_lt' (lt_trans hlt hfit)]

theorem writePass_separated (hfit : pairs targetPR sourcePR smoothingLength < 2 ^ 32) :
    (writePass (2 ^ k) targetPR sourcePR smoothingLength).Separated := by
  intro b i b' i' hi hi' heq
  rw [(writePass_items_perm hfit b).length_eq, ← rowLengths_getD_fin] at hi
  rw [(writePass_items_perm hfit b').length_eq, ← rowLengths_getD_fin] at hi'
  rw [writePass_place_eq hfit hi, writePass_place_eq hfit hi'] at heq
  have hb := inBlock_add hi
  rw [heq] at hb
  obtain rfl := Fin.ext (hb.unique (inBlock_add hi'))
  exact ⟨rfl, by omega⟩

/-- **The list of a region is found between its offsets.** -/
theorem row_perm_neighbours (hfit : pairs targetPR sourcePR smoothingLength < 2 ^ 32)
    (h : ((writePass (2 ^ k) targetPR sourcePR smoothingLength).system memory).Reachable s)
    (ht : ((writePass (2 ^ k) targetPR sourcePR smoothingLength).system memory).Terminal s)
    (b : Fin targetPR.length) :
    ((List.range (neighbours targetPR[b] sourcePR smoothingLength).length).map fun i =>
      s.memory (blockStart (rowLengths targetPR sourcePR smoothingLength) b + i)).Perm
      ((neighbours targetPR[b] sourcePR smoothingLength).map UInt32.ofNat) := by
  have hperm := (SharedCursor.claimed_perm_of_terminal h ht b).trans (writePass_items_perm hfit b)
  refine List.Perm.trans (List.Perm.of_eq ?_) (hperm.map UInt32.ofNat)
  refine List.ext_getElem (by simp [hperm.length_eq]) fun i hi hi' => ?_
  rw [List.length_map, List.length_range] at hi
  rw [List.length_map] at hi'
  rw [List.getElem_map, List.getElem_map, List.getElem_range]
  rw [← rowLengths_getD_fin] at hi
  have hvalue : (writePass (2 ^ k) targetPR sourcePR smoothingLength).value = UInt32.ofNat := by
    unfold writePass
    dsimp only
    split <;> rfl
  have hmem := SharedCursor.memory_of_terminal (writePass_separated hfit) h ht
    (List.getElem?_eq_getElem hi')
  rwa [writePass_place_eq hfit hi, hvalue] at hmem

end Rows

/-! ## Close particles in global coordinates -/

section Close

variable {A : Type} {frameSize : ℕ}

/-- A live particle of one region and a live particle of another are closer than a radius, in
global coordinates. -/
def HasClosePair (H : Heap K d A frameSize) (target source : ParticleRegion K d) (R : K) : Prop :=
  ∃ x y, target.IsLive H x ∧ source.IsLive H y ∧
    normSq (target.globalPos H x - source.globalPos H y) < R * R

/-- The boxes as they are stored, each relative to its own origin, come within a margin of each
other along every axis. -/
def StoredBoxesWithin (target source : ParticleRegion K d) (R : K) : Prop :=
  ∀ t, target.volume.min t - R ≤ source.volume.max t ∧
    source.volume.min t ≤ target.volume.max t + R

/-- With equal origins, and a margin that is not negative, close particles have close boxes. -/
theorem HasClosePair.storedBoxesWithin [IsStrictOrderedRing K] {H : Heap K d A frameSize}
    {target source : ParticleRegion K d} {R : K} (h : HasClosePair H target source R) (hR : 0 ≤ R)
    (horigin : target.volume.origin = source.volume.origin) (htarget : target.BoxContainsLive H)
    (hsource : source.BoxContainsLive H) : StoredBoxesWithin target source R := by
  obtain ⟨x, y, hx, hy, hxy⟩ := h
  have hshift : target.globalPos H x - source.globalPos H y =
      fun t => H.relativePos x t - H.relativePos y t := by
    funext t
    show target.volume.origin t + _ - (source.volume.origin t + _) = _
    rw [horigin]
    ring
  rw [hshift] at hxy
  exact AABB.expand_intersects_iff.mp
    (AABB.expand_intersects_of_normSq_lt hR (htarget x hx) (hsource y hy) hxy)

/-- One axis: a region at origin `10 a` with one frame; its box is the global position zero. -/
def shiftedRegion (a : ℕ) : ParticleRegion ℚ 0 :=
  ⟨⟨fun _ => 10 * (a : ℚ), fun _ => -10 * (a : ℚ), fun _ => -10 * (a : ℚ)⟩, [a]⟩

end Close

end Particles
end Spearhed
