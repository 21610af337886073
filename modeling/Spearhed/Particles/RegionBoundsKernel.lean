import Mathlib.Order.Bounds.Basic
import Spearhed.Particles.RegionBoundsExact

/-!
# The kernel that recomputes the bounds

`UpdateRegionBounds` of `RegionBoundsUpdate.hpp`, with the shared memory that a block keeps while it
goes from region to region.  Every block has its own copy of `s_bounds`; the blocks run interleaved,
and so do the workers of a block within a round of the reduction.

* `KernelRun.eq`: what the blocks write does not depend on what the shared memory held.
* `boundsExact_iff`: the bounds are tight exactly when there are not too many regions.
-/

namespace Spearhed
namespace Particles

open Library

variable {K : Type} [Field K] [LinearOrder K] {d : ℕ} {A : Type} {frameSize : ℕ}

/-- `MaxBlockSize`: the size of `s_bounds`. -/
def maxBlockSize : ℕ := 512

/-- The stores `s_bounds[threadIdx] = localBounds`. -/
def loadBounds (lim : NumericLimits K) (H : Heap K d A frameSize) (numWorkers : ℕ)
    (region : ParticleRegion K d) (sBounds : ℕ → AABB K d) : ℕ → AABB K d :=
  fun threadIdx =>
    if threadIdx < numWorkers ∧ threadIdx < maxBlockSize then
      localBounds lim H numWorkers threadIdx region
    else sBounds threadIdx

/-- The blocks at work: the shared memory of every block and the regions before, and the regions at
the end. -/
inductive KernelRun (lim : NumericLimits K) (H : Heap K d A frameSize) (numWorkers : ℕ) :
    List (ℕ × ℕ) → (ℕ → ℕ → AABB K d) → List (ParticleRegion K d) → List (ParticleRegion K d) → Prop
  | done {sBounds : ℕ → ℕ → AABB K d} {regions : List (ParticleRegion K d)} :
      KernelRun lim H numWorkers [] sBounds regions regions
  | visit {blockIdx regionIdx : ℕ} {order : List (ℕ × ℕ)} {sBounds : ℕ → ℕ → AABB K d}
      {reduced : ℕ → AABB K d} {region : ParticleRegion K d} {regions after : List (ParticleRegion K d)}
      (hregion : regions[regionIdx]? = some region)
      (hreduce : Rounds AABB.extendBox (halvings numWorkers (numWorkers / 2))
        (loadBounds lim H numWorkers region (sBounds blockIdx)) reduced)
      (rest : KernelRun lim H numWorkers order (Function.update sBounds blockIdx reduced)
        (regions.set regionIdx { region with volume := reduced 0 }) after) :
      KernelRun lim H numWorkers ((blockIdx, regionIdx) :: order) sBounds regions after

/-! ## What the blocks write -/

variable {lim : NumericLimits K} {H : Heap K d A frameSize} {numWorkers : ℕ}

/-- **The shared memory of earlier regions plays no part.** -/
theorem rounds_loadBounds (hpos : 0 < numWorkers) (hmax : numWorkers ≤ maxBlockSize)
    {region : ParticleRegion K d} {sBounds reduced : ℕ → AABB K d}
    (h : Rounds AABB.extendBox (halvings numWorkers (numWorkers / 2))
      (loadBounds lim H numWorkers region sBounds) reduced) :
    { region with volume := reduced 0 } = updateRegion lim H numWorkers region := by
  have hloaded : ∀ t < numWorkers, loadBounds lim H numWorkers region sBounds t =
      localBounds lim H numWorkers t region := fun t ht => if_pos ⟨ht, by omega⟩
  rw [updateRegion, h.eq]
  exact congrArg (fun volume => { region with volume := volume })
    (treeReduce_congr AABB.extendBox hloaded 0 hpos)

/-- **What a run of the kernel computes.** -/
theorem KernelRun.eq (hpos : 0 < numWorkers) (hmax : numWorkers ≤ maxBlockSize)
    {order : List (ℕ × ℕ)} {sBounds : ℕ → ℕ → AABB K d} {regions after : List (ParticleRegion K d)}
    (h : KernelRun lim H numWorkers order sBounds regions after) :
    after = updateVolumes lim H numWorkers (order.map Prod.snd) regions := by
  induction h with
  | done => rfl
  | visit hregion hreduce _ ih =>
    rw [ih, rounds_loadBounds hpos hmax hreduce, List.map_cons, updateVolumes, updateVolumes,
      List.foldl_cons, List.modify_eq_set_getElem?, hregion]
    rfl

/-- No block gets stuck. -/
theorem exists_kernelRun (lim : NumericLimits K) (H : Heap K d A frameSize) (numWorkers : ℕ)
    {order : List (ℕ × ℕ)} (sBounds : ℕ → ℕ → AABB K d) {regions : List (ParticleRegion K d)}
    (horder : ∀ visit ∈ order, visit.2 < regions.length) :
    ∃ after, KernelRun lim H numWorkers order sBounds regions after := by
  induction order generalizing sBounds regions with
  | nil => exact ⟨regions, .done⟩
  | cons visit order ih =>
    have hlt := horder visit List.mem_cons_self
    have hregion := List.getElem?_eq_getElem hlt
    obtain ⟨reduced, hreduce⟩ := exists_rounds AABB.extendBox (halvings numWorkers (numWorkers / 2))
      (loadBounds lim H numWorkers regions[visit.2] (sBounds visit.1))
    have hset : ∀ v ∈ order,
        v.2 < (regions.set visit.2 { regions[visit.2] with volume := reduced 0 }).length := by
      intro v hv
      rw [List.length_set]
      exact horder v (List.mem_cons_of_mem visit hv)
    obtain ⟨after, hafter⟩ := ih (Function.update sBounds visit.1 reduced) hset
    exact ⟨after, .visit hregion hreduce hafter⟩

/-! ## Tight bounds -/

omit [Field K] in
/-- The least of some values, none of them above the start value. -/
theorem isLeast_fold_min {s : Multiset K} {b : K} (hs : s ≠ 0) (hb : ∀ c ∈ s, c ≤ b) :
    IsLeast {c | c ∈ s} (s.fold min b) := by
  induction s using Multiset.induction_on with
  | empty => exact absurd rfl hs
  | cons a s ih =>
    have hab := hb a (Multiset.mem_cons_self a s)
    rw [Multiset.fold_cons_left]
    rcases eq_or_ne s 0 with rfl | hne
    · rw [Multiset.fold_zero, min_eq_left hab]
      exact ⟨Multiset.mem_cons_self a 0, fun c hc => (Multiset.mem_singleton.mp hc).ge⟩
    · obtain ⟨hmem, hle⟩ := ih hne fun c hc => hb c (Multiset.mem_cons_of_mem hc)
      refine ⟨?_, fun c hc => ?_⟩
      · rcases min_choice a (s.fold min b) with h | h <;> rw [h]
        · exact Multiset.mem_cons_self a s
        · exact Multiset.mem_cons_of_mem hmem
      · rcases Multiset.mem_cons.mp hc with rfl | hc
        · exact min_le_left _ _
        · exact (min_le_right _ _).trans (hle hc)

omit [Field K] in
theorem isGreatest_fold_max {s : Multiset K} {b : K} (hs : s ≠ 0) (hb : ∀ c ∈ s, b ≤ c) :
    IsGreatest {c | c ∈ s} (s.fold max b) :=
  isLeast_fold_min (K := Kᵒᵈ) hs hb

omit [Field K] [LinearOrder K] in
theorem mem_livePositions {region : ParticleRegion K d} {v : Vec K d} :
    v ∈ region.livePositions H ↔ ∃ x, region.IsLive H x ∧ H.relativePos x = v := by
  simp only [ParticleRegion.livePositions, Multiset.mem_coe, List.mem_flatMap, List.mem_map,
    Frame.mem_liveSlots]
  constructor
  · rintro ⟨frame, hframe, slot, hslot, rfl⟩
    exact ⟨(frame, slot), ⟨hframe, hslot⟩, rfl⟩
  · rintro ⟨⟨frame, slot⟩, ⟨hframe, hslot⟩, rfl⟩
    exact ⟨frame, hframe, slot, hslot, rfl⟩

/-- A region has a live particle. -/
def ParticleRegion.Nonempty (H : Heap K d A frameSize) (region : ParticleRegion K d) : Prop :=
  ∃ x, region.IsLive H x

/-- The coordinates are numbers of the type that `lim` belongs to. -/
def InLimits (lim : NumericLimits K) (H : Heap K d A frameSize) (regions : List (ParticleRegion K d)) :
    Prop :=
  ∀ region ∈ regions, ∀ x, region.IsLive H x → ∀ t,
    lim.lowest ≤ H.relativePos x t ∧ H.relativePos x t ≤ lim.max

/-- A region before and after: the box is the bounding box of the live particles, and the inverted
default one where there are none. -/
structure IsTight (lim : NumericLimits K) (H : Heap K d A frameSize) (region region' : ParticleRegion K d) :
    Prop where
  frames : region'.particleFrameList = region.particleFrameList
  min : region.Nonempty H → ∀ t,
    IsLeast {c | ∃ x, region.IsLive H x ∧ H.relativePos x t = c} (region'.volume.min t)
  max : region.Nonempty H → ∀ t,
    IsGreatest {c | ∃ x, region.IsLive H x ∧ H.relativePos x t = c} (region'.volume.max t)
  empty : ¬ region.Nonempty H → region'.volume = AABB.fresh lim

omit [Field K] [LinearOrder K] in
/-- The values of the live particles along an axis. -/
theorem setOf_mem_livePositions (region : ParticleRegion K d) (t : Fin (d + 1)) :
    {c | ∃ x, region.IsLive H x ∧ H.relativePos x t = c} =
      {c | c ∈ (region.livePositions H).map fun v => v t} := by
  ext c
  rw [Set.mem_ofPred_eq, Set.mem_ofPred_eq, Multiset.mem_map]
  constructor
  · rintro ⟨x, hx, rfl⟩
    exact ⟨_, mem_livePositions.mpr ⟨x, hx, rfl⟩, rfl⟩
  · rintro ⟨v, hv, rfl⟩
    obtain ⟨x, hx, rfl⟩ := mem_livePositions.mp hv
    exact ⟨x, hx, rfl⟩

/-- **An update makes the box tight.** -/
theorem updateRegion_isTight (k : ℕ) {regions : List (ParticleRegion K d)} (hlim : InLimits lim H regions)
    {region : ParticleRegion K d} (hregion : region ∈ regions) :
    IsTight lim H region (updateRegion lim H (2 ^ k) region) := by
  have hvolume : (updateRegion lim H (2 ^ k) region).volume = bounds lim (region.livePositions H) :=
    updateRegion_volume k region
  have hne : region.Nonempty H → ∀ t, (region.livePositions H).map (fun v => v t) ≠ 0 := by
    rintro ⟨x, hx⟩ t h0
    have hmem := Multiset.mem_map_of_mem (fun v : Vec K d => v t) (mem_livePositions.mpr ⟨x, hx, rfl⟩)
    rw [h0] at hmem
    exact Multiset.notMem_zero _ hmem
  have hrange : ∀ t, ∀ c ∈ (region.livePositions H).map (fun v => v t), lim.lowest ≤ c ∧ c ≤ lim.max := by
    intro t c hc
    obtain ⟨v, hv, rfl⟩ := Multiset.mem_map.mp hc
    obtain ⟨x, hx, rfl⟩ := mem_livePositions.mp hv
    exact hlim region hregion x hx t
  refine ⟨rfl, fun hlive t => ?_, fun hlive t => ?_, fun hdead => ?_⟩
  · rw [setOf_mem_livePositions, hvolume]
    exact isLeast_fold_min (hne hlive t) fun c hc => (hrange t c hc).2
  · rw [setOf_mem_livePositions, hvolume]
    exact isGreatest_fold_max (hne hlive t) fun c hc => (hrange t c hc).1
  · have hzero : region.livePositions H = 0 := by
      refine Multiset.eq_zero_of_forall_notMem fun v hv => hdead ?_
      obtain ⟨x, hx, -⟩ := mem_livePositions.mp hv
      exact ⟨x, hx⟩
    rw [hvolume, hzero, bounds_zero]

/-- Nothing meets an inverted box, unless the margin takes it to the end of the number type on every
axis. -/
theorem fresh_not_intersects {B : AABB K d} {margin : K} {t : Fin (d + 1)}
    (hmargin : B.max t + margin < lim.max ∨ lim.lowest < B.min t - margin) :
    (B.expand margin).intersects (AABB.fresh lim) = false ∧
      (AABB.fresh lim).intersects (B.expand margin) = false := by
  constructor <;> refine Bool.eq_false_iff.mpr fun h => ?_
  · obtain ⟨hmin, hmax⟩ := AABB.intersects_iff.mp h t
    rcases hmargin with hm | hm
    · exact absurd hm (not_lt.mpr hmax)
    · exact absurd hm (not_lt.mpr hmin)
  · obtain ⟨hmin, hmax⟩ := AABB.intersects_iff.mp h t
    rcases hmargin with hm | hm
    · exact absurd hm (not_lt.mpr hmin)
    · exact absurd hm (not_lt.mpr hmax)

/-- **The bounds are right**: the blocks can run, and however they are interleaved and whatever the
shared memory holds, every region is visited once and gets a tight box; the box of a region without
live particles meets no expanded box of a region with some. -/
structure BoundsExact (lim : NumericLimits K) (H : Heap K d A frameSize) (numWorkers : ℕ)
    (regions : List (ParticleRegion K d)) : Prop where
  schedule : ∃ order, IsSchedule regions.length order
  once : ∀ order, IsSchedule regions.length order →
    (order.map Prod.snd).Perm (List.range regions.length)
  runs : ∀ order sBounds, IsSchedule regions.length order →
    ∃ after, KernelRun lim H numWorkers order sBounds regions after
  tight : ∀ order sBounds after, IsSchedule regions.length order →
    KernelRun lim H numWorkers order sBounds regions after →
    List.Forall₂ (IsTight lim H) regions after
  apart : ∀ order sBounds after, IsSchedule regions.length order →
    KernelRun lim H numWorkers order sBounds regions after →
    ∀ r ∈ after, r.Nonempty H → ∀ r' ∈ after, ¬ r'.Nonempty H → ∀ margin t,
      (r.volume.max t + margin < lim.max ∨ lim.lowest < r.volume.min t - margin) →
      (r.volume.expand margin).intersects r'.volume = false ∧
        r'.volume.intersects (r.volume.expand margin) = false

/-- **When the bounds are right**: exactly when the last increment of the loop over regions stays
within `int`. -/
theorem boundsExact_iff {k : ℕ} (hk : 2 ^ k ≤ maxBlockSize) {regions : List (ParticleRegion K d)}
    (hlim : InLimits lim H regions) :
    BoundsExact lim H (2 ^ k) regions ↔ regions.length ≤ 2 ^ 31 - 1024 := by
  refine ⟨fun h => exists_isSchedule_iff.mp h.schedule, fun hsize => ?_⟩
  have honce : ∀ order, IsSchedule regions.length order →
      (order.map Prod.snd).Perm (List.range regions.length) := fun order horder =>
    horder.perm.trans (flatMap_strided_perm (numBlocks_pos _) _)
  have hafter : ∀ order sBounds after, IsSchedule regions.length order →
      KernelRun lim H (2 ^ k) order sBounds regions after →
      after = regions.map (updateRegion lim H (2 ^ k)) := fun order sBounds after horder hrun => by
    rw [hrun.eq (Nat.two_pow_pos k) hk, updateVolumes_eq_map horder.perm]
  refine ⟨exists_isSchedule_iff.mpr hsize, honce, fun order sBounds horder => ?_,
    fun order sBounds after horder hrun => ?_, fun order sBounds after horder hrun => ?_⟩
  · refine exists_kernelRun lim H (2 ^ k) sBounds fun visit hvisit => ?_
    exact List.mem_range.mp ((honce order horder).mem_iff.mp (List.mem_map_of_mem hvisit))
  · rw [hafter order sBounds after horder hrun, List.forall₂_map_right_iff, List.forall₂_same]
    exact fun region hregion => updateRegion_isTight k hlim hregion
  · rw [hafter order sBounds after horder hrun]
    intro r hr hlive r' hr' hdead margin t hmargin
    obtain ⟨region', hregion', rfl⟩ := List.mem_map.mp hr'
    rw [(updateRegion_isTight k hlim hregion').empty hdead]
    exact fresh_not_intersects hmargin

/-- Frames for two particles: the first slot of each is live, the second one of the first frame only. -/
def mixedHeap : Heap ℚ 0 Unit 2 := fun p =>
  ⟨fun i => ⟨fun _ => if i.val = 0 then 3 else -5, if i.val = 0 ∨ p = 0 then 1 else 0, ()⟩, 1⟩

/-- A region with two frames, an empty one and one with a dead slot, updated by blocks of four workers. -/
theorem boundsExact_three_regions : BoundsExact ⟨100, -100⟩ mixedHeap (2 ^ 2)
    [⟨AABB.fresh ⟨100, -100⟩, [0, 1]⟩, ⟨AABB.fresh ⟨100, -100⟩, []⟩, ⟨AABB.fresh ⟨100, -100⟩, [2]⟩] := by
  refine (boundsExact_iff (by decide) fun region _ x _ t => ?_).mpr (by decide)
  show (-100 : ℚ) ≤ (if x.2.val = 0 then 3 else -5) ∧ (if x.2.val = 0 then 3 else -5 : ℚ) ≤ 100
  split <;> norm_num

/-- With `2 ^ 31 - 1` regions, which their number's type allows, an increment overflows. -/
theorem not_boundsExact_of_many :
    ¬ BoundsExact ⟨100, -100⟩ (fun _ => ⟨fun _ => ⟨fun _ => 3, 1, ()⟩, 1⟩ : Heap ℚ 0 Unit 1) (2 ^ 2)
      (List.replicate (2 ^ 31 - 1) ⟨AABB.fresh ⟨100, -100⟩, [0]⟩) := by
  intro h
  have hsize := (boundsExact_iff (by decide) fun region _ x _ t => ?_).mp h
  · rw [List.length_replicate] at hsize
    exact absurd hsize (by norm_num)
  · show (-100 : ℚ) ≤ 3 ∧ (3 : ℚ) ≤ 100
    norm_num

end Particles
end Spearhed
