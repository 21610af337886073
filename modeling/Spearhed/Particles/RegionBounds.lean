import Mathlib.Tactic
import Spearhed.Library.Blocks
import Spearhed.Library.Lockstep
import Spearhed.Particles.Regions

/-!
# Recomputing the bounds of the regions

`UpdateRegionBounds` and `UpdateVolumes` of `RegionBoundsUpdate.hpp`.  After the particles of a
region have moved, its box is computed again from their positions.  Every worker of a block extends
a default-constructed box by the positions it meets, the boxes are combined in a tree reduction, and
the result replaces the volume of the region.  The loop over regions counts in `int`.

* `updateRegion_origin`: the new volume lies at the global origin, whatever the old one was.
* `updateVolumes_eq_map`: blocks take the regions in any order, with one result.
* `regionLoop_eq_some`: the regions of a block, when no increment overflows.
* `exists_isSchedule_iff`: when the blocks can run.
* `updateVolumes_keeps_positions_iff`: when the update moves no particle.
-/

namespace Spearhed
namespace Particles

open Library

variable {K : Type} [Field K] [LinearOrder K] {d : ℕ} {A : Type} {frameSize : ℕ}

/-! ## One region -/

/-- `lockstepForEachParticle` for one worker: the box extended by the live slots it visits. -/
def extendByFrame (H : Heap K d A frameSize) (numWorkers threadIdx : ℕ) (localBounds : AABB K d)
    (frame : FramePtr) : AABB K d :=
  (strided threadIdx numWorkers frameSize).foldl
    (fun bounds slot =>
      if h : slot < frameSize then
        let particle := (H frame).particlesSoa ⟨slot, h⟩
        if particle.occupied then bounds.extend particle.relativePos else bounds
      else bounds)
    localBounds

/-- What one worker collects over the frames of a region. -/
def localBounds (lim : NumericLimits K) (H : Heap K d A frameSize) (numWorkers threadIdx : ℕ)
    (region : ParticleRegion K d) : AABB K d :=
  region.particleFrameList.foldl (extendByFrame H numWorkers threadIdx) (AABB.fresh lim)

/-- The body of the loop over regions: `region.volume = s_bounds[0]` after the reduction. -/
def updateRegion (lim : NumericLimits K) (H : Heap K d A frameSize) (numWorkers : ℕ)
    (region : ParticleRegion K d) : ParticleRegion K d :=
  { region with
    volume := treeReduce AABB.extendBox numWorkers
      (fun threadIdx => localBounds lim H numWorkers threadIdx region) 0 }

variable {lim : NumericLimits K} {H : Heap K d A frameSize} {numWorkers : ℕ}

omit [Field K] in
theorem extendByFrame_origin (threadIdx : ℕ) (B : AABB K d) (frame : FramePtr) :
    (extendByFrame H numWorkers threadIdx B frame).origin = B.origin := by
  unfold extendByFrame
  induction strided threadIdx numWorkers frameSize generalizing B with
  | nil => rfl
  | cons slot slots ih =>
    rw [List.foldl_cons, ih]
    dsimp only
    split_ifs <;> rfl

theorem localBounds_origin (threadIdx : ℕ) (region : ParticleRegion K d) :
    (localBounds lim H numWorkers threadIdx region).origin = fun _ => 0 := by
  unfold localBounds
  have hkeep : ∀ (frames : List FramePtr) (B : AABB K d),
      (frames.foldl (extendByFrame H numWorkers threadIdx) B).origin = B.origin := by
    intro frames
    induction frames with
    | nil => exact fun _ => rfl
    | cons frame frames ih =>
      intro B
      rw [List.foldl_cons, ih, extendByFrame_origin]
  rw [hkeep]
  rfl

/-- **The new volume lies at the global origin.**  The reduction starts from default-constructed
boxes and extending a box leaves its origin alone. -/
theorem updateRegion_origin (region : ParticleRegion K d) :
    (updateRegion lim H numWorkers region).volume.origin = fun _ => 0 := by
  have hextend : ∀ a b : AABB K d, (a.origin = fun _ => 0) → (a.extendBox b).origin = fun _ => 0 :=
    fun _ _ ha => ha
  exact treeReduce_induction (p := fun B : AABB K d => B.origin = fun _ => 0) hextend numWorkers
    (localBounds_origin 0 region)

/-- Only a particle of a region at the global origin keeps its position. -/
theorem updateRegion_globalPos_iff (region : ParticleRegion K d) (x : FramePtr × Fin frameSize) :
    (updateRegion lim H numWorkers region).globalPos H x = region.globalPos H x ↔
      region.volume.origin = fun _ => 0 := by
  show (fun t => _ + H.relativePos x t) = (fun t => _ + H.relativePos x t) ↔ _
  rw [updateRegion_origin, funext_iff, funext_iff]
  exact forall_congr' fun t => by rw [add_left_inj, eq_comm]

/-! ## All regions -/

/-- The number of blocks that `UpdateVolumes` launches. -/
def numBlocks (size : ℕ) : ℕ :=
  let blocks := (size + 256 - 1) / 256
  let capped := if blocks > 1024 then 1024 else blocks
  if capped = 0 then 1 else capped

/-- The regions that the blocks of the grid visit: block `b` takes `b`, `b + numBlocks`, …. -/
def regionVisits (size : ℕ) : List ℕ :=
  (List.range (numBlocks size)).flatMap fun blockIdx => strided blockIdx (numBlocks size) size

/-- `UpdateVolumes`, with the visits taking effect in the given order. -/
def updateVolumes (lim : NumericLimits K) (H : Heap K d A frameSize) (numWorkers : ℕ)
    (order : List ℕ) (regions : List (ParticleRegion K d)) : List (ParticleRegion K d) :=
  order.foldl (fun prs regionIdx => prs.modify regionIdx (updateRegion lim H numWorkers)) regions

theorem numBlocks_pos (size : ℕ) : 0 < numBlocks size := by
  unfold numBlocks
  dsimp only
  split_ifs <;> omega

theorem updateVolumes_getElem? {order : List ℕ} (hnodup : order.Nodup)
    (regions : List (ParticleRegion K d)) (i : ℕ) :
    (updateVolumes lim H numWorkers order regions)[i]? =
      if i ∈ order then (regions[i]?).map (updateRegion lim H numWorkers) else regions[i]? := by
  unfold updateVolumes
  induction order generalizing regions with
  | nil => simp
  | cons j order ih =>
    obtain ⟨hj, hrest⟩ := List.nodup_cons.mp hnodup
    rw [List.foldl_cons, ih hrest, List.getElem?_modify]
    rcases eq_or_ne j i with rfl | hne
    · simp [hj]
    · simp [hne, hne.symm]

/-- **The order of the blocks does not matter**: every region is updated once. -/
theorem updateVolumes_eq_map {regions : List (ParticleRegion K d)} {order : List ℕ}
    (horder : order.Perm (regionVisits regions.length)) :
    updateVolumes lim H numWorkers order regions = regions.map (updateRegion lim H numWorkers) := by
  have hperm := horder.trans (flatMap_strided_perm (numBlocks_pos _) _)
  have hnodup := hperm.nodup_iff.mpr List.nodup_range
  refine List.ext_getElem? fun i => ?_
  rw [updateVolumes_getElem? hnodup, List.getElem?_map]
  split
  · rfl
  · next hi =>
    rw [hperm.mem_iff, List.mem_range, not_lt] at hi
    rw [List.getElem?_eq_none hi]
    rfl

/-! ## The loop over regions

It counts in `int`, and so the last increment of a block must not leave that type. -/

/-- `for(int regionIdx = blockIdx; regionIdx < numParticleRegions; regionIdx += gridDomSize)`, as far
as some iterations take it: the regions, unless an increment overflows. -/
def regionLoop (gridDomSize numParticleRegions : ℕ) : ℕ → ℕ → Option (List ℕ)
  | 0, regionIdx => if regionIdx < numParticleRegions then none else some []
  | fuel + 1, regionIdx =>
    if regionIdx < numParticleRegions then
      if regionIdx + gridDomSize < 2 ^ 31 then
        (regionLoop gridDomSize numParticleRegions fuel (regionIdx + gridDomSize)).map (regionIdx :: ·)
      else none
    else some []

/-- The regions of a block. -/
def blockRegions (size blockIdx : ℕ) : Option (List ℕ) := regionLoop (numBlocks size) size size blockIdx

/-- An interleaving of the loops of all blocks: which block goes on, and with which region. -/
structure IsSchedule (size : ℕ) (order : List (ℕ × ℕ)) : Prop where
  block_lt : ∀ visit ∈ order, visit.1 < numBlocks size
  regions : ∀ b < numBlocks size,
    blockRegions size b = some ((order.filter fun visit => decide (visit.1 = b)).map Prod.snd)

/-- **The loop takes the regions of its block**, and no increment overflows, if it ends. -/
theorem regionLoop_eq_some {g n fuel i : ℕ} (hg : 0 < g) {l : List ℕ}
    (h : regionLoop g n fuel i = some l) : l = strided i g n ∧ ∀ r ∈ l, r + g < 2 ^ 31 := by
  induction fuel generalizing i l with
  | zero =>
    rw [regionLoop] at h
    split at h
    · cases h
    · next hi =>
      obtain rfl := Option.some.inj h
      exact ⟨(strided_of_le (not_lt.mp hi)).symm, fun r hr => absurd hr List.not_mem_nil⟩
  | succ fuel ih =>
    rw [regionLoop] at h
    split at h
    · next hi =>
      split at h
      · next hfit =>
        obtain ⟨l', hl', rfl⟩ := Option.map_eq_some_iff.mp h
        obtain ⟨rfl, hrest⟩ := ih hl'
        refine ⟨(strided_of_lt hg hi).symm, fun r hr => ?_⟩
        rcases List.mem_cons.mp hr with rfl | hr
        · exact hfit
        · exact hrest r hr
      · cases h
    · next hi =>
      obtain rfl := Option.some.inj h
      exact ⟨(strided_of_le (not_lt.mp hi)).symm, fun r hr => absurd hr List.not_mem_nil⟩

/-- It ends where there is room for the last increment. -/
theorem regionLoop_eq {g n fuel i : ℕ} (hg : 0 < g) (hfuel : n ≤ i + fuel) (hfit : n + g ≤ 2 ^ 31) :
    regionLoop g n fuel i = some (strided i g n) := by
  induction fuel generalizing i with
  | zero => rw [regionLoop, if_neg (by omega), strided_of_le (by omega)]
  | succ fuel ih =>
    rw [regionLoop]
    split
    · next hi =>
      rw [if_pos (by omega), ih (by omega), strided_of_lt hg hi]
      rfl
    · next hi => rw [strided_of_le (not_lt.mp hi)]

/-- The grid is as large as it gets well before the indices run out. -/
theorem add_numBlocks_le_iff (size : ℕ) : size + numBlocks size ≤ 2 ^ 31 ↔ size ≤ 2 ^ 31 - 1024 := by
  unfold numBlocks
  by_cases hmany : (size + 256 - 1) / 256 > 1024
  · simp only [if_pos hmany, if_neg (show (1024 : ℕ) ≠ 0 by decide)]
    omega
  · simp only [if_neg hmany]
    split <;> omega

/-- **Every region is updated once.** -/
theorem IsSchedule.perm {size : ℕ} {order : List (ℕ × ℕ)} (h : IsSchedule size order) :
    (order.map Prod.snd).Perm (regionVisits size) := by
  refine ((perm_flatMap_filter_key h.block_lt).map Prod.snd).trans (List.Perm.of_eq ?_)
  rw [List.map_flatMap, regionVisits]
  refine List.flatMap_congr fun b hb => ?_
  exact (regionLoop_eq_some (numBlocks_pos size) (h.regions b (List.mem_range.mp hb))).1

/-- **When the blocks can run**: where the last region of every block leaves room for an increment. -/
theorem exists_isSchedule_iff {size : ℕ} :
    (∃ order, IsSchedule size order) ↔ size ≤ 2 ^ 31 - 1024 := by
  rw [← add_numBlocks_le_iff]
  constructor
  · rintro ⟨order, h⟩
    rcases Nat.eq_zero_or_pos size with rfl | hpos
    · decide
    · -- the last region is the last one of its block
      have hb := Nat.mod_lt (size - 1) (numBlocks_pos size)
      obtain ⟨hl, hfit⟩ := regionLoop_eq_some (numBlocks_pos size) (h.regions _ hb)
      have hlast : size - 1 ∈ strided ((size - 1) % numBlocks size) (numBlocks size) size := by
        refine (mem_strided (numBlocks_pos size)).mpr ⟨by omega, (size - 1) / numBlocks size, ?_⟩
        rw [Nat.mul_comm]
        exact (Nat.mod_add_div _ _).symm
      have := hfit _ (hl ▸ hlast)
      omega
  · intro hfit
    refine ⟨(List.range (numBlocks size)).flatMap fun b =>
      (strided b (numBlocks size) size).map (Prod.mk b), fun visit hvisit => ?_, fun b hb => ?_⟩
    · obtain ⟨b, hb, hvisit⟩ := List.mem_flatMap.mp hvisit
      obtain ⟨r, -, rfl⟩ := List.mem_map.mp hvisit
      exact List.mem_range.mp hb
    · have hkey : ∀ b ∈ List.range (numBlocks size),
          ∀ visit ∈ (strided b (numBlocks size) size).map (Prod.mk b), visit.1 = b := by
        intro b _ visit hvisit
        obtain ⟨r, -, rfl⟩ := List.mem_map.mp hvisit
        rfl
      rw [blockRegions, regionLoop_eq (numBlocks_pos size) (by omega) hfit,
        filter_flatMap_key hkey,
        filter_eq_singleton List.nodup_range (List.mem_range.mpr hb), List.flatMap_singleton,
        List.map_map]
      exact congrArg some (List.map_id _).symm

/-! ## What an update changes -/

/-- The update of a buffer changes no global position of a live particle. -/
def KeepsPositions (H : Heap K d A frameSize) (before after : List (ParticleRegion K d)) : Prop :=
  ∀ (i : ℕ) (r r' : ParticleRegion K d), before[i]? = some r → after[i]? = some r' →
    ∀ x, r.IsLive H x → r'.globalPos H x = r.globalPos H x

/-- The update of a buffer changes nothing but `min` and `max` of the volumes. -/
def ChangesBoundsOnly (before after : List (ParticleRegion K d)) : Prop :=
  ∀ (i : ℕ) (r r' : ParticleRegion K d), before[i]? = some r → after[i]? = some r' →
    ∃ lo hi, r' = { r with volume := ⟨r.volume.origin, lo, hi⟩ }

/-- **When updating the bounds moves no particle**: exactly when the regions with live particles
lie at the global origin already.  It leaves everything but the bounds alone exactly when all
regions do.  The blocks visit the regions in such an order, where there are not too many for the
`int` that counts them. -/
theorem updateVolumes_keeps_positions_iff {regions : List (ParticleRegion K d)} {order : List ℕ}
    (horder : order.Perm (regionVisits regions.length)) :
    (KeepsPositions H regions (updateVolumes lim H numWorkers order regions) ↔
      ∀ r ∈ regions, (∃ x, r.IsLive H x) → r.volume.origin = fun _ => 0) ∧
    (ChangesBoundsOnly regions (updateVolumes lim H numWorkers order regions) ↔
      ∀ r ∈ regions, r.volume.origin = fun _ => 0) ∧
    (∀ schedule, IsSchedule regions.length schedule →
      (schedule.map Prod.snd).Perm (regionVisits regions.length)) ∧
    ((∃ schedule, IsSchedule regions.length schedule) ↔ regions.length ≤ 2 ^ 31 - 1024) := by
  rw [updateVolumes_eq_map horder]
  have hafter : ∀ {i : ℕ} {r : ParticleRegion K d}, regions[i]? = some r →
      (regions.map (updateRegion lim H numWorkers))[i]? = some (updateRegion lim H numWorkers r) :=
    fun h => by rw [List.getElem?_map, h]; rfl
  refine ⟨⟨fun h r hr ⟨x, hx⟩ => ?_, fun h i r r' hi hi' x hx => ?_⟩,
    ⟨fun h r hr => ?_, fun h i r r' hi hi' => ?_⟩, fun _ hschedule => hschedule.perm,
    exists_isSchedule_iff⟩
  · obtain ⟨i, hi⟩ := List.getElem?_of_mem hr
    exact (updateRegion_globalPos_iff r x).mp (h i r _ hi (hafter hi) x hx)
  · obtain rfl := Option.some.inj ((hafter hi).symm.trans hi')
    exact (updateRegion_globalPos_iff r x).mpr (h r (List.mem_of_getElem? hi) ⟨x, hx⟩)
  · obtain ⟨i, hi⟩ := List.getElem?_of_mem hr
    obtain ⟨lo, hi', heq⟩ := h i r _ hi (hafter hi)
    have hzero : (updateRegion lim H numWorkers r).volume.origin = fun _ => 0 :=
      updateRegion_origin r
    rw [← hzero, heq]
  · obtain rfl := Option.some.inj ((hafter hi).symm.trans hi')
    have horigin := h r (List.mem_of_getElem? hi)
    refine ⟨(updateRegion lim H numWorkers r).volume.min,
      (updateRegion lim H numWorkers r).volume.max, ?_⟩
    have hzero : (updateRegion lim H numWorkers r).volume.origin = fun _ => 0 :=
      updateRegion_origin r
    rw [horigin, ← hzero]
    rfl

/-- One region at origin zero, one live particle in it. -/
theorem updateVolumes_keeps_positions_iff_zero_origin :
    KeepsPositions (fun _ => ⟨fun _ => ⟨fun _ => 3, 1, ()⟩, 1⟩ : Heap ℚ 0 Unit 1)
      [⟨⟨fun _ => 0, fun _ => 0, fun _ => 0⟩, [0]⟩]
      (updateVolumes ⟨100, -100⟩ (fun _ => ⟨fun _ => ⟨fun _ => 3, 1, ()⟩, 1⟩ : Heap ℚ 0 Unit 1) 1 [0]
        [⟨⟨fun _ => 0, fun _ => 0, fun _ => 0⟩, [0]⟩]) := by
  refine (updateVolumes_keeps_positions_iff ?_).1.mpr ?_
  · decide
  · rintro r hr -
    rw [List.mem_singleton.mp hr]

/-- The same particle in a region at origin one: the update moves it. -/
theorem updateVolumes_moves_shifted_region :
    ¬ KeepsPositions (fun _ => ⟨fun _ => ⟨fun _ => 3, 1, ()⟩, 1⟩ : Heap ℚ 0 Unit 1)
      [⟨⟨fun _ => 1, fun _ => 0, fun _ => 3⟩, [0]⟩]
      (updateVolumes ⟨100, -100⟩ (fun _ => ⟨fun _ => ⟨fun _ => 3, 1, ()⟩, 1⟩ : Heap ℚ 0 Unit 1) 1 [0]
        [⟨⟨fun _ => 1, fun _ => 0, fun _ => 3⟩, [0]⟩]) := by
  intro h
  have hpos := h 0 _ _ rfl rfl (0, 0) ⟨List.mem_singleton_self 0, rfl⟩
  have horigin := (updateRegion_globalPos_iff _ (0, 0)).mp hpos
  exact one_ne_zero (congrFun horigin 0)

end Particles
end Spearhed
