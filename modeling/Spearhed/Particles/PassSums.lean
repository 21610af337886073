import Spearhed.Library.PairSums
import Spearhed.Particles.InteractParticles
import Spearhed.Particles.LaunchForEach

/-!
# What a pass adds up

A pass that is given a fresh index of its target has a block for every frame of it
(`FrameLaunch.lists_of_describes`), and every live slot there has its accumulators stored
(`PassResult.stored_liveSlot`).  With neighbour lists as a finished search leaves them
(`SourceView.lists_of_search`), a number that is added up over the calls for a slot is a sum over
live slots of the sources (`sum_sourcePairs`).
-/

namespace Spearhed
namespace Particles

open Library

variable {K : Type} [Field K] [LinearOrder K] {d : ℕ} {A : Type} {V : A → Type} {frameSize : ℕ}

/-! ## Live slots -/

/-- A slot with its region and frame. -/
abbrev RegionFrameSlot (K : Type) (d frameSize : ℕ) : Type :=
  (ParticleRegion K d × FramePtr) × Fin frameSize

omit [Field K] [LinearOrder K] in
theorem mem_allFrames {regions : List (ParticleRegion K d)} {x : ParticleRegion K d × FramePtr} :
    x ∈ allFrames regions ↔ x.1 ∈ regions ∧ x.2 ∈ x.1.particleFrameList := by
  obtain ⟨region, frame⟩ := x
  simp only [allFrames, List.mem_flatMap, List.mem_map, Prod.mk.injEq]
  constructor
  · rintro ⟨region, hmem, frame, hframe, rfl, rfl⟩
    exact ⟨hmem, hframe⟩
  · rintro ⟨hmem, hframe⟩
    exact ⟨region, hmem, frame, hframe, rfl, rfl⟩

/-- The live slots of all frames of some regions. -/
def ParticleMemory.liveSlots (m : ParticleMemory K d A V frameSize)
    (regions : List (ParticleRegion K d)) : List (RegionFrameSlot K d frameSize) :=
  (allFrames regions).flatMap fun x =>
    ((List.finRange frameSize).filter fun j => m.occupied x.2 j).map fun j => (x, j)

omit [Field K] [LinearOrder K] in
theorem mem_liveSlots {m : ParticleMemory K d A V frameSize} {regions : List (ParticleRegion K d)}
    {p : RegionFrameSlot K d frameSize} :
    p ∈ m.liveSlots regions ↔ p.1 ∈ allFrames regions ∧ m.occupied p.1.2 p.2 = true := by
  obtain ⟨x, j⟩ := p
  simp only [ParticleMemory.liveSlots, List.mem_flatMap, List.mem_map, List.mem_filter,
    List.mem_finRange, true_and, Prod.mk.injEq]
  constructor
  · rintro ⟨x, hx, j, hj, rfl, rfl⟩
    exact ⟨hx, hj⟩
  · rintro ⟨hx, hj⟩
    exact ⟨x, hx, j, hj, rfl, rfl⟩

omit [Field K] [LinearOrder K] in
/-- A sum over live slots, frame by frame. -/
theorem sum_map_liveSlots {M : Type*} [AddMonoid M] (m : ParticleMemory K d A V frameSize)
    (regions : List (ParticleRegion K d)) (g : RegionFrameSlot K d frameSize → M) :
    ((m.liveSlots regions).map g).sum = ((allFrames regions).map fun x =>
      (((List.finRange frameSize).filter fun j => m.occupied x.2 j).map fun j => g (x, j)).sum).sum := by
  rw [ParticleMemory.liveSlots, sum_map_flatMap]
  simp only [List.map_map, Function.comp_def]

/-! ## Blocks -/

/-- The index that a launch is given lists every frame of the regions: some block has the frame and
its region. -/
def FrameLaunch.Lists (launch : FrameLaunch K d) (regions : List (ParticleRegion K d)) : Prop :=
  ∀ x ∈ allFrames regions, ∃ (b : Fin launch.totalFrames.toNat) (r : ℕ),
    launch.ownRegion b = some (r, x.1) ∧ launch.framePtrs b = x.2 ∧ regions[r]? = some x.1

omit [Field K] [LinearOrder K] in
/-- **A fresh index lists every frame.** -/
theorem FrameLaunch.lists_of_describes {launch : FrameLaunch K d}
    {regions : List (ParticleRegion K d)} {idx : FrameIndexBuffer} {framesScan : ℕ → UInt32}
    (htarget : launch.targetPR = regions)
    (hindex : Describes idx regions launch.framePtrs launch.regionIdx framesScan)
    (htotal : launch.totalFrames = idx.totalFrames) (hfit : (frameCounts regions).sum < 2 ^ 31)
    (hsize : regions.length < 2 ^ 31) : launch.Lists regions := by
  rintro ⟨region, frame⟩ hx
  obtain ⟨hregion, hframe⟩ := mem_allFrames.mp hx
  obtain ⟨r, hr⟩ := List.mem_iff_getElem?.mp hregion
  obtain ⟨i, hi⟩ := List.mem_iff_getElem?.mp hframe
  obtain ⟨hptr, hidx⟩ := hindex.listed r i region frame hr hi
  have hlt := (inBlock_frame hr hi).lt_sum
  have hrlt : r < 2 ^ 31 := lt_trans (List.getElem?_eq_some_iff.mp hr).1 hsize
  have htotal' : toInt launch.totalFrames = (frameCounts regions).sum := by
    rw [htotal, hindex.totalFrames, toInt_ofNat hfit]
  have hnot : ¬ ((blockStart (frameCounts regions) r + i : ℕ) : ℤ) ≥ toInt launch.totalFrames := by
    rw [htotal']
    exact not_le.mpr (Int.ofNat_lt.mpr hlt)
  have hblock : blockStart (frameCounts regions) r + i < launch.totalFrames.toNat :=
    lt_of_lt_of_le (by omega) (toInt_toNat_le _)
  have hrIdx : (toInt (launch.regionIdx (blockStart (frameCounts regions) r + i))).toNat = r := by
    rw [hidx, toInt_ofNat hrlt, Int.toNat_natCast]
  refine ⟨⟨_, hblock⟩, r, ?_, hptr, hr⟩
  rw [FrameLaunch.ownRegion, if_neg hnot, hrIdx, htarget]
  exact congrArg (Option.map fun region => (r, region)) hr

omit [Field K] [LinearOrder K] in
/-- A block with a region is one that the index counts. -/
theorem FrameLaunch.lt_of_ownRegion {launch : FrameLaunch K d} {b : ℕ}
    (h : launch.ownRegion b ≠ none) : b < (toInt launch.totalFrames).toNat := by
  by_contra hle
  exact h (if_pos (by omega))

/-! ## Neighbour lists -/

/-- The neighbour lists of a view hold, for each target region, the source regions that meet it. -/
def SourceView.Lists (view : SourceView K d) (targetPR : List (ParticleRegion K d)) (R : K) : Prop :=
  ∀ (r : ℕ) (region : ParticleRegion K d), targetPR[r]? = some region →
    (view.visited r).Perm ((neighbours region view.sourcePR R).flatMap (framesAt view.sourcePR))

/-- **A finished search leaves such lists.** -/
theorem SourceView.lists_of_search {targetPR sourcePR : List (ParticleRegion K d)} {R : K} {k : ℕ}
    {memory : ℕ → UInt32} {s : SharedCursor.State (Fin targetPR.length) ℕ ℕ UInt32}
    (hfit : pairs targetPR sourcePR R < 2 ^ 31) (hsize : sourcePR.length < 2 ^ 31)
    (hs : ((writePass (2 ^ k) targetPR sourcePR R).system memory).Reachable s)
    (ht : ((writePass (2 ^ k) targetPR sourcePR R).system memory).Terminal s) :
    SourceView.Lists
      ⟨sourcePR, (Particles.regionOffsets (2 ^ k) targetPR sourcePR R).1, s.memory⟩ targetPR R := by
  intro r region hr
  obtain ⟨hlt, rfl⟩ := List.getElem?_eq_some_iff.mp hr
  exact visitedFrames_perm hfit hsize hs ht ⟨r, hlt⟩

/-- A sum over the frames of neighbour regions is one over all frames, where those of other regions
count for nothing. -/
theorem sum_neighbours {M : Type*} [AddMonoid M] (region : ParticleRegion K d)
    (sourcePR : List (ParticleRegion K d)) (R : K) (g : ParticleRegion K d × FramePtr → M) :
    (((neighbours region sourcePR R).flatMap (framesAt sourcePR)).map g).sum =
      ((allFrames sourcePR).map fun y =>
        if (region.volume.expand R).intersects y.1.volume = true then g y else 0).sum := by
  rw [neighbours, sum_map_flatMap, sum_map_filter, ← flatMap_framesAt, sum_map_flatMap]
  refine congrArg List.sum (List.map_congr_left fun j hj => ?_)
  obtain ⟨other, hother⟩ : ∃ other, sourcePR[j]? = some other :=
    ⟨_, List.getElem?_eq_getElem (List.mem_range.mp hj)⟩
  rw [meets_eq_true hother, framesAt_of_getElem? hother, List.map_map, List.map_map]
  by_cases hmeets : (region.volume.expand R).intersects other.volume = true
  · simp only [Function.comp_def, if_pos hmeets]
  · simp only [Function.comp_def, if_neg hmeets, List.map_const', List.sum_replicate, nsmul_zero]

/-! ## Calls -/

/-- The distance vector of two slots, in the coordinates of the first. -/
def ParticleMemory.separation (m : ParticleMemory K d A V frameSize)
    (p q : RegionFrameSlot K d frameSize) : Vec K d := fun t =>
  m.relativePos p.1.2 p.2 t -
    (m.relativePos q.1.2 q.2 t + (q.1.1.volume.origin t - p.1.1.volume.origin t))

/-- The live slots of the sources in regions that the neighbour search finds for a slot. -/
def ParticleMemory.neighbourSlots (m : ParticleMemory K d A V frameSize)
    (sources : List (SourceView K d)) (R : K) (p : RegionFrameSlot K d frameSize) :
    List (RegionFrameSlot K d frameSize) :=
  sources.flatMap fun view => (m.liveSlots view.sourcePR).filter fun q =>
    (p.1.1.volume.expand R).intersects q.1.1.volume

namespace InteractionArgs

/-- The context of two slots. -/
def slotContext (I : InteractionArgs K d A V) (m : ParticleMemory K d A V frameSize)
    (p q : RegionFrameSlot K d frameSize) : PairContext K d :=
  I.pairContext (m.separation p q) (p.1.2 == q.1.2 && q.2 == p.2)

/-- Something computed from the call for two slots, if there is one. -/
theorem livePair_elim {M : Type*} (I : InteractionArgs K d A V)
    (m : ParticleMemory K d A V frameSize) (p q : RegionFrameSlot K d frameSize) (z : M)
    (g : PairRecord I.fn frameSize → M) :
    (I.livePair m p.1.1.volume p.1.2 p.2 q.1 q.2).elim z g =
      if squaredLength (m.separation p q) < I.interactionRadius * I.interactionRadius then
        g ⟨(q.1.2, q.2), I.fn.stage (m.fields q.1.2 q.2 I.fn.stageReads), I.slotContext m p q⟩
      else z := by
  by_cases hclose : squaredLength (m.separation p q) < I.interactionRadius * I.interactionRadius
  · rw [if_pos hclose]
    exact congrArg (fun pair => Option.elim pair z g) (if_pos hclose)
  · rw [if_neg hclose]
    exact congrArg (fun pair => Option.elim pair z g) (if_neg hclose)

variable {I : InteractionArgs K d A V} {launch : FrameLaunch K d} {targetPR : List (ParticleRegion K d)}
  {views : List (SourceView K d)} {m m' : ParticleMemory K d A V frameSize}

/-- **What a live slot adds up**, over all live slots of the sources. -/
theorem sum_sourcePairs {M : Type*} [AddCommMonoid M] {R : K}
    (hviews : ∀ view ∈ views, view.Lists targetPR R) {b r : ℕ}
    {p : RegionFrameSlot K d frameSize} (hframe : launch.framePtrs b = p.1.2)
    (hr : targetPR[r]? = some p.1.1) (g : PairRecord I.fn frameSize → M) :
    ((I.sourcePairs launch views m b r p.1.1 p.2).map g).sum =
      ((m.neighbourSlots views R p).map fun q =>
        if squaredLength (m.separation p q) < I.interactionRadius * I.interactionRadius then
          g ⟨(q.1.2, q.2), I.fn.stage (m.fields q.1.2 q.2 I.fn.stageReads), I.slotContext m p q⟩
        else 0).sum := by
  rw [sourcePairs, livePairs, hframe, List.flatMap_assoc, sum_map_flatMap,
    ParticleMemory.neighbourSlots, sum_map_flatMap]
  refine congrArg List.sum (List.map_congr_left fun view hview => ?_)
  have hperm := (hviews view hview r p.1.1 hr).map fun y =>
    (((List.finRange frameSize).filter fun j => m.occupied y.2 j).map fun j =>
      (I.livePair m p.1.1.volume p.1.2 p.2 y j).elim 0 g).sum
  simp only [sum_map_flatMap, sum_map_filterMap]
  rw [hperm.sum_eq, sum_neighbours, sum_map_filter, sum_map_liveSlots]
  refine congrArg List.sum (List.map_congr_left fun y _ => ?_)
  by_cases hmeets : (p.1.1.volume.expand R).intersects y.1.volume = true
  · simp only [if_pos hmeets]
    exact congrArg List.sum (List.map_congr_left fun j _ => I.livePair_elim m p (y, j) 0 g)
  · simp only [if_neg hmeets, List.map_const', List.sum_replicate, nsmul_zero]

omit [Field K] [LinearOrder K] in
theorem SameReads.liveSlots (h : I.SameReads m m') (hfn : I.fn.Isolated)
    (regions : List (ParticleRegion K d)) : m'.liveSlots regions = m.liveSlots regions := by
  unfold ParticleMemory.liveSlots
  simp only [h.occupied hfn]

/-- **What a pass stores in a live slot.** -/
theorem PassResult.stored_liveSlot
    {calls : Fin launch.totalFrames.toNat → BlockCalls I.fn frameSize}
    (h : I.PassResult launch (I.sourcePairs launch views m) m calls m')
    (hlists : launch.Lists targetPR) {p : RegionFrameSlot K d frameSize}
    (hp : p ∈ m.liveSlots targetPR) : ∃ b r : ℕ, launch.framePtrs b = p.1.2 ∧ targetPR[r]? = some p.1.1 ∧
      ∀ l (hl : l ∈ I.fn.ownAccumulate), m' ⟨p.1.2, p.2, l⟩ =
        I.fn.accumulate (m.fields p.1.2 p.2 I.fn.ownReads) (m.fields p.1.2 p.2 I.fn.ownAccumulate)
          (I.sourcePairs launch views m b r p.1.1 p.2) l hl := by
  obtain ⟨hx, hocc⟩ := mem_liveSlots.mp hp
  obtain ⟨b, r, hregion, hframe, hr⟩ := hlists p.1 hx
  rw [← hframe] at hocc
  obtain ⟨hcalls, hstored⟩ := h.stored b r p.1.1 hregion p.2 hocc
  refine ⟨b, r, hframe, hr, fun l hl => ?_⟩
  rw [← hframe, hstored l hl, hcalls]

end InteractionArgs

end Particles
end Spearhed
