import Mathlib.Tactic
import Mathlib.Data.Multiset.Fold
import Spearhed.Particles.RegionBounds

/-!
# The bounds of the live particles

What `UpdateRegionBounds` computes does not depend on how the particles are spread over frames and
workers: with a power of two of workers it is the box of the positions of all live particles.

* `bounds`: the box of some positions, as a function of the multiset of these.
* `bounds_add`, `sum_positionsAt`: boxes are combined like positions, and the slots of a frame are
  shared out among the workers.
* `updateRegion_volume`: the volume after an update.
-/

namespace Spearhed
namespace Particles

open Library

variable {K : Type} [Field K] [LinearOrder K] {d : ℕ} {A : Type} {frameSize : ℕ}

/-- The smallest box around some positions; one that contains nothing where there are none. -/
def bounds (lim : NumericLimits K) (positions : Multiset (Vec K d)) : AABB K d where
  origin := fun _ => 0
  min := fun t => (positions.map fun v => v t).fold min lim.max
  max := fun t => (positions.map fun v => v t).fold max lim.lowest

variable {lim : NumericLimits K}

theorem bounds_zero : bounds lim (0 : Multiset (Vec K d)) = AABB.fresh lim := rfl

/-- Extending a box by a position, axis by axis. -/
theorem extend_bounds (positions : Multiset (Vec K d)) (v : Vec K d) :
    (bounds lim positions).extend v = bounds lim (v ::ₘ positions) := by
  refine AABB.ext rfl (funext fun t => ?_) (funext fun t => ?_)
  · have hmin : (bounds lim (v ::ₘ positions)).min t = min (v t) ((bounds lim positions).min t) := by
      show Multiset.fold min _ ((v ::ₘ positions).map _) = _
      rw [Multiset.map_cons, Multiset.fold_cons_left]
      rfl
    rw [hmin]
    exact (min_def_lt _ _).symm
  · have hmax : (bounds lim (v ::ₘ positions)).max t = max ((bounds lim positions).max t) (v t) := by
      show Multiset.fold max _ ((v ::ₘ positions).map _) = _
      rw [Multiset.map_cons, Multiset.fold_cons_right]
      rfl
    rw [hmax]
    exact (max_def_lt _ _).symm

/-- **Boxes are combined like their positions.** -/
theorem bounds_add (positions positions' : Multiset (Vec K d)) :
    bounds lim (positions + positions') = (bounds lim positions).extendBox (bounds lim positions') := by
  refine AABB.ext rfl (funext fun t => ?_) (funext fun t => ?_)
  · have hsplit := Multiset.fold_add min lim.max lim.max (positions'.map fun v => v t)
      (positions.map fun v => v t)
    rw [min_self, ← Multiset.map_add, add_comm positions'] at hsplit
    exact hsplit.trans (min_def_lt _ _)
  · have hsplit := Multiset.fold_add max lim.lowest lim.lowest (positions.map fun v => v t)
      (positions'.map fun v => v t)
    rw [max_self, ← Multiset.map_add] at hsplit
    exact hsplit.trans (max_def_lt _ _)

/-! ## What the workers of a block collect -/

/-- The positions of the occupied slots among some slots of a frame. -/
def Frame.positionsAt (f : Frame K d A frameSize) (slots : List ℕ) : Multiset (Vec K d) :=
  ↑(slots.filterMap fun slot =>
    if h : slot < frameSize then
      if (f.particlesSoa ⟨slot, h⟩).occupied then some (f.particlesSoa ⟨slot, h⟩).relativePos else none
    else none)

/-- The positions of the live particles of a region. -/
def ParticleRegion.livePositions (H : Heap K d A frameSize) (region : ParticleRegion K d) :
    Multiset (Vec K d) :=
  ↑(region.particleFrameList.flatMap fun frame =>
    (H frame).liveSlots.map fun slot => ((H frame).particlesSoa slot).relativePos)

variable {H : Heap K d A frameSize} {numWorkers : ℕ}

theorem extendByFrame_bounds (threadIdx : ℕ) (positions : Multiset (Vec K d)) (frame : FramePtr) :
    extendByFrame H numWorkers threadIdx (bounds lim positions) frame =
      bounds lim ((H frame).positionsAt (strided threadIdx numWorkers frameSize) + positions) := by
  unfold extendByFrame Frame.positionsAt
  induction strided threadIdx numWorkers frameSize generalizing positions with
  | nil => exact congrArg (bounds lim) (zero_add positions).symm
  | cons slot slots ih =>
    rw [List.foldl_cons]
    by_cases hslot : slot < frameSize
    · by_cases hocc : ((H frame).particlesSoa ⟨slot, hslot⟩).occupied = true
      · rw [List.filterMap_cons_some (by rw [dif_pos hslot, if_pos hocc])]
        simp only [dif_pos hslot, if_pos hocc]
        rw [extend_bounds, ih, ← Multiset.cons_coe, Multiset.cons_add, Multiset.add_cons]
      · rw [List.filterMap_cons_none (by rw [dif_pos hslot, if_neg hocc])]
        simp only [dif_pos hslot, if_neg hocc]
        exact ih positions
    · rw [List.filterMap_cons_none (by rw [dif_neg hslot])]
      simp only [dif_neg hslot]
      exact ih positions

/-- The positions that one worker meets. -/
def workerPositions (H : Heap K d A frameSize) (numWorkers : ℕ) (region : ParticleRegion K d)
    (threadIdx : ℕ) : Multiset (Vec K d) :=
  (region.particleFrameList.map fun frame =>
    (H frame).positionsAt (strided threadIdx numWorkers frameSize)).sum

theorem localBounds_eq (threadIdx : ℕ) (region : ParticleRegion K d) :
    localBounds lim H numWorkers threadIdx region =
      bounds lim (workerPositions H numWorkers region threadIdx) := by
  have hfold : ∀ (frames : List FramePtr) (positions : Multiset (Vec K d)),
      frames.foldl (extendByFrame H numWorkers threadIdx) (bounds lim positions) =
        bounds lim ((frames.map fun frame =>
          (H frame).positionsAt (strided threadIdx numWorkers frameSize)).sum + positions) := by
    intro frames
    induction frames with
    | nil => exact fun positions => by rw [List.map_nil, List.sum_nil, zero_add]; rfl
    | cons frame frames ih =>
      intro positions
      rw [List.foldl_cons, extendByFrame_bounds, ih, List.map_cons, List.sum_cons]
      congr 1
      abel
  rw [localBounds, ← bounds_zero, hfold, add_zero]
  rfl

omit [Field K] [LinearOrder K] in
/-- The slots of all workers are those of the frame. -/
theorem sum_positionsAt (hw : 0 < numWorkers) (f : Frame K d A frameSize) :
    ∑ w ∈ Finset.range numWorkers, f.positionsAt (strided w numWorkers frameSize) =
      ↑(f.liveSlots.map fun slot => (f.particlesSoa slot).relativePos) := by
  have happend : ∀ workers : List ℕ,
      (workers.map fun w => f.positionsAt (strided w numWorkers frameSize)).sum =
        f.positionsAt (workers.flatMap fun w => strided w numWorkers frameSize) := by
    intro workers
    induction workers with
    | nil => rfl
    | cons w workers ih =>
      rw [List.map_cons, List.sum_cons, ih, List.flatMap_cons]
      unfold Frame.positionsAt
      rw [List.filterMap_append, Multiset.coe_add]
  have hperm := (flatMap_strided_perm hw frameSize).filterMap fun slot =>
    if h : slot < frameSize then
      if (f.particlesSoa ⟨slot, h⟩).occupied then some (f.particlesSoa ⟨slot, h⟩).relativePos else none
    else none
  have hsum : ∑ w ∈ Finset.range numWorkers, f.positionsAt (strided w numWorkers frameSize) =
      ((List.range numWorkers).map fun w => f.positionsAt (strided w numWorkers frameSize)).sum := by
    rw [← List.sum_toFinset _ List.nodup_range, List.toFinset_range]
  rw [hsum, happend]
  refine (Multiset.coe_eq_coe.mpr hperm).trans (congrArg _ ?_)
  rw [← List.map_coe_finRange_eq_range, List.filterMap_map, Frame.liveSlots, ← List.filterMap_eq_map,
    List.filterMap_filter]
  refine List.filterMap_congr fun slot _ => ?_
  simp

/-- **The volume after an update** is the box of the live particles. -/
theorem updateRegion_volume (k : ℕ) (region : ParticleRegion K d) :
    (updateRegion lim H (2 ^ k) region).volume = bounds lim (region.livePositions H) := by
  have hworkers : ∀ frames : List FramePtr,
      ∑ w ∈ Finset.range (2 ^ k), (frames.map fun frame =>
        (H frame).positionsAt (strided w (2 ^ k) frameSize)).sum =
      (↑(frames.flatMap fun frame =>
        (H frame).liveSlots.map fun slot => ((H frame).particlesSoa slot).relativePos) :
          Multiset (Vec K d)) := by
    intro frames
    induction frames with
    | nil => simp
    | cons frame frames ih =>
      simp only [List.map_cons, List.sum_cons, Finset.sum_add_distrib]
      rw [ih, sum_positionsAt (Nat.two_pow_pos k), List.flatMap_cons, Multiset.coe_add]
  show treeReduce AABB.extendBox (2 ^ k) _ 0 = _
  simp only [localBounds_eq]
  rw [treeReduce_map bounds_add]
  refine congrArg (bounds lim) ?_
  rw [treeReduce_zero]
  exact hworkers region.particleFrameList

end Particles
end Spearhed
