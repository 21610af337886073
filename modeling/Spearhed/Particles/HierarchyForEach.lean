import Mathlib.Tactic
import Spearhed.Particles.FrameIterator

/-!
# Iterating the hierarchy

`HierarchyForEach.hpp`: species hold regions, regions hold frames, frames hold slots, and `forEach`
visits every element at a level below a view.  Each level is a plain loop of the calling thread; only
the pointers between frames are followed differently by a kernel and by the host.

* `forEach_particle`: at the particle level, a species is flattened.
* `forEach_device`, `forEach_host`: a kernel visits the live slots of all frames, and the host, in the
  same order, their images.
-/

namespace Spearhed
namespace Particles

open Library

variable {K : Type} {d : ℕ} {A : Type} {frameSize : ℕ}

/-- The frames by address, with their `next` pointers. -/
abbrev LinkedHeap (K : Type) (d : ℕ) (A : Type) (frameSize : ℕ) : Type :=
  FramePtr → LinkedFrame K d A frameSize

/-- `DeviceHeapAccess` and `HostHeapAccess`. -/
inductive HeapAccess
  | deviceHeap
  | hostHeap (heapOffset : ℤ)

/-- How `begin()` of the frames is advanced. -/
def HeapAccess.policy : HeapAccess → AdvancePolicy
  | deviceHeap => .deviceAdvance
  | hostHeap heapOffset => .hostAdvance heapOffset

/-- `access.frames(frameList)` in a range-based loop of at most `fuel` frames. -/
def HeapAccess.frames (access : HeapAccess) (H : LinkedHeap K d A frameSize) (fuel : ℕ)
    (l : FrameList) : Option (List FramePtr) :=
  rangeFor (fun p => (H p).next) (.ofNode none access.policy) fuel
    (.ofNode l.list.firstNode access.policy)

/-- `SpeciesView`. -/
structure SpeciesView (K : Type) (d : ℕ) where
  regionBox : ℕ → StoredRegion K d
  numRegions : ℕ

/-- The elements and containers of the hierarchy.  A particle is a slot of a frame. -/
inductive View (K : Type) (d : ℕ) (frameSize : ℕ)
  | particle (frame : FramePtr) (slot : Fin frameSize)
  | frame (frame : FramePtr)
  | region (region : StoredRegion K d)
  | species (species : SpeciesView K d)
  | multiSpecies (species : List (SpeciesView K d))

/-- `levels`. -/
inductive Level
  | particle
  | frame
  | region
  | species

/-- `rank`. -/
def Level.rank : Level → ℕ
  | particle => 0
  | frame => 1
  | region => 2
  | species => 3

/-- The rank of `childLevel(view)`; a particle contains nothing. -/
def View.childLevel : View K d frameSize → Option ℕ
  | particle _ _ => none
  | frame _ => some Level.particle.rank
  | region _ => some Level.frame.rank
  | species _ => some Level.region.rank
  | multiSpecies _ => some Level.species.rank

/-- The particles of a frame: its live slots. -/
def liveOf (H : LinkedHeap K d A frameSize) (p : FramePtr) : List (FramePtr × Fin frameSize) :=
  (H p).toFrame.liveSlots.map fun slot => (p, slot)

/-- A particle as an element. -/
def View.ofSlot (x : FramePtr × Fin frameSize) : View K d frameSize := .particle x.1 x.2

/-- `forEachChild`: what the body is called with. -/
def forEachChild (access : HeapAccess) (H : LinkedHeap K d A frameSize) (fuel : ℕ) :
    View K d frameSize → Option (List (View K d frameSize))
  | .particle _ _ => none
  | .frame p => some ((liveOf H p).map View.ofSlot)
  | .region region =>
    (access.frames H fuel region.particleFrameList).map fun frames => frames.map .frame
  | .species species => some ((List.range species.numRegions).map fun r =>
      .region (species.regionBox r))
  | .multiSpecies species => some (species.map .species)

/-- The recursion of `forEach`, over the levels between the target and the children of the view. -/
def descend (access : HeapAccess) (H : LinkedHeap K d A frameSize) (fuel : ℕ) :
    ℕ → View K d frameSize → Option (List (View K d frameSize))
  | 0, view => forEachChild access H fuel view
  | levels + 1, view => (forEachChild access H fuel view).bind fun children =>
      (children.mapM (descend access H fuel levels)).map List.flatten

/-- `forEach`: what the body is called with.  The target must be contained in the view. -/
def forEach (target : Level) (access : HeapAccess) (H : LinkedHeap K d A frameSize) (fuel : ℕ)
    (view : View K d frameSize) : Option (List (View K d frameSize)) :=
  view.childLevel.bind fun rank =>
    if target.rank ≤ rank then descend access H fuel (rank - target.rank) view else none

/-! ## Particles of a species -/

/-- Loops that all end, one after the other. -/
theorem mapM_eq_some_map {α β : Type} {f : α → Option β} {g : α → β} {l : List α}
    (h : ∀ a ∈ l, f a = some (g a)) : l.mapM f = some (l.map g) := by
  induction l with
  | nil => rfl
  | cons a l ih =>
    rw [List.mapM_cons, h a List.mem_cons_self, ih fun b hb => h b (List.mem_cons_of_mem a hb)]
    rfl

section

variable {access : HeapAccess} {H : LinkedHeap K d A frameSize} {fuel : ℕ}

/-- The particles of a region whose frames are met in a finite loop. -/
theorem descend_region {region : StoredRegion K d} {frames : List FramePtr}
    (h : access.frames H fuel region.particleFrameList = some frames) :
    descend access H fuel 1 (.region region) =
      some ((frames.flatMap (liveOf H)).map View.ofSlot) := by
  have hleaf : (frames.map fun p => (View.frame p : View K d frameSize)).mapM
      (descend access H fuel 0) =
      some (frames.map fun p => (liveOf H p).map View.ofSlot) := by
    rw [List.mapM_map]
    exact mapM_eq_some_map fun p _ => rfl
  show ((access.frames H fuel region.particleFrameList).map _).bind _ = _
  rw [h, Option.map_some, Option.bind_some, hleaf, Option.map_some, List.map_flatMap,
    List.flatMap_def]

/-- **A species is flattened**, region by region and frame by frame. -/
theorem forEach_particle {species : SpeciesView K d} {frames : ℕ → List FramePtr}
    (h : ∀ r < species.numRegions,
      access.frames H fuel (species.regionBox r).particleFrameList = some (frames r)) :
    forEach .particle access H fuel (.species species) =
      some ((((List.range species.numRegions).flatMap frames).flatMap (liveOf H)).map
        View.ofSlot) := by
  have hregions : ((List.range species.numRegions).map fun r =>
      (View.region (species.regionBox r) : View K d frameSize)).mapM (descend access H fuel 1) =
      some ((List.range species.numRegions).map fun r =>
        ((frames r).flatMap (liveOf H)).map View.ofSlot) := by
    rw [List.mapM_map]
    exact mapM_eq_some_map fun r hr => descend_region (h r (List.mem_range.mp hr))
  have hlevel : Level.particle.rank ≤ Level.region.rank := Nat.zero_le _
  show (some _).bind _ = _
  rw [Option.bind_some, if_pos hlevel]
  show (some _).bind _ = _
  rw [Option.bind_some, hregions, Option.map_some, List.flatMap_assoc, List.map_flatMap,
    List.flatMap_def]

end

/-! ## A kernel and the host -/

/-- The stored regions of a species spell the lists of regions: the pointers of each lead through its
frames to null. -/
structure Spells (H : LinkedHeap K d A frameSize) (species : SpeciesView K d)
    (regions : List (ParticleRegion K d)) : Prop where
  numRegions : species.numRegions = regions.length
  walk : ∀ r region, regions[r]? = some region →
    Walk (fun p => (H p).next) (species.regionBox r).particleFrameList.list.firstNode
      region.particleFrameList

/-- All frames of some regions, in order. -/
def framesOf (regions : List (ParticleRegion K d)) : List FramePtr :=
  regions.flatMap fun region => region.particleFrameList

/-- The flattened hierarchy: the live slots of all frames of all regions. -/
def liveParticles (H : LinkedHeap K d A frameSize) (regions : List (ParticleRegion K d)) :
    List (FramePtr × Fin frameSize) :=
  (framesOf regions).flatMap (liveOf H)

/-- Where no frame is in two places, every live particle is listed once. -/
theorem nodup_liveParticles (H : LinkedHeap K d A frameSize) {regions : List (ParticleRegion K d)}
    (h : (framesOf regions).Nodup) : (liveParticles H regions).Nodup := by
  rw [liveParticles, List.nodup_flatMap]
  refine ⟨fun p _ => ?_, h.imp fun hne x hx hx' => hne ?_⟩
  · refine ((List.nodup_finRange frameSize).filter _).map fun s s' hs => ?_
    exact congrArg Prod.snd hs
  · obtain ⟨s, -, rfl⟩ := List.mem_map.mp hx
    obtain ⟨s', -, hs'⟩ := List.mem_map.mp hx'
    exact (congrArg Prod.fst hs').symm

/-- The lists read by index. -/
theorem flatMap_range_getD (regions : List (ParticleRegion K d)) (f : FramePtr → FramePtr) :
    ((List.range regions.length).flatMap fun r =>
      ((regions[r]?.map ParticleRegion.particleFrameList).getD []).map f) =
      (framesOf regions).map f := by
  induction regions with
  | nil => rfl
  | cons region regions ih =>
    rw [List.length_cons, List.range_succ_eq_map, List.flatMap_cons, List.flatMap_map, framesOf,
      List.flatMap_cons, List.map_append]
    exact congrArg₂ _ rfl ih

section

variable {H H' : LinkedHeap K d A frameSize} {species : SpeciesView K d}
  {regions : List (ParticleRegion K d)} {m : HeapMirror}

/-- The copy of the heap holds, at the image of an address, what the heap holds there. -/
def CopiedTo (H H' : LinkedHeap K d A frameSize) (m : HeapMirror) : Prop :=
  ∀ p : FramePtr, m.Inside p → H' (m.image p) = H p

/-- The frames a kernel meets in a region. -/
theorem Spells.frames_device (h : Spells H species regions) {r : ℕ} {region : ParticleRegion K d}
    (hr : regions[r]? = some region) {fuel : ℕ} (hfuel : region.particleFrameList.length ≤ fuel) :
    HeapAccess.deviceHeap.frames H fuel (species.regionBox r).particleFrameList =
      some region.particleFrameList :=
  rangeFor_eq .deviceAdvance (h.walk r region hr) hfuel

/-- **The frames the host meets in a region** are the images of these, in the same order, and the loop
ends at null as well. -/
theorem Spells.frames_host (h : Spells H species regions) {r : ℕ} {region : ParticleRegion K d}
    (hr : regions[r]? = some region) {fuel : ℕ} (hfuel : region.particleFrameList.length ≤ fuel)
    (hinside : ∀ p ∈ region.particleFrameList, m.Inside p) (hcopy : CopiedTo H H' m) :
    (HeapAccess.hostHeap m.heapOffset).frames H' fuel (species.regionBox r).particleFrameList =
      some (region.particleFrameList.map m.image) := by
  refine rangeFor_eq (.hostAdvance m.heapOffset) ?_ (by rwa [List.length_map])
  exact HeapMirror.walk_hostAdvance (h.walk r region hr) hinside fun p hp =>
    congrArg LinkedFrame.next (hcopy p hp)

/-- What follows for a loop over all regions. -/
theorem Spells.forEach_eq (h : Spells H species regions) {access : HeapAccess} {fuel : ℕ}
    {f : FramePtr → FramePtr} {G : LinkedHeap K d A frameSize}
    (hframes : ∀ r region, regions[r]? = some region →
      access.frames G fuel (species.regionBox r).particleFrameList =
        some (region.particleFrameList.map f)) :
    forEach .particle access G fuel (.species species) =
      some ((((framesOf regions).map f).flatMap (liveOf G)).map View.ofSlot) := by
  rw [← flatMap_range_getD, ← h.numRegions]
  refine forEach_particle fun r hr => ?_
  rw [h.numRegions] at hr
  have hget : regions[r]? = some regions[r] := List.getElem?_eq_getElem hr
  rw [hframes r _ hget, hget]
  rfl

/-- **A kernel visits the flattened hierarchy**, with enough iterations for the longest list. -/
theorem Spells.forEach_device (h : Spells H species regions) {fuel : ℕ}
    (hfuel : ∀ region ∈ regions, region.particleFrameList.length ≤ fuel) :
    forEach .particle .deviceHeap H fuel (.species species) =
      some ((liveParticles H regions).map View.ofSlot) := by
  rw [h.forEach_eq (f := id) fun r region hr => ?_, List.map_id]
  · rfl
  · rw [List.map_id]
    exact h.frames_device hr (hfuel region (List.mem_of_getElem? hr))

/-- **The host visits the images of the flattened hierarchy**, in the same order. -/
theorem Spells.forEach_host (h : Spells H species regions) {fuel : ℕ}
    (hfuel : ∀ region ∈ regions, region.particleFrameList.length ≤ fuel)
    (hinside : ∀ p ∈ framesOf regions, m.Inside p) (hcopy : CopiedTo H H' m) :
    forEach .particle (.hostHeap m.heapOffset) H' fuel (.species species) =
      some ((liveParticles H regions).map fun x => .particle (m.image x.1) x.2) := by
  rw [h.forEach_eq (f := m.image) fun r region hr => ?_]
  · rw [liveParticles, List.flatMap_map, List.map_flatMap, List.map_flatMap]
    refine congrArg some (List.flatMap_congr fun p hp => ?_)
    rw [liveOf, liveOf, hcopy p (hinside p hp), List.map_map, List.map_map]
    rfl
  · exact h.frames_host hr (hfuel region (List.mem_of_getElem? hr))
      (fun p hp => hinside p (List.mem_flatMap.mpr ⟨region, List.mem_of_getElem? hr, hp⟩)) hcopy

end

end Particles
end Spearhed
