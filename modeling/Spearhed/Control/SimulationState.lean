import Spearhed.Library.AppendList
import Spearhed.Particles.FrameIndexRuns
import Spearhed.Particles.InitParticles
import Spearhed.Sph.ReferenceStep

/-!
# The state of a simulation

What outlives a time step: the buffers in the data connector, the frames on the device heap, the
counter of particle ids, and the frame indices that `Simulation` caches.  Algorithms see the frame
lists as the sequences that a walk meets (`SimulationState.regions`) and the frames as one memory of
particles (`SimulationState.memory`).

Without frames and slots this is a state of the reference step (`SimulationState.reference`).

* `reference_store`: particles that change in their frames change in the reference state.
* `WellFormed`: frame lists have no frame in common, and indices can count them.
-/

namespace Spearhed
namespace Control

open Library Particles Sph

variable {K : Type} {d frameSize : ℕ}

/-- The record of a particle, beside its position and mask. -/
structure FluidData (K : Type) (d : ℕ) where
  particleId : UInt64
  fields : FluidAttribute d → K

/-- What outlives a time step. -/
structure SimulationState (K : Type) (d frameSize : ℕ) where
  /-- The entries of the data connector. -/
  buffers : Species → Option (ParticleRegionBuffer (StoredRegion K d))
  frames : FramePtr → LinkedFrame K d (FluidData K d) frameSize
  /-- The addresses that the device heap has handed out. -/
  allocated : Finset FramePtr
  /-- The counter of the id provider. -/
  nextId : UInt64
  frameIndices : Species → FrameIndexBuffer

/-- The address of the buffer of a species, which stays where it is. -/
def bufferId : Species → BufferId
  | .Default => 0
  | .Boundary => 1
  | .Tracer => 2

namespace SimulationState

variable (w : SimulationState K d frameSize)

/-! ## What algorithms see -/

/-- A region with the frames from `begin()` to `end()`. -/
def region (r : StoredRegion K d) : ParticleRegion K d where
  volume := r.volume
  particleFrameList := walkNodes (fun p => (w.frames p).next) w.allocated.card
    r.particleFrameList.list.firstNode

/-- The regions of a species on the device. -/
def regions (S : Species) : List (ParticleRegion K d) :=
  (w.buffers S).elim [] fun B => B.device.map w.region

/-- The frames as particle memory. -/
def memory : FluidMemory K d frameSize
  | ⟨p, slot, .relativePos t⟩ => ((w.frames p).particlesSoa slot).relativePos t
  | ⟨p, slot, .multiMask⟩ => ((w.frames p).particlesSoa slot).multiMask
  | ⟨p, slot, .attribute a⟩ => ((w.frames p).particlesSoa slot).attributes.fields a

/-- The frames without their pointers. -/
def heap : Heap K d (FluidData K d) frameSize := fun p => (w.frames p).toFrame

/-- Kernels have changed the particle memory. -/
def store (m : FluidMemory K d frameSize) : SimulationState K d frameSize :=
  { w with
    frames := fun p => { w.frames p with
      particlesSoa := fun slot =>
        let particle := ParticleMemory.particle m p slot
        { relativePos := particle.relativePos
          multiMask := particle.multiMask
          attributes :=
            { ((w.frames p).particlesSoa slot).attributes with fields := particle.attributes } } } }

/-- `selectBuffers`: the buffer is there and its species has the roles. -/
def selects (roles : List Role) (S : Species) : Bool :=
  (w.buffers S).isSome && S.hasRoles roles

variable {w}

theorem regions_of_some {S : Species} {B : ParticleRegionBuffer (StoredRegion K d)}
    (h : w.buffers S = some B) : w.regions S = B.device.map w.region := by
  rw [regions, h]
  rfl

@[simp] theorem memory_store (m : FluidMemory K d frameSize) : (w.store m).memory = m := by
  funext ⟨p, slot, l⟩
  cases l <;> rfl

@[simp] theorem regions_store (m : FluidMemory K d frameSize) (S : Species) :
    (w.store m).regions S = w.regions S := rfl

@[simp] theorem buffers_store (m : FluidMemory K d frameSize) :
    (w.store m).buffers = w.buffers := rfl

theorem selects_iff {roles : List Role} {S : Species} :
    w.selects roles S = true ↔ (w.buffers S).isSome = true ∧ S.hasRoles roles = true :=
  Bool.and_eq_true_iff

/-! ## Without frames -/

/-- The regions and particles of every species that is there. -/
def reference (w : SimulationState K d frameSize) : ReferenceState K d := fun S =>
  (w.buffers S).map fun _ => (w.regions S).map (referenceRegion w.memory)

theorem reference_of_some {S : Species} {B : ParticleRegionBuffer (StoredRegion K d)}
    (h : w.buffers S = some B) :
    w.reference S = some ((w.regions S).map (referenceRegion w.memory)) := by
  rw [reference, h]
  rfl

theorem getD_reference (S : Species) :
    (w.reference S).getD [] = (w.regions S).map (referenceRegion w.memory) := by
  rw [reference, regions]
  cases w.buffers S <;> rfl

/-- The live slots of one region are live slots of its species. -/
theorem mem_liveSlots_of_region {m : FluidMemory K d frameSize} {regions : List (ParticleRegion K d)}
    {region : ParticleRegion K d} (hregion : region ∈ regions) {p : RegionFrameSlot K d frameSize}
    (hp : p ∈ ParticleMemory.liveSlots m [region]) : p ∈ ParticleMemory.liveSlots m regions := by
  rw [liveSlots_eq_flatMap]
  exact List.mem_flatMap.mpr ⟨region, hregion, hp⟩

/-- **Particles change in their frames as they change in the reference state.** -/
theorem reference_store {m' : FluidMemory K d frameSize}
    {F : Species → ReferenceRegion K d → FluidParticle K d → FluidParticle K d}
    (hocc : ∀ frame slot, ParticleMemory.occupied m' frame slot =
      ParticleMemory.occupied w.memory frame slot)
    (hF : ∀ S, ∀ p ∈ ParticleMemory.liveSlots w.memory (w.regions S),
      ParticleMemory.particle m' p.1.2 p.2 =
        F S (referenceRegion w.memory p.1.1) (ParticleMemory.particle w.memory p.1.2 p.2)) :
    (w.store m').reference = w.reference.mapParticles F := by
  funext S
  rw [ReferenceState.mapParticles, reference, reference, buffers_store, Option.map_map]
  refine congrArg (fun f => Option.map f (w.buffers S)) (funext fun B => ?_)
  rw [Function.comp_apply, List.map_map, regions_store, memory_store]
  refine List.map_congr_left fun region hregion => ?_
  have hlive : ParticleMemory.liveSlots m' [region] = ParticleMemory.liveSlots w.memory [region] := by
    unfold ParticleMemory.liveSlots
    simp only [hocc]
  refine ReferenceRegion.ext rfl ?_
  rw [Function.comp_apply, ReferenceRegion.mapParticles, referenceRegion, referenceRegion, hlive]
  rw [Multiset.map_coe, List.map_map]
  refine congrArg Multiset.ofList (List.map_congr_left fun p hp => ?_)
  rw [hF S p (mem_liveSlots_of_region hregion hp), region_of_mem_liveSlots w.memory hp]
  rfl

/-! ## Well-formed states -/

/-- The frames of all species, each with its region. -/
def allSpeciesFrames (w : SimulationState K d frameSize) : List (ParticleRegion K d × FramePtr) :=
  Species.all.flatMap fun S => allFrames (w.regions S)

/-- What every stage of a step keeps. -/
structure WellFormed (w : SimulationState K d frameSize) : Prop where
  uploaded : ∀ S B, w.buffers S = some B → B.Uploaded
  /-- No frame is listed twice. -/
  nodup : (w.allSpeciesFrames.map Prod.snd).Nodup
  /-- The total number of frames fits into an `int`. -/
  fits : ∀ S, (frameCounts (w.regions S)).sum < 2 ^ 31

theorem WellFormed.store (h : w.WellFormed) (m : FluidMemory K d frameSize) :
    (w.store m).WellFormed :=
  ⟨h.uploaded, h.nodup, h.fits⟩

theorem WellFormed.length_regions_lt (h : w.WellFormed) (S : Species) :
    (w.regions S).length < 2 ^ 31 := by
  cases hB : w.buffers S with
  | none =>
    rw [regions, hB]
    norm_num
  | some B =>
    rw [regions_of_some hB, List.length_map, h.uploaded S B hB]
    exact B.size_lt

theorem WellFormed.nodup_frames (h : w.WellFormed) (S : Species) :
    ((allFrames (w.regions S)).map Prod.snd).Nodup := by
  have hnodup := h.nodup
  rw [allSpeciesFrames, List.map_flatMap, List.nodup_flatMap] at hnodup
  exact hnodup.1 S S.mem_all

/-- **Different species have different frames.** -/
theorem WellFormed.frame_ne (h : w.WellFormed) {S S' : Species} (hne : S ≠ S')
    {x y : ParticleRegion K d × FramePtr} (hx : x ∈ allFrames (w.regions S))
    (hy : y ∈ allFrames (w.regions S')) : x.2 ≠ y.2 := by
  have hnodup := h.nodup
  rw [allSpeciesFrames, List.map_flatMap, List.nodup_flatMap] at hnodup
  have hsymm : Std.Symm (Function.onFun List.Disjoint
      fun S => (allFrames (w.regions S)).map Prod.snd) := ⟨fun _ _ hxy => hxy.symm⟩
  intro heq
  exact hnodup.2.forall S.mem_all S'.mem_all hne (List.mem_map_of_mem hx)
    (heq ▸ List.mem_map_of_mem hy)

end SimulationState

end Control
end Spearhed
