import Spearhed.Control.SimulationState
import Spearhed.Particles.InitParticlesExact

/-!
# Filling the simulation

`Simulation::fillSimulation`.  The frame indices are reset; `InitRegions` creates the buffer of every
species that the setup targets, in place if the data connector has it already; then `InitParticles`
fills the buffers, one species after the other.

What is filled in depends on the setup only (`initialReference`), for blocks that are deterministic:
a particle may depend on where it is created, but neither on the addresses of frames nor on its id.
-/

namespace Spearhed
namespace Control

open Library Particles Sph

variable {K : Type} {d frameSize : ℕ}

/-- A setup for the fluid. -/
abbrev FluidSetup (K : Type) (d : ℕ) : Type := Setup K d (FluidData K d) Species

/-- A block of such a setup. -/
abbrev FluidBlock (K : Type) (d : ℕ) : Type := Block K d (FluidData K d) Species

/-- `InitZero` for all attributes, and the id. -/
def initFluid [Zero K] (id : UInt64) : Vec K d × FluidData K d :=
  (fun _ => 0, ⟨id, fun _ => 0⟩)

/-! ## Filling -/

/-- `InitRegions`, on the entries of the data connector. -/
def initRegions (setup : FluidSetup K d)
    (buffers : Species → Option (ParticleRegionBuffer (StoredRegion K d))) :
    Option (Species → Option (ParticleRegionBuffer (StoredRegion K d))) :=
  Species.all.foldlM (fun buffers S =>
    (InitRegions.createSpecies S setup (buffers S)).map (Function.update buffers S)) buffers

namespace SimulationState

/-- The memory of the kernels that fill a species. -/
def initMemory (w : SimulationState K d frameSize) (regions : ℕ → StoredRegion K d) :
    Memory K d (FluidData K d) frameSize where
  regions := regions
  frames := w.frames
  allocated := w.allocated
  nextId := w.nextId
  calls := []

/-- A species was filled. -/
def filled (w : SimulationState K d frameSize) (S : Species)
    (prBuf : ParticleRegionBuffer (StoredRegion K d)) (m : Memory K d (FluidData K d) frameSize) :
    SimulationState K d frameSize :=
  { w with
    buffers := Function.update w.buffers S
      (some (prBuf.changeTopology ((List.range prBuf.device.length).map m.regions)))
    frames := m.frames
    allocated := m.allocated
    nextId := m.nextId }

/-- `initSpecies`, with the ids that it hands out. -/
def InitSpecies [Zero K] (setup : FluidSetup K d) (S : Species) (w : SimulationState K d frameSize)
    (ids : List UInt64) (w' : SimulationState K d frameSize) : Prop :=
  match w.buffers S with
  | none => ids = [] ∧ w' = w
  | some prBuf => ∃ regions framesPerRegion m,
      (∀ r region, prBuf.device[r]? = some region → regions r = region) ∧
      InitParticles.InitBlocksRuns S initFluid framesPerRegion (setup.targeting S) 0 0
        (w.initMemory regions) ids m ∧
      w' = w.filled S prBuf m

/-- `InitParticles`. -/
def InitParticles [Zero K] (setup : FluidSetup K d) : List Species → SimulationState K d frameSize →
    List UInt64 → SimulationState K d frameSize → Prop
  | [], w, ids, w' => ids = [] ∧ w' = w
  | S :: species, w, ids, w' => ∃ w₁ ids₁ ids₂, InitSpecies setup S w ids₁ w₁ ∧
      InitParticles setup species w₁ ids₂ w' ∧ ids = ids₁ ++ ids₂

/-- `resetAll`. -/
def resetAll (w : SimulationState K d frameSize) : SimulationState K d frameSize :=
  { w with frameIndices := fun _ => {} }

/-- **`fillSimulation`**, with the ids that it hands out. -/
def FillSimulation [Zero K] (setup : FluidSetup K d) (w : SimulationState K d frameSize)
    (ids : List UInt64) (w' : SimulationState K d frameSize) : Prop :=
  ∃ buffers, initRegions setup w.buffers = some buffers ∧
    InitParticles setup Species.all { w with buffers, frameIndices := fun _ => {} } ids w'

end SimulationState

/-! ## What is filled in -/

/-- **A deterministic block**: what it places depends on the block of the kernel, on the box and the
number of particles of the region, and on the index. -/
def Deterministic [Zero K] (block : FluidBlock K d) : Prop :=
  ∀ j (region region' : StoredRegion K d) idx id id', region.volume = region'.volume →
    region.particleFrameList.numParticles = region'.particleFrameList.numParticles →
      (block.placeParticle j region idx (initFluid id)).1 =
          (block.placeParticle j region' idx (initFluid id')).1 ∧
        (block.placeParticle j region idx (initFluid id)).2.fields =
          (block.placeParticle j region' idx (initFluid id')).2.fields

/-- A particle without its id. -/
def fluidParticle (p : Particle K d (FluidData K d)) : FluidParticle K d where
  relativePos := p.relativePos
  multiMask := p.multiMask
  attributes := p.attributes.fields

/-- The particles of the tasks for a region. -/
def jobParticles [Zero K] (frameSize : ℕ) (recipe : Recipe K d (FluidData K d) Species)
    (region : StoredRegion K d) (jobs : List (FrameTask × ℕ)) : List (FluidParticle K d) :=
  jobs.flatMap fun x =>
    ((List.finRange frameSize).filter fun slot => slot.val < x.1.numParticlesToCreate.toNat).map
      fun slot => fluidParticle (CreateParticlesInFrame.placed recipe x.1 x.2 slot region 0)

/-- What a block creates in its region `i`. -/
def initialRegion [Zero K] (frameSize : ℕ) (block : FluidBlock K d) (S : Species) (regionBegin i : ℕ)
    (volume : AABB K d) : ReferenceRegion K d where
  volume := volume
  particles := jobParticles frameSize ⟨0, block, initFluid⟩
    ⟨volume, {}, block.numParticlesToCreate i (StoredRegion.ofVolume volume)⟩
    (CreateParticlesInFrame.jobs (block.sliceTasks S frameSize regionBegin) (regionBegin + i))

/-- The regions of all blocks, in order. -/
def initialRegions [Zero K] (frameSize : ℕ) (blocks : List (FluidBlock K d)) (S : Species) :
    List (ReferenceRegion K d) :=
  (blocks.mapIdx fun k block => (block.addRegions S).mapIdx fun i volume =>
    initialRegion frameSize block S (blockStart (InitParticles.sliceSizes S blocks) k) i volume).flatten

/-- **What a setup fills in.** -/
def initialReference [Zero K] (frameSize : ℕ) (setup : FluidSetup K d) : ReferenceState K d := fun S =>
  if setup.targeting S = [] then none
  else some (initialRegions frameSize (setup.targeting S) S)

end Control
end Spearhed
