import Spearhed.Control.SimulationState
import Spearhed.Particles.NeighbourRegions
import Spearhed.Particles.RegionBounds

/-!
# One time step

`Simulation::runOneStep`.  The stages run one after the other; inside of a stage everything runs
interleaved: the launches on several buffers, the blocks of a launch, the appends to a neighbour list.
Each stage is a relation between the states before and after it, and so is the step
(`RunOneStep`).

The frame indices of the movable species are refreshed first; the particles are pushed, the boxes of
the default species updated, and the neighbour lists built; then come density and forces, and at last
the integration.
-/

namespace Spearhed
namespace Control

open Library Particles Sph

variable {K : Type} {d frameSize : ℕ}

/-! ## Refreshing the indices -/

/-- The senders of a rebuild, one after the other. -/
def rebuild (regions : List (ParticleRegion K d)) (targetVersion : ℕ) (buffer : BufferId)
    (c : Choices) (idx : FrameIndexBuffer) : Option FrameIndexBuffer := do
  let idx := (idx.ensureRegionCapacity (max regions.length 1) c.allocated).count regions
  let idx ← idx.deviceToHost.scan regions.length c.allocatedPtrs c.allocatedIdx
  let idx ← idx.hostToDevice.fill regions c.ptrOrder c.idxOrder
  return idx.publish targetVersion buffer

/-- `refreshIfStaleSender`. -/
def RefreshIfStale (regions : List (ParticleRegion K d)) (targetVersion : ℕ) (buffer : BufferId)
    (idx idx' : FrameIndexBuffer) : Prop :=
  if idx.isFresh buffer targetVersion = true then idx' = idx
  else ∃ c, rebuild regions targetVersion buffer c idx = some idx'

/-- The test of `selectTimestepBuffers`. -/
def isTimestep (S : Species) : Bool := S.hasRole .Movable || S == .Default

namespace SimulationState

/-- The index of a species after the refresh. -/
def Refreshed (w : SimulationState K d frameSize) (S : Species) (idx : FrameIndexBuffer) : Prop :=
  match w.buffers S with
  | none => idx = w.frameIndices S
  | some B =>
    if isTimestep S = true then
      RefreshIfStale (w.regions S) B.topologyVersion (bufferId S) (w.frameIndices S) idx
    else idx = w.frameIndices S

/-- The stage `refresh`. -/
def Refresh (w w' : SimulationState K d frameSize) : Prop :=
  ∃ frameIndices, (∀ S, w.Refreshed S (frameIndices S)) ∧ w' = { w with frameIndices }

/-! ## Launches -/

/-- A launch is given a buffer and its index. -/
structure IsLaunch (w : SimulationState K d frameSize) (S : Species) (launch : FrameLaunch K d) :
    Prop where
  targetPR : launch.targetPR = w.regions S
  framePtrs : (w.frameIndices S).framePtrs = some launch.framePtrs
  regionIdx : (w.frameIndices S).regionIdxPerFrame = some launch.regionIdx
  totalFrames : launch.totalFrames = (w.frameIndices S).totalFrames

/-- `launchForEach` on all buffers with some roles, together. -/
def LaunchForEach [Field K] (w : SimulationState K d frameSize) (roles : List Role)
    (body : ParticleBody K d (FluidAttribute d) (fun _ => K) frameSize)
    (m' : FluidMemory K d frameSize) : Prop :=
  ∃ launch : {S // w.selects roles S = true} → FrameLaunch K d, (∀ S, w.IsLaunch S.1 (launch S)) ∧
    ∃ results, Program.Runs (launchTogether launch fun _ => body) w.memory results m'

end SimulationState

/-! ## Boxes and neighbour lists -/

/-- `region.volume = …`, for every region. -/
def setVolumes (stored : List (StoredRegion K d)) (regions : List (ParticleRegion K d)) :
    List (StoredRegion K d) :=
  List.zipWith (fun r region => { r with volume := region.volume }) stored regions

/-- What a step is run with.  Blocks have a power of two of workers; the exponents are those of the
kernels for the boxes and the neighbour lists. -/
structure RunArgs (K : Type) extends StepArgs K where
  volumeWorkers : ℕ
  neighbourWorkers : ℕ

section Stages

variable [Field K] [LinearOrder K]

/-- `calculateNeighbourEntrySender`: a view of the source with the lists that its two kernels leave. -/
def CalculateNeighbourEntry (numWorkers : ℕ) (targetPR sourcePR : List (ParticleRegion K d))
    (smoothingLength : K) (view : SourceView K d) : Prop :=
  ∃ memory s, ((writePass numWorkers targetPR sourcePR smoothingLength).system memory).Reachable s ∧
    ((writePass numWorkers targetPR sourcePR smoothingLength).system memory).Terminal s ∧
    view = ⟨sourcePR, (regionOffsets numWorkers targetPR sourcePR smoothingLength).1, s.memory⟩

/-- The search ends. -/
theorem exists_calculateNeighbourEntry (numWorkers : ℕ) (targetPR sourcePR : List (ParticleRegion K d))
    (smoothingLength : K) : ∃ view, CalculateNeighbourEntry numWorkers targetPR sourcePR
      smoothingLength view := by
  obtain ⟨s, hrun, ht⟩ := (SharedCursor.terminating (.init rfl) :
    ((writePass numWorkers targetPR sourcePR smoothingLength).system fun _ => 0).Terminating
      _).exists_terminal
  exact ⟨_, fun _ => 0, s, .trans (.init rfl) hrun, ht, rfl⟩

namespace RunArgs

variable (args : RunArgs K)

/-- `UpdateVolumes` for the default species. -/
def UpdateVolumes (w w' : SimulationState K d frameSize) : Prop :=
  ∃ B order, w.buffers .Default = some B ∧ order.Perm (regionVisits B.size) ∧
    w' = { w with
      buffers := Function.update w.buffers .Default (some { B with
        device := setVolumes B.device (updateVolumes args.limits w.heap (2 ^ args.volumeWorkers)
          order (w.regions .Default)) }) }

/-- `calculateNeighboursSender` for the default species, and the views of the sources in it. -/
def CalculateNeighbours (w : SimulationState K d frameSize) (bundle : List (SourceView K d)) : Prop :=
  ∃ entry : Species → SourceView K d,
    (∀ S, w.selects [.Source] S = true → CalculateNeighbourEntry (2 ^ args.neighbourWorkers)
      (w.regions .Default) (w.regions S) args.radius (entry S)) ∧
    bundle = (Species.all.filter (w.selects [.Source])).map entry

/-- **`runOneStep`**. -/
def RunOneStep (w w' : SimulationState K d frameSize) : Prop :=
  (w.buffers .Default).isSome = true ∧ ∃ w₁ m₁ w₂ bundle launch m₂ m₃ m₄,
    w.Refresh w₁ ∧
    w₁.LaunchForEach [.Movable] (pushVelocity args.dt frameSize) m₁ ∧
    args.UpdateVolumes (w₁.store m₁) w₂ ∧
    args.CalculateNeighbours w₂ bundle ∧
    w₂.IsLaunch .Default launch ∧
    args.UpdateDensity launch bundle w₂.memory m₂ ∧
    args.UpdateHydroForces launch bundle m₂ m₃ ∧
    (w₂.store m₃).LaunchForEach [.Movable, .Thermodynamic] (eulerIntegrate args.dt frameSize) m₄ ∧
    w' = (w₂.store m₃).store m₄

end RunArgs

end Stages

end Control
end Spearhed
