import Spearhed.Particles.InteractParticles

/-!
# An interaction pass and its schedule

The blocks of a launch run in any order, and what they read and write interleaves.  For a functor
whose accumulators are isolated, every execution ends, all executions end with one memory, and that
memory is new in the accumulators of live target slots only (`ScheduleIndependent`).

What a block finds in shared memory is left there by others.  With given contents this changes
nothing.  With the contents that an order of the blocks leaves it does, for a live particle at the
sentinel (`frameRuns_depend_on_order`), and for no other.
-/

namespace Spearhed
namespace Particles

open Library

variable {K : Type} {d : ℕ} {A : Type} {V : A → Type} {frameSize : ℕ} [DecidableEq A]

namespace InteractionArgs

/-- **Every execution of a launch ends, and ends with `m'`.**  Only accumulators of live target slots
are new in it. -/
structure EndsWith (I : InteractionArgs K d A V) (launch : FrameLaunch K d)
    (kernel : Fin launch.totalFrames.toNat →
      KernelThread K d A V frameSize (BlockCalls I.fn frameSize))
    (m m' : ParticleMemory K d A V frameSize) : Prop where
  terminating : ∀ s, (Program.system kernel m).Reachable s →
    (Program.system kernel m).Terminating s
  final : ∀ s, (Program.system kernel m).Reachable s → (Program.system kernel m).Terminal s →
    (∀ b, ∃ calls, s.programs b = .done calls) ∧ s.memory = m'
  touched : ∀ a, m' a ≠ m a → a.leaf ∈ I.fn.ownAccumulate ∧ m.occupied a.frame a.slot = true ∧
    ∃ b : Fin launch.totalFrames.toNat, launch.ownRegion b ≠ none ∧ a.frame = launch.framePtrs b

section EndsWith

variable {I : InteractionArgs K d A V} {launch : FrameLaunch K d}
  {pairs : ℕ → ℕ → ParticleRegion K d → BlockCalls I.fn frameSize}
  {kernel : Fin launch.totalFrames.toNat →
    KernelThread K d A V frameSize (BlockCalls I.fn frameSize)}
  {calls : Fin launch.totalFrames.toNat → BlockCalls I.fn frameSize}
  {m m' : ParticleMemory K d A V frameSize}

omit [DecidableEq A] in
/-- What differs after a pass is an accumulator of a live target slot. -/
theorem PassResult.touched (h : I.PassResult launch pairs m calls m')
    {a : FieldAddr d A frameSize} (ha : m' a ≠ m a) :
    a.leaf ∈ I.fn.ownAccumulate ∧ m.occupied a.frame a.slot = true ∧
      ∃ b : Fin launch.totalFrames.toNat, launch.ownRegion b ≠ none ∧
        a.frame = launch.framePtrs b := by
  by_contra hno
  refine ha (h.kept a fun b hregion hframe hocc hacc => hno ?_)
  exact ⟨hacc, hocc, b, hregion, hframe⟩

/-- Where all runs of independent blocks have the result of the same pairs, they end alike. -/
theorem endsWith_of_passResult
    (hwithin : ∀ b, (kernel b).Within (I.fn.blockReads (launch.framePtrs b))
      (I.fn.blockWrites (launch.framePtrs b)))
    (hruns : ∀ calls m', Program.Runs kernel m calls m' → I.PassResult launch pairs m calls m')
    (h : I.PassResult launch pairs m calls m') : I.EndsWith launch kernel m m' := by
  have hindep := independent_of_within hwithin
  refine ⟨fun s hs => hindep.terminating hs, fun s hs ht => ?_, fun a ha => h.touched ha⟩
  have hdone := (hindep.terminal hs ht).1
  have hrun : Program.Runs kernel m (fun b => ((kernel b).exec m).1) s.memory :=
    ⟨s, hs, ht, hdone, rfl⟩
  exact ⟨fun b => ⟨_, hdone b⟩, ((hruns _ _ hrun).unique h).2⟩

end EndsWith

variable [Zero K] [Add K] [Sub K] [Mul K] [Div K] [OfNat K 4] [LT K] [DecidableLT K]

/-- **Both kernels end alike in every execution**: for given contents of shared memory, and for all
contents where no live target particle is near the sentinel. -/
structure ScheduleIndependent (I : InteractionArgs K d A V) (launch : FrameLaunch K d)
    (m : ParticleMemory K d A V frameSize) : Prop where
  frame : ∀ (view : SourceView K d) (smem : ℕ → SmemCaches K d I.fn.Staged frameSize),
    ∃ m', I.EndsWith launch (fun b => I.frameInteractionKernel launch view (smem b) b) m m'
  unified : ∀ (views : List (SourceView K d)) (smem : ℕ → SmemCaches K d I.fn.Staged frameSize),
    ∃ m', I.EndsWith launch (fun b => I.unifiedFrameInteractionKernel launch views (smem b) b) m m'
  frame_of_culls : I.CullsSentinel launch m → ∀ view : SourceView K d,
    ∃ m', ∀ smem : ℕ → SmemCaches K d I.fn.Staged frameSize,
      I.EndsWith launch (fun b => I.frameInteractionKernel launch view (smem b) b) m m'
  unified_of_culls : I.CullsSentinel launch m → ∀ views : List (SourceView K d),
    ∃ m', ∀ smem : ℕ → SmemCaches K d I.fn.Staged frameSize,
      I.EndsWith launch (fun b => I.unifiedFrameInteractionKernel launch views (smem b) b) m m'

/-- **Isolated functors give passes without a schedule.** -/
theorem scheduleIndependent_of_isolated {I : InteractionArgs K d A V} (hfn : I.fn.Isolated)
    (launch : FrameLaunch K d) (m : ParticleMemory K d A V frameSize) :
    I.ScheduleIndependent launch m where
  frame := fun view smem => by
    obtain ⟨calls, m', h⟩ := exists_frameRuns launch m hfn view smem
    exact ⟨m', endsWith_of_passResult (fun _ => frameInteractionKernel_within hfn _ _ _)
      (fun _ _ => passResult_of_frameRuns hfn) (passResult_of_frameRuns hfn h)⟩
  unified := fun views smem => by
    obtain ⟨calls, m', h⟩ := exists_unifiedFrameRuns launch views m hfn smem
    exact ⟨m', endsWith_of_passResult (fun _ => unifiedFrameInteractionKernel_within hfn _ _ _)
      (fun _ _ => passResult_of_unifiedFrameRuns hfn) (passResult_of_unifiedFrameRuns hfn h)⟩
  frame_of_culls := fun hcull view => by
    -- without any contents of shared memory there is nothing to show
    rcases isEmpty_or_nonempty (ℕ → SmemCaches K d I.fn.Staged frameSize) with hempty | ⟨⟨smem⟩⟩
    · exact ⟨m, fun smem => (hempty.false smem).elim⟩
    · obtain ⟨calls, m', h⟩ := exists_frameRuns launch m hfn view smem
      exact ⟨m', fun _ => endsWith_of_passResult (fun _ => frameInteractionKernel_within hfn _ _ _)
        (fun _ _ h => (passResult_of_frameRuns hfn h).live hcull)
        ((passResult_of_frameRuns hfn h).live hcull)⟩
  unified_of_culls := fun hcull views => by
    rcases isEmpty_or_nonempty (ℕ → SmemCaches K d I.fn.Staged frameSize) with hempty | ⟨⟨smem⟩⟩
    · exact ⟨m, fun smem => (hempty.false smem).elim⟩
    · obtain ⟨calls, m', h⟩ := exists_unifiedFrameRuns launch views m hfn smem
      exact ⟨m', fun _ => endsWith_of_passResult
        (fun _ => unifiedFrameInteractionKernel_within hfn _ _ _)
        (fun _ _ h => (passResult_of_unifiedFrameRuns hfn h).live hcull)
        ((passResult_of_unifiedFrameRuns hfn h).live hcull)⟩

/-! ## What an order leaves in shared memory -/

variable (I : InteractionArgs K d A V)

/-- What a block leaves in shared memory.  Staging reads no accumulator, so `m` may be the memory
before or after other blocks. -/
def leftoverCaches (launch : FrameLaunch K d) (view : SourceView K d)
    (m : ParticleMemory K d A V frameSize) (smem : SmemCaches K d I.fn.Staged frameSize) (b : ℕ) :
    SmemCaches K d I.fn.Staged frameSize :=
  match launch.ownRegion b with
  | some (rIdx, region) => I.sweptCaches m region.volume (view.visited rIdx) smem
  | none => smem

/-- What a block finds in shared memory where blocks run one after the other in an order. -/
def serialCaches (launch : FrameLaunch K d) (view : SourceView K d)
    (m : ParticleMemory K d A V frameSize) :
    List ℕ → SmemCaches K d I.fn.Staged frameSize → ℕ → SmemCaches K d I.fn.Staged frameSize
  | [], smem, _ => smem
  | b :: order, smem, b' =>
    if b' = b then smem
    else serialCaches launch view m order (I.leftoverCaches launch view m smem b) b'

end InteractionArgs

/-! ## A live particle at the sentinel, and its order -/

/-- One region with frames 0 and 1. -/
def orderedRegions : List (ParticleRegion ℤ 0) := [⟨⟨fun _ => 0, fun _ => 0, fun _ => 0⟩, [0, 1]⟩]

/-- One block for each of the frames. -/
def orderedLaunch : FrameLaunch ℤ 0 where
  targetPR := orderedRegions
  framePtrs := fun b => b
  regionIdx := fun _ => 0
  totalFrames := 2
  injective := fun _ _ _ _ h => h

/-- The buffer as its own source. -/
def orderedView : SourceView ℤ 0 where
  sourcePR := orderedRegions
  regionOffsets := fun i => if i = 0 then 0 else 1
  neighbourRegions := fun _ => 0

/-- Frame 0 is dead, frame 1 is live and at the sentinel. -/
def orderedMemory : ParticleMemory ℤ 0 Bool (fun _ => ℤ) 1 := fun a => match a with
  | ⟨_, _, .relativePos _⟩ => (100 : ℤ)
  | ⟨frame, _, .multiMask⟩ => (if frame = 1 then 1 else 0 : UInt8)
  | ⟨_, _, .attribute b⟩ => (if b then 7 else 0 : ℤ)

/-- The dead slot and the live one are both added up. -/
theorem orderedMemory_stored {smem : ℕ → SmemCaches ℤ 0 sentinelArgs.fn.Staged 1}
    {calls : Fin orderedLaunch.totalFrames.toNat → BlockCalls sentinelArgs.fn 1}
    {m' : ParticleMemory ℤ 0 Bool (fun _ => ℤ) 1}
    (h : sentinelArgs.PassResult orderedLaunch (sentinelArgs.passPairs orderedLaunch
      [orderedView] smem orderedMemory) orderedMemory calls m') :
    m' ⟨1, 0, .attribute false⟩ = (0 + (show ℤ from (smem 1).nbCache 0) + 7 : ℤ) := by
  obtain ⟨hcalls, hstored⟩ := h.stored ⟨1, by decide⟩ 0 _ rfl 0 rfl
  refine (hstored (.attribute false) List.mem_cons_self).trans ?_
  rw [hcalls]
  rfl

/-- **The order shows at the sentinel.**  Block 1 finds in shared memory what block 0 has left there,
if block 0 ran before it. -/
theorem frameRuns_depend_on_order : sentinelArgs.fn.Isolated ∧
    orderedView.sourcePR = orderedLaunch.targetPR ∧
    ∃ (calls calls' : Fin orderedLaunch.totalFrames.toNat → BlockCalls sentinelArgs.fn 1)
      (m m' : ParticleMemory ℤ 0 Bool (fun _ => ℤ) 1),
      Program.Runs (fun b : Fin orderedLaunch.totalFrames.toNat =>
        sentinelArgs.frameInteractionKernel orderedLaunch orderedView
          (sentinelArgs.serialCaches orderedLaunch orderedView orderedMemory [0, 1] (leftCaches 0 0)
            b) b)
        orderedMemory calls m ∧
      Program.Runs (fun b : Fin orderedLaunch.totalFrames.toNat =>
        sentinelArgs.frameInteractionKernel orderedLaunch orderedView
          (sentinelArgs.serialCaches orderedLaunch orderedView orderedMemory [1, 0] (leftCaches 0 0)
            b) b)
        orderedMemory calls' m' ∧
      m ≠ m' := by
  have hfn : sentinelArgs.fn.Isolated := sumFunctor_isolated
  refine ⟨hfn, rfl, ?_⟩
  obtain ⟨calls, m, hruns⟩ := InteractionArgs.exists_frameRuns orderedLaunch orderedMemory hfn
    orderedView (sentinelArgs.serialCaches orderedLaunch orderedView orderedMemory [0, 1]
      (leftCaches 0 0))
  obtain ⟨calls', m', hruns'⟩ := InteractionArgs.exists_frameRuns orderedLaunch orderedMemory hfn
    orderedView (sentinelArgs.serialCaches orderedLaunch orderedView orderedMemory [1, 0]
      (leftCaches 0 0))
  have hm : m ⟨1, 0, .attribute false⟩ = (0 + 7 + 7 : ℤ) :=
    orderedMemory_stored (InteractionArgs.passResult_of_frameRuns hfn hruns)
  have hm' : m' ⟨1, 0, .attribute false⟩ = (0 + 0 + 7 : ℤ) :=
    orderedMemory_stored (InteractionArgs.passResult_of_frameRuns hfn hruns')
  have hne : (0 + 7 + 7 : ℤ) ≠ 0 + 0 + 7 := by decide
  exact ⟨calls, calls', m, m', hruns, hruns',
    fun heq => hne (hm.symm.trans ((congrFun heq _).trans hm'))⟩

end Particles
end Spearhed
