import Spearhed.Library.SharedMemory
import Spearhed.Particles.Interaction

/-!
# The interaction kernels as threads

`FrameInteractionKernel` and `UnifiedFrameInteractionKernel` of `ParticleParticleInteraction.hpp`,
with every read and write of particle memory.  A block is a thread on that memory: it loads the
registers of its own frame, stages neighbour frames in shared memory, sweeps over them, and stores
the accumulators of its live slots.  The regions, frame lists and neighbour lists are not written by
any of this and are arguments.

Which leaves of the record a functor gets to see is fixed by the sets it declares.  Arithmetic is
that of the axis type, whatever it is: nothing here adds in another order than the code does.
-/

namespace Spearhed
namespace Particles

open Library

/-! ## Particle memory -/

/-- The leaves of a particle record. -/
inductive Leaf (d : ℕ) (A : Type)
  | relativePos (t : Fin (d + 1))
  | multiMask
  | attribute (a : A)
  deriving DecidableEq

/-- The type of a leaf. -/
def Leaf.Value {d : ℕ} {A : Type} (K : Type) (V : A → Type) : Leaf d A → Type
  | .relativePos _ => K
  | .multiMask => UInt8
  | .attribute a => V a

/-- Where a leaf of a slot is stored. -/
structure FieldAddr (d : ℕ) (A : Type) (frameSize : ℕ) where
  frame : FramePtr
  slot : Fin frameSize
  leaf : Leaf d A
  deriving DecidableEq

/-- The type of what an address holds. -/
abbrev FieldAddr.Value {d : ℕ} {A : Type} {frameSize : ℕ} (K : Type) (V : A → Type)
    (a : FieldAddr d A frameSize) : Type :=
  a.leaf.Value K V

/-- The contents of all frames. -/
abbrev ParticleMemory (K : Type) (d : ℕ) (A : Type) (V : A → Type) (frameSize : ℕ) : Type :=
  ∀ a : FieldAddr d A frameSize, a.Value K V

/-- A thread on particle memory. -/
abbrev KernelThread (K : Type) (d : ℕ) (A : Type) (V : A → Type) (frameSize : ℕ) (α : Type) : Type :=
  Program (fun a : FieldAddr d A frameSize => a.Value K V) α

/-- `sub_record_from_set_t`: a value for each leaf of a set. -/
abbrev SubRecord {d : ℕ} {A : Type} (K : Type) (V : A → Type) (leaves : List (Leaf d A)) : Type :=
  ∀ l ∈ leaves, l.Value K V

variable {K : Type} {d : ℕ} {A : Type} {V : A → Type} {frameSize : ℕ} {α : Type}

/-- `Occupied` for the slot of a frame. -/
def ParticleMemory.occupied (m : ParticleMemory K d A V frameSize) (frame : FramePtr)
    (slot : Fin frameSize) : Bool :=
  let mask : UInt8 := m ⟨frame, slot, .multiMask⟩
  mask != 0

/-- The relative position of a slot. -/
def ParticleMemory.relativePos (m : ParticleMemory K d A V frameSize) (frame : FramePtr)
    (slot : Fin frameSize) : Vec K d :=
  fun t => m ⟨frame, slot, .relativePos t⟩

/-- The values of some leaves of a slot. -/
def ParticleMemory.fields (m : ParticleMemory K d A V frameSize) (frame : FramePtr)
    (slot : Fin frameSize) (leaves : List (Leaf d A)) : SubRecord K V leaves :=
  fun l _ => m ⟨frame, slot, l⟩

variable [DecidableEq A]

/-- A leaf of a slot is read. -/
def loadLeaf (frame : FramePtr) (slot : Fin frameSize) (l : Leaf d A) :
    KernelThread K d A V frameSize (l.Value K V) :=
  .read ⟨frame, slot, l⟩ .done

/-- A leaf of a slot is written. -/
def storeLeaf (frame : FramePtr) (slot : Fin frameSize) (l : Leaf d A) (v : l.Value K V) :
    KernelThread K d A V frameSize Unit :=
  .write ⟨frame, slot, l⟩ v (.done ())

/-- `pred::Occupied` on a slot. -/
def loadOccupied (frame : FramePtr) (slot : Fin frameSize) : KernelThread K d A V frameSize Bool := do
  let mask : UInt8 ← loadLeaf frame slot .multiMask
  pure (mask != 0)

/-- `particle[relativePos].get()`. -/
def loadPosition (frame : FramePtr) (slot : Fin frameSize) :
    KernelThread K d A V frameSize (Vec K d) := do
  let v ← Program.forEach (C := fun _ => K) (fun t => loadLeaf frame slot (.relativePos t))
    (List.finRange (d + 1))
  pure fun t => v t (List.mem_finRange t)

/-- A copy of some leaves of a slot. -/
def loadFields (frame : FramePtr) (slot : Fin frameSize) (leaves : List (Leaf d A)) :
    KernelThread K d A V frameSize (SubRecord K V leaves) :=
  Program.forEach (loadLeaf frame slot) leaves

/-- `copy_values` to some leaves of a slot. -/
def storeFields (frame : FramePtr) (slot : Fin frameSize) :
    (leaves : List (Leaf d A)) → SubRecord K V leaves → KernelThread K d A V frameSize Unit
  | [], _ => pure ()
  | l :: leaves, v => do
      storeLeaf frame slot l (v l List.mem_cons_self)
      storeFields frame slot leaves fun k hk => v k (List.mem_cons_of_mem l hk)

/-- `forEachSlot`: the slots of a frame, one after the other. -/
def forEachSlot (f : Fin frameSize → KernelThread K d A V frameSize α) :
    KernelThread K d A V frameSize (Fin frameSize → α) := do
  let v ← Program.forEach f (List.finRange frameSize)
  pure fun slot => v slot (List.mem_finRange slot)

/-! ## Functors -/

/-- A pair functor with what it declares.  `prepare` gives `Unit` where the functor has no such
hook; `stage` is a copy of `neighbourReads` where it has no `StagedRecord`. -/
structure InteractionFunctor (K : Type) (d : ℕ) (A : Type) (V : A → Type) where
  neighbourReads : List (Leaf d A)
  ownReads : List (Leaf d A)
  ownAccumulate : List (Leaf d A)
  Prepared : Type
  prepare : SubRecord K V ownReads → Prepared
  Staged : Type
  /-- The leaves that `stage` reads, in its order. -/
  stageReads : List (Leaf d A)
  stageReads_subset : ∀ l ∈ stageReads, l ∈ neighbourReads
  stage : SubRecord K V stageReads → Staged
  /-- `operator()`, which changes the accumulators. -/
  call : SubRecord K V ownReads → Prepared → Staged → PairContext K d →
    SubRecord K V ownAccumulate → SubRecord K V ownAccumulate

/-- `ownAccumulate` is disjoint from everything the pass reads of other particles, and from
`ownReads`. -/
structure InteractionFunctor.Isolated (fn : InteractionFunctor K d A V) : Prop where
  neighbourReads : ∀ l ∈ fn.ownAccumulate, l ∉ fn.neighbourReads
  ownReads : ∀ l ∈ fn.ownAccumulate, l ∉ fn.ownReads
  relativePos : ∀ t, .relativePos t ∉ fn.ownAccumulate
  multiMask : .multiMask ∉ fn.ownAccumulate

/-- A call of the functor for a slot: with which slot, and with which arguments. -/
structure PairRecord (fn : InteractionFunctor K d A V) (frameSize : ℕ) where
  source : Slot frameSize
  neighbour : fn.Staged
  ctx : PairContext K d

/-- The registers of a live slot, with the calls made so far. -/
structure OwnRegisters (fn : InteractionFunctor K d A V) (frameSize : ℕ) where
  ownRel : Vec K d
  ownReads : SubRecord K V fn.ownReads
  ownAcc : SubRecord K V fn.ownAccumulate
  prep : fn.Prepared
  calls : List (PairRecord fn frameSize)

/-- The registers of a frame; none for a dead slot. -/
abbrev FrameRegisters (fn : InteractionFunctor K d A V) (frameSize : ℕ) : Type :=
  Fin frameSize → Option (OwnRegisters fn frameSize)

/-- The functor is called. -/
def OwnRegisters.call {fn : InteractionFunctor K d A V} (regs : OwnRegisters fn frameSize)
    (pair : PairRecord fn frameSize) : OwnRegisters fn frameSize :=
  { regs with
    ownAcc := fn.call regs.ownReads regs.prep pair.neighbour pair.ctx regs.ownAcc
    calls := regs.calls ++ [pair] }

/-! ## The parts of a kernel -/

/-- What a launch passes to all blocks besides the buffers. -/
structure InteractionArgs (K : Type) (d : ℕ) (A : Type) (V : A → Type) where
  fn : InteractionFunctor K d A V
  interactionRadius : K
  limits : NumericLimits K
  rsqrt : K → K

namespace InteractionArgs

variable (I : InteractionArgs K d A V)

/-- `loadOwnRegisters`. -/
def loadOwnRegisters (ownFrame : FramePtr) :
    KernelThread K d A V frameSize (FrameRegisters I.fn frameSize) :=
  forEachSlot fun slot => do
    let valid ← loadOccupied ownFrame slot
    if valid then
      let ownReads ← loadFields ownFrame slot I.fn.ownReads
      let ownAcc ← loadFields ownFrame slot I.fn.ownAccumulate
      let ownRel ← loadPosition ownFrame slot
      pure (some ⟨ownRel, ownReads, ownAcc, I.fn.prepare ownReads, []⟩)
    else pure none

/-- `storeOwnAccumulators`. -/
def storeOwnAccumulators (ownFrame : FramePtr) (regs : FrameRegisters I.fn frameSize) :
    KernelThread K d A V frameSize Unit := do
  let _ ← forEachSlot fun slot =>
    match regs slot with
    | some own => storeFields ownFrame slot I.fn.ownAccumulate own.ownAcc
    | none => pure ()
  pure ()

variable [Zero K] [Add K] [Sub K] [Mul K] [Div K] [OfNat K 4] [LT K] [DecidableLT K]

/-- `sentinel`. -/
def sentinel : K := I.limits.max / 4

/-- `r2`, added up over the axes. -/
def squaredLength (rVec : Vec K d) : K :=
  (List.finRange (d + 1)).foldl (fun r2 t => r2 + rVec t * rVec t) 0

/-- The context of a pair at a distance vector. -/
def pairContext (rVec : Vec K d) (isSelf : Bool) : PairContext K d :=
  let r2 := squaredLength rVec
  let invR := if r2 > 0 then I.rsqrt r2 else 0
  let r := if r2 > 0 then r2 * invR else 0
  ⟨rVec, r2, r, invR, isSelf⟩

/-- Phase one of `interactWithNeighbourFrame`: a frame is staged. -/
def stageFrame (ownVolume neighbourVolume : AABB K d) (neighbourFrame : FramePtr)
    (smem : SmemCaches K d I.fn.Staged frameSize) :
    KernelThread K d A V frameSize (SmemCaches K d I.fn.Staged frameSize) := do
  let originShift : Vec K d := fun t => neighbourVolume.origin t - ownVolume.origin t
  let caches ← forEachSlot fun slot => do
    let valid ← loadOccupied neighbourFrame slot
    if valid then
      let staged ← loadFields neighbourFrame slot I.fn.stageReads
      let rel ← loadPosition neighbourFrame slot
      pure ((fun t => rel t + originShift t : Vec K d), I.fn.stage staged)
    else pure ((fun _ => I.sentinel : Vec K d), smem.nbCache slot)
  pure ⟨fun slot => (caches slot).1, fun slot => (caches slot).2⟩

/-- What one turn of the sweep calls the functor with, if it does. -/
def acceptedPair (ownFrame neighbourFrame : FramePtr) (smem : SmemCaches K d I.fn.Staged frameSize)
    (mySlot : Fin frameSize) (ownRel : Vec K d) (j : Fin frameSize) :
    Option (PairRecord I.fn frameSize) :=
  let rVec : Vec K d := fun t => ownRel t - smem.posCache j t
  if squaredLength rVec < I.interactionRadius * I.interactionRadius then
    let isSelf := ownFrame == neighbourFrame && j == mySlot
    some ⟨(neighbourFrame, j), smem.nbCache j, I.pairContext rVec isSelf⟩
  else none

/-- Phase two for one live slot: the sweep over all staged slots. -/
def sweepSlot (ownFrame neighbourFrame : FramePtr) (smem : SmemCaches K d I.fn.Staged frameSize)
    (mySlot : Fin frameSize) (own : OwnRegisters I.fn frameSize) : OwnRegisters I.fn frameSize :=
  (List.finRange frameSize).foldl (fun own j =>
    match I.acceptedPair ownFrame neighbourFrame smem mySlot own.ownRel j with
    | some pair => own.call pair
    | none => own) own

/-- `interactWithNeighbourFrame`. -/
def interactWithNeighbourFrame (ownVolume neighbourVolume : AABB K d)
    (ownFrame neighbourFrame : FramePtr) (smem : SmemCaches K d I.fn.Staged frameSize)
    (regs : FrameRegisters I.fn frameSize) :
    KernelThread K d A V frameSize
      (SmemCaches K d I.fn.Staged frameSize × FrameRegisters I.fn frameSize) := do
  let staged ← I.stageFrame ownVolume neighbourVolume neighbourFrame smem
  pure (staged, fun slot => (regs slot).map (I.sweepSlot ownFrame neighbourFrame staged slot))

/-- The loop over neighbour frames, each with its region. -/
def sweepFrames (ownVolume : AABB K d) (ownFrame : FramePtr) :
    List (ParticleRegion K d × FramePtr) →
      SmemCaches K d I.fn.Staged frameSize × FrameRegisters I.fn frameSize →
      KernelThread K d A V frameSize
        (SmemCaches K d I.fn.Staged frameSize × FrameRegisters I.fn frameSize)
  | [], state => pure state
  | (neighbourRegion, neighbourFrame) :: rest, (smem, regs) => do
      let state ← I.interactWithNeighbourFrame ownVolume neighbourRegion.volume ownFrame
        neighbourFrame smem regs
      sweepFrames ownVolume ownFrame rest state

end InteractionArgs

/-! ## The kernels -/

/-- What an index tells a launch with one block for every frame. -/
structure FrameLaunch (K : Type) (d : ℕ) where
  /-- `targetPRDeviceBox`. -/
  targetPR : List (ParticleRegion K d)
  framePtrs : ℕ → FramePtr
  regionIdx : ℕ → UInt32
  totalFrames : UInt32
  /-- No frame is listed twice. -/
  injective : ∀ b < totalFrames.toNat, ∀ b' < totalFrames.toNat,
    framePtrs b = framePtrs b' → b = b'

/-- The region of a block and its index, if the block does anything. -/
def FrameLaunch.ownRegion (launch : FrameLaunch K d) (blockIdx : ℕ) :
    Option (ℕ × ParticleRegion K d) :=
  if (blockIdx : ℤ) ≥ toInt launch.totalFrames then none
  else
    let rIdx := (toInt (launch.regionIdx blockIdx)).toNat
    launch.targetPR[rIdx]?.map fun region => (rIdx, region)

/-- `sourceView`. -/
structure SourceView (K : Type) (d : ℕ) where
  sourcePR : List (ParticleRegion K d)
  regionOffsets : ℕ → UInt32
  neighbourRegions : ℕ → UInt32

/-- The frames that a source view has for a target region. -/
def SourceView.visited (view : SourceView K d) (rIdx : ℕ) : List (ParticleRegion K d × FramePtr) :=
  visitedFrames view.sourcePR view.regionOffsets view.neighbourRegions rIdx

/-- The calls of a block, for every slot. -/
abbrev BlockCalls (fn : InteractionFunctor K d A V) (frameSize : ℕ) : Type :=
  Fin frameSize → List (PairRecord fn frameSize)

/-- The calls that the registers have recorded. -/
def FrameRegisters.blockCalls {fn : InteractionFunctor K d A V}
    (regs : FrameRegisters fn frameSize) : BlockCalls fn frameSize :=
  fun slot => match regs slot with
    | some own => own.calls
    | none => []

namespace InteractionArgs

variable (I : InteractionArgs K d A V)
variable [Zero K] [Add K] [Sub K] [Mul K] [Div K] [OfNat K 4] [LT K] [DecidableLT K]

/-- `FrameInteractionKernel`, with what shared memory holds at first. -/
def frameInteractionKernel (launch : FrameLaunch K d) (sourceView : SourceView K d)
    (smem : SmemCaches K d I.fn.Staged frameSize) (blockIdx : ℕ) :
    KernelThread K d A V frameSize (BlockCalls I.fn frameSize) :=
  match launch.ownRegion blockIdx with
  | some (rIdx, region) => do
      let ownFrame := launch.framePtrs blockIdx
      let regs ← I.loadOwnRegisters ownFrame
      let state ← I.sweepFrames region.volume ownFrame (sourceView.visited rIdx) (smem, regs)
      I.storeOwnAccumulators ownFrame state.2
      pure (FrameRegisters.blockCalls state.2)
  | none => pure fun _ => []

/-- `processSource` for one source after the other. -/
def processSources (ownVolume : AABB K d) (ownFrame : FramePtr) (rIdx : ℕ) :
    List (SourceView K d) →
      SmemCaches K d I.fn.Staged frameSize × FrameRegisters I.fn frameSize →
      KernelThread K d A V frameSize
        (SmemCaches K d I.fn.Staged frameSize × FrameRegisters I.fn frameSize)
  | [], state => pure state
  | sourceView :: rest, state => do
      let state ← I.sweepFrames ownVolume ownFrame (sourceView.visited rIdx) state
      processSources ownVolume ownFrame rIdx rest state

/-- `UnifiedFrameInteractionKernel`, with what shared memory holds at first. -/
def unifiedFrameInteractionKernel (launch : FrameLaunch K d) (sourceViewTuple : List (SourceView K d))
    (smem : SmemCaches K d I.fn.Staged frameSize) (blockIdx : ℕ) :
    KernelThread K d A V frameSize (BlockCalls I.fn frameSize) :=
  match launch.ownRegion blockIdx with
  | some (rIdx, region) => do
      let ownFrame := launch.framePtrs blockIdx
      let regs ← I.loadOwnRegisters ownFrame
      let state ← I.processSources region.volume ownFrame rIdx sourceViewTuple (smem, regs)
      I.storeOwnAccumulators ownFrame state.2
      pure (FrameRegisters.blockCalls state.2)
  | none => pure fun _ => []

end InteractionArgs

end Particles
end Spearhed
