import Spearhed.Particles.InteractionKernel

/-!
# What an interaction pass does to particle memory

The blocks of a pass read everything but the accumulators of other frames and write the accumulators
of their own (`frameInteractionKernel_within`), so they are independent threads: whatever the
interleaving, each does what it does alone.  Alone, a block folds the functor over the pairs of each
live slot (`exec_frameInteractionKernel`).

`PassResult` says what a pass leaves behind; it determines the memory (`PassResult.unique`).
-/

namespace Spearhed
namespace Particles

open Library

variable {K : Type} {d : ℕ} {A : Type} {V : A → Type} {frameSize : ℕ} {α : Type}
  [DecidableEq A] {m m' : ParticleMemory K d A V frameSize}

/-! ## Footprints -/

/-- What a block may read: all but the accumulators of other frames. -/
def InteractionFunctor.blockReads (fn : InteractionFunctor K d A V) (ownFrame : FramePtr) :
    Set (FieldAddr d A frameSize) :=
  fun a => a.frame = ownFrame ∨ a.leaf ∉ fn.ownAccumulate

/-- What a block may write: the accumulators of its frame. -/
def InteractionFunctor.blockWrites (fn : InteractionFunctor K d A V) (ownFrame : FramePtr) :
    Set (FieldAddr d A frameSize) :=
  fun a => a.frame = ownFrame ∧ a.leaf ∈ fn.ownAccumulate

section Footprints

variable {R W : Set (FieldAddr d A frameSize)} {frame : FramePtr}

omit [DecidableEq A] in
theorem loadLeaf_within {slot : Fin frameSize} {l : Leaf d A}
    (h : (⟨frame, slot, l⟩ : FieldAddr d A frameSize) ∈ R) :
    (loadLeaf frame slot l : KernelThread K d A V frameSize (l.Value K V)).Within R W :=
  ⟨h, fun _ => trivial⟩

omit [DecidableEq A] in
theorem loadOccupied_within {slot : Fin frameSize}
    (h : (⟨frame, slot, .multiMask⟩ : FieldAddr d A frameSize) ∈ R) :
    (loadOccupied frame slot : KernelThread K d A V frameSize Bool).Within R W :=
  (loadLeaf_within h).bind fun _ => .pure _

omit [DecidableEq A] in
theorem loadPosition_within {slot : Fin frameSize}
    (h : ∀ t, (⟨frame, slot, .relativePos t⟩ : FieldAddr d A frameSize) ∈ R) :
    (loadPosition frame slot : KernelThread K d A V frameSize (Vec K d)).Within R W :=
  (Program.Within.forEach fun t _ => loadLeaf_within (h t)).bind fun _ => .pure _

theorem loadFields_within {slot : Fin frameSize} {leaves : List (Leaf d A)}
    (h : ∀ l ∈ leaves, (⟨frame, slot, l⟩ : FieldAddr d A frameSize) ∈ R) :
    (loadFields frame slot leaves :
      KernelThread K d A V frameSize (SubRecord K V leaves)).Within R W :=
  Program.Within.forEach fun l hl => loadLeaf_within (h l hl)

omit [DecidableEq A] in
theorem storeFields_within {slot : Fin frameSize} {leaves : List (Leaf d A)}
    (h : ∀ l ∈ leaves, (⟨frame, slot, l⟩ : FieldAddr d A frameSize) ∈ W)
    (v : SubRecord K V leaves) : (storeFields frame slot leaves v).Within R W := by
  induction leaves with
  | nil => exact .pure _
  | cons l leaves ih =>
    have hstore : (storeLeaf frame slot l (v l List.mem_cons_self)).Within R W :=
      ⟨h l List.mem_cons_self, trivial⟩
    exact hstore.bind fun _ => ih (fun k hk => h k (List.mem_cons_of_mem l hk)) _

omit [DecidableEq A] in
theorem forEachSlot_within {f : Fin frameSize → KernelThread K d A V frameSize α}
    (h : ∀ slot, (f slot).Within R W) : (forEachSlot f).Within R W :=
  (Program.Within.forEach fun slot _ => h slot).bind fun _ => .pure _

end Footprints

namespace InteractionArgs

variable {I : InteractionArgs K d A V} {ownFrame : FramePtr}

theorem loadOwnRegisters_within {W : Set (FieldAddr d A frameSize)} :
    (I.loadOwnRegisters ownFrame).Within (I.fn.blockReads ownFrame) W := by
  refine forEachSlot_within fun slot => (loadOccupied_within (Or.inl rfl)).bind fun valid => ?_
  cases valid with
  | false => exact .pure _
  | true =>
    exact (loadFields_within fun _ _ => Or.inl rfl).bind fun _ =>
      (loadFields_within fun _ _ => Or.inl rfl).bind fun _ =>
        (loadPosition_within fun _ => Or.inl rfl).bind fun _ => .pure _

omit [DecidableEq A] in
theorem storeOwnAccumulators_within {R : Set (FieldAddr d A frameSize)}
    (regs : FrameRegisters I.fn frameSize) :
    (I.storeOwnAccumulators ownFrame regs).Within R (I.fn.blockWrites ownFrame) := by
  refine (forEachSlot_within fun slot => ?_).bind fun _ => .pure _
  cases regs slot with
  | none => exact .pure _
  | some own => exact storeFields_within (fun l hl => And.intro rfl hl) _

omit [DecidableEq A] in
/-- **Blocks are independent.**  They have different frames, and no block looks at the accumulators
of another one's. -/
theorem independent_of_within {launch : FrameLaunch K d}
    {kernel : Fin launch.totalFrames.toNat → KernelThread K d A V frameSize α}
    (h : ∀ b, (kernel b).Within (I.fn.blockReads (launch.framePtrs b))
      (I.fn.blockWrites (launch.framePtrs b))) :
    Program.Independent kernel (fun b => I.fn.blockReads (launch.framePtrs b))
      (fun b => I.fn.blockWrites (launch.framePtrs b)) := by
  refine ⟨h, fun b b' hne a ha => ?_⟩
  have hframes : a.frame ≠ launch.framePtrs b' := fun heq =>
    hne (Fin.ext (launch.injective b b.isLt b' b'.isLt (ha.1.symm.trans heq)))
  rintro ((heq | hacc) | hwrite)
  · exact hframes heq
  · exact hacc ha.2
  · exact hframes hwrite.1

variable [Zero K] [Add K] [Sub K] [Mul K] [Div K] [OfNat K 4] [LT K] [DecidableLT K]

omit [Zero K] [Mul K] [LT K] [DecidableLT K] in
/-- **Staging reads no accumulator.**  This is where `ownAccumulate` has to be disjoint from what
the pass reads of neighbours. -/
theorem stageFrame_within (hfn : I.fn.Isolated) {W : Set (FieldAddr d A frameSize)}
    {ownVolume neighbourVolume : AABB K d} {neighbourFrame : FramePtr}
    {smem : SmemCaches K d I.fn.Staged frameSize} :
    (I.stageFrame ownVolume neighbourVolume neighbourFrame smem).Within
      (I.fn.blockReads ownFrame) W := by
  refine (forEachSlot_within fun slot => ?_).bind fun _ => .pure _
  refine (loadOccupied_within (Or.inr hfn.multiMask)).bind fun valid => ?_
  cases valid with
  | false => exact .pure _
  | true =>
    refine (loadFields_within fun l hl => Or.inr fun hacc => ?_).bind fun _ =>
      (loadPosition_within fun t => Or.inr (hfn.relativePos t)).bind fun _ => .pure _
    exact hfn.neighbourReads l hacc (I.fn.stageReads_subset l hl)

theorem sweepFrames_within (hfn : I.fn.Isolated) {W : Set (FieldAddr d A frameSize)}
    {ownVolume : AABB K d} (frames : List (ParticleRegion K d × FramePtr))
    (state : SmemCaches K d I.fn.Staged frameSize × FrameRegisters I.fn frameSize) :
    (I.sweepFrames ownVolume ownFrame frames state).Within (I.fn.blockReads ownFrame) W := by
  induction frames generalizing state with
  | nil => exact .pure _
  | cons y rest ih =>
    exact ((stageFrame_within hfn).bind fun _ => .pure _).bind fun state => ih state

theorem processSources_within (hfn : I.fn.Isolated) {W : Set (FieldAddr d A frameSize)}
    {ownVolume : AABB K d} {rIdx : ℕ} (views : List (SourceView K d))
    (state : SmemCaches K d I.fn.Staged frameSize × FrameRegisters I.fn frameSize) :
    (I.processSources ownVolume ownFrame rIdx views state).Within (I.fn.blockReads ownFrame) W := by
  induction views generalizing state with
  | nil => exact .pure _
  | cons view views ih => exact (sweepFrames_within hfn _ _).bind fun state => ih state

variable {launch : FrameLaunch K d}

/-- **What a block reads and writes.** -/
theorem frameInteractionKernel_within (hfn : I.fn.Isolated) (view : SourceView K d)
    (smem : SmemCaches K d I.fn.Staged frameSize) (b : ℕ) :
    (I.frameInteractionKernel launch view smem b).Within (I.fn.blockReads (launch.framePtrs b))
      (I.fn.blockWrites (launch.framePtrs b)) := by
  rw [frameInteractionKernel]
  split
  · exact loadOwnRegisters_within.bind fun _ => (sweepFrames_within hfn _ _).bind fun _ =>
      (storeOwnAccumulators_within _).bind fun _ => .pure _
  · exact .pure _

theorem unifiedFrameInteractionKernel_within (hfn : I.fn.Isolated) (views : List (SourceView K d))
    (smem : SmemCaches K d I.fn.Staged frameSize) (b : ℕ) :
    (I.unifiedFrameInteractionKernel launch views smem b).Within
      (I.fn.blockReads (launch.framePtrs b)) (I.fn.blockWrites (launch.framePtrs b)) := by
  rw [unifiedFrameInteractionKernel]
  split
  · exact loadOwnRegisters_within.bind fun _ => (processSources_within hfn _ _).bind fun _ =>
      (storeOwnAccumulators_within _).bind fun _ => .pure _
  · exact .pure _

end InteractionArgs

/-! ## What the parts do alone -/

section Exec

variable {frame : FramePtr}

@[simp] theorem exec_loadOccupied (slot : Fin frameSize) :
    (loadOccupied frame slot : KernelThread K d A V frameSize Bool).exec m =
      (m.occupied frame slot, m) := rfl

/-- A loop over the slots of threads that write nothing. -/
theorem exec_forEachSlot {f : Fin frameSize → KernelThread K d A V frameSize α}
    (hf : ∀ slot, (f slot).Within Set.univ ∅) :
    (forEachSlot f).exec m = (fun slot => ((f slot).exec m).1, m) := by
  rw [forEachSlot, Program.exec_bind, Program.exec_forEach_of_empty fun slot _ => hf slot]
  rfl

@[simp] theorem exec_loadPosition (slot : Fin frameSize) :
    (loadPosition frame slot : KernelThread K d A V frameSize (Vec K d)).exec m =
      (m.relativePos frame slot, m) := by
  have h := Program.exec_forEach_of_empty (C := fun _ => K) (l := List.finRange (d + 1))
    (f := fun t => (loadLeaf frame slot (.relativePos t) : KernelThread K d A V frameSize K))
    (fun t _ => loadLeaf_within (Set.mem_univ _)) m
  have hfst := congrArg Prod.fst h
  have hsnd := congrArg Prod.snd h
  rw [loadPosition, Program.exec_bind, Program.exec_pure]
  exact Prod.ext (funext fun t => congrFun (congrFun hfst t) (List.mem_finRange t)) hsnd

@[simp] theorem exec_loadFields (slot : Fin frameSize) (leaves : List (Leaf d A)) :
    (loadFields frame slot leaves : KernelThread K d A V frameSize (SubRecord K V leaves)).exec m =
      (m.fields frame slot leaves, m) := by
  rw [loadFields, Program.exec_forEach_of_empty fun l _ => loadLeaf_within (Set.mem_univ _)]
  rfl

omit [DecidableEq A] in
theorem storeFields_within_self (slot : Fin frameSize) {leaves : List (Leaf d A)}
    (v : SubRecord K V leaves) : (storeFields frame slot leaves v).Within ∅
      {a | a.frame = frame ∧ a.slot = slot ∧ a.leaf ∈ leaves} :=
  storeFields_within (fun _ hl => And.intro rfl (And.intro rfl hl)) v

theorem exec_storeFields (slot : Fin frameSize) {leaves : List (Leaf d A)}
    (v : SubRecord K V leaves) (m : ParticleMemory K d A V frameSize) {l : Leaf d A}
    (hl : l ∈ leaves) : ((storeFields frame slot leaves v).exec m).2 ⟨frame, slot, l⟩ = v l hl := by
  induction leaves generalizing m with
  | nil => exact absurd hl List.not_mem_nil
  | cons k leaves ih =>
    rw [storeFields, Program.exec_bind]
    by_cases hmem : l ∈ leaves
    · exact ih _ _ hmem
    · obtain rfl : l = k := (List.mem_cons.mp hl).resolve_right hmem
      refine ((storeFields_within_self slot _).exec_of_notMem _ ?_).trans (Function.update_self _ _ _)
      exact fun h => hmem h.2.2

end Exec

/-- What the functor makes of the accumulators over some calls. -/
def InteractionFunctor.accumulate (fn : InteractionFunctor K d A V)
    (ownReads : SubRecord K V fn.ownReads) (ownAcc : SubRecord K V fn.ownAccumulate)
    (pairs : List (PairRecord fn frameSize)) : SubRecord K V fn.ownAccumulate :=
  pairs.foldl
    (fun acc pair => fn.call ownReads (fn.prepare ownReads) pair.neighbour pair.ctx acc) ownAcc

omit [DecidableEq A] in
/-- Calls change the accumulators only, and are recorded in order. -/
theorem OwnRegisters.foldl_call {fn : InteractionFunctor K d A V} (own : OwnRegisters fn frameSize)
    (pairs : List (PairRecord fn frameSize)) :
    pairs.foldl OwnRegisters.call own =
      { own with
        ownAcc := pairs.foldl
          (fun acc pair => fn.call own.ownReads own.prep pair.neighbour pair.ctx acc) own.ownAcc
        calls := own.calls ++ pairs } := by
  induction pairs generalizing own with
  | nil => rw [List.foldl_nil, List.foldl_nil, List.append_nil]
  | cons pair pairs ih =>
    rw [List.foldl_cons, ih, List.foldl_cons, OwnRegisters.call, List.append_assoc]
    rfl

namespace InteractionArgs

variable (I : InteractionArgs K d A V)

/-- The registers that a slot is loaded into. -/
def ownRegisters (m : ParticleMemory K d A V frameSize) (frame : FramePtr) (slot : Fin frameSize) :
    OwnRegisters I.fn frameSize :=
  ⟨m.relativePos frame slot, m.fields frame slot I.fn.ownReads,
    m.fields frame slot I.fn.ownAccumulate, I.fn.prepare (m.fields frame slot I.fn.ownReads), []⟩

theorem exec_loadOwnRegisters (m : ParticleMemory K d A V frameSize) (frame : FramePtr) :
    (I.loadOwnRegisters frame).exec m = (fun slot =>
      if m.occupied frame slot then some (I.ownRegisters m frame slot) else none, m) := by
  rw [loadOwnRegisters, exec_forEachSlot]
  · refine Prod.ext (funext fun slot => ?_) rfl
    dsimp only
    rw [Program.exec_bind, exec_loadOccupied]
    cases m.occupied frame slot with
    | false => rfl
    | true =>
      rw [if_pos rfl, if_pos rfl, Program.exec_bind, exec_loadFields, Program.exec_bind,
        exec_loadFields, Program.exec_bind, exec_loadPosition]
      rfl
  · refine fun slot => (loadOccupied_within (Set.mem_univ _)).bind fun valid => ?_
    cases valid with
    | false => exact .pure _
    | true =>
      exact (loadFields_within fun _ _ => Set.mem_univ _).bind fun _ =>
        (loadFields_within fun _ _ => Set.mem_univ _).bind fun _ =>
          (loadPosition_within fun _ => Set.mem_univ _).bind fun _ => .pure _

/-- **What a block stores**: the accumulators of the slots that have registers. -/
theorem exec_storeOwnAccumulators (m : ParticleMemory K d A V frameSize) (frame : FramePtr)
    (regs : FrameRegisters I.fn frameSize) {slot : Fin frameSize} {own : OwnRegisters I.fn frameSize}
    (hown : regs slot = some own) {l : Leaf d A} (hl : l ∈ I.fn.ownAccumulate) :
    ((I.storeOwnAccumulators frame regs).exec m).2 ⟨frame, slot, l⟩ = own.ownAcc l hl := by
  let W : Fin frameSize → Set (FieldAddr d A frameSize) := fun slot =>
    {a | a.frame = frame ∧ a.slot = slot ∧ a.leaf ∈ I.fn.ownAccumulate}
  have hW : ∀ i j, i ≠ j → ∀ a ∈ W i, a ∉ ∅ ∪ W j := fun i j hij a hi hj =>
    hij (hi.2.1.symm.trans (hj.resolve_left id).2.1)
  rw [storeOwnAccumulators, Program.exec_bind, Program.exec_pure, forEachSlot, Program.exec_bind,
    Program.exec_pure]
  refine (Program.exec_forEach_of_mem (R := fun _ => ∅) (W := W) (List.nodup_finRange _) (fun slot _ => ?_) hW m
    (List.mem_finRange slot) ⟨rfl, rfl, hl⟩).trans ?_
  · cases regs slot with
    | none => exact .pure _
    | some own => exact storeFields_within_self slot _
  · rw [hown]
    exact exec_storeFields slot _ m hl

/-- Slots without registers are left as they are. -/
theorem exec_storeOwnAccumulators_of_none (m : ParticleMemory K d A V frameSize) (frame : FramePtr)
    (regs : FrameRegisters I.fn frameSize) {slot : Fin frameSize} (hnone : regs slot = none)
    (l : Leaf d A) :
    ((I.storeOwnAccumulators frame regs).exec m).2 ⟨frame, slot, l⟩ = m ⟨frame, slot, l⟩ := by
  have hwithin : (I.storeOwnAccumulators frame regs).Within ∅
      {a | ∃ own, regs a.slot = some own} := by
    refine (forEachSlot_within fun slot' => ?_).bind fun _ => .pure _
    cases hown : regs slot' with
    | none => exact .pure _
    | some own =>
      refine (storeFields_within_self slot' _).mono subset_rfl fun a ha => Exists.intro own ?_
      rw [ha.2.1, hown]
  refine hwithin.exec_of_notMem m ?_
  rintro ⟨own, hown⟩
  rw [hnone] at hown
  cases hown

/-- The accumulators are the only difference. -/
def SameReads (I : InteractionArgs K d A V) (m m' : ParticleMemory K d A V frameSize) : Prop :=
  ∀ a : FieldAddr d A frameSize, a.leaf ∉ I.fn.ownAccumulate → m' a = m a

namespace SameReads

variable {I : InteractionArgs K d A V} (h : I.SameReads m m') (hfn : I.fn.Isolated)
include h hfn

omit [DecidableEq A] in
theorem occupied (frame : FramePtr) (slot : Fin frameSize) :
    m'.occupied frame slot = m.occupied frame slot := by
  have hmask : m' ⟨frame, slot, .multiMask⟩ = m ⟨frame, slot, .multiMask⟩ :=
    h ⟨frame, slot, .multiMask⟩ hfn.multiMask
  rw [ParticleMemory.occupied, ParticleMemory.occupied, hmask]

omit [DecidableEq A] in
theorem relativePos (frame : FramePtr) (slot : Fin frameSize) :
    m'.relativePos frame slot = m.relativePos frame slot :=
  funext fun t => h ⟨frame, slot, .relativePos t⟩ (hfn.relativePos t)

omit [DecidableEq A] in
theorem stageReads (frame : FramePtr) (slot : Fin frameSize) :
    m'.fields frame slot I.fn.stageReads = m.fields frame slot I.fn.stageReads :=
  funext fun l => funext fun hl => h ⟨frame, slot, l⟩ fun hacc =>
    hfn.neighbourReads l hacc (I.fn.stageReads_subset l hl)

omit [DecidableEq A] in
theorem ownReads (frame : FramePtr) (slot : Fin frameSize) :
    m'.fields frame slot I.fn.ownReads = m.fields frame slot I.fn.ownReads :=
  funext fun l => funext fun hl => h ⟨frame, slot, l⟩ fun hacc => hfn.ownReads l hacc hl

end SameReads

variable [Zero K] [Add K] [Sub K] [Mul K] [Div K] [OfNat K 4] [LT K] [DecidableLT K]

/-- The caches after staging a frame. -/
def stagedCaches (m : ParticleMemory K d A V frameSize) (ownVolume neighbourVolume : AABB K d)
    (neighbourFrame : FramePtr) (smem : SmemCaches K d I.fn.Staged frameSize) :
    SmemCaches K d I.fn.Staged frameSize where
  posCache := fun slot =>
    if m.occupied neighbourFrame slot then
      fun t => m.relativePos neighbourFrame slot t + (neighbourVolume.origin t - ownVolume.origin t)
    else fun _ => I.sentinel
  nbCache := fun slot =>
    if m.occupied neighbourFrame slot then
      I.fn.stage (m.fields neighbourFrame slot I.fn.stageReads)
    else smem.nbCache slot

omit [Zero K] [Mul K] [LT K] [DecidableLT K] in
theorem exec_stageFrame (m : ParticleMemory K d A V frameSize) (ownVolume neighbourVolume : AABB K d)
    (neighbourFrame : FramePtr) (smem : SmemCaches K d I.fn.Staged frameSize) :
    (I.stageFrame ownVolume neighbourVolume neighbourFrame smem).exec m =
      (I.stagedCaches m ownVolume neighbourVolume neighbourFrame smem, m) := by
  rw [stageFrame, Program.exec_bind, Program.exec_pure, exec_forEachSlot]
  · have hslot : ∀ slot, ((do
        let valid ← loadOccupied neighbourFrame slot
        if valid then
          let staged ← loadFields neighbourFrame slot I.fn.stageReads
          let rel ← loadPosition neighbourFrame slot
          pure ((fun t => rel t + (neighbourVolume.origin t - ownVolume.origin t) : Vec K d),
            I.fn.stage staged)
        else pure ((fun _ => I.sentinel : Vec K d), smem.nbCache slot) :
          KernelThread K d A V frameSize (Vec K d × I.fn.Staged)).exec m).1 =
        ((I.stagedCaches m ownVolume neighbourVolume neighbourFrame smem).posCache slot,
          (I.stagedCaches m ownVolume neighbourVolume neighbourFrame smem).nbCache slot) := by
      intro slot
      rw [Program.exec_bind, exec_loadOccupied, stagedCaches]
      dsimp only
      cases m.occupied neighbourFrame slot with
      | false => rfl
      | true =>
        rw [if_pos rfl, if_pos rfl, if_pos rfl, Program.exec_bind, exec_loadFields,
          Program.exec_bind, exec_loadPosition]
        rfl
    dsimp only
    simp only [hslot]
  · refine fun slot => (loadOccupied_within (Set.mem_univ _)).bind fun valid => ?_
    cases valid with
    | false => exact .pure _
    | true =>
      exact (loadFields_within fun _ _ => Set.mem_univ _).bind fun _ =>
        (loadPosition_within fun _ => Set.mem_univ _).bind fun _ => .pure _

/-- What the sweep of a slot over a staged frame calls the functor with. -/
def sweptPairs (ownFrame neighbourFrame : FramePtr) (smem : SmemCaches K d I.fn.Staged frameSize)
    (mySlot : Fin frameSize) (ownRel : Vec K d) : List (PairRecord I.fn frameSize) :=
  (List.finRange frameSize).filterMap
    (I.acceptedPair ownFrame neighbourFrame smem mySlot ownRel)

omit [DecidableEq A] [Div K] [OfNat K 4] in
theorem sweepSlot_eq (ownFrame neighbourFrame : FramePtr)
    (smem : SmemCaches K d I.fn.Staged frameSize) (mySlot : Fin frameSize)
    (own : OwnRegisters I.fn frameSize) :
    I.sweepSlot ownFrame neighbourFrame smem mySlot own =
      (I.sweptPairs ownFrame neighbourFrame smem mySlot own.ownRel).foldl OwnRegisters.call own := by
  rw [sweepSlot, sweptPairs]
  generalize List.finRange frameSize = slots
  induction slots generalizing own with
  | nil => rfl
  | cons j slots ih =>
    rw [List.foldl_cons]
    cases hpair : I.acceptedPair ownFrame neighbourFrame smem mySlot own.ownRel j with
    | none => rw [ih, List.filterMap_cons_none hpair]
    | some pair =>
      rw [ih, List.filterMap_cons_some hpair, List.foldl_cons]
      rfl

/-- What a live slot calls the functor with over some frames.  The caches go from one frame to the
next. -/
def sweptFramesPairs (m : ParticleMemory K d A V frameSize) (ownVolume : AABB K d)
    (ownFrame : FramePtr) (mySlot : Fin frameSize) (ownRel : Vec K d) :
    List (ParticleRegion K d × FramePtr) → SmemCaches K d I.fn.Staged frameSize →
      List (PairRecord I.fn frameSize)
  | [], _ => []
  | y :: rest, smem =>
    let staged := I.stagedCaches m ownVolume y.1.volume y.2 smem
    I.sweptPairs ownFrame y.2 staged mySlot ownRel ++
      sweptFramesPairs m ownVolume ownFrame mySlot ownRel rest staged

/-- What shared memory holds after some frames. -/
def sweptCaches (m : ParticleMemory K d A V frameSize) (ownVolume : AABB K d)
    (frames : List (ParticleRegion K d × FramePtr)) (smem : SmemCaches K d I.fn.Staged frameSize) :
    SmemCaches K d I.fn.Staged frameSize :=
  frames.foldl (fun smem y => I.stagedCaches m ownVolume y.1.volume y.2 smem) smem

/-- The registers after sweeping over some frames. -/
def sweptRegisters (m : ParticleMemory K d A V frameSize) (ownVolume : AABB K d)
    (ownFrame : FramePtr) (frames : List (ParticleRegion K d × FramePtr))
    (smem : SmemCaches K d I.fn.Staged frameSize) (regs : FrameRegisters I.fn frameSize) :
    FrameRegisters I.fn frameSize :=
  fun slot => (regs slot).map fun own =>
    (I.sweptFramesPairs m ownVolume ownFrame slot own.ownRel frames smem).foldl
      OwnRegisters.call own

omit [DecidableEq A] in
theorem sweptFramesPairs_append (m : ParticleMemory K d A V frameSize) (ownVolume : AABB K d)
    (ownFrame : FramePtr) (mySlot : Fin frameSize) (ownRel : Vec K d)
    (frames frames' : List (ParticleRegion K d × FramePtr))
    (smem : SmemCaches K d I.fn.Staged frameSize) :
    I.sweptFramesPairs m ownVolume ownFrame mySlot ownRel (frames ++ frames') smem =
      I.sweptFramesPairs m ownVolume ownFrame mySlot ownRel frames smem ++
        I.sweptFramesPairs m ownVolume ownFrame mySlot ownRel frames'
          (I.sweptCaches m ownVolume frames smem) := by
  induction frames generalizing smem with
  | nil => rfl
  | cons y rest ih =>
    rw [List.cons_append, sweptFramesPairs, sweptFramesPairs, ih, List.append_assoc]
    rfl

omit [DecidableEq A] in
theorem sweptRegisters_append (m : ParticleMemory K d A V frameSize) (ownVolume : AABB K d)
    (ownFrame : FramePtr) (frames frames' : List (ParticleRegion K d × FramePtr))
    (smem : SmemCaches K d I.fn.Staged frameSize) (regs : FrameRegisters I.fn frameSize) :
    I.sweptRegisters m ownVolume ownFrame (frames ++ frames') smem regs =
      I.sweptRegisters m ownVolume ownFrame frames' (I.sweptCaches m ownVolume frames smem)
        (I.sweptRegisters m ownVolume ownFrame frames smem regs) := by
  funext slot
  rw [sweptRegisters, sweptRegisters, sweptRegisters, Option.map_map]
  refine congrArg (fun f => (regs slot).map f) (funext fun own => ?_)
  rw [Function.comp_apply, sweptFramesPairs_append, List.foldl_append, OwnRegisters.foldl_call own]

theorem exec_sweepFrames (m : ParticleMemory K d A V frameSize) (ownVolume : AABB K d)
    (ownFrame : FramePtr) (frames : List (ParticleRegion K d × FramePtr))
    (smem : SmemCaches K d I.fn.Staged frameSize) (regs : FrameRegisters I.fn frameSize) :
    (I.sweepFrames ownVolume ownFrame frames (smem, regs)).exec m =
      ((I.sweptCaches m ownVolume frames smem,
        I.sweptRegisters m ownVolume ownFrame frames smem regs), m) := by
  induction frames generalizing smem regs with
  | nil =>
    have hregs : I.sweptRegisters m ownVolume ownFrame [] smem regs = regs := funext fun slot => by
      rw [sweptRegisters]
      cases regs slot <;> rfl
    rw [hregs]
    rfl
  | cons y rest ih =>
    have hone : I.sweptRegisters m ownVolume ownFrame [y] smem regs = fun slot =>
        (regs slot).map (I.sweepSlot ownFrame y.2
          (I.stagedCaches m ownVolume y.1.volume y.2 smem) slot) := by
      refine funext fun slot => congrArg (fun f => (regs slot).map f) (funext fun own => ?_)
      rw [sweepSlot_eq, sweptFramesPairs, sweptFramesPairs, List.append_nil]
    rw [sweepFrames, Program.exec_bind, interactWithNeighbourFrame, Program.exec_bind,
      exec_stageFrame, Program.exec_pure, ih, ← hone]
    have happend := I.sweptRegisters_append m ownVolume ownFrame [y] rest smem regs
    rw [List.singleton_append] at happend
    rw [happend]
    rfl

theorem exec_processSources (m : ParticleMemory K d A V frameSize) (ownVolume : AABB K d)
    (ownFrame : FramePtr) (rIdx : ℕ) (views : List (SourceView K d))
    (smem : SmemCaches K d I.fn.Staged frameSize) (regs : FrameRegisters I.fn frameSize) :
    (I.processSources ownVolume ownFrame rIdx views (smem, regs)).exec m =
      (I.sweepFrames ownVolume ownFrame (views.flatMap fun view => view.visited rIdx)
        (smem, regs)).exec m := by
  induction views generalizing smem regs with
  | nil => rfl
  | cons view views ih =>
    rw [processSources, Program.exec_bind, exec_sweepFrames, ih, exec_sweepFrames,
      List.flatMap_cons, exec_sweepFrames, sweptRegisters_append, sweptCaches, sweptCaches,
      sweptCaches, List.foldl_append]

/-! ## A block, and a pass -/

/-- The registers of a block when it stores. -/
def blockRegisters (m : ParticleMemory K d A V frameSize) (ownVolume : AABB K d)
    (ownFrame : FramePtr) (frames : List (ParticleRegion K d × FramePtr))
    (smem : SmemCaches K d I.fn.Staged frameSize) : FrameRegisters I.fn frameSize :=
  I.sweptRegisters m ownVolume ownFrame frames smem fun slot =>
    if m.occupied ownFrame slot then some (I.ownRegisters m ownFrame slot) else none

/-- The pairs of a slot of a block. -/
def blockPairs (m : ParticleMemory K d A V frameSize) (ownVolume : AABB K d)
    (ownFrame : FramePtr) (frames : List (ParticleRegion K d × FramePtr))
    (smem : SmemCaches K d I.fn.Staged frameSize) : BlockCalls I.fn frameSize := fun slot =>
  I.sweptFramesPairs m ownVolume ownFrame slot (m.relativePos ownFrame slot) frames smem

omit [DecidableEq A] in
theorem blockRegisters_of_occupied {ownVolume : AABB K d} {ownFrame : FramePtr}
    {frames : List (ParticleRegion K d × FramePtr)} {smem : SmemCaches K d I.fn.Staged frameSize}
    {slot : Fin frameSize} (h : m.occupied ownFrame slot = true) :
    I.blockRegisters m ownVolume ownFrame frames smem slot =
      some { I.ownRegisters m ownFrame slot with
        ownAcc := I.fn.accumulate (m.fields ownFrame slot I.fn.ownReads)
          (m.fields ownFrame slot I.fn.ownAccumulate)
          (I.blockPairs m ownVolume ownFrame frames smem slot)
        calls := I.blockPairs m ownVolume ownFrame frames smem slot } := by
  rw [blockRegisters, sweptRegisters, if_pos h, Option.map_some, OwnRegisters.foldl_call]
  rfl

omit [DecidableEq A] in
theorem blockRegisters_of_not_occupied {ownVolume : AABB K d} {ownFrame : FramePtr}
    {frames : List (ParticleRegion K d × FramePtr)} {smem : SmemCaches K d I.fn.Staged frameSize}
    {slot : Fin frameSize} (h : m.occupied ownFrame slot = false) :
    I.blockRegisters m ownVolume ownFrame frames smem slot = none := by
  rw [blockRegisters, sweptRegisters, if_neg (by rw [h]; exact Bool.false_ne_true), Option.map_none]

variable {launch : FrameLaunch K d} {b : ℕ}

theorem exec_unifiedFrameInteractionKernel {rIdx : ℕ} {region : ParticleRegion K d}
    (hregion : launch.ownRegion b = some (rIdx, region)) (views : List (SourceView K d))
    (smem : SmemCaches K d I.fn.Staged frameSize) (m : ParticleMemory K d A V frameSize) :
    (I.unifiedFrameInteractionKernel launch views smem b).exec m =
      let regs := I.blockRegisters m region.volume (launch.framePtrs b)
        (views.flatMap fun view => view.visited rIdx) smem
      (FrameRegisters.blockCalls regs,
        ((I.storeOwnAccumulators (launch.framePtrs b) regs).exec m).2) := by
  rw [unifiedFrameInteractionKernel, hregion]
  dsimp only
  rw [Program.exec_bind, exec_loadOwnRegisters, Program.exec_bind, exec_processSources,
    exec_sweepFrames, Program.exec_bind, Program.exec_pure]
  rfl

theorem exec_unifiedFrameInteractionKernel_of_none (hregion : launch.ownRegion b = none)
    (views : List (SourceView K d)) (smem : SmemCaches K d I.fn.Staged frameSize)
    (m : ParticleMemory K d A V frameSize) :
    (I.unifiedFrameInteractionKernel launch views smem b).exec m = (fun _ => [], m) := by
  rw [unifiedFrameInteractionKernel, hregion]
  rfl

/-- The two kernels do the same with one source. -/
theorem exec_frameInteractionKernel (view : SourceView K d)
    (smem : SmemCaches K d I.fn.Staged frameSize) (m : ParticleMemory K d A V frameSize) :
    (I.frameInteractionKernel launch view smem b).exec m =
      (I.unifiedFrameInteractionKernel launch [view] smem b).exec m := by
  cases hregion : launch.ownRegion b with
  | none =>
    rw [exec_unifiedFrameInteractionKernel_of_none I hregion, frameInteractionKernel, hregion]
    rfl
  | some own =>
    obtain ⟨rIdx, region⟩ := own
    rw [exec_unifiedFrameInteractionKernel I hregion, frameInteractionKernel, hregion]
    dsimp only
    rw [Program.exec_bind, exec_loadOwnRegisters, Program.exec_bind, exec_sweepFrames,
      Program.exec_bind, Program.exec_pure, List.flatMap_singleton]
    rfl

/-- **What a pass leaves behind**, for given pairs of each block in a region.  The accumulators of
live slots of target frames have gone through the pairs of their slot; all else is kept. -/
structure PassResult (launch : FrameLaunch K d)
    (pairs : ℕ → ℕ → ParticleRegion K d → BlockCalls I.fn frameSize)
    (m : ParticleMemory K d A V frameSize)
    (calls : Fin launch.totalFrames.toNat → BlockCalls I.fn frameSize)
    (m' : ParticleMemory K d A V frameSize) : Prop where
  stored : ∀ (b : Fin launch.totalFrames.toNat) rIdx region,
    launch.ownRegion b = some (rIdx, region) → ∀ slot,
      m.occupied (launch.framePtrs b) slot = true →
      calls b slot = pairs b rIdx region slot ∧
      ∀ l (hl : l ∈ I.fn.ownAccumulate), m' ⟨launch.framePtrs b, slot, l⟩ =
        I.fn.accumulate (m.fields (launch.framePtrs b) slot I.fn.ownReads)
          (m.fields (launch.framePtrs b) slot I.fn.ownAccumulate) (calls b slot) l hl
  idle : ∀ (b : Fin launch.totalFrames.toNat) slot,
    launch.ownRegion b = none ∨ m.occupied (launch.framePtrs b) slot = false → calls b slot = []
  kept : ∀ a : FieldAddr d A frameSize, (∀ b : Fin launch.totalFrames.toNat,
    launch.ownRegion b ≠ none → a.frame = launch.framePtrs b →
      m.occupied a.frame a.slot = true → a.leaf ∉ I.fn.ownAccumulate) → m' a = m a

omit [DecidableEq A] [Zero K] [Add K] [Sub K] [Mul K] [Div K] [OfNat K 4] [LT K] [DecidableLT K] in
/-- A pass changes accumulators only. -/
theorem PassResult.sameReads {I : InteractionArgs K d A V} {launch : FrameLaunch K d}
    {pairs : ℕ → ℕ → ParticleRegion K d → BlockCalls I.fn frameSize}
    {calls : Fin launch.totalFrames.toNat → BlockCalls I.fn frameSize}
    (h : I.PassResult launch pairs m calls m') : I.SameReads m m' :=
  fun a ha => h.kept a fun _ _ _ _ => ha

/-- The pairs of a pass over some sources. -/
def passPairs (launch : FrameLaunch K d) (views : List (SourceView K d))
    (smem : ℕ → SmemCaches K d I.fn.Staged frameSize) (m : ParticleMemory K d A V frameSize)
    (b rIdx : ℕ) (region : ParticleRegion K d) : BlockCalls I.fn frameSize :=
  I.blockPairs m region.volume (launch.framePtrs b)
    (views.flatMap fun view => view.visited rIdx) (smem b)

/-- **Every interleaving of the blocks of a pass has this result.** -/
theorem passResult_of_runs {views : List (SourceView K d)}
    {smem : ℕ → SmemCaches K d I.fn.Staged frameSize}
    {calls : Fin launch.totalFrames.toNat → BlockCalls I.fn frameSize}
    {kernel : Fin launch.totalFrames.toNat →
      KernelThread K d A V frameSize (BlockCalls I.fn frameSize)}
    (hwithin : ∀ b, (kernel b).Within (I.fn.blockReads (launch.framePtrs b))
      (I.fn.blockWrites (launch.framePtrs b)))
    (hexec : ∀ b, (kernel b).exec m =
      (I.unifiedFrameInteractionKernel launch views (smem b) b).exec m)
    (hruns : Program.Runs kernel m calls m') :
    I.PassResult launch (I.passPairs launch views smem m) m calls m' := by
  obtain ⟨hcalls, hwritten, huntouched⟩ := (independent_of_within hwithin).runs hruns
  refine ⟨fun b rIdx region hregion slot hocc => ?_, fun b slot hidle => ?_, fun a ha => ?_⟩
  · have hregs : I.blockRegisters m region.volume (launch.framePtrs b)
        (views.flatMap fun view => view.visited rIdx) (smem b) slot = _ :=
      I.blockRegisters_of_occupied hocc
    have hcall : calls b slot = I.blockPairs m region.volume (launch.framePtrs b)
        (views.flatMap fun view => view.visited rIdx) (smem b) slot := by
      rw [hcalls, hexec, exec_unifiedFrameInteractionKernel I hregion]
      dsimp only
      rw [FrameRegisters.blockCalls, hregs]
    refine ⟨hcall, fun l hl => ?_⟩
    rw [hwritten b _ (And.intro rfl hl), hexec, exec_unifiedFrameInteractionKernel I hregion,
      hcall]
    exact I.exec_storeOwnAccumulators m _ _ hregs hl
  · rw [hcalls, hexec]
    cases hregion : launch.ownRegion b with
    | none => rw [exec_unifiedFrameInteractionKernel_of_none I hregion]
    | some own =>
      have hocc := hidle.resolve_left (by rw [hregion]; nofun)
      rw [exec_unifiedFrameInteractionKernel I hregion]
      dsimp only
      rw [FrameRegisters.blockCalls, I.blockRegisters_of_not_occupied hocc]
  · by_cases hmem : ∃ b : Fin launch.totalFrames.toNat, a ∈ I.fn.blockWrites (launch.framePtrs b)
    · obtain ⟨b, hframe, hacc⟩ := hmem
      rw [hwritten b a ⟨hframe, hacc⟩, hexec]
      obtain ⟨frame, slot, l⟩ := a
      obtain rfl : frame = launch.framePtrs b := hframe
      cases hregion : launch.ownRegion b with
      | none => rw [exec_unifiedFrameInteractionKernel_of_none I hregion]
      | some own =>
        have hocc : m.occupied (launch.framePtrs b) slot = false := by
          rw [← Bool.not_eq_true]
          exact fun hocc => ha b (by rw [hregion]; nofun) rfl hocc hacc
        rw [exec_unifiedFrameInteractionKernel I hregion]
        exact I.exec_storeOwnAccumulators_of_none m _ _ (I.blockRegisters_of_not_occupied hocc) l
    · exact huntouched a (not_exists.mp hmem)

section Kernels

variable {I} {smem : ℕ → SmemCaches K d I.fn.Staged frameSize}
  {calls : Fin launch.totalFrames.toNat → BlockCalls I.fn frameSize}

theorem passResult_of_frameRuns (hfn : I.fn.Isolated) {view : SourceView K d}
    (h : Program.Runs (fun b : Fin launch.totalFrames.toNat =>
      I.frameInteractionKernel launch view (smem b) b) m calls m') :
    I.PassResult launch (I.passPairs launch [view] smem m) m calls m' :=
  I.passResult_of_runs (fun _ => frameInteractionKernel_within hfn _ _ _)
    (fun _ => I.exec_frameInteractionKernel _ _ _) h

theorem passResult_of_unifiedFrameRuns (hfn : I.fn.Isolated) {views : List (SourceView K d)}
    (h : Program.Runs (fun b : Fin launch.totalFrames.toNat =>
      I.unifiedFrameInteractionKernel launch views (smem b) b) m calls m') :
    I.PassResult launch (I.passPairs launch views smem m) m calls m' :=
  I.passResult_of_runs (fun _ => unifiedFrameInteractionKernel_within hfn _ _ _) (fun _ => rfl) h

end Kernels

omit [Zero K] [Add K] [Sub K] [Mul K] [Div K] [OfNat K 4] [LT K] [DecidableLT K] in
/-- **The result is determined by the pairs.** -/
theorem PassResult.unique {I : InteractionArgs K d A V} {launch : FrameLaunch K d}
    {pairs : ℕ → ℕ → ParticleRegion K d → BlockCalls I.fn frameSize}
    {calls calls' : Fin launch.totalFrames.toNat → BlockCalls I.fn frameSize}
    {m m' m'' : ParticleMemory K d A V frameSize} (h : I.PassResult launch pairs m calls m')
    (h' : I.PassResult launch pairs m calls' m'') : calls = calls' ∧ m' = m'' := by
  have hcalls : ∀ b slot, calls b slot = calls' b slot := by
    intro b slot
    cases hregion : launch.ownRegion b with
    | none => rw [h.idle b slot (Or.inl hregion), h'.idle b slot (Or.inl hregion)]
    | some own =>
      cases hocc : m.occupied (launch.framePtrs b) slot with
      | false => rw [h.idle b slot (Or.inr hocc), h'.idle b slot (Or.inr hocc)]
      | true =>
        rw [(h.stored b own.1 own.2 hregion slot hocc).1,
          (h'.stored b own.1 own.2 hregion slot hocc).1]
  refine ⟨funext fun b => funext (hcalls b), funext fun a => ?_⟩
  by_cases hkept : ∀ b : Fin launch.totalFrames.toNat, launch.ownRegion b ≠ none →
      a.frame = launch.framePtrs b → m.occupied a.frame a.slot = true →
      a.leaf ∉ I.fn.ownAccumulate
  · rw [h.kept a hkept, h'.kept a hkept]
  · simp only [not_forall, not_not] at hkept
    obtain ⟨b, hregion, hframe, hocc, hacc⟩ := hkept
    obtain ⟨own, hown⟩ := Option.ne_none_iff_exists'.mp hregion
    obtain ⟨frame, slot, l⟩ := a
    obtain rfl : frame = launch.framePtrs b := hframe
    rw [(h.stored b own.1 own.2 hown slot hocc).2 l hacc,
      (h'.stored b own.1 own.2 hown slot hocc).2 l hacc, hcalls]

end InteractionArgs

end Particles
end Spearhed
