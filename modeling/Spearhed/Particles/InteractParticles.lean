import Spearhed.Particles.InteractionKernelRuns

/-!
# One launch for each source, or one for all

`InteractParticles.hpp`: `interact` describes an interaction pass over a bundle of sources.  The
per-source policy launches `FrameInteractionKernel` once for each source, in bundle order, on one
queue; the unified policy launches `UnifiedFrameInteractionKernel` once.  By default there is one
launch either way: with one source the first kernel, else the second.

A dead slot is staged at a sentinel position, with whatever shared memory held as its attributes.
As long as the sentinel is culled, this does not show (`blockPairs_eq`), and results of passes
compose (`PassResult.append`).
-/

namespace Spearhed
namespace Particles

open Library

variable {K : Type} {d : ℕ} {A : Type} {V : A → Type} {frameSize : ℕ}
  [Zero K] [Add K] [Sub K] [Mul K] [Div K] [OfNat K 4] [LT K] [DecidableLT K]

namespace InteractionArgs

variable (I : InteractionArgs K d A V)

/-! ## Policies -/

section Policies

variable [DecidableEq A] (launch : FrameLaunch K d)

/-- `perSource`: the senders of `perSourceSender`, one after the other.  Shared memory holds anything
when a launch begins. -/
inductive PerSourceRuns : List (SourceView K d) → ParticleMemory K d A V frameSize →
    (Fin launch.totalFrames.toNat → BlockCalls I.fn frameSize) →
    ParticleMemory K d A V frameSize → Prop
  | nil {m : ParticleMemory K d A V frameSize} : PerSourceRuns [] m (fun _ _ => []) m
  | cons {view : SourceView K d} {views : List (SourceView K d)}
      {smem : ℕ → SmemCaches K d I.fn.Staged frameSize} {m m' m'' : ParticleMemory K d A V frameSize}
      {calls calls' : Fin launch.totalFrames.toNat → BlockCalls I.fn frameSize}
      (current : Program.Runs (fun b : Fin launch.totalFrames.toNat =>
        I.frameInteractionKernel launch view (smem b) b) m calls m')
      (rest : PerSourceRuns views m' calls' m'') :
      PerSourceRuns (view :: views) m (fun b slot => calls b slot ++ calls' b slot) m''

/-- `unifiedSource`. -/
inductive UnifiedRuns : List (SourceView K d) → ParticleMemory K d A V frameSize →
    (Fin launch.totalFrames.toNat → BlockCalls I.fn frameSize) →
    ParticleMemory K d A V frameSize → Prop
  | nil {m : ParticleMemory K d A V frameSize} : UnifiedRuns [] m (fun _ _ => []) m
  | launch {views : List (SourceView K d)} {smem : ℕ → SmemCaches K d I.fn.Staged frameSize}
      {m m' : ParticleMemory K d A V frameSize}
      {calls : Fin launch.totalFrames.toNat → BlockCalls I.fn frameSize} (hviews : views ≠ [])
      (current : Program.Runs (fun b : Fin launch.totalFrames.toNat =>
        I.unifiedFrameInteractionKernel launch views (smem b) b) m calls m') :
      UnifiedRuns views m calls m'

/-- The overloads of `interact`. -/
inductive InteractPolicy
  | perSource
  | unified
  | default

/-- `interact`. -/
def InteractRuns : InteractPolicy → List (SourceView K d) → ParticleMemory K d A V frameSize →
    (Fin launch.totalFrames.toNat → BlockCalls I.fn frameSize) →
    ParticleMemory K d A V frameSize → Prop
  | .perSource, views => I.PerSourceRuns launch views
  | .unified, views => I.UnifiedRuns launch views
  | .default, views =>
    if views.length = 1 then I.PerSourceRuns launch views else I.UnifiedRuns launch views

end Policies

/-! ## The sentinel -/

section Sentinel

variable {I} {m m' : ParticleMemory K d A V frameSize}

/-- No live particle of a target frame is within the radius of the sentinel. -/
def CullsSentinel (I : InteractionArgs K d A V) (launch : FrameLaunch K d)
    (m : ParticleMemory K d A V frameSize) : Prop :=
  ∀ b : Fin launch.totalFrames.toNat, launch.ownRegion b ≠ none → ∀ slot,
    m.occupied (launch.framePtrs b) slot = true →
      ¬ squaredLength (fun t => m.relativePos (launch.framePtrs b) slot t - I.sentinel) <
        I.interactionRadius * I.interactionRadius

/-- The pair of a slot and a live neighbour slot, if they are close enough. -/
def livePair (I : InteractionArgs K d A V) (m : ParticleMemory K d A V frameSize)
    (ownVolume : AABB K d) (ownFrame : FramePtr) (mySlot : Fin frameSize)
    (y : ParticleRegion K d × FramePtr) (j : Fin frameSize) : Option (PairRecord I.fn frameSize) :=
  let rVec : Vec K d := fun t => m.relativePos ownFrame mySlot t -
    (m.relativePos y.2 j t + (y.1.volume.origin t - ownVolume.origin t))
  if squaredLength rVec < I.interactionRadius * I.interactionRadius then
    some ⟨(y.2, j), I.fn.stage (m.fields y.2 j I.fn.stageReads),
      I.pairContext rVec (ownFrame == y.2 && j == mySlot)⟩
  else none

/-- The pairs of a slot over some frames, with live slots only. -/
def livePairs (I : InteractionArgs K d A V) (m : ParticleMemory K d A V frameSize)
    (ownVolume : AABB K d) (ownFrame : FramePtr) (frames : List (ParticleRegion K d × FramePtr)) :
    BlockCalls I.fn frameSize := fun slot =>
  frames.flatMap fun y => ((List.finRange frameSize).filter fun j => m.occupied y.2 j).filterMap
    (I.livePair m ownVolume ownFrame slot y)

/-- Where the sentinel is culled, a staged frame has its live slots only. -/
theorem sweptPairs_eq {ownFrame : FramePtr} {slot : Fin frameSize} (ownVolume : AABB K d)
    (hcull : ¬ squaredLength (fun t => m.relativePos ownFrame slot t - I.sentinel) <
      I.interactionRadius * I.interactionRadius) (y : ParticleRegion K d × FramePtr)
    (smem : SmemCaches K d I.fn.Staged frameSize) :
    I.sweptPairs ownFrame y.2 (I.stagedCaches m ownVolume y.1.volume y.2 smem) slot
        (m.relativePos ownFrame slot) =
      ((List.finRange frameSize).filter fun j => m.occupied y.2 j).filterMap
        (I.livePair m ownVolume ownFrame slot y) := by
  rw [sweptPairs, List.filterMap_filter]
  refine List.filterMap_congr fun j _ => ?_
  rw [acceptedPair, stagedCaches]
  dsimp only
  by_cases hocc : m.occupied y.2 j = true
  · simp only [if_pos hocc]
    rfl
  · simp only [if_neg hocc]
    exact if_neg hcull

/-- **What shared memory held before does not show.** -/
theorem blockPairs_eq {ownFrame : FramePtr} {slot : Fin frameSize} (ownVolume : AABB K d)
    (hcull : ¬ squaredLength (fun t => m.relativePos ownFrame slot t - I.sentinel) <
      I.interactionRadius * I.interactionRadius) (frames : List (ParticleRegion K d × FramePtr))
    (smem : SmemCaches K d I.fn.Staged frameSize) :
    I.blockPairs m ownVolume ownFrame frames smem slot =
      I.livePairs m ownVolume ownFrame frames slot := by
  rw [blockPairs, livePairs]
  induction frames generalizing smem with
  | nil => rfl
  | cons y rest ih =>
    rw [sweptFramesPairs, List.flatMap_cons, ih, sweptPairs_eq ownVolume hcull]

/-! ## Passes after one another -/

namespace SameReads

variable (h : I.SameReads m m') (hfn : I.fn.Isolated)

omit [Div K] [OfNat K 4] in
include h hfn in
theorem livePairs (ownVolume : AABB K d) (ownFrame : FramePtr)
    (frames : List (ParticleRegion K d × FramePtr)) :
    I.livePairs m' ownVolume ownFrame frames = I.livePairs m ownVolume ownFrame frames := by
  have hpair : ∀ slot y j, I.livePair m' ownVolume ownFrame slot y j =
      I.livePair m ownVolume ownFrame slot y j := by
    intro slot y j
    unfold livePair
    rw [h.relativePos hfn, h.relativePos hfn, h.stageReads hfn]
  funext slot
  unfold InteractionArgs.livePairs
  simp only [h.occupied hfn, hpair]

omit [DecidableLT K] in
include h hfn in
theorem cullsSentinel {launch : FrameLaunch K d} (hcull : I.CullsSentinel launch m) :
    I.CullsSentinel launch m' := by
  intro b hregion slot hocc
  rw [h.occupied hfn] at hocc
  rw [h.relativePos hfn]
  exact hcull b hregion slot hocc

end SameReads

variable {launch : FrameLaunch K d} {views views' : List (SourceView K d)}
  {calls calls' : Fin launch.totalFrames.toNat → BlockCalls I.fn frameSize}
  {m'' : ParticleMemory K d A V frameSize}

/-- The pairs of a pass over some sources, without anything from shared memory. -/
def sourcePairs (I : InteractionArgs K d A V) (launch : FrameLaunch K d)
    (views : List (SourceView K d)) (m : ParticleMemory K d A V frameSize) (b rIdx : ℕ)
    (region : ParticleRegion K d) : BlockCalls I.fn frameSize :=
  I.livePairs m region.volume (launch.framePtrs b) (views.flatMap fun view => view.visited rIdx)

theorem PassResult.live (hcull : I.CullsSentinel launch m)
    {smem : ℕ → SmemCaches K d I.fn.Staged frameSize}
    (h : I.PassResult launch (I.passPairs launch views smem m) m calls m') :
    I.PassResult launch (I.sourcePairs launch views m) m calls m' := by
  refine ⟨fun b rIdx region hregion slot hocc => ?_, h.idle, h.kept⟩
  obtain ⟨hcalls, hstored⟩ := h.stored b rIdx region hregion slot hocc
  refine ⟨hcalls.trans ?_, hstored⟩
  rw [passPairs, blockPairs_eq region.volume (hcull b (by rw [hregion]; nofun) slot hocc)]
  rfl

omit [Div K] [OfNat K 4] in
/-- **Two passes are one**, over the sources of both. -/
theorem PassResult.append (hfn : I.fn.Isolated)
    (h : I.PassResult launch (I.sourcePairs launch views m) m calls m')
    (h' : I.PassResult launch (I.sourcePairs launch views' m') m' calls' m'') :
    I.PassResult launch (I.sourcePairs launch (views ++ views') m) m
      (fun b slot => calls b slot ++ calls' b slot) m'' := by
  have hsame := h.sameReads
  refine ⟨fun b rIdx region hregion slot hocc => ?_, fun b slot hidle => ?_, fun a ha => ?_⟩
  · obtain ⟨hcalls, hstored⟩ := h.stored b rIdx region hregion slot hocc
    have hocc' : m'.occupied (launch.framePtrs b) slot = true := by
      rw [hsame.occupied hfn]
      exact hocc
    obtain ⟨hcalls', hstored'⟩ := h'.stored b rIdx region hregion slot hocc'
    constructor
    · rw [hcalls, hcalls', sourcePairs, sourcePairs, sourcePairs, hsame.livePairs hfn, livePairs,
        livePairs, livePairs, List.flatMap_append, List.flatMap_append]
    · intro l hl
      have hacc : m'.fields (launch.framePtrs b) slot I.fn.ownAccumulate =
          I.fn.accumulate (m.fields (launch.framePtrs b) slot I.fn.ownReads)
            (m.fields (launch.framePtrs b) slot I.fn.ownAccumulate) (calls b slot) :=
        funext fun k => funext fun hk => hstored k hk
      rw [hstored' l hl, hsame.ownReads hfn, hacc, InteractionFunctor.accumulate,
        InteractionFunctor.accumulate, InteractionFunctor.accumulate, List.foldl_append]
  · have hidle' : launch.ownRegion b = none ∨ m'.occupied (launch.framePtrs b) slot = false := by
      rw [hsame.occupied hfn]
      exact hidle
    rw [h.idle b slot hidle, h'.idle b slot hidle', List.append_nil]
  · rw [← h.kept a ha]
    refine h'.kept a fun b hregion hframe hocc => ?_
    rw [hsame.occupied hfn] at hocc
    exact ha b hregion hframe hocc

omit [Div K] [OfNat K 4] in
theorem PassResult.nil : I.PassResult launch (I.sourcePairs launch [] m) m (fun _ _ => []) m :=
  ⟨fun _ _ _ _ _ _ => ⟨rfl, fun _ _ => rfl⟩, fun _ _ _ => rfl, fun _ _ => rfl⟩

end Sentinel

/-! ## The policies agree -/

section Agree

variable [DecidableEq A] {I} {launch : FrameLaunch K d} {views : List (SourceView K d)}
  {m m' : ParticleMemory K d A V frameSize}
  {calls : Fin launch.totalFrames.toNat → BlockCalls I.fn frameSize}

theorem passResult_of_perSourceRuns (hfn : I.fn.Isolated) (hcull : I.CullsSentinel launch m)
    (h : I.PerSourceRuns launch views m calls m') :
    I.PassResult launch (I.sourcePairs launch views m) m calls m' := by
  induction h with
  | nil => exact PassResult.nil
  | cons current rest ih =>
    have hfirst := (passResult_of_frameRuns hfn current).live hcull
    exact hfirst.append hfn (ih (hfirst.sameReads.cullsSentinel hfn hcull))

theorem passResult_of_unifiedRuns (hfn : I.fn.Isolated) (hcull : I.CullsSentinel launch m)
    (h : I.UnifiedRuns launch views m calls m') :
    I.PassResult launch (I.sourcePairs launch views m) m calls m' := by
  cases h with
  | nil => exact PassResult.nil
  | launch hviews current =>
    exact (passResult_of_unifiedFrameRuns hfn current).live hcull

/-- **The result of a pass**, under every policy. -/
theorem passResult_of_interactRuns (hfn : I.fn.Isolated) (hcull : I.CullsSentinel launch m)
    {policy : InteractPolicy} (h : I.InteractRuns launch policy views m calls m') :
    I.PassResult launch (I.sourcePairs launch views m) m calls m' := by
  cases policy with
  | perSource => exact passResult_of_perSourceRuns hfn hcull h
  | unified => exact passResult_of_unifiedRuns hfn hcull h
  | default =>
    rw [InteractRuns] at h
    split at h
    · exact passResult_of_perSourceRuns hfn hcull h
    · exact passResult_of_unifiedRuns hfn hcull h

variable (launch views m)

omit views in
theorem exists_frameRuns (hfn : I.fn.Isolated) (view : SourceView K d)
    (smem : ℕ → SmemCaches K d I.fn.Staged frameSize) :
    ∃ calls m', Program.Runs (fun b : Fin launch.totalFrames.toNat =>
      I.frameInteractionKernel launch view (smem b) b) m calls m' :=
  (independent_of_within fun b =>
    frameInteractionKernel_within hfn view (smem b) b).exists_runs m

theorem exists_unifiedFrameRuns (hfn : I.fn.Isolated)
    (smem : ℕ → SmemCaches K d I.fn.Staged frameSize) :
    ∃ calls m', Program.Runs (fun b : Fin launch.totalFrames.toNat =>
      I.unifiedFrameInteractionKernel launch views (smem b) b) m calls m' :=
  (independent_of_within fun b =>
    unifiedFrameInteractionKernel_within hfn views (smem b) b).exists_runs m

theorem exists_perSourceRuns (hfn : I.fn.Isolated)
    (smem : ℕ → SmemCaches K d I.fn.Staged frameSize) :
    ∃ calls m', I.PerSourceRuns launch views m calls m' := by
  induction views generalizing m with
  | nil => exact ⟨_, _, .nil⟩
  | cons view views ih =>
    obtain ⟨calls, m', hruns⟩ := exists_frameRuns launch m hfn view smem
    obtain ⟨calls', m'', hrest⟩ := ih m'
    exact ⟨_, _, .cons hruns hrest⟩

theorem exists_unifiedRuns (hfn : I.fn.Isolated)
    (smem : ℕ → SmemCaches K d I.fn.Staged frameSize) :
    ∃ calls m', I.UnifiedRuns launch views m calls m' := by
  by_cases hviews : views = []
  · rw [hviews]
    exact ⟨_, _, .nil⟩
  · obtain ⟨calls, m', hruns⟩ := exists_unifiedFrameRuns launch views m hfn smem
    exact ⟨_, _, .launch hviews hruns⟩

theorem exists_interactRuns (hfn : I.fn.Isolated)
    (smem : ℕ → SmemCaches K d I.fn.Staged frameSize) (policy : InteractPolicy) :
    ∃ calls m', I.InteractRuns launch policy views m calls m' := by
  cases policy with
  | perSource => exact exists_perSourceRuns launch views m hfn smem
  | unified => exact exists_unifiedRuns launch views m hfn smem
  | default =>
    by_cases hlength : views.length = 1
    · simpa only [InteractRuns, if_pos hlength] using exists_perSourceRuns launch views m hfn smem
    · simpa only [InteractRuns, if_neg hlength] using exists_unifiedRuns launch views m hfn smem

/-- **The policies agree**: there are calls and a particle state with which every policy ends, and no
policy ends with anything else. -/
theorem interact_independent_of_policy (I : InteractionArgs K d A V) (launch : FrameLaunch K d)
    (views : List (SourceView K d)) (m : ParticleMemory K d A V frameSize) (hfn : I.fn.Isolated)
    (hcull : I.CullsSentinel launch m) (smem : ℕ → SmemCaches K d I.fn.Staged frameSize) :
    ∃ calls m', ∀ policy calls₁ m₁,
      I.InteractRuns launch policy views m calls₁ m₁ ↔ calls₁ = calls ∧ m₁ = m' := by
  obtain ⟨calls, m', hruns⟩ := exists_interactRuns launch views m hfn smem .perSource
  have hresult := passResult_of_interactRuns hfn hcull hruns
  refine ⟨calls, m', fun policy calls₁ m₁ => ⟨fun h => ?_, ?_⟩⟩
  · exact (passResult_of_interactRuns hfn hcull h).unique hresult
  · rintro ⟨rfl, rfl⟩
    obtain ⟨calls₂, m₂, h₂⟩ := exists_interactRuns launch views m hfn smem policy
    obtain ⟨rfl, rfl⟩ := (passResult_of_interactRuns hfn hcull h₂).unique hresult
    exact h₂

end Agree

end InteractionArgs

/-! ## A particle at the sentinel

One axis, one slot for every frame.  Frame 0 has a live particle at the sentinel position, and the
slot of frame 1, the only one of the source, is dead. -/

/-- The functor that adds up an attribute of the neighbours. -/
def sumFunctor : InteractionFunctor ℤ 0 Bool fun _ => ℤ where
  neighbourReads := [.attribute true]
  ownReads := []
  ownAccumulate := [.attribute false]
  Prepared := Unit
  prepare := fun _ => ()
  Staged := ℤ
  stageReads := [.attribute true]
  stageReads_subset := fun _ h => h
  stage := fun reads => reads (.attribute true) List.mem_cons_self
  call := fun _ _ neighbour _ acc l => match l with
    | .attribute false => fun hl => (show ℤ from acc (.attribute false) hl) + neighbour
    | l => fun hl => acc l hl

theorem sumFunctor_isolated : sumFunctor.Isolated := by
  constructor <;> simp [sumFunctor]

/-- Radius one; the sentinel is at 100. -/
def sentinelArgs : InteractionArgs ℤ 0 Bool fun _ => ℤ :=
  ⟨sumFunctor, 1, ⟨400, -400⟩, fun _ => 1⟩

/-- One block, for frame 0. -/
def sentinelLaunch : FrameLaunch ℤ 0 where
  targetPR := [⟨⟨fun _ => 0, fun _ => 0, fun _ => 0⟩, [0]⟩]
  framePtrs := fun _ => 0
  regionIdx := fun _ => 0
  totalFrames := 1
  injective := by decide

/-- The source, with frame 1. -/
def sentinelView : SourceView ℤ 0 where
  sourcePR := [⟨⟨fun _ => 0, fun _ => 0, fun _ => 0⟩, [1]⟩]
  regionOffsets := fun i => if i = 0 then 0 else 1
  neighbourRegions := fun _ => 0

/-- Frame 0 is live and at the sentinel, frame 1 is dead. -/
def sentinelMemory : ParticleMemory ℤ 0 Bool (fun _ => ℤ) 1 := fun a => match a with
  | ⟨_, _, .relativePos _⟩ => (100 : ℤ)
  | ⟨frame, _, .multiMask⟩ => (if frame = 0 then 1 else 0 : UInt8)
  | ⟨_, _, .attribute _⟩ => (0 : ℤ)

/-- Both frames are live, at the origin. -/
def originMemory : ParticleMemory ℤ 0 Bool (fun _ => ℤ) 1 := fun a => match a with
  | ⟨_, _, .relativePos _⟩ => (0 : ℤ)
  | ⟨_, _, .multiMask⟩ => (1 : UInt8)
  | ⟨_, _, .attribute _⟩ => (5 : ℤ)

theorem originMemory_cullsSentinel : sentinelArgs.CullsSentinel sentinelLaunch originMemory := by
  have hfar : ¬ InteractionArgs.squaredLength (fun _ : Fin 1 => (0 - 400 / 4 : ℤ)) < 1 * 1 := by decide
  exact fun _ _ _ _ => hfar

/-- Shared memory with a number left in it. -/
def leftCaches (x : ℤ) (_ : ℕ) : SmemCaches ℤ 0 sentinelArgs.fn.Staged 1 :=
  ⟨fun _ _ => 0, fun _ => x⟩

/-- Away from the sentinel the policies agree, for the same source twice. -/
theorem interact_independent_of_policy_origin :
    ∃ (calls : Fin sentinelLaunch.totalFrames.toNat → BlockCalls sentinelArgs.fn 1)
      (m' : ParticleMemory ℤ 0 Bool (fun _ => ℤ) 1), ∀ policy calls₁ m₁,
      sentinelArgs.InteractRuns sentinelLaunch policy [sentinelView, sentinelView] originMemory
        calls₁ m₁ ↔ calls₁ = calls ∧ m₁ = m' :=
  sentinelArgs.interact_independent_of_policy sentinelLaunch [sentinelView, sentinelView]
    originMemory sumFunctor_isolated originMemory_cullsSentinel (leftCaches 0)

/-- The dead slot is staged with what shared memory holds. -/
theorem sentinelArgs_stored {x : ℤ}
    {calls : Fin sentinelLaunch.totalFrames.toNat → BlockCalls sentinelArgs.fn 1}
    {m' : ParticleMemory ℤ 0 Bool (fun _ => ℤ) 1}
    (h : sentinelArgs.PassResult sentinelLaunch (sentinelArgs.passPairs sentinelLaunch
      [sentinelView] (leftCaches x) sentinelMemory) sentinelMemory calls m') :
    m' ⟨0, 0, .attribute false⟩ = (0 + x : ℤ) := by
  obtain ⟨hcalls, hstored⟩ := h.stored ⟨0, by decide⟩ 0
    ⟨⟨fun _ => 0, fun _ => 0, fun _ => 0⟩, [0]⟩ rfl 0 rfl
  refine (hstored (.attribute false) List.mem_cons_self).trans ?_
  rw [hcalls]
  rfl

/-- **A particle at the sentinel meets dead slots**: what shared memory held before decides what is
accumulated, and launches of the two kernels may end differently. -/
theorem interact_depends_of_sentinel : sentinelArgs.fn.Isolated ∧
    ∃ (calls calls' : Fin sentinelLaunch.totalFrames.toNat → BlockCalls sentinelArgs.fn 1)
      (m m' : ParticleMemory ℤ 0 Bool (fun _ => ℤ) 1),
      sentinelArgs.InteractRuns sentinelLaunch .perSource [sentinelView] sentinelMemory calls m ∧
      sentinelArgs.InteractRuns sentinelLaunch .unified [sentinelView] sentinelMemory calls' m' ∧
      m ≠ m' := by
  have hfn : sentinelArgs.fn.Isolated := sumFunctor_isolated
  refine ⟨hfn, ?_⟩
  obtain ⟨calls, m, hruns⟩ := InteractionArgs.exists_frameRuns sentinelLaunch sentinelMemory hfn
    sentinelView (leftCaches 1)
  obtain ⟨calls', m', hruns'⟩ := InteractionArgs.exists_unifiedFrameRuns sentinelLaunch
    [sentinelView] sentinelMemory hfn (leftCaches 2)
  have hper : sentinelArgs.PerSourceRuns sentinelLaunch [sentinelView] sentinelMemory _ m :=
    .cons hruns .nil
  have hunified : sentinelArgs.UnifiedRuns sentinelLaunch [sentinelView] sentinelMemory calls' m' :=
    .launch (List.cons_ne_nil _ _) hruns'
  have hm : m ⟨0, 0, .attribute false⟩ = (0 + 1 : ℤ) :=
    sentinelArgs_stored (InteractionArgs.passResult_of_frameRuns hfn hruns)
  have hm' : m' ⟨0, 0, .attribute false⟩ = (0 + 2 : ℤ) :=
    sentinelArgs_stored (InteractionArgs.passResult_of_unifiedFrameRuns hfn hruns')
  have hne : (0 + 1 : ℤ) ≠ 0 + 2 := by decide
  exact ⟨_, calls', m, m', hper, hunified, fun heq => hne (hm.symm.trans ((congrFun heq _).trans hm'))⟩

end Particles
end Spearhed
