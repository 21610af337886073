import Spearhed.Library.Literals
import Spearhed.Sph.Stages

/-!
# Conservation of momentum and energy

`UpdateHydroForces` on a buffer that is its own only source: the derivatives it stores have no total
force (`momentumRate`) and no total power (`energyRate`).  Every pair is found from both sides or
from neither (`AABB.expand_intersects_comm`), its two contexts differ in the sign of the distance
vector (`slotContext_swap`), and weighted with the masses its two contributions cancel
(`acceleration_swap`, `energy_swap`).  Nothing about kernels, lengths or densities is used.
-/

namespace Spearhed
namespace Sph

open Library Library.Literals Particles InteractionArgs

variable {K : Type} [Field K] [LinearOrder K] {d frameSize : ℕ}

/-! ## Totals -/

/-- An attribute of a slot. -/
def slotAttribute (m : FluidMemory K d frameSize) (p : RegionFrameSlot K d frameSize)
    (a : FluidAttribute d) : K :=
  m ⟨p.1.2, p.2, .attribute a⟩

/-- The total of `mass * dvdt` over the live particles, along an axis. -/
def momentumRate (m : FluidMemory K d frameSize) (regions : List (ParticleRegion K d))
    (t : Fin (d + 1)) : K :=
  ((ParticleMemory.liveSlots m regions).map fun p =>
    slotAttribute m p .mass * slotAttribute m p (.dvdt t)).sum

/-- The total of `mass * (vel . dvdt + dudt)` over the live particles. -/
def energyRate (m : FluidMemory K d frameSize) (regions : List (ParticleRegion K d)) : K :=
  ((ParticleMemory.liveSlots m regions).map fun p => slotAttribute m p .mass *
    (∑ t, slotAttribute m p (.vel t) * slotAttribute m p (.dvdt t) +
      slotAttribute m p .dudt)).sum

/-! ## A pair from both sides -/

section Swap

variable (m : FluidMemory K d frameSize) (p q : RegionFrameSlot K d frameSize)

omit [LinearOrder K] in
theorem separation_swap : ParticleMemory.separation m q p = -ParticleMemory.separation m p q := by
  funext t
  rw [Pi.neg_apply, ParticleMemory.separation, ParticleMemory.separation]
  ring

omit [LinearOrder K] in
theorem squaredLength_neg (v : Vec K d) : squaredLength (-v) = squaredLength v := by
  unfold squaredLength
  simp only [Pi.neg_apply, neg_mul_neg]

/-- Both sides see one distance, in opposite directions. -/
theorem slotContext_swap (I : InteractionArgs K d (FluidAttribute d) fun _ => K) :
    I.slotContext m q p =
      ⟨-ParticleMemory.separation m p q, (I.slotContext m p q).r2, (I.slotContext m p q).r,
        (I.slotContext m p q).invR, (I.slotContext m p q).isSelf⟩ := by
  have hself : (q.1.2 == p.1.2 && p.2 == q.2) = (p.1.2 == q.1.2 && q.2 == p.2) := by
    rw [Bool.beq_comm (a := q.1.2), Bool.beq_comm (a := p.2)]
  unfold InteractionArgs.slotContext InteractionArgs.pairContext
  rw [separation_swap m p q, squaredLength_neg, hself]

variable (S : StageArgs K)

/-- **Action and reaction**: the forces of a pair. -/
theorem acceleration_swap (t : Fin (d + 1)) :
    slotAttribute m p .mass * S.acceleration m p q t =
      -(slotAttribute m q .mass * S.acceleration m q p t) := by
  unfold StageArgs.acceleration pairAcceleration
  rw [slotContext_swap m p q, separation_swap m p q, squaredLength_neg]
  split
  · split
    · rw [mul_zero, mul_zero, neg_zero]
    · have hp : (stagedRecord S.gamma m p.1.2 p.2).mass = slotAttribute m p .mass := rfl
      have hq : (stagedRecord S.gamma m q.1.2 q.2).mass = slotAttribute m q .mass := rfl
      have hr : (S.hydroPass.slotContext m p q).rVec = ParticleMemory.separation m p q := rfl
      dsimp only
      rw [hp, hq, hr, Pi.neg_apply]
      ring
  · rw [mul_zero, mul_zero, neg_zero]

omit [LinearOrder K] in
/-- The work of a force along the own velocity, and the heating, in one sum over the axes. -/
theorem work_add_heating (A B : K) (v w r : Vec K d) :
    ∑ t, v t * -((A + B) * r t) + A * ∑ t, (v t - w t) * r t =
      -(B * ∑ t, v t * r t + A * ∑ t, w t * r t) := by
  simp only [Finset.mul_sum, ← Finset.sum_add_distrib, ← Finset.sum_neg_distrib]
  exact Finset.sum_congr rfl fun t _ => by ring

/-- **No energy is made by a pair.** -/
theorem energy_swap :
    slotAttribute m p .mass * (∑ t, slotAttribute m p (.vel t) * S.acceleration m p q t +
        S.heating m p q) =
      -(slotAttribute m q .mass * (∑ t, slotAttribute m q (.vel t) * S.acceleration m q p t +
        S.heating m q p)) := by
  unfold StageArgs.acceleration StageArgs.heating pairAcceleration pairHeating
  rw [slotContext_swap m p q, separation_swap m p q, squaredLength_neg]
  split
  · split
    · simp only [mul_zero, Finset.sum_const_zero, add_zero, neg_zero]
    · have hp : (stagedRecord S.gamma m p.1.2 p.2).mass = slotAttribute m p .mass := rfl
      have hq : (stagedRecord S.gamma m q.1.2 q.2).mass = slotAttribute m q .mass := rfl
      have hvp : (stagedRecord S.gamma m p.1.2 p.2).vel = fun t => slotAttribute m p (.vel t) := rfl
      have hvq : (stagedRecord S.gamma m q.1.2 q.2).vel = fun t => slotAttribute m q (.vel t) := rfl
      have hr : (S.hydroPass.slotContext m p q).rVec = ParticleMemory.separation m p q := rfl
      dsimp only
      rw [hp, hq, hvp, hvq, hr, work_add_heating, work_add_heating]
      simp only [Pi.neg_apply, mul_neg, Finset.sum_neg_distrib]
      ring
  · simp only [mul_zero, Finset.sum_const_zero, add_zero, neg_zero]

end Swap

/-! ## All pairs -/

section Totals

variable [IsStrictOrderedRing K] {m : FluidMemory K d frameSize} {view : SourceView K d}

variable (m view) in
/-- A sum over neighbours of numbers that cancel in pairs. -/
theorem sum_neighbourSlots_eq_zero (R : K)
    {f : RegionFrameSlot K d frameSize → RegionFrameSlot K d frameSize → K}
    (hf : ∀ p q, f p q = -f q p) :
    ((ParticleMemory.liveSlots m view.sourcePR).map fun p =>
      ((ParticleMemory.neighbourSlots m [view] R p).map (f p)).sum).sum = 0 := by
  simp only [ParticleMemory.neighbourSlots, List.flatMap_singleton, sum_map_filter]
  refine sum_pairs_eq_zero fun p _ q _ => ?_
  rw [AABB.expand_intersects_comm]
  split
  · exact hf p q
  · exact neg_zero.symm

variable (S : StageArgs K) {launch : FrameLaunch K d}

omit [IsStrictOrderedRing K] in
/-- There is a run of the stage. -/
theorem exists_updateHydroForces (launch : FrameLaunch K d) (sources : List (SourceView K d))
    (m : FluidMemory K d frameSize) : ∃ m', S.UpdateHydroForces launch sources m m' := by
  have hfn : (S.hydroPass (d := d)).fn.Isolated := hydroInteraction_isolated S.kernel S.gamma
  have hindep : Program.Independent (fun b : Fin launch.totalFrames.toNat =>
      hierarchyForEachKernel launch (zeroDerivatives K d frameSize) b) _ _ :=
    ParticleBody.independent_hierarchyForEachKernel _
  obtain ⟨results, m₀, hzero⟩ := hindep.exists_runs m
  obtain ⟨calls, m', hpass⟩ := exists_interactRuns launch sources m₀ hfn
    (fun _ => ⟨fun _ _ => 0, fun _ => ⟨0, 0, 0, fun _ => 0⟩⟩) .default
  exact ⟨m', results, m₀, calls, hzero, hpass⟩

/-- **Momentum and energy are conserved.** -/
theorem updateHydroForces_conserves {R : K} (hlists : launch.Lists view.sourcePR)
    (hview : view.Lists view.sourcePR R) (hcull : S.hydroPass.CullsSentinel launch m) :
    (∃ m', S.UpdateHydroForces launch [view] m m') ∧
      ∀ m', S.UpdateHydroForces launch [view] m m' →
        (∀ t, momentumRate m' view.sourcePR t = 0) ∧ energyRate m' view.sourcePR = 0 := by
  refine ⟨exists_updateHydroForces S launch [view] m, fun m' h => ?_⟩
  have hfn : (S.hydroPass (d := d)).fn.Isolated := hydroInteraction_isolated S.kernel S.gamma
  have hsame := h.sameReads hcull
  have hslots := hsame.liveSlots hfn view.sourcePR
  have hmass : ∀ p : RegionFrameSlot K d frameSize,
      slotAttribute m' p .mass = slotAttribute m p .mass := fun p => hsame ⟨p.1.2, p.2, _⟩
    (by simp [StageArgs.hydroPass, hydroInteraction, dvdtLeaves])
  have hvel : ∀ (p : RegionFrameSlot K d frameSize) t,
      slotAttribute m' p (.vel t) = slotAttribute m p (.vel t) := fun p t =>
    hsame ⟨p.1.2, p.2, _⟩ (by simp [StageArgs.hydroPass, hydroInteraction, dvdtLeaves])
  have hstored := fun p (hp : p ∈ ParticleMemory.liveSlots m view.sourcePR) =>
    h.stored hlists (List.forall_mem_singleton.mpr hview) hcull hp
  constructor
  · intro t
    refine Eq.trans (congrArg List.sum ?_) (sum_neighbourSlots_eq_zero m view R fun p q =>
      acceleration_swap m p q S t)
    rw [hslots]
    refine List.map_congr_left fun p hp => ?_
    have hdvdt : slotAttribute m' p (.dvdt t) = _ := (hstored p hp).1 t
    rw [hmass, hdvdt, List.sum_map_mul_left]
  · refine Eq.trans (congrArg List.sum ?_) (sum_neighbourSlots_eq_zero m view R fun p q =>
      energy_swap m p q S)
    rw [hslots]
    refine List.map_congr_left fun p hp => ?_
    have hdvdt : ∀ t, slotAttribute m' p (.dvdt t) = _ := fun t => (hstored p hp).1 t
    have hdudt : slotAttribute m' p .dudt = _ := (hstored p hp).2
    simp only [hmass, hvel, hdvdt, hdudt]
    rw [List.sum_map_mul_left, List.sum_map_add, ← sum_map_finset_sum]
    simp only [List.sum_map_mul_left]

end Totals

/-! ## A live particle near the sentinel

One axis, one slot for every frame.  With frame 1 dead and the particle of frame 0 near the sentinel
position, the dead slot is staged there with the record of that particle itself, which shared memory
still holds; nothing reacts to the force that this ghost exerts. -/

/-- One region with frames 0 and 1. -/
def twoFrames : List (ParticleRegion ℚ 0) := [⟨⟨fun _ => 0, fun _ => 0, fun _ => 0⟩, [0, 1]⟩]

/-- One block for each of the frames. -/
def twoFramesLaunch : FrameLaunch ℚ 0 where
  targetPR := twoFrames
  framePtrs := fun b => b
  regionIdx := fun _ => 0
  totalFrames := 2
  injective := fun _ _ _ _ h => h

/-- The buffer as its own source. -/
def twoFramesView : SourceView ℚ 0 where
  sourcePR := twoFrames
  regionOffsets := fun i => if i = 0 then 0 else 1
  neighbourRegions := fun _ => 0

/-- A particle in frame 0, and one at the origin in frame 1 if that is live. -/
def twoFramesMemory (x : ℚ) (mask : UInt8) : FluidMemory ℚ 0 1 := fun a => match a with
  | ⟨frame, _, .relativePos _⟩ => (if frame = 0 then x else 0 : ℚ)
  | ⟨frame, _, .multiMask⟩ => (if frame = 0 then 1 else mask : UInt8)
  | ⟨_, _, .attribute (.vel _)⟩ => (0 : ℚ)
  | ⟨_, _, .attribute (.dvdt _)⟩ => (0 : ℚ)
  | ⟨_, _, .attribute .dudt⟩ => (0 : ℚ)
  | ⟨_, _, .attribute _⟩ => (1 : ℚ)

/-- The cubic kernel on one axis; the sentinel is at 100. -/
def twoFramesArgs : StageArgs ℚ := ⟨cubicSplineKernel 3 1, 2, 1, ⟨400, -400⟩, fun _ => 1⟩

theorem twoFramesLaunch_lists : twoFramesLaunch.Lists twoFrames := by
  intro x hx
  have hx' : x = (⟨⟨fun _ => 0, fun _ => 0, fun _ => 0⟩, [0, 1]⟩, 0) ∨
      x = (⟨⟨fun _ => 0, fun _ => 0, fun _ => 0⟩, [0, 1]⟩, 1) := by
    simpa [allFrames, twoFrames] using hx
  rcases hx' with rfl | rfl
  · exact ⟨⟨0, by decide⟩, 0, rfl, rfl, rfl⟩
  · exact ⟨⟨1, by decide⟩, 0, rfl, rfl, rfl⟩

theorem twoFramesView_lists : twoFramesView.Lists twoFrames 0 := by
  intro r region hr
  match r with
  | 0 =>
    obtain rfl : _ = region := Option.some.inj hr
    have hfound : neighbours ⟨⟨fun _ => 0, fun _ => 0, fun _ => 0⟩, [0, 1]⟩ twoFrames (0 : ℚ) = [0] := by
      refine List.filter_cons_of_pos ?_
      rw [meets_eq_true rfl, AABB.expand_intersects_iff]
      norm_num
    have hvisited : twoFramesView.visited 0 = ([0] : List ℕ).flatMap (framesAt twoFrames) := rfl
    rw [hvisited, show twoFramesView.sourcePR = twoFrames from rfl, hfound]
  | _ + 1 => cases hr

omit [LinearOrder K] in
/-- Where the derivatives are zero, zeroing them changes nothing. -/
theorem zeroDerivatives_eq_self {launch : FrameLaunch K d} {m m₀ : FluidMemory K d frameSize}
    {results : Fin launch.totalFrames.toNat → Unit}
    (h : Program.Runs (fun b : Fin launch.totalFrames.toNat =>
      hierarchyForEachKernel launch (zeroDerivatives K d frameSize) b) m results m₀)
    (hzero : ∀ frame slot a, .attribute a ∈ dvdtLeaves d ++ [.attribute .dudt] →
      m ⟨frame, slot, .attribute a⟩ = (0 : K)) : m₀ = m := by
  have hresult := (zeroDerivatives K d frameSize).launchResult_of_runs h
  funext a
  by_contra hne
  refine hne (hresult.kept a fun b hb hframe hocc hwrites => hne ?_)
  obtain ⟨frame, slot, l⟩ := a
  obtain rfl : frame = launch.framePtrs b := hframe
  rcases l with t | - | a
  · simp [zeroDerivatives, dvdtLeaves] at hwrites
  · simp [zeroDerivatives, dvdtLeaves] at hwrites
  · refine (hresult.stored b hb slot hocc _ hwrites).trans ?_
    exact (exec_zeroDerivatives m _ _ hwrites).trans (hzero _ _ _ hwrites).symm

/-- With one source, the stage is a launch for the derivatives and one for the pass. -/
theorem updateHydroForces_of_frameRuns {S : StageArgs K} {launch : FrameLaunch K d}
    {view : SourceView K d} {m m₀ m' : FluidMemory K d frameSize}
    {smem : ℕ → SmemCaches K d (S.hydroPass (d := d)).fn.Staged frameSize}
    {results : Fin launch.totalFrames.toNat → Unit}
    {calls : Fin launch.totalFrames.toNat → BlockCalls (S.hydroPass (d := d)).fn frameSize}
    (hzero : Program.Runs (fun b : Fin launch.totalFrames.toNat =>
      hierarchyForEachKernel launch (zeroDerivatives K d frameSize) b) m results m₀)
    (hruns : Program.Runs (fun b : Fin launch.totalFrames.toNat =>
      S.hydroPass.frameInteractionKernel launch view (smem b) b) m₀ calls m') :
    S.UpdateHydroForces launch [view] m m' := by
  have hpass : S.hydroPass.PerSourceRuns launch [view] m₀ _ m' := .cons hruns .nil
  refine ⟨results, m₀, fun b slot => calls b slot ++ [], hzero, ?_⟩
  rw [InteractRuns, if_pos List.length_singleton]
  exact hpass

/-- The slot of frame 0. -/
def firstSlot : RegionFrameSlot ℚ 0 1 := ((⟨⟨fun _ => 0, fun _ => 0, fun _ => 0⟩, [0, 1]⟩, 0), 0)

/-- Shared memory with zeros in it. -/
def zeroCaches (_ : ℕ) : SmemCaches ℚ 0 (twoFramesArgs.hydroPass (d := 0)).fn.Staged 1 :=
  ⟨fun _ _ => 0, fun _ => ⟨0, 0, 0, fun _ => 0⟩⟩

/-- What a pass adds up for frame 0 when frame 1 is dead. -/
theorem ghost_accumulate (h : .attribute (.dvdt 0) ∈
      (twoFramesArgs.hydroPass (d := 0)).fn.ownAccumulate) :
    FluidRecord.get (twoFramesArgs.hydroPass.fn.accumulate
      ((twoFramesMemory 101 0).fields 0 0 (twoFramesArgs.hydroPass (d := 0)).fn.ownReads)
      ((twoFramesMemory 101 0).fields 0 0 (twoFramesArgs.hydroPass (d := 0)).fn.ownAccumulate)
      (twoFramesArgs.hydroPass.passPairs twoFramesLaunch [twoFramesView] zeroCaches
        (twoFramesMemory 101 0) 0 0 firstSlot.1.1 0)) (.dvdt 0) h = (1 : ℚ) := by
  have heval : FluidRecord.get (twoFramesArgs.hydroPass.fn.accumulate
      ((twoFramesMemory 101 0).fields 0 0 (twoFramesArgs.hydroPass (d := 0)).fn.ownReads)
      ((twoFramesMemory 101 0).fields 0 0 (twoFramesArgs.hydroPass (d := 0)).fn.ownAccumulate)
      (twoFramesArgs.hydroPass.passPairs twoFramesLaunch [twoFramesView] zeroCaches
        (twoFramesMemory 101 0) 0 0 firstSlot.1.1 0)) (.dvdt 0) (List.mem_cons_of_mem _ List.mem_cons_self) = (1 : ℚ) := by
    decide +kernel
  exact heval

/-- **A ghost exerts a force**: momentum is not conserved near the sentinel. -/
theorem momentumRate_ne_zero_of_ghost : twoFramesLaunch.Lists twoFramesView.sourcePR ∧
    twoFramesView.Lists twoFramesView.sourcePR 0 ∧
    ∃ m', twoFramesArgs.UpdateHydroForces twoFramesLaunch [twoFramesView] (twoFramesMemory 101 0) m' ∧
      momentumRate m' twoFramesView.sourcePR 0 ≠ 0 := by
  refine ⟨twoFramesLaunch_lists, twoFramesView_lists, ?_⟩
  have hfn : (twoFramesArgs.hydroPass (d := 0)).fn.Isolated := hydroInteraction_isolated _ _
  have hindep : Program.Independent (fun b : Fin twoFramesLaunch.totalFrames.toNat =>
      hierarchyForEachKernel twoFramesLaunch (zeroDerivatives ℚ 0 1) b) _ _ :=
    ParticleBody.independent_hierarchyForEachKernel _
  obtain ⟨results, m₀, hzero⟩ := hindep.exists_runs (twoFramesMemory 101 0)
  obtain rfl : m₀ = twoFramesMemory 101 0 := zeroDerivatives_eq_self hzero fun _ _ a ha => by
    cases a <;> simp [dvdtLeaves] at ha <;> rfl
  obtain ⟨calls, m', hruns⟩ := exists_frameRuns twoFramesLaunch (twoFramesMemory 101 0) hfn
    twoFramesView zeroCaches
  have hresult := passResult_of_frameRuns hfn hruns
  refine ⟨m', updateHydroForces_of_frameRuns hzero hruns, ?_⟩
  obtain ⟨hcalls, hstored⟩ := hresult.stored ⟨0, by decide⟩ 0 firstSlot.1.1 rfl 0 rfl
  have hdvdt : slotAttribute m' firstSlot (.dvdt 0) = 1 := by
    have hacc : .attribute (.dvdt 0) ∈ (twoFramesArgs.hydroPass (d := 0)).fn.ownAccumulate :=
      List.mem_cons_of_mem _ List.mem_cons_self
    refine (hstored _ hacc).trans ?_
    rw [hcalls]
    exact ghost_accumulate hacc
  have hmass : slotAttribute m' firstSlot .mass = 1 :=
    hresult.sameReads ⟨0, 0, .attribute .mass⟩
      (by simp [StageArgs.hydroPass, hydroInteraction, dvdtLeaves])
  have hslots : ParticleMemory.liveSlots m' twoFramesView.sourcePR = [firstSlot] :=
    (hresult.sameReads.liveSlots hfn _).trans rfl
  rw [momentumRate, hslots, List.map_singleton, List.sum_singleton, hmass, hdvdt]
  norm_num

/-- Two live particles one apart. -/
theorem updateHydroForces_conserves_twoFrames :
    (∃ m', twoFramesArgs.UpdateHydroForces twoFramesLaunch [twoFramesView] (twoFramesMemory 1 1) m') ∧
      ∀ m', twoFramesArgs.UpdateHydroForces twoFramesLaunch [twoFramesView] (twoFramesMemory 1 1) m' →
        (∀ t, momentumRate m' twoFramesView.sourcePR t = 0) ∧
          energyRate m' twoFramesView.sourcePR = 0 := by
  refine updateHydroForces_conserves twoFramesArgs twoFramesLaunch_lists twoFramesView_lists ?_
  intro b _ slot _
  fin_cases b <;> fin_cases slot <;> decide +kernel

end Sph
end Spearhed
