import Spearhed.Library.Literals
import Spearhed.Particles.PassSums
import Spearhed.Sph.Functors

/-!
# The stages of the hydrodynamics

`UpdateDensity` and `UpdateHydroForces`: a launch that resets some attributes of the target, and
after it an interaction pass that accumulates them.  What a stage stores is a sum over live slots of
the sources (`UpdateHydroForces.stored`), in whatever order the code adds it up.
-/

namespace Spearhed
namespace Sph

open Library Library.Literals Particles InteractionArgs

variable {K : Type} [Field K] [LinearOrder K] {d frameSize : ℕ}

/-- The contents of frames of fluid particles. -/
abbrev FluidMemory (K : Type) (d frameSize : ℕ) : Type :=
  ParticleMemory K d (FluidAttribute d) (fun _ => K) frameSize

/-- What the stages are built with. -/
structure StageArgs (K : Type) where
  kernel : SphKernel K
  gamma : K
  h0 : K
  limits : NumericLimits K
  rsqrt : K → K

namespace StageArgs

variable (S : StageArgs K)

/-- The radius of the passes. -/
def radius : K := S.kernel.supportRadius * S.h0

/-- The pass of `UpdateDensity`. -/
def densityPass : InteractionArgs K d (FluidAttribute d) fun _ => K :=
  ⟨accumulateDensity S.kernel, S.radius, S.limits, S.rsqrt⟩

/-- The pass of `UpdateHydroForces`. -/
def hydroPass : InteractionArgs K d (FluidAttribute d) fun _ => K :=
  ⟨hydroInteraction S.kernel S.gamma, S.radius, S.limits, S.rsqrt⟩

/-- `UpdateDensity`. -/
def UpdateDensity (launch : FrameLaunch K d) (sources : List (SourceView K d))
    (m m' : FluidMemory K d frameSize) : Prop :=
  ∃ results m₀ calls, Program.Runs (fun b : Fin launch.totalFrames.toNat =>
      hierarchyForEachKernel launch (densityInitSelf S.kernel frameSize) b) m results m₀ ∧
    S.densityPass.InteractRuns launch .default sources m₀ calls m'

/-- `UpdateHydroForces`. -/
def UpdateHydroForces (launch : FrameLaunch K d) (sources : List (SourceView K d))
    (m m' : FluidMemory K d frameSize) : Prop :=
  ∃ results m₀ calls, Program.Runs (fun b : Fin launch.totalFrames.toNat =>
      hierarchyForEachKernel launch (zeroDerivatives K d frameSize) b) m results m₀ ∧
    S.hydroPass.InteractRuns launch .default sources m₀ calls m'

end StageArgs

/-! ## Resetting -/

section Reset

variable {launch : FrameLaunch K d} {m m₀ : FluidMemory K d frameSize}
  {results : Fin launch.totalFrames.toNat → Unit}

omit [LinearOrder K] in
/-- `ZeroDerivatives` on a slot. -/
theorem exec_zeroDerivatives (m : FluidMemory K d frameSize) (frame : FramePtr)
    (slot : Fin frameSize) {a : FluidAttribute d}
    (ha : .attribute a ∈ dvdtLeaves d ++ [.attribute .dudt]) :
    (((zeroDerivatives K d frameSize).run frame slot).exec m).2 ⟨frame, slot, .attribute a⟩ =
      (0 : K) :=
  exec_storeFields slot _ m ha

omit [LinearOrder K] in
/-- **The derivatives of live slots are zero**, after every run of the launch. -/
theorem zeroDerivatives_stored {regions : List (ParticleRegion K d)} (hlists : launch.Lists regions)
    (h : Program.Runs (fun b : Fin launch.totalFrames.toNat =>
      hierarchyForEachKernel launch (zeroDerivatives K d frameSize) b) m results m₀)
    {p : RegionFrameSlot K d frameSize} (hp : p ∈ m.liveSlots regions) {a : FluidAttribute d}
    (ha : .attribute a ∈ dvdtLeaves d ++ [.attribute .dudt]) :
    m₀ ⟨p.1.2, p.2, .attribute a⟩ = (0 : K) := by
  obtain ⟨hx, hocc⟩ := mem_liveSlots.mp hp
  obtain ⟨b, r, hregion, hframe, -⟩ := hlists p.1 hx
  have hb := FrameLaunch.lt_of_ownRegion (by rw [hregion]; nofun)
  rw [← hframe] at hocc ⊢
  exact (((zeroDerivatives K d frameSize).launchResult_of_runs h).stored b hb p.2 hocc _ ha).trans
    (exec_zeroDerivatives m _ _ ha)

/-- Zeroing changes the accumulators of the pass only. -/
theorem zeroDerivatives_sameReads (S : StageArgs K)
    (h : Program.Runs (fun b : Fin launch.totalFrames.toNat =>
      hierarchyForEachKernel launch (zeroDerivatives K d frameSize) b) m results m₀) :
    S.hydroPass.SameReads m m₀ := by
  intro a ha
  refine ((zeroDerivatives K d frameSize).launchResult_of_runs h).kept a fun _ _ _ _ hwrites => ha ?_
  simp only [zeroDerivatives, List.mem_append, List.mem_singleton] at hwrites
  exact List.mem_cons.mpr hwrites.symm

end Reset

/-! ## The forces of a pair -/

/-- What the functor sees of a slot, as neighbour and as own particle. -/
def stagedRecord (gamma : K) (m : FluidMemory K d frameSize) (frame : FramePtr)
    (slot : Fin frameSize) : StagedRecord K d :=
  let particle (a : FluidAttribute d) : K := m ⟨frame, slot, .attribute a⟩
  { pOverRho2 := pressure gamma (particle .density) (particle .internalEnergy) /
      (particle .density * particle .density)
    mass := particle .mass
    smoothingLength := particle .smoothingLength
    vel := fun t => particle (.vel t) }

/-- What a pair adds to `dvdt`. -/
def pairAcceleration (kernel : SphKernel K) (own nb : StagedRecord K d) (ctx : PairContext K d)
    (t : Fin (d + 1)) : K :=
  if ctx.isSelf then 0
  else -((nb.mass * own.pOverRho2 * kernel.gradWScalar ctx.r ctx.invR own.smoothingLength +
    nb.mass * nb.pOverRho2 * kernel.gradWScalar ctx.r ctx.invR nb.smoothingLength) * ctx.rVec t)

/-- What a pair adds to `dudt`. -/
def pairHeating (kernel : SphKernel K) (own nb : StagedRecord K d) (ctx : PairContext K d) : K :=
  if ctx.isSelf then 0
  else nb.mass * own.pOverRho2 * kernel.gradWScalar ctx.r ctx.invR own.smoothingLength *
    ∑ t, (own.vel t - nb.vel t) * ctx.rVec t

/-- What a pair adds to `density`. -/
def pairDensity (kernel : SphKernel K) (h m_j : K) (ctx : PairContext K d) : K :=
  if ctx.isSelf then 0 else m_j * kernel.W ctx.r h

section Calls

variable (kernel : SphKernel K) (gamma : K) (m : FluidMemory K d frameSize) (frame : FramePtr)
  (slot : Fin frameSize)

omit [LinearOrder K] in
/-- What a call adds to an attribute, added up over all pairs. -/
theorem accumulate_attribute {fn : FluidFunctor K d} {ownReads : FluidRecord K fn.ownReads}
    {a : FluidAttribute d} (ha : .attribute a ∈ fn.ownAccumulate) (g : PairRecord fn frameSize → K)
    (hcall : ∀ (pair : PairRecord fn frameSize) (acc : FluidRecord K fn.ownAccumulate),
      FluidRecord.get (fn.call ownReads (fn.prepare ownReads) pair.neighbour pair.ctx acc) a ha =
        FluidRecord.get acc a ha + g pair)
    (ownAcc : FluidRecord K fn.ownAccumulate) (pairs : List (PairRecord fn frameSize)) :
    FluidRecord.get (fn.accumulate ownReads ownAcc pairs) a ha =
      FluidRecord.get ownAcc a ha + (pairs.map g).sum := by
  rw [InteractionFunctor.accumulate]
  induction pairs generalizing ownAcc with
  | nil => exact (add_zero _).symm
  | cons pair pairs ih =>
    rw [List.foldl_cons, ih, hcall, List.map_cons, List.sum_cons, add_assoc]

/-- The functor on the own record of a slot. -/
abbrev hydroCall (nb : StagedRecord K d) (ctx : PairContext K d)
    (acc : FluidRecord K (hydroInteraction kernel gamma : FluidFunctor K d).ownAccumulate) :
    FluidRecord K (hydroInteraction kernel gamma : FluidFunctor K d).ownAccumulate :=
  let ownReads := m.fields frame slot (hydroInteraction kernel gamma : FluidFunctor K d).ownReads
  (hydroInteraction kernel gamma).call ownReads ((hydroInteraction kernel gamma).prepare ownReads)
    nb ctx acc

theorem hydroCall_dvdt (nb : StagedRecord K d) (ctx : PairContext K d)
    (acc : FluidRecord K (hydroInteraction kernel gamma : FluidFunctor K d).ownAccumulate)
    (t : Fin (d + 1)) (ht : .attribute (.dvdt t) ∈
      (hydroInteraction kernel gamma : FluidFunctor K d).ownAccumulate) :
    FluidRecord.get (hydroCall kernel gamma m frame slot nb ctx acc) (.dvdt t) ht =
      FluidRecord.get acc (.dvdt t) ht +
        pairAcceleration kernel (stagedRecord gamma m frame slot) nb ctx t := by
  rw [pairAcceleration]
  by_cases hself : ctx.isSelf = true
  · rw [if_pos hself, add_zero]
    exact congrArg (fun acc' => FluidRecord.get acc' (.dvdt t) ht) (if_pos hself)
  · rw [if_neg hself, ← sub_eq_add_neg]
    exact (congrArg (fun acc' => FluidRecord.get acc' (.dvdt t) ht) (if_neg hself)).trans rfl

theorem hydroCall_dudt (nb : StagedRecord K d) (ctx : PairContext K d)
    (acc : FluidRecord K (hydroInteraction kernel gamma : FluidFunctor K d).ownAccumulate)
    (h : .attribute .dudt ∈ (hydroInteraction kernel gamma : FluidFunctor K d).ownAccumulate) :
    FluidRecord.get (hydroCall kernel gamma m frame slot nb ctx acc) .dudt h =
      FluidRecord.get acc .dudt h + pairHeating kernel (stagedRecord gamma m frame slot) nb ctx := by
  rw [pairHeating]
  by_cases hself : ctx.isSelf = true
  · rw [if_pos hself, add_zero]
    exact congrArg (fun acc' => FluidRecord.get acc' .dudt h) (if_pos hself)
  · have hdot : ∑ t, ((stagedRecord gamma m frame slot).vel t - nb.vel t) * ctx.rVec t =
        (List.finRange (d + 1)).foldl (fun dot t =>
          dot + ((stagedRecord gamma m frame slot).vel t - nb.vel t) * ctx.rVec t) 0 := by
      rw [foldl_add_eq, zero_add, Fin.sum_univ_def]
    rw [if_neg hself, hdot]
    exact (congrArg (fun acc' => FluidRecord.get acc' .dudt h) (if_neg hself)).trans rfl

omit [LinearOrder K] in
theorem accumulateDensity_call (nb : FluidRecord K [.attribute (.mass : FluidAttribute d)])
    (ctx : PairContext K d)
    (acc : FluidRecord K (accumulateDensity kernel : FluidFunctor K d).ownAccumulate)
    (h : .attribute .density ∈ (accumulateDensity kernel : FluidFunctor K d).ownAccumulate) :
    FluidRecord.get ((accumulateDensity kernel).call
        (m.fields frame slot (accumulateDensity kernel : FluidFunctor K d).ownReads) () nb ctx acc)
        .density h =
      FluidRecord.get acc .density h + pairDensity kernel
        (m ⟨frame, slot, .attribute .smoothingLength⟩) (nb (.attribute .mass) List.mem_cons_self)
        ctx := by
  unfold pairDensity
  by_cases hself : ctx.isSelf = true
  · rw [if_pos hself, add_zero]
    exact congrArg (fun acc' => FluidRecord.get acc' .density h) (if_pos hself)
  · rw [if_neg hself]
    exact (congrArg (fun acc' => FluidRecord.get acc' .density h) (if_neg hself)).trans rfl

end Calls

/-! ## What the stages store -/

namespace StageArgs

variable (S : StageArgs K) (m : FluidMemory K d frameSize) (p q : RegionFrameSlot K d frameSize)

/-- What slot `q` adds to `density` of slot `p`. -/
def density : K :=
  if squaredLength (m.separation p q) < S.radius * S.radius then
    pairDensity S.kernel (m ⟨p.1.2, p.2, .attribute .smoothingLength⟩)
      (m ⟨q.1.2, q.2, .attribute .mass⟩) (S.densityPass.slotContext m p q)
  else 0

/-- What slot `q` adds to `dvdt` of slot `p`. -/
def acceleration (t : Fin (d + 1)) : K :=
  if squaredLength (m.separation p q) < S.radius * S.radius then
    pairAcceleration S.kernel (stagedRecord S.gamma m p.1.2 p.2) (stagedRecord S.gamma m q.1.2 q.2)
      (S.hydroPass.slotContext m p q) t
  else 0

/-- What slot `q` adds to `dudt` of slot `p`. -/
def heating : K :=
  if squaredLength (m.separation p q) < S.radius * S.radius then
    pairHeating S.kernel (stagedRecord S.gamma m p.1.2 p.2) (stagedRecord S.gamma m q.1.2 q.2)
      (S.hydroPass.slotContext m p q)
  else 0

variable {S m p} {m' : FluidMemory K d frameSize} {launch : FrameLaunch K d}
  {regions : List (ParticleRegion K d)} {sources : List (SourceView K d)} {R : K}

/-- **`UpdateHydroForces` in a live slot.** -/
theorem UpdateHydroForces.stored (h : S.UpdateHydroForces launch sources m m')
    (hlists : launch.Lists regions) (hsources : ∀ view ∈ sources, view.Lists regions R)
    (hcull : S.hydroPass.CullsSentinel launch m) (hp : p ∈ m.liveSlots regions) :
    (∀ t, m' ⟨p.1.2, p.2, .attribute (.dvdt t)⟩ =
      ((m.neighbourSlots sources R p).map fun q => S.acceleration m p q t).sum) ∧
    m' ⟨p.1.2, p.2, .attribute .dudt⟩ =
      ((m.neighbourSlots sources R p).map fun q => S.heating m p q).sum := by
  obtain ⟨results, m₀, calls, hzero, hpass⟩ := h
  have hfn : (S.hydroPass (d := d)).fn.Isolated := hydroInteraction_isolated S.kernel S.gamma
  have hsame := zeroDerivatives_sameReads S hzero
  have hresult := passResult_of_interactRuns hfn (hsame.cullsSentinel hfn hcull) hpass
  have hp₀ : p ∈ ParticleMemory.liveSlots m₀ regions := by rwa [hsame.liveSlots hfn]
  obtain ⟨b, r, hframe, hr, hstored⟩ := hresult.stored_liveSlot hlists hp₀
  rw [InteractionArgs.sourcePairs, hsame.livePairs hfn, hsame.ownReads hfn] at hstored
  have hsum := fun g : PairRecord (S.hydroPass (d := d)).fn frameSize → K =>
    InteractionArgs.sum_sourcePairs (m := m) hsources hframe hr g
  constructor
  · intro t
    have hmem : .attribute (.dvdt t) ∈ dvdtLeaves d ++ [.attribute .dudt] := by simp [dvdtLeaves]
    have hacc : .attribute (.dvdt t) ∈ (S.hydroPass (d := d)).fn.ownAccumulate :=
      List.mem_cons_of_mem _ (by simp [dvdtLeaves])
    refine (hstored _ hacc).trans ((accumulate_attribute hacc _ (fun pair acc =>
      hydroCall_dvdt S.kernel S.gamma m p.1.2 p.2 pair.neighbour pair.ctx acc t hacc) _ _).trans ?_)
    have hinit := zeroDerivatives_stored hlists hzero hp hmem
    rw [FluidRecord.get, ParticleMemory.fields, hinit]
    exact (zero_add _).trans (hsum _)
  · have hmem : .attribute .dudt ∈ dvdtLeaves d ++ [.attribute .dudt] := by simp
    have hacc : .attribute .dudt ∈ (S.hydroPass (d := d)).fn.ownAccumulate := List.mem_cons_self
    refine (hstored _ hacc).trans ((accumulate_attribute hacc _ (fun pair acc =>
      hydroCall_dudt S.kernel S.gamma m p.1.2 p.2 pair.neighbour pair.ctx acc hacc) _ _).trans ?_)
    have hinit := zeroDerivatives_stored hlists hzero hp hmem
    rw [FluidRecord.get, ParticleMemory.fields, hinit]
    exact (zero_add _).trans (hsum _)

/-- `UpdateHydroForces` changes the derivatives only. -/
theorem UpdateHydroForces.sameReads (h : S.UpdateHydroForces launch sources m m')
    (hcull : S.hydroPass.CullsSentinel launch m) : S.hydroPass.SameReads m m' := by
  obtain ⟨results, m₀, calls, hzero, hpass⟩ := h
  have hfn : (S.hydroPass (d := d)).fn.Isolated := hydroInteraction_isolated S.kernel S.gamma
  have hsame := zeroDerivatives_sameReads S hzero
  have hresult := passResult_of_interactRuns hfn (hsame.cullsSentinel hfn hcull) hpass
  exact fun a ha => (hresult.sameReads a ha).trans (hsame a ha)

end StageArgs

end Sph
end Spearhed
