import Spearhed.Sph.Pusher
import Spearhed.Sph.Stages

/-!
# What the stages do to records

`UpdateDensity` and `UpdateHydroForces` change the density, or the derivatives, of the live particles
of their target, and nothing else (`UpdateDensity.particle`, `UpdateHydroForces.particle`).  The frames
of other buffers stay as they are (`UpdateDensity.particle_of_ne`, `UpdateHydroForces.particle_of_ne`).
-/

namespace Spearhed
namespace Sph

open Library Particles InteractionArgs

variable {K : Type} [Field K] [LinearOrder K] {d frameSize : ℕ}

/-! ## Records -/

omit [Field K] [LinearOrder K] in
/-- A particle with another density. -/
def setDensity (rho : K) (p : FluidParticle K d) : FluidParticle K d :=
  { p with
    attributes := fun a => match a with
      | .density => rho
      | a => p.attributes a }

omit [Field K] [LinearOrder K] in
/-- A particle with other derivatives. -/
def setDerivatives (dvdt : Vec K d) (dudt : K) (p : FluidParticle K d) : FluidParticle K d :=
  { p with
    attributes := fun a => match a with
      | .dvdt t => dvdt t
      | .dudt => dudt
      | a => p.attributes a }

variable {S : StageArgs K} {launch : FrameLaunch K d} {m m₀ m' : FluidMemory K d frameSize}
  {results : Fin launch.totalFrames.toNat → Unit} {regions : List (ParticleRegion K d)}
  {sources : List (SourceView K d)} {R : K} {p : RegionFrameSlot K d frameSize}

/-! ## The density of a particle alone -/

omit [LinearOrder K] in
theorem exec_densityInitSelf (kernel : SphKernel K) (m : FluidMemory K d frameSize)
    (frame : FramePtr) (slot : Fin frameSize) :
    (((densityInitSelf kernel frameSize).run frame slot).exec m).2
        ⟨frame, slot, .attribute .density⟩ =
      (ParticleMemory.particle m frame slot).attributes .mass *
        kernel.W 0 ((ParticleMemory.particle m frame slot).attributes .smoothingLength) :=
  Function.update_self ..

omit [LinearOrder K] in
/-- The launch changes densities only. -/
theorem densityInitSelf_sameReads (S : StageArgs K)
    (h : Program.Runs (fun b : Fin launch.totalFrames.toNat =>
      hierarchyForEachKernel launch (densityInitSelf S.kernel frameSize) b) m results m₀) :
    S.densityPass.SameReads m m₀ := fun a ha =>
  ((densityInitSelf S.kernel frameSize).launchResult_of_runs h).kept a fun _ _ _ _ hwrites => ha hwrites

omit [LinearOrder K] in
/-- **A live particle starts from its own contribution.** -/
theorem densityInitSelf_stored (hlists : launch.Lists regions)
    (h : Program.Runs (fun b : Fin launch.totalFrames.toNat =>
      hierarchyForEachKernel launch (densityInitSelf S.kernel frameSize) b) m results m₀)
    (hp : p ∈ ParticleMemory.liveSlots m regions) :
    m₀ ⟨p.1.2, p.2, .attribute .density⟩ =
      (ParticleMemory.particle m p.1.2 p.2).attributes .mass *
        S.kernel.W 0 ((ParticleMemory.particle m p.1.2 p.2).attributes .smoothingLength) := by
  obtain ⟨hx, hocc⟩ := mem_liveSlots.mp hp
  obtain ⟨b, r, hregion, hframe, -⟩ := hlists p.1 hx
  have hb := FrameLaunch.lt_of_ownRegion (by rw [hregion]; nofun)
  rw [← hframe] at hocc ⊢
  exact (((densityInitSelf S.kernel frameSize).launchResult_of_runs h).stored b hb p.2 hocc _
    List.mem_cons_self).trans (exec_densityInitSelf S.kernel m _ _)

/-! ## `UpdateDensity` -/

namespace StageArgs

/-- There is a run of the stage. -/
theorem exists_updateDensity (S : StageArgs K) (launch : FrameLaunch K d)
    (sources : List (SourceView K d)) (m : FluidMemory K d frameSize) :
    ∃ m', S.UpdateDensity launch sources m m' := by
  have hfn : (S.densityPass (d := d)).fn.Isolated := accumulateDensity_isolated S.kernel
  have hindep : Program.Independent (fun b : Fin launch.totalFrames.toNat =>
      hierarchyForEachKernel launch (densityInitSelf S.kernel frameSize) b) _ _ :=
    ParticleBody.independent_hierarchyForEachKernel _
  obtain ⟨results, m₀, hinit⟩ := hindep.exists_runs m
  obtain ⟨calls, m', hpass⟩ := InteractionArgs.exists_interactRuns launch sources m₀ hfn
    (fun _ => ⟨fun _ _ => 0, fun slot =>
      (S.densityPass (d := d)).fn.stage (ParticleMemory.fields m₀ 0 slot _)⟩) .default
  exact ⟨m', results, m₀, calls, hinit, hpass⟩

/-- `UpdateDensity` changes densities only. -/
theorem UpdateDensity.sameReads (h : S.UpdateDensity launch sources m m')
    (hcull : S.densityPass.CullsSentinel launch m) : S.densityPass.SameReads m m' := by
  obtain ⟨results, m₀, calls, hinit, hpass⟩ := h
  have hfn : (S.densityPass (d := d)).fn.Isolated := accumulateDensity_isolated S.kernel
  have hsame := densityInitSelf_sameReads S hinit
  have hresult := passResult_of_interactRuns hfn (hsame.cullsSentinel hfn hcull) hpass
  exact fun a ha => (hresult.sameReads a ha).trans (hsame a ha)

/-- **`UpdateDensity` in a live slot**: its own contribution, and one for each slot that is found. -/
theorem UpdateDensity.stored (h : S.UpdateDensity launch sources m m')
    (hlists : launch.Lists regions) (hsources : ∀ view ∈ sources, view.Lists regions R)
    (hcull : S.densityPass.CullsSentinel launch m) (hp : p ∈ ParticleMemory.liveSlots m regions) :
    m' ⟨p.1.2, p.2, .attribute .density⟩ =
      (ParticleMemory.particle m p.1.2 p.2).attributes .mass *
          S.kernel.W 0 ((ParticleMemory.particle m p.1.2 p.2).attributes .smoothingLength) +
        ((ParticleMemory.neighbourSlots m sources R p).map fun q => S.density m p q).sum := by
  obtain ⟨results, m₀, calls, hinit, hpass⟩ := h
  have hfn : (S.densityPass (d := d)).fn.Isolated := accumulateDensity_isolated S.kernel
  have hsame := densityInitSelf_sameReads S hinit
  have hresult := passResult_of_interactRuns hfn (hsame.cullsSentinel hfn hcull) hpass
  have hp₀ : p ∈ ParticleMemory.liveSlots m₀ regions := by rwa [hsame.liveSlots hfn]
  obtain ⟨b, r, hframe, hr, hstored⟩ := hresult.stored_liveSlot hlists hp₀
  rw [InteractionArgs.sourcePairs, hsame.livePairs hfn, hsame.ownReads hfn] at hstored
  have hacc : .attribute .density ∈ (S.densityPass (d := d)).fn.ownAccumulate := List.mem_cons_self
  refine (hstored _ hacc).trans ((accumulate_attribute hacc _ (fun pair acc =>
    accumulateDensity_call S.kernel m p.1.2 p.2 pair.neighbour pair.ctx acc hacc) _ _).trans ?_)
  have hself := densityInitSelf_stored hlists hinit hp
  rw [FluidRecord.get, ParticleMemory.fields, hself]
  exact congrArg _ (InteractionArgs.sum_sourcePairs (m := m) hsources hframe hr _)

omit [Field K] [LinearOrder K] in
/-- A launch leaves other frames alone. -/
theorem particle_of_launch {body : ParticleBody K d (FluidAttribute d) (fun _ => K) frameSize}
    (h : Program.Runs (fun b : Fin launch.totalFrames.toNat =>
      hierarchyForEachKernel launch body b) m results m₀) {frame : FramePtr} (slot : Fin frameSize)
    (hframe : ∀ b < (toInt launch.totalFrames).toNat, frame ≠ launch.framePtrs b) :
    ParticleMemory.particle m₀ frame slot = ParticleMemory.particle m frame slot :=
  ParticleMemory.particle_eq fun l => by
    rw [ParticleMemory.particle_leaf]
    exact (body.launchResult_of_runs h).kept ⟨frame, slot, l⟩ fun b hb heq =>
      absurd heq (hframe b hb)

omit [Field K] [LinearOrder K] in
/-- A pass leaves other frames alone. -/
theorem particle_of_pass {I : InteractionArgs K d (FluidAttribute d) fun _ => K}
    {pairs : ℕ → ℕ → ParticleRegion K d → BlockCalls I.fn frameSize}
    {calls : Fin launch.totalFrames.toNat → BlockCalls I.fn frameSize}
    (h : I.PassResult launch pairs m calls m') {frame : FramePtr} (slot : Fin frameSize)
    (hframe : ∀ b < (toInt launch.totalFrames).toNat, frame ≠ launch.framePtrs b) :
    ParticleMemory.particle m' frame slot = ParticleMemory.particle m frame slot :=
  ParticleMemory.particle_eq fun l => by
    rw [ParticleMemory.particle_leaf]
    exact h.kept ⟨frame, slot, l⟩ fun b hregion heq =>
      absurd heq (hframe b (FrameLaunch.lt_of_ownRegion hregion))

theorem UpdateDensity.particle_of_ne (h : S.UpdateDensity launch sources m m')
    (hcull : S.densityPass.CullsSentinel launch m) {frame : FramePtr} (slot : Fin frameSize)
    (hframe : ∀ b < (toInt launch.totalFrames).toNat, frame ≠ launch.framePtrs b) :
    ParticleMemory.particle m' frame slot = ParticleMemory.particle m frame slot := by
  obtain ⟨results, m₀, calls, hinit, hpass⟩ := h
  have hfn : (S.densityPass (d := d)).fn.Isolated := accumulateDensity_isolated S.kernel
  have hculled := (densityInitSelf_sameReads S hinit).cullsSentinel hfn hcull
  exact (particle_of_pass (passResult_of_interactRuns hfn hculled hpass) slot hframe).trans
    (particle_of_launch hinit slot hframe)

/-- **`UpdateDensity` on the record of a live slot.** -/
theorem UpdateDensity.particle (h : S.UpdateDensity launch sources m m')
    (hlists : launch.Lists regions) (hsources : ∀ view ∈ sources, view.Lists regions R)
    (hcull : S.densityPass.CullsSentinel launch m) (hp : p ∈ ParticleMemory.liveSlots m regions) :
    ParticleMemory.particle m' p.1.2 p.2 =
      setDensity ((ParticleMemory.particle m p.1.2 p.2).attributes .mass *
          S.kernel.W 0 ((ParticleMemory.particle m p.1.2 p.2).attributes .smoothingLength) +
        ((ParticleMemory.neighbourSlots m sources R p).map fun q => S.density m p q).sum)
        (ParticleMemory.particle m p.1.2 p.2) := by
  have hsame := h.sameReads hcull
  refine ParticleMemory.particle_eq fun l => ?_
  by_cases hl : l = .attribute .density
  · subst hl
    exact h.stored hlists hsources hcull hp
  · refine (hsame ⟨p.1.2, p.2, l⟩ fun hacc => hl (List.mem_singleton.mp hacc)).trans ?_
    match l, hl with
    | .relativePos _, _ => rfl
    | .multiMask, _ => rfl
    | .attribute .density, hl => exact absurd rfl hl
    | .attribute .mass, _ => rfl
    | .attribute .smoothingLength, _ => rfl
    | .attribute .internalEnergy, _ => rfl
    | .attribute (.vel _), _ => rfl
    | .attribute (.dvdt _), _ => rfl
    | .attribute .dudt, _ => rfl

/-! ## `UpdateHydroForces` -/

theorem UpdateHydroForces.particle_of_ne (h : S.UpdateHydroForces launch sources m m')
    (hcull : S.hydroPass.CullsSentinel launch m) {frame : FramePtr} (slot : Fin frameSize)
    (hframe : ∀ b < (toInt launch.totalFrames).toNat, frame ≠ launch.framePtrs b) :
    ParticleMemory.particle m' frame slot = ParticleMemory.particle m frame slot := by
  obtain ⟨results, m₀, calls, hzero, hpass⟩ := h
  have hfn : (S.hydroPass (d := d)).fn.Isolated := hydroInteraction_isolated S.kernel S.gamma
  have hculled := (zeroDerivatives_sameReads S hzero).cullsSentinel hfn hcull
  exact (particle_of_pass (passResult_of_interactRuns hfn hculled hpass) slot hframe).trans
    (particle_of_launch hzero slot hframe)

/-- **`UpdateHydroForces` on the record of a live slot.** -/
theorem UpdateHydroForces.particle (h : S.UpdateHydroForces launch sources m m')
    (hlists : launch.Lists regions) (hsources : ∀ view ∈ sources, view.Lists regions R)
    (hcull : S.hydroPass.CullsSentinel launch m) (hp : p ∈ ParticleMemory.liveSlots m regions) :
    ParticleMemory.particle m' p.1.2 p.2 =
      setDerivatives (fun t => ((ParticleMemory.neighbourSlots m sources R p).map fun q =>
          S.acceleration m p q t).sum)
        (((ParticleMemory.neighbourSlots m sources R p).map fun q => S.heating m p q).sum)
        (ParticleMemory.particle m p.1.2 p.2) := by
  have hsame := h.sameReads hcull
  obtain ⟨hdvdt, hdudt⟩ := h.stored hlists hsources hcull hp
  have hkept : ∀ l : FluidLeaf d, (∀ t, l ≠ .attribute (.dvdt t)) → l ≠ .attribute .dudt →
      m' ⟨p.1.2, p.2, l⟩ = m ⟨p.1.2, p.2, l⟩ := fun l hl hl' => by
    refine hsame ⟨p.1.2, p.2, l⟩ fun hacc => ?_
    rcases List.mem_cons.mp hacc with heq | hmem
    · exact hl' heq
    · obtain ⟨t, -, ht⟩ := List.mem_map.mp hmem
      exact hl t ht.symm
  refine ParticleMemory.particle_eq fun l => ?_
  match l with
  | .attribute (.dvdt t) => exact hdvdt t
  | .attribute .dudt => exact hdudt
  | .relativePos _ => exact hkept _ nofun nofun
  | .multiMask => exact hkept _ nofun nofun
  | .attribute .density => exact hkept _ nofun nofun
  | .attribute .mass => exact hkept _ nofun nofun
  | .attribute .smoothingLength => exact hkept _ nofun nofun
  | .attribute .internalEnergy => exact hkept _ nofun nofun
  | .attribute (.vel _) => exact hkept _ nofun nofun

end StageArgs

end Sph
end Spearhed
