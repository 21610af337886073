import Spearhed.Control.SentinelStep

/-!
# A time step refines the sequential step

`runOneStep` as a whole, from particles to particles: whatever the order in which branches and blocks
run, the particles of every species end up as in the sequential step (`runOneStep_sequential`), as long
as no particle comes near to the sentinel.

At the sentinel a pass adds up what shared memory held before it, for every dead slot, and the step is
not the sequential one (`runOneStep_ne_sequential`).
-/

namespace Spearhed
namespace Control

open Library Particles Sph SimulationState RunArgs InteractionArgs

variable {K : Type} [Field K] [LinearOrder K] {d frameSize : ℕ}

/-! ## The whole step -/

/-- The positions after a step are those after pushing. -/
theorem positions_sequentialStep (S : StepArgs K) (X : SpeciesParticles K d) (species : Species) :
    (S.sequentialStep X species).map Particle.relativePos =
      (S.sequentialPush X species).map Particle.relativePos := by
  have hintegrate : ∀ Y : SpeciesParticles K d, (S.sequentialIntegrate Y species).map
      Particle.relativePos = (Y species).map Particle.relativePos := fun Y => by
    rw [StepArgs.sequentialIntegrate]
    split
    · rw [Multiset.map_map]
      rfl
    · rfl
  have hupdate : ∀ (Y : SpeciesParticles K d) (F : FluidParticle K d → FluidParticle K d),
      (∀ p, (F p).relativePos = p.relativePos) →
        (Function.update Y .Default ((Y .Default).map F) species).map Particle.relativePos =
          (Y species).map Particle.relativePos := fun Y F hF => by
    by_cases hspecies : species = .Default
    · subst hspecies
      rw [Function.update_self, Multiset.map_map]
      exact Multiset.map_congr rfl fun p _ => hF p
    · rw [Function.update_of_ne hspecies]
  calc (S.sequentialStep X species).map Particle.relativePos
      = (S.sequentialForces (S.sequentialDensity (S.sequentialPush X)) species).map
          Particle.relativePos := hintegrate _
    _ = (S.sequentialDensity (S.sequentialPush X) species).map Particle.relativePos :=
        hupdate _ _ fun _ => rfl
    _ = (S.sequentialPush X species).map Particle.relativePos := hupdate _ _ fun _ => rfl

section Step

variable {args : RunArgs K} {w w' : SimulationState K d frameSize}

/-- **A time step refines the sequential step**: movable particles are pushed, boundary particles stay
as they are, and densities, derivatives, velocities and energies are those of the sums over all
particles. -/
theorem runOneStep_sequential [IsStrictOrderedRing K] (hdefault : (w.buffers .Default).isSome = true)
    (hwf : w.WellFormed) (hidx : w.Indexed) (hh0 : 0 ≤ args.h0)
    (hboundary : ∀ region ∈ (w.reference .Boundary).getD [], region.volume.origin = (fun _ => 0) ∧
      ∀ p ∈ region.particles, region.volume.Contains p.relativePos)
    (hclear : args.Clear (args.referenceMoved w.reference)) :
    (∃ w', args.RunOneStep w w') ∧ ∀ w', args.RunOneStep w w' →
      w'.reference.particles = args.sequentialStep w.reference.particles ∧
      (∀ S : Species, S.hasRole .Movable = true → (w'.reference.particles S).map Particle.relativePos =
        (w.reference.particles S).map fun p t =>
          p.relativePos t + p.attributes (.vel t) * args.dt) ∧
      w'.reference.particles .Boundary = w.reference.particles .Boundary ∧
      w'.WellFormed ∧ w'.Indexed := by
  have hR : 0 ≤ args.radius := mul_nonneg (Nat.cast_nonneg _) hh0
  refine ⟨exists_runOneStep args hdefault hwf hidx, fun w' h => ?_⟩
  obtain ⟨hkeeps, hindexed, hreference⟩ := h.spec hwf hidx hclear
  have hparticles : w'.reference.particles = args.sequentialStep w.reference.particles := by
    rw [hreference]
    exact args.particles_referenceStep hR hboundary
  refine ⟨hparticles, fun S hS => ?_, ?_, hkeeps.wellFormed hwf, hindexed⟩
  · have hroles : S.hasRoles [.Movable] = true := by
      rw [Species.hasRoles, List.all_cons, List.all_nil, hS]
      rfl
    rw [hparticles, positions_sequentialStep, StepArgs.sequentialPush, if_pos hroles, Multiset.map_map]
    rfl
  · rw [hparticles]
    rfl

end Step

/-- **At the sentinel a step is not the sequential one.** -/
theorem runOneStep_ne_sequential : ∃ w w' : SimulationState ℚ 0 2,
    (w.buffers .Default).isSome = true ∧ w.WellFormed ∧ w.Indexed ∧ 0 ≤ singleArgs.h0 ∧
      (∀ S, ∀ region ∈ (w.reference S).getD [], region.volume.origin = (fun _ => 0) ∧
        ∀ p ∈ region.particles, region.volume.Contains p.relativePos) ∧
      singleArgs.RunOneStep w w' ∧
      w'.reference.particles ≠ singleArgs.sequentialStep w.reference.particles := by
  obtain ⟨w, hsome, hwf, hidx, hreference⟩ := exists_single 100
  -- more than the density of the sequential step
  obtain ⟨w', rho, hrun, hdensity, hlt⟩ := exists_single_gt hwf hidx hreference
    ((singleArgs.sequentialStep w.reference.particles .Default).map fun p => p.attributes .density).sum
  refine ⟨w, w', hsome, hwf, hidx, ?_, fun S region hregion => ?_, hrun, fun heq => ?_⟩
  · show (0 : ℚ) ≤ 1
    norm_num
  · obtain ⟨hdefault, hboundary⟩ := initialReference_singleBlock 100
    rw [hreference] at hregion
    cases S with
    | Default =>
      rw [hdefault] at hregion
      obtain rfl := List.mem_singleton.mp hregion
      refine ⟨rfl, fun p hp t => ?_⟩
      obtain rfl := Multiset.mem_singleton.mp hp
      show (0 : ℚ) ≤ 100 ∧ (100 : ℚ) ≤ 200
      norm_num
    | Boundary =>
      rw [hboundary] at hregion
      cases hregion
    | Tracer => cases hregion
  · rw [← heq, hdensity, Multiset.sum_singleton] at hlt
    exact lt_irrefl _ hlt

/-- Three particles and a wall, away from the sentinel. -/
theorem runOneStep_sequential_row : ∃ w : SimulationState ℚ 0 2,
    w.reference = initialReference 2 rowSetup ∧ (∃ w', singleArgs.RunOneStep w w') ∧
      ∀ w', singleArgs.RunOneStep w w' → w'.reference.particles =
        singleArgs.sequentialStep (ReferenceState.particles (initialReference 2 rowSetup)) := by
  obtain ⟨w, hsome, hwf, hidx, hreference⟩ := exists_row
  have hclear : singleArgs.Clear (singleArgs.referenceMoved w.reference) := by
    rw [hreference]
    exact clear_rowSetup
  have hwall : ∀ region ∈ (w.reference .Boundary).getD [], region.volume.origin = (fun _ => 0) ∧
      ∀ p ∈ region.particles, region.volume.Contains p.relativePos := by
    intro region hregion
    rw [hreference, initialReference_rowSetup.2] at hregion
    obtain rfl := List.mem_singleton.mp hregion
    refine ⟨rfl, fun p hp t => ?_⟩
    obtain rfl := Multiset.mem_singleton.mp hp
    show (0 : ℚ) ≤ 0 ∧ (0 : ℚ) ≤ 200
    norm_num
  obtain ⟨hexists, hstep⟩ := runOneStep_sequential hsome hwf hidx (show (0 : ℚ) ≤ 1 by norm_num) hwall hclear
  refine ⟨w, hreference, hexists, fun w' h => ?_⟩
  rw [← hreference]
  exact (hstep w' h).1

end Control
end Spearhed
