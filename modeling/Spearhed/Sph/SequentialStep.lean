import Mathlib.Tactic.Linarith
import Spearhed.Sph.ReferenceStep

/-!
# The step on particles alone

The time step without regions: a species is a multiset of particles, and the sums of a step are over all
particles of the sources within the radius.

The reference step looks into near boxes only.  Where boxes contain their particles nothing is missed
(`sumNear_eq_sumWithin`), so the particles of the reference step are those of the sequential one
(`particles_referenceStep`).  The boxes of the default species are updated in the step, so this is a
condition on the other sources.
-/

namespace Spearhed
namespace Sph

open Library Particles InteractionArgs

variable {K : Type} [Field K] [LinearOrder K] {d : ℕ}

/-! ## The step -/

/-- The particles of every species. -/
abbrev SpeciesParticles (K : Type) (d : ℕ) : Type := Species → Multiset (FluidParticle K d)

omit [Field K] [LinearOrder K] in
/-- The particles of all regions. -/
def ReferenceState.particles (s : ReferenceState K d) : SpeciesParticles K d := fun S =>
  (((s S).getD []).map ReferenceRegion.particles).sum

namespace StageArgs

variable (S : StageArgs K)

/-- A contribution, of a pair within the radius. -/
def withinTerm (g : PairTerm K d) (p q : FluidParticle K d) : K :=
  let rVec : Vec K d := fun t => p.relativePos t - q.relativePos t
  if squaredLength rVec < S.radius * S.radius then
    g p q ((S.densityPass (d := d)).pairContext rVec false)
  else 0

/-- The sum of the contributions of all other particles. -/
def sumWithin (sources : Multiset (FluidParticle K d)) (g : PairTerm K d) (p : FluidParticle K d) : K :=
  (sources.map (S.withinTerm g p)).sum - S.withinTerm g p p

end StageArgs

omit [Field K] [LinearOrder K] in
/-- The particles of the sources. -/
def sourceParticles (X : SpeciesParticles K d) : Multiset (FluidParticle K d) :=
  X .Default + X .Boundary

namespace StepArgs

variable (S : StepArgs K)

/-- `r + v * dt` for movable species. -/
def sequentialPush (X : SpeciesParticles K d) : SpeciesParticles K d := fun species =>
  if species.hasRoles [.Movable] = true then (X species).map (push S.dt) else X species

/-- The densities of the default species. -/
def sequentialDensity (X : SpeciesParticles K d) : SpeciesParticles K d :=
  Function.update X .Default ((X .Default).map fun p =>
    setDensity (p.attributes .mass * S.kernel.W 0 (p.attributes .smoothingLength) +
      S.sumWithin (sourceParticles X) S.densityTerm p) p)

/-- The derivatives of the default species. -/
def sequentialForces (X : SpeciesParticles K d) : SpeciesParticles K d :=
  Function.update X .Default ((X .Default).map fun p =>
    setDerivatives (fun t => S.sumWithin (sourceParticles X) (S.accelerationTerm t) p)
      (S.sumWithin (sourceParticles X) S.heatingTerm p) p)

/-- `v + dvdt * dt` and `u + dudt * dt` for movable thermodynamic species. -/
def sequentialIntegrate (X : SpeciesParticles K d) : SpeciesParticles K d := fun species =>
  if species.hasRoles [.Movable, .Thermodynamic] = true then (X species).map (integrate S.dt)
  else X species

/-- **The step on particles alone.** -/
def sequentialStep (X : SpeciesParticles K d) : SpeciesParticles K d :=
  S.sequentialIntegrate (S.sequentialForces (S.sequentialDensity (S.sequentialPush X)))

end StepArgs

/-! ## Particles that change one by one -/

section Particles

variable {s : ReferenceState K d}

omit [Field K] [LinearOrder K] in
/-- Particles change in the same way in every region. -/
theorem particles_mapParticles {F : Species → ReferenceRegion K d → FluidParticle K d → FluidParticle K d}
    {species : Species} {f : FluidParticle K d → FluidParticle K d}
    (hF : ∀ region ∈ (s species).getD [], ∀ p ∈ region.particles, F species region p = f p) :
    (s.mapParticles F).particles species = (s.particles species).map f := by
  rw [ReferenceState.particles, ReferenceState.particles, getD_mapParticles]
  generalize (s species).getD [] = regions at hF
  induction regions with
  | nil => rfl
  | cons region regions ih =>
    obtain ⟨hregion, hregions⟩ := List.forall_mem_cons.mp hF
    rw [List.map_cons, List.map_cons, List.map_cons, List.sum_cons, List.sum_cons, Multiset.map_add,
      ih hregions]
    exact congrArg (· + _) (Multiset.map_congr rfl hregion)

theorem particles_updateVolumes (lim : NumericLimits K) :
    (s.updateVolumes lim).particles = s.particles := by
  funext species
  rw [ReferenceState.particles, ReferenceState.particles, ReferenceState.updateVolumes]
  by_cases hspecies : species = .Default
  · subst hspecies
    rw [Function.update_self]
    cases s .Default with
    | none => rfl
    | some regions =>
      rw [Option.map_some, Option.getD_some, Option.getD_some, List.map_map]
      rfl
  · rw [Function.update_of_ne hspecies]

omit [Field K] [LinearOrder K] in
/-- A sum over the particles of some regions. -/
theorem sum_map_particles {M : Type*} [AddCommMonoid M] (regions : List (ReferenceRegion K d))
    (h : FluidParticle K d → M) :
    (((regions.map ReferenceRegion.particles).sum).map h).sum =
      (regions.map fun region => (region.particles.map h).sum).sum := by
  induction regions with
  | nil => rfl
  | cons region regions ih =>
    rw [List.map_cons, List.sum_cons, Multiset.map_add, Multiset.sum_add, ih, List.map_cons,
      List.sum_cons]

end Particles

/-! ## Nothing is missed -/

/-- Boxes of sources have zero origins and contain their particles. -/
def Boxed (s : ReferenceState K d) : Prop :=
  ∀ species : Species, species.hasRole .Source = true → ∀ region ∈ (s species).getD [],
    region.volume.origin = (fun _ => 0) ∧
      ∀ p ∈ region.particles, region.volume.Contains p.relativePos

section Near

variable [IsStrictOrderedRing K] {S : StageArgs K} {s : ReferenceState K d} {g : PairTerm K d}

/-- Particles within the radius are in boxes that meet. -/
theorem intersects_of_within {R : K} (hR : 0 ≤ R) {B B' : AABB K d} {v v' : Vec K d}
    (hv : B.Contains v) (hv' : B'.Contains v')
    (hwithin : squaredLength (fun t => v t - v' t) < R * R) :
    (B.expand R).intersects B' = true := by
  rw [squaredLength_eq_normSq] at hwithin
  exact AABB.expand_intersects_of_normSq_lt hR hv hv' hwithin

omit [IsStrictOrderedRing K] in
/-- Without origins, the contribution of a close pair is that of one within the radius. -/
theorem closeTerm_eq_withinTerm {B B' : AABB K d} (hB : B.origin = fun _ => 0)
    (hB' : B'.origin = fun _ => 0) (p q : FluidParticle K d) :
    S.closeTerm g B B' p q = S.withinTerm g p q := by
  have hseparation : separation B B' p q = fun t => p.relativePos t - q.relativePos t := by
    funext t
    rw [separation, hB, hB']
    simp
  rw [StageArgs.closeTerm, hseparation]
  rfl

/-- Looking into near boxes only, or into all. -/
theorem near_eq_within (hR : 0 ≤ S.radius) {B B' : AABB K d} (hB : B.origin = fun _ => 0)
    (hB' : B'.origin = fun _ => 0) {p q : FluidParticle K d} (hp : B.Contains p.relativePos)
    (hq : B'.Contains q.relativePos) :
    (if (B.expand S.radius).intersects B' = true then S.closeTerm g B B' p q else 0) =
      S.withinTerm g p q := by
  rw [closeTerm_eq_withinTerm hB hB']
  split
  · rfl
  · next hfar => exact (if_neg fun hwithin => hfar (intersects_of_within hR hp hq hwithin)).symm

omit [Field K] [LinearOrder K] [IsStrictOrderedRing K] in
/-- The sources, in the order of the species. -/
theorem withRole_source (s : ReferenceState K d) :
    s.withRole .Source = (s .Default).getD [] ++ (s .Boundary).getD [] := by
  have hsources : (Species.all.filter fun S => S.hasRole .Source) = [.Default, .Boundary] := by decide
  rw [ReferenceState.withRole, hsources, List.flatMap_cons, List.flatMap_singleton]

/-- **The particles in near boxes add up to all within the radius.** -/
theorem sumNear_eq_sumWithin (hR : 0 ≤ S.radius) (hboxed : Boxed s) {region : ReferenceRegion K d}
    (hregion : region ∈ (s .Default).getD []) {p : FluidParticle K d} (hp : p ∈ region.particles) :
    S.sumNear (s.withRole .Source) g region p = S.sumWithin (sourceParticles s.particles) g p := by
  obtain ⟨hB, hcontains⟩ := hboxed .Default rfl region hregion
  have hother : ∀ other ∈ s.withRole .Source,
      (if (region.volume.expand S.radius).intersects other.volume = true then
        (other.particles.map fun q => S.closeTerm g region.volume other.volume p q).sum
      else 0) = (other.particles.map (S.withinTerm g p)).sum := fun other hmem => by
    have hbox : other.volume.origin = (fun _ => 0) ∧
        ∀ q ∈ other.particles, other.volume.Contains q.relativePos := by
      rw [withRole_source, List.mem_append] at hmem
      rcases hmem with hmem | hmem
      · exact hboxed .Default rfl other hmem
      · exact hboxed .Boundary rfl other hmem
    have hterm : ∀ q ∈ other.particles,
        (if (region.volume.expand S.radius).intersects other.volume = true then
          S.closeTerm g region.volume other.volume p q else 0) = S.withinTerm g p q := fun q hq =>
      near_eq_within hR hB hbox.1 (hcontains p hp) (hbox.2 q hq)
    rw [← Multiset.map_congr rfl hterm]
    split
    · rfl
    · exact (Multiset.sum_map_zero).symm
  have hsources : ((sourceParticles s.particles).map (S.withinTerm g p)).sum =
      ((s.withRole .Source).map fun other => (other.particles.map (S.withinTerm g p)).sum).sum := by
    rw [sourceParticles, withRole_source, List.map_append, List.sum_append, Multiset.map_add,
      Multiset.sum_add]
    exact congrArg₂ (· + ·) (sum_map_particles _ _) (sum_map_particles _ _)
  rw [StageArgs.sumNear, StageArgs.sumWithin, hsources, List.map_congr_left hother,
    near_eq_within hR hB hB (hcontains p hp) (hcontains p hp)]

end Near

/-! ## The reference step -/

section Step

variable {s : ReferenceState K d}

/-- Particles that stay where they are stay in their boxes. -/
theorem Boxed.mapParticles (h : Boxed s)
    {F : Species → ReferenceRegion K d → FluidParticle K d → FluidParticle K d}
    (hF : ∀ species region p, (F species region p).relativePos = p.relativePos) :
    Boxed (s.mapParticles F) := by
  intro species hspecies region' hregion'
  rw [getD_mapParticles] at hregion'
  obtain ⟨region, hregion, rfl⟩ := List.mem_map.mp hregion'
  obtain ⟨horigin, hcontains⟩ := h species hspecies region hregion
  refine ⟨horigin, fun p' hp' => ?_⟩
  obtain ⟨p, hp, rfl⟩ := Multiset.mem_map.mp hp'
  rw [hF]
  exact hcontains p hp

/-- The box of some positions contains them. -/
theorem bounds_contains (lim : NumericLimits K) {positions : Multiset (Vec K d)} {v : Vec K d}
    (hv : v ∈ positions) : (bounds lim positions).Contains v := by
  obtain ⟨rest, rfl⟩ := Multiset.exists_cons_of_mem hv
  intro t
  show ((v ::ₘ rest).map fun v => v t).fold min lim.max ≤ v t ∧
    v t ≤ ((v ::ₘ rest).map fun v => v t).fold max lim.lowest
  rw [Multiset.map_cons, Multiset.fold_cons_left, Multiset.fold_cons_left]
  exact ⟨min_le_left _ _, le_max_left _ _⟩

namespace StepArgs

variable (S : StepArgs K)

/-- **The state of which the sums are taken is boxed**, if the boundary is. -/
theorem boxed_referenceMoved (hboundary : ∀ region ∈ (s .Boundary).getD [],
    region.volume.origin = (fun _ => 0) ∧ ∀ p ∈ region.particles, region.volume.Contains p.relativePos) :
    Boxed (S.referenceMoved s) := by
  intro species hspecies region' hregion'
  cases species with
  | Default =>
    rw [referenceMoved, ReferenceState.updateVolumes, Function.update_self] at hregion'
    cases hpushed : S.referencePush s .Default with
    | none =>
      rw [hpushed] at hregion'
      cases hregion'
    | some regions =>
      rw [hpushed, Option.map_some, Option.getD_some] at hregion'
      obtain ⟨region, -, rfl⟩ := List.mem_map.mp hregion'
      exact ⟨rfl, fun p hp => bounds_contains S.limits (Multiset.mem_map_of_mem _ hp)⟩
  | Boundary =>
    rw [referenceMoved, ReferenceState.updateVolumes, Function.update_of_ne Species.noConfusion, referencePush,
      getD_mapParticles] at hregion'
    obtain ⟨region, hregion, rfl⟩ := List.mem_map.mp hregion'
    obtain ⟨horigin, hcontains⟩ := hboundary region hregion
    refine ⟨horigin, fun p' hp' => ?_⟩
    obtain ⟨p, hp, rfl⟩ := Multiset.mem_map.mp hp'
    exact hcontains p hp
  | Tracer => exact absurd hspecies (by decide)

omit [LinearOrder K] in
theorem particles_referencePush : (S.referencePush s).particles = S.sequentialPush s.particles := by
  funext species
  rw [referencePush, sequentialPush]
  split
  · next hmovable => exact particles_mapParticles fun region _ p _ => if_pos hmovable
  · next hmovable =>
    rw [particles_mapParticles (f := id) fun region _ p _ => if_neg hmovable, Multiset.map_id]

omit [LinearOrder K] in
theorem particles_referenceIntegrate :
    (S.referenceIntegrate s).particles = S.sequentialIntegrate s.particles := by
  funext species
  rw [referenceIntegrate, sequentialIntegrate]
  split
  · next hroles => exact particles_mapParticles fun region _ p _ => if_pos hroles
  · next hroles =>
    rw [particles_mapParticles (f := id) fun region _ p _ => if_neg hroles, Multiset.map_id]

variable [IsStrictOrderedRing K]

theorem particles_referenceDensity (hR : 0 ≤ S.radius) (hboxed : Boxed s) :
    (S.referenceDensity s).particles = S.sequentialDensity s.particles := by
  funext species
  rw [referenceDensity, sequentialDensity]
  by_cases hspecies : species = .Default
  · subst hspecies
    rw [Function.update_self]
    refine particles_mapParticles fun region hregion p hp => ?_
    rw [if_pos rfl, sumNear_eq_sumWithin hR hboxed hregion hp]
  · rw [Function.update_of_ne hspecies, particles_mapParticles (f := id) fun region _ p _ =>
      if_neg hspecies, Multiset.map_id]

theorem particles_referenceForces (hR : 0 ≤ S.radius) (hboxed : Boxed s) :
    (S.referenceForces s).particles = S.sequentialForces s.particles := by
  funext species
  rw [referenceForces, sequentialForces]
  by_cases hspecies : species = .Default
  · subst hspecies
    rw [Function.update_self]
    refine particles_mapParticles fun region hregion p hp => ?_
    rw [if_pos rfl, sumNear_eq_sumWithin hR hboxed hregion hp]
    simp only [sumNear_eq_sumWithin hR hboxed hregion hp]
  · rw [Function.update_of_ne hspecies, particles_mapParticles (f := id) fun region _ p _ =>
      if_neg hspecies, Multiset.map_id]

/-- **The particles of the reference step are those of the sequential one.** -/
theorem particles_referenceStep (hR : 0 ≤ S.radius) (hboundary : ∀ region ∈ (s .Boundary).getD [],
    region.volume.origin = (fun _ => 0) ∧ ∀ p ∈ region.particles, region.volume.Contains p.relativePos) :
    (S.referenceStep s).particles = S.sequentialStep s.particles := by
  have hmoved := S.boxed_referenceMoved hboundary
  have hdense : Boxed (S.referenceDensity (S.referenceMoved s)) :=
    hmoved.mapParticles fun species region p => by split <;> rfl
  rw [referenceStep, sequentialStep, particles_referenceIntegrate,
    particles_referenceForces S hR hdense, particles_referenceDensity S hR hmoved, referenceMoved,
    particles_updateVolumes, particles_referencePush]

end StepArgs

end Step

end Sph
end Spearhed
