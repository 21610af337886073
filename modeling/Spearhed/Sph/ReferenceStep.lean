import Spearhed.Particles.RegionBoundsExact
import Spearhed.Sph.Species
import Spearhed.Sph.StageRecords

/-!
# The reference step

What a time step is for, without frames, slots, indices and neighbour lists.  A species is a list of
regions, a region is a box and a multiset of particles, and every stage of the step is a function of
these: all particles of a species change at once, each by what is near to it.

A particle does not act on itself.  Here this is a subtraction (`StageArgs.sumNear`); in the code a
pair is skipped when both of its slots are the same.  `sum_neighbourSlots` says that the two agree.
-/

namespace Spearhed
namespace Sph

open Library Particles InteractionArgs

variable {K : Type} [Field K] [LinearOrder K] {d frameSize : ℕ}

/-! ## States -/

/-- A region without its frames. -/
@[ext]
structure ReferenceRegion (K : Type) (d : ℕ) where
  volume : AABB K d
  particles : Multiset (FluidParticle K d)

/-- The regions of the species that are there. -/
abbrev ReferenceState (K : Type) (d : ℕ) : Type := Species → Option (List (ReferenceRegion K d))

omit [Field K] [LinearOrder K] in
/-- All particles of a region change. -/
def ReferenceRegion.mapParticles (F : FluidParticle K d → FluidParticle K d)
    (region : ReferenceRegion K d) : ReferenceRegion K d :=
  { region with particles := region.particles.map F }

namespace ReferenceState

variable (s : ReferenceState K d)

omit [Field K] [LinearOrder K] in
/-- All particles change, each by its species and region. -/
def mapParticles (F : Species → ReferenceRegion K d → FluidParticle K d → FluidParticle K d) :
    ReferenceState K d := fun S =>
  (s S).map fun regions => regions.map fun region => region.mapParticles (F S region)

omit [Field K] [LinearOrder K] in
/-- The regions of the species that have a role. -/
def withRole (role : Role) : List (ReferenceRegion K d) :=
  (Species.all.filter fun S => S.hasRole role).flatMap fun S => (s S).getD []

/-- The boxes of the default species become those of its particles. -/
def updateVolumes (lim : NumericLimits K) : ReferenceState K d :=
  Function.update s .Default ((s .Default).map fun regions => regions.map fun region =>
    { region with volume := bounds lim (region.particles.map Particle.relativePos) })

end ReferenceState

/-! ## Pairs -/

omit [LinearOrder K] in
theorem squaredLength_eq_normSq (v : Vec K d) : squaredLength v = normSq v := by
  rw [squaredLength, foldl_add_eq, zero_add, normSq, Fin.sum_univ_def]

omit [LinearOrder K] in
/-- The distance vector of two particles, in the coordinates of the first. -/
def separation (B B' : AABB K d) (p q : FluidParticle K d) : Vec K d := fun t =>
  p.relativePos t - (q.relativePos t + (B'.origin t - B.origin t))

/-- What a pair of particles contributes. -/
abbrev PairTerm (K : Type) (d : ℕ) : Type :=
  FluidParticle K d → FluidParticle K d → PairContext K d → K

omit [LinearOrder K] in
/-- What the functor sees of a particle. -/
def staged (gamma : K) (p : FluidParticle K d) : StagedRecord K d :=
  { pOverRho2 := pressure gamma (p.attributes .density) (p.attributes .internalEnergy) /
      (p.attributes .density * p.attributes .density)
    mass := p.attributes .mass
    smoothingLength := p.attributes .smoothingLength
    vel := fun t => p.attributes (.vel t) }

namespace StageArgs

variable (S : StageArgs K)

/-- A contribution, of a pair that is close enough. -/
def closeTerm (g : PairTerm K d) (B B' : AABB K d) (p q : FluidParticle K d) : K :=
  if squaredLength (separation B B' p q) < S.radius * S.radius then
    g p q ((S.densityPass (d := d)).pairContext (separation B B' p q) false)
  else 0

/-- The sum of the contributions of all other particles in regions that come near. -/
def sumNear (sources : List (ReferenceRegion K d)) (g : PairTerm K d)
    (region : ReferenceRegion K d) (p : FluidParticle K d) : K :=
  (sources.map fun other =>
    if (region.volume.expand S.radius).intersects other.volume = true then
      (other.particles.map fun q => S.closeTerm g region.volume other.volume p q).sum
    else 0).sum -
  if (region.volume.expand S.radius).intersects region.volume = true then
    S.closeTerm g region.volume region.volume p p
  else 0

/-- What a pair adds to the density. -/
def densityTerm : PairTerm K d := fun p q ctx =>
  pairDensity S.kernel (p.attributes .smoothingLength) (q.attributes .mass) ctx

/-- What a pair adds to the acceleration, along an axis. -/
def accelerationTerm (t : Fin (d + 1)) : PairTerm K d := fun p q ctx =>
  pairAcceleration S.kernel (staged S.gamma p) (staged S.gamma q) ctx t

/-- What a pair adds to the heating. -/
def heatingTerm : PairTerm K d := fun p q ctx =>
  pairHeating S.kernel (staged S.gamma p) (staged S.gamma q) ctx

end StageArgs

/-! ## Stages -/

/-- What a time step is built with. -/
structure StepArgs (K : Type) extends StageArgs K where
  dt : K

namespace StepArgs

variable (S : StepArgs K)

/-- Particles of movable species move. -/
def referencePush (s : ReferenceState K d) : ReferenceState K d :=
  s.mapParticles fun species _ p =>
    if species.hasRoles [.Movable] = true then push S.dt p else p

/-- The densities of the default species. -/
def referenceDensity (s : ReferenceState K d) : ReferenceState K d :=
  s.mapParticles fun species region p =>
    if species = .Default then
      setDensity (p.attributes .mass * S.kernel.W 0 (p.attributes .smoothingLength) +
        S.sumNear (s.withRole .Source) S.densityTerm region p) p
    else p

/-- The derivatives of the default species. -/
def referenceForces (s : ReferenceState K d) : ReferenceState K d :=
  s.mapParticles fun species region p =>
    if species = .Default then
      setDerivatives (fun t => S.sumNear (s.withRole .Source) (S.accelerationTerm t) region p)
        (S.sumNear (s.withRole .Source) S.heatingTerm region p) p
    else p

/-- Particles of movable thermodynamic species are integrated. -/
def referenceIntegrate (s : ReferenceState K d) : ReferenceState K d :=
  s.mapParticles fun species _ p =>
    if species.hasRoles [.Movable, .Thermodynamic] = true then integrate S.dt p else p

/-- The state of which the sums of a step are taken. -/
def referenceMoved (s : ReferenceState K d) : ReferenceState K d :=
  (S.referencePush s).updateVolumes S.limits

/-- **One time step.** -/
def referenceStep (s : ReferenceState K d) : ReferenceState K d :=
  S.referenceIntegrate (S.referenceForces (S.referenceDensity (S.referenceMoved s)))

end StepArgs

/-! ## Limits -/

/-- The number of pairs of regions that come near to each other. -/
def nearPairs (targets sources : List (ReferenceRegion K d)) (R : K) : ℕ :=
  (targets.map fun region =>
    (sources.filter fun other => (region.volume.expand R).intersects other.volume).length).sum

/-- What the passes need of a state: no particle of the default species is within the radius of the
sentinel, and the pairs of near regions can be counted in an `int`; so can the regions, by loops that
take steps of at most 1024 regions. -/
structure StepArgs.Clear (S : StepArgs K) (s : ReferenceState K d) : Prop where
  sentinel : ∀ region ∈ (s .Default).getD [], ∀ p ∈ region.particles,
    ¬ squaredLength (fun t => p.relativePos t - S.limits.max / 4) < S.radius * S.radius
  pairs : ∀ species : Species, species.hasRole .Source = true →
    nearPairs ((s .Default).getD []) ((s species).getD []) S.radius < 2 ^ 31
  regions : ∀ species, ((s species).getD []).length ≤ 2 ^ 31 - 1024

theorem nearPairs_mapParticles (F F' : ReferenceRegion K d → FluidParticle K d → FluidParticle K d)
    (targets sources : List (ReferenceRegion K d)) (R : K) :
    nearPairs (targets.map fun region => region.mapParticles (F region))
        (sources.map fun region => region.mapParticles (F' region)) R =
      nearPairs targets sources R := by
  rw [nearPairs, nearPairs, List.map_map]
  refine congrArg List.sum (List.map_congr_left fun region _ => ?_)
  rw [Function.comp_apply, List.filter_map, List.length_map]
  rfl

omit [Field K] [LinearOrder K] in
theorem getD_mapParticles {s : ReferenceState K d}
    {F : Species → ReferenceRegion K d → FluidParticle K d → FluidParticle K d} (species : Species) :
    ((s.mapParticles F) species).getD [] =
      ((s species).getD []).map fun region => region.mapParticles (F species region) := by
  rw [ReferenceState.mapParticles]
  cases s species <;> rfl

/-- Only positions matter. -/
theorem StepArgs.Clear.mapParticles {S : StepArgs K} {s : ReferenceState K d}
    {F : Species → ReferenceRegion K d → FluidParticle K d → FluidParticle K d} (h : S.Clear s)
    (hF : ∀ species region p, (F species region p).relativePos = p.relativePos) :
    S.Clear (s.mapParticles F) := by
  refine ⟨fun region' hregion' p' hp' => ?_, fun species hspecies => ?_, fun species => ?_⟩
  · rw [getD_mapParticles] at hregion'
    obtain ⟨region, hregion, rfl⟩ := List.mem_map.mp hregion'
    obtain ⟨p, hp, rfl⟩ := Multiset.mem_map.mp hp'
    rw [hF]
    exact h.sentinel region hregion p hp
  · rw [getD_mapParticles, getD_mapParticles, nearPairs_mapParticles]
    exact h.pairs species hspecies
  · rw [getD_mapParticles, List.length_map]
    exact h.regions species

/-! ## Slots and particles -/

section Slots

variable (m : FluidMemory K d frameSize)

/-- A region of a buffer, without its frames. -/
def referenceRegion (region : ParticleRegion K d) : ReferenceRegion K d where
  volume := region.volume
  particles := (ParticleMemory.liveSlots m [region]).map fun p =>
    ParticleMemory.particle m p.1.2 p.2

omit [Field K] [LinearOrder K] in
theorem liveSlots_eq_flatMap (regions : List (ParticleRegion K d)) :
    ParticleMemory.liveSlots m regions =
      regions.flatMap fun region => ParticleMemory.liveSlots m [region] := by
  simp only [ParticleMemory.liveSlots, allFrames, List.flatMap_assoc, List.flatMap_cons,
    List.flatMap_nil, List.append_nil]

omit [Field K] [LinearOrder K] in
/-- A slot belongs to the region that it is found in. -/
theorem region_of_mem_liveSlots {region : ParticleRegion K d} {p : RegionFrameSlot K d frameSize}
    (hp : p ∈ ParticleMemory.liveSlots m [region]) : p.1.1 = region := by
  obtain ⟨hx, -⟩ := mem_liveSlots.mp hp
  exact List.mem_singleton.mp (mem_allFrames.mp hx).1

/-- A sum over the live slots of regions that come near is one over their particles. -/
theorem sum_liveSlots_near {R : K} (volume : AABB K d) (regions : List (ParticleRegion K d))
    (f : AABB K d → FluidParticle K d → K) :
    (((ParticleMemory.liveSlots m regions).filter fun q =>
        (volume.expand R).intersects q.1.1.volume).map fun q =>
          f q.1.1.volume (ParticleMemory.particle m q.1.2 q.2)).sum =
      ((regions.map (referenceRegion m)).map fun other =>
        if (volume.expand R).intersects other.volume = true then
          (other.particles.map fun q => f other.volume q).sum
        else 0).sum := by
  rw [sum_map_filter, liveSlots_eq_flatMap, sum_map_flatMap, List.map_map]
  refine congrArg List.sum (List.map_congr_left fun region _ => ?_)
  have hregion : ∀ q ∈ ParticleMemory.liveSlots m [region], q.1.1 = region := fun q hq =>
    region_of_mem_liveSlots m hq
  rw [Function.comp_apply, referenceRegion, Multiset.map_coe, Multiset.sum_coe, List.map_map]
  by_cases hmeets : (volume.expand R).intersects region.volume = true
  · rw [if_pos hmeets]
    refine congrArg List.sum (List.map_congr_left fun q hq => ?_)
    rw [hregion q hq, if_pos hmeets]
    rfl
  · rw [if_neg hmeets]
    refine (congrArg List.sum (List.map_congr_left fun q hq => ?_)).trans
      (List.sum_map_zero (l := ParticleMemory.liveSlots m [region]))
    rw [hregion q hq, if_neg hmeets]

end Slots

/-! ## A particle and itself -/

section Self

variable {m : FluidMemory K d frameSize} {views : List (SourceView K d)}
  {p : RegionFrameSlot K d frameSize}

/-- The live slots of some sources. -/
def sourceSlots (m : FluidMemory K d frameSize) (views : List (SourceView K d)) :
    List (RegionFrameSlot K d frameSize) :=
  views.flatMap fun view => ParticleMemory.liveSlots m view.sourcePR

/-- The frames of some sources, each with its region. -/
def sourceFrames (views : List (SourceView K d)) : List (ParticleRegion K d × FramePtr) :=
  views.flatMap fun view => allFrames view.sourcePR

omit [Field K] [LinearOrder K] in
theorem mem_sourceSlots : p ∈ sourceSlots m views ↔
    p.1 ∈ sourceFrames views ∧ ParticleMemory.occupied m p.1.2 p.2 = true := by
  simp only [sourceSlots, sourceFrames, List.mem_flatMap, mem_liveSlots]
  exact ⟨fun ⟨view, hview, hp, hocc⟩ => ⟨⟨view, hview, hp⟩, hocc⟩,
    fun ⟨⟨view, hview, hp⟩, hocc⟩ => ⟨view, hview, hp, hocc⟩⟩

omit [Field K] [LinearOrder K] in
/-- Where no frame is listed twice, no slot is found twice. -/
theorem nodup_sourceSlots (hnodup : ((sourceFrames views).map Prod.snd).Nodup) :
    (sourceSlots m views).Nodup := by
  have heq : sourceSlots m views = (sourceFrames views).flatMap fun x =>
      ((List.finRange frameSize).filter fun j => ParticleMemory.occupied m x.2 j).map
        fun j => (x, j) := (List.flatMap_assoc ..).symm
  rw [heq, List.nodup_flatMap]
  refine ⟨fun x _ => ?_, hnodup.of_map.imp fun {x y} hne => ?_⟩
  · exact ((List.nodup_finRange frameSize).filter _).map fun i j hij => congrArg Prod.snd hij
  · intro q hx hy
    obtain ⟨i, -, rfl⟩ := List.mem_map.mp hx
    obtain ⟨j, -, hj⟩ := List.mem_map.mp hy
    exact hne (congrArg Prod.fst hj).symm

omit [Field K] [LinearOrder K] in
/-- A slot of a source that has frame and slot in common with another one is that one. -/
theorem eq_of_isSelf (hnodup : ((sourceFrames views).map Prod.snd).Nodup)
    {q : RegionFrameSlot K d frameSize} (hp : p ∈ sourceSlots m views)
    (hq : q ∈ sourceSlots m views) : (p.1.2 == q.1.2 && q.2 == p.2) = true ↔ q = p := by
  rw [Bool.and_eq_true, beq_iff_eq, beq_iff_eq]
  refine ⟨fun ⟨hframe, hslot⟩ => Prod.ext ?_ hslot, fun h => by rw [h]; exact ⟨rfl, rfl⟩⟩
  exact List.inj_on_of_nodup_map hnodup (mem_sourceSlots.mp hq).1 (mem_sourceSlots.mp hp).1
    hframe.symm

omit [Field K] [LinearOrder K] in
/-- **A slot finds itself once.** -/
theorem filter_isSelf (hnodup : ((sourceFrames views).map Prod.snd).Nodup)
    (hp : p ∈ sourceSlots m views) :
    (sourceSlots m views).filter (fun q => p.1.2 == q.1.2 && q.2 == p.2) = [p] := by
  classical
  rw [← filter_eq_singleton (nodup_sourceSlots hnodup) hp]
  refine List.filter_congr fun q hq => ?_
  rw [Bool.eq_iff_iff, decide_eq_true_eq]
  exact eq_of_isSelf hnodup hp hq

/-- A functor does nothing with a particle and itself. -/
def PairTerm.SkipsSelf (g : PairTerm K d) : Prop := ∀ p q ctx, ctx.isSelf = true → g p q ctx = 0

/-- What a slot adds, by functor. -/
def StageArgs.slotTerm (S : StageArgs K) (g : PairTerm K d) (m : FluidMemory K d frameSize)
    (p q : RegionFrameSlot K d frameSize) : K :=
  if squaredLength (ParticleMemory.separation m p q) < S.radius * S.radius then
    g (ParticleMemory.particle m p.1.2 p.2) (ParticleMemory.particle m q.1.2 q.2)
      ((S.densityPass (d := d)).slotContext m p q)
  else 0

/-- Only the slot itself is skipped. -/
theorem slotTerm_eq (S : StageArgs K) {g : PairTerm K d} (hg : g.SkipsSelf)
    (p q : RegionFrameSlot K d frameSize) :
    S.slotTerm g m p q = if (p.1.2 == q.1.2 && q.2 == p.2) = true then 0
      else S.closeTerm g p.1.1.volume q.1.1.volume (ParticleMemory.particle m p.1.2 p.2)
        (ParticleMemory.particle m q.1.2 q.2) := by
  rw [StageArgs.slotTerm, StageArgs.closeTerm]
  by_cases hself : (p.1.2 == q.1.2 && q.2 == p.2) = true
  · have hskip := hg (ParticleMemory.particle m p.1.2 p.2) (ParticleMemory.particle m q.1.2 q.2)
      ((S.densityPass (d := d)).slotContext m p q) hself
    rw [if_pos hself, hskip, ite_self]
  · rw [if_neg hself]
    have hctx : (S.densityPass (d := d)).slotContext m p q =
        (S.densityPass (d := d)).pairContext (ParticleMemory.separation m p q) false :=
      congrArg _ (Bool.eq_false_iff.mpr hself)
    rw [hctx]
    rfl

/-- **The slots that a slot finds add up to the particles near to its own.** -/
theorem sum_neighbourSlots (S : StageArgs K) {g : PairTerm K d} (hg : g.SkipsSelf)
    (hnodup : ((sourceFrames views).map Prod.snd).Nodup) (hp : p ∈ sourceSlots m views) :
    ((ParticleMemory.neighbourSlots m views S.radius p).map fun q => S.slotTerm g m p q).sum =
      S.sumNear (views.flatMap fun view => view.sourcePR.map (referenceRegion m)) g
        (referenceRegion m p.1.1) (ParticleMemory.particle m p.1.2 p.2) := by
  let meets : RegionFrameSlot K d frameSize → Bool := fun q =>
    (p.1.1.volume.expand S.radius).intersects q.1.1.volume
  let t : RegionFrameSlot K d frameSize → K := fun q =>
    S.closeTerm g p.1.1.volume q.1.1.volume (ParticleMemory.particle m p.1.2 p.2)
      (ParticleMemory.particle m q.1.2 q.2)
  have hfound : ParticleMemory.neighbourSlots m views S.radius p =
      (sourceSlots m views).filter meets := (List.filter_flatMap ..).symm
  have hself : ((sourceSlots m views).filter meets).filter
      (fun q => p.1.2 == q.1.2 && q.2 == p.2) = [p].filter meets := by
    rw [List.filter_comm, filter_isSelf hnodup hp]
  have hown : (([p].filter meets).map t).sum = if meets p = true then t p else 0 := by
    by_cases hmeets : meets p = true
    · rw [List.filter_cons_of_pos hmeets, if_pos hmeets]
      exact add_zero _
    · rw [List.filter_cons_of_neg hmeets, if_neg hmeets]
      rfl
  calc ((ParticleMemory.neighbourSlots m views S.radius p).map fun q => S.slotTerm g m p q).sum
      = (((sourceSlots m views).filter meets).map t).sum -
          if meets p = true then t p else 0 := by
        simp only [slotTerm_eq S hg, hfound]
        rw [sum_map_ite_zero, hself, hown]
    _ = (views.map fun view => (((ParticleMemory.liveSlots m view.sourcePR).filter meets).map
          t).sum).sum - if meets p = true then t p else 0 := by
        rw [sourceSlots, List.filter_flatMap, sum_map_flatMap]
    _ = S.sumNear (views.flatMap fun view => view.sourcePR.map (referenceRegion m)) g
          (referenceRegion m p.1.1) (ParticleMemory.particle m p.1.2 p.2) := by
        rw [StageArgs.sumNear, sum_map_flatMap]
        refine congrArg₂ _ (congrArg List.sum (List.map_congr_left fun view _ => ?_)) rfl
        exact sum_liveSlots_near m p.1.1.volume view.sourcePR fun volume q =>
          S.closeTerm g p.1.1.volume volume (ParticleMemory.particle m p.1.2 p.2) q

namespace StageArgs

variable (S : StageArgs K)

omit [LinearOrder K] in
theorem densityTerm_skipsSelf : PairTerm.SkipsSelf (S.densityTerm (d := d)) :=
  fun _ _ _ hself => if_pos hself

theorem accelerationTerm_skipsSelf (t : Fin (d + 1)) :
    PairTerm.SkipsSelf (S.accelerationTerm t) :=
  fun _ _ _ hself => if_pos hself

theorem heatingTerm_skipsSelf : PairTerm.SkipsSelf (S.heatingTerm (d := d)) :=
  fun _ _ _ hself => if_pos hself

end StageArgs

end Self

end Sph
end Spearhed
