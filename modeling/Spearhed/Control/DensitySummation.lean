import Mathlib.Tactic
import Spearhed.Control.RunOneStep
import Spearhed.Library.Literals
import Spearhed.Particles.LaunchTogether
import Spearhed.Sph.ReferenceStep

/-!
# Density summation is complete

`DensitySummation.hpp`.  The neighbour search and the pass cut off at the support of a kernel with the
reference smoothing length.  A particle with a smaller one finds more neighbours than its kernel
reaches, and those that are not found or are cut off are out of its reach, so the sum is one over all
particles.  A particle starts from its own contribution, and its slot is skipped in the pass.

* `SphKernel.HasSupport`: both kernels vanish from their radius of support on.
* `DensityInput.term_eq`: what a slot adds is the kernel at the distance, whether it is found or not.
* `updateDensity_complete`: the state after `UpdateDensity`, which is also that after two of them.
-/

namespace Spearhed
namespace Control

open Library Library.Literals Particles Sph InteractionArgs StageArgs

variable {K : Type} [Field K] [LinearOrder K] {d frameSize : ℕ}

/-! ## Support -/

/-- The kernel vanishes from its radius of support on. -/
def SphKernel.HasSupport (kernel : SphKernel K) : Prop :=
  ∀ r h : K, 0 < h → kernel.supportRadius * h ≤ r → kernel.W r h = 0

section Support

variable [IsStrictOrderedRing K]

theorem cubicSplineKernel_hasSupport (pi : K) (dim : ℕ) :
    SphKernel.HasSupport (cubicSplineKernel pi dim) := by
  intro r h hh hr
  have hx : 2 ≤ r / h := (le_div_iff₀ hh).mpr hr
  have hone : ¬ r / h < 1 := not_lt.mpr (le_trans one_le_two hx)
  have htwo : ¬ r / h < 2 := not_lt.mpr hx
  show _ * (if r / h < 1 then _ else if r / h < 2 then _ else 0) = (0 : K)
  rw [if_neg hone, if_neg htwo, mul_zero]

theorem quinticSplineKernel_hasSupport (pi : K) (dim : ℕ) :
    SphKernel.HasSupport (quinticSplineKernel pi dim) := by
  intro r h hh hr
  have hx : 3 ≤ r / h := (le_div_iff₀ hh).mpr hr
  have hone : ¬ r / h < 1 := not_lt.mpr (by linarith)
  have htwo : ¬ r / h < 2 := not_lt.mpr (by linarith)
  have hthree : ¬ r / h < 3 := not_lt.mpr hx
  show _ * (if r / h < 1 then _ else if r / h < 2 then _ else if r / h < 3 then _ else 0) = (0 : K)
  rw [if_neg hone, if_neg htwo, if_neg hthree, mul_zero]

end Support

/-! ## What is supposed -/

/-- A launch is given a buffer of regions and an index that describes it. -/
structure IndexedLaunch (launch : FrameLaunch K d) (idx : FrameIndexBuffer)
    (targetPR : List (ParticleRegion K d)) : Prop where
  regions : launch.targetPR = targetPR
  describes : ∃ framesScan, Describes idx targetPR launch.framePtrs launch.regionIdx framesScan
  totalFrames : launch.totalFrames = idx.totalFrames
  fits : (frameCounts targetPR).sum < 2 ^ 31
  size_lt : targetPR.length < 2 ^ 31

/-- The views of a bundle have the lists that a search leaves; the pairs of each can be counted in an
`int`, and so can the regions as the workers of the search go through them. -/
structure SearchedBundle (k : ℕ) (R : K) (targetPR : List (ParticleRegion K d))
    (bundle : List (SourceView K d)) : Prop where
  entry : ∀ view ∈ bundle, CalculateNeighbourEntry (2 ^ k) targetPR view.sourcePR R view
  pairs_lt : ∀ view ∈ bundle, pairs targetPR view.sourcePR R < 2 ^ 31
  size_le : ∀ view ∈ bundle, view.sourcePR.length + 2 ^ k ≤ 2 ^ 31

/-- `r` is the distance of two slots, and the inverse root is exact there. -/
structure IsDistance (S : StageArgs K) (m : FluidMemory K d frameSize)
    (p q : RegionFrameSlot K d frameSize) (r : K) : Prop where
  nonneg : 0 ≤ r
  mul_self : r * r = squaredLength fun t =>
    ParticleMemory.relativePos m p.1.2 p.2 t - ParticleMemory.relativePos m q.1.2 q.2 t
  rsqrt : 0 < r → S.rsqrt (r * r) = 1 / r

/-- What is supposed of the particles: their boxes contain them and have zero origins, smoothing
lengths of targets are at most the reference one, and arithmetic is exact. -/
structure DensityInput (S : StageArgs K) (targetPR : List (ParticleRegion K d))
    (bundle : List (SourceView K d)) (m : FluidMemory K d frameSize)
    (dist : RegionFrameSlot K d frameSize → RegionFrameSlot K d frameSize → K) : Prop where
  contains : ∀ q, q ∈ ParticleMemory.liveSlots m targetPR ∨ q ∈ sourceSlots m bundle →
    q.1.1.volume.Contains (ParticleMemory.relativePos m q.1.2 q.2)
  origin : ∀ q, q ∈ ParticleMemory.liveSlots m targetPR ∨ q ∈ sourceSlots m bundle →
    q.1.1.volume.origin = fun _ => 0
  smoothingLength : ∀ p ∈ ParticleMemory.liveSlots m targetPR,
    0 < (ParticleMemory.particle m p.1.2 p.2).attributes .smoothingLength ∧
      (ParticleMemory.particle m p.1.2 p.2).attributes .smoothingLength ≤ S.h0
  dist : ∀ p ∈ ParticleMemory.liveSlots m targetPR, ∀ q ∈ sourceSlots m bundle,
    IsDistance S m p q (dist p q)

/-- No live target particle is within the radius of the sentinel. -/
def AwayFromSentinel (S : StageArgs K) (targetPR : List (ParticleRegion K d))
    (m : FluidMemory K d frameSize) : Prop :=
  ∀ p ∈ ParticleMemory.liveSlots m targetPR,
    ¬ squaredLength (fun t => ParticleMemory.relativePos m p.1.2 p.2 t -
      (S.densityPass (d := d)).sentinel) < S.radius * S.radius

/-- **The density of a particle**: its own contribution, and one for every other live particle of the
sources. -/
def fullDensity (S : StageArgs K) (bundle : List (SourceView K d)) (m : FluidMemory K d frameSize)
    (dist : RegionFrameSlot K d frameSize → RegionFrameSlot K d frameSize → K)
    (p : RegionFrameSlot K d frameSize) : K :=
  let mass (q : RegionFrameSlot K d frameSize) : K :=
    (ParticleMemory.particle m q.1.2 q.2).attributes .mass
  let h : K := (ParticleMemory.particle m p.1.2 p.2).attributes .smoothingLength
  mass p * S.kernel.W 0 h +
    (((sourceSlots m bundle).filter fun q => !(p.1.2 == q.1.2 && q.2 == p.2)).map fun q =>
      mass q * S.kernel.W (dist p q) h).sum

/-! ## The cutoff is exact -/

section Terms

variable {S : StageArgs K} {targetPR : List (ParticleRegion K d)} {bundle : List (SourceView K d)}
  {m : FluidMemory K d frameSize}
  {dist : RegionFrameSlot K d frameSize → RegionFrameSlot K d frameSize → K}
  {p q : RegionFrameSlot K d frameSize}

omit [LinearOrder K] in
/-- Without origins, the separation is the difference of the stored positions. -/
theorem separation_eq_sub (hp : p.1.1.volume.origin = fun _ => 0)
    (hq : q.1.1.volume.origin = fun _ => 0) : ParticleMemory.separation m p q = fun t =>
      ParticleMemory.relativePos m p.1.2 p.2 t - ParticleMemory.relativePos m q.1.2 q.2 t := by
  funext t
  simp [ParticleMemory.separation, hp, hq]

variable [IsStrictOrderedRing K]

/-- The distance that a functor is given. -/
theorem IsDistance.pairContext_r {r : K} (h : IsDistance S m p q r)
    (hp : p.1.1.volume.origin = fun _ => 0) (hq : q.1.1.volume.origin = fun _ => 0) :
    ((S.densityPass (d := d)).slotContext m p q).r = r := by
  show (if squaredLength (ParticleMemory.separation m p q) > 0 then
    squaredLength (ParticleMemory.separation m p q) *
      (if squaredLength (ParticleMemory.separation m p q) > 0 then
        S.rsqrt (squaredLength (ParticleMemory.separation m p q)) else 0) else 0) = r
  rw [separation_eq_sub hp hq, ← h.mul_self]
  rcases h.nonneg.eq_or_lt with hzero | hpos
  · rw [← hzero]
    simp
  · rw [if_pos (mul_pos hpos hpos), if_pos (mul_pos hpos hpos), h.rsqrt hpos]
    field_simp

/-- Particles that are close have boxes that meet. -/
theorem DensityInput.meets_of_close (h : DensityInput S targetPR bundle m dist)
    (hp : p ∈ ParticleMemory.liveSlots m targetPR) (hq : q ∈ sourceSlots m bundle)
    (hradius : 0 ≤ S.radius)
    (hclose : squaredLength (ParticleMemory.separation m p q) < S.radius * S.radius) :
    (p.1.1.volume.expand S.radius).intersects q.1.1.volume = true := by
  rw [separation_eq_sub (h.origin p (Or.inl hp)) (h.origin q (Or.inr hq)),
    squaredLength_eq_normSq] at hclose
  exact AABB.expand_intersects_of_normSq_lt hradius (h.contains p (Or.inl hp)) (h.contains q (Or.inr hq)) hclose

theorem DensityInput.radius_nonneg (h : DensityInput S targetPR bundle m dist)
    (hp : p ∈ ParticleMemory.liveSlots m targetPR) : 0 ≤ S.radius := by
  obtain ⟨hpos, hle⟩ := h.smoothingLength p hp
  exact mul_nonneg (Nat.cast_nonneg _) (hpos.trans_le hle).le

/-- Beyond the radius of the pass the kernel of a particle vanishes. -/
theorem DensityInput.kernel_eq_zero (h : DensityInput S targetPR bundle m dist)
    (hkernel : SphKernel.HasSupport S.kernel) (hp : p ∈ ParticleMemory.liveSlots m targetPR)
    (hq : q ∈ sourceSlots m bundle)
    (hfar : ¬ squaredLength (ParticleMemory.separation m p q) < S.radius * S.radius) :
    S.kernel.W (dist p q) ((ParticleMemory.particle m p.1.2 p.2).attributes .smoothingLength) =
      0 := by
  obtain ⟨hpos, hle⟩ := h.smoothingLength p hp
  refine hkernel _ _ hpos ?_
  rw [separation_eq_sub (h.origin p (Or.inl hp)) (h.origin q (Or.inr hq)),
    ← (h.dist p hp q hq).mul_self, not_lt] at hfar
  calc S.kernel.supportRadius * (ParticleMemory.particle m p.1.2 p.2).attributes .smoothingLength
      ≤ S.radius := mul_le_mul_of_nonneg_left hle (Nat.cast_nonneg _)
    _ ≤ dist p q := le_of_sq_le_sq (by rw [sq, sq]; exact hfar) (h.dist p hp q hq).nonneg

/-- **What a slot adds**, whether the search finds it or not. -/
theorem DensityInput.term_eq (h : DensityInput S targetPR bundle m dist)
    (hkernel : SphKernel.HasSupport S.kernel) (hp : p ∈ ParticleMemory.liveSlots m targetPR)
    (hq : q ∈ sourceSlots m bundle) :
    (if (p.1.1.volume.expand S.radius).intersects q.1.1.volume = true then S.density m p q else 0) =
      if (!(p.1.2 == q.1.2 && q.2 == p.2)) = true then
        (ParticleMemory.particle m q.1.2 q.2).attributes .mass *
          S.kernel.W (dist p q)
            ((ParticleMemory.particle m p.1.2 p.2).attributes .smoothingLength)
      else 0 := by
  have hpair : pairDensity S.kernel (m ⟨p.1.2, p.2, .attribute .smoothingLength⟩)
      (m ⟨q.1.2, q.2, .attribute .mass⟩) ((S.densityPass (d := d)).slotContext m p q) =
      if (!(p.1.2 == q.1.2 && q.2 == p.2)) = true then
        (ParticleMemory.particle m q.1.2 q.2).attributes .mass *
          S.kernel.W (dist p q)
            ((ParticleMemory.particle m p.1.2 p.2).attributes .smoothingLength)
      else 0 := by
    unfold pairDensity
    rw [(h.dist p hp q hq).pairContext_r (h.origin p (Or.inl hp)) (h.origin q (Or.inr hq))]
    show (if (p.1.2 == q.1.2 && q.2 == p.2) = true then _ else _) = _
    cases p.1.2 == q.1.2 && q.2 == p.2 <;> rfl
  rw [StageArgs.density]
  by_cases hclose : squaredLength (ParticleMemory.separation m p q) < S.radius * S.radius
  · rw [if_pos (h.meets_of_close hp hq (h.radius_nonneg hp) hclose), if_pos hclose, hpair]
  · -- out of reach, so nothing is missed
    rw [if_neg hclose, ite_self, h.kernel_eq_zero hkernel hp hq hclose, mul_zero, ite_self]

/-- **The slots that are found add up to all.** -/
theorem DensityInput.sum_eq (h : DensityInput S targetPR bundle m dist)
    (hkernel : SphKernel.HasSupport S.kernel) (hp : p ∈ ParticleMemory.liveSlots m targetPR) :
    ((ParticleMemory.neighbourSlots m bundle S.radius p).map fun q => S.density m p q).sum =
      (((sourceSlots m bundle).filter fun q => !(p.1.2 == q.1.2 && q.2 == p.2)).map fun q =>
        (ParticleMemory.particle m q.1.2 q.2).attributes .mass *
          S.kernel.W (dist p q)
            ((ParticleMemory.particle m p.1.2 p.2).attributes .smoothingLength)).sum := by
  have hfound : ParticleMemory.neighbourSlots m bundle S.radius p =
      (sourceSlots m bundle).filter fun q =>
        (p.1.1.volume.expand S.radius).intersects q.1.1.volume := (List.filter_flatMap ..).symm
  rw [hfound, sum_map_filter, sum_map_filter]
  exact congrArg List.sum (List.map_congr_left fun q hq => h.term_eq hkernel hp hq)

end Terms

/-! ## The state after the stage -/

section State

variable {S : StageArgs K} {launch : FrameLaunch K d} {idx : FrameIndexBuffer}
  {targetPR : List (ParticleRegion K d)} {bundle : List (SourceView K d)} {k : ℕ}
  {m m' n : FluidMemory K d frameSize}
  {dist : RegionFrameSlot K d frameSize → RegionFrameSlot K d frameSize → K}

omit [Field K] [LinearOrder K] in
theorem IndexedLaunch.lists (h : IndexedLaunch launch idx targetPR) : launch.Lists targetPR := by
  obtain ⟨framesScan, hdescribes⟩ := h.describes
  exact FrameLaunch.lists_of_describes h.regions hdescribes h.totalFrames h.fits h.size_lt

omit [Field K] [LinearOrder K] in
theorem IndexedLaunch.onlyLists (h : IndexedLaunch launch idx targetPR) :
    launch.OnlyLists targetPR := by
  obtain ⟨framesScan, hdescribes⟩ := h.describes
  exact FrameLaunch.onlyLists_of_describes hdescribes h.totalFrames h.fits

theorem SearchedBundle.lists {R : K} (h : SearchedBundle k R targetPR bundle) :
    ∀ view ∈ bundle, view.Lists targetPR R := by
  intro view hview
  obtain ⟨memory, s, hs, ht, heq⟩ := h.entry view hview
  have hsize := h.size_le view hview
  have hpos := Nat.two_pow_pos k
  rw [heq]
  exact SourceView.lists_of_search (h.pairs_lt view hview) (by omega) hs ht

theorem AwayFromSentinel.cullsSentinel (h : AwayFromSentinel S targetPR m)
    (hlaunch : IndexedLaunch launch idx targetPR) :
    (S.densityPass (d := d)).CullsSentinel launch m := by
  intro b hregion slot hocc
  obtain ⟨x, hx, hframe⟩ := hlaunch.onlyLists b (FrameLaunch.lt_of_ownRegion hregion)
  rw [hframe] at hocc ⊢
  exact h (x, slot) (mem_liveSlots.mpr ⟨hx, hocc⟩)

/-- The density of a live slot of the target. -/
def IsTargetDensity (targetPR : List (ParticleRegion K d)) (m : FluidMemory K d frameSize)
    (a : FieldAddr d (FluidAttribute d) frameSize) : Prop :=
  ∃ p ∈ ParticleMemory.liveSlots m targetPR, a = ⟨p.1.2, p.2, .attribute .density⟩

/-- **Nothing else changes.** -/
theorem UpdateDensity.kept (h : S.UpdateDensity launch bundle m m')
    (hlaunch : IndexedLaunch launch idx targetPR) (haway : AwayFromSentinel S targetPR m)
    {a : FieldAddr d (FluidAttribute d) frameSize} (ha : ¬ IsTargetDensity targetPR m a) :
    m' a = m a := by
  obtain ⟨results, m₀, calls, hinit, hpass⟩ := h
  have hfn : (S.densityPass (d := d)).fn.Isolated := accumulateDensity_isolated S.kernel
  have hsame := densityInitSelf_sameReads S hinit
  have hculled := hsame.cullsSentinel hfn (haway.cullsSentinel hlaunch)
  have hresult := passResult_of_interactRuns hfn hculled hpass
  -- a slot of a launched frame is one of the target
  have hnot : ∀ b < (toInt launch.totalFrames).toNat, a.frame = launch.framePtrs b →
      ParticleMemory.occupied m a.frame a.slot = true → a.leaf ≠ .attribute .density := by
    intro b hb hframe hocc hleaf
    obtain ⟨x, hx, hxframe⟩ := hlaunch.onlyLists b hb
    rw [hframe.trans hxframe] at hocc
    refine ha ⟨(x, a.slot), mem_liveSlots.mpr ⟨hx, hocc⟩, ?_⟩
    obtain ⟨frame, slot, leaf⟩ := a
    obtain rfl : frame = x.2 := hframe.trans hxframe
    obtain rfl : leaf = .attribute .density := hleaf
    rfl
  refine (hresult.kept a fun b hregion hframe hocc hleaf => ?_).trans
    (((densityInitSelf S.kernel frameSize).launchResult_of_runs hinit).kept a
      fun b hb hframe hocc hleaf => hnot b hb hframe hocc (List.mem_singleton.mp hleaf))
  rw [hsame.occupied hfn] at hocc
  exact hnot b (FrameLaunch.lt_of_ownRegion hregion) hframe hocc (List.mem_singleton.mp hleaf)

/-- The states that differ from `m` in densities of live target slots only. -/
def OnlyDensities (targetPR : List (ParticleRegion K d)) (m n : FluidMemory K d frameSize) : Prop :=
  ∀ a, ¬ IsTargetDensity targetPR m a → n a = m a

omit [LinearOrder K] in
theorem OnlyDensities.sameReads (h : OnlyDensities targetPR m n) (S : StageArgs K) :
    (S.densityPass (d := d)).SameReads m n := fun a hleaf => h a fun ⟨p, _, hp⟩ => hleaf (by
  rw [hp]
  exact List.mem_singleton_self _)

section SameReads

variable (h : (S.densityPass (d := d)).SameReads m n)

include h

omit [LinearOrder K] in
theorem sameReads_liveSlots (regions : List (ParticleRegion K d)) :
    ParticleMemory.liveSlots n regions = ParticleMemory.liveSlots m regions :=
  h.liveSlots (accumulateDensity_isolated S.kernel) regions

omit [LinearOrder K] in
theorem sameReads_sourceSlots : sourceSlots n bundle = sourceSlots m bundle :=
  List.flatMap_congr fun view _ => sameReads_liveSlots h view.sourcePR

omit [LinearOrder K] in
theorem sameReads_relativePos : ParticleMemory.relativePos n = ParticleMemory.relativePos m := by
  funext frame slot
  exact h.relativePos (accumulateDensity_isolated S.kernel) frame slot

omit [LinearOrder K] in
theorem sameReads_attribute (frame : FramePtr) (slot : Fin frameSize) {a : FluidAttribute d}
    (ha : a ≠ .density) : (ParticleMemory.particle n frame slot).attributes a =
      (ParticleMemory.particle m frame slot).attributes a :=
  h ⟨frame, slot, .attribute a⟩ fun hmem => ha (Leaf.attribute.inj (List.mem_singleton.mp hmem))

omit [LinearOrder K] in
/-- **The previous densities are irrelevant.** -/
theorem fullDensity_congr (p : RegionFrameSlot K d frameSize) :
    fullDensity S bundle n dist p = fullDensity S bundle m dist p := by
  have hmass : ∀ q : RegionFrameSlot K d frameSize,
      (ParticleMemory.particle n q.1.2 q.2).attributes .mass =
        (ParticleMemory.particle m q.1.2 q.2).attributes .mass := fun q =>
    sameReads_attribute h q.1.2 q.2 nofun
  rw [fullDensity, fullDensity]
  simp only [hmass, sameReads_attribute h p.1.2 p.2 (show FluidAttribute.smoothingLength ≠ .density
    from nofun), sameReads_sourceSlots h]

theorem DensityInput.congr (hinput : DensityInput S targetPR bundle m dist) :
    DensityInput S targetPR bundle n dist := by
  have hlive := sameReads_liveSlots h targetPR
  have hsources : sourceSlots n bundle = sourceSlots m bundle := sameReads_sourceSlots h
  have hpos := sameReads_relativePos h
  refine ⟨fun q hq => ?_, fun q hq => ?_, fun p hp => ?_, fun p hp q hq => ?_⟩
  · rw [hlive, hsources] at hq
    rw [hpos]
    exact hinput.contains q hq
  · rw [hlive, hsources] at hq
    exact hinput.origin q hq
  · rw [hlive] at hp
    rw [sameReads_attribute h p.1.2 p.2 (show FluidAttribute.smoothingLength ≠ .density from nofun)]
    exact hinput.smoothingLength p hp
  · rw [hlive] at hp
    rw [hsources] at hq
    obtain ⟨hnonneg, hsquare, hrsqrt⟩ := hinput.dist p hp q hq
    exact ⟨hnonneg, by rw [hpos]; exact hsquare, hrsqrt⟩

theorem AwayFromSentinel.congr (haway : AwayFromSentinel S targetPR m) :
    AwayFromSentinel S targetPR n := by
  intro p hp
  rw [sameReads_liveSlots h] at hp
  rw [sameReads_relativePos h]
  exact haway p hp

end SameReads

variable [IsStrictOrderedRing K]

/-- **The state after the stage**: every density is the full one, and nothing else changed. -/
theorem UpdateDensity.state (h : S.UpdateDensity launch bundle m m')
    (hkernel : SphKernel.HasSupport S.kernel) (hlaunch : IndexedLaunch launch idx targetPR)
    (hbundle : SearchedBundle k S.radius targetPR bundle)
    (hinput : DensityInput S targetPR bundle m dist) (haway : AwayFromSentinel S targetPR m) :
    (∀ p ∈ ParticleMemory.liveSlots m targetPR,
      m' ⟨p.1.2, p.2, .attribute .density⟩ = fullDensity S bundle m dist p) ∧
      OnlyDensities targetPR m m' := by
  refine ⟨fun p hp => ?_, fun a ha => UpdateDensity.kept h hlaunch haway ha⟩
  rw [h.stored hlaunch.lists hbundle.lists (haway.cullsSentinel hlaunch) hp,
    hinput.sum_eq hkernel hp]
  rfl

/-- **The stage forgets the densities it finds.** -/
theorem UpdateDensity.eq_of_onlyDensities {n' : FluidMemory K d frameSize}
    (h : S.UpdateDensity launch bundle m m') (h' : S.UpdateDensity launch bundle n n')
    (hdensities : OnlyDensities targetPR m n)
    (hkernel : SphKernel.HasSupport S.kernel) (hlaunch : IndexedLaunch launch idx targetPR)
    (hbundle : SearchedBundle k S.radius targetPR bundle)
    (hinput : DensityInput S targetPR bundle m dist) (haway : AwayFromSentinel S targetPR m) :
    n' = m' := by
  have hsame := hdensities.sameReads S
  obtain ⟨hfull, hkept⟩ := UpdateDensity.state h hkernel hlaunch hbundle hinput haway
  obtain ⟨hfull', hkept'⟩ := UpdateDensity.state h' hkernel hlaunch hbundle
    (DensityInput.congr hsame hinput) (AwayFromSentinel.congr hsame haway)
  have htarget : ∀ a, IsTargetDensity targetPR n a ↔ IsTargetDensity targetPR m a := fun a => by
    rw [IsTargetDensity, IsTargetDensity, sameReads_liveSlots hsame]
  funext a
  by_cases ha : IsTargetDensity targetPR m a
  · obtain ⟨p, hp, rfl⟩ := ha
    rw [hfull p hp, hfull' p (by rwa [sameReads_liveSlots hsame]), fullDensity_congr hsame]
  · rw [hkept a ha, hkept' a ((htarget a).not.mpr ha), hdensities a ha]

/-- **Density summation is complete**, forgets what it finds, and is idempotent. -/
theorem updateDensity_complete (pi : K) (dim : ℕ)
    (hkernel : S.kernel = cubicSplineKernel pi dim ∨ S.kernel = quinticSplineKernel pi dim)
    (hlaunch : IndexedLaunch launch idx targetPR)
    (hbundle : SearchedBundle k S.radius targetPR bundle)
    (hinput : DensityInput S targetPR bundle m dist) (haway : AwayFromSentinel S targetPR m) :
    (∃ m', S.UpdateDensity launch bundle m m') ∧ ∀ m', S.UpdateDensity launch bundle m m' →
      (∀ p ∈ ParticleMemory.liveSlots m targetPR,
        m' ⟨p.1.2, p.2, .attribute .density⟩ = fullDensity S bundle m dist p) ∧
      OnlyDensities targetPR m m' ∧
      (∀ n n', OnlyDensities targetPR m n → S.UpdateDensity launch bundle n n' → n' = m') ∧
      ∀ m'', S.UpdateDensity launch bundle m' m'' → m'' = m' := by
  have hsupport : SphKernel.HasSupport S.kernel := by
    rcases hkernel with h | h
    · rw [h]
      exact cubicSplineKernel_hasSupport pi dim
    · rw [h]
      exact quinticSplineKernel_hasSupport pi dim
  refine ⟨StageArgs.exists_updateDensity S launch bundle m, fun m' h => ?_⟩
  obtain ⟨hfull, hkept⟩ := UpdateDensity.state h hsupport hlaunch hbundle hinput haway
  exact ⟨hfull, hkept,
    fun n n' hn h' =>
      UpdateDensity.eq_of_onlyDensities h h' hn hsupport hlaunch hbundle hinput haway,
    fun m'' h' =>
      UpdateDensity.eq_of_onlyDensities h h' hkept hsupport hlaunch hbundle hinput haway⟩

end State

/-! ## One frame

Two slots on one axis, one apart.  With the first at the sentinel position and the second dead, the
dead slot is staged there with whatever shared memory holds. -/

/-- A region with frame 0. -/
def densityRegion : ParticleRegion ℚ 0 := ⟨⟨fun _ => 0, fun _ => 0, fun _ => 200⟩, [0]⟩

/-- The index of the region. -/
def densityIndex : FrameIndexBuffer where
  framePtrs := some fun b => b
  regionIdxPerFrame := some fun _ => 0
  framesPerRegion := some ⟨fun _ => 1, fun _ => 1⟩
  totalFrames := 1
  frameCapacity := 1
  regionCapacity := 1

/-- One block, for frame 0. -/
def densityLaunch : FrameLaunch ℚ 0 where
  targetPR := [densityRegion]
  framePtrs := fun b => b
  regionIdx := fun _ => 0
  totalFrames := 1
  injective := fun _ _ _ _ h => h

/-- A particle at `x`, and one at `x + 1` if its slot is live. -/
def densityMemory (x : ℚ) (mask : UInt8) : FluidMemory ℚ 0 2 := fun a => match a with
  | ⟨_, slot, .relativePos _⟩ => (if slot = 0 then x else x + 1 : ℚ)
  | ⟨_, slot, .multiMask⟩ => (if slot = 0 then 1 else mask : UInt8)
  | ⟨_, _, .attribute .density⟩ => (2 / 3 : ℚ)
  | ⟨_, _, .attribute _⟩ => (1 : ℚ)

/-- The cubic kernel on one axis; the sentinel is at 100. -/
def densityArgs : StageArgs ℚ := ⟨cubicSplineKernel 3 1, 2, 1, ⟨400, -400⟩, fun _ => 1⟩

/-- The distance of two slots of the frame. -/
def densityDist (p q : RegionFrameSlot ℚ 0 2) : ℚ := if p.2 = q.2 then 0 else 1

theorem densityLaunch_indexed : IndexedLaunch densityLaunch densityIndex [densityRegion] where
  regions := rfl
  describes := by
    refine ⟨fun _ => 1, rfl, rfl, ⟨_, rfl, rfl⟩, rfl, le_rfl, le_rfl, fun r hr => ?_,
      fun r i region frame hr hi => ?_⟩
    · obtain rfl : r = 0 := Nat.lt_one_iff.mp hr
      rfl
    · obtain rfl : r = 0 := Nat.lt_one_iff.mp (List.getElem?_eq_some_iff.mp hr).1
      obtain rfl : densityRegion = region := Option.some.inj hr
      obtain rfl : i = 0 := Nat.lt_one_iff.mp (List.getElem?_eq_some_iff.mp hi).1
      exact ⟨Option.some.inj hi, rfl⟩
  totalFrames := rfl
  fits := by decide
  size_lt := by decide

/-- A live slot is one of frame 0. -/
theorem eq_of_mem_densityRegion {m : FluidMemory ℚ 0 2} {p : RegionFrameSlot ℚ 0 2}
    (hp : p ∈ ParticleMemory.liveSlots m [densityRegion]) : ∃ i, p = ((densityRegion, 0), i) := by
  obtain ⟨hx, -⟩ := mem_liveSlots.mp hp
  exact ⟨p.2, Prod.ext (List.mem_singleton.mp hx) rfl⟩

theorem isDistance_densityDist (x : ℚ) (mask : UInt8) (i j : Fin 2) :
    IsDistance densityArgs (densityMemory x mask) ((densityRegion, 0), i) ((densityRegion, 0), j)
      (densityDist ((densityRegion, 0), i) ((densityRegion, 0), j)) := by
  refine ⟨?_, ?_, fun hpos => ?_⟩
  · rw [densityDist]
    split <;> norm_num
  · rw [squaredLength_eq_normSq, normSq, Fin.sum_univ_one]
    fin_cases i <;> fin_cases j <;>
      norm_num [densityDist, densityMemory, ParticleMemory.relativePos]
  · show (1 : ℚ) = 1 / densityDist _ _
    by_cases hij : i = j
    · exact absurd hpos (by rw [densityDist, if_pos hij]; exact lt_irrefl _)
    · rw [densityDist, if_neg hij, div_one]

theorem densityInput_densityMemory (x : ℚ) (mask : UInt8) (hlow : 0 ≤ x) (hhigh : x + 1 ≤ 200)
    (view : SourceView ℚ 0) (hview : view.sourcePR = [densityRegion]) :
    DensityInput densityArgs [densityRegion] [view] (densityMemory x mask) densityDist := by
  have hsources : sourceSlots (densityMemory x mask) [view] =
      ParticleMemory.liveSlots (densityMemory x mask) [densityRegion] := by
    rw [sourceSlots, List.flatMap_singleton, hview]
  refine ⟨fun q hq => ?_, fun q hq => ?_, fun p hp => ?_, fun p hp q hq => ?_⟩
  · rw [hsources, or_self] at hq
    obtain ⟨i, rfl⟩ := eq_of_mem_densityRegion hq
    intro t
    show 0 ≤ (if i = 0 then x else x + 1) ∧ (if i = 0 then x else x + 1) ≤ 200
    split <;> constructor <;> linarith
  · rw [hsources, or_self] at hq
    obtain ⟨i, rfl⟩ := eq_of_mem_densityRegion hq
    rfl
  · exact ⟨one_pos, le_rfl⟩
  · rw [hsources] at hq
    obtain ⟨i, rfl⟩ := eq_of_mem_densityRegion hp
    obtain ⟨j, rfl⟩ := eq_of_mem_densityRegion hq
    exact isDistance_densityDist x mask i j

/-- A search of the frame lists it. -/
theorem exists_densityView : ∃ view : SourceView ℚ 0, view.sourcePR = [densityRegion] ∧
    SearchedBundle 0 densityArgs.radius [densityRegion] [view] ∧
    view.visited 0 = [(densityRegion, 0)] := by
  obtain ⟨view, hview⟩ := exists_calculateNeighbourEntry (2 ^ 0) [densityRegion] [densityRegion]
    densityArgs.radius
  have hsource : view.sourcePR = [densityRegion] := by
    obtain ⟨memory, s, -, -, rfl⟩ := hview
    rfl
  have hbundle : SearchedBundle 0 densityArgs.radius [densityRegion] [view] := by
    refine ⟨List.forall_mem_singleton.mpr ?_, List.forall_mem_singleton.mpr ?_,
      List.forall_mem_singleton.mpr ?_⟩
    · rwa [hsource]
    · rw [hsource]
      decide +kernel
    · rw [hsource]
      decide
  refine ⟨view, hsource, hbundle, List.perm_singleton.mp ?_⟩
  have hvisited := hbundle.lists view (List.mem_singleton_self _) 0 densityRegion rfl
  have hfound : (neighbours densityRegion [densityRegion] densityArgs.radius).flatMap
      (framesAt [densityRegion]) = [(densityRegion, 0)] := by
    have hneighbours : neighbours densityRegion [densityRegion] densityArgs.radius = [0] := by
      decide +kernel
    rw [hneighbours]
    rfl
  rwa [hsource, hfound] at hvisited

/-- Where every density is the particle's own contribution, resetting changes nothing. -/
theorem densityInitSelf_densityMemory {x : ℚ} {mask : UInt8} {m₀ : FluidMemory ℚ 0 2}
    {results : Fin densityLaunch.totalFrames.toNat → Unit}
    (h : Program.Runs (fun b : Fin densityLaunch.totalFrames.toNat =>
      hierarchyForEachKernel densityLaunch (densityInitSelf densityArgs.kernel 2) b)
      (densityMemory x mask) results m₀) : m₀ = densityMemory x mask := by
  have hresult := (densityInitSelf densityArgs.kernel 2).launchResult_of_runs h
  funext a
  by_contra hne
  refine hne (hresult.kept a fun b hb hframe hocc hwrites => hne ?_)
  obtain ⟨frame, slot, l⟩ := a
  obtain rfl : frame = densityLaunch.framePtrs b := hframe
  obtain rfl : l = .attribute .density := List.mem_singleton.mp hwrites
  refine (hresult.stored _ hb slot hocc _ hwrites).trans ((exec_densityInitSelf _ _ _ _).trans ?_)
  show (1 : ℚ) * densityArgs.kernel.W 0 1 = 2 / 3
  decide +kernel

/-- Shared memory with a mass in it. -/
def heavyCaches (_ : ℕ) : SmemCaches ℚ 0 (densityArgs.densityPass (d := 0)).fn.Staged 2 :=
  ⟨fun _ _ => 0, fun _ l => match l with
    | .attribute _ => fun _ => (5 : ℚ)
    | .relativePos _ => fun _ => (0 : ℚ)
    | .multiMask => fun _ => (0 : UInt8)⟩

/-- The first slot. -/
def firstDensitySlot : RegionFrameSlot ℚ 0 2 := ((densityRegion, 0), 0)

/-- What the pass adds up for a particle at the sentinel. -/
theorem density_accumulate (h : .attribute .density ∈
      (densityArgs.densityPass (d := 0)).fn.ownAccumulate) :
    FluidRecord.get (densityArgs.densityPass.fn.accumulate
      ((densityMemory 100 0).fields 0 0 (densityArgs.densityPass (d := 0)).fn.ownReads)
      ((densityMemory 100 0).fields 0 0 (densityArgs.densityPass (d := 0)).fn.ownAccumulate)
      (densityArgs.densityPass.blockPairs (densityMemory 100 0) densityRegion.volume 0
        [(densityRegion, 0)] (heavyCaches 0) 0)) .density h = (4 : ℚ) := by
  have heval : FluidRecord.get (densityArgs.densityPass.fn.accumulate
      ((densityMemory 100 0).fields 0 0 (densityArgs.densityPass (d := 0)).fn.ownReads)
      ((densityMemory 100 0).fields 0 0 (densityArgs.densityPass (d := 0)).fn.ownAccumulate)
      (densityArgs.densityPass.blockPairs (densityMemory 100 0) densityRegion.volume 0
        [(densityRegion, 0)] (heavyCaches 0) 0)) .density List.mem_cons_self = (4 : ℚ) := by
    decide +kernel
  exact heval

/-- **A ghost is added up**: near the sentinel the density is not the full one. -/
theorem density_ne_fullDensity_of_ghost :
    IndexedLaunch densityLaunch densityIndex [densityRegion] ∧
    ∃ view, SearchedBundle 0 densityArgs.radius [densityRegion] [view] ∧
      DensityInput densityArgs [densityRegion] [view] (densityMemory 100 0) densityDist ∧
      ∃ m', densityArgs.UpdateDensity densityLaunch [view] (densityMemory 100 0) m' ∧
        ∃ p ∈ ParticleMemory.liveSlots (densityMemory 100 0) [densityRegion],
          m' ⟨p.1.2, p.2, .attribute .density⟩ ≠
            fullDensity densityArgs [view] (densityMemory 100 0) densityDist p := by
  obtain ⟨view, hsource, hbundle, hvisited⟩ := exists_densityView
  refine ⟨densityLaunch_indexed, view, hbundle,
    densityInput_densityMemory 100 0 (by norm_num) (by norm_num) view hsource, ?_⟩
  have hfn : (densityArgs.densityPass (d := 0)).fn.Isolated := accumulateDensity_isolated _
  have hindep : Program.Independent (fun b : Fin densityLaunch.totalFrames.toNat =>
      hierarchyForEachKernel densityLaunch (densityInitSelf densityArgs.kernel 2) b) _ _ :=
    ParticleBody.independent_hierarchyForEachKernel _
  obtain ⟨results, m₀, hinit⟩ := hindep.exists_runs (densityMemory 100 0)
  obtain rfl : m₀ = densityMemory 100 0 := densityInitSelf_densityMemory hinit
  obtain ⟨calls, m', hruns⟩ := exists_frameRuns densityLaunch (densityMemory 100 0) hfn view
    heavyCaches
  have hpass : densityArgs.densityPass.PerSourceRuns densityLaunch [view] (densityMemory 100 0) _
    m' := .cons hruns .nil
  refine ⟨m', ⟨results, _, fun b slot => calls b slot ++ [], hinit, ?_⟩, firstDensitySlot,
    List.mem_cons_self, ?_⟩
  · rw [InteractRuns, if_pos List.length_singleton]
    exact hpass
  obtain ⟨hcalls, hstored⟩ := (passResult_of_frameRuns hfn hruns).stored ⟨0, by decide⟩ 0
    densityRegion rfl 0 rfl
  have hdensity : m' ⟨0, 0, .attribute .density⟩ = (4 : ℚ) := by
    refine (hstored _ List.mem_cons_self).trans ?_
    rw [hcalls, passPairs, List.flatMap_singleton, hvisited]
    exact density_accumulate List.mem_cons_self
  have hfull : fullDensity densityArgs [view] (densityMemory 100 0) densityDist firstDensitySlot =
      2 / 3 := by
    have hslots : sourceSlots (densityMemory 100 0) [view] = [firstDensitySlot] := by
      rw [sourceSlots, List.flatMap_singleton, hsource]
      rfl
    rw [fullDensity, hslots]
    decide +kernel
  intro heq
  have hfalse : (4 : ℚ) = 2 / 3 := hdensity.symm.trans (heq.trans hfull)
  norm_num at hfalse

/-- Two live particles one apart. -/
theorem updateDensity_complete_neighbours : ∃ view,
    (∃ m', densityArgs.UpdateDensity densityLaunch [view] (densityMemory 1 1) m') ∧
      ∀ m', densityArgs.UpdateDensity densityLaunch [view] (densityMemory 1 1) m' →
        (∀ p ∈ ParticleMemory.liveSlots (densityMemory 1 1) [densityRegion],
          m' ⟨p.1.2, p.2, .attribute .density⟩ = (5 / 6 : ℚ)) ∧
        ∀ m'', densityArgs.UpdateDensity densityLaunch [view] m' m'' → m'' = m' := by
  obtain ⟨view, hsource, hbundle, -⟩ := exists_densityView
  have haway : AwayFromSentinel densityArgs [densityRegion] (densityMemory 1 1) := by
    intro p hp
    obtain ⟨i, rfl⟩ := eq_of_mem_densityRegion hp
    fin_cases i <;> decide +kernel
  obtain ⟨hexists, hstate⟩ := updateDensity_complete 3 1 (Or.inl rfl) densityLaunch_indexed hbundle
    (densityInput_densityMemory 1 1 (by norm_num) (by norm_num) view hsource) haway
  refine ⟨view, hexists, fun m' h => ?_⟩
  obtain ⟨hfull, -, -, htwice⟩ := hstate m' h
  refine ⟨fun p hp => ?_, htwice⟩
  have hslots : sourceSlots (densityMemory 1 1) [view] =
      [((densityRegion, 0), 0), ((densityRegion, 0), 1)] := by
    rw [sourceSlots, List.flatMap_singleton, hsource]
    rfl
  obtain ⟨i, rfl⟩ := eq_of_mem_densityRegion hp
  have hvalue : fullDensity densityArgs [view] (densityMemory 1 1) densityDist
      ((densityRegion, 0), i) = 5 / 6 := by
    rw [fullDensity, hslots]
    fin_cases i <;> decide +kernel
  exact (hfull _ hp).trans hvalue

end Control
end Spearhed
