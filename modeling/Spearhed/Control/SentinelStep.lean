import Spearhed.Control.FillRefinement
import Spearhed.Control.StepRefinement
import Spearhed.Sph.SequentialStep

/-!
# What dead slots add at the sentinel

Dead slots are staged at the sentinel, with the records that shared memory held before.  A particle of
the default species that is pushed there finds them at distance zero and adds up their masses.  So its
density after a step is above any bound, in some run (`exists_runOneStep_gt`), and a step is not
determined by the particles.
-/

namespace Spearhed
namespace Control

open Library Particles Sph SimulationState RunArgs InteractionArgs

variable {K : Type} [Field K] [LinearOrder K] {d frameSize : ℕ}

/-! ## Pairs -/

section Pairs

variable {S : StageArgs K} {m m' : FluidMemory K d frameSize} {region : ParticleRegion K d}
  {f : FramePtr} {i : Fin frameSize}

/-- The live particles of a region are at the sentinel, and have no negative masses. -/
structure AtSentinel (S : StageArgs K) (m : FluidMemory K d frameSize) (region : ParticleRegion K d) :
    Prop where
  position : ∀ p ∈ region.particleFrameList, ∀ j, ParticleMemory.occupied m p j = true →
    ParticleMemory.relativePos m p j = fun _ => (S.densityPass (d := d)).sentinel
  mass : ∀ p ∈ region.particleFrameList, ∀ j, ParticleMemory.occupied m p j = true →
    0 ≤ (ParticleMemory.particle m p j).attributes .mass

theorem AtSentinel.of_sameReads (h : AtSentinel S m region)
    (hsame : (S.densityPass (d := d)).SameReads m m') : AtSentinel S m' region := by
  have hfn : (S.densityPass (d := d)).fn.Isolated := accumulateDensity_isolated S.kernel
  refine ⟨fun p hp j hocc => ?_, fun p hp j hocc => ?_⟩
  · rw [hsame.occupied hfn] at hocc
    rw [hsame.relativePos hfn]
    exact h.position p hp j hocc
  · rw [hsame.occupied hfn] at hocc
    have hmass : (ParticleMemory.particle m' p j).attributes .mass =
        (ParticleMemory.particle m p j).attributes .mass :=
      hsame ⟨p, j, .attribute .mass⟩ (by simp [StageArgs.densityPass, accumulateDensity])
    rw [hmass]
    exact h.mass p hp j hocc

/-- The mass in a staged record. -/
def stagedMass (nb : (S.densityPass (d := d)).fn.Staged) : K :=
  (show FluidRecord K [.attribute (.mass : FluidAttribute d)] from nb) (.attribute .mass)
    List.mem_cons_self

/-- Shared memory with a mass in every record. -/
def massCaches (S : StageArgs K) (d frameSize : ℕ) (mass : K) :
    SmemCaches K d (S.densityPass (d := d)).fn.Staged frameSize :=
  ⟨fun _ _ => 0, fun _ => show FluidRecord K [.attribute (.mass : FluidAttribute d)] from
    fun l => match l with
      | .attribute _ => fun _ => mass
      | .relativePos _ => fun _ => (0 : K)
      | .multiMask => fun _ => (0 : UInt8)⟩

variable {smem : SmemCaches K d (S.densityPass (d := d)).fn.Staged frameSize}
  {ys : List (ParticleRegion K d × FramePtr)}

/-- Whatever is staged is at the sentinel. -/
theorem stagedCaches_posCache (h : AtSentinel S m region) {p : FramePtr}
    (hp : p ∈ region.particleFrameList) (j : Fin frameSize) :
    (S.densityPass.stagedCaches m region.volume region.volume p smem).posCache j =
      fun _ => (S.densityPass (d := d)).sentinel := by
  show (if ParticleMemory.occupied m p j = true then _ else _) = _
  split
  · next hocc =>
    funext t
    rw [h.position p hp j hocc, sub_self, add_zero]
  · rfl

omit [LinearOrder K] in
/-- A live slot is staged with its mass. -/
theorem stagedMass_of_occupied {p : FramePtr} {j : Fin frameSize}
    (hocc : ParticleMemory.occupied m p j = true) :
    stagedMass ((S.densityPass.stagedCaches m region.volume region.volume p smem).nbCache j) =
      (ParticleMemory.particle m p j).attributes .mass := by
  show stagedMass (if ParticleMemory.occupied m p j = true then _ else _) = _
  rw [if_pos hocc]
  rfl

omit [LinearOrder K] in
/-- A dead slot keeps the mass that was there. -/
theorem stagedMass_of_dead {p : FramePtr} {j : Fin frameSize}
    (hdead : ParticleMemory.occupied m p j = false) :
    stagedMass ((S.densityPass.stagedCaches m region.volume region.volume p smem).nbCache j) =
      stagedMass (smem.nbCache j) := by
  show stagedMass (if ParticleMemory.occupied m p j = true then _ else _) = _
  rw [if_neg (by rw [hdead]; exact Bool.false_ne_true)]

variable [IsStrictOrderedRing K]

/-- A pair at distance zero is accepted. -/
theorem acceptedPair_at_sentinel (hR : 0 < S.radius) {p : FramePtr} {j : Fin frameSize}
    (hpos : smem.posCache j = fun _ => (S.densityPass (d := d)).sentinel) :
    S.densityPass.acceptedPair f p smem i (fun _ => (S.densityPass (d := d)).sentinel) j =
      some ⟨(p, j), smem.nbCache j, S.densityPass.pairContext (fun _ => 0) (f == p && j == i)⟩ := by
  have hvec : (fun t : Fin (d + 1) => (S.densityPass (d := d)).sentinel - smem.posCache j t) =
      fun _ => 0 := by
    rw [hpos]
    exact funext fun _ => sub_self _
  have hlength : squaredLength (fun _ : Fin (d + 1) => (0 : K)) < S.radius * S.radius := by
    rw [squaredLength_eq_normSq, normSq]
    simpa using mul_pos hR hR
  rw [acceptedPair]
  simp only [hvec]
  exact if_pos hlength

/-- The pairs of a slot at the sentinel in a frame of the region. -/
theorem sweptPairs_at_sentinel (h : AtSentinel S m region) (hR : 0 < S.radius) {p : FramePtr}
    (hp : p ∈ region.particleFrameList) :
    S.densityPass.sweptPairs f p (S.densityPass.stagedCaches m region.volume region.volume p smem) i
        (fun _ => (S.densityPass (d := d)).sentinel) =
      (List.finRange frameSize).map fun j => ⟨(p, j),
        (S.densityPass.stagedCaches m region.volume region.volume p smem).nbCache j,
        S.densityPass.pairContext (fun _ => 0) (f == p && j == i)⟩ := by
  rw [sweptPairs, ← List.filterMap_eq_map]
  exact List.filterMap_congr fun j _ => acceptedPair_at_sentinel hR (stagedCaches_posCache h hp j)

/-- **Every pair is at distance zero**, and its mass is not negative, unless one in shared memory was. -/
theorem of_mem_sweptFramesPairs (h : AtSentinel S m region) (hR : 0 < S.radius)
    (hsmem : ∀ j, 0 ≤ stagedMass (smem.nbCache j))
    (hys : ∀ y ∈ ys, y.1 = region ∧ y.2 ∈ region.particleFrameList)
    {pair : PairRecord (S.densityPass (d := d)).fn frameSize}
    (hpair : pair ∈ S.densityPass.sweptFramesPairs m region.volume f i
      (fun _ => (S.densityPass (d := d)).sentinel) ys smem) :
    (∃ b, pair.ctx = S.densityPass.pairContext (fun _ => 0) b) ∧ 0 ≤ stagedMass pair.neighbour := by
  induction ys generalizing smem with
  | nil => cases hpair
  | cons y ys ih =>
    obtain ⟨⟨hregion, hp⟩, hys⟩ := List.forall_mem_cons.mp hys
    have hstaged : ∀ j, 0 ≤ stagedMass
        ((S.densityPass.stagedCaches m region.volume y.1.volume y.2 smem).nbCache j) := fun j => by
      rw [hregion]
      cases hocc : ParticleMemory.occupied m y.2 j with
      | true =>
        rw [stagedMass_of_occupied hocc]
        exact h.mass y.2 hp j hocc
      | false =>
        rw [stagedMass_of_dead hocc]
        exact hsmem j
    rcases List.mem_append.mp hpair with hpair | hpair
    · rw [hregion] at hpair hstaged
      rw [sweptPairs_at_sentinel h hR hp] at hpair
      obtain ⟨j, -, rfl⟩ := List.mem_map.mp hpair
      exact ⟨⟨_, rfl⟩, hstaged j⟩
    · exact ih hstaged hys hpair

/-- **A dead slot of the first frame is a neighbour**, with the mass that shared memory held. -/
theorem exists_ghostPair (h : AtSentinel S m region) (hR : 0 < S.radius)
    {y : ParticleRegion K d × FramePtr} (hregion : y.1 = region) (hp : y.2 ∈ region.particleFrameList)
    {j : Fin frameSize} (hdead : ParticleMemory.occupied m y.2 j = false)
    (hne : (f == y.2 && j == i) = false) :
    ∃ pair ∈ S.densityPass.sweptFramesPairs m region.volume f i
        (fun _ => (S.densityPass (d := d)).sentinel) (y :: ys) smem,
      pair.ctx = S.densityPass.pairContext (fun _ => 0) false ∧
        stagedMass pair.neighbour = stagedMass (smem.nbCache j) := by
  subst hregion
  have hstaged : stagedMass
      ((S.densityPass.stagedCaches m y.1.volume y.1.volume y.2 smem).nbCache j) =
        stagedMass (smem.nbCache j) := stagedMass_of_dead hdead
  refine ⟨⟨(y.2, j), (S.densityPass.stagedCaches m y.1.volume y.1.volume y.2 smem).nbCache j,
    S.densityPass.pairContext (fun _ => 0) (f == y.2 && j == i)⟩, List.mem_append_left _ ?_,
    by rw [hne], hstaged⟩
  rw [sweptPairs_at_sentinel h hR hp]
  exact List.mem_map_of_mem (List.mem_finRange j)

end Pairs

/-! ## The stages -/

section Stages

variable {S : StageArgs K} {launch : FrameLaunch K d} {view : SourceView K d}
  {m : FluidMemory K d frameSize} {region : ParticleRegion K d} {f : FramePtr} {i : Fin frameSize}

/-- A region that finds itself only has all of its frames visited. -/
theorem visited_perm_allFrames {R : K} (hview : view.Lists [region] R) (hsource : view.sourcePR = [region])
    (hmeets : (region.volume.expand R).intersects region.volume = true) :
    (view.visited 0).Perm (allFrames [region]) := by
  have hvisited := hview 0 region rfl
  have hneighbours : neighbours region [region] R = [0] := by
    rw [neighbours, List.length_singleton, List.range_one]
    exact List.filter_cons_of_pos hmeets
  rw [hsource, hneighbours, List.flatMap_singleton] at hvisited
  rwa [allFrames, List.flatMap_singleton]

omit [Field K] [LinearOrder K] in
/-- A frame has a dead slot if only one slot of all frames is live. -/
theorem exists_dead (hlive : ParticleMemory.liveSlots m [region] = [((region, f), i)])
    (hsize : 2 ≤ frameSize) {y : ParticleRegion K d × FramePtr} (hy : y ∈ allFrames [region]) :
    ∃ j, ParticleMemory.occupied m y.2 j = false := by
  by_contra hnone
  have hall : ∀ j, (y, j) ∈ ParticleMemory.liveSlots m [region] := fun j =>
    mem_liveSlots.mpr ⟨hy, Bool.eq_true_of_not_eq_false fun hdead => hnone ⟨j, hdead⟩⟩
  rw [hlive] at hall
  have hzero := congrArg Prod.snd (List.mem_singleton.mp (hall ⟨0, by omega⟩))
  have hone := congrArg Prod.snd (List.mem_singleton.mp (hall ⟨1, by omega⟩))
  exact Nat.zero_ne_one (congrArg Fin.val (hzero.trans hone.symm))

theorem pairContext_zero_r (b : Bool) :
    ((S.densityPass (d := d)).pairContext (fun _ => 0) b).r = 0 := by
  have hlength : squaredLength (fun _ : Fin (d + 1) => (0 : K)) = 0 := by
    rw [squaredLength_eq_normSq, normSq]
    simp
  show (if squaredLength (fun _ : Fin (d + 1) => (0 : K)) > 0 then _ else (0 : K)) = 0
  rw [hlength, if_neg (lt_irrefl _)]

/-- What a pair that is called for adds to the density. -/
def calledDensity (S : StageArgs K) (h : K) (pair : PairRecord (S.densityPass (d := d)).fn frameSize) : K :=
  pairDensity S.kernel h (stagedMass pair.neighbour) pair.ctx

/-- **What is stored**: the particle's own contribution, and one for each call. -/
theorem density_of_frameRuns {m₀ m' : FluidMemory K d frameSize}
    {results : Fin launch.totalFrames.toNat → Unit}
    {smem : ℕ → SmemCaches K d (S.densityPass (d := d)).fn.Staged frameSize}
    {calls : Fin launch.totalFrames.toNat → BlockCalls (S.densityPass (d := d)).fn frameSize}
    (hlists : launch.Lists [region])
    (hinit : Program.Runs (fun b : Fin launch.totalFrames.toNat =>
      hierarchyForEachKernel launch (densityInitSelf S.kernel frameSize) b) m results m₀)
    (hruns : Program.Runs (fun b : Fin launch.totalFrames.toNat =>
      S.densityPass.frameInteractionKernel launch view (smem b) b) m₀ calls m')
    (hp : ((region, f), i) ∈ ParticleMemory.liveSlots m [region]) :
    ∃ b : ℕ, (ParticleMemory.particle m' f i).attributes .density =
      (ParticleMemory.particle m f i).attributes .mass *
          S.kernel.W 0 ((ParticleMemory.particle m f i).attributes .smoothingLength) +
        ((S.densityPass.sweptFramesPairs m₀ region.volume f i (ParticleMemory.relativePos m₀ f i)
          (view.visited 0) (smem b)).map
            (calledDensity S ((ParticleMemory.particle m f i).attributes .smoothingLength))).sum := by
  have hfn : (S.densityPass (d := d)).fn.Isolated := accumulateDensity_isolated S.kernel
  have hsame := densityInitSelf_sameReads S hinit
  have hself := densityInitSelf_stored hlists hinit hp
  obtain ⟨hx, hocc⟩ := mem_liveSlots.mp hp
  obtain ⟨b, r, hregion, hframe, hr⟩ := hlists (region, f) hx
  obtain rfl : r = 0 := Nat.lt_one_iff.mp (List.getElem?_eq_some_iff.mp hr).1
  obtain rfl : launch.framePtrs b = f := hframe
  obtain ⟨hcalls, hstored⟩ := (passResult_of_frameRuns hfn hruns).stored b 0 region hregion i
    ((hsame.occupied hfn _ _).trans hocc)
  have hacc : .attribute .density ∈ (S.densityPass (d := d)).fn.ownAccumulate := List.mem_cons_self
  refine ⟨b, (hstored _ hacc).trans ?_⟩
  rw [hcalls, passPairs, List.flatMap_singleton, hsame.ownReads hfn]
  refine (accumulate_attribute hacc _ (fun pair acc => accumulateDensity_call S.kernel m
    (launch.framePtrs b) i pair.neighbour pair.ctx acc hacc) _ _).trans ?_
  exact congrArg (· + _) hself

/-- With one source, the stage is a launch for the own contributions and one for the pass. -/
theorem updateDensity_of_frameRuns {m₀ m' : FluidMemory K d frameSize}
    {results : Fin launch.totalFrames.toNat → Unit}
    {smem : ℕ → SmemCaches K d (S.densityPass (d := d)).fn.Staged frameSize}
    {calls : Fin launch.totalFrames.toNat → BlockCalls (S.densityPass (d := d)).fn frameSize}
    (hinit : Program.Runs (fun b : Fin launch.totalFrames.toNat =>
      hierarchyForEachKernel launch (densityInitSelf S.kernel frameSize) b) m results m₀)
    (hruns : Program.Runs (fun b : Fin launch.totalFrames.toNat =>
      S.densityPass.frameInteractionKernel launch view (smem b) b) m₀ calls m') :
    S.UpdateDensity launch [view] m m' ∧ (S.densityPass (d := d)).SameReads m m' := by
  have hfn : (S.densityPass (d := d)).fn.Isolated := accumulateDensity_isolated S.kernel
  have hpass : S.densityPass.PerSourceRuns launch [view] m₀ _ m' := .cons hruns .nil
  refine ⟨⟨results, m₀, fun b slot => calls b slot ++ [], hinit, ?_⟩, fun a ha =>
    ((passResult_of_frameRuns hfn hruns).sameReads a ha).trans (densityInitSelf_sameReads S hinit a ha)⟩
  rw [InteractRuns, if_pos List.length_singleton]
  exact hpass

variable [IsStrictOrderedRing K]

/-- **A dead slot and the mass in shared memory** are part of the sum. -/
theorem le_sum_calledDensity (h : AtSentinel S m region) (hR : 0 < S.radius)
    {smem : SmemCaches K d (S.densityPass (d := d)).fn.Staged frameSize}
    {frames : List (ParticleRegion K d × FramePtr)} {mass H : K} (hmass : 0 ≤ mass)
    (hsmem : ∀ j, stagedMass (smem.nbCache j) = mass) (hkernel : 0 ≤ S.kernel.W 0 H)
    (hframes : frames.Perm (allFrames [region]))
    (hlive : ParticleMemory.liveSlots m [region] = [((region, f), i)]) (hsize : 2 ≤ frameSize) :
    mass * S.kernel.W 0 H ≤ ((S.densityPass.sweptFramesPairs m region.volume f i
      (fun _ => (S.densityPass (d := d)).sentinel) frames smem).map (calledDensity S H)).sum := by
  have hmem : ∀ y ∈ frames, y.1 = region ∧ y.2 ∈ region.particleFrameList := fun y hy => by
    obtain ⟨hregion, hframe⟩ := mem_allFrames.mp (hframes.subset hy)
    obtain hregion := List.mem_singleton.mp hregion
    exact ⟨hregion, hregion ▸ hframe⟩
  have hp : ((region, f), i) ∈ ParticleMemory.liveSlots m [region] := by
    rw [hlive]
    exact List.mem_singleton_self _
  obtain ⟨hx, hocc⟩ := mem_liveSlots.mp hp
  cases frames with
  | nil => exact absurd (hframes.symm.subset hx) List.not_mem_nil
  | cons y ys =>
    obtain ⟨j, hdead⟩ := exists_dead hlive hsize (hframes.subset List.mem_cons_self)
    have hne : (f == y.2 && j == i) = false := by
      rw [Bool.eq_false_iff, Ne, Bool.and_eq_true, beq_iff_eq, beq_iff_eq]
      rintro ⟨rfl, rfl⟩
      exact Bool.false_ne_true (hdead.symm.trans hocc)
    obtain ⟨hregion, hframe⟩ := hmem y List.mem_cons_self
    obtain ⟨pair, hpair, hctx, hghost⟩ : ∃ pair ∈ S.densityPass.sweptFramesPairs m region.volume f i
        (fun _ => (S.densityPass (d := d)).sentinel) (y :: ys) smem,
        pair.ctx = S.densityPass.pairContext (fun _ => 0) false ∧
          stagedMass pair.neighbour = stagedMass (smem.nbCache j) :=
      exists_ghostPair h hR hregion hframe hdead hne
    have hterm : calledDensity S H pair = mass * S.kernel.W 0 H := by
      rw [calledDensity, hctx, hghost, hsmem, pairDensity, pairContext_zero_r]
      exact if_neg Bool.false_ne_true
    rw [← hterm]
    refine List.single_le_sum (fun x hx => ?_) _ (List.mem_map_of_mem hpair)
    obtain ⟨other, hother, rfl⟩ := List.mem_map.mp hx
    obtain ⟨⟨b, hb⟩, hnonneg⟩ := of_mem_sweptFramesPairs h hR (fun j => (hsmem j).symm ▸ hmass)
      hmem hother
    rw [calledDensity, hb, pairDensity, pairContext_zero_r]
    split
    · exact le_rfl
    · exact mul_nonneg hnonneg hkernel

/-- **A density above any bound**, in some run of `UpdateDensity`. -/
theorem exists_updateDensity_gt (hlists : launch.Lists [region]) (hview : view.Lists [region] S.radius)
    (hsource : view.sourcePR = [region])
    (hmeets : (region.volume.expand S.radius).intersects region.volume = true)
    (h : AtSentinel S m region) (hR : 0 < S.radius)
    (hlive : ParticleMemory.liveSlots m [region] = [((region, f), i)]) (hsize : 2 ≤ frameSize)
    (hkernel : 0 < S.kernel.W 0 ((ParticleMemory.particle m f i).attributes .smoothingLength))
    (bound : K) : ∃ m', S.UpdateDensity launch [view] m m' ∧
      (S.densityPass (d := d)).SameReads m m' ∧
        bound < (ParticleMemory.particle m' f i).attributes .density := by
  have hfn : (S.densityPass (d := d)).fn.Isolated := accumulateDensity_isolated S.kernel
  have hindep : Program.Independent (fun b : Fin launch.totalFrames.toNat =>
      hierarchyForEachKernel launch (densityInitSelf S.kernel frameSize) b) _ _ :=
    ParticleBody.independent_hierarchyForEachKernel _
  obtain ⟨results, m₀, hinit⟩ := hindep.exists_runs m
  have hsame := densityInitSelf_sameReads S hinit
  have h₀ := h.of_sameReads hsame
  have hp : ((region, f), i) ∈ ParticleMemory.liveSlots m [region] := by
    rw [hlive]
    exact List.mem_singleton_self _
  obtain ⟨hx, hocc⟩ := mem_liveSlots.mp hp
  have hframe : f ∈ region.particleFrameList := (mem_allFrames.mp hx).2
  have hposition : ParticleMemory.relativePos m₀ f i = fun _ => (S.densityPass (d := d)).sentinel :=
    h₀.position f hframe i ((hsame.occupied hfn f i).trans hocc)
  have hself := h.mass f hframe i hocc
  -- a large mass, in shared memory
  obtain ⟨mass, hmass, hlarge⟩ : ∃ mass : K, 0 ≤ mass ∧ bound <
      mass * S.kernel.W 0 ((ParticleMemory.particle m f i).attributes .smoothingLength) := by
    refine ⟨(|bound| + 1) / S.kernel.W 0 ((ParticleMemory.particle m f i).attributes .smoothingLength),
      div_nonneg (by positivity) hkernel.le, ?_⟩
    rw [div_mul_cancel₀ _ hkernel.ne']
    exact (le_abs_self bound).trans_lt (lt_add_one _)
  obtain ⟨smem, hsmem⟩ : ∃ smem : ℕ → SmemCaches K d (S.densityPass (d := d)).fn.Staged frameSize,
      ∀ b j, stagedMass ((smem b).nbCache j) = mass :=
    ⟨fun _ => massCaches S d frameSize mass, fun _ _ => rfl⟩
  obtain ⟨calls, m', hruns⟩ := exists_frameRuns launch m₀ hfn view smem
  obtain ⟨hupdate, hreads⟩ := updateDensity_of_frameRuns hinit hruns
  refine ⟨m', hupdate, hreads, ?_⟩
  obtain ⟨b, hdensity⟩ := density_of_frameRuns hlists hinit hruns hp
  rw [hdensity, hposition]
  have hle := le_sum_calledDensity h₀ hR hmass (hsmem b) hkernel.le
    (visited_perm_allFrames hview hsource hmeets) ((hsame.liveSlots hfn _).trans hlive) hsize
  exact hlarge.trans_le (hle.trans (le_add_of_nonneg_left (mul_nonneg hself hkernel.le)))

end Stages

/-! ## The step -/

section Step

variable {args : RunArgs K} {w : SimulationState K d frameSize} {volume : AABB K d}
  {P : FluidParticle K d}

/-- The regions of the default species keep their particles, which are pushed. -/
theorem referenceMoved_regions {s : ReferenceState K d} (S : StepArgs K) {region : ReferenceRegion K d}
    (h : region ∈ (S.referenceMoved s .Default).getD []) :
    ∃ region₀ ∈ (s .Default).getD [], region.particles = region₀.particles.map (push S.dt) := by
  rw [StepArgs.referenceMoved, ReferenceState.updateVolumes, Function.update_self, StepArgs.referencePush,
    ReferenceState.mapParticles] at h
  cases hregions : s .Default with
  | none =>
    rw [hregions] at h
    cases h
  | some regions =>
    rw [hregions, Option.map_some, Option.map_some, Option.getD_some, List.map_map] at h
    obtain ⟨region₀, hregion, rfl⟩ := List.mem_map.mp h
    exact ⟨region₀, hregion, rfl⟩

/-- No region comes or goes. -/
theorem length_referenceMoved {s : ReferenceState K d} (S : StepArgs K) (species : Species) :
    ((S.referenceMoved s species).getD []).length = ((s species).getD []).length := by
  have hlength : ((S.referencePush s species).getD []).length = ((s species).getD []).length := by
    rw [StepArgs.referencePush, getD_mapParticles, List.length_map]
  rw [← hlength, StepArgs.referenceMoved, ReferenceState.updateVolumes]
  rcases eq_or_ne species .Default with rfl | hne
  · rw [Function.update_self]
    cases S.referencePush s .Default with
    | none => rfl
    | some regions => exact List.length_map ..
  · rw [Function.update_of_ne hne]

/-- A single particle is pushed, and its box is around it. -/
theorem referenceMoved_of_single {s : ReferenceState K d} (S : StepArgs K)
    (h : s .Default = some [⟨volume, {P}⟩]) : S.referenceMoved s .Default =
      some [⟨bounds S.limits {(push S.dt P).relativePos}, {push S.dt P}⟩] := by
  rw [StepArgs.referenceMoved, ReferenceState.updateVolumes, Function.update_self,
    StepArgs.referencePush, ReferenceState.mapParticles, h]
  rfl

omit [Field K] [LinearOrder K] in
/-- A single particle is in one slot. -/
theorem exists_slot (h : w.reference .Default = some [⟨volume, {P}⟩]) :
    ∃ region f i, w.regions .Default = [region] ∧ region.volume = volume ∧
      ParticleMemory.liveSlots w.memory [region] = [((region, f), i)] ∧
        ParticleMemory.particle w.memory f i = P := by
  have hregions := getD_reference (w := w) .Default
  rw [h, Option.getD_some] at hregions
  obtain ⟨region, hregion, heq⟩ := List.map_eq_singleton_iff.mp hregions.symm
  have hslots := congrArg ReferenceRegion.particles heq
  obtain ⟨⟨⟨region', f⟩, i⟩, hlive, hparticle⟩ :=
    List.map_eq_singleton_iff.mp (Multiset.coe_eq_singleton.mp hslots)
  obtain rfl : region' = region := region_of_mem_liveSlots w.memory (p := ((region', f), i)) (by
    rw [hlive]
    exact List.mem_singleton_self _)
  exact ⟨region', f, i, hregion, congrArg ReferenceRegion.volume heq, hlive, hparticle⟩

/-- Without a boundary, the default species is the only source. -/
theorem exists_bundle_eq {bundle : List (SourceView K d)} (h : args.CalculateNeighbours w bundle)
    (hdefault : (w.buffers .Default).isSome = true) (hboundary : w.buffers .Boundary = none) :
    ∃ view, bundle = [view] ∧ view.sourcePR = w.regions .Default := by
  obtain ⟨entry, hentry, rfl⟩ := h
  have hselected : w.selects [.Source] .Default = true := selects_iff.mpr ⟨hdefault, rfl⟩
  have hsources : Species.all.filter (w.selects [.Source]) = [.Default] := by
    have hnone : w.selects [.Source] .Boundary = false := by
      rw [selects, hboundary]
      rfl
    have htracer : w.selects [.Source] .Tracer = false := Bool.and_false _
    rw [Species.all, List.filter_cons_of_pos hselected, List.filter_cons_of_neg (ne_true_of_eq_false hnone),
      List.filter_cons_of_neg (ne_true_of_eq_false htracer), List.filter_nil]
  obtain ⟨memory, s, -, -, hview⟩ := hentry .Default hselected
  exact ⟨entry .Default, by rw [hsources, List.map_singleton], by rw [hview]⟩

/-- `UpdateHydroForces` has a run that changes the derivatives only, wherever the particles are. -/
theorem exists_updateHydroForces_sameReads (S : StageArgs K) (launch : FrameLaunch K d)
    (view : SourceView K d) (m : FluidMemory K d frameSize) :
    ∃ m', S.UpdateHydroForces launch [view] m m' ∧ (S.hydroPass (d := d)).SameReads m m' := by
  have hfn : (S.hydroPass (d := d)).fn.Isolated := hydroInteraction_isolated S.kernel S.gamma
  have hindep : Program.Independent (fun b : Fin launch.totalFrames.toNat =>
      hierarchyForEachKernel launch (zeroDerivatives K d frameSize) b) _ _ :=
    ParticleBody.independent_hierarchyForEachKernel _
  obtain ⟨results, m₀, hzero⟩ := hindep.exists_runs m
  obtain ⟨smem⟩ : Nonempty (ℕ → SmemCaches K d (S.hydroPass (d := d)).fn.Staged frameSize) :=
    ⟨fun _ => ⟨fun _ _ => 0, fun _ => ⟨0, 0, 0, fun _ => 0⟩⟩⟩
  obtain ⟨calls, m', hruns⟩ := exists_frameRuns launch m₀ hfn view smem
  exact ⟨m', updateHydroForces_of_frameRuns hzero hruns, fun a ha =>
    ((passResult_of_frameRuns hfn hruns).sameReads a ha).trans (zeroDerivatives_sameReads S hzero a ha)⟩

variable [IsStrictOrderedRing K]

/-- The box around a single particle meets itself. -/
theorem intersects_of_single {S : StageArgs K} {region : ParticleRegion K d} {v : Vec K d}
    (hvolume : region.volume = bounds S.limits {v}) (hR : 0 < S.radius) :
    (region.volume.expand S.radius).intersects region.volume = true := by
  have hcontains := bounds_contains S.limits (Multiset.mem_singleton_self v)
  rw [hvolume]
  refine intersects_of_within hR.le hcontains hcontains ?_
  rw [squaredLength_eq_normSq, normSq]
  simpa using mul_pos hR hR

omit [IsStrictOrderedRing K] in
/-- A single particle is all that is live. -/
theorem atSentinel_of_single {S : StageArgs K} {m : FluidMemory K d frameSize}
    {region : ParticleRegion K d} {f : FramePtr} {i : Fin frameSize}
    (hlive : ParticleMemory.liveSlots m [region] = [((region, f), i)])
    (hparticle : ParticleMemory.particle m f i = P)
    (hposition : P.relativePos = fun _ => S.limits.max / 4) (hmass : 0 ≤ P.attributes .mass) :
    AtSentinel S m region := by
  have hslot : ∀ p ∈ region.particleFrameList, ∀ j, ParticleMemory.occupied m p j = true →
      p = f ∧ j = i := fun p hp j hocc => by
    have hmem : ((region, p), j) ∈ ParticleMemory.liveSlots m [region] :=
      mem_liveSlots.mpr ⟨mem_allFrames.mpr ⟨List.mem_singleton_self _, hp⟩, hocc⟩
    rw [hlive] at hmem
    have heq := List.mem_singleton.mp hmem
    exact ⟨congrArg (fun x => x.1.2) heq, congrArg Prod.snd heq⟩
  refine ⟨fun p hp j hocc => ?_, fun p hp j hocc => ?_⟩
  · obtain ⟨rfl, rfl⟩ := hslot p hp j hocc
    exact (congrArg Particle.relativePos hparticle).trans hposition
  · obtain ⟨rfl, rfl⟩ := hslot p hp j hocc
    rw [hparticle]
    exact hmass

omit [IsStrictOrderedRing K] in
theorem nearPairs_le (targets sources : List (ReferenceRegion K d)) (R : K) :
    nearPairs targets sources R ≤ targets.length * sources.length := by
  rw [nearPairs, ← smul_eq_mul]
  refine (List.sum_le_card_nsmul _ sources.length fun n hn => ?_).trans_eq (by rw [List.length_map])
  obtain ⟨region, -, rfl⟩ := List.mem_map.mp hn
  exact List.length_filter_le ..

omit [IsStrictOrderedRing K] in
/-- A region for each species makes few pairs. -/
theorem nearPairs_of_length_le {s : ReferenceState K d} (hlength : ∀ species, ((s species).getD []).length ≤ 1) (R : K)
    (S : Species) : nearPairs ((s .Default).getD []) ((s S).getD []) R < 2 ^ 31 :=
  ((nearPairs_le _ _ R).trans (Nat.mul_le_mul (hlength .Default) (hlength S))).trans_lt (by norm_num)

omit [IsStrictOrderedRing K] in
/-- A single region and no boundary make few pairs. -/
theorem nearPairs_of_single {s : ReferenceState K d} {region : ReferenceRegion K d}
    (hdefault : s .Default = some [region]) (hboundary : s .Boundary = none) (R : K) (S : Species)
    (hS : S.hasRole .Source = true) :
    nearPairs ((s .Default).getD []) ((s S).getD []) R < 2 ^ 31 := by
  have hle : ((s S).getD []).length ≤ 1 := by
    cases S with
    | Default =>
      rw [hdefault]
      exact le_rfl
    | Boundary =>
      rw [hboundary]
      exact Nat.zero_le 1
    | Tracer => exact absurd hS (by decide)
  refine (nearPairs_le _ _ R).trans_lt ?_
  rw [hdefault, Option.getD_some, List.length_singleton, Nat.one_mul]
  exact hle.trans_lt (by norm_num)

/-- **Density and forces of a single particle at the sentinel**, with a density above any bound. -/
theorem exists_stages_gt (hwf : w.WellFormed) (hd : w.Described .Default)
    (hdefault : w.reference .Default = some [⟨bounds args.limits {P.relativePos}, {P}⟩])
    (hboundary : w.buffers .Boundary = none)
    (hposition : P.relativePos = fun _ => args.limits.max / 4) (hmass : 0 ≤ P.attributes .mass)
    (hR : 0 < args.radius) (hsize : 2 ≤ frameSize)
    (hkernel : 0 < args.kernel.W 0 (P.attributes .smoothingLength)) (bound : K) :
    ∃ bundle launch m₂ m₃ rho, args.CalculateNeighbours w bundle ∧ w.IsLaunch .Default launch ∧
      args.UpdateDensity launch bundle w.memory m₂ ∧ args.UpdateHydroForces launch bundle m₂ m₃ ∧
      ((w.store m₃).reference.particles .Default).map (fun p => p.attributes .density) = {rho} ∧
      bound < rho := by
  have hsome : (w.buffers .Default).isSome = true := by
    have hreference := congrArg Option.isSome hdefault
    rwa [reference, Option.isSome_map] at hreference
  obtain ⟨region, f, i, hregions, hvolume, hlive, hparticle⟩ := exists_slot hdefault
  -- the search finds the region itself
  obtain ⟨bundle, hneighbours⟩ := exists_calculateNeighbours args w
  obtain ⟨view, rfl, hsource⟩ := exists_bundle_eq hneighbours hsome hboundary
  have hview := hneighbours.lists hwf (nearPairs_of_single hdefault (by rw [reference, hboundary]; rfl) _)
    view (List.mem_singleton_self _)
  obtain ⟨launch, hlaunch⟩ := exists_isLaunch hd hwf
  have hlists := hlaunch.lists hd hwf
  rw [hregions] at hview hlists hsource
  have hkernel' : 0 < args.kernel.W 0
      ((ParticleMemory.particle w.memory f i).attributes .smoothingLength) := by rwa [hparticle]
  obtain ⟨m₂, hdensity, hsame₂, hlt⟩ := exists_updateDensity_gt hlists hview hsource
    (intersects_of_single hvolume hR) (atSentinel_of_single hlive hparticle hposition hmass) hR hlive hsize
    hkernel' bound
  obtain ⟨m₃, hforces, hsame₃⟩ := exists_updateHydroForces_sameReads args.toStageArgs launch view m₂
  refine ⟨[view], launch, m₂, m₃, _, hneighbours, hlaunch, hdensity, hforces, ?_, hlt⟩
  have hlive₃ : ParticleMemory.liveSlots m₃ [region] = [((region, f), i)] :=
    (hsame₃.liveSlots (hydroInteraction_isolated _ _) _).trans
      ((hsame₂.liveSlots (accumulateDensity_isolated _) _).trans hlive)
  have hkept : (ParticleMemory.particle m₃ f i).attributes .density =
      (ParticleMemory.particle m₂ f i).attributes .density :=
    hsame₃ ⟨f, i, .attribute .density⟩ (by simp [StageArgs.hydroPass, hydroInteraction, dvdtLeaves])
  rw [ReferenceState.particles, getD_reference, regions_store, memory_store, hregions, List.map_singleton,
    List.map_singleton, List.sum_singleton, referenceRegion, hlive₃, ← hkept]
  rfl

/-- **At the sentinel a step is not determined**: a single particle that is pushed there has a density
above any bound after some run. -/
theorem exists_runOneStep_gt (hwf : w.WellFormed) (hidx : w.Indexed)
    (hdefault : w.reference .Default = some [⟨volume, {P}⟩]) (hboundary : w.reference .Boundary = none)
    (hposition : (push args.dt P).relativePos = fun _ => args.limits.max / 4)
    (hmass : 0 ≤ P.attributes .mass) (hR : 0 < args.radius) (hsize : 2 ≤ frameSize)
    (hkernel : 0 < args.kernel.W 0 (P.attributes .smoothingLength)) (bound : K) :
    ∃ w' rho, args.RunOneStep w w' ∧
      (w'.reference.particles .Default).map (fun p => p.attributes .density) = {rho} ∧ bound < rho := by
  have hsome : (w.buffers .Default).isSome = true := by
    have hreference := congrArg Option.isSome hdefault
    rwa [reference, Option.isSome_map] at hreference
  obtain ⟨w₁, m₁, w₂, hrefresh, hpush, hvolumes⟩ := exists_moved args hsome hwf hidx
  obtain ⟨hkeeps₂, hwf₂, -, hd₂, hmoved⟩ := movedFrom_of_stages hwf hidx hrefresh hpush hvolumes
  have hsingle : w₂.reference .Default =
      some [⟨bounds args.limits {(push args.dt P).relativePos}, {push args.dt P}⟩] := by
    rw [hmoved]
    exact referenceMoved_of_single args.toStepArgs hdefault
  have hnone₂ : w₂.buffers .Boundary = none := by
    rw [← Option.not_isSome_iff_eq_none, hkeeps₂.isSome, Option.map_eq_none_iff.mp hboundary]
    exact Bool.false_ne_true
  obtain ⟨bundle, launch, m₂, m₃, rho, hneighbours, hlaunch, hdensity, hforces, hstored, hlt⟩ :=
    exists_stages_gt hwf₂ (hd₂ .Default rfl hsome) hsingle hnone₂ hposition hmass hR hsize hkernel bound
  have hroles : ∀ S, (w₂.store m₃).selects [.Movable, .Thermodynamic] S = true →
      (w₂.store m₃).Described S :=
    described_of_selects hd₂ (hkeeps₂.trans (.store w₂ m₃)) List.mem_cons_self
  obtain ⟨m₄, hintegrate⟩ := exists_launchForEach (hwf₂.store m₃) [.Movable, .Thermodynamic] hroles
    (eulerIntegrate args.dt frameSize)
  have hintegrated : ((w₂.store m₃).store m₄).reference =
      args.referenceIntegrate (w₂.store m₃).reference :=
    hintegrate.reference (fun m frame slot => particle_eulerIntegrate args.dt m frame slot)
      (fun _ => rfl) (hwf₂.store m₃) hroles
  refine ⟨_, rho, ⟨hsome, w₁, m₁, w₂, bundle, launch, m₂, m₃, m₄, hrefresh, hpush, hvolumes, hneighbours,
    hlaunch, hdensity, hforces, hintegrate, rfl⟩, ?_, hlt⟩
  -- integration leaves densities alone
  rw [hintegrated, StepArgs.particles_referenceIntegrate, StepArgs.sequentialIntegrate,
    if_pos (by decide), Multiset.map_map, ← hstored]
  rfl

end Step

/-! ## A single particle

On one axis, with the sentinel at 100. -/

/-- A resting particle with a mass. -/
def singleFields : FluidAttribute 0 → ℚ
  | .mass => 1
  | .smoothingLength => 1
  | .density => 1
  | _ => 0

/-- The box from 0 to 200. -/
def singleBox : AABB ℚ 0 := ⟨fun _ => 0, fun _ => 0, fun _ => 200⟩

/-- A particle of the default species at `x`. -/
def singleBlock (x : ℚ) : FluidBlock ℚ 0 where
  targets := fun S => decide (S = .Default)
  addRegions := fun _ => [singleBox]
  numParticlesToCreate := fun _ _ => 1
  placeParticle := fun _ _ _ attributes => (fun _ => x, { attributes.2 with fields := singleFields })

def singleParticle (x : ℚ) : FluidParticle ℚ 0 := ⟨fun _ => x, 1, singleFields⟩

/-- The cubic kernel on one axis. -/
def singleArgs : RunArgs ℚ where
  kernel := cubicSplineKernel 3 1
  gamma := 2
  h0 := 1
  limits := ⟨400, -400⟩
  rsqrt := fun _ => 1
  dt := 1
  volumeWorkers := 0
  neighbourWorkers := 0

/-- Before anything is filled in. -/
def emptyState : SimulationState ℚ 0 2 where
  buffers := fun _ => none
  frames := fun _ => ⟨⟨fun _ => ⟨fun _ => 0, 0, ⟨0, fun _ => 0⟩⟩, 0⟩, none⟩
  allocated := ∅
  nextId := 0
  frameIndices := fun _ => {}

theorem numParticles_singleBlock (x : ℚ) : (singleBlock x).numParticles 0 singleBox = 1 := rfl

theorem fillable_singleBlock (x : ℚ) : Fillable 2 [singleBlock x] where
  deterministic := List.forall_mem_singleton.mpr fun _ _ _ _ _ _ _ _ => ⟨rfl, rfl⟩
  regions := fun S => match S with
    | .Default => show 1 < 2 ^ 31 by norm_num
    | .Boundary => show 0 < 2 ^ 31 by norm_num
    | .Tracer => show 0 < 2 ^ 31 by norm_num
  frames := fun S => match S with
    | .Default => by
      show (singleBlock x).numParticles 0 singleBox ⌈/⌉ 2 + 0 + 0 < 2 ^ 31
      rw [numParticles_singleBlock]
      decide
    | .Boundary => show 0 < 2 ^ 31 by norm_num
    | .Tracer => show 0 < 2 ^ 31 by norm_num

theorem initialReference_singleBlock (x : ℚ) :
    initialReference 2 [singleBlock x] .Default = some [⟨singleBox, {singleParticle x}⟩] ∧
      initialReference 2 [singleBlock x] .Boundary = none := by
  refine ⟨?_, rfl⟩
  have htasks : (singleBlock x).sliceTasks .Default 2 0 = regionTasks 2 1 0 := by
    show regionTasks 2 ((singleBlock x).numParticles 0 singleBox) 0 ++ [] = _
    rw [numParticles_singleBlock, List.append_nil]
  show some [initialRegion 2 (singleBlock x) .Default 0 0 singleBox] = _
  rw [initialRegion, htasks]
  rfl

/-- The state that a single particle is filled into. -/
theorem exists_single (x : ℚ) : ∃ w : SimulationState ℚ 0 2, (w.buffers .Default).isSome = true ∧
    w.WellFormed ∧ w.Indexed ∧ w.reference = initialReference 2 [singleBlock x] := by
  have hfill := fillable_singleBlock x
  have hshared : ∀ S, Setup.targeting [singleBlock x] S = [] → emptyState.buffers S = none :=
    fun _ _ => rfl
  obtain ⟨ids, w, hw⟩ := exists_fillSimulation (by norm_num) (by norm_num) hfill hshared
  obtain ⟨hwf, hindices, hreference, hsome, -⟩ := hw.spec (by norm_num) (by norm_num) hfill hshared
  exact ⟨w, (hsome .Default).mpr nofun, hwf, fun S => Or.inl (congrFun hindices S), hreference⟩

/-- A step of a single particle at the sentinel, with a density above any bound. -/
theorem exists_single_gt {w : SimulationState ℚ 0 2} (hwf : w.WellFormed) (hidx : w.Indexed)
    (hreference : w.reference = initialReference 2 [singleBlock 100]) (bound : ℚ) :
    ∃ w' rho, singleArgs.RunOneStep w w' ∧
      (w'.reference.particles .Default).map (fun p => p.attributes .density) = {rho} ∧ bound < rho := by
  obtain ⟨hdefault, hboundary⟩ := initialReference_singleBlock 100
  rw [← hreference] at hdefault hboundary
  refine exists_runOneStep_gt hwf hidx hdefault hboundary (funext fun t => ?_) ?_ ?_ le_rfl ?_ bound
  · show (100 : ℚ) + 0 * 1 = 400 / 4
    norm_num
  · show (0 : ℚ) ≤ 1
    norm_num
  · show (0 : ℚ) < 2 * 1
    norm_num
  · show (0 : ℚ) < (cubicSplineKernel 3 1).W 0 1
    decide +kernel

/-! ## Three particles and a wall -/

/-- Particles of the default species at 1, 2 and 3. -/
def rowBlock : FluidBlock ℚ 0 where
  targets := fun S => decide (S = .Default)
  addRegions := fun _ => [singleBox]
  numParticlesToCreate := fun _ _ => 3
  placeParticle := fun _ _ idx attributes => (fun _ => if idx = 0 then 1 else if idx = 1 then 2 else 3, { attributes.2 with fields := singleFields })

/-- A particle of the boundary at 0. -/
def wallBlock : FluidBlock ℚ 0 where
  targets := fun S => decide (S = .Boundary)
  addRegions := fun _ => [singleBox]
  numParticlesToCreate := fun _ _ => 1
  placeParticle := fun _ _ _ attributes => (fun _ => 0, { attributes.2 with fields := singleFields })

def rowSetup : List (FluidBlock ℚ 0) := [rowBlock, wallBlock]

theorem numParticles_rowBlock : rowBlock.numParticles 0 singleBox = 3 := rfl

theorem numParticles_wallBlock : wallBlock.numParticles 0 singleBox = 1 := rfl

theorem fillable_rowSetup : Fillable 2 rowSetup where
  deterministic := fun block hblock => by
    rcases List.mem_pair.mp hblock with rfl | rfl
    · exact fun _ _ _ _ _ _ _ _ => ⟨rfl, rfl⟩
    · exact fun _ _ _ _ _ _ _ _ => ⟨rfl, rfl⟩
  regions := fun S => match S with
    | .Default => show 1 < 2 ^ 31 by norm_num
    | .Boundary => show 1 < 2 ^ 31 by norm_num
    | .Tracer => show 0 < 2 ^ 31 by norm_num
  frames := fun S => match S with
    | .Default => by
      show rowBlock.numParticles 0 singleBox ⌈/⌉ 2 + 0 + 0 < 2 ^ 31
      rw [numParticles_rowBlock]
      decide
    | .Boundary => by
      show wallBlock.numParticles 0 singleBox ⌈/⌉ 2 + 0 + 0 < 2 ^ 31
      rw [numParticles_wallBlock]
      decide
    | .Tracer => show 0 < 2 ^ 31 by norm_num

theorem initialReference_rowSetup :
    initialReference 2 rowSetup .Default = some [⟨singleBox, {singleParticle 1, singleParticle 2, singleParticle 3}⟩] ∧
      initialReference 2 rowSetup .Boundary = some [⟨singleBox, {singleParticle 0}⟩] := by
  have hrow : rowBlock.sliceTasks .Default 2 0 = regionTasks 2 3 0 := by
    show regionTasks 2 (rowBlock.numParticles 0 singleBox) 0 ++ [] = _
    rw [numParticles_rowBlock, List.append_nil]
  have hwall : wallBlock.sliceTasks .Boundary 2 0 = regionTasks 2 1 0 := by
    show regionTasks 2 (wallBlock.numParticles 0 singleBox) 0 ++ [] = _
    rw [numParticles_wallBlock, List.append_nil]
  constructor
  · show some [initialRegion 2 rowBlock .Default 0 0 singleBox] = _
    rw [initialRegion, hrow]
    rfl
  · show some [initialRegion 2 wallBlock .Boundary 0 0 singleBox] = _
    rw [initialRegion, hwall]
    rfl

/-- They are away from the sentinel. -/
theorem clear_rowSetup : singleArgs.Clear (singleArgs.referenceMoved (initialReference 2 rowSetup)) := by
  obtain ⟨hdefault, hboundary⟩ := initialReference_rowSetup
  have hlength : ∀ species, ((singleArgs.referenceMoved (initialReference 2 rowSetup) species).getD []).length ≤ 1 := by
    intro species
    rw [length_referenceMoved]
    cases species with
    | Default => rw [hdefault]; exact le_rfl
    | Boundary => rw [hboundary]; exact le_rfl
    | Tracer => exact Nat.zero_le 1
  refine ⟨fun region hregion p hp => ?_, fun species _ => nearPairs_of_length_le hlength _ species,
    fun species => (hlength species).trans (by norm_num)⟩
  obtain ⟨region₀, hregion₀, hparticles⟩ := referenceMoved_regions singleArgs.toStepArgs hregion
  rw [hdefault] at hregion₀
  rw [hparticles, List.mem_singleton.mp hregion₀] at hp
  obtain ⟨q, hq, rfl⟩ := Multiset.mem_map.mp hp
  simp only [Multiset.insert_eq_cons, Multiset.mem_cons, Multiset.mem_singleton] at hq
  rcases hq with rfl | rfl | rfl <;> decide +kernel

/-- The state that they are filled into. -/
theorem exists_row : ∃ w : SimulationState ℚ 0 2, (w.buffers .Default).isSome = true ∧
    w.WellFormed ∧ w.Indexed ∧ w.reference = initialReference 2 rowSetup := by
  have hfill := fillable_rowSetup
  have hshared : ∀ S, Setup.targeting rowSetup S = [] → emptyState.buffers S = none := fun _ _ => rfl
  obtain ⟨ids, w, hw⟩ := exists_fillSimulation (by norm_num) (by norm_num) hfill hshared
  obtain ⟨hwf, hindices, hreference, hsome, -⟩ := hw.spec (by norm_num) (by norm_num) hfill hshared
  exact ⟨w, (hsome .Default).mpr nofun, hwf, fun S => Or.inl (congrFun hindices S), hreference⟩

end Control
end Spearhed
