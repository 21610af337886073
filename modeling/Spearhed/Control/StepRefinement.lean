import Spearhed.Control.LaunchRefinement
import Spearhed.Sph.Conservation

/-!
# A time step does what the reference step does

Whatever the order in which branches and blocks run, `runOneStep` ends in a state whose reference
state is that of the reference step (`RunOneStep.reference`).  The stages follow one another, and
each does its part: pushing and integrating by launches, the boxes by `updateVolumes`, density and
forces by a pass that adds up what is near.  A pass is correct as long as no particle comes near to
the sentinel (`Clear`).

Besides the particles nothing changes but the boxes and the indices (`Keeps`), so an index stays
fresh.  Every stage can be run (`exists_runOneStep`).
-/

namespace Spearhed
namespace Control

open Library Particles Sph

variable {K : Type} {d frameSize : ℕ}

namespace SimulationState

variable {w w' w'' : SimulationState K d frameSize} {S : Species}

/-! ## What no stage changes -/

/-- Frame lists, versions, and what was handed out stay. -/
structure Keeps (w w' : SimulationState K d frameSize) : Prop where
  lists : ∀ S, (w'.regions S).map ParticleRegion.particleFrameList =
    (w.regions S).map ParticleRegion.particleFrameList
  uploaded : ∀ S B', w'.buffers S = some B' → ∃ B, w.buffers S = some B ∧
    B'.topologyVersion = B.topologyVersion ∧ (B.Uploaded → B'.Uploaded)
  isSome : ∀ S, (w'.buffers S).isSome = (w.buffers S).isSome
  allocated : w'.allocated = w.allocated
  nextId : w'.nextId = w.nextId

theorem Keeps.trans (h : Keeps w w') (h' : Keeps w' w'') : Keeps w w'' := by
  refine ⟨fun S => (h'.lists S).trans (h.lists S), fun S B'' hB'' => ?_,
    fun S => (h'.isSome S).trans (h.isSome S), h'.allocated.trans h.allocated,
    h'.nextId.trans h.nextId⟩
  obtain ⟨B', hB', hversion', huploaded'⟩ := h'.uploaded S B'' hB''
  obtain ⟨B, hB, hversion, huploaded⟩ := h.uploaded S B' hB'
  exact ⟨B, hB, hversion'.trans hversion, huploaded' ∘ huploaded⟩

theorem Keeps.store (w : SimulationState K d frameSize) (m : FluidMemory K d frameSize) :
    Keeps w (w.store m) :=
  ⟨fun _ => rfl, fun _ B hB => ⟨B, hB, rfl, id⟩, fun _ => rfl, rfl, rfl⟩

theorem Keeps.frameCounts (h : Keeps w w') (S : Species) :
    frameCounts (w'.regions S) = frameCounts (w.regions S) := by
  have hmap := congrArg (List.map List.length) (h.lists S)
  rwa [List.map_map, List.map_map] at hmap

/-- The frames of some regions. -/
theorem map_snd_allFrames (regions : List (ParticleRegion K d)) :
    (allFrames regions).map Prod.snd =
      (regions.map ParticleRegion.particleFrameList).flatten := by
  rw [allFrames, List.map_flatMap, ← List.flatMap_def]
  exact List.flatMap_congr fun region _ => by rw [List.map_map]; exact List.map_id _

theorem Keeps.wellFormed (h : Keeps w w') (hwf : w.WellFormed) : w'.WellFormed := by
  refine ⟨fun S B' hB' => ?_, ?_, fun S => ?_⟩
  · obtain ⟨B, hB, -, huploaded⟩ := h.uploaded S B' hB'
    exact huploaded (hwf.uploaded S B hB)
  · have hframes : w'.allSpeciesFrames.map Prod.snd = w.allSpeciesFrames.map Prod.snd := by
      simp only [allSpeciesFrames, List.map_flatMap, map_snd_allFrames, h.lists]
    rw [hframes]
    exact hwf.nodup
  · rw [h.frameCounts]
    exact hwf.fits S

theorem Keeps.described (h : Keeps w w') (hidx : w'.frameIndices = w.frameIndices)
    (hd : w.Described S) : w'.Described S := by
  obtain ⟨ptrs, regionIdx, framesScan, hdescribes⟩ := hd
  refine ⟨ptrs, regionIdx, framesScan, ?_⟩
  rw [hidx]
  exact Describes.of_sameLists hdescribes (h.lists S)

/-- **A stage that leaves the indices alone leaves them fresh.** -/
theorem Keeps.indexed (h : Keeps w w') (hidx : w'.frameIndices = w.frameIndices)
    (hindexed : w.Indexed) : w'.Indexed := by
  intro S
  rcases hindexed S with hnever | ⟨B, hB, hfresh, hd⟩
  · exact Or.inl ((congrFun hidx S).trans hnever)
  · obtain ⟨B', hB'⟩ : ∃ B', w'.buffers S = some B' :=
      Option.isSome_iff_exists.mp ((h.isSome S).trans (by rw [hB]; rfl))
    obtain ⟨B₀, hB₀, hversion, -⟩ := h.uploaded S B' hB'
    obtain rfl := Option.some.inj (hB.symm.trans hB₀)
    refine Or.inr ⟨B', hB', ?_, h.described hidx hd⟩
    rw [hidx, hversion]
    exact hfresh

theorem Refresh.keeps (h : w.Refresh w') : Keeps w w' := by
  obtain ⟨frameIndices, -, rfl⟩ := h
  exact ⟨fun _ => rfl, fun _ B hB => ⟨B, hB, rfl, id⟩, fun _ => rfl, rfl, rfl⟩

theorem Refresh.reference (h : w.Refresh w') : w'.reference = w.reference := by
  obtain ⟨frameIndices, -, rfl⟩ := h
  rfl

/-! ## Boxes -/

/-- The positions that the boxes are computed from. -/
theorem livePositions_heap (region : ParticleRegion K d) :
    region.livePositions w.heap =
      (referenceRegion w.memory region).particles.map Particle.relativePos := by
  rw [ParticleRegion.livePositions, referenceRegion, ParticleMemory.liveSlots, allFrames,
    List.flatMap_singleton, List.flatMap_map, Multiset.map_coe, List.map_map, List.map_flatMap]
  refine congrArg Multiset.ofList (List.flatMap_congr fun frame _ => ?_)
  rw [List.map_map]
  rfl

/-- A region without its frames does not depend on its box but for the box itself. -/
theorem referenceRegion_volume (m : FluidMemory K d frameSize) (region : ParticleRegion K d)
    (volume : AABB K d) : referenceRegion m { region with volume } =
      { referenceRegion m region with volume } := by
  refine ReferenceRegion.ext rfl ?_
  rw [referenceRegion, referenceRegion]
  simp only [ParticleMemory.liveSlots, allFrames, List.flatMap_singleton, List.flatMap_map,
    List.map_flatMap, List.map_map]
  rfl

theorem setVolumes_map (stored : List (StoredRegion K d))
    (f : StoredRegion K d → ParticleRegion K d) :
    setVolumes stored (stored.map f) = stored.map fun r => { r with volume := (f r).volume } := by
  rw [setVolumes, List.zipWith_map_right, List.zipWith_self]

end SimulationState

namespace RunArgs

open SimulationState

variable [Field K] [LinearOrder K] {args : RunArgs K} {w w' : SimulationState K d frameSize}
  {bundle : List (SourceView K d)}

/-- **The boxes of the default species become those of its particles.** -/
theorem UpdateVolumes.spec (h : args.UpdateVolumes w w') (hwf : w.WellFormed) :
    Keeps w w' ∧ w'.frameIndices = w.frameIndices ∧ w'.memory = w.memory ∧
      w'.reference = w.reference.updateVolumes args.limits := by
  obtain ⟨B, order, hB, horder, rfl⟩ := h
  let updated : StoredRegion K d → StoredRegion K d := fun r =>
    { r with
      volume := bounds args.limits ((w.region r).livePositions w.heap) }
  have hdevice : setVolumes B.device (updateVolumes args.limits w.heap (2 ^ args.volumeWorkers)
      order (w.regions .Default)) = B.device.map updated := by
    have hlength : (w.regions .Default).length = B.size := by
      rw [regions_of_some hB, List.length_map]
      exact hwf.uploaded _ _ hB
    rw [updateVolumes_eq_map (hlength ▸ horder), regions_of_some hB, List.map_map, setVolumes_map]
    refine List.map_congr_left fun r _ => ?_
    rw [Function.comp_apply, updateRegion_volume]
  rw [hdevice]
  let B₁ : ParticleRegionBuffer (StoredRegion K d) := { B with device := B.device.map updated }
  set w' : SimulationState K d frameSize :=
    { w with buffers := Function.update w.buffers .Default (some B₁) } with hw'
  have hself : w'.buffers .Default = some B₁ := by
    show Function.update w.buffers .Default (some B₁) .Default = _
    rw [Function.update_self]
  have hother : ∀ S, S ≠ .Default → w'.buffers S = w.buffers S := fun S hS =>
    Function.update_of_ne hS ..
  have hregions : w'.regions .Default = (w.regions .Default).map fun region =>
      { region with volume := bounds args.limits (region.livePositions w.heap) } := by
    rw [regions_of_some hself, regions_of_some hB, List.map_map, List.map_map]
    rfl
  have hregions' : ∀ S, S ≠ .Default → w'.regions S = w.regions S := fun S hS => by
    rw [regions, regions, hother S hS]
    rfl
  refine ⟨⟨fun S => ?_, fun S B' hB' => ?_, fun S => ?_, rfl, rfl⟩, rfl, rfl, ?_⟩
  · by_cases hS : S = .Default
    · subst hS
      rw [hregions, List.map_map]
      rfl
    · rw [hregions' S hS]
  · by_cases hS : S = .Default
    · subst hS
      obtain rfl := Option.some.inj (hself.symm.trans hB')
      exact ⟨B, hB, rfl, fun huploaded => (List.length_map _).trans huploaded⟩
    · exact ⟨B', (hother S hS) ▸ hB', rfl, id⟩
  · by_cases hS : S = .Default
    · subst hS
      rw [hself, hB]
      rfl
    · rw [hother S hS]
  · funext S
    by_cases hS : S = .Default
    · subst hS
      rw [ReferenceState.updateVolumes, Function.update_self, reference_of_some hself,
        reference_of_some hB, Option.map_some, hregions, List.map_map, List.map_map]
      refine congrArg some (List.map_congr_left fun region _ => ?_)
      show referenceRegion w.memory _ = _
      rw [referenceRegion_volume, livePositions_heap]
      rfl
    · rw [ReferenceState.updateVolumes, Function.update_of_ne hS, reference, reference,
        hother S hS, hregions' S hS]
      rfl

/-! ## Sources -/

/-- Something of every source that is there, gathered over all species that may be sources. -/
theorem CalculateNeighbours.flatMap_sourcePR {α : Type*} (h : args.CalculateNeighbours w bundle)
    (g : List (ParticleRegion K d) → List α) (hg : g [] = []) :
    (bundle.flatMap fun view => g view.sourcePR) =
      (Species.all.filter fun S => S.hasRole .Source).flatMap fun S => g (w.regions S) := by
  obtain ⟨entry, hentry, rfl⟩ := h
  have hsource : ∀ S ∈ Species.all.filter (w.selects [.Source]),
      g (entry S).sourcePR = g (w.regions S) := fun S hS => by
    obtain ⟨memory, s, -, -, hview⟩ := hentry S (List.mem_filter.mp hS).2
    rw [hview]
  have hselects : Species.all.filter (w.selects [.Source]) =
      (Species.all.filter fun S => S.hasRole .Source).filter fun S => (w.buffers S).isSome := by
    rw [List.filter_filter]
    refine List.filter_congr fun S _ => ?_
    rw [selects, Species.hasRoles, List.all_cons, List.all_nil, Bool.and_true]
  rw [List.flatMap_map, List.flatMap_congr hsource, hselects]
  -- species that are not there have no regions
  induction Species.all.filter fun S => S.hasRole .Source with
  | nil => rfl
  | cons S species ih =>
    by_cases hS : (w.buffers S).isSome = true
    · rw [List.filter_cons, if_pos hS, List.flatMap_cons, List.flatMap_cons, ih]
    · have hregions : w.regions S = [] := by
        rw [regions, Option.not_isSome_iff_eq_none.mp hS]
        rfl
      rw [List.filter_cons, if_neg hS, List.flatMap_cons, hregions, hg, List.nil_append, ih]

/-- The regions of the sources, without their frames. -/
theorem CalculateNeighbours.withRole (h : args.CalculateNeighbours w bundle)
    (m : FluidMemory K d frameSize) :
    (bundle.flatMap fun view => view.sourcePR.map (referenceRegion m)) =
      (w.store m).reference.withRole .Source := by
  rw [h.flatMap_sourcePR (List.map (referenceRegion m)) rfl, ReferenceState.withRole]
  refine List.flatMap_congr fun S _ => ?_
  rw [getD_reference, regions_store, memory_store]

theorem CalculateNeighbours.nodup (h : args.CalculateNeighbours w bundle) (hwf : w.WellFormed) :
    ((sourceFrames bundle).map Prod.snd).Nodup := by
  have hframes : sourceFrames bundle =
      (Species.all.filter fun S => S.hasRole .Source).flatMap fun S => allFrames (w.regions S) :=
    h.flatMap_sourcePR allFrames rfl
  have hsub : (sourceFrames bundle).Sublist w.allSpeciesFrames := by
    rw [hframes]
    exact List.filter_sublist.flatMap _
  exact hwf.nodup.sublist (hsub.map _)

/-- The default species is among the sources. -/
theorem CalculateNeighbours.mem_sourceSlots (h : args.CalculateNeighbours w bundle)
    {m : FluidMemory K d frameSize} {p : RegionFrameSlot K d frameSize}
    (hp : p ∈ ParticleMemory.liveSlots m (w.regions .Default)) : p ∈ sourceSlots m bundle := by
  have hslots : sourceSlots m bundle = (Species.all.filter fun S => S.hasRole .Source).flatMap
      fun S => ParticleMemory.liveSlots m (w.regions S) :=
    h.flatMap_sourcePR (ParticleMemory.liveSlots m) rfl
  rw [hslots]
  exact List.mem_flatMap.mpr ⟨.Default, by decide, hp⟩

/-- Regions that come near to each other are counted without their frames. -/
theorem pairs_eq (m : FluidMemory K d frameSize) (targetPR sourcePR : List (ParticleRegion K d))
    (R : K) : pairs targetPR sourcePR R =
      nearPairs (targetPR.map (referenceRegion m)) (sourcePR.map (referenceRegion m)) R := by
  rw [pairs, rowLengths, nearPairs, List.map_map]
  refine congrArg List.sum (List.map_congr_left fun region _ => ?_)
  have hfound : (neighbours region sourcePR R).map (fun j => sourcePR[j]?) =
      (sourcePR.filter fun other => (region.volume.expand R).intersects other.volume).map some := by
    have hall : (List.range sourcePR.length).map (fun j => sourcePR[j]?) = sourcePR.map some := by
      refine List.ext_getElem (by simp) fun i hi hi' => ?_
      simp at hi hi' ⊢
    rw [neighbours]
    have hfilter := congrArg (List.filter fun other : Option (ParticleRegion K d) =>
      other.any fun other => (region.volume.expand R).intersects other.volume) hall
    rw [List.filter_map, List.filter_map] at hfilter
    exact hfilter
  have hlength := congrArg List.length hfound
  rw [List.length_map, List.length_map] at hlength
  rw [hlength, Function.comp_apply, List.filter_map, List.length_map]
  rfl

/-- **The views of a finished search hold the neighbour lists.** -/
theorem CalculateNeighbours.lists (h : args.CalculateNeighbours w bundle) (hwf : w.WellFormed)
    (hpairs : ∀ S : Species, S.hasRole .Source = true → nearPairs ((w.reference .Default).getD [])
      ((w.reference S).getD []) args.radius < 2 ^ 31) :
    ∀ view ∈ bundle, view.Lists (w.regions .Default) args.radius := by
  obtain ⟨entry, hentry, rfl⟩ := h
  intro view hview
  obtain ⟨S, hS, rfl⟩ := List.mem_map.mp hview
  obtain ⟨memory, s, hs, ht, heq⟩ := hentry S (List.mem_filter.mp hS).2
  have hrole : S.hasRole .Source = true := by
    have hroles := (selects_iff.mp (List.mem_filter.mp hS).2).2
    rwa [Species.hasRoles, List.all_cons, List.all_nil, Bool.and_true] at hroles
  have hfit := hpairs S hrole
  rw [getD_reference, getD_reference, ← pairs_eq] at hfit
  rw [heq]
  exact SourceView.lists_of_search hfit (hwf.length_regions_lt S) hs ht

/-! ## Passes -/

section Passes

variable {launch : FrameLaunch K d} {m' : FluidMemory K d frameSize}

omit [Field K] [LinearOrder K] in
/-- The frames of other species are not launched on. -/
theorem ne_framePtrs (hlaunch : w.IsLaunch .Default launch) (hd : w.Described .Default)
    (hwf : w.WellFormed) {S : Species} (hS : S ≠ .Default) {x : ParticleRegion K d × FramePtr}
    (hx : x ∈ allFrames (w.regions S)) :
    ∀ b < (toInt launch.totalFrames).toNat, x.2 ≠ launch.framePtrs b := by
  intro b hb heq
  obtain ⟨y, hy, hby⟩ := hlaunch.onlyLists hd hwf b hb
  exact hwf.frame_ne hS hx hy (heq.trans hby)

omit [Field K] [LinearOrder K] in
/-- A live slot holds a particle of its region. -/
theorem mem_referenceRegion {m : FluidMemory K d frameSize} {x : ParticleRegion K d × FramePtr}
    (hx : x.2 ∈ x.1.particleFrameList) {slot : Fin frameSize}
    (hocc : ParticleMemory.occupied m x.2 slot = true) :
    ParticleMemory.particle m x.2 slot ∈ (referenceRegion m x.1).particles := by
  have hlive : (x, slot) ∈ ParticleMemory.liveSlots m [x.1] :=
    mem_liveSlots.mpr ⟨mem_allFrames.mpr ⟨List.mem_singleton_self _, hx⟩, hocc⟩
  exact Multiset.mem_map_of_mem _ (Multiset.mem_coe.mpr hlive)

/-- Away from the sentinel, a pass culls it. -/
theorem cullsSentinel (hlaunch : w.IsLaunch .Default launch) (hd : w.Described .Default)
    (hwf : w.WellFormed) (hclear : args.Clear w.reference) :
    (args.densityPass (d := d)).CullsSentinel launch w.memory := by
  intro b hb slot hocc
  obtain ⟨x, hx, hframe⟩ := hlaunch.onlyLists hd hwf b (FrameLaunch.lt_of_ownRegion hb)
  obtain ⟨hregion, hmem⟩ := mem_allFrames.mp hx
  have hregion' : referenceRegion w.memory x.1 ∈ (w.reference .Default).getD [] := by
    rw [getD_reference]
    exact List.mem_map_of_mem hregion
  rw [hframe] at hocc ⊢
  exact hclear.sentinel _ hregion' _ (mem_referenceRegion hmem hocc)

/-- **`UpdateDensity` does what the reference does.** -/
theorem reference_of_updateDensity (h : args.UpdateDensity launch bundle w.memory m')
    (hbundle : args.CalculateNeighbours w bundle) (hlaunch : w.IsLaunch .Default launch)
    (hd : w.Described .Default) (hwf : w.WellFormed) (hclear : args.Clear w.reference) :
    (w.store m').reference = args.referenceDensity w.reference := by
  have hcull := cullsSentinel hlaunch hd hwf hclear
  refine reference_store ((h.sameReads hcull).occupied (accumulateDensity_isolated args.kernel))
    fun S p hp => ?_
  by_cases hS : S = .Default
  · subst hS
    have hsum := sum_neighbourSlots args.toStageArgs args.densityTerm_skipsSelf
      (hbundle.nodup hwf) (hbundle.mem_sourceSlots hp)
    rw [hbundle.withRole] at hsum
    rw [if_pos rfl]
    refine (h.particle (hlaunch.lists hd hwf) (hbundle.lists hwf hclear.pairs) hcull hp).trans ?_
    exact congrArg (fun sum => setDensity (_ + sum) _) hsum
  · rw [if_neg hS]
    exact h.particle_of_ne hcull p.2 (ne_framePtrs hlaunch hd hwf hS (mem_liveSlots.mp hp).1)

/-- **`UpdateHydroForces` does what the reference does.** -/
theorem reference_of_updateHydroForces (h : args.UpdateHydroForces launch bundle w.memory m')
    (hbundle : args.CalculateNeighbours w bundle) (hlaunch : w.IsLaunch .Default launch)
    (hd : w.Described .Default) (hwf : w.WellFormed) (hclear : args.Clear w.reference) :
    (w.store m').reference = args.referenceForces w.reference := by
  have hcull : (args.hydroPass (d := d)).CullsSentinel launch w.memory :=
    cullsSentinel hlaunch hd hwf hclear
  refine reference_store
    ((h.sameReads hcull).occupied (hydroInteraction_isolated args.kernel args.gamma))
    fun S p hp => ?_
  by_cases hS : S = .Default
  · subst hS
    have hsum := fun {g : PairTerm K d} (hg : g.SkipsSelf) => sum_neighbourSlots args.toStageArgs hg
      (hbundle.nodup hwf) (hbundle.mem_sourceSlots hp)
    simp only [hbundle.withRole] at hsum
    rw [if_pos rfl]
    refine (h.particle (hlaunch.lists hd hwf) (hbundle.lists hwf hclear.pairs) hcull hp).trans ?_
    have hacceleration := fun t => hsum (args.accelerationTerm_skipsSelf (d := d) t)
    exact congrArg₂ (fun dvdt dudt => setDerivatives dvdt dudt _) (funext hacceleration)
      (hsum args.heatingTerm_skipsSelf)
  · rw [if_neg hS]
    exact h.particle_of_ne hcull p.2 (ne_framePtrs hlaunch hd hwf hS (mem_liveSlots.mp hp).1)

end Passes

/-! ## The whole step -/

omit [Field K] [LinearOrder K] in
/-- The launches of a step are for species whose indices are refreshed. -/
theorem described_of_selects {w₁ : SimulationState K d frameSize} {roles : List Role}
    (hd : ∀ S, isTimestep S = true → (w.buffers S).isSome = true → w₁.Described S)
    (hkeeps : Keeps w w₁) (hroles : .Movable ∈ roles) :
    ∀ S, w₁.selects roles S = true → w₁.Described S := by
  intro S hS
  obtain ⟨hsome, hhas⟩ := selects_iff.mp hS
  refine hd S ?_ ((hkeeps.isSome S).symm.trans hsome)
  exact Bool.or_eq_true_iff.mpr (Or.inl (List.all_eq_true.mp hhas _ hroles))

/-- What the stages before the passes leave behind. -/
structure MovedFrom (args : RunArgs K) (w w₂ : SimulationState K d frameSize) : Prop where
  keeps : Keeps w w₂
  wellFormed : w₂.WellFormed
  indexed : w₂.Indexed
  described : ∀ S, isTimestep S = true → (w.buffers S).isSome = true → w₂.Described S
  reference : w₂.reference = args.referenceMoved w.reference

/-- **The particles are pushed, and the boxes are theirs.** -/
theorem movedFrom_of_stages {w₁ w₂ : SimulationState K d frameSize} {m₁ : FluidMemory K d frameSize}
    (hwf : w.WellFormed) (hidx : w.Indexed) (hrefresh : w.Refresh w₁)
    (hpush : w₁.LaunchForEach [.Movable] (pushVelocity args.dt frameSize) m₁)
    (hvolumes : args.UpdateVolumes (w₁.store m₁) w₂) : args.MovedFrom w w₂ := by
  obtain ⟨hidx₁, hd₁⟩ := hrefresh.described hwf hidx
  have hkeeps₁ := hrefresh.keeps
  have hwf₁ := hkeeps₁.wellFormed hwf
  have hpushed : (w₁.store m₁).reference = args.referencePush w.reference := by
    rw [← hrefresh.reference]
    exact hpush.reference (fun m frame slot => particle_pushVelocity args.dt m frame slot)
      (fun _ => rfl) hwf₁ (described_of_selects hd₁ hkeeps₁ List.mem_cons_self)
  obtain ⟨hkeeps₂, hindices₂, -, hmoved⟩ := hvolumes.spec (hwf₁.store m₁)
  rw [hpushed] at hmoved
  exact ⟨(hkeeps₁.trans (.store w₁ m₁)).trans hkeeps₂, hkeeps₂.wellFormed (hwf₁.store m₁),
    hkeeps₂.indexed hindices₂ hidx₁,
    fun S hS hsome => hkeeps₂.described hindices₂ (hd₁ S hS hsome), hmoved⟩

/-- Near the sentinel too. -/
theorem RunOneStep.keeps (h : args.RunOneStep w w') (hwf : w.WellFormed) (hidx : w.Indexed) :
    Keeps w w' := by
  obtain ⟨-, w₁, m₁, w₂, bundle, launch, m₂, m₃, m₄, hrefresh, hpush, hvolumes, -, -, -, -, -, rfl⟩ := h
  have hkeeps₂ := (movedFrom_of_stages hwf hidx hrefresh hpush hvolumes).keeps
  exact (hkeeps₂.trans (.store w₂ m₃)).trans (.store _ m₄)

/-- **A time step does what the reference step does**, and leaves the indices fresh. -/
theorem RunOneStep.spec (h : args.RunOneStep w w') (hwf : w.WellFormed) (hidx : w.Indexed)
    (hclear : args.Clear (args.referenceMoved w.reference)) :
    Keeps w w' ∧ w'.Indexed ∧ w'.reference = args.referenceStep w.reference := by
  obtain ⟨hdefault, w₁, m₁, w₂, bundle, launch, m₂, m₃, m₄, hrefresh, hpush, hvolumes, hneighbours,
    hlaunch, hdensity, hforces, hintegrate, rfl⟩ := h
  obtain ⟨hkeeps₂, hwf₂, hindexed₂, hd₂, hmoved⟩ :=
    movedFrom_of_stages hwf hidx hrefresh hpush hvolumes
  have hkeeps₃ : Keeps w (w₂.store m₃) := hkeeps₂.trans (.store w₂ m₃)
  have hdefault₂ := hd₂ .Default rfl hdefault
  have hclear₂ : args.Clear w₂.reference := hmoved.symm ▸ hclear
  -- density and forces
  have hdense : (w₂.store m₂).reference = args.referenceDensity w₂.reference :=
    reference_of_updateDensity hdensity hneighbours hlaunch hdefault₂ hwf₂ hclear₂
  have hclear₃ : args.Clear (w₂.store m₂).reference := by
    rw [hdense]
    exact hclear₂.mapParticles fun S region p => by split <;> rfl
  have hforced : ((w₂.store m₂).store m₃).reference =
      args.referenceForces (w₂.store m₂).reference :=
    reference_of_updateHydroForces (by rwa [memory_store]) hneighbours (hlaunch.store m₂) hdefault₂
      (hwf₂.store m₂) hclear₃
  -- integration
  have hintegrated : ((w₂.store m₃).store m₄).reference =
      args.referenceIntegrate (w₂.store m₃).reference :=
    hintegrate.reference (fun m frame slot => particle_eulerIntegrate args.dt m frame slot)
      (fun _ => rfl) (hwf₂.store m₃)
      (described_of_selects hd₂ hkeeps₃ List.mem_cons_self)
  refine ⟨hkeeps₃.trans (.store _ m₄), hindexed₂, ?_⟩
  rw [hintegrated]
  show args.referenceIntegrate ((w₂.store m₂).store m₃).reference = _
  rw [hforced, hdense, hmoved]
  rfl

/-! ## Steps can be run -/

theorem exists_updateVolumes (hdefault : (w.buffers .Default).isSome = true) :
    ∃ w', args.UpdateVolumes w w' := by
  obtain ⟨B, hB⟩ := Option.isSome_iff_exists.mp hdefault
  exact ⟨_, B, regionVisits B.size, hB, List.Perm.refl _, rfl⟩

theorem exists_calculateNeighbours (args : RunArgs K) (w : SimulationState K d frameSize) :
    ∃ bundle, args.CalculateNeighbours w bundle := by
  choose entry hentry using fun S => exists_calculateNeighbourEntry (2 ^ args.neighbourWorkers)
    (w.regions .Default) (w.regions S) args.radius
  exact ⟨_, entry, fun S _ => hentry S, rfl⟩

theorem exists_moved (args : RunArgs K) (hdefault : (w.buffers .Default).isSome = true)
    (hwf : w.WellFormed) (hidx : w.Indexed) : ∃ w₁ m₁ w₂, w.Refresh w₁ ∧
      w₁.LaunchForEach [.Movable] (pushVelocity args.dt frameSize) m₁ ∧
        args.UpdateVolumes (w₁.store m₁) w₂ := by
  obtain ⟨w₁, hrefresh⟩ := exists_refresh hwf hidx
  obtain ⟨-, hd₁⟩ := hrefresh.described hwf hidx
  have hkeeps₁ := hrefresh.keeps
  obtain ⟨m₁, hpush⟩ := exists_launchForEach (hkeeps₁.wellFormed hwf) [.Movable]
    (described_of_selects hd₁ hkeeps₁ List.mem_cons_self) (pushVelocity args.dt frameSize)
  obtain ⟨w₂, hvolumes⟩ : ∃ w₂, args.UpdateVolumes (w₁.store m₁) w₂ :=
    exists_updateVolumes ((hkeeps₁.isSome _).trans hdefault)
  exact ⟨w₁, m₁, w₂, hrefresh, hpush, hvolumes⟩

/-- **Every stage can be run**, so a step ends. -/
theorem exists_runOneStep (args : RunArgs K) (hdefault : (w.buffers .Default).isSome = true)
    (hwf : w.WellFormed) (hidx : w.Indexed) : ∃ w', args.RunOneStep w w' := by
  obtain ⟨w₁, m₁, w₂, hrefresh, hpush, hvolumes⟩ := exists_moved args hdefault hwf hidx
  obtain ⟨hkeeps₂, hwf₂, -, hd₂, -⟩ := movedFrom_of_stages hwf hidx hrefresh hpush hvolumes
  obtain ⟨bundle, hneighbours⟩ := exists_calculateNeighbours args w₂
  obtain ⟨launch, hlaunch⟩ := exists_isLaunch (hd₂ .Default rfl hdefault) hwf₂
  obtain ⟨m₂, hdensity⟩ := StageArgs.exists_updateDensity args.toStageArgs launch bundle w₂.memory
  obtain ⟨m₃, hforces⟩ := exists_updateHydroForces args.toStageArgs launch bundle m₂
  obtain ⟨m₄, hintegrate⟩ := exists_launchForEach (hwf₂.store m₃) [.Movable, .Thermodynamic]
    (described_of_selects hd₂ (hkeeps₂.trans (.store w₂ m₃)) List.mem_cons_self)
    (eulerIntegrate args.dt frameSize)
  exact ⟨_, hdefault, w₁, m₁, w₂, bundle, launch, m₂, m₃, m₄, hrefresh, hpush, hvolumes, hneighbours,
    hlaunch, hdensity, hforces, hintegrate, rfl⟩

end RunArgs

end Control
end Spearhed
