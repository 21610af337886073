import Spearhed.Control.FillSimulation
import Spearhed.Control.StepRefinement

/-!
# Filling depends on the setup only

Whatever was on the device heap and in the data connector before, and in whatever order the blocks of
the kernels act, `fillSimulation` ends in a state with the initial regions and particles of the setup
(`FillSimulation.spec`).  The buffers that were there are used again, with a newer version.

* `listed_of_walk`, `Listed.of_extends`: the frames of a region, and that they stay.
* `initSpecies_spec`: one species.
-/

namespace Spearhed
namespace Control

open Library Particles Sph

variable {K : Type} {d frameSize : ℕ}

namespace SimulationState

variable {w w' : SimulationState K d frameSize} {S : Species}

/-! ## Frames of regions -/

/-- The frames of a region, allocated and in walking order. -/
structure Listed (w : SimulationState K d frameSize) (r : StoredRegion K d) : Prop where
  walk : Walk (fun p => (w.frames p).next) r.particleFrameList.list.firstNode
    (w.region r).particleFrameList
  nodup : (w.region r).particleFrameList.Nodup
  allocated : ∀ p ∈ (w.region r).particleFrameList, p ∈ w.allocated

/-- A walk over allocated frames finds the region. -/
theorem particleFrameList_of_walk {r : StoredRegion K d} {frames : List FramePtr}
    (hwalk : Walk (fun p => (w.frames p).next) r.particleFrameList.list.firstNode frames)
    (hnodup : frames.Nodup) (hallocated : ∀ p ∈ frames, p ∈ w.allocated) :
    (w.region r).particleFrameList = frames := by
  refine hwalk.walkNodes_eq ?_
  rw [← List.toFinset_card_of_nodup hnodup]
  exact Finset.card_le_card fun p hp => hallocated p (List.mem_toFinset.mp hp)

theorem listed_of_walk {r : StoredRegion K d} {frames : List FramePtr}
    (hwalk : Walk (fun p => (w.frames p).next) r.particleFrameList.list.firstNode frames)
    (hnodup : frames.Nodup) (hallocated : ∀ p ∈ frames, p ∈ w.allocated) : w.Listed r := by
  have heq := particleFrameList_of_walk hwalk hnodup hallocated
  exact ⟨heq ▸ hwalk, heq ▸ hnodup, heq ▸ hallocated⟩

/-- Frames are added, and those that were there stay. -/
structure Grows (w w' : SimulationState K d frameSize) : Prop where
  frames : ∀ p ∈ w.allocated, w'.frames p = w.frames p
  allocated : w.allocated ⊆ w'.allocated

theorem Listed.particleFrameList_eq {r : StoredRegion K d} (h : w.Listed r) (hgrows : Grows w w') :
    (w'.region r).particleFrameList = (w.region r).particleFrameList := by
  refine particleFrameList_of_walk (h.walk.congr fun p hp => ?_) h.nodup
    fun p hp => hgrows.allocated (h.allocated p hp)
  rw [hgrows.frames p (h.allocated p hp)]

/-- **A region keeps its frames.** -/
theorem Listed.of_grows {r : StoredRegion K d} (h : w.Listed r) (hgrows : Grows w w') :
    w'.Listed r := by
  have heq := h.particleFrameList_eq hgrows
  refine ⟨?_, heq ▸ h.nodup, fun p hp => hgrows.allocated (h.allocated p (heq ▸ hp))⟩
  rw [heq]
  exact h.walk.congr fun p hp => by rw [hgrows.frames p (h.allocated p hp)]

/-- A region keeps its particles. -/
theorem Listed.referenceRegion_eq {r : StoredRegion K d} (h : w.Listed r) (hgrows : Grows w w') :
    referenceRegion w'.memory (w'.region r) = referenceRegion w.memory (w.region r) := by
  have hregion : w'.region r = w.region r :=
    congrArg (ParticleRegion.mk r.volume) (h.particleFrameList_eq hgrows)
  have hparticle : ∀ p ∈ (w.region r).particleFrameList, ∀ slot,
      ParticleMemory.particle w'.memory p slot = ParticleMemory.particle w.memory p slot :=
    fun p hp slot => by
      have hframe := hgrows.frames p (h.allocated p hp)
      refine ParticleMemory.particle_eq fun l => ?_
      cases l <;> simp only [memory, hframe] <;> rfl
  rw [hregion]
  refine ReferenceRegion.ext rfl (congrArg Multiset.ofList ?_)
  have hslots : ParticleMemory.liveSlots w'.memory [w.region r] =
      ParticleMemory.liveSlots w.memory [w.region r] := by
    refine List.flatMap_congr fun x hx => congrArg _ (List.filter_congr fun slot _ => ?_)
    obtain ⟨hmem, hx⟩ := mem_allFrames.mp hx
    rw [List.mem_singleton.mp hmem] at hx
    rw [ParticleMemory.occupied_eq, ParticleMemory.occupied_eq, hparticle _ hx]
  rw [hslots]
  refine List.map_congr_left fun q hq => ?_
  obtain ⟨hmem, hx⟩ := mem_allFrames.mp (mem_liveSlots.mp hq).1
  rw [List.mem_singleton.mp hmem] at hx
  exact hparticle _ hx q.2

end SimulationState

/-! ## Slices -/

section Slices

variable {S : Species} {blocks : List (FluidBlock K d)}

/-- Whatever is listed for the regions of all blocks, there are as many entries as regions. -/
theorem map_length_slices {β : Type*} (blocks : List (FluidBlock K d)) (S : Species)
    (G : ℕ → FluidBlock K d → ℕ → AABB K d → β) :
    (blocks.mapIdx fun k block => (block.addRegions S).mapIdx fun i volume =>
      G k block i volume).map List.length = InitParticles.sliceSizes S blocks := by
  refine List.ext_getElem? fun k => ?_
  rw [InitParticles.sliceSizes, List.getElem?_map, List.getElem?_mapIdx, List.getElem?_map,
    Option.map_map]
  refine congrArg (fun f => Option.map f blocks[k]?) (funext fun block => ?_)
  rw [Function.comp_apply, List.length_mapIdx]

/-- Reading the regions of all blocks from front to end. -/
theorem map_range_slices {β : Type*} (blocks : List (FluidBlock K d)) (S : Species) (F : ℕ → β)
    (G : ℕ → FluidBlock K d → ℕ → AABB K d → β)
    (h : ∀ k block i volume, blocks[k]? = some block → (block.addRegions S)[i]? = some volume →
      F (blockStart (InitParticles.sliceSizes S blocks) k + i) = G k block i volume) :
    (List.range (InitParticles.sliceSizes S blocks).sum).map F =
      (blocks.mapIdx fun k block => (block.addRegions S).mapIdx fun i volume =>
        G k block i volume).flatten := by
  set lists := blocks.mapIdx fun k block => (block.addRegions S).mapIdx fun i volume =>
    G k block i volume with hlists
  have hsizes : lists.map List.length = InitParticles.sliceSizes S blocks :=
    map_length_slices blocks S G
  have hmap := map_range_eq_flatten lists F id
  rw [hsizes, List.map_id] at hmap
  refine hmap fun k i l x hl hx => ?_
  rw [hlists, List.getElem?_mapIdx] at hl
  obtain ⟨block, hk, rfl⟩ := Option.map_eq_some_iff.mp hl
  rw [List.getElem?_mapIdx] at hx
  obtain ⟨volume, hi, rfl⟩ := Option.map_eq_some_iff.mp hx
  exact h k block i volume hk hi

/-- Every region belongs to a block. -/
theorem exists_slice {r : ℕ} (hr : r < (InitParticles.sliceSizes S blocks).sum) :
    ∃ k block i volume, blocks[k]? = some block ∧ (block.addRegions S)[i]? = some volume ∧
      r = blockStart (InitParticles.sliceSizes S blocks) k + i := by
  obtain ⟨k, hk⟩ := exists_inBlock hr
  have hlt : k < blocks.length := by
    have := hk.lt_length
    rwa [InitParticles.sliceSizes, List.length_map] at this
  have hblock : blocks[k]? = some blocks[k] := List.getElem?_eq_getElem hlt
  have hi := hk.sub_lt
  rw [InitParticles.sliceSizes, List.getD_eq_getElem?_getD, List.getElem?_map, hblock] at hi
  exact ⟨k, blocks[k], _, _, hblock, List.getElem?_eq_getElem hi, (Nat.add_sub_cancel' hk.1).symm⟩

variable [Zero K]

/-- What a run over all blocks leaves behind. -/
structure SlicesFilled (S : Species) (blocks : List (FluidBlock K d))
    (m m' : Memory K d (FluidData K d) frameSize) (frames : ℕ → List FramePtr) : Prop where
  extended : Extends m m' 0 (InitParticles.sliceSizes S blocks).sum
  separate : Separate m 0 (InitParticles.sliceSizes S blocks).sum frames
  slice : ∀ k block i volume, blocks[k]? = some block → (block.addRegions S)[i]? = some volume →
    let r := blockStart (InitParticles.sliceSizes S blocks) k + i
    (m'.regions r).volume = volume ∧ RegionHolds m' k (block.numParticles i volume) r (frames r) ∧
      RegionPlaced m' ⟨k, block, initFluid⟩ S (blockStart (InitParticles.sliceSizes S blocks) k) i
        volume (frames r)

variable {m m' : Memory K d (FluidData K d) frameSize}

/-- **A run over all blocks fills their slices.** -/
theorem initBlocks_slicesFilled (hpos : 0 < frameSize) (hsize : frameSize < 2 ^ 32)
    {framesPerRegion : ℕ → ℕ → UInt32}
    (hnew : ∀ i volume, (InitRegions.volumes S blocks)[i]? = some volume →
      m.regions i = StoredRegion.ofVolume volume)
    (hcalls : m.calls = []) (hsum : ∀ block ∈ blocks, (block.frameCounts S frameSize).sum < 2 ^ 31) :
    InitParticles.initBlocks S initFluid framesPerRegion
      (fun m' => ∃ frames, SlicesFilled S blocks m m' frames) blocks 0 0 m := by
  refine InitParticles.ends_initBlocks hpos hsize (fun i volume hi => ?_) ?_ hsum ?_
  · rw [Nat.zero_add]
    exact hnew i volume hi
  · rw [hcalls]
    exact nofun
  · intro m' frames hextended hseparate hslice
    rw [Nat.zero_add] at hextended hseparate
    refine ⟨frames, hextended, hseparate, fun k block i volume hk hi => ?_⟩
    have hpart := hslice k block i volume hk hi
    simpa only [Nat.zero_add] using hpart

end Slices

/-! ## What is in a region -/

section Contents

variable {w : SimulationState K d frameSize} {m : Memory K d (FluidData K d) frameSize}

/-- The particles of a region, frame by frame. -/
theorem particles_referenceRegion (region : ParticleRegion K d) :
    (referenceRegion w.memory region).particles = Multiset.ofList
      (region.particleFrameList.flatMap fun p =>
        ((List.finRange frameSize).filter fun slot => ((w.frames p).particlesSoa slot).occupied).map
          fun slot => fluidParticle ((w.frames p).particlesSoa slot)) := by
  show Multiset.ofList (List.map _ _) = _
  rw [ParticleMemory.liveSlots, allFrames, List.flatMap_singleton, List.flatMap_map, List.map_flatMap]
  refine congrArg Multiset.ofList (List.flatMap_congr fun p _ => ?_)
  rw [List.map_map]
  rfl

variable [Zero K]

/-- A deterministic block places the same particle whatever the id. -/
theorem fluidParticle_of_slotPlaced {recipe : Recipe K d (FluidData K d) Species}
    (hinit : recipe.initAttributes = initFluid) (hdet : Deterministic recipe.block)
    {volume : AABB K d} {n : UInt32} {task : FrameTask} {j : ℕ} {slot : Fin frameSize}
    {particle : Particle K d (FluidData K d)}
    (h : CreateParticlesInFrame.SlotPlaced recipe volume n task j slot particle) :
    fluidParticle particle =
      fluidParticle (CreateParticlesInFrame.placed recipe task j slot ⟨volume, {}, n⟩ 0) := by
  obtain ⟨region, id, hvolume, hn, rfl⟩ := h
  obtain ⟨hpos, hfields⟩ := hdet j region ⟨volume, {}, n⟩
    (CreateParticlesInFrame.globalParticleIdx task slot) id 0 hvolume hn
  rw [fluidParticle, fluidParticle]
  simp only [CreateParticlesInFrame.placed, hinit]
  rw [hpos, hfields]

/-- **A region holds what its block creates in it.** -/
theorem referenceRegion_of_placed (hframes : w.frames = m.frames) {block : FluidBlock K d}
    (hdet : Deterministic block) {S : Species} {k regionBegin i : ℕ} {volume : AABB K d}
    {frames : List FramePtr}
    (h : RegionPlaced m ⟨k, block, initFluid⟩ S regionBegin i volume frames)
    {region : ParticleRegion K d} (hvolume : region.volume = volume)
    (hlist : region.particleFrameList = frames) :
    referenceRegion w.memory region = initialRegion frameSize block S regionBegin i volume := by
  obtain ⟨ptr, hperm, hslots⟩ := h
  refine ReferenceRegion.ext hvolume ?_
  rw [particles_referenceRegion, hlist, hframes]
  refine (Multiset.coe_eq_coe.mpr (hperm.flatMap_right _)).trans (congrArg Multiset.ofList ?_)
  rw [List.flatMap_map]
  refine List.flatMap_congr fun x hx => ?_
  have hslot := hslots x hx
  have hlive : (List.finRange frameSize).filter (fun slot =>
      ((m.frames (ptr x)).particlesSoa slot).occupied) =
      (List.finRange frameSize).filter fun slot => slot.val < x.1.numParticlesToCreate.toNat := by
    refine List.filter_congr fun slot _ => ?_
    have hs := hslot slot
    rw [Particle.occupied, Bool.eq_iff_iff, bne_iff_ne, decide_eq_true_iff]
    split at hs
    · next hlt =>
      obtain ⟨region', id, -, -, hparticle⟩ := hs
      rw [hparticle]
      exact iff_of_true (by decide : (1 : UInt8) ≠ 0) hlt
    · next hge => exact iff_of_false (fun hne => hne hs) hge
  rw [hlive]
  refine List.map_congr_left fun slot hmem => ?_
  have hlt : slot.val < x.1.numParticlesToCreate.toNat := by
    simpa using (List.mem_filter.mp hmem).2
  have hs := hslot slot
  rw [if_pos hlt] at hs
  exact fluidParticle_of_slotPlaced rfl hdet hs

end Contents

/-! ## One species -/

/-- What a setup has to satisfy: its blocks are deterministic, and the regions and frames of a species
can be counted in an `int`. -/
structure Fillable [Zero K] (frameSize : ℕ) (setup : FluidSetup K d) : Prop where
  deterministic : ∀ block ∈ setup, Deterministic block
  regions : ∀ S, (InitRegions.volumes S (setup.targeting S)).length < 2 ^ 31
  frames : ∀ S, ((setup.targeting S).map fun block => (block.frameCounts S frameSize).sum).sum < 2 ^ 31

theorem Fillable.frames_of_mem [Zero K] {setup : FluidSetup K d} (h : Fillable frameSize setup)
    {S : Species} {block : FluidBlock K d} (hblock : block ∈ setup.targeting S) :
    (block.frameCounts S frameSize).sum < 2 ^ 31 := by
  have hle : (block.frameCounts S frameSize).sum ≤
      ((setup.targeting S).map fun block => (block.frameCounts S frameSize).sum).sum :=
    List.le_sum_of_mem (List.mem_map.mpr ⟨block, hblock, rfl⟩)
  exact hle.trans_lt (h.frames S)

/-- A species was filled, and the others were left alone. -/
structure SpeciesFilled [Zero K] (setup : FluidSetup K d) (S : Species)
    (w w' : SimulationState K d frameSize) : Prop where
  grows : w.Grows w'
  others : ∀ S', S' ≠ S → w'.buffers S' = w.buffers S'
  frameIndices : w'.frameIndices = w.frameIndices
  buffer : ∃ B B', w.buffers S = some B ∧ w'.buffers S = some B' ∧
    B'.topologyVersion = B.topologyVersion + 1 ∧ B'.Uploaded ∧ ∀ r ∈ B'.device, w'.Listed r
  nodup : ((allFrames (w'.regions S)).map Prod.snd).Nodup
  fresh : ∀ p ∈ (allFrames (w'.regions S)).map Prod.snd, p ∉ w.allocated ∧ p ∈ w'.allocated
  fits : (frameCounts (w'.regions S)).sum < 2 ^ 31
  reference : w'.reference S = some (initialRegions frameSize (setup.targeting S) S)

section OneSpecies

variable [Zero K] {w w' : SimulationState K d frameSize} {setup : FluidSetup K d} {S : Species}
  {B : ParticleRegionBuffer (StoredRegion K d)} {regions : ℕ → StoredRegion K d}
  {m : Memory K d (FluidData K d) frameSize} {frames : ℕ → List FramePtr}

/-- The frames of the regions of a filled buffer. -/
theorem SlicesFilled.particleFrameList
    (h : SlicesFilled S (setup.targeting S) (w.initMemory regions) m frames) {r : ℕ}
    (hr : r < (InitParticles.sliceSizes S (setup.targeting S)).sum) :
    (w.filled S B m).Listed (m.regions r) ∧
      ((w.filled S B m).region (m.regions r)).particleFrameList = frames r := by
  obtain ⟨k, block, i, volume, hk, hi, rfl⟩ := exists_slice hr
  obtain ⟨-, hholds, -⟩ := h.slice k block i volume hk hi
  have hwalk : Walk (fun p => ((w.filled S B m).frames p).next) (m.regions _).particleFrameList.list.firstNode
      (frames _) := hholds.list.walk
  exact ⟨SimulationState.listed_of_walk hwalk hholds.list.nodup hholds.list.allocated,
    SimulationState.particleFrameList_of_walk hwalk hholds.list.nodup hholds.list.allocated⟩

/-- The frame lists of a filled buffer. -/
theorem SlicesFilled.map_particleFrameList
    (h : SlicesFilled S (setup.targeting S) (w.initMemory regions) m frames)
    (hlength : B.device.length = (InitParticles.sliceSizes S (setup.targeting S)).sum) :
    ((w.filled S B m).regions S).map ParticleRegion.particleFrameList =
      (List.range (InitParticles.sliceSizes S (setup.targeting S)).sum).map frames := by
  rw [SimulationState.regions_of_some (Function.update_self ..)]
  show (((List.range B.device.length).map m.regions).map _).map _ = _
  rw [hlength, List.map_map, List.map_map]
  exact List.map_congr_left fun r hr => (h.particleFrameList (List.mem_range.mp hr)).2

/-- **A run of `initSpecies` fills the species.** -/
theorem speciesFilled_of_slices (hfill : Fillable frameSize setup)
    (hB : w.buffers S = some B)
    (hlength : B.device.length = (InitParticles.sliceSizes S (setup.targeting S)).sum)
    (huploaded : B.Uploaded)
    (h : SlicesFilled S (setup.targeting S) (w.initMemory regions) m frames) :
    SpeciesFilled setup S w (w.filled S B m) := by
  have hself : (w.filled S B m).buffers S =
      some (B.changeTopology ((List.range B.device.length).map m.regions)) := Function.update_self ..
  have hlists := h.map_particleFrameList hlength
  have hframes : (allFrames ((w.filled S B m).regions S)).map Prod.snd =
      (List.range (InitParticles.sliceSizes S (setup.targeting S)).sum).flatMap frames := by
    rw [SimulationState.map_snd_allFrames, hlists, List.flatMap_def]
  have hholds : ∀ r < (InitParticles.sliceSizes S (setup.targeting S)).sum,
      (frames r).Nodup ∧ ∀ p ∈ frames r, p ∈ m.allocated := fun r hr => by
    obtain ⟨k, block, i, volume, hk, hi, rfl⟩ := exists_slice hr
    obtain ⟨-, hholds, -⟩ := h.slice k block i volume hk hi
    exact ⟨hholds.list.nodup, hholds.list.allocated⟩
  refine ⟨⟨h.extended.frames, h.extended.allocated⟩, fun S' hS' => Function.update_of_ne hS' .., rfl,
    ⟨B, _, hB, hself, rfl, ?_, fun r hr => ?_⟩, ?_, fun p hp => ?_, ?_, ?_⟩
  · show ((List.range B.device.length).map m.regions).length = B.size
    rw [List.length_map, List.length_range]
    exact huploaded
  · obtain ⟨i, hi, rfl⟩ := List.mem_map.mp (show r ∈ (List.range B.device.length).map m.regions from hr)
    exact (h.particleFrameList (hlength ▸ List.mem_range.mp hi)).1
  · rw [hframes, List.nodup_flatMap]
    refine ⟨fun r hr => (hholds r (List.mem_range.mp hr)).1, ?_⟩
    refine List.Pairwise.imp_of_mem ?_ List.pairwise_lt_range
    intro r r' hr hr' hlt p hp hp'
    have heq := h.separate.disjoint r r' p (Nat.zero_le _) (List.mem_range.mp hr) (Nat.zero_le _)
      (List.mem_range.mp hr') hp hp'
    exact absurd heq hlt.ne
  · rw [hframes] at hp
    obtain ⟨r, hr, hp⟩ := List.mem_flatMap.mp hp
    have hr := List.mem_range.mp hr
    exact ⟨h.separate.fresh r (Nat.zero_le _) hr p hp, (hholds r hr).2 p hp⟩
  · have hcounts : frameCounts ((w.filled S B m).regions S) =
        ((setup.targeting S).mapIdx fun _ block => block.frameCounts S frameSize).flatten := by
      have hmap := congrArg (List.map List.length) hlists
      rw [List.map_map, List.map_map] at hmap
      refine hmap.trans (map_range_slices (setup.targeting S) S _ (fun _ block i volume =>
        block.numParticles i volume ⌈/⌉ frameSize) fun k block i volume hk hi => ?_)
      obtain ⟨-, hholds, -⟩ := h.slice k block i volume hk hi
      rw [Function.comp_apply, ← length_frameFills, ← hholds.fills.length_eq, List.length_map]
    have hfits := hfill.frames S
    rw [hcounts, List.sum_flatten]
    refine lt_of_eq_of_lt (congrArg List.sum ?_) hfits
    refine List.ext_getElem? fun k => ?_
    rw [List.getElem?_map, List.getElem?_mapIdx, List.getElem?_map, Option.map_map]
    rfl
  · rw [SimulationState.reference_of_some hself, SimulationState.regions_of_some hself]
    show some ((((List.range B.device.length).map m.regions).map _).map _) = _
    rw [hlength, List.map_map, List.map_map]
    refine congrArg some (map_range_slices (setup.targeting S) S _ _ fun k block i volume hk hi => ?_)
    obtain ⟨hvolume, hholds, hplaced⟩ := h.slice k block i volume hk hi
    have hdet := hfill.deterministic block (List.mem_of_mem_filter (List.mem_of_getElem? hk))
    have hr : blockStart (InitParticles.sliceSizes S (setup.targeting S)) k + i <
        (InitParticles.sliceSizes S (setup.targeting S)).sum := by
      have hlt := (List.getElem?_eq_some_iff.mp (InitParticles.volumes_getElem? hk hi)).1
      rwa [← InitParticles.sum_sliceSizes] at hlt
    exact referenceRegion_of_placed rfl hdet hplaced hvolume (h.particleFrameList hr).2

theorem SimulationState.InitSpecies.filled (hpos : 0 < frameSize) (hsize : frameSize < 2 ^ 32)
    (hfill : Fillable frameSize setup) (hB : w.buffers S = some B)
    (hdevice : B.device = (InitRegions.volumes S (setup.targeting S)).map StoredRegion.ofVolume)
    (huploaded : B.Uploaded) {ids : List UInt64} (h : w.InitSpecies setup S ids w') :
    SpeciesFilled setup S w w' := by
  rw [SimulationState.InitSpecies, hB] at h
  obtain ⟨regions, framesPerRegion, m, hregions, hruns, rfl⟩ := h
  have hlength : B.device.length = (InitParticles.sliceSizes S (setup.targeting S)).sum := by
    rw [hdevice, List.length_map, InitParticles.sum_sliceSizes]
  obtain ⟨frames, hslices⟩ := InitParticles.InitBlocksRuns.sound
    (initBlocks_slicesFilled hpos hsize (fun i volume hi => hregions i _ (by
      rw [hdevice, List.getElem?_map, hi]
      rfl)) rfl fun block hblock => hfill.frames_of_mem hblock) hruns
  exact speciesFilled_of_slices hfill hB hlength huploaded hslices

end OneSpecies

/-! ## All species -/

/-- While species are filled, one after the other: what is in those that are done, and that the
others have no frames yet. -/
structure Filling [Zero K] (setup : FluidSetup K d) (filled : List Species)
    (w : SimulationState K d frameSize) : Prop where
  listed : ∀ S B, w.buffers S = some B → ∀ r ∈ B.device, w.Listed r
  uploaded : ∀ S B, w.buffers S = some B → B.Uploaded
  nodup : ∀ S, ((allFrames (w.regions S)).map Prod.snd).Nodup
  disjoint : ∀ S S', S ≠ S' → ((allFrames (w.regions S)).map Prod.snd).Disjoint
    ((allFrames (w.regions S')).map Prod.snd)
  fits : ∀ S, (frameCounts (w.regions S)).sum < 2 ^ 31
  isSome : ∀ S, (w.buffers S).isSome = true ↔ setup.targeting S ≠ []
  reference : ∀ S ∈ filled, w.reference S = initialReference frameSize setup S
  new : ∀ S B, S ∉ filled → w.buffers S = some B →
    B.device = (InitRegions.volumes S (setup.targeting S)).map StoredRegion.ofVolume

namespace Filling

variable [Zero K] {w w' : SimulationState K d frameSize} {setup : FluidSetup K d} {S : Species}
  {filled : List Species} {ids : List UInt64}

/-- Frames in lists are allocated. -/
theorem mem_allocated (h : Filling setup filled w) {p : FramePtr}
    (hp : p ∈ (allFrames (w.regions S)).map Prod.snd) : p ∈ w.allocated := by
  rw [SimulationState.map_snd_allFrames] at hp
  obtain ⟨l, hl, hp⟩ := List.mem_flatten.mp hp
  obtain ⟨region, hregion, rfl⟩ := List.mem_map.mp hl
  cases hB : w.buffers S with
  | none =>
    rw [SimulationState.regions, hB] at hregion
    cases hregion
  | some B =>
    rw [SimulationState.regions_of_some hB] at hregion
    obtain ⟨r, hr, rfl⟩ := List.mem_map.mp hregion
    exact (h.listed S B hB r hr).allocated p hp

/-- Other species keep their regions and particles. -/
theorem other (h : Filling setup filled w) (hS : SpeciesFilled setup S w w') {S' : Species}
    (hne : S' ≠ S) : w'.regions S' = w.regions S' ∧ w'.reference S' = w.reference S' := by
  have hbuffers := hS.others S' hne
  cases hB : w.buffers S' with
  | none =>
    rw [hB] at hbuffers
    rw [SimulationState.regions, SimulationState.regions, SimulationState.reference,
      SimulationState.reference, hbuffers, hB]
    exact ⟨rfl, rfl⟩
  | some B =>
    rw [hB] at hbuffers
    have hregion : ∀ r ∈ B.device, w'.region r = w.region r := fun r hr =>
      congrArg (ParticleRegion.mk r.volume) ((h.listed S' B hB r hr).particleFrameList_eq hS.grows)
    refine ⟨?_, ?_⟩
    · rw [SimulationState.regions_of_some hbuffers, SimulationState.regions_of_some hB]
      exact List.map_congr_left hregion
    · rw [SimulationState.reference_of_some hbuffers, SimulationState.reference_of_some hB,
        SimulationState.regions_of_some hbuffers, SimulationState.regions_of_some hB, List.map_map,
        List.map_map]
      exact congrArg some (List.map_congr_left fun r hr =>
        (h.listed S' B hB r hr).referenceRegion_eq hS.grows)

/-- A filled species joins those that are done. -/
theorem cons (h : Filling setup filled w) (htarget : setup.targeting S ≠ [])
    (hS : SpeciesFilled setup S w w') : Filling setup (S :: filled) w' := by
  obtain ⟨B, B', hB, hB', -, huploaded, hlisted⟩ := hS.buffer
  have hother := fun {S' : Species} (hne : S' ≠ S) => h.other hS hne
  -- new frames are in no list of another species
  have hapart : ∀ S', S' ≠ S → ((allFrames (w'.regions S)).map Prod.snd).Disjoint
      ((allFrames (w'.regions S')).map Prod.snd) := fun S' hne p hp hp' => by
    rw [(hother hne).1] at hp'
    exact (hS.fresh p hp).1 (h.mem_allocated hp')
  refine ⟨fun S' B₁ hB₁ r hr => ?_, fun S' B₁ hB₁ => ?_, fun S' => ?_, fun S₁ S₂ hne => ?_,
    fun S' => ?_, fun S' => ?_, fun S' hS' => ?_, fun S' B₁ hS' hB₁ => ?_⟩
  · by_cases hne : S' = S
    · subst hne
      obtain rfl := Option.some.inj (hB'.symm.trans hB₁)
      exact hlisted r hr
    · rw [hS.others S' hne] at hB₁
      exact (h.listed S' B₁ hB₁ r hr).of_grows hS.grows
  · by_cases hne : S' = S
    · subst hne
      obtain rfl := Option.some.inj (hB'.symm.trans hB₁)
      exact huploaded
    · rw [hS.others S' hne] at hB₁
      exact h.uploaded S' B₁ hB₁
  · by_cases hne : S' = S
    · rw [hne]
      exact hS.nodup
    · rw [(hother hne).1]
      exact h.nodup S'
  · by_cases h₁ : S₁ = S
    · subst h₁
      exact hapart S₂ hne.symm
    · by_cases h₂ : S₂ = S
      · subst h₂
        exact (hapart S₁ h₁).symm
      · rw [(hother h₁).1, (hother h₂).1]
        exact h.disjoint S₁ S₂ hne
  · by_cases hne : S' = S
    · rw [hne]
      exact hS.fits
    · rw [(hother hne).1]
      exact h.fits S'
  · by_cases hne : S' = S
    · subst hne
      rw [hB']
      exact iff_of_true rfl htarget
    · rw [hS.others S' hne]
      exact h.isSome S'
  · by_cases hne : S' = S
    · rw [hne, hS.reference, initialReference, if_neg htarget]
    · rw [(hother hne).2]
      exact h.reference S' ((List.mem_cons.mp hS').resolve_left hne)
  · have hne : S' ≠ S := fun heq => hS' (heq ▸ List.mem_cons_self)
    rw [hS.others S' hne] at hB₁
    exact h.new S' B₁ (fun hmem => hS' (List.mem_cons_of_mem S hmem)) hB₁

/-- A species that no block targets has no buffer. -/
theorem cons_of_none (h : Filling setup filled w) (htarget : setup.targeting S = []) :
    Filling setup (S :: filled) w := by
  have hnone : w.buffers S = none := by
    by_contra hne
    exact (h.isSome S).mp (Option.isSome_iff_ne_none.mpr hne) htarget
  refine ⟨h.listed, h.uploaded, h.nodup, h.disjoint, h.fits, h.isSome, fun S' hS' => ?_,
    fun S' B hS' hB => h.new S' B (fun hmem => hS' (List.mem_cons_of_mem S hmem)) hB⟩
  rcases List.mem_cons.mp hS' with rfl | hmem
  · rw [SimulationState.reference, hnone, initialReference, if_pos htarget]
    rfl
  · exact h.reference S' hmem

/-- When all species are done, the state is well formed. -/
theorem wellFormed (h : Filling setup filled w) : w.WellFormed := by
  refine ⟨h.uploaded, ?_, h.fits⟩
  rw [SimulationState.allSpeciesFrames, List.map_flatMap, List.nodup_flatMap]
  refine ⟨fun S _ => h.nodup S, Species.nodup_all.imp fun {S S'} hne => ?_⟩
  exact h.disjoint S S' hne

theorem targeting_of_none (h : Filling setup filled w) (hB : w.buffers S = none) :
    setup.targeting S = [] := by
  by_contra hne
  have hsome := (h.isSome S).mpr hne
  rw [hB] at hsome
  cases hsome

omit [Zero K] in
/-- After the first, the other species are still left. -/
theorem not_mem_cons_filled {species : List Species} (hnodup : (S :: species).Nodup)
    (hleft : ∀ S' ∈ S :: species, S' ∉ filled) : ∀ S' ∈ species, S' ∉ S :: filled := by
  intro S' hS' hmem
  rcases List.mem_cons.mp hmem with rfl | hmem
  · exact (List.nodup_cons.mp hnodup).1 hS'
  · exact hleft S' (List.mem_cons_of_mem S hS') hmem

/-- The species that are left are filled one after the other. -/
theorem initParticles (hpos : 0 < frameSize) (hsize : frameSize < 2 ^ 32)
    (hfill : Fillable frameSize setup) {species : List Species} (h : Filling setup filled w)
    (hnodup : species.Nodup) (hleft : ∀ S ∈ species, S ∉ filled)
    (hruns : w.InitParticles setup species ids w') :
    ∃ filled', (∀ S ∈ species, S ∈ filled') ∧ (∀ S ∈ filled, S ∈ filled') ∧
      Filling setup filled' w' ∧ w'.frameIndices = w.frameIndices ∧
      (ids = idsFrom w.nextId ids.length ∧ w'.nextId = w.nextId + UInt64.ofNat ids.length) ∧
      ∀ S B, w.buffers S = some B →
        ∃ B', w'.buffers S = some B' ∧ B.topologyVersion ≤ B'.topologyVersion := by
  induction species generalizing filled w ids with
  | nil =>
    obtain ⟨rfl, rfl⟩ := hruns
    exact ⟨filled, nofun, fun _ => id, h, rfl, ⟨rfl, (add_zero _).symm⟩, fun S B hB => ⟨B, hB, le_rfl⟩⟩
  | cons S species ih =>
    obtain ⟨w₁, ids₁, ids₂, hS, hrest, rfl⟩ := hruns
    have hleft' := not_mem_cons_filled hnodup hleft
    have hnodup := hnodup.of_cons
    -- what one species does to the state
    have hone : Filling setup (S :: filled) w₁ ∧ w₁.frameIndices = w.frameIndices ∧
        (ids₁ = idsFrom w.nextId ids₁.length ∧ w₁.nextId = w.nextId + UInt64.ofNat ids₁.length) ∧
        ∀ S' B, w.buffers S' = some B →
          ∃ B', w₁.buffers S' = some B' ∧ B.topologyVersion ≤ B'.topologyVersion := by
      cases hB : w.buffers S with
      | none =>
        rw [SimulationState.InitSpecies, hB] at hS
        obtain ⟨rfl, rfl⟩ := hS
        exact ⟨h.cons_of_none (h.targeting_of_none hB), rfl, ⟨rfl, (add_zero _).symm⟩,
          fun S' B' hB' => ⟨B', hB', le_rfl⟩⟩
      | some B =>
        have htarget : setup.targeting S ≠ [] := (h.isSome S).mp (by rw [hB]; rfl)
        have hfilled := hS.filled hpos hsize hfill hB
          (h.new S B (hleft S List.mem_cons_self) hB) (h.uploaded S B hB)
        refine ⟨h.cons htarget hfilled, hfilled.frameIndices, ?_, fun S' B₁ hB₁ => ?_⟩
        · rw [SimulationState.InitSpecies, hB] at hS
          obtain ⟨regions, framesPerRegion, m, -, hblocks, rfl⟩ := hS
          exact hblocks.ids_eq
        · by_cases hne : S' = S
          · subst hne
            obtain ⟨B₀, B', hB₀, hB', hversion, -⟩ := hfilled.buffer
            obtain rfl := Option.some.inj (hB₀.symm.trans hB₁)
            exact ⟨B', hB', hversion ▸ Nat.le_succ _⟩
          · exact ⟨B₁, (hfilled.others S' hne).trans hB₁, le_rfl⟩
    obtain ⟨hfilling, hindices, ⟨hids₁, hnext₁⟩, hversions⟩ := hone
    obtain ⟨filled', hspecies, hfilled', hfilling', hindices', ⟨hids₂, hnext₂⟩, hversions'⟩ :=
      ih hfilling hnodup hleft' hrest
    refine ⟨filled', List.forall_mem_cons.mpr ⟨hfilled' S List.mem_cons_self, hspecies⟩,
      fun S' hS' => hfilled' S' (List.mem_cons_of_mem S hS'), hfilling', hindices'.trans hindices,
      ?_, fun S' B hB => ?_⟩
    · rw [hnext₁] at hids₂ hnext₂
      rw [List.length_append, idsFrom_add, ← hids₁, ← hids₂, hnext₂, UInt64.ofNat_add, add_assoc]
      exact ⟨rfl, rfl⟩
    · obtain ⟨B₁, hB₁, hle⟩ := hversions S' B hB
      obtain ⟨B₂, hB₂, hle'⟩ := hversions' S' B₁ hB₁
      exact ⟨B₂, hB₂, hle.trans hle'⟩

/-- There is a run. -/
theorem exists_initParticles (hpos : 0 < frameSize) (hsize : frameSize < 2 ^ 32)
    (hfill : Fillable frameSize setup) {species : List Species} (h : Filling setup filled w)
    (hnodup : species.Nodup) (hleft : ∀ S ∈ species, S ∉ filled) :
    ∃ ids w', w.InitParticles setup species ids w' := by
  induction species generalizing filled w with
  | nil => exact ⟨[], w, rfl, rfl⟩
  | cons S species ih =>
    have hleft' := not_mem_cons_filled hnodup hleft
    have hnodup := hnodup.of_cons
    cases hB : w.buffers S with
    | none =>
      obtain ⟨ids, w', hrest⟩ := ih (h.cons_of_none (h.targeting_of_none hB)) hnodup hleft'
      refine ⟨[] ++ ids, w', w, [], ids, ?_, hrest, rfl⟩
      rw [SimulationState.InitSpecies, hB]
      exact ⟨rfl, rfl⟩
    | some B =>
      have htarget : setup.targeting S ≠ [] := (h.isSome S).mp (by rw [hB]; rfl)
      have hdevice := h.new S B (hleft S List.mem_cons_self) hB
      let regions : ℕ → StoredRegion K d := fun r =>
        (B.device[r]?).getD (StoredRegion.ofVolume ⟨fun _ => 0, fun _ => 0, fun _ => 0⟩)
      have hregions : ∀ r region, B.device[r]? = some region → regions r = region :=
        fun r region hr => by
          show (B.device[r]?).getD _ = region
          rw [hr]
          rfl
      have hends : InitParticles.initBlocks S initFluid (fun _ _ => 0) _ (setup.targeting S) 0 0
          (w.initMemory regions) :=
        initBlocks_slicesFilled hpos hsize (fun i volume hi => hregions i _ (by
          rw [hdevice, List.getElem?_map, hi]
          rfl)) rfl fun block hblock => hfill.frames_of_mem hblock
      obtain ⟨ids₁, m, hblocks⟩ := InitParticles.exists_initBlocksRuns hends
      have hS : w.InitSpecies setup S ids₁ (w.filled S B m) := by
        rw [SimulationState.InitSpecies, hB]
        exact ⟨regions, _, m, hregions, hblocks, rfl⟩
      have hfilled := hS.filled hpos hsize hfill hB hdevice (h.uploaded S B hB)
      obtain ⟨ids₂, w', hrest⟩ := ih (h.cons htarget hfilled) hnodup hleft'
      exact ⟨_, w', _, ids₁, ids₂, hS, hrest, rfl⟩

end Filling

/-! ## The whole fill -/

section Regions

variable {setup : FluidSetup K d}
  {buffers buffers' : Species → Option (ParticleRegionBuffer (StoredRegion K d))}

/-- A walk over species that replaces an entry for each. -/
theorem foldlM_update {ι α : Type*} [DecidableEq ι] {f : ι → α → Option α} {l : List ι}
    (hl : l.Nodup) {b b' : ι → α}
    (h : l.foldlM (fun b i => (f i (b i)).map (Function.update b i)) b = some b') :
    ∀ i ∈ l, f i (b i) = some (b' i) := by
  have hkept : ∀ (l : List ι) (b : ι → α), l.foldlM (fun b i => (f i (b i)).map
      (Function.update b i)) b = some b' → ∀ i ∉ l, b' i = b i := by
    intro l
    induction l with
    | nil => exact fun b hb i _ => congrFun (Option.some.inj hb).symm i
    | cons j l ih =>
      intro b hb i hi
      rw [List.foldlM_cons] at hb
      obtain ⟨b₁, hb₁, hb⟩ := Option.bind_eq_some_iff.mp hb
      obtain ⟨a, -, rfl⟩ := Option.map_eq_some_iff.mp hb₁
      rw [List.mem_cons, not_or] at hi
      rw [ih _ hb i hi.2, Function.update_of_ne hi.1]
  induction l generalizing b with
  | nil => exact nofun
  | cons j l ih =>
    obtain ⟨hj, hl⟩ := List.nodup_cons.mp hl
    rw [List.foldlM_cons] at h
    obtain ⟨b₁, hb₁, h⟩ := Option.bind_eq_some_iff.mp h
    obtain ⟨a, ha, rfl⟩ := Option.map_eq_some_iff.mp hb₁
    intro i hi
    by_cases hij : i = j
    · subst hij
      rw [hkept l _ h i hj, Function.update_self]
      exact ha
    · have hrest := ih hl h i ((List.mem_cons.mp hi).resolve_left hij)
      rwa [Function.update_of_ne hij] at hrest

theorem exists_foldlM_update {ι α : Type*} [DecidableEq ι] {f : ι → α → Option α}
    (hf : ∀ i a, ∃ a', f i a = some a') (l : List ι) (b : ι → α) :
    ∃ b', l.foldlM (fun b i => (f i (b i)).map (Function.update b i)) b = some b' := by
  induction l generalizing b with
  | nil => exact ⟨b, rfl⟩
  | cons j l ih =>
    obtain ⟨a, ha⟩ := hf j (b j)
    obtain ⟨b', hb'⟩ := ih (Function.update b j a)
    refine ⟨b', ?_⟩
    rw [List.foldlM_cons, ha]
    exact hb'

theorem createSpecies_of_initRegions (h : initRegions setup buffers = some buffers') (S : Species) :
    InitRegions.createSpecies S setup (buffers S) = some (buffers' S) :=
  foldlM_update Species.nodup_all h S S.mem_all

variable [Zero K]

theorem exists_initRegions (hfill : Fillable frameSize setup)
    (buffers : Species → Option (ParticleRegionBuffer (StoredRegion K d))) :
    ∃ buffers', initRegions setup buffers = some buffers' := by
  refine exists_foldlM_update (fun S shared => ?_) _ _
  by_cases hS : setup.targeting S = []
  · exact ⟨shared, by rw [InitRegions.createSpecies, if_pos hS]⟩
  · obtain ⟨B, hB⟩ := InitRegions.exists_createSpecies hS (hfill.regions S) shared
    exact ⟨some B, hB⟩

end Regions

namespace SimulationState

variable [Zero K] {w w' : SimulationState K d frameSize} {setup : FluidSetup K d}
  {ids : List UInt64}

/-- **The buffers are created anew**, without frames. -/
theorem filling_of_initRegions (hfill : Fillable frameSize setup)
    (hshared : ∀ S, setup.targeting S = [] → w.buffers S = none)
    {buffers : Species → Option (ParticleRegionBuffer (StoredRegion K d))}
    (h : initRegions setup w.buffers = some buffers) :
    Filling setup [] { w with buffers, frameIndices := fun _ => {} } := by
  set w₀ : SimulationState K d frameSize := { w with buffers, frameIndices := fun _ => {} } with hw₀
  have hnone : ∀ S, setup.targeting S = [] → w₀.buffers S = none := fun S hS => by
    have hcreate := createSpecies_of_initRegions h S
    rw [InitRegions.createSpecies, if_pos hS, hshared S hS] at hcreate
    exact (Option.some.inj hcreate).symm
  have htarget : ∀ S B, w₀.buffers S = some B → setup.targeting S ≠ [] := fun S B hB hS => by
    rw [hnone S hS] at hB
    cases hB
  have hnew : ∀ S B, w₀.buffers S = some B →
      B.device = (InitRegions.volumes S (setup.targeting S)).map StoredRegion.ofVolume ∧
        B.host = B.device := fun S B hB => by
    have hcreate := createSpecies_of_initRegions h S
    rw [show buffers S = some B from hB] at hcreate
    exact InitRegions.createSpecies_eq_some (htarget S B hB) hcreate
  have hempty : ∀ S B, w₀.buffers S = some B → ∀ r ∈ B.device, r.particleFrameList = {} :=
    fun S B hB r hr => by
      rw [(hnew S B hB).1] at hr
      obtain ⟨volume, -, rfl⟩ := List.mem_map.mp hr
      rfl
  have hwalk : ∀ S B, w₀.buffers S = some B → ∀ r ∈ B.device,
      Walk (fun p => (w₀.frames p).next) r.particleFrameList.list.firstNode [] := fun S B hB r hr => by
    rw [hempty S B hB r hr]
    rfl
  have hnotMem : ∀ p ∈ ([] : List FramePtr), p ∈ w₀.allocated := fun p hp => absurd hp List.not_mem_nil
  have hlists : ∀ S, (w₀.regions S).map ParticleRegion.particleFrameList =
      (w₀.regions S).map fun _ => [] := fun S => by
    refine List.map_congr_left fun region hregion => ?_
    cases hB : w₀.buffers S with
    | none =>
      rw [regions, hB] at hregion
      cases hregion
    | some B =>
      rw [regions_of_some hB] at hregion
      obtain ⟨r, hr, rfl⟩ := List.mem_map.mp hregion
      exact particleFrameList_of_walk (hwalk S B hB r hr) List.nodup_nil hnotMem
  have hframes : ∀ S, (allFrames (w₀.regions S)).map Prod.snd = [] := fun S => by
    rw [map_snd_allFrames, hlists, List.map_const', List.flatten_replicate_nil]
  refine ⟨fun S B hB r hr => listed_of_walk (hwalk S B hB r hr) List.nodup_nil hnotMem,
    fun S B hB => ?_, fun S => by rw [hframes]; exact List.nodup_nil, fun S S' _ => ?_, fun S => ?_,
    fun S => ⟨fun hsome => ?_, fun hS => ?_⟩, fun S hS => absurd hS List.not_mem_nil,
    fun S B _ hB => (hnew S B hB).1⟩
  · exact congrArg List.length (hnew S B hB).2.symm
  · rw [hframes]
    exact List.disjoint_nil_left _
  · have hcounts := congrArg (List.map List.length) (hlists S)
    rw [List.map_map, List.map_map] at hcounts
    rw [show frameCounts (w₀.regions S) = _ from hcounts]
    simp only [Function.comp_def, List.length_nil, List.map_const', List.sum_replicate, smul_zero]
    norm_num
  · obtain ⟨B, hB⟩ := Option.isSome_iff_exists.mp hsome
    exact htarget S B hB
  · obtain ⟨B, hB⟩ := InitRegions.exists_createSpecies hS (hfill.regions S) (w.buffers S)
    have hcreate := createSpecies_of_initRegions h S
    rw [hB] at hcreate
    show (buffers S).isSome = true
    rw [← Option.some.inj hcreate]
    rfl

/-- **What `fillSimulation` leaves behind**: a well-formed state without indices, whose regions and
particles depend on the setup only, with buffers newer than those before. -/
theorem FillSimulation.spec (hpos : 0 < frameSize) (hsize : frameSize < 2 ^ 32)
    (hfill : Fillable frameSize setup) (hshared : ∀ S, setup.targeting S = [] → w.buffers S = none)
    (h : w.FillSimulation setup ids w') :
    w'.WellFormed ∧ (w'.frameIndices = fun _ => {}) ∧
      w'.reference = initialReference frameSize setup ∧
      (∀ S, (w'.buffers S).isSome = true ↔ setup.targeting S ≠ []) ∧
      (ids = idsFrom w.nextId ids.length ∧ w'.nextId = w.nextId + UInt64.ofNat ids.length) ∧
      ∀ S B, w.buffers S = some B →
        ∃ B', w'.buffers S = some B' ∧ B.topologyVersion < B'.topologyVersion := by
  obtain ⟨buffers, hregions, hparticles⟩ := h
  have hfilling := filling_of_initRegions hfill hshared hregions
  obtain ⟨filled, hall, -, hfilled, hindices, hids, hversions⟩ :=
    hfilling.initParticles hpos hsize hfill Species.nodup_all nofun hparticles
  refine ⟨hfilled.wellFormed, hindices, funext fun S => hfilled.reference S (hall S S.mem_all),
    hfilled.isSome, hids, fun S B hB => ?_⟩
  have hS : setup.targeting S ≠ [] := fun hS => by
    rw [hshared S hS] at hB
    cases hB
  have hcreate := createSpecies_of_initRegions hregions S
  obtain ⟨B₁, hB₁⟩ : ∃ B₁, buffers S = some B₁ :=
    Option.isSome_iff_exists.mp ((hfilling.isSome S).mpr hS)
  rw [hB, hB₁] at hcreate
  obtain ⟨B', hB', hle⟩ := hversions S B₁ hB₁
  exact ⟨B', hB', (InitRegions.createSpecies_topologyVersion hS hcreate).trans_le hle⟩

/-- **The simulation can be filled.** -/
theorem exists_fillSimulation (hpos : 0 < frameSize) (hsize : frameSize < 2 ^ 32)
    (hfill : Fillable frameSize setup) (hshared : ∀ S, setup.targeting S = [] → w.buffers S = none) :
    ∃ ids w', w.FillSimulation setup ids w' := by
  obtain ⟨buffers, hregions⟩ := exists_initRegions hfill w.buffers
  obtain ⟨ids, w', hparticles⟩ := (filling_of_initRegions hfill hshared hregions).exists_initParticles
    hpos hsize hfill Species.nodup_all nofun
  exact ⟨ids, w', buffers, hregions, hparticles⟩

end SimulationState

end Control
end Spearhed
