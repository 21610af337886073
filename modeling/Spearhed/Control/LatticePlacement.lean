import Spearhed.Control.FillRefinement
import Spearhed.Library.Literals
import Spearhed.Particles.SC

/-!
# Setups on a lattice

The functors of the Sod shock tube, `ValidationSetups/SodShockTube.hpp`.  The number of particles of a
region is computed in one kernel and their placement in another; both compute the counts of a lattice
from the box of the region and a spacing, which is the finer one to the left of the diaphragm.

* `SpacingBased`: what such a pair of functors has in common, and `spacingBased_spacingBlock`.
* `SpacingBased.initialRegion`: what they create in a region is a particle at each site.
* `lattice_sites_occupied_once`: with the facts about the lattice itself, and for every run that fills a
  simulation.
-/

namespace Spearhed
namespace Control

open Library Library.Literals Particles Sph

variable {K : Type} [Field K] [LinearOrder K] [FloorSemiring K] {d frameSize : ℕ}

/-! ## The functors -/

/-- `InitialConditions`. -/
structure InitialConditions (K : Type) where
  densityLeft : K
  pressureLeft : K
  densityRight : K
  pressureRight : K

/-- The constants of the simulation, and what is forwarded to the functors. -/
structure SpacingArgs (K : Type) extends InitialConditions K where
  /-- `std::numeric_limits<Real>::epsilon()`. -/
  epsilon : K
  h0 : K
  gamma_eos : K
  dxLeft : K
  dxRight : K
  pmass : K

namespace SpacingArgs

variable (args : SpacingArgs K)

/-- The spacing for a box. -/
def spacing (volume : AABB K d) : K := if volume.max 0 ≤ 0 then args.dxLeft else args.dxRight

/-- `SpacingNumParticles`. -/
def spacingNumParticles (particleRegion : StoredRegion K d) : UInt32 :=
  let s := if particleRegion.volume.max 0 ≤ 0 then args.dxLeft else args.dxRight
  let counts := computeSCCellCounts args.epsilon particleRegion.volume s
  numSCLatticeSites counts

/-- `SpacingPlaceParticle`. -/
def spacingPlaceParticle (particleRegion : StoredRegion K d) (globalParticleIdx : UInt32)
    (particle : Vec K d × FluidData K d) : Vec K d × FluidData K d :=
  let aabb := particleRegion.volume
  let isLeft := decide (aabb.max 0 ≤ 0)
  let rho := if isLeft then args.densityLeft else args.densityRight
  let P := if isLeft then args.pressureLeft else args.pressureRight
  let s := if isLeft then args.dxLeft else args.dxRight
  let counts := computeSCCellCounts args.epsilon aabb s
  ⟨(SC.place aabb counts globalParticleIdx particle.1).relativePos,
    { particle.2 with
      fields := fun
        | .vel _ => 0
        | .mass => args.pmass
        | .smoothingLength => args.h0
        | .density => rho
        | .internalEnergy => P / ((args.gamma_eos - 1) * rho)
        | a => particle.2.fields a }⟩

/-- A block with these functors. -/
def spacingBlock (target : Species) (addRegions : List (AABB K d)) : FluidBlock K d where
  targets := fun S => decide (S = target)
  addRegions := fun _ => addRegions
  numParticlesToCreate := fun _ => args.spacingNumParticles
  placeParticle := fun _ => args.spacingPlaceParticle

/-- `leftFluidVol`, for a transverse extent. -/
def leftFluidVol (L : K) : AABB K d :=
  ⟨fun _ => 0, fun t => if t = 0 then -1 else 0, fun t => if t = 0 then 0 else L⟩

/-- `rightFluidVol`. -/
def rightFluidVol (L : K) : AABB K d :=
  ⟨fun _ => 0, fun _ => 0, fun t => if t = 0 then 1 else L⟩

/-- `InteriorBlock`. -/
def interiorBlock (L : K) : FluidBlock K d :=
  args.spacingBlock .Default [leftFluidVol L, rightFluidVol L]

/-- `BoundaryBlock`, for the boxes of `addWalls`. -/
def boundaryBlock (walls : List (AABB K d)) : FluidBlock K d := args.spacingBlock .Boundary walls

end SpacingArgs

/-! ## What the functors have in common -/

/-- Count and placement are those of the lattice of the box and a spacing. -/
structure SpacingBased (epsilon : K) (spacing : AABB K d → K) (block : FluidBlock K d) : Prop where
  numParticles : ∀ j region, block.numParticlesToCreate j region =
    numSCLatticeSites (computeSCCellCounts epsilon region.volume (spacing region.volume))
  relativePos : ∀ j region idx particle, (block.placeParticle j region idx particle).1 =
    (SC.place region.volume (computeSCCellCounts epsilon region.volume (spacing region.volume)) idx
      particle.1).relativePos

theorem spacingBased_spacingBlock (args : SpacingArgs K) (target : Species)
    (addRegions : List (AABB K d)) :
    SpacingBased args.epsilon args.spacing (args.spacingBlock target addRegions) where
  numParticles _ _ := rfl
  relativePos j region idx particle := by
    show (SC.place _ (computeSCCellCounts _ _ (if decide (region.volume.max 0 ≤ 0) = true then
      args.dxLeft else args.dxRight)) _ _).relativePos = _
    simp only [decide_eq_true_eq]
    rfl

theorem deterministic_spacingBlock (args : SpacingArgs K) (target : Species)
    (addRegions : List (AABB K d)) : Deterministic (args.spacingBlock target addRegions) := by
  intro j region region' idx id id' hvolume _
  show _ ∧ (args.spacingPlaceParticle region idx (initFluid id)).2.fields =
    (args.spacingPlaceParticle region' idx (initFluid id')).2.fields
  rw [(spacingBased_spacingBlock args target addRegions).relativePos,
    (spacingBased_spacingBlock args target addRegions).relativePos, hvolume]
  refine ⟨rfl, ?_⟩
  rw [SpacingArgs.spacingPlaceParticle, SpacingArgs.spacingPlaceParticle, hvolume]
  rfl

/-! ## What is created in a region -/

section Region

variable {S : Species} {block : FluidBlock K d} {regionBegin i : ℕ} {volume : AABB K d}

omit [LinearOrder K] [FloorSemiring K] in
/-- What is created in a region, by the indices of its particles. -/
theorem map_initialRegion {β : Type*} (hpos : 0 < frameSize) (hsize : frameSize < 2 ^ 32)
    (hi : (block.addRegions S)[i]? = some volume) (f : FluidParticle K d → β) (g : UInt32 → β)
    (hfg : ∀ (task : FrameTask) j (slot : Fin frameSize),
      f (fluidParticle (CreateParticlesInFrame.placed ⟨0, block, initFluid⟩ task j slot
        ⟨volume, {}, block.numParticlesToCreate i (StoredRegion.ofVolume volume)⟩ 0)) =
        g (CreateParticlesInFrame.globalParticleIdx task slot)) :
    (initialRegion frameSize block S regionBegin i volume).particles.map f =
      Multiset.ofList ((List.range (block.numParticles i volume)).map fun k => g (UInt32.ofNat k)) := by
  have hjobs : (CreateParticlesInFrame.jobs (block.sliceTasks S frameSize regionBegin)
      (regionBegin + i)).map Prod.fst =
        regionTasks frameSize (block.numParticles i volume) (regionBegin + i) := by
    rw [← Block.filter_sliceTasks hi, CreateParticlesInFrame.jobs]
    conv_rhs => rw [← List.zipIdx_map_fst 0 (block.sliceTasks S frameSize regionBegin), List.filter_map]
    rfl
  have hcalls : (fun task : FrameTask =>
      ((List.finRange frameSize).filter fun slot => slot.val < task.numParticlesToCreate.toNat).map
        fun slot => g (CreateParticlesInFrame.globalParticleIdx task slot)) = fun task =>
      (CreateParticlesInFrame.doneCalls (⟨0, block, initFluid⟩ : Recipe K d (FluidData K d) Species)
        task (List.finRange frameSize)).map fun call => g call.globalParticleIdx := funext fun task => by
    rw [CreateParticlesInFrame.doneCalls, List.map_map]
    rfl
  rw [initialRegion, jobParticles]
  show Multiset.ofList (List.map f _) = _
  refine congrArg Multiset.ofList ?_
  simp only [List.map_flatMap, List.map_map, Function.comp_def, hfg]
  rw [← List.flatMap_map Prod.fst (fun task : FrameTask =>
      ((List.finRange frameSize).filter fun slot => slot.val < task.numParticlesToCreate.toNat).map
        fun slot => g (CreateParticlesInFrame.globalParticleIdx task slot)), hjobs, hcalls,
    ← List.map_flatMap, regionTasks_calls hpos hsize, List.map_map]
  rfl

end Region

namespace SpacingBased

variable {epsilon : K} {spacing : AABB K d → K} {block : FluidBlock K d}

/-- The counts for a box. -/
abbrev counts (epsilon : K) (spacing : AABB K d → K) (volume : AABB K d) : Fin (d + 1) → UInt32 :=
  computeSCCellCounts epsilon volume (spacing volume)

/-- **All calls for a region give each site once.** -/
theorem map_placeParticle (h : SpacingBased epsilon spacing block) (j : ℕ) (region : StoredRegion K d)
    (hprod : ∏ i, (counts epsilon spacing region.volume i).toNat < 2 ^ 32)
    (initial : ℕ → Vec K d × FluidData K d) :
    Multiset.ofList ((List.range (block.numParticlesToCreate j region).toNat).map fun k =>
        (block.placeParticle j region (UInt32.ofNat k) (initial k)).1) =
      SC.latticeSites region.volume (counts epsilon spacing region.volume) := by
  simp only [h.relativePos, h.numParticles]
  exact SC.map_place (one_le_computeSCCellCounts _ _ _) hprod _ _

variable {S : Species} {regionBegin i : ℕ} {volume : AABB K d}

/-- **What is created in a region is a particle at each site.** -/
theorem initialRegion (h : SpacingBased epsilon spacing block) (hpos : 0 < frameSize)
    (hsize : frameSize < 2 ^ 32) (hi : (block.addRegions S)[i]? = some volume)
    (hprod : ∏ i, (counts epsilon spacing volume i).toNat < 2 ^ 32) :
    (Control.initialRegion frameSize block S regionBegin i volume).particles.map
        (fun particle => particle.relativePos) =
      SC.latticeSites volume (counts epsilon spacing volume) := by
  rw [map_initialRegion hpos hsize hi _ (fun idx =>
    (SC.place volume (counts epsilon spacing volume) idx fun _ => 0).relativePos)
      fun task j slot => h.relativePos ..]
  rw [Block.numParticles, h.numParticles]
  exact SC.map_place (one_le_computeSCCellCounts _ _ _) hprod _ _

end SpacingBased

/-! ## Every simulation that is filled -/

omit [LinearOrder K] [FloorSemiring K] in
/-- The regions of a block among those that a setup fills in. -/
theorem getElem?_initialRegions {blocks : List (FluidBlock K d)} {S : Species} {k i : ℕ}
    {block : FluidBlock K d} {volume : AABB K d} (hk : blocks[k]? = some block)
    (hi : (block.addRegions S)[i]? = some volume) :
    (initialRegions frameSize blocks S)[blockStart (InitParticles.sliceSizes S blocks) k + i]? =
      some (initialRegion frameSize block S (blockStart (InitParticles.sliceSizes S blocks) k) i
        volume) := by
  set lists := blocks.mapIdx fun k block => (block.addRegions S).mapIdx fun i volume =>
    initialRegion frameSize block S (blockStart (InitParticles.sliceSizes S blocks) k) i volume
    with hlists
  have hsizes : lists.map List.length = InitParticles.sliceSizes S blocks := map_length_slices ..
  have hslice : lists[k]? = some ((block.addRegions S).mapIdx fun i volume =>
      initialRegion frameSize block S (blockStart (InitParticles.sliceSizes S blocks) k) i
        volume) := by
    rw [hlists, List.getElem?_mapIdx, hk]
    rfl
  have hregion := getElem?_flatMap_blockStart (f := id) hslice
    (by rw [id, List.getElem?_mapIdx, hi]; rfl)
  rwa [List.flatMap_id, show (lists.map fun l => (id l).length) = _ from hsizes] at hregion

/-- Lattice initialisation never stacks particles: indices and cells are in bijection, particles are
inside of the box and apart from each other, and what a spacing-based block creates in a region is a
particle at each site. -/
theorem lattice_sites_occupied_once [IsStrictOrderedRing K] {aabb : AABB K d}
    {n : Fin (d + 1) → UInt32} (hextent : ∀ i, aabb.min i < aabb.max i)
    (hn : ∀ i, 1 ≤ (n i).toNat) (hprod : ∏ i, (n i).toNat < 2 ^ 32) (relativePos : Vec K d)
    (epsilon : K) (spacing : AABB K d → K) :
    (numSCLatticeSites n).toNat = ∏ i, (n i).toNat ∧
    Set.BijOn (fun idx => (SC.place aabb n idx relativePos).cells) {idx | idx < numSCLatticeSites n}
      {cell | ∀ i, cell i < n i} ∧
    (∀ idx < numSCLatticeSites n, ∀ i, aabb.min i < (SC.place aabb n idx relativePos).relativePos i ∧
      (SC.place aabb n idx relativePos).relativePos i < aabb.max i) ∧
    (∀ idx < numSCLatticeSites n, ∀ idx' < numSCLatticeSites n, idx ≠ idx' →
      ∃ i, (aabb.max i - aabb.min i) / ((n i).toNat : K) ≤
        |(SC.place aabb n idx relativePos).relativePos i -
          (SC.place aabb n idx' relativePos).relativePos i|) ∧
    (SC.latticeSites aabb n).Nodup ∧
    (∀ block, SpacingBased epsilon spacing block → ∀ j (region : StoredRegion K d)
      (initial : ℕ → Vec K d × FluidData K d),
      ∏ i, (computeSCCellCounts epsilon region.volume (spacing region.volume) i).toNat < 2 ^ 32 →
        Multiset.ofList ((List.range (block.numParticlesToCreate j region).toNat).map fun k =>
            (block.placeParticle j region (UInt32.ofNat k) (initial k)).1) =
          SC.latticeSites region.volume
            (computeSCCellCounts epsilon region.volume (spacing region.volume))) ∧
    ∀ {frameSize : ℕ} {setup : FluidSetup K d} {w w' : SimulationState K d frameSize}
      {ids : List UInt64}, 0 < frameSize → frameSize < 2 ^ 32 → Fillable frameSize setup →
      (∀ S, setup.targeting S = [] → w.buffers S = none) → w.FillSimulation setup ids w' →
      ∀ S k block i volume, (setup.targeting S)[k]? = some block → SpacingBased epsilon spacing block →
        (block.addRegions S)[i]? = some volume →
        ∏ i, (computeSCCellCounts epsilon volume (spacing volume) i).toNat < 2 ^ 32 →
        ∃ regions region, w'.reference S = some regions ∧
          regions[blockStart (InitParticles.sliceSizes S (setup.targeting S)) k + i]? = some region ∧
          region.volume = volume ∧ region.particles.map (fun particle => particle.relativePos) =
            SC.latticeSites volume (computeSCCellCounts epsilon volume (spacing volume)) := by
  have hbij := SC.bijOn_cells hn hprod aabb relativePos
  refine ⟨toNat_numSCLatticeSites hn hprod, hbij, fun idx hidx i => ?_,
    fun idx hidx idx' hidx' hne => ?_, SC.nodup_latticeSites hextent hn,
    fun block hblock j region initial hsites => hblock.map_placeParticle j region hsites initial, ?_⟩
  · rw [SC.relativePos_place]
    exact SC.site_mem hextent (fun i => UInt32.lt_iff_toNat_lt.mp (hbij.mapsTo hidx i)) i
  · rw [SC.relativePos_place, SC.relativePos_place]
    refine SC.exists_site_apart hextent fun heq => hne (hbij.injOn hidx hidx' (funext fun i => ?_))
    exact UInt32.toNat_inj.mp (congrFun heq i)
  · intro frameSize setup w w' ids hpos hsize hfill hshared hrun S k block i volume hk hblock hi hsites
    obtain ⟨-, -, hreference, -⟩ := hrun.spec hpos hsize hfill hshared
    have hS : setup.targeting S ≠ [] := fun hnil => by
      rw [hnil] at hk
      cases hk
    refine ⟨_, _, ?_, getElem?_initialRegions hk hi, rfl,
      hblock.initialRegion hpos hsize hi hsites⟩
    rw [hreference, initialReference, if_neg hS]

/-- A shock tube on two axes, with a spacing of one half to the left and of one to the right. -/
def tubeArgs : SpacingArgs ℚ where
  densityLeft := 1
  pressureLeft := 1
  densityRight := 1 / 8
  pressureRight := 1 / 10
  epsilon := 1 / 2 ^ 23
  h0 := 1
  gamma_eos := 7 / 5
  dxLeft := 1 / 2
  dxRight := 1
  pmass := 1 / 2

/-- The left half of the tube. -/
def tubeBox : AABB ℚ 1 := SpacingArgs.leftFluidVol 1

theorem computeSCCellCounts_tube :
    computeSCCellCounts tubeArgs.epsilon tubeBox (tubeArgs.spacing tubeBox) = fun _ => 2 :=
  funext (by decide +kernel)

theorem numParticles_tube :
    (tubeArgs.interiorBlock (d := 1) 1).numParticles 0 tubeBox = 4 ∧
      (tubeArgs.interiorBlock (d := 1) 1).numParticles 1 (SpacingArgs.rightFluidVol 1) = 1 := by
  decide +kernel

theorem fillable_tube : Fillable 2 [tubeArgs.interiorBlock (d := 1) 1] where
  deterministic := List.forall_mem_singleton.mpr (deterministic_spacingBlock _ _ _)
  regions := fun S => match S with
    | .Default => show 2 < 2 ^ 31 by norm_num
    | .Boundary => show 0 < 2 ^ 31 by norm_num
    | .Tracer => show 0 < 2 ^ 31 by norm_num
  frames := fun S => match S with
    | .Default => by
      show (tubeArgs.interiorBlock (d := 1) 1).numParticles 0 tubeBox ⌈/⌉ 2 +
        ((tubeArgs.interiorBlock (d := 1) 1).numParticles 1 (SpacingArgs.rightFluidVol 1) ⌈/⌉ 2 + 0) +
          0 < 2 ^ 31
      rw [numParticles_tube.1, numParticles_tube.2]
      decide
    | .Boundary => show 0 < 2 ^ 31 by norm_num
    | .Tracer => show 0 < 2 ^ 31 by norm_num

/-- The left half of the tube is filled, one particle in each cell. -/
theorem lattice_sites_occupied_once_tube :
    (SC.latticeSites tubeBox fun _ => 2).Nodup ∧
    ∃ (w : SimulationState ℚ 1 2) (regions : List (ReferenceRegion ℚ 1)) (region : ReferenceRegion ℚ 1),
      w.reference .Default = some regions ∧ regions[0]? = some region ∧
        region.particles.map (fun particle => particle.relativePos) =
          SC.latticeSites tubeBox fun _ => 2 := by
  have hextent : ∀ i, tubeBox.min i < tubeBox.max i := by decide +kernel
  have hsites := lattice_sites_occupied_once (n := fun _ => 2) hextent (by decide) (by decide)
    (fun _ => 0) tubeArgs.epsilon tubeArgs.spacing
  refine ⟨hsites.2.2.2.2.1, ?_⟩
  let w₀ : SimulationState ℚ 1 2 :=
    ⟨fun _ => none, fun _ => ⟨⟨fun _ => ⟨fun _ => 0, 0, ⟨0, fun _ => 0⟩⟩, 0⟩, none⟩, ∅, 0, fun _ => {}⟩
  have hshared : ∀ S, Setup.targeting [tubeArgs.interiorBlock (d := 1) 1] S = [] →
      w₀.buffers S = none := fun _ _ => rfl
  obtain ⟨ids, w, hw⟩ :=
    SimulationState.exists_fillSimulation (by norm_num) (by norm_num) fillable_tube hshared
  obtain ⟨regions, region, hregions, hregion, -, hparticles⟩ :=
    hsites.2.2.2.2.2.2 (by norm_num) (by norm_num) fillable_tube hshared hw .Default 0 _ 0 _ rfl
      (spacingBased_spacingBlock _ _ _) rfl (by decide +kernel)
  refine ⟨w, regions, region, hregions, hregion, hparticles.trans ?_⟩
  exact congrArg (SC.latticeSites tubeBox) computeSCCellCounts_tube

end Control
end Spearhed
