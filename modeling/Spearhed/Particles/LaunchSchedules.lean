import Mathlib.Tactic
import Spearhed.Library.IndexMap
import Spearhed.Library.Literals
import Spearhed.Particles.CopyParticlesToDynSoA
import Spearhed.Particles.FrameIndexRuns
import Spearhed.Particles.HierarchyForEach
import Spearhed.Particles.LaunchForEach

/-!
# Launch schedules

`launchForEach` with any decomposition: `FrameDispatch.hpp` decides how many blocks are launched,
`FrameSchedule.hpp` which frames of a prebuilt index a block processes, and the workers of the block
share out the slots of each.  How alpaka's index maps share out a range is not in this repository, so
the maps are parameters, of which only is known that they do.

* `launchForEach_perm`: whatever the decomposition, the body is called once for every live slot of
  every frame of the index.
* `launch_schedules_exact`: the four ways to enumerate particles agree.
-/

namespace Spearhed
namespace Particles

open Library Library.Literals

variable {K : Type} {d : ℕ} {A : Type} {frameSize : ℕ}

/-- The index maps of alpaka: over the blocks of a grid with two layouts, and over the workers of a
block. -/
structure AlpakaMaps where
  blocksStrided : IndexMap
  blocksContiguous : IndexMap
  threadsStrided : IndexMap

/-! ## Grids and schedules -/

/-- `OneBlockPerFrame` and `FixedGrid`. -/
inductive GridPolicy
  | oneBlockPerFrame
  | fixedGrid (T_NumBlocks : UInt32)

/-- `numBlocks`. -/
def GridPolicy.numBlocks (totalFrames : UInt32) : GridPolicy → UInt32
  | oneBlockPerFrame => totalFrames
  | fixedGrid T_NumBlocks => if T_NumBlocks < totalFrames then T_NumBlocks else totalFrames

/-- `OneToOne`, `GridStride` and `Contiguous`. -/
inductive Schedule
  | oneToOne
  | gridStride
  | contiguous

/-- The frames a block processes under a schedule. -/
def Schedule.frames (maps : AlpakaMaps) (total gridDim blockIdx : ℕ) : Schedule → List (Fin total)
  | oneToOne => if h : blockIdx < total then [⟨blockIdx, h⟩] else []
  | gridStride => maps.blocksStrided.indices total gridDim blockIdx
  | contiguous => maps.blocksContiguous.indices total gridDim blockIdx

/-- `ForEachConfig`. -/
structure ForEachConfig where
  schedule : Schedule
  grid : GridPolicy
  processThreads : ℕ

/-- The configurations that the documentation allows: some blocks, some workers, and `OneToOne` only
with one block for every frame. -/
structure ForEachConfig.Valid (cfg : ForEachConfig) : Prop where
  oneToOne : cfg.schedule = .oneToOne → cfg.grid = .oneBlockPerFrame
  fixedGrid : ∀ n, cfg.grid = .fixedGrid n → 1 ≤ n
  processThreads : 0 < cfg.processThreads

/-- `forEachBlockFrame`: the frames the body is called with. -/
def forEachBlockFrame (maps : AlpakaMaps) (framePtrs : ℕ → FramePtr) (totalFrames : ℤ)
    (schedule : Schedule) (gridDim blockIdx : ℕ) : List FramePtr :=
  if totalFrames ≤ 0 then []
  else (schedule.frames maps totalFrames.toNat gridDim blockIdx).map fun g => framePtrs g.val

/-- `lockstepForEachParticle`: the slots a worker calls the body with. -/
def lockstepForEachParticle (maps : AlpakaMaps) (H : LinkedHeap K d A frameSize)
    (numWorkers workerIdx : ℕ) (p : FramePtr) : List (FramePtr × Fin frameSize) :=
  ((maps.threadsStrided.indices frameSize numWorkers workerIdx).filter fun slot =>
    ((H p).particlesSoa slot).occupied).map fun slot => (p, slot)

/-- `HierarchyForEachKernel` at the particle level, in one worker of one block. -/
def particleCalls (maps : AlpakaMaps) (cfg : ForEachConfig) (H : LinkedHeap K d A frameSize)
    (framePtrs : ℕ → FramePtr) (totalFrames : UInt32) (gridDim blockIdx workerIdx : ℕ) :
    List (FramePtr × Fin frameSize) :=
  (forEachBlockFrame maps framePtrs (toInt totalFrames) cfg.schedule gridDim blockIdx).flatMap
    (lockstepForEachParticle maps H cfg.processThreads workerIdx)

/-- `launchForEach`: the calls of all workers of all blocks.  Nothing is launched for no frames. -/
def launchForEach (maps : AlpakaMaps) (cfg : ForEachConfig) (H : LinkedHeap K d A frameSize)
    (idx : FrameIndexBuffer) : Option (List (FramePtr × Fin frameSize)) :=
  if idx.totalFrames = 0 then some []
  else idx.framePtrs.map fun framePtrs =>
    let gridSize := (toInt (cfg.grid.numBlocks idx.totalFrames)).toNat
    (List.range gridSize).flatMap fun blockIdx =>
      (List.range cfg.processThreads).flatMap fun workerIdx =>
        particleCalls maps cfg H framePtrs idx.totalFrames gridSize blockIdx workerIdx

/-! ## Every frame has one block, and every slot one worker -/

/-- A grid with frames has blocks, and not more of them. -/
theorem GridPolicy.numBlocks_spec {grid : GridPolicy} {totalFrames : UInt32}
    (hgrid : ∀ n, grid = .fixedGrid n → 1 ≤ n) (hpos : 0 < totalFrames.toNat) :
    0 < (grid.numBlocks totalFrames).toNat ∧
      (grid.numBlocks totalFrames).toNat ≤ totalFrames.toNat := by
  cases grid with
  | oneBlockPerFrame => exact ⟨hpos, le_rfl⟩
  | fixedGrid n =>
    have hn : 1 ≤ n.toNat := UInt32.le_iff_toNat_le.mp (hgrid n rfl)
    rw [GridPolicy.numBlocks]
    split
    · next hlt =>
      rw [UInt32.lt_iff_toNat_lt] at hlt
      exact ⟨hn, hlt.le⟩
    · exact ⟨hpos, le_rfl⟩

/-- Under a valid configuration, the blocks of a grid process every frame once. -/
theorem Schedule.frames_perm (maps : AlpakaMaps) {cfg : ForEachConfig} {total gridDim : ℕ}
    (hgrid : cfg.schedule = .oneToOne → gridDim = total) (hpos : 0 < gridDim) {β : Type}
    (f : Fin total → List β) :
    ((List.range gridDim).flatMap fun b => (cfg.schedule.frames maps total gridDim b).flatMap f).Perm
      ((List.finRange total).flatMap f) := by
  cases hschedule : cfg.schedule with
  | oneToOne =>
    obtain rfl := hgrid hschedule
    refine List.Perm.of_eq ?_
    rw [← List.map_coe_finRange_eq_range, List.flatMap_map]
    refine List.flatMap_congr fun b _ => ?_
    rw [Schedule.frames, dif_pos b.isLt]
    exact List.flatMap_singleton f b
  | gridStride => exact maps.blocksStrided.flatMap_indices_perm hpos f
  | contiguous => exact maps.blocksContiguous.flatMap_indices_perm hpos f

/-- The workers of a block share out the live slots of a frame. -/
theorem lockstepForEachParticle_perm (maps : AlpakaMaps) (H : LinkedHeap K d A frameSize)
    {numWorkers : ℕ} (hworkers : 0 < numWorkers) (p : FramePtr) :
    ((List.range numWorkers).flatMap fun w => lockstepForEachParticle maps H numWorkers w p).Perm
      (liveOf H p) := by
  have hshare := maps.threadsStrided.partition frameSize numWorkers hworkers
  have hlive := (hshare.filter fun slot => ((H p).particlesSoa slot).occupied).map
    fun slot => (p, slot)
  rw [List.filter_flatMap, List.map_flatMap] at hlive
  exact hlive

/-- **Every live slot of every frame of an index is visited once**, whatever the decomposition. -/
theorem launchForEach_perm (maps : AlpakaMaps) {cfg : ForEachConfig} (hcfg : cfg.Valid)
    (H : LinkedHeap K d A frameSize) {idx : FrameIndexBuffer} {ptrs : ℕ → FramePtr}
    (hptrs : idx.framePtrs = some ptrs) (hfit : idx.totalFrames.toNat < 2 ^ 31) :
    ∃ calls, launchForEach maps cfg H idx = some calls ∧
      calls.Perm (((List.range idx.totalFrames.toNat).map ptrs).flatMap (liveOf H)) := by
  by_cases hzero : idx.totalFrames = 0
  · refine ⟨[], if_pos hzero, ?_⟩
    rw [hzero]
    exact List.Perm.nil
  · have hpos : 0 < idx.totalFrames.toNat :=
      Nat.pos_of_ne_zero fun h => hzero (UInt32.toNat_inj.mp h)
    obtain ⟨hblocks, hle⟩ := GridPolicy.numBlocks_spec hcfg.fixedGrid hpos
    have hgridSize : (toInt (cfg.grid.numBlocks idx.totalFrames)).toNat =
        (cfg.grid.numBlocks idx.totalFrames).toNat := by
      rw [toInt_of_lt (hle.trans_lt hfit), Int.toNat_natCast]
    have hone : cfg.schedule = .oneToOne →
        (cfg.grid.numBlocks idx.totalFrames).toNat = idx.totalFrames.toNat := fun h => by
      rw [hcfg.oneToOne h, GridPolicy.numBlocks]
    refine ⟨_, by rw [launchForEach, if_neg hzero, hptrs, Option.map_some], ?_⟩
    dsimp only
    rw [hgridSize]
    generalize (cfg.grid.numBlocks idx.totalFrames).toNat = gridDim at hblocks hone
    -- what the workers of one block do, frame by frame
    have hblock : ∀ b, ((List.range cfg.processThreads).flatMap fun w =>
        particleCalls maps cfg H ptrs idx.totalFrames gridDim b w).Perm
        ((cfg.schedule.frames maps idx.totalFrames.toNat gridDim b).flatMap fun g =>
          liveOf H (ptrs g.val)) := by
      intro b
      have hcalls : ∀ w, particleCalls maps cfg H ptrs idx.totalFrames gridDim b w =
          (cfg.schedule.frames maps idx.totalFrames.toNat gridDim b).flatMap fun g =>
            lockstepForEachParticle maps H cfg.processThreads w (ptrs g.val) := fun w => by
        rw [particleCalls, forEachBlockFrame, toInt_of_lt hfit, if_neg (by omega), Int.toNat_natCast,
          List.flatMap_map]
      simp only [hcalls]
      refine (flatMap_flatMap_perm _ _ _).trans (List.Perm.flatMap_left _ fun g _ => ?_)
      exact lockstepForEachParticle_perm maps H hcfg.processThreads (ptrs g.val)
    refine (List.Perm.flatMap_left _ fun b _ => hblock b).trans ?_
    refine (Schedule.frames_perm maps hone hblocks _).trans (List.Perm.of_eq ?_)
    rw [List.flatMap_map, ← List.map_coe_finRange_eq_range, List.flatMap_map]

/-! ## The four enumerations -/

/-- **The host follows a kernel.**  The addresses of the frames are translated to their images; in
every region the host meets the images of the frames that a kernel meets, in the same order and up to
the same null; and it visits the images of the particles. -/
structure HostFollows (H H' : LinkedHeap K d A frameSize) (m : HeapMirror) (species : SpeciesView K d)
    (regions : List (ParticleRegion K d)) (iterations : ℕ) : Prop where
  image : ∀ p ∈ framesOf regions, mapHeapPtr (some p) m.heapOffset = some (m.image p)
  frames : ∀ r < species.numRegions, ∃ frames,
    Walk (AdvancePolicy.deviceAdvance.advance fun p => (H p).next)
        (AdvancePolicy.deviceAdvance.init (species.regionBox r).particleFrameList.list.firstNode)
        frames ∧
      Walk ((AdvancePolicy.hostAdvance m.heapOffset).advance fun p => (H' p).next)
        ((AdvancePolicy.hostAdvance m.heapOffset).init
          (species.regionBox r).particleFrameList.list.firstNode) (frames.map m.image) ∧
      ∀ fuel ≥ iterations,
        HeapAccess.deviceHeap.frames H fuel (species.regionBox r).particleFrameList = some frames ∧
          (HeapAccess.hostHeap m.heapOffset).frames H' fuel
            (species.regionBox r).particleFrameList = some (frames.map m.image)
  particles : ∀ fuel ≥ iterations,
    forEach .particle (.hostHeap m.heapOffset) H' fuel (.species species) =
      some ((liveParticles H regions).map fun x => .particle (m.image x.1) x.2)

theorem Spells.hostFollows {H H' : LinkedHeap K d A frameSize} {species : SpeciesView K d}
    {regions : List (ParticleRegion K d)} (h : Spells H species regions) {m : HeapMirror}
    (hinside : ∀ p ∈ framesOf regions, m.Inside p) (hcopy : CopiedTo H H' m) {iterations : ℕ}
    (hlong : ∀ region ∈ regions, region.particleFrameList.length ≤ iterations) :
    HostFollows H H' m species regions iterations where
  image := fun p hp => HeapMirror.mapHeapPtr_some (hinside p hp)
  frames := fun r hr => by
    rw [h.numRegions] at hr
    have hget : regions[r]? = some regions[r] := List.getElem?_eq_getElem hr
    have hmem : regions[r] ∈ regions := List.getElem_mem hr
    have hinside' : ∀ p ∈ regions[r].particleFrameList, m.Inside p := fun p hp =>
      hinside p (List.mem_flatMap.mpr ⟨_, hmem, hp⟩)
    refine ⟨regions[r].particleFrameList, h.walk r _ hget, ?_, fun fuel hfuel => ⟨?_, ?_⟩⟩
    · exact HeapMirror.walk_hostAdvance (h.walk r _ hget) hinside' fun p hp =>
        congrArg LinkedFrame.next (hcopy p hp)
    · exact h.frames_device hget ((hlong _ hmem).trans hfuel)
    · exact h.frames_host hget ((hlong _ hmem).trans hfuel) hinside' hcopy
  particles := fun fuel hfuel =>
    h.forEach_host (fun region hmem => (hlong region hmem).trans hfuel) hinside hcopy

/-- **Every launch schedule visits each live particle exactly once.**  For every index that is fresh
for a buffer in some run, every valid configuration and all index maps that share out ranges: the
calls of the launch are the flattened hierarchy, each particle once where no frame is in two lists,
and the same particles that the sequential `forEach` of a kernel visits.  The host follows in any copy
of the heap. -/
theorem launch_schedules_exact (maps : AlpakaMaps) {cfg : ForEachConfig} (hcfg : cfg.Valid)
    {w : World K d} (hreach : World.system.Reachable w) (hidle : w.running = none) {b : BufferId}
    (hfresh : w.index.isFresh b (w.buffers b).topologyVersion = true)
    {H : LinkedHeap K d A frameSize} {species : SpeciesView K d}
    (hspecies : Spells H species (w.buffers b).device) :
    ∃ calls iterations, launchForEach maps cfg H w.index = some calls ∧
      calls.Perm (liveParticles H (w.buffers b).device) ∧
      ((framesOf (w.buffers b).device).Nodup → calls.Nodup) ∧
      (∀ fuel ≥ iterations, ∃ visited,
        forEach .particle .deviceHeap H fuel (.species species) = some (visited.map View.ofSlot) ∧
          visited = liveParticles H (w.buffers b).device ∧ ∀ x, x ∈ calls ↔ x ∈ visited) ∧
      ∀ (m : HeapMirror) (H' : LinkedHeap K d A frameSize),
        (∀ p ∈ framesOf (w.buffers b).device, m.Inside p) → CopiedTo H H' m →
          HostFollows H H' m species (w.buffers b).device iterations := by
  obtain ⟨-, hfit, ptrs, regionIdx, framesScan, hdescribes⟩ :=
    (World.inv_of_reachable hreach).fresh hidle b hfresh
  have htotal : w.index.totalFrames.toNat = (frameCounts (w.buffers b).device).sum := by
    rw [hdescribes.totalFrames, UInt32.toNat_ofNat_of_lt' (by rw [UInt32.size]; omega)]
  obtain ⟨calls, hcalls, hperm⟩ :=
    launchForEach_perm maps hcfg H hdescribes.framePtrs (by rw [htotal]; exact hfit)
  rw [htotal, hdescribes.map_range] at hperm
  have hlong : ∀ region ∈ (w.buffers b).device,
      region.particleFrameList.length ≤ (frameCounts (w.buffers b).device).sum := fun region hmem =>
    List.single_le_sum (fun _ _ => Nat.zero_le _) _ (List.mem_map_of_mem hmem)
  refine ⟨calls, (frameCounts (w.buffers b).device).sum, hcalls, hperm, fun hnodup => ?_,
    fun fuel hfuel => ?_, fun m H' hinside hcopy => hspecies.hostFollows hinside hcopy hlong⟩
  · exact hperm.nodup_iff.mpr (nodup_liveParticles H hnodup)
  · exact ⟨_, hspecies.forEach_device fun region hmem => (hlong region hmem).trans hfuel, rfl,
      fun x => hperm.mem_iff⟩

/-! A buffer with one frame at address 5, whose first slot is live, and a grid that is too large. -/

/-- The frame at address 5. -/
def oneFrameHeap : LinkedHeap ℚ 0 Unit 2 := fun p =>
  { particlesSoa := fun slot =>
      { relativePos := fun _ => 0
        multiMask := if p = 5 ∧ slot = 0 then 1 else 0
        attributes := () }
    liveParticles := 1
    next := none }

/-- The species that is stored in buffer 3 at the end of `oneFrameRun`. -/
def oneFrameSpecies : SpeciesView ℚ 0 where
  regionBox := fun _ => ⟨AABB.fresh ⟨100, -100⟩, ⟨⟨some 5, some 5⟩, 1⟩⟩
  numRegions := 1

/-- The index maps as alpaka describes them. -/
def documentedMaps : AlpakaMaps := ⟨.strided, .contiguous, .strided⟩

/-- Contiguous ranges for at most seven blocks of 32 workers. -/
def sevenBlocks : ForEachConfig := ⟨.contiguous, .fixedGrid 7, 32⟩

theorem sevenBlocks_valid : sevenBlocks.Valid where
  oneToOne := nofun
  fixedGrid := fun n hn => by
    obtain rfl : 7 = n := GridPolicy.fixedGrid.inj hn
    decide
  processThreads := by decide

/-- The device heap is at addresses 4 to 13 and its copy at 100 to 109. -/
def shiftedMirror : HeapMirror := ⟨4, 100, 10, by decide, by decide⟩

/-- The launch calls the body for the live slot, and the host visits it at address 101. -/
theorem launch_schedules_exact_oneFrameRun :
    ∃ w, emptyWorld.run oneFrameRun = some w ∧
      launchForEach documentedMaps sevenBlocks oneFrameHeap w.index = some [(5, 0)] ∧
      ∃ fuel, forEach .particle (.hostHeap (-96)) (fun q => oneFrameHeap (q - 96)) fuel
        (.species oneFrameSpecies) = some [.particle 101 0] := by
  have hend : (emptyWorld.run oneFrameRun).any (fun w => w.running.isNone &&
      w.index.isFresh 3 (w.buffers 3).topologyVersion &&
      (w.buffers 3).device.map ParticleRegion.particleFrameList == [[5]]) = true := by
    decide
  cases hw : emptyWorld.run oneFrameRun with
  | none => rw [hw] at hend; cases hend
  | some w =>
    rw [hw, Option.any_some, Bool.and_eq_true, Bool.and_eq_true, beq_iff_eq] at hend
    obtain ⟨⟨hidle, hfresh⟩, hlists⟩ := hend
    have hframes : framesOf (w.buffers 3).device = [5] := by
      rw [framesOf, List.flatMap_def, hlists]
      rfl
    have hspecies : Spells oneFrameHeap oneFrameSpecies (w.buffers 3).device := by
      have hlength := congrArg List.length hlists
      rw [List.length_map] at hlength
      refine ⟨hlength.symm, fun r region hr => ?_⟩
      have hmem := List.mem_map_of_mem (f := ParticleRegion.particleFrameList)
        (List.mem_of_getElem? hr)
      rw [hlists, List.mem_singleton] at hmem
      rw [hmem]
      exact ⟨rfl, rfl⟩
    have hlive : liveParticles oneFrameHeap (w.buffers 3).device = [(5, 0)] := by
      rw [liveParticles, hframes]
      decide
    obtain ⟨calls, iterations, hcalls, hperm, -, -, hhost⟩ :=
      launch_schedules_exact documentedMaps sevenBlocks_valid
        (World.reachable_run (.init ⟨rfl, rfl⟩) hw) (Option.isNone_iff_eq_none.mp hidle) hfresh
        hspecies
    rw [hlive] at hperm
    refine ⟨w, rfl, by rw [hcalls, List.perm_singleton.mp hperm], iterations, ?_⟩
    have hinside : ∀ p ∈ framesOf (w.buffers 3).device, shiftedMirror.Inside p := fun p hp => by
      rw [hframes, List.mem_singleton] at hp
      subst hp
      exact ⟨by decide, by decide⟩
    have hcopy : CopiedTo oneFrameHeap (fun q => oneFrameHeap (q - 96)) shiftedMirror :=
      fun (p : ℕ) hp => by
        have hlow : 4 ≤ p := hp.1
        have hback : shiftedMirror.image p - 96 = p := by
          show p - 4 + 100 - 96 = p
          omega
        exact congrArg oneFrameHeap hback
    have hparticles := (hhost shiftedMirror _ hinside hcopy).particles iterations le_rfl
    rw [hlive] at hparticles
    exact hparticles

end Particles
end Spearhed
