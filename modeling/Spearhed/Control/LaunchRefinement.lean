import Spearhed.Control.RunOneStep

/-!
# Launches on described buffers

Before it launches anything a time step refreshes the frame indices, and every launch is given a
buffer and its index.

* `rebuild_spec`, `Refresh.described`: after the refresh the indices of the movable species are fresh
  and describe their frames.
* `IsLaunch.lists`, `IsLaunch.onlyLists`: a launch on such an index has a block for every frame.
* `LaunchForEach.reference`: the launches of a stage change the particles of the species that they
  are for.
-/

namespace Spearhed
namespace Control

open Library Particles Sph

variable {K : Type} {d frameSize : ℕ}

/-! ## Indices -/

section Index

variable {regions regions' : List (ParticleRegion K d)} {idx idx' : FrameIndexBuffer}
  {ptrs : ℕ → FramePtr} {regionIdx framesScan : ℕ → UInt32}

/-- An index does not know about boxes. -/
theorem Describes.of_sameLists (h : Describes idx regions ptrs regionIdx framesScan)
    (hlists : regions'.map ParticleRegion.particleFrameList =
      regions.map ParticleRegion.particleFrameList) :
    Describes idx regions' ptrs regionIdx framesScan := by
  have hcounts : frameCounts regions' = frameCounts regions := by
    have hmap := congrArg (List.map List.length) hlists
    rwa [List.map_map, List.map_map] at hmap
  have hlength : regions'.length = regions.length := by
    have hmap := congrArg List.length hlists
    rwa [List.length_map, List.length_map] at hmap
  refine ⟨h.framePtrs, h.regionIdxPerFrame, h.framesPerRegion, ?_, ?_, ?_, fun r hr => ?_,
    fun r i region' frame hr hi => ?_⟩
  · rw [hcounts]
    exact h.totalFrames
  · rw [hcounts]
    exact h.frameCapacity
  · rw [hlength]
    exact h.regionCapacity
  · rw [hcounts]
    exact h.scanned r (hlength ▸ hr)
  · have hget := congrArg (fun l => l[r]?) hlists
    simp only [List.getElem?_map, hr, Option.map_some] at hget
    obtain ⟨region, hregion, hlist⟩ := Option.map_eq_some_iff.mp hget.symm
    rw [hcounts]
    exact h.listed r i region frame hregion (by rw [hlist]; exact hi)

/-- **A rebuild ends with a fresh index that describes the regions.** -/
theorem rebuild_spec {targetVersion : ℕ} {buffer : BufferId} {c : Choices}
    (hfit : (frameCounts regions).sum < 2 ^ 31)
    (h : rebuild regions targetVersion buffer c idx = some idx') :
    idx'.isFresh buffer targetVersion = true ∧
      ∃ ptrs regionIdx framesScan, Describes idx' regions ptrs regionIdx framesScan := by
  obtain ⟨idx₁, hscan, h⟩ := Option.bind_eq_some_iff.mp h
  obtain ⟨idx₂, hfill, h⟩ := Option.bind_eq_some_iff.mp h
  obtain rfl := Option.some.inj h
  obtain ⟨⟨F, hF⟩, hcapacity⟩ :=
    idx.ensureRegionCapacity_spec (max regions.length 1) c.allocated
  obtain ⟨⟨F', hF', hcounted⟩, hsame⟩ := FrameIndexBuffer.count_spec regions hF
  have hdown : (FrameIndexBuffer.deviceToHost ((idx.ensureRegionCapacity (max regions.length 1)
      c.allocated).count regions)).framesPerRegion = some { F' with host := F'.device } := by
    rw [FrameIndexBuffer.deviceToHost, hF']
    rfl
  obtain ⟨⟨⟨F₁, hF₁, hscanned⟩, hroom⟩, hsame₁⟩ :=
    FrameIndexBuffer.scan_spec hdown hcounted hfit hscan
  have hup : idx₁.hostToDevice.framesPerRegion = some { F₁ with device := F₁.host } := by
    rw [FrameIndexBuffer.hostToDevice, hF₁]
    rfl
  have hroom' : idx₁.hostToDevice.HasRoom regions :=
    ⟨hroom.framePtrs, hroom.regionIdxPerFrame, hroom.totalFrames, hroom.frameCapacity⟩
  have hregions : regions.length ≤ idx₁.hostToDevice.regionCapacity := by
    have hkept : idx₁.hostToDevice.regionCapacity =
        (idx.ensureRegionCapacity (max regions.length 1) c.allocated).regionCapacity :=
      hsame₁.regionCapacity.trans hsame.regionCapacity
    rw [hkept]
    exact (le_max_left _ _).trans hcapacity
  obtain ⟨⟨ptrs, regionIdx, framesScan, hdescribes⟩, -⟩ :=
    FrameIndexBuffer.fill_spec hup hscanned hroom' hregions hfit hfill
  refine ⟨FrameIndexBuffer.isFresh_iff.mpr ⟨rfl, rfl, rfl⟩, ptrs, regionIdx, framesScan, ?_⟩
  exact ⟨hdescribes.framePtrs, hdescribes.regionIdxPerFrame, hdescribes.framesPerRegion,
    hdescribes.totalFrames, hdescribes.frameCapacity, hdescribes.regionCapacity,
    hdescribes.scanned, hdescribes.listed⟩

/-- Arrays that are not there yet are allocated as large as they have to be. -/
theorem exists_ensureFrameCapacity {needed : ℕ} (hptrs : idx.framePtrs = none)
    (hcapacity : idx.frameCapacity = 0) (hpos : 0 < needed) (hneeded : needed < 2 ^ 31)
    (allocatedPtrs : ℕ → FramePtr) (allocatedIdx : ℕ → UInt32) :
    ∃ idx', idx.ensureFrameCapacity needed allocatedPtrs allocatedIdx = some idx' := by
  have hgrow : FrameIndexBuffer.grow needed needed needed = needed := by
    cases needed with
    | zero => rfl
    | succ n => rw [FrameIndexBuffer.grow, if_neg (lt_irrefl _)]
  rw [FrameIndexBuffer.ensureFrameCapacity, if_neg (by rw [hptrs]; simp)]
  dsimp only
  rw [hcapacity, if_pos rfl, hgrow, if_pos hneeded]
  exact ⟨_, rfl⟩

/-- **An index that was never built can be built.** -/
theorem exists_rebuild (regions : List (ParticleRegion K d)) (targetVersion : ℕ) (buffer : BufferId)
    (hfit : (frameCounts regions).sum < 2 ^ 31) :
    ∃ c idx', rebuild regions targetVersion buffer c {} = some idx' := by
  let allocated : HostDeviceBuffer UInt32 := ⟨fun _ => 0, fun _ => 0⟩
  let ensured : FrameIndexBuffer :=
    ({} : FrameIndexBuffer).ensureRegionCapacity (max regions.length 1) allocated
  have hensured : ensured.framePtrs = none ∧ ensured.frameCapacity = 0 := by
    show (FrameIndexBuffer.ensureRegionCapacity _ _ _).framePtrs = none ∧ _
    rw [FrameIndexBuffer.ensureRegionCapacity, if_neg (by simp)]
    exact ⟨rfl, rfl⟩
  obtain ⟨F, hF⟩ := (({} : FrameIndexBuffer).ensureRegionCapacity_spec (max regions.length 1)
    allocated).1
  obtain ⟨⟨F', hF', hcounted⟩, -⟩ := FrameIndexBuffer.count_spec regions (show ensured.framesPerRegion = _ from hF)
  have hcount : (ensured.count regions).framePtrs = none ∧
      (ensured.count regions).frameCapacity = 0 := by
    unfold FrameIndexBuffer.count
    split
    · exact hensured
    · exact hensured
  have hdown : (ensured.count regions).deviceToHost.framesPerRegion =
      some { F' with host := F'.device } := by
    show Option.map _ _ = _
    rw [hF']
    rfl
  obtain ⟨idx₁, hscan⟩ : ∃ idx₁, (ensured.count regions).deviceToHost.scan regions.length
      (fun _ => 0) (fun _ => 0) = some idx₁ := by
    rw [FrameIndexBuffer.scan, hdown]
    dsimp only
    have hdata : Counted (if regions.length = 0 then Function.update F'.device 0 0 else F'.device)
        regions := by
      split
      · next hempty => exact fun r hr => absurd hr (by omega)
      · exact hcounted
    refine exists_ensureFrameCapacity ?_ ?_ (lt_max_of_lt_right one_pos) ?_ _ _
    · exact hcount.1
    · exact hcount.2
    rw [hdata.total, UInt32.toNat_ofNat_of_lt' (by rw [UInt32.size]; omega)]
    omega
  have hF₁ := (FrameIndexBuffer.scan_spec hdown hcounted hfit hscan).1.1
  obtain ⟨F₁, hF₁, -⟩ := hF₁
  let writes := fillWrites regions F₁.host
  let c : Choices := ⟨allocated, fun _ => 0, fun _ => 0, writes.map fun w => (w.1, w.2.1),
    writes.map fun w => (w.1, w.2.2)⟩
  obtain ⟨idx₂, hfill⟩ : ∃ idx₂, idx₁.hostToDevice.fill regions c.ptrOrder c.idxOrder = some idx₂ := by
    have hup : idx₁.hostToDevice.framesPerRegion = some { F₁ with device := F₁.host } := by
      rw [FrameIndexBuffer.hostToDevice, hF₁]
      rfl
    unfold FrameIndexBuffer.fill
    split
    · rw [hup]
      dsimp only
      rw [if_pos ⟨List.Perm.refl _, List.Perm.refl _⟩]
      exact ⟨_, rfl⟩
    · exact ⟨_, rfl⟩
  refine ⟨c, idx₂.publish targetVersion buffer, ?_⟩
  exact Option.bind_eq_some_iff.mpr ⟨idx₁, hscan, Option.bind_eq_some_iff.mpr ⟨idx₂, hfill, rfl⟩⟩

end Index

namespace SimulationState

variable {w w' : SimulationState K d frameSize} {S : Species}

/-- The index of a species describes its frames. -/
def Described (w : SimulationState K d frameSize) (S : Species) : Prop :=
  ∃ ptrs regionIdx framesScan,
    Describes (w.frameIndices S) (w.regions S) ptrs regionIdx framesScan

/-- Every index was never built, or is fresh and describes the frames. -/
def Indexed (w : SimulationState K d frameSize) : Prop := ∀ S, w.frameIndices S = {} ∨
  ∃ B, w.buffers S = some B ∧ (w.frameIndices S).isFresh (bufferId S) B.topologyVersion = true ∧
    w.Described S

theorem isFresh_empty (buffer : BufferId) (version : ℕ) :
    ({} : FrameIndexBuffer).isFresh buffer version = false := rfl

/-- **After the refresh the indices of the movable species are fresh.** -/
theorem Refresh.described (h : w.Refresh w') (hwf : w.WellFormed) (hidx : w.Indexed) :
    w'.Indexed ∧ ∀ S, isTimestep S = true → (w.buffers S).isSome = true → w'.Described S := by
  obtain ⟨frameIndices, hrefreshed, rfl⟩ := h
  have hfresh : ∀ S B, w.buffers S = some B → isTimestep S = true →
      (frameIndices S).isFresh (bufferId S) B.topologyVersion = true ∧
        ∃ ptrs regionIdx framesScan,
          Describes (frameIndices S) (w.regions S) ptrs regionIdx framesScan := by
    intro S B hB hS
    have hS' := hrefreshed S
    rw [Refreshed, hB] at hS'
    simp only [if_pos hS, RefreshIfStale] at hS'
    split at hS'
    · next hfresh =>
      rw [hS']
      rcases hidx S with hnever | ⟨B', hB', hfresh', hdescribed⟩
      · rw [hnever, isFresh_empty] at hfresh
        exact absurd hfresh Bool.false_ne_true
      · exact ⟨hfresh, hdescribed⟩
    · obtain ⟨c, hc⟩ := hS'
      exact rebuild_spec (hwf.fits S) hc
  have hkept : ∀ S, ¬ (isTimestep S = true ∧ (w.buffers S).isSome = true) →
      frameIndices S = w.frameIndices S := by
    intro S hS
    have hS' := hrefreshed S
    unfold Refreshed at hS'
    split at hS'
    · exact hS'
    · next B hB => rwa [if_neg fun h => hS ⟨h, by rw [hB]; rfl⟩] at hS'
  refine ⟨fun S => ?_, fun S hS hsome => ?_⟩
  · by_cases hS : isTimestep S = true ∧ (w.buffers S).isSome = true
    · obtain ⟨B, hB⟩ := Option.isSome_iff_exists.mp hS.2
      obtain ⟨hf, hdescribed⟩ := hfresh S B hB hS.1
      exact Or.inr ⟨B, hB, hf, hdescribed⟩
    · show frameIndices S = {} ∨ ∃ B, w.buffers S = some B ∧
        (frameIndices S).isFresh (bufferId S) B.topologyVersion = true ∧
          ∃ ptrs regionIdx framesScan,
            Describes (frameIndices S) (w.regions S) ptrs regionIdx framesScan
      rw [hkept S hS]
      exact hidx S
  · obtain ⟨B, hB⟩ := Option.isSome_iff_exists.mp hsome
    exact (hfresh S B hB hS).2

/-- The refresh can be run. -/
theorem exists_refresh (hwf : w.WellFormed) (hidx : w.Indexed) : ∃ w', w.Refresh w' := by
  have hone : ∀ S, ∃ idx, w.Refreshed S idx := by
    intro S
    unfold Refreshed
    split
    · exact ⟨_, rfl⟩
    · next B hB =>
      unfold RefreshIfStale
      split_ifs with htimestep hfresh
      · exact ⟨_, rfl⟩
      · rcases hidx S with hnever | ⟨B', hB', hfresh', -⟩
        · obtain ⟨c, idx, hc⟩ := exists_rebuild (w.regions S) B.topologyVersion (bufferId S)
            (hwf.fits S)
          exact ⟨idx, c, by rw [hnever]; exact hc⟩
        · -- an index that was built is fresh
          obtain rfl := Option.some.inj (hB.symm.trans hB')
          exact absurd hfresh' hfresh
      · exact ⟨_, rfl⟩
  choose frameIndices hrefreshed using hone
  exact ⟨_, frameIndices, hrefreshed, rfl⟩

/-! ## Launches -/

namespace IsLaunch

variable {launch : FrameLaunch K d}

theorem describes (h : w.IsLaunch S launch) (hd : w.Described S) : ∃ framesScan,
    Describes (w.frameIndices S) (w.regions S) launch.framePtrs launch.regionIdx framesScan := by
  obtain ⟨ptrs, regionIdx, framesScan, hdescribes⟩ := hd
  obtain rfl := Option.some.inj (h.framePtrs.symm.trans hdescribes.framePtrs)
  obtain rfl := Option.some.inj (h.regionIdx.symm.trans hdescribes.regionIdxPerFrame)
  exact ⟨framesScan, hdescribes⟩

theorem store (h : w.IsLaunch S launch) (m : FluidMemory K d frameSize) :
    (w.store m).IsLaunch S launch :=
  ⟨h.targetPR, h.framePtrs, h.regionIdx, h.totalFrames⟩

/-- A launch on a fresh index lists every frame, -/
theorem lists (h : w.IsLaunch S launch) (hd : w.Described S) (hwf : w.WellFormed) :
    launch.Lists (w.regions S) := by
  obtain ⟨framesScan, hdescribes⟩ := h.describes hd
  exact FrameLaunch.lists_of_describes h.targetPR hdescribes h.totalFrames (hwf.fits S)
    (hwf.length_regions_lt S)

/-- and no others. -/
theorem onlyLists (h : w.IsLaunch S launch) (hd : w.Described S) (hwf : w.WellFormed) :
    launch.OnlyLists (w.regions S) := by
  obtain ⟨framesScan, hdescribes⟩ := h.describes hd
  exact FrameLaunch.onlyLists_of_describes hdescribes h.totalFrames (hwf.fits S)

/-- The number of blocks is not negative as an `int`. -/
theorem toInt_totalFrames (h : w.IsLaunch S launch) (hd : w.Described S) (hwf : w.WellFormed) :
    (toInt launch.totalFrames).toNat = launch.totalFrames.toNat := by
  obtain ⟨framesScan, hdescribes⟩ := h.describes hd
  have hfit := hwf.fits S
  rw [h.totalFrames, hdescribes.totalFrames, toInt_ofNat hfit, Int.toNat_natCast,
    UInt32.toNat_ofNat_of_lt' (by rw [UInt32.size]; omega)]

end IsLaunch

/-- **A described buffer can be launched on.** -/
theorem exists_isLaunch (hd : w.Described S) (hwf : w.WellFormed) :
    ∃ launch, w.IsLaunch S launch := by
  obtain ⟨ptrs, regionIdx, framesScan, hdescribes⟩ := hd
  have hfit := hwf.fits S
  have htotal : (w.frameIndices S).totalFrames.toNat = (frameCounts (w.regions S)).sum := by
    rw [hdescribes.totalFrames, UInt32.toNat_ofNat_of_lt' (by rw [UInt32.size]; omega)]
  have hnodup : ((List.range (frameCounts (w.regions S)).sum).map ptrs).Nodup := by
    have hframes : (allFrames (w.regions S)).map Prod.snd =
        (w.regions S).flatMap fun region => region.particleFrameList := by
      rw [allFrames, List.map_flatMap]
      exact List.flatMap_congr fun region _ => by rw [List.map_map]; exact List.map_id _
    rw [hdescribes.map_range, ← hframes]
    exact hwf.nodup_frames S
  refine ⟨⟨w.regions S, ptrs, regionIdx, (w.frameIndices S).totalFrames, fun b hb b' hb' heq => ?_⟩,
    rfl, hdescribes.framePtrs, hdescribes.regionIdxPerFrame, rfl⟩
  rw [htotal] at hb hb'
  exact List.inj_on_of_nodup_map hnodup (List.mem_range.mpr hb) (List.mem_range.mpr hb') heq

section LaunchForEach

variable [Field K] {roles : List Role} {m' : FluidMemory K d frameSize}
  {body : ParticleBody K d (FluidAttribute d) (fun _ => K) frameSize}

omit [Field K] in
/-- Launches on different buffers have no frame in common. -/
theorem apart_of_isLaunch {launch : {S // w.selects roles S = true} → FrameLaunch K d}
    (hlaunch : ∀ S, w.IsLaunch S.1 (launch S)) (hd : ∀ S, w.selects roles S = true → w.Described S)
    (hwf : w.WellFormed) : FrameLaunch.Apart launch := by
  intro S S' hne b hb b' hb' heq
  rw [← (hlaunch S).toInt_totalFrames (hd S S.2) hwf] at hb
  rw [← (hlaunch S').toInt_totalFrames (hd S' S'.2) hwf] at hb'
  obtain ⟨x, hx, hbx⟩ := (hlaunch S).onlyLists (hd S S.2) hwf b hb
  obtain ⟨y, hy, hby⟩ := (hlaunch S').onlyLists (hd S' S'.2) hwf b' hb'
  exact hwf.frame_ne (fun h => hne (Subtype.ext h)) hx hy (hbx.symm.trans (heq.trans hby))

/-- **A launch for some roles changes the particles of the species with these roles.** -/
theorem LaunchForEach.reference {f : FluidParticle K d → FluidParticle K d}
    (hbody : ∀ (m : FluidMemory K d frameSize) frame slot,
      ParticleMemory.particle ((body.run frame slot).exec m).2 frame slot =
        f (ParticleMemory.particle m frame slot))
    (hmask : ∀ p, (f p).multiMask = p.multiMask) (hwf : w.WellFormed)
    (hd : ∀ S, w.selects roles S = true → w.Described S) (h : w.LaunchForEach roles body m') :
    (w.store m').reference =
      w.reference.mapParticles fun S _ p => if S.hasRoles roles = true then f p else p := by
  obtain ⟨launch, hlaunch, results, hruns⟩ := h
  have hresult := launchesResult_of_runs (apart_of_isLaunch hlaunch hd hwf) hruns
  refine reference_store (fun frame slot => ?_) fun S p hp => ?_
  · -- masks stay as they are
    by_cases hlive : ∃ S b, b < (toInt (launch S).totalFrames).toNat ∧
        frame = (launch S).framePtrs b ∧ ParticleMemory.occupied w.memory frame slot = true
    · obtain ⟨S, b, hb, rfl, hocc⟩ := hlive
      have hparticle := (hresult.launched S b hb slot hocc).trans (hbody w.memory _ slot)
      rw [ParticleMemory.occupied_eq, hparticle, ParticleMemory.occupied_eq, Particle.occupied,
        hmask]
      rfl
    · rw [ParticleMemory.occupied_eq, hresult.kept frame slot fun S b hb hframe => ?_]
      · rfl
      · by_contra hocc
        exact hlive ⟨S, b, hb, hframe, by simpa using hocc⟩
  · obtain ⟨hx, hocc⟩ := mem_liveSlots.mp hp
    by_cases hS : S.hasRoles roles = true
    · -- a species with the roles has a launch
      have hsome : (w.buffers S).isSome = true := by
        cases hB : w.buffers S with
        | none =>
          rw [regions, hB] at hx
          cases hx
        | some B => rfl
      have hselected : w.selects roles S = true := selects_iff.mpr ⟨hsome, hS⟩
      obtain ⟨b, r, hregion, hframe, -⟩ :=
        (hlaunch ⟨S, hselected⟩).lists (hd S hselected) hwf p.1 hx
      have hb := FrameLaunch.lt_of_ownRegion (by rw [hregion]; exact Option.some_ne_none _)
      rw [if_pos hS, ← hframe]
      rw [← hframe] at hocc
      exact (hresult.launched ⟨S, hselected⟩ b hb p.2 hocc).trans (hbody w.memory _ p.2)
    · rw [if_neg hS]
      refine hresult.kept p.1.2 p.2 fun S' b hb hframe => ?_
      obtain ⟨y, hy, hby⟩ := (hlaunch S').onlyLists (hd S' S'.2) hwf b hb
      have hne : S ≠ S'.1 := fun h => hS (h ▸ (selects_iff.mp S'.2).2)
      exact absurd (hframe.trans hby) (hwf.frame_ne hne hx hy)

/-- Launches can be run. -/
theorem exists_launchForEach (hwf : w.WellFormed) (roles : List Role)
    (hd : ∀ S, w.selects roles S = true → w.Described S)
    (body : ParticleBody K d (FluidAttribute d) (fun _ => K) frameSize) :
    ∃ m', w.LaunchForEach roles body m' := by
  choose launch hlaunch using fun S : {S // w.selects roles S = true} =>
    exists_isLaunch (hd S S.2) hwf
  obtain ⟨results, m', hruns⟩ := exists_launchTogether (apart_of_isLaunch hlaunch hd hwf)
    (fun _ => body) w.memory
  exact ⟨m', launch, hlaunch, results, hruns⟩

end LaunchForEach

end SimulationState

end Control
end Spearhed
