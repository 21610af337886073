import Mathlib.Tactic
import Spearhed.Library.Lockstep
import Spearhed.Particles.FrameDispatch

/-!
# The frame index

`FrameIndexBuffer` of `FrameIndex.hpp`: a flat array of the frames of all regions, in the order of
the regions and of their lists, with the owning region of every frame.  A rebuild counts the frames
of every region, scans the counts on the host, grows the arrays if they are too small, and fills
them; at the end it records for which buffer and for which version of its topology this was done.

The device arrays are functions of the slot, holding anything where nobody wrote, and growing an
array discards its contents.

* `Describes`: what the arrays of an index say about a list of regions.
* `Describes.slot`, `Describes.exists_unique_slot`: the documented formulas recover, from a slot,
  the position of its frame in its region, and every frame has one slot.
-/

namespace Spearhed
namespace Particles

open Library

variable {K : Type} {d : ℕ}

/-- The identity of a `ParticleRegionBuffer`, its address. -/
abbrev BufferId : Type := ℕ

/-- `HostDeviceBuffer`: both copies of a buffer. -/
structure HostDeviceBuffer (γ : Type) where
  host : ℕ → γ
  device : ℕ → γ

/-- Neither array of frames was allocated. -/
theorem not_allocated :
    (none : Option (ℕ → FramePtr)).isSome = (none : Option (ℕ → UInt32)).isSome := rfl

/-- `FrameIndexBuffer`. -/
structure FrameIndexBuffer where
  framePtrs : Option (ℕ → FramePtr) := none
  regionIdxPerFrame : Option (ℕ → UInt32) := none
  framesPerRegion : Option (HostDeviceBuffer UInt32) := none
  totalFrames : UInt32 := 0
  frameCapacity : ℕ := 0
  regionCapacity : ℕ := 0
  builtVersion : ℕ := 0
  builtBuffer : Option BufferId := none
  hasBuild : Bool := false
  /-- The two arrays of frames are allocated together. -/
  together : framePtrs.isSome = regionIdxPerFrame.isSome := by first | exact not_allocated | rfl

/-- The number of frames of every region. -/
def frameCounts (regions : List (ParticleRegion K d)) : List ℕ :=
  regions.map fun region => region.particleFrameList.length

@[simp] theorem length_frameCounts (regions : List (ParticleRegion K d)) :
    (frameCounts regions).length = regions.length :=
  List.length_map ..

theorem frameCounts_getD {regions : List (ParticleRegion K d)} {r : ℕ}
    {region : ParticleRegion K d} (h : regions[r]? = some region) :
    (frameCounts regions).getD r 0 = region.particleFrameList.length := by
  rw [frameCounts, List.getD_eq_getElem?_getD, List.getElem?_map, h]
  rfl

/-- The frames of all regions, each with its region. -/
def allFrames (regions : List (ParticleRegion K d)) : List (ParticleRegion K d × FramePtr) :=
  regions.flatMap fun region => region.particleFrameList.map fun frame => (region, frame)

/-! ## The stages of a rebuild -/

namespace FrameIndexBuffer

/-- `ensureRegionCapacity`: a new buffer, with any contents, when the old one is too small. -/
def ensureRegionCapacity (idx : FrameIndexBuffer) (needed : ℕ)
    (allocated : HostDeviceBuffer UInt32) : FrameIndexBuffer :=
  if idx.framesPerRegion.isSome ∧ needed ≤ idx.regionCapacity then idx
  else { idx with regionCapacity := needed, framesPerRegion := some allocated }

/-- `while(newCapacity < needed) newCapacity *= 2u`. -/
def grow (needed : ℕ) : ℕ → ℕ → ℕ
  | 0, newCapacity => newCapacity
  | fuel + 1, newCapacity =>
    if newCapacity < needed then grow needed fuel (newCapacity * 2) else newCapacity

/-- `ensureFrameCapacity`.  The size of an allocation is an `int`, so a capacity of `2 ^ 31` or more
ends the program. -/
def ensureFrameCapacity (idx : FrameIndexBuffer) (needed : ℕ) (allocatedPtrs : ℕ → FramePtr)
    (allocatedIdx : ℕ → UInt32) : Option FrameIndexBuffer :=
  if idx.framePtrs.isSome ∧ needed ≤ idx.frameCapacity then some idx
  else
    let newCapacity := grow needed needed (if idx.frameCapacity = 0 then needed else idx.frameCapacity)
    if newCapacity < 2 ^ 31 then
      some { idx with
        frameCapacity := newCapacity
        framePtrs := some allocatedPtrs
        regionIdxPerFrame := some allocatedIdx
        together := rfl }
    else none

/-- The count kernel, launched when there are regions. -/
def count (idx : FrameIndexBuffer) (regions : List (ParticleRegion K d)) : FrameIndexBuffer :=
  if regions.length > 0 then
    { idx with
      framesPerRegion := idx.framesPerRegion.map fun F =>
        { F with device := countFramesKernel regions F.device } }
  else idx

/-- `framesPerRegion->deviceToHost()`. -/
def deviceToHost (idx : FrameIndexBuffer) : FrameIndexBuffer :=
  { idx with framesPerRegion := idx.framesPerRegion.map fun F => { F with host := F.device } }

/-- `framesPerRegion->hostToDevice()`. -/
def hostToDevice (idx : FrameIndexBuffer) : FrameIndexBuffer :=
  { idx with framesPerRegion := idx.framesPerRegion.map fun F => { F with device := F.host } }

/-- The scan on the host, and room for the frames it counts. -/
def scan (idx : FrameIndexBuffer) (numRegions : ℕ) (allocatedPtrs : ℕ → FramePtr)
    (allocatedIdx : ℕ → UInt32) : Option FrameIndexBuffer :=
  match idx.framesPerRegion with
  | none => none
  | some F =>
    let data := if numRegions = 0 then Function.update F.host 0 0 else F.host
    let scanned := inclusiveScanHost data numRegions
    let idx' := { idx with
      framesPerRegion := some { F with host := scanned.1 }, totalFrames := scanned.2 }
    idx'.ensureFrameCapacity (max scanned.2.toNat 1) allocatedPtrs allocatedIdx

end FrameIndexBuffer

/-- `offset` of `BuildFrameIndexKernel`: the exclusive prefix sum. -/
def frameOffset (framesScan : ℕ → UInt32) (blockIdx : ℕ) : UInt32 :=
  if blockIdx = 0 then 0 else framesScan (blockIdx - 1)

/-- The writes of `BuildFrameIndexKernel`, each a slot, a frame and its region.  Block `b` walks the
list of region `b`. -/
def fillWrites (regions : List (ParticleRegion K d)) (framesScan : ℕ → UInt32) :
    List (ℕ × FramePtr × UInt32) :=
  regions.zipIdx.flatMap fun rb => rb.1.particleFrameList.zipIdx.map fun fi =>
    ((frameOffset framesScan rb.2 + UInt32.ofNat fi.2).toNat, fi.1, UInt32.ofNat rb.2)

namespace FrameIndexBuffer

/-- The fill kernel, launched when there are frames.  The writes to the two arrays take effect in
any order: `ptrOrder` and `idxOrder` are the orders. -/
def fill (idx : FrameIndexBuffer) (regions : List (ParticleRegion K d))
    (ptrOrder : List (ℕ × FramePtr)) (idxOrder : List (ℕ × UInt32)) : Option FrameIndexBuffer :=
  if regions.length > 0 ∧ idx.totalFrames > 0 then
    match idx.framesPerRegion with
    | none => none
    | some F =>
      let writes := fillWrites regions F.device
      if ptrOrder.Perm (writes.map fun w => (w.1, w.2.1)) ∧
          idxOrder.Perm (writes.map fun w => (w.1, w.2.2)) then
        some { idx with
          framePtrs := idx.framePtrs.map (scatter ptrOrder)
          regionIdxPerFrame := idx.regionIdxPerFrame.map (scatter idxOrder)
          together := by rw [Option.isSome_map, Option.isSome_map, idx.together] }
      else none
  else some idx

/-- What the last sender of a rebuild records. -/
def publish (idx : FrameIndexBuffer) (targetVersion : ℕ) (buffer : BufferId) : FrameIndexBuffer :=
  { idx with builtVersion := targetVersion, builtBuffer := some buffer, hasBuild := true }

/-- The freshness check, against a buffer and its topology version. -/
def isFresh (idx : FrameIndexBuffer) (buffer : BufferId) (topologyVersion : ℕ) : Bool :=
  idx.hasBuild && idx.builtBuffer == some buffer && idx.builtVersion == topologyVersion

theorem isFresh_iff {idx : FrameIndexBuffer} {buffer : BufferId} {topologyVersion : ℕ} :
    idx.isFresh buffer topologyVersion = true ↔
      idx.hasBuild = true ∧ idx.builtBuffer = some buffer ∧ idx.builtVersion = topologyVersion := by
  rw [isFresh, Bool.and_eq_true, Bool.and_eq_true, beq_iff_eq, beq_iff_eq, and_assoc]

end FrameIndexBuffer

/-! ## What the arrays say -/

/-- Entries that hold the frame counts. -/
def Counted (data : ℕ → UInt32) (regions : List (ParticleRegion K d)) : Prop :=
  ∀ r < regions.length, data r = UInt32.ofNat ((frameCounts regions).getD r 0)

/-- Entries that hold the inclusive scan of the frame counts. -/
def Scanned (data : ℕ → UInt32) (regions : List (ParticleRegion K d)) : Prop :=
  ∀ r < regions.length, data r = UInt32.ofNat (blockStart (frameCounts regions) (r + 1))

/-- Every frame and its region are in the frame's slot. -/
def Listed (ptrs : ℕ → FramePtr) (regionIdx : ℕ → UInt32) (regions : List (ParticleRegion K d)) :
    Prop :=
  ∀ (r i : ℕ) (region : ParticleRegion K d) (frame : FramePtr), regions[r]? = some region →
    region.particleFrameList[i]? = some frame →
    ptrs (blockStart (frameCounts regions) r + i) = frame ∧
      regionIdx (blockStart (frameCounts regions) r + i) = UInt32.ofNat r

/-- **The index describes the regions.** -/
structure Describes (idx : FrameIndexBuffer) (regions : List (ParticleRegion K d))
    (ptrs : ℕ → FramePtr) (regionIdx framesScan : ℕ → UInt32) : Prop where
  framePtrs : idx.framePtrs = some ptrs
  regionIdxPerFrame : idx.regionIdxPerFrame = some regionIdx
  framesPerRegion : ∃ F, idx.framesPerRegion = some F ∧ F.device = framesScan
  totalFrames : idx.totalFrames = UInt32.ofNat (frameCounts regions).sum
  /-- The arrays have room for what is in them. -/
  frameCapacity : (frameCounts regions).sum ≤ idx.frameCapacity
  regionCapacity : regions.length ≤ idx.regionCapacity
  scanned : Scanned framesScan regions
  listed : Listed ptrs regionIdx regions

/-- The arrays are there, the total is known, and there is room for it. -/
structure FrameIndexBuffer.HasRoom (idx : FrameIndexBuffer) (regions : List (ParticleRegion K d)) :
    Prop where
  framePtrs : ∃ ptrs, idx.framePtrs = some ptrs
  regionIdxPerFrame : ∃ regionIdx, idx.regionIdxPerFrame = some regionIdx
  totalFrames : idx.totalFrames = UInt32.ofNat (frameCounts regions).sum
  frameCapacity : (frameCounts regions).sum ≤ idx.frameCapacity

theorem countFramesKernel_counted (regions : List (ParticleRegion K d)) (data : ℕ → UInt32) :
    Counted (countFramesKernel regions data) regions := by
  intro r hr
  have h : regions[r]? = some regions[r] := List.getElem?_eq_getElem hr
  rw [frameCounts_getD h, countFramesKernel, h]

theorem Counted.scanned {data : ℕ → UInt32} {regions : List (ParticleRegion K d)}
    (h : Counted data regions) :
    Scanned (inclusiveScanHost data regions.length).1 regions := by
  intro r hr
  rw [← length_frameCounts] at hr ⊢
  exact inclusiveScanHost_ofNat (fun i hi => h i (length_frameCounts regions ▸ hi)) hr

theorem Counted.total {data : ℕ → UInt32} {regions : List (ParticleRegion K d)}
    (h : Counted data regions) :
    (inclusiveScanHost data regions.length).2 = UInt32.ofNat (frameCounts regions).sum := by
  rw [← length_frameCounts]
  exact inclusiveScanHost_ofNat_total fun i hi => h i (length_frameCounts regions ▸ hi)

theorem Scanned.frameOffset {framesScan : ℕ → UInt32} {regions : List (ParticleRegion K d)}
    (h : Scanned framesScan regions) {r : ℕ} (hr : r < regions.length) :
    frameOffset framesScan r = UInt32.ofNat (blockStart (frameCounts regions) r) := by
  rw [Particles.frameOffset]
  split
  · next h0 => rw [h0, blockStart_zero]; rfl
  · next h0 =>
    rw [h (r - 1) (by omega), Nat.sub_add_cancel (by omega)]

/-- Slots of frames, as the position of a region's first frame and a position in its list. -/
theorem inBlock_frame {regions : List (ParticleRegion K d)} {r i : ℕ}
    {region : ParticleRegion K d} {frame : FramePtr} (hr : regions[r]? = some region)
    (hi : region.particleFrameList[i]? = some frame) :
    InBlock (frameCounts regions) r (blockStart (frameCounts regions) r + i) :=
  inBlock_add (by rw [frameCounts_getD hr]; exact (List.getElem?_eq_some_iff.mp hi).1)

theorem mem_fillWrites {regions : List (ParticleRegion K d)} {framesScan : ℕ → UInt32}
    (h : Scanned framesScan regions) (hfit : (frameCounts regions).sum < 2 ^ 31)
    {w : ℕ × FramePtr × UInt32} :
    w ∈ fillWrites regions framesScan ↔
      ∃ r i region frame, regions[r]? = some region ∧ region.particleFrameList[i]? = some frame ∧
        w = (blockStart (frameCounts regions) r + i, frame, UInt32.ofNat r) := by
  have hslot : ∀ {r i : ℕ} {region : ParticleRegion K d} {frame : FramePtr},
      regions[r]? = some region → region.particleFrameList[i]? = some frame →
      (Particles.frameOffset framesScan r + UInt32.ofNat i).toNat =
        blockStart (frameCounts regions) r + i := fun hr hi => by
    have hlt := (inBlock_frame hr hi).lt_sum
    rw [h.frameOffset (List.getElem?_eq_some_iff.mp hr).1, ← UInt32.ofNat_add,
      UInt32.toNat_ofNat_of_lt' (lt_trans hlt (lt_trans hfit (by norm_num [UInt32.size])))]
  simp only [fillWrites, List.mem_flatMap, List.mem_map, Prod.exists, List.mem_zipIdx_iff_getElem?]
  constructor
  · rintro ⟨region, r, hr, frame, i, hi, rfl⟩
    exact ⟨r, i, region, frame, hr, hi, by rw [hslot hr hi]⟩
  · rintro ⟨r, i, region, frame, hr, hi, rfl⟩
    exact ⟨region, r, hr, frame, i, hi, by rw [hslot hr hi]⟩

/-- **However the writes are ordered, every frame ends up in its slot.** -/
theorem listed_scatter {regions : List (ParticleRegion K d)} {framesScan : ℕ → UInt32}
    (h : Scanned framesScan regions) (hfit : (frameCounts regions).sum < 2 ^ 31)
    {ptrOrder : List (ℕ × FramePtr)} {idxOrder : List (ℕ × UInt32)}
    (hptr : ptrOrder.Perm ((fillWrites regions framesScan).map fun w => (w.1, w.2.1)))
    (hidx : idxOrder.Perm ((fillWrites regions framesScan).map fun w => (w.1, w.2.2)))
    (ptrs : ℕ → FramePtr) (regionIdx : ℕ → UInt32) :
    Listed (scatter ptrOrder ptrs) (scatter idxOrder regionIdx) regions := by
  intro r i region frame hr hi
  have hself : (blockStart (frameCounts regions) r + i, frame, UInt32.ofNat r) ∈
      fillWrites regions framesScan :=
    (mem_fillWrites h hfit).mpr ⟨r, i, region, frame, hr, hi, rfl⟩
  -- a write to this slot is this frame's
  have hunique : ∀ w ∈ fillWrites regions framesScan,
      w.1 = blockStart (frameCounts regions) r + i → w.2 = (frame, UInt32.ofNat r) := by
    intro w hw heq
    obtain ⟨r', i', region', frame', hr', hi', rfl⟩ := (mem_fillWrites h hfit).mp hw
    have hblock := inBlock_frame hr' hi'
    dsimp only at heq
    rw [heq] at hblock
    obtain rfl := hblock.unique (inBlock_frame hr hi)
    obtain rfl := Option.some.inj (hr'.symm.trans hr)
    obtain rfl : i' = i := by omega
    obtain rfl := Option.some.inj (hi'.symm.trans hi)
    rfl
  constructor
  · refine scatter_eq (fun w hw heq => ?_) (Or.inl ?_)
    · obtain ⟨w', hw', rfl⟩ := List.mem_map.mp (hptr.mem_iff.mp hw)
      rw [hunique w' hw' heq]
    · exact ⟨_, hptr.mem_iff.mpr (List.mem_map_of_mem hself), rfl⟩
  · refine scatter_eq (fun w hw heq => ?_) (Or.inl ?_)
    · obtain ⟨w', hw', rfl⟩ := List.mem_map.mp (hidx.mem_iff.mp hw)
      rw [hunique w' hw' heq]
    · exact ⟨_, hidx.mem_iff.mpr (List.mem_map_of_mem hself), rfl⟩

/-! ## What the stages achieve -/

namespace FrameIndexBuffer

variable {idx idx' : FrameIndexBuffer}

theorem le_grow {needed fuel newCapacity : ℕ} (hpos : 0 < newCapacity)
    (hfuel : needed ≤ newCapacity + fuel) : needed ≤ grow needed fuel newCapacity := by
  induction fuel generalizing newCapacity with
  | zero => exact hfuel
  | succ fuel ih =>
    rw [grow]
    split
    · exact ih (by omega) (by omega)
    · omega

/-- Afterwards there is a buffer with room for the regions, old or new. -/
theorem ensureRegionCapacity_spec (idx : FrameIndexBuffer) (needed : ℕ)
    (allocated : HostDeviceBuffer UInt32) :
    (∃ F, (idx.ensureRegionCapacity needed allocated).framesPerRegion = some F) ∧
      needed ≤ (idx.ensureRegionCapacity needed allocated).regionCapacity := by
  unfold ensureRegionCapacity
  split
  · next h => exact ⟨Option.isSome_iff_exists.mp h.1, h.2⟩
  · exact ⟨⟨allocated, rfl⟩, le_rfl⟩

@[simp] theorem ensureRegionCapacity_builtVersion (needed : ℕ)
    (allocated : HostDeviceBuffer UInt32) :
    (idx.ensureRegionCapacity needed allocated).builtVersion = idx.builtVersion := by
  unfold ensureRegionCapacity
  split <;> rfl

@[simp] theorem ensureRegionCapacity_builtBuffer (needed : ℕ)
    (allocated : HostDeviceBuffer UInt32) :
    (idx.ensureRegionCapacity needed allocated).builtBuffer = idx.builtBuffer := by
  unfold ensureRegionCapacity
  split <;> rfl

/-- Afterwards the arrays are there and large enough; nothing else changed. -/
theorem ensureFrameCapacity_spec {needed : ℕ} {allocatedPtrs : ℕ → FramePtr}
    {allocatedIdx : ℕ → UInt32} (hneeded : 0 < needed)
    (h : idx.ensureFrameCapacity needed allocatedPtrs allocatedIdx = some idx') :
    (∃ ptrs, idx'.framePtrs = some ptrs) ∧ (∃ regionIdx, idx'.regionIdxPerFrame = some regionIdx) ∧
      needed ≤ idx'.frameCapacity ∧
      idx' = { idx with
        framePtrs := idx'.framePtrs
        regionIdxPerFrame := idx'.regionIdxPerFrame
        frameCapacity := idx'.frameCapacity
        together := idx'.together } := by
  unfold ensureFrameCapacity at h
  split at h
  · next hroom =>
    obtain rfl := Option.some.inj h
    exact ⟨Option.isSome_iff_exists.mp hroom.1,
      Option.isSome_iff_exists.mp (idx.together.symm.trans hroom.1), hroom.2, rfl⟩
  · have hpos : 0 < (if idx.frameCapacity = 0 then needed else idx.frameCapacity) := by
      split <;> omega
    generalize (if idx.frameCapacity = 0 then needed else idx.frameCapacity) = capacity at h hpos
    dsimp only at h
    split at h
    · obtain rfl := Option.some.inj h
      exact ⟨⟨_, rfl⟩, ⟨_, rfl⟩, le_grow hpos (by omega), rfl⟩
    · cases h

/-- What the stages before the last leave alone. -/
structure SameBuild (idx idx' : FrameIndexBuffer) : Prop where
  builtVersion : idx'.builtVersion = idx.builtVersion
  builtBuffer : idx'.builtBuffer = idx.builtBuffer
  regionCapacity : idx'.regionCapacity = idx.regionCapacity

variable {regions : List (ParticleRegion K d)} {F : HostDeviceBuffer UInt32}

theorem count_spec (regions : List (ParticleRegion K d)) (hF : idx.framesPerRegion = some F) :
    (∃ F', (idx.count regions).framesPerRegion = some F' ∧ Counted F'.device regions) ∧
      idx.SameBuild (idx.count regions) := by
  unfold count
  split
  · refine ⟨⟨{ F with device := countFramesKernel regions F.device }, ?_,
      countFramesKernel_counted regions F.device⟩, ⟨rfl, rfl, rfl⟩⟩
    rw [hF]
    rfl
  · next hempty => exact ⟨⟨F, hF, fun r hr => absurd hr (by omega)⟩, ⟨rfl, rfl, rfl⟩⟩

theorem scan_spec {allocatedPtrs : ℕ → FramePtr} {allocatedIdx : ℕ → UInt32}
    (hF : idx.framesPerRegion = some F) (hcounted : Counted F.host regions)
    (hfit : (frameCounts regions).sum < 2 ^ 31)
    (h : idx.scan regions.length allocatedPtrs allocatedIdx = some idx') :
    ((∃ F', idx'.framesPerRegion = some F' ∧ Scanned F'.host regions) ∧ idx'.HasRoom regions) ∧
      idx.SameBuild idx' := by
  rw [scan, hF] at h
  dsimp only at h
  have hdata : Counted (if regions.length = 0 then Function.update F.host 0 0 else F.host)
      regions := by
    split
    · next hempty => exact fun r hr => absurd hr (by omega)
    · exact hcounted
  generalize (if regions.length = 0 then Function.update F.host 0 0 else F.host) = data at h hdata
  obtain ⟨hptrs, hidx, hroom, heq⟩ := ensureFrameCapacity_spec (by omega) h
  have htotal := hdata.total
  rw [htotal, UInt32.toNat_ofNat_of_lt' (by rw [UInt32.size]; omega)] at hroom
  refine ⟨⟨⟨_, by rw [heq], hdata.scanned⟩, hptrs, hidx, ?_, by omega⟩,
    ⟨by rw [heq], by rw [heq], by rw [heq]⟩⟩
  rw [heq]
  exact htotal

/-- Whatever is scanned, the scan leaves alone what the last stage records. -/
theorem sameBuild_scan {numRegions : ℕ} {allocatedPtrs : ℕ → FramePtr}
    {allocatedIdx : ℕ → UInt32} (h : idx.scan numRegions allocatedPtrs allocatedIdx = some idx') :
    (∃ F, idx.framesPerRegion = some F) ∧ idx.SameBuild idx' := by
  unfold scan at h
  split at h
  · cases h
  · next F hF =>
    obtain ⟨-, -, -, heq⟩ := ensureFrameCapacity_spec (by omega) h
    exact ⟨⟨F, hF⟩, by rw [heq], by rw [heq], by rw [heq]⟩

/-- Whatever is filled in, the fill leaves alone what the last stage records. -/
theorem sameBuild_fill {ptrOrder : List (ℕ × FramePtr)} {idxOrder : List (ℕ × UInt32)}
    (h : idx.fill regions ptrOrder idxOrder = some idx') : idx.SameBuild idx' := by
  unfold fill at h
  split at h
  · split at h
    · cases h
    · dsimp only at h
      split at h
      · obtain rfl := Option.some.inj h
        exact ⟨rfl, rfl, rfl⟩
      · cases h
  · obtain rfl := Option.some.inj h
    exact ⟨rfl, rfl, rfl⟩

theorem SameBuild.trans {idx'' : FrameIndexBuffer} (h : idx.SameBuild idx')
    (h' : idx'.SameBuild idx'') : idx.SameBuild idx'' :=
  ⟨h'.builtVersion.trans h.builtVersion, h'.builtBuffer.trans h.builtBuffer,
    h'.regionCapacity.trans h.regionCapacity⟩

theorem fill_spec {ptrOrder : List (ℕ × FramePtr)} {idxOrder : List (ℕ × UInt32)}
    (hF : idx.framesPerRegion = some F) (hscanned : Scanned F.device regions)
    (hroom : idx.HasRoom regions) (hregions : regions.length ≤ idx.regionCapacity)
    (hfit : (frameCounts regions).sum < 2 ^ 31) (h : idx.fill regions ptrOrder idxOrder = some idx') :
    (∃ ptrs regionIdx framesScan, Describes idx' regions ptrs regionIdx framesScan) ∧
      idx.SameBuild idx' := by
  obtain ⟨ptrs, hptrs⟩ := hroom.framePtrs
  obtain ⟨regionIdx, hidx⟩ := hroom.regionIdxPerFrame
  unfold fill at h
  split at h
  · rw [hF] at h
    dsimp only at h
    split at h
    · next horder =>
      obtain rfl := Option.some.inj h
      refine ⟨⟨scatter ptrOrder ptrs, scatter idxOrder regionIdx, F.device, ?_⟩, ⟨rfl, rfl, rfl⟩⟩
      exact ⟨congrArg (Option.map _) hptrs, congrArg (Option.map _) hidx, ⟨F, rfl, rfl⟩, hroom.totalFrames,
        hroom.frameCapacity, hregions, hscanned, listed_scatter hscanned hfit horder.1 horder.2 _ _⟩
    · cases h
  · next hnone =>
    obtain rfl := Option.some.inj h
    refine ⟨⟨ptrs, regionIdx, F.device, hptrs, hidx, ⟨F, hF, rfl⟩, hroom.totalFrames,
      hroom.frameCapacity, hregions, hscanned, ?_⟩, ⟨rfl, rfl, rfl⟩⟩
    -- nothing was launched, so there is no frame
    intro r i region frame hr hi
    exfalso
    have hlt := (inBlock_frame hr hi).lt_sum
    refine hnone ⟨by have := (List.getElem?_eq_some_iff.mp hr).1; omega, ?_⟩
    rw [hroom.totalFrames, gt_iff_lt, UInt32.lt_iff_toNat_lt,
      UInt32.toNat_ofNat_of_lt' (by rw [UInt32.size]; omega)]
    exact Nat.zero_lt_of_lt hlt

end FrameIndexBuffer

/-! ## From slots to frames and back -/

/-- The documented recovery of a frame's position in its region. -/
def localFrameIdx (framesScan : ℕ → UInt32) (regionIdx : UInt32) (globalSlot : ℕ) : UInt32 :=
  UInt32.ofNat globalSlot - frameOffset framesScan regionIdx.toNat

/-- The documented recovery of a region's number of frames. -/
def framesInRegion (framesScan : ℕ → UInt32) (regionIdx : UInt32) : UInt32 :=
  framesScan regionIdx.toNat - frameOffset framesScan regionIdx.toNat

section Slots

variable {idx : FrameIndexBuffer} {regions : List (ParticleRegion K d)} {ptrs : ℕ → FramePtr}
  {regionIdx framesScan : ℕ → UInt32}

theorem ofNat_sub_toNat {a b : ℕ} (hab : a ≤ b) (hb : b < 2 ^ 31) :
    (UInt32.ofNat b - UInt32.ofNat a).toNat = b - a := by
  rw [← UInt32.ofNat_sub hab, UInt32.toNat_ofNat_of_lt' (by rw [UInt32.size]; omega)]

/-- The formulas at the slot of a known frame. -/
theorem Describes.formulas (h : Describes idx regions ptrs regionIdx framesScan)
    (hfit : (frameCounts regions).sum < 2 ^ 31) (hsize : regions.length < 2 ^ 31) {r i : ℕ}
    {region : ParticleRegion K d} {frame : FramePtr} (hr : regions[r]? = some region)
    (hi : region.particleFrameList[i]? = some frame) {g : ℕ}
    (hg : g = blockStart (frameCounts regions) r + i) :
    (regionIdx g).toNat = r ∧ (localFrameIdx framesScan (regionIdx g) g).toNat = i ∧
      (framesInRegion framesScan (regionIdx g)).toNat = region.particleFrameList.length ∧
      ptrs g = frame := by
  have hrlt : r < regions.length := (List.getElem?_eq_some_iff.mp hr).1
  obtain ⟨hptr, hidx⟩ := h.listed r i region frame hr hi
  rw [← hg] at hptr hidx
  have hrnat : (regionIdx g).toNat = r := by
    rw [hidx, UInt32.toNat_ofNat_of_lt' (by rw [UInt32.size]; omega)]
  have hglt : g < 2 ^ 31 := by
    rw [hg]
    exact lt_trans (inBlock_frame hr hi).lt_sum hfit
  have hend : blockStart (frameCounts regions) (r + 1) < 2 ^ 31 :=
    lt_of_le_of_lt (blockStart_le_sum _ _) hfit
  refine ⟨hrnat, ?_, ?_, hptr⟩
  · rw [localFrameIdx, hrnat, h.scanned.frameOffset hrlt, ofNat_sub_toNat (by omega) hglt]
    omega
  · rw [framesInRegion, hrnat, h.scanned.frameOffset hrlt, h.scanned r hrlt,
      ofNat_sub_toNat (blockStart_le_succ _ _) hend, blockStart_succ, frameCounts_getD hr]
    omega

/-- A slot belongs to a frame. -/
theorem exists_frame_of_slot {g : ℕ} (hg : g < (frameCounts regions).sum) :
    ∃ r i region frame, regions[r]? = some region ∧ region.particleFrameList[i]? = some frame ∧
      g = blockStart (frameCounts regions) r + i := by
  obtain ⟨r, hblock⟩ := exists_inBlock hg
  have hrlt : r < regions.length := length_frameCounts regions ▸ hblock.lt_length
  have hr : regions[r]? = some regions[r] := List.getElem?_eq_getElem hrlt
  have hi := hblock.sub_lt
  rw [frameCounts_getD hr] at hi
  have hstart := hblock.1
  exact ⟨r, g - blockStart (frameCounts regions) r, regions[r], _, hr,
    List.getElem?_eq_getElem hi, by omega⟩

/-- **The formulas recover the frame of every slot.** -/
theorem Describes.slot (h : Describes idx regions ptrs regionIdx framesScan)
    (hfit : (frameCounts regions).sum < 2 ^ 31) (hsize : regions.length < 2 ^ 31) {g : ℕ}
    (hg : g < (frameCounts regions).sum) :
    ∃ region, regions[(regionIdx g).toNat]? = some region ∧
      region.particleFrameList[(localFrameIdx framesScan (regionIdx g) g).toNat]? =
        some (ptrs g) ∧
      (framesInRegion framesScan (regionIdx g)).toNat = region.particleFrameList.length := by
  obtain ⟨r, i, region, frame, hr, hi, hslot⟩ := exists_frame_of_slot hg
  obtain ⟨hridx, hlocal, hcount, hptr⟩ := h.formulas hfit hsize hr hi hslot
  exact ⟨region, by rw [hridx]; exact hr, by rw [hlocal, hptr]; exact hi, hcount⟩

/-- **Every frame has one slot.** -/
theorem Describes.exists_unique_slot (h : Describes idx regions ptrs regionIdx framesScan)
    (hfit : (frameCounts regions).sum < 2 ^ 31) (hsize : regions.length < 2 ^ 31) {r i : ℕ}
    {region : ParticleRegion K d} {frame : FramePtr} (hr : regions[r]? = some region)
    (hi : region.particleFrameList[i]? = some frame) :
    ∃! g, g < (frameCounts regions).sum ∧ (regionIdx g).toNat = r ∧
      (localFrameIdx framesScan (regionIdx g) g).toNat = i := by
  obtain ⟨hridx, hlocal, -, -⟩ := h.formulas hfit hsize hr hi rfl
  refine ⟨_, ⟨(inBlock_frame hr hi).lt_sum, hridx, hlocal⟩, ?_⟩
  rintro g ⟨hg, hgr, hgi⟩
  obtain ⟨r', i', region', frame', hr', hi', hslot⟩ := exists_frame_of_slot hg
  obtain ⟨hridx', hlocal', -, -⟩ := h.formulas hfit hsize hr' hi' hslot
  rw [hslot, ← hgr, ← hgi, hridx', hlocal']

/-- The regions are met in order. -/
theorem Describes.regionIdx_mono (h : Describes idx regions ptrs regionIdx framesScan)
    (hfit : (frameCounts regions).sum < 2 ^ 31) (hsize : regions.length < 2 ^ 31) {g g' : ℕ}
    (hle : g ≤ g') (hg' : g' < (frameCounts regions).sum) :
    (regionIdx g).toNat ≤ (regionIdx g').toNat := by
  obtain ⟨r, i, region, frame, hr, hi, hslot⟩ := exists_frame_of_slot (lt_of_le_of_lt hle hg')
  obtain ⟨r', i', region', frame', hr', hi', hslot'⟩ := exists_frame_of_slot hg'
  rw [(h.formulas hfit hsize hr hi hslot).1, (h.formulas hfit hsize hr' hi' hslot').1]
  by_contra hlt
  have hblock := (inBlock_frame hr' hi').lt_of_lt (inBlock_frame hr hi) (not_le.mp hlt)
  omega

/-- Something computed from every slot is computed from the frames of all regions in order. -/
theorem map_slots {β : Type} (f : ℕ → β) (G : ParticleRegion K d × FramePtr → β)
    (hf : ∀ r i region frame, regions[r]? = some region →
      region.particleFrameList[i]? = some frame →
      f (blockStart (frameCounts regions) r + i) = G (region, frame)) :
    (List.range (frameCounts regions).sum).map f = (allFrames regions).map G := by
  have hcounts : frameCounts regions = (regions.map fun region =>
      region.particleFrameList.map fun frame => (region, frame)).map List.length := by
    rw [List.map_map]
    exact List.map_congr_left fun region _ => (List.length_map _).symm
  rw [hcounts, allFrames, List.flatMap_def]
  refine map_range_eq_flatten _ f G fun r i frames x hr hi => ?_
  rw [List.getElem?_map, Option.map_eq_some_iff] at hr
  obtain ⟨region, hr, rfl⟩ := hr
  rw [List.getElem?_map, Option.map_eq_some_iff] at hi
  obtain ⟨frame, hi, rfl⟩ := hi
  rw [← hcounts]
  exact hf r i region frame hr hi

/-- **The slots list the frames of all regions in order.** -/
theorem Describes.map_range (h : Describes idx regions ptrs regionIdx framesScan) :
    (List.range (frameCounts regions).sum).map ptrs =
      regions.flatMap fun region => region.particleFrameList := by
  rw [map_slots ptrs Prod.snd fun r i region frame hr hi => (h.listed r i region frame hr hi).1,
    allFrames, List.map_flatMap]
  exact List.flatMap_congr fun region _ => by rw [List.map_map]; exact List.map_id _

end Slots

end Particles
end Spearhed
