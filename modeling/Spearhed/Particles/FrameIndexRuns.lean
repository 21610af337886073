import Mathlib.Tactic
import Spearhed.Library.StepSystem
import Spearhed.Particles.FrameIndex

/-!
# Runs of the frame index

One index, any number of region buffers, and what happens to them in any order: buffers are created,
filled and uploaded, `InitParticles` adds frames, refresh senders are created and started later, and
rebuilds run from one stage to the next.  Rebuilds of the index do not overlap and the buffer that is
being indexed does not change meanwhile; other buffers may.

A rebuild captures the version and the number of regions when it begins and publishes them when it
is done.  The invariant follows it through its stages (`StageInv`); between rebuilds it says that an
index that looks fresh describes its buffer (`Sound`).

* `World.Inv.step`: every action keeps the invariant.
* `frame_index_sound`: what a fresh index says, in every reachable state.
-/

namespace Spearhed
namespace Particles

open Library

variable {K : Type} {d : ℕ}

/-- Where a rebuild stands: what its next sender does. -/
inductive Stage
  | count
  | download
  | scan
  | upload
  | fill
  | publish
  deriving DecidableEq

/-- A rebuild under way, with what it captured when it began. -/
structure Rebuild where
  buffer : BufferId
  targetVersion : ℕ
  numRegions : ℕ
  stage : Stage

/-- What the environment decides in a rebuild: the contents of new allocations and the orders in
which the writes of the fill kernel take effect. -/
structure Choices where
  allocated : HostDeviceBuffer UInt32
  allocatedPtrs : ℕ → FramePtr
  allocatedIdx : ℕ → UInt32
  ptrOrder : List (ℕ × FramePtr)
  idxOrder : List (ℕ × UInt32)

/-- The buffers, the index, the refresh senders not yet started, and the rebuild under way. -/
structure World (K : Type) (d : ℕ) where
  buffers : BufferId → ParticleRegionBuffer (ParticleRegion K d)
  index : FrameIndexBuffer
  refreshes : List BufferId
  running : Option Rebuild

/-- What can happen. -/
inductive Action (K : Type) (d : ℕ)
  | create (b : BufferId) (capacity : ℕ)
  | pushBack (b : BufferId) (pr : ParticleRegion K d)
  | upload (b : BufferId)
  | initParticles (b : BufferId) (frames : List (List FramePtr))
  | createRefresh (b : BufferId)
  | startRefresh (b : BufferId) (c : Choices)
  | refreshIfStale (b : BufferId) (c : Choices)
  | rebuild (b : BufferId) (c : Choices)
  | advance (c : Choices)

/-- `InitParticles`, as one step: frames are appended to the lists of the regions. -/
def appendFrames (regions : List (ParticleRegion K d)) (frames : List (List FramePtr)) :
    List (ParticleRegion K d) :=
  List.zipWith (fun r new => { r with particleFrameList := r.particleFrameList ++ new }) regions frames

namespace World

variable (w : World K d)

/-- The rebuild under way reads this buffer. -/
def borrowed (b : BufferId) : Bool := w.running.any fun run => run.buffer == b

/-- A buffer is replaced by what became of it. -/
def setBuffer (b : BufferId) (B : ParticleRegionBuffer (ParticleRegion K d)) : World K d :=
  { w with buffers := Function.update w.buffers b B }

/-- `rebuildSender`, created and started.  The regions are on the device, and there are fewer than
`2 ^ 31` frames. -/
def beginRebuild (b : BufferId) (c : Choices) : Option (World K d) :=
  let B := w.buffers b
  if B.Uploaded ∧ (frameCounts B.device).sum < 2 ^ 31 then
    some { w with
      index := w.index.ensureRegionCapacity (max B.size 1) c.allocated
      running := some ⟨b, B.topologyVersion, B.size, .count⟩ }
  else none

/-- `RefreshSender` when it is started, and `refreshIfStale`. -/
def refresh (b : BufferId) (c : Choices) : Option (World K d) :=
  if w.index.isFresh b (w.buffers b).topologyVersion then some w else w.beginRebuild b c

/-- The next sender of the rebuild under way. -/
def advance (run : Rebuild) (c : Choices) : Option (World K d) :=
  let regions := (w.buffers run.buffer).device.take run.numRegions
  match run.stage with
  | .count =>
    some { w with index := w.index.count regions, running := some { run with stage := .download } }
  | .download =>
    some { w with index := w.index.deviceToHost, running := some { run with stage := .scan } }
  | .scan =>
    (w.index.scan run.numRegions c.allocatedPtrs c.allocatedIdx).map fun index =>
      { w with index, running := some { run with stage := .upload } }
  | .upload =>
    some { w with index := w.index.hostToDevice, running := some { run with stage := .fill } }
  | .fill =>
    (w.index.fill regions c.ptrOrder c.idxOrder).map fun index =>
      { w with index, running := some { run with stage := .publish } }
  | .publish =>
    some { w with index := w.index.publish run.targetVersion run.buffer, running := none }

/-- The state after an action, when it can happen. -/
def step : Action K d → Option (World K d)
  | .create b capacity =>
    if w.borrowed b then none else ((w.buffers b).create capacity).map (w.setBuffer b)
  | .pushBack b pr =>
    if w.borrowed b then none else ((w.buffers b).pushBack pr).map (w.setBuffer b)
  | .upload b =>
    if w.borrowed b ∨ (w.buffers b).Uploaded then none
    else some (w.setBuffer b (w.buffers b).hostToDevice)
  | .initParticles b frames =>
    if w.borrowed b ∨ frames.length ≠ (w.buffers b).device.length then none
    else some (w.setBuffer b
      ((w.buffers b).changeTopology (appendFrames (w.buffers b).device frames)))
  | .createRefresh b => some { w with refreshes := b :: w.refreshes }
  | .startRefresh b c =>
    if w.running.isNone ∧ b ∈ w.refreshes then
      { w with refreshes := w.refreshes.erase b }.refresh b c
    else none
  | .refreshIfStale b c => if w.running.isNone then w.refresh b c else none
  | .rebuild b c => if w.running.isNone then w.beginRebuild b c else none
  | .advance c => w.running.bind fun run => w.advance run c

/-- All runs that begin with an index that was never built. -/
def system : StepSystem (World K d) where
  init := fun w => w.index = {} ∧ w.running = none
  step := fun w w' => ∃ a, w.step a = some w'

/-! ## What a step can do -/

/-- How a buffer changes outside of rebuilds: either its version grows, or what was missing on the
device is uploaded. -/
def Mutates (B B' : ParticleRegionBuffer (ParticleRegion K d)) : Prop :=
  B'.topologyVersion = B.topologyVersion + 1 ∨
    (¬ B.Uploaded ∧ B'.topologyVersion = B.topologyVersion)

theorem mutates_create {B B' : ParticleRegionBuffer (ParticleRegion K d)} {capacity : ℕ}
    (h : B.create capacity = some B') : Mutates B B' := by
  unfold ParticleRegionBuffer.create at h
  split at h
  · cases h
    exact Or.inl rfl
  · cases h

theorem mutates_pushBack {B B' : ParticleRegionBuffer (ParticleRegion K d)}
    {pr : ParticleRegion K d} (h : B.pushBack pr = some B') : Mutates B B' := by
  unfold ParticleRegionBuffer.pushBack at h
  split at h
  · cases h
    exact Or.inl rfl
  · cases h

variable {w} {w' : World K d}

theorem beginRebuild_eq_some {b : BufferId} {c : Choices} (h : w.beginRebuild b c = some w') :
    ((w.buffers b).Uploaded ∧ (frameCounts (w.buffers b).device).sum < 2 ^ 31) ∧
      w' = { w with
        index := w.index.ensureRegionCapacity (max (w.buffers b).size 1) c.allocated
        running := some ⟨b, (w.buffers b).topologyVersion, (w.buffers b).size, .count⟩ } := by
  unfold beginRebuild at h
  dsimp only at h
  split at h
  · next hguard => exact ⟨hguard, (Option.some.inj h).symm⟩
  · cases h

theorem refresh_eq_some {b : BufferId} {c : Choices} (h : w.refresh b c = some w') :
    w' = w ∨ w.beginRebuild b c = some w' := by
  unfold refresh at h
  split at h
  · exact Or.inl (Option.some.inj h).symm
  · exact Or.inr h

/-- **What a step can do**: change a buffer that is not borrowed, change the list of refresh
senders, begin a rebuild when none is under way, or advance the one that is. -/
theorem step_cases {a : Action K d} (h : w.step a = some w') :
    (∃ b B, w.borrowed b = false ∧ Mutates (w.buffers b) B ∧ w' = w.setBuffer b B) ∨
    (∃ l, w' = { w with refreshes := l }) ∨
    (∃ l b c, w.running = none ∧ { w with refreshes := l }.beginRebuild b c = some w') ∨
    (∃ run c, w.running = some run ∧ w.advance run c = some w') := by
  cases a with
  | create b capacity =>
    rw [step] at h
    split at h
    · cases h
    · next hb =>
      obtain ⟨B, hB, rfl⟩ := Option.map_eq_some_iff.mp h
      exact Or.inl ⟨b, B, by simpa using hb, mutates_create hB, rfl⟩
  | pushBack b pr =>
    rw [step] at h
    split at h
    · cases h
    · next hb =>
      obtain ⟨B, hB, rfl⟩ := Option.map_eq_some_iff.mp h
      exact Or.inl ⟨b, B, by simpa using hb, mutates_pushBack hB, rfl⟩
  | upload b =>
    rw [step] at h
    split at h
    · cases h
    · next hb =>
      obtain ⟨hborrowed, huploaded⟩ := not_or.mp hb
      exact Or.inl ⟨b, (w.buffers b).hostToDevice, by simpa using hborrowed,
        Or.inr ⟨huploaded, rfl⟩, (Option.some.inj h).symm⟩
  | initParticles b frames =>
    rw [step] at h
    split at h
    · cases h
    · next hb =>
      obtain ⟨hborrowed, -⟩ := not_or.mp hb
      exact Or.inl ⟨b, _, by simpa using hborrowed, Or.inl rfl, (Option.some.inj h).symm⟩
  | createRefresh b => exact Or.inr (Or.inl ⟨_, (Option.some.inj h).symm⟩)
  | startRefresh b c =>
    rw [step] at h
    split at h
    · next hguard =>
      rcases refresh_eq_some h with rfl | hbegin
      · exact Or.inr (Or.inl ⟨_, rfl⟩)
      · exact Or.inr (Or.inr (Or.inl ⟨_, b, c, Option.isNone_iff_eq_none.mp hguard.1, hbegin⟩))
    · cases h
  | refreshIfStale b c =>
    rw [step] at h
    split at h
    · next hguard =>
      rcases refresh_eq_some h with rfl | hbegin
      · exact Or.inr (Or.inl ⟨_, rfl⟩)
      · exact Or.inr (Or.inr (Or.inl ⟨w.refreshes, b, c, Option.isNone_iff_eq_none.mp hguard,
          hbegin⟩))
    · cases h
  | rebuild b c =>
    rw [step] at h
    split at h
    · next hguard =>
      exact Or.inr (Or.inr (Or.inl ⟨w.refreshes, b, c, Option.isNone_iff_eq_none.mp hguard, h⟩))
    · cases h
  | advance c =>
    obtain ⟨run, hrun, hadv⟩ := Option.bind_eq_some_iff.mp h
    exact Or.inr (Or.inr (Or.inr ⟨run, c, hrun, hadv⟩))

/-! ## The invariant -/

/-- What a rebuild of some regions has achieved before each of its stages. -/
def StageInv (idx : FrameIndexBuffer) (regions : List (ParticleRegion K d)) : Stage → Prop
  | .count => ∃ F, idx.framesPerRegion = some F
  | .download => ∃ F, idx.framesPerRegion = some F ∧ Counted F.device regions
  | .scan => ∃ F, idx.framesPerRegion = some F ∧ Counted F.host regions
  | .upload => (∃ F, idx.framesPerRegion = some F ∧ Scanned F.host regions) ∧ idx.HasRoom regions
  | .fill => (∃ F, idx.framesPerRegion = some F ∧ Scanned F.device regions) ∧ idx.HasRoom regions
  | .publish => ∃ ptrs regionIdx framesScan, Describes idx regions ptrs regionIdx framesScan

/-- What holds of a rebuild under way. -/
structure RunInv (w : World K d) (run : Rebuild) : Prop where
  version : (w.buffers run.buffer).topologyVersion = run.targetVersion
  size : (w.buffers run.buffer).size = run.numRegions
  uploaded : (w.buffers run.buffer).Uploaded
  fits : (frameCounts (w.buffers run.buffer).device).sum < 2 ^ 31
  regionCapacity : max run.numRegions 1 ≤ w.index.regionCapacity
  stage : StageInv w.index (w.buffers run.buffer).device run.stage

/-- The index describes what is on the device of a buffer. -/
structure Sound (w : World K d) (b : BufferId) : Prop where
  uploaded : (w.buffers b).Uploaded
  fits : (frameCounts (w.buffers b).device).sum < 2 ^ 31
  describes : ∃ ptrs regionIdx framesScan,
    Describes w.index (w.buffers b).device ptrs regionIdx framesScan

/-- The invariant of a run. -/
structure Inv (w : World K d) : Prop where
  /-- The index was not built for a version that is yet to come. -/
  version_le : ∀ b, w.index.builtBuffer = some b →
    w.index.builtVersion ≤ (w.buffers b).topologyVersion
  fresh : w.running = none → ∀ b,
    w.index.isFresh b (w.buffers b).topologyVersion = true → w.Sound b
  running : ∀ run, w.running = some run → w.RunInv run

theorem borrowed_eq_false {b : BufferId} (h : w.borrowed b = false) {run : Rebuild}
    (hrun : w.running = some run) : run.buffer ≠ b := by
  rw [borrowed, hrun, Option.any_some] at h
  exact fun heq => by simp [heq] at h

/-- A change of a buffer leaves the index no fresher than it was. -/
theorem Inv.setBuffer (h : w.Inv) {b : BufferId}
    {B : ParticleRegionBuffer (ParticleRegion K d)} (hb : w.borrowed b = false)
    (hB : Mutates (w.buffers b) B) : (w.setBuffer b B).Inv := by
  have hself : (w.setBuffer b B).buffers b = B := Function.update_self ..
  have hother : ∀ {c : BufferId}, c ≠ b → (w.setBuffer b B).buffers c = w.buffers c :=
    fun hne => Function.update_of_ne hne ..
  have hle : (w.buffers b).topologyVersion ≤ B.topologyVersion := by
    rcases hB with h | h
    · omega
    · exact h.2.ge
  refine ⟨fun c hc => ?_, fun hidle c hfresh => ?_, fun run hrun => ?_⟩
  · rcases eq_or_ne c b with rfl | hne
    · rw [hself]
      exact (h.version_le c hc).trans hle
    · rw [hother hne]
      exact h.version_le c hc
  · rcases eq_or_ne c b with rfl | hne
    · -- the version the index was built for is gone, or the buffer was not described before
      rw [hself] at hfresh
      obtain ⟨hbuilt, hbuffer, hversion⟩ := FrameIndexBuffer.isFresh_iff.mp hfresh
      change w.index.builtVersion = B.topologyVersion at hversion
      have hbound := h.version_le c hbuffer
      rcases hB with hbump | ⟨hmissing, hsame⟩
      · omega
      · have hold := h.fresh hidle c (FrameIndexBuffer.isFresh_iff.mpr
          ⟨hbuilt, hbuffer, hversion.trans hsame⟩)
        exact absurd hold.uploaded hmissing
    · rw [hother hne] at hfresh
      obtain ⟨huploaded, hfits, hdescribes⟩ := h.fresh hidle c hfresh
      refine ⟨?_, ?_, ?_⟩ <;> rwa [hother hne]
  · have hne := borrowed_eq_false hb hrun
    obtain ⟨hversion, hsize, huploaded, hfits, hcapacity, hstage⟩ := h.running run hrun
    refine ⟨?_, ?_, ?_, ?_, hcapacity, ?_⟩ <;> rwa [hother hne]

/-- The refresh senders that wait to be started play no part. -/
theorem Inv.setRefreshes (h : w.Inv) (l : List BufferId) : Inv { w with refreshes := l } := by
  refine ⟨h.version_le, fun hidle b hfresh => ?_, fun run hrun => ?_⟩
  · obtain ⟨huploaded, hfits, hdescribes⟩ := h.fresh hidle b hfresh
    exact ⟨huploaded, hfits, hdescribes⟩
  · obtain ⟨hversion, hsize, huploaded, hfits, hcapacity, hstage⟩ := h.running run hrun
    exact ⟨hversion, hsize, huploaded, hfits, hcapacity, hstage⟩

/-- A rebuild begins with the version and the regions of its buffer. -/
theorem Inv.beginRebuild (h : w.Inv) {b : BufferId} {c : Choices}
    (hbegin : w.beginRebuild b c = some w') : w'.Inv := by
  obtain ⟨⟨huploaded, hfits⟩, rfl⟩ := beginRebuild_eq_some hbegin
  obtain ⟨hF, hcapacity⟩ := w.index.ensureRegionCapacity_spec (max (w.buffers b).size 1) c.allocated
  refine ⟨fun b' hb' => ?_, fun hidle => (nomatch hidle), fun run hrun => ?_⟩
  · rw [FrameIndexBuffer.ensureRegionCapacity_builtBuffer] at hb'
    rw [FrameIndexBuffer.ensureRegionCapacity_builtVersion]
    exact h.version_le b' hb'
  · obtain rfl := Option.some.inj hrun
    exact ⟨rfl, rfl, huploaded, hfits, hcapacity, hF⟩

/-- A stage before the last: its effect on the index is all that has to be checked. -/
theorem Inv.stage (h : w.Inv) {run : Rebuild} (hrun : w.running = some run)
    {idx : FrameIndexBuffer} (hsame : w.index.SameBuild idx) {s : Stage}
    (hs : StageInv idx (w.buffers run.buffer).device s) :
    Inv { w with index := idx, running := some { run with stage := s } } := by
  obtain ⟨hversion, hsize, huploaded, hfits, hcapacity, -⟩ := h.running run hrun
  refine ⟨fun b hb => ?_, fun hidle => (nomatch hidle), fun run' hrun' => ?_⟩
  · change idx.builtBuffer = some b at hb
    show idx.builtVersion ≤ _
    rw [hsame.builtBuffer] at hb
    rw [hsame.builtVersion]
    exact h.version_le b hb
  · obtain rfl := Option.some.inj hrun'
    exact ⟨hversion, hsize, huploaded, hfits, by rw [hsame.regionCapacity]; exact hcapacity, hs⟩

/-- **Every stage of a rebuild keeps the invariant.** -/
theorem Inv.advance (h : w.Inv) {run : Rebuild} (hrun : w.running = some run) {c : Choices}
    (hadv : w.advance run c = some w') : w'.Inv := by
  have hinv := h.running run hrun
  have hlength : (w.buffers run.buffer).device.length = run.numRegions :=
    Eq.trans hinv.uploaded hinv.size
  have hstage := hinv.stage
  have htake : (w.buffers run.buffer).device.take run.numRegions = (w.buffers run.buffer).device :=
    List.take_of_length_le hlength.le
  unfold World.advance at hadv
  rw [htake] at hadv
  dsimp only at hadv
  cases hs : run.stage with
  | count =>
    rw [hs] at hadv hstage
    obtain ⟨F, hF⟩ := hstage
    obtain rfl := Option.some.inj hadv
    have hcount := FrameIndexBuffer.count_spec (w.buffers run.buffer).device hF
    exact h.stage hrun hcount.2 hcount.1
  | download =>
    rw [hs] at hadv hstage
    obtain ⟨F, hF, hcounted⟩ := hstage
    obtain rfl := Option.some.inj hadv
    have hsame : w.index.SameBuild w.index.deviceToHost := ⟨rfl, rfl, rfl⟩
    refine h.stage (s := .scan) hrun hsame ⟨{ F with host := F.device }, ?_, hcounted⟩
    rw [FrameIndexBuffer.deviceToHost, hF]
    rfl
  | scan =>
    rw [hs] at hadv hstage
    obtain ⟨F, hF, hcounted⟩ := hstage
    obtain ⟨idx, hidx, rfl⟩ := Option.map_eq_some_iff.mp hadv
    rw [← hlength] at hidx
    obtain ⟨hscanned, hsame⟩ := FrameIndexBuffer.scan_spec hF hcounted hinv.fits hidx
    exact h.stage hrun hsame hscanned
  | upload =>
    rw [hs] at hadv hstage
    obtain ⟨⟨F, hF, hscanned⟩, hroom⟩ := hstage
    obtain rfl := Option.some.inj hadv
    have hsame : w.index.SameBuild w.index.hostToDevice := ⟨rfl, rfl, rfl⟩
    refine h.stage (s := .fill) hrun hsame
      ⟨⟨{ F with device := F.host }, ?_, hscanned⟩, hroom.1, hroom.2, hroom.3, hroom.4⟩
    rw [FrameIndexBuffer.hostToDevice, hF]
    rfl
  | fill =>
    rw [hs] at hadv hstage
    obtain ⟨⟨F, hF, hscanned⟩, hroom⟩ := hstage
    obtain ⟨idx, hidx, rfl⟩ := Option.map_eq_some_iff.mp hadv
    have hcapacity := hinv.regionCapacity
    obtain ⟨hdescribes, hsame⟩ :=
      FrameIndexBuffer.fill_spec hF hscanned hroom (by omega) hinv.fits hidx
    exact h.stage hrun hsame hdescribes
  | publish =>
    rw [hs] at hadv hstage
    obtain rfl := Option.some.inj hadv
    have hbuilt : (w.index.publish run.targetVersion run.buffer).builtBuffer = some run.buffer := rfl
    refine ⟨fun b hb => ?_, fun _ b hfresh => ?_, fun run' hrun' => by cases hrun'⟩
    · obtain rfl := Option.some.inj (hbuilt.symm.trans hb)
      exact hinv.version.ge
    · obtain ⟨-, hb, -⟩ := FrameIndexBuffer.isFresh_iff.mp hfresh
      obtain rfl := Option.some.inj (hbuilt.symm.trans hb)
      obtain ⟨ptrs, regionIdx, framesScan, hdescribes⟩ := hstage
      exact ⟨hinv.uploaded, hinv.fits, ptrs, regionIdx, framesScan, hdescribes.1, hdescribes.2,
        hdescribes.3, hdescribes.4, hdescribes.5, hdescribes.6, hdescribes.7, hdescribes.8⟩

/-- **Every step keeps the invariant.** -/
theorem Inv.step (h : w.Inv) {a : Action K d} (hstep : w.step a = some w') : w'.Inv := by
  rcases step_cases hstep with ⟨b, B, hb, hB, rfl⟩ | ⟨l, rfl⟩ | ⟨l, b, c, -, hbegin⟩ |
    ⟨run, c, hrun, hadv⟩
  · exact h.setBuffer hb hB
  · exact h.setRefreshes l
  · exact (h.setRefreshes l).beginRebuild hbegin
  · exact h.advance hrun hadv

theorem inv_of_reachable (h : (system (K := K) (d := d)).Reachable w) : w.Inv := by
  refine h.invariant (fun w hw => ?_) fun w w' _ hinv hst => ?_
  · obtain ⟨hindex, hrunning⟩ := hw
    refine ⟨fun b hb => ?_, fun _ b hfresh => ?_, fun run hrun => ?_⟩
    · rw [hindex] at hb
      cases hb
    · rw [hindex] at hfresh
      cases hfresh
    · rw [hrunning] at hrun
      cases hrun
  · obtain ⟨a, ha⟩ := hst
    exact hinv.step ha

end World

/-- **What a fresh index says.**  In every reachable state without a rebuild under way, an index that
is fresh for a buffer lists the frames of all of the buffer's regions, region by region in the order
of the lists; the owner of every slot is right, every frame has exactly one slot, and the documented
formulas recover its place. -/
theorem frame_index_sound {w : World K d} (h : World.system.Reachable w) (hidle : w.running = none)
    {b : BufferId} (hfresh : w.index.isFresh b (w.buffers b).topologyVersion = true) :
    (w.buffers b).Uploaded ∧ ∃ ptrs regionIdx framesScan,
      w.index.framePtrs = some ptrs ∧ w.index.regionIdxPerFrame = some regionIdx ∧
      (∃ F, w.index.framesPerRegion = some F ∧ F.device = framesScan) ∧
      w.index.totalFrames.toNat = (frameCounts (w.buffers b).device).sum ∧
      w.index.totalFrames.toNat ≤ w.index.frameCapacity ∧
      (List.range w.index.totalFrames.toNat).map ptrs =
        (w.buffers b).device.flatMap (fun region => region.particleFrameList) ∧
      (∀ g g', g ≤ g' → g' < w.index.totalFrames.toNat →
        (regionIdx g).toNat ≤ (regionIdx g').toNat) ∧
      (∀ g < w.index.totalFrames.toNat, ∃ region,
        (w.buffers b).device[(regionIdx g).toNat]? = some region ∧
        region.particleFrameList[(localFrameIdx framesScan (regionIdx g) g).toNat]? =
          some (ptrs g) ∧
        (framesInRegion framesScan (regionIdx g)).toNat = region.particleFrameList.length) ∧
      ∀ (r i : ℕ) (region : ParticleRegion K d) (frame : FramePtr),
        (w.buffers b).device[r]? = some region → region.particleFrameList[i]? = some frame →
        ∃! g, g < w.index.totalFrames.toNat ∧ (regionIdx g).toNat = r ∧
          (localFrameIdx framesScan (regionIdx g) g).toNat = i := by
  obtain ⟨huploaded, hfit, ptrs, regionIdx, framesScan, hdescribes⟩ :=
    (World.inv_of_reachable h).fresh hidle b hfresh
  have hsize : (w.buffers b).device.length < 2 ^ 31 :=
    lt_of_eq_of_lt huploaded (w.buffers b).size_lt
  have htotal : w.index.totalFrames.toNat = (frameCounts (w.buffers b).device).sum := by
    rw [hdescribes.totalFrames, UInt32.toNat_ofNat_of_lt' (by rw [UInt32.size]; omega)]
  rw [htotal]
  exact ⟨huploaded, ptrs, regionIdx, framesScan, hdescribes.framePtrs,
    hdescribes.regionIdxPerFrame, hdescribes.framesPerRegion, rfl, hdescribes.frameCapacity,
    hdescribes.map_range, fun _ _ => hdescribes.regionIdx_mono hfit hsize,
    fun _ => hdescribes.slot hfit hsize,
    fun _ _ _ _ hr hi => hdescribes.exists_unique_slot hfit hsize hr hi⟩

/-! A run: one region is created and uploaded, gets the frame at address 5, and a refresh sender
that was created before is started. -/

/-- Actions one after the other. -/
def World.run (w : World K d) : List (Action K d) → Option (World K d)
  | [] => some w
  | a :: actions => (w.step a).bind fun w' => w'.run actions

theorem World.reachable_run {w w' : World K d} (h : World.system.Reachable w)
    {actions : List (Action K d)} (hrun : w.run actions = some w') : World.system.Reachable w' := by
  induction actions generalizing w with
  | nil => exact Option.some.inj hrun ▸ h
  | cons a actions ih =>
    obtain ⟨v, hv, hrest⟩ := Option.bind_eq_some_iff.mp hrun
    exact ih (h.step ⟨a, hv⟩) hrest

/-- Nothing was created or built yet. -/
def emptyWorld : World ℚ 0 :=
  ⟨fun _ => ⟨[], [], 0, 0, le_rfl, ParticleRegionBuffer.zero_lt_limit⟩, {}, [], none⟩

/-- New allocations hold sevens. -/
def sevens : Choices :=
  ⟨⟨fun _ => 7, fun _ => 7⟩, fun _ => 7, fun _ => 7, [(0, 5)], [(0, 0)]⟩

/-- The actions of the run. -/
def oneFrameRun : List (Action ℚ 0) :=
  [.createRefresh 3, .create 3 1, .pushBack 3 ⟨AABB.fresh ⟨100, -100⟩, []⟩, .upload 3,
    .initParticles 3 [[5]], .startRefresh 3 sevens, .advance sevens, .advance sevens,
    .advance sevens, .advance sevens, .advance sevens, .advance sevens]

/-- At the end of the run the index is fresh, and its one slot holds the frame. -/
theorem frame_index_sound_oneFrameRun :
    ∃ w ptrs, emptyWorld.run oneFrameRun = some w ∧ w.index.framePtrs = some ptrs ∧
      (List.range 1).map ptrs = [5] := by
  have hend : (emptyWorld.run oneFrameRun).any (fun w => w.running.isNone &&
      w.index.isFresh 3 (w.buffers 3).topologyVersion && w.index.totalFrames == 1 &&
      (w.buffers 3).device.flatMap (fun region => region.particleFrameList) == [5]) = true := by
    decide
  cases hw : emptyWorld.run oneFrameRun with
  | none => rw [hw] at hend; cases hend
  | some w =>
    rw [hw, Option.any_some, Bool.and_eq_true, Bool.and_eq_true, Bool.and_eq_true] at hend
    obtain ⟨⟨⟨hidle, hfresh⟩, htotal⟩, hframes⟩ := hend
    have hreach : World.system.Reachable w := World.reachable_run (.init ⟨rfl, rfl⟩) hw
    obtain ⟨-, ptrs, -, -, hptrs, -, -, -, -, hlist, -⟩ :=
      frame_index_sound hreach (Option.isNone_iff_eq_none.mp hidle) hfresh
    rw [beq_iff_eq] at htotal hframes
    rw [htotal, hframes] at hlist
    exact ⟨w, ptrs, rfl, hptrs, hlist⟩

end Particles
end Spearhed
