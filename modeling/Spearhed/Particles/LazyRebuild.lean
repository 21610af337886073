import Mathlib.Tactic
import Spearhed.Library.StepSystem
import Spearhed.Particles.FrameIndexRuns

/-!
# Rebuild senders that wait

`rebuildSender` decides some things when it is called and others when its sender runs.  The number of
regions, the version to publish, and the counting buffer that the count kernel writes and the first
copy downloads are those of the call; the counting buffer that is scanned, uploaded and read by the
fill kernel is the one in `framesPerRegion` when the download is done.  A call that needs more room
replaces that buffer, and the senders created before keep the old one alive.

Senders may be created at any time, also while another one runs.  So a sender that was created or
started before a replacement counts into one buffer and scans another, and a replacement takes the
scan from an index that still looks fresh.  `careful` excludes exactly these steps; nothing else has
to be asked.

* `LazyWorld.Inv.step`: every careful step keeps the invariant.
* `lazy_rebuild_sound`: what holds in all careful runs.
* `LazyWorld.Lost.step`: a sender with regions that lost its buffer uses two.
-/

namespace Spearhed
namespace Particles

open Library

variable {K : Type} {d : ℕ}

/-- What a rebuild sender captured when it was created.  `countBox` says which of the counting
buffers, in the order of their allocation. -/
structure RebuildSender where
  buffer : BufferId
  targetVersion : ℕ
  numRegions : ℕ
  countBox : ℕ
  deriving DecidableEq

/-- A sender that was started: what it finds on the device behind the regions of its buffer, what it
does next, the counting buffer that it scanned, once it has, and those that its kernels used. -/
structure RunningSender (K : Type) (d : ℕ) extends RebuildSender where
  stale : List (ParticleRegion K d)
  stage : Stage
  scanBox : ℕ
  kernels : List ℕ

/-- What is recorded of a sender that completed: the counting buffers that its kernels wrote to or
read from, and the one that was scanned on the host and uploaded. -/
structure Completed where
  kernels : List ℕ
  scanned : ℕ

/-- No kernel used another counting buffer than the scanned one. -/
def Completed.OneBuffer (r : Completed) : Prop := ∀ g ∈ r.kernels, g = r.scanned

/-- The buffers, the index, which counting buffer it holds, the ones it held before, the senders that
wait to be started, the sender that runs, and the senders that completed, newest first. -/
structure LazyWorld (K : Type) (d : ℕ) where
  buffers : BufferId → ParticleRegionBuffer (ParticleRegion K d)
  index : FrameIndexBuffer
  generation : ℕ
  retired : ℕ → Option (HostDeviceBuffer UInt32)
  senders : List RebuildSender
  running : Option (RunningSender K d)
  completed : List Completed

/-- What can happen.  A refresh sender captures nothing before it is started, so only its start is an
action.  `stale` is what a sender finds on the device behind the regions of its buffer. -/
inductive LazyAction (K : Type) (d : ℕ)
  | create (b : BufferId) (c : Choices)
  | start (s : RebuildSender) (stale : List (ParticleRegion K d))
  | rebuild (b : BufferId) (c : Choices)
  | refreshIfStale (b : BufferId) (c : Choices)
  | advance (c : Choices)
  | mutate (b : BufferId) (B : ParticleRegionBuffer (ParticleRegion K d))
  | upload (b : BufferId)

/-- The condition under which `ensureRegionCapacity` keeps the counting buffer. -/
def FrameIndexBuffer.HasRegionCapacity (idx : FrameIndexBuffer) (needed : ℕ) : Prop :=
  idx.framesPerRegion.isSome ∧ needed ≤ idx.regionCapacity

instance (idx : FrameIndexBuffer) (needed : ℕ) : Decidable (idx.HasRegionCapacity needed) :=
  inferInstanceAs (Decidable (_ ∧ _))

/-- The counts are not scanned yet. -/
def Stage.beforeScan : Stage → Bool
  | .count | .download | .scan => true
  | .upload | .fill | .publish => false

namespace LazyWorld

variable (w : LazyWorld K d)

/-- A buffer is replaced by what became of it. -/
def setBuffer (b : BufferId) (B : ParticleRegionBuffer (ParticleRegion K d)) : LazyWorld K d :=
  { w with buffers := Function.update w.buffers b B }

/-- The sender that runs reads this buffer. -/
def borrowed (b : BufferId) : Bool := w.running.any fun run => run.buffer == b

/-- `ensureRegionCapacity`; a buffer that is replaced stays alive in the senders. -/
def ensureRegionCapacity (needed : ℕ) (allocated : HostDeviceBuffer UInt32) : LazyWorld K d :=
  { w with
    index := w.index.ensureRegionCapacity needed allocated
    generation := if w.index.HasRegionCapacity needed then w.generation else w.generation + 1
    retired := if w.index.HasRegionCapacity needed then w.retired
      else Function.update w.retired w.generation w.index.framesPerRegion }

/-- The part of `rebuildSender` before its `return`. -/
def prepare (b : BufferId) (allocated : HostDeviceBuffer UInt32) : LazyWorld K d :=
  w.ensureRegionCapacity (max (w.buffers b).size 1) allocated

/-- `rebuildSender`: the sender it returns. -/
def rebuildSender (b : BufferId) (allocated : HostDeviceBuffer UInt32) : RebuildSender :=
  ⟨b, (w.buffers b).topologyVersion, (w.buffers b).size, (w.prepare b allocated).generation⟩

/-- A counting buffer: the one of the index, or one that a sender keeps alive. -/
def countBuffer (g : ℕ) : Option (HostDeviceBuffer UInt32) :=
  if g = w.generation then w.index.framesPerRegion else w.retired g

/-- An operation on a counting buffer that a sender captured. -/
def onCountBuffer (g : ℕ) (f : FrameIndexBuffer → FrameIndexBuffer) : LazyWorld K d :=
  if g = w.generation then { w with index := f w.index }
  else { w with
    retired := Function.update w.retired g (f { framesPerRegion := w.retired g }).framesPerRegion }

/-- The fill kernel, which reads the scan from the counting buffer it was given. -/
def fill (scanBox : ℕ) (regions : List (ParticleRegion K d)) (c : Choices) :
    Option FrameIndexBuffer :=
  let idx : FrameIndexBuffer := { w.index with framesPerRegion := w.countBuffer scanBox }
  (idx.fill regions c.ptrOrder c.idxOrder).map fun filled =>
    { filled with framesPerRegion := w.index.framesPerRegion }

/-- The regions that the kernels of a sender find on the device. -/
def regions (run : RunningSender K d) : List (ParticleRegion K d) :=
  ((w.buffers run.buffer).device ++ run.stale).take run.numRegions

/-- A sender is started.  The regions of its buffer are on the device, and there are fewer than
`2 ^ 31` frames. -/
def begin (s : RebuildSender) (stale : List (ParticleRegion K d)) : Option (LazyWorld K d) :=
  let B := w.buffers s.buffer
  let run : RunningSender K d := ⟨s, stale, .count, 0, []⟩
  if B.Uploaded ∧ (frameCounts B.device).sum < 2 ^ 31 ∧ (w.regions run).length = s.numRegions then
    some { w with running := some run }
  else none

/-- `rebuild`, and `RefreshSender` where the index is stale: the sender is started at once. -/
def rebuild (b : BufferId) (c : Choices) : Option (LazyWorld K d) :=
  (w.prepare b c.allocated).begin (w.rebuildSender b c.allocated) []

/-- What the sender that runs does next. -/
def advance (run : RunningSender K d) (c : Choices) : Option (LazyWorld K d) :=
  match run.stage with
  | .count =>
    some { w.onCountBuffer run.countBox fun idx => idx.count (w.regions run) with
      running := some { run with
        stage := .download, kernels := if run.numRegions > 0 then [run.countBox] else [] } }
  | .download =>
    some { w.onCountBuffer run.countBox FrameIndexBuffer.deviceToHost with
      running := some { run with stage := .scan } }
  | .scan =>
    -- the continuation takes the counting buffer that the index has by now
    (w.index.scan run.numRegions c.allocatedPtrs c.allocatedIdx).map fun index =>
      { w with index, running := some { run with stage := .upload, scanBox := w.generation } }
  | .upload =>
    some { w.onCountBuffer run.scanBox FrameIndexBuffer.hostToDevice with
      running := some { run with stage := .fill } }
  | .fill =>
    (w.fill run.scanBox (w.regions run) c).map fun index =>
      { w with
        index
        running := some { run with
          stage := .publish
          kernels := if run.numRegions > 0 ∧ w.index.totalFrames > 0 then run.scanBox :: run.kernels
            else run.kernels } }
  | .publish =>
    some { w with
      index := w.index.publish run.targetVersion run.buffer
      running := none
      completed := ⟨run.kernels, run.scanBox⟩ :: w.completed }

/-- The state after an action, when it can happen: one sender runs at a time, and its buffer stays as
it is. -/
def step : LazyAction K d → Option (LazyWorld K d)
  | .create b c =>
    some { w.prepare b c.allocated with
      senders := w.rebuildSender b c.allocated :: w.senders }
  | .start s stale =>
    if w.running.isNone ∧ s ∈ w.senders then { w with senders := w.senders.erase s }.begin s stale
    else none
  | .rebuild b c => if w.running.isNone then w.rebuild b c else none
  | .refreshIfStale b c =>
    if w.running.isNone then
      if w.index.isFresh b (w.buffers b).topologyVersion then some w else w.rebuild b c
    else none
  | .advance c => w.running.bind fun run => w.advance run c
  | .mutate b B =>
    if w.borrowed b = false ∧ B.topologyVersion = (w.buffers b).topologyVersion + 1 then
      some (w.setBuffer b B)
    else none
  | .upload b =>
    if w.borrowed b ∨ (w.buffers b).Uploaded then none
    else some (w.setBuffer b (w.buffers b).hostToDevice)

/-- The index is fresh for a buffer with regions, so its scan is in use. -/
def scanInUse : Bool :=
  w.index.builtBuffer.any fun b =>
    w.index.isFresh b (w.buffers b).topologyVersion && decide ((w.buffers b).size > 0)

/-- The sender that runs relies on the counting buffer of the index: it has counts there that it will
scan, or a scan that it will publish for a version which is still the current one. -/
def scanAwaited (run : RunningSender K d) : Bool :=
  decide (run.numRegions > 0) &&
    (run.stage.beforeScan || run.targetVersion == (w.buffers run.buffer).topologyVersion)

/-- The counting buffer of the index must not be replaced by a call whose sender has to wait. -/
def countsNeeded : Bool :=
  match w.running with
  | none => w.scanInUse
  | some run => w.scanAwaited run

/-- **The condition.**  A sender with regions is started only while the index has the counting buffer
it captured, and a call of `rebuildSender` whose sender has to wait replaces the counting buffer
neither of an index in use nor of a sender that runs. -/
def careful (w : LazyWorld K d) : LazyAction K d → Bool
  | .create b _ => w.index.HasRegionCapacity (max (w.buffers b).size 1) || !w.countsNeeded
  | .start s _ => s.numRegions == 0 || s.countBox == w.generation
  | .rebuild _ _ => true
  | .refreshIfStale _ _ => true
  | .advance _ => true
  | .mutate _ _ => true
  | .upload _ => true

/-- All runs, of the steps that meet a condition, that begin with an index that was never built. -/
def system (ok : LazyWorld K d → LazyAction K d → Bool) : StepSystem (LazyWorld K d) where
  init := fun w => w.index = {} ∧ w.generation = 0 ∧ w.senders = [] ∧ w.running = none ∧
    w.completed = []
  step := fun w w' => ∃ a, ok w a = true ∧ w.step a = some w'

/-- The index describes what is on the device of a buffer. -/
structure Sound (w : LazyWorld K d) (b : BufferId) : Prop where
  uploaded : (w.buffers b).Uploaded
  fits : (frameCounts (w.buffers b).device).sum < 2 ^ 31
  describes : ∃ ptrs regionIdx framesScan,
    Describes w.index (w.buffers b).device ptrs regionIdx framesScan

/-- **Rebuilds are right**: where no sender runs, an index that is fresh for a buffer describes it, and
every sender that completed used one counting buffer. -/
structure Right (w : LazyWorld K d) : Prop where
  fresh : w.running = none → ∀ b,
    w.index.isFresh b (w.buffers b).topologyVersion = true → w.Sound b
  oneBuffer : ∀ r ∈ w.completed, r.OneBuffer

/-! ## The invariant -/

/-- What holds of a sender from its creation on.  Where the version did not change, its number of
regions is right, and where the counting buffer was not replaced, it is large enough. -/
structure Waiting (w : LazyWorld K d) (s : RebuildSender) : Prop where
  version_le : s.targetVersion ≤ (w.buffers s.buffer).topologyVersion
  numRegions : s.targetVersion = (w.buffers s.buffer).topologyVersion →
    s.numRegions = (w.buffers s.buffer).size
  countBox_le : s.countBox ≤ w.generation
  regionCapacity : s.countBox = w.generation → max s.numRegions 1 ≤ w.index.regionCapacity

/-- What the counting buffer of an index holds before each of the first stages. -/
def Counts (idx : FrameIndexBuffer) (regions : List (ParticleRegion K d)) : Stage → Prop
  | .download => ∀ F, idx.framesPerRegion = some F → Counted F.device regions
  | .scan => ∀ F, idx.framesPerRegion = some F → Counted F.host regions
  | _ => True

/-- What holds of the sender that runs.  Before its scan it has the counting buffer it captured, and
after it the one that it scanned; a sender without regions needs none. -/
structure Running (w : LazyWorld K d) (run : RunningSender K d) : Prop where
  waiting : w.Waiting run.toRebuildSender
  uploaded : (w.buffers run.buffer).Uploaded
  fits : (frameCounts (w.buffers run.buffer).device).sum < 2 ^ 31
  length : (w.regions run).length = run.numRegions
  kernels : ∀ g ∈ run.kernels,
    0 < run.numRegions ∧ g = if run.stage.beforeScan then run.countBox else run.scanBox
  before : run.stage.beforeScan = true →
    run.numRegions = 0 ∨ run.countBox = w.generation ∧ Counts w.index (w.regions run) run.stage
  after : run.stage.beforeScan = false →
    run.targetVersion = (w.buffers run.buffer).topologyVersion →
      (run.numRegions = 0 ∨ run.countBox = run.scanBox ∧ run.scanBox = w.generation) ∧
        World.StageInv w.index (w.regions run) run.stage

/-- The part of the invariant that does not speak of the contents of the index. -/
structure Base (w : LazyWorld K d) : Prop where
  /-- The index was not built for a version that is yet to come. -/
  version_le : ∀ b, w.index.builtBuffer = some b →
    w.index.builtVersion ≤ (w.buffers b).topologyVersion
  senders : ∀ s ∈ w.senders, w.Waiting s
  oneBuffer : ∀ r ∈ w.completed, r.OneBuffer

/-- The invariant of a run. -/
structure Inv (w : LazyWorld K d) : Prop extends Base w where
  fresh : w.running = none → ∀ b,
    w.index.isFresh b (w.buffers b).topologyVersion = true → w.Sound b
  running : ∀ run, w.running = some run → w.Running run

variable {w} {w' : LazyWorld K d}

/-! ### Buffers change -/

/-- A buffer that changes gets a new version, or what was missing on the device is uploaded. -/
def Changes (B B' : ParticleRegionBuffer (ParticleRegion K d)) : Prop :=
  B'.topologyVersion = B.topologyVersion + 1 ∨
    (¬ B.Uploaded ∧ B'.topologyVersion = B.topologyVersion ∧ B'.size = B.size)

theorem Changes.le {B B' : ParticleRegionBuffer (ParticleRegion K d)} (h : Changes B B') :
    B.topologyVersion ≤ B'.topologyVersion := by
  rcases h with h | h
  · omega
  · exact h.2.1.ge

theorem Waiting.setBuffer {s : RebuildSender} (h : w.Waiting s) {b : BufferId}
    {B : ParticleRegionBuffer (ParticleRegion K d)} (hB : Changes (w.buffers b) B) :
    (w.setBuffer b B).Waiting s := by
  obtain ⟨hversion, hregions, hbox, hcapacity⟩ := h
  rcases eq_or_ne s.buffer b with rfl | hne
  · have hself : (w.setBuffer s.buffer B).buffers s.buffer = B := Function.update_self ..
    refine ⟨?_, fun heq => ?_, hbox, hcapacity⟩
    · rw [hself]
      exact hversion.trans hB.le
    · rw [hself] at heq ⊢
      rcases hB with hbump | ⟨-, hsame, hsize⟩
      · omega
      · rw [hsize]
        exact hregions (heq.trans hsame)
  · have hother : (w.setBuffer b B).buffers s.buffer = w.buffers s.buffer :=
      Function.update_of_ne hne ..
    refine ⟨?_, ?_, hbox, hcapacity⟩ <;> rwa [hother]

theorem borrowed_eq_false {b : BufferId} (h : w.borrowed b = false) {run : RunningSender K d}
    (hrun : w.running = some run) : run.buffer ≠ b := by
  rw [borrowed, hrun, Option.any_some] at h
  exact fun heq => by simp [heq] at h

/-- A change of a buffer leaves the index no fresher than it was, and the sender that runs alone. -/
theorem Inv.setBuffer (h : w.Inv) {b : BufferId} {B : ParticleRegionBuffer (ParticleRegion K d)}
    (hb : w.borrowed b = false) (hB : Changes (w.buffers b) B) : (w.setBuffer b B).Inv := by
  have hself : (w.setBuffer b B).buffers b = B := Function.update_self ..
  have hother : ∀ {c : BufferId}, c ≠ b → (w.setBuffer b B).buffers c = w.buffers c :=
    fun hne => Function.update_of_ne hne ..
  refine ⟨⟨fun c hc => ?_, fun s hs => (h.senders s hs).setBuffer hB, h.oneBuffer⟩,
    fun hidle c hfresh => ?_, fun run hrun => ?_⟩
  · rcases eq_or_ne c b with rfl | hne
    · rw [hself]
      exact (h.version_le c hc).trans hB.le
    · rw [hother hne]
      exact h.version_le c hc
  · rcases eq_or_ne c b with rfl | hne
    · -- the version the index was built for is gone, or the buffer was not described before
      rw [hself] at hfresh
      obtain ⟨hbuilt, hbuffer, hversion⟩ := FrameIndexBuffer.isFresh_iff.mp hfresh
      change w.index.builtVersion = B.topologyVersion at hversion
      have hbound := h.version_le c hbuffer
      rcases hB with hbump | ⟨hmissing, hsame, -⟩
      · omega
      · have hold := h.fresh hidle c (FrameIndexBuffer.isFresh_iff.mpr
          ⟨hbuilt, hbuffer, hversion.trans hsame⟩)
        exact absurd hold.uploaded hmissing
    · rw [hother hne] at hfresh
      obtain ⟨huploaded, hfits, hdescribes⟩ := h.fresh hidle c hfresh
      refine ⟨?_, ?_, ?_⟩ <;> rwa [hother hne]
  · obtain ⟨hwaiting, huploaded, hfits, hlength, hkernels, hbefore, hafter⟩ := h.running run hrun
    have hsame := hother (borrowed_eq_false hb hrun)
    have hregions : (w.setBuffer b B).regions run = w.regions run := by
      rw [regions, regions, hsame]
    refine ⟨hwaiting.setBuffer hB, ?_, ?_, ?_, hkernels, fun hs => ?_, fun hs hversion => ?_⟩
    · rwa [hsame]
    · rwa [hsame]
    · rwa [hregions]
    · rw [hregions]
      exact hbefore hs
    · rw [hsame] at hversion
      rw [hregions]
      exact hafter hs hversion

/-! ### Senders are created -/

theorem ensureRegionCapacity_of_hasRegionCapacity {needed : ℕ}
    {allocated : HostDeviceBuffer UInt32} (h : w.index.HasRegionCapacity needed) :
    w.ensureRegionCapacity needed allocated = w := by
  have hindex : w.index.ensureRegionCapacity needed allocated = w.index := if_pos h
  rw [ensureRegionCapacity, hindex, if_pos h, if_pos h]

/-- What a call of `rebuildSender` leaves in the index. -/
theorem prepare_index (b : BufferId) (allocated : HostDeviceBuffer UInt32) :
    (w.prepare b allocated).index =
      w.index.ensureRegionCapacity (max (w.buffers b).size 1) allocated :=
  rfl

/-- It replaces the counting buffer, and nothing else. -/
theorem prepare_index_eq (b : BufferId) (allocated : HostDeviceBuffer UInt32) :
    (w.prepare b allocated).index =
      { w.index with
        regionCapacity := (w.prepare b allocated).index.regionCapacity
        framesPerRegion := (w.prepare b allocated).index.framesPerRegion } := by
  rw [prepare_index, FrameIndexBuffer.ensureRegionCapacity]
  split <;> rfl

theorem le_prepare_generation (b : BufferId) (allocated : HostDeviceBuffer UInt32) :
    w.generation ≤ (w.prepare b allocated).generation := by
  show _ ≤ ite _ _ _
  split <;> omega

theorem Waiting.prepare {s : RebuildSender} (h : w.Waiting s) (b : BufferId)
    (allocated : HostDeviceBuffer UInt32) : (w.prepare b allocated).Waiting s := by
  obtain ⟨hversion, hregions, hbox, hcapacity⟩ := h
  refine ⟨hversion, hregions, hbox.trans (le_prepare_generation b allocated), fun heq => ?_⟩
  by_cases hroom : w.index.HasRegionCapacity (max (w.buffers b).size 1)
  · rw [LazyWorld.prepare, ensureRegionCapacity_of_hasRegionCapacity hroom] at heq ⊢
    exact hcapacity heq
  · -- the buffer was replaced, so it is not the captured one
    have hnew : (w.prepare b allocated).generation = w.generation + 1 := if_neg hroom
    omega

theorem Base.prepare (h : w.Base) (b : BufferId) (allocated : HostDeviceBuffer UInt32) :
    (w.prepare b allocated).Base := by
  refine ⟨fun b' hb' => ?_, fun s hs => (h.senders s hs).prepare b allocated, h.oneBuffer⟩
  rw [prepare_index, FrameIndexBuffer.ensureRegionCapacity_builtBuffer] at hb'
  rw [prepare_index, FrameIndexBuffer.ensureRegionCapacity_builtVersion]
  exact h.version_le b' hb'

/-- A sender that was just created. -/
theorem waiting_rebuildSender (w : LazyWorld K d) (b : BufferId)
    (allocated : HostDeviceBuffer UInt32) :
    (w.prepare b allocated).Waiting (w.rebuildSender b allocated) :=
  ⟨le_rfl, fun _ => rfl, le_rfl, fun _ => (w.index.ensureRegionCapacity_spec _ allocated).2⟩

theorem prepare_isFresh (b : BufferId) (allocated : HostDeviceBuffer UInt32) (b' : BufferId)
    (version : ℕ) :
    (w.prepare b allocated).index.isFresh b' version = w.index.isFresh b' version := by
  rw [prepare_index_eq]
  rfl

/-- Without regions there is nothing to scan and nothing to fill. -/
theorem stageInv_of_empty {idx : FrameIndexBuffer} {regions : List (ParticleRegion K d)}
    (hempty : regions.length = 0) {s : Stage} (hs : s.beforeScan = false) :
    World.StageInv idx regions s ↔
      (∃ F, idx.framesPerRegion = some F) ∧ idx.HasRoom regions := by
  cases s with
  | count => cases hs
  | download => cases hs
  | scan => cases hs
  | upload => exact and_congr_left fun _ => exists_congr fun F => and_iff_left fun r hr => by omega
  | fill => exact and_congr_left fun _ => exists_congr fun F => and_iff_left fun r hr => by omega
  | publish =>
    constructor
    · rintro ⟨ptrs, regionIdx, framesScan, hdescribes⟩
      obtain ⟨F, hF, -⟩ := hdescribes.framesPerRegion
      exact ⟨⟨F, hF⟩, ⟨ptrs, hdescribes.framePtrs⟩, ⟨regionIdx, hdescribes.regionIdxPerFrame⟩,
        hdescribes.totalFrames, hdescribes.frameCapacity⟩
    · rintro ⟨⟨F, hF⟩, ⟨ptrs, hptrs⟩, ⟨regionIdx, hidx⟩, htotal, hcapacity⟩
      refine ⟨ptrs, regionIdx, F.device, hptrs, hidx, ⟨F, hF, rfl⟩, htotal, hcapacity, by omega,
        fun r hr => absurd hr (by omega), fun r i region frame hr => ?_⟩
      rw [List.length_eq_zero_iff.mp hempty] at hr
      cases hr

/-- A new counting buffer does no harm where there are no regions. -/
theorem stageInv_prepare_of_empty {regions : List (ParticleRegion K d)}
    (hempty : regions.length = 0) {s : Stage} (hs : s.beforeScan = false)
    (h : World.StageInv w.index regions s) (b : BufferId) (allocated : HostDeviceBuffer UInt32) :
    World.StageInv (w.prepare b allocated).index regions s := by
  obtain ⟨-, hroom⟩ := (stageInv_of_empty hempty hs).mp h
  refine (stageInv_of_empty hempty hs).mpr
    ⟨(w.index.ensureRegionCapacity_spec _ allocated).1, ?_⟩
  rw [prepare_index_eq]
  exact ⟨hroom.framePtrs, hroom.regionIdxPerFrame, hroom.totalFrames, hroom.frameCapacity⟩

/-- Nor does it to an index that was built without regions. -/
theorem Sound.prepare_of_size_eq_zero {b' : BufferId} (h : w.Sound b')
    (hsize : (w.buffers b').size = 0) (b : BufferId) (allocated : HostDeviceBuffer UInt32) :
    (w.prepare b allocated).Sound b' :=
  ⟨h.uploaded, h.fits, stageInv_prepare_of_empty (s := .publish) (Eq.trans h.uploaded hsize) rfl
    h.describes b allocated⟩

/-- A sender that runs does not notice that its counting buffer is replaced, where it does not rely on
it any more. -/
theorem Running.prepare {run : RunningSender K d} (h : w.Running run)
    (hawaited : w.scanAwaited run = false) (b : BufferId) (allocated : HostDeviceBuffer UInt32) :
    (w.prepare b allocated).Running run := by
  obtain ⟨hwaiting, huploaded, hfits, hlength, hkernels, -, hafter⟩ := h
  rw [scanAwaited, Bool.and_eq_false_iff, decide_eq_false_iff_not, Bool.or_eq_false_iff,
    beq_eq_false_iff_ne] at hawaited
  refine ⟨hwaiting.prepare b allocated, huploaded, hfits, hlength, hkernels, fun hs => ?_,
    fun hs hversion => ?_⟩
  · refine Or.inl ?_
    rcases hawaited with hzero | ⟨hbefore, -⟩
    · omega
    · exact absurd (hs.symm.trans hbefore) nofun
  · rcases hawaited with hzero | ⟨-, hne⟩
    · have hempty : (w.regions run).length = 0 := by omega
      exact ⟨Or.inl (by omega),
        stageInv_prepare_of_empty hempty hs (hafter hs hversion).2 b allocated⟩
    · exact absurd hversion hne

theorem Waiting.setSenders {s : RebuildSender} (h : w.Waiting s) (l : List RebuildSender) :
    Waiting { w with senders := l } s := ⟨h.1, h.2, h.3, h.4⟩

theorem Running.setSenders {run : RunningSender K d} (h : w.Running run) (l : List RebuildSender) :
    Running { w with senders := l } run := by
  obtain ⟨hwaiting, huploaded, hfits, hlength, hkernels, hbefore, hafter⟩ := h
  exact ⟨hwaiting.setSenders l, huploaded, hfits, hlength, hkernels, hbefore, hafter⟩

/-- **A careful creation keeps the invariant.** -/
theorem Inv.create (h : w.Inv) {b : BufferId} {c : Choices}
    (hok : careful w (.create b c) = true) :
    Inv { w.prepare b c.allocated with senders := w.rebuildSender b c.allocated :: w.senders } := by
  have hbase := h.toBase.prepare b c.allocated
  have hneeded : ¬ w.index.HasRegionCapacity (max (w.buffers b).size 1) →
      w.countsNeeded = false := fun hroom => by simpa [careful, hroom] using hok
  refine ⟨⟨hbase.version_le, fun s hs => ?_, hbase.oneBuffer⟩, fun hidle b' hfresh => ?_,
    fun run hrun => ?_⟩
  · rcases List.mem_cons.mp hs with rfl | hs
    · exact (w.waiting_rebuildSender b c.allocated).setSenders _
    · exact (hbase.senders s hs).setSenders _
  · change (w.prepare b c.allocated).index.isFresh b' _ = true at hfresh
    rw [prepare_isFresh] at hfresh
    have hold := h.fresh hidle b' hfresh
    have hnew : (w.prepare b c.allocated).Sound b' := by
      by_cases hroom : w.index.HasRegionCapacity (max (w.buffers b).size 1)
      · rwa [LazyWorld.prepare, ensureRegionCapacity_of_hasRegionCapacity hroom]
      · refine hold.prepare_of_size_eq_zero (Nat.eq_zero_of_not_pos fun hpos => ?_) b c.allocated
        -- the index would be in use
        have huse : w.countsNeeded = true := by
          have hrunning : w.running = none := hidle
          obtain ⟨-, hbuffer, -⟩ := FrameIndexBuffer.isFresh_iff.mp hfresh
          rw [countsNeeded, hrunning]
          dsimp only
          rw [scanInUse, hbuffer, Option.any_some, Bool.and_eq_true, decide_eq_true_eq]
          exact ⟨hfresh, hpos⟩
        exact absurd (huse.symm.trans (hneeded hroom)) nofun
    exact ⟨hnew.uploaded, hnew.fits, hnew.describes⟩
  · have hrunning : w.running = some run := hrun
    refine Running.setSenders ?_ _
    by_cases hroom : w.index.HasRegionCapacity (max (w.buffers b).size 1)
    · rw [LazyWorld.prepare, ensureRegionCapacity_of_hasRegionCapacity hroom]
      exact h.running run hrunning
    · have hawaited := hneeded hroom
      rw [countsNeeded, hrunning] at hawaited
      exact (h.running run hrunning).prepare hawaited b c.allocated

/-! ### Senders are started -/

/-- **A sender that is started with the counting buffer it captured**, whatever the index held before. -/
theorem Base.begin (h : w.Base) {s : RebuildSender} (hs : w.Waiting s)
    {stale : List (ParticleRegion K d)} (hok : s.numRegions = 0 ∨ s.countBox = w.generation)
    (hbegin : w.begin s stale = some w') : w'.Inv := by
  unfold LazyWorld.begin at hbegin
  dsimp only at hbegin
  split at hbegin
  · next hguard =>
    obtain ⟨huploaded, hfits, hlength⟩ := hguard
    obtain rfl := Option.some.inj hbegin
    refine ⟨⟨h.version_le, fun t ht => ?_, h.oneBuffer⟩, nofun, fun run hrun => ?_⟩
    · obtain ⟨hversion, hregions, hbox, hcapacity⟩ := h.senders t ht
      exact ⟨hversion, hregions, hbox, hcapacity⟩
    · obtain rfl := Option.some.inj hrun
      obtain ⟨hversion, hregions, hbox, hcapacity⟩ := hs
      exact ⟨⟨hversion, hregions, hbox, hcapacity⟩, huploaded, hfits, hlength, nofun,
        fun _ => hok.imp_right fun heq => ⟨heq, trivial⟩, nofun⟩
  · cases hbegin

/-- A sender that is started at once finds the buffer it captured. -/
theorem Inv.rebuild (h : w.Inv) {b : BufferId} {c : Choices} (hrebuild : w.rebuild b c = some w') :
    w'.Inv :=
  (h.toBase.prepare b c.allocated).begin (w.waiting_rebuildSender b c.allocated) (Or.inr rfl)
    hrebuild

/-! ### Senders run -/

/-- What the stages before the last leave alone. -/
structure Keeps (w w' : LazyWorld K d) : Prop where
  buffers : w'.buffers = w.buffers
  generation : w'.generation = w.generation
  senders : w'.senders = w.senders
  completed : w'.completed = w.completed
  build : w.index.SameBuild w'.index

theorem Keeps.setRunning (h : w.Keeps w') (running : Option (RunningSender K d)) :
    w.Keeps { w' with running := running } := ⟨h.1, h.2, h.3, h.4, h.5⟩

theorem Keeps.waiting (h : w.Keeps w') {s : RebuildSender} (hs : w.Waiting s) : w'.Waiting s := by
  obtain ⟨hversion, hregions, hbox, hcapacity⟩ := hs
  refine ⟨?_, ?_, ?_, ?_⟩
  · rwa [h.buffers]
  · rwa [h.buffers]
  · rwa [h.generation]
  · rwa [h.generation, h.build.regionCapacity]

theorem Keeps.base (h : w.Keeps w') (hbase : w.Base) : w'.Base := by
  refine ⟨fun b hb => ?_, fun s hs => h.waiting (hbase.senders s (h.senders ▸ hs)), fun r hr => ?_⟩
  · rw [h.build.builtBuffer] at hb
    rw [h.build.builtVersion, h.buffers]
    exact hbase.version_le b hb
  · rw [h.completed] at hr
    exact hbase.oneBuffer r hr

theorem onCountBuffer_of_eq {g : ℕ} (h : g = w.generation) (f : FrameIndexBuffer → FrameIndexBuffer) :
    w.onCountBuffer g f = { w with index := f w.index } :=
  if_pos h

theorem onCountBuffer_index_of_ne {g : ℕ} (h : g ≠ w.generation)
    (f : FrameIndexBuffer → FrameIndexBuffer) : (w.onCountBuffer g f).index = w.index := by
  rw [onCountBuffer, if_neg h]

theorem keeps_onCountBuffer (w : LazyWorld K d) (g : ℕ) {f : FrameIndexBuffer → FrameIndexBuffer}
    (hf : ∀ idx : FrameIndexBuffer, idx.SameBuild (f idx)) : w.Keeps (w.onCountBuffer g f) := by
  unfold onCountBuffer
  split
  · exact ⟨rfl, rfl, rfl, rfl, hf w.index⟩
  · exact ⟨rfl, rfl, rfl, rfl, rfl, rfl, rfl⟩

theorem sameBuild_count (regions : List (ParticleRegion K d)) (idx : FrameIndexBuffer) :
    idx.SameBuild (idx.count regions) := by
  unfold FrameIndexBuffer.count
  split <;> exact ⟨rfl, rfl, rfl⟩

/-- After the count kernel the counting buffer, if there is one, holds the counts. -/
theorem counted_of_count {idx : FrameIndexBuffer} {regions : List (ParticleRegion K d)}
    {F : HostDeviceBuffer UInt32} (hF : (idx.count regions).framesPerRegion = some F) :
    Counted F.device regions := by
  cases hold : idx.framesPerRegion with
  | none =>
    unfold FrameIndexBuffer.count at hF
    split at hF
    · rw [hold] at hF
      cases hF
    · rw [hold] at hF
      cases hF
  | some F₀ =>
    obtain ⟨⟨F', hF', hcounted⟩, -⟩ := FrameIndexBuffer.count_spec regions hold
    obtain rfl := Option.some.inj (hF'.symm.trans hF)
    exact hcounted

theorem fill_of_empty {regions : List (ParticleRegion K d)} (hempty : regions.length = 0)
    (scanBox : ℕ) (c : Choices) : w.fill scanBox regions c = some w.index := by
  rw [fill, FrameIndexBuffer.fill, if_neg (by omega)]
  rfl

/-- The fill kernel leaves the counting buffers alone. -/
theorem fill_framesPerRegion {idx idx' : FrameIndexBuffer} {regions : List (ParticleRegion K d)}
    {ptrOrder : List (ℕ × FramePtr)} {idxOrder : List (ℕ × UInt32)}
    (h : idx.fill regions ptrOrder idxOrder = some idx') :
    idx'.framesPerRegion = idx.framesPerRegion := by
  unfold FrameIndexBuffer.fill at h
  split at h
  · split at h
    · cases h
    · dsimp only at h
      split at h
      · obtain rfl := Option.some.inj h
        rfl
      · cases h
  · obtain rfl := Option.some.inj h
    rfl

theorem fill_of_eq {regions : List (ParticleRegion K d)} {scanBox : ℕ} {c : Choices}
    {idx : FrameIndexBuffer} (hbox : scanBox = w.generation)
    (h : w.fill scanBox regions c = some idx) :
    w.index.fill regions c.ptrOrder c.idxOrder = some idx := by
  rw [fill, countBuffer, if_pos hbox] at h
  obtain ⟨filled, hfill, rfl⟩ := Option.map_eq_some_iff.mp h
  have hsame : filled.framesPerRegion = w.index.framesPerRegion := fill_framesPerRegion hfill
  rw [← hsame]
  exact hfill

theorem keeps_fill {regions : List (ParticleRegion K d)} {scanBox : ℕ} {c : Choices}
    {idx : FrameIndexBuffer} (h : w.fill scanBox regions c = some idx) :
    w.Keeps { w with index := idx } := by
  obtain ⟨filled, hfill, rfl⟩ := Option.map_eq_some_iff.mp h
  have hsame := FrameIndexBuffer.sameBuild_fill hfill
  exact ⟨rfl, rfl, rfl, rfl, hsame.builtVersion, hsame.builtBuffer, hsame.regionCapacity⟩

/-- Where nothing was mutated since the sender was created, it looks at the regions of its buffer. -/
theorem Running.regions_eq {run : RunningSender K d} (h : w.Running run)
    (hversion : run.targetVersion = (w.buffers run.buffer).topologyVersion) :
    w.regions run = (w.buffers run.buffer).device := by
  have hsize : (w.buffers run.buffer).device.length = run.numRegions :=
    Eq.trans h.uploaded (h.waiting.numRegions hversion).symm
  rw [regions, ← hsize, List.take_left]

/-- A stage before the last: what it does to the index and the record is all that has to be checked. -/
theorem Inv.stage (h : w.Inv) {run run' : RunningSender K d} (hrun : w.running = some run)
    (hkeeps : w.Keeps w') (hrun' : w'.running = some run')
    (hsender : run'.toRebuildSender = run.toRebuildSender) (hstale : run'.stale = run.stale)
    (hkernels : ∀ g ∈ run'.kernels,
      0 < run.numRegions ∧ g = if run'.stage.beforeScan then run.countBox else run'.scanBox)
    (hbefore : run'.stage.beforeScan = true → run.numRegions = 0 ∨
      run.countBox = w.generation ∧ Counts w'.index (w.regions run) run'.stage)
    (hafter : run'.stage.beforeScan = false →
      run.targetVersion = (w.buffers run.buffer).topologyVersion →
        (run.numRegions = 0 ∨ run.countBox = run'.scanBox ∧ run'.scanBox = w.generation) ∧
          World.StageInv w'.index (w.regions run) run'.stage) : w'.Inv := by
  obtain ⟨hwaiting, huploaded, hfits, hlength, -, -, -⟩ := h.running run hrun
  have hregions : w'.regions run' = w.regions run := by
    rw [regions, regions, hsender, hstale, hkeeps.buffers]
  refine ⟨hkeeps.base h.toBase, fun hidle => (nomatch hrun'.symm.trans hidle), fun run'' hrun'' => ?_⟩
  obtain rfl := Option.some.inj (hrun'.symm.trans hrun'')
  rw [← hsender] at hkernels hbefore hafter huploaded hfits hlength hwaiting
  rw [← hkeeps.buffers] at huploaded hfits hafter
  rw [← hkeeps.generation] at hbefore hafter
  rw [← hregions] at hlength hbefore hafter
  exact ⟨hkeeps.waiting hwaiting, huploaded, hfits, hlength, hkernels, hbefore, hafter⟩

theorem Inv.advance_count (h : w.Inv) {run : RunningSender K d} (hrun : w.running = some run)
    (hs : run.stage = .count) {c : Choices} (hadv : w.advance run c = some w') : w'.Inv := by
  obtain ⟨-, -, -, -, -, hbefore, -⟩ := h.running run hrun
  unfold LazyWorld.advance at hadv
  rw [hs] at hadv hbefore
  obtain rfl := Option.some.inj hadv
  refine h.stage hrun ((w.keeps_onCountBuffer run.countBox (sameBuild_count _)).setRunning _) rfl
    rfl rfl (fun g hg => ?_) (fun _ => ?_) nofun
  · dsimp only at hg
    split at hg
    · next hpos => exact ⟨hpos, List.mem_singleton.mp hg⟩
    · cases hg
  · refine (hbefore rfl).imp_right fun hcounts => ⟨hcounts.1, fun F hF => ?_⟩
    rw [onCountBuffer_of_eq hcounts.1] at hF
    exact counted_of_count hF

theorem Inv.advance_download (h : w.Inv) {run : RunningSender K d} (hrun : w.running = some run)
    (hs : run.stage = .download) {c : Choices} (hadv : w.advance run c = some w') : w'.Inv := by
  obtain ⟨-, -, -, -, hkernels, hbefore, -⟩ := h.running run hrun
  unfold LazyWorld.advance at hadv
  rw [hs] at hadv hbefore hkernels
  obtain rfl := Option.some.inj hadv
  refine h.stage hrun ((w.keeps_onCountBuffer run.countBox (f := FrameIndexBuffer.deviceToHost)
    fun _ => ⟨rfl, rfl, rfl⟩).setRunning _) rfl rfl rfl hkernels (fun _ => ?_) nofun
  refine (hbefore rfl).imp_right fun hcounts => ⟨hcounts.1, fun F hF => ?_⟩
  rw [onCountBuffer_of_eq hcounts.1] at hF
  obtain ⟨G, hG, rfl⟩ := Option.map_eq_some_iff.mp hF
  exact hcounts.2 G hG

theorem Inv.advance_scan (h : w.Inv) {run : RunningSender K d} (hrun : w.running = some run)
    (hs : run.stage = .scan) {c : Choices} (hadv : w.advance run c = some w') : w'.Inv := by
  obtain ⟨-, -, -, hlength, hkernels, hbefore, -⟩ := h.running run hrun
  unfold LazyWorld.advance at hadv
  rw [hs] at hadv hbefore hkernels
  obtain ⟨idx, hidx, rfl⟩ := Option.map_eq_some_iff.mp hadv
  obtain ⟨⟨F, hF⟩, hsame⟩ := FrameIndexBuffer.sameBuild_scan hidx
  have hkeeps : w.Keeps { w with index := idx } := ⟨rfl, rfl, rfl, rfl, hsame⟩
  refine h.stage hrun
    (hkeeps.setRunning (some { run with stage := .upload, scanBox := w.generation }))
    rfl rfl rfl (fun g hg => ?_) nofun fun _ hversion => ?_
  · obtain ⟨hpos, rfl⟩ := hkernels g hg
    exact ⟨hpos, ((hbefore rfl).resolve_left hpos.ne').1⟩
  · have hfits : (frameCounts (w.regions run)).sum < 2 ^ 31 := by
      rw [(h.running run hrun).regions_eq hversion]
      exact (h.running run hrun).fits
    have hcounted : Counted F.host (w.regions run) := by
      rcases hbefore rfl with hzero | hcounts
      · exact fun r hr => absurd hr (by omega)
      · exact hcounts.2 F hF
    rw [← hlength] at hidx
    exact ⟨(hbefore rfl).imp_right fun hcounts => ⟨hcounts.1, rfl⟩,
      (FrameIndexBuffer.scan_spec hF hcounted hfits hidx).1⟩

theorem Inv.advance_upload (h : w.Inv) {run : RunningSender K d} (hrun : w.running = some run)
    (hs : run.stage = .upload) {c : Choices} (hadv : w.advance run c = some w') : w'.Inv := by
  obtain ⟨-, -, -, hlength, hkernels, -, hafter⟩ := h.running run hrun
  unfold LazyWorld.advance at hadv
  rw [hs] at hadv hafter hkernels
  obtain rfl := Option.some.inj hadv
  refine h.stage hrun ((w.keeps_onCountBuffer run.scanBox (f := FrameIndexBuffer.hostToDevice)
    fun _ => ⟨rfl, rfl, rfl⟩).setRunning _) rfl rfl rfl hkernels nofun fun _ hversion => ?_
  obtain ⟨hbox, hstage⟩ := hafter rfl hversion
  refine ⟨hbox, ?_⟩
  change World.StageInv (w.onCountBuffer _ _).index _ _
  by_cases heq : run.scanBox = w.generation
  · rw [onCountBuffer_of_eq heq]
    obtain ⟨⟨F, hF, hscanned⟩, hroom⟩ := hstage
    refine ⟨⟨{ F with device := F.host }, ?_, hscanned⟩, hroom.1, hroom.2, hroom.3, hroom.4⟩
    exact congrArg (Option.map _) hF
  · have hempty : (w.regions run).length = 0 :=
      hlength.trans (hbox.resolve_right fun hboth => heq hboth.2)
    rw [onCountBuffer_index_of_ne heq]
    exact (stageInv_of_empty hempty rfl).mpr ((stageInv_of_empty hempty rfl).mp hstage)

theorem Inv.advance_fill (h : w.Inv) {run : RunningSender K d} (hrun : w.running = some run)
    (hs : run.stage = .fill) {c : Choices} (hadv : w.advance run c = some w') : w'.Inv := by
  obtain ⟨-, -, -, hlength, hkernels, -, hafter⟩ := h.running run hrun
  unfold LazyWorld.advance at hadv
  rw [hs] at hadv hafter hkernels
  obtain ⟨idx, hidx, rfl⟩ := Option.map_eq_some_iff.mp hadv
  refine h.stage hrun ((keeps_fill hidx).setRunning _) rfl rfl rfl (fun g hg => ?_) nofun
    fun _ hversion => ?_
  · dsimp only at hg
    split at hg
    · next hlaunched =>
      rcases List.mem_cons.mp hg with rfl | hg
      · exact ⟨hlaunched.1, rfl⟩
      · exact hkernels g hg
    · exact hkernels g hg
  · obtain ⟨hbox, hstage⟩ := hafter rfl hversion
    refine ⟨hbox, ?_⟩
    rcases hbox with hzero | ⟨hsame, heq⟩
    · have hempty : (w.regions run).length = 0 := hlength.trans hzero
      rw [fill_of_empty hempty] at hidx
      obtain rfl := Option.some.inj hidx
      exact (stageInv_of_empty hempty rfl).mpr ((stageInv_of_empty hempty rfl).mp hstage)
    · obtain ⟨⟨F, hF, hscanned⟩, hroom⟩ := hstage
      have hinv := h.running run hrun
      have hfits : (frameCounts (w.regions run)).sum < 2 ^ 31 := by
        rw [hinv.regions_eq hversion]
        exact hinv.fits
      have hcapacity := hinv.waiting.regionCapacity (hsame.trans heq)
      exact (FrameIndexBuffer.fill_spec hF hscanned hroom (by omega) hfits
        (fill_of_eq heq hidx)).1

theorem Inv.advance_publish (h : w.Inv) {run : RunningSender K d} (hrun : w.running = some run)
    (hs : run.stage = .publish) {c : Choices} (hadv : w.advance run c = some w') : w'.Inv := by
  obtain ⟨-, -, -, -, hkernels, -, hafter⟩ := h.running run hrun
  unfold LazyWorld.advance at hadv
  rw [hs] at hadv hafter hkernels
  obtain rfl := Option.some.inj hadv
  have hinv := h.running run hrun
  have hbuilt : (w.index.publish run.targetVersion run.buffer).builtBuffer = some run.buffer := rfl
  refine ⟨⟨fun b hb => ?_, fun s hs => ?_, fun r hr => ?_⟩, fun _ b hfresh => ?_, nofun⟩
  · obtain rfl := Option.some.inj (hbuilt.symm.trans hb)
    exact hinv.waiting.version_le
  · obtain ⟨hversion, hregions, hcountBox, hcapacity⟩ := h.senders s hs
    exact ⟨hversion, hregions, hcountBox, hcapacity⟩
  · rcases List.mem_cons.mp hr with rfl | hr
    · exact fun g hg => (hkernels g hg).2
    · exact h.oneBuffer r hr
  · obtain ⟨-, hb, hversion⟩ := FrameIndexBuffer.isFresh_iff.mp hfresh
    obtain rfl := Option.some.inj (hbuilt.symm.trans hb)
    obtain ⟨-, ptrs, regionIdx, framesScan, hdescribes⟩ := hafter rfl hversion
    rw [hinv.regions_eq hversion] at hdescribes
    exact ⟨hinv.uploaded, hinv.fits, ptrs, regionIdx, framesScan, hdescribes.1, hdescribes.2,
      hdescribes.3, hdescribes.4, hdescribes.5, hdescribes.6, hdescribes.7, hdescribes.8⟩

/-- **Every stage of a sender keeps the invariant.** -/
theorem Inv.advance (h : w.Inv) {run : RunningSender K d} (hrun : w.running = some run) {c : Choices}
    (hadv : w.advance run c = some w') : w'.Inv := by
  cases hs : run.stage with
  | count => exact h.advance_count hrun hs hadv
  | download => exact h.advance_download hrun hs hadv
  | scan => exact h.advance_scan hrun hs hadv
  | upload => exact h.advance_upload hrun hs hadv
  | fill => exact h.advance_fill hrun hs hadv
  | publish => exact h.advance_publish hrun hs hadv

/-- **Every careful step keeps the invariant.** -/
theorem Inv.step (h : w.Inv) {a : LazyAction K d} (hok : careful w a = true)
    (hstep : w.step a = some w') : w'.Inv := by
  cases a with
  | create b c =>
    obtain rfl := Option.some.inj hstep
    exact h.create hok
  | start s stale =>
    rw [LazyWorld.step] at hstep
    split at hstep
    · next hguard =>
      have hbase : Base { w with senders := w.senders.erase s } :=
        ⟨h.version_le, fun t ht => (h.senders t (List.mem_of_mem_erase ht)).setSenders _,
          h.oneBuffer⟩
      refine hbase.begin ((h.senders s hguard.2).setSenders _) ?_ hstep
      simpa [careful] using hok
    · cases hstep
  | rebuild b c =>
    rw [LazyWorld.step] at hstep
    split at hstep
    · exact h.rebuild hstep
    · cases hstep
  | refreshIfStale b c =>
    rw [LazyWorld.step] at hstep
    split at hstep
    · split at hstep
      · obtain rfl := Option.some.inj hstep
        exact h
      · exact h.rebuild hstep
    · cases hstep
  | advance c =>
    obtain ⟨run, hrun, hadv⟩ := Option.bind_eq_some_iff.mp hstep
    exact h.advance hrun hadv
  | mutate b B =>
    rw [LazyWorld.step] at hstep
    split at hstep
    · next hguard =>
      obtain rfl := Option.some.inj hstep
      exact h.setBuffer hguard.1 (Or.inl hguard.2)
    · cases hstep
  | upload b =>
    rw [LazyWorld.step] at hstep
    split at hstep
    · cases hstep
    · next hguard =>
      obtain ⟨hborrowed, hmissing⟩ := not_or.mp hguard
      obtain rfl := Option.some.inj hstep
      exact h.setBuffer (by simpa using hborrowed) (Or.inr ⟨hmissing, rfl, rfl⟩)

theorem inv_of_reachable (h : (system (careful (K := K) (d := d))).Reachable w) : w.Inv := by
  refine h.invariant (fun w hw => ?_) fun w w' _ hinv hst => ?_
  · obtain ⟨hindex, -, hsenders, hrunning, hcompleted⟩ := hw
    refine ⟨⟨fun b hb => ?_, fun s hs => ?_, fun r hr => ?_⟩, fun _ b hfresh => ?_, fun run hrun => ?_⟩
    · rw [hindex] at hb
      cases hb
    · rw [hsenders] at hs
      cases hs
    · rw [hcompleted] at hr
      cases hr
    · rw [hindex] at hfresh
      cases hfresh
    · rw [hrunning] at hrun
      cases hrun
  · obtain ⟨a, hok, ha⟩ := hst
    exact hinv.step hok ha

/-! ### Senders that lost their buffer -/

/-- The counting buffer of a sender with regions was replaced before it was scanned. -/
structure Lost (w : LazyWorld K d) (run : RunningSender K d) : Prop where
  regions : 0 < run.numRegions
  replaced : run.countBox < if run.stage.beforeScan then w.generation else run.scanBox
  counted : run.stage ≠ .count → run.countBox ∈ run.kernels

/-- A start that is not careful loses the buffer. -/
theorem lost_of_start {s : RebuildSender} {stale : List (ParticleRegion K d)}
    (hregions : 0 < s.numRegions) (hreplaced : s.countBox < w.generation)
    (hstep : w.step (.start s stale) = some w') : ∃ run, w'.running = some run ∧ w'.Lost run := by
  rw [LazyWorld.step] at hstep
  split at hstep
  · unfold LazyWorld.begin at hstep
    dsimp only at hstep
    split at hstep
    · obtain rfl := Option.some.inj hstep
      exact ⟨_, rfl, hregions, hreplaced, fun hne => absurd rfl hne⟩
    · cases hstep
  · cases hstep

theorem Lost.of_generation_le {run : RunningSender K d} (h : w.Lost run)
    (hle : w.generation ≤ w'.generation) : w'.Lost run := by
  refine ⟨h.regions, h.replaced.trans_le ?_, h.counted⟩
  split
  · exact hle
  · exact le_rfl

/-- So does a creation that replaces the counting buffer before the scan. -/
theorem lost_of_create {run : RunningSender K d} (hrun : w.running = some run)
    (hregions : 0 < run.numRegions) (hscan : run.stage.beforeScan = true)
    (hbox : run.countBox = w.generation) (hcounted : run.stage ≠ .count → run.countBox ∈ run.kernels)
    {b : BufferId} {c : Choices} (hroom : ¬ w.index.HasRegionCapacity (max (w.buffers b).size 1))
    (hstep : w.step (.create b c) = some w') : w'.running = some run ∧ w'.Lost run := by
  obtain rfl := Option.some.inj hstep
  have hnew : (w.prepare b c.allocated).generation = w.generation + 1 := if_neg hroom
  refine ⟨hrun, hregions, ?_, hcounted⟩
  rw [if_pos hscan]
  exact (hbox.trans_lt (Nat.lt_succ_self _)).trans_eq hnew.symm

theorem onCountBuffer_generation (g : ℕ) (f : FrameIndexBuffer → FrameIndexBuffer) :
    (w.onCountBuffer g f).generation = w.generation := by
  unfold onCountBuffer
  split <;> rfl

/-- **A sender that lost its buffer uses two**, whatever the steps until it completes. -/
theorem Lost.step {run : RunningSender K d} (hrun : w.running = some run) (h : w.Lost run)
    {a : LazyAction K d} (hstep : w.step a = some w') :
    (∃ run', w'.running = some run' ∧ w'.Lost run') ∨
      ∃ r, w'.completed = r :: w.completed ∧ ¬ r.OneBuffer := by
  have hbusy : ¬ w.running.isNone := by simp [hrun]
  cases a with
  | create b c =>
    obtain rfl := Option.some.inj hstep
    exact Or.inl ⟨run, hrun, h.of_generation_le (le_prepare_generation b c.allocated)⟩
  | start s stale =>
    rw [LazyWorld.step, if_neg fun hguard => hbusy hguard.1] at hstep
    cases hstep
  | rebuild b c =>
    rw [LazyWorld.step, if_neg hbusy] at hstep
    cases hstep
  | refreshIfStale b c =>
    rw [LazyWorld.step, if_neg hbusy] at hstep
    cases hstep
  | advance c =>
    rw [LazyWorld.step, hrun, Option.bind_some] at hstep
    obtain ⟨hregions, hreplaced, hcounted⟩ := h
    unfold LazyWorld.advance at hstep
    cases hs : run.stage with
    | count =>
      rw [hs] at hstep hreplaced
      obtain rfl := Option.some.inj hstep
      refine Or.inl ⟨_, rfl, hregions, ?_, fun _ => ?_⟩
      · exact hreplaced.trans_eq (onCountBuffer_generation _ _).symm
      · rw [if_pos hregions]
        exact List.mem_singleton_self _
    | download =>
      rw [hs] at hstep hreplaced hcounted
      obtain rfl := Option.some.inj hstep
      exact Or.inl ⟨_, rfl, hregions, hreplaced.trans_eq (onCountBuffer_generation _ _).symm,
        fun _ => hcounted nofun⟩
    | scan =>
      rw [hs] at hstep hreplaced hcounted
      obtain ⟨idx, -, rfl⟩ := Option.map_eq_some_iff.mp hstep
      exact Or.inl ⟨_, rfl, hregions, hreplaced, fun _ => hcounted nofun⟩
    | upload =>
      rw [hs] at hstep hreplaced hcounted
      obtain rfl := Option.some.inj hstep
      exact Or.inl ⟨_, rfl, hregions, hreplaced, fun _ => hcounted nofun⟩
    | fill =>
      rw [hs] at hstep hreplaced hcounted
      obtain ⟨idx, -, rfl⟩ := Option.map_eq_some_iff.mp hstep
      refine Or.inl ⟨_, rfl, hregions, hreplaced, fun _ => ?_⟩
      dsimp only
      split
      · exact List.mem_cons_of_mem _ (hcounted nofun)
      · exact hcounted nofun
    | publish =>
      rw [hs] at hstep hreplaced hcounted
      obtain rfl := Option.some.inj hstep
      exact Or.inr ⟨_, rfl, fun hone => hreplaced.ne (hone _ (hcounted nofun))⟩
  | mutate b B =>
    rw [LazyWorld.step] at hstep
    split at hstep
    · obtain rfl := Option.some.inj hstep
      exact Or.inl ⟨run, hrun, h.of_generation_le le_rfl⟩
    · cases hstep
  | upload b =>
    rw [LazyWorld.step] at hstep
    split at hstep
    · cases hstep
    · obtain rfl := Option.some.inj hstep
      exact Or.inl ⟨run, hrun, h.of_generation_le le_rfl⟩

/-! ## Runs -/

/-- Actions one after the other, as long as each meets a condition. -/
def run (ok : LazyWorld K d → LazyAction K d → Bool) (w : LazyWorld K d) :
    List (LazyAction K d) → Option (LazyWorld K d)
  | [] => some w
  | a :: actions => if ok w a then (w.step a).bind fun w' => w'.run ok actions else none

theorem reachable_run {ok : LazyWorld K d → LazyAction K d → Bool}
    (h : (system ok).Reachable w) {actions : List (LazyAction K d)}
    (hrun : w.run ok actions = some w') : (system ok).Reachable w' := by
  induction actions generalizing w with
  | nil => exact Option.some.inj hrun ▸ h
  | cons a actions ih =>
    rw [run] at hrun
    split at hrun
    · next hok =>
      obtain ⟨v, hv, hrest⟩ := Option.bind_eq_some_iff.mp hrun
      exact ih (h.step ⟨a, hok, hv⟩) hrest
    · cases hrun

end LazyWorld

/-- **Lazily created rebuilds.**  In every run whose steps are careful, after every step: if no sender
runs and the index is fresh for a buffer, then it describes the lists of that buffer, and no sender that
completed had a kernel use another counting buffer than the one that was scanned and uploaded. -/
theorem lazy_rebuild_sound {w : LazyWorld K d}
    (h : (LazyWorld.system LazyWorld.careful).Reachable w) : w.Right :=
  ⟨(LazyWorld.inv_of_reachable h).fresh, (LazyWorld.inv_of_reachable h).oneBuffer⟩

/-! Two runs over buffers of one and of two regions.  In the first, a sender waits while the index is
rebuilt for another buffer that needs no more room, and while it runs another one is created; both
steps are careful. -/

/-- Nothing was created or built yet. -/
def emptyLazyWorld : LazyWorld ℚ 0 :=
  ⟨emptyWorld.buffers, {}, 0, fun _ => none, [], none, []⟩

/-- A region with the given frames. -/
def regionWith (frames : List FramePtr) : ParticleRegion ℚ 0 := ⟨AABB.fresh ⟨100, -100⟩, frames⟩

/-- A buffer at version 1 whose only region has the frame at address 5. -/
def oneFrameBuffer : ParticleRegionBuffer (ParticleRegion ℚ 0) :=
  ⟨[regionWith [5]], [regionWith [5]], 1, 1, le_rfl, by norm_num⟩

/-- A buffer at version 1 with one region without frames. -/
def noFrameBuffer : ParticleRegionBuffer (ParticleRegion ℚ 0) :=
  ⟨[regionWith []], [regionWith []], 1, 1, le_rfl, by norm_num⟩

/-- A buffer at version 1 with two regions without frames. -/
def twoRegionBuffer : ParticleRegionBuffer (ParticleRegion ℚ 0) :=
  ⟨[regionWith [], regionWith []], [regionWith [], regionWith []], 2, 1, le_rfl, ParticleRegionBuffer.two_lt_limit⟩

/-- New allocations hold zeros, and the fill kernel writes nothing. -/
def zeros : Choices := ⟨⟨fun _ => 0, fun _ => 0⟩, fun _ => 0, fun _ => 0, [], []⟩

/-- All six stages of a sender. -/
def completion (c : Choices) : List (LazyAction ℚ 0) := List.replicate 6 (.advance c)

/-- A sender for buffer 3 is created, the index is rebuilt for buffer 4, and the sender is started;
before it completes, one is created for buffer 4. -/
def waitingRun : List (LazyAction ℚ 0) :=
  [.mutate 3 oneFrameBuffer, .mutate 4 noFrameBuffer, .create 3 sevens, .rebuild 4 zeros] ++
    completion zeros ++ [.start ⟨3, 1, 1, 1⟩ [], .advance sevens, .create 4 zeros] ++
      List.replicate 5 (.advance sevens)

theorem lazy_rebuild_sound_waitingRun :
    ∃ w, emptyLazyWorld.run LazyWorld.careful waitingRun = some w ∧ w.running = none ∧
      w.index.isFresh 3 1 = true ∧ w.index.totalFrames = 1 ∧ w.completed.length = 2 ∧ w.Right := by
  have hend : (emptyLazyWorld.run LazyWorld.careful waitingRun).any (fun w =>
      w.running.isNone && w.index.isFresh 3 1 && w.index.totalFrames == 1 &&
        w.completed.length == 2) = true := by
    decide
  cases hw : emptyLazyWorld.run LazyWorld.careful waitingRun with
  | none => rw [hw] at hend; cases hend
  | some w =>
    rw [hw, Option.any_some, Bool.and_eq_true, Bool.and_eq_true, Bool.and_eq_true, beq_iff_eq,
      beq_iff_eq] at hend
    obtain ⟨⟨⟨hidle, hfresh⟩, htotal⟩, hcompleted⟩ := hend
    exact ⟨w, rfl, Option.isNone_iff_eq_none.mp hidle, hfresh, htotal, hcompleted,
      lazy_rebuild_sound (LazyWorld.reachable_run (.init ⟨rfl, rfl, rfl, rfl, rfl⟩) hw)⟩

/-- While the sender for buffer 3 waits, one is created for buffer 4, which needs more room. -/
def lostBufferRun : List (LazyAction ℚ 0) :=
  [.mutate 3 oneFrameBuffer, .mutate 4 twoRegionBuffer, .create 3 zeros, .create 4 zeros,
    .start ⟨3, 1, 1, 1⟩ []] ++ completion zeros

/-- **The count is lost.**  The sender counts into the buffer it captured, scans the zeros of the new
one, and publishes an index without frames as fresh for a buffer with one. -/
theorem not_lazy_rebuild_sound :
    ¬ ∀ w : LazyWorld ℚ 0, (LazyWorld.system fun _ _ => true).Reachable w → w.Right := by
  intro hall
  have hend : (emptyLazyWorld.run (fun _ _ => true) lostBufferRun).any (fun w => w.running.isNone &&
      w.index.isFresh 3 (w.buffers 3).topologyVersion && w.index.totalFrames == 0 &&
      frameCounts (w.buffers 3).device == [1]) = true := by
    decide
  cases hw : emptyLazyWorld.run (fun _ _ => true) lostBufferRun with
  | none => rw [hw] at hend; cases hend
  | some w =>
    rw [hw, Option.any_some, Bool.and_eq_true, Bool.and_eq_true, Bool.and_eq_true, beq_iff_eq,
      beq_iff_eq] at hend
    obtain ⟨⟨⟨hidle, hfresh⟩, htotal⟩, hcounts⟩ := hend
    have hright := hall w (LazyWorld.reachable_run (.init ⟨rfl, rfl, rfl, rfl, rfl⟩) hw)
    obtain ⟨-, -, ptrs, regionIdx, framesScan, hdescribes⟩ :=
      hright.fresh (Option.isNone_iff_eq_none.mp hidle) 3 hfresh
    have hone := hdescribes.totalFrames
    rw [htotal, hcounts] at hone
    exact absurd hone (by decide)

end Particles
end Spearhed
