import Mathlib.Tactic
import Mathlib.Data.Finset.Basic
import Spearhed.Library.StepSystem
import Spearhed.Particles.FrameDispatch
import Spearhed.Particles.InitRegions

/-!
# Creating particles

`InitParticles.hpp`.  For each species the blocks of the setup are walked in the order of
`InitRegions`, and each fills its own slice of the regions.  A first kernel decides how many
particles and frames every region of the slice gets, the counts of frames are scanned on the host,
and a second kernel runs one block per frame.  A block finds its region by binary search in the
scan, allocates a frame, appends it to the list of the region and fills its slots.

The blocks of the second kernel run interleaved: `CreateParticlesInFrame.Step` is one atomic action
of one of them.  The atomic actions of `getEmptyFrame` are the allocation, the two writes and the
exchange of `pushBack`; the slots of a frame are filled in any order.

* `findFrameLocation_eq`: the binary search finds the region of a block.
* `frameTasks_eq`: the blocks together fill the regions of the slice as `frameFill` says.
-/

namespace Spearhed
namespace Particles

open Library

variable {K : Type} {d : ℕ} {A Species : Type} {frameSize : ℕ}

/-! ## Memory -/

/-- A call of `placeParticle`: whose recipe, for which region, for which index. -/
structure PlaceCall where
  block : ℕ
  region : ℕ
  globalParticleIdx : UInt32
  deriving DecidableEq

/-- What the kernels read and write: the regions of the buffer, the frames on the device heap, and
the counter of particle ids.  The calls of `placeParticle` so far are recorded. -/
structure Memory (K : Type) (d : ℕ) (A : Type) (frameSize : ℕ) where
  regions : ℕ → StoredRegion K d
  frames : FramePtr → LinkedFrame K d A frameSize
  allocated : Finset FramePtr
  nextId : UInt64
  calls : List PlaceCall

/-- The constructor of `Frame` and the `next` pointer that `getEmptyNode` sets; the memory held
anything before. -/
def LinkedFrame.emptied (f : LinkedFrame K d A frameSize) : LinkedFrame K d A frameSize where
  particlesSoa := fun slot => { f.particlesSoa slot with multiMask := 0 }
  liveParticles := 0
  next := none

namespace Memory

variable (m : Memory K d A frameSize)

/-- The frame list of a region changes. -/
def setList (r : ℕ) (l : FrameList) : Memory K d A frameSize :=
  { m with regions := Function.update m.regions r { m.regions r with particleFrameList := l } }

/-- A frame changes. -/
def setFrame (p : FramePtr) (f : LinkedFrame K d A frameSize) : Memory K d A frameSize :=
  { m with frames := Function.update m.frames p f }

/-- `getEmptyNode`, when the heap hands out this frame. -/
def getEmptyNode (p : FramePtr) : Memory K d A frameSize :=
  { m.setFrame p (m.frames p).emptied with allocated := insert p m.allocated }

/-- `node->next = other`. -/
def setNext (p : FramePtr) (other : Option FramePtr) : Memory K d A frameSize :=
  m.setFrame p { m.frames p with next := other }

/-- `m_firstNode = node`. -/
def setFirstNode (r : ℕ) (p : FramePtr) : Memory K d A frameSize :=
  let l := (m.regions r).particleFrameList
  m.setList r { l with list := { l.list with firstNode := some p } }

/-- What the exchange leaves in `m_lastNode`. -/
def setLastNode (r : ℕ) (p : FramePtr) : Memory K d A frameSize :=
  let l := (m.regions r).particleFrameList
  m.setList r { l with list := { l.list with lastNode := some p } }

/-- `framePtr->liveParticles = n`. -/
def setLiveParticles (p : FramePtr) (n : UInt32) : Memory K d A frameSize :=
  m.setFrame p { m.frames p with liveParticles := n }

/-- A slot of a frame is written. -/
def setParticle (p : FramePtr) (slot : Fin frameSize) (particle : Particle K d A) :
    Memory K d A frameSize :=
  m.setFrame p
    { m.frames p with particlesSoa := Function.update (m.frames p).particlesSoa slot particle }

/-- The `next` pointers of the frames. -/
def next (p : FramePtr) : Option FramePtr := (m.frames p).next

/-- `m_firstNode` and `m_lastNode` of a region. -/
def frameList (r : ℕ) : SingleLinkedListDevice := (m.regions r).particleFrameList.list

end Memory

/-! ## From blocks to frames -/

/-- `FrameLocation`. -/
structure FrameLocation where
  regionIdx : ℕ
  localFrameIdx : ℤ
  framesInRegion : ℤ

/-- The loop of `findFrameLocation`.  Where `left < right`, `std::midpoint` rounds down. -/
def upperBound (blockIdx : ℤ) (scanBox : ℕ → UInt32) (left right : ℕ) : ℕ :=
  if left < right then
    let mid := left + (right - left) / 2
    if toInt (scanBox mid) ≤ blockIdx then upperBound blockIdx scanBox (mid + 1) right
    else upperBound blockIdx scanBox left mid
  else left
termination_by right - left

/-- `findFrameLocation`. -/
def findFrameLocation (blockIdx : ℤ) (scanBox : ℕ → UInt32) (numRegions : ℕ) : FrameLocation :=
  let regionIdx := upperBound blockIdx scanBox 0 numRegions
  let start := if regionIdx = 0 then 0 else toInt (scanBox (regionIdx - 1))
  let stop := toInt (scanBox regionIdx)
  ⟨regionIdx, blockIdx - start, stop - start⟩

/-- `CalculateFramesPerRegion`, one block for each of the `numRegions` regions from `regionBegin`
on: the regions afterwards, and the counts. -/
def calculateFramesPerRegion (frameSize : ℕ) (block : Block K d A Species)
    (regions : ℕ → StoredRegion K d) (regionBegin numRegions : ℕ) (framesPerRegion : ℕ → UInt32) :
    (ℕ → StoredRegion K d) × (ℕ → UInt32) :=
  let counted : ℕ → StoredRegion K d := fun r =>
    if regionBegin ≤ r ∧ r < regionBegin + numRegions then
      let n := block.numParticlesToCreate (r - regionBegin) (regions r)
      { regions r with particleFrameList := (regions r).particleFrameList.setNumParticles n }
    else regions r
  (counted, fun i =>
    if i < numRegions then (counted (regionBegin + i)).particleFrameList.numFrames frameSize
    else framesPerRegion i)

/-- What a block of `InitParticleRegions` hands to `CreateParticlesInFrame`. -/
structure FrameTask where
  /-- The index of the region in the buffer. -/
  region : ℕ
  frameOffset : UInt32
  numParticlesToCreate : UInt32
  deriving DecidableEq

/-- The part of `InitParticleRegions` before a frame is allocated.  The numbers of particles that
it reads are not written while the kernel runs. -/
def frameTask (frameSize : ℕ) (regions : ℕ → StoredRegion K d) (regionBegin numRegions : ℕ)
    (scan : ℕ → UInt32) (blockIdx : ℕ) : FrameTask :=
  let loc := findFrameLocation blockIdx scan numRegions
  let region := regionBegin + loc.regionIdx
  let particlesInLastFrame := (regions region).particleFrameList.getSizeLastFrame frameSize
  let particlesInThisFrame :=
    if loc.localFrameIdx = loc.framesInRegion - 1 then particlesInLastFrame
    else UInt32.ofNat frameSize
  ⟨region, UInt32.ofInt loc.localFrameIdx, particlesInThisFrame⟩

/-- The tasks of all blocks. -/
def frameTasks (frameSize : ℕ) (regions : ℕ → StoredRegion K d) (regionBegin numRegions : ℕ)
    (scan : ℕ → UInt32) (totalBlocks : UInt32) : List FrameTask :=
  (List.range (toInt totalBlocks).toNat).map
    (frameTask frameSize regions regionBegin numRegions scan)

section Dispatch

variable {counts : List ℕ} {scan : ℕ → UInt32}

/-- The loop stays around the region of the block. -/
theorem upperBound_eq (hscan : ∀ i < counts.length,
    toInt (scan i) = blockStart counts (i + 1)) {r b : ℕ} (hb : InBlock counts r b)
    {left right : ℕ} (hleft : left ≤ r) (hright : r ≤ right) (hlength : right ≤ counts.length) :
    upperBound b scan left right = r := by
  fun_induction upperBound b scan left right with
  | case1 left right hlt mid hle ih =>
    have hmid : mid < right := by simp only [mid]; omega
    rw [hscan mid (by omega)] at hle
    -- `mid` is before the region, else its frames would end after the block
    have hbefore : mid < r := by
      by_contra hge
      have hmono := blockStart_mono counts (show r + 1 ≤ mid + 1 by omega)
      have := hb.2
      omega
    exact ih (by omega) hright hlength
  | case2 left right hlt mid hgt ih =>
    have hmid : mid < right := by simp only [mid]; omega
    rw [hscan mid (by omega)] at hgt
    have hafter : r ≤ mid := by
      by_contra hlt'
      have hmono := blockStart_mono counts (show mid + 1 ≤ r by omega)
      have := hb.1
      omega
    exact ih hleft hafter (by omega)
  | case3 left right hge => omega

/-- **The search finds the region of a block, and the block's place in it.** -/
theorem findFrameLocation_eq (hscan : ∀ i < counts.length,
    toInt (scan i) = blockStart counts (i + 1)) {r b : ℕ} (hb : InBlock counts r b) :
    findFrameLocation b scan counts.length =
      ⟨r, ((b - blockStart counts r : ℕ) : ℤ), counts.getD r 0⟩ := by
  have hr := hb.lt_length
  have hstart : (if r = 0 then 0 else toInt (scan (r - 1))) = blockStart counts r := by
    rcases Nat.eq_zero_or_pos r with rfl | hpos
    · simp
    · rw [if_neg (by omega), hscan (r - 1) (by omega), Nat.sub_add_cancel hpos]
  have hle := hb.1
  rw [findFrameLocation, upperBound_eq hscan hb (Nat.zero_le r) hr.le le_rfl]
  rw [hstart, hscan r hr, blockStart_succ]
  congr 1 <;> omega

end Dispatch

/-- The tasks that fill a region with `n` particles. -/
def regionTasks (frameSize n region : ℕ) : List FrameTask :=
  (List.range (n ⌈/⌉ frameSize)).map fun k =>
    ⟨region, UInt32.ofNat k, UInt32.ofNat (frameFill frameSize n k)⟩

/-- The numbers of frames of the regions of a slice. -/
def sliceCounts (frameSize : ℕ) (regions : ℕ → StoredRegion K d) (regionBegin numRegions : ℕ) :
    List ℕ :=
  (List.range numRegions).map fun i =>
    (regions (regionBegin + i)).particleFrameList.numParticles.toNat ⌈/⌉ frameSize

/-- **The blocks of the kernel fill every region of the slice.** -/
theorem frameTasks_eq (hpos : 0 < frameSize) (hsize : frameSize < 2 ^ 32)
    {regions : ℕ → StoredRegion K d} {regionBegin numRegions : ℕ} {scan : ℕ → UInt32}
    (hsum : (sliceCounts frameSize regions regionBegin numRegions).sum < 2 ^ 31)
    (hscan : ∀ i < numRegions, scan i =
      UInt32.ofNat (blockStart (sliceCounts frameSize regions regionBegin numRegions) (i + 1))) :
    frameTasks frameSize regions regionBegin numRegions scan
        (UInt32.ofNat (sliceCounts frameSize regions regionBegin numRegions).sum) =
      (List.range numRegions).flatMap fun i => regionTasks frameSize
        (regions (regionBegin + i)).particleFrameList.numParticles.toNat (regionBegin + i) := by
  set counts := sliceCounts frameSize regions regionBegin numRegions with hcounts
  have hlength : counts.length = numRegions := by simp [hcounts, sliceCounts]
  have hint : ∀ i < counts.length, toInt (scan i) = blockStart counts (i + 1) := fun i hi => by
    rw [hscan i (by omega)]
    exact toInt_ofNat (lt_of_le_of_lt (blockStart_le_sum counts _) hsum)
  set lists := (List.range numRegions).map fun i => regionTasks frameSize
    (regions (regionBegin + i)).particleFrameList.numParticles.toNat (regionBegin + i) with hlists
  have hlengths : lists.map List.length = counts := by
    rw [hlists, hcounts, sliceCounts, List.map_map]
    exact List.map_congr_left fun i _ => by simp [regionTasks]
  rw [frameTasks, toInt_ofNat hsum, Int.toNat_natCast, List.flatMap_def, ← hlists, ← hlengths]
  rw [map_range_eq_flatten lists _ id, List.map_id]
  intro r k l task hl htask
  obtain ⟨r', hr', rfl⟩ := Option.map_eq_some_iff.mp ((List.getElem?_map ..).symm.trans hl)
  obtain ⟨hr, hrr⟩ := List.getElem?_eq_some_iff.mp hr'
  rw [List.length_range] at hr
  rw [List.getElem_range] at hrr
  subst hrr
  obtain ⟨k', hk', rfl⟩ := Option.map_eq_some_iff.mp ((List.getElem?_map ..).symm.trans htask)
  obtain ⟨hk, hkk⟩ := List.getElem?_eq_some_iff.mp hk'
  rw [List.length_range] at hk
  rw [List.getElem_range] at hkk
  subst hkk
  have hcount : counts.getD r 0 =
      (regions (regionBegin + r)).particleFrameList.numParticles.toNat ⌈/⌉ frameSize := by
    rw [hcounts, sliceCounts, List.getD_eq_getElem?_getD, List.getElem?_map,
      List.getElem?_range hr]
    rfl
  have hloc := findFrameLocation_eq hint (inBlock_add (hcount ▸ hk))
  rw [Nat.add_sub_cancel_left, hcount, hlength] at hloc
  rw [hlengths, frameTask, hloc]
  dsimp only [id]
  congr 1
  · have hk_lt : k < 2 ^ 32 := lt_of_lt_of_le (hk.trans_le (ceilDiv_le_self hpos))
      (UInt32.toNat_lt _).le
    rw [UInt32.ofInt, Int.emod_eq_of_lt (by omega) (by omega), Int.toNat_natCast]
  · split
    · next hlast =>
      have hlast' : k + 1 =
          (regions (regionBegin + r)).particleFrameList.numParticles.toNat ⌈/⌉ frameSize := by
        omega
      rw [← FrameList.getSizeLastFrame_toNat hpos hsize hlast', UInt32.ofNat_toNat]
    · next hlast => rw [frameFill_of_lt hpos (by omega)]

/-! ## Creating one frame -/

/-- How far a block of the kernel is. -/
inductive Phase (frameSize : ℕ) where
  | start
  | allocated (framePtr : FramePtr)
  | cleared (framePtr : FramePtr)
  | exchanged (framePtr : FramePtr) (oldLast : Option FramePtr)
  | appended (framePtr : FramePtr)
  /-- The slots already filled. -/
  | filling (framePtr : FramePtr) (done : List (Fin frameSize))

/-- A block of a setup as the kernels see it: its position among the blocks, its recipe, and how the
attributes of a particle start out, given its id. -/
structure Recipe (K : Type) (d : ℕ) (A Species : Type) where
  index : ℕ
  block : Block K d A Species
  initAttributes : UInt64 → Vec K d × A

namespace CreateParticlesInFrame

/-- A state of the kernel. -/
structure State (K : Type) (d : ℕ) (A : Type) (frameSize : ℕ) where
  memory : Memory K d A frameSize
  phase : ℕ → Phase frameSize

/-- Block `j` moves on. -/
def State.advance (s : State K d A frameSize) (j : ℕ) (memory : Memory K d A frameSize)
    (phase : Phase frameSize) : State K d A frameSize :=
  ⟨memory, Function.update s.phase j phase⟩

/-- The index of a particle in its region, `frameOffset * FrameType::frameSize + idx`. -/
def globalParticleIdx (task : FrameTask) (slot : Fin frameSize) : UInt32 :=
  task.frameOffset * UInt32.ofNat frameSize + UInt32.ofNat slot.val

/-- The body of `forEachSlotInFrame`. -/
def fillSlot (recipe : Recipe K d A Species) (task : FrameTask) (j : ℕ) (p : FramePtr)
    (slot : Fin frameSize) (m : Memory K d A frameSize) : Memory K d A frameSize :=
  if slot.val < task.numParticlesToCreate.toNat then
    let idx := globalParticleIdx task slot
    let attributes := recipe.block.placeParticle j (m.regions task.region) idx
      (recipe.initAttributes m.nextId)
    { m.setParticle p slot ⟨attributes.1, 1, attributes.2⟩ with
      nextId := m.nextId + 1
      calls := ⟨recipe.index, task.region, idx⟩ :: m.calls }
  else
    m.setParticle p slot { (m.frames p).particlesSoa slot with multiMask := 0 }

/-- One atomic action of block `j`. -/
inductive Step (recipe : Recipe K d A Species) (tasks : List FrameTask) :
    State K d A frameSize → State K d A frameSize → Prop
  | getEmptyNode {s : State K d A frameSize} {j : ℕ} {task : FrameTask} {p : FramePtr}
      (hj : tasks[j]? = some task) (hs : s.phase j = .start) (hp : p ∉ s.memory.allocated) :
      Step recipe tasks s (s.advance j (s.memory.getEmptyNode p) (.allocated p))
  | clearNext {s : State K d A frameSize} {j : ℕ} {task : FrameTask} {p : FramePtr}
      (hj : tasks[j]? = some task) (hs : s.phase j = .allocated p) :
      Step recipe tasks s (s.advance j (s.memory.setNext p none) (.cleared p))
  | exchange {s : State K d A frameSize} {j : ℕ} {task : FrameTask} {p : FramePtr}
      (hj : tasks[j]? = some task) (hs : s.phase j = .cleared p) :
      Step recipe tasks s (s.advance j (s.memory.setLastNode task.region p)
        (.exchanged p (s.memory.frameList task.region).lastNode))
  | linkNext {s : State K d A frameSize} {j : ℕ} {task : FrameTask} {p old : FramePtr}
      (hj : tasks[j]? = some task) (hs : s.phase j = .exchanged p (some old)) :
      Step recipe tasks s (s.advance j (s.memory.setNext old (some p)) (.appended p))
  | linkFirst {s : State K d A frameSize} {j : ℕ} {task : FrameTask} {p : FramePtr}
      (hj : tasks[j]? = some task) (hs : s.phase j = .exchanged p none) :
      Step recipe tasks s (s.advance j (s.memory.setFirstNode task.region p) (.appended p))
  | setLiveParticles {s : State K d A frameSize} {j : ℕ} {task : FrameTask} {p : FramePtr}
      (hj : tasks[j]? = some task) (hs : s.phase j = .appended p) :
      Step recipe tasks s
        (s.advance j (s.memory.setLiveParticles p task.numParticlesToCreate) (.filling p []))
  | fillSlot {s : State K d A frameSize} {j : ℕ} {task : FrameTask} {p : FramePtr}
      {done : List (Fin frameSize)} {slot : Fin frameSize} (hj : tasks[j]? = some task)
      (hs : s.phase j = .filling p done) (hslot : slot ∉ done) :
      Step recipe tasks s
        (s.advance j (fillSlot recipe task j p slot s.memory) (.filling p (slot :: done)))

/-- All runs of the kernel from a memory. -/
def system (recipe : Recipe K d A Species) (tasks : List FrameTask)
    (m : Memory K d A frameSize) : StepSystem (State K d A frameSize) where
  init := fun s => s = ⟨m, fun _ => .start⟩
  step := Step recipe tasks

end CreateParticlesInFrame

/-! ## The walk over the blocks -/

namespace InitParticles

/-- `initBlockSlice`, run to its end: every run is finite, and `Q` holds of the memory afterwards.
`framesPerRegion` is what the new buffer for the counts holds at first. -/
def initBlockSlice (recipe : Recipe K d A Species) (framesPerRegion : ℕ → UInt32)
    (regionBegin numRegions : ℕ) (m : Memory K d A frameSize)
    (Q : Memory K d A frameSize → Prop) : Prop :=
  let counted :=
    calculateFramesPerRegion frameSize recipe.block m.regions regionBegin numRegions framesPerRegion
  let scan := inclusiveScanHost counted.2 numRegions
  let m' := { m with regions := counted.1 }
  let tasks := frameTasks frameSize counted.1 regionBegin numRegions scan.1 scan.2
  (CreateParticlesInFrame.system recipe tasks m').Ends ⟨m', fun _ => .start⟩ fun s => Q s.memory

/-- The walk of `initSpecies` over the blocks that target the species, the first of which is block
`index`. -/
def initBlocks (S : Species) (initAttributes : UInt64 → Vec K d × A)
    (framesPerRegion : ℕ → ℕ → UInt32) (Q : Memory K d A frameSize → Prop) :
    List (Block K d A Species) → ℕ → ℕ → Memory K d A frameSize → Prop
  | [], _, _, m => Q m
  | block :: blocks, index, regionOffset, m =>
    let numRegions := (block.addRegions S).length
    let rest := initBlocks S initAttributes framesPerRegion Q blocks (index + 1)
      (regionOffset + numRegions)
    if numRegions > 0 then
      initBlockSlice ⟨index, block, initAttributes⟩ (framesPerRegion index) regionOffset numRegions
        m rest
    else rest m

/-- `initSpecies`: every run is finite, and `Q` holds of the buffer and the memory afterwards.  The
regions of the memory are those of the buffer, `getDeviceDataBox`. -/
def initSpecies (S : Species) (setup : Setup K d A Species)
    (initAttributes : UInt64 → Vec K d × A) (framesPerRegion : ℕ → ℕ → UInt32)
    (prBuf : ParticleRegionBuffer (StoredRegion K d)) (m : Memory K d A frameSize)
    (Q : ParticleRegionBuffer (StoredRegion K d) → Memory K d A frameSize → Prop) : Prop :=
  let written (m' : Memory K d A frameSize) : List (StoredRegion K d) :=
    (List.range prBuf.device.length).map m'.regions
  initBlocks S initAttributes framesPerRegion (fun m' => Q (prBuf.changeTopology (written m')) m')
    (setup.targeting S) 0 0 m

end InitParticles

end Particles
end Spearhed
