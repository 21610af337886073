import Mathlib.Tactic
import Spearhed.Library.Lockstep
import Spearhed.Particles.InitParticlesExact

/-!
# Copying live particles to the host

`CopyParticlesToDynSoA.hpp`: the live particles of a buffer are written one after the other into
the columns of a `DynSoA`, one column for each leaf of the output record.  The regions are walked on
the host, in the host's copy of the device heap; each frame is copied to a position that the counts
of the frames before it determine.  Counters are of type `uint32_t`.

A null pointer that is dereferenced, a slot beyond the end of a frame and a write beyond the end of
a column are no results (`none`).

* `copyWrites_eq`: what is written, for lists of frames that are as `InitParticles` left them.
* `copy_live_particles`: the output is a permutation of the live particles.
-/

namespace Spearhed
namespace Particles

open Library

variable {K : Type} {d : ℕ} {A Species : Type} {frameSize : ℕ} {Leaf Value : Type} [DecidableEq Leaf]

/-! ## The copy -/

/-- A host address. -/
abbrev HostPtr : Type := ℤ

/-- `memory::mapToHost`. -/
def mapToHost (devPtr : FramePtr) (heapOffset : ℤ) : HostPtr := devPtr - heapOffset

/-- The host's view: its copy of the device heap, and the offset between the two. -/
structure HostHeap (K : Type) (d : ℕ) (A : Type) (frameSize : ℕ) where
  frames : HostPtr → LinkedFrame K d A frameSize
  heapOffset : ℤ

/-- The heap copy that the caller has completed. -/
def HostHeap.Synced (host : HostHeap K d A frameSize) (m : Memory K d A frameSize) : Prop :=
  ∀ p ∈ m.allocated, host.frames (mapToHost p host.heapOffset) = m.frames p

/-- `CopyTask`. -/
structure CopyTask (K : Type) (d : ℕ) where
  hostFrame : HostPtr
  count : UInt32
  writeOffset : UInt32
  region : StoredRegion K d

/-- The loop over the frames of one region: the tasks, and `writeOffset` afterwards. -/
def regionCopyTasks (host : HostHeap K d A frameSize) (region : StoredRegion K d) :
    ℕ → Option FramePtr → UInt32 → Option (List (CopyTask K d) × UInt32)
  | 0, _, writeOffset => some ([], writeOffset)
  | _ + 1, none, _ => none
  | nFrames + 1, some devFramePtr, writeOffset =>
    let hostFrame := mapToHost devFramePtr host.heapOffset
    let frame := host.frames hostFrame
    (regionCopyTasks host region nFrames frame.next (writeOffset + frame.liveParticles)).map
      fun rest => (⟨hostFrame, frame.liveParticles, writeOffset, region⟩ :: rest.1, rest.2)

/-- The loop over the regions. -/
def copyTasks (host : HostHeap K d A frameSize) :
    List (StoredRegion K d) → UInt32 → Option (List (CopyTask K d))
  | [], _ => some []
  | region :: regions, writeOffset => do
    let (tasks, writeOffset) ← regionCopyTasks host region
      (region.particleFrameList.numFrames frameSize).toNat
      region.particleFrameList.list.firstNode writeOffset
    let rest ← copyTasks host regions writeOffset
    return tasks ++ rest

/-- A write into a column, and the slot that was read for it. -/
structure LeafWrite (frameSize : ℕ) (Leaf Value : Type) where
  leaf : Leaf
  index : ℕ
  hostFrame : HostPtr
  slot : Fin frameSize
  value : Value

/-- `FieldCopyTrait`: the value that a leaf of the output record gets from a slot.  By default it is
the leaf of the same path; specialisations also read the region. -/
abbrev FieldCopyTrait (K : Type) (d : ℕ) (A Leaf Value : Type) : Type :=
  Leaf → StoredRegion K d → Particle K d A → Value

/-- What one task writes for one leaf: `count` slots, to the positions from `writeOffset` on. -/
def leafWrites (host : HostHeap K d A frameSize) (trait : FieldCopyTrait K d A Leaf Value)
    (task : CopyTask K d) (leaf : Leaf) : List (LeafWrite frameSize Leaf Value) :=
  (((List.finRange frameSize).take task.count.toNat).zipIdx task.writeOffset.toNat).map fun x =>
    ⟨leaf, x.2, task.hostFrame, x.1,
      trait leaf task.region ((host.frames task.hostFrame).particlesSoa x.1)⟩

/-- What all tasks write, for the selected leaves in the order of `iterate_path`. -/
def copyWrites (host : HostHeap K d A frameSize) (trait : FieldCopyTrait K d A Leaf Value)
    (leaves : List Leaf) (regions : List (StoredRegion K d)) :
    Option (List (LeafWrite frameSize Leaf Value)) := do
  let tasks ← copyTasks host regions 0
  if ∀ task ∈ tasks, task.count.toNat ≤ frameSize then
    return tasks.flatMap fun task => leaves.flatMap (leafWrites host trait task)
  else none

/-- `DynSoA`: columns of one length. -/
structure DynSoA (Leaf Value : Type) where
  size : ℕ
  column : Leaf → ℕ → Value

/-- `total`. -/
def totalParticles (regions : List (StoredRegion K d)) : UInt32 :=
  (regions.map fun region => region.particleFrameList.numParticles).sum

/-- What `synchronize` leaves in the host buffer. -/
def hostRegions (prBuf : ParticleRegionBuffer (StoredRegion K d)) (m : Memory K d A frameSize) :
    List (StoredRegion K d) :=
  (List.range prBuf.size).map m.regions

/-- `CopyParticlesToDynSoA`.  New columns hold anything. -/
def copyParticlesToDynSoA (prBuf : ParticleRegionBuffer (StoredRegion K d))
    (m : Memory K d A frameSize) (host : HostHeap K d A frameSize)
    (trait : FieldCopyTrait K d A Leaf Value) (leaves : List Leaf)
    (uninitialized : Leaf → ℕ → Value) : Option (DynSoA Leaf Value) := do
  let size := (totalParticles (hostRegions prBuf m)).toNat
  let writes ← copyWrites host trait leaves (hostRegions prBuf m)
  if ∀ w ∈ writes, w.index < size then
    return ⟨size, fun leaf => scatter
      ((writes.filter fun w => decide (w.leaf = leaf)).map fun w => (w.index, w.value))
      (uninitialized leaf)⟩
  else none

/-! ## What is to be copied -/

/-- A slot of a frame in the list of a region. -/
structure RegionSlot (frameSize : ℕ) where
  region : ℕ
  frame : FramePtr
  slot : Fin frameSize
  deriving DecidableEq

/-- The particle's place on the device, without the region. -/
def RegionSlot.particle (x : RegionSlot frameSize) : FramePtr × Fin frameSize := (x.frame, x.slot)

/-- The slot holds a live particle of the buffer. -/
def RegionSlot.IsLive (m : Memory K d A frameSize) (size : ℕ) (x : RegionSlot frameSize) : Prop :=
  x.region < size ∧
    (∃ frames, Walk m.next (m.frameList x.region).firstNode frames ∧ x.frame ∈ frames) ∧
    x.slot.val < (m.frames x.frame).liveParticles.toNat

/-- The value that a leaf gets for a slot. -/
def RegionSlot.value (m : Memory K d A frameSize) (trait : FieldCopyTrait K d A Leaf Value)
    (leaf : Leaf) (x : RegionSlot frameSize) : Value :=
  trait leaf (m.regions x.region) ((m.frames x.frame).particlesSoa x.slot)

/-- **The output is a permutation of the live particles**: they are put in an order without
repetition, and for every selected leaf exactly the positions of that order are written, each from
the slot that it belongs to. -/
def CopyExact (prBuf : ParticleRegionBuffer (StoredRegion K d)) (m : Memory K d A frameSize)
    (host : HostHeap K d A frameSize) (trait : FieldCopyTrait K d A Leaf Value) (leaves : List Leaf)
    (uninitialized : Leaf → ℕ → Value) : Prop :=
  ∃ (order : List (RegionSlot frameSize)) (writes : List (LeafWrite frameSize Leaf Value))
    (dynSoa : DynSoA Leaf Value),
    (order.map RegionSlot.particle).Nodup ∧
    (∀ x, x ∈ order ↔ x.IsLive m prBuf.size) ∧
    copyWrites host trait leaves (hostRegions prBuf m) = some writes ∧
    copyParticlesToDynSoA prBuf m host trait leaves uninitialized = some dynSoa ∧
    dynSoa.size = order.length ∧
    (∀ w ∈ writes, w.leaf ∈ leaves) ∧
    (∀ leaf ∈ leaves, (writes.filter fun w => decide (w.leaf = leaf)) =
      order.zipIdx.map fun x => ⟨leaf, x.2, mapToHost x.1.frame host.heapOffset, x.1.slot,
        x.1.value m trait leaf⟩) ∧
    ∀ leaf ∈ leaves, ∀ (i : ℕ) (x : RegionSlot frameSize), order[i]? = some x →
      dynSoa.column leaf i = x.value m trait leaf

/-! ## Updates of particle data -/

/-- Particle data changes; the lists, their particle numbers and the live counts stay. -/
structure DataUpdate (m m' : Memory K d A frameSize) : Prop where
  allocated : m'.allocated = m.allocated
  lists : ∀ r, (m'.regions r).particleFrameList = (m.regions r).particleFrameList
  next : ∀ p ∈ m.allocated, (m'.frames p).next = (m.frames p).next
  liveParticles : ∀ p ∈ m.allocated, (m'.frames p).liveParticles = (m.frames p).liveParticles

/-- What the copy relies on for a region. -/
structure RegionCounts (m : Memory K d A frameSize) (n r : ℕ) (frames : List FramePtr) : Prop where
  numParticles : (m.regions r).particleFrameList.numParticles.toNat = n
  walk : Walk m.next (m.frameList r).firstNode frames
  nodup : frames.Nodup
  allocated : ∀ p ∈ frames, p ∈ m.allocated
  fills : (frames.map fun p => (m.frames p).liveParticles.toNat).Perm (frameFills frameSize n)

theorem RegionHolds.counts {m : Memory K d A frameSize} {index n r : ℕ} {frames : List FramePtr}
    (h : RegionHolds m index n r frames) : RegionCounts m n r frames :=
  ⟨h.numParticles, h.list.walk, h.list.nodup, h.list.allocated, h.fills⟩

/-- Particle data may change. -/
theorem RegionCounts.update {m m' : Memory K d A frameSize} {n r : ℕ} {frames : List FramePtr}
    (h : RegionCounts m n r frames) (hm : DataUpdate m m') : RegionCounts m' n r frames := by
  refine ⟨?_, ?_, h.nodup, fun p hp => ?_, ?_⟩
  · rw [hm.lists]
    exact h.numParticles
  · rw [Memory.frameList, hm.lists]
    exact h.walk.congr fun p hp => hm.next p (h.allocated p hp)
  · rw [hm.allocated]
    exact h.allocated p hp
  · rw [List.map_congr_left fun p hp => by rw [hm.liveParticles p (h.allocated p hp)]]
    exact h.fills

/-- Any number of times. -/
theorem RegionCounts.updates {m m' : Memory K d A frameSize} {n r : ℕ} {frames : List FramePtr}
    (h : RegionCounts m n r frames) (hm : Relation.ReflTransGen DataUpdate m m') :
    RegionCounts m' n r frames := by
  induction hm with
  | refl => exact h
  | tail _ hstep ih => exact ih.update hstep

namespace RegionCounts

variable {m : Memory K d A frameSize} {n r : ℕ} {frames : List FramePtr}

/-- The walk and the number of frames agree. -/
theorem length (hpos : 0 < frameSize) (h : RegionCounts m n r frames) :
    ((m.regions r).particleFrameList.numFrames frameSize).toNat = frames.length := by
  rw [FrameList.numFrames_toNat hpos, h.numParticles, ← length_frameFills, ← h.fills.length_eq,
    List.length_map]

/-- The live counts and the number of particles agree. -/
theorem sum (hpos : 0 < frameSize) (h : RegionCounts m n r frames) :
    (frames.map fun p => (m.frames p).liveParticles.toNat).sum = n := by
  rw [h.fills.sum_eq, sum_frameFills hpos]

/-- A frame has no more particles than slots. -/
theorem liveParticles_le (h : RegionCounts m n r frames) {p : FramePtr} (hp : p ∈ frames) :
    (m.frames p).liveParticles.toNat ≤ frameSize := by
  have hmem := h.fills.subset (List.mem_map_of_mem hp)
  obtain ⟨k, -, hk⟩ := List.mem_map.mp hmem
  rw [← hk]
  exact frameFill_le

end RegionCounts

/-- Sums of counters are counters of sums. -/
theorem sum_eq_ofNat {α : Type*} (f : α → UInt32) (l : List α) :
    (l.map f).sum = UInt32.ofNat (l.map fun a => (f a).toNat).sum := by
  induction l with
  | nil => rfl
  | cons a l ih => rw [List.map_cons, List.sum_cons, ih, List.map_cons, List.sum_cons,
      UInt32.ofNat_add, UInt32.ofNat_toNat]

/-! ## What the tasks write -/

section Tasks

variable {m : Memory K d A frameSize} {host : HostHeap K d A frameSize}

/-- The live slots of a region, in the order of its list. -/
def regionSlots (m : Memory K d A frameSize) (r : ℕ) (frames : List FramePtr) :
    List (RegionSlot frameSize) :=
  frames.flatMap fun p => ((List.finRange frameSize).take (m.frames p).liveParticles.toNat).map
    fun slot => ⟨r, p, slot⟩

theorem mem_take_finRange {n : ℕ} {slot : Fin frameSize} :
    slot ∈ (List.finRange frameSize).take n ↔ slot.val < n := by
  rw [List.mem_take_iff_getElem]
  constructor
  · rintro ⟨i, hi, rfl⟩
    rw [List.getElem_finRange]
    show i < n
    omega
  · intro h
    have hslot := slot.isLt
    exact ⟨slot.val, by rw [List.length_finRange]; omega, by rw [List.getElem_finRange]; rfl⟩

theorem mem_regionSlots {r : ℕ} {frames : List FramePtr} {x : RegionSlot frameSize} :
    x ∈ regionSlots m r frames ↔ x.region = r ∧ x.frame ∈ frames ∧
      x.slot.val < (m.frames x.frame).liveParticles.toNat := by
  rw [regionSlots, List.mem_flatMap]
  constructor
  · rintro ⟨p, hp, hx⟩
    obtain ⟨slot, hslot, rfl⟩ := List.mem_map.mp hx
    exact ⟨rfl, hp, mem_take_finRange.mp hslot⟩
  · rintro ⟨rfl, hp, hslot⟩
    exact ⟨x.frame, hp, List.mem_map.mpr ⟨x.slot, mem_take_finRange.mpr hslot, rfl⟩⟩

theorem length_regionSlots {n r : ℕ} {frames : List FramePtr} (h : RegionCounts m n r frames) :
    (regionSlots m r frames).length =
      (frames.map fun p => (m.frames p).liveParticles.toNat).sum := by
  rw [regionSlots, List.length_flatMap]
  congr 1
  refine List.map_congr_left fun p hp => ?_
  rw [List.length_map, List.length_take, List.length_finRange]
  exact Nat.min_eq_left (h.liveParticles_le hp)

/-- The tasks for the frames of a region. -/
def offsetTasks (m : Memory K d A frameSize) (host : HostHeap K d A frameSize)
    (region : StoredRegion K d) : List FramePtr → UInt32 → List (CopyTask K d)
  | [], _ => []
  | p :: frames, writeOffset =>
    ⟨mapToHost p host.heapOffset, (m.frames p).liveParticles, writeOffset, region⟩ ::
      offsetTasks m host region frames (writeOffset + (m.frames p).liveParticles)

/-- The loop over the frames follows the list. -/
theorem regionCopyTasks_eq (region : StoredRegion K d) {frames : List FramePtr}
    {start : Option FramePtr} {w : UInt32} (hwalk : Walk m.next start frames)
    (hhost : ∀ p ∈ frames, host.frames (mapToHost p host.heapOffset) = m.frames p) :
    regionCopyTasks host region frames.length start w =
      some (offsetTasks m host region frames w,
        w + (frames.map fun p => (m.frames p).liveParticles).sum) := by
  induction frames generalizing start w with
  | nil => rw [List.map_nil, List.sum_nil, add_zero]; rfl
  | cons p frames ih =>
    obtain ⟨rfl, hrest⟩ := hwalk
    have hrest' := ih (w := w + (m.frames p).liveParticles) hrest fun q hq =>
      hhost q (List.mem_cons_of_mem p hq)
    rw [Memory.next] at hrest'
    rw [List.length_cons, regionCopyTasks, hhost p List.mem_cons_self, hrest', Option.map_some,
      List.map_cons, List.sum_cons, offsetTasks, add_assoc]

/-- The write for a live slot at a position. -/
def slotWrite (m : Memory K d A frameSize) (host : HostHeap K d A frameSize)
    (trait : FieldCopyTrait K d A Leaf Value) (leaf : Leaf) (x : RegionSlot frameSize × ℕ) :
    LeafWrite frameSize Leaf Value :=
  ⟨leaf, x.2, mapToHost x.1.frame host.heapOffset, x.1.slot, x.1.value m trait leaf⟩

variable {trait : FieldCopyTrait K d A Leaf Value}

omit [DecidableEq Leaf] in
/-- **The tasks of a region write its live slots to consecutive positions.** -/
theorem leafWrites_offsetTasks {r : ℕ} {frames : List FramePtr} {w : UInt32} (leaf : Leaf)
    (hlive : ∀ p ∈ frames, (m.frames p).liveParticles.toNat ≤ frameSize)
    (hhost : ∀ p ∈ frames, host.frames (mapToHost p host.heapOffset) = m.frames p)
    (hfits : w.toNat + (frames.map fun p => (m.frames p).liveParticles.toNat).sum < 2 ^ 32) :
    ((offsetTasks m host (m.regions r) frames w).flatMap fun task =>
        leafWrites host trait task leaf) =
      ((regionSlots m r frames).zipIdx w.toNat).map (slotWrite m host trait leaf) := by
  induction frames generalizing w with
  | nil => rfl
  | cons p frames ih =>
    rw [List.map_cons, List.sum_cons] at hfits
    have hw : (w + (m.frames p).liveParticles).toNat =
        w.toNat + (m.frames p).liveParticles.toNat := by
      rw [UInt32.toNat_add]
      exact Nat.mod_eq_of_lt (by omega)
    have hlength : ((List.finRange frameSize).take (m.frames p).liveParticles.toNat).length =
        (m.frames p).liveParticles.toNat := by
      rw [List.length_take, List.length_finRange]
      exact Nat.min_eq_left (hlive p List.mem_cons_self)
    have hslots : regionSlots m r (p :: frames) =
        ((List.finRange frameSize).take (m.frames p).liveParticles.toNat).map
            (fun slot => ⟨r, p, slot⟩) ++ regionSlots m r frames := List.flatMap_cons
    rw [offsetTasks, List.flatMap_cons, ih (fun q hq => hlive q (List.mem_cons_of_mem p hq))
      (fun q hq => hhost q (List.mem_cons_of_mem p hq)) (by rw [hw]; omega), hw, hslots,
      List.zipIdx_append, List.map_append, List.length_map, hlength]
    congr 1
    rw [leafWrites, List.zipIdx_map, List.map_map]
    refine List.map_congr_left fun x _ => ?_
    dsimp only [Function.comp_apply, slotWrite, Prod.map, RegionSlot.value, id]
    rw [hhost p List.mem_cons_self]

omit [DecidableEq Leaf] in
theorem offsetTasks_count {region : StoredRegion K d} {frames : List FramePtr} {w : UInt32}
    (hlive : ∀ p ∈ frames, (m.frames p).liveParticles.toNat ≤ frameSize) {task : CopyTask K d}
    (htask : task ∈ offsetTasks m host region frames w) : task.count.toNat ≤ frameSize := by
  induction frames generalizing w with
  | nil => cases htask
  | cons p frames ih =>
    rcases List.mem_cons.mp htask with rfl | htask
    · exact hlive p List.mem_cons_self
    · exact ih (fun q hq => hlive q (List.mem_cons_of_mem p hq)) htask

omit [DecidableEq Leaf] in
/-- **All tasks write all live slots to consecutive positions.** -/
theorem copyTasks_eq (hpos : 0 < frameSize) {frames : ℕ → List FramePtr} {rs : List ℕ} {w : UInt32}
    (hcounts : ∀ r ∈ rs, ∃ n, RegionCounts m n r (frames r)) (hhost : host.Synced m)
    (hfits : w.toNat + (rs.flatMap fun r => regionSlots m r (frames r)).length < 2 ^ 32) :
    ∃ tasks, copyTasks host (rs.map m.regions) w = some tasks ∧
      (∀ task ∈ tasks, task.count.toNat ≤ frameSize) ∧
      ∀ (trait : FieldCopyTrait K d A Leaf Value) (leaf : Leaf),
        (tasks.flatMap fun task => leafWrites host trait task leaf) =
          ((rs.flatMap fun r => regionSlots m r (frames r)).zipIdx w.toNat).map
            (slotWrite m host trait leaf) := by
  induction rs generalizing w with
  | nil => exact ⟨[], rfl, nofun, fun _ _ => rfl⟩
  | cons r rs ih =>
    obtain ⟨n, hr⟩ := hcounts r List.mem_cons_self
    have hhost' : ∀ p ∈ frames r, host.frames (mapToHost p host.heapOffset) = m.frames p :=
      fun p hp => hhost p (hr.allocated p hp)
    have hlive : ∀ p ∈ frames r, (m.frames p).liveParticles.toNat ≤ frameSize :=
      fun p hp => hr.liveParticles_le hp
    rw [List.flatMap_cons, List.length_append, length_regionSlots hr] at hfits
    have hw : (w + ((frames r).map fun p => (m.frames p).liveParticles).sum).toNat =
        w.toNat + ((frames r).map fun p => (m.frames p).liveParticles.toNat).sum := by
      rw [sum_eq_ofNat, UInt32.toNat_add, UInt32.toNat_ofNat_of_lt' (by rw [UInt32.size]; omega)]
      exact Nat.mod_eq_of_lt (by omega)
    obtain ⟨tasks, htasks, hcount, hwrites⟩ := ih (fun r' hr' => hcounts r' (List.mem_cons_of_mem r hr'))
      (by rw [hw]; omega)
    refine ⟨offsetTasks m host (m.regions r) (frames r) w ++ tasks, ?_, fun task htask => ?_,
      fun trait leaf => ?_⟩
    · rw [List.map_cons, copyTasks, hr.length hpos]
      have hregion := regionCopyTasks_eq (w := w) (m.regions r) hr.walk hhost'
      rw [Memory.frameList] at hregion
      rw [hregion]
      show (copyTasks host (rs.map m.regions) _).bind _ = _
      rw [htasks]
      rfl
    · rcases List.mem_append.mp htask with htask | htask
      · exact offsetTasks_count hlive htask
      · exact hcount task htask
    · rw [List.flatMap_append, leafWrites_offsetTasks leaf hlive hhost' (by omega), hwrites, hw,
        List.flatMap_cons, List.zipIdx_append, List.map_append, length_regionSlots hr]

end Tasks

/-! ## The output -/

section Output

variable {m : Memory K d A frameSize} {host : HostHeap K d A frameSize}
  {trait : FieldCopyTrait K d A Leaf Value} {frames : ℕ → List FramePtr} {size : ℕ}

/-- The live slots of a buffer, region by region. -/
def liveOrder (m : Memory K d A frameSize) (frames : ℕ → List FramePtr) (size : ℕ) :
    List (RegionSlot frameSize) :=
  (List.range size).flatMap fun r => regionSlots m r (frames r)

theorem mem_liveOrder (hcounts : ∀ r < size, ∃ n, RegionCounts m n r (frames r))
    {x : RegionSlot frameSize} : x ∈ liveOrder m frames size ↔ x.IsLive m size := by
  rw [liveOrder, List.mem_flatMap]
  constructor
  · rintro ⟨r, hr, hx⟩
    obtain ⟨rfl, hframe, hslot⟩ := mem_regionSlots.mp hx
    have hlt := List.mem_range.mp hr
    obtain ⟨n, hn⟩ := hcounts x.region hlt
    exact ⟨hlt, ⟨_, hn.walk, hframe⟩, hslot⟩
  · rintro ⟨hlt, ⟨l, hwalk, hframe⟩, hslot⟩
    obtain ⟨n, hn⟩ := hcounts x.region hlt
    obtain rfl := hwalk.unique hn.walk
    exact ⟨x.region, List.mem_range.mpr hlt, mem_regionSlots.mpr ⟨rfl, hframe, hslot⟩⟩

/-- No particle is in the order twice: frames have one region, and occur once in its list. -/
theorem nodup_liveOrder (hcounts : ∀ r < size, ∃ n, RegionCounts m n r (frames r))
    (hdisjoint : ∀ r < size, ∀ r' < size, ∀ p ∈ frames r, p ∈ frames r' → r = r') :
    ((liveOrder m frames size).map RegionSlot.particle).Nodup := by
  rw [liveOrder, List.map_flatMap, List.nodup_flatMap]
  constructor
  · intro r hr
    obtain ⟨n, hn⟩ := hcounts r (List.mem_range.mp hr)
    rw [regionSlots, List.map_flatMap, List.nodup_flatMap]
    constructor
    · intro p _
      rw [List.map_map]
      refine List.Nodup.map (fun slot slot' h => ?_) ((List.nodup_finRange frameSize).take)
      exact (Prod.mk.inj h).2
    · refine List.Pairwise.imp (fun {p q} hpq x hx hx' => ?_) hn.nodup
      obtain ⟨y, hy, rfl⟩ := List.mem_map.mp hx
      obtain ⟨slot, -, rfl⟩ := List.mem_map.mp hy
      obtain ⟨y', hy', heq⟩ := List.mem_map.mp hx'
      obtain ⟨slot', -, rfl⟩ := List.mem_map.mp hy'
      exact hpq (Prod.mk.inj heq).1.symm
  · refine List.Pairwise.imp_of_mem (fun {r r'} hr hr' hne x hx hx' => hne ?_) List.nodup_range
    obtain ⟨y, hy, rfl⟩ := List.mem_map.mp hx
    obtain ⟨y', hy', heq⟩ := List.mem_map.mp hx'
    obtain ⟨-, hframe, -⟩ := mem_regionSlots.mp hy
    obtain ⟨-, hframe', -⟩ := mem_regionSlots.mp hy'
    rw [show y'.frame = y.frame from (Prod.mk.inj heq).1] at hframe'
    exact hdisjoint r (List.mem_range.mp hr) r' (List.mem_range.mp hr') y.frame hframe hframe'

theorem length_liveOrder (hcounts : ∀ r < size, ∃ n, RegionCounts m n r (frames r))
    (hpos : 0 < frameSize) : (liveOrder m frames size).length =
      ((List.range size).map fun r => (m.regions r).particleFrameList.numParticles.toNat).sum := by
  rw [liveOrder, List.length_flatMap]
  congr 1
  refine List.map_congr_left fun r hr => ?_
  obtain ⟨n, hn⟩ := hcounts r (List.mem_range.mp hr)
  rw [length_regionSlots hn, hn.sum hpos, hn.numParticles]

theorem totalParticles_hostRegions {prBuf : ParticleRegionBuffer (StoredRegion K d)}
    (hcounts : ∀ r < prBuf.size, ∃ n, RegionCounts m n r (frames r)) (hpos : 0 < frameSize) :
    totalParticles (hostRegions prBuf m) =
      UInt32.ofNat (liveOrder m frames prBuf.size).length := by
  rw [totalParticles, hostRegions, List.map_map, sum_eq_ofNat, length_liveOrder hcounts hpos]
  rfl

/-- **The copy is exact** where the counts and the lists of all regions agree and their sum fits
into a counter. -/
theorem copyExact_of_counts (hpos : 0 < frameSize)
    {prBuf : ParticleRegionBuffer (StoredRegion K d)}
    (hcounts : ∀ r < prBuf.size, ∃ n, RegionCounts m n r (frames r))
    (hdisjoint : ∀ r < prBuf.size, ∀ r' < prBuf.size, ∀ p ∈ frames r, p ∈ frames r' → r = r')
    (hfits : (liveOrder m frames prBuf.size).length < 2 ^ 32) (hhost : host.Synced m)
    {leaves : List Leaf} (hleaves : leaves.Nodup) (uninitialized : Leaf → ℕ → Value) :
    CopyExact prBuf m host trait leaves uninitialized := by
  set order := liveOrder m frames prBuf.size with horder
  obtain ⟨tasks, htasks, hcount, hwrites⟩ := copyTasks_eq (w := 0)
    hpos (fun r hr => hcounts r (List.mem_range.mp hr)) hhost (by
      show 0 + order.length < _
      omega)
  set writes := tasks.flatMap fun task => leaves.flatMap (leafWrites host trait task) with hdef
  have hcopy : copyWrites host trait leaves (hostRegions prBuf m) = some writes := by
    rw [copyWrites, hostRegions, htasks]
    exact if_pos hcount
  have hleaf : ∀ w ∈ writes, ∃ leaf ∈ leaves, w.leaf = leaf := by
    intro w hw
    obtain ⟨task, -, hw⟩ := List.mem_flatMap.mp hw
    obtain ⟨leaf, hmem, hw⟩ := List.mem_flatMap.mp hw
    obtain ⟨x, -, rfl⟩ := List.mem_map.mp hw
    exact ⟨leaf, hmem, rfl⟩
  -- the writes for one leaf go through the order once
  have hfilter : ∀ leaf ∈ leaves, (writes.filter fun w => decide (w.leaf = leaf)) =
      order.zipIdx.map (slotWrite m host trait leaf) := by
    intro leaf hmem
    refine Eq.trans ?_ (hwrites trait leaf)
    rw [hdef, List.filter_flatMap]
    refine List.flatMap_congr fun task _ => ?_
    have hkey : ∀ leaf' ∈ leaves, ∀ w ∈ leafWrites host trait task leaf', w.leaf = leaf' := by
      intro leaf' _ w hw
      obtain ⟨x, -, rfl⟩ := List.mem_map.mp hw
      rfl
    show (leaves.flatMap (leafWrites host trait task)).filter _ = _
    rw [filter_flatMap_key hkey, filter_eq_singleton hleaves hmem, List.flatMap_singleton]
  have hsize : (totalParticles (hostRegions prBuf m)).toNat = order.length := by
    rw [totalParticles_hostRegions hcounts hpos]
    exact UInt32.toNat_ofNat_of_lt' hfits
  have hbound : ∀ w ∈ writes, w.index < order.length := by
    intro w hw
    obtain ⟨leaf, hmem, heq⟩ := hleaf w hw
    have hw' : w ∈ writes.filter fun w => decide (w.leaf = leaf) :=
      List.mem_filter.mpr ⟨hw, decide_eq_true heq⟩
    rw [hfilter leaf hmem] at hw'
    obtain ⟨x, hx, rfl⟩ := List.mem_map.mp hw'
    exact (List.getElem?_eq_some_iff.mp (List.mem_zipIdx_iff_getElem?.mp hx)).1
  refine ⟨order, writes, ⟨order.length, fun leaf => scatter
    ((writes.filter fun w => decide (w.leaf = leaf)).map fun w => (w.index, w.value))
    (uninitialized leaf)⟩, nodup_liveOrder hcounts hdisjoint,
    fun x => mem_liveOrder hcounts, hcopy, ?_, rfl, fun w hw => ?_, hfilter,
    fun leaf hmem i x hi => ?_⟩
  · rw [copyParticlesToDynSoA, hcopy, hsize]
    exact if_pos hbound
  · obtain ⟨leaf, hmem, heq⟩ := hleaf w hw
    rwa [heq]
  · show scatter _ _ _ = _
    rw [hfilter leaf hmem, List.map_map]
    refine scatter_eq (fun w hw hwi => ?_) (Or.inl ⟨(i, x.value m trait leaf), ?_, rfl⟩)
    · obtain ⟨y, hy, rfl⟩ := List.mem_map.mp hw
      have hyi := List.mem_zipIdx_iff_getElem?.mp hy
      rw [show y.2 = i from hwi, hi] at hyi
      show y.1.value m trait leaf = _
      rw [← Option.some.inj hyi]
    · exact List.mem_map.mpr ⟨(x, i), List.mk_mem_zipIdx_iff_getElem?.mpr hi, rfl⟩

theorem size_of_copy {prBuf : ParticleRegionBuffer (StoredRegion K d)}
    {leaves : List Leaf} {uninitialized : Leaf → ℕ → Value} {dynSoa : DynSoA Leaf Value}
    (h : copyParticlesToDynSoA prBuf m host trait leaves uninitialized = some dynSoa) :
    dynSoa.size = (totalParticles (hostRegions prBuf m)).toNat := by
  obtain ⟨writes, -, h⟩ := Option.bind_eq_some_iff.mp h
  split at h
  · obtain rfl := Option.some.inj h
    rfl
  · cases h

/-- From `2 ^ 32` particles on the counters wrap around, and the output has the wrong size. -/
theorem not_copyExact_of_overflow {prBuf : ParticleRegionBuffer (StoredRegion K d)}
    (hcounts : ∀ r < prBuf.size, ∃ n, RegionCounts m n r (frames r))
    (hdisjoint : ∀ r < prBuf.size, ∀ r' < prBuf.size, ∀ p ∈ frames r, p ∈ frames r' → r = r')
    (hoverflow : 2 ^ 32 ≤ (liveOrder m frames prBuf.size).length) {leaves : List Leaf}
    {uninitialized : Leaf → ℕ → Value} :
    ¬ CopyExact prBuf m host trait leaves uninitialized := by
  rintro ⟨order, writes, dynSoa, hnodup, hmem, -, hcopy, hsize, -⟩
  have hperm : order.Perm (liveOrder m frames prBuf.size) :=
    (List.perm_ext_iff_of_nodup (List.Nodup.of_map _ hnodup)
      (List.Nodup.of_map _ (nodup_liveOrder hcounts hdisjoint))).mpr fun x => by
        rw [hmem, mem_liveOrder hcounts]
  have hlt := (totalParticles (hostRegions prBuf m)).toNat_lt
  rw [← size_of_copy hcopy, hsize, hperm.length_eq] at hlt
  omega

end Output

/-! ## After `InitParticles` -/

namespace InitParticles

variable {S : Species} {initAttributes : UInt64 → Vec K d × A}

/-- The numbers of particles of all regions. -/
def regionParticles (S : Species) (blocks : List (Block K d A Species)) : List ℕ :=
  blocks.flatMap fun block => (block.addRegions S).mapIdx block.numParticles

theorem length_regionParticles (S : Species) (blocks : List (Block K d A Species)) :
    (regionParticles S blocks).length = (sliceSizes S blocks).sum := by
  rw [regionParticles, List.length_flatMap, sliceSizes]
  simp only [List.length_mapIdx]

/-- Every region of the buffer is a region of one block. -/
theorem exists_region {blocks : List (Block K d A Species)} {r : ℕ}
    (hr : r < (sliceSizes S blocks).sum) :
    ∃ k block i volume, blocks[k]? = some block ∧ (block.addRegions S)[i]? = some volume ∧
      blockStart (sliceSizes S blocks) k + i = r ∧
      (regionParticles S blocks)[r]? = some (block.numParticles i volume) := by
  obtain ⟨k, hk⟩ := exists_inBlock hr
  have hlt := hk.lt_length
  rw [sliceSizes, List.length_map] at hlt
  have hblock := List.getElem?_eq_getElem hlt
  have hoffset := hk.sub_lt
  have hcount : (sliceSizes S blocks).getD k 0 = (blocks[k].addRegions S).length := by
    rw [sliceSizes, List.getD_eq_getElem?_getD, List.getElem?_map, hblock]
    rfl
  rw [hcount] at hoffset
  have hvolume := List.getElem?_eq_getElem hoffset
  refine ⟨k, blocks[k], r - blockStart (sliceSizes S blocks) k, _, hblock, hvolume,
    Nat.add_sub_cancel' hk.1, ?_⟩
  have hparticles := getElem?_flatMap_blockStart
    (f := fun block : Block K d A Species => (block.addRegions S).mapIdx block.numParticles) hblock
    (i := r - blockStart (sliceSizes S blocks) k) (by rw [List.getElem?_mapIdx, hvolume]; rfl)
  simp only [List.length_mapIdx] at hparticles
  rwa [← sliceSizes, Nat.add_sub_cancel' hk.1] at hparticles

/-- What `InitParticles` leaves behind, and any updates of particle data keep: the counts of the
regions, their lists, and the sum of the counts. -/
theorem ends_initSpecies_counts (hpos : 0 < frameSize) (hsize : frameSize < 2 ^ 32)
    {setup : Setup K d A Species} {shared : Option (ParticleRegionBuffer (StoredRegion K d))}
    {prBuf : ParticleRegionBuffer (StoredRegion K d)} (hS : setup.targeting S ≠ [])
    (hcreate : InitRegions.createSpecies S setup shared = some (some prBuf))
    (hframes : ((setup.targeting S).map fun block =>
      (block.frameCounts S frameSize).sum).sum < 2 ^ 31)
    (framesPerRegion : ℕ → ℕ → UInt32) {m : Memory K d A frameSize}
    (hbox : ∀ r region, prBuf.device[r]? = some region → m.regions r = region)
    (hcalls : m.calls = [])
    {Q : ParticleRegionBuffer (StoredRegion K d) → Memory K d A frameSize → Prop}
    (hQ : ∀ prBuf' m' frames,
      (∀ m'', Relation.ReflTransGen DataUpdate m' m'' →
        (∀ r < prBuf'.size, ∃ n, RegionCounts m'' n r (frames r)) ∧
        (liveOrder m'' frames prBuf'.size).length = (regionParticles S (setup.targeting S)).sum) →
      (∀ r < prBuf'.size, ∀ r' < prBuf'.size, ∀ p ∈ frames r, p ∈ frames r' → r = r') →
      Q prBuf' m') :
    initSpecies S setup initAttributes framesPerRegion prBuf m Q := by
  refine ends_initSpecies hpos hsize hS hcreate hframes framesPerRegion hbox hcalls
    fun m' frames hsizeEq _ hsep hslices => ?_
  set prBuf' := prBuf.changeTopology ((List.range prBuf.device.length).map m'.regions)
  have hsize' : prBuf'.size = (sliceSizes S (setup.targeting S)).sum := hsizeEq
  refine hQ prBuf' m' frames (fun m'' hm'' => ?_) fun r hr r' hr' p hp hp' => ?_
  · have hregion : ∀ r < prBuf'.size, ∃ n, RegionCounts m'' n r (frames r) ∧
        (regionParticles S (setup.targeting S))[r]? = some n := by
      intro r hr
      obtain ⟨k, block, i, volume, hk, hi, rfl, hn⟩ := exists_region (hsize' ▸ hr)
      exact ⟨_, (hslices k block i volume hk hi).2.counts.updates hm'', hn⟩
    have hcounts : ∀ r < prBuf'.size, ∃ n, RegionCounts m'' n r (frames r) := fun r hr => by
      obtain ⟨n, hn, -⟩ := hregion r hr
      exact ⟨n, hn⟩
    refine ⟨hcounts, ?_⟩
    rw [length_liveOrder hcounts hpos]
    congr 1
    refine List.ext_getElem? fun r => ?_
    rw [List.getElem?_map]
    rcases Nat.lt_or_ge r prBuf'.size with hr | hr
    · obtain ⟨n, hn, hget⟩ := hregion r hr
      rw [List.getElem?_range hr, hget, Option.map_some, hn.numParticles]
    · rw [List.getElem?_eq_none (by rw [List.length_range]; exact hr),
        List.getElem?_eq_none (by rw [length_regionParticles, ← hsize']; exact hr)]
      rfl
  · exact hsep.disjoint r r' p (Nat.zero_le _) (hsize' ▸ hr) (Nat.zero_le _) (hsize' ▸ hr') hp hp'

/-- **The output is a permutation of the live particles**, for every setup with fewer than `2 ^ 32`
particles, every run of `InitParticles` and all updates of particle data after it. -/
theorem copy_live_particles (hpos : 0 < frameSize) (hsize : frameSize < 2 ^ 32)
    {setup : Setup K d A Species} {shared : Option (ParticleRegionBuffer (StoredRegion K d))}
    {prBuf : ParticleRegionBuffer (StoredRegion K d)} (hS : setup.targeting S ≠ [])
    (hcreate : InitRegions.createSpecies S setup shared = some (some prBuf))
    (hframes : ((setup.targeting S).map fun block =>
      (block.frameCounts S frameSize).sum).sum < 2 ^ 31)
    (hparticles : (regionParticles S (setup.targeting S)).sum < 2 ^ 32)
    (framesPerRegion : ℕ → ℕ → UInt32) {m : Memory K d A frameSize}
    (hbox : ∀ r region, prBuf.device[r]? = some region → m.regions r = region)
    (hcalls : m.calls = []) (trait : FieldCopyTrait K d A Leaf Value) {leaves : List Leaf}
    (hleaves : leaves.Nodup) (uninitialized : Leaf → ℕ → Value) :
    initSpecies S setup initAttributes framesPerRegion prBuf m fun prBuf' m' =>
      ∀ m'', Relation.ReflTransGen DataUpdate m' m'' → ∀ host : HostHeap K d A frameSize,
        host.Synced m'' → CopyExact prBuf' m'' host trait leaves uninitialized := by
  refine ends_initSpecies_counts hpos hsize hS hcreate hframes framesPerRegion hbox hcalls
    fun prBuf' m' frames hcounts hdisjoint m'' hm'' host hhost => ?_
  obtain ⟨hregions, hlength⟩ := hcounts m'' hm''
  exact copyExact_of_counts hpos hregions hdisjoint (hlength ▸ hparticles) hhost hleaves
    uninitialized

/-- The host's copy of the heap at the same addresses. -/
def sameAddresses (m : Memory K d A frameSize) : HostHeap K d A frameSize :=
  ⟨fun p => m.frames p.toNat, 0⟩

theorem sameAddresses_synced (m : Memory K d A frameSize) : (sameAddresses m).Synced m := by
  intro p _
  show m.frames ((p : ℤ) - 0).toNat = m.frames p
  rw [sub_zero, Int.toNat_natCast]

/-- Two facts about all runs hold of one run. -/
theorem exists_of_initBlocks {framesPerRegion : ℕ → ℕ → UInt32}
    {Q Q' : Memory K d A frameSize → Prop} {blocks : List (Block K d A Species)}
    {index regionOffset : ℕ} {m : Memory K d A frameSize}
    (h : initBlocks S initAttributes framesPerRegion Q blocks index regionOffset m)
    (h' : initBlocks S initAttributes framesPerRegion Q' blocks index regionOffset m) :
    ∃ m', Q m' ∧ Q' m' := by
  induction blocks generalizing index regionOffset m with
  | nil => exact ⟨m, h, h'⟩
  | cons block blocks ih =>
    rcases Nat.eq_zero_or_pos (block.addRegions S).length with hn | hn
    · rw [initBlocks, if_neg (by omega)] at h h'
      exact ih h h'
    · rw [initBlocks, if_pos hn] at h h'
      obtain ⟨t, hrun, ht⟩ := h.1.exists_terminal
      exact ih (h.2 t hrun ht) (h'.2 t hrun ht)

theorem copy_live_particles_threeParticles :
    initSpecies () threeParticles (fun _ => (0, ())) (fun _ _ => 0) threeParticlesBuffer
      threeParticlesMemory fun prBuf' m' =>
        ∀ m'', Relation.ReflTransGen DataUpdate m' m'' → ∀ host : HostHeap ℚ 0 Unit 2,
          host.Synced m'' → CopyExact prBuf' m'' host (fun _ _ particle => particle.relativePos)
            [()] fun _ _ => 0 :=
  copy_live_particles (by decide) (by decide) (by simp [threeParticles, Setup.targeting])
    (show InitRegions.createSpecies () threeParticles none = _ from rfl) (by decide) (by decide) _
    (fun r region h => by
      rcases r with _ | r
      · exact Option.some.inj h
      · cases h) rfl _ (by simp) _

/-- One block, which creates `2 ^ 31` particles in each of its two regions. -/
def hugeRegions : Setup ℚ 0 Unit Unit :=
  [⟨fun _ => true, fun _ => [⟨0, 0, 1⟩, ⟨0, 1, 2⟩], fun _ _ => 2147483648,
    fun _ _ _ particle => particle⟩]

/-- The buffer that is created for it. -/
def hugeRegionsBuffer : ParticleRegionBuffer (StoredRegion ℚ 0) :=
  ⟨[StoredRegion.ofVolume ⟨0, 0, 1⟩, StoredRegion.ofVolume ⟨0, 1, 2⟩],
    [StoredRegion.ofVolume ⟨0, 0, 1⟩, StoredRegion.ofVolume ⟨0, 1, 2⟩], 2, 3, le_rfl, ParticleRegionBuffer.two_lt_limit⟩

/-- A memory without frames, with frames of `numFrameSlots` slots. -/
def hugeRegionsMemory : Memory ℚ 0 Unit 64 where
  regions := fun r => StoredRegion.ofVolume (if r = 0 then ⟨0, 0, 1⟩ else ⟨0, 1, 2⟩)
  frames := fun _ => ⟨⟨fun _ => ⟨0, 0, ()⟩, 0⟩, none⟩
  allocated := ∅
  nextId := 0
  calls := []

/-- With `2 ^ 32` particles the copy is not exact. -/
theorem copy_wraps_of_hugeRegions :
    ¬ initSpecies () hugeRegions (fun _ => (0, ())) (fun _ _ => 0) hugeRegionsBuffer
      hugeRegionsMemory fun prBuf' m' =>
        ∀ m'', Relation.ReflTransGen DataUpdate m' m'' → ∀ host : HostHeap ℚ 0 Unit 64,
          host.Synced m'' → CopyExact prBuf' m'' host (fun _ _ particle => particle.relativePos)
            [()] fun _ _ => 0 := by
  intro h
  have hnot : initSpecies () hugeRegions (fun _ => (0, ())) (fun _ _ => 0) hugeRegionsBuffer
      hugeRegionsMemory fun prBuf' m' => ¬ CopyExact prBuf' m' (sameAddresses m')
        (fun (_ : Unit) _ particle => particle.relativePos) [()] fun _ _ => 0 := by
    refine ends_initSpecies_counts (by decide) (by decide)
      (by simp [hugeRegions, Setup.targeting])
      (show InitRegions.createSpecies () hugeRegions none = _ from rfl) (by decide) _
      (fun r region hr => by
        rcases r with _ | _ | r
        · exact Option.some.inj hr
        · exact Option.some.inj hr
        · cases hr) rfl fun prBuf' m' frames hcounts hdisjoint => ?_
    obtain ⟨hregions, hlength⟩ := hcounts m' Relation.ReflTransGen.refl
    have hsum : (regionParticles () (hugeRegions.targeting ())).sum = 2 ^ 32 := by decide
    exact not_copyExact_of_overflow hregions hdisjoint (hlength.trans hsum).ge
  obtain ⟨m', hm', hm''⟩ := exists_of_initBlocks h hnot
  exact hm'' (hm' m' Relation.ReflTransGen.refl _ (sameAddresses_synced m'))

end InitParticles

end Particles
end Spearhed
