import Spearhed.Mappings.Mask
import Spearhed.PmaccParticles.MarkedParticles

/-!
# Shifting particles to the neighbouring supercells

`KernelShiftParticles`.  The block of a supercell goes through its frames.  The particles of a frame
that are about to leave are counted for each direction and get a place at the end of the neighbour's
frame list, in its last frame (the low frame) or in a frame from the heap (the high frame) when that
one has become full.  Every thread then puts its particle there.  When the frames are through, the
neighbours are told how many particles came, and the gaps that are left in the supercell are filled.

A block is at one of the places `Pc`, and `BlockStep` is what some of its threads do until the next
`sync`.  The threads that are responsible for the directions act one after the other, in any order,
and so do those that copy.  There is no `sync` before the gaps are filled, so this may begin while
neighbours are still to be told.

* `Receiving`: the end of a neighbour's list while particles are on their way to it.
* `Lane`: what a direction has achieved, with the particles that still wait for their copy;
  `Lane.load`, `Lane.count`, `Lane.takeFrames`, `Lane.copy`, `Lane.nextFrame` and
  `Lane.countParticles` follow it through the kernel.
-/

namespace Spearhed
namespace PmaccParticles

open Library Mappings ForEachParticle

variable {DIM frameSize : ℕ} {A : Type}

/-- What a kernel is called with. -/
structure KernelShiftParticles (DIM : ℕ) where
  numSupercellsWithGuard : DataSpace DIM
  onlyProcessMustShiftSupercells : Bool

namespace ShiftParticles

def int32 (x : ℤ) : ℤ := Int.bmod x (2 ^ 32)

/-- What the thread of a direction knows: the low and the high frame, the particles in them, and how
many particles the neighbour has more than it had, without those that the counter has. -/
structure Destination where
  low : Option FramePtr
  high : Option FramePtr
  counter : ℕ
  newParticleInFrame : ℤ

namespace Destination

/-- Without frames. -/
def empty : Destination := ⟨none, none, 0, 0⟩

/-- The frame and the slot for a place that was counted off. -/
def place (frameSize : ℕ) (dest : Destination) (destParticleIdx : ℕ) : Option FramePtr × ℕ :=
  if frameSize ≤ destParticleIdx then (dest.high, destParticleIdx - frameSize)
  else (dest.low, destParticleIdx)

/-- A full low frame is replaced by the high one. -/
def nextFrame (frameSize : ℕ) (dest : Destination) : Destination :=
  if frameSize ≤ dest.counter then
    ⟨dest.high, none, dest.counter - frameSize, int32 (dest.newParticleInFrame + frameSize)⟩
  else dest

/-- The frames of a direction. -/
def tail (dest : Destination) : List FramePtr := dest.low.toList ++ dest.high.toList

end Destination

def isValidSupercellIdx (supercellIdx numSupercells : DataSpace DIM) : Prop :=
  ∀ d, 0 ≤ supercellIdx d ∧ supercellIdx d < numSupercells d

instance (supercellIdx numSupercells : DataSpace DIM) :
    Decidable (isValidSupercellIdx supercellIdx numSupercells) :=
  inferInstanceAs (Decidable (∀ d, 0 ≤ supercellIdx d ∧ supercellIdx d < numSupercells d))

def neighborSuperCellIdx (superCellIdx : DataSpace DIM) (linearIdx : ℕ) : DataSpace DIM :=
  superCellIdx + getRelativeDirections DIM (linearIdx + 1)

/-- The slots whose particle moves in a direction. -/
def movers (slots : Fin frameSize → Slot A) (linearIdx : ℕ) : Finset (Fin frameSize) :=
  Finset.univ.filter fun i => (slots i).multiMask = linearIdx + 2

/-- What the threads of a frame got from the counters of the directions. -/
structure DestNumbers (numExchanges : ℕ) (slots : Fin frameSize → Slot A) (dests : ℕ → Destination)
    (destParticleIdx : Fin frameSize → ℕ) : Prop where
  movers : ∀ linearIdx < numExchanges, Set.BijOn destParticleIdx (ShiftParticles.movers slots linearIdx)
    (Set.Ico (dests linearIdx).counter
      ((dests linearIdx).counter + (ShiftParticles.movers slots linearIdx).card))
  others : ∀ i, (slots i).multiMask < 2 → destParticleIdx i = INV_LOC_IDX

/-- The counters after the threads of a frame have incremented them. -/
def counted (slots : Fin frameSize → Slot A) (dests : ℕ → Destination) (linearIdx : ℕ) : Destination :=
  { dests linearIdx with counter := (dests linearIdx).counter + (movers slots linearIdx).card }

/-- Where a frame is needed, one from the heap becomes the last frame of the supercell. -/
inductive TakesFrame (c : DataSpace DIM) (needed : Prop) : ParticlesBox DIM frameSize A →
    Option FramePtr →
    ParticlesBox DIM frameSize A → Option FramePtr → Prop
  | take {box : ParticlesBox DIM frameSize A} {ptr : Option FramePtr} {p : FramePtr} (h : needed)
      (hp : p ∉ box.allocated) :
      TakesFrame c needed box ptr ((box.getEmptyFrame p).setAsLastFrame p c) (some p)
  | keep {box : ParticlesBox DIM frameSize A} {ptr : Option FramePtr} (h : ¬ needed) :
      TakesFrame c needed box ptr box ptr

/-- A thread copies the particle of a slot to another frame. -/
def copyParticle (box : ParticlesBox DIM frameSize A) (src : FramePtr) (i : Fin frameSize)
    (dst : FramePtr) (j : Fin frameSize) :
    ParticlesBox DIM frameSize A :=
  let box' := box.setSlots dst
    (Function.update (box.frames dst).slots j ⟨1, ((box.frames src).slots i).attributes⟩)
  box'.setSlots src (Function.update (box'.frames src).slots i
    { (box'.frames src).slots i with multiMask := 0 })

/-- Where the block of a supercell is. -/
inductive Pc (frameSize : ℕ)
  | start
  /-- At the head of the loop over the frames. -/
  | loop (frame : Option FramePtr) (dests : ℕ → Destination)
  /-- The threads of these directions have not yet looked whether they need a frame. -/
  | frames (frame : FramePtr) (destParticleIdx : Fin frameSize → ℕ) (pending : Finset ℕ)
      (dests : ℕ → Destination)
  /-- The threads of these slots have not yet copied. -/
  | copy (frame : FramePtr) (destParticleIdx : Fin frameSize → ℕ) (pending : Finset (Fin frameSize))
      (dests : ℕ → Destination)
  /-- The threads of these directions have not yet told the neighbour; `KernelFillGaps` is at its
  own place. -/
  | fillGaps (pending : Finset ℕ) (dests : ℕ → Destination) (pc : FillGaps.Pc)
  | done

structure State (DIM frameSize : ℕ) (A : Type) where
  box : ParticlesBox DIM frameSize A
  pc : DataSpace DIM → Pc frameSize

section Kernel

variable (K : KernelShiftParticles DIM)

def isProcessedSupercell (box : ParticlesBox DIM frameSize A) (c : DataSpace DIM) : Bool :=
  !K.onlyProcessMustShiftSupercells || (box.superCells c).mustShift

/-- A last frame of the neighbour that has room. -/
def loadFrame (box : ParticlesBox DIM frameSize A) (c : DataSpace DIM) (linearIdx : ℕ) : Destination :=
  if isValidSupercellIdx (neighborSuperCellIdx c linearIdx) K.numSupercellsWithGuard then
    match box.getLastFrame (neighborSuperCellIdx c linearIdx) with
    | some tmpFrame =>
      let particlesInFrame := getSizeLastFrame box (neighborSuperCellIdx c linearIdx)
      if particlesInFrame <
        frameSize then ⟨some tmpFrame, none, particlesInFrame, int32 (-particlesInFrame)⟩
      else Destination.empty
    | none => Destination.empty
  else Destination.empty

/-- The neighbour is told how many particles came. -/
def countParticles (box : ParticlesBox DIM frameSize A) (c : DataSpace DIM) (linearIdx : ℕ)
    (dest : Destination) :
    ParticlesBox DIM frameSize A :=
  let newParticleInFrame := int32 (dest.newParticleInFrame + dest.counter)
  let neighbor := neighborSuperCellIdx c linearIdx
  if 0 < newParticleInFrame ∧ isValidSupercellIdx neighbor K.numSupercellsWithGuard then
    box.setNumParticles neighbor
      (((box.superCells neighbor).numParticles + newParticleInFrame).toNat % 2 ^ 32)
  else box

/-- What the block of a supercell does until its next place. -/
inductive BlockStep (c : DataSpace DIM) : ParticlesBox DIM frameSize A → Pc frameSize →
    ParticlesBox DIM frameSize A →
    Pc frameSize → Prop
  | skip {box : ParticlesBox DIM frameSize A} (h : isProcessedSupercell K box c = false) :
      BlockStep c box .start box .done
  | noParticles {box : ParticlesBox DIM frameSize A} (h : isProcessedSupercell K box c = true)
      (hnone : (box.superCells c).numParticles = 0) :
      BlockStep c box .start (box.setMustShift c false) .done
  | start {box : ParticlesBox DIM frameSize A} (h : isProcessedSupercell K box c = true)
      (hsome : (box.superCells c).numParticles ≠ 0) :
      BlockStep c box .start (box.setMustShift c false)
        (.loop (box.getFirstFrame c) (loadFrame K (box.setMustShift c false) c))
  | count {box : ParticlesBox DIM frameSize A} {p : FramePtr} {dests : ℕ → Destination}
      {destParticleIdx : Fin frameSize → ℕ}
      (h : DestNumbers (NumberOfExchanges DIM) (box.frames p).slots dests destParticleIdx) :
      BlockStep c box (.loop (some p) dests) box
        (.frames p destParticleIdx (Finset.range (NumberOfExchanges DIM))
          (counted (box.frames p).slots dests))
  | takeFrames {box box' box'' : ParticlesBox DIM frameSize A} {p : FramePtr}
      {destParticleIdx : Fin frameSize → ℕ}
      {pending : Finset ℕ} {dests : ℕ → Destination} {linearIdx : ℕ} {low high : Option FramePtr}
      (hmem : linearIdx ∈ pending)
      (hlow : TakesFrame (neighborSuperCellIdx c linearIdx) (0 < (dests linearIdx).counter ∧
        isValidSupercellIdx (neighborSuperCellIdx c linearIdx) K.numSupercellsWithGuard ∧
        (dests linearIdx).low = none)
        box (dests linearIdx).low box' low)
      (hhigh : TakesFrame (neighborSuperCellIdx c linearIdx) (0 < (dests linearIdx).counter ∧
        isValidSupercellIdx (neighborSuperCellIdx c linearIdx) K.numSupercellsWithGuard ∧
        frameSize < (dests linearIdx).counter)
        box' (dests linearIdx).high box'' high) :
      BlockStep c box (.frames p destParticleIdx pending dests) box''
        (.frames p destParticleIdx (pending.erase linearIdx)
          (Function.update dests linearIdx { dests linearIdx with low := low, high := high }))
  | framesTaken {box : ParticlesBox DIM frameSize A} {p : FramePtr}
      {destParticleIdx : Fin frameSize → ℕ}
      {dests : ℕ → Destination} :
      BlockStep c box (.frames p destParticleIdx ∅ dests) box
        (.copy p destParticleIdx Finset.univ dests)
  | copyParticle {box : ParticlesBox DIM frameSize A} {p dst : FramePtr}
      {destParticleIdx : Fin frameSize → ℕ}
      {pending : Finset (Fin frameSize)} {dests : ℕ → Destination} {i j : Fin frameSize}
      {direction : ℕ} (hmem : i ∈ pending)
      (hlt : destParticleIdx i < frameSize * 2)
      (hdirection : ((box.frames p).slots i).multiMask = direction + 2)
      (hdst : (dests direction).place frameSize (destParticleIdx i) = (some dst, (j : ℕ))) :
      BlockStep c box (.copy p destParticleIdx pending dests) (copyParticle box p i dst j)
        (.copy p destParticleIdx (pending.erase i) dests)
  | stay {box : ParticlesBox DIM frameSize A} {p : FramePtr} {destParticleIdx : Fin frameSize → ℕ}
      {pending : Finset (Fin frameSize)} {dests : ℕ → Destination} {i : Fin frameSize}
      (hmem : i ∈ pending)
      (hge : frameSize * 2 ≤ destParticleIdx i) :
      BlockStep c box (.copy p destParticleIdx pending dests) box
        (.copy p destParticleIdx (pending.erase i) dests)
  | next {box : ParticlesBox DIM frameSize A} {p : FramePtr} {destParticleIdx : Fin frameSize → ℕ}
      {dests : ℕ → Destination} :
      BlockStep c box (.copy p destParticleIdx ∅ dests) box
        (.loop (box.getNextFrame p) fun linearIdx => (dests linearIdx).nextFrame frameSize)
  | leave {box : ParticlesBox DIM frameSize A} {dests : ℕ → Destination} :
      BlockStep c box (.loop none dests) box
        (.fillGaps (Finset.range (NumberOfExchanges DIM)) dests .start)
  | countParticles {box : ParticlesBox DIM frameSize A} {pending : Finset ℕ}
      {dests : ℕ → Destination} {pc : FillGaps.Pc}
      {linearIdx : ℕ} (hmem : linearIdx ∈ pending) :
      BlockStep c box (.fillGaps pending dests pc) (countParticles K box c linearIdx (dests linearIdx))
        (.fillGaps (pending.erase linearIdx) dests pc)
  | fillGaps {box box' : ParticlesBox DIM frameSize A} {pending : Finset ℕ}
      {dests : ℕ → Destination} {pc pc' : FillGaps.Pc}
      (h : FillGaps.BlockStep c box pc box' pc') :
      BlockStep c box (.fillGaps pending dests pc) box' (.fillGaps pending dests pc')

/-- The kernel with a block for each of these supercells. -/
def system (blocks : Finset (DataSpace DIM)) (box : ParticlesBox DIM frameSize A) :
    StepSystem (State DIM frameSize A) where
  init s := s = ⟨box, fun _ => .start⟩
  step s t := ∃ c ∈ blocks, ∃ box' pc', BlockStep K c s.box (s.pc c) box' pc' ∧
    t = ⟨box', Function.update s.pc c pc'⟩

end Kernel

/-! ## Where the particles of a block go -/

section Directions

variable {K : KernelShiftParticles DIM} {c d : DataSpace DIM} {linearIdx linearIdx' : ℕ}

/-- The directions in which a supercell has a neighbour. -/
def Active (K : KernelShiftParticles DIM) (c : DataSpace DIM) (linearIdx : ℕ) : Prop :=
  linearIdx + 1 < 3 ^ DIM ∧
  isValidSupercellIdx (neighborSuperCellIdx c linearIdx) K.numSupercellsWithGuard

/-- The supercell of a block and its neighbours. -/
def region (K : KernelShiftParticles DIM) (c : DataSpace DIM) : Set (DataSpace DIM) :=
  {d | d = c ∨ ∃ linearIdx, Active K c linearIdx ∧ d = neighborSuperCellIdx c linearIdx}

theorem self_mem_region : c ∈ region K c := Or.inl rfl

theorem Active.mem_region (h : Active K c linearIdx) :
    neighborSuperCellIdx c linearIdx ∈ region K c := Or.inr ⟨linearIdx, h, rfl⟩

/-- The directions of a supercell lead to different neighbours. -/
theorem Active.neighbor_inj (h : Active K c linearIdx) (h' : Active K c linearIdx')
    (heq : neighborSuperCellIdx c linearIdx = neighborSuperCellIdx c linearIdx') :
    linearIdx = linearIdx' :=
  Nat.succ_injective ((getRelativeDirections_inj h.1 h'.1).mp (add_left_cancel heq))

theorem Active.neighbor_ne (h : Active K c linearIdx) : neighborSuperCellIdx c linearIdx ≠ c :=
  fun heq => by
  have hzero : getRelativeDirections DIM (linearIdx + 1) = 0 := left_eq_add.mp heq.symm
  exact absurd ((getRelativeDirections_eq_zero h.1).mp hzero) (Nat.succ_ne_zero _)

/-- The neighbour in a direction, where there is one. -/
def neighborOnly (K : KernelShiftParticles DIM) (c : DataSpace DIM) (linearIdx : ℕ) :
    Set (DataSpace DIM) :=
  {d | Active K c linearIdx ∧ d = neighborSuperCellIdx c linearIdx}

theorem neighborOnly_subset_region : neighborOnly K c linearIdx ⊆ region K c :=
  fun _ h => Or.inr ⟨linearIdx, h⟩

theorem self_notMem_neighborOnly : c ∉ neighborOnly K c linearIdx := fun h => h.1.neighbor_ne h.2.symm

theorem Active.notMem_neighborOnly (h : Active K c linearIdx') (hne : linearIdx' ≠ linearIdx) :
    neighborSuperCellIdx c linearIdx' ∉ neighborOnly K c linearIdx :=
    fun hd => hne (h.neighbor_inj hd.1 hd.2)

theorem abs_neighbor_sub_le (c : DataSpace DIM) (linearIdx : ℕ) (d : Fin DIM) :
    |neighborSuperCellIdx c linearIdx d - c d| ≤ 1 := by
  rw [neighborSuperCellIdx, Pi.add_apply, add_sub_cancel_left]
  rcases getRelativeDirections_mem DIM (linearIdx + 1) d with h | h | h <;> simp [h]

theorem abs_sub_le_of_mem_region (h : d ∈ region K c) (i : Fin DIM) : |d i - c i| ≤ 1 := by
  rcases h with rfl | ⟨linearIdx, -, rfl⟩
  · simp
  · exact abs_neighbor_sub_le c linearIdx i

end Directions

section Movers

variable {slots : Fin frameSize → Slot A} {i : Fin frameSize} {linearIdx direction : ℕ}

theorem mem_movers : i ∈ movers slots linearIdx ↔ (slots i).multiMask = linearIdx + 2 := by
  simp [movers]

/-- The particle of a slot is gone. -/
theorem movers_update (hi : (slots i).multiMask = direction + 2) (linearIdx : ℕ) :
    movers (Function.update slots i { slots i with multiMask := 0 }) linearIdx =
      if linearIdx = direction then (movers slots linearIdx).erase i else movers slots linearIdx := by
  ext j
  rw [mem_movers]
  rcases eq_or_ne j i with rfl | hne
  · rw [Function.update_self]
    split
    · simp
    · next h => simp [mem_movers, hi, Ne.symm h]
  · rw [Function.update_of_ne hne]
    split
    · simp [mem_movers, hne]
    · exact mem_movers.symm

end Movers

/-- The particles of a supercell that leave in a direction. -/
def leaving (E : Multiset (ℕ × A)) (linearIdx : ℕ) : Multiset A :=
  (E.filter fun e => e.1 = linearIdx + 2).map Prod.snd

/-- The particles that stay. -/
def staying (E : Multiset (ℕ × A)) : Multiset (ℕ × A) := E.filter fun e => e.1 = 1

/-- Every particle stays, or leaves to a neighbour. -/
def Aimed (K : KernelShiftParticles DIM) (c : DataSpace DIM) (E : Multiset (ℕ × A)) : Prop :=
  ∀ e ∈ E, e.1 = 1 ∨ ∃ linearIdx, Active K c linearIdx ∧ e.1 = linearIdx + 2

/-! ## The end of a neighbour's list -/

/-- The places that have been counted off and do not wait for a copy. -/
def written (destParticleIdx : Fin frameSize → ℕ) (waiting : Finset (Fin frameSize)) (counter : ℕ) :
    Set ℕ :=
  {w | w < counter ∧ ∀ i ∈ waiting, destParticleIdx i ≠ w}

/-- The frames of a direction are those that its counter needs. -/
def Fits (frameSize : ℕ) (dest : Destination) : Prop :=
  dest.counter ≤ dest.tail.length * frameSize ∧ dest.tail.length * frameSize < dest.counter + frameSize

/-- They are those that the counter needed before it was incremented. -/
def Fresh (frameSize : ℕ) (dest : Destination) (waiting : ℕ) : Prop :=
  ∃ counter < frameSize, Fits frameSize { dest with counter := counter } ∧
  dest.counter = counter + waiting

/-- What a neighbour has received, where it had the particles `E`. -/
structure Receiving (box : ParticlesBox DIM frameSize A) (n : DataSpace DIM) (l : List FramePtr)
    (E : Multiset (ℕ × A))
    (dest : Destination) (W : Set ℕ) (moved : Multiset A) : Prop where
  filling : Filling box l dest.tail W
  entries : box.entries l = E + moved.map (Prod.mk 1)
  numParticles : (box.superCells n).numParticles = E.card

/-- What a direction has achieved. -/
structure Lane (K : KernelShiftParticles DIM) (c : DataSpace DIM) (box : ParticlesBox DIM frameSize A)
    (L : DataSpace DIM → List FramePtr) (E : DataSpace DIM → Multiset (ℕ × A))
    (destParticleIdx : Fin frameSize → ℕ)
    (linearIdx : ℕ) (dest : Destination) (waiting : Finset (Fin frameSize)) (moved : Multiset A) :
    Prop where
  shape : dest.low = none → dest.high = none
  total : dest.newParticleInFrame + dest.counter = ((moved.card + waiting.card : ℕ) : ℤ)
  injOn : Set.InjOn destParticleIdx waiting
  lt : ∀ i ∈ waiting, destParticleIdx i < dest.counter
  receiving : Active K c linearIdx →
    Receiving box (neighborSuperCellIdx c linearIdx) (L (neighborSuperCellIdx c linearIdx))
    (E (neighborSuperCellIdx c linearIdx)) dest (written destParticleIdx waiting dest.counter) moved
  /-- No particle takes a direction without a neighbour. -/
  idle : ¬ Active K c linearIdx → moved = 0 ∧ waiting = ∅ ∧ dest.counter < frameSize ∧
    (dest.low = none → dest.counter = 0)

section Lane

variable {K : KernelShiftParticles DIM} {c n : DataSpace DIM} {box box' : ParticlesBox DIM frameSize A}
  {L L' : DataSpace DIM → List FramePtr} {E : DataSpace DIM → Multiset (ℕ × A)}
  {destParticleIdx : Fin frameSize → ℕ}
  {linearIdx : ℕ} {dest : Destination} {waiting : Finset (Fin frameSize)} {moved : Multiset A}
  {slots : Fin frameSize → Slot A}

theorem written_empty (destParticleIdx : Fin frameSize → ℕ) (counter : ℕ) :
    written destParticleIdx ∅ counter = Set.Iio counter := by
  ext w
  simp [written]

/-- Counting does not write. -/
theorem written_bijOn {counter : ℕ}
    (h : Set.BijOn destParticleIdx waiting (Set.Ico counter (counter + waiting.card))) :
    written destParticleIdx waiting (counter + waiting.card) = Set.Iio counter := by
  ext w
  refine ⟨fun hw => ?_, fun hw => ⟨Nat.lt_add_right _ hw, fun i hi heq => ?_⟩⟩
  · by_contra hge
    obtain ⟨i, hi, hiw⟩ := h.surjOn ⟨not_lt.mp hge, hw.1⟩
    exact hw.2 i hi hiw
  · have hge := (h.mapsTo hi).1
    exact absurd hw (not_lt.mpr (heq ▸ hge))

/-- The place of a particle is written to. -/
theorem written_erase {counter : ℕ} (hinj : Set.InjOn destParticleIdx waiting) {i : Fin frameSize}
    (hi : i ∈ waiting)
    (hlt : destParticleIdx i < counter) :
    written destParticleIdx (waiting.erase i) counter =
      insert (destParticleIdx i) (written destParticleIdx waiting counter) := by
  ext w
  rw [Set.mem_insert_iff]
  constructor
  · intro hw
    rcases eq_or_ne w (destParticleIdx i) with heq | hne
    · exact Or.inl heq
    · refine Or.inr ⟨hw.1, fun j hj heq => ?_⟩
      rcases eq_or_ne j i with rfl | hji
      · exact hne heq.symm
      · exact hw.2 j (Finset.mem_erase.mpr ⟨hji, hj⟩) heq
  · rintro (rfl | hw)
    · exact ⟨hlt, fun j hj heq => Finset.ne_of_mem_erase hj (hinj (Finset.mem_of_mem_erase hj) hi heq)⟩
    · exact ⟨hw.1, fun j hj => hw.2 j (Finset.mem_of_mem_erase hj)⟩

theorem Receiving.congr {l : List FramePtr} {E : Multiset (ℕ × A)} {W : Set ℕ}
    (h : Receiving box n l E dest W moved)
    (hcell : (box'.superCells n).numParticles = (box.superCells n).numParticles)
    (hframes : ∀ p ∈ l, (box'.frames p).slots = (box.frames p).slots) :
    Receiving box' n l E dest W moved :=
  ⟨h.filling.congr hframes, (ParticlesBox.entries_congr hframes).trans h.entries,
    hcell.trans h.numParticles⟩

/-- What a direction has achieved is read off the frames and the counter of the neighbour. -/
theorem Lane.congr (h : Lane K c box L E destParticleIdx linearIdx dest waiting moved)
    (hlist : Active K c linearIdx →
      L' (neighborSuperCellIdx c linearIdx) = L (neighborSuperCellIdx c linearIdx))
    (hcell : Active K c linearIdx → (box'.superCells (neighborSuperCellIdx c linearIdx)).numParticles =
      (box.superCells (neighborSuperCellIdx c linearIdx)).numParticles)
    (hframes : Active K c linearIdx → ∀ p ∈ L (neighborSuperCellIdx c linearIdx),
      (box'.frames p).slots = (box.frames p).slots) :
    Lane K c box' L' E destParticleIdx linearIdx dest waiting moved :=
  ⟨h.shape, h.total, h.injOn, h.lt, fun hactive => by
    rw [hlist hactive]
    exact (h.receiving hactive).congr (hcell hactive) (hframes hactive), h.idle⟩

theorem int32_of_lt {x : ℤ} (hlo : -2 ^ 31 ≤ x) (hhi : x < 2 ^ 31) : int32 x = x :=
  Int.bmod_eq_of_le (by omega) (by omega)

/-- A direction that has not loaded a frame. -/
theorem Lane.empty (hpos : 0 < frameSize)
    (hnear : Active K c linearIdx →
      WellFormed box (neighborSuperCellIdx c linearIdx) (L (neighborSuperCellIdx c linearIdx)) ∧
      box.entries (L (neighborSuperCellIdx c linearIdx)) = E (neighborSuperCellIdx c linearIdx))
    (hfilling : Active K c linearIdx → Filling box (L (neighborSuperCellIdx c linearIdx)) [] ∅) :
    Lane K c box L E destParticleIdx linearIdx Destination.empty ∅ 0 ∧
      (Active K c linearIdx → Fits frameSize Destination.empty ∧
        Destination.empty.counter < frameSize) := by
  have hnone : Destination.empty.tail = [] := rfl
  refine ⟨⟨fun _ => rfl, rfl, by simp, fun i hi => absurd hi (Finset.notMem_empty i), fun hactive => ?_,
    fun _ => ⟨rfl, rfl, hpos, fun _ => rfl⟩⟩, fun _ => ⟨⟨Nat.zero_le _, ?_⟩, hpos⟩⟩
  · obtain ⟨hwell, hentries⟩ := hnear hactive
    have hwritten : written destParticleIdx ∅ Destination.empty.counter = ∅ := by
      rw [written_empty]
      exact Set.Iio_bot
    rw [hwritten]
    refine ⟨hfilling hactive, ?_, ?_⟩
    · rw [hentries, Multiset.map_zero, add_zero]
    · rw [numParticles_eq_card hwell, hentries]
  · rw [hnone, List.length_nil, Nat.zero_mul]
    exact Nat.add_pos_right _ hpos

/-- A direction that has loaded a last frame with room. -/
theorem Lane.loaded (hF : frameSize ≤ INV_LOC_IDX)
    (hnear : Active K c linearIdx →
      WellFormed box (neighborSuperCellIdx c linearIdx) (L (neighborSuperCellIdx c linearIdx)) ∧
      box.entries (L (neighborSuperCellIdx c linearIdx)) =
      E (neighborSuperCellIdx c linearIdx)) {p : FramePtr} {size : ℕ}
    (hlast : (L (neighborSuperCellIdx c linearIdx)).getLast? = some p)
      (hsize : getSizeLastFrame box (neighborSuperCellIdx c linearIdx) = size)
    (hlt : size < frameSize) :
    Lane K c box L E destParticleIdx linearIdx ⟨some p, none, size, int32 (-size)⟩ ∅ 0 ∧
      (Active K c linearIdx → Fits frameSize ⟨some p, none, size, int32 (-size)⟩ ∧
        size < frameSize) := by
  subst hsize
  have hint : int32 (-(getSizeLastFrame box (neighborSuperCellIdx c linearIdx) : ℤ)) =
      -(getSizeLastFrame box (neighborSuperCellIdx c linearIdx) : ℤ) :=
    int32_of_lt (by unfold INV_LOC_IDX at hF; omega) (by omega)
  rw [hint]
  refine ⟨⟨fun hnone => absurd hnone (Option.some_ne_none p), ?_, by
    simp, fun i hi => absurd hi (Finset.notMem_empty i),
    fun hactive => ?_, fun _ => ⟨rfl, rfl, hlt, fun hnone => absurd hnone (Option.some_ne_none p)⟩⟩,
  fun hactive => ?_⟩
  · simp
  · obtain ⟨hwell, hentries⟩ := hnear hactive
    obtain ⟨-, hfilling, -⟩ := filling_of_wellFormed hwell hlast
    rw [written_empty]
    refine ⟨hfilling hlt, ?_, ?_⟩
    · rw [hentries, Multiset.map_zero, add_zero]
    · rw [numParticles_eq_card hwell, hentries]
  · obtain ⟨hpos, -⟩ := filling_of_wellFormed (hnear hactive).1 hlast
    refine ⟨⟨?_, ?_⟩, hlt⟩
    · show getSizeLastFrame box _ ≤ 1 * frameSize
      omega
    · show 1 * frameSize < getSizeLastFrame box _ + frameSize
      omega

/-- **A direction at the beginning.** -/
theorem Lane.load (hF : frameSize ≤ INV_LOC_IDX) (h : box.Holds L)
    (hnear : Active K c linearIdx →
      WellFormed box (neighborSuperCellIdx c linearIdx) (L (neighborSuperCellIdx c linearIdx)) ∧
      box.entries (L (neighborSuperCellIdx c linearIdx)) =
      E (neighborSuperCellIdx c linearIdx)) (hpos : 0 < frameSize) :
    Lane K c box L E destParticleIdx linearIdx (loadFrame K box c linearIdx) ∅ 0 ∧
      (Active K c linearIdx → Fits frameSize (loadFrame K box c linearIdx) ∧
        (loadFrame K box c linearIdx).counter < frameSize) := by
  have hlast := h.getLastFrame (neighborSuperCellIdx c linearIdx)
  rw [loadFrame]
  split
  · split
    · next p hp =>
      rw [hp] at hlast
      dsimp only
      split
      · next hlt => exact Lane.loaded hF hnear hlast.symm rfl hlt
      · next hge =>
        exact Lane.empty hpos hnear fun hactive =>
          (filling_of_wellFormed (hnear hactive).1 hlast.symm).2.2 (not_lt.mp hge)
    · next hp =>
      rw [hp] at hlast
      refine Lane.empty hpos hnear fun _ => ?_
      rw [List.getLast?_eq_none_iff.mp hlast.symm]
      exact Filling.nil
  · next hvalid => exact Lane.empty hpos hnear fun hactive => absurd hactive.2 hvalid

/-- **Counting off places** for the particles of a frame. -/
theorem Lane.count {counter : ℕ} (h : Lane K c box L E destParticleIdx linearIdx dest ∅ moved)
    (hcounter : dest.counter = counter)
    {number : Fin frameSize → ℕ}
    (hnumber : Set.BijOn number waiting (Set.Ico counter (counter + waiting.card)))
    (hidle : ¬ Active K c linearIdx → waiting = ∅) :
    Lane K c box L E number linearIdx
      { dest with counter := counter + waiting.card } waiting moved := by
  subst hcounter
  refine ⟨h.shape, ?_, hnumber.injOn, fun i hi => (hnumber.mapsTo hi).2, fun hactive => ?_,
    fun hnot => ?_⟩
  · have htotal := h.total
    rw [Finset.card_empty] at htotal
    push_cast at htotal ⊢
    linarith
  · have hreceiving := h.receiving hactive
    rw [written_empty] at hreceiving
    rw [written_bijOn hnumber]
    exact ⟨hreceiving.filling, hreceiving.entries, hreceiving.numParticles⟩
  · obtain ⟨hmoved, -, hlt, hlow⟩ := h.idle hnot
    rw [hidle hnot, Finset.card_empty, Nat.add_zero]
    exact ⟨hmoved, rfl, hlt, hlow⟩

/-- Where a direction has counted off places, it has a low frame. -/
theorem Fits.exists_low (h : Fits frameSize dest) (hshape : dest.low = none → dest.high = none)
    (hpos : 0 < dest.counter) :
    ∃ low, dest.tail = low :: dest.high.toList := by
  obtain ⟨low, hlow⟩ : ∃ low, dest.low = some low := by
    refine Option.ne_none_iff_exists'.mp fun hnone => ?_
    have hle := h.1
    rw [Destination.tail, hnone, hshape hnone] at hle
    simp at hle
    omega
  exact ⟨low, by rw [Destination.tail, hlow]; rfl⟩

theorem Destination.nextFrame_of_ge (hge : frameSize ≤ dest.counter) : dest.nextFrame frameSize =
    ⟨dest.high, none, dest.counter - frameSize, int32 (dest.newParticleInFrame + frameSize)⟩ :=
    if_pos hge

theorem Destination.nextFrame_of_lt (hlt : dest.counter < frameSize) :
    dest.nextFrame frameSize = dest := if_neg (not_le.mpr hlt)

theorem Destination.tail_nextFrame (hge : frameSize ≤ dest.counter) :
    (dest.nextFrame frameSize).tail = dest.high.toList := by
  rw [Destination.nextFrame_of_ge hge]
  simp [Destination.tail]

theorem Fits.nextFrame (h : Fits frameSize dest) (hshape : dest.low = none → dest.high = none)
    (hlt : dest.counter < 2 * frameSize) :
    Fits frameSize (dest.nextFrame frameSize) ∧ (dest.nextFrame frameSize).counter < frameSize := by
  rcases lt_or_ge dest.counter frameSize with hsmall | hge
  · rw [Destination.nextFrame_of_lt hsmall]
    exact ⟨h, hsmall⟩
  · obtain ⟨low, htail⟩ := h.exists_low hshape (by omega)
    obtain ⟨hle, hgt⟩ := h
    rw [htail, List.length_cons, Nat.succ_mul] at hle hgt
    rw [Fits, Destination.tail_nextFrame hge, Destination.nextFrame_of_ge hge]
    dsimp only
    omega

/-- **The frames of a direction are used up**: a full low frame is left behind. -/
theorem Lane.nextFrame (h : Lane K c box L E destParticleIdx linearIdx dest ∅ moved)
    (hF : frameSize ≤ INV_LOC_IDX)
    (hmoved : moved.card < 2 ^ 31)
    (hfits : Active K c linearIdx → Fits frameSize dest ∧ dest.counter < 2 * frameSize) :
    Lane K c box L E destParticleIdx linearIdx (dest.nextFrame frameSize) ∅ moved ∧
      (Active K c linearIdx → Fits frameSize (dest.nextFrame frameSize) ∧
        (dest.nextFrame frameSize).counter < frameSize) := by
  refine ⟨?_, fun hactive => (hfits hactive).1.nextFrame h.shape (hfits hactive).2⟩
  rcases lt_or_ge dest.counter frameSize with hsmall | hge
  · rwa [Destination.nextFrame_of_lt hsmall]
  have hactive : Active K c linearIdx := by
    by_contra hnot
    exact absurd hge (not_le.mpr (h.idle hnot).2.2.1)
  obtain ⟨hfit, hbound⟩ := hfits hactive
  obtain ⟨low, htail⟩ := hfit.exists_low h.shape (by omega)
  have hnew := Destination.tail_nextFrame hge
  have htotal := h.total
  rw [Finset.card_empty, Nat.add_zero] at htotal
  have hint : int32 (dest.newParticleInFrame + frameSize) = dest.newParticleInFrame + frameSize :=
    int32_of_lt (by unfold INV_LOC_IDX at hF; omega) (by omega)
  have hreceiving := h.receiving hactive
  have hfilling := hreceiving.filling
  rw [written_empty, htail] at hfilling
  have hplaces : {w | w + frameSize ∈ Set.Iio dest.counter} = Set.Iio (dest.counter - frameSize) := by
    ext w
    show w + frameSize < dest.counter ↔ w < dest.counter - frameSize
    omega
  have hdrop := hfilling.drop fun i hi => hi.trans_le hge
  rw [hplaces, ← hnew] at hdrop
  rw [Destination.nextFrame_of_ge hge, hint] at hdrop ⊢
  refine ⟨fun _ => rfl, ?_, by
    simp, fun i hi => absurd hi (Finset.notMem_empty i), fun _ => ?_, fun hnot => absurd hactive hnot⟩
  · rw [Finset.card_empty, Nat.add_zero]
    dsimp only
    omega
  · rw [written_empty]
    exact ⟨hdrop, hreceiving.entries, hreceiving.numParticles⟩

end Lane

/-! ## Frames for the neighbours -/

section Frames

variable {K : KernelShiftParticles DIM} {c n : DataSpace DIM}
  {box box' box'' : ParticlesBox DIM frameSize A}
  {L : DataSpace DIM → List FramePtr} {E : DataSpace DIM → Multiset (ℕ × A)}
  {destParticleIdx : Fin frameSize → ℕ}
  {linearIdx : ℕ} {dest dest' : Destination} {waiting : Finset (Fin frameSize)} {moved : Multiset A}
  {p q : FramePtr}

theorem slots_append_of_ne (hne : q ≠ p) (n : DataSpace DIM) :
    (((box.getEmptyFrame p).setAsLastFrame p n).frames q).slots = (box.frames q).slots := by
  rw [ParticlesBox.setAsLastFrame, ParticlesBox.setAsEnd_slots]
  exact congrArg Frame.slots (ParticlesBox.setFrame_frames_of_ne _ hne)

theorem slots_append_self (n : DataSpace DIM) (i : Fin frameSize) :
    ((((box.getEmptyFrame p).setAsLastFrame p n).frames p).slots i).multiMask = 0 := by
  rw [ParticlesBox.setAsLastFrame, ParticlesBox.setAsEnd_slots]
  simp [ParticlesBox.getEmptyFrame, ParticlesBox.setSlots]

theorem counters_append (n d : DataSpace DIM) :
    (((box.getEmptyFrame p).setAsLastFrame p n).superCells d).numParticles =
    (box.superCells d).numParticles ∧
      (((box.getEmptyFrame p).setAsLastFrame p n).superCells d).mustShift =
      (box.superCells d).mustShift :=
  ParticlesBox.setAsLastFrame_counters _ p n d

/-- A frame for a direction. -/
theorem Lane.append (h : Lane K c box L E destParticleIdx linearIdx dest waiting moved)
    (hactive : Active K c linearIdx)
    (hbox : box.Holds L) (hp : p ∉ box.allocated) (htail : dest'.tail = dest.tail ++ [p])
    (hshape : dest'.low = none → dest'.high = none)
    (hcounter : dest'.counter = dest.counter)
    (hnew : dest'.newParticleInFrame = dest.newParticleInFrame) :
    Lane K c ((box.getEmptyFrame p).setAsLastFrame p (neighborSuperCellIdx c linearIdx))
      (Function.update L (neighborSuperCellIdx c linearIdx)
        (L (neighborSuperCellIdx c linearIdx) ++ [p])) E destParticleIdx
      linearIdx dest' waiting moved := by
  have hreceiving := h.receiving hactive
  have hslots : ∀ q ∈ L (neighborSuperCellIdx c linearIdx),
      (((box.getEmptyFrame p).setAsLastFrame p (neighborSuperCellIdx c linearIdx)).frames q).slots =
      (box.frames q).slots :=
    fun q hq => by
      have hne : q ≠ p := fun heq => hp (heq ▸ hbox.allocated _ q hq)
      exact slots_append_of_ne hne _
  refine ⟨hshape, by rw [hcounter, hnew]; exact h.total, h.injOn, fun i hi => hcounter ▸ h.lt i hi, fun _ => ?_,
    fun hnot => absurd hactive hnot⟩
  rw [Function.update_self, hcounter]
  refine ⟨htail ▸ hreceiving.filling.append hslots (slots_append_self _), ?_, ?_⟩
  · have hzero : slotEntries
      (((box.getEmptyFrame p).setAsLastFrame p (neighborSuperCellIdx c linearIdx)).frames p).slots =
      0 :=
      Finset.sum_eq_zero fun i _ => Slot.entry_of_zero (slots_append_self _ i)
    rw [ParticlesBox.entries_append, ParticlesBox.entries_cons, ParticlesBox.entries_nil, hzero,
      add_zero, add_zero,
      ParticlesBox.entries_congr hslots, hreceiving.entries]
  · rw [(counters_append _ _).1, hreceiving.numParticles]

/-- The frames that a direction has before its thread looks for more. -/
theorem Fresh.tail_cases (h : Fresh frameSize dest waiting.card)
    (hshape : dest.low = none → dest.high = none) :
    dest.counter < 2 * frameSize ∧ (dest.low = none ∧ dest.tail = [] ∧ dest.counter ≤ frameSize ∨
      ∃ low, dest.low = some low ∧ dest.tail = [low] ∧ 0 < dest.counter) := by
  obtain ⟨counter, hlt, ⟨hle, hge⟩, hcounter⟩ := h
  have htail : ({ dest with counter := counter } : Destination).tail = dest.tail := rfl
  have hcard := card_le_frameSize waiting
  rw [htail] at hle hge
  dsimp only at hle hge
  refine ⟨by omega, ?_⟩
  rcases hlow : dest.low with _ | low
  · have hnil : dest.tail = [] := by rw [Destination.tail, hlow, hshape hlow]; rfl
    rw [hnil, List.length_nil, Nat.zero_mul] at hle
    exact Or.inl ⟨rfl, hnil, by omega⟩
  · -- the counter needed one frame at most
    have hone : dest.high = none := by
      by_contra hsome
      obtain ⟨high, hhigh⟩ := Option.ne_none_iff_exists'.mp hsome
      have hlength : dest.tail.length = 2 := by rw [Destination.tail, hlow, hhigh]; rfl
      rw [hlength] at hge
      omega
    have hsingle : dest.tail = [low] := by rw [Destination.tail, hlow, hone]; rfl
    rw [hsingle, List.length_singleton] at hge
    exact Or.inr ⟨low, rfl, hsingle, by omega⟩

theorem fits_of_length {n : ℕ} (hlength : dest.tail.length = n) (hle : dest.counter ≤ n * frameSize)
    (hlt : n * frameSize < dest.counter + frameSize) : Fits frameSize dest := by
  subst hlength
  exact ⟨hle, hlt⟩

/-- A direction whose thread has looked for frames. -/
structure Supplied (K : KernelShiftParticles DIM) (c : DataSpace DIM)
    (box : ParticlesBox DIM frameSize A)
    (L : DataSpace DIM → List FramePtr) (E : DataSpace DIM → Multiset (ℕ × A))
    (destParticleIdx : Fin frameSize → ℕ) (linearIdx : ℕ)
    (waiting : Finset (Fin frameSize)) (moved : Multiset A) (dest' : Destination)
    (box' : ParticlesBox DIM frameSize A)
    (L' : DataSpace DIM → List FramePtr) : Prop where
  within : Within (neighborOnly K c linearIdx) L box L' box'
  mustShift : ∀ d, (box'.superCells d).mustShift = (box.superCells d).mustShift
  lane : Lane K c box' L' E destParticleIdx linearIdx dest' waiting moved
  fits : Active K c linearIdx → Fits frameSize dest' ∧ dest'.counter < 2 * frameSize

theorem Supplied.append (h : Lane K c box L E destParticleIdx linearIdx dest waiting moved)
    (hactive : Active K c linearIdx)
    (hbox : box.Holds L) (hp : p ∉ box.allocated) (htail : dest'.tail = dest.tail ++ [p])
    (hshape : dest'.low = none → dest'.high = none)
    (hcounter : dest'.counter = dest.counter)
    (hnew : dest'.newParticleInFrame = dest.newParticleInFrame)
    (hfits : Fits frameSize dest') (hlt : dest'.counter < 2 * frameSize) :
    ∃ L', Supplied K c box L E destParticleIdx linearIdx waiting moved dest'
      ((box.getEmptyFrame p).setAsLastFrame p (neighborSuperCellIdx c linearIdx)) L' :=
  ⟨_, (Within.append hbox hp _).mono (Set.singleton_subset_iff.mpr ⟨hactive, rfl⟩),
    fun d => (counters_append _ d).2,
    h.append hactive hbox hp htail hshape hcounter hnew, fun _ => ⟨hfits, hlt⟩⟩

theorem Supplied.ofSame (h : Lane K c box L E destParticleIdx linearIdx dest waiting moved)
    (hbox : box.Holds L)
    (hfits : Active K c linearIdx → Fits frameSize dest ∧ dest.counter < 2 * frameSize) :
    ∃ L', Supplied K c box L E destParticleIdx linearIdx waiting moved dest box L' :=
  ⟨L, Within.refl hbox, fun _ => rfl, h, hfits⟩

/-- **The thread of a direction looks for frames**: afterwards the direction has those that it needs. -/
theorem Lane.takeFrames (h : Lane K c box L E destParticleIdx linearIdx dest waiting moved)
    (hbox : box.Holds L)
    (hfresh : Active K c linearIdx → Fresh frameSize dest waiting.card) {low high : Option FramePtr}
    (hlow : TakesFrame (neighborSuperCellIdx c linearIdx) (0 < dest.counter ∧
      isValidSupercellIdx (neighborSuperCellIdx c linearIdx) K.numSupercellsWithGuard ∧
      dest.low = none) box dest.low box' low)
    (hhigh : TakesFrame (neighborSuperCellIdx c linearIdx) (0 < dest.counter ∧
      isValidSupercellIdx (neighborSuperCellIdx c linearIdx) K.numSupercellsWithGuard ∧
      frameSize < dest.counter)
      box' dest.high box'' high) :
    ∃ L', Supplied K c box L E destParticleIdx linearIdx waiting moved
      { dest with low := low, high := high } box'' L' := by
  by_cases hactive : Active K c linearIdx
  · obtain ⟨hlt, ⟨hnone, hnil, hle⟩ | ⟨ptr, hsome, hsingle, hpos⟩⟩ :=
      (hfresh hactive).tail_cases h.shape
    · have hhigh' : dest.high = none := h.shape hnone
      rcases hhigh with ⟨⟨-, -, hbig⟩, -⟩ | -
      · omega
      rcases hlow with ⟨⟨hpos, -, -⟩, hp⟩ | hnot
      · -- a low frame
        rw [hhigh']
        refine Supplied.append h hactive hbox hp ?_ (fun _ => rfl) rfl rfl
          (fits_of_length (n := 1) rfl ?_ ?_) hlt
        · rw [hnil]
          rfl
        · show dest.counter ≤ 1 * frameSize
          omega
        · show 1 * frameSize < dest.counter + frameSize
          omega
      · have hzero : dest.counter = 0 := by
          by_contra hne
          exact hnot ⟨Nat.pos_of_ne_zero hne, hactive.2, hnone⟩
        have hfits : Fits frameSize dest := by
          refine fits_of_length
            (congrArg List.length hnil) ?_ ?_ <;> rw [List.length_nil, Nat.zero_mul] <;> omega
        exact Supplied.ofSame h hbox fun _ => ⟨hfits, hlt⟩
    · rcases hlow with ⟨⟨-, -, hnone⟩, -⟩ | -
      · exact absurd (hsome.symm.trans hnone) (Option.some_ne_none ptr)
      rcases hhigh with ⟨⟨-, -, hbig⟩, hp⟩ | hnot
      · -- a high frame
        refine Supplied.append h hactive hbox hp ?_
          (fun hnone => absurd (hsome.symm.trans hnone) (Option.some_ne_none ptr)) rfl rfl
          (fits_of_length (n := 2) ?_ hlt.le ?_) hlt
        · rw [hsingle, Destination.tail, hsome]
          rfl
        · rw [Destination.tail, hsome]
          rfl
        · show 2 * frameSize < dest.counter + frameSize
          omega
      · have hle : dest.counter ≤ frameSize := by
          by_contra hbig
          exact hnot ⟨hpos, hactive.2, not_le.mp hbig⟩
        have hfits : Fits frameSize dest := by
          refine fits_of_length
            (congrArg List.length hsingle) ?_ ?_ <;> rw [List.length_singleton] <;> omega
        exact Supplied.ofSame h hbox fun _ => ⟨hfits, hlt⟩
  · -- nothing waits for the direction
    obtain ⟨-, -, hlt, hlow'⟩ := h.idle hactive
    rcases hlow with ⟨⟨hpos, -, hnone⟩, -⟩ | -
    · have hzero := hlow' hnone
      omega
    rcases hhigh with ⟨⟨-, -, hbig⟩, -⟩ | -
    · omega
    exact Supplied.ofSame h hbox fun hactive' => absurd hactive' hactive

end Frames

/-! ## Copying a particle -/

section Copy

variable {K : KernelShiftParticles DIM} {c : DataSpace DIM} {box : ParticlesBox DIM frameSize A}
  {L : DataSpace DIM → List FramePtr}
  {E : DataSpace DIM → Multiset (ℕ × A)} {destParticleIdx : Fin frameSize → ℕ} {linearIdx w : ℕ}
  {dest : Destination}
  {waiting : Finset (Fin frameSize)} {moved : Multiset A} {p dst : FramePtr} {i j : Fin frameSize}

/-- The place of a particle is in the frames of its direction. -/
theorem Destination.place_eq (hshape : dest.low = none → dest.high = none) {slot : ℕ}
    (h : dest.place frameSize w = (some dst, slot)) :
    ∃ k, dest.tail[k]? = some dst ∧ w = k * frameSize + slot := by
  rw [Destination.place] at h
  split at h
  · next hge =>
    obtain ⟨hhigh, rfl⟩ := Prod.mk.inj h
    obtain ⟨low, hlow⟩ := Option.ne_none_iff_exists'.mp fun hnone =>
      Option.some_ne_none dst (hhigh.symm.trans (hshape hnone))
    refine ⟨1, ?_, by omega⟩
    rw [Destination.tail, hlow, hhigh]
    rfl
  · obtain ⟨hlow, rfl⟩ := Prod.mk.inj h
    refine ⟨0, ?_, by omega⟩
    rw [Destination.tail, hlow]
    rfl

/-- There is a place for every particle that was counted. -/
theorem Destination.exists_place (hw : w < dest.tail.length * frameSize)
    (hshape : dest.low = none → dest.high = none) :
    ∃ (dst : FramePtr) (j : Fin frameSize), dest.place frameSize w = (some dst, (j : ℕ)) := by
  rcases hlow : dest.low with _ | low
  · rw [Destination.tail, hlow, hshape hlow] at hw
    simp at hw
  · rw [Destination.place]
    split
    · next hge =>
      rcases hhigh : dest.high with _ | high
      · rw [Destination.tail, hlow, hhigh] at hw
        simp at hw
        omega
      · rw [Destination.tail, hlow, hhigh] at hw
        have hlt : w - frameSize < frameSize := by
          simp at hw
          omega
        exact ⟨high, ⟨w - frameSize, hlt⟩, rfl⟩
    · next hlt => exact ⟨low, ⟨w, not_le.mp hlt⟩, by rw [hlow]⟩

theorem copyParticle_of_ne {q : FramePtr} (hp : q ≠ p) (hdst : q ≠ dst) :
    (copyParticle box p i dst j).frames q = box.frames q := by
  rw [copyParticle, ParticlesBox.setSlots, ParticlesBox.setFrame_frames_of_ne _ hp,
    ParticlesBox.setSlots,
    ParticlesBox.setFrame_frames_of_ne _ hdst]

theorem copyParticle_src (hne : p ≠ dst) : ((copyParticle box p i dst j).frames p).slots =
    Function.update (box.frames p).slots i { (box.frames p).slots i with multiMask := 0 } := by
  have hsame : (box.setSlots dst
    (Function.update (box.frames dst).slots j ⟨1, ((box.frames p).slots i).attributes⟩)).frames p =
      box.frames p := ParticlesBox.setFrame_frames_of_ne _ hne
  rw [copyParticle, hsame, ParticlesBox.setSlots, ParticlesBox.setFrame_frames_self]

/-- **A particle arrives** at the neighbour in its direction. -/
theorem Lane.copy (h : Lane K c box L E destParticleIdx linearIdx dest waiting moved)
    (hbox : box.Holds L) (hactive : Active K c linearIdx)
    (hp : p ∈ L c) (hi : i ∈ waiting)
    (hdst : dest.place frameSize (destParticleIdx i) = (some dst, (j : ℕ))) :
    dst ∈ L (neighborSuperCellIdx c linearIdx) ∧
      Lane K c (copyParticle box p i dst j) L E destParticleIdx linearIdx dest (waiting.erase i)
        (moved + {((box.frames p).slots i).attributes}) := by
  obtain ⟨k, htail, hplace⟩ := Destination.place_eq h.shape hdst
  have hreceiving := h.receiving hactive
  obtain ⟨front, hlist, -⟩ := hreceiving.filling.exists_front
  have hmem : dst ∈ L (neighborSuperCellIdx c linearIdx) :=
    hlist ▸ List.mem_append_right _ (List.mem_of_getElem? htail)
  refine ⟨hmem, h.shape, ?_, h.injOn.mono (Finset.coe_subset.mpr (Finset.erase_subset i waiting)),
    fun i' hi' => h.lt i' (Finset.mem_of_mem_erase hi'), fun _ => ?_, fun hnot => absurd hactive hnot⟩
  · have htotal := h.total
    have hcard := Finset.card_erase_add_one hi
    rw [Multiset.card_add, Multiset.card_singleton]
    push_cast at htotal ⊢
    omega
  · rw [written_erase h.injOn hi (h.lt i hi)]
    set slot : Slot A := ⟨1, ((box.frames p).slots i).attributes⟩ with hslot
    have hnodup := hbox.nodup (neighborSuperCellIdx c linearIdx)
    -- the source is in the list of the block's own supercell
    have hframes : ∀ q ∈ L (neighborSuperCellIdx c linearIdx), (copyParticle box p i dst j).frames q =
        (box.setSlots dst (Function.update (box.frames dst).slots j slot)).frames q := fun q hq =>
      ParticlesBox.setFrame_frames_of_ne _ fun heq =>
        hbox.notMem_of_ne hp hactive.neighbor_ne (heq ▸ hq)
    have hgap : ((box.frames dst).slots j).multiMask = 0 := by
      by_contra hne
      have hwritten := (hreceiving.filling.places k dst htail j).mp hne
      exact hwritten.2 i hi hplace
    refine ⟨?_, ?_, hreceiving.numParticles⟩
    · have hwrite : Filling (box.setSlots dst (Function.update (box.frames dst).slots j slot))
        (L (neighborSuperCellIdx c linearIdx))
          dest.tail (insert (k * frameSize + j) (written destParticleIdx waiting dest.counter)) :=
        hreceiving.filling.write hnodup htail one_ne_zero rfl
      rw [← hplace] at hwrite
      exact hwrite.congr fun q hq => congrArg Frame.slots (hframes q hq)
    · have hentries : (box.setSlots dst (Function.update (box.frames dst).slots j slot)).entries
        (L (neighborSuperCellIdx c linearIdx)) +
          ((box.frames dst).slots j).entry = box.entries (L (neighborSuperCellIdx c linearIdx)) +
          slot.entry :=
        ParticlesBox.entries_setSlots hnodup hmem j slot
      rw [Slot.entry_of_zero hgap, add_zero, Slot.entry_of_ne_zero one_ne_zero] at hentries
      rw [ParticlesBox.entries_congr fun q hq => congrArg Frame.slots (hframes q hq), hentries,
        hreceiving.entries, Multiset.map_add,
        Multiset.map_singleton, add_assoc]

/-- What the copy leaves in the supercell of the block. -/
theorem entries_copyParticle (hbox : box.Holds L) (hp : p ∈ L c) (hdst : dst ∉ L c)
    (hi : ((box.frames p).slots i).multiMask ≠ 0) :
    (copyParticle box p i dst j).entries (L c) +
    {(((box.frames p).slots i).multiMask, ((box.frames p).slots i).attributes)} =
      box.entries (L c) := by
  have hne : p ≠ dst := fun heq => hdst (heq ▸ hp)
  have hframes : ∀ q ∈ L c, ((copyParticle box p i dst j).frames q).slots =
      ((box.setSlots p (Function.update (box.frames p).slots i
        { (box.frames p).slots i with multiMask := 0 })).frames q).slots := by
    intro q hq
    rcases eq_or_ne q p with rfl | hqp
    · rw [copyParticle_src hne, ParticlesBox.setSlots, ParticlesBox.setFrame_frames_self]
    · have hqdst : q ≠ dst := fun heq => hdst (heq ▸ hq)
      rw [copyParticle_of_ne hqp hqdst, ParticlesBox.setSlots, ParticlesBox.setFrame_frames_of_ne _ hqp]
  have hentries :
      (box.setSlots p (Function.update (box.frames p).slots i
        { (box.frames p).slots i with multiMask := 0 })).entries (L c) +
      ((box.frames p).slots i).entry =
      box.entries (L c) + Slot.entry { (box.frames p).slots i with multiMask := 0 } :=
    ParticlesBox.entries_setSlots (hbox.nodup c) hp i _
  have hgone : Slot.entry { (box.frames p).slots i with multiMask := 0 } = 0 := Slot.entry_of_zero rfl
  rw [hgone, add_zero, Slot.entry_of_ne_zero hi] at hentries
  rw [ParticlesBox.entries_congr hframes, hentries]

end Copy

/-! ## Telling the neighbours -/

section Count

variable {K : KernelShiftParticles DIM} {c : DataSpace DIM} {box : ParticlesBox DIM frameSize A}
  {L : DataSpace DIM → List FramePtr}
  {E : DataSpace DIM → Multiset (ℕ × A)} {destParticleIdx : Fin frameSize → ℕ} {linearIdx : ℕ}
  {dest : Destination} {moved : Multiset A}

theorem setNumParticles_self (box : ParticlesBox DIM frameSize A) (c : DataSpace DIM) :
    box.setNumParticles c (box.superCells c).numParticles = box := by
  rw [ParticlesBox.setNumParticles, ParticlesBox.setSuperCell, Function.update_eq_self]

/-- Whether or not the counter of the neighbour is written to, it is right afterwards. -/
theorem countParticles_eq (hactive : Active K c linearIdx)
    (htotal : dest.newParticleInFrame + dest.counter = (moved.card : ℤ))
    (hnum : (box.superCells (neighborSuperCellIdx c linearIdx)).numParticles =
      (E (neighborSuperCellIdx c linearIdx)).card)
    (hlt : (E (neighborSuperCellIdx c linearIdx)).card + moved.card < 2 ^ 31) :
    countParticles K box c linearIdx dest = box.setNumParticles (neighborSuperCellIdx c linearIdx)
      ((E (neighborSuperCellIdx c linearIdx)).card + moved.card) := by
  have hint : int32 (dest.newParticleInFrame + dest.counter) = (moved.card : ℤ) := by
    rw [htotal]
    exact int32_of_lt (by omega) (by omega)
  rw [countParticles, hint]
  split
  · rw [hnum]
    congr 1
    omega
  · next hnot =>
    have hzero : moved.card = 0 := by
      by_contra hne
      exact hnot ⟨by omega, hactive.2⟩
    rw [hzero, Nat.add_zero, ← hnum, setNumParticles_self]

theorem setNumParticles_mustShift (size : ℕ) (d : DataSpace DIM) :
    ((box.setNumParticles c size).superCells d).mustShift = (box.superCells d).mustShift := by
  rcases eq_or_ne d c with rfl | hne
  · rw [ParticlesBox.setNumParticles, ParticlesBox.setSuperCell_superCells_self]
  · rw [ParticlesBox.setNumParticles, ParticlesBox.setSuperCell_superCells_of_ne _ hne]

/-- **A neighbour that was told** is well-formed again. -/
theorem Lane.countParticles (h : Lane K c box L E destParticleIdx linearIdx dest ∅ moved)
    (hbox : box.Holds L)
    (hlt : Active K c linearIdx → (E (neighborSuperCellIdx c linearIdx)).card + moved.card < 2 ^ 31)
    (hfits : Active K c linearIdx → Fits frameSize dest ∧ dest.counter < frameSize) :
    Within (neighborOnly K c linearIdx) L box L (ShiftParticles.countParticles K box c linearIdx dest) ∧
      (∀ d, ((ShiftParticles.countParticles K box c linearIdx dest).superCells d).mustShift =
        (box.superCells d).mustShift) ∧
      (Active K c linearIdx →
        WellFormed (ShiftParticles.countParticles K box c linearIdx dest)
          (neighborSuperCellIdx c linearIdx)
          (L (neighborSuperCellIdx c linearIdx)) ∧
        (ShiftParticles.countParticles K box c linearIdx dest).entries
          (L (neighborSuperCellIdx c linearIdx)) =
          E (neighborSuperCellIdx c linearIdx) + moved.map (Prod.mk 1)) := by
  have htotal : dest.newParticleInFrame + dest.counter = (moved.card : ℤ) := by
    have htotal := h.total
    rwa [Finset.card_empty, Nat.add_zero] at htotal
  by_cases hactive : Active K c linearIdx
  · have hreceiving := h.receiving hactive
    have hfilling := hreceiving.filling
    rw [written_empty] at hfilling
    rw [countParticles_eq hactive htotal hreceiving.numParticles (hlt hactive)]
    set n := neighborSuperCellIdx c linearIdx
    set size := (E n).card + moved.card
    have hcard : (box.entries (L n)).card = size := by
      rw [hreceiving.entries, Multiset.card_add, Multiset.card_map]
    have hwithin : Within {n} L box L (box.setNumParticles n size) := Within.setNumParticles hbox size
    refine ⟨hwithin.mono (Set.singleton_subset_iff.mpr ⟨hactive, rfl⟩),
      setNumParticles_mustShift size, fun _ => ⟨?_, hreceiving.entries⟩⟩
    have hfilling' : Filling (box.setNumParticles n size) (L n) dest.tail (Set.Iio dest.counter) :=
      hfilling.congr fun _ _ => rfl
    refine hfilling'.wellFormed (hwithin.holds.list n) (hfits hactive).2 (hfits hactive).1.2 ?_ ?_
    · rw [ParticlesBox.setNumParticles, ParticlesBox.setSuperCell_superCells_self]
      exact hcard.symm
    · have hbound := hlt hactive
      exact hcard.trans_lt (hbound.trans (by decide))
  · -- nothing came this way
    obtain ⟨hmoved, -⟩ := h.idle hactive
    have hbox' : ShiftParticles.countParticles K box c linearIdx dest = box := by
      rw [ShiftParticles.countParticles, htotal, hmoved, Multiset.card_zero]
      exact if_neg fun hpos => absurd hpos.1 (by decide)
    rw [hbox']
    exact ⟨Within.refl hbox, fun _ => rfl, fun hactive' => absurd hactive' hactive⟩

end Count

end ShiftParticles
end PmaccParticles
end Spearhed
