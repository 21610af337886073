import Mathlib.Algebra.Order.Group.Multiset
import Mathlib.Tactic.Abel
import Spearhed.Library.LinkedList
import Spearhed.Mappings.DataSpace

/-!
# Frame lists of supercells

A particle buffer holds, for every supercell, a doubly linked list of frames; a frame has a fixed
number of slots, and a slot holds a particle exactly when its `multiMask` is not zero.

The functions of `ParticlesBox` are here as they write to memory.  A frame is put at the front of a
list in the same way as at the end, with the roles of the pointers exchanged, so the code for both is
written once, for a `ListEnd`.  `ParticlesBox.Holds` says which frames the supercells hold, in order.

* `Holds.congr`, `Holds.update`: only pointers matter, and only those of the own supercell.
* `Holds.removeLastFrame`, `Holds.setAsLastFrame`: what the list operations do to the frames of a
  supercell.
* `ParticlesBox.particles`: the particles of a list of frames.
-/

namespace Spearhed
namespace PmaccParticles

open Library Mappings

/-- An address in the memory of the device.  The null pointer is `none`. -/
abbrev FramePtr : Type := ℕ

/-- A place for a particle: the mask, and all of the other attributes. -/
structure Slot (A : Type) where
  multiMask : ℕ
  attributes : A

structure Frame (frameSize : ℕ) (A : Type) where
  slots : Fin frameSize → Slot A
  previousFrame : Option FramePtr
  nextFrame : Option FramePtr

structure SuperCell where
  firstFramePtr : Option FramePtr
  lastFramePtr : Option FramePtr
  numParticles : ℕ
  mustShift : Bool

/-- The two ends of a frame list. -/
inductive ListEnd
  | first
  | last

def ListEnd.other : ListEnd → ListEnd
  | .first => .last
  | .last => .first

/-- The pointer to one end of the list of a supercell. -/
def SuperCell.endPtr (superCell : SuperCell) : ListEnd → Option FramePtr
  | .first => superCell.firstFramePtr
  | .last => superCell.lastFramePtr

def SuperCell.setEndPtr (superCell : SuperCell) (ptr : Option FramePtr) : ListEnd → SuperCell
  | .first => { superCell with firstFramePtr := ptr }
  | .last => { superCell with lastFramePtr := ptr }

section Frame

variable {frameSize : ℕ} {A : Type}

/-- The pointer of a frame that leads towards one end of the list. -/
def Frame.toward (frame : Frame frameSize A) : ListEnd → Option FramePtr
  | .first => frame.previousFrame
  | .last => frame.nextFrame

def Frame.setToward (frame : Frame frameSize A) (ptr : Option FramePtr) : ListEnd → Frame frameSize A
  | .first => { frame with previousFrame := ptr }
  | .last => { frame with nextFrame := ptr }

/-- The particles of the slots of a frame. -/
def slotParticles (slots : Fin frameSize → Slot A) : Multiset A :=
  ∑ i, if (slots i).multiMask = 0 then 0 else {(slots i).attributes}

@[simp] theorem Frame.setToward_slots (frame : Frame frameSize A) (ptr : Option FramePtr) (e : ListEnd) :
    (frame.setToward ptr e).slots = frame.slots := by
  cases e <;> rfl

@[simp] theorem Frame.setToward_toward (frame : Frame frameSize A) (ptr : Option FramePtr) (e : ListEnd) :
    (frame.setToward ptr e).toward e = ptr := by
  cases e <;> rfl

@[simp] theorem Frame.setToward_toward_other (frame : Frame frameSize A) (ptr : Option FramePtr) (e : ListEnd) :
    (frame.setToward ptr e).toward e.other = frame.toward e.other := by
  cases e <;> rfl

@[simp] theorem Frame.setToward_other_toward (frame : Frame frameSize A) (ptr : Option FramePtr) (e : ListEnd) :
    (frame.setToward ptr e.other).toward e = frame.toward e := by
  cases e <;> rfl

/-- A slot that held no particle. -/
theorem slotParticles_update {slots : Fin frameSize → Slot A} {j : Fin frameSize} (hj : (slots j).multiMask = 0) (a : A) :
    slotParticles (Function.update slots j ⟨1, a⟩) = slotParticles slots + {a} := by
  rw [slotParticles, slotParticles, ← Finset.add_sum_erase _ _ (Finset.mem_univ j), ← Finset.add_sum_erase _ _ (Finset.mem_univ j),
    Function.update_self, if_neg one_ne_zero, if_pos hj, zero_add, add_comm]
  refine congrArg (· + ({a} : Multiset A)) (Finset.sum_congr rfl fun i hi => ?_)
  rw [Function.update_of_ne (Finset.ne_of_mem_erase hi)]

end Frame

@[simp] theorem ListEnd.other_other (e : ListEnd) : e.other.other = e := by cases e <;> rfl

@[simp] theorem SuperCell.setEndPtr_endPtr (superCell : SuperCell) (ptr : Option FramePtr) (e : ListEnd) :
    (superCell.setEndPtr ptr e).endPtr e = ptr := by
  cases e <;> rfl

@[simp] theorem SuperCell.setEndPtr_endPtr_other (superCell : SuperCell) (ptr : Option FramePtr) (e : ListEnd) :
    (superCell.setEndPtr ptr e).endPtr e.other = superCell.endPtr e.other := by
  cases e <;> rfl

@[simp] theorem SuperCell.setEndPtr_other_endPtr (superCell : SuperCell) (ptr : Option FramePtr) (e : ListEnd) :
    (superCell.setEndPtr ptr e.other).endPtr e = superCell.endPtr e := by
  cases e <;> rfl

structure ParticlesBox (DIM frameSize : ℕ) (A : Type) where
  /-- The memory for frames, by address. -/
  frames : FramePtr → Frame frameSize A
  /-- The addresses that the heap has given out. -/
  allocated : Finset FramePtr
  superCells : DataSpace DIM → SuperCell

namespace ParticlesBox

variable {DIM frameSize : ℕ} {A : Type}

section Operations

variable (box : ParticlesBox DIM frameSize A) (p : FramePtr) (c : DataSpace DIM)

/-! ## Writes to memory -/

def setFrame (frame : Frame frameSize A) : ParticlesBox DIM frameSize A :=
  { box with frames := Function.update box.frames p frame }

def setSlots (slots : Fin frameSize → Slot A) : ParticlesBox DIM frameSize A :=
  box.setFrame p { box.frames p with slots := slots }

def setSuperCell (superCell : SuperCell) : ParticlesBox DIM frameSize A :=
  { box with superCells := Function.update box.superCells c superCell }

def setNumParticles (size : ℕ) : ParticlesBox DIM frameSize A :=
  box.setSuperCell c { box.superCells c with numParticles := size }

def setMustShift (value : Bool) : ParticlesBox DIM frameSize A :=
  box.setSuperCell c { box.superCells c with mustShift := value }

/-- The address is given back to the heap. -/
def removeFrame : ParticlesBox DIM frameSize A := { box with allocated := box.allocated.erase p }

/-- A frame from the heap at a given address.  The masks are cleared, the memory is used as it is. -/
def getEmptyFrame : ParticlesBox DIM frameSize A :=
  { box.setSlots p fun i => { (box.frames p).slots i with multiMask := 0 } with
    allocated := insert p box.allocated }

def getFirstFrame : Option FramePtr := (box.superCells c).firstFramePtr
def getLastFrame : Option FramePtr := (box.superCells c).lastFramePtr
def getNextFrame : Option FramePtr := (box.frames p).nextFrame
def getPreviousFrame : Option FramePtr := (box.frames p).previousFrame

/-- `ParticlesBuffer::reset`: the supercells forget their frames, which the heap is not told. -/
def reset : ParticlesBox DIM frameSize A := { box with superCells := fun _ => ⟨none, none, 0, false⟩ }

/-! ## List operations -/

/-- The pointers that a frame gets before it is put at one end. -/
def prepareFrame (e : ListEnd) : ParticlesBox DIM frameSize A :=
  box.setFrame p (((box.frames p).setToward none e).setToward ((box.superCells c).endPtr e) e.other)

/-- The exchange of the pointer to that end; the older pointer is `(box.superCells c).endPtr e`. -/
def exchangeEnd (e : ListEnd) : ParticlesBox DIM frameSize A :=
  box.setSuperCell c ((box.superCells c).setEndPtr (some p) e)

/-- The frame is told what stood at the end before. -/
def storeOld (old : Option FramePtr) (e : ListEnd) : ParticlesBox DIM frameSize A :=
  box.setFrame p ((box.frames p).setToward old e.other)

/-- What stood there is told its new neighbour; an empty list gets its other end. -/
def linkOld (old : Option FramePtr) (e : ListEnd) : ParticlesBox DIM frameSize A :=
  match old with
  | some q => box.setFrame q ((box.frames q).setToward (some p) e)
  | none => box.setSuperCell c ((box.superCells c).setEndPtr (some p) e.other)

/-- The four actions of `setAsFirstFrame` and `setAsLastFrame`, where nobody interferes. -/
def setAsEnd (e : ListEnd) : ParticlesBox DIM frameSize A :=
  let old := (box.superCells c).endPtr e
  (((box.prepareFrame p c e).exchangeEnd p c e).storeOld p old e).linkOld p c old e

def setAsFirstFrame : ParticlesBox DIM frameSize A := box.setAsEnd p c .first
def setAsLastFrame : ParticlesBox DIM frameSize A := box.setAsEnd p c .last

def removeLastFrame : ParticlesBox DIM frameSize A :=
  match (box.superCells c).lastFramePtr with
  | none => box
  | some last =>
    match (box.frames last).previousFrame with
    | some prev =>
      ((box.setFrame prev { box.frames prev with nextFrame := none }).setSuperCell c
        { box.superCells c with lastFramePtr := some prev }).removeFrame last
    | none =>
      (box.setSuperCell c { box.superCells c with firstFramePtr := none, lastFramePtr := none }).removeFrame last

end Operations

section Lemmas

variable {box box' : ParticlesBox DIM frameSize A} {p q : FramePtr} {c c' : DataSpace DIM}

@[simp] theorem setFrame_frames_self (frame : Frame frameSize A) : (box.setFrame p frame).frames p = frame :=
  Function.update_self ..

@[simp] theorem setFrame_frames_of_ne (frame : Frame frameSize A) (h : q ≠ p) :
    (box.setFrame p frame).frames q = box.frames q :=
  Function.update_of_ne h ..

@[simp] theorem setFrame_superCells (frame : Frame frameSize A) : (box.setFrame p frame).superCells = box.superCells := rfl
@[simp] theorem setFrame_allocated (frame : Frame frameSize A) : (box.setFrame p frame).allocated = box.allocated := rfl

@[simp] theorem setSuperCell_superCells_self (superCell : SuperCell) :
    (box.setSuperCell c superCell).superCells c = superCell :=
  Function.update_self ..

@[simp] theorem setSuperCell_superCells_of_ne (superCell : SuperCell) (h : c' ≠ c) :
    (box.setSuperCell c superCell).superCells c' = box.superCells c' :=
  Function.update_of_ne h ..

@[simp] theorem setSuperCell_frames (superCell : SuperCell) : (box.setSuperCell c superCell).frames = box.frames := rfl
@[simp] theorem setSuperCell_allocated (superCell : SuperCell) :
    (box.setSuperCell c superCell).allocated = box.allocated := rfl

@[simp] theorem removeFrame_frames : (box.removeFrame p).frames = box.frames := rfl
@[simp] theorem removeFrame_superCells : (box.removeFrame p).superCells = box.superCells := rfl

end Lemmas

/-! ## Which frames the supercells hold -/

/-- The list of a supercell, given towards one of its ends. -/
def ListAt (box : ParticlesBox DIM frameSize A) (e : ListEnd) (c : DataSpace DIM) (l : List FramePtr) : Prop :=
  LinkedList ((box.superCells c).endPtr e.other) ((box.superCells c).endPtr e) (fun p => (box.frames p).toward e)
    (fun p => (box.frames p).toward e.other) l

/-- The frames of every supercell, from the first to the last. -/
structure Holds (box : ParticlesBox DIM frameSize A) (L : DataSpace DIM → List FramePtr) : Prop where
  list : ∀ c, box.ListAt .last c (L c)
  disjoint : ∀ c c', c ≠ c' → (L c).Disjoint (L c')
  allocated : ∀ c, ∀ p ∈ L c, p ∈ box.allocated

/-- The particles of a list of frames. -/
def particles (box : ParticlesBox DIM frameSize A) (l : List FramePtr) : Multiset A :=
  (l.map fun p => slotParticles (box.frames p).slots).sum

section Holds

variable {box box' : ParticlesBox DIM frameSize A} {p q : FramePtr} {c c' : DataSpace DIM} {l l' : List FramePtr}
  {L : DataSpace DIM → List FramePtr}

@[simp] theorem particles_nil : box.particles [] = 0 := rfl

@[simp] theorem particles_cons : box.particles (p :: l) = slotParticles (box.frames p).slots + box.particles l :=
  List.sum_cons

@[simp] theorem particles_append : box.particles (l ++ l') = box.particles l + box.particles l' := by
  rw [particles, List.map_append, List.sum_append]
  rfl

/-- Only the slots of the list's frames matter. -/
theorem particles_congr (h : ∀ p ∈ l, (box'.frames p).slots = (box.frames p).slots) :
    box'.particles l = box.particles l := by
  rw [particles, particles]
  exact congrArg List.sum (List.map_congr_left fun p hp => congrArg slotParticles (h p hp))

theorem particles_perm (h : l.Perm l') : box.particles l = box.particles l' := (h.map _).sum_eq

theorem particles_setSlots_of_notMem (hp : p ∉ l) (slots : Fin frameSize → Slot A) :
    (box.setSlots p slots).particles l = box.particles l :=
  particles_congr fun q hq => by
    have hne : q ≠ p := fun heq => hp (heq ▸ hq)
    rw [setSlots, setFrame_frames_of_ne _ hne]

/-- Particles that are added to one frame of a list. -/
theorem particles_setSlots (hl : l.Nodup) (hp : p ∈ l) {slots : Fin frameSize → Slot A} {new : Multiset A}
    (hslots : slotParticles slots = slotParticles (box.frames p).slots + new) :
    (box.setSlots p slots).particles l = box.particles l + new := by
  obtain ⟨front, back, rfl⟩ := List.append_of_mem hp
  rw [List.nodup_middle, List.nodup_cons, List.mem_append, not_or] at hl
  rw [particles_append, particles_append, particles_cons, particles_cons, particles_setSlots_of_notMem hl.1.1,
    particles_setSlots_of_notMem hl.1.2, setSlots, setFrame_frames_self, hslots]
  abel

/-- A list may be read from either of its ends. -/
theorem ListAt.reverse {e : ListEnd} (h : box.ListAt e c l) : box.ListAt e.other c l.reverse := by
  cases e <;> exact LinkedList.symm h

/-- Two pointers of a frame and two of a supercell make the list. -/
theorem ListAt.congr {e : ListEnd} (h : box.ListAt e c l) (hc : ∀ e, (box'.superCells c).endPtr e = (box.superCells c).endPtr e)
    (hp : ∀ p ∈ l, ∀ e, (box'.frames p).toward e = (box.frames p).toward e) : box'.ListAt e c l := by
  have hlist := LinkedList.congr h (fun b hb => hp b hb e) fun b hb => hp b hb e.other
  rw [ListAt, hc, hc]
  exact hlist

namespace Holds

theorem getFirstFrame (h : box.Holds L) (c : DataSpace DIM) : box.getFirstFrame c = (L c).head? := (h.list c).first

theorem getLastFrame (h : box.Holds L) (c : DataSpace DIM) : box.getLastFrame c = (L c).getLast? := (h.list c).last

theorem getNextFrame (h : box.Holds L) {front back : List FramePtr} (hl : L c = front ++ p :: back) :
    box.getNextFrame p = back.head? :=
  (h.list c).next front p back hl

theorem getPreviousFrame (h : box.Holds L) {front back : List FramePtr} (hl : L c = front ++ p :: back) :
    box.getPreviousFrame p = front.getLast? :=
  (h.list c).prev front p back hl

theorem nodup (h : box.Holds L) (c : DataSpace DIM) : (L c).Nodup := LinkedList.nodup (h.list c)

theorem reset (box : ParticlesBox DIM frameSize A) : box.reset.Holds fun _ => [] :=
  ⟨fun _ => ⟨List.nodup_nil, rfl, rfl, fun front _ _ h => absurd h (by simp), fun front _ _ h => absurd h (by simp)⟩,
    fun _ _ _ => List.disjoint_nil_left _, fun _ _ hp => absurd hp List.not_mem_nil⟩

/-- There is one way to read the lists. -/
theorem unique {L' : DataSpace DIM → List FramePtr} (h : box.Holds L) (h' : box.Holds L') : L = L' :=
  funext fun c => LinkedList.unique (h.list c) (h'.list c)

/-- A frame that one supercell holds is held by no other. -/
theorem notMem_of_ne (h : box.Holds L) (hp : p ∈ L c) (hne : c' ≠ c) : p ∉ L c' := fun hp' =>
  h.disjoint c' c hne hp' hp

/-- **A step at one supercell** leaves the lists of the others alone. -/
theorem update (h : box.Holds L) (hlist : box'.ListAt .last c l')
    (hother : ∀ c', c' ≠ c → l'.Disjoint (L c')) (hallocated : ∀ p ∈ l', p ∈ box'.allocated)
    (hsuperCells : ∀ c', c' ≠ c → ∀ e, (box'.superCells c').endPtr e = (box.superCells c').endPtr e)
    (hframes : ∀ c', c' ≠ c → ∀ p ∈ L c', (∀ e, (box'.frames p).toward e = (box.frames p).toward e) ∧
      p ∈ box'.allocated) :
    box'.Holds (Function.update L c l') := by
  refine ⟨fun d => ?_, fun d d' hdd' => ?_, fun d p hp => ?_⟩
  · rcases eq_or_ne d c with rfl | hd
    · rwa [Function.update_self]
    · rw [Function.update_of_ne hd]
      exact (h.list d).congr (hsuperCells d hd) fun p hp => (hframes d hd p hp).1
  · rcases eq_or_ne d c with rfl | hd
    · rw [Function.update_self, Function.update_of_ne hdd'.symm]
      exact hother d' hdd'.symm
    · rw [Function.update_of_ne hd]
      rcases eq_or_ne d' c with rfl | hd'
      · rw [Function.update_self]
        exact (hother d hd).symm
      · rw [Function.update_of_ne hd']
        exact h.disjoint d d' hdd'
  · rcases eq_or_ne d c with rfl | hd
    · rw [Function.update_self] at hp
      exact hallocated p hp
    · rw [Function.update_of_ne hd] at hp
      exact (hframes d hd p hp).2

/-- Writes to slots and to the counters of supercells do not change the lists. -/
theorem congr (h : box.Holds L) (hsuperCells : ∀ c e, (box'.superCells c).endPtr e = (box.superCells c).endPtr e)
    (hframes : ∀ c, ∀ p ∈ L c, ∀ e, (box'.frames p).toward e = (box.frames p).toward e)
    (hallocated : box.allocated ⊆ box'.allocated) : box'.Holds L :=
  ⟨fun c => (h.list c).congr (hsuperCells c) (hframes c), h.disjoint, fun c p hp => hallocated (h.allocated c p hp)⟩

theorem setFrame (h : box.Holds L) {frame : Frame frameSize A} (hframe : ∀ e, frame.toward e = (box.frames p).toward e) :
    (box.setFrame p frame).Holds L := by
  refine h.congr (fun _ _ => rfl) (fun c q _ e => ?_) (Finset.Subset.refl _)
  rcases eq_or_ne q p with rfl | hne
  · rw [setFrame_frames_self, hframe]
  · rw [setFrame_frames_of_ne _ hne]

theorem setSlots (h : box.Holds L) (slots : Fin frameSize → Slot A) : (box.setSlots p slots).Holds L :=
  h.setFrame fun e => by cases e <;> rfl

theorem setSuperCell (h : box.Holds L) {superCell : SuperCell}
    (hends : ∀ e, superCell.endPtr e = (box.superCells c).endPtr e) : (box.setSuperCell c superCell).Holds L := by
  refine h.congr (fun d e => ?_) (fun _ _ _ _ => rfl) (Finset.Subset.refl _)
  rcases eq_or_ne d c with rfl | hne
  · rw [setSuperCell_superCells_self, hends]
  · rw [setSuperCell_superCells_of_ne _ hne]

theorem setNumParticles (h : box.Holds L) (size : ℕ) : (box.setNumParticles c size).Holds L :=
  h.setSuperCell fun e => by cases e <;> rfl

theorem setMustShift (h : box.Holds L) (value : Bool) : (box.setMustShift c value).Holds L :=
  h.setSuperCell fun e => by cases e <;> rfl

/-- A frame from the heap belongs to nobody. -/
theorem getEmptyFrame (h : box.Holds L) : (box.getEmptyFrame p).Holds L :=
  (h.setSlots (p := p) _).congr (fun _ _ => rfl) (fun _ _ _ _ => rfl) (Finset.subset_insert _ _)

/-- What stands at the end of the list of a supercell. -/
theorem lastFramePtr (h : box.Holds L) (c : DataSpace DIM) : (box.superCells c).lastFramePtr = (L c).getLast? :=
  (h.list c).last

end Holds

/-! ### Removing the last frame -/

theorem removeLastFrame_slots (box : ParticlesBox DIM frameSize A) (c : DataSpace DIM) (q : FramePtr) :
    ((box.removeLastFrame c).frames q).slots = (box.frames q).slots := by
  unfold removeLastFrame
  split
  · rfl
  · split
    · next prev _ =>
      rcases eq_or_ne q prev with rfl | hne
      · simp
      · simp [hne]
    · rfl

theorem removeLastFrame_superCells_of_ne (box : ParticlesBox DIM frameSize A) (hne : c' ≠ c) :
    (box.removeLastFrame c).superCells c' = box.superCells c' := by
  unfold removeLastFrame
  split
  · rfl
  · split <;> simp [hne]

theorem removeLastFrame_counters (box : ParticlesBox DIM frameSize A) (c c' : DataSpace DIM) :
    ((box.removeLastFrame c).superCells c').numParticles = (box.superCells c').numParticles ∧
      ((box.removeLastFrame c).superCells c').mustShift = (box.superCells c').mustShift := by
  rcases eq_or_ne c' c with rfl | hne
  · unfold removeLastFrame
    split
    · exact ⟨rfl, rfl⟩
    · split <;> simp
  · rw [removeLastFrame_superCells_of_ne box hne]
    exact ⟨rfl, rfl⟩

/-- Only the address of the last frame is given back. -/
theorem mem_removeLastFrame_allocated (hq : q ∈ box.allocated) (hlast : (box.superCells c).lastFramePtr ≠ some q) :
    q ∈ (box.removeLastFrame c).allocated := by
  unfold removeLastFrame
  split
  · exact hq
  · next last h =>
    have hne : q ≠ last := fun heq => hlast (heq ▸ h)
    split <;> exact Finset.mem_erase.mpr ⟨hne, hq⟩

/-- Removing a frame only writes to the frame before it. -/
theorem removeLastFrame_frames_of_ne (box : ParticlesBox DIM frameSize A)
    (hne : ∀ last, (box.superCells c).lastFramePtr = some last → (box.frames last).previousFrame ≠ some q) :
    (box.removeLastFrame c).frames q = box.frames q := by
  unfold removeLastFrame
  split
  · rfl
  · next last hlast =>
    split
    · next prev hprev =>
      have hq : q ≠ prev := fun heq => hne last hlast (heq ▸ hprev)
      simp [hq]
    · rfl

/-- The frames of the supercell without the last one. -/
theorem Holds.removeLastFrame_list (h : box.Holds L) (hl : L c = l ++ [p]) :
    (box.removeLastFrame c).ListAt .last c l := by
  have hlast : (box.superCells c).lastFramePtr = some p := by rw [h.lastFramePtr, hl, List.getLast?_concat]
  have hprev : (box.frames p).previousFrame = l.getLast? := h.getPreviousFrame hl
  have hlist := h.list c
  rw [hl] at hlist
  have hnodup : p ∉ l := by
    have hnodup := hlist.nodup
    rw [List.nodup_append] at hnodup
    exact fun hp => hnodup.2.2 p hp p (List.mem_singleton_self p) rfl
  unfold removeLastFrame
  simp only [hlast, hprev]
  rcases List.eq_nil_or_concat' l with rfl | ⟨init, b, rfl⟩
  · refine ⟨List.nodup_nil, ?_, ?_, fun _ _ _ hsplit => by simp at hsplit, fun _ _ _ hsplit => by simp at hsplit⟩ <;>
      simp [SuperCell.endPtr, ListEnd.other]
  · have hgoal : LinkedList (box.superCells c).firstFramePtr (init ++ [b]).getLast?
        (fun q => (Function.update box.frames b { box.frames b with nextFrame := none } q).toward .last)
        (fun q => (Function.update box.frames b { box.frames b with nextFrame := none } q).toward .first)
        (init ++ [b]) := by
      refine LinkedList.dropLast hlist (by simp [SuperCell.endPtr, ListEnd.other]) (fun q _ => ?_) fun q _ => ?_
      · rw [List.getLast?_concat]
        rcases eq_or_ne b q with rfl | hne
        · simp [Frame.toward]
        · simp [hne, hne.symm]
      · rcases eq_or_ne q b with rfl | hne
        · simp [Frame.toward, ListEnd.other]
        · simp [hne, ListEnd.other]
    rw [List.getLast?_concat] at hgoal ⊢
    simp only [ListAt, removeFrame_superCells, setSuperCell_superCells_self]
    exact hgoal

/-- **Removing the last frame.** -/
theorem Holds.removeLastFrame (h : box.Holds L) (c : DataSpace DIM) :
    (box.removeLastFrame c).Holds (Function.update L c (L c).dropLast) := by
  rcases List.eq_nil_or_concat' (L c) with hl | ⟨l, p, hl⟩
  · have hnone : (box.superCells c).lastFramePtr = none := by rw [h.lastFramePtr, hl]; rfl
    have hbox : box.removeLastFrame c = box := by
      unfold ParticlesBox.removeLastFrame
      simp only [hnone]
    have hL : Function.update L c (L c).dropLast = L := by
      rw [Function.update_eq_self_iff, hl]
      rfl
    rwa [hbox, hL]
  · have hmem : ∀ q ∈ l ++ [p], q ∈ L c := fun q hq => hl ▸ hq
    have hlast : (box.superCells c).lastFramePtr = some p := by rw [h.lastFramePtr, hl, List.getLast?_concat]
    have hp : p ∉ l := by
      have hnodup := h.nodup c
      rw [hl, List.nodup_append] at hnodup
      exact fun hp => hnodup.2.2 p hp p (List.mem_singleton_self p) rfl
    rw [hl, List.dropLast_concat]
    refine h.update (h.removeLastFrame_list hl) (fun c' hc' q hq => h.notMem_of_ne (hmem q (by simp [hq])) hc')
      (fun q hq => ?_) (fun c' hc' e => ?_) fun c' hc' q hq => ⟨fun e => ?_, ?_⟩
    · refine mem_removeLastFrame_allocated (h.allocated c q (hmem q (by simp [hq]))) fun heq => hp ?_
      rw [hlast] at heq
      rwa [Option.some.inj heq]
    · rw [removeLastFrame_superCells_of_ne box hc']
    · rw [removeLastFrame_frames_of_ne box]
      intro last' hlast' hprev
      obtain rfl := Option.some.inj (hlast.symm.trans hlast')
      rw [show (box.frames p).previousFrame = l.getLast? from h.getPreviousFrame hl] at hprev
      exact h.notMem_of_ne (hmem q (by simp [List.mem_of_getLast? hprev])) hc' hq
    · refine mem_removeLastFrame_allocated (h.allocated c' q hq) fun heq => ?_
      obtain rfl := Option.some.inj (hlast.symm.trans heq)
      exact h.notMem_of_ne (hmem p (by simp)) hc' hq

theorem mem_removeLastFrame_allocated_iff (box : ParticlesBox DIM frameSize A) (c : DataSpace DIM) :
    q ∈ (box.removeLastFrame c).allocated ↔ q ∈ box.allocated ∧ (box.superCells c).lastFramePtr ≠ some q := by
  refine ⟨fun hq => ?_, fun hq => mem_removeLastFrame_allocated hq.1 hq.2⟩
  unfold removeLastFrame at hq
  split at hq
  · next h => exact ⟨hq, by rw [h]; exact (Option.some_ne_none q).symm⟩
  · next last h =>
    have herase : q ∈ box.allocated.erase last := by
      split at hq <;> exact hq
    obtain ⟨hne, hmem⟩ := Finset.mem_erase.mp herase
    exact ⟨hmem, fun heq => hne (Option.some.inj (heq.symm.trans h))⟩

/-- The frame that leaves the list is the one that is given back. -/
theorem Holds.mem_removeLastFrame_allocated (h : box.Holds L) (c : DataSpace DIM) :
    q ∈ (box.removeLastFrame c).allocated ↔ q ∈ box.allocated ∧ (q ∈ L c → q ∈ (L c).dropLast) := by
  rw [mem_removeLastFrame_allocated_iff, h.lastFramePtr]
  refine and_congr_right fun _ => ?_
  rcases List.eq_nil_or_concat' (L c) with hl | ⟨l, p, hl⟩
  · rw [hl]
    exact iff_of_true (Option.some_ne_none q).symm fun hq => absurd hq List.not_mem_nil
  · have hp : p ∉ l := by
      have hnodup := h.nodup c
      rw [hl, List.nodup_append] at hnodup
      exact fun hp => hnodup.2.2 p hp p (List.mem_singleton_self p) rfl
    rw [hl, List.getLast?_concat, List.dropLast_concat]
    refine ⟨fun hne hq => ?_, fun hq heq => hp ?_⟩
    · rcases List.mem_append.mp hq with hq | hq
      · exact hq
      · exact absurd (congrArg some (List.mem_singleton.mp hq).symm) hne
    · rw [Option.some.inj heq] at hq ⊢
      exact hq (List.mem_append_right _ (List.mem_singleton_self q))

/-- Removing a frame does not write to frames that the supercell does not hold. -/
theorem Holds.removeLastFrame_frames (h : box.Holds L) (hq : q ∉ L c) : (box.removeLastFrame c).frames q = box.frames q := by
  refine removeLastFrame_frames_of_ne box fun last hlast hprev => hq ?_
  rw [h.lastFramePtr] at hlast
  obtain ⟨l, hl⟩ := List.getLast?_eq_some_iff.mp hlast
  rw [show (box.frames last).previousFrame = l.getLast? from h.getPreviousFrame hl] at hprev
  rw [hl]
  exact List.mem_append_left _ (List.mem_of_getLast? hprev)

/-! ### Putting a frame at the end -/

theorem setAsEnd_slots (box : ParticlesBox DIM frameSize A) (p : FramePtr) (c : DataSpace DIM) (e : ListEnd)
    (q : FramePtr) : ((box.setAsEnd p c e).frames q).slots = (box.frames q).slots := by
  have hset : ∀ (box : ParticlesBox DIM frameSize A) (r : FramePtr) (ptr : Option FramePtr) (e : ListEnd),
      ((box.setFrame r ((box.frames r).setToward ptr e)).frames q).slots = (box.frames q).slots := by
    intro box r ptr e
    rcases eq_or_ne q r with rfl | hne
    · simp
    · simp [hne]
  have hprepare : ((box.prepareFrame p c e).frames q).slots = (box.frames q).slots := by
    unfold prepareFrame
    rcases eq_or_ne q p with rfl | hne
    · simp
    · simp [hne]
  have hstore : ∀ (box : ParticlesBox DIM frameSize A) old, ((box.storeOld p old e).frames q).slots = (box.frames q).slots :=
    fun box old => hset box p old e.other
  have hlink : ∀ (box : ParticlesBox DIM frameSize A) old, ((box.linkOld p c old e).frames q).slots = (box.frames q).slots := by
    intro box old
    cases old with
    | none => rfl
    | some r => exact hset box r (some p) e
  unfold setAsEnd
  rw [hlink, hstore]
  exact hprepare

theorem setAsLastFrame_eq (box : ParticlesBox DIM frameSize A) (p : FramePtr) (c : DataSpace DIM) :
    box.setAsLastFrame p c =
      (((box.setFrame p { box.frames p with nextFrame := none, previousFrame := (box.superCells c).lastFramePtr }).setSuperCell c
        { box.superCells c with lastFramePtr := some p }).linkOld p c (box.superCells c).lastFramePtr .last) := by
  unfold setAsLastFrame setAsEnd
  refine congrArg (fun box' => linkOld box' p c (box.superCells c).lastFramePtr .last) ?_
  simp only [storeOld, exchangeEnd, prepareFrame, setFrame, setSuperCell, Function.update_self, Function.update_idem]
  rfl

theorem setAsLastFrame_superCells_of_ne (box : ParticlesBox DIM frameSize A) (p : FramePtr) (hne : c' ≠ c) :
    (box.setAsLastFrame p c).superCells c' = box.superCells c' := by
  rw [setAsLastFrame_eq]
  unfold linkOld
  split <;> simp [hne]

theorem setAsLastFrame_counters (box : ParticlesBox DIM frameSize A) (p : FramePtr) (c c' : DataSpace DIM) :
    ((box.setAsLastFrame p c).superCells c').numParticles = (box.superCells c').numParticles ∧
      ((box.setAsLastFrame p c).superCells c').mustShift = (box.superCells c').mustShift := by
  rcases eq_or_ne c' c with rfl | hne
  · rw [setAsLastFrame_eq]
    unfold linkOld
    split <;> simp [SuperCell.setEndPtr, ListEnd.other]
  · rw [setAsLastFrame_superCells_of_ne box p hne]
    exact ⟨rfl, rfl⟩

theorem setAsLastFrame_allocated (box : ParticlesBox DIM frameSize A) (p : FramePtr) (c : DataSpace DIM) :
    (box.setAsLastFrame p c).allocated = box.allocated := by
  rw [setAsLastFrame_eq]
  unfold linkOld
  split <;> rfl

/-- It writes to the frame itself and to the one that stood at the end. -/
theorem setAsLastFrame_frames_of_ne (box : ParticlesBox DIM frameSize A) (hq : q ≠ p)
    (hlast : (box.superCells c).lastFramePtr ≠ some q) : (box.setAsLastFrame p c).frames q = box.frames q := by
  rw [setAsLastFrame_eq]
  unfold linkOld
  split
  · next r hr =>
    have hqr : q ≠ r := fun heq => hlast (heq ▸ hr)
    simp [hq, hqr]
  · simp [hq]

/-- **Putting a frame at the end.** -/
theorem Holds.setAsLastFrame (h : box.Holds L) (hp : ∀ c, p ∉ L c) (hallocated : p ∈ box.allocated) (c : DataSpace DIM) :
    (box.setAsLastFrame p c).Holds (Function.update L c (L c ++ [p])) := by
  have hlast : (box.superCells c).lastFramePtr = (L c).getLast? := h.lastFramePtr c
  have hlist : (box.setAsLastFrame p c).ListAt .last c (L c ++ [p]) := by
    have hold := h.list c
    rw [ListAt, setAsLastFrame_eq]
    rcases List.eq_nil_or_concat' (L c) with hl | ⟨init, b, hl⟩
    · rw [hlast, hl]
      refine ⟨List.nodup_singleton p, ?_, ?_, fun front a back hsplit => ?_, fun front a back hsplit => ?_⟩
      · simp [linkOld, SuperCell.endPtr, SuperCell.setEndPtr, ListEnd.other]
      · simp [linkOld, SuperCell.endPtr, SuperCell.setEndPtr, ListEnd.other]
      · obtain ⟨rfl, rfl, rfl⟩ : front = [] ∧ a = p ∧ back = [] := by
          rcases front with _ | ⟨x, front⟩ <;> simp_all
        simp [linkOld, Frame.toward]
      · obtain ⟨rfl, rfl, rfl⟩ : front = [] ∧ a = p ∧ back = [] := by
          rcases front with _ | ⟨x, front⟩ <;> simp_all
        simp [linkOld, Frame.toward, ListEnd.other]
    · have hb : b ∈ L c := by simp [hl]
      have hbp : b ≠ p := fun heq => hp c (heq ▸ hb)
      have hlast' : (L c).getLast? = some b := by rw [hl, List.getLast?_concat]
      rw [hlast, hlast']
      refine LinkedList.concat hold (hp c) ?_ ?_ ?_ ?_ (fun q hq => ?_) fun q hq => ?_
      · simp [linkOld, SuperCell.endPtr, ListEnd.other, hl]
      · simp [linkOld, SuperCell.endPtr]
      · simp [linkOld, Frame.toward, hbp.symm]
      · simp [linkOld, Frame.toward, ListEnd.other, hbp.symm, hlast, hlast', SuperCell.endPtr]
      · have hqp : q ≠ p := fun heq => hp c (heq ▸ hq)
        rw [hlast']
        rcases eq_or_ne q b with rfl | hne
        · simp [linkOld]
        · simp [linkOld, hne, hne.symm, hqp]
      · have hqp : q ≠ p := fun heq => hp c (heq ▸ hq)
        rcases eq_or_ne q b with rfl | hne
        · simp [linkOld, Frame.toward, Frame.setToward, ListEnd.other, hqp]
        · simp [linkOld, hne, hqp]
  refine h.update hlist (fun c' hc' q hq hq' => ?_) (fun q hq => ?_) (fun c' hc' e => ?_) fun c' hc' q hq => ⟨fun e => ?_, ?_⟩
  · rcases List.mem_append.mp hq with hq | hq
    · exact h.notMem_of_ne hq hc' hq'
    · exact hp c' (List.mem_singleton.mp hq ▸ hq')
  · rw [setAsLastFrame_allocated]
    rcases List.mem_append.mp hq with hq | hq
    · exact h.allocated c q hq
    · exact List.mem_singleton.mp hq ▸ hallocated
  · rw [setAsLastFrame_superCells_of_ne box p hc']
  · have hqp : q ≠ p := fun heq => hp c' (heq ▸ hq)
    rw [setAsLastFrame_frames_of_ne box hqp]
    intro heq
    exact h.notMem_of_ne (List.mem_of_getLast? (hlast ▸ heq)) hc' hq
  · rw [setAsLastFrame_allocated]
    exact h.allocated c' q hq

end Holds

end ParticlesBox

end PmaccParticles
end Spearhed
