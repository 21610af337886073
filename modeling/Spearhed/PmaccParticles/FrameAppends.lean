import Spearhed.PmaccParticles.ParticlesBox

/-!
# Threads that append frames

`ParticlesBox::getEmptyFrame`, followed by `setAsFirstFrame` or `setAsLastFrame`, by any number of threads
at the same time.  Several of them may append to the list of one supercell, and the lists may hold frames
before.  A thread gets a frame from the heap, prepares its pointers, exchanges the pointer of the supercell
for it, stores what stood there before, and tells that frame its new neighbour.  All five are actions of
their own, in any order with those of the other threads.

* `Appending`: what the pointers are at every moment, given the order of the exchanges.
* `Appending.step`: every action keeps it.
* `Appending.holds`: the lists that are left when every thread that has begun is done.
-/

namespace Spearhed
namespace PmaccParticles

open Library Mappings

variable {DIM frameSize : ℕ} {A τ : Type}

/-- A list, read towards one of its ends. -/
def ListEnd.orient : ListEnd → List FramePtr → List FramePtr
  | .first, l => l.reverse
  | .last, l => l

namespace FrameAppends

/-- Where a thread stands. -/
inductive Phase
  | idle
  | empty (frame : FramePtr)
  | prepared (frame : FramePtr)
  /-- With what the exchange returned. -/
  | exchanged (frame : FramePtr) (old : Option FramePtr)
  | stored (frame : FramePtr) (old : Option FramePtr)
  | linked (frame : FramePtr)

namespace Phase

/-- The frame of a thread. -/
def frame : Phase → Option FramePtr
  | .idle => none
  | .empty p | .prepared p | .exchanged p _ | .stored p _ | .linked p => some p

/-- The frame of a thread after its exchange. -/
def listed : Phase → Option FramePtr
  | .idle | .empty _ | .prepared _ => none
  | .exchanged p _ | .stored p _ | .linked p => some p

/-- The frame of a thread between its exchange and its last store, and what stood at the end before. -/
def unlinked : Phase → Option (FramePtr × Option FramePtr)
  | .exchanged p old | .stored p old => some (p, old)
  | .idle | .empty _ | .prepared _ | .linked _ => none

theorem exists_frame {phase : Phase} (h : phase ≠ .idle) : ∃ p, phase.frame = some p := by
  cases phase with
  | idle => exact absurd rfl h
  | _ p => exact ⟨p, rfl⟩

theorem frame_of_listed {phase : Phase} {p : FramePtr} (h : phase.listed = some p) : phase.frame = some p := by
  cases phase <;> first | exact h | exact absurd h.symm (Option.some_ne_none p)

theorem listed_of_unlinked {phase : Phase} {p : FramePtr} {old : Option FramePtr} (h : phase.unlinked = some (p, old)) :
    phase.listed = some p := by
  cases phase <;> first | exact congrArg (Option.map Prod.fst) h | exact absurd h.symm (Option.some_ne_none _)

end Phase

/-- An action of a thread that appends to the list of a supercell. -/
inductive Action (e : ListEnd) (c : DataSpace DIM) :
    ParticlesBox DIM frameSize A → Phase → ParticlesBox DIM frameSize A → Phase → Prop
  /-- The heap gives out any frame that it has. -/
  | getEmptyFrame {box : ParticlesBox DIM frameSize A} {p : FramePtr} (hp : p ∉ box.allocated) :
      Action e c box .idle (box.getEmptyFrame p) (.empty p)
  | prepare {box : ParticlesBox DIM frameSize A} {p : FramePtr} :
      Action e c box (.empty p) (box.prepareFrame p c e) (.prepared p)
  | exchange {box : ParticlesBox DIM frameSize A} {p : FramePtr} :
      Action e c box (.prepared p) (box.exchangeEnd p c e) (.exchanged p ((box.superCells c).endPtr e))
  | store {box : ParticlesBox DIM frameSize A} {p : FramePtr} {old : Option FramePtr} :
      Action e c box (.exchanged p old) (box.storeOld p old e) (.stored p old)
  | link {box : ParticlesBox DIM frameSize A} {p : FramePtr} {old : Option FramePtr} :
      Action e c box (.stored p old) (box.linkOld p c old e) (.linked p)

/-- The pointers while threads append to lists that were `base`; `order` are the frames of the supercells,
in the order of their exchanges. -/
structure Appending (e : ListEnd) (cell : τ → DataSpace DIM) (base : DataSpace DIM → List FramePtr)
    (box : ParticlesBox DIM frameSize A) (phase : τ → Phase) (order : DataSpace DIM → List FramePtr) : Prop where
  list : ∀ c, AppendList ((box.superCells c).endPtr e.other) ((box.superCells c).endPtr e)
    (fun p => (box.frames p).toward e) {p | ∃ t old, (phase t).unlinked = some (p, old)} (order c)
  /-- A frame that knows what stood at the end before. -/
  follows : ∀ c, ∀ p ∈ order c, (∀ t old, phase t ≠ .exchanged p old) →
    Follows (order c) p ((box.frames p).toward e.other)
  unlinked : ∀ t p old, (phase t).unlinked = some (p, old) → Follows (order (cell t)) p old
  prepared : ∀ t p, phase t = .prepared p → (box.frames p).toward e = none
  origin : ∀ c p, p ∈ order c ↔ p ∈ base c ∨ ∃ t, cell t = c ∧ (phase t).listed = some p
  distinct : ∀ t t' p, (phase t).frame = some p → (phase t').frame = some p → t = t'
  new : ∀ t p, (phase t).frame = some p → p ∈ box.allocated ∧ ∀ c, p ∉ base c
  allocated : ∀ c, ∀ p ∈ base c, p ∈ box.allocated
  disjoint : ∀ c c', c ≠ c' → (base c).Disjoint (base c')

/-! ## What the actions write -/

section Actions

variable {box box' : ParticlesBox DIM frameSize A} {e : ListEnd} {c : DataSpace DIM} {p q : FramePtr} {phase phase' : Phase}

theorem toward_prepareFrame_self : ((box.prepareFrame p c e).frames p).toward e = none := by
  rw [ParticlesBox.prepareFrame, ParticlesBox.setFrame_frames_self, Frame.setToward_other_toward, Frame.setToward_toward]

theorem frames_prepareFrame_of_ne (hq : q ≠ p) : (box.prepareFrame p c e).frames q = box.frames q :=
  ParticlesBox.setFrame_frames_of_ne _ hq

theorem toward_storeOld (old : Option FramePtr) : ((box.storeOld p old e).frames q).toward e = (box.frames q).toward e := by
  rw [ParticlesBox.storeOld]
  rcases eq_or_ne q p with rfl | hne
  · rw [ParticlesBox.setFrame_frames_self, Frame.setToward_other_toward]
  · rw [ParticlesBox.setFrame_frames_of_ne _ hne]

theorem toward_other_storeOld_self (old : Option FramePtr) : ((box.storeOld p old e).frames p).toward e.other = old := by
  rw [ParticlesBox.storeOld, ParticlesBox.setFrame_frames_self, Frame.setToward_toward]

theorem frames_storeOld_of_ne (old : Option FramePtr) (hq : q ≠ p) : (box.storeOld p old e).frames q = box.frames q :=
  ParticlesBox.setFrame_frames_of_ne _ hq

theorem toward_linkOld (old : FramePtr) :
    (fun q => ((box.linkOld p c (some old) e).frames q).toward e) =
      Function.update (fun q => (box.frames q).toward e) old (some p) := by
  funext q
  rw [ParticlesBox.linkOld]
  rcases eq_or_ne q old with rfl | hne
  · rw [ParticlesBox.setFrame_frames_self, Frame.setToward_toward, Function.update_self]
  · rw [ParticlesBox.setFrame_frames_of_ne _ hne, Function.update_of_ne hne]

theorem toward_other_linkOld (old : Option FramePtr) :
    ((box.linkOld p c old e).frames q).toward e.other = (box.frames q).toward e.other := by
  cases old with
  | none => rfl
  | some old =>
    rw [ParticlesBox.linkOld]
    rcases eq_or_ne q old with rfl | hne
    · rw [ParticlesBox.setFrame_frames_self, Frame.setToward_toward_other]
    · rw [ParticlesBox.setFrame_frames_of_ne _ hne]

theorem endPtr_exchangeEnd_self : ((box.exchangeEnd p c e).superCells c).endPtr e = some p := by
  rw [ParticlesBox.exchangeEnd, ParticlesBox.setSuperCell_superCells_self, SuperCell.setEndPtr_endPtr]

theorem endPtr_other_exchangeEnd_self :
    ((box.exchangeEnd p c e).superCells c).endPtr e.other = (box.superCells c).endPtr e.other := by
  rw [ParticlesBox.exchangeEnd, ParticlesBox.setSuperCell_superCells_self, SuperCell.setEndPtr_endPtr_other]

theorem superCells_linkOld_none_self (e' : ListEnd) : ((box.linkOld p c none e).superCells c).endPtr e' =
      ((box.superCells c).setEndPtr (some p) e.other).endPtr e' := by
  rw [ParticlesBox.linkOld, ParticlesBox.setSuperCell_superCells_self]

theorem superCells_linkOld_of_ne (old : Option FramePtr) {c' : DataSpace DIM} (hc : c' ≠ c) :
    (box.linkOld p c old e).superCells c' = box.superCells c' := by
  cases old with
  | none => exact ParticlesBox.setSuperCell_superCells_of_ne _ hc
  | some old => rfl

theorem toward_getEmptyFrame (e' : ListEnd) : ((box.getEmptyFrame p).frames q).toward e' = (box.frames q).toward e' := by
  rcases eq_or_ne q p with rfl | hne
  · cases e' <;> simp [ParticlesBox.getEmptyFrame, ParticlesBox.setSlots, Frame.toward]
  · cases e' <;> simp [ParticlesBox.getEmptyFrame, ParticlesBox.setSlots, Frame.toward, hne]

/-- **Slots are only written to by the heap**, which clears the masks. -/
theorem Action.slots (h : Action e c box phase box' phase') (q : FramePtr) :
    (box'.frames q).slots = (box.frames q).slots ∨
      phase' = .empty q ∧ q ∉ box.allocated ∧ ∀ i, ((box'.frames q).slots i).multiMask = 0 := by
  cases h with
  | @getEmptyFrame p hp =>
    rcases eq_or_ne q p with rfl | hne
    · refine Or.inr ⟨rfl, hp, fun i => ?_⟩
      simp [ParticlesBox.getEmptyFrame, ParticlesBox.setSlots]
    · refine Or.inl ?_
      simp [ParticlesBox.getEmptyFrame, ParticlesBox.setSlots, hne]
  | @prepare p =>
    refine Or.inl ?_
    rcases eq_or_ne q p with rfl | hne
    · simp [ParticlesBox.prepareFrame]
    · rw [frames_prepareFrame_of_ne hne]
  | exchange => exact Or.inl rfl
  | @store p old =>
    refine Or.inl ?_
    rcases eq_or_ne q p with rfl | hne
    · simp [ParticlesBox.storeOld]
    · rw [frames_storeOld_of_ne _ hne]
  | @link p old =>
    refine Or.inl ?_
    cases old with
    | none => rfl
    | some old =>
      rcases eq_or_ne q old with rfl | hne
      · simp [ParticlesBox.linkOld]
      · simp [ParticlesBox.linkOld, hne]

/-- A thread keeps its frame, or gets an empty one. -/
theorem Action.frame (h : Action e c box phase box' phase') {q : FramePtr} (hq : phase'.frame = some q) :
    phase.frame = some q ∨ phase = .idle ∧ ∀ i, ((box'.frames q).slots i).multiMask = 0 := by
  cases h with
  | @getEmptyFrame p hp =>
    obtain rfl : p = q := Option.some.inj hq
    exact Or.inr ⟨rfl, fun i => by simp [ParticlesBox.getEmptyFrame, ParticlesBox.setSlots]⟩
  | _ => exact Or.inl hq

theorem Action.frame_of_some (h : Action e c box phase box' phase') {q : FramePtr} (hq : phase.frame = some q) : phase'.frame = some q := by
  cases h with
  | getEmptyFrame hp => cases hq
  | _ => exact hq

theorem Action.ne_idle (h : Action e c box phase box' phase') : phase' ≠ .idle := by
  cases h <;> rintro ⟨⟩

theorem Action.of_idle (h : Action e c box .idle box' phase') {q : FramePtr} (hq : phase'.frame = some q) : phase' = .empty q := by
  cases h
  exact congrArg Phase.empty (Option.some.inj hq)

/-- The counters of the supercells are left alone. -/
theorem Action.counters (h : Action e c box phase box' phase') (d : DataSpace DIM) :
    (box'.superCells d).numParticles = (box.superCells d).numParticles ∧
      (box'.superCells d).mustShift = (box.superCells d).mustShift := by
  have hset : ∀ (superCell : SuperCell) ptr (e' : ListEnd), superCell = box.superCells c →
      ((box.setSuperCell c (superCell.setEndPtr ptr e')).superCells d).numParticles = (box.superCells d).numParticles ∧
        ((box.setSuperCell c (superCell.setEndPtr ptr e')).superCells d).mustShift = (box.superCells d).mustShift := by
    rintro _ ptr e' rfl
    rcases eq_or_ne d c with rfl | hne
    · rw [ParticlesBox.setSuperCell_superCells_self]
      cases e' <;> exact ⟨rfl, rfl⟩
    · rw [ParticlesBox.setSuperCell_superCells_of_ne _ hne]
      exact ⟨rfl, rfl⟩
  cases h with
  | exchange => exact hset _ _ _ rfl
  | @link p old =>
    cases old with
    | none => exact hset _ _ _ rfl
    | some old => exact ⟨rfl, rfl⟩
  | _ => exact ⟨rfl, rfl⟩

theorem Action.allocated (h : Action e c box phase box' phase') : box.allocated ⊆ box'.allocated := by
  cases h with
  | getEmptyFrame => exact Finset.subset_insert _ _
  | @link p old => cases old <;> exact Finset.Subset.refl _
  | _ => exact Finset.Subset.refl _

/-- The heap gives out the frame of the thread, and no other. -/
theorem Action.mem_allocated (h : Action e c box phase box' phase') (hnew : ∀ p, phase.frame = some p → p ∈ box.allocated) (q : FramePtr) :
    q ∈ box'.allocated ↔ q ∈ box.allocated ∨ phase'.frame = some q := by
  cases h with
  | @getEmptyFrame p hp =>
    show q ∈ insert p box.allocated ↔ _
    rw [Finset.mem_insert, or_comm]
    exact or_congr_right ⟨fun heq => congrArg some heq.symm, fun heq => (Option.some.inj heq).symm⟩
  | @link p old =>
    rw [show (box.linkOld p c old e).allocated = box.allocated by cases old <;> rfl]
    exact (or_iff_left_of_imp (hnew q)).symm
  | _ => exact (or_iff_left_of_imp (hnew q)).symm

/-- How many actions are left. -/
def Phase.left : Phase → ℕ
  | .idle => 5
  | .empty _ => 4
  | .prepared _ => 3
  | .exchanged _ _ => 2
  | .stored _ _ => 1
  | .linked _ => 0

theorem Action.left (h : Action e c box phase box' phase') : phase'.left + 1 = phase.left := by
  cases h <;> rfl

/-- A thread that is not done can go on: the heap has another frame. -/
theorem exists_action (e : ListEnd) (c : DataSpace DIM) (box : ParticlesBox DIM frameSize A) (phase : Phase) :
    (∃ p, phase = .linked p) ∨ ∃ box' phase', Action e c box phase box' phase' := by
  cases phase with
  | idle =>
    obtain ⟨p, hp⟩ := Infinite.exists_notMem_finset box.allocated
    exact Or.inr ⟨_, _, Action.getEmptyFrame hp⟩
  | empty p => exact Or.inr ⟨_, _, Action.prepare⟩
  | prepared p => exact Or.inr ⟨_, _, Action.exchange⟩
  | exchanged p old => exact Or.inr ⟨_, _, Action.store⟩
  | stored p old => exact Or.inr ⟨_, _, Action.link⟩
  | linked p => exact Or.inl ⟨p, rfl⟩

end Actions

/-! ## What the actions keep -/

namespace Appending

variable [DecidableEq τ] {box box' : ParticlesBox DIM frameSize A} {e : ListEnd} {cell : τ → DataSpace DIM} {p : FramePtr}
  {base order : DataSpace DIM → List FramePtr} {phase : τ → Phase} {t : τ} {old : Option FramePtr} {phase' : Phase}

omit [DecidableEq τ] in
/-- Frames that only differ in their slots, and counters. -/
theorem congr (h : Appending e cell base box phase order)
    (hframes : ∀ q e', (box'.frames q).toward e' = (box.frames q).toward e')
    (hcells : ∀ c e', (box'.superCells c).endPtr e' = (box.superCells c).endPtr e') (hallocated : box.allocated ⊆ box'.allocated) :
    Appending e cell base box' phase order := by
  refine ⟨fun c => ?_, fun c p hp hex => ?_, h.unlinked, fun t p ht => ?_, h.origin, h.distinct,
    fun t p ht => ⟨hallocated (h.new t p ht).1, (h.new t p ht).2⟩, fun c p hp => hallocated (h.allocated c p hp), h.disjoint⟩
  · rw [hcells, hcells]
    exact (h.list c).congr (fun p _ => hframes p e) fun _ _ => Iff.rfl
  · rw [hframes]
    exact h.follows c p hp hex
  · rw [hframes]
    exact h.prepared t p ht

omit [DecidableEq τ] in
/-- The supercell of a thread that has not begun does not matter. -/
theorem cell_congr {cell' : τ → DataSpace DIM} (h : Appending e cell base box phase order)
    (hcell : ∀ t, phase t ≠ .idle → cell' t = cell t) : Appending e cell' base box phase order := by
  refine ⟨h.list, h.follows, fun t p old ht => ?_, h.prepared, fun c p => (h.origin c p).trans (or_congr_right ?_), h.distinct, h.new,
    h.allocated, h.disjoint⟩
  · rw [hcell t fun hidle => by rw [hidle] at ht; cases ht]
    exact h.unlinked t p old ht
  · refine exists_congr fun t => and_congr_left fun ht => ?_
    rw [hcell t fun hidle => by rw [hidle] at ht; cases ht]

omit [DecidableEq τ] in
/-- A frame before its exchange is in no list. -/
theorem notMem (h : Appending e cell base box phase order) (hframe : (phase t).frame = some p) (hlisted : (phase t).listed = none)
    (c : DataSpace DIM) : p ∉ order c := by
  intro hp
  rcases (h.origin c p).mp hp with hbase | ⟨t', -, ht'⟩
  · exact (h.new t p hframe).2 c hbase
  · obtain rfl := h.distinct t t' p hframe (Phase.frame_of_listed ht')
    exact Option.some_ne_none p (ht'.symm.trans hlisted)

omit [DecidableEq τ] in
theorem mem_allocated (h : Appending e cell base box phase order) {c : DataSpace DIM} (hp : p ∈ order c) : p ∈ box.allocated := by
  rcases (h.origin c p).mp hp with hbase | ⟨t, -, ht⟩
  · exact h.allocated c p hbase
  · exact (h.new t p (Phase.frame_of_listed ht)).1

omit [DecidableEq τ] in
/-- The lists of two supercells have no frame in common. -/
theorem disjoint_order (h : Appending e cell base box phase order) {c c' : DataSpace DIM} (hne : c ≠ c') :
    (order c).Disjoint (order c') := by
  intro p hp hp'
  rcases (h.origin c p).mp hp with hbase | ⟨t, rfl, ht⟩
  · rcases (h.origin c' p).mp hp' with hbase' | ⟨t', rfl, ht'⟩
    · exact h.disjoint c c' hne hbase hbase'
    · exact (h.new t' p (Phase.frame_of_listed ht')).2 c hbase
  · rcases (h.origin c' p).mp hp' with hbase' | ⟨t', rfl, ht'⟩
    · exact (h.new t p (Phase.frame_of_listed ht)).2 c' hbase'
    · exact hne (congrArg cell (h.distinct t t' p (Phase.frame_of_listed ht) (Phase.frame_of_listed ht')))

/-- What a phase has in common with the one before it. -/
theorem comp_update {β : Type} (f : Phase → β) (hf : f phase' = f (phase t)) (t' : τ) :
    f (Function.update phase t phase' t') = f (phase t') := by
  rcases eq_or_ne t' t with rfl | hne
  · rw [Function.update_self, hf]
  · rw [Function.update_of_ne hne]

theorem getEmptyFrame (h : Appending e cell base box phase order) (ht : phase t = .idle) (hp : p ∉ box.allocated) :
    Appending e cell base (box.getEmptyFrame p) (Function.update phase t (.empty p)) order := by
  have hbox : Appending e cell base (box.getEmptyFrame p) phase order := h.congr (fun q e' => toward_getEmptyFrame e') (fun _ _ => rfl)
    (Finset.subset_insert _ _)
  have hlisted : ∀ t', (Function.update phase t (.empty p) t').listed = (phase t').listed := comp_update Phase.listed (by rw [ht]; rfl)
  have hunlinked : ∀ t', (Function.update phase t (.empty p) t').unlinked = (phase t').unlinked :=
    comp_update Phase.unlinked (by rw [ht]; rfl)
  have hframe : ∀ t' q, (Function.update phase t (.empty p) t').frame = some q →
      (t' = t ∧ q = p) ∨ (t' ≠ t ∧ (phase t').frame = some q) := by
    intro t' q hq
    rcases eq_or_ne t' t with rfl | hne
    · rw [Function.update_self] at hq
      exact Or.inl ⟨rfl, (Option.some.inj hq).symm⟩
    · rw [Function.update_of_ne hne] at hq
      exact Or.inr ⟨hne, hq⟩
  refine ⟨fun c => ?_, fun c q hq hex => ?_, fun t' q old hq => ?_, fun t' q hq => ?_, fun c q => ?_, fun t' t'' q hq hq' => ?_,
    fun t' q hq => ?_, hbox.allocated, h.disjoint⟩
  · simp only [hunlinked]
    exact hbox.list c
  · refine hbox.follows c q hq fun t' old heq => hex t' old ?_
    have hne : t' ≠ t := fun heq' => by rw [heq', ht] at heq; cases heq
    rw [Function.update_of_ne hne, heq]
  · rw [hunlinked] at hq
    exact h.unlinked t' q old hq
  · rcases eq_or_ne t' t with rfl | hne
    · rw [Function.update_self] at hq
      cases hq
    · rw [Function.update_of_ne hne] at hq
      exact hbox.prepared t' q hq
  · simp only [hlisted]
    exact h.origin c q
  · rcases hframe t' q hq with ⟨rfl, rfl⟩ | ⟨-, hold⟩
    · rcases hframe t'' q hq' with ⟨rfl, -⟩ | ⟨-, hold'⟩
      · rfl
      · exact absurd (h.new t'' q hold').1 hp
    · rcases hframe t'' q hq' with ⟨rfl, rfl⟩ | ⟨-, hold'⟩
      · exact absurd (h.new t' q hold).1 hp
      · exact h.distinct t' t'' q hold hold'
  · rcases hframe t' q hq with ⟨rfl, rfl⟩ | ⟨-, hq⟩
    · exact ⟨Finset.mem_insert_self _ _, fun c hc => hp (h.allocated c q hc)⟩
    · exact hbox.new t' q hq

theorem prepare (h : Appending e cell base box phase order) (ht : phase t = .empty p) :
    Appending e cell base (box.prepareFrame p (cell t) e) (Function.update phase t (.prepared p)) order := by
  have hlisted : ∀ t', (Function.update phase t (.prepared p) t').listed = (phase t').listed := comp_update Phase.listed (by rw [ht]; rfl)
  have hunlinked : ∀ t', (Function.update phase t (.prepared p) t').unlinked = (phase t').unlinked :=
    comp_update Phase.unlinked (by rw [ht]; rfl)
  have hframe : ∀ t', (Function.update phase t (.prepared p) t').frame = (phase t').frame := comp_update Phase.frame (by rw [ht]; rfl)
  have hnew : ∀ c, p ∉ order c := h.notMem (t := t) (by rw [ht]; rfl) (by rw [ht]; rfl)
  have hother : ∀ c, ∀ q ∈ order c, (box.prepareFrame p (cell t) e).frames q = box.frames q := fun c q hq =>
    frames_prepareFrame_of_ne fun heq => hnew c (heq ▸ hq)
  refine ⟨fun c => ?_, fun c q hq hex => ?_, fun t' q old hq => ?_, fun t' q hq => ?_, fun c q => ?_, fun t' t'' q hq hq' => ?_,
    fun t' q hq => ?_, h.allocated, h.disjoint⟩
  · simp only [hunlinked]
    exact (h.list c).congr (fun q hq => by rw [hother c q hq]) fun _ _ => Iff.rfl
  · rw [hother c q hq]
    refine h.follows c q hq fun t' old heq => hex t' old ?_
    have hne : t' ≠ t := fun heq' => by rw [heq', ht] at heq; cases heq
    rw [Function.update_of_ne hne, heq]
  · rw [hunlinked] at hq
    exact h.unlinked t' q old hq
  · rcases eq_or_ne t' t with rfl | hne
    · rw [Function.update_self] at hq
      cases hq
      exact toward_prepareFrame_self
    · rw [Function.update_of_ne hne] at hq
      have hqp : q ≠ p := fun heq => hne (h.distinct t' t q (by rw [hq]; rfl) (by rw [ht, heq]; rfl))
      rw [frames_prepareFrame_of_ne hqp]
      exact h.prepared t' q hq
  · simp only [hlisted]
    exact h.origin c q
  · rw [hframe] at hq hq'
    exact h.distinct t' t'' q hq hq'
  · rw [hframe] at hq
    exact h.new t' q hq

theorem exchange (h : Appending e cell base box phase order) (ht : phase t = .prepared p) :
    Appending e cell base (box.exchangeEnd p (cell t) e)
      (Function.update phase t (.exchanged p ((box.superCells (cell t)).endPtr e)))
      (Function.update order (cell t) (order (cell t) ++ [p])) := by
  set old := (box.superCells (cell t)).endPtr e with hold
  have hlast : old = (order (cell t)).getLast? := (h.list (cell t)).lastNode
  have hframe : ∀ t', (Function.update phase t (.exchanged p old) t').frame = (phase t').frame :=
    comp_update Phase.frame (by rw [ht]; rfl)
  have hnew : ∀ c, p ∉ order c := h.notMem (t := t) (by rw [ht]; rfl) (by rw [ht]; rfl)
  have hpending : ∀ q, (∃ t' old', (Function.update phase t (.exchanged p old) t').unlinked = some (q, old')) ↔
      q = p ∨ ∃ t' old', (phase t').unlinked = some (q, old') := by
    intro q
    constructor
    · rintro ⟨t', old', hq⟩
      rcases eq_or_ne t' t with rfl | hne
      · rw [Function.update_self] at hq
        exact Or.inl (congrArg Prod.fst (Option.some.inj hq)).symm
      · rw [Function.update_of_ne hne] at hq
        exact Or.inr ⟨t', old', hq⟩
    · rintro (rfl | ⟨t', old', hq⟩)
      · exact ⟨t, old, by rw [Function.update_self]; rfl⟩
      · have hne : t' ≠ t := fun heq => by rw [heq, ht] at hq; cases hq
        exact ⟨t', old', by rw [Function.update_of_ne hne, hq]⟩
  have hfollows : ∀ c q old', Follows (order c) q old' →
      Follows (Function.update order (cell t) (order (cell t) ++ [p]) c) q old' := by
    intro c q old' hq
    rcases eq_or_ne c (cell t) with rfl | hne
    · rw [Function.update_self]
      exact hq.append [p]
    · rwa [Function.update_of_ne hne]
  refine ⟨fun c => ?_, fun c q hq hex => ?_, fun t' q old' hq => ?_, fun t' q hq => ?_, fun c q => ?_, fun t' t'' q hq hq' => ?_,
    fun t' q hq => ?_, h.allocated, h.disjoint⟩
  · rcases eq_or_ne c (cell t) with rfl | hne
    · rw [Function.update_self, endPtr_exchangeEnd_self, endPtr_other_exchangeEnd_self]
      exact (h.list (cell t)).exchange (hnew _) (h.prepared t p ht) hpending
    · rw [Function.update_of_ne hne, ParticlesBox.exchangeEnd, ParticlesBox.setSuperCell_superCells_of_ne _ hne]
      exact (h.list c).congr (fun _ _ => rfl) fun q hq =>
        (hpending q).trans (or_iff_right fun heq => hnew c (heq ▸ hq))
  · have hqp : q ≠ p := fun heq => hex t old (by rw [Function.update_self, heq])
    have hq' : q ∈ order c := by
      rcases eq_or_ne c (cell t) with rfl | hne
      · rw [Function.update_self] at hq
        exact (List.mem_append.mp hq).resolve_right fun hq => hqp (List.mem_singleton.mp hq)
      · rwa [Function.update_of_ne hne] at hq
    refine hfollows c q _ (h.follows c q hq' fun t' old' heq => hex t' old' ?_)
    have hne : t' ≠ t := fun heq' => by rw [heq', ht] at heq; cases heq
    rw [Function.update_of_ne hne, heq]
  · rcases eq_or_ne t' t with rfl | hne
    · rw [Function.update_self] at hq
      obtain ⟨rfl, rfl⟩ := Prod.mk.inj (Option.some.inj hq)
      rw [Function.update_self, hlast]
      exact follows_concat _ _
    · rw [Function.update_of_ne hne] at hq
      exact hfollows _ _ _ (h.unlinked t' q old' hq)
  · rcases eq_or_ne t' t with rfl | hne
    · rw [Function.update_self] at hq
      cases hq
    · rw [Function.update_of_ne hne] at hq
      exact h.prepared t' q hq
  · have hmem : q ∈ Function.update order (cell t) (order (cell t) ++ [p]) c ↔ q ∈ order c ∨ cell t = c ∧ p = q := by
      rcases eq_or_ne c (cell t) with rfl | hne
      · rw [Function.update_self, List.mem_append, List.mem_singleton]
        exact or_congr_right ⟨fun hq => ⟨rfl, hq.symm⟩, fun hq => hq.2.symm⟩
      · rw [Function.update_of_ne hne]
        exact (or_iff_left fun hq => hne hq.1.symm).symm
    rw [hmem, h.origin, or_assoc]
    refine or_congr_right ⟨?_, ?_⟩
    · rintro (⟨t', hc, hq⟩ | ⟨hc, rfl⟩)
      · have hne : t' ≠ t := fun heq => by rw [heq, ht] at hq; cases hq
        exact ⟨t', hc, by rw [Function.update_of_ne hne, hq]⟩
      · exact ⟨t, hc, by rw [Function.update_self]; rfl⟩
    · rintro ⟨t', hc, hq⟩
      rcases eq_or_ne t' t with rfl | hne
      · rw [Function.update_self] at hq
        exact Or.inr ⟨hc, Option.some.inj hq⟩
      · rw [Function.update_of_ne hne] at hq
        exact Or.inl ⟨t', hc, hq⟩
  · rw [hframe] at hq hq'
    exact h.distinct t' t'' q hq hq'
  · rw [hframe] at hq
    exact h.new t' q hq

theorem store (h : Appending e cell base box phase order) (ht : phase t = .exchanged p old) :
    Appending e cell base (box.storeOld p old e) (Function.update phase t (.stored p old)) order := by
  have hlisted : ∀ t', (Function.update phase t (.stored p old) t').listed = (phase t').listed :=
    comp_update Phase.listed (by rw [ht]; rfl)
  have hunlinked : ∀ t', (Function.update phase t (.stored p old) t').unlinked = (phase t').unlinked :=
    comp_update Phase.unlinked (by rw [ht]; rfl)
  have hframe : ∀ t', (Function.update phase t (.stored p old) t').frame = (phase t').frame := comp_update Phase.frame (by rw [ht]; rfl)
  have hfollows : Follows (order (cell t)) p old := h.unlinked t p old (by rw [ht]; rfl)
  refine ⟨fun c => ?_, fun c q hq hex => ?_, fun t' q old' hq => ?_, fun t' q hq => ?_, fun c q => ?_, fun t' t'' q hq hq' => ?_,
    fun t' q hq => ?_, h.allocated, h.disjoint⟩
  · simp only [hunlinked]
    exact (h.list c).congr (fun q _ => toward_storeOld old) fun _ _ => Iff.rfl
  · rcases eq_or_ne q p with rfl | hqp
    · obtain rfl : c = cell t := by
        by_contra hne
        exact h.disjoint_order hne hq hfollows.mem
      rw [toward_other_storeOld_self]
      exact hfollows
    · rw [frames_storeOld_of_ne _ hqp]
      refine h.follows c q hq fun t' old' heq => hex t' old' ?_
      have hne : t' ≠ t := fun heq' => by
        rw [heq', ht] at heq
        exact hqp (Phase.exchanged.inj heq).1.symm
      rw [Function.update_of_ne hne, heq]
  · rw [hunlinked] at hq
    exact h.unlinked t' q old' hq
  · rcases eq_or_ne t' t with rfl | hne
    · rw [Function.update_self] at hq
      cases hq
    · rw [Function.update_of_ne hne] at hq
      rw [toward_storeOld]
      exact h.prepared t' q hq
  · simp only [hlisted]
    exact h.origin c q
  · rw [hframe] at hq hq'
    exact h.distinct t' t'' q hq hq'
  · rw [hframe] at hq
    exact h.new t' q hq

theorem link (h : Appending e cell base box phase order) (ht : phase t = .stored p old) :
    Appending e cell base (box.linkOld p (cell t) old e) (Function.update phase t (.linked p)) order := by
  have hlisted : ∀ t', (Function.update phase t (.linked p) t').listed = (phase t').listed :=
    comp_update Phase.listed (by rw [ht]; rfl)
  have hframe : ∀ t', (Function.update phase t (.linked p) t').frame = (phase t').frame := comp_update Phase.frame (by rw [ht]; rfl)
  have hfollows : Follows (order (cell t)) p old := h.unlinked t p old (by rw [ht]; rfl)
  have hpending : ∀ q, (∃ t' old', (Function.update phase t (.linked p) t').unlinked = some (q, old')) ↔
      q ≠ p ∧ ∃ t' old', (phase t').unlinked = some (q, old') := by
    intro q
    constructor
    · rintro ⟨t', old', hq⟩
      rcases eq_or_ne t' t with rfl | hne
      · rw [Function.update_self] at hq
        cases hq
      · rw [Function.update_of_ne hne] at hq
        refine ⟨fun heq => hne (h.distinct t' t p ?_ (by rw [ht]; rfl)), t', old', hq⟩
        exact Phase.frame_of_listed (heq ▸ Phase.listed_of_unlinked hq)
    · rintro ⟨hqp, t', old', hq⟩
      have hne : t' ≠ t := fun heq => by
        rw [heq, ht] at hq
        exact hqp (congrArg Prod.fst (Option.some.inj hq)).symm
      exact ⟨t', old', by rw [Function.update_of_ne hne, hq]⟩
  refine ⟨fun c => ?_, fun c q hq hex => ?_, fun t' q old' hq => ?_, fun t' q hq => ?_, fun c q => ?_, fun t' t'' q hq hq' => ?_,
    fun t' q hq => ?_, fun c q hq => ?_, h.disjoint⟩
  · rcases eq_or_ne c (cell t) with rfl | hne
    · cases old with
      | none =>
        rw [superCells_linkOld_none_self, superCells_linkOld_none_self, SuperCell.setEndPtr_endPtr,
          SuperCell.setEndPtr_other_endPtr]
        exact (h.list (cell t)).storeFirst hfollows hpending
      | some old =>
        rw [toward_linkOld]
        exact (h.list (cell t)).storeNext hfollows hpending
    · rw [superCells_linkOld_of_ne _ hne]
      refine (h.list c).congr (fun q hq => ?_) fun q hq =>
        (hpending q).trans (and_iff_right fun heq => h.disjoint_order hne hq (heq ▸ hfollows.mem))
      cases old with
      | none => rfl
      | some old =>
        have hold : q ≠ old := fun heq => h.disjoint_order hne hq (heq ▸ hfollows.mem_old)
        rw [show ((box.linkOld p (cell t) (some old) e).frames q).toward e = _ from congrFun (toward_linkOld old) q,
          Function.update_of_ne hold]
  · rw [toward_other_linkOld]
    refine h.follows c q hq fun t' old' heq => hex t' old' ?_
    have hne : t' ≠ t := fun heq' => by rw [heq', ht] at heq; cases heq
    rw [Function.update_of_ne hne, heq]
  · rcases eq_or_ne t' t with rfl | hne
    · rw [Function.update_self] at hq
      cases hq
    · rw [Function.update_of_ne hne] at hq
      exact h.unlinked t' q old' hq
  · rcases eq_or_ne t' t with rfl | hne
    · rw [Function.update_self] at hq
      cases hq
    · rw [Function.update_of_ne hne] at hq
      have hqnew := h.notMem (t := t') (p := q) (by rw [hq]; rfl) (by rw [hq]; rfl)
      cases old with
      | none => exact h.prepared t' q hq
      | some old =>
        have hold : q ≠ old := fun heq => hqnew (cell t) (heq ▸ hfollows.mem_old)
        rw [show ((box.linkOld p (cell t) (some old) e).frames q).toward e = _ from congrFun (toward_linkOld old) q,
          Function.update_of_ne hold]
        exact h.prepared t' q hq
  · simp only [hlisted]
    exact h.origin c q
  · rw [hframe] at hq hq'
    exact h.distinct t' t'' q hq hq'
  · rw [hframe] at hq
    cases old <;> exact h.new t' q hq
  · cases old <;> exact h.allocated c q hq

/-- **Every action keeps the lists.**  An exchange puts the frame of the thread at the end of the order. -/
theorem step (h : Appending e cell base box phase order) (haction : Action e (cell t) box (phase t) box' phase') :
    ∃ order', Appending e cell base box' (Function.update phase t phase') order' ∧
      ((order' = order ∧ phase'.listed = (phase t).listed) ∨ ∃ p, phase t = .prepared p ∧ phase'.listed = some p ∧
        order' = Function.update order (cell t) (order (cell t) ++ [p])) := by
  generalize hph : phase t = ph at haction
  cases haction with
  | getEmptyFrame hp => exact ⟨order, h.getEmptyFrame hph hp, Or.inl ⟨rfl, rfl⟩⟩
  | prepare => exact ⟨order, h.prepare hph, Or.inl ⟨rfl, rfl⟩⟩
  | exchange => exact ⟨_, h.exchange hph, Or.inr ⟨_, rfl, rfl, rfl⟩⟩
  | store => exact ⟨order, h.store hph, Or.inl ⟨rfl, rfl⟩⟩
  | link => exact ⟨order, h.link hph, Or.inl ⟨rfl, rfl⟩⟩

end Appending

/-! ## Where the lists come from, and what is left -/

section Ends

variable {box : ParticlesBox DIM frameSize A} {e : ListEnd} {cell : τ → DataSpace DIM}
  {L order base : DataSpace DIM → List FramePtr} {phase : τ → Phase}

theorem orient_orient (e : ListEnd) (l : List FramePtr) : e.orient (e.orient l) = l := by
  cases e with
  | first => exact List.reverse_reverse l
  | last => rfl

theorem mem_orient {l : List FramePtr} {p : FramePtr} : p ∈ e.orient l ↔ p ∈ l := by
  cases e with
  | first => exact List.mem_reverse
  | last => exact Iff.rfl

theorem orient_perm (e : ListEnd) (l : List FramePtr) : (e.orient l).Perm l := by
  cases e with
  | first => exact List.reverse_perm l
  | last => exact List.Perm.refl l

theorem listAt_orient {c : DataSpace DIM} {l : List FramePtr} : box.ListAt e c (e.orient l) ↔ box.ListAt .last c l := by
  cases e with
  | first =>
    refine ⟨fun h => ?_, fun h => ParticlesBox.ListAt.reverse h⟩
    have hreverse := ParticlesBox.ListAt.reverse h
    rwa [show ListEnd.first.orient l = l.reverse from rfl, List.reverse_reverse] at hreverse
  | last => exact Iff.rfl

/-- **Before any thread begins.** -/
theorem Appending.start (h : box.Holds L) : Appending e cell (fun c => e.orient (L c)) box (fun _ => .idle) fun c => e.orient (L c) := by
  have hlist : ∀ c, box.ListAt e c (e.orient (L c)) := fun c => listAt_orient.mpr (h.list c)
  refine ⟨fun c => ?_, fun c p hp _ => (hlist c).follows hp, fun t p old ht => absurd ht.symm (Option.some_ne_none _),
    fun t p ht => absurd ht (by rintro ⟨⟩), fun c p => (or_iff_left ?_).symm, fun t t' p ht => absurd ht.symm (Option.some_ne_none _),
    fun t p ht => absurd ht.symm (Option.some_ne_none _), fun c p hp => h.allocated c p (mem_orient.mp hp), fun c c' hne p hp hp' => ?_⟩
  · refine (hlist c).appendList fun p _ => ?_
    rintro ⟨t, old, ht⟩
    exact Option.some_ne_none _ ht.symm
  · rintro ⟨t, -, ht⟩
    exact Option.some_ne_none _ ht.symm
  · exact h.disjoint c c' hne (mem_orient.mp hp) (mem_orient.mp hp')

/-- **When every thread that has begun is done**, the supercells hold their frames in the order of the
exchanges. -/
theorem Appending.holds (h : Appending e cell base box phase order) (hdone : ∀ t, phase t = .idle ∨ ∃ p, phase t = .linked p) :
    box.Holds fun c => e.orient (order c) := by
  have hunlinked : ∀ t, (phase t).unlinked = none := by
    intro t
    rcases hdone t with ht | ⟨p, ht⟩ <;> rw [ht] <;> rfl
  refine ⟨fun c => (listAt_orient (e := e)).mp ?_, fun c c' hne p hp hp' => ?_, fun c p hp => ?_⟩
  · rw [orient_orient]
    refine LinkedList.of_appendList (h.list c) (fun p _ => ?_) fun p hp => h.follows c p hp fun t old ht => ?_
    · rintro ⟨t, old, ht⟩
      exact Option.some_ne_none _ (ht.symm.trans (hunlinked t))
    · have hnone := hunlinked t
      rw [ht] at hnone
      exact Option.some_ne_none _ hnone
  · exact h.disjoint_order hne (mem_orient.mp hp) (mem_orient.mp hp')
  · exact h.mem_allocated (mem_orient.mp hp)

end Ends

end FrameAppends
end PmaccParticles
end Spearhed
