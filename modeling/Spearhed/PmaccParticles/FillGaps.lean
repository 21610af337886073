import Mathlib.Algebra.Order.BigOperators.Group.Finset
import Mathlib.Tactic.Abel
import Spearhed.Library.StepSystem
import Spearhed.PmaccParticles.BlockWrites
import Spearhed.PmaccParticles.ForEachParticle

/-!
# Filling the gaps of frame lists

`KernelFillGaps` and `KernelFillGapsLastFrame`.  Each supercell has a block of its own.  The block takes
particles from the last frame and puts them into the gaps of the first frame that has some, removes the
last frame when nothing is left in it, and goes on until both ends meet; then it moves the particles of
the one frame that is left to its beginning.

A block is at one of the places `Pc`, and `BlockStep` is what it does until it comes to the next one.
Inside of such a step the threads of the block are separated from each other by `sync`; what they get from
the shared counters is any numbering.  The blocks take their steps in any order.

* `BlockInv`: what a block has achieved so far, given the frames that its supercell holds.
* `BlockStep.progress`: a step keeps it, loses no particle, and leaves less to do.
* `fillGaps_ends`: every run ends, with well-formed supercells that hold the same particles.
-/

namespace Spearhed
namespace PmaccParticles

open Library Mappings ForEachParticle

variable {DIM frameSize : ℕ} {A : Type}

namespace FillGaps

/-- Where the block of a supercell is. -/
inductive Pc
  | start
  /-- At the head of the loop, with `firstFrame`, `lastFrame` and `numParticlesPerSuperCell`. -/
  | loop (firstFrame lastFrame : Option FramePtr) (numParticlesPerSuperCell : ℕ)
  /-- Before `KernelFillGapsLastFrame`. -/
  | fillLastFrame
  | done

/-- The particles of the last frame are copied to the gaps of the first one. -/
def copyParticles (box : ParticlesBox DIM frameSize A) (first last : FramePtr) (localGapIdx : Fin frameSize → ℕ)
    (particleIndices : ℕ → Fin frameSize) : ParticlesBox DIM frameSize A :=
  let dest := (box.frames first).slots
  let src := (box.frames last).slots
  (box.setSlots first (fillSlots dest src localGapIdx particleIndices (settled src).card)).setSlots last
    (clearSlots src localGapIdx particleIndices (settled src).card)

/-- What the master does after the copies. -/
def moveOn (box : ParticlesBox DIM frameSize A) (c : DataSpace DIM) (first last : FramePtr)
    (numParticlesPerSuperCell numGaps numParticles : ℕ) : ParticlesBox DIM frameSize A × Pc :=
  if numGaps < numParticles then
    -- any gap in the first frame is filled
    (box, .loop (box.getNextFrame first) (some last) ((numParticlesPerSuperCell + frameSize) % 2 ^ 32))
  else
    let lastFrame := box.getPreviousFrame last
    let box' := box.removeLastFrame c
    if numGaps > numParticles then (box', .loop (some first) lastFrame numParticlesPerSuperCell)
    else if lastFrame.isSome ∧ lastFrame ≠ some first then
      (box', .loop (box'.getNextFrame first) lastFrame ((numParticlesPerSuperCell + frameSize) % 2 ^ 32))
    else (box', .loop (some first) lastFrame numParticlesPerSuperCell)

/-- The end of `KernelFillGapsLastFrame`. -/
def countLast (box : ParticlesBox DIM frameSize A) (c : DataSpace DIM) (numParticles : ℕ) : ParticlesBox DIM frameSize A :=
  if numParticles ≠ 0 then
    box.setNumParticles c (((box.superCells c).numParticles + numParticles) % 2 ^ 32)
  else box.removeLastFrame c

/-- What the threads agreed on before they move the particles of the last frame. -/
structure CompactNumbers (slots : Fin frameSize → Slot A) (localGapIdx : Fin frameSize → ℕ) (srcOf : ℕ → Fin frameSize) :
    Prop where
  gaps : Numbers localGapIdx (frontGaps slots (live slots).card)
  particles : NumberedBy srcOf (backParticles slots (live slots).card)

/-- What the block of a supercell does until its next place. -/
inductive BlockStep (c : DataSpace DIM) : ParticlesBox DIM frameSize A → Pc → ParticlesBox DIM frameSize A → Pc → Prop
  | start {box : ParticlesBox DIM frameSize A} :
      BlockStep c box .start box (.loop (box.getFirstFrame c) (box.getLastFrame c) 0)
  /-- There are no gaps in the first frame. -/
  | next {box : ParticlesBox DIM frameSize A} {first : FramePtr} {lastFrame : Option FramePtr} {n : ℕ}
      (hne : some first ≠ lastFrame) (hgaps : gaps (box.frames first).slots = ∅) :
      BlockStep c box (.loop (some first) lastFrame n) box
        (.loop (box.getNextFrame first) lastFrame ((n + frameSize) % 2 ^ 32))
  | copy {box : ParticlesBox DIM frameSize A} {first last : FramePtr} {n : ℕ} {localGapIdx : Fin frameSize → ℕ}
      {particleIndices : ℕ → Fin frameSize} (hne : first ≠ last) (hgaps : gaps (box.frames first).slots ≠ ∅)
      (hnumbers : FillNumbers (box.frames first).slots (box.frames last).slots localGapIdx particleIndices)
      {box' : ParticlesBox DIM frameSize A} {pc' : Pc}
      (hmove : moveOn (copyParticles box first last localGapIdx particleIndices) c first last n
        (gaps (box.frames first).slots).card (settled (box.frames last).slots).card = (box', pc')) :
      BlockStep c box (.loop (some first) (some last) n) box' pc'
  | leave {box : ParticlesBox DIM frameSize A} {firstFrame lastFrame : Option FramePtr} {n : ℕ}
      (h : firstFrame = none ∨ firstFrame = lastFrame) :
      BlockStep c box (.loop firstFrame lastFrame n) (box.setNumParticles c n) .fillLastFrame
  | lastFrame {box : ParticlesBox DIM frameSize A} {last : FramePtr} {localGapIdx : Fin frameSize → ℕ}
      {srcOf : ℕ → Fin frameSize} (hlast : box.getLastFrame c = some last)
      (hnumbers : CompactNumbers (box.frames last).slots localGapIdx srcOf) :
      BlockStep c box .fillLastFrame
        (countLast (box.setSlots last
          (compactSlots (box.frames last).slots localGapIdx srcOf (live (box.frames last).slots).card)) c
          (live (box.frames last).slots).card) .done
  | noFrame {box : ParticlesBox DIM frameSize A} (hlast : box.getLastFrame c = none) :
      BlockStep c box .fillLastFrame (box.removeLastFrame c) .done

structure State (DIM frameSize : ℕ) (A : Type) where
  box : ParticlesBox DIM frameSize A
  pc : DataSpace DIM → Pc

/-- The kernel with a block for each of these supercells. -/
def system (blocks : Finset (DataSpace DIM)) (box : ParticlesBox DIM frameSize A) :
    StepSystem (State DIM frameSize A) where
  init s := s = ⟨box, fun _ => .start⟩
  step s t := ∃ c ∈ blocks, ∃ box' pc', BlockStep c s.box (s.pc c) box' pc' ∧ t = ⟨box', Function.update s.pc c pc'⟩

/-- What a block has achieved, given the frames that its supercell holds, and how many steps are left. -/
inductive BlockInv (box : ParticlesBox DIM frameSize A) (c : DataSpace DIM) (l : List FramePtr) : Pc → ℕ → Prop
  | start : BlockInv box c l .start (l.length + 3)
  | loop {filled rest : List FramePtr} {firstFrame lastFrame : Option FramePtr} {n : ℕ} (hl : l = filled ++ rest)
      (hnil : rest = [] → l = []) (hfull : ∀ p ∈ filled, Full (box.frames p).slots) (hfirst : firstFrame = rest.head?)
      (hlast : lastFrame = l.getLast?) (hn : n = filled.length * frameSize) :
      BlockInv box c l (.loop firstFrame lastFrame n) (rest.length + 2)
  | fillLastFrame {filled rest : List FramePtr} (hl : l = filled ++ rest) (hnil : rest = [] → l = [])
      (hrest : rest.length ≤ 1) (hfull : ∀ p ∈ filled, Full (box.frames p).slots)
      (hnum : (box.superCells c).numParticles = filled.length * frameSize) : BlockInv box c l .fillLastFrame 1
  | done (h : WellFormed box c l) : BlockInv box c l .done 0

section Writes

variable {box box' box'' : ParticlesBox DIM frameSize A} {first last q : FramePtr} {localGapIdx : Fin frameSize → ℕ}
  {particleIndices : ℕ → Fin frameSize} {L : DataSpace DIM → List FramePtr} {c : DataSpace DIM} {l l' : List FramePtr}

theorem copyParticles_first (hne : first ≠ last) :
    ((copyParticles box first last localGapIdx particleIndices).frames first).slots =
      fillSlots (box.frames first).slots (box.frames last).slots localGapIdx particleIndices
        (settled (box.frames last).slots).card := by
  rw [copyParticles, ParticlesBox.setSlots, ParticlesBox.setFrame_frames_of_ne _ hne, ParticlesBox.setSlots,
    ParticlesBox.setFrame_frames_self]

theorem copyParticles_last : ((copyParticles box first last localGapIdx particleIndices).frames last).slots =
      clearSlots (box.frames last).slots localGapIdx particleIndices (settled (box.frames last).slots).card := by
  rw [copyParticles, ParticlesBox.setSlots, ParticlesBox.setFrame_frames_self]

theorem copyParticles_of_ne (hfirst : q ≠ first) (hlast : q ≠ last) :
    (copyParticles box first last localGapIdx particleIndices).frames q = box.frames q := by
  rw [copyParticles, ParticlesBox.setSlots, ParticlesBox.setFrame_frames_of_ne _ hlast, ParticlesBox.setSlots,
    ParticlesBox.setFrame_frames_of_ne _ hfirst]

theorem holds_copyParticles (h : box.Holds L) : (copyParticles box first last localGapIdx particleIndices).Holds L :=
  (h.setSlots _).setSlots _

theorem local_copyParticles (hfirst : first ∈ l) (hlast : last ∈ l) :
    Local c l l box (copyParticles box first last localGapIdx particleIndices) :=
  (Local.setSlots hfirst _).trans (Local.setSlots hlast _) (List.Subset.refl l) (List.Subset.refl l)

/-- **The copies lose nothing.** -/
theorem particles_copyParticles (hF : frameSize ≤ INV_LOC_IDX) {filled mid : List FramePtr}
    (hnodup : (filled ++ first :: (mid ++ [last])).Nodup)
    (hnumbers : FillNumbers (box.frames first).slots (box.frames last).slots localGapIdx particleIndices) :
    (copyParticles box first last localGapIdx particleIndices).particles (filled ++ first :: (mid ++ [last])) =
      box.particles (filled ++ first :: (mid ++ [last])) := by
  obtain ⟨hfilled, hrest, hdisjoint⟩ := List.nodup_append'.mp hnodup
  obtain ⟨hfirst, hmid⟩ := List.nodup_cons.mp hrest
  have hlast : last ∉ mid := fun hmem => (List.nodup_append.mp hmid).2.2 last hmem last (List.mem_singleton_self last) rfl
  have hne : first ≠ last := by
    rintro rfl
    exact hfirst (List.mem_append_right mid (List.mem_singleton_self first))
  have hother : ∀ l : List FramePtr, first ∉ l → last ∉ l →
      (copyParticles box first last localGapIdx particleIndices).particles l = box.particles l :=
    fun l hl hl' => ParticlesBox.particles_congr fun p hp => by
      have hpfirst : p ≠ first := fun heq => hl (heq ▸ hp)
      have hplast : p ≠ last := fun heq => hl' (heq ▸ hp)
      rw [copyParticles_of_ne hpfirst hplast]
  have hmoved := particles_fillSlots hF hnumbers
  rw [ParticlesBox.particles_append, ParticlesBox.particles_append, ParticlesBox.particles_cons, ParticlesBox.particles_cons,
    ParticlesBox.particles_append, ParticlesBox.particles_append,
    hother filled (fun hmem => hdisjoint hmem List.mem_cons_self)
      (fun hmem => hdisjoint hmem (List.mem_cons_of_mem _ (List.mem_append_right _ (List.mem_singleton_self last)))),
    hother mid (fun hmem => hfirst (List.mem_append_left _ hmem)) hlast]
  simp only [ParticlesBox.particles_cons, ParticlesBox.particles_nil, add_zero]
  rw [copyParticles_first hne, copyParticles_last, add_left_comm _ (box.particles mid), hmoved]
  abel

/-- What the frames of a list hold stays unmarked. -/
theorem unmarked_copyParticles (hne : first ≠ last) (h : ∀ p ∈ l, Unmarked (box.frames p).slots) :
    ∀ p ∈ l, Unmarked ((copyParticles box first last localGapIdx particleIndices).frames p).slots := by
  intro p hp
  rcases eq_or_ne p first with rfl | hfirst
  · rw [copyParticles_first hne]
    exact (h p hp).fillSlots _
  · rcases eq_or_ne p last with rfl | hlast
    · rw [copyParticles_last]
      exact (h p hp).clearSlots _
    · rw [copyParticles_of_ne hfirst hlast]
      exact h p hp

end Writes

section Step

variable {box box' : ParticlesBox DIM frameSize A} {L : DataSpace DIM → List FramePtr} {c : DataSpace DIM} {pc pc' : Pc} {k : ℕ}

/-- What a block has achieved is read off the frames and the counter of its supercell. -/
theorem BlockInv.congr {l : List FramePtr} (h : BlockInv box c l pc k) (hc : box'.superCells c = box.superCells c)
    (hframes : ∀ p ∈ l, box'.frames p = box.frames p) : BlockInv box' c l pc k := by
  cases h with
  | start => exact BlockInv.start
  | @loop filled rest _ _ _ hl hnil hfull hfirst hlast hn =>
    refine BlockInv.loop hl hnil (fun p hp => ?_) hfirst hlast hn
    rw [hframes p (hl ▸ List.mem_append_left rest hp)]
    exact hfull p hp
  | @fillLastFrame filled rest hl hnil hrest hfull hnum =>
    refine BlockInv.fillLastFrame hl hnil hrest (fun p hp => ?_) (hc ▸ hnum)
    rw [hframes p (hl ▸ List.mem_append_left rest hp)]
    exact hfull p hp
  | done h => exact BlockInv.done (h.congr hc hframes)

/-- What a step of a block achieves, where it leaves these frames to its supercell. -/
structure Progress (c : DataSpace DIM) (L : DataSpace DIM → List FramePtr) (box : ParticlesBox DIM frameSize A) (k : ℕ)
    (box' : ParticlesBox DIM frameSize A) (pc' : Pc) (l' : List FramePtr) (k' : ℕ) : Prop where
  lt : k' < k
  sublist : l' <+: L c
  holds : box'.Holds (Function.update L c l')
  inv : BlockInv box' c l' pc' k'
  unmarked : ∀ p ∈ l', Unmarked (box'.frames p).slots
  particles : box'.particles l' = box.particles (L c)
  writes : Local c (L c) l' box box'

/-- A step that leaves the supercell all of its frames. -/
theorem Progress.ofSame {k' : ℕ} (hlt : k' < k) (h : box'.Holds L) (hinv : BlockInv box' c (L c) pc' k')
    (hunmarked : ∀ p ∈ L c, Unmarked (box'.frames p).slots) (hparticles : box'.particles (L c) = box.particles (L c))
    (hwrites : Local c (L c) (L c) box box') : Progress c L box k box' pc' (L c) k' :=
  ⟨hlt, List.prefix_refl _, by rwa [Function.update_eq_self], hinv, hunmarked, hparticles, hwrites⟩

/-- A step that removes a last frame without particles, after some writes. -/
theorem Progress.ofRemove {box₁ : ParticlesBox DIM frameSize A} {l : List FramePtr} {last : FramePtr} {k' : ℕ}
    (hlt : k' < k) (hl : L c = l ++ [last]) (h : box₁.Holds L) (hempty : slotParticles (box₁.frames last).slots = 0)
    (hinv : BlockInv (box₁.removeLastFrame c) c l pc' k') (hunmarked : ∀ p ∈ L c, Unmarked (box₁.frames p).slots)
    (hparticles : box₁.particles (L c) = box.particles (L c)) (hwrites : Local c (L c) (L c) box box₁) :
    Progress c L box k (box₁.removeLastFrame c) pc' l k' := by
  have hdrop : (L c).dropLast = l := by rw [hl, List.dropLast_concat]
  have hsub : l ⊆ L c := fun p hp => hl ▸ List.mem_append_left _ hp
  refine ⟨hlt, ⟨[last], hl.symm⟩, hdrop ▸ h.removeLastFrame c, hinv, fun p hp => ?_, ?_, ?_⟩
  · rw [ParticlesBox.removeLastFrame_slots]
    exact hunmarked p (hsub hp)
  · rw [ParticlesBox.particles_congr fun p _ => ParticlesBox.removeLastFrame_slots box₁ c p, ← hparticles, hl,
      ParticlesBox.particles_append, ParticlesBox.particles_cons, hempty, ParticlesBox.particles_nil, add_zero, add_zero]
  · exact hwrites.trans (hdrop ▸ Local.removeLastFrame h rfl) (List.Subset.refl _) hsub

/-- The particles of frames that are full. -/
theorem card_particles_of_full {l : List FramePtr} (h : ∀ p ∈ l, Full (box.frames p).slots) :
    (box.particles l).card = l.length * frameSize := by
  induction l with
  | nil => rw [List.length_nil, Nat.zero_mul]; rfl
  | cons p l ih =>
    obtain ⟨hp, hl⟩ := List.forall_mem_cons.mp h
    rw [ParticlesBox.particles_cons, Multiset.card_add, hp.card_slotParticles, ih hl, List.length_cons, Nat.succ_mul,
      Nat.add_comm]

/-- The counter does not wrap around: there are at least as many particles. -/
theorem count_frame {l filled rest : List FramePtr} {first : FramePtr} (hl : l = filled ++ first :: rest)
    (hfull : ∀ p ∈ filled ++ [first], Full (box.frames p).slots) (hlt : (box.particles l).card < 2 ^ 32) :
    (filled.length * frameSize + frameSize) % 2 ^ 32 = (filled ++ [first]).length * frameSize := by
  have hcard := card_particles_of_full hfull
  have hle : (box.particles (filled ++ [first])).card ≤ (box.particles l).card := by
    rw [hl, show filled ++ first :: rest = filled ++ [first] ++ rest by rw [List.append_assoc, List.singleton_append],
      ParticlesBox.particles_append (l := filled ++ [first]), Multiset.card_add]
    exact Nat.le_add_right _ _
  rw [List.length_append, List.length_singleton, Nat.add_mul, Nat.one_mul] at hcard ⊢
  rw [Nat.mod_eq_of_lt (by omega)]

/-- Where a list starts behind a node that is not its last one. -/
theorem getLast?_ne {l filled rest : List FramePtr} {first : FramePtr} (hl : l = filled ++ first :: rest)
    (hne : some first ≠ l.getLast?) : ∃ mid last, rest = mid ++ [last] ∧ l.getLast? = some last := by
  rcases List.eq_nil_or_concat' rest with rfl | ⟨mid, last, rfl⟩
  · exact absurd (by rw [hl, List.getLast?_concat]) hne
  · refine ⟨mid, last, rfl, ?_⟩
    rw [hl, ← List.cons_append, ← List.append_assoc, List.getLast?_concat]

/-- What the block knows when it copies. -/
structure Copying (box : ParticlesBox DIM frameSize A) (c : DataSpace DIM) (L : DataSpace DIM → List FramePtr)
    (filled mid : List FramePtr) (first last : FramePtr) : Prop where
  holds : box.Holds L
  list : L c = filled ++ first :: (mid ++ [last])
  full : ∀ p ∈ filled, Full (box.frames p).slots
  unmarked : ∀ p ∈ L c, Unmarked (box.frames p).slots
  hF : frameSize ≤ INV_LOC_IDX
  lt : (box.particles (L c)).card < 2 ^ 32

namespace Copying

variable {filled mid : List FramePtr} {first last : FramePtr} {localGapIdx : Fin frameSize → ℕ}
  {particleIndices : ℕ → Fin frameSize}

theorem nodup (h : Copying box c L filled mid first last) : (filled ++ first :: (mid ++ [last])).Nodup :=
  h.list ▸ h.holds.nodup c

theorem ne (h : Copying box c L filled mid first last) : first ≠ last := by
  rintro rfl
  have hrest := (List.nodup_append.mp h.nodup).2.1
  exact (List.nodup_cons.mp hrest).1 (List.mem_append_right mid (List.mem_singleton_self first))

theorem list' (h : Copying box c L filled mid first last) : L c = (filled ++ first :: mid) ++ [last] := by
  rw [h.list, List.append_assoc, List.cons_append]

theorem first_mem (h : Copying box c L filled mid first last) : first ∈ L c :=
  h.list ▸ List.mem_append_right _ List.mem_cons_self

theorem last_mem (h : Copying box c L filled mid first last) : last ∈ L c :=
  h.list' ▸ List.mem_append_right _ (List.mem_singleton_self last)

theorem getLast? (h : Copying box c L filled mid first last) : (L c).getLast? = some last := by
  rw [h.list', List.getLast?_concat]

/-- The frames in front of the two are as they were. -/
theorem full_copyParticles (h : Copying box c L filled mid first last) :
    ∀ p ∈ filled, Full ((copyParticles box first last localGapIdx particleIndices).frames p).slots := by
  intro p hp
  have hdisjoint := (List.nodup_append.mp h.nodup).2.2 p hp
  rw [copyParticles_of_ne (hdisjoint first List.mem_cons_self)
    (hdisjoint last (List.mem_cons_of_mem _ (List.mem_append_right _ (List.mem_singleton_self last))))]
  exact h.full p hp

/-- With enough particles for the gaps, the block is done with the first frame. -/
theorem full_first (h : Copying box c L filled mid first last)
    (hnumbers : FillNumbers (box.frames first).slots (box.frames last).slots localGapIdx particleIndices)
    (hle : (gaps (box.frames first).slots).card ≤ (settled (box.frames last).slots).card) :
    ∀ p ∈ filled ++ [first], Full ((copyParticles box first last localGapIdx particleIndices).frames p).slots := by
  intro p hp
  rcases List.mem_append.mp hp with hp | hp
  · exact h.full_copyParticles p hp
  · obtain rfl := List.mem_singleton.mp hp
    rw [copyParticles_first h.ne]
    exact full_fillSlots hnumbers hle

theorem particles (h : Copying box c L filled mid first last)
    (hnumbers : FillNumbers (box.frames first).slots (box.frames last).slots localGapIdx particleIndices) :
    (copyParticles box first last localGapIdx particleIndices).particles (L c) = box.particles (L c) := by
  rw [h.list]
  exact particles_copyParticles h.hF h.nodup hnumbers

theorem count (h : Copying box c L filled mid first last)
    (hnumbers : FillNumbers (box.frames first).slots (box.frames last).slots localGapIdx particleIndices)
    (hle : (gaps (box.frames first).slots).card ≤ (settled (box.frames last).slots).card) :
    (filled.length * frameSize + frameSize) % 2 ^ 32 = (filled ++ [first]).length * frameSize :=
  count_frame h.list (h.full_first hnumbers hle) (h.particles hnumbers ▸ h.lt)

/-- **More particles than gaps.** -/
theorem progress_lt (h : Copying box c L filled mid first last)
    (hnumbers : FillNumbers (box.frames first).slots (box.frames last).slots localGapIdx particleIndices)
    (hle : (gaps (box.frames first).slots).card ≤ (settled (box.frames last).slots).card) :
    Progress c L box ((first :: (mid ++ [last])).length + 2) (copyParticles box first last localGapIdx particleIndices)
      (.loop ((copyParticles box first last localGapIdx particleIndices).getNextFrame first) (some last)
        ((filled.length * frameSize + frameSize) % 2 ^ 32)) (L c) ((mid ++ [last]).length + 2) := by
  have hholds : (copyParticles box first last localGapIdx particleIndices).Holds L := holds_copyParticles h.holds
  refine Progress.ofSame (Nat.lt_succ_self _) hholds ?_ (unmarked_copyParticles h.ne h.unmarked) (h.particles hnumbers)
    (local_copyParticles h.first_mem h.last_mem)
  have hlist : L c = filled ++ [first] ++ (mid ++ [last]) := by rw [h.list, List.append_assoc, List.singleton_append]
  refine BlockInv.loop hlist ?_ (h.full_first hnumbers hle) (hholds.getNextFrame h.list) h.getLast?.symm (h.count hnumbers hle)
  · exact fun hnil => absurd hnil (List.append_ne_nil_of_right_ne_nil _ (List.cons_ne_nil _ _))

/-- **No more particles than gaps**: the last frame is removed. -/
theorem progress_remove (h : Copying box c L filled mid first last)
    (hnumbers : FillNumbers (box.frames first).slots (box.frames last).slots localGapIdx particleIndices)
    (hle : (settled (box.frames last).slots).card ≤ (gaps (box.frames first).slots).card) {pc : Pc} {k : ℕ}
    (hlt : k < (first :: (mid ++ [last])).length + 2)
    (hinv : BlockInv ((copyParticles box first last localGapIdx particleIndices).removeLastFrame c) c
      (filled ++ first :: mid) pc k) :
    Progress c L box ((first :: (mid ++ [last])).length + 2)
      ((copyParticles box first last localGapIdx particleIndices).removeLastFrame c) pc (filled ++ first :: mid) k := by
  refine Progress.ofRemove hlt h.list' (holds_copyParticles h.holds) ?_ hinv (unmarked_copyParticles h.ne h.unmarked)
    (h.particles hnumbers) (local_copyParticles h.first_mem h.last_mem)
  rw [copyParticles_last]
  exact slotParticles_clearSlots hnumbers hle (h.unmarked last h.last_mem)

/-- The list without its last frame. -/
theorem holds_remove (h : Copying box c L filled mid first last) :
    ((copyParticles box first last localGapIdx particleIndices).removeLastFrame c).Holds
      (Function.update L c (filled ++ first :: mid)) := by
  have hcopied : (copyParticles box first last localGapIdx particleIndices).Holds L := holds_copyParticles h.holds
  have hholds := hcopied.removeLastFrame c
  rwa [h.list', List.dropLast_concat] at hholds

theorem getPreviousFrame (h : Copying box c L filled mid first last) :
    (copyParticles box first last localGapIdx particleIndices).getPreviousFrame last = (filled ++ first :: mid).getLast? :=
  (holds_copyParticles h.holds).getPreviousFrame h.list'

/-- **Copying and moving on.** -/
theorem progress (h : Copying box c L filled mid first last)
    (hnumbers : FillNumbers (box.frames first).slots (box.frames last).slots localGapIdx particleIndices)
    (hmove : moveOn (copyParticles box first last localGapIdx particleIndices) c first last (filled.length * frameSize)
      (gaps (box.frames first).slots).card (settled (box.frames last).slots).card = (box', pc')) :
    ∃ l' k', Progress c L box ((first :: (mid ++ [last])).length + 2) box' pc' l' k' := by
  rw [moveOn, h.getPreviousFrame] at hmove
  by_cases hlt : (gaps (box.frames first).slots).card < (settled (box.frames last).slots).card
  · rw [if_pos hlt] at hmove
    obtain ⟨rfl, rfl⟩ := Prod.mk.inj hmove
    exact ⟨_, _, h.progress_lt hnumbers hlt.le⟩
  rw [if_neg hlt] at hmove
  have hle := not_lt.mp hlt
  have hfilled : ∀ p ∈ filled,
      Full (((copyParticles box first last localGapIdx particleIndices).removeLastFrame c).frames p).slots := fun p hp => by
    rw [ParticlesBox.removeLastFrame_slots]
    exact h.full_copyParticles p hp
  -- the first frame is looked at again
  have hagain : BlockInv ((copyParticles box first last localGapIdx particleIndices).removeLastFrame c) c
      (filled ++ first :: mid) (.loop (some first) (filled ++ first :: mid).getLast? (filled.length * frameSize))
      ((first :: mid).length + 2) :=
    BlockInv.loop rfl (fun hnil => absurd hnil (List.cons_ne_nil _ _)) hfilled rfl rfl rfl
  have hshorter : (first :: mid).length + 2 < (first :: (mid ++ [last])).length + 2 := by
    simp only [List.length_cons, List.length_append, List.length_nil]
    omega
  by_cases hgt : (gaps (box.frames first).slots).card > (settled (box.frames last).slots).card
  · rw [if_pos hgt] at hmove
    obtain ⟨rfl, rfl⟩ := Prod.mk.inj hmove
    exact ⟨_, _, h.progress_remove hnumbers hle hshorter hagain⟩
  rw [if_neg hgt] at hmove
  split at hmove
  · next hother =>
    obtain ⟨rfl, rfl⟩ := Prod.mk.inj hmove
    have hlist : filled ++ first :: mid = filled ++ [first] ++ mid := by rw [List.append_assoc, List.singleton_append]
    have hmid : mid ≠ [] := by
      rintro rfl
      exact hother.2 (List.getLast?_concat ..)
    refine ⟨_, _, h.progress_remove hnumbers hle (k := mid.length + 2) ?_ ?_⟩
    · simp only [List.length_cons, List.length_append]
      omega
    · refine BlockInv.loop hlist (fun hnil => absurd hnil hmid) (fun p hp => ?_) ?_ rfl
        (h.count hnumbers (not_lt.mp hgt))
      · rw [ParticlesBox.removeLastFrame_slots]
        exact h.full_first hnumbers (not_lt.mp hgt) p hp
      · exact h.holds_remove.getNextFrame (Function.update_self ..)
  · obtain ⟨rfl, rfl⟩ := Prod.mk.inj hmove
    exact ⟨_, _, h.progress_remove hnumbers hle hshorter hagain⟩

end Copying

theorem isLive_of_full {p : FramePtr} (h : Full (box.frames p).slots) {slot : ℕ} (hslot : slot < frameSize) :
    isLive box p slot := by
  rw [isLive, dif_pos hslot]
  exact decide_eq_true (h ⟨slot, hslot⟩)

/-- A supercell whose frames are all full. -/
theorem wellFormed_of_full {l : List FramePtr} (hpos : 0 < frameSize) (hlist : box.ListAt .last c l)
    (hfull : ∀ p ∈ l, Full (box.frames p).slots) (hnum : (box.superCells c).numParticles = l.length * frameSize)
    (hlt : l.length * frameSize < 2 ^ 32) : WellFormed box c l where
  list := hlist
  full p hp _ hslot := isLive_of_full (hfull p (List.mem_of_mem_dropLast hp)) hslot
  last p hp := ⟨frameSize, hpos, le_rfl, fun _ hslot =>
    iff_of_true (isLive_of_full (hfull p (List.mem_of_getLast? hp)) hslot) hslot⟩
  numParticles := by
    rw [hnum, length_liveSlots_of_full fun p hp slot hslot => isLive_of_full (hfull p hp) hslot]
  lt := hnum ▸ hlt

/-- A supercell whose frames are full, except for the last one, whose particles stand at its beginning. -/
theorem wellFormed_of_packed {filled : List FramePtr} {last : FramePtr} {m : ℕ} (hm : 0 < m)
    (hlist : box.ListAt .last c (filled ++ [last])) (hfull : ∀ p ∈ filled, Full (box.frames p).slots)
    (hpacked : Packed box last m) (hnum : (box.superCells c).numParticles = filled.length * frameSize + m)
    (hlt : filled.length * frameSize + m < 2 ^ 32) : WellFormed box c (filled ++ [last]) where
  list := hlist
  full p hp _ hslot := isLive_of_full (hfull p (by rwa [List.dropLast_concat] at hp)) hslot
  last p hp := by
    rw [List.getLast?_concat] at hp
    obtain rfl : last = p := Option.some.inj hp
    exact ⟨m, hm, hpacked⟩
  numParticles := by
    rw [hnum, liveSlots_append, List.length_append, hpacked.length_liveSlots,
      length_liveSlots_of_full fun p hp slot hslot => isLive_of_full (hfull p hp) hslot]
    rfl
  lt := hnum ▸ hlt

/-- **The last frame.** -/
theorem progress_lastFrame {filled : List FramePtr} {last : FramePtr} {localGapIdx : Fin frameSize → ℕ}
    {srcOf : ℕ → Fin frameSize} (h : box.Holds L) (hl : L c = filled ++ [last])
    (hfull : ∀ p ∈ filled, Full (box.frames p).slots) (hunmarked : ∀ p ∈ L c, Unmarked (box.frames p).slots)
    (hnum : (box.superCells c).numParticles = filled.length * frameSize) (hpos : 0 < frameSize)
    (hlt : (box.particles (L c)).card < 2 ^ 32) (hnumbers : CompactNumbers (box.frames last).slots localGapIdx srcOf) :
    ∃ l' k', Progress c L box 1 (countLast (box.setSlots last
      (compactSlots (box.frames last).slots localGapIdx srcOf (live (box.frames last).slots).card)) c
        (live (box.frames last).slots).card) .done l' k' := by
  set m := (live (box.frames last).slots).card with hm
  set slots := compactSlots (box.frames last).slots localGapIdx srcOf m with hslots
  have hmem : last ∈ L c := hl ▸ List.mem_append_right _ (List.mem_singleton_self last)
  have hnodup := h.nodup c
  rw [hl] at hnodup
  have hother : ∀ p ∈ filled, (box.setSlots last slots).frames p = box.frames p := fun p hp =>
    ParticlesBox.setFrame_frames_of_ne _ ((List.nodup_append.mp hnodup).2.2 p hp last (List.mem_singleton_self last))
  have hself : ((box.setSlots last slots).frames last).slots = slots := by
    rw [ParticlesBox.setSlots, ParticlesBox.setFrame_frames_self]
  have hholds : (box.setSlots last slots).Holds L := h.setSlots slots
  have hunmarked' : ∀ p ∈ L c, Unmarked ((box.setSlots last slots).frames p).slots := fun p hp => by
    rcases eq_or_ne p last with rfl | hne
    · rw [hself]
      exact (hunmarked p hp).compactSlots m
    · rw [ParticlesBox.setSlots, ParticlesBox.setFrame_frames_of_ne _ hne]
      exact hunmarked p hp
  have hsame : slotParticles slots = slotParticles (box.frames last).slots :=
    particles_compactSlots hnumbers.gaps hnumbers.particles
  have hparticles : (box.setSlots last slots).particles (L c) = box.particles (L c) := by
    rw [hl, ParticlesBox.particles_append, ParticlesBox.particles_append,
      ParticlesBox.particles_congr fun p hp => congrArg Frame.slots (hother p hp), ParticlesBox.particles_cons,
      ParticlesBox.particles_cons, hself, hsame, ParticlesBox.particles_nil, ParticlesBox.particles_nil]
  have hfull' : ∀ p ∈ filled, Full ((box.setSlots last slots).frames p).slots := fun p hp => by
    rw [hother p hp]
    exact hfull p hp
  have hwrites : Local c (L c) (L c) box (box.setSlots last slots) := Local.setSlots hmem slots
  have hmle : m ≤ frameSize := card_le_frameSize _
  rw [hl, ParticlesBox.particles_append, ParticlesBox.particles_cons, ParticlesBox.particles_nil, add_zero, Multiset.card_add,
    card_particles_of_full hfull, card_slotParticles] at hlt
  rw [countLast]
  split
  · next hne =>
    refine ⟨_, _, Progress.ofSame Nat.zero_lt_one (hholds.setNumParticles _) (BlockInv.done ?_) hunmarked' hparticles
      (hwrites.trans (Local.setNumParticles _) (List.Subset.refl _) (List.Subset.refl _))⟩
    have hnum' : ((box.setSlots last slots).superCells c).numParticles = filled.length * frameSize := hnum
    have hlist := (hholds.setNumParticles (c := c)
      ((((box.setSlots last slots).superCells c).numParticles + m) % 2 ^ 32)).list c
    rw [hl] at hlist ⊢
    refine wellFormed_of_packed (Nat.pos_of_ne_zero hne) hlist hfull' ⟨hmle, fun slot hslot => ?_⟩ ?_ (by omega)
    · rw [isLive, dif_pos hslot, decide_eq_true_iff]
      exact (congrArg (fun s => (s ⟨slot, hslot⟩).multiMask ≠ 0) hself).to_iff.trans (compactSlots_multiMask m ⟨slot, hslot⟩)
    · rw [ParticlesBox.setNumParticles, ParticlesBox.setSuperCell_superCells_self]
      dsimp only
      rw [hnum', Nat.mod_eq_of_lt (by omega)]
  · next hzero =>
    have hzero' : m = 0 := not_not.mp hzero
    have hdone := hholds.removeLastFrame c
    rw [hl, List.dropLast_concat] at hdone
    have hlist := hdone.list c
    rw [Function.update_self] at hlist
    refine ⟨_, _, Progress.ofRemove Nat.zero_lt_one hl hholds ?_ (BlockInv.done (wellFormed_of_full hpos hlist ?_ ?_ (by omega)))
      hunmarked' hparticles hwrites⟩
    · rw [hself, hsame, ← Multiset.card_eq_zero, card_slotParticles]
      exact hzero'
    · intro p hp
      rw [ParticlesBox.removeLastFrame_slots]
      exact hfull' p hp
    · rw [(ParticlesBox.removeLastFrame_counters _ c c).1]
      exact hnum

/-- **What one step of a block achieves.** -/
theorem BlockStep.progress (hstep : BlockStep c box pc box' pc') (h : box.Holds L) (hinv : BlockInv box c (L c) pc k)
    (hunmarked : ∀ p ∈ L c, Unmarked (box.frames p).slots) (hpos : 0 < frameSize) (hF : frameSize ≤ INV_LOC_IDX)
    (hlt : (box.particles (L c)).card < 2 ^ 32) : ∃ l' k', Progress c L box k box' pc' l' k' := by
  cases hstep with
  | start =>
    cases hinv with
    | start =>
      refine ⟨_, (L c).length + 2, Progress.ofSame (Nat.lt_succ_self _) h ?_ hunmarked rfl Local.refl⟩
      exact @BlockInv.loop _ _ _ _ c (L c) [] _ _ _ _ rfl id (fun p hp => absurd hp List.not_mem_nil) (h.getFirstFrame c) (h.getLastFrame c)
        (Nat.zero_mul _).symm
  | @next first _ _ hne hgaps =>
    cases hinv with
    | @loop filled rest _ _ _ hl hnil hfull hfirst hlast hn =>
      rcases rest with _ | ⟨head, rest⟩
      · exact absurd hfirst (Option.some_ne_none _)
      obtain rfl : first = head := Option.some.inj hfirst
      subst hlast hn
      obtain ⟨mid, last, rfl, -⟩ := getLast?_ne hl hne
      refine ⟨_, (mid ++ [last]).length + 2, Progress.ofSame (Nat.lt_succ_self _) h ?_ hunmarked rfl Local.refl⟩
      have hfull' : ∀ p ∈ filled ++ [first], Full (box.frames p).slots := by
        intro p hp
        rcases List.mem_append.mp hp with hp | hp
        · exact hfull p hp
        · obtain rfl := List.mem_singleton.mp hp
          exact full_of_gaps_eq_empty hgaps
      have hlist : L c = filled ++ [first] ++ (mid ++ [last]) := by rw [hl, List.append_assoc, List.singleton_append]
      refine BlockInv.loop hlist ?_ hfull' (h.getNextFrame hl) rfl (count_frame hl hfull' hlt)
      · exact fun hnil => absurd hnil (List.append_ne_nil_of_right_ne_nil _ (List.cons_ne_nil _ _))
  | @copy first _ _ _ _ hne hgaps hnumbers _ _ hmove =>
    cases hinv with
    | @loop filled rest _ _ _ hl hnil hfull hfirst hlast hn =>
      rcases rest with _ | ⟨head, rest⟩
      · exact absurd hfirst (Option.some_ne_none _)
      obtain rfl : first = head := Option.some.inj hfirst
      subst hn
      obtain ⟨mid, last', rfl, hlast'⟩ := getLast?_ne hl (hlast ▸ fun heq => hne (Option.some.inj heq))
      obtain rfl := Option.some.inj (hlast.trans hlast')
      exact Copying.progress ⟨h, hl, hfull, hunmarked, hF, hlt⟩ hnumbers hmove
  | leave hleave =>
    cases hinv with
    | @loop filled rest _ _ _ hl hnil hfull hfirst hlast hn =>
      refine ⟨_, 1, Progress.ofSame (by omega) (h.setNumParticles _) ?_ hunmarked rfl (Local.setNumParticles _)⟩
      refine BlockInv.fillLastFrame hl hnil ?_ hfull ?_
      · rcases rest with _ | ⟨first, rest⟩
        · exact Nat.zero_le _
        · by_contra hlong
          rcases List.eq_nil_or_concat' rest with rfl | ⟨mid, last, rfl⟩
          · exact hlong le_rfl
          · rcases hleave with hnone | heq
            · exact Option.some_ne_none _ (hfirst.symm.trans hnone)
            · -- the first frame would be in the list twice
              rw [hfirst, hlast, hl, ← List.cons_append, ← List.append_assoc, List.getLast?_concat] at heq
              obtain rfl := Option.some.inj heq
              have hnodup := h.nodup c
              rw [hl] at hnodup
              exact (List.nodup_cons.mp (List.nodup_append.mp hnodup).2.1).1
                (List.mem_append_right mid (List.mem_singleton_self first))
      · rw [ParticlesBox.setNumParticles, ParticlesBox.setSuperCell_superCells_self]
        exact hn
  | @lastFrame last _ _ hlast hnumbers =>
    cases hinv with
    | @fillLastFrame filled rest hl hnil hrest hfull hnum =>
      rw [h.getLastFrame] at hlast
      obtain ⟨init, hinit⟩ := List.getLast?_eq_some_iff.mp hlast
      rcases rest with _ | ⟨first, rest⟩
      · rw [hnil rfl] at hinit
        simp at hinit
      · obtain rfl : rest = [] := List.eq_nil_of_length_eq_zero (by simpa using hrest)
        rw [hl, List.getLast?_concat] at hlast
        obtain rfl : first = last := Option.some.inj hlast
        exact progress_lastFrame h hl hfull hunmarked hnum hpos hlt hnumbers
  | noFrame hlast =>
    cases hinv with
    | @fillLastFrame filled rest hl hnil hrest hfull hnum =>
      rw [h.getLastFrame, List.getLast?_eq_none_iff] at hlast
      have hnone : (box.superCells c).lastFramePtr = none := by rw [h.lastFramePtr, hlast]; rfl
      have hbox : box.removeLastFrame c = box := by
        unfold ParticlesBox.removeLastFrame
        simp only [hnone]
      rw [hbox]
      obtain ⟨rfl, rfl⟩ := List.append_eq_nil_iff.mp (hl.symm.trans hlast)
      refine ⟨_, _, Progress.ofSame Nat.zero_lt_one h (BlockInv.done ?_) hunmarked rfl Local.refl⟩
      exact wellFormed_of_full hpos (h.list c) (fun p hp => absurd (hlast ▸ hp) List.not_mem_nil) (by rw [hnum, hlast])
        (by rw [hlast, List.length_nil, Nat.zero_mul]; exact Nat.two_pow_pos 32)

end Step

/-! ## Whole runs -/

section Runs

variable {box : ParticlesBox DIM frameSize A} {L : DataSpace DIM → List FramePtr} {blocks : Finset (DataSpace DIM)}

/-- A block that is not done can go on. -/
theorem BlockInv.exists_step {c : DataSpace DIM} {l : List FramePtr} {pc : Pc} {k : ℕ} (h : BlockInv box c l pc k)
    (hpos : 0 < frameSize) : pc = .done ∨ ∃ box' pc', BlockStep c box pc box' pc' := by
  have : Nonempty (Fin frameSize) := ⟨⟨0, hpos⟩⟩
  cases h with
  | start => exact Or.inr ⟨_, _, BlockStep.start⟩
  | @loop filled rest firstFrame lastFrame n hl hnil hfull hfirst hlast hn =>
    refine Or.inr ?_
    by_cases hleave : firstFrame = none ∨ firstFrame = lastFrame
    · exact ⟨_, _, BlockStep.leave hleave⟩
    obtain ⟨hsome, hne⟩ := not_or.mp hleave
    obtain ⟨first, rfl⟩ := Option.ne_none_iff_exists'.mp hsome
    by_cases hgaps : gaps (box.frames first).slots = ∅
    · exact ⟨_, _, BlockStep.next hne hgaps⟩
    -- a list with a first frame has a last one
    obtain ⟨last, rfl⟩ : ∃ last, lastFrame = some last := by
      refine Option.ne_none_iff_exists'.mp fun hnone => ?_
      rw [hlast, List.getLast?_eq_none_iff, hl, List.append_eq_nil_iff] at hnone
      rw [hnone.2] at hfirst
      exact Option.some_ne_none _ hfirst
    obtain ⟨localGapIdx, hnumbers, hothers⟩ := exists_numbers (gaps (box.frames first).slots) INV_LOC_IDX
    obtain ⟨particleIndices, hparticles⟩ := exists_numberedBy (settled (box.frames last).slots)
    exact ⟨_, _, BlockStep.copy (fun heq => hne (congrArg some heq)) hgaps ⟨hnumbers, hothers, hparticles⟩ rfl⟩
  | fillLastFrame =>
    refine Or.inr ?_
    rcases hlast : box.getLastFrame c with _ | last
    · exact ⟨_, _, BlockStep.noFrame hlast⟩
    obtain ⟨localGapIdx, hnumbers, -⟩ := exists_numbers (frontGaps (box.frames last).slots (live (box.frames last).slots).card) 0
    obtain ⟨srcOf, hsrc⟩ := exists_numberedBy (backParticles (box.frames last).slots (live (box.frames last).slots).card)
    exact ⟨_, _, BlockStep.lastFrame hlast ⟨hnumbers, hsrc⟩⟩
  | done => exact Or.inl rfl

/-- **What the kernel keeps**: the particles of every supercell, besides. -/
structure Kept (blocks : Finset (DataSpace DIM)) (L : DataSpace DIM → List FramePtr) (box : ParticlesBox DIM frameSize A)
    (L' : DataSpace DIM → List FramePtr) (box' : ParticlesBox DIM frameSize A) : Prop extends Framed blocks L box L' box' where
  particles : ∀ c, box'.particles (L' c) = box.particles (L c)

/-- A step of one block. -/
theorem Kept.progress {box₁ box₂ : ParticlesBox DIM frameSize A} {L₁ : DataSpace DIM → List FramePtr} {c : DataSpace DIM}
    {pc' : Pc} {l' : List FramePtr} {k k' : ℕ} (h : Kept blocks L box L₁ box₁) (hc : c ∈ blocks)
    (hstep : Progress c L₁ box₁ k box₂ pc' l' k') : Kept blocks L box (Function.update L₁ c l') box₂ := by
  refine ⟨h.step hc hstep.holds hstep.sublist hstep.writes, fun d => ?_⟩
  rcases eq_or_ne d c with rfl | hne
  · rw [Function.update_self, hstep.particles, h.particles]
  · rw [Function.update_of_ne hne, ← h.particles d]
    exact ParticlesBox.particles_congr fun p hp => congrArg Frame.slots (hstep.writes.frames_of_ne h.holds hne hp)

/-- What holds while the blocks run, with the number of steps that are left. -/
def Running (blocks : Finset (DataSpace DIM)) (L : DataSpace DIM → List FramePtr) (box : ParticlesBox DIM frameSize A)
    (s : State DIM frameSize A) (n : ℕ) : Prop :=
  ∃ (L' : DataSpace DIM → List FramePtr) (k : DataSpace DIM → ℕ), Kept blocks L box L' s.box ∧ n = ∑ c ∈ blocks, k c ∧
    ∀ c ∈ blocks, BlockInv s.box c (L' c) (s.pc c) (k c) ∧ ∀ p ∈ L' c, Unmarked (s.box.frames p).slots

/-- **A step of any block.** -/
theorem Running.step {s t : State DIM frameSize A} {n : ℕ} (h : Running blocks L box s n) (hpos : 0 < frameSize)
    (hF : frameSize ≤ INV_LOC_IDX) (hlt : ∀ c ∈ blocks, (box.particles (L c)).card < 2 ^ 32)
    (hst : (system blocks box).step s t) : ∃ m < n, Running blocks L box t m := by
  obtain ⟨L', k, hkept, rfl, hblocks⟩ := h
  obtain ⟨c, hc, box', pc', hstep, rfl⟩ := hst
  obtain ⟨hinv, hunmarked⟩ := hblocks c hc
  have hcard : (s.box.particles (L' c)).card < 2 ^ 32 := by
    rw [hkept.particles]
    exact hlt c hc
  obtain ⟨l', k', hprogress⟩ := hstep.progress hkept.holds hinv hunmarked hpos hF hcard
  refine ⟨∑ d ∈ blocks, Function.update k c k' d, ?_, Function.update L' c l', Function.update k c k',
    hkept.progress hc hprogress, rfl, fun d hd => ?_⟩
  · refine Finset.sum_lt_sum (fun d _ => ?_) ⟨c, hc, by rw [Function.update_self]; exact hprogress.lt⟩
    rcases eq_or_ne d c with rfl | hne
    · rw [Function.update_self]
      exact hprogress.lt.le
    · rw [Function.update_of_ne hne]
  · dsimp only
    rcases eq_or_ne d c with rfl | hne
    · rw [Function.update_self, Function.update_self, Function.update_self]
      exact ⟨hprogress.inv, hprogress.unmarked⟩
    · rw [Function.update_of_ne hne, Function.update_of_ne hne, Function.update_of_ne hne]
      have hframes : ∀ p ∈ L' d, box'.frames p = s.box.frames p := fun p hp =>
        hprogress.writes.frames_of_ne hkept.holds hne hp
      refine ⟨(hblocks d hd).1.congr (hprogress.writes.superCells d hne) hframes, fun p hp => ?_⟩
      rw [hframes p hp]
      exact (hblocks d hd).2 p hp

/-- **Every run of the kernel ends**, whatever numbers the threads get and in whatever order the blocks take
their steps.  Then the supercells of the blocks are well-formed: all frames but the last are full, the
particles of the last one stand at its beginning, and the number of particles is right.  Every supercell
holds the particles it held, and the frames that are no longer needed are back in the heap. -/
theorem fillGaps_ends (h : box.Holds L) (hunmarked : ∀ c ∈ blocks, ∀ p ∈ L c, Unmarked (box.frames p).slots)
    (hpos : 0 < frameSize) (hF : frameSize ≤ INV_LOC_IDX) (hlt : ∀ c ∈ blocks, (box.particles (L c)).card < 2 ^ 32) :
    (system blocks box).Ends ⟨box, fun _ => .start⟩ fun s =>
      ∃ L', Kept blocks L box L' s.box ∧ ∀ c ∈ blocks, s.pc c = .done ∧ WellFormed s.box c (L' c) := by
  refine StepSystem.ends_of_variant (I := Running blocks L box) (fun s n hs t hst => hs.step hpos hF hlt hst)
    (fun s n hs hterminal => ?_) ⟨L, fun c => (L c).length + 3, ⟨Framed.refl h, fun _ => rfl⟩, rfl, fun c hc => ⟨BlockInv.start, hunmarked c hc⟩⟩
  obtain ⟨L', k, hkept, rfl, hblocks⟩ := hs
  refine ⟨L', hkept, fun c hc => ?_⟩
  obtain ⟨hinv, -⟩ := hblocks c hc
  rcases hinv.exists_step hpos with hdone | ⟨box', pc', hstep⟩
  · refine ⟨hdone, ?_⟩
    rw [hdone] at hinv
    generalize k c = left at hinv
    cases hinv with
    | done hwell => exact hwell
  · exact absurd ⟨c, hc, box', pc', hstep, rfl⟩ (hterminal _)

end Runs

end FillGaps

end PmaccParticles
end Spearhed
