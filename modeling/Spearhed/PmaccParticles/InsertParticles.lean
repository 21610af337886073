import Spearhed.PmaccParticles.CopyGuardToExchange
import Spearhed.PmaccParticles.FrameAppends

/-!
# Particles of a stack into the border

`KernelInsertParticles`.  Every entry of the index table has a block.  The block gets a frame from the heap,
copies the particles of the entry into it, and puts it at the end of the list of the supercell that the entry
names, while other blocks do the same, also for the same supercell.

* `Inv.step`: what every action keeps.
* `insert_ends`: every run puts every particle of every entry into its supercell once.
-/

namespace Spearhed
namespace PmaccParticles

open FrameAppends Library Mappings Mappings.DataSpaceOperations

variable {DIM frameSize : ℕ} {A : Type}

/-- The arguments of the kernel, and its number of blocks. -/
structure InsertParticles (DIM : ℕ) (A : Type) where
  exchangeType : ℕ
  cellDesc : MappingDescription DIM
  data : ℕ → A
  indexTable : ℕ → ExchangeMemoryIndex DIM
  numIndexEntries : ℕ

namespace InsertParticles

variable (K : InsertParticles DIM A)

/-- `elementCount` of a block. -/
def elementCount (k : ℕ) : ℕ := (K.indexTable k).count

/-- The frame of a block with the particles of its entry. -/
def fillFrame (k : ℕ) (slots : Fin frameSize → Slot A) : Fin frameSize → Slot A := fun i =>
  if (i : ℕ) < K.elementCount k then ⟨1, K.data ((K.indexTable k).startIdx + i)⟩ else slots i

/-- The particles of an entry. -/
def particlesOf (k : ℕ) : Multiset A := ∑ i ∈ Finset.range (K.elementCount k), {K.data ((K.indexTable k).startIdx + i)}

structure State (DIM frameSize : ℕ) (A : Type) where
  box : ParticlesBox DIM frameSize A
  phase : ℕ → Phase
  /-- The blocks that have copied their particles. -/
  copied : Finset ℕ

section Kernel

variable [DataSpaceOperations DIM]

def dstSuperCell (k : ℕ) : DataSpace DIM :=
  extend (K.indexTable k).superCell K.exchangeType K.cellDesc.gridSuperCells K.cellDesc.guardingSuperCells

inductive Step : State DIM frameSize A → State DIM frameSize A → Prop
  /-- The frame is from the heap, or its particles are copied. -/
  | append {s : State DIM frameSize A} {k : ℕ} (hk : k < K.numIndexEntries) (hpos : 0 < K.elementCount k)
      (hsync : k ∈ s.copied ∨ s.phase k = .idle) {box' : ParticlesBox DIM frameSize A} {phase' : Phase}
      (haction : Action .last (K.dstSuperCell k) s.box (s.phase k) box' phase') :
      Step s { s with
        box := box'
        phase := Function.update s.phase k phase' }
  | copy {s : State DIM frameSize A} {k : ℕ} (hk : k < K.numIndexEntries) (hpos : 0 < K.elementCount k) {p : FramePtr}
      (hphase : s.phase k = .empty p) (hnew : k ∉ s.copied) :
      Step s { s with
        box := s.box.setSlots p (K.fillFrame k (s.box.frames p).slots)
        copied := insert k s.copied }

end Kernel

/-- Every block is at its end; a block without particles is from the start. -/
def Over (s : State DIM frameSize A) : Prop := ∀ k < K.numIndexEntries, 0 < K.elementCount k → ∃ p, s.phase k = .linked p

def start (box : ParticlesBox DIM frameSize A) : State DIM frameSize A := ⟨box, fun _ => .idle, ∅⟩

def system [DataSpaceOperations DIM] (box : ParticlesBox DIM frameSize A) : StepSystem (State DIM frameSize A) where
  init s := s = start box
  step := K.Step

/-! ## The frame of an entry -/

section Fill

variable {K} {k : ℕ} {slots : Fin frameSize → Slot A} (hblank : ∀ i, (slots i).multiMask = 0)
include hblank

theorem unmarked_fillFrame : Unmarked (K.fillFrame k slots) := fun i => by
  rw [fillFrame]
  split
  · exact Or.inr rfl
  · exact Or.inl (hblank i)

/-- **The frame has the particles of its entry.** -/
theorem slotParticles_fillFrame (hle : K.elementCount k ≤ frameSize) : slotParticles (K.fillFrame k slots) = K.particlesOf k := by
  have hslot : ∀ i : Fin frameSize, (if (K.fillFrame k slots i).multiMask = 0 then 0 else {(K.fillFrame k slots i).attributes}) =
      if (i : ℕ) < K.elementCount k then ({K.data ((K.indexTable k).startIdx + i)} : Multiset A) else 0 := fun i => by
    rw [fillFrame]
    split
    · rfl
    · exact if_pos (hblank i)
  rw [slotParticles, Finset.sum_congr rfl fun i _ => hslot i,
    Fin.sum_univ_eq_sum_range (fun i => if i < K.elementCount k then ({K.data ((K.indexTable k).startIdx + i)} : Multiset A) else 0),
    ← Finset.sum_filter, particlesOf]
  refine Finset.sum_congr (Finset.ext fun i => ?_) fun _ _ => rfl
  rw [Finset.mem_filter, Finset.mem_range, Finset.mem_range]
  exact and_iff_right_of_imp fun hi => hi.trans_le hle

end Fill

/-! ## Whole runs -/

section Runs

variable [DataSpaceOperations DIM]

/-- The particles of the entries whose frames are in the list of a supercell. -/
def added (phase : ℕ → Phase) (c : DataSpace DIM) : Multiset A :=
  ∑ k ∈ Finset.range K.numIndexEntries, if (phase k).listed.isSome ∧ K.dstSuperCell k = c then K.particlesOf k else 0

theorem added_congr {phase phase' : ℕ → Phase} (h : ∀ k, (phase' k).listed = (phase k).listed) (c : DataSpace DIM) :
    K.added phase' c = K.added phase c := by
  rw [added, added]
  exact Finset.sum_congr rfl fun k _ => by rw [h]

/-- The frame of a block comes into its list. -/
theorem added_update {phase : ℕ → Phase} {phase' : Phase} {p : FramePtr} {k : ℕ} (hk : k < K.numIndexEntries)
    (hnone : (phase k).listed = none) (hlisted : phase'.listed = some p) (c : DataSpace DIM) :
    K.added (Function.update phase k phase') c = K.added phase c + if K.dstSuperCell k = c then K.particlesOf k else 0 := by
  have hmem := Finset.mem_range.mpr hk
  rw [added, added, ← Finset.add_sum_erase _ _ hmem, ← Finset.add_sum_erase _ _ hmem, Function.update_self, hnone, hlisted]
  rw [Finset.sum_congr rfl fun k' hk' => by rw [Function.update_of_ne (Finset.ne_of_mem_erase hk')]]
  simp [add_comm]

/-- What holds while the blocks run. -/
structure Inv (L : DataSpace DIM → List FramePtr) (box : ParticlesBox DIM frameSize A) (s : State DIM frameSize A)
    (order : DataSpace DIM → List FramePtr) : Prop where
  appending : Appending .last K.dstSuperCell L s.box s.phase order
  sublist : ∀ c, L c <+: order c
  started : ∀ k, s.phase k ≠ .idle → k < K.numIndexEntries ∧ 0 < K.elementCount k
  frame : ∀ k ∈ s.copied, s.phase k ≠ .idle
  ready : ∀ k p, (s.phase k).frame = some p → k ∉ s.copied → s.phase k = .empty p
  filled : ∀ k p, (s.phase k).frame = some p → k ∈ s.copied →
    Unmarked (s.box.frames p).slots ∧ slotParticles (s.box.frames p).slots = K.particlesOf k
  blank : ∀ k p, (s.phase k).frame = some p → k ∉ s.copied → ∀ i, ((s.box.frames p).slots i).multiMask = 0
  /-- Every frame that is no longer in the heap is some block's. -/
  heap : ∀ p, p ∈ s.box.allocated ↔ p ∈ box.allocated ∨ ∃ k, (s.phase k).frame = some p
  unmarked : ∀ c, ∀ p ∈ L c, Unmarked (s.box.frames p).slots
  particles : ∀ c, s.box.particles (order c) = box.particles (L c) + K.added s.phase c
  counters : ∀ c, (s.box.superCells c).numParticles = (box.superCells c).numParticles ∧
    (s.box.superCells c).mustShift = (box.superCells c).mustShift

variable {K} {L order : DataSpace DIM → List FramePtr} {box : ParticlesBox DIM frameSize A} {s t : State DIM frameSize A}

namespace Inv

/-- **A block appends its frame.** -/
theorem append (h : K.Inv L box s order) {k : ℕ} (hk : k < K.numIndexEntries) (hpos : 0 < K.elementCount k)
    (hsync : k ∈ s.copied ∨ s.phase k = .idle) {box' : ParticlesBox DIM frameSize A} {phase' : Phase}
    (haction : Action .last (K.dstSuperCell k) s.box (s.phase k) box' phase') :
    ∃ order', K.Inv L box { s with box := box', phase := Function.update s.phase k phase' } order' := by
  obtain ⟨order', happending, horder⟩ := h.appending.step haction
  have hslots : ∀ q ∈ s.box.allocated, (box'.frames q).slots = (s.box.frames q).slots := fun q hq =>
    (haction.slots q).resolve_right fun hempty => hempty.2.1 hq
  have hold : ∀ k' p, (s.phase k').frame = some p → (box'.frames p).slots = (s.box.frames p).slots := fun k' p hp =>
    hslots p (h.appending.new k' p hp).1
  -- a block has a frame that it had before, or an empty one
  have hframe : ∀ k' p, (Function.update s.phase k phase' k').frame = some p →
      (s.phase k').frame = some p ∨ k' ∉ s.copied ∧ ∀ i, ((box'.frames p).slots i).multiMask = 0 := by
    intro k' p hp
    rcases eq_or_ne k' k with rfl | hne
    · rw [Function.update_self] at hp
      refine (haction.frame hp).imp_right fun hidle => ⟨fun hcopied => h.frame k' hcopied hidle.1, hidle.2⟩
    · rw [Function.update_of_ne hne] at hp
      exact Or.inl hp
  refine ⟨order', happending, fun c => ?_, fun k' hk' => ?_, fun k' hk' => ?_, fun k' p hp hnew => ?_, fun k' p hp hcopied => ?_,
    fun k' p hp hnew => ?_, fun p => ?_, fun c p hp => ?_, fun c => ?_, fun c => ?_⟩
  · rcases horder with ⟨rfl, -⟩ | ⟨p, -, -, rfl⟩
    · exact h.sublist c
    · rcases eq_or_ne c (K.dstSuperCell k) with rfl | hne
      · rw [Function.update_self]
        exact (h.sublist _).trans (List.prefix_append _ _)
      · rw [Function.update_of_ne hne]
        exact h.sublist c
  · rcases eq_or_ne k' k with rfl | hne
    · exact ⟨hk, hpos⟩
    · dsimp only at hk'
      rw [Function.update_of_ne hne] at hk'
      exact h.started k' hk'
  · dsimp only
    rcases eq_or_ne k' k with rfl | hne
    · rw [Function.update_self]
      exact haction.ne_idle
    · rw [Function.update_of_ne hne]
      exact h.frame k' hk'
  · dsimp only at hp hnew ⊢
    rcases eq_or_ne k' k with rfl | hne
    · rw [Function.update_self] at hp ⊢
      rw [hsync.resolve_left hnew] at haction
      exact haction.of_idle hp
    · rw [Function.update_of_ne hne] at hp ⊢
      exact h.ready k' p hp hnew
  · have hp' := (hframe k' p hp).resolve_right fun hnew => hnew.1 hcopied
    dsimp only
    rw [hold k' p hp']
    exact h.filled k' p hp' hcopied
  · rcases hframe k' p hp with hp' | hempty
    · dsimp only
      rw [hold k' p hp']
      exact h.blank k' p hp' hnew
    · exact hempty.2
  · dsimp only
    rw [haction.mem_allocated (fun q hq => (h.appending.new k q hq).1), h.heap, or_assoc]
    refine or_congr_right ⟨?_, ?_⟩
    · rintro (⟨k', hk'⟩ | hp)
      · rcases eq_or_ne k' k with rfl | hne
        · exact ⟨k', by rw [Function.update_self, haction.frame_of_some hk']⟩
        · exact ⟨k', by rw [Function.update_of_ne hne, hk']⟩
      · exact ⟨k, by rw [Function.update_self, hp]⟩
    · rintro ⟨k', hk'⟩
      rcases eq_or_ne k' k with rfl | hne
      · exact Or.inr (by rwa [Function.update_self] at hk')
      · exact Or.inl ⟨k', by rwa [Function.update_of_ne hne] at hk'⟩
  · rw [hslots p (h.appending.allocated c p hp)]
    exact h.unmarked c p hp
  · have hsame : ∀ d, box'.particles (order d) = s.box.particles (order d) := fun d =>
      ParticlesBox.particles_congr fun p hp => hslots p (h.appending.mem_allocated hp)
    dsimp only
    rcases horder with ⟨rfl, hlisted⟩ | ⟨p, hp, hlisted, rfl⟩
    · rw [hsame, h.particles, K.added_congr fun k' => Appending.comp_update Phase.listed hlisted k']
    · have hframe' : (s.phase k).frame = some p := by rw [hp]; rfl
      have hfilled := h.filled k p hframe' (hsync.resolve_right fun hidle => by rw [hidle] at hp; cases hp)
      rw [K.added_update hk (by rw [hp]; rfl) hlisted]
      rcases eq_or_ne c (K.dstSuperCell k) with rfl | hne
      · rw [Function.update_self, ParticlesBox.particles_append, hsame, h.particles, ParticlesBox.particles_cons, hold k p hframe',
          hfilled.2, ParticlesBox.particles_nil, add_zero, if_pos rfl, add_assoc]
      · rw [Function.update_of_ne hne, hsame, h.particles, if_neg hne.symm, add_zero]
  · exact ⟨(haction.counters c).1.trans (h.counters c).1, (haction.counters c).2.trans (h.counters c).2⟩

/-- **A block copies its particles.** -/
theorem copy (h : K.Inv L box s order) {k : ℕ} (hle : K.elementCount k ≤ frameSize) {p : FramePtr} (hphase : s.phase k = .empty p) (hnew : k ∉ s.copied) :
    K.Inv L box { s with
      box := s.box.setSlots p (K.fillFrame k (s.box.frames p).slots)
      copied := insert k s.copied } order := by
  have hframe : (s.phase k).frame = some p := by rw [hphase]; rfl
  have hblank := h.blank k p hframe hnew
  have hset : ∀ q, q ≠ p → (s.box.setSlots p (K.fillFrame k (s.box.frames p).slots)).frames q = s.box.frames q := fun q hq =>
    ParticlesBox.setFrame_frames_of_ne _ hq
  have hown : ∀ k' q, (s.phase k').frame = some q → k' ≠ k → q ≠ p := fun k' q hq hne heq =>
    hne (h.appending.distinct k' k p (heq ▸ hq) hframe)
  refine ⟨h.appending.congr (fun q e => ?_) (fun _ _ => rfl) (Finset.Subset.refl _), h.sublist, h.started, fun k' hk' => ?_,
    fun k' q hq hnew' => ?_, fun k' q hq hk' => ?_, fun k' q hq hnew' => ?_, h.heap, fun c q hq => ?_, fun c => ?_, h.counters⟩
  · rcases eq_or_ne q p with rfl | hne
    · rw [ParticlesBox.setSlots, ParticlesBox.setFrame_frames_self]
      cases e <;> rfl
    · rw [hset q hne]
  · rcases Finset.mem_insert.mp hk' with rfl | hk'
    · rw [hphase]
      rintro ⟨⟩
    · exact h.frame k' hk'
  · exact h.ready k' q hq fun hmem => hnew' (Finset.mem_insert_of_mem hmem)
  · dsimp only
    rcases eq_or_ne k' k with rfl | hne
    · obtain rfl : p = q := Option.some.inj (hframe.symm.trans hq)
      rw [ParticlesBox.setSlots, ParticlesBox.setFrame_frames_self]
      exact ⟨unmarked_fillFrame hblank, slotParticles_fillFrame hblank hle⟩
    · rw [hset q (hown k' q hq hne)]
      exact h.filled k' q hq ((Finset.mem_insert.mp hk').resolve_left hne)
  · have hne : k' ≠ k := fun heq => hnew' (heq ▸ Finset.mem_insert_self _ _)
    dsimp only
    rw [hset q (hown k' q hq hne)]
    exact h.blank k' q hq fun hmem => hnew' (Finset.mem_insert_of_mem hmem)
  · have hne : q ≠ p := fun heq => (h.appending.new k p hframe).2 c (heq ▸ hq)
    dsimp only
    rw [hset q hne]
    exact h.unmarked c q hq
  · dsimp only
    rw [ParticlesBox.particles_setSlots_of_notMem (h.appending.notMem hframe (by rw [hphase]; rfl) c)]
    exact h.particles c

end Inv

/-- The actions that are left. -/
def left (K : InsertParticles DIM A) (s : State DIM frameSize A) : ℕ :=
  ∑ k ∈ Finset.range K.numIndexEntries, ((s.phase k).left + if k ∈ s.copied then 0 else 1)

/-- **Every action keeps what the blocks have achieved**, and leaves less to do. -/
theorem Inv.step (h : K.Inv L box s order) (hle : ∀ k < K.numIndexEntries, K.elementCount k ≤ frameSize)
    (hst : (K.system box).step s t) : ∃ order', K.Inv L box t order' ∧ K.left t < K.left s := by
  cases hst with
  | @append k hk hpos hsync box' phase' haction =>
    obtain ⟨order', h'⟩ := h.append hk hpos hsync haction
    refine ⟨order', h', Finset.sum_lt_sum (fun k' _ => ?_) ⟨k, Finset.mem_range.mpr hk, ?_⟩⟩
    · rcases eq_or_ne k' k with rfl | hne
      · simp only [Function.update_self, ← haction.left]
        omega
      · simp only [Function.update_of_ne hne, le_refl]
    · simp only [Function.update_self, ← haction.left]
      omega
  | @copy k hk hpos p hphase hnew =>
    refine ⟨order, h.copy (hle k hk) hphase hnew, Finset.sum_lt_sum (fun k' _ => ?_) ⟨k, Finset.mem_range.mpr hk, ?_⟩⟩
    · refine Nat.add_le_add_left ?_ _
      by_cases hk' : k' ∈ s.copied
      · simp [hk']
      · rw [if_neg hk']
        split <;> omega
    · simp [hnew]

theorem Inv.over (h : K.Inv L box s order) (hterminal : (K.system box).Terminal s) : K.Over s := by
  intro k hk hpos
  by_cases hsync : k ∈ s.copied ∨ s.phase k = .idle
  · rcases exists_action .last (K.dstSuperCell k) s.box (s.phase k) with hdone | ⟨box', phase', haction⟩
    · exact hdone
    · exact absurd (Step.append hk hpos hsync haction) (hterminal _)
  · simp only [not_or] at hsync
    obtain ⟨p, hp⟩ := Phase.exists_frame hsync.2
    exact absurd (Step.copy hk hpos (h.ready k p hp hsync.1) hsync.1) (hterminal _)

/-- Blocks that are at their end take no steps. -/
theorem Over.terminal (h : K.Over s) : (K.system box).Terminal s := fun t hst => by
  cases hst with
  | append hk hpos hsync haction =>
    obtain ⟨p, hp⟩ := h _ hk hpos
    rw [hp] at haction
    cases haction
  | copy hk hpos hphase hnew =>
    obtain ⟨p, hp⟩ := h _ hk hpos
    rw [hphase] at hp
    cases hp

/-- **What the kernel leaves**: the lists have grown by the frames of the entries. -/
structure Inserted (K : InsertParticles DIM A) (L : DataSpace DIM → List FramePtr) (box : ParticlesBox DIM frameSize A)
    (L' : DataSpace DIM → List FramePtr) (box' : ParticlesBox DIM frameSize A) : Prop where
  holds : box'.Holds L'
  sublist : ∀ c, L c <+: L' c
  /-- The frames from the heap are in the lists. -/
  heap : ∀ p, p ∈ box'.allocated ↔ p ∈ box.allocated ∨ ∃ c, p ∈ L' c
  unmarked : ∀ c, ∀ p ∈ L' c, Unmarked (box'.frames p).slots
  particles : ∀ c, box'.particles (L' c) = box.particles (L c) +
    ∑ k ∈ Finset.range K.numIndexEntries, if K.dstSuperCell k = c then K.particlesOf k else 0
  counters : ∀ c, (box'.superCells c).numParticles = (box.superCells c).numParticles ∧
    (box'.superCells c).mustShift = (box.superCells c).mustShift

theorem Inv.inserted (h : K.Inv L box s order) (hover : K.Over s) : K.Inserted L box order s.box := by
  refine ⟨h.appending.holds fun k => ?_, h.sublist, fun p => ?_, fun c p hp => ?_, fun c => ?_, h.counters⟩
  · rcases eq_or_ne (s.phase k) .idle with hidle | hne
    · exact Or.inl hidle
    · exact Or.inr (hover k (h.started k hne).1 (h.started k hne).2)
  · rw [h.heap]
    refine or_congr_right' fun hnew => ⟨?_, ?_⟩
    · rintro ⟨k, hk⟩
      obtain ⟨hlt, hpos⟩ := h.started k fun hidle => by rw [hidle] at hk; cases hk
      obtain ⟨q, hq⟩ := hover k hlt hpos
      rw [hq] at hk
      exact ⟨K.dstSuperCell k, (h.appending.origin _ p).mpr (Or.inr ⟨k, rfl, by rw [hq]; exact hk⟩)⟩
    · rintro ⟨c, hp⟩
      exact ((h.heap p).mp (h.appending.mem_allocated hp)).resolve_left hnew
  · rcases (h.appending.origin c p).mp hp with hbase | ⟨k, -, hk⟩
    · exact h.unmarked c p hbase
    · have hframe := Phase.frame_of_listed hk
      by_cases hcopied : k ∈ s.copied
      · exact (h.filled k p hframe hcopied).1
      · exact fun i => Or.inl (h.blank k p hframe hcopied i)
  · rw [h.particles, added]
    refine congrArg (box.particles (L c) + ·) (Finset.sum_congr rfl fun k hk => ?_)
    rcases Nat.eq_zero_or_pos (K.elementCount k) with hzero | hpos
    · have hnone : K.particlesOf k = 0 := by rw [particlesOf, hzero, Finset.sum_range_zero]
      rw [hnone, ite_self, ite_self]
    · obtain ⟨p, hp⟩ := hover k (Finset.mem_range.mp hk) hpos
      simp [hp, Phase.listed]

/-- **Every run of the kernel ends**, in whatever order the blocks get and append their frames.  Then every
particle of every entry of the index table is in the supercell of its entry once, what was there before is
there still, and the counters of the supercells are what they were. -/
theorem insert_ends (K : InsertParticles DIM A) (hbox : box.Holds L) (hunmarked : ∀ c, ∀ p ∈ L c, Unmarked (box.frames p).slots)
    (hle : ∀ k < K.numIndexEntries, K.elementCount k ≤ frameSize) :
    (K.system box).Ends (start box) fun s => K.Over s ∧ ∃ L', K.Inserted L box L' s.box := by
  refine StepSystem.ends_of_variant (I := fun s n => ∃ order, K.Inv L box s order ∧ n = K.left s) ?_ ?_ ⟨L, ?_, rfl⟩
  · rintro s n ⟨order, h, rfl⟩ t hst
    obtain ⟨order', h', hlt⟩ := h.step hle hst
    exact ⟨_, hlt, order', h', rfl⟩
  · rintro s n ⟨order, h, -⟩ hterminal
    have hover := h.over hterminal
    exact ⟨hover, order, h.inserted hover⟩
  · refine ⟨Appending.start hbox, fun c => List.prefix_refl _, fun k hk => absurd rfl hk, fun k hk => absurd hk (Finset.notMem_empty k),
      fun k p hp => absurd hp.symm (Option.some_ne_none p), fun k p hp => absurd hp.symm (Option.some_ne_none p),
      fun k p hp => absurd hp.symm (Option.some_ne_none p), fun p => (or_iff_left ?_).symm, hunmarked, fun c => ?_, fun c => ⟨rfl, rfl⟩⟩
    · rintro ⟨k, hk⟩
      exact Option.some_ne_none p hk.symm
    · exact (add_zero _).symm.trans (congrArg (box.particles (L c) + ·) (Finset.sum_eq_zero fun k _ => if_neg fun hk =>
        Bool.false_ne_true hk.1).symm)

end Runs

end InsertParticles
end PmaccParticles
end Spearhed
