import Spearhed.Mappings.MappingDescription
import Spearhed.PmaccParticles.ConcatListOfFrames
import Spearhed.PmaccParticles.FrameAppends
import Spearhed.PmaccParticles.FrameSlots

/-!
# One frame as frame lists

`KernelSplitIntoListOfFrames`.  A block takes as many particles of the source as a frame has slots.  Neighbours
among its threads whose particles belong to one supercell share a frame: the first of them, their master, gets
it from the heap and puts it at the front of the list of the supercell, while threads of this and of other
blocks do the same.  After that every thread copies its particle to the slot of its own number.

* `searchMaster_spec`: what a thread finds.
* `Inv.step`: what every action keeps.
* `split_ends`: every run puts every particle into its supercell once.
-/

namespace Spearhed
namespace PmaccParticles

open Communication FrameAppends Library Mappings

variable {DIM frameSize : ℕ} {B : Type}

/-- The arguments of the kernel. -/
structure SplitIntoListOfFrames (DIM : ℕ) (B : Type) where
  cellDesc : MappingDescription DIM
  superCellSize : DataSpace DIM
  cellOffsetToTotalDomain : DataSpace DIM
  srcFrame : ℤ → Record DIM B
  numParticles : ℕ

namespace SplitIntoListOfFrames

variable (K : SplitIntoListOfFrames DIM B)

def numSuperCells : DataSpace DIM := K.cellDesc.gridSuperCells - K.cellDesc.guardingSuperCells * 2

/-- The offset of a particle to the origin of the local domain. -/
def particleCellOffset (r : Record DIM B) : DataSpace DIM := r.domainCellIdx - K.cellOffsetToTotalDomain

/-- Its supercell, without the guard.  The division is that of `int`. -/
def particlesSuperCell (r : Record DIM B) : DataSpace DIM := fun d => (K.particleCellOffset r d).tdiv (K.superCellSize d)

def linearParticlesSuperCell (r : Record DIM B) : ℤ := linearize K.numSuperCells (K.particlesSuperCell r)

/-- A `lcellId_t`. -/
def lCellIdx (r : Record DIM B) : ℤ :=
  linearize K.superCellSize (K.particleCellOffset r - K.particlesSuperCell r * K.superCellSize) % 2 ^ 16

/-- What a thread copies, and where to. -/
def attributes (r : Record DIM B) : Attributes B := ⟨K.lCellIdx r, r.others⟩
def superCell (r : Record DIM B) : DataSpace DIM := K.particlesSuperCell r + K.cellDesc.guardingSuperCells

/-- `divCeil(numParticles, frameSize)`. -/
def numBlocks (frameSize : ℕ) : ℕ := (K.numParticles + frameSize - 1) / frameSize

def srcParticleIdx (sharedSrcParticleOffset : ℤ) (idx : ℕ) : ℤ := toInt (sharedSrcParticleOffset + idx)

def hasValidParticle (sharedSrcParticleOffset : ℤ) (idx : ℕ) : Prop :=
  srcParticleIdx sharedSrcParticleOffset idx < toInt K.numParticles

instance (sharedSrcParticleOffset : ℤ) (idx : ℕ) : Decidable (K.hasValidParticle sharedSrcParticleOffset idx) :=
  inferInstanceAs (Decidable (_ < _))

def sharedLinearSuperCellIds (sharedSrcParticleOffset : ℤ) (idx : ℕ) : ℤ :=
  if K.hasValidParticle sharedSrcParticleOffset idx then
    K.linearParticlesSuperCell (K.srcFrame (srcParticleIdx sharedSrcParticleOffset idx))
  else -1

/-- The loop that goes back over threads with the same supercell, and one forth. -/
def searchMaster (ids : ℕ → ℤ) (own : ℤ) : ℕ → ℕ
  | 0 => 0
  | v + 1 => if own ≠ ids v then v + 1 else searchMaster ids own v

def vThreadMasterIdx (sharedSrcParticleOffset : ℤ) (idx : ℕ) : ℕ :=
  searchMaster (K.sharedLinearSuperCellIds sharedSrcParticleOffset) (K.sharedLinearSuperCellIds sharedSrcParticleOffset idx) idx

/-- The threads of all blocks. -/
abbrev Thread (frameSize : ℕ) : Type := ℕ × Fin frameSize

structure State (DIM frameSize : ℕ) (B : Type) where
  box : ParticlesBox DIM frameSize (Attributes B)
  /-- The three counters. -/
  applied : ℕ
  loaded : ℕ
  usedFrames : ℕ
  sharedSrcParticleOffset : ℕ → Option ℤ
  phase : Thread frameSize → Phase
  /-- The threads that have copied their particle. -/
  copied : Finset (Thread frameSize)

/-- The particle of a thread. -/
def particleOf (offset : ℕ → Option ℤ) (t : Thread frameSize) : Record DIM B :=
  K.srcFrame (srcParticleIdx ((offset t.1).getD 0) t.2)

inductive Step : State DIM frameSize B → State DIM frameSize B → Prop
  /-- The master of a block applies for work. -/
  | apply {s : State DIM frameSize B} {b : ℕ} (hb : b < K.numBlocks frameSize) (hnone : s.sharedSrcParticleOffset b = none) :
      Step s { s with
        applied := (s.applied + frameSize) % 2 ^ 32
        sharedSrcParticleOffset := Function.update s.sharedSrcParticleOffset b (some (toInt s.applied)) }
  /-- A thread that is a master loads an empty frame. -/
  | append {s : State DIM frameSize B} {t : Thread frameSize} {offset : ℤ} (hoffset : s.sharedSrcParticleOffset t.1 = some offset)
      (hvalid : K.hasValidParticle offset t.2) (hmaster : K.vThreadMasterIdx offset t.2 = t.2)
      {box' : ParticlesBox DIM frameSize (Attributes B)} {phase' : Phase}
      (haction : Action .first (K.superCell (K.particleOf s.sharedSrcParticleOffset t)) s.box (s.phase t) box' phase') :
      Step s { s with
        box := box'
        usedFrames := match s.phase t with
          | .idle => (s.usedFrames + 1) % 2 ^ 32
          | _ => s.usedFrames
        phase := Function.update s.phase t phase' }
  /-- A thread copies its particle, after the masters of its block are done. -/
  | copy {s : State DIM frameSize B} {t : Thread frameSize} {offset : ℤ} (hoffset : s.sharedSrcParticleOffset t.1 = some offset)
      (hvalid : K.hasValidParticle offset t.2)
      (hsync : ∀ j : Fin frameSize, K.hasValidParticle offset j → K.vThreadMasterIdx offset j = j →
        ∃ p, s.phase (t.1, j) = .linked p)
      {m : Fin frameSize} (hm : K.vThreadMasterIdx offset t.2 = m) {destFramePtr : FramePtr}
      (hdest : s.phase (t.1, m) = .linked destFramePtr) (hnew : t ∉ s.copied) :
      Step s { s with
        box := s.box.setSlots destFramePtr (Function.update (s.box.frames destFramePtr).slots t.2
          ⟨1, K.attributes (K.particleOf s.sharedSrcParticleOffset t)⟩)
        loaded := (s.loaded + 1) % 2 ^ 32
        copied := insert t s.copied }

/-- The counters are zero when the kernel starts. -/
def start (box : ParticlesBox DIM frameSize (Attributes B)) : State DIM frameSize B :=
  ⟨box, 0, 0, 0, fun _ => none, fun _ => .idle, ∅⟩

def system (box : ParticlesBox DIM frameSize (Attributes B)) : StepSystem (State DIM frameSize B) where
  init s := s = start box
  step := K.Step

/-! ## What a thread finds -/

/-- **The loop of the search** stops behind the first thread with another supercell. -/
theorem searchMaster_spec (ids : ℕ → ℤ) (own : ℤ) (idx : ℕ) :
    searchMaster ids own idx ≤ idx ∧ (∀ v, searchMaster ids own idx ≤ v → v < idx → ids v = own) ∧
      ∀ v, searchMaster ids own idx = v + 1 → ids v ≠ own := by
  induction idx with
  | zero => exact ⟨le_rfl, fun v _ hv => absurd hv (Nat.not_lt_zero v), fun v hv => absurd hv.symm (Nat.succ_ne_zero v)⟩
  | succ idx ih =>
    obtain ⟨hle, hsame, hstop⟩ := ih
    rw [searchMaster]
    split
    · next hne => exact ⟨le_rfl, fun v hv hv' => absurd hv' (by omega), fun v hv => Nat.succ.inj hv ▸ Ne.symm hne⟩
    · next heq =>
      refine ⟨hle.trans (Nat.le_succ idx), fun v hv hv' => ?_, hstop⟩
      rcases Nat.lt_succ_iff_lt_or_eq.mp hv' with hlt | rfl
      · exact hsame v hv hlt
      · exact (not_not.mp heq).symm

theorem searchMaster_eq_self {ids : ℕ → ℤ} {own : ℤ} {m : ℕ} (h : ∀ v, m = v + 1 → ids v ≠ own) : searchMaster ids own m = m := by
  cases m with
  | zero => rfl
  | succ v => rw [searchMaster, if_pos (h v rfl).symm]

/-- What the kernel relies on. -/
structure Input (frameSize : ℕ) : Prop where
  pos : 0 < frameSize
  lt : K.numParticles < 2 ^ 31
  /-- The number of particles, rounded up to whole frames. -/
  rounded : K.numBlocks frameSize * frameSize ≤ 2 ^ 31
  domain : ∀ i : ℕ, i < K.numParticles → K.particlesSuperCell (K.srcFrame i) ∈ box 0 K.numSuperCells

section Chunks

variable {K} (h : K.Input frameSize) {k : ℕ} (hk : k < K.numBlocks frameSize)
include h hk

omit h in
theorem chunk_le : k * frameSize + frameSize ≤ K.numBlocks frameSize * frameSize := by
  rw [← Nat.succ_mul]
  exact Nat.mul_le_mul_right _ hk

theorem Input.srcParticleIdx_eq (idx : Fin frameSize) : srcParticleIdx (k * frameSize : ℕ) idx = (k * frameSize + idx : ℕ) := by
  have hle := chunk_le (K := K) hk
  have hround := h.rounded
  have hidx := idx.isLt
  rw [srcParticleIdx, toInt_eq (by omega) (by omega)]
  push_cast
  rfl

theorem Input.valid_iff (idx : Fin frameSize) : K.hasValidParticle (k * frameSize : ℕ) idx ↔ k * frameSize + idx < K.numParticles := by
  have hlt := h.lt
  rw [hasValidParticle, h.srcParticleIdx_eq hk, toInt_eq (by omega) (by omega), Nat.cast_lt]

/-- **The master of a thread** has a particle in the same supercell, and is its own master. -/
theorem Input.master (idx : Fin frameSize) (hvalid : K.hasValidParticle (k * frameSize : ℕ) idx) :
    ∃ m : Fin frameSize, K.vThreadMasterIdx (k * frameSize : ℕ) idx = m ∧ K.hasValidParticle (k * frameSize : ℕ) m ∧
      K.vThreadMasterIdx (k * frameSize : ℕ) m = m ∧
      K.superCell (K.srcFrame (srcParticleIdx (k * frameSize : ℕ) m)) =
        K.superCell (K.srcFrame (srcParticleIdx (k * frameSize : ℕ) idx)) := by
  obtain ⟨hle, hsame, hstop⟩ := searchMaster_spec (K.sharedLinearSuperCellIds (k * frameSize : ℕ))
    (K.sharedLinearSuperCellIds (k * frameSize : ℕ) idx) idx
  obtain ⟨m, hm⟩ : ∃ m : Fin frameSize, K.vThreadMasterIdx (k * frameSize : ℕ) idx = m :=
    ⟨⟨_, hle.trans_lt idx.isLt⟩, rfl⟩
  rw [show searchMaster _ _ (idx : ℕ) = (m : ℕ) from hm] at hle hsame hstop
  have hids : K.sharedLinearSuperCellIds (k * frameSize : ℕ) m = K.sharedLinearSuperCellIds (k * frameSize : ℕ) idx := by
    rcases eq_or_lt_of_le hle with heq | hlt
    · rw [heq]
    · exact hsame m le_rfl hlt
  have hidx := (h.valid_iff hk idx).mp hvalid
  have hvalidm : K.hasValidParticle (k * frameSize : ℕ) m := (h.valid_iff hk m).mpr (by omega)
  refine ⟨m, hm, hvalidm, ?_, ?_⟩
  · refine searchMaster_eq_self fun v hv => ?_
    rw [hids]
    exact hstop v hv
  · have hid : ∀ j : Fin frameSize, K.hasValidParticle (k * frameSize : ℕ) j → K.sharedLinearSuperCellIds (k * frameSize : ℕ) j =
        K.linearParticlesSuperCell (K.srcFrame (srcParticleIdx (k * frameSize : ℕ) j)) := fun j hj => if_pos hj
    rw [hid m hvalidm, hid idx hvalid] at hids
    have hmem := h.domain _ ((h.valid_iff hk m).mp hvalidm)
    have hmem' := h.domain _ hidx
    rw [← h.srcParticleIdx_eq hk m] at hmem
    rw [← h.srcParticleIdx_eq hk idx] at hmem'
    have hcell := congrArg (mapToND K.numSuperCells) hids
    rw [linearParticlesSuperCell, linearParticlesSuperCell, mapToND_linearize hmem, mapToND_linearize hmem'] at hcell
    rw [superCell, superCell, hcell]

end Chunks

/-! ## Whole runs -/

/-- The blocks that have applied for work. -/
def taken (frameSize : ℕ) (offset : ℕ → Option ℤ) : Finset ℕ :=
  (Finset.range (K.numBlocks frameSize)).filter fun b => (offset b).isSome

/-- What the particles of some threads add to a supercell. -/
def added (offset : ℕ → Option ℤ) (c : DataSpace DIM) (threads : Finset (Thread frameSize)) : Multiset (Attributes B) :=
  ∑ t ∈ threads, if K.superCell (K.particleOf offset t) = c then {K.attributes (K.particleOf offset t)} else 0

/-- What holds while the kernel runs. -/
structure Inv (L : DataSpace DIM → List FramePtr) (box : ParticlesBox DIM frameSize (Attributes B)) (s : State DIM frameSize B)
    (order : DataSpace DIM → List FramePtr) : Prop where
  appending : Appending .first (fun t => K.superCell (K.particleOf s.sharedSrcParticleOffset t))
    (fun c => ListEnd.first.orient (L c)) s.box s.phase order
  applied : s.applied = (K.taken frameSize s.sharedSrcParticleOffset).card * frameSize
  chunk : ∀ b o, s.sharedSrcParticleOffset b = some o → b < K.numBlocks frameSize ∧
    ∃ k < (K.taken frameSize s.sharedSrcParticleOffset).card, o = (k * frameSize : ℕ)
  distinct : ∀ b b' o, s.sharedSrcParticleOffset b = some o → s.sharedSrcParticleOffset b' = some o → b = b'
  started : ∀ t, s.phase t ≠ .idle → ∃ o, s.sharedSrcParticleOffset t.1 = some o ∧ K.hasValidParticle o t.2 ∧
    K.vThreadMasterIdx o t.2 = t.2
  copied : ∀ t ∈ s.copied, ∃ o, s.sharedSrcParticleOffset t.1 = some o ∧ K.hasValidParticle o t.2
  synced : ∀ t ∈ s.copied, ∀ o, s.sharedSrcParticleOffset t.1 = some o → ∀ j : Fin frameSize, K.hasValidParticle o j →
    K.vThreadMasterIdx o j = j → ∃ p, s.phase (t.1, j) = .linked p
  /-- The slots of a new frame are filled by the threads of its block. -/
  slots : ∀ t p, (s.phase t).frame = some p → ∀ j, ((s.box.frames p).slots j).multiMask = 0 ∨
    ((s.box.frames p).slots j).multiMask = 1 ∧ (t.1, j) ∈ s.copied
  unmarked : ∀ c, ∀ p ∈ L c, Unmarked (s.box.frames p).slots
  particles : ∀ c, s.box.particles (order c) = box.particles (L c) + K.added s.sharedSrcParticleOffset c s.copied
  loaded : s.loaded = s.copied.card

section Runs

variable {K} {L order : DataSpace DIM → List FramePtr} {box : ParticlesBox DIM frameSize (Attributes B)} {s t : State DIM frameSize B}

theorem inv_start (hbox : box.Holds L) (hunmarked : ∀ c, ∀ p ∈ L c, Unmarked (box.frames p).slots) :
    K.Inv L box (start box) fun c => ListEnd.first.orient (L c) where
  appending := Appending.start hbox
  applied := by simp [start, taken]
  chunk b o h := absurd h.symm (Option.some_ne_none o)
  distinct b b' o h := absurd h.symm (Option.some_ne_none o)
  started t h := absurd rfl h
  copied t h := absurd h (Finset.notMem_empty t)
  synced t h := absurd h (Finset.notMem_empty t)
  slots t p h := absurd h.symm (Option.some_ne_none p)
  unmarked := hunmarked
  particles c := by
    rw [added, show (start box).copied = ∅ from rfl, Finset.sum_empty, add_zero]
    exact ParticlesBox.particles_perm (orient_perm _ _)
  loaded := rfl

namespace Inv

/-- What a thread with work knows about its chunk. -/
theorem chunk_lt (h : K.Inv L box s order) {b : ℕ} {o : ℤ} (ho : s.sharedSrcParticleOffset b = some o) :
    ∃ k < K.numBlocks frameSize, o = (k * frameSize : ℕ) := by
  obtain ⟨-, k, hk, rfl⟩ := h.chunk b o ho
  refine ⟨k, hk.trans_le ?_, rfl⟩
  exact (Finset.card_filter_le _ _).trans_eq (Finset.card_range _)

/-- The threads that copy are those of the blocks. -/
theorem card_copied_le (h : K.Inv L box s order) : s.copied.card ≤ K.numBlocks frameSize * frameSize := by
  have hsub : s.copied ⊆ Finset.range (K.numBlocks frameSize) ×ˢ Finset.univ := fun t ht => by
    obtain ⟨o, ho, -⟩ := h.copied t ht
    exact Finset.mem_product.mpr ⟨Finset.mem_range.mpr (h.chunk t.1 o ho).1, Finset.mem_univ _⟩
  refine (Finset.card_le_card hsub).trans_eq ?_
  rw [Finset.card_product, Finset.card_range, Finset.card_univ, Fintype.card_fin]

/-- **A block applies for work.** -/
theorem apply (h : K.Inv L box s order) (hinput : K.Input frameSize) {b : ℕ} (hb : b < K.numBlocks frameSize)
    (hnone : s.sharedSrcParticleOffset b = none) :
    K.Inv L box { s with
      applied := (s.applied + frameSize) % 2 ^ 32
      sharedSrcParticleOffset := Function.update s.sharedSrcParticleOffset b (some (toInt s.applied)) } order := by
  set offset' := Function.update s.sharedSrcParticleOffset b (some (toInt s.applied)) with hoffset
  have hround := hinput.rounded
  have hold : ∀ b' o, s.sharedSrcParticleOffset b' = some o → offset' b' = some o := fun b' o ho => by
    have hne : b' ≠ b := fun heq => Option.some_ne_none o (ho.symm.trans (heq ▸ hnone))
    rw [hoffset, Function.update_of_ne hne, ho]
  have htaken : K.taken frameSize offset' = insert b (K.taken frameSize s.sharedSrcParticleOffset) := by
    ext b'
    simp only [taken, Finset.mem_filter, Finset.mem_range, Finset.mem_insert]
    rcases eq_or_ne b' b with rfl | hne
    · simp [hoffset, hb]
    · simp [hoffset, hne]
  have hnew : b ∉ K.taken frameSize s.sharedSrcParticleOffset := fun hmem => by
    have hsome := (Finset.mem_filter.mp hmem).2
    rw [hnone] at hsome
    cases hsome
  have hcard : (K.taken frameSize offset').card = (K.taken frameSize s.sharedSrcParticleOffset).card + 1 := by
    rw [htaken, Finset.card_insert_of_notMem hnew]
  have hle : (K.taken frameSize s.sharedSrcParticleOffset).card + 1 ≤ K.numBlocks frameSize := by
    rw [← hcard]
    exact (Finset.card_filter_le _ _).trans_eq (Finset.card_range _)
  have happlied : (K.taken frameSize s.sharedSrcParticleOffset).card * frameSize + frameSize ≤
      K.numBlocks frameSize * frameSize := chunk_le hle
  have hint : toInt s.applied = ((K.taken frameSize s.sharedSrcParticleOffset).card * frameSize : ℕ) := by
    have hpos := hinput.pos
    rw [h.applied, toInt_eq (by omega) (by omega)]
  have hparticle : ∀ t : Thread frameSize, (∃ o, s.sharedSrcParticleOffset t.1 = some o) →
      K.particleOf offset' t = K.particleOf s.sharedSrcParticleOffset t := by
    rintro t ⟨o, ho⟩
    rw [particleOf, particleOf, ho, hold t.1 o ho]
  refine ⟨h.appending.cell_congr fun t ht => ?_, ?_, fun b' o ho => ?_, fun b' b'' o ho ho' => ?_, fun t ht => ?_, fun t ht => ?_,
    fun t ht o ho => ?_, h.slots, h.unmarked, fun c => ?_, h.loaded⟩
  · obtain ⟨o, ho, -⟩ := h.started t ht
    rw [hparticle t ⟨o, ho⟩]
  · dsimp only
    rw [h.applied, hcard, Nat.succ_mul, Nat.mod_eq_of_lt (by omega)]
  · dsimp only at ho ⊢
    rw [hcard]
    rcases eq_or_ne b' b with rfl | hne
    · rw [hoffset, Function.update_self, hint] at ho
      exact ⟨hb, _, Nat.lt_succ_self _, (Option.some.inj ho).symm⟩
    · rw [hoffset, Function.update_of_ne hne] at ho
      obtain ⟨hb', k, hk, hko⟩ := h.chunk b' o ho
      exact ⟨hb', k, hk.trans (Nat.lt_succ_self _), hko⟩
  · -- the offset of the block is behind those that were given out
    have hfresh : ∀ b' o, s.sharedSrcParticleOffset b' = some o → o ≠ toInt s.applied := by
      intro b' o ho heq
      obtain ⟨-, k, hk, rfl⟩ := h.chunk b' o ho
      rw [hint, Nat.cast_inj] at heq
      exact absurd (Nat.eq_of_mul_eq_mul_right hinput.pos heq) hk.ne
    dsimp only at ho ho'
    rcases eq_or_ne b' b with rfl | hne
    · rcases eq_or_ne b'' b' with rfl | hne'
      · rfl
      · rw [hoffset, Function.update_self] at ho
        rw [hoffset, Function.update_of_ne hne'] at ho'
        exact absurd (Option.some.inj ho).symm (hfresh b'' o ho')
    · rw [hoffset, Function.update_of_ne hne] at ho
      rcases eq_or_ne b'' b with rfl | hne'
      · rw [hoffset, Function.update_self] at ho'
        exact absurd (Option.some.inj ho').symm (hfresh b' o ho)
      · rw [hoffset, Function.update_of_ne hne'] at ho'
        exact h.distinct b' b'' o ho ho'
  · obtain ⟨o, ho, hstarted⟩ := h.started t ht
    exact ⟨o, hold t.1 o ho, hstarted⟩
  · obtain ⟨o, ho, hvalid⟩ := h.copied t ht
    exact ⟨o, hold t.1 o ho, hvalid⟩
  · obtain ⟨o', ho', -⟩ := h.copied t ht
    obtain rfl : o' = o := Option.some.inj ((hold t.1 o' ho').symm.trans ho)
    exact h.synced t ht o' ho'
  · rw [h.particles, added, added]
    refine congrArg (box.particles (L c) + ·) (Finset.sum_congr rfl fun t ht => ?_)
    obtain ⟨o, ho, -⟩ := h.copied t ht
    rw [hparticle t ⟨o, ho⟩]

/-- **A thread appends its frame.** -/
theorem append (h : K.Inv L box s order) {t : Thread frameSize} {offset : ℤ}
    (hoffset : s.sharedSrcParticleOffset t.1 = some offset) (hvalid : K.hasValidParticle offset t.2)
    (hmaster : K.vThreadMasterIdx offset t.2 = t.2) {box' : ParticlesBox DIM frameSize (Attributes B)} {phase' : Phase}
    (haction : Action .first (K.superCell (K.particleOf s.sharedSrcParticleOffset t)) s.box (s.phase t) box' phase') (used : ℕ) :
    ∃ order', K.Inv L box { s with box := box', usedFrames := used, phase := Function.update s.phase t phase' } order' := by
  obtain ⟨order', happending, horder⟩ := h.appending.step haction
  have hslots : ∀ q ∈ s.box.allocated, (box'.frames q).slots = (s.box.frames q).slots := fun q hq =>
    (haction.slots q).resolve_right fun hempty => hempty.2.1 hq
  -- the threads of the block have not copied yet
  have hsync : ∀ j, (t.1, j) ∉ s.copied := fun j hj => by
    obtain ⟨p, hp⟩ := h.synced (t.1, j) hj offset hoffset t.2 hvalid hmaster
    rw [show s.phase t = .linked p from hp] at haction
    cases haction
  refine ⟨order', happending, h.applied, h.chunk, h.distinct, fun t' ht' => ?_, h.copied, fun t' ht' o ho j hj hj' => ?_,
    fun t' p hp j => ?_, fun c p hp => ?_, fun c => ?_, h.loaded⟩
  · rcases eq_or_ne t' t with rfl | hne
    · exact ⟨offset, hoffset, hvalid, hmaster⟩
    · dsimp only at ht'
      rw [Function.update_of_ne hne] at ht'
      exact h.started t' ht'
  · obtain ⟨p, hp⟩ := h.synced t' ht' o ho j hj hj'
    have hne : (t'.1, j) ≠ t := fun heq => hsync t'.2 (by rw [← heq]; exact ht')
    exact ⟨p, (Function.update_of_ne hne _ _).trans hp⟩
  · dsimp only at hp ⊢
    rcases eq_or_ne t' t with rfl | hne
    · rw [Function.update_self] at hp
      rcases haction.frame hp with hp | ⟨-, hempty⟩
      · rw [hslots p (h.appending.new t' p hp).1]
        exact h.slots t' p hp j
      · exact Or.inl (hempty j)
    · rw [Function.update_of_ne hne] at hp
      rw [hslots p (h.appending.new t' p hp).1]
      exact h.slots t' p hp j
  · rw [hslots p (h.appending.allocated c p (mem_orient.mpr hp))]
    exact h.unmarked c p hp
  · have hsame : ∀ d, box'.particles (order d) = s.box.particles (order d) := fun d =>
      ParticlesBox.particles_congr fun p hp => hslots p (h.appending.mem_allocated hp)
    rw [← h.particles c]
    rcases horder with ⟨rfl, -⟩ | ⟨p, hp, -, rfl⟩
    · exact hsame c
    · rcases eq_or_ne c (K.superCell (K.particleOf s.sharedSrcParticleOffset t)) with rfl | hne
      · have hframe : (s.phase t).frame = some p := by rw [hp]; rfl
        have hempty : slotParticles (box'.frames p).slots = 0 := by
          rw [hslots p (h.appending.new t p hframe).1]
          exact Finset.sum_eq_zero fun j _ => if_pos ((h.slots t p hframe j).resolve_right fun hj => hsync j hj.2)
        rw [Function.update_self, ParticlesBox.particles_append, hsame, ParticlesBox.particles_cons, hempty,
          ParticlesBox.particles_nil, add_zero, add_zero]
      · rw [Function.update_of_ne hne]
        exact hsame c

/-- **A thread copies its particle.** -/
theorem copy (h : K.Inv L box s order) (hinput : K.Input frameSize) {t : Thread frameSize} {offset : ℤ}
    (hoffset : s.sharedSrcParticleOffset t.1 = some offset) (hvalid : K.hasValidParticle offset t.2)
    (hsync : ∀ j : Fin frameSize, K.hasValidParticle offset j → K.vThreadMasterIdx offset j = j → ∃ p, s.phase (t.1, j) = .linked p)
    {m : Fin frameSize} (hm : K.vThreadMasterIdx offset t.2 = m) {p : FramePtr} (hp : s.phase (t.1, m) = .linked p)
    (hnew : t ∉ s.copied) :
    K.Inv L box { s with
      box := s.box.setSlots p (Function.update (s.box.frames p).slots t.2
        ⟨1, K.attributes (K.particleOf s.sharedSrcParticleOffset t)⟩)
      loaded := (s.loaded + 1) % 2 ^ 32
      copied := insert t s.copied } order := by
  set slots := Function.update (s.box.frames p).slots t.2 ⟨1, K.attributes (K.particleOf s.sharedSrcParticleOffset t)⟩ with hslots
  have hframe : (s.phase (t.1, m)).frame = some p := by rw [hp]; rfl
  have hgap : ((s.box.frames p).slots t.2).multiMask = 0 :=
    (h.slots _ p hframe t.2).resolve_right fun hj => hnew hj.2
  have hset : ∀ q, q ≠ p → (s.box.setSlots p slots).frames q = s.box.frames q := fun q hq =>
    ParticlesBox.setFrame_frames_of_ne _ hq
  have hself : ((s.box.setSlots p slots).frames p).slots = slots := by
    rw [ParticlesBox.setSlots, ParticlesBox.setFrame_frames_self]
  obtain ⟨k, hk, hko⟩ := h.chunk_lt hoffset
  -- the frame is in the list of the supercell of the particle
  have hmem : p ∈ order (K.superCell (K.particleOf s.sharedSrcParticleOffset t)) := by
    refine (h.appending.origin _ p).mpr (Or.inr ⟨(t.1, m), ?_, by rw [hp]; rfl⟩)
    rw [hko] at hvalid hm
    obtain ⟨m', hm', -, -, hcell⟩ := hinput.master hk t.2 hvalid
    obtain rfl : m = m' := Fin.ext (hm.symm.trans hm')
    rw [particleOf, particleOf, hoffset, hko]
    exact hcell
  refine ⟨h.appending.congr (fun q e' => ?_) (fun _ _ => rfl) (Finset.Subset.refl _), h.applied, h.chunk, h.distinct, h.started,
    fun t' ht' => ?_, fun t' ht' o ho j hj hj' => ?_, fun t' q hq j => ?_, fun c q hq => ?_, fun c => ?_, ?_⟩
  · rcases eq_or_ne q p with rfl | hne
    · rw [ParticlesBox.setSlots, ParticlesBox.setFrame_frames_self]
      cases e' <;> rfl
    · rw [hset q hne]
  · rcases Finset.mem_insert.mp ht' with rfl | ht'
    · exact ⟨offset, hoffset, hvalid⟩
    · exact h.copied t' ht'
  · rcases Finset.mem_insert.mp ht' with rfl | ht'
    · obtain rfl : offset = o := Option.some.inj (hoffset.symm.trans ho)
      exact hsync j hj hj'
    · exact h.synced t' ht' o ho j hj hj'
  · dsimp only at hq ⊢
    rcases eq_or_ne q p with rfl | hne
    · obtain rfl : t' = (t.1, m) := h.appending.distinct t' (t.1, m) q hq hframe
      rw [hself, hslots]
      rcases eq_or_ne j t.2 with rfl | hj
      · rw [Function.update_self]
        exact Or.inr ⟨rfl, Finset.mem_insert_self _ _⟩
      · rw [Function.update_of_ne hj]
        exact (h.slots _ q hframe j).imp_right fun hmask => ⟨hmask.1, Finset.mem_insert_of_mem hmask.2⟩
    · rw [hset q hne]
      exact (h.slots t' q hq j).imp_right fun hmask => ⟨hmask.1, Finset.mem_insert_of_mem hmask.2⟩
  · have hne : q ≠ p := fun heq => (h.appending.new _ p hframe).2 c (mem_orient.mpr (heq ▸ hq))
    rw [show (s.box.setSlots p slots).frames q = s.box.frames q from hset q hne]
    exact h.unmarked c q hq
  · dsimp only
    rw [added, Finset.sum_insert hnew, ← added]
    split
    · next hc =>
      subst hc
      rw [ParticlesBox.particles_setSlots (h.appending.list _).nodup hmem (slotParticles_update hgap _), h.particles]
      abel
    · next hc =>
      have hnot : p ∉ order c := fun hp' => h.appending.disjoint_order hc hmem hp'
      rw [ParticlesBox.particles_setSlots_of_notMem hnot, h.particles, zero_add]
  · dsimp only
    have hle := h.card_copied_le
    have hround := hinput.rounded
    rw [Finset.card_insert_of_notMem hnew, h.loaded, Nat.mod_eq_of_lt (by omega)]

end Inv

end Runs

/-- The actions that are left. -/
def left (s : State DIM frameSize B) : ℕ :=
  (K.numBlocks frameSize - (K.taken frameSize s.sharedSrcParticleOffset).card) +
    ∑ t ∈ Finset.range (K.numBlocks frameSize) ×ˢ Finset.univ, (s.phase t).left +
    (K.numBlocks frameSize * frameSize - s.copied.card)

section Runs

variable {K} {L order : DataSpace DIM → List FramePtr} {box : ParticlesBox DIM frameSize (Attributes B)} {s t : State DIM frameSize B}

/-- **Every action keeps what the kernel has achieved**, and leaves less to do. -/
theorem Inv.step (h : K.Inv L box s order) (hinput : K.Input frameSize) (hst : (K.system box).step s t) :
    ∃ order', K.Inv L box t order' ∧ K.left t < K.left s := by
  cases hst with
  | @apply b hb hnone =>
    have h' := h.apply hinput hb hnone
    refine ⟨order, h', ?_⟩
    have hgrow : (K.taken frameSize s.sharedSrcParticleOffset).card <
        (K.taken frameSize (Function.update s.sharedSrcParticleOffset b (some (toInt s.applied)))).card := by
      refine Finset.card_lt_card (Finset.ssubset_iff_of_subset (fun b' hb' => ?_) |>.mpr ⟨b, ?_, fun hmem => ?_⟩)
      · obtain ⟨hlt, hsome⟩ := Finset.mem_filter.mp hb'
        have hne : b' ≠ b := fun heq => by
          rw [heq, hnone] at hsome
          cases hsome
        exact Finset.mem_filter.mpr ⟨hlt, by rwa [Function.update_of_ne hne]⟩
      · exact Finset.mem_filter.mpr ⟨Finset.mem_range.mpr hb, by rw [Function.update_self]; rfl⟩
      · have hsome := (Finset.mem_filter.mp hmem).2
        rw [hnone] at hsome
        cases hsome
    have hle : (K.taken frameSize (Function.update s.sharedSrcParticleOffset b (some (toInt s.applied)))).card ≤
        K.numBlocks frameSize := (Finset.card_filter_le _ _).trans_eq (Finset.card_range _)
    simp only [left]
    omega
  | @append thread offset hoffset hvalid hmaster box' phase' haction =>
    obtain ⟨order', h'⟩ := h.append hoffset hvalid hmaster haction _
    refine ⟨order', h', ?_⟩
    have hthread : thread ∈ Finset.range (K.numBlocks frameSize) ×ˢ (Finset.univ : Finset (Fin frameSize)) :=
      Finset.mem_product.mpr ⟨Finset.mem_range.mpr (h.chunk _ _ hoffset).1, Finset.mem_univ _⟩
    have hless : ∑ t ∈ Finset.range (K.numBlocks frameSize) ×ˢ Finset.univ, (Function.update s.phase thread phase' t).left <
        ∑ t ∈ Finset.range (K.numBlocks frameSize) ×ˢ Finset.univ, (s.phase t).left := by
      have hleft := haction.left
      refine Finset.sum_lt_sum (fun t _ => ?_) ⟨thread, hthread, by rw [Function.update_self]; omega⟩
      rcases eq_or_ne t thread with rfl | hne
      · rw [Function.update_self]
        omega
      · rw [Function.update_of_ne hne]
    simp only [left]
    omega
  | @copy thread offset hoffset hvalid hsync m hm p hp hnew =>
    have h' := h.copy hinput hoffset hvalid hsync hm hp hnew
    refine ⟨order, h', ?_⟩
    have hle := h'.card_copied_le
    have hcard := Finset.card_insert_of_notMem hnew
    simp only [left] at hle ⊢
    omega

/-- What is done when no thread can go on. -/
structure Done (K : SplitIntoListOfFrames DIM B) (s : State DIM frameSize B) : Prop where
  taken : ∀ b < K.numBlocks frameSize, ∃ o, s.sharedSrcParticleOffset b = some o
  phase : ∀ t, s.phase t = .idle ∨ ∃ p, s.phase t = .linked p
  copied : ∀ t o, s.sharedSrcParticleOffset t.1 = some o → K.hasValidParticle o t.2 → t ∈ s.copied

theorem Inv.done (h : K.Inv L box s order) (hinput : K.Input frameSize) (hterminal : (K.system box).Terminal s) : K.Done s := by
  have hlinked : ∀ t o, s.sharedSrcParticleOffset t.1 = some o → K.hasValidParticle o t.2 → K.vThreadMasterIdx o t.2 = t.2 →
      ∃ p, s.phase t = .linked p := by
    intro t o ho hvalid hmaster
    rcases exists_action .first (K.superCell (K.particleOf s.sharedSrcParticleOffset t)) s.box (s.phase t) with
      hdone | ⟨box', phase', haction⟩
    · exact hdone
    · exact absurd (Step.append ho hvalid hmaster haction) (hterminal _)
  refine ⟨fun b hb => ?_, fun t => ?_, fun t o ho hvalid => ?_⟩
  · rcases hnone : s.sharedSrcParticleOffset b with _ | o
    · exact absurd (Step.apply hb hnone) (hterminal _)
    · exact ⟨o, rfl⟩
  · by_cases hidle : s.phase t = .idle
    · exact Or.inl hidle
    · obtain ⟨o, ho, hvalid, hmaster⟩ := h.started t hidle
      exact Or.inr (hlinked t o ho hvalid hmaster)
  · by_contra hnew
    obtain ⟨k, hk, rfl⟩ := h.chunk_lt ho
    obtain ⟨m, hm, hvalidm, hmasterm, -⟩ := hinput.master hk t.2 hvalid
    obtain ⟨p, hp⟩ := hlinked (t.1, m) _ ho hvalidm hmasterm
    exact hterminal _ (Step.copy ho hvalid (fun j hj hj' => hlinked (t.1, j) _ ho hj hj') hm hp hnew)

/-- The number of a thread's particle. -/
def number (offset : ℕ → Option ℤ) (t : Thread frameSize) : ℕ := ((offset t.1).getD 0).toNat + t.2

/-- **The threads that have copied are the particles of the source.** -/
theorem Inv.bijOn_number (h : K.Inv L box s order) (hinput : K.Input frameSize) (hdone : K.Done s) :
    Set.BijOn (number s.sharedSrcParticleOffset : Thread frameSize → ℕ) (s.copied : Set (Thread frameSize))
      (Finset.range K.numParticles : Set ℕ) := by
  have hnumber : ∀ t ∈ s.copied, ∃ k < K.numBlocks frameSize, s.sharedSrcParticleOffset t.1 = some ((k * frameSize : ℕ) : ℤ) ∧
      number s.sharedSrcParticleOffset t = k * frameSize + t.2 ∧ k * frameSize + t.2 < K.numParticles := by
    intro t ht
    obtain ⟨o, ho, hvalid⟩ := h.copied t ht
    obtain ⟨k, hk, rfl⟩ := h.chunk_lt ho
    exact ⟨k, hk, ho, by rw [number, ho]; rfl, (hinput.valid_iff hk t.2).mp hvalid⟩
  refine ⟨fun t ht => ?_, fun t ht t' ht' heq => ?_, fun i hi => ?_⟩
  · obtain ⟨k, -, -, hk, hlt⟩ := hnumber t ht
    rw [hk]
    exact Finset.mem_coe.mpr (Finset.mem_range.mpr hlt)
  · obtain ⟨k, -, ho, hk, -⟩ := hnumber t ht
    obtain ⟨k', -, ho', hk', -⟩ := hnumber t' ht'
    rw [hk, hk'] at heq
    have hdiv := congrArg (· / frameSize) heq
    have hmod := congrArg (· % frameSize) heq
    simp only [Nat.mul_comm _ frameSize, Nat.mul_add_div hinput.pos, Nat.div_eq_of_lt (Fin.isLt _), add_zero,
      Nat.mul_add_mod, Nat.mod_eq_of_lt (Fin.isLt _)] at hdiv hmod
    rw [hdiv] at ho
    exact Prod.ext (h.distinct _ _ _ ho ho') (Fin.ext hmod)
  · have hi' : i < K.numParticles := Finset.mem_range.mp (Finset.mem_coe.mp hi)
    have hceil : K.numParticles ≤ K.numBlocks frameSize * frameSize := by
      have hdiv := Nat.div_add_mod (K.numParticles + frameSize - 1) frameSize
      have hmod := Nat.mod_lt (K.numParticles + frameSize - 1) hinput.pos
      have hpos := hinput.pos
      rw [numBlocks, Nat.mul_comm]
      omega
    -- every chunk has a block
    choose! chunk hchunk using fun b (hb : b < K.numBlocks frameSize) => hdone.taken b hb
    have hsurj : ∃ b ∈ Finset.range (K.numBlocks frameSize), (chunk b).toNat / frameSize = i / frameSize := by
      refine Finset.surj_on_of_inj_on_of_card_le (s := Finset.range (K.numBlocks frameSize))
        (t := Finset.range (K.numBlocks frameSize)) (fun b _ => (chunk b).toNat / frameSize) ?_ ?_ le_rfl _ ?_ |>.imp
        fun b hb => ⟨hb.choose, hb.choose_spec.symm⟩
      · intro b hb
        obtain ⟨k, hk, hko⟩ := h.chunk_lt (hchunk b (Finset.mem_range.mp hb))
        rw [hko, Int.toNat_natCast, Nat.mul_div_cancel _ hinput.pos]
        exact Finset.mem_range.mpr hk
      · intro b b' hb hb' heq
        obtain ⟨k, hk, hko⟩ := h.chunk_lt (hchunk b (Finset.mem_range.mp hb))
        obtain ⟨k', hk', hko'⟩ := h.chunk_lt (hchunk b' (Finset.mem_range.mp hb'))
        rw [hko, hko', Int.toNat_natCast, Int.toNat_natCast, Nat.mul_div_cancel _ hinput.pos,
          Nat.mul_div_cancel _ hinput.pos] at heq
        refine h.distinct b b' _ (hchunk b (Finset.mem_range.mp hb)) ?_
        rw [hchunk b' (Finset.mem_range.mp hb'), hko, hko', heq]
      · exact Finset.mem_range.mpr ((Nat.div_lt_iff_lt_mul hinput.pos).mpr (hi'.trans_le hceil))
    obtain ⟨b, hb, hdiv⟩ := hsurj
    have ho := hchunk b (Finset.mem_range.mp hb)
    obtain ⟨k, hk, hko⟩ := h.chunk_lt ho
    rw [hko, Int.toNat_natCast, Nat.mul_div_cancel _ hinput.pos] at hdiv
    rw [hko] at ho
    have hi'' : k * frameSize + i % frameSize = i := by rw [hdiv, Nat.div_add_mod']
    refine ⟨(b, ⟨i % frameSize, Nat.mod_lt _ hinput.pos⟩), ?_, ?_⟩
    · refine hdone.copied _ _ ho ((hinput.valid_iff hk _).mpr ?_)
      dsimp only
      rwa [hi'']
    · rw [number]
      dsimp only
      rw [ho]
      exact hi''

end Runs

/-- **Every run of the kernel ends**, whatever blocks get which particles, in whatever order the frames are
put into the lists.  Then every particle of the source is in a slot of its own, in a frame of its supercell;
what was there before is there still, and the counter of the loaded particles is right. -/
theorem split_ends (K : SplitIntoListOfFrames DIM B) (hinput : K.Input frameSize)
    {box : ParticlesBox DIM frameSize (Attributes B)} {L : DataSpace DIM → List FramePtr} (hbox : box.Holds L)
    (hunmarked : ∀ c, ∀ p ∈ L c, Unmarked (box.frames p).slots) :
    (K.system box).Ends (start box) fun s => ∃ L', s.box.Holds L' ∧ (∀ c, ∀ p ∈ L' c, Unmarked (s.box.frames p).slots) ∧
      (∀ c, s.box.particles (L' c) = box.particles (L c) + ∑ i ∈ Finset.range K.numParticles,
        if K.superCell (K.srcFrame i) = c then {K.attributes (K.srcFrame i)} else 0) ∧ s.loaded = K.numParticles := by
  refine StepSystem.ends_of_variant (I := fun s n => ∃ order, K.Inv L box s order ∧ n = K.left s) ?_ ?_
    ⟨_, inv_start hbox hunmarked, rfl⟩
  · rintro s n ⟨order, h, rfl⟩ t hst
    obtain ⟨order', h', hlt⟩ := h.step hinput hst
    exact ⟨_, hlt, order', h', rfl⟩
  · rintro s n ⟨order, h, -⟩ hterminal
    have hdone := h.done hinput hterminal
    have hbij := h.bijOn_number hinput hdone
    refine ⟨_, h.appending.holds hdone.phase, fun c p hp => ?_, fun c => ?_, ?_⟩
    · rcases (h.appending.origin c p).mp (mem_orient.mp hp) with hbase | ⟨t, -, ht⟩
      · exact h.unmarked c p (mem_orient.mp hbase)
      · exact fun j => (h.slots t p (Phase.frame_of_listed ht) j).imp_right And.left
    · rw [ParticlesBox.particles_perm (orient_perm _ _), h.particles, added]
      refine congrArg (box.particles (L c) + ·) (Finset.sum_nbij _ (fun t ht => hbij.mapsTo ht) hbij.injOn hbij.surjOn
        fun t ht => ?_)
      obtain ⟨o, ho, -⟩ := h.copied t ht
      obtain ⟨k, hk, rfl⟩ := h.chunk_lt ho
      rw [particleOf, number, ho, Option.getD_some, hinput.srcParticleIdx_eq hk, Int.toNat_natCast]
    · rw [h.loaded, Finset.card_nbij _ (fun t ht => hbij.mapsTo ht) hbij.injOn hbij.surjOn, Finset.card_range]

end SplitIntoListOfFrames
end PmaccParticles
end Spearhed
