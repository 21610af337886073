import Mathlib.Data.Multiset.Range
import Spearhed.Library.StepSystem
import Spearhed.Mappings.DataSpaceOperations
import Spearhed.PmaccParticles.BlockWrites
import Spearhed.PmaccParticles.FrameSlots

/-!
# Guard particles into a stack

`KernelCopyGuardToExchange` and `ExchangePushDataBox::pushN`.  The block of a supercell goes through its
frames, from the last to the first.  For every frame it takes as many places of the stack as the frame has
particles, or as many as are left; then it tells the index table, copies the particles, and gives the frame
back, unless there were too few places.  The counter of the places is increased by one atomic operation and,
where that was too much, put back to the size of the stack by another one, while other blocks increase it.

* `chunkAt`, `slotParticles_takeChunk`: a frame is split into what is copied and what is left.
* `Running.step`: what every action keeps; `log` are the particles of the stack with their supercells.  The
  counter of the places is right, or too large, and then the stack is full.
* `copy_ends`: in the end the stack is full or the supercells are empty, and no particle is in both.
-/

namespace Spearhed
namespace PmaccParticles

open Library Mappings Mappings.DataSpaceOperations

variable {DIM frameSize : ℕ} {A : Type}

/-- Which particles of a stack belong to a supercell. -/
structure ExchangeMemoryIndex (DIM : ℕ) where
  superCell : DataSpace (DIM - 1)
  startIdx : ℕ
  count : ℕ

/-- The memory behind an `ExchangePushDataBox`; both counters are `vint_t`s. -/
structure ExchangeStack (DIM : ℕ) (A : Type) where
  data : ℕ → A
  particleCount : ℕ
  indexTable : ℕ → ExchangeMemoryIndex DIM
  indexCount : ℕ

/-- `StackExchangeBuffer::reset`. -/
def ExchangeStack.reset (stack : ExchangeStack DIM A) : ExchangeStack DIM A := { stack with particleCount := 0, indexCount := 0 }

namespace CopyGuardToExchange

/-! ## Records of particles with their supercells -/

theorem coe_eq_sum_getElem {α : Type} (l : List α) : (l : Multiset α) = ∑ k : Fin l.length, {l[k]} := by
  show _ = ∑ k : Fin l.length, {l[k.1]}
  rw [Fin.sum_univ_fun_getElem l fun a => ({a} : Multiset α), ← Multiset.sum_coe, ← Multiset.map_coe, Multiset.sum_map_singleton]

/-- The particles that come into a supercell, where `image` says where those of another one go. -/
def arriving (image : DataSpace DIM → DataSpace DIM) (c : DataSpace DIM) (records : Multiset (DataSpace DIM × A)) : Multiset A :=
  (records.map fun r => if image r.1 = c then {r.2} else 0).sum

section Arriving

variable (image : DataSpace DIM → DataSpace DIM) (c : DataSpace DIM)

@[simp] theorem arriving_zero : arriving image c (0 : Multiset (DataSpace DIM × A)) = 0 := rfl

@[simp] theorem arriving_add (records records' : Multiset (DataSpace DIM × A)) :
    arriving image c (records + records') = arriving image c records + arriving image c records' := by
  rw [arriving, Multiset.map_add, Multiset.sum_add, arriving, arriving]

theorem arriving_map_mk (d : DataSpace DIM) (particles : Multiset A) :
    arriving image c (particles.map (Prod.mk d)) = if image d = c then particles else 0 := by
  rw [arriving, Multiset.map_map]
  split
  · next h => simp [h]
  · next h => simp [h]

/-- Records are those of their supercells. -/
theorem eq_sum_arriving {blocks : Finset (DataSpace DIM)} {records : Multiset (DataSpace DIM × A)} (h : ∀ r ∈ records, r.1 ∈ blocks) :
    records = ∑ c ∈ blocks, (arriving id c records).map (Prod.mk c) := by
  induction records using Multiset.induction with
  | empty => exact (Finset.sum_eq_zero fun c _ => rfl).symm
  | cons r records ih =>
    have hr : ∑ c ∈ blocks, (if id r.1 = c then ({r.2} : Multiset A) else 0).map (Prod.mk c) = {r} := by
      rw [Finset.sum_eq_single r.1 (fun c _ hne => by simp [hne.symm])
        fun hnot => absurd (h r (Multiset.mem_cons_self r records)) hnot]
      simp
    have hcons : ∀ c, (arriving id c (r ::ₘ records)).map (Prod.mk c) =
        (if id r.1 = c then ({r.2} : Multiset A) else 0).map (Prod.mk c) + (arriving id c records).map (Prod.mk c) := fun c => by
      rw [arriving, Multiset.map_cons, Multiset.sum_cons, Multiset.map_add, ← arriving]
    rw [Finset.sum_congr rfl fun c _ => hcons c, Finset.sum_add_distrib, hr,
      ← ih fun r' hr' => h r' (Multiset.mem_cons_of_mem hr'), Multiset.singleton_add]

theorem arriving_sum (blocks : Finset (DataSpace DIM)) (particles : DataSpace DIM → Multiset A) :
    arriving image c (∑ d ∈ blocks, (particles d).map (Prod.mk d)) = ∑ d ∈ blocks, if image d = c then particles d else 0 := by
  induction blocks using Finset.cons_induction with
  | empty => rfl
  | cons d blocks hd ih => rw [Finset.sum_cons, Finset.sum_cons, arriving_add, arriving_map_mk, ih]

/-- The particle of a place, if it comes into the supercell. -/
def arrivingAt (log : List (DataSpace DIM × A)) (k : ℕ) : Multiset A :=
  (log[k]?.map fun r => if image r.1 = c then {r.2} else 0).getD 0

theorem arriving_log (log : List (DataSpace DIM × A)) :
    arriving image c log = ∑ k ∈ Finset.range log.length, arrivingAt image c log k := by
  rw [arriving, Multiset.map_coe, Multiset.sum_coe, ← Fin.sum_univ_fun_getElem, Finset.sum_range]
  refine Finset.sum_congr rfl fun k _ => ?_
  simp [arrivingAt]

end Arriving

/-! ## The particles of a frame -/

/-- What the threads of a frame got from the counter of their block. -/
structure PushNumbers (slots : Fin frameSize → Slot A) (exchangeGapIdx : Fin frameSize → ℕ) : Prop where
  particles : Numbers exchangeGapIdx (settled slots)
  others : ∀ i ∉ settled slots, exchangeGapIdx i = INV_LOC_IDX

/-- The thread of a slot copies its particle into a chunk of this size. -/
def copies (exchangeGapIdx : Fin frameSize → ℕ) (size : ℕ) (idx : Fin frameSize) : Bool :=
  decide (exchangeGapIdx idx ≠ INV_LOC_IDX ∧ exchangeGapIdx idx < size)

/-- What is copied to a place of the chunk. -/
def chunkAt (slots : Fin frameSize → Slot A) (exchangeGapIdx : Fin frameSize → ℕ) (size k : ℕ) : Option A :=
  ((List.finRange frameSize).find? fun idx => copies exchangeGapIdx size idx && exchangeGapIdx idx == k).map
    fun idx => (slots idx).attributes

/-- The chunk starts at `start`. -/
def writeChunk (data : ℕ → A) (start : ℕ) (slots : Fin frameSize → Slot A) (exchangeGapIdx : Fin frameSize → ℕ) (size : ℕ) : ℕ → A :=
  fun x => if start ≤ x then (chunkAt slots exchangeGapIdx size (x - start)).getD (data x) else data x

/-- The frame after the copies. -/
def takeChunk (slots : Fin frameSize → Slot A) (exchangeGapIdx : Fin frameSize → ℕ) (size : ℕ) : Fin frameSize → Slot A :=
  fun idx => if copies exchangeGapIdx size idx then { slots idx with multiMask := 0 } else slots idx

section Chunk

variable {slots : Fin frameSize → Slot A} {exchangeGapIdx : Fin frameSize → ℕ} {size k : ℕ} {i : Fin frameSize}

theorem Unmarked.takeChunk (h : Unmarked slots) (size : ℕ) : Unmarked (takeChunk slots exchangeGapIdx size) := fun i => by
  rw [CopyGuardToExchange.takeChunk]
  split
  · exact Or.inl rfl
  · exact h i

variable (h : PushNumbers slots exchangeGapIdx) (hF : frameSize ≤ INV_LOC_IDX)
include h hF

theorem copies_iff : copies exchangeGapIdx size i = true ↔ i ∈ settled slots ∧ exchangeGapIdx i < size := by
  rw [copies, decide_eq_true_iff]
  refine and_congr_left fun _ => ⟨fun hne => ?_, fun hi hinv => ?_⟩
  · by_contra hi
    exact hne (h.others i hi)
  · have hlt : exchangeGapIdx i < (settled slots).card := h.particles.mapsTo hi
    have hle := card_le_frameSize (settled slots)
    omega

theorem chunkAt_eq (hi : i ∈ settled slots) (hlt : exchangeGapIdx i < size) :
    chunkAt slots exchangeGapIdx size (exchangeGapIdx i) = some (slots i).attributes := by
  have hfind : (List.finRange frameSize).find? (fun j => copies exchangeGapIdx size j && exchangeGapIdx j == exchangeGapIdx i) =
      some i := by
    have hcopies : copies exchangeGapIdx size i = true := (copies_iff h hF).mpr ⟨hi, hlt⟩
    have hex : ((List.finRange frameSize).find? fun j => copies exchangeGapIdx size j && exchangeGapIdx j == exchangeGapIdx i).isSome :=
      List.find?_isSome.mpr ⟨i, List.mem_finRange i, by simp [hcopies]⟩
    obtain ⟨j, hj⟩ := Option.isSome_iff_exists.mp hex
    have hsome := List.find?_some hj
    rw [Bool.and_eq_true, beq_iff_eq, copies_iff h hF] at hsome
    rw [hj]
    exact congrArg some (h.particles.injOn hsome.1.1 hi hsome.2)
  rw [chunkAt, hfind]
  rfl

omit hF in
/-- Every place of the chunk is taken by one slot. -/
theorem exists_slot (hsize : size ≤ (settled slots).card) (hk : k < size) : ∃ i ∈ settled slots, exchangeGapIdx i = k :=
  h.particles.surjOn (show k < (settled slots).card by omega)

theorem chunkAt_isSome_iff (hsize : size ≤ (settled slots).card) : (∃ a, chunkAt slots exchangeGapIdx size k = some a) ↔ k < size := by
  refine ⟨?_, fun hk => ?_⟩
  · rintro ⟨a, ha⟩
    obtain ⟨j, hj, -⟩ := Option.map_eq_some_iff.mp ha
    have hsome := List.find?_some hj
    rw [Bool.and_eq_true, beq_iff_eq, copies_iff h hF] at hsome
    omega
  · obtain ⟨i, hi, rfl⟩ := exists_slot h hsize hk
    exact ⟨_, chunkAt_eq h hF hi hk⟩

/-- The places of a chunk, one after the other. -/
theorem exists_chunk (hsize : size ≤ (settled slots).card) :
    ∃ chunk : List A, chunk.length = size ∧ ∀ k, chunk[k]? = chunkAt slots exchangeGapIdx size k := by
  choose a ha using fun k : Fin size => (chunkAt_isSome_iff h hF hsize).mpr k.isLt
  refine ⟨List.ofFn a, List.length_ofFn, fun k => ?_⟩
  rcases Nat.lt_or_ge k size with hk | hk
  · rw [ha ⟨k, hk⟩, List.getElem?_eq_getElem (by rwa [List.length_ofFn]), List.getElem_ofFn]
  · rw [List.getElem?_eq_none (by rwa [List.length_ofFn]), eq_comm, Option.eq_none_iff_forall_ne_some]
    exact fun a' ha' => absurd ((chunkAt_isSome_iff h hF hsize).mp ⟨a', ha'⟩) (Nat.not_lt.mpr hk)

/-- The chunk has the particles that are copied. -/
theorem coe_chunk {chunk : List A} (hsize : size ≤ (settled slots).card) (hlength : chunk.length = size)
    (hchunk : ∀ k, chunk[k]? = chunkAt slots exchangeGapIdx size k) :
    (chunk : Multiset A) = ∑ i with copies exchangeGapIdx size i = true, {(slots i).attributes} := by
  have hmem : ∀ i ∈ Finset.univ.filter fun i => copies exchangeGapIdx size i = true,
      i ∈ settled slots ∧ exchangeGapIdx i < chunk.length := fun i hi => by
    rw [hlength]
    exact (copies_iff h hF).mp (Finset.mem_filter.mp hi).2
  rw [coe_eq_sum_getElem]
  refine (Finset.sum_bij (fun i hi => (⟨exchangeGapIdx i, (hmem i hi).2⟩ : Fin chunk.length)) (fun _ _ => Finset.mem_univ _)
    (fun i hi j hj hij => h.particles.injOn (hmem i hi).1 (hmem j hj).1 (Fin.mk.inj hij)) (fun k _ => ?_) fun i hi => ?_).symm
  · obtain ⟨i, hi, hik⟩ := exists_slot h hsize (k.isLt.trans_eq hlength)
    refine ⟨i, Finset.mem_filter.mpr ⟨Finset.mem_univ i, (copies_iff h hF).mpr ⟨hi, ?_⟩⟩, Fin.ext hik⟩
    rw [hik, ← hlength]
    exact k.isLt
  · obtain ⟨hi, hlt⟩ := hmem i hi
    have hget := hchunk (exchangeGapIdx i)
    rw [chunkAt_eq h hF hi (hlt.trans_eq hlength), List.getElem?_eq_getElem hlt] at hget
    exact congrArg _ (Option.some.inj hget).symm

/-- **A frame is split** into what is copied and what is left. -/
theorem slotParticles_takeChunk {chunk : List A} (hsize : size ≤ (settled slots).card) (hlength : chunk.length = size)
    (hchunk : ∀ k, chunk[k]? = chunkAt slots exchangeGapIdx size k) :
    slotParticles slots = (chunk : Multiset A) + slotParticles (takeChunk slots exchangeGapIdx size) := by
  rw [coe_chunk h hF hsize hlength hchunk, slotParticles, slotParticles, Finset.sum_filter, ← Finset.sum_add_distrib]
  refine Finset.sum_congr rfl fun i _ => ?_
  rw [takeChunk]
  by_cases hi : copies exchangeGapIdx size i = true
  · have hone : (slots i).multiMask = 1 := mem_settled.mp ((copies_iff h hF).mp hi).1
    simp [hi, hone]
  · simp [hi]

/-- Nothing is left where all of the particles are copied. -/
theorem slotParticles_takeChunk_all (hunmarked : Unmarked slots) :
    slotParticles (takeChunk slots exchangeGapIdx (settled slots).card) = 0 := by
  refine Finset.sum_eq_zero fun i _ => if_pos ?_
  rw [takeChunk]
  split
  · rfl
  · next hi =>
    by_contra hne
    have hmem := hunmarked.settled hne
    exact hi ((copies_iff h hF).mpr ⟨hmem, h.particles.mapsTo hmem⟩)

end Chunk

/-! ## The kernel -/

/-- Where the block of a supercell is. -/
inductive Pc (frameSize : ℕ)
  | start
  /-- At the head of the loop. -/
  | loop (frame : Option FramePtr) (allParticlesCopied : Bool)
  /-- In `pushN`, after the counter of the particles was increased. -/
  | added (frame : FramePtr) (exchangeGapIdx : Fin frameSize → ℕ) (numParticles oldSize : ℕ)
  /-- In `pushN`, before the index table is told. -/
  | push (frame : FramePtr) (exchangeGapIdx : Fin frameSize → ℕ) (numParticles oldSize count : ℕ)
  /-- With the chunk that `pushN` has returned. -/
  | copy (frame : FramePtr) (exchangeGapIdx : Fin frameSize → ℕ) (numParticles oldSize count : ℕ)
  | done

structure State (DIM frameSize : ℕ) (A : Type) where
  box : ParticlesBox DIM frameSize A
  stack : ExchangeStack DIM A
  pc : DataSpace DIM → Pc frameSize

end CopyGuardToExchange

/-- The arguments of the kernel. -/
structure CopyGuardToExchange where
  exchangeType : ℕ
  maxSize : ℕ

namespace CopyGuardToExchange

variable (K : CopyGuardToExchange) (c : DataSpace DIM)

section Kernel

variable [DataSpaceOperations DIM]

/-- The next action of the block of a supercell. -/
inductive Step : State DIM frameSize A → State DIM frameSize A → Prop
  | start {s : State DIM frameSize A} (hpc : s.pc c = .start) :
      Step s { s with pc := Function.update s.pc c (.loop (s.box.getLastFrame c) true) }
  /-- A frame without particles. -/
  | empty {s : State DIM frameSize A} {p : FramePtr} (hpc : s.pc c = .loop (some p) true)
      (hempty : settled (s.box.frames p).slots = ∅) :
      Step s { s with
        box := s.box.removeLastFrame c
        pc := Function.update s.pc c (.loop (s.box.getPreviousFrame p) true) }
  | add {s : State DIM frameSize A} {p : FramePtr} {exchangeGapIdx : Fin frameSize → ℕ} (hpc : s.pc c = .loop (some p) true)
      (hne : settled (s.box.frames p).slots ≠ ∅) (hnumbers : PushNumbers (s.box.frames p).slots exchangeGapIdx) :
      Step s { s with
        stack := { s.stack with particleCount := (s.stack.particleCount + (settled (s.box.frames p).slots).card) % 2 ^ 32 }
        pc := Function.update s.pc c
          (.added p exchangeGapIdx (settled (s.box.frames p).slots).card s.stack.particleCount) }
  | fits {s : State DIM frameSize A} {p : FramePtr} {exchangeGapIdx : Fin frameSize → ℕ} {numParticles oldSize : ℕ}
      (hpc : s.pc c = .added p exchangeGapIdx numParticles oldSize) (hle : (oldSize + numParticles) % 2 ^ 32 ≤ K.maxSize) :
      Step s { s with pc := Function.update s.pc c (.push p exchangeGapIdx numParticles oldSize numParticles) }
  /-- The counter is put back; a stack that was full before has no chunk. -/
  | putBack {s : State DIM frameSize A} {p : FramePtr} {exchangeGapIdx : Fin frameSize → ℕ} {numParticles oldSize : ℕ}
      (hpc : s.pc c = .added p exchangeGapIdx numParticles oldSize) (hlt : K.maxSize < (oldSize + numParticles) % 2 ^ 32) :
      Step s { s with
        stack := { s.stack with particleCount := K.maxSize }
        pc := Function.update s.pc c
          (if K.maxSize ≤ oldSize then .copy p exchangeGapIdx numParticles oldSize 0
          else .push p exchangeGapIdx numParticles oldSize (K.maxSize - oldSize)) }
  | push {s : State DIM frameSize A} {p : FramePtr} {exchangeGapIdx : Fin frameSize → ℕ} {numParticles oldSize count : ℕ}
      (hpc : s.pc c = .push p exchangeGapIdx numParticles oldSize count) :
      Step s { s with
        stack := { s.stack with
          indexTable := Function.update s.stack.indexTable s.stack.indexCount ⟨reduce c K.exchangeType, oldSize, count⟩
          indexCount := (s.stack.indexCount + 1) % 2 ^ 32 }
        pc := Function.update s.pc c (.copy p exchangeGapIdx numParticles oldSize count) }
  /-- All particles of the frame are copied, and it is given back. -/
  | copyAll {s : State DIM frameSize A} {p : FramePtr} {exchangeGapIdx : Fin frameSize → ℕ} {numParticles oldSize count : ℕ}
      (hpc : s.pc c = .copy p exchangeGapIdx numParticles oldSize count) (hle : numParticles ≤ count) :
      Step s
        { box := (s.box.setSlots p (takeChunk (s.box.frames p).slots exchangeGapIdx count)).removeLastFrame c
          stack := { s.stack with data := writeChunk s.stack.data oldSize (s.box.frames p).slots exchangeGapIdx count }
          pc := Function.update s.pc c (.loop (s.box.getPreviousFrame p) true) }
  | copySome {s : State DIM frameSize A} {p : FramePtr} {exchangeGapIdx : Fin frameSize → ℕ} {numParticles oldSize count : ℕ}
      (hpc : s.pc c = .copy p exchangeGapIdx numParticles oldSize count) (hlt : count < numParticles) :
      Step s
        { box := s.box.setSlots p (takeChunk (s.box.frames p).slots exchangeGapIdx count)
          stack := { s.stack with data := writeChunk s.stack.data oldSize (s.box.frames p).slots exchangeGapIdx count }
          pc := Function.update s.pc c (.loop (some p) false) }
  | leave {s : State DIM frameSize A} {frame : Option FramePtr} {allParticlesCopied : Bool}
      (hpc : s.pc c = .loop frame allParticlesCopied) (hleave : frame = none ∨ allParticlesCopied = false) :
      Step s { s with
        box := s.box.setNumParticles c 0
        pc := Function.update s.pc c .done }

/-- Before the kernel. -/
def start (box : ParticlesBox DIM frameSize A) (stack : ExchangeStack DIM A) : State DIM frameSize A := ⟨box, stack, fun _ => .start⟩

/-- The kernel with a block for each of these supercells. -/
def system (blocks : Finset (DataSpace DIM)) (s₀ : State DIM frameSize A) : StepSystem (State DIM frameSize A) where
  init s := s = s₀
  step s t := ∃ c ∈ blocks, K.Step c s t

/-! ## What is in the stack -/

/-- A part of the stack, and the supercell of its particles. -/
structure Entry (DIM : ℕ) where
  superCell : DataSpace DIM
  startIdx : ℕ
  count : ℕ

/-- The places of a part. -/
def places (startIdx count : ℕ) : Multiset ℕ := (Multiset.range count).map (startIdx + ·)

theorem mem_places {startIdx count k : ℕ} : k ∈ places startIdx count ↔ startIdx ≤ k ∧ k < startIdx + count := by
  rw [places, Multiset.mem_map]
  refine ⟨?_, fun hk => ⟨k - startIdx, Multiset.mem_range.mpr (by omega), by omega⟩⟩
  rintro ⟨j, hj, rfl⟩
  have hlt := Multiset.mem_range.mp hj
  omega

theorem places_add_range (n count : ℕ) : Multiset.range n + places n count = Multiset.range (n + count) := by
  rw [Multiset.range_add, places]

omit [DataSpaceOperations DIM] in
/-- **The entries share out the places**, so a sum over both is a sum over the places. -/
theorem sum_entries {N : Type} [AddCommMonoid N] {entries : List (Entry DIM)} {n : ℕ}
    (h : (entries.map fun entry => places entry.startIdx entry.count).sum = Multiset.range n) (f : ℕ → N) :
    ∑ k : Fin entries.length, ∑ i ∈ Finset.range entries[k].count, f (entries[k].startIdx + i) = ∑ i ∈ Finset.range n, f i := by
  have hplaces : ∀ entry : Entry DIM, ∑ i ∈ Finset.range entry.count, f (entry.startIdx + i) =
      ((places entry.startIdx entry.count).map f).sum := fun entry => by
    rw [places, Multiset.map_map]
    rfl
  have hsum : ∀ entries : List (Entry DIM), (entries.map fun entry => ((places entry.startIdx entry.count).map f).sum).sum =
      ((entries.map fun entry => places entry.startIdx entry.count).sum.map f).sum := by
    intro entries
    induction entries with
    | nil => rfl
    | cons entry entries ih => simp only [List.map_cons, List.sum_cons, Multiset.map_add, Multiset.sum_add, ih]
  show _ = ((Multiset.range n).map f).sum
  rw [← h, ← hsum, ← Fin.sum_univ_fun_getElem]
  exact Finset.sum_congr rfl fun k _ => hplaces _

/-- An entry stands for some of the particles of its supercell. -/
structure Entry.Of (frameSize : ℕ) (log : List (DataSpace DIM × A)) (entry : Entry DIM) : Prop where
  pos : 0 < entry.count
  le : entry.count ≤ frameSize
  superCell : ∀ k ∈ places entry.startIdx entry.count, ∃ a, log[k]? = some (entry.superCell, a)

/-- The entries of the index table. -/
structure Indexed (frameSize : ℕ) (stack : ExchangeStack DIM A) (log : List (DataSpace DIM × A)) (entries : List (Entry DIM)) : Prop where
  indexCount : stack.indexCount = entries.length
  indexTable : ∀ (k : ℕ) entry, entries[k]? = some entry →
    stack.indexTable k = ⟨reduce entry.superCell K.exchangeType, entry.startIdx, entry.count⟩
  entry : ∀ entry ∈ entries, entry.Of frameSize log

/-- **The particles of a stack**, with their supercells, and the entries that share out their places. -/
structure Stacked (frameSize : ℕ) (stack : ExchangeStack DIM A) (log : List (DataSpace DIM × A)) (entries : List (Entry DIM)) : Prop
    extends K.Indexed frameSize stack log entries where
  particleCount : stack.particleCount = log.length
  data : ∀ (k : ℕ) x, log[k]? = some x → stack.data k = x.2
  partition : (entries.map fun entry => places entry.startIdx entry.count).sum = Multiset.range log.length

end Kernel

/-! ## What a block has achieved -/

/-- A block has `count` places for the particles of the last frame of its supercell. -/
structure Chunk (box : ParticlesBox DIM frameSize A) (l : List FramePtr) (log : List (DataSpace DIM × A)) (p : FramePtr)
    (exchangeGapIdx : Fin frameSize → ℕ) (numParticles oldSize count : ℕ) (rest : Multiset A) (unpushed : ℕ) : Prop where
  list : ∃ front, l = front ++ [p]
  numParticles_eq : numParticles = (settled (box.frames p).slots).card
  numbers : PushNumbers (box.frames p).slots exchangeGapIdx
  count_le : count ≤ numParticles
  logged : ∀ k a, chunkAt (box.frames p).slots exchangeGapIdx count k = some a → log[oldSize + k]? = some (c, a)
  particles : ∃ chunk : List A, chunk.length = count ∧
    (∀ k, chunk[k]? = chunkAt (box.frames p).slots exchangeGapIdx count k) ∧ box.particles l = chunk + rest
  full : count < numParticles → K.maxSize ≤ log.length
  unpushed_eq : unpushed = if count < numParticles then 0 else rest.card

/-- How many places are left for a frame. -/
def space (numParticles oldSize : ℕ) : ℕ := min numParticles (K.maxSize - oldSize)

/-- Where a block is.  `rest` are the particles of its supercell that have no places, and `unpushed` how many of
them it will still ask places for. -/
inductive At (box : ParticlesBox DIM frameSize A) (l : List FramePtr) (log : List (DataSpace DIM × A)) :
    Pc frameSize → Multiset A → ℕ → Prop
  | start : At box l log .start (box.particles l) (box.particles l).card
  | loop : At box l log (.loop l.getLast? true) (box.particles l) (box.particles l).card
  | added {p : FramePtr} {exchangeGapIdx : Fin frameSize → ℕ} {numParticles oldSize : ℕ} {rest : Multiset A} {unpushed : ℕ}
      (h : K.Chunk c box l log p exchangeGapIdx numParticles oldSize (K.space numParticles oldSize) rest unpushed)
      (hpos : 0 < numParticles) (hlt : oldSize + numParticles < 2 ^ 32) :
      At box l log (.added p exchangeGapIdx numParticles oldSize) rest unpushed
  | push {p : FramePtr} {exchangeGapIdx : Fin frameSize → ℕ} {numParticles oldSize count : ℕ} {rest : Multiset A} {unpushed : ℕ}
      (h : K.Chunk c box l log p exchangeGapIdx numParticles oldSize count rest unpushed) (hpos : 0 < count) :
      At box l log (.push p exchangeGapIdx numParticles oldSize count) rest unpushed
  | copy {p : FramePtr} {exchangeGapIdx : Fin frameSize → ℕ} {numParticles oldSize count : ℕ} {rest : Multiset A} {unpushed : ℕ}
      (h : K.Chunk c box l log p exchangeGapIdx numParticles oldSize count rest unpushed) :
      At box l log (.copy p exchangeGapIdx numParticles oldSize count) rest unpushed
  | stop {frame : Option FramePtr} (hfull : K.maxSize ≤ log.length) : At box l log (.loop frame false) (box.particles l) 0
  | done (h : l = [] ∨ K.maxSize ≤ log.length) : At box l log .done (box.particles l) 0

/-- The places that a block has not told the index table of. -/
def untold : Pc frameSize → Multiset ℕ
  | .added _ _ numParticles oldSize => places oldSize (K.space numParticles oldSize)
  | .push _ _ _ oldSize count => places oldSize count
  | _ => 0

/-- The places that a block has not copied its particles to. -/
def owed : Pc frameSize → Multiset ℕ
  | .added _ _ numParticles oldSize => places oldSize (K.space numParticles oldSize)
  | .push _ _ _ oldSize count | .copy _ _ _ oldSize count => places oldSize count
  | _ => 0

/-- A block that has made the counter too large. -/
def overflows : Pc frameSize → Prop
  | .added _ _ numParticles oldSize => K.maxSize < oldSize + numParticles
  | _ => False

section Step

variable {K c} {box box' : ParticlesBox DIM frameSize A} {l : List FramePtr} {log log' : List (DataSpace DIM × A)} {pc : Pc frameSize}
  {rest : Multiset A} {unpushed : ℕ} {p : FramePtr} {exchangeGapIdx : Fin frameSize → ℕ} {numParticles oldSize count : ℕ}

theorem getElem?_mono {α : Type} {log log' : List α} (h : log <+: log') {k : ℕ} {x : α} (hk : log[k]? = some x) :
    log'[k]? = some x := by
  obtain ⟨new, rfl⟩ := h
  rw [List.getElem?_append_left (List.getElem?_eq_some_iff.mp hk).1, hk]

/-- A chunk stays what it is while others work. -/
theorem Chunk.congr (h : K.Chunk c box l log p exchangeGapIdx numParticles oldSize count rest unpushed)
    (hframes : ∀ q ∈ l, box'.frames q = box.frames q) (hlog : log <+: log') :
    K.Chunk c box' l log' p exchangeGapIdx numParticles oldSize count rest unpushed := by
  obtain ⟨front, hl⟩ := h.list
  have hp : box'.frames p = box.frames p := hframes p (hl ▸ List.mem_append_right _ (List.mem_singleton_self p))
  have hparticles : box'.particles l = box.particles l := ParticlesBox.particles_congr fun q hq => congrArg Frame.slots (hframes q hq)
  refine ⟨h.list, ?_, ?_, h.count_le, fun k a hk => ?_, ?_, fun hlt => (h.full hlt).trans hlog.length_le, h.unpushed_eq⟩
  · rw [hp]
    exact h.numParticles_eq
  · rw [hp]
    exact h.numbers
  · rw [hp] at hk
    exact getElem?_mono hlog (h.logged k a hk)
  · rw [hp, hparticles]
    exact h.particles

theorem At.congr (h : K.At c box l log pc rest unpushed) (hframes : ∀ q ∈ l, box'.frames q = box.frames q) (hlog : log <+: log') :
    K.At c box' l log' pc rest unpushed := by
  have hparticles : box'.particles l = box.particles l := ParticlesBox.particles_congr fun q hq => congrArg Frame.slots (hframes q hq)
  cases h with
  | start => exact hparticles ▸ At.start
  | loop => exact hparticles ▸ At.loop
  | added h hpos hlt => exact At.added (h.congr hframes hlog) hpos hlt
  | push h hpos => exact At.push (h.congr hframes hlog) hpos
  | copy h => exact At.copy (h.congr hframes hlog)
  | stop hfull => exact hparticles ▸ At.stop (hfull.trans hlog.length_le)
  | done h => exact hparticles ▸ At.done (h.imp_right fun hfull => hfull.trans hlog.length_le)

/-- Sums over the blocks, where one of them gives something to the outside. -/
theorem sum_trade {ι N : Type} [AddCommMonoid N] [DecidableEq ι] {blocks : Finset ι} {f g : ι → N} {c : ι} (hc : c ∈ blocks)
    (hother : ∀ d, d ≠ c → g d = f d) {x y : N} (hc' : y + g c = x + f c) :
    y + ∑ d ∈ blocks, g d = x + ∑ d ∈ blocks, f d := by
  rw [← Finset.add_sum_erase blocks g hc, ← Finset.add_sum_erase blocks f hc,
    Finset.sum_congr rfl fun d hd => hother d (Finset.ne_of_mem_erase hd), ← add_assoc, ← add_assoc, hc']

theorem card_settled_le (box : ParticlesBox DIM frameSize A) (front : List FramePtr) (p : FramePtr) :
    (settled (box.frames p).slots).card ≤ (box.particles (front ++ [p])).card := by
  rw [ParticlesBox.particles_append, ParticlesBox.particles_cons, ParticlesBox.particles_nil, add_zero, Multiset.card_add,
    card_slotParticles]
  refine Nat.le_add_left_of_le (Finset.card_le_card fun i hi => ?_)
  rw [live, Finset.mem_filter, mem_settled.mp hi]
  exact ⟨Finset.mem_univ i, one_ne_zero⟩

/-- What is left of a frame are the particles without places. -/
theorem Chunk.rest_eq {front : List FramePtr} (h : K.Chunk c box l log p exchangeGapIdx numParticles oldSize count rest unpushed)
    (hl : l = front ++ [p]) (hF : frameSize ≤ INV_LOC_IDX) :
    rest = box.particles front + slotParticles (takeChunk (box.frames p).slots exchangeGapIdx count) := by
  obtain ⟨chunk, hlength, hchunk, hparticles⟩ := h.particles
  rw [hl, ParticlesBox.particles_append, ParticlesBox.particles_cons, ParticlesBox.particles_nil, add_zero,
    slotParticles_takeChunk h.numbers hF (h.numParticles_eq ▸ h.count_le) hlength hchunk, add_left_comm] at hparticles
  exact (add_left_cancel hparticles).symm

/-- The copies write what has the places in the log, and nothing else. -/
theorem Chunk.writeChunk_eq (h : K.Chunk c box l log p exchangeGapIdx numParticles oldSize count rest unpushed)
    (hF : frameSize ≤ INV_LOC_IDX) {data : ℕ → A} {k : ℕ} {x : DataSpace DIM × A} (hk : log[k]? = some x)
    (hdata : k ∈ places oldSize count ∨ data k = x.2) :
    writeChunk data oldSize (box.frames p).slots exchangeGapIdx count k = x.2 := by
  have hsome := chunkAt_isSome_iff h.numbers hF (k := k - oldSize) (h.numParticles_eq ▸ h.count_le)
  rw [writeChunk]
  split
  · next hge =>
    rcases hat : chunkAt (box.frames p).slots exchangeGapIdx count (k - oldSize) with _ | a
    · refine hdata.resolve_left fun hmem => ?_
      have hlt := (mem_places.mp hmem).2
      obtain ⟨a, ha⟩ := hsome.mpr (by omega)
      exact Option.some_ne_none a (ha.symm.trans hat)
    · have hplace := h.logged _ a hat
      rw [Nat.add_sub_cancel' hge, hk] at hplace
      rw [Option.some.inj hplace]
      rfl
  · next hlt => exact hdata.resolve_left fun hmem => hlt (mem_places.mp hmem).1

/-! ### Where a block is -/

theorem At.of_start (h : K.At c box l log .start rest unpushed) : rest = box.particles l ∧ unpushed = (box.particles l).card := by
  cases h
  exact ⟨rfl, rfl⟩

theorem At.of_loop {frame : Option FramePtr} (h : K.At c box l log (.loop frame true) rest unpushed) :
    frame = l.getLast? ∧ rest = box.particles l ∧ unpushed = (box.particles l).card := by
  cases h
  exact ⟨rfl, rfl, rfl⟩

theorem At.of_added (h : K.At c box l log (.added p exchangeGapIdx numParticles oldSize) rest unpushed) :
    K.Chunk c box l log p exchangeGapIdx numParticles oldSize (K.space numParticles oldSize) rest unpushed ∧ 0 < numParticles ∧
      oldSize + numParticles < 2 ^ 32 := by
  cases h with
  | added h hpos hlt => exact ⟨h, hpos, hlt⟩

theorem At.of_push (h : K.At c box l log (.push p exchangeGapIdx numParticles oldSize count) rest unpushed) :
    K.Chunk c box l log p exchangeGapIdx numParticles oldSize count rest unpushed ∧ 0 < count := by
  cases h with
  | push h hpos => exact ⟨h, hpos⟩

theorem At.of_copy (h : K.At c box l log (.copy p exchangeGapIdx numParticles oldSize count) rest unpushed) :
    K.Chunk c box l log p exchangeGapIdx numParticles oldSize count rest unpushed := by
  cases h with
  | copy h => exact h

/-- A block that leaves the loop. -/
theorem At.of_leave {frame : Option FramePtr} {allParticlesCopied : Bool}
    (h : K.At c box l log (.loop frame allParticlesCopied) rest unpushed) (hleave : frame = none ∨ allParticlesCopied = false) :
    rest = box.particles l ∧ unpushed = 0 ∧ (l = [] ∨ K.maxSize ≤ log.length) := by
  cases h with
  | loop =>
    rcases hleave with hnone | hfalse
    · rw [List.getLast?_eq_none_iff] at hnone
      subst hnone
      exact ⟨rfl, rfl, Or.inl rfl⟩
    · exact absurd hfalse Bool.true_eq_false.mp
  | stop hfull => exact ⟨rfl, rfl, Or.inr hfull⟩

theorem At.of_done (h : K.At c box l log .done rest unpushed) :
    rest = box.particles l ∧ (l = [] ∨ K.maxSize ≤ log.length) := by
  cases h with
  | done h => exact ⟨rfl, h⟩

end Step

/-! ## Whole runs -/

section Runs

variable [DataSpaceOperations DIM]

/-- What holds while the blocks run: `log` are the particles that have places, in the order of these. -/
structure Running (blocks : Finset (DataSpace DIM)) (L : DataSpace DIM → List FramePtr) (box : ParticlesBox DIM frameSize A)
    (s : State DIM frameSize A) (L' : DataSpace DIM → List FramePtr) (log : List (DataSpace DIM × A)) (entries : List (Entry DIM))
    (rest : DataSpace DIM → Multiset A) (unpushed : DataSpace DIM → ℕ) : Prop where
  framed : Framed blocks L box L' s.box
  unmarked : ∀ c ∈ blocks, ∀ p ∈ L' c, Unmarked (s.box.frames p).slots
  place : ∀ c ∈ blocks, K.At c s.box (L' c) log (s.pc c) (rest c) (unpushed c)
  indexed : K.Indexed frameSize s.stack log entries
  length_le : log.length ≤ K.maxSize
  records : (log : Multiset (DataSpace DIM × A)) + ∑ c ∈ blocks, (rest c).map (Prod.mk c) =
    ∑ c ∈ blocks, (box.particles (L c)).map (Prod.mk c)
  /-- The counter is right, or a block is about to put it back. -/
  counter : s.stack.particleCount = log.length ∨
    log.length = K.maxSize ∧ K.maxSize ≤ s.stack.particleCount ∧ ∃ c ∈ blocks, K.overflows (s.pc c)
  bound : s.stack.particleCount + ∑ c ∈ blocks, unpushed c ≤ K.maxSize + ∑ c ∈ blocks, (box.particles (L c)).card
  data : ∀ (k : ℕ) x, log[k]? = some x → s.stack.data k = x.2 ∨ ∃ c ∈ blocks, k ∈ K.owed (s.pc c)
  partition : (entries.map fun entry => places entry.startIdx entry.count).sum + ∑ c ∈ blocks, K.untold (s.pc c) =
    Multiset.range log.length

variable {K c} {blocks : Finset (DataSpace DIM)} {L L' : DataSpace DIM → List FramePtr} {box : ParticlesBox DIM frameSize A}
  {s t : State DIM frameSize A} {log log' : List (DataSpace DIM × A)} {entries entries' : List (Entry DIM)}
  {rest : DataSpace DIM → Multiset A} {unpushed : DataSpace DIM → ℕ}

theorem Indexed.append {stack : ExchangeStack DIM A} (h : K.Indexed frameSize stack log entries)
    (hlog : log <+: log') : K.Indexed frameSize stack log' entries :=
  ⟨h.indexCount, h.indexTable, fun entry hentry => ⟨(h.entry entry hentry).pos, (h.entry entry hentry).le, fun k hk =>
    ((h.entry entry hentry).superCell k hk).imp fun _ ha => getElem?_mono hlog ha⟩⟩

/-- **A step of one block**, from what it does to its own part. -/
theorem Running.update (h : K.Running blocks L box s L' log entries rest unpushed) (hc : c ∈ blocks) {pc : Pc frameSize}
    (hpc : t.pc = Function.update s.pc c pc) {l : List FramePtr} (hholds : t.box.Holds (Function.update L' c l)) (hsub : l <+: L' c)
    (hlocal : Local c (L' c) l s.box t.box) (hunmarked : ∀ p ∈ l, Unmarked (t.box.frames p).slots) (hlog : log <+: log')
    (hindexed : K.Indexed frameSize t.stack log' entries') (hlength : log'.length ≤ K.maxSize) {r : Multiset A} {u : ℕ}
    (hplace : K.At c t.box l log' pc r u)
    (hrecords : (log' : Multiset (DataSpace DIM × A)) + r.map (Prod.mk c) = log + (rest c).map (Prod.mk c))
    (hcounter : t.stack.particleCount = log'.length ∨
      log'.length = K.maxSize ∧ K.maxSize ≤ t.stack.particleCount ∧ ∃ d ∈ blocks, K.overflows (t.pc d))
    (hbound : t.stack.particleCount + u ≤ s.stack.particleCount + unpushed c)
    (hkept : ∀ (k : ℕ) x, log[k]? = some x → s.stack.data k = x.2 → t.stack.data k = x.2)
    (howed : ∀ (k : ℕ) x, log[k]? = some x → k ∈ K.owed (s.pc c) → k ∈ K.owed pc ∨ t.stack.data k = x.2)
    (hnew : ∀ k, log.length ≤ k → k < log'.length → k ∈ K.owed pc)
    (hpartition : (entries'.map fun entry => places entry.startIdx entry.count).sum + Multiset.range log.length + K.untold pc =
      (entries.map fun entry => places entry.startIdx entry.count).sum + Multiset.range log'.length + K.untold (s.pc c)) :
    K.Running blocks L box t (Function.update L' c l) log' entries' (Function.update rest c r) (Function.update unpushed c u) where
  framed := h.framed.step hc hholds hsub hlocal
  unmarked d hd p hp := by
    rcases eq_or_ne d c with rfl | hne
    · rw [Function.update_self] at hp
      exact hunmarked p hp
    · rw [Function.update_of_ne hne] at hp
      rw [hlocal.frames_of_ne h.framed.holds hne hp]
      exact h.unmarked d hd p hp
  place d hd := by
    rw [hpc]
    rcases eq_or_ne d c with rfl | hne
    · rw [Function.update_self, Function.update_self, Function.update_self, Function.update_self]
      exact hplace
    · rw [Function.update_of_ne hne, Function.update_of_ne hne, Function.update_of_ne hne, Function.update_of_ne hne]
      exact (h.place d hd).congr (fun q hq => hlocal.frames_of_ne h.framed.holds hne hq) hlog
  indexed := hindexed
  length_le := hlength
  records := by
    rw [← h.records]
    refine sum_trade hc (fun d hd => ?_) ?_
    · rw [Function.update_of_ne hd]
    · rw [Function.update_self]
      exact hrecords
  counter := hcounter
  bound := by
    have hsum := sum_trade (f := unpushed) (g := Function.update unpushed c u) hc (fun d hd => Function.update_of_ne hd _ _)
      (x := u) (y := unpushed c) (by rw [Function.update_self, add_comm])
    have hle := h.bound
    omega
  data k x hk := by
    rw [hpc]
    rcases Nat.lt_or_ge k log.length with hlt | hge
    · have hold : log[k]? = some x := by
        obtain ⟨new, rfl⟩ := hlog
        rwa [List.getElem?_append_left hlt] at hk
      rcases h.data k x hold with hdone | ⟨d, hd, hmem⟩
      · exact Or.inl (hkept k x hold hdone)
      · rcases eq_or_ne d c with rfl | hne
        · refine (howed k x hold hmem).symm.imp_right fun hmem' => ⟨d, hd, ?_⟩
          rwa [Function.update_self]
        · refine Or.inr ⟨d, hd, ?_⟩
          rwa [Function.update_of_ne hne]
    · refine Or.inr ⟨c, hc, ?_⟩
      rw [Function.update_self]
      exact hnew k hge (List.getElem?_eq_some_iff.mp hk).1
  partition := by
    have hsum := sum_trade (f := fun d => K.untold (s.pc d)) (g := fun d => K.untold (t.pc d)) hc
      (fun d hd => by rw [hpc, Function.update_of_ne hd])
      (x := (entries.map fun entry => places entry.startIdx entry.count).sum + Multiset.range log'.length)
      (y := (entries'.map fun entry => places entry.startIdx entry.count).sum + Multiset.range log.length)
      (by rw [hpc, Function.update_self]; exact hpartition)
    have hold := h.partition
    rw [add_right_comm, add_right_comm (entries.map fun entry => places entry.startIdx entry.count).sum, hold] at hsum
    rw [add_comm (Multiset.range log.length)] at hsum
    exact add_right_cancel hsum

/-- The actions that the block of a supercell with so many frames has left. -/
def left (length : ℕ) : Pc frameSize → ℕ
  | .start => 5 * length + 3
  | .loop _ true => 5 * length + 2
  | .added .. => 5 * length + 1
  | .push .. => 5 * length
  | .copy .. => 5 * length - 1
  | .loop _ false => 1
  | .done => 0

/-- The counter is as right as it was. -/
theorem Running.counter_of_eq (h : K.Running blocks L box s L' log entries rest unpushed) {pc : Pc frameSize}
    (hpc : t.pc = Function.update s.pc c pc) (hnot : ¬ K.overflows (s.pc c))
    (hcount : t.stack.particleCount = s.stack.particleCount) : t.stack.particleCount = log.length ∨
      log.length = K.maxSize ∧ K.maxSize ≤ t.stack.particleCount ∧ ∃ d ∈ blocks, K.overflows (t.pc d) := by
  rw [hcount]
  refine h.counter.imp_right fun ⟨hfull, hle, d, hd, hover⟩ => ⟨hfull, hle, d, hd, ?_⟩
  have hne : d ≠ c := fun heq => hnot (heq ▸ hover)
  rwa [hpc, Function.update_of_ne hne]

/-- A step that leaves the stack alone. -/
theorem Running.quiet (h : K.Running blocks L box s L' log entries rest unpushed) (hc : c ∈ blocks)
    {box' : ParticlesBox DIM frameSize A} {pc : Pc frameSize} {l : List FramePtr} (hholds : box'.Holds (Function.update L' c l))
    (hsub : l <+: L' c) (hlocal : Local c (L' c) l s.box box') (hunmarked : ∀ p ∈ l, Unmarked (box'.frames p).slots) {u : ℕ}
    (hplace : K.At c box' l log pc (rest c) u) (hu : u ≤ unpushed c) (hnot : ¬ K.overflows (s.pc c)) (howed : K.owed pc = K.owed (s.pc c))
    (huntold : K.untold pc = K.untold (s.pc c)) :
    K.Running blocks L box ⟨box', s.stack, Function.update s.pc c pc⟩ (Function.update L' c l) log entries
      (Function.update rest c (rest c)) (Function.update unpushed c u) :=
  h.update (t := ⟨box', s.stack, Function.update s.pc c pc⟩) hc rfl hholds hsub hlocal hunmarked (List.prefix_refl log) h.indexed
    h.length_le hplace rfl (h.counter_of_eq rfl hnot rfl) (Nat.add_le_add_left hu _) (fun _ _ _ hk => hk)
    (fun _ _ _ hk => Or.inl (howed ▸ hk)) (fun _ hge hlt => absurd hlt (Nat.not_lt.mpr hge)) (by rw [huntold])

variable {p : FramePtr} {exchangeGapIdx : Fin frameSize → ℕ} {numParticles oldSize count : ℕ}

/-- **A block asks for places.** -/
theorem Running.add (h : K.Running blocks L box s L' log entries rest unpushed) (hc : c ∈ blocks) (hF : frameSize ≤ INV_LOC_IDX)
    (hN : K.maxSize + ∑ c ∈ blocks, (box.particles (L c)).card < 2 ^ 32) (hpc : s.pc c = .loop (some p) true)
    (hne : settled (s.box.frames p).slots ≠ ∅) (hnumbers : PushNumbers (s.box.frames p).slots exchangeGapIdx) :
    ∃ log' r u, K.Running blocks L box { s with
        stack := { s.stack with particleCount := (s.stack.particleCount + (settled (s.box.frames p).slots).card) % 2 ^ 32 }
        pc := Function.update s.pc c (.added p exchangeGapIdx (settled (s.box.frames p).slots).card s.stack.particleCount) }
      (Function.update L' c (L' c)) log' entries (Function.update rest c r) (Function.update unpushed c u) := by
  have hplace := h.place c hc
  rw [hpc] at hplace
  obtain ⟨hlast, hrest, hunpushed⟩ := hplace.of_loop
  obtain ⟨front, hl⟩ := List.getLast?_eq_some_iff.mp hlast.symm
  set m := (settled (s.box.frames p).slots).card with hm
  set old := s.stack.particleCount with hold
  have hmpos : 0 < m := Finset.card_pos.mpr (Finset.nonempty_iff_ne_empty.mpr hne)
  have hspace : K.space m old ≤ m := Nat.min_le_left _ _
  obtain ⟨chunk, hlength, hchunk⟩ := exists_chunk hnumbers hF hspace
  have hsplit := slotParticles_takeChunk hnumbers hF hspace hlength hchunk
  set r := s.box.particles front + slotParticles (takeChunk (s.box.frames p).slots exchangeGapIdx (K.space m old)) with hr
  have hparticles : s.box.particles (L' c) = chunk + r := by
    rw [hl, ParticlesBox.particles_append, ParticlesBox.particles_cons, ParticlesBox.particles_nil, add_zero, hsplit, hr]
    abel
  have hmle : m ≤ unpushed c := by
    rw [hunpushed, hl]
    exact card_settled_le s.box front p
  have hcard : unpushed c = K.space m old + r.card := by
    rw [hunpushed, hparticles, Multiset.card_add, Multiset.coe_card, hlength]
  have hbound : old + m < 2 ^ 32 := by
    have hle := h.bound
    have hsingle := Finset.single_le_sum (f := unpushed) (fun _ _ => Nat.zero_le _) hc
    omega
  have hmod : (old + m) % 2 ^ 32 = old + m := Nat.mod_eq_of_lt hbound
  have hlen : (log ++ chunk.map (Prod.mk c)).length = log.length + K.space m old := by
    rw [List.length_append, List.length_map, hlength]
  -- either the counter was right, or there was no place left
  have hcases : (old = log.length ∧ K.space m old = min m (K.maxSize - log.length)) ∨
      (log.length = K.maxSize ∧ K.maxSize ≤ old ∧ K.space m old = 0) := by
    rcases h.counter with heq | ⟨hfull, hle, -⟩
    · exact Or.inl ⟨heq, by rw [space, ← heq]⟩
    · exact Or.inr ⟨hfull, hle, by rw [space, Nat.sub_eq_zero_of_le hle, Nat.min_zero]⟩
  have hlengthle := h.length_le
  have hfull : K.space m old < m → K.maxSize ≤ (log ++ chunk.map (Prod.mk c)).length := fun hlt => by
    rw [hlen]
    omega
  refine ⟨log ++ chunk.map (Prod.mk c), r, if K.space m old < m then 0 else r.card, h.update (t := { s with
      stack := { s.stack with particleCount := (old + m) % 2 ^ 32 }
      pc := Function.update s.pc c (.added p exchangeGapIdx m old) }) hc rfl ?_ (List.prefix_refl _)
    Local.refl (h.unmarked c hc) (List.prefix_append _ _) ?_ ?_
    (At.added ⟨⟨front, hl⟩, rfl, hnumbers, hspace, fun k a hk => ?_, ⟨chunk, hlength, hchunk, hparticles⟩, hfull, rfl⟩ hmpos hbound)
    ?_ ?_ ?_ (fun k x _ hk => hk) (fun k x _ hk => ?_) (fun k hge hlt => ?_) ?_⟩
  · rw [Function.update_eq_self]
    exact h.framed.holds
  · exact ⟨h.indexed.indexCount, h.indexed.indexTable, (h.indexed.append (List.prefix_append _ _)).entry⟩
  · rw [hlen]
    omega
  · rw [← hchunk] at hk
    have hklt := (List.getElem?_eq_some_iff.mp hk).1
    rcases hcases with ⟨heq, -⟩ | ⟨-, -, hzero⟩
    · rw [heq, List.getElem?_append_right (Nat.le_add_right _ _), Nat.add_sub_cancel_left, List.getElem?_map, hk]
      rfl
    · omega
  · rw [hrest, hparticles, Multiset.map_add _ (chunk : Multiset A) r, ← Multiset.coe_add, Multiset.map_coe, add_assoc]
  · dsimp only
    rw [hmod, hlen]
    rcases Nat.lt_or_ge K.maxSize (old + m) with hover | hfits
    · refine Or.inr ⟨by omega, hover.le, c, hc, ?_⟩
      rw [Function.update_self]
      exact hover
    · exact Or.inl (by omega)
  · dsimp only
    rw [hmod]
    split <;> omega
  · rw [hpc] at hk
    exact absurd hk (Multiset.notMem_zero k)
  · rw [hlen] at hlt
    exact mem_places.mpr (by omega)
  · rw [hlen, hpc]
    show _ + _ + places old (K.space m old) = _ + _ + 0
    rw [add_zero, add_assoc]
    rcases hcases with ⟨heq, -⟩ | ⟨-, -, hzero⟩
    · rw [heq, places_add_range]
    · simp [hzero, places]

/-- **The counter is put back.** -/
theorem Running.putBack (h : K.Running blocks L box s L' log entries rest unpushed) (hc : c ∈ blocks)
    (hpc : s.pc c = .added p exchangeGapIdx numParticles oldSize) (hlt : K.maxSize < oldSize + numParticles) :
    K.Running blocks L box { s with
        stack := { s.stack with particleCount := K.maxSize }
        pc := Function.update s.pc c
          (if K.maxSize ≤ oldSize then .copy p exchangeGapIdx numParticles oldSize 0
          else .push p exchangeGapIdx numParticles oldSize (K.maxSize - oldSize)) }
      (Function.update L' c (L' c)) log entries (Function.update rest c (rest c)) (Function.update unpushed c (unpushed c)) := by
  have hplace := h.place c hc
  rw [hpc] at hplace
  obtain ⟨hchunk, hpos, -⟩ := hplace.of_added
  have hlengthle := h.length_le
  have hspacelt : K.space numParticles oldSize < numParticles := by
    rw [space]
    omega
  have hlength : log.length = K.maxSize := le_antisymm hlengthle (hchunk.full hspacelt)
  have hcount : K.maxSize ≤ s.stack.particleCount := by
    rcases h.counter with heq | ⟨-, hle, -⟩ <;> omega
  -- the places stay what they were
  have hsame : ∀ pc : Pc frameSize, pc = (if K.maxSize ≤ oldSize then .copy p exchangeGapIdx numParticles oldSize 0
      else .push p exchangeGapIdx numParticles oldSize (K.maxSize - oldSize)) →
      K.owed pc = K.owed (s.pc c) ∧ K.untold pc = K.untold (s.pc c) ∧ K.At c s.box (L' c) log pc (rest c) (unpushed c) := by
    rintro pc rfl
    rw [hpc]
    split
    · next hle =>
      have hzero : K.space numParticles oldSize = 0 := by
        rw [space]
        omega
      rw [hzero] at hchunk
      refine ⟨?_, ?_, At.copy hchunk⟩
      · show places oldSize 0 = places oldSize (K.space numParticles oldSize)
        rw [hzero]
      · show 0 = places oldSize (K.space numParticles oldSize)
        rw [hzero]
        rfl
    · next hle =>
      have heq : K.space numParticles oldSize = K.maxSize - oldSize := by
        rw [space]
        omega
      rw [heq] at hchunk
      refine ⟨?_, ?_, At.push hchunk (by omega)⟩ <;>
      · show places oldSize (K.maxSize - oldSize) = places oldSize (K.space numParticles oldSize)
        rw [heq]
  obtain ⟨howed, huntold, hat⟩ := hsame _ rfl
  refine h.update (t := { s with stack := { s.stack with particleCount := K.maxSize }, pc := _ }) hc rfl ?_
    (List.prefix_refl _) Local.refl (h.unmarked c hc) (List.prefix_refl log) ⟨h.indexed.indexCount, h.indexed.indexTable, h.indexed.entry⟩
    hlengthle hat rfl (Or.inl hlength.symm) (Nat.add_le_add_right hcount _) (fun k x _ hk => hk) (fun k x _ hk => Or.inl (howed ▸ hk))
    (fun k hge hlt => absurd hlt (Nat.not_lt.mpr hge)) (by rw [huntold])
  rw [Function.update_eq_self]
  exact h.framed.holds

/-- There are at most as many entries as places. -/
theorem length_entries_le (h : K.Running blocks L box s L' log entries rest unpushed) (hc : c ∈ blocks) :
    entries.length + (K.untold (s.pc c)).card ≤ log.length := by
  have hcard := congrArg Multiset.card h.partition
  rw [Multiset.card_add, Multiset.card_range, Multiset.card_sum] at hcard
  have hsingle := Finset.single_le_sum (f := fun d => (K.untold (s.pc d)).card) (fun _ _ => Nat.zero_le _) hc
  have hentries : ∀ l : List (Entry DIM), (∀ entry ∈ l, 0 < entry.count) →
      l.length ≤ (l.map fun entry => places entry.startIdx entry.count).sum.card := fun l hl => by
    induction l with
    | nil => exact Nat.zero_le _
    | cons entry l ih =>
      obtain ⟨hpos, hl⟩ := List.forall_mem_cons.mp hl
      rw [List.map_cons, List.sum_cons, Multiset.card_add, places, Multiset.card_map, Multiset.card_range, List.length_cons]
      have hle := ih hl
      omega
  have hle := hentries entries fun entry hentry => (h.indexed.entry entry hentry).pos
  omega

/-- **The index table is told.** -/
theorem Running.push (h : K.Running blocks L box s L' log entries rest unpushed) (hc : c ∈ blocks) (hmax : K.maxSize < 2 ^ 32)
    (hF : frameSize ≤ INV_LOC_IDX) (hpc : s.pc c = .push p exchangeGapIdx numParticles oldSize count) :
    K.Running blocks L box { s with
        stack := { s.stack with
          indexTable := Function.update s.stack.indexTable s.stack.indexCount ⟨reduce c K.exchangeType, oldSize, count⟩
          indexCount := (s.stack.indexCount + 1) % 2 ^ 32 }
        pc := Function.update s.pc c (.copy p exchangeGapIdx numParticles oldSize count) }
      (Function.update L' c (L' c)) log (entries ++ [⟨c, oldSize, count⟩]) (Function.update rest c (rest c))
      (Function.update unpushed c (unpushed c)) := by
  have hplace := h.place c hc
  rw [hpc] at hplace
  obtain ⟨hchunk, hpos⟩ := hplace.of_push
  have hentries := length_entries_le h hc
  have hlengthle := h.length_le
  have huntold : (K.untold (s.pc c)).card = count := by
    rw [hpc]
    show (places oldSize count).card = count
    rw [places, Multiset.card_map, Multiset.card_range]
  have hcountle : count ≤ (settled (s.box.frames p).slots).card := hchunk.numParticles_eq ▸ hchunk.count_le
  refine h.update (t := { s with
      stack := { s.stack with
        indexTable := Function.update s.stack.indexTable s.stack.indexCount ⟨reduce c K.exchangeType, oldSize, count⟩
        indexCount := (s.stack.indexCount + 1) % 2 ^ 32 }
      pc := Function.update s.pc c (.copy p exchangeGapIdx numParticles oldSize count) }) hc rfl ?_ (List.prefix_refl _)
    Local.refl (h.unmarked c hc) (List.prefix_refl log) ⟨?_, fun k entry hk => ?_, fun entry hentry => ?_⟩ hlengthle (At.copy hchunk) rfl
    (h.counter_of_eq (t := { s with
      stack := { s.stack with
        indexTable := Function.update s.stack.indexTable s.stack.indexCount ⟨reduce c K.exchangeType, oldSize, count⟩
        indexCount := (s.stack.indexCount + 1) % 2 ^ 32 }
      pc := Function.update s.pc c (.copy p exchangeGapIdx numParticles oldSize count) }) rfl (by rw [hpc]; exact not_false) rfl)
    le_rfl (fun k x _ hk => hk) (fun k x _ hk => Or.inl ?_) (fun k hge hlt => absurd hlt (Nat.not_lt.mpr hge)) ?_
  · rw [Function.update_eq_self]
    exact h.framed.holds
  · dsimp only
    rw [h.indexed.indexCount, List.length_append, List.length_singleton, Nat.mod_eq_of_lt (by omega)]
  · dsimp only
    rw [h.indexed.indexCount]
    rcases lt_trichotomy k entries.length with hklt | rfl | hkgt
    · rw [List.getElem?_append_left hklt] at hk
      rw [Function.update_of_ne hklt.ne]
      exact h.indexed.indexTable k entry hk
    · rw [List.getElem?_concat_length] at hk
      rw [← Option.some.inj hk, Function.update_self]
    · rw [List.getElem?_eq_none (by rw [List.length_append, List.length_singleton]; exact hkgt)] at hk
      exact absurd hk.symm (Option.some_ne_none entry)
  · rcases List.mem_append.mp hentry with hold | hnew
    · exact h.indexed.entry entry hold
    · obtain rfl := List.mem_singleton.mp hnew
      refine ⟨hpos, hcountle.trans (card_le_frameSize _), fun k hk => ?_⟩
      obtain ⟨hge, hlt⟩ : oldSize ≤ k ∧ k < oldSize + count := mem_places.mp hk
      obtain ⟨a, ha⟩ := (chunkAt_isSome_iff hchunk.numbers hF hcountle).mpr (show k - oldSize < count by omega)
      refine ⟨a, ?_⟩
      rw [← hchunk.logged _ a ha, Nat.add_sub_cancel' hge]
  · rw [hpc] at hk
    exact hk
  · rw [hpc, List.map_append, List.sum_append]
    show _ + (places oldSize count + 0) + _ + 0 = _ + _ + places oldSize count
    abel

/-- **All particles of a frame are copied**, and the frame is given back. -/
theorem Running.copyAll (h : K.Running blocks L box s L' log entries rest unpushed) (hc : c ∈ blocks) (hF : frameSize ≤ INV_LOC_IDX)
    (hpc : s.pc c = .copy p exchangeGapIdx numParticles oldSize count) (hle : numParticles ≤ count) :
    ∃ front, L' c = front ++ [p] ∧ K.Running blocks L box
      { box := (s.box.setSlots p (takeChunk (s.box.frames p).slots exchangeGapIdx count)).removeLastFrame c
        stack := { s.stack with data := writeChunk s.stack.data oldSize (s.box.frames p).slots exchangeGapIdx count }
        pc := Function.update s.pc c (.loop (s.box.getPreviousFrame p) true) }
      (Function.update L' c front) log entries (Function.update rest c (rest c)) (Function.update unpushed c (unpushed c)) := by
  have hplace := h.place c hc
  rw [hpc] at hplace
  have hchunk := hplace.of_copy
  obtain ⟨front, hl⟩ := hchunk.list
  have hcount : count = (settled (s.box.frames p).slots).card := by
    rw [← hchunk.numParticles_eq]
    exact le_antisymm hchunk.count_le hle
  have hpmem : p ∈ L' c := by
    rw [hl]
    exact List.mem_append_right _ (List.mem_singleton_self p)
  have hset := h.framed.holds.setSlots (p := p) (takeChunk (s.box.frames p).slots exchangeGapIdx count)
  have hremoved := hset.removeLastFrame c
  have hfront : (L' c).dropLast = front := by rw [hl, List.dropLast_concat]
  rw [hfront] at hremoved
  have hnodup := h.framed.holds.nodup c
  rw [hl] at hnodup
  have hnotMem : p ∉ front := fun hmem => (List.nodup_append.mp hnodup).2.2 p hmem p (List.mem_singleton_self p) rfl
  have hframes : ∀ q ∈ front, (((s.box.setSlots p (takeChunk (s.box.frames p).slots exchangeGapIdx count)).removeLastFrame c).frames
      q).slots = (s.box.frames q).slots := fun q hq => by
    have hne : q ≠ p := fun heq => hnotMem (heq ▸ hq)
    rw [ParticlesBox.removeLastFrame_slots, ParticlesBox.setSlots, ParticlesBox.setFrame_frames_of_ne _ hne]
  have hrest : rest c = ((s.box.setSlots p (takeChunk (s.box.frames p).slots exchangeGapIdx count)).removeLastFrame c).particles
      front := by
    rw [hchunk.rest_eq hl hF, ParticlesBox.particles_congr hframes, hcount, slotParticles_takeChunk_all hchunk.numbers hF
      (h.unmarked c hc p hpmem), add_zero]
  have hunpushed : unpushed c = (rest c).card := by
    rw [hchunk.unpushed_eq, if_neg (Nat.not_lt.mpr hle)]
  refine ⟨front, hl, h.update (t := ⟨(s.box.setSlots p (takeChunk (s.box.frames p).slots exchangeGapIdx count)).removeLastFrame c,
      { s.stack with data := writeChunk s.stack.data oldSize (s.box.frames p).slots exchangeGapIdx count },
      Function.update s.pc c (.loop (s.box.getPreviousFrame p) true)⟩) hc rfl hremoved (hl ▸ List.prefix_append _ _) ?_ (fun q hq => ?_) (List.prefix_refl log)
    ⟨h.indexed.indexCount, h.indexed.indexTable, h.indexed.entry⟩ h.length_le ?_ rfl
    ?_ le_rfl (fun k x hk hdone => hchunk.writeChunk_eq hF hk (Or.inr hdone))
    (fun k x hk hmem => Or.inr (hchunk.writeChunk_eq hF hk (Or.inl ?_))) (fun k hge hlt => absurd hlt (Nat.not_lt.mpr hge))
    (by rw [hpc]; rfl)⟩
  · have hdrop := Local.removeLastFrame hset (c := c) rfl
    rw [hfront] at hdrop
    exact (Local.setSlots hpmem _).trans hdrop (List.Subset.refl _) (hl ▸ List.subset_append_left _ _)
  · rw [hframes q hq]
    exact h.unmarked c hc q (hl ▸ List.mem_append_left _ hq)
  · rw [hunpushed, hrest, h.framed.holds.getPreviousFrame (by rw [hl] : L' c = front ++ p :: [])]
    exact At.loop
  · exact h.counter_of_eq rfl (by rw [hpc]; exact not_false) rfl
  · rw [hpc] at hmem
    exact hmem

/-- **Some particles of a frame are copied**, and the stack is full. -/
theorem Running.copySome (h : K.Running blocks L box s L' log entries rest unpushed) (hc : c ∈ blocks) (hF : frameSize ≤ INV_LOC_IDX)
    (hpc : s.pc c = .copy p exchangeGapIdx numParticles oldSize count) (hlt : count < numParticles) :
    L' c ≠ [] ∧ K.Running blocks L box
      { box := s.box.setSlots p (takeChunk (s.box.frames p).slots exchangeGapIdx count)
        stack := { s.stack with data := writeChunk s.stack.data oldSize (s.box.frames p).slots exchangeGapIdx count }
        pc := Function.update s.pc c (.loop (some p) false) }
      (Function.update L' c (L' c)) log entries (Function.update rest c (rest c)) (Function.update unpushed c 0) := by
  have hplace := h.place c hc
  rw [hpc] at hplace
  have hchunk := hplace.of_copy
  obtain ⟨front, hl⟩ := hchunk.list
  have hpmem : p ∈ L' c := by
    rw [hl]
    exact List.mem_append_right _ (List.mem_singleton_self p)
  have hnodup := h.framed.holds.nodup c
  rw [hl] at hnodup
  have hnotMem : p ∉ front := fun hmem => (List.nodup_append.mp hnodup).2.2 p hmem p (List.mem_singleton_self p) rfl
  have hrest : rest c = (s.box.setSlots p (takeChunk (s.box.frames p).slots exchangeGapIdx count)).particles (L' c) := by
    rw [hchunk.rest_eq hl hF, hl, ParticlesBox.particles_append, ParticlesBox.particles_cons, ParticlesBox.particles_nil, add_zero,
      ParticlesBox.particles_setSlots_of_notMem hnotMem, ParticlesBox.setSlots, ParticlesBox.setFrame_frames_self]
  refine ⟨fun hnil => absurd (hl.symm.trans hnil) (List.append_ne_nil_of_right_ne_nil _ (List.cons_ne_nil _ _)),
    h.update (t := ⟨s.box.setSlots p (takeChunk (s.box.frames p).slots exchangeGapIdx count),
      { s.stack with data := writeChunk s.stack.data oldSize (s.box.frames p).slots exchangeGapIdx count },
      Function.update s.pc c (.loop (some p) false)⟩) hc rfl ?_
    (List.prefix_refl _) (Local.setSlots hpmem _) (fun q hq => ?_) (List.prefix_refl log)
    ⟨h.indexed.indexCount, h.indexed.indexTable, h.indexed.entry⟩ h.length_le ?_ rfl
    ?_ (Nat.add_le_add_left (Nat.zero_le _) _)
    (fun k x hk hdone => hchunk.writeChunk_eq hF hk (Or.inr hdone))
    (fun k x hk hmem => Or.inr (hchunk.writeChunk_eq hF hk (Or.inl ?_))) (fun k hge hlt => absurd hlt (Nat.not_lt.mpr hge))
    (by rw [hpc]; rfl)⟩
  · rw [Function.update_eq_self]
    exact h.framed.holds.setSlots _
  · rcases eq_or_ne q p with rfl | hne
    · rw [ParticlesBox.setSlots, ParticlesBox.setFrame_frames_self]
      exact Unmarked.takeChunk (h.unmarked c hc q hq) _
    · rw [ParticlesBox.setSlots, ParticlesBox.setFrame_frames_of_ne _ hne]
      exact h.unmarked c hc q hq
  · rw [hrest]
    exact At.stop (hchunk.full hlt)
  · exact h.counter_of_eq rfl (by rw [hpc]; exact not_false) rfl
  · rw [hpc] at hmem
    exact hmem

/-- What is asked of the sizes. -/
structure Sizes (K : CopyGuardToExchange) (blocks : Finset (DataSpace DIM)) (L : DataSpace DIM → List FramePtr)
    (box : ParticlesBox DIM frameSize A) : Prop where
  frameSize_le : frameSize ≤ INV_LOC_IDX
  /-- The counter may stand for all of the particles besides a full stack. -/
  lt : K.maxSize + ∑ c ∈ blocks, (box.particles (L c)).card < 2 ^ 32

/-- **Every action keeps what the blocks have achieved**, and leaves less to do. -/
theorem Running.step (h : K.Running blocks L box s L' log entries rest unpushed) (hc : c ∈ blocks) (hsizes : Sizes K blocks L box)
    (hst : K.Step c s t) : ∃ l log' entries' r u pc,
      K.Running blocks L box t (Function.update L' c l) log' entries' (Function.update rest c r) (Function.update unpushed c u) ∧
      t.pc = Function.update s.pc c pc ∧ left l.length pc < left (L' c).length (s.pc c) := by
  have hself : s.box.Holds (Function.update L' c (L' c)) := by
    rw [Function.update_eq_self]
    exact h.framed.holds
  have hplace := h.place c hc
  cases hst with
  | start hpc =>
    rw [hpc] at hplace
    obtain ⟨hrest, hunpushed⟩ := hplace.of_start
    refine ⟨_, _, _, _, unpushed c, _, h.quiet hc hself (List.prefix_refl _) Local.refl (h.unmarked c hc) ?_ le_rfl
      (by rw [hpc]; exact not_false) (by rw [hpc]; rfl) (by rw [hpc]; rfl), rfl, by rw [hpc]; exact Nat.lt_succ_self _⟩
    rw [h.framed.holds.getLastFrame, hrest, hunpushed]
    exact At.loop
  | @empty p hpc hempty =>
    rw [hpc] at hplace
    obtain ⟨hlast, hrest, hunpushed⟩ := hplace.of_loop
    obtain ⟨front, hl⟩ := List.getLast?_eq_some_iff.mp hlast.symm
    have hfront : (L' c).dropLast = front := by rw [hl, List.dropLast_concat]
    have hremoved := h.framed.holds.removeLastFrame c
    have hlocal := Local.removeLastFrame h.framed.holds (c := c) rfl
    rw [hfront] at hremoved hlocal
    have hslots : slotParticles (s.box.frames p).slots = 0 := Multiset.card_eq_zero.mp (by
      rw [card_slotParticles, Finset.card_eq_zero, Finset.eq_empty_iff_forall_notMem]
      intro i hi
      have hmem := (h.unmarked c hc p (hl ▸ List.mem_append_right _ (List.mem_singleton_self p))).settled (Finset.mem_filter.mp hi).2
      exact absurd (hempty ▸ hmem) (Finset.notMem_empty i))
    have hparticles : (s.box.removeLastFrame c).particles front = s.box.particles (L' c) := by
      rw [hl, ParticlesBox.particles_append, ParticlesBox.particles_cons, ParticlesBox.particles_nil, hslots, add_zero, add_zero]
      exact ParticlesBox.particles_congr fun q _ => ParticlesBox.removeLastFrame_slots s.box c q
    refine ⟨front, _, _, _, unpushed c, _, h.quiet hc hremoved (hl ▸ List.prefix_append _ _) hlocal (fun q hq => ?_) ?_ le_rfl
      (by rw [hpc]; exact not_false) (by rw [hpc]; rfl) (by rw [hpc]; rfl), rfl, ?_⟩
    · rw [ParticlesBox.removeLastFrame_slots]
      exact h.unmarked c hc q (hl ▸ List.mem_append_left _ hq)
    · rw [hrest, hunpushed, ← hparticles, h.framed.holds.getPreviousFrame (by rw [hl] : L' c = front ++ p :: [])]
      exact At.loop
    · rw [hpc, hl, List.length_append, List.length_singleton, left, left]
      omega
  | @add p exchangeGapIdx hpc hne hnumbers =>
    obtain ⟨log', r, u, hrunning⟩ := h.add hc hsizes.frameSize_le hsizes.lt hpc hne hnumbers
    exact ⟨_, _, _, _, _, _, hrunning, rfl, by rw [hpc]; exact Nat.lt_succ_self _⟩
  | @fits p exchangeGapIdx numParticles oldSize hpc hle =>
    rw [hpc] at hplace
    obtain ⟨hchunk, hpos, hlt⟩ := hplace.of_added
    rw [Nat.mod_eq_of_lt hlt] at hle
    have hspace : K.space numParticles oldSize = numParticles := by
      rw [space]
      omega
    rw [hspace] at hchunk
    refine ⟨_, _, _, _, unpushed c, _, h.quiet hc hself (List.prefix_refl _) Local.refl (h.unmarked c hc) (At.push hchunk hpos)
      le_rfl (by rw [hpc]; exact Nat.not_lt.mpr hle) ?_ ?_, rfl, by rw [hpc]; exact Nat.lt_succ_self _⟩ <;>
    · rw [hpc]
      show places oldSize numParticles = places oldSize (K.space numParticles oldSize)
      rw [hspace]
  | @putBack p exchangeGapIdx numParticles oldSize hpc hlt =>
    rw [hpc] at hplace
    obtain ⟨-, -, hlt'⟩ := hplace.of_added
    rw [Nat.mod_eq_of_lt hlt'] at hlt
    refine ⟨_, _, _, _, _, _, h.putBack hc hpc hlt, rfl, ?_⟩
    rw [hpc]
    split <;> simp only [left] <;> omega
  | @push p exchangeGapIdx numParticles oldSize count hpc =>
    rw [hpc] at hplace
    obtain ⟨hchunk, -⟩ := hplace.of_push
    obtain ⟨front, hl⟩ := hchunk.list
    refine ⟨_, _, _, _, _, _, h.push hc (by have hlt := hsizes.lt; omega) hsizes.frameSize_le hpc, rfl, ?_⟩
    rw [hpc, hl, List.length_append, List.length_singleton, left, left]
    omega
  | @copyAll p exchangeGapIdx numParticles oldSize count hpc hle =>
    obtain ⟨front, hl, hrunning⟩ := h.copyAll hc hsizes.frameSize_le hpc hle
    refine ⟨_, _, _, _, _, _, hrunning, rfl, ?_⟩
    rw [hpc, hl, List.length_append, List.length_singleton, left, left]
    omega
  | @copySome p exchangeGapIdx numParticles oldSize count hpc hlt =>
    obtain ⟨hne, hrunning⟩ := h.copySome hc hsizes.frameSize_le hpc hlt
    refine ⟨_, _, _, _, _, _, hrunning, rfl, ?_⟩
    have hpos := List.length_pos_iff.mpr hne
    rw [hpc, left, left]
    omega
  | @leave frame allParticlesCopied hpc hleave =>
    rw [hpc] at hplace
    obtain ⟨hrest, hunpushed, hdone⟩ := hplace.of_leave hleave
    refine ⟨_, _, _, _, 0, _, h.quiet hc ?_ (List.prefix_refl _) (Local.setNumParticles 0) (h.unmarked c hc) ?_ (Nat.zero_le _)
      (by rw [hpc]; exact not_false) (by rw [hpc]; rfl) (by rw [hpc]; rfl), rfl, ?_⟩
    · rw [Function.update_eq_self]
      exact h.framed.holds.setNumParticles 0
    · rw [hrest]
      exact At.done hdone
    · rw [hpc]
      cases allParticlesCopied <;> simp only [left] <;> omega

/-- A block that is done takes no steps. -/
theorem Step.ne_done {c : DataSpace DIM} (h : K.Step c s t) : s.pc c ≠ .done := by
  intro hdone
  cases h with
  | start hpc | empty hpc | add hpc | fits hpc | putBack hpc | push hpc | copyAll hpc | copySome hpc | leave hpc =>
    rw [hpc] at hdone
    cases hdone

/-- A block that is not done can go on. -/
theorem exists_step (K : CopyGuardToExchange) (c : DataSpace DIM) (s : State DIM frameSize A) :
    s.pc c = .done ∨ ∃ t, K.Step c s t := by
  rcases hpc : s.pc c with _ | ⟨frame, allParticlesCopied⟩ | ⟨p, exchangeGapIdx, numParticles, oldSize⟩ |
    ⟨p, exchangeGapIdx, numParticles, oldSize, count⟩ | ⟨p, exchangeGapIdx, numParticles, oldSize, count⟩ | _
  · exact Or.inr ⟨_, Step.start hpc⟩
  · refine Or.inr ?_
    rcases frame with _ | p
    · exact ⟨_, Step.leave hpc (Or.inl rfl)⟩
    cases allParticlesCopied with
    | false => exact ⟨_, Step.leave hpc (Or.inr rfl)⟩
    | true =>
      by_cases hempty : settled (s.box.frames p).slots = ∅
      · exact ⟨_, Step.empty hpc hempty⟩
      · obtain ⟨exchangeGapIdx, hnumbers, hothers⟩ := exists_numbers (settled (s.box.frames p).slots) INV_LOC_IDX
        exact ⟨_, Step.add hpc hempty ⟨hnumbers, hothers⟩⟩
  · refine Or.inr ?_
    rcases Nat.lt_or_ge K.maxSize ((oldSize + numParticles) % 2 ^ 32) with hlt | hle
    · exact ⟨_, Step.putBack hpc hlt⟩
    · exact ⟨_, Step.fits hpc hle⟩
  · exact Or.inr ⟨_, Step.push hpc⟩
  · refine Or.inr ?_
    rcases Nat.lt_or_ge count numParticles with hlt | hle
    · exact ⟨_, Step.copySome hpc hlt⟩
    · exact ⟨_, Step.copyAll hpc hle⟩
  · exact Or.inl rfl

/-- **What the kernel leaves**: the stack has as many particles as fit, and the supercells have the others. -/
structure Copied (K : CopyGuardToExchange) (blocks : Finset (DataSpace DIM)) (L : DataSpace DIM → List FramePtr)
    (box : ParticlesBox DIM frameSize A) (box' : ParticlesBox DIM frameSize A) (stack : ExchangeStack DIM A)
    (L' : DataSpace DIM → List FramePtr) (log : List (DataSpace DIM × A)) (entries : List (Entry DIM)) : Prop where
  framed : Framed blocks L box L' box'
  unmarked : ∀ c ∈ blocks, ∀ p ∈ L' c, Unmarked (box'.frames p).slots
  stacked : K.Stacked frameSize stack log entries
  records : (log : Multiset (DataSpace DIM × A)) + ∑ c ∈ blocks, (box'.particles (L' c)).map (Prod.mk c) =
    ∑ c ∈ blocks, (box.particles (L c)).map (Prod.mk c)
  length_eq : log.length = min K.maxSize (∑ c ∈ blocks, (box.particles (L c)).card)
  /-- A stack with places left has emptied the lists. -/
  empty : log.length < K.maxSize → ∀ c ∈ blocks, L' c = []

/-- Every record comes from one of the supercells. -/
theorem Copied.mem_blocks {box' : ParticlesBox DIM frameSize A} {stack : ExchangeStack DIM A}
    (h : K.Copied blocks L box box' stack L' log entries) {r : DataSpace DIM × A} (hr : r ∈ log) : r.1 ∈ blocks := by
  have hmem : r ∈ ∑ c ∈ blocks, (box.particles (L c)).map (Prod.mk c) := by
    rw [← h.records]
    exact Multiset.mem_add.mpr (Or.inl (Multiset.mem_coe.mpr hr))
  obtain ⟨c, hc, hr⟩ := Multiset.mem_sum.mp hmem
  obtain ⟨a, -, rfl⟩ := Multiset.mem_map.mp hr
  exact hc

/-- The particles of a supercell are in the stack or still in its frames. -/
theorem Copied.arriving_add {box' : ParticlesBox DIM frameSize A} {stack : ExchangeStack DIM A}
    (h : K.Copied blocks L box box' stack L' log entries) (hc : c ∈ blocks) :
    arriving id c log + box'.particles (L' c) = box.particles (L c) := by
  have hrecords := congrArg (arriving id c) h.records
  rw [CopyGuardToExchange.arriving_add, arriving_sum, arriving_sum] at hrecords
  simpa [Finset.sum_ite_eq', hc] using hrecords

/-- The guard that is left has the sizes for another run. -/
theorem Copied.sizes {box' : ParticlesBox DIM frameSize A} {stack : ExchangeStack DIM A}
    (h : K.Copied blocks L box box' stack L' log entries) (hsizes : Sizes K blocks L box) : Sizes K blocks L' box' := by
  refine ⟨hsizes.frameSize_le, lt_of_le_of_lt (Nat.add_le_add_left ?_ _) hsizes.lt⟩
  have hcard := congrArg Multiset.card h.records
  simp only [Multiset.card_add, Multiset.card_sum, Multiset.card_map] at hcard
  omega

/-- When every block is done. -/
theorem Running.copied (h : K.Running blocks L box s L' log entries rest unpushed) (hdone : ∀ c ∈ blocks, s.pc c = .done) :
    K.Copied blocks L box s.box s.stack L' log entries := by
  have hat : ∀ c ∈ blocks, rest c = s.box.particles (L' c) ∧ (L' c = [] ∨ K.maxSize ≤ log.length) := fun c hc => by
    have hplace := h.place c hc
    rw [hdone c hc] at hplace
    exact hplace.of_done
  have hnone : ∀ c ∈ blocks, K.untold (s.pc c) = 0 ∧ K.owed (s.pc c) = 0 ∧ ¬ K.overflows (s.pc c) := fun c hc => by
    rw [hdone c hc]
    exact ⟨rfl, rfl, not_false⟩
  have hrecords := h.records
  rw [Finset.sum_congr rfl fun c hc => congrArg (Multiset.map (Prod.mk c)) (hat c hc).1] at hrecords
  refine ⟨h.framed, h.unmarked, ⟨h.indexed, ?_, fun k x hk => ?_, ?_⟩, hrecords, ?_,
    fun hlt c hc => (hat c hc).2.resolve_right (Nat.not_le.mpr hlt)⟩
  · exact h.counter.resolve_right fun ⟨_, _, c, hc, hover⟩ => (hnone c hc).2.2 hover
  · refine (h.data k x hk).resolve_right ?_
    rintro ⟨c, hc, hmem⟩
    rw [(hnone c hc).2.1] at hmem
    exact Multiset.notMem_zero k hmem
  · have hpartition := h.partition
    rwa [Finset.sum_eq_zero fun c hc => (hnone c hc).1, add_zero] at hpartition
  · have hcard := congrArg Multiset.card hrecords
    simp only [Multiset.card_add, Multiset.coe_card, Multiset.card_sum, Multiset.card_map] at hcard
    have hle := h.length_le
    by_cases hzero : ∀ c ∈ blocks, L' c = []
    · rw [Finset.sum_eq_zero fun c hc => by rw [hzero c hc, ParticlesBox.particles_nil, Multiset.card_zero], add_zero] at hcard
      omega
    · simp only [not_forall] at hzero
      obtain ⟨c, hc, hne⟩ := hzero
      have hfull := (hat c hc).2.resolve_left hne
      omega

/-- **Every run of the kernel ends**, whatever numbers the threads get and in whatever order the blocks take
their steps.  Then the stack has every particle of the supercells once, or as many as fit; each of them is in
the stack or in its supercell.  The entries of the index table share out the places of the stack, with the
supercell that the particles come from. -/
theorem copy_ends (K : CopyGuardToExchange) (hbox : box.Holds L)
    (hunmarked : ∀ c ∈ blocks, ∀ p ∈ L c, Unmarked (box.frames p).slots) (hsizes : Sizes K blocks L box) (stack : ExchangeStack DIM A) :
    (K.system blocks (start box stack.reset)).Ends (start box stack.reset) fun s =>
      ∃ L' log entries, K.Copied blocks L box s.box s.stack L' log entries := by
  refine StepSystem.ends_of_variant (I := fun s n => ∃ L' log entries rest unpushed,
      K.Running blocks L box s L' log entries rest unpushed ∧ n = ∑ c ∈ blocks, left (L' c).length (s.pc c)) ?_ ?_
    (n := ∑ c ∈ blocks, left (L c).length ((start box stack.reset).pc c))
    ⟨L, [], [], fun c => box.particles (L c), fun c => (box.particles (L c)).card, ?_, rfl⟩
  · rintro s n ⟨L', log, entries, rest, unpushed, h, rfl⟩ t ⟨c, hc, hst⟩
    obtain ⟨l, log', entries', r, u, pc, hrunning, hpc, hlt⟩ := h.step hc hsizes hst
    refine ⟨_, Finset.sum_lt_sum (fun d _ => ?_) ⟨c, hc, ?_⟩, _, _, _, _, _, hrunning, rfl⟩
    · rcases eq_or_ne d c with rfl | hne
      · rw [hpc, Function.update_self, Function.update_self]
        exact hlt.le
      · rw [hpc, Function.update_of_ne hne, Function.update_of_ne hne]
    · rw [hpc, Function.update_self, Function.update_self]
      exact hlt
  · rintro s n ⟨L', log, entries, rest, unpushed, h, -⟩ hterminal
    refine ⟨L', log, entries, h.copied fun c hc => ?_⟩
    exact (exists_step K c s).resolve_right fun ⟨t, hst⟩ => hterminal t ⟨c, hc, hst⟩
  · refine ⟨Framed.refl hbox, hunmarked, fun c _ => At.start, ⟨rfl, fun k entry hk => ?_, fun entry hentry => ?_⟩, Nat.zero_le _,
      zero_add _, Or.inl rfl, ?_, fun k x hk => ?_, ?_⟩
    · exact absurd hk.symm (Option.some_ne_none entry)
    · exact absurd hentry List.not_mem_nil
    · exact (zero_add _).trans_le (Nat.le_add_left _ _)
    · exact absurd hk.symm (Option.some_ne_none x)
    · exact (zero_add _).trans (Finset.sum_eq_zero fun c _ => rfl)

end Runs

end CopyGuardToExchange
end PmaccParticles
end Spearhed
