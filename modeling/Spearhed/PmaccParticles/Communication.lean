import Spearhed.PmaccParticles.ParticlesBase
import Spearhed.PmaccParticles.ReceiveChunks

/-!
# Particles that go to a neighbour

`sendChunks` of one rank and `receiveChunks` of its neighbour, side by side.  The kernels have a block for each
supercell of the guard on the side of the exchange, or for each entry of an index table.

* `copyGuardToExchange_ends`: what a stack holds, as its index table reads.
* `exchangeChunks_ends`: the particles of the guard are in the border of the neighbour, each once.
-/

namespace Spearhed
namespace PmaccParticles

open Library Mappings MappingDescription Mappings.DataSpaceOperations Mask
open CopyGuardToExchange (Copied Sizes Stacked arriving)

variable {DIM frameSize : ℕ} {A : Type}

/-! ## A guard with two particles -/

/-- A frame with two particles in the guard. -/
def guardBox : ParticlesBox 2 2 ℕ :=
  let memory : ParticlesBox 2 2 ℕ := ⟨fun _ => ⟨fun _ => ⟨0, 0⟩, none, none⟩, ∅, fun _ => ⟨none, none, 0, false⟩⟩
  ((memory.reset.getEmptyFrame 0).setAsLastFrame 0 ![3, 1]).setSlots 0 ![⟨1, 7⟩, ⟨1, 8⟩]

/-- The frames of `guardBox`. -/
def guardLists : DataSpace 2 → List FramePtr := Function.update (fun _ => []) ![3, 1] [0]

theorem guardLists_of_ne {c : DataSpace 2} (hc : c ≠ ![3, 1]) : guardLists c = [] := by
  rw [guardLists, Function.update_of_ne hc]

theorem guardBox_holds : guardBox.Holds guardLists :=
  (((ParticlesBox.Holds.reset (⟨fun _ => ⟨fun _ => ⟨0, 0⟩, none, none⟩, ∅, fun _ => ⟨none, none, 0, false⟩⟩ :
    ParticlesBox 2 2 ℕ)).getEmptyFrame (p := 0)).setAsLastFrame (fun _ => List.not_mem_nil) (Finset.mem_insert_self 0 _) ![3, 1]).setSlots _

theorem guardBox_unmarked (c : DataSpace 2) (p : FramePtr) (hp : p ∈ guardLists c) : Unmarked (guardBox.frames p).slots := by
  rcases eq_or_ne c ![3, 1] with rfl | hne
  · rw [guardLists, Function.update_self] at hp
    obtain rfl := List.mem_singleton.mp hp
    intro i
    revert i
    decide
  · rw [guardLists_of_ne hne] at hp
    exact absurd hp List.not_mem_nil

theorem guardBox_card_le (blocks : Finset (DataSpace 2)) : ∑ c ∈ blocks, (guardBox.particles (guardLists c)).card ≤ 2 := by
  have hzero : ∀ c, c ≠ ![3, 1] → (guardBox.particles (guardLists c)).card = 0 := fun c hne => by
    rw [guardLists_of_ne hne]
    rfl
  by_cases hmem : ![3, 1] ∈ blocks
  · rw [Finset.sum_eq_single_of_mem _ hmem fun c _ => hzero c, guardLists, Function.update_self]
    decide
  · rw [Finset.sum_eq_zero fun c hc => hzero c fun heq => hmem (heq ▸ hc)]
    exact Nat.zero_le 2

/-- It touches the border. -/
theorem guardBox_touches (c : DataSpace 2) (hc : guardBox.particles (guardLists c) ≠ 0) : sixteenSuperCells.touchesBorder 1 c := by
  obtain rfl : c = ![3, 1] := by
    by_contra hne
    rw [guardLists_of_ne hne] at hc
    exact hc rfl
  intro d
  fin_cases d <;> decide

/-- A stack with nothing in it. -/
def emptyStack : ExchangeStack 2 ℕ := ⟨fun _ => 0, 0, fun _ => ⟨0, 0, 0⟩, 0⟩

/-! ## The kernels of an exchange -/

/-- The supercells of an `ExchangeMapping<GUARD>`. -/
def exchangeSuperCells (M : MappingDescription DIM) (exchangeType : ℕ) : Finset (DataSpace DIM) :=
  (gridBlocks (M.exchangeGridDim .GUARD exchangeType)).image (M.exchangeSuperCellIndex .GUARD exchangeType)

theorem mem_exchangeSuperCells {M : MappingDescription DIM} {exchangeType : ℕ} {c : DataSpace DIM} :
    c ∈ exchangeSuperCells M exchangeType ↔ c ∈ M.exchanged .GUARD exchangeType := by
  rw [exchangeSuperCells, Finset.mem_image]
  exact exists_congr fun b => and_congr_left fun _ => mem_gridBlocks

section Exchange

variable [DataSpaceOperations DIM] (M : MappingDescription DIM) (exchangeType : ℕ)

/-- `ParticlesBase::copyGuardToExchange`; the stack is reset before. -/
def copyGuardToExchange (maxSize : ℕ) (box : ParticlesBox DIM frameSize A) (stack : ExchangeStack DIM A) :
    StepSystem (CopyGuardToExchange.State DIM frameSize A) :=
  CopyGuardToExchange.system ⟨exchangeType, maxSize⟩ (exchangeSuperCells M exchangeType) (CopyGuardToExchange.start box stack.reset)

/-- The records of an index table: reduced supercells and particles. -/
def tableRecords (stack : ExchangeStack DIM A) : Multiset (DataSpace (DIM - 1) × A) :=
  ∑ k ∈ Finset.range stack.indexCount, ∑ i ∈ Finset.range (stack.indexTable k).count,
    {((stack.indexTable k).superCell, stack.data ((stack.indexTable k).startIdx + i))}

variable {M exchangeType}

/-- What a stack has, as its index table reads. -/
theorem tableRecords_eq {maxSize : ℕ} {stack : ExchangeStack DIM A} {log : List (DataSpace DIM × A)}
    {entries : List (CopyGuardToExchange.Entry DIM)}
    (h : CopyGuardToExchange.Stacked ⟨exchangeType, maxSize⟩ frameSize stack log entries) :
    tableRecords stack = (log : Multiset (DataSpace DIM × A)).map fun r => (reduce r.1 exchangeType, r.2) := by
  have hplace : ∀ k : Fin entries.length, ∀ i ∈ Finset.range entries[k].count,
      ({((stack.indexTable k).superCell, stack.data ((stack.indexTable k).startIdx + i))} : Multiset (DataSpace (DIM - 1) × A)) =
        ((log[entries[k].startIdx + i]?).map fun r => {(reduce r.1 exchangeType, r.2)}).getD 0 := fun k i hi => by
    obtain ⟨a, ha⟩ := (h.entry _ (List.getElem_mem k.isLt)).superCell (entries[k].startIdx + i)
      (CopyGuardToExchange.mem_places.mpr ⟨Nat.le_add_right _ _, Nat.add_lt_add_left (Finset.mem_range.mp hi) _⟩)
    have htable := h.indexTable k _ (List.getElem?_eq_getElem k.isLt)
    have hdata := h.data _ _ ha
    simp only [Fin.getElem_fin] at ha hdata ⊢
    rw [htable, ha, hdata]
    rfl
  have hcount : ∀ k : Fin entries.length, (stack.indexTable k).count = entries[k].count := fun k => by
    rw [h.indexTable k _ (List.getElem?_eq_getElem k.isLt)]
    rfl
  rw [tableRecords, h.indexCount, Finset.sum_range]
  rw [Finset.sum_congr rfl fun k _ => by rw [hcount k, Finset.sum_congr rfl (hplace k)]]
  rw [CopyGuardToExchange.sum_entries h.partition fun x => ((log[x]?).map fun r => {(reduce r.1 exchangeType, r.2)}).getD 0,
    CopyGuardToExchange.coe_eq_sum_getElem log, Finset.sum_range]
  refine (Finset.sum_congr rfl fun k _ => ?_).trans (map_sum (Multiset.mapAddMonoidHom fun r : DataSpace DIM × A =>
    (reduce r.1 exchangeType, r.2)) _ _).symm
  simp

/-- **`copyGuardToExchange`.**  Every run ends, whatever numbers the threads get and in whatever order the blocks
take their steps.  Then the stack has all the particles of the guard, or as many as fit: some of every
supercell, which the index table has under its reduced index, while the others are still in its frames.  When
places are left, the supercells are empty.  Frames without particles are given back to the heap, and the
supercells of other exchanges are as they were. -/
theorem copyGuardToExchange_ends (M : MappingDescription DIM) (exchangeType : ℕ) {maxSize : ℕ} {box : ParticlesBox DIM frameSize A}
    {L : DataSpace DIM → List FramePtr} (hbox : box.Holds L)
    (hunmarked : ∀ c ∈ M.exchanged .GUARD exchangeType, ∀ p ∈ L c, Unmarked (box.frames p).slots) (hF : frameSize ≤ INV_LOC_IDX)
    (hlt : maxSize + ∑ c ∈ exchangeSuperCells M exchangeType, (box.particles (L c)).card < 2 ^ 32) (stack : ExchangeStack DIM A) :
    (copyGuardToExchange M exchangeType maxSize box stack).Ends (CopyGuardToExchange.start box stack.reset) fun s =>
      ∃ (L' : DataSpace DIM → List FramePtr) (taken : DataSpace DIM → Multiset A), s.box.Holds L' ∧
        (∀ c ∈ M.exchanged .GUARD exchangeType, L' c <+: L c ∧ taken c + s.box.particles (L' c) = box.particles (L c)) ∧
        tableRecords s.stack = ∑ c ∈ exchangeSuperCells M exchangeType, (taken c).map (Prod.mk (reduce c exchangeType)) ∧
        s.stack.particleCount = min maxSize (∑ c ∈ exchangeSuperCells M exchangeType, (box.particles (L c)).card) ∧
        (s.stack.particleCount < maxSize → ∀ c ∈ M.exchanged .GUARD exchangeType, L' c = []) ∧
        (∀ c ∉ M.exchanged .GUARD exchangeType, L' c = L c ∧ s.box.superCells c = box.superCells c ∧
          ∀ p ∈ L c, s.box.frames p = box.frames p) ∧
        ∀ p, p ∈ s.box.allocated ↔ p ∈ box.allocated ∧ ∀ c, p ∈ L c → p ∈ L' c := by
  refine (CopyGuardToExchange.copy_ends ⟨exchangeType, maxSize⟩ hbox (fun c hc => hunmarked c (mem_exchangeSuperCells.mp hc)) ⟨hF, hlt⟩
    stack).mono ?_
  rintro s ⟨L', log, entries, h⟩
  refine ⟨L', fun c => arriving id c log, h.framed.holds, fun c hc => ⟨h.framed.sublist c, ?_⟩, ?_, ?_, fun hless c hc => ?_,
    fun c hc => h.framed.others c fun hmem => hc (mem_exchangeSuperCells.mp hmem), h.framed.allocated⟩
  · exact h.arriving_add (mem_exchangeSuperCells.mpr hc)
  · have hmap : ∀ c, ((arriving id c (log : Multiset (DataSpace DIM × A))).map (Prod.mk c)).map
        (fun r : DataSpace DIM × A => (reduce r.1 exchangeType, r.2)) =
          (arriving id c (log : Multiset (DataSpace DIM × A))).map (Prod.mk (reduce c exchangeType)) := fun c => by
      rw [Multiset.map_map]
      rfl
    rw [tableRecords_eq h.stacked]
    conv_lhs => rw [CopyGuardToExchange.eq_sum_arriving fun r hr => h.mem_blocks (Multiset.mem_coe.mp hr)]
    rw [← Finset.sum_congr rfl fun c _ => hmap c]
    exact map_sum (Multiset.mapAddMonoidHom fun r : DataSpace DIM × A => (reduce r.1 exchangeType, r.2)) _ _
  · rw [h.stacked.particleCount]
    exact h.length_eq
  · refine h.empty ?_ c (mem_exchangeSuperCells.mpr hc)
    rwa [← h.stacked.particleCount]

/-- Of its two particles one fits. -/
theorem copyGuardToExchange_ends_guardBox :
    (copyGuardToExchange sixteenSuperCells 1 1 guardBox emptyStack).Ends (CopyGuardToExchange.start guardBox emptyStack.reset) fun s =>
      ∃ (L' : DataSpace 2 → List FramePtr) (taken : DataSpace 2 → Multiset ℕ), s.box.Holds L' ∧
        (∀ c ∈ sixteenSuperCells.exchanged .GUARD 1, L' c <+: guardLists c ∧
          taken c + s.box.particles (L' c) = guardBox.particles (guardLists c)) ∧
        tableRecords s.stack = ∑ c ∈ exchangeSuperCells sixteenSuperCells 1, (taken c).map (Prod.mk (reduce c 1)) ∧
        s.stack.particleCount = min 1 (∑ c ∈ exchangeSuperCells sixteenSuperCells 1, (guardBox.particles (guardLists c)).card) ∧
        (s.stack.particleCount < 1 → ∀ c ∈ sixteenSuperCells.exchanged .GUARD 1, L' c = []) ∧
        (∀ c ∉ sixteenSuperCells.exchanged .GUARD 1, L' c = guardLists c ∧ s.box.superCells c = guardBox.superCells c ∧
          ∀ p ∈ guardLists c, s.box.frames p = guardBox.frames p) ∧
        ∀ p, p ∈ s.box.allocated ↔ p ∈ guardBox.allocated ∧ ∀ c, p ∈ guardLists c → p ∈ L' c :=
  copyGuardToExchange_ends sixteenSuperCells 1 guardBox_holds (fun c _ => guardBox_unmarked c) (by decide)
    ((Nat.add_le_add_left (guardBox_card_le _) 1).trans_lt (by norm_num)) emptyStack

/-- `ParticlesBase::insertParticles` with a block for each entry of a stack. -/
def insertParticles (M : MappingDescription DIM) (exchangeType : ℕ) (box : ParticlesBox DIM frameSize A) (stack : ExchangeStack DIM A) :
    StepSystem (InsertParticles.State DIM frameSize A) :=
  InsertParticles.system ⟨exchangeType, M, stack.data, stack.indexTable, stack.indexCount⟩ box

/-- **`insertParticles`.**  Every run ends, in whatever order the blocks get frames from the heap and put them at
the ends of the lists, also where several of them append to one supercell.  Every particle of every entry is
then once in the supercell that the entry names, behind what was there before, and no frame is lost. -/
theorem insertParticles_ends (M : MappingDescription DIM) (exchangeType : ℕ) {box : ParticlesBox DIM frameSize A}
    {L : DataSpace DIM → List FramePtr} (hbox : box.Holds L) (hunmarked : ∀ c, ∀ p ∈ L c, Unmarked (box.frames p).slots)
    {stack : ExchangeStack DIM A} (hle : ∀ k < stack.indexCount, (stack.indexTable k).count ≤ frameSize) :
    (insertParticles M exchangeType box stack).Ends (InsertParticles.start box) fun s => ∃ L', s.box.Holds L' ∧ (∀ c, L c <+: L' c) ∧
      (∀ p, p ∈ s.box.allocated ↔ p ∈ box.allocated ∨ ∃ c, p ∈ L' c) ∧ (∀ c, ∀ p ∈ L' c, Unmarked (s.box.frames p).slots) ∧
      (∀ c, s.box.particles (L' c) = box.particles (L c) + ∑ k ∈ Finset.range stack.indexCount,
        if extend (stack.indexTable k).superCell exchangeType M.gridSuperCells M.guardingSuperCells = c then
          ∑ i ∈ Finset.range (stack.indexTable k).count, {stack.data ((stack.indexTable k).startIdx + i)} else 0) ∧
      ∀ c, (s.box.superCells c).numParticles = (box.superCells c).numParticles ∧
        (s.box.superCells c).mustShift = (box.superCells c).mustShift := by
  refine (InsertParticles.insert_ends ⟨exchangeType, M, stack.data, stack.indexTable, stack.indexCount⟩ hbox hunmarked hle).mono ?_
  rintro s ⟨-, L', h⟩
  exact ⟨L', h.holds, h.sublist, h.heap, h.unmarked, h.particles, h.counters⟩

/-- An entry with two particles for the second supercell of a side. -/
theorem insertParticles_ends_guardBox :
    (insertParticles sixteenSuperCells 2 guardBox ⟨id, 2, fun _ => ⟨![1], 0, 2⟩, 1⟩).Ends (InsertParticles.start guardBox) fun s =>
      ∃ L', s.box.Holds L' ∧ (∀ c, guardLists c <+: L' c) ∧
        (∀ p, p ∈ s.box.allocated ↔ p ∈ guardBox.allocated ∨ ∃ c, p ∈ L' c) ∧ (∀ c, ∀ p ∈ L' c, Unmarked (s.box.frames p).slots) ∧
        (∀ c, s.box.particles (L' c) = guardBox.particles (guardLists c) + ∑ _k ∈ Finset.range 1,
          if extend ![1] 2 sixteenSuperCells.gridSuperCells sixteenSuperCells.guardingSuperCells = c then
            ∑ i ∈ Finset.range 2, {0 + i} else 0) ∧
        ∀ c, (s.box.superCells c).numParticles = (guardBox.superCells c).numParticles ∧
          (s.box.superCells c).mustShift = (guardBox.superCells c).mustShift :=
  insertParticles_ends sixteenSuperCells 2 guardBox_holds guardBox_unmarked fun _ _ => le_rfl

end Exchange

/-! ## Both sides -/

section Chunks

variable [DataSpaceOperations DIM]

/-- A rank sends to its neighbour in a direction. -/
def exchangeChunks (M : MappingDescription DIM) (exchangeType maxSize : ℕ) (boxS boxR : ParticlesBox DIM frameSize A)
    (stackS stackR : ExchangeStack DIM A) : StepSystem (SendChunks.State DIM frameSize A × ReceiveChunks.State DIM frameSize A) :=
  StepSystem.pipeline (SendChunks.system ⟨exchangeType, maxSize⟩ (exchangeSuperCells M exchangeType) boxS stackS) SendChunks.State.posted
    (ReceiveChunks.system ⟨M, mirrored exchangeType, maxSize⟩ boxR stackR)

/-- **All particles that have left go to the neighbour.**  The sender empties its guard in chunks while the
receiver puts them into its border, and both come to their end, whatever the interleaving.  A chunk more is
sent than would be full; the receiver has taken all of them.  Every particle of the guard is once in the
supercell of the neighbour where it belongs, besides those that were there. -/
theorem exchangeChunks_ends [LawfulDataSpaceOperations DIM] {M : MappingDescription DIM} (hM : M.HoldsBorder) (hDIM : DIM ≤ 3)
    {exchangeType : ℕ} (hex : exchangeType < 3 ^ DIM) (hne : exchangeType ≠ 0) {maxSize : ℕ} (hpos : 0 < maxSize)
    {boxS boxR : ParticlesBox DIM frameSize A} {S R : DataSpace DIM → List FramePtr} (hS : boxS.Holds S) (hR : boxR.Holds R)
    (hunmarkedS : ∀ c ∈ M.exchanged .GUARD exchangeType, ∀ p ∈ S c, Unmarked (boxS.frames p).slots)
    (hunmarkedR : ∀ c, ∀ p ∈ R c, Unmarked (boxR.frames p).slots)
    (htouches : ∀ c ∈ M.exchanged .GUARD exchangeType, boxS.particles (S c) ≠ 0 → M.touchesBorder exchangeType c)
    (hF : frameSize ≤ INV_LOC_IDX)
    (hlt : maxSize + ∑ c ∈ exchangeSuperCells M exchangeType, (boxS.particles (S c)).card < 2 ^ 32)
    (stackS stackR : ExchangeStack DIM A) :
    (exchangeChunks M exchangeType maxSize boxS boxR stackS stackR).Ends (SendChunks.begin boxS stackS, ReceiveChunks.begin boxR stackR)
      fun p => p.1.phase = .over ∧ p.2.phase = .over ∧
        (p.1.posted.filterMap Message.payload).length =
          (∑ c ∈ exchangeSuperCells M exchangeType, (boxS.particles (S c)).card) / maxSize + 1 ∧
        (p.1.posted.filterMap Message.payload).length = p.2.round + 1 ∧
        (∃ S', p.1.guard.box.Holds S' ∧ (∀ c ∈ M.exchanged .GUARD exchangeType, S' c = []) ∧
          (∀ c ∉ M.exchanged .GUARD exchangeType, S' c = S c ∧ p.1.guard.box.superCells c = boxS.superCells c ∧
            ∀ q ∈ S c, p.1.guard.box.frames q = boxS.frames q) ∧
          ∀ q, q ∈ p.1.guard.box.allocated ↔ q ∈ boxS.allocated ∧ ∀ c, q ∈ S c → q ∈ S' c) ∧
        ∃ R', p.2.insert.box.Holds R' ∧ (∀ c, R c <+: R' c) ∧ (∀ c, ∀ q ∈ R' c, Unmarked (p.2.insert.box.frames q).slots) ∧
          (∀ q, q ∈ p.2.insert.box.allocated ↔ q ∈ boxR.allocated ∨ ∃ c, q ∈ R' c) ∧
          (∀ c, p.2.insert.box.particles (R' c) = boxR.particles (R c) + ∑ d ∈ exchangeSuperCells M exchangeType,
            if M.imageInNeighbour exchangeType d = c then boxS.particles (S d) else 0) ∧
          ∀ c ∉ M.inner 1, p.2.insert.box.particles (R' c) = boxR.particles (R c) := by
  have hsend := SendChunks.send_ends (K := ⟨exchangeType, maxSize⟩) hpos hS
    (fun c hc => hunmarkedS c (mem_exchangeSuperCells.mp hc)) ⟨hF, hlt⟩ stackS
  have hreceive : ∀ s : SendChunks.State DIM frameSize A, (∃ L' full last, s.phase = .over ∧
      SendChunks.Sent ⟨exchangeType, maxSize⟩ frameSize s.posted (full ++ [last]) ∧
        SendChunks.Sending ⟨exchangeType, maxSize⟩ (exchangeSuperCells M exchangeType) S boxS s.guard.box L' full last) →
      (ReceiveChunks.system ⟨M, mirrored exchangeType, maxSize⟩ boxR stackR s.posted).Ends (ReceiveChunks.begin boxR stackR) fun t =>
        t.phase = .over ∧ (s.posted.filterMap Message.payload).length = t.round + 1 ∧ ∃ R',
          ReceiveChunks.Received (ReceiveChunks.imageOf exchangeType ⟨M, mirrored exchangeType, maxSize⟩)
            (∑ c ∈ exchangeSuperCells M exchangeType, (boxS.particles (S c)).map (Prod.mk c)) R boxR R' t.insert.box := by
    rintro s ⟨L', full, last, -, hsent, hsending⟩
    refine (ReceiveChunks.receive_ends (K := ⟨M, mirrored exchangeType, maxSize⟩) hsent hsending.full hsending.last hR hunmarkedR
      stackR).mono ?_
    rintro t ⟨hover, hround, R', hreceived⟩
    rw [hsending.records] at hreceived
    refine ⟨hover, ?_, R', hreceived⟩
    rw [hsent.payload, hround]
    simp
  refine (StepSystem.pipeline_ends (fun s s' => SendChunks.Step.posted_mono) (fun _ _ _ _ hl => ReceiveChunks.Step.mono hl) hsend
    hreceive).mono ?_
  rintro ⟨s, t⟩ ⟨⟨S', full, last, hover, hsent, hsending⟩, hover', hround, R', hreceived⟩
  -- the supercells with particles are the ones that have an image
  have himage : ∀ c, ∀ d ∈ exchangeSuperCells M exchangeType,
      (if ReceiveChunks.imageOf exchangeType ⟨M, mirrored exchangeType, maxSize⟩ d = c then boxS.particles (S d) else 0) =
        if M.imageInNeighbour exchangeType d = c then boxS.particles (S d) else 0 := fun c d hd => by
    by_cases hzero : boxS.particles (S d) = 0
    · rw [hzero, ite_self, ite_self]
    · rw [ReceiveChunks.imageOf,
        extend_reduce_eq_image hDIM hex hne (htouches d (mem_exchangeSuperCells.mp hd) hzero)]
  have hparticles : ∀ c, t.insert.box.particles (R' c) = boxR.particles (R c) + ∑ d ∈ exchangeSuperCells M exchangeType,
      if M.imageInNeighbour exchangeType d = c then boxS.particles (S d) else 0 := fun c => by
    rw [hreceived.particles, CopyGuardToExchange.arriving_sum, Finset.sum_congr rfl (himage c)]
  refine ⟨hover, hover', ?_, hround, ⟨S', hsending.framed.holds, fun c hc => hsending.empty c (mem_exchangeSuperCells.mpr hc),
    fun c hc => hsending.framed.others c fun hmem => hc (mem_exchangeSuperCells.mp hmem), hsending.framed.allocated⟩,
    R', hreceived.holds, hreceived.sublist, hreceived.unmarked, hreceived.heap, hparticles, fun c hc => ?_⟩
  · rw [hsent.payload, List.length_map]
    exact hsending.length_eq
  · rw [hparticles, Finset.sum_eq_zero, add_zero]
    intro d hd
    by_cases hzero : boxS.particles (S d) = 0
    · rw [hzero, ite_self]
    · have hmem := mem_exchangeSuperCells.mp hd
      have hinner := imageInNeighbour_mem hM hmem (htouches d hmem hzero)
      exact if_neg fun heq => hc (by rwa [heq] at hinner)

/-- Two particles and a stack of one: three chunks go out. -/
theorem exchangeChunks_ends_guardBox :
    (exchangeChunks sixteenSuperCells 1 1 guardBox guardBox emptyStack emptyStack).Ends
      (SendChunks.begin guardBox emptyStack, ReceiveChunks.begin guardBox emptyStack)
      fun p => p.1.phase = .over ∧ p.2.phase = .over ∧
        (p.1.posted.filterMap Message.payload).length =
          (∑ c ∈ exchangeSuperCells sixteenSuperCells 1, (guardBox.particles (guardLists c)).card) / 1 + 1 ∧
        (p.1.posted.filterMap Message.payload).length = p.2.round + 1 ∧
        (∃ S', p.1.guard.box.Holds S' ∧ (∀ c ∈ sixteenSuperCells.exchanged .GUARD 1, S' c = []) ∧
          (∀ c ∉ sixteenSuperCells.exchanged .GUARD 1, S' c = guardLists c ∧
            p.1.guard.box.superCells c = guardBox.superCells c ∧ ∀ q ∈ guardLists c, p.1.guard.box.frames q = guardBox.frames q) ∧
          ∀ q, q ∈ p.1.guard.box.allocated ↔ q ∈ guardBox.allocated ∧ ∀ c, q ∈ guardLists c → q ∈ S' c) ∧
        ∃ R', p.2.insert.box.Holds R' ∧ (∀ c, guardLists c <+: R' c) ∧ (∀ c, ∀ q ∈ R' c, Unmarked (p.2.insert.box.frames q).slots) ∧
          (∀ q, q ∈ p.2.insert.box.allocated ↔ q ∈ guardBox.allocated ∨ ∃ c, q ∈ R' c) ∧
          (∀ c, p.2.insert.box.particles (R' c) = guardBox.particles (guardLists c) +
            ∑ d ∈ exchangeSuperCells sixteenSuperCells 1,
              if sixteenSuperCells.imageInNeighbour 1 d = c then guardBox.particles (guardLists d) else 0) ∧
          ∀ c ∉ sixteenSuperCells.inner 1, p.2.insert.box.particles (R' c) = guardBox.particles (guardLists c) :=
  exchangeChunks_ends sixteenSuperCells_usable.holdsBorder (by decide) (by decide) (by decide) (by decide) guardBox_holds guardBox_holds
    (fun c _ => guardBox_unmarked c) guardBox_unmarked (fun c _ => guardBox_touches c) (by decide)
    ((Nat.add_le_add_left (guardBox_card_le _) 1).trans_lt (by norm_num)) emptyStack emptyStack

end Chunks


end PmaccParticles
end Spearhed
