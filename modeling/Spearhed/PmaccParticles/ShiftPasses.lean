import Spearhed.Library.Pipeline
import Spearhed.Mappings.StrideMapping
import Spearhed.PmaccParticles.ParticlesBase
import Spearhed.PmaccParticles.ShiftParticlesRuns

/-!
# Shifting the particles of an area

`ParticlesBase::shiftParticles`.  The kernel is launched for one offset of the stride after the
other, so that the blocks of a launch have no neighbour in common.  Particles that came in an
earlier launch are settled when the block of their new supercell runs.

* `after`: the particles of the supercells when some of them have been processed; `after_after` says
  that it does not matter in how many launches.
* `Launched.entries`: a launch does this.
* `shiftParticles_ends`: all of the launches together.
-/

namespace Spearhed
namespace PmaccParticles

open Library Mappings MappingDescription ForEachParticle

variable {DIM frameSize : ℕ} {A : Type}

namespace ShiftParticles

/-! ## Where the particles are afterwards -/

section After

open Classical in
/-- What a supercell keeps, where some supercells are processed. -/
noncomputable def kept (E : DataSpace DIM → Multiset (ℕ × A)) (processed : Set (DataSpace DIM))
    (d : DataSpace DIM) : Multiset (ℕ × A) :=
  if d ∈ processed then staying (E d) else E d

open Classical in
/-- What a supercell sends in a direction. -/
noncomputable def sent (E : DataSpace DIM → Multiset (ℕ × A)) (processed : Set (DataSpace DIM))
    (linearIdx : ℕ) (d : DataSpace DIM) :
    Multiset A :=
  if d ∈ processed then leaving (E d) linearIdx else 0

/-- The particles that come to a supercell. -/
noncomputable def arriving (E : DataSpace DIM → Multiset (ℕ × A)) (processed : Set (DataSpace DIM))
    (d : DataSpace DIM) : Multiset A :=
  ∑ linearIdx ∈ Finset.range (3 ^ DIM - 1),
    sent E processed linearIdx (d - getRelativeDirections DIM (linearIdx + 1))

/-- The particles of a supercell when these supercells have been processed. -/
noncomputable def after (E : DataSpace DIM → Multiset (ℕ × A)) (processed : Set (DataSpace DIM))
    (d : DataSpace DIM) :
    Multiset (ℕ × A) :=
  kept E processed d + (arriving E processed d).map (Prod.mk 1)

variable {E : DataSpace DIM → Multiset (ℕ × A)} {P Q : Set (DataSpace DIM)} {d c : DataSpace DIM}
  {linearIdx : ℕ}

theorem kept_of_mem (h : d ∈ P) : kept E P d = staying (E d) := if_pos h
theorem kept_of_notMem (h : d ∉ P) : kept E P d = E d := if_neg h
theorem sent_of_mem (h : d ∈ P) : sent E P linearIdx d = leaving (E d) linearIdx := if_pos h
theorem sent_of_notMem (h : d ∉ P) : sent E P linearIdx d = 0 := if_neg h

theorem staying_map_one (a : Multiset A) : staying (a.map (Prod.mk 1)) = a.map (Prod.mk 1) :=
  staying_eq_self fun e he => by
    obtain ⟨b, -, rfl⟩ := Multiset.mem_map.mp he
    rfl

theorem leaving_map_one (a : Multiset A) : leaving (a.map (Prod.mk 1)) linearIdx = 0 :=
  leaving_eq_zero fun e he => by
    obtain ⟨b, -, rfl⟩ := Multiset.mem_map.mp he
    rfl

theorem after_empty : after E ∅ d = E d := by
  have hnone : arriving E ∅ d = 0 :=
    Finset.sum_eq_zero fun linearIdx _ => sent_of_notMem (Set.notMem_empty _)
  rw [after, kept_of_notMem (Set.notMem_empty d), hnone, Multiset.map_zero, add_zero]

/-- What has come to a supercell does not leave it. -/
theorem leaving_after (hc : c ∉ P) : leaving (after E P c) linearIdx = leaving (E c) linearIdx := by
  rw [after, kept_of_notMem hc, leaving_add, leaving_map_one, add_zero]

theorem sent_union (hdisjoint : ∀ c ∈ Q, c ∉ P) :
    sent E (P ∪ Q) linearIdx c = sent E P linearIdx c + sent (after E P) Q linearIdx c := by
  by_cases hq : c ∈ Q
  · have hp : c ∉ P := hdisjoint _ hq
    rw [sent_of_mem (Or.inr hq), sent_of_mem hq, sent_of_notMem hp, leaving_after hp, zero_add]
  · rw [sent_of_notMem hq, add_zero]
    by_cases hp : c ∈ P
    · rw [sent_of_mem hp, sent_of_mem (Or.inl hp)]
    · rw [sent_of_notMem hp, sent_of_notMem (not_or.mpr ⟨hp, hq⟩)]

theorem kept_after (hdisjoint : ∀ c ∈ Q, c ∉ P) :
    kept (after E P) Q d = kept E (P ∪ Q) d + (arriving E P d).map (Prod.mk 1) := by
  by_cases hq : d ∈ Q
  · have hp : d ∉ P := hdisjoint _ hq
    rw [kept_of_mem hq, kept_of_mem (Or.inr hq), after, kept_of_notMem hp, staying_add, staying_map_one]
  · rw [kept_of_notMem hq, after]
    refine congrArg (· + _) ?_
    by_cases hp : d ∈ P
    · rw [kept_of_mem hp, kept_of_mem (Or.inl hp)]
    · rw [kept_of_notMem hp, kept_of_notMem (not_or.mpr ⟨hp, hq⟩)]

/-- **One launch after the other.** -/
theorem after_after (hdisjoint : ∀ c ∈ Q, c ∉ P) : after (after E P) Q d = after E (P ∪ Q) d := by
  have hsum : arriving E (P ∪ Q) d = arriving E P d + arriving (after E P) Q d := by
    rw [arriving, arriving, arriving, ← Finset.sum_add_distrib]
    exact Finset.sum_congr rfl fun linearIdx _ => sent_union hdisjoint
  rw [after, kept_after hdisjoint, after, hsum, Multiset.map_add, add_assoc]

theorem card_sent_le (E : DataSpace DIM → Multiset (ℕ × A)) (P : Set (DataSpace DIM))
    (linearIdx : ℕ) (d : DataSpace DIM) :
    (sent E P linearIdx d).card ≤ (E d).card := by
  by_cases h : d ∈ P
  · rw [sent_of_mem h]
    exact card_leaving_le _ _
  · rw [sent_of_notMem h]
    exact Nat.zero_le _

/-- A supercell never holds more particles than it and its neighbours held. -/
theorem card_after_le (E : DataSpace DIM → Multiset (ℕ × A)) (P : Set (DataSpace DIM))
    (d : DataSpace DIM) :
    (after E P d).card ≤ (E d).card +
      ∑ linearIdx ∈ Finset.range (3 ^ DIM - 1),
        (E (d - getRelativeDirections DIM (linearIdx + 1))).card := by
  rw [after, Multiset.card_add, Multiset.card_map, arriving, Multiset.card_sum]
  refine Nat.add_le_add ?_ (Finset.sum_le_sum fun linearIdx _ => card_sent_le E P linearIdx _)
  by_cases h : d ∈ P
  · rw [kept_of_mem h]
    exact Multiset.card_le_card (Multiset.filter_le ..)
  · rw [kept_of_notMem h]

/-- A neighbour has room for what it still gets. -/
theorem card_after_add_le {K : KernelShiftParticles DIM} (hactive : Active K c linearIdx) (hc : c ∉ P) :
    (after E P (neighborSuperCellIdx c linearIdx)).card + (leaving (after E P c) linearIdx).card ≤
      (after E (P ∪ {c}) (neighborSuperCellIdx c linearIdx)).card := by
  have hne : neighborSuperCellIdx c linearIdx ∉ ({c} : Set (DataSpace DIM)) := hactive.neighbor_ne
  have hmem : linearIdx ∈ Finset.range (3 ^ DIM - 1) :=
    Finset.mem_range.mpr (Nat.lt_sub_of_add_lt hactive.1)
  have hback : neighborSuperCellIdx c linearIdx - getRelativeDirections DIM (linearIdx + 1) = c :=
    add_sub_cancel_right _ _
  have hsent : leaving (after E P c) linearIdx =
      sent (after E P) {c} linearIdx
        (neighborSuperCellIdx c linearIdx - getRelativeDirections DIM (linearIdx + 1)) := by
    rw [hback, sent_of_mem (Set.mem_singleton c)]
  have hunion : after E (P ∪ {c}) (neighborSuperCellIdx c linearIdx) =
    after E P (neighborSuperCellIdx c linearIdx) +
      (arriving (after E P) {c} (neighborSuperCellIdx c linearIdx)).map (Prod.mk 1) := by
    rw [← after_after (by rintro _ rfl; exact hc), after, kept_of_notMem hne]
  rw [hunion, hsent, Multiset.card_add, Multiset.card_map, arriving, Multiset.card_sum]
  exact Nat.add_le_add_left
    (Finset.single_le_sum
      (f := fun i => (sent (after E P) {c} i
        (neighborSuperCellIdx c linearIdx - getRelativeDirections DIM (i + 1))).card)
      (fun _ _ => Nat.zero_le _) hmem) _

end After

/-! ## A launch -/

section Launch

variable {K : KernelShiftParticles DIM} {box box' : ParticlesBox DIM frameSize A}
  {L L' : DataSpace DIM → List FramePtr}
  {blocks : Finset (DataSpace DIM)} {c d : DataSpace DIM} {linearIdx : ℕ}

/-- What leaves has a supercell to go to. -/
theorem Aimed.active {E : Multiset (ℕ × A)} (h : Aimed K c E) (hne : leaving E linearIdx ≠ 0) :
    Active K c linearIdx := by
  obtain ⟨a, ha⟩ := Multiset.exists_mem_of_ne_zero hne
  obtain ⟨e, he, -⟩ := Multiset.mem_map.mp ha
  obtain ⟨he, hmask⟩ := Multiset.mem_filter.mp he
  rcases h e he with hone | ⟨direction, hactive, hdirection⟩
  · omega
  · obtain rfl : linearIdx = direction := by omega
    exact hactive

/-- The supercells that a launch processes. -/
def processedBlocks (K : KernelShiftParticles DIM) (blocks : Finset (DataSpace DIM))
    (box : ParticlesBox DIM frameSize A) :
    Set (DataSpace DIM) :=
  {c | c ∈ blocks ∧ isProcessedSupercell K box c = true}

/-- What comes to a supercell is sent by a block that has it as a neighbour. -/
theorem Launch.exists_sender (h : Launch K blocks L box)
    (hne : sent (fun d => box.entries (L d)) (processedBlocks K blocks box) linearIdx
      (d - getRelativeDirections DIM (linearIdx + 1)) ≠ 0) :
    ∃ c ∈ blocks, Active K c linearIdx ∧ d = neighborSuperCellIdx c linearIdx := by
  have hmem : d - getRelativeDirections DIM (linearIdx + 1) ∈ processedBlocks K blocks box := by
    by_contra hnot
    exact hne (sent_of_notMem hnot)
  rw [sent_of_mem hmem] at hne
  exact ⟨_, hmem.1, (h.aimed _ hmem.1 hmem.2).active hne, (sub_add_cancel _ _).symm⟩

/-- Only the block of a region sends into it. -/
theorem Launch.sender_unique (h : Launch K blocks L box) (hc : c ∈ blocks) (hd : d ∈ region K c)
    (hne : sent (fun d => box.entries (L d)) (processedBlocks K blocks box) linearIdx
      (d - getRelativeDirections DIM (linearIdx + 1)) ≠ 0) :
    Active K c linearIdx ∧ d = neighborSuperCellIdx c linearIdx := by
  obtain ⟨c', hc', hactive, hneighbor⟩ := h.exists_sender hne
  have hsame : c' = c := by
    by_contra hother
    exact h.disjoint c' hc' c hc hother d (Or.inr ⟨linearIdx, hactive, hneighbor⟩) hd
  exact hsame ▸ ⟨hactive, hneighbor⟩

theorem Launch.arriving_block (h : Launch K blocks L box) (hc : c ∈ blocks) :
    arriving (fun d => box.entries (L d)) (processedBlocks K blocks box) c = 0 := by
  refine Finset.sum_eq_zero fun linearIdx _ => ?_
  by_contra hne
  obtain ⟨hactive, hneighbor⟩ := h.sender_unique hc self_mem_region hne
  exact hactive.neighbor_ne hneighbor.symm

theorem Launch.arriving_neighbor (h : Launch K blocks L box) (hc : c ∈ blocks)
    (hactive : Active K c linearIdx) :
    arriving (fun d => box.entries (L d)) (processedBlocks K blocks box)
      (neighborSuperCellIdx c linearIdx) =
      sent (fun d => box.entries (L d)) (processedBlocks K blocks box) linearIdx c := by
  have hback : neighborSuperCellIdx c linearIdx - getRelativeDirections DIM (linearIdx + 1) = c :=
    add_sub_cancel_right _ _
  have hmem : linearIdx ∈ Finset.range (3 ^ DIM - 1) :=
    Finset.mem_range.mpr (Nat.lt_sub_of_add_lt hactive.1)
  refine (Finset.sum_eq_single_of_mem linearIdx hmem fun linearIdx' _ hne => ?_).trans (by rw [hback])
  by_contra hsent
  obtain ⟨hactive', hneighbor⟩ := h.sender_unique hc hactive.mem_region hsent
  exact hne (hactive'.neighbor_inj hactive hneighbor.symm)

theorem Launch.arriving_far (h : Launch K blocks L box) (hfar : ¬ ∃ c ∈ blocks, d ∈ region K c) :
    arriving (fun d => box.entries (L d)) (processedBlocks K blocks box) d = 0 := by
  refine Finset.sum_eq_zero fun linearIdx _ => ?_
  by_contra hne
  obtain ⟨c, hc, hactive, hneighbor⟩ := h.exists_sender hne
  exact hfar ⟨c, hc, Or.inr ⟨linearIdx, hactive, hneighbor⟩⟩

/-- **A launch moves the particles** of the supercells that it processes. -/
theorem Launched.entries (h : Launched K blocks L box L' box') (hlaunch : Launch K blocks L box)
    (d : DataSpace DIM) :
    box'.entries (L' d) = after (fun d => box.entries (L d)) (processedBlocks K blocks box) d := by
  rw [after]
  by_cases hnear : ∃ c ∈ blocks, d ∈ region K c
  · obtain ⟨c, hc, rfl | ⟨linearIdx, hactive, rfl⟩⟩ := hnear
    · rw [hlaunch.arriving_block hc, Multiset.map_zero, add_zero, (h.moved d hc).stayed]
      by_cases hprocessed : isProcessedSupercell K box d = true
      · have hmem : d ∈ processedBlocks K blocks box := ⟨hc, hprocessed⟩
        rw [if_pos hprocessed, kept_of_mem hmem]
      · rw [if_neg hprocessed, kept_of_notMem fun hmem => hprocessed hmem.2]
    · have hnot : neighborSuperCellIdx c linearIdx ∉ processedBlocks K blocks box := fun hmem =>
        hlaunch.disjoint _ hmem.1 c hc hactive.neighbor_ne _ self_mem_region hactive.mem_region
      rw [kept_of_notMem hnot, hlaunch.arriving_neighbor hc hactive,
        (h.moved c hc).arrived linearIdx hactive]
      refine congrArg (box.entries (L (neighborSuperCellIdx c linearIdx)) + ·) ?_
      by_cases hprocessed : isProcessedSupercell K box c = true
      · have hmem : c ∈ processedBlocks K blocks box := ⟨hc, hprocessed⟩
        rw [if_pos hprocessed, sent_of_mem hmem]
      · rw [if_neg hprocessed, sent_of_notMem fun hmem => hprocessed hmem.2, Multiset.map_zero]
  · have hnot : d ∉ processedBlocks K blocks box := fun hmem => hnear ⟨d, hmem.1, self_mem_region⟩
    rw [kept_of_notMem hnot, hlaunch.arriving_far hnear, Multiset.map_zero, add_zero]
    exact h.within.entries hnear

end Launch

/-! ## All of the launches -/

/-- The host between the launches: the mapper, which is `none` when the loop has been left, and the
kernel. -/
structure ShiftState (DIM frameSize : ℕ) (A : Type) where
  mapper : Option (StrideMapping DIM)
  kernel : State DIM frameSize A

/-- The supercells of the blocks of a launch. -/
def launchSuperCells (mapper : StrideMapping DIM) : Finset (DataSpace DIM) :=
  (gridBlocks mapper.getGridDim).image mapper.getSuperCellIndex

theorem mem_launchSuperCells {mapper : StrideMapping DIM} {c : DataSpace DIM} :
    c ∈ launchSuperCells mapper ↔ c ∈ mapper.superCells := by
  rw [launchSuperCells, Finset.mem_image]
  exact exists_congr fun b => and_congr_left fun _ => mem_gridBlocks

/-- What the kernel is called with. -/
def shiftKernel (M : MappingDescription DIM) (onlyProcessMustShiftSupercells : Bool) :
    KernelShiftParticles DIM :=
  ⟨M.gridSuperCells, onlyProcessMustShiftSupercells⟩

/-- `ParticlesBase::shiftParticles` for an area: `do … while(mapper.next())`, and the launches in
the order of the queue. -/
def shiftParticles (M : MappingDescription DIM) (area : StrideArea)
    (onlyProcessMustShiftSupercells : Bool)
    (box : ParticlesBox DIM frameSize A) : StepSystem (ShiftState DIM frameSize A) where
  init s := s = ⟨some ⟨M, area, 3, 0⟩, ⟨box, fun _ => .start⟩⟩
  step s t := ∃ mapper, s.mapper = some mapper ∧
    ((∃ kernel, (system (shiftKernel M onlyProcessMustShiftSupercells)
      (launchSuperCells mapper) box).step s.kernel kernel ∧
        t = ⟨some mapper, kernel⟩) ∨
      (∀ c ∈ launchSuperCells mapper, (s.kernel.pc c).Finished) ∧
        t = ⟨mapper.next, ⟨s.kernel.box, fun _ => .start⟩⟩)

/-- What is asked of the particles. -/
structure ShiftInput (K : KernelShiftParticles DIM) (M : MappingDescription DIM)
    (area : Set (DataSpace DIM))
    (L : DataSpace DIM → List FramePtr) (box : ParticlesBox DIM frameSize A) : Prop where
  numExchanges : NumberOfExchanges DIM = 3 ^ DIM
  pos : 0 < frameSize
  le : frameSize * 2 ≤ INV_LOC_IDX
  holds : box.Holds L
  wellFormed : ∀ d ∈ M.gridCells, WellFormed box d (L d)
  aimed : ∀ c ∈ area, isProcessedSupercell K box c = true → Aimed K c (box.entries (L c))
  /-- The counters of particles are `int`. -/
  lt : ∀ d ∈ M.gridCells, (box.entries (L d)).card +
    ∑ linearIdx ∈ Finset.range (3 ^ DIM - 1),
      (box.entries (L (d - getRelativeDirections DIM (linearIdx + 1)))).card < 2 ^ 31

/-- What has been achieved when these supercells are through. -/
structure Passed (K : KernelShiftParticles DIM) (M : MappingDescription DIM) (P : Set (DataSpace DIM))
    (L : DataSpace DIM → List FramePtr) (box : ParticlesBox DIM frameSize A)
    (L' : DataSpace DIM → List FramePtr)
    (box' : ParticlesBox DIM frameSize A) : Prop where
  within : Within M.gridCells L box L' box'
  wellFormed : ∀ d ∈ M.gridCells, WellFormed box' d (L' d)
  entries : ∀ d, box'.entries (L' d) =
    after (fun d => box.entries (L d)) {c | c ∈ P ∧ isProcessedSupercell K box c = true} d
  mustShift : ∀ d ∈ P, (box'.superCells d).mustShift = false
  flags : ∀ d ∉ P, (box'.superCells d).mustShift = (box.superCells d).mustShift

section Passes

variable {K : KernelShiftParticles DIM} {M : MappingDescription DIM} {area P : Set (DataSpace DIM)}
  {L L' L'' : DataSpace DIM → List FramePtr} {box box' box'' : ParticlesBox DIM frameSize A}
  {S : StrideMapping DIM} {c d : DataSpace DIM}

theorem region_subset (hK : K.numSupercellsWithGuard = M.gridSuperCells) (hc : c ∈ M.gridCells) :
    region K c ⊆ M.gridCells := by
  rintro d (rfl | ⟨linearIdx, hactive, rfl⟩)
  · exact hc
  · have hvalid := hactive.2
    rw [hK] at hvalid
    exact hvalid

theorem Passed.isProcessedSupercell_eq (h : Passed K M P L box L' box') (hc : c ∉ P) :
    isProcessedSupercell K box' c = isProcessedSupercell K box c := by
  rw [isProcessedSupercell, isProcessedSupercell, h.flags c hc]

/-- **The next launch** has what it needs. -/
theorem Passed.launch (h : Passed K M P L box L' box') (hinput : ShiftInput K M area L box)
    (hK : K.numSupercellsWithGuard = M.gridSuperCells)
    (hS : S.Valid) (hstride : 3 ≤ S.stride) (hgrid : ∀ c ∈ S.superCells, c ∈ M.gridCells)
    (harea : S.superCells ⊆ area)
    (hdisjoint : ∀ c ∈ S.superCells, c ∉ P) : Launch K (launchSuperCells S) L' box' := by
  have hmem : ∀ {c}, c ∈ launchSuperCells S → c ∈ S.superCells := mem_launchSuperCells.mp
  have hnot : ∀ {c}, c ∈ S.superCells → c ∉ {c | c ∈ P ∧ isProcessedSupercell K box c = true} :=
    fun hc hP => hdisjoint _ hc hP.1
  have hcard : ∀ (Q : Set (DataSpace DIM)) {d}, d ∈ M.gridCells →
    (after (fun d => box.entries (L d)) Q d).card < 2 ^ 31 :=
    fun Q d hd => (card_after_le _ Q d).trans_lt (hinput.lt d hd)
  refine ⟨h.within.holds, fun c hc c' hc' hne d hd hd' => ?_,
    fun c hc d hd => h.wellFormed d (region_subset hK (hgrid c (hmem hc)) hd),
    fun c hc hprocessed => ?_,
    fun c hc => ⟨hinput.numExchanges, hinput.pos, hinput.le, ?_, fun linearIdx hactive => ?_⟩⟩
  · exact hS.not_near hstride (hmem hc) (hmem hc') hne (abs_sub_le_of_mem_region hd)
      (abs_sub_le_of_mem_region hd')
  · rw [h.isProcessedSupercell_eq (hdisjoint c (hmem hc))] at hprocessed
    rw [h.entries, after, kept_of_notMem (hnot (hmem hc))]
    intro e he
    rcases Multiset.mem_add.mp he with he | he
    · exact hinput.aimed c (harea (hmem hc)) hprocessed e he
    · obtain ⟨a, -, rfl⟩ := Multiset.mem_map.mp he
      exact Or.inl rfl
  · rw [h.entries]
    exact hcard _ (hgrid c (hmem hc))
  · rw [h.entries, h.entries]
    exact (card_after_add_le hactive (hnot (hmem hc))).trans_lt
      (hcard _ (region_subset hK (hgrid c (hmem hc)) hactive.mem_region))

/-- **What a launch adds.** -/
theorem Passed.launched (h : Passed K M P L box L' box')
    (hlaunch : Launch K (launchSuperCells S) L' box')
    (hlaunched : Launched K (launchSuperCells S) L' box' L'' box'')
    (hK : K.numSupercellsWithGuard = M.gridSuperCells)
    (hgrid : ∀ c ∈ S.superCells, c ∈ M.gridCells) (hdisjoint : ∀ c ∈ S.superCells, c ∉ P) :
    Passed K M (P ∪ S.superCells) L box L'' box'' := by
  have hmem : ∀ {c}, c ∈ launchSuperCells S ↔ c ∈ S.superCells := mem_launchSuperCells
  refine ⟨h.within.trans (hlaunched.within.mono ?_), fun d hd => ?_, fun d => ?_, fun d hd => ?_,
    fun d hd => ?_⟩
  · rintro d ⟨c, hc, hd⟩
    exact region_subset hK (hgrid c (hmem.mp hc)) hd
  · by_cases hnear : ∃ c ∈ launchSuperCells S, d ∈ region K c
    · obtain ⟨c, hc, rfl | ⟨linearIdx, hactive, rfl⟩⟩ := hnear
      · exact (hlaunched.moved d hc).wellFormed
      · exact (hlaunched.moved c hc).near linearIdx hactive
    · exact hlaunched.within.wellFormed hnear (h.wellFormed d hd)
  · have hcontents : (fun d => box'.entries (L' d)) =
        after (fun d => box.entries (L d)) {c | c ∈ P ∧ isProcessedSupercell K box c = true} :=
        funext h.entries
    rw [hlaunched.entries hlaunch, hcontents,
      after_after fun c hc hc' => hdisjoint c (hmem.mp hc.1) hc'.1]
    congr 1
    ext c
    constructor
    · rintro (⟨hc, hprocessed⟩ | ⟨hc, hprocessed⟩)
      · exact ⟨Or.inl hc, hprocessed⟩
      · rw [h.isProcessedSupercell_eq (hdisjoint c (hmem.mp hc))] at hprocessed
        exact ⟨Or.inr (hmem.mp hc), hprocessed⟩
    · rintro ⟨hc | hc, hprocessed⟩
      · exact Or.inl ⟨hc, hprocessed⟩
      · refine Or.inr ⟨hmem.mpr hc, ?_⟩
        rwa [h.isProcessedSupercell_eq (hdisjoint c hc)]
  · by_cases hc : d ∈ S.superCells
    · exact (hlaunched.moved d (hmem.mpr hc)).mustShift
    · rw [hlaunched.mustShift d fun hd' => hc (hmem.mp hd')]
      exact h.mustShift d (hd.resolve_right hc)
  · rw [hlaunched.mustShift d fun hd' => hd (Or.inr (hmem.mp hd'))]
    exact h.flags d fun hP => hd (Or.inl hP)

/-- The supercells of the launches before an offset. -/
def launchedBefore (S : StrideMapping DIM) (r : ℤ) : Set (DataSpace DIM) :=
  {c | ∃ r', 0 ≤ r' ∧ r' < r ∧ c ∈ (S.atOffset r').superCells}

theorem notMem_launchedBefore (hS : S.Valid) (hc : c ∈ S.superCells) :
    c ∉ launchedBefore S S.linearOffset := by
  rintro ⟨r, hr, hlt, hc'⟩
  have hself := hS.linearOffset_mem
  rw [← hS.atOffset_linearOffset] at hc
  exact hlt.ne (hS.offset_unique ⟨hr, hlt.trans hself.2⟩ hself hc' hc)

/-- The launches between two offsets have no supercells. -/
theorem launchedBefore_eq (hS : S.Valid) {r : ℤ} (hlt : S.linearOffset < r)
    (hskip : ∀ r', S.linearOffset < r' → r' < r → (S.atOffset r').superCells = ∅) :
    launchedBefore S S.linearOffset ∪ S.superCells = launchedBefore S r := by
  have hself := hS.atOffset_linearOffset
  ext c
  constructor
  · rintro (⟨r', hr', hlt', hc⟩ | hc)
    · exact ⟨r', hr', hlt'.trans hlt, hc⟩
    · exact ⟨S.linearOffset, hS.linearOffset_mem.1, hlt, by rwa [hself]⟩
  · rintro ⟨r', hr', hlt', hc⟩
    rcases lt_trichotomy r' S.linearOffset with hbefore | rfl | hafter
    · exact Or.inl ⟨r', hr', hbefore, hc⟩
    · rw [hself] at hc
      exact Or.inr hc
    · rw [hskip r' hafter hlt'] at hc
      exact absurd hc (Set.notMem_empty c)

theorem launchedBefore_productOfComponents (hS : S.Valid) :
    launchedBefore S (Communication.productOfComponents S.strides) = S.areaCells := by
  ext c
  constructor
  · rintro ⟨r, hr, hlt, hc⟩
    exact ((hS.atOffset ⟨hr, hlt⟩).mem_superCells.mp hc).1
  · intro hc
    obtain ⟨r, hr, hc⟩ := hS.exists_offset hc
    exact ⟨r, hr.1, hr.2, hc⟩

end Passes

/-- The launches from a mapper on. -/
theorem shiftParticles_from {M : MappingDescription DIM} {area : StrideArea} {only : Bool}
    {L L' : DataSpace DIM → List FramePtr}
    {box box' : ParticlesBox DIM frameSize A} {S : StrideMapping DIM}
    (hinput : ShiftInput (shiftKernel M only) M S.areaCells L box)
    (hS : S.Valid) (hbase : S.base = M) (hstride : 3 ≤ S.stride)
    (h : Passed (shiftKernel M only) M (launchedBefore S S.linearOffset) L box L' box') :
    (shiftParticles M area only box).Ends ⟨some S, ⟨box', fun _ => .start⟩⟩ fun s =>
      s.mapper = none ∧ ∃ L', Passed (shiftKernel M only) M S.areaCells L box L' s.kernel.box := by
  induction hn : (Communication.productOfComponents S.strides - S.linearOffset).toNat using Nat.strong_induction_on
    generalizing S L' box' with
  | _ n ih =>
    have hgrid : ∀ c ∈ S.superCells, c ∈ M.gridCells := fun c hc => by
      have hcell := (hS.mem_superCells.mp hc).1
      rw [hS.areaCells_eq] at hcell
      exact hbase ▸ hS.holdsBorder.inner_subset_gridCells S.layers_bounds.1 hcell
    have hdisjoint : ∀ c ∈ S.superCells, c ∉ launchedBefore S S.linearOffset :=
      fun c hc => notMem_launchedBefore hS hc
    have hlaunch : Launch (shiftKernel M only) (launchSuperCells S) L' box' :=
      h.launch hinput rfl hS hstride hgrid (fun c hc => (hS.mem_superCells.mp hc).1) hdisjoint
    refine StepSystem.Ends.phase (S := shiftParticles M area only box)
      (fun kernel : State DIM frameSize A => (⟨some S, kernel⟩ : ShiftState DIM frameSize A))
      (fun t t' hstep => ⟨S, rfl, Or.inl ⟨t', hstep, rfl⟩⟩) ?_ ?_ (shift_ends hlaunch)
    · rintro t s ⟨mapper, hmapper, ⟨kernel, hstep, rfl⟩ | ⟨hfinished, rfl⟩⟩
      · obtain rfl := Option.some.inj hmapper
        exact Or.inl ⟨kernel, hstep, rfl⟩
      · obtain rfl := Option.some.inj hmapper
        refine Or.inr ⟨?_, ?_⟩
        · rintro t' ⟨c, hc, box₁, pc₁, hstep, -⟩
          exact hstep.not_finished (hfinished c hc)
        · rintro ⟨-, L'', hlaunched⟩
          have hpassed := h.launched hlaunch hlaunched rfl hgrid hdisjoint
          rcases hnext : S.next with _ | T
          · rw [launchedBefore_eq hS hS.linearOffset_mem.2 fun r' hr' hlt =>
              hS.next_spec.2 hnext r' hr' hlt,
              launchedBefore_productOfComponents hS] at hpassed
            refine StepSystem.Ends.of_terminal ?_ ⟨rfl, L'', hpassed⟩
            rintro s ⟨mapper, hmapper, -⟩
            exact Option.some_ne_none mapper hmapper.symm
          · obtain ⟨r, hlt, hr, rfl, hskip⟩ := hS.next_spec.1 T hnext
            have hmem : r ∈ Set.Ico 0 (Communication.productOfComponents S.strides) :=
              ⟨by have := hS.linearOffset_mem.1; omega, hr⟩
            have hoffset := hS.linearOffset_atOffset hmem
            rw [launchedBefore_eq hS hlt hskip] at hpassed
            refine ih _ ?_ hinput (hS.atOffset hmem) hbase hstride (by rw [hoffset]; exact hpassed) rfl
            rw [hoffset, StrideMapping.atOffset_strides]
            omega
    · rintro t - ⟨hfinished, -⟩ hterminal
      exact hterminal _ ⟨S, rfl, Or.inr ⟨hfinished, rfl⟩⟩

end ShiftParticles

open ShiftParticles in
/-- **Shifting the particles of an area.**  All launches end, whatever numbers the threads get,
whatever frames the heap gives out and in whatever order the blocks of a launch and their threads
act.  Then every particle that was about to leave a supercell that is processed is settled in the
neighbour in its direction, once and with its attributes; all others are where they were.  The
supercells of the grid are well-formed, `mustShift` is reset in the area, and no frame is lost.  An axis
with the stride added must be an `int`. -/
theorem shiftParticles_ends {M : MappingDescription DIM} (hM : M.Usable)
    (hsum : ∀ d, M.gridSuperCells d + 3 < 2 ^ 31) (area : StrideArea) (only : Bool)
    {L : DataSpace DIM → List FramePtr} {box : ParticlesBox DIM frameSize A}
    (h : ShiftInput (shiftKernel M only) M (⟨M, area, 3, 0⟩ : StrideMapping DIM).areaCells L box) :
    (shiftParticles M area only box).Ends ⟨some ⟨M, area, 3, 0⟩, ⟨box, fun _ => .start⟩⟩ fun s =>
      s.mapper = none ∧ ∃ L',
        Passed (shiftKernel M only) M
          (⟨M, area, 3, 0⟩ : StrideMapping DIM).areaCells L box L' s.kernel.box := by
  have hoffsets : 3 ^ DIM < 2 ^ 31 := by
    rw [← h.numExchanges]
    unfold NumberOfExchanges
    split <;> decide
  have hS : (⟨M, area, 3, 0⟩ : StrideMapping DIM).Valid := StrideMapping.valid_zero hM area (by decide) hoffsets hsum
  have hzero := StrideMapping.linearOffset_zero M area 3
  have hnone : launchedBefore (⟨M, area, 3, 0⟩ : StrideMapping DIM) 0 = ∅ := by
    ext c
    simp only [launchedBefore, Set.mem_ofPred_eq, Set.mem_empty_iff_false, iff_false]
    rintro ⟨r, hr, hlt, -⟩
    omega
  have hempty : {c | c ∈ (∅ : Set (DataSpace DIM)) ∧
    isProcessedSupercell (shiftKernel M only) box c = true} = ∅ :=
    Set.eq_empty_of_forall_notMem fun c hc => hc.1
  have hstart : Passed (shiftKernel M only) M ∅ L box L box := by
    refine ⟨Within.refl h.holds, h.wellFormed, fun d => ?_,
      fun d hd => absurd hd (Set.notMem_empty d), fun _ _ => rfl⟩
    rw [hempty, after_empty]
  exact shiftParticles_from h hS rfl le_rfl (by rw [hzero, hnone]; exact hstart)

namespace ShiftParticles

/-- A frame with a particle that is about to leave to the right. -/
def markedBox : ParticlesBox 2 2 ℕ :=
  let memory : ParticlesBox 2 2 ℕ :=
    ⟨fun _ => ⟨fun _ => ⟨0, 0⟩, none, none⟩, ∅, fun _ => ⟨none, none, 0, false⟩⟩
  ((((memory.reset.getEmptyFrame 0).setAsLastFrame 0 ![1, 1]).setSlots 0
    ![⟨2, 7⟩, ⟨0, 0⟩]).setNumParticles ![1, 1] 1).setMustShift ![1, 1] true

/-- The frames of `markedBox`. -/
def markedLists : DataSpace 2 → List FramePtr := Function.update (fun _ => []) ![1, 1] [0]

theorem markedLists_of_ne {c : DataSpace 2} (hc : c ≠ ![1, 1]) : markedLists c = [] := by
  rw [markedLists, Function.update_of_ne hc]

theorem markedBox_holds : markedBox.Holds markedLists :=
  (((((ParticlesBox.Holds.reset
    (⟨fun _ => ⟨fun _ => ⟨0, 0⟩, none, none⟩, ∅, fun _ => ⟨none, none, 0, false⟩⟩ :
      ParticlesBox 2 2 ℕ)).getEmptyFrame (p := 0)).setAsLastFrame
        (fun _ => List.not_mem_nil) (Finset.mem_insert_self 0 _)
        ![1, 1]).setSlots _).setNumParticles _).setMustShift _

theorem markedBox_superCells_of_ne {c : DataSpace 2} (hc : c ≠ ![1, 1]) :
    markedBox.superCells c = ⟨none, none, 0, false⟩ := by
  rw [markedBox, ParticlesBox.setMustShift, ParticlesBox.setSuperCell_superCells_of_ne _ hc,
    ParticlesBox.setNumParticles,
    ParticlesBox.setSuperCell_superCells_of_ne _ hc, ParticlesBox.setSlots,
    ParticlesBox.setFrame_superCells,
    ParticlesBox.setAsLastFrame_superCells_of_ne _ _ hc]
  rfl

theorem markedBox_wellFormed (c : DataSpace 2) : WellFormed markedBox c (markedLists c) := by
  have hlist := markedBox_holds.list c
  rcases eq_or_ne c ![1, 1] with rfl | hne
  · rw [markedLists, Function.update_self] at hlist ⊢
    change markedBox.ListAt .last _ ([] ++ [0]) at hlist
    exact FillGaps.wellFormed_of_packed Nat.one_pos hlist (fun p hp => absurd hp List.not_mem_nil)
      ⟨by decide, by decide⟩
      (by decide) (by decide)
  · rw [markedLists_of_ne hne] at hlist ⊢
    exact FillGaps.wellFormed_of_full (by decide) hlist (fun p hp => absurd hp List.not_mem_nil)
      (by rw [markedBox_superCells_of_ne hne]; rfl) (by decide)

theorem markedBox_entries : markedBox.entries (markedLists ![1, 1]) = {(2, 7)} := by
  rw [markedLists, Function.update_self]
  decide

theorem markedBox_card_le (c : DataSpace 2) : (markedBox.entries (markedLists c)).card ≤ 1 := by
  rcases eq_or_ne c ![1, 1] with rfl | hne
  · rw [markedBox_entries]
    rfl
  · rw [markedLists_of_ne hne]
    exact Nat.zero_le 1

theorem markedBox_input :
    ShiftInput (shiftKernel sixteenSuperCells true) sixteenSuperCells
      (⟨sixteenSuperCells, .CORE_BORDER, 3, 0⟩ : StrideMapping 2).areaCells markedLists markedBox where
  numExchanges := rfl
  pos := by decide
  le := by decide
  holds := markedBox_holds
  wellFormed d _ := markedBox_wellFormed d
  aimed c _ _ e he := by
    rcases eq_or_ne c ![1, 1] with rfl | hne
    · rw [markedBox_entries] at he
      obtain rfl := Multiset.mem_singleton.mp he
      exact Or.inr ⟨0, ⟨by decide, by decide⟩, rfl⟩
    · rw [markedLists_of_ne hne] at he
      exact absurd he (Multiset.notMem_zero e)
  lt d _ := by
    refine (Nat.add_le_add (markedBox_card_le d)
      (Finset.sum_le_card_nsmul _ _ 1 fun linearIdx _ => markedBox_card_le _)).trans_lt ?_
    rw [Finset.card_range]
    decide

end ShiftParticles

open ShiftParticles in
/-- Its particle is in the supercell to the right afterwards. -/
theorem shiftParticles_ends_markedBox :
    (shiftParticles sixteenSuperCells .CORE_BORDER true markedBox).Ends
        ⟨some ⟨sixteenSuperCells, .CORE_BORDER, 3, 0⟩, ⟨markedBox, fun _ => .start⟩⟩ fun s =>
      s.mapper = none ∧ ∃ L', Passed (shiftKernel sixteenSuperCells true) sixteenSuperCells
        (⟨sixteenSuperCells, .CORE_BORDER, 3, 0⟩ : StrideMapping 2).areaCells
        markedLists markedBox L' s.kernel.box :=
  shiftParticles_ends sixteenSuperCells_usable (by decide) .CORE_BORDER true markedBox_input

end PmaccParticles
end Spearhed
