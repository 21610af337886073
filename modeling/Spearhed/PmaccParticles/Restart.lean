import Spearhed.PmaccParticles.ParticlesBase
import Spearhed.PmaccParticles.SplitIntoListOfFrames

/-!
# Restarting from a dump

The particles of CORE and BORDER are written to one frame by `ConcatListOfFrames`; later the frame is split
into the frame lists of an empty buffer by `splitIntoListOfFrames`, which ends with `fillAllGaps`.

* `bijOn_loop`: the iterations of the dump have the supercells of the area, one each.
* `concatListOfFrames_ends`, `splitIntoListOfFrames_ends`: what the two operations do on their own.
* `superCell_record`, `attributes_record`: the cell of the domain gives back the supercell and the local cell.
* `restart_ends`: dump, split and fill, in whatever order their actions come, restore every supercell.
-/

namespace Spearhed
namespace PmaccParticles
namespace Restart

open Communication ForEachParticle Library Mappings MappingDescription

variable {DIM frameSize : ℕ} {B : Type}

/-- The dump of a local domain, without a filter. -/
def dump (M : MappingDescription DIM) (superCellSize domainOffset : DataSpace DIM) : ConcatListOfFrames DIM B :=
  ⟨superCellSize, M.guardingSuperCells, domainOffset, fun _ _ => true, fun _ _ => true⟩

/-- The particles that a dump has written are split. -/
def load (M : MappingDescription DIM) (superCellSize domainOffset : DataSpace DIM) (s : ConcatListOfFrames.State DIM B) :
    SplitIntoListOfFrames DIM B :=
  ⟨M, superCellSize, domainOffset, s.destFrame, s.counter.toNat⟩

/-- The cells of a supercell have numbers that fit into a `lcellId_t`. -/
def LocalCells (superCellSize : DataSpace DIM) (a : Attributes B) : Prop :=
  0 ≤ a.localCellIdx ∧ a.localCellIdx < productOfComponents superCellSize

/-! ## The iterations of the dump -/

/-- The numbers of the loop are those of the blocks. -/
theorem bijOn_mapToND {extent : DataSpace DIM} (hextent : ∀ d, 0 ≤ extent d) :
    Set.BijOn (fun i : ℕ => mapToND extent i) (Finset.range (productOfComponents extent).toNat) (blocks extent) := by
  refine ⟨fun i hi => mapToND_mem hextent (Finset.mem_range.mp hi), fun i hi j hj heq => ?_, fun c hc => ?_⟩
  · have hi' := Finset.mem_range.mp hi
    have hj' := Finset.mem_range.mp hj
    have hpos : ∀ d, 0 < extent d := fun d => (hextent d).lt_of_ne fun hzero => by
      have hprod : productOfComponents extent = 0 := Finset.prod_eq_zero (Finset.mem_univ d) hzero.symm
      rw [hprod] at hi'
      exact absurd hi' (Nat.not_lt_zero i)
    have hlinear := congrArg (linearize extent) heq
    dsimp only at hlinear
    rw [linearize_mapToND hpos ⟨by omega, by omega⟩, linearize_mapToND hpos ⟨by omega, by omega⟩] at hlinear
    exact Int.ofNat_inj.mp hlinear
  · obtain ⟨hlo, hhi⟩ := linearize_mem hc
    refine ⟨(linearize extent c).toNat, Finset.mem_range.mpr (by omega), ?_⟩
    dsimp only
    rw [Int.toNat_of_nonneg hlo, mapToND_linearize hc]

section Loop

variable [GuardMapping DIM] (M : MappingDescription DIM) (area : AreaType)

/-- The supercells of the loop over `linearBlockIdx`. -/
def loopSuperCells : Finset (DataSpace DIM) :=
  (Finset.range (productOfComponents (M.getGridDim area)).toNat).image fun linearBlockIdx : ℕ =>
    M.getSuperCellIndex area (mapToND (M.getGridDim area) linearBlockIdx)

variable {M area} [LawfulGuardMapping DIM]

/-- **The loop goes over the supercells of the area**, each of which has one iteration. -/
theorem bijOn_loop (hM : M.Usable) :
    Set.BijOn (fun i : ℕ => M.getSuperCellIndex area (mapToND (M.getGridDim area) i))
      (Finset.range (productOfComponents (M.getGridDim area)).toNat) (M.areaCells area) :=
  (hM.bijOn area).comp (bijOn_mapToND (hM.gridDim_nonneg area))

theorem mem_loopSuperCells (hM : M.Usable) {c : DataSpace DIM} : c ∈ loopSuperCells M area ↔ c ∈ M.areaCells area := by
  rw [loopSuperCells, Finset.mem_image, ← (bijOn_loop hM).image_eq]
  rfl

theorem loopSuperCells_eq (hM : M.Usable) : loopSuperCells M area = areaSuperCells M area :=
  Finset.ext fun _ => (mem_loopSuperCells hM).trans (mem_areaSuperCells hM).symm

end Loop

/-! ## The two operations -/

/-- **`ConcatListOfFrames` over an area.**  Every iteration has a supercell of its own.  Whatever the order in
which they take places and copy, the selected particles of the area are written to the places behind the
counter, each of them to one, and nothing else is. -/
theorem concatListOfFrames_ends [GuardMapping DIM] [LawfulGuardMapping DIM] {M : MappingDescription DIM} (hM : M.Usable)
    (area : AreaType) (K : ConcatListOfFrames DIM B) {box : ParticlesBox DIM frameSize (Attributes B)}
    {L : DataSpace DIM → List FramePtr} (hbox : box.Holds L) {counter : ℤ} (hmin : -2 ^ 31 ≤ counter)
    (hmax : counter + K.total box (loopSuperCells M area) L < 2 ^ 31) (destFrame : ℤ → Record DIM B) :
    Set.BijOn (fun i : ℕ => M.getSuperCellIndex area (mapToND (M.getGridDim area) i))
        (Finset.range (productOfComponents (M.getGridDim area)).toNat) (M.areaCells area) ∧
      (K.system box (loopSuperCells M area) (ConcatListOfFrames.start box counter destFrame)).Ends
        (ConcatListOfFrames.start box counter destFrame) fun s =>
        ∃ log : List (Record DIM B),
          (log : Multiset (Record DIM B)) = ∑ c ∈ loopSuperCells M area, (K.selectedOf box c (L c) : Multiset (Record DIM B)) ∧
          s.counter = counter + log.length ∧ (∀ (k : ℕ) r, log[k]? = some r → s.destFrame (counter + k) = r) ∧
          ∀ x, x < counter ∨ counter + log.length ≤ x → s.destFrame x = destFrame x :=
  ⟨bijOn_loop hM, ConcatListOfFrames.concat_ends K hbox _ hmin hmax destFrame⟩

/-- **`splitIntoListOfFrames`.**  The kernel puts every particle of the source into its supercell, beside those
that are there already, and counts it; then `fillAllGaps` leaves every supercell of the grid well-formed. -/
theorem splitIntoListOfFrames_ends [GuardMapping DIM] [LawfulGuardMapping DIM] (K : SplitIntoListOfFrames DIM B)
    (hM : K.cellDesc.Usable) (hinput : K.Input frameSize) {box : ParticlesBox DIM frameSize (Attributes B)}
    {L : DataSpace DIM → List FramePtr} (hbox : box.Holds L) (hunmarked : ∀ c, ∀ p ∈ L c, Unmarked (box.frames p).slots)
    (hF : frameSize ≤ INV_LOC_IDX) (hlt : ∀ c, (box.particles (L c)).card + K.numParticles < 2 ^ 32) :
    (K.system box).Ends (SplitIntoListOfFrames.start box) fun s => s.loaded = K.numParticles ∧
      (fillGaps K.cellDesc .CORE_BORDER_GUARD s.box).Ends ⟨s.box, fun _ => .start⟩ fun u => ∃ L', u.box.Holds L' ∧
        (∀ c ∈ K.cellDesc.areaCells .CORE_BORDER_GUARD, WellFormed u.box c (L' c)) ∧
        ∀ c, u.box.particles (L' c) = box.particles (L c) + ∑ i ∈ Finset.range K.numParticles,
          if K.superCell (K.srcFrame i) = c then {K.attributes (K.srcFrame i)} else 0 := by
  refine (SplitIntoListOfFrames.split_ends K hinput hbox hunmarked).mono ?_
  rintro s ⟨L', hholds, hunmarked', hparticles, hloaded⟩
  have hcard : ∀ c, (s.box.particles (L' c)).card < 2 ^ 32 := fun c => by
    refine lt_of_le_of_lt ?_ (hlt c)
    rw [hparticles, Multiset.card_add, Multiset.card_sum]
    refine Nat.add_le_add_left ((Finset.sum_le_card_nsmul _ _ 1 fun i _ => ?_).trans ?_) _
    · split <;> simp
    · simp
  refine ⟨hloaded, (FillGaps.fillGaps_ends hholds (fun c _ => hunmarked' c) hinput.pos hF fun c _ => hcard c).mono ?_⟩
  rintro u ⟨L'', hkept, hwell⟩
  refine ⟨L'', hkept.holds, fun c hc => (hwell c ((mem_areaSuperCells hM).mpr hc)).2, fun c => ?_⟩
  rw [hkept.particles, hparticles]

section Positions

variable {M : MappingDescription DIM} {superCellSize domainOffset c : DataSpace DIM} {a : Attributes B}
  {s : ConcatListOfFrames.State DIM B} (hsize : ∀ d, 0 < superCellSize d)
include hsize

theorem mapToND_mem_superCell (i : ℤ) (d : Fin DIM) : 0 ≤ mapToND superCellSize i d ∧ mapToND superCellSize i d < superCellSize d := by
  have hpos : ∀ d, 0 < (superCellSize ∘ Fin.rev) d := fun d => hsize d.rev
  have hmem := rowMajorCoordinates_mem (r := i) hpos d.rev
  rwa [Function.comp_apply, Fin.rev_rev] at hmem

/-- **The cell of the domain leads back to the supercell.** -/
theorem particlesSuperCell_record (hc : c ∈ M.inner 1) :
    (load M superCellSize domainOffset s).particlesSuperCell ((dump M superCellSize domainOffset).record c a) =
      c - M.guardingSuperCells := by
  funext d
  obtain ⟨hlo, hhi⟩ := mapToND_mem_superCell hsize a.localCellIdx d
  have hle : 0 ≤ c d - M.guardingSuperCells d := by
    have hmem := (hc d).1
    rw [one_zsmul] at hmem
    omega
  have hoffset : (load M superCellSize domainOffset s).particleCellOffset ((dump M superCellSize domainOffset).record c a) d =
      mapToND superCellSize a.localCellIdx d + (c d - M.guardingSuperCells d) * superCellSize d := by
    show domainOffset d + (c d - M.guardingSuperCells d) * superCellSize d + mapToND superCellSize a.localCellIdx d -
      domainOffset d = _
    ring
  rw [SplitIntoListOfFrames.particlesSuperCell, hoffset]
  show Int.tdiv _ (superCellSize d) = c d - M.guardingSuperCells d
  rw [Int.tdiv_eq_ediv_of_nonneg (add_nonneg hlo (mul_nonneg hle (hsize d).le)), Int.add_mul_ediv_right _ _ (hsize d).ne',
    Int.ediv_eq_zero_of_lt hlo hhi, zero_add]

theorem superCell_record (hc : c ∈ M.inner 1) :
    (load M superCellSize domainOffset s).superCell ((dump M superCellSize domainOffset).record c a) = c := by
  rw [SplitIntoListOfFrames.superCell, particlesSuperCell_record hsize hc]
  exact sub_add_cancel c M.guardingSuperCells

/-- **And to the cell of the supercell**, whose number fits into a `lcellId_t`. -/
theorem attributes_record (hc : c ∈ M.inner 1) (ha : LocalCells superCellSize a) (hlcell : productOfComponents superCellSize ≤ 2 ^ 16) :
    (load M superCellSize domainOffset s).attributes ((dump M superCellSize domainOffset).record c a) = a := by
  have hlocal : (load M superCellSize domainOffset s).particleCellOffset ((dump M superCellSize domainOffset).record c a) -
      (c - M.guardingSuperCells) * superCellSize = mapToND superCellSize a.localCellIdx := by
    funext d
    show domainOffset d + (c d - M.guardingSuperCells d) * superCellSize d + mapToND superCellSize a.localCellIdx d -
      domainOffset d - (c d - M.guardingSuperCells d) * superCellSize d = _
    ring
  have hidx : (load M superCellSize domainOffset s).lCellIdx ((dump M superCellSize domainOffset).record c a) = a.localCellIdx := by
    rw [SplitIntoListOfFrames.lCellIdx, particlesSuperCell_record hsize hc]
    show linearize superCellSize (_ - (c - M.guardingSuperCells) * superCellSize) % 2 ^ 16 = _
    rw [hlocal, linearize_mapToND hsize ha, Int.emod_eq_of_lt ha.1 (ha.2.trans_le hlcell)]
  rw [SplitIntoListOfFrames.attributes, hidx]
  rfl

end Positions

/-! ## What is dumped -/

section Dump

variable {box : ParticlesBox DIM frameSize (Attributes B)} {M : MappingDescription DIM} {superCellSize domainOffset c : DataSpace DIM}

theorem sum_map_ite_singleton {α ι : Type} (l : List ι) (p : ι → Bool) (f : ι → α) :
    (l.map fun i => if p i = true then ({f i} : Multiset α) else 0).sum = ((l.filter p).map f : List α) := by
  induction l with
  | nil => rfl
  | cons i l ih =>
    rw [List.map_cons, List.sum_cons, ih]
    by_cases hi : p i = true
    · rw [if_pos hi, List.filter_cons_of_pos hi, List.map_cons, ← Multiset.cons_coe, Multiset.singleton_add]
    · rw [if_neg hi, List.filter_cons_of_neg hi, zero_add]

/-- The particles of a frame, slot by slot. -/
theorem slotParticles_eq_coe {A : Type} (slots : Fin frameSize → Slot A) :
    slotParticles slots = (((List.finRange frameSize).filter fun i => decide ((slots i).multiMask ≠ 0)).map
      fun i => (slots i).attributes : List A) := by
  rw [← sum_map_ite_singleton, slotParticles, Fin.sum_univ_def]
  refine congrArg List.sum (List.map_congr_left fun i _ => ?_)
  by_cases hi : (slots i).multiMask = 0 <;> simp [hi]

/-- Without a filter, every particle of a frame is selected. -/
theorem selected_dump {slots : Fin frameSize → Slot (Attributes B)} (h : Unmarked slots) :
    ((dump M superCellSize domainOffset).selected c slots : Multiset (Record DIM B)) =
      (slotParticles slots).map ((dump M superCellSize domainOffset).record c) := by
  have hselects : ∀ i, (dump M superCellSize domainOffset).selects c (slots i) = decide ((slots i).multiMask ≠ 0) := fun i => by
    rw [ConcatListOfFrames.selects]
    rcases h i with hi | hi <;> simp [dump, hi]
  rw [ConcatListOfFrames.selected, slotParticles_eq_coe, Multiset.map_coe, List.map_map,
    List.filter_congr fun i _ => hselects i]
  rfl

/-- What a dump writes for a supercell. -/
theorem selectedOf_dump {l : List FramePtr} (h : ∀ p ∈ l, Unmarked (box.frames p).slots) :
    ((dump M superCellSize domainOffset).selectedOf box c l : Multiset (Record DIM B)) =
      (box.particles l).map ((dump M superCellSize domainOffset).record c) := by
  induction l with
  | nil => rfl
  | cons p l ih =>
    obtain ⟨hp, hl⟩ := List.forall_mem_cons.mp h
    rw [ConcatListOfFrames.selectedOf, List.flatMap_cons, ← Multiset.coe_add, selected_dump hp, ParticlesBox.particles_cons,
      Multiset.map_add, ← ih hl]
    rfl

end Dump

/-! ## Dump and restart -/

section Restart

variable [GuardMapping DIM] {box : ParticlesBox DIM frameSize (Attributes B)} {L : DataSpace DIM → List FramePtr}
  {M : MappingDescription DIM} {superCellSize : DataSpace DIM}

/-- What is dumped, and that it can be loaded again. -/
structure Dumped (box : ParticlesBox DIM frameSize (Attributes B)) (L : DataSpace DIM → List FramePtr) (M : MappingDescription DIM)
    (superCellSize : DataSpace DIM) : Prop where
  holds : box.Holds L
  usable : M.Usable
  size : ∀ d, 0 < superCellSize d
  lcell : productOfComponents superCellSize ≤ 2 ^ 16
  unmarked : ∀ c ∈ areaSuperCells M .CORE_BORDER, ∀ p ∈ L c, Unmarked (box.frames p).slots
  localCells : ∀ c ∈ areaSuperCells M .CORE_BORDER, ∀ a ∈ box.particles (L c), LocalCells superCellSize a
  pos : 0 < frameSize
  frameSize_le : frameSize ≤ INV_LOC_IDX
  lt : ∑ c ∈ areaSuperCells M .CORE_BORDER, (box.particles (L c)).card < 2 ^ 31
  /-- The number of particles, rounded up to whole frames. -/
  rounded : (∑ c ∈ areaSuperCells M .CORE_BORDER, (box.particles (L c)).card + frameSize - 1) / frameSize * frameSize ≤ 2 ^ 31

/-- The records of the particles of an area. -/
def records (box : ParticlesBox DIM frameSize (Attributes B)) (L : DataSpace DIM → List FramePtr) (M : MappingDescription DIM)
    (superCellSize domainOffset : DataSpace DIM) : Multiset (Record DIM B) :=
  ∑ c ∈ areaSuperCells M .CORE_BORDER, (box.particles (L c)).map ((dump M superCellSize domainOffset).record c)

namespace Dumped

variable [LawfulGuardMapping DIM] (h : Dumped box L M superCellSize) (domainOffset : DataSpace DIM) {s : ConcatListOfFrames.State DIM B}
include h

theorem mem_inner {c : DataSpace DIM} (hc : c ∈ areaSuperCells M .CORE_BORDER) : c ∈ M.inner 1 := by
  rw [← h.usable.holdsBorder.core_union_border]
  exact (mem_areaSuperCells h.usable).mp hc

omit [LawfulGuardMapping DIM] in
theorem selectedOf_eq : ∑ c ∈ areaSuperCells M .CORE_BORDER,
    ((dump M superCellSize domainOffset).selectedOf box c (L c) : Multiset (Record DIM B)) =
    records box L M superCellSize domainOffset :=
  Finset.sum_congr rfl fun c hc => selectedOf_dump (h.unmarked c hc)

omit [LawfulGuardMapping DIM] in
theorem total_eq : (dump M superCellSize domainOffset).total box (areaSuperCells M .CORE_BORDER) L =
    ∑ c ∈ areaSuperCells M .CORE_BORDER, (box.particles (L c)).card :=
  Finset.sum_congr rfl fun c hc => by
    rw [← Multiset.coe_card, selectedOf_dump (h.unmarked c hc), Multiset.card_map]

omit [LawfulGuardMapping DIM] h in
theorem card_records : (records box L M superCellSize domainOffset).card =
    ∑ c ∈ areaSuperCells M .CORE_BORDER, (box.particles (L c)).card := by
  rw [records, Multiset.card_sum]
  exact Finset.sum_congr rfl fun c _ => Multiset.card_map _ _

/-- **Reading the records gives every supercell its particles.** -/
theorem sum_records (c : DataSpace DIM) :
    ((records box L M superCellSize domainOffset).map fun r =>
      if (load M superCellSize domainOffset s).superCell r = c then
        ({(load M superCellSize domainOffset s).attributes r} : Multiset (Attributes B)) else 0).sum =
      if c ∈ areaSuperCells M .CORE_BORDER then box.particles (L c) else 0 := by
  have hone : ∀ d ∈ areaSuperCells M .CORE_BORDER, ∀ a ∈ box.particles (L d),
      (if (load M superCellSize domainOffset s).superCell ((dump M superCellSize domainOffset).record d a) = c then
        ({(load M superCellSize domainOffset s).attributes ((dump M superCellSize domainOffset).record d a)} : Multiset (Attributes B))
        else 0) = if d = c then {a} else 0 := fun d hd a ha => by
    rw [superCell_record h.size (h.mem_inner hd), attributes_record h.size (h.mem_inner hd) (h.localCells d hd a ha) h.lcell]
  have hcell : ∀ d ∈ areaSuperCells M .CORE_BORDER, (((box.particles (L d)).map ((dump M superCellSize domainOffset).record d)).map fun r =>
      if (load M superCellSize domainOffset s).superCell r = c then
        ({(load M superCellSize domainOffset s).attributes r} : Multiset (Attributes B)) else 0).sum =
      if d = c then box.particles (L d) else 0 := fun d hd => by
    rw [Multiset.map_map]
    refine (congrArg Multiset.sum (Multiset.map_congr rfl fun a ha => hone d hd a ha)).trans ?_
    split
    · exact Multiset.sum_map_singleton _
    · exact Multiset.sum_map_zero
  rw [records, ← Multiset.coe_mapAddMonoidHom, map_sum, ← Multiset.coe_sumAddMonoidHom, map_sum]
  refine (Finset.sum_congr rfl fun d hd => (hcell d hd :)).trans ?_
  rw [Finset.sum_ite_eq']

/-- **What was written can be split.** -/
theorem input {log : List (Record DIM B)} (hlog : (log : Multiset (Record DIM B)) = records box L M superCellSize domainOffset)
    (hcounter : s.counter = log.length) (hdest : ∀ (k : ℕ) r, log[k]? = some r → s.destFrame k = r) :
    (load M superCellSize domainOffset s).Input frameSize := by
  have hlength : log.length = ∑ c ∈ areaSuperCells M .CORE_BORDER, (box.particles (L c)).card := by
    rw [← card_records domainOffset, ← hlog, Multiset.coe_card]
  have hnum : (load M superCellSize domainOffset s).numParticles = ∑ c ∈ areaSuperCells M .CORE_BORDER, (box.particles (L c)).card := by
    rw [← hlength]
    show s.counter.toNat = _
    rw [hcounter, Int.toNat_natCast]
  refine ⟨h.pos, hnum ▸ h.lt, ?_, fun i hi => ?_⟩
  · rw [SplitIntoListOfFrames.numBlocks, hnum]
    exact h.rounded
  · rw [hnum, ← hlength] at hi
    have hget : log[i]? = some log[i] := List.getElem?_eq_getElem hi
    have hmem : log[i] ∈ records box L M superCellSize domainOffset := by
      rw [← hlog]
      exact Multiset.mem_coe.mpr (List.getElem_mem hi)
    obtain ⟨c, hc, hr⟩ := Multiset.mem_sum.mp hmem
    obtain ⟨a, -, hr⟩ := Multiset.mem_map.mp hr
    have hsrc : (load M superCellSize domainOffset s).srcFrame i = (dump M superCellSize domainOffset).record c a :=
      (hdest i _ hget).trans hr.symm
    rw [hsrc, particlesSuperCell_record h.size (h.mem_inner hc)]
    intro d
    obtain ⟨hlo, hhi⟩ := h.mem_inner hc d
    rw [one_zsmul] at hlo
    rw [one_zsmul] at hhi
    show 0 ≤ c d - M.guardingSuperCells d ∧ c d - M.guardingSuperCells d < M.gridSuperCells d - M.guardingSuperCells d * 2
    have hhi' : c d < M.gridSuperCells d - M.guardingSuperCells d := hhi
    omega

end Dumped

/-- A sum over the places of a list. -/
theorem sum_range_of_getElem? {α N : Type} [AddCommMonoid N] {l : List α} {f : ℕ → α} (hf : ∀ (k : ℕ) r, l[k]? = some r → f k = r)
    (g : α → N) : ∑ i ∈ Finset.range l.length, g (f i) = ((l : Multiset α).map g).sum := by
  have hl : l = (List.range l.length).map f := by
    refine List.ext_getElem? fun k => ?_
    rcases Nat.lt_or_ge k l.length with hk | hk
    · rw [List.getElem?_map, List.getElem?_range hk, List.getElem?_eq_getElem hk, Option.map_some,
        hf k _ (List.getElem?_eq_getElem hk)]
    · rw [List.getElem?_eq_none hk, List.getElem?_eq_none (by rwa [List.length_map, List.length_range])]
  conv_rhs => rw [hl]
  rw [Multiset.map_coe, List.map_map, Multiset.sum_coe]
  rfl

/-- **Dump, split and fill restore every supercell**, whatever the order of the iterations, of the blocks and
of their threads.  The loaded particles are as many as there are, so the check of `splitIntoListOfFrames`
passes. -/
theorem restart_ends [LawfulGuardMapping DIM] (h : Dumped box L M superCellSize) (domainOffset : DataSpace DIM)
    (destFrame : ℤ → Record DIM B) {empty : ParticlesBox DIM frameSize (Attributes B)} (hempty : empty.Holds fun _ => []) :
    ((dump M superCellSize domainOffset).system box (loopSuperCells M .CORE_BORDER)
      (ConcatListOfFrames.start box 0 destFrame)).Ends (ConcatListOfFrames.start box 0 destFrame) fun s =>
        ((load M superCellSize domainOffset s).system empty).Ends (SplitIntoListOfFrames.start empty) fun t =>
          t.loaded = (load M superCellSize domainOffset s).numParticles ∧
          (fillGaps M .CORE_BORDER_GUARD t.box).Ends ⟨t.box, fun _ => .start⟩ fun u => ∃ L', u.box.Holds L' ∧
            (∀ c ∈ M.areaCells .CORE_BORDER_GUARD, WellFormed u.box c (L' c)) ∧
            (∀ c ∈ M.areaCells .CORE_BORDER, u.box.particles (L' c) = box.particles (L c)) ∧
            ∀ c ∉ M.areaCells .CORE_BORDER, u.box.particles (L' c) = 0 := by
  have hlt := h.lt
  have htotal := h.total_eq domainOffset
  rw [loopSuperCells_eq h.usable]
  refine (ConcatListOfFrames.concat_ends _ h.holds _ (by decide) (by rw [htotal]; omega) destFrame).mono ?_
  rintro s ⟨log, hlog, hcounter, hdest, -⟩
  rw [h.selectedOf_eq] at hlog
  rw [zero_add] at hcounter
  simp only [zero_add] at hdest
  refine (SplitIntoListOfFrames.split_ends _ (h.input domainOffset hlog hcounter hdest) hempty
    fun c p hp => absurd hp List.not_mem_nil).mono ?_
  rintro t ⟨L', hholds, hunmarked, hparticles, hloaded⟩
  have hrestored : ∀ c, t.box.particles (L' c) = if c ∈ areaSuperCells M .CORE_BORDER then box.particles (L c) else 0 := fun c => by
    have hnum : (load M superCellSize domainOffset s).numParticles = log.length := by
      show s.counter.toNat = _
      rw [hcounter, Int.toNat_natCast]
    have hsum := sum_range_of_getElem? (f := fun k : ℕ => s.destFrame k) hdest fun r =>
      if (load M superCellSize domainOffset s).superCell r = c then
        ({(load M superCellSize domainOffset s).attributes r} : Multiset (Attributes B)) else 0
    rw [hlog, h.sum_records domainOffset c] at hsum
    rw [hparticles, hnum, ParticlesBox.particles_nil, zero_add]
    exact hsum
  refine ⟨hloaded, (FillGaps.fillGaps_ends hholds (fun c _ => hunmarked c) h.pos h.frameSize_le fun c _ => ?_).mono ?_⟩
  · rw [hrestored]
    split
    · next hc =>
      have hle := Finset.single_le_sum (f := fun c => (box.particles (L c)).card) (fun _ _ => Nat.zero_le _) hc
      omega
    · exact Nat.two_pow_pos 32
  · rintro u ⟨L'', hkept, hwell⟩
    refine ⟨L'', hkept.holds, fun c hc => (hwell c ((mem_areaSuperCells h.usable).mpr hc)).2, fun c hc => ?_, fun c hc => ?_⟩
    · rw [hkept.particles, hrestored, if_pos ((mem_areaSuperCells h.usable).mpr hc)]
    · rw [hkept.particles, hrestored, if_neg fun hmem => hc ((mem_areaSuperCells h.usable).mp hmem)]

/-! ### A few particles -/

/-- Two particles in a supercell behind the guard. -/
def pairBox : ParticlesBox 2 2 (Attributes ℕ) :=
  let memory : ParticlesBox 2 2 (Attributes ℕ) := ⟨fun _ => ⟨fun _ => ⟨0, ⟨0, 0⟩⟩, none, none⟩, ∅, fun _ => ⟨none, none, 0, false⟩⟩
  ((memory.reset.getEmptyFrame 0).setAsLastFrame 0 1).setSlots 0 ![⟨1, ⟨0, 3⟩⟩, ⟨1, ⟨1, 7⟩⟩]

def pairFrames : DataSpace 2 → List FramePtr := Function.update (fun _ => []) 1 [0]

/-- And one in the second cell of its neighbour. -/
def threeParticles : ParticlesBox 2 2 (Attributes ℕ) :=
  ((pairBox.getEmptyFrame 1).setAsLastFrame 1 ![2, 1]).setSlots 1 ![⟨0, ⟨0, 0⟩⟩, ⟨1, ⟨1, 9⟩⟩]

/-- Their frames. -/
def theirFrames : DataSpace 2 → List FramePtr := Function.update pairFrames ![2, 1] [1]

theorem pairFrames_of_ne {c : DataSpace 2} (hne : c ≠ 1) : pairFrames c = [] := Function.update_of_ne hne _ _

theorem pairBox_holds : pairBox.Holds pairFrames :=
  (((ParticlesBox.Holds.reset _).getEmptyFrame (p := 0)).setAsLastFrame (fun _ => List.not_mem_nil)
    (Finset.mem_insert_self 0 _) 1).setSlots _

theorem threeParticles_holds : threeParticles.Holds theirFrames := by
  have hnew : ∀ c, 1 ∉ pairFrames c := fun c hmem => by
    rcases eq_or_ne c 1 with rfl | hne
    · rw [pairFrames, Function.update_self] at hmem
      exact absurd hmem (by decide)
    · rw [pairFrames_of_ne hne] at hmem
      exact absurd hmem List.not_mem_nil
  have hholds := ((pairBox_holds.getEmptyFrame (p := 1)).setAsLastFrame hnew (Finset.mem_insert_self 1 _) ![2, 1]).setSlots
    (p := 1) ![⟨0, ⟨0, 0⟩⟩, ⟨1, ⟨1, 9⟩⟩]
  rw [pairFrames_of_ne (by decide), List.nil_append] at hholds
  exact hholds

theorem threeParticles_particles (c : DataSpace 2) : threeParticles.particles (theirFrames c) =
    (if c = 1 then {⟨0, 3⟩, ⟨1, 7⟩} else 0) + if c = ![2, 1] then {⟨1, 9⟩} else 0 := by
  by_cases hpair : c = 1
  · subst hpair
    rw [theirFrames, Function.update_of_ne (by decide), pairFrames, Function.update_self, if_pos rfl, if_neg (by decide)]
    rfl
  · rw [if_neg hpair, zero_add]
    by_cases hthird : c = ![2, 1]
    · subst hthird
      rw [theirFrames, Function.update_self, if_pos rfl]
      rfl
    · rw [theirFrames, Function.update_of_ne hthird, pairFrames_of_ne hpair, if_neg hthird]
      rfl

theorem threeParticles_unmarked (c : DataSpace 2) (p : FramePtr) (hp : p ∈ theirFrames c) :
    Unmarked (threeParticles.frames p).slots := by
  have hframe : p = 0 ∨ p = 1 := by
    by_cases hthird : c = ![2, 1]
    · rw [theirFrames, hthird, Function.update_self] at hp
      exact Or.inr (List.mem_singleton.mp hp)
    · rw [theirFrames, Function.update_of_ne hthird] at hp
      by_cases hpair : c = 1
      · rw [hpair, pairFrames, Function.update_self] at hp
        exact Or.inl (List.mem_singleton.mp hp)
      · rw [pairFrames_of_ne hpair] at hp
        exact absurd hp List.not_mem_nil
  rcases hframe with rfl | rfl
  all_goals
    intro i
    revert i
    decide

theorem threeParticles_sum :
    ∑ c ∈ areaSuperCells sixteenSuperCells .CORE_BORDER, (threeParticles.particles (theirFrames c)).card ≤ 3 := by
  simp only [threeParticles_particles, Multiset.card_add, apply_ite Multiset.card, Multiset.card_singleton, Multiset.card_zero,
    Multiset.insert_eq_cons, Multiset.card_cons]
  rw [Finset.sum_add_distrib, Finset.sum_ite_eq', Finset.sum_ite_eq']
  split <;> split <;> decide

theorem threeParticles_dumped : Dumped threeParticles theirFrames sixteenSuperCells ![2, 1] where
  holds := threeParticles_holds
  usable := sixteenSuperCells_usable
  size d := by fin_cases d <;> decide
  lcell := by decide
  unmarked c _ := threeParticles_unmarked c
  localCells c _ a ha := by
    rw [threeParticles_particles, Multiset.mem_add] at ha
    have hcell : a.localCellIdx = 0 ∨ a.localCellIdx = 1 := by
      rcases ha with ha | ha
      · split at ha
        · rw [Multiset.insert_eq_cons, Multiset.mem_cons, Multiset.mem_singleton] at ha
          rcases ha with rfl | rfl
          · exact Or.inl rfl
          · exact Or.inr rfl
        · exact absurd ha (Multiset.notMem_zero a)
      · split at ha
        · rw [Multiset.mem_singleton.mp ha]
          exact Or.inr rfl
        · exact absurd ha (Multiset.notMem_zero a)
    rcases hcell with hcell | hcell <;> rw [LocalCells, hcell] <;> exact ⟨by decide, by decide⟩
  pos := by decide
  frameSize_le := by decide
  lt := threeParticles_sum.trans_lt (by decide)
  rounded := by
    have hsum := threeParticles_sum
    omega

/-- Every record of the area is written. -/
theorem concatListOfFrames_ends_threeParticles :
    Set.BijOn (fun i : ℕ => sixteenSuperCells.getSuperCellIndex .CORE_BORDER (mapToND (sixteenSuperCells.getGridDim .CORE_BORDER) i))
        (Finset.range (productOfComponents (sixteenSuperCells.getGridDim .CORE_BORDER)).toNat)
        (sixteenSuperCells.areaCells .CORE_BORDER) ∧
      ((dump sixteenSuperCells ![2, 1] ![10, 20]).system threeParticles (loopSuperCells sixteenSuperCells .CORE_BORDER)
        (ConcatListOfFrames.start threeParticles 5 fun _ => ⟨0, 0⟩)).Ends (ConcatListOfFrames.start threeParticles 5 fun _ => ⟨0, 0⟩)
        fun s => ∃ log : List (Record 2 ℕ),
          (log : Multiset (Record 2 ℕ)) = ∑ c ∈ loopSuperCells sixteenSuperCells .CORE_BORDER,
            ((dump sixteenSuperCells ![2, 1] ![10, 20]).selectedOf threeParticles c (theirFrames c) : Multiset (Record 2 ℕ)) ∧
          s.counter = 5 + (log.length : ℤ) ∧ (∀ (k : ℕ) r, log[k]? = some r → s.destFrame ((5 : ℤ) + k) = r) ∧
          ∀ x : ℤ, x < 5 ∨ 5 + (log.length : ℤ) ≤ x → s.destFrame x = ⟨0, 0⟩ :=
  concatListOfFrames_ends sixteenSuperCells_usable .CORE_BORDER (dump sixteenSuperCells ![2, 1] ![10, 20]) threeParticles_holds
    (by decide : -2 ^ 31 ≤ (5 : ℤ)) (by
      have htotal := threeParticles_dumped.total_eq ![10, 20]
      have hsum := threeParticles_sum
      rw [loopSuperCells_eq sixteenSuperCells_usable, htotal]
      omega) fun _ => ⟨0, 0⟩

/-- Three more particles, in neighbouring cells of two supercells. -/
def threeRecords : SplitIntoListOfFrames 2 ℕ := ⟨sixteenSuperCells, ![2, 1], ![10, 20], fun i => ⟨![10 + i % 3, 20], 9⟩, 3⟩

theorem splitIntoListOfFrames_ends_threeRecords :
    (threeRecords.system threeParticles).Ends (SplitIntoListOfFrames.start threeParticles) fun s => s.loaded = 3 ∧
      (fillGaps sixteenSuperCells .CORE_BORDER_GUARD s.box).Ends ⟨s.box, fun _ => .start⟩ fun u => ∃ L', u.box.Holds L' ∧
        (∀ c ∈ sixteenSuperCells.areaCells .CORE_BORDER_GUARD, WellFormed u.box c (L' c)) ∧
        ∀ c, u.box.particles (L' c) = threeParticles.particles (theirFrames c) + ∑ i ∈ Finset.range 3,
          if threeRecords.superCell (threeRecords.srcFrame i) = c then {threeRecords.attributes (threeRecords.srcFrame i)} else 0 := by
  refine splitIntoListOfFrames_ends threeRecords sixteenSuperCells_usable
    ⟨by decide, by decide, by decide, fun i hi => ?_⟩ threeParticles_holds threeParticles_unmarked (by decide) fun c => ?_
  · have hi : i < 3 := hi
    have hdomain : ∀ i : Fin 3, ∀ d, 0 ≤ threeRecords.particlesSuperCell (threeRecords.srcFrame i.val) d ∧
        threeRecords.particlesSuperCell (threeRecords.srcFrame i.val) d < threeRecords.numSuperCells d := by
      decide
    exact hdomain ⟨i, hi⟩
  · rw [threeParticles_particles, Multiset.card_add]
    show _ + 3 < _
    split <;> split <;> decide

/-- The particles come back. -/
theorem restart_ends_threeParticles :
    ((dump sixteenSuperCells ![2, 1] ![10, 20]).system threeParticles (loopSuperCells sixteenSuperCells .CORE_BORDER)
      (ConcatListOfFrames.start threeParticles 0 fun _ => ⟨0, 0⟩)).Ends (ConcatListOfFrames.start threeParticles 0 fun _ => ⟨0, 0⟩)
      fun s => ((load sixteenSuperCells ![2, 1] ![10, 20] s).system threeParticles.reset).Ends
        (SplitIntoListOfFrames.start threeParticles.reset) fun t =>
          t.loaded = (load sixteenSuperCells ![2, 1] ![10, 20] s).numParticles ∧
          (fillGaps sixteenSuperCells .CORE_BORDER_GUARD t.box).Ends ⟨t.box, fun _ => .start⟩ fun u => ∃ L', u.box.Holds L' ∧
            (∀ c ∈ sixteenSuperCells.areaCells .CORE_BORDER_GUARD, WellFormed u.box c (L' c)) ∧
            (∀ c ∈ sixteenSuperCells.areaCells .CORE_BORDER, u.box.particles (L' c) = threeParticles.particles (theirFrames c)) ∧
            ∀ c ∉ sixteenSuperCells.areaCells .CORE_BORDER, u.box.particles (L' c) = 0 :=
  restart_ends threeParticles_dumped ![10, 20] (fun _ => ⟨0, 0⟩) (ParticlesBox.Holds.reset threeParticles)

end Restart

end Restart
end PmaccParticles
end Spearhed
