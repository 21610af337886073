import Spearhed.PmaccParticles.ShiftParticles

/-!
# Runs of the shift kernel

What the blocks of `KernelShiftParticles` achieve, each for its supercell and the neighbours.

* `BlockInv`: what a block has achieved at each of its places, given the particles that it found.
* `BlockStep.progress`: a step keeps it and leaves less to do.
* `shift_ends`: every run of a launch ends, with the particles that were about to leave at the
  neighbours.
-/

namespace Spearhed
namespace PmaccParticles

open Library Mappings ForEachParticle

variable {DIM frameSize : ℕ} {A : Type}

namespace ShiftParticles

/-! ## The particles that leave -/

section Leaving

variable {E E' X : Multiset (ℕ × A)} {linearIdx n : ℕ} {moved : ℕ → Multiset A}

@[simp] theorem leaving_zero : leaving (0 : Multiset (ℕ × A)) linearIdx = 0 := rfl

@[simp] theorem staying_zero : staying (0 : Multiset (ℕ × A)) = 0 := rfl

theorem leaving_add (E E' : Multiset (ℕ × A)) (linearIdx : ℕ) :
    leaving (E + E') linearIdx = leaving E linearIdx + leaving E' linearIdx := by
  rw [leaving, Multiset.filter_add, Multiset.map_add]
  rfl

theorem staying_add (E E' : Multiset (ℕ × A)) : staying (E + E') = staying E + staying E' :=
  Multiset.filter_add ..

/-- Settled particles stay. -/
theorem staying_eq_self (h : ∀ e ∈ E, e.1 = 1) : staying E = E := Multiset.filter_eq_self.mpr h

theorem leaving_eq_zero (h : ∀ e ∈ E, e.1 = 1) : leaving E linearIdx = 0 := by
  rw [leaving, Multiset.filter_eq_nil.mpr fun e he => by rw [h e he]; omega, Multiset.map_zero]

theorem staying_map (a : Multiset A) : staying (a.map (Prod.mk (linearIdx + 2))) = 0 :=
  Multiset.filter_eq_nil.mpr fun e he => by
    obtain ⟨b, -, rfl⟩ := Multiset.mem_map.mp he
    dsimp only
    omega

theorem leaving_map (a : Multiset A) (n : ℕ) :
    leaving (a.map (Prod.mk (n + 2))) linearIdx = if n = linearIdx then a else 0 := by
  split
  · next h =>
    subst h
    rw [leaving, Multiset.filter_eq_self.mpr, Multiset.map_map]
    · exact Multiset.map_id a
    · intro e he
      obtain ⟨b, -, rfl⟩ := Multiset.mem_map.mp he
      rfl
  · next h =>
    rw [leaving, Multiset.filter_eq_nil.mpr, Multiset.map_zero]
    intro e he
    obtain ⟨b, -, rfl⟩ := Multiset.mem_map.mp he
    dsimp only
    omega

/-- What has moved had left. -/
theorem leaving_eq (h : X + ∑ i ∈ Finset.range n, (moved i).map (Prod.mk (i + 2)) = E)
    (hlt : linearIdx < n) :
    leaving E linearIdx = leaving X linearIdx + moved linearIdx := by
  have hsum : ∀ s : Finset ℕ, leaving (∑ i ∈ s, (moved i).map (Prod.mk (i + 2))) linearIdx =
      ∑ i ∈ s, if i = linearIdx then moved i else 0 := fun s => by
    induction s using Finset.induction_on with
    | empty => rfl
    | insert i s hi ih => rw [Finset.sum_insert hi, Finset.sum_insert hi, leaving_add, leaving_map, ih]
  rw [← h, leaving_add, hsum, Finset.sum_ite_eq' (Finset.range n), if_pos (Finset.mem_range.mpr hlt)]

theorem staying_eq (h : X + ∑ i ∈ Finset.range n, (moved i).map (Prod.mk (i + 2)) = E) :
    staying E = staying X := by
  have hsum : ∀ s : Finset ℕ, staying (∑ i ∈ s, (moved i).map (Prod.mk (i + 2))) = 0 := fun s => by
    induction s using Finset.induction_on with
    | empty => rfl
    | insert i s hi ih => rw [Finset.sum_insert hi, staying_add, staying_map, ih, add_zero]
  rw [← h, staying_add, hsum, add_zero]

theorem card_leaving_le (E : Multiset (ℕ × A)) (linearIdx : ℕ) :
    (leaving E linearIdx).card ≤ E.card := by
  rw [leaving, Multiset.card_map]
  exact Multiset.card_le_card (Multiset.filter_le ..)

end Leaving

/-! ## What a block achieves -/

/-- The particles of a block's supercell and of its neighbours, when the block starts. -/
structure Job (K : KernelShiftParticles DIM) (frameSize : ℕ) (c : DataSpace DIM)
    (E : DataSpace DIM → Multiset (ℕ × A)) : Prop where
  numExchanges : NumberOfExchanges DIM = 3 ^ DIM
  pos : 0 < frameSize
  /-- The index of a particle that is not about to leave is none of a place. -/
  le : frameSize * 2 ≤ INV_LOC_IDX
  lt : (E c).card < 2 ^ 31
  near_lt : ∀ linearIdx, Active K c linearIdx →
    (E (neighborSuperCellIdx c linearIdx)).card + (leaving (E c) linearIdx).card < 2 ^ 31

section Invariant

variable (K : KernelShiftParticles DIM) (c : DataSpace DIM) (box : ParticlesBox DIM frameSize A)
  (L : DataSpace DIM → List FramePtr)
  (E : DataSpace DIM → Multiset (ℕ × A)) (moves : Bool)

/-- What the directions have achieved, and the particles that are left. -/
structure Working (destParticleIdx : Fin frameSize → ℕ) (waiting : ℕ → Finset (Fin frameSize))
    (dests : ℕ → Destination)
    (moved : ℕ → Multiset A) : Prop where
  source : box.entries (L c) + ∑ linearIdx ∈ Finset.range (NumberOfExchanges DIM),
    (moved linearIdx).map (Prod.mk (linearIdx + 2)) = E c
  aimed : Aimed K c (E c)
  lanes : ∀ linearIdx < NumberOfExchanges DIM,
    Lane K c box L E destParticleIdx linearIdx (dests linearIdx) (waiting linearIdx) (moved linearIdx)
  mustShift : (box.superCells c).mustShift = false

/-- What a block leaves. -/
structure Moved : Prop where
  wellFormed : WellFormed box c (L c)
  near : ∀ linearIdx, Active K c linearIdx →
    WellFormed box (neighborSuperCellIdx c linearIdx) (L (neighborSuperCellIdx c linearIdx))
  mustShift : (box.superCells c).mustShift = false
  stayed : box.entries (L c) = if moves then staying (E c) else E c
  arrived : ∀ linearIdx, Active K c linearIdx → box.entries (L (neighborSuperCellIdx c linearIdx)) =
    E (neighborSuperCellIdx c linearIdx) +
    if moves then (leaving (E c) linearIdx).map (Prod.mk 1) else 0

/-- The steps for a frame, and those after the last one. -/
def perFrame (DIM frameSize : ℕ) : ℕ := NumberOfExchanges DIM + frameSize + 4
def afterwards (DIM : ℕ) (l : List FramePtr) : ℕ := NumberOfExchanges DIM + l.length + 4

/-- What a block has achieved, and how many steps are left. -/
inductive BlockInv : Pc frameSize → ℕ → Prop
  | start (hwell : WellFormed box c (L c)) (hentries : box.entries (L c) = E c)
      (haimed : moves = true → Aimed K c (E c))
      (hnear : ∀ linearIdx, Active K c linearIdx →
        WellFormed box (neighborSuperCellIdx c linearIdx) (L (neighborSuperCellIdx c linearIdx)) ∧
        box.entries (L (neighborSuperCellIdx c linearIdx)) = E (neighborSuperCellIdx c linearIdx))
      (hmoves : isProcessedSupercell K box c = moves) :
      BlockInv .start ((L c).length * perFrame DIM frameSize + afterwards DIM (L c) + 1)
  | loop {destParticleIdx : Fin frameSize → ℕ} {moved : ℕ → Multiset A} {dests : ℕ → Destination}
      {visited rest : List FramePtr}
      {frame : Option FramePtr} (hmoves : moves = true)
      (hworking : Working K c box L E destParticleIdx (fun _ => ∅) dests moved)
      (hl : L c = visited ++ rest) (hvisited : ∀ p ∈ visited, Unmarked (box.frames p).slots)
      (hframe : frame = rest.head?)
      (hfits : ∀ linearIdx < NumberOfExchanges DIM, Active K c linearIdx →
        Fits frameSize (dests linearIdx) ∧ (dests linearIdx).counter < frameSize) :
      BlockInv (.loop frame dests) (rest.length * perFrame DIM frameSize + afterwards DIM (L c))
  | frames {p : FramePtr} {destParticleIdx : Fin frameSize → ℕ} {pending : Finset ℕ}
      {moved : ℕ → Multiset A}
      {dests : ℕ → Destination} {visited rest : List FramePtr} (hmoves : moves = true)
      (hworking : Working K c box L E destParticleIdx (movers (box.frames p).slots) dests moved)
      (hl : L c = visited ++ p :: rest)
      (hvisited : ∀ p ∈ visited, Unmarked (box.frames p).slots)
      (hothers : ∀ i, ((box.frames p).slots i).multiMask < 2 → destParticleIdx i = INV_LOC_IDX)
      (hpending : ∀ linearIdx ∈ pending, linearIdx < NumberOfExchanges DIM)
      (hfresh : ∀ linearIdx ∈ pending, Active K c linearIdx →
        Fresh frameSize (dests linearIdx) (movers (box.frames p).slots linearIdx).card)
      (hfits : ∀ linearIdx < NumberOfExchanges DIM, linearIdx ∉ pending → Active K c linearIdx →
        Fits frameSize (dests linearIdx) ∧ (dests linearIdx).counter < 2 * frameSize) :
      BlockInv (.frames p destParticleIdx pending dests)
        (rest.length * perFrame DIM frameSize + afterwards DIM (L c) + frameSize + 2 + pending.card)
  | copy {p : FramePtr} {destParticleIdx : Fin frameSize → ℕ} {pending : Finset (Fin frameSize)}
      {moved : ℕ → Multiset A}
      {dests : ℕ → Destination} {visited rest : List FramePtr} (hmoves : moves = true)
      (hworking : Working K c box L E destParticleIdx (movers (box.frames p).slots) dests moved)
      (hl : L c = visited ++ p :: rest)
      (hvisited : ∀ p ∈ visited, Unmarked (box.frames p).slots)
      (hothers : ∀ i ∈ pending, ((box.frames p).slots i).multiMask < 2 →
        destParticleIdx i = INV_LOC_IDX)
      (hcopied : ∀ i ∉ pending, ((box.frames p).slots i).multiMask = 0 ∨
        ((box.frames p).slots i).multiMask = 1)
      (hfits : ∀ linearIdx < NumberOfExchanges DIM, Active K c linearIdx →
        Fits frameSize (dests linearIdx) ∧ (dests linearIdx).counter < 2 * frameSize) :
      BlockInv (.copy p destParticleIdx pending dests)
        (rest.length * perFrame DIM frameSize + afterwards DIM (L c) + 1 + pending.card)
  | fillGaps {destParticleIdx : Fin frameSize → ℕ} {pending : Finset ℕ} {moved : ℕ → Multiset A}
      {dests : ℕ → Destination}
      {pc : FillGaps.Pc} {k : ℕ} (hmoves : moves = true)
      (hsource : box.entries (L c) + ∑ linearIdx ∈ Finset.range (NumberOfExchanges DIM),
        (moved linearIdx).map (Prod.mk (linearIdx + 2)) = E c)
      (hmustShift : (box.superCells c).mustShift = false) (hfill : FillGaps.BlockInv box c (L c) pc k)
      (hunmarked : ∀ p ∈ L c, Unmarked (box.frames p).slots)
      (hpending : ∀ linearIdx ∈ pending, linearIdx < NumberOfExchanges DIM)
      (hlanes : ∀ linearIdx ∈ pending,
        Lane K c box L E destParticleIdx linearIdx (dests linearIdx) ∅ (moved linearIdx) ∧
        (Active K c linearIdx → Fits frameSize (dests linearIdx) ∧
          (dests linearIdx).counter < frameSize))
      (htold : ∀ linearIdx < NumberOfExchanges DIM, linearIdx ∉ pending → Active K c linearIdx →
        WellFormed box (neighborSuperCellIdx c linearIdx) (L (neighborSuperCellIdx c linearIdx)) ∧
        box.entries (L (neighborSuperCellIdx c linearIdx)) = E (neighborSuperCellIdx c linearIdx) +
        (moved linearIdx).map (Prod.mk 1)) :
      BlockInv (.fillGaps pending dests pc) (pending.card + k)
  | done (h : Moved K c box L E moves) : BlockInv .done 0

end Invariant

section Step

variable {K : KernelShiftParticles DIM} {c : DataSpace DIM} {box box' : ParticlesBox DIM frameSize A}
  {L L' : DataSpace DIM → List FramePtr} {E : DataSpace DIM → Multiset (ℕ × A)} {moves : Bool}
  {destParticleIdx : Fin frameSize → ℕ} {waiting waiting' : ℕ → Finset (Fin frameSize)}
  {dests : ℕ → Destination}
  {moved : ℕ → Multiset A} {linearIdx k : ℕ} {pc pc' : Pc frameSize} {N : Set (DataSpace DIM)}
  {p : FramePtr}

/-- A supercell that a step does not write to. -/
theorem Lane.within {dest : Destination} {waiting : Finset (Fin frameSize)} {moved : Multiset A}
    (h : Lane K c box L E destParticleIdx linearIdx dest waiting moved)
    (hwithin : Within N L box L' box')
    (hN : Active K c linearIdx → neighborSuperCellIdx c linearIdx ∉ N) :
    Lane K c box' L' E destParticleIdx linearIdx dest waiting moved :=
  h.congr (fun hactive => (hwithin.others _ (hN hactive)).1)
    (fun hactive => congrArg SuperCell.numParticles (hwithin.others _ (hN hactive)).2.1)
    fun hactive p hp => congrArg Frame.slots ((hwithin.others _ (hN hactive)).2.2 p hp)

theorem Working.within (h : Working K c box L E destParticleIdx waiting dests moved)
    (hwithin : Within N L box L' box')
    (hN : ∀ d ∈ region K c, d ∉ N) : Working K c box' L' E destParticleIdx waiting dests moved := by
  refine ⟨?_, h.aimed, fun linearIdx hlt => (h.lanes linearIdx hlt).within hwithin fun hactive =>
    hN _ hactive.mem_region, ?_⟩
  · rw [hwithin.entries (hN c self_mem_region)]
    exact h.source
  · rw [(hwithin.others c (hN c self_mem_region)).2.1]
    exact h.mustShift

theorem Moved.within (h : Moved K c box L E moves) (hwithin : Within N L box L' box')
    (hN : ∀ d ∈ region K c, d ∉ N) :
    Moved K c box' L' E moves := by
  refine ⟨hwithin.wellFormed (hN c self_mem_region) h.wellFormed,
    fun linearIdx hactive =>
      hwithin.wellFormed (hN _ hactive.mem_region) (h.near linearIdx hactive), ?_, ?_,
    fun linearIdx hactive => ?_⟩
  · rw [(hwithin.others c (hN c self_mem_region)).2.1]
    exact h.mustShift
  · rw [hwithin.entries (hN c self_mem_region)]
    exact h.stayed
  · rw [hwithin.entries (hN _ hactive.mem_region)]
    exact h.arrived linearIdx hactive

/-- **The steps of other blocks** do not matter, as long as they stay away from the neighbours. -/
theorem BlockInv.within (h : BlockInv K c box L E moves pc k) (hwithin : Within N L box L' box')
    (hN : ∀ d ∈ region K c, d ∉ N) :
    BlockInv K c box' L' E moves pc k := by
  obtain ⟨hlist, hcell, hframes⟩ := hwithin.others c (hN c self_mem_region)
  cases h with
  | start hwell hentries haimed hnear hmoves =>
    rw [← hlist]
    refine BlockInv.start (hwithin.wellFormed (hN c self_mem_region) hwell) ?_ haimed
      (fun linearIdx hactive => ?_) ?_
    · rw [hwithin.entries (hN c self_mem_region), hentries]
    · have hn := hN _ hactive.mem_region
      rw [hwithin.entries hn]
      exact ⟨hwithin.wellFormed hn (hnear linearIdx hactive).1, (hnear linearIdx hactive).2⟩
    · rw [← hmoves, isProcessedSupercell, isProcessedSupercell, hcell]
  | loop hmoves hworking hl hvisited hframe hfits =>
    rw [← hlist]
    refine BlockInv.loop hmoves (hworking.within hwithin hN) (hlist.trans hl)
      (fun p hp => ?_) hframe hfits
    rw [hframes p (hl ▸ List.mem_append_left _ hp)]
    exact hvisited p hp
  | @frames p _ _ _ _ visited rest hmoves hworking hl hvisited hothers hpending hfresh hfits =>
    have hp : box'.frames p = box.frames p :=
      hframes p (hl ▸ List.mem_append_right _ List.mem_cons_self)
    rw [← hp] at hworking hothers hfresh
    rw [← hlist]
    refine BlockInv.frames hmoves (hworking.within hwithin hN) (hlist.trans hl)
      (fun q hq => ?_) hothers hpending hfresh hfits
    rw [hframes q (hl ▸ List.mem_append_left _ hq)]
    exact hvisited q hq
  | @copy p _ _ _ _ visited rest hmoves hworking hl hvisited hothers hcopied hfits =>
    have hp : box'.frames p = box.frames p :=
      hframes p (hl ▸ List.mem_append_right _ List.mem_cons_self)
    rw [← hp] at hworking hothers hcopied
    rw [← hlist]
    refine BlockInv.copy hmoves (hworking.within hwithin hN) (hlist.trans hl)
      (fun q hq => ?_) hothers hcopied hfits
    rw [hframes q (hl ▸ List.mem_append_left _ hq)]
    exact hvisited q hq
  | fillGaps hmoves hsource hmustShift hfill hunmarked hpending hlanes htold =>
    refine BlockInv.fillGaps hmoves ?_ (hcell ▸ hmustShift) (hlist ▸ hfill.congr hcell hframes)
      (fun p hp => ?_) hpending
      (fun linearIdx hmem =>
        ⟨(hlanes linearIdx hmem).1.within hwithin fun hactive => hN _ hactive.mem_region,
          (hlanes linearIdx hmem).2⟩)
      fun linearIdx hlt hnot hactive => ?_
    · rw [hwithin.entries (hN c self_mem_region)]
      exact hsource
    · rw [hlist] at hp
      rw [hframes p hp]
      exact hunmarked p hp
    · have hn := hN _ hactive.mem_region
      rw [hwithin.entries hn]
      exact ⟨hwithin.wellFormed hn (htold linearIdx hlt hnot hactive).1,
        (htold linearIdx hlt hnot hactive).2⟩
  | done h => exact BlockInv.done (h.within hwithin hN)

/-- What a step of a block achieves. -/
structure Progress (K : KernelShiftParticles DIM) (c : DataSpace DIM)
    (E : DataSpace DIM → Multiset (ℕ × A)) (moves : Bool)
    (L : DataSpace DIM → List FramePtr) (box : ParticlesBox DIM frameSize A) (k : ℕ)
    (L' : DataSpace DIM → List FramePtr)
    (box' : ParticlesBox DIM frameSize A) (pc' : Pc frameSize) (k' : ℕ) : Prop where
  lt : k' < k
  within : Within (region K c) L box L' box'
  inv : BlockInv K c box' L' E moves pc' k'
  mustShift : ∀ d ≠ c, (box'.superCells d).mustShift = (box.superCells d).mustShift

/-- A step that does not write. -/
theorem Progress.ofSame {k' : ℕ} (hlt : k' < k) (h : box.Holds L)
    (hinv : BlockInv K c box L E moves pc' k') :
    Progress K c E moves L box k L box pc' k' :=
  ⟨hlt, Within.refl h, hinv, fun _ _ => rfl⟩

/-! ## The steps -/

/-- A particle that is left in the supercell has one of the directions that it was found with. -/
theorem Working.aimed_slot (h : Working K c box L E destParticleIdx waiting dests moved)
    (hp : p ∈ L c) (i : Fin frameSize) :
    ((box.frames p).slots i).multiMask = 0 ∨ ((box.frames p).slots i).multiMask = 1 ∨
      ∃ linearIdx, Active K c linearIdx ∧ ((box.frames p).slots i).multiMask = linearIdx + 2 := by
  by_cases hzero : ((box.frames p).slots i).multiMask = 0
  · exact Or.inl hzero
  · have hmem : (((box.frames p).slots i).multiMask, ((box.frames p).slots i).attributes) ∈ E c := by
      rw [← h.source]
      exact Multiset.mem_add.mpr
        (Or.inl (ParticlesBox.mem_entries.mpr ⟨p, hp, mem_slotEntries.mpr ⟨i, hzero, rfl⟩⟩))
    exact Or.inr (h.aimed _ hmem)

theorem Working.card_moved_le (h : Working K c box L E destParticleIdx waiting dests moved)
    (hlt : linearIdx < NumberOfExchanges DIM) :
    (moved linearIdx).card ≤ (leaving (E c) linearIdx).card := by
  rw [leaving_eq h.source hlt, Multiset.card_add]
  exact Nat.le_add_left _ _

theorem Working.card_lt (h : Working K c box L E destParticleIdx waiting dests moved)
    (hjob : Job K frameSize c E)
    (hlt : linearIdx < NumberOfExchanges DIM) : (moved linearIdx).card < 2 ^ 31 :=
  ((h.card_moved_le hlt).trans (card_leaving_le _ _)).trans_lt hjob.lt

theorem Active.lt (h : Active K c linearIdx) (hjob : Job K frameSize c E) :
    linearIdx < NumberOfExchanges DIM := by
  rw [hjob.numExchanges]
  exact Nat.lt_of_succ_lt h.1

theorem wellFormed_setMustShift {d : DataSpace DIM} {l : List FramePtr} (h : WellFormed box d l)
    (value : Bool) :
    WellFormed (box.setMustShift c value) d l := by
  have hcell : (∀ e, ((box.setMustShift c value).superCells d).endPtr e = (box.superCells d).endPtr e) ∧
      ((box.setMustShift c value).superCells d).numParticles = (box.superCells d).numParticles := by
    rcases eq_or_ne d c with rfl | hne
    · rw [ParticlesBox.setMustShift, ParticlesBox.setSuperCell_superCells_self]
      exact ⟨fun e => by cases e <;> rfl, rfl⟩
    · rw [ParticlesBox.setMustShift, ParticlesBox.setSuperCell_superCells_of_ne _ hne]
      exact ⟨fun _ => rfl, rfl⟩
  exact ⟨h.list.congr hcell.1 fun _ _ _ => rfl, h.full, h.last, hcell.2.trans h.numParticles,
    hcell.2 ▸ h.lt⟩

theorem setMustShift_of_ne (value : Bool) (d : DataSpace DIM) (hne : d ≠ c) :
    ((box.setMustShift c value).superCells d).mustShift = (box.superCells d).mustShift := by
  rw [ParticlesBox.setMustShift, ParticlesBox.setSuperCell_superCells_of_ne _ hne]

theorem setMustShift_self (value : Bool) :
    ((box.setMustShift c value).superCells c).mustShift = value := by
  rw [ParticlesBox.setMustShift, ParticlesBox.setSuperCell_superCells_self]

theorem progress_skip (hbox : box.Holds L) (hinv : BlockInv K c box L E moves .start k)
    (h : isProcessedSupercell K box c = false) :
    ∃ k', Progress K c E moves L box k L box (.done : Pc frameSize) k' := by
  cases hinv with
  | start hwell hentries haimed hnear hmoves =>
    obtain rfl : moves = false := hmoves.symm.trans h
    refine ⟨0, Progress.ofSame (Nat.succ_pos _) hbox
      (BlockInv.done ⟨hwell, fun linearIdx hactive => (hnear linearIdx hactive).1, ?_, hentries,
      fun linearIdx hactive => ?_⟩)⟩
    · exact (Bool.or_eq_false_iff.mp h).2
    · rw [(hnear linearIdx hactive).2]
      exact (add_zero _).symm

theorem progress_noParticles (hbox : box.Holds L) (hinv : BlockInv K c box L E moves .start k)
    (hnone : (box.superCells c).numParticles = 0) :
    ∃ k', Progress K c E moves L box k L (box.setMustShift c false) (.done : Pc frameSize) k' := by
  cases hinv with
  | start hwell hentries haimed hnear hmoves =>
    have hzero : E c = 0 := by
      rw [← hentries, hwell.eq_nil_of_numParticles hnone]
      rfl
    refine ⟨0, Nat.succ_pos _,
      (Within.setMustShift hbox false).mono (Set.singleton_subset_iff.mpr self_mem_region),
      BlockInv.done
      ⟨wellFormed_setMustShift hwell false,
        fun linearIdx hactive => wellFormed_setMustShift (hnear linearIdx hactive).1 false,
        setMustShift_self false, ?_, fun linearIdx hactive => ?_⟩, setMustShift_of_ne false⟩
    · refine Eq.trans (hentries.trans hzero) ?_
      rw [hzero, staying_zero, ite_self]
    · refine Eq.trans (hnear linearIdx hactive).2 ?_
      rw [hzero, leaving_zero, Multiset.map_zero, ite_self, add_zero]

theorem progress_start (hbox : box.Holds L) (hjob : Job K frameSize c E)
    (hinv : BlockInv K c box L E moves .start k)
    (h : isProcessedSupercell K box c = true) :
    ∃ k', Progress K c E moves L box k L (box.setMustShift c false)
      (.loop (box.getFirstFrame c) (loadFrame K (box.setMustShift c false) c)) k' := by
  cases hinv with
  | start hwell hentries haimed hnear hmoves =>
    obtain rfl : moves = true := hmoves.symm.trans h
    have hlanes : ∀ linearIdx, Lane K c (box.setMustShift c false) L E (fun _ => 0) linearIdx
          (loadFrame K (box.setMustShift c false) c linearIdx) ∅ 0 ∧
        (Active K c linearIdx → Fits frameSize (loadFrame K (box.setMustShift c false) c linearIdx) ∧
          (loadFrame K (box.setMustShift c false) c linearIdx).counter < frameSize) := fun linearIdx =>
      Lane.load (by have hle := hjob.le; omega) (hbox.setMustShift false)
        (fun hactive => ⟨wellFormed_setMustShift (hnear linearIdx hactive).1 false,
          (hnear linearIdx hactive).2⟩) hjob.pos
    have hworking : Working K c (box.setMustShift c false) L E (fun _ => 0) (fun _ => ∅)
        (loadFrame K (box.setMustShift c false) c) fun _ => 0 := by
      refine ⟨?_, haimed rfl, fun linearIdx _ => (hlanes linearIdx).1, setMustShift_self false⟩
      rw [Finset.sum_eq_zero fun linearIdx _ => Multiset.map_zero _, add_zero]
      exact hentries
    exact ⟨_, Nat.lt_succ_self _,
      (Within.setMustShift hbox false).mono (Set.singleton_subset_iff.mpr self_mem_region),
      BlockInv.loop rfl hworking (List.nil_append (L c)).symm
        (fun p hp => absurd hp List.not_mem_nil) (hbox.getFirstFrame c)
        fun linearIdx _ => (hlanes linearIdx).2, setMustShift_of_ne false⟩

theorem progress_count (hbox : box.Holds L) (hinv : BlockInv K c box L E moves (.loop (some p) dests) k)
    {number : Fin frameSize → ℕ}
    (hnumber : DestNumbers (NumberOfExchanges DIM) (box.frames p).slots dests number) :
    ∃ k', Progress K c E moves L box k L box
      (.frames p number (Finset.range (NumberOfExchanges DIM))
        (counted (box.frames p).slots dests)) k' := by
  cases hinv with
  | @loop _ _ _ visited rest _ hmoves hworking hl hvisited hframe hfits =>
    rcases rest with _ | ⟨head, rest⟩
    · exact absurd hframe (Option.some_ne_none p)
    obtain rfl : p = head := Option.some.inj hframe
    have hp : p ∈ L c := hl ▸ List.mem_append_right _ List.mem_cons_self
    refine ⟨_, Progress.ofSame ?_ hbox
      (BlockInv.frames hmoves
        ⟨hworking.source, hworking.aimed, fun linearIdx hlt => ?_, hworking.mustShift⟩ hl
      hvisited hnumber.others (fun linearIdx => Finset.mem_range.mp) (fun linearIdx hmem hactive => ?_)
      fun linearIdx hlt hnot => absurd (Finset.mem_range.mpr hlt) hnot)⟩
    · rw [Finset.card_range, List.length_cons, Nat.succ_mul, perFrame]
      omega
    · refine (hworking.lanes linearIdx hlt).count rfl (hnumber.movers linearIdx hlt) fun hnot => ?_
      refine Finset.eq_empty_of_forall_notMem fun i hi => hnot ?_
      rcases hworking.aimed_slot hp i with hmask | hmask | ⟨direction, hactive, hmask⟩
      · rw [mem_movers.mp hi] at hmask
        omega
      · rw [mem_movers.mp hi] at hmask
        omega
      · rw [mem_movers.mp hi] at hmask
        obtain rfl : linearIdx = direction := by omega
        exact hactive
    · obtain ⟨hfit, hlt⟩ := hfits linearIdx (Finset.mem_range.mp hmem) hactive
      exact ⟨_, hlt, hfit, rfl⟩

/-- **The thread of a direction has looked for frames.** -/
theorem Working.supplied {dest' : Destination}
    (h : Working K c box L E destParticleIdx waiting dests moved)
    (hsupplied : Supplied K c box L E destParticleIdx linearIdx (waiting linearIdx)
      (moved linearIdx) dest' box' L') :
    Working K c box' L' E destParticleIdx waiting (Function.update dests linearIdx dest') moved := by
  refine ⟨?_, h.aimed, fun linearIdx' hlt => ?_, (hsupplied.mustShift c).trans h.mustShift⟩
  · rw [hsupplied.within.entries self_notMem_neighborOnly]
    exact h.source
  · rcases eq_or_ne linearIdx' linearIdx with rfl | hne
    · rw [Function.update_self]
      exact hsupplied.lane
    · rw [Function.update_of_ne hne]
      exact (h.lanes linearIdx' hlt).within hsupplied.within fun hactive =>
        hactive.notMem_neighborOnly hne

theorem progress_takeFrames {number : Fin frameSize → ℕ} {pending : Finset ℕ}
    {low high : Option FramePtr}
    {box'' : ParticlesBox DIM frameSize A} (hbox : box.Holds L)
    (hinv : BlockInv K c box L E moves (.frames p number pending dests) k)
    (hmem : linearIdx ∈ pending)
    (hlow : TakesFrame (neighborSuperCellIdx c linearIdx) (0 < (dests linearIdx).counter ∧
      isValidSupercellIdx (neighborSuperCellIdx c linearIdx) K.numSupercellsWithGuard ∧
      (dests linearIdx).low = none)
      box (dests linearIdx).low box' low)
    (hhigh : TakesFrame (neighborSuperCellIdx c linearIdx) (0 < (dests linearIdx).counter ∧
      isValidSupercellIdx (neighborSuperCellIdx c linearIdx) K.numSupercellsWithGuard ∧
      frameSize < (dests linearIdx).counter)
      box' (dests linearIdx).high box'' high) :
    ∃ L' k', Progress K c E moves L box k L' box'' (.frames p number (pending.erase linearIdx)
      (Function.update dests linearIdx { dests linearIdx with low := low, high := high })) k' := by
  cases hinv with
  | @frames _ _ _ moved _ visited rest hmoves hworking hl hvisited hothers hpending hfresh hfits =>
    obtain ⟨L', hsupplied⟩ :=
      (hworking.lanes linearIdx (hpending linearIdx hmem)).takeFrames hbox (hfresh linearIdx hmem)
        hlow hhigh
    obtain ⟨hlist, -, hframes⟩ := hsupplied.within.others c self_notMem_neighborOnly
    have hp : box''.frames p = box.frames p :=
      hframes p (hl ▸ List.mem_append_right _ List.mem_cons_self)
    have hcard := Finset.card_erase_add_one hmem
    have hworking' := hworking.supplied hsupplied
    rw [← hp] at hworking'
    refine ⟨L', rest.length * perFrame DIM frameSize + afterwards DIM (L' c) + frameSize + 2 +
        (pending.erase linearIdx).card, ?_,
      hsupplied.within.mono neighborOnly_subset_region,
      BlockInv.frames hmoves hworking' (hlist.trans hl)
        (fun q hq => ?_) (by rwa [hp]) (fun linearIdx' hmem' => hpending linearIdx' (Finset.mem_of_mem_erase hmem'))
        (fun linearIdx' hmem' hactive => ?_) fun linearIdx' hlt hnot hactive => ?_,
        fun d _ => hsupplied.mustShift d⟩
    · rw [hlist]
      omega
    · rw [hframes q (hl ▸ List.mem_append_left _ hq)]
      exact hvisited q hq
    · rw [hp, Function.update_of_ne (Finset.ne_of_mem_erase hmem')]
      exact hfresh linearIdx' (Finset.mem_of_mem_erase hmem') hactive
    · rcases eq_or_ne linearIdx' linearIdx with rfl | hne
      · rw [Function.update_self]
        exact hsupplied.fits hactive
      · rw [Function.update_of_ne hne]
        exact hfits linearIdx' hlt (fun hmem' => hnot (Finset.mem_erase.mpr ⟨hne, hmem'⟩)) hactive

theorem progress_framesTaken {number : Fin frameSize → ℕ} (hbox : box.Holds L)
    (hinv : BlockInv K c box L E moves (.frames p number ∅ dests) k) :
    ∃ k', Progress K c E moves L box k L box (.copy p number Finset.univ dests) k' := by
  cases hinv with
  | frames hmoves hworking hl hvisited hothers hpending hfresh hfits =>
    refine ⟨_, Progress.ofSame ?_ hbox (BlockInv.copy hmoves hworking hl hvisited (fun i _ => hothers i)
      (fun i hi => absurd (Finset.mem_univ i) hi) fun linearIdx hlt =>
      hfits linearIdx hlt (Finset.notMem_empty _))⟩
    rw [Finset.card_univ, Fintype.card_fin, Finset.card_empty]
    omega

/-- One more particle has moved. -/
theorem sum_moved_update (moved : ℕ → Multiset A) {direction n : ℕ} (hlt : direction < n) (a : A) :
    ∑ linearIdx ∈ Finset.range n,
      (Function.update moved direction (moved direction + {a}) linearIdx).map
      (Prod.mk (linearIdx + 2)) =
      ∑ linearIdx ∈ Finset.range n,
        (moved linearIdx).map (Prod.mk (linearIdx + 2)) + {(direction + 2, a)} := by
  rw [← Finset.add_sum_erase _ _ (Finset.mem_range.mpr hlt),
    ← Finset.add_sum_erase _ _ (Finset.mem_range.mpr hlt),
    Function.update_self, Multiset.map_add, Multiset.map_singleton,
    Finset.sum_congr rfl fun linearIdx hmem => by
      rw [Function.update_of_ne (Finset.ne_of_mem_erase hmem)]]
  abel

/-- **A particle of the block has been copied.** -/
theorem Working.copy {number : Fin frameSize → ℕ} {i j : Fin frameSize} {dst : FramePtr} {direction : ℕ}
    (h : Working K c box L E number (movers (box.frames p).slots) dests moved) (hbox : box.Holds L)
    (hp : p ∈ L c)
    (hactive : Active K c direction) (hlt : direction < NumberOfExchanges DIM)
    (hdirection : ((box.frames p).slots i).multiMask = direction + 2)
    (hdst : (dests direction).place frameSize (number i) = (some dst, (j : ℕ))) :
    dst ∈ L (neighborSuperCellIdx c direction) ∧
      Working K c (copyParticle box p i dst j) L E number
        (movers ((copyParticle box p i dst j).frames p).slots) dests
        (Function.update moved direction
          (moved direction + {((box.frames p).slots i).attributes})) := by
  obtain ⟨hmemdst, hlane⟩ :=
    (h.lanes direction hlt).copy hbox hactive hp (mem_movers.mpr hdirection) hdst
  have hdstc : dst ∉ L c := hbox.notMem_of_ne hmemdst hactive.neighbor_ne.symm
  have hne : p ≠ dst := fun heq => hdstc (heq ▸ hp)
  have hmask : ((box.frames p).slots i).multiMask ≠ 0 := by omega
  have hentries := entries_copyParticle (j := j) hbox hp hdstc hmask
  refine ⟨hmemdst, ?_, h.aimed, fun linearIdx hlt' => ?_, h.mustShift⟩
  · rw [sum_moved_update moved hlt, ← h.source, ← hentries, hdirection]
    abel
  · rw [copyParticle_src hne, movers_update hdirection]
    rcases eq_or_ne linearIdx direction with rfl | hother
    · rw [if_pos rfl, Function.update_self]
      exact hlane
    · rw [if_neg hother, Function.update_of_ne hother]
      refine (h.lanes linearIdx hlt').congr (fun _ => rfl) (fun _ => rfl) fun hactive' q hq => ?_
      have hqp : q ≠ p := fun heq => hbox.notMem_of_ne hp hactive'.neighbor_ne (heq ▸ hq)
      have hqdst : q ≠ dst := fun heq =>
        hbox.notMem_of_ne hmemdst (fun heq' => hother (hactive'.neighbor_inj hactive heq')) (heq ▸ hq)
      rw [copyParticle_of_ne hqp hqdst]

theorem progress_copyParticle {number : Fin frameSize → ℕ} {pending : Finset (Fin frameSize)}
    {i j : Fin frameSize} {dst : FramePtr}
    {direction : ℕ} (hbox : box.Holds L) (hjob : Job K frameSize c E)
    (hinv : BlockInv K c box L E moves (.copy p number pending dests) k) (hmem : i ∈ pending)
    (hdirection : ((box.frames p).slots i).multiMask = direction + 2)
    (hdst : (dests direction).place frameSize (number i) = (some dst, (j : ℕ))) :
    ∃ k', Progress K c E moves L box k L (copyParticle box p i dst j)
      (.copy p number (pending.erase i) dests) k' := by
  cases hinv with
  | @copy _ _ _ moved _ visited rest hmoves hworking hl hvisited hothers hcopied hfits =>
    have hp : p ∈ L c := hl ▸ List.mem_append_right _ List.mem_cons_self
    have hactive : Active K c direction := by
      rcases hworking.aimed_slot hp i with hmask | hmask | ⟨direction', hactive, hmask⟩
      · omega
      · omega
      · obtain rfl : direction = direction' := by omega
        exact hactive
    obtain ⟨hmemdst, hworking'⟩ := hworking.copy hbox hp hactive (hactive.lt hjob) hdirection hdst
    have hdstc : dst ∉ L c := hbox.notMem_of_ne hmemdst hactive.neighbor_ne.symm
    have hne : p ≠ dst := fun heq => hdstc (heq ▸ hp)
    have hslots : ((copyParticle box p i dst j).frames p).slots =
        Function.update (box.frames p).slots i { (box.frames p).slots i with multiMask := 0 } :=
        copyParticle_src hne
    have hslot : ∀ i' ≠ i,
      ((copyParticle box p i dst j).frames p).slots i' = (box.frames p).slots i' := fun i' hi' => by
      rw [hslots, Function.update_of_ne hi']
    refine ⟨rest.length * perFrame DIM frameSize + afterwards DIM (L c) + 1 +
        (pending.erase i).card, ?_, ?_,
      BlockInv.copy hmoves hworking' hl (fun q hq => ?_) (fun i' hi' => ?_)
        (fun i' hi' => ?_) hfits, fun _ _ => rfl⟩
    · have hcard := Finset.card_erase_add_one hmem
      omega
    · refine ((Within.setSlots hbox hmemdst _).mono
        (Set.singleton_subset_iff.mpr hactive.mem_region)).trans
        ((Within.setSlots (hbox.setSlots _) hp _).mono (Set.singleton_subset_iff.mpr self_mem_region))
    · have hqp : q ≠ p := by
        rintro rfl
        have hnodup := hbox.nodup c
        rw [hl, List.nodup_middle, List.nodup_cons, List.mem_append, not_or] at hnodup
        exact hnodup.1.1 hq
      have hqdst : q ≠ dst := fun heq => hdstc (heq ▸ hl ▸ List.mem_append_left _ hq)
      rw [copyParticle_of_ne hqp hqdst]
      exact hvisited q hq
    · rw [hslot i' (Finset.ne_of_mem_erase hi')]
      exact hothers i' (Finset.mem_of_mem_erase hi')
    · rcases eq_or_ne i' i with rfl | hne'
      · rw [hslots, Function.update_self]
        exact Or.inl rfl
      · rw [hslot i' hne']
        exact hcopied i' fun hmem' => hi' (Finset.mem_erase.mpr ⟨hne', hmem'⟩)

theorem progress_stay {number : Fin frameSize → ℕ} {pending : Finset (Fin frameSize)}
    {i : Fin frameSize} (hbox : box.Holds L)
    (hjob : Job K frameSize c E)
    (hinv : BlockInv K c box L E moves (.copy p number pending dests) k) (hmem : i ∈ pending)
    (hge : frameSize * 2 ≤ number i) :
    ∃ k', Progress K c E moves L box k L box (.copy p number (pending.erase i) dests) k' := by
  cases hinv with
  | @copy _ _ _ _ _ visited rest hmoves hworking hl hvisited hothers hcopied hfits =>
    refine ⟨rest.length * perFrame DIM frameSize + afterwards DIM (L c) + 1 +
        (pending.erase i).card, Progress.ofSame ?_ hbox
      (BlockInv.copy hmoves hworking hl hvisited
        (fun i' hi' => hothers i' (Finset.mem_of_mem_erase hi')) (fun i' hi' => ?_) hfits)⟩
    · have hcard := Finset.card_erase_add_one hmem
      omega
    · rcases eq_or_ne i' i with rfl | hne
      · -- a particle that moves has got a place
        rcases hworking.aimed_slot
          (hl ▸ List.mem_append_right _ List.mem_cons_self) i' with hmask | hmask |
          ⟨direction, hactive, hmask⟩
        · exact Or.inl hmask
        · exact Or.inr hmask
        · have hplace := (hworking.lanes direction (hactive.lt hjob)).lt i' (mem_movers.mpr hmask)
          have hbound := (hfits direction (hactive.lt hjob) hactive).2
          omega
      · exact hcopied i' fun hmem' => hi' (Finset.mem_erase.mpr ⟨hne, hmem'⟩)

theorem progress_next {number : Fin frameSize → ℕ} (hbox : box.Holds L) (hjob : Job K frameSize c E)
    (hinv : BlockInv K c box L E moves (.copy p number ∅ dests) k) :
    ∃ k', Progress K c E moves L box k L box
      (.loop (box.getNextFrame p) fun linearIdx => (dests linearIdx).nextFrame frameSize) k' := by
  cases hinv with
  | @copy _ _ _ moved _ visited rest hmoves hworking hl hvisited hothers hcopied hfits =>
    have hunmarked : Unmarked (box.frames p).slots := fun i => hcopied i (Finset.notMem_empty i)
    have hnone : ∀ linearIdx, movers (box.frames p).slots linearIdx = ∅ := fun linearIdx =>
      Finset.eq_empty_of_forall_notMem fun i hi => by
        have hmask := mem_movers.mp hi
        rcases hunmarked i with h | h <;> omega
    have hlanes := fun linearIdx hlt => Lane.nextFrame (hnone linearIdx ▸ hworking.lanes linearIdx hlt)
      (by have hle := hjob.le; omega) (hworking.card_lt hjob hlt) (hfits linearIdx hlt)
    refine ⟨rest.length * perFrame DIM frameSize + afterwards DIM (L c),
      Progress.ofSame (by omega) hbox (BlockInv.loop hmoves
      ⟨hworking.source, hworking.aimed, fun linearIdx hlt => (hlanes linearIdx hlt).1,
        hworking.mustShift⟩
      (by rw [hl, List.append_assoc, List.singleton_append] : L c = (visited ++ [p]) ++ rest) (fun q hq => ?_) (hbox.getNextFrame hl)
      fun linearIdx hlt => (hlanes linearIdx hlt).2)⟩
    rcases List.mem_append.mp hq with hq | hq
    · exact hvisited q hq
    · rw [List.mem_singleton.mp hq]
      exact hunmarked

theorem progress_leave (hbox : box.Holds L) (hinv : BlockInv K c box L E moves (.loop none dests) k) :
    ∃ k', Progress K c E moves L box k L box
      (.fillGaps (Finset.range (NumberOfExchanges DIM)) dests .start : Pc frameSize) k' := by
  cases hinv with
  | @loop _ _ _ visited rest _ hmoves hworking hl hvisited hframe hfits =>
    obtain rfl : rest = [] := List.head?_eq_none_iff.mp hframe.symm
    rw [List.append_nil] at hl
    refine ⟨_, Progress.ofSame ?_ hbox
      (BlockInv.fillGaps hmoves hworking.source hworking.mustShift FillGaps.BlockInv.start
        (hl ▸ hvisited)
      (fun linearIdx => Finset.mem_range.mp)
      (fun linearIdx hmem => ⟨hworking.lanes linearIdx (Finset.mem_range.mp hmem),
        hfits linearIdx (Finset.mem_range.mp hmem)⟩)
      fun linearIdx hlt hnot => absurd (Finset.mem_range.mpr hlt) hnot)⟩
    rw [Finset.card_range, afterwards]
    omega

theorem progress_countParticles {pending : Finset ℕ} {fill : FillGaps.Pc} (hbox : box.Holds L)
    (hjob : Job K frameSize c E)
    (hinv : BlockInv K c box L E moves (.fillGaps pending dests fill) k) (hmem : linearIdx ∈ pending) :
    ∃ k', Progress K c E moves L box k L (countParticles K box c linearIdx (dests linearIdx))
      (.fillGaps (pending.erase linearIdx) dests fill : Pc frameSize) k' := by
  cases hinv with
  | @fillGaps number _ moved _ _ left hmoves hsource hmustShift hfill hunmarked hpending hlanes htold =>
    obtain ⟨hlane, hfit⟩ := hlanes linearIdx hmem
    have hlt := hpending linearIdx hmem
    have hmoved : (moved linearIdx).card ≤ (leaving (E c) linearIdx).card := by
      rw [leaving_eq hsource hlt, Multiset.card_add]
      exact Nat.le_add_left _ _
    obtain ⟨hwithin, hflags, hwell⟩ := hlane.countParticles hbox
      (fun hactive => lt_of_le_of_lt (Nat.add_le_add_left hmoved _)
        (hjob.near_lt linearIdx hactive)) hfit
    obtain ⟨-, hcell, hframes⟩ := hwithin.others c self_notMem_neighborOnly
    have hlanes' : ∀ linearIdx' ∈ pending.erase linearIdx,
        Lane K c (countParticles K box c linearIdx (dests linearIdx)) L E number linearIdx'
          (dests linearIdx') ∅ (moved linearIdx') ∧
          (Active K c linearIdx' → Fits frameSize (dests linearIdx') ∧
            (dests linearIdx').counter < frameSize) := fun linearIdx' hmem' => by
      obtain ⟨hlane', hfit'⟩ := hlanes linearIdx' (Finset.mem_of_mem_erase hmem')
      exact ⟨hlane'.within hwithin fun hactive =>
        hactive.notMem_neighborOnly (Finset.ne_of_mem_erase hmem'), hfit'⟩
    refine ⟨(pending.erase linearIdx).card + left, ?_, hwithin.mono neighborOnly_subset_region,
      BlockInv.fillGaps hmoves ?_ (hcell ▸ hmustShift)
      (hfill.congr hcell hframes) (fun p hp => ?_)
      (fun linearIdx' hmem' => hpending linearIdx' (Finset.mem_of_mem_erase hmem'))
      hlanes' fun linearIdx' hlt' hnot hactive => ?_, fun d _ => hflags d⟩
    · have hcard := Finset.card_erase_add_one hmem
      omega
    · rw [hwithin.entries self_notMem_neighborOnly]
      exact hsource
    · rw [hframes p hp]
      exact hunmarked p hp
    · rcases eq_or_ne linearIdx' linearIdx with rfl | hne
      · exact hwell hactive
      · obtain ⟨hwell', hentries⟩ :=
          htold linearIdx' hlt' (fun hmem' => hnot (Finset.mem_erase.mpr ⟨hne, hmem'⟩)) hactive
        have hother := hactive.notMem_neighborOnly hne
        rw [hwithin.entries hother]
        exact ⟨hwithin.wellFormed hother hwell', hentries⟩

theorem progress_fillGaps {pending : Finset ℕ} {fill fill' : FillGaps.Pc} (hbox : box.Holds L)
    (hjob : Job K frameSize c E)
    (hinv : BlockInv K c box L E moves (.fillGaps pending dests fill) k)
    (hstep : FillGaps.BlockStep c box fill box' fill') :
    ∃ L' k', Progress K c E moves L box k L' box'
      (.fillGaps pending dests fill' : Pc frameSize) k' := by
  cases hinv with
  | @fillGaps _ _ moved _ _ left hmoves hsource hmustShift hfill hunmarked hpending hlanes htold =>
    have hcard : (box.particles (L c)).card < 2 ^ 32 := by
      have hle : (box.entries (L c)).card ≤ (E c).card := by
        rw [← hsource, Multiset.card_add]
        exact Nat.le_add_right _ _
      have hlt := hjob.lt
      rw [ParticlesBox.card_entries] at hle
      omega
    obtain ⟨l', left', hprogress⟩ :=
      hstep.progress hbox hfill hunmarked hjob.pos (by have hle := hjob.le; omega) hcard
    have hwithin := Within.ofLocal hbox hprogress.holds hprogress.sublist hprogress.writes
    have hnear : ∀ {linearIdx : ℕ}, Active K c linearIdx →
      neighborSuperCellIdx c linearIdx ∉ ({c} : Set (DataSpace DIM)) :=
      fun hactive => hactive.neighbor_ne
    refine ⟨Function.update L c l', pending.card + left', Nat.add_lt_add_left hprogress.lt _,
      hwithin.mono (Set.singleton_subset_iff.mpr self_mem_region), BlockInv.fillGaps hmoves ?_
        (hprogress.writes.mustShift.trans hmustShift) ?_ ?_ hpending
        (fun linearIdx hmem =>
          ⟨(hlanes linearIdx hmem).1.within hwithin hnear, (hlanes linearIdx hmem).2⟩)
        fun linearIdx hlt hnot hactive => ?_, fun d hd => ?_⟩
    · rw [Function.update_self, ParticlesBox.entries_of_unmarked hprogress.unmarked,
        hprogress.particles,
        ← ParticlesBox.entries_of_unmarked hunmarked]
      exact hsource
    · rw [Function.update_self]
      exact hprogress.inv
    · rw [Function.update_self]
      exact hprogress.unmarked
    · obtain ⟨hwell, hentries⟩ := htold linearIdx hlt hnot hactive
      rw [hwithin.entries (hnear hactive)]
      exact ⟨hwithin.wellFormed (hnear hactive) hwell, hentries⟩
    · rw [hprogress.writes.superCells d hd]

/-- **What one step of a block achieves.** -/
theorem BlockStep.progress (hstep : BlockStep K c box pc box' pc') (hbox : box.Holds L)
    (hjob : Job K frameSize c E)
    (hinv : BlockInv K c box L E moves pc k) :
    ∃ L' k', Progress K c E moves L box k L' box' pc' k' := by
  cases hstep with
  | skip h => exact ⟨L, progress_skip hbox hinv h⟩
  | noParticles _ hnone => exact ⟨L, progress_noParticles hbox hinv hnone⟩
  | start h _ => exact ⟨L, progress_start hbox hjob hinv h⟩
  | count h => exact ⟨L, progress_count hbox hinv h⟩
  | takeFrames hmem hlow hhigh => exact progress_takeFrames hbox hinv hmem hlow hhigh
  | framesTaken => exact ⟨L, progress_framesTaken hbox hinv⟩
  | copyParticle hmem _ hdirection hdst =>
      exact ⟨L, progress_copyParticle hbox hjob hinv hmem hdirection hdst⟩
  | stay hmem hge => exact ⟨L, progress_stay hbox hjob hinv hmem hge⟩
  | next => exact ⟨L, progress_next hbox hjob hinv⟩
  | leave => exact ⟨L, progress_leave hbox hinv⟩
  | countParticles hmem => exact ⟨L, progress_countParticles hbox hjob hinv hmem⟩
  | fillGaps h => exact progress_fillGaps hbox hjob hinv h

end Step

/-! ## Whole launches -/

section Runs

variable {K : KernelShiftParticles DIM} {c : DataSpace DIM} {box : ParticlesBox DIM frameSize A}
  {L : DataSpace DIM → List FramePtr}
  {E : DataSpace DIM → Multiset (ℕ × A)} {moves : Bool} {pc : Pc frameSize} {k : ℕ}
  {blocks : Finset (DataSpace DIM)}

/-- A block whose threads have all come to the end. -/
def Pc.Finished (pc : Pc frameSize) : Prop := pc = .done ∨ ∃ dests, pc = .fillGaps ∅ dests .done

/-- The counters of the directions give out numbers. -/
theorem exists_destNumbers (numExchanges : ℕ) (slots : Fin frameSize → Slot A)
    (dests : ℕ → Destination) :
    ∃ number, DestNumbers numExchanges slots dests number := by
  choose index hindex hnone using fun linearIdx => exists_numbers (movers slots linearIdx) 0
  refine ⟨fun i => if (slots i).multiMask < 2 then INV_LOC_IDX else
    (dests ((slots i).multiMask - 2)).counter + index ((slots i).multiMask - 2) i,
      fun linearIdx _ => ?_, fun i hi => if_pos hi⟩
  have hshift : Set.BijOn ((dests linearIdx).counter + ·) (Set.Iio (movers slots linearIdx).card)
      (Set.Ico (dests linearIdx).counter
        ((dests linearIdx).counter + (movers slots linearIdx).card)) := by
    refine ⟨fun w hw => ⟨Nat.le_add_right _ _, Nat.add_lt_add_left hw _⟩,
      fun w _ w' _ heq => Nat.add_left_cancel heq, fun w hw => ?_⟩
    obtain ⟨w, rfl⟩ := Nat.exists_eq_add_of_le hw.1
    exact ⟨w, Nat.lt_of_add_lt_add_left hw.2, rfl⟩
  refine (hshift.comp (hindex linearIdx)).congr fun i hi => ?_
  have hmask : (slots i).multiMask = linearIdx + 2 := mem_movers.mp hi
  rw [Function.comp_apply, if_neg (by omega), hmask, Nat.add_sub_cancel]

theorem exists_takesFrame (n : DataSpace DIM) (needed : Prop) (box : ParticlesBox DIM frameSize A)
    (ptr : Option FramePtr) :
    ∃ box' ptr', TakesFrame n needed box ptr box' ptr' := by
  by_cases h : needed
  · obtain ⟨p, hp⟩ := Infinite.exists_notMem_finset box.allocated
    exact ⟨_, _, TakesFrame.take h hp⟩
  · exact ⟨_, _, TakesFrame.keep h⟩

/-- A block that is not finished can go on. -/
theorem BlockInv.exists_step (h : BlockInv K c box L E moves pc k) (hjob : Job K frameSize c E) :
    pc.Finished ∨ ∃ box' pc', BlockStep K c box pc box' pc' := by
  cases h with
  | start =>
    refine Or.inr ?_
    rcases hprocessed : isProcessedSupercell K box c with _ | _
    · exact ⟨_, _, BlockStep.skip hprocessed⟩
    · by_cases hnone : (box.superCells c).numParticles = 0
      · exact ⟨_, _, BlockStep.noParticles hprocessed hnone⟩
      · exact ⟨_, _, BlockStep.start hprocessed hnone⟩
  | @loop _ _ dests _ _ frame =>
    refine Or.inr ?_
    rcases frame with _ | p
    · exact ⟨_, _, BlockStep.leave⟩
    · obtain ⟨number, hnumber⟩ := exists_destNumbers (NumberOfExchanges DIM) (box.frames p).slots dests
      exact ⟨_, _, BlockStep.count hnumber⟩
  | @frames p _ pending _ dests =>
    refine Or.inr ?_
    rcases pending.eq_empty_or_nonempty with rfl | ⟨linearIdx, hmem⟩
    · exact ⟨_, _, BlockStep.framesTaken⟩
    · obtain ⟨box', low, hlow⟩ :=
        exists_takesFrame (neighborSuperCellIdx c linearIdx) (0 < (dests linearIdx).counter ∧
        isValidSupercellIdx (neighborSuperCellIdx c linearIdx) K.numSupercellsWithGuard ∧
        (dests linearIdx).low = none)
        box (dests linearIdx).low
      obtain ⟨box'', high, hhigh⟩ :=
        exists_takesFrame (neighborSuperCellIdx c linearIdx) (0 < (dests linearIdx).counter ∧
        isValidSupercellIdx (neighborSuperCellIdx c linearIdx) K.numSupercellsWithGuard ∧
        frameSize < (dests linearIdx).counter)
        box' (dests linearIdx).high
      exact ⟨_, _, BlockStep.takeFrames hmem hlow hhigh⟩
  | @copy p number pending _ dests _ _ hmoves hworking hl hvisited hothers hcopied hfits =>
    refine Or.inr ?_
    rcases pending.eq_empty_or_nonempty with rfl | ⟨i, hmem⟩
    · exact ⟨_, _, BlockStep.next⟩
    rcases Nat.lt_or_ge (number i) (frameSize * 2) with hlt | hge
    · have hmask : 2 ≤ ((box.frames p).slots i).multiMask := by
        by_contra hsmall
        have hnone := hothers i hmem (by omega)
        have hle := hjob.le
        omega
      rcases hworking.aimed_slot
        (hl ▸ List.mem_append_right _ List.mem_cons_self) i with hzero | hone |
        ⟨direction, hactive, hdirection⟩
      · omega
      · omega
      · have hlane := hworking.lanes direction (hactive.lt hjob)
        obtain ⟨⟨hle, -⟩, -⟩ := hfits direction (hactive.lt hjob) hactive
        obtain ⟨dst, j, hdst⟩ :=
          Destination.exists_place ((hlane.lt i (mem_movers.mpr hdirection)).trans_le hle) hlane.shape
        exact ⟨_, _, BlockStep.copyParticle hmem hlt hdirection hdst⟩
    · exact ⟨_, _, BlockStep.stay hmem hge⟩
  | @fillGaps _ pending _ _ fill _ hmoves hsource hmustShift hfill =>
    rcases pending.eq_empty_or_nonempty with rfl | ⟨linearIdx, hmem⟩
    · rcases hfill.exists_step hjob.pos with rfl | ⟨box', fill', hstep⟩
      · exact Or.inl (Or.inr ⟨_, rfl⟩)
      · exact Or.inr ⟨_, _, BlockStep.fillGaps hstep⟩
    · exact Or.inr ⟨_, _, BlockStep.countParticles hmem⟩
  | done => exact Or.inl (Or.inl rfl)

/-- What a finished block has achieved. -/
theorem BlockInv.moved (h : BlockInv K c box L E moves pc k) (hjob : Job K frameSize c E)
    (hfinished : pc.Finished) :
    Moved K c box L E moves := by
  rcases hfinished with rfl | ⟨dests, rfl⟩
  · cases h with
    | done h => exact h
  · cases h with
    | @fillGaps _ _ moved _ _ _ hmoves hsource hmustShift hfill hunmarked hpending hlanes htold =>
      subst hmoves
      have hsettled : ∀ e ∈ box.entries (L c), e.1 = 1 :=
        fun e he => ParticlesBox.mask_of_mem_entries hunmarked he
      cases hfill with
      | done hwell =>
        refine ⟨hwell, fun linearIdx hactive =>
          (htold linearIdx (hactive.lt hjob) (Finset.notMem_empty _) hactive).1, hmustShift, ?_,
          fun linearIdx hactive => ?_⟩
        · rw [if_pos rfl, staying_eq hsource, staying_eq_self hsettled]
        · rw [if_pos rfl, leaving_eq hsource (hactive.lt hjob), leaving_eq_zero hsettled, zero_add]
          exact (htold linearIdx (hactive.lt hjob) (Finset.notMem_empty _) hactive).2

/-- A finished block takes no steps. -/
theorem BlockStep.not_finished {box' : ParticlesBox DIM frameSize A} {pc' : Pc frameSize}
    (h : BlockStep K c box pc box' pc') :
    ¬ pc.Finished := by
  rintro (rfl | ⟨dests, rfl⟩)
  · cases h
  · cases h with
    | countParticles hmem => exact Finset.notMem_empty _ hmem
    | fillGaps h => cases h

/-- What a launch is given. -/
structure Launch (K : KernelShiftParticles DIM) (blocks : Finset (DataSpace DIM))
    (L : DataSpace DIM → List FramePtr)
    (box : ParticlesBox DIM frameSize A) : Prop where
  holds : box.Holds L
  /-- The double checker board. -/
  disjoint : ∀ c ∈ blocks, ∀ c' ∈ blocks, c ≠ c' → ∀ d ∈ region K c, d ∉ region K c'
  wellFormed : ∀ c ∈ blocks, ∀ d ∈ region K c, WellFormed box d (L d)
  aimed : ∀ c ∈ blocks, isProcessedSupercell K box c = true → Aimed K c (box.entries (L c))
  job : ∀ c ∈ blocks, Job K frameSize c fun d => box.entries (L d)

/-- What a launch leaves. -/
structure Launched (K : KernelShiftParticles DIM) (blocks : Finset (DataSpace DIM))
    (L : DataSpace DIM → List FramePtr)
    (box : ParticlesBox DIM frameSize A) (L' : DataSpace DIM → List FramePtr)
    (box' : ParticlesBox DIM frameSize A) : Prop where
  within : Within {d | ∃ c ∈ blocks, d ∈ region K c} L box L' box'
  moved : ∀ c ∈ blocks, Moved K c box' L' (fun d => box.entries (L d)) (isProcessedSupercell K box c)
  mustShift : ∀ d ∉ blocks, (box'.superCells d).mustShift = (box.superCells d).mustShift

/-- What holds while the blocks run, with the number of steps that are left. -/
def Running (K : KernelShiftParticles DIM) (blocks : Finset (DataSpace DIM))
    (L : DataSpace DIM → List FramePtr)
    (box : ParticlesBox DIM frameSize A) (s : State DIM frameSize A) (n : ℕ) : Prop :=
  ∃ (L' : DataSpace DIM → List FramePtr) (k : DataSpace DIM → ℕ),
    Within {d | ∃ c ∈ blocks, d ∈ region K c} L box L' s.box ∧
    (∀ d ∉ blocks, (s.box.superCells d).mustShift = (box.superCells d).mustShift) ∧
    n = ∑ c ∈ blocks, k c ∧
    ∀ c ∈ blocks, BlockInv K c s.box L' (fun d => box.entries (L d)) (isProcessedSupercell K box c)
      (s.pc c) (k c)

/-- **A step of any block.** -/
theorem Running.step {s t : State DIM frameSize A} {n : ℕ} (h : Running K blocks L box s n)
    (hlaunch : Launch K blocks L box)
    (hst : (system K blocks box).step s t) : ∃ m < n, Running K blocks L box t m := by
  obtain ⟨L', k, hwithin, hflags, rfl, hblocks⟩ := h
  obtain ⟨c, hc, box', pc', hstep, rfl⟩ := hst
  obtain ⟨L'', k', hprogress⟩ := hstep.progress hwithin.holds (hlaunch.job c hc) (hblocks c hc)
  refine ⟨∑ d ∈ blocks, Function.update k c k' d, ?_, L'', Function.update k c k',
    hwithin.trans (hprogress.within.mono fun d hd => ⟨c, hc, hd⟩), fun d hd => ?_, rfl, fun d hd => ?_⟩
  · refine Finset.sum_lt_sum (fun d _ => ?_) ⟨c, hc, by rw [Function.update_self]; exact hprogress.lt⟩
    rcases eq_or_ne d c with rfl | hne
    · rw [Function.update_self]
      exact hprogress.lt.le
    · rw [Function.update_of_ne hne]
  · exact (hprogress.mustShift d fun heq => hd (heq ▸ hc)).trans (hflags d hd)
  · dsimp only
    rcases eq_or_ne d c with rfl | hne
    · rw [Function.update_self, Function.update_self]
      exact hprogress.inv
    · rw [Function.update_of_ne hne, Function.update_of_ne hne]
      exact (hblocks d hd).within hprogress.within (hlaunch.disjoint d hd c hc hne)

/-- **Every run of a launch ends**, whatever numbers the threads get, whatever frames the heap gives
out and in whatever order the blocks and their threads take their steps. -/
theorem shift_ends (h : Launch K blocks L box) :
    (system K blocks box).Ends ⟨box, fun _ => .start⟩ fun s =>
    (∀ c ∈ blocks, (s.pc c).Finished) ∧ ∃ L', Launched K blocks L box L' s.box := by
  refine StepSystem.ends_of_variant (I := Running K blocks L box)
    (fun s n hs t hst => hs.step h hst) (fun s n hs hterminal => ?_)
    ⟨L, fun c => (L c).length * perFrame DIM frameSize + afterwards DIM (L c) + 1,
      Within.refl h.holds, fun _ _ => rfl, rfl,
      fun c hc => BlockInv.start (h.wellFormed c hc c self_mem_region) rfl (h.aimed c hc)
        (fun linearIdx hactive => ⟨h.wellFormed c hc _ hactive.mem_region, rfl⟩) rfl⟩
  obtain ⟨L', k, hwithin, hflags, -, hblocks⟩ := hs
  have hfinished : ∀ c ∈ blocks, (s.pc c).Finished := fun c hc =>
    ((hblocks c hc).exists_step (h.job c hc)).resolve_right fun ⟨box', pc', hstep⟩ =>
      hterminal _ ⟨c, hc, box', pc', hstep, rfl⟩
  exact ⟨hfinished, L', hwithin, fun c hc => (hblocks c hc).moved (h.job c hc) (hfinished c hc), hflags⟩

end Runs

end ShiftParticles
end PmaccParticles
end Spearhed
