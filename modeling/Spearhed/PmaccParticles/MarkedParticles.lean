import Spearhed.PmaccParticles.FillGaps

/-!
# Particles with their masks

A particle that is about to leave its supercell has the direction in its mask.  The entries of a
frame are its particles together with the masks; where every particle is settled, they are the
particles alone.

* `ParticlesBox.entries_setSlots`: what writing to one slot does to the entries of a list of frames.
* `Filling`: a list of frames at whose end particles are put, in any order, to places that were
  counted off before; `Filling.write` puts one there, `Filling.append` adds a frame, `Filling.drop`
  leaves a full one behind.
-/

namespace Spearhed
namespace PmaccParticles

open Library Mappings ForEachParticle

variable {DIM frameSize : ℕ} {A : Type}

/-- What a slot holds. -/
def Slot.entry (slot : Slot A) : Multiset (ℕ × A) :=
  if slot.multiMask = 0 then 0 else {(slot.multiMask, slot.attributes)}

/-- The particles of the slots of a frame, with their masks. -/
def slotEntries (slots : Fin frameSize → Slot A) : Multiset (ℕ × A) := ∑ i, (slots i).entry

/-- The particles of a list of frames, with their masks. -/
def ParticlesBox.entries (box : ParticlesBox DIM frameSize A) (l : List FramePtr) : Multiset (ℕ × A) :=
  (l.map fun p => slotEntries (box.frames p).slots).sum

section Entries

variable {box box' : ParticlesBox DIM frameSize A} {slots : Fin frameSize → Slot A} {slot : Slot A}
  {l l' : List FramePtr} {p : FramePtr}

theorem Slot.entry_of_zero (h : slot.multiMask = 0) : slot.entry = 0 := if_pos h

theorem Slot.entry_of_ne_zero (h : slot.multiMask ≠ 0) :
    slot.entry = {(slot.multiMask, slot.attributes)} := if_neg h

theorem map_slotEntries (slots : Fin frameSize → Slot A) :
    (slotEntries slots).map Prod.snd = slotParticles slots := by
  rw [slotEntries, slotParticles, ← Multiset.coe_mapAddMonoidHom, map_sum]
  refine Finset.sum_congr rfl fun i _ => ?_
  by_cases h : (slots i).multiMask = 0
  · rw [Slot.entry_of_zero h, if_pos h, map_zero]
  · rw [Slot.entry_of_ne_zero h, if_neg h]
    rfl

/-- The masks that occur. -/
theorem mem_slotEntries {e : ℕ × A} : e ∈ slotEntries slots ↔
    ∃ i, (slots i).multiMask ≠ 0 ∧ ((slots i).multiMask, (slots i).attributes) = e := by
  rw [slotEntries, Multiset.mem_sum]
  refine exists_congr fun i => ?_
  by_cases h : (slots i).multiMask = 0
  · simp [Slot.entry_of_zero h, h]
  · simp [Slot.entry_of_ne_zero h, h, eq_comm]

/-- Writing to one slot. -/
theorem slotEntries_update (slots : Fin frameSize → Slot A) (j : Fin frameSize) (slot : Slot A) :
    slotEntries (Function.update slots j slot) + (slots j).entry = slotEntries slots + slot.entry := by
  have hothers : ∑ i ∈ Finset.univ.erase j,
    (Function.update slots j slot i).entry = ∑ i ∈ Finset.univ.erase j, (slots i).entry :=
    Finset.sum_congr rfl fun i hi => by rw [Function.update_of_ne (Finset.ne_of_mem_erase hi)]
  rw [slotEntries, slotEntries, ← Finset.add_sum_erase _ _ (Finset.mem_univ j),
    ← Finset.add_sum_erase _ _ (Finset.mem_univ j),
    hothers, Function.update_self]
  abel

namespace ParticlesBox

@[simp] theorem entries_nil : box.entries [] = 0 := rfl

@[simp] theorem entries_cons :
    box.entries (p :: l) = slotEntries (box.frames p).slots + box.entries l := List.sum_cons

@[simp] theorem entries_append : box.entries (l ++ l') = box.entries l + box.entries l' := by
  rw [entries, List.map_append, List.sum_append]
  rfl

theorem entries_congr (h : ∀ p ∈ l, (box'.frames p).slots = (box.frames p).slots) :
    box'.entries l = box.entries l := by
  rw [entries, entries]
  exact congrArg List.sum (List.map_congr_left fun p hp => congrArg slotEntries (h p hp))

theorem map_entries (box : ParticlesBox DIM frameSize A) (l : List FramePtr) :
    (box.entries l).map Prod.snd = box.particles l := by
  induction l with
  | nil => rfl
  | cons p l ih => rw [entries_cons, particles_cons, Multiset.map_add, ih, map_slotEntries]

theorem card_entries (box : ParticlesBox DIM frameSize A) (l : List FramePtr) :
    (box.entries l).card = (box.particles l).card := by
  rw [← map_entries, Multiset.card_map]

theorem mem_entries {e : ℕ × A} :
    e ∈ box.entries l ↔ ∃ p ∈ l, e ∈ slotEntries (box.frames p).slots := by
  induction l with
  | nil => simp
  | cons p l ih => rw [entries_cons, Multiset.mem_add, ih, List.exists_mem_cons_iff]

/-- **Writing to one slot** of a frame of a list. -/
theorem entries_setSlots (hl : l.Nodup) (hp : p ∈ l) (j : Fin frameSize) (slot : Slot A) :
    (box.setSlots p (Function.update (box.frames p).slots j slot)).entries l +
    ((box.frames p).slots j).entry =
      box.entries l + slot.entry := by
  obtain ⟨front, back, rfl⟩ := List.append_of_mem hp
  rw [List.nodup_middle, List.nodup_cons, List.mem_append, not_or] at hl
  have hothers : ∀ (l : List FramePtr) (slots : Fin frameSize → Slot A), p ∉ l →
    (box.setSlots p slots).entries l = box.entries l :=
    fun l slots hnot => entries_congr fun q hq => by
      have hne : q ≠ p := fun heq => hnot (heq ▸ hq)
      rw [setSlots, setFrame_frames_of_ne _ hne]
  have hslot := slotEntries_update (box.frames p).slots j slot
  rw [entries_append, entries_append, entries_cons, entries_cons, hothers front _ hl.1.1,
    hothers back _ hl.1.2, setSlots,
    setFrame_frames_self]
  dsimp only
  rw [add_assoc, add_right_comm, hslot]
  abel

/-- Where no particle is about to leave. -/
theorem mask_of_mem_entries (h : ∀ p ∈ l, Unmarked (box.frames p).slots) {e : ℕ × A}
    (he : e ∈ box.entries l) : e.1 = 1 := by
  obtain ⟨p, hp, he⟩ := mem_entries.mp he
  obtain ⟨i, hi, rfl⟩ := mem_slotEntries.mp he
  exact (h p hp i).resolve_left hi

theorem entries_of_unmarked (h : ∀ p ∈ l, Unmarked (box.frames p).slots) :
    box.entries l = (box.particles l).map (Prod.mk 1) := by
  rw [← map_entries, Multiset.map_map]
  refine (Multiset.map_id _).symm.trans (Multiset.map_congr rfl fun e he => ?_)
  rw [Function.comp_apply, ← mask_of_mem_entries h he]
  rfl

end ParticlesBox

end Entries

/-! ## Lists of frames that are filled at their end -/

/-- The frames at the end of a list take particles at counted places: the frames in front of them
are full, and `W` are the places where there is a particle. -/
structure Filling (box : ParticlesBox DIM frameSize A) (l tail : List FramePtr) (W : Set ℕ) : Prop where
  exists_front : ∃ front, l = front ++ tail ∧ ∀ p ∈ front, Full (box.frames p).slots
  places : ∀ k q, tail[k]? = some q → ∀ i : Fin frameSize, ((box.frames q).slots i).multiMask ≠ 0 ↔
    k * frameSize + i ∈ W
  lt : ∀ w ∈ W, w < tail.length * frameSize

namespace Filling

variable {box box' : ParticlesBox DIM frameSize A} {l tail : List FramePtr} {W : Set ℕ} {q : FramePtr}

theorem congr (h : Filling box l tail W)
    (hframes : ∀ p ∈ l, (box'.frames p).slots = (box.frames p).slots) : Filling box' l tail W := by
  obtain ⟨front, rfl, hfull⟩ := h.exists_front
  refine ⟨⟨front, rfl, fun p hp => ?_⟩, fun k q hq i => ?_, h.lt⟩
  · rw [hframes p (List.mem_append_left _ hp)]
    exact hfull p hp
  · rw [hframes q (List.mem_append_right _ (List.mem_of_getElem? hq))]
    exact h.places k q hq i

theorem nil : Filling box [] [] ∅ :=
  ⟨⟨[], rfl, fun p hp => absurd hp List.not_mem_nil⟩,
    fun k q hq => absurd hq (by simp), fun w hw => absurd hw (Set.notMem_empty w)⟩

/-- An empty frame is added. -/
theorem append (h : Filling box l tail W)
    (hframes : ∀ p ∈ l, (box'.frames p).slots = (box.frames p).slots)
    (hempty : ∀ i, ((box'.frames q).slots i).multiMask = 0) :
    Filling box' (l ++ [q]) (tail ++ [q]) W := by
  have hold := h.congr hframes
  obtain ⟨front, rfl, hfull⟩ := hold.exists_front
  refine ⟨⟨front, List.append_assoc .., hfull⟩, fun k p hp i => ?_, fun w hw => ?_⟩
  · rcases lt_or_ge k tail.length with hlt | hge
    · rw [List.getElem?_append_left hlt] at hp
      exact hold.places k p hp i
    · rw [List.getElem?_append_right hge] at hp
      obtain rfl : p = q := List.mem_singleton.mp (List.mem_of_getElem? hp)
      refine iff_of_false (not_not.mpr (hempty i)) fun hw => ?_
      have hlt := h.lt _ hw
      have hle := Nat.mul_le_mul_right frameSize hge
      omega
  · rw [List.length_append, List.length_singleton, Nat.succ_mul]
    exact (h.lt w hw).trans_le (Nat.le_add_right _ _)

/-- **A particle is put to its place.** -/
theorem write (h : Filling box l tail W) (hnodup : l.Nodup) {k : ℕ} (hq : tail[k]? = some q)
    {slots : Fin frameSize → Slot A}
    {i : Fin frameSize} {slot : Slot A} (hslot : slot.multiMask ≠ 0)
    (hslots : slots = Function.update (box.frames q).slots i slot) :
    Filling (box.setSlots q slots) l tail (insert (k * frameSize + i) W) := by
  obtain ⟨front, rfl, hfull⟩ := h.exists_front
  obtain ⟨-, hnodup', hdisjoint⟩ := List.nodup_append.mp hnodup
  have hmem : q ∈ tail := List.mem_of_getElem? hq
  have hk : k < tail.length := (List.getElem?_eq_some_iff.mp hq).1
  refine ⟨⟨front, rfl, fun p hp => ?_⟩, fun k' p hp j => ?_, fun w hw => ?_⟩
  · rw [ParticlesBox.setSlots, ParticlesBox.setFrame_frames_of_ne _ (hdisjoint p hp q hmem)]
    exact hfull p hp
  · rw [Set.mem_insert_iff, ParticlesBox.setSlots]
    rcases eq_or_ne k' k with rfl | hne
    · obtain rfl : q = p := Option.some.inj (hq.symm.trans hp)
      rw [ParticlesBox.setFrame_frames_self]
      dsimp only
      rw [hslots]
      rcases eq_or_ne j i with rfl | hji
      · rw [Function.update_self]
        exact iff_of_true hslot (Or.inl rfl)
      · rw [Function.update_of_ne hji, h.places k' q hp j, Nat.add_left_cancel_iff]
        exact (or_iff_right fun heq => hji (Fin.ext heq)).symm
    · have hpq : p ≠ q := fun heq =>
        hne ((List.getElem?_inj hk hnodup').mp (hq.trans (heq ▸ hp.symm))).symm
      rw [ParticlesBox.setFrame_frames_of_ne _ hpq, h.places k' p hp j]
      refine (or_iff_right fun heq => hne ?_).symm
      have hdiv := congrArg (· / frameSize) heq
      have hpos : 0 < frameSize := Fin.pos i
      simpa [Nat.mul_comm _ frameSize, Nat.mul_add_div hpos, Nat.div_eq_of_lt j.isLt,
        Nat.div_eq_of_lt i.isLt] using hdiv
  · rcases Set.mem_insert_iff.mp hw with rfl | hw
    · calc k * frameSize + i < (k + 1) * frameSize := by rw [Nat.succ_mul]; exact Nat.add_lt_add_left i.isLt _
        _ ≤ tail.length * frameSize := Nat.mul_le_mul_right _ hk
    · exact h.lt w hw

/-- A frame that has become full is left behind. -/
theorem drop (h : Filling box l (q :: tail) W) (hfull : ∀ i < frameSize, i ∈ W) :
    Filling box l tail {w | w + frameSize ∈ W} := by
  obtain ⟨front, rfl, hfront⟩ := h.exists_front
  refine ⟨⟨front ++ [q], by rw [List.append_assoc, List.singleton_append], fun p hp => ?_⟩,
    fun k p hp i => ?_, fun w hw => ?_⟩
  · rcases List.mem_append.mp hp with hp | hp
    · exact hfront p hp
    · obtain rfl := List.mem_singleton.mp hp
      intro i
      refine (h.places 0 p rfl i).mpr ?_
      rw [Nat.zero_mul, Nat.zero_add]
      exact hfull i i.isLt
  · rw [h.places (k + 1) p (by rwa [List.getElem?_cons_succ]) i, Set.mem_ofPred_eq, Nat.succ_mul,
      Nat.add_right_comm]
  · have hlt := h.lt _ hw
    rw [List.length_cons, Nat.succ_mul] at hlt
    omega

end Filling

/-! ## Well-formed supercells -/

section WellFormed

variable {box : ParticlesBox DIM frameSize A} {l tail : List FramePtr} {c : DataSpace DIM}
  {p : FramePtr} {m : ℕ}

theorem numLive_eq_card (box : ParticlesBox DIM frameSize A) (p : FramePtr) :
    numLive box p = (live (box.frames p).slots).card := by
  have hlive : isLive box p ∘ Fin.val = fun i :
    Fin frameSize => decide (((box.frames p).slots i).multiMask ≠ 0) := by
    funext i
    rw [Function.comp_apply, isLive, dif_pos i.isLt]
  rw [numLive, ← List.map_coe_finRange_eq_range, List.filter_map, List.length_map, hlive]
  rfl

theorem length_liveSlots (box : ParticlesBox DIM frameSize A) (l : List FramePtr) :
    (liveSlots box l).length = (box.particles l).card := by
  induction l with
  | nil => rfl
  | cons p l ih =>
    rw [ParticlesBox.particles_cons, Multiset.card_add, card_slotParticles, ← numLive_eq_card, ← ih,
      liveSlots, List.flatMap_cons,
      List.length_append, List.length_map]
    rfl

/-- The counter of a well-formed supercell. -/
theorem numParticles_eq_card (h : WellFormed box c l) :
    (box.superCells c).numParticles = (box.entries l).card := by
  rw [h.numParticles, length_liveSlots, ParticlesBox.card_entries]

/-- The last frame of a well-formed supercell has room for more particles, unless it is full. -/
theorem filling_of_wellFormed (h : WellFormed box c l) (hp : l.getLast? = some p) :
    0 < getSizeLastFrame box c ∧
      (getSizeLastFrame box c < frameSize → Filling box l [p] (Set.Iio (getSizeLastFrame box c))) ∧
      (frameSize ≤ getSizeLastFrame box c → Filling box l [] ∅) := by
  obtain ⟨front, rfl⟩ := List.getLast?_eq_some_iff.mp hp
  obtain ⟨hpacked, hpos⟩ := h.packed (p := p) (List.mem_append_right _ (List.mem_singleton_self p))
  have hsize := h.getSizeLastFrame_eq rfl
  have hlive : ∀ {q : FramePtr} {i : Fin frameSize}, isLive box q i ↔
    ((box.frames q).slots i).multiMask ≠ 0 := fun {q i} => by
    rw [isLive, dif_pos i.isLt, decide_eq_true_iff]
  have hfront : ∀ q ∈ front, Full (box.frames q).slots := fun q hq i =>
    hlive.mp (h.full q (by rwa [List.dropLast_concat]) i i.isLt)
  rw [hsize]
  refine ⟨hpos, fun _ => ⟨⟨front, rfl, hfront⟩, fun k q hq i => ?_, fun w hw => ?_⟩,
    fun hge => ⟨⟨front ++ [p], by simp, fun q hq i => ?_⟩,
    fun k q hq => ?_, fun w hw => absurd hw (Set.notMem_empty w)⟩⟩
  · obtain ⟨rfl, rfl⟩ : k = 0 ∧ p = q := by
      rcases k with _ | k
      · exact ⟨rfl, Option.some.inj hq⟩
      · exact absurd hq (by simp)
    rw [← hlive, hpacked.2 i i.isLt, Nat.zero_mul, Nat.zero_add]
    rfl
  · rw [List.length_singleton, Nat.one_mul]
    exact lt_of_lt_of_le hw hpacked.1
  · rcases List.mem_append.mp hq with hq | hq
    · exact hfront q hq i
    · obtain rfl := List.mem_singleton.mp hq
      exact hlive.mp ((hpacked.2 i i.isLt).mpr (i.isLt.trans_le hge))
  · exact absurd hq (by simp)

/-- **A list of frames that was filled** makes a well-formed supercell, if its counter is right. -/
theorem Filling.wellFormed (h : Filling box l tail (Set.Iio m)) (hlist : box.ListAt .last c l)
    (hm : m < frameSize)
    (htail : tail.length * frameSize < m + frameSize)
    (hnum : (box.superCells c).numParticles = (box.entries l).card)
    (hlt : (box.entries l).card < 2 ^ 32) : WellFormed box c l := by
  obtain ⟨front, rfl, hfull⟩ := h.exists_front
  have hcard := FillGaps.card_particles_of_full hfull
  rw [ParticlesBox.card_entries, ParticlesBox.particles_append, Multiset.card_add, hcard] at hnum hlt
  rcases tail with _ | ⟨p, _ | ⟨q, tail⟩⟩
  · rw [List.append_nil] at hlist ⊢
    rw [ParticlesBox.particles_nil, Multiset.card_zero, add_zero] at hnum hlt
    exact FillGaps.wellFormed_of_full (by omega) hlist hfull hnum hlt
  · have hle : m ≤ frameSize := hm.le
    have hpacked : Packed box p m := ⟨hle, fun slot hslot => by
      have hplace := h.places 0 p rfl ⟨slot, hslot⟩
      rw [Nat.zero_mul, Nat.zero_add] at hplace
      rw [isLive, dif_pos hslot, decide_eq_true_iff]
      exact hplace⟩
    rw [ParticlesBox.particles_cons, ParticlesBox.particles_nil, add_zero, card_slotParticles,
      ← numLive_eq_card,
      hpacked.numLive_eq] at hnum hlt
    rw [List.length_singleton] at htail
    exact FillGaps.wellFormed_of_packed (by omega) hlist hfull hpacked hnum hlt
  · rw [List.length_cons, List.length_cons, Nat.succ_mul, Nat.succ_mul] at htail
    omega

end WellFormed

/-! ## Supercells that are left alone -/

section Within

variable {N : Set (DataSpace DIM)} {L L' : DataSpace DIM → List FramePtr}
  {box box' : ParticlesBox DIM frameSize A} {d : DataSpace DIM}

theorem Within.entries (h : Within N L box L' box') (hd : d ∉ N) :
    box'.entries (L' d) = box.entries (L d) := by
  obtain ⟨hlist, -, hframes⟩ := h.others d hd
  rw [hlist]
  exact ParticlesBox.entries_congr fun p hp => congrArg Frame.slots (hframes p hp)

theorem Within.wellFormed (h : Within N L box L' box') (hd : d ∉ N)
    (hwell : WellFormed box d (L d)) : WellFormed box' d (L' d) := by
  obtain ⟨hlist, hcell, hframes⟩ := h.others d hd
  rw [hlist]
  exact hwell.congr hcell hframes

end Within

end PmaccParticles
end Spearhed
