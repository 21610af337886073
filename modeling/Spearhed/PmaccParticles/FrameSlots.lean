import Mathlib.Data.Finset.Card
import Spearhed.PmaccParticles.ParticlesBox

/-!
# Moving particles between the slots of frames

The slots of a frame are handled by the threads of a block.  A thread that needs a number of its own
increments a counter, so a set of slots is numbered in whatever order its threads come: `Numbers` says
that the numbers are those below the size of the set, each of them given once.

* `fillSlots`, `clearSlots`: particles of one frame are copied to the gaps of another.
* `compactSlots`: particles of a frame are copied to the gaps in front of them.

Both lose and duplicate nothing: `particles_fillSlots` and `particles_compactSlots`.
-/

namespace Spearhed
namespace PmaccParticles

/-- Stands for no slot. -/
def INV_LOC_IDX : ℕ := 0xFFFF

variable {frameSize : ℕ} {A : Type}

/-- The threads of these slots have incremented one counter, each of them once. -/
def Numbers (number : Fin frameSize → ℕ) (S : Finset (Fin frameSize)) : Prop :=
  Set.BijOn number S (Set.Iio S.card)

/-- The slots by their number. -/
def NumberedBy (slot : ℕ → Fin frameSize) (S : Finset (Fin frameSize)) : Prop :=
  Set.BijOn slot (Set.Iio S.card) S

/-- The slots of a frame without a particle. -/
def gaps (slots : Fin frameSize → Slot A) : Finset (Fin frameSize) :=
  Finset.univ.filter fun i => (slots i).multiMask = 0

/-- The slots with a particle. -/
def live (slots : Fin frameSize → Slot A) : Finset (Fin frameSize) :=
  Finset.univ.filter fun i => (slots i).multiMask ≠ 0

/-- The slots with a particle that is not about to leave. -/
def settled (slots : Fin frameSize → Slot A) : Finset (Fin frameSize) :=
  Finset.univ.filter fun i => (slots i).multiMask = 1

/-- No particle is about to leave. -/
def Unmarked (slots : Fin frameSize → Slot A) : Prop := ∀ i, (slots i).multiMask = 0 ∨ (slots i).multiMask = 1

/-- Every slot holds a particle. -/
def Full (slots : Fin frameSize → Slot A) : Prop := ∀ i, (slots i).multiMask ≠ 0

/-! ## Numbers -/

section Numbers

variable {S T : Finset (Fin frameSize)} {number : Fin frameSize → ℕ} {slot : ℕ → Fin frameSize}

theorem exists_numbers (S : Finset (Fin frameSize)) (d : ℕ) :
    ∃ number : Fin frameSize → ℕ, Numbers number S ∧ ∀ i ∉ S, number i = d := by
  let e := S.equivFin
  refine ⟨fun i => if h : i ∈ S then (e ⟨i, h⟩ : ℕ) else d, ⟨fun i hi => ?_, fun i hi j hj hij => ?_, fun k hk => ?_⟩,
    fun i hi => dif_neg hi⟩
  · dsimp only
    rw [dif_pos (Finset.mem_coe.mp hi)]
    exact (e ⟨i, hi⟩).isLt
  · dsimp only at hij
    rw [dif_pos (Finset.mem_coe.mp hi), dif_pos (Finset.mem_coe.mp hj)] at hij
    exact congrArg Subtype.val (e.injective (Fin.ext hij))
  · refine ⟨e.symm ⟨k, hk⟩, (e.symm ⟨k, hk⟩).2, ?_⟩
    dsimp only
    rw [dif_pos (e.symm ⟨k, hk⟩).2]
    simp

theorem exists_numberedBy (S : Finset (Fin frameSize)) [Nonempty (Fin frameSize)] : ∃ slot : ℕ → Fin frameSize, NumberedBy slot S := by
  obtain ⟨number, hnumber, -⟩ := exists_numbers S 0
  have hinv : Set.InvOn number (Function.invFunOn number S) (Set.Iio S.card) S :=
    ⟨hnumber.surjOn.rightInvOn_invFunOn, hnumber.injOn.leftInvOn_invFunOn⟩
  exact ⟨Function.invFunOn number S, hinv.bijOn (Set.SurjOn.mapsTo_invFunOn hnumber.surjOn) hnumber.mapsTo⟩

/-- Numbering one set and following the numbers into a set that is not smaller. -/
theorem injOn_slot_number (hnumber : Numbers number S) (hslot : NumberedBy slot T) {k : ℕ} (hkT : k ≤ T.card) :
    Set.InjOn (fun i => slot (number i)) {i | i ∈ S ∧ number i < k} := fun _ hi _ hj hij =>
  hnumber.injOn hi.1 hj.1 (hslot.injOn (lt_of_lt_of_le hi.2 hkT) (lt_of_lt_of_le hj.2 hkT) hij)

end Numbers

/-! ## Filling the gaps of a frame from another one -/

section Fill

/-- The frame with gaps.  A gap whose number is that of a particle takes it. -/
def fillSlots (dest src : Fin frameSize → Slot A) (localGapIdx : Fin frameSize → ℕ) (particleIndices : ℕ → Fin frameSize)
    (numParticles : ℕ) : Fin frameSize → Slot A := fun idx =>
  if localGapIdx idx < numParticles then
    let parIdx := particleIndices (localGapIdx idx)
    ⟨1, (src parIdx).attributes⟩
  else
    dest idx

/-- The frame with particles, after those that were copied are deleted. -/
def clearSlots (src : Fin frameSize → Slot A) (localGapIdx : Fin frameSize → ℕ) (particleIndices : ℕ → Fin frameSize)
    (numParticles : ℕ) : Fin frameSize → Slot A := fun parIdx =>
  if ∃ idx, localGapIdx idx < numParticles ∧ particleIndices (localGapIdx idx) = parIdx then
    { src parIdx with multiMask := 0 }
  else
    src parIdx

/-- What the threads agreed on before they copy. -/
structure FillNumbers (dest src : Fin frameSize → Slot A) (localGapIdx : Fin frameSize → ℕ)
    (particleIndices : ℕ → Fin frameSize) : Prop where
  gaps : Numbers localGapIdx (gaps dest)
  others : ∀ i ∉ PmaccParticles.gaps dest, localGapIdx i = INV_LOC_IDX
  particles : NumberedBy particleIndices (settled src)

theorem mem_gaps {slots : Fin frameSize → Slot A} {i : Fin frameSize} : i ∈ gaps slots ↔ (slots i).multiMask = 0 := by
  simp [gaps]

theorem mem_settled {slots : Fin frameSize → Slot A} {i : Fin frameSize} :
    i ∈ settled slots ↔ (slots i).multiMask = 1 := by
  simp [settled]

theorem card_le_frameSize (S : Finset (Fin frameSize)) : S.card ≤ frameSize := by
  simpa using S.card_le_univ

theorem Unmarked.settled {slots : Fin frameSize → Slot A} (h : Unmarked slots) {i : Fin frameSize}
    (hi : (slots i).multiMask ≠ 0) : i ∈ settled slots :=
  mem_settled.mpr ((h i).resolve_left hi)

theorem full_of_gaps_eq_empty {slots : Fin frameSize → Slot A} (h : gaps slots = ∅) : Full slots := fun i hi =>
  Finset.notMem_empty i (h ▸ mem_gaps.mpr hi)

/-- Every slot of a full frame has its particle. -/
theorem Full.card_slotParticles {slots : Fin frameSize → Slot A} (h : Full slots) : (slotParticles slots).card = frameSize := by
  rw [slotParticles, Multiset.card_sum, Finset.sum_congr rfl fun i _ => congrArg Multiset.card (if_neg (h i))]
  simp

/-- The number of particles is the number of slots that hold one. -/
theorem card_slotParticles (slots : Fin frameSize → Slot A) :
    (slotParticles slots).card = (live slots).card := by
  rw [slotParticles, Multiset.card_sum, live, Finset.card_filter]
  refine Finset.sum_congr rfl fun i _ => ?_
  by_cases hi : (slots i).multiMask = 0 <;> simp [hi]

variable {dest src : Fin frameSize → Slot A} {localGapIdx : Fin frameSize → ℕ} {particleIndices : ℕ → Fin frameSize}
  (hF : frameSize ≤ INV_LOC_IDX) (h : FillNumbers dest src localGapIdx particleIndices)
include hF h

/-- Only gaps take a particle: the number of the other slots is larger than any frame. -/
theorem FillNumbers.mem_gaps {i : Fin frameSize} (hi : localGapIdx i < (settled src).card) : i ∈ PmaccParticles.gaps dest := by
  by_contra hgap
  rw [h.others i hgap] at hi
  exact absurd (hi.trans_le ((card_le_frameSize _).trans hF)) (lt_irrefl _)

/-- **Nothing is lost or duplicated between the two frames.** -/
theorem particles_fillSlots :
    slotParticles (fillSlots dest src localGapIdx particleIndices (settled src).card) +
        slotParticles (clearSlots src localGapIdx particleIndices (settled src).card) =
      slotParticles dest + slotParticles src := by
  -- the gaps that are filled, and the places their particles come from
  let M : Finset (Fin frameSize) := Finset.univ.filter fun i => localGapIdx i < (settled src).card
  let from' : Fin frameSize → Fin frameSize := fun i => particleIndices (localGapIdx i)
  have hM : ∀ i, i ∈ M ↔ localGapIdx i < (settled src).card := fun i => by simp [M]
  have hfrom : ∀ i ∈ M, (src (from' i)).multiMask = 1 := fun i hi => by
    have hmem : from' i ∈ settled src := h.particles.mapsTo ((hM i).mp hi)
    exact mem_settled.mp hmem
  have hinj : Set.InjOn from' M := by
    refine (injOn_slot_number h.gaps h.particles le_rfl).mono fun i hi => ?_
    exact ⟨h.mem_gaps hF ((hM i).mp hi), (hM i).mp hi⟩
  have hcleared : ∀ j, (∃ idx, localGapIdx idx < (settled src).card ∧ particleIndices (localGapIdx idx) = j) ↔ j ∈ M.image from' := by
    intro j
    rw [Finset.mem_image]
    exact exists_congr fun i => by rw [hM]
  have hdest : slotParticles (fillSlots dest src localGapIdx particleIndices (settled src).card) =
      (∑ i ∈ M, {(src (from' i)).attributes}) + slotParticles dest := by
    rw [slotParticles, slotParticles, ← Finset.sum_filter_add_sum_filter_not Finset.univ (· ∈ M),
      ← Finset.sum_filter_add_sum_filter_not Finset.univ (· ∈ M) (fun i => if (dest i).multiMask = 0 then _ else _)]
    have hzero : (∑ i with i ∈ M, if (dest i).multiMask = 0 then (0 : Multiset A) else {(dest i).attributes}) = 0 :=
      Finset.sum_eq_zero fun i hi => if_pos (PmaccParticles.mem_gaps.mp (h.mem_gaps hF ((hM i).mp (by simpa using hi))))
    rw [hzero, zero_add, Finset.filter_mem_eq_inter, Finset.univ_inter]
    refine congrArg₂ (· + ·) (Finset.sum_congr rfl fun i hi => ?_) (Finset.sum_congr rfl fun i hi => ?_)
    · rw [fillSlots, if_pos ((hM i).mp hi)]
      rfl
    · rw [fillSlots, if_neg fun hlt => (Finset.mem_filter.mp hi).2 ((hM i).mpr hlt)]
  have hsrc : slotParticles src = (∑ i ∈ M, {(src (from' i)).attributes}) +
      slotParticles (clearSlots src localGapIdx particleIndices (settled src).card) := by
    rw [slotParticles, slotParticles, ← Finset.sum_filter_add_sum_filter_not Finset.univ (· ∈ M.image from'),
      ← Finset.sum_filter_add_sum_filter_not Finset.univ (· ∈ M.image from')
        (fun j => if (clearSlots src localGapIdx particleIndices (settled src).card j).multiMask = 0 then _ else _)]
    have hzero : (∑ j with j ∈ M.image from',
        if (clearSlots src localGapIdx particleIndices (settled src).card j).multiMask = 0 then (0 : Multiset A)
        else {(clearSlots src localGapIdx particleIndices (settled src).card j).attributes}) = 0 := by
      refine Finset.sum_eq_zero fun j hj => if_pos ?_
      rw [clearSlots, if_pos ((hcleared j).mpr (Finset.mem_filter.mp hj).2)]
    rw [hzero, zero_add, Finset.filter_mem_eq_inter, Finset.univ_inter, Finset.sum_image hinj]
    refine congrArg₂ (· + ·) (Finset.sum_congr rfl fun i hi => ?_) (Finset.sum_congr rfl fun j hj => ?_)
    · rw [if_neg (by rw [hfrom i hi]; decide)]
    · rw [clearSlots, if_neg fun hex => (Finset.mem_filter.mp hj).2 ((hcleared j).mp hex)]
  rw [hdest, hsrc]
  abel

omit hF in
/-- With no more gaps than particles, the frame is full. -/
theorem full_fillSlots (hle : (gaps dest).card ≤ (settled src).card) :
    Full (fillSlots dest src localGapIdx particleIndices (settled src).card) := by
  intro i
  rw [fillSlots]
  split
  · exact one_ne_zero
  · next hnot =>
    intro hi
    exact hnot ((h.gaps.mapsTo (PmaccParticles.mem_gaps.mpr hi)).trans_le hle)

omit hF in
/-- With no more particles than gaps, the other frame is empty. -/
theorem slotParticles_clearSlots (hle : (settled src).card ≤ (gaps dest).card) (hsrc : Unmarked src) :
    slotParticles (clearSlots src localGapIdx particleIndices (settled src).card) = 0 := by
  refine Finset.sum_eq_zero fun j _ => if_pos ?_
  rw [clearSlots]
  split
  · rfl
  · next hnot =>
    by_contra hj
    obtain ⟨k, hk, hkj⟩ := h.particles.surjOn (hsrc.settled hj)
    obtain ⟨i, -, rfl⟩ := h.gaps.surjOn (Set.mem_Iio.mpr ((Set.mem_Iio.mp hk).trans_le hle))
    exact hnot ⟨i, hk, hkj⟩

omit hF h in
theorem Unmarked.fillSlots (hdest : Unmarked dest) (n : ℕ) :
    Unmarked (fillSlots dest src localGapIdx particleIndices n) := fun i => by
  rw [PmaccParticles.fillSlots]
  split
  · exact Or.inr rfl
  · exact hdest i

omit hF h in
theorem Unmarked.clearSlots (hsrc : Unmarked src) (n : ℕ) :
    Unmarked (clearSlots src localGapIdx particleIndices n) := fun i => by
  rw [PmaccParticles.clearSlots]
  split
  · exact Or.inl rfl
  · exact hsrc i

end Fill

/-! ## Moving the particles of a frame to its beginning -/

section Compact

/-- The gaps in front of which the particles belong. -/
def frontGaps (slots : Fin frameSize → Slot A) (numParticles : ℕ) : Finset (Fin frameSize) :=
  Finset.univ.filter fun i => i.val < numParticles ∧ (slots i).multiMask = 0

/-- The particles that stand too far behind. -/
def backParticles (slots : Fin frameSize → Slot A) (numParticles : ℕ) : Finset (Fin frameSize) :=
  Finset.univ.filter fun i => numParticles ≤ i.val ∧ (slots i).multiMask ≠ 0

/-- A gap in front takes the particle that searched for a gap with the same number. -/
def compactSlots (slots : Fin frameSize → Slot A) (localGapIdx : Fin frameSize → ℕ) (srcOf : ℕ → Fin frameSize)
    (numParticles : ℕ) : Fin frameSize → Slot A := fun idx =>
  if (slots idx).multiMask = 0 then
    if idx.val < numParticles then ⟨1, (slots (srcOf (localGapIdx idx))).attributes⟩ else slots idx
  else
    if idx.val < numParticles then slots idx else { slots idx with multiMask := 0 }

variable {slots : Fin frameSize → Slot A} {localGapIdx : Fin frameSize → ℕ} {srcOf : ℕ → Fin frameSize}

/-- In front there are as many gaps as there are particles behind. -/
theorem card_frontGaps (slots : Fin frameSize → Slot A) :
    (frontGaps slots (live slots).card).card = (backParticles slots (live slots).card).card := by
  have hfront : (Finset.univ.filter fun i : Fin frameSize => i.val < (live slots).card).card = (live slots).card := by
    rw [Fin.card_filter_val_lt]
    exact min_eq_right (card_le_frameSize _)
  have hsplit : ∀ P : Fin frameSize → Prop, ∀ _ : DecidablePred P, ∀ S : Finset (Fin frameSize),
      (S.filter P).card + (S.filter fun i => ¬ P i).card = S.card := fun P _ S => Finset.card_filter_add_card_filter_not P
  have h1 := hsplit (fun i => (slots i).multiMask = 0) inferInstance
    (Finset.univ.filter fun i : Fin frameSize => i.val < (live slots).card)
  have h2 := hsplit (fun i => i.val < (live slots).card) inferInstance (live slots)
  rw [Finset.filter_filter, Finset.filter_filter] at h1
  rw [live, Finset.filter_filter, Finset.filter_filter, ← live] at h2
  have hcommon : (Finset.univ.filter fun i : Fin frameSize => i.val < (live slots).card ∧ ¬ (slots i).multiMask = 0) =
      Finset.univ.filter fun i : Fin frameSize => (slots i).multiMask ≠ 0 ∧ i.val < (live slots).card :=
    Finset.filter_congr fun i _ => and_comm
  have hback : (Finset.univ.filter fun i : Fin frameSize => (slots i).multiMask ≠ 0 ∧ ¬ i.val < (live slots).card) =
      backParticles slots (live slots).card :=
    Finset.filter_congr fun i _ => by rw [not_lt, and_comm]
  rw [hcommon] at h1
  rw [hback] at h2
  have hgaps : (frontGaps slots (live slots).card).card +
      (Finset.univ.filter fun i : Fin frameSize => (slots i).multiMask ≠ 0 ∧ i.val < (live slots).card).card =
      (live slots).card := h1.trans hfront
  omega

/-- **The particles of the frame are the same.** -/
theorem particles_compactSlots (hgap : Numbers localGapIdx (frontGaps slots (live slots).card))
    (hsrc : NumberedBy srcOf (backParticles slots (live slots).card)) :
    slotParticles (compactSlots slots localGapIdx srcOf (live slots).card) = slotParticles slots := by
  set n := (live slots).card with hn
  have hmoved : (∑ i ∈ frontGaps slots n, {(slots (srcOf (localGapIdx i))).attributes}) =
      ∑ j ∈ backParticles slots n, ({(slots j).attributes} : Multiset A) := by
    have hbij : Set.BijOn (fun i => srcOf (localGapIdx i)) (frontGaps slots n) (backParticles slots n) := by
      refine Set.BijOn.comp hsrc ?_
      rw [← card_frontGaps slots]
      exact hgap
    exact Finset.sum_nbij _ (fun i hi => hbij.mapsTo hi) hbij.injOn hbij.surjOn fun _ _ => rfl
  have hslot : ∀ i, (if (compactSlots slots localGapIdx srcOf n i).multiMask = 0 then (0 : Multiset A)
      else {(compactSlots slots localGapIdx srcOf n i).attributes}) =
      (if i ∈ frontGaps slots n then {(slots (srcOf (localGapIdx i))).attributes} else 0) +
        if i.val < n ∧ (slots i).multiMask ≠ 0 then {(slots i).attributes} else 0 := by
    intro i
    simp only [compactSlots, frontGaps, Finset.mem_filter, Finset.mem_univ, true_and]
    by_cases hmask : (slots i).multiMask = 0 <;> by_cases hi : i.val < n <;> simp [hmask, hi]
  have hold : ∀ i, (if (slots i).multiMask = 0 then (0 : Multiset A) else {(slots i).attributes}) =
      (if i ∈ backParticles slots n then {(slots i).attributes} else 0) +
        if i.val < n ∧ (slots i).multiMask ≠ 0 then {(slots i).attributes} else 0 := by
    intro i
    simp only [backParticles, Finset.mem_filter, Finset.mem_univ, true_and]
    by_cases hmask : (slots i).multiMask = 0
    · simp [hmask]
    · by_cases hi : i.val < n
      · simp [hmask, hi]
      · simp [hmask, hi, not_lt.mp hi]
  rw [slotParticles, slotParticles, Finset.sum_congr rfl fun i _ => hslot i, Finset.sum_congr rfl fun i _ => hold i,
    Finset.sum_add_distrib, Finset.sum_add_distrib, Finset.sum_ite_mem, Finset.sum_ite_mem, Finset.univ_inter,
    Finset.univ_inter, hmoved]

/-- **They stand at its beginning.** -/
theorem compactSlots_multiMask (n : ℕ) (i : Fin frameSize) :
    (compactSlots slots localGapIdx srcOf n i).multiMask ≠ 0 ↔ i.val < n := by
  rw [compactSlots]
  by_cases hmask : (slots i).multiMask = 0 <;> by_cases hi : i.val < n <;> simp [hmask, hi]

theorem Unmarked.compactSlots (h : Unmarked slots) (n : ℕ) : Unmarked (compactSlots slots localGapIdx srcOf n) := fun i => by
  rw [PmaccParticles.compactSlots]
  split
  · split
    · exact Or.inr rfl
    · exact h i
  · split
    · exact h i
    · exact Or.inl rfl

end Compact

end PmaccParticles
end Spearhed
