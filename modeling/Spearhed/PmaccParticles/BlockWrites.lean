import Spearhed.PmaccParticles.ParticlesBox

/-!
# Blocks that work on a supercell each

Most kernels have a block for every supercell of an area, which only touches the frames of its own
supercell and takes frames off its list.

* `Local`: what one step of a block may write.
* `Framed`: what the blocks together leave alone, and that the frames they take off go back to the heap.
* `Within`: the same for blocks that also take frames from the heap, for supercells around their own.
-/

namespace Spearhed
namespace PmaccParticles

open Library Mappings

variable {DIM frameSize : ℕ} {A : Type}

/-- What a step of the block of one supercell may write, where the list `l` becomes `l'`. -/
structure Local (c : DataSpace DIM) (l l' : List FramePtr)
    (box box' : ParticlesBox DIM frameSize A) : Prop where
  frames : ∀ q ∉ l, box'.frames q = box.frames q
  superCells : ∀ c', c' ≠ c → box'.superCells c' = box.superCells c'
  mustShift : (box'.superCells c).mustShift = (box.superCells c).mustShift
  /-- The frames that leave the list are given back to the heap, and no others. -/
  allocated : ∀ q, q ∈ box'.allocated ↔ q ∈ box.allocated ∧ (q ∈ l → q ∈ l')

section Local

variable {box box' box'' : ParticlesBox DIM frameSize A} {q : FramePtr}
  {L : DataSpace DIM → List FramePtr} {c : DataSpace DIM}
  {l l' : List FramePtr}

namespace Local

theorem refl : Local c l l box box :=
  ⟨fun _ _ => rfl, fun _ _ => rfl, rfl, fun _ => (and_iff_left id).symm⟩

theorem trans {l₁ : List FramePtr} (h : Local c l l₁ box box') (h' : Local c l₁ l' box' box'')
    (hsub : l₁ ⊆ l)
    (hsub' : l' ⊆ l₁) : Local c l l' box box'' := by
  refine ⟨fun q hq => ?_, fun c' hc' => (h'.superCells c' hc').trans (h.superCells c' hc'),
    h'.mustShift.trans h.mustShift,
    fun q => ?_⟩
  · rw [h'.frames q fun hmem => hq (hsub hmem), h.frames q hq]
  · rw [h'.allocated, h.allocated, and_assoc]
    refine and_congr_right fun _ =>
      ⟨fun hq hmem => hq.2 (hq.1 hmem), fun hq => ⟨fun hmem => hsub' (hq hmem), fun hmem => ?_⟩⟩
    exact hq (hsub hmem)

theorem setSlots (hq : q ∈ l) (slots : Fin frameSize → Slot A) :
    Local c l l box (box.setSlots q slots) :=
  ⟨fun _ hp => ParticlesBox.setFrame_frames_of_ne _ fun heq => hp (heq ▸ hq), fun _ _ => rfl, rfl,
    fun _ => (and_iff_left id).symm⟩

theorem setNumParticles (size : ℕ) : Local c l l box (box.setNumParticles c size) :=
  ⟨fun _ _ => rfl, fun c' hc' => ParticlesBox.setSuperCell_superCells_of_ne _ hc', by
    rw [ParticlesBox.setNumParticles, ParticlesBox.setSuperCell_superCells_self],
      fun _ => (and_iff_left id).symm⟩

theorem removeLastFrame (h : box.Holds L) (hl : L c = l) :
    Local c l l.dropLast box (box.removeLastFrame c) := by
  subst hl
  exact ⟨fun q hq => h.removeLastFrame_frames hq,
    fun c' hc' => ParticlesBox.removeLastFrame_superCells_of_ne box hc',
    (ParticlesBox.removeLastFrame_counters box c c).2, fun q => h.mem_removeLastFrame_allocated c⟩

/-- The frames of the other supercells are left alone. -/
theorem frames_of_ne {d : DataSpace DIM} (h : Local c (L c) l' box box') (hholds : box.Holds L)
    (hne : d ≠ c) (hq : q ∈ L d) :
    box'.frames q = box.frames q :=
  h.frames q fun hq' => hholds.disjoint d c hne hq hq'

end Local

end Local

section Framed

variable {blocks : Finset (DataSpace DIM)} {L L₁ : DataSpace DIM → List FramePtr}
  {box box₁ box₂ : ParticlesBox DIM frameSize A}
  {c : DataSpace DIM} {l' : List FramePtr}

/-- What the blocks of these supercells leave alone. -/
structure Framed (blocks : Finset (DataSpace DIM)) (L : DataSpace DIM → List FramePtr)
    (box : ParticlesBox DIM frameSize A)
    (L' : DataSpace DIM → List FramePtr) (box' : ParticlesBox DIM frameSize A) : Prop where
  holds : box'.Holds L'
  sublist : ∀ c, L' c <+: L c
  mustShift : ∀ c, (box'.superCells c).mustShift = (box.superCells c).mustShift
  others : ∀ c ∉ blocks, L' c = L c ∧ box'.superCells c = box.superCells c ∧ ∀ p ∈ L c,
    box'.frames p = box.frames p
  /-- The frames that leave a list are given back, and no others. -/
  allocated : ∀ q, q ∈ box'.allocated ↔ q ∈ box.allocated ∧ ∀ c, q ∈ L c → q ∈ L' c

theorem Framed.refl (h : box.Holds L) : Framed blocks L box L box :=
  ⟨h, fun _ => List.prefix_refl _, fun _ => rfl, fun _ _ => ⟨rfl, rfl, fun _ _ => rfl⟩,
    fun _ => (and_iff_left fun _ => id).symm⟩

/-- One kernel after the other. -/
theorem Framed.trans {L₂ : DataSpace DIM → List FramePtr} (h : Framed blocks L box L₁ box₁)
    (h' : Framed blocks L₁ box₁ L₂ box₂) :
    Framed blocks L box L₂ box₂ := by
  refine ⟨h'.holds, fun c => (h'.sublist c).trans (h.sublist c),
    fun c => (h'.mustShift c).trans (h.mustShift c), fun c hc => ?_,
    fun q => ?_⟩
  · obtain ⟨hlist, hcell, hkept⟩ := h.others c hc
    obtain ⟨hlist', hcell', hkept'⟩ := h'.others c hc
    exact ⟨hlist'.trans hlist, hcell'.trans hcell,
      fun p hp => (hkept' p (hlist.symm ▸ hp)).trans (hkept p hp)⟩
  · rw [h'.allocated, h.allocated, and_assoc]
    refine and_congr_right fun _ =>
      ⟨fun hq c hc => hq.2 c (hq.1 c hc), fun hq => ⟨fun c hc => (h'.sublist c).subset (hq c hc), ?_⟩⟩
    exact fun c hc => hq c ((h.sublist c).subset hc)

/-- A step of one block. -/
theorem Framed.step (h : Framed blocks L box L₁ box₁) (hc : c ∈ blocks)
    (hholds : box₂.Holds (Function.update L₁ c l'))
    (hsub : l' <+: L₁ c) (hwrites : Local c (L₁ c) l' box₁ box₂) :
    Framed blocks L box (Function.update L₁ c l') box₂ := by
  refine ⟨hholds, fun d => ?_, fun d => ?_, fun d hd => ?_, fun q => ?_⟩
  · rcases eq_or_ne d c with rfl | hne
    · rw [Function.update_self]
      exact hsub.trans (h.sublist d)
    · rw [Function.update_of_ne hne]
      exact h.sublist d
  · rcases eq_or_ne d c with rfl | hne
    · rw [hwrites.mustShift, h.mustShift]
    · rw [hwrites.superCells d hne, h.mustShift]
  · have hne : d ≠ c := fun heq => hd (heq ▸ hc)
    obtain ⟨hlist, hcell, hkept⟩ := h.others d hd
    rw [Function.update_of_ne hne, hwrites.superCells d hne]
    exact ⟨hlist, hcell, fun p hp => (hwrites.frames_of_ne h.holds hne (hlist ▸ hp)).trans (hkept p hp)⟩
  · rw [hwrites.allocated, h.allocated, and_assoc]
    refine and_congr_right fun _ => ⟨fun hq d hd => ?_, fun hq => ⟨fun d hd => ?_, fun hc' => ?_⟩⟩
    · rcases eq_or_ne d c with rfl | hne
      · rw [Function.update_self]
        exact hq.2 (hq.1 d hd)
      · rw [Function.update_of_ne hne]
        exact hq.1 d hd
    · rcases eq_or_ne d c with rfl | hne
      · have hmem := hq d hd
        rw [Function.update_self] at hmem
        exact hsub.subset hmem
      · have hmem := hq d hd
        rwa [Function.update_of_ne hne] at hmem
    · have hmem := hq c ((h.sublist c).subset hc')
      rwa [Function.update_self] at hmem

end Framed

section Within

variable {N N' : Set (DataSpace DIM)} {L L₁ L₂ : DataSpace DIM → List FramePtr}
  {box box₁ box₂ : ParticlesBox DIM frameSize A}
  {c d : DataSpace DIM} {l' : List FramePtr} {p : FramePtr}

/-- What is left alone by steps that only work on these supercells. -/
structure Within (N : Set (DataSpace DIM)) (L : DataSpace DIM → List FramePtr)
    (box : ParticlesBox DIM frameSize A)
    (L' : DataSpace DIM → List FramePtr) (box' : ParticlesBox DIM frameSize A) : Prop where
  holds : box'.Holds L'
  others : ∀ d ∉ N, L' d = L d ∧ box'.superCells d = box.superCells d ∧ ∀ p ∈ L d,
    box'.frames p = box.frames p
  /-- The heap gets back what leaves the lists, and what it gives out comes to one of them. -/
  heap : ∀ q, (q ∈ box'.allocated ∧ ∀ d, q ∉ L' d) ↔ q ∈ box.allocated ∧ ∀ d, q ∉ L d

namespace Within

theorem refl (h : box.Holds L) : Within N L box L box :=
  ⟨h, fun _ _ => ⟨rfl, rfl, fun _ _ => rfl⟩, fun _ => Iff.rfl⟩

theorem trans (h : Within N L box L₁ box₁) (h' : Within N L₁ box₁ L₂ box₂) :
    Within N L box L₂ box₂ := by
  refine ⟨h'.holds, fun d hd => ?_, fun q => (h'.heap q).trans (h.heap q)⟩
  obtain ⟨hlist, hcell, hkept⟩ := h.others d hd
  obtain ⟨hlist', hcell', hkept'⟩ := h'.others d hd
  exact ⟨hlist'.trans hlist, hcell'.trans hcell,
    fun p hp => (hkept' p (hlist.symm ▸ hp)).trans (hkept p hp)⟩

theorem mono (h : Within N L box L₁ box₁) (hN : N ⊆ N') : Within N' L box L₁ box₁ :=
  ⟨h.holds, fun d hd => h.others d fun hmem => hd (hN hmem), h.heap⟩

/-- A step that leaves the lists as they are. -/
theorem ofSame (h : box₁.Holds L) (hallocated : box₁.allocated = box.allocated)
    (hcells : ∀ d ∉ N, box₁.superCells d = box.superCells d)
    (hframes : ∀ d ∉ N, ∀ p ∈ L d, box₁.frames p = box.frames p) :
    Within N L box L box₁ :=
  ⟨h, fun d hd => ⟨rfl, hcells d hd, hframes d hd⟩, fun q => by rw [hallocated]⟩

theorem setSlots (h : box.Holds L) (hp : p ∈ L c) (slots : Fin frameSize → Slot A) :
    Within {c} L box L (box.setSlots p slots) :=
  ofSame (h.setSlots slots) rfl (fun _ _ => rfl) fun _ hd _ hq =>
    ParticlesBox.setFrame_frames_of_ne _ fun heq => h.notMem_of_ne hp hd (heq ▸ hq)

theorem setNumParticles (h : box.Holds L) (size : ℕ) :
    Within {c} L box L (box.setNumParticles c size) :=
  ofSame (h.setNumParticles size) rfl
    (fun _ hd => ParticlesBox.setSuperCell_superCells_of_ne _ hd) fun _ _ _ _ => rfl

theorem setMustShift (h : box.Holds L) (value : Bool) : Within {c} L box L (box.setMustShift c value) :=
  ofSame (h.setMustShift value) rfl
    (fun _ hd => ParticlesBox.setSuperCell_superCells_of_ne _ hd) fun _ _ _ _ => rfl

/-- A step of a block that takes frames off its list. -/
theorem ofLocal (h : box.Holds L) (hholds : box₁.Holds (Function.update L c l')) (hsub : l' <+: L c)
    (hwrites : Local c (L c) l' box box₁) : Within {c} L box (Function.update L c l') box₁ := by
  refine ⟨hholds, fun d hd => ?_, fun q => ?_⟩
  · have hne : d ≠ c := hd
    rw [Function.update_of_ne hne]
    exact ⟨rfl, hwrites.superCells d hne, fun p hp => hwrites.frames_of_ne h hne hp⟩
  · rw [hwrites.allocated]
    constructor
    · rintro ⟨⟨hq, hmem⟩, hnot⟩
      refine ⟨hq, fun d hd => ?_⟩
      have hd' := hnot d
      rcases eq_or_ne d c with rfl | hne
      · rw [Function.update_self] at hd'
        exact hd' (hmem hd)
      · rw [Function.update_of_ne hne] at hd'
        exact hd' hd
    · rintro ⟨hq, hnot⟩
      refine ⟨⟨hq, fun hmem => absurd hmem (hnot c)⟩, fun d hd => ?_⟩
      rcases eq_or_ne d c with rfl | hne
      · rw [Function.update_self] at hd
        exact hnot d (hsub.subset hd)
      · rw [Function.update_of_ne hne] at hd
        exact hnot d hd

/-- A frame from the heap becomes the last one. -/
theorem append (h : box.Holds L) (hp : p ∉ box.allocated) (c : DataSpace DIM) :
    Within {c} L box (Function.update L c (L c ++ [p])) ((box.getEmptyFrame p).setAsLastFrame p c) := by
  have hnew : ∀ d, p ∉ L d := fun d hmem => hp (h.allocated d p hmem)
  have hallocated : ((box.getEmptyFrame p).setAsLastFrame p c).allocated = insert p box.allocated :=
    ParticlesBox.setAsLastFrame_allocated _ p c
  refine ⟨(h.getEmptyFrame (p := p)).setAsLastFrame hnew (Finset.mem_insert_self p _) c,
    fun d hd => ?_, fun q => ?_⟩
  · have hne : d ≠ c := hd
    rw [Function.update_of_ne hne, ParticlesBox.setAsLastFrame_superCells_of_ne _ p hne]
    refine ⟨rfl, rfl, fun q hq => ?_⟩
    have hqp : q ≠ p := fun heq => hnew d (heq ▸ hq)
    rw [ParticlesBox.setAsLastFrame_frames_of_ne _ hqp]
    · exact ParticlesBox.setFrame_frames_of_ne _ hqp
    · intro hlast
      exact h.notMem_of_ne (List.mem_of_getLast? ((h.lastFramePtr c).symm.trans hlast)) hne hq
  · rw [hallocated, Finset.mem_insert]
    constructor
    · rintro ⟨hq, hnot⟩
      have hc := hnot c
      rw [Function.update_self, List.mem_append, not_or, List.mem_singleton] at hc
      refine ⟨hq.resolve_left hc.2, fun d hd => ?_⟩
      have hd' := hnot d
      rcases eq_or_ne d c with rfl | hne
      · exact hc.1 hd
      · rw [Function.update_of_ne hne] at hd'
        exact hd' hd
    · rintro ⟨hq, hnot⟩
      refine ⟨Or.inr hq, fun d hd => ?_⟩
      rcases eq_or_ne d c with rfl | hne
      · rw [Function.update_self] at hd
        rcases List.mem_append.mp hd with hd | hd
        · exact hnot d hd
        · exact hp (List.mem_singleton.mp hd ▸ hq)
      · rw [Function.update_of_ne hne] at hd
        exact hnot d hd

end Within

end Within

end PmaccParticles
end Spearhed
