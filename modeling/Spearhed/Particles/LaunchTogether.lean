import Spearhed.Particles.PassSums

/-!
# Launches in flight together

`whenAll` over several `launchForEach` senders: the blocks of all launches run interleaved.  Where no
two launches have a frame in common, each live particle ends as the body of its own launch leaves it,
and nothing else changes (`launchesResult_of_runs`).
-/

namespace Spearhed
namespace Particles

open Library

variable {K : Type} {d : ℕ} {A : Type} {V : A → Type} {frameSize : ℕ}

/-! ## Records -/

/-- The record in a slot. -/
def ParticleMemory.particle (m : ParticleMemory K d A V frameSize) (frame : FramePtr)
    (slot : Fin frameSize) : Particle K d (∀ a, V a) where
  relativePos := m.relativePos frame slot
  multiMask := m ⟨frame, slot, .multiMask⟩
  attributes := fun a => m ⟨frame, slot, .attribute a⟩

/-- A leaf of a record. -/
def Particle.leaf (p : Particle K d (∀ a, V a)) : (l : Leaf d A) → l.Value K V
  | .relativePos t => p.relativePos t
  | .multiMask => p.multiMask
  | .attribute a => p.attributes a

theorem ParticleMemory.particle_leaf (m : ParticleMemory K d A V frameSize) (frame : FramePtr)
    (slot : Fin frameSize) (l : Leaf d A) : (m.particle frame slot).leaf l = m ⟨frame, slot, l⟩ := by
  cases l <;> rfl

/-- Records with the same leaves. -/
theorem Particle.ext_leaf {p q : Particle K d (∀ a, V a)} (h : ∀ l, p.leaf l = q.leaf l) : p = q := by
  obtain ⟨relativePos, multiMask, attributes⟩ := p
  obtain rfl : relativePos = q.relativePos := funext fun t => h (.relativePos t)
  obtain rfl : multiMask = q.multiMask := h .multiMask
  obtain rfl : attributes = q.attributes := funext fun a => h (.attribute a)
  rfl

theorem ParticleMemory.occupied_eq (m : ParticleMemory K d A V frameSize) (frame : FramePtr)
    (slot : Fin frameSize) : m.occupied frame slot = (m.particle frame slot).occupied := rfl

/-- A slot of which every leaf is known. -/
theorem ParticleMemory.particle_eq {m : ParticleMemory K d A V frameSize} {frame : FramePtr}
    {slot : Fin frameSize} {p : Particle K d (∀ a, V a)} (h : ∀ l, m ⟨frame, slot, l⟩ = p.leaf l) :
    m.particle frame slot = p :=
  Particle.ext_leaf fun l => (m.particle_leaf frame slot l).trans (h l)

/-! ## Launches -/

section Launches

variable {ι : Type}

/-- The blocks of some launches, each with its own body. -/
def launchTogether [DecidableEq A] (launch : ι → FrameLaunch K d)
    (body : ι → ParticleBody K d A V frameSize) (x : (i : ι) × Fin (launch i).totalFrames.toNat) :
    KernelThread K d A V frameSize Unit :=
  hierarchyForEachKernel (launch x.1) (body x.1) x.2

/-- No two launches have a frame in common. -/
def FrameLaunch.Apart (launch : ι → FrameLaunch K d) : Prop :=
  ∀ i j, i ≠ j → ∀ b < (launch i).totalFrames.toNat, ∀ b' < (launch j).totalFrames.toNat,
    (launch i).framePtrs b ≠ (launch j).framePtrs b'

variable [DecidableEq A] {launch : ι → FrameLaunch K d}
  {body : ι → ParticleBody K d A V frameSize} {m m' : ParticleMemory K d A V frameSize}

theorem independent_launchTogether (hapart : FrameLaunch.Apart launch) :
    Program.Independent (launchTogether launch body)
      (fun x => {a | a.frame = (launch x.1).framePtrs x.2})
      (fun x => {a | a.frame = (launch x.1).framePtrs x.2 ∧ a.leaf ∈ (body x.1).writes}) := by
  refine ⟨fun x => (body x.1).hierarchyForEachKernel_within x.2, fun x y hne a ha => ?_⟩
  have hframes : a.frame ≠ (launch y.1).framePtrs y.2 := by
    obtain ⟨i, b⟩ := x
    obtain ⟨j, b'⟩ := y
    intro heq
    by_cases hij : i = j
    · subst hij
      refine hne (congrArg (Sigma.mk i) (Fin.ext ?_))
      exact (launch i).injective b b.isLt b' b'.isLt (ha.1.symm.trans heq)
    · exact hapart i j hij b b.isLt b' b'.isLt (ha.1.symm.trans heq)
  rintro (h | h)
  · exact hframes h
  · exact hframes h.1

/-- **What launches leave behind**: each live particle as the body of its launch leaves it. -/
structure LaunchesResult (launch : ι → FrameLaunch K d) (body : ι → ParticleBody K d A V frameSize)
    (m m' : ParticleMemory K d A V frameSize) : Prop where
  launched : ∀ i b, b < (toInt (launch i).totalFrames).toNat → ∀ slot,
    m.occupied ((launch i).framePtrs b) slot = true →
      m'.particle ((launch i).framePtrs b) slot = ParticleMemory.particle
        (((body i).run ((launch i).framePtrs b) slot).exec m).2 ((launch i).framePtrs b) slot
  kept : ∀ frame slot, (∀ i b, b < (toInt (launch i).totalFrames).toNat →
    frame = (launch i).framePtrs b → m.occupied frame slot = false) →
      m'.particle frame slot = m.particle frame slot

/-- **Every interleaving of the launches has this result.** -/
theorem launchesResult_of_runs [DecidableEq ι] (hapart : FrameLaunch.Apart launch)
    {results : (i : ι) × Fin (launch i).totalFrames.toNat → Unit}
    (h : Program.Runs (launchTogether launch body) m results m') :
    LaunchesResult launch body m m' := by
  obtain ⟨-, hwritten, huntouched⟩ := (independent_launchTogether hapart).runs h
  refine ⟨fun i b hb slot hocc => ParticleMemory.particle_eq fun l => ?_,
    fun frame slot hdead => ParticleMemory.particle_eq fun l => ?_⟩
  · rw [ParticleMemory.particle_leaf]
    by_cases hl : l ∈ (body i).writes
    · refine (hwritten ⟨i, b, hb.trans_le (toInt_toNat_le _)⟩ _ ⟨rfl, hl⟩).trans ?_
      show ((hierarchyForEachKernel (launch i) (body i) b).exec m).2 _ = _
      rw [(body i).exec_hierarchyForEachKernel hb m hl, (body i).exec_turn, if_pos hocc]
    · -- the body does not write this leaf, and no other launch has the frame
      have hnot : ∀ x : (i : ι) × Fin (launch i).totalFrames.toNat,
          (⟨(launch i).framePtrs b, slot, l⟩ : FieldAddr d A frameSize) ∉
            {a : FieldAddr d A frameSize | a.frame = (launch x.1).framePtrs x.2 ∧
              a.leaf ∈ (body x.1).writes} := by
        rintro ⟨j, b'⟩ ⟨hframe, hwrites⟩
        by_cases hij : i = j
        · exact hl (hij ▸ hwrites)
        · exact hapart i j hij b (hb.trans_le (toInt_toNat_le _)) b' b'.isLt hframe
      rw [huntouched _ hnot]
      exact (((body i).within ((launch i).framePtrs b) slot).exec_of_notMem m
        fun hmem => hl hmem.2.2).symm
  · rw [ParticleMemory.particle_leaf]
    by_cases hmem : ∃ x : (i : ι) × Fin (launch i).totalFrames.toNat,
        frame = (launch x.1).framePtrs x.2 ∧ l ∈ (body x.1).writes
    · obtain ⟨⟨i, b⟩, rfl, hl⟩ := hmem
      refine (hwritten ⟨i, b⟩ _ ⟨rfl, hl⟩).trans ?_
      show ((hierarchyForEachKernel (launch i) (body i) b).exec m).2 _ = _
      by_cases hb : (b : ℕ) < (toInt (launch i).totalFrames).toNat
      · rw [(body i).exec_hierarchyForEachKernel hb m hl, (body i).exec_turn, if_neg]
        rw [hdead i b hb rfl]
        exact Bool.false_ne_true
      · rw [hierarchyForEachKernel, gridStride_eq (toInt_toNat_le _), if_neg hb]
        rfl
    · exact huntouched _ fun x hx => hmem ⟨x, hx⟩

/-- There is a run. -/
theorem exists_launchTogether [DecidableEq ι] [Fintype ι] (hapart : FrameLaunch.Apart launch)
    (body : ι → ParticleBody K d A V frameSize) (m : ParticleMemory K d A V frameSize) :
    ∃ results m', Program.Runs (launchTogether launch body) m results m' :=
  (independent_launchTogether hapart).exists_runs m

end Launches

/-! ## Frames that an index lists -/

/-- An index lists frames of the regions only. -/
def FrameLaunch.OnlyLists (launch : FrameLaunch K d) (regions : List (ParticleRegion K d)) : Prop :=
  ∀ b < (toInt launch.totalFrames).toNat, ∃ x ∈ allFrames regions, launch.framePtrs b = x.2

/-- **A fresh index lists no other frames.** -/
theorem FrameLaunch.onlyLists_of_describes {launch : FrameLaunch K d}
    {regions : List (ParticleRegion K d)} {idx : FrameIndexBuffer} {framesScan : ℕ → UInt32}
    (hindex : Describes idx regions launch.framePtrs launch.regionIdx framesScan)
    (htotal : launch.totalFrames = idx.totalFrames) (hfit : (frameCounts regions).sum < 2 ^ 31) :
    launch.OnlyLists regions := by
  intro b hb
  rw [htotal, hindex.totalFrames, toInt_ofNat hfit, Int.toNat_natCast] at hb
  obtain ⟨r, i, region, frame, hr, hi, rfl⟩ := exists_frame_of_slot hb
  exact ⟨(region, frame), mem_allFrames.mpr ⟨List.mem_of_getElem? hr, List.mem_of_getElem? hi⟩,
    (hindex.listed r i region frame hr hi).1⟩

end Particles
end Spearhed
