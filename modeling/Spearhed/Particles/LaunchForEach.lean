import Spearhed.Particles.InteractionKernelRuns

/-!
# One call for every live particle

`launchForEach` of `LaunchForEach.hpp` at the particle level, with the default decomposition: one
block for every frame and the grid-stride schedule.  A block calls the body for the live slots of
its frames.  A body reads its own particle and writes some leaves of it.
-/

namespace Spearhed
namespace Particles

open Library

variable {K : Type} {d : ℕ} {A : Type} {V : A → Type} {frameSize : ℕ}

/-- A body for `launchForEach`: what it does to a slot, and which leaves it writes. -/
structure ParticleBody (K : Type) (d : ℕ) (A : Type) (V : A → Type) (frameSize : ℕ) where
  writes : List (Leaf d A)
  run : FramePtr → Fin frameSize → KernelThread K d A V frameSize Unit
  within : ∀ frame slot, (run frame slot).Within {a | a.frame = frame ∧ a.slot = slot}
    {a | a.frame = frame ∧ a.slot = slot ∧ a.leaf ∈ writes}

/-- `GridStride`: the frames of block `b` in a grid of `gridSize` blocks. -/
def gridStride (total gridSize b : ℕ) : List ℕ :=
  (List.range total).filter fun f => f % gridSize = b

/-- `lockstepForEachParticle` for one slot. -/
def ParticleBody.turn (body : ParticleBody K d A V frameSize) (frame : FramePtr)
    (slot : Fin frameSize) : KernelThread K d A V frameSize Unit := do
  let valid ← loadOccupied frame slot
  if valid then body.run frame slot else pure ()

/-- `HierarchyForEachKernel` at the particle level. -/
def hierarchyForEachKernel (launch : FrameLaunch K d) (body : ParticleBody K d A V frameSize)
    (blockIdx : ℕ) : KernelThread K d A V frameSize Unit := do
  let _ ← Program.forEach (C := fun _ => Fin frameSize → Unit)
    (fun f => forEachSlot (body.turn (launch.framePtrs f)))
    (gridStride (toInt launch.totalFrames).toNat launch.totalFrames.toNat blockIdx)
  pure ()

/-- With as many blocks as frames, block `b` has frame `b`. -/
theorem gridStride_eq {total gridSize b : ℕ} (htotal : total ≤ gridSize) :
    gridStride total gridSize b = if b < total then [b] else [] := by
  have hfilter : gridStride total gridSize b = (List.range total).filter fun f => f = b :=
    List.filter_congr fun f hf => by
      rw [Nat.mod_eq_of_lt ((List.mem_range.mp hf).trans_le htotal)]
  rw [hfilter, List.filter_eq, List.nodup_range.count]
  simp only [List.mem_range]
  split <;> rfl

theorem toInt_toNat_le (x : UInt32) : (toInt x).toNat ≤ x.toNat := by
  rcases Nat.lt_or_ge x.toNat (2 ^ 31) with h | h
  · rw [toInt_of_lt h, Int.toNat_natCast]
  · have := toInt_neg_of_le h
    omega

namespace ParticleBody

variable (body : ParticleBody K d A V frameSize) {launch : FrameLaunch K d}
  {m m' : ParticleMemory K d A V frameSize}

theorem turn_within (frame : FramePtr) (slot : Fin frameSize) :
    (body.turn frame slot).Within {a | a.frame = frame ∧ a.slot = slot}
      {a | a.frame = frame ∧ a.slot = slot ∧ a.leaf ∈ body.writes} := by
  refine (loadOccupied_within (And.intro rfl rfl)).bind fun valid => ?_
  cases valid with
  | false => exact .pure _
  | true => exact body.within frame slot

theorem forEachSlot_turn_within (frame : FramePtr) :
    (forEachSlot (body.turn frame)).Within {a | a.frame = frame}
      {a | a.frame = frame ∧ a.leaf ∈ body.writes} :=
  forEachSlot_within fun slot => (body.turn_within frame slot).mono (fun _ h => h.1)
    fun _ h => And.intro h.1 h.2.2

theorem hierarchyForEachKernel_within (b : ℕ) :
    (hierarchyForEachKernel launch body b).Within {a | a.frame = launch.framePtrs b}
      {a | a.frame = launch.framePtrs b ∧ a.leaf ∈ body.writes} := by
  refine (Program.Within.forEach fun f hf => ?_).bind fun _ => .pure _
  rw [gridStride_eq (toInt_toNat_le _)] at hf
  split at hf
  · rw [List.mem_singleton.mp hf]
    exact body.forEachSlot_turn_within _
  · exact absurd hf List.not_mem_nil

theorem independent_hierarchyForEachKernel :
    Program.Independent
      (fun b : Fin launch.totalFrames.toNat => hierarchyForEachKernel launch body b)
      (fun b => {a | a.frame = launch.framePtrs b})
      (fun b => {a | a.frame = launch.framePtrs b ∧ a.leaf ∈ body.writes}) := by
  refine ⟨fun b => body.hierarchyForEachKernel_within b, fun b b' hne a ha => ?_⟩
  have hframes : a.frame ≠ launch.framePtrs b' := fun heq =>
    hne (Fin.ext (launch.injective b b.isLt b' b'.isLt (ha.1.symm.trans heq)))
  rintro (h | h)
  · exact hframes h
  · exact hframes h.1

variable [DecidableEq A]

/-- **What a launch leaves behind**: each live particle of the target as the body leaves it. -/
structure LaunchResult (launch : FrameLaunch K d) (body : ParticleBody K d A V frameSize)
    (m m' : ParticleMemory K d A V frameSize) : Prop where
  stored : ∀ b, b < (toInt launch.totalFrames).toNat → ∀ slot,
    m.occupied (launch.framePtrs b) slot = true → ∀ l ∈ body.writes,
      m' ⟨launch.framePtrs b, slot, l⟩ =
        ((body.run (launch.framePtrs b) slot).exec m).2 ⟨launch.framePtrs b, slot, l⟩
  kept : ∀ a : FieldAddr d A frameSize, (∀ b, b < (toInt launch.totalFrames).toNat →
    a.frame = launch.framePtrs b → m.occupied a.frame a.slot = true → a.leaf ∉ body.writes) →
      m' a = m a

/-- What a block does to a live slot of its frame. -/
theorem exec_hierarchyForEachKernel {b : ℕ} (hb : b < (toInt launch.totalFrames).toNat)
    (m : ParticleMemory K d A V frameSize) {slot : Fin frameSize} {l : Leaf d A}
    (hl : l ∈ body.writes) :
    ((hierarchyForEachKernel launch body b).exec m).2 ⟨launch.framePtrs b, slot, l⟩ =
      ((body.turn (launch.framePtrs b) slot).exec m).2 ⟨launch.framePtrs b, slot, l⟩ := by
  let R : Fin frameSize → Set (FieldAddr d A frameSize) := fun slot =>
    {a | a.frame = launch.framePtrs b ∧ a.slot = slot}
  let W : Fin frameSize → Set (FieldAddr d A frameSize) := fun slot =>
    {a | a.frame = launch.framePtrs b ∧ a.slot = slot ∧ a.leaf ∈ body.writes}
  have hW : ∀ i j, i ≠ j → ∀ a ∈ W i, a ∉ R j ∪ W j := fun i j hij a hi hj =>
    hij (hi.2.1.symm.trans (hj.elim And.right fun h => h.2.1))
  rw [hierarchyForEachKernel, gridStride_eq (toInt_toNat_le _), if_pos hb, Program.exec_bind,
    Program.exec_pure, Program.forEach, Program.exec_bind, Program.exec_bind, Program.exec_pure,
    Program.forEach, Program.exec_pure, forEachSlot, Program.exec_bind, Program.exec_pure]
  exact Program.exec_forEach_of_mem (R := R) (W := W) (List.nodup_finRange _)
    (fun slot _ => body.turn_within _ slot) hW m (List.mem_finRange slot) ⟨rfl, rfl, hl⟩

theorem exec_turn (frame : FramePtr) (slot : Fin frameSize) (m : ParticleMemory K d A V frameSize) :
    (body.turn frame slot).exec m =
      if m.occupied frame slot = true then (body.run frame slot).exec m else ((), m) := by
  rw [turn, Program.exec_bind, exec_loadOccupied]
  dsimp only
  split
  · rfl
  · rfl

/-- **Every interleaving of a launch has this result.** -/
theorem launchResult_of_runs {results : Fin launch.totalFrames.toNat → Unit}
    (h : Program.Runs (fun b : Fin launch.totalFrames.toNat => hierarchyForEachKernel launch body b)
      m results m') : LaunchResult launch body m m' := by
  obtain ⟨-, hwritten, huntouched⟩ := body.independent_hierarchyForEachKernel.runs h
  refine ⟨fun b hb slot hocc l hl => ?_, fun a ha => ?_⟩
  · have hblock := hwritten ⟨b, hb.trans_le (toInt_toNat_le _)⟩ ⟨launch.framePtrs b, slot, l⟩
      ⟨rfl, hl⟩
    rw [hblock, body.exec_hierarchyForEachKernel hb m hl, body.exec_turn, if_pos hocc]
  · by_cases hmem : ∃ b : Fin launch.totalFrames.toNat,
        a.frame = launch.framePtrs b ∧ a.leaf ∈ body.writes
    · obtain ⟨b, hframe, hl⟩ := hmem
      obtain ⟨frame, slot, l⟩ := a
      obtain rfl : frame = launch.framePtrs b := hframe
      rw [hwritten b _ ⟨rfl, hl⟩]
      by_cases hb : (b : ℕ) < (toInt launch.totalFrames).toNat
      · rw [body.exec_hierarchyForEachKernel hb m hl, body.exec_turn, if_neg]
        exact fun hocc => ha b hb rfl hocc hl
      · rw [hierarchyForEachKernel, gridStride_eq (toInt_toNat_le _), if_neg hb]
        rfl
    · exact huntouched a fun b hab => hmem ⟨b, hab⟩

end ParticleBody

end Particles
end Spearhed
