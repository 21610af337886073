import Spearhed.Particles.LaunchTogether
import Spearhed.Sph.Functors

/-!
# Moving particles

`PushVelocity` and `EulerIntegrate` of `particles/pusher`: bodies for `launchForEach` that change one
particle, axis by axis.  What they do to a record is `push` and `integrate`.
-/

namespace Spearhed
namespace Sph

open Library Particles

variable {K : Type} [Field K] {d frameSize : ℕ}

/-- A fluid particle. -/
abbrev FluidParticle (K : Type) (d : ℕ) : Type := Particle K d (FluidAttribute d → K)

/-! ## On records -/

/-- `r += v * dt`. -/
def push (delt : K) (p : FluidParticle K d) : FluidParticle K d :=
  { p with relativePos := fun t => p.relativePos t + p.attributes (.vel t) * delt }

/-- `v += dvdt * dt` and `u += dudt * dt`. -/
def integrate (delt : K) (p : FluidParticle K d) : FluidParticle K d :=
  { p with
    attributes := fun a => match a with
      | .vel t => p.attributes (.vel t) + p.attributes (.dvdt t) * delt
      | .internalEnergy => p.attributes .internalEnergy + p.attributes .dudt * delt
      | a => p.attributes a }

/-! ## In memory -/

/-- `PushVelocity` on one axis. -/
def pushAxis (delt : K) (frame : FramePtr) (slot : Fin frameSize) (t : Fin (d + 1)) :
    KernelThread K d (FluidAttribute d) (fun _ => K) frameSize Unit := do
  let r : K ← loadLeaf frame slot (.relativePos t)
  let v : K ← loadLeaf frame slot (.attribute (.vel t))
  storeLeaf frame slot (.relativePos t) (r + v * delt)

/-- `EulerIntegrate` on one axis. -/
def integrateAxis (delt : K) (frame : FramePtr) (slot : Fin frameSize) (t : Fin (d + 1)) :
    KernelThread K d (FluidAttribute d) (fun _ => K) frameSize Unit := do
  let v : K ← loadLeaf frame slot (.attribute (.vel t))
  let a : K ← loadLeaf frame slot (.attribute (.dvdt t))
  storeLeaf frame slot (.attribute (.vel t)) (v + a * delt)

theorem pushAxis_within (delt : K) (frame : FramePtr) (slot : Fin frameSize) (t : Fin (d + 1)) :
    (pushAxis delt frame slot t).Within
      {a | a.frame = frame ∧ a.slot = slot ∧
        (a.leaf = .relativePos t ∨ a.leaf = .attribute (.vel t))}
      {a | a.frame = frame ∧ a.slot = slot ∧ a.leaf = .relativePos t} :=
  (loadLeaf_within (And.intro rfl (And.intro rfl (Or.inl rfl)))).bind fun _ =>
    (loadLeaf_within (And.intro rfl (And.intro rfl (Or.inr rfl)))).bind fun _ =>
      And.intro (And.intro rfl (And.intro rfl rfl)) trivial

theorem integrateAxis_within (delt : K) (frame : FramePtr) (slot : Fin frameSize)
    (t : Fin (d + 1)) :
    (integrateAxis delt frame slot t).Within
      {a | a.frame = frame ∧ a.slot = slot ∧
        (a.leaf = .attribute (.vel t) ∨ a.leaf = .attribute (.dvdt t))}
      {a | a.frame = frame ∧ a.slot = slot ∧ a.leaf = .attribute (.vel t)} :=
  (loadLeaf_within (And.intro rfl (And.intro rfl (Or.inl rfl)))).bind fun _ =>
    (loadLeaf_within (And.intro rfl (And.intro rfl (Or.inr rfl)))).bind fun _ =>
      And.intro (And.intro rfl (And.intro rfl rfl)) trivial

/-- The loop of `PushVelocity`. -/
def pushAxes (delt : K) (frame : FramePtr) (slot : Fin frameSize) :=
  Program.forEach (C := fun _ => Unit) (pushAxis delt frame slot) (List.finRange (d + 1))

/-- The loop of `EulerIntegrate`. -/
def integrateAxes (delt : K) (frame : FramePtr) (slot : Fin frameSize) :=
  Program.forEach (C := fun _ => Unit) (integrateAxis delt frame slot) (List.finRange (d + 1))

theorem pushAxes_within (delt : K) (frame : FramePtr) (slot : Fin frameSize) :
    (pushAxes (d := d) delt frame slot).Within {a | a.frame = frame ∧ a.slot = slot}
      {a | a.frame = frame ∧ a.slot = slot ∧
        a.leaf ∈ (List.finRange (d + 1)).map Leaf.relativePos} :=
  Program.Within.forEach fun t _ => (pushAxis_within delt frame slot t).mono
    (fun _ h => And.intro h.1 h.2.1) fun _ h => And.intro h.1
      (And.intro h.2.1 (h.2.2 ▸ List.mem_map_of_mem (List.mem_finRange t)))

theorem integrateAxes_within (delt : K) (frame : FramePtr) (slot : Fin frameSize) :
    (integrateAxes (d := d) delt frame slot).Within {a | a.frame = frame ∧ a.slot = slot}
      {a | a.frame = frame ∧ a.slot = slot ∧ a.leaf ∈ velLeaves d} :=
  Program.Within.forEach fun t _ => (integrateAxis_within delt frame slot t).mono
    (fun _ h => And.intro h.1 h.2.1) fun _ h => And.intro h.1
      (And.intro h.2.1 (h.2.2 ▸ List.mem_map_of_mem (List.mem_finRange t)))

/-- `PushVelocity`. -/
def pushVelocity (delt : K) (frameSize : ℕ) :
    ParticleBody K d (FluidAttribute d) (fun _ => K) frameSize where
  writes := (List.finRange (d + 1)).map Leaf.relativePos
  run := fun frame slot => do
    let _ ← pushAxes delt frame slot
    pure ()
  within := fun frame slot => (pushAxes_within delt frame slot).bind fun _ => .pure _

/-- `EulerIntegrate`. -/
def eulerIntegrate (delt : K) (frameSize : ℕ) :
    ParticleBody K d (FluidAttribute d) (fun _ => K) frameSize where
  writes := velLeaves d ++ [.attribute .internalEnergy]
  run := fun frame slot => do
    let _ ← integrateAxes delt frame slot
    let u : K ← loadLeaf frame slot (.attribute .internalEnergy)
    let rate : K ← loadLeaf frame slot (.attribute .dudt)
    storeLeaf frame slot (.attribute .internalEnergy) (u + rate * delt)
  within := fun frame slot =>
    ((integrateAxes_within delt frame slot).mono (fun _ h => h) fun _ h =>
      And.intro h.1 (And.intro h.2.1 (List.mem_append_left _ h.2.2))).bind fun _ =>
    (loadLeaf_within (And.intro rfl rfl)).bind fun _ =>
    (loadLeaf_within (And.intro rfl rfl)).bind fun _ => And.intro
      (And.intro rfl (And.intro rfl (List.mem_append_right _ List.mem_cons_self))) trivial

/-! ## What they do -/

section Exec

variable (delt : K) (m : ParticleMemory K d (FluidAttribute d) (fun _ => K) frameSize)
  (frame : FramePtr) (slot : Fin frameSize)

/-- **`PushVelocity` pushes.** -/
theorem particle_pushVelocity :
    ParticleMemory.particle (((pushVelocity delt frameSize).run frame slot).exec m).2 frame slot =
      push delt (m.particle frame slot) := by
  have hrun : (((pushVelocity delt frameSize).run frame slot).exec m).2 =
      ((pushAxes delt frame slot).exec m).2 := by
    show (Program.exec (_ >>= _) m).2 = _
    rw [Program.exec_bind, Program.exec_pure]
  refine ParticleMemory.particle_eq fun l => ?_
  rw [hrun]
  rcases l with t | _ | a
  · have hW : ∀ i j : Fin (d + 1), i ≠ j → ∀ a : FieldAddr d (FluidAttribute d) frameSize,
        a ∈ {a | a.frame = frame ∧ a.slot = slot ∧ a.leaf = .relativePos i} →
          a ∉ {a | a.frame = frame ∧ a.slot = slot ∧
              (a.leaf = .relativePos j ∨ a.leaf = .attribute (.vel j))} ∪
            {a | a.frame = frame ∧ a.slot = slot ∧ a.leaf = .relativePos j} := by
      rintro i j hij ⟨_, _, _⟩ ⟨-, -, rfl⟩ (⟨-, -, h | h⟩ | ⟨-, -, h⟩)
      · exact hij (Leaf.relativePos.inj h)
      · cases h
      · exact hij (Leaf.relativePos.inj h)
    refine (Program.exec_forEach_of_mem (List.nodup_finRange _)
      (fun t _ => pushAxis_within delt frame slot t) hW m (List.mem_finRange t)
      ⟨rfl, rfl, rfl⟩).trans ?_
    exact Function.update_self ..
  · refine (pushAxes_within delt frame slot).exec_of_notMem m ?_
    rintro ⟨-, -, h⟩
    obtain ⟨t, -, ht⟩ := List.mem_map.mp h
    cases ht
  · refine (pushAxes_within delt frame slot).exec_of_notMem m ?_
    rintro ⟨-, -, h⟩
    obtain ⟨t, -, ht⟩ := List.mem_map.mp h
    cases ht

/-- The loop changes velocities only. -/
theorem exec_integrateAxes_of_notMem {l : FluidLeaf d} (hl : l ∉ velLeaves d) :
    ((integrateAxes delt frame slot).exec m).2 ⟨frame, slot, l⟩ = m ⟨frame, slot, l⟩ :=
  (integrateAxes_within delt frame slot).exec_of_notMem m fun h => hl h.2.2

theorem exec_integrateAxes_vel (t : Fin (d + 1)) :
    ((integrateAxes delt frame slot).exec m).2 ⟨frame, slot, .attribute (.vel t)⟩ =
      (m.particle frame slot).attributes (.vel t) +
        (m.particle frame slot).attributes (.dvdt t) * delt := by
  have hW : ∀ i j : Fin (d + 1), i ≠ j → ∀ a : FieldAddr d (FluidAttribute d) frameSize,
      a ∈ {a | a.frame = frame ∧ a.slot = slot ∧ a.leaf = .attribute (.vel i)} →
        a ∉ {a | a.frame = frame ∧ a.slot = slot ∧
            (a.leaf = .attribute (.vel j) ∨ a.leaf = .attribute (.dvdt j))} ∪
          {a | a.frame = frame ∧ a.slot = slot ∧ a.leaf = .attribute (.vel j)} := by
    rintro i j hij ⟨_, _, _⟩ ⟨-, -, rfl⟩ (⟨-, -, h | h⟩ | ⟨-, -, h⟩)
    · exact hij (FluidAttribute.vel.inj (Leaf.attribute.inj h))
    · cases h
    · exact hij (FluidAttribute.vel.inj (Leaf.attribute.inj h))
  refine (Program.exec_forEach_of_mem (List.nodup_finRange _)
    (fun t _ => integrateAxis_within delt frame slot t) hW m (List.mem_finRange t)
    ⟨rfl, rfl, rfl⟩).trans ?_
  exact Function.update_self ..

theorem mem_velLeaves {l : FluidLeaf d} : l ∈ velLeaves d ↔ ∃ t, l = .attribute (.vel t) := by
  simp only [velLeaves, List.mem_map, List.mem_finRange, true_and, eq_comm]

/-- **`EulerIntegrate` integrates.** -/
theorem particle_eulerIntegrate :
    ParticleMemory.particle (((eulerIntegrate delt frameSize).run frame slot).exec m).2 frame slot =
      integrate delt (m.particle frame slot) := by
  let m₁ : ParticleMemory K d (FluidAttribute d) (fun _ => K) frameSize :=
    ((integrateAxes delt frame slot).exec m).2
  let p₁ : FluidParticle K d := m₁.particle frame slot
  have hrun : (((eulerIntegrate delt frameSize).run frame slot).exec m).2 =
      Function.update m₁ ⟨frame, slot, .attribute .internalEnergy⟩
        (p₁.attributes .internalEnergy + p₁.attributes .dudt * delt : K) := by
    show (Program.exec (_ >>= _) m).2 = _
    rw [Program.exec_bind]
    rfl
  refine ParticleMemory.particle_eq fun l => ?_
  rw [hrun]
  by_cases hu : l = .attribute .internalEnergy
  · subst hu
    have hu : p₁.attributes .internalEnergy = (m.particle frame slot).attributes .internalEnergy :=
      exec_integrateAxes_of_notMem delt m frame slot (by simp [velLeaves])
    have hrate : p₁.attributes .dudt = (m.particle frame slot).attributes .dudt :=
      exec_integrateAxes_of_notMem delt m frame slot (by simp [velLeaves])
    refine (Function.update_self ..).trans ?_
    rw [hu, hrate]
    rfl
  · refine (Function.update_of_ne (fun h => hu (congrArg FieldAddr.leaf h)) ..).trans ?_
    by_cases hv : l ∈ velLeaves d
    · obtain ⟨t, rfl⟩ := mem_velLeaves.mp hv
      exact exec_integrateAxes_vel delt m frame slot t
    · refine (exec_integrateAxes_of_notMem delt m frame slot hv).trans ?_
      match l, hu, hv with
      | .relativePos t, _, _ => rfl
      | .multiMask, _, _ => rfl
      | .attribute .mass, _, _ => rfl
      | .attribute .smoothingLength, _, _ => rfl
      | .attribute .density, _, _ => rfl
      | .attribute .internalEnergy, hu, _ => exact absurd rfl hu
      | .attribute (.vel t), _, hv => exact absurd (mem_velLeaves.mpr ⟨t, rfl⟩) hv
      | .attribute (.dvdt t), _, _ => rfl
      | .attribute .dudt, _, _ => rfl

end Exec

end Sph
end Spearhed
