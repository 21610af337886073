import Spearhed.Particles.LaunchForEach
import Spearhed.Particles.PassSchedules
import Spearhed.Sph.SphKernel

/-!
# The functors of the hydrodynamics

`AccumulateDensity` and `DensityInitSelf` of `DensitySummation.hpp`, `HydroInteraction` and
`ZeroDerivatives` of `HydroForces.hpp`.  Both pair functors write only what nothing reads of a
neighbour (`accumulateDensity_isolated`, `hydroInteraction_isolated`), so the passes they are used
in do not depend on how blocks are scheduled.
-/

namespace Spearhed
namespace Sph

open Library Particles

/-- The attributes of a fluid particle besides its position and mask. -/
inductive FluidAttribute (d : ℕ)
  | mass
  | smoothingLength
  | density
  | internalEnergy
  | vel (t : Fin (d + 1))
  | dvdt (t : Fin (d + 1))
  | dudt
  deriving DecidableEq

/-- A leaf of a fluid record. -/
abbrev FluidLeaf (d : ℕ) : Type := Leaf d (FluidAttribute d)

/-- The leaves of `vel`. -/
def velLeaves (d : ℕ) : List (FluidLeaf d) :=
  (List.finRange (d + 1)).map fun t => .attribute (.vel t)

/-- The leaves of `dvdt`. -/
def dvdtLeaves (d : ℕ) : List (FluidLeaf d) :=
  (List.finRange (d + 1)).map fun t => .attribute (.dvdt t)

variable {K : Type} [Field K] [LinearOrder K] {d : ℕ}

/-- A functor on fluid particles. -/
abbrev FluidFunctor (K : Type) (d : ℕ) : Type 1 :=
  InteractionFunctor K d (FluidAttribute d) fun _ => K

/-- The values of some leaves of a fluid record. -/
abbrev FluidRecord (K : Type) {d : ℕ} (leaves : List (FluidLeaf d)) : Type :=
  SubRecord K (fun _ : FluidAttribute d => K) leaves

/-- An attribute of a copied record. -/
def FluidRecord.get {leaves : List (FluidLeaf d)} (record : FluidRecord K leaves)
    (a : FluidAttribute d) (h : .attribute a ∈ leaves) : K :=
  record (.attribute a) h

/-- `AccumulateDensity`. -/
def accumulateDensity (kernel : SphKernel K) : FluidFunctor K d where
  neighbourReads := [.attribute .mass]
  ownReads := [.attribute .smoothingLength]
  ownAccumulate := [.attribute .density]
  Prepared := Unit
  prepare := fun _ => ()
  Staged := FluidRecord K [.attribute (.mass : FluidAttribute d)]
  stageReads := [.attribute .mass]
  stageReads_subset := fun _ h => h
  stage := fun neighbour => neighbour
  call := fun ownRead _ nb ctx acc =>
    if ctx.isSelf then acc
    else
      let h := FluidRecord.get ownRead .smoothingLength List.mem_cons_self
      let m_j := FluidRecord.get nb .mass List.mem_cons_self
      fun l => match l with
        | .attribute .density => fun hl =>
          FluidRecord.get acc .density hl + m_j * kernel.W ctx.r h
        | l => fun hl => acc l hl

/-- `HydroInteraction::StagedRecord`. -/
structure StagedRecord (K : Type) (d : ℕ) where
  pOverRho2 : K
  mass : K
  smoothingLength : K
  vel : Vec K d

/-- `HydroInteraction`. -/
def hydroInteraction (kernel : SphKernel K) (gamma : K) : FluidFunctor K d where
  neighbourReads := [.attribute .mass, .attribute .smoothingLength, .attribute .density,
    .attribute .internalEnergy] ++ velLeaves d
  ownReads := [.attribute .smoothingLength, .attribute .density, .attribute .internalEnergy] ++
    velLeaves d
  ownAccumulate := .attribute .dudt :: dvdtLeaves d
  Prepared := K
  prepare := fun ownRead =>
    let rho_i := FluidRecord.get ownRead .density (by simp)
    let u_i := FluidRecord.get ownRead .internalEnergy (by simp)
    pressure gamma rho_i u_i / (rho_i * rho_i)
  Staged := StagedRecord K d
  stageReads := [.attribute .density, .attribute .internalEnergy, .attribute .mass,
    .attribute .smoothingLength] ++ velLeaves d
  stageReads_subset := by
    intro l hl
    simp only [List.mem_append, List.mem_cons, List.not_mem_nil, or_false] at hl ⊢
    tauto
  stage := fun nParticle =>
    let rho_j := FluidRecord.get nParticle .density (by simp)
    let u_j := FluidRecord.get nParticle .internalEnergy (by simp)
    { pOverRho2 := pressure gamma rho_j u_j / (rho_j * rho_j)
      mass := FluidRecord.get nParticle .mass (by simp)
      smoothingLength := FluidRecord.get nParticle .smoothingLength (by simp)
      vel := fun t => FluidRecord.get nParticle (.vel t) (by simp [velLeaves]) }
  call := fun ownRead prep nb ctx acc =>
    if ctx.isSelf then acc
    else
      let h_i := FluidRecord.get ownRead .smoothingLength (by simp)
      let h_j := nb.smoothingLength
      let s_i := kernel.gradWScalar ctx.r ctx.invR h_i
      let s_j := kernel.gradWScalar ctx.r ctx.invR h_j
      let term_i := nb.mass * prep
      let term_j := nb.mass * nb.pOverRho2
      let dot_v_rVec := (List.finRange (d + 1)).foldl (fun dot t =>
        dot + (FluidRecord.get ownRead (.vel t) (by simp [velLeaves]) - nb.vel t) * ctx.rVec t) 0
      fun l => match l with
        | .attribute (.dvdt t) => fun hl =>
          FluidRecord.get acc (.dvdt t) hl - (term_i * s_i + term_j * s_j) * ctx.rVec t
        | .attribute .dudt => fun hl => FluidRecord.get acc .dudt hl + term_i * s_i * dot_v_rVec
        | l => fun hl => acc l hl

/-- `ZeroDerivatives`. -/
def zeroDerivatives (K : Type) [Field K] (d frameSize : ℕ) :
    ParticleBody K d (FluidAttribute d) (fun _ => K) frameSize where
  writes := dvdtLeaves d ++ [.attribute .dudt]
  run := fun frame slot => storeFields frame slot (dvdtLeaves d ++ [.attribute .dudt])
    fun l _ => match l with
      | .relativePos _ => (0 : K)
      | .multiMask => (0 : UInt8)
      | .attribute _ => (0 : K)
  within := fun _ _ => storeFields_within (fun _ hl => And.intro rfl (And.intro rfl hl)) _

omit [LinearOrder K] in
/-- `DensityInitSelf`. -/
def densityInitSelf (kernel : SphKernel K) (frameSize : ℕ) :
    ParticleBody K d (FluidAttribute d) (fun _ => K) frameSize where
  writes := [.attribute .density]
  run := fun frame slot => do
    let h : K ← loadLeaf frame slot (.attribute .smoothingLength)
    let m_i : K ← loadLeaf frame slot (.attribute .mass)
    storeLeaf frame slot (.attribute .density) (m_i * kernel.W 0 h)
  within := fun _ _ => (loadLeaf_within (And.intro rfl rfl)).bind fun _ =>
    (loadLeaf_within (And.intro rfl rfl)).bind fun _ =>
      And.intro (And.intro rfl (And.intro rfl List.mem_cons_self)) trivial

/-! ## What nothing reads of a neighbour -/

omit [LinearOrder K] in
theorem accumulateDensity_isolated (kernel : SphKernel K) :
    (accumulateDensity kernel : FluidFunctor K d).Isolated := by
  constructor <;> simp [accumulateDensity]

theorem hydroInteraction_isolated (kernel : SphKernel K) (gamma : K) :
    (hydroInteraction kernel gamma : FluidFunctor K d).Isolated := by
  constructor <;> simp [hydroInteraction, velLeaves, dvdtLeaves]

/-- **Interaction passes do not depend on the schedule**: of any isolated functor, and so those of
the density and of the forces. -/
theorem interaction_scheduleIndependent :
    (∀ {K : Type} {d : ℕ} {A : Type} {V : A → Type} {frameSize : ℕ} [DecidableEq A] [Zero K] [Add K]
      [Sub K] [Mul K] [Div K] [OfNat K 4] [LT K] [DecidableLT K] (I : InteractionArgs K d A V)
      (launch : FrameLaunch K d) (m : ParticleMemory K d A V frameSize), I.fn.Isolated →
        I.ScheduleIndependent launch m) ∧
    ∀ {K : Type} [Field K] [LinearOrder K] {d frameSize : ℕ} (kernel : SphKernel K)
      (gamma interactionRadius : K) (limits : NumericLimits K) (rsqrt : K → K)
      (launch : FrameLaunch K d)
      (m : ParticleMemory K d (FluidAttribute d) (fun _ => K) frameSize),
        InteractionArgs.ScheduleIndependent
          ⟨accumulateDensity kernel, interactionRadius, limits, rsqrt⟩ launch m ∧
        InteractionArgs.ScheduleIndependent
          ⟨hydroInteraction kernel gamma, interactionRadius, limits, rsqrt⟩ launch m :=
  ⟨fun _ launch m hfn => InteractionArgs.scheduleIndependent_of_isolated hfn launch m,
    fun kernel gamma _ _ _ launch m =>
      ⟨InteractionArgs.scheduleIndependent_of_isolated (accumulateDensity_isolated kernel) launch m,
        InteractionArgs.scheduleIndependent_of_isolated (hydroInteraction_isolated kernel gamma)
          launch m⟩⟩

/-- Two frames with three live particles and a dead slot, away from the sentinel. -/
def threeMemory : ParticleMemory ℤ 0 Bool (fun _ => ℤ) 2 := fun a => match a with
  | ⟨_, slot, .relativePos _⟩ => (slot.val : ℤ)
  | ⟨frame, slot, .multiMask⟩ => (if frame = 1 ∧ slot.val = 1 then 0 else 1 : UInt8)
  | ⟨_, _, .attribute _⟩ => (5 : ℤ)

theorem threeMemory_cullsSentinel : sentinelArgs.CullsSentinel orderedLaunch threeMemory := by
  have hfar : ∀ slot : Fin 2, ¬ InteractionArgs.squaredLength (fun _ : Fin 1 => (slot.val : ℤ) - 400 / 4) < 1 * 1 := by
    decide
  exact fun _ _ slot _ => hfar slot

/-- Two blocks over them, with the buffer as its own source: one memory for all executions and all contents of
shared memory. -/
theorem interaction_scheduleIndependent_three : ∃ m', ∀ smem : ℕ → SmemCaches ℤ 0 ℤ 2,
    sentinelArgs.EndsWith orderedLaunch (fun b =>
      sentinelArgs.frameInteractionKernel orderedLaunch orderedView (smem b) b)
      threeMemory m' :=
  (interaction_scheduleIndependent.1 sentinelArgs orderedLaunch threeMemory
    sumFunctor_isolated).frame_of_culls threeMemory_cullsSentinel orderedView

end Sph
end Spearhed
