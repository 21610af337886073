import Spearhed.Communication.CommunicatorMPI
import Spearhed.Library.Literals

/-!
# The grid controller: slides of the whole domain

Every rank slides its communicator and moves its domain offsets along: the local offset follows the
coordinate in y, the global one grows by the local size with every slide.  `setStateAfterSlides`
does the same in one call when a simulation is restarted.

The topology of all ranks is sound after any number of slides.  The one call leaves the state of the
single slides as well, and its result is theirs unless the slides make up whole turns of the grid.
-/

namespace Spearhed
namespace Communication

open Library Library.Literals Mappings

variable {n : ℕ}

/-- The offsets of the domains and the size of the local one, in cells. -/
structure SubGrid (n : ℕ) where
  localSize : DataSpace (n + 2)
  localOffset : DataSpace (n + 2)
  globalOffset : DataSpace (n + 2)

structure GridController (n : ℕ) where
  comm : CommunicatorMPI n
  subGrid : SubGrid n

/-- A sum of `size_t` stored in an `int`. -/
def sizeToInt (x : ℤ) : ℤ := Int.bmod (x % 2 ^ 64) (2 ^ 32)

namespace GridController

/-- The offsets of the current position. -/
def updateDomainOffset (controller : GridController n) (numSlides : ℕ) : GridController n :=
  let gpuOffset_y := controller.comm.coordinates 1
  let subGrid := controller.subGrid
  { controller with
    subGrid :=
      { subGrid with
        localOffset := Function.update subGrid.localOffset 1 (gpuOffset_y * subGrid.localSize 1)
        globalOffset := Function.update subGrid.globalOffset 1
          (sizeToInt (subGrid.globalOffset 1 + numSlides * subGrid.localSize 1)) } }

def slide (controller : GridController n) : Bool × GridController n :=
  let result := controller.comm.slide
  (result.1, { controller with comm := result.2 }.updateDomainOffset 1)

/-- Slides one after another, and what the last one returned. -/
def slides (controller : GridController n) : ℕ → Bool × GridController n
  | 0 => (false, controller)
  | numSlides + 1 => (controller.slides numSlides).2.slide

def setStateAfterSlides (controller : GridController n) (numSlides : ℕ) : Bool × GridController n :=
  if numSlides = 0 then
    (false, controller)
  else
    let result := controller.comm.setStateAfterSlides numSlides
    (result.1, { controller with comm := result.2 }.updateDomainOffset numSlides)

/-! ## One call against many -/

section Slides

variable {controller : GridController n} {comm : CommunicatorMPI n}

theorem sizeToInt_eq_bmod (x : ℤ) : sizeToInt x = Int.bmod x (2 ^ 32) := by
  rw [sizeToInt, ← Int.emod_bmod, Int.emod_emod_of_dvd x (by norm_num), Int.emod_bmod]

theorem sizeToInt_sizeToInt_add (x y : ℤ) : sizeToInt (sizeToInt x + y) = sizeToInt (x + y) := by
  rw [sizeToInt_eq_bmod, sizeToInt_eq_bmod, sizeToInt_eq_bmod, Int.bmod_add_bmod]

theorem updateDomainOffset_updateDomainOffset (k m : ℕ) :
    { controller.updateDomainOffset k with comm := comm }.updateDomainOffset m =
      { controller with comm := comm }.updateDomainOffset (k + m) := by
  have hglobal : sizeToInt (sizeToInt (controller.subGrid.globalOffset 1 + k * controller.subGrid.localSize 1) +
        m * controller.subGrid.localSize 1) =
      sizeToInt (controller.subGrid.globalOffset 1 + ((k + m : ℕ) : ℤ) * controller.subGrid.localSize 1) := by
    rw [sizeToInt_sizeToInt_add, Nat.cast_add, add_mul, add_assoc]
  simp only [updateDomainOffset, Function.update_idem, Function.update_self, hglobal]

theorem slides_comm (numSlides : ℕ) : (controller.slides numSlides).2.comm = (controller.comm.slides numSlides).2 := by
  induction numSlides with
  | zero => rfl
  | succ numSlides ih =>
    rw [slides, slide, CommunicatorMPI.slides, ← ih]
    rfl

theorem slides_fst (numSlides : ℕ) : (controller.slides numSlides).1 = (controller.comm.slides numSlides).1 := by
  cases numSlides with
  | zero => rfl
  | succ numSlides =>
    rw [slides, slide, CommunicatorMPI.slides, ← slides_comm]

/-- Single slides move the offsets by as many sizes at once. -/
theorem slides_succ (numSlides : ℕ) :
    (controller.slides (numSlides + 1)).2 =
      { controller with comm := (controller.comm.slides (numSlides + 1)).2 }.updateDomainOffset (numSlides + 1) := by
  induction numSlides with
  | zero => rfl
  | succ numSlides ih =>
    rw [slides, slide, ih]
    exact updateDomainOffset_updateDomainOffset (numSlides + 1) 1

/-- The state one call leaves is the state of the single slides. -/
theorem setStateAfterSlides_snd (hdims : 0 < controller.comm.dims 1) (hoffset : controller.comm.yoffset = 0)
    (hupdated : controller.comm.updateCoordinates = controller.comm) (numSlides : ℕ) :
    (controller.setStateAfterSlides numSlides).2 = (controller.slides numSlides).2 := by
  cases numSlides with
  | zero => rfl
  | succ numSlides =>
    rw [slides_succ, setStateAfterSlides, if_neg (Nat.succ_ne_zero _), CommunicatorMPI.setStateAfterSlides,
      if_neg (Nat.succ_ne_zero _)]
    dsimp only
    rw [CommunicatorMPI.slides_mod hdims hoffset hupdated]

/-- The result of one call is the result of the last slide, unless whole turns bring a rank back to the end. -/
theorem setStateAfterSlides_fst_iff (hdims : 0 < controller.comm.dims 1) (hoffset : controller.comm.yoffset = 0)
    (hbase : controller.comm.baseCoordinates ∈ CommunicatorMPI.grid controller.comm.dims)
    (hupdated : controller.comm.updateCoordinates = controller.comm) (numSlides : ℕ) :
    (controller.setStateAfterSlides numSlides).1 = (controller.slides numSlides).1 ↔
      (numSlides = 0 ∨ ¬ controller.comm.dims 1 ∣ numSlides ∨
        controller.comm.baseCoordinates 1 ≠ controller.comm.dims 1 - 1) := by
  rw [slides_fst]
  cases numSlides with
  | zero => exact iff_of_true rfl (Or.inl rfl)
  | succ numSlides =>
    have hcast : ((controller.comm.dims 1).toNat : ℤ) = controller.comm.dims 1 := Int.toNat_of_nonneg hdims.le
    have hstate := CommunicatorMPI.slides_mod hdims hoffset hupdated (numSlides + 1)
    have hcoordinates := CommunicatorMPI.slides_coordinates hdims hbase hoffset hupdated (numSlides + 1)
    have hfst : (controller.setStateAfterSlides (numSlides + 1)).1 =
        (controller.comm.slides ((numSlides + 1) % (controller.comm.dims 1).toNat)).1 := by
      rw [setStateAfterSlides, if_neg (Nat.succ_ne_zero _), CommunicatorMPI.setStateAfterSlides,
        if_neg (Nat.succ_ne_zero _)]
    rw [hfst, CommunicatorMPI.slides_succ_fst]
    by_cases hdvd : controller.comm.dims 1 ∣ (numSlides + 1 : ℕ)
    · have hwhole : (numSlides + 1) % (controller.comm.dims 1).toNat = 0 :=
        Nat.mod_eq_zero_of_dvd (Int.natCast_dvd_natCast.mp (hcast ▸ hdvd))
      have hback : CommunicatorMPI.slidCoordinates controller.comm.dims controller.comm.baseCoordinates (numSlides + 1) 1 =
          controller.comm.baseCoordinates 1 := by
        rw [CommunicatorMPI.slidCoordinates, Function.update_self, Int.sub_emod, Int.emod_eq_zero_of_dvd hdvd, sub_zero,
          Int.emod_emod, Int.emod_eq_of_lt (hbase 1).1 (hbase 1).2]
      rw [hwhole, hcoordinates, hback]
      refine ⟨fun hflag => Or.inr (Or.inr (of_decide_eq_false hflag.symm)), ?_⟩
      rintro (hzero | hndvd | hne)
      · exact absurd hzero (Nat.succ_ne_zero _)
      · exact absurd hdvd hndvd
      · exact (decide_eq_false hne).symm
    · refine iff_of_true ?_ (Or.inr (Or.inl hdvd))
      obtain ⟨m, hm⟩ : ∃ m, (numSlides + 1) % (controller.comm.dims 1).toNat = m + 1 := by
        refine Nat.exists_eq_succ_of_ne_zero fun hzero => hdvd ?_
        exact hcast ▸ Int.natCast_dvd_natCast.mpr (Nat.dvd_of_mod_eq_zero hzero)
      rw [hm, CommunicatorMPI.slides_succ_fst, ← hm, hstate]

end Slides

end GridController
end Communication
end Spearhed
