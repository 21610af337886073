import Spearhed.Mappings.ExchangeMapping

/-!
# Reduced supercell indices

A message to a neighbour names its supercells by one axis less: the sender drops an axis that the direction
points along, and the receiver puts it back, at its own border.

* `extend_reduce`: an axis along which the direction does not point is never lost; on the others the result
  is the border layer on the side of the receiver.
* `extend_reduce_eq_image`: for the layer of the guard that touches the border, this is the image of the
  supercell in the grid of the neighbour.
-/

namespace Spearhed
namespace Mappings

/-- `reduce` of `DataSpaceOperations<DIM>` and `extend` of `DataSpaceOperations<DIM - 1>`. -/
class DataSpaceOperations (DIM : ℕ) where
  reduce : DataSpace DIM → ℕ → DataSpace (DIM - 1)
  extend : DataSpace (DIM - 1) → ℕ → DataSpace DIM → DataSpace DIM → DataSpace DIM

local instance neZero_one : NeZero 1 := ⟨one_ne_zero⟩
local instance neZero_two : NeZero 2 := ⟨two_ne_zero⟩
local instance neZero_three : NeZero 3 := ⟨three_ne_zero⟩

instance : DataSpaceOperations 2 where
  reduce ds ex :=
    let directions := getRelativeDirections 2 ex
    if directions 0 ≠ 0 then ![ds 1] else if directions 1 ≠ 0 then ![ds 0] else ![0]
  extend ds ex target offset :=
    let directions := getRelativeDirections 2 ex
    let x := if directions 0 = 1 then target 0 - offset 0 - 1 else ds (0 : Fin 1)
    let y := if directions 1 = 1 then target 1 - offset 1 - 1 else ds (0 : Fin 1)
    ![if directions 0 = -1 then offset 0 else x, if directions 1 = -1 then offset 1 else y]

instance : DataSpaceOperations 3 where
  reduce ds ex :=
    let directions := getRelativeDirections 3 ex
    if directions 0 ≠ 0 then ![ds 1, ds 2]
    else if directions 2 ≠ 0 then ![ds 0, ds 1]
    else if directions 1 ≠ 0 then ![ds 0, ds 2]
    else ![0, 0]
  extend ds ex target offset :=
    let directions := getRelativeDirections 3 ex
    let y_entry := if directions 0 = 0 then ds (1 : Fin 2) else ds (0 : Fin 2)
    let along (d : Fin 3) (entry : ℤ) : ℤ :=
      if directions d = 1 then target d - offset d - 1
      else if directions d = -1 then offset d
      else if directions d = 0 then entry else 0
    ![along 0 (ds (0 : Fin 2)), along 1 y_entry, along 2 (ds (1 : Fin 2))]

/-- The layer of the border on the side of a neighbour who is reached in these directions. -/
def borderLayer {DIM : ℕ} (target offset directions c : DataSpace DIM) : DataSpace DIM :=
  fun d => if directions d = 0 then c d else if directions d = 1 then target d - offset d - 1 else offset d

/-- What the two operations do together, for a direction that is not zero. -/
class LawfulDataSpaceOperations (DIM : ℕ) [DataSpaceOperations DIM] : Prop where
  extend_reduce {ex ex' : ℕ} (hmirror : getRelativeDirections DIM ex' = -getRelativeDirections DIM ex)
    (hne : getRelativeDirections DIM ex ≠ 0) (c target offset : DataSpace DIM) :
    DataSpaceOperations.extend (DataSpaceOperations.reduce c ex) ex' target offset =
      borderLayer target offset (-getRelativeDirections DIM ex) c

open DataSpaceOperations LawfulDataSpaceOperations Mask MappingDescription

instance : LawfulDataSpaceOperations 2 where
  extend_reduce {ex ex'} hmirror hne c target offset := by
    have hmem := getRelativeDirections_mem 2 ex
    simp only [extend, reduce, hmirror]
    generalize getRelativeDirections 2 ex = r at hmem hne ⊢
    funext d
    rcases hmem 0 with hx | hx | hx <;> rcases hmem 1 with hy | hy | hy <;> fin_cases d <;> simp [borderLayer, hx, hy]
    all_goals exact absurd (funext (Fin.forall_fin_two.mpr ⟨hx, hy⟩)) hne

instance : LawfulDataSpaceOperations 3 where
  extend_reduce {ex ex'} hmirror hne c target offset := by
    have hmem := getRelativeDirections_mem 3 ex
    simp only [extend, reduce, hmirror]
    generalize getRelativeDirections 3 ex = r at hmem hne ⊢
    funext d
    rcases hmem 0 with hx | hx | hx <;> rcases hmem 1 with hy | hy | hy <;> rcases hmem 2 with hz | hz | hz <;>
      fin_cases d <;> simp [borderLayer, hx, hy, hz]
    all_goals exact absurd (funext fun d => by fin_cases d <;> assumption) hne

section Image

variable {DIM : ℕ} {M : MappingDescription DIM} {ex : ℕ} {c : DataSpace DIM}

/-- The guard layer that touches the border, in the direction of an exchange. -/
def MappingDescription.touchesBorder (M : MappingDescription DIM) (ex : ℕ) (c : DataSpace DIM) : Prop :=
  ∀ d, (getRelativeDirections DIM ex d = 1 → c d = M.gridSuperCells d - M.guardingSuperCells d) ∧
    (getRelativeDirections DIM ex d = -1 → c d = M.guardingSuperCells d - 1)

/-- A supercell in the grid of the neighbour in a direction, if all grids are alike. -/
def MappingDescription.imageInNeighbour (M : MappingDescription DIM) (ex : ℕ) (c : DataSpace DIM) : DataSpace DIM :=
  c - getRelativeDirections DIM ex * (M.gridSuperCells - 2 * M.guardingSuperCells)

/-- **The receiver finds the supercell of the sender.** -/
theorem extend_reduce_eq_image [DataSpaceOperations DIM] [LawfulDataSpaceOperations DIM] (hDIM : DIM ≤ 3)
    (hex : ex < 3 ^ DIM) (hpos : ex ≠ 0) (hc : M.touchesBorder ex c) :
    extend (reduce c ex) (mirrored ex) M.gridSuperCells M.guardingSuperCells = M.imageInNeighbour ex c := by
  rw [extend_reduce (mirrored_spec hDIM hex).2 fun h => hpos ((getRelativeDirections_eq_zero hex).mp h)]
  funext d
  obtain ⟨hup, hdown⟩ := hc d
  rw [borderLayer, Pi.neg_apply]
  show _ = c d - getRelativeDirections DIM ex d * (M.gridSuperCells d - 2 * M.guardingSuperCells d)
  rcases getRelativeDirections_mem DIM ex d with h | h | h <;> rw [h]
  · rw [if_neg (by decide), if_pos (by decide), hdown h]
    ring
  · rw [if_pos (by decide)]
    ring
  · rw [if_neg (by decide), if_neg (by decide), hup h]
    ring

/-- It is on the side of the border that the exchange comes from. -/
theorem imageInNeighbour_mem (hM : M.HoldsBorder) (hc : c ∈ M.exchanged .GUARD ex) (htouch : M.touchesBorder ex c) :
    M.imageInNeighbour ex c ∈ M.inner 1 := by
  rw [exchanged_guard] at hc
  intro d
  obtain ⟨hup, hdown⟩ := htouch d
  have hd := hc d
  have hborder := hM d
  show 1 * M.guardingSuperCells d ≤ c d - getRelativeDirections DIM ex d * (M.gridSuperCells d - 2 * M.guardingSuperCells d) ∧
    c d - getRelativeDirections DIM ex d * (M.gridSuperCells d - 2 * M.guardingSuperCells d) <
      M.gridSuperCells d - 1 * M.guardingSuperCells d
  rcases getRelativeDirections_mem DIM ex d with h | h | h <;> rw [h] at hd hup hdown ⊢ <;> simp [zoneRange] at hd hup hdown <;>
    omega

end Image

end Mappings
end Spearhed
