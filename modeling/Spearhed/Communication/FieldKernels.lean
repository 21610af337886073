import Mathlib.Algebra.BigOperators.Group.List.Basic
import Mathlib.Tactic.LinearCombination
import Spearhed.Communication.ExchangeRegions
import Spearhed.Library.MessageExchange

/-!
# The kernels of the additive field exchange

`CopyGuardToExchange` copies the guard cells of a direction to an exchange, and `AddExchangeToBorder`
adds an exchange to the border.  Both run over the guard supercells of their direction, a block per
supercell and a worker per cell, and skip the cells that are outside the exchange width.

The two work on the cells of the exchange, each once and whatever the order of the workers
(`runCopy_eq`, `runAdd_eq`), provided that the guard and the interior are made of whole supercells.
-/

namespace Spearhed
namespace Communication

open Library Mappings MappingDescription

variable {DIM : ℕ} {V : Type}

/-- A block and a cell of its supercell. -/
abbrev Worker (DIM : ℕ) : Type := DataSpace DIM × DataSpace DIM

section Kernels

variable (M : MappingDescription DIM) (SuperCellSize exchangeSize : DataSpace DIM) (exchangeType : ℕ)

/-- The first cell of the supercell of a block. -/
def blockCell (blockIdx : DataSpace DIM) : DataSpace DIM :=
  fun d => M.exchangeSuperCellIndex .GUARD exchangeType blockIdx d * SuperCellSize d

/-- Where a worker is relative to the first cell of the direction. -/
def targetInGuard (worker : Worker DIM) : DataSpace DIM :=
  blockCell M SuperCellSize exchangeType worker.1 + worker.2 - blockCell M SuperCellSize exchangeType 0

/-- The same offset, from the supercell and the cell in it. -/
def offsetInGuard (worker : Worker DIM) : DataSpace DIM := fun d =>
  (targetInGuard M SuperCellSize exchangeType worker d).tdiv (SuperCellSize d) * SuperCellSize d + worker.2 d

/-- The guard cells outside the exchange width. -/
def skippedCells : DataSpace DIM := fun d => M.guardingSuperCells d * SuperCellSize d - exchangeSize d

/-- The cell of the exchange a worker writes and the cell of the field it reads. -/
def copyCells (worker : Worker DIM) : Option (DataSpace DIM × DataSpace DIM) :=
  let direction := getRelativeDirections DIM exchangeType
  let offset := offsetInGuard M SuperCellSize exchangeType worker
  let skipped := skippedCells M SuperCellSize exchangeSize
  if ∀ d, ¬ (direction d = -1 ∧ offset d < skipped d) ∧ ¬ (direction d = 1 ∧ offset d ≥ exchangeSize d) then
    some (fun d =>
      if direction d = -1 then targetInGuard M SuperCellSize exchangeType worker d - skipped d
      else targetInGuard M SuperCellSize exchangeType worker d,
      blockCell M SuperCellSize exchangeType worker.1 + worker.2)
  else none

/-- The cell of the field a worker adds to and the cell of the exchange it reads. -/
def addCells (worker : Worker DIM) : Option (DataSpace DIM × DataSpace DIM) :=
  let direction := getRelativeDirections DIM exchangeType
  let offset := offsetInGuard M SuperCellSize exchangeType worker
  let skipped := skippedCells M SuperCellSize exchangeSize
  let guardCells : DataSpace DIM := fun d => M.guardingSuperCells d * SuperCellSize d
  let cell := blockCell M SuperCellSize exchangeType worker.1 + worker.2
  if ∀ d, ¬ (direction d = 1 ∧ offset d < skipped d) ∧ ¬ (direction d = -1 ∧ offset d ≥ exchangeSize d) then
    some (fun d => if direction d = 1 then cell d - guardCells d else if direction d = -1 then cell d + guardCells d else cell d,
      fun d =>
        if direction d = 1 then targetInGuard M SuperCellSize exchangeType worker d - skipped d
        else targetInGuard M SuperCellSize exchangeType worker d)
  else none

def copyWorker (srcBox exchangeBox : DataSpace DIM → V) (worker : Worker DIM) : DataSpace DIM → V :=
  match copyCells M SuperCellSize exchangeSize exchangeType worker with
  | some (targetCell, sourceCell) => Function.update exchangeBox targetCell (srcBox sourceCell)
  | none => exchangeBox

def addWorker [Add V] (exchangeBox destBox : DataSpace DIM → V) (worker : Worker DIM) : DataSpace DIM → V :=
  match addCells M SuperCellSize exchangeSize exchangeType worker with
  | some (targetCell, sourceCell) => Function.update destBox targetCell (destBox targetCell + exchangeBox sourceCell)
  | none => destBox

/-- The workers of `KernelCopyGuardToExchange`, one after another. -/
def runCopy (workers : List (Worker DIM)) (srcBox exchangeBox : DataSpace DIM → V) : DataSpace DIM → V :=
  workers.foldl (copyWorker M SuperCellSize exchangeSize exchangeType srcBox) exchangeBox

/-- The workers of `KernelAddExchangeToBorder`, one after another. -/
def runAdd [Add V] (workers : List (Worker DIM)) (exchangeBox destBox : DataSpace DIM → V) : DataSpace DIM → V :=
  workers.foldl (addWorker M SuperCellSize exchangeSize exchangeType exchangeBox) destBox

/-- What a worker adds to a cell. -/
def addedBy [Zero V] (exchangeBox : DataSpace DIM → V) (worker : Worker DIM) (c : DataSpace DIM) : V :=
  match addCells M SuperCellSize exchangeSize exchangeType worker with
  | some (targetCell, sourceCell) => if c = targetCell then exchangeBox sourceCell else 0
  | none => 0

theorem addWorker_apply [AddCommMonoid V] (exchangeBox destBox : DataSpace DIM → V) (worker : Worker DIM) (c : DataSpace DIM) :
    addWorker M SuperCellSize exchangeSize exchangeType exchangeBox destBox worker c =
      destBox c + addedBy M SuperCellSize exchangeSize exchangeType exchangeBox worker c := by
  rw [addWorker, addedBy]
  cases addCells M SuperCellSize exchangeSize exchangeType worker with
  | none => exact (add_zero _).symm
  | some cells =>
    obtain ⟨targetCell, sourceCell⟩ := cells
    rcases eq_or_ne c targetCell with rfl | hne
    · simp
    · simp [hne]

/-- All workers of a launch, in some order. -/
structure IsLaunch (workers : List (Worker DIM)) : Prop where
  nodup : workers.Nodup
  mem_iff : ∀ worker, worker ∈ workers ↔
    worker.1 ∈ blocks (M.exchangeGridDim .GUARD exchangeType) ∧ worker.2 ∈ box 0 SuperCellSize

end Kernels

/-- A description whose guard and interior are those of the layout, in whole supercells. -/
structure WholeSuperCells (layout : GridLayout DIM) (SuperCellSize : DataSpace DIM) (M : MappingDescription DIM) : Prop where
  pos : ∀ d, 0 < SuperCellSize d
  guard : ∀ d, layout.guardSizeND d = M.guardingSuperCells d * SuperCellSize d
  size : ∀ d, layout.sizeND d = M.gridSuperCells d * SuperCellSize d

section Spec

variable {layout : GridLayout DIM} {SuperCellSize guardingCells : DataSpace DIM} {M : MappingDescription DIM} {e : ℕ}
variable {workers : List (Worker DIM)}

/-- A worker is a cell of the guard of its direction, counted from the first one. -/
def position (SuperCellSize : DataSpace DIM) (worker : Worker DIM) : DataSpace DIM :=
  fun d => worker.1 d * SuperCellSize d + worker.2 d

theorem position_inj {worker worker' : Worker DIM} (h : worker.2 ∈ box 0 SuperCellSize)
    (h' : worker'.2 ∈ box 0 SuperCellSize) (heq : position SuperCellSize worker = position SuperCellSize worker') :
    worker = worker' := by
  have haxis : ∀ d, worker.1 d = worker'.1 d ∧ worker.2 d = worker'.2 d := fun d =>
    eq_of_position (h d) (h' d) (congrFun heq d)
  exact Prod.ext (funext fun d => (haxis d).1) (funext fun d => (haxis d).2)

theorem exists_position (hpos : ∀ d, 0 < SuperCellSize d) {gridDim p : DataSpace DIM}
    (hp : ∀ d, 0 ≤ p d ∧ p d < gridDim d * SuperCellSize d) :
    ∃ worker : Worker DIM, worker.1 ∈ blocks gridDim ∧ worker.2 ∈ box 0 SuperCellSize ∧ position SuperCellSize worker = p := by
  refine ⟨(fun d => p d / SuperCellSize d, fun d => p d % SuperCellSize d), fun d => ⟨?_, ?_⟩, fun d => ⟨?_, ?_⟩, ?_⟩
  · exact Int.ediv_nonneg (hp d).1 (hpos d).le
  · exact Int.ediv_lt_of_lt_mul (hpos d) (hp d).2
  · exact Int.emod_nonneg _ (hpos d).ne'
  · exact Int.emod_lt_of_pos _ (hpos d)
  · exact funext fun d => Int.ediv_mul_add_emod (p d) (SuperCellSize d)

theorem targetInGuard_eq (worker : Worker DIM) : targetInGuard M SuperCellSize e worker = position SuperCellSize worker := by
  funext d
  have hshift := congrFun (exchangeSuperCellIndex_eq_add (M := M) .GUARD e worker.1) d
  simp only [targetInGuard, blockCell, position, Pi.sub_apply, Pi.add_apply, hshift, exchangeShift]
  ring

theorem offsetInGuard_eq (hpos : ∀ d, 0 < SuperCellSize d) {worker : Worker DIM} {gridDim : DataSpace DIM}
    (hblock : worker.1 ∈ blocks gridDim) (hcell : worker.2 ∈ box 0 SuperCellSize) :
    offsetInGuard M SuperCellSize e worker = position SuperCellSize worker := by
  funext d
  have hnonneg : 0 ≤ worker.1 d * SuperCellSize d + worker.2 d :=
    add_nonneg (mul_nonneg (hblock d).1 (hpos d).le) (hcell d).1
  have hquotient : (position SuperCellSize worker d).tdiv (SuperCellSize d) = worker.1 d := by
    rw [position, Int.tdiv_eq_ediv_of_nonneg hnonneg, add_comm, Int.add_mul_ediv_right _ _ (hpos d).ne',
      Int.ediv_eq_zero_of_lt (hcell d).1 (hcell d).2, zero_add]
  rw [offsetInGuard, targetInGuard_eq, hquotient]
  rfl

variable (hM : WholeSuperCells layout SuperCellSize M)
include hM

/-- The cells of the guard of a direction. -/
def guardExtent (layout : GridLayout DIM) (v : DataSpace DIM) : DataSpace DIM := layout.extent layout.guardSizeND v

theorem gridDim_mul (d : Fin DIM) : M.exchangeGridDim .GUARD e d * SuperCellSize d =
    guardExtent layout (getRelativeDirections DIM e) d := by
  have hguard := hM.guard d
  have hsize := hM.size d
  rw [GridLayout.sizeND, Pi.add_apply, Pi.add_apply] at hsize
  have hinterior : layout.sizeWithoutGuardND d = (M.gridSuperCells d - 2 * M.guardingSuperCells d) * SuperCellSize d := by
    linear_combination hsize - 2 * hguard
  simp only [exchangeGridDim, guardExtent, GridLayout.extent, hguard, hinterior]
  split_ifs <;> first | rfl | contradiction

theorem position_mem {worker : Worker DIM} (hblock : worker.1 ∈ blocks (M.exchangeGridDim .GUARD e))
    (hcell : worker.2 ∈ box 0 SuperCellSize) :
    position SuperCellSize worker ∈ box 0 (guardExtent layout (getRelativeDirections DIM e)) := fun d => by
  obtain ⟨hb0, hb1⟩ := hblock d
  obtain ⟨hc0, hc1⟩ := hcell d
  have hpos := (hM.pos d).le
  refine ⟨add_nonneg (mul_nonneg hb0 hpos) hc0, ?_⟩
  calc worker.1 d * SuperCellSize d + worker.2 d
      < worker.1 d * SuperCellSize d + SuperCellSize d := by linarith
    _ = (worker.1 d + 1) * SuperCellSize d := by ring
    _ ≤ M.exchangeGridDim .GUARD e d * SuperCellSize d := mul_le_mul_of_nonneg_right hb1 hpos
    _ = guardExtent layout (getRelativeDirections DIM e) d := gridDim_mul hM d

/-- The cell of a worker in the field. -/
theorem blockCell_add (worker : Worker DIM) : blockCell M SuperCellSize e worker.1 + worker.2 =
    layout.guardOffset layout.guardSizeND (getRelativeDirections DIM e) + position SuperCellSize worker := by
  funext d
  have hguard := hM.guard d
  have hsize := hM.size d
  rcases getRelativeDirections_mem DIM e d with h | h | h <;>
    simp [blockCell, exchangeSuperCellIndex, GridLayout.guardOffset, position, h, hguard, hsize] <;> ring

/-- How far the exchange is from the end of the guard that the workers start from. -/
def shift (layout : GridLayout DIM) (guardingCells : DataSpace DIM) (v : DataSpace DIM) (sign : ℤ) : DataSpace DIM :=
  fun d => if v d = sign then layout.guardSizeND d - guardingCells d else 0

variable (hfit : WidthsFit layout guardingCells)
include hfit

/-- A worker copies the guard cell it stands for, if that is in the exchange. -/
theorem copyCells_eq_some {worker : Worker DIM} (hblock : worker.1 ∈ blocks (M.exchangeGridDim .GUARD e))
    (hcell : worker.2 ∈ box 0 SuperCellSize) {t s : DataSpace DIM} :
    copyCells M SuperCellSize (layout.extent guardingCells (getRelativeDirections DIM e)) e worker = some (t, s) ↔
      t ∈ box 0 (layout.extent guardingCells (getRelativeDirections DIM e)) ∧
        s = layout.guardOffset guardingCells (getRelativeDirections DIM e) + t ∧
        position SuperCellSize worker = t + shift layout guardingCells (getRelativeDirections DIM e) (-1) := by
  have hposition := position_mem hM hblock hcell
  have hoffset := offsetInGuard_eq (e := e) (M := M) hM.pos hblock hcell
  rw [copyCells, hoffset, targetInGuard_eq, blockCell_add hM]
  generalize position SuperCellSize worker = p at hposition
  have hskipped : ∀ d, skippedCells M SuperCellSize (layout.extent guardingCells (getRelativeDirections DIM e)) d =
      layout.guardSizeND d - layout.extent guardingCells (getRelativeDirections DIM e) d := fun d => by
    rw [skippedCells, hM.guard]
  simp only [hskipped]
  constructor
  · intro h
    split at h
    · next hcopied =>
      obtain ⟨rfl, rfl⟩ := Prod.mk.inj (Option.some.inj h)
      refine ⟨fun d => ?_, funext fun d => ?_, funext fun d => ?_⟩
      all_goals
        have hd := hposition d
        have hcopied' := hcopied d
        have hguard := hfit.guard d
        rcases getRelativeDirections_mem DIM e d with h | h | h <;>
          simp [guardExtent, GridLayout.extent, GridLayout.guardOffset, shift, h] at hd hcopied' ⊢ <;> omega
    · cases h
  · rintro ⟨ht, rfl, rfl⟩
    rw [if_pos]
    · refine congrArg some (Prod.ext (funext fun d => ?_) (funext fun d => ?_))
      all_goals
        rcases getRelativeDirections_mem DIM e d with h | h | h <;>
          simp [GridLayout.extent, GridLayout.guardOffset, shift, h, add_comm]
    · intro d
      have hd := ht d
      rcases getRelativeDirections_mem DIM e d with h | h | h <;>
        simp [GridLayout.extent, shift, h] at hd ⊢ <;> omega

/-- A worker adds to the border cell its guard cell stands for, if that is in the exchange. -/
theorem addCells_eq_some {worker : Worker DIM} (hblock : worker.1 ∈ blocks (M.exchangeGridDim .GUARD e))
    (hcell : worker.2 ∈ box 0 SuperCellSize) {t s : DataSpace DIM} :
    addCells M SuperCellSize (layout.extent guardingCells (getRelativeDirections DIM e)) e worker = some (t, s) ↔
      s ∈ box 0 (layout.extent guardingCells (getRelativeDirections DIM e)) ∧
        t = layout.borderOffset guardingCells (getRelativeDirections DIM e) + s ∧
        position SuperCellSize worker = s + shift layout guardingCells (getRelativeDirections DIM e) 1 := by
  have hposition := position_mem hM hblock hcell
  have hoffset := offsetInGuard_eq (e := e) (M := M) hM.pos hblock hcell
  rw [addCells, hoffset, targetInGuard_eq, blockCell_add hM]
  generalize position SuperCellSize worker = p at hposition
  have hskipped : ∀ d, skippedCells M SuperCellSize (layout.extent guardingCells (getRelativeDirections DIM e)) d =
      layout.guardSizeND d - layout.extent guardingCells (getRelativeDirections DIM e) d := fun d => by
    rw [skippedCells, hM.guard]
  simp only [hskipped, ← hM.guard]
  constructor
  · intro h
    split at h
    · next hadded =>
      obtain ⟨rfl, rfl⟩ := Prod.mk.inj (Option.some.inj h)
      refine ⟨fun d => ?_, funext fun d => ?_, funext fun d => ?_⟩
      all_goals
        have hd := hposition d
        have hadded' := hadded d
        have hguard := hfit.guard d
        rcases getRelativeDirections_mem DIM e d with h | h | h <;>
          simp [guardExtent, GridLayout.extent, GridLayout.guardOffset, GridLayout.borderOffset, shift, h] at hd hadded' ⊢ <;>
          omega
    · cases h
  · rintro ⟨hs, rfl, rfl⟩
    rw [if_pos]
    · refine congrArg some (Prod.ext (funext fun d => ?_) (funext fun d => ?_))
      all_goals
        rcases getRelativeDirections_mem DIM e d with h | h | h <;>
          simp [GridLayout.extent, GridLayout.guardOffset, GridLayout.borderOffset, shift, h] <;> ring
    · intro d
      have hd := hs d
      rcases getRelativeDirections_mem DIM e d with h | h | h <;>
        simp [GridLayout.extent, shift, h] at hd ⊢ <;> omega

variable (hlaunch : IsLaunch M SuperCellSize e workers)
include hlaunch

/-- Some worker stands for every cell of the exchange. -/
theorem exists_worker {k : DataSpace DIM} (hk : k ∈ box 0 (layout.extent guardingCells (getRelativeDirections DIM e)))
    (sign : ℤ) (hsign : sign = -1 ∨ sign = 1) : ∃ worker ∈ workers,
      position SuperCellSize worker = k + shift layout guardingCells (getRelativeDirections DIM e) sign := by
  have hp : ∀ d, 0 ≤ (k + shift layout guardingCells (getRelativeDirections DIM e) sign) d ∧
      (k + shift layout guardingCells (getRelativeDirections DIM e) sign) d <
        M.exchangeGridDim .GUARD e d * SuperCellSize d := fun d => by
    have hd := hk d
    have hguard := hfit.guard d
    rw [gridDim_mul hM]
    rcases hsign with rfl | rfl <;> rcases getRelativeDirections_mem DIM e d with h | h | h <;>
      simp [guardExtent, GridLayout.extent, shift, h] at hd ⊢ <;> omega
  obtain ⟨worker, hblock, hcell, hposition⟩ := exists_position hM.pos hp
  exact ⟨worker, (hlaunch.mem_iff worker).mpr ⟨hblock, hcell⟩, hposition⟩

/-- **The copy kernel fills the exchange with the guard cells of its direction.** -/
theorem runCopy_eq {k : DataSpace DIM} (hk : k ∈ box 0 (layout.extent guardingCells (getRelativeDirections DIM e)))
    (srcBox exchangeBox : DataSpace DIM → V) :
    runCopy M SuperCellSize (layout.extent guardingCells (getRelativeDirections DIM e)) e workers srcBox exchangeBox k =
      srcBox (layout.guardOffset guardingCells (getRelativeDirections DIM e) + k) := by
  have hspec : ∀ worker ∈ workers, ∀ t s, _ := fun worker hworker t s =>
    copyCells_eq_some hM hfit ((hlaunch.mem_iff worker).mp hworker).1 ((hlaunch.mem_iff worker).mp hworker).2 (t := t) (s := s)
  obtain ⟨worker, hworker, hposition⟩ := exists_worker hM hfit hlaunch hk (-1) (Or.inl rfl)
  let R : Worker DIM → Set (DataSpace DIM) := fun worker =>
    {t | t ∈ box 0 (layout.extent guardingCells (getRelativeDirections DIM e)) ∧
      position SuperCellSize worker = t + shift layout guardingCells (getRelativeDirections DIM e) (-1)}
  refine (foldl_regions (l := workers) (R := R)
    (v := fun _ t => srcBox (layout.guardOffset guardingCells (getRelativeDirections DIM e) + t)) ?_ ?_ ?_ exchangeBox k).1
      worker hworker ⟨hk, hposition⟩
  · rintro worker hworker box t ⟨ht, hposition⟩
    rw [copyWorker, (hspec worker hworker t _).mpr ⟨ht, rfl, hposition⟩]
    exact Function.update_self _ _ _
  · intro worker hworker box t ht
    rw [copyWorker]
    cases hcells : copyCells M SuperCellSize (layout.extent guardingCells (getRelativeDirections DIM e)) e worker with
    | none => rfl
    | some cells =>
      obtain ⟨ht', -, hposition'⟩ := (hspec worker hworker cells.1 cells.2).mp hcells
      refine Function.update_of_ne (fun heq => ht ?_) _ _
      rw [heq]
      exact ⟨ht', hposition'⟩
  · intro worker hworker worker' hworker' hne
    refine Set.disjoint_left.mpr fun t ht ht' => hne ?_
    exact position_inj ((hlaunch.mem_iff worker).mp hworker).2 ((hlaunch.mem_iff worker').mp hworker').2 (ht.2.trans ht'.2.symm)

variable [AddCommMonoid V]

/-- **The add kernel adds every cell of the exchange once** to the border cell it stands for. -/
theorem runAdd_eq (exchangeBox destBox : DataSpace DIM → V) (c : DataSpace DIM)
    [Decidable (c ∈ layout.borderZone guardingCells (getRelativeDirections DIM e))] :
    runAdd M SuperCellSize (layout.extent guardingCells (getRelativeDirections DIM e)) e workers exchangeBox destBox c =
      destBox c + if c ∈ layout.borderZone guardingCells (getRelativeDirections DIM e) then
        exchangeBox (c - layout.borderOffset guardingCells (getRelativeDirections DIM e)) else 0 := by
  have hspec : ∀ worker ∈ workers, ∀ t s, _ := fun worker hworker t s =>
    addCells_eq_some hM hfit ((hlaunch.mem_iff worker).mp hworker).1 ((hlaunch.mem_iff worker).mp hworker).2 (t := t) (s := s)
  rw [runAdd, foldl_adds fun worker _ box t => addWorker_apply M SuperCellSize _ e exchangeBox box worker t,
    ← List.sum_toFinset _ hlaunch.nodup]
  congr 1
  split
  · next hc =>
    have hk : c - layout.borderOffset guardingCells (getRelativeDirections DIM e) ∈
        box 0 (layout.extent guardingCells (getRelativeDirections DIM e)) := fun d => by
      have hd := hc d
      simp only [Pi.add_apply, Pi.sub_apply, Pi.zero_apply] at hd ⊢
      omega
    obtain ⟨worker, hworker, hposition⟩ := exists_worker hM hfit hlaunch hk 1 (Or.inr rfl)
    rw [Finset.sum_eq_single_of_mem worker (List.mem_toFinset.mpr hworker) fun worker' hworker' hne => ?_]
    · rw [addedBy, (hspec worker hworker c _).mpr ⟨hk, by rw [add_sub_cancel], hposition⟩]
      exact if_pos rfl
    · rw [List.mem_toFinset] at hworker'
      rw [addedBy]
      split
      · next t' s' hcells =>
        obtain ⟨-, rfl, hposition'⟩ := (hspec worker' hworker' t' s').mp hcells
        refine if_neg fun heq => hne ?_
        rw [← eq_sub_iff_add_eq'.mpr heq.symm] at hposition
        exact position_inj ((hlaunch.mem_iff worker').mp hworker').2 ((hlaunch.mem_iff worker).mp hworker).2
          (hposition'.trans hposition.symm)
      · rfl
  · next hc =>
    refine Finset.sum_eq_zero fun worker hworker => ?_
    rw [List.mem_toFinset] at hworker
    rw [addedBy]
    split
    · next t' s' hcells =>
      obtain ⟨hs', rfl, -⟩ := (hspec worker hworker t' s').mp hcells
      refine if_neg fun heq => hc fun d => ?_
      have hd := hs' d
      simp only [heq, Pi.add_apply, Pi.zero_apply] at hd ⊢
      omega
    · rfl

end Spec

end Communication
end Spearhed
