import Mathlib.Algebra.Order.Ring.Int

/-!
# Signals

`signal.cpp` counts the signals a process has received and has not handled yet.  The handlers may run
between any two loads of these counters, so a function that loads them more than once takes the
arrivals in between as an argument.
-/

namespace Spearhed
namespace SimulationControl

/-- `gStatusCreateCheckpoint` and `gStatusStopSimulation`. -/
@[ext] structure SignalCounts where
  createCheckpoint : ℤ
  stopSimulation : ℤ
  deriving DecidableEq

/-- Signals that arrive: `setCreateCheckpoint` and `setStopSimulation` so many times. -/
structure Arrivals where
  createCheckpoint : ℕ
  stopSimulation : ℕ
  deriving DecidableEq

namespace SignalCounts

/-- The signal handlers. -/
def arrive (counts : SignalCounts) (arrivals : Arrivals) : SignalCounts :=
  ⟨counts.createCheckpoint + arrivals.createCheckpoint, counts.stopSimulation + arrivals.stopSimulation⟩

/-- What `release` takes off the counters. -/
def release (counts : SignalCounts) (checkPointHandled stopSimulationHandled : Bool) : SignalCounts :=
  ⟨counts.createCheckpoint - checkPointHandled.toNat, counts.stopSimulation - stopSimulationHandled.toNat⟩

/-- No counter is negative. -/
def Nonneg (counts : SignalCounts) : Prop := 0 ≤ counts.createCheckpoint ∧ 0 ≤ counts.stopSimulation

theorem Nonneg.arrive {counts : SignalCounts} (h : counts.Nonneg) (arrivals : Arrivals) : (counts.arrive arrivals).Nonneg :=
  ⟨add_nonneg h.1 (Int.natCast_nonneg _), add_nonneg h.2 (Int.natCast_nonneg _)⟩

end SignalCounts

/-- What `received()`, `stopSimulation()` and `createCheckpoint()` return to one call of `checkSignals`. -/
structure SignalReads where
  received : Bool
  stopSimulation : Bool
  createCheckpoint : Bool
  /-- The counters afterwards. -/
  counts : SignalCounts

/-- The arrivals between the five loads in `checkSignals`. -/
structure LoadGaps where
  received : Arrivals
  between : Arrivals
  stop : Arrivals
  checkpoint : Arrivals

/-- The loads of `received()`, `stopSimulation()` and `createCheckpoint()`, in this order. -/
def SignalCounts.read (counts : SignalCounts) (gaps : LoadGaps) : SignalReads :=
  let counts₁ := counts.arrive gaps.received
  let counts₂ := counts₁.arrive gaps.between
  let counts₃ := counts₂.arrive gaps.stop
  let counts₄ := counts₃.arrive gaps.checkpoint
  if counts.createCheckpoint ≠ 0 ∨ counts₁.stopSimulation ≠ 0 then
    { received := true
      -- the simulation does not stop as long as there is more than one outstanding checkpoint signal
      stopSimulation := counts₂.stopSimulation ≠ 0 ∧ counts₃.createCheckpoint ≤ 1
      createCheckpoint := counts₄.createCheckpoint ≠ 0
      counts := counts₄ }
  else ⟨false, false, false, counts₁⟩

section Read

variable {counts : SignalCounts} (gaps : LoadGaps)

theorem SignalCounts.Nonneg.read (h : counts.Nonneg) : (counts.read gaps).counts.Nonneg := by
  unfold SignalCounts.read
  dsimp only
  split
  · exact (((h.arrive _).arrive _).arrive _).arrive _
  · exact h.arrive _

/-- A signal that was read is on its counter. -/
theorem SignalCounts.Nonneg.toNat_le_read (h : counts.Nonneg) :
    ((counts.read gaps).createCheckpoint.toNat : ℤ) ≤ (counts.read gaps).counts.createCheckpoint ∧
      ((counts.read gaps).stopSimulation.toNat : ℤ) ≤ (counts.read gaps).counts.stopSimulation := by
  have h₄ := h.read gaps
  unfold SignalCounts.read at h₄ ⊢
  dsimp only at h₄ ⊢
  split
  · next hreceived =>
    rw [if_pos hreceived] at h₄
    refine ⟨?_, ?_⟩
    · by_cases hload : (((((counts.arrive gaps.received).arrive gaps.between).arrive gaps.stop).arrive gaps.checkpoint).createCheckpoint ≠ 0)
      · rw [decide_eq_true hload]
        exact Int.add_one_le_iff.mpr (lt_of_le_of_ne h₄.1 hload.symm)
      · rw [decide_eq_false hload]
        exact h₄.1
    · by_cases hload : ((counts.arrive gaps.received).arrive gaps.between).stopSimulation ≠ 0 ∧
          (((counts.arrive gaps.received).arrive gaps.between).arrive gaps.stop).createCheckpoint ≤ 1
      · rw [decide_eq_true hload]
        have hpos : 0 < ((counts.arrive gaps.received).arrive gaps.between).stopSimulation :=
          lt_of_le_of_ne ((h.arrive _).arrive _).2 hload.1.symm
        have hle : (1 : ℤ) ≤ ((counts.arrive gaps.received).arrive gaps.between).stopSimulation := Int.add_one_le_iff.mpr hpos
        exact hle.trans ((le_add_of_nonneg_right (Int.natCast_nonneg _)).trans (le_add_of_nonneg_right (Int.natCast_nonneg _)))
      · rw [decide_eq_false hload]
        exact h₄.2
  · next hreceived =>
    rw [if_neg hreceived] at h₄
    exact h₄

end Read

end SimulationControl
end Spearhed
