import Mathlib.Data.Finset.Lattice.Fold
import Mathlib.Data.Fintype.BigOperators
import Mathlib.Order.Lattice.Nat
import Spearhed.Library.StepSystem
import Spearhed.SimulationControl.Signals

/-!
# The main loop and its signals

Every rank runs `startSimulation`: plugins, checkpoint and computation for step after step, and at
the end a barrier.  In between it calls `checkSignals`, which contributes to a non-blocking reduction
over all ranks when a signal has been received, and goes on; what the ranks have agreed on is known
to a rank when its continuation runs, at one of its later calls or while it waits for something.

A round of the reduction is its number in the order of the calls, the same on all ranks.  It has an
outcome once every rank has contributed.  Ranks wait for each other in barriers only, and the `i`-th
barrier one rank calls completes with the `i`-th barrier of all others, whichever barrier that is.
-/

namespace Spearhed
namespace SimulationControl

open Library

/-- `pluginSystem::Slice`; zero is not a valid period. -/
structure Slice where
  start : ℕ
  last : ℕ
  period : ℕ
  period_pos : 0 < period

/-- `Slice(step, step)`. -/
def Slice.single (step : ℕ) : Slice := ⟨step, step, 1, Nat.one_pos⟩

def Slice.contains (slice : Slice) (timeStep : ℕ) : Bool :=
  slice.start ≤ timeStep ∧ timeStep ≤ slice.last ∧ (timeStep - slice.start) % slice.period = 0

/-- `containsStep`. -/
def containsStep (seqTimeSlices : List Slice) (timeStep : ℕ) : Bool :=
  seqTimeSlices.any fun slice => slice.contains timeStep

/-- What all ranks are started with. -/
structure SimulationConfig where
  /-- A `uint32_t`. -/
  runSteps : ℕ
  runSteps_lt : runSteps < UInt32.size
  /-- What `fillSimulation` returns. -/
  startStep : ℕ
  /-- The restart state is `SUCCESS`. -/
  restarted : Bool
  seqCheckpointPeriod : List Slice

/-- What a rank sends to a round: `processAtStep` and `send`. -/
structure Contribution where
  processAtStep : ℕ
  stopSimulation : Bool
  createCheckpoint : Bool
  deriving DecidableEq

/-- What a round has agreed on. -/
structure SignalOutcome where
  commonStep : ℕ
  shouldStop : Bool
  shouldCheckpoint : Bool
  deriving DecidableEq

/-- A call of `barrier()` and where it stands. -/
inductive BarrierCall
  | beforeCheckpoint (step : ℕ)
  | afterCheckpoint (step : ℕ)
  | final
  deriving DecidableEq

/-- Where a rank is in `startSimulation`. -/
inductive LoopPhase
  /-- At the call of `notifyPlugins`. -/
  | notifyPlugins
  /-- At the call of `dumpOneStep`. -/
  | dumpOneStep
  /-- At the test of `dump`. -/
  | dump
  /-- In the barrier before the checkpoint plugins. -/
  | beforeCheckpoint
  /-- In the barrier after them. -/
  | afterCheckpoint
  /-- At the test of the main loop. -/
  | loopTest
  /-- In the barrier after the main loop. -/
  | finalBarrier
  | finished
  deriving DecidableEq

/-- One rank.  The last four fields are its history: what it has contributed, the outcomes its
continuations have handled, the checkpoints it has created and the barriers it has called. -/
structure RankState where
  phase : LoopPhase
  currentStep : ℕ
  runSteps : ℕ
  seqCheckpointPeriod : List Slice
  counts : SignalCounts
  gSignalLocked : Bool
  /-- `signalCompletion` is pending. -/
  signalPending : Bool
  contributions : List Contribution
  handled : List SignalOutcome
  checkpoints : List ℕ
  barriers : List BarrierCall

namespace RankState

/-- `checkSignals` after `runReady`. -/
def checkSignals (p : RankState) (gaps : LoadGaps) : RankState :=
  if p.signalPending then p
  else if p.gSignalLocked then p
  else
    let reads := p.counts.read gaps
    if reads.received then
      { p with
        counts := reads.counts
        gSignalLocked := true
        signalPending := true
        contributions := p.contributions ++
          [⟨(p.currentStep + 1) % UInt32.size, reads.stopSimulation, reads.createCheckpoint⟩] }
    else { p with counts := reads.counts }

/-- The continuation of `checkSignals`. -/
def continuation (p : RankState) (outcome : SignalOutcome) : RankState :=
  { p with
    seqCheckpointPeriod :=
      if outcome.shouldCheckpoint then p.seqCheckpointPeriod ++ [.single outcome.commonStep] else p.seqCheckpointPeriod
    runSteps := if outcome.shouldStop then outcome.commonStep else p.runSteps
    counts := if p.gSignalLocked then p.counts.release outcome.shouldCheckpoint outcome.shouldStop else p.counts
    gSignalLocked := false
    handled := p.handled ++ [outcome] }

/-- `Checkpointing::dump` up to its first barrier. -/
def dump (p : RankState) : RankState :=
  if containsStep p.seqCheckpointPeriod p.currentStep then
    { p with phase := .beforeCheckpoint, barriers := p.barriers ++ [.beforeCheckpoint p.currentStep] }
  else { p with phase := .loopTest }

/-- The test of the main loop, and the step it leads to. -/
def loopTest (p : RankState) : RankState :=
  if p.currentStep < p.runSteps then { p with phase := .notifyPlugins, currentStep := p.currentStep + 1 }
  else { p with phase := .finalBarrier, barriers := p.barriers ++ [.final] }

/-- A rank that leaves the barrier it waits in. -/
def leaveBarrier (p : RankState) : RankState :=
  match p.phase with
  | .beforeCheckpoint =>
      { p with
        phase := .afterCheckpoint
        checkpoints := p.checkpoints ++ [p.currentStep]
        barriers := p.barriers ++ [.afterCheckpoint p.currentStep] }
  | .afterCheckpoint => { p with phase := .loopTest }
  | _ => { p with phase := .finished }

/-- In a barrier. -/
def waiting (p : RankState) : Bool :=
  p.phase = .beforeCheckpoint ∨ p.phase = .afterCheckpoint ∨ p.phase = .finalBarrier

end RankState

/-- `startSimulation` before the main loop. -/
def SimulationConfig.initial (cfg : SimulationConfig) : RankState where
  phase := if cfg.restarted then .loopTest else .notifyPlugins
  currentStep := cfg.startStep
  runSteps := cfg.runSteps
  seqCheckpointPeriod := cfg.seqCheckpointPeriod
  counts := ⟨0, 0⟩
  gSignalLocked := false
  signalPending := false
  contributions := []
  handled := []
  checkpoints := []
  barriers := []

variable {Rank : Type}

/-- All ranks. -/
abbrev World (Rank : Type) := Rank → RankState

/-- One step of one rank. -/
inductive LoopAction (Rank : Type)
  /-- Signals arrive. -/
  | signal (r : Rank) (arrivals : Arrivals)
  /-- The continuation runs. -/
  | continuation (r : Rank)
  /-- `signalCompletion` becomes ready after the continuation. -/
  | completion (r : Rank)
  | notifyPlugins (r : Rank) (gaps : LoadGaps)
  | dumpOneStep (r : Rank) (gaps : LoadGaps)
  | dump (r : Rank)
  | leaveBarrier (r : Rank)
  | loopTest (r : Rank)
  /-- `checkSignals` in the barrier after the main loop. -/
  | poll (r : Rank) (gaps : LoadGaps)

section Rounds

variable [Fintype Rank]

/-- Everybody has contributed to a round. -/
def World.Complete (w : World Rank) (round : ℕ) : Prop := ∀ r, round < (w r).contributions.length

instance (w : World Rank) (round : ℕ) : Decidable (w.Complete round) :=
  inferInstanceAs (Decidable (∀ r, round < (w r).contributions.length))

/-- The largest step that has been contributed to a round. -/
def World.maximum (w : World Rank) (round : ℕ) : ℕ :=
  Finset.univ.sup fun r => ((w r).contributions[round]?).elim 0 Contribution.processAtStep

/-- How many ranks have contributed a flag to a round. -/
def World.sum (w : World Rank) (round : ℕ) (flag : Contribution → Bool) : ℕ :=
  ∑ r, ((w r).contributions[round]?).elim 0 fun contribution => (flag contribution).toNat

/-- Both reductions of a round. -/
def World.outcome (w : World Rank) (round : ℕ) : Option SignalOutcome :=
  if w.Complete round then
    some
      { commonStep := w.maximum round
        shouldStop := w.sum round Contribution.stopSimulation = Fintype.card Rank
        shouldCheckpoint := w.sum round Contribution.createCheckpoint = Fintype.card Rank }
  else none

/-- The barrier a rank waits in has been called by all ranks. -/
def World.BarrierOpen (w : World Rank) (r : Rank) : Prop := ∀ q, (w r).barriers.length ≤ (w q).barriers.length

instance (w : World Rank) (r : Rank) : Decidable (w.BarrierOpen r) :=
  inferInstanceAs (Decidable (∀ q, (w r).barriers.length ≤ (w q).barriers.length))

end Rounds

section Step

variable [Fintype Rank] [DecidableEq Rank]

/-- The rank of an action and its state afterwards. -/
def LoopAction.next (w : World Rank) : LoopAction Rank → Option (Rank × RankState)
  | signal r arrivals => some (r, { w r with counts := (w r).counts.arrive arrivals })
  | continuation r =>
      if (w r).handled.length < (w r).contributions.length then
        (w.outcome (w r).handled.length).map fun outcome => (r, (w r).continuation outcome)
      else none
  | completion r =>
      if (w r).handled.length = (w r).contributions.length then some (r, { w r with signalPending := false }) else none
  | notifyPlugins r gaps =>
      if (w r).phase = .notifyPlugins then some (r, { (w r).checkSignals gaps with phase := .dumpOneStep }) else none
  | dumpOneStep r gaps =>
      if (w r).phase = .dumpOneStep then some (r, { (w r).checkSignals gaps with phase := .dump }) else none
  | dump r => if (w r).phase = .dump then some (r, (w r).dump) else none
  | leaveBarrier r => if (w r).waiting ∧ w.BarrierOpen r then some (r, (w r).leaveBarrier) else none
  | loopTest r => if (w r).phase = .loopTest then some (r, (w r).loopTest) else none
  | poll r gaps => if (w r).phase = .finalBarrier then some (r, (w r).checkSignals gaps) else none

/-- One step. -/
def LoopAction.run (a : LoopAction Rank) (w : World Rank) : Option (World Rank) :=
  (a.next w).map fun next => Function.update w next.1 next.2

/-- The simulation on all ranks. -/
def mainLoop (cfg : SimulationConfig) : StepSystem (World Rank) where
  init w := w = fun _ => cfg.initial
  step w w' := ∃ a : LoopAction Rank, a.run w = some w'

end Step

end SimulationControl
end Spearhed
