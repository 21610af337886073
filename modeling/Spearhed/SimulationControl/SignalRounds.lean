import Mathlib.Data.List.Infix
import Spearhed.SimulationControl.SimulationHelper

/-!
# Rounds and what they change

What the ranks have agreed on in a list of rounds determines the last step and the checkpoints of a
rank that has handled them.  `RankInv` describes one rank by the rounds that everybody has contributed
to: ranks may have handled fewer of them, but then the step the next one agrees on lies ahead.  The
largest step contributed to a round so far is all that a rank's invariant needs of the other ranks.
-/

namespace Spearhed
namespace SimulationControl

open Library

/-! ## Agreed rounds -/

namespace SimulationConfig

variable (cfg : SimulationConfig)

/-- The run steps after some rounds. -/
def runStepsAfter (rounds : List SignalOutcome) : ℕ :=
  rounds.foldl (fun runSteps outcome => if outcome.shouldStop then outcome.commonStep else runSteps) cfg.runSteps

/-- The checkpoint slices after some rounds. -/
def slicesAfter (rounds : List SignalOutcome) : List Slice :=
  cfg.seqCheckpointPeriod ++ (rounds.filter fun outcome => outcome.shouldCheckpoint).map fun outcome => .single outcome.commonStep

/-- The first step that is dumped. -/
def firstDump : ℕ := if cfg.restarted then cfg.startStep + 1 else cfg.startStep

/-- The checkpoints before a step. -/
def dueSteps (rounds : List SignalOutcome) (step : ℕ) : List ℕ :=
  (List.range' cfg.firstDump (step - cfg.firstDump)).filter fun c => containsStep (cfg.slicesAfter rounds) c

/-- The barriers of these checkpoints. -/
def dueBarriers (rounds : List SignalOutcome) (step : ℕ) : List BarrierCall :=
  (cfg.dueSteps rounds step).flatMap fun c => [.beforeCheckpoint c, .afterCheckpoint c]

section Rounds

variable {cfg} {rounds : List SignalOutcome} {outcome : SignalOutcome} {step : ℕ}

theorem runStepsAfter_concat :
    cfg.runStepsAfter (rounds ++ [outcome]) = if outcome.shouldStop then outcome.commonStep else cfg.runStepsAfter rounds := by
  rw [runStepsAfter, List.foldl_append]
  rfl

theorem slicesAfter_concat :
    cfg.slicesAfter (rounds ++ [outcome]) =
      if outcome.shouldCheckpoint then cfg.slicesAfter rounds ++ [.single outcome.commonStep] else cfg.slicesAfter rounds := by
  unfold slicesAfter
  rw [List.filter_append, List.map_append, ← List.append_assoc]
  cases h : outcome.shouldCheckpoint <;> simp [h]

theorem contains_single {start : ℕ} : (Slice.single start).contains step = true ↔ step = start := by
  simp only [Slice.contains, Slice.single, Nat.mod_one, and_true, decide_eq_true_eq]
  exact ⟨fun h => le_antisymm h.2 h.1, fun h => ⟨h.ge, h.le⟩⟩

theorem containsStep_append {slices slices' : List Slice} :
    containsStep (slices ++ slices') step = (containsStep slices step || containsStep slices' step) :=
  List.any_append

/-- A round changes nothing before its step. -/
theorem containsStep_concat_of_lt (h : step < outcome.commonStep) :
    containsStep (cfg.slicesAfter (rounds ++ [outcome])) step = containsStep (cfg.slicesAfter rounds) step := by
  rw [slicesAfter_concat]
  split
  · have hsingle : containsStep [.single outcome.commonStep] step = false := by
      rw [containsStep, List.any_cons, List.any_nil, Bool.or_false, Bool.eq_false_iff, Ne, contains_single]
      exact Nat.ne_of_lt h
    rw [containsStep_append, hsingle, Bool.or_false]
  · rfl

theorem dueSteps_concat_of_le (h : step ≤ outcome.commonStep) :
    cfg.dueSteps (rounds ++ [outcome]) step = cfg.dueSteps rounds step := by
  refine List.filter_congr fun c hc => ?_
  have hlt : c < outcome.commonStep := by
    obtain ⟨hfirst, hc⟩ := List.mem_range'_1.mp hc
    omega
  exact containsStep_concat_of_lt hlt

theorem mem_dueSteps {c : ℕ} : c ∈ cfg.dueSteps rounds step ↔
    (cfg.firstDump ≤ c ∧ c < step) ∧ containsStep (cfg.slicesAfter rounds) c = true := by
  rw [dueSteps, List.mem_filter, List.mem_range'_1]
  refine and_congr_left fun _ => ?_
  omega

theorem dueSteps_succ (h : cfg.firstDump ≤ step) :
    cfg.dueSteps rounds (step + 1) =
      cfg.dueSteps rounds step ++ if containsStep (cfg.slicesAfter rounds) step then [step] else [] := by
  have hrange : List.range' cfg.firstDump (step + 1 - cfg.firstDump) =
      List.range' cfg.firstDump (step - cfg.firstDump) ++ [step] := by
    rw [Nat.sub_add_comm h, List.range'_concat, Nat.one_mul, Nat.add_sub_cancel' h]
  rw [dueSteps, dueSteps, hrange, List.filter_append]
  cases hcontains : containsStep (cfg.slicesAfter rounds) step <;> simp [hcontains]

theorem dueBarriers_succ (h : cfg.firstDump ≤ step) :
    cfg.dueBarriers rounds (step + 1) =
      cfg.dueBarriers rounds step ++
        if containsStep (cfg.slicesAfter rounds) step then [.beforeCheckpoint step, .afterCheckpoint step] else [] := by
  rw [dueBarriers, dueSteps_succ h, List.flatMap_append, dueBarriers]
  split <;> rfl

theorem dueBarriers_prefix {step' : ℕ} (h : step ≤ step') : cfg.dueBarriers rounds step <+: cfg.dueBarriers rounds step' := by
  induction step', h using Nat.le_induction with
  | base => exact List.prefix_rfl
  | succ n hn ih =>
    rcases le_or_gt cfg.firstDump n with hfirst | hfirst
    · rw [dueBarriers_succ hfirst]
      exact ih.trans (List.prefix_append _ _)
    · have hnone : cfg.dueBarriers rounds (n + 1) = cfg.dueBarriers rounds n := by
        rw [dueBarriers, dueBarriers, dueSteps, dueSteps, Nat.sub_eq_zero_of_le hfirst, Nat.sub_eq_zero_of_le hfirst.le]
      rwa [hnone]

end Rounds

end SimulationConfig

/-! ## One rank -/

namespace RankState

/-- The first step whose checkpoint test is still ahead. -/
def frontier (p : RankState) : ℕ :=
  match p.phase with
  | .notifyPlugins => p.currentStep
  | .dumpOneStep => p.currentStep
  | .dump => p.currentStep
  | _ => p.currentStep + 1

/-- The first step whose checkpoint has not been created. -/
def dumped (p : RankState) : ℕ :=
  match p.phase with
  | .notifyPlugins => p.currentStep
  | .dumpOneStep => p.currentStep
  | .dump => p.currentStep
  | .beforeCheckpoint => p.currentStep
  | _ => p.currentStep + 1

/-- The main loop is over. -/
def Left (p : RankState) : Prop := p.phase = .finalBarrier ∨ p.phase = .finished

/-- A contribution whose continuation has not run. -/
def Outstanding (p : RankState) : Prop := p.handled.length < p.contributions.length

/-- A call of `checkSignals` contributes to the next round. -/
def Contributes (p : RankState) (gaps : LoadGaps) : Prop :=
  p.signalPending = false ∧ p.gSignalLocked = false ∧ (p.counts.read gaps).received = true

/-- The barriers a rank has called by now. -/
def barrierLog (cfg : SimulationConfig) (rounds : List SignalOutcome) (p : RankState) : List BarrierCall :=
  cfg.dueBarriers rounds p.dumped ++
    match p.phase with
    | .beforeCheckpoint => [.beforeCheckpoint p.currentStep]
    | .finalBarrier => [.final]
    | .finished => [.final]
    | _ => []

theorem dumped_le_frontier (p : RankState) : p.dumped ≤ p.frontier := by
  unfold dumped frontier
  cases p.phase <;> simp

theorem currentStep_le_frontier (p : RankState) : p.currentStep ≤ p.frontier := by
  unfold frontier
  cases p.phase <;> simp

theorem frontier_le (p : RankState) : p.frontier ≤ p.currentStep + 1 := by
  unfold frontier
  cases p.phase <;> simp

end RankState

/-- What holds of a rank when everybody has contributed to `rounds`; `maximum` is the largest step that
has been contributed to each round. -/
structure RankInv (cfg : SimulationConfig) (rounds : List SignalOutcome) (maximum : ℕ → ℕ) (p : RankState) : Prop where
  handled : p.handled <+: rounds
  contributed : rounds.length ≤ p.contributions.length
  atMostOne : p.contributions.length ≤ p.handled.length + 1
  runSteps_eq : p.runSteps = cfg.runStepsAfter p.handled
  slices_eq : p.seqCheckpointPeriod = cfg.slicesAfter p.handled
  locked : p.gSignalLocked = true ↔ p.Outstanding
  pending : p.Outstanding → p.signalPending = true
  current_le : p.currentStep ≤ p.runSteps
  /-- The step of an outstanding round lies ahead. -/
  ahead : p.Outstanding → p.frontier ≤ maximum p.handled.length
  bounded : ∀ k c, p.contributions[k]? = some c → c.processAtStep ≤ cfg.runStepsAfter (rounds.take k)
  ordered : p.contributions.Pairwise fun c c' => c.processAtStep ≤ c'.processAtStep
  recent : ∀ c ∈ p.contributions, c.processAtStep ≤ p.currentStep + 1
  late : ∀ c ∈ p.contributions, cfg.firstDump ≤ c.processAtStep
  counts : p.counts.Nonneg
  /-- Contributed signals are still counted. -/
  counted : ∀ c, p.contributions[p.handled.length]? = some c →
    (c.createCheckpoint.toNat : ℤ) ≤ p.counts.createCheckpoint ∧ (c.stopSimulation.toNat : ℤ) ≤ p.counts.stopSimulation
  left : p.Left → p.currentStep = p.runSteps ∧ ¬ p.Outstanding
  started : cfg.firstDump ≤ p.dumped
  due : p.phase = .beforeCheckpoint → containsStep (cfg.slicesAfter rounds) p.currentStep = true
  checkpoints : p.checkpoints = cfg.dueSteps rounds p.dumped
  barriers : p.barriers = p.barrierLog cfg rounds

namespace RankInv

variable {cfg : SimulationConfig} {rounds : List SignalOutcome} {maximum : ℕ → ℕ} {p : RankState}

theorem initial (hstart : cfg.startStep ≤ cfg.runSteps) (maximum : ℕ → ℕ) : RankInv cfg [] maximum cfg.initial := by
  have hdumped : cfg.initial.dumped = cfg.firstDump := by
    unfold RankState.dumped SimulationConfig.initial SimulationConfig.firstDump
    cases cfg.restarted <;> rfl
  have hnone : cfg.dueSteps [] cfg.firstDump = [] := by
    rw [SimulationConfig.dueSteps, Nat.sub_self]
    rfl
  have hphase : cfg.initial.phase = .notifyPlugins ∨ cfg.initial.phase = .loopTest := by
    unfold SimulationConfig.initial
    cases cfg.restarted
    · exact Or.inl rfl
    · exact Or.inr rfl
  exact {
    handled := List.prefix_rfl
    contributed := le_refl 0
    atMostOne := Nat.zero_le 1
    runSteps_eq := rfl
    slices_eq := (List.append_nil _).symm
    locked := iff_of_false Bool.false_ne_true (lt_irrefl 0)
    pending := fun h => absurd h (lt_irrefl 0)
    current_le := hstart
    ahead := fun h => absurd h (lt_irrefl 0)
    bounded := fun k c hc => absurd hc (by simp [SimulationConfig.initial])
    ordered := List.Pairwise.nil
    recent := fun c hc => absurd hc List.not_mem_nil
    late := fun c hc => absurd hc List.not_mem_nil
    counts := ⟨le_refl 0, le_refl 0⟩
    counted := fun c hc => absurd hc (by simp [SimulationConfig.initial])
    left := by
      rintro (h | h) <;> rcases hphase with h' | h' <;> rw [h] at h' <;> exact absurd h' (by simp)
    started := hdumped.ge
    due := fun h => by rcases hphase with h' | h' <;> rw [h] at h' <;> exact absurd h' (by simp)
    checkpoints := by
      rw [hdumped, hnone]
      rfl
    barriers := by
      rw [RankState.barrierLog, hdumped, SimulationConfig.dueBarriers, hnone]
      rcases hphase with h | h <;> rw [h] <;> rfl }

/-- Signals arrive. -/
theorem signal (h : RankInv cfg rounds maximum p) (arrivals : Arrivals) :
    RankInv cfg rounds maximum { p with counts := p.counts.arrive arrivals } :=
  { h with
    counts := h.counts.arrive arrivals
    counted := fun c hc => ⟨(h.counted c hc).1.trans (le_add_of_nonneg_right (Int.natCast_nonneg _)),
      (h.counted c hc).2.trans (le_add_of_nonneg_right (Int.natCast_nonneg _))⟩ }

theorem completion (h : RankInv cfg rounds maximum p) (hdone : p.handled.length = p.contributions.length) :
    RankInv cfg rounds maximum { p with signalPending := false } :=
  { h with pending := fun hout => absurd hout (Nat.not_lt.mpr hdone.ge) }

/-- Where a rank that has nothing outstanding is. -/
theorem handled_eq (h : RankInv cfg rounds maximum p) (hout : ¬ p.Outstanding) :
    p.handled = rounds ∧ p.contributions.length = rounds.length := by
  have hle : p.contributions.length ≤ p.handled.length := not_lt.mp hout
  have heq : p.handled = rounds := h.handled.eq_of_length_le (h.contributed.trans hle)
  exact ⟨heq, le_antisymm (hle.trans_eq (congrArg List.length heq)) h.contributed⟩

/-- A rank that has contributed to a complete round it has not handled. -/
theorem rounds_eq (h : RankInv cfg rounds maximum p) (hlt : p.handled.length < rounds.length) :
    ∃ outcome, rounds = p.handled ++ [outcome] ∧ p.Outstanding := by
  obtain ⟨rest, hrest⟩ := h.handled
  have hlength : p.handled.length + rest.length = rounds.length := by rw [← hrest, List.length_append]
  have hone : rest.length = 1 := by
    have hcontributed := h.contributed
    have hatMostOne := h.atMostOne
    omega
  obtain ⟨outcome, rfl⟩ := List.length_eq_one_iff.mp hone
  exact ⟨outcome, hrest.symm, hlt.trans_le h.contributed⟩

/-- The continuation of the next round. -/
theorem continuation (h : RankInv cfg rounds maximum p) (hout : p.Outstanding) {outcome : SignalOutcome}
    (hrounds : rounds = p.handled ++ [outcome]) (hmaximum : maximum p.handled.length = outcome.commonStep)
    (hflags : ∀ c, p.contributions[p.handled.length]? = some c →
      (outcome.shouldCheckpoint = true → c.createCheckpoint = true) ∧
        (outcome.shouldStop = true → c.stopSimulation = true)) :
    RankInv cfg rounds maximum (p.continuation outcome) := by
  have hlocked : p.gSignalLocked = true := h.locked.mpr hout
  have hdone : ¬ (p.continuation outcome).Outstanding := by
    have hatMostOne := h.atMostOne
    have hlength : (p.continuation outcome).handled.length = p.handled.length + 1 := List.length_append
    exact fun h' => absurd (hlength ▸ h') (Nat.not_lt.mpr hatMostOne)
  have hcounts : (p.counts.release outcome.shouldCheckpoint outcome.shouldStop).Nonneg := by
    obtain ⟨c, hc⟩ : ∃ c, p.contributions[p.handled.length]? = some c := ⟨_, List.getElem?_eq_getElem hout⟩
    obtain ⟨hcheckpoint, hstop⟩ := h.counted c hc
    obtain ⟨hcheckpoint', hstop'⟩ := hflags c hc
    refine ⟨?_, ?_⟩
    · refine sub_nonneg.mpr (le_trans ?_ hcheckpoint)
      cases hflag : outcome.shouldCheckpoint with
      | false => exact Int.natCast_nonneg _
      | true => rw [hcheckpoint' hflag]
    · refine sub_nonneg.mpr (le_trans ?_ hstop)
      cases hflag : outcome.shouldStop with
      | false => exact Int.natCast_nonneg _
      | true => rw [hstop' hflag]
  exact { h with
    handled := hrounds ▸ List.prefix_rfl
    atMostOne := (not_lt.mp hdone).trans (Nat.le_succ _)
    runSteps_eq := by
      rw [RankState.continuation, SimulationConfig.runStepsAfter_concat, h.runSteps_eq]
    slices_eq := by
      rw [RankState.continuation, SimulationConfig.slicesAfter_concat, h.slices_eq]
    locked := iff_of_false Bool.false_ne_true hdone
    pending := fun h' => absurd h' hdone
    current_le := by
      unfold RankState.continuation
      dsimp only
      split
      · exact (p.currentStep_le_frontier.trans (h.ahead hout)).trans_eq hmaximum
      · exact h.current_le
    ahead := fun h' => absurd h' hdone
    counts := by
      unfold RankState.continuation
      rw [if_pos hlocked]
      exact hcounts
    counted := fun c hc => absurd (List.getElem?_eq_some_iff.mp hc).1 hdone
    left := fun hleft => absurd hout (h.left hleft).2 }

/-- A call of `checkSignals` that contributes nothing. -/
theorem quiet (h : RankInv cfg rounds maximum p) {gaps : LoadGaps} (hquiet : ¬ p.Contributes gaps) :
    RankInv cfg rounds maximum (p.checkSignals gaps) := by
  unfold RankState.checkSignals
  split
  · exact h
  · next hpending =>
    split
    · exact h
    · next hlocked =>
      have hdone : ¬ p.Outstanding := fun hout => hlocked (h.locked.mpr hout)
      dsimp only
      split
      · next hreceived =>
        exact absurd ⟨Bool.eq_false_iff.mpr hpending, Bool.eq_false_iff.mpr hlocked, hreceived⟩ hquiet
      · exact { h with
          counts := h.counts.read gaps
          counted := fun c hc => absurd (List.getElem?_eq_some_iff.mp hc).1 hdone }

/-- Another rank contributes, which may complete the next round. -/
theorem extend {rounds' : List SignalOutcome} {maximum' : ℕ → ℕ} (h : RankInv cfg rounds maximum p)
    (hmaximum : ∀ k, maximum k ≤ maximum' k)
    (hrounds : rounds' = rounds ∨ ∃ outcome, rounds' = rounds ++ [outcome] ∧
      rounds.length < p.contributions.length ∧ outcome.commonStep = maximum' rounds.length) :
    RankInv cfg rounds' maximum' p := by
  rcases hrounds with rfl | ⟨outcome, rfl, hcontributed, hcommon⟩
  · exact { h with ahead := fun hout => (h.ahead hout).trans (hmaximum _) }
  · have hhandled : p.handled.length = rounds.length :=
      le_antisymm h.handled.length_le (Nat.lt_succ_iff.mp (hcontributed.trans_le h.atMostOne))
    have hout : p.Outstanding := hhandled.trans_lt hcontributed
    have hahead : p.frontier ≤ outcome.commonStep := by
      rw [hcommon, ← hhandled]
      exact (h.ahead hout).trans (hmaximum _)
    have hdue : cfg.dueSteps (rounds ++ [outcome]) p.dumped = cfg.dueSteps rounds p.dumped :=
      SimulationConfig.dueSteps_concat_of_le (p.dumped_le_frontier.trans hahead)
    exact { h with
      handled := h.handled.trans (List.prefix_append _ _)
      contributed := by
        rw [List.length_append]
        exact hcontributed
      ahead := fun hout => (h.ahead hout).trans (hmaximum _)
      bounded := fun k c hc => by
        have hlt := (List.getElem?_eq_some_iff.mp hc).1
        have hk : k ≤ rounds.length := Nat.lt_succ_iff.mp (hlt.trans_le (h.atMostOne.trans_eq (congrArg Nat.succ hhandled)))
        rw [List.take_append_of_le_length hk]
        exact h.bounded k c hc
      due := fun hphase => by
        have hfrontier : p.frontier = p.currentStep + 1 := by
          rw [RankState.frontier, hphase]
        rw [SimulationConfig.containsStep_concat_of_lt (hfrontier.symm.trans_le hahead)]
        exact h.due hphase
      checkpoints := h.checkpoints.trans hdue.symm
      barriers := by
        rw [RankState.barrierLog, SimulationConfig.dueBarriers, hdue]
        exact h.barriers }

/-- Contributions do not decrease. -/
theorem ordered_of_lt (h : RankInv cfg rounds maximum p) {k k' : ℕ} (hlt : k < k') {c c' : Contribution}
    (hc : p.contributions[k]? = some c) (hc' : p.contributions[k']? = some c') : c.processAtStep ≤ c'.processAtStep := by
  obtain ⟨hk, rfl⟩ := List.getElem?_eq_some_iff.mp hc
  obtain ⟨hk', rfl⟩ := List.getElem?_eq_some_iff.mp hc'
  exact List.pairwise_iff_getElem.mp h.ordered k k' hk hk' hlt

/-- What a contribution changes. -/
theorem checkSignals_of_contributes {gaps : LoadGaps} (hcontributes : p.Contributes gaps)
    (horderly : p.currentStep < p.runSteps) (hwrap : p.runSteps < UInt32.size) :
    p.checkSignals gaps = { p with
      counts := (p.counts.read gaps).counts
      gSignalLocked := true
      signalPending := true
      contributions := p.contributions ++
        [⟨p.currentStep + 1, (p.counts.read gaps).stopSimulation, (p.counts.read gaps).createCheckpoint⟩] } := by
  obtain ⟨hpending, hlocked, hreceived⟩ := hcontributes
  have hstep : (p.currentStep + 1) % UInt32.size = p.currentStep + 1 :=
    Nat.mod_eq_of_lt (Nat.lt_of_le_of_lt horderly hwrap)
  unfold RankState.checkSignals
  rw [if_neg (Bool.eq_false_iff.mp hpending), if_neg (Bool.eq_false_iff.mp hlocked), hstep]
  exact if_pos hreceived

theorem handled_of_contributes (h : RankInv cfg rounds maximum p) {gaps : LoadGaps} (hcontributes : p.Contributes gaps) :
    ¬ p.Outstanding ∧ p.handled = rounds ∧ p.contributions.length = rounds.length := by
  have hdone : ¬ p.Outstanding := fun hout => Bool.false_ne_true (hcontributes.2.1.symm.trans (h.locked.mpr hout))
  exact ⟨hdone, h.handled_eq hdone⟩

theorem contributions_eq (h : RankInv cfg rounds maximum p) {gaps : LoadGaps} (hcontributes : p.Contributes gaps)
    (horderly : p.currentStep < p.runSteps) (hwrap : p.runSteps < UInt32.size) :
    ∃ c, (p.checkSignals gaps).contributions = p.contributions ++ [c] ∧ c.processAtStep = p.currentStep + 1 ∧
      p.contributions.length = rounds.length := by
  rw [checkSignals_of_contributes hcontributes horderly hwrap]
  exact ⟨_, rfl, rfl, (h.handled_of_contributes hcontributes).2.2⟩

/-- The contribution of a rank, before the round may be complete. -/
theorem contribute {maximum' : ℕ → ℕ} (h : RankInv cfg rounds maximum p) {gaps : LoadGaps} (hcontributes : p.Contributes gaps)
    (horderly : p.currentStep < p.runSteps) (hwrap : p.runSteps < UInt32.size)
    (hmaximum : p.currentStep + 1 ≤ maximum' rounds.length) : RankInv cfg rounds maximum' (p.checkSignals gaps) := by
  obtain ⟨hdone, hhandled, hlength⟩ := h.handled_of_contributes hcontributes
  have hbound : p.currentStep + 1 ≤ cfg.runStepsAfter rounds := by
    rw [← hhandled, ← h.runSteps_eq]
    exact horderly
  rw [checkSignals_of_contributes hcontributes horderly hwrap]
  have hgrown : ∀ c : Contribution, (p.contributions ++ [c]).length = p.contributions.length + 1 := fun c => List.length_append
  have hout : ∀ c : Contribution, p.handled.length < (p.contributions ++ [c]).length := fun c => by
    rw [hgrown, hlength, hhandled]
    exact Nat.lt_succ_self _
  refine { h with
    contributed := (h.contributed.trans (Nat.le_succ _)).trans_eq (hgrown _).symm
    atMostOne := ?_
    locked := iff_of_true rfl (hout _)
    pending := fun _ => rfl
    ahead := fun _ => ?_
    bounded := ?_
    ordered := ?_
    recent := ?_
    late := ?_
    counts := h.counts.read gaps
    counted := ?_
    left := fun hleft => absurd (h.left hleft).1 (Nat.ne_of_lt horderly) }
  · rw [hgrown, hlength, hhandled]
  · rw [congrArg List.length hhandled]
    exact p.frontier_le.trans hmaximum
  · intro k c hc
    rcases lt_or_ge k p.contributions.length with hk | hk
    · rw [List.getElem?_append_left hk] at hc
      exact h.bounded k c hc
    · rw [List.getElem?_append_right hk] at hc
      have hzero : k - p.contributions.length < 1 := (List.getElem?_eq_some_iff.mp hc).1
      have hk' : k = rounds.length := by omega
      rw [List.mem_singleton.mp (List.mem_of_getElem? hc), hk', List.take_length]
      exact hbound
  · refine List.pairwise_append.mpr ⟨h.ordered, List.pairwise_singleton _ _, fun c hc c' hc' => ?_⟩
    rw [List.mem_singleton.mp hc']
    exact h.recent c hc
  · intro c hc
    rcases List.mem_append.mp hc with hc | hc
    · exact h.recent c hc
    · rw [List.mem_singleton.mp hc]
  · intro c hc
    rcases List.mem_append.mp hc with hc | hc
    · exact h.late c hc
    · rw [List.mem_singleton.mp hc]
      exact h.started.trans (p.dumped_le_frontier.trans p.frontier_le)
  · intro c hc
    have hindex : p.handled.length = p.contributions.length := (congrArg List.length hhandled).trans hlength.symm
    rw [hindex, List.getElem?_concat_length] at hc
    rw [← Option.some.inj hc]
    exact h.counts.toNat_le_read gaps

/-- From plugins to the checkpoint test. -/
theorem advance (h : RankInv cfg rounds maximum p) {phase : LoopPhase}
    (hphase : p.phase = .notifyPlugins ∧ phase = .dumpOneStep ∨ p.phase = .dumpOneStep ∧ phase = .dump) :
    RankInv cfg rounds maximum { p with phase := phase } := by
  have hfrontier : ({ p with phase := phase } : RankState).frontier = p.frontier := by
    rcases hphase with ⟨h₁, rfl⟩ | ⟨h₁, rfl⟩ <;> rw [RankState.frontier, RankState.frontier, h₁]
  have hdumped : ({ p with phase := phase } : RankState).dumped = p.dumped := by
    rcases hphase with ⟨h₁, rfl⟩ | ⟨h₁, rfl⟩ <;> rw [RankState.dumped, RankState.dumped, h₁]
  have hlog : ({ p with phase := phase } : RankState).barrierLog cfg rounds = p.barrierLog cfg rounds := by
    rw [RankState.barrierLog, RankState.barrierLog, hdumped]
    rcases hphase with ⟨h₁, rfl⟩ | ⟨h₁, rfl⟩ <;> rw [h₁]
  exact { h with
    ahead := fun hout => hfrontier.trans_le (h.ahead hout)
    left := by rcases hphase with ⟨-, rfl⟩ | ⟨-, rfl⟩ <;> rintro (hleft | hleft) <;> exact absurd hleft (by simp)
    started := h.started.trans_eq hdumped.symm
    due := by rcases hphase with ⟨-, rfl⟩ | ⟨-, rfl⟩ <;> exact fun hdue => absurd hdue (by simp)
    checkpoints := by rw [hdumped, ← h.checkpoints]
    barriers := hlog ▸ h.barriers }

/-- A rank tests for the checkpoints that all ranks see, unless it runs ahead of an outstanding round. -/
theorem containsStep_eq (h : RankInv cfg rounds maximum p)
    (hcommon : ∀ outcome, rounds = p.handled ++ [outcome] → maximum p.handled.length = outcome.commonStep)
    (horderly : p.Outstanding → p.currentStep < maximum p.handled.length) :
    containsStep p.seqCheckpointPeriod p.currentStep = containsStep (cfg.slicesAfter rounds) p.currentStep := by
  rw [h.slices_eq]
  rcases lt_or_ge p.handled.length rounds.length with hlt | hge
  · obtain ⟨outcome, hrounds, hout⟩ := h.rounds_eq hlt
    have hbefore : p.currentStep < outcome.commonStep := (horderly hout).trans_eq (hcommon outcome hrounds)
    rw [hrounds, SimulationConfig.containsStep_concat_of_lt hbefore]
  · rw [h.handled.eq_of_length_le hge]

/-- The checkpoint test. -/
theorem dump (h : RankInv cfg rounds maximum p) (hphase : p.phase = .dump)
    (hcommon : ∀ outcome, rounds = p.handled ++ [outcome] → maximum p.handled.length = outcome.commonStep)
    (horderly : p.Outstanding → p.currentStep < maximum p.handled.length) : RankInv cfg rounds maximum p.dump := by
  have hdumped : p.dumped = p.currentStep := by rw [RankState.dumped, hphase]
  have hfirst : cfg.firstDump ≤ p.currentStep := h.started.trans_eq hdumped
  have hlog : p.barriers = cfg.dueBarriers rounds p.currentStep := by
    rw [h.barriers, RankState.barrierLog, hdumped, hphase]
    exact List.append_nil _
  have hcheckpoints : p.checkpoints = cfg.dueSteps rounds p.currentStep := by rw [h.checkpoints, hdumped]
  have hcontains := h.containsStep_eq hcommon horderly
  unfold RankState.dump
  split
  · next hdue =>
    exact { h with
      ahead := horderly
      left := by rintro (hleft | hleft) <;> exact absurd hleft (by simp)
      started := hfirst
      due := fun _ => hcontains.symm.trans hdue
      checkpoints := hcheckpoints
      barriers := congrArg (· ++ [BarrierCall.beforeCheckpoint p.currentStep]) hlog }
  · next hdue =>
    have hnot : containsStep (cfg.slicesAfter rounds) p.currentStep = false :=
      hcontains.symm.trans (Bool.eq_false_iff.mpr hdue)
    exact { h with
      ahead := horderly
      left := by rintro (hleft | hleft) <;> exact absurd hleft (by simp)
      started := hfirst.trans (Nat.le_succ _)
      due := fun hphase => absurd hphase (by simp)
      checkpoints := by
        refine hcheckpoints.trans (Eq.trans ?_ (SimulationConfig.dueSteps_succ hfirst).symm)
        rw [hnot]
        exact (List.append_nil _).symm
      barriers := by
        refine hlog.trans (Eq.trans ?_ (List.append_nil _).symm)
        refine Eq.trans ?_ (SimulationConfig.dueBarriers_succ hfirst).symm
        rw [hnot]
        exact (List.append_nil _).symm }

/-- A barrier opens. -/
theorem leaveBarrier (h : RankInv cfg rounds maximum p) (hwaiting : p.waiting = true) :
    RankInv cfg rounds maximum p.leaveBarrier := by
  rcases of_decide_eq_true hwaiting with hphase | hphase | hphase
  · have hdumped : p.dumped = p.currentStep := by rw [RankState.dumped, hphase]
    have hfirst : cfg.firstDump ≤ p.currentStep := h.started.trans_eq hdumped
    have hdue := h.due hphase
    have hfrontier : p.frontier = p.currentStep + 1 := by rw [RankState.frontier, hphase]
    have hlog : p.barriers = cfg.dueBarriers rounds p.currentStep ++ [.beforeCheckpoint p.currentStep] := by
      rw [h.barriers, RankState.barrierLog, hdumped, hphase]
    have heq : p.leaveBarrier = { p with
        phase := .afterCheckpoint
        checkpoints := p.checkpoints ++ [p.currentStep]
        barriers := p.barriers ++ [.afterCheckpoint p.currentStep] } := by
      rw [RankState.leaveBarrier, hphase]
    rw [heq]
    exact { h with
      ahead := fun hout => hfrontier.symm.trans_le (h.ahead hout)
      left := by rintro (hleft | hleft) <;> exact absurd hleft (by simp)
      started := hfirst.trans (Nat.le_succ _)
      due := fun hphase => absurd hphase (by simp)
      checkpoints := by
        refine Eq.trans ?_ (SimulationConfig.dueSteps_succ hfirst).symm
        rw [hdue, h.checkpoints, hdumped]
        rfl
      barriers := by
        refine Eq.trans ?_ (List.append_nil _).symm
        refine Eq.trans ?_ (SimulationConfig.dueBarriers_succ hfirst).symm
        rw [hdue, hlog, List.append_assoc]
        rfl }
  · have heq : p.leaveBarrier = { p with phase := .loopTest } := by
      rw [RankState.leaveBarrier, hphase]
    have hfrontier : p.frontier = p.currentStep + 1 := by rw [RankState.frontier, hphase]
    have hdumped : p.dumped = p.currentStep + 1 := by rw [RankState.dumped, hphase]
    rw [heq]
    exact { h with
      ahead := fun hout => hfrontier.symm.trans_le (h.ahead hout)
      left := by rintro (hleft | hleft) <;> exact absurd hleft (by simp)
      started := h.started.trans_eq hdumped
      due := fun hphase => absurd hphase (by simp)
      checkpoints := h.checkpoints.trans (congrArg _ hdumped)
      barriers := by
        refine h.barriers.trans ?_
        rw [RankState.barrierLog, RankState.barrierLog, hdumped, hphase]
        rfl }
  · have heq : p.leaveBarrier = { p with phase := .finished } := by
      rw [RankState.leaveBarrier, hphase]
    have hfrontier : p.frontier = p.currentStep + 1 := by rw [RankState.frontier, hphase]
    have hdumped : p.dumped = p.currentStep + 1 := by rw [RankState.dumped, hphase]
    rw [heq]
    exact { h with
      ahead := fun hout => hfrontier.symm.trans_le (h.ahead hout)
      left := fun _ => h.left (Or.inl hphase)
      started := h.started.trans_eq hdumped
      due := fun hphase => absurd hphase (by simp)
      checkpoints := h.checkpoints.trans (congrArg _ hdumped)
      barriers := by
        refine h.barriers.trans ?_
        rw [RankState.barrierLog, RankState.barrierLog, hdumped, hphase]
        rfl }

/-- The test of the main loop. -/
theorem loopTest (h : RankInv cfg rounds maximum p) (hphase : p.phase = .loopTest)
    (hmaximum : p.Outstanding → maximum p.handled.length ≤ p.runSteps) : RankInv cfg rounds maximum p.loopTest := by
  have hfrontier : p.frontier = p.currentStep + 1 := by rw [RankState.frontier, hphase]
  have hdumped : p.dumped = p.currentStep + 1 := by rw [RankState.dumped, hphase]
  have hlog : p.barriers = cfg.dueBarriers rounds (p.currentStep + 1) := by
    rw [h.barriers, RankState.barrierLog, hdumped, hphase]
    exact List.append_nil _
  unfold RankState.loopTest
  split
  · next hlt =>
    exact { h with
      current_le := hlt
      ahead := fun hout => hfrontier.symm.trans_le (h.ahead hout)
      recent := fun c hc => (h.recent c hc).trans (Nat.le_succ _)
      left := by rintro (hleft | hleft) <;> exact absurd hleft (by simp)
      started := h.started.trans_eq hdumped
      due := fun hphase => absurd hphase (by simp)
      checkpoints := h.checkpoints.trans (congrArg _ hdumped)
      barriers := hlog.trans (List.append_nil _).symm }
  · next hlt =>
    have hcurrent : p.currentStep = p.runSteps := le_antisymm h.current_le (not_lt.mp hlt)
    have hdone : ¬ p.Outstanding := fun hout => by
      have hahead := (h.ahead hout).trans (hmaximum hout)
      rw [hfrontier, ← hcurrent] at hahead
      exact Nat.not_succ_le_self _ hahead
    exact { h with
      ahead := fun hout => absurd hout hdone
      left := fun _ => ⟨hcurrent, hdone⟩
      started := h.started.trans_eq hdumped
      due := fun hphase => absurd hphase (by simp)
      checkpoints := h.checkpoints.trans (congrArg _ hdumped)
      barriers := congrArg (· ++ [BarrierCall.final]) hlog }

end RankInv

end SimulationControl
end Spearhed
