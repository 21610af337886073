import Mathlib.Algebra.Order.BigOperators.Group.Finset
import Mathlib.Data.Finset.Max
import Spearhed.SimulationControl.SignalRounds

/-!
# Agreement on checkpoints and on the last step

A rank does not wait for the reduction it has contributed to, so it may have passed the agreed step
when it learns of it, and it may contribute in its last step, where the agreed step lies behind the
end.  In runs without such steps (`orderlyLoop`) all ranks create the same checkpoints, leave the main
loop at the same step and call the same barriers (`agreement_of_orderly`); in other runs they need not.
-/

namespace Spearhed
namespace SimulationControl

open Library

variable {Rank : Type} [Fintype Rank]

/-! ## Rounds of a world -/

section Worlds

variable {w w' : World Rank} {k : ℕ}

omit [Fintype Rank] in
theorem World.complete_iff : w.Complete k ↔ ∀ r, ((w r).contributions[k]?).isSome = true :=
  forall_congr' fun r => by rw [isSome_getElem?]

theorem World.maximum_congr (h : ∀ r, (w' r).contributions[k]? = (w r).contributions[k]?) : w'.maximum k = w.maximum k :=
  Finset.sup_congr rfl fun r _ => by rw [h r]

theorem World.outcome_congr (h : ∀ r, (w' r).contributions[k]? = (w r).contributions[k]?) : w'.outcome k = w.outcome k := by
  have hcomplete : w'.Complete k ↔ w.Complete k := by
    rw [World.complete_iff, World.complete_iff]
    exact forall_congr' fun r => by rw [h r]
  have hsum : ∀ flag, w'.sum k flag = w.sum k flag := fun flag =>
    Finset.sum_congr rfl fun r _ => by rw [h r]
  unfold World.outcome
  rw [World.maximum_congr h, hsum, hsum, if_congr hcomplete rfl rfl]

theorem World.le_maximum {r : Rank} {c : Contribution} (h : (w r).contributions[k]? = some c) :
    c.processAtStep ≤ w.maximum k := by
  have hle := Finset.le_sup (f := fun r => ((w r).contributions[k]?).elim 0 Contribution.processAtStep) (Finset.mem_univ r)
  rw [h] at hle
  exact hle

theorem World.maximum_le {bound : ℕ} (h : ∀ r c, (w r).contributions[k]? = some c → c.processAtStep ≤ bound) :
    w.maximum k ≤ bound := by
  refine Finset.sup_le fun r _ => ?_
  cases hc : (w r).contributions[k]? with
  | none => exact Nat.zero_le _
  | some c => exact h r c hc

/-- All ranks have contributed a flag. -/
theorem World.sum_eq_card_iff (flag : Contribution → Bool) :
    w.sum k flag = Fintype.card Rank ↔ ∀ r, ∃ c, (w r).contributions[k]? = some c ∧ flag c = true := by
  have hle : ∀ r, ((w r).contributions[k]?).elim 0 (fun contribution => (flag contribution).toNat) ≤ 1 := fun r => by
    cases (w r).contributions[k]? with
    | none => exact Nat.zero_le 1
    | some c => exact Bool.toNat_le _
  have hone : ∀ r, ((w r).contributions[k]?).elim 0 (fun contribution => (flag contribution).toNat) = 1 ↔
      ∃ c, (w r).contributions[k]? = some c ∧ flag c = true := fun r => by
    cases (w r).contributions[k]? with
    | none => simp
    | some c => cases h : flag c <;> simp [h]
  have hcard : Fintype.card Rank = ∑ _r : Rank, 1 := by rw [Finset.sum_const, Nat.nsmul_eq_mul, Nat.mul_one, Finset.card_univ]
  rw [World.sum, hcard, Finset.sum_eq_sum_iff_of_le fun r _ => hle r]
  exact ⟨fun h r => (hone r).mp (h r (Finset.mem_univ r)), fun h r _ => (hone r).mpr (h r)⟩

theorem World.outcome_eq_some {outcome : SignalOutcome} (h : w.outcome k = some outcome) :
    w.Complete k ∧ outcome.commonStep = w.maximum k ∧
      (outcome.shouldStop = true ↔ w.sum k Contribution.stopSimulation = Fintype.card Rank) ∧
        (outcome.shouldCheckpoint = true ↔ w.sum k Contribution.createCheckpoint = Fintype.card Rank) := by
  unfold World.outcome at h
  split at h
  · next hcomplete =>
    obtain rfl := Option.some.inj h
    exact ⟨hcomplete, rfl, decide_eq_true_iff, decide_eq_true_iff⟩
  · exact absurd h (by simp)

end Worlds

/-! ## The invariant -/

/-- The agreed steps do not exceed the run steps. -/
structure RoundsSound (cfg : SimulationConfig) (rounds : List SignalOutcome) : Prop where
  common_le : ∀ outcome ∈ rounds, outcome.commonStep ≤ cfg.runStepsAfter rounds
  runSteps_le : ∀ k, cfg.runStepsAfter (rounds.take k) ≤ cfg.runSteps

/-- The invariant of a world whose complete rounds are `rounds`. -/
structure WorldInv (cfg : SimulationConfig) (w : World Rank) (rounds : List SignalOutcome) : Prop where
  outcomes : ∀ k, rounds[k]? = w.outcome k
  sound : RoundsSound cfg rounds
  rank : ∀ r, RankInv cfg rounds w.maximum (w r)

section Invariant

variable {cfg : SimulationConfig} {w : World Rank} {rounds : List SignalOutcome} {r : Rank} {p : RankState}

theorem WorldInv.common (h : WorldInv cfg w rounds) {k : ℕ} {outcome : SignalOutcome} (hk : rounds[k]? = some outcome) :
    w.maximum k = outcome.commonStep :=
  (World.outcome_eq_some ((h.outcomes k).symm.trans hk)).2.1.symm

theorem WorldInv.common_next (h : WorldInv cfg w rounds) (r : Rank) (outcome : SignalOutcome)
    (hrounds : rounds = (w r).handled ++ [outcome]) : w.maximum (w r).handled.length = outcome.commonStep :=
  h.common (by rw [hrounds, List.getElem?_concat_length])

/-- What has been contributed to the next round of a rank is not beyond its run steps. -/
theorem WorldInv.maximum_le_runSteps (h : WorldInv cfg w rounds) (r : Rank) :
    w.maximum (w r).handled.length ≤ (w r).runSteps := by
  rw [(h.rank r).runSteps_eq]
  refine World.maximum_le fun q c hc => ?_
  obtain ⟨rest, hrest⟩ := (h.rank r).handled
  have htake : rounds.take (w r).handled.length = (w r).handled := by rw [← hrest, List.take_left]
  exact ((h.rank q).bounded _ c hc).trans_eq (congrArg _ htake)

theorem WorldInv.runSteps_lt (h : WorldInv cfg w rounds) : (w r).runSteps < UInt32.size := by
  obtain ⟨rest, hrest⟩ := (h.rank r).handled
  have hle := h.sound.runSteps_le (w r).handled.length
  rw [← hrest, List.take_left, ← (h.rank r).runSteps_eq] at hle
  exact hle.trans_lt cfg.runSteps_lt

/-- One more round, which agrees on a step that no earlier one is beyond. -/
theorem RoundsSound.concat (h : RoundsSound cfg rounds) {outcome : SignalOutcome}
    (hle : outcome.commonStep ≤ cfg.runStepsAfter rounds)
    (hge : ∀ outcome' ∈ rounds, outcome'.commonStep ≤ outcome.commonStep) : RoundsSound cfg (rounds ++ [outcome]) := by
  have hafter : outcome.commonStep ≤ cfg.runStepsAfter (rounds ++ [outcome]) := by
    rw [SimulationConfig.runStepsAfter_concat]
    split
    · exact le_rfl
    · exact hle
  refine ⟨fun outcome' houtcome' => ?_, fun k => ?_⟩
  · rcases List.mem_append.mp houtcome' with hmem | hmem
    · exact (hge outcome' hmem).trans hafter
    · rw [List.mem_singleton.mp hmem]
      exact hafter
  · rcases le_or_gt k rounds.length with hk | hk
    · rw [List.take_append_of_le_length hk]
      exact h.runSteps_le k
    · have hall := h.runSteps_le rounds.length
      rw [List.take_length] at hall
      rw [List.take_of_length_le (by rw [List.length_append]; exact hk), SimulationConfig.runStepsAfter_concat]
      split
      · exact hle.trans hall
      · exact hall

/-- One rank has contributed to a round. -/
structure Grown (w w' : World Rank) (r : Rank) (round : ℕ) (c : Contribution) : Prop where
  other : ∀ q, q ≠ r → w' q = w q
  contributions : (w' r).contributions = (w r).contributions ++ [c]
  length : (w r).contributions.length = round

section Grown

variable {w' : World Rank} {round k : ℕ} {c : Contribution}

omit [Fintype Rank] in
theorem Grown.getElem?_new (h : Grown w w' r round c) : (w' r).contributions[round]? = some c := by
  rw [h.contributions, ← h.length, List.getElem?_concat_length]

omit [Fintype Rank] in
theorem Grown.getElem?_before (h : Grown w w' r round c) (hk : k < round) (q : Rank) :
    (w' q).contributions[k]? = (w q).contributions[k]? := by
  classical
  rcases eq_or_ne q r with rfl | hne
  · rw [h.contributions, List.getElem?_append_left (hk.trans_eq h.length.symm)]
  · rw [h.other q hne]

theorem Grown.outcome_after (h : Grown w w' r round c) (hk : round < k) : w'.outcome k = none := by
  unfold World.outcome
  refine if_neg fun hcomplete => ?_
  have hlt := hcomplete r
  rw [h.contributions, List.length_append, h.length] at hlt
  exact absurd (Nat.lt_succ_iff.mp hlt) (Nat.not_le.mpr hk)

theorem Grown.maximum_le (h : Grown w w' r round c) (k : ℕ) : w.maximum k ≤ w'.maximum k :=
  World.maximum_le fun q c' hc' => World.le_maximum (r := q) <| by
    classical
    rcases eq_or_ne q r with rfl | hne
    · rw [h.contributions, List.getElem?_append_left (List.getElem?_eq_some_iff.mp hc').1, hc']
    · rw [h.other q hne, hc']

end Grown

variable [DecidableEq Rank]

/-- A step in which nothing is contributed. -/
theorem WorldInv.update (h : WorldInv cfg w rounds) (hsame : p.contributions = (w r).contributions)
    (hp : RankInv cfg rounds w.maximum p) : WorldInv cfg (Function.update w r p) rounds := by
  have hcontributions : ∀ q, (Function.update w r p q).contributions = (w q).contributions := fun q => by
    rcases eq_or_ne q r with rfl | hne
    · rw [Function.update_self, hsame]
    · rw [Function.update_of_ne hne]
  have hmaximum : World.maximum (Function.update w r p) = w.maximum :=
    funext fun k => World.maximum_congr fun q => by rw [hcontributions q]
  refine ⟨fun k => ?_, h.sound, fun q => ?_⟩
  · rw [h.outcomes k]
    exact (World.outcome_congr fun q => by rw [hcontributions q]).symm
  · rw [hmaximum]
    rcases eq_or_ne q r with rfl | hne
    · rw [Function.update_self]
      exact hp
    · rw [Function.update_of_ne hne]
      exact h.rank q

/-- The next round may be complete now. -/
theorem WorldInv.contribute (h : WorldInv cfg w rounds) {gaps : LoadGaps} (hcontributes : (w r).Contributes gaps)
    (horderly : (w r).currentStep < (w r).runSteps) :
    ∃ rounds', WorldInv cfg (Function.update w r ((w r).checkSignals gaps)) rounds' := by
  obtain ⟨c, hcontributions, hstep, hlength⟩ := (h.rank r).contributions_eq hcontributes horderly h.runSteps_lt
  obtain ⟨w', hw⟩ : ∃ w' : World Rank, w' = Function.update w r ((w r).checkSignals gaps) := ⟨_, rfl⟩
  have hself : w' r = (w r).checkSignals gaps := by rw [hw, Function.update_self]
  have hgrown : Grown w w' r rounds.length c :=
    ⟨fun q hne => by rw [hw, Function.update_of_ne hne], by rw [hself, hcontributions], hlength⟩
  have hle : (w r).currentStep + 1 ≤ w'.maximum rounds.length := hstep.symm.trans_le (World.le_maximum hgrown.getElem?_new)
  have hrank : ∀ q, RankInv cfg rounds w'.maximum (w' q) := fun q => by
    rcases eq_or_ne q r with rfl | hne
    · rw [hself]
      exact (h.rank q).contribute hcontributes horderly h.runSteps_lt hle
    · rw [hgrown.other q hne]
      exact (h.rank q).extend hgrown.maximum_le (Or.inl rfl)
  rw [← hw]
  cases houtcome : w'.outcome rounds.length with
  | none =>
    refine ⟨rounds, fun k => ?_, h.sound, hrank⟩
    rcases lt_trichotomy k rounds.length with hk | rfl | hk
    · rw [h.outcomes k, World.outcome_congr (hgrown.getElem?_before hk)]
    · rw [houtcome, List.getElem?_eq_none le_rfl]
    · rw [hgrown.outcome_after hk, List.getElem?_eq_none hk.le]
  | some outcome =>
    obtain ⟨hcomplete, hcommon, -, -⟩ := World.outcome_eq_some houtcome
    refine ⟨rounds ++ [outcome], fun k => ?_, ?_, fun q => ?_⟩
    · rcases lt_trichotomy k rounds.length with hk | rfl | hk
      · rw [List.getElem?_append_left hk, h.outcomes k, World.outcome_congr (hgrown.getElem?_before hk)]
      · rw [houtcome, List.getElem?_concat_length]
      · rw [hgrown.outcome_after hk, List.getElem?_eq_none]
        rw [List.length_append]
        exact hk
    · refine h.sound.concat ?_ fun outcome' houtcome' => ?_
      · rw [hcommon]
        refine World.maximum_le fun q c' hc' => ?_
        exact ((hrank q).bounded _ c' hc').trans_eq (congrArg _ List.take_length)
      · obtain ⟨k, hk, rfl⟩ := List.mem_iff_getElem.mp houtcome'
        rw [hcommon, ← h.common (List.getElem?_eq_getElem hk)]
        refine World.maximum_le fun q c' hc' => ?_
        rw [← hgrown.getElem?_before hk q] at hc'
        obtain ⟨c'', hc''⟩ : ∃ c'', (w' q).contributions[rounds.length]? = some c'' :=
          ⟨_, List.getElem?_eq_getElem (hcomplete q)⟩
        exact ((hrank q).ordered_of_lt hk hc' hc'').trans (World.le_maximum hc'')
    · exact (hrank q).extend (fun _ => le_rfl) (Or.inr ⟨outcome, rfl, hcomplete q, hcommon⟩)

end Invariant

/-! ## Orderly runs -/

section Orderly

variable [DecidableEq Rank] {cfg : SimulationConfig} {w w' : World Rank} {rounds : List SignalOutcome}

/-- The condition on a step: nobody contributes in its last step, and nobody passes a step with a
contribution outstanding unless a later step has been contributed to that round. -/
def LoopAction.Orderly (w : World Rank) : LoopAction Rank → Prop
  | notifyPlugins r gaps => (w r).Contributes gaps → (w r).currentStep < (w r).runSteps
  | dumpOneStep r gaps => (w r).Contributes gaps → (w r).currentStep < (w r).runSteps
  | poll r gaps => (w r).Contributes gaps → (w r).currentStep < (w r).runSteps
  | dump r => (w r).Outstanding → (w r).currentStep < w.maximum (w r).handled.length
  | _ => True

/-- The runs all of whose steps are orderly. -/
def orderlyLoop (cfg : SimulationConfig) : StepSystem (World Rank) where
  init := (mainLoop cfg).init
  step w w' := ∃ a : LoopAction Rank, a.Orderly w ∧ a.run w = some w'

/-- A call of `checkSignals`. -/
theorem WorldInv.checkSignals (h : WorldInv cfg w rounds) (r : Rank) (gaps : LoadGaps)
    (horderly : (w r).Contributes gaps → (w r).currentStep < (w r).runSteps) :
    ∃ rounds', WorldInv cfg (Function.update w r ((w r).checkSignals gaps)) rounds' := by
  by_cases hcontributes : (w r).Contributes gaps
  · exact h.contribute hcontributes (horderly hcontributes)
  · refine ⟨rounds, h.update ?_ ((h.rank r).quiet hcontributes)⟩
    unfold RankState.checkSignals
    split
    · rfl
    · split
      · rfl
      · dsimp only
        split
        · next hpending hlocked hreceived =>
          exact absurd ⟨Bool.eq_false_iff.mpr hpending, Bool.eq_false_iff.mpr hlocked, hreceived⟩ hcontributes
        · rfl

theorem phase_checkSignals (p : RankState) (gaps : LoadGaps) : (p.checkSignals gaps).phase = p.phase := by
  unfold RankState.checkSignals
  split
  · rfl
  · split
    · rfl
    · dsimp only
      split <;> rfl

/-- `checkSignals`, and on to the next phase. -/
theorem WorldInv.advance (h : WorldInv cfg w rounds) (r : Rank) (gaps : LoadGaps) {phase : LoopPhase}
    (horderly : (w r).Contributes gaps → (w r).currentStep < (w r).runSteps)
    (hphase : (w r).phase = .notifyPlugins ∧ phase = .dumpOneStep ∨ (w r).phase = .dumpOneStep ∧ phase = .dump) :
    ∃ rounds', WorldInv cfg (Function.update w r { (w r).checkSignals gaps with phase := phase }) rounds' := by
  obtain ⟨rounds', h'⟩ := h.checkSignals r gaps horderly
  have hrank := h'.rank r
  rw [Function.update_self] at hrank
  rw [← phase_checkSignals (w r) gaps] at hphase
  have hupdate := h'.update (r := r) (p := { (w r).checkSignals gaps with phase := phase })
    (by rw [Function.update_self]) (hrank.advance hphase)
  rw [Function.update_idem] at hupdate
  exact ⟨rounds', hupdate⟩

/-- **One orderly step.** -/
theorem WorldInv.step (h : WorldInv cfg w rounds) {a : LoopAction Rank} (horderly : a.Orderly w) (hrun : a.run w = some w') :
    ∃ rounds', WorldInv cfg w' rounds' := by
  obtain ⟨⟨r, p⟩, hnext, rfl⟩ := Option.map_eq_some_iff.mp hrun
  cases a with
  | signal q arrivals =>
    obtain ⟨rfl, rfl⟩ := Prod.mk.inj (Option.some.inj hnext)
    exact ⟨rounds, h.update rfl ((h.rank _).signal arrivals)⟩
  | continuation q =>
    obtain ⟨hout, hnext⟩ := Option.ite_none_right_eq_some.mp hnext
    obtain ⟨outcome, houtcome, hnext⟩ := Option.map_eq_some_iff.mp hnext
    obtain ⟨rfl, rfl⟩ := Prod.mk.inj hnext
    refine ⟨rounds, h.update rfl ?_⟩
    have hround : rounds[(w q).handled.length]? = some outcome := (h.outcomes _).trans houtcome
    obtain ⟨outcome', hrounds, -⟩ := (h.rank q).rounds_eq (List.getElem?_eq_some_iff.mp hround).1
    obtain rfl : outcome' = outcome := by
      rw [hrounds, List.getElem?_concat_length] at hround
      exact Option.some.inj hround
    obtain ⟨-, hcommon, hstop, hcheckpoint⟩ := World.outcome_eq_some houtcome
    refine (h.rank q).continuation hout hrounds hcommon.symm fun c hc => ⟨fun hflag => ?_, fun hflag => ?_⟩
    · obtain ⟨c', hc', hflag'⟩ := (World.sum_eq_card_iff _).mp (hcheckpoint.mp hflag) q
      rwa [Option.some.inj (hc.symm.trans hc')]
    · obtain ⟨c', hc', hflag'⟩ := (World.sum_eq_card_iff _).mp (hstop.mp hflag) q
      rwa [Option.some.inj (hc.symm.trans hc')]
  | completion q =>
    obtain ⟨hdone, hnext⟩ := Option.ite_none_right_eq_some.mp hnext
    obtain ⟨rfl, rfl⟩ := Prod.mk.inj (Option.some.inj hnext)
    exact ⟨rounds, h.update rfl ((h.rank _).completion hdone)⟩
  | notifyPlugins q gaps =>
    obtain ⟨hphase, hnext⟩ := Option.ite_none_right_eq_some.mp hnext
    obtain ⟨rfl, rfl⟩ := Prod.mk.inj (Option.some.inj hnext)
    exact h.advance _ gaps horderly (Or.inl ⟨hphase, rfl⟩)
  | dumpOneStep q gaps =>
    obtain ⟨hphase, hnext⟩ := Option.ite_none_right_eq_some.mp hnext
    obtain ⟨rfl, rfl⟩ := Prod.mk.inj (Option.some.inj hnext)
    exact h.advance _ gaps horderly (Or.inr ⟨hphase, rfl⟩)
  | dump q =>
    obtain ⟨hphase, hnext⟩ := Option.ite_none_right_eq_some.mp hnext
    obtain ⟨rfl, rfl⟩ := Prod.mk.inj (Option.some.inj hnext)
    refine ⟨rounds, h.update ?_ ((h.rank _).dump hphase (h.common_next _) horderly)⟩
    unfold RankState.dump
    split <;> rfl
  | leaveBarrier q =>
    obtain ⟨⟨hwaiting, -⟩, hnext⟩ := Option.ite_none_right_eq_some.mp hnext
    obtain ⟨rfl, rfl⟩ := Prod.mk.inj (Option.some.inj hnext)
    refine ⟨rounds, h.update ?_ ((h.rank _).leaveBarrier hwaiting)⟩
    unfold RankState.leaveBarrier
    split <;> rfl
  | loopTest q =>
    obtain ⟨hphase, hnext⟩ := Option.ite_none_right_eq_some.mp hnext
    obtain ⟨rfl, rfl⟩ := Prod.mk.inj (Option.some.inj hnext)
    refine ⟨rounds, h.update ?_ ((h.rank _).loopTest hphase fun _ => h.maximum_le_runSteps _)⟩
    unfold RankState.loopTest
    split <;> rfl
  | poll q gaps =>
    obtain ⟨-, hnext⟩ := Option.ite_none_right_eq_some.mp hnext
    obtain ⟨rfl, rfl⟩ := Prod.mk.inj (Option.some.inj hnext)
    exact h.checkSignals _ gaps horderly

/-- **A whole orderly run.** -/
theorem worldInv_of_reachable [Nonempty Rank] (hstart : cfg.startStep ≤ cfg.runSteps)
    (h : (orderlyLoop cfg).Reachable w) : ∃ rounds, WorldInv cfg w rounds := by
  refine h.invariant (P := fun w => ∃ rounds, WorldInv cfg w rounds) ?_ ?_
  · rintro w rfl
    refine ⟨[], fun k => ?_, ⟨fun _ hmem => absurd hmem List.not_mem_nil, fun k => ?_⟩, fun _ => RankInv.initial hstart _⟩
    · unfold World.outcome
      exact (if_neg fun hcomplete => absurd (hcomplete (Classical.arbitrary Rank)) (Nat.not_lt_zero k)).symm
    · rw [List.take_nil]
      exact le_rfl
  · rintro w w' - ⟨rounds, hinv⟩ ⟨a, horderly, hrun⟩
    exact hinv.step horderly hrun

end Orderly

/-! ## Agreement -/

section Agreement

/-- The ranks agree. -/
structure Agreement (cfg : SimulationConfig) (w : World Rank) : Prop where
  /-- A step both have dumped is a checkpoint of both or of none. -/
  checkpoints : ∀ r q step, step < (w r).dumped → step < (w q).dumped → (step ∈ (w r).checkpoints ↔ step ∈ (w q).checkpoints)
  /-- The main loop ends at the same step on all ranks, with the same checkpoints. -/
  left : ∀ r q, (w r).Left → (w q).Left →
    (w r).currentStep = (w q).currentStep ∧ (w r).checkpoints = (w q).checkpoints
  bounded : ∀ r, (w r).currentStep ≤ cfg.runSteps
  /-- A rank that has yet to learn of an agreed step has not passed it. -/
  notPassed : ∀ r outcome, (w r).Outstanding → w.outcome (w r).handled.length = some outcome →
    (w r).frontier ≤ outcome.commonStep
  /-- An accepted checkpoint is created, at the latest when the rank leaves the main loop. -/
  created : ∀ r outcome, outcome ∈ (w r).handled → outcome.shouldCheckpoint = true →
    outcome.commonStep < (w r).dumped ∨ (w r).Left → outcome.commonStep ∈ (w r).checkpoints
  /-- A round has one outcome, which all ranks have contributed to. -/
  outcomes : ∀ (r q : Rank) (k : ℕ) o o', (w r).handled[k]? = some o → (w q).handled[k]? = some o' → o = o'
  participated : ∀ (r q : Rank) k, k < (w r).handled.length → k < (w q).contributions.length
  counts : ∀ r, (w r).counts.Nonneg
  /-- Barriers that belong together are called at the same place. -/
  barriers : ∀ (r q : Rank) (i : ℕ) b b', (w r).barriers[i]? = some b → (w q).barriers[i]? = some b' → b = b'
  /-- The ranks do not wait for each other. -/
  progress : (∀ r, (w r).phase = .finished) ∨
    ∃ r, (w r).phase ≠ .finished ∧ ((w r).waiting = true → w.BarrierOpen r)

variable {cfg : SimulationConfig} {w : World Rank} {rounds : List SignalOutcome}

omit [Fintype Rank] in
/-- Prefixes of one list agree where both have an element. -/
theorem eq_of_prefixes {α : Type} {xs ys zs : List α} (hx : xs <+: zs) (hy : ys <+: zs) {i : ℕ} {a b : α}
    (ha : xs[i]? = some a) (hb : ys[i]? = some b) : a = b := by
  obtain ⟨hi, rfl⟩ := List.getElem?_eq_some_iff.mp ha
  obtain ⟨hi', rfl⟩ := List.getElem?_eq_some_iff.mp hb
  rw [hx.getElem hi, hy.getElem hi']

/-- All barriers of the run, as far as the rounds determine them. -/
def barrierPlan (cfg : SimulationConfig) (rounds : List SignalOutcome) : List BarrierCall :=
  cfg.dueBarriers rounds (cfg.runStepsAfter rounds + 1) ++ [.final]

theorem WorldInv.current_le (h : WorldInv cfg w rounds) (r : Rank) : (w r).currentStep ≤ cfg.runStepsAfter rounds := by
  rcases lt_or_ge (w r).handled.length rounds.length with hlt | hge
  · obtain ⟨outcome, hrounds, hout⟩ := (h.rank r).rounds_eq hlt
    have hahead := (h.rank r).ahead hout
    rw [h.common_next r outcome hrounds] at hahead
    have hmem : outcome ∈ rounds := hrounds ▸ List.mem_append_right _ (List.mem_singleton.mpr rfl)
    exact ((w r).currentStep_le_frontier.trans hahead).trans (h.sound.common_le outcome hmem)
  · rw [← (h.rank r).handled.eq_of_length_le hge, ← (h.rank r).runSteps_eq]
    exact (h.rank r).current_le

theorem WorldInv.left_eq (h : WorldInv cfg w rounds) {r : Rank} (hleft : (w r).Left) :
    (w r).handled = rounds ∧ (w r).currentStep = cfg.runStepsAfter rounds ∧ (w r).dumped = (w r).currentStep + 1 := by
  obtain ⟨hcurrent, hdone⟩ := (h.rank r).left hleft
  obtain ⟨hhandled, -⟩ := (h.rank r).handled_eq hdone
  refine ⟨hhandled, ?_, ?_⟩
  · rw [hcurrent, (h.rank r).runSteps_eq, hhandled]
  · rcases hleft with hphase | hphase <;> rw [RankState.dumped, hphase]

/-- Every rank follows the plan. -/
theorem WorldInv.barriers_prefix (h : WorldInv cfg w rounds) (r : Rank) :
    (w r).barriers <+: barrierPlan cfg rounds ∧ ((w r).Left → (w r).barriers = barrierPlan cfg rounds) := by
  have hle := h.current_le r
  have hlog := (h.rank r).barriers
  have hplan : ∀ step, step ≤ cfg.runStepsAfter rounds + 1 → cfg.dueBarriers rounds step <+: barrierPlan cfg rounds :=
    fun step hstep => (SimulationConfig.dueBarriers_prefix hstep).trans (List.prefix_append _ _)
  have hfull : (w r).Left → (w r).barriers = barrierPlan cfg rounds := fun hleft => by
    obtain ⟨-, hcurrent, hdumped⟩ := h.left_eq hleft
    rw [hlog, RankState.barrierLog, hdumped, hcurrent, barrierPlan]
    rcases hleft with hphase | hphase <;> rw [hphase]
  refine ⟨?_, hfull⟩
  cases hphase : (w r).phase with
  | notifyPlugins =>
    rw [hlog, RankState.barrierLog, RankState.dumped, hphase, List.append_nil]
    exact hplan _ (hle.trans (Nat.le_succ _))
  | dumpOneStep =>
    rw [hlog, RankState.barrierLog, RankState.dumped, hphase, List.append_nil]
    exact hplan _ (hle.trans (Nat.le_succ _))
  | dump =>
    rw [hlog, RankState.barrierLog, RankState.dumped, hphase, List.append_nil]
    exact hplan _ (hle.trans (Nat.le_succ _))
  | beforeCheckpoint =>
    have hdumped : (w r).dumped = (w r).currentStep := by rw [RankState.dumped, hphase]
    have hsucc : cfg.dueBarriers rounds ((w r).currentStep + 1) = _ :=
      SimulationConfig.dueBarriers_succ ((h.rank r).started.trans_eq hdumped)
    rw [if_pos ((h.rank r).due hphase)] at hsucc
    have hnext := hplan _ (Nat.succ_le_succ hle)
    rw [hsucc] at hnext
    rw [hlog, RankState.barrierLog, hdumped, hphase]
    refine List.IsPrefix.trans ((List.prefix_append_right_inj _).mpr ?_) hnext
    exact ⟨[.afterCheckpoint (w r).currentStep], rfl⟩
  | afterCheckpoint =>
    rw [hlog, RankState.barrierLog, RankState.dumped, hphase, List.append_nil]
    exact hplan _ (Nat.succ_le_succ hle)
  | loopTest =>
    rw [hlog, RankState.barrierLog, RankState.dumped, hphase, List.append_nil]
    exact hplan _ (Nat.succ_le_succ hle)
  | finalBarrier => exact (hfull (Or.inl hphase)).symm ▸ List.prefix_rfl
  | finished => exact (hfull (Or.inr hphase)).symm ▸ List.prefix_rfl

/-- A checkpoint a rank has agreed to is one of those it sees. -/
theorem containsStep_of_mem {outcome : SignalOutcome} (hmem : outcome ∈ rounds) (hcheckpoint : outcome.shouldCheckpoint = true) :
    containsStep (cfg.slicesAfter rounds) outcome.commonStep = true := by
  refine List.any_eq_true.mpr ⟨.single outcome.commonStep, List.mem_append_right _ ?_, SimulationConfig.contains_single.mpr rfl⟩
  exact List.mem_map.mpr ⟨outcome, List.mem_filter.mpr ⟨hmem, hcheckpoint⟩, rfl⟩

theorem WorldInv.firstDump_le (h : WorldInv cfg w rounds) (r : Rank) {outcome : SignalOutcome} (hmem : outcome ∈ rounds) :
    cfg.firstDump ≤ outcome.commonStep := by
  obtain ⟨k, hk, rfl⟩ := List.mem_iff_getElem.mp hmem
  have hround := List.getElem?_eq_getElem hk
  have hlt := (World.outcome_eq_some ((h.outcomes k).symm.trans hround)).1 r
  rw [← h.common hround]
  exact ((h.rank r).late _ (List.getElem_mem hlt)).trans (World.le_maximum (List.getElem?_eq_getElem hlt))

/-- The rank with the fewest barriers is not held by one, or all have come to the end. -/
theorem WorldInv.progress (h : WorldInv cfg w rounds) : (∀ r, (w r).phase = .finished) ∨
    ∃ r, (w r).phase ≠ .finished ∧ ((w r).waiting = true → w.BarrierOpen r) := by
  by_cases hfinished : ∀ r, (w r).phase = .finished
  · exact Or.inl hfinished
  · obtain ⟨q, hq⟩ := not_forall.mp hfinished
    obtain ⟨r, -, hmin⟩ := Finset.exists_min_image Finset.univ (fun r => (w r).barriers.length) ⟨q, Finset.mem_univ q⟩
    refine Or.inr ?_
    by_cases hr : (w r).phase = .finished
    · have hlength : ∀ q, (w q).barriers.length ≤ (w r).barriers.length := fun q => by
        rw [(h.barriers_prefix r).2 (Or.inr hr)]
        exact (h.barriers_prefix q).1.length_le
      exact ⟨q, hq, fun _ q' => (hlength q).trans (hmin q' (Finset.mem_univ q'))⟩
    · exact ⟨r, hr, fun _ q' => hmin q' (Finset.mem_univ q')⟩

theorem WorldInv.agreement (h : WorldInv cfg w rounds) : Agreement cfg w where
  checkpoints r q step hr hq := by
    rw [(h.rank r).checkpoints, (h.rank q).checkpoints, SimulationConfig.mem_dueSteps, SimulationConfig.mem_dueSteps]
    exact and_congr_left fun _ => and_congr_right fun _ => iff_of_true hr hq
  left r q hr hq := by
    obtain ⟨-, hcurrent, hdumped⟩ := h.left_eq hr
    obtain ⟨-, hcurrent', hdumped'⟩ := h.left_eq hq
    refine ⟨hcurrent.trans hcurrent'.symm, ?_⟩
    rw [(h.rank r).checkpoints, (h.rank q).checkpoints, hdumped, hdumped', hcurrent, hcurrent']
  bounded r := by
    have hle := h.sound.runSteps_le rounds.length
    rw [List.take_length] at hle
    exact (h.current_le r).trans hle
  notPassed r outcome hout houtcome := by
    rw [← h.common ((h.outcomes _).trans houtcome)]
    exact (h.rank r).ahead hout
  created r outcome hmem hcheckpoint hdumped := by
    have hmem' : outcome ∈ rounds := (h.rank r).handled.subset hmem
    rw [(h.rank r).checkpoints, SimulationConfig.mem_dueSteps]
    refine ⟨⟨h.firstDump_le r hmem', ?_⟩, containsStep_of_mem hmem' hcheckpoint⟩
    rcases hdumped with hdumped | hleft
    · exact hdumped
    · obtain ⟨-, hcurrent, hdumped⟩ := h.left_eq hleft
      rw [hdumped, hcurrent]
      exact Nat.lt_succ_iff.mpr (h.sound.common_le outcome hmem')
  outcomes r q k o o' hr hq := by
    exact eq_of_prefixes (h.rank r).handled (h.rank q).handled hr hq
  participated r q k hk := hk.trans_le ((h.rank r).handled.length_le.trans (h.rank q).contributed)
  counts r := (h.rank r).counts
  barriers r q i b b' hr hq := by
    exact eq_of_prefixes (h.barriers_prefix r).1 (h.barriers_prefix q).1 hr hq
  progress := h.progress

/-- **All ranks agree**, whatever the number of ranks, the signals and the interleaving, in the runs all
of whose steps are orderly. -/
theorem agreement_of_orderly [DecidableEq Rank] (hstart : cfg.startStep ≤ cfg.runSteps) (h : (orderlyLoop cfg).Reachable w) :
    Agreement cfg w := by
  rcases isEmpty_or_nonempty Rank with hempty | hnonempty
  · exact ⟨fun r => hempty.elim r, fun r => hempty.elim r, fun r => hempty.elim r, fun r => hempty.elim r,
      fun r => hempty.elim r, fun r => hempty.elim r, fun r => hempty.elim r, fun r => hempty.elim r,
      fun r => hempty.elim r, Or.inl fun r => hempty.elim r⟩
  · obtain ⟨rounds, hinv⟩ := worldInv_of_reachable hstart h
    exact hinv.agreement

/-! ## Runs that are not orderly -/

instance [DecidableEq Rank] (w : World Rank) : (a : LoopAction Rank) → Decidable (a.Orderly w)
  | .notifyPlugins r _ => inferInstanceAs (Decidable ((_ ∧ _ ∧ _) → (w r).currentStep < (w r).runSteps))
  | .dumpOneStep r _ => inferInstanceAs (Decidable ((_ ∧ _ ∧ _) → (w r).currentStep < (w r).runSteps))
  | .poll r _ => inferInstanceAs (Decidable ((_ ∧ _ ∧ _) → (w r).currentStep < (w r).runSteps))
  | .dump r => inferInstanceAs (Decidable ((w r).handled.length < _ → (w r).currentStep < _))
  | .signal _ _ => isTrue trivial
  | .continuation _ => isTrue trivial
  | .completion _ => isTrue trivial
  | .leaveBarrier _ => isTrue trivial
  | .loopTest _ => isTrue trivial

/-- Some steps in a row, all of which meet a condition. -/
def LoopAction.runAll [DecidableEq Rank] (meets : World Rank → LoopAction Rank → Bool) (w : World Rank)
    (actions : List (LoopAction Rank)) : Option (World Rank) :=
  actions.foldlM (fun w a => if meets w a then a.run w else none) w

theorem reachable_of_runAll [DecidableEq Rank] {S : StepSystem (World Rank)} {meets : World Rank → LoopAction Rank → Bool}
    (hS : ∀ w a w', meets w a = true → a.run w = some w' → S.step w w') {w' : World Rank} {actions : List (LoopAction Rank)}
    (h : S.Reachable w) (hrun : LoopAction.runAll meets w actions = some w') : S.Reachable w' := by
  induction actions generalizing w with
  | nil =>
    obtain rfl := Option.some.inj hrun
    exact h
  | cons a actions ih =>
    obtain ⟨next, hnext, hrest⟩ := Option.bind_eq_some_iff.mp hrun
    obtain ⟨hmeets, hnext⟩ := Option.ite_none_right_eq_some.mp hnext
    exact ih (h.step (hS w a next hmeets hnext)) hrest

/-- So many steps from the start. -/
def shortRun (runSteps : ℕ) (h : runSteps < UInt32.size) : SimulationConfig := ⟨runSteps, h, 0, false, []⟩

def noGaps : LoadGaps := ⟨⟨0, 0⟩, ⟨0, 0⟩, ⟨0, 0⟩, ⟨0, 0⟩⟩

/-- A step without signals and checkpoints. -/
def plainStep (r : Rank) : List (LoopAction Rank) :=
  [.notifyPlugins r noGaps, .dumpOneStep r noGaps, .dump r, .loopTest r]

/-- Two ranks that receive a checkpoint signal at the start and create the checkpoint of step 1. -/
theorem agreement_of_orderly_twoRanks : ∃ w : World Bool, (w true).checkpoints = [1] ∧ Agreement (shortRun 2 (by decide)) w := by
  have hrun : (LoopAction.runAll (fun w a => a.Orderly w) (fun _ => (shortRun 2 (by decide)).initial)
      ([.signal true ⟨1, 0⟩, .signal false ⟨1, 0⟩] ++ plainStep true ++ plainStep false ++
        [.continuation true, .continuation false, .completion true, .completion false,
          .notifyPlugins true noGaps, .notifyPlugins false noGaps, .dumpOneStep true noGaps, .dumpOneStep false noGaps,
          .dump true, .dump false, .leaveBarrier true])).map (fun w => (w true).checkpoints) = some [1] := by decide +kernel
  obtain ⟨w, hw, hcheckpoints⟩ := Option.map_eq_some_iff.mp hrun
  refine ⟨w, hcheckpoints, agreement_of_orderly (Nat.zero_le 2) (reachable_of_runAll ?_ (StepSystem.Reachable.init rfl) hw)⟩
  exact fun _ a _ horderly ha => ⟨a, of_decide_eq_true horderly, ha⟩

/-- A stop signal before the plugins of the last step, and the simulation does one step more. -/
theorem stop_in_last_step : ∃ w : World Unit, (mainLoop (shortRun 1 (by decide))).Reachable w ∧
    ¬ Agreement (shortRun 1 (by decide)) w := by
  have hrun : (LoopAction.runAll (fun _ _ => true) (fun _ => (shortRun 1 (by decide)).initial) (plainStep () ++
      [.signal () ⟨0, 1⟩, .notifyPlugins () noGaps, .continuation (), .completion (), .dumpOneStep () noGaps, .dump (),
        .loopTest ()])).map (fun w => (w ()).currentStep) = some 2 := by decide +kernel
  obtain ⟨w, hw, hstep⟩ := Option.map_eq_some_iff.mp hrun
  refine ⟨w, reachable_of_runAll (fun _ a _ _ ha => Exists.intro a ha) (StepSystem.Reachable.init rfl) hw, fun hagree => ?_⟩
  have hle := hagree.bounded ()
  rw [hstep] at hle
  exact absurd hle (by decide)

/-- A rank that contributes early and runs ahead passes the step it has agreed to. -/
theorem checkpoint_passed : ∃ w : World Bool, (mainLoop (shortRun 9 (by decide))).Reachable w ∧
    ¬ Agreement (shortRun 9 (by decide)) w := by
  have hrun : (LoopAction.runAll (fun _ _ => true) (fun _ => (shortRun 9 (by decide)).initial)
      ([.signal true ⟨1, 0⟩] ++ plainStep true ++ plainStep true ++ plainStep true ++
        [.signal false ⟨1, 0⟩, .notifyPlugins false noGaps])).map
        (fun w => ((w true).handled.length, (w true).contributions.length, (w true).frontier, w.outcome 0)) =
      some (0, 1, 3, some ⟨1, false, true⟩) := by decide +kernel
  obtain ⟨w, hw, hstep⟩ := Option.map_eq_some_iff.mp hrun
  obtain ⟨hhandled, hstep⟩ := Prod.mk.inj hstep
  obtain ⟨hcontributions, hstep⟩ := Prod.mk.inj hstep
  obtain ⟨hfrontier, houtcome⟩ := Prod.mk.inj hstep
  refine ⟨w, reachable_of_runAll (fun _ a _ _ ha => Exists.intro a ha) (StepSystem.Reachable.init rfl) hw, fun hagree => ?_⟩
  have hout : (w true).Outstanding := by
    rw [RankState.Outstanding, hhandled, hcontributions]
    exact Nat.one_pos
  have hle := hagree.notPassed true ⟨1, false, true⟩ hout (hhandled.symm ▸ houtcome)
  rw [hfrontier] at hle
  exact absurd hle (by decide)

end Agreement

end SimulationControl
end Spearhed
