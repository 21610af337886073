import Spearhed.Control.SentinelStep

/-!
# Soft restarts replay the simulation

The loop of `startSimulation`, without signals and with plugins that leave the particles alone.  For
every attempt the frame indices are reset, the simulation is filled, and the time steps are run.
Buffers, frames on the heap and the counter of ids live on from one pass to the next.

What is filled in depends on the setup only, and what a step does only on the state without frames, so
every pass goes through the same reference states (`softRestarts_replay`).  Versions of buffers grow
from pass to pass, so an index of an earlier pass is stale in a later one.

* `Replaying`: a state of a pass and the reference state of its step.
* `versions_of_reachable`: what the passes know of the versions of buffers.
* `ids_of_reachable`: all ids come from one counter.
-/

namespace Spearhed
namespace Control

open Library Particles Sph SimulationState

variable {K : Type} {d frameSize : ℕ}

/-! ## The loop -/

/-- What the simulation is started with. -/
structure RestartConfig (K : Type) (d : ℕ) where
  setup : FluidSetup K d
  args : RunArgs K
  runSteps : UInt32
  softRestarts : UInt32

/-- Where the loop is. -/
inductive RestartPhase
  /-- At the call of `hasSoftRestartAttemptsLeft`. -/
  | attempt
  /-- At the call of `resetAll`. -/
  | reset
  /-- At the test of the main loop. -/
  | loopTest
  | finished
  deriving DecidableEq

/-- A pass of the loop: the step it starts with, the ids that its `fillSimulation` hands out, and the
states after `fillSimulation` and after every step. -/
structure RestartPass (K : Type) (d frameSize : ℕ) where
  startStep : UInt32
  ids : List UInt64
  states : List (SimulationState K d frameSize)

/-- The loop and its history, the last pass first. -/
structure RestartState (K : Type) (d frameSize : ℕ) where
  phase : RestartPhase
  nthSoftRestart : UInt32
  currentStep : UInt32
  world : SimulationState K d frameSize
  passes : List (RestartPass K d frameSize)

/-- What `fillSimulation` returns. -/
def fillSimulationStep : UInt32 := 0

/-- Before the first attempt no species has a buffer. -/
def RestartState.Initial (s : RestartState K d frameSize) : Prop :=
  s.phase = .attempt ∧ s.nthSoftRestart = 0 ∧ s.passes = [] ∧ s.world.buffers = fun _ => none

/-- One action of the loop. -/
inductive RestartStep [Field K] [LinearOrder K] (cfg : RestartConfig K d) :
    RestartState K d frameSize → RestartState K d frameSize → Prop
  | attempt {s} : s.phase = .attempt → s.nthSoftRestart ≤ cfg.softRestarts →
      RestartStep cfg s { s with phase := .reset, nthSoftRestart := s.nthSoftRestart + 1 }
  | stop {s} : s.phase = .attempt → ¬ s.nthSoftRestart ≤ cfg.softRestarts →
      RestartStep cfg s { s with phase := .finished }
  | fill {s ids w} : s.phase = .reset → s.world.resetAll.FillSimulation cfg.setup ids w →
      RestartStep cfg s { s with
        phase := .loopTest
        currentStep := fillSimulationStep
        world := w
        passes := ⟨fillSimulationStep, ids, [w]⟩ :: s.passes }
  | runOneStep {s w pass earlier} : s.phase = .loopTest → s.currentStep < cfg.runSteps →
      s.passes = pass :: earlier → cfg.args.RunOneStep s.world w →
      RestartStep cfg s { s with
        currentStep := s.currentStep + 1
        world := w
        passes := { pass with states := pass.states ++ [w] } :: earlier }
  | leave {s} : s.phase = .loopTest → ¬ s.currentStep < cfg.runSteps →
      RestartStep cfg s { s with phase := .attempt }

/-- The loop of `startSimulation`. -/
def restartSystem [Field K] [LinearOrder K] (cfg : RestartConfig K d) :
    StepSystem (RestartState K d frameSize) where
  init := RestartState.Initial
  step := RestartStep cfg

theorem toNat_add_one {x : UInt32} (h : x.toNat + 1 < 2 ^ 32) : (x + 1).toNat = x.toNat + 1 := by
  rw [UInt32.toNat_add]
  exact Nat.mod_eq_of_lt h

section Loop

variable [Field K] [LinearOrder K] {cfg : RestartConfig K d} {s t : RestartState K d frameSize}

/-! ## Attempts -/

/-- Attempts are counted, unless the counter comes round. -/
structure Counted (cfg : RestartConfig K d) (s : RestartState K d frameSize) : Prop where
  finished : s.phase = .finished → cfg.softRestarts.toNat < s.nthSoftRestart.toNat
  count : cfg.softRestarts.toNat + 1 < 2 ^ 32 →
    s.nthSoftRestart.toNat = s.passes.length + (if s.phase = .reset then 1 else 0) ∧
      s.nthSoftRestart.toNat ≤ cfg.softRestarts.toNat + 1

theorem Counted.step (h : Counted cfg s) (hstep : RestartStep cfg s t) : Counted cfg t := by
  cases hstep with
  | attempt hphase hleft =>
    refine ⟨nofun, fun hsize => ?_⟩
    obtain ⟨hcount, -⟩ := h.count hsize
    rw [hphase, if_neg nofun] at hcount
    have hle := UInt32.le_iff_toNat_le.mp hleft
    show (s.nthSoftRestart + 1).toNat = s.passes.length + 1 ∧ (s.nthSoftRestart + 1).toNat ≤ _
    rw [toNat_add_one (by omega)]
    omega
  | stop hphase hleft =>
    refine ⟨fun _ => Nat.lt_of_not_le fun hle => hleft (UInt32.le_iff_toNat_le.mpr hle), fun hsize => ?_⟩
    have hcount := h.count hsize
    rwa [hphase] at hcount
  | fill hphase _ =>
    refine ⟨nofun, fun hsize => ?_⟩
    have hcount := h.count hsize
    rwa [hphase] at hcount
  | runOneStep hphase _ hpasses _ =>
    refine ⟨fun hfinished => absurd (hphase.symm.trans hfinished) nofun, fun hsize => ?_⟩
    have hcount := h.count hsize
    rwa [hpasses] at hcount
  | leave hphase _ =>
    refine ⟨nofun, fun hsize => ?_⟩
    have hcount := h.count hsize
    rwa [hphase] at hcount

theorem counted_of_reachable (h : (restartSystem cfg).Reachable s) : Counted cfg s := by
  refine h.invariant (fun s hinit => ?_) fun _ _ _ ih hstep => ih.step hstep
  obtain ⟨hphase, hnth, hpasses, -⟩ := hinit
  refine ⟨fun hfinished => absurd (hphase.symm.trans hfinished) nofun, fun _ => ?_⟩
  rw [hphase, hnth, hpasses]
  exact ⟨rfl, Nat.zero_le _⟩

/-! ## Replaying -/

/-- The reference state after some steps. -/
def RestartConfig.referenceAt (cfg : RestartConfig K d) (frameSize k : ℕ) : ReferenceState K d :=
  cfg.args.referenceStep^[k] (initialReference frameSize cfg.setup)

/-- A state of a pass after `k` steps. -/
structure Replaying (cfg : RestartConfig K d) (k : ℕ) (w : SimulationState K d frameSize) : Prop where
  wellFormed : w.WellFormed
  indexed : w.Indexed
  isSome : ∀ S, (w.buffers S).isSome = true ↔ cfg.setup.targeting S ≠ []
  reference : w.reference = cfg.referenceAt frameSize k

/-- The passes that are over. -/
def RestartState.completed (s : RestartState K d frameSize) : List (RestartPass K d frameSize) :=
  if s.phase = .loopTest then s.passes.tail else s.passes

/-- A pass starts at step zero and goes through the reference states. -/
structure RestartPass.Replays (cfg : RestartConfig K d) (pass : RestartPass K d frameSize) : Prop where
  startStep : pass.startStep = 0
  length_le : pass.states.length ≤ cfg.runSteps.toNat + 1
  states : ∀ k w, pass.states[k]? = some w → Replaying cfg k w

/-- **The loop replays.** -/
structure LoopReplays (cfg : RestartConfig K d) (s : RestartState K d frameSize) : Prop where
  passes : ∀ pass ∈ s.passes, pass.Replays cfg
  completed : ∀ pass ∈ s.completed, pass.states.length = cfg.runSteps.toNat + 1
  current : s.phase = .loopTest → Replaying cfg s.currentStep.toNat s.world ∧
    ∃ pass earlier, s.passes = pass :: earlier ∧ pass.states.length = s.currentStep.toNat + 1
  shared : ∀ S, cfg.setup.targeting S = [] → s.world.buffers S = none

/-- What is supposed of setup and steps: the default species is there, what is filled in can be
counted, and no step comes near the sentinel. -/
structure RestartConfig.Admissible (cfg : RestartConfig K d) (frameSize : ℕ) : Prop where
  pos : 0 < frameSize
  size : frameSize < 2 ^ 32
  fillable : Fillable frameSize cfg.setup
  default : cfg.setup.targeting .Default ≠ []
  clear : ∀ k < cfg.runSteps.toNat, cfg.args.Clear (cfg.args.referenceMoved (cfg.referenceAt frameSize k))

theorem Replaying.step {k : ℕ} {w w' : SimulationState K d frameSize} (h : Replaying cfg k w)
    (hclear : cfg.args.Clear (cfg.args.referenceMoved (cfg.referenceAt frameSize k)))
    (hrun : cfg.args.RunOneStep w w') : Keeps w w' ∧ Replaying cfg (k + 1) w' := by
  obtain ⟨hkeeps, hindexed, hreference⟩ :=
    hrun.spec h.wellFormed h.indexed (h.reference.symm ▸ hclear)
  refine ⟨hkeeps, hkeeps.wellFormed h.wellFormed, hindexed, fun S => ?_, ?_⟩
  · rw [hkeeps.isSome]
    exact h.isSome S
  · rw [hreference, h.reference, RestartConfig.referenceAt, RestartConfig.referenceAt,
      Function.iterate_succ_apply']

omit [Field K] [LinearOrder K] in
theorem indexed_of_empty {w : SimulationState K d frameSize} (h : w.frameIndices = fun _ => {}) :
    w.Indexed := fun S => Or.inl (congrFun h S)

theorem Replaying.fill (h : cfg.Admissible frameSize) {w w' : SimulationState K d frameSize}
    {ids : List UInt64} (hshared : ∀ S, cfg.setup.targeting S = [] → w.buffers S = none)
    (hfill : w.resetAll.FillSimulation cfg.setup ids w') : Replaying cfg 0 w' := by
  obtain ⟨hwf, hindices, hreference, hsome, -⟩ := hfill.spec h.pos h.size h.fillable hshared
  exact ⟨hwf, indexed_of_empty hindices, hsome, hreference⟩

theorem Replaying.shared {k : ℕ} {w : SimulationState K d frameSize} (h : Replaying cfg k w)
    {S : Species} (hS : cfg.setup.targeting S = []) : w.buffers S = none := by
  by_contra hne
  exact (h.isSome S).mp (Option.isSome_iff_ne_none.mpr hne) hS

omit [Field K] [LinearOrder K] in
theorem RestartState.completed_of_passes (hphase : s.phase ≠ .loopTest) : s.completed = s.passes :=
  if_neg hphase

theorem LoopReplays.step (hcfg : cfg.Admissible frameSize) (h : LoopReplays cfg s)
    (hstep : RestartStep cfg s t) : LoopReplays cfg t := by
  cases hstep with
  | attempt hphase _ =>
    have hcompleted := h.completed
    rw [RestartState.completed_of_passes (by rw [hphase]; nofun)] at hcompleted
    exact ⟨h.passes, hcompleted, nofun, h.shared⟩
  | stop hphase _ =>
    have hcompleted := h.completed
    rw [RestartState.completed_of_passes (by rw [hphase]; nofun)] at hcompleted
    exact ⟨h.passes, hcompleted, nofun, h.shared⟩
  | @fill ids w hphase hfill =>
    have hreplaying := Replaying.fill hcfg h.shared hfill
    have hcompleted := h.completed
    rw [RestartState.completed_of_passes (by rw [hphase]; nofun)] at hcompleted
    refine ⟨List.forall_mem_cons.mpr ⟨⟨rfl, Nat.le_add_left .., fun k w' hw' => ?_⟩, h.passes⟩,
      hcompleted, fun _ => ⟨hreplaying, _, _, rfl, rfl⟩, fun S hS => hreplaying.shared hS⟩
    obtain ⟨hk, rfl⟩ := List.getElem?_eq_some_iff.mp hw'
    obtain rfl : k = 0 := Nat.lt_one_iff.mp hk
    exact hreplaying
  | @runOneStep w pass earlier hphase hlt hpasses hrun =>
    obtain ⟨hcurrent, pass', earlier', hpasses', hlength⟩ := h.current hphase
    obtain ⟨rfl, rfl⟩ := List.cons.inj (hpasses.symm.trans hpasses')
    have hlt' := UInt32.lt_iff_toNat_lt.mp hlt
    have hsucc : (s.currentStep + 1).toNat = s.currentStep.toNat + 1 :=
      toNat_add_one (by have := cfg.runSteps.toNat_lt; omega)
    obtain ⟨-, hreplaying⟩ := hcurrent.step (hcfg.clear _ hlt') hrun
    have hall := h.passes
    rw [hpasses] at hall
    obtain ⟨hpass, hearlier⟩ := List.forall_mem_cons.mp hall
    have hcompleted := h.completed
    rw [RestartState.completed, if_pos hphase, hpasses] at hcompleted
    refine ⟨List.forall_mem_cons.mpr ⟨⟨hpass.startStep, ?_, fun k w' hw' => ?_⟩, hearlier⟩, ?_,
      fun _ => ⟨?_, _, _, rfl, ?_⟩, fun S hS => hreplaying.shared hS⟩
    · rw [List.length_append, List.length_singleton, hlength]
      omega
    · rcases Nat.lt_or_ge k pass.states.length with hk | hk
      · rw [List.getElem?_append_left hk] at hw'
        exact hpass.states k w' hw'
      · rw [List.getElem?_append_right hk] at hw'
        obtain ⟨hlast, rfl⟩ := List.getElem?_eq_some_iff.mp hw'
        rw [List.length_singleton] at hlast
        obtain rfl : k = s.currentStep.toNat + 1 := by omega
        rw [List.getElem_singleton]
        exact hreplaying
    · rw [RestartState.completed, if_pos hphase]
      exact hcompleted
    · show Replaying cfg (s.currentStep + 1).toNat w
      rwa [hsucc]
    · show (pass.states ++ [w]).length = (s.currentStep + 1).toNat + 1
      rw [List.length_append, List.length_singleton, hlength, hsucc]
  | leave hphase hlt =>
    obtain ⟨-, pass, earlier, hpasses, hlength⟩ := h.current hphase
    have hcompleted := h.completed
    rw [RestartState.completed, if_pos hphase, hpasses] at hcompleted
    refine ⟨h.passes, ?_, nofun, h.shared⟩
    show ∀ pass ∈ s.passes, pass.states.length = _
    rw [hpasses]
    refine List.forall_mem_cons.mpr ⟨?_, hcompleted⟩
    have hle := (h.passes pass (by rw [hpasses]; exact List.mem_cons_self)).length_le
    have hge : ¬ s.currentStep.toNat < cfg.runSteps.toNat := fun h => hlt (UInt32.lt_iff_toNat_lt.mpr h)
    omega

theorem loopReplays_of_reachable (hcfg : cfg.Admissible frameSize)
    (h : (restartSystem cfg).Reachable s) : LoopReplays cfg s := by
  refine h.invariant (fun s hinit => ?_) fun _ _ _ ih hstep => ih.step hcfg hstep
  obtain ⟨hphase, -, hpasses, hbuffers⟩ := hinit
  refine ⟨by rw [hpasses]; nofun, ?_, fun hloop => absurd (hphase.symm.trans hloop) nofun,
    fun S _ => congrFun hbuffers S⟩
  rw [RestartState.completed_of_passes (by rw [hphase]; nofun), hpasses]
  nofun

/-! ## Versions -/

/-- The versions of the buffers. -/
def versions (w : SimulationState K d frameSize) (S : Species) : Option ℕ :=
  (w.buffers S).map ParticleRegionBuffer.topologyVersion

/-- Every buffer of the first state is older than that of the second. -/
def Older (w w' : SimulationState K d frameSize) : Prop :=
  ∀ S v v', versions w S = some v → versions w' S = some v' → v < v'

omit [Field K] [LinearOrder K] in
theorem Older.congr {u w w' : SimulationState K d frameSize} (h : Older u w)
    (heq : versions w = versions w') : Older u w' := by
  rw [Older, ← heq]
  exact h

omit [Field K] [LinearOrder K] in
theorem versions_eq_of_keeps {w w' : SimulationState K d frameSize} (h : Keeps w w') :
    versions w' = versions w := by
  funext S
  have hsome := h.isSome S
  rw [versions, versions]
  cases hB' : w'.buffers S with
  | none =>
    rw [hB', Option.isSome_none] at hsome
    have hB : w.buffers S = none := Option.isNone_iff_eq_none.mp (Option.isSome_eq_false_iff.mp hsome.symm)
    rw [hB]
  | some B' =>
    obtain ⟨B, hB, hversion, -⟩ := h.uploaded S B' hB'
    rw [hB, Option.map_some, Option.map_some, hversion]

/-- Versions grow from pass to pass, and the buffers that are there have the newest. -/
structure VersionsGrow (s : RestartState K d frameSize) : Prop where
  bounded : ∀ pass ∈ s.passes, ∀ w ∈ pass.states, ∀ S v, versions w S = some v →
    ∃ v', versions s.world S = some v' ∧ v ≤ v'
  current : s.phase = .loopTest → ∀ pass earlier, s.passes = pass :: earlier →
    (∀ w ∈ pass.states, versions w = versions s.world) ∧
      ∀ old ∈ earlier, ∀ w ∈ old.states, Older w s.world
  ordered : s.passes.Pairwise fun later earlier =>
    ∀ w' ∈ later.states, ∀ w ∈ earlier.states, Older w w'

theorem VersionsGrow.step (hcfg : cfg.Admissible frameSize) (hloop : LoopReplays cfg s)
    (h : VersionsGrow s) (hstep : RestartStep cfg s t) : VersionsGrow t := by
  cases hstep with
  | attempt hphase _ => exact ⟨h.bounded, nofun, h.ordered⟩
  | stop hphase _ => exact ⟨h.bounded, nofun, h.ordered⟩
  | @fill ids w hphase hfill =>
    obtain ⟨-, -, -, -, -, hnewer⟩ := hfill.spec hcfg.pos hcfg.size hcfg.fillable hloop.shared
    have hgrow : ∀ S v, versions s.world S = some v → ∃ v', versions w S = some v' ∧ v < v' :=
      fun S v hv => by
        obtain ⟨B, hB, rfl⟩ := Option.map_eq_some_iff.mp hv
        obtain ⟨B', hB', hlt⟩ := hnewer S B hB
        exact ⟨_, Option.map_eq_some_iff.mpr ⟨B', hB', rfl⟩, hlt⟩
    have holder : ∀ old ∈ s.passes, ∀ w' ∈ old.states, Older w' w := fun old hold w' hw' S v v' hv hv' => by
      obtain ⟨v₁, hv₁, hle⟩ := h.bounded old hold w' hw' S v hv
      obtain ⟨v₂, hv₂, hlt⟩ := hgrow S v₁ hv₁
      obtain rfl := Option.some.inj (hv₂.symm.trans hv')
      exact hle.trans_lt hlt
    refine ⟨List.forall_mem_cons.mpr ⟨fun w' hw' S v hv => ?_, fun old hold w' hw' S v hv => ?_⟩,
      fun _ pass earlier hpasses => ?_, List.pairwise_cons.mpr ⟨fun old hold w' hw' => ?_, h.ordered⟩⟩
    · obtain rfl := List.mem_singleton.mp hw'
      exact ⟨v, hv, le_rfl⟩
    · obtain ⟨v₁, hv₁, hle⟩ := h.bounded old hold w' hw' S v hv
      obtain ⟨v₂, hv₂, hlt⟩ := hgrow S v₁ hv₁
      exact ⟨v₂, hv₂, hle.trans hlt.le⟩
    · obtain ⟨rfl, rfl⟩ := List.cons.inj hpasses
      refine ⟨fun w' hw' => ?_, holder⟩
      rw [List.mem_singleton.mp hw']
    · obtain rfl := List.mem_singleton.mp hw'
      exact holder old hold
  | @runOneStep w pass earlier hphase hlt hpasses hrun =>
    obtain ⟨hreplaying, -⟩ := hloop.current hphase
    have hversions := versions_eq_of_keeps
      (hreplaying.step (hcfg.clear _ (UInt32.lt_iff_toNat_lt.mp hlt)) hrun).1
    obtain ⟨hsame, holder⟩ := h.current hphase pass earlier hpasses
    have hall : ∀ w' ∈ pass.states ++ [w], versions w' = versions w := fun w' hw' => by
      rcases List.mem_append.mp hw' with hw' | hw'
      · rw [hversions, hsame w' hw']
      · rw [List.mem_singleton.mp hw']
    have holder' : ∀ old ∈ earlier, ∀ w' ∈ old.states, Older w' w := fun old hold w' hw' =>
      (holder old hold w' hw').congr hversions.symm
    have hbounded := h.bounded
    have hordered := h.ordered
    rw [hpasses] at hbounded hordered
    refine ⟨List.forall_mem_cons.mpr ⟨fun w' hw' S v hv => ?_, fun old hold w' hw' S v hv => ?_⟩,
      fun _ pass' earlier' hpasses' => ?_,
      List.pairwise_cons.mpr ⟨fun old hold w' hw' w'' hw'' => ?_, (List.pairwise_cons.mp hordered).2⟩⟩
    · exact ⟨v, (congrFun (hall w' hw') S).symm.trans hv, le_rfl⟩
    · obtain ⟨v₁, hv₁, hle⟩ := hbounded old (List.mem_cons_of_mem _ hold) w' hw' S v hv
      exact ⟨v₁, (congrFun hversions S).trans hv₁, hle⟩
    · obtain ⟨rfl, rfl⟩ := List.cons.inj hpasses'
      exact ⟨hall, holder'⟩
    · exact (holder' old hold w'' hw'').congr (hall w' hw').symm
  | leave hphase hlt => exact ⟨h.bounded, nofun, h.ordered⟩

theorem versionsGrow_of_reachable (hcfg : cfg.Admissible frameSize)
    (h : (restartSystem cfg).Reachable s) : VersionsGrow s := by
  refine h.invariant (fun s hinit => ?_) fun s t hs ih hstep =>
    ih.step hcfg (loopReplays_of_reachable hcfg hs) hstep
  obtain ⟨hphase, -, hpasses, -⟩ := hinit
  refine ⟨by rw [hpasses]; nofun, fun hloop => absurd (hphase.symm.trans hloop) nofun, ?_⟩
  rw [hpasses]
  exact .nil

omit [Field K] [LinearOrder K] in
/-- **An index of an older state is stale.** -/
theorem isFresh_eq_false_of_older {w w' : SimulationState K d frameSize} (hindexed : w.Indexed)
    (holder : Older w w') {S : Species} {B' : ParticleRegionBuffer (StoredRegion K d)}
    (hB' : w'.buffers S = some B') :
    (w.frameIndices S).isFresh (bufferId S) B'.topologyVersion = false := by
  rcases hindexed S with hnever | ⟨B, hB, hfresh, -⟩
  · rw [hnever, isFresh_empty]
  · have hlt := holder S B.topologyVersion B'.topologyVersion
      (Option.map_eq_some_iff.mpr ⟨B, hB, rfl⟩) (Option.map_eq_some_iff.mpr ⟨B', hB', rfl⟩)
    rw [Bool.eq_false_iff]
    intro hfresh'
    have hbuilt := (FrameIndexBuffer.isFresh_iff.mp hfresh).2.2
    have hbuilt' := (FrameIndexBuffer.isFresh_iff.mp hfresh').2.2
    omega

/-! ## Ids -/

/-- The ids of all passes, in the order of the passes. -/
def RestartState.ids (s : RestartState K d frameSize) : List UInt64 :=
  s.passes.reverse.flatMap RestartPass.ids

/-- All ids come from the counter, one after the other. -/
def IdsConsecutive (s : RestartState K d frameSize) : Prop :=
  ∃ start, s.ids = idsFrom start s.ids.length ∧ s.world.nextId = start + UInt64.ofNat s.ids.length

theorem IdsConsecutive.step (hcfg : cfg.Admissible frameSize) (hloop : LoopReplays cfg s)
    (h : IdsConsecutive s) (hstep : RestartStep cfg s t) : IdsConsecutive t := by
  cases hstep with
  | attempt _ _ => exact h
  | stop _ _ => exact h
  | @fill ids w hphase hfill =>
    obtain ⟨start, hids, hnext⟩ := h
    obtain ⟨-, -, -, -, ⟨hnew, hnext'⟩, -⟩ :=
      hfill.spec hcfg.pos hcfg.size hcfg.fillable hloop.shared
    have hall : (List.reverse (⟨fillSimulationStep, ids, [w]⟩ :: s.passes)).flatMap RestartPass.ids =
        s.ids ++ ids := by
      rw [List.reverse_cons, List.flatMap_append, List.flatMap_singleton]
      rfl
    rw [hnext] at hnew hnext'
    refine ⟨start, ?_, ?_⟩
    · rw [RestartState.ids, hall, List.length_append, idsFrom_add, ← hids, ← hnew]
    · show w.nextId = _
      rw [RestartState.ids, hall, List.length_append, hnext', UInt64.ofNat_add, add_assoc]
  | @runOneStep w pass earlier hphase hlt hpasses hrun =>
    obtain ⟨hreplaying, -⟩ := hloop.current hphase
    have hkeeps := (hreplaying.step (hcfg.clear _ (UInt32.lt_iff_toNat_lt.mp hlt)) hrun).1
    obtain ⟨start, hids, hnext⟩ := h
    have hall : (List.reverse ({ pass with states := pass.states ++ [w] } :: earlier)).flatMap
        RestartPass.ids = s.ids := by
      rw [RestartState.ids, hpasses, List.reverse_cons, List.reverse_cons, List.flatMap_append,
        List.flatMap_append]
      rfl
    refine ⟨start, ?_, ?_⟩
    · rw [RestartState.ids, hall]
      exact hids
    · show w.nextId = _
      rw [RestartState.ids, hall, hkeeps.nextId, hnext]
  | leave _ _ => exact h

theorem idsConsecutive_of_reachable (hcfg : cfg.Admissible frameSize)
    (h : (restartSystem cfg).Reachable s) : IdsConsecutive s := by
  refine h.invariant (fun s hinit => ?_) fun s t hs ih hstep =>
    ih.step hcfg (loopReplays_of_reachable hcfg hs) hstep
  obtain ⟨-, -, hpasses, -⟩ := hinit
  refine ⟨s.world.nextId, ?_, ?_⟩
  · rw [RestartState.ids, hpasses]
    rfl
  · rw [RestartState.ids, hpasses]
    exact (add_zero _).symm

/-! ## Progress -/

/-- **The loop goes on until it is finished.** -/
theorem exists_restartStep (hcfg : cfg.Admissible frameSize) (hloop : LoopReplays cfg s)
    (hphase : s.phase ≠ .finished) : ∃ t, RestartStep cfg s t := by
  cases hs : s.phase with
  | attempt =>
    by_cases hleft : s.nthSoftRestart ≤ cfg.softRestarts
    · exact ⟨_, .attempt hs hleft⟩
    · exact ⟨_, .stop hs hleft⟩
  | reset =>
    obtain ⟨ids, w, hfill⟩ := exists_fillSimulation hcfg.pos hcfg.size hcfg.fillable
      (w := s.world.resetAll) hloop.shared
    exact ⟨_, .fill hs hfill⟩
  | loopTest =>
    by_cases hlt : s.currentStep < cfg.runSteps
    · obtain ⟨hreplaying, pass, earlier, hpasses, -⟩ := hloop.current hs
      obtain ⟨w, hrun⟩ := RunArgs.exists_runOneStep cfg.args ((hreplaying.isSome _).mpr hcfg.default)
        hreplaying.wellFormed hreplaying.indexed
      exact ⟨_, .runOneStep hs hlt hpasses hrun⟩
    · exact ⟨_, .leave hs hlt⟩
  | finished => exact absurd hs hphase

/-- What is left to do: the attempts, and the steps of the pass. -/
def RestartState.remaining (cfg : RestartConfig K d) (s : RestartState K d frameSize) : ℕ :=
  (cfg.softRestarts.toNat + 1 - s.nthSoftRestart.toNat) * (cfg.runSteps.toNat + 4) +
    match s.phase with
    | .attempt => 1
    | .reset => cfg.runSteps.toNat + 3
    | .loopTest => cfg.runSteps.toNat - s.currentStep.toNat + 2
    | .finished => 0

/-- **The loop ends**, unless the counter comes round. -/
theorem terminating_of_reachable (hsize : cfg.softRestarts.toNat + 1 < 2 ^ 32)
    (h : (restartSystem cfg).Reachable s) : (restartSystem cfg).Terminating s := by
  refine h.terminating (RestartState.remaining cfg) fun s t hs hstep => ?_
  cases hstep with
  | attempt hphase hleft =>
    have hle := UInt32.le_iff_toNat_le.mp hleft
    have hsucc : (s.nthSoftRestart + 1).toNat = s.nthSoftRestart.toNat + 1 :=
      toNat_add_one (by omega)
    obtain ⟨n, hn⟩ := Nat.exists_eq_add_of_le hle
    have hbefore : cfg.softRestarts.toNat + 1 - s.nthSoftRestart.toNat = n + 1 := by omega
    have hafter : cfg.softRestarts.toNat + 1 - (s.nthSoftRestart + 1).toNat = n := by omega
    simp only [RestartState.remaining, hphase, hbefore, hafter]
    rw [Nat.add_one_mul]
    omega
  | stop hphase _ =>
    simp only [RestartState.remaining, hphase]
    omega
  | fill hphase _ =>
    simp only [RestartState.remaining, hphase]
    omega
  | runOneStep hphase hlt _ _ =>
    have hlt' := UInt32.lt_iff_toNat_lt.mp hlt
    have hsucc : (s.currentStep + 1).toNat = s.currentStep.toNat + 1 :=
      toNat_add_one (by have := cfg.runSteps.toNat_lt; omega)
    simp only [RestartState.remaining, hphase, hsucc]
    omega
  | leave hphase _ =>
    simp only [RestartState.remaining, hphase]
    omega

/-- **Soft restarts replay the simulation.** -/
theorem softRestarts_replay (hcfg : cfg.Admissible frameSize)
    (h : (restartSystem cfg).Reachable s) :
    (∀ pass ∈ s.passes, pass.startStep = 0 ∧ pass.states.length ≤ cfg.runSteps.toNat + 1) ∧
      (∀ pass ∈ s.completed, pass.states.length = cfg.runSteps.toNat + 1) ∧
      (∀ pass ∈ s.passes, ∀ pass' ∈ s.passes, ∀ (k : ℕ) w w', pass.states[k]? = some w →
        pass'.states[k]? = some w' → w.reference = w'.reference) ∧
      (s.passes.Pairwise fun later earlier => ∀ w' ∈ later.states, ∀ w ∈ earlier.states,
        ∀ S B', w'.buffers S = some B' →
          (w.frameIndices S).isFresh (bufferId S) B'.topologyVersion = false) ∧
      (s.ids.length ≤ 2 ^ 64 → s.ids.Nodup) ∧
      (s.phase ≠ .finished → ∃ t, RestartStep cfg s t) ∧
      (s.phase = .finished → s.passes.length = cfg.softRestarts.toNat + 1) ∧
      (cfg.softRestarts.toNat + 1 < 2 ^ 32 → (restartSystem cfg).Terminating s) := by
  have hloop := loopReplays_of_reachable hcfg h
  have hversions := versionsGrow_of_reachable hcfg h
  refine ⟨fun pass hpass => ⟨(hloop.passes pass hpass).startStep, (hloop.passes pass hpass).length_le⟩,
    hloop.completed, fun pass hpass pass' hpass' k w w' hw hw' => ?_, ?_, fun hlength => ?_,
    exists_restartStep hcfg hloop, fun hfinished => ?_, fun hsize => terminating_of_reachable hsize h⟩
  · rw [((hloop.passes pass hpass).states k w hw).reference,
      ((hloop.passes pass' hpass').states k w' hw').reference]
  · refine hversions.ordered.imp_of_mem fun {later earlier} _ hearlier holder w' hw' w hw S B' hB' => ?_
    obtain ⟨k, hk⟩ := List.mem_iff_getElem?.mp hw
    exact isFresh_eq_false_of_older ((hloop.passes earlier hearlier).states k w hk).indexed
      (holder w' hw' w hw) hB'
  · obtain ⟨start, hids, -⟩ := idsConsecutive_of_reachable hcfg h
    rw [hids]
    exact nodup_idsFrom start hlength
  · obtain ⟨hstopped, hcount⟩ := counted_of_reachable h
    have hlt := hstopped hfinished
    have hsize : cfg.softRestarts.toNat + 1 < 2 ^ 32 := by
      have := s.nthSoftRestart.toNat_lt
      omega
    obtain ⟨hlength, hle⟩ := hcount hsize
    rw [hfinished, if_neg nofun] at hlength
    omega

end Loop

/-! ## Three passes with a few particles -/

/-- Before the first attempt. -/
def emptyStart : RestartState ℚ 0 2 := ⟨.attempt, 0, 0, emptyState, []⟩

theorem emptyStart_reachable (cfg : RestartConfig ℚ 0) : (restartSystem cfg).Reachable emptyStart :=
  .init ⟨rfl, rfl, rfl, rfl⟩

/-- One step, and two soft restarts. -/
def rowConfig : RestartConfig ℚ 0 := ⟨rowSetup, singleArgs, 1, 2⟩

theorem admissible_rowConfig : rowConfig.Admissible 2 where
  pos := by norm_num
  size := by norm_num
  fillable := fillable_rowSetup
  default := nofun
  clear := fun k hk => by
    obtain rfl : k = 0 := Nat.lt_one_iff.mp hk
    exact clear_rowSetup

/-- Away from the sentinel. -/
theorem softRestarts_replay_row : ∃ s : RestartState ℚ 0 2,
    (restartSystem rowConfig).Reachable s ∧ s.phase = .finished ∧ s.passes.length = 3 ∧
      (∀ pass ∈ s.passes, pass.states.length = 2) ∧
      ∀ pass ∈ s.passes, ∀ pass' ∈ s.passes, ∀ (k : ℕ) w w', pass.states[k]? = some w →
        pass'.states[k]? = some w' → w.reference = w'.reference := by
  have hstart := softRestarts_replay admissible_rowConfig (emptyStart_reachable rowConfig)
  obtain ⟨-, -, -, -, -, -, -, hterminating⟩ := hstart
  obtain ⟨s, hs, hterminal⟩ := (hterminating (by decide)).exists_terminal
  have hreachable := (emptyStart_reachable rowConfig).trans hs
  obtain ⟨-, hcompleted, hsame, -, -, hprogress, hpasses, -⟩ :=
    softRestarts_replay admissible_rowConfig hreachable
  have hfinished : s.phase = .finished := by
    by_contra hphase
    obtain ⟨t, ht⟩ := hprogress hphase
    exact hterminal t ht
  rw [RestartState.completed_of_passes (by rw [hfinished]; nofun)] at hcompleted
  exact ⟨s, hreachable, hfinished, hpasses hfinished, hcompleted, hsame⟩

/-! ## Two passes with a particle at the sentinel -/

/-- One step, and one soft restart. -/
def singleConfig (x : ℚ) : RestartConfig ℚ 0 := ⟨[singleBlock x], singleArgs, 1, 1⟩

/-- From an attempt to the loop test, through `fillSimulation`. -/
theorem exists_attempt_fill {s : RestartState ℚ 0 2} (hs : (restartSystem (singleConfig 100)).Reachable s)
    (hphase : s.phase = .attempt) (hleft : s.nthSoftRestart ≤ (1 : UInt32))
    (hshared : ∀ S, Setup.targeting [singleBlock 100] S = [] → s.world.buffers S = none) :
    ∃ ids w, (restartSystem (singleConfig 100)).Reachable
        ⟨.loopTest, s.nthSoftRestart + 1, 0, w, ⟨0, ids, [w]⟩ :: s.passes⟩ ∧
      w.WellFormed ∧ w.Indexed ∧ w.reference = initialReference 2 [singleBlock 100] ∧
      ∀ S, Setup.targeting [singleBlock 100] S = [] → w.buffers S = none := by
  have hfillable := fillable_singleBlock 100
  have hshared' : ∀ S, Setup.targeting [singleBlock 100] S = [] → s.world.resetAll.buffers S = none :=
    hshared
  obtain ⟨ids, w, hw⟩ := exists_fillSimulation (by norm_num) (by norm_num) hfillable hshared'
  obtain ⟨hwf, hindices, hreference, hsome, -⟩ := hw.spec (by norm_num) (by norm_num) hfillable hshared'
  refine ⟨ids, w, (hs.step (.attempt hphase hleft)).step (.fill rfl hw), hwf, indexed_of_empty hindices,
    hreference, fun S hS => ?_⟩
  by_contra hne
  exact (hsome S).mp (Option.isSome_iff_ne_none.mpr hne) hS

/-- **At the sentinel a pass does not replay the one before.** -/
theorem softRestarts_differ : Fillable 2 (singleConfig 100).setup ∧ ∃ s : RestartState ℚ 0 2,
    (restartSystem (singleConfig 100)).Reachable s ∧ ∃ pass ∈ s.passes, ∃ pass' ∈ s.passes, ∃ w w',
      pass.states[1]? = some w ∧ pass'.states[1]? = some w' ∧
        w.reference.particles ≠ w'.reference.particles := by
  refine ⟨fillable_singleBlock 100, ?_⟩
  obtain ⟨ids, w, hs, hwf, hidx, hreference, hshared⟩ :=
    exists_attempt_fill (emptyStart_reachable (singleConfig 100)) rfl (by decide) fun _ _ => rfl
  obtain ⟨w₁, rho₁, hrun₁, hdensity₁, -⟩ := exists_single_gt hwf hidx hreference 0
  have hs₁ := (hs.step (.runOneStep rfl (show (0 : UInt32) < 1 by decide) rfl hrun₁)).step
    (.leave rfl (show ¬ (0 + 1 : UInt32) < 1 by decide))
  have hkeeps := hrun₁.keeps hwf hidx
  have hshared₁ : ∀ S, Setup.targeting [singleBlock 100] S = [] → w₁.buffers S = none := fun S hS => by
    rw [← Option.not_isSome_iff_eq_none, hkeeps.isSome, hshared S hS]
    exact Bool.false_ne_true
  -- a larger density in the second pass
  obtain ⟨ids', w', hs', hwf', hidx', hreference', -⟩ :=
    exists_attempt_fill hs₁ rfl (show (0 + 1 : UInt32) ≤ 1 by decide) hshared₁
  obtain ⟨w₂, rho₂, hrun₂, hdensity₂, hlt⟩ := exists_single_gt hwf' hidx' hreference' rho₁
  have hs₂ := hs'.step (.runOneStep rfl (show (0 : UInt32) < 1 by decide) rfl hrun₂)
  refine ⟨_, hs₂, _, List.mem_cons_self, _, List.mem_cons_of_mem _ List.mem_cons_self, w₂, w₁, rfl, rfl,
    fun heq => ?_⟩
  rw [heq, hdensity₁] at hdensity₂
  exact hlt.ne (Multiset.singleton_inj.mp hdensity₂)

end Control
end Spearhed
