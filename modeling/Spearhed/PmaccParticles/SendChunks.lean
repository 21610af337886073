import Spearhed.Library.Pipeline
import Spearhed.PmaccParticles.CopyGuardToExchange

/-!
# A guard goes out in chunks

`particles::sendChunks`.  The stack is reset, `copyGuardToExchange` fills it from the guard, its sizes are
published, and its particles and its index table are sent as two messages, in any order.  All of this is done
again as long as the stack was full.

* `Sent`: the messages, as the rounds that they stand for.
* `send_ends`: every run sends every particle of the guard once, in chunks all but the last of which are full.
-/

namespace Spearhed
namespace PmaccParticles

open CopyGuardToExchange Library Mappings Mappings.DataSpaceOperations

variable {DIM frameSize : ℕ} {A : Type}

/-- The messages of an exchange, which have tags of their own. -/
inductive Message (DIM : ℕ) (A : Type)
  | frames (particles : List A)
  | indices (entries : List (ExchangeMemoryIndex DIM))

namespace Message

def payload : Message DIM A → Option (List A)
  | .frames particles => some particles
  | .indices _ => none

def index : Message DIM A → Option (List (ExchangeMemoryIndex DIM))
  | .frames _ => none
  | .indices entries => some entries

end Message

/-- What is sent of a stack. -/
def ExchangeStack.framesMessage (stack : ExchangeStack DIM A) : Message DIM A :=
  .frames ((List.range stack.particleCount).map stack.data)

def ExchangeStack.indicesMessage (stack : ExchangeStack DIM A) : Message DIM A :=
  .indices ((List.range stack.indexCount).map stack.indexTable)

namespace SendChunks

/-- Where the sender is. -/
inductive Phase
  | reset
  | copyGuardToExchange
  /-- With the messages that are out. -/
  | sendParticles (lastSize : ℕ) (frames indices : Bool)
  | over

structure State (DIM frameSize : ℕ) (A : Type) where
  guard : CopyGuardToExchange.State DIM frameSize A
  phase : Phase
  posted : List (Message DIM A)

section Sender

variable [DataSpaceOperations DIM] (K : CopyGuardToExchange)

inductive Step (blocks : Finset (DataSpace DIM)) : State DIM frameSize A → State DIM frameSize A → Prop
  | reset {s : State DIM frameSize A} (hphase : s.phase = .reset) :
      Step blocks s { s with
        guard := start s.guard.box s.guard.stack.reset
        phase := .copyGuardToExchange }
  | copy {s : State DIM frameSize A} (hphase : s.phase = .copyGuardToExchange) {c : DataSpace DIM} (hc : c ∈ blocks)
      {guard' : CopyGuardToExchange.State DIM frameSize A} (hstep : K.Step c s.guard guard') :
      Step blocks s { s with guard := guard' }
  /-- The kernel is over. -/
  | publishDeviceSizes {s : State DIM frameSize A} (hphase : s.phase = .copyGuardToExchange) (hdone : ∀ c ∈ blocks, s.guard.pc c = .done) :
      Step blocks s { s with phase := .sendParticles s.guard.stack.particleCount false false }
  | sendFrames {s : State DIM frameSize A} {lastSize : ℕ} {indices : Bool} (hphase : s.phase = .sendParticles lastSize false indices) :
      Step blocks s { s with
        phase := .sendParticles lastSize true indices
        posted := s.posted ++ [s.guard.stack.framesMessage] }
  | sendIndices {s : State DIM frameSize A} {lastSize : ℕ} {frames : Bool} (hphase : s.phase = .sendParticles lastSize frames false) :
      Step blocks s { s with
        phase := .sendParticles lastSize frames true
        posted := s.posted ++ [s.guard.stack.indicesMessage] }
  | again {s : State DIM frameSize A} {lastSize : ℕ} (hphase : s.phase = .sendParticles lastSize true true)
      (hfull : lastSize = K.maxSize) : Step blocks s { s with phase := .reset }
  | done {s : State DIM frameSize A} {lastSize : ℕ} (hphase : s.phase = .sendParticles lastSize true true)
      (hsize : lastSize ≠ K.maxSize) : Step blocks s { s with phase := .over }

/-- `sendChunks` before its first round. -/
def begin (box : ParticlesBox DIM frameSize A) (stack : ExchangeStack DIM A) : State DIM frameSize A := ⟨start box stack, .reset, []⟩

def system (blocks : Finset (DataSpace DIM)) (box : ParticlesBox DIM frameSize A) (stack : ExchangeStack DIM A) :
    StepSystem (State DIM frameSize A) where
  init s := s = begin box stack
  step := Step K blocks

/-- Messages are not taken back. -/
theorem Step.posted_mono {K : CopyGuardToExchange} {blocks : Finset (DataSpace DIM)} {s t : State DIM frameSize A}
    (hst : Step K blocks s t) : s.posted <+: t.posted := by
  cases hst with
  | sendFrames | sendIndices => exact List.prefix_append _ _
  | _ => exact List.prefix_refl _

/-! ## What is sent -/

/-- The particles of a round with their supercells, and how the index table shares them out. -/
structure Round (DIM : ℕ) (A : Type) where
  log : List (DataSpace DIM × A)
  entries : List (Entry DIM)

/-- The particles of some rounds. -/
def records (rounds : List (Round DIM A)) : Multiset (DataSpace DIM × A) := (rounds.map fun r => (r.log : Multiset (DataSpace DIM × A))).sum

/-- An entry as the index table has it. -/
def tableEntry (entry : Entry DIM) : ExchangeMemoryIndex DIM := ⟨reduce entry.superCell K.exchangeType, entry.startIdx, entry.count⟩

/-- The messages of some rounds, in the order of each tag. -/
structure Sent (frameSize : ℕ) (posted : List (Message DIM A)) (rounds : List (Round DIM A)) : Prop where
  payload : posted.filterMap Message.payload = rounds.map fun r => r.log.map Prod.snd
  index : posted.filterMap Message.index = rounds.map fun r => r.entries.map (tableEntry K)
  entry : ∀ r ∈ rounds, ∀ entry ∈ r.entries, entry.Of frameSize r.log
  partition : ∀ r ∈ rounds, (r.entries.map fun entry => places entry.startIdx entry.count).sum = Multiset.range r.log.length

end Sender

theorem records_append (rounds rounds' : List (Round DIM A)) : records (rounds ++ rounds') = records rounds + records rounds' := by
  rw [records, List.map_append, List.sum_append, records, records]

theorem records_singleton (r : Round DIM A) : records [r] = r.log := by
  rw [records, List.map_singleton, List.sum_singleton]

theorem card_records (rounds : List (Round DIM A)) : (records rounds).card = (rounds.map fun r => r.log.length).sum := by
  induction rounds with
  | nil => rfl
  | cons r rounds ih =>
    rw [← List.singleton_append, records_append, Multiset.card_add, records_singleton, ih, List.map_append, List.sum_append]
    rfl

section Runs

variable [DataSpaceOperations DIM] {K : CopyGuardToExchange} {blocks : Finset (DataSpace DIM)}
  {L L' : DataSpace DIM → List FramePtr} {box box' : ParticlesBox DIM frameSize A} {s₀ : ExchangeStack DIM A}
  {stack : ExchangeStack DIM A} {log : List (DataSpace DIM × A)} {entries : List (Entry DIM)} {s t : State DIM frameSize A}
  {posted : List (Message DIM A)} {rounds : List (Round DIM A)}

/-- The messages of a stack. -/
theorem framesMessage_eq (h : K.Stacked frameSize stack log entries) : stack.framesMessage = .frames (log.map Prod.snd) := by
  rw [ExchangeStack.framesMessage, h.particleCount]
  refine congrArg Message.frames (List.ext_getElem? fun k => ?_)
  rcases Nat.lt_or_ge k log.length with hk | hk
  · have hget := List.getElem?_eq_getElem hk
    simp [hk, h.data k _ hget]
  · simp [hk]

theorem indicesMessage_eq (h : K.Stacked frameSize stack log entries) : stack.indicesMessage = .indices (entries.map (tableEntry K)) := by
  rw [ExchangeStack.indicesMessage, h.indexCount]
  refine congrArg Message.indices (List.ext_getElem? fun k => ?_)
  rcases Nat.lt_or_ge k entries.length with hk | hk
  · have hget := List.getElem?_eq_getElem hk
    simp [hk, h.indexTable k _ hget, tableEntry]
  · simp [hk]

/-- **The two messages of a round** stand for it, in any order. -/
theorem Sent.round (h : Sent K frameSize posted rounds) (hstack : K.Stacked frameSize stack log entries)
    {messages : List (Message DIM A)} (hmessages : messages = [stack.framesMessage, stack.indicesMessage] ∨
      messages = [stack.indicesMessage, stack.framesMessage]) :
    Sent K frameSize (posted ++ messages) (rounds ++ [⟨log, entries⟩]) := by
  rw [framesMessage_eq hstack, indicesMessage_eq hstack] at hmessages
  refine ⟨?_, ?_, fun r hr => ?_, fun r hr => ?_⟩
  · rw [List.filterMap_append, h.payload, List.map_append]
    rcases hmessages with rfl | rfl <;> rfl
  · rw [List.filterMap_append, h.index, List.map_append]
    rcases hmessages with rfl | rfl <;> rfl
  · rcases List.mem_append.mp hr with hr | hr
    · exact h.entry r hr
    · obtain rfl := List.mem_singleton.mp hr
      exact hstack.entry
  · rcases List.mem_append.mp hr with hr | hr
    · exact h.partition r hr
    · obtain rfl := List.mem_singleton.mp hr
      exact hstack.partition

/-! ## Whole runs -/

/-- Both messages go out. -/
theorem sendParticles_ends {Q : State DIM frameSize A → Prop} {lastSize : ℕ} (hphase : s.phase = .sendParticles lastSize false false)
    (hnext : ∀ messages, messages = [s.guard.stack.framesMessage, s.guard.stack.indicesMessage] ∨
        messages = [s.guard.stack.indicesMessage, s.guard.stack.framesMessage] →
      (system K blocks box s₀).Ends ⟨s.guard, .sendParticles lastSize true true, s.posted ++ messages⟩ Q) :
    (system K blocks box s₀).Ends s Q := by
  obtain ⟨guard, phase, posted⟩ := s
  dsimp only at hphase hnext
  subst hphase
  refine StepSystem.Ends.of_steps (fun t hst => ?_) fun hterminal => absurd (Step.sendFrames rfl) (hterminal _)
  cases hst with
  | sendFrames hphase =>
    cases hphase
    refine StepSystem.Ends.of_steps (fun t hst => ?_) fun hterminal => absurd (Step.sendIndices rfl) (hterminal _)
    cases hst with
    | sendIndices hphase =>
      cases hphase
      dsimp only
      rw [List.append_assoc]
      exact hnext _ (Or.inl rfl)
    | reset hphase | copy hphase | publishDeviceSizes hphase | sendFrames hphase | again hphase | done hphase => cases hphase
  | sendIndices hphase =>
    cases hphase
    refine StepSystem.Ends.of_steps (fun t hst => ?_) fun hterminal => absurd (Step.sendFrames rfl) (hterminal _)
    cases hst with
    | sendFrames hphase =>
      cases hphase
      dsimp only
      rw [List.append_assoc]
      exact hnext _ (Or.inr rfl)
    | reset hphase | copy hphase | publishDeviceSizes hphase | sendIndices hphase | again hphase | done hphase => cases hphase
  | reset hphase | copy hphase | publishDeviceSizes hphase | again hphase | done hphase => cases hphase

/-- **One round**: the kernel runs to its end, and what it has put into the stack is sent. -/
theorem round_ends {Q : State DIM frameSize A → Prop} (hphase : s.phase = .reset) (hbox : s.guard.box.Holds L)
    (hunmarked : ∀ c ∈ blocks, ∀ p ∈ L c, Unmarked (s.guard.box.frames p).slots) (hsizes : Sizes K blocks L s.guard.box)
    (hsent : Sent K frameSize s.posted rounds)
    (hnext : ∀ guard L' log entries posted, K.Copied blocks L s.guard.box guard.box guard.stack L' log entries →
      Sent K frameSize posted (rounds ++ [⟨log, entries⟩]) →
      (system K blocks box s₀).Ends ⟨guard, .sendParticles log.length true true, posted⟩ Q) :
    (system K blocks box s₀).Ends s Q := by
  obtain ⟨guard, phase, posted⟩ := s
  dsimp only at hphase hbox hunmarked hsizes hsent hnext
  subst hphase
  refine StepSystem.Ends.of_steps (fun t hst => ?_) fun hterminal => absurd (Step.reset rfl) (hterminal _)
  cases hst with
  | reset =>
    have hexit : ∀ g : CopyGuardToExchange.State DIM frameSize A, (K.system blocks (start guard.box guard.stack.reset)).Terminal g →
        ∀ c ∈ blocks, g.pc c = .done := fun g hterminal c hc =>
      (exists_step K c g).resolve_right fun ⟨g', hstep⟩ => hterminal g' ⟨c, hc, hstep⟩
    refine StepSystem.Ends.phase (fun g => (⟨g, .copyGuardToExchange, posted⟩ : State DIM frameSize A)) (fun g g' hstep => ?_)
      (fun g t hst => ?_) (fun g hterminal _ => ?_) (copy_ends K hbox hunmarked hsizes guard.stack)
    · obtain ⟨c, hc, hstep⟩ := hstep
      exact Step.copy rfl hc hstep
    · cases hst with
      | copy hphase hc hstep => exact Or.inl ⟨_, ⟨_, hc, hstep⟩, rfl⟩
      | publishDeviceSizes hphase hdone =>
        refine Or.inr ⟨?_, ?_⟩
        · rintro g' ⟨c, hc, hstep⟩
          exact hstep.ne_done (hdone c hc)
        · rintro ⟨L', log, entries, hcopied⟩
          refine sendParticles_ends rfl fun messages hmessages => ?_
          rw [show g.stack.particleCount = log.length from hcopied.stacked.particleCount]
          exact hnext g L' log entries _ hcopied (hsent.round hcopied.stacked hmessages)
      | reset hphase | sendFrames hphase | sendIndices hphase | again hphase | done hphase => cases hphase
    · exact fun hterm => hterm _ (Step.publishDeviceSizes rfl (hexit g hterminal))
  | copy hphase | publishDeviceSizes hphase | sendFrames hphase | sendIndices hphase | again hphase | done hphase => cases hphase

/-- **What the sender leaves**: the guard is empty, and its frames are back in the heap. -/
structure Sending (K : CopyGuardToExchange) (blocks : Finset (DataSpace DIM)) (L : DataSpace DIM → List FramePtr)
    (box box' : ParticlesBox DIM frameSize A) (L' : DataSpace DIM → List FramePtr) (full : List (Round DIM A)) (last : Round DIM A) :
    Prop where
  framed : Framed blocks L box L' box'
  empty : ∀ c ∈ blocks, L' c = []
  records : records (full ++ [last]) = ∑ c ∈ blocks, (box.particles (L c)).map (Prod.mk c)
  full : ∀ r ∈ full, r.log.length = K.maxSize
  last : last.log.length < K.maxSize

/-- The rounds that are left, by induction on the particles in the guard. -/
theorem rounds_end (hpos : 0 < K.maxSize) {n : ℕ} (hn : ∑ c ∈ blocks, (s.guard.box.particles (L c)).card ≤ n)
    (hphase : s.phase = .reset) (hbox : s.guard.box.Holds L)
    (hunmarked : ∀ c ∈ blocks, ∀ p ∈ L c, Unmarked (s.guard.box.frames p).slots) (hsizes : Sizes K blocks L s.guard.box)
    (hsent : Sent K frameSize s.posted rounds) :
    (system K blocks box s₀).Ends s fun t => ∃ L' full last, t.phase = .over ∧ Sent K frameSize t.posted (rounds ++ full ++ [last]) ∧
      Sending K blocks L s.guard.box t.guard.box L' full last := by
  induction n using Nat.strong_induction_on generalizing s L rounds with
  | _ n ih =>
    refine round_ends hphase hbox hunmarked hsizes hsent fun guard L' log entries posted hcopied hsent' => ?_
    have hcard := congrArg Multiset.card hcopied.records
    simp only [Multiset.card_add, Multiset.coe_card, Multiset.card_sum, Multiset.card_map] at hcard
    refine StepSystem.Ends.of_steps (fun t hst => ?_) fun hterminal => ?_
    · cases hst with
      | again hphase hfull =>
        cases hphase
        have hless : ∑ c ∈ blocks, (guard.box.particles (L' c)).card < n := by omega
        have hrest := ih _ hless (s := ⟨guard, .reset, posted⟩) (L := L') le_rfl rfl
          hcopied.framed.holds hcopied.unmarked (hcopied.sizes hsizes) hsent'
        refine hrest.mono ?_
        rintro t ⟨L'', full, last, hover, hsent'', hsending⟩
        refine ⟨L'', ⟨log, entries⟩ :: full, last, hover, ?_, hcopied.framed.trans hsending.framed, hsending.empty, ?_, ?_, hsending.last⟩
        · simpa using hsent''
        · rw [← hcopied.records, ← hsending.records, List.cons_append, ← List.singleton_append, records_append, records_singleton]
        · exact List.forall_mem_cons.mpr ⟨hfull, hsending.full⟩
      | done hphase hsize =>
        cases hphase
        have hlt : log.length < K.maxSize := lt_of_le_of_ne (hcopied.length_eq ▸ min_le_left _ _) hsize
        have hempty := hcopied.empty hlt
        refine StepSystem.Ends.of_terminal (fun t hst => ?_) ⟨L', [], ⟨log, entries⟩, rfl, ?_, hcopied.framed, hempty, ?_, ?_, hlt⟩
        · cases hst with
          | reset hphase | copy hphase | publishDeviceSizes hphase | sendFrames hphase | sendIndices hphase | again hphase | done hphase =>
            cases hphase
        · rwa [List.append_nil]
        · rw [List.nil_append, records_singleton, ← hcopied.records, Finset.sum_eq_zero, add_zero]
          intro c hc
          rw [hempty c hc, ParticlesBox.particles_nil, Multiset.map_zero]
        · exact fun r hr => absurd hr List.not_mem_nil
      | reset hphase | copy hphase | publishDeviceSizes hphase | sendFrames hphase | sendIndices hphase => cases hphase
    · by_cases hfull : log.length = K.maxSize
      · exact absurd (Step.again rfl hfull) (hterminal _)
      · exact absurd (Step.done rfl hfull) (hterminal _)

/-- **Every run of the sender ends**, and the guard has gone out: every particle once, in rounds all but the
last of which have filled the stack. -/
theorem send_ends (hpos : 0 < K.maxSize) (hbox : box.Holds L) (hunmarked : ∀ c ∈ blocks, ∀ p ∈ L c, Unmarked (box.frames p).slots)
    (hsizes : Sizes K blocks L box) (stack : ExchangeStack DIM A) :
    (system K blocks box stack).Ends (begin box stack) fun t => ∃ L' full last, t.phase = .over ∧
      Sent K frameSize t.posted (full ++ [last]) ∧ Sending K blocks L box t.guard.box L' full last := by
  have hsent : Sent K frameSize [] ([] : List (Round DIM A)) :=
    ⟨rfl, rfl, fun _ hr => absurd hr List.not_mem_nil, fun _ hr => absurd hr List.not_mem_nil⟩
  exact (rounds_end (s := begin box stack) hpos le_rfl rfl hbox hunmarked hsizes hsent).mono fun _ ht => ht

omit [DataSpaceOperations DIM] in
/-- How many rounds there are. -/
theorem Sending.length_eq {full : List (Round DIM A)} {last : Round DIM A} (h : Sending K blocks L box box' L' full last) :
    (full ++ [last]).length = (∑ c ∈ blocks, (box.particles (L c)).card) / K.maxSize + 1 := by
  have hcard := congrArg Multiset.card h.records
  rw [card_records, List.map_append, List.sum_append, List.map_singleton, List.sum_singleton, Multiset.card_sum,
    List.map_congr_left h.full, List.map_const', List.sum_replicate, smul_eq_mul] at hcard
  simp only [Multiset.card_map] at hcard
  have hlast := h.last
  rw [List.length_append, List.length_singleton, ← hcard, Nat.add_comm (full.length * _), Nat.add_mul_div_right _ _ (by omega),
    Nat.div_eq_of_lt hlast, zero_add]

end Runs

end SendChunks
end PmaccParticles
end Spearhed
