import Spearhed.PmaccParticles.InsertParticles
import Spearhed.PmaccParticles.SendChunks

/-!
# Chunks come into the border

`particles::receiveChunks`.  The particles and the index table of a chunk are received, in any order, and
unless the index table is empty a block for each of its entries inserts the particles.  All of this is done
again as long as the chunk was a full one.

* `sum_insertions`: the entries of a round stand for its particles.
* `receive_ends`: what the messages of a sender do to the border.
-/

namespace Spearhed
namespace PmaccParticles

open Library Mappings Mappings.DataSpaceOperations
open CopyGuardToExchange (Entry arriving arrivingAt arriving_add arriving_log getElem?_mono mem_places places sum_entries)
open SendChunks (Round Sent records records_append records_singleton tableEntry)

variable {DIM frameSize : ℕ} {A : Type}

/-- The arguments of `receiveChunks`, and the size of the stack. -/
structure ReceiveChunks (DIM : ℕ) where
  cellDesc : MappingDescription DIM
  exchangeType : ℕ
  maxSize : ℕ

namespace ReceiveChunks

/-- Where the receiver is. -/
inductive Phase
  /-- With the messages that are in. -/
  | receiveParticles (frames indices : Bool)
  | insertParticles
  | inserted
  | over

structure State (DIM frameSize : ℕ) (A : Type) where
  stack : ExchangeStack DIM A
  insert : InsertParticles.State DIM frameSize A
  phase : Phase
  /-- The rounds that are over. -/
  round : ℕ

variable (K : ReceiveChunks DIM)

/-- `insertParticles` with a block for each entry. -/
def insertParticles (stack : ExchangeStack DIM A) : InsertParticles DIM A where
  exchangeType := K.exchangeType
  cellDesc := K.cellDesc
  data := stack.data
  indexTable := stack.indexTable
  numIndexEntries := stack.indexCount

section Receiver

variable [DataSpaceOperations DIM]

/-- The steps, given the messages that have been sent; those of one tag are received in their order. -/
inductive Step (inbox : List (Message DIM A)) : State DIM frameSize A → State DIM frameSize A → Prop
  | receiveFrames {s : State DIM frameSize A} {indices : Bool} (hphase : s.phase = .receiveParticles false indices)
      {particles : List A} (hmessage : (inbox.filterMap Message.payload)[s.round]? = some particles) :
      Step inbox s { s with
        stack := { s.stack with
          data := fun k => particles[k]?.getD (s.stack.data k)
          particleCount := particles.length }
        phase := .receiveParticles true indices }
  | receiveIndices {s : State DIM frameSize A} {frames : Bool} (hphase : s.phase = .receiveParticles frames false)
      {entries : List (ExchangeMemoryIndex DIM)} (hmessage : (inbox.filterMap Message.index)[s.round]? = some entries) :
      Step inbox s { s with
        stack := { s.stack with
          indexTable := fun k => entries[k]?.getD (s.stack.indexTable k)
          indexCount := entries.length }
        phase := .receiveParticles frames true }
  /-- `InsertNonEmptySender` for an empty chunk. -/
  | skip {s : State DIM frameSize A} (hphase : s.phase = .receiveParticles true true) (hzero : s.stack.indexCount = 0) :
      Step inbox s { s with phase := .inserted }
  | start {s : State DIM frameSize A} (hphase : s.phase = .receiveParticles true true) (hne : s.stack.indexCount ≠ 0) :
      Step inbox s { s with
        insert := InsertParticles.start s.insert.box
        phase := .insertParticles }
  | insert {s : State DIM frameSize A} (hphase : s.phase = .insertParticles) {insert' : InsertParticles.State DIM frameSize A}
      (hstep : (K.insertParticles s.stack).Step s.insert insert') : Step inbox s { s with insert := insert' }
  | sync {s : State DIM frameSize A} (hphase : s.phase = .insertParticles) (hover : (K.insertParticles s.stack).Over s.insert) :
      Step inbox s { s with phase := .inserted }
  | again {s : State DIM frameSize A} (hphase : s.phase = .inserted)
      (hfull : ¬ (s.stack.particleCount = 0 ∨ s.stack.particleCount < K.maxSize)) :
      Step inbox s { s with
        phase := .receiveParticles false false
        round := s.round + 1 }
  | done {s : State DIM frameSize A} (hphase : s.phase = .inserted)
      (hsize : s.stack.particleCount = 0 ∨ s.stack.particleCount < K.maxSize) : Step inbox s { s with phase := .over }

/-- `receiveChunks` before its first round. -/
def begin (box : ParticlesBox DIM frameSize A) (stack : ExchangeStack DIM A) : State DIM frameSize A :=
  ⟨stack, InsertParticles.start box, .receiveParticles false false, 0⟩

def system (box : ParticlesBox DIM frameSize A) (stack : ExchangeStack DIM A) (inbox : List (Message DIM A)) :
    StepSystem (State DIM frameSize A) where
  init s := s = begin box stack
  step := K.Step inbox

/-- A step is still possible when there are more messages. -/
theorem Step.mono {K : ReceiveChunks DIM} {inbox inbox' : List (Message DIM A)} (h : inbox <+: inbox') {s t : State DIM frameSize A}
    (hst : K.Step inbox s t) : K.Step inbox' s t := by
  cases hst with
  | receiveFrames hphase hmessage => exact Step.receiveFrames hphase (getElem?_mono (h.filterMap _) hmessage)
  | receiveIndices hphase hmessage => exact Step.receiveIndices hphase (getElem?_mono (h.filterMap _) hmessage)
  | skip hphase hzero => exact Step.skip hphase hzero
  | start hphase hne => exact Step.start hphase hne
  | insert hphase hstep => exact Step.insert hphase hstep
  | sync hphase hover => exact Step.sync hphase hover
  | again hphase hfull => exact Step.again hphase hfull
  | done hphase hsize => exact Step.done hphase hsize

end Receiver

/-! ## What a round brings -/

section Round

variable [DataSpaceOperations DIM] {S : CopyGuardToExchange} {r : Round DIM A} {N : InsertParticles DIM A}

/-- Where the receiver puts the particles of a supercell of the sender. -/
def imageOf (exchangeType : ℕ) (K : ReceiveChunks DIM) (c : DataSpace DIM) : DataSpace DIM :=
  extend (reduce c exchangeType) K.exchangeType K.cellDesc.gridSuperCells K.cellDesc.guardingSuperCells

/-- **The blocks of a round put its particles where they belong.** -/
theorem sum_insertions (stack : ExchangeStack DIM A) (hentry : ∀ entry ∈ r.entries, entry.Of frameSize r.log)
    (hpartition : (r.entries.map fun entry => places entry.startIdx entry.count).sum = Multiset.range r.log.length)
    (hcount : stack.indexCount = r.entries.length)
    (htable : ∀ (k : ℕ) entry, r.entries[k]? = some entry → stack.indexTable k = tableEntry S entry)
    (hdata : ∀ (k : ℕ) x, r.log[k]? = some x → stack.data k = x.2) (c : DataSpace DIM) :
    ∑ k ∈ Finset.range (K.insertParticles stack).numIndexEntries,
        (if (K.insertParticles stack).dstSuperCell k = c then (K.insertParticles stack).particlesOf k else 0) =
      arriving (imageOf S.exchangeType K) c r.log := by
  have hplace : ∀ k : Fin r.entries.length, ∀ i ∈ Finset.range r.entries[k].count,
      arrivingAt (imageOf S.exchangeType K) c r.log (r.entries[k].startIdx + i) =
        if imageOf S.exchangeType K r.entries[k].superCell = c then {stack.data (r.entries[k].startIdx + i)} else 0 := fun k i hi => by
    obtain ⟨a, ha⟩ := (hentry _ (List.getElem_mem k.isLt)).superCell (r.entries[k].startIdx + i)
      (mem_places.mpr ⟨Nat.le_add_right _ _, Nat.add_lt_add_left (Finset.mem_range.mp hi) _⟩)
    rw [arrivingAt, ha, hdata _ _ ha]
    rfl
  rw [arriving_log, ← sum_entries hpartition]
  show ∑ k ∈ Finset.range stack.indexCount, _ = _
  rw [hcount, Finset.sum_range]
  refine Finset.sum_congr rfl fun k _ => ?_
  rw [Finset.sum_congr rfl (hplace k)]
  have htable' := htable k _ (List.getElem?_eq_getElem k.isLt)
  simp only [InsertParticles.dstSuperCell, InsertParticles.particlesOf, InsertParticles.elementCount, insertParticles, htable',
    tableEntry, imageOf]
  split
  · next hc => exact Finset.sum_congr rfl fun i _ => (if_pos hc).symm
  · next hc => exact (Finset.sum_eq_zero fun i _ => if_neg hc).symm

end Round

section Runs

variable [DataSpaceOperations DIM] {K : ReceiveChunks DIM} {S : CopyGuardToExchange} {image : DataSpace DIM → DataSpace DIM}
  {L L' L'' : DataSpace DIM → List FramePtr} {box box' box'' : ParticlesBox DIM frameSize A} {stack₀ : ExchangeStack DIM A}
  {inbox : List (Message DIM A)} {s t : State DIM frameSize A} {rounds : List (Round DIM A)} {r : Round DIM A}
  {records' records'' : Multiset (DataSpace DIM × A)}

/-- **What the receiver leaves**: the lists have grown, and the records are in their supercells. -/
structure Received (image : DataSpace DIM → DataSpace DIM) (records : Multiset (DataSpace DIM × A))
    (L : DataSpace DIM → List FramePtr) (box : ParticlesBox DIM frameSize A) (L' : DataSpace DIM → List FramePtr)
    (box' : ParticlesBox DIM frameSize A) : Prop where
  holds : box'.Holds L'
  sublist : ∀ c, L c <+: L' c
  heap : ∀ p, p ∈ box'.allocated ↔ p ∈ box.allocated ∨ ∃ c, p ∈ L' c
  unmarked : ∀ c, ∀ p ∈ L' c, Unmarked (box'.frames p).slots
  particles : ∀ c, box'.particles (L' c) = box.particles (L c) + arriving image c records
  counters : ∀ c, (box'.superCells c).numParticles = (box.superCells c).numParticles ∧
    (box'.superCells c).mustShift = (box.superCells c).mustShift

omit [DataSpaceOperations DIM] in
theorem Received.trans (h : Received image records' L box L' box') (h' : Received image records'' L' box' L'' box'') :
    Received image (records' + records'') L box L'' box'' :=
  ⟨h'.holds, fun c => (h.sublist c).trans (h'.sublist c), fun p => by
    have hgrow : (∃ c, p ∈ L' c) → ∃ c, p ∈ L'' c := fun hp => hp.imp fun c hc => (h'.sublist c).subset hc
    rw [h'.heap, h.heap, or_assoc, or_iff_right_of_imp hgrow], h'.unmarked,
    fun c => by rw [h'.particles, h.particles, arriving_add, add_assoc],
    fun c => ⟨(h'.counters c).1.trans (h.counters c).1, (h'.counters c).2.trans (h.counters c).2⟩⟩

/-! ## Whole runs -/

/-- The stack after the messages of a round. -/
def receivedStack (stack : ExchangeStack DIM A) (particles : List A) (entries : List (ExchangeMemoryIndex DIM)) : ExchangeStack DIM A where
  data k := particles[k]?.getD (stack.data k)
  particleCount := particles.length
  indexTable k := entries[k]?.getD (stack.indexTable k)
  indexCount := entries.length

/-- Both messages come in. -/
theorem receiveParticles_ends {Q : State DIM frameSize A → Prop} (hphase : s.phase = .receiveParticles false false)
    {particles : List A} (hparticles : (inbox.filterMap Message.payload)[s.round]? = some particles)
    {entries : List (ExchangeMemoryIndex DIM)} (hentries : (inbox.filterMap Message.index)[s.round]? = some entries)
    (hnext : (K.system box stack₀ inbox).Ends
      ⟨receivedStack s.stack particles entries, s.insert, .receiveParticles true true, s.round⟩ Q) :
    (K.system box stack₀ inbox).Ends s Q := by
  obtain ⟨stack, insert, phase, round⟩ := s
  dsimp only at hphase hparticles hentries hnext
  subst hphase
  refine StepSystem.Ends.of_steps (fun t hst => ?_) fun hterminal => absurd (Step.receiveFrames rfl hparticles) (hterminal _)
  cases hst with
  | receiveFrames hphase hmessage =>
    cases hphase
    obtain rfl := Option.some.inj (hparticles.symm.trans hmessage)
    refine StepSystem.Ends.of_steps (fun t hst => ?_) fun hterminal => absurd (Step.receiveIndices rfl hentries) (hterminal _)
    cases hst with
    | receiveIndices hphase hmessage' =>
      cases hphase
      obtain rfl := Option.some.inj (hentries.symm.trans hmessage')
      exact hnext
    | receiveFrames hphase | skip hphase | start hphase | insert hphase | sync hphase | again hphase | done hphase => cases hphase
  | receiveIndices hphase hmessage =>
    cases hphase
    obtain rfl := Option.some.inj (hentries.symm.trans hmessage)
    refine StepSystem.Ends.of_steps (fun t hst => ?_) fun hterminal => absurd (Step.receiveFrames rfl hparticles) (hterminal _)
    cases hst with
    | receiveFrames hphase hmessage' =>
      cases hphase
      obtain rfl := Option.some.inj (hparticles.symm.trans hmessage')
      exact hnext
    | receiveIndices hphase | skip hphase | start hphase | insert hphase | sync hphase | again hphase | done hphase => cases hphase
  | skip hphase | start hphase | insert hphase | sync hphase | again hphase | done hphase => cases hphase

/-- **One round**: its particles come into the border. -/
theorem round_ends {Q : State DIM frameSize A → Prop} (hphase : s.phase = .receiveParticles false false) (hbox : s.insert.box.Holds L)
    (hunmarked : ∀ c, ∀ p ∈ L c, Unmarked (s.insert.box.frames p).slots) (hsent : Sent S frameSize inbox rounds)
    (hr : rounds[s.round]? = some r)
    (hnext : ∀ t, t.phase = .inserted → t.round = s.round → t.stack.particleCount = r.log.length →
      (∃ L', Received (imageOf S.exchangeType K) r.log L s.insert.box L' t.insert.box) → (K.system box stack₀ inbox).Ends t Q) :
    (K.system box stack₀ inbox).Ends s Q := by
  have hmem : r ∈ rounds := List.mem_of_getElem? hr
  have hparticles : (inbox.filterMap Message.payload)[s.round]? = some (r.log.map Prod.snd) := by
    rw [hsent.payload, List.getElem?_map, hr]
    rfl
  have hentries : (inbox.filterMap Message.index)[s.round]? = some (r.entries.map (tableEntry S)) := by
    rw [hsent.index, List.getElem?_map, hr]
    rfl
  refine receiveParticles_ends hphase hparticles hentries ?_
  have hsum := sum_insertions K (S := S) (receivedStack s.stack (r.log.map Prod.snd) (r.entries.map (tableEntry S)))
    (hsent.entry r hmem) (hsent.partition r hmem) (by simp [receivedStack]) (fun k entry hk => by simp [receivedStack, hk])
    fun k x hk => by simp [receivedStack, hk]
  have hle : ∀ k < (K.insertParticles (receivedStack s.stack (r.log.map Prod.snd) (r.entries.map (tableEntry S)))).numIndexEntries,
      (K.insertParticles (receivedStack s.stack (r.log.map Prod.snd) (r.entries.map (tableEntry S)))).elementCount k ≤ frameSize := by
    intro k hk
    simp only [insertParticles, receivedStack, List.length_map] at hk
    have hget := List.getElem?_eq_getElem hk
    simp only [InsertParticles.elementCount, insertParticles, receivedStack, List.getElem?_map, hget, Option.map_some, Option.getD_some,
      tableEntry]
    exact (hsent.entry r hmem _ (List.getElem_mem hk)).le
  have hcount : (receivedStack s.stack (r.log.map Prod.snd) (r.entries.map (tableEntry S))).particleCount = r.log.length := by
    simp [receivedStack]
  have hindex : (receivedStack s.stack (r.log.map Prod.snd) (r.entries.map (tableEntry S))).indexCount = r.entries.length := by
    simp [receivedStack]
  generalize receivedStack s.stack (r.log.map Prod.snd) (r.entries.map (tableEntry S)) = stack at hsum hle hcount hindex ⊢
  refine StepSystem.Ends.of_steps (fun t hst => ?_) fun hterminal => ?_
  · cases hst with
    | skip _ hzero =>
      refine hnext _ rfl rfl hcount ⟨L, hbox, fun c => List.prefix_refl _, fun p => (or_iff_left_of_imp ?_).symm, hunmarked,
        fun c => ?_, fun c => ⟨rfl, rfl⟩⟩
      · rintro ⟨c, hc⟩
        exact hbox.allocated c p hc
      rw [← hsum c]
      show _ = _ + ∑ k ∈ Finset.range stack.indexCount, _
      rw [show stack.indexCount = 0 from hzero, Finset.sum_range_zero, add_zero]
    | start =>
      refine StepSystem.Ends.phase (fun i => (⟨stack, i, .insertParticles, s.round⟩ : State DIM frameSize A)) (fun i i' hstep => ?_)
        (fun i t hst => ?_) (fun i _ hover => ?_) (InsertParticles.insert_ends (K.insertParticles stack) hbox hunmarked hle)
      · exact Step.insert rfl hstep
      · cases hst with
        | insert _ hstep => exact Or.inl ⟨_, hstep, rfl⟩
        | sync _ hover =>
          refine Or.inr ⟨hover.terminal, ?_⟩
          rintro ⟨-, L', hinserted⟩
          refine hnext _ rfl rfl hcount ⟨L', hinserted.holds, hinserted.sublist, hinserted.heap, hinserted.unmarked, fun c => ?_,
            hinserted.counters⟩
          rw [← hsum c]
          exact hinserted.particles c
        | receiveFrames hphase | receiveIndices hphase | skip hphase | start hphase | again hphase | done hphase => cases hphase
      · exact fun hterminal => hterminal _ (Step.sync rfl hover.1)
    | receiveFrames hphase | receiveIndices hphase | insert hphase | sync hphase | again hphase | done hphase => cases hphase
  · by_cases hzero : stack.indexCount = 0
    · exact absurd (Step.skip rfl hzero) (hterminal _)
    · exact absurd (Step.start rfl hzero) (hterminal _)

/-- The rounds that are left. -/
theorem rounds_end {full : List (Round DIM A)} {last : Round DIM A} (hsent : Sent S frameSize inbox (full ++ [last]))
    (hfull : ∀ r ∈ full, r.log.length = K.maxSize) (hlast : last.log.length < K.maxSize) {n : ℕ} (hn : s.round + n = full.length)
    (hphase : s.phase = .receiveParticles false false) (hbox : s.insert.box.Holds L)
    (hunmarked : ∀ c, ∀ p ∈ L c, Unmarked (s.insert.box.frames p).slots) :
    (K.system box stack₀ inbox).Ends s fun t => t.phase = .over ∧ t.round = full.length ∧
      ∃ L', Received (imageOf S.exchangeType K) (records ((full ++ [last]).drop s.round)) L s.insert.box L' t.insert.box := by
  induction n generalizing s L with
  | zero =>
    have hget : (full ++ [last])[s.round]? = some last := by rw [show s.round = full.length from hn]; simp
    refine round_ends hphase hbox hunmarked hsent hget fun t ht hround hcount hreceived => ?_
    have hsize : t.stack.particleCount < K.maxSize := hcount.trans_lt hlast
    refine StepSystem.Ends.of_steps (fun u hst => ?_) fun hterminal => absurd (Step.done ht (Or.inr hsize)) (hterminal _)
    cases hst with
    | done =>
      refine StepSystem.Ends.of_terminal (fun u hst => ?_) ⟨rfl, hround.trans hn, ?_⟩
      · cases hst with
        | receiveFrames hphase | receiveIndices hphase | skip hphase | start hphase | insert hphase | sync hphase | again hphase
        | done hphase => cases hphase
      · rw [show s.round = full.length from hn, List.drop_left, records_singleton]
        exact hreceived
    | again _ hfull' => exact absurd (Or.inr hsize) hfull'
    | receiveFrames hphase | receiveIndices hphase | skip hphase | start hphase | insert hphase | sync hphase =>
      rw [ht] at hphase
      cases hphase
  | succ n ih =>
    have hlt : s.round < full.length := by omega
    have hget : (full ++ [last])[s.round]? = some full[s.round] := by
      rw [List.getElem?_append_left hlt, List.getElem?_eq_getElem hlt]
    refine round_ends hphase hbox hunmarked hsent hget fun t ht hround hcount hreceived => ?_
    obtain ⟨L', hreceived⟩ := hreceived
    rw [hfull _ (List.getElem_mem hlt)] at hcount
    have hsize : ¬ (t.stack.particleCount = 0 ∨ t.stack.particleCount < K.maxSize) := by omega
    refine StepSystem.Ends.of_steps (fun u hst => ?_) fun hterminal => absurd (Step.again ht hsize) (hterminal _)
    cases hst with
    | again =>
      refine (ih (s := ⟨t.stack, t.insert, .receiveParticles false false, t.round + 1⟩) (L := L') ?_ rfl hreceived.holds
        hreceived.unmarked).mono ?_
      · dsimp only
        omega
      · rintro u ⟨hover, hrounds, L'', hreceived'⟩
        refine ⟨hover, hrounds, L'', ?_⟩
        have hdrop : (full ++ [last]).drop s.round = full[s.round] :: (full ++ [last]).drop (t.round + 1) := by
          rw [hround, List.drop_eq_getElem_cons (by simp; omega), List.getElem_append_left hlt]
        rw [hdrop, ← List.singleton_append, records_append, records_singleton]
        exact hreceived.trans hreceived'
    | done _ hsize' => exact absurd hsize' hsize
    | receiveFrames hphase | receiveIndices hphase | skip hphase | start hphase | insert hphase | sync hphase =>
      rw [ht] at hphase
      cases hphase

/-- **Every run of the receiver ends**, and the particles of the rounds that were sent are in their
supercells. -/
theorem receive_ends {full : List (Round DIM A)} {last : Round DIM A} (hsent : Sent S frameSize inbox (full ++ [last]))
    (hfull : ∀ r ∈ full, r.log.length = K.maxSize) (hlast : last.log.length < K.maxSize) (hbox : box.Holds L)
    (hunmarked : ∀ c, ∀ p ∈ L c, Unmarked (box.frames p).slots) (stack : ExchangeStack DIM A) :
    (K.system box stack inbox).Ends (begin box stack) fun t => t.phase = .over ∧ t.round = full.length ∧
      ∃ L', Received (imageOf S.exchangeType K) (records (full ++ [last])) L box L' t.insert.box :=
  rounds_end (s := begin box stack) hsent hfull hlast (zero_add _) rfl hbox hunmarked

end Runs

end ReceiveChunks
end PmaccParticles
end Spearhed
