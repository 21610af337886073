import Spearhed.Communication.Exchange

/-!
# The tags of exchanges

The exchanges of a `GridBuffer` are told apart by `uniqCommunicationTag`, a communication tag and a
direction.  `UniquTag` keeps the tags of a process, but a buffer enters only the first direction of its
first call: the flag `hasOneExchange` is set inside the loop over the directions.  A call that throws
leaves what it has done by then.

* `Call.run_cases`: a call throws at once or runs its loop over the directions, as far as it gets.
* `tagsApart_iff`: the tags of a run are apart if no call that is accepted has a direction in common with
  another buffer of the same communication tag, and only then.
-/

namespace Spearhed
namespace Communication
namespace ExchangeTags

open Library Mappings MappingDescription

variable {DIM : ℕ}

/-! ## Calls that may throw -/

/-- What a direction has changed when it throws; every direction of the loop has a mirror. -/
def changedAtThrow (communicationTag : BitVec 32) (state : GridBuffer DIM × UniquTag) (ex : ℕ) :
    GridBuffer DIM × UniquTag :=
  let uniqu := state.1.claimTag state.2 (uniqCommunicationTag communicationTag ex)
  if uniqu.1 = false then state else ({ state.1 with hasOneExchange := true }, uniqu.2)

/-- The loop over the directions, which the first exception ends. -/
def addDirections (communicationTag : BitVec 32) (send : Mask) (sendExchange receiveExchange : ℕ → BitVec 32 → Exchange DIM) :
    List ℕ → GridBuffer DIM × UniquTag → Except String Unit × (GridBuffer DIM × UniquTag)
  | [], state => (.ok (), state)
  | ex :: exs, state =>
    if send.isSet ex then
      match GridBuffer.addDirection communicationTag sendExchange receiveExchange state ex with
      | .ok state' => addDirections communicationTag send sendExchange receiveExchange exs state'
      | .error exception => (.error exception, changedAtThrow communicationTag state ex)
    else addDirections communicationTag send sendExchange receiveExchange exs state

/-- `GridBuffer::addExchange`, for a communicator of dimension `T_CommDim`. -/
def addExchange (T_CommDim : ℕ) (dataPlace : AreaType) (receive : Mask) (guardingCells : DataSpace DIM)
    (communicationTag : BitVec 32) (state : GridBuffer DIM × UniquTag) :
    Except String Unit × (GridBuffer DIM × UniquTag) :=
  match state.1.checkTag communicationTag with
  | .error exception => (.error exception, state)
  | .ok () =>
    let buffer := { state.1 with lastUsedCommunicationTag := communicationTag }.withReceiveMask receive
    addDirections communicationTag receive.getMirroredMask
      (fun ex tag =>
        Exchange.inGrid buffer.gridLayout guardingCells ex tag (if dataPlace = .GUARD then .BORDER else .GUARD))
      (fun recvex tag =>
        Exchange.inGrid buffer.gridLayout guardingCells recvex tag (if dataPlace = .GUARD then .GUARD else .BORDER))
      (GridBuffer.directions T_CommDim) (buffer, state.2)

/-- `GridBuffer::addExchangeBuffer`; without elements, there are no exchanges. -/
def addExchangeBuffer (T_CommDim : ℕ) (receive : Mask) (dataSpace : DataSpace DIM) (communicationTag : BitVec 32)
    (state : GridBuffer DIM × UniquTag) : Except String Unit × (GridBuffer DIM × UniquTag) :=
  match state.1.checkTag communicationTag with
  | .error exception => (.error exception, state)
  | .ok () =>
    let buffer := { state.1 with lastUsedCommunicationTag := communicationTag }
    if int32 (productOfComponents dataSpace) ≠ 0 then
      addDirections communicationTag receive.getMirroredMask (fun ex tag => Exchange.dedicated dataSpace ex tag)
        (fun recvex tag => Exchange.dedicated dataSpace recvex tag) (GridBuffer.directions T_CommDim)
        (buffer.withReceiveMask receive, state.2)
    else (.ok (), (buffer, state.2))

/-- A call of one of the two. -/
inductive Call (DIM : ℕ)
  | addExchange (dataPlace : AreaType) (receive : Mask) (guardingCells : DataSpace DIM) (communicationTag : BitVec 32)
  | addExchangeBuffer (receive : Mask) (dataSpace : DataSpace DIM) (communicationTag : BitVec 32)

namespace Call

def communicationTag : Call DIM → BitVec 32
  | addExchange _ _ _ communicationTag => communicationTag
  | addExchangeBuffer _ _ communicationTag => communicationTag

/-- The directions a call sends to. -/
def directions (T_CommDim : ℕ) : Call DIM → List ℕ
  | addExchange _ receive _ _ => (GridBuffer.directions T_CommDim).filter receive.getMirroredMask.isSet
  | addExchangeBuffer receive dataSpace _ =>
    if int32 (productOfComponents dataSpace) ≠ 0 then
      (GridBuffer.directions T_CommDim).filter receive.getMirroredMask.isSet
    else []

def run (T_CommDim : ℕ) : Call DIM → GridBuffer DIM × UniquTag → Except String Unit × (GridBuffer DIM × UniquTag)
  | addExchange dataPlace receive guardingCells communicationTag =>
    ExchangeTags.addExchange T_CommDim dataPlace receive guardingCells communicationTag
  | addExchangeBuffer receive dataSpace communicationTag =>
    ExchangeTags.addExchangeBuffer T_CommDim receive dataSpace communicationTag

end Call

/-! ## Processes -/

variable {β : Type*} [DecidableEq β] {dim : β → ℕ}

/-- The buffers of a process, which may be of different dimensions, and its tags. -/
structure Process (dim : β → ℕ) where
  buffers : (b : β) → GridBuffer (dim b)
  tags : UniquTag := []
  /-- The directions a buffer has got from calls that returned. -/
  returned : β → List ℕ := fun _ => []

namespace Process

/-- Buffers without exchanges. -/
def initial (gridLayout : (b : β) → GridLayout (dim b)) : Process dim where
  buffers := fun b => { gridLayout := gridLayout b }

/-- One call on one of the buffers. -/
def call (commDim : β → ℕ) (s : Process dim) (c : (b : β) × Call (dim b)) : Process dim :=
  let result := c.2.run (commDim c.1) (s.buffers c.1, s.tags)
  { buffers := Function.update s.buffers c.1 result.2.1
    tags := result.2.2
    returned :=
      match result.1 with
      | .ok () => Function.update s.returned c.1 (s.returned c.1 ++ c.2.directions (commDim c.1))
      | .error _ => s.returned }

/-- A run of calls. -/
def calls (commDim : β → ℕ) (s : Process dim) (cs : List ((b : β) × Call (dim b))) : Process dim :=
  cs.foldl (call commDim) s

/-- Exchanges of different buffers have different tags, where calls that returned have made them. -/
def TagsApart (s : Process dim) : Prop :=
  ∀ b b', b ≠ b' → ∀ ex ∈ s.returned b, ∀ ex' ∈ s.returned b',
    (∀ X X', (s.buffers b).sendExchanges ex = some X → (s.buffers b').sendExchanges ex' = some X' →
      X.communicationTag ≠ X'.communicationTag) ∧
    ∀ X X', (s.buffers b).receiveExchanges (Mask.mirrored ex) = some X →
      (s.buffers b').receiveExchanges (Mask.mirrored ex') = some X' → X.communicationTag ≠ X'.communicationTag

/-- A call that does not throw: the communication tag stays the same, no direction has an exchange
already, and the first tag of a buffer is not in use. -/
def Accepted (commDim : β → ℕ) (s : Process dim) (c : (b : β) × Call (dim b)) : Prop :=
  ((s.buffers c.1).hasOneExchange = true → c.2.communicationTag = (s.buffers c.1).lastUsedCommunicationTag) ∧
    (∀ ex ∈ c.2.directions (commDim c.1), (s.buffers c.1).sendExchanges ex = none) ∧
    ((s.buffers c.1).hasOneExchange = false → ∀ ex ∈ (c.2.directions (commDim c.1)).head?,
      uniqCommunicationTag c.2.communicationTag ex ∉ s.tags)

/-- No other buffer with the communication tag of the call has one of its directions. -/
def Separate (commDim : β → ℕ) (s : Process dim) (c : (b : β) × Call (dim b)) : Prop :=
  ∀ b ≠ c.1, (s.buffers b).lastUsedCommunicationTag = c.2.communicationTag →
    ∀ ex ∈ c.2.directions (commDim c.1), ex ∉ s.returned b

end Process

/-! ## Tags -/

theorem toNat_uniqCommunicationTag {communicationTag : BitVec 32} (hsmall : communicationTag.toNat < 2 ^ 27) {ex : ℕ}
    (hex : ex < 27) : (uniqCommunicationTag communicationTag ex).toNat = communicationTag.toNat * 32 + ex := by
  have hshift : communicationTag.toNat * 32 < 2 ^ 32 := by omega
  have hor : communicationTag.toNat * 2 ^ 5 + ex = communicationTag.toNat * 2 ^ 5 ||| ex := by
    rw [← Nat.shiftLeft_eq, Nat.shiftLeft_add_eq_or_of_lt (by omega)]
  rw [uniqCommunicationTag, BitVec.toNat_or, BitVec.toNat_shiftLeft, BitVec.toNat_ofNat, Nat.shiftLeft_eq,
    Nat.mod_eq_of_lt hshift, Nat.mod_eq_of_lt (by omega)]
  exact hor.symm

/-- A tag shows its communication tag and its direction. -/
theorem uniqCommunicationTag_inj {t t' : BitVec 32} (ht : t.toNat < 2 ^ 27) (ht' : t'.toNat < 2 ^ 27) {ex ex' : ℕ}
    (hex : ex < 27) (hex' : ex' < 27) : uniqCommunicationTag t ex = uniqCommunicationTag t' ex' ↔ t = t' ∧ ex = ex' := by
  refine ⟨fun h => ?_, fun h => by rw [h.1, h.2]⟩
  have hnat := congrArg BitVec.toNat h
  rw [toNat_uniqCommunicationTag ht hex, toNat_uniqCommunicationTag ht' hex'] at hnat
  exact ⟨BitVec.toNat_inj.mp (by omega), by omega⟩

/-- The exchanges of a buffer have tags of one communication tag, in pairs. -/
structure Tagged (communicationTag : BitVec 32) (buffer : GridBuffer DIM) : Prop where
  lt : ∀ ex, (buffer.sendExchanges ex).isSome → ex < 27
  send : ∀ ex X, buffer.sendExchanges ex = some X → X.communicationTag = uniqCommunicationTag communicationTag ex
  receive : ∀ r X, buffer.receiveExchanges r = some X →
    X.communicationTag = uniqCommunicationTag communicationTag (Mask.mirrored r)
  paired : ∀ ex, (buffer.sendExchanges ex).isSome → (buffer.receiveExchanges (Mask.mirrored ex)).isSome
  first : buffer.hasOneExchange = false → ∀ ex, buffer.sendExchanges ex = none ∧ buffer.receiveExchanges ex = none

/-- A buffer without exchanges has no communication tag yet. -/
theorem Tagged.of_first {t t' : BitVec 32} {buffer buffer' : GridBuffer DIM} (h : Tagged t buffer)
    (hfirst : buffer.hasOneExchange = true → t' = t) (hhas : buffer'.hasOneExchange = buffer.hasOneExchange)
    (hsend : buffer'.sendExchanges = buffer.sendExchanges) (hreceive : buffer'.receiveExchanges = buffer.receiveExchanges) :
    Tagged t' buffer' := by
  cases hone : buffer.hasOneExchange with
  | true =>
    obtain rfl := hfirst hone
    exact ⟨by simpa only [hsend] using h.lt, by simpa only [hsend] using h.send, by simpa only [hreceive] using h.receive,
      by simpa only [hsend, hreceive] using h.paired, by simpa only [hhas, hsend, hreceive] using h.first⟩
  | false =>
    have hnone : ∀ ex, buffer'.sendExchanges ex = none ∧ buffer'.receiveExchanges ex = none := fun ex => by
      rw [hsend, hreceive]
      exact h.first hone ex
    refine ⟨fun ex hsome => ?_, fun ex X hX => ?_, fun r X hX => ?_, fun ex hsome => ?_, fun _ => hnone⟩
    · simp [(hnone ex).1] at hsome
    · simp [(hnone ex).1] at hX
    · simp [(hnone r).2] at hX
    · simp [(hnone ex).1] at hsome

section Loop

variable {communicationTag : BitVec 32} {mask : Mask} {send receive : ℕ → BitVec 32 → Exchange DIM}
variable {buffer : GridBuffer DIM} {tags : UniquTag} {ex : ℕ}

/-- A direction that can be added. -/
def Free (communicationTag : BitVec 32) (buffer : GridBuffer DIM) (tags : UniquTag) (ex : ℕ) : Prop :=
  buffer.sendExchanges ex = none ∧
    (buffer.hasOneExchange = false → uniqCommunicationTag communicationTag ex ∉ tags)

/-- The buffer with the exchanges of a direction. -/
def added (communicationTag : BitVec 32) (send receive : ℕ → BitVec 32 → Exchange DIM) (buffer : GridBuffer DIM)
    (ex : ℕ) : GridBuffer DIM :=
  let tag := uniqCommunicationTag communicationTag ex
  { buffer with
    hasOneExchange := true
    maxExchange := max (max buffer.maxExchange (ex + 1)) (Mask.mirrored ex + 1)
    sendExchanges := Function.update buffer.sendExchanges ex (some (send ex tag))
    receiveExchanges := Function.update buffer.receiveExchanges (Mask.mirrored ex) (some (receive (Mask.mirrored ex) tag)) }

@[simp] theorem sendExchanges_added : (added communicationTag send receive buffer ex).sendExchanges =
    Function.update buffer.sendExchanges ex (some (send ex (uniqCommunicationTag communicationTag ex))) := rfl

@[simp] theorem receiveExchanges_added : (added communicationTag send receive buffer ex).receiveExchanges =
    Function.update buffer.receiveExchanges (Mask.mirrored ex)
      (some (receive (Mask.mirrored ex) (uniqCommunicationTag communicationTag ex))) := rfl

theorem claimTag_fst : (buffer.claimTag tags (uniqCommunicationTag communicationTag ex)).1 = false ↔
    buffer.hasOneExchange = false ∧ uniqCommunicationTag communicationTag ex ∈ tags := by
  rw [GridBuffer.claimTag, UniquTag.isTagUniqu]
  cases buffer.hasOneExchange with
  | true => simp
  | false =>
    by_cases hmem : uniqCommunicationTag communicationTag ex ∈ tags <;> simp [hmem]

/-- Free directions are added; at the others there is an exception. -/
theorem addDirection_spec (send receive : ℕ → BitVec 32 → Exchange DIM) (hex : ex < 27) :
    (Free communicationTag buffer tags ex → ∃ tags',
      GridBuffer.addDirection communicationTag send receive (buffer, tags) ex =
        .ok (added communicationTag send receive buffer ex, tags')) ∧
    (¬ Free communicationTag buffer tags ex → ∃ exception,
      GridBuffer.addDirection communicationTag send receive (buffer, tags) ex = .error exception) := by
  rw [GridBuffer.addDirection]
  simp only [Mask.getMirroredExchangeType_eq hex]
  constructor
  · rintro ⟨hnone, hunused⟩
    rw [if_neg fun h => hunused (claimTag_fst.mp h).1 (claimTag_fst.mp h).2, if_neg (by simp [hnone])]
    exact ⟨_, rfl⟩
  · intro hnot
    split_ifs with hclaim hsome
    · exact ⟨_, rfl⟩
    · exact ⟨_, rfl⟩
    · refine absurd ⟨?_, fun hfirst hmem => hclaim (claimTag_fst.mpr ⟨hfirst, hmem⟩)⟩ hnot
      rwa [Bool.not_eq_true, Option.isSome_eq_false_iff, Option.isNone_iff_eq_none] at hsome

theorem Tagged.added (h : Tagged communicationTag buffer) (hex : ex < 27)
    (hsend : ∀ ex tag, (send ex tag).communicationTag = tag) (hreceive : ∀ r tag, (receive r tag).communicationTag = tag) :
    Tagged communicationTag (added communicationTag send receive buffer ex) := by
  refine ⟨fun e hsome => ?_, fun e X hX => ?_, fun r X hX => ?_, fun e hsome => ?_, nofun⟩
  · rcases eq_or_ne e ex with rfl | hne
    · exact hex
    · exact h.lt e (by rwa [sendExchanges_added, Function.update_of_ne hne] at hsome)
  · rcases eq_or_ne e ex with rfl | hne
    · rw [sendExchanges_added, Function.update_self, Option.some_inj] at hX
      rw [← hX, hsend]
    · exact h.send e X (by rwa [sendExchanges_added, Function.update_of_ne hne] at hX)
  · rcases eq_or_ne r (Mask.mirrored ex) with rfl | hne
    · rw [receiveExchanges_added, Function.update_self, Option.some_inj] at hX
      rw [← hX, hreceive, Mask.mirrored_mirrored (le_refl 3) hex]
    · exact h.receive r X (by rwa [receiveExchanges_added, Function.update_of_ne hne] at hX)
  · rcases eq_or_ne e ex with rfl | hne
    · rw [receiveExchanges_added, Function.update_self]
      rfl
    · rw [sendExchanges_added, Function.update_of_ne hne] at hsome
      rw [receiveExchanges_added, Function.update_apply]
      split
      · rfl
      · exact h.paired e hsome

theorem Tagged.changedAtThrow (h : Tagged communicationTag buffer) :
    Tagged communicationTag (changedAtThrow communicationTag (buffer, tags) ex).1 := by
  rw [ExchangeTags.changedAtThrow]
  split
  · exact h
  · exact ⟨h.lt, h.send, h.receive, h.paired, nofun⟩

/-- The loop goes to its end where the directions have no exchange yet and the first tag is unused. -/
theorem addDirections_returns {l : List ℕ} (hl : ∀ e ∈ l, e < 27) (hnodup : l.Nodup) :
    (addDirections communicationTag mask send receive l (buffer, tags)).1 = .ok () ↔
      (∀ e ∈ l.filter mask.isSet, buffer.sendExchanges e = none) ∧
        (buffer.hasOneExchange = false →
          ∀ e ∈ (l.filter mask.isSet).head?, uniqCommunicationTag communicationTag e ∉ tags) := by
  induction l generalizing buffer tags with
  | nil => simp [addDirections]
  | cons ex exs ih =>
    have hl' := fun e he => hl e (List.mem_cons_of_mem ex he)
    obtain ⟨hnotMem, hnodup'⟩ := List.nodup_cons.mp hnodup
    rw [addDirections]
    split
    · next hset =>
      have hhead : Free communicationTag buffer tags ex ↔ buffer.sendExchanges ex = none ∧
          (buffer.hasOneExchange = false → uniqCommunicationTag communicationTag ex ∉ tags) := Iff.rfl
      rw [List.filter_cons_of_pos hset, List.forall_mem_cons, List.head?_cons, and_right_comm]
      simp only [Option.mem_some_iff, forall_eq']
      rw [← hhead]
      by_cases hfree : Free communicationTag buffer tags ex
      · obtain ⟨tags', hadd⟩ := (addDirection_spec send receive (hl ex List.mem_cons_self)).1 hfree
        rw [hadd, and_iff_right hfree]
        refine (ih hl' hnodup').trans ((and_iff_left nofun).trans (forall₂_congr fun e he => ?_))
        have hne : e ≠ ex := fun h => hnotMem (h ▸ (List.mem_filter.mp he).1)
        rw [sendExchanges_added, Function.update_of_ne hne]
      · obtain ⟨exception, hadd⟩ :=
          (addDirection_spec send receive (hl ex List.mem_cons_self)).2 hfree
        rw [hadd]
        exact ⟨nofun, fun h => absurd h.1 hfree⟩
    · next hset =>
      rw [List.filter_cons_of_neg hset]
      exact ih hl' hnodup'

/-- **What the loop keeps**, with an exception or without. -/
theorem Tagged.addDirections {l : List ℕ} (h : Tagged communicationTag buffer) (mask : Mask) (tags : UniquTag)
    (hl : ∀ e ∈ l, e < 27) (hsend : ∀ ex tag, (send ex tag).communicationTag = tag)
    (hreceive : ∀ r tag, (receive r tag).communicationTag = tag) :
    Tagged communicationTag (addDirections communicationTag mask send receive l (buffer, tags)).2.1 ∧
      (addDirections communicationTag mask send receive l (buffer, tags)).2.1.lastUsedCommunicationTag =
        buffer.lastUsedCommunicationTag ∧
      ∀ e, (buffer.sendExchanges e).isSome →
        ((addDirections communicationTag mask send receive l (buffer, tags)).2.1.sendExchanges e).isSome := by
  induction l generalizing buffer tags with
  | nil => exact ⟨h, rfl, fun _ => id⟩
  | cons ex exs ih =>
    have hl' := fun e he => hl e (List.mem_cons_of_mem ex he)
    have hex := hl ex List.mem_cons_self
    rw [ExchangeTags.addDirections]
    split
    · by_cases hfree : Free communicationTag buffer tags ex
      · obtain ⟨tags', hadd⟩ := (addDirection_spec send receive hex).1 hfree
        obtain ⟨htagged, hlast, hsome⟩ := ih (h.added hex hsend hreceive) tags' hl'
        rw [hadd]
        refine ⟨htagged, hlast, fun e he => hsome e ?_⟩
        rw [sendExchanges_added, Function.update_apply]
        split
        · rfl
        · exact he
      · obtain ⟨exception, hadd⟩ := (addDirection_spec send receive hex).2 hfree
        rw [hadd]
        refine ⟨h.changedAtThrow, ?_⟩
        simp only [ExchangeTags.changedAtThrow]
        split
        · exact ⟨rfl, fun _ => id⟩
        · exact ⟨rfl, fun _ => id⟩
    · exact ih h tags hl'

/-- A loop that goes to its end has added its directions. -/
theorem isSome_addDirections {l : List ℕ} (hl : ∀ e ∈ l, e < 27) (h : Tagged communicationTag buffer)
    (hsend : ∀ ex tag, (send ex tag).communicationTag = tag) (hreceive : ∀ r tag, (receive r tag).communicationTag = tag)
    (hreturns : (addDirections communicationTag mask send receive l (buffer, tags)).1 = .ok ()) :
    ∀ e ∈ l.filter mask.isSet,
      ((addDirections communicationTag mask send receive l (buffer, tags)).2.1.sendExchanges e).isSome := by
  induction l generalizing buffer tags with
  | nil => exact fun e he => absurd he List.not_mem_nil
  | cons ex exs ih =>
    have hl' := fun e he => hl e (List.mem_cons_of_mem ex he)
    have hex := hl ex List.mem_cons_self
    rw [addDirections] at hreturns ⊢
    split at hreturns
    · next hset =>
      rw [if_pos hset]
      by_cases hfree : Free communicationTag buffer tags ex
      · obtain ⟨tags', hadd⟩ := (addDirection_spec send receive hex).1 hfree
        have hadded := h.added hex hsend hreceive
        rw [hadd] at hreturns ⊢
        rw [List.filter_cons_of_pos hset, List.forall_mem_cons]
        refine ⟨(hadded.addDirections mask tags' hl' hsend hreceive).2.2 ex ?_, ih hl' hadded hreturns⟩
        rw [sendExchanges_added, Function.update_self]
        rfl
      · obtain ⟨exception, hadd⟩ := (addDirection_spec send receive hex).2 hfree
        rw [hadd] at hreturns
        cases hreturns
    · next hset =>
      rw [if_neg hset, List.filter_cons_of_neg hset]
      exact ih hl' h hreturns

end Loop

/-! ## Calls -/

theorem mem_directions {T_CommDim e : ℕ} (he : e ∈ GridBuffer.directions T_CommDim) : e < 27 := by
  have hle : NumberOfExchanges T_CommDim ≤ 27 := by
    match T_CommDim with
    | 0 | 1 | 2 => decide
    | _ + 3 => exact le_refl 27
  have hlt := (List.mem_range'_1.mp he).2
  omega

/-- The loop that a call runs. -/
structure Starts (T_CommDim : ℕ) (c : Call DIM) (buffer : GridBuffer DIM) (l : List ℕ) (mask : Mask)
    (send receive : ℕ → BitVec 32 → Exchange DIM) (started : GridBuffer DIM) : Prop where
  lt : ∀ e ∈ l, e < 27
  nodup : l.Nodup
  directions : c.directions T_CommDim = l.filter mask.isSet
  send : ∀ ex tag, (send ex tag).communicationTag = tag
  receive : ∀ r tag, (receive r tag).communicationTag = tag
  hasOneExchange : started.hasOneExchange = buffer.hasOneExchange
  sendExchanges : started.sendExchanges = buffer.sendExchanges
  receiveExchanges : started.receiveExchanges = buffer.receiveExchanges
  lastUsedCommunicationTag : started.lastUsedCommunicationTag = c.communicationTag

section Call

variable {T_CommDim : ℕ} {c : Call DIM} {buffer : GridBuffer DIM} {tags : UniquTag}

/-- A call with another communication tag than the first throws, and any other runs its loop. -/
theorem Call.run_cases (T_CommDim : ℕ) (c : Call DIM) (buffer : GridBuffer DIM) (tags : UniquTag) :
    (buffer.hasOneExchange = true ∧ c.communicationTag ≠ buffer.lastUsedCommunicationTag ∧
      ∃ exception, c.run T_CommDim (buffer, tags) = (.error exception, (buffer, tags))) ∨
    ((buffer.hasOneExchange = true → c.communicationTag = buffer.lastUsedCommunicationTag) ∧
      ∃ l mask send receive started, Starts T_CommDim c buffer l mask send receive started ∧
        c.run T_CommDim (buffer, tags) =
          addDirections c.communicationTag mask send receive l (started, tags)) := by
  by_cases hother : buffer.hasOneExchange = true ∧ c.communicationTag ≠ buffer.lastUsedCommunicationTag
  · have hcheck : ∃ exception, buffer.checkTag c.communicationTag = .error exception := ⟨_, if_pos hother⟩
    obtain ⟨exception, hcheck⟩ := hcheck
    refine Or.inl ⟨hother.1, hother.2, exception, ?_⟩
    cases c with
    | addExchange dataPlace receive guardingCells communicationTag =>
      rw [Call.run, ExchangeTags.addExchange]
      rw [Call.communicationTag] at hcheck
      rw [hcheck]
    | addExchangeBuffer receive dataSpace communicationTag =>
      rw [Call.run, ExchangeTags.addExchangeBuffer]
      rw [Call.communicationTag] at hcheck
      rw [hcheck]
  · have hcheck : buffer.checkTag c.communicationTag = .ok () := if_neg hother
    refine Or.inr ⟨fun hone => by_contra fun hne => hother ⟨hone, hne⟩, ?_⟩
    cases c with
    | addExchange dataPlace receive guardingCells communicationTag =>
      rw [Call.communicationTag] at hcheck
      rw [Call.run, ExchangeTags.addExchange, hcheck]
      refine ⟨_, _, _, _, _, ?_, rfl⟩
      exact ⟨fun e he => mem_directions he, List.nodup_range', rfl, fun _ _ => rfl, fun _ _ => rfl, rfl, rfl, rfl, rfl⟩
    | addExchangeBuffer receive dataSpace communicationTag =>
      rw [Call.communicationTag] at hcheck
      rw [Call.run, ExchangeTags.addExchangeBuffer, hcheck]
      by_cases hsize : int32 (productOfComponents dataSpace) ≠ 0
      · simp only [if_pos hsize]
        refine ⟨_, _, _, _, _, ?_, rfl⟩
        exact ⟨fun e he => mem_directions he, List.nodup_range', if_pos hsize, fun _ _ => rfl, fun _ _ => rfl, rfl, rfl, rfl,
          rfl⟩
      · simp only [if_neg hsize]
        refine ⟨[], {}, fun ex tag => Exchange.dedicated dataSpace ex tag, fun r tag => Exchange.dedicated dataSpace r tag, _,
          ?_, rfl⟩
        exact ⟨nofun, List.nodup_nil, if_neg hsize, fun _ _ => rfl, fun _ _ => rfl, rfl, rfl, rfl, rfl⟩

/-- A call returns where it is accepted. -/
theorem Call.run_returns : (c.run T_CommDim (buffer, tags)).1 = .ok () ↔
    (buffer.hasOneExchange = true → c.communicationTag = buffer.lastUsedCommunicationTag) ∧
      (∀ ex ∈ c.directions T_CommDim, buffer.sendExchanges ex = none) ∧
      (buffer.hasOneExchange = false → ∀ ex ∈ (c.directions T_CommDim).head?,
        uniqCommunicationTag c.communicationTag ex ∉ tags) := by
  obtain ⟨hone, hother, exception, hrun⟩ | ⟨hsame, l, mask, send, receive, started, hstarts, hrun⟩ :=
    c.run_cases T_CommDim buffer tags
  · rw [hrun]
    exact ⟨nofun, fun h => absurd (h.1 hone) hother⟩
  · rw [hrun, addDirections_returns hstarts.lt hstarts.nodup, hstarts.directions, hstarts.sendExchanges,
      hstarts.hasOneExchange, and_iff_right hsame]

/-- **What a call keeps**, with an exception or without. -/
theorem Tagged.run (h : Tagged buffer.lastUsedCommunicationTag buffer) (T_CommDim : ℕ) (c : Call DIM) (tags : UniquTag) :
    let buffer' := (c.run T_CommDim (buffer, tags)).2.1
    Tagged buffer'.lastUsedCommunicationTag buffer' ∧
      (∀ e, (buffer.sendExchanges e).isSome → (buffer'.sendExchanges e).isSome) ∧
      ((c.run T_CommDim (buffer, tags)).1 = .ok () → buffer'.lastUsedCommunicationTag = c.communicationTag ∧
        ∀ e ∈ c.directions T_CommDim, (buffer'.sendExchanges e).isSome) ∧
      (buffer'.lastUsedCommunicationTag = buffer.lastUsedCommunicationTag ∨
        buffer.hasOneExchange = false ∧ buffer'.lastUsedCommunicationTag = c.communicationTag) := by
  obtain ⟨-, -, exception, hrun⟩ | ⟨hsame, l, mask, send, receive, started, hstarts, hrun⟩ :=
    c.run_cases T_CommDim buffer tags
  · rw [hrun]
    exact ⟨h, fun _ => id, nofun, Or.inl rfl⟩
  · have hstarted : Tagged c.communicationTag started :=
      h.of_first hsame hstarts.hasOneExchange hstarts.sendExchanges hstarts.receiveExchanges
    obtain ⟨htagged, hlast, hsome⟩ :=
      hstarted.addDirections mask tags hstarts.lt hstarts.send hstarts.receive
    rw [hstarts.lastUsedCommunicationTag] at hlast
    rw [hrun]
    refine ⟨hlast.symm ▸ htagged, fun e he => hsome e (hstarts.sendExchanges ▸ he), fun hreturns => ⟨hlast, ?_⟩, ?_⟩
    · rw [hstarts.directions]
      exact isSome_addDirections hstarts.lt hstarted hstarts.send hstarts.receive hreturns
    · cases hone : buffer.hasOneExchange with
      | true => exact Or.inl (hlast.trans (hsame hone))
      | false => exact Or.inr ⟨rfl, hlast⟩

end Call

/-! ## Runs of calls -/

namespace Process

variable {commDim : β → ℕ} {s : Process dim} {c : (b : β) × Call (dim b)} {b : β} {ex : ℕ}

/-- The tags of all buffers are made from their communication tags. -/
structure Consistent (s : Process dim) : Prop where
  tagged : ∀ b, Tagged (s.buffers b).lastUsedCommunicationTag (s.buffers b)
  returned : ∀ b, ∀ ex ∈ s.returned b, ((s.buffers b).sendExchanges ex).isSome
  small : ∀ b, (s.buffers b).lastUsedCommunicationTag.toNat < 2 ^ 27

omit [DecidableEq β] in
theorem consistent_initial (gridLayout : (b : β) → GridLayout (dim b)) : (initial gridLayout).Consistent where
  tagged := fun _ => ⟨nofun, nofun, nofun, nofun, fun _ _ => ⟨rfl, rfl⟩⟩
  returned := nofun
  small := fun _ => Nat.two_pow_pos 27

theorem buffers_call_self : (s.call commDim c).buffers c.1 = (c.2.run (commDim c.1) (s.buffers c.1, s.tags)).2.1 :=
  Function.update_self ..

theorem buffers_call_of_ne (hne : b ≠ c.1) : (s.call commDim c).buffers b = s.buffers b := Function.update_of_ne hne ..

/-- A buffer gets the directions of the calls that are accepted. -/
theorem mem_returned_call : ex ∈ (s.call commDim c).returned b ↔
    ex ∈ s.returned b ∨ (b = c.1 ∧ s.Accepted commDim c ∧ ex ∈ c.2.directions (commDim c.1)) := by
  have haccepted : (c.2.run (commDim c.1) (s.buffers c.1, s.tags)).1 = .ok () ↔ s.Accepted commDim c := Call.run_returns
  rw [← haccepted, call]
  cases (c.2.run (commDim c.1) (s.buffers c.1, s.tags)).1 with
  | error exception => simp
  | ok _ =>
    rcases eq_or_ne b c.1 with rfl | hne
    · simp
    · simp [hne]

/-- Buffers with exchanges keep their communication tag. -/
theorem Consistent.lastUsed_call (h : s.Consistent) (hex : ex ∈ s.returned b) :
    ((s.call commDim c).buffers b).lastUsedCommunicationTag = (s.buffers b).lastUsedCommunicationTag := by
  rcases eq_or_ne b c.1 with rfl | hne
  · rw [buffers_call_self]
    refine ((h.tagged c.1).run (commDim c.1) c.2 s.tags).2.2.2.resolve_right fun hfirst => ?_
    have hsome := h.returned c.1 ex hex
    rw [((h.tagged c.1).first hfirst.1 ex).1] at hsome
    cases hsome
  · rw [buffers_call_of_ne hne]

/-- An accepted call gives the buffer its communication tag. -/
theorem Consistent.lastUsed_of_accepted (h : s.Consistent) (haccepted : s.Accepted commDim c) :
    ((s.call commDim c).buffers c.1).lastUsedCommunicationTag = c.2.communicationTag := by
  rw [buffers_call_self]
  exact (((h.tagged c.1).run (commDim c.1) c.2 s.tags).2.2.1 (Call.run_returns.mpr haccepted)).1

/-- **One call keeps the tags consistent**, whether it throws or not. -/
theorem Consistent.call (h : s.Consistent) (hsmall : c.2.communicationTag.toNat < 2 ^ 27) :
    (s.call commDim c).Consistent := by
  obtain ⟨htagged, hsome, hreturns, hlast⟩ := (h.tagged c.1).run (commDim c.1) c.2 s.tags
  refine ⟨fun b => ?_, fun b ex hex => ?_, fun b => ?_⟩
  · rcases eq_or_ne b c.1 with rfl | hne
    · rw [buffers_call_self]
      exact htagged
    · rw [buffers_call_of_ne hne]
      exact h.tagged b
  · rcases mem_returned_call.mp hex with hold | ⟨rfl, haccepted, hdirection⟩
    · rcases eq_or_ne b c.1 with rfl | hne
      · rw [buffers_call_self]
        exact hsome ex (h.returned c.1 ex hold)
      · rw [buffers_call_of_ne hne]
        exact h.returned b ex hold
    · rw [buffers_call_self]
      exact (hreturns (Call.run_returns.mpr haccepted)).2 ex hdirection
  · rcases eq_or_ne b c.1 with rfl | hne
    · rw [buffers_call_self]
      rcases hlast with hlast | ⟨-, hlast⟩
      · rw [hlast]
        exact h.small c.1
      · rw [hlast]
        exact hsmall
    · rw [buffers_call_of_ne hne]
      exact h.small b

theorem Consistent.calls (h : s.Consistent) {cs : List ((b : β) × Call (dim b))}
    (hsmall : ∀ c ∈ cs, c.2.communicationTag.toNat < 2 ^ 27) : (s.calls commDim cs).Consistent := by
  induction cs generalizing s with
  | nil => exact h
  | cons c cs ih =>
    rw [List.forall_mem_cons] at hsmall
    exact ih (h.call hsmall.1) hsmall.2

omit [DecidableEq β] in
/-- Tags are apart if buffers of one communication tag have no direction in common. -/
theorem Consistent.tagsApart (h : s.Consistent) : s.TagsApart ↔
    ∀ b b', b ≠ b' → (s.buffers b).lastUsedCommunicationTag = (s.buffers b').lastUsedCommunicationTag →
      ∀ ex ∈ s.returned b, ex ∉ s.returned b' := by
  constructor
  · intro hapart b b' hne hlast ex hex hex'
    obtain ⟨X, hX⟩ := Option.isSome_iff_exists.mp (h.returned b ex hex)
    obtain ⟨X', hX'⟩ := Option.isSome_iff_exists.mp (h.returned b' ex hex')
    refine (hapart b b' hne ex hex ex hex').1 X X' hX hX' ?_
    rw [(h.tagged b).send ex X hX, (h.tagged b').send ex X' hX', hlast]
  · intro hdisjoint b b' hne ex hex ex' hex'
    have hlt := (h.tagged b).lt ex (h.returned b ex hex)
    have hlt' := (h.tagged b').lt ex' (h.returned b' ex' hex')
    have htags : uniqCommunicationTag (s.buffers b).lastUsedCommunicationTag ex ≠
        uniqCommunicationTag (s.buffers b').lastUsedCommunicationTag ex' := by
      intro hsame
      obtain ⟨hlast, rfl⟩ := (uniqCommunicationTag_inj (h.small b) (h.small b') hlt hlt').mp hsame
      exact hdisjoint b b' hne hlast ex hex hex'
    refine ⟨fun X X' hX hX' => ?_, fun X X' hX hX' => ?_⟩
    · rwa [(h.tagged b).send ex X hX, (h.tagged b').send ex' X' hX']
    · rwa [(h.tagged b).receive _ X hX, (h.tagged b').receive _ X' hX', Mask.mirrored_mirrored (le_refl 3) hlt,
        Mask.mirrored_mirrored (le_refl 3) hlt']

/-- **One call** keeps the tags apart if it is refused or has no direction in common with a buffer of its
communication tag, and only then. -/
theorem Consistent.tagsApart_call (h : s.Consistent) (hsmall : c.2.communicationTag.toNat < 2 ^ 27) :
    (s.call commDim c).TagsApart ↔ s.TagsApart ∧ (s.Accepted commDim c → s.Separate commDim c) := by
  rw [(h.call hsmall).tagsApart, h.tagsApart]
  constructor
  · refine fun hdisjoint => ⟨fun b b' hne hlast ex hex hex' => ?_, fun haccepted b hne hlast ex hdirection hex => ?_⟩
    · refine hdisjoint b b' hne ?_ ex (mem_returned_call.mpr (Or.inl hex)) (mem_returned_call.mpr (Or.inl hex'))
      rw [h.lastUsed_call hex, h.lastUsed_call hex', hlast]
    · refine hdisjoint b c.1 hne ?_ ex (mem_returned_call.mpr (Or.inl hex))
        (mem_returned_call.mpr (Or.inr ⟨rfl, haccepted, hdirection⟩))
      rw [h.lastUsed_call hex, h.lastUsed_of_accepted haccepted, hlast]
  · rintro ⟨hdisjoint, hseparate⟩ b b' hne hlast ex hex hex'
    rcases mem_returned_call.mp hex with hold | ⟨rfl, haccepted, hdirection⟩
    · rcases mem_returned_call.mp hex' with hold' | ⟨rfl, haccepted, hdirection⟩
      · rw [h.lastUsed_call hold, h.lastUsed_call hold'] at hlast
        exact hdisjoint b b' hne hlast ex hold hold'
      · rw [h.lastUsed_call hold, h.lastUsed_of_accepted haccepted] at hlast
        exact hseparate haccepted b hne hlast ex hdirection hold
    · rcases mem_returned_call.mp hex' with hold' | ⟨rfl, -, -⟩
      · rw [h.lastUsed_of_accepted haccepted, h.lastUsed_call hold'] at hlast
        exact hseparate haccepted b' hne.symm hlast.symm ex hdirection hold'
      · exact hne rfl

/-- A run keeps the tags apart if all its calls do. -/
theorem tagsApart_take {gridLayout : (b : β) → GridLayout (dim b)} {cs : List ((b : β) × Call (dim b))}
    (hsmall : ∀ c ∈ cs, c.2.communicationTag.toNat < 2 ^ 27) :
    (∀ n, ((initial gridLayout).calls commDim (cs.take n)).TagsApart) ↔
      ∀ n, ∀ c ∈ cs[n]?, ((initial gridLayout).calls commDim (cs.take n)).Accepted commDim c →
        ((initial gridLayout).calls commDim (cs.take n)).Separate commDim c := by
  have hstep : ∀ n, ∀ c ∈ cs[n]?, (((initial gridLayout).calls commDim (cs.take (n + 1))).TagsApart ↔
      ((initial gridLayout).calls commDim (cs.take n)).TagsApart ∧
        (((initial gridLayout).calls commDim (cs.take n)).Accepted commDim c →
          ((initial gridLayout).calls commDim (cs.take n)).Separate commDim c)) := by
    intro n c hc
    have hconsistent : ((initial gridLayout).calls commDim (cs.take n)).Consistent :=
      (consistent_initial gridLayout).calls fun c hc => hsmall c (List.mem_of_mem_take hc)
    rw [← hconsistent.tagsApart_call (hsmall c (List.mem_of_getElem? hc)), List.take_add_one, hc, calls, List.foldl_append]
    rfl
  constructor
  · exact fun hapart n c hc => ((hstep n c hc).mp (hapart (n + 1))).2
  · intro hcalls n
    induction n with
    | zero => exact fun _ _ _ _ hex => absurd hex List.not_mem_nil
    | succ n ih =>
      cases hc : cs[n]? with
      | some c => exact (hstep n c hc).mpr ⟨ih, hcalls n c hc⟩
      | none =>
        rw [List.take_add_one, hc, Option.toList_none, List.append_nil]
        exact ih

omit [DecidableEq β] in
/-- **The two ends of a message** have the same tag. -/
theorem Consistent.send_eq_receive {s' : Process dim} (h : s.Consistent) (h' : s'.Consistent)
    (hlast : (s.buffers b).lastUsedCommunicationTag = (s'.buffers b).lastUsedCommunicationTag)
    {X Y : Exchange (dim b)} (hX : (s.buffers b).sendExchanges ex = some X)
    (hY : (s'.buffers b).receiveExchanges (Mask.mirrored ex) = some Y) : X.communicationTag = Y.communicationTag := by
  have hlt : ex < 27 := (h.tagged b).lt ex (hX ▸ rfl)
  rw [(h.tagged b).send ex X hX, (h'.tagged b).receive _ Y hY, Mask.mirrored_mirrored (le_refl 3) hlt, hlast]

end Process

open Process

/-- The tags of a run are apart if no accepted call has a direction in common with another buffer of the
same communication tag, and only then; and the two ends of a message have the same tag, on one rank or
on two. -/
theorem tagsApart_iff {commDim : β → ℕ} {gridLayout : (b : β) → GridLayout (dim b)} {cs : List ((b : β) × Call (dim b))}
    (hsmall : ∀ c ∈ cs, c.2.communicationTag.toNat < 2 ^ 27) :
    ((∀ n, ((initial gridLayout).calls commDim (cs.take n)).TagsApart) ↔
      ∀ n, ∀ c ∈ cs[n]?, ((initial gridLayout).calls commDim (cs.take n)).Accepted commDim c →
        ((initial gridLayout).calls commDim (cs.take n)).Separate commDim c) ∧
    ∀ (gridLayout' : (b : β) → GridLayout (dim b)) (cs' : List ((b : β) × Call (dim b))),
      (∀ c ∈ cs', c.2.communicationTag.toNat < 2 ^ 27) →
      let s := (initial gridLayout).calls commDim cs
      let s' := (initial gridLayout').calls commDim cs'
      ∀ b, (s.buffers b).lastUsedCommunicationTag = (s'.buffers b).lastUsedCommunicationTag → ∀ ex X Y,
        (s.buffers b).sendExchanges ex = some X → (s'.buffers b).receiveExchanges (Mask.mirrored ex) = some Y →
        X.communicationTag = Y.communicationTag :=
  ⟨tagsApart_take hsmall, fun gridLayout' _ hsmall' _ hlast _ _ _ hX hY =>
    ((consistent_initial gridLayout).calls hsmall).send_eq_receive ((consistent_initial gridLayout').calls hsmall') hlast hX
      hY⟩

/-- Two buffers with communication tags of their own. -/
theorem tagsApart_iff_two : ((initial fun _ => ⟨fun _ => 4, fun _ => 1⟩ : Process fun _ : Bool => 1).calls (fun _ => 1)
    [⟨false, .addExchange .GUARD ⟨6⟩ (fun _ => 1) 1⟩, ⟨true, .addExchange .GUARD ⟨2⟩ (fun _ => 1) 2⟩]).TagsApart := by
  have hprefixes : ∀ n, ((initial fun _ => ⟨fun _ => 4, fun _ => 1⟩ : Process fun _ : Bool => 1).calls (fun _ => 1)
      (List.take n [⟨false, .addExchange .GUARD ⟨6⟩ (fun _ => 1) 1⟩,
        ⟨true, .addExchange .GUARD ⟨2⟩ (fun _ => 1) 2⟩])).TagsApart := by
    refine (tagsApart_iff ?_).1.mpr fun n c hc _ b hne hlast ex _ hex => ?_
    · rw [List.forall_mem_cons, List.forall_mem_singleton]
      decide
    · match n with
      | 0 => exact List.not_mem_nil hex
      | 1 =>
        obtain rfl := Option.some_inj.mp hc
        obtain rfl : b = false := by simpa using hne
        exact absurd hlast (by decide)
      | n + 2 => cases hc
  exact hprefixes 2

/-- Two buffers with the same communication tag: the first direction of the second buffer is the second
direction of the first one, whose tag is not entered. -/
theorem not_tagsApart : ¬ ((initial fun _ => ⟨fun _ => 4, fun _ => 1⟩ : Process fun _ : Bool => 1).calls (fun _ => 1)
    [⟨false, .addExchange .GUARD ⟨6⟩ (fun _ => 1) 1⟩, ⟨true, .addExchange .GUARD ⟨2⟩ (fun _ => 1) 1⟩]).TagsApart :=
  fun h => (h false true (by decide) 2 (by decide) 2 (by decide)).1 _ _ rfl rfl rfl

end ExchangeTags
end Communication
end Spearhed
