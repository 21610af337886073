import Spearhed.Communication.RankTopology

/-!
# The exchanges of a buffer

An `Exchange` is a box of cells, at the end of the buffer its direction points to or in memory of its
own, whose cells are sent or received as one flat message.  `GridBuffer.addExchange` and
`GridBuffer.addExchangeBuffer` add one exchange for sending and one, mirrored, for receiving per
direction of a mask; `HasExchanges` says what a buffer has after them.
-/

namespace Spearhed
namespace Communication

open Library Mappings MappingDescription

variable {DIM : ℕ}

/-! ## Boxes as flat memory -/

/-- The cell of a number, the x axis running fastest. -/
def mapToND (extent : DataSpace DIM) (i : ℤ) : DataSpace DIM := rowMajorCoordinates (extent ∘ Fin.rev) i ∘ Fin.rev

def linearize (extent cell : DataSpace DIM) : ℤ := rowMajorIndex (extent ∘ Fin.rev) (cell ∘ Fin.rev)

/-- As an integer: `DataSpace.hpp` limits an index space to what an `int` counts. -/
def productOfComponents (extent : DataSpace DIM) : ℤ := ∏ d, extent d

/-- The cells of a box in flat memory. -/
def flatten {V : Type} (extent : DataSpace DIM) (cells : DataSpace DIM → V) : List V :=
  (List.range (productOfComponents extent).toNat).map fun i : ℕ => cells (mapToND extent i)

/-- The cells of a box after flat memory has been copied to it. -/
def unflatten {V : Type} (extent : DataSpace DIM) (data : List V) (cells : DataSpace DIM → V) : DataSpace DIM → V :=
  fun c => if ∀ d, 0 ≤ c d ∧ c d < extent d then (data[(linearize extent c).toNat]?).getD (cells c) else cells c

section Flat

variable {extent c : DataSpace DIM}

theorem linearize_mem (hc : c ∈ box 0 extent) : linearize extent c ∈ Set.Ico 0 (productOfComponents extent) := by
  have hpos : ∀ d, 0 < (extent ∘ Fin.rev) d := fun d => (hc d.rev).1.trans_lt (hc d.rev).2
  have hmem := rowMajorIndex_mem (c := c ∘ Fin.rev) hpos fun d => hc d.rev
  have hprod : ∏ d, (extent ∘ Fin.rev) d = productOfComponents extent := Equiv.prod_comp Fin.revPerm extent
  rwa [hprod] at hmem

theorem mapToND_linearize (hc : c ∈ box 0 extent) : mapToND extent (linearize extent c) = c := by
  have hpos : ∀ d, 0 < (extent ∘ Fin.rev) d := fun d => (hc d.rev).1.trans_lt (hc d.rev).2
  rw [mapToND, linearize, rowMajorCoordinates_rowMajorIndex (c := c ∘ Fin.rev) hpos fun d => hc d.rev]
  funext d
  exact congrArg c d.rev_rev

theorem mapToND_mem (hextent : ∀ d, 0 ≤ extent d) {i : ℕ} (hi : i < (productOfComponents extent).toNat) :
    mapToND extent i ∈ box 0 extent := by
  have hne : productOfComponents extent ≠ 0 := by omega
  have hpos : ∀ d, 0 < (extent ∘ Fin.rev) d := fun d =>
    (hextent d.rev).lt_of_ne' (Finset.prod_ne_zero_iff.mp hne d.rev (Finset.mem_univ _))
  intro d
  have hmem := rowMajorCoordinates_mem (r := i) hpos d.rev
  rwa [Function.comp_apply, Fin.rev_rev] at hmem

/-- A number leads back from its cell. -/
theorem linearize_mapToND (hextent : ∀ d, 0 < extent d) {i : ℤ} (hi : i ∈ Set.Ico 0 (productOfComponents extent)) :
    linearize extent (mapToND extent i) = i := by
  have hprod : ∏ d, (extent ∘ Fin.rev) d = productOfComponents extent := Equiv.prod_comp Fin.revPerm extent
  have hcoordinates : mapToND extent i ∘ Fin.rev = rowMajorCoordinates (extent ∘ Fin.rev) i := by
    funext d
    exact congrArg (rowMajorCoordinates (extent ∘ Fin.rev) i) d.rev_rev
  have hpos : ∀ d, 0 < (extent ∘ Fin.rev) d := fun d => hextent d.rev
  rw [linearize, hcoordinates, rowMajorIndex_rowMajorCoordinates hpos (hprod ▸ hi)]

/-- Cells that are flattened and copied back are the same. -/
theorem unflatten_flatten {V : Type} (f cells : DataSpace DIM → V) (hc : c ∈ box 0 extent) :
    unflatten extent (flatten extent f) cells c = f c := by
  obtain ⟨hlo, hhi⟩ := linearize_mem hc
  have hindex : ((linearize extent c).toNat : ℤ) = linearize extent c := Int.toNat_of_nonneg hlo
  have hlt : (linearize extent c).toNat < (productOfComponents extent).toNat := by omega
  rw [unflatten, if_pos (show ∀ d, 0 ≤ c d ∧ c d < extent d from hc), flatten, List.getElem?_map,
    List.getElem?_range hlt, Option.map_some, Option.getD_some, hindex, mapToND_linearize hc]

theorem unflatten_of_not_mem {V : Type} (data : List V) (cells : DataSpace DIM → V) (hc : c ∉ box 0 extent) :
    unflatten extent data cells c = cells c :=
  if_neg hc

end Flat

/-! ## Layout and exchanges -/

structure GridLayout (DIM : ℕ) where
  sizeWithoutGuardND : DataSpace DIM
  guardSizeND : DataSpace DIM

def GridLayout.sizeND (layout : GridLayout DIM) : DataSpace DIM :=
  layout.sizeWithoutGuardND + layout.guardSizeND + layout.guardSizeND

/-- The direction up an axis. -/
def upperType : ℕ → ℕ
  | 0 => RIGHT
  | 1 => BOTTOM
  | _ => BACK

/-- The direction down an axis. -/
def lowerType : ℕ → ℕ
  | 0 => LEFT
  | 1 => TOP
  | _ => FRONT

/-- The axes on which a direction exchanges data. -/
def exchangeTypeToDim (exchange : ℕ) : DataSpace DIM := fun d =>
  let exchangeMask := Mask.single exchange
  if exchangeMask.containsExchangeType (lowerType d) || exchangeMask.containsExchangeType (upperType d) then 1 else 0

def exchangeTypeToOffset (exchange : ℕ) (memoryLayout : GridLayout DIM) (guardingCells : DataSpace DIM) (area : AreaType) :
    DataSpace DIM := fun d =>
  let size := memoryLayout.sizeND d
  let border := memoryLayout.guardSizeND d
  let mask := Mask.single exchange
  if mask.containsExchangeType (upperType d) then
    let tmp_offset := size - border - guardingCells d
    if area = .GUARD then tmp_offset + guardingCells d else tmp_offset
  else if area = .GUARD ∧ mask.containsExchangeType (lowerType d) then border - guardingCells d
  else border

structure Exchange (DIM : ℕ) where
  exchange : ℕ
  communicationTag : BitVec 32
  capacityND : DataSpace DIM
  /-- Where the cells are in the buffer of the grid; none for memory of its own. -/
  offset : Option (DataSpace DIM)

namespace Exchange

/-- An exchange in the memory of the grid. -/
def inGrid (memoryLayout : GridLayout DIM) (guardingCells : DataSpace DIM) (extype : ℕ) (commTag : BitVec 32)
    (area : AreaType) : Exchange DIM where
  exchange := extype
  communicationTag := commTag
  capacityND := fun d =>
    if (exchangeTypeToDim extype : DataSpace DIM) d = 1 then guardingCells d else memoryLayout.sizeWithoutGuardND d
  offset := some (exchangeTypeToOffset extype memoryLayout guardingCells area)

/-- An exchange in memory of its own. -/
def dedicated (exchangeDataSpace : DataSpace DIM) (extype : ℕ) (commTag : BitVec 32) : Exchange DIM :=
  ⟨extype, commTag, exchangeDataSpace, none⟩

/-- The cells of the exchange in flat memory; memory of its own starts with its first cell. -/
def read {V : Type} (X : Exchange DIM) (memory : DataSpace DIM → V) : List V :=
  flatten X.capacityND fun c => memory (X.offset.getD 0 + c)

/-- The memory after a message has been copied to the exchange; a message that exceeds it is refused. -/
def write {V : Type} (X : Exchange DIM) (data : List V) (memory : DataSpace DIM → V) : DataSpace DIM → V :=
  if (productOfComponents X.capacityND).toNat < data.length then memory
  else fun c => unflatten X.capacityND data (fun c' => memory (X.offset.getD 0 + c')) (c - X.offset.getD 0)

/-- The cells of the exchange. -/
def cells (X : Exchange DIM) : Set (DataSpace DIM) := box (X.offset.getD 0) (X.offset.getD 0 + X.capacityND)

section Copies

variable {V : Type} {X Y : Exchange DIM} {memory source : DataSpace DIM → V} {c : DataSpace DIM}

theorem mem_cells : c ∈ X.cells ↔ c - X.offset.getD 0 ∈ box 0 X.capacityND := by
  refine forall_congr' fun d => ?_
  rw [Pi.sub_apply, Pi.add_apply, Pi.zero_apply, sub_nonneg, sub_lt_iff_lt_add']

theorem read_congr {memory' : DataSpace DIM → V} (hextent : ∀ d, 0 ≤ X.capacityND d)
    (h : ∀ c ∈ X.cells, memory c = memory' c) : X.read memory = X.read memory' := by
  refine List.map_congr_left fun i hi => h _ ?_
  rw [mem_cells, add_sub_cancel_left]
  exact mapToND_mem hextent (List.mem_range.mp hi)

/-- A message between exchanges of equal extents carries every cell to its counterpart. -/
theorem write_read (hextent : Y.capacityND = X.capacityND) (hc : c ∈ X.cells) :
    X.write (Y.read source) memory c = source (Y.offset.getD 0 + (c - X.offset.getD 0)) := by
  have hlength : (Y.read source).length = (productOfComponents X.capacityND).toNat := by
    rw [read, flatten, List.length_map, List.length_range, hextent]
  rw [write, if_neg (by rw [hlength]; exact lt_irrefl _), read, hextent]
  exact unflatten_flatten _ _ (mem_cells.mp hc)

theorem write_of_not_mem {data : List V} (hc : c ∉ X.cells) : X.write data memory c = memory c := by
  rw [write]
  split
  · rfl
  · exact (unflatten_of_not_mem _ _ fun h => hc (mem_cells.mpr h)).trans (by rw [add_sub_cancel])

end Copies

end Exchange

/-! ## The buffer -/

/-- The tags that are in use. -/
abbrev UniquTag : Type := List (BitVec 32)

def UniquTag.isTagUniqu (tags : UniquTag) (tag : BitVec 32) : Bool × UniquTag :=
  if tag ∈ tags then (false, tags) else (true, tag :: tags)

structure GridBuffer (DIM : ℕ) where
  gridLayout : GridLayout DIM
  hasOneExchange : Bool := false
  /-- Read only after there is one exchange. -/
  lastUsedCommunicationTag : BitVec 32 := 0
  sendMask : Mask := {}
  receiveMask : Mask := {}
  sendExchanges : ℕ → Option (Exchange DIM) := fun _ => none
  receiveExchanges : ℕ → Option (Exchange DIM) := fun _ => none
  maxExchange : ℕ := 0

/-- The tag of the messages sent in a direction. -/
def uniqCommunicationTag (communicationTag : BitVec 32) (ex : ℕ) : BitVec 32 :=
  (communicationTag <<< 5) ||| BitVec.ofNat 32 ex

namespace GridBuffer

/-- The first tag of a buffer has to be unused. -/
def claimTag (buffer : GridBuffer DIM) (tags : UniquTag) (tag : BitVec 32) : Bool × UniquTag :=
  if buffer.hasOneExchange then (true, tags) else tags.isTagUniqu tag

/-- The exchanges of one direction: `send` for sending to it, `receive` for receiving from its mirror. -/
def addDirection (communicationTag : BitVec 32) (send receive : ℕ → BitVec 32 → Exchange DIM)
    (state : GridBuffer DIM × UniquTag) (ex : ℕ) : Except String (GridBuffer DIM × UniquTag) :=
  let buffer := state.1
  let tag := uniqCommunicationTag communicationTag ex
  let uniqu := buffer.claimTag state.2 tag
  if uniqu.1 = false then
    .error ("unique exchange communication tag (" ++ toString tag.toNat ++ ") which is created from communicationTag ("
      ++ toString communicationTag.toNat ++ ") already used for other GridBuffer exchange")
  else if (buffer.sendExchanges ex).isSome then .error "Exchange already added!"
  else
    match Mask.getMirroredExchangeType ex with
    | none => .error "parameter exceeds allowed maximum"
    | some recvex =>
      .ok ({ buffer with
        hasOneExchange := true
        maxExchange := max (max buffer.maxExchange (ex + 1)) (recvex + 1)
        sendExchanges := Function.update buffer.sendExchanges ex (some (send ex tag))
        receiveExchanges := Function.update buffer.receiveExchanges recvex (some (receive recvex tag)) }, uniqu.2)

/-- The directions to the neighbours, in the order of the loops. -/
def directions (DIM : ℕ) : List ℕ := List.range' 1 (NumberOfExchanges DIM - 1)

def addDirections (communicationTag : BitVec 32) (send : Mask) (sendExchange receiveExchange : ℕ → BitVec 32 → Exchange DIM)
    (state : GridBuffer DIM × UniquTag) : Except String (GridBuffer DIM × UniquTag) :=
  (directions DIM).foldlM (fun state ex =>
    if send.isSet ex then addDirection communicationTag sendExchange receiveExchange state ex else pure state) state

/-- The tag of a buffer stays the same. -/
def checkTag (buffer : GridBuffer DIM) (communicationTag : BitVec 32) : Except String Unit :=
  if buffer.hasOneExchange ∧ communicationTag ≠ buffer.lastUsedCommunicationTag then
    .error "It is not allowed to give the same GridBuffer different communicationTags"
  else .ok ()

/-- The masks of a buffer that also receives from these directions. -/
def withReceiveMask (buffer : GridBuffer DIM) (receive : Mask) : GridBuffer DIM :=
  { buffer with receiveMask := buffer.receiveMask + receive, sendMask := (buffer.receiveMask + receive).getMirroredMask }

/-- Exchanges in the memory of the buffer; what is received goes to `dataPlace`. -/
def addExchange (dataPlace : AreaType) (receive : Mask) (guardingCells : DataSpace DIM) (communicationTag : BitVec 32)
    (state : GridBuffer DIM × UniquTag) : Except String (GridBuffer DIM × UniquTag) := do
  checkTag state.1 communicationTag
  let buffer := { state.1 with lastUsedCommunicationTag := communicationTag }.withReceiveMask receive
  addDirections communicationTag receive.getMirroredMask
    (fun ex tag => Exchange.inGrid buffer.gridLayout guardingCells ex tag (if dataPlace = .GUARD then .BORDER else .GUARD))
    (fun recvex tag =>
      Exchange.inGrid buffer.gridLayout guardingCells recvex tag (if dataPlace = .GUARD then .GUARD else .BORDER))
    (buffer, state.2)

/-- Exchanges in memory of their own; there are none without elements. -/
def addExchangeBuffer (receive : Mask) (dataSpace : DataSpace DIM) (communicationTag : BitVec 32)
    (state : GridBuffer DIM × UniquTag) : Except String (GridBuffer DIM × UniquTag) := do
  checkTag state.1 communicationTag
  let buffer := { state.1 with lastUsedCommunicationTag := communicationTag }
  if productOfComponents dataSpace ≠ 0 then
    addDirections communicationTag receive.getMirroredMask (fun ex tag => Exchange.dedicated dataSpace ex tag)
      (fun recvex tag => Exchange.dedicated dataSpace recvex tag) (buffer.withReceiveMask receive, state.2)
  else pure (buffer, state.2)

def hasSendExchange (buffer : GridBuffer DIM) (communicationMask : Mask) (ex : ℕ) : Bool :=
  (buffer.sendExchanges ex).isSome && (communicationMask &&& buffer.sendMask).isSet ex

def hasReceiveExchange (buffer : GridBuffer DIM) (communicationMask : Mask) (ex : ℕ) : Bool :=
  (buffer.receiveExchanges ex).isSome && (communicationMask &&& buffer.receiveMask).isSet ex

/-! ## What is added -/

/-- A buffer with exchanges that receive from the directions `active`. -/
structure HasExchanges (buffer : GridBuffer DIM) (active : Set ℕ) (sendX receiveX : ℕ → Exchange DIM) : Prop where
  send : ∀ e X, buffer.sendExchanges e = some X ↔ e ∈ exchangeDirections DIM ∧ Mask.mirrored e ∈ active ∧ X = sendX e
  receive : ∀ r X, buffer.receiveExchanges r = some X ↔ r ∈ active ∧ X = receiveX r
  subset : active ⊆ exchangeDirections DIM
  maxExchange : ∀ r ∈ active, r < buffer.maxExchange ∧ Mask.mirrored r < buffer.maxExchange

/-- The masks have these directions. -/
structure HasMasks (buffer : GridBuffer DIM) (active : Set ℕ) : Prop where
  send : ∀ r ∈ active, buffer.sendMask.isSet (Mask.mirrored r) = true
  receive : ∀ r ∈ active, buffer.receiveMask.isSet r = true

section Added

variable (hDIM : DIM ≤ 3) (hdirections : NumberOfExchanges DIM = 3 ^ DIM)
include hDIM hdirections

theorem mem_exchangeDirections_lt {e : ℕ} (he : e ∈ exchangeDirections DIM) : e < 3 ^ DIM ∧ e < 27 := by
  have hlt : e < 3 ^ DIM := hdirections ▸ he.2
  exact ⟨hlt, hlt.trans_le (Nat.pow_le_pow_right (by decide) hDIM)⟩

theorem mirrored_mem {e : ℕ} (he : e ∈ exchangeDirections DIM) : Mask.mirrored e ∈ exchangeDirections DIM := by
  have hlt := (mem_exchangeDirections_lt hDIM hdirections he).1
  obtain ⟨hlt', -⟩ := Mask.mirrored_spec hDIM hlt
  refine ⟨Nat.one_le_iff_ne_zero.mpr fun hzero => ?_, hdirections ▸ hlt'⟩
  have hback := Mask.mirrored_mirrored hDIM hlt
  rw [hzero] at hback
  exact absurd hback.symm (Nat.one_le_iff_ne_zero.mp he.1)

theorem mirrored_mirrored_of_mem {e : ℕ} (he : e ∈ exchangeDirections DIM) : Mask.mirrored (Mask.mirrored e) = e :=
  Mask.mirrored_mirrored hDIM (mem_exchangeDirections_lt hDIM hdirections he).1

theorem getRelativeDirections_mirrored_of_mem {e : ℕ} (he : e ∈ exchangeDirections DIM) :
    getRelativeDirections DIM (Mask.mirrored e) = -getRelativeDirections DIM e :=
  (Mask.mirrored_spec hDIM (mem_exchangeDirections_lt hDIM hdirections he).1).2

end Added

/-- What a direction adds, and that there was no exchange before. -/
theorem addDirection_cases {communicationTag : BitVec 32} {send receive : ℕ → BitVec 32 → Exchange DIM}
    {buffer buffer' : GridBuffer DIM} {tags tags' : UniquTag} {ex : ℕ}
    (h : addDirection communicationTag send receive (buffer, tags) ex = .ok (buffer', tags')) :
    buffer.sendExchanges ex = none ∧ ∃ recvex, Mask.getMirroredExchangeType ex = some recvex ∧
      buffer' = { buffer with
        hasOneExchange := true
        maxExchange := max (max buffer.maxExchange (ex + 1)) (recvex + 1)
        sendExchanges :=
          Function.update buffer.sendExchanges ex (some (send ex (uniqCommunicationTag communicationTag ex)))
        receiveExchanges :=
          Function.update buffer.receiveExchanges recvex (some (receive recvex (uniqCommunicationTag communicationTag ex))) } := by
  rw [addDirection] at h
  split at h
  · cases h
  · split at h
    · cases h
    · next hsend =>
      rw [Bool.not_eq_true, Option.isSome_eq_false_iff, Option.isNone_iff_eq_none] at hsend
      split at h
      · cases h
      · next recvex hmirror =>
        obtain ⟨rfl, -⟩ := Prod.mk.inj (Except.ok.inj h)
        exact ⟨hsend, recvex, hmirror, rfl⟩

section Spec

variable {communicationTag : BitVec 32} {send receive : ℕ → BitVec 32 → Exchange DIM} {sendX receiveX : ℕ → Exchange DIM}
variable {active : Set ℕ} {buffer buffer' : GridBuffer DIM} {tags tags' : UniquTag}
variable (hDIM : DIM ≤ 3) (hdirections : NumberOfExchanges DIM = 3 ^ DIM)

/-- What no direction changes. -/
structure SameMasks (buffer buffer' : GridBuffer DIM) : Prop where
  gridLayout : buffer'.gridLayout = buffer.gridLayout
  sendMask : buffer'.sendMask = buffer.sendMask
  receiveMask : buffer'.receiveMask = buffer.receiveMask

include hDIM hdirections

theorem HasExchanges.addDirection (hbuffer : buffer.HasExchanges active sendX receiveX) {e : ℕ}
    (he : e ∈ exchangeDirections DIM) (hsend : send e (uniqCommunicationTag communicationTag e) = sendX e)
    (hreceive : receive (Mask.mirrored e) (uniqCommunicationTag communicationTag e) = receiveX (Mask.mirrored e))
    (h : addDirection communicationTag send receive (buffer, tags) e = .ok (buffer', tags')) :
    buffer'.HasExchanges (insert (Mask.mirrored e) active) sendX receiveX ∧ SameMasks buffer buffer' := by
  obtain ⟨-, recvex, hmirror, rfl⟩ := addDirection_cases h
  rw [Mask.getMirroredExchangeType_eq (mem_exchangeDirections_lt hDIM hdirections he).2, Option.some_inj] at hmirror
  subst hmirror
  have hback := mirrored_mirrored_of_mem hDIM hdirections he
  refine ⟨⟨fun e' X => ?_, fun r X => ?_, ?_, fun r hr => ?_⟩, rfl, rfl, rfl⟩
  · rcases eq_or_ne e' e with rfl | hne
    · simp only [Function.update_self, Option.some_inj, hsend, he, Set.mem_insert_iff, true_or, true_and, eq_comm]
    · simp only [Function.update_of_ne hne, hbuffer.send, Set.mem_insert_iff]
      refine and_congr_right fun he' => and_congr_left fun _ => (or_iff_right fun hmirror => hne ?_).symm
      rw [← mirrored_mirrored_of_mem hDIM hdirections he', hmirror, hback]
  · rcases eq_or_ne r (Mask.mirrored e) with rfl | hne
    · simp only [Function.update_self, Option.some_inj, hreceive, Set.mem_insert_iff, true_or, true_and, eq_comm]
    · simp only [Function.update_of_ne hne, hbuffer.receive, Set.mem_insert_iff, or_iff_right hne]
  · exact Set.insert_subset (mirrored_mem hDIM hdirections he) hbuffer.subset
  · rcases Set.mem_insert_iff.mp hr with rfl | hr
    · rw [hback]
      exact ⟨lt_max_of_lt_right (Nat.lt_succ_self _), lt_max_of_lt_left (lt_max_of_lt_right (Nat.lt_succ_self _))⟩
    · obtain ⟨hr1, hr2⟩ := hbuffer.maxExchange r hr
      exact ⟨lt_max_of_lt_left (lt_max_of_lt_left hr1), lt_max_of_lt_left (lt_max_of_lt_left hr2)⟩

theorem HasExchanges.foldlM_addDirection {mask : Mask} {l : List ℕ} (hl : ∀ e ∈ l, e ∈ exchangeDirections DIM)
    (hsend : ∀ e ∈ l, mask.isSet e = true → send e (uniqCommunicationTag communicationTag e) = sendX e)
    (hreceive : ∀ e ∈ l, mask.isSet e = true →
      receive (Mask.mirrored e) (uniqCommunicationTag communicationTag e) = receiveX (Mask.mirrored e))
    (hbuffer : buffer.HasExchanges active sendX receiveX)
    (h : l.foldlM (fun state ex =>
      if mask.isSet ex then GridBuffer.addDirection communicationTag send receive state ex else pure state)
      (buffer, tags) = Except.ok (buffer', tags')) :
    buffer'.HasExchanges (active ∪ {r | ∃ e ∈ l, mask.isSet e = true ∧ Mask.mirrored e = r}) sendX receiveX ∧
      SameMasks buffer buffer' := by
  induction l generalizing buffer tags active with
  | nil =>
    obtain ⟨rfl, -⟩ := Prod.mk.inj (Except.ok.inj h)
    simpa using ⟨hbuffer, ⟨rfl, rfl, rfl⟩⟩
  | cons e l ih =>
    have hl' : ∀ e' ∈ l, e' ∈ exchangeDirections DIM := fun e' he' => hl e' (List.mem_cons_of_mem e he')
    have hsend' := fun e' he' => hsend e' (List.mem_cons_of_mem e he')
    have hreceive' := fun e' he' => hreceive e' (List.mem_cons_of_mem e he')
    rw [List.foldlM_cons] at h
    by_cases hset : mask.isSet e = true
    · rw [if_pos hset] at h
      cases hadd : GridBuffer.addDirection communicationTag send receive (buffer, tags) e with
      | error message => rw [hadd] at h; cases h
      | ok state =>
        obtain ⟨middle, middleTags⟩ := state
        rw [hadd] at h
        have he := hl e List.mem_cons_self
        obtain ⟨hmiddle, hsame⟩ := hbuffer.addDirection hDIM hdirections he (hsend e List.mem_cons_self hset)
          (hreceive e List.mem_cons_self hset) hadd
        obtain ⟨hend, hsame'⟩ := ih hl' hsend' hreceive' hmiddle h
        refine ⟨?_, hsame'.gridLayout.trans hsame.gridLayout, hsame'.sendMask.trans hsame.sendMask,
          hsame'.receiveMask.trans hsame.receiveMask⟩
        have hset' : active ∪ {r | ∃ e' ∈ e :: l, mask.isSet e' = true ∧ Mask.mirrored e' = r} =
            insert (Mask.mirrored e) active ∪ {r | ∃ e' ∈ l, mask.isSet e' = true ∧ Mask.mirrored e' = r} := by
          ext r
          simp only [Set.mem_union, Set.mem_ofPred_eq, List.exists_mem_cons_iff, hset, true_and, Set.mem_insert_iff]
          rw [← or_assoc, or_comm (a := r ∈ active), eq_comm (a := r)]
        rw [hset']
        exact hend
    · rw [if_neg hset] at h
      obtain ⟨hend, hsame⟩ := ih hl' hsend' hreceive' hbuffer h
      refine ⟨?_, hsame⟩
      simpa only [List.exists_mem_cons_iff, hset, Bool.false_eq_true, false_and, false_or] using hend

omit hDIM in
theorem mem_directions {e : ℕ} : e ∈ directions DIM ↔ e ∈ exchangeDirections DIM := by
  have hpos : 1 ≤ NumberOfExchanges DIM := hdirections ▸ Nat.one_le_pow _ _ (by decide)
  rw [directions, List.mem_range'_1]
  exact and_congr_right fun _ => by omega

/-- The exchanges of a mask of directions to receive from. -/
theorem HasExchanges.addDirections {mask : Mask} (hbuffer : buffer.HasExchanges active sendX receiveX)
    (hsend : ∀ r ∈ exchangeDirections DIM, mask.isSet r = true →
      send (Mask.mirrored r) (uniqCommunicationTag communicationTag (Mask.mirrored r)) = sendX (Mask.mirrored r))
    (hreceive : ∀ r ∈ exchangeDirections DIM, mask.isSet r = true →
      receive r (uniqCommunicationTag communicationTag (Mask.mirrored r)) = receiveX r)
    (h : addDirections communicationTag mask.getMirroredMask send receive (buffer, tags) = .ok (buffer', tags')) :
    buffer'.HasExchanges (active ∪ {r | r ∈ exchangeDirections DIM ∧ mask.isSet r = true}) sendX receiveX ∧
      SameMasks buffer buffer' := by
  -- a direction that sends is the mirror of one that receives
  have hmirror : ∀ e ∈ directions DIM, mask.getMirroredMask.isSet e = true →
      ∃ r ∈ exchangeDirections DIM, mask.isSet r = true ∧ Mask.mirrored r = e ∧ Mask.mirrored e = r := by
    intro e he hset
    rw [mem_directions hdirections] at he
    rw [Mask.isSet_getMirroredMask mask (mem_exchangeDirections_lt hDIM hdirections he).2 he.1] at hset
    exact ⟨_, mirrored_mem hDIM hdirections he, hset, mirrored_mirrored_of_mem hDIM hdirections he, rfl⟩
  have hactive : {r | ∃ e ∈ directions DIM, mask.getMirroredMask.isSet e = true ∧ Mask.mirrored e = r} =
      {r | r ∈ exchangeDirections DIM ∧ mask.isSet r = true} := by
    ext r
    constructor
    · rintro ⟨e, he, hset, rfl⟩
      obtain ⟨r, hr, hset', -, rfl⟩ := hmirror e he hset
      exact ⟨hr, hset'⟩
    · rintro ⟨hr, hset⟩
      have hr' := mirrored_mem hDIM hdirections hr
      refine ⟨Mask.mirrored r, (mem_directions hdirections).mpr hr', ?_, mirrored_mirrored_of_mem hDIM hdirections hr⟩
      rwa [Mask.isSet_getMirroredMask mask (mem_exchangeDirections_lt hDIM hdirections hr').2 hr'.1,
        mirrored_mirrored_of_mem hDIM hdirections hr]
  have hend := hbuffer.foldlM_addDirection hDIM hdirections (fun e he => (mem_directions hdirections).mp he)
    (fun e he hset => by
      obtain ⟨r, hr, hset', rfl, -⟩ := hmirror e he hset
      exact hsend r hr hset')
    (fun e he hset => by
      obtain ⟨r, hr, hset', rfl, hback⟩ := hmirror e he hset
      rw [hback]
      exact hreceive r hr hset') h
  rwa [hactive] at hend

end Spec

end GridBuffer
end Communication
end Spearhed
