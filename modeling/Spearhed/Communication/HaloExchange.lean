import Spearhed.Communication.ExchangeRegions
import Spearhed.Library.MessageExchange

/-!
# Halo exchange between the ranks

Every rank spawns one branch per exchange that has a neighbour, all of them at once.  A send copies the
cells of its exchange to a message for the neighbour, a receive waits for the message with its source
and tag and copies it to the cells of its own exchange.

## 1. The ranks as processes that exchange messages

A receive from a direction and the neighbour's send to the mirrored direction are partners: both exist,
they name each other's rank, and they use the tag of the sender's direction (`matched`).

## 2. Guard cells become border cells

`haloExchange_ends`: in any interleaving, every guard cell within the width of a direction of the mask
becomes the border cell of the neighbour that is the same cell of the domain, and nothing else changes.
-/

namespace Spearhed
namespace Communication

open Library Mappings MappingDescription GridBuffer

variable {DIM : ℕ} {V : Type}

/-! ## 1. The ranks as processes that exchange messages -/

/-- A lazy sender that is spawned for an exchange. -/
inductive Branch
  | receive (ex : ℕ)
  | send (ex : ℕ)
deriving DecidableEq

/-- The branches of a rank, as the loop over the exchanges spawns them. -/
def GridBuffer.spawnCommunication (buffer : GridBuffer DIM) (communicationMask : Mask) : List Branch :=
  (List.range buffer.maxExchange).flatMap fun i =>
    (if buffer.hasReceiveExchange communicationMask i then [Branch.receive i] else []) ++
      match Mask.getMirroredExchangeType i with
      | none => []
      | some sendEx => if buffer.hasSendExchange communicationMask sendEx then [Branch.send sendEx] else []

/-- What MPI adds to the tag of an exchange. -/
def gridExchangeTag : BitVec 32 := 5

def messageTag (X : Option (Exchange DIM)) : BitVec 32 := gridExchangeTag + (X.map Exchange.communicationTag).getD 0

/-- The ports of all ranks that have a branch. -/
def ports (T : RankTopology DIM) (branches : Mask → List Branch) (branch : ℕ → Branch) : Finset (ℤ × ℕ) :=
  (@Finset.Ico ℤ _ Int.instLocallyFiniteOrder 0 (∏ d, T.dims d) ×ˢ Finset.range 27).filter fun p =>
    branch p.2 ∈ branches (T.communicationMask p.1)

/-- The ranks, with the branches they spawn and what these do with the memory of a rank. -/
def rankExchange {D : Type} (T : RankTopology DIM) (buffer : GridBuffer DIM) (branches : Mask → List Branch)
    (waitsFor : ℤ → ℕ → Set ℕ) (pack : ℤ → ℕ → D → List V) (unpack : ℤ → ℕ → List V → D → D) :
    MessageExchange ℤ ℕ (BitVec 32) D (List V) where
  sends := ports T branches .send
  receives := ports T branches .receive
  dest := T.exchangeTypeToRank
  source := T.exchangeTypeToRank
  sendTag e := messageTag (buffer.sendExchanges e)
  receiveTag r := messageTag (buffer.receiveExchanges r)
  waitsFor := waitsFor
  pack := pack
  unpack := unpack

/-- The branches a rank spawns are those of the directions that have an exchange and a neighbour. -/
structure Spawns (DIM : ℕ) (active : Set ℕ) (branches : Mask → List Branch) : Prop where
  receive : ∀ m r, r ∈ exchangeDirections DIM → (.receive r ∈ branches m ↔ r ∈ active ∧ m.isSet r = true)
  send : ∀ m e, e ∈ exchangeDirections DIM → (.send e ∈ branches m ↔ Mask.mirrored e ∈ active ∧ m.isSet e = true)
  receive_mem : ∀ m r, .receive r ∈ branches m → r ∈ exchangeDirections DIM
  send_mem : ∀ m e, .send e ∈ branches m → e ∈ exchangeDirections DIM

theorem uniqCommunicationTag_inj {communicationTag : BitVec 32} {e e' : ℕ} (he : e < 27) (he' : e' < 27)
    (h : uniqCommunicationTag communicationTag e = uniqCommunicationTag communicationTag e') : e = e' := by
  refine Nat.eq_of_testBit_eq fun i => ?_
  by_cases hi : i < 5
  · have hbit := congrArg (BitVec.getLsbD · i) h
    have hi' : i < 32 := hi.trans (by decide)
    simpa only [uniqCommunicationTag, BitVec.getLsbD_or, BitVec.getLsbD_shiftLeft, BitVec.getLsbD_ofNat, hi, hi',
      decide_true, Bool.not_true, Bool.and_false, Bool.false_and, Bool.false_or, Bool.true_and] using hbit
  · have hpow : 27 < 2 ^ i := lt_of_lt_of_le (by decide) (Nat.pow_le_pow_right (by decide) (not_lt.mp hi))
    rw [Nat.testBit_lt_two_pow (he.trans hpow), Nat.testBit_lt_two_pow (he'.trans hpow)]

section Matched

variable {T : RankTopology DIM} {buffer : GridBuffer DIM} {active : Set ℕ} {sendX receiveX : ℕ → Exchange DIM}
variable {branches : Mask → List Branch} {communicationTag : BitVec 32}

theorem hasReceiveExchange_iff (hX : buffer.HasExchanges active sendX receiveX) (hmasks : buffer.HasMasks active) {m : Mask}
    {r : ℕ} : buffer.hasReceiveExchange m r = true ↔ r ∈ active ∧ m.isSet r = true := by
  rw [hasReceiveExchange, Mask.isSet_and, Bool.and_eq_true, Bool.and_eq_true]
  have hsome : (buffer.receiveExchanges r).isSome = true ↔ r ∈ active := by
    rw [Option.isSome_iff_exists]
    exact ⟨fun ⟨X, h⟩ => ((hX.receive r X).mp h).1, fun h => ⟨_, (hX.receive r _).mpr ⟨h, rfl⟩⟩⟩
  rw [hsome]
  exact and_congr_right fun hr => and_iff_left (hmasks.receive r hr)

variable (hDIM : DIM ≤ 3) (hdirections : NumberOfExchanges DIM = 3 ^ DIM)
include hDIM hdirections

theorem hasSendExchange_iff (hX : buffer.HasExchanges active sendX receiveX) (hmasks : buffer.HasMasks active) {m : Mask}
    {e : ℕ} : buffer.hasSendExchange m e = true ↔ e ∈ exchangeDirections DIM ∧ Mask.mirrored e ∈ active ∧ m.isSet e = true := by
  rw [hasSendExchange, Mask.isSet_and, Bool.and_eq_true, Bool.and_eq_true]
  have hsome : (buffer.sendExchanges e).isSome = true ↔ e ∈ exchangeDirections DIM ∧ Mask.mirrored e ∈ active := by
    rw [Option.isSome_iff_exists]
    exact ⟨fun ⟨X, h⟩ => ⟨((hX.send e X).mp h).1, ((hX.send e X).mp h).2.1⟩, fun h => ⟨_, (hX.send e _).mpr ⟨h.1, h.2, rfl⟩⟩⟩
  rw [hsome, and_assoc]
  refine and_congr_right fun he => and_congr_right fun hr => and_iff_left ?_
  have hset := hmasks.send _ hr
  rwa [mirrored_mirrored_of_mem hDIM hdirections he] at hset

theorem mem_ports (hspawns : Spawns DIM active branches) {A : ℤ} {e : ℕ} :
    ((A, e) ∈ ports T branches .send ↔
      A ∈ T.ranks ∧ e ∈ exchangeDirections DIM ∧ Mask.mirrored e ∈ active ∧ (T.communicationMask A).isSet e = true) ∧
    ((A, e) ∈ ports T branches .receive ↔
      A ∈ T.ranks ∧ e ∈ exchangeDirections DIM ∧ e ∈ active ∧ (T.communicationMask A).isSet e = true) := by
  have hrange : e ∈ exchangeDirections DIM → e < 27 := fun he => (mem_exchangeDirections_lt hDIM hdirections he).2
  constructor <;> rw [ports, Finset.mem_filter, Finset.mem_product, Finset.mem_Ico, Finset.mem_range]
  · constructor
    · rintro ⟨⟨hA, -⟩, hbranch⟩
      have he := hspawns.send_mem _ _ hbranch
      exact ⟨hA, he, (hspawns.send _ _ he).mp hbranch⟩
    · rintro ⟨hA, he, hsend⟩
      exact ⟨⟨hA, hrange he⟩, (hspawns.send _ _ he).mpr hsend⟩
  · constructor
    · rintro ⟨⟨hA, -⟩, hbranch⟩
      have he := hspawns.receive_mem _ _ hbranch
      exact ⟨hA, he, (hspawns.receive _ _ he).mp hbranch⟩
    · rintro ⟨hA, he, hreceive⟩
      exact ⟨⟨hA, hrange he⟩, (hspawns.receive _ _ he).mpr hreceive⟩

/-- A neighbour has this rank as its neighbour in the mirrored direction. -/
theorem neighbour_back {A B : ℤ} {e : ℕ} (hA : A ∈ T.ranks) (he : e ∈ exchangeDirections DIM)
    (h : T.IsNeighbour (getRelativeDirections DIM e) A B) :
    (T.communicationMask B).isSet (Mask.mirrored e) = true ∧ T.exchangeTypeToRank B (Mask.mirrored e) = A := by
  have hback := RankTopology.isNeighbour_neg hA h
  have he' := mirrored_mem hDIM hdirections he
  rw [← getRelativeDirections_mirrored_of_mem hDIM hdirections he] at hback
  exact ⟨(RankTopology.isSet_iff h.1 he').mpr ⟨A, hback⟩, RankTopology.exchangeTypeToRank_eq h.1 he' hback⟩

/-- The tags of an exchange are those of the sender's direction. -/
structure HasTags (communicationTag : BitVec 32) (sendX receiveX : ℕ → Exchange DIM) : Prop where
  send : ∀ e, (sendX e).communicationTag = uniqCommunicationTag communicationTag e
  receive : ∀ r, (receiveX r).communicationTag = uniqCommunicationTag communicationTag (Mask.mirrored r)

/-- **Sends and receives are partners.** -/
def matched {D : Type} {waitsFor : ℤ → ℕ → Set ℕ} {pack : ℤ → ℕ → D → List V} {unpack : ℤ → ℕ → List V → D → D}
    (hX : buffer.HasExchanges active sendX receiveX) (hspawns : Spawns DIM active branches)
    (htags : HasTags communicationTag sendX receiveX)
    (hwaits : ∀ B r r', r' ∈ waitsFor B r → (B, r') ∈ ports T branches .receive ∧ r' < r) :
    (rankExchange T buffer branches waitsFor pack unpack).Matched where
  partner _ r := Mask.mirrored r
  order r := r
  partner_sends := by
    intro B r hr
    obtain ⟨hB, hdir, hactive, hset⟩ := (mem_ports hDIM hdirections hspawns).2.mp hr
    have hneighbour := RankTopology.isNeighbour_of_isSet hB hdir hset
    obtain ⟨hset', hrank⟩ := neighbour_back hDIM hdirections hB hdir hneighbour
    have hback := mirrored_mirrored_of_mem hDIM hdirections hdir
    have hdir' := mirrored_mem hDIM hdirections hdir
    refine ⟨(mem_ports hDIM hdirections hspawns).1.mpr ⟨hneighbour.1, hdir', hback.symm ▸ hactive, hset'⟩, hrank, ?_⟩
    have hsend := (hX.send (Mask.mirrored r) _).mpr ⟨hdir', hback.symm ▸ hactive, rfl⟩
    have hreceive := (hX.receive r _).mpr ⟨hactive, rfl⟩
    simp only [rankExchange, messageTag, hsend, hreceive, Option.map_some, Option.getD_some, htags.send, htags.receive]
  sends_partner := by
    intro A e he
    obtain ⟨hA, hdir, hactive, hset⟩ := (mem_ports hDIM hdirections hspawns).1.mp he
    have hneighbour := RankTopology.isNeighbour_of_isSet hA hdir hset
    obtain ⟨hset', hrank⟩ := neighbour_back hDIM hdirections hA hdir hneighbour
    refine ⟨Mask.mirrored e, (mem_ports hDIM hdirections hspawns).2.mpr
      ⟨hneighbour.1, mirrored_mem hDIM hdirections hdir, hactive, hset'⟩, hrank, ?_⟩
    exact mirrored_mirrored_of_mem hDIM hdirections hdir
  distinct := by
    intro B r r' hr hr' _ htag
    obtain ⟨-, hdir, hactive, -⟩ := (mem_ports hDIM hdirections hspawns).2.mp hr
    obtain ⟨-, hdir', hactive', -⟩ := (mem_ports hDIM hdirections hspawns).2.mp hr'
    have hreceive := (hX.receive r _).mpr ⟨hactive, rfl⟩
    have hreceive' := (hX.receive r' _).mpr ⟨hactive', rfl⟩
    simp only [rankExchange, messageTag, hreceive, hreceive', Option.map_some, Option.getD_some, htags.receive] at htag
    have hmirror := uniqCommunicationTag_inj
      (mem_exchangeDirections_lt hDIM hdirections (mirrored_mem hDIM hdirections hdir)).2
      (mem_exchangeDirections_lt hDIM hdirections (mirrored_mem hDIM hdirections hdir')).2 ((BitVec.add_right_inj _).mp htag)
    rw [← mirrored_mirrored_of_mem hDIM hdirections hdir, hmirror, mirrored_mirrored_of_mem hDIM hdirections hdir']
  waitsFor_lt := fun hr' => hwaits _ _ _ hr'

end Matched

/-! ## 2. Guard cells become border cells -/

/-- The directions a mask receives from. -/
def received (DIM : ℕ) (mask : Mask) : Set ℕ := {r | r ∈ exchangeDirections DIM ∧ mask.isSet r = true}

/-- The exchange that sends border cells in a direction. -/
def haloSend (layout : GridLayout DIM) (guardingCells : DataSpace DIM) (communicationTag : BitVec 32) (e : ℕ) : Exchange DIM :=
  Exchange.inGrid layout guardingCells e (uniqCommunicationTag communicationTag e) .BORDER

/-- The exchange that receives guard cells from a direction. -/
def haloReceive (layout : GridLayout DIM) (guardingCells : DataSpace DIM) (communicationTag : BitVec 32) (r : ℕ) :
    Exchange DIM :=
  Exchange.inGrid layout guardingCells r (uniqCommunicationTag communicationTag (Mask.mirrored r)) .GUARD

section Setup

variable {buffer buffer' : GridBuffer DIM} {active : Set ℕ} {sendX receiveX : ℕ → Exchange DIM} {tags tags' : UniquTag}
variable {layout : GridLayout DIM} {guardingCells : DataSpace DIM} {mask : Mask} {communicationTag : BitVec 32}

theorem hasExchanges_new (layout : GridLayout DIM) (sendX receiveX : ℕ → Exchange DIM) (tag : BitVec 32) (mask : Mask) :
    ({ gridLayout := layout, lastUsedCommunicationTag := tag : GridBuffer DIM }.withReceiveMask mask).HasExchanges ∅
      sendX receiveX where
  send e X := by simp [withReceiveMask]
  receive r X := by simp [withReceiveMask]
  subset := Set.empty_subset _
  maxExchange r hr := absurd hr (Set.notMem_empty r)

variable (hDIM : DIM ≤ 3) (hdirections : NumberOfExchanges DIM = 3 ^ DIM)
include hDIM hdirections

theorem hasMasks_withReceiveMask (hmasks : buffer.HasMasks active) (hactive : active ⊆ exchangeDirections DIM) (receive : Mask) :
    (buffer.withReceiveMask receive).HasMasks (active ∪ received DIM receive) := by
  have hset : ∀ r ∈ active ∪ received DIM receive, r ∈ exchangeDirections DIM ∧ (buffer.receiveMask + receive).isSet r = true := by
    rintro r (hr | hr)
    · exact ⟨hactive hr, by rw [Mask.isSet_add, hmasks.receive r hr, Bool.true_or]⟩
    · exact ⟨hr.1, by rw [Mask.isSet_add, hr.2, Bool.or_true]⟩
  refine ⟨fun r hr => ?_, fun r hr => (hset r hr).2⟩
  obtain ⟨hdir, hr'⟩ := hset r hr
  have hdir' := mirrored_mem hDIM hdirections hdir
  rw [withReceiveMask, Mask.isSet_getMirroredMask _ (mem_exchangeDirections_lt hDIM hdirections hdir').2 hdir'.1,
    mirrored_mirrored_of_mem hDIM hdirections hdir, hr']

/-- The exchanges of a new buffer that receives in its guard. -/
theorem addExchange_guard (h : addExchange .GUARD mask guardingCells communicationTag ({ gridLayout := layout }, tags) =
      .ok (buffer, tags')) :
    buffer.HasExchanges (received DIM mask) (haloSend layout guardingCells communicationTag)
        (haloReceive layout guardingCells communicationTag) ∧
      buffer.HasMasks (received DIM mask) := by
  have hmasks : ({ gridLayout := layout, lastUsedCommunicationTag := communicationTag : GridBuffer DIM }).HasMasks ∅ :=
    ⟨fun r hr => absurd hr (Set.notMem_empty r), fun r hr => absurd hr (Set.notMem_empty r)⟩
  obtain ⟨hX, hsame⟩ := (hasExchanges_new layout (haloSend layout guardingCells communicationTag)
    (haloReceive layout guardingCells communicationTag) communicationTag mask).addDirections hDIM hdirections
    (fun _ _ _ => rfl) (fun _ _ _ => rfl) h
  rw [Set.empty_union] at hX
  have hmasks' := hasMasks_withReceiveMask hDIM hdirections hmasks (Set.empty_subset _) mask
  rw [Set.empty_union] at hmasks'
  exact ⟨hX, fun r hr => hsame.sendMask ▸ hmasks'.send r hr, fun r hr => hsame.receiveMask ▸ hmasks'.receive r hr⟩

theorem spawns_spawnCommunication (hX : buffer.HasExchanges active sendX receiveX) (hmasks : buffer.HasMasks active) :
    Spawns DIM active buffer.spawnCommunication := by
  have hreceive : ∀ m r, .receive r ∈ buffer.spawnCommunication m ↔ r ∈ active ∧ m.isSet r = true := by
    intro m r
    rw [← hasReceiveExchange_iff hX hmasks, spawnCommunication, List.mem_flatMap]
    constructor
    · rintro ⟨i, -, hi⟩
      rcases List.mem_append.mp hi with hi | hi
      · split at hi
        · next hhas =>
          obtain rfl := Branch.receive.inj (List.mem_singleton.mp hi)
          exact hhas
        · exact absurd hi List.not_mem_nil
      · split at hi
        · exact absurd hi List.not_mem_nil
        · split at hi
          · exact absurd (List.mem_singleton.mp hi) (by simp)
          · exact absurd hi List.not_mem_nil
    · intro hhas
      refine ⟨r, List.mem_range.mpr (hX.maxExchange r ((hasReceiveExchange_iff hX hmasks).mp hhas).1).1, ?_⟩
      rw [if_pos hhas]
      exact List.mem_append_left _ (List.mem_singleton_self _)
  have hsend : ∀ m e, .send e ∈ buffer.spawnCommunication m ↔
      e ∈ exchangeDirections DIM ∧ Mask.mirrored e ∈ active ∧ m.isSet e = true := by
    intro m e
    rw [← hasSendExchange_iff hDIM hdirections hX hmasks, spawnCommunication, List.mem_flatMap]
    constructor
    · rintro ⟨i, -, hi⟩
      rcases List.mem_append.mp hi with hi | hi
      · split at hi
        · exact absurd (List.mem_singleton.mp hi) (by simp)
        · exact absurd hi List.not_mem_nil
      · split at hi
        · exact absurd hi List.not_mem_nil
        · split at hi
          · next hhas =>
            obtain rfl := Branch.send.inj (List.mem_singleton.mp hi)
            exact hhas
          · exact absurd hi List.not_mem_nil
    · intro hhas
      obtain ⟨hdir, hactive, -⟩ := (hasSendExchange_iff hDIM hdirections hX hmasks).mp hhas
      have hdir' := mirrored_mem hDIM hdirections hdir
      refine ⟨Mask.mirrored e, List.mem_range.mpr (hX.maxExchange _ hactive).1, List.mem_append_right _ ?_⟩
      rw [Mask.getMirroredExchangeType_eq (mem_exchangeDirections_lt hDIM hdirections hdir').2,
        mirrored_mirrored_of_mem hDIM hdirections hdir]
      simp only [hhas, if_true]
      exact List.mem_singleton_self _
  exact {
    receive := fun m r _ => hreceive m r
    send := fun m e he => (hsend m e).trans (and_iff_right he)
    receive_mem := fun m r hr => hX.subset ((hreceive m r).mp hr).1
    send_mem := fun m e he => ((hsend m e).mp he).1 }

end Setup

/-- The exchange that overwrites: all branches of a rank run at once. -/
def haloExchange (T : RankTopology DIM) (buffer : GridBuffer DIM) :
    MessageExchange ℤ ℕ (BitVec 32) (DataSpace DIM → V) (List V) :=
  rankExchange T buffer buffer.spawnCommunication (fun _ _ => ∅)
    (fun _ e device => ((buffer.sendExchanges e).map fun X => X.read device).getD [])
    (fun _ r data device => ((buffer.receiveExchanges r).map fun X => X.write data device).getD device)

/-- Guard cells become the border cells they stand for, and nothing else changes. -/
structure HaloExact (T : RankTopology DIM) (layout : GridLayout DIM) (guardingCells : DataSpace DIM) (mask : Mask)
    (initial final : ℤ → DataSpace DIM → V) : Prop where
  guard : ∀ B ∈ T.ranks, ∀ r ∈ received DIM mask, ∀ A, T.IsNeighbour (getRelativeDirections DIM r) B A →
    ∀ c ∈ layout.guardZone guardingCells (getRelativeDirections DIM r),
      ∃ g ∈ layout.borderZone guardingCells (-getRelativeDirections DIM r),
        final B c = initial A g ∧ globalCell T layout A g = globalCell T layout B c ∧
          ∀ A' ∈ T.ranks, ∀ g' ∈ layout.interior, globalCell T layout A' g' = globalCell T layout B c → A' = A ∧ g' = g
  frame : ∀ B c, (∀ r ∈ received DIM mask, B ∈ T.ranks → (∃ A, T.IsNeighbour (getRelativeDirections DIM r) B A) →
    c ∉ layout.guardZone guardingCells (getRelativeDirections DIM r)) → final B c = initial B c

/-- The regions of matching exchanges have equal extents, and no two receives share a cell. -/
structure RegionsMatch (buffer : GridBuffer DIM) (layout : GridLayout DIM) : Prop where
  counterpart : ∀ r R, buffer.receiveExchanges r = some R → ∃ S, buffer.sendExchanges (Mask.mirrored r) = some S ∧
    S.capacityND = R.capacityND
  send : ∀ e S, buffer.sendExchanges e = some S → S.cells ⊆ layout.cells ∧
    ∃ R, buffer.receiveExchanges (Mask.mirrored e) = some R
  receive : ∀ r R, buffer.receiveExchanges r = some R → R.cells ⊆ layout.cells
  disjoint : ∀ r r' R R', buffer.receiveExchanges r = some R → buffer.receiveExchanges r' = some R' → r ≠ r' →
    Disjoint R.cells R'.cells

section Exact

variable {T : RankTopology DIM} {buffer : GridBuffer DIM} {tags tags' : UniquTag} {layout : GridLayout DIM}
variable {guardingCells : DataSpace DIM} {mask : Mask} {communicationTag : BitVec 32}
variable (hDIM : DIM ≤ 3) (hdirections : NumberOfExchanges DIM = 3 ^ DIM)

theorem hasTags_halo : HasTags communicationTag (haloSend layout guardingCells communicationTag)
    (haloReceive layout guardingCells communicationTag) :=
  ⟨fun _ => rfl, fun _ => rfl⟩

include hDIM hdirections

theorem cells_haloReceive {r : ℕ} (hr : r ∈ exchangeDirections DIM) :
    (haloReceive layout guardingCells communicationTag r).cells = layout.guardZone guardingCells (getRelativeDirections DIM r) :=
  cells_inGrid_guard hDIM (mem_exchangeDirections_lt hDIM hdirections hr).1

theorem cells_haloSend {e : ℕ} (he : e ∈ exchangeDirections DIM) :
    (haloSend layout guardingCells communicationTag e).cells = layout.borderZone guardingCells (getRelativeDirections DIM e) :=
  cells_inGrid_border hDIM (mem_exchangeDirections_lt hDIM hdirections he).1

theorem capacityND_halo {r : ℕ} (hr : r ∈ exchangeDirections DIM) :
    (haloSend layout guardingCells communicationTag (Mask.mirrored r)).capacityND =
      (haloReceive layout guardingCells communicationTag r).capacityND := by
  have hlt := (mem_exchangeDirections_lt hDIM hdirections hr).1
  have hlt' := (mem_exchangeDirections_lt hDIM hdirections (mirrored_mem hDIM hdirections hr)).1
  rw [haloSend, haloReceive, capacityND_inGrid hDIM hlt, capacityND_inGrid hDIM hlt',
    getRelativeDirections_mirrored_of_mem hDIM hdirections hr, extent_neg]

/-- A received message puts the counterparts of the sender into the guard. -/
theorem write_haloReceive {r : ℕ} (hr : r ∈ exchangeDirections DIM) {source memory : DataSpace DIM → V} {c : DataSpace DIM}
    (hc : c ∈ layout.guardZone guardingCells (getRelativeDirections DIM r)) :
    (haloReceive layout guardingCells communicationTag r).write
      ((haloSend layout guardingCells communicationTag (Mask.mirrored r)).read source) memory c =
        source (counterpart layout guardingCells (getRelativeDirections DIM r) c) := by
  have hlt := (mem_exchangeDirections_lt hDIM hdirections hr).1
  have hlt' := (mem_exchangeDirections_lt hDIM hdirections (mirrored_mem hDIM hdirections hr)).1
  rw [Exchange.write_read (capacityND_halo hDIM hdirections hr) (cells_haloReceive hDIM hdirections hr ▸ hc)]
  rw [counterpart, ← getRelativeDirections_mirrored_of_mem hDIM hdirections hr, ← exchangeTypeToOffset_border hDIM hlt',
    ← exchangeTypeToOffset_guard hDIM hlt]
  rfl

theorem ne_zero_of_mem {r : ℕ} (hr : r ∈ exchangeDirections DIM) : getRelativeDirections DIM r ≠ 0 := fun hzero =>
  Nat.one_le_iff_ne_zero.mp hr.1 ((getRelativeDirections_eq_zero (mem_exchangeDirections_lt hDIM hdirections hr).1).mp hzero)

variable (hfit : WidthsFit layout guardingCells)
include hfit

/-- What is received does not change what is sent. -/
theorem read_haloSend_write {e r : ℕ} (he : e ∈ exchangeDirections DIM) (hr : r ∈ exchangeDirections DIM) (data : List V)
    (memory : DataSpace DIM → V) :
    (haloSend layout guardingCells communicationTag e).read
      ((haloReceive layout guardingCells communicationTag r).write data memory) =
        (haloSend layout guardingCells communicationTag e).read memory := by
  refine Exchange.read_congr (fun d => ?_) fun c hc => Exchange.write_of_not_mem fun hc' => ?_
  · rw [haloSend, capacityND_inGrid hDIM (mem_exchangeDirections_lt hDIM hdirections he).1]
    exact extent_nonneg hfit d
  · rw [cells_haloSend hDIM hdirections he] at hc
    rw [cells_haloReceive hDIM hdirections hr] at hc'
    have hdisjoint : Disjoint (layout.guardZone guardingCells (getRelativeDirections DIM r)) layout.interior :=
      disjoint_guardZone_interior (getRelativeDirections_mem DIM r) (ne_zero_of_mem hDIM hdirections hr)
    exact Set.disjoint_left.mp hdisjoint hc' (borderZone_subset hfit (getRelativeDirections_mem DIM e) hc)

theorem regionsMatch (h : addExchange .GUARD mask guardingCells communicationTag ({ gridLayout := layout }, tags) =
    .ok (buffer, tags')) : RegionsMatch buffer layout := by
  obtain ⟨hX, -⟩ := addExchange_guard hDIM hdirections h
  refine ⟨fun r R hR => ?_, fun e S hS => ?_, fun r R hR => ?_, fun r r' R R' hR hR' hne => ?_⟩
  · obtain ⟨hr, rfl⟩ := (hX.receive r R).mp hR
    have hback := mirrored_mirrored_of_mem hDIM hdirections hr.1
    exact ⟨_, (hX.send _ _).mpr ⟨mirrored_mem hDIM hdirections hr.1, hback.symm ▸ hr, rfl⟩, capacityND_halo hDIM hdirections hr.1⟩
  · obtain ⟨he, hactive, rfl⟩ := (hX.send e S).mp hS
    rw [cells_haloSend hDIM hdirections he]
    exact ⟨(borderZone_subset hfit (getRelativeDirections_mem DIM e)).trans (interior_subset hfit), _,
      (hX.receive _ _).mpr ⟨hactive, rfl⟩⟩
  · obtain ⟨hr, rfl⟩ := (hX.receive r R).mp hR
    rw [cells_haloReceive hDIM hdirections hr.1]
    exact guardZone_subset hfit (getRelativeDirections_mem DIM r)
  · obtain ⟨hr, rfl⟩ := (hX.receive r R).mp hR
    obtain ⟨hr', rfl⟩ := (hX.receive r' R').mp hR'
    rw [cells_haloReceive hDIM hdirections hr.1, cells_haloReceive hDIM hdirections hr'.1]
    refine disjoint_guardZone hfit (getRelativeDirections_mem DIM r) (getRelativeDirections_mem DIM r') fun heq => hne ?_
    exact (getRelativeDirections_inj (mem_exchangeDirections_lt hDIM hdirections hr.1).1
      (mem_exchangeDirections_lt hDIM hdirections hr'.1).1).mp heq

/-- **The halo exchange is exact** in any interleaving, and comes to its end. -/
theorem haloExchange_ends (h : addExchange .GUARD mask guardingCells communicationTag ({ gridLayout := layout }, tags) =
    .ok (buffer, tags')) (initial : ℤ → DataSpace DIM → V) :
    ((haloExchange T buffer).system initial).Ends (MessageExchange.start initial)
      fun s => HaloExact T layout guardingCells mask initial s.device := by
  obtain ⟨hX, hmasks⟩ := addExchange_guard hDIM hdirections h
  have hspawns := spawns_spawnCommunication hDIM hdirections hX hmasks
  let hmatched : (haloExchange (V := V) T buffer).Matched :=
    matched hDIM hdirections hX hspawns hasTags_halo fun B r r' hr' => absurd hr' (Set.notMem_empty r')
  have hseparate : (haloExchange (V := V) T buffer).Separate := by
    intro A e r data device he hr
    obtain ⟨-, he', hactive, -⟩ := (mem_ports hDIM hdirections hspawns).1.mp he
    obtain ⟨-, hr', hactive', -⟩ := (mem_ports hDIM hdirections hspawns).2.mp hr
    simp only [haloExchange, rankExchange, (hX.send e _).mpr ⟨he', hactive, rfl⟩, (hX.receive r _).mpr ⟨hactive', rfl⟩,
      Option.map_some, Option.getD_some]
    exact read_haloSend_write hDIM hdirections hfit he' hr' data device
  refine (hmatched.ends hseparate initial).mono fun s hs => ?_
  -- what every receive of a rank does to the memory of the rank
  have hunpack : ∀ B r, (B, r) ∈ (haloExchange (V := V) T buffer).receives → ∀ device,
      (haloExchange T buffer).unpack B r (hmatched.message initial B r) device =
        (haloReceive layout guardingCells communicationTag r).write
          ((haloSend layout guardingCells communicationTag (Mask.mirrored r)).read (initial (T.exchangeTypeToRank B r))) device := by
    intro B r hr device
    obtain ⟨-, hr', hactive, -⟩ := (mem_ports hDIM hdirections hspawns).2.mp hr
    have hback := mirrored_mirrored_of_mem hDIM hdirections hr'
    have hsend := (hX.send (Mask.mirrored r) _).mpr ⟨mirrored_mem hDIM hdirections hr', hback.symm ▸ hactive, rfl⟩
    have hreceive := (hX.receive r _).mpr ⟨hactive, rfl⟩
    simp only [MessageExchange.Matched.message, haloExchange, rankExchange, hmatched, matched, hsend, hreceive,
      Option.map_some, Option.getD_some]
  have hdevice : ∀ B c,
      (∀ r, (B, r) ∈ (haloExchange (V := V) T buffer).receives →
        c ∈ layout.guardZone guardingCells (getRelativeDirections DIM r) →
        s.device B c = initial (T.exchangeTypeToRank B r) (counterpart layout guardingCells (getRelativeDirections DIM r) c)) ∧
      ((∀ r, (B, r) ∈ (haloExchange (V := V) T buffer).receives →
        c ∉ layout.guardZone guardingCells (getRelativeDirections DIM r)) → s.device B c = initial B c) := by
    intro B c
    obtain ⟨l, -, hl, hB⟩ := hs B
    have hdir : ∀ r ∈ l, r ∈ exchangeDirections DIM := fun r hr =>
      ((mem_ports hDIM hdirections hspawns).2.mp ((hl r).mp hr)).2.1
    have hregions := foldl_regions (l := l) (R := fun r => layout.guardZone guardingCells (getRelativeDirections DIM r))
      (f := fun device r => (haloExchange T buffer).unpack B r (hmatched.message initial B r) device)
      (v := fun r c =>
        initial (T.exchangeTypeToRank B r) (counterpart layout guardingCells (getRelativeDirections DIM r) c))
      (fun r hr device c hc => by
        rw [hunpack B r ((hl r).mp hr)]
        exact write_haloReceive hDIM hdirections (hdir r hr) hc)
      (fun r hr device c hc => by
        rw [hunpack B r ((hl r).mp hr)]
        exact Exchange.write_of_not_mem (cells_haloReceive hDIM hdirections (hdir r hr) ▸ hc))
      (fun r hr r' hr' hne => disjoint_guardZone hfit (getRelativeDirections_mem DIM r) (getRelativeDirections_mem DIM r')
        fun heq => hne ((getRelativeDirections_inj (mem_exchangeDirections_lt hDIM hdirections (hdir r hr)).1
          (mem_exchangeDirections_lt hDIM hdirections (hdir r' hr')).1).mp heq))
      (initial B) c
    rw [hB]
    exact ⟨fun r hr hc => hregions.1 r ((hl r).mpr hr) hc, fun hc => hregions.2 fun r hr => hc r ((hl r).mp hr)⟩
  refine ⟨fun B hB r hr A hA c hc => ?_, fun B c hc => (hdevice B c).2 fun r hr => ?_⟩
  · have hport : (B, r) ∈ (haloExchange (V := V) T buffer).receives :=
      (mem_ports hDIM hdirections hspawns).2.mpr ⟨hB, hr.1, hr, (RankTopology.isSet_iff hB hr.1).mpr ⟨A, hA⟩⟩
    have hrank := RankTopology.exchangeTypeToRank_eq hB hr.1 hA
    have hglobal : globalCell T layout A (counterpart layout guardingCells (getRelativeDirections DIM r) c) =
        globalCell T layout B c := globalCell_counterpart (getRelativeDirections_mem DIM r) hA
    have hborder := counterpart_mem hc
    have hinterior : counterpart layout guardingCells (getRelativeDirections DIM r) c ∈ layout.interior := by
      refine borderZone_subset hfit (fun d => ?_) hborder
      rcases getRelativeDirections_mem DIM r d with hd | hd | hd <;> simp [hd]
    refine ⟨_, hborder, hrank ▸ (hdevice B c).1 r hport hc, hglobal, fun A' hA' g' hg' hglobal' => ?_⟩
    exact eq_of_globalCell hA' hA.1 hg' hinterior (hglobal'.trans hglobal.symm)
  · obtain ⟨hB, hr', hactive, hset⟩ := (mem_ports hDIM hdirections hspawns).2.mp hr
    exact hc r hactive hB ((RankTopology.isSet_iff hB hr').mp hset)

end Exact

end Communication
end Spearhed
