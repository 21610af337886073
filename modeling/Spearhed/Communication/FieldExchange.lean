import Spearhed.Communication.FieldKernels
import Spearhed.Communication.HaloExchange

/-!
# Additive field exchange between the ranks

Where the guard of a field collects contributions for the neighbours, these are added to their borders:
every rank copies its guard to exchanges of their own memory and sends them, and adds what it receives
to its border, one receive after the other.

## 1. The exchange

`fieldExchange` has a branch per direction with an exchange and a neighbour; a receive starts when the
receives of lower directions are over.

## 2. Border cells collect their images

The images of a border cell are the guard cells, of any rank, that are the same cell of the domain.
`fieldExchange_ends`: in any interleaving every border cell ends up with its images added, each once.

## 3. Both exchanges

`exchangesExact` states both exchanges for the ranks of one, two and three dimensions.
-/

namespace Spearhed
namespace Communication

open Library Mappings MappingDescription GridBuffer

variable {DIM : ℕ} {V : Type}

/-! ## 1. The exchange -/

/-- One exchange of its own memory per direction of the mask, as wide as the field exchanges. -/
def addFieldExchanges (layout : GridLayout DIM) (guardingCells : DataSpace DIM) (mask : Mask) (communicationTag : BitVec 32)
    (state : GridBuffer DIM × UniquTag) : Except String (GridBuffer DIM × UniquTag) :=
  (directions DIM).foldlM (fun state exchange =>
    if mask.isSet exchange then
      addExchangeBuffer (Mask.single exchange) (layout.extent guardingCells (getRelativeDirections DIM exchange))
        communicationTag state
    else pure state) state

/-- The branches of a rank, as the loop over the directions spawns them. -/
def spawnFieldCommunication (buffer : GridBuffer DIM) (communicationMask : Mask) : List Branch :=
  (directions DIM).flatMap fun exchange =>
    (if buffer.hasReceiveExchange communicationMask exchange then [Branch.receive exchange] else []) ++
      (if buffer.hasSendExchange communicationMask exchange then [Branch.send exchange] else [])

/-- The order of the workers of every launch, and what the exchanges held before. -/
structure FieldRun (DIM : ℕ) (V : Type) where
  copyWorkers : ℤ → ℕ → List (Worker DIM)
  addWorkers : ℤ → ℕ → List (Worker DIM)
  sendMemory : ℤ → ℕ → DataSpace DIM → V
  receiveMemory : ℤ → ℕ → DataSpace DIM → V

/-- All workers of all launches. -/
structure FieldRun.Launches (run : FieldRun DIM V) (M : MappingDescription DIM) (SuperCellSize : DataSpace DIM) : Prop where
  copy : ∀ A e, IsLaunch M SuperCellSize e (run.copyWorkers A e)
  add : ∀ B r, IsLaunch M SuperCellSize r (run.addWorkers B r)

section Exchange

variable [Add V] (T : RankTopology DIM) (buffer : GridBuffer DIM) (M : MappingDescription DIM) (SuperCellSize : DataSpace DIM)
variable (run : FieldRun DIM V)

/-- `CopyGuardToExchange`, and the message that is sent then. -/
def sendExchange (A : ℤ) (e : ℕ) (X : Exchange DIM) (device : DataSpace DIM → V) : List V :=
  X.read (runCopy M SuperCellSize X.capacityND e (run.copyWorkers A e) device (run.sendMemory A e))

/-- The message that has arrived, and `AddExchangeToBorder`. -/
def receiveExchange (B : ℤ) (r : ℕ) (X : Exchange DIM) (data : List V) (device : DataSpace DIM → V) : DataSpace DIM → V :=
  runAdd M SuperCellSize X.capacityND r (run.addWorkers B r) (X.write data (run.receiveMemory B r)) device

/-- The exchange that adds: the receives of a rank are inserted one after another. -/
def fieldExchange : MessageExchange ℤ ℕ (BitVec 32) (DataSpace DIM → V) (List V) :=
  rankExchange T buffer (spawnFieldCommunication buffer)
    (fun B r => {r' | (B, r') ∈ ports T (spawnFieldCommunication buffer) .receive ∧ r' < r})
    (fun A e device => ((buffer.sendExchanges e).map fun X => sendExchange M SuperCellSize run A e X device).getD [])
    (fun B r data device =>
      ((buffer.receiveExchanges r).map fun X => receiveExchange M SuperCellSize run B r X data device).getD device)

end Exchange

/-! ### What is set up -/

section Setup

variable {buffer buffer' : GridBuffer DIM} {active : Set ℕ} {sendX receiveX : ℕ → Exchange DIM} {tags tags' : UniquTag}
variable {layout : GridLayout DIM} {guardingCells : DataSpace DIM} {mask : Mask} {communicationTag : BitVec 32}

/-- The exchange that sends guard cells in a direction. -/
def fieldSend (layout : GridLayout DIM) (guardingCells : DataSpace DIM) (communicationTag : BitVec 32) (e : ℕ) : Exchange DIM :=
  Exchange.dedicated (layout.extent guardingCells (getRelativeDirections DIM e)) e (uniqCommunicationTag communicationTag e)

def fieldReceive (layout : GridLayout DIM) (guardingCells : DataSpace DIM) (communicationTag : BitVec 32) (r : ℕ) :
    Exchange DIM :=
  Exchange.dedicated (layout.extent guardingCells (getRelativeDirections DIM r)) r
    (uniqCommunicationTag communicationTag (Mask.mirrored r))

/-- The directions a field receives from; there is no exchange without cells. -/
def fieldReceived (layout : GridLayout DIM) (guardingCells : DataSpace DIM) (mask : Mask) : Set ℕ :=
  {r | r ∈ received DIM mask ∧ productOfComponents (layout.extent guardingCells (getRelativeDirections DIM r)) ≠ 0}

theorem hasTags_field : HasTags communicationTag (fieldSend layout guardingCells communicationTag)
    (fieldReceive layout guardingCells communicationTag) :=
  ⟨fun _ => rfl, fun _ => rfl⟩

variable (hDIM : DIM ≤ 3) (hdirections : NumberOfExchanges DIM = 3 ^ DIM)
include hDIM hdirections

/-- The exchanges of one direction, unless they would have no cells. -/
theorem addExchangeBuffer_single {r : ℕ} (hr : r ∈ exchangeDirections DIM)
    (hX : buffer.HasExchanges active (fieldSend layout guardingCells communicationTag)
      (fieldReceive layout guardingCells communicationTag)) (hmasks : buffer.HasMasks active)
    (h : addExchangeBuffer (Mask.single r) (layout.extent guardingCells (getRelativeDirections DIM r)) communicationTag
      (buffer, tags) = .ok (buffer', tags')) :
    buffer'.HasExchanges (active ∪ fieldReceived layout guardingCells (Mask.single r))
        (fieldSend layout guardingCells communicationTag) (fieldReceive layout guardingCells communicationTag) ∧
      buffer'.HasMasks (active ∪ fieldReceived layout guardingCells (Mask.single r)) := by
  have hlt : r < 32 := (mem_exchangeDirections_lt hDIM hdirections hr).2.trans (by decide)
  have hsingle : ∀ r', (Mask.single r).isSet r' = true ↔ r' = r := fun r' => by
    rw [Mask.isSet_single hlt, decide_eq_true_eq]
  rw [addExchangeBuffer] at h
  cases hcheck : checkTag buffer communicationTag with
  | error message => rw [hcheck] at h; cases h
  | ok _ =>
    rw [hcheck] at h
    simp only [bind, Except.bind] at h
    split at h
    · next hne =>
      have hactive : fieldReceived layout guardingCells (Mask.single r) = received DIM (Mask.single r) :=
        Set.sep_eq_self_iff_mem_true.mpr fun r' hr' => ((hsingle r').mp hr'.2) ▸ hne
      have hstart : ({ buffer with lastUsedCommunicationTag := communicationTag }.withReceiveMask (Mask.single r)).HasExchanges
          active (fieldSend layout guardingCells communicationTag) (fieldReceive layout guardingCells communicationTag) :=
        ⟨hX.send, hX.receive, hX.subset, hX.maxExchange⟩
      have hstartMasks : ({ buffer with lastUsedCommunicationTag := communicationTag } : GridBuffer DIM).HasMasks active :=
        ⟨hmasks.send, hmasks.receive⟩
      obtain ⟨hend, hsame⟩ := hstart.addDirections hDIM hdirections
        (fun r' _ hset => by
          rw [(hsingle r').mp hset, fieldSend, getRelativeDirections_mirrored_of_mem hDIM hdirections hr, extent_neg])
        (fun r' _ hset => by rw [(hsingle r').mp hset, fieldReceive]) h
      have hendMasks := hasMasks_withReceiveMask hDIM hdirections hstartMasks hX.subset (Mask.single r)
      rw [hactive]
      exact ⟨hend, fun r' hr' => hsame.sendMask ▸ hendMasks.send r' hr', fun r' hr' => hsame.receiveMask ▸ hendMasks.receive r' hr'⟩
    · next hempty =>
      have hactive : fieldReceived layout guardingCells (Mask.single r) = ∅ :=
        Set.eq_empty_of_forall_notMem fun r' hr' => hr'.2 (((hsingle r').mp hr'.1.2) ▸ not_not.mp hempty)
      obtain ⟨rfl, -⟩ := Prod.mk.inj (Except.ok.inj h)
      rw [hactive, Set.union_empty]
      exact ⟨⟨hX.send, hX.receive, hX.subset, hX.maxExchange⟩, hmasks.send, hmasks.receive⟩

/-- The exchanges of the directions of a list that the mask has. -/
theorem foldlM_addExchangeBuffer {l : List ℕ} (hl : ∀ r ∈ l, r ∈ exchangeDirections DIM)
    (hX : buffer.HasExchanges active (fieldSend layout guardingCells communicationTag)
      (fieldReceive layout guardingCells communicationTag)) (hmasks : buffer.HasMasks active)
    (h : l.foldlM (fun state exchange =>
      if mask.isSet exchange then
        addExchangeBuffer (Mask.single exchange) (layout.extent guardingCells (getRelativeDirections DIM exchange))
          communicationTag state
      else pure state) (buffer, tags) = Except.ok (buffer', tags')) :
    buffer'.HasExchanges (active ∪ {r | r ∈ l ∧ r ∈ fieldReceived layout guardingCells mask})
        (fieldSend layout guardingCells communicationTag) (fieldReceive layout guardingCells communicationTag) ∧
      buffer'.HasMasks (active ∪ {r | r ∈ l ∧ r ∈ fieldReceived layout guardingCells mask}) := by
  induction l generalizing buffer tags active with
  | nil =>
    obtain ⟨rfl, -⟩ := Prod.mk.inj (Except.ok.inj h)
    simpa using ⟨hX, hmasks⟩
  | cons r l ih =>
    have hl' : ∀ r' ∈ l, r' ∈ exchangeDirections DIM := fun r' hr' => hl r' (List.mem_cons_of_mem r hr')
    have hr := hl r List.mem_cons_self
    rw [List.foldlM_cons] at h
    by_cases hset : mask.isSet r = true
    · rw [if_pos hset] at h
      cases hadd : addExchangeBuffer (Mask.single r) (layout.extent guardingCells (getRelativeDirections DIM r))
          communicationTag (buffer, tags) with
      | error message => rw [hadd] at h; cases h
      | ok state =>
        rw [hadd] at h
        obtain ⟨hmiddle, hmiddleMasks⟩ := addExchangeBuffer_single hDIM hdirections hr hX hmasks hadd
        have hend := ih hl' hmiddle hmiddleMasks h
        have hactive : active ∪ {r' | r' ∈ r :: l ∧ r' ∈ fieldReceived layout guardingCells mask} =
            active ∪ fieldReceived layout guardingCells (Mask.single r) ∪
              {r' | r' ∈ l ∧ r' ∈ fieldReceived layout guardingCells mask} := by
          have hlt : r < 32 := (mem_exchangeDirections_lt hDIM hdirections hr).2.trans (by decide)
          rw [Set.union_assoc]
          congr 1
          ext r'
          simp only [fieldReceived, received, Set.mem_union, Set.mem_ofPred_eq, List.mem_cons, Mask.isSet_single hlt,
            decide_eq_true_eq]
          constructor
          · rintro ⟨rfl | hr', hr''⟩
            · exact Or.inl ⟨⟨hr, rfl⟩, hr''.2⟩
            · exact Or.inr ⟨hr', hr''⟩
          · rintro (⟨⟨hr', rfl⟩, hne⟩ | ⟨hr', hr''⟩)
            · exact ⟨Or.inl rfl, ⟨hr, hset⟩, hne⟩
            · exact ⟨Or.inr hr', hr''⟩
        rwa [hactive]
    · rw [if_neg hset] at h
      have hend := ih hl' hX hmasks h
      have hactive : {r' | r' ∈ r :: l ∧ r' ∈ fieldReceived layout guardingCells mask} =
          {r' | r' ∈ l ∧ r' ∈ fieldReceived layout guardingCells mask} := by
        ext r'
        refine and_congr_left fun hr' => ?_
        rw [List.mem_cons, or_iff_right]
        rintro rfl
        exact hset hr'.1.2
      rwa [hactive]

/-- The exchanges of a new field. -/
theorem addFieldExchanges_ok (h : addFieldExchanges layout guardingCells mask communicationTag ({ gridLayout := layout }, tags) =
      .ok (buffer, tags')) :
    buffer.HasExchanges (fieldReceived layout guardingCells mask) (fieldSend layout guardingCells communicationTag)
        (fieldReceive layout guardingCells communicationTag) ∧
      buffer.HasMasks (fieldReceived layout guardingCells mask) := by
  have hnew : ({ gridLayout := layout } : GridBuffer DIM).HasExchanges ∅ (fieldSend layout guardingCells communicationTag)
      (fieldReceive layout guardingCells communicationTag) :=
    ⟨fun e X => by simp, fun r X => by simp, Set.empty_subset _, fun r hr => absurd hr (Set.notMem_empty r)⟩
  have hnewMasks : ({ gridLayout := layout } : GridBuffer DIM).HasMasks ∅ :=
    ⟨fun r hr => absurd hr (Set.notMem_empty r), fun r hr => absurd hr (Set.notMem_empty r)⟩
  have hend := foldlM_addExchangeBuffer hDIM hdirections (fun r hr => (mem_directions hdirections).mp hr) hnew hnewMasks h
  have hactive : {r | r ∈ directions DIM ∧ r ∈ fieldReceived layout guardingCells mask} =
      fieldReceived layout guardingCells mask :=
    Set.ext fun r => and_iff_right_of_imp fun hr => (mem_directions hdirections).mpr hr.1.1
  rwa [Set.empty_union, hactive] at hend

theorem spawns_spawnFieldCommunication (hX : buffer.HasExchanges active sendX receiveX) (hmasks : buffer.HasMasks active) :
    Spawns DIM active (spawnFieldCommunication buffer) := by
  have hreceive : ∀ m r, .receive r ∈ spawnFieldCommunication buffer m ↔
      r ∈ exchangeDirections DIM ∧ buffer.hasReceiveExchange m r = true := by
    intro m r
    simp only [spawnFieldCommunication, List.mem_flatMap, List.mem_append, mem_directions hdirections]
    constructor
    · rintro ⟨i, hi, hbranch | hbranch⟩ <;> split at hbranch
      · obtain rfl := Branch.receive.inj (List.mem_singleton.mp hbranch)
        exact ⟨hi, ‹_›⟩
      · exact absurd hbranch List.not_mem_nil
      · exact absurd (List.mem_singleton.mp hbranch) (by simp)
      · exact absurd hbranch List.not_mem_nil
    · rintro ⟨hr, hhas⟩
      exact ⟨r, hr, Or.inl (by rw [if_pos hhas]; exact List.mem_singleton_self _)⟩
  have hsend : ∀ m e, .send e ∈ spawnFieldCommunication buffer m ↔
      e ∈ exchangeDirections DIM ∧ buffer.hasSendExchange m e = true := by
    intro m e
    simp only [spawnFieldCommunication, List.mem_flatMap, List.mem_append, mem_directions hdirections]
    constructor
    · rintro ⟨i, hi, hbranch | hbranch⟩ <;> split at hbranch
      · exact absurd (List.mem_singleton.mp hbranch) (by simp)
      · exact absurd hbranch List.not_mem_nil
      · obtain rfl := Branch.send.inj (List.mem_singleton.mp hbranch)
        exact ⟨hi, ‹_›⟩
      · exact absurd hbranch List.not_mem_nil
    · rintro ⟨he, hhas⟩
      exact ⟨e, he, Or.inr (by rw [if_pos hhas]; exact List.mem_singleton_self _)⟩
  exact {
    receive := fun m r hr => by rw [hreceive, and_iff_right hr, hasReceiveExchange_iff hX hmasks]
    send := fun m e he => by
      rw [hsend, and_iff_right he, hasSendExchange_iff hDIM hdirections hX hmasks, and_iff_right he]
    receive_mem := fun m r hr => ((hreceive m r).mp hr).1
    send_mem := fun m e he => ((hsend m e).mp he).1 }

end Setup

/-! ## 2. Border cells collect their images -/

/-- The guard cells of all ranks, within the width of a direction that is sent, that are the same cell of the
domain as `c` of rank `B`. -/
noncomputable def images (T : RankTopology DIM) (layout : GridLayout DIM) (guardingCells : DataSpace DIM) (mask : Mask)
    (B : ℤ) (c : DataSpace DIM) : Finset (ℤ × DataSpace DIM) :=
  open Classical in
  (Finset.Ico 0 (∏ d, T.dims d) ×ˢ Fintype.piFinset fun d => Finset.Ico 0 (layout.sizeND d)).filter fun p =>
    c ∈ layout.interior ∧ globalCell T layout p.1 p.2 = globalCell T layout B c ∧
      ∃ e ∈ exchangeDirections DIM, mask.isSet (Mask.mirrored e) = true ∧
        p.2 ∈ layout.guardZone guardingCells (getRelativeDirections DIM e)

/-- Every cell has its images added, each once. -/
def FieldExact [AddCommMonoid V] (T : RankTopology DIM) (layout : GridLayout DIM) (guardingCells : DataSpace DIM) (mask : Mask)
    (initial final : ℤ → DataSpace DIM → V) : Prop :=
  ∀ B ∈ T.ranks, ∀ c, final B c = initial B c + ∑ p ∈ images T layout guardingCells mask B c, initial p.1 p.2

section Images

variable {T : RankTopology DIM} {layout : GridLayout DIM} {guardingCells v : DataSpace DIM} {A B : ℤ} {c g : DataSpace DIM}

theorem mem_images {mask : Mask} {p : ℤ × DataSpace DIM} : p ∈ images T layout guardingCells mask B c ↔
    (p.1 ∈ T.ranks ∧ p.2 ∈ layout.cells) ∧ c ∈ layout.interior ∧ globalCell T layout p.1 p.2 = globalCell T layout B c ∧
      ∃ e ∈ exchangeDirections DIM, mask.isSet (Mask.mirrored e) = true ∧
        p.2 ∈ layout.guardZone guardingCells (getRelativeDirections DIM e) := by
  classical
  rw [images, Finset.mem_filter, Finset.mem_product, Finset.mem_Ico, Fintype.mem_piFinset]
  simp only [Finset.mem_Ico]
  rfl

/-- A guard cell that is a border cell of another rank is in the direction of that rank. -/
theorem isNeighbour_of_globalCell (hfit : WidthsFit layout guardingCells) (hB : B ∈ T.ranks)
    (hv : v ∈ unitOffsets DIM) (hg : g ∈ layout.guardZone guardingCells v) (hc : c ∈ layout.interior)
    (h : globalCell T layout A g = globalCell T layout B c) : T.IsNeighbour v A B := by
  have hneg : -v ∈ unitOffsets DIM := fun d => by rcases hv d with hd | hd | hd <;> simp [hd]
  have hcounterpart := borderZone_subset hfit hneg (counterpart_mem hg)
  refine ⟨hB, fun d => ?_⟩
  have hy := mem_interior_iff.mp hcounterpart d
  have hz := mem_interior_iff.mp hc d
  have hm : 0 < layout.sizeWithoutGuardND d := hz.1.trans_lt hz.2
  have hposition : T.coordinates A d * layout.sizeWithoutGuardND d + (g d - layout.guardSizeND d) =
      (T.coordinates A d + v d) * layout.sizeWithoutGuardND d +
        (counterpart layout guardingCells v g d - layout.guardSizeND d) := by
    rw [counterpart_sub hv]
    ring
  have hd := congrFun h d
  rw [globalCell_of_interior hB hc, globalCell, hposition] at hd
  split at hd
  · next hperiodic => rw [if_pos hperiodic, (eq_of_position hy hz hd).1]
  · next hperiodic =>
    have hlo := Int.emod_nonneg (T.coordinates A d + v d) (T.dims_pos d).ne'
    have hhi := Int.emod_lt_of_pos (T.coordinates A d + v d) (T.dims_pos d)
    rw [← add_emod_wrapped, Int.emod_eq_of_lt (add_nonneg (mul_nonneg hlo hm.le) hy.1)] at hd
    · rw [if_neg hperiodic, (eq_of_position hy hz hd).1]
    · calc (T.coordinates A d + v d) % T.dims d * layout.sizeWithoutGuardND d +
            (counterpart layout guardingCells v g d - layout.guardSizeND d)
          < ((T.coordinates A d + v d) % T.dims d + 1) * layout.sizeWithoutGuardND d := by linarith [hy.2]
        _ ≤ T.dims d * layout.sizeWithoutGuardND d := mul_le_mul_of_nonneg_right hhi hm.le

end Images

section Exact

variable {T : RankTopology DIM} {buffer : GridBuffer DIM} {tags tags' : UniquTag}
variable {layout : GridLayout DIM} {guardingCells : DataSpace DIM} {mask : Mask} {communicationTag : BitVec 32}
variable {M : MappingDescription DIM} {SuperCellSize : DataSpace DIM} {run : FieldRun DIM V}

/-- The guard cell at the sender that a border cell of direction `v` gets. -/
def image (layout : GridLayout DIM) (guardingCells v : DataSpace DIM) (c : DataSpace DIM) : DataSpace DIM :=
  layout.guardOffset guardingCells (-v) + (c - layout.borderOffset guardingCells v)

theorem counterpart_image {v c : DataSpace DIM} :
    counterpart layout guardingCells (-v) (image layout guardingCells v c) = c := by
  rw [counterpart, image, neg_neg, add_sub_cancel_left, add_sub_cancel]

theorem image_mem {v c : DataSpace DIM} (hc : c ∈ layout.borderZone guardingCells v) :
    image layout guardingCells v c ∈ layout.guardZone guardingCells (-v) := fun d => by
  have hcd := hc d
  simp only [image, extent_neg, Pi.add_apply, Pi.sub_apply] at hcd ⊢
  omega

variable (hM : WholeSuperCells layout SuperCellSize M) (hfit : WidthsFit layout guardingCells)
variable (hrun : run.Launches M SuperCellSize)
include hM hfit hrun

/-- What is sent is the guard of the sender. -/
theorem sendExchange_congr {A : ℤ} {e : ℕ} {device device' : DataSpace DIM → V}
    (h : ∀ c ∈ layout.guardZone guardingCells (getRelativeDirections DIM e), device c = device' c) :
    sendExchange M SuperCellSize run A e (fieldSend layout guardingCells communicationTag e) device =
      sendExchange M SuperCellSize run A e (fieldSend layout guardingCells communicationTag e) device' := by
  refine Exchange.read_congr (fun d => extent_nonneg hfit d) fun c hc => ?_
  rw [Exchange.mem_cells] at hc
  have hk : c ∈ box 0 (layout.extent guardingCells (getRelativeDirections DIM e)) := by
    simpa [fieldSend, Exchange.dedicated] using hc
  have hcell : layout.guardOffset guardingCells (getRelativeDirections DIM e) + c ∈
      layout.guardZone guardingCells (getRelativeDirections DIM e) := fun d => by
    have hd := hk d
    simp only [Pi.add_apply, Pi.zero_apply] at hd ⊢
    omega
  change runCopy M SuperCellSize (layout.extent guardingCells _) e _ device _ c =
    runCopy M SuperCellSize (layout.extent guardingCells _) e _ device' _ c
  rw [runCopy_eq hM hfit (hrun.copy A e) hk, runCopy_eq hM hfit (hrun.copy A e) hk, h _ hcell]

variable [AddCommMonoid V]

/-- What is received is added to the border of the direction. -/
theorem receiveExchange_apply {B : ℤ} {r : ℕ} (data : List V) (device : DataSpace DIM → V) (c : DataSpace DIM)
    [Decidable (c ∈ layout.borderZone guardingCells (getRelativeDirections DIM r))] :
    receiveExchange M SuperCellSize run B r (fieldReceive layout guardingCells communicationTag r) data device c =
      device c + if c ∈ layout.borderZone guardingCells (getRelativeDirections DIM r) then
        (fieldReceive layout guardingCells communicationTag r).write data (run.receiveMemory B r)
          (c - layout.borderOffset guardingCells (getRelativeDirections DIM r)) else 0 :=
  runAdd_eq hM hfit (hrun.add B r) _ device c

variable (hDIM : DIM ≤ 3) (hdirections : NumberOfExchanges DIM = 3 ^ DIM)
include hDIM hdirections

/-- A message of the neighbour adds its guard cells. -/
theorem receiveExchange_sendExchange {A B : ℤ} {r : ℕ} (hr : r ∈ exchangeDirections DIM) (source device : DataSpace DIM → V)
    (c : DataSpace DIM) [Decidable (c ∈ layout.borderZone guardingCells (getRelativeDirections DIM r))] :
    receiveExchange M SuperCellSize run B r (fieldReceive layout guardingCells communicationTag r)
        (sendExchange M SuperCellSize run A (Mask.mirrored r) (fieldSend layout guardingCells communicationTag (Mask.mirrored r))
          source) device c =
      device c + if c ∈ layout.borderZone guardingCells (getRelativeDirections DIM r) then
        source (image layout guardingCells (getRelativeDirections DIM r) c) else 0 := by
  rw [receiveExchange_apply hM hfit hrun]
  congr 1
  split
  · next hc =>
    have hmirror := getRelativeDirections_mirrored_of_mem hDIM hdirections hr
    have hk : c - layout.borderOffset guardingCells (getRelativeDirections DIM r) ∈
        box 0 (layout.extent guardingCells (getRelativeDirections DIM r)) := fun d => by
      have hd := hc d
      simp only [Pi.add_apply, Pi.sub_apply, Pi.zero_apply] at hd ⊢
      omega
    have hextent : (fieldSend layout guardingCells communicationTag (Mask.mirrored r)).capacityND =
        (fieldReceive layout guardingCells communicationTag r).capacityND := by
      simp only [fieldSend, fieldReceive, Exchange.dedicated, hmirror, extent_neg]
    have hcells : c - layout.borderOffset guardingCells (getRelativeDirections DIM r) ∈
        (fieldReceive layout guardingCells communicationTag r).cells :=
      Exchange.mem_cells.mpr (by simpa [fieldReceive, Exchange.dedicated] using hk)
    rw [sendExchange, Exchange.write_read hextent hcells]
    have hk' : c - layout.borderOffset guardingCells (getRelativeDirections DIM r) ∈
        box 0 (layout.extent guardingCells (getRelativeDirections DIM (Mask.mirrored r))) := by
      rwa [hmirror, extent_neg]
    have hcopy := runCopy_eq hM hfit (hrun.copy A (Mask.mirrored r)) hk' source (run.sendMemory A (Mask.mirrored r))
    rw [hmirror] at hcopy
    simpa [fieldSend, fieldReceive, Exchange.dedicated, hmirror, image] using hcopy
  · rfl

omit hM hrun in
/-- The images of a cell are found in the directions it is received from. -/
theorem sum_images (initial : ℤ → DataSpace DIM → V) {B : ℤ} (hB : B ∈ T.ranks) (c : DataSpace DIM) {directions : Finset ℕ}
    (hdirs : ∀ r, r ∈ directions ↔
      r ∈ fieldReceived layout guardingCells mask ∧ (T.communicationMask B).isSet r = true)
    [∀ r, Decidable (c ∈ layout.borderZone guardingCells (getRelativeDirections DIM r))] :
    ∑ r ∈ directions, (if c ∈ layout.borderZone guardingCells (getRelativeDirections DIM r) then
        initial (T.exchangeTypeToRank B r) (image layout guardingCells (getRelativeDirections DIM r) c) else 0) =
      ∑ p ∈ images T layout guardingCells mask B c, initial p.1 p.2 := by
  rw [← Finset.sum_filter]
  have hmirror : ∀ {r}, r ∈ exchangeDirections DIM →
      getRelativeDirections DIM (Mask.mirrored r) = -getRelativeDirections DIM r := fun hr =>
    getRelativeDirections_mirrored_of_mem hDIM hdirections hr
  have hlt : ∀ {r}, r ∈ exchangeDirections DIM → r < 3 ^ DIM := fun hr => (mem_exchangeDirections_lt hDIM hdirections hr).1
  have hneighbour : ∀ {r}, r ∈ exchangeDirections DIM → (T.communicationMask B).isSet r = true →
      T.IsNeighbour (getRelativeDirections DIM r) B (T.exchangeTypeToRank B r) := fun hr hset =>
    RankTopology.isNeighbour_of_isSet hB hr hset
  refine Finset.sum_bij
    (fun r _ => (T.exchangeTypeToRank B r, image layout guardingCells (getRelativeDirections DIM r) c)) ?_ ?_ ?_ fun _ _ => rfl
  · intro r hr
    obtain ⟨hr, hc⟩ := Finset.mem_filter.mp hr
    obtain ⟨⟨⟨hdir, hset⟩, -⟩, hcomm⟩ := (hdirs r).mp hr
    have hA := hneighbour hdir hcomm
    have himage := image_mem hc
    rw [← hmirror hdir] at himage
    have hcells := guardZone_subset hfit (getRelativeDirections_mem DIM (Mask.mirrored r)) himage
    have hback := RankTopology.isNeighbour_neg hB hA
    refine mem_images.mpr ⟨⟨hA.1, hcells⟩, ?_, ?_, Mask.mirrored r, mirrored_mem hDIM hdirections hdir, ?_, himage⟩
    · exact borderZone_subset hfit (getRelativeDirections_mem DIM r) hc
    · have hglobal : globalCell T layout B (counterpart layout guardingCells (-getRelativeDirections DIM r)
          (image layout guardingCells (getRelativeDirections DIM r) c)) = _ :=
        globalCell_counterpart (hmirror hdir ▸ getRelativeDirections_mem DIM _) hback
      rw [counterpart_image] at hglobal
      exact hglobal.symm
    · rw [mirrored_mirrored_of_mem hDIM hdirections hdir]
      exact hset
  · intro r hr r' hr' heq
    obtain ⟨hr, hc⟩ := Finset.mem_filter.mp hr
    obtain ⟨hr', hc'⟩ := Finset.mem_filter.mp hr'
    have hdir := ((hdirs r).mp hr).1.1.1
    have hdir' := ((hdirs r').mp hr').1.1.1
    have himage := image_mem hc
    have himage' := image_mem hc'
    rw [← (Prod.mk.inj heq).2, ← hmirror hdir'] at himage'
    rw [← hmirror hdir] at himage
    by_contra hne
    refine Set.disjoint_left.mp (disjoint_guardZone hfit (getRelativeDirections_mem DIM _) (getRelativeDirections_mem DIM _)
      fun hdirs' => hne ?_) himage himage'
    rw [hmirror hdir, hmirror hdir', neg_inj] at hdirs'
    exact (getRelativeDirections_inj (hlt hdir) (hlt hdir')).mp hdirs'
  · rintro ⟨A, g⟩ hp
    obtain ⟨⟨hA, -⟩, hc, hglobal, e, hdir, hset, hg⟩ := mem_images.mp hp
    have hback := isNeighbour_of_globalCell hfit hB (getRelativeDirections_mem DIM e) hg hc hglobal
    have hA' := RankTopology.isNeighbour_neg hA hback
    have hdir' := mirrored_mem hDIM hdirections hdir
    rw [← hmirror hdir] at hA'
    have hcomm := (RankTopology.isSet_iff hB hdir').mpr ⟨A, hA'⟩
    have hneg : -getRelativeDirections DIM e ∈ unitOffsets DIM := hmirror hdir ▸ getRelativeDirections_mem DIM _
    have hborder := counterpart_mem hg
    -- the border cell is the counterpart of the guard cell
    have hcounterpart : counterpart layout guardingCells (getRelativeDirections DIM e) g = c := by
      have hglobal' : globalCell T layout B (counterpart layout guardingCells (getRelativeDirections DIM e) g) =
          globalCell T layout A g := globalCell_counterpart (getRelativeDirections_mem DIM e) hback
      exact (eq_of_globalCell hB hB (borderZone_subset hfit hneg hborder) hc (hglobal'.trans hglobal)).2
    rw [hcounterpart, ← hmirror hdir] at hborder
    have hcells : productOfComponents (layout.extent guardingCells (getRelativeDirections DIM (Mask.mirrored e))) ≠ 0 := by
      refine Finset.prod_ne_zero_iff.mpr fun d _ => ?_
      have hd := hborder d
      rw [Pi.add_apply] at hd
      omega
    refine ⟨Mask.mirrored e, Finset.mem_filter.mpr ⟨(hdirs _).mpr ⟨⟨⟨hdir', hset⟩, hcells⟩, hcomm⟩, hborder⟩, ?_⟩
    rw [RankTopology.exchangeTypeToRank_eq hB hdir' hA', ← hcounterpart, hmirror hdir]
    refine Prod.ext rfl ?_
    rw [image, neg_neg, counterpart, add_sub_cancel_left, add_sub_cancel]

/-- **The additive exchange is exact** in any interleaving, and comes to its end. -/
theorem fieldExchange_ends (h : addFieldExchanges layout guardingCells mask communicationTag ({ gridLayout := layout }, tags) =
    .ok (buffer, tags')) (initial : ℤ → DataSpace DIM → V) :
    ((fieldExchange T buffer M SuperCellSize run).system initial).Ends (MessageExchange.start initial)
      fun s => FieldExact T layout guardingCells mask initial s.device := by
  classical
  obtain ⟨hX, hmasks⟩ := addFieldExchanges_ok hDIM hdirections h
  have hspawns := spawns_spawnFieldCommunication hDIM hdirections hX hmasks
  let hmatched : (fieldExchange T buffer M SuperCellSize run).Matched :=
    matched hDIM hdirections hX hspawns hasTags_field fun B r r' hr' => hr'
  have hseparate : (fieldExchange T buffer M SuperCellSize run).Separate := by
    intro A e r data device he hr
    obtain ⟨-, he', hactive, -⟩ := (mem_ports hDIM hdirections hspawns).1.mp he
    obtain ⟨-, hr', hactive', -⟩ := (mem_ports hDIM hdirections hspawns).2.mp hr
    simp only [fieldExchange, rankExchange, (hX.send e _).mpr ⟨he', hactive, rfl⟩, (hX.receive r _).mpr ⟨hactive', rfl⟩,
      Option.map_some, Option.getD_some]
    refine sendExchange_congr hM hfit hrun fun c hc => ?_
    have hdisjoint : Disjoint (layout.guardZone guardingCells (getRelativeDirections DIM e)) layout.interior :=
      disjoint_guardZone_interior (getRelativeDirections_mem DIM e) (ne_zero_of_mem hDIM hdirections he')
    have hout : c ∉ layout.borderZone guardingCells (getRelativeDirections DIM r) := fun hborder =>
      Set.disjoint_left.mp hdisjoint hc (borderZone_subset hfit (getRelativeDirections_mem DIM r) hborder)
    rw [receiveExchange_apply hM hfit hrun, if_neg hout, add_zero]
  refine (hmatched.ends hseparate initial).mono fun s hs B hB c => ?_
  obtain ⟨l, hnodup, hl, hdevice⟩ := hs B
  have hport : ∀ r ∈ l, r ∈ exchangeDirections DIM ∧ r ∈ fieldReceived layout guardingCells mask := fun r hr =>
    ⟨((mem_ports hDIM hdirections hspawns).2.mp ((hl r).mp hr)).2.1, ((mem_ports hDIM hdirections hspawns).2.mp ((hl r).mp hr)).2.2.1⟩
  have hunpack : ∀ r ∈ l, ∀ device c', (fieldExchange T buffer M SuperCellSize run).unpack B r
      (hmatched.message initial B r) device c' = device c' +
        if c' ∈ layout.borderZone guardingCells (getRelativeDirections DIM r) then
          initial (T.exchangeTypeToRank B r) (image layout guardingCells (getRelativeDirections DIM r) c') else 0 := by
    intro r hr device c'
    obtain ⟨hdir, hactive⟩ := hport r hr
    have hback := mirrored_mirrored_of_mem hDIM hdirections hdir
    have hsend := (hX.send (Mask.mirrored r) _).mpr ⟨mirrored_mem hDIM hdirections hdir, hback.symm ▸ hactive, rfl⟩
    have hreceive := (hX.receive r _).mpr ⟨hactive, rfl⟩
    simp only [MessageExchange.Matched.message, fieldExchange, rankExchange, hmatched, matched, hsend, hreceive,
      Option.map_some, Option.getD_some]
    exact receiveExchange_sendExchange hM hfit hrun hDIM hdirections hdir _ device c'
  rw [hdevice, MessageExchange.Matched.unpacked, foldl_adds hunpack, ← List.sum_toFinset _ hnodup]
  congr 1
  refine sum_images hfit hDIM hdirections initial hB c fun r => ?_
  rw [List.mem_toFinset, hl]
  refine (mem_ports hDIM hdirections hspawns).2.trans ?_
  exact ⟨fun hr => hr.2.2, fun hr => ⟨hB, hr.1.1.1, hr⟩⟩

end Exact

/-! ## 3. Both exchanges -/

/-- The mapping description that the kernels of a field construct. -/
def fieldMapping (layout : GridLayout DIM) (SuperCellSize : DataSpace DIM) : Option (MappingDescription DIM) :=
  MappingDescription.construct SuperCellSize layout.sizeND fun d => (layout.guardSizeND d).tdiv (SuperCellSize d)

/-- The guard and the interior are made of whole supercells. -/
def IsWhole (layout : GridLayout DIM) (SuperCellSize : DataSpace DIM) : Prop :=
  ∀ d, SuperCellSize d ∣ layout.guardSizeND d ∧ SuperCellSize d ∣ layout.sizeWithoutGuardND d

/-- The exchange of border to guard is exact, for every layout, width, mask and interleaving. -/
def OverwriteExact (T : RankTopology DIM) : Prop :=
  ∀ (V : Type) (layout : GridLayout DIM) (guardingCells : DataSpace DIM) (mask : Mask) (communicationTag : BitVec 32)
    (tags tags' : UniquTag) (buffer : GridBuffer DIM), WidthsFit layout guardingCells →
    addExchange .GUARD mask guardingCells communicationTag ({ gridLayout := layout }, tags) = .ok (buffer, tags') →
    RegionsMatch buffer layout ∧ ∀ initial : ℤ → DataSpace DIM → V,
      ((haloExchange T buffer).system initial).Ends (MessageExchange.start initial)
        fun s => HaloExact T layout guardingCells mask initial s.device

/-- The additive exchange is exact, for every layout of whole supercells, every width, mask, launch and
interleaving. -/
def AdditiveExact (T : RankTopology DIM) : Prop :=
  ∀ (V : Type) [AddCommMonoid V] (layout : GridLayout DIM) (SuperCellSize guardingCells : DataSpace DIM) (mask : Mask)
    (communicationTag : BitVec 32) (tags tags' : UniquTag) (buffer : GridBuffer DIM) (M : MappingDescription DIM)
    (run : FieldRun DIM V), (∀ d, 0 < SuperCellSize d) → IsWhole layout SuperCellSize → WidthsFit layout guardingCells →
    fieldMapping layout SuperCellSize = some M → run.Launches M SuperCellSize →
    addFieldExchanges layout guardingCells mask communicationTag ({ gridLayout := layout }, tags) = .ok (buffer, tags') →
    ∀ initial : ℤ → DataSpace DIM → V,
      ((fieldExchange T buffer M SuperCellSize run).system initial).Ends (MessageExchange.start initial)
        fun s => FieldExact T layout guardingCells mask initial s.device

section Both

variable {layout : GridLayout DIM} {SuperCellSize : DataSpace DIM} {M : MappingDescription DIM}

theorem wholeSuperCells_of_isWhole (hpos : ∀ d, 0 < SuperCellSize d) (hwhole : IsWhole layout SuperCellSize)
    (h : fieldMapping layout SuperCellSize = some M) : WholeSuperCells layout SuperCellSize M := by
  rw [fieldMapping, MappingDescription.construct] at h
  split at h
  · obtain rfl := Option.some.inj h
    refine ⟨hpos, fun d => (Int.tdiv_mul_cancel (hwhole d).1).symm, fun d => (Int.tdiv_mul_cancel ?_).symm⟩
    rw [GridLayout.sizeND]
    exact dvd_add (dvd_add (hwhole d).2 (hwhole d).1) (hwhole d).1
  · cases h

theorem exact_of_topology (hDIM : DIM ≤ 3) (hdirections : NumberOfExchanges DIM = 3 ^ DIM) (T : RankTopology DIM) :
    OverwriteExact T ∧ AdditiveExact T := by
  constructor
  · intro V layout guardingCells mask communicationTag tags tags' buffer hfit h
    exact ⟨regionsMatch hDIM hdirections hfit h, haloExchange_ends hDIM hdirections hfit h⟩
  · intro V _ layout SuperCellSize guardingCells mask communicationTag tags tags' buffer M run hpos hwhole hfit hM hrun h
    exact fieldExchange_ends (wholeSuperCells_of_isWhole hpos hwhole hM) hfit hrun hDIM hdirections h

/-- The workers of a launch in one order. -/
theorem exists_isLaunch (M : MappingDescription DIM) (SuperCellSize : DataSpace DIM) (e : ℕ) :
    ∃ workers, IsLaunch M SuperCellSize e workers := by
  refine ⟨((Fintype.piFinset fun d => Finset.Ico 0 (M.exchangeGridDim .GUARD e d)) ×ˢ
    Fintype.piFinset fun d => Finset.Ico 0 (SuperCellSize d)).toList, Finset.nodup_toList _, fun worker => ?_⟩
  rw [Finset.mem_toList, Finset.mem_product, Fintype.mem_piFinset, Fintype.mem_piFinset]
  simp only [Finset.mem_Ico]
  rfl

end Both

/-- **Halo exchanges are exact** on the ranks of one, two and three dimensions: the one from border to guard for
every layout, the additive one for layouts of whole supercells. -/
theorem exchangesExact :
    (∀ L : RankLine, OverwriteExact L.topology ∧ AdditiveExact L.topology) ∧
    (∀ (G : RankGrid 0) (mem : RankGrid.Memory 0) (numSlides : ℕ),
      OverwriteExact (G.topology mem numSlides zero_le_one rfl) ∧ AdditiveExact (G.topology mem numSlides zero_le_one rfl)) ∧
    ∀ (G : RankGrid 1) (mem : RankGrid.Memory 1) (numSlides : ℕ),
      OverwriteExact (G.topology mem numSlides le_rfl rfl) ∧ AdditiveExact (G.topology mem numSlides le_rfl rfl) :=
  ⟨fun L => exact_of_topology (by decide) rfl L.topology,
    fun G mem numSlides => exact_of_topology (by decide) rfl (G.topology mem numSlides zero_le_one rfl),
    fun G mem numSlides => exact_of_topology (by decide) rfl (G.topology mem numSlides le_rfl rfl)⟩

/-- One rank that is its own neighbour. -/
def selfGrid : RankGrid 0 := ⟨![1, 1], ![1, 1], by decide⟩

def selfMemory : RankGrid.Memory 0 := ⟨fun _ => ⟨![2, 2], ![0, 0], ![0, 0]⟩, fun _ _ => 0⟩

/-- Two cells per axis and a guard of one. -/
def thinGuard : GridLayout 2 := ⟨![2, 2], ![1, 1]⟩

/-- The guard cell at the upper end is the same cell of the domain as the border cell at the lower end. -/
theorem mem_images_thinGuard : (0, ![3, 1]) ∈ images (selfGrid.topology selfMemory 0 zero_le_one rfl) thinGuard ![1, 1]
    (Mask.single LEFT) 0 ![1, 1] := by
  refine mem_images.mpr ⟨⟨And.intro le_rfl (by decide +kernel), ?_⟩, ?_, funext fun d => ?_, RIGHT, ?_, ?_, ?_⟩
  · rw [GridLayout.cells, mem_box_fin_two]
    decide
  · rw [mem_interior_iff]
    decide
  · have hperiodic : ∀ d, (selfGrid.topology selfMemory 0 zero_le_one rfl).periodic d = 1 := fun d => by fin_cases d <;> rfl
    have hdims : ∀ d, (selfGrid.topology selfMemory 0 zero_le_one rfl).dims d = 1 := fun d => by fin_cases d <;> rfl
    rw [globalCell, globalCell, hperiodic, hdims]
    fin_cases d <;> simp [thinGuard]
  · constructor <;> decide
  · decide +kernel
  · rw [GridLayout.guardZone, mem_box_fin_two]
    decide +kernel

/-- A guard of one supercell: of a field of ones the border cell gets the one of the guard. -/
theorem exchangesExact_thinGuard : ∃ (buffer : GridBuffer 2) (tags' : UniquTag) (M : MappingDescription 2) (run : FieldRun 2 ℕ)
    (s : ExchangeState ℤ ℕ (BitVec 32) (DataSpace 2 → ℕ) (List ℕ)),
    fieldMapping thinGuard ![1, 1] = some M ∧ run.Launches M ![1, 1] ∧
    addFieldExchanges thinGuard ![1, 1] (Mask.single LEFT) 0 ({ gridLayout := thinGuard }, []) = .ok (buffer, tags') ∧
    Relation.ReflTransGen
      ((fieldExchange (selfGrid.topology selfMemory 0 zero_le_one rfl) buffer M ![1, 1] run).system fun _ _ => 1).step
      (MessageExchange.start fun _ _ => 1) s ∧
    ((fieldExchange (selfGrid.topology selfMemory 0 zero_le_one rfl) buffer M ![1, 1] run).system fun _ _ => 1).Terminal s ∧
    FieldExact (selfGrid.topology selfMemory 0 zero_le_one rfl) thinGuard ![1, 1] (Mask.single LEFT) (fun _ _ => 1) s.device ∧
    2 ≤ s.device 0 ![1, 1] := by
  obtain ⟨M, hM⟩ : ∃ M, fieldMapping thinGuard ![1, 1] = some M := by
    have hverified : (∀ d, guardFits ((thinGuard.sizeND d).tdiv (![1, 1] d)) ((thinGuard.guardSizeND d).tdiv (![1, 1] d))) ∧
        ∀ d, Library.IsInt32 ((thinGuard.sizeND d).tdiv (![1, 1] d)) ∧
          Library.IsInt32 ((thinGuard.guardSizeND d).tdiv (![1, 1] d)) := by
      decide
    refine ⟨⟨_, _, hverified.1, hverified.2⟩, ?_⟩
    rw [fieldMapping, MappingDescription.construct]
    exact dif_pos hverified
  choose workers hworkers using exists_isLaunch M ![1, 1]
  let run : FieldRun 2 ℕ := ⟨fun _ => workers, fun _ => workers, fun _ _ _ => 0, fun _ _ _ => 0⟩
  have hrun : run.Launches M ![1, 1] := ⟨fun _ => hworkers, fun _ => hworkers⟩
  obtain ⟨⟨buffer, tags'⟩, hbuffer⟩ : ∃ state,
      addFieldExchanges thinGuard ![1, 1] (Mask.single LEFT) 0 ({ gridLayout := thinGuard }, []) = .ok state := ⟨_, rfl⟩
  have hwhole : IsWhole thinGuard ![1, 1] := by
    intro d
    fin_cases d <;> decide
  obtain ⟨hterminating, hexact⟩ := (exchangesExact.2.1 selfGrid selfMemory 0).2 ℕ thinGuard ![1, 1] ![1, 1] (Mask.single LEFT) 0
    [] tags' buffer M run (by decide) hwhole ⟨by decide, by decide, by decide⟩ hM hrun hbuffer fun _ _ => 1
  obtain ⟨s, hs, hterminal⟩ := hterminating.exists_terminal
  refine ⟨buffer, tags', M, run, s, hM, hrun, hbuffer, hs, hterminal, hexact s hs hterminal, ?_⟩
  have hle : 1 ≤ ∑ p ∈ images (selfGrid.topology selfMemory 0 zero_le_one rfl) thinGuard ![1, 1] (Mask.single LEFT) 0 ![1, 1], 1 :=
    Finset.single_le_sum (f := fun _ => 1) (fun _ _ => Nat.zero_le 1) mem_images_thinGuard
  have hsum : s.device 0 ![1, 1] = 1 + ∑ p ∈ images (selfGrid.topology selfMemory 0 zero_le_one rfl) thinGuard ![1, 1]
      (Mask.single LEFT) 0 ![1, 1], 1 :=
    hexact s hs hterminal 0 (And.intro le_rfl (by decide +kernel)) ![1, 1]
  omega

/-- **A guard of half a supercell**: it has no supercell, so the kernels have no blocks, and of a field of ones the
border cell at the lower end does not get the one of the guard. -/
theorem additive_loses_thinGuard : ∃ (buffer : GridBuffer 2) (tags' : UniquTag) (M : MappingDescription 2) (run : FieldRun 2 ℕ)
    (s : ExchangeState ℤ ℕ (BitVec 32) (DataSpace 2 → ℕ) (List ℕ)),
    WidthsFit thinGuard ![1, 1] ∧ fieldMapping thinGuard ![2, 2] = some M ∧ run.Launches M ![2, 2] ∧
    addFieldExchanges thinGuard ![1, 1] (Mask.single LEFT) 0 ({ gridLayout := thinGuard }, []) = .ok (buffer, tags') ∧
    Relation.ReflTransGen
      ((fieldExchange (selfGrid.topology selfMemory 0 zero_le_one rfl) buffer M ![2, 2] run).system fun _ _ => 1).step
      (MessageExchange.start fun _ _ => 1) s ∧
    ((fieldExchange (selfGrid.topology selfMemory 0 zero_le_one rfl) buffer M ![2, 2] run).system fun _ _ => 1).Terminal s ∧
    ¬ FieldExact (selfGrid.topology selfMemory 0 zero_le_one rfl) thinGuard ![1, 1] (Mask.single LEFT) (fun _ _ => 1) s.device := by
  let T : RankTopology 2 := selfGrid.topology selfMemory 0 zero_le_one rfl
  obtain ⟨M, hM, hzero⟩ : ∃ M, fieldMapping thinGuard ![2, 2] = some M ∧ ∀ d, M.guardingSuperCells d = 0 := by
    have hverified : (∀ d, guardFits ((thinGuard.sizeND d).tdiv (![2, 2] d)) ((thinGuard.guardSizeND d).tdiv (![2, 2] d))) ∧
        ∀ d, Library.IsInt32 ((thinGuard.sizeND d).tdiv (![2, 2] d)) ∧
          Library.IsInt32 ((thinGuard.guardSizeND d).tdiv (![2, 2] d)) := by
      decide
    refine ⟨⟨_, _, hverified.1, hverified.2⟩, ?_, fun d => by fin_cases d <;> rfl⟩
    rw [fieldMapping, MappingDescription.construct]
    exact dif_pos hverified
  choose workers hworkers using exists_isLaunch M ![2, 2]
  let run : FieldRun 2 ℕ := ⟨fun _ => workers, fun _ => workers, fun _ _ _ => 0, fun _ _ _ => 0⟩
  have hrun : run.Launches M ![2, 2] := ⟨fun _ => hworkers, fun _ => hworkers⟩
  obtain ⟨⟨buffer, tags'⟩, hbuffer⟩ : ∃ state,
      addFieldExchanges thinGuard ![1, 1] (Mask.single LEFT) 0 ({ gridLayout := thinGuard }, []) = .ok state := ⟨_, rfl⟩
  obtain ⟨hX, hmasks⟩ := addFieldExchanges_ok (by decide) rfl hbuffer
  have hspawns := spawns_spawnFieldCommunication (by decide) rfl hX hmasks
  -- no worker adds anything
  have hidle : ∀ B r data device, (B, r) ∈ (fieldExchange T buffer M ![2, 2] run).receives →
      (fieldExchange T buffer M ![2, 2] run).unpack B r data device = device := by
    intro B r data device hr
    obtain ⟨-, hdir, hactive, -⟩ := (mem_ports (by decide) rfl hspawns).2.mp hr
    have hnone : workers r = [] := List.eq_nil_iff_forall_not_mem.mpr fun worker hworker => by
      obtain ⟨d, hd⟩ := Function.ne_iff.mp (ne_zero_of_mem (by decide) rfl hdir)
      have hd' : getRelativeDirections 2 r d ≠ 0 := hd
      obtain ⟨hlo, hhi⟩ := ((hworkers r).mem_iff worker).mp hworker |>.1 d
      simp only [exchangeGridDim, if_pos hd', hzero] at hhi
      exact absurd (hlo.trans_lt hhi) (lt_irrefl _)
    simp only [fieldExchange, rankExchange, (hX.receive r _).mpr ⟨hactive, rfl⟩, Option.map_some, Option.getD_some,
      receiveExchange, runAdd, run, hnone, List.foldl_nil]
  let hmatched : (fieldExchange T buffer M ![2, 2] run).Matched :=
    matched (by decide) rfl hX hspawns hasTags_field fun B r r' hr' => hr'
  obtain ⟨hterminating, hfinal⟩ := hmatched.ends (fun A e r data device _ hr => by rw [hidle A r data device hr]) fun _ _ => 1
  obtain ⟨s, hs, hterminal⟩ := hterminating.exists_terminal
  have hfit : WidthsFit thinGuard ![1, 1] := ⟨by decide, by decide, by decide⟩
  refine ⟨buffer, tags', M, run, s, hfit, hM, hrun, hbuffer, hs, hterminal, fun hexact => ?_⟩
  obtain ⟨l, -, hl, hdevice⟩ := hfinal s hs hterminal 0
  have hone : s.device 0 ![1, 1] = 1 := by
    rw [hdevice, MessageExchange.Matched.unpacked]
    refine (foldl_regions (R := fun _ => ∅) (v := fun _ _ => 0) (fun _ _ _ c hc => absurd hc (Set.notMem_empty c))
      (fun r hr device c _ => by rw [hidle 0 r _ device ((hl r).mp hr)]) (fun _ _ _ _ _ => disjoint_bot_left) _ _).2 ?_
    exact fun _ _ => Set.notMem_empty _
  have hsum : s.device 0 ![1, 1] = 1 + ∑ p ∈ images T thinGuard ![1, 1] (Mask.single LEFT) 0 ![1, 1], 1 :=
    hexact 0 (And.intro le_rfl (by decide +kernel)) ![1, 1]
  have hle : 1 ≤ ∑ p ∈ images T thinGuard ![1, 1] (Mask.single LEFT) 0 ![1, 1], 1 :=
    Finset.single_le_sum (f := fun _ => 1) (fun _ _ => Nat.zero_le 1) mem_images_thinGuard
  omega

end Communication
end Spearhed
