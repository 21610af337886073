import Spearhed.Library.Combination
import Mathlib.Order.CompletePartialOrder

/-!
# The reduction kernel

`device/reduce/Kernel.hpp`.  Every block of a launch reduces its share of a source to one value in its
shared memory, and then its master thread brings that value into a slot of the destination.

A slot of either memory that has not been written is `none`, and a run that reads one gets stuck; so
does a run that leaves the destination.  The lanes of a block take the steps between two barriers
in any order, and so do the blocks of a launch.

* `accumulate_eq`: the values that a lane collects.
* `Launch.runBlock_eq`, `Launch.run_eq`: what a block and a launch write.
* `Launch.combination`: the values used by a launch, each of them once.
-/

namespace Spearhed
namespace Device
namespace Reduce

open Library

variable {M : Type}

/-- Memory slots; `none` is a slot that has not been written. -/
abbrev Slots (M : Type) := ℕ → Option M

/-- What a launch loads from: the buffer to be reduced, or the destination from an offset on. -/
inductive Source
  | buffer
  | destination (offset : ℕ)
  deriving DecidableEq

/-- A kernel launch.  Its destination functor is the functor itself, or `Assign`. -/
structure Launch where
  blocks : ℕ
  blockDomSize : ℕ
  source : Source
  bufferSize : ℕ
  combines : Bool
  deriving DecidableEq

/-- The buffer to be reduced, its size, and the number of slots in the destination. -/
structure Buffers (M : Type) where
  src : ℕ → M
  n : ℕ
  capacity : ℕ

/-- `destination[i]` on the right-hand side. -/
def Buffers.read (B : Buffers M) (d : Slots M) (i : ℕ) : Option M := if i < B.capacity then d i else none

/-- `destination[i] = a`. -/
def Buffers.write (B : Buffers M) (d : Slots M) (i : ℕ) (a : M) : Option (Slots M) :=
  if i < B.capacity then some (Function.update d i (some a)) else none

/-- `srcBuffer[i]`. -/
def Launch.load (launch : Launch) (B : Buffers M) (d : Slots M) (i : ℕ) : Option M :=
  match launch.source with
  | .buffer => if i < B.n then some (B.src i) else none
  | .destination offset => B.read d (offset + i)

/-- `numGlobalVirtualThreadCount`. -/
def Launch.numReduceThreads (launch : Launch) : ℕ := launch.blocks * launch.blockDomSize % 2 ^ 32

/-- `linearReduceThreadIdx`. -/
def Launch.linearIdx (launch : Launch) (blockIndex idx : ℕ) : ℕ :=
  (blockIndex * launch.blockDomSize + idx) % 2 ^ 32

/-- `while(i < bufferSize) { func(worker, r_value, srcBuffer[i]); i += numReduceThreads; }` in
`uint32_t`, as far as some iterations take it. -/
def accumulate (op : M → M → M) (load : ℕ → Option M) (bufferSize numReduceThreads : ℕ) :
    ℕ → ℕ → M → Option M
  | 0, i, r => if i < bufferSize then none else some r
  | fuel + 1, i, r =>
    if i < bufferSize then
      (load i).bind fun a =>
        accumulate op load bufferSize numReduceThreads fuel ((i + numReduceThreads) % 2 ^ 32) (op r a)
    else some r

/-- A lane fills its slot of the shared memory. -/
def Launch.fillLane (op : M → M → M) (launch : Launch) (load : ℕ → Option M) (blockIndex idx : ℕ)
    (sharedMem : Slots M) : Option (Slots M) :=
  let i := launch.linearIdx blockIndex idx
  if i < launch.bufferSize then
    (load i).bind fun r =>
      (accumulate op load launch.bufferSize launch.numReduceThreads launch.bufferSize
        ((i + launch.numReduceThreads) % 2 ^ 32) r).map fun r => Function.update sharedMem idx (some r)
  else some sharedMem

/-- A lane in a round of the reduction of the shared memory. -/
def Launch.combineLane (op : M → M → M) (launch : Launch) (blockIndex activeThreads chunkCount idx : ℕ)
    (sharedMem : Slots M) : Option (Slots M) :=
  if launch.linearIdx blockIndex idx < launch.bufferSize ∧ ¬ (idx ≠ 0 ∧ activeThreads ≤ idx) then
    (sharedMem idx).bind fun a =>
      (sharedMem (idx + chunkCount)).map fun b => Function.update sharedMem idx (some (op a b))
  else some sharedMem

/-- The values of `active_threads` and `chunk_count` in the rounds; the loop starts from a positive
`chunk_count`. -/
def chunkRounds (chunkCount : ℕ) : List (ℕ × ℕ) :=
  if chunkCount ≤ 1 then []
  else (chunkCount / 2, (chunkCount + 1) / 2) :: chunkRounds ((chunkCount + 1) / 2)
termination_by chunkCount

/-- The lanes of a block between barriers, with the order in which they act. -/
def runPhases : List (ℕ → Slots M → Option (Slots M)) → (ℕ → List ℕ) → Slots M → Option (Slots M)
  | [], _, sharedMem => some sharedMem
  | body :: bodies, lanes, sharedMem =>
    ((lanes 0).foldlM (fun sharedMem idx => body idx sharedMem) sharedMem).bind
      (runPhases bodies fun k => lanes (k + 1))

/-- What the lanes of a block do. -/
def Launch.phases (op : M → M → M) (launch : Launch) (load : ℕ → Option M) (blockIndex : ℕ) :
    List (ℕ → Slots M → Option (Slots M)) :=
  launch.fillLane op load blockIndex ::
    (chunkRounds launch.blockDomSize).map fun round => launch.combineLane op blockIndex round.1 round.2

/-- A block: the reduction, and the master's `destFunc(worker, destBuffer[blockIdx], s_mem[0])`. -/
def Launch.runBlock (op : M → M → M) (B : Buffers M) (launch : Launch) (lanes : ℕ → List ℕ)
    (blockIndex : ℕ) (d : Slots M) : Option (Slots M) :=
  (runPhases (launch.phases op (launch.load B d) blockIndex) lanes fun _ => none).bind fun sharedMem =>
    (sharedMem 0).bind fun r =>
      if launch.combines then
        (B.read d blockIndex).bind fun old => B.write d blockIndex (op old r)
      else B.write d blockIndex r

/-- The order of the blocks, and that of the lanes in each phase of a block. -/
structure LaunchOrder where
  blocks : List ℕ
  lanes : ℕ → ℕ → List ℕ

/-- Every block runs once, and every lane once in a phase. -/
structure LaunchOrder.Valid (order : LaunchOrder) (launch : Launch) : Prop where
  blocks : order.blocks.Perm (List.range launch.blocks)
  lanes : ∀ b phase, (order.lanes b phase).Perm (List.range launch.blockDomSize)

/-- A launch. -/
def Launch.run (op : M → M → M) (B : Buffers M) (launch : Launch) (order : LaunchOrder) (d : Slots M) :
    Option (Slots M) :=
  order.blocks.foldlM (fun d b => launch.runBlock op B (order.lanes b) b d) d

/-- The slots of the destination that a launch loads from. -/
def Launch.readSlots (launch : Launch) : Set ℕ :=
  {i | ∃ offset, launch.source = .destination offset ∧ offset ≤ i ∧ i < offset + launch.bufferSize}

/-- The slots of the destination that a launch writes. -/
def Launch.writeSlots (launch : Launch) : Set ℕ := {i | i < launch.blocks}

/-! ## The lanes of a block -/

/-- **The values of a lane.** -/
theorem accumulate_eq {op : M → M → M} {load : ℕ → Option M} {v : ℕ → M} {bufferSize step fuel i : ℕ}
    {r : M} (hload : ∀ j < bufferSize, load j = some (v j)) (hstep : 0 < step)
    (hfit : bufferSize + step ≤ 2 ^ 32) (hfuel : bufferSize ≤ i + fuel) :
    accumulate op load bufferSize step fuel i r =
      some (((strided i step bufferSize).map v).foldl op r) := by
  induction fuel generalizing i r with
  | zero =>
    rw [accumulate, if_neg (by omega), strided_of_le (by omega)]
    rfl
  | succ fuel ih =>
    rw [accumulate]
    split
    · next hi =>
      rw [hload i hi, Option.bind_some, Nat.mod_eq_of_lt (by omega), ih (by omega), strided_of_lt hstep hi]
      rfl
    · next hi =>
      rw [strided_of_le (not_lt.mp hi)]
      rfl

/-- What the rest of the development asks of a launch. -/
structure Launch.WellFormed (launch : Launch) : Prop where
  blocks_pos : 0 < launch.blocks
  domSize : ∃ k, launch.blockDomSize = 2 ^ k
  lanes : launch.blocks * launch.blockDomSize ≤ launch.bufferSize
  size : launch.bufferSize < 2 ^ 31
  apart : 1 < launch.blocks → Disjoint launch.readSlots launch.writeSlots

section Block

variable {launch : Launch} (op : M → M → M) {load : ℕ → Option M} {v : ℕ → M} {b idx : ℕ}

theorem Launch.WellFormed.domSize_pos (h : launch.WellFormed) : 0 < launch.blockDomSize := by
  obtain ⟨k, hk⟩ := h.domSize
  rw [hk]
  positivity

/-- All lanes are active. -/
theorem Launch.WellFormed.linearIdx_lt (h : launch.WellFormed) (hb : b < launch.blocks)
    (hidx : idx < launch.blockDomSize) :
    launch.linearIdx b idx = b * launch.blockDomSize + idx ∧
      b * launch.blockDomSize + idx < launch.blocks * launch.blockDomSize := by
  have hle : (b + 1) * launch.blockDomSize ≤ launch.blocks * launch.blockDomSize :=
    Nat.mul_le_mul_right _ hb
  rw [Nat.succ_mul] at hle
  have hlanes := h.lanes
  have hsize := h.size
  refine ⟨Nat.mod_eq_of_lt ?_, ?_⟩ <;> omega

theorem Launch.WellFormed.numReduceThreads_eq (h : launch.WellFormed) :
    launch.numReduceThreads = launch.blocks * launch.blockDomSize := by
  have hlanes := h.lanes
  have hsize := h.size
  exact Nat.mod_eq_of_lt (by omega)

/-- The value that a lane collects. -/
def Launch.laneValue (op : M → M → M) (launch : Launch) (v : ℕ → M) (b idx : ℕ) : M :=
  ((strided (b * launch.blockDomSize + idx + launch.blocks * launch.blockDomSize)
    (launch.blocks * launch.blockDomSize) launch.bufferSize).map v).foldl op
      (v (b * launch.blockDomSize + idx))

/-- The value of a block. -/
def Launch.blockValue (op : M → M → M) (launch : Launch) (v : ℕ → M) (b : ℕ) : M :=
  treeReduce op launch.blockDomSize (launch.laneValue op v b) 0

theorem Launch.fillLane_eq (h : launch.WellFormed) (hload : ∀ j < launch.bufferSize, load j = some (v j))
    (hb : b < launch.blocks) (hidx : idx < launch.blockDomSize) (s : Slots M) :
    launch.fillLane op load b idx s =
      some (Function.update s idx (some (launch.laneValue op v b idx))) := by
  obtain ⟨hlinear, hlt⟩ := h.linearIdx_lt hb hidx
  have hlanes := h.lanes
  have hsize := h.size
  unfold Launch.fillLane Launch.laneValue
  rw [hlinear, h.numReduceThreads_eq]
  dsimp only
  rw [if_pos (by omega), hload _ (by omega), Option.bind_some, Nat.mod_eq_of_lt (by omega),
    accumulate_eq hload (by omega) (by omega) (by omega), Option.map_some]

/-- The first phase. -/
theorem Launch.fill_eq (h : launch.WellFormed) (hload : ∀ j < launch.bufferSize, load j = some (v j))
    (hb : b < launch.blocks) {order : List ℕ} (horder : order.Perm (List.range launch.blockDomSize))
    (s : Slots M) :
    order.foldlM (fun s idx => launch.fillLane op load b idx s) s =
      some (overlay s (fun idx => some (launch.laneValue op v b idx)) order) := by
  refine foldlM_overlay (horder.nodup_iff.mpr List.nodup_range) fun idx hidx l _ _ => ?_
  exact Launch.fillLane_eq op h hload hb (List.mem_range.mp (horder.mem_iff.mp hidx)) _

/-- A round. -/
theorem Launch.combine_eq (h : launch.WellFormed) (hb : b < launch.blocks) {c : ℕ} (hc : 0 < c)
    (hle : 2 * c ≤ launch.blockDomSize) {order : List ℕ}
    (horder : order.Perm (List.range launch.blockDomSize)) {s : Slots M} {w : ℕ → M}
    (hs : ∀ idx < launch.blockDomSize, s idx = some (w idx)) :
    order.foldlM (fun s idx => launch.combineLane op b c c idx s) s =
      some (overlay s (fun idx => some (reduceRound op w c idx)) order) := by
  refine foldlM_overlay (horder.nodup_iff.mpr List.nodup_range) fun idx hidx l hfresh hl => ?_
  have hlt : ∀ j ∈ order, j < launch.blockDomSize := fun j hj => List.mem_range.mp (horder.mem_iff.mp hj)
  obtain ⟨hlinear, hactive⟩ := h.linearIdx_lt hb (hlt idx hidx)
  have hlanes := h.lanes
  have hown : overlay s (fun idx => some (reduceRound op w c idx)) l idx = some (w idx) := by
    rw [overlay_of_notMem hfresh, hs idx (hlt idx hidx)]
  unfold Launch.combineLane
  rw [hlinear]
  rcases Nat.lt_or_ge idx c with hidxc | hidxc
  · -- the other entry belongs to a lane that keeps its value
    have hother : overlay s (fun idx => some (reduceRound op w c idx)) l (idx + c) =
        some (w (idx + c)) := by
      have hkeep : reduceRound op w c (idx + c) = w (idx + c) := if_neg (by omega)
      unfold overlay
      split
      · exact congrArg some hkeep
      · exact hs _ (by omega)
    rw [if_pos (by omega), hown, Option.bind_some, hother, Option.map_some, reduceRound, if_pos hidxc]
  · rw [if_neg (by omega), reduceRound, if_neg (by omega), ← hown, Function.update_eq_self]

theorem chunkRounds_one : chunkRounds 1 = [] := by rw [chunkRounds, if_pos le_rfl]

theorem chunkRounds_two_pow (k : ℕ) : chunkRounds (2 ^ (k + 1)) = (2 ^ k, 2 ^ k) :: chunkRounds (2 ^ k) := by
  have hpos : 0 < 2 ^ k := by positivity
  have hdouble : 2 ^ (k + 1) = 2 * 2 ^ k := by rw [pow_succ, Nat.mul_comm]
  rw [chunkRounds, if_neg (by omega), hdouble, Nat.mul_div_cancel_left _ (by norm_num),
    show (2 * 2 ^ k + 1) / 2 = 2 ^ k by omega]

/-- **The rounds compute a tree reduction.** -/
theorem Launch.rounds_eq (h : launch.WellFormed) (hb : b < launch.blocks) {k : ℕ} (fuel : ℕ)
    (hk : k ≤ fuel) (hle : 2 ^ k ≤ launch.blockDomSize) {lanes : ℕ → List ℕ}
    (hlanes : ∀ phase, (lanes phase).Perm (List.range launch.blockDomSize)) {s : Slots M} {w : ℕ → M}
    (hs : ∀ idx < launch.blockDomSize, s idx = some (w idx)) :
    ∃ s', runPhases ((chunkRounds (2 ^ k)).map fun round =>
        launch.combineLane op b round.1 round.2) lanes s = some s' ∧
      ∀ idx < launch.blockDomSize,
        s' idx = some ((halvings fuel (2 ^ k / 2)).foldl (reduceRound op) w idx) := by
  induction k generalizing fuel lanes s w with
  | zero =>
    rw [pow_zero, chunkRounds_one]
    refine ⟨s, rfl, fun idx hidx => ?_⟩
    cases fuel <;> exact hs idx hidx
  | succ k ih =>
    have hpos : 0 < 2 ^ k := by positivity
    have hdouble : 2 ^ (k + 1) = 2 * 2 ^ k := by rw [pow_succ, Nat.mul_comm]
    rw [hdouble] at hle
    have hround := Launch.combine_eq op h hb hpos hle (hlanes 0) hs
    have hnew : ∀ idx < launch.blockDomSize,
        overlay s (fun idx => some (reduceRound op w (2 ^ k) idx)) (lanes 0) idx =
          some (reduceRound op w (2 ^ k) idx) := fun idx hidx =>
      overlay_of_mem ((hlanes 0).mem_iff.mpr (List.mem_range.mpr hidx))
    obtain ⟨s', hs', hval⟩ := ih (fuel - 1) (by omega) (by omega) (fun phase => hlanes (phase + 1)) hnew
    refine ⟨s', ?_, ?_⟩
    · rw [chunkRounds_two_pow, List.map_cons, runPhases, hround]
      exact hs'
    · rw [hdouble, Nat.mul_div_cancel_left _ (by norm_num), halvings_two_pow (by omega)]
      exact hval

/-- **What a block leaves in its shared memory.** -/
theorem Launch.phases_eq (h : launch.WellFormed) (hload : ∀ j < launch.bufferSize, load j = some (v j))
    (hb : b < launch.blocks) {lanes : ℕ → List ℕ}
    (hlanes : ∀ phase, (lanes phase).Perm (List.range launch.blockDomSize)) (s : Slots M) :
    ∃ s', runPhases (launch.phases op load b) lanes s = some s' ∧
      s' 0 = some (launch.blockValue op v b) := by
  obtain ⟨k, hk⟩ := h.domSize
  have hnew : ∀ idx < launch.blockDomSize,
      overlay s (fun idx => some (launch.laneValue op v b idx)) (lanes 0) idx =
        some (launch.laneValue op v b idx) := fun idx hidx =>
    overlay_of_mem ((hlanes 0).mem_iff.mpr (List.mem_range.mpr hidx))
  obtain ⟨s', hs', hval⟩ := Launch.rounds_eq op h hb (2 ^ k) Nat.lt_two_pow_self.le hk.ge
    (fun phase => hlanes (phase + 1)) hnew
  refine ⟨s', ?_, ?_⟩
  · rw [Launch.phases, runPhases, Launch.fill_eq op h hload hb (hlanes 0), hk]
    exact hs'
  · rw [hval 0 h.domSize_pos, Launch.blockValue, hk]
    rfl

end Block

/-! ## The blocks of a launch -/

section Run

variable {launch : Launch} (op : M → M → M) {B : Buffers M} {v old : ℕ → M} {d : Slots M}

/-- What a block writes. -/
def Launch.newValue (launch : Launch) (v old : ℕ → M) (b : ℕ) : M :=
  if launch.combines then op (old b) (launch.blockValue op v b) else launch.blockValue op v b

/-- **One block.** -/
theorem Launch.runBlock_eq (h : launch.WellFormed) (hcapacity : launch.blocks ≤ B.capacity)
    (hload : ∀ j < launch.bufferSize, launch.load B d j = some (v j)) {b : ℕ} (hb : b < launch.blocks)
    (hold : launch.combines = true → d b = some (old b)) {lanes : ℕ → List ℕ}
    (hlanes : ∀ phase, (lanes phase).Perm (List.range launch.blockDomSize)) :
    launch.runBlock op B lanes b d = some (Function.update d b (some (launch.newValue op v old b))) := by
  obtain ⟨s, hs, hvalue⟩ := Launch.phases_eq op h hload hb hlanes fun _ => none
  have hlt : b < B.capacity := by omega
  rw [Launch.runBlock, hs, Option.bind_some, hvalue, Option.bind_some]
  unfold Launch.newValue
  split
  · next hcombines =>
    rw [Buffers.read, if_pos hlt, hold hcombines, Option.bind_some, Buffers.write, if_pos hlt]
  · rw [Buffers.write, if_pos hlt]

/-- Slots that are not read may be overwritten. -/
theorem Launch.load_overlay {w : Slots M} {l : List ℕ} (h : ∀ i ∈ launch.readSlots, i ∉ l) {j : ℕ}
    (hj : j < launch.bufferSize) : launch.load B (overlay d w l) j = launch.load B d j := by
  unfold Launch.load
  split
  · rfl
  · next offset hsource =>
    have hread : offset + j ∈ launch.readSlots := ⟨offset, hsource, by omega, by omega⟩
    rw [Buffers.read, Buffers.read, overlay_of_notMem (h _ hread)]

/-- **A launch**, whatever the order of its blocks. -/
theorem Launch.run_eq (h : launch.WellFormed) (hcapacity : launch.blocks ≤ B.capacity)
    (hload : ∀ j < launch.bufferSize, launch.load B d j = some (v j))
    (hold : launch.combines = true → ∀ b < launch.blocks, d b = some (old b)) {order : LaunchOrder}
    (horder : order.Valid launch) :
    launch.run op B order d =
      some (overlay d (fun b => some (launch.newValue op v old b)) order.blocks) := by
  have hlt : ∀ b ∈ order.blocks, b < launch.blocks := fun b hb =>
    List.mem_range.mp (horder.blocks.mem_iff.mp hb)
  refine foldlM_overlay (horder.blocks.nodup_iff.mpr List.nodup_range) fun b hb l hfresh hl => ?_
  -- the blocks before this one have not written what it reads
  have hapart : ∀ i ∈ launch.readSlots, i ∉ l := by
    intro i hread hmem
    have hwritten := hlt i (hl hmem)
    by_cases hmany : 1 < launch.blocks
    · exact Set.disjoint_left.mp (h.apart hmany) hread hwritten
    · have hbi : b = i := by
        have := hlt b hb
        omega
      exact hfresh (hbi ▸ hmem)
  refine Launch.runBlock_eq op h hcapacity (fun j hj => ?_) (hlt b hb) (fun hcombines => ?_)
    (horder.lanes b)
  · rw [Launch.load_overlay hapart hj, hload j hj]
  · rw [overlay_of_notMem hfresh, hold hcombines b (hlt b hb)]

/-! ## The values used -/

/-- What the values of a block's lanes have been combined from. -/
def Launch.blockShare (launch : Launch) (g : ℕ → Multiset M) (b : ℕ) : Multiset M :=
  ∑ idx ∈ Finset.range launch.blockDomSize,
    ((strided (b * launch.blockDomSize + idx) (launch.blocks * launch.blockDomSize)
      launch.bufferSize).map g).sum

/-- **The value of a block**. -/
theorem Launch.combination (h : launch.WellFormed) {g : ℕ → Multiset M}
    (hv : ∀ j < launch.bufferSize, Combination op (g j) (v j)) {b : ℕ} (hb : b < launch.blocks) :
    Combination op (launch.blockShare g b) (launch.blockValue op v b) := by
  have hlane : ∀ idx < launch.blockDomSize, Combination op
      ((strided (b * launch.blockDomSize + idx) (launch.blocks * launch.blockDomSize)
        launch.bufferSize).map g).sum (launch.laneValue op v b idx) := by
    intro idx hidx
    have hlt := (h.linearIdx_lt hb hidx).2
    have hlanes := h.lanes
    have hpos : 0 < launch.blocks * launch.blockDomSize := by omega
    rw [strided_of_lt hpos (by omega), List.map_cons, List.sum_cons]
    exact (hv _ (by omega)).foldl _ fun j hj => hv j ((mem_strided hpos).mp hj).1
  unfold Launch.blockShare Launch.blockValue
  obtain ⟨k, hk⟩ := h.domSize
  rw [hk] at hlane ⊢
  exact Combination.treeReduce hlane

/-- **Together the blocks use every value once.** -/
theorem Launch.sum_blockShare (h : launch.WellFormed) (g : ℕ → Multiset M) :
    ∑ b ∈ Finset.range launch.blocks, launch.blockShare g b =
      ∑ j ∈ Finset.range launch.bufferSize, g j := by
  have hpos : 0 < launch.blocks * launch.blockDomSize := Nat.mul_pos h.blocks_pos h.domSize_pos
  unfold Launch.blockShare
  rw [sum_range_mul launch.blocks launch.blockDomSize fun w =>
    ((strided w (launch.blocks * launch.blockDomSize) launch.bufferSize).map g).sum]
  exact sum_strided hpos launch.bufferSize g

end Run

end Reduce
end Device
end Spearhed
