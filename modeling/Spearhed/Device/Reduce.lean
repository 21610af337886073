import Spearhed.Device.ReduceKernel

/-!
# The device reduction

`Reduce::enqueueReduction` of `device/Reduce.hpp`: the launches that reduce a buffer to one value.
The first one leaves a value for each of its blocks in the scratch buffer.  A later one with several
blocks folds the tail of these onto the head, and one with a single block ends the reduction.

With one thread to a block a fold has an offset as large as its number of blocks, and so no block is
left to do it.

* `laterLaunches_eq`: the loop ends, and what it launches.
* `Reduced`: the values in the scratch buffer, and what they have been combined from.
* `reduces_iff`: when the reduction is correct.
-/

namespace Spearhed
namespace Device
namespace Reduce

open Library

variable {M : Type}

/-- `getThreadsPerBlock`, and the block sizes between which `enqueueReduceKernel` chooses. -/
def getThreadsPerBlock (threads : ℕ) : ℕ :=
  if threads ≥ 512 then 512
  else if threads ≥ 256 then 256
  else if threads ≥ 128 then 128
  else if threads ≥ 64 then 64
  else if threads ≥ 32 then 32
  else if threads ≥ 16 then 16
  else if threads ≥ 8 then 8
  else if threads ≥ 4 then 4
  else if threads ≥ 2 then 2
  else 1

/-- `optimalThreadsPerBlock`. -/
def optimalThreadsPerBlock (n sizePerElement sharedMemByte : ℕ) : ℕ :=
  let sharedBorder := sharedMemByte / sizePerElement
  getThreadsPerBlock (min sharedBorder n)

/-- `enqueueReduceKernel`. -/
def enqueueReduceKernel (blocks threads : ℕ) (source : Source) (bufferSize : ℕ) (combines : Bool) :
    Launch :=
  ⟨blocks, getThreadsPerBlock threads, source, bufferSize, combines⟩

/-- The number of blocks after the first launch. -/
def nextBlocks (n blockcount : ℕ) : ℕ :=
  let blocks := n / 2 / blockcount
  if blocks = 0 ∧ n > 1 then 1 else blocks

/-- `ceil(static_cast<double>(blocks) / blockcount)`. -/
def blockOffset (blocks blockcount : ℕ) : ℕ := (blocks + blockcount - 1) / blockcount

/-- The loop of `enqueueReduction`, as far as some iterations take it. -/
def laterLaunches (s sharedBytes : ℕ) : ℕ → ℕ → Option (List Launch)
  | 0, n => if nextBlocks n (optimalThreadsPerBlock n s sharedBytes) = 0 then some [] else none
  | fuel + 1, n =>
    let blockcount := optimalThreadsPerBlock n s sharedBytes
    let blocks := nextBlocks n blockcount
    if blocks = 0 then some []
    else if blocks > 1 then
      let blockOffset := blockOffset blocks blockcount
      let useBlocks := blocks - blockOffset
      let problemSize := n - blockOffset * blockcount
      let launch := enqueueReduceKernel useBlocks blockcount (.destination (blockOffset * blockcount))
        problemSize true
      (laterLaunches s sharedBytes fuel (blockOffset * blockcount)).map (launch :: ·)
    else
      let launch := enqueueReduceKernel blocks blockcount (.destination 0) n false
      (laterLaunches s sharedBytes fuel blocks).map (launch :: ·)

/-- The blocks of the first launch. -/
def firstBlocks (n s scratchBytes sharedBytes : ℕ) : ℕ :=
  let blockcount := optimalThreadsPerBlock n s sharedBytes
  let nBuffer := scratchBytes / s
  let threads := nBuffer * blockcount * 2 % 2 ^ 32
  let threads := if threads > n then n else threads
  let blocks := threads / 2 / blockcount
  if blocks = 0 then 1 else blocks

/-- `enqueueReduction`, for elements of `s` bytes. -/
def enqueueReduction (fuel n s scratchBytes sharedBytes : ℕ) : Option (List Launch) :=
  let blocks := firstBlocks n s scratchBytes sharedBytes
  let launch := enqueueReduceKernel blocks (optimalThreadsPerBlock n s sharedBytes) .buffer n false
  (laterLaunches s sharedBytes fuel blocks).map (launch :: ·)

/-- The launches of a queue, one after another, each with an order of its own. -/
def runLaunches (op : M → M → M) (B : Buffers M) : List Launch → (ℕ → LaunchOrder) → Slots M →
    Option (Slots M)
  | [], _, d => some d
  | launch :: launches, orders, d =>
    (launch.run op B (orders 0) d).bind (runLaunches op B launches fun k => orders (k + 1))

/-- Orders for the launches of a queue. -/
def ValidOrders (launches : List Launch) (orders : ℕ → LaunchOrder) : Prop :=
  ∀ k launch, launches[k]? = some launch → (orders k).Valid launch

/-- The elements, combined from left to right. -/
def reduction (op : M → M → M) (src : ℕ → M) (n : ℕ) : M :=
  ((List.range (n - 1)).map fun i => src (i + 1)).foldl op (src 0)

/-- **A correct reduction.**  The destination has not been written before, and so a run that succeeds
reads only what the reduction wrote. -/
def Reduces (op : M → M → M) (src : ℕ → M) (n s scratchBytes sharedBytes : ℕ) : Prop :=
  ∃ launches, (∀ fuel, n ≤ fuel → enqueueReduction fuel n s scratchBytes sharedBytes = some launches) ∧
    (∀ launch ∈ launches, 0 < launch.blocks) ∧
    (∀ launch ∈ launches, 1 < launch.blocks → Disjoint launch.readSlots launch.writeSlots) ∧
    ∀ orders : ℕ → LaunchOrder, ValidOrders launches orders →
      ∃ d, runLaunches op ⟨src, n, scratchBytes / s⟩ launches orders (fun _ => none) = some d ∧
        d 0 = some (reduction op src n)

/-! ## The block sizes -/

theorem getThreadsPerBlock_eq (threads : ℕ) : ∃ k, getThreadsPerBlock threads = 2 ^ k ∧
    (1 ≤ threads → 2 ^ k ≤ threads) ∧ (2 ≤ threads → 2 ≤ 2 ^ k) ∧ (threads ≤ 1 → 2 ^ k = 1) := by
  unfold getThreadsPerBlock
  split
  · exact ⟨9, rfl, by omega, by omega, by omega⟩
  split
  · exact ⟨8, rfl, by omega, by omega, by omega⟩
  split
  · exact ⟨7, rfl, by omega, by omega, by omega⟩
  split
  · exact ⟨6, rfl, by omega, by omega, by omega⟩
  split
  · exact ⟨5, rfl, by omega, by omega, by omega⟩
  split
  · exact ⟨4, rfl, by omega, by omega, by omega⟩
  split
  · exact ⟨3, rfl, by omega, by omega, by omega⟩
  split
  · exact ⟨2, rfl, by omega, by omega, by omega⟩
  split
  · exact ⟨1, rfl, by omega, by omega, by omega⟩
  · exact ⟨0, rfl, by omega, by omega, by omega⟩

section BlockSize

variable {n s sharedBytes : ℕ}

theorem optimalThreadsPerBlock_pos : 0 < optimalThreadsPerBlock n s sharedBytes := by
  obtain ⟨k, hk, -⟩ := getThreadsPerBlock_eq (min (sharedBytes / s) n)
  rw [optimalThreadsPerBlock, hk]
  positivity

theorem optimalThreadsPerBlock_le (hs : 1 ≤ sharedBytes / s) (hn : 1 ≤ n) :
    optimalThreadsPerBlock n s sharedBytes ≤ n := by
  obtain ⟨k, hk, hle, -⟩ := getThreadsPerBlock_eq (min (sharedBytes / s) n)
  rw [optimalThreadsPerBlock, hk]
  exact (hle (by omega)).trans (min_le_right _ _)

theorem two_le_optimalThreadsPerBlock (hs : 2 ≤ sharedBytes / s) (hn : 2 ≤ n) :
    2 ≤ optimalThreadsPerBlock n s sharedBytes := by
  obtain ⟨k, hk, -, htwo, -⟩ := getThreadsPerBlock_eq (min (sharedBytes / s) n)
  rw [optimalThreadsPerBlock, hk]
  exact htwo (by omega)

theorem optimalThreadsPerBlock_one (hs : sharedBytes / s = 1) :
    optimalThreadsPerBlock n s sharedBytes = 1 := by
  obtain ⟨k, hk, -, -, hone⟩ := getThreadsPerBlock_eq (min (sharedBytes / s) n)
  rw [optimalThreadsPerBlock, hk]
  exact hone (by omega)

/-- A launch whose blocks have work for all their lanes. -/
theorem enqueueReduceKernel_wellFormed {blocks threads : ℕ} {source : Source} {bufferSize : ℕ}
    {combines : Bool} (hblocks : 0 < blocks) (hthreads : 0 < threads)
    (hlanes : blocks * threads ≤ bufferSize) (hsize : bufferSize < 2 ^ 31)
    (hapart : 1 < blocks → ∀ offset, source = .destination offset → blocks ≤ offset) :
    (enqueueReduceKernel blocks threads source bufferSize combines).WellFormed := by
  obtain ⟨k, hk, hle, -⟩ := getThreadsPerBlock_eq threads
  refine ⟨hblocks, ⟨k, hk⟩, ?_, hsize, fun hmany => ?_⟩
  · show blocks * getThreadsPerBlock threads ≤ bufferSize
    rw [hk]
    exact (Nat.mul_le_mul_left _ (hle hthreads)).trans hlanes
  · rw [Set.disjoint_left]
    rintro i ⟨offset, hsource, hi, -⟩ hwritten
    have hoffset := hapart hmany offset hsource
    have hlt : i < blocks := hwritten
    omega

end BlockSize

/-! ## What has been reduced -/

/-- The first slots hold values that together use all of some values once. -/
def Reduced (op : M → M → M) (total : Multiset M) (n : ℕ) (d : Slots M) : Prop :=
  ∃ (g : ℕ → Multiset M) (v : ℕ → M), (∀ j < n, d j = some (v j) ∧ Combination op (g j) (v j)) ∧
    ∑ j ∈ Finset.range n, g j = total

section Launches

variable {op : M → M → M} {B : Buffers M} {launch : Launch} {order : LaunchOrder} {d : Slots M}
  {total : Multiset M} {n next : ℕ}

/-- **A launch that assigns** leaves a value for each of its blocks. -/
theorem Launch.run_assign (h : launch.WellFormed) (hassign : launch.combines = false)
    (hcapacity : launch.blocks ≤ B.capacity) (horder : order.Valid launch) {g : ℕ → Multiset M}
    {v : ℕ → M} (hload : ∀ j < launch.bufferSize, launch.load B d j = some (v j))
    (hv : ∀ j < launch.bufferSize, Combination op (g j) (v j)) :
    ∃ d', launch.run op B order d = some d' ∧
      Reduced op (∑ j ∈ Finset.range launch.bufferSize, g j) launch.blocks d' := by
  have hold : launch.combines = true → ∀ b < launch.blocks, d b = some (v b) := fun hcombines => by
    rw [hassign] at hcombines
    cases hcombines
  refine ⟨_, Launch.run_eq op h hcapacity hload hold horder, launch.blockShare g,
    launch.blockValue op v, fun b hb => ⟨?_, Launch.combination op h hv hb⟩, Launch.sum_blockShare h g⟩
  · rw [overlay_of_mem (horder.blocks.mem_iff.mpr (List.mem_range.mpr hb)), Launch.newValue,
      if_neg (by rw [hassign]; exact Bool.false_ne_true)]

/-- **A launch that folds the tail onto the head.** -/
theorem Launch.run_fold (h : launch.WellFormed) (hcombines : launch.combines = true)
    (hsource : launch.source = .destination next) (hsize : launch.bufferSize = n - next) (hnext : next ≤ n)
    (hblocks : launch.blocks ≤ next) (hcapacity : n ≤ B.capacity) (horder : order.Valid launch)
    (hd : Reduced op total n d) :
    ∃ d', launch.run op B order d = some d' ∧ Reduced op total next d' := by
  obtain ⟨g, v, hv, hsum⟩ := hd
  have hload : ∀ j < launch.bufferSize, launch.load B d j = some (v (next + j)) := by
    intro j hj
    rw [Launch.load, hsource]
    dsimp only
    rw [Buffers.read, if_pos (by omega)]
    exact (hv _ (by omega)).1
  have htail : ∀ j < launch.bufferSize, Combination op (g (next + j)) (v (next + j)) := fun j hj =>
    (hv _ (by omega)).2
  refine ⟨_, Launch.run_eq op h (by omega) hload (fun _ b hb => (hv b (by omega)).1) horder,
    fun j => if j < launch.blocks then g j + launch.blockShare (fun j => g (next + j)) j else g j,
    fun j => if j < launch.blocks then launch.newValue op (fun j => v (next + j)) v j else v j, ?_, ?_⟩
  · intro j hj
    dsimp only
    by_cases hb : j < launch.blocks
    · rw [if_pos hb, if_pos hb, overlay_of_mem (horder.blocks.mem_iff.mpr (List.mem_range.mpr hb)),
        Launch.newValue, if_pos hcombines]
      exact ⟨rfl, (hv j (by omega)).2.combine (Launch.combination op h htail hb)⟩
    · rw [if_neg hb, if_neg hb, overlay_of_notMem fun hmem =>
        hb (List.mem_range.mp (horder.blocks.mem_iff.mp hmem))]
      exact hv j (by omega)
  · obtain ⟨m, hm⟩ := Nat.exists_eq_add_of_le hblocks
    obtain ⟨t, ht⟩ := Nat.exists_eq_add_of_le hnext
    have hhead : ∑ j ∈ Finset.range launch.blocks,
        (if j < launch.blocks then g j + launch.blockShare (fun j => g (next + j)) j else g j) =
        ∑ j ∈ Finset.range launch.blocks, g j + ∑ j ∈ Finset.range launch.bufferSize, g (next + j) := by
      rw [← Launch.sum_blockShare h fun j => g (next + j), ← Finset.sum_add_distrib]
      exact Finset.sum_congr rfl fun j hj => if_pos (Finset.mem_range.mp hj)
    have hkept : ∑ j ∈ Finset.range m, (if launch.blocks + j < launch.blocks then
        g (launch.blocks + j) + launch.blockShare (fun j => g (next + j)) (launch.blocks + j)
        else g (launch.blocks + j)) = ∑ j ∈ Finset.range m, g (launch.blocks + j) :=
      Finset.sum_congr rfl fun j _ => if_neg (by omega)
    have hnext' : ∑ j ∈ Finset.range next, g j =
        ∑ j ∈ Finset.range launch.blocks, g j + ∑ j ∈ Finset.range m, g (launch.blocks + j) := by
      rw [hm, Finset.sum_range_add]
    calc ∑ j ∈ Finset.range next,
          (if j < launch.blocks then g j + launch.blockShare (fun j => g (next + j)) j else g j)
        = ∑ j ∈ Finset.range (launch.blocks + m),
          (if j < launch.blocks then g j + launch.blockShare (fun j => g (next + j)) j else g j) := by
          rw [hm]
      _ = (∑ j ∈ Finset.range launch.blocks, g j + ∑ j ∈ Finset.range launch.bufferSize, g (next + j)) +
          ∑ j ∈ Finset.range m, g (launch.blocks + j) := by
          rw [Finset.sum_range_add, hhead, hkept]
      _ = ∑ j ∈ Finset.range next, g j + ∑ j ∈ Finset.range launch.bufferSize, g (next + j) := by
          rw [hnext', add_right_comm]
      _ = total := by
          rw [← hsum, hsize, ht, Nat.add_sub_cancel_left, Finset.sum_range_add]

end Launches

/-! ## The loop -/

section Loop

variable {op : M → M → M} {B : Buffers M} {n next s sharedBytes : ℕ} {total : Multiset M}

/-- What a pass of the loop does to the number of values. -/
inductive Folds (n : ℕ) (launch : Launch) : ℕ → Prop
  | fold {next : ℕ} (hcombines : launch.combines = true) (hsource : launch.source = .destination next)
      (hsize : launch.bufferSize = n - next) (hblocks : launch.blocks ≤ next) : Folds n launch next
  | last (hassign : launch.combines = false) (hsource : launch.source = .destination 0)
      (hsize : launch.bufferSize = n) (hblocks : launch.blocks = 1) : Folds n launch 1

/-- **A pass keeps what the values have been combined from.** -/
theorem Folds.run {launch : Launch} (hfolds : Folds n launch next) (h : launch.WellFormed) (hnext : next ≤ n)
    (hcapacity : n ≤ B.capacity) {order : LaunchOrder} (horder : order.Valid launch) {d : Slots M}
    (hd : Reduced op total n d) : ∃ d', launch.run op B order d = some d' ∧ Reduced op total next d' := by
  cases hfolds with
  | fold hcombines hsource hsize hblocks =>
    exact Launch.run_fold h hcombines hsource hsize hnext hblocks hcapacity horder hd
  | last hassign hsource hsize hblocks =>
    obtain ⟨g, v, hv, rfl⟩ := hd
    have hload : ∀ j < launch.bufferSize, launch.load B d j = some (v j) := by
      intro j hj
      rw [Launch.load, hsource]
      dsimp only
      rw [Nat.zero_add, Buffers.read, if_pos (by omega)]
      exact (hv j (by omega)).1
    have hrun := Launch.run_assign h hassign (by omega) horder hload fun j hj => (hv j (by omega)).2
    rw [hblocks, hsize] at hrun
    exact hrun

theorem nextBlocks_eq_zero {blockcount : ℕ} (hn : n ≤ 1) : nextBlocks n blockcount = 0 := by
  have hzero : n / 2 / blockcount = 0 := by
    rw [show n / 2 = 0 by omega, Nat.zero_div]
  unfold nextBlocks
  rw [hzero, if_neg (by omega)]

theorem nextBlocks_pos {blockcount : ℕ} (hn : 2 ≤ n) : 0 < nextBlocks n blockcount := by
  unfold nextBlocks
  dsimp only
  split
  · exact Nat.one_pos
  · next h => exact Nat.pos_of_ne_zero fun h0 => h ⟨h0, by omega⟩

/-- Several blocks take at most half of the values. -/
theorem two_mul_nextBlocks_le {blockcount : ℕ} (hmany : 1 < nextBlocks n blockcount) :
    2 * (nextBlocks n blockcount * blockcount) ≤ n := by
  have hblocks : nextBlocks n blockcount = n / 2 / blockcount := by
    unfold nextBlocks at hmany ⊢
    dsimp only at hmany ⊢
    split at hmany
    · omega
    · next h => rw [if_neg h]
  rw [hblocks]
  have := Nat.div_mul_le_self (n / 2) blockcount
  omega

/-- The offset of a fold is the number of blocks, rounded up to whole blocks. -/
theorem blockOffset_bounds (blocks : ℕ) {blockcount : ℕ} (hpos : 0 < blockcount) :
    blocks ≤ blockOffset blocks blockcount * blockcount ∧
      blockOffset blocks blockcount * blockcount + 1 ≤ blocks + blockcount := by
  unfold blockOffset
  have hmod := Nat.div_add_mod' (blocks + blockcount - 1) blockcount
  have hlt := Nat.mod_lt (blocks + blockcount - 1) hpos
  omega

/-- The launch of a pass with several blocks. -/
def foldLaunch (n blocks blockcount : ℕ) : Launch :=
  enqueueReduceKernel (blocks - blockOffset blocks blockcount) blockcount
    (.destination (blockOffset blocks blockcount * blockcount))
    (n - blockOffset blocks blockcount * blockcount) true

theorem foldLaunch_wellFormed {blocks blockcount : ℕ} (hblocks : 2 ≤ blocks) (hthreads : 2 ≤ blockcount)
    (hhalf : 2 * (blocks * blockcount) ≤ n) (hsize : n < 2 ^ 31) :
    (foldLaunch n blocks blockcount).WellFormed := by
  obtain ⟨hoffset, hoffset'⟩ := blockOffset_bounds blocks (show 0 < blockcount by omega)
  -- with two threads to a block the offset is at most half the number of blocks, rounded up
  have hfew : blockOffset blocks blockcount * 2 ≤ blocks + 1 := by
    have hsplit : blockOffset blocks blockcount * 2 + blockOffset blocks blockcount * (blockcount - 2) =
        blockOffset blocks blockcount * blockcount := by
      rw [← Nat.mul_add, Nat.add_sub_cancel' hthreads]
    rcases Nat.eq_zero_or_pos (blockOffset blocks blockcount) with h0 | hpos
    · omega
    · have : blockcount - 2 ≤ blockOffset blocks blockcount * (blockcount - 2) :=
        Nat.le_mul_of_pos_left _ hpos
      omega
  refine enqueueReduceKernel_wellFormed (by omega) (by omega) ?_ (by omega) fun _ offset hoff => ?_
  · rw [Nat.sub_mul]
    omega
  · cases hoff
    omega

/-- **A pass of the loop.**  Only with one thread to a block, and more than three values, it launches
nothing. -/
theorem laterLaunches_step (hs : 1 ≤ sharedBytes / s) (hn : 2 ≤ n) (hsize : n < 2 ^ 31) :
    ∃ launch next, (0 < next ∧ next < n) ∧
      (∀ fuel, laterLaunches s sharedBytes (fuel + 1) n =
        (laterLaunches s sharedBytes fuel next).map (launch :: ·)) ∧
      (2 ≤ sharedBytes / s ∨ n ≤ 3 → launch.WellFormed ∧ Folds n launch next) ∧
      (¬ (2 ≤ sharedBytes / s ∨ n ≤ 3) → launch.blocks = 0) := by
  have hpos : 0 < optimalThreadsPerBlock n s sharedBytes := optimalThreadsPerBlock_pos
  have hle : optimalThreadsPerBlock n s sharedBytes ≤ n := optimalThreadsPerBlock_le hs (by omega)
  have hblocks : 0 < nextBlocks n (optimalThreadsPerBlock n s sharedBytes) := nextBlocks_pos hn
  have hone : ¬ 2 ≤ sharedBytes / s → optimalThreadsPerBlock n s sharedBytes = 1 := fun h =>
    optimalThreadsPerBlock_one (by omega)
  have htwo : 2 ≤ sharedBytes / s → 2 ≤ optimalThreadsPerBlock n s sharedBytes := fun h =>
    two_le_optimalThreadsPerBlock h hn
  by_cases hmany : 1 < nextBlocks n (optimalThreadsPerBlock n s sharedBytes)
  · have hloop : ∀ fuel, laterLaunches s sharedBytes (fuel + 1) n = (laterLaunches s sharedBytes fuel
        (blockOffset (nextBlocks n (optimalThreadsPerBlock n s sharedBytes))
          (optimalThreadsPerBlock n s sharedBytes) * optimalThreadsPerBlock n s sharedBytes)).map
        (foldLaunch n (nextBlocks n (optimalThreadsPerBlock n s sharedBytes))
          (optimalThreadsPerBlock n s sharedBytes) :: ·) := by
      intro fuel
      rw [laterLaunches]
      dsimp only
      rw [if_neg (by omega), if_pos hmany]
      rfl
    have hhalf := two_mul_nextBlocks_le hmany
    generalize nextBlocks n (optimalThreadsPerBlock n s sharedBytes) = blocks at *
    generalize optimalThreadsPerBlock n s sharedBytes = blockcount at *
    obtain ⟨hoffset, hoffset'⟩ := blockOffset_bounds blocks hpos
    have hproduct : blocks + blockcount ≤ blocks * blockcount + 1 := by
      obtain ⟨a, rfl⟩ := Nat.exists_eq_add_of_lt hmany
      obtain ⟨c, rfl⟩ := Nat.exists_eq_add_of_lt hpos
      rw [Nat.add_mul]
      nlinarith
    refine ⟨_, _, ⟨by omega, by omega⟩, hloop, fun hgood => ?_, fun hbad => ?_⟩
    · have hthreads : 2 ≤ blockcount := by
        rcases hgood with h | h
        · exact htwo h
        · -- three values are too few for two blocks
          by_contra hlt
          obtain rfl : blockcount = 1 := by omega
          omega
      refine ⟨foldLaunch_wellFormed hmany hthreads hhalf hsize, .fold rfl rfl rfl ?_⟩
      exact (Nat.sub_le _ _).trans hoffset
    · obtain rfl := hone fun h => hbad (Or.inl h)
      show blocks - blockOffset blocks 1 = 0
      omega
  · have hsingle : nextBlocks n (optimalThreadsPerBlock n s sharedBytes) = 1 := by omega
    refine ⟨enqueueReduceKernel 1 (optimalThreadsPerBlock n s sharedBytes) (.destination 0) n false, 1,
      ⟨by omega, by omega⟩, fun fuel => ?_, fun _ => ⟨?_, .last rfl rfl rfl rfl⟩, fun hbad => ?_⟩
    · rw [laterLaunches]
      dsimp only
      rw [if_neg (by omega), if_neg hmany, hsingle]
    · exact enqueueReduceKernel_wellFormed (by omega) hpos (by omega) hsize fun h => absurd h (by omega)
    · obtain ⟨hfew, hn4⟩ := not_or.mp hbad
      rw [hone hfew] at hsingle
      unfold nextBlocks at hsingle
      dsimp only at hsingle
      rw [Nat.div_one, if_neg (by omega)] at hsingle
      omega

/-- **The loop ends, and reduces to one value** unless one of its launches has no blocks. -/
theorem laterLaunches_eq (hs : 1 ≤ sharedBytes / s) (hn : 1 ≤ n) (hsize : n < 2 ^ 31) :
    ∃ launches, (∀ fuel, n ≤ fuel → laterLaunches s sharedBytes fuel n = some launches) ∧
      (2 ≤ sharedBytes / s ∨ n ≤ 3 → (∀ launch ∈ launches, launch.WellFormed) ∧
        ∀ (op : M → M → M) (B : Buffers M) (total : Multiset M) (orders : ℕ → LaunchOrder) (d : Slots M),
          n ≤ B.capacity → ValidOrders launches orders → Reduced op total n d →
          ∃ d', runLaunches op B launches orders d = some d' ∧ Reduced op total 1 d') ∧
      (¬ (2 ≤ sharedBytes / s ∨ n ≤ 3) → ∃ launch ∈ launches, launch.blocks = 0) := by
  induction n using Nat.strong_induction_on with
  | _ n ih =>
    rcases Nat.lt_or_ge n 2 with hlt | hge
    · obtain rfl : n = 1 := by omega
      refine ⟨[], fun fuel _ => ?_, fun _ => ⟨?_, ?_⟩, fun hbad => absurd (Or.inr (by omega)) hbad⟩
      · cases fuel <;> simp [laterLaunches, nextBlocks_eq_zero le_rfl]
      · exact fun launch h => absurd h List.not_mem_nil
      · exact fun op B total orders d _ _ hd => ⟨d, rfl, hd⟩
    · obtain ⟨launch, next, ⟨hpos, hlt⟩, hloop, hgood, hbad⟩ := laterLaunches_step hs hge hsize
      obtain ⟨launches, heq, hrest, -⟩ := ih next hlt hpos (by omega)
      refine ⟨launch :: launches, fun fuel hfuel => ?_, fun h => ?_, fun h =>
        ⟨launch, List.mem_cons_self, hbad h⟩⟩
      · obtain ⟨fuel, rfl⟩ := Nat.exists_eq_add_of_le' (show 1 ≤ fuel by omega)
        rw [hloop, heq fuel (by omega), Option.map_some]
      · obtain ⟨hwell, hfolds⟩ := hgood h
        obtain ⟨hwells, hruns⟩ := hrest (h.imp_right fun h3 => by omega)
        refine ⟨fun l hl => ?_, fun op B total orders d hcapacity hvalid hd => ?_⟩
        · rcases List.mem_cons.mp hl with rfl | hl
          · exact hwell
          · exact hwells l hl
        · obtain ⟨d', hrun, hd'⟩ := hfolds.run hwell hlt.le hcapacity (hvalid 0 launch rfl) hd
          obtain ⟨d'', hrun', hd''⟩ := hruns op B total (fun k => orders (k + 1)) d' (by omega)
            (fun k l hl => hvalid (k + 1) l hl) hd'
          refine ⟨d'', ?_, hd''⟩
          rw [runLaunches, hrun]
          exact hrun'

end Loop

/-! ## The reduction -/

section Reduction

variable {n s scratchBytes sharedBytes : ℕ}

/-- The first launch writes no more than the scratch buffer holds, and has enough work for its
threads. -/
theorem firstBlocks_bounds (hs : 1 ≤ sharedBytes / s) (hscratch : 1 ≤ scratchBytes / s) (hn : 1 ≤ n) :
    0 < firstBlocks n s scratchBytes sharedBytes ∧
      firstBlocks n s scratchBytes sharedBytes ≤ scratchBytes / s ∧
      firstBlocks n s scratchBytes sharedBytes * optimalThreadsPerBlock n s sharedBytes ≤ n := by
  have hpos : 0 < optimalThreadsPerBlock n s sharedBytes := optimalThreadsPerBlock_pos
  have hle : optimalThreadsPerBlock n s sharedBytes ≤ n := optimalThreadsPerBlock_le hs hn
  have hmod : scratchBytes / s * optimalThreadsPerBlock n s sharedBytes * 2 % 2 ^ 32 ≤
      scratchBytes / s * optimalThreadsPerBlock n s sharedBytes * 2 := Nat.mod_le _ _
  unfold firstBlocks
  dsimp only
  generalize optimalThreadsPerBlock n s sharedBytes = blockcount at *
  generalize hthreads : (if scratchBytes / s * blockcount * 2 % 2 ^ 32 > n then n
    else scratchBytes / s * blockcount * 2 % 2 ^ 32) = threads
  have hboth : threads ≤ n ∧ threads ≤ scratchBytes / s * blockcount * 2 := by
    rw [← hthreads]
    split <;> omega
  split
  · exact ⟨Nat.one_pos, hscratch, by omega⟩
  · next hne =>
    have hfloor := Nat.div_mul_le_self (threads / 2) blockcount
    refine ⟨Nat.pos_of_ne_zero hne, ?_, by omega⟩
    exact Nat.div_le_of_le_mul (by rw [Nat.mul_comm]; omega)

/-- When at most three values remain after a first launch with one thread to a block. -/
theorem firstBlocks_le_three (hone : optimalThreadsPerBlock n s sharedBytes = 1) :
    firstBlocks n s scratchBytes sharedBytes ≤ 3 ↔ n ≤ 7 ∨ 2 * (scratchBytes / s) % 2 ^ 32 ≤ 7 := by
  unfold firstBlocks
  dsimp only
  rw [hone, Nat.mul_one, Nat.div_one, Nat.mul_comm 2 (scratchBytes / s)]
  split <;> split <;> omega

/-- The elements, each of them once. -/
theorem combination_reduction (op : M → M → M) (src : ℕ → M) (hn : 1 ≤ n) :
    Combination op (∑ j ∈ Finset.range n, {src j}) (reduction op src n) := by
  obtain ⟨m, rfl⟩ := Nat.exists_eq_add_of_le' hn
  have hhead : Combination op {src 0} (src 0) := .single (src 0)
  have h := hhead.foldl (List.range m) fun i _ => Combination.single (src (i + 1))
  rw [← List.sum_toFinset _ List.nodup_range, List.toFinset_range, add_comm,
    ← Finset.sum_range_succ' fun j => ({src j} : Multiset M)] at h
  exact h

/-- **The first launch** starts from the elements. -/
theorem Launch.run_buffer {launch : Launch} (h : launch.WellFormed) (op : M → M → M) (src : ℕ → M)
    (hassign : launch.combines = false) (hsource : launch.source = .buffer) (hsize : launch.bufferSize = n)
    {capacity : ℕ} (hcapacity : launch.blocks ≤ capacity) {order : LaunchOrder} (horder : order.Valid launch)
    (d : Slots M) : ∃ d', launch.run op ⟨src, n, capacity⟩ order d = some d' ∧
      Reduced op (∑ j ∈ Finset.range n, {src j}) launch.blocks d' := by
  have hload : ∀ j < launch.bufferSize, launch.load ⟨src, n, capacity⟩ d j = some (src j) := by
    intro j hj
    rw [Launch.load, hsource]
    exact if_pos (hsize ▸ hj)
  have hrun := Launch.run_assign h hassign hcapacity horder hload fun j _ =>
    (Combination.single (src j) : Combination op {src j} (src j))
  rw [hsize] at hrun
  exact hrun

/-- **The device reduction combines all elements, each of them once**, exactly when its launches have
two threads to a block, or there are so few elements or slots that a single block ends it. -/
theorem reduces_iff (op : M → M → M) [Std.Associative op] [Std.Commutative op] (src : ℕ → M)
    (hn : 1 ≤ n) (hsize : n < 2 ^ 31) (hs : 1 ≤ s) (hscratch : s ≤ scratchBytes) (hshared : s ≤ sharedBytes) :
    Reduces op src n s scratchBytes sharedBytes ↔
      2 ≤ sharedBytes / s ∨ n ≤ 7 ∨ 2 * (scratchBytes / s) % 2 ^ 32 ≤ 7 := by
  have hscratch' : 1 ≤ scratchBytes / s := (Nat.one_le_div_iff hs).mpr hscratch
  have hshared' : 1 ≤ sharedBytes / s := (Nat.one_le_div_iff hs).mpr hshared
  obtain ⟨hpos, hcapacity, hlanes⟩ := firstBlocks_bounds hshared' hscratch' hn
  have hthreads : 0 < optimalThreadsPerBlock n s sharedBytes := optimalThreadsPerBlock_pos
  have hle : firstBlocks n s scratchBytes sharedBytes ≤ n :=
    (Nat.le_mul_of_pos_right _ hthreads).trans hlanes
  have hgood : (2 ≤ sharedBytes / s ∨ firstBlocks n s scratchBytes sharedBytes ≤ 3) ↔
      2 ≤ sharedBytes / s ∨ n ≤ 7 ∨ 2 * (scratchBytes / s) % 2 ^ 32 ≤ 7 := by
    by_cases htwo : 2 ≤ sharedBytes / s
    · exact iff_of_true (Or.inl htwo) (Or.inl htwo)
    · rw [firstBlocks_le_three (optimalThreadsPerBlock_one (by omega))]
  obtain ⟨launches, heq, hruns, hempty⟩ := laterLaunches_eq (M := M) hshared' hpos (by omega)
  have hlaunches : ∀ fuel, n ≤ fuel → enqueueReduction fuel n s scratchBytes sharedBytes =
      some (enqueueReduceKernel (firstBlocks n s scratchBytes sharedBytes)
        (optimalThreadsPerBlock n s sharedBytes) .buffer n false :: launches) := fun fuel hfuel => by
    rw [enqueueReduction, heq fuel (hle.trans hfuel), Option.map_some]
  have hfirst : (enqueueReduceKernel (firstBlocks n s scratchBytes sharedBytes)
      (optimalThreadsPerBlock n s sharedBytes) .buffer n false).WellFormed :=
    enqueueReduceKernel_wellFormed hpos hthreads hlanes hsize fun _ offset h => by cases h
  rw [← hgood]
  constructor
  · rintro ⟨launches', heq', hblocks, -⟩
    by_contra hbad
    obtain ⟨launch, hlaunch, hzero⟩ := hempty hbad
    obtain rfl := Option.some.inj ((hlaunches n le_rfl).symm.trans (heq' n le_rfl))
    exact absurd (hblocks launch (List.mem_cons_of_mem _ hlaunch)) (by omega)
  · intro hok
    obtain ⟨hwell, hrun⟩ := hruns hok
    have hall := List.forall_mem_cons.mpr ⟨hfirst, hwell⟩
    refine ⟨_, hlaunches, fun launch h => (hall launch h).blocks_pos,
      fun launch h => (hall launch h).apart, fun orders hvalid => ?_⟩
    obtain ⟨d, hd, hreduced⟩ := Launch.run_buffer (n := n) hfirst op src rfl rfl rfl hcapacity
      (hvalid 0 _ rfl) fun _ => none
    obtain ⟨d', hd', g, v, hv, hsum⟩ := hrun op ⟨src, n, scratchBytes / s⟩ _ (fun k => orders (k + 1)) d
      hcapacity (fun k launch h => hvalid (k + 1) launch h) hreduced
    refine ⟨d', ?_, ?_⟩
    · rw [runLaunches, hd]
      exact hd'
    · obtain ⟨hslot, hcombination⟩ := hv 0 Nat.one_pos
      rw [Finset.sum_range_one] at hsum
      rw [hsum] at hcombination
      rw [hslot, hcombination.eq (combination_reduction op src hn)]

/-- Five thousand numbers, in a shared memory with room for sixteen: the second launch combines, and the third one
ends it. -/
theorem reduces_five_thousand :
    enqueueReduction 5000 5000 4 4096 64 = some [⟨156, 16, .buffer, 5000, false⟩,
      ⟨3, 16, .destination 16, 140, true⟩, ⟨1, 16, .destination 0, 16, false⟩] ∧
      Reduces (fun a b : ℕ => a + b) (fun i => i) 5000 4 4096 64 :=
  ⟨rfl, (reduces_iff (fun a b : ℕ => a + b) (fun i => i) (by norm_num) (by norm_num) (by norm_num) (by norm_num)
    (by norm_num)).mpr (Or.inl (by norm_num))⟩

/-- In a shared memory for a single number, the second launch has no blocks. -/
theorem not_reduces_eight : ¬ Reduces (fun a b : ℕ => a + b) (fun i => i) 8 4 16 4 := by
  rintro ⟨launches, heq, hblocks, -⟩
  have hlaunches : enqueueReduction 8 8 4 16 4 = some [⟨4, 1, .buffer, 8, false⟩,
      ⟨0, 1, .destination 2, 2, true⟩, ⟨1, 1, .destination 0, 2, false⟩] := rfl
  obtain rfl := Option.some.inj ((heq 8 le_rfl).symm.trans hlaunches)
  exact absurd (hblocks ⟨0, 1, .destination 2, 2, true⟩ (by simp)) (by norm_num)

end Reduction

end Reduce
end Device
end Spearhed
