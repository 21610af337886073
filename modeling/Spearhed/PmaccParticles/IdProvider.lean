import Spearhed.Library.BlockCounters

/-!
# Particle ids

`IdProvider.hpp` and `reverseBits.hpp`.  Every rank hands out ids of 64 bits from a counter of its
own.  A counter starts at the rank with its bits reversed, so that the upper bits tell the ranks
apart; `isOverflown` says whether a counter has changed these bits.  The state of a provider can be
saved, and restored later on any rank of a run with another number of ranks.

* `reverseBits_eq_reverse`: the loop reverses the bits.
* `exists_isOverflown_eq`: what the check finds, where its shift is defined.
* `fetchAll_snd`: the ids of a run are numbers handed out by counters.
* `nodup_of_lineage`: they are distinct if every counter stays in the block of its rank.
* `idsUnique_iff`: the ids are unique, and the check is right, exactly with two ranks or more.
-/

namespace Spearhed
namespace PmaccParticles

open Library

/-! ## Reversing bits -/

/-- The loop of `reverseBits`: the result and the shift that is left, after some iterations. -/
def reverseLoop {w : ℕ} : ℕ → BitVec w → BitVec w → ℕ → BitVec w × ℕ
  | 0, _, result, s => (result, s)
  | fuel + 1, value, result, s =>
    if value = 0#w then (result, s)
    else reverseLoop fuel (value >>> 1) ((result <<< 1) ||| (value &&& 1#w)) (s - 1)

/-- `reverseBits`.  A value has no more bits than the loop has iterations. -/
def reverseBits {w : ℕ} (value : BitVec w) : BitVec w :=
  let (result, s) := reverseLoop w (value >>> 1) value (w - 1)
  result <<< s

/-- The loop, after `k` iterations: the lowest `k + 1` bits of the result are those of the value in
reverse order. -/
theorem reverseLoop_spec {w : ℕ} {v : BitVec w} {fuel k s : ℕ} {result : BitVec w} (hs : s + k + 1 = w)
    (hresult : ∀ i < w, result.getLsbD i =
      if i < k then v.getLsbD (k - i) else v.getLsbD (i - k)) (hfuel : w ≤ fuel + k + 1) :
    (reverseLoop fuel (v >>> (k + 1)) result s).1 <<< (reverseLoop fuel (v >>> (k + 1)) result s).2 =
      v.reverse := by
  induction fuel generalizing k s result with
  | zero =>
    -- all bits have been visited
    obtain rfl : s = 0 := by omega
    refine BitVec.eq_of_getLsbD_eq fun i hi => ?_
    rw [reverseLoop, BitVec.shiftLeft_zero, BitVec.getLsbD_reverse, BitVec.getMsbD_eq_getLsbD,
      decide_eq_true hi, Bool.true_and, hresult i hi]
    split
    · exact congrArg v.getLsbD (by omega)
    · exact congrArg v.getLsbD (by omega)
  | succ fuel ih =>
    rw [reverseLoop]
    split
    · next hzero =>
      -- the bits that have not been visited are zero
      refine BitVec.eq_of_getLsbD_eq fun i hi => ?_
      rw [BitVec.getLsbD_shiftLeft, BitVec.getLsbD_reverse, BitVec.getMsbD_eq_getLsbD,
        decide_eq_true hi, Bool.true_and, Bool.true_and]
      by_cases his : i < s
      · have hbit := congrArg (fun x : BitVec w => x.getLsbD (w - 1 - i - (k + 1))) hzero
        simp only [BitVec.getLsbD_ushiftRight, BitVec.getLsbD_zero] at hbit
        rw [decide_eq_true his, Bool.not_true, Bool.false_and, ← hbit]
        exact congrArg v.getLsbD (by omega)
      · rw [decide_eq_false his, Bool.not_false, Bool.true_and, hresult (i - s) (by omega)]
        split
        · exact congrArg v.getLsbD (by omega)
        · exact congrArg v.getLsbD (by omega)
    · next hne =>
      have hk : k + 1 < w := by
        by_contra hge
        refine hne (BitVec.eq_of_getLsbD_eq fun i _ => ?_)
        rw [BitVec.getLsbD_ushiftRight, BitVec.getLsbD_of_ge v _ (by omega), BitVec.getLsbD_zero]
      rw [← BitVec.shiftRight_add]
      refine ih (by omega) (fun i hi => ?_) (by omega)
      rw [BitVec.getLsbD_or, BitVec.getLsbD_and, BitVec.getLsbD_shiftLeft, BitVec.getLsbD_ushiftRight,
        BitVec.getLsbD_one, decide_eq_true hi, Bool.true_and]
      rcases Nat.eq_zero_or_pos i with rfl | hpos
      · simp only [decide_true, Bool.not_true, Bool.false_and, Bool.false_or,
          Nat.add_zero, Nat.zero_lt_succ, if_true, Nat.sub_zero, decide_eq_true hi, Bool.and_true]
      · have hi0 : i ≠ 0 := by omega
        simp only [Nat.not_lt_of_le hpos, decide_false, Bool.not_false, Bool.true_and, hi0,
          Bool.and_false, Bool.or_false]
        rw [hresult (i - 1) (by omega)]
        by_cases hik : i < k + 1
        · rw [if_pos (by omega), if_pos hik]
          exact congrArg v.getLsbD (by omega)
        · rw [if_neg (by omega), if_neg hik]
          exact congrArg v.getLsbD (by omega)

/-- **`reverseBits` reverses the bits.** -/
theorem reverseBits_eq_reverse {w : ℕ} (hw : 0 < w) (value : BitVec w) :
    reverseBits value = value.reverse :=
  reverseLoop_spec (by omega) (fun i _ => by simp) (by omega)

theorem reverseBits_reverseBits {w : ℕ} (hw : 0 < w) (value : BitVec w) :
    reverseBits (reverseBits value) = value := by
  rw [reverseBits_eq_reverse hw, reverseBits_eq_reverse hw, BitVec.reverse_reverse_eq]

/-! ## The provider -/

/-- `IdProvider::State`. -/
structure IdState where
  nextId : BitVec 64
  startId : BitVec 64
  maxNumProc : BitVec 64

/-- `IdProvider`, with the two copies of its buffer. -/
structure IdProvider where
  maxNumProc : BitVec 64
  startId : BitVec 64
  host : BitVec 64
  device : BitVec 64

namespace IdProvider

/-- `synchronize`. -/
def synchronize (p : IdProvider) : IdProvider := { p with host := p.device }

/-- `getStateHost`. -/
def getStateHost (p : IdProvider) : IdState := ⟨p.host, p.startId, p.maxNumProc⟩

/-- `setStateHost`. -/
def setStateHost (p : IdProvider) (state : IdState) : IdProvider :=
  { p with
    host := state.nextId
    startId := state.startId
    maxNumProc := if p.maxNumProc < state.maxNumProc then state.maxNumProc else p.maxNumProc }

/-- `initialize`: the host copy is sent to the device. -/
def hostToDevice (p : IdProvider) : IdProvider := { p with device := p.host }

/-- The constructor; the buffer holds anything before. -/
def construct (mpiRank numMpiRanks : BitVec 64) (buffer : BitVec 64 × BitVec 64) : IdProvider :=
  let startId := reverseBits mpiRank
  setStateHost ⟨0, 0, buffer.1, buffer.2⟩ ⟨startId, startId, numMpiRanks⟩

/-- `fetchInc` of the device generator: an atomic addition that returns the old value. -/
def fetchInc (p : IdProvider) : BitVec 64 × IdProvider := (p.device, { p with device := p.device + 1 })

/-- The state of a provider now. -/
def current (p : IdProvider) : IdState := p.synchronize.getStateHost

end IdProvider

/-- `std::bit_width`. -/
def bitWidth (value : BitVec 64) : ℕ := Nat.size value.toNat

/-- By how many bits `isOverflown` shifts. -/
def overflowShift (curState : IdState) : ℕ := 64 - bitWidth (curState.maxNumProc - 1)

/-- `isOverflown`.  A shift by all 64 bits is undefined. -/
def isOverflown (curState : IdState) : Option Bool :=
  if overflowShift curState < 64 then
    some ((curState.nextId ^^^ curState.startId) >>> overflowShift curState != 0#64)
  else none

theorem bitWidth_sub_one {x : BitVec 64} {P : ℕ} (hP : 1 ≤ P) (h : x.toNat = P) :
    bitWidth (x - 1) = Nat.size (P - 1) := by
  rw [bitWidth, BitVec.toNat_sub_of_le (BitVec.le_def.mpr (h ▸ hP)), h]
  rfl

theorem overflowShift_of_toNat {curState : IdState} {P : ℕ} (hP : 1 ≤ P)
    (h : curState.maxNumProc.toNat = P) : overflowShift curState = 64 - Nat.size (P - 1) := by
  rw [overflowShift, bitWidth_sub_one hP h]

/-- **When the shift is defined**: when there was ever more than one process. -/
theorem overflowShift_lt_iff {curState : IdState} {P : ℕ} (hP : 1 ≤ P)
    (h : curState.maxNumProc.toNat = P) : overflowShift curState < 64 ↔ 2 ≤ P := by
  have hsize : 0 < Nat.size (P - 1) ↔ 0 < P - 1 := Nat.size_pos
  rw [overflowShift_of_toNat hP h]
  omega

/-- The bits above a shift, as the shift shows them. -/
theorem ushiftRight_eq_iff {x y : BitVec 64} {m : ℕ} :
    x >>> m = y >>> m ↔ ∀ i < 64, m ≤ i → x.getLsbD i = y.getLsbD i := by
  constructor
  · intro h i _ hmi
    have hbit := congrArg (fun z : BitVec 64 => z.getLsbD (i - m)) h
    simpa only [BitVec.getLsbD_ushiftRight, Nat.add_sub_cancel' hmi] using hbit
  · intro h
    refine BitVec.eq_of_getLsbD_eq fun i _ => ?_
    rw [BitVec.getLsbD_ushiftRight, BitVec.getLsbD_ushiftRight]
    rcases Nat.lt_or_ge (m + i) 64 with hlt | hge
    · exact h (m + i) hlt (Nat.le_add_right m i)
    · rw [BitVec.getLsbD_of_ge x _ hge, BitVec.getLsbD_of_ge y _ hge]

/-- The upper `bit_width(maxNumProc - 1)` bits of the counter are not those of its start. -/
def UpperBitsDiffer (curState : IdState) : Prop :=
  ∃ i < 64, 64 - bitWidth (curState.maxNumProc - 1) ≤ i ∧
    curState.nextId.getLsbD i ≠ curState.startId.getLsbD i

/-- **What the check finds**, where its shift is defined. -/
theorem exists_isOverflown_eq {curState : IdState} (h : overflowShift curState < 64) :
    ∃ b, isOverflown curState = some b ∧ (b = true ↔ UpperBitsDiffer curState) := by
  refine ⟨_, if_pos h, ?_⟩
  rw [bne_iff_ne, Ne, BitVec.ushiftRight_xor_distrib, BitVec.xor_eq_zero_iff, ushiftRight_eq_iff]
  unfold UpperBitsDiffer overflowShift
  push Not
  rfl

/-- When nothing is found, the counter still has the upper bits of its start. -/
theorem upper_eq_of_not_isOverflown {curState : IdState} (h : isOverflown curState = some false) :
    curState.nextId >>> overflowShift curState = curState.startId >>> overflowShift curState := by
  unfold isOverflown at h
  split at h
  · have hzero := bne_eq_false_iff_eq.mp (Option.some.inj h)
    rw [BitVec.ushiftRight_xor_distrib] at hzero
    exact BitVec.xor_eq_zero_iff.mp hzero
  · cases h

/-! ## Ranks at work -/

/-- The ranks fetch ids in the order of a schedule: the providers afterwards, and the ids. -/
def fetchAll : (ℕ → IdProvider) → List ℕ → (ℕ → IdProvider) × List (BitVec 64)
  | p, [] => (p, [])
  | p, r :: schedule =>
    let (id, provider) := (p r).fetchInc
    let rest := fetchAll (Function.update p r provider) schedule
    (rest.1, id :: rest.2)

/-- A rank of a run with `P` ranks, ready for the device; a saved state may be restored on it. -/
def startRank (P : ℕ) (buffer : BitVec 64 × BitVec 64) (saved : ℕ → Option IdState) (r : ℕ) :
    IdProvider :=
  let provider := IdProvider.construct (BitVec.ofNat 64 r) (BitVec.ofNat 64 P) buffer
  (match saved r with
    | none => provider
    | some state => provider.setStateHost state).hostToDevice

/-- The first id of a rank. -/
def firstId (r : ℕ) : BitVec 64 := reverseBits (BitVec.ofNat 64 r)

/-- **What is left of a rank after a run**: its counter has moved on. -/
theorem fetchAll_fst (p : ℕ → IdProvider) (schedule : List ℕ) (r : ℕ) :
    (fetchAll p schedule).1 r =
      { p r with device := (p r).device + BitVec.ofNat 64 (schedule.count r) } := by
  induction schedule generalizing p with
  | nil =>
    show p r = { p r with device := (p r).device + 0#64 }
    rw [BitVec.add_zero]
  | cons r' schedule ih =>
    rw [fetchAll, ih]
    rcases eq_or_ne r r' with rfl | hne
    · rw [Function.update_self, List.count_cons_self]
      simp only [IdProvider.fetchInc]
      congr 1
      rw [BitVec.add_assoc, Nat.add_comm, BitVec.ofNat_add]
      rfl
    · rw [Function.update_of_ne hne, List.count_cons_of_ne hne.symm]

/-- **The ids of a run**, when rank `r` goes on with the counter of `lineage r`. -/
theorem fetchAll_snd {p : ℕ → IdProvider} {lineage count : ℕ → ℕ} {schedule : List ℕ}
    (hinj : ∀ r ∈ schedule, ∀ r' ∈ schedule, lineage r = lineage r' → r = r')
    (hp : ∀ r ∈ schedule,
      (p r).device = firstId (lineage r) + BitVec.ofNat 64 (count (lineage r))) :
    (fetchAll p schedule).2 = handedOut firstId count (schedule.map lineage) := by
  induction schedule generalizing p count with
  | nil => rfl
  | cons r schedule ih =>
    rw [fetchAll, List.map_cons, handedOut]
    refine congrArg₂ List.cons (hp r List.mem_cons_self) (ih
      (fun a ha b hb => hinj a (List.mem_cons_of_mem r ha) b (List.mem_cons_of_mem r hb))
      fun r' hr' => ?_)
    rcases eq_or_ne r' r with rfl | hne
    · rw [Function.update_self, Function.update_self]
      show (p r').device + 1#64 = _
      rw [hp r' List.mem_cons_self, BitVec.add_assoc, BitVec.ofNat_add]
    · have hlineage : lineage r' ≠ lineage r := fun h =>
        hne (hinj r' (List.mem_cons_of_mem r hr') r List.mem_cons_self h)
      rw [Function.update_of_ne hne, Function.update_of_ne hlineage]
      exact hp r' (List.mem_cons_of_mem r hr')

/-! ## Blocks of ids -/

/-- **The first id of a rank is the beginning of a block.** -/
theorem firstId_getLsbD {r P : ℕ} (hr : r < P) {i : ℕ} (hi : i < 64 - Nat.size (P - 1)) :
    (firstId r).getLsbD i = false := by
  have hsize : Nat.size r ≤ Nat.size (P - 1) := Nat.size_le_size (by omega)
  rw [firstId, reverseBits_eq_reverse (by decide), BitVec.getLsbD_reverse, BitVec.getMsbD_eq_getLsbD,
    BitVec.getLsbD_ofNat, Nat.testBit_lt_two_pow, Bool.and_false, Bool.and_false]
  exact lt_of_lt_of_le (Nat.lt_size_self r) (Nat.pow_le_pow_right (by decide) (by omega))

theorem firstId_mod {r P : ℕ} (hr : r < P) : (firstId r).toNat % 2 ^ (64 - Nat.size (P - 1)) = 0 := by
  refine Nat.eq_of_testBit_eq fun i => ?_
  rw [Nat.testBit_mod_two_pow, Nat.zero_testBit]
  rcases Nat.lt_or_ge i (64 - Nat.size (P - 1)) with hi | hi
  · have hbit : (firstId r).toNat.testBit i = false := firstId_getLsbD hr hi
    rw [hbit, Bool.and_false]
  · rw [decide_eq_false (by omega), Bool.false_and]

theorem firstId_injective {r r' : ℕ} (hr : r < 2 ^ 64) (hr' : r' < 2 ^ 64)
    (h : firstId r = firstId r') : r = r' := by
  have hofNat : BitVec.ofNat 64 r = BitVec.ofNat 64 r' := by
    rw [← reverseBits_reverseBits (by decide) (BitVec.ofNat 64 r), ← firstId, h, firstId,
      reverseBits_reverseBits (by decide)]
  have hnat := congrArg BitVec.toNat hofNat
  rwa [BitVec.toNat_ofNat, BitVec.toNat_ofNat, Nat.mod_eq_of_lt hr, Nat.mod_eq_of_lt hr'] at hnat

/-- **Ids are distinct** when no counter leaves its block. -/
theorem nodup_of_lineage {P : ℕ} (hP : P < 2 ^ 64) {requests : List ℕ} (hlt : ∀ r ∈ requests, r < P)
    (hcount : ∀ r ∈ requests, requests.count r ≤ 2 ^ (64 - Nat.size (P - 1))) :
    (handedOut firstId (fun _ => 0) requests).Nodup := by
  refine nodup_handedOut fun r hr r' hr' j hj j' hj' heq => ?_
  rw [Nat.zero_add] at hj hj'
  have hblock := eq_of_add_eq_add (m := 64 - Nat.size (P - 1)) (Nat.sub_le _ _) (firstId_mod (hlt r hr))
    (firstId_mod (hlt r' hr')) (lt_of_lt_of_le hj (hcount r hr)) (lt_of_lt_of_le hj' (hcount r' hr')) heq
  exact ⟨firstId_injective (lt_trans (hlt r hr) hP) (lt_trans (hlt r' hr') hP) hblock.1, hblock.2⟩

/-! ## Runs and restarts -/

/-- A run that begins with fresh providers. -/
def firstRun (P : ℕ) (buffer : BitVec 64 × BitVec 64) (schedule : List ℕ) :
    (ℕ → IdProvider) × List (BitVec 64) :=
  fetchAll (startRank P buffer fun _ => none) schedule

/-- A run with `P'` ranks after it, in which rank `r` restores the state that rank `q` saved, where
`restore r` is `some q`. -/
def secondRun (P' : ℕ) (buffer : BitVec 64 × BitVec 64) (first : ℕ → IdProvider)
    (restore : ℕ → Option ℕ) (schedule : List ℕ) : (ℕ → IdProvider) × List (BitVec 64) :=
  fetchAll (startRank P' buffer fun r => (restore r).map fun q => (first q).current) schedule

/-- How states are restored: each on at most one rank, and a rank without one was not used before. -/
structure Restores (P P' : ℕ) (restore : ℕ → Option ℕ) : Prop where
  saved : ∀ r < P', ∀ q, restore r = some q → q < P
  once : ∀ r < P', ∀ r' < P', ∀ q, restore r = some q → restore r' = some q → r = r'
  unused : ∀ r < P', restore r = none → P ≤ r

/-- The rank that began the counter of rank `r`. -/
def lineage (restore : ℕ → Option ℕ) (r : ℕ) : ℕ := (restore r).getD r

/-- **What the ids of a run with `P` ranks should be like.** -/
structure IdsUnique (P : ℕ) : Prop where
  reverse : Function.Involutive (reverseBits : BitVec 64 → BitVec 64)
  start : ∀ r < P, ∀ i < 64 - bitWidth (BitVec.ofNat 64 P - 1), (firstId r).getLsbD i = false
  shift : ∀ curState : IdState, curState.maxNumProc = BitVec.ofNat 64 P → overflowShift curState < 64
  overflown : ∀ curState : IdState, curState.maxNumProc = BitVec.ofNat 64 P →
    ∃ b, isOverflown curState = some b ∧ (b = true ↔ UpperBitsDiffer curState)
  unique : ∀ buffer schedule, (∀ r ∈ schedule, r < P) → (∀ r < P, schedule.count r < 2 ^ 64) →
    (∀ r < P, isOverflown ((firstRun P buffer schedule).1 r).current = some false) →
    (firstRun P buffer schedule).2.Nodup
  /-- A restart with any number of ranks; the ids issued before count. -/
  restart : ∀ buffer schedule P' restore buffer' schedule', 1 ≤ P' → P' < 2 ^ 64 → Restores P P' restore →
    (∀ r ∈ schedule, r < P) → (∀ r ∈ schedule', r < P') →
    (∀ r < P, schedule.count r < 2 ^ 64) →
    (∀ r < P', schedule.count (lineage restore r) + schedule'.count r < 2 ^ 64) →
    (∀ r < P, isOverflown { ((firstRun P buffer schedule).1 r).current with
      maxNumProc := BitVec.ofNat 64 (max P P') } = some false) →
    (∀ r < P', isOverflown ((secondRun P' buffer' (firstRun P buffer schedule).1 restore schedule').1
      r).current = some false) →
    ((firstRun P buffer schedule).2 ++
      (secondRun P' buffer' (firstRun P buffer schedule).1 restore schedule').2).Nodup

section Runs

variable {P P' : ℕ} {buffer buffer' : BitVec 64 × BitVec 64} {restore : ℕ → Option ℕ}
  {schedule schedule' : List ℕ}

theorem toNat_ofNat_of_lt {n : ℕ} (h : n < 2 ^ 64) : (BitVec.ofNat 64 n).toNat = n := by
  rw [BitVec.toNat_ofNat, Nat.mod_eq_of_lt h]

/-- A counter that was asked fewer than `2 ^ 64` times and is not overflown is in its block. -/
theorem count_lt_of_not_isOverflown (hP : 1 ≤ P) (hlt : P < 2 ^ 64) {r k : ℕ} (hr : r < P)
    (hk : k < 2 ^ 64) (h : isOverflown ⟨firstId r + BitVec.ofNat 64 k, firstId r, BitVec.ofNat 64 P⟩ =
      some false) : k < 2 ^ (64 - Nat.size (P - 1)) := by
  have hupper := upper_eq_of_not_isOverflown h
  rw [overflowShift_of_toNat hP (toNat_ofNat_of_lt hlt)] at hupper
  exact lt_two_pow_of_upper_eq (firstId_mod hr) hk hupper

/-- A fresh rank. -/
theorem startRank_none (hP : 1 ≤ P) (hlt : P < 2 ^ 64) {saved : ℕ → Option IdState} {r : ℕ}
    (h : saved r = none) :
    startRank P buffer saved r = ⟨BitVec.ofNat 64 P, firstId r, firstId r, firstId r⟩ := by
  have hpos : (0 : BitVec 64) < BitVec.ofNat 64 P := by
    rw [BitVec.lt_def, toNat_ofNat_of_lt hlt]
    exact hP
  simp only [startRank, h, IdProvider.construct, IdProvider.setStateHost, IdProvider.hostToDevice,
    if_pos hpos, firstId]

/-- A rank with a restored state. -/
theorem startRank_some (hlt : P < 2 ^ 64) (hP' : 1 ≤ P') (hlt' : P' < 2 ^ 64)
    {saved : ℕ → Option IdState} {r : ℕ} {nextId startId : BitVec 64}
    (h : saved r = some ⟨nextId, startId, BitVec.ofNat 64 P⟩) :
    startRank P' buffer saved r = ⟨BitVec.ofNat 64 (max P P'), startId, nextId, nextId⟩ := by
  have hpos : (0 : BitVec 64) < BitVec.ofNat 64 P' := by
    rw [BitVec.lt_def, toNat_ofNat_of_lt hlt']
    exact hP'
  have hmax : (if BitVec.ofNat 64 P' < BitVec.ofNat 64 P then BitVec.ofNat 64 P
      else BitVec.ofNat 64 P') = BitVec.ofNat 64 (max P P') := by
    simp only [BitVec.lt_def, toNat_ofNat_of_lt hlt, toNat_ofNat_of_lt hlt']
    rcases Nat.lt_or_ge P' P with hlt | hge
    · rw [if_pos hlt, max_eq_left hlt.le]
    · rw [if_neg (not_lt.mpr hge), max_eq_right hge]
  simp only [startRank, h, IdProvider.construct, IdProvider.setStateHost, IdProvider.hostToDevice,
    if_pos hpos, hmax]

/-- What a rank of the first run saves. -/
theorem current_firstRun (hP : 1 ≤ P) (hlt : P < 2 ^ 64) (r : ℕ) :
    ((firstRun P buffer schedule).1 r).current =
      ⟨firstId r + BitVec.ofNat 64 (schedule.count r), firstId r, BitVec.ofNat 64 P⟩ := by
  rw [firstRun, fetchAll_fst, startRank_none hP hlt rfl]
  rfl

theorem firstRun_snd (hP : 1 ≤ P) (hlt : P < 2 ^ 64) :
    (firstRun P buffer schedule).2 = handedOut firstId (fun _ => 0) schedule := by
  have hids : (firstRun P buffer schedule).2 = handedOut firstId (fun _ => 0) (schedule.map id) := by
    refine fetchAll_snd (fun r _ r' _ h => h) fun r _ => ?_
    rw [startRank_none hP hlt rfl]
    exact (BitVec.add_zero _).symm
  rwa [List.map_id] at hids

/-- **The ids of one run are distinct.** -/
theorem nodup_firstRun (hP : 1 ≤ P) (hlt : P < 2 ^ 64) (hschedule : ∀ r ∈ schedule, r < P)
    (hcount : ∀ r < P, schedule.count r < 2 ^ 64)
    (h : ∀ r < P, isOverflown ((firstRun P buffer schedule).1 r).current = some false) :
    (firstRun P buffer schedule).2.Nodup := by
  rw [firstRun_snd hP hlt]
  refine nodup_of_lineage hlt hschedule fun r hr => ?_
  have hr' := hschedule r hr
  have hflag := h r hr'
  rw [current_firstRun hP hlt] at hflag
  exact (count_lt_of_not_isOverflown hP hlt hr' (hcount r hr') hflag).le

/-- No two ranks go on with the same counter. -/
theorem Restores.lineage_inj (h : Restores P P' restore) {r r' : ℕ} (hr : r < P') (hr' : r' < P')
    (heq : lineage restore r = lineage restore r') : r = r' := by
  unfold lineage at heq
  cases hq : restore r with
  | none =>
    have hunused := h.unused r hr hq
    cases hq' : restore r' with
    | none => rwa [hq, hq'] at heq
    | some q' =>
      rw [hq, hq', Option.getD_none, Option.getD_some] at heq
      have := h.saved r' hr' q' hq'
      omega
  | some q =>
    have hsaved := h.saved r hr q hq
    cases hq' : restore r' with
    | none =>
      rw [hq, hq', Option.getD_none, Option.getD_some] at heq
      have := h.unused r' hr' hq'
      omega
    | some q' =>
      rw [hq, hq', Option.getD_some, Option.getD_some] at heq
      exact h.once r hr r' hr' q hq (heq ▸ hq')

theorem Restores.lineage_lt (h : Restores P P' restore) {r : ℕ} (hr : r < P') :
    lineage restore r < max P P' := by
  unfold lineage
  cases hq : restore r with
  | none => exact lt_of_lt_of_le hr (le_max_right _ _)
  | some q => exact lt_of_lt_of_le (h.saved r hr q hq) (le_max_left _ _)

/-- **A rank of the second run goes on where its counter was.** -/
theorem startRank_lineage (hP : 1 ≤ P) (hlt : P < 2 ^ 64) (hP' : 1 ≤ P') (hlt' : P' < 2 ^ 64)
    (hrestore : Restores P P' restore) (hschedule : ∀ r ∈ schedule, r < P) {r : ℕ} (hr : r < P') :
    startRank P' buffer' (fun r => (restore r).map fun q =>
        ((firstRun P buffer schedule).1 q).current) r =
      ⟨BitVec.ofNat 64 (max P P'), firstId (lineage restore r),
        firstId (lineage restore r) + BitVec.ofNat 64 (schedule.count (lineage restore r)),
        firstId (lineage restore r) + BitVec.ofNat 64 (schedule.count (lineage restore r))⟩ := by
  unfold lineage
  cases hq : restore r with
  | none =>
    have hunused := hrestore.unused r hr hq
    have hzero : schedule.count r = 0 := List.count_eq_zero.mpr fun hmem => by
      have := hschedule r hmem
      omega
    rw [startRank_none hP' hlt' (by rw [hq]; rfl), Option.getD_none, hzero, max_eq_right (by omega)]
    simp only [BitVec.add_zero]
  | some q =>
    rw [startRank_some hlt hP' hlt' (by rw [hq, Option.map_some, current_firstRun hP hlt]),
      Option.getD_some]

theorem count_map_eq {f : ℕ → ℕ} {l : List ℕ} {r : ℕ} (h : ∀ a ∈ l, f a = f r → a = r) :
    (l.map f).count (f r) = l.count r := by
  induction l with
  | nil => rfl
  | cons a l ih =>
    have hrest := ih fun b hb => h b (List.mem_cons_of_mem a hb)
    rw [List.map_cons]
    rcases eq_or_ne a r with rfl | hne
    · rw [List.count_cons_self, List.count_cons_self, hrest]
    · have hf : f a ≠ f r := fun hf => hne (h a List.mem_cons_self hf)
      rw [List.count_cons_of_ne hf, List.count_cons_of_ne hne, hrest]

/-- **The ids of a run and of a restart are distinct.** -/
theorem nodup_secondRun (hP : 1 ≤ P) (hlt : P < 2 ^ 64) (hP' : 1 ≤ P') (hlt' : P' < 2 ^ 64)
    (hrestore : Restores P P' restore) (hschedule : ∀ r ∈ schedule, r < P)
    (hschedule' : ∀ r ∈ schedule', r < P') (hcount : ∀ r < P, schedule.count r < 2 ^ 64)
    (hcount' : ∀ r < P', schedule.count (lineage restore r) + schedule'.count r < 2 ^ 64)
    (hsaved : ∀ r < P, isOverflown { ((firstRun P buffer schedule).1 r).current with
      maxNumProc := BitVec.ofNat 64 (max P P') } = some false)
    (h : ∀ r < P', isOverflown ((secondRun P' buffer' (firstRun P buffer schedule).1 restore
      schedule').1 r).current = some false) :
    ((firstRun P buffer schedule).2 ++
      (secondRun P' buffer' (firstRun P buffer schedule).1 restore schedule').2).Nodup := by
  have hinj : ∀ r ∈ schedule', ∀ r' ∈ schedule', lineage restore r = lineage restore r' → r = r' :=
    fun r hr r' hr' => hrestore.lineage_inj (hschedule' r hr) (hschedule' r' hr')
  have hids : (secondRun P' buffer' (firstRun P buffer schedule).1 restore schedule').2 =
      handedOut firstId (fun q => 0 + schedule.count q) (schedule'.map (lineage restore)) := by
    refine fetchAll_snd hinj fun r hr => ?_
    rw [startRank_lineage hP hlt hP' hlt' hrestore hschedule (hschedule' r hr), Nat.zero_add]
  rw [firstRun_snd hP hlt, hids, ← handedOut_append]
  have hmax : 1 ≤ max P P' := le_max_of_le_left hP
  have hmaxlt : max P P' < 2 ^ 64 := max_lt hlt hlt'
  refine nodup_of_lineage hmaxlt (fun q hq => ?_) fun q hq => ?_
  · rcases List.mem_append.mp hq with hq | hq
    · exact lt_of_lt_of_le (hschedule q hq) (le_max_left _ _)
    · obtain ⟨r, hr, rfl⟩ := List.mem_map.mp hq
      exact hrestore.lineage_lt (hschedule' r hr)
  · rw [List.count_append]
    by_cases hlineage : ∃ r < P', lineage restore r = q
    · -- the counter goes on in the second run
      obtain ⟨r, hr, rfl⟩ := hlineage
      rw [count_map_eq fun a ha => hrestore.lineage_inj (hschedule' a ha) hr]
      have hflag := h r hr
      rw [secondRun, fetchAll_fst, startRank_lineage hP hlt hP' hlt' hrestore hschedule hr] at hflag
      refine (count_lt_of_not_isOverflown hmax hmaxlt (hrestore.lineage_lt hr) (hcount' r hr) ?_).le
      rw [BitVec.ofNat_add, ← BitVec.add_assoc]
      exact hflag
    · -- it ended with the first one
      have hnone : (schedule'.map (lineage restore)).count q = 0 := List.count_eq_zero.mpr fun hmem => by
        obtain ⟨r, hr, rfl⟩ := List.mem_map.mp hmem
        exact hlineage ⟨r, hschedule' r hr, rfl⟩
      rcases List.mem_append.mp hq with hq | hq
      · have hqP := hschedule q hq
        have hflag := hsaved q hqP
        rw [current_firstRun hP hlt] at hflag
        rw [hnone, Nat.add_zero]
        exact (count_lt_of_not_isOverflown hmax hmaxlt (lt_of_lt_of_le hqP (le_max_left _ _))
          (hcount q hqP) hflag).le
      · obtain ⟨r, hr, rfl⟩ := List.mem_map.mp hq
        exact absurd ⟨r, hschedule' r hr, rfl⟩ hlineage

/-- **When the ids are as they should be**: with two ranks or more.  With one rank the check shifts by
all bits of its operand. -/
theorem idsUnique_iff (hP : 1 ≤ P) (hlt : P < 2 ^ 64) : IdsUnique P ↔ 2 ≤ P := by
  have hshift : ∀ curState : IdState, curState.maxNumProc = BitVec.ofNat 64 P →
      (overflowShift curState < 64 ↔ 2 ≤ P) := fun curState hmax =>
    overflowShift_lt_iff hP (by rw [hmax, toNat_ofNat_of_lt hlt])
  constructor
  · intro h
    exact (hshift ⟨0, 0, BitVec.ofNat 64 P⟩ rfl).mp (h.shift _ rfl)
  · intro htwo
    refine ⟨reverseBits_reverseBits (by decide), fun r hr i hi => ?_,
      fun curState hmax => (hshift curState hmax).mpr htwo,
      fun curState hmax => exists_isOverflown_eq ((hshift curState hmax).mpr htwo), ?_, ?_⟩
    · rw [bitWidth_sub_one hP (toNat_ofNat_of_lt hlt)] at hi
      exact firstId_getLsbD hr hi
    · intro buffer schedule hschedule hcount hflag
      exact nodup_firstRun hP hlt hschedule hcount hflag
    · intro buffer schedule P' restore buffer' schedule' hP' hlt' hrestore hschedule hschedule' hcount
        hcount' hsaved hflag
      exact nodup_secondRun hP hlt hP' hlt' hrestore hschedule hschedule' hcount hcount' hsaved hflag

end Runs

/-- Three ranks. -/
theorem idsUnique_three : IdsUnique 3 := (idsUnique_iff (by decide) (by decide)).mpr (by decide)

/-- A single rank: the check shifts by 64 bits. -/
theorem not_idsUnique_one : ¬ IdsUnique 1 := fun h =>
  absurd ((idsUnique_iff (by decide) (by decide)).mp h) (by decide)

end PmaccParticles
end Spearhed
