import Spearhed.Library.Blocks
import Spearhed.Library.Literals
import Spearhed.PmaccParticles.FrameSlots

/-!
# Traversals of the particles of a supercell

`particles/algorithm/ForEach.hpp`.  The unary traversal goes from frame to frame with all workers of a
block, which share out the slots of each; it derives from the number of particles how many slots of a
frame are live.  The frame-batch traversal gives each group of lanes a frame of its own, and every group
steps over the frames of the others.

* `traverse_forward`, `traverse_reverse`: the calls of one worker.
* `frameBatches_eq`: the frames that a worker's lanes are given, batch by batch.
* `traversals_exact`: both hand out exactly what they should.
-/

namespace Spearhed
namespace PmaccParticles
namespace ForEachParticle

open Library Library.Literals Mappings

/-- The order policies. -/
inductive Order
  | forward
  | reverse

/-- The frames of a list, in that order. -/
def Order.frames : Order → List FramePtr → List FramePtr
  | .forward, l => l
  | .reverse, l => l.reverse

variable {DIM frameSize : ℕ} {A : Type} (box : ParticlesBox DIM frameSize A) (c : DataSpace DIM)

/-- `getFirst`. -/
def getFirst : Order → Option FramePtr
  | .forward => box.getFirstFrame c
  | .reverse => box.getLastFrame c

/-- `next`. -/
def next : Order → FramePtr → Option FramePtr
  | .forward, p => box.getNextFrame p
  | .reverse, p => box.getPreviousFrame p

/-- `getSizeLastFrame`. -/
def getSizeLastFrame : ℕ :=
  if (box.superCells c).numParticles ≠ 0 then ((box.superCells c).numParticles - 1) % frameSize + 1 else 0

/-! ## The unary traversal -/

/-- What the slot loop of a worker does with a frame: it takes a handle for, and calls the functor with,
the slots below the bound.  Such a handle is valid. -/
def frameCalls (slots : List ℕ) (p : FramePtr) (activeSlots : ℕ) : List (FramePtr × ℕ) :=
  (slots.filter fun slot => decide (slot < activeSlots)).map fun slot => (p, slot)

/-- `activeSlots` when a frame is visited. -/
def activeNow (frameSize : ℕ) : Order → ℕ → ℕ → ℕ
  | .forward, remaining, _ => if remaining < frameSize then remaining else frameSize
  | .reverse, _, activeSlots => activeSlots

/-- The loop over the frames, as far as some iterations take it: the calls of a worker.  The number of
remaining particles is a `uint32_t`. -/
def traverse (order : Order) (slots : List ℕ) : ℕ → Option FramePtr → ℕ → ℕ → Option (List (FramePtr × ℕ))
  | _, none, _, _ => some []
  | 0, some _, remaining, _ => if remaining ≠ 0 then none else some []
  | fuel + 1, some p, remaining, activeSlots =>
    if remaining ≠ 0 then
      let activeSlots := activeNow frameSize order remaining activeSlots
      (traverse order slots fuel (next box order p) ((remaining + 2 ^ 32 - activeSlots) % 2 ^ 32)
        frameSize).map (frameCalls slots p activeSlots ++ ·)
    else some []

/-- `operator()` of the unary traversal, for a worker with these slots. -/
def unaryCalls (order : Order) (slots : List ℕ) (fuel : ℕ) : Option (List (FramePtr × ℕ)) :=
  let remaining := (box.superCells c).numParticles
  if remaining = 0 then some []
  else
    let activeSlots := match order with
      | .forward => frameSize
      | .reverse => getSizeLastFrame box c
    traverse box order slots fuel (getFirst box c order) remaining activeSlots

/-! ## The frame-batch traversal -/

/-- The lanes of a worker in a lockstep loop. -/
def lanes (numWorkers domainSize workerIdx : ℕ) : List ℕ :=
  let peeledIterations := domainSize / numWorkers
  let leftOverIndices := domainSize - peeledIterations * numWorkers
  ((List.range peeledIterations).map fun i => i * numWorkers + workerIdx) ++
    if domainSize % numWorkers ≠ 0 ∧ workerIdx < leftOverIndices then
      [peeledIterations * numWorkers + workerIdx] else []

/-- `frameDistance`. -/
def frameDistance (numWorkers frameSize : ℕ) : ℕ := (numWorkers + frameSize - 1) / frameSize

/-- A pointer is moved on, unless it is invalid. -/
def advance (order : Order) : ℕ → Option FramePtr → Option FramePtr
  | 0, ptr => ptr
  | i + 1, ptr => advance order i (ptr.bind (next box order))

/-- The first frame of a lane. -/
def startFrame (order : Order) (distance idx : ℕ) : Option FramePtr :=
  if distance > 1 then advance box order (idx / frameSize) (getFirst box c order)
  else getFirst box c order

/-- The loop over the batches, as far as some iterations take it: what the frame functor gets for the
lanes of a worker. -/
def batchLoop (order : Order) (distance : ℕ) : ℕ → List (ℕ × Option FramePtr) →
    Option (List (List (ℕ × Option FramePtr)))
  | 0, _ => none
  | fuel + 1, framePtrs =>
    let moved := framePtrs.map fun lane => (lane.1, advance box order distance lane.2)
    if moved.any fun lane => lane.2.isSome then (batchLoop order distance fuel moved).map (framePtrs :: ·)
    else some [framePtrs]

/-- `operator()` of the frame-batch traversal, for a worker. -/
def frameBatches (order : Order) (numWorkers workerIdx fuel : ℕ) :
    Option (List (List (ℕ × Option FramePtr))) :=
  if (box.superCells c).numParticles = 0 then some []
  else
    let distance := frameDistance numWorkers frameSize
    batchLoop box order distance fuel
      ((lanes numWorkers (frameSize * distance) workerIdx).map fun idx =>
        (idx, startFrame box c order distance idx))

/-! ## Well-formed supercells -/

/-- The slot holds a particle. -/
def isLive (p : FramePtr) (slot : ℕ) : Bool :=
  if h : slot < frameSize then decide (((box.frames p).slots ⟨slot, h⟩).multiMask ≠ 0) else false

/-- The live slots of some frames. -/
def liveSlots (l : List FramePtr) : List (FramePtr × ℕ) :=
  l.flatMap fun p => ((List.range frameSize).filter (isLive box p)).map fun slot => (p, slot)

/-- A supercell with these frames, from the first to the last. -/
structure WellFormed (fs : List FramePtr) : Prop where
  list : box.ListAt .last c fs
  full : ∀ p ∈ fs.dropLast, ∀ slot < frameSize, isLive box p slot
  last : ∀ p ∈ fs.getLast?, ∃ m, 0 < m ∧ m ≤ frameSize ∧ ∀ slot < frameSize, isLive box p slot ↔ slot < m
  numParticles : (box.superCells c).numParticles = (liveSlots box fs).length
  lt : (box.superCells c).numParticles < 2 ^ 32

/-- **The unary traversal visits the live slots**: the loops of all workers end, every live slot is
visited once and no other slot, and each worker goes through the frames in order. -/
structure VisitsLive (fs : List FramePtr) (order : Order) (numWorkers : ℕ) (slotLoop : ℕ → List ℕ)
    (calls : ℕ → List (FramePtr × ℕ)) : Prop where
  runs : ∀ w < numWorkers, ∀ fuel, fs.length ≤ fuel →
    unaryCalls box c order (slotLoop w) fuel = some (calls w)
  once : ((List.range numWorkers).flatMap calls).Perm (liveSlots box fs)
  ordered : ∀ w < numWorkers,
    calls w = (order.frames fs).flatMap fun p => (calls w).filter fun call => decide (call.1 = p)

/-- A lane is given a frame. -/
structure Handed where
  batch : ℕ
  lane : ℕ
  frame : FramePtr

/-- What the batches of a worker hand out. -/
def handed (batches : List (List (ℕ × Option FramePtr))) : List Handed :=
  (List.range batches.length).flatMap fun k =>
    (batches.getD k []).filterMap fun lane => lane.2.map fun p => ⟨k, lane.1, p⟩

/-- Every frame goes to one group of lanes in one batch. -/
def groupFrames (frameSize distance : ℕ) (l : List FramePtr) : List Handed :=
  l.zipIdx.flatMap fun entry => (List.range frameSize).map fun slot =>
    ⟨entry.2 / distance, entry.2 % distance * frameSize + slot, entry.1⟩

/-- **The frame-batch traversal hands out every frame once**: the loops of all workers end, and every
slot of every frame goes to one virtual worker.  (The static assertion about the number of workers is not
needed for this.) -/
structure HandsOut (fs : List FramePtr) (order : Order) (numWorkers : ℕ)
    (batches : ℕ → List (List (ℕ × Option FramePtr))) : Prop where
  runs : ∀ w < numWorkers, ∀ fuel, fs.length < fuel →
    frameBatches box c order numWorkers w fuel = some (batches w)
  groups : ((List.range numWorkers).flatMap fun w => handed (batches w)).Perm
    (groupFrames frameSize (frameDistance numWorkers frameSize) (order.frames fs))
  pairs : (((List.range numWorkers).flatMap fun w => handed (batches w)).map fun e =>
      (e.frame, e.lane % frameSize)).Perm
    (fs.flatMap fun p => (List.range frameSize).map fun slot => (p, slot))

variable {box c} {fs l : List FramePtr} {p : FramePtr} {order : Order} {slots : List ℕ} {m : ℕ}

/-- **Both policies walk along the list.** -/
theorem WellFormed.walk (h : WellFormed box c fs) (order : Order) :
    Walk (next box order) (getFirst box c order) (order.frames fs) := by
  cases order with
  | forward => exact h.list.forward
  | reverse => exact h.list.backward

/-- The live slots of a frame are a packed beginning, of this length. -/
def Packed (box : ParticlesBox DIM frameSize A) (p : FramePtr) (m : ℕ) : Prop :=
  m ≤ frameSize ∧ ∀ slot < frameSize, isLive box p slot ↔ slot < m

theorem packed_of_full (h : ∀ slot < frameSize, isLive box p slot) : Packed box p frameSize :=
  ⟨le_rfl, fun slot hslot => iff_of_true (h slot hslot) hslot⟩

theorem Packed.filter (h : Packed box p m) (hslots : ∀ slot ∈ slots, slot < frameSize) :
    slots.filter (isLive box p) = slots.filter fun slot => decide (slot < m) :=
  List.filter_congr fun slot hslot => by
    rw [Bool.eq_iff_iff, h.2 slot (hslots slot hslot), decide_eq_true_iff]

theorem liveSlots_append (l l' : List FramePtr) : liveSlots box (l ++ l') = liveSlots box l ++ liveSlots box l' :=
  List.flatMap_append

theorem isLive_congr {box' : ParticlesBox DIM frameSize A} (hp : box'.frames p = box.frames p) : isLive box' p = isLive box p := by
  funext slot
  unfold isLive
  rw [hp]

theorem liveSlots_congr {box' : ParticlesBox DIM frameSize A} (h : ∀ p ∈ l, box'.frames p = box.frames p) :
    liveSlots box' l = liveSlots box l :=
  List.flatMap_congr fun p hp => by rw [isLive_congr (h p hp)]

/-- Only the supercell and its own frames matter. -/
theorem WellFormed.congr {box' : ParticlesBox DIM frameSize A} (h : WellFormed box c fs)
    (hc : box'.superCells c = box.superCells c) (hframes : ∀ p ∈ fs, box'.frames p = box.frames p) :
    WellFormed box' c fs := by
  refine ⟨h.list.congr (fun e => by rw [hc]) fun p hp e => by rw [hframes p hp], fun p hp => ?_, fun p hp => ?_, ?_, ?_⟩
  · rw [isLive_congr (hframes p (List.mem_of_mem_dropLast hp))]
    exact h.full p hp
  · rw [isLive_congr (hframes p (List.mem_of_getLast? hp))]
    exact h.last p hp
  · rw [hc, liveSlots_congr hframes]
    exact h.numParticles
  · rw [hc]
    exact h.lt

/-- The number of live slots of a frame. -/
def numLive (box : ParticlesBox DIM frameSize A) (p : FramePtr) : ℕ :=
  ((List.range frameSize).filter (isLive box p)).length

theorem Packed.numLive_eq (h : Packed box p m) : numLive box p = m := by
  obtain ⟨k, hk⟩ := Nat.exists_eq_add_of_le h.1
  rw [numLive, h.filter fun slot hslot => List.mem_range.mp hslot, hk, List.range_add, List.filter_append,
    List.filter_eq_self.mpr fun slot hslot => decide_eq_true (List.mem_range.mp hslot),
    List.filter_eq_nil_iff.mpr, List.append_nil, List.length_range]
  intro slot hslot
  obtain ⟨i, -, rfl⟩ := List.mem_map.mp hslot
  simp

theorem Packed.length_liveSlots (h : Packed box p m) (l : List FramePtr) :
    (liveSlots box (p :: l)).length = m + (liveSlots box l).length := by
  rw [← h.numLive_eq, liveSlots, List.flatMap_cons, List.length_append, List.length_map]
  rfl

theorem length_liveSlots_of_full (h : ∀ p ∈ l, ∀ slot < frameSize, isLive box p slot) :
    (liveSlots box l).length = l.length * frameSize := by
  induction l with
  | nil => rw [List.length_nil, Nat.zero_mul]; rfl
  | cons p l ih =>
    obtain ⟨hp, hl⟩ := List.forall_mem_cons.mp h
    rw [(packed_of_full hp).length_liveSlots, ih hl, List.length_cons, Nat.succ_mul, Nat.add_comm]

/-- The calls of a worker for a frame. -/
def liveCalls (box : ParticlesBox DIM frameSize A) (slots : List ℕ) (p : FramePtr) : List (FramePtr × ℕ) :=
  (slots.filter (isLive box p)).map fun slot => (p, slot)

/-- One iteration. -/
theorem Packed.traverse {fuel remaining activeSlots : ℕ} (h : Packed box p m)
    (hslots : ∀ slot ∈ slots, slot < frameSize) (hpos : 0 < remaining) (hle : m ≤ remaining)
    (hlt : remaining < 2 ^ 32) (hactive : activeNow frameSize order remaining activeSlots = m) :
    traverse box order slots (fuel + 1) (some p) remaining activeSlots =
      (ForEachParticle.traverse box order slots fuel (next box order p) (remaining - m) frameSize).map
        (liveCalls box slots p ++ ·) := by
  have hsub : (remaining + 2 ^ 32 - m) % 2 ^ 32 = remaining - m := by
    rw [show remaining + 2 ^ 32 - m = remaining - m + 2 ^ 32 by omega, Nat.add_mod_right,
      Nat.mod_eq_of_lt (by omega)]
  rw [ForEachParticle.traverse, if_pos (by omega), hactive]
  dsimp only
  rw [hsub, liveCalls, h.filter hslots]
  rfl

/-- **The loop calls the functor for the live slots**, if the bound it uses is right for every frame. -/
theorem traverse_eq (hslots : ∀ slot ∈ slots, slot < frameSize) {start : Option FramePtr}
    (hwalk : Walk (next box order) start l) {size : FramePtr → ℕ}
    (hpacked : ∀ p ∈ l, Packed box p (size p) ∧ 0 < size p) {activeSlots : ℕ}
    (hactive : ∀ front p back, l = front ++ p :: back →
      activeNow frameSize order (liveSlots box (p :: back)).length
        (if front = [] then activeSlots else frameSize) = size p)
    (hlt : (liveSlots box l).length < 2 ^ 32) {fuel : ℕ} (hfuel : l.length ≤ fuel) :
    traverse box order slots fuel start (liveSlots box l).length activeSlots =
      some (l.flatMap (liveCalls box slots)) := by
  induction l generalizing start fuel activeSlots with
  | nil =>
    rw [walk_nil] at hwalk
    rw [hwalk]
    cases fuel <;> rfl
  | cons p l ih =>
    obtain ⟨rfl, hwalk⟩ := hwalk
    obtain ⟨⟨hp, hpos⟩, hrest⟩ := List.forall_mem_cons.mp hpacked
    obtain ⟨fuel, rfl⟩ := Nat.exists_eq_add_of_le' (show 1 ≤ fuel from (Nat.succ_pos _).trans_le hfuel)
    have hlength := hp.length_liveSlots l
    have hnow := hactive [] p l rfl
    rw [if_pos rfl] at hnow
    rw [hp.traverse hslots (by omega) (by omega) hlt hnow, hlength, Nat.add_sub_cancel_left,
      ih hwalk hrest (fun front q back hl => ?_) (by omega) (Nat.le_of_succ_le_succ hfuel)]
    · rfl
    · have h := hactive (p :: front) q back (by rw [hl, List.cons_append])
      rw [if_neg (List.cons_ne_nil _ _)] at h
      rw [ite_self]
      exact h

/-! ## Well-formed supercells -/

namespace WellFormed

/-- A frame that another one follows is full. -/
theorem packed_of_append (h : WellFormed box c fs) {front back : List FramePtr}
    (hfs : fs = front ++ p :: back) (hback : back ≠ []) : Packed box p frameSize := by
  refine packed_of_full (h.full p ?_)
  rw [hfs, List.dropLast_append_of_ne_nil (List.cons_ne_nil _ _), List.dropLast_cons_of_ne_nil hback]
  exact List.mem_append_right _ List.mem_cons_self

/-- The last frame. -/
theorem packed_last (h : WellFormed box c fs) {front : List FramePtr} (hfs : fs = front ++ [p]) :
    ∃ m, 0 < m ∧ Packed box p m := by
  obtain ⟨m, hpos, hle, hlive⟩ := h.last p (by rw [hfs, List.getLast?_concat]; rfl)
  exact ⟨m, hpos, hle, hlive⟩

theorem frameSize_pos (h : WellFormed box c fs) (hp : p ∈ fs) : 0 < frameSize := by
  have hne : fs ≠ [] := List.ne_nil_of_mem hp
  obtain ⟨m, hpos, hle, -⟩ := h.packed_last (List.dropLast_concat_getLast hne).symm
  exact hpos.trans_le hle

/-- Every frame has a packed beginning. -/
theorem packed (h : WellFormed box c fs) (hp : p ∈ fs) : Packed box p (numLive box p) ∧ 0 < numLive box p := by
  obtain ⟨front, back, hfs⟩ := List.append_of_mem hp
  rcases List.eq_nil_or_concat' back with rfl | ⟨back', q, rfl⟩
  · obtain ⟨m, hpos, hpacked⟩ := h.packed_last hfs
    rw [hpacked.numLive_eq]
    exact ⟨hpacked, hpos⟩
  · have hpacked := h.packed_of_append hfs (by simp)
    rw [hpacked.numLive_eq]
    exact ⟨hpacked, h.frameSize_pos hp⟩

theorem eq_nil_of_numParticles (h : WellFormed box c fs) (hzero : (box.superCells c).numParticles = 0) :
    fs = [] := by
  rcases List.eq_nil_or_concat' fs with hnil | ⟨front, p, hfs⟩
  · exact hnil
  · -- a list with a frame has a live slot
    obtain ⟨hpacked, hpos⟩ := h.packed (p := p) (hfs ▸ List.mem_append_right _ List.mem_cons_self)
    rw [h.numParticles, hfs, liveSlots_append, List.length_append, hpacked.length_liveSlots] at hzero
    omega

/-- The bound from the running remainder. -/
theorem activeNow_forward (h : WellFormed box c fs) {front back : List FramePtr}
    (hfs : fs = front ++ p :: back) (activeSlots : ℕ) :
    activeNow frameSize .forward (liveSlots box (p :: back)).length activeSlots = numLive box p := by
  have hp : p ∈ fs := hfs ▸ List.mem_append_right _ List.mem_cons_self
  have hpacked := (h.packed hp).1
  rw [activeNow, hpacked.length_liveSlots]
  rcases eq_or_ne back [] with rfl | hback
  · have hle := hpacked.1
    show (if numLive box p + 0 < frameSize then numLive box p + 0 else frameSize) = numLive box p
    split <;> omega
  · rw [(h.packed_of_append hfs hback).numLive_eq, if_neg (by omega)]

/-- The size of the last frame from the number of particles. -/
theorem getSizeLastFrame_eq (h : WellFormed box c fs) {front : List FramePtr} (hfs : fs = front ++ [p]) :
    getSizeLastFrame box c = numLive box p := by
  obtain ⟨m, hpos, hpacked⟩ := h.packed_last hfs
  have hfull : ∀ q ∈ front, ∀ slot < frameSize, isLive box q slot := fun q hq =>
    h.full q (by rw [hfs, List.dropLast_concat]; exact hq)
  have hnum : (box.superCells c).numParticles = front.length * frameSize + m := by
    rw [h.numParticles, hfs, liveSlots_append, List.length_append, length_liveSlots_of_full hfull,
      hpacked.length_liveSlots]
    rfl
  have hle := hpacked.1
  rw [hpacked.numLive_eq, getSizeLastFrame, hnum, if_pos (by omega),
    show front.length * frameSize + m - 1 = m - 1 + frameSize * front.length by
      rw [Nat.mul_comm frameSize]; omega,
    Nat.add_mul_mod_self_left, Nat.mod_eq_of_lt (by omega)]
  omega

theorem activeNow_reverse (h : WellFormed box c fs) {front back : List FramePtr}
    (hfs : fs.reverse = front ++ p :: back) (remaining : ℕ) :
    activeNow frameSize .reverse remaining (if front = [] then getSizeLastFrame box c else frameSize) =
      numLive box p := by
  have hfs' : fs = back.reverse ++ p :: front.reverse := by
    rw [← List.reverse_reverse fs, hfs]
    simp
  rw [activeNow]
  split
  · next hfront =>
    rw [hfront] at hfs'
    exact h.getSizeLastFrame_eq hfs'
  · next hfront =>
    exact (h.packed_of_append hfs' (by simpa using hfront)).numLive_eq.symm

/-- **The calls of a worker**: the live ones among its slots, frame by frame. -/
theorem unaryCalls_eq (h : WellFormed box c fs) (order : Order) (hslots : ∀ slot ∈ slots, slot < frameSize)
    {fuel : ℕ} (hfuel : fs.length ≤ fuel) :
    unaryCalls box c order slots fuel = some ((order.frames fs).flatMap (liveCalls box slots)) := by
  have hlt := h.lt
  rw [h.numParticles] at hlt
  unfold unaryCalls
  rw [h.numParticles]
  dsimp only
  split
  · next hzero =>
    obtain rfl := h.eq_nil_of_numParticles (h.numParticles.trans hzero)
    cases order <;> rfl
  · cases order with
    | forward =>
      exact traverse_eq hslots (h.walk .forward) (fun p hp => h.packed hp)
        (fun front p back hfs => h.activeNow_forward hfs _) hlt hfuel
    | reverse =>
      have hlength : (liveSlots box fs.reverse).length = (liveSlots box fs).length :=
        ((List.reverse_perm fs).flatMap_right _).length_eq
      rw [← hlength] at hlt ⊢
      exact traverse_eq hslots (h.walk .reverse) (fun p hp => h.packed (List.mem_reverse.mp hp))
        (fun front p back hfs => h.activeNow_reverse hfs _) hlt (List.length_reverse.trans_le hfuel)

end WellFormed

/-! ## The frames of the lanes -/

/-- Of two positions of a walk, one follows the other. -/
theorem getElem?_bind_next {start : Option FramePtr} (hwalk : Walk (next box order) start l) (j : ℕ) :
    (l[j]?).bind (next box order) = l[j + 1]? := by
  induction l generalizing start j with
  | nil => rfl
  | cons p l ih =>
    obtain ⟨-, hwalk⟩ := hwalk
    cases j with
    | zero =>
      cases l with
      | nil => exact hwalk
      | cons q l => exact hwalk.1
    | succ j => exact ih hwalk j

theorem advance_eq {start : Option FramePtr} (hwalk : Walk (next box order) start l) (i j : ℕ) :
    advance box order i l[j]? = l[j + i]? := by
  induction i generalizing j with
  | zero => rfl
  | succ i ih => rw [advance, getElem?_bind_next hwalk, ih, Nat.add_right_comm, Nat.add_assoc]

theorem start_eq {start : Option FramePtr} (hwalk : Walk (next box order) start l) : start = l[0]? := by
  cases l with
  | nil => exact hwalk
  | cons p l => exact hwalk.1

/-- The frames that lanes see in a batch. -/
def batchAt (l : List FramePtr) (distance : ℕ) (position : ℕ → ℕ) (idxs : List ℕ) (k : ℕ) :
    List (ℕ × Option FramePtr) :=
  idxs.map fun idx => (idx, l[position idx + k * distance]?)

theorem batchAt_advance {start : Option FramePtr} (hwalk : Walk (next box order) start l)
    (distance : ℕ) (position : ℕ → ℕ) (idxs : List ℕ) (k : ℕ) :
    (batchAt l distance position idxs k).map (fun lane => (lane.1, advance box order distance lane.2)) =
      batchAt l distance position idxs (k + 1) := by
  unfold batchAt
  rw [List.map_map]
  refine List.map_congr_left fun idx _ => ?_
  rw [Function.comp_apply, advance_eq hwalk, Nat.succ_mul, Nat.add_assoc]

theorem batchLoop_stop {start : Option FramePtr} (hwalk : Walk (next box order) start l) {distance : ℕ}
    {position : ℕ → ℕ} {idxs : List ℕ} {m k : ℕ}
    (hnone : ¬ ((batchAt l distance position idxs (k + 1)).any fun lane => lane.2.isSome) = true) :
    (∀ fuel, m < fuel → batchLoop box order distance fuel (batchAt l distance position idxs k) =
        some ((List.range 1).map fun i => batchAt l distance position idxs (k + i))) ∧
      ∀ i, 1 ≤ i → ∀ idx ∈ idxs, l[position idx + (k + i) * distance]? = none := by
  refine ⟨fun fuel hfuel => ?_, fun i hi idx hidx => ?_⟩
  · obtain ⟨fuel, rfl⟩ := Nat.exists_eq_add_of_le' (show 1 ≤ fuel by omega)
    rw [batchLoop, batchAt_advance hwalk, if_neg hnone]
    rfl
  · have hnext : l[position idx + (k + 1) * distance]? = none := by
      by_contra hsome
      refine hnone (List.any_eq_true.mpr ⟨_, List.mem_map_of_mem hidx, ?_⟩)
      exact Option.isSome_iff_ne_none.mpr hsome
    rw [List.getElem?_eq_none_iff] at hnext ⊢
    have hle : (k + 1) * distance ≤ (k + i) * distance := Nat.mul_le_mul_right _ (by omega)
    omega

/-- **The loop over the batches** goes on until no lane of the worker has a frame. -/
theorem batchLoop_eq {start : Option FramePtr} (hwalk : Walk (next box order) start l) {distance : ℕ}
    (hdistance : 0 < distance) (position : ℕ → ℕ) (idxs : List ℕ) {m k : ℕ} (hm : l.length ≤ k + m) :
    ∃ n, (∀ fuel, m < fuel → batchLoop box order distance fuel (batchAt l distance position idxs k) =
        some ((List.range n).map fun i => batchAt l distance position idxs (k + i))) ∧
      ∀ i, n ≤ i → ∀ idx ∈ idxs, l[position idx + (k + i) * distance]? = none := by
  induction m generalizing k with
  | zero =>
    refine ⟨1, batchLoop_stop hwalk fun hany => ?_⟩
    obtain ⟨lane, hlane, hsome⟩ := List.any_eq_true.mp hany
    obtain ⟨idx, -, rfl⟩ := List.mem_map.mp hlane
    have hlt : position idx + (k + 1) * distance < l.length := by simpa using hsome
    have hle : k + 1 ≤ (k + 1) * distance := Nat.le_mul_of_pos_right _ hdistance
    omega
  | succ m ih =>
    by_cases hany : ((batchAt l distance position idxs (k + 1)).any fun lane => lane.2.isSome) = true
    · obtain ⟨n, hrun, hnone⟩ := ih (by omega : l.length ≤ k + 1 + m)
      refine ⟨n + 1, fun fuel hfuel => ?_, fun i hi => ?_⟩
      · obtain ⟨fuel, rfl⟩ := Nat.exists_eq_add_of_le' (show 1 ≤ fuel by omega)
        rw [batchLoop, batchAt_advance hwalk, if_pos hany, hrun fuel (by omega), List.range_succ_eq_map,
          List.map_cons, List.map_map, Option.map_some, Nat.add_zero]
        congr 3
        funext i
        rw [Function.comp_apply, Nat.succ_eq_add_one, Nat.add_assoc, Nat.add_comm 1 i]
      · obtain ⟨i, rfl⟩ := Nat.exists_eq_add_of_le' (show 1 ≤ i by omega)
        have h := hnone i (by omega)
        rwa [Nat.add_assoc, Nat.add_comm 1 i] at h
    · exact ⟨1, batchLoop_stop hwalk hany⟩

/-! ## The lanes -/

/-- The lanes of a worker are those with its remainder. -/
theorem mem_lanes {numWorkers domainSize w idx : ℕ} (hw : w < numWorkers) :
    idx ∈ lanes numWorkers domainSize w ↔ idx < domainSize ∧ idx % numWorkers = w := by
  have hdiv := Nat.div_add_mod' domainSize numWorkers
  have hidx := Nat.div_add_mod' idx numWorkers
  have hmod : ∀ i, (i * numWorkers + w) % numWorkers = w := fun i => by
    rw [Nat.add_comm, Nat.add_mul_mod_self_right, Nat.mod_eq_of_lt hw]
  unfold lanes
  dsimp only
  rw [List.mem_append, List.mem_map]
  constructor
  · rintro (⟨i, hi, rfl⟩ | hrest)
    · have hle : (i + 1) * numWorkers ≤ domainSize / numWorkers * numWorkers :=
        Nat.mul_le_mul_right _ (List.mem_range.mp hi)
      rw [Nat.succ_mul] at hle
      exact ⟨by omega, hmod _⟩
    · split at hrest
      · next h =>
        obtain rfl := List.mem_singleton.mp hrest
        exact ⟨by omega, hmod _⟩
      · exact absurd hrest List.not_mem_nil
  · rintro ⟨hlt, rfl⟩
    have hle : idx / numWorkers ≤ domainSize / numWorkers := Nat.div_le_div_right hlt.le
    rcases hle.lt_or_eq with hlt' | heq
    · exact Or.inl ⟨idx / numWorkers, List.mem_range.mpr hlt', hidx⟩
    · right
      rw [heq] at hidx
      rw [if_pos (by omega), List.mem_singleton, hidx]

theorem nodup_lanes (numWorkers domainSize : ℕ) {w : ℕ} (hw : w < numWorkers) :
    (lanes numWorkers domainSize w).Nodup := by
  unfold lanes
  dsimp only
  refine List.nodup_append.mpr ⟨List.nodup_range.map fun i j hij => ?_, ?_, ?_⟩
  · exact Nat.eq_of_mul_eq_mul_right (by omega : 0 < numWorkers) (Nat.add_right_cancel hij)
  · split <;> simp
  · intro a ha b hb hab
    obtain ⟨i, hi, rfl⟩ := List.mem_map.mp ha
    split at hb
    · rw [← hab, List.mem_singleton] at hb
      have hi' := Nat.eq_of_mul_eq_mul_right (by omega : 0 < numWorkers) (Nat.add_right_cancel hb)
      exact absurd (List.mem_range.mp hi) (by omega)
    · exact absurd hb List.not_mem_nil

/-! ## The traversals -/

theorem Order.frames_perm (order : Order) (l : List FramePtr) : (order.frames l).Perm l := by
  cases order with
  | forward => exact List.Perm.refl _
  | reverse => exact List.reverse_perm l

theorem mem_handed {n : ℕ} {distance : ℕ} {position : ℕ → ℕ} {idxs : List ℕ}
    (hnone : ∀ i, n ≤ i → ∀ idx ∈ idxs, l[position idx + i * distance]? = none) {e : Handed} :
    e ∈ handed ((List.range n).map (batchAt l distance position idxs)) ↔
      e.lane ∈ idxs ∧ l[position e.lane + e.batch * distance]? = some e.frame := by
  unfold handed
  simp only [List.length_map, List.length_range, List.mem_flatMap, List.mem_range, List.mem_filterMap]
  constructor
  · rintro ⟨k, hk, lane, hlane, he⟩
    rw [List.getD_eq_getElem?_getD, List.getElem?_map, List.getElem?_range hk] at hlane
    obtain ⟨idx, hidx, rfl⟩ := List.mem_map.mp hlane
    obtain ⟨p, hp, rfl⟩ := Option.map_eq_some_iff.mp he
    exact ⟨hidx, hp⟩
  · rintro ⟨hidx, hframe⟩
    have hk : e.batch < n := by
      by_contra hge
      rw [hnone _ (not_lt.mp hge) _ hidx] at hframe
      cases hframe
    refine ⟨e.batch, hk, (e.lane, some e.frame), ?_, rfl⟩
    rw [List.getD_eq_getElem?_getD, List.getElem?_map, List.getElem?_range hk]
    exact List.mem_map.mpr ⟨e.lane, hidx, by rw [hframe]⟩

theorem nodup_handed {n : ℕ} {distance : ℕ} {position : ℕ → ℕ} {idxs : List ℕ} (hidxs : idxs.Nodup) :
    (handed ((List.range n).map (batchAt l distance position idxs))).Nodup := by
  unfold handed
  rw [List.length_map, List.length_range, List.nodup_flatMap]
  refine ⟨fun k hk => ?_, List.nodup_range.pairwise_of_forall_ne fun k _ k' _ hne e he he' => ?_⟩
  · rw [List.getD_eq_getElem?_getD, List.getElem?_map, List.getElem?_range (List.mem_range.mp hk)]
    have hbatch : (batchAt l distance position idxs k).Nodup :=
      hidxs.map fun idx idx' h => congrArg Prod.fst h
    refine hbatch.filterMap ?_
    rintro ⟨idx, ptr⟩ ⟨idx', ptr'⟩ e he he'
    obtain ⟨p, rfl, rfl⟩ := Option.map_eq_some_iff.mp he
    obtain ⟨p', rfl, he'⟩ := Option.map_eq_some_iff.mp he'
    cases he'
    rfl
  · obtain ⟨lane, -, hlane⟩ := List.mem_filterMap.mp he
    obtain ⟨lane', -, hlane'⟩ := List.mem_filterMap.mp he'
    obtain ⟨p, -, rfl⟩ := Option.map_eq_some_iff.mp hlane
    obtain ⟨p', -, he'⟩ := Option.map_eq_some_iff.mp hlane'
    exact hne (congrArg Handed.batch he').symm

theorem mem_groupFrames {distance : ℕ} (hpos : 0 < frameSize) (hdistance : 0 < distance) {e : Handed} :
    e ∈ groupFrames frameSize distance l ↔
      e.lane < frameSize * distance ∧ l[e.lane / frameSize + e.batch * distance]? = some e.frame := by
  unfold groupFrames
  simp only [List.mem_flatMap, List.mem_map, List.mem_range, List.mem_zipIdx_iff_getElem?]
  constructor
  · rintro ⟨⟨p, j⟩, hj, slot, hslot, rfl⟩
    dsimp only at hj ⊢
    have hgroup : (j % distance * frameSize + slot) / frameSize = j % distance := by
      rw [Nat.add_comm, Nat.add_mul_div_right _ _ hpos, Nat.div_eq_of_lt hslot, Nat.zero_add]
    have hlane : (j % distance + 1) * frameSize ≤ distance * frameSize :=
      Nat.mul_le_mul_right _ (Nat.mod_lt j hdistance)
    rw [Nat.succ_mul] at hlane
    rw [hgroup, Nat.mod_add_div', Nat.mul_comm frameSize]
    exact ⟨by omega, hj⟩
  · rintro ⟨hlane, hframe⟩
    have hgroup : e.lane / frameSize < distance := Nat.div_lt_of_lt_mul hlane
    refine ⟨(e.frame, e.lane / frameSize + e.batch * distance), hframe, e.lane % frameSize,
      Nat.mod_lt _ hpos, ?_⟩
    dsimp only
    rw [Nat.add_mul_div_right _ _ hdistance, Nat.div_eq_of_lt hgroup, Nat.zero_add,
      Nat.add_mul_mod_self_right, Nat.mod_eq_of_lt hgroup, Nat.div_add_mod']

theorem nodup_groupFrames {distance : ℕ} (hpos : 0 < frameSize) :
    (groupFrames frameSize distance l).Nodup := by
  have hzip : l.zipIdx.Nodup := by
    refine List.Nodup.of_map Prod.snd ?_
    rw [List.zipIdx_map_snd]
    exact List.nodup_range'
  unfold groupFrames
  rw [List.nodup_flatMap]
  refine ⟨fun entry _ => List.nodup_range.map fun slot slot' h => ?_,
    hzip.pairwise_of_forall_ne fun entry hentry entry' hentry' hne e he he' => ?_⟩
  · exact Nat.add_left_cancel (congrArg Handed.lane h)
  · obtain ⟨slot, hslot, rfl⟩ := List.mem_map.mp he
    obtain ⟨slot', hslot', heq⟩ := List.mem_map.mp he'
    obtain ⟨p, j⟩ := entry
    obtain ⟨p', j'⟩ := entry'
    have hbatch := congrArg Handed.batch heq
    have hlane := congrArg (fun e => e.lane / frameSize) heq
    have hp := congrArg Handed.frame heq
    dsimp only at hbatch hlane hp
    rw [Nat.add_comm, Nat.add_mul_div_right _ _ hpos, Nat.div_eq_of_lt (List.mem_range.mp hslot'),
      Nat.zero_add, Nat.add_comm, Nat.add_mul_div_right _ _ hpos, Nat.div_eq_of_lt (List.mem_range.mp hslot),
      Nat.zero_add] at hlane
    have hj : j' = j := by
      rw [← Nat.div_add_mod j' distance, ← Nat.div_add_mod j distance, hbatch, hlane]
    exact hne (by rw [hj, hp])

/-- The slots of the frames in groups are those of the frames. -/
theorem map_groupFrames {distance : ℕ} (l : List FramePtr) :
    (groupFrames frameSize distance l).map (fun e => (e.frame, e.lane % frameSize)) =
      l.flatMap fun p => (List.range frameSize).map fun slot => (p, slot) := by
  have hslots : ∀ entry : FramePtr × ℕ, ((List.range frameSize).map fun slot =>
      (⟨entry.2 / distance, entry.2 % distance * frameSize + slot, entry.1⟩ : Handed)).map
        (fun e => (e.frame, e.lane % frameSize)) = (List.range frameSize).map fun slot => (entry.1, slot) := by
    intro entry
    rw [List.map_map]
    refine List.map_congr_left fun slot hslot => ?_
    rw [Function.comp_apply]
    dsimp only
    rw [Nat.add_comm, Nat.add_mul_mod_self_right, Nat.mod_eq_of_lt (List.mem_range.mp hslot)]
  conv_rhs => rw [← List.zipIdx_map_fst 0 l, List.flatMap_map]
  rw [groupFrames, List.map_flatMap]
  exact List.flatMap_congr fun entry _ => hslots entry

namespace WellFormed

/-- **What a worker hands out.** -/
theorem frameBatches_eq (h : WellFormed box c fs) (order : Order) {numWorkers w : ℕ} (hw : w < numWorkers) :
    ∃ n, (∀ fuel, fs.length < fuel → frameBatches box c order numWorkers w fuel =
        some ((List.range n).map (batchAt (order.frames fs) (frameDistance numWorkers frameSize) (· / frameSize)
          (lanes numWorkers (frameSize * frameDistance numWorkers frameSize) w)))) ∧
      ∀ i, n ≤ i → ∀ idx ∈ lanes numWorkers (frameSize * frameDistance numWorkers frameSize) w,
        (order.frames fs)[idx / frameSize + i * frameDistance numWorkers frameSize]? = none := by
  unfold frameBatches
  split
  · next hzero =>
    obtain rfl := h.eq_nil_of_numParticles hzero
    refine ⟨0, fun fuel _ => rfl, fun i _ idx _ => ?_⟩
    cases order <;> rfl
  · next hne =>
    have hpos : 0 < frameSize := by
      rcases List.eq_nil_or_concat' fs with rfl | ⟨front, p, rfl⟩
      · exact absurd h.numParticles hne
      · exact h.frameSize_pos (List.mem_append_right _ List.mem_cons_self)
    have hdistance : 0 < frameDistance numWorkers frameSize := Nat.div_pos (by omega) hpos
    have hwalk := h.walk order
    have hlength : (order.frames fs).length = fs.length := (order.frames_perm fs).length_eq
    have hstart : ∀ idx ∈ lanes numWorkers (frameSize * frameDistance numWorkers frameSize) w,
        startFrame box c order (frameDistance numWorkers frameSize) idx =
          (order.frames fs)[idx / frameSize + 0 * frameDistance numWorkers frameSize]? := by
      intro idx hidx
      rw [Nat.zero_mul, Nat.add_zero, startFrame, start_eq hwalk]
      split
      · rw [advance_eq hwalk, Nat.zero_add]
      · -- with a single group, all lanes start at the first frame
        have hone : frameDistance numWorkers frameSize = 1 := by omega
        have hlt := ((mem_lanes hw).mp hidx).1
        rw [hone, Nat.mul_one] at hlt
        rw [Nat.div_eq_of_lt hlt]
    obtain ⟨n, hrun, hnone⟩ := batchLoop_eq hwalk hdistance (· / frameSize)
      (lanes numWorkers (frameSize * frameDistance numWorkers frameSize) w)
      (show (order.frames fs).length ≤ 0 + fs.length by omega)
    refine ⟨n, fun fuel hfuel => ?_, fun i hi => by simpa using hnone i hi⟩
    have hfirst := hrun fuel hfuel
    rw [batchAt, ← List.map_congr_left fun idx hidx => by rw [← hstart idx hidx]] at hfirst
    simpa using hfirst

end WellFormed

/-- The live slots, as the workers share them out. -/
theorem flatMap_liveCalls_perm (box : ParticlesBox DIM frameSize A) (l : List FramePtr) {numWorkers : ℕ}
    {slotLoop : ℕ → List ℕ}
    (hslots : ((List.range numWorkers).flatMap slotLoop).Perm (List.range frameSize)) :
    ((List.range numWorkers).flatMap fun w => l.flatMap (liveCalls box (slotLoop w))).Perm
      (liveSlots box l) := by
  refine (flatMap_flatMap_perm (List.range numWorkers) l fun w p => liveCalls box (slotLoop w) p).trans ?_
  refine List.Perm.flatMap_left l fun p _ => ?_
  have hshare : ((List.range numWorkers).flatMap fun w => liveCalls box (slotLoop w) p) =
      liveCalls box ((List.range numWorkers).flatMap slotLoop) p := by
    unfold liveCalls
    rw [List.filter_flatMap, List.map_flatMap]
  rw [hshare]
  exact (hslots.filter _).map _

/-- The calls of a worker come frame by frame. -/
theorem liveCalls_ordered {l : List FramePtr} (hl : l.Nodup) (slots : List ℕ) :
    l.flatMap (liveCalls box slots) = l.flatMap fun p =>
      (l.flatMap (liveCalls box slots)).filter fun call => decide (call.1 = p) := by
  refine List.flatMap_congr fun p hp => ?_
  have hkey : ∀ q ∈ l, ∀ call ∈ liveCalls box slots q, call.1 = q := by
    intro q _ call hcall
    obtain ⟨slot, -, rfl⟩ := List.mem_map.mp hcall
    rfl
  rw [filter_flatMap_key hkey, filter_eq_singleton hl hp, List.flatMap_singleton]

/-- The frames in groups, as the workers share them out. -/
theorem flatMap_handed_perm {numWorkers distance : ℕ} {n : ℕ → ℕ}
    (hnone : ∀ w < numWorkers, ∀ i, n w ≤ i → ∀ idx ∈ lanes numWorkers (frameSize * distance) w,
      l[idx / frameSize + i * distance]? = none)
    (hpos : l ≠ [] → 0 < frameSize ∧ 0 < distance) (hworkers : 0 < numWorkers) :
    ((List.range numWorkers).flatMap fun w => handed ((List.range (n w)).map (batchAt l distance
      (· / frameSize) (lanes numWorkers (frameSize * distance) w)))).Perm
      (groupFrames frameSize distance l) := by
  have hmem : ∀ e, (e ∈ (List.range numWorkers).flatMap fun w => handed ((List.range (n w)).map (batchAt l
      distance (· / frameSize) (lanes numWorkers (frameSize * distance) w)))) ↔
      e.lane < frameSize * distance ∧ l[e.lane / frameSize + e.batch * distance]? = some e.frame := by
    intro e
    rw [List.mem_flatMap]
    constructor
    · rintro ⟨w, hw, he⟩
      have hw' := List.mem_range.mp hw
      obtain ⟨hlane, hframe⟩ := (mem_handed (hnone w hw')).mp he
      exact ⟨((mem_lanes hw').mp hlane).1, hframe⟩
    · rintro ⟨hlane, hframe⟩
      have hw : e.lane % numWorkers < numWorkers := Nat.mod_lt _ hworkers
      exact ⟨_, List.mem_range.mpr hw, (mem_handed (hnone _ hw)).mpr
        ⟨(mem_lanes hw).mpr ⟨hlane, rfl⟩, hframe⟩⟩
  rcases eq_or_ne l [] with rfl | hne
  · refine List.Perm.of_eq (List.eq_nil_iff_forall_not_mem.mpr fun e he => ?_)
    cases ((hmem e).mp he).2
  · obtain ⟨hsize, hdistance⟩ := hpos hne
    refine (List.perm_ext_iff_of_nodup ?_ (nodup_groupFrames hsize)).mpr fun e => ?_
    · rw [List.nodup_flatMap]
      refine ⟨fun w hw => nodup_handed (nodup_lanes _ _ (List.mem_range.mp hw)),
        List.nodup_range.pairwise_of_forall_ne fun w hw w' hw' hne e he he' => hne ?_⟩
      -- a lane has one worker
      have hlane := ((mem_handed (hnone w (List.mem_range.mp hw))).mp he).1
      have hlane' := ((mem_handed (hnone w' (List.mem_range.mp hw'))).mp he').1
      rw [← ((mem_lanes (List.mem_range.mp hw)).mp hlane).2,
        ← ((mem_lanes (List.mem_range.mp hw')).mp hlane').2]
    · rw [hmem, mem_groupFrames hsize hdistance]

/-- **Both traversals hand out exactly what they should**: the unary one the live slots, and the
frame-batch one every frame. -/
theorem traversals_exact (h : WellFormed box c fs) (order : Order) (numWorkers : ℕ) {slotLoop : ℕ → List ℕ}
    (hslots : ((List.range numWorkers).flatMap slotLoop).Perm (List.range frameSize)) :
    (∃ calls, VisitsLive box c fs order numWorkers slotLoop calls) ∧
      (0 < numWorkers → ∃ batches, HandsOut box c fs order numWorkers batches) := by
  have hnodup : (order.frames fs).Nodup := (h.walk order).nodup
  constructor
  · refine ⟨fun w => (order.frames fs).flatMap (liveCalls box (slotLoop w)), fun w hw fuel hfuel => ?_, ?_,
      fun w _ => liveCalls_ordered hnodup (slotLoop w)⟩
    · refine h.unaryCalls_eq order (fun slot hslot => ?_) hfuel
      exact List.mem_range.mp (hslots.mem_iff.mp
        (List.mem_flatMap.mpr ⟨w, List.mem_range.mpr hw, hslot⟩))
    · exact (flatMap_liveCalls_perm box _ hslots).trans ((order.frames_perm fs).flatMap_right _)
  · intro hworkers
    choose! n hrun hnone using fun w (hw : w < numWorkers) => h.frameBatches_eq order hw
    have hpos : order.frames fs ≠ [] → 0 < frameSize ∧ 0 < frameDistance numWorkers frameSize := by
      intro hne
      obtain ⟨p, hp⟩ := List.exists_mem_of_ne_nil _ hne
      have hsize := h.frameSize_pos ((order.frames_perm fs).mem_iff.mp hp)
      exact ⟨hsize, Nat.div_pos (by omega) hsize⟩
    have hgroups := flatMap_handed_perm hnone hpos hworkers
    refine ⟨_, fun w hw fuel hfuel => hrun w hw fuel hfuel, hgroups, ?_⟩
    have hpairs := hgroups.map fun e => (e.frame, e.lane % frameSize)
    rw [map_groupFrames] at hpairs
    exact hpairs.trans ((order.frames_perm fs).flatMap_right _)

/-- Frames for two particles, and a supercell with three. -/
def threeBox : ParticlesBox 1 2 Unit where
  frames p := if p = 0 then ⟨fun _ => ⟨1, ()⟩, none, some 1⟩ else ⟨fun i => ⟨if i = 0 then 1 else 0, ()⟩, some 0, none⟩
  allocated := {0, 1}
  superCells _ := ⟨some 0, some 1, 3, false⟩

theorem threeBox_wellFormed : WellFormed threeBox 0 [0, 1] where
  list := by
    refine ⟨by decide, rfl, rfl, fun front p back h => ?_, fun front p back h => ?_⟩
    all_goals
      rcases front with _ | ⟨a, _ | ⟨b, front⟩⟩
      · obtain ⟨rfl, rfl⟩ := List.cons.inj h
        rfl
      · obtain ⟨rfl, rfl⟩ := List.cons.inj (List.cons.inj h).2
        obtain rfl := (List.cons.inj h).1
        rfl
      · simp at h
  full p hp := by
    obtain rfl := List.mem_singleton.mp hp
    decide
  last p hp := by
    obtain rfl : 1 = p := Option.some.inj hp
    exact ⟨1, by omega, by omega, by decide⟩
  numParticles := rfl
  lt := by decide

/-- Its particles, with two workers from the last frame on. -/
theorem traversals_exact_three : liveSlots threeBox [0, 1] = [(0, 0), (0, 1), (1, 0)] ∧
    (∃ calls, VisitsLive threeBox 0 [0, 1] .reverse 2 (fun w => [w]) calls) ∧
      (0 < 2 → ∃ batches, HandsOut threeBox 0 [0, 1] .reverse 2 batches) :=
  ⟨by decide, traversals_exact threeBox_wellFormed .reverse 2 (List.Perm.refl _)⟩

end ForEachParticle
end PmaccParticles
end Spearhed
