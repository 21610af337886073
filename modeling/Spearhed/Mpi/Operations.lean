import Mathlib.Algebra.Order.BigOperators.Group.List
import Mathlib.Data.Int.ConditionallyCompleteOrder
import Mathlib.Tactic
import Mathlib.Order.CompletePartialOrder

/-!
# Starting collectives

`mpi/operations.cpp`.  Before a collective is handed to MPI its buffers, its root and its layout are
checked; a call that MPI must not see is refused with an exception.

A function is modelled up to its MPI call: the result is the exception or the call, with the
arguments that MPI gets, and `resultBytes`.  What the communicator queries answer is left open.

* `buffersOverlap_iff`: the overlap check.
* `Legal`: what MPI demands of a call on one rank, and what `resultBytes` should be.
* `onlyLegal_iff`: every call is legal, except for a variable gather whose layout writes a byte twice.
-/

namespace Spearhed
namespace Mpi
namespace Operations

/-- The bytes of a `std::span`, which do not wrap around. -/
structure ByteSpan where
  data : ℕ
  sizeBytes : ℕ
  fits : data + sizeBytes < 2 ^ 64

/-- The addresses of a span. -/
def ByteSpan.bytes (b : ByteSpan) : Set ℕ := Set.Ico b.data (b.data + b.sizeBytes)

/-- `Peer`. -/
structure Peer where
  value : ℤ
  any : Bool
  deriving DecidableEq

/-- `ScalarType`; an enumeration may hold a value without a name. -/
inductive ScalarType
  | int32
  | uint32
  | int64
  | uint64
  | float32
  | float64
  | unnamed (value : ℕ)
  deriving DecidableEq

/-- `ReduceOperation`. -/
inductive ReduceOperation
  | sum
  | minimum
  | maximum
  | product
  deriving DecidableEq

/-- `std::invalid_argument`, or the error of an MPI function. -/
inductive StartError
  | invalidArgument (what : String)
  | mpiError (operation : String) (code : ℤ)
  deriving DecidableEq

/-- What `MPI_Comm_rank` and `MPI_Comm_size` answer: an error code, or an `int`. -/
structure Communicator where
  rank : Except ℤ ℤ
  size : Except ℤ ℤ
  size_lt : ∀ n, size = .ok n → n < 2 ^ 31

/-- The first argument of `MPI_Iallreduce`. -/
inductive SendBuffer
  | inPlace
  | data (address : ℕ)
  deriving DecidableEq

/-- The calls, with the arguments that say what is read and written.  Gathers count bytes. -/
inductive MpiCall
  | iallreduce (sendBuffer : SendBuffer) (recvBuffer : ℕ) (count : ℤ) (type : ScalarType)
      (operation : ReduceOperation)
  | ireduce (sendBuffer recvBuffer : ℕ) (count : ℤ) (type : ScalarType) (operation : ReduceOperation)
      (root : ℤ)
  | igather (sendBuffer : ℕ) (sendCount : ℤ) (recvBuffer : ℕ) (recvCount : ℤ) (root : ℤ)
  | iallgather (sendBuffer : ℕ) (sendCount : ℤ) (recvBuffer : ℕ) (recvCount : ℤ)
  | igatherv (sendBuffer : ℕ) (sendCount : ℤ) (recvBuffer : ℕ) (recvCounts displacements : List ℤ)
      (root : ℤ)

/-! ## The checks -/

/-- `INT_MAX`. -/
def intMax : ℕ := 2 ^ 31 - 1

/-- `static_cast<int>`. -/
def castInt (n : ℕ) : ℤ := (n : ℤ).bmod (2 ^ 32)

/-- `validBuffer`. -/
def validBuffer (b : ByteSpan) : Bool := decide (b.sizeBytes ≤ intMax)

/-- `buffersOverlap`. -/
def buffersOverlap (input output : ByteSpan) : Bool :=
  if input.sizeBytes = 0 ∨ output.sizeBytes = 0 then false
  else if input.data ≤ output.data then decide (output.data - input.data < input.sizeBytes)
  else decide (input.data - output.data < output.sizeBytes)

/-- `scalarSize`. -/
def scalarSize : ScalarType → ℕ
  | .int32 | .uint32 | .float32 => 4
  | .int64 | .uint64 | .float64 => 8
  | .unnamed _ => 0

/-- A communicator query, whose failure is reported with this text. -/
def query (answer : Except ℤ ℤ) (what : String) : Except StartError ℤ :=
  answer.mapError (.mpiError what)

/-- `startAllReduce`. -/
def startAllReduce (input output : ByteSpan) (type : ScalarType) (operation : ReduceOperation) :
    Except StartError MpiCall :=
  let elementBytes := scalarSize type
  if elementBytes = 0 ∨ ¬ validBuffer input ∨ ¬ validBuffer output ∨
      input.sizeBytes % elementBytes ≠ 0 ∨ output.sizeBytes < input.sizeBytes ∨
      (input.data ≠ output.data ∧ buffersOverlap input output) then
    .error (.invalidArgument "Invalid Caravan MPI all-reduce")
  else
    let elements := input.sizeBytes / elementBytes
    let sendBuffer := if input.data = output.data then .inPlace else .data input.data
    .ok (.iallreduce sendBuffer output.data (castInt elements) type operation)

/-- `startReduce`. -/
def startReduce (comm : Communicator) (input output : ByteSpan) (type : ScalarType)
    (operation : ReduceOperation) (root : Peer) : Except StartError MpiCall :=
  let elementBytes := scalarSize type
  if elementBytes = 0 ∨ ¬ validBuffer input ∨ input.sizeBytes % elementBytes ≠ 0 ∨ root.any ∨
      root.value < 0 then
    .error (.invalidArgument "Invalid Caravan MPI reduce")
  else
    let elements := input.sizeBytes / elementBytes
    match query comm.rank "MPI reduce communicator query" with
    | .error e => .error e
    | .ok rank =>
      if rank = root.value ∧ (¬ validBuffer output ∨ output.sizeBytes < input.sizeBytes ∨
          buffersOverlap input output) then
        .error (.invalidArgument "Invalid Caravan MPI reduce output")
      else .ok (.ireduce input.data output.data (castInt elements) type operation root.value)

/-- `input.value.size_bytes() > output.value.size_bytes() / static_cast<std::size_t>(size)`, with the
test of the size before it. -/
def outputTooSmall (size : ℤ) (input output : ByteSpan) : Prop :=
  size ≤ 0 ∨ input.sizeBytes > output.sizeBytes / size.toNat

instance (size : ℤ) (input output : ByteSpan) : Decidable (outputTooSmall size input output) :=
  inferInstanceAs (Decidable (_ ∨ _))

/-- `startGather`. -/
def startGather (comm : Communicator) (input output : ByteSpan) (root : Peer) (resultBytes : ℕ) :
    Except StartError (MpiCall × ℕ) :=
  if ¬ validBuffer input ∨ ¬ validBuffer output ∨ buffersOverlap input output ∨ root.any ∨
      root.value < 0 then
    .error (.invalidArgument "Invalid Caravan MPI gather")
  else
    match query comm.rank "MPI gather communicator query" with
    | .error e => .error e
    | .ok rank =>
      match query comm.size "MPI gather communicator query" with
      | .error e => .error e
      | .ok size =>
        let call := .igather input.data (castInt input.sizeBytes) output.data
          (castInt input.sizeBytes) root.value
        if rank = root.value then
          if outputTooSmall size input output then
            .error (.invalidArgument "Caravan MPI gather output is too small")
          else .ok (call, input.sizeBytes * size.toNat % 2 ^ 64)
        else .ok (call, resultBytes)

/-- `startAllGather`. -/
def startAllGather (comm : Communicator) (input output : ByteSpan) : Except StartError (MpiCall × ℕ) :=
  if ¬ validBuffer input ∨ ¬ validBuffer output ∨ buffersOverlap input output then
    .error (.invalidArgument "Invalid Caravan MPI all-gather")
  else
    match query comm.size "MPI all-gather communicator query" with
    | .error e => .error e
    | .ok size =>
      if outputTooSmall size input output then
        .error (.invalidArgument "Caravan MPI all-gather output is too small")
      else
        .ok (.iallgather input.data (castInt input.sizeBytes) output.data (castInt input.sizeBytes),
          input.sizeBytes * size.toNat % 2 ^ 64)

/-- The loop of `startGatherV` on the root: the end of every range is checked, and `resultBytes` adds
up the counts. -/
def checkLayout (output : ByteSpan) : List (ℕ × ℕ) → ℕ → Except StartError ℕ
  | [], resultBytes => .ok resultBytes
  | (offset, count) :: layout, resultBytes =>
    if (offset + count) % 2 ^ 64 > output.sizeBytes then
      .error (.invalidArgument "Caravan MPI variable gather output is too small")
    else checkLayout output layout ((resultBytes + count) % 2 ^ 64)

/-- `startGatherV`.  The counts and offsets that are kept as `int` are not negative, so casting them
back gives what they were. -/
def startGatherV (comm : Communicator) (input output : ByteSpan) (receiveBytes displacements : List ℕ)
    (root : Peer) (resultBytes : ℕ) : Except StartError (MpiCall × ℕ) :=
  if ¬ validBuffer input ∨ ¬ validBuffer output ∨ buffersOverlap input output ∨
      receiveBytes.length ≠ displacements.length ∨ root.any ∨ root.value < 0 then
    .error (.invalidArgument "Invalid Caravan MPI variable gather")
  else if (receiveBytes.zip displacements).any fun entry =>
      decide (entry.1 > intMax ∨ entry.2 > intMax) then
    .error (.invalidArgument "Invalid Caravan MPI variable gather layout")
  else
    let counts := receiveBytes.map castInt
    let offsets := displacements.map castInt
    let call := .igatherv input.data (castInt input.sizeBytes) output.data counts offsets root.value
    match query comm.rank "MPI variable gather communicator query" with
    | .error e => .error e
    | .ok rank =>
      match query comm.size "MPI variable gather communicator query" with
      | .error e => .error e
      | .ok size =>
        if rank = root.value then
          if size ≤ 0 ∨ counts.length ≠ size.toNat then
            .error (.invalidArgument "Invalid Caravan MPI variable gather rank count")
          else
            match checkLayout output ((offsets.map Int.toNat).zip (counts.map Int.toNat))
                resultBytes with
            | .error e => .error e
            | .ok resultBytes => .ok (call, resultBytes)
        else .ok (call, resultBytes)

/-! ## What MPI demands -/

/-- A collective as it is requested. -/
inductive Request
  | allReduce (type : ScalarType) (operation : ReduceOperation)
  | reduce (type : ScalarType) (operation : ReduceOperation) (root : Peer)
  | gather (root : Peer)
  | allGather
  | gatherV (receiveBytes displacements : List ℕ) (root : Peer)

/-- Starting a request on a rank.  `resultBytes` is zero before, and the reductions have none. -/
def start (comm : Communicator) (input output : ByteSpan) : Request → Except StartError (MpiCall × ℕ)
  | .allReduce type operation => (startAllReduce input output type operation).map (·, 0)
  | .reduce type operation root => (startReduce comm input output type operation root).map (·, 0)
  | .gather root => startGather comm input output root 0
  | .allGather => startAllGather comm input output
  | .gatherV receiveBytes displacements root =>
    startGatherV comm input output receiveBytes displacements root 0

/-- This rank receives: it is the root, or every rank does. -/
def Request.Receives (comm : Communicator) : Request → Prop
  | .allReduce _ _ | .allGather => True
  | .reduce _ _ root | .gather root | .gatherV _ _ root => comm.rank = .ok root.value

/-- Where the results of the ranks go: an offset into the receive buffer, and a length, in bytes. -/
def MpiCall.receiveRanges (size : ℤ) : MpiCall → List (ℤ × ℤ)
  | .iallreduce _ _ count type _ | .ireduce _ _ count type _ _ => [(0, count * scalarSize type)]
  | .igather _ _ _ recvCount _ | .iallgather _ _ _ recvCount =>
    (List.range size.toNat).map fun rank : ℕ => (rank * recvCount, recvCount)
  | .igatherv _ _ _ recvCounts displacements _ => displacements.zip recvCounts

/-- The bytes of a range. -/
def rangeBytes (range : ℤ × ℤ) : Finset ℤ :=
  (Finset.range range.2.toNat).image fun i : ℕ => range.1 + i

/-- All bytes that are written. -/
def writtenBytes : List (ℤ × ℤ) → Finset ℤ
  | [] => ∅
  | range :: ranges => rangeBytes range ∪ writtenBytes ranges

/-- The call that a request stands for, with counts and displacements as they are meant. -/
def Request.intended (input output : ByteSpan) : Request → MpiCall
  | .allReduce type operation =>
    .iallreduce (if input.data = output.data then .inPlace else .data input.data) output.data
      ((input.sizeBytes / scalarSize type : ℕ) : ℤ) type operation
  | .reduce type operation root =>
    .ireduce input.data output.data ((input.sizeBytes / scalarSize type : ℕ) : ℤ) type operation
      root.value
  | .gather root => .igather input.data input.sizeBytes output.data input.sizeBytes root.value
  | .allGather => .iallgather input.data input.sizeBytes output.data input.sizeBytes
  | .gatherV receiveBytes displacements root =>
    .igatherv input.data input.sizeBytes output.data (receiveBytes.map Nat.cast)
      (displacements.map Nat.cast) root.value

/-- The counts and displacements of a call. -/
def MpiCall.counts : MpiCall → List ℤ
  | .iallreduce _ _ count _ _ | .ireduce _ _ count _ _ _ => [count]
  | .igather _ sendCount _ recvCount _ | .iallgather _ sendCount _ recvCount => [sendCount, recvCount]
  | .igatherv _ sendCount _ recvCounts displacements _ => sendCount :: (recvCounts ++ displacements)

/-- `MPI_IN_PLACE` is passed. -/
def MpiCall.InPlace : MpiCall → Prop
  | .iallreduce .inPlace _ _ _ _ => True
  | _ => False

instance (comm : Communicator) : DecidablePred (Request.Receives comm)
  | .allReduce _ _ | .allGather => inferInstanceAs (Decidable True)
  | .reduce _ _ root | .gather root | .gatherV _ _ root =>
    inferInstanceAs (Decidable (comm.rank = .ok root.value))

/-- The bytes of the output that are written on this rank: none where it does not receive. -/
def Request.written (comm : Communicator) (request : Request) (call : MpiCall) (size : ℤ) : Finset ℤ :=
  if request.Receives comm then writtenBytes (call.receiveRanges size) else ∅

/-- The request reports the number of bytes received. -/
def Request.ReportsBytes : Request → Prop
  | .allReduce _ _ | .reduce _ _ _ => False
  | _ => True

/-- **A call that MPI may see**, and a correct `resultBytes`. -/
structure Legal (comm : Communicator) (input output : ByteSpan) (request : Request) (call : MpiCall)
    (resultBytes : ℕ) : Prop where
  intended : call = request.intended input output
  counts : ∀ c ∈ call.counts, 0 ≤ c ∧ c ≤ intMax
  disjoint : request.Receives comm → call.InPlace ∧ input.data = output.data ∨
    Disjoint input.bytes output.bytes
  inside : request.Receives comm → ∀ size, comm.size = .ok size →
    ∀ range ∈ call.receiveRanges size, 0 ≤ range.1 ∧ range.1 + range.2 ≤ output.sizeBytes
  apart : request.Receives comm → ∀ size, comm.size = .ok size →
    (call.receiveRanges size).Pairwise fun a b => Disjoint (rangeBytes a) (rangeBytes b)
  result : request.ReportsBytes → ∀ size, comm.size = .ok size →
    resultBytes = (request.written comm call size).card ∧ resultBytes ≤ output.sizeBytes

/-- **Only legal calls reach MPI.** -/
def OnlyLegal (comm : Communicator) (input output : ByteSpan) (request : Request) : Prop :=
  ∀ call resultBytes, start comm input output request = .ok (call, resultBytes) →
    Legal comm input output request call resultBytes

/-- What `startGatherV` checks on its root.  The receive ranges are not compared with each other. -/
structure AcceptsLayout (comm : Communicator) (input output : ByteSpan)
    (receiveBytes displacements : List ℕ) (root : Peer) : Prop where
  validInput : validBuffer input
  validOutput : validBuffer output
  noOverlap : ¬ buffersOverlap input output
  lengths : receiveBytes.length = displacements.length
  validRoot : ¬ root.any ∧ 0 ≤ root.value
  entries : ∀ entry ∈ receiveBytes.zip displacements, entry.1 ≤ intMax ∧ entry.2 ≤ intMax
  isRoot : comm.rank = .ok root.value
  rankCount : comm.size = .ok (receiveBytes.length : ℤ) ∧ 0 < receiveBytes.length
  ends : ∀ entry ∈ receiveBytes.zip displacements, entry.2 + entry.1 ≤ output.sizeBytes

/-- **No accepted layout writes a byte twice.** -/
def Request.LayoutApart (comm : Communicator) (input output : ByteSpan) : Request → Prop
  | .gatherV receiveBytes displacements root =>
    AcceptsLayout comm input output receiveBytes displacements root →
      ((displacements.map Nat.cast).zip (receiveBytes.map Nat.cast)).Pairwise fun a b : ℤ × ℤ =>
        Disjoint (rangeBytes a) (rangeBytes b)
  | _ => True

/-! ## The overlap check -/

theorem mem_bytes {b : ByteSpan} {a : ℕ} : a ∈ b.bytes ↔ b.data ≤ a ∧ a < b.data + b.sizeBytes := Iff.rfl

/-- **The check finds exactly the spans that share a byte.** -/
theorem buffersOverlap_iff {input output : ByteSpan} :
    buffersOverlap input output = true ↔
      (0 < input.sizeBytes ∧ 0 < output.sizeBytes) ∧ ∃ a, a ∈ input.bytes ∧ a ∈ output.bytes := by
  simp only [mem_bytes]
  unfold buffersOverlap
  split
  · next hempty => exact iff_of_false Bool.false_ne_true fun h => by omega
  · next hne =>
    split
    · next hle =>
      rw [decide_eq_true_iff]
      refine ⟨fun h => ⟨by omega, output.data, by omega, by omega⟩, ?_⟩
      rintro ⟨-, a, ha, ha'⟩
      omega
    · next hgt =>
      rw [decide_eq_true_iff]
      refine ⟨fun h => ⟨by omega, input.data, by omega, by omega⟩, ?_⟩
      rintro ⟨-, a, ha, ha'⟩
      omega

theorem disjoint_of_not_overlap {input output : ByteSpan} (h : ¬ buffersOverlap input output = true) :
    Disjoint input.bytes output.bytes := by
  rw [Set.disjoint_left]
  intro a ha ha'
  have hin := mem_bytes.mp ha
  have hout := mem_bytes.mp ha'
  exact h (buffersOverlap_iff.mpr ⟨by omega, a, ha, ha'⟩)

/-! ## Counts and ranges -/

theorem castInt_of_le {n : ℕ} (h : n ≤ intMax) : castInt n = n := by
  unfold intMax at h
  exact Int.bmod_eq_of_le (by omega) (by omega)

theorem mem_rangeBytes {range : ℤ × ℤ} {x : ℤ} :
    x ∈ rangeBytes range ↔ range.1 ≤ x ∧ x < range.1 + range.2 := by
  simp only [rangeBytes, Finset.mem_image, Finset.mem_range]
  constructor
  · rintro ⟨i, hi, rfl⟩
    omega
  · intro h
    exact ⟨(x - range.1).toNat, by omega, by omega⟩

theorem card_rangeBytes (range : ℤ × ℤ) : (rangeBytes range).card = range.2.toNat := by
  rw [rangeBytes, Finset.card_image_of_injective _ fun i j hij => by simpa using hij, Finset.card_range]

theorem mem_writtenBytes {ranges : List (ℤ × ℤ)} {x : ℤ} :
    x ∈ writtenBytes ranges ↔ ∃ range ∈ ranges, x ∈ rangeBytes range := by
  induction ranges with
  | nil => simp [writtenBytes]
  | cons range ranges ih => simp [writtenBytes, ih]

/-- **Without overlaps every byte is counted once.** -/
theorem card_writtenBytes {ranges : List (ℤ × ℤ)}
    (h : ranges.Pairwise fun a b => Disjoint (rangeBytes a) (rangeBytes b)) :
    (writtenBytes ranges).card = (ranges.map fun range => range.2.toNat).sum := by
  induction ranges with
  | nil => rfl
  | cons range ranges ih =>
    obtain ⟨hhead, hrest⟩ := List.pairwise_cons.mp h
    have hdisjoint : Disjoint (rangeBytes range) (writtenBytes ranges) := by
      rw [Finset.disjoint_left]
      intro x hx hx'
      obtain ⟨other, hother, hmem⟩ := mem_writtenBytes.mp hx'
      exact Finset.disjoint_left.mp (hhead other hother) hx hmem
    rw [writtenBytes, Finset.card_union_of_disjoint hdisjoint, ih hrest, card_rangeBytes,
      List.map_cons, List.sum_cons]

/-- No more bytes are written than there are. -/
theorem card_writtenBytes_le {ranges : List (ℤ × ℤ)} {n : ℕ}
    (h : ∀ range ∈ ranges, 0 ≤ range.1 ∧ range.1 + range.2 ≤ n) : (writtenBytes ranges).card ≤ n := by
  have hsubset : writtenBytes ranges ⊆ rangeBytes (0, n) := by
    intro x hx
    obtain ⟨range, hrange, hmem⟩ := mem_writtenBytes.mp hx
    have hbounds := h range hrange
    rw [mem_rangeBytes] at hmem ⊢
    dsimp only
    omega
  exact (Finset.card_le_card hsubset).trans (card_rangeBytes _).le

/-- The ranges of a gather in which all ranks send the same number of bytes. -/
theorem gatherRanges_apart (size : ℤ) (n : ℕ) :
    ((List.range size.toNat).map fun rank : ℕ => ((rank * n : ℤ), (n : ℤ))).Pairwise
      fun a b => Disjoint (rangeBytes a) (rangeBytes b) := by
  refine List.pairwise_map.mpr (List.pairwise_lt_range.imp fun {i j} hij => ?_)
  rw [Finset.disjoint_left]
  intro x hx hx'
  rw [mem_rangeBytes] at hx hx'
  have hle : ((i + 1 : ℕ) : ℤ) * n ≤ j * n :=
    mul_le_mul_of_nonneg_right (by exact_mod_cast hij) (Int.natCast_nonneg n)
  rw [Nat.cast_succ, add_mul, one_mul] at hle
  dsimp only at hx hx'
  omega

/-- What the size check of the gathers is for. -/
theorem gatherRanges_inside {size : ℤ} {input output : ByteSpan} (h : ¬ outputTooSmall size input output) :
    0 < size ∧ input.sizeBytes * size.toNat ≤ output.sizeBytes ∧
      ∀ range ∈ (List.range size.toNat).map fun rank : ℕ =>
        ((rank * input.sizeBytes : ℤ), (input.sizeBytes : ℤ)),
        0 ≤ range.1 ∧ range.1 + range.2 ≤ output.sizeBytes := by
  obtain ⟨hsize, hfits⟩ := not_or.mp h
  have htotal : input.sizeBytes * size.toNat ≤ output.sizeBytes :=
    (Nat.le_div_iff_mul_le (by omega)).mp (not_lt.mp hfits)
  refine ⟨by omega, htotal, ?_⟩
  intro range hrange
  obtain ⟨rank, hrank, rfl⟩ := List.mem_map.mp hrange
  have hle : (rank + 1) * input.sizeBytes ≤ size.toNat * input.sizeBytes :=
    Nat.mul_le_mul_right _ (List.mem_range.mp hrank)
  have hend : (rank + 1) * input.sizeBytes ≤ output.sizeBytes :=
    hle.trans (by rwa [Nat.mul_comm])
  dsimp only
  constructor
  · positivity
  · have hcast : (((rank + 1) * input.sizeBytes : ℕ) : ℤ) ≤ output.sizeBytes := by exact_mod_cast hend
    rw [Nat.cast_mul, Nat.cast_succ, add_mul, one_mul] at hcast
    exact hcast

theorem gatherRanges_sum (size : ℤ) (n : ℕ) :
    (((List.range size.toNat).map fun rank : ℕ => ((rank * n : ℤ), (n : ℤ))).map
      fun range => range.2.toNat).sum = n * size.toNat := by
  rw [List.map_map]
  have hconst : (List.range size.toNat).map
      ((fun range : ℤ × ℤ => range.2.toNat) ∘ fun rank : ℕ => ((rank * n : ℤ), (n : ℤ))) =
      (List.range size.toNat).map fun _ => n :=
    List.map_congr_left fun rank _ => Int.toNat_natCast n
  rw [hconst, List.map_const', List.sum_replicate, List.length_range, smul_eq_mul, Nat.mul_comm]

/-- **What the loop over the layout finds.** -/
theorem checkLayout_eq_ok {output : ByteSpan} {layout : List (ℕ × ℕ)} {resultBytes total : ℕ}
    (hlayout : ∀ range ∈ layout, range.1 ≤ intMax ∧ range.2 ≤ intMax)
    (hfits : resultBytes + layout.length * intMax < 2 ^ 64) :
    checkLayout output layout resultBytes = .ok total ↔
      (∀ range ∈ layout, range.1 + range.2 ≤ output.sizeBytes) ∧
        total = resultBytes + (layout.map Prod.snd).sum := by
  induction layout generalizing resultBytes with
  | nil =>
    rw [checkLayout]
    simp [eq_comm]
  | cons range layout ih =>
    obtain ⟨offset, count⟩ := range
    obtain ⟨hoffset, hcount⟩ := hlayout (offset, count) List.mem_cons_self
    dsimp only at hoffset hcount
    rw [List.length_cons, Nat.add_mul, Nat.one_mul] at hfits
    have hwrap : (offset + count) % 2 ^ 64 = offset + count :=
      Nat.mod_eq_of_lt (by unfold intMax at hoffset hcount; omega)
    have hsum : (resultBytes + count) % 2 ^ 64 = resultBytes + count := Nat.mod_eq_of_lt (by omega)
    rw [checkLayout, hwrap, hsum]
    split
    · next hend =>
      refine iff_of_false (by simp) fun h => ?_
      exact absurd (h.1 (offset, count) List.mem_cons_self) (by dsimp only; omega)
    · next hend =>
      rw [ih (fun range hrange => hlayout range (List.mem_cons_of_mem _ hrange)) (by omega),
        List.forall_mem_cons, List.map_cons, List.sum_cons, and_assoc, ← add_assoc]
      exact (and_iff_right (not_lt.mp hend)).symm

/-! ## The calls -/

section Calls

variable {comm : Communicator} {input output : ByteSpan} {type : ScalarType}
  {operation : ReduceOperation} {root : Peer} {receiveBytes displacements : List ℕ} {call : MpiCall}
  {resultBytes : ℕ}

theorem validBuffer_iff {b : ByteSpan} : validBuffer b = true ↔ b.sizeBytes ≤ intMax := decide_eq_true_iff

/-- A query that is answered. -/
theorem query_eq_ok {answer : Except ℤ ℤ} {what : String} {n : ℤ} :
    query answer what = .ok n ↔ answer = .ok n := by
  cases answer <;> simp [query, Except.mapError]

/-- The single range of a reduction. -/
theorem reduceRange_inside (hmod : input.sizeBytes % scalarSize type = 0)
    (hle : input.sizeBytes ≤ output.sizeBytes) :
    ∀ range ∈ [((0 : ℤ), ((input.sizeBytes / scalarSize type : ℕ) : ℤ) * scalarSize type)],
      0 ≤ range.1 ∧ range.1 + range.2 ≤ output.sizeBytes := by
  intro range hrange
  obtain rfl := List.mem_singleton.mp hrange
  have hwhole : input.sizeBytes / scalarSize type * scalarSize type = input.sizeBytes :=
    Nat.div_mul_cancel (Nat.dvd_of_mod_eq_zero hmod)
  dsimp only
  rw [← Nat.cast_mul, hwhole]
  omega

theorem reduceCount_le (type : ScalarType) (h : input.sizeBytes ≤ intMax) :
    input.sizeBytes / scalarSize type ≤ intMax :=
  (Nat.div_le_self _ _).trans h

theorem legal_allReduce (h : start comm input output (.allReduce type operation) = .ok (call, resultBytes)) :
    Legal comm input output (.allReduce type operation) call resultBytes := by
  rw [start, startAllReduce] at h
  dsimp only at h
  split at h
  · cases h
  · next hchecks =>
    simp only [not_or, not_not, not_lt, not_and, Bool.not_eq_true, validBuffer_iff] at hchecks
    obtain ⟨-, hin, -, hmod, hle, hover⟩ := hchecks
    have hcount := reduceCount_le type hin
    rw [castInt_of_le hcount] at h
    cases h
    refine ⟨rfl, fun c hc => ?_, fun _ => ?_, fun _ size _ => reduceRange_inside hmod hle,
      fun _ size _ => List.pairwise_singleton _ _, fun hreports => hreports.elim⟩
    · obtain rfl := List.mem_singleton.mp hc
      exact ⟨Int.natCast_nonneg _, by exact_mod_cast hcount⟩
    · rcases eq_or_ne input.data output.data with heq | hne
      · refine Or.inl ⟨?_, heq⟩
        rw [if_pos heq]
        trivial
      · exact Or.inr (disjoint_of_not_overlap (by rw [hover hne]; exact Bool.false_ne_true))

theorem legal_reduce (h : start comm input output (.reduce type operation root) = .ok (call, resultBytes)) :
    Legal comm input output (.reduce type operation root) call resultBytes := by
  rw [start, startReduce] at h
  dsimp only at h
  split at h
  · cases h
  · next hchecks =>
    simp only [not_or, not_not, not_lt, Bool.not_eq_true, validBuffer_iff] at hchecks
    obtain ⟨-, hin, hmod, -, -⟩ := hchecks
    have hcount := reduceCount_le type hin
    split at h
    · cases h
    · next rank hrank =>
      split at h
      · cases h
      · next hroot =>
        rw [castInt_of_le hcount] at h
        cases h
        -- on the root, the output has been checked
        have hreceives : comm.rank = .ok root.value →
            input.sizeBytes ≤ output.sizeBytes ∧ ¬ buffersOverlap input output = true := fun hr => by
          have heq := Except.ok.inj ((query_eq_ok.mp hrank).symm.trans hr)
          simp only [heq, true_and, not_or, not_not, not_lt] at hroot
          exact hroot.2
        refine ⟨rfl, fun c hc => ?_, fun hr => Or.inr (disjoint_of_not_overlap (hreceives hr).2),
          fun hr size _ => reduceRange_inside hmod (hreceives hr).1,
          fun _ size _ => List.pairwise_singleton _ _, fun hreports => hreports.elim⟩
        obtain rfl := List.mem_singleton.mp hc
        exact ⟨Int.natCast_nonneg _, by exact_mod_cast hcount⟩

/-- The counts of a gather of bytes. -/
theorem gatherCounts {n : ℕ} (h : n ≤ intMax) : ∀ c ∈ [(n : ℤ), (n : ℤ)], 0 ≤ c ∧ c ≤ intMax := by
  intro c hc
  obtain rfl : c = n := by simpa using hc
  exact ⟨Int.natCast_nonneg _, by exact_mod_cast h⟩

/-- The result of a gather that has passed the size check. -/
theorem gatherResult {size : ℤ} (h : ¬ outputTooSmall size input output) :
    input.sizeBytes * size.toNat % 2 ^ 64 = (writtenBytes ((List.range size.toNat).map fun rank : ℕ =>
        ((rank * input.sizeBytes : ℤ), (input.sizeBytes : ℤ)))).card ∧
      input.sizeBytes * size.toNat % 2 ^ 64 ≤ output.sizeBytes := by
  obtain ⟨-, htotal, -⟩ := gatherRanges_inside h
  have hlt := output.fits
  rw [Nat.mod_eq_of_lt (by omega), card_writtenBytes (gatherRanges_apart size input.sizeBytes),
    gatherRanges_sum]
  exact ⟨rfl, htotal⟩

/-- A rank that does not receive reports nothing. -/
theorem result_of_not_receives {request : Request} {size : ℤ} (h : ¬ request.Receives comm) :
    0 = (request.written comm call size).card ∧ 0 ≤ output.sizeBytes := by
  rw [Request.written, if_neg h]
  exact ⟨rfl, Nat.zero_le _⟩

theorem legal_gather (h : start comm input output (.gather root) = .ok (call, resultBytes)) :
    Legal comm input output (.gather root) call resultBytes := by
  rw [start, startGather] at h
  dsimp only at h
  split at h
  · cases h
  · next hchecks =>
    simp only [not_or, not_not, not_lt, Bool.not_eq_true, validBuffer_iff] at hchecks
    obtain ⟨hin, -, hover, -, -⟩ := hchecks
    rw [castInt_of_le hin] at h
    split at h
    · cases h
    · next rank hrank =>
      split at h
      · cases h
      · next size hsize =>
        rw [query_eq_ok] at hrank hsize
        have hdisjoint := disjoint_of_not_overlap (by rw [hover]; exact Bool.false_ne_true)
        split at h
        · next hroot =>
          split at h
          · cases h
          · next hfits =>
            cases h
            refine ⟨rfl, gatherCounts hin, fun _ => Or.inr hdisjoint, fun _ size' hsize' => ?_,
              fun _ size' _ => gatherRanges_apart size' input.sizeBytes, fun _ size' hsize' => ?_⟩
            · obtain rfl := Except.ok.inj (hsize.symm.trans hsize')
              exact (gatherRanges_inside hfits).2.2
            · obtain rfl := Except.ok.inj (hsize.symm.trans hsize')
              have hreceives : (Request.gather root).Receives comm := hrank.trans (congrArg _ hroot)
              rw [Request.written, if_pos hreceives]
              exact gatherResult hfits
        · next hother =>
          -- a rank that is not the root receives nothing
          have hnot : ¬ (Request.gather root).Receives comm := fun hr =>
            hother (Except.ok.inj (hrank.symm.trans hr))
          cases h
          exact ⟨rfl, gatherCounts hin, fun hr => absurd hr hnot, fun hr => absurd hr hnot,
            fun hr => absurd hr hnot, fun _ size' _ => result_of_not_receives hnot⟩

theorem legal_allGather (h : start comm input output .allGather = .ok (call, resultBytes)) :
    Legal comm input output .allGather call resultBytes := by
  rw [start, startAllGather] at h
  split at h
  · cases h
  · next hchecks =>
    simp only [not_or, not_not, Bool.not_eq_true, validBuffer_iff] at hchecks
    obtain ⟨hin, -, hover⟩ := hchecks
    rw [castInt_of_le hin] at h
    split at h
    · cases h
    · next size hsize =>
      rw [query_eq_ok] at hsize
      split at h
      · cases h
      · next hfits =>
        cases h
        refine ⟨rfl, gatherCounts hin,
          fun _ => Or.inr (disjoint_of_not_overlap (by rw [hover]; exact Bool.false_ne_true)),
          fun _ size' hsize' => ?_, fun _ size' _ => gatherRanges_apart size' input.sizeBytes,
          fun _ size' hsize' => ?_⟩
        · obtain rfl := Except.ok.inj (hsize.symm.trans hsize')
          exact (gatherRanges_inside hfits).2.2
        · obtain rfl := Except.ok.inj (hsize.symm.trans hsize')
          exact gatherResult hfits

/-! ### The variable gather -/

theorem gatherV_entries (h : ¬ (receiveBytes.zip displacements).any (fun entry =>
      decide (entry.1 > intMax ∨ entry.2 > intMax)) = true) :
    ∀ entry ∈ receiveBytes.zip displacements, entry.1 ≤ intMax ∧ entry.2 ≤ intMax := by
  intro entry hentry
  by_contra hlarge
  exact h (List.any_eq_true.mpr ⟨entry, hentry, decide_eq_true (by omega)⟩)

theorem le_of_entries (hlength : receiveBytes.length = displacements.length)
    (h : ∀ entry ∈ receiveBytes.zip displacements, entry.1 ≤ intMax ∧ entry.2 ≤ intMax) :
    (∀ n ∈ receiveBytes, n ≤ intMax) ∧ ∀ n ∈ displacements, n ≤ intMax := by
  constructor
  · intro n hn
    rw [← List.map_fst_zip hlength.le] at hn
    obtain ⟨entry, hentry, rfl⟩ := List.mem_map.mp hn
    exact (h entry hentry).1
  · intro n hn
    rw [← List.map_snd_zip hlength.ge] at hn
    obtain ⟨entry, hentry, rfl⟩ := List.mem_map.mp hn
    exact (h entry hentry).2

/-- Values that fit are kept. -/
theorem map_castInt {ns : List ℕ} (h : ∀ n ∈ ns, n ≤ intMax) : ns.map castInt = ns.map Nat.cast :=
  List.map_congr_left fun n hn => castInt_of_le (h n hn)

theorem map_toNat_cast (ns : List ℕ) : (ns.map (Nat.cast : ℕ → ℤ)).map Int.toNat = ns := by
  rw [List.map_map]
  exact (List.map_congr_left fun n _ => Int.toNat_natCast n).trans (List.map_id' ns)

/-- The layout as the loop reads it. -/
theorem checkLayout_zip {total : ℕ} (hlength : receiveBytes.length = displacements.length)
    (hentries : ∀ entry ∈ receiveBytes.zip displacements, entry.1 ≤ intMax ∧ entry.2 ≤ intMax)
    (hcount : receiveBytes.length < 2 ^ 31) :
    checkLayout output (displacements.zip receiveBytes) 0 = .ok total ↔
      (∀ entry ∈ receiveBytes.zip displacements, entry.2 + entry.1 ≤ output.sizeBytes) ∧
        total = receiveBytes.sum := by
  have hswap : displacements.zip receiveBytes = (receiveBytes.zip displacements).map Prod.swap :=
    (List.zip_swap receiveBytes displacements).symm
  have hbound : ∀ range ∈ displacements.zip receiveBytes, range.1 ≤ intMax ∧ range.2 ≤ intMax := by
    intro range hrange
    rw [hswap] at hrange
    obtain ⟨entry, hentry, rfl⟩ := List.mem_map.mp hrange
    exact (hentries entry hentry).symm
  have hfits : 0 + (displacements.zip receiveBytes).length * intMax < 2 ^ 64 := by
    rw [List.length_zip, ← hlength, Nat.min_self]
    unfold intMax
    omega
  rw [checkLayout_eq_ok hbound hfits, List.map_snd_zip hlength.le, Nat.zero_add, hswap,
    List.forall_mem_map]
  rfl

/-- A variable gather that is not refused passes on what it was given; its root has checked the layout,
and other ranks report nothing. -/
theorem gatherV_of_ok
    (h : start comm input output (.gatherV receiveBytes displacements root) = .ok (call, resultBytes)) :
    input.sizeBytes ≤ intMax ∧ (∀ n ∈ receiveBytes, n ≤ intMax) ∧ (∀ n ∈ displacements, n ≤ intMax) ∧
      call = (Request.gatherV receiveBytes displacements root).intended input output ∧
      (comm.rank = .ok root.value →
        AcceptsLayout comm input output receiveBytes displacements root ∧
          resultBytes = receiveBytes.sum) ∧
      (comm.rank ≠ .ok root.value → resultBytes = 0) := by
  rw [start, startGatherV] at h
  dsimp only at h
  split at h
  · cases h
  · next hchecks =>
    simp only [not_or, not_not, not_lt, ne_eq] at hchecks
    obtain ⟨hin, hout, hover, hlength, hany, hroot⟩ := hchecks
    split at h
    · cases h
    · next hlayout =>
      have hentries := gatherV_entries hlayout
      obtain ⟨hcounts, hoffsets⟩ := le_of_entries hlength hentries
      rw [map_castInt hcounts, map_castInt hoffsets, castInt_of_le (validBuffer_iff.mp hin),
        map_toNat_cast, map_toNat_cast, List.length_map] at h
      split at h
      · cases h
      · next rank hrank =>
        split at h
        · cases h
        · next size hsize =>
          rw [query_eq_ok] at hrank hsize
          have hlt := comm.size_lt size hsize
          split at h
          · next hisRoot =>
            split at h
            · cases h
            · next hsizes =>
              split at h
              · cases h
              · next total htotal =>
                have hlt' : receiveBytes.length < 2 ^ 31 := by omega
                obtain ⟨hends, rfl⟩ := (checkLayout_zip hlength hentries hlt').mp htotal
                cases h
                have hsize' : size = receiveBytes.length := by omega
                exact ⟨validBuffer_iff.mp hin, hcounts, hoffsets, rfl, fun hr =>
                  ⟨⟨hin, hout, hover, hlength, ⟨hany, hroot⟩, hentries, hr, ⟨hsize' ▸ hsize, by omega⟩,
                    hends⟩, rfl⟩, fun hother => absurd (hrank.trans (congrArg _ hisRoot)) hother⟩
          · next hother =>
            cases h
            exact ⟨validBuffer_iff.mp hin, hcounts, hoffsets, rfl, fun hr =>
              absurd (Except.ok.inj (hrank.symm.trans hr)) hother, fun _ => rfl⟩

/-- Conversely the root does not refuse what it accepts. -/
theorem gatherV_of_accepts (h : AcceptsLayout comm input output receiveBytes displacements root) :
    start comm input output (.gatherV receiveBytes displacements root) =
      .ok ((Request.gatherV receiveBytes displacements root).intended input output,
        receiveBytes.sum) := by
  obtain ⟨hcounts, hoffsets⟩ := le_of_entries h.lengths h.entries
  have hlt := comm.size_lt _ h.rankCount.1
  have hlayout : ¬ (receiveBytes.zip displacements).any (fun entry =>
      decide (entry.1 > intMax ∨ entry.2 > intMax)) = true := by
    rw [List.any_eq_true]
    rintro ⟨entry, hentry, hlarge⟩
    have hsmall := h.entries entry hentry
    have := of_decide_eq_true hlarge
    omega
  have hchecks : ¬ (¬ validBuffer input ∨ ¬ validBuffer output ∨ buffersOverlap input output ∨
      receiveBytes.length ≠ displacements.length ∨ root.any ∨ root.value < 0) := by
    simp only [not_or, not_not, not_lt, ne_eq]
    exact ⟨h.validInput, h.validOutput, h.noOverlap, h.lengths, h.validRoot⟩
  have htotal : checkLayout output (displacements.zip receiveBytes) 0 = .ok receiveBytes.sum :=
    (checkLayout_zip h.lengths h.entries (by omega)).mpr ⟨h.ends, rfl⟩
  have hrank : query comm.rank "MPI variable gather communicator query" = .ok root.value :=
    query_eq_ok.mpr h.isRoot
  have hsize : query comm.size "MPI variable gather communicator query" =
      .ok (receiveBytes.length : ℤ) := query_eq_ok.mpr h.rankCount.1
  have hsizes : ¬ ((receiveBytes.length : ℤ) ≤ 0 ∨
      receiveBytes.length ≠ (receiveBytes.length : ℤ).toNat) := by
    have := h.rankCount.2
    omega
  rw [start, startGatherV, if_neg hchecks, if_neg hlayout]
  dsimp only
  rw [hrank, hsize, map_castInt hcounts, map_castInt hoffsets, castInt_of_le (validBuffer_iff.mp h.validInput),
    map_toNat_cast, map_toNat_cast, List.length_map]
  dsimp only
  rw [if_pos rfl, if_neg hsizes, htotal]
  rfl

/-- The ranges of an accepted layout lie in the output. -/
theorem AcceptsLayout.inside (h : AcceptsLayout comm input output receiveBytes displacements root) :
    ∀ range ∈ (displacements.map Nat.cast).zip (receiveBytes.map Nat.cast),
      (0 : ℤ) ≤ range.1 ∧ range.1 + range.2 ≤ (output.sizeBytes : ℤ) := by
  intro range hrange
  rw [List.zip_map] at hrange
  obtain ⟨entry, hentry, rfl⟩ := List.mem_map.mp hrange
  have hend := h.ends entry.swap (by
    rw [← List.zip_swap]
    exact List.mem_map_of_mem hentry)
  rw [Prod.fst_swap, Prod.snd_swap] at hend
  rw [Prod.map_fst, Prod.map_snd]
  exact ⟨Int.natCast_nonneg _, by exact_mod_cast hend⟩

/-- Their lengths add up to the bytes received. -/
theorem layout_sum (hlength : receiveBytes.length = displacements.length) :
    (((displacements.map Nat.cast).zip (receiveBytes.map Nat.cast)).map
      fun range : ℤ × ℤ => range.2.toNat).sum = receiveBytes.sum := by
  have hsnd : ((displacements.map (Nat.cast : ℕ → ℤ)).zip (receiveBytes.map Nat.cast)).map Prod.snd =
      receiveBytes.map (Nat.cast : ℕ → ℤ) := by
    refine List.map_snd_zip ?_
    rw [List.length_map, List.length_map, hlength]
  have hnat := congrArg (List.map Int.toNat) hsnd
  rw [List.map_map, map_toNat_cast] at hnat
  exact congrArg List.sum hnat

/-- **A variable gather is legal where its layout writes no byte twice.** -/
theorem legal_gatherV
    (hapart : (Request.gatherV receiveBytes displacements root).LayoutApart comm input output)
    (h : start comm input output (.gatherV receiveBytes displacements root) = .ok (call, resultBytes)) :
    Legal comm input output (.gatherV receiveBytes displacements root) call resultBytes := by
  obtain ⟨hin, hcounts, hoffsets, rfl, hroot, hother⟩ := gatherV_of_ok h
  refine ⟨rfl, fun c hc => ?_, fun hr => Or.inr (disjoint_of_not_overlap (hroot hr).1.noOverlap),
    fun hr size _ => (hroot hr).1.inside, fun hr size _ => hapart (hroot hr).1, fun _ size _ => ?_⟩
  · rcases List.mem_cons.mp hc with rfl | hc
    · exact ⟨Int.natCast_nonneg _, by exact_mod_cast hin⟩
    · rcases List.mem_append.mp hc with hc | hc
      all_goals obtain ⟨n, hn, rfl⟩ := List.mem_map.mp hc
      · exact ⟨Int.natCast_nonneg n, by exact_mod_cast hcounts n hn⟩
      · exact ⟨Int.natCast_nonneg n, by exact_mod_cast hoffsets n hn⟩
  · by_cases hr : (Request.gatherV receiveBytes displacements root).Receives comm
    · obtain ⟨haccepts, rfl⟩ := hroot hr
      have hcard := card_writtenBytes (hapart haccepts)
      rw [layout_sum haccepts.lengths] at hcard
      rw [Request.written, if_pos hr]
      exact ⟨hcard.symm, hcard ▸ card_writtenBytes_le haccepts.inside⟩
    · obtain rfl := hother hr
      exact result_of_not_receives hr

end Calls

/-- **Only legal calls reach MPI, except for a variable gather whose layout writes a byte twice.** -/
theorem onlyLegal_iff (comm : Communicator) (input output : ByteSpan) (request : Request) :
    (buffersOverlap input output = true ↔
      (0 < input.sizeBytes ∧ 0 < output.sizeBytes) ∧ ∃ a, a ∈ input.bytes ∧ a ∈ output.bytes) ∧
    (OnlyLegal comm input output request ↔ request.LayoutApart comm input output) := by
  refine ⟨buffersOverlap_iff, ?_⟩
  cases request with
  | allReduce type operation => exact iff_of_true (fun _ _ h => legal_allReduce h) trivial
  | reduce type operation root => exact iff_of_true (fun _ _ h => legal_reduce h) trivial
  | gather root => exact iff_of_true (fun _ _ h => legal_gather h) trivial
  | allGather => exact iff_of_true (fun _ _ h => legal_allGather h) trivial
  | gatherV receiveBytes displacements root =>
    constructor
    · intro hlegal haccepts
      have hcall := hlegal _ _ (gatherV_of_accepts haccepts)
      exact hcall.apart haccepts.isRoot _ haccepts.rankCount.1
    · intro hapart call resultBytes h
      exact legal_gatherV hapart h

/-- The root of two ranks, where the ranks write one after the other, and its other rank. -/
theorem onlyLegal_iff_twoRanks :
    (OnlyLegal ⟨.ok 0, .ok 2, by rintro n ⟨⟩; decide⟩ ⟨4096, 4, by decide⟩ ⟨8192, 16, by decide⟩
      (.gatherV [4, 4] [0, 4] ⟨0, false⟩) ∧
      start ⟨.ok 0, .ok 2, by rintro n ⟨⟩; decide⟩ ⟨4096, 4, by decide⟩ ⟨8192, 16, by decide⟩
        (.gatherV [4, 4] [0, 4] ⟨0, false⟩) = .ok (.igatherv 4096 4 8192 [4, 4] [0, 4] 0, 8)) ∧
    OnlyLegal ⟨.ok 1, .ok 2, by rintro n ⟨⟩; decide⟩ ⟨4096, 4, by decide⟩ ⟨8192, 16, by decide⟩
      (.gatherV [4, 4] [0, 4] ⟨0, false⟩) ∧
      start ⟨.ok 1, .ok 2, by rintro n ⟨⟩; decide⟩ ⟨4096, 4, by decide⟩ ⟨8192, 16, by decide⟩
        (.gatherV [4, 4] [0, 4] ⟨0, false⟩) = .ok (.igatherv 4096 4 8192 [4, 4] [0, 4] 0, 0) :=
  ⟨⟨(onlyLegal_iff _ _ _ _).2.mpr fun _ => by decide, rfl⟩,
    (onlyLegal_iff _ _ _ _).2.mpr fun h => absurd h.isRoot (by decide), rfl⟩

/-- The root of two ranks lets both ranks write to the first four bytes of its output, and reports
eight bytes. -/
theorem not_onlyLegal_overlapping :
    ¬ OnlyLegal ⟨.ok 0, .ok 2, by rintro n ⟨⟩; decide⟩ ⟨4096, 4, by decide⟩ ⟨8192, 16, by decide⟩
      (.gatherV [4, 4] [0, 0] ⟨0, false⟩) := by
  intro hlegal
  have hcall := hlegal _ _ rfl
  have hapart := hcall.apart rfl 2 rfl
  exact absurd hapart (by decide)

end Operations
end Mpi
end Spearhed
