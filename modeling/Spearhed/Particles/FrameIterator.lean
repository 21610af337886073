import Mathlib.Tactic
import Spearhed.Library.LinkedList
import Spearhed.Particles.FrameList

/-!
# Walking a frame list

The iterators of `FrameList.hpp`.  The frames of a list are chained by device addresses.  A kernel
follows them as they are; the host has a copy of the heap and translates every address it follows
with `memory::mapToHost`, which leaves null alone.

* `rangeFor_eq`: a range-based loop visits the nodes of a walk.
* `HeapMirror.mapHeapPtr_some`: an address in the heap is translated into the copy, and not to null.
* `HeapMirror.walk_hostAdvance`: the host visits the images of the frames in their order, and ends
  where the list ends.
-/

namespace Spearhed
namespace Particles

open Library

/-- `memory::mapToHost` on a pointer that may be null, with addresses of 64 bits. -/
def mapHeapPtr (devPtr : Option FramePtr) (heapOffset : ℤ) : Option FramePtr :=
  match devPtr with
  | none => none
  | some p =>
    let address := (((p : ℤ) - heapOffset) % 2 ^ 64).toNat
    if address = 0 then none else some address

/-! ## Iterators -/

/-- `DeviceAdvance` and `HostAdvance`. -/
inductive AdvancePolicy
  | deviceAdvance
  | hostAdvance (heapOffset : ℤ)
  deriving DecidableEq

namespace AdvancePolicy

/-- `init`. -/
def init : AdvancePolicy → Option FramePtr → Option FramePtr
  | deviceAdvance, ptr => ptr
  | hostAdvance heapOffset, ptr => mapHeapPtr ptr heapOffset

/-- `advance`, where `next` is what the frames hold. -/
def advance (next : FramePtr → Option FramePtr) : AdvancePolicy → FramePtr → Option FramePtr
  | deviceAdvance, ptr => next ptr
  | hostAdvance heapOffset, ptr => mapHeapPtr (next ptr) heapOffset

/-- Null stays null. -/
@[simp] theorem init_none (policy : AdvancePolicy) : policy.init none = none := by
  cases policy <;> rfl

end AdvancePolicy

/-- `IteratorImpl`. -/
structure IteratorImpl where
  current : Option FramePtr
  policy : AdvancePolicy
  deriving DecidableEq

/-- The constructor of an iterator. -/
def IteratorImpl.ofNode (node : Option FramePtr) (policy : AdvancePolicy) : IteratorImpl :=
  ⟨policy.init node, policy⟩

/-- `for(auto& frame : range)`, for at most `fuel` frames: the frames that are visited.  Following null
has no result. -/
def rangeFor (next : FramePtr → Option FramePtr) (last : IteratorImpl) :
    ℕ → IteratorImpl → Option (List FramePtr)
  | 0, it => if it = last then some [] else none
  | fuel + 1, it =>
    if it = last then some []
    else it.current.bind fun p =>
      (rangeFor next last fuel { it with current := it.policy.advance next p }).map (p :: ·)

/-- **The loop visits the nodes of a walk.** -/
theorem rangeFor_eq (policy : AdvancePolicy) {next : FramePtr → Option FramePtr}
    {start : Option FramePtr} {l : List FramePtr} (h : Walk (policy.advance next) start l)
    {fuel : ℕ} (hfuel : l.length ≤ fuel) :
    rangeFor next (.ofNode none policy) fuel ⟨start, policy⟩ = some l := by
  have hlast : IteratorImpl.ofNode none policy = ⟨none, policy⟩ := by
    rw [IteratorImpl.ofNode, AdvancePolicy.init_none]
  rw [hlast]
  induction l generalizing start fuel with
  | nil =>
    obtain rfl : start = none := h
    cases fuel <;> exact if_pos rfl
  | cons p l ih =>
    obtain ⟨rfl, hrest⟩ := h
    cases fuel with
    | zero => exact absurd hfuel (Nat.not_succ_le_zero _)
    | succ fuel =>
      have hne : ¬ (⟨some p, policy⟩ : IteratorImpl) = ⟨none, policy⟩ := by simp
      rw [rangeFor, if_neg hne, Option.bind_some, ih hrest (Nat.le_of_succ_le_succ hfuel)]
      rfl

/-! ## The copy of the heap -/

/-- The device heap and its copy on the host.  The copy is not at address 0 and within the address
space. -/
structure HeapMirror where
  deviceBase : ℕ
  hostBase : ℕ
  size : ℕ
  hostBase_pos : 0 < hostBase
  host_le : hostBase + size ≤ 2 ^ 64

namespace HeapMirror

variable (m : HeapMirror)

/-- `getOffset`, the difference of the two. -/
def heapOffset : ℤ := (m.deviceBase : ℤ) - m.hostBase

/-- An address in the device heap. -/
def Inside (p : ℕ) : Prop := m.deviceBase ≤ p ∧ p < m.deviceBase + m.size

/-- Where it is in the copy. -/
def image (p : ℕ) : ℕ := p - m.deviceBase + m.hostBase

variable {m}

/-- **Addresses in the heap are translated into the copy.** -/
theorem mapHeapPtr_some {p : ℕ} (hp : m.Inside p) :
    mapHeapPtr (some p) m.heapOffset = some (m.image p) := by
  obtain ⟨hlow, hhigh⟩ := hp
  have hbound := m.host_le
  have hpos := m.hostBase_pos
  have hdiff : (p : ℤ) - m.heapOffset = (m.image p : ℕ) := by
    rw [heapOffset, image]
    omega
  have hlt : ((m.image p : ℕ) : ℤ) < 2 ^ 64 := by
    rw [image]
    omega
  have haddress : (((p : ℤ) - m.heapOffset) % 2 ^ 64).toNat = m.image p := by
    rw [hdiff, Int.emod_eq_of_lt (Int.natCast_nonneg _) hlt, Int.toNat_natCast]
  have hne : m.image p ≠ 0 := by
    rw [image]
    omega
  show (if _ = 0 then none else some _) = _
  rw [haddress, if_neg hne]

/-- **The host walks through the images.** -/
theorem walk_hostAdvance {next hostNext : FramePtr → Option FramePtr} {start : Option FramePtr}
    {l : List FramePtr} (h : Walk next start l) (hinside : ∀ p ∈ l, m.Inside p)
    (hcopy : ∀ p : FramePtr, m.Inside p → hostNext (m.image p) = next p) :
    Walk ((AdvancePolicy.hostAdvance m.heapOffset).advance hostNext)
      ((AdvancePolicy.hostAdvance m.heapOffset).init start) (l.map m.image) := by
  refine h.translate (t := fun ptr => mapHeapPtr ptr m.heapOffset) rfl
    (fun p hp => mapHeapPtr_some (hinside p hp)) fun p hp => ?_
  show mapHeapPtr (hostNext (m.image p)) m.heapOffset = mapHeapPtr (next p) m.heapOffset
  rw [hcopy p (hinside p hp)]

end HeapMirror

end Particles
end Spearhed
