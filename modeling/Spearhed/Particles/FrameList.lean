import Mathlib.Tactic
import Mathlib.Algebra.Order.Floor.Div
import Mathlib.Data.UInt
import Spearhed.Library.Blocks
import Spearhed.Particles.Regions

/-!
# Frame lists as they are stored

`FrameList.hpp` and `SinglyLinkedListDevice.hpp`: a frame list is a pointer to its first frame, a
pointer to its last one, and the number of particles in all of them.  A frame holds the pointer to
the next.

How the particles of a list are spread over its frames is fixed by their number: all frames are
full except perhaps the last.  The code computes the number of frames and the size of the last one
separately; `frameFill` is what both come from.

* `getSizeLastFrame_toNat`, `frameFill_of_lt`: the last frame, and the others.
* `flatten_frameFills`: the frames share out the indices of the particles.
-/

namespace Spearhed
namespace Particles

open Library

/-- `SingleLinkedListDevice`. -/
structure SingleLinkedListDevice where
  firstNode : Option FramePtr := none
  lastNode : Option FramePtr := none
  deriving DecidableEq

/-- `FrameList`. -/
structure FrameList where
  list : SingleLinkedListDevice := {}
  numParticles : UInt32 := 0
  deriving DecidableEq

namespace FrameList

variable (frameSize : ℕ) (l : FrameList)

/-- `getSizeLastFrame`. -/
def getSizeLastFrame : UInt32 :=
  if l.numParticles ≠ 0 then (l.numParticles - 1) % UInt32.ofNat frameSize + 1 else 0

/-- `numFrames`, where `alpaka::divCeil` is division rounding up. -/
def numFrames : UInt32 := UInt32.ofNat (l.numParticles.toNat ⌈/⌉ frameSize)

/-- `setNumParticles`. -/
def setNumParticles (n : UInt32) : FrameList := { l with numParticles := n }

end FrameList

/-- A `ParticleRegion` as it is stored. -/
structure StoredRegion (K : Type) (d : ℕ) where
  volume : AABB K d
  particleFrameList : FrameList

/-- The constructor of `ParticleRegion` from a volume. -/
def StoredRegion.ofVolume {K : Type} {d : ℕ} (volume : AABB K d) : StoredRegion K d := ⟨volume, {}⟩

/-- A `Frame` with the pointer that a list needs, which is among its extensions. -/
structure LinkedFrame (K : Type) (d : ℕ) (A : Type) (frameSize : ℕ) extends
    Frame K d A frameSize where
  next : Option FramePtr

/-! ## How particles are spread over frames -/

/-- How many of `n` particles are in frame `k`. -/
def frameFill (frameSize n k : ℕ) : ℕ := min frameSize (n - k * frameSize)

/-- The numbers of particles of all frames. -/
def frameFills (frameSize n : ℕ) : List ℕ :=
  (List.range (n ⌈/⌉ frameSize)).map (frameFill frameSize n)

variable {frameSize n k : ℕ}

theorem lt_ceilDiv_iff (hpos : 0 < frameSize) : k < n ⌈/⌉ frameSize ↔ k * frameSize < n := by
  rw [← not_iff_not, not_lt, not_lt, ceilDiv_le_iff_le_mul hpos, Nat.mul_comm]

theorem frameFill_le : frameFill frameSize n k ≤ frameSize := Nat.min_le_left ..

/-- A frame before the last is full. -/
theorem frameFill_of_lt (hpos : 0 < frameSize) (hk : k + 1 < n ⌈/⌉ frameSize) :
    frameFill frameSize n k = frameSize := by
  have hlt := (lt_ceilDiv_iff hpos).mp hk
  rw [Nat.add_mul, Nat.one_mul] at hlt
  exact Nat.min_eq_left (by omega)

/-- The last frame holds what is left. -/
theorem frameFill_last (hpos : 0 < frameSize) (hk : k + 1 = n ⌈/⌉ frameSize) :
    frameFill frameSize n k = (n - 1) % frameSize + 1 := by
  have hlt : k * frameSize < n := (lt_ceilDiv_iff hpos).mp (by omega)
  have hle : n ≤ frameSize * (k + 1) := (ceilDiv_le_iff_le_mul hpos).mp hk.ge
  rw [Nat.mul_add, Nat.mul_one, Nat.mul_comm] at hle
  have hmod : (n - 1) % frameSize = n - 1 - k * frameSize := by
    have hsplit : n - 1 = (n - 1 - k * frameSize) + k * frameSize := by omega
    rw [hsplit, Nat.add_mul_mod_self_right, Nat.mod_eq_of_lt (by omega)]
    omega
  rw [hmod, frameFill]
  omega

theorem ceilDiv_le_self (hpos : 0 < frameSize) : n ⌈/⌉ frameSize ≤ n :=
  (ceilDiv_le_iff_le_mul hpos).mpr (Nat.le_mul_of_pos_left n hpos)

/-- **What the code computes for the last frame.** -/
theorem FrameList.getSizeLastFrame_toNat {l : FrameList} (hpos : 0 < frameSize)
    (hsize : frameSize < 2 ^ 32) (hk : k + 1 = l.numParticles.toNat ⌈/⌉ frameSize) :
    (l.getSizeLastFrame frameSize).toNat = frameFill frameSize l.numParticles.toNat k := by
  have hlt : k * frameSize < l.numParticles.toNat := (lt_ceilDiv_iff hpos).mp (by omega)
  have hne : l.numParticles ≠ 0 := fun h => by rw [h] at hlt; simp at hlt
  have hn := l.numParticles.toNat_lt
  have hone : (l.numParticles - 1).toNat = l.numParticles.toNat - 1 := by
    rw [UInt32.toNat_sub_of_le]
    · rfl
    · rw [UInt32.le_iff_toNat_le]
      change 1 ≤ _
      omega
  have hmod : (l.numParticles.toNat - 1) % frameSize < frameSize := Nat.mod_lt _ hpos
  have hmod_le : (l.numParticles.toNat - 1) % frameSize ≤ l.numParticles.toNat - 1 := Nat.mod_le ..
  rw [getSizeLastFrame, if_pos hne, UInt32.toNat_add, UInt32.toNat_mod, hone,
    UInt32.toNat_ofNat_of_lt' (by rw [UInt32.size]; omega), frameFill_last hpos hk]
  exact Nat.mod_eq_of_lt (by change _ + 1 < _; omega)

theorem FrameList.numFrames_toNat {l : FrameList} (hpos : 0 < frameSize) :
    (l.numFrames frameSize).toNat = l.numParticles.toNat ⌈/⌉ frameSize := by
  have hle : l.numParticles.toNat ⌈/⌉ frameSize ≤ l.numParticles.toNat := ceilDiv_le_self hpos
  have hn := l.numParticles.toNat_lt
  exact UInt32.toNat_ofNat_of_lt' (by rw [UInt32.size]; omega)

@[simp] theorem length_frameFills : (frameFills frameSize n).length = n ⌈/⌉ frameSize := by
  rw [frameFills, List.length_map, List.length_range]

theorem frameFills_getElem? (hk : k < n ⌈/⌉ frameSize) :
    (frameFills frameSize n)[k]? = some (frameFill frameSize n k) := by
  rw [frameFills, List.getElem?_map, List.getElem?_range hk]
  rfl

theorem frameFills_getD (hk : k < n ⌈/⌉ frameSize) :
    (frameFills frameSize n).getD k 0 = frameFill frameSize n k := by
  rw [List.getD_eq_getElem?_getD, frameFills_getElem? hk]
  rfl

/-- The indices of the particles in frame `k` begin at `k * frameSize`. -/
theorem blockStart_frameFills (hpos : 0 < frameSize) (hk : k ≤ n ⌈/⌉ frameSize) :
    blockStart (frameFills frameSize n) k = min n (k * frameSize) := by
  induction k with
  | zero => simp
  | succ k ih =>
    have hlt := (lt_ceilDiv_iff hpos).mp hk
    rw [blockStart_succ, ih (by omega), frameFills_getD (by omega), frameFill, Nat.add_mul]
    omega

/-- **All particles are in some frame.** -/
theorem sum_frameFills (hpos : 0 < frameSize) : (frameFills frameSize n).sum = n := by
  have hle : n ≤ frameSize * (n ⌈/⌉ frameSize) := (ceilDiv_le_iff_le_mul hpos).mp le_rfl
  rw [← blockStart_length, length_frameFills, blockStart_frameFills hpos le_rfl, Nat.mul_comm]
  exact Nat.min_eq_left hle

/-- The indices of the particles in a frame, as the code computes them from the slots. -/
def frameIndices (frameSize n k : ℕ) : List ℕ :=
  (List.range (frameFill frameSize n k)).map fun slot => k * frameSize + slot

/-- **The frames share out the indices of the particles.** -/
theorem flatten_frameIndices (hpos : 0 < frameSize) :
    ((List.range (n ⌈/⌉ frameSize)).map (frameIndices frameSize n)).flatten = List.range n := by
  have hlengths : ((List.range (n ⌈/⌉ frameSize)).map (frameIndices frameSize n)).map List.length =
      frameFills frameSize n := by
    rw [List.map_map, frameFills]
    exact List.map_congr_left fun k _ => by simp [frameIndices]
  have hread := map_range_eq_flatten ((List.range (n ⌈/⌉ frameSize)).map (frameIndices frameSize n))
    id id fun k i l x hl hx => ?_
  · rw [hlengths, sum_frameFills hpos, List.map_id, List.map_id] at hread
    exact hread.symm
  · obtain ⟨k', hk', rfl⟩ := Option.map_eq_some_iff.mp ((List.getElem?_map ..).symm.trans hl)
    obtain ⟨hk, hkk⟩ := List.getElem?_eq_some_iff.mp hk'
    rw [List.length_range] at hk
    rw [List.getElem_range] at hkk
    subst hkk
    obtain ⟨i', hi', rfl⟩ := Option.map_eq_some_iff.mp ((List.getElem?_map ..).symm.trans hx)
    obtain ⟨hi, rfl⟩ := List.getElem?_eq_some_iff.mp hi'
    have hlt := (lt_ceilDiv_iff hpos).mp hk
    rw [List.getElem_range, hlengths, blockStart_frameFills hpos hk.le, Nat.min_eq_right hlt.le]

/-- At most one frame is not full. -/
theorem countP_frameFills_ne (hpos : 0 < frameSize) :
    (frameFills frameSize n).countP (fun fill => decide (fill ≠ frameSize)) ≤ 1 := by
  rcases hframes : n ⌈/⌉ frameSize with _ | last
  · simp [frameFills, hframes]
  · have hfull : ∀ k ∈ List.range last, frameFill frameSize n k = frameSize := fun k hk => by
      have := List.mem_range.mp hk
      exact frameFill_of_lt hpos (by omega)
    rw [frameFills, hframes, List.range_succ, List.map_append, List.countP_append,
      List.countP_eq_zero.mpr ?_, Nat.zero_add]
    · exact List.countP_le_length
    · intro fill hfill
      obtain ⟨k, hk, rfl⟩ := List.mem_map.mp hfill
      simp [hfull k hk]

end Particles
end Spearhed
