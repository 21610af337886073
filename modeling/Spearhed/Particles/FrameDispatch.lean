import Mathlib.Tactic
import Mathlib.Data.UInt
import Spearhed.Library.Blocks
import Spearhed.Particles.Regions

/-!
# Counting frames and scanning counts

`FrameDispatch.hpp`: the kernel that counts the frames of every region, and the prefix sum on the
host that turns counts into positions.  Counters are `uint32_t` and wrap around; buffers are
functions of the index, with whatever they held before in the entries nobody writes.

* `inclusiveScanHost_ofNat`: where the entries count something, the scan holds the ends of the
  blocks laid out one after the other, modulo `2 ^ 32`.
-/

namespace Spearhed
namespace Particles

open Library

/-- `static_cast<int>` of a `uint32_t`. -/
def toInt (x : UInt32) : ℤ := x.toBitVec.toInt

theorem toInt_of_lt {x : UInt32} (h : x.toNat < 2 ^ 31) : toInt x = x.toNat := by
  rw [toInt, BitVec.toInt_eq_toNat_of_lt]
  · rfl
  · rw [UInt32.toNat_toBitVec]
    omega

theorem toInt_ofNat {n : ℕ} (h : n < 2 ^ 31) : toInt (UInt32.ofNat n) = n := by
  have hn : (UInt32.ofNat n).toNat = n := UInt32.toNat_ofNat_of_lt' (by rw [UInt32.size]; omega)
  rw [toInt_of_lt (by rw [hn]; exact h), hn]

/-- From `2 ^ 31` on the value is negative. -/
theorem toInt_neg_of_le {x : UInt32} (h : 2 ^ 31 ≤ x.toNat) : toInt x < 0 := by
  have hlt := x.toNat_lt
  have hb : x.toBitVec.toNat = x.toNat := UInt32.toNat_toBitVec x
  rw [toInt, BitVec.toInt_eq_toNat_cond, if_neg (by omega), hb]
  omega

/-- One turn of the scan loop: `data[i + 1] += data[i]`. -/
def scanStep (data : ℕ → UInt32) (i : ℕ) : ℕ → UInt32 :=
  Function.update data (i + 1) (data (i + 1) + data i)

/-- `inclusiveScanHost`: the buffer afterwards and the value returned. -/
def inclusiveScanHost (data : ℕ → UInt32) (size : ℕ) : (ℕ → UInt32) × UInt32 :=
  if size = 0 then (data, 0)
  else
    let scanned := (List.range (size - 1)).foldl scanStep data
    (scanned, scanned (size - 1))

/-- After `n` turns the first `n + 1` entries are prefix sums, the others untouched. -/
theorem foldl_scanStep (data : ℕ → UInt32) (n i : ℕ) :
    (List.range n).foldl scanStep data i =
      if i ≤ n then ∑ k ∈ Finset.range (i + 1), data k else data i := by
  induction n generalizing i with
  | zero =>
    rcases Nat.eq_zero_or_pos i with rfl | hi
    · simp
    · rw [if_neg (by omega)]
      rfl
  | succ n ih =>
    rw [List.range_succ, List.foldl_append, List.foldl_cons, List.foldl_nil, scanStep]
    rcases eq_or_ne i (n + 1) with rfl | hne
    · rw [Function.update_self, ih, ih, if_neg (by omega), if_pos le_rfl, if_pos le_rfl,
        Finset.sum_range_succ _ (n + 1), add_comm]
    · rw [Function.update_of_ne hne, ih]
      by_cases hi : i ≤ n
      · rw [if_pos hi, if_pos (by omega)]
      · rw [if_neg hi, if_neg (by omega)]

theorem inclusiveScanHost_fst (data : ℕ → UInt32) {size i : ℕ} (hi : i < size) :
    (inclusiveScanHost data size).1 i = ∑ k ∈ Finset.range (i + 1), data k := by
  rw [inclusiveScanHost, if_neg (by omega)]
  change (List.range (size - 1)).foldl scanStep data i = _
  rw [foldl_scanStep, if_pos (by omega)]

theorem inclusiveScanHost_snd (data : ℕ → UInt32) (size : ℕ) :
    (inclusiveScanHost data size).2 = ∑ k ∈ Finset.range size, data k := by
  rcases Nat.eq_zero_or_pos size with rfl | hsize
  · simp [inclusiveScanHost]
  · have hlast : (inclusiveScanHost data size).2 = (inclusiveScanHost data size).1 (size - 1) := by
      rw [inclusiveScanHost, if_neg (by omega)]
    rw [hlast, inclusiveScanHost_fst data (by omega), Nat.sub_add_cancel hsize]

/-- Sums of counters are counters of sums. -/
theorem sum_ofNat (f : ℕ → ℕ) (n : ℕ) :
    ∑ k ∈ Finset.range n, UInt32.ofNat (f k) = UInt32.ofNat ((List.range n).map f).sum := by
  induction n with
  | zero => simp
  | succ n ih =>
    rw [Finset.sum_range_succ, ih, List.range_succ, List.map_append, List.sum_append,
      UInt32.ofNat_add, List.map_singleton, List.sum_singleton]

theorem sum_range_ofNat (counts : List ℕ) (n : ℕ) :
    ∑ k ∈ Finset.range n, UInt32.ofNat (counts.getD k 0) = UInt32.ofNat (blockStart counts n) := by
  induction n with
  | zero => simp
  | succ n ih => rw [Finset.sum_range_succ, ih, blockStart_succ, UInt32.ofNat_add]

/-- **The scan of counts holds the ends of the blocks.** -/
theorem inclusiveScanHost_ofNat {data : ℕ → UInt32} {counts : List ℕ}
    (hdata : ∀ i < counts.length, data i = UInt32.ofNat (counts.getD i 0)) {i : ℕ}
    (hi : i < counts.length) :
    (inclusiveScanHost data counts.length).1 i = UInt32.ofNat (blockStart counts (i + 1)) := by
  rw [inclusiveScanHost_fst data hi, ← sum_range_ofNat]
  refine Finset.sum_congr rfl fun k hk => hdata k ?_
  have := Finset.mem_range.mp hk
  omega

theorem inclusiveScanHost_ofNat_total {data : ℕ → UInt32} {counts : List ℕ}
    (hdata : ∀ i < counts.length, data i = UInt32.ofNat (counts.getD i 0)) :
    (inclusiveScanHost data counts.length).2 = UInt32.ofNat counts.sum := by
  rw [inclusiveScanHost_snd, ← blockStart_length, ← sum_range_ofNat]
  exact Finset.sum_congr rfl fun k hk => hdata k (Finset.mem_range.mp hk)

/-- `CountFramesKernel`: block `b` stores the length of region `b`'s frame list. -/
def countFramesKernel {K : Type} {d : ℕ} (prDeviceBox : List (ParticleRegion K d))
    (framesPerRegion : ℕ → UInt32) : ℕ → UInt32 :=
  fun b => match prDeviceBox[b]? with
    | some region => UInt32.ofNat region.particleFrameList.length
    | none => framesPerRegion b

end Particles
end Spearhed
