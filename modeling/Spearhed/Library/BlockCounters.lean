import Mathlib.Tactic.Ring
import Mathlib.Data.List.Nodup
import Mathlib.Data.Nat.Size
import Mathlib.Logic.Function.Basic

/-!
# Counters that share a number type

Several participants hand out numbers of `w` bits, each from a counter of its own that wraps around.
When the counters start at different multiples of `2 ^ m`, a participant stays in its own block of
`2 ^ m` numbers as long as the upper bits of its counter are those of its start.

* `handedOut`: the numbers, in the order of the requests.
* `nodup_handedOut`: they are distinct if those of the counters are.
* `lt_two_pow_of_upper_eq`: the upper bits say whether a counter is still in its block.
* `eq_of_add_eq_add`: blocks are disjoint.
-/

namespace Spearhed
namespace Library

section HandedOut

variable {ι : Type*} [DecidableEq ι] {w : ℕ}

/-- The numbers handed out for some requests, when every counter was asked some times before. -/
def handedOut (start : ι → BitVec w) : (ι → ℕ) → List ι → List (BitVec w)
  | _, [] => []
  | count, i :: requests =>
    (start i + BitVec.ofNat w (count i)) ::
      handedOut start (Function.update count i (count i + 1)) requests

variable {start : ι → BitVec w}

theorem update_count_add (count : ι → ℕ) (i : ι) (requests : List ι) :
    (fun j => Function.update count i (count i + 1) j + requests.count j) =
      fun j => count j + (i :: requests).count j := by
  funext j
  rcases eq_or_ne j i with rfl | hne
  · rw [Function.update_self, List.count_cons_self]
    omega
  · rw [Function.update_of_ne hne, List.count_cons_of_ne hne.symm]

theorem handedOut_append (count : ι → ℕ) (l l' : List ι) :
    handedOut start count (l ++ l') =
      handedOut start count l ++ handedOut start (fun i => count i + l.count i) l' := by
  induction l generalizing count with
  | nil => rfl
  | cons i l ih => rw [List.cons_append, handedOut, handedOut, ih, List.cons_append, update_count_add]

/-- What a number is, and whose. -/
theorem mem_handedOut {count : ι → ℕ} {l : List ι} {x : BitVec w} (h : x ∈ handedOut start count l) :
    ∃ i ∈ l, ∃ j, count i ≤ j ∧ j < count i + l.count i ∧ x = start i + BitVec.ofNat w j := by
  induction l generalizing count with
  | nil => cases h
  | cons i l ih =>
    rw [handedOut, List.mem_cons] at h
    rcases h with rfl | h
    · refine ⟨i, List.mem_cons_self, count i, le_rfl, ?_, rfl⟩
      rw [List.count_cons_self]
      omega
    · obtain ⟨i', hi', j, hle, hlt, rfl⟩ := ih h
      have hcount := congrFun (update_count_add count i l) i'
      refine ⟨i', List.mem_cons_of_mem i hi', j, le_trans ?_ hle, by omega, rfl⟩
      rcases eq_or_ne i' i with rfl | hne
      · rw [Function.update_self]
        omega
      · rw [Function.update_of_ne hne]

/-- **Numbers handed out are distinct** if those of all counters are. -/
theorem nodup_handedOut {count : ι → ℕ} {l : List ι}
    (h : ∀ i ∈ l, ∀ i' ∈ l, ∀ j < count i + l.count i, ∀ j' < count i' + l.count i',
      start i + BitVec.ofNat w j = start i' + BitVec.ofNat w j' → i = i' ∧ j = j') :
    (handedOut start count l).Nodup := by
  induction l generalizing count with
  | nil => exact List.nodup_nil
  | cons i l ih =>
    have hcount := update_count_add count i l
    rw [handedOut, List.nodup_cons]
    refine ⟨fun hmem => ?_, ih fun a ha b hb j hj j' hj' heq => ?_⟩
    · -- a later number of the same counter has a larger index
      obtain ⟨i', hi', j, hle, hlt, heq⟩ := mem_handedOut hmem
      have hj := congrFun hcount i'
      obtain ⟨rfl, rfl⟩ := h i List.mem_cons_self i' (List.mem_cons_of_mem i hi') (count i)
        (by rw [List.count_cons_self]; omega) j (by omega) heq
      rw [Function.update_self] at hle
      omega
    · have ha' := congrFun hcount a
      have hb' := congrFun hcount b
      exact h a (List.mem_cons_of_mem i ha) b (List.mem_cons_of_mem i hb) j (by omega) j' (by omega) heq

end HandedOut

section Blocks

variable {w m : ℕ}

/-- Inside of its block a counter does not wrap. -/
theorem toNat_add_ofNat {a : BitVec w} (hm : m ≤ w) (ha : a.toNat % 2 ^ m = 0) {j : ℕ} (hj : j < 2 ^ m) :
    (a + BitVec.ofNat w j).toNat = a.toNat + j := by
  obtain ⟨k, rfl⟩ : ∃ k, w = k + m := ⟨w - m, by omega⟩
  have hpow : (2 : ℕ) ^ (k + m) = 2 ^ k * 2 ^ m := pow_add 2 k m
  have ha' : 2 ^ m * (a.toNat / 2 ^ m) = a.toNat := by
    have := Nat.div_add_mod a.toNat (2 ^ m)
    omega
  have hblock : a.toNat / 2 ^ m + 1 ≤ 2 ^ k := by
    have := a.isLt
    rw [hpow] at this
    exact Nat.div_lt_of_lt_mul (by rwa [Nat.mul_comm] at this)
  have hle : (a.toNat / 2 ^ m + 1) * 2 ^ m ≤ 2 ^ k * 2 ^ m := Nat.mul_le_mul_right _ hblock
  rw [Nat.add_mul, Nat.mul_comm, ha'] at hle
  have hj' : j < 2 ^ (k + m) := by omega
  rw [BitVec.toNat_add, BitVec.toNat_ofNat, Nat.mod_eq_of_lt hj', Nat.mod_eq_of_lt (by omega)]

/-- **Blocks are disjoint.** -/
theorem eq_of_add_eq_add {a b : BitVec w} (hm : m ≤ w) (ha : a.toNat % 2 ^ m = 0)
    (hb : b.toNat % 2 ^ m = 0) {j k : ℕ} (hj : j < 2 ^ m) (hk : k < 2 ^ m)
    (h : a + BitVec.ofNat w j = b + BitVec.ofNat w k) : a = b ∧ j = k := by
  have hnat := congrArg BitVec.toNat h
  rw [toNat_add_ofNat hm ha hj, toNat_add_ofNat hm hb hk] at hnat
  have hjk := congrArg (· % 2 ^ m) hnat
  simp only [Nat.add_mod, ha, hb, Nat.zero_add, Nat.mod_eq_of_lt hj,
    Nat.mod_eq_of_lt hk] at hjk
  exact ⟨BitVec.eq_of_toNat_eq (by omega), hjk⟩

/-- **The upper bits of a counter** that was asked fewer than `2 ^ w` times. -/
theorem lt_two_pow_of_upper_eq {a : BitVec w} (ha : a.toNat % 2 ^ m = 0) {k : ℕ}
    (hk : k < 2 ^ w) (h : (a + BitVec.ofNat w k) >>> m = a >>> m) : k < 2 ^ m := by
  have hdiv := congrArg BitVec.toNat h
  rw [BitVec.toNat_ushiftRight, BitVec.toNat_ushiftRight, Nat.shiftRight_eq_div_pow,
    Nat.shiftRight_eq_div_pow, BitVec.toNat_add, BitVec.toNat_ofNat, Nat.mod_eq_of_lt hk] at hdiv
  have ha' : 2 ^ m * (a.toNat / 2 ^ m) = a.toNat := by
    have := Nat.div_add_mod a.toNat (2 ^ m)
    omega
  have hlt := a.isLt
  have hpos : 0 < 2 ^ m := Nat.two_pow_pos m
  by_contra hge
  rcases Nat.lt_or_ge (a.toNat + k) (2 ^ w) with hfit | hwrap
  · -- without a wrap the counter is in a later block
    have hlater : a.toNat / 2 ^ m + 1 ≤ (a.toNat + k) / 2 ^ m := by
      rw [Nat.le_div_iff_mul_le hpos, Nat.add_mul, Nat.mul_comm, ha']
      omega
    rw [Nat.mod_eq_of_lt hfit] at hdiv
    omega
  · -- after a wrap it is below its start
    have hbelow : (a.toNat + k) % 2 ^ w = a.toNat + k - 2 ^ w := by
      rw [Nat.mod_eq_sub_mod hwrap, Nat.mod_eq_of_lt (by omega)]
    have hearlier : (a.toNat + k - 2 ^ w) / 2 ^ m < a.toNat / 2 ^ m := by
      rw [Nat.div_lt_iff_lt_mul hpos, Nat.mul_comm, ha']
      omega
    rw [hbelow] at hdiv
    omega

end Blocks

end Library
end Spearhed
