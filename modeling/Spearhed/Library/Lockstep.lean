import Mathlib.Tactic
import Mathlib.Algebra.BigOperators.Fin
import Mathlib.Data.List.Perm.Basic

/-!
# Loops shared by the workers of a block

Two patterns recur in block-wide code.

* A strided loop: worker `w` of `n` takes the indices `w`, `w + n`, `w + 2 n`, … below a bound.
  Together the workers take every index once (`flatMap_strided_perm`).  `strided_of_lt` and
  `strided_of_le` unfold the loop.
* A tree reduction in shared memory: in each round the lower half of the active workers combine
  their own entry with one from the upper half.  Barriers separate the rounds, and within a round
  the entries read are not written, so a round is a function of the array before it.
  `Rounds` lets the workers of a round act in any order, with the same result (`Rounds.eq`).
  For a power of two of workers entry zero ends up with the sum (`treeReduce_zero`), and so with
  anything computed from a sum by parts (`treeReduce_map`).
* Scattered writes: every worker writes some entries of an array.  Where the writes to one place
  agree, the order in which they take effect does not matter (`scatter_eq`).
-/

namespace Spearhed
namespace Library

/-! ## Strided loops -/

/-- The values of `for(i = first; i < bound; i += step)` with a positive step. -/
def strided (first step bound : ℕ) : List ℕ :=
  ((List.range bound).map fun k => first + k * step).filter fun i => decide (i < bound)

theorem mem_strided {first step bound i : ℕ} (hstep : 0 < step) :
    i ∈ strided first step bound ↔ i < bound ∧ ∃ k, i = first + k * step := by
  simp only [strided, List.mem_filter, List.mem_map, List.mem_range, decide_eq_true_eq]
  constructor
  · rintro ⟨⟨k, -, rfl⟩, hi⟩
    exact ⟨hi, k, rfl⟩
  · rintro ⟨hi, k, rfl⟩
    have hk : k ≤ k * step := Nat.le_mul_of_pos_right k hstep
    exact ⟨⟨k, by omega, rfl⟩, hi⟩

theorem nodup_strided {first step bound : ℕ} (hstep : 0 < step) :
    (strided first step bound).Nodup := by
  refine (List.nodup_range.map ?_).filter _
  intro k l hkl
  have hmul : k * step = l * step := Nat.add_left_cancel hkl
  exact Nat.eq_of_mul_eq_mul_right hstep hmul

theorem strided_of_le {first step bound : ℕ} (h : bound ≤ first) : strided first step bound = [] := by
  rw [strided, List.filter_eq_nil_iff]
  intro i hi
  obtain ⟨k, -, rfl⟩ := List.mem_map.mp hi
  simp only [decide_eq_true_eq]
  omega

theorem strided_of_lt {first step bound : ℕ} (hstep : 0 < step) (h : first < bound) :
    strided first step bound = first :: strided (first + step) step bound := by
  obtain ⟨n, rfl⟩ : ∃ n, bound = n + 1 := ⟨bound - 1, by omega⟩
  have hlast : ¬ first + step + n * step < n + 1 := by
    have : n ≤ n * step := Nat.le_mul_of_pos_right n hstep
    omega
  have hshift : (List.range n).map ((fun k => first + k * step) ∘ Nat.succ) =
      (List.range n).map fun k => first + step + k * step :=
    List.map_congr_left fun k _ => by simp only [Function.comp_apply, Nat.succ_mul]; omega
  rw [strided, List.range_succ_eq_map, List.map_cons, Nat.zero_mul,
    List.filter_cons_of_pos (by simpa using h), List.map_map, hshift, strided, List.range_succ,
    List.map_append, List.filter_append, List.map_singleton, List.filter_cons_of_neg (by simpa using hlast),
    List.filter_nil, List.append_nil, Nat.add_zero]

/-- **The workers of a block share out a range.** -/
theorem flatMap_strided_perm {workers : ℕ} (hw : 0 < workers) (bound : ℕ) :
    ((List.range workers).flatMap fun w => strided w workers bound).Perm (List.range bound) := by
  rw [List.perm_ext_iff_of_nodup _ List.nodup_range]
  · intro i
    rw [List.mem_flatMap, List.mem_range]
    constructor
    · rintro ⟨w, -, hi⟩
      exact ((mem_strided hw).mp hi).1
    · intro hi
      refine ⟨i % workers, List.mem_range.mpr (Nat.mod_lt i hw), (mem_strided hw).mpr ⟨hi, ?_⟩⟩
      exact ⟨i / workers, by rw [Nat.mul_comm]; exact (Nat.mod_add_div i workers).symm⟩
  · rw [List.nodup_flatMap]
    refine ⟨fun w _ => nodup_strided hw, List.Pairwise.imp_of_mem ?_ List.nodup_range⟩
    intro v w hv hw' hne i hiv hiw
    obtain ⟨-, k, rfl⟩ := (mem_strided hw).mp hiv
    obtain ⟨-, l, hl⟩ := (mem_strided hw).mp hiw
    -- both workers are the remainder of `i`
    have h := congrArg (· % workers) hl
    simp only [Nat.add_mul_mod_self_right, Nat.mod_eq_of_lt (List.mem_range.mp hv),
      Nat.mod_eq_of_lt (List.mem_range.mp hw')] at h
    exact hne h

/-! ## Tree reduction -/

section TreeReduction

variable {M : Type*}

/-- The values of `for(s = first; s > 0; s >>= 1)`, of which there are at most `fuel`. -/
def halvings : ℕ → ℕ → List ℕ
  | 0, _ => []
  | fuel + 1, s => if s = 0 then [] else s :: halvings fuel (s / 2)

/-- One round: the workers below `s` combine their entry with the one `s` further up. -/
def reduceRound (op : M → M → M) (v : ℕ → M) (s : ℕ) : ℕ → M :=
  fun t => if t < s then op (v t) (v (t + s)) else v t

/-- The array after the reduction loop of a block of `workers` workers. -/
def treeReduce (op : M → M → M) (workers : ℕ) (v : ℕ → M) : ℕ → M :=
  (halvings workers (workers / 2)).foldl (reduceRound op) v

/-- The rounds of a reduction, in each of which the workers may act in any order. -/
inductive Rounds (op : M → M → M) : List ℕ → (ℕ → M) → (ℕ → M) → Prop
  | done {v : ℕ → M} : Rounds op [] v v
  | round {s : ℕ} {rounds order : List ℕ} {v v' : ℕ → M} (horder : order.Perm (List.range s))
      (rest : Rounds op rounds
        (order.foldl (fun v t => Function.update v t (op (v t) (v (t + s)))) v) v') :
      Rounds op (s :: rounds) v v'

/-- **The order within a round does not matter**: no worker writes what another one reads. -/
theorem foldl_reduceRound (op : M → M → M) {s : ℕ} {order : List ℕ} (h : order.Perm (List.range s))
    (v : ℕ → M) :
    order.foldl (fun v t => Function.update v t (op (v t) (v (t + s)))) v = reduceRound op v s := by
  have hlt : ∀ t ∈ order, t < s := fun t ht => List.mem_range.mp (h.mem_iff.mp ht)
  have hnodup : order.Nodup := h.nodup_iff.mpr List.nodup_range
  have hfold : ∀ (order : List ℕ) (v : ℕ → M), order.Nodup → (∀ t ∈ order, t < s) →
      order.foldl (fun v t => Function.update v t (op (v t) (v (t + s)))) v =
        fun t => if t ∈ order then op (v t) (v (t + s)) else v t := by
    intro order
    induction order with
    | nil => exact fun v _ _ => by simp
    | cons a order ih =>
      intro v hnodup hlt
      obtain ⟨ha, hrest⟩ := List.nodup_cons.mp hnodup
      rw [List.foldl_cons, ih _ hrest fun t ht => hlt t (List.mem_cons_of_mem a ht)]
      funext t
      have has := hlt a List.mem_cons_self
      rcases eq_or_ne t a with rfl | hne
      · simp [ha]
      · have hother : t + s ≠ a := by omega
        simp only [List.mem_cons, hne, false_or, Function.update_of_ne hne,
          Function.update_of_ne hother]
  rw [hfold order v hnodup hlt]
  funext t
  simp only [h.mem_iff, List.mem_range]
  rfl

/-- What the rounds compute. -/
theorem Rounds.eq {op : M → M → M} {rounds : List ℕ} {v v' : ℕ → M} (h : Rounds op rounds v v') :
    v' = rounds.foldl (reduceRound op) v := by
  induction h with
  | done => rfl
  | round horder _ ih => rw [ih, List.foldl_cons, foldl_reduceRound op horder]

theorem exists_rounds (op : M → M → M) (rounds : List ℕ) (v : ℕ → M) : ∃ v', Rounds op rounds v v' := by
  induction rounds generalizing v with
  | nil => exact ⟨v, .done⟩
  | cons s rounds ih =>
    obtain ⟨v', h⟩ := ih ((List.range s).foldl (fun v t => Function.update v t (op (v t) (v (t + s)))) v)
    exact ⟨v', .round (List.Perm.refl _) h⟩

/-- A reduction reads the entries of its workers only. -/
theorem foldl_halvings_congr (op : M → M → M) {n : ℕ} (fuel : ℕ) {s : ℕ} (hs : 2 * s ≤ n)
    {v w : ℕ → M} (h : ∀ t < n, v t = w t) :
    ∀ t < n, (halvings fuel s).foldl (reduceRound op) v t = (halvings fuel s).foldl (reduceRound op) w t := by
  induction fuel generalizing s v w with
  | zero => exact h
  | succ fuel ih =>
    rw [halvings]
    split
    · exact h
    · rw [List.foldl_cons, List.foldl_cons]
      refine ih (by omega) fun t ht => ?_
      unfold reduceRound
      split
      · rw [h t ht, h (t + s) (by omega)]
      · exact h t ht

theorem treeReduce_congr (op : M → M → M) {workers : ℕ} {v w : ℕ → M}
    (h : ∀ t < workers, v t = w t) : ∀ t < workers, treeReduce op workers v t = treeReduce op workers w t :=
  foldl_halvings_congr op workers (by omega) h

theorem halvings_two_pow {k fuel : ℕ} (h : k < fuel) :
    halvings fuel (2 ^ k) = 2 ^ k :: halvings (fuel - 1) (2 ^ k / 2) := by
  obtain ⟨f, rfl⟩ : ∃ f, fuel = f + 1 := ⟨fuel - 1, by omega⟩
  rw [halvings, if_neg (by positivity)]
  rfl

/-- A property of entry zero that combining keeps holds of the result. -/
theorem treeReduce_induction {op : M → M → M} {p : M → Prop} (hop : ∀ a b, p a → p (op a b))
    (workers : ℕ) {v : ℕ → M} (hv : p (v 0)) : p (treeReduce op workers v 0) := by
  rw [treeReduce]
  generalize halvings workers (workers / 2) = l
  induction l generalizing v with
  | nil => exact hv
  | cons s l ih =>
    rw [List.foldl_cons]
    refine ih ?_
    rw [reduceRound]
    split
    · exact hop _ _ hv
    · exact hv

theorem foldl_halvings_zero [AddCommMonoid M] (k : ℕ) {fuel : ℕ} (hfuel : k ≤ fuel) (v : ℕ → M) :
    (halvings fuel (2 ^ k / 2)).foldl (reduceRound (· + ·)) v 0 = ∑ t ∈ Finset.range (2 ^ k), v t := by
  induction k generalizing fuel v with
  | zero =>
    cases fuel <;> simp [halvings]
  | succ k ih =>
    have hhalf : 2 ^ (k + 1) / 2 = 2 ^ k := by rw [pow_succ, Nat.mul_div_cancel _ (by norm_num)]
    rw [hhalf, halvings_two_pow (show k < fuel by omega), List.foldl_cons, ih (by omega)]
    have hround : ∀ t ∈ Finset.range (2 ^ k),
        reduceRound (· + ·) v (2 ^ k) t = v t + v (t + 2 ^ k) := by
      intro t ht
      rw [reduceRound, if_pos (Finset.mem_range.mp ht)]
    rw [Finset.sum_congr rfl hround, Finset.sum_add_distrib, pow_succ, mul_two,
      Finset.sum_range_add]
    simp only [Nat.add_comm]

/-- **With a power of two of workers, entry zero ends up with the sum.** -/
theorem treeReduce_zero [AddCommMonoid M] (k : ℕ) (v : ℕ → M) :
    treeReduce (· + ·) (2 ^ k) v 0 = ∑ t ∈ Finset.range (2 ^ k), v t :=
  foldl_halvings_zero k Nat.lt_two_pow_self.le v

/-- Reduction commutes with a map that turns sums into combinations. -/
theorem treeReduce_map {N : Type*} [Add M] {op : N → N → N} {f : M → N}
    (hf : ∀ a b, f (a + b) = op (f a) (f b)) (workers : ℕ) (v : ℕ → M) :
    treeReduce op workers (fun t => f (v t)) = fun t => f (treeReduce (· + ·) workers v t) := by
  unfold treeReduce
  induction halvings workers (workers / 2) generalizing v with
  | nil => rfl
  | cons s l ih =>
    have hround : reduceRound op (fun t => f (v t)) s = fun t => f (reduceRound (· + ·) v s t) := by
      funext t
      unfold reduceRound
      split
      · exact (hf _ _).symm
      · rfl
    rw [List.foldl_cons, List.foldl_cons, hround]
    exact ih _

end TreeReduction

/-! ## Scattered writes -/

section Scatter

variable {γ : Type*}

/-- The array after some writes, each a place and a value. -/
def scatter (writes : List (ℕ × γ)) (v : ℕ → γ) : ℕ → γ :=
  writes.foldl (fun v w => Function.update v w.1 w.2) v

/-- **A place holds what is written to it**, if all writes to it agree. -/
theorem scatter_eq {writes : List (ℕ × γ)} {v : ℕ → γ} {p : ℕ} {x : γ}
    (hagree : ∀ w ∈ writes, w.1 = p → w.2 = x) (hw : (∃ w ∈ writes, w.1 = p) ∨ v p = x) :
    scatter writes v p = x := by
  unfold scatter
  induction writes generalizing v with
  | nil =>
    obtain ⟨w, hw, -⟩ | hv := hw
    · exact absurd hw List.not_mem_nil
    · exact hv
  | cons w writes ih =>
    rw [List.foldl_cons]
    refine ih (fun w' hw' => hagree w' (List.mem_cons_of_mem _ hw')) ?_
    rcases eq_or_ne w.1 p with hp | hp
    · right
      rw [← hp, Function.update_self]
      exact hagree w List.mem_cons_self hp
    · rcases hw with ⟨w', hw', hp'⟩ | hv
      · rcases List.mem_cons.mp hw' with rfl | hw'
        · exact absurd hp' hp
        · exact Or.inl ⟨w', hw', hp'⟩
      · right
        rw [Function.update_of_ne hp.symm, hv]

end Scatter

end Library
end Spearhed
