import Mathlib.Data.List.Perm.Basic
import Mathlib.Tactic

/-!
# Dealing out blocks of indices

Blocks of `width` indices are dealt out to workers in turn, like cards.  An index then has an owner and
is an element of what the owner holds, counted without gaps.

* `dealIndex_owner_element`, `dealOwner_index`, `dealElement_index`: indices and pairs of a worker and
  one of its elements are the same thing.
* `dealElement_lt`: how many elements a worker has at most.
* `flatMap_dealt_perm`: together the workers have every index once.
-/

namespace Spearhed
namespace Library

/-- The worker that has index `i`. -/
def dealOwner (workers width i : ℕ) : ℕ := i / width % workers

/-- The place of index `i` among those of its owner. -/
def dealElement (workers width i : ℕ) : ℕ := i / (width * workers) * width + i % width

/-- Element `k` of a worker. -/
def dealIndex (workers width worker k : ℕ) : ℕ := (k / width * workers + worker) * width + k % width

/-- The elements of a worker, if `n` indices are dealt out. -/
def dealt (workers width n worker : ℕ) : List ℕ :=
  (List.range ((n + width * workers - 1) / (width * workers) * width)).filter fun k =>
    decide (dealIndex workers width worker k < n)

variable {workers width n worker k i : ℕ}

theorem dealIndex_add (hwidth : 0 < width) {round s : ℕ} (hs : s < width) :
    dealIndex workers width worker (round * width + s) = (round * workers + worker) * width + s := by
  rw [dealIndex, Nat.add_comm (round * width) s, Nat.add_mul_div_right _ _ hwidth,
    Nat.div_eq_of_lt hs, Nat.add_mul_mod_self_right, Nat.mod_eq_of_lt hs, Nat.zero_add]

theorem le_dealIndex (hworkers : 0 < workers) : k ≤ dealIndex workers width worker k :=
  calc k = k / width * width + k % width := (Nat.div_add_mod' k width).symm
    _ ≤ _ := Nat.add_le_add_right (Nat.mul_le_mul_right width
        ((Nat.le_mul_of_pos_right _ hworkers).trans (Nat.le_add_right _ _))) _

theorem dealIndex_owner_element (hwidth : 0 < width) :
    dealIndex workers width (dealOwner workers width i) (dealElement workers width i) = i := by
  rw [dealElement, dealIndex_add hwidth (Nat.mod_lt i hwidth), dealOwner, ← Nat.div_div_eq_div_mul,
    Nat.div_add_mod', Nat.div_add_mod']

theorem dealOwner_index (hworker : worker < workers) (hwidth : 0 < width) :
    dealOwner workers width (dealIndex workers width worker k) = worker := by
  rw [dealOwner, dealIndex, Nat.add_comm _ (k % width), Nat.add_mul_div_right _ _ hwidth,
    Nat.div_eq_of_lt (Nat.mod_lt k hwidth), Nat.zero_add, Nat.add_comm, Nat.add_mul_mod_self_right,
    Nat.mod_eq_of_lt hworker]

/-- The round in which an element is dealt. -/
theorem dealIndex_div (hworker : worker < workers) (hwidth : 0 < width) :
    dealIndex workers width worker k / (width * workers) = k / width := by
  rw [← Nat.div_div_eq_div_mul, dealIndex, Nat.add_comm _ (k % width), Nat.add_mul_div_right _ _ hwidth,
    Nat.div_eq_of_lt (Nat.mod_lt k hwidth), Nat.zero_add, Nat.add_comm,
    Nat.add_mul_div_right _ _ (Nat.zero_lt_of_lt hworker), Nat.div_eq_of_lt hworker, Nat.zero_add]

theorem dealElement_index (hworker : worker < workers) (hwidth : 0 < width) :
    dealElement workers width (dealIndex workers width worker k) = k := by
  have hplace : dealIndex workers width worker k % width = k % width := by
    rw [dealIndex, Nat.add_comm, Nat.add_mul_mod_self_right, Nat.mod_mod]
  rw [dealElement, dealIndex_div hworker hwidth, hplace, Nat.div_add_mod']

/-- **How many elements a worker has at most.** -/
theorem dealElement_lt (hworkers : 0 < workers) (hwidth : 0 < width) (hi : i < n) :
    dealElement workers width i < (n + width * workers - 1) / (width * workers) * width := by
  have hpos : 0 < width * workers := Nat.mul_pos hwidth hworkers
  have hround : i / (width * workers) + 1 ≤ (n + width * workers - 1) / (width * workers) := by
    rw [← Nat.add_div_right i hpos]
    exact Nat.div_le_div_right (by omega)
  calc dealElement workers width i < i / (width * workers) * width + width :=
        Nat.add_lt_add_left (Nat.mod_lt i hwidth) _
    _ = (i / (width * workers) + 1) * width := (Nat.succ_mul _ _).symm
    _ ≤ _ := Nat.mul_le_mul_right width hround

theorem mem_dealt (hworker : worker < workers) (hwidth : 0 < width) :
    k ∈ dealt workers width n worker ↔ dealIndex workers width worker k < n := by
  rw [dealt, List.mem_filter, List.mem_range, decide_eq_true_iff, and_iff_right_iff_imp]
  intro hk
  have hlt := dealElement_lt (Nat.zero_lt_of_lt hworker) hwidth hk
  rwa [dealElement_index hworker hwidth] at hlt

theorem nodup_dealt : (dealt workers width n worker).Nodup := List.nodup_range.filter _

theorem pairwise_dealt : (dealt workers width n worker).Pairwise (· < ·) :=
  List.Pairwise.filter _ List.pairwise_lt_range

/-- A single index goes to the first worker. -/
theorem dealt_one (hworker : worker < workers) (hwidth : 0 < width) :
    dealt workers width 1 worker = if worker = 0 then [0] else [] := by
  split
  · next hzero =>
    subst hzero
    refine List.Perm.eq_of_pairwise' pairwise_dealt (List.pairwise_singleton _ _)
      ((List.perm_ext_iff_of_nodup nodup_dealt (List.nodup_singleton _)).mpr fun k => ?_)
    rw [mem_dealt hworker hwidth, List.mem_singleton, Nat.lt_one_iff]
    constructor
    · intro hk
      have helement := dealElement_index (k := k) hworker hwidth
      rw [hk, dealElement, Nat.zero_div, Nat.zero_mul, Nat.zero_mod] at helement
      exact helement.symm
    · rintro rfl
      rw [dealIndex, Nat.zero_div, Nat.zero_mul, Nat.zero_mod]
      simp
  · next hzero =>
    rw [List.eq_nil_iff_forall_not_mem]
    intro k hk
    have howner := dealOwner_index (k := k) hworker hwidth
    rw [Nat.lt_one_iff.mp ((mem_dealt hworker hwidth).mp hk), dealOwner, Nat.zero_div,
      Nat.zero_mod] at howner
    exact hzero howner.symm

/-- **Together the workers have every index once.** -/
theorem flatMap_dealt_perm (hworkers : 0 < workers) (hwidth : 0 < width) (n : ℕ) :
    ((List.range workers).flatMap fun w =>
      (dealt workers width n w).map (dealIndex workers width w)).Perm (List.range n) := by
  rw [List.perm_ext_iff_of_nodup _ List.nodup_range]
  · intro i
    simp only [List.mem_flatMap, List.mem_range, List.mem_map]
    constructor
    · rintro ⟨w, hw, k, hk, rfl⟩
      exact (mem_dealt hw hwidth).mp hk
    · intro hi
      have howner : dealOwner workers width i < workers := Nat.mod_lt _ hworkers
      refine ⟨_, howner, dealElement workers width i, ?_, dealIndex_owner_element hwidth⟩
      rwa [mem_dealt howner hwidth, dealIndex_owner_element hwidth]
  · rw [List.nodup_flatMap]
    refine ⟨fun w hw => ?_, List.Pairwise.imp_of_mem ?_ List.nodup_range⟩
    · refine nodup_dealt.map_on fun k _ l _ hkl => ?_
      have helement := congrArg (dealElement workers width) hkl
      rwa [dealElement_index (List.mem_range.mp hw) hwidth,
        dealElement_index (List.mem_range.mp hw) hwidth] at helement
    · intro v w hv hw hne i hiv hiw
      obtain ⟨k, -, rfl⟩ := List.mem_map.mp hiv
      obtain ⟨l, -, hl⟩ := List.mem_map.mp hiw
      have howner := congrArg (dealOwner workers width) hl
      rw [dealOwner_index (List.mem_range.mp hv) hwidth,
        dealOwner_index (List.mem_range.mp hw) hwidth] at howner
      exact hne howner.symm

/-- The elements of whole rounds. -/
theorem flatMap_rounds (rounds width : ℕ) : ((List.range rounds).flatMap fun i =>
    (List.range width).map fun s => i * width + s) = List.range (rounds * width) := by
  induction rounds with
  | zero => rw [Nat.zero_mul]; rfl
  | succ rounds ih =>
    rw [List.range_succ, List.flatMap_append, ih, List.flatMap_singleton, Nat.succ_mul, List.range_add]

/-- **Whole rounds, and what is left over.** -/
theorem dealt_eq_append (hworker : worker < workers) (hwidth : 0 < width) :
    dealt workers width n worker = List.range (n / (width * workers) * width) ++
      if n % (width * workers) = 0 then []
      else ((List.range width).filter fun s =>
        decide (worker * width + s < n - n / (width * workers) * workers * width)).map
          fun s => n / (width * workers) * width + s := by
  have hpos : 0 < width * workers := Nat.mul_pos hwidth (Nat.zero_lt_of_lt hworker)
  set rounds := n / (width * workers) with hrounds
  have hdiv : rounds * (width * workers) + n % (width * workers) = n := Nat.div_add_mod' ..
  have hmod : n % (width * workers) < width * workers := Nat.mod_lt n hpos
  have hwhole : (List.range (rounds * width)).filter
      (fun k => decide (dealIndex workers width worker k < n)) = List.range (rounds * width) := by
    rw [List.filter_eq_self]
    intro k hk
    rw [decide_eq_true_iff]
    refine Nat.lt_of_div_lt_div (c := width * workers) ?_
    rw [dealIndex_div hworker hwidth]
    exact (Nat.div_lt_iff_lt_mul hwidth).mpr (List.mem_range.mp hk)
  rw [dealt]
  split
  · next hrest =>
    have hceil : (n + width * workers - 1) / (width * workers) = rounds := by
      refine Nat.div_eq_of_lt_le (by omega) ?_
      rw [Nat.add_one_mul]
      omega
    rw [hceil, hwhole, List.append_nil]
  · next hrest =>
    have hceil : (n + width * workers - 1) / (width * workers) = rounds + 1 := by
      refine Nat.div_eq_of_lt_le ?_ ?_
      · rw [Nat.add_one_mul]
        omega
      · rw [Nat.add_one_mul, Nat.add_one_mul]
        omega
    have hleft : (List.range width).filter
        ((fun k => decide (dealIndex workers width worker k < n)) ∘ fun s => rounds * width + s) =
        (List.range width).filter fun s =>
          decide (worker * width + s < n - rounds * workers * width) := by
      refine List.filter_congr fun s hs => ?_
      rw [Function.comp_apply, dealIndex_add hwidth (List.mem_range.mp hs), Nat.add_mul,
        decide_eq_decide]
      omega
    rw [hceil, Nat.add_one_mul, List.range_add, List.filter_append, hwhole, List.filter_map, hleft]

end Library
end Spearhed
