import Mathlib.Data.List.Basic
import Mathlib.Logic.Function.Iterate
import Mathlib.Order.MinMax

/-!
# Operations that throw

An operation is a number of actions any of which may throw and a result.  It has the strong
guarantee: when an action throws, what it works on is as before.  A sequence of such operations has
not; a first part of it is done (`completed`), and that is all that is known of it.
-/

namespace Spearhed
namespace Library

/-- Which of the coming actions throw; the ones not listed succeed. -/
abbrev Faults := List Bool

/-- Some actions, up to the first that throws; whether all succeed, and the faults left. -/
def attempt : ℕ → Faults → Bool × Faults
  | 0, faults => (true, faults)
  | _ + 1, [] => (true, [])
  | _ + 1, true :: faults => (false, faults)
  | k + 1, false :: faults => attempt k faults

/-- What is left where something may have thrown. -/
structure Attempt (α : Type) where
  succeeded : Bool
  state : α
  faults : Faults

/-- An operation with the strong guarantee. -/
structure Transaction (α : Type) where
  /-- The actions that may throw. -/
  actions : ℕ
  result : α

variable {α : Type}

def Transaction.run (t : Transaction α) (old : α) (faults : Faults) : Attempt α :=
  match attempt t.actions faults with
  | (true, rest) => ⟨true, t.result, rest⟩
  | (false, rest) => ⟨false, old, rest⟩

theorem Transaction.run_of_success {t : Transaction α} {faults rest : Faults} (h : attempt t.actions faults = (true, rest)) (old : α) :
    t.run old faults = ⟨true, t.result, rest⟩ := by
  rw [run, h]

theorem Transaction.run_of_throw {t : Transaction α} {faults rest : Faults} (h : attempt t.actions faults = (false, rest)) (old : α) :
    t.run old faults = ⟨false, old, rest⟩ := by
  rw [run, h]

/-! ## Sequences of operations -/

/-- How many of a sequence of operations, with these numbers of actions, are done; the faults left. -/
def completed : List ℕ → Faults → ℕ × Faults
  | [], faults => (0, faults)
  | k :: ks, faults =>
      match attempt k faults with
      | (true, rest) => ((completed ks rest).1 + 1, (completed ks rest).2)
      | (false, rest) => (0, rest)

section Completed

variable {k : ℕ} {ks ls : List ℕ} {faults rest : Faults}

theorem completed_cons_of_success (h : attempt k faults = (true, rest)) :
    completed (k :: ks) faults = ((completed ks rest).1 + 1, (completed ks rest).2) := by
  rw [completed, h]

theorem completed_cons_of_throw (h : attempt k faults = (false, rest)) : completed (k :: ks) faults = (0, rest) := by
  rw [completed, h]

theorem completed_le (ks : List ℕ) (faults : Faults) : (completed ks faults).1 ≤ ks.length := by
  induction ks generalizing faults with
  | nil => exact le_refl 0
  | cons k ks ih =>
    rcases h : attempt k faults with ⟨_ | _, rest⟩
    · rw [completed_cons_of_throw h]
      exact Nat.zero_le _
    · rw [completed_cons_of_success h]
      exact Nat.succ_le_succ (ih rest)

/-- Two sequences, one after the other. -/
theorem completed_append_of_success (h : (completed ks faults).1 = ks.length) :
    completed (ks ++ ls) faults =
      (ks.length + (completed ls (completed ks faults).2).1, (completed ls (completed ks faults).2).2) := by
  induction ks generalizing faults with
  | nil => exact Prod.ext (Nat.zero_add _).symm rfl
  | cons k ks ih =>
    rcases hk : attempt k faults with ⟨_ | _, rest⟩
    · rw [completed_cons_of_throw hk] at h
      exact absurd h (Nat.zero_ne_add_one _)
    · rw [completed_cons_of_success hk] at h
      rw [List.cons_append, completed_cons_of_success hk, completed_cons_of_success hk, ih (Nat.succ.inj h)]
      exact Prod.ext (Nat.succ_add_eq_add_succ _ _ ▸ Nat.add_right_comm _ _ 1) rfl

theorem completed_append_of_throw (h : (completed ks faults).1 < ks.length) :
    completed (ks ++ ls) faults = completed ks faults := by
  induction ks generalizing faults with
  | nil => exact absurd h (Nat.not_lt_zero _)
  | cons k ks ih =>
    rcases hk : attempt k faults with ⟨_ | _, rest⟩
    · rw [List.cons_append, completed_cons_of_throw hk, completed_cons_of_throw hk]
    · rw [completed_cons_of_success hk] at h
      rw [List.cons_append, completed_cons_of_success hk, completed_cons_of_success hk, ih (Nat.succ_lt_succ_iff.mp h)]

/-- Operations without actions are all done. -/
theorem completed_of_no_actions (h : ∀ k ∈ ks, k = 0) : (completed ks faults).1 = ks.length := by
  induction ks with
  | nil => rfl
  | cons k ks ih =>
    obtain ⟨rfl, hks⟩ := List.forall_mem_cons.mp h
    rw [completed_cons_of_success rfl, ih hks, List.length_cons]

/-- Operations of one action each are all done when none of that many actions throws. -/
theorem completed_replicate_one (n : ℕ) (faults : Faults) :
    (completed (List.replicate n 1) faults).1 = n ↔ true ∉ faults.take n := by
  induction n generalizing faults with
  | zero => simp [completed]
  | succ n ih =>
    rw [List.replicate_succ]
    match faults with
    | [] =>
      rw [completed_cons_of_success rfl]
      exact iff_of_true (congrArg Nat.succ ((ih []).mpr (by simp))) (by simp)
    | true :: rest =>
      rw [completed_cons_of_throw rfl]
      exact iff_of_false (Nat.zero_ne_add_one n) (by simp)
    | false :: rest =>
      rw [completed_cons_of_success rfl, List.take_succ_cons]
      exact Nat.succ_inj.trans ((ih rest).trans (by simp))

/-- None is done when the first action throws. -/
theorem completed_replicate_one_eq_zero (n : ℕ) (faults : Faults) :
    (completed (List.replicate (n + 1) 1) faults).1 = 0 ↔ faults.head? = some true := by
  rw [List.replicate_succ]
  match faults with
  | [] => exact iff_of_false (Nat.succ_ne_zero _) (by simp)
  | true :: rest => exact iff_of_true rfl rfl
  | false :: rest => exact iff_of_false (Nat.succ_ne_zero _) (by simp)

end Completed

/-! ## Vectors -/

/-- `std::vector`. -/
structure Vec (α : Type) where
  elements : List α
  capacity : ℕ
  fits : elements.length ≤ capacity

namespace Vec

def empty : Vec α := ⟨[], 0, le_refl 0⟩

def size (v : Vec α) : ℕ := v.elements.length

/-- `resize`, with the elements that come to lie in the new rows.  A vector that outgrows its
capacity allocates, and constructs the elements it has again. -/
def resize (v : Vec α) (n : ℕ) (new : ℕ → α) : Transaction (Vec α) :=
  if h : n ≤ v.size then
    { actions := 0
      result := ⟨v.elements.take n, v.capacity, (List.length_take_le' _ _).trans v.fits⟩ }
  else
    { actions := (n - v.size) + if n ≤ v.capacity then 0 else 1 + v.size
      result :=
        { elements := v.elements ++ (List.range (n - v.size)).map fun i => new (v.size + i)
          capacity := if n ≤ v.capacity then v.capacity else max n (2 * v.size)
          fits := by
            have hlength : v.elements.length + (n - v.size) = n := Nat.add_sub_cancel' (Nat.le_of_lt (not_le.mp h))
            rw [List.length_append, List.length_map, List.length_range, hlength]
            split
            · assumption
            · exact le_max_left _ _ } }

/-- `reserve`. -/
def reserve (v : Vec α) (n : ℕ) : Transaction (Vec α) :=
  if h : n ≤ v.capacity then ⟨0, v⟩
  else ⟨1 + v.size, ⟨v.elements, n, v.fits.trans (Nat.le_of_lt (not_le.mp h))⟩⟩

/-- The copy constructor. -/
def copy (v : Vec α) : Transaction (Vec α) :=
  ⟨if v.size = 0 then 0 else 1 + v.size, ⟨v.elements, v.size, le_refl _⟩⟩

/-- `clear`. -/
def clear (v : Vec α) : Vec α := ⟨[], v.capacity, Nat.zero_le _⟩

/-- `pop_back`. -/
def popBack (v : Vec α) : Vec α :=
  ⟨v.elements.dropLast, v.capacity, (List.dropLast_sublist _).length_le.trans v.fits⟩

@[simp] theorem elements_popBack (v : Vec α) : v.popBack.elements = v.elements.dropLast := rfl

theorem elements_resize_of_le {v : Vec α} {n : ℕ} (h : n ≤ v.size) (new : ℕ → α) :
    (v.resize n new).result.elements = v.elements.take n := by
  rw [resize, dif_pos h]

theorem elements_resize_of_lt {v : Vec α} {n : ℕ} (h : v.size < n) (new : ℕ → α) :
    (v.resize n new).result.elements = v.elements ++ (List.range (n - v.size)).map fun i => new (v.size + i) := by
  rw [resize, dif_neg (not_le.mpr h)]

theorem actions_resize_of_le {v : Vec α} {n : ℕ} (h : n ≤ v.size) (new : ℕ → α) : (v.resize n new).actions = 0 := by
  rw [resize, dif_pos h]

theorem size_resize (v : Vec α) (n : ℕ) (new : ℕ → α) : (v.resize n new).result.size = n := by
  rcases le_or_gt n v.size with h | h
  · rw [size, elements_resize_of_le h, List.length_take]
    exact min_eq_left h
  · rw [size, elements_resize_of_lt h, List.length_append, List.length_map, List.length_range]
    exact Nat.add_sub_cancel' (Nat.le_of_lt h)

/-- The rows that stay are the first ones. -/
theorem take_resize (v : Vec α) (n : ℕ) (new : ℕ → α) :
    (v.resize n new).result.elements.take (min v.size n) = v.elements.take (min v.size n) := by
  rcases le_or_gt n v.size with h | h
  · rw [elements_resize_of_le h, List.take_take, min_eq_right h, min_self]
  · rw [elements_resize_of_lt h, min_eq_left (Nat.le_of_lt h)]
    exact List.take_append_of_le_length (le_refl _)

@[simp] theorem elements_reserve (v : Vec α) (n : ℕ) : (v.reserve n).result.elements = v.elements := by
  rw [reserve]
  split <;> rfl

theorem elements_iterate_popBack (v : Vec α) (k : ℕ) :
    (popBack^[k] v).elements = v.elements.take (v.size - k) := by
  induction k with
  | zero => exact (List.take_length).symm
  | succ k ih =>
    have hlength : min (min (v.size - k) v.size - 1) (v.size - k) = v.size - (k + 1) := by omega
    rw [Function.iterate_succ_apply', elements_popBack, ih, List.dropLast_eq_take, List.take_take, List.length_take, ← size, hlength]

end Vec

end Library
end Spearhed
