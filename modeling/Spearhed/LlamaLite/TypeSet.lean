import Mathlib.Data.List.Nodup
import Mathlib.Data.List.Perm.Subperm

/-!
# Sets of types

`llama_lite::Set` is a pack of pairwise different types.  Types are values of a type `α` with
decidable equality here, so that equality of packs is equality of the types `Set<Ts...>`, in order.
-/

namespace Spearhed
namespace LlamaLite

variable {α : Type} [DecidableEq α]

/-- `countTypeOccurrences`. -/
def countTypeOccurrences (query : α) (search : List α) : ℕ :=
  search.count query

/-- `Set<Ts...>`, whose static assertion is the field `unique`. -/
structure TypeSet (α : Type) [DecidableEq α] where
  /-- `Ts...`. -/
  elements : List α
  /-- All elements must be unique. -/
  unique : ∀ t ∈ elements, countTypeOccurrences t elements = 1

theorem nodup_iff_countTypeOccurrences {elements : List α} :
    (∀ t ∈ elements, countTypeOccurrences t elements = 1) ↔ elements.Nodup :=
  List.nodup_iff_count_eq_one.symm

/-! ## Folds over packs -/

/-- `detail::InsertIfAbsent`. -/
def insertIfAbsent (acc : List α) (t : α) : List α :=
  if t ∈ acc then acc else acc ++ [t]

/-- `detail::UnionFold`. -/
def unionFold (acc : List α) : List α → List α
  | [] => acc
  | b :: rest => unionFold (insertIfAbsent acc b) rest

/-- `detail::FilterByMembership`. -/
def filterByMembership (set : List α) (keepIfPresent : Bool) (acc : List α) : List α → List α
  | [] => acc
  | a :: rest =>
      filterByMembership set keepIfPresent
        (if decide (a ∈ set) = keepIfPresent then acc ++ [a] else acc) rest

theorem mem_insertIfAbsent {acc : List α} {t a : α} :
    a ∈ insertIfAbsent acc t ↔ a ∈ acc ∨ a = t := by
  rw [insertIfAbsent]
  split
  · next h => exact ⟨Or.inl, fun ha => ha.elim id fun ha => ha ▸ h⟩
  · rw [List.mem_append, List.mem_singleton]

theorem nodup_insertIfAbsent {acc : List α} (h : acc.Nodup) (t : α) :
    (insertIfAbsent acc t).Nodup := by
  rw [insertIfAbsent]
  split
  · exact h
  · next ht =>
    rw [← List.concat_eq_append]
    exact h.concat ht

theorem mem_unionFold {acc bs : List α} {a : α} :
    a ∈ unionFold acc bs ↔ a ∈ acc ∨ a ∈ bs := by
  induction bs generalizing acc with
  | nil => exact (or_iff_left List.not_mem_nil).symm
  | cons b bs ih => rw [unionFold, ih, mem_insertIfAbsent, List.mem_cons, or_assoc]

theorem nodup_unionFold {acc : List α} (h : acc.Nodup) (bs : List α) :
    (unionFold acc bs).Nodup := by
  induction bs generalizing acc with
  | nil => exact h
  | cons b bs ih => exact ih (nodup_insertIfAbsent h b)

theorem filterByMembership_eq (set : List α) (keep : Bool) (acc as : List α) :
    filterByMembership set keep acc as = acc ++ as.filter fun a => decide (a ∈ set) = keep := by
  induction as generalizing acc with
  | nil => exact (List.append_nil _).symm
  | cons a as ih =>
    rw [filterByMembership, ih]
    by_cases h : decide (a ∈ set) = keep
    · rw [if_pos h, List.filter_cons_of_pos (by simpa using h), List.append_assoc,
        List.singleton_append]
    · rw [if_neg h, List.filter_cons_of_neg (by simpa using h)]

namespace TypeSet

theorem nodup (s : TypeSet α) : s.elements.Nodup :=
  nodup_iff_countTypeOccurrences.mp s.unique

theorem ext {s t : TypeSet α} (h : s.elements = t.elements) : s = t := by
  cases s
  cases t
  obtain rfl := h
  rfl

instance : DecidableEq (TypeSet α) := fun s t =>
  decidable_of_iff (s.elements = t.elements) ⟨ext, congrArg elements⟩

/-- The empty `Set<>`. -/
def empty : TypeSet α := ⟨[], fun _ h => (List.not_mem_nil h).elim⟩

/-- `makeSet`. -/
def makeSet (objs : List α) : TypeSet α :=
  ⟨unionFold [] objs, nodup_iff_countTypeOccurrences.mpr (nodup_unionFold List.nodup_nil objs)⟩

/-! ## Operators -/

/-- `contains`. -/
def contains (s : TypeSet α) (t : α) : Bool :=
  decide (t ∈ s.elements)

/-- `operator==`: same elements, in any order. -/
def eq (s t : TypeSet α) : Bool :=
  if s.elements.length ≠ t.elements.length then false
  else s.elements.all t.contains

/-- `operator<=`. -/
def le (s t : TypeSet α) : Bool :=
  s.elements.all t.contains

/-- `operator>=`. -/
def ge (s t : TypeSet α) : Bool :=
  t.elements.all s.contains

/-- `operator|`. -/
def union (s t : TypeSet α) : TypeSet α :=
  ⟨unionFold s.elements t.elements,
    nodup_iff_countTypeOccurrences.mpr (nodup_unionFold s.nodup t.elements)⟩

/-- The elements of `s` by their membership in `t`, which `operator&` and `operator-` keep. -/
def filter (s t : TypeSet α) (keepIfPresent : Bool) : TypeSet α :=
  ⟨filterByMembership t.elements keepIfPresent [] s.elements, by
    rw [filterByMembership_eq]
    exact nodup_iff_countTypeOccurrences.mpr (s.nodup.filter _)⟩

/-- `operator&`. -/
def inter (s t : TypeSet α) : TypeSet α := filter s t true

/-- `operator-`. -/
def diff (s t : TypeSet α) : TypeSet α := filter s t false

/-- `operator^`. -/
def xor (s t : TypeSet α) : TypeSet α := (s.diff t).union (t.diff s)

variable {s t : TypeSet α} {a : α}

@[simp] theorem mem_makeSet {objs : List α} : a ∈ (makeSet objs).elements ↔ a ∈ objs :=
  mem_unionFold.trans (or_iff_right List.not_mem_nil)

@[simp] theorem mem_union : a ∈ (s.union t).elements ↔ a ∈ s.elements ∨ a ∈ t.elements :=
  mem_unionFold

@[simp] theorem mem_filter {keep : Bool} :
    a ∈ (s.filter t keep).elements ↔ a ∈ s.elements ∧ decide (a ∈ t.elements) = keep := by
  show a ∈ filterByMembership _ _ _ _ ↔ _
  rw [filterByMembership_eq, List.nil_append, List.mem_filter, decide_eq_true_iff]

@[simp] theorem mem_inter : a ∈ (s.inter t).elements ↔ a ∈ s.elements ∧ a ∈ t.elements :=
  mem_filter.trans (and_congr_right fun _ => decide_eq_true_iff)

@[simp] theorem mem_diff : a ∈ (s.diff t).elements ↔ a ∈ s.elements ∧ a ∉ t.elements :=
  mem_filter.trans (and_congr_right fun _ => decide_eq_false_iff_not)

@[simp] theorem mem_xor : a ∈ (s.xor t).elements ↔
    (a ∈ s.elements ∧ a ∉ t.elements) ∨ (a ∈ t.elements ∧ a ∉ s.elements) :=
  mem_union.trans (or_congr mem_diff mem_diff)

theorem le_iff : s.le t = true ↔ s.elements ⊆ t.elements := by
  rw [le, List.all_eq_true]
  exact forall₂_congr fun a _ => decide_eq_true_iff

theorem ge_iff : s.ge t = true ↔ t.elements ⊆ s.elements :=
  le_iff

/-- The length test is implied by mutual inclusion, since elements are unique. -/
theorem eq_iff : s.eq t = true ↔ ∀ a, a ∈ s.elements ↔ a ∈ t.elements := by
  have hperm : (∀ a, a ∈ s.elements ↔ a ∈ t.elements) ↔ s.elements.Perm t.elements :=
    (List.perm_ext_iff_of_nodup s.nodup t.nodup).symm
  rw [eq]
  split
  · next hlength =>
    rw [hperm]
    exact ⟨fun h => (Bool.false_ne_true h).elim, fun h => absurd h.length_eq hlength⟩
  · next hlength =>
    rw [hperm]
    refine ⟨fun h => ?_, fun h => le_iff.mpr h.subset⟩
    exact (List.subperm_of_subset s.nodup (le_iff.mp h)).perm_of_length_le
      (Nat.le_of_eq (not_not.mp hlength).symm)

end TypeSet

end LlamaLite
end Spearhed
