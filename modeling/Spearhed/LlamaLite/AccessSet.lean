import Mathlib.Data.Set.SymmDiff
import Mathlib.Order.ConditionallyCompleteLattice.Basic
import Spearhed.Library.BooleanTerm
import Spearhed.LlamaLite.Record
import Spearhed.LlamaLite.TypeSet

/-!
# Record-relative access sets

A raw set of tags and paths denotes the leaves of a record that it has an ancestor of.
`leaf_set_t` replaces it by the selected leaf paths in declaration order, and `AccessSet` binds such
a canonical set to its record.  The operators work on canonical sets by type identity and
canonicalise again; this file shows that they are the operations of the powerset of the leaves, with
equality of types for equality of denotations.

Two facts carry the argument.  The canonical set is the list of all leaf paths, filtered
(`elements_makeLeafSet`), so the order of a raw set cannot matter.  Leaves are not in front of each
other (`Fields.eq_of_isLeaf_of_prefix`), so for sets of leaves type identity and ancestry agree
(`mem_denote_of_leaves`).
-/

namespace Spearhed
namespace LlamaLite

open Library

variable {Tag Leaf : Type} [DecidableEq Tag]

/-- `IsRawAccessSet`. -/
abbrev RawAccessSet (Tag : Type) [DecidableEq Tag] := TypeSet (RecordAccess Tag)

/-- The leaves of a record. -/
abbrev Record.Leaves (r : Record Tag Leaf) := {p : TagPath Tag // r.fields.IsLeaf p}

/-- **The leaves a raw access set denotes.** -/
def denote (r : Record Tag Leaf) (s : RawAccessSet Tag) : Set r.Leaves :=
  {p | ∃ a ∈ s.elements, a.toPath <+: p.1}

/-! ## Canonical forms -/

/-- `detail::SelectsLeaf`. -/
def selectsLeaf (p : TagPath Tag) (s : RawAccessSet Tag) : Bool :=
  s.elements.any fun a => isAncestorOf a.toPath p

/-- `detail::FilterBySelection`. -/
def filterBySelection (s : RawAccessSet Tag) (keepIfSelected : Bool)
    (acc : List (RecordAccess Tag)) : List (TagPath Tag) → List (RecordAccess Tag)
  | [] => acc
  | p :: rest =>
      filterBySelection s keepIfSelected
        (if selectsLeaf p s = keepIfSelected then acc ++ [.path p] else acc) rest

theorem filterBySelection_eq (s : RawAccessSet Tag) (keep : Bool) (acc : List (RecordAccess Tag))
    (ps : List (TagPath Tag)) :
    filterBySelection s keep acc ps =
      acc ++ (ps.filter fun p => selectsLeaf p s = keep).map .path := by
  induction ps generalizing acc with
  | nil => exact (List.append_nil _).symm
  | cons p ps ih =>
    rw [filterBySelection, ih]
    by_cases h : selectsLeaf p s = keep
    · rw [if_pos h, List.filter_cons_of_pos (by simpa using h), List.map_cons,
        List.append_assoc, List.singleton_append]
    · rw [if_neg h, List.filter_cons_of_neg (by simpa using h)]

omit [DecidableEq Tag] in
theorem path_injective : Function.Injective (RecordAccess.path : TagPath Tag → RecordAccess Tag) :=
  fun _ _ h => RecordAccess.path.inj h

/-- `detail::MakeLeafSet`. -/
def makeLeafSet (r : Record Tag Leaf) (s : RawAccessSet Tag) (keepIfSelected : Bool) :
    RawAccessSet Tag :=
  ⟨filterBySelection s keepIfSelected [] r.fields.leafPaths, by
    rw [filterBySelection_eq, nodup_iff_countTypeOccurrences]
    exact ((Fields.nodup_leafPaths r.unique).filter _).map path_injective⟩

/-- `detail::leaf_set_t`. -/
def leafSet (r : Record Tag Leaf) (s : RawAccessSet Tag) : RawAccessSet Tag :=
  makeLeafSet r s true

/-- `detail::leaf_set_complement_t`. -/
def leafSetComplement (r : Record Tag Leaf) (s : RawAccessSet Tag) : RawAccessSet Tag :=
  makeLeafSet r s false

/-- `detail::AllPathsInRecord`. -/
def allPathsInRecord (r : Record Tag Leaf) (s : RawAccessSet Tag) : Bool :=
  s.elements.all fun a => Fields.hasPath a.toPath r.fields

/-- `detail::ValidAccessSetFor`. -/
def ValidAccessSetFor (r : Record Tag Leaf) (s : RawAccessSet Tag) : Prop :=
  allPathsInRecord r s = true

instance (r : Record Tag Leaf) (s : RawAccessSet Tag) : Decidable (ValidAccessSetFor r s) :=
  inferInstanceAs (Decidable (allPathsInRecord r s = true))

/-- `detail::CanonicalLeafSetFor`. -/
structure CanonicalLeafSetFor (r : Record Tag Leaf) (leaves : RawAccessSet Tag) : Prop where
  valid : ValidAccessSetFor r leaves
  same : leaves = leafSet r leaves

section Canonical

variable {r : Record Tag Leaf} {s t : RawAccessSet Tag} {keep : Bool}

theorem elements_makeLeafSet :
    (makeLeafSet r s keep).elements =
      (r.fields.leafPaths.filter fun p => selectsLeaf p s = keep).map .path :=
  filterBySelection_eq s keep [] r.fields.leafPaths

theorem selectsLeaf_iff {p : TagPath Tag} :
    selectsLeaf p s = true ↔ ∃ a ∈ s.elements, a.toPath <+: p := by
  rw [selectsLeaf, List.any_eq_true]
  exact exists_congr fun a => and_congr_right fun _ => isAncestorOf_iff

theorem selectsLeaf_iff_mem_denote {p : r.Leaves} :
    selectsLeaf p.1 s = true ↔ p ∈ denote r s :=
  selectsLeaf_iff

theorem mem_makeLeafSet {a : RecordAccess Tag} :
    a ∈ (makeLeafSet r s keep).elements ↔
      ∃ p, a = .path p ∧ r.fields.IsLeaf p ∧ selectsLeaf p s = keep := by
  rw [elements_makeLeafSet, List.mem_map]
  refine exists_congr fun p => ?_
  rw [List.mem_filter, Fields.mem_leafPaths r.unique, decide_eq_true_iff, and_comm, eq_comm]

/-- Every element is a leaf path. -/
def OnlyLeaves (r : Record Tag Leaf) (s : RawAccessSet Tag) : Prop :=
  ∀ a ∈ s.elements, ∃ p, a = .path p ∧ r.fields.IsLeaf p

theorem onlyLeaves_makeLeafSet : OnlyLeaves r (makeLeafSet r s keep) := fun _ ha =>
  let ⟨p, hap, hp, _⟩ := mem_makeLeafSet.mp ha
  ⟨p, hap, hp⟩

/-- **For sets of leaves, ancestry is type identity.** -/
theorem mem_denote_of_leaves (h : OnlyLeaves r s) {p : r.Leaves} :
    p ∈ denote r s ↔ .path p.1 ∈ s.elements := by
  refine ⟨fun hp => ?_, fun hp => ⟨_, hp, List.prefix_rfl⟩⟩
  obtain ⟨a, ha, hprefix⟩ := hp
  obtain ⟨q, rfl, hq⟩ := h a ha
  rwa [← Fields.eq_of_isLeaf_of_prefix hq p.2 hprefix]

theorem OnlyLeaves.valid (h : OnlyLeaves r s) : ValidAccessSetFor r s := by
  rw [ValidAccessSetFor, allPathsInRecord, List.all_eq_true]
  intro a ha
  obtain ⟨p, rfl, hp⟩ := h a ha
  exact Fields.hasPath_of_isLeaf hp

/-- What the canonical form and the exclusion form denote. -/
theorem mem_denote_makeLeafSet {p : r.Leaves} :
    p ∈ denote r (makeLeafSet r s keep) ↔ selectsLeaf p.1 s = keep := by
  rw [mem_denote_of_leaves onlyLeaves_makeLeafSet, mem_makeLeafSet]
  refine ⟨fun ⟨q, hq, _, hs⟩ => ?_, fun h => ⟨p.1, rfl, p.2, h⟩⟩
  rwa [path_injective hq]

theorem denote_leafSet : denote r (leafSet r s) = denote r s :=
  Set.ext fun _ => mem_denote_makeLeafSet.trans selectsLeaf_iff_mem_denote

theorem denote_leafSetComplement : denote r (leafSetComplement r s) = (denote r s)ᶜ := by
  ext p
  refine mem_denote_makeLeafSet.trans ?_
  rw [Set.mem_compl_iff, ← selectsLeaf_iff_mem_denote, Bool.not_eq_true]

/-- **Equal selections normalise to the same type.** -/
theorem leafSet_eq_iff : leafSet r s = leafSet r t ↔ denote r s = denote r t := by
  refine ⟨fun h => ?_, fun h => TypeSet.ext ?_⟩
  · rw [← denote_leafSet, h, denote_leafSet]
  · rw [leafSet, leafSet, elements_makeLeafSet, elements_makeLeafSet]
    refine congrArg (List.map _) (List.filter_congr fun p hp => ?_)
    have hleaf := (Fields.mem_leafPaths r.unique).mp hp
    have hiff : selectsLeaf p s = true ↔ selectsLeaf p t = true := by
      rw [selectsLeaf_iff_mem_denote (p := ⟨p, hleaf⟩), h]
      exact selectsLeaf_iff_mem_denote.symm
    rw [Bool.eq_iff_iff.mpr hiff]

/-- Canonical form is a fixed point. -/
theorem leafSet_leafSet : leafSet r (leafSet r s) = leafSet r s :=
  leafSet_eq_iff.mpr denote_leafSet

theorem canonicalLeafSetFor_leafSet : CanonicalLeafSetFor r (leafSet r s) :=
  ⟨onlyLeaves_makeLeafSet.valid, leafSet_leafSet.symm⟩

theorem CanonicalLeafSetFor.onlyLeaves (h : CanonicalLeafSetFor r s) : OnlyLeaves r s := by
  rw [h.same]
  exact onlyLeaves_makeLeafSet

end Canonical

/-! ## Access sets -/

/-- `AccessSet<R, Leaves>`. -/
structure AccessSet (r : Record Tag Leaf) where
  /-- `leaf_set`. -/
  leaves : RawAccessSet Tag
  canonical : CanonicalLeafSetFor r leaves

/-- `access_set_t<R, S>`. -/
def accessSet (r : Record Tag Leaf) (s : RawAccessSet Tag) (_valid : ValidAccessSetFor r s) :
    AccessSet r :=
  ⟨leafSet r s, canonicalLeafSetFor_leafSet⟩

/-- `detail::deduped_access_set_t`. -/
def dedupedAccessSet (accesses : List (RecordAccess Tag)) : RawAccessSet Tag :=
  TypeSet.makeSet (accesses.map fun a => .path a.toPath)

/-- `makeAccessSet<R>(accesses...)`. -/
def makeAccessSet (r : Record Tag Leaf) (accesses : List (RecordAccess Tag))
    (valid : ValidAccessSetFor r (dedupedAccessSet accesses)) : AccessSet r :=
  accessSet r (dedupedAccessSet accesses) valid

namespace AccessSet

variable {r : Record Tag Leaf}

/-- The leaves of an access set. -/
def denote (s : AccessSet r) : Set r.Leaves := LlamaLite.denote r s.leaves

section Operands

variable (s t : AccessSet r)

theorem onlyLeaves_union : OnlyLeaves r (s.leaves.union t.leaves) := fun a ha =>
  (TypeSet.mem_union.mp ha).elim (s.canonical.onlyLeaves a) (t.canonical.onlyLeaves a)

theorem onlyLeaves_inter : OnlyLeaves r (s.leaves.inter t.leaves) := fun a ha =>
  s.canonical.onlyLeaves a (TypeSet.mem_inter.mp ha).1

theorem onlyLeaves_diff : OnlyLeaves r (s.leaves.diff t.leaves) := fun a ha =>
  s.canonical.onlyLeaves a (TypeSet.mem_diff.mp ha).1

theorem onlyLeaves_xor : OnlyLeaves r (s.leaves.xor t.leaves) := fun a ha =>
  (TypeSet.mem_xor.mp ha).elim (fun h => s.canonical.onlyLeaves a h.1)
    fun h => t.canonical.onlyLeaves a h.1

end Operands

/-- `operator|`. -/
def union (s t : AccessSet r) : AccessSet r :=
  accessSet r (s.leaves.union t.leaves) (onlyLeaves_union s t).valid

/-- `operator&`. -/
def inter (s t : AccessSet r) : AccessSet r :=
  accessSet r (s.leaves.inter t.leaves) (onlyLeaves_inter s t).valid

/-- `operator-`. -/
def diff (s t : AccessSet r) : AccessSet r :=
  accessSet r (s.leaves.diff t.leaves) (onlyLeaves_diff s t).valid

/-- `operator^`. -/
def xor (s t : AccessSet r) : AccessSet r :=
  accessSet r (s.leaves.xor t.leaves) (onlyLeaves_xor s t).valid

/-- `operator~`. -/
def compl (s : AccessSet r) : AccessSet r :=
  accessSet r (leafSetComplement r s.leaves) onlyLeaves_makeLeafSet.valid

/-- `operator==`. -/
def eq (s t : AccessSet r) : Bool := s.leaves.eq t.leaves

/-- `operator<=`. -/
def le (s t : AccessSet r) : Bool := s.leaves.le t.leaves

/-- `operator>=`. -/
def ge (s t : AccessSet r) : Bool := s.leaves.ge t.leaves

/-- `makeAccessSet<R>()`, which selects nothing. -/
def none (r : Record Tag Leaf) : AccessSet r :=
  makeAccessSet r [] (by rfl)

/-- `makeAccessSet<R>(TagPath<>{})`, which selects the whole record. -/
def all (r : Record Tag Leaf) : AccessSet r :=
  makeAccessSet r [.path []] (by rfl)

/-- The operators as term operations. -/
def ops (r : Record Tag Leaf) : BooleanOps (AccessSet r) :=
  ⟨none r, all r, compl, union, inter, diff, xor⟩

/-! ## Denotations of the operators -/

variable {s t : AccessSet r}

theorem mem_denote {p : r.Leaves} : p ∈ s.denote ↔ .path p.1 ∈ s.leaves.elements :=
  mem_denote_of_leaves s.canonical.onlyLeaves

theorem denote_accessSet {raw : RawAccessSet Tag} (valid : ValidAccessSetFor r raw) :
    (accessSet r raw valid).denote = LlamaLite.denote r raw :=
  denote_leafSet

/-- A raw set of leaves denotes the leaves in it. -/
theorem mem_denote_accessSet {raw : RawAccessSet Tag} (h : OnlyLeaves r raw) {p : r.Leaves} :
    p ∈ (accessSet r raw h.valid).denote ↔ .path p.1 ∈ raw.elements := by
  rw [denote_accessSet]
  exact mem_denote_of_leaves h

/-- **Access sets with one denotation are one type.** -/
theorem denote_injective : Function.Injective (denote : AccessSet r → Set r.Leaves) := by
  intro s t h
  have hleaves : s.leaves = t.leaves := by
    rw [s.canonical.same, t.canonical.same]
    exact leafSet_eq_iff.mpr h
  cases s
  cases t
  obtain rfl := hleaves
  rfl

theorem denote_union : (s.union t).denote = s.denote ∪ t.denote := by
  ext p
  refine (mem_denote_accessSet (onlyLeaves_union s t)).trans (TypeSet.mem_union.trans ?_)
  exact or_congr mem_denote.symm mem_denote.symm

theorem denote_inter : (s.inter t).denote = s.denote ∩ t.denote := by
  ext p
  refine (mem_denote_accessSet (onlyLeaves_inter s t)).trans (TypeSet.mem_inter.trans ?_)
  exact and_congr mem_denote.symm mem_denote.symm

theorem denote_diff : (s.diff t).denote = s.denote \ t.denote := by
  ext p
  refine (mem_denote_accessSet (onlyLeaves_diff s t)).trans (TypeSet.mem_diff.trans ?_)
  exact and_congr mem_denote.symm (not_congr mem_denote.symm)

theorem denote_xor : (s.xor t).denote = symmDiff s.denote t.denote := by
  ext p
  refine (mem_denote_accessSet (onlyLeaves_xor s t)).trans (TypeSet.mem_xor.trans ?_)
  rw [Set.mem_symmDiff]
  exact or_congr (and_congr mem_denote.symm (not_congr mem_denote.symm))
    (and_congr mem_denote.symm (not_congr mem_denote.symm))

theorem denote_compl : s.compl.denote = s.denoteᶜ :=
  (denote_accessSet onlyLeaves_makeLeafSet.valid).trans denote_leafSetComplement

/-- A pack of accesses selects what any of its members selects. -/
theorem mem_denote_makeAccessSet {accesses : List (RecordAccess Tag)}
    (valid : ValidAccessSetFor r (dedupedAccessSet accesses)) {p : r.Leaves} :
    p ∈ (makeAccessSet r accesses valid).denote ↔ ∃ a ∈ accesses, a.toPath <+: p.1 := by
  rw [makeAccessSet, denote_accessSet]
  constructor
  · rintro ⟨a, ha, hprefix⟩
    obtain ⟨b, hb, rfl⟩ := List.mem_map.mp (TypeSet.mem_makeSet.mp ha)
    exact ⟨b, hb, hprefix⟩
  · rintro ⟨a, ha, hprefix⟩
    exact ⟨.path a.toPath, TypeSet.mem_makeSet.mpr (List.mem_map_of_mem ha), hprefix⟩

theorem denote_none : (none r).denote = ∅ :=
  Set.eq_empty_of_forall_notMem fun _ hp =>
    let ⟨_, ha, _⟩ := (mem_denote_makeAccessSet _).mp hp
    List.not_mem_nil ha

theorem denote_all : (all r).denote = Set.univ :=
  Set.eq_univ_of_forall fun _ =>
    (mem_denote_makeAccessSet _).mpr ⟨.path [], List.mem_singleton.mpr rfl, List.nil_prefix⟩

theorem represents : (ops r).Represents (denote : AccessSet r → Set r.Leaves) where
  injective := denote_injective
  bot := denote_none
  top := denote_all
  compl _ := denote_compl
  sup _ _ := denote_union
  inf _ _ := denote_inter
  sdiff _ _ := denote_diff
  xor _ _ := denote_xor

theorem le_iff : s.le t = true ↔ s.denote ⊆ t.denote := by
  rw [le, TypeSet.le_iff]
  refine ⟨fun h p hp => mem_denote.mpr (h (mem_denote.mp hp)), fun h a ha => ?_⟩
  obtain ⟨p, rfl, hp⟩ := s.canonical.onlyLeaves a ha
  exact mem_denote.mp (@h ⟨p, hp⟩ (mem_denote.mpr ha))

theorem ge_iff : s.ge t = true ↔ t.denote ⊆ s.denote :=
  le_iff

theorem eq_iff : s.eq t = true ↔ s.denote = t.denote := by
  rw [eq, TypeSet.eq_iff]
  have hle : s.leaves.elements ⊆ t.leaves.elements ↔ s.denote ⊆ t.denote :=
    TypeSet.le_iff.symm.trans le_iff
  have hge : t.leaves.elements ⊆ s.leaves.elements ↔ t.denote ⊆ s.denote :=
    TypeSet.le_iff.symm.trans le_iff
  rw [Set.Subset.antisymm_iff, ← hle, ← hge]
  exact ⟨fun h => ⟨fun a => (h a).mp, fun a => (h a).mpr⟩, fun h a => ⟨@h.1 a, @h.2 a⟩⟩

open Classical in
/-- Every set of leaves is denoted. -/
theorem denote_surjective : Function.Surjective (denote : AccessSet r → Set r.Leaves) := by
  intro d
  let paths := r.fields.leafPaths.filter fun p => ∃ h : r.fields.IsLeaf p, ⟨p, h⟩ ∈ d
  have hmem : ∀ a, a ∈ (TypeSet.makeSet (paths.map RecordAccess.path)).elements ↔
      ∃ p, a = RecordAccess.path p ∧ ∃ h : r.fields.IsLeaf p, ⟨p, h⟩ ∈ d := by
    intro a
    rw [TypeSet.mem_makeSet, List.mem_map]
    refine exists_congr fun p => ?_
    rw [List.mem_filter, Fields.mem_leafPaths r.unique, decide_eq_true_iff, and_comm, eq_comm]
    exact and_congr_right fun _ => and_iff_right_of_imp fun ⟨h, _⟩ => h
  have honly : OnlyLeaves r (TypeSet.makeSet (paths.map RecordAccess.path)) := fun a ha =>
    let ⟨p, hap, h, _⟩ := (hmem a).mp ha
    ⟨p, hap, h⟩
  refine ⟨accessSet r _ honly.valid, Set.ext fun p => ?_⟩
  rw [mem_denote_accessSet honly, hmem]
  constructor
  · rintro ⟨q, hq, h, hd⟩
    obtain rfl := path_injective hq
    exact hd
  · exact fun h => ⟨p.1, rfl, p.2, h⟩

end AccessSet

/-! ## The algebra of a record -/

/-- What canonical sets and their operators are, for a record. -/
structure PowersetAlgebra (r : Record Tag Leaf) : Prop where
  /-- The canonical set lists the leaves with an ancestor in the raw one. -/
  mem_leafSet : ∀ (s : RawAccessSet Tag) (a : RecordAccess Tag), a ∈ (leafSet r s).elements ↔
    ∃ p, a = .path p ∧ r.fields.IsLeaf p ∧ ∃ b ∈ s.elements, b.toPath <+: p
  /-- It lists them in declaration order, -/
  declared : ∀ s : RawAccessSet Tag, (leafSet r s).elements.Pairwise fun a b =>
    r.fields.DeclaredBefore a.toPath b.toPath
  /-- and without duplicates. -/
  nodup : ∀ s : RawAccessSet Tag, (leafSet r s).elements.Nodup
  /-- It is a fixed point, and a canonical set of the record. -/
  fixed : ∀ s : RawAccessSet Tag, leafSet r (leafSet r s) = leafSet r s ∧
    CanonicalLeafSetFor r (leafSet r s)
  /-- It determines and is determined by the denotation. -/
  same_iff : ∀ s t : RawAccessSet Tag, denote r s = denote r t ↔ leafSet r s = leafSet r t
  /-- Access sets are the sets of leaves, by their denotation. -/
  bijective : Function.Bijective (AccessSet.denote : AccessSet r → Set r.Leaves)
  union : ∀ s t : AccessSet r, (s.union t).denote = s.denote ∪ t.denote
  inter : ∀ s t : AccessSet r, (s.inter t).denote = s.denote ∩ t.denote
  diff : ∀ s t : AccessSet r, (s.diff t).denote = s.denote \ t.denote
  xor : ∀ s t : AccessSet r, (s.xor t).denote = symmDiff s.denote t.denote
  compl : ∀ s : AccessSet r, s.compl.denote = s.denoteᶜ
  eq_iff : ∀ s t : AccessSet r, s.eq t = true ↔ s.denote = t.denote
  le_iff : ∀ s t : AccessSet r, s.le t = true ↔ s.denote ⊆ t.denote
  ge_iff : ∀ s t : AccessSet r, s.ge t = true ↔ t.denote ⊆ s.denote
  /-- Every Boolean identity is an equality of types. -/
  identity : ∀ {ι : Type} (s t : BooleanTerm ι),
    (∀ v : ι → Bool, s.eval BooleanOps.truth v = t.eval BooleanOps.truth v) →
      ∀ v : ι → AccessSet r, s.eval (AccessSet.ops r) v = t.eval (AccessSet.ops r) v

/-- **Access sets are the powerset algebra of the leaves**, for every record. -/
theorem accessSet_powersetAlgebra (r : Record Tag Leaf) : PowersetAlgebra r where
  mem_leafSet s a := by
    refine mem_makeLeafSet.trans (exists_congr fun p => ?_)
    rw [selectsLeaf_iff]
  declared s := by
    rw [leafSet, elements_makeLeafSet, List.pairwise_map]
    exact (Fields.pairwise_leafPaths r.unique).filter _
  nodup s := (leafSet r s).nodup
  fixed _ := ⟨leafSet_leafSet, canonicalLeafSetFor_leafSet⟩
  same_iff _ _ := leafSet_eq_iff.symm
  bijective := ⟨AccessSet.denote_injective, AccessSet.denote_surjective⟩
  union _ _ := AccessSet.denote_union
  inter _ _ := AccessSet.denote_inter
  diff _ _ := AccessSet.denote_diff
  xor _ _ := AccessSet.denote_xor
  compl _ := AccessSet.denote_compl
  eq_iff _ _ := AccessSet.eq_iff
  le_iff _ _ := AccessSet.le_iff
  ge_iff _ _ := AccessSet.ge_iff
  identity _ _ h v := AccessSet.represents.eval_eq h v

/-- One of De Morgan's laws, from its truth table. -/
example {r : Record Tag Leaf} (s t : AccessSet r) :
    (s.union t).compl = s.compl.inter t.compl :=
  AccessSet.represents.eval_eq (s := .compl (.sup (.var true) (.var false)))
    (t := .inf (.compl (.var true)) (.compl (.var false))) (fun _ => Bool.not_or _ _)
    fun b => if b then s else t

end LlamaLite
end Spearhed
