import Mathlib.Data.List.Infix
import Mathlib.Data.List.Nodup

/-!
# Records and their leaf paths

A record is a pack of uniquely tagged fields, each with a leaf type or a nested record as its value.
`IsLeaf` says which paths are leaves and `DeclaredBefore` in which order they are declared, both
without the recursion that `GetLeafPaths` runs with its accumulated path; the file shows that this
recursion lists exactly the leaves, once each and in that order.
-/

namespace Spearhed
namespace LlamaLite

/-- `TagPath<Tags...>`. -/
abbrev TagPath (Tag : Type) := List Tag

/-- `IsRecordAccess`: a tag or a path. -/
inductive RecordAccess (Tag : Type)
  | tag (tag : Tag)
  | path (path : TagPath Tag)
  deriving DecidableEq

variable {Tag Leaf : Type}

/-- `to_path_t`. -/
def RecordAccess.toPath : RecordAccess Tag → TagPath Tag
  | tag t => [t]
  | path p => p

/-- `Fs...`, field after field: `value_type` is a leaf type or a nested record. -/
inductive Fields (Tag Leaf : Type)
  | nil
  | leaf (tag : Tag) (valueType : Leaf) (rest : Fields Tag Leaf)
  | nested (tag : Tag) (valueType : Fields Tag Leaf) (rest : Fields Tag Leaf)

/-- A `value_type`, told apart by `IsRecord`. -/
inductive ValueType (Tag Leaf : Type)
  | leaf (type : Leaf)
  | record (fields : Fields Tag Leaf)

namespace Fields

/-- `Fs::tag_type...`. -/
def tags : Fields Tag Leaf → List Tag
  | nil => []
  | leaf tag _ rest => tag :: rest.tags
  | nested tag _ rest => tag :: rest.tags

section Tags

variable [DecidableEq Tag]

/-- The static assertion of a record: all tags are unique. -/
def TagsUnique (fields : Fields Tag Leaf) : Prop :=
  ∀ tag ∈ fields.tags, fields.tags.count tag = 1

/-- The static assertions of the records nested in a record. -/
def NestedUnique : Fields Tag Leaf → Prop
  | nil => True
  | leaf _ _ rest => rest.NestedUnique
  | nested _ inner rest => (inner.TagsUnique ∧ inner.NestedUnique) ∧ rest.NestedUnique

/-- All static assertions of a record. -/
def Unique (fields : Fields Tag Leaf) : Prop :=
  fields.TagsUnique ∧ fields.NestedUnique

instance (fields : Fields Tag Leaf) : Decidable fields.TagsUnique :=
  inferInstanceAs (Decidable (∀ tag ∈ fields.tags, _))

instance decidableNestedUnique : (fields : Fields Tag Leaf) → Decidable fields.NestedUnique
  | nil => isTrue trivial
  | leaf _ _ rest => decidableNestedUnique rest
  | nested _ inner rest =>
      have := decidableNestedUnique inner
      have := decidableNestedUnique rest
      inferInstanceAs (Decidable ((inner.TagsUnique ∧ inner.NestedUnique) ∧ rest.NestedUnique))

instance (fields : Fields Tag Leaf) : Decidable fields.Unique :=
  inferInstanceAs (Decidable (_ ∧ _))

/-- The `value_type` of the field that `getIndex` finds, the first one with the tag. -/
def valueTypeFor : Fields Tag Leaf → Tag → Option (ValueType Tag Leaf)
  | nil, _ => none
  | leaf tag type rest, query => if tag = query then some (.leaf type) else rest.valueTypeFor query
  | nested tag inner rest, query =>
      if tag = query then some (.record inner) else rest.valueTypeFor query

/-- `hasPath`. -/
def hasPath : TagPath Tag → Fields Tag Leaf → Bool
  | [], _ => true
  | head :: tail, fields =>
      match fields.valueTypeFor head with
      | none => false
      | some value =>
          if tail = [] then true
          else match value with
            | .record inner => hasPath tail inner
            | .leaf _ => false

/-- The path leads to a leaf. -/
def IsLeaf : Fields Tag Leaf → TagPath Tag → Prop
  | _, [] => False
  | fields, head :: tail =>
      match fields.valueTypeFor head with
      | none => False
      | some (.leaf _) => tail = []
      | some (.record inner) => inner.IsLeaf tail

/-- `p` is declared before `q`: where the two paths part, the field of `p` comes first. -/
def DeclaredBefore : Fields Tag Leaf → TagPath Tag → TagPath Tag → Prop
  | fields, a :: p, b :: q =>
      if a = b then
        match fields.valueTypeFor a with
        | some (.record inner) => inner.DeclaredBefore p q
        | _ => False
      else fields.tags.idxOf a < fields.tags.idxOf b
  | _, _, _ => False

end Tags

end Fields

/-! ## Ancestors -/

section Ancestors

variable [DecidableEq Tag]

/-- `commonPrefixLength`. -/
def commonPrefixLength : TagPath Tag → TagPath Tag → ℕ
  | a :: p, b :: q => if a = b then commonPrefixLength p q + 1 else 0
  | _, _ => 0

/-- `TagPath::isAncestorOf`: ancestor or equal. -/
def isAncestorOf (p q : TagPath Tag) : Bool :=
  commonPrefixLength p q == p.length

theorem isAncestorOf_iff {p q : TagPath Tag} : isAncestorOf p q = true ↔ p <+: q := by
  rw [isAncestorOf, beq_iff_eq]
  induction p generalizing q with
  | nil => cases q <;> simp [commonPrefixLength]
  | cons a p ih =>
    cases q with
    | nil => simp [commonPrefixLength]
    | cons b q =>
      rw [commonPrefixLength, List.length_cons, List.cons_prefix_cons]
      split
      · next hab => rw [Nat.add_right_cancel_iff, ih, and_iff_right hab]
      · next hab => exact ⟨fun h => by omega, fun h => absurd h.1 hab⟩

end Ancestors

/-! ## Leaf paths -/

namespace Fields

/-- `GetLeafPaths` with the path to the record. -/
def getLeafPaths : Fields Tag Leaf → TagPath Tag → List (TagPath Tag)
  | nil, _ => []
  | leaf tag _ rest, currentPath => [currentPath ++ [tag]] ++ rest.getLeafPaths currentPath
  | nested tag inner rest, currentPath =>
      inner.getLeafPaths (currentPath ++ [tag]) ++ rest.getLeafPaths currentPath

/-- `GetLeafPaths<R>::type`. -/
def leafPaths (fields : Fields Tag Leaf) : List (TagPath Tag) :=
  fields.getLeafPaths []

/-- The accumulated path is in front of every leaf path. -/
theorem getLeafPaths_eq_map (fields : Fields Tag Leaf) (currentPath : TagPath Tag) :
    fields.getLeafPaths currentPath = fields.leafPaths.map (currentPath ++ ·) := by
  induction fields generalizing currentPath with
  | nil => rfl
  | leaf tag type rest ih =>
    rw [leafPaths, getLeafPaths, getLeafPaths, ih currentPath, List.map_append]
    rfl
  | nested tag inner rest ihi ihr =>
    rw [leafPaths, getLeafPaths, getLeafPaths, ihi (currentPath ++ [tag]), ihi ([] ++ [tag]),
      ihr currentPath, List.map_append, List.map_map]
    refine congrArg (· ++ _) (List.map_congr_left fun p _ => ?_)
    rw [Function.comp_apply, List.nil_append, List.append_assoc]

theorem leafPaths_leaf (tag : Tag) (type : Leaf) (rest : Fields Tag Leaf) :
    (leaf tag type rest).leafPaths = [tag] :: rest.leafPaths := rfl

theorem leafPaths_nested (tag : Tag) (inner rest : Fields Tag Leaf) :
    (nested tag inner rest).leafPaths = inner.leafPaths.map (tag :: ·) ++ rest.leafPaths := by
  rw [leafPaths, getLeafPaths, getLeafPaths_eq_map]
  rfl

theorem head_mem_tags {fields : Fields Tag Leaf} {p : TagPath Tag} (h : p ∈ fields.leafPaths) :
    ∃ tag ∈ fields.tags, ∃ tail, p = tag :: tail := by
  induction fields with
  | nil => exact (List.not_mem_nil h).elim
  | leaf tag type rest ih =>
    rw [leafPaths_leaf] at h
    rcases List.mem_cons.mp h with rfl | h
    · exact ⟨tag, List.mem_cons_self, [], rfl⟩
    · obtain ⟨t, ht, tail, rfl⟩ := ih h
      exact ⟨t, List.mem_cons_of_mem _ ht, tail, rfl⟩
  | nested tag inner rest _ ih =>
    rw [leafPaths_nested] at h
    rcases List.mem_append.mp h with h | h
    · obtain ⟨tail, -, rfl⟩ := List.mem_map.mp h
      exact ⟨tag, List.mem_cons_self, tail, rfl⟩
    · obtain ⟨t, ht, tail, rfl⟩ := ih h
      exact ⟨t, List.mem_cons_of_mem _ ht, tail, rfl⟩

variable [DecidableEq Tag]

theorem valueTypeFor_ne_none {fields : Fields Tag Leaf} {tag : Tag} :
    fields.valueTypeFor tag ≠ none ↔ tag ∈ fields.tags := by
  induction fields with
  | nil => simp [valueTypeFor, tags]
  | leaf t type rest ih =>
    rw [valueTypeFor, tags, List.mem_cons]
    split
    · next h => exact iff_of_true (Option.some_ne_none _) (Or.inl h.symm)
    · next h => exact ih.trans (or_iff_right fun h' => h h'.symm).symm
  | nested t inner rest _ ih =>
    rw [valueTypeFor, tags, List.mem_cons]
    split
    · next h => exact iff_of_true (Option.some_ne_none _) (Or.inl h.symm)
    · next h => exact ih.trans (or_iff_right fun h' => h h'.symm).symm

/-! ## The recursion over the fields -/

theorem tagsUnique_iff_nodup {fields : Fields Tag Leaf} :
    fields.TagsUnique ↔ fields.tags.Nodup :=
  List.nodup_iff_count_eq_one.symm

theorem unique_leaf {tag : Tag} {type : Leaf} {rest : Fields Tag Leaf} :
    (leaf tag type rest).Unique ↔ tag ∉ rest.tags ∧ rest.Unique := by
  rw [Unique, Unique, tagsUnique_iff_nodup, tagsUnique_iff_nodup, tags, List.nodup_cons,
    NestedUnique, and_assoc]

theorem unique_nested {tag : Tag} {inner rest : Fields Tag Leaf} :
    (nested tag inner rest).Unique ↔ tag ∉ rest.tags ∧ inner.Unique ∧ rest.Unique := by
  rw [Unique, Unique, Unique, tagsUnique_iff_nodup, @tagsUnique_iff_nodup _ _ _ rest, tags,
    List.nodup_cons, NestedUnique]
  tauto

theorem not_isLeaf_nil (p : TagPath Tag) : ¬ (nil : Fields Tag Leaf).IsLeaf p := by
  cases p <;> exact id

theorem isLeaf_leaf {tag : Tag} {type : Leaf} {rest : Fields Tag Leaf} {p : TagPath Tag} :
    (leaf tag type rest).IsLeaf p ↔ p = [tag] ∨ (p.head? ≠ some tag ∧ rest.IsLeaf p) := by
  cases p with
  | nil => simp [IsLeaf]
  | cons head tail =>
    rw [IsLeaf, IsLeaf, valueTypeFor]
    by_cases h : tag = head
    · subst h
      simp
    · rw [if_neg h]
      simp [Ne.symm h]

theorem isLeaf_nested {tag : Tag} {inner rest : Fields Tag Leaf} {p : TagPath Tag} :
    (nested tag inner rest).IsLeaf p ↔
      (∃ tail, p = tag :: tail ∧ inner.IsLeaf tail) ∨ (p.head? ≠ some tag ∧ rest.IsLeaf p) := by
  cases p with
  | nil => simp [IsLeaf]
  | cons head tail =>
    rw [IsLeaf, IsLeaf, valueTypeFor]
    by_cases h : tag = head
    · subst h
      simp
    · rw [if_neg h]
      simp [Ne.symm h]

omit [DecidableEq Tag] in
theorem head?_ne {rest : Fields Tag Leaf} {tag : Tag} (htag : tag ∉ rest.tags) {p : TagPath Tag}
    (hp : p ∈ rest.leafPaths) : p.head? ≠ some tag := by
  obtain ⟨t, ht, tail, rfl⟩ := head_mem_tags hp
  exact fun h => htag (Option.some.inj h ▸ ht)

/-- **`GetLeafPaths` lists exactly the leaves.** -/
theorem mem_leafPaths {fields : Fields Tag Leaf} (hunique : fields.Unique) {p : TagPath Tag} :
    p ∈ fields.leafPaths ↔ fields.IsLeaf p := by
  induction fields generalizing p with
  | nil => exact iff_of_false List.not_mem_nil (not_isLeaf_nil p)
  | leaf tag type rest ih =>
    obtain ⟨htag, hrest⟩ := unique_leaf.mp hunique
    rw [leafPaths_leaf, List.mem_cons, isLeaf_leaf, ← ih hrest]
    exact or_congr_right (and_iff_right_of_imp (head?_ne htag)).symm
  | nested tag inner rest ihi ihr =>
    obtain ⟨htag, hinner, hrest⟩ := unique_nested.mp hunique
    rw [leafPaths_nested, List.mem_append, List.mem_map, isLeaf_nested, ← ihr hrest]
    refine or_congr (exists_congr fun tail => ?_) (and_iff_right_of_imp (head?_ne htag)).symm
    rw [ihi hinner, and_comm, eq_comm]

section DeclaredBefore

variable {fields rest : Fields Tag Leaf} {tag : Tag}

/-- Paths through later fields. -/
theorem declaredBefore_cons_of_rest (htags : fields.tags = tag :: rest.tags)
    (hvalue : ∀ query, tag ≠ query → fields.valueTypeFor query = rest.valueTypeFor query) (htag : tag ∉ rest.tags)
    {a b : Tag} (ha : a ∈ rest.tags) (hb : b ∈ rest.tags) {p q : TagPath Tag}
    (h : rest.DeclaredBefore (a :: p) (b :: q)) : fields.DeclaredBefore (a :: p) (b :: q) := by
  have hta : tag ≠ a := fun h => htag (h ▸ ha)
  have htb : tag ≠ b := fun h => htag (h ▸ hb)
  rw [DeclaredBefore] at h ⊢
  rw [hvalue a hta, htags, List.idxOf_cons_ne _ hta, List.idxOf_cons_ne _ htb]
  exact (ite_congr rfl (fun _ => rfl) fun _ => propext Nat.succ_lt_succ_iff).mpr h

theorem declaredBefore_of_rest (htags : fields.tags = tag :: rest.tags)
    (hvalue : ∀ query, tag ≠ query → fields.valueTypeFor query = rest.valueTypeFor query)
    (htag : tag ∉ rest.tags) {p q : TagPath Tag} (hp : p ∈ rest.leafPaths)
    (hq : q ∈ rest.leafPaths) (h : rest.DeclaredBefore p q) : fields.DeclaredBefore p q := by
  obtain ⟨a, ha, p, rfl⟩ := head_mem_tags hp
  obtain ⟨b, hb, q, rfl⟩ := head_mem_tags hq
  exact declaredBefore_cons_of_rest htags hvalue htag ha hb h

/-- A path through the first field against one through a later field. -/
theorem declaredBefore_cons_head (htags : fields.tags = tag :: rest.tags) (htag : tag ∉ rest.tags)
    (p : TagPath Tag) {b : Tag} (hb : b ∈ rest.tags) (q : TagPath Tag) :
    fields.DeclaredBefore (tag :: p) (b :: q) := by
  have htb : tag ≠ b := fun h => htag (h ▸ hb)
  rw [DeclaredBefore, if_neg htb, htags, List.idxOf_cons_self, List.idxOf_cons_ne _ htb]
  exact Nat.succ_pos _

theorem declaredBefore_head (htags : fields.tags = tag :: rest.tags) (htag : tag ∉ rest.tags)
    (p : TagPath Tag) {q : TagPath Tag} (hq : q ∈ rest.leafPaths) :
    fields.DeclaredBefore (tag :: p) q := by
  obtain ⟨b, hb, q, rfl⟩ := head_mem_tags hq
  exact declaredBefore_cons_head htags htag p hb q

/-- Two paths through one field. -/
theorem declaredBefore_inner {inner : Fields Tag Leaf}
    (hvalue : fields.valueTypeFor tag = some (.record inner)) {p q : TagPath Tag}
    (h : inner.DeclaredBefore p q) : fields.DeclaredBefore (tag :: p) (tag :: q) := by
  rw [DeclaredBefore, if_pos rfl, hvalue]
  exact h

end DeclaredBefore

/-- **`GetLeafPaths` lists the leaves in declaration order.** -/
theorem pairwise_leafPaths {fields : Fields Tag Leaf} (hunique : fields.Unique) :
    fields.leafPaths.Pairwise fields.DeclaredBefore := by
  induction fields with
  | nil => exact List.Pairwise.nil
  | leaf tag type rest ih =>
    obtain ⟨htag, hrest⟩ := unique_leaf.mp hunique
    rw [leafPaths_leaf]
    refine List.Pairwise.cons (fun q hq => declaredBefore_head (by rw [tags]) htag [] hq) ?_
    exact (ih hrest).imp_of_mem fun hp hq h =>
      declaredBefore_of_rest (by rw [tags]) (fun _ hne => by rw [valueTypeFor, if_neg hne]) htag
        hp hq h
  | nested tag inner rest ihi ihr =>
    obtain ⟨htag, hinner, hrest⟩ := unique_nested.mp hunique
    rw [leafPaths_nested, List.pairwise_append, List.pairwise_map]
    refine ⟨?_, ?_, fun p hp q hq => ?_⟩
    · exact (ihi hinner).imp fun h =>
        declaredBefore_inner (by rw [valueTypeFor, if_pos rfl]) h
    · exact (ihr hrest).imp_of_mem fun hp hq h =>
        declaredBefore_of_rest (by rw [tags]) (fun _ hne => by rw [valueTypeFor, if_neg hne]) htag
          hp hq h
    · obtain ⟨tail, -, rfl⟩ := List.mem_map.mp hp
      exact declaredBefore_head (by rw [tags]) htag tail hq

/-- A path is not declared before itself. -/
theorem not_declaredBefore_self (fields : Fields Tag Leaf) (p : TagPath Tag) :
    ¬ fields.DeclaredBefore p p := by
  induction p generalizing fields with
  | nil => exact id
  | cons head tail ih =>
    rw [DeclaredBefore, if_pos rfl]
    cases fields.valueTypeFor head with
    | none => exact id
    | some value =>
      cases value with
      | leaf type => exact id
      | record inner => exact ih inner

/-- Leaf paths are listed once. -/
theorem nodup_leafPaths {fields : Fields Tag Leaf} (hunique : fields.Unique) :
    fields.leafPaths.Nodup := by
  refine (pairwise_leafPaths hunique).imp ?_
  rintro p q h rfl
  exact not_declaredBefore_self fields p h

/-- A leaf is a path of its record. -/
theorem hasPath_of_isLeaf {fields : Fields Tag Leaf} {p : TagPath Tag} (h : fields.IsLeaf p) :
    hasPath p fields = true := by
  induction p generalizing fields with
  | nil => rfl
  | cons head tail ih =>
    rw [IsLeaf] at h
    rw [hasPath]
    cases hvalue : fields.valueTypeFor head with
    | none =>
      rw [hvalue] at h
      exact h.elim
    | some value =>
      rw [hvalue] at h
      by_cases htail : tail = []
      · exact if_pos htail
      · cases value with
        | leaf type => exact absurd h htail
        | record inner => exact (if_neg htail).trans (ih h)

/-- Leaves are not in front of each other. -/
theorem eq_of_isLeaf_of_prefix {fields : Fields Tag Leaf} {p q : TagPath Tag}
    (hp : fields.IsLeaf p) (hq : fields.IsLeaf q) (h : p <+: q) : p = q := by
  induction p generalizing fields q with
  | nil => exact hp.elim
  | cons head tail ih =>
    cases q with
    | nil => exact hq.elim
    | cons head' tail' =>
      obtain ⟨rfl, htail⟩ := List.cons_prefix_cons.mp h
      rw [IsLeaf] at hp hq
      cases hvalue : fields.valueTypeFor head with
      | none =>
        rw [hvalue] at hp
        exact hp.elim
      | some value =>
        rw [hvalue] at hp hq
        cases value with
        | leaf type => rw [show tail = [] from hp, show tail' = [] from hq]
        | record inner => rw [ih hp hq htail]

end Fields

/-- `Record<Fs...>`, whose static assertions are the field `unique`. -/
structure Record (Tag Leaf : Type) [DecidableEq Tag] where
  /-- `Fs...`. -/
  fields : Fields Tag Leaf
  /-- All fields must be unique. -/
  unique : fields.Unique

end LlamaLite
end Spearhed
