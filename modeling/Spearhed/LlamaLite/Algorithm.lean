import Spearhed.LlamaLite.View

/-!
# Iteration over a record

`iterate` and `iterate_path` walk down the fields of a record and call a visitor for each leaf, or for a
nested record as a whole where the visitor trait is specialised.  A selector steers the walk by two
queries on paths: whether to enter a field, and whether all of its leaves are selected.

* `Selector.Decides`: what the two queries have to be for a set of leaves.
* `flatMap_covered`: the calls cover the selected leaves, in declaration order.
* `iteration_visits_selected`: `SelectAll`, `Include` and `Exclude`, for both forms of the walk.
-/

namespace Spearhed
namespace LlamaLite

variable {Tag Leaf W : Type} [DecidableEq Tag]

/-- `isDescendantOf`: descendant or equal. -/
def isDescendantOf (p q : TagPath Tag) : Bool := isAncestorOf q p

theorem isDescendantOf_iff {p q : TagPath Tag} : isDescendantOf p q = true ↔ q <+: p := isAncestorOf_iff

/-- A selector policy. -/
structure Selector (Tag : Type) where
  allow : TagPath Tag → Bool
  coversSubtree : TagPath Tag → Bool

namespace selectors

omit [DecidableEq Tag] in
/-- `SelectAll`. -/
def SelectAll : Selector Tag where
  allow := fun _ => true
  coversSubtree := fun _ => true

/-- `Include<Targets...>`. -/
def Include (targets : List (RecordAccess Tag)) : Selector Tag where
  allow := fun path => targets.any fun t => isAncestorOf path t.toPath || isDescendantOf path t.toPath
  coversSubtree := fun path => targets.any fun t => isDescendantOf path t.toPath

/-- `Exclude<Targets...>`. -/
def Exclude (targets : List (RecordAccess Tag)) : Selector Tag where
  allow := fun path => !targets.any fun t => isDescendantOf path t.toPath
  coversSubtree := fun path => !targets.any fun t => isAncestorOf path t.toPath || isDescendantOf path t.toPath

end selectors

/-- A call of a visitor. -/
structure VisitorCall (Tag Leaf W : Type) where
  /-- `NextPath`. -/
  path : TagPath Tag
  /-- `Field`. -/
  tag : Tag
  valueType : ValueType Tag Leaf
  /-- What is passed on to the visitor. -/
  arg : W

/-- The leaves that a call takes care of. -/
def VisitorCall.covered (c : VisitorCall Tag Leaf W) : List (TagPath Tag) :=
  match c.valueType with
  | .leaf _ => [c.path]
  | .record inner => inner.getLeafPaths c.path

namespace Fields

/-- The walk down the fields.  `specialized` says for which fields the trait is, and `index` what is passed
on for a field. -/
def visit (selector : Selector Tag) (specialized : TagPath Tag → Tag → ValueType Tag Leaf → Bool) (index : W → Tag → W) :
    Fields Tag Leaf → TagPath Tag → W → List (VisitorCall Tag Leaf W)
  | nil, _, _ => []
  | leaf tag type rest, currentPath, arg =>
      (if selector.allow (currentPath ++ [tag]) then [⟨currentPath ++ [tag], tag, .leaf type, index arg tag⟩] else []) ++
        rest.visit selector specialized index currentPath arg
  | nested tag inner rest, currentPath, arg =>
      (if selector.allow (currentPath ++ [tag]) then
        if selector.coversSubtree (currentPath ++ [tag]) && specialized (currentPath ++ [tag]) tag (.record inner) then
          [⟨currentPath ++ [tag], tag, .record inner, index arg tag⟩]
        else inner.visit selector specialized index (currentPath ++ [tag]) (index arg tag)
      else []) ++ rest.visit selector specialized index currentPath arg

end Fields

section Iterate

omit [DecidableEq Tag]

/-- `detail::iterate_recursive`: the trait is asked for the field, and the visitor gets `view[FieldTag{}]`. -/
def iterateRecursive (visitorTrait : Tag → ValueType Tag Leaf → Bool) (index : W → Tag → W) (selector : Selector Tag)
    (fields : Fields Tag Leaf) (currentPath : TagPath Tag) (view : W) : List (VisitorCall Tag Leaf W) :=
  fields.visit selector (fun _ => visitorTrait) index currentPath view

/-- `detail::iterate_path_recursive`: the trait is asked for the path, and the visitor gets the arguments. -/
def iteratePathRecursive (visitorTrait : TagPath Tag → Bool) (selector : Selector Tag) (fields : Fields Tag Leaf)
    (currentPath : TagPath Tag) (args : W) : List (VisitorCall Tag Leaf W) :=
  fields.visit selector (fun path _ _ => visitorTrait path) (fun args _ => args) currentPath args

end Iterate

/-- `iterate`. -/
def iterate (r : Record Tag Leaf) (selector : Selector Tag) (visitorTrait : Tag → ValueType Tag Leaf → Bool)
    (index : W → Tag → W) (view : W) : List (VisitorCall Tag Leaf W) :=
  iterateRecursive visitorTrait index selector r.fields [] view

/-- `iterate_only`. -/
def iterateOnly (r : Record Tag Leaf) (visitorTrait : Tag → ValueType Tag Leaf → Bool) (paths : List (RecordAccess Tag))
    (index : W → Tag → W) (view : W) : List (VisitorCall Tag Leaf W) :=
  iterate r (selectors.Include paths) visitorTrait index view

/-- `iterate_except`. -/
def iterateExcept (r : Record Tag Leaf) (visitorTrait : Tag → ValueType Tag Leaf → Bool) (paths : List (RecordAccess Tag))
    (index : W → Tag → W) (view : W) : List (VisitorCall Tag Leaf W) :=
  iterate r (selectors.Exclude paths) visitorTrait index view

/-- `iterate_path`. -/
def iteratePath (r : Record Tag Leaf) (selector : Selector Tag) (visitorTrait : TagPath Tag → Bool) (args : W) :
    List (VisitorCall Tag Leaf W) :=
  iteratePathRecursive visitorTrait selector r.fields [] args

/-- `iterate_path_only`. -/
def iteratePathOnly (r : Record Tag Leaf) (visitorTrait : TagPath Tag → Bool) (paths : List (RecordAccess Tag)) (args : W) :
    List (VisitorCall Tag Leaf W) :=
  iteratePath r (selectors.Include paths) visitorTrait args

/-- `iterate_path_except`. -/
def iteratePathExcept (r : Record Tag Leaf) (visitorTrait : TagPath Tag → Bool) (paths : List (RecordAccess Tag)) (args : W) :
    List (VisitorCall Tag Leaf W) :=
  iteratePath r (selectors.Exclude paths) visitorTrait args

/-! ## Selectors -/

omit [DecidableEq Tag] in
/-- The queries of a selector are right for the leaves that are selected. -/
structure Selector.Decides (selector : Selector Tag) (leaves : List (TagPath Tag)) (selected : TagPath Tag → Bool) : Prop where
  leaf : ∀ p ∈ leaves, selector.allow p = selected p
  /-- A field that is not entered has no selected leaf, -/
  prune : ∀ p, ∀ q ∈ leaves, p <+: q → selector.allow p = false → selected q = false
  /-- and all leaves of a covered one are selected. -/
  covers : ∀ p, ∀ q ∈ leaves, p <+: q → selector.coversSubtree p = true → selected q = true

namespace Fields

/-- Nothing is behind a leaf. -/
theorem eq_of_isLeaf_of_hasPath {fields : Fields Tag Leaf} {p q : TagPath Tag} (hp : fields.IsLeaf p)
    (hq : hasPath q fields = true) (h : p <+: q) : p = q := by
  induction p generalizing fields q with
  | nil => exact hp.elim
  | cons head tail ih =>
    obtain ⟨tail', rfl⟩ := h
    rw [List.cons_append, hasPath] at hq
    rw [IsLeaf] at hp
    cases hvalue : fields.valueTypeFor head with
    | none =>
      rw [hvalue] at hp
      exact hp.elim
    | some value =>
      rw [hvalue] at hp hq
      cases value with
      | leaf type =>
        obtain rfl : tail = [] := hp
        by_cases htail : tail' = []
        · rw [htail, List.append_nil]
        · exact absurd ((if_neg htail).symm.trans hq) Bool.false_ne_true
      | record inner =>
        by_cases hempty : tail ++ tail' = []
        · rw [List.cons_append, hempty, (List.append_eq_nil_iff.mp hempty).1]
        · exact congrArg _ (ih hp ((if_neg hempty).symm.trans hq) (List.prefix_append _ _))

end Fields

section Decides

variable {r : Record Tag Leaf} {targets : List (RecordAccess Tag)}

/-- One of the targets is an ancestor. -/
def selectedBy (targets : List (RecordAccess Tag)) (p : TagPath Tag) : Bool :=
  targets.any fun t => isAncestorOf t.toPath p

theorem selectedBy_iff {p : TagPath Tag} : selectedBy targets p = true ↔ ∃ t ∈ targets, t.toPath <+: p := by
  rw [selectedBy, List.any_eq_true]
  exact exists_congr fun t => and_congr_right fun _ => isAncestorOf_iff

/-- A target is on the way to a path, or behind it. -/
theorem any_related_iff {p : TagPath Tag} :
    (targets.any fun t => isAncestorOf p t.toPath || isDescendantOf p t.toPath) = true ↔
      ∃ t ∈ targets, p <+: t.toPath ∨ t.toPath <+: p := by
  rw [List.any_eq_true]
  refine exists_congr fun t => and_congr_right fun _ => ?_
  rw [Bool.or_eq_true, isAncestorOf_iff, isDescendantOf_iff]

omit [DecidableEq Tag] in
theorem selectAll_decides (leaves : List (TagPath Tag)) : (selectors.SelectAll : Selector Tag).Decides leaves fun _ => true where
  leaf := fun _ _ => rfl
  prune := fun _ _ _ _ h => h
  covers := fun _ _ _ _ _ => rfl

theorem include_decides (hvalid : ∀ t ∈ targets, Fields.hasPath t.toPath r.fields = true) :
    (selectors.Include targets).Decides r.fields.leafPaths (selectedBy targets) where
  leaf := fun p hp => by
    rw [Bool.eq_iff_iff, selectedBy_iff]
    refine any_related_iff.trans (exists_congr fun t => and_congr_right fun ht => or_iff_right_of_imp fun hprefix => ?_)
    -- nothing is behind a leaf, so the target is the leaf
    rw [Fields.eq_of_isLeaf_of_hasPath ((Fields.mem_leafPaths r.unique).mp hp) (hvalid t ht) hprefix]
  prune := fun p q _ hpq hallow => by
    rw [← Bool.not_eq_true, selectedBy_iff]
    rintro ⟨t, ht, htq⟩
    have hrelated : (selectors.Include targets).allow p = true :=
      any_related_iff.mpr ⟨t, ht, List.prefix_or_prefix_of_prefix hpq htq⟩
    exact absurd (hrelated.symm.trans hallow) nofun
  covers := fun p q _ hpq hcovers => by
    obtain ⟨t, ht, htp⟩ := List.any_eq_true.mp hcovers
    exact selectedBy_iff.mpr ⟨t, ht, (isDescendantOf_iff.mp htp).trans hpq⟩

theorem exclude_decides (leaves : List (TagPath Tag)) :
    (selectors.Exclude targets).Decides leaves fun p => !selectedBy targets p where
  leaf := fun _ _ => rfl
  prune := fun p q _ hpq hallow => by
    change (!targets.any fun t => isDescendantOf p t.toPath) = false at hallow
    rw [Bool.not_eq_false'] at hallow ⊢
    obtain ⟨t, ht, htp⟩ := List.any_eq_true.mp hallow
    rw [selectedBy_iff]
    exact ⟨t, ht, (isDescendantOf_iff.mp htp).trans hpq⟩
  covers := fun p q _ hpq hcovers => by
    change (!targets.any fun t => isAncestorOf p t.toPath || isDescendantOf p t.toPath) = true at hcovers
    rw [Bool.not_eq_true', ← Bool.not_eq_true] at hcovers ⊢
    rw [selectedBy_iff]
    rintro ⟨t, ht, htq⟩
    exact hcovers (any_related_iff.mpr ⟨t, ht, List.prefix_or_prefix_of_prefix hpq htq⟩)

end Decides

/-! ## The walk -/

namespace Fields

variable {selector : Selector Tag} {specialized : TagPath Tag → Tag → ValueType Tag Leaf → Bool} {index : W → Tag → W}
  {currentPath : TagPath Tag} {arg : W} {c : VisitorCall Tag Leaf W}

omit [DecidableEq Tag] in
theorem prefix_of_mem_getLeafPaths {fields : Fields Tag Leaf} {q : TagPath Tag} (hq : q ∈ fields.getLeafPaths currentPath) :
    currentPath <+: q := by
  rw [getLeafPaths_eq_map] at hq
  obtain ⟨p, -, rfl⟩ := List.mem_map.mp hq
  exact List.prefix_append _ _

omit [DecidableEq Tag] in
/-- **The calls cover the selected leaves**, in the order of the leaves. -/
theorem flatMap_covered {leaves : List (TagPath Tag)} {selected : TagPath Tag → Bool}
    (h : selector.Decides leaves selected) (fields : Fields Tag Leaf) (currentPath : TagPath Tag) (arg : W)
    (hsub : ∀ p ∈ fields.getLeafPaths currentPath, p ∈ leaves) :
    (fields.visit selector specialized index currentPath arg).flatMap VisitorCall.covered =
      (fields.getLeafPaths currentPath).filter selected := by
  induction fields generalizing currentPath arg with
  | nil => rfl
  | leaf tag type rest ih =>
    rw [getLeafPaths] at hsub
    have hmem := hsub (currentPath ++ [tag]) (List.mem_append_left _ (List.mem_singleton_self _))
    rw [visit, getLeafPaths, List.flatMap_append, List.filter_append,
      ih currentPath arg fun p hp => hsub p (List.mem_append_right _ hp), h.leaf _ hmem]
    cases hselected : selected (currentPath ++ [tag]) with
    | true => rw [if_pos rfl, List.filter_singleton, hselected]; rfl
    | false => rw [if_neg Bool.false_ne_true, List.filter_singleton, hselected]; rfl
  | nested tag inner rest ihi ihr =>
    rw [getLeafPaths] at hsub
    have hinner : ∀ p ∈ inner.getLeafPaths (currentPath ++ [tag]), p ∈ leaves := fun p hp =>
      hsub p (List.mem_append_left _ hp)
    rw [visit, getLeafPaths, List.flatMap_append, List.filter_append,
      ihr currentPath arg fun p hp => hsub p (List.mem_append_right _ hp)]
    congr 1
    cases hallow : selector.allow (currentPath ++ [tag]) with
    | false =>
      rw [if_neg Bool.false_ne_true, List.flatMap_nil, eq_comm, List.filter_eq_nil_iff]
      intro q hq
      rw [h.prune _ q (hinner q hq) (prefix_of_mem_getLeafPaths hq) hallow]
      exact Bool.false_ne_true
    | true =>
      rw [if_pos rfl]
      split
      · next hcomposite =>
        rw [Bool.and_eq_true] at hcomposite
        rw [List.flatMap_singleton, eq_comm]
        refine List.filter_eq_self.mpr fun q hq => ?_
        exact h.covers _ q (hinner q hq) (prefix_of_mem_getLeafPaths hq) hcomposite.1
      · exact ihi (currentPath ++ [tag]) (index arg tag) hinner

/-! ### The fields of the calls -/

section FieldFor

variable {fields inner rest : Fields Tag Leaf} {tag head : Tag} {tail p q : TagPath Tag} {type : Leaf}

theorem fieldFor_of_ne (hvalue : fields.valueTypeFor head = rest.valueTypeFor head) :
    fields.fieldFor (head :: tail) = rest.fieldFor (head :: tail) := by
  rw [fieldFor, fieldFor, hvalue]

theorem fieldFor_self {value : ValueType Tag Leaf} (hvalue : fields.valueTypeFor tag = some value) :
    fields.fieldFor [tag] = some (tag, value) := by
  rw [fieldFor, hvalue]
  exact if_pos rfl

theorem fieldFor_nested (hvalue : fields.valueTypeFor tag = some (.record inner)) (htail : tail ≠ []) :
    fields.fieldFor (tag :: tail) = inner.fieldFor tail := by
  rw [fieldFor, hvalue]
  exact if_neg htail

/-- Records found in a record have unique tags. -/
theorem unique_of_valueTypeFor (hunique : fields.Unique) (hvalue : fields.valueTypeFor tag = some (.record inner)) :
    inner.Unique := by
  induction fields with
  | nil => cases hvalue
  | leaf t type rest ih =>
    rw [valueTypeFor] at hvalue
    split at hvalue
    · cases hvalue
    · exact ih (unique_leaf.mp hunique).2 hvalue
  | nested t inner' rest _ ih =>
    rw [valueTypeFor] at hvalue
    split at hvalue
    · cases hvalue
      exact (unique_nested.mp hunique).2.1
    · exact ih (unique_nested.mp hunique).2.2 hvalue

/-- The leaves behind a nested record are its leaves. -/
theorem isLeaf_append (hunique : fields.Unique) (hp : fields.fieldFor p = some (tag, .record inner)) :
    inner.Unique ∧ ∀ q, fields.IsLeaf (p ++ q) ↔ inner.IsLeaf q := by
  induction p generalizing fields with
  | nil => cases hp
  | cons head tail ih =>
    rw [fieldFor] at hp
    cases hvalue : fields.valueTypeFor head with
    | none =>
      rw [hvalue] at hp
      cases hp
    | some value =>
      rw [hvalue] at hp
      by_cases htail : tail = []
      · subst htail
        obtain ⟨-, rfl⟩ := Prod.mk.inj (Option.some.inj ((if_pos rfl).symm.trans hp))
        refine ⟨unique_of_valueTypeFor hunique hvalue, fun q => ?_⟩
        rw [List.cons_append, List.nil_append, IsLeaf, hvalue]
      · cases value with
        | leaf type => exact absurd ((if_neg htail).symm.trans hp).symm (Option.some_ne_none _)
        | record inner' =>
          obtain ⟨hinner, hleaf⟩ := ih (unique_of_valueTypeFor hunique hvalue) ((if_neg htail).symm.trans hp)
          refine ⟨hinner, fun q => ?_⟩
          rw [List.cons_append, IsLeaf, hvalue]
          exact hleaf q

/-- A call covers the leaves behind its path. -/
theorem mem_covered (hunique : fields.Unique) (hc : fields.fieldFor c.path = some (c.tag, c.valueType)) :
    p ∈ c.covered ↔ fields.IsLeaf p ∧ c.path <+: p := by
  cases hvalue : c.valueType with
  | leaf type =>
    rw [hvalue] at hc
    have hleaf : fields.IsLeaf c.path := isLeafAt_iff.mp (by rw [isLeafAt, hc])
    rw [VisitorCall.covered, hvalue, List.mem_singleton]
    constructor
    · rintro rfl
      exact ⟨hleaf, List.prefix_rfl⟩
    · intro h
      have heq := eq_of_isLeaf_of_prefix hleaf h.1 h.2
      exact heq.symm
  | record inner =>
    rw [hvalue] at hc
    obtain ⟨hinner, hleaf⟩ := isLeaf_append hunique hc
    rw [VisitorCall.covered, hvalue]
    change p ∈ inner.getLeafPaths c.path ↔ _
    rw [getLeafPaths_eq_map, List.mem_map]
    constructor
    · rintro ⟨q, hq, rfl⟩
      exact ⟨(hleaf q).mpr ((mem_leafPaths hinner).mp hq), List.prefix_append _ _⟩
    · rintro ⟨hp, q, rfl⟩
      exact ⟨q, (mem_leafPaths hinner).mpr ((hleaf q).mp hp), rfl⟩

end FieldFor

/-- What a call is, for the path that leads to it from where the walk starts. -/
structure CallAt (selector : Selector Tag) (specialized : TagPath Tag → Tag → ValueType Tag Leaf → Bool) (index : W → Tag → W)
    (fields : Fields Tag Leaf) (currentPath : TagPath Tag) (arg : W) (head : Tag) (tail : TagPath Tag)
    (c : VisitorCall Tag Leaf W) : Prop where
  mem : head ∈ fields.tags
  path : c.path = currentPath ++ head :: tail
  field : fields.fieldFor (head :: tail) = some (c.tag, c.valueType)
  passed : c.arg = (head :: tail).foldl index arg
  composite : ∀ inner, c.valueType = .record inner →
    selector.coversSubtree c.path = true ∧ specialized c.path c.tag c.valueType = true

theorem exists_callAt {fields : Fields Tag Leaf} (hunique : fields.Unique)
    (hc : c ∈ fields.visit selector specialized index currentPath arg) :
    ∃ head tail, CallAt selector specialized index fields currentPath arg head tail c := by
  -- a call in the fields behind the first one
  have hrest : ∀ {fields rest : Fields Tag Leaf} {tag : Tag} {currentPath : TagPath Tag} {arg : W},
      fields.tags = tag :: rest.tags → (∀ query, tag ≠ query → fields.valueTypeFor query = rest.valueTypeFor query) → tag ∉ rest.tags →
      (∃ head tail, CallAt selector specialized index rest currentPath arg head tail c) →
      ∃ head tail, CallAt selector specialized index fields currentPath arg head tail c := by
    rintro fields rest tag currentPath arg htags hvalue htag ⟨head, tail, h⟩
    have hne : tag ≠ head := fun heq => htag (heq ▸ h.mem)
    exact ⟨head, tail, htags ▸ List.mem_cons_of_mem _ h.mem, h.path,
      (fieldFor_of_ne (hvalue head hne)).trans h.field, h.passed, h.composite⟩
  induction fields generalizing currentPath arg with
  | nil => cases hc
  | leaf tag type rest ih =>
    obtain ⟨htag, hunique⟩ := unique_leaf.mp hunique
    rcases List.mem_append.mp hc with hc | hc
    · split at hc
      · obtain rfl := List.mem_singleton.mp hc
        exact ⟨tag, [], List.mem_cons_self, rfl, fieldFor_self (by rw [valueTypeFor, if_pos rfl]), rfl, nofun⟩
      · cases hc
    · exact hrest rfl (fun query hne => by rw [valueTypeFor, if_neg hne]) htag (ih hunique hc)
  | nested tag inner rest ihi ihr =>
    obtain ⟨htag, hinner, hunique⟩ := unique_nested.mp hunique
    have hvalue : (nested tag inner rest).valueTypeFor tag = some (.record inner) := by rw [valueTypeFor, if_pos rfl]
    rcases List.mem_append.mp hc with hc | hc
    · split at hc
      · split at hc
        · next hcomposite =>
          obtain rfl := List.mem_singleton.mp hc
          exact ⟨tag, [], List.mem_cons_self, rfl, fieldFor_self hvalue, rfl, fun _ _ => Bool.and_eq_true_iff.mp hcomposite⟩
        · obtain ⟨head, tail, h⟩ := ihi hinner hc
          refine ⟨tag, head :: tail, List.mem_cons_self, ?_, ?_, h.passed, h.composite⟩
          · rw [h.path, List.append_assoc]
            rfl
          · rw [fieldFor_nested hvalue (List.cons_ne_nil _ _), h.field]
      · cases hc
    · exact hrest rfl (fun query hne => by rw [valueTypeFor, if_neg hne]) htag (ihr hunique hc)

/-- The paths of two calls, from where the walk starts, are in declaration order. -/
def CalledBefore (fields : Fields Tag Leaf) (currentPath : TagPath Tag) (c d : VisitorCall Tag Leaf W) : Prop :=
  ∃ p q, c.path = currentPath ++ p ∧ d.path = currentPath ++ q ∧ fields.DeclaredBefore p q

/-- The calls for the first field are before those for the fields behind it. -/
theorem pairwise_append_visit {fields rest : Fields Tag Leaf} {tag : Tag} {calls : List (VisitorCall Tag Leaf W)}
    (htags : fields.tags = tag :: rest.tags)
    (hvalue : ∀ query, tag ≠ query → fields.valueTypeFor query = rest.valueTypeFor query) (htag : tag ∉ rest.tags)
    (hunique : rest.Unique) (hcalls : calls.Pairwise (fields.CalledBefore currentPath))
    (hfirst : ∀ c ∈ calls, ∃ p, c.path = currentPath ++ tag :: p)
    (hrest : (rest.visit selector specialized index currentPath arg).Pairwise (rest.CalledBefore currentPath)) :
    (calls ++ rest.visit selector specialized index currentPath arg).Pairwise (fields.CalledBefore currentPath) := by
  rw [List.pairwise_append]
  refine ⟨hcalls, hrest.imp_of_mem ?_, fun c hc d hd => ?_⟩
  · rintro c d hc hd ⟨p, q, hp, hq, hpq⟩
    obtain ⟨a, p', hca⟩ := exists_callAt hunique hc
    obtain ⟨b, q', hdb⟩ := exists_callAt hunique hd
    obtain rfl := List.append_cancel_left (hp.symm.trans hca.path)
    obtain rfl := List.append_cancel_left (hq.symm.trans hdb.path)
    exact ⟨_, _, hp, hq, declaredBefore_cons_of_rest htags hvalue htag hca.mem hdb.mem hpq⟩
  · obtain ⟨p, hp⟩ := hfirst c hc
    obtain ⟨b, q, hdb⟩ := exists_callAt hunique hd
    exact ⟨tag :: p, b :: q, hp, hdb.path, declaredBefore_cons_head htags htag p hdb.mem q⟩

/-- **The calls are made in declaration order.** -/
theorem pairwise_visit {fields : Fields Tag Leaf} (hunique : fields.Unique) (currentPath : TagPath Tag) (arg : W) :
    (fields.visit selector specialized index currentPath arg).Pairwise (fields.CalledBefore currentPath) := by
  induction fields generalizing currentPath arg with
  | nil => exact List.Pairwise.nil
  | leaf tag type rest ih =>
    obtain ⟨htag, hunique⟩ := unique_leaf.mp hunique
    refine pairwise_append_visit rfl (fun query hne => by rw [valueTypeFor, if_neg hne]) htag hunique ?_ (fun c hc => ?_)
      (ih hunique currentPath arg)
    · split
      · exact List.pairwise_singleton _ _
      · exact List.Pairwise.nil
    · split at hc
      · obtain rfl := List.mem_singleton.mp hc
        exact ⟨[], rfl⟩
      · cases hc
  | nested tag inner rest ihi ihr =>
    obtain ⟨htag, hinner, hunique⟩ := unique_nested.mp hunique
    have hvalue : (nested tag inner rest).valueTypeFor tag = some (.record inner) := by rw [valueTypeFor, if_pos rfl]
    refine pairwise_append_visit rfl (fun query hne => by rw [valueTypeFor, if_neg hne]) htag hunique ?_ (fun c hc => ?_)
      (ihr hunique currentPath arg)
    · split
      · split
        · exact List.pairwise_singleton _ _
        · refine (ihi hinner (currentPath ++ [tag]) (index arg tag)).imp ?_
          rintro c d ⟨p, q, hp, hq, hpq⟩
          refine ⟨tag :: p, tag :: q, ?_, ?_, declaredBefore_inner hvalue hpq⟩
          · rw [hp, List.append_assoc, List.singleton_append]
          · rw [hq, List.append_assoc, List.singleton_append]
      · exact List.Pairwise.nil
    · split at hc
      · split at hc
        · obtain rfl := List.mem_singleton.mp hc
          exact ⟨[], rfl⟩
        · obtain ⟨head, tail, h⟩ := exists_callAt hinner hc
          exact ⟨head :: tail, by rw [h.path, List.append_assoc, List.singleton_append]⟩
      · cases hc

end Fields

/-! ## All selectors -/

/-- The calls are those for the selected leaves. -/
structure VisitsSelected (r : Record Tag Leaf) (selected : RawAccessSet Tag)
    (specialized : TagPath Tag → Tag → ValueType Tag Leaf → Bool) (arg : TagPath Tag → W)
    (calls : List (VisitorCall Tag Leaf W)) : Prop where
  /-- A call is for a field of the record, and covers its leaves. -/
  field : ∀ c ∈ calls, r.fields.fieldFor c.path = some (c.tag, c.valueType) ∧ c.arg = arg c.path ∧
    ∀ p, p ∈ c.covered ↔ r.fields.IsLeaf p ∧ c.path <+: p
  /-- Together they cover the selected leaves, each one once, and no others. -/
  covered : (calls.flatMap VisitorCall.covered).map RecordAccess.path = selected.elements
  /-- They are made in declaration order. -/
  declared : calls.Pairwise fun c d => r.fields.DeclaredBefore c.path d.path
  /-- Nested records are visited as a whole where the trait is specialised and all of their leaves are
  selected. -/
  composite : ∀ c ∈ calls, ∀ inner, c.valueType = .record inner →
    specialized c.path c.tag c.valueType = true ∧
      ∀ p, r.fields.IsLeaf p → c.path <+: p → .path p ∈ selected.elements

section All

variable {r : Record Tag Leaf} {selector : Selector Tag} {selected : TagPath Tag → Bool} {set : RawAccessSet Tag}

/-- **The walk with a selector** that decides which leaves are in a set. -/
theorem visitsSelected (h : selector.Decides r.fields.leafPaths selected)
    (hset : set.elements = (r.fields.leafPaths.filter selected).map RecordAccess.path)
    (specialized : TagPath Tag → Tag → ValueType Tag Leaf → Bool) (index : W → Tag → W) (arg : W) :
    VisitsSelected r set specialized (fun p => p.foldl index arg)
      (r.fields.visit selector specialized index [] arg) where
  field := fun c hc => by
    obtain ⟨head, tail, hcall⟩ := Fields.exists_callAt r.unique hc
    have hpath : c.path = head :: tail := hcall.path
    have hfield : r.fields.fieldFor c.path = some (c.tag, c.valueType) := hpath ▸ hcall.field
    exact ⟨hfield, hpath ▸ hcall.passed, fun p => Fields.mem_covered r.unique hfield⟩
  covered := by
    rw [Fields.flatMap_covered h r.fields [] arg fun _ hp => hp, hset]
    rfl
  declared := by
    refine (Fields.pairwise_visit r.unique [] arg).imp ?_
    rintro c d ⟨p, q, hp, hq, hpq⟩
    rwa [hp, hq]
  composite := fun c hc inner hinner => by
    obtain ⟨head, tail, hcall⟩ := Fields.exists_callAt r.unique hc
    obtain ⟨hcovers, hspecialized⟩ := hcall.composite inner hinner
    refine ⟨hspecialized, fun p hp hprefix => ?_⟩
    have hmem := (Fields.mem_leafPaths r.unique).mpr hp
    rw [hset]
    exact List.mem_map_of_mem (List.mem_filter.mpr ⟨hmem, h.covers _ p hmem hprefix hcovers⟩)

theorem selectsLeaf_dedupedAccessSet (targets : List (RecordAccess Tag)) (p : TagPath Tag) :
    selectsLeaf p (dedupedAccessSet targets) = selectedBy targets p := by
  rw [Bool.eq_iff_iff, selectsLeaf_iff, selectedBy_iff]
  constructor
  · rintro ⟨a, ha, hprefix⟩
    obtain ⟨t, ht, rfl⟩ := List.mem_map.mp (TypeSet.mem_makeSet.mp ha)
    exact ⟨t, ht, hprefix⟩
  · rintro ⟨t, ht, hprefix⟩
    exact ⟨.path t.toPath, TypeSet.mem_makeSet.mpr (List.mem_map_of_mem ht), hprefix⟩

theorem elements_leafSet_dedupedAccessSet (r : Record Tag Leaf) (targets : List (RecordAccess Tag)) :
    (leafSet r (dedupedAccessSet targets)).elements =
      (r.fields.leafPaths.filter (selectedBy targets)).map RecordAccess.path := by
  rw [leafSet, elements_makeLeafSet]
  refine congrArg _ (List.filter_congr fun p _ => ?_)
  rw [selectsLeaf_dedupedAccessSet, Bool.decide_eq_true]

end All

/-- **Iteration visits exactly the selected leaves**, for every record, visitor trait and list of targets. -/
theorem iteration_visits_selected (r : Record Tag Leaf) (targets : List (RecordAccess Tag))
    (hvalid : ∀ t ∈ targets, Fields.hasPath t.toPath r.fields = true) (visitorTrait : Tag → ValueType Tag Leaf → Bool)
    (pathTrait : TagPath Tag → Bool) (index : W → Tag → W) (view : W) :
    (VisitsSelected r (AccessSet.all r).leaves (fun _ => visitorTrait) (fun p => p.foldl index view)
        (iterate r selectors.SelectAll visitorTrait index view) ∧
      VisitsSelected r (leafSet r (dedupedAccessSet targets)) (fun _ => visitorTrait) (fun p => p.foldl index view)
        (iterateOnly r visitorTrait targets index view) ∧
      VisitsSelected r (leafSetComplement r (dedupedAccessSet targets)) (fun _ => visitorTrait)
        (fun p => p.foldl index view) (iterateExcept r visitorTrait targets index view)) ∧
    VisitsSelected r (AccessSet.all r).leaves (fun p _ _ => pathTrait p) (fun _ => view)
        (iteratePath r selectors.SelectAll pathTrait view) ∧
      VisitsSelected r (leafSet r (dedupedAccessSet targets)) (fun p _ _ => pathTrait p) (fun _ => view)
        (iteratePathOnly r pathTrait targets view) ∧
      VisitsSelected r (leafSetComplement r (dedupedAccessSet targets)) (fun p _ _ => pathTrait p) (fun _ => view)
        (iteratePathExcept r pathTrait targets view) := by
  have hall : (AccessSet.all r).leaves.elements = (r.fields.leafPaths.filter fun _ => true).map RecordAccess.path := by
    refine (elements_leafSet_dedupedAccessSet r [.path []]).trans (congrArg _ (List.filter_congr fun p _ => ?_))
    exact selectedBy_iff.mpr ⟨.path [], List.mem_singleton_self _, List.nil_prefix⟩
  have hinclude := elements_leafSet_dedupedAccessSet r targets
  have hexclude : (leafSetComplement r (dedupedAccessSet targets)).elements =
      (r.fields.leafPaths.filter fun p => !selectedBy targets p).map RecordAccess.path := by
    rw [leafSetComplement, elements_makeLeafSet]
    refine congrArg _ (List.filter_congr fun p _ => ?_)
    rw [selectsLeaf_dedupedAccessSet]
    cases selectedBy targets p <;> rfl
  have hargs : ∀ p : TagPath Tag, p.foldl (fun args _ => args) view = view := by
    intro p
    induction p with
    | nil => rfl
    | cons head tail ih => exact ih
  have hpaths : ∀ {selector : Selector Tag} {selected : TagPath Tag → Bool} {set : RawAccessSet Tag},
      selector.Decides r.fields.leafPaths selected →
      set.elements = (r.fields.leafPaths.filter selected).map RecordAccess.path →
      VisitsSelected r set (fun p _ _ => pathTrait p) (fun _ => view) (iteratePath r selector pathTrait view) := by
    intro selector selected set h hset
    have hvisits := visitsSelected h hset (fun p _ _ => pathTrait p) (fun args _ => args) view
    simp only [hargs] at hvisits
    exact hvisits
  exact ⟨⟨visitsSelected (selectAll_decides _) hall _ index view, visitsSelected (include_decides hvalid) hinclude _ index view,
    visitsSelected (exclude_decides _) hexclude _ index view⟩, hpaths (selectAll_decides _) hall,
    hpaths (include_decides hvalid) hinclude, hpaths (exclude_decides _) hexclude⟩

/-- A record with a nested one, whose visitor is not called for half of it. -/
theorem iteration_visits_selected_half : ∃ r : Record ℕ Unit,
    VisitsSelected r (leafSet r (dedupedAccessSet [.path [0, 2]])) (fun _ _ _ => true)
        (fun p => p.foldl (fun q t => q ++ [t]) [])
        (iterateOnly r (fun _ _ => true) [.path [0, 2]] (fun q t => q ++ [t]) []) ∧
      (iterateOnly r (fun _ _ => true) [.path [0, 2]] (fun q t => q ++ [t]) []).map VisitorCall.path = [[0, 2]] :=
  ⟨⟨.nested 0 (.leaf 1 () (.leaf 2 () .nil)) (.leaf 3 () .nil), by decide⟩,
    (iteration_visits_selected _ [.path [0, 2]] (by decide) (fun _ _ => true) (fun _ => true) _ _).1.2.1, by decide⟩

end LlamaLite
end Spearhed
