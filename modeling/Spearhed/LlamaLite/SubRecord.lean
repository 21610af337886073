import Spearhed.LlamaLite.AccessSet

/-!
# Sub-records

`sub_record_t` walks down the fields of a record with a pack of paths: a field one of the paths ends
at is kept whole, a field that paths continue past is cut down to the tails of these paths, all
others are dropped.  Access sets select leaves by ancestry instead.

* `Extracted`: what the walk leaves, field after field.  The leaves are those with an ancestor among
  the paths that are not empty.
* `subRecord_agrees_iff`: the leaves are those of the access set unless the pack has the empty path,
  which selects the whole record there and nothing here.
-/

namespace Spearhed
namespace LlamaLite

variable {Tag Leaf : Type} [DecidableEq Tag]

/-- `detail::MatchingTail`. -/
def matchingTail (query : Tag) : TagPath Tag → List (TagPath Tag)
  | [] => []
  | head :: rest => if head = query then (if rest = [] then [] else [rest]) else []

/-- `ProcessField::TailsList`: the paths that continue past a tag. -/
def tailsList (query : Tag) (paths : List (TagPath Tag)) : List (TagPath Tag) :=
  paths.flatMap (matchingTail query)

/-- `ProcessField::exact_match`: a path ends at the tag. -/
def exactMatch (query : Tag) (paths : List (TagPath Tag)) : Bool :=
  paths.any fun p => p == [query]

namespace Fields

/-- `detail::ProcessAllFields`; nothing where a path continues past a leaf, which is a static assertion. -/
def processAllFields : Fields Tag Leaf → List (TagPath Tag) → Option (Fields Tag Leaf)
  | nil, _ => some nil
  | leaf tag type rest, paths =>
      if exactMatch tag paths then (rest.processAllFields paths).map (leaf tag type)
      else if tailsList tag paths = [] then rest.processAllFields paths
      else none
  | nested tag inner rest, paths =>
      if exactMatch tag paths then (rest.processAllFields paths).map (nested tag inner)
      else if tailsList tag paths = [] then rest.processAllFields paths
      else
        (inner.processAllFields (tailsList tag paths)).bind fun sub =>
          (rest.processAllFields paths).map (nested tag sub)

/-- `value_type_for` a leaf. -/
def leafTypeAt : Fields Tag Leaf → TagPath Tag → Option Leaf
  | _, [] => none
  | fields, head :: tail =>
      match fields.valueTypeFor head with
      | none => none
      | some (.leaf type) => if tail = [] then some type else none
      | some (.record inner) => inner.leafTypeAt tail

end Fields

/-! ## Paths at one level -/

section Paths

variable {tag : Tag} {paths : List (TagPath Tag)} {p : TagPath Tag}

/-- Some path that is not empty is an ancestor. -/
def selects (paths : List (TagPath Tag)) (p : TagPath Tag) : Bool :=
  paths.any fun q => q != [] && isAncestorOf q p

theorem selects_iff : selects paths p = true ↔ ∃ q ∈ paths, q ≠ [] ∧ q <+: p := by
  rw [selects, List.any_eq_true]
  refine exists_congr fun q => and_congr_right fun _ => ?_
  rw [Bool.and_eq_true, bne_iff_ne, isAncestorOf_iff]

theorem exactMatch_iff : exactMatch tag paths = true ↔ [tag] ∈ paths := by
  rw [exactMatch, List.any_eq_true]
  simp only [beq_iff_eq, exists_eq_right]

theorem mem_tailsList : p ∈ tailsList tag paths ↔ p ≠ [] ∧ tag :: p ∈ paths := by
  rw [tailsList, List.mem_flatMap]
  constructor
  · rintro ⟨q, hq, hp⟩
    cases q with
    | nil => exact absurd hp List.not_mem_nil
    | cons head rest =>
      rw [matchingTail] at hp
      split at hp
      · next hhead =>
        split at hp
        · exact absurd hp List.not_mem_nil
        · next hrest =>
          obtain rfl := List.mem_singleton.mp hp
          exact ⟨hrest, hhead ▸ hq⟩
      · exact absurd hp List.not_mem_nil
  · rintro ⟨hp, hmem⟩
    refine ⟨tag :: p, hmem, ?_⟩
    rw [matchingTail, if_pos rfl, if_neg hp]
    exact List.mem_singleton.mpr rfl

@[simp] theorem selects_nil_path : selects paths [] = false := by
  rw [← Bool.not_eq_true, selects_iff]
  rintro ⟨q, -, hq, hprefix⟩
  exact hq (List.prefix_nil.mp hprefix)

/-- A path is selected by its first tag or by what continues past it. -/
theorem selects_cons : selects paths (tag :: p) = (exactMatch tag paths || selects (tailsList tag paths) p) := by
  rw [Bool.eq_iff_iff, Bool.or_eq_true, selects_iff, selects_iff, exactMatch_iff]
  constructor
  · rintro ⟨q, hq, hne, hprefix⟩
    cases q with
    | nil => exact absurd rfl hne
    | cons head rest =>
      obtain ⟨rfl, hrest⟩ := List.cons_prefix_cons.mp hprefix
      by_cases hempty : rest = []
      · exact Or.inl (hempty ▸ hq)
      · exact Or.inr ⟨rest, mem_tailsList.mpr ⟨hempty, hq⟩, hempty, hrest⟩
  · rintro (hexact | ⟨q, hq, hne, hprefix⟩)
    · exact ⟨[tag], hexact, List.cons_ne_nil _ _, List.cons_prefix_cons.mpr ⟨rfl, List.nil_prefix⟩⟩
    · exact ⟨tag :: q, (mem_tailsList.mp hq).2, List.cons_ne_nil _ _, List.cons_prefix_cons.mpr ⟨rfl, hprefix⟩⟩

end Paths

namespace Fields

/-! ## Lookups past the first field -/

section Lookups

variable {tag head : Tag} {tail p : TagPath Tag} {type : Leaf} {inner rest : Fields Tag Leaf}

theorem hasPath_leaf_of_ne (h : tag ≠ head) :
    hasPath (head :: tail) (leaf tag type rest) = hasPath (head :: tail) rest := by
  rw [hasPath, hasPath, valueTypeFor, if_neg h]

theorem hasPath_nested_of_ne (h : tag ≠ head) :
    hasPath (head :: tail) (nested tag inner rest) = hasPath (head :: tail) rest := by
  rw [hasPath, hasPath, valueTypeFor, if_neg h]

theorem hasPath_leaf_self : hasPath (tag :: tail) (leaf tag type rest) = decide (tail = []) := by
  rw [hasPath, valueTypeFor, if_pos rfl]
  by_cases htail : tail = [] <;> simp [htail]

theorem hasPath_nested_self : hasPath (tag :: tail) (nested tag inner rest) = hasPath tail inner := by
  rw [hasPath, valueTypeFor, if_pos rfl]
  by_cases htail : tail = []
  · rw [htail]
    rfl
  · simp [htail]

theorem leafTypeAt_leaf_of_ne (h : tag ≠ head) :
    (leaf tag type rest).leafTypeAt (head :: tail) = rest.leafTypeAt (head :: tail) := by
  rw [leafTypeAt, leafTypeAt, valueTypeFor, if_neg h]

theorem leafTypeAt_nested_of_ne (h : tag ≠ head) :
    (nested tag inner rest).leafTypeAt (head :: tail) = rest.leafTypeAt (head :: tail) := by
  rw [leafTypeAt, leafTypeAt, valueTypeFor, if_neg h]

theorem leafTypeAt_leaf_self :
    (leaf tag type rest).leafTypeAt (tag :: tail) = if tail = [] then some type else none := by
  rw [leafTypeAt, valueTypeFor, if_pos rfl]

theorem leafTypeAt_nested_self : (nested tag inner rest).leafTypeAt (tag :: tail) = inner.leafTypeAt tail := by
  rw [leafTypeAt, valueTypeFor, if_pos rfl]

theorem leafTypeAt_of_not_mem {fields : Fields Tag Leaf} (h : head ∉ fields.tags) :
    fields.leafTypeAt (head :: tail) = none := by
  have hnone : fields.valueTypeFor head = none := by
    by_contra hne
    exact h (valueTypeFor_ne_none.mp hne)
  rw [leafTypeAt, hnone]

end Lookups

/-! ## What the walk leaves -/

/-- The paths that enter one of the fields exist. -/
def PathsExist (paths : List (TagPath Tag)) (fields : Fields Tag Leaf) : Prop :=
  ∀ head tail, head :: tail ∈ paths → head ∈ fields.tags → hasPath (head :: tail) fields = true

/-- The sub-record of some paths. -/
structure Extracted (fields : Fields Tag Leaf) (paths : List (TagPath Tag)) (sub : Fields Tag Leaf) : Prop where
  tags : sub.tags ⊆ fields.tags
  unique : sub.Unique
  leafPaths : sub.leafPaths = fields.leafPaths.filter (selects paths)
  types : ∀ p, sub.leafTypeAt p = if selects paths p then fields.leafTypeAt p else none
  keepsPaths : ∀ p ∈ paths, hasPath p fields = true → hasPath p sub = true
  twice : sub.processAllFields paths = some sub

section Extraction

variable {tag : Tag} {type : Leaf} {inner rest sub sub' : Fields Tag Leaf} {paths : List (TagPath Tag)}

theorem PathsExist.rest_of_leaf (h : PathsExist paths (leaf tag type rest)) (htag : tag ∉ rest.tags) :
    PathsExist paths rest := by
  intro head tail hmem hhead
  have hne : tag ≠ head := fun heq => htag (heq ▸ hhead)
  rw [← hasPath_leaf_of_ne hne]
  exact h head tail hmem (List.mem_cons_of_mem _ hhead)

theorem PathsExist.rest_of_nested (h : PathsExist paths (nested tag inner rest)) (htag : tag ∉ rest.tags) :
    PathsExist paths rest := by
  intro head tail hmem hhead
  have hne : tag ≠ head := fun heq => htag (heq ▸ hhead)
  rw [← hasPath_nested_of_ne hne]
  exact h head tail hmem (List.mem_cons_of_mem _ hhead)

/-- No path continues past a leaf. -/
theorem PathsExist.tailsList_of_leaf (h : PathsExist paths (leaf tag type rest)) : tailsList tag paths = [] := by
  refine List.eq_nil_iff_forall_not_mem.mpr fun p hp => ?_
  obtain ⟨hne, hmem⟩ := mem_tailsList.mp hp
  have hpath := h tag p hmem List.mem_cons_self
  rw [hasPath_leaf_self] at hpath
  exact hne (of_decide_eq_true hpath)

theorem PathsExist.tailsList_of_nested (h : PathsExist paths (nested tag inner rest)) :
    PathsExist (tailsList tag paths) inner := by
  intro head tail hmem _
  have hpath := h tag (head :: tail) (mem_tailsList.mp hmem).2 List.mem_cons_self
  rwa [hasPath_nested_self] at hpath

/-- A field without a path into it is dropped. -/
theorem not_mem_paths (hexact : exactMatch tag paths = false) (htails : tailsList tag paths = []) (tail : TagPath Tag) :
    tag :: tail ∉ paths := by
  intro hmem
  by_cases htail : tail = []
  · rw [← Bool.not_eq_true, exactMatch_iff] at hexact
    exact hexact (htail ▸ hmem)
  · have hcontinued := mem_tailsList.mpr ⟨htail, hmem⟩
    rw [htails] at hcontinued
    exact List.not_mem_nil hcontinued

theorem extracted_nil (paths : List (TagPath Tag)) : Extracted (nil : Fields Tag Leaf) paths nil where
  tags := List.Subset.refl _
  unique := ⟨fun _ h => absurd h List.not_mem_nil, trivial⟩
  leafPaths := rfl
  types p := by
    cases p <;> simp [leafTypeAt, valueTypeFor]
  keepsPaths _ _ := id
  twice := rfl

namespace Extracted

variable (h : Extracted rest paths sub') (htag : tag ∉ rest.tags)
include h htag

theorem not_mem_tags : tag ∉ sub'.tags := fun hmem => htag (h.tags hmem)

theorem keep_leaf (hexact : exactMatch tag paths = true) :
    Extracted (leaf tag type rest) paths (leaf tag type sub') where
  tags := List.cons_subset_cons _ h.tags
  unique := unique_leaf.mpr ⟨h.not_mem_tags htag, h.unique⟩
  leafPaths := by
    have hselects : selects paths [tag] = true := by rw [selects_cons, hexact, Bool.true_or]
    rw [leafPaths_leaf, leafPaths_leaf, List.filter_cons_of_pos hselects, h.leafPaths]
  types p := by
    cases p with
    | nil => simp [leafTypeAt]
    | cons head tail =>
      by_cases hhead : tag = head
      · subst hhead
        rw [leafTypeAt_leaf_self, leafTypeAt_leaf_self, selects_cons, hexact, Bool.true_or, if_pos rfl]
      · rw [leafTypeAt_leaf_of_ne hhead, leafTypeAt_leaf_of_ne hhead, h.types]
  keepsPaths p hp hpath := by
    cases p with
    | nil => rfl
    | cons head tail =>
      by_cases hhead : tag = head
      · subst hhead
        rw [hasPath_leaf_self] at hpath ⊢
        exact hpath
      · rw [hasPath_leaf_of_ne hhead] at hpath ⊢
        exact h.keepsPaths _ hp hpath
  twice := by rw [processAllFields, if_pos hexact, h.twice]; rfl

theorem keep_nested (hinner : inner.Unique) (hexact : exactMatch tag paths = true) :
    Extracted (nested tag inner rest) paths (nested tag inner sub') where
  tags := List.cons_subset_cons _ h.tags
  unique := unique_nested.mpr ⟨h.not_mem_tags htag, hinner, h.unique⟩
  leafPaths := by
    have hselects : ∀ p ∈ inner.leafPaths.map (tag :: ·), selects paths p = true := by
      intro p hp
      obtain ⟨tail, -, rfl⟩ := List.mem_map.mp hp
      rw [selects_cons, hexact, Bool.true_or]
    rw [leafPaths_nested, leafPaths_nested, List.filter_append, List.filter_eq_self.mpr hselects, h.leafPaths]
  types p := by
    cases p with
    | nil => simp [leafTypeAt]
    | cons head tail =>
      by_cases hhead : tag = head
      · subst hhead
        rw [leafTypeAt_nested_self, leafTypeAt_nested_self, selects_cons, hexact, Bool.true_or, if_pos rfl]
      · rw [leafTypeAt_nested_of_ne hhead, leafTypeAt_nested_of_ne hhead, h.types]
  keepsPaths p hp hpath := by
    cases p with
    | nil => rfl
    | cons head tail =>
      by_cases hhead : tag = head
      · subst hhead
        rw [hasPath_nested_self] at hpath ⊢
        exact hpath
      · rw [hasPath_nested_of_ne hhead] at hpath ⊢
        exact h.keepsPaths _ hp hpath
  twice := by rw [processAllFields, if_pos hexact, h.twice]; rfl

/-- A nested record cut down to the tails. -/
theorem cut_nested (hsub : Extracted inner (tailsList tag paths) sub) (hexact : exactMatch tag paths = false)
    (htails : tailsList tag paths ≠ []) : Extracted (nested tag inner rest) paths (nested tag sub sub') where
  tags := List.cons_subset_cons _ h.tags
  unique := unique_nested.mpr ⟨h.not_mem_tags htag, hsub.unique, h.unique⟩
  leafPaths := by
    have hselects : (fun p => selects paths (tag :: p)) = selects (tailsList tag paths) :=
      funext fun p => by rw [selects_cons, hexact, Bool.false_or]
    rw [leafPaths_nested, leafPaths_nested, List.filter_append, List.filter_map, h.leafPaths, hsub.leafPaths]
    exact congrArg (fun f => (inner.leafPaths.filter f).map _ ++ _) hselects.symm
  types p := by
    cases p with
    | nil => simp [leafTypeAt]
    | cons head tail =>
      by_cases hhead : tag = head
      · subst hhead
        rw [leafTypeAt_nested_self, leafTypeAt_nested_self, selects_cons, hexact, Bool.false_or, hsub.types]
      · rw [leafTypeAt_nested_of_ne hhead, leafTypeAt_nested_of_ne hhead, h.types]
  keepsPaths p hp hpath := by
    cases p with
    | nil => rfl
    | cons head tail =>
      by_cases hhead : tag = head
      · subst hhead
        rw [hasPath_nested_self] at hpath ⊢
        cases tail with
        | nil => rfl
        | cons head' tail' =>
          exact hsub.keepsPaths _ (mem_tailsList.mpr ⟨List.cons_ne_nil _ _, hp⟩) hpath
      · rw [hasPath_nested_of_ne hhead] at hpath ⊢
        exact h.keepsPaths _ hp hpath
  twice := by
    rw [processAllFields, if_neg (by rw [hexact]; exact Bool.false_ne_true), if_neg htails, hsub.twice, h.twice]
    rfl

theorem drop_leaf (hexact : exactMatch tag paths = false) (htails : tailsList tag paths = []) :
    Extracted (leaf tag type rest) paths sub' where
  tags _ hmem := List.mem_cons_of_mem _ (h.tags hmem)
  unique := h.unique
  leafPaths := by
    have hselects : selects paths [tag] = false := by rw [selects_cons, hexact, Bool.false_or, selects_nil_path]
    rw [leafPaths_leaf, List.filter_cons_of_neg (by rw [hselects]; exact Bool.false_ne_true), h.leafPaths]
  types p := by
    cases p with
    | nil => simp [leafTypeAt]
    | cons head tail =>
      by_cases hhead : tag = head
      · subst hhead
        rw [leafTypeAt_of_not_mem (h.not_mem_tags htag), selects_cons, hexact, htails]
        rfl
      · rw [leafTypeAt_leaf_of_ne hhead, h.types]
  keepsPaths p hp hpath := by
    cases p with
    | nil => rfl
    | cons head tail =>
      have hhead : tag ≠ head := fun heq => not_mem_paths hexact htails tail (heq ▸ hp)
      rw [hasPath_leaf_of_ne hhead] at hpath
      exact h.keepsPaths _ hp hpath
  twice := h.twice

theorem drop_nested (hexact : exactMatch tag paths = false) (htails : tailsList tag paths = []) :
    Extracted (nested tag inner rest) paths sub' where
  tags _ hmem := List.mem_cons_of_mem _ (h.tags hmem)
  unique := h.unique
  leafPaths := by
    have hselects : ∀ p ∈ inner.leafPaths.map (tag :: ·), ¬ selects paths p = true := by
      intro p hp
      obtain ⟨tail, -, rfl⟩ := List.mem_map.mp hp
      rw [selects_cons, hexact, htails]
      exact Bool.false_ne_true
    rw [leafPaths_nested, List.filter_append, List.filter_eq_nil_iff.mpr hselects, h.leafPaths, List.nil_append]
  types p := by
    cases p with
    | nil => simp [leafTypeAt]
    | cons head tail =>
      by_cases hhead : tag = head
      · subst hhead
        rw [leafTypeAt_of_not_mem (h.not_mem_tags htag), selects_cons, hexact, htails]
        rfl
      · rw [leafTypeAt_nested_of_ne hhead, h.types]
  keepsPaths p hp hpath := by
    cases p with
    | nil => rfl
    | cons head tail =>
      have hhead : tag ≠ head := fun heq => not_mem_paths hexact htails tail (heq ▸ hp)
      rw [hasPath_nested_of_ne hhead] at hpath
      exact h.keepsPaths _ hp hpath
  twice := h.twice

end Extracted

end Extraction

/-- **The walk extracts the sub-record** of every pack of paths that exist. -/
theorem exists_extracted {fields : Fields Tag Leaf} (hunique : fields.Unique) {paths : List (TagPath Tag)}
    (hpaths : PathsExist paths fields) :
    ∃ sub, fields.processAllFields paths = some sub ∧ Extracted fields paths sub := by
  induction fields generalizing paths with
  | nil => exact ⟨nil, rfl, extracted_nil paths⟩
  | leaf tag type rest ih =>
    obtain ⟨htag, hrest⟩ := unique_leaf.mp hunique
    obtain ⟨sub, hsub, h⟩ := ih hrest (hpaths.rest_of_leaf htag)
    rw [processAllFields, hsub]
    cases hexact : exactMatch tag paths with
    | true => exact ⟨leaf tag type sub, rfl, h.keep_leaf htag hexact⟩
    | false =>
      have htails := hpaths.tailsList_of_leaf
      exact ⟨sub, (if_neg Bool.false_ne_true).trans (if_pos htails), h.drop_leaf htag hexact htails⟩
  | nested tag inner rest ihi ihr =>
    obtain ⟨htag, hinner, hrest⟩ := unique_nested.mp hunique
    obtain ⟨sub', hsub', h⟩ := ihr hrest (hpaths.rest_of_nested htag)
    rw [processAllFields, hsub']
    cases hexact : exactMatch tag paths with
    | true => exact ⟨nested tag inner sub', rfl, h.keep_nested htag hinner hexact⟩
    | false =>
      by_cases htails : tailsList tag paths = []
      · exact ⟨sub', (if_neg Bool.false_ne_true).trans (if_pos htails), h.drop_nested htag hexact htails⟩
      · obtain ⟨sub, hsub, hcut⟩ := ihi hinner hpaths.tailsList_of_nested
        refine ⟨nested tag sub sub', ?_, h.cut_nested htag hcut hexact htails⟩
        rw [if_neg Bool.false_ne_true, if_neg htails, hsub]
        rfl

end Fields

/-! ## Sub-records of records -/

/-- `SubRecord<Rec, RAs...>`, with its static assertion that the paths exist. -/
def subRecord (fields : Fields Tag Leaf) (accesses : List (RecordAccess Tag)) : Option (Fields Tag Leaf) :=
  if accesses.all fun a => Fields.hasPath a.toPath fields then
    fields.processAllFields (accesses.map RecordAccess.toPath)
  else none

/-- `sub_record_from_set_t`. -/
def subRecordFromSet (r : Record Tag Leaf) (s : RawAccessSet Tag) : Option (Fields Tag Leaf) :=
  subRecord r.fields s.elements

/-- The sub-record has the leaves of the access set, in order and with their types, and taking it again
changes nothing. -/
structure AgreesWithLeafSet (r : Record Tag Leaf) (s : RawAccessSet Tag) (sub : Record Tag Leaf) : Prop where
  taken : subRecordFromSet r s = some sub.fields
  leafPaths : sub.fields.leafPaths.map RecordAccess.path = (leafSet r s).elements
  types : ∀ p, sub.fields.IsLeaf p → sub.fields.leafTypeAt p = r.fields.leafTypeAt p
  twice : subRecordFromSet sub s = some sub.fields

section SubRecord

variable {r : Record Tag Leaf} {s : RawAccessSet Tag}

/-- The sub-record of a valid set, whether or not it has the empty path. -/
theorem exists_subRecord (hvalid : ValidAccessSetFor r s) :
    ∃ sub : Record Tag Leaf, subRecordFromSet r s = some sub.fields ∧
      r.fields.Extracted (s.elements.map RecordAccess.toPath) sub.fields := by
  have hpaths : Fields.PathsExist (s.elements.map RecordAccess.toPath) r.fields := by
    intro head tail hmem _
    obtain ⟨a, ha, hpath⟩ := List.mem_map.mp hmem
    exact hpath ▸ List.all_eq_true.mp hvalid a ha
  obtain ⟨sub, hsub, h⟩ := Fields.exists_extracted r.unique hpaths
  exact ⟨⟨sub, h.unique⟩, (if_pos hvalid).trans hsub, h⟩

theorem selects_elements_iff {p : TagPath Tag} :
    selects (s.elements.map RecordAccess.toPath) p = true ↔
      ∃ a ∈ s.elements, a ≠ .path [] ∧ a.toPath <+: p := by
  rw [selects_iff]
  constructor
  · rintro ⟨q, hq, hne, hprefix⟩
    obtain ⟨a, ha, rfl⟩ := List.mem_map.mp hq
    exact ⟨a, ha, fun hroot => hne (hroot ▸ rfl), hprefix⟩
  · rintro ⟨a, ha, hne, hprefix⟩
    refine ⟨a.toPath, List.mem_map_of_mem ha, fun hempty => hne ?_, hprefix⟩
    cases a with
    | tag t => exact absurd hempty (List.cons_ne_nil t [])
    | path q => exact congrArg _ hempty

/-- Without the empty path, or when it adds nothing, both selections are the same. -/
theorem selects_eq_selectsLeaf_iff :
    (∀ p ∈ r.fields.leafPaths,
        (selects (s.elements.map RecordAccess.toPath) p = true ↔ selectsLeaf p s = true)) ↔
      (.path [] ∉ s.elements ∨
        ∀ p, r.fields.IsLeaf p → ∃ a ∈ s.elements, a ≠ .path [] ∧ a.toPath <+: p) := by
  constructor
  · intro hsame
    by_cases hroot : .path [] ∈ s.elements
    · refine Or.inr fun p hp => selects_elements_iff.mp ?_
      rw [hsame p ((Fields.mem_leafPaths r.unique).mpr hp), selectsLeaf_iff]
      exact ⟨.path [], hroot, List.nil_prefix⟩
    · exact Or.inl hroot
  · intro h p hp
    rw [selects_elements_iff, selectsLeaf_iff]
    refine ⟨fun ⟨a, ha, _, hprefix⟩ => ⟨a, ha, hprefix⟩, fun ⟨a, ha, hprefix⟩ => ?_⟩
    rcases h with hroot | hcovered
    · exact ⟨a, ha, fun heq => hroot (heq ▸ ha), hprefix⟩
    · exact hcovered p ((Fields.mem_leafPaths r.unique).mp hp)

/-- **Sub-records agree with access sets** exactly for sets without the empty path, and for those whose
other paths select every leaf anyway. -/
theorem subRecord_agrees_iff (hvalid : ValidAccessSetFor r s) :
    (∃ sub, AgreesWithLeafSet r s sub) ↔
      (.path [] ∉ s.elements ∨
        ∀ p, r.fields.IsLeaf p → ∃ a ∈ s.elements, a ≠ .path [] ∧ a.toPath <+: p) := by
  obtain ⟨sub, htaken, h⟩ := exists_subRecord hvalid
  have hleafSet : (leafSet r s).elements =
      (r.fields.leafPaths.filter fun p => selectsLeaf p s).map RecordAccess.path := by
    rw [leafSet, elements_makeLeafSet]
    simp only [Bool.decide_eq_true]
  rw [← selects_eq_selectsLeaf_iff]
  constructor
  · rintro ⟨sub', h'⟩ p hp
    have hfields : sub'.fields = sub.fields := Option.some_injective _ (h'.taken.symm.trans htaken)
    have hleaves := h'.leafPaths
    rw [hfields, h.leafPaths, hleafSet] at hleaves
    have hfilter := List.map_injective_iff.mpr path_injective hleaves
    have hmem := congrArg (p ∈ ·) hfilter
    simp only [List.mem_filter, hp, true_and] at hmem
    exact iff_of_eq hmem
  · intro hsame
    refine ⟨sub, htaken, ?_, fun p hp => ?_, ?_⟩
    · rw [hleafSet, h.leafPaths]
      exact congrArg _ (List.filter_congr fun p hp => Bool.eq_iff_iff.mpr (hsame p hp))
    · have hmem := (Fields.mem_leafPaths sub.unique).mpr hp
      rw [h.leafPaths, List.mem_filter] at hmem
      rw [h.types, if_pos hmem.2]
    · refine (if_pos (List.all_eq_true.mpr fun a ha => ?_)).trans h.twice
      exact h.keepsPaths _ (List.mem_map_of_mem ha) (List.all_eq_true.mp hvalid a ha)

/-- A record of two fields, and the set of its first one. -/
theorem subRecord_agrees_iff_firstField :
    ∃ sub, AgreesWithLeafSet (⟨.leaf 0 () (.leaf 1 () .nil), by decide⟩ : Record ℕ Unit)
      ⟨[.tag 0], by decide⟩ sub :=
  (subRecord_agrees_iff (by decide)).mpr (Or.inl (by decide))

/-- The empty path exists in every record and selects all of it, and its sub-record is empty. -/
theorem subRecord_of_root_empty :
    ∃ (r : Record ℕ Unit) (s : RawAccessSet ℕ), ValidAccessSetFor r s ∧ s.elements = [.path []] ∧
      subRecordFromSet r s = some .nil ∧ (leafSet r s).elements = [.path [0]] ∧
        ¬ ∃ sub, AgreesWithLeafSet r s sub := by
  refine ⟨⟨.leaf 0 () .nil, by decide⟩, ⟨[.path []], by decide⟩, by decide, rfl, rfl, rfl, ?_⟩
  rintro ⟨sub, h⟩
  have hnil : Fields.nil = sub.fields := Option.some_injective _ h.taken
  have hleaves := h.leafPaths
  rw [← hnil] at hleaves
  exact absurd hleaves (by decide)

end SubRecord

end LlamaLite
end Spearhed
