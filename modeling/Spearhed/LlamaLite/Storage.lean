import Spearhed.LlamaLite.Record

/-!
# Storages

`transform_record_t` turns a record into a tuple with one column per leaf, nested where the record
is.  `resolveLeaf` walks such a tuple along a path, by the index of each tag.  The columns in
declaration order are the independent description: the walk along the `i`-th leaf path ends at the
`i`-th column (`resolveLeaf_eq`).
-/

namespace Spearhed
namespace LlamaLite

variable {Tag Leaf : Type}

/-- `transform_record_t`: a tuple of columns, whose types a policy gives. -/
def Channels (Col : Leaf → Type) : Fields Tag Leaf → Type
  | .nil => Unit
  | .leaf _ type rest => Col type × Channels Col rest
  | .nested _ inner rest => Channels Col inner × Channels Col rest

/-- A column and the type of its leaf. -/
abbrev Column (Col : Leaf → Type) := Σ type, Col type

/-- An element of a storage tuple. -/
inductive Child (Tag : Type) {Leaf : Type} (Col : Leaf → Type)
  | leaf (type : Leaf) (column : Col type)
  | record (fields : Fields Tag Leaf) (channels : Channels Col fields)

namespace Channels

variable {Col : Leaf → Type}

/-- The columns in declaration order. -/
def columns : (fields : Fields Tag Leaf) → Channels Col fields → List (Column Col)
  | .nil, _ => []
  | .leaf _ type rest, channels => ⟨type, channels.1⟩ :: columns rest channels.2
  | .nested _ inner rest, channels => columns inner channels.1 ++ columns rest channels.2

theorem length_columns (fields : Fields Tag Leaf) (channels : Channels Col fields) :
    (columns fields channels).length = fields.leafPaths.length := by
  induction fields with
  | nil => rfl
  | leaf tag type rest ih => rw [columns, List.length_cons, ih, Fields.leafPaths_leaf, List.length_cons]
  | nested tag inner rest ihi ihr =>
    rw [columns, List.length_append, ihi, ihr, Fields.leafPaths_nested, List.length_append, List.length_map]

variable [DecidableEq Tag]

/-- `tuple::get<getIndex(tag)>`. -/
def get : (fields : Fields Tag Leaf) → Channels Col fields → Tag → Option (Child Tag Col)
  | .nil, _, _ => none
  | .leaf tag type rest, channels, query => if tag = query then some (.leaf type channels.1) else get rest channels.2 query
  | .nested tag inner rest, channels, query =>
      if tag = query then some (.record inner channels.1) else get rest channels.2 query

/-- `resolveLeaf`; nothing where one of its static assertions fails. -/
def resolveLeaf : TagPath Tag → (fields : Fields Tag Leaf) → Channels Col fields → Option (Column Col)
  | [], _, _ => none
  | head :: tail, fields, channels =>
      match get fields channels head with
      | none => none
      | some (.leaf type column) => if tail = [] then some ⟨type, column⟩ else none
      | some (.record inner channels) => if tail = [] then none else resolveLeaf tail inner channels

section ResolveLeaf

variable {tag head : Tag} {tail : TagPath Tag} {type : Leaf} {inner rest : Fields Tag Leaf}

theorem resolveLeaf_leaf_of_ne (h : tag ≠ head) (channels : Channels Col (.leaf tag type rest)) :
    resolveLeaf (head :: tail) (.leaf tag type rest) channels = resolveLeaf (head :: tail) rest channels.2 := by
  rw [resolveLeaf, resolveLeaf, get, if_neg h]

theorem resolveLeaf_nested_of_ne (h : tag ≠ head) (channels : Channels Col (.nested tag inner rest)) :
    resolveLeaf (head :: tail) (.nested tag inner rest) channels = resolveLeaf (head :: tail) rest channels.2 := by
  rw [resolveLeaf, resolveLeaf, get, if_neg h]

theorem resolveLeaf_nested_self (htail : tail ≠ []) (channels : Channels Col (.nested tag inner rest)) :
    resolveLeaf (tag :: tail) (.nested tag inner rest) channels = resolveLeaf tail inner channels.1 := by
  rw [resolveLeaf, get, if_pos rfl]
  exact if_neg htail

/-- **The walk along a leaf path ends at its column.** -/
theorem resolveLeaf_eq {fields : Fields Tag Leaf} (hunique : fields.Unique) (channels : Channels Col fields)
    {p : TagPath Tag} {i : ℕ} (hp : fields.leafPaths[i]? = some p) :
    resolveLeaf p fields channels = (columns fields channels)[i]? := by
  induction fields generalizing p i with
  | nil => exact absurd hp (by simp [Fields.leafPaths, Fields.getLeafPaths])
  | leaf tag type rest ih =>
    obtain ⟨htag, hrest⟩ := Fields.unique_leaf.mp hunique
    rw [Fields.leafPaths_leaf] at hp
    cases i with
    | zero =>
      obtain rfl := Option.some.inj hp
      rw [resolveLeaf, get, if_pos rfl]
      rfl
    | succ i =>
      rw [List.getElem?_cons_succ] at hp
      have hhead := Fields.head?_ne htag (List.mem_of_getElem? hp)
      obtain ⟨head, -, tail, rfl⟩ := Fields.head_mem_tags (List.mem_of_getElem? hp)
      have hne : tag ≠ head := fun h => hhead (congrArg some h.symm)
      rw [resolveLeaf_leaf_of_ne hne, ih hrest channels.2 hp, columns, List.getElem?_cons_succ]
  | nested tag inner rest ihi ihr =>
    obtain ⟨htag, hinner, hrest⟩ := Fields.unique_nested.mp hunique
    rw [Fields.leafPaths_nested] at hp
    rw [columns]
    by_cases hi : i < inner.leafPaths.length
    · rw [List.getElem?_append_left (by rwa [List.length_map]), List.getElem?_map] at hp
      obtain ⟨q, hq, rfl⟩ := Option.map_eq_some_iff.mp hp
      obtain ⟨head, -, tail, rfl⟩ := Fields.head_mem_tags (List.mem_of_getElem? hq)
      rw [resolveLeaf_nested_self (List.cons_ne_nil _ _), ihi hinner channels.1 hq,
        List.getElem?_append_left (by rwa [length_columns])]
    · have hge : inner.leafPaths.length ≤ i := not_lt.mp hi
      rw [List.getElem?_append_right (by rwa [List.length_map]), List.length_map] at hp
      have hhead := Fields.head?_ne htag (List.mem_of_getElem? hp)
      obtain ⟨head, -, tail, rfl⟩ := Fields.head_mem_tags (List.mem_of_getElem? hp)
      have hne : tag ≠ head := fun h => hhead (congrArg some h.symm)
      rw [resolveLeaf_nested_of_ne hne, ihr hrest channels.2 hp,
        List.getElem?_append_right (by rwa [length_columns]), length_columns]

end ResolveLeaf

end Channels

end LlamaLite
end Spearhed
