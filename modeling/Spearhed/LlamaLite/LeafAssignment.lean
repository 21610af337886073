import Spearhed.LlamaLite.Storage
import Spearhed.LlamaLite.SubRecord

/-!
# Assignment to leaves

`resolveLeaf` gives a reference to a column, so an assignment to it changes the storage tuple at that
place.  `updateLeaf` is the walk of `resolveLeaf` with the tuple put together again behind it.

* `resolveLeaf_updateLeaf`: the column at the path is changed and no other.
* `ext_valueAt`: a storage is determined by the values at its leaf paths and rows.
-/

namespace Spearhed
namespace LlamaLite

variable {Tag Leaf : Type} [DecidableEq Tag]

namespace Fields

theorem isLeaf_iff_leafTypeAt {fields : Fields Tag Leaf} {p : TagPath Tag} :
    fields.IsLeaf p ↔ ∃ type, fields.leafTypeAt p = some type := by
  induction p generalizing fields with
  | nil =>
    refine iff_of_false id ?_
    rintro ⟨type, h⟩
    cases h
  | cons head tail ih =>
    rw [IsLeaf, leafTypeAt]
    cases fields.valueTypeFor head with
    | none =>
      refine iff_of_false id ?_
      rintro ⟨type, h⟩
      cases h
    | some value =>
      cases value with
      | leaf type =>
        by_cases htail : tail = []
        · exact iff_of_true htail ⟨type, if_pos htail⟩
        · refine iff_of_false htail ?_
          rintro ⟨type', h⟩
          cases (if_neg htail).symm.trans h
      | record inner => exact ih

end Fields

namespace Channels

variable {Col : Leaf → Type}

/-- An assignment through the reference that `resolveLeaf` returns. -/
def updateLeaf (f : ∀ type, Col type → Option (Col type)) :
    TagPath Tag → (fields : Fields Tag Leaf) → Channels Col fields → Option (Channels Col fields)
  | _, .nil, _ => none
  | [], .leaf _ _ _, _ => none
  | [], .nested _ _ _, _ => none
  | head :: tail, .leaf tag type rest, channels =>
      if tag = head then (if tail = [] then (f type channels.1).map fun column => (column, channels.2) else none)
      else (updateLeaf f (head :: tail) rest channels.2).map fun later => (channels.1, later)
  | head :: tail, .nested tag inner rest, channels =>
      if tag = head then (updateLeaf f tail inner channels.1).map fun child => (child, channels.2)
      else (updateLeaf f (head :: tail) rest channels.2).map fun later => (channels.1, later)

section ResolveLeaf

variable {tag head : Tag} {p tail : TagPath Tag} {type : Leaf} {inner rest fields : Fields Tag Leaf}
  {f : ∀ type, Col type → Option (Col type)}

theorem resolveLeaf_leaf_self (channels : Channels Col (.leaf tag type rest)) :
    resolveLeaf (tag :: tail) (.leaf tag type rest) channels = if tail = [] then some ⟨type, channels.1⟩ else none := by
  rw [resolveLeaf, get, if_pos rfl]

theorem resolveLeaf_nested_cons (channels : Channels Col (.nested tag inner rest)) :
    resolveLeaf (tag :: tail) (.nested tag inner rest) channels = resolveLeaf tail inner channels.1 := by
  by_cases htail : tail = []
  · rw [resolveLeaf, get, if_pos rfl, htail]
    rfl
  · exact resolveLeaf_nested_self htail channels

/-- The type of a column. -/
theorem map_fst_resolveLeaf (fields : Fields Tag Leaf) (channels : Channels Col fields) (p : TagPath Tag) :
    (resolveLeaf p fields channels).map Sigma.fst = fields.leafTypeAt p := by
  induction fields generalizing p with
  | nil =>
    cases p with
    | nil => rfl
    | cons head tail => rfl
  | leaf tag type rest ih =>
    cases p with
    | nil => rfl
    | cons head tail =>
      by_cases hhead : tag = head
      · subst hhead
        rw [resolveLeaf_leaf_self, Fields.leafTypeAt_leaf_self]
        split <;> rfl
      · rw [resolveLeaf_leaf_of_ne hhead, Fields.leafTypeAt_leaf_of_ne hhead, ih]
  | nested tag inner rest ihi ihr =>
    cases p with
    | nil => rfl
    | cons head tail =>
      by_cases hhead : tag = head
      · subst hhead
        rw [resolveLeaf_nested_cons, Fields.leafTypeAt_nested_self, ihi]
      · rw [resolveLeaf_nested_of_ne hhead, Fields.leafTypeAt_nested_of_ne hhead, ihr]

/-- What an assignment changes. -/
structure Updated (f : ∀ type, Col type → Option (Col type)) (p : TagPath Tag) (fields : Fields Tag Leaf)
    (channels channels' : Channels Col fields) : Prop where
  self : ∃ type column column', resolveLeaf p fields channels = some ⟨type, column⟩ ∧ f type column = some column' ∧
    resolveLeaf p fields channels' = some ⟨type, column'⟩
  others : ∀ q, q ≠ p → resolveLeaf q fields channels' = resolveLeaf q fields channels

/-- An assignment in the fields behind the first one. -/
theorem Updated.of_rest {channels channels' : Channels Col fields} {later later' : Channels Col rest}
    (h : Updated f (head :: tail) rest later later') (hne : tag ≠ head)
    (hrest : ∀ a q, tag ≠ a → resolveLeaf (a :: q) fields channels = resolveLeaf (a :: q) rest later)
    (hrest' : ∀ a q, tag ≠ a → resolveLeaf (a :: q) fields channels' = resolveLeaf (a :: q) rest later')
    (hfirst : ∀ q, resolveLeaf (tag :: q) fields channels' = resolveLeaf (tag :: q) fields channels) :
    Updated f (head :: tail) fields channels channels' := by
  obtain ⟨type, column, column', hbefore, hcolumn, hafter⟩ := h.self
  refine ⟨⟨type, column, column', (hrest head tail hne).trans hbefore, hcolumn, (hrest' head tail hne).trans hafter⟩,
    fun q hq => ?_⟩
  cases q with
  | nil => rfl
  | cons a q =>
    by_cases ha : tag = a
    · rw [← ha]
      exact hfirst q
    · rw [hrest' a q ha, hrest a q ha]
      exact h.others _ hq

/-- **An assignment changes one column.** -/
theorem resolveLeaf_updateLeaf {channels channels' : Channels Col fields}
    (h : updateLeaf f p fields channels = some channels') : Updated f p fields channels channels' := by
  induction fields generalizing p with
  | nil => cases h
  | leaf tag type rest ih =>
    cases p with
    | nil => cases h
    | cons head tail =>
      rw [updateLeaf] at h
      by_cases hhead : tag = head
      · subst hhead
        rw [if_pos rfl] at h
        by_cases htail : tail = []
        · subst htail
          rw [if_pos rfl] at h
          obtain ⟨column, hcolumn, rfl⟩ := Option.map_eq_some_iff.mp h
          refine ⟨⟨type, channels.1, column, resolveLeaf_leaf_self channels, hcolumn, resolveLeaf_leaf_self _⟩, fun q hq => ?_⟩
          cases q with
          | nil => rfl
          | cons a q =>
            by_cases ha : tag = a
            · subst ha
              have hq' : q ≠ [] := fun hnil => hq (congrArg _ hnil)
              have hnone : ∀ channels : Channels Col (.leaf tag type rest),
                  resolveLeaf (tag :: q) (.leaf tag type rest) channels = none := fun channels =>
                (resolveLeaf_leaf_self channels).trans (if_neg hq')
              exact (hnone _).trans (hnone channels).symm
            · exact (resolveLeaf_leaf_of_ne ha _).trans (resolveLeaf_leaf_of_ne ha channels).symm
        · rw [if_neg htail] at h
          cases h
      · rw [if_neg hhead] at h
        obtain ⟨later, hlater, rfl⟩ := Option.map_eq_some_iff.mp h
        exact (ih hlater).of_rest hhead (fun _ _ ha => resolveLeaf_leaf_of_ne ha _) (fun _ _ ha => resolveLeaf_leaf_of_ne ha _)
          fun _ => (resolveLeaf_leaf_self _).trans (resolveLeaf_leaf_self channels).symm
  | nested tag inner rest ihi ihr =>
    cases p with
    | nil => cases h
    | cons head tail =>
      rw [updateLeaf] at h
      by_cases hhead : tag = head
      · subst hhead
        rw [if_pos rfl] at h
        obtain ⟨child, hchild, rfl⟩ := Option.map_eq_some_iff.mp h
        obtain ⟨⟨type, column, column', hbefore, hcolumn, hafter⟩, hothers⟩ := ihi hchild
        refine ⟨⟨type, column, column', (resolveLeaf_nested_cons _).trans hbefore, hcolumn,
          (resolveLeaf_nested_cons _).trans hafter⟩, fun q hq => ?_⟩
        cases q with
        | nil => rfl
        | cons a q =>
          by_cases ha : tag = a
          · subst ha
            have hsame := hothers q fun heq => hq (congrArg _ heq)
            exact ((resolveLeaf_nested_cons _).trans hsame).trans (resolveLeaf_nested_cons channels).symm
          · exact (resolveLeaf_nested_of_ne ha _).trans (resolveLeaf_nested_of_ne ha channels).symm
      · rw [if_neg hhead] at h
        obtain ⟨later, hlater, rfl⟩ := Option.map_eq_some_iff.mp h
        exact (ihr hlater).of_rest hhead (fun _ _ ha => resolveLeaf_nested_of_ne ha _)
          (fun _ _ ha => resolveLeaf_nested_of_ne ha _) fun _ => (resolveLeaf_nested_cons _).trans (resolveLeaf_nested_cons channels).symm

/-- What can be resolved can be assigned to. -/
theorem exists_updateLeaf {channels : Channels Col fields} {column column' : Col type}
    (h : resolveLeaf p fields channels = some ⟨type, column⟩) (hcolumn : f type column = some column') :
    ∃ channels', updateLeaf f p fields channels = some channels' := by
  induction fields generalizing p with
  | nil =>
    cases p with
    | nil => cases h
    | cons head tail => cases h
  | leaf tag type' rest ih =>
    cases p with
    | nil => cases h
    | cons head tail =>
      rw [updateLeaf]
      by_cases hhead : tag = head
      · subst hhead
        rw [resolveLeaf_leaf_self] at h
        split at h
        · next htail =>
          cases h
          rw [if_pos rfl, if_pos htail, hcolumn]
          exact ⟨_, rfl⟩
        · cases h
      · rw [resolveLeaf_leaf_of_ne hhead] at h
        obtain ⟨later, hlater⟩ := ih h
        rw [if_neg hhead, hlater]
        exact ⟨_, rfl⟩
  | nested tag inner rest ihi ihr =>
    cases p with
    | nil => cases h
    | cons head tail =>
      rw [updateLeaf]
      by_cases hhead : tag = head
      · subst hhead
        rw [resolveLeaf_nested_cons] at h
        obtain ⟨child, hchild⟩ := ihi h
        rw [if_pos rfl, hchild]
        exact ⟨_, rfl⟩
      · rw [resolveLeaf_nested_of_ne hhead] at h
        obtain ⟨later, hlater⟩ := ihr h
        rw [if_neg hhead, hlater]
        exact ⟨_, rfl⟩

/-- **The columns determine the storage.** -/
theorem ext_resolveLeaf (hunique : fields.Unique) {channels channels' : Channels Col fields}
    (h : ∀ p, resolveLeaf p fields channels = resolveLeaf p fields channels') : channels = channels' := by
  induction fields with
  | nil => rfl
  | leaf tag type rest ih =>
    obtain ⟨htag, hrest⟩ := Fields.unique_leaf.mp hunique
    refine Prod.ext ?_ (ih hrest fun p => ?_)
    · have hself := h [tag]
      rw [resolveLeaf_leaf_self, resolveLeaf_leaf_self, if_pos rfl, if_pos rfl] at hself
      exact eq_of_heq (Sigma.mk.inj (Option.some.inj hself)).2
    · cases p with
      | nil => rfl
      | cons head tail =>
        by_cases hhead : tag = head
        · have hnone : ∀ channels : Channels Col rest, resolveLeaf (head :: tail) rest channels = none := by
            intro channels
            have htype := map_fst_resolveLeaf rest channels (head :: tail)
            rw [Fields.leafTypeAt_of_not_mem (hhead ▸ htag)] at htype
            exact Option.map_eq_none_iff.mp htype
          rw [hnone, hnone]
        · have hsame := h (head :: tail)
          rwa [resolveLeaf_leaf_of_ne hhead, resolveLeaf_leaf_of_ne hhead] at hsame
  | nested tag inner rest ihi ihr =>
    obtain ⟨htag, hinner, hrest⟩ := Fields.unique_nested.mp hunique
    refine Prod.ext (ihi hinner fun p => ?_) (ihr hrest fun p => ?_)
    · have hself := h (tag :: p)
      rwa [resolveLeaf_nested_cons, resolveLeaf_nested_cons] at hself
    · cases p with
      | nil => rfl
      | cons head tail =>
        by_cases hhead : tag = head
        · have hnone : ∀ channels : Channels Col rest, resolveLeaf (head :: tail) rest channels = none := by
            intro channels
            have htype := map_fst_resolveLeaf rest channels (head :: tail)
            rw [Fields.leafTypeAt_of_not_mem (hhead ▸ htag)] at htype
            exact Option.map_eq_none_iff.mp htype
          rw [hnone, hnone]
        · have hsame := h (head :: tail)
          rwa [resolveLeaf_nested_of_ne hhead, resolveLeaf_nested_of_ne hhead] at hsame

end ResolveLeaf

/-! ## Rows -/

/-- A column of elements, one for each row. -/
abbrev Rows (V : Leaf → Type) (n : ℕ) (type : Leaf) := Fin n → V type

variable {V : Leaf → Type} {n : ℕ}

/-- The value of a leaf at a row, with its type. -/
def valueAt (fields : Fields Tag Leaf) (channels : Channels (Rows V n) fields) (p : TagPath Tag) (k : Fin n) :
    Option (Σ type, V type) :=
  (resolveLeaf p fields channels).map fun column => ⟨column.1, column.2 k⟩

theorem map_fst_valueAt (fields : Fields Tag Leaf) (channels : Channels (Rows V n) fields) (p : TagPath Tag) (k : Fin n) :
    (valueAt fields channels p k).map Sigma.fst = fields.leafTypeAt p := by
  rw [valueAt, Option.map_map]
  exact map_fst_resolveLeaf fields channels p

/-- **The values determine the storage.** -/
theorem ext_valueAt {fields : Fields Tag Leaf} (hunique : fields.Unique) {channels channels' : Channels (Rows V n) fields}
    (h : ∀ p k, valueAt fields channels p k = valueAt fields channels' p k) : channels = channels' := by
  refine ext_resolveLeaf hunique fun p => ?_
  have htype := (map_fst_resolveLeaf fields channels p).trans (map_fst_resolveLeaf fields channels' p).symm
  have hvalues := h p
  simp only [valueAt] at hvalues
  cases hc : resolveLeaf p fields channels with
  | none =>
    rw [hc] at htype
    exact (Option.map_eq_none_iff.mp htype.symm).symm
  | some column =>
    cases hc' : resolveLeaf p fields channels' with
    | none =>
      rw [hc, hc'] at htype
      cases htype
    | some column' =>
      rw [hc, hc'] at htype hvalues
      obtain ⟨type, values⟩ := column
      obtain ⟨type', values'⟩ := column'
      obtain rfl : type = type' := Option.some.inj htype
      have hsame : values = values' := funext fun k => eq_of_heq (Sigma.mk.inj (Option.some.inj (hvalues k))).2
      rw [hsame]

end Channels

end LlamaLite
end Spearhed
