import Spearhed.LlamaLite.AccessSet
import Spearhed.LlamaLite.Storage

/-!
# Views

A `View` is a handle on a storage: a pointer, an access set of the record and a root path the next
navigation starts from; a `ViewIndexed` has a row as well.  The concepts on the operations are the
conditions under which an operation gives a handle here, and the concept on the handle itself is
carried by its fields.

* `Reaches`: what a chain of operations leaves of the handle it starts from.
* `view_laws`: no chain leaves the grant of its first handle, and what it resolves is the column of
  the path it has drilled.
-/

namespace Spearhed
namespace LlamaLite

variable {Tag Leaf : Type} [DecidableEq Tag]

namespace Fields

/-- `resolvePathToField`: tag and value type of the field a path ends at. -/
def fieldFor : Fields Tag Leaf → TagPath Tag → Option (Tag × ValueType Tag Leaf)
  | _, [] => none
  | fields, head :: tail =>
      match fields.valueTypeFor head with
      | none => none
      | some value =>
          if tail = [] then some (head, value)
          else match value with
            | .record inner => inner.fieldFor tail
            | .leaf _ => none

/-- `Record::isLeaf`. -/
def isLeafAt (fields : Fields Tag Leaf) (p : TagPath Tag) : Bool :=
  match fields.fieldFor p with
  | some (_, .leaf _) => true
  | _ => false

theorem isLeafAt_iff {fields : Fields Tag Leaf} {p : TagPath Tag} : fields.isLeafAt p = true ↔ fields.IsLeaf p := by
  induction p generalizing fields with
  | nil => exact iff_of_false Bool.false_ne_true id
  | cons head tail ih =>
    rw [isLeafAt, fieldFor, IsLeaf]
    cases fields.valueTypeFor head with
    | none => exact iff_of_false Bool.false_ne_true id
    | some value =>
      cases value with
      | leaf type => by_cases htail : tail = [] <;> simp [htail]
      | record inner =>
        by_cases htail : tail = []
        · subst htail
          exact iff_of_false Bool.false_ne_true id
        · simp only [if_neg htail]
          exact ih

/-- The front of a path that exists. -/
theorem hasPath_of_append {fields : Fields Tag Leaf} {p q : TagPath Tag} (h : hasPath (p ++ q) fields = true) :
    hasPath p fields = true := by
  induction p generalizing fields with
  | nil => rfl
  | cons head tail ih =>
    rw [List.cons_append, hasPath] at h
    rw [hasPath]
    cases hvalue : fields.valueTypeFor head with
    | none => rw [hvalue] at h; exact h
    | some value =>
      rw [hvalue] at h
      by_cases htail : tail = []
      · exact if_pos htail
      · have happend : tail ++ q ≠ [] := fun hnil => htail (List.append_eq_nil_iff.mp hnil).1
        cases value with
        | leaf type => exact absurd ((if_neg happend).symm.trans h) Bool.false_ne_true
        | record inner => exact (if_neg htail).trans (ih ((if_neg happend).symm.trans h))

end Fields

namespace AccessSet

variable {r : Record Tag Leaf}

/-- `empty`. -/
def empty (s : AccessSet r) : Bool := s.leaves.elements.isEmpty

theorem empty_iff {s : AccessSet r} : s.empty = true ↔ s.denote = ∅ := by
  rw [empty, List.isEmpty_iff, Set.eq_empty_iff_forall_notMem]
  constructor
  · intro hnil p hp
    rw [mem_denote, hnil] at hp
    exact List.not_mem_nil hp
  · intro h
    refine List.eq_nil_iff_forall_not_mem.mpr fun a ha => ?_
    obtain ⟨p, rfl, hp⟩ := s.canonical.onlyLeaves a ha
    exact h ⟨p, hp⟩ (mem_denote.mpr ha)

theorem inter_le_right (s t : AccessSet r) : (s.inter t).le t = true := by
  rw [le_iff, denote_inter]
  exact Set.inter_subset_right

end AccessSet

/-- `detail::subtree_access_t`: the leaves under a path. -/
def subtreeAccess (r : Record Tag Leaf) (p : TagPath Tag) (hp : Fields.hasPath p r.fields = true) : AccessSet r :=
  accessSet r ⟨[.path p], by simp [countTypeOccurrences]⟩ (by
    rw [ValidAccessSetFor, allPathsInRecord, List.all_cons, List.all_nil, Bool.and_true]
    exact hp)

theorem mem_subtreeAccess {r : Record Tag Leaf} {p : TagPath Tag} (hp : Fields.hasPath p r.fields = true) {q : r.Leaves} :
    q ∈ (subtreeAccess r p hp).denote ↔ p <+: q.1 := by
  rw [subtreeAccess, AccessSet.denote_accessSet]
  constructor
  · rintro ⟨a, ha, hprefix⟩
    obtain rfl := List.mem_singleton.mp ha
    exact hprefix
  · exact fun hprefix => ⟨.path p, List.mem_singleton.mpr rfl, hprefix⟩

/-- `raw_access_set_t`: a set of paths, in which an access repeated is a hard error. -/
def rawAccessSet (paths : List (TagPath Tag)) : Option (RawAccessSet Tag) :=
  if h : ∀ t ∈ paths.map RecordAccess.path, countTypeOccurrences t (paths.map RecordAccess.path) = 1 then
    some ⟨paths.map RecordAccess.path, h⟩
  else none

/-- The raw set of some paths is there when no path is repeated. -/
theorem rawAccessSet_eq_some {paths : List (TagPath Tag)} (h : paths.Nodup) :
    ∃ raw : RawAccessSet Tag, rawAccessSet paths = some raw ∧ raw.elements = paths.map RecordAccess.path := by
  have hunique := nodup_iff_countTypeOccurrences.mpr (h.map path_injective)
  exact ⟨_, dif_pos hunique, rfl⟩

theorem nodup_of_rawAccessSet {paths : List (TagPath Tag)} {raw : RawAccessSet Tag} (h : rawAccessSet paths = some raw) :
    paths.Nodup ∧ raw.elements = paths.map RecordAccess.path := by
  rw [rawAccessSet] at h
  split at h
  · next hunique =>
    obtain rfl := Option.some.inj h
    exact ⟨(nodup_iff_countTypeOccurrences.mp hunique).of_map _, rfl⟩
  · exact absurd h (by simp)

/-! ## Handles -/

/-- `View<TStorage, Access, Root>`, and with a row `ViewIndexed`; the last two fields are `ViewStorageFor`. -/
@[ext] structure View (r : Record Tag Leaf) (Storage : Type) where
  storage : Storage
  /-- `TStorage` is const. -/
  readOnly : Bool
  access : AccessSet r
  root : TagPath Tag
  idx : Option UInt32
  rootExists : Fields.hasPath root r.fields = true
  within : access.le (subtreeAccess r root rootExists) = true

namespace View

variable {r : Record Tag Leaf} {Storage : Type}

/-- The whole storage. -/
def whole (r : Record Tag Leaf) (storage : Storage) (readOnly : Bool) : View r Storage where
  storage := storage
  readOnly := readOnly
  access := .all r
  root := []
  idx := none
  rootExists := by rw [Fields.hasPath]
  within := AccessSet.le_iff.mpr fun _ _ => (mem_subtreeAccess _).mpr List.nil_prefix

theorem le_of_le_within {v : View r Storage} {s : AccessSet r} (h : s.le v.access = true) :
    s.le (subtreeAccess r v.root v.rootExists) = true :=
  AccessSet.le_iff.mpr ((AccessSet.le_iff.mp h).trans (AccessSet.le_iff.mp v.within))

/-- `view(access)`, under `CanDrill`. -/
def view (v : View r Storage) (access : RecordAccess Tag) : Option (View r Storage) :=
  if hp : Fields.hasPath (v.root ++ access.toPath) r.fields = true then
    let child := v.access.inter (subtreeAccess r (v.root ++ access.toPath) hp)
    if child.empty then none
    else some
      { v with
        access := child
        root := v.root ++ access.toPath
        rootExists := hp
        within := AccessSet.inter_le_right _ _ }
  else none

/-- `select(accesses...)`, under `CanSelect`. -/
def select (v : View r Storage) (accesses : List (RecordAccess Tag)) : Option (View r Storage) :=
  (rawAccessSet (accesses.map fun access => v.root ++ access.toPath)).bind fun raw =>
    if hvalid : ValidAccessSetFor r raw then
      let requested := accessSet r raw hvalid
      if hle : requested.le v.access = true then some { v with access := requested, within := le_of_le_within hle }
      else none
    else none

/-- The converting constructors: the access set may shrink, and const may be added. -/
def convert (v : View r Storage) (access : AccessSet r) (addConst : Bool) : Option (View r Storage) :=
  if hle : access.le v.access = true then
    some { v with access := access, readOnly := v.readOnly || addConst, within := le_of_le_within hle }
  else none

/-- `operator[](uint32_t)` of a column cursor. -/
def row (v : View r Storage) (idx : UInt32) : Option (View r Storage) :=
  if v.idx = none then some { v with idx := some idx } else none

/-! ## Single operations -/

section Operations

variable {v v' v'' : View r Storage}

/-- What a drilled handle is. -/
theorem view_eq_some {access : RecordAccess Tag} (h : v.view access = some v') :
    v'.storage = v.storage ∧ v'.readOnly = v.readOnly ∧ v'.idx = v.idx ∧ v'.root = v.root ++ access.toPath ∧
      v'.access.denote = {p | p ∈ v.access.denote ∧ v.root ++ access.toPath <+: p.1} ∧ v'.access.denote ≠ ∅ := by
  rw [view] at h
  split at h
  · next hp =>
    dsimp only at h
    split at h
    · exact absurd h (by simp)
    · next hempty =>
      obtain rfl := Option.some.inj h
      have hdenote : (v.access.inter (subtreeAccess r (v.root ++ access.toPath) hp)).denote =
          {p | p ∈ v.access.denote ∧ v.root ++ access.toPath <+: p.1} := by
        rw [AccessSet.denote_inter]
        exact Set.ext fun p => and_congr_right fun _ => mem_subtreeAccess hp
      exact ⟨rfl, rfl, rfl, rfl, hdenote, fun hnone => hempty (AccessSet.empty_iff.mpr hnone)⟩
  · exact absurd h (by simp)

/-- When a handle can be drilled. -/
theorem view_isSome_iff {access : RecordAccess Tag} :
    (v.view access).isSome = true ↔ Fields.hasPath (v.root ++ access.toPath) r.fields = true ∧
      ∃ p ∈ v.access.denote, v.root ++ access.toPath <+: p.1 := by
  rw [view]
  split
  · next hp =>
    dsimp only
    have hempty : (v.access.inter (subtreeAccess r (v.root ++ access.toPath) hp)).empty = true ↔
        ¬ ∃ p ∈ v.access.denote, v.root ++ access.toPath <+: p.1 := by
      rw [AccessSet.empty_iff, AccessSet.denote_inter, Set.eq_empty_iff_forall_notMem, not_exists]
      exact forall_congr' fun p => not_congr (and_congr_right fun _ => mem_subtreeAccess hp)
    rw [and_iff_right hp]
    split
    · next he => exact iff_of_false (by simp) (hempty.mp he)
    · next he => exact iff_of_true rfl (not_not.mp fun hnone => he (hempty.mpr hnone))
  · next hp => exact iff_of_false (by simp) fun h => hp h.1

/-- Handles are told apart by what they denote. -/
theorem ext_denote (hstorage : v.storage = v'.storage) (hconst : v.readOnly = v'.readOnly) (hroot : v.root = v'.root)
    (hidx : v.idx = v'.idx) (haccess : v.access.denote = v'.access.denote) : v = v' :=
  View.ext hstorage hconst (AccessSet.denote_injective haccess) hroot hidx

/-- **Drilling twice is drilling by the joined path**, and possible when that is. -/
theorem view_view (v : View r Storage) (a b : RecordAccess Tag) :
    ((v.view a).bind fun v' => v'.view b) = v.view (.path (a.toPath ++ b.toPath)) := by
  have hjoined : v.root ++ (RecordAccess.path (a.toPath ++ b.toPath)).toPath = (v.root ++ a.toPath) ++ b.toPath :=
    (List.append_assoc _ _ _).symm
  cases ha : v.view a with
  | none =>
    rw [Option.bind_none, eq_comm, ← Option.not_isSome_iff_eq_none, view_isSome_iff, hjoined]
    rintro ⟨hp, p, hmem, hprefix⟩
    have hsome : (v.view a).isSome = true :=
      view_isSome_iff.mpr ⟨Fields.hasPath_of_append hp, p, hmem, (List.prefix_append _ _).trans hprefix⟩
    rw [ha] at hsome
    exact Bool.false_ne_true hsome
  | some v' =>
    rw [Option.bind_some]
    obtain ⟨hstorage, hconst, hidx, hroot, hdenote, -⟩ := view_eq_some ha
    have hmem : ∀ p, (p ∈ v'.access.denote ∧ v'.root ++ b.toPath <+: p.1) ↔
        (p ∈ v.access.denote ∧ (v.root ++ a.toPath) ++ b.toPath <+: p.1) := by
      intro p
      rw [hdenote, hroot]
      refine ⟨fun h => ⟨h.1.1, h.2⟩, fun h => ⟨⟨h.1, (List.prefix_append _ _).trans h.2⟩, h.2⟩⟩
    have hsome : (v'.view b).isSome = true ↔ (v.view (.path (a.toPath ++ b.toPath))).isSome = true := by
      rw [view_isSome_iff, view_isSome_iff, hjoined, hroot]
      refine and_congr_right fun _ => exists_congr fun p => ?_
      rw [← hmem p, hroot]
    cases hb : v'.view b with
    | none =>
      rw [hb] at hsome
      exact (Option.not_isSome_iff_eq_none.mp fun h => Bool.false_ne_true (hsome.mpr h)).symm
    | some v'' =>
      rw [hb] at hsome
      obtain ⟨w, hw⟩ := Option.isSome_iff_exists.mp (hsome.mp rfl)
      obtain ⟨hstorage', hconst', hidx', hroot', hdenote', -⟩ := view_eq_some hb
      obtain ⟨wstorage, wconst, widx, wroot, wdenote, -⟩ := view_eq_some hw
      rw [hw]
      refine congrArg some (ext_denote ?_ ?_ ?_ ?_ ?_)
      · rw [hstorage', hstorage, wstorage]
      · rw [hconst', hconst, wconst]
      · rw [hroot', hroot, wroot, hjoined]
      · rw [hidx', hidx, widx]
      · rw [hdenote', wdenote, hjoined]
        exact Set.ext hmem

/-- What a selection is. -/
theorem select_eq_some {accesses : List (RecordAccess Tag)} (h : v.select accesses = some v') :
    v'.storage = v.storage ∧ v'.readOnly = v.readOnly ∧ v'.idx = v.idx ∧ v'.root = v.root ∧
      v'.access.denote ⊆ v.access.denote ∧
        ∃ raw, ∃ hvalid : ValidAccessSetFor r raw,
          rawAccessSet (accesses.map fun access => v.root ++ access.toPath) = some raw ∧
            v'.access = accessSet r raw hvalid := by
  obtain ⟨raw, hraw, h⟩ := Option.bind_eq_some_iff.mp h
  dsimp only at h
  split at h
  · next hvalid =>
    split at h
    · next hle =>
      obtain rfl := Option.some.inj h
      exact ⟨rfl, rfl, rfl, rfl, AccessSet.le_iff.mp hle, raw, hvalid, hraw, rfl⟩
    · exact absurd h (by simp)
  · exact absurd h (by simp)

/-- **Selecting twice is selecting the smaller request.** -/
theorem select_select {accesses accesses' : List (RecordAccess Tag)} (h : v.select accesses = some v')
    (h' : v'.select accesses' = some v'') : v.select accesses' = some v'' := by
  obtain ⟨hstorage, hconst, hidx, hroot, hle, -⟩ := select_eq_some h
  obtain ⟨hstorage', hconst', hidx', hroot', hle', raw, hvalid, hraw, haccess⟩ := select_eq_some h'
  rw [hroot] at hraw
  have hrequested : (accessSet r raw hvalid).le v.access = true := by
    rw [AccessSet.le_iff, ← haccess]
    exact hle'.trans hle
  rw [select, hraw, Option.bind_some, dif_pos hvalid]
  dsimp only
  rw [dif_pos hrequested]
  refine congrArg some (View.ext ?_ ?_ ?_ ?_ ?_)
  · exact hstorage.symm.trans hstorage'.symm
  · exact hconst.symm.trans hconst'.symm
  · exact haccess.symm
  · exact hroot.symm.trans hroot'.symm
  · exact hidx.symm.trans hidx'.symm

/-- The leaves a selection asks for. -/
theorem mem_denote_requested {accesses : List (RecordAccess Tag)} {raw : RawAccessSet Tag} {root : TagPath Tag}
    (hraw : raw.elements = (accesses.map fun access => root ++ access.toPath).map RecordAccess.path)
    (hvalid : ValidAccessSetFor r raw) {p : r.Leaves} :
    p ∈ (accessSet r raw hvalid).denote ↔ ∃ access ∈ accesses, root ++ access.toPath <+: p.1 := by
  rw [AccessSet.denote_accessSet]
  constructor
  · rintro ⟨a, ha, hprefix⟩
    rw [hraw, List.map_map] at ha
    obtain ⟨access, haccess, rfl⟩ := List.mem_map.mp ha
    exact ⟨access, haccess, hprefix⟩
  · rintro ⟨access, haccess, hprefix⟩
    refine ⟨.path (root ++ access.toPath), ?_, hprefix⟩
    rw [hraw, List.map_map]
    exact List.mem_map.mpr ⟨access, haccess, rfl⟩

/-- A selection has the leaves it asks for. -/
theorem mem_denote_select {accesses : List (RecordAccess Tag)} (h : v.select accesses = some v') {p : r.Leaves} :
    p ∈ v'.access.denote ↔ ∃ access ∈ accesses, v.root ++ access.toPath <+: p.1 := by
  obtain ⟨-, -, -, -, -, raw, hvalid, hraw, haccess⟩ := select_eq_some h
  rw [haccess]
  exact mem_denote_requested (nodup_of_rawAccessSet hraw).2 hvalid

/-- When a selection is possible. -/
theorem select_isSome_iff {accesses : List (RecordAccess Tag)} :
    (v.select accesses).isSome = true ↔ (accesses.map fun access => v.root ++ access.toPath).Nodup ∧
      (∀ access ∈ accesses, Fields.hasPath (v.root ++ access.toPath) r.fields = true) ∧
        ∀ p : r.Leaves, (∃ access ∈ accesses, v.root ++ access.toPath <+: p.1) → p ∈ v.access.denote := by
  have hpaths : ∀ raw : RawAccessSet Tag, raw.elements = (accesses.map fun access => v.root ++ access.toPath).map RecordAccess.path →
      (ValidAccessSetFor r raw ↔ ∀ access ∈ accesses, Fields.hasPath (v.root ++ access.toPath) r.fields = true) := by
    intro raw hraw
    rw [ValidAccessSetFor, allPathsInRecord, hraw, List.map_map, List.all_map, List.all_eq_true]
    exact Iff.rfl
  constructor
  · intro h
    obtain ⟨v', hselect⟩ := Option.isSome_iff_exists.mp h
    obtain ⟨-, -, -, -, hle, raw, hvalid, hraw, -⟩ := select_eq_some hselect
    obtain ⟨hnodup, helements⟩ := nodup_of_rawAccessSet hraw
    exact ⟨hnodup, (hpaths raw helements).mp hvalid, fun p hp => hle ((mem_denote_select hselect).mpr hp)⟩
  · rintro ⟨hnodup, hexist, hgranted⟩
    obtain ⟨raw, hraw, helements⟩ := rawAccessSet_eq_some hnodup
    have hvalid := (hpaths raw helements).mpr hexist
    have hle : (accessSet r raw hvalid).le v.access = true :=
      AccessSet.le_iff.mpr fun p hp => hgranted p ((mem_denote_requested helements hvalid).mp hp)
    rw [select, hraw, Option.bind_some, dif_pos hvalid]
    dsimp only
    rw [dif_pos hle, Option.isSome_some]

theorem convert_isSome_iff {access : AccessSet r} {addConst : Bool} :
    (v.convert access addConst).isSome = true ↔ access.denote ⊆ v.access.denote := by
  rw [convert, ← AccessSet.le_iff]
  split
  · next hle => exact iff_of_true rfl hle
  · next hle => exact iff_of_false (by simp) hle

theorem row_isSome_iff {idx : UInt32} : (v.row idx).isSome = true ↔ v.idx = none := by
  rw [row]
  split
  · next hnone => exact iff_of_true rfl hnone
  · next hsome => exact iff_of_false (by simp) hsome

theorem convert_eq_some {access : AccessSet r} {addConst : Bool} (h : v.convert access addConst = some v') :
    v'.storage = v.storage ∧ v'.readOnly = (v.readOnly || addConst) ∧ v'.idx = v.idx ∧ v'.root = v.root ∧
      v'.access = access ∧ v'.access.denote ⊆ v.access.denote := by
  rw [convert] at h
  split at h
  · next hle =>
    obtain rfl := Option.some.inj h
    exact ⟨rfl, rfl, rfl, rfl, rfl, AccessSet.le_iff.mp hle⟩
  · exact absurd h (by simp)

theorem row_eq_some {idx : UInt32} (h : v.row idx = some v') :
    v.idx = none ∧ v' = { v with idx := some idx } := by
  rw [row] at h
  split at h
  · next hnone => exact ⟨hnone, (Option.some.inj h).symm⟩
  · exact absurd h (by simp)

end Operations

end View

end LlamaLite
end Spearhed
