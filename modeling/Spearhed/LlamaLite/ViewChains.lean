import Spearhed.LlamaLite.View

/-!
# Chains of view operations

A chain goes from cursor to cursor until it ends or resolves one.  Bracket navigation resolves a
terminal leaf by itself.  A field with a specialised `AsType` is handed to it as a cursor; any other
leaf resolves to the span of its column, or to one element of it where a row has been chosen.
-/

namespace Spearhed
namespace LlamaLite

variable {Tag Leaf : Type} [DecidableEq Tag]

/-- One operation on a cursor. -/
inductive ViewStep (r : Record Tag Leaf)
  /-- `view()`. -/
  | self
  /-- `view(access)`. -/
  | view (access : RecordAccess Tag)
  /-- `operator[](access)`. -/
  | bracket (access : RecordAccess Tag)
  /-- `operator[](idx)`. -/
  | row (idx : UInt32)
  | select (accesses : List (RecordAccess Tag))
  | convert (access : AccessSet r) (addConst : Bool)
  /-- `resolve`, `get()` and `operator*`. -/
  | resolve

/-- What an operation gives. -/
inductive ViewOutcome (r : Record Tag Leaf) (Storage : Type) (Col : Leaf → Type)
  | cursor (view : View r Storage)
  /-- A span over a column, of const elements or not. -/
  | column (readOnly : Bool) (column : Column Col)
  /-- A reference to the element of a row. -/
  | element (readOnly : Bool) (column : Column Col) (idx : UInt32)
  /-- What `AsType` makes of a cursor. -/
  | adapted (view : View r Storage)

/-- The parts of a program the views do not define: which fields have an `AsType`, and the contents of
the storages. -/
structure ViewContext (r : Record Tag Leaf) (Storage : Type) (Col : Leaf → Type) where
  asType : Tag → ValueType Tag Leaf → Bool
  channels : Storage → Channels Col r.fields

variable {r : Record Tag Leaf} {Storage : Type} {Col : Leaf → Type}

namespace View

/-- `IsTraitSpecialized<AsType, field_for<Root>>`. -/
def isAdapted (ctx : ViewContext r Storage Col) (v : View r Storage) : Bool :=
  match r.fields.fieldFor v.root with
  | some (tag, value) => ctx.asType tag value
  | none => false

/-- `CanResolve`. -/
def canResolve (ctx : ViewContext r Storage Col) (v : View r Storage) : Bool :=
  v.root != [] && (subtreeAccess r v.root v.rootExists).le v.access
    && (r.fields.isLeafAt v.root || v.isAdapted ctx)

def resolve (ctx : ViewContext r Storage Col) (v : View r Storage) : Option (ViewOutcome r Storage Col) :=
  if v.canResolve ctx then
    if v.isAdapted ctx then some (.adapted v)
    else
      (Channels.resolveLeaf v.root r.fields (ctx.channels v.storage)).map fun column =>
        match v.idx with
        | some idx => .element v.readOnly column idx
        | none => .column v.readOnly column
  else none

/-- `detail::resolveIfLeaf`. -/
def resolveIfLeaf (ctx : ViewContext r Storage Col) (child : View r Storage) : Option (ViewOutcome r Storage Col) :=
  if child.root = [] then some (.cursor child)
  else if r.fields.isLeafAt child.root then child.resolve ctx
  else some (.cursor child)

/-- One step of a chain. -/
def step (ctx : ViewContext r Storage Col) (v : View r Storage) : ViewStep r → Option (ViewOutcome r Storage Col)
  | .self => some (.cursor v)
  | .view access => (v.view access).map .cursor
  | .bracket access => (v.view access).bind (resolveIfLeaf ctx)
  | .row idx => (v.row idx).map .cursor
  | .select accesses => (v.select accesses).map .cursor
  | .convert access addConst => (v.convert access addConst).map .cursor
  | .resolve => v.resolve ctx

/-- A chain; only cursors can be continued. -/
def run (ctx : ViewContext r Storage Col) (v : View r Storage) : List (ViewStep r) → Option (ViewOutcome r Storage Col)
  | [] => some (.cursor v)
  | s :: rest =>
      match v.step ctx s with
      | some (.cursor v') => run ctx v' rest
      | outcome => if rest = [] then outcome else none

end View

namespace ViewStep

/-- The path an operation drills. -/
def drilled : ViewStep r → TagPath Tag
  | view access => access.toPath
  | bracket access => access.toPath
  | _ => []

/-- The row an operation chooses. -/
def chosenRow : ViewStep r → Option UInt32
  | row idx => some idx
  | _ => none

def addsConst : ViewStep r → Bool
  | convert _ addConst => addConst
  | _ => false

/-- The concatenation of all drilled paths. -/
def drilledPath (steps : List (ViewStep r)) : TagPath Tag := steps.flatMap drilled

def rowOf (steps : List (ViewStep r)) : Option UInt32 := steps.findSome? chosenRow

end ViewStep

open ViewStep

/-! ## What a chain leaves of its first handle -/

/-- `v'` is reached from `v` by some steps. -/
structure Reaches (v : View r Storage) (steps : List (ViewStep r)) (v' : View r Storage) : Prop where
  storage : v'.storage = v.storage
  root : v'.root = v.root ++ drilledPath steps
  row : v'.idx = v.idx.or (ViewStep.rowOf steps)
  readOnly : v'.readOnly = (v.readOnly || steps.any addsConst)
  access : v'.access.denote ⊆ v.access.denote

section Reaches

variable {v v' v'' : View r Storage} {s : ViewStep r} {steps steps' : List (ViewStep r)}
  {ctx : ViewContext r Storage Col} {o : ViewOutcome r Storage Col}

theorem Reaches.refl (v : View r Storage) : Reaches v [] v where
  storage := rfl
  root := (List.append_nil _).symm
  row := (Option.or_none).symm
  readOnly := (Bool.or_false _).symm
  access := le_refl _

theorem Reaches.append (h : Reaches v steps v') (h' : Reaches v' steps' v'') : Reaches v (steps ++ steps') v'' where
  storage := h'.storage.trans h.storage
  root := by rw [h'.root, h.root, List.append_assoc, drilledPath, drilledPath, drilledPath, List.flatMap_append]
  row := by rw [h'.row, h.row, Option.or_assoc, ViewStep.rowOf, ViewStep.rowOf, ViewStep.rowOf, List.findSome?_append]
  readOnly := by rw [h'.readOnly, h.readOnly, List.any_append, Bool.or_assoc]
  access := h'.access.trans h.access

/-- A step that leaves everything but the access set alone. -/
theorem Reaches.of_same (hdrilled : s.drilled = []) (hrow : s.chosenRow = none) (hconst : v'.readOnly = (v.readOnly || s.addsConst))
    (hstorage : v'.storage = v.storage) (hroot : v'.root = v.root) (hidx : v'.idx = v.idx)
    (haccess : v'.access.denote ⊆ v.access.denote) : Reaches v [s] v' where
  storage := hstorage
  root := by rw [hroot, drilledPath, List.flatMap_singleton, hdrilled, List.append_nil]
  row := by rw [hidx, ViewStep.rowOf, List.findSome?_singleton, hrow, Option.or_none]
  readOnly := by rw [hconst, List.any_cons, List.any_nil, Bool.or_false]
  access := haccess

theorem reaches_of_view {access : RecordAccess Tag} (h : v.view access = some v') (hdrilled : s.drilled = access.toPath)
    (hrow : s.chosenRow = none) (hconst : s.addsConst = false) : Reaches v [s] v' := by
  obtain ⟨hstorage, hreadOnly, hidx, hroot, hdenote, -⟩ := View.view_eq_some h
  exact {
    storage := hstorage
    root := by rw [hroot, drilledPath, List.flatMap_singleton, hdrilled]
    row := by rw [hidx, ViewStep.rowOf, List.findSome?_singleton, hrow, Option.or_none]
    readOnly := by rw [hreadOnly, List.any_cons, List.any_nil, hconst, Bool.or_false, Bool.or_false]
    access := hdenote ▸ fun _ hp => hp.1 }

/-- The column of a leaf path. -/
def IsColumnAt (ctx : ViewContext r Storage Col) (storage : Storage) (p : TagPath Tag) (column : Column Col) : Prop :=
  ∃ i : ℕ, r.fields.leafPaths[i]? = some p ∧ (Channels.columns r.fields (ctx.channels storage))[i]? = some column

/-- What resolving a cursor gives. -/
def ResolvedFrom (ctx : ViewContext r Storage Col) (v : View r Storage) : ViewOutcome r Storage Col → Prop
  | .cursor _ => False
  | .column readOnly column =>
      v.idx = none ∧ readOnly = v.readOnly ∧ r.fields.IsLeaf v.root ∧ IsColumnAt ctx v.storage v.root column
  | .element readOnly column idx =>
      v.idx = some idx ∧ readOnly = v.readOnly ∧ r.fields.IsLeaf v.root ∧ IsColumnAt ctx v.storage v.root column
  | .adapted w => w = v ∧ v.isAdapted ctx = true

theorem canResolve_iff : v.canResolve ctx = true ↔
    v.root ≠ [] ∧ (∀ p : r.Leaves, v.root <+: p.1 → p ∈ v.access.denote) ∧
      (r.fields.IsLeaf v.root ∨ v.isAdapted ctx = true) := by
  have hsubtree : (subtreeAccess r v.root v.rootExists).le v.access = true ↔
      ∀ p : r.Leaves, v.root <+: p.1 → p ∈ v.access.denote := by
    rw [AccessSet.le_iff]
    exact forall_congr' fun p => imp_congr_left (mem_subtreeAccess v.rootExists)
  rw [View.canResolve, Bool.and_eq_true, Bool.and_eq_true, Bool.or_eq_true, bne_iff_ne, hsubtree,
    Fields.isLeafAt_iff, and_assoc]

/-- **What resolves is the column at the root**, and all of the subtree is selected. -/
theorem resolve_sound (h : v.resolve ctx = some o) :
    ResolvedFrom ctx v o ∧ ∀ p : r.Leaves, v.root <+: p.1 → p ∈ v.access.denote := by
  rw [View.resolve] at h
  split at h
  · next hcan =>
    obtain ⟨hroot, hsubtree, hleaf⟩ := canResolve_iff.mp hcan
    refine ⟨?_, hsubtree⟩
    split at h
    · next hadapted =>
      obtain rfl := Option.some.inj h
      exact ⟨rfl, hadapted⟩
    · next hplain =>
      have hleaf' := hleaf.resolve_right hplain
      obtain ⟨i, hi⟩ := List.getElem?_of_mem ((Fields.mem_leafPaths r.unique).mpr hleaf')
      obtain ⟨column, hcolumn, rfl⟩ := Option.map_eq_some_iff.mp h
      rw [Channels.resolveLeaf_eq r.unique _ hi] at hcolumn
      cases hidx : v.idx with
      | none => exact ⟨hidx, rfl, hleaf', i, hi, hcolumn⟩
      | some idx => exact ⟨hidx, rfl, hleaf', i, hi, hcolumn⟩
  · exact absurd h (by simp)

/-- When a cursor can be resolved. -/
theorem resolve_isSome_iff : (v.resolve ctx).isSome = true ↔
    v.root ≠ [] ∧ (∀ p : r.Leaves, v.root <+: p.1 → p ∈ v.access.denote) ∧
      (r.fields.IsLeaf v.root ∨ v.isAdapted ctx = true) := by
  rw [← canResolve_iff, View.resolve]
  split
  · next hcan =>
    refine ⟨fun _ => hcan, fun _ => ?_⟩
    split
    · rfl
    · next hplain =>
      -- a leaf path has a column, so the lookup cannot fail
      have hleaf := (canResolve_iff.mp hcan).2.2.resolve_right hplain
      obtain ⟨i, hi⟩ := List.getElem?_of_mem ((Fields.mem_leafPaths r.unique).mpr hleaf)
      have hcolumn : i < (Channels.columns r.fields (ctx.channels v.storage)).length := by
        rw [Channels.length_columns]
        exact (List.getElem?_eq_some_iff.mp hi).1
      rw [Option.isSome_map, Channels.resolveLeaf_eq r.unique _ hi, List.getElem?_eq_getElem hcolumn]
      rfl
  · next hcan => exact iff_of_false (by simp) hcan

theorem resolve_ne_cursor : v.resolve ctx ≠ some (.cursor v') := fun h => (resolve_sound h).1

/-- A chain arrives at a cursor, or resolves one. -/
def Arrives (ctx : ViewContext r Storage Col) (v : View r Storage) (steps : List (ViewStep r))
    (o : ViewOutcome r Storage Col) : Prop :=
  ∃ w, Reaches v steps w ∧ (o = .cursor w ∨
    (ResolvedFrom ctx w o ∧ ∀ p : r.Leaves, w.root <+: p.1 → p ∈ w.access.denote))

/-- One step. -/
theorem step_arrives (h : v.step ctx s = some o) : Arrives ctx v [s] o := by
  cases s with
  | self =>
    obtain rfl := Option.some.inj h
    exact ⟨v, Reaches.of_same rfl rfl (Bool.or_false _).symm rfl rfl rfl (le_refl _), Or.inl rfl⟩
  | view access =>
    obtain ⟨w, hw, rfl⟩ := Option.map_eq_some_iff.mp h
    exact ⟨w, reaches_of_view hw rfl rfl rfl, Or.inl rfl⟩
  | bracket access =>
    obtain ⟨w, hw, h⟩ := Option.bind_eq_some_iff.mp h
    refine ⟨w, reaches_of_view hw rfl rfl rfl, ?_⟩
    rw [View.resolveIfLeaf] at h
    split at h
    · exact Or.inl (Option.some.inj h).symm
    · split at h
      · exact Or.inr (resolve_sound h)
      · exact Or.inl (Option.some.inj h).symm
  | row idx =>
    obtain ⟨w, hw, rfl⟩ := Option.map_eq_some_iff.mp h
    obtain ⟨hnone, rfl⟩ := View.row_eq_some hw
    refine ⟨{ v with idx := some idx }, ⟨rfl, (List.append_nil _).symm, ?_, (Bool.or_false _).symm, le_refl _⟩, Or.inl rfl⟩
    rw [hnone]
    rfl
  | select accesses =>
    obtain ⟨w, hw, rfl⟩ := Option.map_eq_some_iff.mp h
    obtain ⟨hstorage, hconst, hidx, hroot, hle, -⟩ := View.select_eq_some hw
    exact ⟨w, Reaches.of_same rfl rfl (hconst.trans (Bool.or_false _).symm) hstorage hroot hidx hle, Or.inl rfl⟩
  | convert access addConst =>
    obtain ⟨w, hw, rfl⟩ := Option.map_eq_some_iff.mp h
    obtain ⟨hstorage, hconst, hidx, hroot, -, hle⟩ := View.convert_eq_some hw
    exact ⟨w, Reaches.of_same rfl rfl hconst hstorage hroot hidx hle, Or.inl rfl⟩
  | resolve =>
    exact ⟨v, Reaches.of_same rfl rfl (Bool.or_false _).symm rfl rfl rfl (le_refl _), Or.inr (resolve_sound h)⟩

/-- **A whole chain.** -/
theorem run_arrives (h : v.run ctx steps = some o) : Arrives ctx v steps o := by
  induction steps generalizing v with
  | nil =>
    obtain rfl := Option.some.inj h
    exact ⟨v, Reaches.refl v, Or.inl rfl⟩
  | cons s rest ih =>
    rw [View.run] at h
    cases hstep : v.step ctx s with
    | none =>
      rw [hstep] at h
      by_cases hrest : rest = [] <;> simp [hrest] at h
    | some outcome =>
      have hend : (if rest = [] then some outcome else none) = some o → Arrives ctx v (s :: rest) o := by
        intro hlast
        split at hlast
        · next hrest =>
          obtain rfl := Option.some.inj hlast
          exact hrest ▸ step_arrives hstep
        · exact absurd hlast (by simp)
      rw [hstep] at h
      cases outcome with
      | cursor v' =>
        obtain ⟨w, hw, hout⟩ := step_arrives hstep
        obtain ⟨w', hw', hout'⟩ := ih h
        rcases hout with hcursor | hresolved
        · obtain rfl := ViewOutcome.cursor.inj hcursor
          exact ⟨w', hw.append hw', hout'⟩
        · exact hresolved.1.elim
      | column readOnly column => exact hend h
      | element readOnly column idx => exact hend h
      | adapted v' => exact hend h

end Reaches

/-! ## The laws of views -/

/-- What a chain leads to, in terms of its first handle. -/
def ChainSound (ctx : ViewContext r Storage Col) (v : View r Storage) (steps : List (ViewStep r)) :
    ViewOutcome r Storage Col → Prop
  | .cursor w =>
      Reaches v steps w ∧ CanonicalLeafSetFor r w.access.leaves ∧ ∀ p ∈ w.access.denote, w.root <+: p.1
  | .column readOnly column =>
      v.idx.or (ViewStep.rowOf steps) = none ∧ readOnly = (v.readOnly || steps.any addsConst) ∧
        (∃ hleaf : r.fields.IsLeaf (v.root ++ drilledPath steps), ⟨_, hleaf⟩ ∈ v.access.denote) ∧
          IsColumnAt ctx v.storage (v.root ++ drilledPath steps) column
  | .element readOnly column idx =>
      v.idx.or (ViewStep.rowOf steps) = some idx ∧ readOnly = (v.readOnly || steps.any addsConst) ∧
        (∃ hleaf : r.fields.IsLeaf (v.root ++ drilledPath steps), ⟨_, hleaf⟩ ∈ v.access.denote) ∧
          IsColumnAt ctx v.storage (v.root ++ drilledPath steps) column
  | .adapted w =>
      Reaches v steps w ∧ (∀ p : r.Leaves, w.root <+: p.1 → p ∈ w.access.denote) ∧
        ∀ p : r.Leaves, v.root ++ drilledPath steps <+: p.1 → p ∈ v.access.denote

/-- Views are monotone in what they grant, and address the right element. -/
structure ViewLaws (r : Record Tag Leaf) {Storage : Type} {Col : Leaf → Type} (ctx : ViewContext r Storage Col) : Prop where
  /-- Every chain. -/
  chain : ∀ v steps o, View.run ctx v steps = some o → ChainSound ctx v steps o
  /-- Drilling by `a` and then by `b` is drilling by `a / b`, also in brackets. -/
  drill : ∀ (v : View r Storage) a b, ((v.view a).bind fun v' => v'.view b) = v.view (.path (a.toPath ++ b.toPath))
  bracket : ∀ (v v' : View r Storage) a b, v.step ctx (.bracket a) = some (.cursor v') →
    v'.step ctx (.bracket b) = v.step ctx (.bracket (.path (a.toPath ++ b.toPath)))
  /-- Selections do not enlarge the access set, and the smaller request wins. -/
  select : ∀ (v v' : View r Storage) accesses, v.select accesses = some v' → v'.access.denote ⊆ v.access.denote
  selectTwice : ∀ (v v' v'' : View r Storage) accesses accesses', v.select accesses = some v' →
    v'.select accesses' = some v'' → v.select accesses' = some v''
  selected : ∀ (v v' : View r Storage) accesses, v.select accesses = some v' →
    ∀ p : r.Leaves, p ∈ v'.access.denote ↔ ∃ access ∈ accesses, v.root ++ access.toPath <+: p.1
  /-- Only what is selected as a whole can be resolved. -/
  resolve : ∀ (v : View r Storage) o, v.resolve ctx = some o → ∀ p : r.Leaves, v.root <+: p.1 → p ∈ v.access.denote
  /-- A path can be drilled that exists and leads to a leaf in the access set. -/
  canDrill : ∀ (v : View r Storage) access, (v.view access).isSome = true ↔
    Fields.hasPath (v.root ++ access.toPath) r.fields = true ∧ ∃ p ∈ v.access.denote, v.root ++ access.toPath <+: p.1
  /-- Paths can be selected that exist, are not repeated and lead to leaves in the access set only. -/
  canSelect : ∀ (v : View r Storage) accesses, (v.select accesses).isSome = true ↔
    (accesses.map fun access => v.root ++ access.toPath).Nodup ∧
      (∀ access ∈ accesses, Fields.hasPath (v.root ++ access.toPath) r.fields = true) ∧
        ∀ p : r.Leaves, (∃ access ∈ accesses, v.root ++ access.toPath <+: p.1) → p ∈ v.access.denote
  /-- A leaf, and a field with an `AsType`, can be resolved once all of it is selected. -/
  canResolve : ∀ v : View r Storage, (v.resolve ctx).isSome = true ↔
    v.root ≠ [] ∧ (∀ p : r.Leaves, v.root <+: p.1 → p ∈ v.access.denote) ∧
      (r.fields.IsLeaf v.root ∨ v.isAdapted ctx = true)
  canConvert : ∀ (v : View r Storage) access addConst, (v.convert access addConst).isSome = true ↔
    access.denote ⊆ v.access.denote
  canRow : ∀ (v : View r Storage) idx, (v.row idx).isSome = true ↔ v.idx = none

section Laws

variable {ctx : ViewContext r Storage Col} {v w : View r Storage} {steps : List (ViewStep r)}
  {o : ViewOutcome r Storage Col}

theorem Reaches.leaf (h : Reaches v steps w) (hsubtree : ∀ p : r.Leaves, w.root <+: p.1 → p ∈ w.access.denote)
    (hleaf : r.fields.IsLeaf w.root) {column : Column Col} (hcolumn : IsColumnAt ctx w.storage w.root column) :
    (∃ hleaf : r.fields.IsLeaf (v.root ++ drilledPath steps), ⟨_, hleaf⟩ ∈ v.access.denote) ∧
      IsColumnAt ctx v.storage (v.root ++ drilledPath steps) column := by
  rw [← h.root, ← h.storage]
  exact ⟨⟨hleaf, h.access (hsubtree _ List.prefix_rfl)⟩, hcolumn⟩

theorem chainSound_of_arrives (h : Arrives ctx v steps o) : ChainSound ctx v steps o := by
  obtain ⟨w, hw, hcursor | ⟨hresolved, hsubtree⟩⟩ := h
  · subst hcursor
    refine ⟨hw, w.access.canonical, fun p hp => ?_⟩
    exact (mem_subtreeAccess w.rootExists).mp (AccessSet.le_iff.mp w.within hp)
  · cases o with
    | cursor v' => exact hresolved.elim
    | column readOnly column =>
      obtain ⟨hidx, rfl, hleaf, hcolumn⟩ := hresolved
      exact ⟨hw.row.symm.trans hidx, hw.readOnly, hw.leaf hsubtree hleaf hcolumn⟩
    | element readOnly column idx =>
      obtain ⟨hidx, rfl, hleaf, hcolumn⟩ := hresolved
      exact ⟨hw.row.symm.trans hidx, hw.readOnly, hw.leaf hsubtree hleaf hcolumn⟩
    | adapted v' =>
      obtain ⟨rfl, -⟩ := hresolved
      exact ⟨hw, hsubtree, fun p hp => hw.access (hsubtree p (hw.root ▸ hp))⟩

theorem step_bracket_bracket {v' : View r Storage} {a b : RecordAccess Tag}
    (h : v.step ctx (.bracket a) = some (.cursor v')) :
    v'.step ctx (.bracket b) = v.step ctx (.bracket (.path (a.toPath ++ b.toPath))) := by
  obtain ⟨w, hw, hcursor⟩ := Option.bind_eq_some_iff.mp h
  have hsame : w = v' := by
    rw [View.resolveIfLeaf] at hcursor
    split at hcursor
    · exact ViewOutcome.cursor.inj (Option.some.inj hcursor)
    · split at hcursor
      · exact absurd hcursor resolve_ne_cursor
      · exact ViewOutcome.cursor.inj (Option.some.inj hcursor)
  rw [View.step, View.step, ← View.view_view v a b, hw, hsame, Option.bind_some]

/-- **Views are capability-monotone and address the right element**, for every record, storage and chain. -/
theorem view_laws (r : Record Tag Leaf) (ctx : ViewContext r Storage Col) : ViewLaws r ctx where
  chain _ _ _ h := chainSound_of_arrives (run_arrives h)
  drill v a b := View.view_view v a b
  bracket _ _ _ _ h := step_bracket_bracket h
  select _ _ _ h := (View.select_eq_some h).2.2.2.2.1
  selectTwice _ _ _ _ _ h h' := View.select_select h h'
  selected _ _ _ h _ := View.mem_denote_select h
  resolve _ _ h := (resolve_sound h).2
  canDrill _ _ := View.view_isSome_iff
  canSelect _ _ := View.select_isSome_iff
  canResolve _ := resolve_isSome_iff
  canConvert _ _ _ := View.convert_isSome_iff
  canRow _ _ := View.row_isSome_iff

/-- A chain through a nested record: go into it, choose a row, select a field, take the leaf. -/
theorem view_laws_nested :
    let r : Record ℕ Unit := ⟨.nested 0 (.leaf 1 () (.leaf 2 () .nil)) (.leaf 3 () .nil), by decide⟩
    let ctx : ViewContext r Unit fun _ => ℕ := ⟨fun _ _ => false, fun _ => ((10, 20, ()), 30, ())⟩
    let chain : List (ViewStep r) := [.bracket (.tag 0), .row 7, .select [.tag 2], .bracket (.tag 2)]
    ViewLaws r ctx ∧ View.run ctx (View.whole r () false) chain = some (.element false ⟨(), 20⟩ 7) ∧
      ChainSound ctx (View.whole r () false) chain (.element false ⟨(), 20⟩ 7) := by
  intro r ctx chain
  have hlaws := view_laws r ctx
  have hrun : View.run ctx (View.whole r () false) chain = some (.element false ⟨(), 20⟩ 7) := rfl
  exact ⟨hlaws, hrun, hlaws.chain _ _ _ hrun⟩

end Laws

end LlamaLite
end Spearhed
