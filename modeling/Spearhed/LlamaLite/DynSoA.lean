import Spearhed.Library.Transactions
import Spearhed.LlamaLite.Storage

/-!
# Dynamic structures of arrays

A `DynSoA` has one vector for each leaf of its record, and a size.  Its operations walk the tuple of
vectors and change one after the other, so an operation that throws has changed the first of them
(`columns_forEachColumn`), and the roll back is one more walk.  `Aligned` says that every vector has
as many elements as the container says it has.
-/

namespace Spearhed
namespace LlamaLite

open Library

variable {Tag Leaf : Type}

namespace Channels

variable {Col : Leaf → Type}

/-- A walk over a storage tuple with an operation that may throw, which ends it. -/
def forEachColumn (op : ∀ type, Col type → Transaction (Col type)) :
    (fields : Fields Tag Leaf) → Channels Col fields → Faults → Attempt (Channels Col fields)
  | .nil, channels, faults => ⟨true, channels, faults⟩
  | .leaf _ type rest, channels, faults =>
      let column := (op type channels.1).run channels.1 faults
      if column.succeeded then
        let others := forEachColumn op rest channels.2 column.faults
        ⟨others.succeeded, (column.state, others.state), others.faults⟩
      else ⟨false, (column.state, channels.2), column.faults⟩
  | .nested _ inner rest, channels, faults =>
      let record := forEachColumn op inner channels.1 faults
      if record.succeeded then
        let others := forEachColumn op rest channels.2 record.faults
        ⟨others.succeeded, (record.state, others.state), others.faults⟩
      else ⟨false, (record.state, channels.2), record.faults⟩

/-- A walk over a storage tuple with an operation that does not throw. -/
def mapColumns (f : ∀ type, Col type → Col type) : (fields : Fields Tag Leaf) → Channels Col fields → Channels Col fields
  | .nil, channels => channels
  | .leaf _ type rest, channels => (f type channels.1, mapColumns f rest channels.2)
  | .nested _ inner rest, channels => (mapColumns f inner channels.1, mapColumns f rest channels.2)

/-- A storage tuple whose columns are all made in one way. -/
def replicate (column : ∀ type, Col type) : (fields : Fields Tag Leaf) → Channels Col fields
  | .nil => ()
  | .leaf _ type rest => (column type, replicate column rest)
  | .nested _ inner rest => (replicate column inner, replicate column rest)

section Columns

variable (op : ∀ type, Col type → Transaction (Col type)) (f : ∀ type, Col type → Col type)

/-- What an operation makes of a column. -/
def resultOf (column : Column Col) : Column Col := ⟨column.1, (op column.1 column.2).result⟩

def actionsOf (column : Column Col) : ℕ := (op column.1 column.2).actions

theorem columns_mapColumns (fields : Fields Tag Leaf) (channels : Channels Col fields) :
    columns fields (mapColumns f fields channels) = (columns fields channels).map fun column => ⟨column.1, f column.1 column.2⟩ := by
  induction fields with
  | nil => rfl
  | leaf tag type rest ih => exact congrArg _ (ih channels.2)
  | nested tag inner rest ihi ihr =>
    rw [columns, mapColumns, columns, List.map_append]
    exact congrArg₂ _ (ihi channels.1) (ihr channels.2)

theorem mem_columns_replicate {column : ∀ type, Col type} {fields : Fields Tag Leaf} {c : Column Col}
    (h : c ∈ columns fields (replicate column fields)) : c.2 = column c.1 := by
  induction fields with
  | nil => exact absurd h List.not_mem_nil
  | leaf tag type rest ih =>
    rcases List.mem_cons.mp h with rfl | h
    · rfl
    · exact ih h
  | nested tag inner rest ihi ihr =>
    rcases List.mem_append.mp h with h | h
    · exact ihi h
    · exact ihr h

/-- What a walk has done. -/
structure Walked (fields : Fields Tag Leaf) (channels : Channels Col fields) (done : ℕ × Faults)
    (a : Attempt (Channels Col fields)) : Prop where
  columns_eq : columns fields a.state =
    ((columns fields channels).take done.1).map (resultOf op) ++ (columns fields channels).drop done.1
  succeeded_iff : a.succeeded = true ↔ done.1 = (columns fields channels).length
  faults_eq : a.faults = done.2

variable {op}

/-- A part of the tuple is done and the walk goes on. -/
theorem completed_map_append {cs ds : List (Column Col)} {faults : Faults}
    (h : (completed (cs.map (actionsOf op)) faults).1 = cs.length) :
    completed ((cs ++ ds).map (actionsOf op)) faults =
      (cs.length + (completed (ds.map (actionsOf op)) (completed (cs.map (actionsOf op)) faults).2).1,
        (completed (ds.map (actionsOf op)) (completed (cs.map (actionsOf op)) faults).2).2) := by
  rw [List.map_append, completed_append_of_success (by rw [h, List.length_map]), List.length_map]

section Walk

variable {tag : Tag} {type : Leaf} {inner rest : Fields Tag Leaf} {faults faults' : Faults}

theorem forEachColumn_leaf_of_throw {channels : Channels Col (.leaf tag type rest)}
    (h : attempt (actionsOf op ⟨type, channels.1⟩) faults = (false, faults')) :
    forEachColumn op (.leaf tag type rest) channels faults = ⟨false, channels, faults'⟩ := by
  rw [forEachColumn, Transaction.run_of_throw h]
  rfl

theorem forEachColumn_leaf_of_success {channels : Channels Col (.leaf tag type rest)}
    (h : attempt (actionsOf op ⟨type, channels.1⟩) faults = (true, faults')) :
    forEachColumn op (.leaf tag type rest) channels faults =
      ⟨(forEachColumn op rest channels.2 faults').succeeded,
        ((op type channels.1).result, (forEachColumn op rest channels.2 faults').state),
        (forEachColumn op rest channels.2 faults').faults⟩ := by
  rw [forEachColumn, Transaction.run_of_success h]
  rfl

theorem forEachColumn_nested_of_throw {channels : Channels Col (.nested tag inner rest)}
    (h : (forEachColumn op inner channels.1 faults).succeeded = false) :
    forEachColumn op (.nested tag inner rest) channels faults =
      ⟨false, ((forEachColumn op inner channels.1 faults).state, channels.2), (forEachColumn op inner channels.1 faults).faults⟩ := by
  rw [forEachColumn]
  dsimp only
  rw [if_neg (by rw [h]; exact Bool.false_ne_true)]

theorem forEachColumn_nested_of_success {channels : Channels Col (.nested tag inner rest)}
    (h : (forEachColumn op inner channels.1 faults).succeeded = true) :
    forEachColumn op (.nested tag inner rest) channels faults =
      ⟨(forEachColumn op rest channels.2 (forEachColumn op inner channels.1 faults).faults).succeeded,
        ((forEachColumn op inner channels.1 faults).state,
          (forEachColumn op rest channels.2 (forEachColumn op inner channels.1 faults).faults).state),
        (forEachColumn op rest channels.2 (forEachColumn op inner channels.1 faults).faults).faults⟩ := by
  rw [forEachColumn]
  dsimp only
  rw [if_pos h]

variable (op) in
/-- **A walk does a first part of the columns, all of them if nothing throws.** -/
theorem walked_forEachColumn (fields : Fields Tag Leaf) (channels : Channels Col fields) (faults : Faults) :
    Walked op fields channels (completed ((columns fields channels).map (actionsOf op)) faults)
      (forEachColumn op fields channels faults) := by
  induction fields generalizing faults with
  | nil => exact ⟨rfl, iff_of_true rfl rfl, rfl⟩
  | leaf tag type rest ih =>
    rcases h : attempt (actionsOf op ⟨type, channels.1⟩) faults with ⟨_ | _, faults'⟩
    · rw [forEachColumn_leaf_of_throw h, columns, List.map_cons, completed_cons_of_throw h]
      exact ⟨rfl, iff_of_false Bool.false_ne_true (Nat.zero_ne_add_one _), rfl⟩
    · obtain ⟨hcolumns, hsucceeded, hfaults⟩ := ih channels.2 faults'
      rw [forEachColumn_leaf_of_success h, columns, List.map_cons, completed_cons_of_success h]
      exact ⟨congrArg _ hcolumns, hsucceeded.trans Nat.succ_inj.symm, hfaults⟩
  | nested tag inner rest ihi ihr =>
    obtain ⟨hcolumns, hsucceeded, hfaults⟩ := ihi channels.1 faults
    cases h : (forEachColumn op inner channels.1 faults).succeeded with
    | false =>
      have hne : (completed ((columns inner channels.1).map (actionsOf op)) faults).1 ≠ (columns inner channels.1).length :=
        fun hdone => Bool.false_ne_true (h.symm.trans (hsucceeded.mpr hdone))
      have hlt := lt_of_le_of_ne ((completed_le _ faults).trans_eq (List.length_map _)) hne
      rw [forEachColumn_nested_of_throw h, columns, List.map_append,
        completed_append_of_throw (hlt.trans_eq (List.length_map _).symm)]
      refine ⟨?_, iff_of_false Bool.false_ne_true ?_, hfaults⟩
      · rw [columns, hcolumns, columns, List.take_append_of_le_length (Nat.le_of_lt hlt),
          List.drop_append_of_le_length (Nat.le_of_lt hlt), List.append_assoc]
      · rw [columns, List.length_append]
        exact Nat.ne_of_lt (hlt.trans_le (Nat.le_add_right _ _))
    | true =>
      have hall := hsucceeded.mp h
      obtain ⟨hothers, hsucceeded', hfaults'⟩ := ihr channels.2 (forEachColumn op inner channels.1 faults).faults
      rw [hall, List.take_length, List.drop_length, List.append_nil] at hcolumns
      rw [forEachColumn_nested_of_success h, columns, completed_map_append hall, ← hfaults]
      refine ⟨?_, ?_, hfaults'⟩
      · rw [columns, hcolumns, hothers, columns, List.take_length_add_append, List.drop_length_add_append, List.map_append,
          List.append_assoc]
      · rw [columns, List.length_append]
        exact hsucceeded'.trans Nat.add_left_cancel_iff.symm

variable {fields : Fields Tag Leaf} {channels : Channels Col fields}

theorem columns_of_succeeded (h : (forEachColumn op fields channels faults).succeeded = true) :
    columns fields (forEachColumn op fields channels faults).state = (columns fields channels).map (resultOf op) := by
  obtain ⟨hcolumns, hsucceeded, -⟩ := walked_forEachColumn op fields channels faults
  rw [hcolumns, hsucceeded.mp h, List.take_length, List.drop_length, List.append_nil]

theorem columns_of_failed (h : (forEachColumn op fields channels faults).succeeded = false) :
    ∃ k < (columns fields channels).length,
      (completed ((columns fields channels).map (actionsOf op)) faults).1 = k ∧
        columns fields (forEachColumn op fields channels faults).state =
          ((columns fields channels).take k).map (resultOf op) ++ (columns fields channels).drop k := by
  obtain ⟨hcolumns, hsucceeded, -⟩ := walked_forEachColumn op fields channels faults
  have hne : (completed ((columns fields channels).map (actionsOf op)) faults).1 ≠ (columns fields channels).length :=
    fun hdone => Bool.false_ne_true (h.symm.trans (hsucceeded.mpr hdone))
  exact ⟨_, lt_of_le_of_ne ((completed_le _ faults).trans_eq (List.length_map _)) hne, rfl, hcolumns⟩

end Walk

end Columns

end Channels

/-- `transform_record_dynsoa_t`. -/
abbrev DynStorage (Elem : Leaf → Type) (fields : Fields Tag Leaf) := Channels (fun type => Vec (Elem type)) fields

section Storage

variable {Elem : Leaf → Type} {fields : Fields Tag Leaf}

/-- `resizeDynStorage`; new elements are what `fresh` finds in their rows. -/
def resizeDynStorage (fresh : ∀ type, ℕ → Elem type) (storage : DynStorage Elem fields) (n : ℕ) (faults : Faults) :
    Attempt (DynStorage Elem fields) :=
  Channels.forEachColumn (fun type column => column.resize n (fresh type)) fields storage faults

/-- `resizeValueInitializedDynStorage`; the value is constructed whether or not it is needed. -/
def resizeValueInitializedDynStorage [∀ type, Inhabited (Elem type)] (storage : DynStorage Elem fields) (n : ℕ)
    (faults : Faults) : Attempt (DynStorage Elem fields) :=
  Channels.forEachColumn
    (fun _ column =>
      { actions := 1 + (column.resize n fun _ => default).actions
        result := (column.resize n fun _ => default).result })
    fields storage faults

/-- `reserveDynStorage`. -/
def reserveDynStorage (storage : DynStorage Elem fields) (n : ℕ) (faults : Faults) : Attempt (DynStorage Elem fields) :=
  Channels.forEachColumn (fun _ column => column.reserve n) fields storage faults

/-- The copy constructor of the tuple. -/
def copyDynStorage (storage : DynStorage Elem fields) (faults : Faults) : Attempt (DynStorage Elem fields) :=
  Channels.forEachColumn (fun _ column => column.copy) fields storage faults

/-- `clearDynStorage`. -/
def clearDynStorage (storage : DynStorage Elem fields) : DynStorage Elem fields :=
  Channels.mapColumns (fun _ column => column.clear) fields storage

/-- `truncateDynStorage`. -/
def truncateDynStorage (storage : DynStorage Elem fields) (n : ℕ) : DynStorage Elem fields :=
  Channels.mapColumns (fun _ column => Vec.popBack^[column.size - n] column) fields storage

/-- The tuple a default construction or a move leaves. -/
def emptyDynStorage (fields : Fields Tag Leaf) : DynStorage Elem fields :=
  Channels.replicate (fun _ => .empty) fields

end Storage

variable [DecidableEq Tag]

inductive Initialization
  | valueInitialize
  | uninitialized
  deriving DecidableEq

/-- `DynSoA<R>`. -/
structure DynSoA (r : Record Tag Leaf) (Elem : Leaf → Type) where
  channels : DynStorage Elem r.fields
  size : ℕ

namespace DynSoA

variable {r : Record Tag Leaf} {Elem : Leaf → Type}

/-- `DynSoA()`. -/
def empty (r : Record Tag Leaf) (Elem : Leaf → Type) : DynSoA r Elem := ⟨emptyDynStorage r.fields, 0⟩

/-- `checkSize`: rows have 32-bit indices. -/
def checkSize (n : ℕ) : Bool := n < UInt32.size

/-- `resize`. -/
def resize [∀ type, Inhabited (Elem type)] (soa : DynSoA r Elem) (n : ℕ) (initialization : Initialization)
    (fresh : ∀ type, ℕ → Elem type) (faults : Faults) : Attempt (DynSoA r Elem) :=
  if checkSize n then
    let resized :=
      match initialization with
      | .valueInitialize => resizeValueInitializedDynStorage soa.channels n faults
      | .uninitialized => resizeDynStorage fresh soa.channels n faults
    if resized.succeeded then ⟨true, ⟨resized.state, n⟩, resized.faults⟩
    else ⟨false, ⟨truncateDynStorage resized.state soa.size, soa.size⟩, resized.faults⟩
  else ⟨false, soa, faults⟩

/-- `reserve`. -/
def reserve (soa : DynSoA r Elem) (n : ℕ) (faults : Faults) : Attempt (DynSoA r Elem) :=
  if checkSize n then
    let reserved := reserveDynStorage soa.channels n faults
    ⟨reserved.succeeded, ⟨reserved.state, soa.size⟩, reserved.faults⟩
  else ⟨false, soa, faults⟩

/-- `discardAndResize`. -/
def discardAndResize (soa : DynSoA r Elem) (n : ℕ) (fresh : ∀ type, ℕ → Elem type) (faults : Faults) :
    Attempt (DynSoA r Elem) :=
  if checkSize n then
    let resized := resizeDynStorage fresh (clearDynStorage soa.channels) n faults
    if resized.succeeded then ⟨true, ⟨resized.state, n⟩, resized.faults⟩
    else ⟨false, ⟨truncateDynStorage resized.state 0, 0⟩, resized.faults⟩
  else ⟨false, soa, faults⟩

/-- The copy constructor; there is no container if it throws. -/
def copy (other : DynSoA r Elem) (faults : Faults) : Option (DynSoA r Elem) :=
  let copied := copyDynStorage other.channels faults
  if copied.succeeded then some ⟨copied.state, other.size⟩ else none

/-- The elements, without the capacities. -/
def rows (soa : DynSoA r Elem) : List (Column fun type => List (Elem type)) :=
  (Channels.columns r.fields soa.channels).map fun column => ⟨column.1, column.2.elements⟩

/-- Every column has `size()` elements. -/
def Aligned (soa : DynSoA r Elem) : Prop := ∀ row ∈ soa.rows, row.2.length = soa.size

/-- The first rows of every column, `n` of them. -/
def firstRows (soa : DynSoA r Elem) (n : ℕ) : List (Column fun type => List (Elem type)) :=
  soa.rows.map fun row => ⟨row.1, row.2.take n⟩

/-- Size and elements are the same. -/
def SameRows (soa soa' : DynSoA r Elem) : Prop := soa'.size = soa.size ∧ soa'.rows = soa.rows

/-! ## One operation -/

section Operations

variable {soa soa' : DynSoA r Elem} {n : ℕ} {faults : Faults}

theorem aligned_iff : soa.Aligned ↔ ∀ column ∈ Channels.columns r.fields soa.channels, column.2.size = soa.size :=
  List.forall_mem_map

theorem SameRows.aligned (h : SameRows soa soa') (haligned : soa.Aligned) : soa'.Aligned := by
  rw [Aligned, h.1, h.2]
  exact haligned

theorem SameRows.refl (soa : DynSoA r Elem) : SameRows soa soa := ⟨rfl, rfl⟩

theorem aligned_empty : (empty r Elem).Aligned :=
  aligned_iff.mpr fun _ hcolumn => congrArg Vec.size (Channels.mem_columns_replicate hcolumn)

/-- Some of the columns have been changed by an operation that leaves the elements as they are. -/
theorem map_changed_part {Col : Leaf → Type} {β : Type} {f : Column Col → Column Col} {elements : Column Col → β} {columns : List (Column Col)}
    (h : ∀ column ∈ columns, elements (f column) = elements column) (k : ℕ) :
    (((columns.take k).map f) ++ columns.drop k).map elements = columns.map elements := by
  have htake : ((columns.take k).map f).map elements = (columns.take k).map elements := by
    rw [List.map_map]
    exact List.map_congr_left fun column hcolumn => h column (List.mem_of_mem_take hcolumn)
  rw [List.map_append, htake, ← List.map_append, List.take_append_drop]

/-- What a resized column is like. -/
structure Resizes (op : ∀ type, Vec (Elem type) → Transaction (Vec (Elem type))) (n : ℕ) : Prop where
  size : ∀ type v, (op type v).result.size = n
  take : ∀ type v, (op type v).result.elements.take (min v.size n) = v.elements.take (min v.size n)

/-- What `resize` does to a column. -/
def resizeColumn [∀ type, Inhabited (Elem type)] (n : ℕ) (initialization : Initialization) (fresh : ∀ type, ℕ → Elem type)
    (type : Leaf) (column : Vec (Elem type)) : Transaction (Vec (Elem type)) :=
  match initialization with
  | .valueInitialize =>
      { actions := 1 + (column.resize n fun _ => default).actions
        result := (column.resize n fun _ => default).result }
  | .uninitialized => column.resize n (fresh type)

theorem resizes_resize (fresh : ∀ type, ℕ → Elem type) (n : ℕ) :
    Resizes (fun type column => column.resize n (fresh type)) n where
  size _ v := v.size_resize n _
  take _ v := v.take_resize n _

theorem resizes_resizeColumn [∀ type, Inhabited (Elem type)] (n : ℕ) (initialization : Initialization)
    (fresh : ∀ type, ℕ → Elem type) : Resizes (resizeColumn n initialization fresh) n := by
  cases initialization with
  | valueInitialize => exact ⟨fun _ v => v.size_resize n _, fun _ v => v.take_resize n _⟩
  | uninitialized => exact resizes_resize fresh n

section Resize

variable {op : ∀ type, Vec (Elem type) → Transaction (Vec (Elem type))}

theorem aligned_of_resized (hop : Resizes op n)
    (h : (Channels.forEachColumn op r.fields soa.channels faults).succeeded = true) :
    (DynSoA.mk (Channels.forEachColumn op r.fields soa.channels faults).state n).Aligned := by
  rw [aligned_iff, Channels.columns_of_succeeded h]
  exact List.forall_mem_map.mpr fun column _ => hop.size column.1 column.2

theorem firstRows_of_resized (hop : Resizes op n) (haligned : soa.Aligned)
    (h : (Channels.forEachColumn op r.fields soa.channels faults).succeeded = true) :
    (DynSoA.mk (Channels.forEachColumn op r.fields soa.channels faults).state n).firstRows (min soa.size n) =
      soa.firstRows (min soa.size n) := by
  rw [firstRows, firstRows, rows, rows, Channels.columns_of_succeeded h, List.map_map, List.map_map, List.map_map]
  refine List.map_congr_left fun column hcolumn => ?_
  have hsize := aligned_iff.mp haligned column hcolumn
  exact congrArg (Sigma.mk column.1) (hsize ▸ hop.take column.1 column.2)

/-- A column that is resized and cut back to its old size. -/
theorem elements_rollback (hop : Resizes op n) {type : Leaf} (v : Vec (Elem type)) (h : v.size ≤ n) :
    (Vec.popBack^[(op type v).result.size - v.size] (op type v).result).elements = v.elements := by
  have hkeep := hop.take type v
  rw [min_eq_left h, Vec.size, List.take_length] at hkeep
  rw [Vec.elements_iterate_popBack, hop.size, Nat.sub_sub_self h]
  exact hkeep

/-- **The roll back** restores the rows, if the columns have grown or none has been changed. -/
theorem sameRows_rollback (hop : Resizes op n) (haligned : soa.Aligned)
    (h : (Channels.forEachColumn op r.fields soa.channels faults).succeeded = false)
    (hgrown : soa.size ≤ n ∨ (completed ((Channels.columns r.fields soa.channels).map (Channels.actionsOf op)) faults).1 = 0) :
    SameRows soa ⟨truncateDynStorage (Channels.forEachColumn op r.fields soa.channels faults).state soa.size, soa.size⟩ := by
  obtain ⟨k, -, hk, hcolumns⟩ := Channels.columns_of_failed h
  have hsize := aligned_iff.mp haligned
  have hsame : ∀ column ∈ Channels.columns r.fields soa.channels,
      (Vec.popBack^[column.2.size - soa.size] column.2).elements = column.2.elements := by
    intro column hcolumn
    rw [hsize column hcolumn, Nat.sub_self]
    rfl
  refine ⟨rfl, ?_⟩
  rw [rows, truncateDynStorage, Channels.columns_mapColumns, hcolumns, List.map_map]
  rcases hgrown with hgrown | hzero
  · refine (map_changed_part (fun column hcolumn => ?_) k).trans
      (List.map_congr_left fun column hcolumn => congrArg (Sigma.mk column.1) (hsame column hcolumn))
    refine congrArg (Sigma.mk column.1) (Eq.trans ?_ (hsame column hcolumn).symm)
    have hle : column.2.size ≤ n := (hsize column hcolumn).trans_le hgrown
    exact hsize column hcolumn ▸ elements_rollback hop column.2 hle
  · rw [← hk, hzero]
    exact List.map_congr_left fun column hcolumn => congrArg (Sigma.mk column.1) (hsame column hcolumn)

/-- Columns that have shrunk before another one threw stay short. -/
theorem not_aligned_rollback (hop : Resizes op n)
    (h : (Channels.forEachColumn op r.fields soa.channels faults).succeeded = false) (hshrunk : n < soa.size)
    (hsome : (completed ((Channels.columns r.fields soa.channels).map (Channels.actionsOf op)) faults).1 ≠ 0) :
    ¬ (DynSoA.mk (truncateDynStorage (Channels.forEachColumn op r.fields soa.channels faults).state soa.size) soa.size).Aligned := by
  obtain ⟨k, hlt, hk, hcolumns⟩ := Channels.columns_of_failed h
  intro hdone
  rw [aligned_iff, truncateDynStorage, Channels.columns_mapColumns, hcolumns] at hdone
  cases hlist : Channels.columns r.fields soa.channels with
  | nil => exact absurd hlt (by rw [hlist]; exact Nat.not_lt_zero k)
  | cons first others =>
    obtain ⟨k, rfl⟩ := Nat.exists_eq_succ_of_ne_zero (hk ▸ hsome)
    rw [hlist] at hdone
    have hfirst := hdone _ (List.mem_cons_self ..)
    have hsize : (Vec.popBack^[(op first.1 first.2).result.size - soa.size] (op first.1 first.2).result).size = soa.size := hfirst
    rw [hop.size, Nat.sub_eq_zero_of_le (Nat.le_of_lt hshrunk)] at hsize
    exact absurd ((hop.size first.1 first.2).symm.trans hsize) (Nat.ne_of_lt hshrunk)

end Resize

/-- A shrinking value-initialised resize in which the value of a leaf after the first throws first. -/
def ShrinkFailsLate (soa : DynSoA r Elem) (n : ℕ) (initialization : Initialization) (faults : Faults) : Prop :=
  initialization = .valueInitialize ∧ n < soa.size ∧ faults.head? ≠ some true ∧
    true ∈ faults.take r.fields.leafPaths.length

variable [∀ type, Inhabited (Elem type)] {initialization : Initialization} {fresh : ∀ type, ℕ → Elem type}

/-- The two walks of `resize` as one. -/
theorem resize_of_check (h : n < UInt32.size) :
    soa.resize n initialization fresh faults =
      if (Channels.forEachColumn (resizeColumn n initialization fresh) r.fields soa.channels faults).succeeded then
        ⟨true, ⟨(Channels.forEachColumn (resizeColumn n initialization fresh) r.fields soa.channels faults).state, n⟩,
          (Channels.forEachColumn (resizeColumn n initialization fresh) r.fields soa.channels faults).faults⟩
      else
        ⟨false, ⟨truncateDynStorage
            (Channels.forEachColumn (resizeColumn n initialization fresh) r.fields soa.channels faults).state soa.size, soa.size⟩,
          (Channels.forEachColumn (resizeColumn n initialization fresh) r.fields soa.channels faults).faults⟩ := by
  unfold DynSoA.resize checkSize
  rw [if_pos (decide_eq_true h)]
  cases initialization <;> rfl

theorem resize_of_not_check (h : ¬ n < UInt32.size) : soa.resize n initialization fresh faults = ⟨false, soa, faults⟩ := by
  unfold DynSoA.resize checkSize
  rw [if_neg (by rwa [decide_eq_true_iff])]

/-- Shrinking constructs one value for each column, or nothing. -/
theorem actions_resizeColumn_of_lt (haligned : soa.Aligned) (hshrunk : n < soa.size) :
    (Channels.columns r.fields soa.channels).map (Channels.actionsOf (resizeColumn n initialization fresh)) =
      List.replicate r.fields.leafPaths.length (if initialization = .valueInitialize then 1 else 0) := by
  refine List.eq_replicate_iff.mpr ⟨(List.length_map _).trans (Channels.length_columns _ _), ?_⟩
  refine List.forall_mem_map.mpr fun column hcolumn => ?_
  have hle : n ≤ column.2.size := (Nat.le_of_lt hshrunk).trans_eq (aligned_iff.mp haligned column hcolumn).symm
  cases initialization with
  | valueInitialize => exact congrArg (1 + ·) (Vec.actions_resize_of_le hle _)
  | uninitialized => exact Vec.actions_resize_of_le hle _

/-- How far a shrinking `resize` comes. -/
theorem shrinkFailsLate_iff (fresh : ∀ type, ℕ → Elem type) (haligned : soa.Aligned) (hshrunk : n < soa.size) :
    ShrinkFailsLate soa n initialization faults ↔
      (Channels.forEachColumn (resizeColumn n initialization fresh) r.fields soa.channels faults).succeeded = false ∧
        (completed ((Channels.columns r.fields soa.channels).map
          (Channels.actionsOf (resizeColumn n initialization fresh))) faults).1 ≠ 0 := by
  have hwalked := (Channels.walked_forEachColumn (resizeColumn n initialization fresh) r.fields soa.channels faults).succeeded_iff
  rw [actions_resizeColumn_of_lt haligned hshrunk, Channels.length_columns] at hwalked
  rw [actions_resizeColumn_of_lt haligned hshrunk, ← Bool.not_eq_true, hwalked, ShrinkFailsLate]
  cases initialization with
  | uninitialized =>
    have hall : (completed (List.replicate r.fields.leafPaths.length 0) faults).1 = r.fields.leafPaths.length :=
      (completed_of_no_actions fun k hk => List.eq_of_mem_replicate hk).trans List.length_replicate
    exact iff_of_false (fun h => absurd h.1 (by decide)) fun h => h.1 hall
  | valueInitialize =>
    rw [if_pos rfl, completed_replicate_one, not_not, and_iff_right rfl, and_iff_right hshrunk, and_comm]
    refine and_congr_right fun hthrows => ?_
    cases hlength : r.fields.leafPaths.length with
    | zero => exact absurd hthrows (by rw [hlength]; simp)
    | succ count => rw [Ne, Ne, completed_replicate_one_eq_zero]

/-- `resize`, where it returns. -/
theorem resize_succeeded (haligned : soa.Aligned) (h : (soa.resize n initialization fresh faults).succeeded = true) :
    (soa.resize n initialization fresh faults).state.Aligned ∧
      (soa.resize n initialization fresh faults).state.size = n ∧ n < UInt32.size ∧
        (soa.resize n initialization fresh faults).state.firstRows (min soa.size n) = soa.firstRows (min soa.size n) := by
  by_cases hcheck : n < UInt32.size
  · rw [resize_of_check hcheck] at h ⊢
    split at h
    · next hresized =>
      rw [if_pos hresized]
      exact ⟨aligned_of_resized (resizes_resizeColumn _ _ _) hresized, rfl, hcheck,
        firstRows_of_resized (resizes_resizeColumn _ _ _) haligned hresized⟩
    · exact absurd h Bool.false_ne_true
  · rw [resize_of_not_check hcheck] at h
    exact absurd h Bool.false_ne_true

/-- `resize`, where it throws. -/
theorem resize_failed (haligned : soa.Aligned) (h : (soa.resize n initialization fresh faults).succeeded = false)
    (hlate : ¬ ShrinkFailsLate soa n initialization faults) :
    SameRows soa (soa.resize n initialization fresh faults).state := by
  by_cases hcheck : n < UInt32.size
  · rw [resize_of_check hcheck] at h ⊢
    split at h
    · exact absurd h.symm Bool.false_ne_true
    · next hresized =>
      rw [if_neg hresized]
      have hthrew := Bool.eq_false_iff.mpr hresized
      refine sameRows_rollback (resizes_resizeColumn _ _ _) haligned hthrew ?_
      rcases le_or_gt soa.size n with hgrown | hshrunk
      · exact Or.inl hgrown
      · refine Or.inr (not_not.mp fun hsome => hlate ?_)
        exact (shrinkFailsLate_iff fresh haligned hshrunk).mpr ⟨hthrew, hsome⟩
  · rw [resize_of_not_check hcheck]
    exact SameRows.refl soa

/-- **The defect**: some columns are short, and `size()` is as before. -/
theorem resize_late (fresh : ∀ type, ℕ → Elem type) (haligned : soa.Aligned) (hbound : soa.size < UInt32.size)
    (hlate : ShrinkFailsLate soa n initialization faults) :
    (soa.resize n initialization fresh faults).succeeded = false ∧
      ¬ (soa.resize n initialization fresh faults).state.Aligned := by
  have hshrunk := hlate.2.1
  obtain ⟨hthrew, hsome⟩ := (shrinkFailsLate_iff fresh haligned hshrunk).mp hlate
  rw [resize_of_check (hshrunk.trans hbound), if_neg (Bool.eq_false_iff.mp hthrew)]
  exact ⟨rfl, not_aligned_rollback (resizes_resizeColumn _ _ _) hthrew hshrunk hsome⟩

omit [∀ type, Inhabited (Elem type)] in
/-- A walk with an operation that leaves the elements alone. -/
theorem sameRows_forEachColumn {op : ∀ type, Vec (Elem type) → Transaction (Vec (Elem type))}
    (hop : ∀ type v, (op type v).result.elements = v.elements) :
    SameRows soa ⟨(Channels.forEachColumn op r.fields soa.channels faults).state, soa.size⟩ := by
  refine ⟨rfl, ?_⟩
  rw [rows, (Channels.walked_forEachColumn _ r.fields soa.channels faults).columns_eq]
  exact map_changed_part (fun column _ => congrArg (Sigma.mk column.1) (hop column.1 column.2)) _

omit [∀ type, Inhabited (Elem type)] in
/-- `reserve`, where it returns and where it throws. -/
theorem sameRows_reserve : SameRows soa (soa.reserve n faults).state := by
  unfold DynSoA.reserve
  split
  · exact sameRows_forEachColumn fun _ v => v.elements_reserve n
  · exact SameRows.refl soa

omit [∀ type, Inhabited (Elem type)] in
theorem sameRows_copy (h : soa.copy faults = some soa') : SameRows soa soa' := by
  unfold DynSoA.copy at h
  dsimp only at h
  split at h
  · obtain rfl := Option.some.inj h
    exact sameRows_forEachColumn fun _ _ => rfl
  · exact absurd h (by simp)

omit [∀ type, Inhabited (Elem type)] in
/-- A cleared container. -/
theorem aligned_clear : (DynSoA.mk (clearDynStorage soa.channels) 0 : DynSoA r Elem).Aligned := by
  rw [aligned_iff, clearDynStorage, Channels.columns_mapColumns]
  exact List.forall_mem_map.mpr fun _ _ => rfl

omit [∀ type, Inhabited (Elem type)] in
/-- `discardAndResize` has the size it is asked for, or none. -/
theorem discardAndResize_of_check (soa : DynSoA r Elem) (fresh : ∀ type, ℕ → Elem type) (faults : Faults)
    (h : n < UInt32.size) :
    (soa.discardAndResize n fresh faults).state.Aligned ∧
      (soa.discardAndResize n fresh faults).state.size =
        if (soa.discardAndResize n fresh faults).succeeded then n else 0 := by
  unfold DynSoA.discardAndResize checkSize
  rw [if_pos (decide_eq_true h)]
  dsimp only
  generalize hcleared : (DynSoA.mk (clearDynStorage soa.channels) 0 : DynSoA r Elem) = cleared
  have haligned : cleared.Aligned := hcleared ▸ aligned_clear
  have hchannels : clearDynStorage soa.channels = cleared.channels := congrArg DynSoA.channels hcleared
  have hsize : 0 = cleared.size := congrArg DynSoA.size hcleared
  rw [hchannels]
  split
  · next hresized => exact ⟨aligned_of_resized (resizes_resize fresh n) hresized, rfl⟩
  · next hresized =>
    have hthrew := Bool.eq_false_iff.mpr hresized
    have hrollback := sameRows_rollback (resizes_resize fresh n) haligned hthrew (Or.inl (hsize ▸ Nat.zero_le n))
    exact ⟨hsize ▸ hrollback.aligned haligned, rfl⟩

omit [∀ type, Inhabited (Elem type)] in
theorem discardAndResize_of_not_check (h : ¬ n < UInt32.size) :
    soa.discardAndResize n fresh faults = ⟨false, soa, faults⟩ := by
  unfold DynSoA.discardAndResize checkSize
  rw [if_neg (by rwa [decide_eq_true_iff])]

end Operations

end DynSoA

end LlamaLite
end Spearhed
