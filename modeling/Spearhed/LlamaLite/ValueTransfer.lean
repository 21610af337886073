import Spearhed.LlamaLite.DynSoA
import Spearhed.LlamaLite.LeafAssignment
import Spearhed.LlamaLite.View

/-!
# Value transfer

`copy_values` assigns the selected leaves of a destination row, one after the other, from a row of another
record or of the same storage.  `One` is a storage with one row: a particle is loaded into one for the
sub-record of a set, and `select_like` and `copy_values` store it back.

* `exists_copyValues`: what a copy changes, also when both handles point to one storage.
* `roundTrip_iff`: loading and storing changes the leaves of the set and nothing else, except where the
  sub-record does not have them.
-/

namespace Spearhed
namespace LlamaLite

open Channels

variable {Tag Leaf : Type} [DecidableEq Tag] {V : Leaf → Type}

/-- Which leaf types can be assigned from which, and what the assignment makes of a value. -/
structure Assignable (V : Leaf → Type) where
  convert : (dest src : Leaf) → Option (V src → V dest)
  /-- A leaf type is copied to itself. -/
  self : ∀ type, convert type type = some id

/-- `dest.getLeaf(p)[i] = value`. -/
def Assignable.assignRow (A : Assignable V) {n : ℕ} (i : Fin n) (value : Σ type, V type) (type : Leaf)
    (column : Rows V n type) : Option (Rows V n type) :=
  (A.convert type value.1).map fun f => Function.update column i (f value.2)

/-- What a source handle points to: another storage, or the storage of the destination. -/
inductive SourceStorage (V : Leaf → Type) (P : Record Tag Leaf) (n : ℕ) : Record Tag Leaf → ℕ → Type
  | other {Q : Record Tag Leaf} {m : ℕ} (channels : Channels (Rows V m) Q.fields) : SourceStorage V P n Q m
  | same : SourceStorage V P n P n

section CopyValues

variable {P Q : Record Tag Leaf} {n m : ℕ} {Storage Storage' : Type}

/-- What is in the source while the destination is being changed. -/
def SourceStorage.read : SourceStorage V P n Q m → Channels (Rows V n) P.fields → Channels (Rows V m) Q.fields
  | other channels, _ => channels
  | same, channels => channels

/-- The element of a span at the row of a handle; a row outside of the storage is not an element. -/
def rowOf (idx : Option UInt32) (n : ℕ) : Option (Fin n) :=
  idx.bind fun i => if h : i.toNat < n then some ⟨i.toNat, h⟩ else none

/-- `detail::CopyValuesCompatible`. -/
def copyValuesCompatible (A : Assignable V) (P Q : Record Tag Leaf) (destLeaves srcLeaves : RawAccessSet Tag) : Bool :=
  destLeaves.elements.all fun a =>
    Fields.hasPath a.toPath Q.fields && srcLeaves.contains a &&
      match P.fields.leafTypeAt a.toPath, Q.fields.leafTypeAt a.toPath with
      | some dest, some src => (A.convert dest src).isSome
      | _, _ => false

/-- The assignment of one leaf. -/
def copyLeaf (A : Assignable V) (source : SourceStorage V P n Q m) (destIdx srcIdx : Option UInt32)
    (channels : Channels (Rows V n) P.fields) (p : TagPath Tag) : Option (Channels (Rows V n) P.fields) := do
  let i ← rowOf destIdx n
  let j ← rowOf srcIdx m
  let value ← valueAt Q.fields (source.read channels) p j
  updateLeaf (A.assignRow i value) p P.fields channels

/-- `copy_values`, under its constraints: what is in the storage of `dest` afterwards. -/
def copyValues (A : Assignable V) (source : SourceStorage V P n Q m) (dest : View P Storage) (src : View Q Storage')
    (channels : Channels (Rows V n) P.fields) : Option (Channels (Rows V n) P.fields) :=
  if dest.readOnly = false ∧ copyValuesCompatible A P Q dest.access.leaves src.access.leaves = true then
    (dest.access.leaves.elements.map RecordAccess.toPath).foldlM (copyLeaf A source dest.idx src.idx) channels
  else none

/-- `select_like`, under its constraints. -/
def selectLike (dest : View P Storage) (model : View Q Storage') : Option (View P Storage) :=
  if hvalid : 0 < model.access.leaves.elements.length ∧ ValidAccessSetFor P model.access.leaves ∧
      model.access.leaves.le dest.access.leaves = true then
    dest.convert (accessSet P model.access.leaves hvalid.2.1) false
  else none

variable {A : Assignable V} {source : SourceStorage V P n Q m} {channels channels' : Channels (Rows V n) P.fields}
  {i : Fin n} {j : Fin m}

/-- Values that are not changed in the destination are not changed in the source. -/
theorem SourceStorage.valueAt_read {p : TagPath Tag}
    (h : ∀ k, valueAt P.fields channels' p k = valueAt P.fields channels p k) (j : Fin m) :
    valueAt Q.fields (source.read channels') p j = valueAt Q.fields (source.read channels) p j := by
  cases source with
  | other => rfl
  | same => exact h j

/-- The leaf has been assigned. -/
def Assigned (A : Assignable V) (dest src : Option (Σ type, V type)) : Prop :=
  ∃ type value f, src = some value ∧ A.convert type value.1 = some f ∧ dest = some ⟨type, f value.2⟩

/-- Between leaves of one type an assignment is a copy. -/
theorem Assigned.eq {dest src : Option (Σ type, V type)} (h : Assigned A dest src)
    (htype : dest.map Sigma.fst = src.map Sigma.fst) : dest = src := by
  obtain ⟨type, ⟨type', value⟩, f, rfl, hf, rfl⟩ := h
  obtain rfl : type = type' := Option.some.inj htype
  obtain rfl := Option.some.inj ((A.self type).symm.trans hf)
  rfl

/-- What a copy does. -/
structure Copied (A : Assignable V) (source : SourceStorage V P n Q m) (paths : List (TagPath Tag)) (i : Fin n) (j : Fin m)
    (channels channels' : Channels (Rows V n) P.fields) : Prop where
  /-- The leaves are assigned from what the source was before the copy. -/
  assigned : ∀ p ∈ paths, Assigned A (valueAt P.fields channels' p i) (valueAt Q.fields (source.read channels) p j)
  others : ∀ p k, ¬ (p ∈ paths ∧ k = i) → valueAt P.fields channels' p k = valueAt P.fields channels p k

/-- The leaf can be assigned. -/
def CanAssign (A : Assignable V) (P Q : Record Tag Leaf) (p : TagPath Tag) : Prop :=
  ∃ dest src, P.fields.leafTypeAt p = some dest ∧ Q.fields.leafTypeAt p = some src ∧ (A.convert dest src).isSome

/-- One assignment. -/
theorem exists_copyLeaf (source : SourceStorage V P n Q m) {destIdx srcIdx : Option UInt32} (hi : rowOf destIdx n = some i) (hj : rowOf srcIdx m = some j)
    (channels : Channels (Rows V n) P.fields) {p : TagPath Tag} (hp : CanAssign A P Q p) :
    ∃ channels', copyLeaf A source destIdx srcIdx channels p = some channels' ∧ Copied A source [p] i j channels channels' := by
  obtain ⟨type, type', hdest, hsrc, hconvert⟩ := hp
  obtain ⟨f, hf⟩ := Option.isSome_iff_exists.mp hconvert
  obtain ⟨⟨type', value⟩, hvalue, rfl⟩ := Option.map_eq_some_iff.mp
    ((map_fst_valueAt Q.fields (source.read channels) p j).trans hsrc)
  obtain ⟨⟨type, column⟩, hcolumn, rfl⟩ := Option.map_eq_some_iff.mp ((map_fst_resolveLeaf P.fields channels p).trans hdest)
  have hassign : A.assignRow i ⟨type', value⟩ type column = some (Function.update column i (f value)) := by
    rw [Assignable.assignRow, hf]
    rfl
  obtain ⟨channels', hchannels'⟩ := exists_updateLeaf hcolumn hassign
  obtain ⟨⟨t, before, after, hbefore, hafter, hresolve⟩, hothers⟩ := resolveLeaf_updateLeaf hchannels'
  obtain ⟨rfl, hbefore⟩ := Sigma.mk.inj (Option.some.inj (hbefore.symm.trans hcolumn))
  obtain rfl := eq_of_heq hbefore
  obtain rfl := Option.some.inj (hafter.symm.trans hassign)
  have hnew : ∀ k, valueAt P.fields channels' p k = some ⟨t, Function.update before i (f value) k⟩ := fun k => by
    rw [valueAt, hresolve]
    rfl
  refine ⟨channels', ?_, fun q hq => ?_, fun q k hqk => ?_⟩
  · rw [copyLeaf, hi, hj, Option.bind_eq_bind, Option.bind_some, Option.bind_eq_bind, Option.bind_some, hvalue]
    exact hchannels'
  · obtain rfl := List.mem_singleton.mp hq
    refine ⟨t, ⟨type', value⟩, f, hvalue, hf, ?_⟩
    rw [hnew, Function.update_self]
  · by_cases hq : q = p
    · subst hq
      have hk : k ≠ i := fun heq => hqk ⟨List.mem_singleton_self _, heq⟩
      rw [hnew, Function.update_of_ne hk, valueAt, hcolumn]
      rfl
    · rw [valueAt, valueAt, hothers q hq]

/-- All assignments. -/
theorem exists_foldlM_copyLeaf {destIdx srcIdx : Option UInt32} (hi : rowOf destIdx n = some i) (hj : rowOf srcIdx m = some j)
    {paths : List (TagPath Tag)} (hnodup : paths.Nodup) (hpaths : ∀ p ∈ paths, CanAssign A P Q p)
    (channels : Channels (Rows V n) P.fields) :
    ∃ channels', paths.foldlM (copyLeaf A source destIdx srcIdx) channels = some channels' ∧
      Copied A source paths i j channels channels' := by
  induction paths generalizing channels with
  | nil => exact ⟨channels, rfl, nofun, fun _ _ _ => rfl⟩
  | cons p paths ih =>
    obtain ⟨hp, hnodup⟩ := List.nodup_cons.mp hnodup
    obtain ⟨middle, hmiddle, hfirst⟩ := exists_copyLeaf source hi hj channels (hpaths p List.mem_cons_self)
    obtain ⟨channels', hchannels', hrest⟩ := ih hnodup (fun q hq => hpaths q (List.mem_cons_of_mem _ hq)) middle
    refine ⟨channels', ?_, fun q hq => ?_, fun q k hqk => ?_⟩
    · rw [List.foldlM_cons, hmiddle]
      exact hchannels'
    · rcases List.mem_cons.mp hq with rfl | hq
      · rw [hrest.others q i fun h => hp h.1]
        exact hfirst.assigned q (List.mem_singleton_self _)
      · -- the leaf was not changed before, in the destination or in the source
        have hne : q ≠ p := fun heq => hp (heq ▸ hq)
        have hsame : ∀ k, valueAt P.fields middle q k = valueAt P.fields channels q k := fun k =>
          hfirst.others q k fun h => hne (List.mem_singleton.mp h.1)
        rw [← SourceStorage.valueAt_read hsame]
        exact hrest.assigned q hq
    · rw [hrest.others q k fun h => hqk ⟨List.mem_cons_of_mem _ h.1, h.2⟩]
      exact hfirst.others q k fun h => hqk ⟨List.mem_singleton.mp h.1 ▸ List.mem_cons_self, h.2⟩

theorem canAssign_of_compatible {destLeaves srcLeaves : RawAccessSet Tag}
    (h : copyValuesCompatible A P Q destLeaves srcLeaves = true) {p : TagPath Tag}
    (hp : p ∈ destLeaves.elements.map RecordAccess.toPath) : CanAssign A P Q p := by
  obtain ⟨a, ha, rfl⟩ := List.mem_map.mp hp
  have hall := (Bool.and_eq_true_iff.mp (List.all_eq_true.mp h a ha)).2
  cases hdest : P.fields.leafTypeAt a.toPath with
  | none =>
    rw [hdest] at hall
    cases hall
  | some dest =>
    cases hsrc : Q.fields.leafTypeAt a.toPath with
    | none =>
      rw [hdest, hsrc] at hall
      cases hall
    | some src =>
      rw [hdest, hsrc] at hall
      exact ⟨dest, src, hdest, hsrc, hall⟩

/-- The paths of an access set are listed once. -/
theorem AccessSet.nodup_paths (s : AccessSet P) : (s.leaves.elements.map RecordAccess.toPath).Nodup := by
  refine (List.nodup_map_iff_inj_on s.leaves.nodup).mpr fun a ha b hb hab => ?_
  obtain ⟨p, rfl, -⟩ := s.canonical.onlyLeaves a ha
  obtain ⟨q, rfl, -⟩ := s.canonical.onlyLeaves b hb
  exact congrArg _ hab

theorem AccessSet.mem_paths {s : AccessSet P} {p : TagPath Tag} :
    p ∈ s.leaves.elements.map RecordAccess.toPath ↔ .path p ∈ s.leaves.elements := by
  rw [List.mem_map]
  constructor
  · rintro ⟨a, ha, rfl⟩
    obtain ⟨q, rfl, -⟩ := s.canonical.onlyLeaves a ha
    exact ha
  · exact fun h => ⟨_, h, rfl⟩

/-- **A copy assigns the selected leaves of one row**, from what they were before, and nothing else. -/
theorem exists_copyValues (source : SourceStorage V P n Q m) (dest : View P Storage) {src : View Q Storage'} (hconst : dest.readOnly = false)
    (hcompatible : copyValuesCompatible A P Q dest.access.leaves src.access.leaves = true)
    (hi : rowOf dest.idx n = some i) (hj : rowOf src.idx m = some j) (channels : Channels (Rows V n) P.fields) :
    ∃ channels', copyValues A source dest src channels = some channels' ∧
      Copied A source (dest.access.leaves.elements.map RecordAccess.toPath) i j channels channels' := by
  rw [copyValues, if_pos ⟨hconst, hcompatible⟩]
  exact exists_foldlM_copyLeaf hi hj dest.access.nodup_paths (fun p hp => canAssign_of_compatible hcompatible hp) channels

end CopyValues

/-! ## Loading and storing a row -/

section RoundTrip

variable {r sub : Record Tag Leaf} {s : RawAccessSet Tag} {n : ℕ} {Storage : Type} {A : Assignable V}

/-- `one[0]`. -/
def oneView (sub : Record Tag Leaf) : View sub Unit := { View.whole sub () false with idx := some 0 }

/-- The constructor `One(ViewIndexed)`, or its assignment operator: copies into what `one` is before. -/
def loadOne (A : Assignable V) (sub : Record Tag Leaf) (particle : View r Storage) (channels : Channels (Rows V n) r.fields)
    (one : Channels (Rows V 1) sub.fields) : Option (Channels (Rows V 1) sub.fields) :=
  copyValues A (.other channels) (oneView sub) particle one

/-- Storing it back: the caller skips records without leaves, which `select_like` rejects. -/
def storeOne (A : Assignable V) (sub : Record Tag Leaf) (one : Channels (Rows V 1) sub.fields) (particle : View r Storage)
    (channels : Channels (Rows V n) r.fields) : Option (Channels (Rows V n) r.fields) :=
  if 0 < (oneView sub).access.leaves.elements.length then
    (selectLike particle (oneView sub)).bind fun dest => copyValues A (.other one) dest (oneView sub) channels
  else some channels

/-- Every particle row can be loaded and stored back unchanged, and what is stored instead replaces the
leaves of the set at that row. -/
def RoundTrip (A : Assignable V) (r : Record Tag Leaf) (s : RawAccessSet Tag) : Prop :=
  ∀ (sub : Record Tag Leaf), subRecordFromSet r s = some sub.fields →
  ∀ {Storage : Type} {n : ℕ} (channels : Channels (Rows V n) r.fields) (particle : View r Storage) (i : Fin n),
    particle.readOnly = false → rowOf particle.idx n = some i →
    (∀ p, sub.fields.IsLeaf p → .path p ∈ particle.access.leaves.elements) →
      (∀ start, ∃ one, loadOne A sub particle channels start = some one ∧
        (∀ p, sub.fields.IsLeaf p → valueAt sub.fields one p 0 = valueAt r.fields channels p i) ∧
        storeOne A sub one particle channels = some channels) ∧
      ∀ one, ∃ channels', storeOne A sub one particle channels = some channels' ∧
        ∀ p k, valueAt r.fields channels' p k =
          if .path p ∈ (leafSet r s).elements ∧ k = i then valueAt sub.fields one p 0 else valueAt r.fields channels p k

theorem mem_oneView {p : TagPath Tag} : .path p ∈ (oneView sub).access.leaves.elements ↔ sub.fields.IsLeaf p := by
  constructor
  · intro hp
    obtain ⟨q, hq, hleaf⟩ := (AccessSet.all sub).canonical.onlyLeaves _ hp
    exact RecordAccess.path.inj hq ▸ hleaf
  · intro hp
    have hmem : (⟨p, hp⟩ : sub.Leaves) ∈ (AccessSet.all sub).denote := by
      rw [AccessSet.denote_all]
      exact Set.mem_univ _
    exact AccessSet.mem_denote.mp hmem

theorem rowOf_oneView (sub : Record Tag Leaf) : rowOf (oneView sub).idx 1 = some 0 := rfl

/-- The leaves of a sub-record are leaves of the record, of the same type. -/
theorem leaf_of_extracted (h : r.fields.Extracted (s.elements.map RecordAccess.toPath) sub.fields) {p : TagPath Tag}
    (hp : sub.fields.IsLeaf p) : r.fields.IsLeaf p ∧ sub.fields.leafTypeAt p = r.fields.leafTypeAt p := by
  have hmem := (Fields.mem_leafPaths sub.unique).mpr hp
  rw [h.leafPaths, List.mem_filter] at hmem
  exact ⟨(Fields.mem_leafPaths r.unique).mp hmem.1, by rw [h.types, if_pos hmem.2]⟩

/-- Leaves of one type can be copied between records. -/
theorem compatible_of_leaves {P Q : Record Tag Leaf} {destLeaves : AccessSet P} {srcLeaves : RawAccessSet Tag}
    (h : ∀ p, .path p ∈ destLeaves.leaves.elements →
      Q.fields.IsLeaf p ∧ P.fields.leafTypeAt p = Q.fields.leafTypeAt p ∧ .path p ∈ srcLeaves.elements) :
    copyValuesCompatible A P Q destLeaves.leaves srcLeaves = true := by
  refine List.all_eq_true.mpr fun a ha => ?_
  obtain ⟨p, rfl, -⟩ := destLeaves.canonical.onlyLeaves a ha
  obtain ⟨hleaf, htype, hmem⟩ := h p ha
  obtain ⟨type, htype'⟩ := Fields.isLeaf_iff_leafTypeAt.mp hleaf
  rw [Bool.and_eq_true, Bool.and_eq_true]
  refine ⟨⟨Fields.hasPath_of_isLeaf hleaf, ?_⟩, ?_⟩
  · exact decide_eq_true hmem
  · change (match P.fields.leafTypeAt p, Q.fields.leafTypeAt p with
      | some dest, some src => (A.convert dest src).isSome
      | _, _ => false) = true
    rw [htype, htype']
    exact congrArg Option.isSome (A.self type)

/-- Copies between leaves of one type. -/
theorem Copied.eq {P Q : Record Tag Leaf} {m : ℕ} {source : SourceStorage V P n Q m} {paths : List (TagPath Tag)} {i : Fin n}
    {j : Fin m} {channels channels' : Channels (Rows V n) P.fields} (h : Copied A source paths i j channels channels')
    {p : TagPath Tag} (hp : p ∈ paths) (htype : P.fields.leafTypeAt p = Q.fields.leafTypeAt p) :
    valueAt P.fields channels' p i = valueAt Q.fields (source.read channels) p j :=
  (h.assigned p hp).eq (by rw [map_fst_valueAt, map_fst_valueAt, htype])

theorem exists_loadOne (h : r.fields.Extracted (s.elements.map RecordAccess.toPath) sub.fields)
    (channels : Channels (Rows V n) r.fields) {particle : View r Storage} {i : Fin n} (hi : rowOf particle.idx n = some i)
    (haccess : ∀ p, sub.fields.IsLeaf p → .path p ∈ particle.access.leaves.elements)
    (start : Channels (Rows V 1) sub.fields) :
    ∃ one, loadOne A sub particle channels start = some one ∧
      ∀ p, sub.fields.IsLeaf p → valueAt sub.fields one p 0 = valueAt r.fields channels p i := by
  have hcompatible : copyValuesCompatible A sub r (oneView sub).access.leaves particle.access.leaves = true := by
    refine compatible_of_leaves fun p hp => ?_
    obtain ⟨hleaf, htype⟩ := leaf_of_extracted h (mem_oneView.mp hp)
    exact ⟨hleaf, htype, haccess p (mem_oneView.mp hp)⟩
  obtain ⟨one, hone, hcopied⟩ := exists_copyValues (.other channels) (oneView sub) rfl hcompatible
    (rowOf_oneView sub) hi start
  refine ⟨one, hone, fun p hp => ?_⟩
  exact hcopied.eq (AccessSet.mem_paths.mpr (mem_oneView.mpr hp)) (leaf_of_extracted h hp).2

theorem exists_storeOne (h : r.fields.Extracted (s.elements.map RecordAccess.toPath) sub.fields)
    (channels : Channels (Rows V n) r.fields) {particle : View r Storage} {i : Fin n} (hconst : particle.readOnly = false)
    (hi : rowOf particle.idx n = some i)
    (haccess : ∀ p, sub.fields.IsLeaf p → .path p ∈ particle.access.leaves.elements)
    (one : Channels (Rows V 1) sub.fields) :
    ∃ channels', storeOne A sub one particle channels = some channels' ∧
      (∀ p, sub.fields.IsLeaf p → valueAt r.fields channels' p i = valueAt sub.fields one p 0) ∧
      ∀ p k, ¬ (sub.fields.IsLeaf p ∧ k = i) → valueAt r.fields channels' p k = valueAt r.fields channels p k := by
  unfold storeOne
  split
  · next hlength =>
    have hraw : OnlyLeaves r (oneView sub).access.leaves := by
      intro a ha
      obtain ⟨p, rfl, hp⟩ := (oneView sub).access.canonical.onlyLeaves a ha
      exact ⟨p, rfl, (leaf_of_extracted h hp).1⟩
    have hle : (oneView sub).access.leaves.le particle.access.leaves = true := by
      refine TypeSet.le_iff.mpr fun a ha => ?_
      obtain ⟨p, rfl, hp⟩ := (oneView sub).access.canonical.onlyLeaves a ha
      exact haccess p hp
    have hmem : ∀ p, .path p ∈ (accessSet r _ hraw.valid).leaves.elements ↔ sub.fields.IsLeaf p := by
      intro p
      constructor
      · intro hp
        obtain ⟨q, hq, hleaf⟩ := (accessSet r _ hraw.valid).canonical.onlyLeaves _ hp
        obtain rfl := RecordAccess.path.inj hq
        exact mem_oneView.mp ((AccessSet.mem_denote_accessSet hraw).mp (AccessSet.mem_denote (p := ⟨p, hleaf⟩).mpr hp))
      · intro hp
        have hdenote := (AccessSet.mem_denote_accessSet (p := ⟨p, (leaf_of_extracted h hp).1⟩) hraw).mpr (mem_oneView.mpr hp)
        exact AccessSet.mem_denote.mp hdenote
    have hconvert : (accessSet r _ hraw.valid).le particle.access = true := by
      refine TypeSet.le_iff.mpr fun a ha => ?_
      obtain ⟨p, rfl, -⟩ := (accessSet r _ hraw.valid).canonical.onlyLeaves a ha
      exact haccess p ((hmem p).mp ha)
    rw [selectLike, dif_pos ⟨hlength, hraw.valid, hle⟩, View.convert, dif_pos hconvert, Option.bind_some]
    have hcompatible : copyValuesCompatible A r sub (accessSet r _ hraw.valid).leaves (oneView sub).access.leaves = true := by
      refine compatible_of_leaves fun p hp => ?_
      have hp := (hmem p).mp hp
      exact ⟨hp, (leaf_of_extracted h hp).2.symm, mem_oneView.mpr hp⟩
    obtain ⟨channels', hchannels', hcopied⟩ := exists_copyValues (.other one)
      { particle with
        access := accessSet r _ hraw.valid
        readOnly := particle.readOnly || false
        within := View.le_of_le_within hconvert }
      (by rw [Bool.or_false]; exact hconst) hcompatible hi (rowOf_oneView sub) channels
    refine ⟨channels', hchannels', fun p hp => ?_, fun p k hpk => ?_⟩
    · exact hcopied.eq (AccessSet.mem_paths.mpr ((hmem p).mpr hp)) (leaf_of_extracted h hp).2.symm
    · exact hcopied.others p k fun hp => hpk ⟨(hmem p).mp (AccessSet.mem_paths.mp hp.1), hp.2⟩
  · next hlength =>
    refine ⟨channels, rfl, fun p hp => ?_, fun _ _ _ => rfl⟩
    exact absurd (List.length_pos_of_mem (mem_oneView.mpr hp)) hlength

/-- The leaves of a set that the sub-record has. -/
theorem mem_leafSet_iff (h : r.fields.Extracted (s.elements.map RecordAccess.toPath) sub.fields)
    (hsame : ∀ p ∈ r.fields.leafPaths, (selects (s.elements.map RecordAccess.toPath) p = true ↔ selectsLeaf p s = true))
    (p : TagPath Tag) : .path p ∈ (leafSet r s).elements ↔ sub.fields.IsLeaf p := by
  rw [← Fields.mem_leafPaths sub.unique, h.leafPaths, List.mem_filter, leafSet, mem_makeLeafSet]
  constructor
  · rintro ⟨q, hq, hleaf, hselects⟩
    obtain rfl := RecordAccess.path.inj hq
    have hmem := (Fields.mem_leafPaths r.unique).mpr hleaf
    exact ⟨hmem, (hsame p hmem).mpr hselects⟩
  · rintro ⟨hmem, hselects⟩
    exact ⟨p, rfl, (Fields.mem_leafPaths r.unique).mp hmem, (hsame p hmem).mp hselects⟩

/-- **When the round trip changes the leaves of the set**: when the sub-record has them. -/
theorem roundTrip_iff [∀ type, Inhabited (V type)] (A : Assignable V) (hvalid : ValidAccessSetFor r s) :
    RoundTrip A r s ↔
      (.path [] ∉ s.elements ∨ ∀ p, r.fields.IsLeaf p → ∃ a ∈ s.elements, a ≠ .path [] ∧ a.toPath <+: p) := by
  obtain ⟨sub, htaken, h⟩ := exists_subRecord hvalid
  rw [← selects_eq_selectsLeaf_iff]
  constructor
  · intro hround p hp
    refine ⟨fun hselects => ?_, fun hselects => ?_⟩
    · obtain ⟨a, ha, -, hprefix⟩ := selects_elements_iff.mp hselects
      exact selectsLeaf_iff.mpr ⟨a, ha, hprefix⟩
    · -- a leaf of the set is assigned a value of the sub-record, which has the leaf then
      have hleaf := (Fields.mem_leafPaths r.unique).mp hp
      obtain ⟨-, hmodify⟩ := hround sub htaken (Channels.replicate (fun _ _ => default) r.fields)
        { View.whole r () false with idx := some 0 } (0 : Fin 1) rfl rfl
        fun p hp => mem_oneView.mpr (leaf_of_extracted h hp).1
      obtain ⟨channels', -, hvalues⟩ := hmodify (Channels.replicate (fun _ _ => default) sub.fields)
      have hvalue := hvalues p 0
      rw [if_pos ⟨mem_makeLeafSet.mpr ⟨p, rfl, hleaf, hselects⟩, rfl⟩] at hvalue
      have htype := congrArg (Option.map Sigma.fst) hvalue
      rw [map_fst_valueAt, map_fst_valueAt] at htype
      obtain ⟨type, htype'⟩ := Fields.isLeaf_iff_leafTypeAt.mp hleaf
      have hsub : sub.fields.IsLeaf p := Fields.isLeaf_iff_leafTypeAt.mpr ⟨type, htype.symm.trans htype'⟩
      have hmem := (Fields.mem_leafPaths sub.unique).mpr hsub
      rw [h.leafPaths, List.mem_filter] at hmem
      exact hmem.2
  · intro hsame sub' htaken' Storage n channels particle i hconst hi haccess
    have hsub : sub' = sub := by
      cases sub
      cases sub'
      obtain rfl := Option.some.inj (htaken'.symm.trans htaken)
      rfl
    subst hsub
    refine ⟨fun start => ?_, fun one => ?_⟩
    · obtain ⟨one, hone, hloaded⟩ := exists_loadOne h channels hi haccess start
      obtain ⟨channels', hchannels', hself, hothers⟩ := exists_storeOne h channels hconst hi haccess one
      refine ⟨one, hone, hloaded, hchannels'.trans (congrArg some (ext_valueAt r.unique fun p k => ?_))⟩
      by_cases hpk : sub'.fields.IsLeaf p ∧ k = i
      · obtain ⟨hp, rfl⟩ := hpk
        rw [hself p hp, hloaded p hp]
      · exact hothers p k hpk
    · obtain ⟨channels', hchannels', hself, hothers⟩ := exists_storeOne h channels hconst hi haccess one
      refine ⟨channels', hchannels', fun p k => ?_⟩
      have hmem := mem_leafSet_iff h hsame p
      split
      · next hpk =>
        obtain ⟨hp, rfl⟩ := hpk
        exact hself p (hmem.mp hp)
      · next hpk => exact hothers p k fun hp => hpk ⟨hmem.mpr hp.1, hp.2⟩

end RoundTrip

/-- **Value transfer between records.**  Copies assign the selected leaves of a row and change nothing else;
loading and storing a row changes the leaves of the set exactly when the sub-record has them. -/
theorem value_transfer [∀ type, Inhabited (V type)] (A : Assignable V) :
    (∀ {P Q : Record Tag Leaf} {n m : ℕ} {Storage Storage' : Type} (source : SourceStorage V P n Q m) (dest : View P Storage)
      (src : View Q Storage') (i : Fin n) (j : Fin m) (channels : Channels (Rows V n) P.fields), dest.readOnly = false →
      copyValuesCompatible A P Q dest.access.leaves src.access.leaves = true → rowOf dest.idx n = some i →
      rowOf src.idx m = some j → ∃ channels', copyValues A source dest src channels = some channels' ∧
        (∀ p, .path p ∈ dest.access.leaves.elements →
          Assigned A (valueAt P.fields channels' p i) (valueAt Q.fields (source.read channels) p j) ∧
            (P.fields.leafTypeAt p = Q.fields.leafTypeAt p →
              valueAt P.fields channels' p i = valueAt Q.fields (source.read channels) p j)) ∧
        ∀ p k, ¬ (.path p ∈ dest.access.leaves.elements ∧ k = i) →
          valueAt P.fields channels' p k = valueAt P.fields channels p k) ∧
    ∀ (r : Record Tag Leaf) (s : RawAccessSet Tag), ValidAccessSetFor r s →
      (RoundTrip A r s ↔
        (.path [] ∉ s.elements ∨ ∀ p, r.fields.IsLeaf p → ∃ a ∈ s.elements, a ≠ .path [] ∧ a.toPath <+: p)) := by
  refine ⟨fun source dest src i j channels hconst hcompatible hi hj => ?_, fun r s hvalid => roundTrip_iff A hvalid⟩
  obtain ⟨channels', hchannels', hcopied⟩ := exists_copyValues source dest hconst hcompatible hi hj channels
  refine ⟨channels', hchannels', fun p hp => ?_, fun p k hpk => ?_⟩
  · have hp := AccessSet.mem_paths.mpr hp
    exact ⟨hcopied.assigned p hp, hcopied.eq hp⟩
  · exact hcopied.others p k fun hp => hpk ⟨AccessSet.mem_paths.mp hp.1, hp.2⟩

/-- A copy between records with the fields in different orders, and a round trip for one field. -/
theorem value_transfer_twoFields :
    let A : Assignable fun _ : Unit => ℕ := ⟨fun _ _ => some id, fun _ => rfl⟩
    let P : Record ℕ Unit := ⟨.leaf 0 () (.leaf 1 () .nil), by decide⟩
    let Q : Record ℕ Unit := ⟨.leaf 1 () (.leaf 0 () .nil), by decide⟩
    let source : SourceStorage (fun _ => ℕ) P 1 Q 1 := .other (fun _ => 10, fun _ => 20, ())
    (∃ channels', copyValues A source (oneView P) (oneView Q) (fun _ => 0, fun _ => 0, ()) = some channels' ∧
      valueAt _ channels' [0] 0 = some ⟨(), 20⟩ ∧ valueAt _ channels' [1] 0 = some ⟨(), 10⟩) ∧
      RoundTrip A P ⟨[.tag 0], by decide⟩ := by
  intro A P Q source
  have htransfer := @value_transfer ℕ _ _ _ _ A
  obtain ⟨channels', hcopied, hassigned, -⟩ := htransfer.1 (P := P) (Q := Q) (n := 1) (m := 1)
    source (oneView P) (oneView Q) 0 0 (fun _ => 0, fun _ => 0, ()) rfl (by decide) rfl rfl
  refine ⟨⟨channels', hcopied, ?_, ?_⟩, (htransfer.2 P ⟨[.tag 0], by decide⟩ (by decide)).mpr (Or.inl (by decide))⟩
  · exact (hassigned [0] (by decide)).2 rfl
  · exact (hassigned [1] (by decide)).2 rfl

/-- With the root path in the set, the sub-record does not have the leaves that only the root path selects. -/
theorem not_roundTrip_of_root :
    ∃ (r : Record ℕ Unit) (s : RawAccessSet ℕ), ValidAccessSetFor r s ∧ s.elements = [.path [], .path [0]] ∧
      (leafSet r s).elements = [.path [0], .path [1]] ∧ subRecordFromSet r s = some (.leaf 0 () .nil) ∧
        ¬ RoundTrip (V := fun _ => ℕ) ⟨fun _ _ => some id, fun _ => rfl⟩ r s := by
  refine ⟨⟨.leaf 0 () (.leaf 1 () .nil), by decide⟩, ⟨[.path [], .path [0]], by decide⟩, by decide, rfl, rfl, rfl, ?_⟩
  rw [roundTrip_iff _ (by decide)]
  rintro (hroot | hcovered)
  · exact hroot List.mem_cons_self
  · obtain ⟨a, ha, hne, hprefix⟩ := hcovered [1] rfl
    simp only [List.mem_cons, List.not_mem_nil, or_false] at ha
    rcases ha with rfl | rfl
    · exact hne rfl
    · exact absurd hprefix (by decide)

end LlamaLite
end Spearhed
