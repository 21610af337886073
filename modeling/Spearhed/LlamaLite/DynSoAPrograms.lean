import Mathlib.Logic.Function.Basic
import Spearhed.LlamaLite.DynSoA

/-!
# Programs with dynamic structures of arrays

A program constructs containers, copies, moves, resizes and destroys them; any allocation and any
construction of an element may throw, and the program goes on.  `StepLaw` is what is to hold after
each operation: columns are aligned, and one that throws leaves the rows as they were.  It holds
throughout a program exactly if no value-initialised resize shrinks some columns and then throws, and
`discardAndResize` is not asked for more rows than there are row indices (`stepLaw_along_iff`).
-/

namespace Spearhed
namespace LlamaLite

open Library

variable {Tag Leaf Name : Type} [DecidableEq Tag]

/-- The operations; a name stands for the place of a container. -/
inductive DynOp (r : Record Tag Leaf) (Elem : Leaf → Type) (Name : Type)
  /-- `DynSoA x`. -/
  | construct (x : Name)
  /-- `DynSoA x(n, initialization)`. -/
  | constructSized (x : Name) (n : ℕ) (initialization : Initialization)
  /-- `DynSoA x(y)`. -/
  | copyConstruct (x y : Name)
  /-- `DynSoA x(std::move(y))`. -/
  | moveConstruct (x y : Name)
  /-- `x = y`. -/
  | copyAssign (x y : Name)
  /-- `x = std::move(y)`. -/
  | moveAssign (x y : Name)
  | resize (x : Name) (n : ℕ) (initialization : Initialization)
  | reserve (x : Name) (n : ℕ)
  | discardAndResize (x : Name) (n : ℕ)
  /-- Elements of `x` are written through its spans and views. -/
  | write (x : Name) (written : DynSoA r Elem)
  | destroy (x : Name)

/-- An operation, what throws in it, and what its uninitialised elements happen to be. -/
structure DynStep (r : Record Tag Leaf) (Elem : Leaf → Type) (Name : Type) where
  op : DynOp r Elem Name
  faults : Faults
  fresh : ∀ type, ℕ → Elem type

/-- The live containers. -/
abbrev DynStore (r : Record Tag Leaf) (Elem : Leaf → Type) (Name : Type) := Name → Option (DynSoA r Elem)

structure DynOutcome (r : Record Tag Leaf) (Elem : Leaf → Type) (Name : Type) where
  store : DynStore r Elem Name
  threw : Bool

variable {r : Record Tag Leaf} {Elem : Leaf → Type}

/-- A container before and after a member function. -/
def DynStore.member [DecidableEq Name] (store : DynStore r Elem Name) (x : Name) (a : Attempt (DynSoA r Elem)) :
    DynOutcome r Elem Name :=
  ⟨Function.update store x (some a.state), !a.succeeded⟩

/-- The same number of elements in every column. -/
def DynSoA.SameShape (soa soa' : DynSoA r Elem) : Prop :=
  soa'.size = soa.size ∧ soa'.rows.map (fun row => row.2.length) = soa.rows.map fun row => row.2.length

instance (soa soa' : DynSoA r Elem) : Decidable (soa.SameShape soa') := inferInstanceAs (Decidable (_ ∧ _))

section Step

variable [DecidableEq Name] [∀ type, Inhabited (Elem type)]

/-- One operation; nothing if its containers do not exist, or exist already. -/
def DynStep.run (s : DynStep r Elem Name) (store : DynStore r Elem Name) : Option (DynOutcome r Elem Name) :=
  match s.op with
  | .construct x => if (store x).isSome then none else some ⟨Function.update store x (some (DynSoA.empty r Elem)), false⟩
  | .constructSized x n initialization =>
      if (store x).isSome then none
      else
        let resized := (DynSoA.empty r Elem).resize n initialization s.fresh s.faults
        if resized.succeeded then some ⟨Function.update store x (some resized.state), false⟩ else some ⟨store, true⟩
  | .copyConstruct x y =>
      if (store x).isSome then none
      else (store y).map fun other =>
        match other.copy s.faults with
        | some copied => ⟨Function.update store x (some copied), false⟩
        | none => ⟨store, true⟩
  | .moveConstruct x y =>
      if (store x).isSome then none
      else (store y).map fun other =>
        ⟨Function.update (Function.update store y (some (DynSoA.empty r Elem))) x (some other), false⟩
  | .copyAssign x y =>
      (store x).bind fun _ => (store y).map fun other =>
        if x = y then ⟨store, false⟩
        else match other.copy s.faults with
          | some copied => ⟨Function.update store x (some copied), false⟩
          | none => ⟨store, true⟩
  | .moveAssign x y =>
      (store x).bind fun _ => (store y).map fun other =>
        if x = y then ⟨store, false⟩
        else ⟨Function.update (Function.update store y (some (DynSoA.empty r Elem))) x (some other), false⟩
  | .resize x n initialization => (store x).map fun soa => store.member x (soa.resize n initialization s.fresh s.faults)
  | .reserve x n => (store x).map fun soa => store.member x (soa.reserve n s.faults)
  | .discardAndResize x n => (store x).map fun soa => store.member x (soa.discardAndResize n s.fresh s.faults)
  | .write x written =>
      (store x).bind fun soa =>
        if soa.SameShape written then some ⟨Function.update store x (some written), false⟩ else none
  | .destroy x => if (store x).isSome then some ⟨Function.update store x none, false⟩ else none

end Step

/-! ## What is to hold -/

/-- What an operation may do to its containers. -/
def OpLaw (store : DynStore r Elem Name) (o : DynOutcome r Elem Name) : DynOp r Elem Name → Prop
  | .resize x n _ => ∀ soa, store x = some soa → ∃ soa', o.store x = some soa' ∧
      if o.threw then soa.SameRows soa'
      else soa'.size = n ∧ soa'.firstRows (min soa.size n) = soa.firstRows (min soa.size n)
  | .reserve x _ => ∀ soa, store x = some soa → ∃ soa', o.store x = some soa' ∧ soa.SameRows soa'
  | .discardAndResize x n => ∀ soa, store x = some soa → ∃ soa', o.store x = some soa' ∧
      soa'.size = if o.threw then 0 else n
  | .copyConstruct x y => ∀ other, store y = some other →
      if o.threw then o.store x = none else ∃ soa', o.store x = some soa' ∧ other.SameRows soa'
  | .copyAssign x y => ∀ soa other, store x = some soa → store y = some other → ∃ soa', o.store x = some soa' ∧
      if o.threw then soa.SameRows soa' else other.SameRows soa'
  | .moveConstruct x y => ∀ other, store y = some other → o.store x = some other ∧ o.threw = false
  | .moveAssign x y => ∀ other, store y = some other → o.store x = some other ∧ o.threw = false
  | _ => True

/-- What is to hold after an operation. -/
structure StepLaw (store : DynStore r Elem Name) (op : DynOp r Elem Name) (o : DynOutcome r Elem Name) : Prop where
  /-- The columns of every live container have its size. -/
  aligned : ∀ x soa, o.store x = some soa → soa.Aligned
  op : OpLaw store o op

/-- The condition on a step. -/
def DynStep.Meets (store : DynStore r Elem Name) (s : DynStep r Elem Name) : Prop :=
  match s.op with
  | .resize x n initialization => ∀ soa, store x = some soa → ¬ soa.ShrinkFailsLate n initialization s.faults
  | .discardAndResize x n => ∀ soa, store x = some soa → n < UInt32.size ∨ soa.size = 0
  | _ => True

section Along

variable [DecidableEq Name] [∀ type, Inhabited (Elem type)]

/-- `P` holds at every step of a program. -/
def Along (P : DynStore r Elem Name → DynStep r Elem Name → Prop) : DynStore r Elem Name → List (DynStep r Elem Name) → Prop
  | _, [] => True
  | store, s :: rest => P store s ∧ ∀ o, s.run store = some o → Along P o.store rest

/-- A step does what it is to do. -/
def DynStep.Lawful (store : DynStore r Elem Name) (s : DynStep r Elem Name) : Prop :=
  ∀ o, s.run store = some o → StepLaw store s.op o

/-- The invariant. -/
def DynStore.Sound (store : DynStore r Elem Name) : Prop :=
  ∀ x soa, store x = some soa → soa.Aligned ∧ soa.size < UInt32.size

end Along

section Laws

variable [DecidableEq Name] {store : DynStore r Elem Name} {x y : Name} {soa soa' other : DynSoA r Elem}

theorem DynSoA.SameShape.aligned (h : soa.SameShape soa') (haligned : soa.Aligned) : soa'.Aligned := by
  have hlengths : ∀ length ∈ soa'.rows.map fun row => row.2.length, length = soa'.size := by
    rw [h.1, h.2]
    exact List.forall_mem_map.mpr haligned
  exact List.forall_mem_map.mp hlengths

theorem DynStore.Sound.update (h : store.Sound) {value : Option (DynSoA r Elem)}
    (hvalue : ∀ soa, value = some soa → soa.Aligned ∧ soa.size < UInt32.size) :
    DynStore.Sound (Function.update store x value) := by
  intro z soa hz
  rcases eq_or_ne z x with rfl | hne
  · rw [Function.update_self] at hz
    exact hvalue soa hz
  · rw [Function.update_of_ne hne] at hz
    exact h z soa hz

theorem DynStore.Sound.put (h : store.Sound) (haligned : soa.Aligned) (hsize : soa.size < UInt32.size) :
    DynStore.Sound (Function.update store x (some soa)) :=
  h.update fun _ hsoa => Option.some.inj hsoa ▸ ⟨haligned, hsize⟩

theorem DynStore.Sound.same (h : store.Sound) (hy : store y = some other) (hsame : other.SameRows soa) :
    DynStore.Sound (Function.update store x (some soa)) :=
  h.put (hsame.aligned (h y other hy).1) (hsame.1.trans_lt (h y other hy).2)

theorem empty_sound : DynSoA.Aligned (DynSoA.empty r Elem) ∧ (DynSoA.empty r Elem).size < UInt32.size :=
  ⟨DynSoA.aligned_empty, Nat.zero_lt_succ _⟩

theorem DynStore.Sound.moved (h : store.Sound) (hy : store y = some other) :
    DynStore.Sound (Function.update (Function.update store y (some (DynSoA.empty r Elem))) x (some other)) :=
  (h.put empty_sound.1 empty_sound.2).put (h y other hy).1 (h y other hy).2

variable [∀ type, Inhabited (Elem type)] {s : DynStep r Elem Name} {o : DynOutcome r Elem Name}

/-- **One step** that meets the condition. -/
theorem DynStep.Meets.step (h : store.Sound) (hmeets : s.Meets store) (hrun : s.run store = some o) :
    o.store.Sound ∧ OpLaw store o s.op := by
  obtain ⟨op, faults, fresh⟩ := s
  cases op with
  | construct x =>
    obtain ⟨-, hrun⟩ := Option.ite_none_left_eq_some.mp hrun
    obtain rfl := Option.some.inj hrun
    exact ⟨h.put empty_sound.1 empty_sound.2, trivial⟩
  | constructSized x n initialization =>
    obtain ⟨-, hrun⟩ := Option.ite_none_left_eq_some.mp hrun
    dsimp only at hrun
    split at hrun
    · next hresized =>
      obtain rfl := Option.some.inj hrun
      obtain ⟨haligned, hsize, hbound, -⟩ := DynSoA.resize_succeeded empty_sound.1 hresized
      exact ⟨h.put haligned (hsize.trans_lt hbound), trivial⟩
    · obtain rfl := Option.some.inj hrun
      exact ⟨h, trivial⟩
  | copyConstruct x y =>
    obtain ⟨hx, hrun⟩ := Option.ite_none_left_eq_some.mp hrun
    obtain ⟨other, hy, rfl⟩ := Option.map_eq_some_iff.mp hrun
    cases hcopy : other.copy faults with
    | none =>
      exact ⟨h, fun _ _ => Option.not_isSome_iff_eq_none.mp hx⟩
    | some copied =>
      have hsame := DynSoA.sameRows_copy hcopy
      refine ⟨h.same hy hsame, fun other' hother => ⟨copied, Function.update_self .., ?_⟩⟩
      exact Option.some.inj (hy.symm.trans hother) ▸ hsame
  | moveConstruct x y =>
    obtain ⟨-, hrun⟩ := Option.ite_none_left_eq_some.mp hrun
    obtain ⟨other, hy, rfl⟩ := Option.map_eq_some_iff.mp hrun
    refine ⟨h.moved hy, fun other' hother => ⟨?_, rfl⟩⟩
    exact (Function.update_self ..).trans (hy.symm.trans hother)
  | copyAssign x y =>
    obtain ⟨soa, hx, hrun⟩ := Option.bind_eq_some_iff.mp hrun
    obtain ⟨other, hy, rfl⟩ := Option.map_eq_some_iff.mp hrun
    by_cases hxy : x = y
    · rw [if_pos hxy]
      refine ⟨h, fun soa' other' _ hother => ⟨other', ?_, DynSoA.SameRows.refl other'⟩⟩
      exact hxy ▸ hother
    · rw [if_neg hxy]
      cases hcopy : other.copy faults with
      | none => exact ⟨h, fun soa' other' hsoa _ => ⟨soa', hsoa, DynSoA.SameRows.refl soa'⟩⟩
      | some copied =>
        have hsame := DynSoA.sameRows_copy hcopy
        refine ⟨h.same hy hsame, fun soa' other' _ hother => ⟨copied, Function.update_self .., ?_⟩⟩
        exact Option.some.inj (hy.symm.trans hother) ▸ hsame
  | moveAssign x y =>
    obtain ⟨soa, hx, hrun⟩ := Option.bind_eq_some_iff.mp hrun
    obtain ⟨other, hy, rfl⟩ := Option.map_eq_some_iff.mp hrun
    by_cases hxy : x = y
    · rw [if_pos hxy]
      exact ⟨h, fun other' hother => ⟨hxy ▸ hother, rfl⟩⟩
    · rw [if_neg hxy]
      refine ⟨h.moved hy, fun other' hother => ⟨?_, rfl⟩⟩
      exact (Function.update_self ..).trans (hy.symm.trans hother)
  | resize x n initialization =>
    obtain ⟨soa, hx, rfl⟩ := Option.map_eq_some_iff.mp hrun
    obtain ⟨haligned, hbound⟩ := h x soa hx
    cases hresized : (soa.resize n initialization fresh faults).succeeded with
    | true =>
      obtain ⟨haligned', hsize, hbound', hrows⟩ := DynSoA.resize_succeeded haligned hresized
      refine ⟨h.put haligned' (hsize.trans_lt hbound'), fun soa' hsoa => ⟨_, Function.update_self .., ?_⟩⟩
      obtain rfl := Option.some.inj (hx.symm.trans hsoa)
      rw [DynStore.member, hresized]
      exact ⟨hsize, hrows⟩
    | false =>
      have hsame := DynSoA.resize_failed haligned hresized (hmeets soa hx)
      refine ⟨h.same hx hsame, fun soa' hsoa => ⟨_, Function.update_self .., ?_⟩⟩
      obtain rfl := Option.some.inj (hx.symm.trans hsoa)
      rw [DynStore.member, hresized]
      exact hsame
  | reserve x n =>
    obtain ⟨soa, hx, rfl⟩ := Option.map_eq_some_iff.mp hrun
    have hsame : soa.SameRows (soa.reserve n faults).state := DynSoA.sameRows_reserve
    refine ⟨h.same hx hsame, fun soa' hsoa => ⟨_, Function.update_self .., ?_⟩⟩
    exact Option.some.inj (hx.symm.trans hsoa) ▸ hsame
  | discardAndResize x n =>
    obtain ⟨soa, hx, rfl⟩ := Option.map_eq_some_iff.mp hrun
    by_cases hcheck : n < UInt32.size
    · obtain ⟨haligned, hsize⟩ := DynSoA.discardAndResize_of_check soa fresh faults hcheck
      refine ⟨h.put haligned ?_, fun soa' _ => ⟨_, Function.update_self .., ?_⟩⟩
      · rw [hsize]
        split
        · exact hcheck
        · exact Nat.zero_lt_succ _
      · rw [DynStore.member, hsize]
        cases (soa.discardAndResize n fresh faults).succeeded <;> rfl
    · have hzero : soa.size = 0 := (hmeets soa hx).resolve_left hcheck
      rw [DynSoA.discardAndResize_of_not_check hcheck]
      exact ⟨h.same hx (DynSoA.SameRows.refl soa), fun soa' _ => ⟨soa, Function.update_self .., hzero⟩⟩
  | write x written =>
    obtain ⟨soa, hx, hrun⟩ := Option.bind_eq_some_iff.mp hrun
    obtain ⟨hshape, hrun⟩ := Option.ite_none_right_eq_some.mp hrun
    obtain rfl := Option.some.inj hrun
    exact ⟨h.put (hshape.aligned (h x soa hx).1) (hshape.1.trans_lt (h x soa hx).2), trivial⟩
  | destroy x =>
    obtain ⟨-, hrun⟩ := Option.ite_none_right_eq_some.mp hrun
    obtain rfl := Option.some.inj hrun
    exact ⟨h.update fun soa hsoa => absurd hsoa (by simp), trivial⟩

/-- A step that does not meet the condition breaks the law. -/
theorem DynStep.not_lawful (h : store.Sound) (hmeets : ¬ s.Meets store) : ¬ s.Lawful store := by
  obtain ⟨op, faults, fresh⟩ := s
  intro hlawful
  cases op with
  | resize x n initialization =>
    obtain ⟨soa, hmeets⟩ := not_forall.mp hmeets
    obtain ⟨hx, hlate⟩ := Classical.not_imp.mp hmeets
    obtain ⟨-, hbroken⟩ := DynSoA.resize_late fresh (h x soa hx).1 (h x soa hx).2 (not_not.mp hlate)
    have hlaw := hlawful _ (congrArg (Option.map _) hx)
    exact hbroken (hlaw.aligned x _ (Function.update_self ..))
  | discardAndResize x n =>
    obtain ⟨soa, hmeets⟩ := not_forall.mp hmeets
    obtain ⟨hx, hlate⟩ := Classical.not_imp.mp hmeets
    obtain ⟨hcheck, hsize⟩ := not_or.mp hlate
    obtain ⟨soa', hsoa', hempty⟩ := (hlawful _ (congrArg (Option.map _) hx)).op soa hx
    have hdiscard : soa.discardAndResize n fresh faults = ⟨false, soa, faults⟩ := DynSoA.discardAndResize_of_not_check hcheck
    have hthrew : (store.member x (soa.discardAndResize n fresh faults)).threw = true := by
      rw [hdiscard, DynStore.member]
      rfl
    have hstate : (store.member x (soa.discardAndResize n fresh faults)).store x = some soa := by
      rw [hdiscard]
      exact Function.update_self ..
    have hsame : soa = soa' := Option.some.inj (hstate.symm.trans hsoa')
    exact hsize (hsame ▸ hempty.trans (if_pos hthrew))
  | construct x => exact hmeets trivial
  | constructSized x n initialization => exact hmeets trivial
  | copyConstruct x y => exact hmeets trivial
  | moveConstruct x y => exact hmeets trivial
  | copyAssign x y => exact hmeets trivial
  | moveAssign x y => exact hmeets trivial
  | reserve x n => exact hmeets trivial
  | write x written => exact hmeets trivial
  | destroy x => exact hmeets trivial

theorem DynStep.lawful_iff (h : store.Sound) : s.Lawful store ↔ s.Meets store :=
  ⟨fun hlawful => not_not.mp fun hmeets => s.not_lawful h hmeets hlawful, fun hmeets _ hrun =>
    ⟨fun x soa hx => ((hmeets.step h hrun).1 x soa hx).1, (hmeets.step h hrun).2⟩⟩

/-- **A whole program.** -/
theorem along_lawful_iff (h : store.Sound) (steps : List (DynStep r Elem Name)) :
    Along (fun store s => s.Lawful store) store steps ↔ Along (fun store s => s.Meets store) store steps := by
  induction steps generalizing store with
  | nil => exact Iff.rfl
  | cons s rest ih =>
    rw [Along, Along, DynStep.lawful_iff h]
    refine and_congr_right fun hmeets => forall_congr' fun o => forall_congr' fun hrun => ?_
    exact ih (hmeets.step h hrun).1

/-- **Columns do not drift apart**, in the programs whose steps meet the condition and in no others. -/
theorem stepLaw_along_iff (steps : List (DynStep r Elem Name)) :
    Along (fun store s => s.Lawful store) (fun _ => none) steps ↔
      Along (fun store s => s.Meets store) (fun _ => none) steps :=
  along_lawful_iff (fun _ _ h => absurd h (by simp)) steps

/-- Two leaves of one type. -/
def twoLeaves : Record ℕ Unit where
  fields := .leaf 0 () (.leaf 1 () .nil)
  unique := by decide

/-- One row is discarded, and the default value of the second leaf throws. -/
def shrinkTwoLeaves : List (DynStep twoLeaves (fun _ => ℕ) Unit) :=
  [⟨.constructSized () 1 .valueInitialize, [], fun _ _ => 0⟩,
    ⟨.resize () 0 .valueInitialize, [false, true], fun _ _ => 0⟩]

/-- The first column is empty then, and the container still says it has a row. -/
theorem shrinkTwoLeaves_drifts :
    ¬ Along (fun store s => s.Lawful store) (fun _ => none) shrinkTwoLeaves := by
  intro h
  have hlaw := (h.2 _ rfl).1 _ rfl
  have haligned := hlaw.aligned () _ rfl
  have hrow := haligned ⟨(), []⟩ (List.mem_cons_self ..)
  exact absurd hrow (by decide)

end Laws

end LlamaLite
end Spearhed
