import Mathlib.Data.Fin.VecNotation
import Mathlib.Data.UInt
import Mathlib.Tactic
import Spearhed.Library.Literals

/-!
# Period strings

`toTimeSlice` reads a comma-separated list of entries `start:stop:period`, and `containsStep` tests a
step against the slices.  Components are read as `unsigned long` and narrowed to `uint32_t`; the test for
a period of zero belongs to the third component.

* `toTimeSlice_eq_ok`: which strings are read, and as which slices.
* `toTimeSlice_documented_iff`: a string that is not refused means what the documentation says if all
  numbers fit into 32 bits and no entry is a single zero, and only then.
-/

namespace Spearhed
namespace PluginSystem

open Library.Literals

/-! ## Slices -/

/-- `PMACC_VERIFY_MSG`. -/
def verify (condition : Bool) (msg : String) : Except String Unit :=
  if condition then Except.ok () else Except.error msg

/-- `std::stoul`, on digits with or without a sign. -/
def stoul (str : List Char) : Except String ℕ :=
  match str with
  | '-' :: digits =>
    let value := Nat.ofDigitChars 10 digits 0
    if 2 ^ 64 ≤ value then Except.error "stoul" else Except.ok ((2 ^ 64 - value) % 2 ^ 64)
  | digits =>
    let value := Nat.ofDigitChars 10 digits 0
    if 2 ^ 64 ≤ value then Except.error "stoul" else Except.ok value

/-- `Slice`. -/
@[ext]
structure Slice where
  /-- Begin and end of the interval, and the period. -/
  values : Fin 3 → UInt32
  deriving DecidableEq

namespace Slice

/-- `Slice()`. -/
def default : Slice := ⟨![0, UInt32.ofNat (2 ^ 32 - 1), 1]⟩

/-- `toString`. -/
def toString (slice : Slice) : List Char :=
  Nat.toDigits 10 (slice.values 0).toNat ++ ':' :: (Nat.toDigits 10 (slice.values 1).toNat ++
    ':' :: Nat.toDigits 10 (slice.values 2).toNat)

/-- `setValue`. -/
def setValue (slice : Slice) (idx : Fin 3) (str : List Char) : Except String Slice :=
  if str.isEmpty then Except.ok slice
  else do
    let value := UInt32.ofNat (← stoul str)
    verify (!(idx = 2 && value = 0)) "Zero is not a valid period"
    return ⟨Function.update slice.values idx value⟩

end Slice

/-! ## Parsing -/

/-- What `std::sregex_token_iterator` yields from a match on: a token before each delimiter, and the rest
if there is any. -/
def tokens (delimiter : Char) : List Char → List Char → List (List Char)
  | token, [] => if token.isEmpty then [] else [token]
  | token, c :: input =>
    if c = delimiter then token :: tokens delimiter [] input else tokens delimiter (token ++ [c]) input

/-- `splitString`.  Without a match, the token is the whole input. -/
def splitString (input : List Char) (delimiter : Char) : List (List Char) :=
  if delimiter ∈ input then tokens delimiter [] input else [input]

/-- `is_number`. -/
def isNumber (str : List Char) : Bool := str.all Char.isDigit

/-- The loop over the components of an entry, from component `n` on. -/
def setComponents (str : List Char) (sliceOnly : Bool) (fillDefaults : Slice → Slice) :
    ℕ → Slice → List (List Char) → Except String Slice
  | _, rangeSlice, [] => Except.ok rangeSlice
  | n, rangeSlice, component :: components =>
    if hn : n < 3 then do
      verify (component.isEmpty || isNumber component || (n = 1 && component = ['-', '1']))
        ("value" ++ String.ofList component ++ " in " ++ String.ofList str ++ "is not a number")
      let rangeSlice ← rangeSlice.setValue ⟨n, hn⟩ component
      setComponents str sliceOnly fillDefaults (n + 1)
        (if sliceOnly then fillDefaults rangeSlice else rangeSlice) components
    else Except.ok rangeSlice

/-- The body of the loop over the entries, for an entry that is not empty. -/
def sliceOfString (str : List Char) (fillDefaults : Slice → Slice) (slice : List Char) :
    Except String Slice := do
  let sliceComponents := splitString (slice ++ [':']) ':'
  verify (!sliceComponents.isEmpty)
    ("time slice without a defined element is not allowed" ++ String.ofList str)
  setComponents str (sliceComponents.length = 1) fillDefaults 0 Slice.default sliceComponents

/-- `toSlice`. -/
def toSlice (str : List Char) (fillDefaults : Slice → Slice) : Except String (List Slice) :=
  (splitString str ',').foldlM (fun result slice =>
    if slice.isEmpty then Except.ok result
    else do
      let rangeSlice ← sliceOfString str fillDefaults slice
      return result ++ [rangeSlice]) []

/-- A single number is the period. -/
def fillTimeDefaults (slice : Slice) : Slice :=
  ⟨![0, UInt32.ofNat (2 ^ 32 - 1), slice.values 0]⟩

/-- `toTimeSlice`. -/
def toTimeSlice (str : List Char) : Except String (List Slice) := toSlice str fillTimeDefaults

/-- `containsStep`; without a result, there was a division by zero. -/
def containsStep : List Slice → UInt32 → Option Bool
  | [], _ => some false
  | timeSlice :: seqTimeSlices, timeStep =>
    if timeStep ≥ timeSlice.values 0 && timeStep ≤ timeSlice.values 1 then
      if timeSlice.values 2 = 0 then none
      else if (timeStep - timeSlice.values 0) % timeSlice.values 2 = 0 then some true
      else containsStep seqTimeSlices timeStep
    else containsStep seqTimeSlices timeStep

/-! ## The documented meaning -/

/-- The entries of a string. -/
def entries (str : List Char) : List (List Char) := (str.splitOn ',').filter fun entry => !entry.isEmpty

/-- The components of an entry. -/
def components (entry : List Char) : List (List Char) := entry.splitOn ':'

/-- The number that digits denote. -/
def decimal (component : List Char) : ℕ := Nat.ofDigitChars 10 component 0

/-- The steps of an entry. -/
structure Period where
  start : ℕ
  /-- Without a stop, there is no end. -/
  stop : Option ℕ
  period : ℕ

/-- A step is one of these. -/
def Period.Contains (p : Period) (step : ℕ) : Prop :=
  p.start ≤ step ∧ (∀ stop ∈ p.stop, step ≤ stop) ∧ p.period ∣ step - p.start

/-- What the components of an entry mean. -/
def meaning : List (List Char) → Period
  | [component] => ⟨0, none, decimal component⟩
  | components =>
    let number := fun i default =>
      if components.getD i [] = [] then default else decimal (components.getD i [])
    ⟨number 0 0,
      if components.getD 1 [] = [] ∨ components.getD 1 [] = ['-', '1'] then none
      else some (decimal (components.getD 1 [])),
      number 2 1⟩

/-- Component `i` is empty, a number of 32 bits, or the stop `-1`. -/
def WellFormed (i : ℕ) (component : List Char) : Prop :=
  component = [] ∨ (isNumber component = true ∧ decimal component < 2 ^ 32) ∨
    (i = 1 ∧ component = ['-', '1'])

/-- The documentation admits an entry. -/
def Valid (components : List (List Char)) : Prop :=
  (∀ i component, components[i]? = some component → WellFormed i component) ∧
    (meaning components).period ≠ 0

/-- **The documented behaviour** on a string. -/
def Documented (str : List Char) : Prop :=
  ∀ slices, toTimeSlice str = Except.ok slices →
    (∀ entry ∈ entries str, Valid (components entry)) ∧ slices.length = (entries str).length ∧
      ∀ t, ∃ contained, containsStep slices t = some contained ∧
        (contained = true ↔ ∃ entry ∈ entries str, (meaning (components entry)).Contains t.toNat)

/-! ## Splitting -/

theorem modifyHead_append (token : List Char) (c : Char) (fields : List (List Char)) :
    (fields.modifyHead (List.cons c)).modifyHead (token ++ ·) =
      fields.modifyHead (token ++ [c] ++ ·) := by
  rw [List.modifyHead_modifyHead]
  refine congrArg (fun f => fields.modifyHead f) (funext fun field => ?_)
  rw [Function.comp_apply, List.append_assoc, List.singleton_append]

theorem modifyHead_nil_append (fields : List (List Char)) :
    fields.modifyHead (([] : List Char) ++ ·) = fields := by
  cases fields <;> rfl

/-- Apart from an empty end, the tokens are the fields between the delimiters. -/
theorem filter_tokens (delimiter : Char) (token input : List Char) :
    (tokens delimiter token input).filter (fun entry => !entry.isEmpty) =
      ((input.splitOn delimiter).modifyHead (token ++ ·)).filter fun entry => !entry.isEmpty := by
  induction input generalizing token with
  | nil =>
    rw [tokens, List.splitOn_nil, List.modifyHead_cons, List.append_nil]
    split
    · next hempty => rw [List.filter_cons_of_neg (by simpa using hempty)]
    · rfl
  | cons c input ih =>
    rw [tokens, List.splitOn_cons_eq_if_modifyHead]
    by_cases hc : c = delimiter
    · rw [if_pos hc, if_pos (by simpa using hc), List.modifyHead_cons, List.append_nil,
        List.filter_cons, List.filter_cons, ih, modifyHead_nil_append]
    · rw [if_neg hc, if_neg (by simpa using hc), modifyHead_append, ih]

/-- The entries of a string, as `toSlice` sees them. -/
theorem filter_splitString (str : List Char) :
    (splitString str ',').filter (fun entry => !entry.isEmpty) = entries str := by
  rw [splitString, entries]
  split
  · rw [filter_tokens, modifyHead_nil_append]
  · next hnone => rw [List.splitOn_eq_singleton hnone]

/-- With a delimiter at the end, no field is lost. -/
theorem tokens_append (delimiter : Char) (token input : List Char) :
    tokens delimiter token (input ++ [delimiter]) =
      (input.splitOn delimiter).modifyHead (token ++ ·) := by
  induction input generalizing token with
  | nil =>
    rw [List.nil_append, tokens, if_pos rfl, tokens, List.splitOn_nil, List.modifyHead_cons,
      List.append_nil]
    rfl
  | cons c input ih =>
    rw [List.cons_append, tokens, List.splitOn_cons_eq_if_modifyHead]
    by_cases hc : c = delimiter
    · rw [if_pos hc, if_pos (by simpa using hc), List.modifyHead_cons, List.append_nil, ih,
        modifyHead_nil_append]
    · rw [if_neg hc, if_neg (by simpa using hc), modifyHead_append, ih]

theorem splitString_append (entry : List Char) :
    splitString (entry ++ [':']) ':' = components entry := by
  rw [splitString, if_pos (List.mem_append_right _ List.mem_cons_self), tokens_append,
    modifyHead_nil_append, components]

/-- A single component is the whole entry. -/
theorem eq_of_components {entry component : List Char} (h : components entry = [component]) :
    component = entry := by
  have hjoin : [':'].intercalate (components entry) = entry := List.intercalate_splitOn ':'
  rw [h] at hjoin
  simpa using hjoin

/-! ## Reading a component -/

/-- What the code refuses: what is not a number, does not fit into 64 bits, or is a period that is zero
in 32 bits. -/
def Refused (i : ℕ) (component : List Char) : Prop :=
  ¬ (isNumber component = true ∨ (i = 1 ∧ component = ['-', '1'])) ∨
    (isNumber component = true ∧ (2 ^ 64 ≤ decimal component ∨
      (i = 2 ∧ component ≠ [] ∧ decimal component % 2 ^ 32 = 0)))

/-- The value that is stored for a component. -/
def narrow (component : List Char) : UInt32 :=
  if component = ['-', '1'] then UInt32.ofNat (2 ^ 32 - 1) else UInt32.ofNat (decimal component)

/-- An empty component leaves the default. -/
def store (slice : Slice) (idx : Fin 3) (component : List Char) : Slice :=
  if component = [] then slice else ⟨Function.update slice.values idx (narrow component)⟩

theorem not_isNumber_stop : isNumber ['-', '1'] = false := by decide

theorem stoul_of_isNumber {component : List Char} (h : isNumber component = true) :
    stoul component =
      if 2 ^ 64 ≤ decimal component then Except.error "stoul" else Except.ok (decimal component) := by
  unfold stoul
  split
  · next digits =>
    rw [isNumber, List.all_cons] at h
    exact absurd h (by rw [Bool.and_eq_true]; exact fun h => absurd h.1 (by decide))
  · rfl

theorem stoul_stop : stoul ['-', '1'] = Except.ok (2 ^ 64 - 1) := by decide

theorem ok_eq_ok {α : Type} {a b : α} : (Except.ok a : Except String α) = Except.ok b ↔ b = a :=
  ⟨fun h => (Except.ok.inj h).symm, fun h => congrArg Except.ok h.symm⟩

theorem bind_eq_ok {α β : Type} {x : Except String α} {f : α → Except String β} {result : β} :
    (x >>= f) = Except.ok result ↔ ∃ a, x = Except.ok a ∧ f a = Except.ok result := by
  cases x with
  | error message => exact iff_of_false nofun fun ⟨_, h, _⟩ => nomatch h
  | ok a => exact ⟨fun h => ⟨a, rfl, h⟩, fun ⟨_, ha, h⟩ => Except.ok.inj ha ▸ h⟩

theorem verify_bind_eq_ok {α : Type} {condition : Bool} {msg : String} {f : Unit → Except String α}
    {result : α} : (verify condition msg >>= f) = Except.ok result ↔
      condition = true ∧ f () = Except.ok result := by
  cases condition with
  | true => exact (and_iff_right rfl).symm
  | false => exact iff_of_false nofun nofun

/-- `setValue` on a component that is not empty. -/
theorem setValue_of_stoul {slice slice' : Slice} {idx : Fin 3} {component : List Char} {value : ℕ}
    (hempty : component ≠ []) (hvalue : stoul component = Except.ok value) :
    slice.setValue idx component = Except.ok slice' ↔ ¬ (idx = 2 ∧ UInt32.ofNat value = 0) ∧
      slice' = ⟨Function.update slice.values idx (UInt32.ofNat value)⟩ := by
  have hisEmpty : ¬ component.isEmpty = true := by simpa using hempty
  rw [Slice.setValue, if_neg hisEmpty, hvalue]
  refine verify_bind_eq_ok.trans (and_congr ?_ ?_)
  · rw [Bool.not_eq_true', ← Bool.not_eq_true, Bool.and_eq_true, decide_eq_true_iff,
      decide_eq_true_iff]
  · exact ok_eq_ok

/-- What `setValue` makes of a component that is a number or the stop `-1`. -/
theorem setValue_eq_ok {slice slice' : Slice} {idx : Fin 3} {component : List Char}
    (h : isNumber component = true ∨ (idx.val = 1 ∧ component = ['-', '1'])) :
    slice.setValue idx component = Except.ok slice' ↔
      ¬ Refused idx.val component ∧ slice' = store slice idx component := by
  by_cases hempty : component = []
  · subst hempty
    have hread : ¬ Refused idx.val [] := by
      rintro (hnumber | ⟨-, hlarge | ⟨-, hne, -⟩⟩)
      · exact hnumber (Or.inl rfl)
      · exact absurd hlarge (by decide)
      · exact hne rfl
    rw [and_iff_right hread]
    exact ok_eq_ok
  rw [store, if_neg hempty]
  rcases h with hnumber | ⟨hidx, rfl⟩
  · have hnarrow : narrow component = UInt32.ofNat (decimal component) :=
      if_neg fun heq => absurd (heq ▸ hnumber) (by rw [not_isNumber_stop]; exact nofun)
    by_cases hlarge : 2 ^ 64 ≤ decimal component
    · have hisEmpty : ¬ component.isEmpty = true := by simpa using hempty
      rw [Slice.setValue, if_neg hisEmpty, stoul_of_isNumber hnumber, if_pos hlarge]
      exact iff_of_false nofun fun h => h.1 (Or.inr ⟨hnumber, Or.inl hlarge⟩)
    · have hzero : UInt32.ofNat (decimal component) = 0 ↔ decimal component % 2 ^ 32 = 0 := by
        rw [← UInt32.toNat_inj, UInt32.toNat_ofNat']
        rfl
      rw [setValue_of_stoul hempty ((stoul_of_isNumber hnumber).trans (if_neg hlarge)), hnarrow, hzero]
      refine and_congr_left' (not_congr ⟨fun h => ?_, ?_⟩)
      · exact Or.inr ⟨hnumber, Or.inr ⟨congrArg Fin.val h.1, hempty, h.2⟩⟩
      · rintro (hnot | ⟨-, hl | ⟨hi, -, hz⟩⟩)
        · exact absurd (Or.inl hnumber) hnot
        · exact absurd hl hlarge
        · exact ⟨Fin.ext hi, hz⟩
  · rw [setValue_of_stoul hempty stoul_stop]
    refine and_congr (iff_of_true ?_ ?_) Iff.rfl
    · rintro ⟨rfl, -⟩
      cases hidx
    · rintro (hnot | ⟨hnumber, -⟩)
      · exact hnot (Or.inr ⟨hidx, rfl⟩)
      · exact absurd (hnumber.symm.trans not_isNumber_stop) nofun

/-- The loop over the components reads them one after the other. -/
theorem setComponents_cons_eq_ok {str : List Char} {sliceOnly : Bool} {fillDefaults : Slice → Slice}
    {n : ℕ} (hn : n < 3) {rangeSlice result : Slice} {component : List Char}
    {components : List (List Char)} :
    setComponents str sliceOnly fillDefaults n rangeSlice (component :: components) =
        Except.ok result ↔
      ¬ Refused n component ∧ setComponents str sliceOnly fillDefaults (n + 1)
        (if sliceOnly then fillDefaults (store rangeSlice ⟨n, hn⟩ component)
          else store rangeSlice ⟨n, hn⟩ component) components = Except.ok result := by
  have hverified : (component.isEmpty || isNumber component || (n = 1 && component = ['-', '1'])) =
      true ↔ isNumber component = true ∨ (n = 1 ∧ component = ['-', '1']) := by
    have hempty : component.isEmpty = true → isNumber component = true := fun h => by
      rw [List.isEmpty_iff.mp h]
      rfl
    rw [Bool.or_eq_true, Bool.or_eq_true, or_iff_right_of_imp hempty, Bool.and_eq_true,
      decide_eq_true_iff, decide_eq_true_iff]
  rw [setComponents, dif_pos hn]
  refine verify_bind_eq_ok.trans ?_
  rw [hverified]
  by_cases h : isNumber component = true ∨ (n = 1 ∧ component = ['-', '1'])
  · rw [and_iff_right h]
    refine bind_eq_ok.trans ?_
    have hset : ∀ slice', rangeSlice.setValue ⟨n, hn⟩ component = Except.ok slice' ↔
        ¬ Refused n component ∧ slice' = store rangeSlice ⟨n, hn⟩ component := fun _ => setValue_eq_ok h
    simp only [hset, and_assoc, exists_and_left, exists_eq_left]
  · exact iff_of_false (fun hand => h hand.1) fun hand => hand.1 (Or.inl h)

/-! ## Reading a string -/

/-- The slice that the components of an entry are read as. -/
def sliceOf : List (List Char) → Slice
  | [component] => ⟨![0, UInt32.ofNat (2 ^ 32 - 1), narrow component]⟩
  | components =>
    let value := fun i default =>
      if components.getD i [] = [] then default else narrow (components.getD i [])
    ⟨![value 0 0, value 1 (UInt32.ofNat (2 ^ 32 - 1)), value 2 1]⟩

/-- What is stored for the components of a slice. -/
theorem store_store_store (a b c : List Char) :
    store (store (store Slice.default 0 a) 1 b) 2 c =
      ⟨![if a = [] then 0 else narrow a, if b = [] then UInt32.ofNat (2 ^ 32 - 1) else narrow b,
        if c = [] then 1 else narrow c]⟩ := by
  unfold store
  refine Slice.ext (funext fun i => ?_)
  fin_cases i <;> split_ifs <;> rfl

theorem forall_getElem?_cons {α : Type} {P : ℕ → α → Prop} {a : α} {l : List α} :
    (∀ i b, (a :: l)[i]? = some b → P i b) ↔ P 0 a ∧ ∀ i b, l[i]? = some b → P (i + 1) b := by
  constructor
  · exact fun h => ⟨h 0 a rfl, fun i b hi => h (i + 1) b hi⟩
  · rintro ⟨hhead, htail⟩ i b hi
    cases i with
    | zero => exact Option.some.inj hi ▸ hhead
    | succ i => exact htail i b hi

theorem forall_getElem?_nil {α : Type} {P : ℕ → α → Prop} :
    ∀ i b, ([] : List α)[i]? = some b → P i b := nofun

/-- An entry is read unless a component is refused. -/
theorem sliceOfString_eq_ok {str entry : List Char} {slice : Slice} (hentry : entry ≠ [])
    (hlength : (components entry).length ≤ 3) :
    sliceOfString str fillTimeDefaults entry = Except.ok slice ↔
      (∀ i component, (components entry)[i]? = some component → ¬ Refused i component) ∧
        slice = sliceOf (components entry) := by
  rw [sliceOfString, splitString_append]
  refine verify_bind_eq_ok.trans ?_
  match hcomponents : components entry, hlength with
  | [], _ => exact absurd hcomponents (List.splitOn_ne_nil ':' entry)
  | [a], _ =>
    have hne : a ≠ [] := eq_of_components hcomponents ▸ hentry
    have hslice : fillTimeDefaults (store Slice.default 0 a) = sliceOf [a] := by
      rw [store, if_neg hne]
      rfl
    rw [and_iff_right (by rfl), setComponents_cons_eq_ok (by decide), forall_getElem?_cons,
      and_iff_left forall_getElem?_nil]
    exact and_congr_right' (hslice ▸ ok_eq_ok)
  | [a, b], _ =>
    have hslice : store (store Slice.default 0 a) 1 b = sliceOf [a, b] :=
      store_store_store a b []
    rw [and_iff_right (by rfl), setComponents_cons_eq_ok (by decide),
      setComponents_cons_eq_ok (by decide), forall_getElem?_cons, forall_getElem?_cons,
      and_iff_left forall_getElem?_nil, and_assoc]
    exact and_congr_right' (and_congr_right' (hslice ▸ ok_eq_ok))
  | [a, b, c], _ =>
    have hslice : store (store (store Slice.default 0 a) 1 b) 2 c = sliceOf [a, b, c] :=
      store_store_store a b c
    rw [and_iff_right (by rfl), setComponents_cons_eq_ok (by decide),
      setComponents_cons_eq_ok (by decide), setComponents_cons_eq_ok (by decide),
      forall_getElem?_cons, forall_getElem?_cons, forall_getElem?_cons,
      and_iff_left forall_getElem?_nil, and_assoc, and_assoc]
    exact and_congr_right' (and_congr_right' (and_congr_right' (hslice ▸ ok_eq_ok)))

/-- The loop over the entries appends a slice for each that is not empty. -/
theorem foldlM_eq_ok {read : List Char → Except String Slice} {P : List Char → Prop}
    {f : List Char → Slice} {l : List (List Char)} {result slices : List Slice}
    (hread : ∀ entry ∈ l.filter (fun entry => !entry.isEmpty), ∀ slice,
      read entry = Except.ok slice ↔ P entry ∧ slice = f entry) :
    l.foldlM (fun result entry =>
        if entry.isEmpty then Except.ok result
        else do
          let rangeSlice ← read entry
          return result ++ [rangeSlice]) result = Except.ok slices ↔
      (∀ entry ∈ l.filter (fun entry => !entry.isEmpty), P entry) ∧
        slices = result ++ (l.filter fun entry => !entry.isEmpty).map f := by
  induction l generalizing result with
  | nil =>
    rw [List.foldlM_nil, List.filter_nil, List.map_nil, List.append_nil, and_iff_right (by simp)]
    exact ok_eq_ok
  | cons entry l ih =>
    rw [List.foldlM_cons]
    by_cases hempty : entry.isEmpty = true
    · rw [List.filter_cons_of_neg (by simpa using hempty)] at hread ⊢
      rw [if_pos hempty]
      exact ih hread
    · rw [List.filter_cons_of_pos (by simpa using hempty)] at hread ⊢
      rw [List.forall_mem_cons] at hread ⊢
      rw [if_neg hempty, List.map_cons, ← List.singleton_append, ← List.append_assoc]
      refine bind_eq_ok.trans ⟨?_, ?_⟩
      · rintro ⟨longer, hlonger, hrest⟩
        obtain ⟨slice, hslice, hpure⟩ := bind_eq_ok.mp hlonger
        obtain rfl := Except.ok.inj hpure
        obtain ⟨hentry, rfl⟩ := (hread.1 slice).mp hslice
        obtain ⟨hl, rfl⟩ := (ih hread.2).mp hrest
        exact ⟨⟨hentry, hl⟩, rfl⟩
      · rintro ⟨⟨hentry, hl⟩, rfl⟩
        exact ⟨result ++ [f entry], bind_eq_ok.mpr ⟨f entry, (hread.1 _).mpr ⟨hentry, rfl⟩, rfl⟩,
          (ih hread.2).mpr ⟨hl, rfl⟩⟩

/-- **Which strings are read, and as which slices.** -/
theorem toTimeSlice_eq_ok {str : List Char} {slices : List Slice}
    (hlength : ∀ entry ∈ entries str, (components entry).length ≤ 3) :
    toTimeSlice str = Except.ok slices ↔
      (∀ entry ∈ entries str, ∀ i component, (components entry)[i]? = some component →
        ¬ Refused i component) ∧
      slices = (entries str).map fun entry => sliceOf (components entry) := by
  rw [toTimeSlice, toSlice]
  have hread : ∀ entry ∈ (splitString str ',').filter (fun entry => !entry.isEmpty), ∀ slice,
      sliceOfString str fillTimeDefaults entry = Except.ok slice ↔
        (∀ i component, (components entry)[i]? = some component → ¬ Refused i component) ∧
          slice = sliceOf (components entry) := by
    rw [filter_splitString]
    exact fun entry hentry slice =>
      sliceOfString_eq_ok (by simpa using (List.mem_filter.mp hentry).2) (hlength entry hentry)
  refine (foldlM_eq_ok hread).trans ?_
  rw [filter_splitString, List.nil_append]

/-- A loop over slices with periods finds no division by zero. -/
theorem containsStep_eq_some {slices : List Slice} (hperiod : ∀ slice ∈ slices, slice.values 2 ≠ 0)
    (t : UInt32) : ∃ contained, containsStep slices t = some contained ∧
      (contained = true ↔ ∃ slice ∈ slices, slice.values 0 ≤ t ∧ t ≤ slice.values 1 ∧
        (t - slice.values 0) % slice.values 2 = 0) := by
  induction slices with
  | nil => exact ⟨false, rfl, iff_of_false nofun (by simp)⟩
  | cons slice slices ih =>
    rw [List.forall_mem_cons] at hperiod
    obtain ⟨contained, hcontained, hiff⟩ := ih hperiod.2
    rw [containsStep, if_neg hperiod.1]
    simp only [List.exists_mem_cons_iff]
    split
    · next hin =>
      rw [Bool.and_eq_true, decide_eq_true_iff, decide_eq_true_iff] at hin
      split
      · next hdvd => exact ⟨true, rfl, iff_of_true rfl (Or.inl ⟨hin.1, hin.2, hdvd⟩)⟩
      · next hdvd =>
        exact ⟨contained, hcontained, hiff.trans (or_iff_right fun h => hdvd h.2.2).symm⟩
    · next hout =>
      refine ⟨contained, hcontained, hiff.trans (or_iff_right fun h => hout ?_).symm⟩
      rw [Bool.and_eq_true, decide_eq_true_iff, decide_eq_true_iff]
      exact ⟨h.1, h.2.1⟩

/-! ## Slices and what they stand for -/

/-- A slice has the numbers of a period; without an end it ends at the last `uint32_t`. -/
structure Represents (slice : Slice) (p : Period) : Prop where
  start : (slice.values 0).toNat = p.start
  stop : (slice.values 1).toNat = p.stop.getD (2 ^ 32 - 1)
  period : (slice.values 2).toNat = p.period

/-- The test of `containsStep` is the one that is meant. -/
theorem Represents.contains {slice : Slice} {p : Period} (h : Represents slice p) (t : UInt32) :
    (slice.values 0 ≤ t ∧ t ≤ slice.values 1 ∧ (t - slice.values 0) % slice.values 2 = 0) ↔
      p.Contains t.toNat := by
  have hlt := t.toNat_lt
  rw [UInt32.le_iff_toNat_le, UInt32.le_iff_toNat_le, h.start, h.stop, Period.Contains]
  refine and_congr_right fun hstart => and_congr ?_ ?_
  · cases p.stop with
    | none => exact iff_of_true (by rw [Option.getD_none]; omega) nofun
    | some stop => simp
  · rw [← UInt32.toNat_inj, UInt32.toNat_mod, UInt32.toNat_sub_of_le _ _
      (UInt32.le_iff_toNat_le.mpr (h.start ▸ hstart)), h.start, h.period]
    exact Nat.dvd_iff_mod_eq_zero.symm

theorem ne_stop_of_isNumber {component : List Char} (h : isNumber component = true) :
    component ≠ ['-', '1'] := by
  rintro rfl
  exact absurd (h.symm.trans not_isNumber_stop) nofun

theorem toNat_narrow {component : List Char} (h : isNumber component = true)
    (hlt : decimal component < 2 ^ 32) : (narrow component).toNat = decimal component := by
  rw [narrow, if_neg (ne_stop_of_isNumber h), UInt32.toNat_ofNat_of_lt' hlt]

/-- A well-formed component other than the stop keeps its number. -/
theorem WellFormed.toNat_narrow {i : ℕ} {component : List Char} (h : WellFormed i component)
    (hi : i ≠ 1) (hne : component ≠ []) : (narrow component).toNat = decimal component := by
  rcases h with hnil | ⟨hnumber, hlt⟩ | ⟨hone, -⟩
  · exact absurd hnil hne
  · exact PluginSystem.toNat_narrow hnumber hlt
  · exact absurd hone hi

/-- Defaults and numbers are those that are meant. -/
theorem represents_of_wellFormed {a b c : List Char} (ha : WellFormed 0 a) (hb : WellFormed 1 b)
    (hc : WellFormed 2 c) :
    Represents
      ⟨![if a = [] then 0 else narrow a, if b = [] then UInt32.ofNat (2 ^ 32 - 1) else narrow b,
        if c = [] then 1 else narrow c]⟩
      ⟨if a = [] then 0 else decimal a,
        if b = [] ∨ b = ['-', '1'] then none else some (decimal b),
        if c = [] then 1 else decimal c⟩ where
  start := by
    show (if a = [] then 0 else narrow a : UInt32).toNat = _
    split
    · rfl
    · next hne => exact ha.toNat_narrow nofun hne
  stop := by
    show (if b = [] then UInt32.ofNat (2 ^ 32 - 1) else narrow b).toNat = _
    rcases hb with rfl | ⟨hnumber, hlt⟩ | ⟨-, rfl⟩
    · rfl
    · have hstop := ne_stop_of_isNumber hnumber
      split
      · next hnil => rw [if_pos (Or.inl hnil)]; rfl
      · next hne =>
        rw [if_neg (not_or.mpr ⟨hne, hstop⟩)]
        exact toNat_narrow hnumber hlt
    · rfl
  period := by
    show (if c = [] then 1 else narrow c : UInt32).toNat = _
    split
    · rfl
    · next hne => exact hc.toNat_narrow nofun hne

theorem Valid.wellFormed {components : List (List Char)} (h : Valid components) (i : ℕ) :
    WellFormed i (components.getD i []) := by
  rw [List.getD_eq_getElem?_getD]
  cases hi : components[i]? with
  | none => exact Or.inl rfl
  | some component => exact h.1 i component hi

/-- **Valid components are read as what they mean.** -/
theorem represents_sliceOf {components : List (List Char)} (h : Valid components) :
    Represents (sliceOf components) (meaning components) := by
  match components, h with
  | [], h => exact represents_of_wellFormed (h.wellFormed 0) (h.wellFormed 1) (h.wellFormed 2)
  | [a], h =>
    have hne : a ≠ [] := by
      rintro rfl
      exact h.2 rfl
    exact ⟨rfl, rfl, (h.wellFormed 0).toNat_narrow nofun hne⟩
  | a :: b :: components, h =>
    exact represents_of_wellFormed (h.wellFormed 0) (h.wellFormed 1) (h.wellFormed 2)

/-! ## When strings are read as documented -/

/-- A component of the string is refused. -/
def Refuses (str : List Char) : Prop :=
  ∃ entry ∈ entries str, ∃ i component, (components entry)[i]? = some component ∧ Refused i component

/-- All numbers fit into 32 bits, and no entry is a single zero. -/
def Fits (str : List Char) : Prop :=
  ∀ entry ∈ entries str,
    (∀ component ∈ components entry, isNumber component = true → decimal component < 2 ^ 32) ∧
      ∀ component, components entry = [component] → decimal component ≠ 0

/-- The period of an entry that is not a single number. -/
theorem period_meaning {components : List (List Char)} (h : ∀ a, components ≠ [a]) :
    (meaning components).period =
      if components.getD 2 [] = [] then 1 else decimal (components.getD 2 []) := by
  match components, h with
  | [], _ => rfl
  | [a], h => exact absurd rfl (h a)
  | _ :: _ :: _, _ => rfl

theorem not_refused_nil (i : ℕ) : ¬ Refused i [] := by
  rintro (hnumber | ⟨-, hlarge | ⟨-, hne, -⟩⟩)
  · exact hnumber (Or.inl rfl)
  · exact absurd hlarge (by decide)
  · exact hne rfl

/-- Valid components are not refused. -/
theorem Valid.not_refused {components : List (List Char)} (h : Valid components) {i : ℕ}
    {component : List Char} (hi : components[i]? = some component) : ¬ Refused i component := by
  rcases h.1 i component hi with rfl | ⟨hnumber, hlt⟩ | ⟨rfl, rfl⟩
  · exact not_refused_nil i
  · rintro (hnot | ⟨-, hlarge | ⟨rfl, hne, hzero⟩⟩)
    · exact hnot (Or.inl hnumber)
    · omega
    · have hthird : components.getD 2 [] = component := by
        rw [List.getD_eq_getElem?_getD, hi, Option.getD_some]
      have hnotSingle : ∀ a, components ≠ [a] := fun a ha => by
        rw [ha] at hi
        cases hi
      refine h.2 ?_
      rw [period_meaning hnotSingle, hthird, if_neg hne]
      omega
  · rintro (hnot | ⟨hnumber, -⟩)
    · exact hnot (Or.inr ⟨rfl, rfl⟩)
    · exact absurd (hnumber.symm.trans not_isNumber_stop) nofun

/-- Components are valid if they are not refused and fit. -/
theorem valid_of_fits {components : List (List Char)}
    (hread : ∀ i component, components[i]? = some component → ¬ Refused i component)
    (hfits : ∀ component ∈ components, isNumber component = true → decimal component < 2 ^ 32)
    (hsingle : ∀ component, components = [component] → decimal component ≠ 0) : Valid components := by
  have hkind : ∀ i component, components[i]? = some component →
      isNumber component = true ∨ (i = 1 ∧ component = ['-', '1']) := fun i component hi =>
    of_not_not fun hnot => hread i component hi (Or.inl hnot)
  refine ⟨fun i component hi => ?_, ?_⟩
  · rcases hkind i component hi with hnumber | hstop
    · exact Or.inr (Or.inl ⟨hnumber, hfits component (List.mem_of_getElem? hi) hnumber⟩)
    · exact Or.inr (Or.inr hstop)
  · by_cases hone : ∃ a, components = [a]
    · obtain ⟨a, rfl⟩ := hone
      exact hsingle a rfl
    · rw [period_meaning fun a ha => hone ⟨a, ha⟩]
      cases hi : components[2]? with
      | none => rw [List.getD_eq_getElem?_getD, hi]; exact nofun
      | some c =>
        rw [List.getD_eq_getElem?_getD, hi, Option.getD_some]
        split
        · exact nofun
        · next hne =>
          have hnumber : isNumber c = true := (hkind 2 c hi).resolve_right nofun
          intro hzero
          exact hread 2 c hi (Or.inr ⟨hnumber, Or.inr ⟨rfl, hne, by rw [hzero, Nat.zero_mod]⟩⟩)

section Documented

variable {str : List Char} (hlength : ∀ entry ∈ entries str, (components entry).length ≤ 3)

/-- What is documented, of a string that is read. -/
theorem documented_of_valid (hvalid : ∀ entry ∈ entries str, Valid (components entry)) (t : UInt32) :
    ∃ contained,
      containsStep ((entries str).map fun entry => sliceOf (components entry)) t = some contained ∧
        (contained = true ↔
          ∃ entry ∈ entries str, (meaning (components entry)).Contains t.toNat) := by
  have hperiod : ∀ slice ∈ (entries str).map fun entry => sliceOf (components entry),
      slice.values 2 ≠ 0 := by
    intro slice hslice
    obtain ⟨entry, hentry, rfl⟩ := List.mem_map.mp hslice
    intro hzero
    have hmeant := (represents_sliceOf (hvalid entry hentry)).period
    rw [hzero] at hmeant
    exact (hvalid entry hentry).2 hmeant.symm
  obtain ⟨contained, hcontained, hiff⟩ := containsStep_eq_some hperiod t
  refine ⟨contained, hcontained, hiff.trans ?_⟩
  simp only [List.mem_map, exists_exists_and_eq_and]
  exact exists_congr fun entry => and_congr_right fun hentry =>
    (represents_sliceOf (hvalid entry hentry)).contains t

include hlength in
/-- A string is refused only if an entry is not valid. -/
theorem exists_not_valid_of_error {message : String} (h : toTimeSlice str = Except.error message) :
    ∃ entry ∈ entries str, ¬ Valid (components entry) := by
  by_contra hnone
  have hvalid : ∀ entry ∈ entries str, Valid (components entry) := fun entry hentry =>
    of_not_not fun hnot => hnone ⟨entry, hentry, hnot⟩
  have hok := (toTimeSlice_eq_ok hlength).mpr
    ⟨fun entry hentry i component hi => (hvalid entry hentry).not_refused hi, rfl⟩
  exact absurd (h.symm.trans hok) nofun

include hlength in
/-- **When a string is read as documented.** -/
theorem documented_iff : Documented str ↔ Refuses str ∨ Fits str := by
  constructor
  · intro hdocumented
    by_cases hrefuses : Refuses str
    · exact Or.inl hrefuses
    · have hok := (toTimeSlice_eq_ok hlength).mpr ⟨fun entry hentry i component hi hrefused =>
        hrefuses ⟨entry, hentry, i, component, hi, hrefused⟩, rfl⟩
      obtain ⟨hvalid, -⟩ := hdocumented _ hok
      refine Or.inr fun entry hentry => ⟨fun component hcomponent hnumber => ?_,
        fun component hsingle => ?_⟩
      · obtain ⟨i, hi⟩ := List.mem_iff_getElem?.mp hcomponent
        rcases (hvalid entry hentry).1 i component hi with rfl | ⟨-, hlt⟩ | ⟨-, hstop⟩
        · exact Nat.two_pow_pos 32
        · exact hlt
        · exact absurd hstop (ne_stop_of_isNumber hnumber)
      · have hperiod := (hvalid entry hentry).2
        rwa [hsingle] at hperiod
  · rintro h slices hok
    obtain ⟨hread, rfl⟩ := (toTimeSlice_eq_ok hlength).mp hok
    have hfits : Fits str := h.resolve_left fun ⟨entry, hentry, i, component, hi, hrefused⟩ =>
      hread entry hentry i component hi hrefused
    have hvalid : ∀ entry ∈ entries str, Valid (components entry) := fun entry hentry =>
      valid_of_fits (hread entry hentry) (hfits entry hentry).1 (hfits entry hentry).2
    exact ⟨hvalid, List.length_map .., documented_of_valid hvalid⟩

end Documented

/-! ## Round trip -/

theorem isNumber_toDigits (n : ℕ) : isNumber (Nat.toDigits 10 n) = true :=
  List.all_eq_true.mpr fun _ => Nat.isDigit_of_mem_toDigits (by decide) (by decide)

theorem notMem_toDigits {c : Char} (hc : c.isDigit = false) (n : ℕ) : c ∉ Nat.toDigits 10 n := by
  intro hmem
  exact absurd ((Nat.isDigit_of_mem_toDigits (by decide) (by decide) hmem).symm.trans hc) nofun

theorem narrow_toDigits (value : UInt32) : narrow (Nat.toDigits 10 value.toNat) = value := by
  rw [narrow, if_neg (ne_stop_of_isNumber (isNumber_toDigits _)), decimal,
    Nat.ofDigitChars_ten_toDigits, UInt32.ofNat_toNat]

/-- A printed slice is one entry with three components. -/
theorem components_toString (slice : Slice) : components slice.toString =
    [Nat.toDigits 10 (slice.values 0).toNat, Nat.toDigits 10 (slice.values 1).toNat,
      Nat.toDigits 10 (slice.values 2).toNat] := by
  have hcolon : ∀ n, ':' ∉ Nat.toDigits 10 n := notMem_toDigits (by decide)
  rw [components, Slice.toString, List.splitOn_append_cons_self_of_not_mem (hcolon _),
    List.splitOn_append_cons_self_of_not_mem (hcolon _), List.splitOn_eq_singleton (hcolon _)]

theorem entries_toString (slice : Slice) : entries slice.toString = [slice.toString] := by
  have hcomma : ∀ n, ',' ∉ Nat.toDigits 10 n := notMem_toDigits (by decide)
  have hnone : ',' ∉ slice.toString := by
    simp [Slice.toString, hcomma]
  rw [entries, List.splitOn_eq_singleton hnone, List.filter_cons_of_pos (by simp [Slice.toString]),
    List.filter_nil]

/-- **What is printed is read again.** -/
theorem toTimeSlice_toString {slice : Slice} (hperiod : slice.values 2 ≠ 0) :
    toTimeSlice slice.toString = Except.ok [slice] := by
  have hread : ∀ value : UInt32, ∀ i, (i = 2 → value ≠ 0) →
      ¬ Refused i (Nat.toDigits 10 value.toNat) := by
    rintro value i hne (hnot | ⟨-, hlarge | ⟨hi, -, hzero⟩⟩)
    · exact hnot (Or.inl (isNumber_toDigits _))
    · rw [decimal, Nat.ofDigitChars_ten_toDigits] at hlarge
      have hlt := value.toNat_lt
      omega
    · rw [decimal, Nat.ofDigitChars_ten_toDigits, Nat.mod_eq_of_lt value.toNat_lt] at hzero
      exact hne hi (UInt32.toNat_inj.mp hzero)
  have hslice : sliceOf (components slice.toString) = slice := by
    rw [components_toString]
    have hvalue : ∀ value default : UInt32, (if Nat.toDigits 10 value.toNat = [] then default
        else narrow (Nat.toDigits 10 value.toNat)) = value := fun value default => by
      rw [if_neg Nat.toDigits_ne_nil, narrow_toDigits]
    refine Slice.ext (funext fun i => ?_)
    fin_cases i
    · exact hvalue _ _
    · exact hvalue _ _
    · exact hvalue _ _
  rw [toTimeSlice_eq_ok, entries_toString, List.map_singleton, hslice, and_iff_left rfl,
    List.forall_mem_singleton, components_toString, forall_getElem?_cons, forall_getElem?_cons,
    forall_getElem?_cons]
  · exact ⟨hread _ 0 nofun, hread _ 1 nofun, hread _ 2 fun _ => hperiod, forall_getElem?_nil⟩
  · rw [entries_toString, List.forall_mem_singleton, components_toString]
    exact le_rfl

/-- Period strings mean what the documentation says if they are refused or fit, and only then; only
strings that the documentation does not admit are refused; and printed slices are read again. -/
theorem toTimeSlice_documented_iff {str : List Char}
    (hlength : ∀ entry ∈ entries str, (components entry).length ≤ 3) :
    (Documented str ↔ Refuses str ∨ Fits str) ∧
    (∀ message, toTimeSlice str = Except.error message →
      ∃ entry ∈ entries str, ¬ Valid (components entry)) ∧
    ∀ slice : Slice, slice.values 2 ≠ 0 → toTimeSlice slice.toString = Except.ok [slice] :=
  ⟨documented_iff hlength, fun _ h => exists_not_valid_of_error hlength h,
    fun _ hperiod => toTimeSlice_toString hperiod⟩

/-- `5,2:-1:3`. -/
theorem toTimeSlice_documented_iff_two : Documented ['5', ',', '2', ':', '-', '1', ':', '3'] := by
  refine (toTimeSlice_documented_iff (by decide)).1.mpr (Or.inr ?_)
  have hentries : entries ['5', ',', '2', ':', '-', '1', ':', '3'] =
      [['5'], ['2', ':', '-', '1', ':', '3']] := by decide
  rw [Fits, hentries, List.forall_mem_cons, List.forall_mem_singleton]
  refine ⟨⟨by decide, fun component h => ?_⟩, by decide, fun component h => ?_⟩
  · have hfive : components ['5'] = [['5']] := by decide
    obtain rfl := List.singleton_inj.mp (hfive.symm.trans h)
    decide
  · have hthree : components ['2', ':', '-', '1', ':', '3'] = [['2'], ['-', '1'], ['3']] := by decide
    exact absurd (hthree.symm.trans h) nofun

/-- A single zero is read as a period, by which `containsStep` then divides; and a start of `2 ^ 32 + 1`
is read as one. -/
theorem not_documented :
    ¬ Documented ['0'] ∧ ¬ Documented ['4', '2', '9', '4', '9', '6', '7', '2', '9', '7', ':'] := by
  constructor
  · intro h
    obtain ⟨-, -, hcontains⟩ := h [⟨![0, UInt32.ofNat (2 ^ 32 - 1), 0]⟩] (by decide)
    obtain ⟨contained, hcontained, -⟩ := hcontains 0
    exact absurd hcontained (by decide +revert)
  · intro h
    have hentries : entries ['4', '2', '9', '4', '9', '6', '7', '2', '9', '7', ':'] =
        [['4', '2', '9', '4', '9', '6', '7', '2', '9', '7', ':']] := by decide
    have hcomponents : components ['4', '2', '9', '4', '9', '6', '7', '2', '9', '7', ':'] =
        [['4', '2', '9', '4', '9', '6', '7', '2', '9', '7'], []] := by decide
    have hread : ¬ Refused 0 ['4', '2', '9', '4', '9', '6', '7', '2', '9', '7'] := by
      unfold Refused
      decide
    have hok : toTimeSlice ['4', '2', '9', '4', '9', '6', '7', '2', '9', '7', ':'] =
        Except.ok [⟨![1, UInt32.ofNat (2 ^ 32 - 1), 1]⟩] := by
      rw [toTimeSlice_eq_ok (by decide), hentries, List.forall_mem_singleton, hcomponents,
        List.map_singleton, hcomponents, forall_getElem?_cons, forall_getElem?_cons]
      exact ⟨⟨hread, not_refused_nil 1, forall_getElem?_nil⟩, by decide⟩
    have hentry := ((h _ hok).1 ['4', '2', '9', '4', '9', '6', '7', '2', '9', '7', ':'] (by decide)).1 0
      ['4', '2', '9', '4', '9', '6', '7', '2', '9', '7'] (by decide)
    rcases hentry with hnil | ⟨-, hlt⟩ | ⟨hone, -⟩
    · cases hnil
    · exact absurd hlt (by decide)
    · cases hone

end PluginSystem
end Spearhed
