import Mathlib.Tactic.IntervalCases
import Spearhed.Mappings.DataSpace

/-!
# Exchange directions and masks of directions

A direction is a number with one ternary digit per axis: `0` stays, `1` goes up the axis and `2` goes
down.  A `Mask` is a set of directions, one bit each.

The two readings of a direction the other modules use are its relative offsets
(`getRelativeDirections`, a bijection onto the offsets with entries `-1`, `0`, `1`) and its mirror
image, which negates them (`getRelativeDirections_mirrored`).
-/

namespace Spearhed
namespace Mappings

/-! ## Exchange types -/

def RIGHT : ℕ := 1
def LEFT : ℕ := 2
def BOTTOM : ℕ := 3
def TOP : ℕ := 6
def BACK : ℕ := 9
def FRONT : ℕ := 18

/-- The number of neighbours, and the rank itself. -/
def NumberOfExchanges : ℕ → ℕ
  | 1 => LEFT + RIGHT
  | 2 => TOP + BOTTOM
  | _ => BACK + FRONT

/-- The offset of one ternary digit. -/
def digitOffset (dim_direction : ℕ) : ℤ := if dim_direction = 2 then -1 else dim_direction

/-- A direction as offsets on the axes; each turn of the loop takes the lowest ternary digit off. -/
def getRelativeDirections (DIM : ℕ) (direction : ℕ) : DataSpace DIM :=
  fun d => digitOffset (direction / 3 ^ (d : ℕ) % 3)

/-- The offsets a direction can have. -/
def unitOffsets (DIM : ℕ) : Set (DataSpace DIM) := {v | ∀ d, v d = -1 ∨ v d = 0 ∨ v d = 1}

section Directions

variable {DIM : ℕ} {direction e e' : ℕ}

theorem digitOffset_cases {t : ℕ} (ht : t < 3) : digitOffset t = -1 ∨ digitOffset t = 0 ∨ digitOffset t = 1 := by
  interval_cases t <;> decide

theorem digitOffset_injOn {t t' : ℕ} (ht : t < 3) (ht' : t' < 3) (h : digitOffset t = digitOffset t') :
    t = t' := by
  interval_cases t <;> interval_cases t' <;> revert h <;> decide

theorem getRelativeDirections_mem (DIM direction : ℕ) : getRelativeDirections DIM direction ∈ unitOffsets DIM :=
  fun _ => digitOffset_cases (Nat.mod_lt _ (by decide))

@[simp] theorem getRelativeDirections_zero : getRelativeDirections DIM 0 = 0 := by
  funext d
  rw [getRelativeDirections, Nat.zero_div]
  rfl

/-- **Directions and offsets are the same thing**: below `3 ^ DIM` every direction has its own offsets,
and every choice of offsets is a direction. -/
theorem bijOn_getRelativeDirections (DIM : ℕ) :
    Set.BijOn (getRelativeDirections DIM) {e | e < 3 ^ DIM} (unitOffsets DIM) := by
  refine ⟨fun e _ => getRelativeDirections_mem DIM e, fun e he e' he' h => ?_, fun v hv => ?_⟩
  · have hdigits : (finFunctionFinEquiv (m := 3) (n := DIM)).symm ⟨e, he⟩ = finFunctionFinEquiv.symm ⟨e', he'⟩ := by
      funext d
      exact Fin.ext (digitOffset_injOn (Nat.mod_lt _ (by decide)) (Nat.mod_lt _ (by decide)) (congrFun h d))
    exact Fin.mk.inj (finFunctionFinEquiv.symm.injective hdigits)
  · let digits : Fin DIM → Fin 3 := fun d => if v d = -1 then 2 else if v d = 0 then 0 else 1
    refine ⟨finFunctionFinEquiv digits, (finFunctionFinEquiv digits).2, funext fun d => ?_⟩
    have hdigit : ((finFunctionFinEquiv digits : Fin (3 ^ DIM)) : ℕ) / 3 ^ (d : ℕ) % 3 = digits d :=
      congrArg Fin.val (congrFun (finFunctionFinEquiv.symm_apply_apply digits) d)
    rw [getRelativeDirections, hdigit]
    rcases hv d with h | h | h <;> simp [digits, h, digitOffset]

theorem getRelativeDirections_inj (he : e < 3 ^ DIM) (he' : e' < 3 ^ DIM) :
    getRelativeDirections DIM e = getRelativeDirections DIM e' ↔ e = e' :=
  ⟨fun h => (bijOn_getRelativeDirections DIM).injOn he he' h, fun h => h ▸ rfl⟩

theorem getRelativeDirections_eq_zero (he : e < 3 ^ DIM) : getRelativeDirections DIM e = 0 ↔ e = 0 := by
  rw [← getRelativeDirections_zero, getRelativeDirections_inj he (by positivity)]

end Directions

/-! ## Masks -/

/-- A set of directions, the direction `ex` in the bit `ex`. -/
structure Mask where
  bitMask : BitVec 32 := 0
deriving DecidableEq

namespace Mask

/-- The mask of one direction. -/
def single (ex : ℕ) : Mask := ⟨1#32 <<< ex⟩

/-- Joins two masks. -/
instance : Add Mask := ⟨fun m other => ⟨m.bitMask ||| other.bitMask⟩⟩

/-- Intersects two masks. -/
instance : AndOp Mask := ⟨fun m other => ⟨m.bitMask &&& other.bitMask⟩⟩

def isSet (m : Mask) (ex : ℕ) : Bool := (m.bitMask &&& (1#32 <<< ex)) != 0

/-- The digits of `ex` are dropped until the last one is left, and as many of `tmp`. -/
def alignDigits : ℕ → ℕ → ℕ → ℕ × ℕ
  | 0, tmp, tmp_ex => (tmp, tmp_ex)
  | fuel + 1, tmp, tmp_ex => if 3 ≤ tmp_ex then alignDigits fuel (tmp / 3) (tmp_ex / 3) else (tmp, tmp_ex)

/-- Some direction of the mask has the axis direction `ex`. -/
def containsExchangeType (m : Mask) (ex : ℕ) : Bool :=
  (List.range' 1 26).any fun i =>
    m.isSet i && ((alignDigits ex i ex).1 % 3 == (alignDigits ex i ex).2)

/-- The direction back; it throws for a direction that does not exist. -/
def getMirroredExchangeType (ex : ℕ) : Option ℕ :=
  if ex ≥ NumberOfExchanges 3 then
    none
  else
    let mask := single ex
    some ((if mask.containsExchangeType RIGHT then LEFT else 0)
      + (if mask.containsExchangeType LEFT then RIGHT else 0)
      + (if mask.containsExchangeType BOTTOM then TOP else 0)
      + (if mask.containsExchangeType TOP then BOTTOM else 0)
      + (if mask.containsExchangeType FRONT then BACK else 0)
      + (if mask.containsExchangeType BACK then FRONT else 0))

/-- One turn of the loop over the directions of a mask. -/
def mirrorDirection (m : Mask) (tmp : BitVec 32) (i : ℕ) : BitVec 32 :=
  if m.isSet i then
    match getMirroredExchangeType i with
    | some ex => tmp ||| (1#32 <<< ex)
    | none => tmp
  else tmp

/-- Every direction of the mask mirrored. -/
def getMirroredMask (m : Mask) : Mask := ⟨(List.range' 1 26).foldl m.mirrorDirection 0⟩

section Bits

variable {m other : Mask} {ex i : ℕ}

theorem isSet_eq_getLsbD (m : Mask) (ex : ℕ) : m.isSet ex = m.bitMask.getLsbD ex := by
  rw [isSet, ← BitVec.twoPow_eq, BitVec.and_twoPow]
  split
  · next h =>
    have hex : ex < 32 := BitVec.lt_of_getLsbD h
    rw [h, bne_iff_ne, Ne, BitVec.toNat_inj.symm]
    simp [Nat.mod_eq_of_lt (Nat.pow_lt_pow_right (by decide : 1 < 2) hex)]
  · next h => rw [Bool.not_eq_true] at h; rw [h]; rfl

@[simp] theorem isSet_add (m other : Mask) (ex : ℕ) : (m + other).isSet ex = (m.isSet ex || other.isSet ex) := by
  rw [isSet_eq_getLsbD, isSet_eq_getLsbD, isSet_eq_getLsbD, ← BitVec.getLsbD_or]
  rfl

@[simp] theorem isSet_and (m other : Mask) (ex : ℕ) : (m &&& other).isSet ex = (m.isSet ex && other.isSet ex) := by
  rw [isSet_eq_getLsbD, isSet_eq_getLsbD, isSet_eq_getLsbD, ← BitVec.getLsbD_and]
  rfl

@[simp] theorem isSet_empty (ex : ℕ) : ({} : Mask).isSet ex = false := by
  rw [isSet_eq_getLsbD]
  exact BitVec.getLsbD_zero

theorem isSet_single (hex : ex < 32) : (single ex).isSet i = decide (i = ex) := by
  rw [isSet_eq_getLsbD, single, ← BitVec.twoPow_eq, BitVec.getLsbD_twoPow]
  simp [hex, eq_comm]

end Bits

/-- **The mirror of a direction** is a direction of the same dimension with the offsets negated. -/
theorem getRelativeDirections_mirrored {DIM e : ℕ} (hDIM : DIM ≤ 3) (he : e < 3 ^ DIM) :
    ∃ e', getMirroredExchangeType e = some e' ∧ e' < 3 ^ DIM ∧
      getRelativeDirections DIM e' = -getRelativeDirections DIM e := by
  interval_cases DIM <;> interval_cases e <;> exact ⟨_, rfl, by decide, by decide +kernel⟩

/-- The mirror of a direction that exists. -/
def mirrored (e : ℕ) : ℕ := (getMirroredExchangeType e).getD 0

section Mirrored

variable {DIM e : ℕ}

theorem getMirroredExchangeType_eq (he : e < 27) : getMirroredExchangeType e = some (mirrored e) := by
  obtain ⟨e', hmirror, -⟩ := getRelativeDirections_mirrored (le_refl 3) he
  rw [mirrored, hmirror, Option.getD_some]

theorem mirrored_spec (hDIM : DIM ≤ 3) (he : e < 3 ^ DIM) :
    mirrored e < 3 ^ DIM ∧ getRelativeDirections DIM (mirrored e) = -getRelativeDirections DIM e := by
  obtain ⟨e', hmirror, hlt, hoffsets⟩ := getRelativeDirections_mirrored hDIM he
  rw [mirrored, hmirror, Option.getD_some]
  exact ⟨hlt, hoffsets⟩

theorem mirrored_mirrored (hDIM : DIM ≤ 3) (he : e < 3 ^ DIM) : mirrored (mirrored e) = e := by
  obtain ⟨hlt, hoffsets⟩ := mirrored_spec hDIM he
  obtain ⟨hlt', hoffsets'⟩ := mirrored_spec hDIM hlt
  rw [← getRelativeDirections_inj hlt' he, hoffsets', hoffsets, neg_neg]

theorem isSet_mirrorDirection (m : Mask) (tmp : BitVec 32) {i : ℕ} (hi : i < 27) :
    (⟨m.mirrorDirection tmp i⟩ : Mask).isSet e = true ↔
      (⟨tmp⟩ : Mask).isSet e = true ∨ (m.isSet i = true ∧ mirrored i = e) := by
  rw [mirrorDirection]
  split
  · next hset =>
    have hor : (⟨tmp ||| (1#32 <<< mirrored i)⟩ : Mask) = ⟨tmp⟩ + single (mirrored i) := rfl
    have hsingle : (single (mirrored i)).isSet e = decide (e = mirrored i) :=
      isSet_single ((mirrored_spec (le_refl 3) hi).1.trans (by decide))
    rw [getMirroredExchangeType_eq hi, hor, isSet_add, Bool.or_eq_true, hsingle, decide_eq_true_eq, and_iff_right hset,
      eq_comm (a := e)]
  · next hset => simp [hset]

theorem isSet_foldl_mirrorDirection {m : Mask} {l : List ℕ} (hl : ∀ i ∈ l, i < 27) (tmp : BitVec 32) :
    (⟨l.foldl m.mirrorDirection tmp⟩ : Mask).isSet e = true ↔
      (⟨tmp⟩ : Mask).isSet e = true ∨ ∃ i ∈ l, m.isSet i = true ∧ mirrored i = e := by
  induction l generalizing tmp with
  | nil => simp
  | cons i l ih =>
    rw [List.foldl_cons, ih fun j hj => hl j (List.mem_cons_of_mem i hj),
      isSet_mirrorDirection m tmp (hl i List.mem_cons_self), List.exists_mem_cons_iff, or_assoc]

/-- The mirror of a mask has the mirrors of its directions. -/
theorem isSet_getMirroredMask (m : Mask) (he : e < 27) (hpos : 1 ≤ e) :
    m.getMirroredMask.isSet e = m.isSet (mirrored e) := by
  obtain ⟨hlt, hoffsets⟩ := mirrored_spec (le_refl 3) he
  have hback := mirrored_mirrored (le_refl 3) he
  rw [Bool.eq_iff_iff, getMirroredMask, isSet_foldl_mirrorDirection fun i hi => by have := List.mem_range'_1.mp hi; omega]
  have hempty : (⟨0⟩ : Mask).isSet e = false := isSet_empty e
  simp only [hempty, Bool.false_eq_true, false_or]
  constructor
  · rintro ⟨i, hi, hset, rfl⟩
    rwa [mirrored_mirrored (le_refl 3) (by have := List.mem_range'_1.mp hi; omega)]
  · intro hset
    refine ⟨mirrored e, List.mem_range'_1.mpr ⟨Nat.one_le_iff_ne_zero.mpr fun hzero => ?_, hlt⟩, hset, hback⟩
    have hzero' : mirrored 0 = 0 := by decide
    rw [hzero, hzero'] at hback
    omega

end Mirrored

end Mask
end Mappings
end Spearhed
