import Mathlib.Tactic
import Mathlib.Algebra.Order.Field.Basic
import Mathlib.Algebra.BigOperators.Fin
import Mathlib.Algebra.Order.BigOperators.Group.Finset

/-!
# Axis-aligned boxes

`AABB` of `particles/regions/AABB.hpp`: an origin in global coordinates and an extent relative to
it.  Coordinates are elements of an ordered field, so arithmetic is exact; a coordinate system has
at least one axis, hence `Fin (d + 1)`.  The two values of `std::numeric_limits` that the code uses
are parameters.
-/

namespace Spearhed
namespace Particles

/-- `Vec` and `Point`: one coordinate for every axis. -/
abbrev Vec (K : Type) (d : ℕ) : Type := Fin (d + 1) → K

/-- `std::numeric_limits<TAxis>`, as far as it is used. -/
structure NumericLimits (K : Type) where
  max : K
  lowest : K

/-- `AABB`. -/
@[ext]
structure AABB (K : Type) (d : ℕ) where
  /-- The position of the box in the global coordinate system. -/
  origin : Vec K d
  /-- The extents of the box, relative to its origin. -/
  min : Vec K d
  max : Vec K d

variable {K : Type} [Field K] [LinearOrder K] {d : ℕ}

namespace AABB

/-- A default-constructed box: at the global origin, with nothing in it. -/
def fresh (lim : NumericLimits K) : AABB K d :=
  ⟨fun _ => 0, fun _ => lim.max, fun _ => lim.lowest⟩

/-- `extend(Vec)`. -/
def extend (B : AABB K d) (v : Vec K d) : AABB K d :=
  { B with
    min := fun t => if v t < B.min t then v t else B.min t
    max := fun t => if v t > B.max t then v t else B.max t }

/-- `extend(AABB)`. -/
def extendBox (B other : AABB K d) : AABB K d :=
  { B with
    min := fun t => if other.min t < B.min t then other.min t else B.min t
    max := fun t => if other.max t > B.max t then other.max t else B.max t }

/-- `expand`. -/
def expand (B : AABB K d) (margin : K) : AABB K d :=
  { B with min := fun t => B.min t - margin, max := fun t => B.max t + margin }

/-- `getPosition`. -/
def getPosition (B : AABB K d) (relativePos : Vec K d) : Vec K d :=
  fun t => B.origin t + relativePos t

/-- `intersects`. -/
def intersects (a b : AABB K d) : Bool :=
  decide (∀ t, ¬ (a.min t > b.max t ∨ a.max t < b.min t))

/-- The box contains a position given relative to its origin. -/
def Contains (B : AABB K d) (v : Vec K d) : Prop := ∀ t, B.min t ≤ v t ∧ v t ≤ B.max t

omit [Field K] in
theorem intersects_iff {a b : AABB K d} :
    a.intersects b = true ↔ ∀ t, a.min t ≤ b.max t ∧ b.min t ≤ a.max t := by
  simp only [intersects, decide_eq_true_eq, not_or, gt_iff_lt, not_lt]

/-- What the neighbour search tests. -/
theorem expand_intersects_iff {a b : AABB K d} {R : K} :
    (a.expand R).intersects b = true ↔
      ∀ t, a.min t - R ≤ b.max t ∧ b.min t ≤ a.max t + R :=
  intersects_iff

end AABB

/-- The squared length of a vector. -/
def normSq (v : Vec K d) : K := ∑ t, v t * v t

variable [IsStrictOrderedRing K]

/-- Two boxes find each other, or neither does. -/
theorem AABB.expand_intersects_comm (a b : AABB K d) (R : K) :
    (a.expand R).intersects b = (b.expand R).intersects a := by
  rw [Bool.eq_iff_iff, expand_intersects_iff, expand_intersects_iff]
  refine forall_congr' fun t => ?_
  rw [sub_le_iff_le_add, sub_le_iff_le_add, and_comm]

/-- A vector shorter than `R` is shorter than `R` along every axis. -/
theorem abs_lt_of_normSq_lt {v : Vec K d} {R : K} (h : normSq v < R * R) (t : Fin (d + 1)) :
    |v t| < |R| := by
  have hle : v t * v t ≤ normSq v :=
    Finset.single_le_sum (f := fun t => v t * v t) (fun s _ => mul_self_nonneg (v s))
      (Finset.mem_univ t)
  exact sq_lt_sq.mp (by rw [sq, sq]; exact lt_of_le_of_lt hle h)

/-- Boxes of points closer than `R` meet, once one of them is expanded by `R`. -/
theorem AABB.expand_intersects_of_normSq_lt {a b : AABB K d} {v w : Vec K d} {R : K} (hR : 0 ≤ R)
    (hv : a.Contains v) (hw : b.Contains w) (h : normSq (fun t => v t - w t) < R * R) :
    (a.expand R).intersects b = true := by
  rw [expand_intersects_iff]
  intro t
  have habs := abs_lt_of_normSq_lt h t
  rw [abs_of_nonneg hR] at habs
  obtain ⟨hlow, hhigh⟩ := abs_lt.mp habs
  constructor <;> linarith [(hv t).1, (hv t).2, (hw t).1, (hw t).2]

namespace AABB

/-! ## The distance of two boxes

In global coordinates, so the origins count. -/

/-- How far two boxes are apart along every axis, in global coordinates; zero where they overlap. -/
def gap (a b : AABB K d) : Vec K d := fun t =>
  Max.max 0 (Max.max (b.getPosition b.min t - a.getPosition a.max t)
    (a.getPosition a.min t - b.getPosition b.max t))

/-- There is a position in the box. -/
def Proper (B : AABB K d) : Prop := ∀ t, B.min t ≤ B.max t

/-- Neither box is empty, and they come closer than `R` in global coordinates. -/
def CloserThan (a b : AABB K d) (R : K) : Prop :=
  a.Proper ∧ b.Proper ∧ normSq (a.gap b) < R * R

theorem gap_le {a b : AABB K d} {v w : Vec K d} (hv : a.Contains v) (hw : b.Contains w)
    (t : Fin (d + 1)) : a.gap b t ≤ |a.getPosition v t - b.getPosition w t| := by
  obtain ⟨hvmin, hvmax⟩ := hv t
  obtain ⟨hwmin, hwmax⟩ := hw t
  refine max_le (abs_nonneg _) (max_le ?_ ?_)
  · refine le_trans ?_ (neg_le_abs _)
    simp only [getPosition]
    linarith
  · refine le_trans ?_ (le_abs_self _)
    simp only [getPosition]
    linarith

/-- Two intervals have points whose distance is the gap between them. -/
theorem exists_abs_eq_gap {p q r s : K} (hpq : p ≤ q) (hrs : r ≤ s) :
    ∃ x y, (p ≤ x ∧ x ≤ q) ∧ (r ≤ y ∧ y ≤ s) ∧
      |x - y| = Max.max 0 (Max.max (r - q) (p - s)) := by
  rcases le_total q r with hqr | hrq
  · refine ⟨q, r, ⟨hpq, le_rfl⟩, ⟨le_rfl, hrs⟩, ?_⟩
    rw [abs_of_nonpos (by linarith), max_eq_left (show p - s ≤ r - q by linarith),
      max_eq_right (by linarith), neg_sub]
  rcases le_total s p with hsp | hps
  · refine ⟨p, s, ⟨le_rfl, hpq⟩, ⟨hrs, le_rfl⟩, ?_⟩
    rw [abs_of_nonneg (by linarith), max_eq_right (show r - q ≤ p - s by linarith),
      max_eq_right (by linarith)]
  · -- the intervals overlap, in the larger of their lower ends
    refine ⟨Max.max p r, Max.max p r, ⟨le_max_left _ _, max_le hpq hrq⟩,
      ⟨le_max_right _ _, max_le hps hrs⟩, ?_⟩
    rw [sub_self, abs_zero, max_eq_left (max_le (by linarith) (by linarith))]

/-- **Boxes come closer than `R` when points of them can.** -/
theorem closerThan_iff {a b : AABB K d} {R : K} : a.CloserThan b R ↔
    ∃ v w, a.Contains v ∧ b.Contains w ∧ normSq (a.getPosition v - b.getPosition w) < R * R := by
  constructor
  · rintro ⟨ha, hb, hlt⟩
    have haxis : ∀ t, ∃ x y, (a.min t ≤ x ∧ x ≤ a.max t) ∧ (b.min t ≤ y ∧ y ≤ b.max t) ∧
        |(a.origin t + x) - (b.origin t + y)| = a.gap b t := fun t => by
      obtain ⟨x, y, hx, hy, hxy⟩ := exists_abs_eq_gap
        (add_le_add_right (ha t) (a.origin t)) (add_le_add_right (hb t) (b.origin t))
      refine ⟨x - a.origin t, y - b.origin t, ⟨?_, ?_⟩, ⟨?_, ?_⟩, ?_⟩
      any_goals linarith [hx.1, hx.2, hy.1, hy.2]
      rw [add_sub_cancel, add_sub_cancel, hxy]
      rfl
    choose v w hv hw hgap using haxis
    refine ⟨v, w, hv, hw, lt_of_eq_of_lt (Finset.sum_congr rfl fun t _ => ?_) hlt⟩
    rw [← hgap t, abs_mul_abs_self]
    rfl
  · rintro ⟨v, w, hv, hw, hlt⟩
    refine ⟨fun t => (hv t).1.trans (hv t).2, fun t => (hw t).1.trans (hw t).2,
      lt_of_le_of_lt (Finset.sum_le_sum fun t _ => ?_) hlt⟩
    calc a.gap b t * a.gap b t
        ≤ |a.getPosition v t - b.getPosition w t| * |a.getPosition v t - b.getPosition w t| :=
          mul_self_le_mul_self (le_max_left _ _) (gap_le hv hw t)
      _ = (a.getPosition v - b.getPosition w) t * (a.getPosition v - b.getPosition w) t :=
          abs_mul_abs_self _

end AABB

end Particles
end Spearhed
