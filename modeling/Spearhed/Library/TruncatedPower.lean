import Mathlib.Analysis.SpecialFunctions.Integrals.Basic
import Mathlib.MeasureTheory.Integral.IntegralEqImproper

/-!
# Truncated powers

`truncPow n a x` is `(a - x)^n` up to `a`, and zero from there on.  Splines are combinations of these.

* `hasDerivAt_truncPow`: from the second power on they are differentiable, also at `a`.
* `integral_pow_mul_truncPow`: their moments.
-/

namespace Spearhed
namespace Library

open MeasureTheory Set

/-- A truncated power. -/
noncomputable def truncPow (n : ℕ) (a x : ℝ) : ℝ := max (a - x) 0 ^ n

variable {n k : ℕ} {a x : ℝ}

theorem truncPow_of_le (h : x ≤ a) : truncPow n a x = (a - x) ^ n := by
  rw [truncPow, max_eq_left (sub_nonneg.mpr h)]

theorem truncPow_of_ge (hn : n ≠ 0) (h : a ≤ x) : truncPow n a x = 0 := by
  rw [truncPow, max_eq_right (sub_nonpos.mpr h), zero_pow hn]

theorem continuous_truncPow (n : ℕ) (a : ℝ) : Continuous (truncPow n a) :=
  ((continuous_const.sub continuous_id).max continuous_const).pow n

/-! ## Derivatives -/

theorem hasDerivAt_sub_pow (n : ℕ) (a x : ℝ) :
    HasDerivAt (fun x => (a - x) ^ (n + 1)) (-((n + 1 : ℕ) * (a - x) ^ n)) x := by
  have h := ((hasDerivAt_id x).const_sub a).pow (n + 1)
  refine h.congr_deriv ?_
  simp

/-- **A truncated power is differentiable at its knot too.** -/
theorem hasDerivAt_truncPow (n : ℕ) (a x : ℝ) :
    HasDerivAt (truncPow (n + 2) a) (-((n + 2 : ℕ) * truncPow (n + 1) a x)) x := by
  have hleft : x ≤ a → HasDerivWithinAt (truncPow (n + 2) a) (-((n + 2 : ℕ) * truncPow (n + 1) a x))
      (Iic a) x := by
    intro h
    rw [truncPow_of_le h]
    exact (hasDerivAt_sub_pow (n + 1) a x).hasDerivWithinAt.congr (fun y hy => truncPow_of_le hy)
      (truncPow_of_le h)
  have hright : a ≤ x → HasDerivWithinAt (truncPow (n + 2) a) (-((n + 2 : ℕ) * truncPow (n + 1) a x))
      (Ici a) x := by
    intro h
    rw [truncPow_of_ge (Nat.succ_ne_zero n) h, mul_zero, neg_zero]
    exact (hasDerivWithinAt_const x (Ici a) (0 : ℝ)).congr
      (fun y hy => truncPow_of_ge (Nat.succ_ne_zero _) hy) (truncPow_of_ge (Nat.succ_ne_zero _) h)
  rcases lt_trichotomy x a with h | h | h
  · exact (hleft h.le).hasDerivAt (Iic_mem_nhds h)
  · -- at the knot both sides have derivative zero
    have hboth := (hleft h.le).union (hright h.ge)
    rwa [Iic_union_Ici, hasDerivWithinAt_univ] at hboth
  · exact (hright h.le).hasDerivAt (Ici_mem_nhds h)

/-! ## Moments -/

/-- Taking a factor `x` apart. -/
theorem integral_pow_succ_mul (a : ℝ) (k n : ℕ) :
    ∫ x in (0 : ℝ)..a, x ^ (k + 1) * (a - x) ^ n =
      a * (∫ x in (0 : ℝ)..a, x ^ k * (a - x) ^ n) - ∫ x in (0 : ℝ)..a, x ^ k * (a - x) ^ (n + 1) := by
  rw [← intervalIntegral.integral_const_mul, ← intervalIntegral.integral_sub]
  · refine intervalIntegral.integral_congr fun x _ => ?_
    show x ^ (k + 1) * (a - x) ^ n = a * (x ^ k * (a - x) ^ n) - x ^ k * (a - x) ^ (n + 1)
    ring
  · exact Continuous.intervalIntegrable (by fun_prop) _ _
  · exact Continuous.intervalIntegrable (by fun_prop) _ _

theorem integral_pow_mul_sub_pow (a : ℝ) (k n : ℕ) :
    ∫ x in (0 : ℝ)..a, x ^ k * (a - x) ^ n =
      a ^ (n + k + 1) * ((k.factorial * n.factorial : ℝ) / (n + k + 1).factorial) := by
  induction k generalizing n with
  | zero =>
    have hshift : ∫ x in (0 : ℝ)..a, (a - x) ^ n = ∫ x in (0 : ℝ)..a, x ^ n := by
      simpa using intervalIntegral.integral_comp_sub_left (fun u : ℝ => u ^ n) (a := 0) (b := a) a
    have hfactorial : ((n + 1).factorial : ℝ) = (n + 1) * n.factorial := by
      rw [Nat.factorial_succ, Nat.cast_mul, Nat.cast_succ]
    simp only [pow_zero, one_mul, Nat.add_zero, Nat.factorial_zero, Nat.cast_one, hshift, integral_pow,
      hfactorial]
    have hne : (n.factorial : ℝ) ≠ 0 := by exact_mod_cast n.factorial_ne_zero
    field_simp
    ring
  | succ k ih =>
    have hfactorial : ((n + (k + 1) + 1).factorial : ℝ) = (n + k + 2) * (n + k + 1).factorial := by
      rw [← Nat.add_assoc, Nat.factorial_succ]
      push_cast
      ring
    have hk : ((k + 1).factorial : ℝ) = (k + 1) * k.factorial := by
      rw [Nat.factorial_succ, Nat.cast_mul, Nat.cast_succ]
    have hn : ((n + 1).factorial : ℝ) = (n + 1) * n.factorial := by
      rw [Nat.factorial_succ, Nat.cast_mul, Nat.cast_succ]
    have hne : ((n + k + 1).factorial : ℝ) ≠ 0 := by exact_mod_cast Nat.factorial_ne_zero _
    have hpos : (n + k + 2 : ℝ) ≠ 0 := by positivity
    rw [integral_pow_succ_mul, ih n, ih (n + 1), show n + 1 + k + 1 = n + (k + 1) + 1 by ring, hfactorial,
      hk, hn]
    field_simp
    ring

/-- Beyond `a` nothing is left. -/
theorem pow_mul_truncPow_of_notMem (hn : n ≠ 0) : ∀ x ∈ Ioi (0 : ℝ) \ Ioc 0 a, x ^ k * truncPow n a x = 0 := by
  rintro x ⟨hx, hnot⟩
  have hax : a ≤ x := by
    by_contra hlt
    exact hnot ⟨hx, (not_le.mp hlt).le⟩
  rw [truncPow_of_ge hn hax, mul_zero]

theorem integrableOn_pow_mul_truncPow (hn : n ≠ 0) :
    IntegrableOn (fun x => x ^ k * truncPow n a x) (Ioi 0) := by
  have hcont : Continuous fun x => x ^ k * truncPow n a x := (continuous_pow k).mul (continuous_truncPow n a)
  exact (hcont.integrableOn_Icc.mono_set Ioc_subset_Icc_self).of_forall_sdiff_eq_zero measurableSet_Ioi
    (pow_mul_truncPow_of_notMem hn)

/-- **The moments of a truncated power.** -/
theorem integral_pow_mul_truncPow (ha : 0 ≤ a) (hn : n ≠ 0) :
    ∫ x in Ioi 0, x ^ k * truncPow n a x =
      a ^ (n + k + 1) * ((k.factorial * n.factorial : ℝ) / (n + k + 1).factorial) := by
  rw [setIntegral_eq_of_subset_of_forall_sdiff_eq_zero measurableSet_Ioi Ioc_subset_Ioi_self
    (pow_mul_truncPow_of_notMem hn), ← integral_pow_mul_sub_pow, intervalIntegral.integral_of_le ha]
  exact setIntegral_congr_fun measurableSet_Ioc fun x hx => by
    show x ^ k * truncPow n a x = _
    rw [truncPow_of_le hx.2]

end Library
end Spearhed
