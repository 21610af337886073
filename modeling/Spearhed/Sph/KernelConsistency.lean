import Mathlib.Analysis.Calculus.Deriv.MeanValue
import Mathlib.MeasureTheory.Constructions.HaarToSphere
import Mathlib.MeasureTheory.Measure.Lebesgue.VolumeOfBalls
import Spearhed.Library.Literals
import Spearhed.Library.TruncatedPower
import Spearhed.Sph.SphKernel

/-!
# The smoothing kernels over the reals

A smoothing kernel is a radial profile, stretched to the smoothing length and scaled so that its
integral over space is one.  What is asked of a kernel follows from what its profile does; the branches
of the code's kernels are those of combinations of truncated powers.

* `HasProfile.consistent`: a kernel with a profile is consistent.
* `cubicSplineKernel_hasProfile`, `quinticSplineKernel_hasProfile`: the profiles of the two kernels.
* `splineKernels_consistent`: both are consistent in one, two and three dimensions.
-/

namespace Spearhed
namespace Sph

open MeasureTheory Set Library Library.Literals

/-- The size of the sphere around the origin. -/
noncomputable def surface (dim : ℕ) (r : ℝ) : ℝ :=
  if dim = 1 then 2 else if dim = 2 then 2 * Real.pi * r else 4 * Real.pi * r ^ 2

/-- **A consistent kernel**: its value and its gradient belong together.  The gradients agree for any
vector, so for one of length `r`. -/
structure SphKernel.Consistent (kernel : SphKernel ℝ) (dim : ℕ) : Prop where
  hasDerivAt : ∀ r h, 0 < r → 0 < h → HasDerivAt (fun r => kernel.W r h) (kernel.dWdr r h) r
  continuousOn : ∀ h, 0 < h → ContinuousOn (fun r => kernel.dWdr r h) (Ici 0)
  nonneg : ∀ r h, 0 ≤ r → 0 < h → 0 ≤ kernel.W r h
  antitone : ∀ h, 0 < h → AntitoneOn (fun r => kernel.W r h) (Ici 0)
  eq_zero_iff : ∀ r h, 0 ≤ r → 0 < h → (kernel.W r h = 0 ↔ kernel.supportRadius * h ≤ r)
  dWdr_zero : ∀ h, 0 < h → kernel.dWdr 0 h = 0
  dWdr_nonpos : ∀ r h, 0 ≤ r → 0 < h → kernel.dWdr r h ≤ 0
  gradW_eq : ∀ (rVec : Fin dim → ℝ) (r h : ℝ), 0 ≤ r →
    (fun tag => kernel.gradWScalar r (1 / r) h * rVec tag) = kernel.gradW rVec r h
  gradW_zero : ∀ (rVec : Fin dim → ℝ) (r invR h : ℝ), r = 0 ∨ kernel.supportRadius * h ≤ r →
    kernel.gradWScalar r invR h = 0 ∧ kernel.gradW rVec r h = 0
  scaling : ∀ r h, 0 ≤ r → 0 < h → kernel.W r h = h ^ (-(dim : ℤ)) * kernel.W (r / h) 1
  integral : ∀ h, 0 < h → ∫ r in Ioi 0, surface dim r * kernel.W r h = 1
  integral_space : ∀ h, 0 < h → ∫ x : EuclideanSpace ℝ (Fin dim), kernel.W ‖x‖ h = 1

/-! ## Radial profiles -/

/-- What a kernel looks like at smoothing length one, up to a factor. -/
structure RadialProfile where
  support : ℝ
  value : ℝ → ℝ
  slope : ℝ → ℝ
  hasDerivAt : ∀ x, HasDerivAt value (slope x) x
  continuous_slope : Continuous slope
  slope_zero : slope 0 = 0
  slope_nonpos : ∀ x, 0 ≤ x → slope x ≤ 0
  value_pos : ∀ x, 0 ≤ x → x < support → 0 < value x
  value_zero : ∀ x, support ≤ x → value x = 0

namespace RadialProfile

variable (P : RadialProfile)

theorem value_nonneg {x : ℝ} (hx : 0 ≤ x) : 0 ≤ P.value x := by
  rcases lt_or_ge x P.support with h | h
  · exact (P.value_pos x hx h).le
  · exact (P.value_zero x h).ge

theorem value_eq_zero_iff {x : ℝ} (hx : 0 ≤ x) : P.value x = 0 ↔ P.support ≤ x := by
  refine ⟨fun h => ?_, P.value_zero x⟩
  by_contra hlt
  exact (P.value_pos x hx (not_le.mp hlt)).ne' h

theorem antitoneOn : AntitoneOn P.value (Ici 0) := by
  refine antitoneOn_of_deriv_nonpos (convex_Ici 0)
    (fun x _ => (P.hasDerivAt x).continuousAt.continuousWithinAt)
    (fun x _ => (P.hasDerivAt x).differentiableAt.differentiableWithinAt) fun x hx => ?_
  rw [interior_Ici] at hx
  rw [(P.hasDerivAt x).deriv]
  exact P.slope_nonpos x (le_of_lt hx)

end RadialProfile

/-- The kernel is a stretched and scaled profile. -/
structure SphKernel.HasProfile (kernel : SphKernel ℝ) (dim : ℕ) (P : RadialProfile) (norm : ℝ) : Prop where
  support : (kernel.supportRadius : ℝ) = P.support
  norm_pos : 0 < norm
  W_eq : ∀ r h, 0 ≤ r → 0 < h → kernel.W r h = norm / h ^ dim * P.value (r / h)
  dWdr_eq : ∀ r h, 0 ≤ r → 0 < h → kernel.dWdr r h = norm / h ^ (dim + 1) * P.slope (r / h)
  normalised : norm * ∫ x in Ioi 0, surface dim x * P.value x = 1

/-- A larger sphere. -/
theorem surface_mul {dim : ℕ} (hdim : 1 ≤ dim ∧ dim ≤ 3) (h x : ℝ) :
    surface dim (h * x) = h ^ (dim - 1) * surface dim x := by
  obtain ⟨hone, hthree⟩ := hdim
  interval_cases dim
  · simp [surface]
  · simp [surface]
    ring
  · simp [surface]
    ring

/-- The spheres of Euclidean space. -/
theorem surface_eq {dim : ℕ} (hdim : 1 ≤ dim ∧ dim ≤ 3) (r : ℝ) :
    surface dim r = dim * volume.real (Metric.ball (0 : EuclideanSpace ℝ (Fin dim)) 1) * r ^ (dim - 1) := by
  have hpi := Real.pi_pos
  obtain ⟨hone, hthree⟩ := hdim
  unfold surface Measure.real
  interval_cases dim
  · have hgamma : Real.Gamma (1 / 2 + 1) = √Real.pi / 2 := by
      rw [Real.Gamma_add_one (by norm_num), Real.Gamma_one_half_eq]
      ring
    have hroot : √Real.pi ≠ 0 := (Real.sqrt_pos.mpr hpi).ne'
    rw [EuclideanSpace.volume_ball]
    simp only [Fintype.card_fin, Nat.cast_one, pow_one, ENNReal.ofReal_one, one_mul, hgamma]
    rw [ENNReal.toReal_ofReal (by positivity)]
    simp
    field_simp
  · rw [EuclideanSpace.volume_ball_fin_two]
    simp [ENNReal.toReal_ofReal hpi.le]
  · rw [EuclideanSpace.volume_ball_fin_three]
    simp only [ENNReal.ofReal_one, one_pow, one_mul]
    rw [ENNReal.toReal_ofReal (by positivity), if_neg (by norm_num), if_neg (by norm_num)]
    push_cast
    ring

/-! ## What the profile says about the kernel -/

namespace SphKernel

variable {kernel : SphKernel ℝ} {dim : ℕ} {P : RadialProfile} {norm : ℝ}

/-- The vector gradient is a multiple of the distance, whatever the kernel. -/
theorem gradWScalar_mul (kernel : SphKernel ℝ) {d : ℕ} (rVec : Fin d → ℝ) {r : ℝ} (hr : 0 ≤ r) (h : ℝ) :
    (fun tag => kernel.gradWScalar r (1 / r) h * rVec tag) = kernel.gradW rVec r h := by
  have hguard : (¬ r > 0 ∨ r ≥ kernel.supportRadius * h) ↔ r = 0 ∨ r ≥ kernel.supportRadius * h :=
    or_congr_left ⟨fun h => le_antisymm (not_lt.mp h) hr, fun h => h.not_gt⟩
  funext tag
  unfold gradWScalar gradW
  by_cases hzero : r = 0 ∨ r ≥ kernel.supportRadius * h
  · rw [if_pos (hguard.mpr hzero), if_pos hzero, zero_mul]
  · rw [if_neg (mt hguard.mp hzero), if_neg hzero]
    ring

theorem gradW_eq_zero (kernel : SphKernel ℝ) {d : ℕ} (rVec : Fin d → ℝ) {r h : ℝ} (invR : ℝ)
    (hzero : r = 0 ∨ kernel.supportRadius * h ≤ r) :
    kernel.gradWScalar r invR h = 0 ∧ kernel.gradW rVec r h = 0 :=
  ⟨if_pos (hzero.imp_left fun hr => hr.not_gt), if_pos hzero⟩

namespace HasProfile

theorem scale_pos (K : kernel.HasProfile dim P norm) {h : ℝ} (hh : 0 < h) (n : ℕ) : 0 < norm / h ^ n :=
  div_pos K.norm_pos (pow_pos hh n)

/-- **The derivative**, where the distance is not zero. -/
theorem hasDerivAt (K : kernel.HasProfile dim P norm) {r h : ℝ} (hr : 0 < r) (hh : 0 < h) :
    HasDerivAt (fun r => kernel.W r h) (kernel.dWdr r h) r := by
  have hprofile : HasDerivAt (fun r => norm / h ^ dim * P.value (r / h))
      (norm / h ^ dim * (P.slope (r / h) * (1 / h))) r :=
    ((P.hasDerivAt (r / h)).comp r ((hasDerivAt_id r).div_const h)).const_mul _
  have hslope : norm / h ^ dim * (P.slope (r / h) * (1 / h)) = kernel.dWdr r h := by
    rw [K.dWdr_eq r h hr.le hh, pow_succ]
    field_simp
  rw [hslope] at hprofile
  refine hprofile.congr_of_eventuallyEq ?_
  filter_upwards [Ioi_mem_nhds hr] with s hs
  exact K.W_eq s h (le_of_lt hs) hh

theorem continuousOn (K : kernel.HasProfile dim P norm) {h : ℝ} (hh : 0 < h) :
    ContinuousOn (fun r => kernel.dWdr r h) (Ici 0) := by
  have hcont : Continuous fun r => norm / h ^ (dim + 1) * P.slope (r / h) :=
    continuous_const.mul (P.continuous_slope.comp (continuous_id.div_const h))
  exact hcont.continuousOn.congr fun r hr => K.dWdr_eq r h hr hh

theorem antitone (K : kernel.HasProfile dim P norm) {h : ℝ} (hh : 0 < h) :
    AntitoneOn (fun r => kernel.W r h) (Ici 0) := by
  intro r hr s hs hrs
  have hr' : 0 ≤ r := hr
  have hs' : 0 ≤ s := hs
  show kernel.W s h ≤ kernel.W r h
  rw [K.W_eq r h hr hh, K.W_eq s h hs hh]
  refine mul_le_mul_of_nonneg_left (P.antitoneOn ?_ ?_ ?_) (K.scale_pos hh dim).le
  · exact div_nonneg hr' hh.le
  · exact div_nonneg hs' hh.le
  · exact div_le_div_of_nonneg_right hrs hh.le

theorem eq_zero_iff (K : kernel.HasProfile dim P norm) {r h : ℝ} (hr : 0 ≤ r) (hh : 0 < h) :
    kernel.W r h = 0 ↔ kernel.supportRadius * h ≤ r := by
  rw [K.W_eq r h hr hh, mul_eq_zero, or_iff_right (K.scale_pos hh dim).ne',
    P.value_eq_zero_iff (div_nonneg hr hh.le), K.support, le_div_iff₀ hh]

theorem scaling (K : kernel.HasProfile dim P norm) {r h : ℝ} (hr : 0 ≤ r) (hh : 0 < h) :
    kernel.W r h = h ^ (-(dim : ℤ)) * kernel.W (r / h) 1 := by
  rw [K.W_eq r h hr hh, K.W_eq (r / h) 1 (div_nonneg hr hh.le) one_pos, zpow_neg, zpow_natCast, one_pow,
    div_one, div_one]
  field_simp

/-- **The integral over the spheres.** -/
theorem integral (K : kernel.HasProfile dim P norm) (hdim : 1 ≤ dim ∧ dim ≤ 3) {h : ℝ} (hh : 0 < h) :
    ∫ r in Ioi 0, surface dim r * kernel.W r h = 1 := by
  have hscaled : ∀ r ∈ Ioi (0 : ℝ), surface dim r * kernel.W r h =
      norm / h * (surface dim (h⁻¹ * r) * P.value (h⁻¹ * r)) := by
    intro r hr
    have hsurface := surface_mul hdim h (h⁻¹ * r)
    rw [mul_inv_cancel_left₀ hh.ne'] at hsurface
    have hpow : h ^ dim = h ^ (dim - 1) * h := by rw [← pow_succ, Nat.sub_add_cancel hdim.1]
    rw [hsurface, K.W_eq r h (le_of_lt hr) hh, hpow, div_eq_inv_mul r h]
    field_simp
  rw [setIntegral_congr_fun measurableSet_Ioi hscaled, integral_const_mul,
    integral_comp_mul_left_Ioi (fun x => surface dim x * P.value x) 0 (inv_pos.mpr hh), mul_zero, inv_inv,
    smul_eq_mul, ← K.normalised]
  field_simp

/-- **The integral over space.** -/
theorem integral_space (K : kernel.HasProfile dim P norm) (hdim : 1 ≤ dim ∧ dim ≤ 3) {h : ℝ} (hh : 0 < h) :
    ∫ x : EuclideanSpace ℝ (Fin dim), kernel.W ‖x‖ h = 1 := by
  have hnontrivial : Nontrivial (EuclideanSpace ℝ (Fin dim)) := by
    have : Nonempty (Fin dim) := ⟨⟨0, hdim.1⟩⟩
    infer_instance
  rw [integral_fun_norm_addHaar volume fun r => kernel.W r h, finrank_euclideanSpace_fin, nsmul_eq_mul,
    smul_eq_mul, ← mul_assoc, ← integral_const_mul]
  refine Eq.trans ?_ (K.integral hdim hh)
  refine setIntegral_congr_fun measurableSet_Ioi fun r _ => ?_
  show _ * (r ^ (dim - 1) • kernel.W r h) = surface dim r * kernel.W r h
  rw [surface_eq hdim, smul_eq_mul]
  ring

/-- **A kernel with a profile is consistent.** -/
theorem consistent (K : kernel.HasProfile dim P norm) (hdim : 1 ≤ dim ∧ dim ≤ 3) : kernel.Consistent dim where
  hasDerivAt r h hr hh := K.hasDerivAt hr hh
  continuousOn h hh := K.continuousOn hh
  nonneg r h hr hh := by
    rw [K.W_eq r h hr hh]
    exact mul_nonneg (K.scale_pos hh dim).le (P.value_nonneg (div_nonneg hr hh.le))
  antitone h hh := K.antitone hh
  eq_zero_iff r h hr hh := K.eq_zero_iff hr hh
  dWdr_zero h hh := by rw [K.dWdr_eq 0 h le_rfl hh, zero_div, P.slope_zero, mul_zero]
  dWdr_nonpos r h hr hh := by
    rw [K.dWdr_eq r h hr hh]
    exact mul_nonpos_of_nonneg_of_nonpos (K.scale_pos hh (dim + 1)).le
      (P.slope_nonpos _ (div_nonneg hr hh.le))
  gradW_eq rVec r h hr := kernel.gradWScalar_mul rVec hr h
  gradW_zero rVec r invR h hzero := kernel.gradW_eq_zero rVec invR hzero
  scaling r h hr hh := K.scaling hr hh
  integral h hh := K.integral hdim hh
  integral_space h hh := K.integral_space hdim hh

end HasProfile

end SphKernel

/-- The integral over the spheres is a moment. -/
theorem integral_surface_mul {dim : ℕ} (hdim : 1 ≤ dim ∧ dim ≤ 3) (f : ℝ → ℝ) :
    ∫ x in Ioi 0, surface dim x * f x = surface dim 1 * ∫ x in Ioi 0, x ^ (dim - 1) * f x := by
  rw [← integral_const_mul]
  refine setIntegral_congr_fun measurableSet_Ioi fun x _ => ?_
  have hsurface := surface_mul hdim x 1
  rw [mul_one] at hsurface
  show surface dim x * f x = surface dim 1 * (x ^ (dim - 1) * f x)
  rw [hsurface]
  ring

/-! ## The cubic spline -/

theorem hPow_eq {K : Type} [Field K] (h : K) (n : ℕ) : hPow h n = h ^ n := by
  unfold hPow
  induction n with
  | zero => simp
  | succ n ih => rw [List.range_succ, List.foldl_append, ih, List.foldl_cons, List.foldl_nil, pow_succ]

/-- The profile of the cubic spline. -/
noncomputable def cubicProfile : RadialProfile where
  support := 2
  value x := 1 / 4 * truncPow 3 2 x - truncPow 3 1 x
  slope x := -(3 / 4) * truncPow 2 2 x + 3 * truncPow 2 1 x
  hasDerivAt x := by
    have h := ((hasDerivAt_truncPow 1 2 x).const_mul (1 / 4)).sub (hasDerivAt_truncPow 1 1 x)
    refine h.congr_deriv ?_
    push_cast
    ring
  continuous_slope := ((continuous_truncPow 2 2).const_mul _).add ((continuous_truncPow 2 1).const_mul _)
  slope_zero := by
    rw [truncPow_of_le (by norm_num), truncPow_of_le (by norm_num)]
    norm_num
  slope_nonpos x hx := by
    rcases le_total x 1 with h1 | h1
    · rw [truncPow_of_le (by linarith), truncPow_of_le h1]
      nlinarith
    · rw [truncPow_of_ge (by norm_num) h1, mul_zero, add_zero]
      exact mul_nonpos_of_nonpos_of_nonneg (by norm_num) (pow_nonneg (le_max_right _ _) 2)
  value_pos x hx hlt := by
    rcases le_total x 1 with h1 | h1
    · rw [truncPow_of_le hlt.le, truncPow_of_le h1]
      have hfactor : 1 / 4 * (2 - x) ^ 3 - (1 - x) ^ 3 = 1 / 4 + 3 / 4 * ((1 - x) * (1 + x * (1 - x))) := by ring
      have hc : 0 ≤ 1 - x := sub_nonneg.mpr h1
      rw [hfactor]
      positivity
    · rw [truncPow_of_le hlt.le, truncPow_of_ge (by norm_num) h1, sub_zero]
      exact mul_pos (by norm_num) (pow_pos (sub_pos.mpr hlt) 3)
  value_zero x hx := by
    rw [truncPow_of_ge (by norm_num) hx, truncPow_of_ge (by norm_num) (by linarith), mul_zero, sub_zero]

theorem cubicProfile_W (x : ℝ) : (if x < 1 then 1 - 3 / 2 * x * x + 3 / 4 * x * x * x
    else if x < 2 then 1 / 4 * (2 - x) * (2 - x) * (2 - x) else 0) = cubicProfile.value x := by
  show _ = 1 / 4 * truncPow 3 2 x - truncPow 3 1 x
  split
  · next h =>
    rw [truncPow_of_le (by linarith), truncPow_of_le h.le]
    ring
  · next h =>
    rw [truncPow_of_ge (by norm_num) (not_lt.mp h), sub_zero]
    split
    · next h2 =>
      rw [truncPow_of_le h2.le]
      ring
    · next h2 => rw [truncPow_of_ge (by norm_num) (not_lt.mp h2), mul_zero]

theorem cubicProfile_dWdr {x : ℝ} (hx : 0 ≤ x) : (if x ≥ 0 ∧ x < 1 then 9 / 4 * x * x - 3 * x
    else if x < 2 then -(3 / 4) * (2 - x) * (2 - x) else 0) = cubicProfile.slope x := by
  show _ = -(3 / 4) * truncPow 2 2 x + 3 * truncPow 2 1 x
  split
  · next h =>
    rw [truncPow_of_le (by linarith), truncPow_of_le h.2.le]
    ring
  · next h =>
    rw [truncPow_of_ge (by norm_num) (not_lt.mp fun hlt => h ⟨hx, hlt⟩), mul_zero, add_zero]
    split
    · next h2 =>
      rw [truncPow_of_le h2.le]
      ring
    · next h2 => rw [truncPow_of_ge (by norm_num) (not_lt.mp h2), mul_zero]

/-- The moments of the profile. -/
theorem cubicProfile_moment (k : ℕ) : ∫ x in Ioi 0, x ^ k * cubicProfile.value x =
    (1 / 4 * 2 ^ (3 + k + 1) - 1) * ((k.factorial * Nat.factorial 3 : ℝ) / (3 + k + 1).factorial) := by
  have hsplit : ∀ x : ℝ, x ^ k * cubicProfile.value x =
      1 / 4 * (x ^ k * truncPow 3 2 x) - x ^ k * truncPow 3 1 x := fun x => by
    show x ^ k * (1 / 4 * truncPow 3 2 x - truncPow 3 1 x) = _
    ring
  simp only [hsplit]
  rw [integral_sub ((integrableOn_pow_mul_truncPow (by norm_num)).const_mul _)
      (integrableOn_pow_mul_truncPow (by norm_num)), integral_const_mul,
    integral_pow_mul_truncPow (by norm_num) (by norm_num),
    integral_pow_mul_truncPow (by norm_num) (by norm_num)]
  ring

/-- **The profile of the cubic spline kernel.** -/
theorem cubicSplineKernel_hasProfile {dim : ℕ} (hdim : 1 ≤ dim ∧ dim ≤ 3) :
    (cubicSplineKernel Real.pi dim).HasProfile dim cubicProfile (cubicNorm Real.pi dim) where
  support := by norm_num [cubicSplineKernel, cubicProfile]
  norm_pos := by
    have hpi := Real.pi_pos
    unfold cubicNorm
    split
    · norm_num
    · split <;> positivity
  W_eq r h hr hh := by
    rw [← cubicProfile_W, ← hPow_eq]
    rfl
  dWdr_eq r h hr hh := by
    rw [← cubicProfile_dWdr (div_nonneg hr hh.le), ← hPow_eq]
    rfl
  normalised := by
    have hpi := Real.pi_pos.ne'
    rw [integral_surface_mul hdim, cubicProfile_moment]
    obtain ⟨hone, hthree⟩ := hdim
    unfold cubicNorm surface
    interval_cases dim
    all_goals
      norm_num [Nat.factorial]
    all_goals
      field_simp
    all_goals
      norm_num

/-! ## The quintic spline -/

/-- The profile of the quintic spline. -/
noncomputable def quinticProfile : RadialProfile where
  support := 3
  value x := truncPow 5 3 x - 6 * truncPow 5 2 x + 15 * truncPow 5 1 x
  slope x := -5 * truncPow 4 3 x + 30 * truncPow 4 2 x - 75 * truncPow 4 1 x
  hasDerivAt x := by
    have h := ((hasDerivAt_truncPow 3 3 x).sub ((hasDerivAt_truncPow 3 2 x).const_mul 6)).add
      ((hasDerivAt_truncPow 3 1 x).const_mul 15)
    refine h.congr_deriv ?_
    push_cast
    ring
  continuous_slope := (((continuous_truncPow 4 3).const_mul _).add ((continuous_truncPow 4 2).const_mul _)).sub
    ((continuous_truncPow 4 1).const_mul _)
  slope_zero := by
    rw [truncPow_of_le (by norm_num), truncPow_of_le (by norm_num), truncPow_of_le (by norm_num)]
    norm_num
  slope_nonpos x hx := by
    rcases le_total x 1 with h1 | h1
    · rw [truncPow_of_le (by linarith), truncPow_of_le (by linarith), truncPow_of_le h1]
      have hfactor : -5 * (3 - x) ^ 4 + 30 * (2 - x) ^ 4 - 75 * (1 - x) ^ 4 =
          -(10 * x * (12 * ((1 - x) * (1 + x)) + 5 * x ^ 3)) := by ring
      have hc : 0 ≤ 1 - x := sub_nonneg.mpr h1
      rw [hfactor]
      exact neg_nonpos.mpr (by positivity)
    · rw [truncPow_of_ge (by norm_num) h1, mul_zero, sub_zero]
      rcases le_total x 2 with h2 | h2
      · rw [truncPow_of_le (by linarith), truncPow_of_le h2]
        have hpow : (2 * (2 - x)) ^ 4 ≤ (3 - x) ^ 4 := by
          gcongr
          linarith
        nlinarith [pow_nonneg (sub_nonneg.mpr h2) 4]
      · rw [truncPow_of_ge (by norm_num) h2, mul_zero, add_zero]
        exact mul_nonpos_of_nonpos_of_nonneg (by norm_num) (pow_nonneg (le_max_right _ _) 4)
  value_pos x hx hlt := by
    rw [truncPow_of_le hlt.le]
    have ha : 0 < (3 - x) ^ 5 := pow_pos (sub_pos.mpr hlt) 5
    rcases le_total x 1 with h1 | h1
    · rw [truncPow_of_le (by linarith), truncPow_of_le h1]
      have hfactor : (3 - x) ^ 5 - 6 * (2 - x) ^ 5 + 15 * (1 - x) ^ 5 =
          6 + 60 * ((1 - x) * (1 + x)) + 10 * x ^ 4 * (2 + (1 - x)) := by ring
      have hc : 0 ≤ 1 - x := sub_nonneg.mpr h1
      rw [hfactor]
      positivity
    · rw [truncPow_of_ge (by norm_num) h1, mul_zero, add_zero]
      rcases le_total x 2 with h2 | h2
      · rw [truncPow_of_le h2]
        have hpow : (2 * (2 - x)) ^ 5 ≤ (3 - x) ^ 5 := by
          gcongr
          linarith
        nlinarith [pow_nonneg (sub_nonneg.mpr h2) 5]
      · rw [truncPow_of_ge (by norm_num) h2, mul_zero, sub_zero]
        exact ha
  value_zero x hx := by
    rw [truncPow_of_ge (by norm_num) hx, truncPow_of_ge (by norm_num) (by linarith),
      truncPow_of_ge (by norm_num) (by linarith), mul_zero, mul_zero, sub_zero, add_zero]

theorem quinticProfile_W (x : ℝ) :
    (if x < 1 then (3 - x) * (3 - x) * (3 - x) * (3 - x) * (3 - x) -
        6 * (2 - x) * (2 - x) * (2 - x) * (2 - x) * (2 - x) +
        15 * (1 - x) * (1 - x) * (1 - x) * (1 - x) * (1 - x)
      else if x < 2 then (3 - x) * (3 - x) * (3 - x) * (3 - x) * (3 - x) -
        6 * (2 - x) * (2 - x) * (2 - x) * (2 - x) * (2 - x)
      else if x < 3 then (3 - x) * (3 - x) * (3 - x) * (3 - x) * (3 - x) else 0) =
      quinticProfile.value x := by
  show _ = truncPow 5 3 x - 6 * truncPow 5 2 x + 15 * truncPow 5 1 x
  split
  · next h =>
    rw [truncPow_of_le (by linarith), truncPow_of_le (by linarith), truncPow_of_le h.le]
    ring
  · next h =>
    rw [truncPow_of_ge (by norm_num) (not_lt.mp h), mul_zero, add_zero]
    split
    · next h2 =>
      rw [truncPow_of_le (by linarith), truncPow_of_le h2.le]
      ring
    · next h2 =>
      rw [truncPow_of_ge (by norm_num) (not_lt.mp h2), mul_zero, sub_zero]
      split
      · next h3 =>
        rw [truncPow_of_le h3.le]
        ring
      · next h3 => rw [truncPow_of_ge (by norm_num) (not_lt.mp h3)]

theorem quinticProfile_dWdr (x : ℝ) :
    (if x < 1 then -5 * (3 - x) * (3 - x) * (3 - x) * (3 - x) + 30 * (2 - x) * (2 - x) * (2 - x) * (2 - x) -
        75 * (1 - x) * (1 - x) * (1 - x) * (1 - x)
      else if x < 2 then
        -5 * (3 - x) * (3 - x) * (3 - x) * (3 - x) + 30 * (2 - x) * (2 - x) * (2 - x) * (2 - x)
      else if x < 3 then -5 * (3 - x) * (3 - x) * (3 - x) * (3 - x) else 0) = quinticProfile.slope x := by
  show _ = -5 * truncPow 4 3 x + 30 * truncPow 4 2 x - 75 * truncPow 4 1 x
  split
  · next h =>
    rw [truncPow_of_le (by linarith), truncPow_of_le (by linarith), truncPow_of_le h.le]
    ring
  · next h =>
    rw [truncPow_of_ge (by norm_num) (not_lt.mp h), mul_zero, sub_zero]
    split
    · next h2 =>
      rw [truncPow_of_le (by linarith), truncPow_of_le h2.le]
      ring
    · next h2 =>
      rw [truncPow_of_ge (by norm_num) (not_lt.mp h2), mul_zero, add_zero]
      split
      · next h3 =>
        rw [truncPow_of_le h3.le]
        ring
      · next h3 => rw [truncPow_of_ge (by norm_num) (not_lt.mp h3), mul_zero]

/-- The moments of the profile. -/
theorem quinticProfile_moment (k : ℕ) : ∫ x in Ioi 0, x ^ k * quinticProfile.value x =
    (3 ^ (5 + k + 1) - 6 * 2 ^ (5 + k + 1) + 15) *
      ((k.factorial * Nat.factorial 5 : ℝ) / (5 + k + 1).factorial) := by
  have hsplit : ∀ x : ℝ, x ^ k * quinticProfile.value x =
      x ^ k * truncPow 5 3 x - 6 * (x ^ k * truncPow 5 2 x) + 15 * (x ^ k * truncPow 5 1 x) := fun x => by
    show x ^ k * (truncPow 5 3 x - 6 * truncPow 5 2 x + 15 * truncPow 5 1 x) = _
    ring
  have hintegrable : ∀ a : ℝ, IntegrableOn (fun x => x ^ k * truncPow 5 a x) (Ioi 0) := fun a =>
    integrableOn_pow_mul_truncPow (by norm_num)
  have hsub : IntegrableOn (fun x => x ^ k * truncPow 5 3 x - 6 * (x ^ k * truncPow 5 2 x)) (Ioi 0) :=
    (hintegrable 3).sub ((hintegrable 2).const_mul _)
  simp only [hsplit]
  rw [integral_add hsub ((hintegrable 1).const_mul _),
    integral_sub (hintegrable 3) ((hintegrable 2).const_mul _), integral_const_mul, integral_const_mul,
    integral_pow_mul_truncPow (by norm_num) (by norm_num),
    integral_pow_mul_truncPow (by norm_num) (by norm_num),
    integral_pow_mul_truncPow (by norm_num) (by norm_num)]
  ring

/-- **The profile of the quintic spline kernel.** -/
theorem quinticSplineKernel_hasProfile {dim : ℕ} (hdim : 1 ≤ dim ∧ dim ≤ 3) :
    (quinticSplineKernel Real.pi dim).HasProfile dim quinticProfile (quinticNorm Real.pi dim) where
  support := by norm_num [quinticSplineKernel, quinticProfile]
  norm_pos := by
    have hpi := Real.pi_pos
    unfold quinticNorm
    split
    · norm_num
    · split <;> positivity
  W_eq r h hr hh := by
    rw [← quinticProfile_W, ← hPow_eq]
    rfl
  dWdr_eq r h hr hh := by
    rw [← quinticProfile_dWdr, ← hPow_eq]
    rfl
  normalised := by
    have hpi := Real.pi_pos.ne'
    rw [integral_surface_mul hdim, quinticProfile_moment]
    obtain ⟨hone, hthree⟩ := hdim
    unfold quinticNorm surface
    interval_cases dim
    all_goals
      norm_num [Nat.factorial]
    all_goals
      field_simp
    all_goals
      norm_num

/-- **The smoothing kernels are consistent.** -/
theorem splineKernels_consistent {dim : ℕ} (hdim : 1 ≤ dim ∧ dim ≤ 3) :
    (cubicSplineKernel Real.pi dim).Consistent dim ∧ (quinticSplineKernel Real.pi dim).Consistent dim :=
  ⟨(cubicSplineKernel_hasProfile hdim).consistent hdim,
    (quinticSplineKernel_hasProfile hdim).consistent hdim⟩

/-- In space. -/
theorem splineKernels_consistent_three :
    (cubicSplineKernel Real.pi 3).Consistent 3 ∧ (quinticSplineKernel Real.pi 3).Consistent 3 :=
  splineKernels_consistent (by norm_num)

end Sph
end Spearhed
