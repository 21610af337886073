import Mathlib.Algebra.Order.Field.Basic
import Spearhed.Library.Literals

/-!
# Smoothing kernels

`CubicSplineKernel.hpp`, `QuinticSplineKernel.hpp` and `EquationOfState.hpp`, with exact arithmetic.
The kernels are given by their radius of support, their value and their radial derivative; the
factor `gradWScalar` is computed from these in the same way for both.  `pi` is a parameter, as
`std::numbers::pi_v` is not a value of every field.
-/

namespace Spearhed
namespace Sph

open Library.Literals

/-- A smoothing kernel. -/
structure SphKernel (K : Type) where
  supportRadius : ℕ
  /-- `W(r, h)`. -/
  W : K → K → K
  /-- `dWdr(r, h)`. -/
  dWdr : K → K → K

variable {K : Type} [Field K] [LinearOrder K]

/-- `gradWScalar(r, invR, h)`. -/
def SphKernel.gradWScalar (kernel : SphKernel K) (r invR h : K) : K :=
  if ¬ r > 0 ∨ r ≥ kernel.supportRadius * h then 0 else kernel.dWdr r h * invR

/-- `gradW(rVec, r, h)`. -/
def SphKernel.gradW (kernel : SphKernel K) {d : ℕ} (rVec : Fin d → K) (r h : K) : Fin d → K :=
  if r = 0 ∨ r ≥ kernel.supportRadius * h then fun _ => 0
  else
    let dwdr := kernel.dWdr r h
    let inv_r := 1 / r
    fun tag => dwdr * rVec tag * inv_r

/-- The loop that multiplies `n` factors `h`. -/
def hPow (h : K) (n : ℕ) : K := (List.range n).foldl (fun p _ => p * h) 1

/-- `CubicSplineKernel::norm`. -/
def cubicNorm (pi : K) (dim : ℕ) : K :=
  if dim = 1 then 2 / 3 else if dim = 2 then 10 / (7 * pi) else 1 / pi

/-- `CubicSplineKernel`. -/
def cubicSplineKernel (pi : K) (dim : ℕ) : SphKernel K where
  supportRadius := 2
  W := fun r h =>
    let x := r / h
    let kernelVal :=
      if x < 1 then 1 - 3 / 2 * x * x + 3 / 4 * x * x * x
      else if x < 2 then 1 / 4 * (2 - x) * (2 - x) * (2 - x)
      else 0
    cubicNorm pi dim / hPow h dim * kernelVal
  dWdr := fun r h =>
    let x := r / h
    let kernelVal :=
      if x ≥ 0 ∧ x < 1 then 9 / 4 * x * x - 3 * x
      else if x < 2 then -(3 / 4) * (2 - x) * (2 - x)
      else 0
    cubicNorm pi dim / hPow h (dim + 1) * kernelVal

/-- `QuinticSplineKernel::norm`. -/
def quinticNorm (pi : K) (dim : ℕ) : K :=
  if dim = 1 then 1 / 120 else if dim = 2 then 7 / (478 * pi) else 1 / (120 * pi)

/-- `QuinticSplineKernel`. -/
def quinticSplineKernel (pi : K) (dim : ℕ) : SphKernel K where
  supportRadius := 3
  W := fun r h =>
    let x := r / h
    let a := 3 - x
    let b := 2 - x
    let c := 1 - x
    let kernelVal :=
      if x < 1 then
        a * a * a * a * a - 6 * b * b * b * b * b + 15 * c * c * c * c * c
      else if x < 2 then a * a * a * a * a - 6 * b * b * b * b * b
      else if x < 3 then a * a * a * a * a
      else 0
    quinticNorm pi dim / hPow h dim * kernelVal
  dWdr := fun r h =>
    let x := r / h
    let a := 3 - x
    let b := 2 - x
    let c := 1 - x
    let kernelVal :=
      if x < 1 then -5 * a * a * a * a + 30 * b * b * b * b - 75 * c * c * c * c
      else if x < 2 then -5 * a * a * a * a + 30 * b * b * b * b
      else if x < 3 then -5 * a * a * a * a
      else 0
    quinticNorm pi dim / hPow h (dim + 1) * kernelVal

/-- `pressure`. -/
def pressure (gamma rho u : K) : K := (gamma - 1) * rho * u

end Sph
end Spearhed
