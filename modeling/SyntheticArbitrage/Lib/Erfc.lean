import Mathlib.Analysis.SpecialFunctions.Gaussian.GaussianIntegral

/-!
# The complementary error function and the normal distribution

* `erfc_add_erfc_neg`: the two tails of the bell curve make up the whole of it.
* `hasDerivAt_erfc`, `tendsto_erfc_atTop`: how the tail shrinks.
* `cdf`, `density`: the standard normal distribution, through `erfc`, and its derivative.
* `cdf_nonneg`, `cdf_le_one`, `tendsto_cdf_atTop`, `tendsto_cdf_atBot`: `cdf` runs from `0` to `1`.
* `density_add`: a shift of the density is an exponential factor.
-/

namespace SyntheticArbitrage.Erfc

open MeasureTheory Set Filter Topology

/-! ## The complementary error function -/

noncomputable def erfc (x : ℝ) : ℝ := 2 / √Real.pi * ∫ t in Ioi x, Real.exp (-t ^ 2)

theorem continuous_bell : Continuous fun t : ℝ => Real.exp (-t ^ 2) := by fun_prop

theorem integrable_bell : Integrable fun t : ℝ => Real.exp (-t ^ 2) := by
  simpa using integrable_exp_neg_mul_sq one_pos

theorem integral_bell : ∫ t : ℝ, Real.exp (-t ^ 2) = √Real.pi := by
  simpa using integral_gaussian 1

theorem sqrt_pi_pos : 0 < √Real.pi := Real.sqrt_pos.mpr Real.pi_pos

theorem erfc_nonneg (x : ℝ) : 0 ≤ erfc x := by
  apply mul_nonneg (div_nonneg zero_le_two sqrt_pi_pos.le)
  exact integral_nonneg fun t => (Real.exp_pos _).le

/-- The curve is even, so the tail above `-x` is what the tail above `x` leaves. -/
theorem erfc_add_erfc_neg (x : ℝ) : erfc x + erfc (-x) = 2 := by
  have heven : ∫ t in Ioi (-x), Real.exp (-t ^ 2) = ∫ t in Iic x, Real.exp (-t ^ 2) := by
    have h := integral_comp_neg_Iic x fun t => Real.exp (-t ^ 2)
    simpa only [neg_sq] using h.symm
  have hsplit : (∫ t in Iic x, Real.exp (-t ^ 2)) + ∫ t in Ioi x, Real.exp (-t ^ 2) = √Real.pi := by
    rw [← integral_bell]
    exact intervalIntegral.integral_Iic_add_Ioi integrable_bell.integrableOn
      integrable_bell.integrableOn
  rw [erfc, erfc, heven, ← mul_add, add_comm, hsplit]
  exact div_mul_cancel₀ 2 sqrt_pi_pos.ne'

theorem tendsto_erfc_atTop : Tendsto erfc atTop (𝓝 0) := by
  have h : Tendsto (fun x => ∫ t in Ioi x, Real.exp (-t ^ 2)) atTop (𝓝 0) :=
    tendsto_integral_Ioi_zero tendsto_id
  have h' := h.const_mul (2 / √Real.pi)
  rwa [mul_zero] at h'

/-- The tail above `x` is what the curve up to `x` leaves of the tail above `0`. -/
theorem erfc_eq (x : ℝ) : erfc x = 2 / √Real.pi *
    ((∫ t in Ioi (0 : ℝ), Real.exp (-t ^ 2)) - ∫ t in (0 : ℝ)..x, Real.exp (-t ^ 2)) := by
  have h := intervalIntegral.integral_interval_add_Ioi
    (integrable_bell.integrableOn (s := Ioi 0)) (integrable_bell.integrableOn (s := Ioi x))
  rw [erfc, ← h, add_sub_cancel_left]

theorem hasDerivAt_erfc (x : ℝ) : HasDerivAt erfc (-(2 / √Real.pi * Real.exp (-x ^ 2))) x := by
  have hint := (continuous_bell.integral_hasStrictDerivAt 0 x).hasDerivAt
  have h := (hint.const_sub (∫ t in Ioi (0 : ℝ), Real.exp (-t ^ 2))).const_mul (2 / √Real.pi)
  rw [funext erfc_eq]
  exact h.congr_deriv (mul_neg _ _)

/-! ## The normal distribution -/

/-- The probability that a standard normal variable is at most `x`. -/
noncomputable def cdf (x : ℝ) : ℝ := 1 / 2 * erfc (-x / √2)

/-- Half of the square, the exponent of the density. -/
noncomputable def halfSq (x : ℝ) : ℝ := x ^ 2 / 2

/-- The derivative of `cdf`. -/
noncomputable def density (x : ℝ) : ℝ := 1 / (√Real.pi * √2) * Real.exp (-halfSq x)

theorem density_pos (x : ℝ) : 0 < density x := by
  have h := sqrt_pi_pos
  rw [density]
  positivity

theorem hasDerivAt_cdf (x : ℝ) : HasDerivAt cdf (density x) x := by
  have hpi := sqrt_pi_pos
  have hinner : HasDerivAt (fun y : ℝ => -y / √2) (-1 / √2) x := (hasDerivAt_id x).neg.div_const _
  have h := ((hasDerivAt_erfc (-x / √2)).comp x hinner).const_mul (1 / 2)
  apply h.congr_deriv
  have hsq : -(-x / √2) ^ 2 = -halfSq x := by
    rw [div_pow, neg_sq, Real.sq_sqrt zero_le_two, halfSq]
  rw [hsq, density]
  field_simp

theorem cdf_nonneg (x : ℝ) : 0 ≤ cdf x := mul_nonneg one_half_pos.le (erfc_nonneg _)

theorem cdf_add_cdf_neg (x : ℝ) : cdf x + cdf (-x) = 1 := by
  have h := erfc_add_erfc_neg (x / √2)
  rw [cdf, cdf, neg_neg, neg_div, ← mul_add, add_comm, h]
  norm_num

theorem cdf_le_one (x : ℝ) : cdf x ≤ 1 := by
  have hsum := cdf_add_cdf_neg x
  have hneg := cdf_nonneg (-x)
  linarith

theorem tendsto_cdf_atBot : Tendsto cdf atBot (𝓝 0) := by
  have harg : Tendsto (fun x : ℝ => -x / √2) atBot atTop :=
    tendsto_neg_atBot_atTop.atTop_div_const (Real.sqrt_pos.mpr two_pos)
  have h := (tendsto_erfc_atTop.comp harg).const_mul (1 / 2)
  rwa [mul_zero] at h

theorem tendsto_cdf_atTop : Tendsto cdf atTop (𝓝 1) := by
  have h := (tendsto_cdf_atBot.comp tendsto_neg_atTop_atBot).const_sub 1
  rw [sub_zero] at h
  apply h.congr
  intro x
  have hsum := cdf_add_cdf_neg x
  rw [Function.comp_apply]
  linarith

theorem density_add (x v : ℝ) : density (x + v) = density x * Real.exp (-(x * v) - halfSq v) := by
  have hsq : -halfSq (x + v) = -halfSq x + (-(x * v) - halfSq v) := by
    rw [halfSq, halfSq, halfSq]
    ring
  rw [density, density, mul_assoc, ← Real.exp_add, hsq]

end SyntheticArbitrage.Erfc
