import SyntheticArbitrage.Lib.Erfc
import Mathlib.Analysis.Calculus.Deriv.MeanValue
import Mathlib.Analysis.SpecialFunctions.Log.Basic

/-!
# The value of a call as a maximum

A call is exercised when the standard normal variable that drives the price of its underlying is
above a threshold `-x`.  Exercising delivers the underlying, worth `S` today, against the
discounted strike `K`; `v` is the deviation of the logarithm of the price.

* `gain`: the value of exercising above the threshold.
* `le_payoff_iff`, `hasDerivAt_gain`: the gain grows while what is delivered is worth the strike.
* `isGreatest_gain`: it is greatest at `best`.
* `value`: that maximum.  `value_nonneg`, `sub_le_value`, `value_le`, `value_mono_price`,
  `value_anti_strike`: the bounds that follow.
-/

namespace SyntheticArbitrage.CallValue

open Erfc Set Filter Topology

/-- The value of exercising when the normal variable is above `-x`. -/
noncomputable def gain (S K v x : ℝ) : ℝ := S * cdf (x + v) - K * cdf x

/-- What is delivered when the normal variable is `-x`. -/
noncomputable def payoff (S v x : ℝ) : ℝ := S * Real.exp (-(x * v) - halfSq v)

/-- The threshold at which what is delivered is worth the strike. -/
noncomputable def best (S K v : ℝ) : ℝ := (Real.log (S / K) - halfSq v) / v

/-- The value under the best threshold. -/
noncomputable def value (S K v : ℝ) : ℝ := gain S K v (best S K v)

variable {S S' K K' v : ℝ}

theorem le_payoff_iff (hS : 0 < S) (hK : 0 < K) (hv : 0 < v) (x : ℝ) :
    K ≤ payoff S v x ↔ x ≤ best S K v := by
  have hlog : Real.log (K / S) = -Real.log (S / K) := by rw [← Real.log_inv, inv_div]
  rw [payoff, ← div_le_iff₀' hS, ← Real.log_le_iff_le_exp (div_pos hK hS), hlog, best,
    le_div_iff₀ hv]
  constructor <;> intro h <;> linarith

theorem hasDerivAt_gain (S K v x : ℝ) :
    HasDerivAt (gain S K v) (density x * (payoff S v x - K)) x := by
  have hshift := ((hasDerivAt_cdf (x + v)).comp_add_const x v).const_mul S
  have hown := (hasDerivAt_cdf x).const_mul K
  apply (hshift.sub hown).congr_deriv
  rw [density_add, payoff]
  ring

theorem continuous_gain (S K v : ℝ) : Continuous (gain S K v) :=
  continuous_iff_continuousAt.mpr fun x => (hasDerivAt_gain S K v x).continuousAt

theorem differentiable_gain (S K v : ℝ) : Differentiable ℝ (gain S K v) :=
  fun x => (hasDerivAt_gain S K v x).differentiableAt

theorem gain_le_value (hS : 0 < S) (hK : 0 < K) (hv : 0 < v) (x : ℝ) :
    gain S K v x ≤ value S K v := by
  have hcont := continuous_gain S K v
  have hdiff := differentiable_gain S K v
  rcases le_total x (best S K v) with hx | hx
  · have hmono : MonotoneOn (gain S K v) (Iic (best S K v)) := by
      apply monotoneOn_of_deriv_nonneg (convex_Iic _) hcont.continuousOn hdiff.differentiableOn
      intro y hy
      have hbelow : y ∈ Iic (best S K v) := interior_subset hy
      have hworth := (le_payoff_iff hS hK hv y).mpr hbelow
      rw [(hasDerivAt_gain S K v y).deriv]
      exact mul_nonneg (density_pos y).le (sub_nonneg.mpr hworth)
    exact hmono hx self_mem_Iic hx
  · have hanti : AntitoneOn (gain S K v) (Ici (best S K v)) := by
      apply antitoneOn_of_deriv_nonpos (convex_Ici _) hcont.continuousOn hdiff.differentiableOn
      intro y hy
      rw [interior_Ici] at hy
      have hworth := mt (le_payoff_iff hS hK hv y).mp (not_le.mpr hy)
      rw [(hasDerivAt_gain S K v y).deriv]
      exact mul_nonpos_of_nonneg_of_nonpos (density_pos y).le (sub_nonpos.mpr (not_le.mp hworth).le)
    exact hanti self_mem_Ici hx hx

theorem isGreatest_gain (hS : 0 < S) (hK : 0 < K) (hv : 0 < v) :
    IsGreatest (range (gain S K v)) (value S K v) := by
  refine ⟨mem_range_self _, ?_⟩
  rintro _ ⟨x, rfl⟩
  exact gain_le_value hS hK hv x

/-! ## The bounds -/

theorem tendsto_gain_atBot (S K v : ℝ) : Tendsto (gain S K v) atBot (𝓝 0) := by
  have hshift := (tendsto_cdf_atBot.comp (tendsto_atBot_add_const_right _ v tendsto_id)).const_mul S
  have h := hshift.sub (tendsto_cdf_atBot.const_mul K)
  rwa [mul_zero, mul_zero, sub_zero] at h

theorem tendsto_gain_atTop (S K v : ℝ) : Tendsto (gain S K v) atTop (𝓝 (S - K)) := by
  have hshift := (tendsto_cdf_atTop.comp (tendsto_atTop_add_const_right _ v tendsto_id)).const_mul S
  have h := hshift.sub (tendsto_cdf_atTop.const_mul K)
  rwa [mul_one, mul_one] at h

theorem value_nonneg (hS : 0 < S) (hK : 0 < K) (hv : 0 < v) : 0 ≤ value S K v :=
  le_of_tendsto (tendsto_gain_atBot S K v) (.of_forall (gain_le_value hS hK hv))

theorem sub_le_value (hS : 0 < S) (hK : 0 < K) (hv : 0 < v) : S - K ≤ value S K v :=
  le_of_tendsto (tendsto_gain_atTop S K v) (.of_forall (gain_le_value hS hK hv))

theorem value_le (hS : 0 < S) (hK : 0 < K) : value S K v ≤ S := by
  have hdelivered := mul_le_mul_of_nonneg_left (cdf_le_one (best S K v + v)) hS.le
  have hpaid := mul_nonneg hK.le (cdf_nonneg (best S K v))
  rw [value, gain]
  linarith

theorem value_mono_price (hS : 0 < S) (hle : S ≤ S') (hK : 0 < K) (hv : 0 < v) :
    value S K v ≤ value S' K v := by
  have hmore := mul_le_mul_of_nonneg_right hle (cdf_nonneg (best S K v + v))
  calc value S K v ≤ gain S' K v (best S K v) := by
        rw [value, gain, gain]
        linarith
    _ ≤ value S' K v := gain_le_value (hS.trans_le hle) hK hv _

theorem value_anti_strike (hS : 0 < S) (hK : 0 < K) (hle : K ≤ K') (hv : 0 < v) :
    value S K' v ≤ value S K v := by
  have hless := mul_le_mul_of_nonneg_right hle (cdf_nonneg (best S K' v))
  calc value S K' v ≤ gain S K v (best S K' v) := by
        rw [value, gain, gain]
        linarith
    _ ≤ value S K v := gain_le_value hS hK hv _

end SyntheticArbitrage.CallValue
