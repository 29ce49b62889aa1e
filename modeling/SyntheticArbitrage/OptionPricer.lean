import SyntheticArbitrage.MathFunctions
import SyntheticArbitrage.Lib.CallValue

/-!
# The option pricer

`main` prints a sample price of a call.

* `blackScholesCall_eq_value`, `isGreatest_blackScholesCall`: in exact arithmetic the formula is the
  greatest value that a threshold for exercising the call can give it.
* `NoArbitrage`: what a price must satisfy so that no trade in the call, the underlying and cash is
  a riskless profit.
* `noArbitrage_blackScholesCall`: the formula satisfies it.
-/

namespace SyntheticArbitrage.OptionPricer

section

variable {R : Type} [DoubleMath R]

def normCDF (x : R) : R :=
  DoubleOps.lit 0.5 * DoubleMath.erfc (-x / DoubleMath.sqrt (DoubleOps.ofInt 2))

def blackScholesCall (S K T r sigma : R) : R :=
  let d1 := (DoubleMath.log (S / K) + (r + DoubleOps.lit 0.5 * sigma * sigma) * T) /
    (sigma * DoubleMath.sqrt T)
  let d2 := d1 - sigma * DoubleMath.sqrt T
  S * normCDF d1 - K * DoubleMath.exp (-r * T) * normCDF d2

end

/-! ## Exact arithmetic -/

theorem normCDF_eq (x : ℝ) : normCDF x = Erfc.cdf x := by
  simp only [normCDF, Erfc.cdf, DoubleMath.erfc, DoubleMath.sqrt, DoubleOps.lit, DoubleOps.ofInt]
  norm_num

variable {T sigma : ℝ}

/-- The exponent `d2` of the formula is the best threshold of the call whose strike is discounted
and whose logarithm deviates by `sigma * √T`. -/
theorem d2_eq_best {S K : ℝ} (hS : 0 < S) (hK : 0 < K) (hT : 0 < T) (hsigma : 0 < sigma) (r : ℝ) :
    (Real.log (S / K) + (r + 0.5 * sigma * sigma) * T) / (sigma * √T) - sigma * √T =
      CallValue.best S (K * Real.exp (-r * T)) (sigma * √T) := by
  have hv : 0 < sigma * √T := mul_pos hsigma (Real.sqrt_pos.mpr hT)
  have hlog : Real.log (S / (K * Real.exp (-r * T))) = Real.log (S / K) + r * T := by
    rw [← div_div, Real.log_div (div_pos hS hK).ne' (Real.exp_pos _).ne', Real.log_exp]
    ring
  have hsq : sigma * √T * (sigma * √T) = sigma * sigma * T := by
    rw [mul_mul_mul_comm, Real.mul_self_sqrt hT.le]
  have hnum : Real.log (S / K) + (r + 0.5 * sigma * sigma) * T =
      Real.log (S / K) + r * T - Erfc.halfSq (sigma * √T) + sigma * √T * (sigma * √T) := by
    rw [Erfc.halfSq, sq, hsq]
    ring
  rw [CallValue.best, hlog, hnum, add_div, mul_div_cancel_left₀ _ hv.ne', add_sub_cancel_right]

theorem blackScholesCall_eq_value {S K : ℝ} (hS : 0 < S) (hK : 0 < K) (hT : 0 < T)
    (hsigma : 0 < sigma) (r : ℝ) :
    blackScholesCall S K T r sigma =
      CallValue.value S (K * Real.exp (-r * T)) (sigma * √T) := by
  have hlit : (DoubleOps.lit 0.5 : ℝ) = 0.5 := by
    simp only [DoubleOps.lit]
    norm_num
  simp only [blackScholesCall, normCDF_eq, hlit]
  rw [CallValue.value, CallValue.gain, ← d2_eq_best hS hK hT hsigma r, sub_add_cancel]
  rfl

/-- **The price is the value of the call** under the best threshold. -/
theorem isGreatest_blackScholesCall {S K : ℝ} (hS : 0 < S) (hK : 0 < K) (hT : 0 < T)
    (hsigma : 0 < sigma) (r : ℝ) :
    IsGreatest (Set.range (CallValue.gain S (K * Real.exp (-r * T)) (sigma * √T)))
      (blackScholesCall S K T r sigma) := by
  rw [blackScholesCall_eq_value hS hK hT hsigma r]
  exact CallValue.isGreatest_gain hS (mul_pos hK (Real.exp_pos _))
    (mul_pos hsigma (Real.sqrt_pos.mpr hT))

/-! ## No arbitrage -/

/-- What the price of a call, by the price of its underlying and its strike, satisfies when no
trade in them is a riskless profit; `discount` is today's price of one unit of cash at expiry. -/
structure NoArbitrage (discount : ℝ) (price : ℝ → ℝ → ℝ) : Prop where
  intrinsic_le : ∀ S K, 0 < S → 0 < K → max 0 (S - K * discount) ≤ price S K
  le_underlying : ∀ S K, 0 < S → 0 < K → price S K ≤ S
  monotone_underlying : ∀ K, 0 < K → MonotoneOn (fun S => price S K) (Set.Ioi 0)
  antitone_strike : ∀ S, 0 < S → AntitoneOn (fun K => price S K) (Set.Ioi 0)

/-- **The formula leaves no arbitrage**, at every rate. -/
theorem noArbitrage_blackScholesCall (hT : 0 < T) (hsigma : 0 < sigma) (r : ℝ) :
    NoArbitrage (Real.exp (-r * T)) fun S K => blackScholesCall S K T r sigma := by
  have hv : 0 < sigma * √T := mul_pos hsigma (Real.sqrt_pos.mpr hT)
  have hdiscount := Real.exp_pos (-r * T)
  have heq {S K : ℝ} (hS : 0 < S) (hK : 0 < K) :=
    blackScholesCall_eq_value hS hK hT hsigma r
  refine ⟨?_, ?_, ?_, ?_⟩
  · intro S K hS hK
    have hK' := mul_pos hK hdiscount
    rw [heq hS hK]
    exact max_le (CallValue.value_nonneg hS hK' hv) (CallValue.sub_le_value hS hK' hv)
  · intro S K hS hK
    rw [heq hS hK]
    exact CallValue.value_le hS (mul_pos hK hdiscount)
  · intro K hK S hS S' hS' hle
    simp only [heq hS hK, heq hS' hK]
    exact CallValue.value_mono_price hS hle (mul_pos hK hdiscount) hv
  · intro S hS K hK K' hK' hle
    simp only [heq hS hK, heq hS hK']
    have hle' := mul_le_mul_of_nonneg_right hle hdiscount.le
    exact CallValue.value_anti_strike hS (mul_pos hK hdiscount) hle' hv

/-- The sample that `main` prints. -/
theorem noArbitrage_blackScholesCall_sample :
    max 0 (2800 - 2750 * Real.exp (-0.01 * 0.07)) ≤ blackScholesCall (2800 : ℝ) 2750 0.07 0.01 0.6 ∧
      blackScholesCall (2800 : ℝ) 2750 0.07 0.01 0.6 ≤ 2800 := by
  have h : NoArbitrage (Real.exp (-0.01 * 0.07)) fun S K => blackScholesCall S K 0.07 0.01 0.6 :=
    noArbitrage_blackScholesCall (by norm_num) (by norm_num) 0.01
  exact ⟨h.intrinsic_le 2800 2750 (by norm_num) (by norm_num),
    h.le_underlying 2800 2750 (by norm_num) (by norm_num)⟩

end SyntheticArbitrage.OptionPricer
