import Mathlib.Algebra.Order.Field.Basic
import Mathlib.Algebra.Order.AbsoluteValue.Basic
import Mathlib.Order.Monotone.Basic
import Mathlib.Tactic.Linarith
import Mathlib.Tactic.Ring

/-!
# Payoffs of a stake with a cap

The stake on a return `e` grows in proportion to `|e|` until it reaches a cap, and what the stake
pays is its product with `e`.  The payoff is then quadratic in a small return and linear in a large
one.

* `payoff_neg`: the opposite return pays the opposite.
* `abs_payoff_le`, `abs_payoff_mono`: the amount is bounded by both branches, and grows with the
  size of the return.
* `payoff_strictMono`: **a larger return pays strictly more**, over gains and losses.
-/

namespace SyntheticArbitrage.CappedStake

variable {K : Type*} [Field K] [LinearOrder K] [IsStrictOrderedRing K] {slope cap : K}

def stake (slope cap e : K) : K := min (slope * |e|) cap

/-- What the stake on a return pays. -/
def payoff (slope cap e : K) : K := e * stake slope cap e

/-! ## The stake -/

omit [IsStrictOrderedRing K] in
theorem stake_neg (slope cap e : K) : stake slope cap (-e) = stake slope cap e := by
  rw [stake, stake, abs_neg]

omit [IsStrictOrderedRing K] in
theorem stake_le_cap (slope cap e : K) : stake slope cap e ≤ cap := min_le_right _ _

theorem stake_nonneg (hslope : 0 ≤ slope) (hcap : 0 ≤ cap) (e : K) : 0 ≤ stake slope cap e :=
  le_min (mul_nonneg hslope (abs_nonneg e)) hcap

theorem stake_pos (hslope : 0 < slope) (hcap : 0 < cap) {e : K} (he : e ≠ 0) :
    0 < stake slope cap e :=
  lt_min (mul_pos hslope (abs_pos.mpr he)) hcap

theorem stake_mono (hslope : 0 ≤ slope) {a b : K} (h : |a| ≤ |b|) :
    stake slope cap a ≤ stake slope cap b :=
  min_le_min_right cap (mul_le_mul_of_nonneg_left h hslope)

/-! ## The payoff -/

omit [IsStrictOrderedRing K] in
theorem payoff_neg (slope cap e : K) : payoff slope cap (-e) = -payoff slope cap e := by
  rw [payoff, payoff, stake_neg, neg_mul]

omit [IsStrictOrderedRing K] in
@[simp] theorem payoff_zero (slope cap : K) : payoff slope cap 0 = 0 := zero_mul _

theorem abs_payoff (hslope : 0 ≤ slope) (hcap : 0 ≤ cap) (e : K) :
    |payoff slope cap e| = |e| * stake slope cap e := by
  rw [payoff, abs_mul, abs_of_nonneg (stake_nonneg hslope hcap e)]

theorem abs_payoff_le (hslope : 0 ≤ slope) (hcap : 0 ≤ cap) (e : K) :
    |payoff slope cap e| ≤ min (slope * |e| ^ 2) (|e| * cap) := by
  rw [abs_payoff hslope hcap]
  apply le_min
  · calc |e| * stake slope cap e ≤ |e| * (slope * |e|) :=
          mul_le_mul_of_nonneg_left (min_le_left _ _) (abs_nonneg e)
      _ = slope * |e| ^ 2 := by ring
  · exact mul_le_mul_of_nonneg_left (stake_le_cap slope cap e) (abs_nonneg e)

theorem abs_payoff_mono (hslope : 0 ≤ slope) (hcap : 0 ≤ cap) {a b : K} (h : |a| ≤ |b|) :
    |payoff slope cap a| ≤ |payoff slope cap b| := by
  rw [abs_payoff hslope hcap, abs_payoff hslope hcap]
  exact mul_le_mul h (stake_mono hslope h) (stake_nonneg hslope hcap a) (abs_nonneg b)

/-- On gains the payoff grows: the stake does not shrink, and the larger one is positive. -/
theorem payoff_lt_payoff_of_nonneg (hslope : 0 < slope) (hcap : 0 < cap) {a b : K} (ha : 0 ≤ a)
    (h : a < b) : payoff slope cap a < payoff slope cap b := by
  have hb : 0 < b := lt_of_le_of_lt ha h
  have habs : |a| ≤ |b| := by
    rw [abs_of_nonneg ha, abs_of_pos hb]
    exact h.le
  calc payoff slope cap a ≤ a * stake slope cap b :=
        mul_le_mul_of_nonneg_left (stake_mono hslope.le habs) ha
    _ < payoff slope cap b := mul_lt_mul_of_pos_right h (stake_pos hslope hcap hb.ne')

/-- **A larger return pays strictly more.** -/
theorem payoff_strictMono (hslope : 0 < slope) (hcap : 0 < cap) :
    StrictMono (payoff slope cap) := by
  intro a b h
  rcases le_or_gt 0 a with ha | ha
  · exact payoff_lt_payoff_of_nonneg hslope hcap ha h
  · rcases le_or_gt b 0 with hb | hb
    · -- two losses, in the opposite order of their opposite gains
      have hneg := payoff_lt_payoff_of_nonneg hslope hcap (neg_nonneg.mpr hb) (neg_lt_neg h)
      rw [payoff_neg, payoff_neg] at hneg
      exact neg_lt_neg_iff.mp hneg
    · calc payoff slope cap a < 0 :=
            mul_neg_of_neg_of_pos ha (stake_pos hslope hcap ha.ne)
        _ < payoff slope cap b := mul_pos hb (stake_pos hslope hcap hb.ne')

theorem payoff_pos_iff (hslope : 0 < slope) (hcap : 0 < cap) {e : K} :
    0 < payoff slope cap e ↔ 0 < e := by
  have h := (payoff_strictMono hslope hcap).lt_iff_lt (a := 0) (b := e)
  rwa [payoff_zero] at h

theorem payoff_neg_iff (hslope : 0 < slope) (hcap : 0 < cap) {e : K} :
    payoff slope cap e < 0 ↔ e < 0 := by
  have h := (payoff_strictMono hslope hcap).lt_iff_lt (a := e) (b := 0)
  rwa [payoff_zero] at h

theorem payoff_eq_zero_iff (hslope : 0 < slope) (hcap : 0 < cap) {e : K} :
    payoff slope cap e = 0 ↔ e = 0 := by
  have h := (payoff_strictMono hslope hcap).injective.eq_iff (a := e) (b := 0)
  rwa [payoff_zero] at h

end SyntheticArbitrage.CappedStake
