import Mathlib.Algebra.Order.Floor.Defs
import Mathlib.Data.Int.Log
import Mathlib.Data.Rat.Floor
import Mathlib.Tactic.FieldSimp
import Mathlib.Tactic.Linarith
import Mathlib.Tactic.Positivity

/-!
# Rounding to significant digits

A number is rounded to its first `p + 1` decimal digits, and of two nearest ones to the one that
ends in an even digit.

* `roundHalfEven`: the nearest integer.
* `leading`, `digitsOf`, `roundSig`: the exponent of the first digit, the digits as an integer, and
  the rounded number.
* `digitsOf_bounds`: the rounded number has `p + 1` digits, or one more when it is a power of ten.
* `roundSig_eq_self_iff`: the numbers that are kept.
* `abs_roundSig_sub_le`: how far a number is moved.
* `roundSig_eq_of_near`: a number close to one with few digits is rounded to that one.
-/

namespace SyntheticArbitrage

/-! ## The nearest integer -/

/-- The nearest integer; of two, the even one. -/
def roundHalfEven (q : ℚ) : ℤ :=
  if q - ⌊q⌋ < 1 / 2 then ⌊q⌋
  else if 1 / 2 < q - ⌊q⌋ then ⌊q⌋ + 1
  else if ⌊q⌋ % 2 = 0 then ⌊q⌋
  else ⌊q⌋ + 1

theorem abs_roundHalfEven_sub_le (q : ℚ) : |(roundHalfEven q : ℚ) - q| ≤ 1 / 2 := by
  have hfloor := Int.floor_le q
  have hceil := Int.lt_floor_add_one q
  rw [roundHalfEven, abs_le]
  split_ifs with hlow hhigh heven
  · constructor <;> linarith
  · push_cast
    constructor <;> linarith
  · constructor <;> linarith
  · push_cast
    constructor <;> linarith

@[simp] theorem roundHalfEven_intCast (n : ℤ) : roundHalfEven n = n := by
  simp [roundHalfEven]

theorem le_roundHalfEven {n : ℤ} {q : ℚ} (h : (n : ℚ) ≤ q) : n ≤ roundHalfEven q := by
  have herror := (abs_le.mp (abs_roundHalfEven_sub_le q)).1
  have hlt : (n : ℚ) < (roundHalfEven q + 1 : ℤ) := by
    push_cast
    linarith
  exact Int.lt_add_one_iff.mp (Int.cast_lt.mp hlt)

theorem roundHalfEven_le {n : ℤ} {q : ℚ} (h : q ≤ (n : ℚ)) : roundHalfEven q ≤ n := by
  have herror := (abs_le.mp (abs_roundHalfEven_sub_le q)).2
  have hlt : (roundHalfEven q : ℚ) < (n + 1 : ℤ) := by
    push_cast
    linarith
  exact Int.lt_add_one_iff.mp (Int.cast_lt.mp hlt)

theorem roundHalfEven_eq {n : ℤ} {q : ℚ} (h : |q - n| < 1 / 2) : roundHalfEven q = n := by
  have herror := abs_le.mp (abs_roundHalfEven_sub_le q)
  have hnear := abs_lt.mp h
  have hlow : (n : ℚ) < (roundHalfEven q + 1 : ℤ) := by
    push_cast
    linarith
  have hhigh : (roundHalfEven q : ℚ) < (n + 1 : ℤ) := by
    push_cast
    linarith
  have hlow' := Int.cast_lt.mp hlow
  have hhigh' := Int.cast_lt.mp hhigh
  omega

namespace Rounding

/-! ## Significant digits -/

/-- The exponent of the first digit of a number. -/
def leading (q : ℚ) : ℤ := Int.log 10 |q|

/-- The first `p + 1` digits of a number as an integer, rounded. -/
def digitsOf (p : ℕ) (q : ℚ) : ℤ := roundHalfEven (|q| / 10 ^ (leading q - p))

/-- A number rounded to `p + 1` digits. -/
def roundSig (p : ℕ) (q : ℚ) : ℚ :=
  let size : ℚ := digitsOf p q * 10 ^ (leading q - p)
  if q < 0 then -size else size

theorem leading_spec {q : ℚ} (h : q ≠ 0) :
    (10 : ℚ) ^ leading q ≤ |q| ∧ |q| < 10 ^ (leading q + 1) :=
  ⟨Int.zpow_log_le_self (by norm_num) (abs_pos.mpr h), Int.lt_zpow_succ_log_self (by norm_num) |q|⟩

theorem zpow_ten_pos (k : ℤ) : (0 : ℚ) < 10 ^ k := zpow_pos (by norm_num) k

/-- A power of ten in units of the last of `p + 1` digits. -/
theorem zpow_ten_succ (p : ℕ) (k : ℤ) :
    (10 : ℚ) ^ (k + 1) = ((10 ^ (p + 1) : ℤ) : ℚ) * 10 ^ (k - p) := by
  push_cast
  rw [← zpow_natCast, ← zpow_add₀ (by norm_num)]
  congr 1
  push_cast
  ring

theorem digitsOf_bounds (p : ℕ) {q : ℚ} (h : q ≠ 0) :
    10 ^ p ≤ digitsOf p q ∧ digitsOf p q ≤ 10 ^ (p + 1) := by
  obtain ⟨hlow, hhigh⟩ := leading_spec h
  have hten : (10 : ℚ) ≠ 0 := by norm_num
  constructor
  · refine le_roundHalfEven ?_
    rw [le_div_iff₀ (zpow_ten_pos _)]
    calc ((10 ^ p : ℤ) : ℚ) * 10 ^ (leading q - p) = 10 ^ leading q := by
          push_cast
          rw [← zpow_natCast, ← zpow_add₀ hten, add_sub_cancel]
      _ ≤ |q| := hlow
  · refine roundHalfEven_le ?_
    rw [div_le_iff₀ (zpow_ten_pos _)]
    exact hhigh.le.trans_eq (zpow_ten_succ p (leading q))

/-- The number has at most `p + 1` significant digits. -/
def HasDigits (p : ℕ) (q : ℚ) : Prop := ∃ n k : ℤ, |n| < 10 ^ (p + 1) ∧ q = n * 10 ^ k

/-- **A number is moved by at most half a unit** of its last digit. -/
theorem abs_roundSig_sub_le (p : ℕ) (q : ℚ) : |roundSig p q - q| ≤ 10 ^ (leading q - p) / 2 := by
  have hpos := zpow_ten_pos (leading q - p)
  have hsize : |(digitsOf p q : ℚ) * 10 ^ (leading q - p) - (|q|)| ≤ 10 ^ (leading q - p) / 2 := by
    have herror := abs_roundHalfEven_sub_le (|q| / 10 ^ (leading q - p))
    have hscale : (digitsOf p q : ℚ) * 10 ^ (leading q - p) - |q| =
        ((digitsOf p q : ℚ) - |q| / 10 ^ (leading q - p)) * 10 ^ (leading q - p) := by
      rw [sub_mul, div_mul_cancel₀ _ hpos.ne']
    calc |(digitsOf p q : ℚ) * 10 ^ (leading q - p) - (|q|)|
        = |(digitsOf p q : ℚ) - |q| / 10 ^ (leading q - p)| * 10 ^ (leading q - p) := by
          rw [hscale, abs_mul, abs_of_pos hpos]
      _ ≤ 1 / 2 * 10 ^ (leading q - p) := mul_le_mul_of_nonneg_right herror hpos.le
      _ = 10 ^ (leading q - p) / 2 := by ring
  rw [roundSig]
  split
  · next hneg =>
    rw [abs_of_neg hneg, sub_neg_eq_add] at hsize
    rwa [← neg_add', abs_neg]
  · next hnonneg => rwa [abs_of_nonneg (not_lt.mp hnonneg)] at hsize

theorem abs_roundSig_sub_le_of_lt (p : ℕ) {q : ℚ} {k : ℤ} (h : |q| < 10 ^ k) (hk : 0 < k) :
    |roundSig p q - q| ≤ 10 ^ (k - 1 - p) / 2 := by
  have hleading : leading q ≤ k - 1 := by
    by_cases hq : q = 0
    · rw [leading, hq, abs_zero, Int.log_zero_right]
      omega
    · exact Int.le_sub_one_of_lt ((Int.lt_zpow_iff_log_lt (by norm_num) (abs_pos.mpr hq)).mp
        (by exact_mod_cast h))
  calc |roundSig p q - q| ≤ 10 ^ (leading q - p) / 2 := abs_roundSig_sub_le p q
    _ ≤ 10 ^ (k - 1 - p) / 2 := by
      have hpow : (10 : ℚ) ^ (leading q - p) ≤ 10 ^ (k - 1 - p) :=
        zpow_le_zpow_right₀ (by norm_num) (by omega)
      linarith

@[simp] theorem digitsOf_zero (p : ℕ) : digitsOf p 0 = 0 := by
  rw [digitsOf, abs_zero, zero_div]
  exact roundHalfEven_intCast 0

theorem roundSig_zero (p : ℕ) : roundSig p 0 = 0 := by simp [roundSig]

theorem roundSig_neg (p : ℕ) (q : ℚ) : roundSig p (-q) = -roundSig p q := by
  rcases lt_trichotomy q 0 with hneg | rfl | hpos
  · rw [roundSig, roundSig, if_neg (not_lt.mpr (neg_pos.mpr hneg).le), if_pos hneg, neg_neg,
      digitsOf, digitsOf, leading, leading, abs_neg]
  · rw [neg_zero, roundSig_zero, neg_zero]
  · rw [roundSig, roundSig, if_pos (neg_neg_of_pos hpos), if_neg (not_lt.mpr hpos.le), digitsOf,
      digitsOf, leading, leading, abs_neg]

theorem HasDigits.neg {p : ℕ} {q : ℚ} (h : HasDigits p q) : HasDigits p (-q) := by
  obtain ⟨n, k, hn, rfl⟩ := h
  exact ⟨-n, k, by rwa [abs_neg], by push_cast; ring⟩

theorem hasDigits_roundSig (p : ℕ) (q : ℚ) : HasDigits p (roundSig p q) := by
  by_cases hq : q = 0
  · rw [hq, roundSig_zero]
    exact ⟨0, 0, by positivity, by simp⟩
  · have hsize : HasDigits p ((digitsOf p q : ℚ) * 10 ^ (leading q - p)) := by
      obtain ⟨hlow, hhigh⟩ := digitsOf_bounds p hq
      have hpos : 0 ≤ digitsOf p q := le_trans (by positivity) hlow
      rcases lt_or_eq_of_le hhigh with hlt | heq
      · exact ⟨digitsOf p q, leading q - p, by rwa [abs_of_nonneg hpos], rfl⟩
      · -- a power of ten has one digit
        refine ⟨1, p + 1 + (leading q - p), ?_, ?_⟩
        · rw [abs_one]
          exact one_lt_pow₀ (by norm_num) (Nat.succ_ne_zero p)
        · rw [heq, zpow_add₀ (by norm_num)]
          push_cast
          rw [one_mul, ← zpow_natCast]
          push_cast
          ring
    rw [roundSig]
    split
    · exact hsize.neg
    · exact hsize

/-- **The numbers that are kept** are those with at most `p + 1` digits. -/
theorem roundSig_eq_self_iff (p : ℕ) (q : ℚ) : roundSig p q = q ↔ HasDigits p q := by
  constructor
  · intro h
    rw [← h]
    exact hasDigits_roundSig p q
  · rintro ⟨n, k, hn, rfl⟩
    by_cases hn0 : n = 0
    · rw [hn0, Int.cast_zero, zero_mul, roundSig_zero]
    generalize hq : (n : ℚ) * 10 ^ k = q
    have habs : |q| = |n| * 10 ^ k := by
      rw [← hq, abs_mul, abs_of_pos (zpow_ten_pos k), Int.cast_abs]
    have hpos : 0 < |q| := by
      rw [habs]
      exact mul_pos (Int.cast_pos.mpr (abs_pos.mpr hn0)) (zpow_ten_pos k)
    -- the last digit of `n` is not after the last one that is kept
    have hle : leading q - p ≤ k := by
      have hlt : |q| < (10 : ℚ) ^ (p + 1 + k : ℤ) := by
        have hn' : ((|n| : ℤ) : ℚ) < ((10 ^ (p + 1) : ℤ) : ℚ) := Int.cast_lt.mpr hn
        rw [habs, zpow_add₀ (by norm_num)]
        exact mul_lt_mul_of_pos_right (by exact_mod_cast hn') (zpow_ten_pos k)
      have hlog : leading q < p + 1 + k :=
        (Int.lt_zpow_iff_log_lt (by norm_num) hpos).mp (by exact_mod_cast hlt)
      omega
    obtain ⟨t, ht⟩ := Int.le.dest hle
    have hscaled : |q| / 10 ^ (leading q - p) = ((|n| * 10 ^ t : ℤ) : ℚ) := by
      rw [div_eq_iff (zpow_ten_pos _).ne', habs, ← ht, zpow_add₀ (by norm_num)]
      push_cast
      rw [zpow_natCast]
      ring
    have hsize : (digitsOf p q : ℚ) * 10 ^ (leading q - p) = |q| := by
      rw [digitsOf, hscaled, roundHalfEven_intCast, ← hscaled,
        div_mul_cancel₀ _ (zpow_ten_pos _).ne']
    rw [roundSig, hsize]
    split
    · next hneg => rw [abs_of_neg hneg, neg_neg]
    · next hnonneg => exact abs_of_nonneg (not_lt.mp hnonneg)

/-! ## Numbers close to one with few digits -/

section Near

variable {p : ℕ} {x q : ℚ}

/-- A number with at most `p + 1` digits in units of the last of them. -/
theorem eq_digitsOf_mul (hx : HasDigits p x) (hpos : 0 < x) :
    x = digitsOf p x * 10 ^ (leading x - p) := by
  have hkept := (roundSig_eq_self_iff p x).mpr hx
  rw [roundSig, if_neg hpos.le.not_gt] at hkept
  exact hkept.symm

/-- The next power of ten is a whole unit away, as it is a multiple of the unit. -/
theorem add_unit_le (hx : HasDigits p x) (hpos : 0 < x) :
    x + 10 ^ (leading x - p) ≤ 10 ^ (leading x + 1) := by
  have hunit := zpow_ten_pos (leading x - p)
  have hlt : (digitsOf p x : ℚ) < ((10 ^ (p + 1) : ℤ) : ℚ) := by
    refine lt_of_mul_lt_mul_right ?_ hunit.le
    rw [← eq_digitsOf_mul hx hpos, ← zpow_ten_succ]
    exact (le_abs_self x).trans_lt (leading_spec hpos.ne').2
  have hint : digitsOf p x + 1 ≤ 10 ^ (p + 1) := Int.add_one_le_iff.mpr (Int.cast_lt.mp hlt)
  calc x + 10 ^ (leading x - p)
      = ((digitsOf p x + 1 : ℤ) : ℚ) * 10 ^ (leading x - p) := by
        rw [Int.cast_add, Int.cast_one, add_mul, one_mul, ← eq_digitsOf_mul hx hpos]
    _ ≤ ((10 ^ (p + 1) : ℤ) : ℚ) * 10 ^ (leading x - p) :=
        mul_le_mul_of_nonneg_right (Int.cast_le.mpr hint) hunit.le
    _ = 10 ^ (leading x + 1) := (zpow_ten_succ p (leading x)).symm

/-- The first digit of a close number stands where that of `x` does, or one place after it. -/
theorem leading_of_near (hx : HasDigits p x) (hpos : 0 < x)
    (hnear : |q - x| < 10 ^ (leading x - 1 - p) / 2) :
    0 < q ∧ leading x - 1 ≤ leading q ∧ leading q ≤ leading x := by
  obtain ⟨hnearLow, hnearHigh⟩ := abs_lt.mp hnear
  have hlow := (leading_spec hpos.ne').1
  rw [abs_of_pos hpos] at hlow
  have hfirst : (10 : ℚ) ^ (leading x - 1 - p) ≤ 10 ^ (leading x - 1) :=
    zpow_le_zpow_right₀ (by norm_num) (by omega)
  have htenth : (10 : ℚ) ^ leading x = 10 * 10 ^ (leading x - 1) := by
    rw [← zpow_one_add₀ (by norm_num), add_sub_cancel]
  have hsmall := zpow_ten_pos (leading x - 1 - p)
  have hqlow : (10 : ℚ) ^ (leading x - 1) ≤ q := by linarith
  have hqpos : 0 < q := (zpow_ten_pos _).trans_le hqlow
  obtain ⟨hqleading, hqnext⟩ := leading_spec hqpos.ne'
  rw [abs_of_pos hqpos] at hqleading hqnext
  refine ⟨hqpos, ?_, ?_⟩
  · have hlt := (zpow_lt_zpow_iff_right₀ (by norm_num : (1 : ℚ) < 10)).mp (hqlow.trans_lt hqnext)
    omega
  · by_contra hgt
    have hpower : (10 : ℚ) ^ (leading x + 1) ≤ q :=
      (zpow_le_zpow_right₀ (by norm_num) (by omega)).trans hqleading
    have hwhole := add_unit_le hx hpos
    have hunit : (10 : ℚ) ^ (leading x - 1 - p) ≤ 10 ^ (leading x - p) :=
      zpow_le_zpow_right₀ (by norm_num) (by omega)
    linarith

/-- **A number close to one with `p + 1` digits** is rounded to that one. -/
theorem roundSig_eq_of_near (p : ℕ) {x q : ℚ} (hx : HasDigits p x) (hpos : 0 < x)
    (hnear : |q - x| < 10 ^ (leading x - 1 - p) / 2) : roundSig p q = x := by
  have hten : (10 : ℚ) ≠ 0 := by norm_num
  obtain ⟨hqpos, hbelow, habove⟩ := leading_of_near hx hpos hnear
  -- `x` is a whole number of units of the last digit of `q`, less than half of one away
  obtain ⟨t, ht⟩ := Int.le.dest habove
  have hscaled : x = ((digitsOf p x * 10 ^ t : ℤ) : ℚ) * 10 ^ (leading q - p) := by
    conv_lhs => rw [eq_digitsOf_mul hx hpos, ← ht,
      show leading q + (t : ℤ) - p = t + (leading q - p) by ring, zpow_add₀ hten, zpow_natCast]
    push_cast
    ring
  have hhalf : |q / 10 ^ (leading q - p) - ((digitsOf p x * 10 ^ t : ℤ) : ℚ)| < 1 / 2 := by
    have hunit := zpow_ten_pos (leading q - p)
    have hle : (10 : ℚ) ^ (leading x - 1 - p) ≤ 10 ^ (leading q - p) :=
      zpow_le_zpow_right₀ (by norm_num) (by omega)
    have heq : q / 10 ^ (leading q - p) - ((digitsOf p x * 10 ^ t : ℤ) : ℚ) =
        (q - x) / 10 ^ (leading q - p) := by
      rw [eq_div_iff hunit.ne', sub_mul, ← hscaled, div_mul_cancel₀ _ hunit.ne']
    rw [heq, abs_div, abs_of_pos hunit, div_lt_iff₀ hunit]
    linarith
  rw [roundSig, if_neg hqpos.le.not_gt, digitsOf, abs_of_pos hqpos, roundHalfEven_eq hhalf]
  exact hscaled.symm

end Near

end Rounding

end SyntheticArbitrage
