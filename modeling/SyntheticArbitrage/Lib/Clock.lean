import Mathlib.Data.Int.Basic
import Mathlib.Algebra.Order.Group.Unbundled.Int
import Mathlib.Tactic.Linarith

/-!
# Differences of 64-bit clock readings

Two readings `t` and `l` of a clock are subtracted modulo `2 ^ 64`, and the difference is compared
with a bound, either as an unsigned number (has more than `c` passed since `l`?) or after it was
read as a signed one (`signedGap`: are the two readings within `d` of each other?).

* `lt_sub_iff_of_le`: for a reading that is not older, the unsigned test is the one meant.
* `lt_sub_iff_of_lt`: an older reading passes the unsigned test too, unless it is older by
  nearly the whole range.
* `toNat_sub_eq_iff`: when the unsigned difference is the signed one.
* `signedGap_le_iff`: the signed test is the distance of the readings, for readings below `2 ^ 63`.
* `signedGap_le_iff_or`: for all readings it passes at the far end of the range too.
-/

namespace SyntheticArbitrage.Clock

/-- For a reading `t` that is not older than `l`, the unsigned test `c < t - l` says that more
than `c` has passed. -/
theorem lt_sub_iff_of_le {c t l : UInt64} (h : l ≤ t) :
    c < t - l ↔ l.toNat + c.toNat < t.toNat := by
  have hle := UInt64.le_iff_toNat_le.mp h
  rw [UInt64.lt_iff_toNat_lt, UInt64.toNat_sub_of_le _ _ h]
  omega

/-- For a reading `t` older than `l` the difference wraps, and the test passes unless `l` is ahead
by nearly `2 ^ 64`. -/
theorem lt_sub_iff_of_lt {c t l : UInt64} (h : t < l) :
    c < t - l ↔ l.toNat + c.toNat < t.toNat + 2 ^ 64 := by
  have hlt := UInt64.lt_iff_toNat_lt.mp h
  have hl := l.toNat_lt
  rw [UInt64.lt_iff_toNat_lt, UInt64.toNat_sub, Nat.mod_eq_of_lt (by omega)]
  omega

theorem toNat_sub_eq_iff (t l : UInt64) : ((t - l).toNat : ℤ) = t.toNat - l.toNat ↔ l ≤ t := by
  rw [UInt64.le_iff_toNat_le, UInt64.toNat_sub]
  have ht := t.toNat_lt
  have hl := l.toNat_lt
  omega

theorem toInt_toInt64_of_lt {t : UInt64} (h : t.toNat < 2 ^ 63) : t.toInt64.toInt = t.toNat :=
  BitVec.toInt_eq_toNat_of_lt (x := t.toBitVec) (by rw [UInt64.toNat_toBitVec]; omega)

/-- The distance of two readings, as numbers. -/
def dist (a b : UInt64) : ℕ := ((a.toNat : ℤ) - b.toNat).natAbs

/-- The difference of two readings read as a signed number, made positive, and read as an unsigned
number again. -/
def signedGap (a b : UInt64) : UInt64 := (a - b).toInt64.abs.toUInt64

theorem signedGap_toNat (a b : UInt64) :
    (signedGap a b).toNat =
      if 2 ^ 63 ≤ (a - b).toNat then 2 ^ 64 - (a - b).toNat else (a - b).toNat := by
  have h : (signedGap a b).toNat = (a - b).toBitVec.abs.toNat := rfl
  rw [h, BitVec.toNat_abs, BitVec.msb_eq_decide]
  simp only [decide_eq_true_eq]
  rfl

/-- **The signed test is the distance** of two readings below `2 ^ 63`. -/
theorem signedGap_toNat_of_lt {a b : UInt64} (ha : a.toNat < 2 ^ 63) (hb : b.toNat < 2 ^ 63) :
    (signedGap a b).toNat = dist a b := by
  rw [signedGap_toNat, dist, UInt64.toNat_sub]
  split <;> omega

theorem signedGap_le_iff {a b d : UInt64} (ha : a.toNat < 2 ^ 63) (hb : b.toNat < 2 ^ 63) :
    signedGap a b ≤ d ↔ dist a b ≤ d.toNat := by
  rw [UInt64.le_iff_toNat_le, signedGap_toNat_of_lt ha hb]

/-- **The signed test on all readings**: it passes for readings that are close, and for those that
are nearly the whole range apart. -/
theorem signedGap_le_iff_or {a b d : UInt64} (hd : d.toNat < 2 ^ 63) :
    signedGap a b ≤ d ↔ dist a b ≤ d.toNat ∨ 2 ^ 64 ≤ dist a b + d.toNat := by
  have ha := a.toNat_lt
  have hb := b.toNat_lt
  rw [UInt64.le_iff_toNat_le, signedGap_toNat, dist, UInt64.toNat_sub]
  split <;> omega

/-- The difference is the signed number without an absolute value exactly for readings half the
range apart. -/
theorem toInt64_sub_eq_minValue_iff (a b : UInt64) :
    (a - b).toInt64 = Int64.minValue ↔ dist a b = 2 ^ 63 := by
  have ha := a.toNat_lt
  have hb := b.toNat_lt
  have hword : (a - b).toInt64 = Int64.minValue ↔ (a - b).toNat = 2 ^ 63 := by
    constructor
    · intro h
      have hunsigned := congrArg Int64.toUInt64 h
      rw [UInt64.toUInt64_toInt64] at hunsigned
      rw [hunsigned]
      rfl
    · intro h
      have hunsigned : a - b = Int64.minValue.toUInt64 := UInt64.toNat_inj.mp h
      rw [hunsigned]
      rfl
  rw [hword, dist, UInt64.toNat_sub]
  omega

end SyntheticArbitrage.Clock
