import SyntheticArbitrage.Binary64
import SyntheticArbitrage.Numeral
import SyntheticArbitrage.TradeLog.Text
import Mathlib.Data.List.DropRight

/-!
# The text of the price logs

The streams of `include/SyntheticSnapshotLogger.hpp` and `include/MispricingLogger.hpp` print their
numbers in the default format of a stream: six significant digits, without the zeros at the end, and
with an exponent for numbers that are very small or very large.

* `general6`: a number in the default format.
* `magnitude_general6`: the numeral writes the number rounded to six digits.
* `stod_general6`: `stod` reads back the rounded number.
* `Binary64.general`, `stod_general`: a `double` in the default format, and the decimal that is
  printed of it.
* `SyntheticSnapshotLogger.text`, `MispricingLogger.text`: the files of the two logs.
-/

namespace SyntheticArbitrage

open Rounding

/-! ## Numbers -/

/-- The first six digits of a number as an integer, and the exponent of the first one. -/
def sixDigits (q : ℚ) : ℕ × ℤ :=
  if digitsOf 5 q = 10 ^ 6 then (10 ^ 5, leading q + 1) else ((digitsOf 5 q).toNat, leading q)

def isFixed (x : ℤ) : Bool := -4 ≤ x && x < 6

/-- The place of the point: it follows the digit with this exponent. -/
def pointAt (x : ℤ) : ℤ := if isFixed x then x else 0

/-- The exponent that is printed, with its sign and at least two digits. -/
def exponentOf (x : ℤ) : Option Exponent :=
  if isFixed x then none
  else
    some {
      capital := false
      sign := some (decide (x < 0))
      digits := padded 2 (Nat.toDigits 10 x.natAbs)
      digits_ne := List.append_ne_nil_of_right_ne_nil _ Nat.toDigits_ne_nil
      digits_isDigit := isDigit_padded (NumberText.isDigit_toDigits _) }

/-- Six digits, behind zeros when the point comes before them. -/
def placed (point : ℤ) (m : ℕ) : List Char :=
  List.replicate (-point).toNat '0' ++ padded 6 (Nat.toDigits 10 m)

def stripped (cs : List Char) : List Char := cs.rdropWhile (· = '0')

/-- Digits after a point, which is left out when there are none. -/
def fracOf (cs : List Char) : Option (List Char) := if cs = [] then none else some cs

theorem isDigit_placed (point : ℤ) (m : ℕ) : ∀ c ∈ placed point m, c.isDigit := by
  intro c hc
  rcases List.mem_append.mp hc with hzero | hdigit
  · rw [List.eq_of_mem_replicate hzero]
    rfl
  · exact isDigit_padded (NumberText.isDigit_toDigits m) c hdigit

theorem getD_fracOf (cs : List Char) : (fracOf cs).getD [] = cs := by
  rw [fracOf]
  split
  · next h => rw [h]; rfl
  · rfl

/-- The default format of a number with this sign and size. -/
def general6 (negative : Bool) (q : ℚ) : Numeral :=
  let point := pointAt (sixDigits q).2
  let digits := placed point (sixDigits q).1
  { negative
    whole := digits.take (point.toNat + 1)
    frac := fracOf (stripped (digits.drop (point.toNat + 1)))
    exponent := exponentOf (sixDigits q).2
    digits_ne := by
      have hne : digits ≠ [] := List.append_ne_nil_of_right_ne_nil _
        (List.append_ne_nil_of_right_ne_nil _ Nat.toDigits_ne_nil)
      obtain ⟨c, cs, hcs⟩ := List.exists_cons_of_ne_nil hne
      rw [hcs]
      simp
    whole_isDigit := fun c hc => isDigit_placed _ _ c (List.mem_of_mem_take hc)
    frac_isDigit := by
      rw [getD_fracOf]
      exact fun c hc => isDigit_placed _ _ c
        (List.mem_of_mem_drop ((List.rdropWhile_prefix _ _).subset hc)) }

example : String.ofList (general6 false (4000012 / 100)).text = "40000.1" := by decide +kernel

example : String.ofList (general6 false (1 / 80000)).text = "1.25e-05" := by decide +kernel

/-! ## The number that is written -/

theorem sixDigits_spec (q : ℚ) :
    (sixDigits q).1 < 10 ^ 6 ∧
      ((sixDigits q).1 : ℚ) * 10 ^ ((sixDigits q).2 - 5) = digitsOf 5 q * 10 ^ (leading q - 5) := by
  have hrange : 0 ≤ digitsOf 5 q ∧ digitsOf 5 q ≤ 10 ^ 6 := by
    by_cases hq : q = 0
    · rw [hq, digitsOf_zero]
      norm_num
    · obtain ⟨hlow, hhigh⟩ := digitsOf_bounds 5 hq
      exact ⟨by omega, hhigh⟩
  rw [sixDigits]
  split
  · next hcarry =>
    refine ⟨by norm_num, ?_⟩
    rw [hcarry, show leading q + 1 - 5 = 1 + (leading q - 5) by ring, zpow_add₀ (by norm_num)]
    push_cast
    ring
  · next hcarry =>
    have hcast : (((digitsOf 5 q).toNat : ℤ) : ℚ) = digitsOf 5 q := by
      rw [Int.toNat_of_nonneg hrange.1]
    refine ⟨by omega, ?_⟩
    rw [← hcast]
    rfl

theorem pointAt_le (x : ℤ) : pointAt x ≤ 5 := by
  rw [pointAt, isFixed]
  split
  · next h =>
    simp only [Bool.and_eq_true, decide_eq_true_eq] at h
    omega
  · norm_num

theorem value_exponentOf (x : ℤ) :
    pointAt x + ((exponentOf x).map Exponent.value).getD 0 = x := by
  rw [pointAt, exponentOf]
  split
  · exact add_zero x
  · have hdigits : Nat.ofDigitChars 10 (padded 2 (Nat.toDigits 10 x.natAbs)) 0 = x.natAbs := by
      rw [padded, Nat.ofDigitChars_append, Nat.ofDigitChars_replicate_zero, Nat.mul_zero,
        Nat.ofDigitChars_ten_toDigits]
    rw [Option.map_some, Option.getD_some, Exponent.value, hdigits, zero_add]
    by_cases hx : x < 0
    · simp only [hx, decide_true, if_true]
      omega
    · simp only [hx, decide_false, Option.some.injEq, Bool.false_eq_true, if_false]
      omega

theorem ofDigitChars_placed (point : ℤ) (m : ℕ) : Nat.ofDigitChars 10 (placed point m) 0 = m := by
  rw [placed, padded, Nat.ofDigitChars_append, Nat.ofDigitChars_replicate_zero, Nat.mul_zero,
    Nat.ofDigitChars_append, Nat.ofDigitChars_replicate_zero, Nat.mul_zero,
    Nat.ofDigitChars_ten_toDigits]

theorem length_placed (point : ℤ) {m : ℕ} (h : m < 10 ^ 6) :
    (placed point m).length = (-point).toNat + 6 := by
  have hlen : (Nat.toDigits 10 m).length ≤ 6 :=
    (Nat.length_toDigits_le_iff (by norm_num) (by norm_num)).mpr h
  rw [placed, padded, List.length_append, List.length_replicate, List.length_append,
    List.length_replicate]
  omega

theorem ofDigitChars_stripped (cs : List Char) (k : ℕ) :
    (Nat.ofDigitChars 10 (cs.take k ++ stripped (cs.drop k)) 0 : ℚ) /
        10 ^ (stripped (cs.drop k)).length =
      Nat.ofDigitChars 10 cs 0 / 10 ^ (cs.length - k) := by
  have hsplit : stripped (cs.drop k) ++ (cs.drop k).rtakeWhile (· = '0') = cs.drop k :=
    List.rdropWhile_append_rtakeWhile
  have hzeros : (cs.drop k).rtakeWhile (· = '0') =
      List.replicate ((cs.drop k).rtakeWhile (· = '0')).length '0' := by
    refine List.eq_replicate_iff.mpr ⟨rfl, fun c hc => ?_⟩
    simpa using List.mem_rtakeWhile_imp hc
  generalize (cs.drop k).rtakeWhile (· = '0') = zeros at hsplit hzeros
  have hvalue : Nat.ofDigitChars 10 cs 0 =
      10 ^ zeros.length * Nat.ofDigitChars 10 (cs.take k ++ stripped (cs.drop k)) 0 := by
    conv_lhs => rw [← List.take_append_drop k cs, ← hsplit, ← List.append_assoc, hzeros]
    rw [Nat.ofDigitChars_append, Nat.ofDigitChars_replicate_zero]
  have hlength : cs.length - k = zeros.length + (stripped (cs.drop k)).length := by
    rw [← List.length_drop, ← hsplit, List.length_append, hsplit, add_comm]
  rw [hvalue, hlength, pow_add]
  push_cast
  rw [mul_div_mul_left _ _ (by positivity)]

/-- **The numeral writes the rounded number.** -/
theorem magnitude_general6 (negative : Bool) (q : ℚ) :
    (general6 negative q).magnitude = digitsOf 5 q * 10 ^ (leading q - 5) := by
  obtain ⟨hm, hsize⟩ := sixDigits_spec q
  rw [← hsize]
  generalize hmx : sixDigits q = mx at hm ⊢
  obtain ⟨m, x⟩ := mx
  have hten : (10 : ℚ) ≠ 0 := by norm_num
  have hpoint := pointAt_le x
  have hdigits : (general6 negative q).magnitude =
      (Nat.ofDigitChars 10 ((placed (pointAt x) m).take ((pointAt x).toNat + 1) ++
          stripped ((placed (pointAt x) m).drop ((pointAt x).toNat + 1))) 0 : ℚ) /
        10 ^ (stripped ((placed (pointAt x) m).drop ((pointAt x).toNat + 1))).length *
        10 ^ ((exponentOf x).map Exponent.value).getD 0 := by
    rw [Numeral.magnitude, general6]
    simp only [hmx, getD_fracOf]
  have hplaces : (((placed (pointAt x) m).length - ((pointAt x).toNat + 1) : ℕ) : ℤ) =
      5 - pointAt x := by
    rw [length_placed _ hm]
    omega
  have hexponent : ((exponentOf x).map Exponent.value).getD 0 = x - pointAt x := by
    have hsum := value_exponentOf x
    omega
  rw [hdigits, ofDigitChars_stripped, ofDigitChars_placed, hexponent, ← zpow_natCast, hplaces,
    div_eq_mul_inv, ← zpow_neg, mul_assoc, ← zpow_add₀ hten]
  congr 2
  ring

/-- **`stod` reads back the rounded number.** -/
theorem stod_general6 {R : Type} [DoubleScan R] (negative : Bool) {q : ℚ} (hq : 0 ≤ q) {x : R}
    (h : DoubleScan.ofNumeral (roundSig 5 q) = some x) :
    (stod (String.ofList (general6 negative q).text) : Except Exception R) =
      .ok (if negative then -x else x) := by
  have hmagnitude : (general6 negative q).magnitude = roundSig 5 q := by
    rw [magnitude_general6, roundSig, if_neg (not_lt.mpr hq)]
    rfl
  rw [Numeral.stod_text, Numeral.toDouble, hmagnitude, h]
  rfl

/-! ## Lines -/

/-- A `double` in the default format.  The sign of a NaN is left out. -/
def Binary64.general : Binary64 → List Char
  | fin negative size => (general6 negative size).text
  | inf true => ['-', 'i', 'n', 'f']
  | inf false => ['i', 'n', 'f']
  | nan => ['n', 'a', 'n']

/-- **The decimal that is printed** of a finite `double`. -/
theorem stod_general {x : Binary64} (h : x.isFinite = true) :
    (stod (String.ofList x.general) : Except Exception XDouble) =
      .ok (.fin (roundSig 5 x.value)) := by
  obtain ⟨s, a, rfl⟩ := Binary64.isFinite_iff.mp h
  rw [Binary64.general, stod_general6 (x := Extended.fin (roundSig 5 a.1)) s a.2.1 rfl,
    Binary64.value]
  split
  · rw [roundSig_neg]
    rfl
  · rfl

theorem Numeral.plain_text (n : Numeral) : Csv.Plain n.text := by
  have hspecial : Csv.special.all (fun c => !(c.isDigit || ['-', '+', '.', 'e', 'E'].contains c)) =
      true := by
    decide
  intro c hc hmem
  have hforeign := List.all_eq_true.mp hspecial c hmem
  rw [Bool.not_eq_true', Bool.or_eq_false_iff] at hforeign
  rcases mem_text hc with hdigit | hother
  · rw [hforeign.1] at hdigit
    cases hdigit
  · rw [List.contains_iff_mem.mpr hother] at hforeign
    cases hforeign.2

theorem Binary64.plain_general (x : Binary64) : Csv.Plain x.general := by
  cases x with
  | fin negative size => exact (general6 negative size).plain_text
  | inf negative => cases negative <;> decide
  | nan => decide

def SyntheticSnapshotLogger.header : List String :=
  ["timestamp", "ethbtc", "btcusdt", "real_ethusdt", "synthetic_ethusdt", "diff"]

def MispricingLogger.header : List String :=
  ["timestamp", "synthetic_price", "real_price", "diff"]

def SnapshotRow.printed (row : SnapshotRow Binary64) : List (List Char) :=
  (Decimal.ofInt row.timestamp.toNat).text ::
    [row.ethbtc, row.btcusdt, row.realEthusdt, row.syntheticEthusdt, row.diff].map Binary64.general

def MispricingRow.printed (row : MispricingRow Binary64) : List (List Char) :=
  (Decimal.ofInt row.timestamp.toNat).text ::
    [row.syntheticPrice, row.realPrice, row.diff].map Binary64.general

def SyntheticSnapshotLogger.text (l : SyntheticSnapshotLogger Binary64) : List Char :=
  headerLine header ++ l.out.flatMap fun row => Csv.line row.printed

def MispricingLogger.text (l : MispricingLogger Binary64) : List Char :=
  headerLine header ++ l.logfile.flatMap fun row => Csv.line row.printed

end SyntheticArbitrage
