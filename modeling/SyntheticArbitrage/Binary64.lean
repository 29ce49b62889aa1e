import SyntheticArbitrage.Double
import SyntheticArbitrage.Lib.Binary
import Mathlib.Tactic.Positivity

/-!
# The `double` of the machine

A `double` with its rounding: a sign and a size, which is a number of the binary format with 53 bits
below `2 ^ 1024`, or an infinity with its sign, or NaN.  Every operation is the exact one, rounded
to the nearest `double`, of two nearest ones to the one with the even last bit; from `2 ^ 1024` on
that is an infinity.

* `ofSize`, `ofRat`: the nearest `double` of a number.
* `Within`: a finite `double` with a bound of its size.
* `add_within`, `mul_within`, `div_within`: up to a factor of two, results have the bounds of the
  exact ones.
* `stdMin_le`: `std::min` of numbers that are not negative.
-/

namespace SyntheticArbitrage

open Binary

/-- The size of a finite `double`. -/
def IsSize (q : ℚ) : Prop := 0 ≤ q ∧ q < 2 ^ 1024 ∧ nearest 52 (-1074) q = q

instance (q : ℚ) : Decidable (IsSize q) :=
  inferInstanceAs (Decidable (0 ≤ q ∧ q < 2 ^ 1024 ∧ nearest 52 (-1074) q = q))

theorem isSize_zero : IsSize 0 := ⟨le_rfl, by positivity, nearest_zero⟩

inductive Binary64 where
  | fin (negative : Bool) (size : {q : ℚ // IsSize q})
  | inf (negative : Bool)
  | nan
  deriving DecidableEq

namespace Binary64

def signedZero (negative : Bool) : Binary64 := fin negative ⟨0, isSize_zero⟩

/-- The nearest `double` of a number with this sign and size. -/
def ofSize (negative : Bool) (q : ℚ) : Binary64 :=
  if h : IsSize (nearest 52 (-1074) q) then fin negative ⟨_, h⟩ else inf negative

def ofRat (q : ℚ) : Binary64 := ofSize (decide (q < 0)) |q|

/-- The number that a finite `double` is. -/
def value : Binary64 → ℚ
  | fin negative size => if negative then -size.1 else size.1
  | _ => 0

def add : Binary64 → Binary64 → Binary64
  | fin s a, fin t b =>
    let sum := (fin s a).value + (fin t b).value
    if sum = 0 then signedZero (s && t) else ofRat sum
  | inf s, inf t => if s = t then inf s else nan
  | inf s, fin _ _ => inf s
  | fin _ _, inf t => inf t
  | nan, _ => nan
  | _, nan => nan

def neg : Binary64 → Binary64
  | fin s a => fin (!s) a
  | inf s => inf (!s)
  | nan => nan

def mul : Binary64 → Binary64 → Binary64
  | fin s a, fin t b => ofSize (s != t) (a.1 * b.1)
  | inf s, inf t => inf (s != t)
  | inf s, fin t b => if b.1 = 0 then nan else inf (s != t)
  | fin s a, inf t => if a.1 = 0 then nan else inf (s != t)
  | nan, _ => nan
  | _, nan => nan

def div : Binary64 → Binary64 → Binary64
  | fin s a, fin t b =>
    if b.1 = 0 then (if a.1 = 0 then nan else inf (s != t)) else ofSize (s != t) (a.1 / b.1)
  | inf _, inf _ => nan
  | inf s, fin t _ => inf (s != t)
  | fin s _, inf t => signedZero (s != t)
  | nan, _ => nan
  | _, nan => nan

/-- `a < b`: false as soon as one side is NaN. -/
def lt : Binary64 → Binary64 → Bool
  | fin s a, fin t b => decide ((fin s a).value < (fin t b).value)
  | inf s, inf t => s && !t
  | inf s, fin _ _ => s
  | fin _ _, inf t => !t
  | nan, _ => false
  | _, nan => false

/-- `a <= b`: false as soon as one side is NaN. -/
def le : Binary64 → Binary64 → Bool
  | fin s a, fin t b => decide ((fin s a).value ≤ (fin t b).value)
  | inf s, inf t => s || !t
  | inf s, fin _ _ => s
  | fin _ _, inf t => !t
  | nan, _ => false
  | _, nan => false

def abs : Binary64 → Binary64
  | fin _ a => fin false a
  | inf _ => inf false
  | nan => nan

def isFinite : Binary64 → Bool
  | fin _ _ => true
  | _ => false

/-- `strtod` reports a range error for a number that is too large, and for one below the normal
numbers that is rounded. -/
def ofNumeral (q : ℚ) : Option Binary64 :=
  if !(ofRat q).isFinite || (|q| < 2 ^ (-1022 : ℤ) && nearest 52 (-1074) |q| ≠ |q|) then none
  else some (ofRat q)

instance : DoubleScan Binary64 where
  zero := signedZero false
  add := add
  neg := neg
  sub := fun a b => add a (neg b)
  mul := mul
  div := div
  le := fun a b => le a b = true
  lt := fun a b => lt a b = true
  abs := abs
  lit := ofRat
  ofInt := fun n => ofRat n
  decLE := fun a b => inferInstanceAs (Decidable (le a b = true))
  decLT := fun a b => inferInstanceAs (Decidable (lt a b = true))
  ofNumeral := ofNumeral
  infinity := inf false
  nan := nan
  toUInt64 := fun x => UInt64.ofInt (x.value.num.tdiv x.value.den)

instance : DoubleToInt Binary64 where
  toInt32 := fun x => Int32.ofInt (x.value.num.tdiv x.value.den)

/-! ## Finite numbers -/

theorem isFinite_iff {x : Binary64} : x.isFinite = true ↔ ∃ s a, x = fin s a := by
  cases x with
  | fin s a => exact iff_of_true rfl ⟨s, a, rfl⟩
  | inf s => exact iff_of_false Bool.false_ne_true fun ⟨_, _, h⟩ => by cases h
  | nan => exact iff_of_false Bool.false_ne_true fun ⟨_, _, h⟩ => by cases h

theorem abs_value_fin (s : Bool) (a : {q : ℚ // IsSize q}) : |(fin s a).value| = a.1 := by
  cases s with
  | false => exact abs_of_nonneg a.2.1
  | true =>
    show |-a.1| = a.1
    rw [abs_neg, abs_of_nonneg a.2.1]

theorem value_neg (x : Binary64) : (neg x).value = -x.value := by
  cases x with
  | fin s a =>
    cases s with
    | false => rfl
    | true => exact (neg_neg a.1).symm
  | inf s => exact neg_zero.symm
  | nan => exact neg_zero.symm

/-- A finite number of a bounded size. -/
def Within (b : ℚ) (x : Binary64) : Prop := x.isFinite = true ∧ |x.value| ≤ b

theorem Within.mono {a b : ℚ} {x : Binary64} (h : x.Within a) (hab : a ≤ b) : x.Within b :=
  ⟨h.1, h.2.trans hab⟩

theorem Within.neg {b : ℚ} {x : Binary64} (h : x.Within b) : (neg x).Within b := by
  refine ⟨?_, ?_⟩
  · obtain ⟨s, a, rfl⟩ := isFinite_iff.mp h.1
    rfl
  · rw [value_neg, abs_neg]
    exact h.2

/-- A bound with room for the rounding: the result is finite. -/
theorem ofSize_eq (s : Bool) {q b : ℚ} (hq : 0 ≤ q) (h : q ≤ b) (hb : 2 ^ (-1074 : ℤ) ≤ b)
    (hmax : 2 * b < 2 ^ 1024) : ∃ hsize, ofSize s q = fin s ⟨nearest 52 (-1074) q, hsize⟩ := by
  have hle : nearest 52 (-1074) q ≤ 2 * b := nearest_le_two_mul hq h hb
  have hsize : IsSize (nearest 52 (-1074) q) :=
    ⟨nearest_nonneg hq, hle.trans_lt hmax, nearest_nearest hq⟩
  exact ⟨hsize, by rw [ofSize, dif_pos hsize]⟩

/-- **Rounding** doubles a bound at most. -/
theorem ofSize_within (s : Bool) {q b : ℚ} (hq : 0 ≤ q) (h : q ≤ b) (hb : 2 ^ (-1074 : ℤ) ≤ b)
    (hmax : 2 * b < 2 ^ 1024) :
    (ofSize s q).Within (2 * b) ∧ |(ofSize s q).value| = nearest 52 (-1074) q := by
  obtain ⟨hsize, heq⟩ := ofSize_eq s hq h hb hmax
  rw [heq]
  exact ⟨⟨rfl, (abs_value_fin s _).trans_le (nearest_le_two_mul hq h hb)⟩, abs_value_fin s _⟩

theorem ofRat_within {q b : ℚ} (h : |q| ≤ b) (hb : 2 ^ (-1074 : ℤ) ≤ b) (hmax : 2 * b < 2 ^ 1024) :
    (ofRat q).Within (2 * b) := (ofSize_within _ (abs_nonneg q) h hb hmax).1

variable {x y : Binary64} {a b : ℚ}

theorem add_within (hx : x.Within a) (hy : y.Within b) (hb : 2 ^ (-1074 : ℤ) ≤ a + b)
    (hmax : 2 * (a + b) < 2 ^ 1024) : (x + y).Within (2 * (a + b)) := by
  obtain ⟨s, m, rfl⟩ := isFinite_iff.mp hx.1
  obtain ⟨t, n, rfl⟩ := isFinite_iff.mp hy.1
  show (add _ _).Within _
  rw [add]
  split
  · refine ⟨rfl, ?_⟩
    have hpos : 0 ≤ 2 * (a + b) := by linarith [two_zpow_pos (-1074)]
    rw [signedZero, abs_value_fin]
    exact hpos
  · exact ofRat_within ((abs_add_le _ _).trans (add_le_add hx.2 hy.2)) hb hmax

theorem sub_within (hx : x.Within a) (hy : y.Within b) (hb : 2 ^ (-1074 : ℤ) ≤ a + b)
    (hmax : 2 * (a + b) < 2 ^ 1024) : (x - y).Within (2 * (a + b)) :=
  add_within hx hy.neg hb hmax

theorem mul_within (hx : x.Within a) (hy : y.Within b) (hb : 2 ^ (-1074 : ℤ) ≤ a * b)
    (hmax : 2 * (a * b) < 2 ^ 1024) :
    (x * y).Within (2 * (a * b)) ∧
      |(x * y).value| = nearest 52 (-1074) (|x.value| * |y.value|) := by
  have hle : |x.value| * |y.value| ≤ a * b :=
    mul_le_mul hx.2 hy.2 (abs_nonneg _) ((abs_nonneg _).trans hx.2)
  obtain ⟨s, m, rfl⟩ := isFinite_iff.mp hx.1
  obtain ⟨t, n, rfl⟩ := isFinite_iff.mp hy.1
  rw [abs_value_fin, abs_value_fin] at hle ⊢
  exact ofSize_within _ (mul_nonneg m.2.1 n.2.1) hle hb hmax

theorem div_within (hx : x.Within a) (hy : y.isFinite = true) (hpos : 0 < b) (hle : b ≤ |y.value|)
    (hb : 2 ^ (-1074 : ℤ) ≤ a / b) (hmax : 2 * (a / b) < 2 ^ 1024) :
    (x / y).Within (2 * (a / b)) := by
  obtain ⟨s, m, rfl⟩ := isFinite_iff.mp hx.1
  obtain ⟨t, n, rfl⟩ := isFinite_iff.mp hy
  rw [abs_value_fin] at hle
  have hxle := hx.2
  rw [abs_value_fin] at hxle
  have hquotient : m.1 / n.1 ≤ a / b := by
    have ha : 0 ≤ a := m.2.1.trans hxle
    exact div_le_div₀ ha hxle hpos hle
  show (div _ _).Within _
  rw [div, if_neg (hpos.trans_le hle).ne']
  exact (ofSize_within _ (div_nonneg m.2.1 n.2.1) hquotient hb hmax).1

/-! ## Signs and comparisons -/

/-- The sign is not negative: the number is finite or an infinity. -/
def Plus (x : Binary64) : Prop := (∃ a, x = fin false a) ∨ x = inf false

theorem plus_ofSize (q : ℚ) : (ofSize false q).Plus := by
  rw [ofSize]
  split
  · exact .inl ⟨_, rfl⟩
  · exact .inr rfl

theorem plus_of_value_pos (h : 0 < x.value) : ∃ a, x = fin false a ∧ 0 < a.1 := by
  cases x with
  | fin s a =>
    cases s with
    | false => exact ⟨a, rfl, h⟩
    | true =>
      have hneg : (fin true a).value ≤ 0 := neg_nonpos.mpr a.2.1
      exact absurd h (not_lt.mpr hneg)
  | inf s => exact absurd h (lt_irrefl 0)
  | nan => exact absurd h (lt_irrefl 0)

theorem smallest_le_value (h : 0 < x.value) : 2 ^ (-1074 : ℤ) ≤ x.value := by
  obtain ⟨a, rfl, hpos⟩ := plus_of_value_pos h
  obtain ⟨n, k, -, hk, heq⟩ : ∃ n : ℕ, ∃ k : ℤ, n < 2 ^ 53 ∧ -1074 ≤ k ∧
      nearest 52 (-1074) a.1 = n * 2 ^ k := exists_nearest a.2.1
  rw [a.2.2.2] at heq
  have hn : 0 < n := by
    rcases Nat.eq_zero_or_pos n with rfl | hn
    · rw [heq, Nat.cast_zero, zero_mul] at hpos
      exact absurd hpos (lt_irrefl 0)
    · exact hn
  have hone : (1 : ℚ) ≤ n := Nat.one_le_cast.mpr hn
  calc (2 : ℚ) ^ (-1074 : ℤ) ≤ 2 ^ k := two_zpow_le hk
    _ ≤ n * 2 ^ k := le_mul_of_one_le_left (two_zpow_pos k).le hone
    _ = a.1 := heq.symm

theorem Plus.abs_value (hx : x.Plus) : |x.value| = x.value := by
  rcases hx with ⟨a, rfl⟩ | rfl
  · exact abs_value_fin false a
  · exact abs_zero

theorem plus_mul_of_pos (hx : 0 < x.value) (hy : 0 < y.value) : (x * y).Plus := by
  obtain ⟨a, rfl, -⟩ := plus_of_value_pos hx
  obtain ⟨b, rfl, -⟩ := plus_of_value_pos hy
  exact plus_ofSize _

theorem Plus.mul (hx : x.Plus) (hy : 0 < y.value) : (x * y).Plus := by
  obtain ⟨b, rfl, hpos⟩ := plus_of_value_pos hy
  rcases hx with ⟨a, rfl⟩ | rfl
  · exact plus_ofSize _
  · refine .inr ?_
    show mul _ _ = _
    rw [mul, if_neg hpos.ne']
    rfl

theorem plus_abs_div (hx : x.isFinite = true) (hy : 0 < y.value) : (DoubleOps.abs x / y).Plus := by
  obtain ⟨s, a, rfl⟩ := isFinite_iff.mp hx
  obtain ⟨b, rfl, hpos⟩ := plus_of_value_pos hy
  show (div (fin false a) (fin false b)).Plus
  rw [div, if_neg hpos.ne']
  exact plus_ofSize _

theorem Plus.nonneg (hx : x.Plus) : 0 ≤ x := by
  rcases hx with ⟨a, rfl⟩ | rfl
  · exact decide_eq_true a.2.1
  · rfl

theorem abs_within (h : x.Within b) : (DoubleOps.abs x).Within b := by
  obtain ⟨s, a, rfl⟩ := isFinite_iff.mp h.1
  refine ⟨rfl, ?_⟩
  have hle := h.2
  rw [abs_value_fin] at hle
  exact (abs_value_fin false a).trans_le hle

theorem le_of_not_lt (hx : 0 ≤ x) (hy : 0 ≤ y) (h : ¬ y < x) : x ≤ y := by
  cases x with
  | fin s a =>
    cases y with
    | fin t b =>
      have hle : ¬ (fin t b).value < (fin s a).value := fun hlt => h (decide_eq_true hlt)
      exact decide_eq_true (not_lt.mp hle)
    | inf t =>
      cases t with
      | false => rfl
      | true => cases hy
    | nan => cases hy
  | inf s =>
    cases s with
    | true => cases hx
    | false =>
      cases y with
      | fin t b => exact absurd rfl h
      | inf t =>
        cases t with
        | false => rfl
        | true => cases hy
      | nan => cases hy
  | nan => cases hx

theorem le_self (hx : 0 ≤ x) : x ≤ x := by
  cases x with
  | fin s a => exact decide_eq_true le_rfl
  | inf s => cases s <;> rfl
  | nan => cases hx

theorem le_of_lt' (h : x < y) : x ≤ y := by
  cases x with
  | fin s a =>
    cases y with
    | fin t b => exact decide_eq_true (of_decide_eq_true h).le
    | inf t => exact h
    | nan => cases h
  | inf s =>
    cases y with
    | fin t b => exact h
    | inf t =>
      cases s with
      | false => cases h
      | true => rfl
    | nan => cases h
  | nan => cases h

/-- **`std::min`** of two numbers that are not negative is below both. -/
theorem stdMin_le (hx : 0 ≤ x) (hy : 0 ≤ y) :
    0 ≤ stdMin x y ∧ stdMin x y ≤ x ∧ stdMin x y ≤ y := by
  rw [stdMin]
  split
  · next h => exact ⟨hy, le_of_lt' h, le_self hy⟩
  · next h => exact ⟨hx, le_self hx, le_of_not_lt hx hy h⟩

theorem Within.of_le (hx : 0 ≤ x) (hxy : x ≤ y) (hy : y.Within b) : x.Within b := by
  obtain ⟨t, n, rfl⟩ := isFinite_iff.mp hy.1
  cases x with
  | fin s a =>
    have hnonneg : 0 ≤ (fin s a).value := of_decide_eq_true hx
    have hle : (fin s a).value ≤ (fin t n).value := of_decide_eq_true hxy
    refine ⟨rfl, ?_⟩
    rw [abs_of_nonneg hnonneg]
    exact hle.trans ((le_abs_self _).trans hy.2)
  | inf s =>
    cases s with
    | false => exact absurd hxy Bool.false_ne_true
    | true => cases hx
  | nan => cases hx

/-! ## The error of an operation -/

theorem two_zpow_le_billion : (2 : ℚ) ^ (-1074 : ℤ) ≤ 10 ^ 9 :=
  calc (2 : ℚ) ^ (-1074 : ℤ) ≤ 2 ^ (0 : ℤ) := two_zpow_le (by norm_num)
    _ ≤ 10 ^ 9 := by norm_num

theorem two_billion_lt : 2 * (10 : ℚ) ^ 9 < 2 ^ 1024 :=
  calc 2 * (10 : ℚ) ^ 9 < 2 ^ 64 := by norm_num
    _ ≤ 2 ^ 1024 := pow_le_pow_right₀ (by norm_num) (by norm_num)

theorem ofRat_eq {q : ℚ} (hq : 0 ≤ q) (h : q ≤ 10 ^ 9) :
    ∃ hsize, ofRat q = fin false ⟨nearest 52 (-1074) q, hsize⟩ := by
  rw [ofRat, abs_of_nonneg hq, decide_eq_false (not_lt.mpr hq)]
  exact ofSize_eq false hq h two_zpow_le_billion two_billion_lt

theorem value_ofRat {q : ℚ} (hq : 0 ≤ q) (h : q ≤ 10 ^ 9) :
    (ofRat q).value = nearest 52 (-1074) q := by
  obtain ⟨hsize, heq⟩ := ofRat_eq hq h
  rw [heq]
  rfl

/-- Neither too large nor too small a number is in the range of `strtod`. -/
theorem ofNumeral_eq {q : ℚ} (h : q ≤ 10 ^ 9) (hlow : q = 0 ∨ 2 ^ (-1022 : ℤ) ≤ q) :
    ofNumeral q = some (ofRat q) := by
  have hq : 0 ≤ q := by
    rcases hlow with rfl | hlow
    · exact le_rfl
    · exact (two_zpow_pos _).le.trans hlow
  obtain ⟨hsize, heq⟩ := ofRat_eq hq h
  have hrange : ¬ (|q| < 2 ^ (-1022 : ℤ) ∧ nearest 52 (-1074) |q| ≠ |q|) := by
    rintro ⟨hlt, hne⟩
    rcases hlow with rfl | hlow
    · exact hne (by rw [abs_zero, nearest_zero])
    · rw [abs_of_nonneg hq] at hlt
      exact absurd hlt (not_lt.mpr hlow)
  rw [ofNumeral, heq]
  simp only [isFinite, Bool.not_true, Bool.false_or, Bool.and_eq_true, decide_eq_true_eq]
  rw [if_neg hrange]

theorem ofRat_spec {q : ℚ} (h : |q| ≤ 10 ^ 9) :
    (ofRat q).isFinite = true ∧ |(ofRat q).value| = nearest 52 (-1074) |q| ∧
      |(ofRat q).value - q| ≤ |q| / 2 ^ 53 + 2 ^ (-1074 : ℤ) / 2 := by
  obtain ⟨hsize, heq⟩ :=
    ofSize_eq (decide (q < 0)) (abs_nonneg q) h two_zpow_le_billion two_billion_lt
  have herror : |nearest 52 (-1074) (|q|) - (|q|)| ≤ |q| / 2 ^ 53 + 2 ^ (-1074 : ℤ) / 2 :=
    abs_nearest_sub_le (abs_nonneg q)
  have hvalue : (fin (decide (q < 0)) ⟨nearest 52 (-1074) |q|, hsize⟩).value =
      if q < 0 then -nearest 52 (-1074) |q| else nearest 52 (-1074) |q| := by
    rw [value]
    simp only [decide_eq_true_eq]
  rw [ofRat, heq]
  refine ⟨rfl, abs_value_fin _ _, ?_⟩
  rw [hvalue]
  generalize nearest 52 (-1074) |q| = m at herror
  split
  · next hneg =>
    have hopposite : -m - q = -(m - |q|) := by
      rw [abs_of_neg hneg]
      ring
    rw [hopposite, abs_neg]
    exact herror
  · next hnonneg =>
    have habs : |q| = q := abs_of_nonneg (not_lt.mp hnonneg)
    rw [habs] at herror ⊢
    exact herror

/-- **A difference** of finite numbers is rounded once. -/
theorem sub_spec (hx : x.isFinite = true) (hy : y.isFinite = true)
    (h : |x.value - y.value| ≤ 10 ^ 9) :
    (x - y).isFinite = true ∧ |(x - y).value| = nearest 52 (-1074) |x.value - y.value| ∧
      |(x - y).value - (x.value - y.value)| ≤
        |x.value - y.value| / 2 ^ 53 + 2 ^ (-1074 : ℤ) / 2 := by
  obtain ⟨s, a, rfl⟩ := isFinite_iff.mp hx
  obtain ⟨t, b, rfl⟩ := isFinite_iff.mp hy
  have hsum : (fin s a).value + (fin (!t) b).value = (fin s a).value - (fin t b).value := by
    rw [sub_eq_add_neg, ← value_neg]
    rfl
  have hsub : fin s a - fin t b = if (fin s a).value - (fin t b).value = 0 then signedZero (s && !t)
      else ofRat ((fin s a).value - (fin t b).value) := by
    rw [← hsum]
    rfl
  rw [hsub]
  split
  · next hzero =>
    rw [hzero, abs_zero, nearest_zero, sub_zero, zero_div, zero_add]
    have hvalue : |(signedZero (s && !t)).value| = 0 := abs_value_fin _ _
    refine ⟨rfl, hvalue, ?_⟩
    rw [hvalue]
    exact div_nonneg (two_zpow_pos _).le (by norm_num)
  · exact ofRat_spec h

end Binary64

end SyntheticArbitrage
