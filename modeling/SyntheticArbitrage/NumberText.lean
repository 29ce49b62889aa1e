import SyntheticArbitrage.Double
import Mathlib.Tactic.NormNum

/-!
# Numbers in texts

`std::stod` and `std::stoull`, which the feed handlers apply to numbers that come as strings.  Both
skip blanks, take an optional sign, and read the longest numeral at the head of what is left; what
follows it is ignored.

* `stod`: decimal and hexadecimal numerals with a fraction and an exponent, infinities and NaN.
* `stoull`: decimal integers; a minus sign negates modulo `2 ^ 64`.
* `Decimal`: a decimal numeral, its text and its number.
* `stoull_repr`: `stoull` reads back the numerals of integers.
-/

namespace SyntheticArbitrage

/-- The exceptions that reach the `catch` blocks of the feed handlers. -/
inductive Exception where
  /-- `nlohmann::json::parse_error` -/
  | parseError
  /-- `nlohmann::json::type_error`, by its id -/
  | typeError (id : ℕ)
  /-- `std::invalid_argument` -/
  | invalidArgument
  /-- `std::out_of_range` -/
  | outOfRange
  deriving DecidableEq

namespace NumberText

/-- `std::isspace` in the C locale. -/
def isSpace (c : Char) : Bool := c.toNat = 32 || (9 ≤ c.toNat && c.toNat ≤ 13)

/-- An optional sign: whether it is a minus, and what follows. -/
def sign : List Char → Bool × List Char
  | [] => (false, [])
  | c :: cs =>
    if c = '-' then (true, cs)
    else if c = '+' then (false, cs)
    else (false, c :: cs)

def decDigit (c : Char) : Option ℕ :=
  if 48 ≤ c.toNat ∧ c.toNat ≤ 57 then some (c.toNat - 48) else none

def hexDigit (c : Char) : Option ℕ :=
  if 97 ≤ c.toNat ∧ c.toNat ≤ 102 then some (c.toNat - 87)
  else if 65 ≤ c.toNat ∧ c.toNat ≤ 70 then some (c.toNat - 55)
  else decDigit c

/-- The digits at the head of a text, and what follows. -/
def digits (digit : Char → Option ℕ) : List Char → List ℕ × List Char
  | [] => ([], [])
  | c :: cs =>
    match digit c with
    | some d => (d :: (digits digit cs).1, (digits digit cs).2)
    | none => ([], c :: cs)

def ofDigits (base : ℕ) (ds : List ℕ) : ℕ := ds.foldl (fun n d => base * n + d) 0

/-- How a numeral is written. -/
structure Radix where
  base : ℕ
  digit : Char → Option ℕ
  exponentMark : Char
  exponentBase : ℕ

def decimal : Radix := ⟨10, decDigit, 'e', 10⟩

def hexadecimal : Radix := ⟨16, hexDigit, 'p', 2⟩

/-- The exponent at the head of a text, `0` if there is none. -/
def exponent (mark : Char) : List Char → ℤ
  | [] => 0
  | c :: cs =>
    if c.toLower = mark then
      let n : ℤ := ofDigits 10 (digits decDigit (sign cs).2).1
      if (sign cs).1 then -n else n
    else 0

/-- The digits after a decimal point at the head of a text, and what follows. -/
def fraction (digit : Char → Option ℕ) : List Char → List ℕ × List Char
  | [] => ([], [])
  | c :: cs => if c = '.' then digits digit cs else ([], c :: cs)

/-- The numeral at the head of a text: digits with a fraction, at least one digit in all, and an
exponent. -/
def numeral (r : Radix) (cs : List Char) : Option ℚ :=
  let whole := digits r.digit cs
  let frac := fraction r.digit whole.2
  if whole.1 = [] ∧ frac.1 = [] then none
  else
    some (ofDigits r.base (whole.1 ++ frac.1) / (r.base : ℚ) ^ frac.1.length *
      (r.exponentBase : ℚ) ^ exponent r.exponentMark frac.2)

/-- What `strtod` finds after the sign. -/
inductive Magnitude where
  | infinity
  | nan
  | value (q : ℚ)
  deriving DecidableEq

def decimalMagnitude (cs : List Char) : Option Magnitude := (numeral decimal cs).map .value

/-- A hexadecimal numeral; `0x` without one is the numeral `0`. -/
def hexMagnitude (cs : List Char) : Option Magnitude :=
  some (.value ((numeral hexadecimal cs).getD 0))

def magnitude (cs : List Char) : Option Magnitude :=
  let lower := cs.map Char.toLower
  if ['i', 'n', 'f'].isPrefixOf lower then some .infinity
  else if ['n', 'a', 'n'].isPrefixOf lower then some .nan
  else if ['0', 'x'].isPrefixOf lower then hexMagnitude (cs.drop 2)
  else decimalMagnitude cs

variable {R : Type} [DoubleScan R]

/-- The `double` of a magnitude; `none` is a range error. -/
def Magnitude.toDouble : Magnitude → Option R
  | infinity => some DoubleScan.infinity
  | nan => some DoubleScan.nan
  | value q => DoubleScan.ofNumeral q

end NumberText

open NumberText

/-- `std::stod` -/
def stod {R : Type} [DoubleScan R] (str : String) : Except Exception R :=
  let signed := sign (str.toList.dropWhile isSpace)
  match magnitude signed.2 with
  | none => throw .invalidArgument
  | some m =>
    match (m.toDouble : Option R) with
    | none => throw .outOfRange
    | some x => pure (if signed.1 then -x else x)

/-- `std::stoull` -/
def stoull (str : String) : Except Exception UInt64 :=
  let signed := sign (str.toList.dropWhile isSpace)
  let ds := (digits decDigit signed.2).1
  if ds = [] then throw .invalidArgument
  else if 2 ^ 64 ≤ ofDigits 10 ds then throw .outOfRange
  else pure (if signed.1 then -UInt64.ofNat (ofDigits 10 ds) else UInt64.ofNat (ofDigits 10 ds))

/-! ## Reading back a decimal text -/

namespace NumberText

theorem isDigit_iff (c : Char) : c.isDigit ↔ 48 ≤ c.toNat ∧ c.toNat ≤ 57 := by
  simp [Char.isDigit, UInt32.le_iff_toNat_le]

theorem decDigit_of_isDigit {c : Char} (h : c.isDigit) : decDigit c = some (c.toNat - 48) :=
  if_pos ((isDigit_iff c).mp h)

theorem not_isSpace_of_isDigit {c : Char} (h : c.isDigit) : isSpace c = false := by
  have hc := (isDigit_iff c).mp h
  simp only [isSpace, Bool.or_eq_false_iff, Bool.and_eq_false_iff, decide_eq_false_iff_not]
  omega

theorem toLower_of_isDigit {c : Char} (h : c.isDigit) : c.toLower = c := by
  have hc := (isDigit_iff c).mp h
  apply dif_neg
  rintro ⟨hA, -⟩
  -- The capitals start at 65, above the digits.
  have : 65 ≤ c.toNat := UInt32.le_iff_toNat_le.mp hA
  omega

theorem ne_of_isDigit {c d : Char} (h : c.isDigit) (hd : d.isDigit = false) : c ≠ d := by
  rintro rfl
  rw [h] at hd
  cases hd

theorem sign_of_isDigit {c : Char} (cs : List Char) (h : c.isDigit) :
    sign (c :: cs) = (false, c :: cs) := by
  rw [sign, if_neg (ne_of_isDigit h rfl), if_neg (ne_of_isDigit h rfl)]

/-- `digits` reads all the digits at the head of a text. -/
theorem digits_append {cs : List Char} (h : ∀ c ∈ cs, c.isDigit) (rest : List Char) :
    digits decDigit (cs ++ rest) =
      (cs.map (fun c => c.toNat - 48) ++ (digits decDigit rest).1, (digits decDigit rest).2) := by
  induction cs with
  | nil => rfl
  | cons c cs ih =>
    have hc := decDigit_of_isDigit (h c List.mem_cons_self)
    have hcs := ih fun d hd => h d (List.mem_cons_of_mem c hd)
    simp only [List.cons_append, digits, hc, hcs, List.map_cons]

theorem digits_eq {cs : List Char} (h : ∀ c ∈ cs, c.isDigit) :
    digits decDigit cs = (cs.map fun c => c.toNat - 48, []) := by
  have hread := digits_append h []
  rwa [List.append_nil, digits, List.append_nil] at hread

theorem ofDigits_map (cs : List Char) :
    ofDigits 10 (cs.map fun c => c.toNat - 48) = Nat.ofDigitChars 10 cs 0 := by
  rw [ofDigits, Nat.ofDigitChars_eq_foldl, List.foldl_map]
  rfl

theorem sign_dropWhile {cs : List Char} (h : ∀ c ∈ cs, c.isDigit) (hne : cs ≠ [])
    (rest : List Char) : sign ((cs ++ rest).dropWhile isSpace) = (false, cs ++ rest) := by
  obtain ⟨c, cs, rfl⟩ := List.exists_cons_of_ne_nil hne
  have hc := h c List.mem_cons_self
  rw [List.cons_append, List.dropWhile_cons_of_neg (by simp [not_isSpace_of_isDigit hc]),
    sign_of_isDigit _ hc]

theorem isDigit_toDigits (n : ℕ) : ∀ c ∈ Nat.toDigits 10 n, c.isDigit :=
  fun _ hc => Nat.isDigit_of_mem_toDigits (by decide) (by decide) hc

/-- Digits that no `x` follows are the head of a decimal numeral: no infinity, no NaN, and no
hexadecimal numeral. -/
theorem magnitude_of_digits {cs rest : List Char} (h : ∀ c ∈ cs, c.isDigit) (hne : cs ≠ [])
    (hrest : ∀ c ∈ rest.head?, c.toLower ≠ 'x') :
    magnitude (cs ++ rest) = decimalMagnitude (cs ++ rest) := by
  obtain ⟨c, cs, rfl⟩ := List.exists_cons_of_ne_nil hne
  have hc := h c List.mem_cons_self
  have hi : c ≠ 'i' := ne_of_isDigit hc rfl
  have hn : c ≠ 'n' := ne_of_isDigit hc rfl
  have hx : ['0', 'x'].isPrefixOf ((c :: (cs ++ rest)).map Char.toLower) = false := by
    cases cs with
    | nil =>
      cases rest with
      | nil => simp [List.isPrefixOf]
      | cons d rest => simp [List.isPrefixOf, (hrest d rfl).symm]
    | cons d cs =>
      have hd := h d (List.mem_cons_of_mem c List.mem_cons_self)
      have hdx : d ≠ 'x' := ne_of_isDigit hd rfl
      simp [List.isPrefixOf, toLower_of_isDigit hd, hdx.symm]
  have hinf : ['i', 'n', 'f'].isPrefixOf ((c :: (cs ++ rest)).map Char.toLower) = false := by
    simp [List.isPrefixOf, toLower_of_isDigit hc, hi.symm]
  have hnan : ['n', 'a', 'n'].isPrefixOf ((c :: (cs ++ rest)).map Char.toLower) = false := by
    simp [List.isPrefixOf, toLower_of_isDigit hc, hn.symm]
  simp only [magnitude, List.cons_append, hinf, hnan, hx, Bool.false_eq_true, if_false]

end NumberText

/-- A decimal numeral: perhaps a minus, digits, and perhaps a point with more digits. -/
structure Decimal where
  negative : Bool
  whole : List Char
  frac : Option (List Char)
  whole_ne : whole ≠ []
  whole_isDigit : ∀ c ∈ whole, c.isDigit
  frac_isDigit : ∀ c ∈ frac.getD [], c.isDigit

namespace Decimal

def point : Option (List Char) → List Char
  | none => []
  | some cs => '.' :: cs

def unsigned (d : Decimal) : List Char := d.whole ++ point d.frac

def text (d : Decimal) : List Char := if d.negative then '-' :: d.unsigned else d.unsigned

/-- The number that the numeral without its sign writes. -/
def magnitude (d : Decimal) : ℚ :=
  (Nat.ofDigitChars 10 (d.whole ++ d.frac.getD []) 0 : ℚ) / 10 ^ (d.frac.getD []).length

def value (d : Decimal) : ℚ := if d.negative then -d.magnitude else d.magnitude

def ofInt (n : ℤ) : Decimal where
  negative := decide (n < 0)
  whole := Nat.toDigits 10 n.natAbs
  frac := none
  whole_ne := Nat.toDigits_ne_nil
  whole_isDigit := isDigit_toDigits n.natAbs
  frac_isDigit := by simp

@[simp] theorem value_ofInt (n : ℤ) : (ofInt n).value = n := by
  have hmagnitude : (ofInt n).magnitude = n.natAbs := by
    simp [magnitude, ofInt]
  rw [value, hmagnitude]
  by_cases h : n < 0
  · have hneg : ((n.natAbs : ℤ) : ℚ) = -n := by exact_mod_cast Int.ofNat_natAbs_of_nonpos h.le
    have hsign : (ofInt n).negative = true := decide_eq_true h
    rw [if_pos hsign, ← Int.cast_natCast, hneg, neg_neg]
  · have hpos : ((n.natAbs : ℤ) : ℚ) = n := by exact_mod_cast Int.natAbs_of_nonneg (not_lt.mp h)
    rw [if_neg (by simpa [ofInt] using h), ← Int.cast_natCast, hpos]

/-- The `double` of the numeral; `none` when it is out of range. -/
def toDouble {R : Type} [DoubleScan R] (d : Decimal) : Option R :=
  (DoubleScan.ofNumeral d.magnitude).map fun x : R => if d.negative then -x else x

end Decimal

/-- `stoull` reads back every decimal numeral that fits in 64 bits. -/
theorem stoull_repr (n : ℕ) :
    stoull n.repr = if 2 ^ 64 ≤ n then throw .outOfRange else pure (UInt64.ofNat n) := by
  have hread := digits_eq (isDigit_toDigits n)
  have hsign := sign_dropWhile (isDigit_toDigits n) Nat.toDigits_ne_nil []
  rw [List.append_nil] at hsign
  simp [stoull, hsign, hread, ofDigits_map, Nat.toDigits_ne_nil]

example : (stoull "1700000000000").toOption = some 1700000000000 := by decide +kernel

end SyntheticArbitrage
