import SyntheticArbitrage.NumberText

/-!
# Decimal numerals

The decimal numerals that `strtod` reads as a whole: a sign, digits, a point with digits, and an
exponent, of which all but one digit can be missing.

* `Numeral`, `Numeral.text`, `Numeral.value`: the numeral, its text and its number.
* `Numeral.stod_text`: **`stod` reads back every numeral**; `Decimal.stod_text`: those without an
  exponent among them.
* `Starts`, `magnitude_isSome_iff`: the texts at whose head `strtod` finds a number.
* `stod_isSome_iff`, `stoull_isSome_iff`: the texts that are read, which are more than the numerals
  (`IsNumeral`, `IsInteger`).
-/

namespace SyntheticArbitrage

open NumberText

structure Exponent where
  capital : Bool
  /-- The sign, if there is one: whether it is a minus. -/
  sign : Option Bool
  digits : List Char
  digits_ne : digits ≠ []
  digits_isDigit : ∀ c ∈ digits, c.isDigit

namespace Exponent

def signText : Option Bool → List Char
  | none => []
  | some true => ['-']
  | some false => ['+']

def text (e : Exponent) : List Char :=
  (if e.capital then 'E' else 'e') :: (signText e.sign ++ e.digits)

def value (e : Exponent) : ℤ :=
  if e.sign = some true then -Nat.ofDigitChars 10 e.digits 0 else Nat.ofDigitChars 10 e.digits 0

theorem mem_text {e : Exponent} {c : Char} (hc : c ∈ e.text) :
    c.isDigit ∨ c ∈ ['-', '+', '.', 'e', 'E'] := by
  rcases List.mem_cons.mp hc with rfl | hc
  · cases e.capital <;> exact Or.inr (by decide)
  · rcases List.mem_append.mp hc with hsign | hdigit
    · refine Or.inr ?_
      rcases hs : e.sign with _ | _ | _ <;> rw [hs] at hsign
      · cases hsign
      · rw [List.mem_singleton.mp hsign]
        decide
      · rw [List.mem_singleton.mp hsign]
        decide
    · exact Or.inl (e.digits_isDigit c hdigit)

end Exponent

/-- A decimal numeral. -/
structure Numeral where
  negative : Bool
  whole : List Char
  frac : Option (List Char)
  exponent : Option Exponent
  digits_ne : whole ++ frac.getD [] ≠ []
  whole_isDigit : ∀ c ∈ whole, c.isDigit
  frac_isDigit : ∀ c ∈ frac.getD [], c.isDigit

namespace Numeral

def exponentText (n : Numeral) : List Char := (n.exponent.map Exponent.text).getD []

def unsigned (n : Numeral) : List Char := n.whole ++ (Decimal.point n.frac ++ n.exponentText)

def text (n : Numeral) : List Char := if n.negative then '-' :: n.unsigned else n.unsigned

/-- The number that the numeral without its sign writes. -/
def magnitude (n : Numeral) : ℚ :=
  (Nat.ofDigitChars 10 (n.whole ++ n.frac.getD []) 0 : ℚ) / 10 ^ (n.frac.getD []).length *
    10 ^ ((n.exponent.map Exponent.value).getD 0)

def value (n : Numeral) : ℚ := if n.negative then -n.magnitude else n.magnitude

/-- The `double` of the numeral; `none` when it is out of range. -/
def toDouble {R : Type} [DoubleScan R] (n : Numeral) : Option R :=
  (DoubleScan.ofNumeral n.magnitude).map fun x : R => if n.negative then -x else x

end Numeral

/-! ## Reading the parts -/

namespace NumberText

theorem digits_of_head {digit : Char → Option ℕ} {rest : List Char}
    (h : ∀ c ∈ rest.head?, digit c = none) : digits digit rest = ([], rest) := by
  cases rest with
  | nil => rfl
  | cons c rest => rw [digits, h c rfl]

theorem digits_append_of_head {cs rest : List Char} (h : ∀ c ∈ cs, c.isDigit)
    (hrest : ∀ c ∈ rest.head?, decDigit c = none) :
    digits decDigit (cs ++ rest) = (cs.map fun c => c.toNat - 48, rest) := by
  rw [digits_append h, digits_of_head hrest, List.append_nil]

theorem fraction_point {frac : Option (List Char)} {rest : List Char}
    (h : ∀ c ∈ frac.getD [], c.isDigit) (hrest : ∀ c ∈ rest.head?, decDigit c = none ∧ c ≠ '.') :
    fraction decDigit (Decimal.point frac ++ rest) =
      ((frac.getD []).map fun c => c.toNat - 48, rest) := by
  cases frac with
  | none =>
    cases rest with
    | nil => rfl
    | cons c rest => exact if_neg (hrest c rfl).2
  | some cs =>
    rw [Decimal.point, List.cons_append, fraction, if_pos rfl]
    exact digits_append_of_head h fun c hc => (hrest c hc).1

theorem exponent_text (e : Exponent) : exponent 'e' e.text = e.value := by
  have hmark : (if e.capital then 'E' else 'e').toLower = 'e' := by cases e.capital <;> decide
  have hsign : sign (Exponent.signText e.sign ++ e.digits) =
      (decide (e.sign = some true), e.digits) := by
    obtain ⟨c, cs, hcs⟩ := List.exists_cons_of_ne_nil e.digits_ne
    have hc := e.digits_isDigit c (by rw [hcs]; exact List.mem_cons_self)
    rcases e.sign with _ | _ | _
    · rw [Exponent.signText, List.nil_append, hcs, sign_of_isDigit cs hc]
      rfl
    · rfl
    · rfl
  rw [Exponent.text, exponent, if_pos hmark, hsign, digits_eq e.digits_isDigit, ofDigits_map,
    Exponent.value]
  simp

end NumberText

namespace Numeral

theorem frac_of_whole_nil {n : Numeral} (h : n.whole = []) : ∃ cs, n.frac = some cs := by
  apply Option.ne_none_iff_exists'.mp
  intro hnone
  apply n.digits_ne
  rw [h, hnone]
  rfl

theorem head_exponentText (n : Numeral) :
    ∀ c ∈ n.exponentText.head?, decDigit c = none ∧ c ≠ '.' ∧ c.toLower ≠ 'x' := by
  intro c hc
  rw [exponentText] at hc
  cases he : n.exponent with
  | none =>
    rw [he] at hc
    cases hc
  | some e =>
    rw [he] at hc
    cases hc
    cases e.capital <;> decide

/-- What follows the digits before the point does not start with a digit or an `x`. -/
theorem head_point (n : Numeral) : ∀ c ∈ (Decimal.point n.frac ++ n.exponentText).head?,
    decDigit c = none ∧ c.toLower ≠ 'x' := by
  cases n.frac with
  | none => exact fun c hc => ⟨(n.head_exponentText c hc).1, (n.head_exponentText c hc).2.2⟩
  | some cs =>
    rintro c ⟨⟩
    decide

theorem numeral_unsigned (n : Numeral) : numeral decimal n.unsigned = some n.magnitude := by
  have hwhole : digits decDigit n.unsigned = (n.whole.map fun c => c.toNat - 48,
      Decimal.point n.frac ++ n.exponentText) :=
    digits_append_of_head n.whole_isDigit fun c hc => (n.head_point c hc).1
  have hfrac := fraction_point n.frac_isDigit fun c hc =>
    ⟨(n.head_exponentText c hc).1, (n.head_exponentText c hc).2.1⟩
  have hexponent : NumberText.exponent 'e' n.exponentText =
      (n.exponent.map Exponent.value).getD 0 := by
    rw [exponentText]
    cases n.exponent with
    | none => rfl
    | some e => exact exponent_text e
  have hne : ¬ (n.whole = [] ∧ n.frac.getD [] = []) := fun h =>
    n.digits_ne (by rw [h.1, h.2]; rfl)
  simp only [numeral, decimal, hwhole, hfrac, hexponent, List.map_eq_nil_iff, hne, if_false,
    ← List.map_append, ofDigits_map, List.length_map]
  rfl

/-- The numeral is read as a decimal one: it is no infinity, no NaN and not hexadecimal. -/
theorem magnitude_unsigned (n : Numeral) :
    NumberText.magnitude n.unsigned = some (.value n.magnitude) := by
  have hdecimal : NumberText.magnitude n.unsigned = decimalMagnitude n.unsigned := by
    by_cases hwhole : n.whole = []
    · obtain ⟨cs, hcs⟩ := frac_of_whole_nil hwhole
      rw [unsigned, hwhole, hcs]
      simp [NumberText.magnitude, Decimal.point, List.isPrefixOf]
    · exact magnitude_of_digits n.whole_isDigit hwhole fun c hc => (n.head_point c hc).2
  rw [hdecimal, decimalMagnitude, numeral_unsigned]
  rfl

theorem sign_dropWhile_text (n : Numeral) :
    sign (n.text.dropWhile isSpace) = (n.negative, n.unsigned) := by
  unfold text
  cases n.negative with
  | true =>
    rw [if_pos rfl, List.dropWhile_cons_of_neg (by decide)]
    rfl
  | false =>
    by_cases hwhole : n.whole = []
    · obtain ⟨cs, hcs⟩ := frac_of_whole_nil hwhole
      rw [unsigned, hwhole, hcs]
      rfl
    · exact sign_dropWhile n.whole_isDigit hwhole _

/-- **`stod` reads back every numeral.** -/
theorem stod_text {R : Type} [DoubleScan R] (n : Numeral) :
    (stod (String.ofList n.text) : Except Exception R) =
      match (n.toDouble : Option R) with
      | none => throw .outOfRange
      | some x => pure x := by
  rw [stod, String.toList_ofList, sign_dropWhile_text]
  simp only [magnitude_unsigned, Magnitude.toDouble, toDouble]
  cases (DoubleScan.ofNumeral n.magnitude : Option R) <;> rfl

example : (stod "2001.50" : Except Exception XDouble).toOption = some (.fin (4003 / 2)) := by
  decide +kernel

theorem mem_text {n : Numeral} {c : Char} (hc : c ∈ n.text) :
    c.isDigit ∨ c ∈ ['-', '+', '.', 'e', 'E'] := by
  have hfrac := n.frac_isDigit
  have hunsigned : c ∈ n.unsigned → c.isDigit ∨ c ∈ ['-', '+', '.', 'e', 'E'] := by
    intro hc
    rw [unsigned, List.mem_append, List.mem_append] at hc
    rcases hc with hwhole | hpoint | hexponent
    · exact Or.inl (n.whole_isDigit c hwhole)
    · cases hd : n.frac with
      | none => rw [hd] at hpoint; cases hpoint
      | some cs =>
        rw [hd] at hpoint hfrac
        rcases List.mem_cons.mp hpoint with rfl | hc
        · exact Or.inr (by decide)
        · exact Or.inl (hfrac c hc)
    · rw [exponentText] at hexponent
      cases he : n.exponent with
      | none => rw [he] at hexponent; cases hexponent
      | some e =>
        rw [he] at hexponent
        exact e.mem_text hexponent
  rw [text] at hc
  split at hc
  · rcases List.mem_cons.mp hc with rfl | hc
    · exact Or.inr (by decide)
    · exact hunsigned hc
  · exact hunsigned hc

end Numeral

/-! ## Numerals without an exponent -/

namespace Decimal

def toNumeral (d : Decimal) : Numeral where
  negative := d.negative
  whole := d.whole
  frac := d.frac
  exponent := none
  digits_ne := fun h => d.whole_ne (List.append_eq_nil_iff.mp h).1
  whole_isDigit := d.whole_isDigit
  frac_isDigit := d.frac_isDigit

theorem unsigned_toNumeral (d : Decimal) : d.toNumeral.unsigned = d.unsigned :=
  congrArg (d.whole ++ ·) (List.append_nil (point d.frac))

theorem text_toNumeral (d : Decimal) : d.toNumeral.text = d.text := by
  rw [Numeral.text, text, unsigned_toNumeral]
  rfl

theorem magnitude_toNumeral (d : Decimal) : d.toNumeral.magnitude = d.magnitude := mul_one _

theorem sign_dropWhile_text (d : Decimal) :
    sign (d.text.dropWhile isSpace) = (d.negative, d.unsigned) := by
  rw [← text_toNumeral, ← unsigned_toNumeral]
  exact d.toNumeral.sign_dropWhile_text

theorem numeral_unsigned (d : Decimal) : numeral decimal d.unsigned = some d.magnitude := by
  rw [← unsigned_toNumeral, ← magnitude_toNumeral]
  exact d.toNumeral.numeral_unsigned

theorem stod_text {R : Type} [DoubleScan R] (d : Decimal) :
    (stod (String.ofList d.text) : Except Exception R) =
      match (d.toDouble : Option R) with
      | none => throw .outOfRange
      | some x => pure x := by
  rw [← text_toNumeral, Numeral.stod_text, Numeral.toDouble, toDouble, magnitude_toNumeral]
  rfl

end Decimal

/-! ## Texts that begin with a number -/

namespace NumberText

/-- A digit, a point and a digit, an infinity or a NaN stands at the head of the text. -/
inductive Starts : List Char → Prop
  | digit {c : Char} {rest : List Char} (h : c.isDigit) : Starts (c :: rest)
  | point {c : Char} {rest : List Char} (h : c.isDigit) : Starts ('.' :: c :: rest)
  | inf {cs : List Char} (h : ['i', 'n', 'f'].isPrefixOf (cs.map Char.toLower)) : Starts cs
  | nan {cs : List Char} (h : ['n', 'a', 'n'].isPrefixOf (cs.map Char.toLower)) : Starts cs

theorem decDigit_isSome_iff {c : Char} : (decDigit c).isSome ↔ c.isDigit := by
  rw [decDigit, isDigit_iff]
  split
  · next h => exact iff_of_true rfl h
  · next h => exact iff_of_false (by simp) h

theorem eq_zero_of_toLower {c : Char} (h : c.toLower = '0') : c = '0' := by
  by_cases hupper : c.val ≥ 'A'.val ∧ c.val ≤ 'Z'.val
  · -- a capital becomes a letter, whose code is above that of the digits
    have hlower : c.toLower.toNat = (c.val + 32).toNat :=
      congrArg Char.toNat (show c.toLower = _ from dif_pos hupper)
    have hlow : 65 ≤ c.toNat := UInt32.le_iff_toNat_le.mp hupper.1
    have hhigh : c.toNat ≤ 90 := UInt32.le_iff_toNat_le.mp hupper.2
    rw [h, UInt32.toNat_add] at hlower
    simp at hlower
    omega
  · rwa [show c.toLower = c from dif_neg hupper] at h

theorem digits_ne_nil_iff (cs : List Char) :
    (digits decDigit cs).1 ≠ [] ↔ ∃ c rest, cs = c :: rest ∧ c.isDigit := by
  cases cs with
  | nil => simp [digits]
  | cons c rest => cases hc : decDigit c <;> simp [digits, hc, ← decDigit_isSome_iff]

theorem numeral_isSome_iff (cs : List Char) :
    (numeral decimal cs).isSome ↔
      (∃ c rest, cs = c :: rest ∧ c.isDigit) ∨ ∃ c rest, cs = '.' :: c :: rest ∧ c.isDigit := by
  by_cases hwhole : (digits decDigit cs).1 = []
  · have hhead : ¬ ∃ c rest, cs = c :: rest ∧ c.isDigit :=
      fun h => (digits_ne_nil_iff cs).mpr h hwhole
    have hrest : digits decDigit cs = ([], cs) := by
      refine digits_of_head fun c hc => ?_
      cases cs with
      | nil => cases hc
      | cons d rest =>
        cases hc
        by_contra hne
        exact hhead ⟨c, rest, rfl, decDigit_isSome_iff.mp (Option.isSome_iff_ne_none.mpr hne)⟩
    have hfrac : (fraction decDigit cs).1 ≠ [] ↔
        ∃ c rest, cs = '.' :: c :: rest ∧ c.isDigit := by
      cases cs with
      | nil => simp [fraction]
      | cons d rest =>
        rw [fraction]
        by_cases hd : d = '.'
        · subst hd
          rw [if_pos rfl, digits_ne_nil_iff]
          simp
        · simp [hd]
    simp only [numeral, decimal, hrest, true_and, hhead, false_or, ← hfrac]
    split <;> simp_all
  · have hsome : (numeral decimal cs).isSome := by
      simp [numeral, decimal, hwhole]
    exact iff_of_true hsome (Or.inl ((digits_ne_nil_iff cs).mp hwhole))

/-- **Where `strtod` finds a number.** -/
theorem magnitude_isSome_iff (cs : List Char) : (magnitude cs).isSome ↔ Starts cs := by
  rw [magnitude]
  split_ifs with hinf hnan hhex
  · exact iff_of_true rfl (.inf hinf)
  · exact iff_of_true rfl (.nan hnan)
  · refine iff_of_true rfl ?_
    -- the zero of `0x` is a digit
    cases cs with
    | nil => cases hhex
    | cons c rest =>
      rw [List.map_cons, List.isPrefixOf, Bool.and_eq_true, beq_iff_eq] at hhex
      rw [eq_zero_of_toLower hhex.1.symm]
      exact .digit (by decide)
  · rw [decimalMagnitude, Option.isSome_map, numeral_isSome_iff]
    constructor
    · rintro (⟨c, rest, rfl, h⟩ | ⟨c, rest, rfl, h⟩)
      · exact .digit h
      · exact .point h
    · rintro (⟨h⟩ | ⟨h⟩ | ⟨h⟩ | ⟨h⟩)
      · exact Or.inl ⟨_, _, rfl, h⟩
      · exact Or.inr ⟨_, _, rfl, h⟩
      · exact absurd h hinf
      · exact absurd h hnan

/-- What is left of a text after its blanks and its sign. -/
def unsignedPart (s : String) : List Char := (sign (s.toList.dropWhile isSpace)).2

end NumberText

/-! ## Which texts are read, and which are numerals -/

section Texts

variable (R : Type) [DoubleScan R]

/-- After blanks and a sign, the text begins with a number that is in range. -/
def BeginsNumber (s : String) : Prop :=
  Starts (unsignedPart s) ∧ ∀ m ∈ magnitude (unsignedPart s), (m.toDouble : Option R).isSome

/-- The whole text is a decimal numeral without a sign, and its number is in range. -/
def IsNumeral (s : String) : Prop :=
  ∃ n : Numeral, n.negative = false ∧ s = String.ofList n.text ∧ (n.toDouble : Option R).isSome

/-- **`stod` reads** the texts that begin with a number. -/
theorem stod_isSome_iff (s : String) :
    (stod s : Except Exception R).toOption.isSome ↔ BeginsNumber R s := by
  rw [BeginsNumber, ← magnitude_isSome_iff, unsignedPart, stod]
  cases magnitude (sign (s.toList.dropWhile isSpace)).2 with
  | none => exact iff_of_false (by rintro ⟨⟩) (by rintro ⟨⟨⟩, -⟩)
  | some m =>
    simp only [Option.mem_some_iff, forall_eq']
    cases (m.toDouble : Option R) with
    | none => exact iff_of_false (by rintro ⟨⟩) (by rintro ⟨-, ⟨⟩⟩)
    | some x => exact iff_of_true rfl ⟨rfl, rfl⟩

theorem IsNumeral.begins {s : String} (h : IsNumeral R s) : BeginsNumber R s := by
  obtain ⟨n, -, rfl, hrange⟩ := h
  obtain ⟨x, hx⟩ := Option.isSome_iff_exists.mp hrange
  rw [← stod_isSome_iff, Numeral.stod_text, hx]
  rfl

end Texts

/-- After blanks and a sign, the text begins with an integer below `2 ^ 64`. -/
def BeginsInteger (s : String) : Prop :=
  (∃ c rest, unsignedPart s = c :: rest ∧ c.isDigit) ∧
    ofDigits 10 (digits decDigit (unsignedPart s)).1 < 2 ^ 64

/-- The whole text is digits that write an integer below `2 ^ 64`. -/
def IsInteger (s : String) : Prop :=
  ∃ cs, s = String.ofList cs ∧ cs ≠ [] ∧ (∀ c ∈ cs, c.isDigit) ∧ Nat.ofDigitChars 10 cs 0 < 2 ^ 64

/-- **`stoull` reads** the texts that begin with an integer. -/
theorem stoull_isSome_iff (s : String) : (stoull s).toOption.isSome ↔ BeginsInteger s := by
  rw [BeginsInteger, ← digits_ne_nil_iff, unsignedPart, stoull]
  split
  · next hnil => exact iff_of_false (by rintro ⟨⟩) fun h => h.1 hnil
  · next hne =>
    split
    · next hrange => exact iff_of_false (by rintro ⟨⟩) fun h => Nat.not_lt.mpr hrange h.2
    · next hrange => exact iff_of_true rfl ⟨hne, Nat.not_le.mp hrange⟩

theorem IsInteger.begins {s : String} (h : IsInteger s) : BeginsInteger s := by
  obtain ⟨cs, rfl, hne, hdigits, hrange⟩ := h
  have hpart : unsignedPart (String.ofList cs) = cs := by
    have hsign := sign_dropWhile hdigits hne []
    rw [List.append_nil] at hsign
    rw [unsignedPart, String.toList_ofList, hsign]
  obtain ⟨c, rest, rfl⟩ := List.exists_cons_of_ne_nil hne
  refine ⟨⟨c, rest, hpart, hdigits c List.mem_cons_self⟩, ?_⟩
  rwa [hpart, digits_eq hdigits, ofDigits_map]

end SyntheticArbitrage
