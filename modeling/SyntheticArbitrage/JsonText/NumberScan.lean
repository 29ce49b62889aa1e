import SyntheticArbitrage.JsonText.Lexer

/-!
# The numbers of JSON texts

* `JsonNumeral`: the numerals of JSON, which are fewer than those that `strtod` reads.
* `JsonNumeral.Continues`: the bytes that the scanner would still take after a numeral.
* `scanNumberInit_iff`: **the scanner reads exactly the numerals of JSON** up to a byte that it
  would not take.
* `numberToken_text`: the token of a numeral, which is an integer when it has neither a point nor an
  exponent and fits in 64 bits.
-/

namespace SyntheticArbitrage.JsonText

open NumberText

/-- A numeral of JSON: there are digits before the point, none of them a zero in front of another,
and digits after it. -/
structure JsonNumeral extends Numeral where
  whole_ne : whole ≠ []
  whole_head : whole = ['0'] ∨ ∀ c ∈ whole.head?, c ≠ '0'
  frac_ne : frac ≠ some []

def bytes (cs : List Char) : List UInt8 := cs.map byte

def exponentText (e : Option Exponent) : List Char := (e.map Exponent.text).getD []

/-- From `buffer` and `bs` on, the text is moved to the buffer, and `rest` is left. -/
def Took (buffer bs : List UInt8) (text : List Char) (buffer' rest : List UInt8) : Prop :=
  buffer' = buffer ++ bytes text ∧ bs = bytes text ++ rest

def NoDigit (rest : List UInt8) : Prop := ∀ b ∈ rest.head?, isDigit b = false

theorem took_cons {buffer bs buffer' rest : List UInt8} {c : Char} {text : List Char} :
    Took buffer (byte c :: bs) (c :: text) buffer' rest ↔
      Took (buffer ++ [byte c]) bs text buffer' rest := by
  simp [Took, bytes]

theorem took_append {buffer bs buffer' rest : List UInt8} {text text' : List Char} :
    Took buffer (bytes text ++ bs) (text ++ text') buffer' rest ↔
      Took (buffer ++ bytes text) bs text' buffer' rest := by
  simp [Took, bytes]

/-! ## Digits -/

theorem byte_toNat {c : Char} (h : c.toNat < 256) : (byte c).toNat = c.toNat := by
  rw [byte, UInt8.toNat_ofNat', Nat.mod_eq_of_lt h]

theorem isDigit_iff_exists {b : UInt8} : isDigit b ↔ ∃ c : Char, c.isDigit ∧ b = byte c := by
  have h0 : (byte '0').toNat = 48 := by decide
  have h9 : (byte '9').toNat = 57 := by decide
  rw [isDigit, Bool.and_eq_true, decide_eq_true_eq, decide_eq_true_eq, UInt8.le_iff_toNat_le,
    UInt8.le_iff_toNat_le, h0, h9]
  constructor
  · intro h
    obtain ⟨c, hc⟩ := Utf8.exists_char (n := b.toNat) (by omega)
    refine ⟨c, (NumberText.isDigit_iff c).mpr (by rwa [hc]), ?_⟩
    rw [byte, hc, UInt8.ofNat_toNat]
  · rintro ⟨c, hc, rfl⟩
    have h := (NumberText.isDigit_iff c).mp hc
    rwa [byte_toNat (by omega)]

theorem isDigit_byte {c : Char} (h : c.isDigit) : isDigit (byte c) :=
  isDigit_iff_exists.mpr ⟨c, h, rfl⟩

theorem exists_digits (bs : List UInt8) : ∃ (ds : List Char) (rest : List UInt8),
    (∀ c ∈ ds, c.isDigit) ∧ NoDigit rest ∧ bs = bytes ds ++ rest := by
  induction bs with
  | nil => exact ⟨[], [], by simp, by simp [NoDigit], rfl⟩
  | cons b bs ih =>
    cases hb : isDigit b with
    | false =>
      refine ⟨[], b :: bs, by simp, ?_, rfl⟩
      rintro b' ⟨⟩
      exact hb
    | true =>
      obtain ⟨c, hc, rfl⟩ := isDigit_iff_exists.mp hb
      obtain ⟨ds, rest, hds, hrest, rfl⟩ := ih
      exact ⟨c :: ds, rest, List.forall_mem_cons.mpr ⟨hc, hds⟩, hrest, rfl⟩

theorem loop_digits {β : Type} (loop : List UInt8 → List UInt8 → β)
    (hloop : ∀ buffer b bs, isDigit b → loop buffer (b :: bs) = loop (buffer ++ [b]) bs)
    {ds : List Char} (hds : ∀ c ∈ ds, c.isDigit) (buffer rest : List UInt8) :
    loop buffer (bytes ds ++ rest) = loop (buffer ++ bytes ds) rest := by
  induction ds generalizing buffer with
  | nil => simp [bytes]
  | cons c ds ih =>
    have hc := isDigit_byte (hds c List.mem_cons_self)
    have hstep := hloop buffer (byte c) (bytes ds ++ rest) hc
    have hmore := ih (fun d hd => hds d (List.mem_cons_of_mem c hd)) (buffer ++ [byte c])
    simp only [bytes, List.map_cons, List.cons_append, List.append_assoc,
      List.nil_append] at hstep hmore ⊢
    rw [hstep, hmore]

/-! ## Exponents -/

theorem scanNumberAny2_iff {buffer bs buffer' rest : List UInt8} {type type' : NumberType} :
    scanNumberAny2 buffer type bs = (buffer', type', rest) ↔
      ∃ ds : List Char, (∀ c ∈ ds, c.isDigit) ∧ NoDigit rest ∧ type' = type ∧
        Took buffer bs ds buffer' rest := by
  have hloop : ∀ {ds : List Char}, (∀ c ∈ ds, c.isDigit) → ∀ rest, NoDigit rest →
      scanNumberAny2 buffer type (bytes ds ++ rest) = (buffer ++ bytes ds, type, rest) := by
    intro ds hds rest hrest
    rw [loop_digits (fun buffer bs => scanNumberAny2 buffer type bs)
      (fun buffer b bs hb => by rw [scanNumberAny2, if_pos hb]) hds]
    cases rest with
    | nil => rfl
    | cons b rest =>
      have hb : ¬ isDigit b = true := by rw [hrest b rfl]; exact Bool.false_ne_true
      rw [scanNumberAny2, if_neg hb]
  constructor
  · intro h
    obtain ⟨ds, more, hds, hmore, rfl⟩ := exists_digits bs
    rw [hloop hds more hmore] at h
    cases h
    exact ⟨ds, hds, hmore, rfl, rfl, rfl⟩
  · rintro ⟨ds, hds, hrest, rfl, rfl, rfl⟩
    exact hloop hds rest hrest

/-- `scan_number_sign` takes digits, of which there must be one. -/
theorem scanNumberSign_iff {buffer bs buffer' rest : List UInt8} {type type' : NumberType} :
    scanNumberSign buffer type bs = some (buffer', type', rest) ↔
      ∃ ds : List Char, ds ≠ [] ∧ (∀ c ∈ ds, c.isDigit) ∧ NoDigit rest ∧ type' = type ∧
        Took buffer bs ds buffer' rest := by
  constructor
  · intro h
    cases bs with
    | nil => cases h
    | cons b bs =>
      rw [scanNumberSign] at h
      split_ifs at h with hb
      obtain ⟨c, hc, rfl⟩ := isDigit_iff_exists.mp hb
      obtain ⟨ds, hds, hrest, rfl, htook⟩ := scanNumberAny2_iff.mp (Option.some.inj h)
      exact ⟨c :: ds, List.cons_ne_nil _ _, List.forall_mem_cons.mpr ⟨hc, hds⟩, hrest, rfl,
        took_cons.mpr htook⟩
  · rintro ⟨ds, hne, hds, hrest, rfl, htook⟩
    obtain ⟨c, ds, rfl⟩ := List.exists_cons_of_ne_nil hne
    obtain ⟨hc, hds⟩ := List.forall_mem_cons.mp hds
    obtain rfl := htook.2
    rw [bytes, List.map_cons, List.cons_append, scanNumberSign, if_pos (isDigit_byte hc)]
    exact congrArg some (scanNumberAny2_iff.mpr ⟨ds, hds, hrest, rfl, took_cons.mp htook⟩)

/-- `scan_number_exponent` takes a sign, which can be missing, and digits. -/
theorem scanNumberExponent_iff {buffer bs buffer' rest : List UInt8} {type : NumberType} :
    scanNumberExponent buffer bs = some (buffer', type, rest) ↔
      ∃ (s : Option Bool) (ds : List Char), ds ≠ [] ∧ (∀ c ∈ ds, c.isDigit) ∧ NoDigit rest ∧
        type = .float ∧ Took buffer bs (Exponent.signText s ++ ds) buffer' rest := by
  constructor
  · intro h
    cases bs with
    | nil => cases h
    | cons b bs =>
      rw [scanNumberExponent] at h
      by_cases hsign : b = byte '+' ∨ b = byte '-'
      · rw [if_pos hsign] at h
        obtain ⟨ds, hne, hds, hrest, rfl, htook⟩ := scanNumberSign_iff.mp h
        rcases hsign with rfl | rfl
        · exact ⟨some false, ds, hne, hds, hrest, rfl, took_cons.mpr htook⟩
        · exact ⟨some true, ds, hne, hds, hrest, rfl, took_cons.mpr htook⟩
      · -- without a sign the digits start here
        rw [if_neg hsign] at h
        change scanNumberSign buffer .float (b :: bs) = some (buffer', type, rest) at h
        obtain ⟨ds, hne, hds, hrest, rfl, htook⟩ := scanNumberSign_iff.mp h
        exact ⟨none, ds, hne, hds, hrest, rfl, htook⟩
  · rintro ⟨s, ds, hne, hds, hrest, rfl, htook⟩
    have hsign : ∀ c : Char, (byte c = byte '+' ∨ byte c = byte '-') →
        Took buffer bs (c :: ds) buffer' rest →
        scanNumberExponent buffer bs = some (buffer', .float, rest) := by
      intro c hc htook
      obtain rfl := htook.2
      rw [bytes, List.map_cons, List.cons_append, scanNumberExponent, if_pos hc]
      exact scanNumberSign_iff.mpr ⟨ds, hne, hds, hrest, rfl, took_cons.mp htook⟩
    rcases s with _ | _ | _
    · obtain ⟨c, ds', rfl⟩ := List.exists_cons_of_ne_nil hne
      have hc := (NumberText.isDigit_iff c).mp (hds c List.mem_cons_self)
      have hb : ∀ d : Char, d.toNat < 48 → byte c ≠ byte d := by
        intro d hd heq
        have := congrArg UInt8.toNat heq
        rw [byte_toNat (by omega), byte_toNat (by omega)] at this
        omega
      have hscan : scanNumberSign buffer .float bs = some (buffer', .float, rest) :=
        scanNumberSign_iff.mpr ⟨c :: ds', hne, hds, hrest, rfl, htook⟩
      obtain rfl := htook.2
      rw [bytes, Exponent.signText, List.nil_append, List.map_cons, List.cons_append,
        scanNumberExponent, if_neg (not_or.mpr ⟨hb '+' (by decide), hb '-' (by decide)⟩)]
      exact hscan
    · exact hsign '+' (Or.inl rfl) htook
    · exact hsign '-' (Or.inr rfl) htook

theorem isExponentMark_iff {b : UInt8} :
    isExponentMark b ↔ ∃ capital : Bool, b = byte (if capital then 'E' else 'e') := by
  simp [isExponentMark, or_comm]

/-- What the labels before the exponent come to when no digit and no point follows. -/
def exponentPart (buffer : List UInt8) (type : NumberType) : List UInt8 → Option Scanned
  | [] => some (buffer, type, [])
  | current :: rest =>
    if isExponentMark current then scanNumberExponent (buffer ++ [current]) rest
    else some (buffer, type, current :: rest)

/-- The type of a numeral: an exponent or a point makes it a floating-point number. -/
def typeOf (type : NumberType) (e : Option Exponent) : NumberType :=
  if e.isSome then .float else type

theorem exponentPart_of_head {buffer bs : List UInt8} {type : NumberType}
    (h : ∀ b ∈ bs.head?, isExponentMark b = false) :
    exponentPart buffer type bs = some (buffer, type, bs) := by
  cases bs with
  | nil => rfl
  | cons b bs => rw [exponentPart, if_neg (Bool.eq_false_iff.mp (h b rfl))]

theorem exponentPart_iff {buffer bs buffer' rest : List UInt8} {type type' : NumberType} :
    exponentPart buffer type bs = some (buffer', type', rest) ↔
      ∃ e : Option Exponent, (e.isSome → NoDigit rest) ∧
        (e = none → ∀ b ∈ rest.head?, isExponentMark b = false) ∧ type' = typeOf type e ∧
        Took buffer bs (exponentText e) buffer' rest := by
  constructor
  · intro h
    by_cases hbs : ∀ b ∈ bs.head?, isExponentMark b = false
    · rw [exponentPart_of_head hbs] at h
      cases h
      exact ⟨none, by simp, fun _ => hbs, rfl, by simp [Took, exponentText, bytes]⟩
    · push Not at hbs
      obtain ⟨b, hhead, hb⟩ := hbs
      obtain ⟨bs, rfl⟩ := List.head?_eq_some_iff.mp hhead
      rw [ne_eq, Bool.not_eq_false] at hb
      rw [exponentPart, if_pos hb] at h
      obtain ⟨capital, rfl⟩ := isExponentMark_iff.mp hb
      obtain ⟨s, ds, hne, hds, hrest, rfl, htook⟩ := scanNumberExponent_iff.mp h
      exact ⟨some ⟨capital, s, ds, hne, hds⟩, fun _ => hrest, by simp, rfl, took_cons.mpr htook⟩
  · rintro ⟨e, hdigit, hmark, rfl, htook⟩
    cases e with
    | none =>
      obtain ⟨rfl, rfl⟩ := htook
      have hnil : bytes (exponentText none) = [] := rfl
      rw [hnil, List.append_nil]
      exact exponentPart_of_head (hmark rfl)
    | some e =>
      have hmark : isExponentMark (byte (if e.capital then 'E' else 'e')) :=
        isExponentMark_iff.mpr ⟨e.capital, rfl⟩
      have htext : exponentText (some e) =
          (if e.capital then 'E' else 'e') :: (Exponent.signText e.sign ++ e.digits) := rfl
      rw [htext] at htook
      obtain rfl := htook.2
      rw [bytes, List.map_cons, List.cons_append, exponentPart, if_pos hmark]
      exact scanNumberExponent_iff.mpr ⟨e.sign, e.digits, e.digits_ne, e.digits_isDigit,
        hdigit rfl, rfl, took_cons.mp htook⟩

/-! ## Fractions -/

theorem isDigit_point : isDigit (byte '.') = false := by decide

theorem isDigit_of_isExponentMark {b : UInt8} (h : isExponentMark b) : isDigit b = false := by
  obtain ⟨capital, rfl⟩ := isExponentMark_iff.mp h
  cases capital <;> decide

theorem scanNumberDecimal2_iff {buffer bs buffer' rest : List UInt8} {type type' : NumberType} :
    scanNumberDecimal2 buffer type bs = some (buffer', type', rest) ↔
      ∃ (ds : List Char) (e : Option Exponent), (∀ c ∈ ds, c.isDigit) ∧ NoDigit rest ∧
        (e = none → ∀ b ∈ rest.head?, isExponentMark b = false) ∧ type' = typeOf type e ∧
        Took buffer bs (ds ++ exponentText e) buffer' rest := by
  have hloop : ∀ {ds : List Char}, (∀ c ∈ ds, c.isDigit) → ∀ {rest}, NoDigit rest →
      scanNumberDecimal2 buffer type (bytes ds ++ rest) =
        exponentPart (buffer ++ bytes ds) type rest := by
    intro ds hds rest hrest
    rw [loop_digits (fun buffer bs => scanNumberDecimal2 buffer type bs)
      (fun buffer b bs hb => by rw [scanNumberDecimal2, if_pos hb]) hds]
    cases rest with
    | nil => rfl
    | cons b rest =>
      rw [scanNumberDecimal2, if_neg (Bool.eq_false_iff.mp (hrest b rfl)), exponentPart]
  constructor
  · intro h
    obtain ⟨ds, more, hds, hmore, rfl⟩ := exists_digits bs
    rw [hloop hds hmore] at h
    obtain ⟨e, hdigit, hmark, rfl, htook⟩ := exponentPart_iff.mp h
    refine ⟨ds, e, hds, ?_, hmark, rfl, took_append.mpr htook⟩
    cases e with
    | none =>
      obtain ⟨-, rfl⟩ := htook
      exact hmore
    | some e => exact hdigit rfl
  · rintro ⟨ds, e, hds, hrest, hmark, rfl, htook⟩
    have hmore : NoDigit (bytes (exponentText e) ++ rest) := by
      cases e with
      | none => exact hrest
      | some e =>
        rintro b ⟨⟩
        exact isDigit_of_isExponentMark (isExponentMark_iff.mpr ⟨e.capital, rfl⟩)
    have hbs : bs = bytes ds ++ (bytes (exponentText e) ++ rest) := by
      rw [htook.2, bytes, List.map_append, List.append_assoc]
      rfl
    subst hbs
    rw [hloop hds hmore]
    exact exponentPart_iff.mpr ⟨e, fun _ => hrest, hmark, rfl, took_append.mp htook⟩

theorem scanNumberDecimal1_iff {buffer bs buffer' rest : List UInt8} {type : NumberType} :
    scanNumberDecimal1 buffer bs = some (buffer', type, rest) ↔
      ∃ (ds : List Char) (e : Option Exponent), ds ≠ [] ∧ (∀ c ∈ ds, c.isDigit) ∧ NoDigit rest ∧
        (e = none → ∀ b ∈ rest.head?, isExponentMark b = false) ∧ type = .float ∧
        Took buffer bs (ds ++ exponentText e) buffer' rest := by
  have htype : ∀ e, typeOf .float e = .float := by
    intro e
    cases e <;> rfl
  constructor
  · intro h
    cases bs with
    | nil => cases h
    | cons b bs =>
      rw [scanNumberDecimal1] at h
      split_ifs at h with hb
      obtain ⟨c, hc, rfl⟩ := isDigit_iff_exists.mp hb
      obtain ⟨ds, e, hds, hrest, hmark, rfl, htook⟩ := scanNumberDecimal2_iff.mp h
      exact ⟨c :: ds, e, List.cons_ne_nil _ _, List.forall_mem_cons.mpr ⟨hc, hds⟩, hrest, hmark,
        htype e, took_cons.mpr htook⟩
  · rintro ⟨ds, e, hne, hds, hrest, hmark, rfl, htook⟩
    obtain ⟨c, ds, rfl⟩ := List.exists_cons_of_ne_nil hne
    obtain ⟨hc, hds⟩ := List.forall_mem_cons.mp hds
    rw [List.cons_append] at htook
    obtain rfl := htook.2
    rw [bytes, List.map_cons, List.cons_append, scanNumberDecimal1, if_pos (isDigit_byte hc)]
    exact scanNumberDecimal2_iff.mpr ⟨ds, e, hds, hrest, hmark, (htype e).symm,
      took_cons.mp htook⟩

/-- What follows a numeral with a fraction and an exponent would not continue it; `zero` is that the
digits before the point are a zero, which no digit can follow. -/
structure Stops (zero : Prop) (frac : Option (List Char)) (e : Option Exponent)
    (rest : List UInt8) : Prop where
  digit : ¬ (zero ∧ frac = none ∧ e = none) → NoDigit rest
  point : frac = none → e = none → ∀ b ∈ rest.head?, b ≠ byte '.'
  mark : e = none → ∀ b ∈ rest.head?, isExponentMark b = false

def tailText (frac : Option (List Char)) (e : Option Exponent) : List Char :=
  Decimal.point frac ++ exponentText e

def tailType (type : NumberType) (frac : Option (List Char)) (e : Option Exponent) : NumberType :=
  if frac.isSome then .float else typeOf type e

/-- `scan_number_zero` takes a point with digits and an exponent. -/
theorem scanNumberZero_iff {buffer bs buffer' rest : List UInt8} {type type' : NumberType} :
    scanNumberZero buffer type bs = some (buffer', type', rest) ↔
      ∃ (frac : Option (List Char)) (e : Option Exponent), frac ≠ some [] ∧
        (∀ c ∈ frac.getD [], c.isDigit) ∧ Stops True frac e rest ∧ type' = tailType type frac e ∧
        Took buffer bs (tailText frac e) buffer' rest := by
  have hpoint : ∀ {bs}, (∀ b ∈ bs.head?, b ≠ byte '.') →
      scanNumberZero buffer type bs = exponentPart buffer type bs := by
    intro bs hbs
    cases bs with
    | nil => rfl
    | cons b bs => rw [scanNumberZero, if_neg (hbs b rfl), exponentPart]
  constructor
  · intro h
    by_cases hbs : ∀ b ∈ bs.head?, b ≠ byte '.'
    · rw [hpoint hbs] at h
      obtain ⟨e, hdigit, hmark, rfl, htook⟩ := exponentPart_iff.mp h
      refine ⟨none, e, by simp, by simp, ⟨?_, ?_, hmark⟩, rfl, htook⟩
      · intro hne
        cases e with
        | none => exact absurd ⟨trivial, rfl, rfl⟩ hne
        | some e => exact hdigit rfl
      · rintro - rfl
        rwa [htook.2] at hbs
    · push Not at hbs
      obtain ⟨b, hhead, rfl⟩ := hbs
      obtain ⟨bs, rfl⟩ := List.head?_eq_some_iff.mp hhead
      rw [scanNumberZero, if_pos rfl] at h
      obtain ⟨ds, e, hne, hds, hrest, hmark, rfl, htook⟩ := scanNumberDecimal1_iff.mp h
      exact ⟨some ds, e, by simpa using hne, hds, ⟨fun _ => hrest, by simp, hmark⟩, rfl,
        took_cons.mpr htook⟩
  · rintro ⟨frac, e, hne, hfrac, hstops, rfl, htook⟩
    cases frac with
    | none =>
      have hbs : ∀ b ∈ bs.head?, b ≠ byte '.' := by
        rw [htook.2]
        cases e with
        | none => exact hstops.point rfl rfl
        | some e =>
          rintro b ⟨⟩
          cases e.capital <;> decide
      rw [hpoint hbs]
      refine exponentPart_iff.mpr ⟨e, fun he => hstops.digit ?_, hstops.mark, rfl, htook⟩
      rintro ⟨-, -, rfl⟩
      cases he
    | some ds =>
      have htext : tailText (some ds) e = '.' :: (ds ++ exponentText e) := rfl
      rw [htext] at htook
      obtain rfl := htook.2
      rw [bytes, List.map_cons, List.cons_append, scanNumberZero, if_pos rfl]
      exact scanNumberDecimal1_iff.mpr ⟨ds, e, by simpa using hne, hfrac,
        hstops.digit (by simp), hstops.mark, rfl, took_cons.mp htook⟩

/-! ## Numerals -/

theorem scanNumberAny1_iff {buffer bs buffer' rest : List UInt8} {type type' : NumberType} :
    scanNumberAny1 buffer type bs = some (buffer', type', rest) ↔
      ∃ (ds : List Char) (frac : Option (List Char)) (e : Option Exponent),
        (∀ c ∈ ds, c.isDigit) ∧ frac ≠ some [] ∧ (∀ c ∈ frac.getD [], c.isDigit) ∧
        Stops False frac e rest ∧ type' = tailType type frac e ∧
        Took buffer bs (ds ++ tailText frac e) buffer' rest := by
  have hloop : ∀ {ds : List Char}, (∀ c ∈ ds, c.isDigit) → ∀ {rest}, NoDigit rest →
      scanNumberAny1 buffer type (bytes ds ++ rest) =
        scanNumberZero (buffer ++ bytes ds) type rest := by
    intro ds hds rest hrest
    rw [loop_digits (fun buffer bs => scanNumberAny1 buffer type bs)
      (fun buffer b bs hb => by rw [scanNumberAny1, if_pos hb]) hds]
    cases rest with
    | nil => rfl
    | cons b rest =>
      rw [scanNumberAny1, if_neg (Bool.eq_false_iff.mp (hrest b rfl)), scanNumberZero]
  constructor
  · intro h
    obtain ⟨ds, more, hds, hmore, rfl⟩ := exists_digits bs
    rw [hloop hds hmore] at h
    obtain ⟨frac, e, hne, hfrac, hstops, rfl, htook⟩ := scanNumberZero_iff.mp h
    refine ⟨ds, frac, e, hds, hne, hfrac, ⟨fun _ => ?_, hstops.point, hstops.mark⟩, rfl,
      took_append.mpr htook⟩
    by_cases hnone : frac = none ∧ e = none
    · obtain ⟨rfl, rfl⟩ := hnone
      obtain ⟨-, rfl⟩ := htook
      exact hmore
    · exact hstops.digit fun h => hnone h.2
  · rintro ⟨ds, frac, e, hds, hne, hfrac, hstops, rfl, htook⟩
    have hmore : NoDigit (bytes (tailText frac e) ++ rest) := by
      cases frac with
      | none =>
        cases e with
        | none => exact hstops.digit (by simp)
        | some e =>
          rintro b ⟨⟩
          exact isDigit_of_isExponentMark (isExponentMark_iff.mpr ⟨e.capital, rfl⟩)
      | some cs =>
        rintro b ⟨⟩
        exact isDigit_point
    have hbs : bs = bytes ds ++ (bytes (tailText frac e) ++ rest) := by
      rw [htook.2, bytes, List.map_append, List.append_assoc]
      rfl
    subst hbs
    rw [hloop hds hmore]
    exact scanNumberZero_iff.mpr ⟨frac, e, hne, hfrac,
      ⟨fun _ => hstops.digit (by simp), hstops.point, hstops.mark⟩, rfl, took_append.mp htook⟩

/-- The label `scan_number_minus` for both signs: the digits before the point start here. -/
def scanNumberWhole (buffer : List UInt8) (type : NumberType) : List UInt8 → Option Scanned
  | [] => none
  | current :: rest =>
    if current = byte '0' then scanNumberZero (buffer ++ [current]) type rest
    else if isDigit current then scanNumberAny1 (buffer ++ [current]) type rest
    else none

theorem scanNumberMinus_eq (buffer bs : List UInt8) :
    scanNumberMinus buffer bs = scanNumberWhole buffer .integer bs := by
  cases bs <;> rfl

theorem byte_eq_zero_iff {c : Char} (h : c.isDigit) : byte c = byte '0' ↔ c = '0' := by
  have hc := (NumberText.isDigit_iff c).mp h
  constructor
  · intro h
    have := congrArg UInt8.toNat h
    rw [byte_toNat (by omega), byte_toNat (by decide)] at this
    exact Char.toNat_inj.mp this
  · rintro rfl
    rfl

theorem scanNumberWhole_iff {buffer bs buffer' rest : List UInt8} {type type' : NumberType} :
    scanNumberWhole buffer type bs = some (buffer', type', rest) ↔
      ∃ (whole : List Char) (frac : Option (List Char)) (e : Option Exponent), whole ≠ [] ∧
        (∀ c ∈ whole, c.isDigit) ∧ (whole = ['0'] ∨ ∀ c ∈ whole.head?, c ≠ '0') ∧
        frac ≠ some [] ∧ (∀ c ∈ frac.getD [], c.isDigit) ∧ Stops (whole = ['0']) frac e rest ∧
        type' = tailType type frac e ∧ Took buffer bs (whole ++ tailText frac e) buffer' rest := by
  constructor
  · intro h
    cases bs with
    | nil => cases h
    | cons b bs =>
      rw [scanNumberWhole] at h
      split_ifs at h with h0 hb
      · subst h0
        obtain ⟨frac, e, hne, hfrac, hstops, rfl, htook⟩ := scanNumberZero_iff.mp h
        exact ⟨['0'], frac, e, by simp, by simp, Or.inl rfl, hne, hfrac,
          ⟨fun h => hstops.digit fun h' => h ⟨rfl, h'.2⟩, hstops.point, hstops.mark⟩, rfl,
          took_cons.mpr htook⟩
      · obtain ⟨c, hc, rfl⟩ := isDigit_iff_exists.mp hb
        obtain ⟨ds, frac, e, hds, hne, hfrac, hstops, rfl, htook⟩ := scanNumberAny1_iff.mp h
        refine ⟨c :: ds, frac, e, by simp, List.forall_mem_cons.mpr ⟨hc, hds⟩, Or.inr ?_, hne,
          hfrac, ⟨fun _ => hstops.digit (by simp), hstops.point, hstops.mark⟩, rfl,
          took_cons.mpr htook⟩
        rintro d ⟨⟩
        exact mt (byte_eq_zero_iff hc).mpr h0
  · rintro ⟨whole, frac, e, hwhole, hdigits, hfirst, hne, hfrac, hstops, rfl, htook⟩
    obtain ⟨c, ds, rfl⟩ := List.exists_cons_of_ne_nil hwhole
    obtain ⟨hc, hds⟩ := List.forall_mem_cons.mp hdigits
    rw [List.cons_append] at htook
    obtain rfl := htook.2
    rw [bytes, List.map_cons, List.cons_append, scanNumberWhole]
    by_cases h0 : c = '0'
    · obtain ⟨-, rfl⟩ := List.cons.inj (hfirst.resolve_right fun h => h c rfl h0)
      rw [if_pos ((byte_eq_zero_iff hc).mpr h0)]
      exact scanNumberZero_iff.mpr ⟨frac, e, hne, hfrac,
        ⟨fun h => hstops.digit fun h' => h ⟨trivial, h'.2⟩, hstops.point, hstops.mark⟩, rfl,
        took_cons.mp htook⟩
    · rw [if_neg (mt (byte_eq_zero_iff hc).mp h0), if_pos (isDigit_byte hc)]
      refine scanNumberAny1_iff.mpr ⟨ds, frac, e, hds, hne, hfrac,
        ⟨fun _ => hstops.digit ?_, hstops.point, hstops.mark⟩, rfl, took_cons.mp htook⟩
      rintro ⟨hzero, -, -⟩
      exact h0 (List.cons.inj hzero).1

namespace JsonNumeral

/-- What follows the numeral would not continue it. -/
def Stops (n : JsonNumeral) (rest : List UInt8) : Prop :=
  JsonText.Stops (n.whole = ['0']) n.frac n.exponent rest

def type (n : JsonNumeral) : NumberType :=
  tailType (if n.negative then .integer else .unsigned) n.frac n.exponent

theorem head_text (n : JsonNumeral) : ∃ c cs, n.text = c :: cs ∧
    (n.negative = true ∧ c = '-' ∨ n.negative = false ∧ c.isDigit) := by
  rw [Numeral.text]
  cases n.negative with
  | true => exact ⟨'-', n.unsigned, rfl, Or.inl ⟨rfl, rfl⟩⟩
  | false =>
    obtain ⟨c, cs, hwhole⟩ := List.exists_cons_of_ne_nil n.whole_ne
    have hc := n.whole_isDigit c (by rw [hwhole]; exact List.mem_cons_self)
    rw [Numeral.unsigned, hwhole]
    exact ⟨c, _, rfl, Or.inr ⟨rfl, hc⟩⟩

end JsonNumeral

/-- **The scanner reads exactly the numerals of JSON** up to a byte that would not continue them. -/
theorem scanNumberInit_iff {current : UInt8} {bs buffer rest : List UInt8} {type : NumberType}
    (hcurrent : current = byte '-' ∨ isDigit current) :
    scanNumberInit current bs = some (buffer, type, rest) ↔
      ∃ n : JsonNumeral, n.Stops rest ∧ type = n.type ∧
        buffer = bytes n.text ∧ current :: bs = bytes n.text ++ rest := by
  have hscan : scanNumberInit current bs =
      if current = byte '-' then scanNumberWhole [current] .integer bs
      else scanNumberWhole [] .unsigned (current :: bs) := by
    rw [scanNumberInit]
    split_ifs with hminus hzero
    · exact scanNumberMinus_eq _ _
    · rw [scanNumberWhole, if_pos hzero]
      rfl
    · rw [scanNumberWhole, if_neg hzero, if_pos (hcurrent.resolve_left hminus)]
      rfl
  rw [hscan]
  constructor
  · intro h
    split_ifs at h with hminus
    · subst hminus
      obtain ⟨whole, frac, e, hwhole, hdigits, hfirst, hne, hfrac, hstops, rfl, htook⟩ :=
        scanNumberWhole_iff.mp h
      exact ⟨⟨⟨true, whole, frac, e, by simp [hwhole], hdigits, hfrac⟩, hwhole, hfirst, hne⟩,
        hstops, rfl, htook.1, by rw [htook.2]; rfl⟩
    · obtain ⟨whole, frac, e, hwhole, hdigits, hfirst, hne, hfrac, hstops, rfl, htook⟩ :=
        scanNumberWhole_iff.mp h
      exact ⟨⟨⟨false, whole, frac, e, by simp [hwhole], hdigits, hfrac⟩, hwhole, hfirst, hne⟩,
        hstops, rfl, htook⟩
  · rintro ⟨n, hstops, rfl, hbuffer, hbs⟩
    have htook : Took [] (current :: bs) n.text buffer rest := ⟨hbuffer, hbs⟩
    cases hnegative : n.negative with
    | true =>
      have htext : n.text = '-' :: (n.whole ++ tailText n.frac n.exponent) := by
        rw [Numeral.text, hnegative]
        rfl
      rw [htext] at htook
      obtain ⟨rfl, hrest⟩ := List.cons.inj htook.2
      rw [if_pos rfl]
      refine scanNumberWhole_iff.mpr ⟨n.whole, n.frac, n.exponent, n.whole_ne, n.whole_isDigit,
        n.whole_head, n.frac_ne, n.frac_isDigit, hstops, ?_, htook.1, hrest⟩
      rw [JsonNumeral.type, hnegative]
      rfl
    | false =>
      have htext : n.text = n.whole ++ tailText n.frac n.exponent := by
        rw [Numeral.text, hnegative]
        rfl
      have hminus : current ≠ byte '-' := by
        obtain ⟨c, cs, hcs, hhead⟩ := n.head_text
        have hc := (hhead.resolve_left fun h => by rw [hnegative] at h; cases h.1).2
        rw [hcs] at hbs
        rw [(List.cons.inj hbs).1]
        exact fun h => absurd (isDigit_byte hc) (by rw [h]; decide)
      rw [htext] at htook
      rw [if_neg hminus]
      refine scanNumberWhole_iff.mpr ⟨n.whole, n.frac, n.exponent, n.whole_ne, n.whole_isDigit,
        n.whole_head, n.frac_ne, n.frac_isDigit, hstops, ?_, htook⟩
      rw [JsonNumeral.type, hnegative]
      rfl

/-! ## Tokens -/

variable {R : Type} [DoubleText R]

namespace JsonNumeral

def natural (n : JsonNumeral) : ℕ := Nat.ofDigitChars 10 n.whole 0

def float (n : JsonNumeral) : R :=
  if n.negative then -DoubleText.nearest n.magnitude else DoubleText.nearest n.magnitude

/-- The token of a numeral without a point and an exponent that has the type of a numeral: an
integer if it fits in 64 bits. -/
def integerToken (n : JsonNumeral) : Token R :=
  if n.negative then
    if n.natural ≤ 2 ^ 63 then .valueInteger (Int64.ofInt (-n.natural)) else .valueFloat n.float
  else
    if n.natural < 2 ^ 64 then .valueUnsigned (UInt64.ofNat n.natural) else .valueFloat n.float

def token (n : JsonNumeral) : Token R :=
  if n.frac = none ∧ n.exponent = none then n.integerToken else .valueFloat n.float

end JsonNumeral

theorem chars_bytes {cs : List Char} (h : ∀ c ∈ cs, c.toNat < 128) : chars (bytes cs) = cs := by
  rw [chars, bytes, List.map_map]
  refine (List.map_congr_left fun c hc => ?_).trans (List.map_id cs)
  have := h c hc
  rw [Function.comp_apply, byte_toNat (by omega), Char.ofNat_toNat, id]

theorem chars_text (n : Numeral) : chars (bytes n.text) = n.text := by
  refine chars_bytes fun c hc => ?_
  rcases n.mem_text hc with hdigit | hmark
  · have := (NumberText.isDigit_iff c).mp hdigit
    omega
  · simp only [List.mem_cons, List.not_mem_nil, or_false] at hmark
    rcases hmark with rfl | rfl | rfl | rfl | rfl <;> decide

/-- `std::strtod` reads back every numeral. -/
theorem strtod_text (n : JsonNumeral) : (strtod n.text : R) = n.float := by
  rw [strtod, Numeral.sign_dropWhile_text]
  simp only [Numeral.magnitude_unsigned, JsonNumeral.float]
  rfl

theorem digits_unsigned {n : JsonNumeral} (hfrac : n.frac = none) (he : n.exponent = none) :
    ofDigits 10 (digits decDigit n.unsigned).1 = n.natural := by
  have hunsigned : n.unsigned = n.whole := by
    simp [Numeral.unsigned, Numeral.exponentText, hfrac, he, Decimal.point]
  rw [hunsigned, digits_eq n.whole_isDigit, ofDigits_map, JsonNumeral.natural]

/-- **The token of a numeral**: an integer when it has neither a point nor an exponent and fits in
64 bits. -/
theorem numberToken_text (n : JsonNumeral) :
    (numberToken n.type (bytes n.text) : Token R) = n.token := by
  rw [JsonNumeral.token]
  by_cases hinteger : n.frac = none ∧ n.exponent = none
  · obtain ⟨hfrac, he⟩ := hinteger
    have hdigits := digits_unsigned hfrac he
    rw [if_pos ⟨hfrac, he⟩, JsonNumeral.type, hfrac, he, JsonNumeral.integerToken]
    cases hnegative : n.negative with
    | true =>
      have htype : tailType (if true = true then .integer else .unsigned) none none =
          NumberType.integer := rfl
      rw [htype, numberToken, chars_text, strtoll, Numeral.sign_dropWhile_text]
      simp only [hnegative, hdigits, if_true]
      by_cases hn : n.natural ≤ 2 ^ 63
      · rw [if_neg (not_lt.mpr hn), if_pos hn]
      · rw [if_pos (not_le.mp hn), if_neg hn, strtod_text]
    | false =>
      have htype : tailType (if false = true then .integer else .unsigned) none none =
          NumberType.unsigned := rfl
      rw [htype, numberToken, chars_text, strtoull, Numeral.sign_dropWhile_text]
      simp only [hnegative, hdigits, Bool.false_eq_true, if_false]
      by_cases hn : n.natural < 2 ^ 64
      · rw [if_neg (not_le.mpr hn), if_pos hn]
      · rw [if_pos (not_lt.mp hn), if_neg hn, strtod_text]
  · have htype : n.type = .float := by
      rw [JsonNumeral.type, tailType, typeOf]
      cases hfrac : n.frac with
      | some ds => rfl
      | none =>
        cases he : n.exponent with
        | some e => rfl
        | none => exact absurd ⟨hfrac, he⟩ hinteger
    rw [if_neg hinteger, htype, numberToken, chars_text, strtod_text]

end SyntheticArbitrage.JsonText
