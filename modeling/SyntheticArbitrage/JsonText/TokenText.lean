import SyntheticArbitrage.JsonText.StringText
import SyntheticArbitrage.JsonText.NumberScan
import Mathlib.Data.List.TakeWhile

/-!
# The tokens of JSON texts

* `TokenText`: the texts of a token, in front of what follows it.
* `scan_iff`: the scanner reads exactly whitespace and the text of a token.
* `Written`: the texts of tokens with whitespace around them, up to the end of the input.
* `tokens_iff`: **the lexer reads exactly the texts that are written** with a sequence of tokens,
  perhaps after a byte order mark.
-/

namespace SyntheticArbitrage.JsonText

variable {R : Type}

def structural : List (Token R × Char) :=
  [(.beginArray, '['), (.endArray, ']'), (.beginObject, '{'), (.endObject, '}'),
    (.nameSeparator, ':'), (.valueSeparator, ',')]

def literals : List (Token R × List Char) :=
  [(.literalTrue, ['t', 'r', 'u', 'e']), (.literalFalse, ['f', 'a', 'l', 's', 'e']),
    (.literalNull, ['n', 'u', 'l', 'l'])]

/-- The texts of a token in front of `rest`. -/
inductive TokenText [DoubleText R] : Token R → List UInt8 → List UInt8 → Prop where
  | structural {t : Token R} {c : Char} {rest : List UInt8} (h : (t, c) ∈ structural) :
    TokenText t [byte c] rest
  | literal {t : Token R} {cs : List Char} {rest : List UInt8} (h : (t, cs) ∈ literals) :
    TokenText t (bytes cs) rest
  | string {cs : List Char} {text rest : List UInt8} (h : StringText cs text) :
    TokenText (.valueString (String.ofList cs)) (byte '\"' :: text ++ [byte '\"']) rest
  | number {n : JsonNumeral} {rest : List UInt8} (h : n.Stops rest) :
    TokenText n.token (bytes n.text) rest

/-- Nothing but whitespace. -/
def Blank (ws : List UInt8) : Prop := ∀ b ∈ ws, isWhitespace b

/-- Where the input ends: there is no byte, or a zero. -/
def AtEnd (rest : List UInt8) : Prop := ∀ b ∈ rest.head?, b = 0

/-! ## One token -/

theorem scanLiteral_iff {literal : List Char} {type t : Token R} {bs rest : List UInt8}
    (ht : t ≠ .parseError) :
    scanLiteral literal type bs = (t, rest) ↔ t = type ∧ bs = bytes literal ++ rest := by
  induction literal generalizing bs with
  | nil => simp [scanLiteral, bytes, Prod.ext_iff, eq_comm]
  | cons c literal ih =>
    cases bs with
    | nil => simp [scanLiteral, bytes, ht.symm]
    | cons b bs =>
      rw [scanLiteral]
      by_cases hb : b = byte c
      · rw [if_pos hb, ih]
        simp [bytes, hb]
      · rw [if_neg hb]
        simp [bytes, hb, ht.symm]

variable [DoubleText R]

theorem isLast_of_text {t : Token R} {text rest : List UInt8} (h : TokenText t text rest) :
    t.isLast = false := by
  cases h with
  | structural h =>
    simp only [structural, List.mem_cons, Prod.mk.injEq, List.not_mem_nil, or_false] at h
    rcases h with h | h | h | h | h | h <;> rw [h.1] <;> rfl
  | literal h =>
    simp only [literals, List.mem_cons, Prod.mk.injEq, List.not_mem_nil, or_false] at h
    rcases h with h | h | h <;> rw [h.1] <;> rfl
  | string h => rfl
  | @number n _ h =>
    rw [JsonNumeral.token, JsonNumeral.integerToken]
    split_ifs <;> rfl

theorem scanFrom_structural {t : Token R} {c : Char} (h : (t, c) ∈ structural) (bs : List UInt8) :
    scanFrom (byte c) bs = (t, bs) := by
  simp only [structural, List.mem_cons, Prod.mk.injEq, List.not_mem_nil, or_false] at h
  rcases h with h | h | h | h | h | h <;> rw [h.1, h.2] <;> rfl

theorem scanFrom_literal {t : Token R} {c : Char} {cs : List Char} (h : (t, c :: cs) ∈ literals)
    (bs : List UInt8) : scanFrom (byte c) bs = scanLiteral cs t bs := by
  simp only [literals, List.mem_cons, Prod.mk.injEq, List.cons.injEq, List.not_mem_nil,
    or_false] at h
  rcases h with ⟨rfl, rfl, rfl⟩ | ⟨rfl, rfl, rfl⟩ | ⟨rfl, rfl, rfl⟩ <;> rfl

theorem scanFrom_quote (bs : List UInt8) : (scanFrom (byte '\"') bs : Token R × List UInt8) =
    match scanString bs with
    | some (buffer, rest) => (.valueString (String.ofList (Utf8.decode buffer)), rest)
    | none => (.parseError, bs) := rfl

theorem scanFrom_number {current : UInt8} (h : current = byte '-' ∨ isDigit current)
    (bs : List UInt8) : (scanFrom current bs : Token R × List UInt8) =
      match scanNumberInit current bs with
      | some (buffer, type, rest) => (numberToken type buffer, rest)
      | none => (.parseError, bs) := by
  have hne : ∀ c : Char, ¬ (byte c = byte '-' ∨ isDigit (byte c)) → current ≠ byte c := by
    rintro c hc rfl
    exact hc h
  rw [scanFrom, if_neg (hne '[' (by decide)), if_neg (hne ']' (by decide)),
    if_neg (hne '{' (by decide)), if_neg (hne '}' (by decide)), if_neg (hne ':' (by decide)),
    if_neg (hne ',' (by decide)), if_neg (hne 't' (by decide)), if_neg (hne 'f' (by decide)),
    if_neg (hne 'n' (by decide)), if_neg (hne '\"' (by decide))]
  exact if_pos h

def startsToken (current : UInt8) : Prop :=
  current ∈ bytes ['[', ']', '{', '}', ':', ',', 't', 'f', 'n', '\"'] ∨
    current = byte '-' ∨ isDigit current

theorem scanFrom_other {current : UInt8} (h : ¬ startsToken current) (bs : List UInt8) :
    (scanFrom current bs : Token R × List UInt8) =
      (if current = 0 then .endOfInput else .parseError, bs) := by
  simp only [startsToken, bytes, List.map_cons, List.map_nil, List.mem_cons, List.not_mem_nil,
    or_false, not_or] at h
  obtain ⟨⟨h1, h2, h3, h4, h5, h6, h7, h8, h9, h10⟩, h11, h12⟩ := h
  rw [scanFrom, if_neg h1, if_neg h2, if_neg h3, if_neg h4, if_neg h5, if_neg h6, if_neg h7,
    if_neg h8, if_neg h9, if_neg h10, if_neg (not_or.mpr ⟨h11, h12⟩)]
  split_ifs <;> rfl

omit [DoubleText R] in
/-- A byte that a token can start with is a character of its own, the first one of a literal, a
quote, or the start of a number. -/
theorem startsToken_cases {current : UInt8} (h : startsToken current) :
    (∃ (t : Token R) (c : Char), (t, c) ∈ structural ∧ current = byte c) ∨
      (∃ (t : Token R) (c : Char) (cs : List Char), (t, c :: cs) ∈ literals ∧ current = byte c) ∨
      current = byte '\"' ∨ (current = byte '-' ∨ isDigit current) := by
  rcases h with h | h
  · simp only [bytes, List.map_cons, List.map_nil, List.mem_cons, List.not_mem_nil, or_false] at h
    rcases h with h | h | h | h | h | h | h | h | h | h
    · exact Or.inl ⟨.beginArray, '[', by simp [structural], h⟩
    · exact Or.inl ⟨.endArray, ']', by simp [structural], h⟩
    · exact Or.inl ⟨.beginObject, '{', by simp [structural], h⟩
    · exact Or.inl ⟨.endObject, '}', by simp [structural], h⟩
    · exact Or.inl ⟨.nameSeparator, ':', by simp [structural], h⟩
    · exact Or.inl ⟨.valueSeparator, ',', by simp [structural], h⟩
    · exact Or.inr (Or.inl ⟨.literalTrue, 't', _, by simp [literals]; rfl, h⟩)
    · exact Or.inr (Or.inl ⟨.literalFalse, 'f', _, by simp [literals]; rfl, h⟩)
    · exact Or.inr (Or.inl ⟨.literalNull, 'n', _, by simp [literals]; rfl, h⟩)
    · exact Or.inr (Or.inr (Or.inl h))
  · exact Or.inr (Or.inr (Or.inr h))

theorem scanFrom_iff {current : UInt8} {bs rest : List UInt8} {t : Token R}
    (ht : t.isLast = false) :
    scanFrom current bs = (t, rest) ↔
      ∃ text, TokenText t text rest ∧ current :: bs = text ++ rest := by
  have hne : t ≠ .parseError := by
    rintro rfl
    cases ht
  constructor
  · intro h
    by_cases hstarts : startsToken current
    · rcases startsToken_cases (R := R) hstarts with
        ⟨t', c, hc, rfl⟩ | ⟨t', c, cs, hc, rfl⟩ | rfl | hnumber
      · rw [scanFrom_structural hc] at h
        cases h
        exact ⟨_, .structural hc, rfl⟩
      · rw [scanFrom_literal hc, scanLiteral_iff hne] at h
        obtain ⟨rfl, rfl⟩ := h
        exact ⟨_, .literal hc, rfl⟩
      · rw [scanFrom_quote] at h
        cases hscan : scanString bs with
        | none => rw [hscan] at h; cases h; cases ht
        | some scanned =>
          obtain ⟨buffer, rest'⟩ := scanned
          obtain ⟨cs, text, htext, rfl, rfl⟩ := scanString_iff.mp hscan
          rw [hscan] at h
          cases h
          rw [Utf8.decode_encode]
          exact ⟨_, .string htext, by simp⟩
      · rw [scanFrom_number hnumber] at h
        cases hscan : scanNumberInit current bs with
        | none => rw [hscan] at h; cases h; cases ht
        | some scanned =>
          obtain ⟨buffer, type, rest'⟩ := scanned
          obtain ⟨n, hstops, rfl, rfl, hbs⟩ := (scanNumberInit_iff hnumber).mp hscan
          rw [hscan] at h
          dsimp only at h
          rw [numberToken_text] at h
          cases h
          exact ⟨_, .number hstops, hbs⟩
    · rw [scanFrom_other hstarts] at h
      cases h
      split_ifs at ht
      · cases ht
      · cases ht
  · rintro ⟨text, htext, hbs⟩
    cases htext with
    | structural h =>
      obtain ⟨rfl, rfl⟩ := List.cons.inj hbs
      exact scanFrom_structural h _
    | @literal _ cs _ h =>
      obtain ⟨c, cs, rfl⟩ : ∃ c cs', cs = c :: cs' := by
        simp only [literals, List.mem_cons, Prod.mk.injEq, List.not_mem_nil, or_false] at h
        rcases h with h | h | h <;> exact ⟨_, _, h.2⟩
      obtain ⟨rfl, rfl⟩ := List.cons.inj hbs
      rw [scanFrom_literal h]
      exact (scanLiteral_iff hne).mpr ⟨rfl, rfl⟩
    | @string cs text _ h =>
      obtain ⟨rfl, hmore⟩ := List.cons.inj hbs
      have hscan : scanString bs = some (Utf8.encode cs, rest) :=
        scanString_iff.mpr ⟨cs, text, h, hmore.trans (by simp), rfl⟩
      rw [scanFrom_quote, hscan]
      dsimp only
      rw [Utf8.decode_encode]
    | @number n _ h =>
      obtain ⟨c, cs, hcs, hc⟩ := n.head_text
      have hcurrent : current = byte '-' ∨ isDigit current := by
        rw [hcs] at hbs
        rw [(List.cons.inj hbs).1]
        rcases hc with ⟨-, rfl⟩ | ⟨-, hc⟩
        · exact Or.inl rfl
        · exact Or.inr (isDigit_byte hc)
      rw [scanFrom_number hcurrent, (scanNumberInit_iff hcurrent).mpr ⟨n, h, rfl, rfl, hbs⟩]
      dsimp only
      rw [numberToken_text]

theorem isWhitespace_of_startsToken {current : UInt8} (h : startsToken current) :
    isWhitespace current = false := by
  rcases h with h | h | h
  · simp only [bytes, List.map_cons, List.map_nil, List.mem_cons, List.not_mem_nil, or_false] at h
    rcases h with rfl | rfl | rfl | rfl | rfl | rfl | rfl | rfl | rfl | rfl <;> decide
  · rw [h]
    decide
  · by_contra hws
    simp only [isWhitespace, Bool.not_eq_false, Bool.or_eq_true, decide_eq_true_eq] at hws
    rcases hws with ((rfl | rfl) | rfl) | rfl <;> exact absurd h (by decide)

theorem scan_cons {current : UInt8} (h : isWhitespace current = false) (bs : List UInt8) :
    (scan (current :: bs) : Token R × List UInt8) = scanFrom current bs := by
  rw [scan, skipWhitespace, List.dropWhile_cons_of_neg (by rw [h]; exact Bool.false_ne_true)]

theorem scan_append {ws : List UInt8} (h : Blank ws) (bs : List UInt8) :
    (scan (ws ++ bs) : Token R × List UInt8) = scan bs := by
  rw [scan, scan, skipWhitespace, skipWhitespace, List.dropWhile_append_of_pos h]

theorem exists_blank (bs : List UInt8) : ∃ ws, Blank ws ∧
    (bs = ws ∨ ∃ current rest, isWhitespace current = false ∧ bs = ws ++ current :: rest) := by
  refine ⟨bs.takeWhile isWhitespace, fun b hb => List.mem_takeWhile_imp hb, ?_⟩
  have hsplit := List.takeWhile_append_dropWhile (p := isWhitespace) (l := bs)
  cases hdrop : bs.dropWhile isWhitespace with
  | nil =>
    rw [hdrop, List.append_nil] at hsplit
    exact Or.inl hsplit.symm
  | cons current rest =>
    rw [hdrop] at hsplit
    refine Or.inr ⟨current, rest, ?_, hsplit.symm⟩
    have hhead := List.head?_dropWhile_not isWhitespace bs
    rw [hdrop] at hhead
    simpa using hhead

theorem head_tokenText {t : Token R} {text rest : List UInt8} (h : TokenText t text rest) :
    ∃ current more, text = current :: more ∧ startsToken current := by
  have hlist : ∀ c ∈ ['[', ']', '{', '}', ':', ',', 't', 'f', 'n', '\"'],
      startsToken (byte c) := fun c hc => Or.inl (List.mem_map_of_mem hc)
  cases h with
  | @structural _ c _ h =>
    refine ⟨_, _, rfl, hlist c ?_⟩
    simp only [JsonText.structural, List.mem_cons, Prod.mk.injEq, List.not_mem_nil, or_false] at h
    rcases h with h | h | h | h | h | h <;> rw [h.2] <;> decide
  | literal h =>
    simp only [literals, List.mem_cons, Prod.mk.injEq, List.not_mem_nil, or_false] at h
    rcases h with h | h | h
    · exact ⟨_, _, by rw [h.2]; rfl, hlist 't' (by decide)⟩
    · exact ⟨_, _, by rw [h.2]; rfl, hlist 'f' (by decide)⟩
    · exact ⟨_, _, by rw [h.2]; rfl, hlist 'n' (by decide)⟩
  | string h => exact ⟨_, _, rfl, hlist '\"' (by decide)⟩
  | @number n _ h =>
    obtain ⟨c, cs, hcs, hc⟩ := n.head_text
    refine ⟨byte c, bytes cs, by rw [hcs]; rfl, Or.inr ?_⟩
    rcases hc with ⟨-, rfl⟩ | ⟨-, hc⟩
    · exact Or.inl rfl
    · exact Or.inr (isDigit_byte hc)

theorem scan_iff {bs rest : List UInt8} {t : Token R} (ht : t.isLast = false) :
    scan bs = (t, rest) ↔
      ∃ ws text, Blank ws ∧ TokenText t text rest ∧ bs = ws ++ text ++ rest := by
  constructor
  · intro h
    obtain ⟨ws, hws, rfl | ⟨current, more, hcurrent, rfl⟩⟩ := exists_blank bs
    · have hend := scan_append (R := R) hws []
      rw [List.append_nil, h] at hend
      cases hend
      cases ht
    · rw [scan_append hws, scan_cons hcurrent] at h
      obtain ⟨text, htext, hmore⟩ := (scanFrom_iff ht).mp h
      exact ⟨ws, text, hws, htext, by rw [hmore, List.append_assoc]⟩
  · rintro ⟨ws, text, hws, htext, rfl⟩
    obtain ⟨current, more, rfl, hcurrent⟩ := head_tokenText htext
    rw [List.append_assoc, scan_append hws, List.cons_append,
      scan_cons (isWhitespace_of_startsToken hcurrent)]
    exact (scanFrom_iff ht).mpr ⟨_, htext, rfl⟩

theorem scanFrom_ne_endOfInput {current : UInt8} (h : startsToken current) (bs : List UInt8) :
    (scanFrom current bs : Token R × List UInt8).1 ≠ .endOfInput := by
  intro hend
  rcases startsToken_cases (R := R) h with ⟨t, c, hc, rfl⟩ | ⟨t, c, cs, hc, rfl⟩ | rfl | hnumber
  · rw [scanFrom_structural hc] at hend
    have hlast := isLast_of_text (TokenText.structural hc : TokenText t _ [])
    rw [show t = .endOfInput from hend] at hlast
    cases hlast
  · rw [scanFrom_literal hc] at hend
    have hlast := isLast_of_text (TokenText.literal hc : TokenText t _ [])
    have hscan : scanLiteral cs t bs = (.endOfInput, (scanLiteral cs t bs).2) := Prod.ext hend rfl
    rw [← ((scanLiteral_iff (by simp)).mp hscan).1] at hlast
    cases hlast
  · rw [scanFrom_quote] at hend
    cases hscan : scanString bs <;> rw [hscan] at hend <;> cases hend
  · rw [scanFrom_number hnumber] at hend
    cases hscan : scanNumberInit current bs with
    | none => rw [hscan] at hend; cases hend
    | some scanned =>
      obtain ⟨buffer, type, rest⟩ := scanned
      obtain ⟨n, hstops, rfl, rfl, -⟩ := (scanNumberInit_iff hnumber).mp hscan
      rw [hscan] at hend
      dsimp only at hend
      rw [numberToken_text] at hend
      have hlast := isLast_of_text (TokenText.number (R := R) hstops)
      rw [hend] at hlast
      cases hlast

theorem scan_endOfInput_iff {bs : List UInt8} :
    (scan bs : Token R × List UInt8).1 = .endOfInput ↔
      ∃ ws rest, Blank ws ∧ AtEnd rest ∧ bs = ws ++ rest := by
  constructor
  · intro h
    obtain ⟨ws, hws, rfl | ⟨current, more, hcurrent, rfl⟩⟩ := exists_blank bs
    · exact ⟨bs, [], hws, by simp [AtEnd], (List.append_nil bs).symm⟩
    · refine ⟨ws, current :: more, hws, ?_, rfl⟩
      rintro b ⟨⟩
      rw [scan_append hws, scan_cons hcurrent] at h
      have hstarts : ¬ startsToken current := fun hs => scanFrom_ne_endOfInput hs more h
      rw [scanFrom_other hstarts] at h
      by_contra hne
      rw [if_neg hne] at h
      cases h
  · rintro ⟨ws, rest, hws, hend, rfl⟩
    rw [scan_append hws]
    cases rest with
    | nil => rfl
    | cons b rest =>
      rw [hend b rfl]
      rfl

/-! ## Sequences of tokens -/

/-- The texts of a sequence of tokens: whitespace before each token and at the end, and what follows
the end of the input. -/
inductive Written : List (Token R) → List UInt8 → Prop where
  | nil {ws rest : List UInt8} (hws : Blank ws) (hend : AtEnd rest) : Written [] (ws ++ rest)
  | cons {t : Token R} {ts : List (Token R)} {ws text rest : List UInt8} (hws : Blank ws)
    (htext : TokenText t text rest) (hrest : Written ts rest) :
    Written (t :: ts) (ws ++ text ++ rest)

theorem length_of_scan {bs rest : List UInt8} {t : Token R} (ht : t.isLast = false)
    (h : scan bs = (t, rest)) : rest.length < bs.length := by
  obtain ⟨ws, text, -, htext, rfl⟩ := (scan_iff ht).mp h
  obtain ⟨current, more, rfl, -⟩ := head_tokenText htext
  simp only [List.length_append, List.length_cons]
  omega

theorem tokensLoop_iff {left : ℕ} {bs : List UInt8} {ts : List (Token R)}
    (hleft : bs.length ≤ left) :
    tokensLoop left bs = ts ++ [.endOfInput] ↔ Written ts bs := by
  induction left generalizing bs ts with
  | zero =>
    obtain rfl := List.length_eq_zero_iff.mp (Nat.le_zero.mp hleft)
    rw [tokensLoop]
    constructor
    · intro h
      obtain ⟨rfl, -⟩ := List.append_inj' (show [] ++ _ = ts ++ _ from h) rfl
      have hnil : Blank [] := fun b hb => absurd hb List.not_mem_nil
      have hend : AtEnd [] := fun b hb => absurd hb (by simp)
      exact .nil hnil hend
    · intro h
      generalize hbs : ([] : List UInt8) = bs at h
      cases h with
      | nil => rfl
      | cons hws htext hrest =>
        obtain ⟨current, more, rfl, -⟩ := head_tokenText htext
        simp at hbs
  | succ left ih =>
    rw [tokensLoop]
    cases hlast : (scan bs : Token R × List UInt8).1.isLast with
    | true =>
      rw [if_pos rfl]
      constructor
      · intro h
        obtain ⟨rfl, hend⟩ := List.append_inj' (show [] ++ _ = ts ++ _ from h) rfl
        obtain ⟨ws, rest, hws, hrest, rfl⟩ := scan_endOfInput_iff.mp (List.cons.inj hend).1
        exact .nil hws hrest
      · intro h
        cases h with
        | nil hws hend => rw [scan_endOfInput_iff.mpr ⟨_, _, hws, hend, rfl⟩]; rfl
        | cons hws htext hrest =>
          rw [(scan_iff (isLast_of_text htext)).mpr ⟨_, _, hws, htext, rfl⟩,
            isLast_of_text htext] at hlast
          cases hlast
    | false =>
      rw [if_neg Bool.false_ne_true]
      have hscan : (scan bs : Token R × List UInt8) = ((scan bs).1, (scan bs).2) := rfl
      have hshort := length_of_scan hlast hscan
      constructor
      · intro h
        cases ts with
        | nil =>
          rw [(List.cons.inj h).1] at hlast
          cases hlast
        | cons t ts =>
          obtain ⟨ht, hts⟩ := List.cons.inj h
          obtain ⟨ws, text, hws, htext, hbs⟩ := (scan_iff hlast).mp hscan
          rw [hbs, ← ht]
          exact .cons hws htext ((ih (by omega)).mp hts)
      · intro h
        cases h with
        | nil hws hend =>
          rw [scan_endOfInput_iff.mpr ⟨_, _, hws, hend, rfl⟩] at hlast
          cases hlast
        | cons hws htext hrest =>
          rw [(scan_iff (isLast_of_text htext)).mpr ⟨_, _, hws, htext, rfl⟩] at hshort ⊢
          exact congrArg (_ :: ·) ((ih (by omega)).mpr hrest)

def bom : List UInt8 := [0xEF, 0xBB, 0xBF]

theorem head_ne_of_written {ts : List (Token R)} {bs : List UInt8} (h : Written ts bs) :
    bs.head? ≠ some 0xEF := by
  have hblank : ∀ {ws rest : List UInt8}, Blank ws → rest.head? ≠ some 0xEF →
      (ws ++ rest).head? ≠ some 0xEF := by
    intro ws rest hws hrest
    cases ws with
    | nil => exact hrest
    | cons b ws =>
      rintro ⟨⟩
      exact absurd (hws _ List.mem_cons_self) (by decide)
  cases h with
  | nil hws hend => exact hblank hws fun h => absurd (hend _ h) (by decide)
  | cons hws htext hrest =>
    obtain ⟨current, more, rfl, hcurrent⟩ := head_tokenText htext
    rw [List.append_assoc]
    refine hblank hws ?_
    rintro ⟨⟩
    revert hcurrent
    unfold startsToken
    decide

theorem skipBom_eq {bs : List UInt8} (h : bs.head? ≠ some 0xEF) : skipBom bs = some bs := by
  rw [skipBom]
  · rintro _ rfl
    exact h rfl
  · rintro _ rfl
    exact h rfl

theorem skipBom_iff {bs text : List UInt8} :
    skipBom bs = some text ↔ bs = bom ++ text ∨ bs.head? ≠ some 0xEF ∧ bs = text := by
  constructor
  · intro h
    by_cases hmark : bs.head? = some 0xEF
    · unfold skipBom at h
      split at h
      · cases h
        exact Or.inl rfl
      · cases h
      · next hne =>
        obtain ⟨rest, rfl⟩ := List.head?_eq_some_iff.mp hmark
        exact absurd rfl (hne rest)
    · rw [skipBom_eq hmark] at h
      exact Or.inr ⟨hmark, Option.some.inj h⟩
  · rintro (rfl | ⟨hmark, rfl⟩)
    · rfl
    · exact skipBom_eq hmark

/-- **The lexer reads exactly the texts that are written** with a sequence of tokens, perhaps after
a byte order mark. -/
theorem tokens_iff {bs : List UInt8} {ts : List (Token R)} :
    tokens bs = ts ++ [.endOfInput] ↔
      Written ts bs ∨ ∃ text, bs = bom ++ text ∧ Written ts text := by
  have hloop : ∀ bs : List UInt8, tokensLoop bs.length bs = ts ++ [.endOfInput] ↔ Written ts bs :=
    fun bs => tokensLoop_iff le_rfl
  constructor
  · intro h
    rw [tokens] at h
    cases hskip : skipBom bs with
    | none =>
      rw [hskip] at h
      obtain ⟨-, hend⟩ := List.append_inj' (show [] ++ _ = ts ++ _ from h) rfl
      cases hend
    | some text =>
      rw [hskip] at h
      have hwritten := (hloop text).mp h
      rcases skipBom_iff.mp hskip with rfl | ⟨-, rfl⟩
      · exact Or.inr ⟨text, rfl, hwritten⟩
      · exact Or.inl hwritten
  · intro h
    have hskip : ∃ text, skipBom bs = some text ∧ Written ts text := by
      rcases h with hwritten | ⟨text, rfl, hwritten⟩
      · exact ⟨bs, skipBom_eq (head_ne_of_written hwritten), hwritten⟩
      · exact ⟨text, rfl, hwritten⟩
    obtain ⟨text, hskip, hwritten⟩ := hskip
    rw [tokens, hskip]
    exact (hloop text).mpr hwritten

theorem eq_nil_of_tokens {bs : List UInt8} {ts more : List (Token R)} {t : Token R}
    (ht : t.isLast) (h : tokens bs = ts ++ t :: more) : more = [] := by
  have hsingle : ∀ (last : Token R) (ts : List (Token R)),
      [last] = ts ++ t :: more → more = [] := by
    intro last ts h
    have hlen := congrArg List.length h
    simp only [List.length_cons, List.length_nil, List.length_append] at hlen
    exact List.length_eq_zero_iff.mp (by omega)
  have hloop : ∀ (left : ℕ) (bs : List UInt8) (ts : List (Token R)),
      tokensLoop left bs = ts ++ t :: more → more = [] := by
    intro left
    induction left with
    | zero => exact fun _ ts h => hsingle _ ts h
    | succ left ih =>
      intro bs ts h
      rw [tokensLoop] at h
      cases hlast : (scan bs : Token R × List UInt8).1.isLast with
      | true =>
        rw [hlast, if_pos rfl] at h
        exact hsingle _ ts h
      | false =>
        rw [hlast, if_neg Bool.false_ne_true] at h
        cases ts with
        | nil =>
          rw [(List.cons.inj h).1, ht] at hlast
          cases hlast
        | cons t' ts => exact ih _ ts (List.cons.inj h).2
  rw [tokens] at h
  cases hskip : skipBom bs with
  | none => rw [hskip] at h; exact hsingle _ ts h
  | some text => rw [hskip] at h; exact hloop _ _ ts h

/-! ## Tokens that stand apart -/

/-- The texts of a sequence of tokens, each with a text that it has on its own. -/
inductive TokensText : List (Token R) → List UInt8 → Prop where
  | nil {ws rest : List UInt8} (hws : Blank ws) (hend : AtEnd rest) : TokensText [] (ws ++ rest)
  | cons {t : Token R} {ts : List (Token R)} {ws text rest : List UInt8} (hws : Blank ws)
    (htext : TokenText t text []) (hrest : TokensText ts rest) :
    TokensText (t :: ts) (ws ++ text ++ rest)

def Token.isNumber : Token R → Bool
  | .valueUnsigned _ => true
  | .valueInteger _ => true
  | .valueFloat _ => true
  | _ => false

/-- No number stands next to a number. -/
def Separated : List (Token R) → Prop
  | [] => True
  | t :: ts => (t.isNumber → ∀ t' ∈ ts.head?, t'.isNumber = false) ∧ Separated ts

theorem isNumber_token (n : JsonNumeral) : (n.token : Token R).isNumber := by
  rw [JsonNumeral.token, JsonNumeral.integerToken]
  split_ifs <;> rfl

/-- A byte that continues no numeral. -/
def Delimits (b : UInt8) : Prop :=
  isDigit b = false ∧ b ≠ byte '.' ∧ isExponentMark b = false

theorem stops_of_delimits {rest : List UInt8} (h : ∀ b ∈ rest.head?, Delimits b)
    (n : JsonNumeral) : n.Stops rest where
  digit := fun _ b hb => (h b hb).1
  point := fun _ _ b hb => (h b hb).2.1
  mark := fun _ b hb => (h b hb).2.2

theorem delimits_of_tokensText {ts : List (Token R)} {bs : List UInt8} (h : TokensText ts bs)
    (hts : ∀ t ∈ ts.head?, t.isNumber = false) : ∀ b ∈ bs.head?, Delimits b := by
  have hblank : ∀ {ws rest : List UInt8}, Blank ws → (∀ b ∈ rest.head?, Delimits b) →
      ∀ b ∈ (ws ++ rest).head?, Delimits b := by
    intro ws rest hws hrest
    cases ws with
    | nil => exact hrest
    | cons b ws =>
      rintro b' ⟨⟩
      have hb := hws b List.mem_cons_self
      simp only [isWhitespace, Bool.or_eq_true, decide_eq_true_eq] at hb
      unfold Delimits
      rcases hb with ((rfl | rfl) | rfl) | rfl <;> decide
  cases h with
  | nil hws hend =>
    refine hblank hws fun b hb => ?_
    rw [hend b hb]
    unfold Delimits
    decide
  | @cons t ts ws text rest hws htext hrest =>
    rw [List.append_assoc]
    refine hblank hws ?_
    have ht := hts t rfl
    cases htext with
    | structural h =>
      rintro b ⟨⟩
      simp only [structural, List.mem_cons, Prod.mk.injEq, List.not_mem_nil, or_false] at h
      unfold Delimits
      rcases h with h | h | h | h | h | h <;> rw [h.2] <;> decide
    | literal h =>
      simp only [literals, List.mem_cons, Prod.mk.injEq, List.not_mem_nil, or_false] at h
      unfold Delimits
      rcases h with h | h | h <;> rw [h.2] <;> rintro b ⟨⟩ <;> decide
    | string h =>
      rintro b ⟨⟩
      unfold Delimits
      decide
    | number h =>
      rw [isNumber_token] at ht
      cases ht

theorem written_of_tokensText {ts : List (Token R)} {bs : List UInt8} (h : TokensText ts bs)
    (hts : Separated ts) : Written ts bs := by
  induction h with
  | nil hws hend => exact .nil hws hend
  | @cons t ts ws text rest hws htext hrest ih =>
    refine .cons hws ?_ (ih hts.2)
    cases htext with
    | structural h => exact .structural h
    | literal h => exact .literal h
    | string h => exact .string h
    | @number n _ h =>
      exact .number (stops_of_delimits (delimits_of_tokensText hrest (hts.1 (isNumber_token n))) n)

theorem tokensText_of_written {ts : List (Token R)} {bs : List UInt8} (h : Written ts bs) :
    TokensText ts bs := by
  induction h with
  | nil hws hend => exact .nil hws hend
  | cons hws htext hrest ih =>
    refine .cons hws ?_ ih
    cases htext with
    | structural h => exact .structural h
    | literal h => exact .literal h
    | string h => exact .string h
    | @number n _ h => exact .number (stops_of_delimits (by simp) n)

end SyntheticArbitrage.JsonText
