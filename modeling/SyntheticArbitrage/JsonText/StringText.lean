import SyntheticArbitrage.JsonText.Lexer

/-!
# The strings of JSON texts

* `Spelled`: the spellings of a character in a string: itself, an escape of one character, or one or
  two escapes of four hexadecimal digits.
* `stringStep_added_iff`: an iteration of the scanner reads the spelling of one character.
* `scanString_iff`: **the scanner reads exactly the spellings of texts** up to a quote, and its
  buffer has the UTF-8 bytes of the text.
-/

namespace SyntheticArbitrage.JsonText

/-! ## Spellings -/

/-- Four hexadecimal digits that write a number. -/
inductive HexText : ℕ → List UInt8 → Prop where
  | digits {b₁ b₂ b₃ b₄ : UInt8} {x₁ x₂ x₃ x₄ : ℕ} (h₁ : hexValue b₁ = some x₁)
    (h₂ : hexValue b₂ = some x₂) (h₃ : hexValue b₃ = some x₃) (h₄ : hexValue b₄ = some x₄) :
    HexText (x₁ * 4096 + x₂ * 256 + x₃ * 16 + x₄) [b₁, b₂, b₃, b₄]

/-- The escapes of one character, with the byte after the reverse solidus. -/
def simpleEscapes : List (UInt8 × Char) :=
  [(byte '\"', '\"'), (byte '\\', '\\'), (byte '/', '/'), (byte 'b', '\x08'),
    (byte 'f', '\x0c'), (byte 'n', '\n'), (byte 'r', '\r'), (byte 't', '\t')]

/-- The spellings of a character after a reverse solidus. -/
inductive Escaped (c : Char) : List UInt8 → Prop where
  | simple {b : UInt8} (h : (b, c) ∈ simpleEscapes) : Escaped c [b]
  | unicode {digits : List UInt8} (h : HexText c.toNat digits) : Escaped c (byte 'u' :: digits)
  /-- A character above `U+FFFF`, as a pair of surrogates. -/
  | surrogates {high low : List UInt8} (hlarge : 0x10000 ≤ c.toNat)
    (hhigh : HexText (0xD800 + (c.toNat - 0x10000) / 0x400) high)
    (hlow : HexText (0xDC00 + (c.toNat - 0x10000) % 0x400) low) :
    Escaped c (byte 'u' :: high ++ byte '\\' :: byte 'u' :: low)

/-- The spellings of a character in a string. -/
inductive Spelled (c : Char) : List UInt8 → Prop where
  /-- The character itself, but for quotes, reverse solidi and control characters. -/
  | plain (hcontrol : 0x20 ≤ c.toNat) (hquote : c ≠ '\"') (hsolidus : c ≠ '\\') :
    Spelled c (String.utf8EncodeChar c)
  | escaped {text : List UInt8} (h : Escaped c text) : Spelled c (byte '\\' :: text)

inductive StringText : List Char → List UInt8 → Prop where
  | nil : StringText [] []
  | cons {c : Char} {cs : List Char} {text rest : List UInt8} (h : Spelled c text)
    (hrest : StringText cs rest) : StringText (c :: cs) (text ++ rest)

/-! ## Code points -/

theorem hexValue_lt {b : UInt8} {x : ℕ} (h : hexValue b = some x) : x < 16 := by
  rw [hexValue] at h
  split_ifs at h with h0 hA ha
  · have := UInt8.le_iff_toNat_le.mp h0.2
    have h9 : (byte '9').toNat = 0x39 := by decide
    cases h
    omega
  · have := UInt8.le_iff_toNat_le.mp hA.2
    have hF : (byte 'F').toNat = 0x46 := by decide
    cases h
    omega
  · have := UInt8.le_iff_toNat_le.mp ha.2
    have hf : (byte 'f').toNat = 0x66 := by decide
    cases h
    omega

theorem HexText.lt {n : ℕ} {digits : List UInt8} (h : HexText n digits) : n < 0x10000 := by
  obtain ⟨h₁, h₂, h₃, h₄⟩ := h
  have := hexValue_lt h₁
  have := hexValue_lt h₂
  have := hexValue_lt h₃
  have := hexValue_lt h₄
  omega

/-- `get_codepoint` reads exactly four hexadecimal digits. -/
theorem getCodepoint_iff {bs rest : List UInt8} {n : ℕ} :
    getCodepoint bs = some (n, rest) ↔ ∃ digits, HexText n digits ∧ bs = digits ++ rest := by
  constructor
  · intro h
    match bs, h with
    | b₁ :: b₂ :: b₃ :: b₄ :: bs, h =>
      simp only [getCodepoint, Option.bind_eq_bind, Option.bind_eq_some_iff, Option.pure_def,
        Option.some.injEq, Prod.mk.injEq, Nat.shiftLeft_eq] at h
      obtain ⟨x₁, h₁, x₂, h₂, x₃, h₃, x₄, h₄, rfl, rfl⟩ := h
      refine ⟨[b₁, b₂, b₃, b₄], ?_, rfl⟩
      have hdigits := HexText.digits h₁ h₂ h₃ h₄
      simpa using hdigits
  · rintro ⟨digits, ⟨h₁, h₂, h₃, h₄⟩, rfl⟩
    simp [getCodepoint, h₁, h₂, h₃, h₄, Nat.shiftLeft_eq]

theorem or_shift (k : ℕ) {x : ℕ} (m : ℕ) (hx : x < 2 ^ k) : (m * 2 ^ k) ||| x = m * 2 ^ k + x := by
  rw [← Nat.shiftLeft_eq, ← Nat.shiftLeft_add_eq_or_of_lt hx]

theorem or_tail (n : ℕ) : 0x80 ||| (n &&& 0x3F) = n % 64 + 0x80 := by
  have hand : n &&& 0x3F = n % 64 := Nat.and_two_pow_sub_one_eq_mod n 6
  have hor := or_shift 7 1 (x := n % 64) (by omega)
  rw [hand, Nat.add_comm]
  simpa using hor

theorem or_lead {mark k x : ℕ} (hmark : mark % 2 ^ k = 0) (hx : x < 2 ^ k) :
    mark ||| x = x + mark := by
  obtain ⟨m, rfl⟩ := Nat.dvd_of_mod_eq_zero hmark
  rw [Nat.mul_comm, or_shift k m hx, Nat.add_comm]

/-- **The bytes of a code point** are those of its character. -/
theorem codepointBytes_toNat (c : Char) : codepointBytes c.toNat = String.utf8EncodeChar c := by
  have hc := Utf8.isChar c
  rw [Utf8.utf8EncodeChar_eq, codepointBytes]
  generalize c.toNat = n at hc ⊢
  simp only [Nat.shiftRight_eq_div_pow, or_tail]
  by_cases h1 : n ≤ 0x7F
  · rw [if_pos h1, if_pos (by omega)]
  · rw [if_neg h1, if_neg (by omega)]
    by_cases h2 : n ≤ 0x7FF
    · have hlead : 0xC0 ||| n / 2 ^ 6 = n / 64 % 32 + 0xC0 := by
        rw [or_lead (k := 5) rfl (by omega)]
        omega
      rw [if_pos h2, if_pos h2, hlead]
    · rw [if_neg h2, if_neg h2]
      by_cases h3 : n ≤ 0xFFFF
      · have hlead : 0xE0 ||| n / 2 ^ 12 = n / 4096 % 16 + 0xE0 := by
          rw [or_lead (k := 4) rfl (by omega)]
          omega
        rw [if_pos h3, if_pos h3, hlead]
      · have hlead : 0xF0 ||| n / 2 ^ 18 = n / 262144 % 8 + 0xF0 := by
          rw [or_lead (k := 3) rfl (by omega)]
          omega
        rw [if_neg h3, if_neg h3, hlead]

/-! ## Escapes -/

theorem unicodeEscape_iff {bs added rest : List UInt8} :
    unicodeEscape bs = some (added, rest) ↔
      ∃ c : Char, added = String.utf8EncodeChar c ∧
        ((∃ digits, HexText c.toNat digits ∧ bs = digits ++ rest) ∨
          ∃ high low, 0x10000 ≤ c.toNat ∧ HexText (0xD800 + (c.toNat - 0x10000) / 0x400) high ∧
            HexText (0xDC00 + (c.toNat - 0x10000) % 0x400) low ∧
              bs = high ++ byte '\\' :: byte 'u' :: low ++ rest) := by
  constructor
  · intro h
    rw [unicodeEscape] at h
    cases hfirst : getCodepoint bs with
    | none => rw [hfirst] at h; cases h
    | some first =>
      obtain ⟨n, more⟩ := first
      obtain ⟨high, hhigh, rfl⟩ := getCodepoint_iff.mp hfirst
      have hn := hhigh.lt
      rw [hfirst, Option.bind_eq_bind, Option.bind_some] at h
      dsimp only at h
      split_ifs at h with hsurrogate hlow
      · match more, h with
        | b₁ :: b₂ :: more, h =>
          dsimp only at h
          split_ifs at h with hescape
          obtain ⟨rfl, rfl⟩ := hescape
          cases hsecond : getCodepoint more with
          | none => rw [hsecond] at h; cases h
          | some second =>
            obtain ⟨m, more'⟩ := second
            obtain ⟨low, hlow, rfl⟩ := getCodepoint_iff.mp hsecond
            rw [hsecond, Option.bind_some] at h
            dsimp only at h
            split_ifs at h with hm
            simp only [Option.pure_def, Option.some.injEq, Prod.mk.injEq] at h
            obtain ⟨rfl, rfl⟩ := h
            have hshift : (n <<< 10) + m - 0x35FDC00 =
                0x10000 + (n - 0xD800) * 0x400 + (m - 0xDC00) := by
              rw [Nat.shiftLeft_eq]
              omega
            obtain ⟨c, hc⟩ := Utf8.exists_char
              (n := 0x10000 + (n - 0xD800) * 0x400 + (m - 0xDC00)) (by omega)
            refine ⟨c, ?_, Or.inr ⟨high, low, by omega, ?_, ?_, ?_⟩⟩
            · rw [hshift, ← hc, codepointBytes_toNat]
            · have hvalue : 0xD800 + (c.toNat - 0x10000) / 0x400 = n := by omega
              rwa [hvalue]
            · have hvalue : 0xDC00 + (c.toNat - 0x10000) % 0x400 = m := by omega
              rwa [hvalue]
            · simp
      · simp only [Option.pure_def, Option.some.injEq, Prod.mk.injEq] at h
        obtain ⟨rfl, rfl⟩ := h
        obtain ⟨c, hc⟩ := Utf8.exists_char (n := n) (by omega)
        refine ⟨c, ?_, Or.inl ⟨high, by rwa [hc], rfl⟩⟩
        rw [← hc, codepointBytes_toNat]
  · rintro ⟨c, rfl, ⟨digits, hdigits, rfl⟩ | ⟨high, low, hlarge, hhigh, hlow, rfl⟩⟩
    · have hc := Utf8.isChar c
      have hlt := hdigits.lt
      rw [unicodeEscape, getCodepoint_iff.mpr ⟨digits, hdigits, rfl⟩, Option.bind_eq_bind,
        Option.bind_some]
      dsimp only
      rw [if_neg (by omega), if_neg (by omega), codepointBytes_toNat]
      rfl
    · have hc := Utf8.isChar c
      have hfirst : getCodepoint (high ++ byte '\\' :: byte 'u' :: low ++ rest) =
          some (0xD800 + (c.toNat - 0x10000) / 0x400, byte '\\' :: byte 'u' :: low ++ rest) :=
        getCodepoint_iff.mpr ⟨high, hhigh, by simp⟩
      have hsecond : getCodepoint (low ++ rest) =
          some (0xDC00 + (c.toNat - 0x10000) % 0x400, rest) :=
        getCodepoint_iff.mpr ⟨low, hlow, rfl⟩
      rw [unicodeEscape, hfirst, Option.bind_eq_bind, Option.bind_some]
      dsimp only
      rw [if_pos (by omega)]
      simp only [List.cons_append, and_self, if_true]
      rw [hsecond, Option.bind_some]
      dsimp only
      rw [if_pos (by omega)]
      have hshift : ((0xD800 + (c.toNat - 0x10000) / 0x400) <<< 10) +
          (0xDC00 + (c.toNat - 0x10000) % 0x400) - 0x35FDC00 = c.toNat := by
        rw [Nat.shiftLeft_eq]
        omega
      rw [hshift, codepointBytes_toNat]
      rfl

theorem simpleEscape_iff {b x : UInt8} :
    simpleEscape b = some x ↔
      ∃ c : Char, String.utf8EncodeChar c = [x] ∧ (b, c) ∈ simpleEscapes := by
  constructor
  · intro h
    rw [simpleEscape] at h
    split_ifs at h with h1 h2 h3 h4 h5 h6 h7 h8
    · cases h; exact ⟨'\"', rfl, by simp [simpleEscapes, h1]⟩
    · cases h; exact ⟨'\\', rfl, by simp [simpleEscapes, h2]⟩
    · cases h; exact ⟨'/', rfl, by simp [simpleEscapes, h3]⟩
    · cases h; exact ⟨'\x08', rfl, by simp [simpleEscapes, h4]⟩
    · cases h; exact ⟨'\x0c', rfl, by simp [simpleEscapes, h5]⟩
    · cases h; exact ⟨'\n', rfl, by simp [simpleEscapes, h6]⟩
    · cases h; exact ⟨'\r', rfl, by simp [simpleEscapes, h7]⟩
    · cases h; exact ⟨'\t', rfl, by simp [simpleEscapes, h8]⟩
  · rintro ⟨c, hc, hmem⟩
    have hx : String.utf8EncodeChar c = (simpleEscape b).toList := by
      simp only [simpleEscapes, List.mem_cons, Prod.mk.injEq, List.not_mem_nil, or_false] at hmem
      rcases hmem with h | h | h | h | h | h | h | h <;> rw [h.1, h.2] <;> decide
    rw [hc] at hx
    cases hs : simpleEscape b with
    | none => rw [hs] at hx; cases hx
    | some y => rw [hs] at hx; cases hx; rfl

theorem nextByteInRange_iff {ranges : List (UInt8 × UInt8)} {bs bytes rest : List UInt8} :
    nextByteInRange ranges bs = some (bytes, rest) ↔
      Utf8.InRanges ranges bytes ∧ bs = bytes ++ rest := by
  induction ranges generalizing bs bytes with
  | nil =>
    constructor
    · rintro ⟨⟩
      exact ⟨List.Forall₂.nil, rfl⟩
    · rintro ⟨h, rfl⟩
      cases h
      rfl
  | cons r ranges ih =>
    obtain ⟨lo, hi⟩ := r
    cases bs with
    | nil =>
      constructor
      · intro h
        cases h
      · rintro ⟨h, hnil⟩
        cases h
        cases hnil
    | cons b bs =>
      rw [nextByteInRange]
      constructor
      · intro h
        split_ifs at h with hb
        obtain ⟨⟨bytes', rest'⟩, hmore, heq⟩ := Option.map_eq_some_iff.mp h
        cases heq
        obtain ⟨hranges, rfl⟩ := ih.mp hmore
        exact ⟨List.Forall₂.cons hb hranges, rfl⟩
      · rintro ⟨h, heq⟩
        cases h with
        | cons hb hranges =>
          obtain ⟨rfl, hbs⟩ := List.cons.inj heq
          rw [if_pos hb, ih.mpr ⟨hranges, hbs⟩]
          rfl

theorem ne_u_of_mem {b : UInt8} {c : Char} (h : (b, c) ∈ simpleEscapes) : b ≠ byte 'u' := by
  rintro rfl
  simp only [simpleEscapes, List.mem_cons, Prod.mk.injEq, List.not_mem_nil, or_false] at h
  rcases h with h | h | h | h | h | h | h | h <;> exact absurd h.1 (by decide)

theorem scanEscape_iff {bs added rest : List UInt8} :
    scanEscape bs = some (added, rest) ↔
      ∃ (c : Char) (text : List UInt8), added = String.utf8EncodeChar c ∧ bs = text ++ rest ∧
        Escaped c text := by
  cases bs with
  | nil =>
    constructor
    · intro h
      cases h
    · rintro ⟨c, text, -, hnil, htext⟩
      obtain ⟨rfl, -⟩ := List.append_eq_nil_iff.mp hnil.symm
      cases htext
  | cons b bs =>
    rw [scanEscape]
    by_cases hu : b = byte 'u'
    · subst hu
      rw [if_pos rfl, unicodeEscape_iff]
      constructor
      · rintro ⟨c, rfl, ⟨digits, hdigits, rfl⟩ | ⟨high, low, hlarge, hhigh, hlow, rfl⟩⟩
        · exact ⟨c, _, rfl, rfl, .unicode hdigits⟩
        · exact ⟨c, _, rfl, by simp, .surrogates hlarge hhigh hlow⟩
      · rintro ⟨c, text, rfl, hbs, htext⟩
        refine ⟨c, rfl, ?_⟩
        cases htext with
        | simple h => exact absurd (List.cons.inj hbs).1.symm (ne_u_of_mem h)
        | unicode h => exact Or.inl ⟨_, h, (List.cons.inj hbs).2⟩
        | surrogates hlarge hhigh hlow =>
          exact Or.inr ⟨_, _, hlarge, hhigh, hlow, (List.cons.inj hbs).2⟩
    · rw [if_neg hu]
      constructor
      · intro h
        obtain ⟨x, hx, heq⟩ := Option.map_eq_some_iff.mp h
        cases heq
        obtain ⟨c, hc, hmem⟩ := simpleEscape_iff.mp hx
        exact ⟨c, [b], hc.symm, rfl, .simple hmem⟩
      · rintro ⟨c, text, rfl, hbs, htext⟩
        cases htext with
        | @simple b' h =>
          obtain ⟨rfl, rfl⟩ := List.cons.inj hbs
          have hascii : ∃ x, String.utf8EncodeChar c = [x] := by
            simp only [simpleEscapes, List.mem_cons, Prod.mk.injEq, List.not_mem_nil,
              or_false] at h
            rcases h with h | h | h | h | h | h | h | h <;> rw [h.2] <;> exact ⟨_, rfl⟩
          obtain ⟨x, hx⟩ := hascii
          rw [simpleEscape_iff.mpr ⟨c, hx, h⟩, hx]
          rfl
        | unicode h => exact absurd (List.cons.inj hbs).1 hu
        | surrogates hlarge hhigh hlow => exact absurd (List.cons.inj hbs).1 hu

/-! ## One iteration -/

theorem plain_iff {c : Char} {a : UInt8} {bs : List UInt8}
    (h : String.utf8EncodeChar c = a :: bs) :
    0x20 ≤ c.toNat ∧ c ≠ '\"' ∧ c ≠ '\\' ↔ a ≠ byte '\"' ∧ a ≠ byte '\\' ∧ ¬ a ≤ 0x1F := by
  have hlead := Utf8.lead_utf8EncodeChar h
  have hbyte : ∀ d : Char, d.toNat ≤ 0x7F → (c = d ↔ a = byte d) := by
    intro d hd
    rw [byte, eq_comm (a := a), Utf8.ofNat_eq_iff (by omega), ← Char.toNat_inj]
    omega
  have hcontrol : (0x1F : UInt8).toNat = 31 := rfl
  rw [ne_eq, ne_eq, hbyte '\"' (by decide), hbyte '\\' (by decide), UInt8.le_iff_toNat_le,
    hcontrol]
  constructor
  · rintro ⟨h1, h2, h3⟩
    exact ⟨h2, h3, by omega⟩
  · rintro ⟨h1, h2, h3⟩
    exact ⟨by omega, h1, h2⟩

/-- **An iteration of the scanner** reads the spelling of one character. -/
theorem stringStep_added_iff {bs bytes rest : List UInt8} :
    stringStep bs = some (.added bytes rest) ↔
      ∃ (c : Char) (text : List UInt8), Spelled c text ∧ bs = text ++ rest ∧
        bytes = String.utf8EncodeChar c := by
  constructor
  · intro h
    cases bs with
    | nil => cases h
    | cons b bs =>
      rw [stringStep] at h
      split_ifs at h with hquote hsolidus hcontrol
      · cases h
      · obtain ⟨⟨added, rest'⟩, hescape, heq⟩ := Option.map_eq_some_iff.mp h
        cases heq
        obtain ⟨c, text, rfl, rfl, htext⟩ := scanEscape_iff.mp hescape
        exact ⟨c, _, .escaped htext, by rw [hsolidus]; rfl, rfl⟩
      · obtain ⟨ranges, hranges, hnext⟩ := Option.bind_eq_some_iff.mp h
        obtain ⟨⟨tail, rest'⟩, htail, heq⟩ := Option.map_eq_some_iff.mp hnext
        cases heq
        obtain ⟨hin, rfl⟩ := nextByteInRange_iff.mp htail
        obtain ⟨c, hc⟩ := Utf8.exists_char_iff.mpr ⟨ranges, hranges, hin⟩
        obtain ⟨h1, h2, h3⟩ := (plain_iff hc).mpr ⟨hquote, hsolidus, hcontrol⟩
        exact ⟨c, _, .plain h1 h2 h3, by rw [hc]; rfl, hc.symm⟩
  · rintro ⟨c, text, htext, rfl, rfl⟩
    cases htext with
    | plain hcontrol hquote hsolidus =>
      obtain ⟨a, bs, ranges, hc, hranges, hin⟩ := Utf8.tails_utf8EncodeChar c
      obtain ⟨h1, h2, h3⟩ := (plain_iff hc).mp ⟨hcontrol, hquote, hsolidus⟩
      rw [hc, List.cons_append, stringStep, if_neg h1, if_neg h2, if_neg h3, hranges,
        Option.bind_some, nextByteInRange_iff.mpr ⟨hin, rfl⟩]
      rfl
    | @escaped text h =>
      have hne : byte '\\' ≠ byte '\"' := by decide
      rw [List.cons_append, stringStep, if_neg hne, if_pos rfl,
        scanEscape_iff.mpr ⟨c, text, rfl, rfl, h⟩]
      rfl

theorem stringStep_closed_iff {bs rest : List UInt8} :
    stringStep bs = some (.closed rest) ↔ bs = byte '\"' :: rest := by
  constructor
  · intro h
    cases bs with
    | nil => cases h
    | cons b bs =>
      rw [stringStep] at h
      split_ifs at h with hquote hsolidus hcontrol
      · cases h
        rw [hquote]
      · obtain ⟨_, -, heq⟩ := Option.map_eq_some_iff.mp h
        cases heq
      · obtain ⟨_, -, hnext⟩ := Option.bind_eq_some_iff.mp h
        obtain ⟨_, -, heq⟩ := Option.map_eq_some_iff.mp hnext
        cases heq
  · rintro rfl
    rw [stringStep, if_pos rfl]

/-! ## The loop -/

theorem Spelled.ne_nil {c : Char} {text : List UInt8} (h : Spelled c text) : text ≠ [] := by
  cases h with
  | plain => exact String.utf8EncodeChar_ne_nil
  | escaped => exact List.cons_ne_nil _ _

/-- The loop reads the spelling of a text up to a quote; the bytes that are left are enough for
it. -/
theorem scanStringLoop_iff {buffer buffer' bs rest : List UInt8} {left : ℕ}
    (hleft : bs.length ≤ left) :
    scanStringLoop buffer left bs = some (buffer', rest) ↔
      ∃ cs text, StringText cs text ∧ bs = text ++ byte '\"' :: rest ∧
        buffer' = buffer ++ Utf8.encode cs := by
  induction left generalizing buffer bs with
  | zero =>
    obtain rfl := List.length_eq_zero_iff.mp (Nat.le_zero.mp hleft)
    constructor
    · intro h
      cases h
    · rintro ⟨cs, text, -, hnil, -⟩
      exact absurd hnil.symm (by simp)
  | succ left ih =>
    rw [scanStringLoop]
    constructor
    · intro h
      cases hstep : stringStep bs with
      | none => rw [hstep] at h; cases h
      | some step =>
        rw [hstep] at h
        cases step with
        | closed rest' =>
          cases h
          exact ⟨[], [], .nil, stringStep_closed_iff.mp hstep, (List.append_nil _).symm⟩
        | added bytes rest' =>
          obtain ⟨c, text, hc, rfl, rfl⟩ := stringStep_added_iff.mp hstep
          have hpos := List.length_pos_of_ne_nil hc.ne_nil
          rw [List.length_append] at hleft
          obtain ⟨cs, text', htext, rfl, rfl⟩ := (ih (by omega)).mp h
          exact ⟨c :: cs, text ++ text', .cons hc htext, (List.append_assoc _ _ _).symm,
            List.append_assoc _ _ _⟩
    · rintro ⟨cs, text, htext, rfl, rfl⟩
      cases htext with
      | nil => rw [List.nil_append, stringStep_closed_iff.mpr rfl]; simp
      | @cons c cs text text' hc htext =>
        have hpos := List.length_pos_of_ne_nil hc.ne_nil
        have hstep : stringStep (text ++ text' ++ byte '\"' :: rest) =
            some (.added (String.utf8EncodeChar c) (text' ++ byte '\"' :: rest)) :=
          stringStep_added_iff.mpr ⟨c, text, hc, List.append_assoc _ _ _, rfl⟩
        rw [List.append_assoc, List.length_append] at hleft
        rw [hstep]
        exact (ih (by omega)).mpr ⟨cs, text', htext, rfl, by simp⟩

/-- **The scanner reads exactly the spellings of texts** up to a quote; its buffer then has the
UTF-8 bytes of the text. -/
theorem scanString_iff {bs buffer rest : List UInt8} :
    scanString bs = some (buffer, rest) ↔
      ∃ cs text, StringText cs text ∧ bs = text ++ byte '\"' :: rest ∧
        buffer = Utf8.encode cs := by
  rw [scanString, scanStringLoop_iff le_rfl]
  rfl

end SyntheticArbitrage.JsonText
