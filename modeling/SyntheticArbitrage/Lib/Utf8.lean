import Mathlib.Data.List.Forall2
import Mathlib.Tactic.Common

/-!
# UTF-8

The bytes of a text are those of its characters, one after the other.  The bytes of a character are
its lead byte and bytes in the ranges that the lead byte asks for.

* `encode`: the bytes of a text; `decode`: the text of the bytes.
* `tails`: the ranges of the bytes after a lead byte.
* `exists_char_iff`: **a lead byte with bytes in its ranges is a character**, and the other way
  round.
* `decode_encode`: the text is read back from its bytes.
* `next`: one byte more, with the ranges of the bytes that are still owed; `reads_iff`: **bytes with
  which none are owed are those of a text**; `exists_reads_iff`: **bytes that can be read are those
  that begin a text.**
-/

namespace SyntheticArbitrage.Utf8

def encode (cs : List Char) : List UInt8 := cs.flatMap String.utf8EncodeChar

@[simp] theorem encode_nil : encode [] = [] := rfl

@[simp] theorem encode_cons (c : Char) (cs : List Char) :
    encode (c :: cs) = String.utf8EncodeChar c ++ encode cs := rfl

/-- The ranges of the bytes after a lead byte; `none` for a byte that leads no character. -/
def tails (a : UInt8) : Option (List (UInt8 × UInt8)) :=
  if a ≤ 0x7F then some []
  else if 0xC2 ≤ a ∧ a ≤ 0xDF then some [(0x80, 0xBF)]
  else if a = 0xE0 then some [(0xA0, 0xBF), (0x80, 0xBF)]
  else if 0xE1 ≤ a ∧ a ≤ 0xEC ∨ 0xEE ≤ a ∧ a ≤ 0xEF then some [(0x80, 0xBF), (0x80, 0xBF)]
  else if a = 0xED then some [(0x80, 0x9F), (0x80, 0xBF)]
  else if a = 0xF0 then some [(0x90, 0xBF), (0x80, 0xBF), (0x80, 0xBF)]
  else if 0xF1 ≤ a ∧ a ≤ 0xF3 then some [(0x80, 0xBF), (0x80, 0xBF), (0x80, 0xBF)]
  else if a = 0xF4 then some [(0x80, 0x8F), (0x80, 0xBF), (0x80, 0xBF)]
  else none

def InRanges : List (UInt8 × UInt8) → List UInt8 → Prop :=
  List.Forall₂ fun r b => r.1 ≤ b ∧ b ≤ r.2

/-! ## The bytes of a character -/

theorem ofNat_eq_iff {n : ℕ} {b : UInt8} (h : n < 256) : UInt8.ofNat n = b ↔ n = b.toNat := by
  rw [← UInt8.toNat_inj, UInt8.toNat_ofNat_of_lt' h]

theorem exists_char {n : ℕ} (h : n < 0xD800 ∨ 0xDFFF < n ∧ n < 0x110000) :
    ∃ c : Char, c.toNat = n := ⟨Char.ofNatAux n h, rfl⟩

theorem isChar (c : Char) : c.toNat < 0xD800 ∨ 0xDFFF < c.toNat ∧ c.toNat < 0x110000 := c.valid

theorem utf8EncodeChar_eq (c : Char) : String.utf8EncodeChar c =
    if c.toNat ≤ 0x7F then [UInt8.ofNat c.toNat]
    else if c.toNat ≤ 0x7FF then
      [UInt8.ofNat (c.toNat / 64 % 32 + 0xC0), UInt8.ofNat (c.toNat % 64 + 0x80)]
    else if c.toNat ≤ 0xFFFF then
      [UInt8.ofNat (c.toNat / 4096 % 16 + 0xE0), UInt8.ofNat (c.toNat / 64 % 64 + 0x80),
        UInt8.ofNat (c.toNat % 64 + 0x80)]
    else
      [UInt8.ofNat (c.toNat / 262144 % 8 + 0xF0), UInt8.ofNat (c.toNat / 4096 % 64 + 0x80),
        UInt8.ofNat (c.toNat / 64 % 64 + 0x80), UInt8.ofNat (c.toNat % 64 + 0x80)] := rfl

theorem toNat_ofNat {n : ℕ} (h : n < 256) : (UInt8.ofNat n).toNat = n := UInt8.toNat_ofNat_of_lt' h

theorem tails_eq (a : UInt8) : tails a =
    if a.toNat ≤ 0x7F then some []
    else if 0xC2 ≤ a.toNat ∧ a.toNat ≤ 0xDF then some [(0x80, 0xBF)]
    else if a.toNat = 0xE0 then some [(0xA0, 0xBF), (0x80, 0xBF)]
    else if 0xE1 ≤ a.toNat ∧ a.toNat ≤ 0xEC ∨ 0xEE ≤ a.toNat ∧ a.toNat ≤ 0xEF then
      some [(0x80, 0xBF), (0x80, 0xBF)]
    else if a.toNat = 0xED then some [(0x80, 0x9F), (0x80, 0xBF)]
    else if a.toNat = 0xF0 then some [(0x90, 0xBF), (0x80, 0xBF), (0x80, 0xBF)]
    else if 0xF1 ≤ a.toNat ∧ a.toNat ≤ 0xF3 then some [(0x80, 0xBF), (0x80, 0xBF), (0x80, 0xBF)]
    else if a.toNat = 0xF4 then some [(0x80, 0x8F), (0x80, 0xBF), (0x80, 0xBF)]
    else none := by
  simp only [tails, UInt8.le_iff_toNat_le, ← UInt8.toNat_inj]
  rfl

theorem inRange_ofNat {n : ℕ} {lo hi : UInt8} (hlo : lo.toNat ≤ n) (hhi : n ≤ hi.toNat) :
    lo ≤ UInt8.ofNat n ∧ UInt8.ofNat n ≤ hi := by
  have hlt : n < 256 := Nat.lt_of_le_of_lt hhi hi.toNat_lt
  rw [UInt8.le_iff_toNat_le, UInt8.le_iff_toNat_le, toNat_ofNat hlt]
  exact ⟨hlo, hhi⟩

theorem inRange_tail (n : ℕ) :
    (0x80 : UInt8) ≤ UInt8.ofNat (n % 64 + 0x80) ∧ UInt8.ofNat (n % 64 + 0x80) ≤ 0xBF :=
  inRange_ofNat (Nat.le_add_left _ _) (show n % 64 + 0x80 ≤ 191 by omega)

theorem tails_utf8EncodeChar (c : Char) :
    ∃ a bs rs, String.utf8EncodeChar c = a :: bs ∧ tails a = some rs ∧ InRanges rs bs := by
  have hc := isChar c
  rw [utf8EncodeChar_eq]
  generalize c.toNat = n at hc ⊢
  split_ifs with h1 h2 h3
  · refine ⟨_, _, [], rfl, ?_, List.Forall₂.nil⟩
    rw [tails_eq, toNat_ofNat (by omega), if_pos h1]
  · refine ⟨_, _, [(0x80, 0xBF)], rfl, ?_, .cons (inRange_tail n) .nil⟩
    rw [tails_eq, toNat_ofNat (by omega), if_neg (by omega), if_pos (by omega)]
  · -- the ranges keep out the longer forms of shorter characters and the surrogates
    have hlead : (UInt8.ofNat (n / 4096 % 16 + 0xE0)).toNat = n / 4096 % 16 + 0xE0 :=
      toNat_ofNat (by omega)
    by_cases h0 : n / 4096 = 0
    · refine ⟨_, _, [(0xA0, 0xBF), (0x80, 0xBF)], rfl, ?_,
        .cons (inRange_ofNat ?_ ?_) (.cons (inRange_tail n) .nil)⟩
      · rw [tails_eq, hlead, if_neg (by omega), if_neg (by omega), if_pos (by omega)]
      · show 160 ≤ _
        omega
      · show _ ≤ 191
        omega
    · by_cases h13 : n / 4096 = 13
      · refine ⟨_, _, [(0x80, 0x9F), (0x80, 0xBF)], rfl, ?_,
          .cons (inRange_ofNat ?_ ?_) (.cons (inRange_tail n) .nil)⟩
        · rw [tails_eq, hlead, if_neg (by omega), if_neg (by omega), if_neg (by omega),
            if_neg (by omega), if_pos (by omega)]
        · show 128 ≤ _
          omega
        · show _ ≤ 159
          omega
      · refine ⟨_, _, [(0x80, 0xBF), (0x80, 0xBF)], rfl, ?_,
          .cons (inRange_tail _) (.cons (inRange_tail n) .nil)⟩
        rw [tails_eq, hlead, if_neg (by omega), if_neg (by omega), if_neg (by omega),
          if_pos (by omega)]
  · have hlead : (UInt8.ofNat (n / 262144 % 8 + 0xF0)).toNat = n / 262144 % 8 + 0xF0 :=
      toNat_ofNat (by omega)
    by_cases h0 : n / 262144 = 0
    · refine ⟨_, _, [(0x90, 0xBF), (0x80, 0xBF), (0x80, 0xBF)], rfl, ?_,
        .cons (inRange_ofNat ?_ ?_) (.cons (inRange_tail _) (.cons (inRange_tail n) .nil))⟩
      · rw [tails_eq, hlead, if_neg (by omega), if_neg (by omega), if_neg (by omega),
          if_neg (by omega), if_neg (by omega), if_pos (by omega)]
      · show 144 ≤ _
        omega
      · show _ ≤ 191
        omega
    · by_cases h4 : n / 262144 = 4
      · refine ⟨_, _, [(0x80, 0x8F), (0x80, 0xBF), (0x80, 0xBF)], rfl, ?_,
          .cons (inRange_ofNat ?_ ?_) (.cons (inRange_tail _) (.cons (inRange_tail n) .nil))⟩
        · rw [tails_eq, hlead, if_neg (by omega), if_neg (by omega), if_neg (by omega),
            if_neg (by omega), if_neg (by omega), if_neg (by omega), if_neg (by omega),
            if_pos (by omega)]
        · show 128 ≤ _
          omega
        · show _ ≤ 143
          omega
      · refine ⟨_, _, [(0x80, 0xBF), (0x80, 0xBF), (0x80, 0xBF)], rfl, ?_,
          .cons (inRange_tail _) (.cons (inRange_tail _) (.cons (inRange_tail n) .nil))⟩
        rw [tails_eq, hlead, if_neg (by omega), if_neg (by omega), if_neg (by omega),
          if_neg (by omega), if_neg (by omega), if_neg (by omega), if_pos (by omega)]

theorem lead_utf8EncodeChar {c : Char} {a : UInt8} {bs : List UInt8}
    (h : String.utf8EncodeChar c = a :: bs) :
    a.toNat = c.toNat ∨ 0x7F < a.toNat ∧ 0x7F < c.toNat := by
  have hc := isChar c
  rw [utf8EncodeChar_eq] at h
  split_ifs at h with h1 h2 h3
  all_goals
    rw [List.cons.injEq, ofNat_eq_iff (by omega)] at h
    omega

/-! ## The character of the bytes -/

theorem char_of_one {a : UInt8} (h : a.toNat ≤ 0x7F) :
    ∃ c, String.utf8EncodeChar c = [a] := by
  obtain ⟨c, hc⟩ := exists_char (n := a.toNat) (by omega)
  refine ⟨c, ?_⟩
  rw [utf8EncodeChar_eq, hc, if_pos h, UInt8.ofNat_toNat]

theorem char_of_two {a b : UInt8} (ha : 0xC2 ≤ a.toNat ∧ a.toNat ≤ 0xDF)
    (hb : 0x80 ≤ b.toNat ∧ b.toNat ≤ 0xBF) : ∃ c, String.utf8EncodeChar c = [a, b] := by
  obtain ⟨c, hc⟩ := exists_char (n := (a.toNat - 0xC0) * 64 + (b.toNat - 0x80)) (by omega)
  refine ⟨c, ?_⟩
  rw [utf8EncodeChar_eq, hc, if_neg (by omega), if_pos (by omega), List.cons.injEq,
    List.cons.injEq, ofNat_eq_iff (by omega), ofNat_eq_iff (by omega)]
  exact ⟨by omega, by omega, rfl⟩

theorem char_of_three {a b d : UInt8} (ha : 0xE0 ≤ a.toNat ∧ a.toNat ≤ 0xEF)
    (hb : 0x80 ≤ b.toNat ∧ b.toNat ≤ 0xBF) (hd : 0x80 ≤ d.toNat ∧ d.toNat ≤ 0xBF)
    (hlong : a.toNat = 0xE0 → 0xA0 ≤ b.toNat) (hsurrogate : a.toNat = 0xED → b.toNat ≤ 0x9F) :
    ∃ c, String.utf8EncodeChar c = [a, b, d] := by
  obtain ⟨c, hc⟩ := exists_char
    (n := (a.toNat - 0xE0) * 4096 + (b.toNat - 0x80) * 64 + (d.toNat - 0x80)) (by omega)
  refine ⟨c, ?_⟩
  rw [utf8EncodeChar_eq, hc, if_neg (by omega), if_neg (by omega), if_pos (by omega),
    List.cons.injEq, List.cons.injEq, List.cons.injEq, ofNat_eq_iff (by omega),
    ofNat_eq_iff (by omega), ofNat_eq_iff (by omega)]
  exact ⟨by omega, by omega, by omega, rfl⟩

theorem char_of_four {a b d e : UInt8} (ha : 0xF0 ≤ a.toNat ∧ a.toNat ≤ 0xF4)
    (hb : 0x80 ≤ b.toNat ∧ b.toNat ≤ 0xBF) (hd : 0x80 ≤ d.toNat ∧ d.toNat ≤ 0xBF)
    (he : 0x80 ≤ e.toNat ∧ e.toNat ≤ 0xBF) (hlong : a.toNat = 0xF0 → 0x90 ≤ b.toNat)
    (hlast : a.toNat = 0xF4 → b.toNat ≤ 0x8F) :
    ∃ c, String.utf8EncodeChar c = [a, b, d, e] := by
  obtain ⟨c, hc⟩ := exists_char
    (n := (a.toNat - 0xF0) * 262144 + (b.toNat - 0x80) * 4096 + (d.toNat - 0x80) * 64 +
      (e.toNat - 0x80)) (by omega)
  refine ⟨c, ?_⟩
  rw [utf8EncodeChar_eq, hc, if_neg (by omega), if_neg (by omega), if_neg (by omega),
    List.cons.injEq, List.cons.injEq, List.cons.injEq, List.cons.injEq, ofNat_eq_iff (by omega),
    ofNat_eq_iff (by omega), ofNat_eq_iff (by omega), ofNat_eq_iff (by omega)]
  exact ⟨by omega, by omega, by omega, by omega, rfl⟩

theorem inRanges_cons {lo hi : UInt8} {rs : List (UInt8 × UInt8)} {bs : List UInt8}
    (h : InRanges ((lo, hi) :: rs) bs) :
    ∃ b bs', bs = b :: bs' ∧ (lo.toNat ≤ b.toNat ∧ b.toNat ≤ hi.toNat) ∧ InRanges rs bs' := by
  obtain ⟨b, bs', ⟨hlo, hhi⟩, hrest, rfl⟩ := List.forall₂_cons_left_iff.mp h
  exact ⟨b, bs', rfl, ⟨UInt8.le_iff_toNat_le.mp hlo, UInt8.le_iff_toNat_le.mp hhi⟩, hrest⟩

theorem char_of_tails {a : UInt8} {bs : List UInt8} {rs : List (UInt8 × UInt8)}
    (ha : tails a = some rs) (hbs : InRanges rs bs) :
    ∃ c, String.utf8EncodeChar c = a :: bs := by
  rw [tails_eq] at ha
  split_ifs at ha with h1 h2 h3 h4 h5 h6 h7 h8
  · cases ha
    cases hbs
    exact char_of_one h1
  · cases ha
    obtain ⟨b, bs, rfl, hb, hbs⟩ := inRanges_cons hbs
    cases hbs
    exact char_of_two h2 hb
  all_goals cases ha
  all_goals obtain ⟨b, bs, rfl, hb, hbs⟩ := inRanges_cons hbs
  all_goals obtain ⟨d, bs, rfl, hd, hbs⟩ := inRanges_cons hbs
  all_goals simp only [UInt8.reduceToNat] at hb hd
  · cases hbs
    exact char_of_three (by omega) (by omega) hd (by omega) (by omega)
  · cases hbs
    exact char_of_three (by omega) (by omega) hd (by omega) (by omega)
  · cases hbs
    exact char_of_three (by omega) (by omega) hd (by omega) (by omega)
  all_goals obtain ⟨e, bs, rfl, he, hbs⟩ := inRanges_cons hbs
  all_goals simp only [UInt8.reduceToNat] at he
  all_goals cases hbs
  · exact char_of_four (by omega) (by omega) hd he (by omega) (by omega)
  · exact char_of_four (by omega) (by omega) hd he (by omega) (by omega)
  · exact char_of_four (by omega) (by omega) hd he (by omega) (by omega)

/-- **A lead byte with bytes in its ranges is a character**, and the other way round. -/
theorem exists_char_iff {a : UInt8} {bs : List UInt8} :
    (∃ c, String.utf8EncodeChar c = a :: bs) ↔ ∃ rs, tails a = some rs ∧ InRanges rs bs := by
  constructor
  · rintro ⟨c, hc⟩
    obtain ⟨a', bs', rs, hc', ha, hbs⟩ := tails_utf8EncodeChar c
    rw [hc, List.cons.injEq] at hc'
    obtain ⟨rfl, rfl⟩ := hc'
    exact ⟨rs, ha, hbs⟩
  · rintro ⟨rs, ha, hbs⟩
    exact char_of_tails ha hbs

/-! ## Decoding -/

/-- The characters of the bytes, when `k` bytes of a character are still to come and those before
make the number `n`. -/
def decodeFrom (n k : ℕ) : List UInt8 → List Char
  | [] => []
  | b :: bs =>
    match k with
    | 0 =>
      if b.toNat ≤ 0x7F then Char.ofNat b.toNat :: decodeFrom 0 0 bs
      else if b.toNat ≤ 0xDF then decodeFrom (b.toNat % 32) 1 bs
      else if b.toNat ≤ 0xEF then decodeFrom (b.toNat % 16) 2 bs
      else decodeFrom (b.toNat % 8) 3 bs
    | 1 => Char.ofNat (n * 64 + b.toNat % 64) :: decodeFrom 0 0 bs
    | k + 2 => decodeFrom (n * 64 + b.toNat % 64) (k + 1) bs

def decode (bs : List UInt8) : List Char := decodeFrom 0 0 bs

theorem decodeFrom_last {n : ℕ} {b : UInt8} (bs : List UInt8) {c : Char}
    (h : n * 64 + b.toNat % 64 = c.toNat) : decodeFrom n 1 (b :: bs) = c :: decode bs := by
  rw [decodeFrom, h, Char.ofNat_toNat, decode]

theorem decodeFrom_next {n m k : ℕ} {b : UInt8} (bs : List UInt8)
    (h : n * 64 + b.toNat % 64 = m) :
    decodeFrom n (k + 2) (b :: bs) = decodeFrom m (k + 1) bs := by
  rw [decodeFrom, h]

theorem decode_utf8EncodeChar_append (c : Char) (bs : List UInt8) :
    decode (String.utf8EncodeChar c ++ bs) = c :: decode bs := by
  have hc := isChar c
  rw [utf8EncodeChar_eq]
  split_ifs with h1 h2 h3
  · have hlead : (UInt8.ofNat c.toNat).toNat = c.toNat := toNat_ofNat (by omega)
    rw [List.singleton_append, decode, decodeFrom, hlead, if_pos h1, Char.ofNat_toNat]
    rfl
  · have hlead : (UInt8.ofNat (c.toNat / 64 % 32 + 0xC0)).toNat = c.toNat / 64 % 32 + 0xC0 :=
      toNat_ofNat (by omega)
    have hb : (UInt8.ofNat (c.toNat % 64 + 0x80)).toNat = c.toNat % 64 + 0x80 :=
      toNat_ofNat (by omega)
    rw [List.cons_append, decode, decodeFrom, hlead, if_neg (by omega), if_pos (by omega)]
    exact decodeFrom_last bs (by omega)
  · have hlead : (UInt8.ofNat (c.toNat / 4096 % 16 + 0xE0)).toNat = c.toNat / 4096 % 16 + 0xE0 :=
      toNat_ofNat (by omega)
    have hb : (UInt8.ofNat (c.toNat / 64 % 64 + 0x80)).toNat = c.toNat / 64 % 64 + 0x80 :=
      toNat_ofNat (by omega)
    have hd : (UInt8.ofNat (c.toNat % 64 + 0x80)).toNat = c.toNat % 64 + 0x80 :=
      toNat_ofNat (by omega)
    rw [List.cons_append, decode, decodeFrom, hlead, if_neg (by omega), if_neg (by omega),
      if_pos (by omega)]
    rw [List.cons_append, decodeFrom_next _ rfl]
    exact decodeFrom_last bs (by omega)
  · have hlead : (UInt8.ofNat (c.toNat / 262144 % 8 + 0xF0)).toNat =
        c.toNat / 262144 % 8 + 0xF0 := toNat_ofNat (by omega)
    have hb : (UInt8.ofNat (c.toNat / 4096 % 64 + 0x80)).toNat = c.toNat / 4096 % 64 + 0x80 :=
      toNat_ofNat (by omega)
    have hd : (UInt8.ofNat (c.toNat / 64 % 64 + 0x80)).toNat = c.toNat / 64 % 64 + 0x80 :=
      toNat_ofNat (by omega)
    have he : (UInt8.ofNat (c.toNat % 64 + 0x80)).toNat = c.toNat % 64 + 0x80 :=
      toNat_ofNat (by omega)
    rw [List.cons_append, decode, decodeFrom, hlead, if_neg (by omega), if_neg (by omega),
      if_neg (by omega)]
    rw [List.cons_append, decodeFrom_next _ rfl, List.cons_append, decodeFrom_next _ rfl]
    exact decodeFrom_last bs (by omega)

/-- **The text is read back from its bytes.** -/
theorem decode_encode (cs : List Char) : decode (encode cs) = cs := by
  induction cs with
  | nil => rfl
  | cons c cs ih => rw [encode_cons, decode_utf8EncodeChar_append, ih]

/-! ## Byte by byte -/

/-- The ranges of the bytes that are owed after one byte more; `none` where no text goes on so. -/
def next : List (UInt8 × UInt8) → UInt8 → Option (List (UInt8 × UInt8))
  | [], a => tails a
  | (lo, hi) :: rs, b => if lo ≤ b ∧ b ≤ hi then some rs else none

/-- The ranges that are owed after some bytes. -/
def reads (rs : List (UInt8 × UInt8)) (bs : List UInt8) : Option (List (UInt8 × UInt8)) :=
  bs.foldlM next rs

theorem reads_cons (rs : List (UInt8 × UInt8)) (b : UInt8) (bs : List UInt8) :
    reads rs (b :: bs) = (next rs b).bind fun rs' => reads rs' bs := List.foldlM_cons

theorem reads_append (rs : List (UInt8 × UInt8)) (bs more : List UInt8) :
    reads rs (bs ++ more) = (reads rs bs).bind fun rs' => reads rs' more := List.foldlM_append

theorem reads_of_inRanges {rs : List (UInt8 × UInt8)} {bs : List UInt8} (h : InRanges rs bs)
    (more : List UInt8) : reads rs (bs ++ more) = reads [] more := by
  induction h with
  | nil => rfl
  | cons hb _ ih =>
    rw [List.cons_append, reads_cons, next, if_pos hb]
    exact ih

theorem reads_encode (cs : List Char) (more : List UInt8) :
    reads [] (encode cs ++ more) = reads [] more := by
  induction cs with
  | nil => rfl
  | cons c cs ih =>
    obtain ⟨a, bs, rs, hc, ha, hbs⟩ := tails_utf8EncodeChar c
    rw [encode_cons, hc, List.cons_append, List.cons_append, reads_cons, next, ha,
      Option.bind_some, List.append_assoc, reads_of_inRanges hbs, ih]

theorem exists_of_reads {rs rs' : List (UInt8 × UInt8)} {bs : List UInt8}
    (h : reads rs bs = some rs') {more : List UInt8} (hmore : InRanges rs' more) :
    ∃ tail cs, bs ++ more = tail ++ encode cs ∧ InRanges rs tail := by
  induction bs generalizing rs with
  | nil =>
    cases h
    exact ⟨more, [], by simp, hmore⟩
  | cons b bs ih =>
    rw [reads_cons] at h
    obtain ⟨rs₁, hnext, h⟩ := Option.bind_eq_some_iff.mp h
    obtain ⟨tail, cs, htail, hranges⟩ := ih h
    cases rs with
    | nil =>
      -- a lead byte, with which a character begins
      obtain ⟨c, hc⟩ := exists_char_iff.mpr ⟨rs₁, hnext, hranges⟩
      refine ⟨[], c :: cs, ?_, List.Forall₂.nil⟩
      rw [List.cons_append, htail, encode_cons, hc]
      rfl
    | cons r rs =>
      obtain ⟨lo, hi⟩ := r
      rw [next] at hnext
      split_ifs at hnext with hb
      cases hnext
      refine ⟨b :: tail, cs, ?_, .cons hb hranges⟩
      rw [List.cons_append, htail, List.cons_append]

/-- **Bytes with which none are owed are those of a text.** -/
theorem reads_iff {bs : List UInt8} : reads [] bs = some [] ↔ ∃ cs, bs = encode cs := by
  constructor
  · intro h
    obtain ⟨tail, cs, htail, hranges⟩ := exists_of_reads h List.Forall₂.nil
    cases hranges
    rw [List.append_nil, List.nil_append] at htail
    exact ⟨cs, htail⟩
  · rintro ⟨cs, rfl⟩
    have h := reads_encode cs []
    rwa [List.append_nil] at h

/-- The ranges that are owed can be filled. -/
def Fillable (rs : List (UInt8 × UInt8)) : Prop := ∀ r ∈ rs, r.1 ≤ r.2

theorem fillable_of_all {rs : List (UInt8 × UInt8)} (h : rs.all (fun r => r.1 ≤ r.2) = true) :
    Fillable rs := fun r hr => of_decide_eq_true (List.all_eq_true.mp h r hr)

theorem fillable_tails {a : UInt8} {rs : List (UInt8 × UInt8)} (h : tails a = some rs) :
    Fillable rs := by
  rw [tails] at h
  split_ifs at h
  all_goals
    cases h
    exact fillable_of_all rfl

theorem Fillable.next {rs rs' : List (UInt8 × UInt8)} {b : UInt8} (hrs : Fillable rs)
    (h : next rs b = some rs') : Fillable rs' := by
  cases rs with
  | nil => exact fillable_tails h
  | cons r rs =>
    obtain ⟨lo, hi⟩ := r
    rw [Utf8.next] at h
    split_ifs at h
    cases h
    exact (List.forall_mem_cons.mp hrs).2

theorem Fillable.reads {rs rs' : List (UInt8 × UInt8)} {bs : List UInt8} (hrs : Fillable rs)
    (h : reads rs bs = some rs') : Fillable rs' := by
  induction bs generalizing rs with
  | nil =>
    cases h
    exact hrs
  | cons b bs ih =>
    rw [reads_cons] at h
    obtain ⟨rs₁, hnext, h⟩ := Option.bind_eq_some_iff.mp h
    exact ih (hrs.next hnext) h

theorem Fillable.inRanges {rs : List (UInt8 × UInt8)} (hrs : Fillable rs) :
    InRanges rs (rs.map Prod.fst) := by
  induction rs with
  | nil => exact .nil
  | cons r rs ih =>
    obtain ⟨hr, hrs⟩ := List.forall_mem_cons.mp hrs
    exact .cons ⟨UInt8.le_refl r.1, hr⟩ (ih hrs)

/-- **Bytes that can be read are those that begin a text.** -/
theorem exists_reads_iff {bs : List UInt8} :
    (∃ rs, reads [] bs = some rs) ↔ ∃ more cs, bs ++ more = encode cs := by
  constructor
  · rintro ⟨rs, h⟩
    have hrs : Fillable rs := Fillable.reads (List.forall_mem_nil _) h
    obtain ⟨tail, cs, htail, hranges⟩ := exists_of_reads h hrs.inRanges
    cases hranges
    exact ⟨_, cs, htail⟩
  · rintro ⟨more, cs, h⟩
    have hread : reads [] (bs ++ more) = some [] := reads_iff.mpr ⟨cs, h⟩
    rw [reads_append] at hread
    obtain ⟨rs, hrs, -⟩ := Option.bind_eq_some_iff.mp hread
    exact ⟨rs, hrs⟩

end SyntheticArbitrage.Utf8
