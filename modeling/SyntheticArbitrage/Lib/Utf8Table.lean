import SyntheticArbitrage.Lib.Utf8
import Mathlib.Algebra.Group.Nat.Defs

/-!
# A table that reads UTF-8

The automaton by table that is in wide use: a byte has one of twelve classes, and a state with a
class gives the next state.

* `utf8d`: the table; `step`: one byte.
* `owed_step`: **the table reads the bytes that are owed**; `owed_foldl` the same for more bytes.
* `foldl_utf8EncodeChar`: a character leads back to the state that accepts, with its code point.
-/

namespace SyntheticArbitrage.Utf8Table

open Utf8

/-- The classes of the bytes, then the states after each of the nine states, sixteen classes for
each. -/
def utf8d : List ℕ := [
  0, 0, 0, 0, 0, 0, 0, 0, 0, 0, 0, 0, 0, 0, 0, 0, 0, 0, 0, 0, 0, 0, 0, 0, 0, 0, 0, 0, 0, 0, 0, 0,
  0, 0, 0, 0, 0, 0, 0, 0, 0, 0, 0, 0, 0, 0, 0, 0, 0, 0, 0, 0, 0, 0, 0, 0, 0, 0, 0, 0, 0, 0, 0, 0,
  0, 0, 0, 0, 0, 0, 0, 0, 0, 0, 0, 0, 0, 0, 0, 0, 0, 0, 0, 0, 0, 0, 0, 0, 0, 0, 0, 0, 0, 0, 0, 0,
  0, 0, 0, 0, 0, 0, 0, 0, 0, 0, 0, 0, 0, 0, 0, 0, 0, 0, 0, 0, 0, 0, 0, 0, 0, 0, 0, 0, 0, 0, 0, 0,
  1, 1, 1, 1, 1, 1, 1, 1, 1, 1, 1, 1, 1, 1, 1, 1, 9, 9, 9, 9, 9, 9, 9, 9, 9, 9, 9, 9, 9, 9, 9, 9,
  7, 7, 7, 7, 7, 7, 7, 7, 7, 7, 7, 7, 7, 7, 7, 7, 7, 7, 7, 7, 7, 7, 7, 7, 7, 7, 7, 7, 7, 7, 7, 7,
  8, 8, 2, 2, 2, 2, 2, 2, 2, 2, 2, 2, 2, 2, 2, 2, 2, 2, 2, 2, 2, 2, 2, 2, 2, 2, 2, 2, 2, 2, 2, 2,
  10, 3, 3, 3, 3, 3, 3, 3, 3, 3, 3, 3, 3, 4, 3, 3,
  11, 6, 6, 6, 5, 8, 8, 8, 8, 8, 8, 8, 8, 8, 8, 8,
  0, 1, 2, 3, 5, 8, 7, 1, 1, 1, 4, 6, 1, 1, 1, 1,
  1, 1, 1, 1, 1, 1, 1, 1, 1, 1, 1, 1, 1, 1, 1, 1, 1, 0, 1, 1, 1, 1, 1, 0, 1, 0, 1, 1, 1, 1, 1, 1,
  1, 2, 1, 1, 1, 1, 1, 2, 1, 2, 1, 1, 1, 1, 1, 1, 1, 1, 1, 1, 1, 1, 1, 2, 1, 1, 1, 1, 1, 1, 1, 1,
  1, 2, 1, 1, 1, 1, 1, 1, 1, 2, 1, 1, 1, 1, 1, 1, 1, 1, 1, 1, 1, 1, 1, 3, 1, 3, 1, 1, 1, 1, 1, 1,
  1, 3, 1, 1, 1, 1, 1, 3, 1, 3, 1, 1, 1, 1, 1, 1, 1, 3, 1, 1, 1, 1, 1, 1, 1, 1, 1, 1, 1, 1, 1, 1]

/-- The state with which a text begins and ends. -/
def utf8Accept : ℕ := 0

/-- The state after a byte that no text has there. -/
def utf8Reject : ℕ := 1

def byteType (byte : UInt8) : ℕ := utf8d.getD byte.toNat utf8Reject

def step (s : ℕ × UInt32) (byte : UInt8) : ℕ × UInt32 :=
  (utf8d.getD (256 + s.1 * 16 + byteType byte) utf8Reject,
    if s.1 ≠ utf8Accept then (byte.toUInt32 &&& 0x3F) ||| (s.2 <<< (6 : UInt32))
    else ((0xFF : UInt32) >>> UInt32.ofNat (byteType byte)) &&& byte.toUInt32)

/-- The ranges of the bytes that a state waits for; `none` for the one that rejects. -/
def owed : ℕ → Option (List (UInt8 × UInt8))
  | 0 => some []
  | 2 => some [(0x80, 0xBF)]
  | 3 => some [(0x80, 0xBF), (0x80, 0xBF)]
  | 4 => some [(0xA0, 0xBF), (0x80, 0xBF)]
  | 5 => some [(0x80, 0x9F), (0x80, 0xBF)]
  | 6 => some [(0x90, 0xBF), (0x80, 0xBF), (0x80, 0xBF)]
  | 7 => some [(0x80, 0xBF), (0x80, 0xBF), (0x80, 0xBF)]
  | 8 => some [(0x80, 0x8F), (0x80, 0xBF), (0x80, 0xBF)]
  | _ => none

theorem lt_of_owed {s : ℕ} (h : owed s ≠ none) : s < 9 := by
  by_contra hle
  obtain ⟨n, hn⟩ := Nat.exists_eq_add_of_le (Nat.le_of_not_lt hle)
  rw [hn, Nat.add_comm] at h
  exact h rfl

/-- The first byte of a class. -/
def ofType : ℕ → UInt8
  | 0 => 0x00
  | 1 => 0x80
  | 2 => 0xC2
  | 3 => 0xE1
  | 4 => 0xED
  | 5 => 0xF4
  | 6 => 0xF1
  | 7 => 0xA0
  | 8 => 0xC0
  | 9 => 0x90
  | 10 => 0xE0
  | _ => 0xF0

theorem length_utf8d : utf8d.length = 400 := by decide +kernel

theorem getD_utf8d {i : ℕ} (h : i < 400) : utf8d[i]? = some (utf8d.getD i utf8Reject) := by
  have hi : i < utf8d.length := by rwa [length_utf8d]
  rw [List.getD_eq_getElem?_getD, List.getElem?_eq_getElem hi, Option.getD_some]

theorem next_ofType_of_mem : ∀ p ∈ (utf8d.take 256).zipIdx, p.1 < 12 ∧ ∀ s < 9,
    (owed s).bind (fun rs => next rs (ofType p.1)) =
      (owed s).bind fun rs => next rs (UInt8.ofNat p.2) := by
  decide +kernel

theorem next_ofType (byte : UInt8) : byteType byte < 12 ∧ ∀ s < 9,
    (owed s).bind (fun rs => next rs (ofType (byteType byte))) =
      (owed s).bind fun rs => next rs byte := by
  have hmem : (byteType byte, byte.toNat) ∈ (utf8d.take 256).zipIdx := by
    have hlt := byte.toNat_lt
    rw [List.mem_zipIdx_iff_getElem?, List.getElem?_take_of_lt hlt, getD_utf8d (by omega)]
    rfl
  have h := next_ofType_of_mem _ hmem
  rwa [UInt8.ofNat_toNat] at h

theorem owed_of_mem : ∀ p ∈ (utf8d.drop 256).zipIdx, p.2 % 16 < 12 →
    owed p.1 = (owed (p.2 / 16)).bind fun rs => next rs (ofType (p.2 % 16)) := by
  decide +kernel

theorem mem_of_lt {s : ℕ × UInt32} (h : s.1 < 9) (byte : UInt8) :
    ((step s byte).1, s.1 * 16 + byteType byte) ∈ (utf8d.drop 256).zipIdx := by
  have htype := (next_ofType byte).1
  rw [List.mem_zipIdx_iff_getElem?, List.getElem?_drop, ← Nat.add_assoc, getD_utf8d (by omega)]
  rfl

/-- **The table reads the bytes that are owed.** -/
theorem owed_step (s : ℕ × UInt32) (byte : UInt8) :
    owed (step s byte).1 = (owed s.1).bind fun rs => next rs byte := by
  obtain ⟨htype, hnext⟩ := next_ofType byte
  by_cases h : s.1 < 9
  · have howed := owed_of_mem _ (mem_of_lt h byte) (by omega)
    rw [show (s.1 * 16 + byteType byte) / 16 = s.1 by omega,
      show (s.1 * 16 + byteType byte) % 16 = byteType byte by omega] at howed
    rw [howed, hnext s.1 h]
  · -- no state of the table
    have hstep : (step s byte).1 = utf8Reject := by
      have hindex : utf8d.length ≤ 256 + s.1 * 16 + byteType byte := by
        rw [length_utf8d]
        omega
      rw [step, List.getD_eq_getElem?_getD, List.getElem?_eq_none hindex, Option.getD_none]
    have howed : owed s.1 = none := by
      by_contra hne
      exact h (lt_of_owed hne)
    rw [hstep, howed]
    rfl

theorem reject_of_mem : ∀ p ∈ (utf8d.drop 256).zipIdx, owed p.1 = none → p.1 = utf8Reject := by
  decide +kernel

theorem reject_of_owed_step {s : ℕ × UInt32} {byte : UInt8} (hs : owed s.1 ≠ none)
    (h : owed (step s byte).1 = none) : (step s byte).1 = utf8Reject := by
  exact reject_of_mem _ (mem_of_lt (lt_of_owed hs) byte) h

theorem owed_foldl (s : ℕ × UInt32) (bs : List UInt8) :
    owed (bs.foldl step s).1 = (owed s.1).bind fun rs => reads rs bs := by
  induction bs generalizing s with
  | nil => exact (Option.bind_fun_some (owed s.1)).symm
  | cons b bs ih =>
    rw [List.foldl_cons, ih, owed_step]
    cases owed s.1 with
    | none => rfl
    | some rs => exact (reads_cons rs b bs).symm

theorem owed_eq_nil {s : ℕ} : owed s = some [] ↔ s = utf8Accept := by
  constructor
  · intro h
    rw [owed.eq_def] at h
    split at h
    · rfl
    all_goals cases h
  · rintro rfl
    rfl

/-! ## Code points -/

/-- The bits of the code point in a lead byte. -/
def leadBits (n : ℕ) : ℕ :=
  if n < 0x80 then n else if n < 0xE0 then n % 32 else if n < 0xF0 then n % 16 else n % 8

theorem leadBits_of_mem : ∀ p ∈ (utf8d.take 256).zipIdx, tails (UInt8.ofNat p.2) ≠ none →
    0xFF >>> p.1 &&& p.2 = leadBits p.2 := by
  decide +kernel

theorem codepoint_lead {s : ℕ × UInt32} (hs : s.1 = utf8Accept) {a : UInt8}
    (h : tails a ≠ none) : (step s a).2.toNat = leadBits a.toNat := by
  have htype : byteType a < 12 := (next_ofType a).1
  have hlt := a.toNat_lt
  have hmem : (byteType a, a.toNat) ∈ (utf8d.take 256).zipIdx := by
    rw [List.mem_zipIdx_iff_getElem?, List.getElem?_take_of_lt hlt, getD_utf8d (by omega)]
    rfl
  have hbits := leadBits_of_mem _ hmem (by rwa [UInt8.ofNat_toNat])
  have hshift : (UInt32.ofNat (byteType a)).toNat % 32 = byteType a := by
    rw [UInt32.toNat_ofNat_of_lt' (by change _ < 2 ^ 32; omega)]
    omega
  rw [step, if_neg (not_not.mpr hs), UInt32.toNat_and, UInt32.toNat_shiftRight, hshift,
    UInt8.toNat_toUInt32]
  exact hbits

theorem codepoint_tail {s : ℕ × UInt32} (hs : s.1 ≠ utf8Accept) (hlt : s.2.toNat < 2 ^ 26)
    (b : UInt8) : (step s b).2.toNat = s.2.toNat * 64 + b.toNat % 64 := by
  have hb : b.toNat &&& 0x3F = b.toNat % 64 := Nat.and_two_pow_sub_one_eq_mod b.toNat 6
  have hshift : s.2.toNat <<< 6 % 2 ^ 32 = s.2.toNat * 64 := by
    rw [Nat.shiftLeft_eq]
    omega
  have hor : s.2.toNat <<< 6 + b.toNat % 64 = s.2.toNat <<< 6 ||| b.toNat % 64 :=
    Nat.shiftLeft_add_eq_or_of_lt (by omega) _
  rw [step, if_pos hs, UInt32.toNat_or, UInt32.toNat_and, UInt32.toNat_shiftLeft,
    UInt8.toNat_toUInt32]
  calc
    b.toNat &&& 0x3F ||| s.2.toNat <<< 6 % 2 ^ 32 = s.2.toNat <<< 6 ||| b.toNat % 64 := by
      rw [hb, hshift, Nat.or_comm, Nat.shiftLeft_eq]
    _ = s.2.toNat * 64 + b.toNat % 64 := by rw [← hor, Nat.shiftLeft_eq]

/-- The number that the bytes after a lead byte make with it. -/
def withTails (n : ℕ) (bs : List UInt8) : ℕ := bs.foldl (fun n b => n * 64 + b.toNat % 64) n

theorem codepoint_foldl {s : ℕ × UInt32} {rs : List (UInt8 × UInt8)} {bs : List UInt8}
    (hs : owed s.1 = some rs) (hbs : InRanges rs bs) 
    (hle : (s.2.toNat + 1) * 64 ^ bs.length ≤ 2 ^ 32) :
    (bs.foldl step s).2.toNat = withTails s.2.toNat bs := by
  induction hbs generalizing s with
  | nil => rfl
  | @cons r b rs bs hb hbs ih =>
    have hstep : owed (step s b).1 = some rs := by
      rw [owed_step, hs]
      exact if_pos hb
    have hs0 : s.1 ≠ utf8Accept := by
      intro h0
      rw [h0] at hs
      cases hs
    rw [List.length_cons, Nat.pow_succ, Nat.mul_comm (64 ^ bs.length)] at hle
    have hpow : 1 ≤ 64 ^ bs.length := Nat.one_le_pow _ _ (by omega)
    have hlt : s.2.toNat < 2 ^ 26 := by
      have : (s.2.toNat + 1) * (64 * 1) ≤ (s.2.toNat + 1) * (64 * 64 ^ bs.length) :=
        Nat.mul_le_mul_left _ (Nat.mul_le_mul_left 64 hpow)
      omega
    have hvalue := codepoint_tail hs0 hlt b
    have hnext : ((step s b).2.toNat + 1) * 64 ^ bs.length ≤ 2 ^ 32 :=
      calc
        ((step s b).2.toNat + 1) * 64 ^ bs.length ≤ ((s.2.toNat + 1) * 64) * 64 ^ bs.length :=
          Nat.mul_le_mul_right _ (by omega)
        _ = (s.2.toNat + 1) * (64 * 64 ^ bs.length) := Nat.mul_assoc _ _ _
        _ ≤ 2 ^ 32 := hle
    rw [List.foldl_cons, ih hstep hnext, hvalue]
    rfl

theorem leadBits_lt (n : ℕ) : leadBits n < 128 := by
  rw [leadBits]
  split_ifs <;> omega

theorem length_tails {a : UInt8} {rs : List (UInt8 × UInt8)} (h : tails a = some rs) :
    rs.length ≤ 3 := by
  rw [tails] at h
  split_ifs at h
  all_goals
    cases h
    decide

theorem withTails_utf8EncodeChar {c : Char} {a : UInt8} {bs : List UInt8}
    (h : String.utf8EncodeChar c = a :: bs) : withTails (leadBits a.toNat) bs = c.toNat := by
  have hc := isChar c
  rw [utf8EncodeChar_eq] at h
  split_ifs at h with h1 h2 h3
  all_goals cases h
  all_goals simp only [withTails, List.foldl_cons, List.foldl_nil, leadBits]
  all_goals rw [toNat_ofNat (by omega)]
  · rw [if_pos (by omega)]
  · rw [toNat_ofNat (by omega), if_neg (by omega), if_pos (by omega)]
    omega
  · rw [toNat_ofNat (by omega), toNat_ofNat (by omega), if_neg (by omega), if_neg (by omega),
      if_pos (by omega)]
    omega
  · rw [toNat_ofNat (by omega), toNat_ofNat (by omega), toNat_ofNat (by omega),
      if_neg (by omega), if_neg (by omega), if_neg (by omega)]
    omega

/-- **A character leads back to the state that accepts, with its code point.** -/
theorem foldl_utf8EncodeChar {s : ℕ × UInt32} (hs : s.1 = utf8Accept) (c : Char) :
    (String.utf8EncodeChar c).foldl step s = (utf8Accept, c.val) := by
  obtain ⟨a, bs, rs, hc, ha, hbs⟩ := tails_utf8EncodeChar c
  have howed : owed s.1 = some [] := owed_eq_nil.mpr hs
  have hlead : owed (step s a).1 = some rs := by
    rw [owed_step, howed]
    exact ha
  have hstate : ((a :: bs).foldl step s).1 = utf8Accept := by
    have hread := reads_of_inRanges hbs []
    rw [List.append_nil] at hread
    rw [← owed_eq_nil, List.foldl_cons, owed_foldl, hlead, Option.bind_some, hread]
    rfl
  have hbits := codepoint_lead hs (a := a) (by rw [ha]; exact Option.some_ne_none rs)
  have hchar := withTails_utf8EncodeChar hc
  have hle : ((step s a).2.toNat + 1) * 64 ^ bs.length ≤ 2 ^ 32 := by
    have hlen : bs.length ≤ 3 := hbs.length_eq ▸ length_tails ha
    have hpow : 64 ^ bs.length ≤ 64 ^ 3 := Nat.pow_le_pow_right (by omega) hlen
    calc
      ((step s a).2.toNat + 1) * 64 ^ bs.length ≤ 128 * 64 ^ 3 :=
        Nat.mul_le_mul (hbits ▸ leadBits_lt a.toNat) hpow
      _ ≤ 2 ^ 32 := by omega
  have hvalue : ((a :: bs).foldl step s).2 = c.val := by
    apply UInt32.toNat_inj.mp
    rw [List.foldl_cons, codepoint_foldl hlead hbs hle, hbits, hchar]
    rfl
  rw [hc, ← hstate, ← hvalue]

end SyntheticArbitrage.Utf8Table
