import SyntheticArbitrage.Lib.Utf8Table

/-!
# The UTF-8 validator of the WebSocket library

`libs/websocketpp/utf8_validator.hpp`.

* `decode_append`: a text can be validated in parts.
* `decode_iff`: **no error is found exactly in what begins a text**.
* `decode_encode_append`: the code point of the last character.
* `validate_iff`: **a string is valid exactly when it is the bytes of a text**.
-/

namespace SyntheticArbitrage.WebSocket

open Utf8 Utf8Table

/-- The class `validator`: `m_state` and `m_codepoint`. -/
structure Validator where
  state : ℕ
  codepoint : UInt32
deriving DecidableEq

namespace Validator

def new : Validator := ⟨utf8Accept, 0⟩

/-- `utf8_validator::decode`: the next byte. -/
def step (v : Validator) (byte : UInt8) : Validator :=
  let s := Utf8Table.step (v.state, v.codepoint) byte
  ⟨s.1, s.2⟩

/-- `decode` of the class: whether no error was found, and the validator then. -/
def decode (v : Validator) : List UInt8 → Bool × Validator
  | [] => (true, v)
  | byte :: bytes =>
    if (v.step byte).state = utf8Reject then (false, v.step byte) else (v.step byte).decode bytes

/-- The input ends with a whole character. -/
def complete (v : Validator) : Bool := v.state = utf8Accept

/-- The bytes which the validator waits for. -/
def owed (v : Validator) : Option (List (UInt8 × UInt8)) := Utf8Table.owed v.state

/-- No error has been found. -/
def Valid (v : Validator) : Prop := v.owed ≠ none

theorem valid_new : new.Valid := Option.some_ne_none _

theorem owed_step (v : Validator) (byte : UInt8) :
    (v.step byte).owed = v.owed.bind fun rs => Utf8.next rs byte :=
  Utf8Table.owed_step (v.state, v.codepoint) byte

theorem complete_iff {v : Validator} : v.complete = true ↔ v.owed = some [] := by
  rw [complete, decide_eq_true_iff, owed, owed_eq_nil]

/-- The state rejects exactly when no text goes on so. -/
theorem reject_iff {v : Validator} (hv : v.Valid) (byte : UInt8) :
    (v.step byte).state = utf8Reject ↔ (v.step byte).owed = none := by
  constructor
  · intro h
    rw [owed, h]
    rfl
  · exact reject_of_owed_step (s := (v.state, v.codepoint)) hv

theorem decode_cons (v : Validator) (byte : UInt8) (bytes : List UInt8) :
    v.decode (byte :: bytes) =
      if (v.step byte).state = utf8Reject then (false, v.step byte)
      else (v.step byte).decode bytes := rfl

theorem decode_spec {v : Validator} (hv : v.Valid) (bytes : List UInt8) :
    if (v.decode bytes).1 then (v.decode bytes).2.Valid ∧
      (v.decode bytes).2.owed = v.owed.bind fun rs => Utf8.reads rs bytes
    else (v.owed.bind fun rs => Utf8.reads rs bytes) = none := by
  induction bytes generalizing v with
  | nil => exact ⟨hv, (Option.bind_fun_some v.owed).symm⟩
  | cons byte bytes ih =>
    have hreads : (v.owed.bind fun rs => Utf8.reads rs (byte :: bytes)) =
        (v.step byte).owed.bind fun rs => Utf8.reads rs bytes := by
      rw [owed_step]
      cases v.owed with
      | none => rfl
      | some rs => exact reads_cons rs byte bytes
    rw [decode_cons, hreads]
    by_cases hreject : (v.step byte).state = utf8Reject
    · rw [if_pos hreject, if_neg Bool.false_ne_true, (reject_iff hv byte).mp hreject]
      rfl
    · rw [if_neg hreject]
      exact ih fun hnone => hreject ((reject_iff hv byte).mpr hnone)

theorem decode_append (v : Validator) (xs ys : List UInt8) :
    v.decode (xs ++ ys) =
      if (v.decode xs).1 then (v.decode xs).2.decode ys else v.decode xs := by
  induction xs generalizing v with
  | nil => rfl
  | cons x xs ih =>
    rw [List.cons_append, decode_cons, decode_cons, ih]
    by_cases hreject : (v.step x).state = utf8Reject
    · rw [if_pos hreject, if_pos hreject]
      rfl
    · rw [if_neg hreject, if_neg hreject]

theorem decode_new (bytes : List UInt8) :
    ((new.decode bytes).1 = true ↔ ∃ rs, Utf8.reads [] bytes = some rs) ∧
      ((new.decode bytes).1 = true → (new.decode bytes).2.owed = Utf8.reads [] bytes) := by
  have hspec := decode_spec valid_new bytes
  rw [show new.owed = some [] from rfl, Option.bind_some] at hspec
  cases h : (new.decode bytes).1 with
  | true =>
    rw [if_pos h] at hspec
    refine ⟨iff_of_true rfl (Option.ne_none_iff_exists'.mp ?_), fun _ => hspec.2⟩
    rw [← hspec.2]
    exact hspec.1
  | false =>
    rw [if_neg (by rw [h]; exact Bool.false_ne_true)] at hspec
    refine ⟨iff_of_false Bool.false_ne_true ?_, nofun⟩
    rintro ⟨rs, hrs⟩
    rw [hspec] at hrs
    cases hrs

/-- **No error is found exactly in what begins a text.** -/
theorem decode_iff {bytes : List UInt8} :
    (new.decode bytes).1 = true ↔ ∃ more cs, bytes ++ more = encode cs :=
  (decode_new bytes).1.trans exists_reads_iff

theorem decode_complete_iff {bytes : List UInt8} :
    (new.decode bytes).1 = true ∧ (new.decode bytes).2.complete = true ↔
      ∃ cs, bytes = encode cs := by
  obtain ⟨hiff, howed⟩ := decode_new bytes
  rw [← reads_iff]
  constructor
  · rintro ⟨h, hcomplete⟩
    rw [← howed h]
    exact complete_iff.mp hcomplete
  · intro h
    have hok := hiff.mpr ⟨[], h⟩
    exact ⟨hok, complete_iff.mpr ((howed hok).trans h)⟩

theorem decode_eq_foldl {v : Validator} {bytes : List UInt8} (h : (v.decode bytes).1 = true) :
    ((v.decode bytes).2.state, (v.decode bytes).2.codepoint) =
      bytes.foldl Utf8Table.step (v.state, v.codepoint) := by
  induction bytes generalizing v with
  | nil => rfl
  | cons byte bytes ih =>
    rw [decode_cons] at h ⊢
    by_cases hreject : (v.step byte).state = utf8Reject
    · rw [if_pos hreject] at h
      cases h
    · rw [if_neg hreject] at h ⊢
      exact ih h

theorem decode_utf8EncodeChar {v : Validator} (hv : v.complete = true) (c : Char) :
    v.decode (String.utf8EncodeChar c) = (true, ⟨utf8Accept, c.val⟩) := by
  have howed := complete_iff.mp hv
  have hvalid : v.Valid := by
    rw [Valid, howed]
    exact Option.some_ne_none _
  have hreads : Utf8.reads [] (String.utf8EncodeChar c) = some [] :=
    reads_iff.mpr ⟨[c], (List.append_nil _).symm⟩
  have hspec := decode_spec hvalid (String.utf8EncodeChar c)
  rw [howed, Option.bind_some, hreads] at hspec
  have hok : (v.decode (String.utf8EncodeChar c)).1 = true := by
    by_contra h
    rw [if_neg h] at hspec
    cases hspec
  have hstart : (v.state, v.codepoint).1 = utf8Accept := of_decide_eq_true hv
  have hfold := decode_eq_foldl hok
  rw [foldl_utf8EncodeChar hstart] at hfold
  obtain ⟨hstate, hcodepoint⟩ := Prod.mk.inj hfold
  generalize v.decode (String.utf8EncodeChar c) = r at hok hstate hcodepoint
  obtain ⟨ok, state, codepoint⟩ := r
  subst hok hstate hcodepoint
  rfl

/-- **The validator also decodes**: after a text it has the code point of the last character. -/
theorem decode_encode_append {v : Validator} (hv : v.complete = true) (cs : List Char) (c : Char) :
    v.decode (encode (cs ++ [c])) = (true, ⟨utf8Accept, c.val⟩) := by
  induction cs generalizing v with
  | nil =>
    rw [List.nil_append, encode_cons, encode_nil, List.append_nil, decode_utf8EncodeChar hv]
  | cons d cs ih =>
    rw [List.cons_append, encode_cons, decode_append, decode_utf8EncodeChar hv]
    exact ih rfl

end Validator

/-- `utf8_validator::validate`. -/
def validate (s : List UInt8) : Bool :=
  (Validator.new.decode s).1 && (Validator.new.decode s).2.complete

/-- **A string is valid exactly when it is the bytes of a text.** -/
theorem validate_iff {s : List UInt8} : validate s = true ↔ ∃ cs, s = encode cs := by
  rw [validate, Bool.and_eq_true]
  exact Validator.decode_complete_iff

end SyntheticArbitrage.WebSocket
