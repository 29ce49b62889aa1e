import SyntheticArbitrage.NumberText
import Mathlib.Data.List.Basic

/-!
# JSON documents

What the feed handlers use of `libs/nlohmann/json.hpp`: the document that `json::parse` makes of a
message, member access in its two forms, and the conversions.

* `index`, `constIndex`: `operator[]` on a document and on a `const` one.  The first makes a missing
  member `null`; the second has no value for it.
* `value`, `valueInt`: access with a default, whose type is that of the result.
* `number`, `timestamp`: the conversions that the handlers write out at each numeric field.
* `field`: a member that is there and can be converted.
* `toOption_index`, `toOption_constIndex`: member access followed by a conversion gives the field.
-/

namespace SyntheticArbitrage

/-- A document that `json::parse` can make.  The members of an object stand in the order of their
keys. -/
inductive Json (R : Type) where
  | null
  | boolean (b : Bool)
  | numberInteger (n : Int64)
  | numberUnsigned (n : UInt64)
  | numberFloat (x : R)
  | string (s : String)
  | array (items : List (Json R))
  | object (members : List (String × Json R))

/-- How a handler leaves the normal flow. -/
inductive Stop where
  | exception (e : Exception)
  /-- A `const` access to a missing member, which `json.hpp` asserts not to happen. -/
  | undefined
  deriving DecidableEq

/-- A handler ended in the failed assertion, which aborts the process. -/
def aborted {α : Type} : Except Stop α → Bool
  | .error .undefined => true
  | _ => false

/-- An exception of the standard library in a handler. -/
def thrown {α : Type} : Except Exception α → Except Stop α
  | .ok a => .ok a
  | .error e => .error (.exception e)

namespace Json

variable {R : Type}

def member (key : String) : Json R → Option (Json R)
  | object members => members.lookup key
  | _ => none

def contains (j : Json R) (key : String) : Bool := (j.member key).isSome

def isArray : Json R → Bool
  | array _ => true
  | _ => false

/-- `operator[](key)`: a missing member, or a member of `null`, is `null`. -/
def index (j : Json R) (key : String) : Except Stop (Json R) :=
  match j with
  | object members => pure ((members.lookup key).getD null)
  | null => pure null
  | _ => throw (.exception (.typeError 305))

/-- `operator[](key) const` -/
def constIndex (j : Json R) (key : String) : Except Stop (Json R) :=
  match j with
  | object members =>
    match members.lookup key with
    | some v => pure v
    | none => throw .undefined
  | _ => throw (.exception (.typeError 305))

/-- `get<std::string>()` -/
def getString : Json R → Except Stop String
  | string s => pure s
  | _ => throw (.exception (.typeError 302))

/-- `value(key, defaultValue)` with a string for the default. -/
def value (j : Json R) (key : String) (defaultValue : String) : Except Stop String :=
  match j with
  | object members =>
    match members.lookup key with
    | some v => v.getString
    | none => pure defaultValue
  | _ => throw (.exception (.typeError 306))

/-- What a range-based `for` goes over. -/
def items : Json R → List (Json R)
  | array items => items
  | object members => members.map Prod.snd
  | null => []
  | j => [j]

section Numbers

variable [DoubleScan R]

/-- `get<double>()` -/
def getDouble : Json R → Except Stop R
  | numberInteger n => pure (DoubleOps.ofInt n.toInt)
  | numberUnsigned n => pure (DoubleOps.ofInt n.toNat)
  | numberFloat x => pure x
  | _ => throw (.exception (.typeError 302))

/-- `get<std::uint64_t>()` -/
def getUInt64 : Json R → Except Stop UInt64
  | numberInteger n => pure n.toUInt64
  | numberUnsigned n => pure n
  | numberFloat x => pure (DoubleScan.toUInt64 x)
  | _ => throw (.exception (.typeError 302))

/-- `j.is_string() ? std::stod(j.get<std::string>()) : j.get<double>()` -/
def number : Json R → Except Stop R
  | string s => thrown (stod s)
  | j => j.getDouble

/-- `j.is_string() ? std::stoull(j.get<std::string>()) : j.get<std::uint64_t>()` -/
def timestamp : Json R → Except Stop UInt64
  | string s => thrown (stoull s)
  | j => j.getUInt64

end Numbers

/-- `get<int>()` -/
def getInt [DoubleToInt R] : Json R → Except Stop Int32
  | numberInteger n => pure n.toInt32
  | numberUnsigned n => pure n.toUInt32.toInt32
  | numberFloat x => pure (DoubleToInt.toInt32 x)
  | boolean b => pure (if b then 1 else 0)
  | _ => throw (.exception (.typeError 302))

/-- `value(key, defaultValue)` with an `int` for the default. -/
def valueInt [DoubleToInt R] (j : Json R) (key : String) (defaultValue : Int32) :
    Except Stop Int32 :=
  match j with
  | object members =>
    match members.lookup key with
    | some v => v.getInt
    | none => pure defaultValue
  | _ => throw (.exception (.typeError 306))

def integer : Json R → Option ℤ
  | numberInteger n => some n.toInt
  | numberUnsigned n => some n.toNat
  | _ => none

/-- `get<int>()` keeps an integer modulo `2 ^ 32`. -/
theorem getInt_of_integer [DoubleToInt R] {j : Json R} {n : ℤ} (h : j.integer = some n) :
    j.getInt = .ok (Int32.ofInt n) := by
  cases j with
  | numberInteger m =>
    cases h
    rw [Int32.ofInt_int64ToInt]
    rfl
  | numberUnsigned m =>
    cases h
    rw [Int32.ofInt_eq_ofNat]
    rfl
  | _ => cases h

/-! ## Fields -/

variable {β γ : Type}

def field (key : String) (convert : Json R → Except Stop β) (j : Json R) : Option β :=
  (j.member key).bind fun v => (convert v).toOption

@[simp] theorem toOption_ok (b : β) : (Except.ok b : Except Stop β).toOption = some b := rfl

theorem toOption_bind (x : Except Stop β) (f : β → Except Stop γ) :
    (x >>= f).toOption = x.toOption.bind fun b => (f b).toOption := by
  cases x <;> rfl

/-- A conversion that `null` does not have, so that a missing member cannot be converted. -/
def RejectsNull (convert : Json R → Except Stop β) : Prop := (convert null).toOption = none

theorem rejectsNull_getString : RejectsNull (getString (R := R)) := rfl

theorem rejectsNull_number [DoubleScan R] : RejectsNull (number (R := R)) := rfl

theorem rejectsNull_timestamp [DoubleScan R] : RejectsNull (timestamp (R := R)) := rfl

theorem toOption_index {convert : Json R → Except Stop β} (h : RejectsNull convert) (j : Json R)
    (key : String) : (j.index key >>= convert).toOption = j.field key convert := by
  rw [toOption_bind]
  cases j with
  | null => exact h
  | object members =>
    cases hk : members.lookup key with
    | none =>
      have hindex : (object members).index key = .ok null := by rw [index, hk]; rfl
      have hfield : (object members).field key convert = none := by rw [field, member, hk]; rfl
      rw [hindex, hfield]
      exact h
    | some v =>
      have hindex : (object members).index key = .ok v := by rw [index, hk]; rfl
      have hfield : (object members).field key convert = (convert v).toOption := by
        rw [field, member, hk]; rfl
      rw [hindex, hfield]
      rfl
  | _ => rfl

theorem toOption_constIndex (convert : Json R → Except Stop β) (j : Json R) (key : String) :
    (j.constIndex key >>= convert).toOption = j.field key convert := by
  rw [toOption_bind]
  cases j with
  | object members =>
    cases hk : members.lookup key with
    | none => simp only [constIndex, field, member, hk]; rfl
    | some v => simp only [constIndex, field, member, hk]; rfl
  | _ => rfl

end Json

end SyntheticArbitrage
