import SyntheticArbitrage.Lib.Utf8
import SyntheticArbitrage.Numeral

/-!
# The lexer of JSON texts

The `lexer` of `libs/nlohmann/json.hpp`, over the bytes that are left to read; `unget` is not to
take a byte.  What it records for error messages is left out, and comments are not ignored, which is
the default of `json::parse`.

* `scanString`: a string after its opening quote, one iteration of the loop at a time.
* `scanNumber`: a number, one function for each label of the state machine.
* `scan`: one token; `tokens`: the tokens up to the first that ends the reading.
-/

namespace SyntheticArbitrage

/-- What the lexer needs of `double` besides: `std::strtod` without a look at `errno`, and
`std::isfinite`. -/
class DoubleText (R : Type) extends DoubleScan R where
  /-- The nearest number, an infinity when there is none. -/
  nearest : ℚ → R
  isFinite : R → Bool

instance : DoubleText XDouble where
  nearest := Extended.fin
  isFinite := fun x => match x with
    | .fin _ => true
    | _ => false

namespace JsonText

def byte (c : Char) : UInt8 := UInt8.ofNat c.toNat

/-- `token_type`, with the value that the lexer keeps for the token. -/
inductive Token (R : Type) where
  | beginArray
  | endArray
  | beginObject
  | endObject
  | nameSeparator
  | valueSeparator
  | literalTrue
  | literalFalse
  | literalNull
  | valueString (s : String)
  | valueUnsigned (n : UInt64)
  | valueInteger (n : Int64)
  | valueFloat (x : R)
  | endOfInput
  | parseError
  deriving DecidableEq

/-! ## Strings -/

def hexValue (current : UInt8) : Option ℕ :=
  if byte '0' ≤ current ∧ current ≤ byte '9' then some (current.toNat - 0x30)
  else if byte 'A' ≤ current ∧ current ≤ byte 'F' then some (current.toNat - 0x37)
  else if byte 'a' ≤ current ∧ current ≤ byte 'f' then some (current.toNat - 0x57)
  else none

/-- `get_codepoint`: four hexadecimal digits; `none` is `-1`. -/
def getCodepoint : List UInt8 → Option (ℕ × List UInt8)
  | b₁ :: b₂ :: b₃ :: b₄ :: rest => do
    let x₁ ← hexValue b₁
    let x₂ ← hexValue b₂
    let x₃ ← hexValue b₃
    let x₄ ← hexValue b₄
    pure ((x₁ <<< 12) + (x₂ <<< 8) + (x₃ <<< 4) + (x₄ <<< 0), rest)
  | _ => none

/-- `translate codepoint into bytes` -/
def codepointBytes (codepoint : ℕ) : List UInt8 :=
  if codepoint < 0x80 then [UInt8.ofNat codepoint]
  else if codepoint ≤ 0x7FF then
    [UInt8.ofNat (0xC0 ||| (codepoint >>> 6)), UInt8.ofNat (0x80 ||| (codepoint &&& 0x3F))]
  else if codepoint ≤ 0xFFFF then
    [UInt8.ofNat (0xE0 ||| (codepoint >>> 12)), UInt8.ofNat (0x80 ||| ((codepoint >>> 6) &&& 0x3F)),
      UInt8.ofNat (0x80 ||| (codepoint &&& 0x3F))]
  else
    [UInt8.ofNat (0xF0 ||| (codepoint >>> 18)),
      UInt8.ofNat (0x80 ||| ((codepoint >>> 12) &&& 0x3F)),
      UInt8.ofNat (0x80 ||| ((codepoint >>> 6) &&& 0x3F)),
      UInt8.ofNat (0x80 ||| (codepoint &&& 0x3F))]

/-- The unicode escape after `\u`: the bytes added, and what follows. -/
def unicodeEscape (bs : List UInt8) : Option (List UInt8 × List UInt8) := do
  let (codepoint₁, rest) ← getCodepoint bs
  if 0xD800 ≤ codepoint₁ ∧ codepoint₁ ≤ 0xDBFF then
    -- a high surrogate: the next escape must be a low one
    match rest with
    | b₁ :: b₂ :: rest =>
      if b₁ = byte '\\' ∧ b₂ = byte 'u' then
        let (codepoint₂, rest) ← getCodepoint rest
        if 0xDC00 ≤ codepoint₂ ∧ codepoint₂ ≤ 0xDFFF then
          pure (codepointBytes ((codepoint₁ <<< 10) + codepoint₂ - 0x35FDC00), rest)
        else none
      else none
    | _ => none
  else if 0xDC00 ≤ codepoint₁ ∧ codepoint₁ ≤ 0xDFFF then none
  else pure (codepointBytes codepoint₁, rest)

/-- What an escape of one character adds. -/
def simpleEscape (current : UInt8) : Option UInt8 :=
  if current = byte '\"' then some (byte '\"')
  else if current = byte '\\' then some (byte '\\')
  else if current = byte '/' then some (byte '/')
  else if current = byte 'b' then some 0x08
  else if current = byte 'f' then some 0x0C
  else if current = byte 'n' then some 0x0A
  else if current = byte 'r' then some 0x0D
  else if current = byte 't' then some 0x09
  else none

/-- The escape after a reverse solidus. -/
def scanEscape : List UInt8 → Option (List UInt8 × List UInt8)
  | [] => none
  | current :: rest =>
    if current = byte 'u' then unicodeEscape rest
    else (simpleEscape current).map fun b => ([b], rest)

/-- `next_byte_in_range`, after the current byte: the bytes in the ranges, and what follows. -/
def nextByteInRange : List (UInt8 × UInt8) → List UInt8 → Option (List UInt8 × List UInt8)
  | [], bs => some ([], bs)
  | _ :: _, [] => none
  | (lo, hi) :: ranges, current :: rest =>
    if lo ≤ current ∧ current ≤ hi then
      (nextByteInRange ranges rest).map fun r => (current :: r.1, r.2)
    else none

/-- What an iteration of the loop in `scan_string` comes to when it is no error. -/
inductive StringStep where
  | closed (rest : List UInt8)
  | added (bytes rest : List UInt8)

/-- An iteration of the loop in `scan_string`. -/
def stringStep : List UInt8 → Option StringStep
  | [] => none
  | current :: rest =>
    if current = byte '\"' then some (.closed rest)
    else if current = byte '\\' then (scanEscape rest).map fun r => .added r.1 r.2
    else if current ≤ 0x1F then none
    else
      -- the bytes up to `0x7F` add themselves, and those after ask for bytes in ranges
      (Utf8.tails current).bind fun ranges =>
        (nextByteInRange ranges rest).map fun r => .added (current :: r.1) r.2

/-- The loop of `scan_string`, with the number of bytes that are left: `token_buffer` at the closing
quote, and what follows it. -/
def scanStringLoop (buffer : List UInt8) : ℕ → List UInt8 → Option (List UInt8 × List UInt8)
  | 0, _ => none
  | left + 1, bs =>
    match stringStep bs with
    | none => none
    | some (.closed rest) => some (buffer, rest)
    | some (.added bytes rest) => scanStringLoop (buffer ++ bytes) left rest

/-- `scan_string`, after the opening quote. -/
def scanString (bs : List UInt8) : Option (List UInt8 × List UInt8) :=
  scanStringLoop [] bs.length bs

/-! ## Numbers -/

/-- The `number_type` that `scan_number` keeps. -/
inductive NumberType where
  | unsigned
  | integer
  | float
  deriving DecidableEq

/-- `token_buffer`, `number_type` and what follows, at the label `scan_number_done`. -/
abbrev Scanned := List UInt8 × NumberType × List UInt8

def isDigit (current : UInt8) : Bool := byte '0' ≤ current && current ≤ byte '9'

def isExponentMark (current : UInt8) : Bool := current = byte 'e' || current = byte 'E'

/-- `scan_number_any2` -/
def scanNumberAny2 (buffer : List UInt8) (type : NumberType) : List UInt8 → Scanned
  | [] => (buffer, type, [])
  | current :: rest =>
    if isDigit current then scanNumberAny2 (buffer ++ [current]) type rest
    else (buffer, type, current :: rest)

/-- `scan_number_sign` -/
def scanNumberSign (buffer : List UInt8) (type : NumberType) : List UInt8 → Option Scanned
  | [] => none
  | current :: rest =>
    if isDigit current then some (scanNumberAny2 (buffer ++ [current]) type rest) else none

/-- `scan_number_exponent` -/
def scanNumberExponent (buffer : List UInt8) : List UInt8 → Option Scanned
  | [] => none
  | current :: rest =>
    if current = byte '+' ∨ current = byte '-' then scanNumberSign (buffer ++ [current]) .float rest
    else if isDigit current then some (scanNumberAny2 (buffer ++ [current]) .float rest)
    else none

/-- `scan_number_decimal2` -/
def scanNumberDecimal2 (buffer : List UInt8) (type : NumberType) : List UInt8 → Option Scanned
  | [] => some (buffer, type, [])
  | current :: rest =>
    if isDigit current then scanNumberDecimal2 (buffer ++ [current]) type rest
    else if isExponentMark current then scanNumberExponent (buffer ++ [current]) rest
    else some (buffer, type, current :: rest)

/-- `scan_number_decimal1` -/
def scanNumberDecimal1 (buffer : List UInt8) : List UInt8 → Option Scanned
  | [] => none
  | current :: rest =>
    if isDigit current then scanNumberDecimal2 (buffer ++ [current]) .float rest else none

/-- `scan_number_any1` -/
def scanNumberAny1 (buffer : List UInt8) (type : NumberType) : List UInt8 → Option Scanned
  | [] => some (buffer, type, [])
  | current :: rest =>
    if isDigit current then scanNumberAny1 (buffer ++ [current]) type rest
    else if current = byte '.' then scanNumberDecimal1 (buffer ++ [current]) rest
    else if isExponentMark current then scanNumberExponent (buffer ++ [current]) rest
    else some (buffer, type, current :: rest)

/-- `scan_number_zero` -/
def scanNumberZero (buffer : List UInt8) (type : NumberType) : List UInt8 → Option Scanned
  | [] => some (buffer, type, [])
  | current :: rest =>
    if current = byte '.' then scanNumberDecimal1 (buffer ++ [current]) rest
    else if isExponentMark current then scanNumberExponent (buffer ++ [current]) rest
    else some (buffer, type, current :: rest)

/-- `scan_number_minus` -/
def scanNumberMinus (buffer : List UInt8) : List UInt8 → Option Scanned
  | [] => none
  | current :: rest =>
    if current = byte '0' then scanNumberZero (buffer ++ [current]) .integer rest
    else if isDigit current then scanNumberAny1 (buffer ++ [current]) .integer rest
    else none

/-- The state `init`, with the byte that `scan` has read. -/
def scanNumberInit (current : UInt8) (rest : List UInt8) : Option Scanned :=
  if current = byte '-' then scanNumberMinus [current] rest
  else if current = byte '0' then scanNumberZero [current] .unsigned rest
  else scanNumberAny1 [current] .unsigned rest

section Conversions

open NumberText

def chars (buffer : List UInt8) : List Char := buffer.map fun b => Char.ofNat b.toNat

/-- `std::strtoull`; `none` when it sets `errno`. -/
def strtoull (cs : List Char) : Option UInt64 :=
  let signed := sign (cs.dropWhile isSpace)
  let n := ofDigits 10 (digits decDigit signed.2).1
  if 2 ^ 64 ≤ n then none
  else some (if signed.1 then -UInt64.ofNat n else UInt64.ofNat n)

/-- `std::strtoll`; `none` when it sets `errno`. -/
def strtoll (cs : List Char) : Option Int64 :=
  let signed := sign (cs.dropWhile isSpace)
  let n := ofDigits 10 (digits decDigit signed.2).1
  if signed.1 then (if 2 ^ 63 < n then none else some (Int64.ofInt (-n)))
  else if 2 ^ 63 ≤ n then none else some (Int64.ofInt n)

variable {R : Type} [DoubleText R]

/-- The number that `std::strtod` gives for a magnitude, whatever `errno` is. -/
def nearest : Magnitude → R
  | .infinity => DoubleScan.infinity
  | .nan => DoubleScan.nan
  | .value q => DoubleText.nearest q

/-- `std::strtod` -/
def strtod (cs : List Char) : R :=
  let signed := sign (cs.dropWhile isSpace)
  match magnitude signed.2 with
  | none => 0
  | some m => if signed.1 then -nearest m else nearest m

/-- What `scan_number` makes of the buffer: an integer that does not fit is read as a
floating-point number. -/
def numberToken (type : NumberType) (buffer : List UInt8) : Token R :=
  match type with
  | .unsigned =>
    match strtoull (chars buffer) with
    | some n => .valueUnsigned n
    | none => .valueFloat (strtod (chars buffer))
  | .integer =>
    match strtoll (chars buffer) with
    | some n => .valueInteger n
    | none => .valueFloat (strtod (chars buffer))
  | .float => .valueFloat (strtod (chars buffer))

end Conversions

/-! ## Tokens -/

variable {R : Type}

/-- `scan_literal`, after the first character of the literal. -/
def scanLiteral (literal : List Char) (type : Token R) (bs : List UInt8) : Token R × List UInt8 :=
  match literal with
  | [] => (type, bs)
  | c :: literal =>
    match bs with
    | [] => (.parseError, [])
    | current :: rest =>
      if current = byte c then scanLiteral literal type rest else (.parseError, rest)

/-- `skip_bom`: what follows the byte order mark; `none` when it is broken off. -/
def skipBom : List UInt8 → Option (List UInt8)
  | 0xEF :: 0xBB :: 0xBF :: rest => some rest
  | 0xEF :: _ => none
  | bs => some bs

def isWhitespace (current : UInt8) : Bool :=
  current = byte ' ' || current = byte '\t' || current = byte '\n' || current = byte '\r'

/-- `skip_whitespace` -/
def skipWhitespace (bs : List UInt8) : List UInt8 := bs.dropWhile isWhitespace

variable [DoubleText R]

def scanFrom (current : UInt8) (rest : List UInt8) : Token R × List UInt8 :=
  if current = byte '[' then (.beginArray, rest)
  else if current = byte ']' then (.endArray, rest)
  else if current = byte '{' then (.beginObject, rest)
  else if current = byte '}' then (.endObject, rest)
  else if current = byte ':' then (.nameSeparator, rest)
  else if current = byte ',' then (.valueSeparator, rest)
  else if current = byte 't' then scanLiteral ['r', 'u', 'e'] .literalTrue rest
  else if current = byte 'f' then scanLiteral ['a', 'l', 's', 'e'] .literalFalse rest
  else if current = byte 'n' then scanLiteral ['u', 'l', 'l'] .literalNull rest
  else if current = byte '\"' then
    match scanString rest with
    | some (buffer, rest) => (.valueString (String.ofList (Utf8.decode buffer)), rest)
    | none => (.parseError, rest)
  else if current = byte '-' ∨ isDigit current then
    match scanNumberInit current rest with
    | some (buffer, type, rest) => (numberToken type buffer, rest)
    | none => (.parseError, rest)
  else if current = 0 then (.endOfInput, rest)
  else (.parseError, rest)

/-- `scan`, but for the byte order mark. -/
def scan (bs : List UInt8) : Token R × List UInt8 :=
  match skipWhitespace bs with
  | [] => (.endOfInput, [])
  | current :: rest => scanFrom current rest

/-- The token ends the reading of the parser. -/
def Token.isLast : Token R → Bool
  | endOfInput => true
  | parseError => true
  | _ => false

/-- The tokens of a text with at most `left` bytes. -/
def tokensLoop : ℕ → List UInt8 → List (Token R)
  | 0, _ => [.endOfInput]
  | left + 1, bs =>
    let scanned := scan bs
    if scanned.1.isLast then [scanned.1] else scanned.1 :: tokensLoop left scanned.2

/-- The tokens that the parser gets, one after the other, from a text. -/
def tokens (bs : List UInt8) : List (Token R) :=
  match skipBom bs with
  | none => [.parseError]
  | some bs => tokensLoop bs.length bs

end JsonText

end SyntheticArbitrage
