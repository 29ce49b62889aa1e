import SyntheticArbitrage.JsonText.Lexer
import SyntheticArbitrage.Json
import SyntheticArbitrage.Lib.OrderedMap
import Mathlib.Data.String.Basic

/-!
# The parser of JSON texts

The `parser` and the `json_sax_dom_parser` of `libs/nlohmann/json.hpp`, as `json::parse` uses them
without a callback.  A parse error is an exception, which is `none` here.

* `saxParse`: `sax_parse_internal`, over the tokens that are left to read.
* `Dom`: the handler that builds the document.
* `parse`: `json::parse`.
-/

namespace SyntheticArbitrage.JsonText

open OrderedMap

/-- What the parser tells its handler. -/
inductive Event (R : Type) where
  | null
  | boolean (val : Bool)
  | numberInteger (val : Int64)
  | numberUnsigned (val : UInt64)
  | numberFloat (val : R)
  | string (val : String)
  | startObject
  | key (val : String)
  | endObject
  | startArray
  | endArray

variable {R : Type} [DoubleText R]

/-- `sax_parse_internal`: the handler at the end, and the tokens after the document.  The flag is
`skip_to_state_evaluation`, or that a value has just been read, and `states` tells of each open
structure whether it is an array, the innermost first.  The handler never stops the parser. -/
def saxParse {σ : Type} (handle : σ → Event R → σ) :
    List (Token R) → Bool → List Bool → σ → Option (σ × List (Token R))
  | tokens, true, [], sax => some (sax, tokens)
  | [], _, _, _ => none
  | lastToken :: tokens, false, states, sax =>
    match lastToken with
    | .beginObject =>
      match tokens with
      | .endObject :: tokens =>
        saxParse handle tokens true states (handle (handle sax .startObject) .endObject)
      | .valueString k :: .nameSeparator :: tokens =>
        saxParse handle tokens false (false :: states) (handle (handle sax .startObject) (.key k))
      | _ => none
    | .beginArray =>
      match tokens with
      | .endArray :: tokens =>
        saxParse handle tokens true states (handle (handle sax .startArray) .endArray)
      | tokens => saxParse handle tokens false (true :: states) (handle sax .startArray)
    | .valueFloat x =>
      if DoubleText.isFinite x then saxParse handle tokens true states (handle sax (.numberFloat x))
      else none
    | .literalFalse => saxParse handle tokens true states (handle sax (.boolean false))
    | .literalNull => saxParse handle tokens true states (handle sax .null)
    | .literalTrue => saxParse handle tokens true states (handle sax (.boolean true))
    | .valueInteger n => saxParse handle tokens true states (handle sax (.numberInteger n))
    | .valueString s => saxParse handle tokens true states (handle sax (.string s))
    | .valueUnsigned n => saxParse handle tokens true states (handle sax (.numberUnsigned n))
    | _ => none
  | lastToken :: tokens, true, true :: states, sax =>
    match lastToken with
    | .valueSeparator => saxParse handle tokens false (true :: states) sax
    | .endArray => saxParse handle tokens true states (handle sax .endArray)
    | _ => none
  | lastToken :: tokens, true, false :: states, sax =>
    match lastToken with
    | .valueSeparator =>
      match tokens with
      | .valueString k :: .nameSeparator :: tokens =>
        saxParse handle tokens false (false :: states) (handle sax (.key k))
      | _ => none
    | .endObject => saxParse handle tokens true states (handle sax .endObject)
    | _ => none

/-! ## The document -/

/-- `operator[]` of the `std::map` of an object: a missing element becomes `null`. -/
def emplace (key : String) (members : List (String × Json R)) : List (String × Json R) :=
  if (members.lookup key).isSome then members else assign key .null members

/-- An array or an object on `ref_stack`. -/
inductive Frame (R : Type) where
  | array (items : List (Json R))
  | object (members : List (String × Json R)) (objectElement : String)

/-- `json_sax_dom_parser`.  A structure on `ref_stack` is kept apart from the one that it is an
element of until it ends. -/
structure Dom (R : Type) where
  root : Json R
  refStack : List (Frame R)

namespace Dom

/-- `json_sax_dom_parser::handle_value` -/
def handleValue (v : Json R) (dom : Dom R) : Dom R :=
  match dom.refStack with
  | [] => { dom with root := v }
  | .array items :: refStack => { dom with refStack := .array (items ++ [v]) :: refStack }
  | .object members objectElement :: refStack =>
    { dom with refStack := .object (assign objectElement v members) objectElement :: refStack }

/-- `end_object` and `end_array`: the structure is an element of the one below it. -/
def endStructure (dom : Dom R) : Dom R :=
  match dom.refStack with
  | [] => dom
  | .array items :: refStack => handleValue (.array items) { dom with refStack }
  | .object members _ :: refStack => handleValue (.object members) { dom with refStack }

/-- `json_sax_dom_parser::key` -/
def key (k : String) (dom : Dom R) : Dom R :=
  match dom.refStack with
  | .object members _ :: refStack =>
    { dom with refStack := .object (emplace k members) k :: refStack }
  | _ => dom

def handle (dom : Dom R) : Event R → Dom R
  | .null => dom.handleValue .null
  | .boolean val => dom.handleValue (.boolean val)
  | .numberInteger val => dom.handleValue (.numberInteger val)
  | .numberUnsigned val => dom.handleValue (.numberUnsigned val)
  | .numberFloat val => dom.handleValue (.numberFloat val)
  | .string val => dom.handleValue (.string val)
  | .startObject => { dom with refStack := .object [] "" :: dom.refStack }
  | .key val => dom.key val
  | .endObject => dom.endStructure
  | .startArray => { dom with refStack := .array [] :: dom.refStack }
  | .endArray => dom.endStructure

end Dom

/-- `json::parse`: after the document the input must be at its end. -/
def parse (bs : List UInt8) : Option (Json R) :=
  match saxParse Dom.handle (tokens bs) false [] { root := .null, refStack := [] } with
  | some (dom, .endOfInput :: _) => some dom.root
  | _ => none

end SyntheticArbitrage.JsonText
