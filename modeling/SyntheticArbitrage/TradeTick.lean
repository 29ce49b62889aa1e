import SyntheticArbitrage.Json

/-!
# Trade ticks

`include/TradeTick.hpp`, and the decoding of a tick from a trade entry.  The same four fields are
decoded in three places of the feed handlers, which differ in the form of the member access and in
the key of the quantity.

* `decodeTick`: the decoding, in the order of the source.
* `tickIn`: the tick of an entry whose four fields are there and can be converted.
* `decodeTick_index`, `decodeTick_constIndex`: the two forms of access decode the same entries.
-/

namespace SyntheticArbitrage

structure TradeTick (R : Type) where
  symbol : String
  price : R
  quantity : R
  timestamp : UInt64
  deriving DecidableEq

namespace TradeTick

variable {R : Type} [DoubleScan R]

/-- The decoding of a trade entry: `access` is the member access, `quantityKey` the key of the
quantity. -/
def decodeTick (access : Json R → String → Except Stop (Json R)) (quantityKey : String)
    (entry : Json R) : Except Stop (TradeTick R) := do
  let symbol ← access entry "s" >>= Json.getString
  let price ← access entry "p" >>= Json.number
  let quantity ← access entry quantityKey >>= Json.number
  let timestamp ← access entry "T" >>= Json.timestamp
  pure { symbol, price, quantity, timestamp }

/-- The tick of an entry with the fields `s`, `p`, `quantityKey` and `T`. -/
def tickIn (quantityKey : String) (entry : Json R) : Option (TradeTick R) := do
  let symbol ← entry.field "s" Json.getString
  let price ← entry.field "p" Json.number
  let quantity ← entry.field quantityKey Json.number
  let timestamp ← entry.field "T" Json.timestamp
  pure { symbol, price, quantity, timestamp }

theorem decodeTick_eq_ok {access : Json R → String → Except Stop (Json R)} {quantityKey : String}
    {entry : Json R} {tick : TradeTick R} (h : decodeTick access quantityKey entry = .ok tick) :
    (access entry "s" >>= Json.getString) = .ok tick.symbol ∧
      (access entry "p" >>= Json.number) = .ok tick.price ∧
      (access entry quantityKey >>= Json.number) = .ok tick.quantity ∧
      (access entry "T" >>= Json.timestamp) = .ok tick.timestamp := by
  unfold decodeTick at h
  cases hs : access entry "s" >>= Json.getString with
  | error e => rw [hs] at h; cases h
  | ok symbol =>
    cases hp : access entry "p" >>= Json.number with
    | error e => rw [hs, hp] at h; cases h
    | ok price =>
      cases hq : access entry quantityKey >>= Json.number with
      | error e => rw [hs, hp, hq] at h; cases h
      | ok quantity =>
        cases ht : access entry "T" >>= Json.timestamp with
        | error e => rw [hs, hp, hq, ht] at h; cases h
        | ok timestamp =>
          rw [hs, hp, hq, ht] at h
          cases h
          exact ⟨rfl, rfl, rfl, rfl⟩

theorem tickIn_eq_some_iff {quantityKey : String} {entry : Json R} {tick : TradeTick R} :
    tickIn quantityKey entry = some tick ↔
      entry.field "s" Json.getString = some tick.symbol ∧
        entry.field "p" Json.number = some tick.price ∧
        entry.field quantityKey Json.number = some tick.quantity ∧
        entry.field "T" Json.timestamp = some tick.timestamp := by
  obtain ⟨symbol, price, quantity, timestamp⟩ := tick
  simp only [tickIn, Option.bind_eq_bind, Option.bind_eq_some_iff, Option.pure_def,
    Option.some.injEq, mk.injEq]
  constructor
  · intro h
    obtain ⟨_, hs, _, hp, _, hq, _, ht, rfl, rfl, rfl, rfl⟩ := h
    exact ⟨hs, hp, hq, ht⟩
  · intro h
    obtain ⟨hs, hp, hq, ht⟩ := h
    exact ⟨_, hs, _, hp, _, hq, _, ht, rfl, rfl, rfl, rfl⟩

/-- The members of an object are a well-formed trade entry: a string for the symbol, and a number or
a numeric string for the price, the quantity and the time. -/
structure Carries (quantityKey : String) (members : List (String × Json R)) (tick : TradeTick R) :
    Prop where
  symbol : members.lookup "s" = some (.string tick.symbol)
  price : ∃ v, members.lookup "p" = some v ∧ v.number = .ok tick.price
  quantity : ∃ v, members.lookup quantityKey = some v ∧ v.number = .ok tick.quantity
  timestamp : ∃ v, members.lookup "T" = some v ∧ v.timestamp = .ok tick.timestamp

theorem Carries.tickIn {quantityKey : String} {members : List (String × Json R)}
    {tick : TradeTick R} (h : Carries quantityKey members tick) :
    tickIn quantityKey (.object members) = some tick := by
  obtain ⟨p, hp, hprice⟩ := h.price
  obtain ⟨q, hq, hquantity⟩ := h.quantity
  obtain ⟨t, ht, htimestamp⟩ := h.timestamp
  refine tickIn_eq_some_iff.mpr ⟨?_, ?_, ?_, ?_⟩
  · rw [Json.field, Json.member, h.symbol]
    rfl
  · rw [Json.field, Json.member, hp, Option.bind_some, hprice, Json.toOption_ok]
  · rw [Json.field, Json.member, hq, Option.bind_some, hquantity, Json.toOption_ok]
  · rw [Json.field, Json.member, ht, Option.bind_some, htimestamp, Json.toOption_ok]

theorem decodeTick_toOption {access : Json R → String → Except Stop (Json R)} {entry : Json R}
    (hstring : ∀ key, (access entry key >>= Json.getString).toOption =
      entry.field key Json.getString)
    (hnumber : ∀ key, (access entry key >>= Json.number).toOption = entry.field key Json.number)
    (htimestamp : ∀ key, (access entry key >>= Json.timestamp).toOption =
      entry.field key Json.timestamp) (quantityKey : String) :
    (decodeTick access quantityKey entry).toOption = tickIn quantityKey entry := by
  simp only [decodeTick, tickIn, Json.toOption_bind, hstring, hnumber, htimestamp]
  rfl

theorem decodeTick_index (quantityKey : String) (entry : Json R) :
    (decodeTick Json.index quantityKey entry).toOption = tickIn quantityKey entry :=
  decodeTick_toOption (Json.toOption_index Json.rejectsNull_getString entry)
    (Json.toOption_index Json.rejectsNull_number entry)
    (Json.toOption_index Json.rejectsNull_timestamp entry) quantityKey

theorem decodeTick_constIndex (quantityKey : String) (entry : Json R) :
    (decodeTick Json.constIndex quantityKey entry).toOption = tickIn quantityKey entry :=
  decodeTick_toOption (Json.toOption_constIndex _ entry) (Json.toOption_constIndex _ entry)
    (Json.toOption_constIndex _ entry) quantityKey

def ofSymbol (symbol : String) (ticks : List (TradeTick R)) : List (TradeTick R) :=
  ticks.filter fun tick => tick.symbol = symbol

omit [DoubleScan R] in
theorem filterMap_flatMap_ofSymbol {κ β : Type} {calls : TradeTick R → List κ}
    {read : κ → Option β} {symbol : String} {value : TradeTick R → β}
    (h : ∀ tick, (calls tick).filterMap read = if tick.symbol = symbol then [value tick] else [])
    (ticks : List (TradeTick R)) :
    (ticks.flatMap calls).filterMap read = (ofSymbol symbol ticks).map value := by
  induction ticks with
  | nil => rfl
  | cons tick ticks ih =>
    rw [List.flatMap_cons, List.filterMap_append, h, ih, ofSymbol, ofSymbol]
    by_cases hs : tick.symbol = symbol
    · simp [hs]
    · simp [hs]

end TradeTick

end SyntheticArbitrage
