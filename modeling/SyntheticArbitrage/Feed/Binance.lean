import SyntheticArbitrage.Feed.App

/-!
# The Binance message handler

`on_message` of `src/main.cpp`.  A message has either an array of trade entries under `data`, or one
object, which is decoded as a trade first and looked at for a funding rate or a mark price next.

* `onMessage`: the handler, as the calls it makes and the way it ends.
* `deliver`: the program after a message.
* `process`: the program on the messages that arrive, which an abort ends.
* `forEach_arrayEntry_calls`, `singleObject_calls`, `onMessage_calls`: the calls of each part.
* `Makes`, `onMessage_makes`: the ways through the handler, one case each.
-/

namespace SyntheticArbitrage

variable {R : Type} [DoubleScan R]

abbrev Handler (R : Type) := Trace Stop (EngineCall R)

namespace Binance

open Trace TradeTick

/-! ## The source -/

/-- The payload of a message, `none` when `json::parse` throws. -/
def parsed : Option (Json R) → Except Stop (Json R)
  | some payload => pure payload
  | none => throw (.exception .parseError)

/-- `payload.contains("data") ? payload["data"] : payload` -/
def dataOf (payload : Json R) : Json R :=
  match payload.member "data" with
  | some data => data
  | none => payload

def arrayTick (entry : Json R) : Except Stop (TradeTick R) := decodeTick Json.constIndex "v" entry

def objectTick (data : Json R) : Except Stop (TradeTick R) := decodeTick Json.index "q" data

/-- `// Update engines`, and the buffer, in the array branch. -/
def arrayUpdates (tick : TradeTick R) : Handler R Unit := do
  if tick.symbol = "BTCUSDT" then
    emit (.updateSpot tick.price)
    emit (.synth (.update "BTCUSDT" tick.price tick.timestamp))
  if tick.symbol = "ETHBTC" then
    emit (.synth (.update "ETHBTC" tick.price tick.timestamp))
  if tick.symbol = "ETHUSDT" then
    emit (.crossUpdate "Binance" tick.price tick.timestamp)
  emit (.pushTick tick)

/-- `// Update engines`, and the buffer, in the branch of the single object. -/
def objectUpdates (tick : TradeTick R) : Handler R Unit := do
  if tick.symbol = "BTCUSDT" then
    emit (.updateSpot tick.price)
    emit (.synth (.update "BTCUSDT" tick.price tick.timestamp))
  if tick.symbol = "ETHBTC" then
    emit (.synth (.update "ETHBTC" tick.price tick.timestamp))
  if tick.symbol = "ETHUSDT" then
    emit (.crossUpdate "Binance" tick.price tick.timestamp)
    emit (.synth (.compareToReal tick.price tick.timestamp))
  emit (.pushTick tick)

def arrayEntry (entry : Json R) : Handler R Unit := do
  let tick ← lift (arrayTick entry)
  arrayUpdates tick

/-- `stream == "btcusdt@fundingRate"` -/
def fundingEvent (data : Json R) : Handler R Unit := do
  let fundingRate ← lift (data.index "r" >>= Json.number)
  let ts ← lift (data.index "T" >>= Json.timestamp)
  emit (.updateFunding fundingRate ts)

/-- `stream == "btcusdt@markPrice"` -/
def markEvent (data : Json R) : Handler R Unit := do
  let markPrice ← lift (data.index "p" >>= Json.number)
  let ts ← lift (data.index "T" >>= Json.timestamp)
  emit (.updateMark markPrice ts)

def singleObject (stream : String) (data : Json R) : Handler R Unit := do
  let tick ← lift (objectTick data)
  if stream = "btcusdt@fundingRate" then
    fundingEvent data
  if stream = "btcusdt@markPrice" then
    markEvent data
  -- a funding or mark event falls through to the trade updates
  objectUpdates tick

/-- `on_message`; its `catch` block prints the exception and changes nothing. -/
def onMessage (message : Option (Json R)) : Handler R Unit := do
  let payload ← lift (parsed message)
  let data := dataOf payload
  let stream ← lift (payload.value "stream" "")
  if payload.contains "data" && data.isArray then
    forEach arrayEntry data.items
  else
    singleObject stream data

/-- The program after a message. -/
def deliver (a : App R) (message : Option (Json R)) : App R :=
  run App.call a (onMessage message).calls

def aborts (message : Option (Json R)) : Bool := aborted (onMessage message).result

/-- The process on the messages of the feed; it takes none after one that aborts it. -/
def process (a : App R) (messages : List (Option (Json R))) : App R :=
  runUntil aborts deliver a messages

/-- The process is a run of `deliver`, of the messages that it takes: the theorems on all runs are
about it. -/
theorem process_eq (a : App R) (messages : List (Option (Json R))) :
    process a messages = run deliver a (upTo aborts messages) :=
  runUntil_eq aborts a messages

/-! ## The calls of a tick -/

/-- The calls that both branches make for a tick on the engines. -/
def engineCalls (tick : TradeTick R) : List (EngineCall R) :=
  (if tick.symbol = "BTCUSDT" then
    [.updateSpot tick.price, .synth (.update "BTCUSDT" tick.price tick.timestamp)] else []) ++
  (if tick.symbol = "ETHBTC" then
    [.synth (.update "ETHBTC" tick.price tick.timestamp)] else []) ++
  (if tick.symbol = "ETHUSDT" then
    [.crossUpdate "Binance" tick.price tick.timestamp] else [])

/-- The call that only the single object makes. -/
def compareCalls (tick : TradeTick R) : List (EngineCall R) :=
  if tick.symbol = "ETHUSDT" then [.synth (.compareToReal tick.price tick.timestamp)] else []

omit [DoubleScan R] in
theorem arrayUpdates_eq (tick : TradeTick R) :
    arrayUpdates tick = ⟨engineCalls tick ++ [.pushTick tick], .ok ()⟩ := by
  unfold arrayUpdates engineCalls
  by_cases hb : tick.symbol = "BTCUSDT"
  · simp [hb]
    rfl
  · by_cases he : tick.symbol = "ETHBTC"
    · simp [he]
      rfl
    · by_cases hu : tick.symbol = "ETHUSDT" <;> simp [hb, he, hu] <;> rfl

omit [DoubleScan R] in
theorem objectUpdates_eq (tick : TradeTick R) :
    objectUpdates tick =
      ⟨engineCalls tick ++ compareCalls tick ++ [.pushTick tick], .ok ()⟩ := by
  unfold objectUpdates engineCalls compareCalls
  by_cases hb : tick.symbol = "BTCUSDT"
  · simp [hb]
    rfl
  · by_cases he : tick.symbol = "ETHBTC"
    · simp [he]
      rfl
    · by_cases hu : tick.symbol = "ETHUSDT" <;> simp [hb, he, hu] <;> rfl

def arrayCalls (tick : TradeTick R) : List (EngineCall R) := engineCalls tick ++ [.pushTick tick]

def objectCalls (tick : TradeTick R) : List (EngineCall R) :=
  engineCalls tick ++ compareCalls tick ++ [.pushTick tick]

omit [DoubleScan R] in
/-- The array branch makes only calls of the other branch, so a reading that sees none there sees
none here. -/
theorem filterMap_arrayCalls {β : Type} {read : EngineCall R → Option β} {tick : TradeTick R}
    (h : (objectCalls tick).filterMap read = []) : (arrayCalls tick).filterMap read = [] := by
  rw [objectCalls, List.filterMap_append, List.filterMap_append, List.append_eq_nil_iff,
    List.append_eq_nil_iff] at h
  obtain ⟨⟨hengine, -⟩, hpush⟩ := h
  rw [arrayCalls, List.filterMap_append, hengine, hpush]
  rfl

omit [DoubleScan R] in
/-- What is read off the calls of a trade, in either branch, when nothing is read off the calls for
ETHUSDT and the buffers. -/
theorem filterMap_tradeCalls {β : Type} (read : EngineCall R → Option β) (tick : TradeTick R)
    {btcusdt ethbtc : List β}
    (hbtcusdt : [EngineCall.updateSpot tick.price,
      .synth (.update "BTCUSDT" tick.price tick.timestamp)].filterMap read = btcusdt)
    (hethbtc : [EngineCall.synth (.update "ETHBTC" tick.price tick.timestamp)].filterMap read =
      ethbtc)
    (hcross : read (.crossUpdate "Binance" tick.price tick.timestamp) = none)
    (hcompare : read (.synth (.compareToReal tick.price tick.timestamp)) = none)
    (hpush : read (.pushTick tick) = none) :
    let given := (if tick.symbol = "BTCUSDT" then btcusdt else []) ++
      if tick.symbol = "ETHBTC" then ethbtc else []
    (arrayCalls tick).filterMap read = given ∧ (objectCalls tick).filterMap read = given := by
  intro given
  have hengine : (engineCalls tick).filterMap read = given := by
    rw [engineCalls, List.filterMap_append, List.filterMap_append]
    by_cases hb : tick.symbol = "BTCUSDT"
    · simp [given, hb, ← hbtcusdt]
    · by_cases he : tick.symbol = "ETHBTC"
      · simp [given, he, ← hethbtc]
      · by_cases hu : tick.symbol = "ETHUSDT" <;> simp [given, hb, he, hu, hcross]
  have hpushed : [EngineCall.pushTick tick].filterMap read = [] := by simp [hpush]
  have hcompared : (compareCalls tick).filterMap read = [] := by
    rw [compareCalls]
    split <;> simp [hcompare]
  rw [arrayCalls, objectCalls, List.filterMap_append, List.filterMap_append, List.filterMap_append,
    hengine, hpushed, hcompared, List.append_nil, List.append_nil]
  exact ⟨rfl, rfl⟩

omit [DoubleScan R] in
theorem legGiven_calls {leg : String} (h : leg = "BTCUSDT" ∨ leg = "ETHBTC")
    (tick : TradeTick R) :
    (arrayCalls tick).filterMap (App.legGiven leg) =
        (if tick.symbol = leg then [tick.price] else []) ∧
      (objectCalls tick).filterMap (App.legGiven leg) =
        (if tick.symbol = leg then [tick.price] else []) := by
  have hcalls := filterMap_tradeCalls (App.legGiven leg) tick rfl rfl rfl rfl rfl
  rcases h with rfl | rfl <;> simpa [App.legGiven, List.filterMap_cons] using hcalls

/-! ## The calls of a message -/

theorem forEach_arrayEntry_calls (entries : List (Json R)) :
    (forEach arrayEntry entries).calls = (leading (tickIn "v") entries).flatMap arrayCalls := by
  have hact : ∀ tick : TradeTick R, (arrayUpdates tick).result = .ok () := by
    intro tick
    rw [arrayUpdates_eq]
  have h := calls_forEach arrayTick arrayUpdates hact entries
  simp only [arrayTick, decodeTick_constIndex, arrayUpdates_eq] at h
  exact h

/-- The calls on `perp` that a decoded single object makes before those of its tick; `none` when the
handler stops at them. -/
def eventCalls (stream : String) (data : Json R) (tick : TradeTick R) :
    Option (List (EngineCall R)) :=
  if stream = "btcusdt@fundingRate" then
    (data.field "r" Json.number).map fun rate => [.updateFunding rate tick.timestamp]
  else if stream = "btcusdt@markPrice" then some [.updateMark tick.price tick.timestamp]
  else some []

/-- The calls of a single object: none without a tick or with a bad event, and otherwise those of
the event and those of the tick. -/
def singleCalls (stream : String) (data : Json R) : List (EngineCall R) :=
  ((tickIn "q" data).bind fun tick =>
    (eventCalls stream data tick).map fun calls => calls ++ objectCalls tick).getD []

theorem singleCalls_of_tickIn {data : Json R} {tick : TradeTick R}
    (h : tickIn "q" data = some tick) (stream : String) :
    singleCalls stream data =
      ((eventCalls stream data tick).map fun calls => calls ++ objectCalls tick).getD [] := by
  rw [singleCalls, h, Option.bind_some]

theorem singleObject_calls (stream : String) (data : Json R) :
    (singleObject stream data).calls = singleCalls stream data := by
  rw [singleObject, objectTick]
  cases htick : decodeTick Json.index "q" data with
  | error e =>
    rw [singleCalls, ← decodeTick_index, htick]
    rfl
  | ok tick =>
    obtain ⟨-, hprice, -, htimestamp⟩ := decodeTick_eq_ok htick
    have htickIn : tickIn "q" data = some tick := by rw [← decodeTick_index, htick]; rfl
    rw [lift_ok_bind, singleCalls_of_tickIn htickIn, objectUpdates_eq]
    by_cases hfunding : stream = "btcusdt@fundingRate"
    · have hmark : ¬ stream = "btcusdt@markPrice" := by rw [hfunding]; decide
      simp only [eventCalls, hfunding, if_true, fundingEvent, htimestamp, lift_ok_bind]
      rw [← Json.toOption_index Json.rejectsNull_number data "r"]
      cases hrate : data.index "r" >>= Json.number with
      | error e => rfl
      | ok rate => rfl
    · by_cases hmark : stream = "btcusdt@markPrice"
      · simp only [eventCalls, hmark, markEvent, hprice, htimestamp, lift_ok_bind]
        rfl
      · simp only [eventCalls, hfunding, hmark, if_false]
        rfl

/-- A message that could be parsed and whose stream could be read. -/
structure Opened (R : Type) where
  stream : String
  data : Json R
  /-- The message has an array under `data`. -/
  batch : Bool

def openMessage : Option (Json R) → Option (Opened R)
  | none => none
  | some payload =>
    (payload.value "stream" "").toOption.map fun stream =>
      ⟨stream, dataOf payload, payload.contains "data" && (dataOf payload).isArray⟩

def Opened.calls (m : Opened R) : List (EngineCall R) :=
  if m.batch then (leading (tickIn "v") m.data.items).flatMap arrayCalls
  else singleCalls m.stream m.data

/-- **The calls of a message**: none when it cannot be opened. -/
theorem onMessage_calls (message : Option (Json R)) :
    (onMessage message).calls = ((openMessage message).map Opened.calls).getD [] := by
  cases message with
  | none => rfl
  | some payload =>
    show (lift (payload.value "stream" "") >>= _ : Handler R Unit).calls = _
    rw [openMessage]
    cases payload.value "stream" "" with
    | error e => rfl
    | ok stream =>
      rw [lift_ok_bind, Json.toOption_ok, Option.map_some, Option.map_some, Option.getD_some,
        Opened.calls]
      split
      · exact forEach_arrayEntry_calls _
      · exact singleObject_calls _ _

/-- What a message can do: the calls of each way through the handler, with what holds on it. -/
inductive Makes (message : Option (Json R)) : List (EngineCall R) → Prop where
  /-- The payload could not be parsed, or its stream could not be read. -/
  | unopened (hopen : openMessage message = none) : Makes message []
  | batch {m : Opened R} (hopen : openMessage message = some m) (hbatch : m.batch = true) :
    Makes message ((leading (tickIn "v") m.data.items).flatMap arrayCalls)
  /-- The object is not a whole trade. -/
  | noTick {m : Opened R} (hopen : openMessage message = some m) (hbatch : m.batch = false)
    (htick : tickIn "q" m.data = none) : Makes message []
  /-- A funding event without a rate. -/
  | noRate {m : Opened R} {tick : TradeTick R} (hopen : openMessage message = some m)
    (hbatch : m.batch = false) (htick : tickIn "q" m.data = some tick)
    (hstream : m.stream = "btcusdt@fundingRate") (hrate : m.data.field "r" Json.number = none) :
    Makes message []
  | funding {m : Opened R} {tick : TradeTick R} {rate : R} (hopen : openMessage message = some m)
    (hbatch : m.batch = false) (htick : tickIn "q" m.data = some tick)
    (hstream : m.stream = "btcusdt@fundingRate")
    (hrate : m.data.field "r" Json.number = some rate) :
    Makes message (.updateFunding rate tick.timestamp :: objectCalls tick)
  | mark {m : Opened R} {tick : TradeTick R} (hopen : openMessage message = some m)
    (hbatch : m.batch = false) (htick : tickIn "q" m.data = some tick)
    (hstream : m.stream = "btcusdt@markPrice") :
    Makes message (.updateMark tick.price tick.timestamp :: objectCalls tick)
  | trade {m : Opened R} {tick : TradeTick R} (hopen : openMessage message = some m)
    (hbatch : m.batch = false) (htick : tickIn "q" m.data = some tick)
    (hfunding : m.stream ≠ "btcusdt@fundingRate") (hmark : m.stream ≠ "btcusdt@markPrice") :
    Makes message (objectCalls tick)

/-- **The handler does one of these.** -/
theorem onMessage_makes (message : Option (Json R)) : Makes message (onMessage message).calls := by
  rw [onMessage_calls]
  cases hopen : openMessage message with
  | none => exact .unopened hopen
  | some m =>
    rw [Option.map_some, Option.getD_some, Opened.calls]
    by_cases hbatch : m.batch = true
    · rw [if_pos hbatch]
      exact .batch hopen hbatch
    · rw [if_neg hbatch]
      rw [Bool.not_eq_true] at hbatch
      cases htick : tickIn "q" m.data with
      | none =>
        rw [singleCalls, htick]
        exact .noTick hopen hbatch htick
      | some tick =>
        rw [singleCalls_of_tickIn htick, eventCalls]
        by_cases hfunding : m.stream = "btcusdt@fundingRate"
        · rw [if_pos hfunding]
          cases hrate : m.data.field "r" Json.number with
          | none => exact .noRate hopen hbatch htick hfunding hrate
          | some rate => exact .funding hopen hbatch htick hfunding hrate
        · rw [if_neg hfunding]
          by_cases hmark : m.stream = "btcusdt@markPrice"
          · rw [if_pos hmark]
            exact .mark hopen hbatch htick hmark
          · rw [if_neg hmark]
            exact .trade hopen hbatch htick hfunding hmark

theorem run_deliver (a : App R) (messages : List (Option (Json R))) :
    run deliver a messages = run App.call a (messages.flatMap fun m => (onMessage m).calls) :=
  run_flatMap _ _ _

end Binance

end SyntheticArbitrage
