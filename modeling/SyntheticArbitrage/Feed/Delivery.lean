import SyntheticArbitrage.Feed.Binance

/-!
# Mark prices and funding rates

Before `on_message` looks at the stream, it decodes the object as a trade, so a mark price or a
funding event needs the fields of a trade to get through.

* `markOf`, `fundingOf`: what a message says about the mark price and the funding rate.
* `EventsDelivered`: every such event of a run reaches `perp`, and `perp` shows the last ones.
* `eventsDelivered_iff`: that is so exactly for the runs in which each event also carries a price
  and a quantity.
-/

namespace SyntheticArbitrage

variable {R : Type} [DoubleScan R]

namespace Binance

open Trace TradeTick App

/-! ## The events of a message -/

/-- The two arguments of an event of a stream, whose object has the fields `s`, `key` and `T`. -/
def eventOf (stream key : String) (message : Option (Json R)) : Option (R × UInt64) := do
  let m ← openMessage message
  if m.stream = stream then
    let _symbol ← m.data.field "s" Json.getString
    let x ← m.data.field key Json.number
    let ts ← m.data.field "T" Json.timestamp
    pure (x, ts)
  else none

/-- The mark price of a message of `btcusdt@markPrice`, and its time. -/
def markOf (message : Option (Json R)) : Option (R × UInt64) :=
  eventOf "btcusdt@markPrice" "p" message

/-- The funding rate of a message of `btcusdt@fundingRate`, and the next funding time. -/
def fundingOf (message : Option (Json R)) : Option (R × UInt64) :=
  eventOf "btcusdt@fundingRate" "r" message

/-- The message brings a mark price or a funding rate. -/
def CarriesEvent (message : Option (Json R)) : Prop :=
  (markOf message).isSome = true ∨ (fundingOf message).isSome = true

/-- The object of the message has the price and the quantity of a trade. -/
def HasTradeFields (message : Option (Json R)) : Prop :=
  ∀ m, openMessage message = some m →
    (m.data.field "p" Json.number).isSome = true ∧ (m.data.field "q" Json.number).isSome = true

/-- Each mark price and each funding rate of a run is passed to `perp`, by exactly one call, and
`perp` shows the last ones. -/
structure EventsDelivered (messages : List (Option (Json R))) : Prop where
  marks : ∀ m ∈ messages, (onMessage m).calls.filterMap marked = (markOf m).toList
  fundings : ∀ m ∈ messages, (onMessage m).calls.filterMap funded = (fundingOf m).toList
  getMark : ∀ a : App R, (run deliver a messages).perp.getMark =
    (((messages.filterMap markOf).map Prod.fst).getLast?).getD a.perp.getMark
  getFundingRate : ∀ a : App R, (run deliver a messages).perp.getFundingRate =
    (((messages.filterMap fundingOf).map Prod.fst).getLast?).getD a.perp.getFundingRate

/-! ## The calls on `perp` -/

omit [DoubleScan R] in
/-- The calls of a trade give `perp` no mark price and no funding rate. -/
theorem perp_objectCalls (tick : TradeTick R) :
    (objectCalls tick).filterMap marked = [] ∧ (objectCalls tick).filterMap funded = [] := by
  unfold objectCalls engineCalls compareCalls
  split_ifs <;> simp [marked, funded]

omit [DoubleScan R] in
theorem field_of_batch {message : Option (Json R)} {m : Opened R}
    (h : openMessage message = some m) (hbatch : m.batch = true) {β : Type} (key : String)
    (convert : Json R → Except Stop β) : m.data.field key convert = none := by
  cases message with
  | none => cases h
  | some payload =>
    obtain ⟨stream, -, rfl⟩ := Option.map_eq_some_iff.mp h
    have harray : (dataOf payload).isArray = true := (Bool.and_eq_true_iff.mp hbatch).2
    cases hdata : dataOf payload with
    | array items => rfl
    | _ => rw [hdata] at harray; cases harray

/-- An event is there exactly when its stream and its fields are. -/
theorem eventOf_eq_some_iff {stream key : String} {message : Option (Json R)} {x : R}
    {ts : UInt64} :
    eventOf stream key message = some (x, ts) ↔
      ∃ m, openMessage message = some m ∧ m.stream = stream ∧
        (∃ symbol, m.data.field "s" Json.getString = some symbol) ∧
        m.data.field key Json.number = some x ∧ m.data.field "T" Json.timestamp = some ts := by
  unfold eventOf
  cases openMessage message with
  | none => simp
  | some m =>
    by_cases hs : m.stream = stream
    · simp [hs, Option.bind_eq_some_iff]
    · simp [hs]

/-! ## One message -/

/-- With the fields of a trade, an event is in a whole trade. -/
theorem tickIn_of_event {stream key : String} {message : Option (Json R)} {m : Opened R}
    (h : openMessage message = some m) (hevent : (eventOf stream key message).isSome = true)
    (hfields : HasTradeFields message) : ∃ tick, tickIn "q" m.data = some tick := by
  obtain ⟨⟨x, ts⟩, hevent⟩ := Option.isSome_iff_exists.mp hevent
  obtain ⟨m', h', -, ⟨symbol, hs⟩, -, ht⟩ := eventOf_eq_some_iff.mp hevent
  rw [h, Option.some.injEq] at h'
  subst h'
  obtain ⟨hp, hq⟩ := hfields m h
  obtain ⟨price, hp⟩ := Option.isSome_iff_exists.mp hp
  obtain ⟨quantity, hq⟩ := Option.isSome_iff_exists.mp hq
  exact ⟨⟨symbol, price, quantity, ts⟩, tickIn_eq_some_iff.mpr ⟨hs, hp, hq, ht⟩⟩

/-- The event of an object that is a whole trade. -/
theorem eventOf_of_tickIn {stream key : String} {message : Option (Json R)} {m : Opened R}
    {tick : TradeTick R} (h : openMessage message = some m)
    (htick : tickIn "q" m.data = some tick) :
    eventOf stream key message =
      if m.stream = stream then
        (m.data.field key Json.number).map fun x => (x, tick.timestamp)
      else none := by
  obtain ⟨hs, -, -, ht⟩ := tickIn_eq_some_iff.mp htick
  unfold eventOf
  rw [h]
  simp only [Option.bind_eq_bind, Option.bind_some, Option.pure_def, hs, ht, Option.map_eq_bind]
  rfl

theorem event_of_batch {message : Option (Json R)} {m : Opened R}
    (h : openMessage message = some m) (hbatch : m.batch = true) (stream key : String) :
    eventOf stream key message = none := by
  unfold eventOf
  rw [h]
  simp [field_of_batch h hbatch]

/-- A message has its event delivered when it brings none, or the fields of a trade with it. -/
theorem delivered_of_hasTradeFields {message : Option (Json R)}
    (h : CarriesEvent message → HasTradeFields message) :
    (onMessage message).calls.filterMap marked = (markOf message).toList ∧
      (onMessage message).calls.filterMap funded = (fundingOf message).toList := by
  have hmakes := onMessage_makes message
  have hne : ¬ "btcusdt@fundingRate" = "btcusdt@markPrice" := by decide
  generalize (onMessage message).calls = ks at hmakes ⊢
  unfold markOf fundingOf
  cases hmakes with
  | unopened hopen =>
    rw [eventOf, eventOf, hopen]
    exact ⟨rfl, rfl⟩
  | batch hopen hbatch =>
    rw [event_of_batch hopen hbatch, event_of_batch hopen hbatch, List.filterMap_flatMap,
      List.filterMap_flatMap]
    simp [filterMap_arrayCalls, perp_objectCalls]
  | noTick hopen hbatch htick =>
    have hnone : ¬ CarriesEvent message := by
      intro hevent
      obtain ⟨tick, hsome⟩ := hevent.elim (fun he => tickIn_of_event hopen he (h hevent))
        (fun he => tickIn_of_event hopen he (h hevent))
      rw [htick] at hsome
      cases hsome
    rw [CarriesEvent, not_or, Option.not_isSome_iff_eq_none, Option.not_isSome_iff_eq_none]
      at hnone
    obtain ⟨hmark, hfund⟩ := hnone
    rw [markOf] at hmark
    rw [fundingOf] at hfund
    rw [hmark, hfund]
    exact ⟨rfl, rfl⟩
  | noRate hopen _ htick hstream hrate =>
    rw [eventOf_of_tickIn hopen htick, eventOf_of_tickIn hopen htick, hstream, if_neg hne,
      if_pos rfl, hrate]
    exact ⟨rfl, rfl⟩
  | @funding m tick rate hopen _ htick hstream hrate =>
    obtain ⟨hmark, hfund⟩ := perp_objectCalls tick
    rw [eventOf_of_tickIn hopen htick, eventOf_of_tickIn hopen htick, hstream, if_neg hne,
      if_pos rfl, hrate, List.filterMap_cons, List.filterMap_cons, hmark, hfund]
    exact ⟨rfl, rfl⟩
  | @mark m tick hopen _ htick hstream =>
    obtain ⟨hmark, hfund⟩ := perp_objectCalls tick
    obtain ⟨-, hprice, -, -⟩ := tickIn_eq_some_iff.mp htick
    rw [eventOf_of_tickIn hopen htick, eventOf_of_tickIn hopen htick, hstream, if_pos rfl,
      if_neg fun he => hne he.symm, hprice, List.filterMap_cons, List.filterMap_cons, hmark, hfund]
    exact ⟨rfl, rfl⟩
  | trade hopen _ htick hfunding hmarkPrice =>
    rw [eventOf_of_tickIn hopen htick, eventOf_of_tickIn hopen htick, if_neg hfunding,
      if_neg hmarkPrice]
    exact perp_objectCalls _

/-- An event is delivered only with the fields of a trade. -/
theorem hasTradeFields_of_delivered {message : Option (Json R)}
    (hmarks : (onMessage message).calls.filterMap marked = (markOf message).toList)
    (hfundings : (onMessage message).calls.filterMap funded = (fundingOf message).toList)
    (hevent : CarriesEvent message) : HasTradeFields message := by
  have hcalls : (onMessage message).calls ≠ [] := by
    intro hnil
    rw [hnil] at hmarks hfundings
    rcases hevent with he | he
    · obtain ⟨e, he⟩ := Option.isSome_iff_exists.mp he
      rw [he] at hmarks
      cases hmarks
    · obtain ⟨e, he⟩ := Option.isSome_iff_exists.mp he
      rw [he] at hfundings
      cases hfundings
  have hfields : ∀ {m : Opened R} {tick : TradeTick R}, openMessage message = some m →
      tickIn "q" m.data = some tick → HasTradeFields message := by
    intro m tick hopen htick m' hopen'
    rw [hopen, Option.some.injEq] at hopen'
    subst hopen'
    obtain ⟨-, hp, hq, -⟩ := tickIn_eq_some_iff.mp htick
    rw [hp, hq]
    exact ⟨rfl, rfl⟩
  have hmakes := onMessage_makes message
  generalize (onMessage message).calls = ks at hmakes hcalls
  cases hmakes with
  | unopened _ => exact absurd rfl hcalls
  | batch hopen hbatch =>
    rw [CarriesEvent, markOf, fundingOf, event_of_batch hopen hbatch,
      event_of_batch hopen hbatch] at hevent
    rcases hevent with he | he <;> cases he
  | noTick _ _ _ => exact absurd rfl hcalls
  | noRate _ _ _ _ _ => exact absurd rfl hcalls
  | funding hopen _ htick _ _ => exact hfields hopen htick
  | mark hopen _ htick _ => exact hfields hopen htick
  | trade hopen _ htick _ _ => exact hfields hopen htick

/-! ## Runs -/

/-- The values that the calls of a run give, when the calls of each message give its event. -/
theorem filterMap_run {read : EngineCall R → Option (R × UInt64)}
    {event : Option (Json R) → Option (R × UInt64)} {messages : List (Option (Json R))}
    (h : ∀ m ∈ messages, (onMessage m).calls.filterMap read = (event m).toList) :
    (messages.flatMap fun m => (onMessage m).calls).filterMap (fun k => (read k).map Prod.fst) =
      (messages.filterMap event).map Prod.fst := by
  rw [← List.map_filterMap, List.filterMap_flatMap, List.filterMap_eq_flatMap_toList]
  exact congrArg (List.map Prod.fst) (List.flatMap_congr h)

/-- **Which runs deliver their mark prices and funding rates**: those in which each message that
brings one has the price and the quantity of a trade as well.  The runs of `process` are those that
a message on which it aborts ends. -/
theorem eventsDelivered_iff (messages : List (Option (Json R))) :
    EventsDelivered messages ↔ ∀ m ∈ messages, CarriesEvent m → HasTradeFields m := by
  constructor
  · intro h m hm
    exact hasTradeFields_of_delivered (h.marks m hm) (h.fundings m hm)
  · intro h
    have hmarks : ∀ m ∈ messages, (onMessage m).calls.filterMap marked = (markOf m).toList :=
      fun m hm => (delivered_of_hasTradeFields (h m hm)).1
    have hfundings : ∀ m ∈ messages,
        (onMessage m).calls.filterMap funded = (fundingOf m).toList :=
      fun m hm => (delivered_of_hasTradeFields (h m hm)).2
    refine ⟨hmarks, hfundings, fun a => ?_, fun a => ?_⟩
    · rw [run_deliver, run_lastWrite (fun a : App R => a.perp.getMark) call_getMark,
        filterMap_run hmarks]
    · rw [run_deliver,
        run_lastWrite (fun a : App R => a.perp.getFundingRate) call_getFundingRate,
        filterMap_run hfundings]

def markMessage : Option (Json XDouble) :=
  some (.object [("data", .object [("T", .numberUnsigned 1700000000000),
    ("p", .string "40000.5"), ("s", .string "BTCUSDT")]), ("stream", .string "btcusdt@markPrice")])

theorem not_eventsDelivered_mark : ¬ EventsDelivered [markMessage] := by
  intro h
  have hmark := h.marks markMessage List.mem_cons_self
  revert hmark
  decide +kernel

end Binance

end SyntheticArbitrage
