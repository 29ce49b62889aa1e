import SyntheticArbitrage.Feed.Binance

/-!
# The Bybit stream

`run_bybit_stream` of `src/bybit_clean.cpp` with the callback that `main` gives it.  The message
handler captures the callback, decodes every entry into a local tick, and lets the tick go.

* `onMessage`: the handler; its calls are the invocations of the callback.
* `callback`: the callback of `main`.
* `receive`, `process`: the program after a message, and on the messages that arrive.
* `calls_of_delivered`, `NoLostTick.of_delivered`: if every tick reached the callback, the
  engines would have what they are owed.
* `noLostTick_iff`: no tick is lost exactly in the runs that bring no well-formed tick.
-/

namespace SyntheticArbitrage

variable {R : Type} [DoubleScan R]

namespace Bybit

open Trace TradeTick

/-! ## The source -/

def entryTick (entry : Json R) : Except Stop (TradeTick R) := decodeTick Json.constIndex "v" entry

def onEntry (entry : Json R) : Trace Stop (TradeTick R) Unit := do
  let _tick ← lift (entryTick entry)
  -- the tick goes out of scope here: the callback is not called
  pure ()

/-- The message handler, with the ticks that it calls the callback with. -/
def onMessage (message : Option (Json R)) : Trace Stop (TradeTick R) Unit := do
  let payload ← lift (Binance.parsed message)
  if !payload.contains "data" then
    return ()
  let data ← lift (payload.index "data")
  forEach onEntry data.items

/-- The callback that `main` passes to `run_bybit_stream`. -/
def callback (tick : TradeTick R) : Handler R Unit := do
  if tick.symbol = "ETHUSDT" then
    emit (.crossUpdate "Bybit" tick.price tick.timestamp)
    emit (.synth (.compareToReal tick.price tick.timestamp))
  if tick.symbol = "BTCUSDT" then
    emit (.updateMark tick.price tick.timestamp)

def engineCalls (message : Option (Json R)) : List (EngineCall R) :=
  (onMessage message).calls.flatMap fun tick => (callback tick).calls

end Bybit

inductive FeedMessage (R : Type) where
  | binance (message : Option (Json R))
  | bybit (message : Option (Json R))

def FeedMessage.calls : FeedMessage R → List (EngineCall R)
  | binance message => (Binance.onMessage message).calls
  | bybit message => Bybit.engineCalls message

/-- The program after a message of either feed. -/
def receive (a : App R) (m : FeedMessage R) : App R := run App.call a m.calls

def FeedMessage.aborts : FeedMessage R → Bool
  | binance message => Binance.aborts message
  | bybit message => aborted (Bybit.onMessage message).result

/-- The process on the messages of the two feeds; it takes none after one that aborts it. -/
def process (a : App R) (messages : List (FeedMessage R)) : App R :=
  runUntil FeedMessage.aborts receive a messages

/-- The process is a run of `receive`, of the messages that it takes: the theorems on all runs are
about it. -/
theorem process_eq (a : App R) (messages : List (FeedMessage R)) :
    process a messages = run receive a (upTo FeedMessage.aborts messages) :=
  runUntil_eq FeedMessage.aborts a messages

namespace Bybit

open Trace TradeTick

/-! ## What a tick is owed -/

/-- The well-formed entries of the `data` array of a message, up to the first malformed one. -/
def leadingTicks (message : Option (Json R)) : List (TradeTick R) :=
  match message.bind (Json.member "data") with
  | some (.array entries) => leading (tickIn "v") entries
  | _ => []

def ticks (messages : List (FeedMessage R)) : List (TradeTick R) :=
  messages.flatMap fun
    | .binance _ => []
    | .bybit message => leadingTicks message

def calls (messages : List (FeedMessage R)) : List (EngineCall R) :=
  messages.flatMap fun
    | .binance _ => []
    | .bybit message => engineCalls message

def bybitGiven : EngineCall R → Option R
  | .crossUpdate venue price _ => if venue = "Bybit" then some price else none
  | _ => none

/-- No Bybit tick of a run is lost: each one is passed to the callback once, in order; the price of
the venue is that of the last ETHUSDT tick; and each tick makes its call on the engines. -/
structure NoLostTick (messages : List (FeedMessage R)) : Prop where
  delivered : ∀ message, .bybit message ∈ messages →
    (onMessage message).calls = leadingTicks message
  price : ∀ a : App R, (run receive a messages).ethCross.getPrice "Bybit" =
    (((ofSymbol "ETHUSDT" (ticks messages)).map TradeTick.price).getLast?).getD
      (a.ethCross.getPrice "Bybit")
  compares : (calls messages).filterMap App.compared =
    (ofSymbol "ETHUSDT" (ticks messages)).map fun tick => (tick.price, tick.timestamp)
  marks : (calls messages).filterMap App.marked =
    (ofSymbol "BTCUSDT" (ticks messages)).map fun tick => (tick.price, tick.timestamp)

/-! ## The callback -/

omit [DoubleScan R] in
theorem callback_calls (tick : TradeTick R) :
    (callback tick).calls =
      (if tick.symbol = "ETHUSDT" then
        [.crossUpdate "Bybit" tick.price tick.timestamp,
          .synth (.compareToReal tick.price tick.timestamp)] else []) ++
      (if tick.symbol = "BTCUSDT" then [.updateMark tick.price tick.timestamp] else []) := by
  unfold callback
  by_cases hu : tick.symbol = "ETHUSDT"
  · simp [hu]
    rfl
  · by_cases hb : tick.symbol = "BTCUSDT" <;> simp [hu, hb]

omit [DoubleScan R] in
theorem filterMap_bybitGiven_callback (ts : List (TradeTick R)) :
    (ts.flatMap fun tick => (callback tick).calls).filterMap bybitGiven =
      (ofSymbol "ETHUSDT" ts).map TradeTick.price := by
  refine filterMap_flatMap_ofSymbol (fun tick => ?_) ts
  rw [callback_calls]
  by_cases hu : tick.symbol = "ETHUSDT"
  · simp [hu, bybitGiven]
  · by_cases hb : tick.symbol = "BTCUSDT" <;> simp [hu, hb, bybitGiven]

omit [DoubleScan R] in
theorem filterMap_compared_callback (ts : List (TradeTick R)) :
    (ts.flatMap fun tick => (callback tick).calls).filterMap App.compared =
      (ofSymbol "ETHUSDT" ts).map fun tick => (tick.price, tick.timestamp) := by
  refine filterMap_flatMap_ofSymbol (fun tick => ?_) ts
  rw [callback_calls]
  by_cases hu : tick.symbol = "ETHUSDT"
  · simp [hu]
    rfl
  · by_cases hb : tick.symbol = "BTCUSDT" <;> simp [hu, hb, App.compared, App.synthCall]

omit [DoubleScan R] in
theorem filterMap_marked_callback (ts : List (TradeTick R)) :
    (ts.flatMap fun tick => (callback tick).calls).filterMap App.marked =
      (ofSymbol "BTCUSDT" ts).map fun tick => (tick.price, tick.timestamp) := by
  refine filterMap_flatMap_ofSymbol (fun tick => ?_) ts
  rw [callback_calls]
  by_cases hu : tick.symbol = "ETHUSDT"
  · simp [hu, App.marked]
  · by_cases hb : tick.symbol = "BTCUSDT" <;> simp [hu, hb, App.marked]

/-! ## The venue price -/

theorem call_bybitPrice (a : App R) (k : EngineCall R) :
    (a.call k).ethCross.getPrice "Bybit" = (bybitGiven k).getD (a.ethCross.getPrice "Bybit") := by
  cases k with
  | crossUpdate venue price ts =>
    rw [App.call, CrossExchangePair.getPrice_update (Or.inr rfl), bybitGiven]
    split <;> rfl
  | _ => rfl

omit [DoubleScan R] in
theorem bybitGiven_objectCalls (tick : TradeTick R) :
    (Binance.objectCalls tick).filterMap bybitGiven = [] := by
  have hne : ¬ "Binance" = "Bybit" := by decide
  unfold Binance.objectCalls Binance.engineCalls Binance.compareCalls
  split_ifs <;> simp [bybitGiven, hne]

/-- The Binance handler never writes the price of the Bybit venue. -/
theorem bybitGiven_binance (message : Option (Json R)) :
    (Binance.onMessage message).calls.filterMap bybitGiven = [] := by
  have hmakes := Binance.onMessage_makes message
  generalize (Binance.onMessage message).calls = ks at hmakes ⊢
  cases hmakes with
  | unopened _ => rfl
  | batch _ _ =>
    rw [List.filterMap_flatMap]
    simp [Binance.filterMap_arrayCalls, bybitGiven_objectCalls]
  | noTick _ _ _ => rfl
  | noRate _ _ _ _ _ => rfl
  | funding _ _ _ _ _ => exact (List.filterMap_cons_none rfl).trans (bybitGiven_objectCalls _)
  | mark _ _ _ _ => exact (List.filterMap_cons_none rfl).trans (bybitGiven_objectCalls _)
  | trade _ _ _ _ _ => exact bybitGiven_objectCalls _

theorem bybitGiven_calls (messages : List (FeedMessage R)) :
    (messages.flatMap FeedMessage.calls).filterMap bybitGiven =
      (calls messages).filterMap bybitGiven := by
  induction messages with
  | nil => rfl
  | cons m messages ih =>
    rw [calls, List.flatMap_cons, List.flatMap_cons, List.filterMap_append,
      List.filterMap_append, ih]
    cases m with
    | binance message => rw [FeedMessage.calls, bybitGiven_binance]; rfl
    | bybit message => rfl

/-! ## Delivery -/

theorem calls_of_delivered {messages : List (FeedMessage R)}
    (h : ∀ message, .bybit message ∈ messages → (onMessage message).calls = leadingTicks message) :
    calls messages = (ticks messages).flatMap fun tick => (callback tick).calls := by
  induction messages with
  | nil => rfl
  | cons m messages ih =>
    rw [calls, ticks, List.flatMap_cons, List.flatMap_cons, List.flatMap_append]
    refine congrArg₂ (· ++ ·) ?_ (ih fun message hm => h message (List.mem_cons_of_mem _ hm))
    cases m with
    | binance message => rfl
    | bybit message =>
      show engineCalls message = _
      rw [engineCalls, h message List.mem_cons_self]

/-- **Delivery is all that is missing**: were each tick passed to the callback, the price of the
venue and the calls on the engines would follow. -/
theorem NoLostTick.of_delivered {messages : List (FeedMessage R)}
    (h : ∀ message, .bybit message ∈ messages → (onMessage message).calls = leadingTicks message) :
    NoLostTick messages where
  delivered := h
  price := by
    intro a
    have hrun : run receive a messages = run App.call a (messages.flatMap FeedMessage.calls) :=
      run_flatMap FeedMessage.calls a messages
    rw [hrun, run_lastWrite (fun a : App R => a.ethCross.getPrice "Bybit") call_bybitPrice,
      bybitGiven_calls, calls_of_delivered h, filterMap_bybitGiven_callback]
  compares := by rw [calls_of_delivered h, filterMap_compared_callback]
  marks := by rw [calls_of_delivered h, filterMap_marked_callback]

/-- The handler never calls the callback. -/
theorem onMessage_calls (message : Option (Json R)) : (onMessage message).calls = [] := by
  have hloop : ∀ entries : List (Json R), (forEach onEntry entries).calls = [] := by
    intro entries
    have h := calls_forEach entryTick (fun _ => (pure () : Trace Stop (TradeTick R) Unit))
      (fun _ => rfl) entries
    rw [show (forEach onEntry entries).calls = _ from h]
    simp
  cases message with
  | none => rfl
  | some payload =>
    show (if !payload.contains "data" then pure ()
      else lift (payload.index "data") >>= fun data => forEach onEntry data.items :
        Trace Stop (TradeTick R) Unit).calls = []
    split
    · rfl
    · cases payload.index "data" with
      | error e => rfl
      | ok data => exact hloop data.items

/-- **Which runs lose no Bybit tick**: exactly those in which no message has a well-formed leading
entry.  The runs of `process` are those that a message on which it aborts ends. -/
theorem noLostTick_iff (messages : List (FeedMessage R)) :
    NoLostTick messages ↔ ∀ message, .bybit message ∈ messages → leadingTicks message = [] := by
  constructor
  · intro h message hm
    rw [← h.delivered message hm, onMessage_calls]
  · intro h
    refine NoLostTick.of_delivered fun message hm => ?_
    rw [onMessage_calls, h message hm]

def tradeMessage : Option (Json XDouble) :=
  some (.object [("data", .array [.object [("T", .numberUnsigned 1700000000000),
    ("p", .string "2001.50"), ("s", .string "ETHUSDT"), ("v", .string "0.75")]]),
    ("topic", .string "publicTrade.ETHUSDT")])

theorem not_noLostTick_trade : ¬ NoLostTick [.bybit tradeMessage] := by
  intro h
  have hticks := h.delivered tradeMessage List.mem_cons_self
  rw [onMessage_calls] at hticks
  exact absurd hticks (by decide +kernel)

end Bybit

end SyntheticArbitrage
