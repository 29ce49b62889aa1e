import SyntheticArbitrage.Feed.Bybit
import SyntheticArbitrage.Feed.Separation

/-!
# What the feeds tell the program

A message of the Binance feed comes down to a list of news: trades, which the two branches of
`on_message` treat differently, mark prices and funding rates.  A message of the Bybit feed brings
none, since its ticks never reach the callback.

* `News`, `News.calls`: a piece of news and what the program does with it.
* `news`: the news of a message; `onMessage_calls_news`: a message does what its news do.
* `run_receive`: a run of messages of both feeds is a run of the calls of its news.
* `tradeBuffers_run`: after any run each trade buffer has the last trades of its symbol.
-/

namespace SyntheticArbitrage

/-- A piece of news. -/
inductive News (R : Type) where
  /-- A trade of a single object. -/
  | trade (tick : TradeTick R)
  /-- A trade of an array. -/
  | batchTrade (tick : TradeTick R)
  | mark (price : R) (ts : UInt64)
  | funding (rate : R) (nextTs : UInt64)

namespace News

variable {R : Type}

def tick : News R → Option (TradeTick R)
  | trade tick => some tick
  | batchTrade tick => some tick
  | _ => none

/-- What the program does with a piece of news. -/
def calls : News R → List (EngineCall R)
  | trade tick => Binance.objectCalls tick
  | batchTrade tick => Binance.arrayCalls tick
  | mark price ts => [.updateMark price ts]
  | funding rate nextTs => [.updateFunding rate nextTs]

def quote (symbol : String) (n : News R) : Option R :=
  n.tick.bind fun tick => if tick.symbol = symbol then some tick.price else none

def markPrice : News R → Option (R × UInt64)
  | mark price ts => some (price, ts)
  | _ => none

def fundingRate : News R → Option (R × UInt64)
  | funding rate nextTs => some (rate, nextTs)
  | _ => none

/-- The price that the spot engine is compared with, and its time: the trades of arrays are not. -/
def realTrade : News R → Option (R × UInt64)
  | trade tick => if tick.symbol = "ETHUSDT" then some (tick.price, tick.timestamp) else none
  | _ => none

def realPrice (n : News R) : Option R := n.realTrade.map Prod.fst

end News

variable {R : Type} [DoubleScan R]

namespace Binance

open Trace TradeTick

/-- The news of an opened message.  A funding or a mark event is a trade as well. -/
def Opened.news (m : Opened R) : List (News R) :=
  if m.batch then (leading (tickIn "v") m.data.items).map .batchTrade
  else
    match tickIn "q" m.data with
    | none => []
    | some tick =>
      if m.stream = "btcusdt@fundingRate" then
        match m.data.field "r" Json.number with
        | none => []
        | some rate => [.funding rate tick.timestamp, .trade tick]
      else if m.stream = "btcusdt@markPrice" then
        [.mark tick.price tick.timestamp, .trade tick]
      else [.trade tick]

def news (message : Option (Json R)) : List (News R) :=
  ((openMessage message).map Opened.news).getD []

/-- **A message does what its news do.** -/
theorem onMessage_calls_news (message : Option (Json R)) :
    (onMessage message).calls = (news message).flatMap News.calls := by
  rw [onMessage_calls, news]
  cases openMessage message with
  | none => rfl
  | some m =>
    rw [Option.map_some, Option.map_some, Option.getD_some, Option.getD_some, Opened.calls,
      Opened.news]
    by_cases hbatch : m.batch = true
    · rw [if_pos hbatch, if_pos hbatch, List.flatMap_map]
      rfl
    · rw [if_neg hbatch, if_neg hbatch]
      cases htick : tickIn "q" m.data with
      | none => rw [singleCalls, htick]; rfl
      | some tick =>
        rw [singleCalls_of_tickIn htick, eventCalls]
        by_cases hfunding : m.stream = "btcusdt@fundingRate"
        · cases hrate : m.data.field "r" Json.number <;> simp [hfunding, News.calls]
        · by_cases hmark : m.stream = "btcusdt@markPrice" <;> simp [hfunding, hmark, News.calls]

end Binance

def FeedMessage.news : FeedMessage R → List (News R)
  | binance message => Binance.news message
  | bybit _ => []

theorem FeedMessage.calls_news (m : FeedMessage R) : m.calls = m.news.flatMap News.calls := by
  cases m with
  | binance message => exact Binance.onMessage_calls_news message
  | bybit message =>
    rw [FeedMessage.calls, Bybit.engineCalls, Bybit.onMessage_calls]
    rfl

def App.hear (a : App R) (n : News R) : App R := run App.call a n.calls

/-- **A run of messages is a run of their news.** -/
theorem run_receive (a : App R) (messages : List (FeedMessage R)) :
    run receive a messages = run App.hear a (messages.flatMap FeedMessage.news) := by
  have hreceive : ∀ (a : App R) m, receive a m = run App.hear a (FeedMessage.news m) := by
    intro a m
    rw [receive, FeedMessage.calls_news]
    exact (run_flatMap News.calls a m.news).symm
  rw [show (receive : App R → FeedMessage R → App R) =
      fun a m => run App.hear a (FeedMessage.news m) from
    funext fun a => funext fun m => hreceive a m]
  exact run_flatMap FeedMessage.news a messages

/-! ## The trade buffers -/

namespace App

open TradeTick

/-- The trades that the messages of both feeds are decoded to. -/
def ticks (messages : List (FeedMessage R)) : List (TradeTick R) :=
  (messages.flatMap FeedMessage.news).filterMap News.tick

omit [DoubleScan R] in
theorem pushedTo_calls (symbol : String) (n : News R) :
    n.calls.filterMap (pushedTo symbol) = (n.tick.toList.filter fun t => t.symbol = symbol) := by
  have hengine : ∀ tick : TradeTick R,
      (Binance.engineCalls tick).filterMap (pushedTo symbol) = [] := by
    intro tick
    unfold Binance.engineCalls
    split_ifs <;> simp [pushedTo]
  have hcompare : ∀ tick : TradeTick R,
      (Binance.compareCalls tick).filterMap (pushedTo symbol) = [] := by
    intro tick
    unfold Binance.compareCalls
    split_ifs <;> simp [pushedTo]
  cases n with
  | trade tick =>
    rw [News.calls, Binance.objectCalls, List.filterMap_append, List.filterMap_append, hengine,
      hcompare, News.tick]
    by_cases hs : tick.symbol = symbol <;> simp [pushedTo, hs]
  | batchTrade tick =>
    rw [News.calls, Binance.arrayCalls, List.filterMap_append, hengine, News.tick]
    by_cases hs : tick.symbol = symbol <;> simp [pushedTo, hs]
  | mark price ts => rfl
  | funding rate nextTs => rfl

/-- **The trade buffers.**  After any run of messages of both feeds, in any order and up to one on
which `process` aborts, the buffer of each symbol has the last `max_buffer_size` trades of the
symbol that the messages were decoded to, oldest first. -/
theorem tradeBuffers_run (messages : List (FeedMessage R)) (symbol : String) :
    ((run receive initial messages).tradeBuffers symbol).items =
      Window.lastN maxBufferSize (ofSymbol symbol (ticks messages)) := by
  rw [run_receive]
  have hcalls : run hear (initial : App R) (messages.flatMap FeedMessage.news) =
      run call initial ((messages.flatMap FeedMessage.news).flatMap News.calls) :=
    run_flatMap News.calls _ _
  have hpushed : ((messages.flatMap FeedMessage.news).flatMap News.calls).filterMap
      (pushedTo symbol) = ofSymbol symbol (ticks messages) := by
    rw [List.filterMap_flatMap, ticks, ofSymbol]
    induction messages.flatMap FeedMessage.news with
    | nil => rfl
    | cons n ns ih =>
      rw [List.flatMap_cons, ih, pushedTo_calls, ← List.filter_append]
      cases h : n.tick with
      | none => rw [List.filterMap_cons_none h]; rfl
      | some tick => rw [List.filterMap_cons_some h]; rfl
  rw [hcalls, run_tradeBuffers, Window.pushAll_items, hpushed]
  rfl

end App

end SyntheticArbitrage
