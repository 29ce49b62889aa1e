import SyntheticArbitrage.Feed.Binance

/-!
# The streams of the perpetual and the trades

A message of the funding or of the mark price stream whose data decode as a trade falls through to
the trade updates.

* `carriedTicks`: the trades that a message is decoded to.
* `PerpOnly`: two states that differ at most in the funding and mark fields of `perp`.
* `StreamsSeparate`: messages of those streams change nothing else, so the spot prices are those of
  the last BTCUSDT trade message.
* `streamsSeparate_iff`: that is so exactly for the runs in which no such message decodes as a
  trade.
-/

namespace SyntheticArbitrage

variable {R : Type} [DoubleScan R]

namespace Binance

open Trace TradeTick App

/-! ## The trades of a message -/

/-- The message is on the funding stream or on the mark price stream. -/
def onEventStream (message : Option (Json R)) : Bool :=
  (openMessage message).any fun m =>
    m.stream = "btcusdt@fundingRate" || m.stream = "btcusdt@markPrice"

/-- The leading well-formed entries of an array of trades, or the trade that a single object is;
on the funding stream the object must have a funding rate too. -/
def Opened.ticks (m : Opened R) : List (TradeTick R) :=
  if m.batch then leading (tickIn "v") m.data.items
  else if m.stream = "btcusdt@fundingRate" ∧ m.data.field "r" Json.number = none then []
  else (tickIn "q" m.data).toList

/-- The trades that a message is decoded to. -/
def carriedTicks (message : Option (Json R)) : List (TradeTick R) :=
  ((openMessage message).map Opened.ticks).getD []

def tradeTicks (message : Option (Json R)) : List (TradeTick R) :=
  if onEventStream message then [] else carriedTicks message

/-- Only the funding and the mark fields of `perp` differ. -/
structure PerpOnly (a b : App R) : Prop where
  spot : b.perp.spot = a.perp.spot
  readySpot : b.perp.readySpot = a.perp.readySpot
  objects : b.objects = a.objects
  ethCross : b.ethCross = a.ethCross
  tradeBuffers : b.tradeBuffers = a.tradeBuffers

/-- Messages of the funding and the mark price stream change only the funding and mark fields of
`perp`, and so its spot and the BTCUSDT leg have the price of the last BTCUSDT trade. -/
structure StreamsSeparate (messages : List (Option (Json R))) : Prop where
  frame : ∀ m ∈ messages, onEventStream m = true → ∀ a : App R, PerpOnly a (deliver a m)
  spot : ∀ a : App R, (run deliver a messages).perp.getSpot =
    (((ofSymbol "BTCUSDT" (messages.flatMap tradeTicks)).map TradeTick.price).getLast?).getD
      a.perp.getSpot
  btcusdt : ∀ a : App R, (run deliver a messages).objects.ethSynth.btcusdt =
    (((ofSymbol "BTCUSDT" (messages.flatMap tradeTicks)).map TradeTick.price).getLast?).getD
      a.objects.ethSynth.btcusdt

/-! ## The calls of a trade -/

omit [DoubleScan R] in
theorem spotGiven_calls (tick : TradeTick R) :
    (arrayCalls tick).filterMap spotGiven =
        (if tick.symbol = "BTCUSDT" then [tick.price] else []) ∧
      (objectCalls tick).filterMap spotGiven =
        (if tick.symbol = "BTCUSDT" then [tick.price] else []) := by
  have hcalls := filterMap_tradeCalls spotGiven tick rfl rfl rfl rfl rfl
  simpa [spotGiven, List.filterMap_cons] using hcalls

/-! ## One message -/

theorem carriedTicks_of_opened {message : Option (Json R)} {m : Opened R}
    (h : openMessage message = some m) : carriedTicks message = m.ticks := by
  rw [carriedTicks, h]
  rfl

omit [DoubleScan R] in
theorem onEventStream_of_opened {message : Option (Json R)} {m : Opened R}
    (h : openMessage message = some m) :
    onEventStream message = true ↔
      m.stream = "btcusdt@fundingRate" ∨ m.stream = "btcusdt@markPrice" := by
  rw [onEventStream, h, Option.any_some, Bool.or_eq_true, decide_eq_true_eq, decide_eq_true_eq]

/-- The trade of a single object, unless it is a funding event without a rate. -/
theorem Opened.ticks_of_tickIn {m : Opened R} {tick : TradeTick R} (hbatch : m.batch = false)
    (htick : tickIn "q" m.data = some tick)
    (hrate : ¬ (m.stream = "btcusdt@fundingRate" ∧ m.data.field "r" Json.number = none)) :
    m.ticks = [tick] := by
  rw [Opened.ticks, hbatch, if_neg Bool.false_ne_true, if_neg hrate, htick]
  rfl

/-- Every trade that a message is decoded to is pushed to its buffer, and without a trade there is
no call at all. -/
theorem calls_of_carriedTicks (message : Option (Json R)) :
    (carriedTicks message = [] → (onMessage message).calls = []) ∧
      ∀ tick ∈ carriedTicks message, .pushTick tick ∈ (onMessage message).calls := by
  have hne : ¬ "btcusdt@markPrice" = "btcusdt@fundingRate" := by decide
  have hpush : ∀ tick : TradeTick R, .pushTick tick ∈ objectCalls tick := by
    intro tick
    simp [objectCalls]
  have hmakes := onMessage_makes message
  generalize (onMessage message).calls = ks at hmakes ⊢
  cases hmakes with
  | unopened hopen =>
    rw [carriedTicks, hopen]
    exact ⟨fun _ => rfl, fun _ hmem => absurd hmem List.not_mem_nil⟩
  | batch hopen hbatch =>
    rw [carriedTicks_of_opened hopen, Opened.ticks, if_pos hbatch]
    refine ⟨fun hnil => by rw [hnil]; rfl, fun tick htick => ?_⟩
    rw [List.mem_flatMap]
    exact ⟨tick, htick, by simp [arrayCalls]⟩
  | noTick hopen hbatch htick =>
    have hnil : carriedTicks message = [] := by
      rw [carriedTicks_of_opened hopen, Opened.ticks, hbatch, if_neg Bool.false_ne_true, htick]
      split <;> rfl
    rw [hnil]
    exact ⟨fun _ => rfl, fun _ hmem => absurd hmem List.not_mem_nil⟩
  | noRate hopen hbatch _ hstream hrate =>
    have hnil : carriedTicks message = [] := by
      rw [carriedTicks_of_opened hopen, Opened.ticks, hbatch, if_neg Bool.false_ne_true,
        if_pos ⟨hstream, hrate⟩]
    rw [hnil]
    exact ⟨fun _ => rfl, fun _ hmem => absurd hmem List.not_mem_nil⟩
  | funding hopen hbatch htick _ hrate =>
    rw [carriedTicks_of_opened hopen, Opened.ticks_of_tickIn hbatch htick fun hr => by
      rw [hrate] at hr; cases hr.2]
    simp [hpush]
  | mark hopen hbatch htick hstream =>
    rw [carriedTicks_of_opened hopen, Opened.ticks_of_tickIn hbatch htick fun hr => by
      rw [hstream] at hr; exact hne hr.1]
    simp [hpush]
  | trade hopen hbatch htick hfunding _ =>
    rw [carriedTicks_of_opened hopen,
      Opened.ticks_of_tickIn hbatch htick fun hr => hfunding hr.1]
    simp [hpush]

theorem calls_of_not_onEventStream {message : Option (Json R)} (h : onEventStream message = false) :
    (onMessage message).calls = (carriedTicks message).flatMap arrayCalls ∨
      (onMessage message).calls = (carriedTicks message).flatMap objectCalls := by
  have hmakes := onMessage_makes message
  generalize (onMessage message).calls = ks at hmakes ⊢
  cases hmakes with
  | unopened hopen =>
    rw [carriedTicks, hopen]
    exact Or.inl rfl
  | batch hopen hbatch =>
    rw [carriedTicks_of_opened hopen, Opened.ticks, if_pos hbatch]
    exact Or.inl rfl
  | noTick hopen hbatch htick =>
    rw [carriedTicks_of_opened hopen, Opened.ticks, hbatch, if_neg Bool.false_ne_true, htick]
    split <;> exact Or.inl rfl
  | noRate hopen _ _ hstream _ =>
    rw [(onEventStream_of_opened hopen).mpr (Or.inl hstream)] at h
    cases h
  | funding hopen _ _ hstream _ =>
    rw [(onEventStream_of_opened hopen).mpr (Or.inl hstream)] at h
    cases h
  | mark hopen _ _ hstream =>
    rw [(onEventStream_of_opened hopen).mpr (Or.inr hstream)] at h
    cases h
  | trade hopen hbatch htick hfunding _ =>
    rw [carriedTicks_of_opened hopen,
      Opened.ticks_of_tickIn hbatch htick fun hr => hfunding hr.1]
    exact Or.inr (List.append_nil _).symm

/-! ## Runs -/

/-- When no message of the event streams decodes as a trade, a reading that sees one call for each
BTCUSDT trade sees the trades of the trade streams. -/
theorem filterMap_calls {β : Type} {read : EngineCall R → Option β} {value : TradeTick R → β}
    (hread : ∀ tick : TradeTick R,
      (arrayCalls tick).filterMap read =
          (if tick.symbol = "BTCUSDT" then [value tick] else []) ∧
        (objectCalls tick).filterMap read =
          (if tick.symbol = "BTCUSDT" then [value tick] else []))
    {messages : List (Option (Json R))}
    (h : ∀ m ∈ messages, onEventStream m = true → carriedTicks m = []) :
    (messages.flatMap fun m => (onMessage m).calls).filterMap read =
      (ofSymbol "BTCUSDT" (messages.flatMap tradeTicks)).map value := by
  induction messages with
  | nil => rfl
  | cons m messages ih =>
    have hm : (onMessage m).calls.filterMap read =
        (ofSymbol "BTCUSDT" (tradeTicks m)).map value := by
      cases hevent : onEventStream m with
      | true =>
        rw [(calls_of_carriedTicks m).1 (h m List.mem_cons_self hevent), tradeTicks,
          if_pos hevent]
        rfl
      | false =>
        rw [tradeTicks, hevent, if_neg Bool.false_ne_true]
        rcases calls_of_not_onEventStream hevent with hc | hc
        · rw [hc, filterMap_flatMap_ofSymbol fun tick => (hread tick).1]
        · rw [hc, filterMap_flatMap_ofSymbol fun tick => (hread tick).2]
    rw [List.flatMap_cons, List.flatMap_cons, List.filterMap_append, hm,
      ih fun m' hm' => h m' (List.mem_cons_of_mem _ hm'), ofSymbol, ofSymbol, ofSymbol,
      List.filter_append, List.map_append]

theorem carriedTicks_eq_nil_of_tradeBuffers {message : Option (Json R)}
    (h : (deliver App.initial message).tradeBuffers = (App.initial : App R).tradeBuffers) :
    carriedTicks message = [] := by
  rw [List.eq_nil_iff_forall_not_mem]
  intro tick htick
  have hbuffer := congrFun h tick.symbol
  rw [deliver, run_tradeBuffers] at hbuffer
  have hitems := congrArg Window.items hbuffer
  rw [Window.pushAll_items] at hitems
  have hlength := congrArg List.length hitems
  have hpushed : tick ∈ (onMessage message).calls.filterMap (pushedTo tick.symbol) :=
    List.mem_filterMap.mpr ⟨_, (calls_of_carriedTicks message).2 tick htick, by simp [pushedTo]⟩
  have hpos := List.length_pos_of_mem hpushed
  rw [Window.lastN_length, List.length_append] at hlength
  have hempty : ((App.initial : App R).tradeBuffers tick.symbol).items.length = 0 := rfl
  have hcap : maxBufferSize = 20 := rfl
  omega

/-- **Which runs keep the streams apart**: those in which no message of the funding or the mark
price stream decodes as a trade.  The runs of `process` are those that a message on which it aborts
ends. -/
theorem streamsSeparate_iff (messages : List (Option (Json R))) :
    StreamsSeparate messages ↔ ∀ m ∈ messages, onEventStream m = true → carriedTicks m = [] := by
  constructor
  · intro h m hm hevent
    exact carriedTicks_eq_nil_of_tradeBuffers (h.frame m hm hevent App.initial).tradeBuffers
  · intro h
    refine ⟨fun m hm hevent a => ?_, fun a => ?_, fun a => ?_⟩
    · rw [deliver, (calls_of_carriedTicks m).1 (h m hm hevent)]
      exact ⟨rfl, rfl, rfl, rfl, rfl⟩
    · rw [run_deliver, run_lastWrite (fun a : App R => a.perp.getSpot) call_getSpot,
        filterMap_calls spotGiven_calls h]
    · rw [run_deliver,
        run_lastWrite (fun a : App R => a.objects.ethSynth.btcusdt) call_btcusdt,
        filterMap_calls (legGiven_calls (.inl rfl)) h]

def markTrade : Option (Json XDouble) :=
  some (.object [("data", .object [("T", .numberUnsigned 1700000000000),
    ("p", .string "40000.5"), ("q", .string "1"), ("s", .string "BTCUSDT")]),
    ("stream", .string "btcusdt@markPrice")])

/-- It becomes the spot price of `perp`. -/
theorem not_streamsSeparate_mark : ¬ StreamsSeparate [markTrade] := by
  intro h
  have hevent : onEventStream markTrade = true := by decide +kernel
  have hspot := (h.frame markTrade List.mem_cons_self hevent App.initial).spot
  revert hspot
  decide +kernel

end Binance

end SyntheticArbitrage
