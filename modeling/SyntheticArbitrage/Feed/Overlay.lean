import SyntheticArbitrage.Feed.News
import SyntheticArbitrage.SpotSynth.Mispricing
import SyntheticArbitrage.SpotSynth.Wiring

/-!
# The figures that the program displays

`stats_overlay` of `src/main.cpp` reads the engines every two seconds, one after the other, while
the feeds go on.

* `statsOverlay`: the figures, each from the state in which it is read.
* `Reference`: the same figures, read off the news alone.
* `perpRemembers_run`: the inputs of the perpetual after any calls.
* `statsOverlay_refines`: **whatever messages arrive between the readings**, each figure is the one
  that its news give.
-/

namespace SyntheticArbitrage

/-- What `stats_overlay` reads, in the order of the source.  The last mark price, the funding rate
and the figures of the tracker are read while they are printed. -/
inductive Reading where
  | real
  | synth
  | avgDelta
  | fundingAdjusted
  | mark
  | fundingRate
  | count
  | pnl
  deriving DecidableEq

/-- `=== Arbitrage Engine Snapshot ===` -/
structure Snapshot (R : Type) where
  synth : R
  fundingAdjusted : R
  real : R
  spread : R
  avgDelta : R
  mark : R
  fundingRate : R
  signals : ℕ
  pnl : R
  deriving DecidableEq

/-- One round of `stats_overlay`, when the system clock reads `nowMs`; `seen r` is the state of the
program at the reading `r`. -/
def statsOverlay {R : Type} [DoubleOps R] (seen : Reading → App R) (nowMs : Int64) : Snapshot R :=
  let real := (seen .real).ethCross.getPrice "Binance"
  let synth := (seen .synth).objects.ethSynth.getSynthetic
  let avgDelta := (seen .avgDelta).objects.ethSynth.getAverageMispricing
  let fundingAdjusted := (seen .fundingAdjusted).perp.getSynthetic nowMs
  { synth, fundingAdjusted, real
    spread := synth - real
    avgDelta
    mark := (seen .mark).perp.getMark
    fundingRate := (seen .fundingRate).perp.getFundingRate
    signals := (seen .count).objects.tracker.pnlTracker.getCount
    pnl := (seen .pnl).objects.tracker.pnlTracker.getPnL }

/-! ## The reference -/

namespace Display

variable {R : Type}

def latest {β : Type} (read : News R → Option β) (ns : List (News R)) : Option β :=
  (ns.filterMap read).getLast?

variable [DoubleOps R]

/-- The price of ETHUSDT that the last prices of the two legs make. -/
def synthetic (ns : List (News R)) : Option R := do
  let ethbtc ← latest (News.quote "ETHBTC") ns
  let btcusdt ← latest (News.quote "BTCUSDT") ns
  pure (ethbtc * btcusdt)

/-- The distance of the synthetic price from the price of a trade, when both legs have a price. -/
def delta (past : List (News R)) (n : News R) : List R :=
  match n.realPrice, synthetic past with
  | some real, some synth => [synth - real]
  | _, _ => []

def deltas (ns : List (News R)) : List R := outputs (fun past n => past ++ [n]) delta [] ns

def average (ds : List R) : R :=
  if ds.isEmpty then 0 else ds.foldl (· + ·) 0 / DoubleOps.ofInt ds.length

/-- `spot + rate * spot * hours`, with the hours from `nowMs` to the next funding time. -/
def fundingAdjusted (ns : List (News R)) (nowMs : Int64) : R :=
  match latest (News.quote "BTCUSDT") ns, latest News.fundingRate ns with
  | some spot, some (rate, nextTs) =>
    spot + rate * spot *
      ((DoubleOps.ofInt nextTs.toNat - DoubleOps.ofInt nowMs.toInt) / DoubleOps.lit 3600000.0)
  | _, _ => 0

/-- The figures of one round; `heard r` are the news before the reading `r`. -/
def snapshot (heard : Reading → List (News R)) (nowMs : Int64) : Snapshot R :=
  let real := (latest (News.quote "ETHUSDT") (heard .real)).getD 0
  let synth := (synthetic (heard .synth)).getD 0
  { synth, real
    spread := synth - real
    fundingAdjusted := fundingAdjusted (heard .fundingAdjusted) nowMs
    avgDelta := average (Window.lastN 2 (deltas (heard .avgDelta)))
    mark := ((latest News.markPrice (heard .mark)).map Prod.fst).getD 0
    fundingRate := ((latest News.fundingRate (heard .fundingRate)).map Prod.fst).getD 0
    -- the tracker is never given a trade
    signals := 0
    pnl := 0 }

end Display

/-! ## The calls of the news -/

namespace News

variable {R : Type}

def synthCall : News R → Option (SynthCall R)
  | trade tick =>
    if tick.symbol = "BTCUSDT" then some (.update "BTCUSDT" tick.price tick.timestamp)
    else if tick.symbol = "ETHBTC" then some (.update "ETHBTC" tick.price tick.timestamp)
    else if tick.symbol = "ETHUSDT" then some (.compareToReal tick.price tick.timestamp)
    else none
  | batchTrade tick =>
    if tick.symbol = "BTCUSDT" then some (.update "BTCUSDT" tick.price tick.timestamp)
    else if tick.symbol = "ETHBTC" then some (.update "ETHBTC" tick.price tick.timestamp)
    else none
  | _ => none

def binanceGiven : EngineCall R → Option R
  | .crossUpdate venue price _ => if venue = "Binance" then some price else none
  | _ => none

theorem filterMap_calls {β : Type} {given : EngineCall R → Option β} {read : News R → Option β}
    (h : ∀ n : News R, n.calls.filterMap given = (read n).toList) (ns : List (News R)) :
    (ns.flatMap calls).filterMap given = ns.filterMap read := by
  rw [List.filterMap_flatMap, List.filterMap_eq_flatMap_toList]
  exact List.flatMap_congr fun n _ => h n

theorem symbol_cases (symbol : String) :
    symbol = "BTCUSDT" ∨ symbol = "ETHBTC" ∨ symbol = "ETHUSDT" ∨
      (symbol ≠ "BTCUSDT" ∧ symbol ≠ "ETHBTC" ∧ symbol ≠ "ETHUSDT") := by
  by_cases hb : symbol = "BTCUSDT"
  · exact Or.inl hb
  · by_cases he : symbol = "ETHBTC"
    · exact Or.inr (Or.inl he)
    · by_cases hu : symbol = "ETHUSDT"
      · exact Or.inr (Or.inr (Or.inl hu))
      · exact Or.inr (Or.inr (Or.inr ⟨hb, he, hu⟩))

/-- A trade of an unknown symbol goes to its buffer only. -/
theorem calls_of_unknown {tick : TradeTick R} (hb : tick.symbol ≠ "BTCUSDT")
    (he : tick.symbol ≠ "ETHBTC") (hu : tick.symbol ≠ "ETHUSDT") :
    (trade tick).calls = [.pushTick tick] ∧ (batchTrade tick).calls = [.pushTick tick] := by
  simp [calls, Binance.objectCalls, Binance.arrayCalls, Binance.engineCalls,
    Binance.compareCalls, hb, he, hu]

/-- What a reading sees of the calls of the news, when it sees what it should of the trades of the
symbols that the engines know, and nothing of the pushes. -/
theorem filterMap_calls_of_known {β : Type} {given : EngineCall R → Option β}
    {read : News R → Option β} (hpush : ∀ tick, given (.pushTick tick) = none)
    (hknown : ∀ (symbol : String), symbol = "BTCUSDT" ∨ symbol = "ETHBTC" ∨ symbol = "ETHUSDT" →
      ∀ price quantity ts,
        (trade ⟨symbol, price, quantity, ts⟩).calls.filterMap given =
            (read (.trade ⟨symbol, price, quantity, ts⟩)).toList ∧
          (batchTrade ⟨symbol, price, quantity, ts⟩).calls.filterMap given =
            (read (.batchTrade ⟨symbol, price, quantity, ts⟩)).toList)
    (hunknown : ∀ tick : TradeTick R, tick.symbol ≠ "BTCUSDT" → tick.symbol ≠ "ETHBTC" →
      tick.symbol ≠ "ETHUSDT" → read (.trade tick) = none ∧ read (.batchTrade tick) = none)
    (hevent : ∀ x ts, given (.updateMark x ts) = read (.mark x ts) ∧
      given (.updateFunding x ts) = read (.funding x ts)) (n : News R) :
    n.calls.filterMap given = (read n).toList := by
  have htrade : ∀ tick : TradeTick R,
      (trade tick).calls.filterMap given = (read (.trade tick)).toList ∧
        (batchTrade tick).calls.filterMap given = (read (.batchTrade tick)).toList := by
    intro tick
    rcases symbol_cases tick.symbol with hs | hs | hs | ⟨hb, he, hu⟩
    · exact hknown tick.symbol (Or.inl hs) _ _ _
    · exact hknown tick.symbol (Or.inr (Or.inl hs)) _ _ _
    · exact hknown tick.symbol (Or.inr (Or.inr hs)) _ _ _
    · obtain ⟨hcalls, hbatch⟩ := calls_of_unknown hb he hu
      obtain ⟨hread, hreadBatch⟩ := hunknown tick hb he hu
      rw [hcalls, hbatch, hread, hreadBatch, List.filterMap_cons_none (hpush tick)]
      exact ⟨rfl, rfl⟩
  cases n with
  | trade tick => exact (htrade tick).1
  | batchTrade tick => exact (htrade tick).2
  | mark x ts =>
    rw [calls, List.filterMap_cons, (hevent x ts).1]
    cases read (.mark x ts) <;> rfl
  | funding x ts =>
    rw [calls, List.filterMap_cons, (hevent x ts).2]
    cases read (.funding x ts) <;> rfl

theorem quote_of_unknown {symbol : String} {tick : TradeTick R} (h : tick.symbol ≠ symbol) :
    quote symbol (.trade tick) = none ∧ quote symbol (.batchTrade tick) = none := by
  simp [quote, News.tick, h]

theorem binanceGiven_calls (n : News R) :
    n.calls.filterMap binanceGiven = (n.quote "ETHUSDT").toList := by
  refine filterMap_calls_of_known (fun _ => rfl) ?_ (fun _ _ _ hu => quote_of_unknown hu)
    (fun _ _ => ⟨rfl, rfl⟩) n
  rintro symbol (rfl | rfl | rfl) price quantity ts <;> exact ⟨rfl, rfl⟩

theorem spotGiven_news (n : News R) :
    n.calls.filterMap App.spotGiven = (n.quote "BTCUSDT").toList := by
  refine filterMap_calls_of_known (fun _ => rfl) ?_ (fun _ hb _ _ => quote_of_unknown hb)
    (fun _ _ => ⟨rfl, rfl⟩) n
  rintro symbol (rfl | rfl | rfl) price quantity ts <;> exact ⟨rfl, rfl⟩

theorem synthCall_news (n : News R) :
    n.calls.filterMap App.synthCall = n.synthCall.toList := by
  refine filterMap_calls_of_known (fun _ => rfl) ?_ (fun tick hb he hu => ?_)
    (fun _ _ => ⟨rfl, rfl⟩) n
  · rintro symbol (rfl | rfl | rfl) price quantity ts <;> exact ⟨rfl, rfl⟩
  · simp [synthCall, hb, he, hu]

theorem marked_news (n : News R) : n.calls.filterMap App.marked = n.markPrice.toList := by
  refine filterMap_calls_of_known (fun _ => rfl) ?_ (fun _ _ _ _ => ⟨rfl, rfl⟩)
    (fun _ _ => ⟨rfl, rfl⟩) n
  rintro symbol (rfl | rfl | rfl) price quantity ts <;> exact ⟨rfl, rfl⟩

theorem funded_news (n : News R) : n.calls.filterMap App.funded = n.fundingRate.toList := by
  refine filterMap_calls_of_known (fun _ => rfl) ?_ (fun _ _ _ _ => ⟨rfl, rfl⟩)
    (fun _ _ => ⟨rfl, rfl⟩) n
  rintro symbol (rfl | rfl | rfl) price quantity ts <;> exact ⟨rfl, rfl⟩

end News

/-! ## The inputs of the perpetual -/

namespace App

section

variable {R : Type} [DoubleOps R]

/-- The perpetual has the last spot price and the last funding event of the calls, and is ready for
what it has. -/
structure PerpRemembers (past : List (EngineCall R)) (e : SyntheticPerpEngine R) : Prop where
  spot : e.spot = (past.filterMap spotGiven).getLast?
  readySpot : e.readySpot = e.spot.isSome
  fundingRate : e.fundingRate = ((past.filterMap funded).getLast?).map Prod.fst
  nextFunding : e.nextFunding = ((past.filterMap funded).getLast?).map Prod.snd
  readyFunding : e.readyFunding = e.fundingRate.isSome

/-- **One call** keeps the inputs of the perpetual. -/
theorem PerpRemembers.step {past : List (EngineCall R)} {a : App R}
    (h : PerpRemembers past a.perp) (k : EngineCall R) :
    PerpRemembers (past ++ [k]) (a.call k).perp := by
  obtain ⟨hspot, hreadySpot, hrate, hnext, hreadyFunding⟩ := h
  cases k with
  | updateSpot price =>
    constructor <;> simp [call, SyntheticPerpEngine.updateSpot, spotGiven, funded, *]
  | updateFunding rate nextTs =>
    constructor <;> simp [call, SyntheticPerpEngine.updateFunding, spotGiven, funded, *]
  | updateMark markPrice ts =>
    rw [call, SyntheticPerpEngine.updateMark_fst]
    constructor <;> simp [spotGiven, funded, *]
  | synth c => constructor <;> simp [call, spotGiven, funded, *]
  | crossUpdate venue price ts => constructor <;> simp [call, spotGiven, funded, *]
  | pushTick tick => constructor <;> simp [call, spotGiven, funded, *]

/-- **The inputs of the perpetual** after any calls. -/
theorem perpRemembers_run (calls : List (EngineCall R)) :
    PerpRemembers calls (run call initial calls).perp :=
  run_history (H := fun past (a : App R) => PerpRemembers past a.perp) ⟨rfl, rfl, rfl, rfl, rfl⟩
    (fun _ _ k h => h.step k) calls

end

variable {R : Type} [DoubleScan R]

/-! ## The state after the news -/

theorem run_hear (a : App R) (ns : List (News R)) :
    run hear a ns = run call a (ns.flatMap News.calls) :=
  run_flatMap News.calls a ns

theorem call_binancePrice (a : App R) (k : EngineCall R) :
    (a.call k).ethCross.getPrice "Binance" =
      (News.binanceGiven k).getD (a.ethCross.getPrice "Binance") := by
  cases k with
  | crossUpdate venue price ts =>
    rw [call, CrossExchangePair.getPrice_update (Or.inl rfl), News.binanceGiven]
    split <;> rfl
  | _ => rfl

theorem binancePrice_run (ns : List (News R)) :
    (run hear (initial : App R) ns).ethCross.getPrice "Binance" =
      (Display.latest (News.quote "ETHUSDT") ns).getD 0 := by
  rw [run_hear, run_lastWrite (fun a : App R => a.ethCross.getPrice "Binance") call_binancePrice,
    News.filterMap_calls News.binanceGiven_calls]
  rfl

theorem getMark_run (ns : List (News R)) :
    (run hear (initial : App R) ns).perp.getMark =
      ((Display.latest News.markPrice ns).map Prod.fst).getD 0 := by
  rw [run_hear, run_lastWrite (fun a : App R => a.perp.getMark) call_getMark,
    ← List.map_filterMap, News.filterMap_calls News.marked_news, List.getLast?_map]
  rfl

theorem perpRemembers_hear (ns : List (News R)) :
    PerpRemembers (ns.flatMap News.calls) (run hear initial ns).perp := by
  rw [run_hear]
  exact perpRemembers_run _

theorem perpInputs_run (ns : List (News R)) :
    (run hear initial ns).perp.spot = Display.latest (News.quote "BTCUSDT") ns ∧
      (run hear initial ns).perp.fundingRate =
        (Display.latest News.fundingRate ns).map Prod.fst ∧
      (run hear initial ns).perp.nextFunding =
        (Display.latest News.fundingRate ns).map Prod.snd := by
  obtain ⟨hspot, -, hrate, hnext, -⟩ := perpRemembers_hear ns
  rw [News.filterMap_calls News.spotGiven_news] at hspot
  rw [News.filterMap_calls News.funded_news] at hrate hnext
  exact ⟨hspot, hrate, hnext⟩

theorem getFundingRate_run (ns : List (News R)) :
    (run hear (initial : App R) ns).perp.getFundingRate =
      ((Display.latest News.fundingRate ns).map Prod.fst).getD 0 := by
  rw [SyntheticPerpEngine.getFundingRate, (perpInputs_run ns).2.1]

theorem fundingAdjusted_run (ns : List (News R)) (nowMs : Int64) :
    (run hear (initial : App R) ns).perp.getSynthetic nowMs =
      Display.fundingAdjusted ns nowMs := by
  obtain ⟨hspot, hrate, hnext⟩ := perpInputs_run ns
  have hreadySpot := (perpRemembers_hear ns).readySpot
  have hreadyFunding := (perpRemembers_hear ns).readyFunding
  generalize (run hear initial ns : App R).perp = e at *
  rw [Display.fundingAdjusted, SyntheticPerpEngine.getSynthetic]
  cases hs : Display.latest (News.quote "BTCUSDT") ns with
  | none =>
    have hnot : ¬ (e.readySpot = true ∧ e.readyFunding = true) := by
      rw [hreadySpot, hspot, hs]
      rintro ⟨h, -⟩
      cases h
    rw [dif_neg hnot]
  | some spot =>
    cases hf : Display.latest News.fundingRate ns with
    | none =>
      have hnot : ¬ (e.readySpot = true ∧ e.readyFunding = true) := by
        rw [hreadyFunding, hrate, hf]
        rintro ⟨-, h⟩
        cases h
      rw [dif_neg hnot]
    | some event =>
      rw [hs] at hspot
      rw [hf] at hrate hnext
      have hready : e.readySpot = true ∧ e.readyFunding = true := by
        rw [hreadySpot, hspot, hreadyFunding, hrate]
        exact ⟨rfl, rfl⟩
      rw [dif_pos hready]
      simp only [hspot, hrate, hnext, Option.map_some, Option.get_some]

theorem objects_run_hear (ns : List (News R)) :
    (run hear (initial : App R) ns).objects =
      run Objects.step Objects.mainObjects (ns.filterMap News.synthCall) := by
  rw [run_hear, run_objects, News.filterMap_calls News.synthCall_news]
  rfl

/-- The tracker is never given a trade: the pointer of the spot engine stays null. -/
theorem tracker_run (ns : List (News R)) :
    (run hear (initial : App R) ns).objects.tracker = Objects.mainObjects.tracker := by
  have hstep : ∀ (o : Objects R) c,
      o.ethSynth.toWiring = Objects.mainWiring ∧ o.tracker = Objects.mainObjects.tracker →
      (o.step c).ethSynth.toWiring = Objects.mainWiring ∧
        (o.step c).tracker = Objects.mainObjects.tracker := by
    rintro o c ⟨hw, ht⟩
    refine ⟨(Objects.step_toWiring o c).trans hw, ?_⟩
    cases c with
    | update symbol price ts => rw [Objects.step, Objects.update_tracker, ht]
    | compareToReal real ts =>
      have hpnl : o.ethSynth.pnlTracker = false := congrArg Wiring.pnlTracker hw
      rw [Objects.step, Objects.compareToReal_tracker, hpnl, Bool.and_false,
        if_neg Bool.false_ne_true, ht]
  rw [objects_run_hear]
  exact (run_invariant (P := fun _ => True) (fun o c h _ => hstep o c h) _ ⟨rfl, rfl⟩
    (fun _ _ => trivial)).2

end App

/-! ## The spot engine and the news -/

namespace Display

open SyntheticSpotSynth

variable {R : Type} [DoubleOps R]

omit [DoubleOps R] in
theorem latest_concat {β : Type} (read : News R → Option β) (past : List (News R)) (n : News R) :
    latest read (past ++ [n]) = (read n).or (latest read past) := by
  rw [latest, List.filterMap_append]
  cases h : read n with
  | none => simp [h, latest]
  | some x => simp [h]

def legPrice (leg : String) : SynthCall R → Option R
  | .update symbol price _ => if symbol = leg then some price else none
  | .compareToReal _ _ => none

omit [DoubleOps R] in
theorem quote_eq_legPrice {leg : String} (h : leg = "ETHBTC" ∨ leg = "BTCUSDT") (n : News R) :
    n.quote leg = n.synthCall.bind (legPrice leg) := by
  cases n with
  | trade tick =>
    obtain ⟨symbol, price, quantity, ts⟩ := tick
    rcases News.symbol_cases symbol with rfl | rfl | rfl | ⟨hb, he, hu⟩
    · rfl
    · rfl
    · rcases h with rfl | rfl <;> rfl
    · rcases h with rfl | rfl <;> simp [News.synthCall, News.quote, News.tick, hb, he, hu]
  | batchTrade tick =>
    obtain ⟨symbol, price, quantity, ts⟩ := tick
    rcases News.symbol_cases symbol with rfl | rfl | rfl | ⟨hb, he, hu⟩
    · rfl
    · rfl
    · rcases h with rfl | rfl <;> rfl
    · rcases h with rfl | rfl <;> simp [News.synthCall, News.quote, News.tick, hb, he]
  | mark price ts => rfl
  | funding rate nextTs => rfl

omit [DoubleOps R] in
theorem realTrade_eq_compared (n : News R) :
    n.realTrade = n.synthCall.bind SynthCall.compared := by
  cases n with
  | trade tick =>
    obtain ⟨symbol, price, quantity, ts⟩ := tick
    rcases News.symbol_cases symbol with rfl | rfl | rfl | ⟨hb, he, hu⟩
    · rfl
    · rfl
    · rfl
    · simp [News.synthCall, News.realTrade, hb, he, hu]
  | batchTrade tick =>
    obtain ⟨symbol, price, quantity, ts⟩ := tick
    rcases News.symbol_cases symbol with rfl | rfl | rfl | ⟨hb, he, hu⟩
    · rfl
    · rfl
    · rfl
    · simp [News.synthCall, News.realTrade, hb, he]
  | mark price ts => rfl
  | funding rate nextTs => rfl

/-- The spot engine has the last quote of each leg and the last two deltas. -/
structure Shows (past : List (News R)) (s : SyntheticSpotSynth R) : Prop where
  ethbtc : latest (News.quote "ETHBTC") past = if s.readyEthbtc then some s.ethbtc else none
  btcusdt : latest (News.quote "BTCUSDT") past = if s.readyBtcusdt then some s.btcusdt else none
  maxSize : s.buffer.maxSize = 2
  items : s.buffer.buffer.items = Window.lastN 2 (deltas past)

theorem Shows.synthetic {past : List (News R)} {s : SyntheticSpotSynth R} (h : Shows past s) :
    synthetic past = if s.ready then some s.product else none := by
  rw [Display.synthetic, h.ethbtc, h.btcusdt, ready, product]
  cases s.readyEthbtc with
  | false => rfl
  | true => cases s.readyBtcusdt <;> rfl

theorem deltas_concat (past : List (News R)) (n : News R) :
    deltas (past ++ [n]) = deltas past ++ delta past n := by
  rw [deltas, outputs_concat, run_history_self]
  rfl

theorem delta_eq {past : List (News R)} {s : SyntheticSpotSynth R} (h : Shows past s)
    (n : News R) :
    delta past n = (n.synthCall.bind SynthCall.compared).elim []
      fun r => if s.ready then [s.product - r.1] else [] := by
  rw [delta, News.realPrice, realTrade_eq_compared, h.synthetic]
  cases n.synthCall.bind SynthCall.compared with
  | none => rfl
  | some r => cases s.ready <;> rfl

/-- **One piece of news** keeps what the spot engine has of the news. -/
theorem Shows.step {past : List (News R)} {o : Objects R} (h : Shows past o.ethSynth)
    (n : News R) : Shows (past ++ [n]) (n.synthCall.elim o o.step).ethSynth := by
  have hitems := deltas_concat past n
  have hethbtc := latest_concat (News.quote "ETHBTC") past n
  have hbtcusdt := latest_concat (News.quote "BTCUSDT") past n
  rw [delta_eq h] at hitems
  rw [quote_eq_legPrice (Or.inl rfl), h.ethbtc] at hethbtc
  rw [quote_eq_legPrice (Or.inr rfl), h.btcusdt] at hbtcusdt
  cases hc : n.synthCall with
  | none =>
    rw [hc, Option.bind_none] at hethbtc hbtcusdt hitems
    rw [Option.elim_none, List.append_nil] at hitems
    refine ⟨hethbtc, hbtcusdt, h.maxSize, ?_⟩
    rw [hitems]
    exact h.items
  | some c =>
    rw [hc, Option.bind_some] at hethbtc hbtcusdt hitems
    cases c with
    | update symbol price ts =>
      -- the prices and times that `update` writes after the leg are not read
      refine (Objects.update_frame o symbol price ts (Shows (past ++ [n])) fun _ _ _ => propext
        ⟨fun hs => ⟨hs.ethbtc, hs.btcusdt, hs.maxSize, hs.items⟩,
          fun hs => ⟨hs.ethbtc, hs.btcusdt, hs.maxSize, hs.items⟩⟩).mpr ?_
      refine ⟨?_, ?_, ?_, ?_⟩
      · rw [hethbtc, setLeg, legPrice]
        by_cases he : symbol = "ETHBTC"
        · simp [he]
        · by_cases hb : symbol = "BTCUSDT" <;> simp [he, hb]
      · rw [hbtcusdt, setLeg, legPrice]
        by_cases he : symbol = "ETHBTC"
        · simp [he]
        · by_cases hb : symbol = "BTCUSDT" <;> simp [he, hb]
      · rw [Objects.setLeg_buffer]
        exact h.maxSize
      · rw [hitems, SynthCall.compared, Option.elim_none, List.append_nil, Objects.setLeg_buffer]
        exact h.items
    | compareToReal real ts =>
      rw [Option.elim_some, Objects.step, Objects.compareToReal_ethSynth]
      rw [SynthCall.compared, Option.elim_some] at hitems
      cases hready : o.ethSynth.ready with
      | false =>
        rw [hready, if_neg Bool.false_ne_true, List.append_nil] at hitems
        rw [if_neg Bool.false_ne_true]
        refine ⟨hethbtc, hbtcusdt, h.maxSize, ?_⟩
        rw [hitems]
        exact h.items
      | true =>
        rw [hready, if_pos rfl] at hitems
        rw [if_pos rfl]
        refine ⟨hethbtc, hbtcusdt, h.maxSize, ?_⟩
        show (o.ethSynth.buffer.add (o.ethSynth.product - real)).buffer.items = _
        rw [hitems, MispricingBuffer.add_items, h.items, h.maxSize, Window.lastN_lastN_append]

theorem average_eq {past : List (News R)} {s : SyntheticSpotSynth R} (h : Shows past s) :
    s.getAverageMispricing = average (Window.lastN 2 (deltas past)) := by
  rw [getAverageMispricing, MispricingBuffer.average, h.items]
  rfl

end Display

namespace App

variable {R : Type} [DoubleScan R]

theorem hear_objects (a : App R) (n : News R) :
    (a.hear n).objects = n.synthCall.elim a.objects a.objects.step := by
  rw [hear, run_objects, News.synthCall_news]
  cases n.synthCall <;> rfl

/-- **The spot engine** after any news. -/
theorem shows_run (ns : List (News R)) :
    Display.Shows ns (run hear initial ns).objects.ethSynth := by
  refine run_history (H := fun past (a : App R) => Display.Shows past a.objects.ethSynth)
    ⟨rfl, rfl, rfl, rfl⟩ (fun past a n h => ?_) ns
  rw [hear_objects]
  exact h.step n

theorem getSynthetic_run (ns : List (News R)) :
    (run hear (initial : App R) ns).objects.ethSynth.getSynthetic =
      (Display.synthetic ns).getD 0 := by
  rw [(shows_run ns).synthetic, SyntheticSpotSynth.getSynthetic]
  split <;> rfl

/-- **The display.**  Whatever messages of the two feeds arrive before and between the readings of
a round, each figure is the one that the news before its reading give.  There is no reading after a
message on which `process` aborts. -/
theorem statsOverlay_refines (messages : Reading → List (FeedMessage R)) (nowMs : Int64) :
    statsOverlay (fun r => run receive initial (messages r)) nowMs =
      Display.snapshot (fun r => (messages r).flatMap FeedMessage.news) nowMs := by
  simp only [statsOverlay, Display.snapshot, run_receive, binancePrice_run, getSynthetic_run,
    fun ns : List (News R) => Display.average_eq (shows_run ns), fundingAdjusted_run,
    getMark_run, getFundingRate_run, tracker_run]
  rfl

end App

end SyntheticArbitrage
