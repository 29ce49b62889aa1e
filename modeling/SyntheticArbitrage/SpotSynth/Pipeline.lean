import SyntheticArbitrage.SpotSynth.Basic
import Mathlib.Data.Rat.Floor
import Mathlib.Tactic.Ring

/-!
# The pipeline against its history

What the pipeline is for can be said from the calls alone: each `compareToReal` that comes after
both legs, is off by the threshold, and comes after the cooldown of the one selected before it makes
a trade.  `reference` builds that list of trades; nothing of the engine's state occurs in it.

* `Sim`: what the state remembers of the history, namely the last price of each leg and the time of
  the last selected call.
* `sim_step`: one call keeps `Sim`, and adds to the ledger what the reference selects.
* `pipeline_refines`: the ledger of every run is the reference list of its calls.

All of it in exact arithmetic.
-/

namespace SyntheticArbitrage

structure RefTrade where
  timestamp : UInt64
  direction : String
  entry : ℚ
  exit : ℚ
  deriving DecidableEq

/-- The part of a recorded trade that the reference list speaks of. -/
def RefTrade.of (trade : SimulatedTrade ℚ) : RefTrade :=
  ⟨trade.timestamp, trade.direction, trade.entryPrice, trade.exitPrice⟩

namespace Reference

def legPrice (leg : String) : SynthCall ℚ → Option ℚ
  | .update symbol price _ => if symbol = leg then some price else none
  | .compareToReal _ _ => none

def lastPrice (leg : String) (past : List (SynthCall ℚ)) : Option ℚ :=
  (past.filterMap (legPrice leg)).getLast?

/-- The trade of a synthetic price `s` against a real price `r`. -/
def trade (s r : ℚ) (timestamp : UInt64) : RefTrade :=
  if r < s then ⟨timestamp, "SELL", s * (1 - 0.0002), r * (1 + 0.0002)⟩
  else ⟨timestamp, "BUY", s * (1 + 0.0002), r * (1 - 0.0002)⟩

/-- The trade of a call, if it is a `compareToReal` after both legs whose prices are off by at least
the threshold. -/
def qualifies (past : List (SynthCall ℚ)) : SynthCall ℚ → Option RefTrade
  | .update _ _ _ => none
  | .compareToReal r t =>
    match lastPrice "ETHBTC" past, lastPrice "BTCUSDT" past with
    | some e, some b => if 0.1 ≤ |e * b - r| then some (trade (e * b) r t) else none
    | _, _ => none

/-- More than the cooldown has passed since the call selected before, modulo `2 ^ 64`. -/
def cooled (cooldown : UInt64) (previous : Option UInt64) (timestamp : UInt64) : Bool :=
  match previous with
  | none => true
  | some last => decide (cooldown.toNat < (2 ^ 64 - last.toNat + timestamp.toNat) % 2 ^ 64)

/-- The trade of a call, if it is selected. -/
def select (cooldown : UInt64) (past : List (SynthCall ℚ)) (previous : Option UInt64)
    (c : SynthCall ℚ) : Option RefTrade :=
  (qualifies past c).filter fun trade => cooled cooldown previous trade.timestamp

/-- The time of the last selected call, after one more call. -/
def previousAfter (previous : Option UInt64) (selected : Option RefTrade) : Option UInt64 :=
  match selected with
  | some trade => some trade.timestamp
  | none => previous

/-- The trades of `calls`, made after the history `past` in which the last selected call was at
`previous`. -/
def trades (cooldown : UInt64) (past : List (SynthCall ℚ)) (previous : Option UInt64) :
    List (SynthCall ℚ) → List RefTrade
  | [] => []
  | c :: calls =>
    let selected := select cooldown past previous c
    selected.toList ++ trades cooldown (past ++ [c]) (previousAfter previous selected) calls

end Reference

/-- The trades of a list of calls. -/
def reference (cooldown : UInt64) (calls : List (SynthCall ℚ)) : List RefTrade :=
  Reference.trades cooldown [] none calls

namespace Objects

open SyntheticSpotSynth Reference

/-- The engine has the last price of each leg in a history. -/
structure Remembers (past : List (SynthCall ℚ)) (s : SyntheticSpotSynth ℚ) : Prop where
  ethbtc : lastPrice "ETHBTC" past = if s.readyEthbtc then some s.ethbtc else none
  btcusdt : lastPrice "BTCUSDT" past = if s.readyBtcusdt then some s.btcusdt else none

/-- What the state remembers of the history. -/
structure Sim (cooldown : UInt64) (past : List (SynthCall ℚ)) (previous : Option UInt64)
    (o : Objects ℚ) : Prop extends Remembers past o.ethSynth where
  arbEngine : o.ethSynth.arbEngine = true
  pnlTracker : o.ethSynth.pnlTracker = true
  cooldown : o.ethArbEngine.cooldown = cooldown
  previous : o.ethArbEngine.lastTrigger "ETHUSDT" = previous

/-! ## One call -/

theorem lastPrice_concat (leg : String) (past : List (SynthCall ℚ)) (c : SynthCall ℚ) :
    lastPrice leg (past ++ [c]) = (legPrice leg c).or (lastPrice leg past) := by
  rw [lastPrice, List.filterMap_append]
  cases h : legPrice leg c with
  | none => simp [h, lastPrice]
  | some p => simp [h]

theorem cooled_eq_passed {cooldown : UInt64} {past : List (SynthCall ℚ)} {previous : Option UInt64}
    {o : Objects ℚ} (h : Sim cooldown past previous o) (t : UInt64) :
    cooled cooldown previous t = o.ethArbEngine.passed "ETHUSDT" t := by
  rw [ArbOpportunityEngine.passed, h.previous, h.cooldown]
  cases previous with
  | none => rfl
  | some last => simp only [cooled, UInt64.lt_iff_toNat_lt, UInt64.toNat_sub]

theorem qualifies_compareToReal {cooldown : UInt64} {past : List (SynthCall ℚ)}
    {previous : Option UInt64} {o : Objects ℚ} (h : Sim cooldown past previous o) (r : ℚ)
    (t : UInt64) :
    qualifies past (.compareToReal r t) =
      if o.ethSynth.ready = true ∧ (triggerThreshold : ℚ) ≤ |o.ethSynth.product - r| then
        some (trade o.ethSynth.product r t)
      else none := by
  simp only [qualifies, h.ethbtc, h.btcusdt, ready, product, Bool.and_eq_true]
  cases o.ethSynth.readyEthbtc with
  | false => simp
  | true =>
    cases o.ethSynth.readyBtcusdt with
    | false => simp
    | true => simp [triggerThreshold]

theorem trade_timestamp (s r : ℚ) (t : UInt64) : (trade s r t).timestamp = t := by
  rw [trade]
  split <;> rfl

theorem of_simulate_eq_trade (maxExposure s r : ℚ) (t : UInt64) :
    RefTrade.of (simulate maxExposure "ETHUSDT" (effectiveEntry (direction (s - r)) s)
      (effectiveExit (direction (s - r)) r) t (direction (s - r))) = trade s r t := by
  by_cases h : r < s
  · have hd : direction (s - r) = "SELL" := by rw [direction, if_pos (sub_pos.mpr h)]
    rw [hd, trade, if_pos h]
    rfl
  · have hd : direction (s - r) = "BUY" := by rw [direction, if_neg (by rwa [sub_pos])]
    rw [hd, trade, if_neg h]
    rfl

/-- The ledger after one call: what it was, and what the reference selects. -/
theorem trades_step {cooldown : UInt64} {past : List (SynthCall ℚ)} {previous : Option UInt64}
    {o : Objects ℚ} (h : Sim cooldown past previous o) (c : SynthCall ℚ) :
    (o.step c).tracker.pnlTracker.trades.map RefTrade.of =
      o.tracker.pnlTracker.trades.map RefTrade.of ++ (select cooldown past previous c).toList := by
  cases c with
  | update symbol price t => simp [step, select, qualifies]
  | compareToReal r t =>
    have hfires : o.fires r t =
        (decide (o.ethSynth.ready = true ∧ (triggerThreshold : ℚ) ≤ |o.ethSynth.product - r|) &&
          o.ethArbEngine.passed "ETHUSDT" t) := by
      simp [fires, h.arbEngine]
    have htime := trade_timestamp o.ethSynth.product r t
    rw [step, compareToReal_tracker, h.pnlTracker, Bool.and_true, select,
      qualifies_compareToReal h r t]
    by_cases hq : o.ethSynth.ready = true ∧ (triggerThreshold : ℚ) ≤ |o.ethSynth.product - r|
    · rw [decide_eq_true hq, Bool.true_and] at hfires
      rw [if_pos hq, hfires]
      cases hp : o.ethArbEngine.passed "ETHUSDT" t with
      | false => simp [Option.filter_some, htime, cooled_eq_passed h t, hp]
      | true =>
        rw [if_pos rfl, Tracker.recordTrade_trades, List.map_append, List.map_singleton,
          of_simulate_eq_trade]
        simp [Option.filter_some, htime, cooled_eq_passed h t, hp]
    · simp [hfires, hq]

/-- **One call** keeps the last prices of the legs. -/
theorem Remembers.step {past : List (SynthCall ℚ)} {o : Objects ℚ}
    (h : Remembers past o.ethSynth) (c : SynthCall ℚ) :
    Remembers (past ++ [c]) (o.step c).ethSynth := by
  cases c with
  | update symbol price t =>
    have hlegs := update_frame o symbol price t (Remembers (past ++ [.update symbol price t]))
      fun _ _ _ => propext ⟨fun hr => ⟨hr.ethbtc, hr.btcusdt⟩, fun hr => ⟨hr.ethbtc, hr.btcusdt⟩⟩
    refine hlegs.mpr ⟨?_, ?_⟩
    · rw [lastPrice_concat, legPrice, setLeg, h.ethbtc]
      by_cases he : symbol = "ETHBTC"
      · simp [he]
      · by_cases hb : symbol = "BTCUSDT" <;> simp [he, hb]
    · rw [lastPrice_concat, legPrice, setLeg, h.btcusdt]
      by_cases he : symbol = "ETHBTC"
      · simp [he]
      · by_cases hb : symbol = "BTCUSDT" <;> simp [he, hb]
  | compareToReal r t =>
    have hlegs := compareToReal_frame o r t (Remembers (past ++ [.compareToReal r t]))
      fun _ _ _ _ => propext ⟨fun hr => ⟨hr.ethbtc, hr.btcusdt⟩, fun hr => ⟨hr.ethbtc, hr.btcusdt⟩⟩
    refine hlegs.mpr ⟨?_, ?_⟩
    · rw [lastPrice_concat, ← h.ethbtc]
      rfl
    · rw [lastPrice_concat, ← h.btcusdt]
      rfl

theorem sim_update {cooldown : UInt64} {past : List (SynthCall ℚ)} {previous : Option UInt64}
    {o : Objects ℚ} (h : Sim cooldown past previous o) (symbol : String) (price : ℚ) (t : UInt64) :
    Sim cooldown (past ++ [.update symbol price t]) previous (o.update symbol price t) := by
  have hwiring := update_toWiring o symbol price t
  have hlegs := h.toRemembers.step (.update symbol price t)
  refine ⟨hlegs, ?_, ?_, ?_, ?_⟩
  · exact (congrArg Wiring.arbEngine hwiring).trans h.arbEngine
  · exact (congrArg Wiring.pnlTracker hwiring).trans h.pnlTracker
  · rw [update_ethArbEngine]
    exact h.cooldown
  · rw [update_ethArbEngine]
    exact h.previous

theorem ethArbEngine_compareToReal {cooldown : UInt64} {past : List (SynthCall ℚ)}
    {previous : Option UInt64} {o : Objects ℚ} (h : Sim cooldown past previous o) (r : ℚ)
    (t : UInt64) :
    (o.compareToReal r t).ethArbEngine =
      if (qualifies past (.compareToReal r t)).isSome then
        (o.ethArbEngine.shouldTrigger "ETHUSDT" t).1
      else o.ethArbEngine := by
  rw [compareToReal_ethArbEngine, qualifies_compareToReal h r t, h.arbEngine]
  by_cases hr : o.ethSynth.ready = true
  · by_cases ht : (triggerThreshold : ℚ) ≤ |o.ethSynth.product - r| <;> simp [hr, ht]
  · simp [hr]

theorem timestamp_of_qualifies {cooldown : UInt64} {past : List (SynthCall ℚ)}
    {previous : Option UInt64} {o : Objects ℚ} (h : Sim cooldown past previous o) {r : ℚ}
    {t : UInt64} {tr : RefTrade} (hq : qualifies past (.compareToReal r t) = some tr) :
    tr.timestamp = t := by
  rw [qualifies_compareToReal h r t] at hq
  split at hq
  · rw [Option.some.injEq] at hq
    rw [← hq, trade_timestamp]
  · cases hq

theorem sim_compareToReal {cooldown : UInt64} {past : List (SynthCall ℚ)}
    {previous : Option UInt64} {o : Objects ℚ} (h : Sim cooldown past previous o) (r : ℚ)
    (t : UInt64) :
    Sim cooldown (past ++ [.compareToReal r t])
      (previousAfter previous (select cooldown past previous (.compareToReal r t)))
      (o.compareToReal r t) := by
  have hwiring := compareToReal_toWiring o r t
  have hengine := ethArbEngine_compareToReal h r t
  have hlegs := h.toRemembers.step (.compareToReal r t)
  refine ⟨hlegs, ?_, ?_, ?_, ?_⟩
  · exact (congrArg Wiring.arbEngine hwiring).trans h.arbEngine
  · exact (congrArg Wiring.pnlTracker hwiring).trans h.pnlTracker
  · rw [hengine, ← h.cooldown]
    split
    · exact ArbOpportunityEngine.shouldTrigger_cooldown _ _ _
    · rfl
  · rw [hengine, select]
    cases hq : qualifies past (.compareToReal r t) with
    | none => simpa [previousAfter] using h.previous
    | some tr =>
      have htime := timestamp_of_qualifies h hq
      simp only [Option.isSome_some, if_true, Option.filter_some, htime,
        ArbOpportunityEngine.shouldTrigger_lastTrigger, cooled_eq_passed h t]
      split
      · simp [previousAfter, htime]
      · exact h.previous

/-- **One call** keeps what the state remembers of the history. -/
theorem sim_step {cooldown : UInt64} {past : List (SynthCall ℚ)} {previous : Option UInt64}
    {o : Objects ℚ} (h : Sim cooldown past previous o) (c : SynthCall ℚ) :
    Sim cooldown (past ++ [c]) (previousAfter previous (select cooldown past previous c))
      (o.step c) := by
  cases c with
  | update symbol price t =>
    have hnone : select cooldown past previous (.update symbol price t) = none := by
      simp [select, qualifies]
    rw [hnone]
    exact sim_update h symbol price t
  | compareToReal r t => exact sim_compareToReal h r t

/-! ## Runs -/

theorem trades_run {cooldown : UInt64} (calls : List (SynthCall ℚ)) :
    ∀ {past : List (SynthCall ℚ)} {previous : Option UInt64} {o : Objects ℚ},
      Sim cooldown past previous o →
      (run step o calls).tracker.pnlTracker.trades.map RefTrade.of =
        o.tracker.pnlTracker.trades.map RefTrade.of ++
          Reference.trades cooldown past previous calls := by
  induction calls with
  | nil => intro past previous o _; simp [Reference.trades]
  | cons c calls ih =>
    intro past previous o h
    rw [run_cons, ih (sim_step h c), trades_step h c, Reference.trades, List.append_assoc]

/-- In every run the state remembers the history so far. -/
theorem sim_run {cooldown : UInt64} {o : Objects ℚ} (h : Sim cooldown [] none o)
    (calls : List (SynthCall ℚ)) : ∃ previous, Sim cooldown calls previous (run step o calls) :=
  run_history (H := fun past o => ∃ previous, Sim cooldown past previous o) ⟨none, h⟩
    (fun _ _ c ⟨_, hs⟩ => ⟨_, sim_step hs c⟩) calls

/-- A fresh engine to which a fresh opportunity engine and a fresh tracker are attached, whatever
loggers the engine and the tracker have. -/
def pipeline (o : Objects ℚ) (label : String) (wiring : Wiring) (cooldown : UInt64)
    (tracker : MockPnLEngine ℚ) : Objects ℚ :=
  { o with
    ethSynth := new label { wiring with arbEngine := true, pnlTracker := true }
    ethArbEngine := ArbOpportunityEngine.new cooldown
    tracker.pnlTracker :=
      { MockPnLEngine.new tracker.maxExposure with
        externalLog := tracker.externalLog, arbLogger := tracker.arbLogger } }

/-- **The pipeline refines its reference.**  In exact arithmetic, the ledger of every run is the
reference list of the calls, and a call that fails the readiness or the threshold guard leaves the
cooldown as it was. -/
theorem pipeline_refines (o : Objects ℚ) (label : String) (wiring : Wiring) (cooldown : UInt64)
    (tracker : MockPnLEngine ℚ) (calls : List (SynthCall ℚ)) :
    (run step (pipeline o label wiring cooldown tracker) calls).tracker.pnlTracker.trades.map
        RefTrade.of = reference cooldown calls ∧
      ∀ pre c post, calls = pre ++ c :: post → qualifies pre c = none →
        (run step (pipeline o label wiring cooldown tracker) (pre ++ [c])).ethArbEngine =
          (run step (pipeline o label wiring cooldown tracker) pre).ethArbEngine := by
  have hstart : Sim cooldown [] none (pipeline o label wiring cooldown tracker) :=
    ⟨⟨rfl, rfl⟩, rfl, rfl, rfl, rfl⟩
  refine ⟨trades_run calls hstart, ?_⟩
  intro pre c post _ hq
  obtain ⟨previous, hs⟩ := sim_run hstart pre
  rw [run_concat]
  cases c with
  | update symbol price t => exact update_ethArbEngine _ symbol price t
  | compareToReal r t =>
    rw [step, ethArbEngine_compareToReal hs r t, hq]
    rfl

end Objects

end SyntheticArbitrage
