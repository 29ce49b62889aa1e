import SyntheticArbitrage.Lib.Throttle
import SyntheticArbitrage.SyntheticPerpEngine
import SyntheticArbitrage.TradeTick

/-!
# The synthetic pair, and when it and the perpetual alert

`include/SyntheticPair.hpp`, the third engine, and the alerts that it and `updateMark` of
`include/SyntheticPerpEngine.hpp` raise.  Both keep the time of the last alert in a static of the
function, which all objects of the class share.

* `SyntheticPair.update`: a tick, and the evaluation when the three legs are there.
* `SyntheticPerpEngine.perform`, `SyntheticPair.perform`: the calls as updates of a throttled class.
* `engineAlerts_exact_iff`: in every run on any number of objects with times in order, each object
  alerts by its own last alert exactly when the alerts of different objects are kept apart.
-/

namespace SyntheticArbitrage

open Throttle

variable {R : Type} [DoubleOps R]

/-! ## The pair -/

structure SyntheticPair (R : Type) where
  base : String
  threshold : R
  btcusdt : Option (TradeTick R) := none
  ethbtc : Option (TradeTick R) := none
  ethusdt : Option (TradeTick R) := none

/-- What `evaluate` prints: the monitor, and whether the alert follows it, which passes `base`, the
two prices and their difference to the logger. -/
structure PairReport (R : Type) where
  base : String
  btcusdt : R
  ethbtc : R
  actual : R
  synthetic : R
  delta : R
  alert : Bool
  deriving DecidableEq

namespace SyntheticPair

/-- The constructor, called with `_base` and `_threshold`. -/
def new (base : String) (threshold : R) : SyntheticPair R where
  base := base
  threshold := threshold

/-- `evaluate` on the three legs.  `last_alert_time` is a static of the function, so it is passed
and returned beside what is printed. -/
def evaluate (p : SyntheticPair R) (btcusdt ethbtc ethusdt : TradeTick R) (lastAlertTime : UInt64) :
    UInt64 × PairReport R :=
  let synthetic := btcusdt.price * ethbtc.price
  let actual := ethusdt.price
  let delta := actual - synthetic
  let alert := decide (p.threshold < DoubleOps.abs delta) &&
    decide (5000 < ethusdt.timestamp - lastAlertTime)
  (if alert then ethusdt.timestamp else lastAlertTime,
    { base := p.base, btcusdt := btcusdt.price, ethbtc := ethbtc.price, actual, synthetic, delta,
      alert })

def store (p : SyntheticPair R) (tick : TradeTick R) : SyntheticPair R :=
  if tick.symbol = "BTCUSDT" then { p with btcusdt := some tick }
  else if tick.symbol = "ETHBTC" then { p with ethbtc := some tick }
  else if tick.symbol = "ETHUSDT" then { p with ethusdt := some tick }
  else p

/-- `update`: the pair, the static and what is printed. -/
def update (p : SyntheticPair R) (lastAlertTime : UInt64) (tick : TradeTick R) :
    SyntheticPair R × UInt64 × Option (PairReport R) :=
  let stored := p.store tick
  match stored.btcusdt, stored.ethbtc, stored.ethusdt with
  | some btcusdt, some ethbtc, some ethusdt =>
    let printed := stored.evaluate btcusdt ethbtc ethusdt lastAlertTime
    (stored, printed.1, some printed.2)
  | _, _, _ => (stored, lastAlertTime, none)

/-- An update as one of a throttled class.  The event time is that of the stored ETHUSDT tick. -/
def perform (p : SyntheticPair R) (lastAlertTime : UInt64) (tick : TradeTick R) :
    SyntheticPair R × UInt64 × Option Evaluation :=
  let result := p.update lastAlertTime tick
  (result.1, result.2.1, result.2.2.bind fun printed => result.1.ethusdt.map fun ethusdt =>
    { time := ethusdt.timestamp
      exceeds := decide (p.threshold < DoubleOps.abs printed.delta)
      alert := printed.alert })

end SyntheticPair

/-! ## The throttled classes -/

inductive PerpCall (R : Type) where
  | updateSpot (price : R)
  | updateFunding (rate : R) (nextTs : UInt64)
  | updateMark (markPrice : R) (timestamp : UInt64)
  deriving DecidableEq

/-- A call as an update of a throttled class.  The event time is that of the mark. -/
def SyntheticPerpEngine.perform (e : SyntheticPerpEngine R) (lastAlert : UInt64) :
    PerpCall R → SyntheticPerpEngine R × UInt64 × Option Evaluation
  | .updateSpot price => (e.updateSpot price, lastAlert, none)
  | .updateFunding rate nextTs => (e.updateFunding rate nextTs, lastAlert, none)
  | .updateMark markPrice timestamp =>
    let result := e.updateMark lastAlert markPrice timestamp
    (result.1, result.2.1, result.2.2.map fun printed =>
      { time := timestamp
        exceeds := decide (e.threshold < DoubleOps.abs printed.delta)
        alert := printed.alert })

theorem SyntheticPerpEngine.perform_updateMark (e : SyntheticPerpEngine R) (lastAlert : UInt64)
    (markPrice : R) (timestamp : UInt64) :
    (e.perform lastAlert (.updateMark markPrice timestamp)).2 = (lastAlert, none) ∨
      ∃ time exceeds, (e.perform lastAlert (.updateMark markPrice timestamp)).2 =
        throttled 5000 lastAlert time exceeds := by
  rcases e.updateMark_cases lastAlert markPrice timestamp with h | ⟨spot, fundingRate, next, h⟩
  · exact Or.inl (by rw [perform, h]; rfl)
  · exact Or.inr ⟨timestamp, _, by rw [perform, h]; rfl⟩

theorem SyntheticPerpEngine.throttles : Throttles 5000 (SyntheticPerpEngine.perform (R := R)) := by
  intro e lastAlert c
  cases c with
  | updateSpot price => exact Or.inl rfl
  | updateFunding rate nextTs => exact Or.inl rfl
  | updateMark markPrice timestamp => exact e.perform_updateMark lastAlert markPrice timestamp

theorem SyntheticPair.throttles : Throttles 5000 (SyntheticPair.perform (R := R)) := by
  intro p lastAlertTime tick
  have hthreshold : (p.store tick).threshold = p.threshold := by
    unfold store
    split_ifs <;> rfl
  unfold perform update
  dsimp only
  split
  · next btcusdt ethbtc ethusdt hb he hu =>
    refine Or.inr ⟨ethusdt.timestamp, decide (p.threshold < DoubleOps.abs
      (ethusdt.price - btcusdt.price * ethbtc.price)), ?_⟩
    rw [hu, throttled, ← hthreshold]
    rfl
  · exact Or.inl rfl

/-! ## Exact alerts -/

/-- **Each object throttles its own alerts**, on times in order, exactly when the alerts of
different objects are kept apart, in every run on any number of perpetuals and in every run on any
number of pairs. -/
theorem engineAlerts_exact_iff {ι : Type} [DecidableEq ι] (bases : ι → String) (thresholds : ι → R)
    (perpCalls : List (ι × PerpCall R)) (ticks : List (ι × TradeTick R)) :
    (TimesInOrder 5000 SyntheticPerpEngine.perform
        (fun i => SyntheticPerpEngine.new (thresholds i)) perpCalls →
      (AlertsExact 5000 SyntheticPerpEngine.perform
          (fun i => SyntheticPerpEngine.new (thresholds i)) perpCalls ↔
        AlertsApart 5000 SyntheticPerpEngine.perform
          (fun i => SyntheticPerpEngine.new (thresholds i)) perpCalls)) ∧
    (TimesInOrder 5000 SyntheticPair.perform
        (fun i => SyntheticPair.new (bases i) (thresholds i)) ticks →
      (AlertsExact 5000 SyntheticPair.perform
          (fun i => SyntheticPair.new (bases i) (thresholds i)) ticks ↔
        AlertsApart 5000 SyntheticPair.perform
          (fun i => SyntheticPair.new (bases i) (thresholds i)) ticks)) :=
  ⟨alertsExact_iff SyntheticPerpEngine.throttles _, alertsExact_iff SyntheticPair.throttles _⟩

/-- Two perpetuals 10 away from their mark, ready for `updateMark`. -/
def readyCalls : List (Bool × PerpCall ℚ) :=
  [(false, .updateSpot 2000), (false, .updateFunding 0 20000), (true, .updateSpot 2000),
    (true, .updateFunding 0 20000)]

/-- Six seconds apart, each of them alerts. -/
theorem engineAlerts_exact_iff_apart : AlertsExact (ι := Bool) 5000 SyntheticPerpEngine.perform
    (fun _ => SyntheticPerpEngine.new (1 : ℚ))
    (readyCalls ++ [(false, .updateMark 2010 10000), (true, .updateMark 2010 16000)]) := by
  refine ((engineAlerts_exact_iff (fun _ => "ETHUSDT") (fun _ : Bool => (1 : ℚ)) _ []).1 ?_).mpr ?_
  · unfold TimesInOrder
    decide +kernel
  · unfold AlertsApart
    decide +kernel

/-- Two seconds after the alert of the first one, the second is due for its own first alert and does
not raise it. -/
theorem not_alertsExact_two : ¬ AlertsExact (ι := Bool) 5000 SyntheticPerpEngine.perform
    (fun _ => SyntheticPerpEngine.new (1 : ℚ))
    (readyCalls ++ [(false, .updateMark 2010 10000), (true, .updateMark 2010 12000)]) := by
  intro h
  have hsecond := atEachCall_iff.mp h (readyCalls ++ [(false, .updateMark 2010 10000)])
    (true, .updateMark 2010 12000) [] rfl { time := 12000, exceeds := true, alert := false }
    (by decide +kernel)
  rw [AlertExact] at hsecond
  revert hsecond
  decide +kernel

end SyntheticArbitrage
