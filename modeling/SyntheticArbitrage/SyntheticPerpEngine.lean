import SyntheticArbitrage.Double
import Mathlib.Data.Option.Basic

/-!
# The synthetic perpetual and the cross-exchange pair

`include/SyntheticPerpEngine.hpp`, `include/CrossExchangePair.hpp`, `src/CrossExchangePair.cpp`: the
two engines of `main.cpp` besides the spot engine that the feeds write to.

* `updateSpot`, `updateFunding`, `updateMark`: the three writers of the perpetual.
* `updateMark_fst`, `updateMark_cases`: what `updateMark` stores, and what it prints.
* `CrossExchangePair.getPrice_update`: the price of a venue is the last one written for it.
-/

namespace SyntheticArbitrage

variable {R : Type} [DoubleOps R]

/-! ## The perpetual -/

/-- The engine.  A ready flag is only set with its value, so no `std::optional` is read empty. -/
structure SyntheticPerpEngine (R : Type) where
  threshold : R
  spot : Option R := none
  fundingRate : Option R := none
  nextFunding : Option UInt64 := none
  lastMarkPrice : R
  readySpot : Bool := false
  readyFunding : Bool := false
  readyMark : Bool := false
  spot_isSome : readySpot = true → spot.isSome = true
  fundingRate_isSome : readyFunding = true → fundingRate.isSome = true

/-- What `updateMark` prints: the monitor, and whether the alert follows it. -/
structure PerpReport (R : Type) where
  spot : R
  fundingRate : R
  hours : R
  synthetic : R
  markPrice : R
  delta : R
  alert : Bool
  deriving DecidableEq

namespace SyntheticPerpEngine

/-- The constructor, called with `_threshold`. -/
def new (threshold : R) : SyntheticPerpEngine R where
  threshold := threshold
  lastMarkPrice := 0
  spot_isSome := fun h => absurd h Bool.false_ne_true
  fundingRate_isSome := fun h => absurd h Bool.false_ne_true

def updateSpot (e : SyntheticPerpEngine R) (price : R) : SyntheticPerpEngine R :=
  { e with spot := some price, readySpot := true, spot_isSome := fun _ => rfl }

def updateFunding (e : SyntheticPerpEngine R) (rate : R) (nextTs : UInt64) :
    SyntheticPerpEngine R :=
  { e with
    fundingRate := some rate
    nextFunding := some nextTs
    readyFunding := true
    fundingRate_isSome := fun _ => rfl }

/-- The part of `updateMark` after its return for a missing input.  `last_alert` is a static of the
function, so it is passed and returned beside the engine. -/
def report (e : SyntheticPerpEngine R) (spot fundingRate : R) (nextFunding lastAlert : UInt64)
    (markPrice : R) (timestamp : UInt64) : UInt64 × PerpReport R :=
  let hours := DoubleOps.ofInt (nextFunding - timestamp).toNat / DoubleOps.lit 3600000.0
  let synthetic := spot + fundingRate * spot * hours
  let delta := markPrice - synthetic
  let alert := decide (e.threshold < DoubleOps.abs delta) && decide (5000 < timestamp - lastAlert)
  (if alert then timestamp else lastAlert,
    { spot, fundingRate, hours, synthetic, markPrice, delta, alert })

/-- `updateMark`: the engine, the static and what is printed. -/
def updateMark (e : SyntheticPerpEngine R) (lastAlert : UInt64) (markPrice : R)
    (timestamp : UInt64) : SyntheticPerpEngine R × UInt64 × Option (PerpReport R) :=
  let marked := { e with lastMarkPrice := markPrice, readyMark := true }
  if h : e.readySpot = true ∧ e.readyFunding = true then
    match e.nextFunding with
    | none => (marked, lastAlert, none)
    | some nextFunding =>
      let printed := e.report (e.spot.get (e.spot_isSome h.1))
        (e.fundingRate.get (e.fundingRate_isSome h.2)) nextFunding lastAlert markPrice timestamp
      (marked, printed.1, some printed.2)
  else (marked, lastAlert, none)

/-- `getSynthetic`, when the system clock reads `nowMs`. -/
def getSynthetic (e : SyntheticPerpEngine R) (nowMs : Int64) : R :=
  if h : e.readySpot = true ∧ e.readyFunding = true then
    match e.nextFunding with
    | none => 0
    | some nextFunding =>
      let spot := e.spot.get (e.spot_isSome h.1)
      let fundingRate := e.fundingRate.get (e.fundingRate_isSome h.2)
      -- here both times are converted to `double` before they are subtracted
      let hours := (DoubleOps.ofInt nextFunding.toNat - DoubleOps.ofInt nowMs.toInt) /
        DoubleOps.lit 3600000.0
      spot + fundingRate * spot * hours
  else 0

def getMark (e : SyntheticPerpEngine R) : R := e.lastMarkPrice

def getFundingRate (e : SyntheticPerpEngine R) : R := e.fundingRate.getD 0

def getSpot (e : SyntheticPerpEngine R) : R := e.spot.getD 0

theorem updateMark_fst (e : SyntheticPerpEngine R) (lastAlert : UInt64) (markPrice : R)
    (timestamp : UInt64) :
    (e.updateMark lastAlert markPrice timestamp).1 =
      { e with lastMarkPrice := markPrice, readyMark := true } := by
  unfold updateMark
  dsimp only
  split
  · split <;> rfl
  · rfl

/-- What `updateMark` returns beside the engine: nothing while an input is missing, and otherwise
the report on the inputs. -/
theorem updateMark_cases (e : SyntheticPerpEngine R) (lastAlert : UInt64) (markPrice : R)
    (timestamp : UInt64) :
    (e.updateMark lastAlert markPrice timestamp).2 = (lastAlert, none) ∨
      ∃ spot fundingRate nextFunding, (e.updateMark lastAlert markPrice timestamp).2 =
        ((e.report spot fundingRate nextFunding lastAlert markPrice timestamp).1,
          some (e.report spot fundingRate nextFunding lastAlert markPrice timestamp).2) := by
  unfold updateMark
  dsimp only
  split
  · split
    · exact Or.inl rfl
    · exact Or.inr ⟨_, _, _, rfl⟩
  · exact Or.inl rfl

end SyntheticPerpEngine

/-! ## The cross-exchange pair -/

structure CrossExchangePair (R : Type) where
  binancePrice : R
  bybitPrice : R
  binanceReady : Bool := false
  bybitReady : Bool := false
  deriving DecidableEq

namespace CrossExchangePair

/-- The constructor. -/
def new : CrossExchangePair R where
  binancePrice := 0
  bybitPrice := 0

/-- The timestamp is not used. -/
def update (c : CrossExchangePair R) (venue : String) (price : R) (_ts : UInt64) :
    CrossExchangePair R :=
  if venue = "Binance" then { c with binancePrice := price, binanceReady := true }
  else if venue = "Bybit" then { c with bybitPrice := price, bybitReady := true }
  else c

def getPrice (c : CrossExchangePair R) (venue : String) : R :=
  if venue = "Binance" ∧ c.binanceReady = true then c.binancePrice
  else if venue = "Bybit" ∧ c.bybitReady = true then c.bybitPrice
  else 0

theorem getPrice_update {venue : String} (h : venue = "Binance" ∨ venue = "Bybit")
    (c : CrossExchangePair R) (written : String) (price : R) (ts : UInt64) :
    (c.update written price ts).getPrice venue =
      if written = venue then price else c.getPrice venue := by
  have hne : ¬ "Bybit" = "Binance" := by decide
  have hne' : ¬ "Binance" = "Bybit" := by decide
  unfold update getPrice
  by_cases hb : written = "Binance"
  · rcases h with rfl | rfl
    · simp [hb]
    · simp [hb, hne, hne']
  · by_cases hy : written = "Bybit"
    · rcases h with rfl | rfl
      · simp [hy, hne]
      · simp [hy, hne]
    · rcases h with rfl | rfl
      · simp [hb, hy]
      · simp [hb, hy]

end CrossExchangePair

end SyntheticArbitrage
