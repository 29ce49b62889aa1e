import SyntheticArbitrage.Lib.Trace
import SyntheticArbitrage.SpotSynth.Basic
import SyntheticArbitrage.SyntheticPerpEngine
import SyntheticArbitrage.TradeTick

/-!
# The state of the program and the calls on its engines

The global objects of `src/main.cpp` that the feeds write to, and the calls that a handler makes on
them.  A handler reads none of the engines, so what a message does is the list of its calls.

* `App`: the objects, with `ethSynth` attached as `main` attaches it.
* `App.call`: one call; `run App.call` makes a list of calls.
* `call_…`: which part of the state a call can change.
-/

namespace SyntheticArbitrage

inductive EngineCall (R : Type) where
  /-- `perp.updateSpot` -/
  | updateSpot (price : R)
  /-- `perp.updateFunding` -/
  | updateFunding (rate : R) (nextTs : UInt64)
  /-- `perp.updateMark` -/
  | updateMark (markPrice : R) (timestamp : UInt64)
  /-- `ethSynth.update` and `ethSynth.compareToReal` -/
  | synth (c : SynthCall R)
  /-- `ethCross.update` -/
  | crossUpdate (venue : String) (price : R) (ts : UInt64)
  /-- The push to `trade_buffers[tick.symbol]`. -/
  | pushTick (tick : TradeTick R)

def maxBufferSize : ℕ := 20

structure App (R : Type) where
  objects : Objects R
  wired : objects.ethSynth.toWiring = Objects.mainWiring
  perp : SyntheticPerpEngine R
  /-- The static `last_alert` of `SyntheticPerpEngine::updateMark`. -/
  lastAlert : UInt64
  /-- What `perp.updateMark` has printed. -/
  perpMonitor : List (PerpReport R)
  ethCross : CrossExchangePair R
  tradeBuffers : String → Window (TradeTick R) maxBufferSize

namespace App

variable {R : Type} [DoubleOps R]

/-- The program before the first message. -/
def initial : App R where
  objects := Objects.mainObjects
  wired := rfl
  perp := SyntheticPerpEngine.new (DoubleOps.lit 1.0)
  lastAlert := 0
  perpMonitor := []
  ethCross := CrossExchangePair.new
  tradeBuffers := fun _ => Window.empty

def call (a : App R) : EngineCall R → App R
  | .updateSpot price => { a with perp := a.perp.updateSpot price }
  | .updateFunding rate nextTs => { a with perp := a.perp.updateFunding rate nextTs }
  | .updateMark markPrice timestamp =>
    let result := a.perp.updateMark a.lastAlert markPrice timestamp
    { a with
      perp := result.1
      lastAlert := result.2.1
      perpMonitor := a.perpMonitor ++ result.2.2.toList }
  | .synth c =>
    { a with
      objects := a.objects.step c
      wired := by rw [Objects.step_toWiring, a.wired] }
  | .crossUpdate venue price ts => { a with ethCross := a.ethCross.update venue price ts }
  | .pushTick tick =>
    { a with
      tradeBuffers := Function.update a.tradeBuffers tick.symbol
        ((a.tradeBuffers tick.symbol).push tick) }

/-! ## What a call can change -/

def synthCall : EngineCall R → Option (SynthCall R)
  | .synth c => some c
  | _ => none

/-- The objects of the spot engine see only its own calls. -/
theorem call_objects (a : App R) (k : EngineCall R) :
    (a.call k).objects = (synthCall k).elim a.objects a.objects.step := by
  cases k <;> rfl

/-- A run of engine calls takes the spot engine through a run of its own, so what holds of every run
of the spot engine holds behind the handlers. -/
theorem run_objects (a : App R) (ks : List (EngineCall R)) :
    (run call a ks).objects = run Objects.step a.objects (ks.filterMap synthCall) := by
  induction ks generalizing a with
  | nil => rfl
  | cons k ks ih =>
    rw [run_cons, ih, call_objects]
    cases k <;> rfl

/-- The arguments of a call of `ethSynth.compareToReal`. -/
def compared (k : EngineCall R) : Option (R × UInt64) := (synthCall k).bind SynthCall.compared

/-- The arguments of a call of `perp.updateMark`. -/
def marked : EngineCall R → Option (R × UInt64)
  | .updateMark markPrice ts => some (markPrice, ts)
  | _ => none

/-- The arguments of a call of `perp.updateFunding`. -/
def funded : EngineCall R → Option (R × UInt64)
  | .updateFunding rate nextTs => some (rate, nextTs)
  | _ => none

def spotGiven : EngineCall R → Option R
  | .updateSpot price => some price
  | _ => none

def legGiven (leg : String) : EngineCall R → Option R
  | .synth (.update symbol price _) => if symbol = leg then some price else none
  | _ => none

def pushedTo (symbol : String) : EngineCall R → Option (TradeTick R)
  | .pushTick tick => if tick.symbol = symbol then some tick else none
  | _ => none

theorem call_getMark (a : App R) (k : EngineCall R) :
    (a.call k).perp.getMark = ((marked k).map Prod.fst).getD a.perp.getMark := by
  cases k with
  | updateMark markPrice timestamp =>
    rw [call, SyntheticPerpEngine.getMark, SyntheticPerpEngine.updateMark_fst]
    rfl
  | _ => rfl

theorem call_getFundingRate (a : App R) (k : EngineCall R) :
    (a.call k).perp.getFundingRate = ((funded k).map Prod.fst).getD a.perp.getFundingRate := by
  cases k with
  | updateMark markPrice timestamp =>
    rw [call, SyntheticPerpEngine.getFundingRate, SyntheticPerpEngine.updateMark_fst]
    rfl
  | _ => rfl

theorem call_getSpot (a : App R) (k : EngineCall R) :
    (a.call k).perp.getSpot = (spotGiven k).getD a.perp.getSpot := by
  cases k with
  | updateMark markPrice timestamp =>
    rw [call, SyntheticPerpEngine.getSpot, SyntheticPerpEngine.updateMark_fst]
    rfl
  | _ => rfl

theorem call_btcusdt (a : App R) (k : EngineCall R) :
    (a.call k).objects.ethSynth.btcusdt =
      (legGiven "BTCUSDT" k).getD a.objects.ethSynth.btcusdt := by
  cases k with
  | synth c =>
    cases c with
    | update symbol price ts =>
      show (a.objects.update symbol price ts).ethSynth.btcusdt = _
      have hleg := Objects.update_frame a.objects symbol price ts SyntheticSpotSynth.btcusdt
        fun _ _ _ => rfl
      have hne : ¬ "ETHBTC" = "BTCUSDT" := by decide
      rw [hleg, legGiven, SyntheticSpotSynth.setLeg]
      by_cases he : symbol = "ETHBTC"
      · simp [he]
      · by_cases hb : symbol = "BTCUSDT" <;> simp [he, hb]
    | compareToReal real ts =>
      exact Objects.compareToReal_frame a.objects real ts SyntheticSpotSynth.btcusdt
        fun _ _ _ _ => rfl
  | _ => rfl

theorem run_tradeBuffers (a : App R) (ks : List (EngineCall R)) (symbol : String) :
    (run call a ks).tradeBuffers symbol =
      (a.tradeBuffers symbol).pushAll (ks.filterMap (pushedTo symbol)) := by
  induction ks generalizing a with
  | nil => rfl
  | cons k ks ih =>
    rw [run_cons, ih]
    cases k with
    | pushTick tick =>
      by_cases hs : tick.symbol = symbol
      · subst hs
        simp [call, pushedTo, Window.pushAll]
      · have hne : ¬ symbol = tick.symbol := fun h => hs h.symm
        simp [call, pushedTo, hs, Function.update_of_ne hne]
    | _ => rfl

end App

end SyntheticArbitrage
