import SyntheticArbitrage.ArbOpportunityEngine
import SyntheticArbitrage.MispricingBuffer
import SyntheticArbitrage.MockPnLEngine

/-!
# The synthetic spot engine and the objects it is wired to

`include/SyntheticSpotSynth.hpp`.  The engine multiplies the last ETHBTC and BTCUSDT prices into a
synthetic ETHUSDT price.  It holds four pointers, to a mispricing logger, a snapshot logger, an
opportunity engine and a tracker; the program has one object of each class, so a pointer is the
boolean that says whether it is set (`Wiring`), and the objects are carried beside the engine
(`Objects`).

* `Objects.update`, `Objects.compareToReal`: the two entry points, on all the objects.
* `Objects.step`: one call of either; a run of calls is `run Objects.step`.
* `update_…`, `compareToReal_…`: what a call leaves in each object.
* `Objects.fires`: whether a call of `compareToReal` asks `shouldTrigger` and gets `true`.
* `signals_step`: the signals printed are those of the calls that fire.
-/

namespace SyntheticArbitrage

/-- The pointers of a `SyntheticSpotSynth`: which of them are set. -/
structure Wiring where
  mispricingLogger : Bool := false
  snapshotLogger : Bool := false
  arbEngine : Bool := false
  pnlTracker : Bool := false
  deriving DecidableEq

structure SyntheticSpotSynth (R : Type) extends Wiring where
  label : String
  ethbtc : R
  btcusdt : R
  syntheticPrice : R
  realEthusdt : R
  lastTs : UInt64 := 0
  tsEthbtc : UInt64 := 0
  tsBtcusdt : UInt64 := 0
  buffer : MispricingBuffer R
  readyEthbtc : Bool := false
  readyBtcusdt : Bool := false

/-- What is printed to `std::cout`, without the formatting. -/
inductive Line (R : Type) where
  /-- `[Synthetic] label = price @ ts` -/
  | synthetic (label : String) (price : R) (ts : UInt64)
  /-- `=== Synthetic Spread Monitor ===` -/
  | monitor (btcusdt ethbtc realEthusdt syntheticPrice diff : R)
  /-- `[ArbEngine::Evaluate]` -/
  | evaluate (delta : R) (ts : UInt64)
  /-- The two lines printed when `shouldTrigger` has returned true. -/
  | signal (price : R) (ts : UInt64) (delta : R)
  deriving DecidableEq

/-- The objects of the pipeline, under the names `main.cpp` gives them. -/
structure Objects (R : Type) where
  ethSynth : SyntheticSpotSynth R
  ethLogger : MispricingLogger R
  ethSnapshotLogger : SyntheticSnapshotLogger R
  ethArbEngine : ArbOpportunityEngine
  tracker : Tracker R
  cout : List (Line R) := []

variable {R : Type} [DoubleOps R]

/-! ## The engine -/

namespace SyntheticSpotSynth

/-- The constructor, and the attachments made before the first call. -/
def new (label : String) (wiring : Wiring) : SyntheticSpotSynth R where
  toWiring := wiring
  label := label
  ethbtc := 0
  btcusdt := 0
  syntheticPrice := 0
  realEthusdt := 0
  buffer := MispricingBuffer.new 2

def triggerThreshold : R := DoubleOps.lit 0.1

def spikeThreshold : R := DoubleOps.lit 0.1

/-- `max_age` of `update`, in milliseconds. -/
def maxAge : UInt64 := 1500

/-- The leg assignment at the head of `update`. -/
def setLeg (s : SyntheticSpotSynth R) (symbol : String) (price : R) (timestamp : UInt64) :
    SyntheticSpotSynth R :=
  if symbol = "ETHBTC" then
    { s with ethbtc := price, tsEthbtc := timestamp, readyEthbtc := true }
  else if symbol = "BTCUSDT" then
    { s with btcusdt := price, tsBtcusdt := timestamp, readyBtcusdt := true }
  else s

def ready (s : SyntheticSpotSynth R) : Bool := s.readyEthbtc && s.readyBtcusdt

/-- `synced_ticks`: both legs are there, and
`std::abs((int64_t)(ts_ethbtc - ts_btcusdt)) <= max_age`. -/
def synced (s : SyntheticSpotSynth R) : Bool :=
  s.ready && decide (Clock.signedGap s.tsEthbtc s.tsBtcusdt ≤ maxAge)

/-- The product that `update`, `compareToReal` and `getSynthetic` each compute. -/
def product (s : SyntheticSpotSynth R) : R := s.ethbtc * s.btcusdt

def getSynthetic (s : SyntheticSpotSynth R) : R := if s.ready then s.product else 0

def getAverageMispricing (s : SyntheticSpotSynth R) : R := s.buffer.average

end SyntheticSpotSynth

/-! ## The two entry points -/

namespace Objects

open SyntheticSpotSynth

def update (o : Objects R) (symbol : String) (price : R) (timestamp : UInt64) : Objects R :=
  let synth := o.ethSynth.setLeg symbol price timestamp
  if synth.synced then
    let synth := { synth with syntheticPrice := synth.product, lastTs := timestamp }
    { o with
      ethSynth := synth
      cout := o.cout ++ [.synthetic synth.label synth.syntheticPrice synth.lastTs]
      ethLogger :=
        if synth.mispricingLogger then
          o.ethLogger.log synth.syntheticPrice synth.realEthusdt timestamp
        else o.ethLogger }
  else { o with ethSynth := synth }

/-- `compareToReal` up to the trigger: the new prices, the buffer, the monitor, both loggers and
the evaluation. -/
def reprice (o : Objects R) (realPrice : R) (timestamp : UInt64) : Objects R :=
  let syntheticPrice := o.ethSynth.product
  let delta := syntheticPrice - realPrice
  let synth := { o.ethSynth with
    syntheticPrice := syntheticPrice
    realEthusdt := realPrice
    buffer := o.ethSynth.buffer.add delta }
  { o with
    ethSynth := synth
    cout := o.cout ++
      [.monitor synth.btcusdt synth.ethbtc synth.realEthusdt synth.syntheticPrice
        (synth.realEthusdt - synth.syntheticPrice)] ++
      if synth.arbEngine && synth.buffer.isPersistentSpike spikeThreshold then
        [.evaluate delta timestamp]
      else []
    ethLogger :=
      if synth.mispricingLogger then o.ethLogger.log syntheticPrice realPrice timestamp
      else o.ethLogger
    ethSnapshotLogger :=
      if synth.snapshotLogger then
        o.ethSnapshotLogger.write timestamp synth.ethbtc synth.btcusdt realPrice syntheticPrice
      else o.ethSnapshotLogger }

def direction (delta : R) : String := if 0 < delta then "SELL" else "BUY"

def slippageRate : R := DoubleOps.lit 0.0002

def effectiveEntry (direction : String) (syntheticPrice : R) : R :=
  if direction = "BUY" then syntheticPrice * (DoubleOps.lit 1 + slippageRate)
  else syntheticPrice * (DoubleOps.lit 1 - slippageRate)

def effectiveExit (direction : String) (realPrice : R) : R :=
  if direction = "BUY" then realPrice * (DoubleOps.lit 1 - slippageRate)
  else realPrice * (DoubleOps.lit 1 + slippageRate)

/-- What `compareToReal` does when the signal fires. -/
def fire (o : Objects R) (realPrice : R) (timestamp : UInt64) : Objects R :=
  let syntheticPrice := o.ethSynth.syntheticPrice
  let delta := syntheticPrice - realPrice
  let dir := direction delta
  { o with
    cout := o.cout ++ [.signal syntheticPrice timestamp delta]
    tracker :=
      if o.ethSynth.pnlTracker then
        o.tracker.recordTrade "ETHUSDT" (effectiveEntry dir syntheticPrice)
          (effectiveExit dir realPrice) timestamp dir
      else o.tracker }

/-- The threshold and the cooldown: the last statement of `compareToReal`. -/
def tryTrigger (o : Objects R) (realPrice : R) (timestamp : UInt64) : Objects R :=
  let delta := o.ethSynth.syntheticPrice - realPrice
  if o.ethSynth.arbEngine && decide (triggerThreshold ≤ DoubleOps.abs delta) then
    let result := o.ethArbEngine.shouldTrigger "ETHUSDT" timestamp
    let o := { o with ethArbEngine := result.1 }
    if result.2 then o.fire realPrice timestamp else o
  else o

def compareToReal (o : Objects R) (realPrice : R) (timestamp : UInt64) : Objects R :=
  -- a missing feed is reported on `std::cerr`, and nothing is changed
  if !o.ethSynth.ready then o
  else (o.reprice realPrice timestamp).tryTrigger realPrice timestamp

end Objects

/-- A call of one of the two entry points. -/
inductive SynthCall (R : Type) where
  | update (symbol : String) (price : R) (timestamp : UInt64)
  | compareToReal (realPrice : R) (timestamp : UInt64)
  deriving DecidableEq

def SynthCall.timestamp : SynthCall R → UInt64
  | update _ _ timestamp => timestamp
  | compareToReal _ timestamp => timestamp

/-- The arguments of a call of `compareToReal`. -/
def SynthCall.compared : SynthCall R → Option (R × UInt64)
  | update _ _ _ => none
  | compareToReal realPrice timestamp => some (realPrice, timestamp)

def Objects.step (o : Objects R) : SynthCall R → Objects R
  | .update symbol price timestamp => o.update symbol price timestamp
  | .compareToReal realPrice timestamp => o.compareToReal realPrice timestamp

/-! ## The objects of the program -/

namespace Objects

/-- The global objects of `main.cpp` as they are constructed. -/
def globals : Objects R where
  ethSynth := SyntheticSpotSynth.new "ETHUSDT (Synthetic)" {}
  ethLogger := { name := "ETHUSDT", threshold := DoubleOps.lit 0.2 }
  ethSnapshotLogger := {}
  -- `ethArbEngine(0.2)`: the parameter is a `std::uint64_t`, to which 0.2 converts as 0
  ethArbEngine := ArbOpportunityEngine.new 0
  tracker :=
    { pnlTracker := MockPnLEngine.new (DoubleOps.lit 5000.0), logFile := {}, arbLogger := {} }

/-- The attachments that `main` makes before the first call. -/
def mainObjects : Objects R :=
  let o : Objects R := globals
  let o := { o with ethSynth := { o.ethSynth with snapshotLogger := true } }
  let o := { o with ethSynth := { o.ethSynth with mispricingLogger := true } }
  let o := { o with ethSynth := { o.ethSynth with arbEngine := true } }
  let o := { o with ethArbEngine := o.ethArbEngine.attachMockPnL }
  let o := { o with tracker.pnlTracker.externalLog := true }
  { o with tracker.pnlTracker.arbLogger := true }

/-- The pointers of `ethSynth` after `main` has attached what it attaches: the tracker is attached
to `ethArbEngine` only. -/
def mainWiring : Wiring where
  mispricingLogger := true
  snapshotLogger := true
  arbEngine := true
  pnlTracker := false

theorem mainObjects_ethSynth :
    (mainObjects : Objects R).ethSynth =
      SyntheticSpotSynth.new "ETHUSDT (Synthetic)" mainWiring := rfl

end Objects

/-! ## What `update` leaves in each object -/

namespace Objects

open SyntheticSpotSynth

section Update

variable (o : Objects R) (symbol : String) (price : R) (ts : UInt64)

omit [DoubleOps R] in
@[simp] theorem setLeg_toWiring (s : SyntheticSpotSynth R) :
    (s.setLeg symbol price ts).toWiring = s.toWiring := by
  unfold setLeg
  split_ifs <;> rfl

omit [DoubleOps R] in
@[simp] theorem setLeg_buffer (s : SyntheticSpotSynth R) :
    (s.setLeg symbol price ts).buffer = s.buffer := by
  unfold setLeg
  split_ifs <;> rfl

omit [DoubleOps R] in
@[simp] theorem setLeg_realEthusdt (s : SyntheticSpotSynth R) :
    (s.setLeg symbol price ts).realEthusdt = s.realEthusdt := by
  unfold setLeg
  split_ifs <;> rfl

omit [DoubleOps R] in
theorem setLeg_readyEthbtc (s : SyntheticSpotSynth R) :
    (s.setLeg symbol price ts).readyEthbtc = (s.readyEthbtc || decide (symbol = "ETHBTC")) := by
  unfold setLeg
  split_ifs with he hb
  · simp [he]
  · simp [hb]
  · simp [he]

omit [DoubleOps R] in
theorem setLeg_readyBtcusdt (s : SyntheticSpotSynth R) :
    (s.setLeg symbol price ts).readyBtcusdt = (s.readyBtcusdt || decide (symbol = "BTCUSDT")) := by
  unfold setLeg
  split_ifs with he hb
  · simp [he]
  · simp [hb]
  · simp [hb]

/-- After `update` the engine is the one with the leg set, but for `synthetic_price` and
`last_ts`. -/
theorem update_ethSynth :
    (o.update symbol price ts).ethSynth =
      if (o.ethSynth.setLeg symbol price ts).synced then
        { o.ethSynth.setLeg symbol price ts with
          syntheticPrice := (o.ethSynth.setLeg symbol price ts).product, lastTs := ts }
      else o.ethSynth.setLeg symbol price ts := by
  unfold update
  dsimp only
  split <;> rfl

/-- What does not depend on `synthetic_price` and `last_ts` is after `update` what the leg
assignment makes it. -/
theorem update_frame {β : Type} (f : SyntheticSpotSynth R → β)
    (hf : ∀ (s : SyntheticSpotSynth R) p t, f { s with syntheticPrice := p, lastTs := t } = f s) :
    f (o.update symbol price ts).ethSynth = f (o.ethSynth.setLeg symbol price ts) := by
  rw [update_ethSynth]
  split
  · exact hf _ _ _
  · rfl

@[simp] theorem update_toWiring :
    (o.update symbol price ts).ethSynth.toWiring = o.ethSynth.toWiring := by
  rw [update_ethSynth]
  split <;> simp

@[simp] theorem update_buffer : (o.update symbol price ts).ethSynth.buffer = o.ethSynth.buffer := by
  rw [update_ethSynth]
  split <;> simp

@[simp] theorem update_realEthusdt :
    (o.update symbol price ts).ethSynth.realEthusdt = o.ethSynth.realEthusdt := by
  rw [update_ethSynth]
  split <;> simp

@[simp] theorem update_ready :
    (o.update symbol price ts).ethSynth.ready = (o.ethSynth.setLeg symbol price ts).ready :=
  update_frame o symbol price ts SyntheticSpotSynth.ready fun _ _ _ => rfl

@[simp] theorem update_synced :
    (o.update symbol price ts).ethSynth.synced = (o.ethSynth.setLeg symbol price ts).synced :=
  update_frame o symbol price ts SyntheticSpotSynth.synced fun _ _ _ => rfl

@[simp] theorem update_product :
    (o.update symbol price ts).ethSynth.product =
      (o.ethSynth.setLeg symbol price ts).product :=
  update_frame o symbol price ts SyntheticSpotSynth.product fun _ _ _ => rfl

@[simp] theorem update_ethSnapshotLogger :
    (o.update symbol price ts).ethSnapshotLogger = o.ethSnapshotLogger := by
  unfold update
  dsimp only
  split <;> rfl

@[simp] theorem update_ethArbEngine :
    (o.update symbol price ts).ethArbEngine = o.ethArbEngine := by
  unfold update
  dsimp only
  split <;> rfl

@[simp] theorem update_tracker : (o.update symbol price ts).tracker = o.tracker := by
  unfold update
  dsimp only
  split <;> rfl

theorem update_cout :
    (o.update symbol price ts).cout = o.cout ++
      if (o.ethSynth.setLeg symbol price ts).synced then
        [.synthetic (o.ethSynth.setLeg symbol price ts).label
          (o.ethSynth.setLeg symbol price ts).product ts]
      else [] := by
  unfold update
  dsimp only
  split <;> simp [product]

theorem update_ethLogger :
    (o.update symbol price ts).ethLogger =
      if (o.ethSynth.setLeg symbol price ts).synced && o.ethSynth.mispricingLogger then
        o.ethLogger.log (o.ethSynth.setLeg symbol price ts).product o.ethSynth.realEthusdt ts
      else o.ethLogger := by
  have hwiring : (o.ethSynth.setLeg symbol price ts).mispricingLogger =
      o.ethSynth.mispricingLogger := congrArg Wiring.mispricingLogger (setLeg_toWiring _ _ _ _)
  unfold update
  dsimp only
  split
  · next h =>
    rw [h, hwiring, Bool.true_and, setLeg_realEthusdt]
  · next h => simp [h]

theorem update_logfile :
    (o.update symbol price ts).ethLogger.logfile = o.ethLogger.logfile ++
      if (o.ethSynth.setLeg symbol price ts).synced && o.ethSynth.mispricingLogger then
        [⟨ts, (o.ethSynth.setLeg symbol price ts).product, o.ethSynth.realEthusdt,
          (o.ethSynth.setLeg symbol price ts).product - o.ethSynth.realEthusdt⟩]
      else [] := by
  rw [update_ethLogger]
  split
  · rw [MispricingLogger.log_logfile]
  · rw [List.append_nil]

end Update

/-! ## What `compareToReal` leaves in each object -/

section CompareToReal

variable (o : Objects R) (real : R) (ts : UInt64)

/-- The call reaches `shouldTrigger` and gets `true` from it. -/
def fires : Bool :=
  o.ethSynth.ready && o.ethSynth.arbEngine &&
    decide (triggerThreshold ≤ DoubleOps.abs (o.ethSynth.product - real)) &&
    o.ethArbEngine.passed "ETHUSDT" ts

@[simp] theorem tryTrigger_ethSynth : (o.tryTrigger real ts).ethSynth = o.ethSynth := by
  unfold tryTrigger
  dsimp only
  split_ifs <;> rfl

@[simp] theorem tryTrigger_ethSnapshotLogger :
    (o.tryTrigger real ts).ethSnapshotLogger = o.ethSnapshotLogger := by
  unfold tryTrigger
  dsimp only
  split_ifs <;> rfl

theorem compareToReal_of_not_ready {o : Objects R} (h : o.ethSynth.ready = false) (real : R)
    (ts : UInt64) : o.compareToReal real ts = o := by
  simp [compareToReal, h]

theorem compareToReal_of_ready {o : Objects R} (h : o.ethSynth.ready = true) (real : R)
    (ts : UInt64) : o.compareToReal real ts = (o.reprice real ts).tryTrigger real ts := by
  simp [compareToReal, h]

theorem compareToReal_ethSynth :
    (o.compareToReal real ts).ethSynth =
      if o.ethSynth.ready then
        { o.ethSynth with
          syntheticPrice := o.ethSynth.product
          realEthusdt := real
          buffer := o.ethSynth.buffer.add (o.ethSynth.product - real) }
      else o.ethSynth := by
  cases h : o.ethSynth.ready with
  | false => rw [compareToReal_of_not_ready h]; rfl
  | true => rw [compareToReal_of_ready h, tryTrigger_ethSynth]; rfl

theorem compareToReal_frame {β : Type} (f : SyntheticSpotSynth R → β)
    (hf : ∀ (s : SyntheticSpotSynth R) p real buffer,
      f { s with syntheticPrice := p, realEthusdt := real, buffer := buffer } = f s) :
    f (o.compareToReal real ts).ethSynth = f o.ethSynth := by
  rw [compareToReal_ethSynth]
  split
  · exact hf _ _ _ _
  · rfl

@[simp] theorem compareToReal_toWiring :
    (o.compareToReal real ts).ethSynth.toWiring = o.ethSynth.toWiring :=
  compareToReal_frame o real ts SyntheticSpotSynth.toWiring fun _ _ _ _ => rfl

@[simp] theorem compareToReal_ready :
    (o.compareToReal real ts).ethSynth.ready = o.ethSynth.ready :=
  compareToReal_frame o real ts SyntheticSpotSynth.ready fun _ _ _ _ => rfl

theorem compareToReal_realEthusdt :
    (o.compareToReal real ts).ethSynth.realEthusdt =
      if o.ethSynth.ready then real else o.ethSynth.realEthusdt := by
  rw [compareToReal_ethSynth]
  split <;> rfl

theorem compareToReal_snapshot :
    (o.compareToReal real ts).ethSnapshotLogger.out = o.ethSnapshotLogger.out ++
      if o.ethSynth.ready && o.ethSynth.snapshotLogger then
        [⟨ts, o.ethSynth.ethbtc, o.ethSynth.btcusdt, real, o.ethSynth.product,
          o.ethSynth.product - real⟩]
      else [] := by
  cases h : o.ethSynth.ready with
  | false => simp [compareToReal_of_not_ready h]
  | true =>
    rw [compareToReal_of_ready h, tryTrigger_ethSnapshotLogger, Bool.true_and]
    simp only [reprice]
    split <;> simp

/-- The cooldown is consumed only behind the readiness and the threshold guard. -/
theorem compareToReal_ethArbEngine :
    (o.compareToReal real ts).ethArbEngine =
      if o.ethSynth.ready && o.ethSynth.arbEngine &&
          decide (triggerThreshold ≤ DoubleOps.abs (o.ethSynth.product - real)) then
        (o.ethArbEngine.shouldTrigger "ETHUSDT" ts).1
      else o.ethArbEngine := by
  cases h : o.ethSynth.ready with
  | false => simp [compareToReal_of_not_ready h]
  | true =>
    rw [compareToReal_of_ready h, Bool.true_and]
    simp only [tryTrigger, reprice]
    split_ifs <;> rfl

/-- The tracker receives a trade exactly when the signal fires and the engine's own pointer to the
tracker is set. -/
theorem compareToReal_tracker :
    (o.compareToReal real ts).tracker =
      if o.fires real ts && o.ethSynth.pnlTracker then
        o.tracker.recordTrade "ETHUSDT"
          (effectiveEntry (direction (o.ethSynth.product - real)) o.ethSynth.product)
          (effectiveExit (direction (o.ethSynth.product - real)) real) ts
          (direction (o.ethSynth.product - real))
      else o.tracker := by
  unfold fires
  cases h : o.ethSynth.ready with
  | false => simp [compareToReal_of_not_ready h]
  | true =>
    rw [compareToReal_of_ready h, Bool.true_and]
    simp only [tryTrigger, reprice, fire, ArbOpportunityEngine.shouldTrigger_snd, Bool.and_eq_true,
      decide_eq_true_eq]
    split_ifs <;> simp_all

/-- What `compareToReal` prints: nothing without both legs, and the monitor first otherwise. -/
theorem compareToReal_cout :
    (o.compareToReal real ts).cout = o.cout ++
      if o.ethSynth.ready then
        [.monitor o.ethSynth.btcusdt o.ethSynth.ethbtc real o.ethSynth.product
          (real - o.ethSynth.product)] ++
        (if o.ethSynth.arbEngine &&
            (o.ethSynth.buffer.add (o.ethSynth.product - real)).isPersistentSpike
              spikeThreshold then
          [.evaluate (o.ethSynth.product - real) ts] else []) ++
        (if o.fires real ts then
          [.signal o.ethSynth.product ts (o.ethSynth.product - real)] else [])
      else [] := by
  unfold fires
  cases h : o.ethSynth.ready with
  | false => simp [compareToReal_of_not_ready h]
  | true =>
    rw [compareToReal_of_ready h, Bool.true_and]
    simp only [tryTrigger, reprice, fire, ArbOpportunityEngine.shouldTrigger_snd, Bool.and_eq_true,
      decide_eq_true_eq]
    split_ifs <;> simp_all

end CompareToReal

@[simp] theorem step_toWiring (o : Objects R) (c : SynthCall R) :
    (o.step c).ethSynth.toWiring = o.ethSynth.toWiring := by
  cases c with
  | update symbol price ts => exact update_toWiring o symbol price ts
  | compareToReal real ts => exact compareToReal_toWiring o real ts

theorem run_toWiring (o : Objects R) (calls : List (SynthCall R)) :
    (run step o calls).ethSynth.toWiring = o.ethSynth.toWiring :=
  run_frame (fun o : Objects R => o.ethSynth.toWiring) step_toWiring o calls

/-! ## Signals -/

/-- The time of a signal line. -/
def signalOf : Line R → Option UInt64
  | .signal _ ts _ => some ts
  | _ => none

/-- The times of the signals printed so far, in order. -/
def signals (o : Objects R) : List UInt64 := o.cout.filterMap signalOf

/-- Whether a call makes `shouldTrigger` return `true`. -/
def callFires (o : Objects R) : SynthCall R → Bool
  | .update _ _ _ => false
  | .compareToReal real ts => o.fires real ts

/-- **A signal is printed exactly by the calls that fire.** -/
theorem signals_step (o : Objects R) (c : SynthCall R) :
    (o.step c).signals = o.signals ++ if o.callFires c then [c.timestamp] else [] := by
  cases c with
  | update symbol price ts =>
    simp only [step, signals, update_cout, callFires]
    split <;> simp [signalOf]
  | compareToReal real ts =>
    simp only [step, signals, compareToReal_cout, callFires, SynthCall.timestamp]
    cases h : o.ethSynth.ready with
    | false => simp [fires, h]
    | true => split_ifs <;> simp_all [signalOf, List.filterMap_cons]

end Objects

end SyntheticArbitrage
