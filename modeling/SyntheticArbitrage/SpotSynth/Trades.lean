import SyntheticArbitrage.SpotSynth.Basic

/-!
# The trades that the spot engine records

* `compareTrade`: the trade that `compareToReal` hands to `recordTrade`, from its two prices.
* `trades_concat`, `run_trades`: the ledger after a call and after a run, as what it was and the
  trades recorded since.
-/

namespace SyntheticArbitrage

variable {R : Type} [DoubleOps R]

namespace Objects

open SyntheticSpotSynth

/-- The trade of a synthetic price `s` against a real price `r`: the direction is that of the
mispricing, and slippage moves both prices against the trade. -/
def compareTrade (maxExposure s r : R) (timestamp : UInt64) : SimulatedTrade R :=
  simulate maxExposure "ETHUSDT" (effectiveEntry (direction (s - r)) s)
    (effectiveExit (direction (s - r)) r) timestamp (direction (s - r))

def recorded (o : Objects R) : SynthCall R → List (SimulatedTrade R)
  | .update _ _ _ => []
  | .compareToReal real ts =>
    if o.fires real ts && o.ethSynth.pnlTracker then
      [compareTrade o.tracker.pnlTracker.maxExposure o.ethSynth.product real ts]
    else []

/-- **One call**: the ledger is what it was, followed by what the call records. -/
theorem trades_concat (o : Objects R) (c : SynthCall R) :
    (o.step c).tracker.pnlTracker.trades = o.tracker.pnlTracker.trades ++ o.recorded c := by
  cases c with
  | update symbol price ts => rw [step, update_tracker, recorded, List.append_nil]
  | compareToReal real ts =>
    rw [step, compareToReal_tracker, recorded]
    split
    · exact Tracker.recordTrade_trades _ _ _ _ _ _
    · exact (List.append_nil _).symm

/-- **A run**: the ledger is what it was, followed by what each call records. -/
theorem run_trades (o : Objects R) (calls : List (SynthCall R)) :
    (run step o calls).tracker.pnlTracker.trades =
      o.tracker.pnlTracker.trades ++ outputs step recorded o calls :=
  run_outputs (fun o : Objects R => o.tracker.pnlTracker.trades) trades_concat o calls

theorem step_maxExposure (o : Objects R) (c : SynthCall R) :
    (o.step c).tracker.pnlTracker.maxExposure = o.tracker.pnlTracker.maxExposure := by
  cases c with
  | update symbol price ts => rw [step, update_tracker]
  | compareToReal real ts =>
    rw [step, compareToReal_tracker]
    split <;> rfl

end Objects

end SyntheticArbitrage
