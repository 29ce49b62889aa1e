import SyntheticArbitrage.Double
import Mathlib.Data.List.Basic

/-!
# The loggers

The three classes that write a CSV file.  A logger is its constructor's data and the rows written
after the header; a row is either a record of what was printed (`MispricingRow`, `SnapshotRow`) or,
for the trade log that several writers share, its list of fields (`Row`).  How a number is printed
is not part of the row.

* `MispricingLogger.log`: `include/MispricingLogger.hpp`
* `SyntheticSnapshotLogger.write`: `include/SyntheticSnapshotLogger.hpp`
* `ArbLogger.logSimulatedTrade`, `ArbLogger.log`: `include/ArbLogger.hpp`
-/

namespace SyntheticArbitrage

variable {R : Type} [DoubleOps R]

/-! ## MispricingLogger -/

structure MispricingRow (R : Type) where
  timestamp : UInt64
  syntheticPrice : R
  realPrice : R
  diff : R
  deriving DecidableEq

structure MispricingLogger (R : Type) where
  name : String
  threshold : R
  logfile : List (MispricingRow R) := []
  /-- The `∆` of each `[Mispricing Alert]` line printed. -/
  alerts : List R := []

def MispricingLogger.log (l : MispricingLogger R) (syntheticPrice realPrice : R) (ts : UInt64) :
    MispricingLogger R :=
  let diff := syntheticPrice - realPrice
  { l with
    logfile := l.logfile ++ [⟨ts, syntheticPrice, realPrice, diff⟩]
    alerts := if l.threshold ≤ DoubleOps.abs diff then l.alerts ++ [diff] else l.alerts }

/-! ## SyntheticSnapshotLogger -/

structure SnapshotRow (R : Type) where
  timestamp : UInt64
  ethbtc : R
  btcusdt : R
  realEthusdt : R
  syntheticEthusdt : R
  diff : R
  deriving DecidableEq

structure SyntheticSnapshotLogger (R : Type) where
  out : List (SnapshotRow R) := []

def SyntheticSnapshotLogger.write (l : SyntheticSnapshotLogger R) (ts : UInt64)
    (ethbtc btcusdt realEth syntheticEth : R) : SyntheticSnapshotLogger R :=
  let diff := syntheticEth - realEth
  { l with out := l.out ++ [⟨ts, ethbtc, btcusdt, realEth, syntheticEth, diff⟩] }

/-! ## The trade log -/

inductive Cell (R : Type) where
  | ts (t : UInt64)
  | text (s : String)
  | real (x : R)
  | int (n : Int32)
  deriving DecidableEq

abbrev Row (R : Type) := List (Cell R)

/-- The field of a row that stands under a column name of a header. -/
def column (header : List String) (name : String) (row : Row R) : Option (Cell R) :=
  (header.zip row).lookup name

/-- A `std::ofstream`: whether it is open, and the rows written to it. -/
structure OutFile (R : Type) where
  isOpen : Bool := true
  rows : List (Row R) := []

structure ArbLogger (R : Type) where
  file : List (Row R) := []

/-- The header line that the constructor writes to an empty file. -/
def ArbLogger.header : List String :=
  ["timestamp", "type", "real_price", "synthetic_price", "delta", "net_pnl", "count",
    "cumulative_pnl", "direction", "size"]

/-- The row of `logSimulatedTrade`. -/
def tradeRow (synthetic real netPnl : R) (ts : UInt64) (signalCount : Int32) (totalPnl : R)
    (direction : String) (size : R) : Row R :=
  [.ts ts, .text "SimulatedTrade", .real real, .real synthetic, .real (synthetic - real),
    .real netPnl, .int signalCount, .real totalPnl, .text direction, .real size]

/-- The row of `log`; the remaining fields are empty. -/
def alertRow (now : UInt64) (symbol : String) (real synth delta : R) : Row R :=
  [.ts now, .text symbol, .real real, .real synth, .real delta, .text "", .text "", .text "",
    .text "", .text ""]

def ArbLogger.logSimulatedTrade (l : ArbLogger R) (synthetic real netPnl : R) (ts : UInt64)
    (signalCount : Int32) (totalPnl : R) (direction : String) (size : R) : ArbLogger R :=
  { l with
    file := l.file ++ [tradeRow synthetic real netPnl ts signalCount totalPnl direction size] }

/-- `now` is the clock of the writer, in seconds. -/
def ArbLogger.log (l : ArbLogger R) (now : UInt64) (symbol : String) (real synth delta : R) :
    ArbLogger R :=
  { l with file := l.file ++ [alertRow now symbol real synth delta] }

/-! ## Logs only grow -/

@[simp] theorem MispricingLogger.log_logfile (l : MispricingLogger R) (s r : R) (ts : UInt64) :
    (l.log s r ts).logfile = l.logfile ++ [⟨ts, s, r, s - r⟩] := rfl

@[simp] theorem ArbLogger.logSimulatedTrade_file (l : ArbLogger R) (synthetic real netPnl : R)
    (ts : UInt64) (signalCount : Int32) (totalPnl : R) (direction : String) (size : R) :
    (l.logSimulatedTrade synthetic real netPnl ts signalCount totalPnl direction size).file =
      l.file ++ [tradeRow synthetic real netPnl ts signalCount totalPnl direction size] := rfl

omit [DoubleOps R] in
@[simp] theorem ArbLogger.log_file (l : ArbLogger R) (now : UInt64) (symbol : String)
    (real synth delta : R) :
    (l.log now symbol real synth delta).file = l.file ++ [alertRow now symbol real synth delta] :=
  rfl

theorem MispricingLogger.log_alerts (l : MispricingLogger R) (s r : R) (ts : UInt64) :
    (l.log s r ts).alerts =
      l.alerts ++ if l.threshold ≤ DoubleOps.abs (s - r) then [s - r] else [] := by
  simp only [MispricingLogger.log]
  split <;> simp

@[simp] theorem SyntheticSnapshotLogger.write_out (l : SyntheticSnapshotLogger R) (ts : UInt64)
    (a b r s : R) : (l.write ts a b r s).out = l.out ++ [⟨ts, a, b, r, s, s - r⟩] := rfl

end SyntheticArbitrage
