import SyntheticArbitrage.Lib.SharedFile
import SyntheticArbitrage.MockPnLEngine
import SyntheticArbitrage.TradeLog.Text

/-!
# The file that three writers share

`arbitrage_log.csv` is opened by the static `logger` of `include/SyntheticPair.hpp`, by the global
`arbLogger` and, truncating it, by the `log_file` of `main`.  The first two write rows of ten
fields, the third rows of seven; each writes its own header.

* `TradeLog.call`, `TradeLog.written`: a call, and the rows it gives to each writer.
* `program`: what the program puts, in order; `startup`: the file when `main` has truncated it.
* `Session`: the program's puts with flushes at any time; `Session.file`: the resulting file.
* `WellFormed`: one header line, the first, and rows of as many fields.
* `counts_outputs`: the commas and the line breaks of what the calls write.
-/

namespace SyntheticArbitrage

open SharedFile

/-- The two `ArbLogger` objects on the file. -/
inductive ArbObject where
  /-- `static ArbLogger logger` -/
  | logger
  /-- `ArbLogger arbLogger("arbitrage_log.csv")` -/
  | arbLogger
  deriving DecidableEq

inductive LogWriter where
  | arb (o : ArbObject)
  /-- `std::ofstream log_file("arbitrage_log.csv")` -/
  | logFile
  deriving DecidableEq

instance : Fintype LogWriter where
  elems := {.arb .logger, .arb .arbLogger, .logFile}
  complete := by
    intro w
    cases w with
    | arb o => cases o <;> decide
    | logFile => decide

/-- The objects with rows for the file: the tracker with its two streams, and the static logger. -/
structure TradeLog where
  tracker : Tracker XDouble
  logger : ArbLogger XDouble

inductive LogCall where
  | recordTrade (c : TradeCall XDouble)
  /-- `ArbLogger::log` at the time `now` -/
  | log (o : ArbObject) (now : UInt64) (symbol : String) (real synth delta : XDouble)

/-- The texts passed to the call have no separator in them. -/
def LogCall.Plain : LogCall → Prop
  | .recordTrade c => Csv.Plain c.symbol.toList ∧ Csv.Plain c.direction.toList
  | .log _ _ symbol _ _ _ => Csv.Plain symbol.toList

namespace TradeLog

def call (l : TradeLog) : LogCall → TradeLog
  | .recordTrade c => { l with tracker := l.tracker.record c }
  | .log .logger now symbol real synth delta =>
    { l with logger := l.logger.log now symbol real synth delta }
  | .log .arbLogger now symbol real synth delta =>
    { l with tracker.arbLogger := l.tracker.arbLogger.log now symbol real synth delta }

/-- The rows that a call gives to each writer; `recordTrade` writes to `external_log` first. -/
def written (l : TradeLog) (c : LogCall) : List (LogWriter × Row XDouble) :=
  (since l.tracker.logFile.rows (l.call c).tracker.logFile.rows).map (LogWriter.logFile, ·) ++
  (since l.tracker.arbLogger.file (l.call c).tracker.arbLogger.file).map (.arb .arbLogger, ·) ++
  (since l.logger.file (l.call c).logger.file).map (.arb .logger, ·)

/-- The objects as `main` attaches them. -/
def start (maxExposure : XDouble) : TradeLog where
  tracker := Tracker.fresh maxExposure true {} {}
  logger := {}

end TradeLog

/-- The header of `log_file`. -/
def logFileHeader : List String :=
  ["timestamp", "symbol", "direction", "entry_price", "exit_price", "size", "pnl"]

/-- What the program puts from the truncation on. -/
def program (maxExposure : XDouble) (calls : List LogCall) : List (LogWriter × List Char) :=
  (.logFile, headerLine logFileHeader) ::
    (outputs TradeLog.call TradeLog.written (TradeLog.start maxExposure) calls).flatMap fun p =>
      (rowPieces p.2).map (p.1, ·)

/-- The constructor of `ArbLogger`, on a file opened for appending. -/
def construct (tellp : List Char → ℕ) (o : ArbObject) (s : SharedFile LogWriter Char) :
    SharedFile LogWriter Char :=
  if tellp s.file = 0 then s.step (.put (.arb o) (headerLine ArbLogger.header)) else s

def flushes (s : SharedFile LogWriter Char) (ws : List LogWriter) : SharedFile LogWriter Char :=
  run step s (ws.map Op.flush)

/-- The truncating open of `log_file`. -/
def truncate (s : SharedFile LogWriter Char) : SharedFile LogWriter Char := { s with file := [] }

/-- The file when `main` has opened it: both loggers are constructed before `main`, and may be
flushed after that. -/
def startup (tellp : List Char → ℕ) (before : List Char) (early late : List LogWriter) :
    SharedFile LogWriter Char :=
  let s : SharedFile LogWriter Char := ⟨before, fun _ => []⟩
  let s := flushes (construct tellp .logger s) early
  let s := flushes (construct tellp .arbLogger s) late
  truncate s

/-- A session of the program: what it puts, with flushes of the three buffers at any time, and all
buffers flushed in the end. -/
structure Session where
  /-- `tellp()` on a file with these characters, just opened for appending. -/
  tellp : List Char → ℕ
  tellp_nil : tellp [] = 0
  /-- What an earlier run has left in the file. -/
  before : List Char
  /-- The flushes before the second constructor, and those before `main`. -/
  early : List LogWriter
  late : List LogWriter
  maxExposure : XDouble
  calls : List LogCall
  plain : ∀ c ∈ calls, c.Plain
  ops : List (Op LogWriter Char)
  puts : ops.filterMap SharedFile.written = program maxExposure calls
  flushed : ∀ w, (run step (startup tellp before early late) ops).buffer w = []

namespace Session

/-- The file that `main` has just truncated. -/
def opened (s : Session) : SharedFile LogWriter Char := startup s.tellp s.before s.early s.late

def file (s : Session) : List Char := (run step s.opened s.ops).file

end Session

def IsHeader (text : List Char) : Prop :=
  Csv.fields text = ArbLogger.header.map String.toList ∨
    Csv.fields text = logFileHeader.map String.toList

instance (text : List Char) : Decidable (IsHeader text) := inferInstanceAs (Decidable (_ ∨ _))

/-- One header line, the first, and every other line with as many fields. -/
def WellFormed (file : List Char) : Prop :=
  ∃ header rest, Csv.lines file = header :: rest ∧ IsHeader header ∧
    ∀ text ∈ rest, ¬ IsHeader text ∧ (Csv.fields text).length = (Csv.fields header).length

/-! ## The rows of a call -/

namespace TradeLog

/-- The tracker has both its streams, and `external_log` is open. -/
structure Attached (l : TradeLog) : Prop where
  externalLog : l.tracker.pnlTracker.externalLog = true
  isOpen : l.tracker.logFile.isOpen = true
  arbLogger : l.tracker.pnlTracker.arbLogger = true

theorem start_attached (maxExposure : XDouble) : (start maxExposure).Attached := ⟨rfl, rfl, rfl⟩

theorem Attached.call {l : TradeLog} (h : l.Attached) (c : LogCall) : (l.call c).Attached := by
  cases c with
  | recordTrade c =>
    refine ⟨h.externalLog, ?_, h.arbLogger⟩
    show (l.tracker.record c).logFile.isOpen = true
    simp [Tracker.record, Tracker.recordTrade, h.externalLog, h.isOpen]
  | log o now symbol real synth delta =>
    cases o with
    | logger => exact ⟨h.externalLog, h.isOpen, h.arbLogger⟩
    | arbLogger => exact ⟨h.externalLog, h.isOpen, h.arbLogger⟩

/-- The row of `recordTrade` in `external_log`. -/
def logFileRow (trade : SimulatedTrade XDouble) : Row XDouble :=
  [.ts trade.timestamp, .text trade.symbol, .text trade.direction, .real trade.entryPrice,
    .real trade.exitPrice, .real trade.size, .real trade.pnl]

/-- **The rows of `recordTrade`**: one of seven fields and one of ten. -/
theorem written_recordTrade {l : TradeLog} (h : l.Attached) (c : TradeCall XDouble) :
    l.written (.recordTrade c) =
      let engine := l.tracker.pnlTracker
      let trade := c.trade engine.maxExposure
      [(.logFile, logFileRow trade),
        (.arb .arbLogger, tradeRow trade.entryPrice trade.exitPrice trade.pnl trade.timestamp
          (Int32.ofNat (engine.trades ++ [trade]).length) (engine.totalPnl + trade.pnl)
          trade.direction trade.size)] := by
  simp only [written, TradeLog.call, Tracker.record, Tracker.recordTrade, h.externalLog, h.isOpen,
    h.arbLogger, Bool.and_true, if_true, ArbLogger.logSimulatedTrade_file, since]
  simp [TradeCall.trade, logFileRow]

/-- **The row of `log`** has ten fields. -/
theorem written_log (l : TradeLog) (o : ArbObject) (now : UInt64) (symbol : String)
    (real synth delta : XDouble) :
    l.written (.log o now symbol real synth delta) =
      [(.arb o, alertRow now symbol real synth delta)] := by
  cases o <;> simp [written, TradeLog.call, since]

end TradeLog

/-! ## Commas and line breaks -/

/-- A text with as many line breaks and commas. -/
def Counts (breaks commas : ℕ) (text : List Char) : Prop :=
  text.count '\n' = breaks ∧ text.count ',' = commas

instance (breaks commas : ℕ) (text : List Char) : Decidable (Counts breaks commas text) :=
  inferInstanceAs (Decidable (_ ∧ _))

theorem Counts.append {b c b' c' : ℕ} {text text' : List Char} (h : Counts b c text)
    (h' : Counts b' c' text') : Counts (b + b') (c + c') (text ++ text') := by
  constructor
  · rw [List.count_append, h.1, h'.1]
  · rw [List.count_append, h.2, h'.2]

theorem counts_rowLine {row : Row XDouble} {n : ℕ} (hlen : row.length = n + 1)
    (hplain : ∀ cell ∈ row, cell.Plain) : Counts 1 n (rowLine row) := by
  have hne : row.map Cell.printed ≠ [] := by
    rw [ne_eq, List.map_eq_nil_iff, ← List.length_eq_zero_iff, hlen]
    exact Nat.succ_ne_zero n
  have htexts : ∀ text ∈ row.map Cell.printed, Csv.Plain text := by
    intro text ht
    obtain ⟨cell, hcell, rfl⟩ := List.mem_map.mp ht
    exact (hplain cell hcell).printed
  obtain ⟨hbreaks, hcommas⟩ := Csv.count_line hne htexts
  rw [List.length_map, hlen] at hcommas
  exact ⟨hbreaks, Nat.succ_injective hcommas⟩

theorem counts_logFileRow {trade : SimulatedTrade XDouble} (hsymbol : Csv.Plain trade.symbol.toList)
    (hdirection : Csv.Plain trade.direction.toList) :
    Counts 1 6 (rowLine (TradeLog.logFileRow trade)) := by
  have hlen : (TradeLog.logFileRow trade).length = 6 + 1 := rfl
  refine counts_rowLine hlen ?_
  simp [TradeLog.logFileRow, Cell.Plain, hsymbol, hdirection]

theorem counts_tradeRow (synthetic real netPnl : XDouble) (ts : UInt64) (signalCount : Int32)
    (totalPnl : XDouble) {direction : String} (size : XDouble)
    (h : Csv.Plain direction.toList) :
    Counts 1 9
      (rowLine (tradeRow synthetic real netPnl ts signalCount totalPnl direction size)) := by
  have hlen : (tradeRow synthetic real netPnl ts signalCount totalPnl direction size).length =
      9 + 1 := rfl
  exact counts_rowLine hlen (plain_tradeRow synthetic real netPnl ts signalCount totalPnl size h)

theorem counts_alertRow (now : UInt64) {symbol : String} (real synth delta : XDouble)
    (h : Csv.Plain symbol.toList) :
    Counts 1 9 (rowLine (alertRow now symbol real synth delta)) := by
  have hlen : (alertRow now symbol real synth delta).length = 9 + 1 := rfl
  exact counts_rowLine hlen (plain_alertRow now real synth delta h)

def writtenText (rows : List (LogWriter × Row XDouble)) : List Char :=
  rows.flatMap fun p => rowLine p.2

/-- **The counts of one call**: two rows with 6 and 9 commas, or one with 9. -/
theorem counts_written {l : TradeLog} (h : l.Attached) {c : LogCall} (hc : c.Plain) :
    Counts 2 15 (writtenText (l.written c)) ∨ Counts 1 9 (writtenText (l.written c)) := by
  cases c with
  | recordTrade c =>
    left
    obtain ⟨hsymbol, hdirection⟩ := hc
    rw [TradeLog.written_recordTrade h, writtenText]
    simp only [List.flatMap_cons, List.flatMap_nil, List.append_nil]
    exact (counts_logFileRow hsymbol hdirection).append (counts_tradeRow _ _ _ _ _ _ _ hdirection)
  | log o now symbol real synth delta =>
    right
    rw [TradeLog.written_log, writtenText]
    simp only [List.flatMap_cons, List.flatMap_nil, List.append_nil]
    exact counts_alertRow now real synth delta hc

/-- **The counts of a run**, of `n` calls with two rows and `k` with one. -/
theorem counts_outputs {l : TradeLog} (h : l.Attached) {calls : List LogCall}
    (hplain : ∀ c ∈ calls, c.Plain) :
    ∃ n k, n + k = calls.length ∧
      Counts (2 * n + k) (15 * n + 9 * k)
        (writtenText (outputs TradeLog.call TradeLog.written l calls)) := by
  induction calls generalizing l with
  | nil => exact ⟨0, 0, rfl, rfl, rfl⟩
  | cons c calls ih =>
    obtain ⟨n, k, hlen, hcounts⟩ := ih (h.call c) fun d hd => hplain d (List.mem_cons_of_mem _ hd)
    have htext : writtenText (outputs TradeLog.call TradeLog.written l (c :: calls)) =
        writtenText (l.written c) ++
          writtenText (outputs TradeLog.call TradeLog.written (l.call c) calls) := by
      rw [outputs, writtenText, List.flatMap_append]
      rfl
    rw [htext, List.length_cons, ← hlen]
    rcases counts_written h (hplain c List.mem_cons_self) with htwo | hone
    · refine ⟨n + 1, k, by omega, ?_⟩
      have hsum := htwo.append hcounts
      rwa [show 2 * (n + 1) + k = 2 + (2 * n + k) by omega,
        show 15 * (n + 1) + 9 * k = 15 + (15 * n + 9 * k) by omega]
    · refine ⟨n, k + 1, by omega, ?_⟩
      have hsum := hone.append hcounts
      rwa [show 2 * n + (k + 1) = 1 + (2 * n + k) by omega,
        show 15 * n + 9 * (k + 1) = 9 + (15 * n + 9 * k) by omega]

end SyntheticArbitrage
