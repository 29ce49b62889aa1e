import SyntheticArbitrage.Loggers
import SyntheticArbitrage.Lib.Run
import Mathlib.Algebra.BigOperators.Group.List.Basic
import Mathlib.Order.Bounds.Basic
import Mathlib.Tactic.Linarith

/-!
# The ledger of simulated trades

`include/MockPnLEngine.hpp`.  `recordTrade` keeps the same trades in five places: the list of
trades, the list of their pnls, a running total, a running maximum of the sizes, and the rows of
the trade log.

* `simulate`: the trade that a call of `recordTrade` makes of its arguments.
* `Tracker.Consistent`: the five places agree.
* `recordTrade_consistent`, `ledger_consistent`: every call keeps the agreement, so every run has
  it.
-/

namespace SyntheticArbitrage

structure SimulatedTrade (R : Type) where
  symbol : String
  entryPrice : R
  exitPrice : R
  direction : String
  size : R
  pnl : R
  timestamp : UInt64
  deriving DecidableEq

structure MockPnLEngine (R : Type) where
  trades : List (SimulatedTrade R) := []
  totalPnl : R
  maxObservedExposure : R
  maxExposure : R
  pnlSeries : List R := []
  /-- Whether `external_log` points to the stream that `main` attaches. -/
  externalLog : Bool := false
  /-- Whether `arb_logger` points to the logger that `main` attaches. -/
  arbLogger : Bool := false

/-- The engine together with the two objects its pointers lead to. -/
structure Tracker (R : Type) where
  pnlTracker : MockPnLEngine R
  logFile : OutFile R
  arbLogger : ArbLogger R

section Model

variable {R : Type} [DoubleOps R]

/-- The constructor, called with `max_exposure`. -/
def MockPnLEngine.new (maxExposure : R) : MockPnLEngine R where
  totalPnl := 0
  maxObservedExposure := 0
  maxExposure := maxExposure

/-- The trade that `recordTrade` makes of its arguments. -/
def simulate (maxExposure : R) (symbol : String) (syntheticPrice realPrice : R)
    (timestamp : UInt64) (direction : String) : SimulatedTrade R :=
  let spread := DoubleOps.abs (realPrice - syntheticPrice)
  let edge := spread / realPrice
  let size := stdMin (edge * DoubleOps.lit 100.0) maxExposure
  let pnl :=
    if direction = "BUY" then (realPrice - syntheticPrice) * (size / realPrice)
    else (syntheticPrice - realPrice) * (size / realPrice)
  { symbol, entryPrice := syntheticPrice, exitPrice := realPrice, direction, size, pnl, timestamp }

def Tracker.recordTrade (t : Tracker R) (symbol : String) (syntheticPrice realPrice : R)
    (timestamp : UInt64) (direction : String) : Tracker R :=
  let engine := t.pnlTracker
  let trade :=
    simulate engine.maxExposure symbol syntheticPrice realPrice timestamp direction
  let trades := engine.trades ++ [trade]
  let totalPnl := engine.totalPnl + trade.pnl
  { pnlTracker :=
      { engine with
        trades := trades
        totalPnl := totalPnl
        maxObservedExposure := stdMax engine.maxObservedExposure trade.size
        pnlSeries := engine.pnlSeries ++ [trade.pnl] }
    logFile :=
      if engine.externalLog && t.logFile.isOpen then
        { t.logFile with
          rows := t.logFile.rows ++ [[.ts trade.timestamp, .text trade.symbol,
            .text trade.direction, .real trade.entryPrice, .real trade.exitPrice,
            .real trade.size, .real trade.pnl]] }
      else t.logFile
    arbLogger :=
      if engine.arbLogger then
        -- `trades.size()` is narrowed to the `int` parameter `signal_count`
        t.arbLogger.logSimulatedTrade trade.entryPrice trade.exitPrice trade.pnl trade.timestamp
          (Int32.ofNat trades.length) totalPnl trade.direction trade.size
      else t.arbLogger }

def MockPnLEngine.getPnL (e : MockPnLEngine R) : R := e.totalPnl

def MockPnLEngine.getCount (e : MockPnLEngine R) : ℕ := e.trades.length

def MockPnLEngine.getMaxExposure (e : MockPnLEngine R) : R := e.maxObservedExposure

/-- The arguments of a call of `recordTrade`. -/
structure TradeCall (R : Type) where
  symbol : String
  syntheticPrice : R
  realPrice : R
  timestamp : UInt64
  direction : String

def Tracker.record (t : Tracker R) (c : TradeCall R) : Tracker R :=
  t.recordTrade c.symbol c.syntheticPrice c.realPrice c.timestamp c.direction

def TradeCall.trade (maxExposure : R) (c : TradeCall R) : SimulatedTrade R :=
  simulate maxExposure c.symbol c.syntheticPrice c.realPrice c.timestamp c.direction

/-- A fresh engine with an `ArbLogger` attached, and perhaps a stream. -/
def Tracker.fresh (maxExposure : R) (externalLog : Bool) (logFile : OutFile R)
    (arbLogger : ArbLogger R) : Tracker R where
  pnlTracker := { MockPnLEngine.new maxExposure with externalLog, arbLogger := true }
  logFile := logFile
  arbLogger := arbLogger

theorem Tracker.recordTrade_trades (t : Tracker R) (symbol : String) (s r : R) (ts : UInt64)
    (direction : String) :
    (t.recordTrade symbol s r ts direction).pnlTracker.trades =
      t.pnlTracker.trades ++ [simulate t.pnlTracker.maxExposure symbol s r ts direction] := rfl

theorem Tracker.run_record_entries {β : Type} (log : Tracker R → List β)
    (entry : SimulatedTrade R → β)
    (hstep : ∀ (t : Tracker R) c,
      log (t.record c) = log t ++ [entry (c.trade t.pnlTracker.maxExposure)])
    (t : Tracker R) (calls : List (TradeCall R)) :
    log (run Tracker.record t calls) =
      log t ++ calls.map fun c => entry (c.trade t.pnlTracker.maxExposure) := by
  induction calls generalizing t with
  | nil => rw [run_nil, List.map_nil, List.append_nil]
  | cons c calls ih =>
    rw [run_cons, ih, hstep, List.append_assoc, List.singleton_append, List.map_cons]
    rfl

theorem Tracker.run_record_pnlSeries (t : Tracker R) (calls : List (TradeCall R)) :
    (run Tracker.record t calls).pnlTracker.pnlSeries =
      t.pnlTracker.pnlSeries ++ calls.map fun c => (c.trade t.pnlTracker.maxExposure).pnl :=
  run_record_entries (fun t => t.pnlTracker.pnlSeries) SimulatedTrade.pnl (fun _ _ => rfl) t calls

end Model

/-! ## The rows of the trade log -/

/-- The `SimulatedTrade` row of a trade, with the count and the total it is logged with. -/
def simulatedRow (trade : SimulatedTrade ℚ) (count : ℕ) (totalPnl : ℚ) : Row ℚ :=
  [.ts trade.timestamp, .text "SimulatedTrade", .real trade.exitPrice, .real trade.entryPrice,
    .real (trade.entryPrice - trade.exitPrice), .real trade.pnl, .int (Int32.ofNat count),
    .real totalPnl, .text trade.direction, .real trade.size]

/-- The rows of a list of trades: the `i`-th counts `i` trades and sums their pnls. -/
def simulatedRows (trades : List (SimulatedTrade ℚ)) : List (Row ℚ) :=
  trades.mapIdx fun i trade =>
    simulatedRow trade (i + 1) ((trades.take (i + 1)).map SimulatedTrade.pnl).sum

theorem simulatedRows_concat (trades : List (SimulatedTrade ℚ)) (trade : SimulatedTrade ℚ) :
    simulatedRows (trades ++ [trade]) = simulatedRows trades ++
      [simulatedRow trade (trades.length + 1)
        ((trades.map SimulatedTrade.pnl).sum + trade.pnl)] := by
  rw [simulatedRows, List.mapIdx_append, simulatedRows]
  congr 1
  · -- an earlier row sums a prefix that the new trade is not in
    apply List.mapIdx_eq_mapIdx_iff.mpr
    intro i hi
    rw [List.take_append_of_le_length (by omega)]
  · simp

/-- What a row of the trade log says under the header, for the `i`-th trade of a ledger. -/
structure RowReads (row : Row ℚ) (i : ℕ) (trade : SimulatedTrade ℚ) (cumulative : ℚ) : Prop where
  timestamp : column ArbLogger.header "timestamp" row = some (.ts trade.timestamp)
  type : column ArbLogger.header "type" row = some (.text "SimulatedTrade")
  realPrice : column ArbLogger.header "real_price" row = some (.real trade.exitPrice)
  syntheticPrice : column ArbLogger.header "synthetic_price" row = some (.real trade.entryPrice)
  delta : column ArbLogger.header "delta" row = some (.real (trade.entryPrice - trade.exitPrice))
  netPnl : column ArbLogger.header "net_pnl" row = some (.real trade.pnl)
  count : ∃ n : Int32, column ArbLogger.header "count" row = some (.int n) ∧ n.toInt = i
  cumulativePnl : column ArbLogger.header "cumulative_pnl" row = some (.real cumulative)
  direction : column ArbLogger.header "direction" row = some (.text trade.direction)
  size : column ArbLogger.header "size" row = some (.real trade.size)

theorem simulatedRow_reads (trade : SimulatedTrade ℚ) {i : ℕ} (hi : i < 2 ^ 31) (total : ℚ) :
    RowReads (simulatedRow trade i total) i trade total where
  timestamp := rfl
  type := rfl
  realPrice := rfl
  syntheticPrice := rfl
  delta := rfl
  netPnl := rfl
  count := ⟨Int32.ofNat i, rfl, Int32.toInt_ofNat_of_lt hi⟩
  cumulativePnl := rfl
  direction := rfl
  size := rfl

/-! ## The five places agree -/

/-- The ledger's redundant fields say the same of its trades; `before` is what the trade log held
when the run began. -/
structure Tracker.Consistent (before : List (Row ℚ)) (t : Tracker ℚ) : Prop where
  attached : t.pnlTracker.arbLogger = true
  series : t.pnlTracker.pnlSeries = t.pnlTracker.trades.map SimulatedTrade.pnl
  total : t.pnlTracker.totalPnl = (t.pnlTracker.trades.map SimulatedTrade.pnl).sum
  exposure : IsGreatest (insert 0 {x | ∃ trade ∈ t.pnlTracker.trades, trade.size = x})
    t.pnlTracker.maxObservedExposure
  rows : t.arbLogger.file = before ++ simulatedRows t.pnlTracker.trades

theorem isGreatest_insert_max {s : Set ℚ} {m : ℚ} (h : IsGreatest s m) (x : ℚ) :
    IsGreatest (insert x s) (max m x) := by
  refine ⟨?_, ?_⟩
  · rcases le_total m x with hmx | hxm
    · rw [max_eq_right hmx]
      exact Set.mem_insert _ _
    · rw [max_eq_left hxm]
      exact Set.mem_insert_of_mem _ h.1
  · rintro y (rfl | hy)
    · exact le_max_right _ _
    · exact le_trans (h.2 hy) (le_max_left _ _)

/-- **Every call of `recordTrade` keeps the ledger consistent.** -/
theorem Tracker.recordTrade_consistent {before : List (Row ℚ)} {t : Tracker ℚ}
    (h : t.Consistent before) (symbol : String) (s r : ℚ) (ts : UInt64) (direction : String) :
    (t.recordTrade symbol s r ts direction).Consistent before where
  attached := h.attached
  series := by
    rw [recordTrade_trades, List.map_append, ← h.series]
    rfl
  total := by
    rw [recordTrade_trades, List.map_append, List.sum_append, ← h.total]
    simp [recordTrade]
  exposure := by
    have hset : (insert 0 {x | ∃ trade ∈ (t.recordTrade symbol s r ts direction).pnlTracker.trades,
        trade.size = x} : Set ℚ) =
        insert (simulate t.pnlTracker.maxExposure symbol s r ts direction).size
          (insert 0 {x | ∃ trade ∈ t.pnlTracker.trades, trade.size = x}) := by
      ext x
      simp only [recordTrade_trades, List.mem_append, List.mem_singleton, Set.mem_insert_iff,
        Set.mem_ofPred_eq, or_and_right, exists_or, exists_eq_left]
      constructor
      · rintro (h0 | htrades | hnew)
        · exact Or.inr (Or.inl h0)
        · exact Or.inr (Or.inr htrades)
        · exact Or.inl hnew.symm
      · rintro (hnew | h0 | htrades)
        · exact Or.inr (Or.inr hnew.symm)
        · exact Or.inl h0
        · exact Or.inr (Or.inl htrades)
    rw [hset]
    have := isGreatest_insert_max h.exposure
      (simulate t.pnlTracker.maxExposure symbol s r ts direction).size
    simpa [recordTrade] using this
  rows := by
    rw [recordTrade_trades, simulatedRows_concat, ← h.total, ← List.append_assoc, ← h.rows]
    simp [recordTrade, h.attached, ArbLogger.logSimulatedTrade, tradeRow, simulatedRow, simulate]

theorem Tracker.run_record_trades (t : Tracker ℚ) (calls : List (TradeCall ℚ)) :
    (run Tracker.record t calls).pnlTracker.trades =
      t.pnlTracker.trades ++ calls.map (TradeCall.trade t.pnlTracker.maxExposure) :=
  run_record_entries (fun t => t.pnlTracker.trades) id (fun _ _ => rfl) t calls

theorem Tracker.fresh_consistent (maxExposure : ℚ) (externalLog : Bool) (logFile : OutFile ℚ)
    (arbLogger : ArbLogger ℚ) :
    (fresh maxExposure externalLog logFile arbLogger).Consistent arbLogger.file where
  attached := rfl
  series := rfl
  total := rfl
  exposure := by
    have hset : (insert 0 {x | ∃ trade ∈ ([] : List (SimulatedTrade ℚ)), trade.size = x} : Set ℚ) =
        {0} := by ext x; simp
    exact hset ▸ isGreatest_singleton
  rows := (List.append_nil _).symm

/-! ## Reading the rows back -/

/-- The `net_pnl` column of a row. -/
def netPnl (row : Row ℚ) : Option ℚ :=
  match column ArbLogger.header "net_pnl" row with
  | some (.real x) => some x
  | _ => none

theorem netPnl_simulatedRow (trade : SimulatedTrade ℚ) (count : ℕ) (total : ℚ) :
    netPnl (simulatedRow trade count total) = some trade.pnl := rfl

theorem filterMap_netPnl_mapIdx (trades : List (SimulatedTrade ℚ)) (f : ℕ → ℕ) (g : ℕ → ℚ) :
    (trades.mapIdx fun i trade => simulatedRow trade (f i) (g i)).filterMap netPnl =
      trades.map SimulatedTrade.pnl := by
  induction trades generalizing f g with
  | nil => rfl
  | cons trade trades ih =>
    rw [List.mapIdx_cons, List.filterMap_cons_some (netPnl_simulatedRow _ _ _), List.map_cons]
    exact congrArg _ (ih (fun i => f (i + 1)) (fun i => g (i + 1)))

/-- The `net_pnl` columns of the first rows are the pnls of the first trades. -/
theorem filterMap_netPnl_take (trades : List (SimulatedTrade ℚ)) (n : ℕ) :
    ((simulatedRows trades).take n).filterMap netPnl = (trades.take n).map SimulatedTrade.pnl := by
  have htake : (simulatedRows trades).take n = (trades.take n).mapIdx fun i trade =>
      simulatedRow trade (i + 1) ((trades.take (i + 1)).map SimulatedTrade.pnl).sum := by
    apply List.ext_getElem?
    intro i
    simp only [simulatedRows, List.getElem?_take, List.getElem?_mapIdx]
    split <;> rfl
  rw [htake]
  exact filterMap_netPnl_mapIdx _ _ _

/-- **The ledger of a whole run.**  After any calls of `recordTrade` on a fresh engine with an
`ArbLogger` attached, the count, the series, the total and the maximum are those of the trades, and
the `i`-th row of the log counts `i` trades and carries the sum of the first `i` pnl columns. -/
theorem ledger_consistent (maxExposure : ℚ) (externalLog : Bool) (logFile : OutFile ℚ)
    (arbLogger : ArbLogger ℚ) (calls : List (TradeCall ℚ)) (hlen : calls.length < 2 ^ 31) :
    let t := run Tracker.record (Tracker.fresh maxExposure externalLog logFile arbLogger) calls
    t.pnlTracker.trades = calls.map (TradeCall.trade maxExposure) ∧
    t.pnlTracker.getCount = calls.length ∧
    t.pnlTracker.pnlSeries.length = calls.length ∧
    t.pnlTracker.pnlSeries = t.pnlTracker.trades.map SimulatedTrade.pnl ∧
    t.pnlTracker.getPnL = t.pnlTracker.pnlSeries.sum ∧
    IsGreatest (insert 0 {x | ∃ trade ∈ t.pnlTracker.trades, trade.size = x})
      t.pnlTracker.getMaxExposure ∧
    ∃ rows, t.arbLogger.file = arbLogger.file ++ rows ∧ rows.length = calls.length ∧
      ∀ i trade, t.pnlTracker.trades[i]? = some trade →
        ∃ row, rows[i]? = some row ∧
          RowReads row (i + 1) trade ((rows.take (i + 1)).filterMap netPnl).sum := by
  intro t
  have hstep : ∀ (u : Tracker ℚ) (c : TradeCall ℚ), u.Consistent arbLogger.file → True →
      (u.record c).Consistent arbLogger.file := fun _ c h _ => Tracker.recordTrade_consistent h
    c.symbol c.syntheticPrice c.realPrice c.timestamp c.direction
  have hc : t.Consistent arbLogger.file := run_invariant hstep calls
    (Tracker.fresh_consistent maxExposure externalLog logFile arbLogger) (fun _ _ => trivial)
  have htrades : t.pnlTracker.trades = calls.map (TradeCall.trade maxExposure) :=
    Tracker.run_record_trades _ calls
  have hcount : t.pnlTracker.trades.length = calls.length := by rw [htrades, List.length_map]
  refine ⟨htrades, hcount, ?_, hc.series, ?_, hc.exposure, simulatedRows t.pnlTracker.trades,
    hc.rows, ?_, ?_⟩
  · rw [hc.series, List.length_map, hcount]
  · rw [MockPnLEngine.getPnL, hc.total, hc.series]
  · rw [simulatedRows, List.length_mapIdx, hcount]
  · intro i trade hi
    have hlt : i < t.pnlTracker.trades.length := (List.getElem?_eq_some_iff.mp hi).1
    refine ⟨simulatedRow trade (i + 1)
      ((t.pnlTracker.trades.take (i + 1)).map SimulatedTrade.pnl).sum, ?_, ?_⟩
    · rw [simulatedRows, List.getElem?_mapIdx, hi]
      rfl
    · rw [filterMap_netPnl_take]
      exact simulatedRow_reads trade (by omega) _

/-- Two trades, one of each direction. -/
theorem ledger_consistent_two :
    let calls : List (TradeCall ℚ) :=
      [⟨"ETHUSDT", 101, 100, 1000, "SELL"⟩, ⟨"ETHUSDT", 99, 100, 2000, "BUY"⟩]
    calls.length < 2 ^ 31 ∧
      (run Tracker.record (Tracker.fresh 5000 false {} {}) calls).pnlTracker.getCount = 2 := by
  refine ⟨by decide, ?_⟩
  exact (ledger_consistent 5000 false {} {}
    [⟨"ETHUSDT", 101, 100, 1000, "SELL"⟩, ⟨"ETHUSDT", 99, 100, 2000, "BUY"⟩] (by decide)).2.1

end SyntheticArbitrage
