import SyntheticArbitrage.Lib.Drawdown
import SyntheticArbitrage.TradeLog.Text
import Mathlib.Algebra.BigOperators.Group.List.Lemmas
import Mathlib.Data.List.Dedup

/-!
# The performance report

`reports/summarize_pnl.py`, from the file to the figures it prints.  pandas is a parameter: `Pandas`
has the operations that the script uses, with what the script relies on as its laws.  Comparisons
with NaN are false.

* `Pandas.load`: the table of `trades`, by datetime.
* `Pandas.gaps`: its column `gap`.
* `Pandas.summary`: the totals, the win rate and the counts by direction.
* `Pandas.main`: the script.
-/

namespace SyntheticArbitrage

/-! ## What the script uses of pandas -/

inductive PyError where
  | keyError
  | parserError
  | emptyDataError
  | zeroDivisionError
  deriving DecidableEq

/-- A `DataFrame` as `read_csv` makes it: a cell is a text or NaN. -/
structure Frame where
  columns : List (List Char)
  rows : List (List (Option (List Char)))

/-- A number column: a `double` that is not NaN, or NaN. -/
abbrev Number := Option XDouble

/-- The number that the text of a `double` writes. -/
def Extended.reading : XDouble → Number
  | fin q => some (fin (fixed8 q).value)
  | inf negative => some (inf negative)
  | nan => none

/-- The seconds between times in milliseconds: none before the first. -/
def elapsedSeconds : List ℚ → List (Option ℚ)
  | [] => []
  | t :: ts =>
    none :: List.zipWith (fun later earlier => some ((later - earlier) / 1000)) ts (t :: ts)

structure Pandas where
  /-- `read_csv` reads the text as NaN. -/
  isNa : List Char → Bool
  readCsv : List Char → Except PyError Frame
  /-- `to_numeric(errors='coerce')` of one text. -/
  toNumeric : List Char → Number
  /-- `to_datetime(unit='ms', errors='coerce')` of one number, in milliseconds since the epoch; NaT
  where `datetime64` cannot hold the time. -/
  toDatetime : XDouble → Option ℚ
  /-- `diff().dt.total_seconds()` of times in milliseconds. -/
  diffSeconds : List ℚ → List (Option ℚ)
  cumsum : List XDouble → List XDouble
  cummax : List XDouble → List XDouble
  /-- `max()` of a column. -/
  columnMax : List XDouble → XDouble
  /-- The groups of `groupby` on a column: the keys, and how many rows they have. -/
  groupSizes : List (Option (List Char)) → List (List Char × ℕ)
  isNa_nil : isNa [] = true
  isNa_nan : isNa (Extended.nan : XDouble).text = true
  isNa_decimal : ∀ d : Decimal, isNa d.text = false
  isNa_inf : ∀ negative, isNa (Extended.inf negative : XDouble).text = false
  toNumeric_decimal : ∀ d : Decimal, toNumeric d.text = some (.fin d.value)
  toNumeric_inf : ∀ negative,
    toNumeric (Extended.inf negative : XDouble).text = some (.inf negative)
  toDatetime_int : ∀ n : ℤ, toDatetime (.fin n) = none ∨ toDatetime (.fin n) = some n
  diffSeconds_eq : ∀ ts, diffSeconds ts = elapsedSeconds ts
  cumsum_fin : ∀ xs : List ℚ, cumsum (xs.map .fin) = (Drawdown.partialSums 0 xs).map .fin
  cummax_fin : ∀ (x : ℚ) (xs : List ℚ),
    cummax ((x :: xs).map .fin) = (x :: Drawdown.peaks x xs).map .fin
  columnMax_fin : ∀ (x : ℚ) (xs : List ℚ), columnMax ((x :: xs).map .fin) = .fin (xs.foldl max x)
  /-- NaN is no key.  The order of the groups is left open. -/
  groupSizes_perm : ∀ column, (groupSizes column).Perm
    ((column.filterMap id).dedup.map fun key =>
      (key, (column.filter fun cell => cell = some key).length))
  /-- A file of lines with equally many fields, none of which has to be quoted. -/
  readCsv_lines : ∀ (columns : List (List Char)) (rows : List (List (List Char))),
    columns.Nodup → 2 ≤ columns.length →
    (∀ row ∈ columns :: rows, row.length = columns.length ∧ ∀ text ∈ row, Csv.Plain text) →
    readCsv ((columns :: rows).flatMap Csv.line) =
      .ok ⟨columns, rows.map (·.map fun text => if isNa text then none else some text)⟩

/-! ## The script -/

namespace Frame

/-- `name in df.columns` -/
def has (df : Frame) (name : String) : Bool := df.columns.contains name.toList

def cell (df : Frame) (name : String) (row : List (Option (List Char))) : Option (List Char) :=
  ((df.columns.zip row).lookup name.toList).join

end Frame

/-- A row of `trades`, with its index. -/
structure ReportRow where
  datetime : ℚ
  syntheticPrice : Number
  realPrice : Number
  netPnl : Number
  size : Number
  direction : Option (List Char)

def numericFields : List String := ["timestamp", "synthetic_price", "real_price", "net_pnl"]

namespace Pandas

variable (pd : Pandas)

/-- A cell after `to_numeric`. -/
def number (df : Frame) (name : String) (row : List (Option (List Char))) : Number :=
  (df.cell name row).bind pd.toNumeric

/-- A row of `trades`; `none` when `dropna` drops it. -/
def reportRow (df : Frame) (row : List (Option (List Char))) : Option ReportRow :=
  ((pd.number df "timestamp" row).bind pd.toDatetime).map fun datetime =>
    { datetime
      syntheticPrice := pd.number df "synthetic_price" row
      realPrice := pd.number df "real_price" row
      netPnl := pd.number df "net_pnl" row
      size := pd.number df "size" row
      direction := df.cell "direction" row }

/-- `main` up to the table of `trades`; `none` when a required column is missing. -/
def load (file : List Char) : Except PyError (Option (List ReportRow)) := do
  let df ← pd.readCsv file
  if !df.has "timestamp" then throw .keyError
  -- `# Remove accidental header duplicates`
  let rows := df.rows.filter fun row => df.cell "timestamp" row ≠ some "timestamp".toList
  if numericFields.all df.has then return some (rows.filterMap (pd.reportRow df))
  else return none

end Pandas

/-- `trades.index.to_series().diff().dt.total_seconds()` -/
def Pandas.gaps (pd : Pandas) (trades : List ReportRow) : List (Option ℚ) :=
  pd.diffSeconds (trades.map ReportRow.datetime)

/-- `net_pnl > 0` -/
def ReportRow.wins (row : ReportRow) : Bool := row.netPnl.any fun x => decide (0 < x)

/-- `net_pnl <= 0` -/
def ReportRow.loses (row : ReportRow) : Bool := row.netPnl.any fun x => decide (x ≤ 0)

structure Summary where
  totalTrades : ℕ
  winningTrades : ℕ
  losingTrades : ℕ
  winRate : ℚ
  /-- The sizes of the groups of `groupby('direction')`. -/
  directions : List (List Char × ℕ)

def winRate (trades : List ReportRow) : Except PyError ℚ :=
  if trades.length = 0 then throw .zeroDivisionError
  else return (trades.filter ReportRow.wins).length / trades.length * 100

def Pandas.summary (pd : Pandas) (trades : List ReportRow) : Except PyError Summary := do
  let rate ← winRate trades
  return {
    totalTrades := trades.length
    winningTrades := (trades.filter ReportRow.wins).length
    losingTrades := (trades.filter ReportRow.loses).length
    winRate := rate
    directions := pd.groupSizes (trades.map ReportRow.direction) }

def Pandas.main (pd : Pandas) (file : List Char) : Except PyError (Option Summary) := do
  match ← pd.load file with
  | none => return none
  | some trades => return some (← pd.summary trades)

/-! ## Readings -/

theorem Pandas.summary_eq_ok_iff (pd : Pandas) {trades : List ReportRow} {s : Summary} :
    pd.summary trades = .ok s ↔ trades.length ≠ 0 ∧
      s = ⟨trades.length, (trades.filter ReportRow.wins).length,
        (trades.filter ReportRow.loses).length,
        (trades.filter ReportRow.wins).length / trades.length * 100,
          pd.groupSizes (trades.map ReportRow.direction)⟩ := by
  by_cases h : trades.length = 0
  · have herror : pd.summary trades = .error .zeroDivisionError := by
      rw [summary, winRate, if_pos h]
      rfl
    rw [herror]
    exact iff_of_false (fun heq => by cases heq) fun hne => hne.1 h
  · have hok : pd.summary trades = .ok ⟨trades.length, (trades.filter ReportRow.wins).length,
        (trades.filter ReportRow.loses).length,
        (trades.filter ReportRow.wins).length / trades.length * 100,
          pd.groupSizes (trades.map ReportRow.direction)⟩ := by
      rw [summary, winRate, if_neg h]
      rfl
    rw [hok, Except.ok.injEq]
    exact ⟨fun heq => ⟨h, heq.symm⟩, fun heq => heq.2.symm⟩

namespace Pandas

variable (pd : Pandas)

/-- What `read_csv` and `to_numeric` make of a text. -/
def numberOf (text : List Char) : Number := if pd.isNa text then none else pd.toNumeric text

theorem numberOf_decimal (d : Decimal) : pd.numberOf d.text = some (.fin d.value) := by
  rw [numberOf, pd.isNa_decimal, if_neg Bool.false_ne_true, pd.toNumeric_decimal]

theorem numberOf_real (x : XDouble) : pd.numberOf x.text = x.reading := by
  cases x with
  | fin q => exact pd.numberOf_decimal (fixed8 q)
  | inf negative =>
    rw [numberOf, pd.isNa_inf, if_neg Bool.false_ne_true, pd.toNumeric_inf]
    rfl
  | nan =>
    rw [numberOf, pd.isNa_nan, if_pos rfl]
    rfl

end Pandas

/-- A number that is not NaN is above zero or not, and NaN is neither. -/
theorem Extended.reading_sign (x : XDouble) :
    ((x.reading.any fun y => decide (0 < y)) || (x.reading.any fun y => decide (y ≤ 0))) =
        decide (x ≠ nan) ∧
      ((x.reading.any fun y => decide (0 < y)) && (x.reading.any fun y => decide (y ≤ 0))) =
        false := by
  cases x with
  | fin q =>
    rcases lt_or_ge 0 (fixed8 q).value with h | h
    · simp [reading, h, not_le.mpr h]
    · simp [reading, h, not_lt.mpr h]
  | inf negative => cases negative <;> exact ⟨rfl, rfl⟩
  | nan => exact ⟨rfl, rfl⟩

theorem sum_length_groups {κ : Type} [DecidableEq κ] (column : List (Option κ)) :
    ((column.filterMap id).dedup.map fun key =>
      (column.filter fun cell => cell = some key).length).sum = column.countP Option.isSome := by
  have hgroup : ∀ key : κ, (column.filter fun cell => cell = some key).length =
      (column.filterMap id).count key := by
    intro key
    rw [List.count_filterMap, ← List.countP_eq_length_filter]
    exact List.countP_congr fun cell _ => by simp
  simp only [hgroup]
  rw [List.sum_map_count_dedup_eq_length, List.length_filterMap_eq_countP]
  rfl

theorem Pandas.sum_groupSizes (pd : Pandas) (column : List (Option (List Char))) :
    ((pd.groupSizes column).map Prod.snd).sum = column.countP Option.isSome := by
  rw [((pd.groupSizes_perm column).map Prod.snd).sum_eq, List.map_map]
  exact sum_length_groups column

theorem Pandas.sum_directions (pd : Pandas) (trades : List ReportRow) :
    ((pd.groupSizes (trades.map ReportRow.direction)).map Prod.snd).sum =
      trades.countP fun row => row.direction.isSome := by
  rw [pd.sum_groupSizes, List.countP_map]
  rfl

end SyntheticArbitrage
