import SyntheticArbitrage.Lib.Run
import SyntheticArbitrage.Report.Summary

/-!
# The table of a file that `ArbLogger` has written

* `ArbCall`, `ArbLogger.call`: the calls of a logger, and the rows they write.
* `logText`: the file of one session after the other, each under its own header.
* `reported`: the row of `trades` that a call ends up as.
* `WrittenLog`: the files that are made so.
* `load_text`: **the table of a written file** has these rows, in order.
-/

namespace SyntheticArbitrage

/-- A call of one of the row writers. -/
inductive ArbCall where
  | log (now : UInt64) (symbol : String) (real synth delta : XDouble)
  | logSimulatedTrade (synthetic real netPnl : XDouble) (ts : UInt64) (signalCount : Int32)
      (totalPnl : XDouble) (direction : String) (size : XDouble)

def ArbLogger.call (l : ArbLogger XDouble) : ArbCall → ArbLogger XDouble
  | .log now symbol real synth delta => l.log now symbol real synth delta
  | .logSimulatedTrade synthetic real netPnl ts signalCount totalPnl direction size =>
    l.logSimulatedTrade synthetic real netPnl ts signalCount totalPnl direction size

namespace ArbCall

def row : ArbCall → Row XDouble
  | log now symbol real synth delta => alertRow now symbol real synth delta
  | logSimulatedTrade synthetic real netPnl ts signalCount totalPnl direction size =>
    tradeRow synthetic real netPnl ts signalCount totalPnl direction size

/-- The text passed to the call can stand in a field. -/
def Plain : ArbCall → Prop
  | log _ symbol _ _ _ => Csv.Plain symbol.toList
  | logSimulatedTrade _ _ _ _ _ _ direction _ => Csv.Plain direction.toList

def texts (c : ArbCall) : List (List Char) := c.row.map Cell.printed

theorem length_texts (c : ArbCall) : c.texts.length = ArbLogger.header.length := by
  cases c <;> rfl

theorem Plain.texts {c : ArbCall} (h : c.Plain) : ∀ text ∈ c.texts, Csv.Plain text := by
  intro text ht
  obtain ⟨cell, hcell, rfl⟩ := List.mem_map.mp ht
  refine Cell.Plain.printed ?_
  cases c with
  | log now symbol real synth delta => exact plain_alertRow now real synth delta h cell hcell
  | logSimulatedTrade synthetic real netPnl ts signalCount totalPnl direction size =>
    exact plain_tradeRow synthetic real netPnl ts signalCount totalPnl size h cell hcell

end ArbCall

theorem ArbLogger.run_call_file (l : ArbLogger XDouble) (calls : List ArbCall) :
    (run ArbLogger.call l calls).file = l.file ++ calls.map ArbCall.row := by
  apply run_entries ArbLogger.file
  intro l c
  cases c <;> rfl

/-- The file after some sessions: each opens it with a header and appends its rows. -/
def logText (sessions : List (List ArbCall)) : List Char :=
  sessions.flatMap fun calls =>
    headerLine ArbLogger.header ++ (run ArbLogger.call {} calls).file.flatMap rowLine

/-- A file of `ArbLogger`: its header, perhaps repeated, and its rows, whose texts can stand in a
field. -/
structure WrittenLog where
  sessions : List (List ArbCall)
  sessions_ne : sessions ≠ []
  plain : ∀ c ∈ sessions.flatten, c.Plain

namespace WrittenLog

def calls (f : WrittenLog) : List ArbCall := f.sessions.flatten

def text (f : WrittenLog) : List Char := logText f.sessions

end WrittenLog

def headerTexts : List (List Char) := ArbLogger.header.map String.toList

def logLines (sessions : List (List ArbCall)) : List (List (List Char)) :=
  sessions.flatMap fun calls => headerTexts :: calls.map ArbCall.texts

theorem logText_eq (sessions : List (List ArbCall)) :
    logText sessions = (logLines sessions).flatMap Csv.line := by
  rw [logText, logLines, List.flatMap_assoc]
  refine List.flatMap_congr fun calls _ => ?_
  rw [ArbLogger.run_call_file, List.flatMap_cons, List.flatMap_map]
  show headerLine ArbLogger.header ++ (calls.map ArbCall.row).flatMap rowLine = _
  rw [List.flatMap_map]
  rfl

theorem plain_logLines {sessions : List (List ArbCall)}
    (h : ∀ c ∈ sessions.flatten, c.Plain) :
    ∀ row ∈ logLines sessions,
      row.length = headerTexts.length ∧ ∀ text ∈ row, Csv.Plain text := by
  intro row hrow
  obtain ⟨calls, hcalls, hrow⟩ := List.mem_flatMap.mp hrow
  rcases List.mem_cons.mp hrow with rfl | hrow
  · exact ⟨rfl, by decide⟩
  · obtain ⟨c, hc, rfl⟩ := List.mem_map.mp hrow
    exact ⟨c.length_texts, (h c (List.mem_flatten.mpr ⟨calls, hcalls, hc⟩)).texts⟩

/-! ## What becomes of a call -/

section Reported

variable (pd : Pandas)

/-- The row of `trades` of a call, if `dropna` leaves it. -/
def reported : ArbCall → Option ReportRow
  | .log now _ real synth _ =>
    (pd.toDatetime (.fin now.toNat)).map fun datetime =>
      { datetime
        syntheticPrice := synth.reading
        realPrice := real.reading
        netPnl := none
        size := none
        direction := none }
  | .logSimulatedTrade synthetic real netPnl ts _ _ direction size =>
    (pd.toDatetime (.fin ts.toNat)).map fun datetime =>
      { datetime
        syntheticPrice := synthetic.reading
        realPrice := real.reading
        netPnl := netPnl.reading
        size := size.reading
        direction := if pd.isNa direction.toList then none else some direction.toList }

/-- A text as `read_csv` keeps it. -/
def readText (text : List Char) : Option (List Char) := if pd.isNa text then none else some text

def frameOf (rows : List (List (List Char))) : Frame :=
  ⟨headerTexts, rows.map (·.map (readText pd))⟩

/-- The row of `trades` of a line, if neither the filter nor `dropna` drops it. -/
def readLine (df : Frame) (texts : List (List Char)) : Option ReportRow :=
  if df.cell "timestamp" (texts.map (readText pd)) ≠ some "timestamp".toList then
    pd.reportRow df (texts.map (readText pd))
  else none

theorem number_of_cell {df : Frame} {name : String} {row : List (Option (List Char))}
    {text : List Char} (h : df.cell name row = readText pd text) :
    pd.number df name row = pd.numberOf text := by
  rw [Pandas.number, h, readText, Pandas.numberOf]
  split <;> rfl

theorem number_of_real {df : Frame} {name : String} {row : List (Option (List Char))} {x : XDouble}
    (h : df.cell name row = readText pd x.text) : pd.number df name row = x.reading := by
  rw [number_of_cell pd h, pd.numberOf_real]

theorem number_of_nat {df : Frame} {name : String} {row : List (Option (List Char))} {n : ℕ}
    (h : df.cell name row = readText pd (Decimal.ofInt n).text) :
    pd.number df name row = some (.fin n) := by
  rw [number_of_cell pd h, pd.numberOf_decimal, Decimal.value_ofInt, Int.cast_natCast]

theorem readText_nil : readText pd [] = none := by
  rw [readText, pd.isNa_nil, if_pos rfl]

theorem number_of_empty {df : Frame} {name : String} {row : List (Option (List Char))}
    (h : df.cell name row = readText pd []) : pd.number df name row = none := by
  rw [Pandas.number, h, readText_nil]
  rfl

/-- A header line is dropped by the filter, or by `dropna`. -/
theorem readLine_header (rows : List (List (List Char))) :
    readLine pd (frameOf pd rows) headerTexts = none := by
  have hcell : (frameOf pd rows).cell "timestamp" (headerTexts.map (readText pd)) =
      readText pd "timestamp".toList := rfl
  rw [readLine, hcell, readText]
  by_cases hna : pd.isNa "timestamp".toList
  · rw [if_pos hna, if_pos (by simp), Pandas.reportRow, number_of_cell pd hcell, Pandas.numberOf,
      if_pos hna]
    rfl
  · rw [if_neg hna, if_neg (by simp)]

theorem readLine_of_decimal {df : Frame} {texts : List (List Char)} {d : Decimal}
    (h : df.cell "timestamp" (texts.map (readText pd)) = readText pd d.text) :
    readLine pd df texts = pd.reportRow df (texts.map (readText pd)) := by
  have hne : readText pd d.text ≠ some "timestamp".toList := by
    rw [readText, pd.isNa_decimal, if_neg Bool.false_ne_true]
    intro heq
    have ht : 't' ∉ d.text := d.not_mem_text rfl (by decide) (by decide)
    rw [Option.some.inj heq] at ht
    exact ht (by decide)
  rw [readLine, h, if_pos hne]

theorem readLine_call (rows : List (List (List Char))) (c : ArbCall) :
    readLine pd (frameOf pd rows) c.texts = reported pd c := by
  cases c with
  | log now symbol real synth delta =>
    have hts : (frameOf pd rows).cell "timestamp"
        ((ArbCall.log now symbol real synth delta).texts.map (readText pd)) =
        readText pd (Decimal.ofInt now.toNat).text := rfl
    have hdirection : (frameOf pd rows).cell "direction"
        ((ArbCall.log now symbol real synth delta).texts.map (readText pd)) = none :=
      readText_nil pd
    rw [readLine_of_decimal pd hts, Pandas.reportRow, number_of_nat pd hts,
      number_of_real pd (x := synth) rfl, number_of_real pd (x := real) rfl,
      number_of_empty pd rfl, number_of_empty pd rfl, hdirection]
    rfl
  | logSimulatedTrade synthetic real netPnl ts signalCount totalPnl direction size =>
    have hts : (frameOf pd rows).cell "timestamp"
        ((ArbCall.logSimulatedTrade synthetic real netPnl ts signalCount totalPnl direction
          size).texts.map (readText pd)) =
        readText pd (Decimal.ofInt ts.toNat).text := rfl
    rw [readLine_of_decimal pd hts, Pandas.reportRow, number_of_nat pd hts,
      number_of_real pd (x := synthetic) rfl, number_of_real pd (x := real) rfl,
      number_of_real pd (x := netPnl) rfl, number_of_real pd (x := size) rfl]
    rfl

theorem filterMap_readLine (rows : List (List (List Char))) (sessions : List (List ArbCall)) :
    (logLines sessions).filterMap (readLine pd (frameOf pd rows)) =
      sessions.flatten.filterMap (reported pd) := by
  induction sessions with
  | nil => rfl
  | cons calls sessions ih =>
    have hcalls : (calls.map ArbCall.texts).filterMap (readLine pd (frameOf pd rows)) =
        calls.filterMap (reported pd) := by
      rw [List.filterMap_map]
      exact List.filterMap_congr fun c _ => readLine_call pd rows c
    rw [logLines, List.flatMap_cons, List.filterMap_append, List.flatten_cons,
      List.filterMap_append, List.filterMap_cons_none (readLine_header pd rows), hcalls]
    exact congrArg _ ih

/-- **The table of a written file** has the rows of its calls, in order. -/
theorem load_text (f : WrittenLog) :
    pd.load f.text = .ok (some (f.calls.filterMap (reported pd))) := by
  obtain ⟨first, rest, hsessions⟩ := List.exists_cons_of_ne_nil f.sessions_ne
  let rows := first.map ArbCall.texts ++ logLines rest
  have hlines : logLines f.sessions = headerTexts :: rows := by
    rw [hsessions]
    rfl
  have hread : pd.readCsv f.text = .ok (frameOf pd rows) := by
    rw [WrittenLog.text, logText_eq, hlines]
    refine pd.readCsv_lines headerTexts rows (by decide) (by decide) fun row hrow => ?_
    exact plain_logLines f.plain row (hlines ▸ hrow)
  have hrows : ((frameOf pd rows).rows.filter fun row =>
      (frameOf pd rows).cell "timestamp" row ≠ some "timestamp".toList).filterMap
        (pd.reportRow (frameOf pd rows)) = f.calls.filterMap (reported pd) := by
    rw [WrittenLog.calls, ← filterMap_readLine pd rows, hlines,
      List.filterMap_cons_none (readLine_header pd rows), List.filterMap_filter, frameOf,
      List.filterMap_map]
    refine List.filterMap_congr fun texts _ => ?_
    simp only [Function.comp_apply, readLine, decide_eq_true_eq]
  rw [Pandas.load, hread, ← hrows]
  rfl

end Reported

def tradeThenAlert : WrittenLog where
  sessions := [[
    .logSimulatedTrade (.fin 1990) (.fin 2000) (.fin 12) 1751792752000 1 (.fin 12) "BUY" (.fin 50),
    .log 1751792753 "ETHUSDT" (.fin 2000) (.fin 1990) (.fin (-10))]]
  sessions_ne := List.cons_ne_nil _ _
  plain := by
    intro c hc
    simp only [List.flatten_cons, List.flatten_nil, List.append_nil, List.mem_cons,
      List.not_mem_nil, or_false] at hc
    rcases hc with rfl | rfl
    · show Csv.Plain "BUY".toList
      decide
    · show Csv.Plain "ETHUSDT".toList
      decide

end SyntheticArbitrage
