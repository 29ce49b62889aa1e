import SyntheticArbitrage.Lib.Csv
import SyntheticArbitrage.Lib.Rounding
import SyntheticArbitrage.Loggers
import SyntheticArbitrage.NumberText

/-!
# The text of the trade log

What the streams of `include/ArbLogger.hpp`, `include/MockPnLEngine.hpp` and `src/main.cpp` print
for the fields of a row.

* `fixed8`: a finite `double` under `std::fixed << std::setprecision(8)`.
* `Cell.printed`, `rowLine`: the text of a field and of a row.
* `rowPieces`: the row as the source prints it, one `<<` after the other.
* `Cell.Plain`: the field has no comma and no line break in it.  Numbers never have one.
-/

namespace SyntheticArbitrage

/-! ## Numbers -/

/-- Digits padded with zeros on the left. -/
def padded (width : ℕ) (digits : List Char) : List Char :=
  List.replicate (width - digits.length) '0' ++ digits

theorem isDigit_padded {width : ℕ} {digits : List Char} (h : ∀ c ∈ digits, c.isDigit) :
    ∀ c ∈ padded width digits, c.isDigit := by
  intro c hc
  rcases List.mem_append.mp hc with hzero | hdigit
  · rw [List.eq_of_mem_replicate hzero]
    rfl
  · exact h c hdigit

/-- A number in units of the eighth decimal. -/
def units8 (q : ℚ) : ℕ := (roundHalfEven (|q| * 10 ^ 8)).toNat

/-- `std::fixed << std::setprecision(8)` -/
def fixed8 (q : ℚ) : Decimal where
  negative := decide (q < 0)
  whole := Nat.toDigits 10 (units8 q / 10 ^ 8)
  frac := some (padded 8 (Nat.toDigits 10 (units8 q % 10 ^ 8)))
  whole_ne := Nat.toDigits_ne_nil
  whole_isDigit := NumberText.isDigit_toDigits _
  frac_isDigit := isDigit_padded (NumberText.isDigit_toDigits _)

example : String.ofList (fixed8 (-5 / 2)).text = "-2.50000000" := by decide +kernel

/-- The text of a `double`.  The sign of a NaN is left out. -/
def Extended.text : XDouble → List Char
  | fin q => (fixed8 q).text
  | inf true => ['-', 'i', 'n', 'f']
  | inf false => ['i', 'n', 'f']
  | nan => ['n', 'a', 'n']

theorem Decimal.mem_unsigned {d : Decimal} {c : Char} (hc : c ∈ d.unsigned) :
    c.isDigit ∨ c = '.' := by
  rcases List.mem_append.mp hc with hwhole | hpoint
  · exact Or.inl (d.whole_isDigit c hwhole)
  · have hfrac := d.frac_isDigit
    cases hd : d.frac with
    | none =>
      rw [hd] at hpoint
      exact absurd hpoint List.not_mem_nil
    | some cs =>
      rw [hd] at hpoint hfrac
      rcases List.mem_cons.mp hpoint with hdot | hc
      · exact Or.inr hdot
      · exact Or.inl (hfrac c hc)

theorem Decimal.mem_text {d : Decimal} {c : Char} (hc : c ∈ d.text) :
    c.isDigit ∨ c = '-' ∨ c = '.' := by
  rw [text] at hc
  split at hc
  · rcases List.mem_cons.mp hc with hminus | hc
    · exact Or.inr (Or.inl hminus)
    · exact (mem_unsigned hc).imp_right Or.inr
  · exact (mem_unsigned hc).imp_right Or.inr

theorem Decimal.not_mem_text (d : Decimal) {c : Char} (h : c.isDigit = false) (hminus : c ≠ '-')
    (hpoint : c ≠ '.') : c ∉ d.text := by
  intro hc
  rcases mem_text hc with hdigit | rfl | rfl
  · rw [h] at hdigit
    cases hdigit
  · exact hminus rfl
  · exact hpoint rfl

theorem Decimal.plain_text (d : Decimal) : Csv.Plain d.text := by
  have hspecial : Csv.special.all (fun c => !(c.isDigit || c == '-' || c == '.')) = true := by
    decide
  intro c hc hmem
  have hforeign := List.all_eq_true.mp hspecial c hmem
  simp only [Bool.not_eq_true', Bool.or_eq_false_iff, beq_eq_false_iff_ne] at hforeign
  exact d.not_mem_text hforeign.1.1 hforeign.1.2 hforeign.2 hc

theorem Extended.plain_text (x : XDouble) : Csv.Plain x.text := by
  cases x with
  | fin q => exact (fixed8 q).plain_text
  | inf negative => cases negative <;> decide
  | nan => decide

/-! ## Rows -/

/-- What a stream prints for a field. -/
def Cell.printed : Cell XDouble → List Char
  | .ts t => (Decimal.ofInt t.toNat).text
  | .text s => s.toList
  | .real x => x.text
  | .int n => (Decimal.ofInt n.toInt).text

/-- The field has no separator in it. -/
def Cell.Plain : Cell XDouble → Prop
  | .text s => Csv.Plain s.toList
  | _ => True

theorem Cell.Plain.printed {cell : Cell XDouble} (h : cell.Plain) : Csv.Plain cell.printed := by
  cases cell with
  | ts t => exact (Decimal.ofInt t.toNat).plain_text
  | text s => exact h
  | real x => exact x.plain_text
  | int n => exact (Decimal.ofInt n.toInt).plain_text

theorem plain_tradeRow (synthetic real netPnl : XDouble) (ts : UInt64) (signalCount : Int32)
    (totalPnl : XDouble) {direction : String} (size : XDouble) (h : Csv.Plain direction.toList) :
    ∀ cell ∈ tradeRow synthetic real netPnl ts signalCount totalPnl direction size,
      cell.Plain := by
  have hkind : Csv.Plain "SimulatedTrade".toList := by decide
  simp only [tradeRow, List.forall_mem_cons, Cell.Plain]
  exact ⟨trivial, hkind, trivial, trivial, trivial, trivial, trivial, trivial, h, trivial, by simp⟩

theorem plain_alertRow (now : UInt64) {symbol : String} (real synth delta : XDouble)
    (h : Csv.Plain symbol.toList) : ∀ cell ∈ alertRow now symbol real synth delta, cell.Plain := by
  have hempty : Csv.Plain "".toList := by decide
  simp only [alertRow, List.forall_mem_cons, Cell.Plain]
  exact ⟨trivial, h, trivial, trivial, trivial, hempty, hempty, hempty, hempty, hempty, by simp⟩

def rowLine (row : Row XDouble) : List Char := Csv.line (row.map Cell.printed)

/-- The pieces that the `<<` of a row put into the buffer of its stream. -/
def rowPieces (row : Row XDouble) : List (List Char) :=
  (row.map Cell.printed).intersperse [','] ++ [['\n']]

theorem flatten_rowPieces (row : Row XDouble) : (rowPieces row).flatten = rowLine row := by
  rw [rowPieces, List.flatten_append]
  rfl

def headerLine (header : List String) : List Char := Csv.line (header.map String.toList)

end SyntheticArbitrage
