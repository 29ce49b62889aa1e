import SyntheticArbitrage.Numeral
import SyntheticArbitrage.Report.Summary

/-!
# A pandas

A `Pandas` whose operations follow the documentation where the texts of a trade log are concerned,
so that the script can be run on a concrete file.
-/

namespace SyntheticArbitrage.Documented

open NumberText Drawdown Extended

/-- The texts that `read_csv` reads as NaN by default. -/
def naTexts : List String :=
  ["", "#N/A", "#N/A N/A", "#NA", "-1.#IND", "-1.#QNAN", "-NaN", "-nan", "1.#IND", "1.#QNAN",
    "<NA>", "N/A", "NA", "NULL", "NaN", "None", "n/a", "nan", "null"]

def isNa (text : List Char) : Bool := naTexts.any fun na => na.toList = text

theorem isNa_decimal (d : Decimal) : isNa d.text = false := by
  -- each text is empty or has a character that no numeral has
  have hforeign : naTexts.all (fun na => na.toList.isEmpty ||
      na.toList.any fun c => !(c.isDigit || c == '-' || c == '.')) = true := by
    decide
  rw [isNa, List.any_eq_false]
  intro na hna
  rw [decide_eq_true_eq]
  intro heq
  have hna' := List.all_eq_true.mp hforeign na hna
  rw [heq, Bool.or_eq_true, List.isEmpty_iff, List.any_eq_true] at hna'
  rcases hna' with hnil | ⟨c, hc, hnot⟩
  · have hne : d.text ≠ [] := by
      rw [Decimal.text]
      split
      · exact List.cons_ne_nil _ _
      · exact List.append_ne_nil_of_left_ne_nil d.whole_ne _
    exact hne hnil
  · simp only [Bool.not_eq_true', Bool.or_eq_false_iff, beq_eq_false_iff_ne] at hnot
    exact d.not_mem_text hnot.1.1 hnot.1.2 hnot.2 hc

/-- Lines that are not blank, the first of which names the columns. -/
def readCsv (file : List Char) : Except PyError Frame :=
  match ((Csv.lines file).filter (· ≠ [])).map Csv.fields with
  | [] => .error .emptyDataError
  | columns :: rows =>
    if rows.any fun row => columns.length < row.length then .error .parserError
    else .ok ⟨columns, rows.map (·.map fun text => if isNa text then none else some text)⟩

theorem readCsv_lines (columns : List (List Char)) (rows : List (List (List Char)))
    (hlen : 2 ≤ columns.length)
    (h : ∀ row ∈ columns :: rows, row.length = columns.length ∧ ∀ text ∈ row, Csv.Plain text) :
    readCsv ((columns :: rows).flatMap Csv.line) =
      .ok ⟨columns, rows.map (·.map fun text => if isNa text then none else some text)⟩ := by
  have hne : ∀ row ∈ columns :: rows, row ≠ [] ∧ ∀ text ∈ row, Csv.Plain text := by
    intro row hrow
    obtain ⟨hrowlen, hplain⟩ := h row hrow
    refine ⟨?_, hplain⟩
    rintro rfl
    rw [List.length_nil] at hrowlen
    omega
  have hfields := Csv.map_fields_lines hne
  have hblank : ∀ text ∈ Csv.lines ((columns :: rows).flatMap Csv.line),
      decide (text ≠ []) = true := by
    intro text ht
    have hmem : Csv.fields text ∈ columns :: rows := hfields ▸ List.mem_map_of_mem ht
    have htextlen := (h _ hmem).1
    rw [decide_eq_true_eq]
    rintro rfl
    rw [Csv.length_fields, List.count_nil] at htextlen
    omega
  have hshort : (rows.any fun row => columns.length < row.length) = false := by
    rw [List.any_eq_false]
    intro row hrow
    rw [(h row (List.mem_cons_of_mem _ hrow)).1]
    simp
  rw [readCsv, List.filter_eq_self.mpr hblank, hfields]
  simp only [hshort, Bool.false_eq_true, if_false]

/-- A sign, and then digits with at most one point, or `inf`. -/
def toNumeric (text : List Char) : Number :=
  let (negative, rest) := sign (text.dropWhile isSpace)
  if rest = "inf".toList then some (.inf negative)
  else if (rest.all fun c => c.isDigit || c = '.') && decide (rest.count '.' ≤ 1) then
    (numeral decimal rest).map fun q => .fin (if negative then -q else q)
  else none

theorem count_point_unsigned (d : Decimal) : d.unsigned.count '.' ≤ 1 := by
  have hdigits : ∀ {cs : List Char}, (∀ c ∈ cs, c.isDigit) → cs.count '.' = 0 := by
    intro cs hcs
    exact List.count_eq_zero.mpr fun hpoint => absurd (hcs _ hpoint) (by decide)
  have hfrac := d.frac_isDigit
  rw [Decimal.unsigned, List.count_append, hdigits d.whole_isDigit]
  cases hd : d.frac with
  | none => simp [Decimal.point]
  | some cs =>
    rw [hd, Option.getD_some] at hfrac
    rw [Decimal.point, List.count_cons_self, hdigits hfrac]

theorem toNumeric_decimal (d : Decimal) : toNumeric d.text = some (.fin d.value) := by
  have hinf : d.unsigned ≠ "inf".toList := by
    intro heq
    have hi : 'i' ∈ d.unsigned := heq ▸ (by decide)
    rcases Decimal.mem_unsigned hi with h | h <;> revert h <;> decide
  have hall : (d.unsigned.all fun c => c.isDigit || c = '.') = true := by
    rw [List.all_eq_true]
    intro c hc
    rcases Decimal.mem_unsigned hc with h | h <;> simp [h]
  rw [toNumeric, Decimal.sign_dropWhile_text]
  simp only [hinf, hall, count_point_unsigned, decide_true, Bool.and_self, if_true, if_false,
    Decimal.numeral_unsigned]
  rfl

/-- `datetime64[ns]` counts nanoseconds in 64 bits. -/
def toDatetime : XDouble → Option ℚ
  | .fin q => if |q| * 10 ^ 6 < 2 ^ 63 then some q else none
  | _ => none

theorem toDatetime_int (n : ℤ) : toDatetime (.fin n) = none ∨ toDatetime (.fin n) = some n := by
  rw [toDatetime]
  split
  · exact Or.inr rfl
  · exact Or.inl rfl

/-- `cumsum()` from a total: a NaN stays where it is and is not added. -/
def cumsum (total : XDouble) : List XDouble → List XDouble
  | [] => []
  | x :: xs =>
    if x = nan then nan :: cumsum total xs else (total + x) :: cumsum (total + x) xs

/-- `cummax()` from a maximum. -/
def cummax (peak : XDouble) : List XDouble → List XDouble
  | [] => []
  | x :: xs =>
    if x = nan then nan :: cummax peak xs else stdMax peak x :: cummax (stdMax peak x) xs

/-- `max()`: NaN when the column has nothing else. -/
def columnMax (column : List XDouble) : XDouble :=
  column.foldl (fun m x => if x = nan then m else if m = nan then x else stdMax m x) nan

theorem cumsum_fin (e : ℚ) (xs : List ℚ) :
    cumsum (fin e) (xs.map fin) = (partialSums e xs).map fin := by
  induction xs generalizing e with
  | nil => rfl
  | cons x xs ih =>
    rw [List.map_cons, cumsum, if_neg (by simp), fin_add_fin, ih, partialSums, List.map_cons]

theorem stdMax_fin (a b : ℚ) : stdMax (fin a) (fin b) = fin (max a b) := by
  rw [stdMax]
  split
  · next h => rw [max_eq_right (fin_lt_fin.mp h).le]
  · next h => rw [max_eq_left (not_lt.mp (mt fin_lt_fin.mpr h))]

theorem cummax_fin (m : ℚ) (xs : List ℚ) :
    cummax (fin m) (xs.map fin) = (peaks m xs).map fin := by
  induction xs generalizing m with
  | nil => rfl
  | cons x xs ih =>
    rw [List.map_cons, cummax, if_neg (by simp), stdMax_fin, ih, peaks, List.map_cons]

theorem cummax_cons_fin (x : ℚ) (xs : List ℚ) :
    cummax (inf true) ((x :: xs).map fin) = (x :: peaks x xs).map fin := by
  have hfirst : stdMax (inf true) (fin x) = fin x := rfl
  rw [List.map_cons, cummax, if_neg (by simp), hfirst, cummax_fin, List.map_cons]

theorem columnMax_fin (x : ℚ) (xs : List ℚ) :
    columnMax ((x :: xs).map fin) = fin (xs.foldl max x) := by
  rw [columnMax, List.map_cons, List.foldl_cons, if_neg (by simp), if_pos rfl]
  induction xs generalizing x with
  | nil => rfl
  | cons y xs ih =>
    rw [List.map_cons, List.foldl_cons, if_neg (by simp), if_neg (by simp), stdMax_fin, ih,
      List.foldl_cons]

def pandas : Pandas where
  isNa := isNa
  readCsv := readCsv
  toNumeric := toNumeric
  toDatetime := toDatetime
  diffSeconds := elapsedSeconds
  cumsum := cumsum (fin 0)
  cummax := cummax (inf true)
  columnMax := columnMax
  groupSizes := fun column =>
    (column.filterMap id).dedup.map fun key =>
      (key, (column.filter fun cell => cell = some key).length)
  isNa_nil := by decide
  isNa_nan := by decide
  isNa_decimal := isNa_decimal
  isNa_inf := by decide
  toNumeric_decimal := toNumeric_decimal
  toNumeric_inf := by decide
  toDatetime_int := toDatetime_int
  diffSeconds_eq := fun _ => rfl
  cumsum_fin := cumsum_fin 0
  cummax_fin := cummax_cons_fin
  columnMax_fin := columnMax_fin
  groupSizes_perm := fun _ => List.Perm.refl _
  readCsv_lines := fun columns rows _ => readCsv_lines columns rows

end SyntheticArbitrage.Documented
