import SyntheticArbitrage.Report.Documented
import SyntheticArbitrage.Report.Table
import Mathlib.Tactic.Linarith

/-!
# The clock of a row

`ArbLogger::log` stamps its rows with `std::time`, in seconds; `logSimulatedTrade` with the event
time of the tick, in milliseconds.  The script reads the column in milliseconds.

* `ArbCall.stamp`, `ArbCall.instant`: the number in the column, and the instant it stands for.
* `TimesKept`: the table has the instants of its rows, to the second, and the gaps between them.
* `datetime_of_reported`: the datetime of a row is its number of milliseconds.
* `timesKept_iff`: for which files the times are kept.
-/

namespace SyntheticArbitrage

namespace ArbCall

def stamp : ArbCall → UInt64
  | log now _ _ _ _ => now
  | logSimulatedTrade _ _ _ ts _ _ _ _ => ts

/-- The instant the row was stamped with, in milliseconds since the epoch. -/
def instant : ArbCall → ℚ
  | log now _ _ _ _ => now.toNat * 1000
  | logSimulatedTrade _ _ _ ts _ _ _ _ => ts.toNat

end ArbCall

def second (t : ℚ) : ℤ := ⌊t / 1000⌋

section

variable (pd : Pandas)

/-- Each row of the table has the second of its instant; and for rows written in time order no gap
is negative, and the gaps are the times elapsed. -/
def TimesKept (f : WrittenLog) : Prop :=
  ∃ trades, pd.load f.text = .ok (some trades) ∧
    trades.map (fun row => second row.datetime) = f.calls.map (fun c => second c.instant) ∧
    ((f.calls.map ArbCall.instant).Pairwise (· ≤ ·) →
      (∀ x, some x ∈ pd.gaps trades → 0 ≤ x) ∧
        pd.gaps trades = elapsedSeconds (f.calls.map ArbCall.instant))

/-- A row whose time pandas can hold, and that is not stamped in seconds, unless at the epoch. -/
def ArbCall.InMilliseconds : ArbCall → Prop
  | .log now _ _ _ _ => now = 0 ∧ pd.toDatetime (.fin 0) ≠ none
  | .logSimulatedTrade _ _ _ ts _ _ _ _ => pd.toDatetime (.fin ts.toNat) ≠ none

/-! ## One row -/

theorem datetime_of_reported {c : ArbCall} {row : ReportRow} (h : reported pd c = some row) :
    row.datetime = c.stamp.toNat := by
  have hexact : ∀ (n : ℕ) (datetime : ℚ), pd.toDatetime (.fin n) = some datetime →
      datetime = n := by
    intro n datetime hn
    rcases pd.toDatetime_int n with hnone | hsome
    · rw [Int.cast_natCast, hn] at hnone
      cases hnone
    · rw [Int.cast_natCast, hn] at hsome
      exact Option.some.inj hsome
  cases c with
  | log now symbol real synth delta =>
    obtain ⟨datetime, hdatetime, rfl⟩ := Option.map_eq_some_iff.mp h
    exact hexact now.toNat datetime hdatetime
  | logSimulatedTrade synthetic real netPnl ts signalCount totalPnl direction size =>
    obtain ⟨datetime, hdatetime, rfl⟩ := Option.map_eq_some_iff.mp h
    exact hexact ts.toNat datetime hdatetime

/-- A number of seconds read as milliseconds is right at the epoch only. -/
theorem second_natCast_iff (n : ℕ) : second n = second (n * 1000) ↔ n = 0 := by
  have hright : second (n * 1000) = n := by
    rw [second, mul_div_cancel_right₀ _ (by norm_num)]
    exact Int.floor_natCast n
  rw [hright, second, Int.floor_eq_iff]
  push_cast
  constructor
  · intro h
    obtain ⟨hle, -⟩ := h
    have hn : (n : ℚ) ≤ 0 := by linarith
    exact_mod_cast le_antisymm hn (Nat.cast_nonneg n)
  · rintro rfl
    norm_num

theorem exists_reported_iff (c : ArbCall) :
    (∃ row, reported pd c = some row) ↔ pd.toDatetime (.fin c.stamp.toNat) ≠ none := by
  rw [← Option.isSome_iff_exists, ← Option.isSome_iff_ne_none]
  cases c with
  | log now symbol real synth delta => simp [reported, ArbCall.stamp]
  | logSimulatedTrade synthetic real netPnl ts signalCount totalPnl direction size =>
    simp [reported, ArbCall.stamp]

theorem ArbCall.InMilliseconds.datetime {c : ArbCall} (h : c.InMilliseconds pd) {row : ReportRow}
    (hrow : reported pd c = some row) : row.datetime = c.instant := by
  rw [datetime_of_reported pd hrow]
  cases c with
  | log now symbol real synth delta =>
    rw [stamp, instant, h.1]
    norm_num
  | logSimulatedTrade synthetic real netPnl ts signalCount totalPnl direction size => rfl

/-- **One row** keeps its second exactly when it is in milliseconds. -/
theorem inMilliseconds_iff (c : ArbCall) :
    c.InMilliseconds pd ↔
      ∃ row, reported pd c = some row ∧ second row.datetime = second c.instant := by
  constructor
  · intro h
    have hsome : pd.toDatetime (.fin c.stamp.toNat) ≠ none := by
      cases c with
      | log now symbol real synth delta =>
        rw [ArbCall.stamp, h.1]
        simpa using h.2
      | logSimulatedTrade synthetic real netPnl ts signalCount totalPnl direction size => exact h
    obtain ⟨row, hrow⟩ := (exists_reported_iff pd c).mpr hsome
    exact ⟨row, hrow, by rw [h.datetime pd hrow]⟩
  · rintro ⟨row, hrow, hsecond⟩
    have hsome := (exists_reported_iff pd c).mp ⟨row, hrow⟩
    rw [datetime_of_reported pd hrow] at hsecond
    cases c with
    | log now symbol real synth delta =>
      have hzero := (second_natCast_iff now.toNat).mp hsecond
      refine ⟨UInt64.toNat_inj.mp hzero, ?_⟩
      rw [ArbCall.stamp, hzero] at hsome
      simpa using hsome
    | logSimulatedTrade synthetic real netPnl ts signalCount totalPnl direction size =>
      exact hsome

/-! ## The table -/

theorem map_filterMap_eq_map_iff {α β γ : Type} {f : α → Option β} {g : β → γ} {h : α → γ}
    {l : List α} :
    (l.filterMap f).map g = l.map h ↔ ∀ a ∈ l, ∃ b, f a = some b ∧ g b = h a := by
  induction l with
  | nil => simp
  | cons a l ih =>
    rw [List.forall_mem_cons, ← ih]
    cases ha : f a with
    | none =>
      rw [List.filterMap_cons_none ha]
      constructor
      · intro heq
        have hlen := congrArg List.length heq
        have hle := List.length_filterMap_le f l
        rw [List.length_map, List.length_map, List.length_cons] at hlen
        omega
      · rintro ⟨⟨b, hb, -⟩, -⟩
        cases hb
    | some b =>
      rw [List.filterMap_cons_some ha, List.map_cons, List.map_cons, List.cons.injEq]
      simp

theorem nonneg_of_mem_elapsedSeconds {ts : List ℚ} (h : ts.Pairwise (· ≤ ·)) {x : ℚ}
    (hx : some x ∈ elapsedSeconds ts) : 0 ≤ x := by
  cases ts with
  | nil => exact absurd hx List.not_mem_nil
  | cons t ts =>
    rw [elapsedSeconds, List.mem_cons] at hx
    rcases hx with hx | hx
    · cases hx
    · induction ts generalizing t with
      | nil => exact absurd hx List.not_mem_nil
      | cons u ts ih =>
        obtain ⟨ht, hts⟩ := List.pairwise_cons.mp h
        rw [List.zipWith_cons_cons, List.mem_cons] at hx
        rcases hx with hx | hx
        · rw [Option.some.inj hx]
          exact div_nonneg (sub_nonneg.mpr (ht u List.mem_cons_self)) (by norm_num)
        · exact ih u hts hx

/-- **Which files keep their times**: those without an `ArbLogger::log` row, but for one stamped at
the epoch, and without a time that pandas cannot hold. -/
theorem timesKept_iff (f : WrittenLog) :
    TimesKept pd f ↔ ∀ c ∈ f.calls, c.InMilliseconds pd := by
  rw [TimesKept, load_text]
  simp only [Except.ok.injEq, Option.some.injEq, exists_eq_left']
  constructor
  · rintro ⟨hseconds, -⟩ c hc
    exact (inMilliseconds_iff pd c).mpr (map_filterMap_eq_map_iff.mp hseconds c hc)
  · intro h
    have hdatetimes : (f.calls.filterMap (reported pd)).map ReportRow.datetime =
        f.calls.map ArbCall.instant := by
      refine map_filterMap_eq_map_iff.mpr fun c hc => ?_
      obtain ⟨row, hrow, -⟩ := (inMilliseconds_iff pd c).mp (h c hc)
      exact ⟨row, hrow, (h c hc).datetime pd hrow⟩
    refine ⟨?_, fun horder => ?_⟩
    · exact map_filterMap_eq_map_iff.mpr fun c hc => (inMilliseconds_iff pd c).mp (h c hc)
    · rw [Pandas.gaps, pd.diffSeconds_eq, hdatetimes]
      exact ⟨fun x hx => nonneg_of_mem_elapsedSeconds horder hx, rfl⟩

end

/-- The alert gets a datetime in January 1970. -/
theorem not_timesKept_alert : ¬ TimesKept Documented.pandas tradeThenAlert := by
  intro h
  obtain ⟨trades, hload, hseconds, -⟩ := h
  rw [load_text, Except.ok.injEq, Option.some.injEq] at hload
  rw [← hload] at hseconds
  revert hseconds
  decide +kernel

end SyntheticArbitrage
