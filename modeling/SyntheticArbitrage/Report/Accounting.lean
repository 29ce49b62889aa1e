import SyntheticArbitrage.Report.Documented
import SyntheticArbitrage.Report.Table

/-!
# What the report counts

The script calls every row that has a datetime a trade, and compares its `net_pnl`; the alert rows
of `ArbLogger::log` have a datetime and no `net_pnl`.

* `Accounted`: the figures count the trades of the file.
* `signed`, `directed`: the calls counted as won or lost, and in a group of a direction.
* `figures_eq`: the figures as counts of calls.
* `accounted_iff`: for which files the figures count its trades.
-/

namespace SyntheticArbitrage

/-- The call writes a `SimulatedTrade` row. -/
def ArbCall.isTrade : ArbCall → Bool
  | .log _ _ _ _ _ => false
  | .logSimulatedTrade _ _ _ _ _ _ _ _ => true

/-- The figures of `n` trades. -/
structure FiguresRight (n : ℕ) (s : Summary) : Prop where
  total : s.totalTrades = n
  partition : s.winningTrades + s.losingTrades = n
  winRate : 0 < n → s.winRate = 100 * s.winningTrades / n
  directions : (s.directions.map Prod.snd).sum = n

section

variable (pd : Pandas)

/-- The script ends, and its figures are those of the trades of the file. -/
def Accounted (f : WrittenLog) : Prop :=
  ∃ s, pd.main f.text = .ok (some s) ∧ FiguresRight (f.calls.countP ArbCall.isTrade) s

/-- A trade that the figures count, or an alert that they do not. -/
def ArbCall.Counted : ArbCall → Prop
  | .log now _ _ _ _ => pd.toDatetime (.fin now.toNat) = none
  | .logSimulatedTrade _ _ netPnl ts _ _ direction _ =>
    pd.toDatetime (.fin ts.toNat) ≠ none ∧ netPnl ≠ .nan ∧ pd.isNa direction.toList = false

/-- The call is counted as won or as lost. -/
def signed (c : ArbCall) : Bool := (reported pd c).any fun row => row.wins || row.loses

/-- The call is counted in a group of a direction. -/
def directed (c : ArbCall) : Bool := (reported pd c).any fun row => row.direction.isSome

/-- **One call** is counted rightly exactly when all three counts agree on whether it is a trade. -/
theorem counted_iff (c : ArbCall) :
    c.Counted pd ↔ (reported pd c).isSome = c.isTrade ∧ signed pd c = c.isTrade ∧
      directed pd c = c.isTrade := by
  cases c with
  | log now symbol real synth delta =>
    cases h : pd.toDatetime (.fin now.toNat) with
    | none => simp [ArbCall.Counted, reported, signed, directed, ArbCall.isTrade, h]
    | some datetime => simp [ArbCall.Counted, reported, ArbCall.isTrade, h]
  | logSimulatedTrade synthetic real netPnl ts signalCount totalPnl direction size =>
    cases h : pd.toDatetime (.fin ts.toNat) with
    | none => simp [ArbCall.Counted, reported, ArbCall.isTrade, h]
    | some datetime =>
      have hsign := Bool.eq_iff_iff.mp (Extended.reading_sign netPnl).1
      cases hna : pd.isNa direction.toList with
      | true => simp [ArbCall.Counted, reported, directed, ArbCall.isTrade, h, hna]
      | false =>
        simpa [ArbCall.Counted, reported, signed, directed, ArbCall.isTrade, ReportRow.wins,
          ReportRow.loses, h, hna] using hsign.symm

theorem wins_and_loses {c : ArbCall} {row : ReportRow} (h : reported pd c = some row) :
    (row.wins && row.loses) = false := by
  cases c with
  | log now symbol real synth delta =>
    obtain ⟨datetime, -, rfl⟩ := Option.map_eq_some_iff.mp h
    rfl
  | logSimulatedTrade synthetic real netPnl ts signalCount totalPnl direction size =>
    obtain ⟨datetime, -, rfl⟩ := Option.map_eq_some_iff.mp h
    exact (Extended.reading_sign netPnl).2

/-- An alert has neither a pnl nor a direction. -/
theorem uncounted_log (now : UInt64) (symbol : String) (real synth delta : XDouble) :
    signed pd (.log now symbol real synth delta) = false ∧
      directed pd (.log now symbol real synth delta) = false := by
  rw [signed, directed, reported]
  cases pd.toDatetime (.fin now.toNat) with
  | none => exact ⟨rfl, rfl⟩
  | some datetime => exact ⟨rfl, rfl⟩

theorem isTrade_of_signed {c : ArbCall} (h : signed pd c) : c.isTrade := by
  cases c with
  | log now symbol real synth delta =>
    rw [(uncounted_log pd now symbol real synth delta).1] at h
    cases h
  | logSimulatedTrade synthetic real netPnl ts signalCount totalPnl direction size => rfl

theorem isTrade_of_directed {c : ArbCall} (h : directed pd c) : c.isTrade := by
  cases c with
  | log now symbol real synth delta =>
    rw [(uncounted_log pd now symbol real synth delta).2] at h
    cases h
  | logSimulatedTrade synthetic real netPnl ts signalCount totalPnl direction size => rfl

theorem isSome_of_signed {c : ArbCall} (h : signed pd c) : (reported pd c).isSome := by
  rw [signed] at h
  cases hrow : reported pd c with
  | none =>
    rw [hrow] at h
    cases h
  | some row => rfl

/-! ## The figures -/

theorem countP_add_countP {α : Type} {p q : α → Bool} {l : List α}
    (h : ∀ x ∈ l, (p x && q x) = false) :
    l.countP p + l.countP q = l.countP fun x => p x || q x := by
  induction l with
  | nil => rfl
  | cons x l ih =>
    have hx := h x List.mem_cons_self
    have hl := ih fun y hy => h y (List.mem_cons_of_mem x hy)
    rw [List.countP_cons, List.countP_cons, List.countP_cons, ← hl]
    cases hp : p x with
    | true =>
      rw [hp, Bool.true_and] at hx
      simp [hx]
      omega
    | false =>
      cases q x with
      | true => simp [add_assoc]
      | false => simp

theorem countP_filterMap_any {α β : Type} (f : α → Option β) (p : β → Bool) (l : List α) :
    (l.filterMap f).countP p = l.countP fun a => (f a).any p := by
  rw [List.countP_filterMap]
  refine List.countP_congr fun a _ => ?_
  cases f a <;> simp

/-- **The figures**, as counts of the calls. -/
theorem figures_eq (calls : List ArbCall) :
    let trades := calls.filterMap (reported pd)
    trades.length = calls.countP (fun c => (reported pd c).isSome) ∧
      (trades.filter ReportRow.wins).length + (trades.filter ReportRow.loses).length =
        calls.countP (signed pd) ∧
      ((pd.groupSizes (trades.map ReportRow.direction)).map Prod.snd).sum =
        calls.countP (directed pd) := by
  intro trades
  refine ⟨List.length_filterMap_eq_countP, ?_, ?_⟩
  · have hboth : ∀ row ∈ trades, (row.wins && row.loses) = false := by
      intro row hrow
      obtain ⟨c, -, hc⟩ := List.mem_filterMap.mp hrow
      exact wins_and_loses pd hc
    rw [← List.countP_eq_length_filter, ← List.countP_eq_length_filter, countP_add_countP hboth,
      countP_filterMap_any]
    rfl
  · rw [pd.sum_directions, countP_filterMap_any]
    rfl

theorem imp_of_countP_eq {α : Type} {p q : α → Bool} {l : List α} (h : ∀ x ∈ l, p x → q x)
    (heq : l.countP p = l.countP q) : ∀ x ∈ l, q x → p x := by
  induction l with
  | nil => simp
  | cons y l ih =>
    have hl : ∀ x ∈ l, p x → q x := fun x hx => h x (List.mem_cons_of_mem y hx)
    have hle : l.countP p ≤ l.countP q := List.countP_mono_left hl
    have hy := h y List.mem_cons_self
    rw [List.countP_cons, List.countP_cons] at heq
    by_cases hp : p y = true
    · rw [if_pos hp, if_pos (hy hp)] at heq
      have htail := ih hl (Nat.succ_injective heq)
      intro x hx hqx
      rcases List.mem_cons.mp hx with rfl | hx
      · exact hp
      · exact htail x hx hqx
    · rw [if_neg hp, add_zero] at heq
      have hq : ¬ q y = true := by
        intro hq
        rw [if_pos hq] at heq
        omega
      rw [if_neg hq, add_zero] at heq
      intro x hx hqx
      rcases List.mem_cons.mp hx with rfl | hx
      · exact absurd hqx hq
      · exact ih hl heq x hx hqx

/-! ## The result -/

theorem main_text (f : WrittenLog) :
    pd.main f.text = some <$> pd.summary (f.calls.filterMap (reported pd)) := by
  rw [Pandas.main, load_text]
  rfl

theorem main_text_eq_ok_iff {f : WrittenLog} {s : Summary} :
    pd.main f.text = .ok (some s) ↔ pd.summary (f.calls.filterMap (reported pd)) = .ok s := by
  rw [main_text]
  cases pd.summary (f.calls.filterMap (reported pd)) with
  | error e => exact iff_of_false (fun h => by cases h) fun h => by cases h
  | ok s' =>
    show Except.ok (some s') = Except.ok (some s) ↔ _
    rw [Except.ok.injEq, Except.ok.injEq, Option.some.injEq]

/-- **For which files the report accounts for the trades**: those with a trade, all of whose trades
have a time that pandas can hold, a pnl that is not NaN and a direction that is no text for NaN, and
all of whose alerts have a time that pandas cannot hold. -/
theorem accounted_iff (f : WrittenLog) :
    Accounted pd f ↔ 0 < f.calls.countP ArbCall.isTrade ∧ ∀ c ∈ f.calls, c.Counted pd := by
  obtain ⟨htotal, hsigned, hdirected⟩ := figures_eq pd f.calls
  simp only [Accounted, main_text_eq_ok_iff, Pandas.summary_eq_ok_iff]
  constructor
  · intro h
    obtain ⟨s, ⟨hne, rfl⟩, hs⟩ := h
    have hallSigned : ∀ c ∈ f.calls, c.isTrade → signed pd c :=
      imp_of_countP_eq (fun c _ => isTrade_of_signed pd) (hsigned.symm.trans hs.partition)
    have hallDirected : ∀ c ∈ f.calls, c.isTrade → directed pd c :=
      imp_of_countP_eq (fun c _ => isTrade_of_directed pd) (hdirected.symm.trans hs.directions)
    -- every trade has a row, so no alert has one
    have hreported : ∀ c ∈ f.calls, (reported pd c).isSome → c.isTrade :=
      imp_of_countP_eq (fun c hc htrade => isSome_of_signed pd (hallSigned c hc htrade))
        (hs.total.symm.trans htotal)
    refine ⟨?_, fun c hc => (counted_iff pd c).mpr ⟨?_, ?_, ?_⟩⟩
    · rw [← hs.total]
      exact Nat.pos_of_ne_zero hne
    · rw [Bool.eq_iff_iff]
      exact ⟨hreported c hc, fun htrade => isSome_of_signed pd (hallSigned c hc htrade)⟩
    · rw [Bool.eq_iff_iff]
      exact ⟨isTrade_of_signed pd, hallSigned c hc⟩
    · rw [Bool.eq_iff_iff]
      exact ⟨isTrade_of_directed pd, hallDirected c hc⟩
  · intro h
    obtain ⟨hpos, hcounted⟩ := h
    have hcounts := fun c hc => (counted_iff pd c).mp (hcounted c hc)
    have hlen : (f.calls.filterMap (reported pd)).length = f.calls.countP ArbCall.isTrade :=
      htotal.trans (List.countP_congr fun c hc => by rw [(hcounts c hc).1])
    refine ⟨_, ⟨hlen ▸ hpos.ne', rfl⟩, hlen, ?_, fun _ => ?_, ?_⟩
    · exact hsigned.trans (List.countP_congr fun c hc => by rw [(hcounts c hc).2.1])
    · rw [hlen]
      ring
    · exact hdirected.trans (List.countP_congr fun c hc => by rw [(hcounts c hc).2.2])

end

def headersOnly : WrittenLog where
  sessions := [[], []]
  sessions_ne := List.cons_ne_nil _ _
  plain := by simp

/-- The alert is counted as a trade, and without trades the script divides by zero. -/
theorem not_accounted_alert :
    ¬ Accounted Documented.pandas tradeThenAlert ∧
      Documented.pandas.main headersOnly.text = .error .zeroDivisionError := by
  constructor
  · intro h
    obtain ⟨s, hmain, hs⟩ := h
    rw [main_text_eq_ok_iff, Pandas.summary_eq_ok_iff] at hmain
    obtain ⟨-, rfl⟩ := hmain
    have htotal := hs.total
    revert htotal
    decide +kernel
  · rw [main_text]
    rfl

end SyntheticArbitrage
