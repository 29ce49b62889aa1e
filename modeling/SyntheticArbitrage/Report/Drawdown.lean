import SyntheticArbitrage.Report.Documented

/-!
# The maximum drawdown of the report

`max_drawdown` of `reports/summarize_pnl.py`.  The equity curve of the script starts after the first
trade, so a fall from the equity before all trades is not seen.

* `Pandas.maxDrawdown`: the figure.
* `maxDrawdown_eq`: on finite profits it is the greatest fall of the curve of the script.
* `maxDrawdown_exact_iff`: **when it is the greatest fall of the curve from 0.**
-/

namespace SyntheticArbitrage

open Drawdown Extended

/-- `(trades['cumulative_pnl'].cummax() - trades['cumulative_pnl']).max()` -/
def Pandas.maxDrawdown (pd : Pandas) (trades : List ReportRow) : XDouble :=
  let cumulativePnl := pd.cumsum (trades.map fun row => row.netPnl.getD nan)
  pd.columnMax (List.zipWith (· - ·) (pd.cummax cumulativePnl) cumulativePnl)

section

variable (pd : Pandas)

/-! ## Finite columns -/

def HasPnls (pnls : List ℚ) (trades : List ReportRow) : Prop :=
  trades.map ReportRow.netPnl = pnls.map fun p => some (fin p)

/-- **The figure on finite profits** is the greatest fall of the curve after the first trade. -/
theorem maxDrawdown_eq {pnls : List ℚ} {trades : List ReportRow} (hne : pnls ≠ [])
    (h : HasPnls pnls trades) :
    ∃ d, pd.maxDrawdown trades = fin d ∧ IsGreatest {e | IsFall (partialSums 0 pnls) e} d := by
  have hcolumn : trades.map (fun row => row.netPnl.getD nan) = pnls.map fin := by
    have hmap := congrArg (List.map fun x => x.getD nan) h
    rwa [List.map_map, List.map_map] at hmap
  obtain ⟨p, ps, rfl⟩ := List.exists_cons_of_ne_nil hne
  refine ⟨(drawdowns (0 + p) (partialSums (0 + p) ps)).foldl max 0, ?_,
    isGreatest_falls (0 + p) (partialSums (0 + p) ps)⟩
  have hfalls : List.zipWith (· - ·) ((peaks (0 + p) (partialSums (0 + p) ps)).map fin)
      ((partialSums (0 + p) ps).map fin) =
        (drawdowns (0 + p) (partialSums (0 + p) ps)).map fin := by
    rw [drawdowns, List.zipWith_map, List.map_zipWith]
    simp only [fin_sub_fin]
  rw [Pandas.maxDrawdown, hcolumn, pd.cumsum_fin, partialSums, pd.cummax_fin, List.map_cons,
    List.map_cons, List.zipWith_cons_cons, fin_sub_fin, sub_self, hfalls, ← List.map_cons,
    pd.columnMax_fin]

/-! ## The curve from 0 -/

/-- The figure is the greatest fall of the equity curve that starts at 0. -/
def DrawdownExact (pnls : List ℚ) (trades : List ReportRow) : Prop :=
  ∃ d, pd.maxDrawdown trades = fin d ∧
    IsGreatest {e | ∃ i j, i ≤ j ∧ j ≤ pnls.length ∧ e = height pnls i - height pnls j} d

theorem exists_isGreatest_fall {pnls : List ℚ} {trades : List ReportRow} (hne : pnls ≠ [])
    (h : HasPnls pnls trades) :
    ∃ d, pd.maxDrawdown trades = fin d ∧ IsGreatest {e | ∃ i j, 1 ≤ i ∧ i ≤ j ∧ j ≤ pnls.length ∧
      e = height pnls i - height pnls j} d := by
  obtain ⟨d, hd, hgreatest⟩ := maxDrawdown_eq pd hne h
  have hfalls (e : ℚ) : IsFall (partialSums 0 pnls) e ↔
      ∃ i j, 1 ≤ i ∧ i ≤ j ∧ j ≤ pnls.length ∧ e = height pnls i - height pnls j := by
    have hdrop : IsFall ((0 :: partialSums 0 pnls).drop 1) e ↔ _ := isFall_drop_partialSums_iff
    rwa [List.drop_succ_cons, List.drop_zero] at hdrop
  simp only [hfalls] at hgreatest
  exact ⟨d, hd, hgreatest⟩

/-- The figure is exact when no loss since the start is deeper than every fall between points after
the first trade. -/
theorem drawdownExact_of_deep {pnls : List ℚ} {trades : List ReportRow} (hne : pnls ≠ [])
    (h : HasPnls pnls trades)
    (hdeep : ∀ j, 1 ≤ j → j ≤ pnls.length → ∃ i k, 1 ≤ i ∧ i ≤ k ∧ k ≤ pnls.length ∧
      -height pnls j ≤ height pnls i - height pnls k) : DrawdownExact pd pnls trades := by
  have hzero : height pnls 0 = 0 := rfl
  have hlen : 1 ≤ pnls.length := List.length_pos_of_ne_nil hne
  obtain ⟨d, hd, hgreatest⟩ := exists_isGreatest_fall pd hne h
  have hle : ∀ i j, 1 ≤ i → i ≤ j → j ≤ pnls.length → height pnls i - height pnls j ≤ d :=
    fun i j hi hij hj => hgreatest.2 ⟨i, j, hi, hij, hj, rfl⟩
  refine ⟨d, hd, ?_, ?_⟩
  · obtain ⟨i, k, -, hik, hk, heq⟩ := hgreatest.1
    exact ⟨i, k, hik, hk, heq⟩
  · intro e he
    obtain ⟨i, j, hij, hj, rfl⟩ := he
    rcases Nat.eq_zero_or_pos i with rfl | hi
    · rcases Nat.eq_zero_or_pos j with rfl | hjpos
      · calc height pnls 0 - height pnls 0 = height pnls 1 - height pnls 1 := by
              rw [sub_self, sub_self]
          _ ≤ d := hle 1 1 le_rfl le_rfl hlen
      · obtain ⟨i, k, hi, hik, hk, hloss⟩ := hdeep j hjpos hj
        rw [hzero, zero_sub]
        exact hloss.trans (hle i k hi hik hk)
    · exact hle i j hi hij hj

/-- **When the figure is exact**: exactly when no loss since the start is deeper than every fall
between points after the first trade. -/
theorem maxDrawdown_exact_iff {pnls : List ℚ} {trades : List ReportRow} (hne : pnls ≠ [])
    (h : HasPnls pnls trades) :
    DrawdownExact pd pnls trades ↔
      ∀ j, 1 ≤ j → j ≤ pnls.length → ∃ i k, 1 ≤ i ∧ i ≤ k ∧ k ≤ pnls.length ∧
        -height pnls j ≤ height pnls i - height pnls k := by
  refine ⟨?_, drawdownExact_of_deep pd hne h⟩
  rintro ⟨d', hd', hexact⟩ j hj hjlen
  have hzero : height pnls 0 = 0 := rfl
  obtain ⟨d, hd, hgreatest⟩ := exists_isGreatest_fall pd hne h
  rw [hd, Extended.fin.injEq] at hd'
  subst hd'
  obtain ⟨i, k, hi, hik, hk, heq⟩ := hgreatest.1
  refine ⟨i, k, hi, hik, hk, ?_⟩
  rw [← heq, ← zero_sub, ← hzero]
  exact hexact.2 ⟨0, j, Nat.zero_le j, hjlen, rfl⟩

theorem drawdownExact_of_nonneg {p : ℚ} {ps : List ℚ} {trades : List ReportRow} (hp : 0 ≤ p)
    (h : HasPnls (p :: ps) trades) : DrawdownExact pd (p :: ps) trades := by
  apply drawdownExact_of_deep pd (List.cons_ne_nil p ps) h
  intro j hj hjlen
  refine ⟨1, j, le_rfl, hj, hjlen, ?_⟩
  have hfirst : height (p :: ps) 1 = p := by simp [height]
  rw [hfirst]
  linarith

end

/-- A row of the table of `trades` with a profit. -/
def rowOf (pnl : ℚ) : ReportRow :=
  ⟨0, none, none, some (fin pnl), none, none⟩

/-- A gain, and then a loss of half of it. -/
theorem maxDrawdown_exact_iff_two :
    [2, -1] ≠ ([] : List ℚ) ∧ HasPnls [2, -1] [rowOf 2, rowOf (-1)] ∧
      DrawdownExact Documented.pandas [2, -1] [rowOf 2, rowOf (-1)] := by
  have hpnls : HasPnls [2, -1] [rowOf 2, rowOf (-1)] := rfl
  refine ⟨List.cons_ne_nil _ _, hpnls, ?_⟩
  refine (maxDrawdown_exact_iff Documented.pandas (List.cons_ne_nil _ _) hpnls).mpr
    fun j hj hjlen => ?_
  refine ⟨1, 1, le_rfl, le_rfl, hj.trans hjlen, ?_⟩
  have hj : j = 1 ∨ j = 2 := by
    simp only [List.length_cons, List.length_nil] at hjlen
    omega
  rcases hj with rfl | rfl
  · norm_num [height]
  · norm_num [height]

/-- One losing trade: the figure is 0, and the curve falls from 0 to -1. -/
theorem not_drawdownExact_loss : ¬ DrawdownExact Documented.pandas [-1] [rowOf (-1)] := by
  intro h
  obtain ⟨d, hd, hgreatest⟩ := h
  have hzero : Documented.pandas.maxDrawdown [rowOf (-1)] = fin 0 := by decide +kernel
  rw [hzero, Extended.fin.injEq] at hd
  subst hd
  have hfall : (1 : ℚ) ≤ 0 := hgreatest.2 ⟨0, 1, Nat.zero_le 1, le_rfl, by simp [height]⟩
  exact absurd hfall (by norm_num)

end SyntheticArbitrage
