import SyntheticArbitrage.SpotSynth.Trades
import SyntheticArbitrage.TradeAlgebra

/-!
# When a recorded trade breaks even

Slippage takes the fraction `c = 0.0002` of both prices from the trade, so the trade gains only what
the mispricing exceeds `c (s + r)` by.

* `compareTrade_return`: the return of the trade of `s` against `r`.
* `compareTrade_return_lt`: slippage makes the return smaller.
* `break_even`: the sign of the pnl, and the comparison with the trade without slippage.
-/

namespace SyntheticArbitrage.Objects

open CappedStake SyntheticSpotSynth

theorem compareTrade_exit_pos {r : ℚ} (hr : 0 < r) (dir : String) : 0 < effectiveExit dir r := by
  unfold effectiveExit slippageRate
  simp only [Exact.lit_eq]
  split
  · exact mul_pos hr (by norm_num)
  · exact mul_pos hr (by norm_num)

theorem compareTrade_return (s r : ℚ) :
    tradeReturn (direction (s - r)) (effectiveEntry (direction (s - r)) s)
        (effectiveExit (direction (s - r)) r) =
      (|s - r| - 0.0002 * (s + r)) / effectiveExit (direction (s - r)) r := by
  rcases lt_or_ge 0 (s - r) with h | h
  · have hsell : direction (s - r) = "SELL" := if_pos h
    have hne : ¬ "SELL" = "BUY" := by decide
    rw [hsell, tradeReturn, if_neg hne, abs_of_pos h]
    congr 1
    simp only [effectiveEntry, effectiveExit, slippageRate, if_neg hne, Exact.lit_eq]
    ring
  · have hbuy : direction (s - r) = "BUY" := if_neg (not_lt.mpr h)
    rw [hbuy, tradeReturn, if_pos rfl, abs_of_nonpos h]
    congr 1
    simp only [effectiveEntry, effectiveExit, slippageRate, if_pos, Exact.lit_eq]
    ring

theorem unslipped_return (s r : ℚ) :
    tradeReturn (direction (s - r)) s r = |s - r| / r := by
  rcases lt_or_ge 0 (s - r) with h | h
  · have hsell : direction (s - r) = "SELL" := if_pos h
    rw [hsell, tradeReturn, if_neg (by decide), abs_of_pos h]
  · have hbuy : direction (s - r) = "BUY" := if_neg (not_lt.mpr h)
    rw [hbuy, tradeReturn, if_pos rfl, abs_of_nonpos h, neg_sub]

/-- Slippage makes the return strictly smaller, also where it lowers the exit price that the return
is taken over. -/
theorem compareTrade_return_lt {s r : ℚ} (hs : 0 < s) (hr : 0 < r) :
    (|s - r| - 0.0002 * (s + r)) / effectiveExit (direction (s - r)) r < |s - r| / r := by
  rw [div_lt_div_iff₀ (compareTrade_exit_pos hr _) hr]
  rcases lt_or_ge 0 (s - r) with h | h
  · have hsell : direction (s - r) = "SELL" := if_pos h
    have hexit : effectiveExit (direction (s - r)) r = r * (1 + 0.0002) := by
      rw [hsell, effectiveExit, if_neg (by decide)]
      rfl
    rw [hexit, abs_of_pos h]
    nlinarith [mul_pos hs hr, mul_pos hr hr, mul_pos h hr]
  · have hbuy : direction (s - r) = "BUY" := if_neg (not_lt.mpr h)
    have hexit : effectiveExit (direction (s - r)) r = r * (1 - 0.0002) := by
      rw [hbuy, effectiveExit, if_pos rfl]
      rfl
    rw [hexit, abs_of_nonpos h]
    nlinarith [mul_pos hs hr]

/-- **The break-even law.**  The trade that `compareToReal` records for positive prices gains
exactly when the mispricing exceeds `c (s + r)`, breaks even when they are equal, and loses
otherwise; and it pays strictly less than the same trade without slippage.  The trigger threshold is
not needed for it. -/
theorem break_even {s r maxExposure : ℚ} (hs : 0 < s) (hr : 0 < r) (hM : 0 < maxExposure)
    (ts : UInt64) :
    let trade := compareTrade maxExposure s r ts
    (∀ o : Objects ℚ, o.ethSynth.pnlTracker = true → o.ethSynth.product = s →
      o.tracker.pnlTracker.maxExposure = maxExposure → o.fires r ts = true →
      (o.compareToReal r ts).tracker.pnlTracker.trades = o.tracker.pnlTracker.trades ++ [trade]) ∧
    (0 < trade.pnl ↔ 0.0002 * (s + r) < |s - r|) ∧
    (trade.pnl = 0 ↔ |s - r| = 0.0002 * (s + r)) ∧
    (trade.pnl < 0 ↔ |s - r| < 0.0002 * (s + r)) ∧
    trade.pnl < (simulate maxExposure "ETHUSDT" s r ts (direction (s - r))).pnl := by
  intro trade
  have hslope : (0 : ℚ) < 100 := by norm_num
  have hexit := compareTrade_exit_pos hr (direction (s - r))
  have hpnl : trade.pnl = payoff 100 maxExposure
      ((|s - r| - 0.0002 * (s + r)) / effectiveExit (direction (s - r)) r) := by
    rw [← compareTrade_return]
    exact simulate_pnl _ _ _ _ hexit
  refine ⟨?_, ?_, ?_, ?_, ?_⟩
  · intro o hpnl hproduct hmax hfires
    have h := trades_concat o (.compareToReal r ts)
    rwa [recorded, hfires, hpnl, hproduct, hmax] at h
  · rw [hpnl, payoff_pos_iff hslope hM, div_pos_iff_of_pos_right hexit, sub_pos]
  · rw [hpnl, payoff_eq_zero_iff hslope hM, div_eq_zero_iff, or_iff_left hexit.ne', sub_eq_zero]
  · rw [hpnl, payoff_neg_iff hslope hM, div_lt_iff₀ hexit, zero_mul, sub_neg]
  · rw [hpnl, simulate_pnl _ _ _ _ hr, unslipped_return]
    exact payoff_strictMono hslope hM (compareTrade_return_lt hs hr)

/-- A mispricing of 1 on prices near 100 pays. -/
theorem break_even_hundred :
    (0 : ℚ) < 101 ∧ (0 : ℚ) < 100 ∧ (0 : ℚ) < 5000 ∧
      0 < (compareTrade (5000 : ℚ) 101 100 1000).pnl := by
  refine ⟨by norm_num, by norm_num, by norm_num, ?_⟩
  exact (@break_even 101 100 5000 (by norm_num) (by norm_num) (by norm_num) 1000).2.1.mpr
    (by norm_num)

end SyntheticArbitrage.Objects
