import SyntheticArbitrage.Lib.CappedStake
import SyntheticArbitrage.MockPnLEngine
import Mathlib.Tactic.FieldSimp
import Mathlib.Tactic.Positivity

/-!
# The algebra of a simulated trade

In exact arithmetic a trade depends on its prices only through its return, the signed price
difference over the exit price: `size` is a stake on the return, proportional with factor 100 up to
`max_exposure`, and `pnl` is what that stake pays.

* `tradeReturn`: the return of a trade.
* `simulate_size`, `simulate_pnl`: size and pnl as stake and payoff of the return.
* `trade_algebra`: what follows for single trades, for the two directions, for scaled prices, and
  for two trades of different edge.
-/

namespace SyntheticArbitrage

open CappedStake

/-- The relative distance of the two prices: `edge` of `recordTrade`. -/
def tradeEdge (entry exit : ℚ) : ℚ := |exit - entry| / exit

/-- The return of a trade: its edge, with the sign that the direction gives it. -/
def tradeReturn (direction : String) (entry exit : ℚ) : ℚ :=
  if direction = "BUY" then (exit - entry) / exit else (entry - exit) / exit

section

variable (maxExposure : ℚ) (symbol direction : String) {entry exit : ℚ} (ts : UInt64)

theorem abs_tradeReturn (h : 0 < exit) :
    |tradeReturn direction entry exit| = tradeEdge entry exit := by
  unfold tradeReturn tradeEdge
  split
  · rw [abs_div, abs_of_pos h]
  · rw [abs_div, abs_of_pos h, abs_sub_comm]

theorem tradeReturn_scale {k : ℚ} (hk : 0 < k) :
    tradeReturn direction (k * entry) (k * exit) = tradeReturn direction entry exit := by
  unfold tradeReturn
  rw [← mul_sub, ← mul_sub, mul_div_mul_left _ _ hk.ne', mul_div_mul_left _ _ hk.ne']

theorem simulate_size (h : 0 < exit) :
    (simulate maxExposure symbol entry exit ts direction).size =
      stake 100 maxExposure (tradeReturn direction entry exit) := by
  rw [stake, abs_tradeReturn direction h]
  simp only [simulate, Exact.stdMin_eq, Exact.abs_eq, Exact.lit_eq]
  rw [mul_comm]
  norm_num [tradeEdge]

theorem simulate_pnl (h : 0 < exit) :
    (simulate maxExposure symbol entry exit ts direction).pnl =
      payoff 100 maxExposure (tradeReturn direction entry exit) := by
  have hsize : (simulate maxExposure symbol entry exit ts direction).size =
      stake 100 maxExposure (tradeReturn direction entry exit) :=
    simulate_size maxExposure symbol direction ts h
  have hpnl : (simulate maxExposure symbol entry exit ts direction).pnl =
      tradeReturn direction entry exit *
        (simulate maxExposure symbol entry exit ts direction).size := by
    simp only [simulate, tradeReturn]
    split <;> ring
  rw [hpnl, hsize, payoff]

end

/-- **The algebra of `recordTrade`.**  With edge `e`, the trade recorded has size `min (100 e) M`;
the two directions pay opposite amounts; the amount is `e` times the size, at most `100 e²` and at
most `e M`; scaling both prices changes nothing; and a trade of a larger edge has a larger size and
pays a larger amount. -/
theorem trade_algebra (maxExposure : ℚ) (hM : 0 ≤ maxExposure) {entry exit : ℚ} (hX : 0 < exit)
    (symbol : String) (ts : UInt64) (direction : String) :
    let trade := simulate maxExposure symbol entry exit ts
    let e := |exit - entry| / exit
    (∀ t : Tracker ℚ, t.pnlTracker.maxExposure = maxExposure →
      (t.recordTrade symbol entry exit ts direction).pnlTracker.trades =
        t.pnlTracker.trades ++ [trade direction]) ∧
    (trade direction).size = min (100 * e) maxExposure ∧
    (trade "BUY").pnl = -(trade "SELL").pnl ∧
    |(trade direction).pnl| = e * (trade direction).size ∧
    e * (trade direction).size ≤ min (100 * e ^ 2) (e * maxExposure) ∧
    (∀ k : ℚ, 0 < k →
      (simulate maxExposure symbol (k * entry) (k * exit) ts direction).size =
          (trade direction).size ∧
        (simulate maxExposure symbol (k * entry) (k * exit) ts direction).pnl =
          (trade direction).pnl) ∧
    ∀ (entry' exit' : ℚ) (symbol' : String) (ts' : UInt64) (direction' : String), 0 < exit' →
      e ≤ |exit' - entry'| / exit' →
      (trade direction).size ≤ (simulate maxExposure symbol' entry' exit' ts' direction').size ∧
        |(trade direction).pnl| ≤
          |(simulate maxExposure symbol' entry' exit' ts' direction').pnl| := by
  intro trade e
  have hslope : (0 : ℚ) ≤ 100 := by norm_num
  have hreturn : |tradeReturn direction entry exit| = e := abs_tradeReturn direction hX
  have hsize : (trade direction).size = stake 100 maxExposure (tradeReturn direction entry exit) :=
    simulate_size maxExposure symbol direction ts hX
  have hpnl : ∀ d, (trade d).pnl = payoff 100 maxExposure (tradeReturn d entry exit) :=
    fun d => simulate_pnl maxExposure symbol d ts hX
  have hamount : |(trade direction).pnl| = e * (trade direction).size := by
    rw [hpnl, hsize, abs_payoff hslope hM, hreturn]
  refine ⟨?_, ?_, ?_, hamount, ?_, ?_, ?_⟩
  · intro t ht
    rw [Tracker.recordTrade_trades, ht]
  · rw [hsize, stake, hreturn]
  · have hopposite : tradeReturn "BUY" entry exit = -tradeReturn "SELL" entry exit := by
      rw [tradeReturn, tradeReturn, if_pos rfl, if_neg (by decide), ← neg_div, neg_sub]
    rw [hpnl, hpnl, hopposite, payoff_neg]
  · rw [← hamount, hpnl, ← hreturn]
    exact abs_payoff_le hslope hM _
  · intro k hk
    have hkX : 0 < k * exit := mul_pos hk hX
    rw [simulate_size _ _ _ _ hkX, simulate_pnl _ _ _ _ hkX, tradeReturn_scale direction hk,
      hsize, hpnl]
    exact ⟨rfl, rfl⟩
  · intro entry' exit' symbol' ts' direction' hX' hle
    have hreturn' : |tradeReturn direction' entry' exit'| = |exit' - entry'| / exit' :=
      abs_tradeReturn direction' hX'
    rw [← hreturn, ← hreturn'] at hle
    rw [hsize, hpnl, simulate_size _ _ _ _ hX', simulate_pnl _ _ _ _ hX']
    exact ⟨stake_mono hslope hle, abs_payoff_mono hslope hM hle⟩

/-- A trade of edge 1/4 whose size the exposure caps. -/
theorem trade_algebra_capped :
    (0 : ℚ) ≤ 20 ∧ (0 : ℚ) < 100 ∧
      (simulate (20 : ℚ) "ETHUSDT" 75 100 1000 "BUY").size = min (100 * (|100 - 75| / 100)) 20 :=
  ⟨by norm_num, by norm_num,
    (@trade_algebra 20 (by norm_num) 75 100 (by norm_num) "ETHUSDT" 1000 "BUY").2.1⟩

end SyntheticArbitrage
