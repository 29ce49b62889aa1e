import SyntheticArbitrage.Binary64
import SyntheticArbitrage.Feed.Binance
import SyntheticArbitrage.SpotSynth.Trades
import Mathlib.Algebra.Order.Field.Basic
import Mathlib.Tactic.FieldSimp
import Mathlib.Tactic.Linarith

/-!
# From a price of the feed to the ledger

No layer between the decoder and the division by `real_price` in `recordTrade` states a range: an
ETHUSDT price of zero or below passes the readiness guard, the threshold and the cooldown like any
other, and so does a positive one so small that the pnl overflows.  Numbers are `double`s with their
rounding and their infinities.

* `SafeTrade`: what a recorded trade must be: no division by zero, a size within the limit, a finite
  pnl.
* `InRange`: a range of prices in which nothing overflows.
* `safeTrade_of_inRange`: the trade of a signal fired in that range is safe.
* `moneySafe_of_inRange`: a run of messages whose signals fire in that range records safe trades
  only.
-/

namespace SyntheticArbitrage

open SyntheticSpotSynth Binary64

def SynthCall.price {R : Type} : SynthCall R → R
  | update _ price _ => price
  | compareToReal realPrice _ => realPrice

/-- `recordTrade` divides by the exit price only. -/
structure SafeTrade (maxExposure : Binary64) (trade : SimulatedTrade Binary64) : Prop where
  divisor : ∀ negative, trade.exitPrice ≠ signedZero negative
  size_nonneg : 0 ≤ trade.size
  size_le : trade.size ≤ maxExposure
  pnl : trade.pnl.isFinite = true

namespace Objects

/-! ## The trade of a signal -/

/-- What the prices of a trade are measured by. -/
def scale (s r : Binary64) : ℚ := max 1 (|s.value| + r.value)

/-- A positive real price, and sizes of both prices and of the trade that leave room for every
product and quotient. -/
structure InRange (maxExposure s r : Binary64) : Prop where
  synthetic : s.isFinite = true
  real : 0 < r.value
  scale_le : scale s r ≤ 2 ^ 1000
  size : 100 * (scale s r / r.value) ≤ 2 ^ 1000 / (scale s r / r.value) ∨
    maxExposure.Within (2 ^ 1000 / (scale s r / r.value))

theorem two_mul_lt_max {q t : ℚ} (ht : 2 ^ 1000 = t) (h : q < 8388608 * t) : 2 * q < 2 ^ 1024 := by
  rw [show 1024 = 24 + 1000 from rfl, pow_add, ht]
  linarith

theorem smallest_le_one : (2 : ℚ) ^ (-1074 : ℤ) ≤ 1 := by
  rw [← zpow_zero (2 : ℚ)]
  exact Binary.two_zpow_le (by norm_num)

structure IsSlippage (c : Binary64) : Prop where
  within : c.Within 2
  half : 1 / 2 < c.value

theorem isSlippage_add : IsSlippage (DoubleOps.lit 1 + slippageRate) := by
  refine ⟨⟨?_, ?_⟩, ?_⟩ <;> decide +kernel

theorem isSlippage_sub : IsSlippage (DoubleOps.lit 1 - slippageRate) := by
  refine ⟨⟨?_, ?_⟩, ?_⟩ <;> decide +kernel

variable {x c : Binary64} {b : ℚ}

theorem within_mul_slippage (hc : IsSlippage c) (hx : x.Within b) (h1 : 1 ≤ b)
    (hb : b ≤ 2 ^ 1000) :
    (x * c).Within (4 * b) ∧
      |(x * c).value| = Binary.nearest 52 (-1074) (|x.value| * |c.value|) := by
  have hsmall := smallest_le_one
  generalize ht : (2 : ℚ) ^ 1000 = t at hb
  have hmul := mul_within hx hc.within (by linarith) (two_mul_lt_max ht (by linarith))
  exact ⟨hmul.1.mono (by linarith), hmul.2⟩

theorem quarter_le_mul_slippage (hc : IsSlippage c) (hx : x.Within b) (h1 : 1 ≤ b)
    (hb : b ≤ 2 ^ 1000) (hpos : 0 < x.value) : x.value / 4 ≤ (x * c).value := by
  obtain ⟨hwithin, hvalue⟩ := within_mul_slippage hc hx h1 hb
  have hcpos : 0 < c.value := by linarith [hc.half]
  rw [abs_of_pos hpos, abs_of_pos hcpos] at hvalue
  have hhalf : x.value / 2 < x.value * c.value := by
    have hmul := mul_lt_mul_of_pos_left hc.half hpos
    linarith
  have hround : x.value * c.value / 2 ≤ Binary.nearest 52 (-1074) (x.value * c.value) :=
    Binary.half_le_nearest
      ((div_le_div_of_nonneg_right (smallest_le_value hpos) (by norm_num)).trans_lt hhalf)
  rw [← hvalue, (plus_mul_of_pos hpos hcpos).abs_value] at hround
  linarith

/-- `size` in `recordTrade`. -/
def tradeSize (maxExposure entry exit : Binary64) : Binary64 :=
  stdMin (DoubleOps.abs (exit - entry) / exit * DoubleOps.lit 100.0) maxExposure

/-- Effective prices in proportion to prices up to `v`, and the one that is divided by to a price
`r`. -/
structure Effective (entry exit : Binary64) (v r : ℚ) : Prop where
  entryWithin : entry.Within (4 * v)
  exitWithin : exit.Within (4 * v)
  real : 0 < r
  le : r ≤ v
  quarter : r / 4 ≤ exit.value
  one_le : 1 ≤ v
  le_max : v ≤ 2 ^ 1000

namespace Effective

variable {maxExposure entry exit : Binary64} {v r : ℚ}

theorem exit_pos (h : Effective entry exit v r) : 0 < exit.value := by
  linarith [h.quarter, h.real]

/-- The difference of the prices, taken either way. -/
theorem gap (h : Effective entry exit v r) :
    (exit - entry).Within (16 * v) ∧ (entry - exit).Within (16 * v) := by
  have hsmall := smallest_le_one
  have hv := h.le_max
  have h1 := h.one_le
  generalize ht : (2 : ℚ) ^ 1000 = t at hv
  have hmax : ∀ {q : ℚ}, q < 8388608 * t → 2 * q < 2 ^ 1024 := two_mul_lt_max ht
  clear ht
  exact ⟨(sub_within h.exitWithin h.entryWithin (by linarith) (hmax (by linarith))).mono (by linarith),
    (sub_within h.entryWithin h.exitWithin (by linarith) (hmax (by linarith))).mono (by linarith)⟩

/-- The size of the trade, with the bound of the edge or of the limit. -/
theorem size_within (h : Effective entry exit v r) (hM : 0 ≤ maxExposure)
    (hsize : 100 * (v / r) ≤ 2 ^ 1000 / (v / r) ∨ maxExposure.Within (2 ^ 1000 / (v / r))) :
    0 ≤ tradeSize maxExposure entry exit ∧ tradeSize maxExposure entry exit ≤ maxExposure ∧
      (tradeSize maxExposure entry exit).Within (256 * (2 ^ 1000 / (v / r))) := by
  rw [tradeSize]
  have hsmall := smallest_le_one
  have hr := h.real
  have hvr : 1 ≤ v / r := (one_le_div hr).mpr h.le
  have hv := h.le_max
  generalize ht : (2 : ℚ) ^ 1000 = t at hv hsize ⊢
  have hmax : ∀ {q : ℚ}, q < 8388608 * t → 2 * q < 2 ^ 1024 := two_mul_lt_max ht
  clear ht
  have hpositive : 0 < t / (v / r) := div_pos (by linarith [h.one_le]) (by linarith)
  have hroom : t / (v / r) ≤ t := div_le_self (by linarith [h.one_le]) hvr
  have hedge := plus_abs_div h.gap.1.1 h.exit_pos
  have hhundred : 0 < (DoubleOps.lit 100.0 : Binary64).value ∧
      (DoubleOps.lit 100.0 : Binary64).Within 100 := by
    refine ⟨?_, ?_, ?_⟩ <;> decide +kernel
  obtain ⟨hnonneg, hle, hlimit⟩ := stdMin_le (hedge.mul hhundred.1).nonneg hM
  refine ⟨hnonneg, hlimit, ?_⟩
  rcases hsize with hedgeSize | hlimited
  · have hquotient : 16 * v / (r / 4) = 64 * (v / r) := by
      field_simp
      ring
    have hdiv := div_within (abs_within h.gap.1) h.exitWithin.1 (by linarith)
      (h.quarter.trans (le_abs_self _)) (by rw [hquotient]; linarith)
      (hmax (by rw [hquotient]; linarith))
    rw [hquotient] at hdiv
    have hmul := mul_within hdiv hhundred.2 (by linarith) (hmax (by linarith))
    exact Within.of_le hnonneg hle (hmul.1.mono (by linarith))
  · exact Within.of_le hnonneg hlimit (hlimited.mono (by linarith))

/-- The pnl of the trade, in either direction. -/
theorem pnl_isFinite (h : Effective entry exit v r) {size : Binary64}
    (hsize : size.Within (256 * (2 ^ 1000 / (v / r)))) :
    ((exit - entry) * (size / exit)).isFinite = true ∧
      ((entry - exit) * (size / exit)).isFinite = true := by
  have hsmall := smallest_le_one
  have hr := h.real
  have hvpos : 0 < v := by linarith [h.one_le]
  have hv := h.le_max
  generalize ht : (2 : ℚ) ^ 1000 = t at hv hsize
  have hmax : ∀ {q : ℚ}, q < 8388608 * t → 2 * q < 2 ^ 1024 := two_mul_lt_max ht
  clear ht
  have hone : 1 ≤ t / v := (one_le_div hvpos).mpr hv
  have htop : t / v ≤ t := div_le_self (by linarith) h.one_le
  have hamount : 256 * (t / (v / r)) / (r / 4) = 1024 * (t / v) := by
    field_simp
    ring
  have hdiv := div_within hsize h.exitWithin.1 (by linarith) (h.quarter.trans (le_abs_self _))
    (by rw [hamount]; linarith) (hmax (by rw [hamount]; linarith))
  rw [hamount] at hdiv
  have hproduct : 16 * v * (2 * (1024 * (t / v))) = 32768 * t := by
    field_simp
    ring
  have hpnl : ∀ {gap : Binary64}, gap.Within (16 * v) → (gap * (size / exit)).isFinite = true :=
    fun hgap => (mul_within hgap hdiv (by rw [hproduct]; linarith)
      (hmax (by rw [hproduct]; linarith))).1.1
  exact ⟨hpnl h.gap.1, hpnl h.gap.2⟩

/-- **The trade** of such prices is safe. -/
theorem simulate_safe (h : Effective entry exit v r) (hM : 0 ≤ maxExposure)
    (hsize : 100 * (v / r) ≤ 2 ^ 1000 / (v / r) ∨ maxExposure.Within (2 ^ 1000 / (v / r)))
    (symbol direction : String) (ts : UInt64) :
    SafeTrade maxExposure (simulate maxExposure symbol entry exit ts direction) := by
  obtain ⟨hnonneg, hlimit, hwithin⟩ := h.size_within hM hsize
  obtain ⟨hbuy, hsell⟩ := h.pnl_isFinite hwithin
  refine ⟨?_, hnonneg, hlimit, ?_⟩
  · intro negative hzero
    have hvalue : exit.value = 0 := (congrArg value hzero).trans (by cases negative <;> rfl)
    exact h.exit_pos.ne' hvalue
  · show (if direction = "BUY" then _ else _ : Binary64).isFinite = true
    split
    · exact hbuy
    · exact hsell

end Effective

theorem InRange.effective {maxExposure s r c d : Binary64} (h : InRange maxExposure s r)
    (hc : IsSlippage c) (hd : IsSlippage d) :
    Effective (s * c) (r * d) (scale s r) r.value := by
  have hone : 1 ≤ scale s r := le_max_left _ _
  have hsum : |s.value| + r.value ≤ scale s r := le_max_right _ _
  have hs : s.Within (scale s r) := ⟨h.synthetic, by linarith [h.real]⟩
  have hr : r.Within (scale s r) := by
    obtain ⟨a, rfl, -⟩ := plus_of_value_pos h.real
    refine ⟨rfl, ?_⟩
    rw [abs_of_pos h.real]
    linarith [abs_nonneg s.value]
  exact {
    entryWithin := (within_mul_slippage hc hs hone h.scale_le).1
    exitWithin := (within_mul_slippage hd hr hone h.scale_le).1
    real := h.real
    le := (le_abs_self r.value).trans hr.2
    quarter := quarter_le_mul_slippage hd hr hone h.scale_le h.real
    one_le := hone
    le_max := h.scale_le }

/-- **The trade of a signal** fired in range is safe. -/
theorem safeTrade_of_inRange {maxExposure s r : Binary64} (hM : 0 ≤ maxExposure)
    (h : InRange maxExposure s r) (ts : UInt64) :
    SafeTrade maxExposure (compareTrade maxExposure s r ts) := by
  rw [compareTrade, effectiveEntry, effectiveExit]
  split
  · exact (h.effective isSlippage_add isSlippage_sub).simulate_safe hM h.size _ _ _
  · exact (h.effective isSlippage_sub isSlippage_add).simulate_safe hM h.size _ _ _

/-! ## Runs -/

def FiresInRange (o : Objects Binary64) : SynthCall Binary64 → Prop
  | .update _ _ _ => True
  | .compareToReal real ts =>
    o.fires real ts = true → InRange o.tracker.pnlTracker.maxExposure o.ethSynth.product real

/-- **One call** that fires in range at most records safe trades only. -/
theorem safeTrade_of_mem_recorded {o : Objects Binary64} (hM : 0 ≤ o.tracker.pnlTracker.maxExposure)
    {c : SynthCall Binary64} (hc : o.FiresInRange c) :
    ∀ trade ∈ o.recorded c, SafeTrade o.tracker.pnlTracker.maxExposure trade := by
  cases c with
  | update symbol price ts => simp [recorded]
  | compareToReal real ts =>
    rw [recorded]
    split
    · next hfires =>
      rw [Bool.and_eq_true] at hfires
      rw [List.forall_mem_singleton]
      exact safeTrade_of_inRange hM (hc hfires.1) ts
    · simp

end Objects

def Binance.synthCalls (messages : List (Option (Json Binary64))) : List (SynthCall Binary64) :=
  (messages.flatMap fun m => (onMessage m).calls).filterMap App.synthCall

/-- Every trade that the messages record is safe. -/
def MoneySafe (o : Objects Binary64) (messages : List (Option (Json Binary64))) : Prop :=
  ∀ trade ∈ (run Objects.step o (Binance.synthCalls messages)).tracker.pnlTracker.trades,
    SafeTrade o.tracker.pnlTracker.maxExposure trade

/-- **A run of messages is safe for the ledger** when all its signals fire in range. -/
theorem moneySafe_of_inRange {o : Objects Binary64} (hM : 0 ≤ o.tracker.pnlTracker.maxExposure)
    (hfresh : o.tracker.pnlTracker.trades = []) (messages : List (Option (Json Binary64)))
    (h : AtEachCall Objects.step Objects.FiresInRange o (Binance.synthCalls messages)) :
    MoneySafe o messages := by
  rw [MoneySafe, Objects.run_trades, hfresh, List.nil_append, forall_mem_outputs_iff]
  -- no call changes the limit, which is what carries over from call to call
  refine AtEachCall.mono (I := fun p : Objects Binary64 =>
    p.tracker.pnlTracker.maxExposure = o.tracker.pnlTracker.maxExposure) ?_ ?_ rfl h
  · exact fun p c hp => (Objects.step_maxExposure p c).trans hp
  · intro p c hp hc
    rw [← hp] at hM ⊢
    exact Objects.safeTrade_of_mem_recorded hM hc

/-- The objects of `main` with the tracker attached to the spot engine too. -/
def attachedObjects : Objects Binary64 :=
  { Objects.mainObjects with
    ethSynth := { Objects.mainObjects.ethSynth with pnlTracker := true } }

/-- A trade of the stream, its price a text. -/
def tradeMessage (symbol price : String) (timestamp : UInt64) : Option (Json Binary64) :=
  some (.object [("T", .numberUnsigned timestamp), ("p", .string price), ("q", .string "1"),
    ("s", .string symbol)])

def legsThen (ethusdt : String) : List (Option (Json Binary64)) :=
  [tradeMessage "ETHBTC" "0.05" 1000, tradeMessage "BTCUSDT" "40000" 1000,
    tradeMessage "ETHUSDT" ethusdt 1000]

/-- A price 10 below the synthetic one is traded, and safe. -/
theorem moneySafe_of_inRange_1990 :
    (run Objects.step attachedObjects (Binance.synthCalls (legsThen "1990"))
        ).tracker.pnlTracker.trades.length = 1 ∧
      MoneySafe attachedObjects (legsThen "1990") := by
  have hcalls : Binance.synthCalls (legsThen "1990") = [.update "ETHBTC" (ofRat (1 / 20)) 1000,
      .update "BTCUSDT" (ofRat 40000) 1000, .compareToReal (ofRat 1990) 1000] := by
    decide +kernel
  refine ⟨by decide +kernel, moneySafe_of_inRange (by decide +kernel) rfl _ ?_⟩
  rw [hcalls]
  refine ⟨trivial, trivial, fun _ => ⟨?_, ?_, ?_, .inl ?_⟩, trivial⟩ <;> decide +kernel

/-- At an ETHUSDT price of zero `recordTrade` divides by it. -/
theorem not_moneySafe_zero :
    (∀ c ∈ Binance.synthCalls (legsThen "0"), c.price.isFinite = true) ∧
      0 ≤ attachedObjects.tracker.pnlTracker.maxExposure ∧
      ¬ MoneySafe attachedObjects (legsThen "0") := by
  have htrade : (run Objects.step attachedObjects (Binance.synthCalls (legsThen "0"))
      ).tracker.pnlTracker.trades.map SimulatedTrade.exitPrice = [signedZero false] := by
    decide +kernel
  refine ⟨by decide +kernel, by decide +kernel, fun h => ?_⟩
  obtain ⟨trade, hmem, hexit⟩ :=
    List.mem_map.mp (htrade ▸ List.mem_singleton_self (signedZero false))
  exact (h trade hmem).divisor false hexit

theorem not_moneySafe_tiny : ¬ MoneySafe attachedObjects (legsThen "1e-306") := by
  have htrade : (run Objects.step attachedObjects (Binance.synthCalls (legsThen "1e-306"))
      ).tracker.pnlTracker.trades.map SimulatedTrade.pnl = [inf false] := by
    decide +kernel
  intro h
  obtain ⟨trade, hmem, hpnl⟩ := List.mem_map.mp (htrade ▸ List.mem_singleton_self (inf false))
  have hfinite := (h trade hmem).pnl
  rw [hpnl] at hfinite
  exact Bool.false_ne_true hfinite

end SyntheticArbitrage
