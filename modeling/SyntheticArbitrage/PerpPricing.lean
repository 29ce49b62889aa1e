import SyntheticArbitrage.Lib.Clock
import SyntheticArbitrage.SyntheticPerpEngine
import Mathlib.Tactic.NormNum
import Mathlib.Tactic.Ring

/-!
# The two prices of the synthetic perpetual

`updateMark` and `getSynthetic` price the perpetual by the same formula.  The first subtracts the
times as unsigned 64-bit integers, the second as `double`s, so they part when the funding time has
passed.

* `Received`: spot and funding have been received.
* `updateMark_report`: the price that `updateMark` computes, with the wrap.
* `pricesAgree_iff`: when the two agree.
-/

namespace SyntheticArbitrage.SyntheticPerpEngine

/-- Spot and funding have been received, with these values. -/
structure Received {R : Type} (e : SyntheticPerpEngine R) (spot rate : R) (nextFunding : UInt64) :
    Prop where
  spot : e.spot = some spot
  rate : e.fundingRate = some rate
  nextFunding : e.nextFunding = some nextFunding
  readySpot : e.readySpot = true
  readyFunding : e.readyFunding = true

/-- The price and the delta that `updateMark` computes at `t` are those of `getSynthetic` at clock
time `t`. -/
def PricesAgree (e : SyntheticPerpEngine ℚ) (lastAlert : UInt64) (markPrice : ℚ) (t : UInt64) :
    Prop :=
  ∃ printed, (e.updateMark lastAlert markPrice t).2.2 = some printed ∧
    printed.synthetic = e.getSynthetic t.toInt64 ∧
    printed.delta = markPrice - e.getSynthetic t.toInt64

/-- The price of the perpetual when `ms` milliseconds remain until the funding. -/
def fairPrice (spot rate : ℚ) (ms : ℤ) : ℚ := spot + rate * spot * (ms / 3600000)

variable {e : SyntheticPerpEngine ℚ} {spot rate : ℚ} {nextFunding : UInt64}

theorem updateMark_report (h : e.Received spot rate nextFunding) (lastAlert : UInt64)
    (markPrice : ℚ) (t : UInt64) :
    ∃ printed, (e.updateMark lastAlert markPrice t).2.2 = some printed ∧
      printed.synthetic = fairPrice spot rate (nextFunding - t).toNat ∧
      printed.delta = markPrice - printed.synthetic := by
  refine ⟨(e.report spot rate nextFunding lastAlert markPrice t).2, ?_, ?_, rfl⟩
  · simp only [updateMark, h.readySpot, h.readyFunding, and_self, dite_true, h.nextFunding, h.spot,
      h.rate, Option.get_some]
  · simp only [report, fairPrice, Exact.ofInt_eq, Exact.lit_eq]
    norm_num

theorem getSynthetic_eq (h : e.Received spot rate nextFunding) {t : UInt64}
    (ht : t.toNat < 2 ^ 63) :
    e.getSynthetic t.toInt64 = fairPrice spot rate (nextFunding.toNat - t.toNat) := by
  have hclock := Clock.toInt_toInt64_of_lt ht
  simp only [getSynthetic, h.readySpot, h.readyFunding, and_self, dite_true, h.nextFunding, h.spot,
    h.rate, Option.get_some, hclock, fairPrice, Exact.ofInt_eq, Exact.lit_eq]
  push_cast
  norm_num

theorem fairPrice_eq_iff {a b : ℤ} :
    fairPrice spot rate a = fairPrice spot rate b ↔ a = b ∨ rate * spot = 0 := by
  rw [fairPrice, fairPrice, add_right_inj, mul_eq_mul_left_iff,
    div_left_inj' (by norm_num : (3600000 : ℚ) ≠ 0), Int.cast_inj]

/-- **When the two prices of the perpetual agree**: exactly when the funding time has not passed, or
rate times spot is zero.  The one that keeps the formula is `getSynthetic`. -/
theorem pricesAgree_iff (h : e.Received spot rate nextFunding) (lastAlert : UInt64) (markPrice : ℚ)
    {t : UInt64} (ht : t.toNat < 2 ^ 63) :
    e.getSynthetic t.toInt64 =
        spot + rate * spot * (((nextFunding.toNat : ℤ) - t.toNat : ℤ) / 3600000) ∧
      (PricesAgree e lastAlert markPrice t ↔ t ≤ nextFunding ∨ rate * spot = 0) := by
  obtain ⟨printed, hprinted, hsynthetic, hdelta⟩ := updateMark_report h lastAlert markPrice t
  refine ⟨getSynthetic_eq h ht, ?_⟩
  rw [← Clock.toNat_sub_eq_iff, ← fairPrice_eq_iff, ← hsynthetic, ← getSynthetic_eq h ht]
  constructor
  · rintro ⟨printed', hprinted', heq, -⟩
    rw [hprinted, Option.some.injEq] at hprinted'
    rw [hprinted', heq]
  · intro heq
    exact ⟨printed, hprinted, heq, by rw [hdelta, heq]⟩

/-- An engine with spot 40000 and rate 0.0001 until time 1000. -/
def funded : SyntheticPerpEngine ℚ := ((new 1).updateSpot 40000).updateFunding (1 / 10000) 1000

theorem funded_received : funded.Received 40000 (1 / 10000) 1000 := ⟨rfl, rfl, rfl, rfl, rfl⟩

/-- One millisecond before the funding the two agree. -/
theorem pricesAgree_iff_before :
    funded.Received 40000 (1 / 10000) 1000 ∧ (999 : UInt64).toNat < 2 ^ 63 ∧
      PricesAgree funded 0 40000 999 :=
  ⟨funded_received, by decide,
    (pricesAgree_iff funded_received 0 40000 (t := 999) (by decide)).2.mpr (Or.inl (by decide))⟩

/-- One millisecond after the funding they do not. -/
theorem not_pricesAgree_after : ¬ PricesAgree funded 0 40000 1001 := by
  intro h
  obtain ⟨printed, hprinted, hsynthetic, -⟩ := h
  revert hsynthetic
  cases hprinted
  decide +kernel

end SyntheticArbitrage.SyntheticPerpEngine
