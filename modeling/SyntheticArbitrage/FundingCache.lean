import SyntheticArbitrage.Double
import Mathlib.Logic.Function.Basic

/-!
# The funding cache

`src/utils/funding_cache.hpp` and `src/engine/synthetic_pricing.cpp`: the last funding rate of each
symbol, and the price that is adjusted by it.
-/

namespace SyntheticArbitrage

structure FundingInfo (R : Type) where
  rate : R
  /-- In milliseconds, the `rep` of `std::chrono::milliseconds`. -/
  nextFundingTime : Int64
  deriving DecidableEq

structure FundingCache (R : Type) where
  rates : String → Option (FundingInfo R) := fun _ => none

namespace FundingCache

variable {R : Type}

def update (c : FundingCache R) (symbol : String) (rate : R) (nextTime : Int64) :
    FundingCache R where
  rates := Function.update c.rates symbol (some ⟨rate, nextTime⟩)

variable [DoubleOps R]

/-- `get`: a symbol without an entry has `FundingInfo{}`. -/
def get (c : FundingCache R) (symbol : String) : FundingInfo R := (c.rates symbol).getD ⟨0, 0⟩

@[simp] theorem get_update (c : FundingCache R) (symbol : String) (rate : R) (nextTime : Int64) :
    (c.update symbol rate nextTime).get symbol = ⟨rate, nextTime⟩ := by
  simp [get, update]

end FundingCache

/-- `compute_synthetic_price` -/
def computeSyntheticPrice {R : Type} [DoubleOps R] (perpPrice : R) (symbol : String)
    (funding : FundingCache R) : R :=
  let info := funding.get symbol
  perpPrice * (DoubleOps.lit 1.0 - info.rate)

end SyntheticArbitrage
