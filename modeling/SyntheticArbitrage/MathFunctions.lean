import SyntheticArbitrage.Double
import SyntheticArbitrage.Lib.Erfc
import Mathlib.Analysis.SpecialFunctions.Pow.Real

/-!
# The functions of `<cmath>`

The option pricer and the rolling deviation apply transcendental functions to `double`s.  They are
written over any type with these functions, and read in exact arithmetic over `ℝ`, for the rolling
deviation with the infinities and the NaN of a `double`.
-/

namespace SyntheticArbitrage

/-- What the pricer needs of `double` besides the arithmetic. -/
class DoubleMath (R : Type) extends DoubleOps R where
  log : R → R
  exp : R → R
  sqrt : R → R
  erfc : R → R

/-- What the rolling deviation needs besides `sqrt`. -/
class DoublePow (R : Type) extends DoubleMath R where
  /-- `std::pow` -/
  pow : R → R → R

/-- The exact functions.  Outside the domain of `log` and `sqrt` their values mean nothing. -/
noncomputable instance : DoubleMath ℝ where
  abs := fun x => |x|
  lit := fun q => q
  ofInt := fun n => n
  decLE := Classical.decRel _
  decLT := Classical.decRel _
  log := Real.log
  exp := Real.exp
  sqrt := Real.sqrt
  erfc := Erfc.erfc

/-! ## With infinities and NaN -/

namespace Extended

noncomputable def log : Extended ℝ → Extended ℝ
  | fin a => if a < 0 then nan else if a = 0 then inf true else fin (Real.log a)
  | inf s => if s then nan else inf false
  | nan => nan

noncomputable def exp : Extended ℝ → Extended ℝ
  | fin a => fin (Real.exp a)
  | inf s => if s then fin 0 else inf false
  | nan => nan

noncomputable def sqrt : Extended ℝ → Extended ℝ
  | fin a => if a < 0 then nan else fin √a
  | inf s => if s then nan else inf false
  | nan => nan

noncomputable def erfc : Extended ℝ → Extended ℝ
  | fin a => fin (Erfc.erfc a)
  | inf s => if s then fin (1 + 1) else fin 0
  | nan => nan

open Classical in
/-- `std::pow`.  Its values mean nothing for an exponent that is not finite. -/
noncomputable def pow : Extended ℝ → Extended ℝ → Extended ℝ
  | fin a, fin b => fin (a ^ b)
  | inf s, fin b =>
    if b = 0 then fin 1
    else if b < 0 then fin 0
    else inf (s && decide (∃ n : ℤ, b = ((n + n + 1 : ℤ) : ℝ)))
  | nan, fin b => if b = 0 then fin 1 else nan
  | _, _ => nan

noncomputable instance : DoublePow (Extended ℝ) where
  zero := fin 0
  add := add
  neg := neg
  sub := fun a b => add a (neg b)
  mul := mul
  div := div
  le := fun a b => le a b = true
  lt := fun a b => lt a b = true
  abs := abs
  lit := fun q => fin q
  ofInt := fun n => fin n
  decLE := fun a b => inferInstanceAs (Decidable (le a b = true))
  decLT := fun a b => inferInstanceAs (Decidable (lt a b = true))
  log := log
  exp := exp
  sqrt := sqrt
  erfc := erfc
  pow := pow

end Extended

end SyntheticArbitrage
