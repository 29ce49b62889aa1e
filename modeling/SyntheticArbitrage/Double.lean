import Mathlib.Algebra.Order.Ring.Rat
import Mathlib.Algebra.Field.Rat
import Mathlib.Tactic.Common

/-!
# The numbers the engines compute with

The engines compute with `double`.  They are written here over any type `R` with the operations
they use (`DoubleOps R`), so what does not depend on the arithmetic is said of every reading of
`double`, the machine's own included.  Two readings are given:

* `ℚ`: exact arithmetic on finite numbers, the reading of every statement in exact arithmetic.
* `XDouble`: exact arithmetic with the infinities and the NaN of a `double` (`Extended`), so that a
  division by zero and a non-finite input have the result they have on the machine.

`DoubleScan R` adds what the feed handlers need to read a number from a text.
-/

namespace SyntheticArbitrage

/-- The operations on `double` that the engines use. -/
class DoubleOps (R : Type) extends Zero R, Add R, Neg R, Sub R, Mul R, Div R, LE R, LT R where
  /-- `std::abs` -/
  abs : R → R
  /-- A decimal literal of the source. -/
  lit : ℚ → R
  /-- Conversion from an integer type. -/
  ofInt : ℤ → R
  decLE : DecidableRel (α := R) (· ≤ ·)
  decLT : DecidableRel (α := R) (· < ·)

instance decidableLE {R : Type} [DoubleOps R] (a b : R) : Decidable (a ≤ b) := DoubleOps.decLE a b

instance decidableLT {R : Type} [DoubleOps R] (a b : R) : Decidable (a < b) := DoubleOps.decLT a b

/-- `std::max`: the first argument, unless it is below the second. -/
def stdMax {R : Type} [DoubleOps R] (a b : R) : R := if a < b then b else a

/-- `std::min`: the first argument, unless the second is below it. -/
def stdMin {R : Type} [DoubleOps R] (a b : R) : R := if b < a then b else a

/-- What the feed handlers need of `double` besides the arithmetic. -/
class DoubleScan (R : Type) extends DoubleOps R where
  /-- The number of a numeral; `none` when `strtod` reports a range error. -/
  ofNumeral : ℚ → Option R
  infinity : R
  nan : R
  /-- `static_cast<std::uint64_t>` -/
  toUInt64 : R → UInt64

/-- What the funding feed needs besides. -/
class DoubleToInt (R : Type) extends DoubleScan R where
  /-- `static_cast<int>` -/
  toInt32 : R → Int32

/-! ## Exact arithmetic -/

instance : DoubleOps ℚ where
  abs := fun x => |x|
  lit := fun q => q
  ofInt := fun n => n
  decLE := inferInstance
  decLT := inferInstance

namespace Exact

@[simp] theorem abs_eq (x : ℚ) : DoubleOps.abs x = |x| := rfl

@[simp] theorem lit_eq (q : ℚ) : (DoubleOps.lit q : ℚ) = q := rfl

@[simp] theorem ofInt_eq (n : ℤ) : (DoubleOps.ofInt n : ℚ) = n := rfl

@[simp] theorem stdMax_eq (a b : ℚ) : stdMax a b = max a b := by
  rw [stdMax]
  split
  · next h => exact (max_eq_right (le_of_lt h)).symm
  · next h => exact (max_eq_left (not_lt.mp h)).symm

@[simp] theorem stdMin_eq (a b : ℚ) : stdMin a b = min a b := by
  rw [stdMin]
  split
  · next h => exact (min_eq_right (le_of_lt h)).symm
  · next h => exact (min_eq_left (not_lt.mp h)).symm

end Exact

/-! ## Exact arithmetic with infinities and NaN -/

/-- A `double` without rounding: an exact finite number, an infinity with its sign, or NaN. -/
inductive Extended (K : Type) where
  | fin (q : K)
  | inf (negative : Bool)
  | nan
  deriving DecidableEq

abbrev XDouble := Extended ℚ

namespace Extended

section Operations

variable {K : Type} [Field K] [LinearOrder K]

def add : Extended K → Extended K → Extended K
  | fin a, fin b => fin (a + b)
  | inf s, inf t => if s = t then inf s else nan
  | inf s, fin _ => inf s
  | fin _, inf t => inf t
  | nan, _ => nan
  | _, nan => nan

def neg : Extended K → Extended K
  | fin a => fin (-a)
  | inf s => inf (!s)
  | nan => nan

def mul : Extended K → Extended K → Extended K
  | fin a, fin b => fin (a * b)
  | inf s, inf t => inf (s != t)
  | inf s, fin b => if b = 0 then nan else inf (s != decide (b < 0))
  | fin a, inf t => if a = 0 then nan else inf (decide (a < 0) != t)
  | nan, _ => nan
  | _, nan => nan

/-- Division.  A zero divisor is taken as a positive zero. -/
def div : Extended K → Extended K → Extended K
  | fin a, fin b => if b = 0 then (if a = 0 then nan else inf (decide (a < 0))) else fin (a / b)
  | inf _, inf _ => nan
  | inf s, fin b => inf (s != decide (b < 0))
  | fin _, inf _ => fin 0
  | nan, _ => nan
  | _, nan => nan

/-- `a < b`: false as soon as one side is NaN. -/
def lt : Extended K → Extended K → Bool
  | fin a, fin b => decide (a < b)
  | inf s, inf t => s && !t
  | inf s, fin _ => s
  | fin _, inf t => !t
  | nan, _ => false
  | _, nan => false

/-- `a <= b`: false as soon as one side is NaN. -/
def le : Extended K → Extended K → Bool
  | fin a, fin b => decide (a ≤ b)
  | inf s, inf t => s || !t
  | inf s, fin _ => s
  | fin _, inf t => !t
  | nan, _ => false
  | _, nan => false

def abs : Extended K → Extended K
  | fin a => fin |a|
  | inf _ => inf false
  | nan => nan

end Operations

instance : DoubleScan XDouble where
  zero := fin 0
  add := add
  neg := neg
  sub := fun a b => add a (neg b)
  mul := mul
  div := div
  le := fun a b => le a b = true
  lt := fun a b => lt a b = true
  abs := abs
  lit := fin
  ofInt := fun n => fin n
  decLE := fun a b => inferInstanceAs (Decidable (le a b = true))
  decLT := fun a b => inferInstanceAs (Decidable (lt a b = true))
  ofNumeral := fun q => some (fin q)
  infinity := inf false
  nan := nan
  toUInt64 := fun x => match x with
    | fin q => UInt64.ofInt (q.num.tdiv q.den)
    | _ => 0

instance : DoubleToInt XDouble where
  toInt32 := fun x => match x with
    | fin q => Int32.ofInt (q.num.tdiv q.den)
    | _ => 0

/-! ### Finite numbers -/

/-- The number is neither an infinity nor NaN. -/
def IsFinite {K : Type} (x : Extended K) : Prop := ∃ q : K, x = fin q

@[simp] theorem fin_add_fin (a b : ℚ) : (fin a + fin b : XDouble) = fin (a + b) := rfl

@[simp] theorem fin_sub_fin (a b : ℚ) : (fin a - fin b : XDouble) = fin (a - b) :=
  congrArg fin (sub_eq_add_neg a b).symm

@[simp] theorem zero_eq : (0 : XDouble) = fin 0 := rfl

@[simp] theorem fin_le_fin {a b : ℚ} : (fin a ≤ (fin b : XDouble)) ↔ a ≤ b := decide_eq_true_iff

@[simp] theorem fin_lt_fin {a b : ℚ} : (fin a < (fin b : XDouble)) ↔ a < b := decide_eq_true_iff

end Extended

end SyntheticArbitrage
