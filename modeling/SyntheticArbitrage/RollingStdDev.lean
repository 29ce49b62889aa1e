import SyntheticArbitrage.MathFunctions
import SyntheticArbitrage.Lib.Mean
import SyntheticArbitrage.Lib.Trace
import SyntheticArbitrage.Lib.Window
import SyntheticArbitrage.MockPnLEngine
import Mathlib.Data.List.GetD

/-!
# The rolling deviation of the pnls

`rollingStdDev` of `include/MockPnLEngine.hpp` goes over the last pnls twice, first with iterators
and then with an index.  Every read of an entry and every division is recorded as a call, since
the value alone does not tell of a read outside of the vector or of a zero divisor.

* `accumulate`, `sumSquares`: the two traversals.
* `ends_scan`: a traversal of a suffix reads its entries in order.
* `rollingStdDev_of_lt`, `rollingStdDev_of_le`: the value and the calls, in any arithmetic.
* `not_isFinite_foldl`: a sum with an infinity or a NaN in it is not finite.
* `rollingStdDev_exact_iff`: **for which histories and windows it is the deviation of the last
  pnls.**
-/

namespace SyntheticArbitrage

open Trace

/-! ## The source -/

/-- An operation that is not defined on all operands. -/
inductive StatOp (R : Type) where
  /-- The entry of `pnl_series` at a position is read. -/
  | read (position : ℤ)
  /-- A number is divided by this one. -/
  | divide (divisor : R)

/-- The position outside of the vector that was read. -/
structure OutOfRange where
  position : ℤ

/-- A computation on the entries of `pnl_series`. -/
abbrev Statistic (R : Type) := Trace OutOfRange (StatOp R)

section Model

variable {R : Type} [DoublePow R]

/-- The entry at a position, through an index or an iterator. -/
def readAt (series : List R) (position : ℤ) : Statistic R R := do
  emit (.read position)
  lift (if 0 ≤ position then
    match series[position.toNat]? with
    | some x => .ok x
    | none => .error ⟨position⟩
  else .error ⟨position⟩)

def divide (x y : R) : Statistic R R := do
  emit (.divide y)
  return x / y

/-- The difference of two `size_t`, which wraps when it is negative. -/
def sizeSub (a b : ℕ) : ℕ := if b ≤ a then a - b else a + 2 ^ 64 - b

/-- `std::accumulate` from the iterator at `first` to the one at `last`. -/
def accumulate (series : List R) (first last : ℤ) (init : R) : Statistic R R :=
  (List.range (last - first).toNat).foldlM (fun sum (k : ℕ) => do
    let x ← readAt series (first + k)
    return sum + x) init

/-- The loop over the index `i` from `first` to the end. -/
def sumSquares (series : List R) (mean : R) (first : ℕ) : Statistic R R :=
  (List.range' first (series.length - first)).foldlM (fun sum (i : ℕ) => do
    let x ← readAt series i
    return sum + DoublePow.pow (x - mean) (DoubleOps.ofInt 2)) 0

def MockPnLEngine.rollingStdDev (e : MockPnLEngine R) (window : UInt64) : Statistic R R :=
  let size := e.pnlSeries.length
  if size < window.toNat then
    return 0
  else do
    let total ← accumulate e.pnlSeries (size - window.toNat) size 0
    let mean ← divide total (DoubleOps.ofInt window.toNat)
    let sum ← sumSquares e.pnlSeries mean (sizeSub size window.toNat)
    let variance ← divide sum (DoubleOps.ofInt window.toNat)
    return DoubleMath.sqrt variance

/-! ## The two traversals -/

omit [DoublePow R] in
theorem ends_readAt {series : List R} {i : ℕ} (h : i < series.length) :
    Ends (readAt series i) [.read i] series[i] := by
  have hentry : readAt series i = emit (.read (i : ℤ)) >>= fun _ => lift (.ok series[i]) := by
    rw [readAt, if_pos (Int.natCast_nonneg i), Int.toNat_natCast, List.getElem?_eq_getElem h]
  rw [hentry]
  exact (ends_emit _).bind (ends_lift _)

theorem ends_divide (x y : R) : Ends (divide x y) [.divide y] (x / y) :=
  (ends_emit _).bind (ends_pure _)

/-- The reads of the entries from a position to the end. -/
def reads (series : List R) (first : ℕ) : List (StatOp R) :=
  (List.range' first (series.length - first)).map fun i : ℕ => .read i

omit [DoublePow R] in
theorem read_mem_reads {series : List R} {first : ℕ} {p : ℤ} :
    StatOp.read p ∈ reads series first ↔ first ≤ p ∧ p < series.length := by
  rw [reads, List.mem_map]
  constructor
  · rintro ⟨i, hi, hp⟩
    obtain rfl := StatOp.read.inj hp
    rw [List.mem_range'_1] at hi
    omega
  · intro hp
    refine ⟨p.toNat, ?_, congrArg StatOp.read (Int.toNat_of_nonneg (by omega))⟩
    rw [List.mem_range'_1]
    omega

omit [DoublePow R] in
theorem divide_not_mem_reads {series : List R} {first : ℕ} {d : R} :
    StatOp.divide d ∉ reads series first := by
  intro hd
  obtain ⟨i, -, hi⟩ := List.mem_map.mp hd
  cases hi

omit [DoublePow R] in
theorem map_getD_range' (series : List R) (first : ℕ) (d : R) :
    (List.range' first (series.length - first)).map (fun i => series.getD i d) =
      series.drop first := by
  apply List.ext_getElem
  · rw [List.length_map, List.length_range', List.length_drop]
  · intro i hi hi'
    rw [List.length_drop] at hi'
    rw [List.getElem_map, List.getElem_range', List.getElem_drop, Nat.one_mul,
      List.getD_eq_getElem _ _ (by omega)]

/-- **A traversal of a suffix** reads its entries in order, however it addresses them. -/
theorem ends_scan {series : List R} {steps : List ℕ} {pos : ℕ → ℤ} {first : ℕ}
    (hpos : steps.map pos = (List.range' first (series.length - first)).map Nat.cast)
    (f : R → R → R) (init : R) :
    Ends (steps.foldlM (fun acc k => do
        let x ← readAt series (pos k)
        return f acc x) init)
      (reads series first) ((series.drop first).foldl f init) := by
  have hstep : ∀ k ∈ steps, ∀ acc : R,
      Ends (readAt series (pos k) >>= fun x => (pure (f acc x) : Statistic R R))
        [.read (pos k)] (f acc (series.getD (pos k).toNat 0)) := by
    intro k hk acc
    have hmem : pos k ∈ (List.range' first (series.length - first)).map Nat.cast :=
      hpos ▸ List.mem_map_of_mem hk
    obtain ⟨i, hi, hik⟩ := List.mem_map.mp hmem
    have hlt : i < series.length := by
      rw [List.mem_range'_1] at hi
      omega
    rw [← hik, Int.toNat_natCast, List.getD_eq_getElem _ _ hlt]
    exact (ends_readAt hlt).map (f acc)
  have hreads : (steps.map pos).map StatOp.read = reads series first := by
    rw [hpos, List.map_map, reads]
    rfl
  have hvalues : (steps.map pos).map (fun p => series.getD p.toNat 0) = series.drop first := by
    rw [hpos, List.map_map, ← map_getD_range' series first 0]
    rfl
  rw [← hreads, ← hvalues, List.map_map, List.map_map, List.foldl_map]
  exact ends_foldlM hstep init

theorem ends_accumulate {series : List R} {n : ℕ} (h : n ≤ series.length) :
    Ends (accumulate series (series.length - n) series.length 0)
      (reads series (series.length - n))
      ((series.drop (series.length - n)).foldl (· + ·) 0) := by
  have hlen : ((series.length : ℤ) - (series.length - n)).toNat =
      series.length - (series.length - n) := by
    omega
  rw [accumulate, hlen]
  apply ends_scan
  rw [List.range'_eq_map_range, List.map_map]
  apply List.map_congr_left
  intro k _
  rw [Function.comp_apply]
  push_cast [h]
  ring

theorem ends_sumSquares (series : List R) (mean : R) (first : ℕ) :
    Ends (sumSquares series mean first) (reads series first)
      ((series.drop first).foldl
        (fun sum x => sum + DoublePow.pow (x - mean) (DoubleOps.ofInt 2)) 0) :=
  ends_scan rfl (fun sum x => sum + DoublePow.pow (x - mean) (DoubleOps.ofInt 2)) 0

/-! ## The function -/

namespace MockPnLEngine

variable {e : MockPnLEngine R} {window : UInt64}

/-- What is computed of some entries and their number. -/
def deviationOf (l : List R) (n : R) : R :=
  let mean := l.foldl (· + ·) 0 / n
  DoubleMath.sqrt
    (l.foldl (fun sum x => sum + DoublePow.pow (x - mean) (DoubleOps.ofInt 2)) 0 / n)

theorem rollingStdDev_of_lt (h : e.pnlSeries.length < window.toNat) :
    Ends (e.rollingStdDev window) [] 0 := by
  rw [rollingStdDev, if_pos h]
  exact ends_pure 0

theorem rollingStdDev_of_le (h : window.toNat ≤ e.pnlSeries.length) :
    Ends (e.rollingStdDev window)
      (reads e.pnlSeries (e.pnlSeries.length - window.toNat) ++
        ([.divide (DoubleOps.ofInt window.toNat)] ++
          (reads e.pnlSeries (e.pnlSeries.length - window.toNat) ++
            [.divide (DoubleOps.ofInt window.toNat)])))
      (deviationOf (Window.lastN window.toNat e.pnlSeries) (DoubleOps.ofInt window.toNat)) := by
  have hfirst : sizeSub e.pnlSeries.length window.toNat = e.pnlSeries.length - window.toNat :=
    if_pos h
  rw [rollingStdDev, if_neg (Nat.not_lt.mpr h), hfirst]
  -- the steps in order: the sum, the mean, the sum of the squares, the variance
  apply (ends_accumulate h).bind
  apply (ends_divide _ _).bind
  apply (ends_sumSquares _ _ _).bind
  exact (ends_divide _ _).map DoubleMath.sqrt

/-- **No entry outside of the vector is read**, for any window. -/
theorem rollingStdDev_reads (e : MockPnLEngine R) (window : UInt64) {p : ℤ}
    (hp : .read p ∈ (e.rollingStdDev window).calls) : 0 ≤ p ∧ p < e.pnlSeries.length := by
  by_cases h : window.toNat ≤ e.pnlSeries.length
  · rw [(rollingStdDev_of_le h).calls] at hp
    simp only [List.mem_append, List.mem_singleton, reduceCtorEq, or_false, false_or, or_self,
      read_mem_reads] at hp
    omega
  · rw [(rollingStdDev_of_lt (Nat.not_le.mp h)).calls] at hp
    cases hp

theorem rollingStdDev_divides (e : MockPnLEngine R) (window : UInt64) {d : R} :
    .divide d ∈ (e.rollingStdDev window).calls ↔
      window.toNat ≤ e.pnlSeries.length ∧ d = DoubleOps.ofInt window.toNat := by
  by_cases h : window.toNat ≤ e.pnlSeries.length
  · rw [(rollingStdDev_of_le h).calls, and_iff_right h]
    simp only [List.mem_append, List.mem_singleton, StatOp.divide.injEq, divide_not_mem_reads,
      false_or, or_self]
  · rw [(rollingStdDev_of_lt (Nat.not_le.mp h)).calls]
    exact iff_of_false List.not_mem_nil fun hd => h hd.1

end MockPnLEngine

end Model

/-! ## Sums with infinities and NaN -/

namespace Extended

theorem fin_div_fin (a : ℝ) {b : ℝ} (hb : b ≠ 0) : fin a / fin b = fin (a / b) := by
  show div (fin a) (fin b) = fin (a / b)
  simp only [div, if_neg hb]

theorem pow_two_fin (a : ℝ) : DoublePow.pow (fin a) (DoubleOps.ofInt 2) = fin (a ^ 2) := by
  show fin (a ^ ((2 : ℤ) : ℝ)) = fin (a ^ 2)
  rw [Int.cast_ofNat, Real.rpow_two]

theorem not_isFinite_add_left {x : Extended ℝ} (hx : ¬ x.IsFinite) (y : Extended ℝ) :
    ¬ (x + y).IsFinite := by
  rintro ⟨q, hq⟩
  cases x with
  | fin a => exact hx ⟨a, rfl⟩
  | inf s =>
    cases y with
    | fin b => cases hq
    | inf t =>
      change (if s = t then inf s else nan) = fin q at hq
      split at hq <;> cases hq
    | nan => cases hq
  | nan => cases y <;> cases hq

theorem not_isFinite_add_right (x : Extended ℝ) {y : Extended ℝ} (hy : ¬ y.IsFinite) :
    ¬ (x + y).IsFinite := by
  by_cases hx : x.IsFinite
  · rintro ⟨q, hq⟩
    obtain ⟨a, rfl⟩ := hx
    cases y with
    | fin b => exact hy ⟨b, rfl⟩
    | inf t => cases hq
    | nan => cases hq
  · exact not_isFinite_add_left hx y

theorem not_isFinite_neg {x : Extended ℝ} (hx : ¬ x.IsFinite) : ¬ (neg x).IsFinite := by
  rintro ⟨q, hq⟩
  cases x with
  | fin a => exact hx ⟨a, rfl⟩
  | inf s => cases hq
  | nan => cases hq

theorem not_isFinite_div {x : Extended ℝ} (hx : ¬ x.IsFinite) (b : ℝ) : ¬ (x / fin b).IsFinite := by
  rintro ⟨q, hq⟩
  cases x with
  | fin a => exact hx ⟨a, rfl⟩
  | inf s => cases hq
  | nan => cases hq

theorem sub_fin (a b : ℝ) : fin a - fin b = fin (a - b) := congrArg fin (sub_eq_add_neg a b).symm

theorem not_isFinite_div_zero (x : Extended ℝ) : ¬ (x / fin 0).IsFinite := by
  rintro ⟨q, hq⟩
  change div x (fin 0) = fin q at hq
  cases x with
  | fin a =>
    rw [div, if_pos rfl] at hq
    split at hq <;> cases hq
  | inf s => cases hq
  | nan => cases hq

theorem not_isFinite_mul (a : ℝ) {y : Extended ℝ} (hy : ¬ y.IsFinite) : ¬ (fin a * y).IsFinite := by
  rintro ⟨q, hq⟩
  change mul (fin a) y = fin q at hq
  cases y with
  | fin b => exact hy ⟨b, rfl⟩
  | inf t =>
    rw [mul] at hq
    split at hq <;> cases hq
  | nan => cases hq

theorem not_isFinite_pow_two {x : Extended ℝ} (hx : ¬ x.IsFinite) :
    ¬ (DoublePow.pow x (DoubleOps.ofInt 2)).IsFinite := by
  have htwo : ¬ ((2 : ℤ) : ℝ) = 0 ∧ ¬ ((2 : ℤ) : ℝ) < 0 := by norm_num
  rintro ⟨q, hq⟩
  change pow x (fin ((2 : ℤ) : ℝ)) = fin q at hq
  cases x with
  | fin a => exact hx ⟨a, rfl⟩
  | inf s =>
    rw [pow, if_neg htwo.1, if_neg htwo.2] at hq
    cases hq
  | nan =>
    rw [pow, if_neg htwo.1] at hq
    cases hq

theorem not_isFinite_sqrt {x : Extended ℝ} (hx : ¬ x.IsFinite) : ¬ (sqrt x).IsFinite := by
  rintro ⟨q, hq⟩
  cases x with
  | fin a => exact hx ⟨a, rfl⟩
  | inf s => cases s <;> cases hq
  | nan => cases hq

theorem foldl_fin (g : Extended ℝ → Extended ℝ) {f : ℝ → ℝ} (hg : ∀ x, g (fin x) = fin (f x))
    (l : List ℝ) (init : ℝ) :
    (l.map fin).foldl (fun sum x => sum + g x) (fin init) = fin (init + (l.map f).sum) := by
  induction l generalizing init with
  | nil => simp
  | cons x l ih =>
    rw [List.map_cons, List.foldl_cons, hg, List.map_cons, List.sum_cons, ← add_assoc]
    exact ih (init + f x)

theorem not_isFinite_foldl (g : Extended ℝ → Extended ℝ) {l : List (Extended ℝ)} {x : Extended ℝ}
    (hx : x ∈ l) (hg : ¬ (g x).IsFinite) (init : Extended ℝ) :
    ¬ (l.foldl (fun sum x => sum + g x) init).IsFinite := by
  have hkeep : ∀ (l : List (Extended ℝ)) (init : Extended ℝ), ¬ init.IsFinite →
      ¬ (l.foldl (fun sum x => sum + g x) init).IsFinite := by
    intro l
    induction l with
    | nil => exact fun _ h => h
    | cons y l ih => exact fun init h => ih (init + g y) (not_isFinite_add_left h _)
  induction l generalizing init with
  | nil => cases hx
  | cons y l ih =>
    rw [List.foldl_cons]
    obtain rfl | hmem := List.mem_cons.mp hx
    · exact hkeep l _ (not_isFinite_add_right init hg)
    · exact ih hmem _

end Extended

/-! ## The deviation in exact arithmetic -/

namespace MockPnLEngine

open Extended

theorem deviationOf_fin {l : List ℝ} (hne : l ≠ []) :
    deviationOf (l.map fin) (DoubleOps.ofInt l.length) = fin √(Mean.variance l) := by
  have hlen : (l.length : ℝ) ≠ 0 := (Mean.length_cast_pos hne).ne'
  have hn : (DoubleOps.ofInt l.length : Extended ℝ) = fin (l.length : ℝ) :=
    congrArg fin (Int.cast_natCast _)
  have hmean : (l.map fin).foldl (· + ·) 0 / DoubleOps.ofInt l.length = fin (Mean.mean l) := by
    have hsum := foldl_fin id (f := id) (fun _ => rfl) l 0
    rw [zero_add, List.map_id] at hsum
    rw [hn, Mean.mean, ← fin_div_fin _ hlen, ← hsum]
    rfl
  have hsquares := foldl_fin (fun x => DoublePow.pow (x - fin (Mean.mean l)) (DoubleOps.ofInt 2))
    (f := fun x => (x - Mean.mean l) ^ 2) (fun x => by
      rw [sub_eq_add_neg x, ← pow_two_fin]
      rfl) l 0
  rw [zero_add] at hsquares
  rw [deviationOf, hmean]
  rw [show (0 : Extended ℝ) = fin 0 from rfl, hsquares, hn, fin_div_fin _ hlen, ← Mean.variance_eq]
  exact if_neg (not_lt.mpr (Mean.variance_nonneg l))

theorem not_isFinite_deviationOf {l : List (Extended ℝ)} {x : Extended ℝ} (hx : x ∈ l)
    (hinf : ¬ x.IsFinite) (n : ℝ) : ¬ (deviationOf l (fin n)).IsFinite := by
  refine not_isFinite_sqrt (not_isFinite_div (not_isFinite_foldl _ hx ?_ 0) n)
  refine not_isFinite_pow_two (not_isFinite_add_right x (not_isFinite_neg (not_isFinite_div ?_ n)))
  exact not_isFinite_foldl id hx hinf 0

/-- What `rollingStdDev` is for, on an engine that has recorded trades with these pnls. -/
structure RollingExact (pnls : List (Extended ℝ)) (e : MockPnLEngine (Extended ℝ))
    (window : UInt64) : Prop where
  /-- Nothing is divided by zero. -/
  divides : ∀ d : Extended ℝ, .divide d ∈ (e.rollingStdDev window).calls → d ≠ 0
  /-- No entry outside of `pnl_series` is read. -/
  reads : ∀ p : ℤ, .read p ∈ (e.rollingStdDev window).calls → 0 ≤ p ∧ p < e.pnlSeries.length
  few : pnls.length < window.toNat → (e.rollingStdDev window).result = .ok 0
  /-- Otherwise the value is the standard deviation of the last `window` pnls. -/
  deviation : window.toNat ≤ pnls.length → ∃ (v : ℝ) (xs : List ℝ),
    (e.rollingStdDev window).result = .ok (fin v) ∧ 0 ≤ v ∧
    Window.lastN window.toNat pnls = xs.map fin ∧ v ^ 2 = Mean.variance xs ∧
    (∀ c : ℝ, (rollingStdDev { e with pnlSeries := e.pnlSeries.map (· + fin c) } window).result =
      .ok (fin v)) ∧
    (v = 0 ↔ ∀ x ∈ xs, ∀ y ∈ xs, x = y)

theorem divide_zero_mem (e : MockPnLEngine (Extended ℝ)) :
    .divide 0 ∈ (e.rollingStdDev 0).calls := by
  rw [rollingStdDev_divides]
  exact ⟨Nat.zero_le _, congrArg fin Int.cast_zero.symm⟩

theorem rollingStdDev_result {e : MockPnLEngine (Extended ℝ)} {window : UInt64}
    (hw : window ≠ 0) (h : window.toNat ≤ e.pnlSeries.length) {xs : List ℝ}
    (hxs : Window.lastN window.toNat e.pnlSeries = xs.map fin) :
    (e.rollingStdDev window).result = .ok (fin √(Mean.variance xs)) := by
  have hlen : xs.length = window.toNat := by
    rw [← List.length_map (f := fin), ← hxs, Window.lastN_length, Nat.min_eq_right h]
  have hne : xs ≠ [] := by
    rintro rfl
    exact hw (UInt64.toNat_inj.mp hlen.symm)
  rw [(rollingStdDev_of_le h).result, hxs, ← hlen, deviationOf_fin hne]

/-- **The value is exact** when the window is not zero and the pnls in it are finite, and only
then. -/
theorem rollingExact_iff (e : MockPnLEngine (Extended ℝ)) (window : UInt64) :
    RollingExact e.pnlSeries e window ↔ window ≠ 0 ∧ (window.toNat ≤ e.pnlSeries.length →
      ∀ x ∈ Window.lastN window.toNat e.pnlSeries, x.IsFinite) := by
  constructor
  · intro h
    refine ⟨?_, fun hle x hx => ?_⟩
    · rintro rfl
      exact h.divides 0 (divide_zero_mem e) rfl
    · by_contra hinf
      obtain ⟨v, xs, hresult, -⟩ := h.deviation hle
      rw [(rollingStdDev_of_le hle).result, Except.ok.injEq] at hresult
      exact not_isFinite_deviationOf hx hinf _ ⟨v, hresult⟩
  · rintro ⟨hw, hfinite⟩
    refine ⟨?_, fun p hp => rollingStdDev_reads e window hp,
      fun h => (rollingStdDev_of_lt h).result, fun h => ?_⟩
    · intro d hd
      obtain ⟨-, rfl⟩ := (rollingStdDev_divides e window).mp hd
      intro hzero
      have hcast : ((window.toNat : ℤ) : ℝ) = 0 := Extended.fin.inj hzero
      exact hw (UInt64.toNat_inj.mp (by exact_mod_cast hcast))
    · obtain ⟨xs, hxs⟩ : ∃ xs : List ℝ, xs.map fin = Window.lastN window.toNat e.pnlSeries := by
        have hmem : Window.lastN window.toNat e.pnlSeries ∈ Set.range (List.map fin) := by
          rw [Set.range_list_map]
          intro x hx
          obtain ⟨q, hq⟩ := hfinite h x hx
          exact ⟨q, hq.symm⟩
        exact hmem
      have hnonneg := Mean.variance_nonneg xs
      refine ⟨√(Mean.variance xs), xs, rollingStdDev_result hw h hxs.symm, Real.sqrt_nonneg _,
        hxs.symm, Real.sq_sqrt hnonneg, fun c => ?_, ?_⟩
      · have hlast : Window.lastN window.toNat (e.pnlSeries.map (· + fin c)) =
            (xs.map (· + c)).map fin := by
          rw [Window.lastN, List.length_map, ← List.map_drop, ← Window.lastN, ← hxs, List.map_map,
            List.map_map]
          rfl
        rw [rollingStdDev_result hw (by rwa [List.length_map]) hlast, Mean.variance_map_add_const]
      · rw [Real.sqrt_eq_zero hnonneg, Mean.variance_eq_zero_iff]

end MockPnLEngine

/-! ## After any history -/

open Extended

def TradeCall.exact (c : TradeCall ℝ) : TradeCall (Extended ℝ) :=
  ⟨c.symbol, fin c.syntheticPrice, fin c.realPrice, c.timestamp, c.direction⟩

theorem pnl_isFinite_iff (maxExposure : ℝ) (c : TradeCall ℝ) :
    (c.exact.trade (fin maxExposure)).pnl.IsFinite ↔ c.realPrice ≠ 0 := by
  obtain ⟨symbol, s, r, ts, direction⟩ := c
  rw [TradeCall.exact, TradeCall.trade, simulate]
  dsimp only
  constructor
  · rintro hpnl rfl
    revert hpnl
    split
    · exact not_isFinite_mul _ (not_isFinite_div_zero _)
    · exact not_isFinite_mul _ (not_isFinite_div_zero _)
  · intro hr
    obtain ⟨q, hq⟩ : ∃ q : ℝ, stdMin (DoubleOps.abs (fin r - fin s) / fin r * DoubleOps.lit 100.0)
        (fin maxExposure) = fin q := by
      rw [sub_fin, show DoubleOps.abs (fin (r - s)) = fin |r - s| from rfl, fin_div_fin _ hr,
        stdMin]
      split
      · exact ⟨_, rfl⟩
      · exact ⟨_, rfl⟩
    rw [hq, fin_div_fin _ hr, sub_fin, sub_fin]
    split
    · exact ⟨_, rfl⟩
    · exact ⟨_, rfl⟩

/-- **The rolling deviation after any history** is the deviation of the last pnls exactly for the
windows other than zero in which no trade has a real price of zero. -/
theorem rollingStdDev_exact_iff (maxExposure : ℝ) (externalLog hasLogger : Bool)
    (logFile : OutFile (Extended ℝ)) (arbLogger : ArbLogger (Extended ℝ))
    (calls : List (TradeCall ℝ)) (window : UInt64) :
    MockPnLEngine.RollingExact
      (calls.map fun c => (c.exact.trade (fin maxExposure)).pnl)
      (run Tracker.record
        { pnlTracker :=
            { MockPnLEngine.new (fin maxExposure) with externalLog, arbLogger := hasLogger }
          logFile, arbLogger } (calls.map TradeCall.exact)).pnlTracker window ↔
      window ≠ 0 ∧ (window.toNat ≤ calls.length →
        ∀ c ∈ Window.lastN window.toNat calls, c.realPrice ≠ 0) := by
  have hseries := Tracker.run_record_pnlSeries
    { pnlTracker := { MockPnLEngine.new (fin maxExposure) with externalLog, arbLogger := hasLogger }
      logFile, arbLogger } (calls.map TradeCall.exact)
  rw [List.map_map] at hseries
  have hiff := MockPnLEngine.rollingExact_iff (run Tracker.record
    { pnlTracker := { MockPnLEngine.new (fin maxExposure) with externalLog, arbLogger := hasLogger }
      logFile, arbLogger } (calls.map TradeCall.exact)).pnlTracker window
  rw [hseries] at hiff
  have hlast : Window.lastN window.toNat
      (calls.map fun c => (c.exact.trade (fin maxExposure)).pnl) =
        (Window.lastN window.toNat calls).map fun c => (c.exact.trade (fin maxExposure)).pnl := by
    rw [Window.lastN, Window.lastN, List.length_map, List.map_drop]
  refine hiff.trans (and_congr_right' ?_)
  show (_ ≤ (calls.map _).length → ∀ x ∈ Window.lastN window.toNat
    (calls.map fun c => (c.exact.trade (fin maxExposure)).pnl), x.IsFinite) ↔ _
  rw [hlast, List.length_map, List.forall_mem_map]
  simp only [pnl_isFinite_iff]

/-- One trade, and a window of zero. -/
theorem not_rollingExact_zero :
    ¬ MockPnLEngine.RollingExact
      [((⟨"ETHUSDT", 99, 100, 1000, "BUY"⟩ : TradeCall ℝ).exact.trade (fin 5000)).pnl]
      (run Tracker.record ⟨MockPnLEngine.new (fin 5000), {}, {}⟩
        [(⟨"ETHUSDT", 99, 100, 1000, "BUY"⟩ : TradeCall ℝ).exact]).pnlTracker 0 :=
  fun h => h.divides 0 (MockPnLEngine.divide_zero_mem _) rfl

end SyntheticArbitrage
