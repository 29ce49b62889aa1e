import Mathlib.Algebra.BigOperators.Group.List.Basic
import Mathlib.Algebra.Order.AbsoluteValue.Basic
import Mathlib.Algebra.Order.BigOperators.Group.List
import Mathlib.Algebra.Order.Field.Basic

/-!
# The mean and the variance of a list

* `le_mean`, `mean_le`: bounds of the items of a list are bounds of its mean.
* `abs_mean_lt`: so is a strict bound of the sizes of the items.
* `variance`: the mean square of the distances from the mean.
* `variance_map_add_const`, `variance_eq_zero_iff`: it does not see a constant that is added to all
  items, and is zero only when they are equal.
-/

namespace SyntheticArbitrage.Mean

variable {K : Type*} [Field K]

/-- The mean of the items; that of no items is `0`. -/
def mean (l : List K) : K := l.sum / l.length

/-- The mean square of the distances of the items from their mean. -/
def variance (l : List K) : K := mean (l.map fun x => (x - mean l) ^ 2)

@[simp] theorem mean_nil : mean ([] : List K) = 0 := by simp [mean]

theorem variance_eq (l : List K) :
    variance l = (l.map fun x => (x - mean l) ^ 2).sum / l.length := by
  rw [variance]
  generalize mean l = m
  rw [mean, List.length_map]

variable [LinearOrder K] [IsStrictOrderedRing K] {l : List K} {t : K}

theorem length_cast_pos (hne : l ≠ []) : (0 : K) < l.length :=
  Nat.cast_pos.mpr (List.length_pos_of_ne_nil hne)

theorem le_mean (hne : l ≠ []) (h : ∀ x ∈ l, t ≤ x) : t ≤ mean l := by
  rw [mean, le_div_iff₀ (length_cast_pos hne)]
  calc t * l.length = l.length • t := by rw [nsmul_eq_mul, mul_comm]
    _ ≤ l.sum := l.card_nsmul_le_sum t h

theorem mean_le (hne : l ≠ []) (h : ∀ x ∈ l, x ≤ t) : mean l ≤ t := by
  rw [mean, div_le_iff₀ (length_cast_pos hne)]
  calc l.sum ≤ l.length • t := l.sum_le_card_nsmul t h
    _ = t * l.length := by rw [nsmul_eq_mul, mul_comm]

theorem mean_lt (hne : l ≠ []) (h : ∀ x ∈ l, x < t) : mean l < t := by
  rw [mean, div_lt_iff₀ (length_cast_pos hne)]
  have hsum : (l.map id).sum < (l.map fun _ => t).sum := List.sum_lt_sum_of_ne_nil hne _ _ h
  calc l.sum < (l.map fun _ => t).sum := by rwa [List.map_id] at hsum
    _ = t * l.length := by rw [List.map_const', List.sum_replicate, nsmul_eq_mul, mul_comm]

theorem lt_mean (hne : l ≠ []) (h : ∀ x ∈ l, t < x) : t < mean l := by
  rw [mean, lt_div_iff₀ (length_cast_pos hne)]
  have hsum : (l.map fun _ => t).sum < (l.map id).sum := List.sum_lt_sum_of_ne_nil hne _ _ h
  calc t * l.length = (l.map fun _ => t).sum := by
        rw [List.map_const', List.sum_replicate, nsmul_eq_mul, mul_comm]
    _ < l.sum := by rwa [List.map_id] at hsum

theorem abs_mean_lt (ht : 0 < t) (h : ∀ x ∈ l, |x| < t) : |mean l| < t := by
  by_cases hne : l = []
  · rw [hne, mean_nil, abs_zero]
    exact ht
  · rw [abs_lt]
    exact ⟨lt_mean hne fun x hx => (abs_lt.mp (h x hx)).1,
      mean_lt hne fun x hx => (abs_lt.mp (h x hx)).2⟩

/-! ## The variance -/

theorem sq_dist_nonneg (l : List K) : ∀ d ∈ l.map fun x => (x - mean l) ^ 2, 0 ≤ d := by
  intro d hd
  obtain ⟨x, -, rfl⟩ := List.mem_map.mp hd
  exact sq_nonneg _

theorem variance_nonneg (l : List K) : 0 ≤ variance l := by
  apply div_nonneg _ (Nat.cast_nonneg _)
  exact List.sum_nonneg (sq_dist_nonneg l)

theorem mean_map_add_const (hne : l ≠ []) (c : K) : mean (l.map (· + c)) = mean l + c := by
  have hlen := (length_cast_pos (K := K) hne).ne'
  rw [mean, mean, List.sum_map_add, List.map_id', List.map_const', List.sum_replicate,
    List.length_map, nsmul_eq_mul, add_div, mul_div_cancel_left₀ c hlen]

theorem variance_map_add_const (l : List K) (c : K) : variance (l.map (· + c)) = variance l := by
  by_cases hne : l = []
  · rw [hne, List.map_nil]
  · rw [variance, variance, mean_map_add_const hne, List.map_map]
    congr 2
    funext x
    rw [Function.comp_apply, add_sub_add_right_eq_sub]

/-- The squares sum up to zero only when each is zero, and then every item is the mean. -/
theorem variance_eq_zero_iff (l : List K) : variance l = 0 ↔ ∀ x ∈ l, ∀ y ∈ l, x = y := by
  by_cases hne : l = []
  · subst hne
    simp [variance]
  have hlen := (length_cast_pos (K := K) hne).ne'
  have hmean : variance l = 0 ↔ ∀ x ∈ l, x = mean l := by
    rw [variance_eq, div_eq_zero_iff, or_iff_left hlen]
    constructor
    · intro hsum x hx
      have hzero := List.all_zero_of_le_zero_le_of_sum_eq_zero (sq_dist_nonneg l) hsum
        (List.mem_map_of_mem hx)
      exact sub_eq_zero.mp ((pow_eq_zero_iff two_ne_zero).mp hzero)
    · intro hall
      apply List.sum_eq_zero
      intro y hy
      obtain ⟨x, hx, rfl⟩ := List.mem_map.mp hy
      rw [← hall x hx, sub_self, zero_pow two_ne_zero]
  rw [hmean]
  constructor
  · intro hall x hx y hy
    rw [hall x hx, hall y hy]
  · intro hall x hx
    apply le_antisymm
    · exact le_mean hne fun y hy => (hall x hx y hy).le
    · exact mean_le hne fun y hy => (hall y hy x hx).le

end SyntheticArbitrage.Mean
