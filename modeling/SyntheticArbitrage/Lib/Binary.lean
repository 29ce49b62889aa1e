import SyntheticArbitrage.Lib.Rounding

/-!
# Rounding to a binary format

The numbers of a format are the integers below `2 ^ (p + 1)` times a power of two whose exponent is
not below `bottom`.  A number is rounded to the nearest of them, and of two nearest ones to the one
with the even integer; the format has no greatest exponent here.

* `place`, `nearest`: the exponent of the last bit that is kept, and the rounded number.
* `nearest_eq_self`, `nearest_nearest`: the numbers of the format are kept.
* `two_zpow_le_nearest`, `nearest_le_two_zpow`: powers of two stay bounds.
* `abs_nearest_sub_le`: how far a number is moved.
-/

namespace SyntheticArbitrage.Binary

variable {p : ℕ} {bottom : ℤ} {q : ℚ}

/-- The exponent of the last bit that is kept of a positive number. -/
def place (p : ℕ) (bottom : ℤ) (q : ℚ) : ℤ := max (Int.log 2 q - p) bottom

/-- The number of the format that is nearest to a number that is not negative. -/
def nearest (p : ℕ) (bottom : ℤ) (q : ℚ) : ℚ :=
  roundHalfEven (q / 2 ^ place p bottom q) * 2 ^ place p bottom q

theorem two_zpow_pos (k : ℤ) : (0 : ℚ) < 2 ^ k := zpow_pos (by norm_num) k

theorem two_zpow_le {j k : ℤ} (h : j ≤ k) : (2 : ℚ) ^ j ≤ 2 ^ k :=
  zpow_le_zpow_right₀ (by norm_num) h

/-- A power of two as a multiple of a smaller one. -/
theorem two_zpow_eq {j k : ℤ} (h : j ≤ k) :
    (2 : ℚ) ^ k = ((2 ^ (k - j).toNat : ℤ) : ℚ) * 2 ^ j := by
  push_cast
  rw [← zpow_natCast, Int.toNat_of_nonneg (sub_nonneg.mpr h), ← zpow_add₀ (by norm_num),
    sub_add_cancel]

@[simp] theorem nearest_zero : nearest p bottom 0 = 0 := by
  rw [nearest, zero_div, ← Int.cast_zero, roundHalfEven_intCast, Int.cast_zero, zero_mul]

theorem nearest_nonneg (h : 0 ≤ q) : 0 ≤ nearest p bottom q := by
  have hscaled : ((0 : ℤ) : ℚ) ≤ q / 2 ^ place p bottom q := by
    rw [Int.cast_zero]
    exact div_nonneg h (two_zpow_pos _).le
  exact mul_nonneg (Int.cast_nonneg (le_roundHalfEven hscaled)) (two_zpow_pos _).le

/-! ## Powers of two -/

theorem zpow_log_le (h : 0 < q) : (2 : ℚ) ^ Int.log 2 q ≤ q := Int.zpow_log_le_self (by norm_num) h

theorem lt_zpow_succ_log (q : ℚ) : q < (2 : ℚ) ^ (Int.log 2 q + 1) :=
  Int.lt_zpow_succ_log_self (by norm_num) q

theorem two_zpow_le_nearest_of_place_le {k : ℤ} (hk : place p bottom q ≤ k) (h : (2 : ℚ) ^ k ≤ q) :
    (2 : ℚ) ^ k ≤ nearest p bottom q := by
  have hscale := two_zpow_eq hk
  have hle : ((2 ^ (k - place p bottom q).toNat : ℤ) : ℚ) ≤ q / 2 ^ place p bottom q := by
    rwa [le_div_iff₀ (two_zpow_pos _), ← hscale]
  rw [nearest, hscale]
  exact mul_le_mul_of_nonneg_right (Int.cast_le.mpr (le_roundHalfEven hle)) (two_zpow_pos _).le

/-- **A power of two below a number** is below the rounded number. -/
theorem two_zpow_le_nearest {k : ℤ} (hk : bottom ≤ k) (h : (2 : ℚ) ^ k ≤ q) :
    (2 : ℚ) ^ k ≤ nearest p bottom q := by
  by_cases hplace : place p bottom q ≤ k
  · exact two_zpow_le_nearest_of_place_le hplace h
  · -- the last bit that is kept is above `k`, and the first one above that
    have hlog : place p bottom q ≤ Int.log 2 q := by
      rw [place] at hplace ⊢
      omega
    calc (2 : ℚ) ^ k ≤ 2 ^ Int.log 2 q := two_zpow_le (by omega)
      _ ≤ nearest p bottom q :=
        two_zpow_le_nearest_of_place_le hlog (zpow_log_le ((two_zpow_pos k).trans_le h))

/-- **A power of two above a number** is above the rounded number. -/
theorem nearest_le_two_zpow {k : ℤ} (hk : bottom ≤ k) (hq : 0 ≤ q) (h : q ≤ (2 : ℚ) ^ k) :
    nearest p bottom q ≤ (2 : ℚ) ^ k := by
  rcases hq.eq_or_lt with rfl | hpos
  · rw [nearest_zero]
    exact (two_zpow_pos k).le
  have hlog : Int.log 2 q ≤ k := by
    have hlt : (2 : ℚ) ^ Int.log 2 q ≤ 2 ^ k := (zpow_log_le hpos).trans h
    exact (zpow_le_zpow_iff_right₀ (by norm_num)).mp hlt
  have hplace : place p bottom q ≤ k := by
    rw [place]
    omega
  have hscale := two_zpow_eq hplace
  have hle : q / 2 ^ place p bottom q ≤ ((2 ^ (k - place p bottom q).toNat : ℤ) : ℚ) := by
    rwa [div_le_iff₀ (two_zpow_pos _), ← hscale]
  rw [nearest, hscale]
  exact mul_le_mul_of_nonneg_right (Int.cast_le.mpr (roundHalfEven_le hle)) (two_zpow_pos _).le

theorem place_nonpos (hb : bottom ≤ 0) (h : q < 2 ^ (p + 1)) : place p bottom q ≤ 0 := by
  have hlog : Int.log 2 q ≤ p := by
    rcases le_or_gt q 0 with hq | hq
    · rw [Int.log_of_right_le_zero _ hq]
      exact Int.natCast_nonneg p
    · have hlt : Int.log 2 q < (p + 1 : ℕ) :=
        (Int.lt_zpow_iff_log_lt (by norm_num) hq).mp (by rw [zpow_natCast]; exact_mod_cast h)
      omega
  rw [place]
  omega

/-- An integer above a number is above the rounded number, as long as the bits of the integers are
kept. -/
theorem nearest_le_natCast {n : ℕ} (hplace : place p bottom q ≤ 0) (h : q ≤ n) :
    nearest p bottom q ≤ n := by
  have hscale := two_zpow_eq hplace
  rw [zpow_zero] at hscale
  have hn : (n : ℚ) = ((n * 2 ^ (0 - place p bottom q).toNat : ℤ) : ℚ) * 2 ^ place p bottom q := by
    push_cast at hscale ⊢
    rw [mul_assoc, ← hscale, mul_one]
  have hle : q / 2 ^ place p bottom q ≤ ((n * 2 ^ (0 - place p bottom q).toNat : ℤ) : ℚ) := by
    rwa [div_le_iff₀ (two_zpow_pos _), ← hn]
  rw [nearest, hn]
  exact mul_le_mul_of_nonneg_right (Int.cast_le.mpr (roundHalfEven_le hle)) (two_zpow_pos _).le

/-! ## The numbers of the format -/

/-- **The numbers of the format are kept.** -/
theorem nearest_eq_self {n : ℕ} {k : ℤ} (hn : n < 2 ^ (p + 1)) (hk : bottom ≤ k) :
    nearest p bottom (n * 2 ^ k) = n * 2 ^ k := by
  rcases Nat.eq_zero_or_pos n with rfl | hpos
  · simp
  generalize hq : (n : ℚ) * 2 ^ k = q
  have hqpos : 0 < q := by
    rw [← hq]
    exact mul_pos (Nat.cast_pos.mpr hpos) (two_zpow_pos k)
  -- the last bit of `n` is not below the last one that is kept
  have hlog : Int.log 2 q < p + 1 + k := by
    have hlt : q < (2 : ℚ) ^ (p + 1 + k : ℤ) := by
      rw [zpow_add₀ (by norm_num), ← hq]
      have hcast : (n : ℚ) < 2 ^ (p + 1) := by exact_mod_cast hn
      exact mul_lt_mul_of_pos_right (by exact_mod_cast hcast) (two_zpow_pos k)
    exact (zpow_lt_zpow_iff_right₀ (by norm_num : (1 : ℚ) < 2)).mp
      ((zpow_log_le hqpos).trans_lt hlt)
  have hplace : place p bottom q ≤ k := by
    rw [place]
    omega
  have hscaled : q / 2 ^ place p bottom q =
      ((n * 2 ^ (k - place p bottom q).toNat : ℤ) : ℚ) := by
    rw [div_eq_iff (two_zpow_pos _).ne']
    calc q = n * 2 ^ k := hq.symm
      _ = ((n * 2 ^ (k - place p bottom q).toNat : ℤ) : ℚ) * 2 ^ place p bottom q := by
        rw [two_zpow_eq hplace]
        push_cast
        ring
  rw [nearest, hscaled, roundHalfEven_intCast, ← hscaled, div_mul_cancel₀ _ (two_zpow_pos _).ne']

/-- The rounded number is one of the format. -/
theorem exists_nearest (h : 0 ≤ q) :
    ∃ n : ℕ, ∃ k : ℤ, n < 2 ^ (p + 1) ∧ bottom ≤ k ∧ nearest p bottom q = n * 2 ^ k := by
  have hnonneg : 0 ≤ roundHalfEven (q / 2 ^ place p bottom q) := by
    apply le_roundHalfEven
    rw [Int.cast_zero]
    exact div_nonneg h (two_zpow_pos _).le
  obtain ⟨n, hn⟩ := Int.eq_ofNat_of_zero_le hnonneg
  have hbottom : bottom ≤ place p bottom q := le_max_right _ _
  have hle : roundHalfEven (q / 2 ^ place p bottom q) ≤ 2 ^ (p + 1) := by
    apply roundHalfEven_le
    rw [div_le_iff₀ (two_zpow_pos _)]
    calc q ≤ 2 ^ (Int.log 2 q + 1) := (lt_zpow_succ_log q).le
      _ ≤ 2 ^ ((p + 1 : ℕ) + place p bottom q) := by
        refine two_zpow_le ?_
        rw [place]
        push_cast
        omega
      _ = ((2 ^ (p + 1) : ℤ) : ℚ) * 2 ^ place p bottom q := by
        rw [zpow_add₀ (by norm_num), zpow_natCast]
        push_cast
        rfl
  rw [hn] at hle
  rcases lt_or_eq_of_le hle with hlt | heq
  · refine ⟨n, place p bottom q, by exact_mod_cast hlt, hbottom, ?_⟩
    rw [nearest, hn]
    rfl
  · -- a power of two has one bit
    refine ⟨1, (p + 1 : ℕ) + place p bottom q, Nat.one_lt_two_pow (Nat.succ_ne_zero p), by omega,
      ?_⟩
    rw [nearest, hn, heq, zpow_add₀ (by norm_num), zpow_natCast]
    push_cast
    ring

theorem nearest_nearest (h : 0 ≤ q) :
    nearest p bottom (nearest p bottom q) = nearest p bottom q := by
  obtain ⟨n, k, hn, hk, heq⟩ : ∃ n : ℕ, ∃ k : ℤ, n < 2 ^ (p + 1) ∧ bottom ≤ k ∧
      nearest p bottom q = n * 2 ^ k := exists_nearest h
  rw [heq, nearest_eq_self hn hk]

/-! ## How far a number is moved -/

theorem abs_nearest_sub_le_place (q : ℚ) :
    |nearest p bottom q - q| ≤ 2 ^ place p bottom q / 2 := by
  have hpos := two_zpow_pos (place p bottom q)
  have hscale : nearest p bottom q - q =
      ((roundHalfEven (q / 2 ^ place p bottom q) : ℚ) - q / 2 ^ place p bottom q) *
        2 ^ place p bottom q := by
    rw [sub_mul, div_mul_cancel₀ _ hpos.ne', nearest]
  calc |nearest p bottom q - q|
      = |(roundHalfEven (q / 2 ^ place p bottom q) : ℚ) - q / 2 ^ place p bottom q| *
          2 ^ place p bottom q := by rw [hscale, abs_mul, abs_of_pos hpos]
    _ ≤ 1 / 2 * 2 ^ place p bottom q :=
      mul_le_mul_of_nonneg_right (abs_roundHalfEven_sub_le _) hpos.le
    _ = 2 ^ place p bottom q / 2 := by ring

/-- **A number is moved by at most** its `p + 1`-th bit, or half of the smallest number. -/
theorem abs_nearest_sub_le (h : 0 ≤ q) :
    |nearest p bottom q - q| ≤ q / 2 ^ (p + 1) + 2 ^ bottom / 2 := by
  rcases h.eq_or_lt with rfl | hpos
  · rw [nearest_zero, sub_zero, abs_zero, zero_div, zero_add]
    exact div_nonneg (two_zpow_pos bottom).le (by norm_num)
  have hbit : (2 : ℚ) ^ (Int.log 2 q - p) / 2 ≤ q / 2 ^ (p + 1) := by
    rw [zpow_sub₀ (by norm_num), zpow_natCast, pow_succ, div_div]
    exact div_le_div_of_nonneg_right (zpow_log_le hpos) (by positivity)
  have hplace : (2 : ℚ) ^ place p bottom q ≤ 2 ^ (Int.log 2 q - p) + 2 ^ bottom := by
    rw [place]
    rcases max_cases (Int.log 2 q - p) bottom with ⟨heq, -⟩ | ⟨heq, -⟩
    · rw [heq]
      exact le_add_of_nonneg_right (two_zpow_pos bottom).le
    · rw [heq]
      exact le_add_of_nonneg_left (two_zpow_pos _).le
  calc |nearest p bottom q - q| ≤ 2 ^ place p bottom q / 2 := abs_nearest_sub_le_place q
    _ ≤ q / 2 ^ (p + 1) + 2 ^ bottom / 2 := by linarith

/-- Up to a factor of two a bound stays a bound. -/
theorem nearest_le_two_mul {b : ℚ} (hq : 0 ≤ q) (h : q ≤ b) (hb : 2 ^ bottom ≤ b) :
    nearest p bottom q ≤ 2 * b := by
  have hbpos : 0 < b := (two_zpow_pos bottom).trans_le hb
  have hbottom : bottom ≤ Int.log 2 b + 1 := by
    have hlt := (zpow_lt_zpow_iff_right₀ (by norm_num : (1 : ℚ) < 2)).mp
      (hb.trans_lt (lt_zpow_succ_log b))
    exact hlt.le
  calc nearest p bottom q ≤ 2 ^ (Int.log 2 b + 1) :=
        nearest_le_two_zpow hbottom hq (h.trans (lt_zpow_succ_log b).le)
    _ = 2 * 2 ^ Int.log 2 b := by rw [zpow_add₀ (by norm_num), zpow_one, mul_comm]
    _ ≤ 2 * b := by linarith [zpow_log_le hbpos]

/-- More than half of the smallest number is not rounded to less than half of it. -/
theorem half_le_nearest (h : 2 ^ bottom / 2 < q) : q / 2 ≤ nearest p bottom q := by
  have hpos : 0 < q := (div_pos (two_zpow_pos bottom) (by norm_num)).trans h
  by_cases hbottom : bottom ≤ Int.log 2 q
  · have hlow := two_zpow_le_nearest (p := p) hbottom (zpow_log_le hpos)
    have hhigh := lt_zpow_succ_log q
    rw [zpow_add₀ (by norm_num), zpow_one] at hhigh
    linarith
  · -- below the smallest number, more than half of it is rounded up
    have hplace : place p bottom q = bottom := by
      rw [place]
      omega
    have hlt : q < 2 ^ bottom := (lt_zpow_succ_log q).trans_le (two_zpow_le (by omega))
    have hone : 1 ≤ roundHalfEven (q / 2 ^ bottom) := by
      have hhalf : 1 / 2 < q / 2 ^ bottom := by
        rw [lt_div_iff₀ (two_zpow_pos bottom)]
        linarith
      have herror := (abs_le.mp (abs_roundHalfEven_sub_le (q / 2 ^ bottom))).1
      have hcast : ((0 : ℤ) : ℚ) < roundHalfEven (q / 2 ^ bottom) := by
        rw [Int.cast_zero]
        linarith
      exact Int.cast_lt.mp hcast
    have hone' : (1 : ℚ) ≤ (roundHalfEven (q / 2 ^ bottom) : ℚ) := by exact_mod_cast hone
    have hmul := mul_le_mul_of_nonneg_right hone' (two_zpow_pos bottom).le
    rw [nearest, hplace]
    linarith

end SyntheticArbitrage.Binary
