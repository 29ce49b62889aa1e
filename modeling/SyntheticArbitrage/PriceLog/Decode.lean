import SyntheticArbitrage.Lib.Run
import SyntheticArbitrage.PriceLog.Text

/-!
# Reading the price logs back

The prices of the exchange are multiples of a cent, or of a hundred thousandth for ETHBTC, each
given to the loggers as the nearest `double`.  Six digits are enough for all ETHBTC prices, but not
for all BTCUSDT and ETHUSDT prices, and from 10000 on they leave less than the cents of a
difference.

* `OnGrid`: the multiples of a step below a bound.
* `readField`: the number in a column of a line.
* `readField_price_iff`: which prices are read back.
* `diffAgrees_of_cents`: below 10000 the difference that is printed is that of the printed prices.
* `forall₂_lines_iff`: the lines of a log after its header are those of the rows of its calls.
* `rowsDecode_of_cents`: **which rows are read back.**
-/

namespace SyntheticArbitrage

open Binary64 Rounding

/-! ## Calls and columns -/

/-- A multiple of a step below a bound. -/
def OnGrid (step bound x : ℚ) : Prop := x < bound ∧ ∃ n : ℕ, x = n * step

/-- The arguments of a call of `SyntheticSnapshotLogger::write`, the prices of the exchange as the
decimals that they are. -/
structure SnapshotCall where
  ts : UInt64
  ethbtc : ℚ
  btcusdt : ℚ
  realEth : ℚ
  syntheticEth : Binary64

/-- The arguments of a call of `MispricingLogger::log`. -/
structure MispricingCall where
  syntheticPrice : Binary64
  realPrice : ℚ
  ts : UInt64

/-- The prices that come from the exchange are on its grid. -/
structure SnapshotCall.OnGrid (c : SnapshotCall) : Prop where
  ethbtc : SyntheticArbitrage.OnGrid (1 / 100000) 10 c.ethbtc
  btcusdt : SyntheticArbitrage.OnGrid (1 / 100) (10 ^ 7) c.btcusdt
  realEth : SyntheticArbitrage.OnGrid (1 / 100) (10 ^ 7) c.realEth

def MispricingCall.OnGrid (c : MispricingCall) : Prop :=
  SyntheticArbitrage.OnGrid (1 / 100) (10 ^ 7) c.realPrice

def SnapshotCall.row (c : SnapshotCall) : SnapshotRow Binary64 :=
  ⟨c.ts, ofRat c.ethbtc, ofRat c.btcusdt, ofRat c.realEth, c.syntheticEth,
    c.syntheticEth - ofRat c.realEth⟩

def MispricingCall.row (c : MispricingCall) : MispricingRow Binary64 :=
  ⟨c.ts, c.syntheticPrice, ofRat c.realPrice, c.syntheticPrice - ofRat c.realPrice⟩

def SyntheticSnapshotLogger.perform (l : SyntheticSnapshotLogger Binary64) (c : SnapshotCall) :
    SyntheticSnapshotLogger Binary64 :=
  l.write c.ts (ofRat c.ethbtc) (ofRat c.btcusdt) (ofRat c.realEth) c.syntheticEth

def MispricingLogger.perform (l : MispricingLogger Binary64) (c : MispricingCall) :
    MispricingLogger Binary64 :=
  l.log c.syntheticPrice (ofRat c.realPrice) c.ts

def readField {R : Type} [DoubleScan R] (header : List String) (name : String)
    (fields : List (List Char)) : Option R :=
  ((header.zip fields).lookup name).bind fun text =>
    (stod (String.ofList text) : Except Exception R).toOption

/-- The decimal of the difference in a line is the difference of those of the two prices in it, to a
cent. -/
def DiffAgrees (header : List String) (synthetic real : String) (fields : List (List Char)) :
    Prop :=
  ∃ d s r : ℚ, readField header "diff" fields = some (Extended.fin d) ∧
    readField header synthetic fields = some (Extended.fin s) ∧
    readField header real fields = some (Extended.fin r) ∧ |d - (s - r)| ≤ 1 / 100

/-- A line of the snapshot log has the prices of a call, and their difference. -/
structure SnapshotDecodes (c : SnapshotCall) (fields : List (List Char)) : Prop where
  ethbtc : readField SyntheticSnapshotLogger.header "ethbtc" fields = some (ofRat c.ethbtc)
  btcusdt : readField SyntheticSnapshotLogger.header "btcusdt" fields = some (ofRat c.btcusdt)
  realEth : readField SyntheticSnapshotLogger.header "real_ethusdt" fields = some (ofRat c.realEth)
  diff : DiffAgrees SyntheticSnapshotLogger.header "synthetic_ethusdt" "real_ethusdt" fields

/-- A line of the mispricing log has the real price of a call, and the difference. -/
structure MispricingDecodes (c : MispricingCall) (fields : List (List Char)) : Prop where
  realPrice : readField MispricingLogger.header "real_price" fields = some (ofRat c.realPrice)
  diff : DiffAgrees MispricingLogger.header "synthetic_price" "real_price" fields

/-- A synthetic price whose six digits, and those of its difference to the real one, reach down to
the cents. -/
structure InCents (s r : Binary64) : Prop where
  isFinite : s.isFinite = true
  synthetic : |s.value| < 10 ^ 4
  diff : |s.value - r.value| < 10 ^ 4

/-! ## The lines of a log -/

theorem plain_row (n : ℤ) (xs : List Binary64) :
    (Decimal.ofInt n).text :: xs.map Binary64.general ≠ [] ∧
      ∀ text ∈ (Decimal.ofInt n).text :: xs.map Binary64.general, Csv.Plain text := by
  refine ⟨List.cons_ne_nil _ _, ?_⟩
  rw [List.forall_mem_cons]
  refine ⟨Decimal.plain_text _, fun text htext => ?_⟩
  obtain ⟨x, -, rfl⟩ := List.mem_map.mp htext
  exact x.plain_general

theorem SnapshotRow.plain_printed (row : SnapshotRow Binary64) :
    row.printed ≠ [] ∧ ∀ text ∈ row.printed, Csv.Plain text := plain_row _ _

theorem MispricingRow.plain_printed (row : MispricingRow Binary64) :
    row.printed ≠ [] ∧ ∀ text ∈ row.printed, Csv.Plain text := plain_row _ _

/-- **The lines after the header** are compared with the calls that wrote them: each has the fields
of the row of its call. -/
theorem forall₂_lines_iff {κ : Type} {header : List String} (hne : header ≠ [])
    (hheader : ∀ name ∈ header, Csv.Plain name.toList) {row : κ → List (List Char)}
    (hrow : ∀ c, row c ≠ [] ∧ ∀ text ∈ row c, Csv.Plain text) (calls : List κ)
    (P : κ → List (List Char) → Prop) :
    List.Forall₂ (fun c line => P c (Csv.fields line)) calls
        (Csv.lines (headerLine header ++ calls.flatMap fun c => Csv.line (row c))).tail ↔
      ∀ c ∈ calls, P c (row c) := by
  have hfile : headerLine header ++ calls.flatMap (fun c => Csv.line (row c)) =
      (header.map String.toList :: calls.map row).flatMap Csv.line := by
    rw [List.flatMap_cons, headerLine, List.flatMap_map]
  have hfields : (Csv.lines ((header.map String.toList :: calls.map row).flatMap Csv.line)).map
      Csv.fields = header.map String.toList :: calls.map row := by
    apply Csv.map_fields_lines
    intro texts htexts
    rcases List.mem_cons.mp htexts with rfl | htexts
    · refine ⟨by simpa using hne, fun text htext => ?_⟩
      obtain ⟨name, hname, rfl⟩ := List.mem_map.mp htext
      exact hheader name hname
    · obtain ⟨c, -, rfl⟩ := List.mem_map.mp htexts
      exact hrow c
  rw [hfile, ← List.forall₂_map_right_iff, List.map_tail, hfields, List.tail_cons,
    List.forall₂_map_right_iff, List.forall₂_same]

theorem SyntheticSnapshotLogger.run_perform (l : SyntheticSnapshotLogger Binary64)
    (calls : List SnapshotCall) :
    (run perform l calls).out = l.out ++ calls.map SnapshotCall.row :=
  run_entries SyntheticSnapshotLogger.out (fun _ _ => rfl) l calls

theorem MispricingLogger.run_perform (l : MispricingLogger Binary64) (calls : List MispricingCall) :
    (run perform l calls).logfile = l.logfile ++ calls.map MispricingCall.row :=
  run_entries MispricingLogger.logfile (fun _ _ => rfl) l calls

/-! ## Prices -/

theorem hasDigits_of_onGrid {p : ℕ} {k : ℤ} {bound x : ℚ} (h : OnGrid (10 ^ k) bound x)
    (hbound : bound ≤ 10 ^ (p + 1) * 10 ^ k) : HasDigits p x := by
  obtain ⟨hlt, n, rfl⟩ := h
  refine ⟨n, k, ?_, by simp⟩
  have hn : (n : ℚ) < 10 ^ (p + 1) :=
    lt_of_mul_lt_mul_right (hlt.trans_le hbound) (zpow_ten_pos k).le
  rw [abs_of_nonneg (Int.natCast_nonneg n)]
  exact_mod_cast hn

theorem OnGrid.zero_or_le {step bound x : ℚ} (h : OnGrid step bound x) (hstep : 0 < step) :
    x = 0 ∨ step ≤ x := by
  obtain ⟨-, n, rfl⟩ := h
  rcases Nat.eq_zero_or_pos n with rfl | hn
  · exact .inl (by simp)
  · have hone : (1 : ℚ) ≤ n := Nat.one_le_cast.mpr hn
    exact .inr (le_mul_of_one_le_left hstep.le hone)

theorem OnGrid.bounds {x : ℚ} (h : OnGrid (1 / 100) (10 ^ 7) x) :
    0 ≤ x ∧ x ≤ 10 ^ 9 ∧ (x = 0 ∨ 1 / 100000 ≤ x) := by
  have hlow := h.zero_or_le (by norm_num)
  obtain ⟨hlt, n, rfl⟩ := h
  exact ⟨by positivity, by linarith, hlow.imp_right fun hle => by linarith⟩

theorem abs_lt_of_cents {j k : ℤ} (h : |(k : ℚ) / 100| < j / 100) : |k| < j := by
  rw [abs_div, abs_of_pos (by norm_num : (0 : ℚ) < 100), ← Int.cast_abs,
    div_lt_div_iff_of_pos_right (by norm_num)] at h
  exact Int.cast_lt.mp h

theorem smallest_le : (2 : ℚ) ^ (-1074 : ℤ) ≤ 1 / 10 ^ 15 :=
  calc (2 : ℚ) ^ (-1074 : ℤ) ≤ 2 ^ (-64 : ℤ) := Binary.two_zpow_le (by norm_num)
    _ ≤ 1 / 10 ^ 15 := by norm_num

theorem normal_le {x : ℚ} (h : 1 / 100000 ≤ x) : 2 ^ (-1022 : ℤ) ≤ x :=
  calc (2 : ℚ) ^ (-1022 : ℤ) ≤ 2 ^ (-64 : ℤ) := Binary.two_zpow_le (by norm_num)
    _ ≤ 1 / 100000 := by norm_num
    _ ≤ x := h

theorem abs_value_ofRat_sub_le {x : ℚ} (hx : 0 ≤ x) (h : x ≤ 10 ^ 9) :
    |(ofRat x).value - x| ≤ x / 2 ^ 53 + 1 / 10 ^ 15 := by
  have herror := (ofRat_spec ((abs_of_nonneg hx).trans_le h)).2.2
  rw [abs_of_nonneg hx] at herror
  linarith [smallest_le]

theorem roundSig_value_ofRat {x : ℚ} (h : HasDigits 5 x) (hlow : x = 0 ∨ 1 / 100000 ≤ x)
    (hhigh : x ≤ 10 ^ 9) : roundSig 5 (ofRat x).value = x := by
  rcases hlow with rfl | hlow
  · rw [value_ofRat le_rfl hhigh, Binary.nearest_zero, roundSig_zero]
  · have hpos : 0 < x := by linarith
    have herror := abs_value_ofRat_sub_le hpos.le hhigh
    refine roundSig_eq_of_near 5 h hpos (herror.trans_lt ?_)
    have hnext := (leading_spec hpos.ne').2
    rw [abs_of_pos hpos, show leading x + 1 = 7 + (leading x - 1 - (5 : ℕ)) by push_cast; ring,
      zpow_add₀ (by norm_num)] at hnext
    norm_num at hnext herror ⊢
    linarith

theorem readField_of_general {header : List String} {name : String} {fields : List (List Char)}
    {x : Binary64} (h : (header.zip fields).lookup name = some x.general)
    (hx : x.isFinite = true) :
    readField header name fields = some (Extended.fin (roundSig 5 x.value)) := by
  rw [readField, h, Option.bind_some, stod_general hx]
  rfl

theorem readField_of_ofRat {header : List String} {name : String} {fields : List (List Char)}
    {x : ℚ} (hx : 0 ≤ x) (hhigh : x ≤ 10 ^ 9)
    (h : (header.zip fields).lookup name = some (ofRat x).general)
    (hle : roundSig 5 (ofRat x).value ≤ 10 ^ 9)
    (hlow : roundSig 5 (ofRat x).value = 0 ∨ 1 / 100000 ≤ roundSig 5 (ofRat x).value) :
    readField header name fields = some (ofRat (roundSig 5 (ofRat x).value)) := by
  obtain ⟨hsize, heq⟩ := ofRat_eq hx hhigh
  rw [value_ofRat hx hhigh] at hle hlow ⊢
  rw [readField, h, Option.bind_some, heq, Binary64.general,
    stod_general6 (R := Binary64) false (Binary.nearest_nonneg hx)
      (ofNumeral_eq hle (hlow.imp_right normal_le))]
  rfl

theorem abs_sub_lt_of_ofRat_eq {x y : ℚ} (hx : 0 ≤ x) (hy : 0 ≤ y) (hxle : x ≤ 10 ^ 9)
    (hyle : y ≤ 10 ^ 9) (h : ofRat x = ofRat y) : |x - y| < 1 / 100 := by
  have hxerror := abs_le.mp (abs_value_ofRat_sub_le hx hxle)
  have hyerror := abs_le.mp (abs_value_ofRat_sub_le hy hyle)
  rw [h] at hxerror
  norm_num at hxerror hyerror
  rw [abs_lt]
  constructor <;> linarith

theorem value_ofRat_large {x : ℚ} (hlow : 10 ^ 4 ≤ x) (hhigh : x < 10 ^ 7) :
    10 ^ 4 - 1 ≤ (ofRat x).value ∧ (ofRat x).value ≤ 10 ^ 7 + 1 := by
  have herror := abs_le.mp (abs_value_ofRat_sub_le (x := x) (by linarith) (by linarith))
  norm_num at herror ⊢
  constructor <;> linarith

theorem roundSig_large {q : ℚ} (hlow : 10 ^ 4 - 1 ≤ q) (hhigh : q ≤ 10 ^ 7 + 1) :
    1 ≤ roundSig 5 q ∧ roundSig 5 q ≤ 10 ^ 9 := by
  have hpos : 0 < q := by linarith
  have hmoved := abs_le.mp (abs_roundSig_sub_le_of_lt 5 (q := q) (k := 8)
    (by rw [abs_of_pos hpos]; norm_num; linarith) (by norm_num))
  norm_num at hmoved
  constructor <;> linarith

theorem exists_roundSig_eq_cents {q : ℚ} (h : 10 ^ 3 ≤ |q|) : ∃ m : ℤ, roundSig 5 q = m / 100 := by
  have hq : q ≠ 0 := by
    rintro rfl
    norm_num at h
  have hleading : 3 ≤ leading q := by
    have hlt := (zpow_lt_zpow_iff_right₀ (by norm_num : (1 : ℚ) < 10)).mp
      (lt_of_le_of_lt (by exact_mod_cast h) (leading_spec hq).2 : (10 : ℚ) ^ (3 : ℤ) < _)
    omega
  obtain ⟨t, ht⟩ := Int.le.dest hleading
  have hsize : (digitsOf 5 q : ℚ) * 10 ^ (leading q - (5 : ℕ)) =
      ((digitsOf 5 q * 10 ^ t : ℤ) : ℚ) / 100 := by
    rw [← ht, show 3 + (t : ℤ) - (5 : ℕ) = t + (-2) by push_cast; ring,
      zpow_add₀ (by norm_num), zpow_natCast]
    push_cast
    norm_num
    ring
  rw [roundSig, hsize]
  split
  · exact ⟨-(digitsOf 5 q * 10 ^ t), by push_cast; ring⟩
  · exact ⟨_, rfl⟩

/-- A large price is printed in cents, and so as itself when the same `double` is read back. -/
theorem roundSig_eq_of_ofRat_eq {x : ℚ} {n : ℕ} (hn : x = n * (1 / 100)) (hlow : 10 ^ 4 ≤ x)
    (hhigh : x < 10 ^ 7) (h : ofRat (roundSig 5 (ofRat x).value) = ofRat x) :
    roundSig 5 (ofRat x).value = x := by
  obtain ⟨hqlow, hqhigh⟩ := value_ofRat_large hlow hhigh
  generalize (ofRat x).value = q at *
  have hqpos : 0 < q := by linarith
  obtain ⟨m, hm⟩ := exists_roundSig_eq_cents (q := q) (by rw [abs_of_pos hqpos]; linarith)
  obtain ⟨hprintedLow, hprintedHigh⟩ := roundSig_large hqlow hqhigh
  have hnear := abs_sub_lt_of_ofRat_eq (by linarith) (by linarith) (by linarith) (by linarith) h
  have hcents : roundSig 5 q - x = ((m - n : ℤ) : ℚ) / 100 := by
    rw [hm, hn]
    push_cast
    ring
  have hzero : |m - (n : ℤ)| < 1 := by
    apply abs_lt_of_cents
    rwa [hcents] at hnear
  rw [← sub_eq_zero, hcents, Int.abs_lt_one_iff.mp hzero]
  norm_num

/-- **Which prices are read back**: those with six digits. -/
theorem readField_price_iff {header : List String} {name : String} {fields : List (List Char)}
    {x : ℚ} (hx : OnGrid (1 / 100) (10 ^ 7) x)
    (h : (header.zip fields).lookup name = some (ofRat x).general) :
    readField header name fields = some (ofRat x) ↔ HasDigits 5 x := by
  obtain ⟨hnonneg, hhigh, hlow⟩ := hx.bounds
  obtain ⟨hlt, n, hn⟩ := hx
  by_cases hdigits : HasDigits 5 x
  · have hprinted := roundSig_value_ofRat hdigits hlow hhigh
    refine iff_of_true ?_ hdigits
    rw [readField_of_ofRat hnonneg hhigh h (by rwa [hprinted])
      (by rwa [hprinted]), hprinted]
  · refine iff_of_false ?_ hdigits
    have hlarge : 10 ^ 4 ≤ x := by
      by_contra hsmall
      rw [not_le] at hsmall
      have hgrid : OnGrid (10 ^ (-2 : ℤ)) (10 ^ 4) x := ⟨hsmall, n, by rw [hn]; norm_num⟩
      exact hdigits (hasDigits_of_onGrid hgrid (by norm_num))
    obtain ⟨hqlow, hqhigh⟩ := value_ofRat_large hlarge hlt
    obtain ⟨hprintedLow, hprintedHigh⟩ := roundSig_large hqlow hqhigh
    rw [readField_of_ofRat hnonneg hhigh h (by linarith) (.inr (by linarith)),
      Option.some.injEq]
    intro hsame
    rw [← roundSig_eq_of_ofRat_eq hn hlarge hlt hsame] at hdigits
    exact hdigits (hasDigits_roundSig 5 _)

theorem readField_small_price {header : List String} {name : String} {fields : List (List Char)}
    {x : ℚ} (hx : OnGrid (1 / 100000) 10 x)
    (h : (header.zip fields).lookup name = some (ofRat x).general) :
    readField header name fields = some (ofRat x) := by
  have hdigits : HasDigits 5 x :=
    hasDigits_of_onGrid (k := -5) (by norm_num at hx ⊢; exact hx) (by norm_num)
  have hlow := hx.zero_or_le (by norm_num)
  obtain ⟨hlt, n, hn⟩ := hx
  have hnonneg : 0 ≤ x := by
    rw [hn]
    positivity
  have hhigh : x ≤ 10 ^ 9 := by linarith
  have hprinted := roundSig_value_ofRat hdigits hlow hhigh
  rw [readField_of_ofRat hnonneg hhigh h (by rwa [hprinted]) (by rwa [hprinted]), hprinted]

/-! ## Differences -/

/-- Up to 10000 a number is printed in cents, or it is below 1000 and moved by even less. -/
theorem roundSig_cents {q : ℚ} (h : |q| ≤ 10 ^ 4) :
    ((∃ m : ℤ, roundSig 5 q = m / 100) ∧ |roundSig 5 q - q| ≤ 1 / 200) ∨
      |roundSig 5 q - q| ≤ 1 / 2000 := by
  rcases lt_or_ge (|q|) (10 ^ 3) with hsmall | hlarge
  · have hmoved := abs_roundSig_sub_le_of_lt 5 (k := 3) (by exact_mod_cast hsmall) (by norm_num)
    norm_num at hmoved
    exact .inr hmoved
  refine .inl ⟨exists_roundSig_eq_cents hlarge, ?_⟩
  rcases h.lt_or_eq with hlt | heq
  · have hmoved := abs_roundSig_sub_le_of_lt 5 (k := 4) (by exact_mod_cast hlt) (by norm_num)
    norm_num at hmoved
    exact hmoved
  · have hkept : HasDigits 5 q := by
      rcases abs_choice q with hq | hq
      · exact ⟨1, 4, by norm_num, by rw [← hq, heq]; norm_num⟩
      · exact ⟨-1, 4, by norm_num, by rw [← neg_eq_iff_eq_neg.mpr hq, heq]; norm_num⟩
    rw [(roundSig_eq_self_iff 5 q).mpr hkept, sub_self, abs_zero]
    norm_num

/-- The printed difference `d` and the printed price `s` come to the real price `x` up to a cent:
each is off by half a cent at most, and where both are in cents the whole is. -/
theorem abs_printed_diff_le {s r d x : ℚ} {n : ℕ} (hn : x = n * (1 / 100)) (hd : |d| ≤ 10 ^ 4)
    (hs : |s| ≤ 10 ^ 4) (hdouble : |(d - (s - r)) - (r - x)| ≤ 1 / 10 ^ 6) :
    |roundSig 5 d - (roundSig 5 s - x)| ≤ 1 / 100 := by
  have htotal : |roundSig 5 d - (roundSig 5 s - x)| ≤
      |roundSig 5 d - d| + |roundSig 5 s - s| + 1 / 10 ^ 6 := by
    have hsum : roundSig 5 d - (roundSig 5 s - x) =
        (roundSig 5 d - d) - (roundSig 5 s - s) + ((d - (s - r)) - (r - x)) := by ring
    rw [hsum]
    exact (abs_add_le _ _).trans (add_le_add (abs_sub _ _) hdouble)
  rcases roundSig_cents hd with ⟨⟨m, hm⟩, hdmoved⟩ | hdmoved
  · rcases roundSig_cents hs with ⟨⟨k, hk⟩, hsmoved⟩ | hsmoved
    · -- all three are in cents, and less than two cents off
      have hcents : roundSig 5 d - (roundSig 5 s - x) = ((m - (k - n) : ℤ) : ℚ) / 100 := by
        rw [hm, hk, hn]
        push_cast
        ring
      have hlt : |m - (k - (n : ℤ))| < 2 := by
        apply abs_lt_of_cents
        rw [← hcents]
        norm_num at htotal ⊢
        linarith
      have hone : ((|m - (k - (n : ℤ))| : ℤ) : ℚ) ≤ 1 := by exact_mod_cast Int.lt_add_one_iff.mp hlt
      rw [hcents, abs_div, ← Int.cast_abs, abs_of_pos (by norm_num : (0 : ℚ) < 100)]
      linarith
    · linarith
  · rcases roundSig_cents hs with ⟨-, hsmoved⟩ | hsmoved
    · linarith
    · linarith

/-- **The difference agrees** when the real price is kept and the cents are printed. -/
theorem diffAgrees_of_cents {header : List String} {synthetic real : String}
    {fields : List (List Char)} {s : Binary64} {x : ℚ} (hx : OnGrid (1 / 100) (10 ^ 7) x)
    (hdigits : HasDigits 5 x) (hs : InCents s (ofRat x))
    (hdiff : (header.zip fields).lookup "diff" = some (s - ofRat x).general)
    (hsynthetic : (header.zip fields).lookup synthetic = some s.general)
    (hreal : (header.zip fields).lookup real = some (ofRat x).general) :
    DiffAgrees header synthetic real fields := by
  obtain ⟨hnonneg, hhigh, hlow⟩ := hx.bounds
  obtain ⟨hlt, n, hn⟩ := hx
  have hfinite : (ofRat x).isFinite = true :=
    (ofRat_spec (by rwa [abs_of_nonneg hnonneg])).1
  have hprinted := roundSig_value_ofRat hdigits hlow hhigh
  have herror := abs_value_ofRat_sub_le hnonneg hhigh
  obtain ⟨hsub, hsize, hsubError⟩ := sub_spec hs.isFinite hfinite (by linarith [hs.diff])
  refine ⟨_, _, _, readField_of_general hdiff hsub, readField_of_general hsynthetic hs.isFinite,
    readField_of_general hreal hfinite, ?_⟩
  rw [hprinted]
  have hbelow : |(s - ofRat x).value| ≤ 10 ^ 4 := by
    rw [hsize]
    have hplace : Binary.place 52 (-1074) |s.value - (ofRat x).value| ≤ 0 :=
      Binary.place_nonpos (by norm_num) (hs.diff.trans (by norm_num))
    exact_mod_cast Binary.nearest_le_natCast (n := 10 ^ 4) hplace (by exact_mod_cast hs.diff.le)
  have hdouble : |((s - ofRat x).value - (s.value - (ofRat x).value)) - ((ofRat x).value - x)| ≤
      1 / 10 ^ 6 := by
    refine (abs_sub _ _).trans ?_
    linarith [smallest_le, hs.diff]
  exact abs_printed_diff_le hn hbelow hs.synthetic.le hdouble

-- From 10000 on the printed difference can be a tenth off.
example : (ofRat 0.5 * ofRat 40002.10).general = "20001".toList ∧
    (ofRat 2000.60).general = "2000.6".toList ∧
    (ofRat 0.5 * ofRat 40002.10 - ofRat 2000.60).general = "18000.5".toList := by
  decide +kernel

/-! ## Which rows are read back -/

/-- **A row of the snapshot log.** -/
theorem snapshotDecodes_of_cents {c : SnapshotCall} (h : c.OnGrid) :
    (HasDigits 5 c.btcusdt ∧ HasDigits 5 c.realEth ∧ InCents c.syntheticEth (ofRat c.realEth) →
        SnapshotDecodes c c.row.printed) ∧
      (SnapshotDecodes c c.row.printed → HasDigits 5 c.btcusdt ∧ HasDigits 5 c.realEth) := by
  have hbtcusdt : readField SyntheticSnapshotLogger.header "btcusdt" c.row.printed =
      some (ofRat c.btcusdt) ↔ HasDigits 5 c.btcusdt := readField_price_iff h.btcusdt rfl
  have hreal : readField SyntheticSnapshotLogger.header "real_ethusdt" c.row.printed =
      some (ofRat c.realEth) ↔ HasDigits 5 c.realEth := readField_price_iff h.realEth rfl
  constructor
  · rintro ⟨hb, hr, hcents⟩
    refine ⟨readField_small_price h.ethbtc rfl, hbtcusdt.mpr hb, hreal.mpr hr, ?_⟩
    exact diffAgrees_of_cents h.realEth hr hcents rfl rfl rfl
  · intro hdecodes
    exact ⟨hbtcusdt.mp hdecodes.btcusdt, hreal.mp hdecodes.realEth⟩

/-- **A row of the mispricing log.** -/
theorem mispricingDecodes_of_cents {c : MispricingCall} (h : c.OnGrid) :
    (HasDigits 5 c.realPrice ∧ InCents c.syntheticPrice (ofRat c.realPrice) →
        MispricingDecodes c c.row.printed) ∧
      (MispricingDecodes c c.row.printed → HasDigits 5 c.realPrice) := by
  have hreal : readField MispricingLogger.header "real_price" c.row.printed =
      some (ofRat c.realPrice) ↔ HasDigits 5 c.realPrice := readField_price_iff h rfl
  constructor
  · rintro ⟨hr, hcents⟩
    exact ⟨hreal.mpr hr, diffAgrees_of_cents h hr hcents rfl rfl rfl⟩
  · intro hdecodes
    exact hreal.mp hdecodes.realPrice

/-- Each line of the snapshot log has the prices of the call that wrote it. -/
def SnapshotsDecode (calls : List SnapshotCall) : Prop :=
  List.Forall₂ (fun c line => SnapshotDecodes c (Csv.fields line)) calls
    (Csv.lines (run SyntheticSnapshotLogger.perform {} calls).text).tail

/-- Each line of the mispricing log of a name has the price of the call that wrote it. -/
def MispricingsDecode (name : String) (threshold : Binary64) (calls : List MispricingCall) : Prop :=
  List.Forall₂ (fun c line => MispricingDecodes c (Csv.fields line)) calls
    (Csv.lines (run MispricingLogger.perform { name, threshold } calls).text).tail

theorem snapshotsDecode_iff (calls : List SnapshotCall) :
    SnapshotsDecode calls ↔ ∀ c ∈ calls, SnapshotDecodes c c.row.printed := by
  rw [SnapshotsDecode, SyntheticSnapshotLogger.text, SyntheticSnapshotLogger.run_perform,
    List.nil_append, List.flatMap_map]
  exact forall₂_lines_iff (by decide) (by decide) (fun c => c.row.plain_printed) calls _

theorem mispricingsDecode_iff (name : String) (threshold : Binary64) (calls : List MispricingCall) :
    MispricingsDecode name threshold calls ↔ ∀ c ∈ calls, MispricingDecodes c c.row.printed := by
  rw [MispricingsDecode, MispricingLogger.text, MispricingLogger.run_perform, List.nil_append,
    List.flatMap_map]
  exact forall₂_lines_iff (by decide) (by decide) (fun c => c.row.plain_printed) calls _

/-- **Which logs are read back**: those whose BTCUSDT and real prices have at most six digits, where
the synthetic prices and the differences reach down to the cents; and no log with other BTCUSDT or
real prices. -/
theorem rowsDecode_of_cents {writes : List SnapshotCall} (hwrites : ∀ c ∈ writes, c.OnGrid)
    {logs : List MispricingCall} (hlogs : ∀ c ∈ logs, c.OnGrid) (name : String)
    (threshold : Binary64) :
    ((∀ c ∈ writes, HasDigits 5 c.btcusdt ∧ HasDigits 5 c.realEth ∧
          InCents c.syntheticEth (ofRat c.realEth)) → SnapshotsDecode writes) ∧
      (SnapshotsDecode writes → ∀ c ∈ writes, HasDigits 5 c.btcusdt ∧ HasDigits 5 c.realEth) ∧
      ((∀ c ∈ logs, HasDigits 5 c.realPrice ∧ InCents c.syntheticPrice (ofRat c.realPrice)) →
        MispricingsDecode name threshold logs) ∧
      (MispricingsDecode name threshold logs → ∀ c ∈ logs, HasDigits 5 c.realPrice) := by
  rw [snapshotsDecode_iff, mispricingsDecode_iff]
  refine ⟨?_, ?_, ?_, ?_⟩
  · exact fun h c hc => (snapshotDecodes_of_cents (hwrites c hc)).1 (h c hc)
  · exact fun h c hc => (snapshotDecodes_of_cents (hwrites c hc)).2 (h c hc)
  · exact fun h c hc => (mispricingDecodes_of_cents (hlogs c hc)).1 (h c hc)
  · exact fun h c hc => (mispricingDecodes_of_cents (hlogs c hc)).2 (h c hc)

def sixDigitCall : SnapshotCall := ⟨1752081578055, 61 / 2500, 109238, 13327 / 5, ofRat 2665.4072⟩

def sixDigitLog : MispricingCall := ⟨ofRat 2665.4072, 13327 / 5, 1752081578055⟩

theorem rowsDecode_of_cents_sixDigits :
    SnapshotsDecode [sixDigitCall] ∧ MispricingsDecode "ETHUSDT" (ofRat 0.2) [sixDigitLog] := by
  have hprice : SyntheticArbitrage.OnGrid (1 / 100) (10 ^ 7) (13327 / 5) :=
    ⟨by norm_num, 266540, by norm_num⟩
  have hwrites : ∀ c ∈ [sixDigitCall], c.OnGrid := by
    intro c hc
    rw [List.mem_singleton.mp hc]
    exact ⟨⟨by norm_num [sixDigitCall], 2440, by norm_num [sixDigitCall]⟩,
      ⟨by norm_num [sixDigitCall], 10923800, by norm_num [sixDigitCall]⟩, hprice⟩
  have hlogs : ∀ c ∈ [sixDigitLog], c.OnGrid := by
    intro c hc
    rw [List.mem_singleton.mp hc]
    exact hprice
  have hbtcusdt : HasDigits 5 109238 := ⟨109238, 0, by norm_num, by norm_num⟩
  have hreal : HasDigits 5 (13327 / 5) := ⟨26654, -1, by norm_num, by norm_num⟩
  have hcents : InCents (ofRat 2665.4072) (ofRat (13327 / 5)) :=
    ⟨by decide +kernel, by decide +kernel, by decide +kernel⟩
  have hrows := rowsDecode_of_cents hwrites hlogs "ETHUSDT" (ofRat 0.2)
  exact ⟨hrows.1 (by simpa [sixDigitCall] using ⟨hbtcusdt, hreal, hcents⟩),
    hrows.2.2.1 (by simpa [sixDigitLog] using ⟨hreal, hcents⟩)⟩

def sevenDigitCall : SnapshotCall := ⟨1752081578055, 1 / 20, 4000012 / 100, 2000, ofRat 2000⟩

/-- The price 40000.12 is read back as 40000.1. -/
theorem not_snapshotsDecode_sevenDigits :
    sevenDigitCall.OnGrid ∧ ¬ SnapshotsDecode [sevenDigitCall] := by
  constructor
  · exact ⟨⟨by norm_num [sevenDigitCall], 5000, by norm_num [sevenDigitCall]⟩,
      ⟨by norm_num [sevenDigitCall], 4000012, by norm_num [sevenDigitCall]⟩,
      ⟨by norm_num [sevenDigitCall], 200000, by norm_num [sevenDigitCall]⟩⟩
  · intro h
    have hread : (Csv.lines (run SyntheticSnapshotLogger.perform {} [sevenDigitCall]).text).tail.map
        (fun line => readField SyntheticSnapshotLogger.header "btcusdt" (Csv.fields line)) =
          [some (ofRat 40000.1)] := by decide +kernel
    obtain ⟨line, rest, hdecodes, -, hlines⟩ := List.forall₂_cons_left_iff.mp h
    rw [hlines, List.map_cons, hdecodes.btcusdt] at hread
    exact absurd (List.cons.inj hread).1 (by decide +kernel)

end SyntheticArbitrage
