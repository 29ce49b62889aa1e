import Mathlib.Data.List.Basic
import Mathlib.Data.Nat.Digits.Defs
import Mathlib.Tactic.Common

/-!
# The bytes of numbers

A number in a fixed number of bytes, the least significant one first or, in network order, last.

* `littleEndian`, `ofLittleEndian`, `network`, `ofNetwork`: writing and reading.
* `ofLittleEndian_littleEndian`, `littleEndian_ofLittleEndian`: **they are inverse to each other**
  on numbers that fit; `ofNetwork_network`, `network_ofNetwork` the same in network order.
* `littleEndian_xor`: the exclusive or goes byte by byte.
-/

namespace SyntheticArbitrage.ByteOrder

/-- The `k` lowest bytes of a number, the least significant one first. -/
def littleEndian : ℕ → ℕ → List UInt8
  | 0, _ => []
  | k + 1, n => UInt8.ofNat n :: littleEndian k (n / 256)

/-- The number in bytes, the least significant one first. -/
def ofLittleEndian (bs : List UInt8) : ℕ := Nat.ofDigits 256 (bs.map UInt8.toNat)

/-- The `k` lowest bytes of a number in network order. -/
def network (k n : ℕ) : List UInt8 := (littleEndian k n).reverse

/-- The number in bytes in network order. -/
def ofNetwork (bs : List UInt8) : ℕ := ofLittleEndian bs.reverse

@[simp] theorem length_littleEndian (k n : ℕ) : (littleEndian k n).length = k := by
  induction k generalizing n with
  | zero => rfl
  | succ k ih => rw [littleEndian, List.length_cons, ih]

@[simp] theorem length_network (k n : ℕ) : (network k n).length = k := by
  rw [network, List.length_reverse, length_littleEndian]

theorem ofLittleEndian_cons (b : UInt8) (bs : List UInt8) :
    ofLittleEndian (b :: bs) = b.toNat + 256 * ofLittleEndian bs := Nat.ofDigits_cons

theorem ofLittleEndian_lt (bs : List UInt8) : ofLittleEndian bs < 256 ^ bs.length := by
  have h : ∀ x ∈ bs.map UInt8.toNat, x < 256 := List.forall_mem_map.mpr fun b _ => b.toNat_lt
  have hlt := Nat.ofDigits_lt_base_pow_length (by omega) h
  rwa [List.length_map] at hlt

theorem ofLittleEndian_littleEndian {k n : ℕ} (h : n < 256 ^ k) :
    ofLittleEndian (littleEndian k n) = n := by
  induction k generalizing n with
  | zero =>
    obtain rfl : n = 0 := by rwa [Nat.pow_zero, Nat.lt_one_iff] at h
    rfl
  | succ k ih =>
    have hquotient : n / 256 < 256 ^ k :=
      Nat.div_lt_of_lt_mul (by rwa [Nat.mul_comm, ← Nat.pow_succ])
    have hbyte : (UInt8.ofNat n).toNat = n % 256 := UInt8.toNat_ofNat'
    rw [littleEndian, ofLittleEndian_cons, ih hquotient, hbyte]
    exact Nat.mod_add_div n 256

theorem littleEndian_ofLittleEndian (bs : List UInt8) :
    littleEndian bs.length (ofLittleEndian bs) = bs := by
  induction bs with
  | nil => rfl
  | cons b bs ih =>
    have hb := b.toNat_lt
    have hbyte : UInt8.ofNat (b.toNat + 256 * ofLittleEndian bs) = b := by
      apply UInt8.toNat_inj.mp
      rw [UInt8.toNat_ofNat']
      omega
    have hquotient : (b.toNat + 256 * ofLittleEndian bs) / 256 = ofLittleEndian bs := by omega
    rw [List.length_cons, ofLittleEndian_cons, littleEndian, hbyte, hquotient, ih]

theorem ofNetwork_network {k n : ℕ} (h : n < 256 ^ k) : ofNetwork (network k n) = n := by
  rw [ofNetwork, network, List.reverse_reverse, ofLittleEndian_littleEndian h]

theorem network_ofNetwork (bs : List UInt8) : network bs.length (ofNetwork bs) = bs := by
  have h := littleEndian_ofLittleEndian bs.reverse
  rw [List.length_reverse] at h
  rw [network, ofNetwork, h, List.reverse_reverse]

theorem ofNetwork_lt (bs : List UInt8) : ofNetwork bs < 256 ^ bs.length := by
  have h := ofLittleEndian_lt bs.reverse
  rwa [List.length_reverse] at h

theorem littleEndian_add (j k n : ℕ) :
    littleEndian (j + k) n = littleEndian j n ++ littleEndian k (n / 256 ^ j) := by
  induction j generalizing n with
  | zero => rw [Nat.zero_add, Nat.pow_zero, Nat.div_one]; rfl
  | succ j ih =>
    rw [Nat.succ_add, littleEndian, ih, littleEndian, List.cons_append, Nat.div_div_eq_div_mul,
      Nat.pow_succ, Nat.mul_comm]

theorem drop_network (j k n : ℕ) : (network (j + k) n).drop k = network j n := by
  rw [network, littleEndian_add, List.reverse_append, List.drop_left' (by
    rw [List.length_reverse, length_littleEndian]), network]

theorem littleEndian_mod (k n : ℕ) : littleEndian k (n % 256 ^ k) = littleEndian k n := by
  induction k generalizing n with
  | zero => rfl
  | succ k ih =>
    have hbyte : UInt8.ofNat (n % 256 ^ (k + 1)) = UInt8.ofNat n := by
      apply UInt8.toNat_inj.mp
      rw [UInt8.toNat_ofNat', UInt8.toNat_ofNat', Nat.pow_succ, Nat.mod_mul_left_mod]
    have hquotient : n % 256 ^ (k + 1) / 256 = n / 256 % 256 ^ k := by
      rw [Nat.pow_succ, Nat.mul_comm, Nat.mod_mul_right_div_self]
    rw [littleEndian, littleEndian, hbyte, hquotient, ih]

theorem littleEndian_mul_add {j a : ℕ} (ha : a < 256 ^ j) (k b : ℕ) :
    littleEndian (j + k) (256 ^ j * b + a) = littleEndian j a ++ littleEndian k b := by
  have hpow : 0 < 256 ^ j := Nat.pow_pos (by omega)
  have hlow : (256 ^ j * b + a) % 256 ^ j = a := by rw [Nat.mul_add_mod, Nat.mod_eq_of_lt ha]
  have hhigh : (256 ^ j * b + a) / 256 ^ j = b := by
    rw [Nat.mul_add_div hpow, Nat.div_eq_of_lt ha, Nat.add_zero]
  rw [littleEndian_add, hhigh, ← littleEndian_mod j, hlow]

/-- **The exclusive or goes byte by byte.** -/
theorem littleEndian_xor (k m n : ℕ) :
    littleEndian k (m ^^^ n) =
      List.zipWith (· ^^^ ·) (littleEndian k m) (littleEndian k n) := by
  induction k generalizing m n with
  | zero => rfl
  | succ k ih =>
    have hbyte : UInt8.ofNat (m ^^^ n) = UInt8.ofNat m ^^^ UInt8.ofNat n :=
      UInt8.ofNat_xor m n
    have hquotient : (m ^^^ n) / 256 = m / 256 ^^^ n / 256 := Nat.xor_div_two_pow (n := 8)
    rw [littleEndian, littleEndian, littleEndian, List.zipWith_cons_cons, hbyte, hquotient, ih]

end SyntheticArbitrage.ByteOrder
