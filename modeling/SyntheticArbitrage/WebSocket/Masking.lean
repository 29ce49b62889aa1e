import SyntheticArbitrage.Lib.ByteOrder
import Mathlib.Data.List.Rotate
import Mathlib.Data.Nat.Periodic

/-!
# Masking

The functions of `libs/websocketpp/frame.hpp` that mask payloads, on a machine with words of eight
bytes, the least significant one first.

* `byteMask`: byte by byte; `byteMaskCirc`, `wordMaskCirc`: with a prepared key that is turned for
  the next part; `wordMaskExact`: word by word.
* `masked`: the bytes with a stream of key bytes.
* `byteMaskCirc_eq`, `wordMaskCirc_eq`, `wordMaskExact_eq`: **they all mask with the key stream**.
* `masked_masked`: masked twice is not masked; `masked_append`: masked in parts.
-/

namespace SyntheticArbitrage.WebSocket

open ByteOrder

/-- `masking_key_type`: a number, and its bytes in memory. -/
abbrev MaskingKey := UInt32

def MaskingKey.c (key : MaskingKey) : List UInt8 := littleEndian 4 key.toNat

def wordBytes (word : UInt64) : List UInt8 := littleEndian 8 word.toNat

/-- `prepare_masking_key`. -/
def prepareMaskingKey (key : MaskingKey) : UInt64 :=
  let lowBits := key.toUInt64
  let highBits := key.toUInt64
  (highBits <<< 32) ||| lowBits

/-- `circshift_prepared_key`. -/
def circshiftPreparedKey (preparedKey : UInt64) (offset : ℕ) : UInt64 :=
  if offset = 0 then preparedKey
  else
    let temp := preparedKey <<< UInt64.ofNat ((8 - offset) * 8)
    (preparedKey >>> UInt64.ofNat (offset * 8)) ||| temp

/-- The loop of `byte_mask`. -/
def byteMaskLoop (key : MaskingKey) (keyIndex : ℕ) : List UInt8 → List UInt8
  | [] => []
  | b :: bs => (b ^^^ key.c.getD keyIndex 0) :: byteMaskLoop key ((keyIndex + 1) % 4) bs

/-- `byte_mask`. -/
def byteMask (input : List UInt8) (key : MaskingKey) (keyOffset : ℕ) : List UInt8 :=
  byteMaskLoop key (keyOffset % 4) input

/-- `byte_mask_circ`: the output and the prepared key for the next part. -/
def byteMaskCirc (input : List UInt8) (preparedKey : UInt64) : List UInt8 × UInt64 :=
  let key : MaskingKey := preparedKey.toUInt32
  (input.mapIdx fun i b => b ^^^ key.c.getD (i % 4) 0,
    circshiftPreparedKey preparedKey (input.length % 4))

/-- The first `n` words of the input, each with the prepared key. -/
def maskWords (preparedKey : UInt64) : ℕ → List UInt8 → List UInt8
  | 0, _ => []
  | n + 1, input =>
    littleEndian 8 (ofLittleEndian (input.take 8) ^^^ preparedKey.toNat) ++
      maskWords preparedKey n (input.drop 8)

/-- `word_mask_exact`. -/
def wordMaskExact (input : List UInt8) (key : MaskingKey) : List UInt8 :=
  let n := input.length / 8
  maskWords (prepareMaskingKey key) n input ++
    (input.drop (n * 8)).mapIdx fun i b => b ^^^ key.c.getD ((n * 8 + i) % 4) 0

/-- `word_mask_circ`: the output and the prepared key for the next part. -/
def wordMaskCirc (input : List UInt8) (preparedKey : UInt64) : List UInt8 × UInt64 :=
  let n := input.length / 8
  let l := input.length - n * 8
  (maskWords preparedKey n input ++
      (input.drop (n * 8)).mapIdx fun i b => b ^^^ (wordBytes preparedKey).getD i 0,
    circshiftPreparedKey preparedKey l)

/-! ## Key streams -/

/-- The bytes with the bytes of a key stream. -/
def masked (k : ℕ → UInt8) (bs : List UInt8) : List UInt8 := bs.mapIdx fun i b => b ^^^ k i

@[simp] theorem masked_nil (k : ℕ → UInt8) : masked k [] = [] := rfl

theorem masked_cons (k : ℕ → UInt8) (b : UInt8) (bs : List UInt8) :
    masked k (b :: bs) = (b ^^^ k 0) :: masked (fun i => k (i + 1)) bs := List.mapIdx_cons

@[simp] theorem length_masked (k : ℕ → UInt8) (bs : List UInt8) :
    (masked k bs).length = bs.length := List.length_mapIdx

theorem masked_append (k : ℕ → UInt8) (xs ys : List UInt8) :
    masked k (xs ++ ys) = masked k xs ++ masked (fun i => k (xs.length + i)) ys := by
  rw [masked, List.mapIdx_append]
  congr 2
  funext i b
  rw [Nat.add_comm]

/-- **Masked twice is not masked.** -/
theorem masked_masked (k : ℕ → UInt8) (bs : List UInt8) : masked k (masked k bs) = bs := by
  induction bs generalizing k with
  | nil => rfl
  | cons b bs ih =>
    rw [masked_cons, masked_cons, ih, UInt8.xor_assoc, UInt8.xor_self, UInt8.xor_zero]

/-- The bytes of a key, over and over. -/
def keyStream (key : MaskingKey) (i : ℕ) : UInt8 := key.c.getD (i % 4) 0

theorem byteMaskLoop_eq (key : MaskingKey) (i : ℕ) (input : List UInt8) :
    byteMaskLoop key (i % 4) input = masked (fun j => keyStream key (i + j)) input := by
  induction input generalizing i with
  | nil => rfl
  | cons b bs ih =>
    rw [byteMaskLoop, masked_cons, Nat.mod_add_mod, ih]
    congr 2
    funext j
    rw [Nat.add_assoc, Nat.add_comm 1 j]

/-- **`byte_mask` masks with the bytes of the key from the offset on.** -/
theorem byteMask_eq (input : List UInt8) (key : MaskingKey) (keyOffset : ℕ) :
    byteMask input key keyOffset = masked (fun i => keyStream key (keyOffset + i)) input :=
  byteMaskLoop_eq key keyOffset input

/-! ## Prepared keys -/

/-- The prepared key holds the first bytes of a key stream that repeats. -/
structure Holds (preparedKey : UInt64) (k : ℕ → UInt8) : Prop where
  bytes : wordBytes preparedKey = (List.range 8).map k
  periodic : Function.Periodic k 4

theorem periodic_keyStream (key : MaskingKey) : Function.Periodic (keyStream key) 4 := by
  intro i
  rw [keyStream, keyStream, Nat.add_mod_right]

theorem c_eq (key : MaskingKey) : key.c = (List.range 4).map (keyStream key) := rfl

theorem holds_prepareMaskingKey (key : MaskingKey) :
    Holds (prepareMaskingKey key) (keyStream key) := by
  have hkey : key.toNat < 2 ^ 32 := key.toNat_lt
  have hvalue : (prepareMaskingKey key).toNat = 2 ^ 32 * key.toNat + key.toNat := by
    have hshift : key.toNat <<< 32 % 2 ^ 64 = key.toNat <<< 32 := by
      rw [Nat.shiftLeft_eq]
      omega
    rw [prepareMaskingKey, UInt64.toNat_or, UInt64.toNat_shiftLeft, UInt32.toNat_toUInt64]
    calc
      key.toNat <<< 32 % 2 ^ 64 ||| key.toNat = key.toNat <<< 32 + key.toNat := by
        rw [hshift, Nat.shiftLeft_add_eq_or_of_lt hkey]
      _ = 2 ^ 32 * key.toNat + key.toNat := by rw [Nat.shiftLeft_eq, Nat.mul_comm]
  have hbytes : wordBytes (prepareMaskingKey key) = key.c ++ key.c := by
    rw [wordBytes, hvalue]
    exact littleEndian_mul_add hkey 4 key.toNat
  refine ⟨?_, periodic_keyStream key⟩
  rw [hbytes, c_eq]
  rfl

theorem toNat_circshiftPreparedKey {preparedKey : UInt64} {offset : ℕ} (h0 : offset ≠ 0)
    (h : offset < 8) : (circshiftPreparedKey preparedKey offset).toNat =
      256 ^ (8 - offset) * (preparedKey.toNat % 256 ^ offset) +
        preparedKey.toNat / 256 ^ offset := by
  have hpow : ∀ n, 2 ^ (n * 8) = 256 ^ n := fun n => by rw [Nat.mul_comm, Nat.pow_mul]
  have hright : (UInt64.ofNat (offset * 8)).toNat % 64 = offset * 8 := by
    rw [UInt64.toNat_ofNat']
    omega
  have hleft : (UInt64.ofNat ((8 - offset) * 8)).toNat % 64 = (8 - offset) * 8 := by
    rw [UInt64.toNat_ofNat']
    omega
  have hsplit : 2 ^ 64 = 256 ^ offset * 256 ^ (8 - offset) := by
    rw [← Nat.pow_add, Nat.add_sub_cancel' (Nat.le_of_lt h)]
    rfl
  have hlow : preparedKey.toNat / 256 ^ offset < 2 ^ ((8 - offset) * 8) := by
    rw [hpow]
    exact Nat.div_lt_of_lt_mul (hsplit ▸ preparedKey.toNat_lt)
  have hhigh : preparedKey.toNat <<< ((8 - offset) * 8) % 2 ^ 64 =
      (preparedKey.toNat % 256 ^ offset) <<< ((8 - offset) * 8) := by
    rw [Nat.shiftLeft_eq, Nat.shiftLeft_eq, hpow, hsplit, Nat.mul_mod_mul_right]
  rw [circshiftPreparedKey, if_neg h0, UInt64.toNat_or, UInt64.toNat_shiftRight,
    UInt64.toNat_shiftLeft, hright, hleft, hhigh, Nat.shiftRight_eq_div_pow, hpow, Nat.or_comm,
    ← Nat.shiftLeft_add_eq_or_of_lt hlow, Nat.shiftLeft_eq, hpow, Nat.mul_comm]

theorem wordBytes_circshiftPreparedKey {preparedKey : UInt64} {offset : ℕ} (h : offset < 8) :
    wordBytes (circshiftPreparedKey preparedKey offset) =
      (wordBytes preparedKey).rotate offset := by
  by_cases h0 : offset = 0
  · rw [h0, List.rotate_zero]
    rfl
  · have hlen : offset ≤ (wordBytes preparedKey).length := by
      rw [wordBytes, length_littleEndian]
      omega
    have hbytes : wordBytes preparedKey = littleEndian offset preparedKey.toNat ++
        littleEndian (8 - offset) (preparedKey.toNat / 256 ^ offset) := by
      rw [← littleEndian_add, Nat.add_sub_cancel' (Nat.le_of_lt h), wordBytes]
    have hlow : preparedKey.toNat / 256 ^ offset < 256 ^ (8 - offset) := by
      apply Nat.div_lt_of_lt_mul
      rw [← Nat.pow_add, Nat.add_sub_cancel' (Nat.le_of_lt h)]
      exact preparedKey.toNat_lt
    have hparts := littleEndian_mul_add hlow offset (preparedKey.toNat % 256 ^ offset)
    rw [Nat.sub_add_cancel (Nat.le_of_lt h), littleEndian_mod] at hparts
    rw [List.rotate_eq_drop_append_take hlen, hbytes, List.drop_left' (length_littleEndian _ _),
      List.take_left' (length_littleEndian _ _), ← hparts, wordBytes,
      toNat_circshiftPreparedKey h0 h]

theorem Holds.congr {preparedKey : UInt64} {k : ℕ → UInt8} (h : Holds preparedKey k) {i j : ℕ}
    (hij : i % 4 = j % 4) : k i = k j := by
  rw [← h.periodic.map_mod_nat i, hij, h.periodic.map_mod_nat]

theorem Holds.circshift {preparedKey : UInt64} {k : ℕ → UInt8} (h : Holds preparedKey k)
    {offset : ℕ} (hoffset : offset < 8) :
    Holds (circshiftPreparedKey preparedKey offset) fun i => k (offset + i) := by
  have hmod : ∀ i, k (i % 8) = k i := fun i => h.congr (by omega)
  constructor
  · rw [wordBytes_circshiftPreparedKey hoffset, h.bytes]
    apply List.ext_getElem
    · simp
    · intro i hi hi'
      simp [List.getElem_rotate, hmod, Nat.add_comm]
  · intro i
    show k (offset + (i + 4)) = k (offset + i)
    rw [← Nat.add_assoc]
    exact h.periodic (offset + i)

theorem Holds.getD_wordBytes {preparedKey : UInt64} {k : ℕ → UInt8} (h : Holds preparedKey k)
    {i : ℕ} (hi : i < 8) : (wordBytes preparedKey).getD i 0 = k i := by
  rw [h.bytes, List.getD_eq_getElem?_getD, List.getElem?_map, List.getElem?_range hi]
  rfl

theorem c_toUInt32 (preparedKey : UInt64) :
    MaskingKey.c preparedKey.toUInt32 = (wordBytes preparedKey).take 4 := by
  have hbytes := littleEndian_add 4 4 preparedKey.toNat
  rw [wordBytes, hbytes, List.take_left' (length_littleEndian _ _), MaskingKey.c,
    UInt64.toNat_toUInt32]
  exact littleEndian_mod 4 preparedKey.toNat

theorem Holds.getD_c {preparedKey : UInt64} {k : ℕ → UInt8} (h : Holds preparedKey k) (i : ℕ) :
    (MaskingKey.c preparedKey.toUInt32).getD (i % 4) 0 = k i := by
  have hi : i % 4 < 4 := Nat.mod_lt _ (by omega)
  rw [c_toUInt32, List.getD_eq_getElem?_getD, List.getElem?_take_of_lt hi,
    ← List.getD_eq_getElem?_getD, h.getD_wordBytes (by omega), h.periodic.map_mod_nat]

theorem masked_congr {k l : ℕ → UInt8} {bs : List UInt8} (h : ∀ i < bs.length, k i = l i) :
    masked k bs = masked l bs := by
  apply List.ext_getElem
  · simp
  · intro i hi _
    rw [length_masked] at hi
    simp [masked, h i hi]

/-- **`byte_mask_circ` masks with the key stream**, and its new key holds the rest of the stream. -/
theorem byteMaskCirc_eq {preparedKey : UInt64} {k : ℕ → UInt8} (h : Holds preparedKey k)
    (input : List UInt8) : (byteMaskCirc input preparedKey).1 = masked k input ∧
      Holds (byteMaskCirc input preparedKey).2 fun i => k (input.length + i) := by
  constructor
  · exact masked_congr fun i _ => h.getD_c i
  · have hrest := h.circshift (show input.length % 4 < 8 by omega)
    have hstream : (fun i => k (input.length % 4 + i)) = fun i => k (input.length + i) := by
      funext i
      exact h.congr (Nat.mod_add_mod input.length 4 i)
    rwa [hstream] at hrest

theorem maskWords_eq {preparedKey : UInt64} {k : ℕ → UInt8} (h : Holds preparedKey k) (n : ℕ)
    {input : List UInt8} (hlen : n * 8 ≤ input.length) :
    maskWords preparedKey n input = masked k (input.take (n * 8)) := by
  induction n generalizing input with
  | zero => simp [maskWords]
  | succ n ih =>
    have htake : (input.take 8).length = 8 := by
      rw [List.length_take]
      omega
    have hword : littleEndian 8 (ofLittleEndian (input.take 8) ^^^ preparedKey.toNat) =
        masked k (input.take 8) := by
      have hbytes := littleEndian_ofLittleEndian (input.take 8)
      rw [htake] at hbytes
      rw [littleEndian_xor, hbytes]
      show List.zipWith (· ^^^ ·) (input.take 8) (wordBytes preparedKey) = _
      rw [h.bytes]
      apply List.ext_getElem
      · simp
      · intro i hi _
        simp [masked]
    have hmod : ∀ i, k (8 + i) = k i := fun i => h.congr (by omega)
    have hrest := ih (show n * 8 ≤ (input.drop 8).length by rw [List.length_drop]; omega)
    have hsplit : input.take ((n + 1) * 8) = input.take 8 ++ (input.drop 8).take (n * 8) := by
      rw [Nat.add_mul, Nat.one_mul, Nat.add_comm, List.take_add]
    rw [maskWords, hword, hrest, hsplit, masked_append, htake]
    congr 2
    funext i
    rw [hmod]

theorem maskWords_append {preparedKey : UInt64} {k : ℕ → UInt8} (h : Holds preparedKey k)
    (input : List UInt8) :
    maskWords preparedKey (input.length / 8) input ++
        masked (fun i => k (input.length / 8 * 8 + i)) (input.drop (input.length / 8 * 8)) =
      masked k input := by
  have hlen : input.length / 8 * 8 ≤ input.length := by omega
  have hsplit := masked_append k (input.take (input.length / 8 * 8))
    (input.drop (input.length / 8 * 8))
  rw [List.take_append_drop, List.length_take, Nat.min_eq_left hlen] at hsplit
  rw [maskWords_eq h _ hlen, hsplit]

theorem wordMaskCirc_spec {preparedKey : UInt64} {k : ℕ → UInt8} (h : Holds preparedKey k)
    (input : List UInt8) : (wordMaskCirc input preparedKey).1 = masked k input ∧
      Holds (wordMaskCirc input preparedKey).2 fun i => k (input.length + i) := by
  constructor
  · rw [← maskWords_append h input]
    show _ ++ masked (fun i => (wordBytes preparedKey).getD i 0) _ = _
    congr 1
    apply masked_congr
    intro i hi
    rw [List.length_drop] at hi
    rw [h.getD_wordBytes (by omega)]
    exact h.congr (by omega)
  · have hrest := h.circshift (show input.length - input.length / 8 * 8 < 8 by omega)
    have hstream : (fun i => k (input.length - input.length / 8 * 8 + i)) =
        fun i => k (input.length + i) := by
      funext i
      exact h.congr (by omega)
    rwa [hstream] at hrest

theorem Holds.unique {preparedKey preparedKey' : UInt64} {k : ℕ → UInt8}
    (h : Holds preparedKey k) (h' : Holds preparedKey' k) : preparedKey = preparedKey' := by
  apply UInt64.toNat_inj.mp
  have hbytes := h.bytes.trans h'.bytes.symm
  rw [← ofLittleEndian_littleEndian (k := 8) preparedKey.toNat_lt,
    ← ofLittleEndian_littleEndian (k := 8) preparedKey'.toNat_lt]
  exact congrArg ofLittleEndian hbytes

/-- **`word_mask_circ` is `byte_mask_circ`.** -/
theorem wordMaskCirc_eq {preparedKey : UInt64} {k : ℕ → UInt8} (h : Holds preparedKey k)
    (input : List UInt8) : wordMaskCirc input preparedKey = byteMaskCirc input preparedKey := by
  obtain ⟨hword, hwordKey⟩ := wordMaskCirc_spec h input
  obtain ⟨hbyte, hbyteKey⟩ := byteMaskCirc_eq h input
  exact Prod.ext (hword.trans hbyte.symm) (hwordKey.unique hbyteKey)

/-- **`word_mask_exact` is `byte_mask`.** -/
theorem wordMaskExact_eq (input : List UInt8) (key : MaskingKey) :
    wordMaskExact input key = byteMask input key 0 := by
  rw [byteMask_eq]
  have hstream : (fun i => keyStream key (0 + i)) = keyStream key := by
    funext i
    rw [Nat.zero_add]
  rw [hstream, ← maskWords_append (holds_prepareMaskingKey key) input]
  rfl

/-! ## Parts -/

/-- A payload is masked in parts, each word by word or byte by byte, and the key that one part
returns is used for the next. -/
def maskParts (preparedKey : UInt64) : List (Bool × List UInt8) → List UInt8
  | [] => []
  | (byWord, part) :: parts =>
    let r := if byWord then wordMaskCirc part preparedKey else byteMaskCirc part preparedKey
    r.1 ++ maskParts r.2 parts

theorem maskParts_eq {preparedKey : UInt64} {k : ℕ → UInt8} (h : Holds preparedKey k)
    (parts : List (Bool × List UInt8)) :
    maskParts preparedKey parts = masked k (parts.flatMap Prod.snd) := by
  induction parts generalizing preparedKey k with
  | nil => rfl
  | cons part parts ih =>
    obtain ⟨byWord, part⟩ := part
    have hpart : (if byWord = true then wordMaskCirc part preparedKey
        else byteMaskCirc part preparedKey) = byteMaskCirc part preparedKey := by
      cases byWord with
      | false => rfl
      | true => exact wordMaskCirc_eq h part
    obtain ⟨hbyte, hkey⟩ := byteMaskCirc_eq h part
    rw [maskParts, hpart, hbyte, ih hkey, List.flatMap_cons, masked_append]

/-- **The ways to mask agree**: in parts of any sizes, each word by word or byte by byte, and at
once, byte by byte or word by word; and masked again in any other parts it is the payload. -/
theorem masking_agrees (key : MaskingKey) (parts : List (Bool × List UInt8)) :
    maskParts (prepareMaskingKey key) parts = byteMask (parts.flatMap Prod.snd) key 0 ∧
      maskParts (prepareMaskingKey key) parts = wordMaskExact (parts.flatMap Prod.snd) key ∧
      ∀ parts' : List (Bool × List UInt8),
        parts'.flatMap Prod.snd = maskParts (prepareMaskingKey key) parts →
        maskParts (prepareMaskingKey key) parts' = parts.flatMap Prod.snd := by
  have hprepared := holds_prepareMaskingKey key
  have hexact := wordMaskExact_eq (parts.flatMap Prod.snd) key
  have hbyte := byteMask_eq (parts.flatMap Prod.snd) key 0
  have hparts := maskParts_eq hprepared parts
  simp only [Nat.zero_add] at hbyte
  refine ⟨hparts.trans hbyte.symm, hparts.trans (hexact.trans hbyte).symm, ?_⟩
  intro parts' h
  rw [maskParts_eq hprepared, h, hparts, masked_masked]

end SyntheticArbitrage.WebSocket
