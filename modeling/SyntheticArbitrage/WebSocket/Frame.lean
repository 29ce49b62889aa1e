import SyntheticArbitrage.WebSocket.Masking

/-!
# The headers of frames

`libs/websocketpp/frame.hpp`.  A frame has a basic header of two bytes, an extended header of up to
twelve and a payload.

* `BasicHeader.new`, `ExtendedHeader.ofSize`, `ExtendedHeader.ofKey`, `prepareHeader`: writing.
* `getFin`, `getOpcode`, `getPayloadSize`, `getMaskingKey`: reading.
* `Frame.header`: the bytes of the header of a frame in the format of the protocol.
* `prepareHeader_eq`: **the header that is written is the one of the protocol**.
-/

namespace SyntheticArbitrage.WebSocket

open ByteOrder

/-- `opcode::value`. -/
inductive Opcode where
  | continuation
  | text
  | binary
  | rsv3
  | rsv4
  | rsv5
  | rsv6
  | rsv7
  | close
  | ping
  | pong
  | controlRsvb
  | controlRsvc
  | controlRsvd
  | controlRsve
  | controlRsvf
deriving DecidableEq

namespace Opcode

def value : Opcode → UInt8
  | continuation => 0x0
  | text => 0x1
  | binary => 0x2
  | rsv3 => 0x3
  | rsv4 => 0x4
  | rsv5 => 0x5
  | rsv6 => 0x6
  | rsv7 => 0x7
  | close => 0x8
  | ping => 0x9
  | pong => 0xA
  | controlRsvb => 0xB
  | controlRsvc => 0xC
  | controlRsvd => 0xD
  | controlRsve => 0xE
  | controlRsvf => 0xF

def ofValue (v : UInt8) : Opcode :=
  match v.toNat with
  | 0 => continuation
  | 1 => text
  | 2 => binary
  | 3 => rsv3
  | 4 => rsv4
  | 5 => rsv5
  | 6 => rsv6
  | 7 => rsv7
  | 8 => close
  | 9 => ping
  | 10 => pong
  | 11 => controlRsvb
  | 12 => controlRsvc
  | 13 => controlRsvd
  | 14 => controlRsve
  | _ => controlRsvf

/-- `opcode::reserved`. -/
def reserved (v : Opcode) : Bool :=
  (rsv3.value ≤ v.value && v.value ≤ rsv7.value) ||
    (controlRsvb.value ≤ v.value && v.value ≤ controlRsvf.value)

/-- `opcode::invalid`. -/
def invalid (v : Opcode) : Bool := 0xF < v.value

/-- `opcode::is_control`. -/
def isControl (v : Opcode) : Bool := 0x8 ≤ v.value

end Opcode

/-! ## The fields -/

def bhb0Opcode : UInt8 := 0x0F
def bhb0Rsv3 : UInt8 := 0x10
def bhb0Rsv2 : UInt8 := 0x20
def bhb0Rsv1 : UInt8 := 0x40
def bhb0Fin : UInt8 := 0x80
def bhb1Payload : UInt8 := 0x7F
def bhb1Mask : UInt8 := 0x80

/-- `payload_size_code_16bit`. -/
def payloadSizeCode16 : UInt8 := 0x7E

/-- `payload_size_code_64bit`. -/
def payloadSizeCode64 : UInt8 := 0x7F

/-- `limits::payload_size_basic`. -/
def payloadSizeBasic : ℕ := 125

/-- `limits::payload_size_extended`. -/
def payloadSizeExtended : ℕ := 0xFFFF

/-- `MAX_EXTENDED_HEADER_LENGTH`. -/
def maxExtendedHeaderLength : ℕ := 12

structure BasicHeader where
  b0 : UInt8
  b1 : UInt8
deriving DecidableEq

namespace BasicHeader

/-- The code of a size in the second byte. -/
def basicValue (size : ℕ) : UInt8 :=
  if size ≤ payloadSizeBasic then UInt8.ofNat size
  else if size ≤ payloadSizeExtended then payloadSizeCode16
  else payloadSizeCode64

/-- The constructor with fields; the frames of the library leave the second and third reserved bit
out. -/
def new (op : Opcode) (size : ℕ) (fin mask rsv1 : Bool) : BasicHeader where
  b0 := (if fin then bhb0Fin else 0) ||| (if rsv1 then bhb0Rsv1 else 0) |||
    (op.value &&& bhb0Opcode)
  b1 := (if mask then bhb1Mask else 0) ||| basicValue size

variable (h : BasicHeader)

def getFin : Bool := h.b0 &&& bhb0Fin = bhb0Fin
def getRsv1 : Bool := h.b0 &&& bhb0Rsv1 = bhb0Rsv1
def getRsv2 : Bool := h.b0 &&& bhb0Rsv2 = bhb0Rsv2
def getRsv3 : Bool := h.b0 &&& bhb0Rsv3 = bhb0Rsv3
def getOpcode : Opcode := .ofValue (h.b0 &&& bhb0Opcode)
def getMasked : Bool := h.b1 &&& bhb1Mask = bhb1Mask
def getBasicSize : UInt8 := h.b1 &&& bhb1Payload

/-- `get_masking_key_offset`. -/
def getMaskingKeyOffset : ℕ :=
  if h.getBasicSize = payloadSizeCode16 then 2
  else if h.getBasicSize = payloadSizeCode64 then 8
  else 0

/-- `get_header_len`. -/
def getHeaderLen : ℕ := 2 + h.getMaskingKeyOffset + if h.getMasked then 4 else 0

end BasicHeader

/-- `std::copy` of bytes to a place in a buffer. -/
def copyTo (buffer : List UInt8) (offset : ℕ) (bytes : List UInt8) : List UInt8 :=
  buffer.take offset ++ bytes ++ buffer.drop (offset + bytes.length)

/-- The bytes of an extended header: twelve, as long as no more are copied. -/
abbrev ExtendedHeader := List UInt8

namespace ExtendedHeader

def empty : ExtendedHeader := List.replicate maxExtendedHeaderLength 0

/-- `copy_payload`: the header, and the number of bytes that were copied. -/
def copyPayload (e : ExtendedHeader) (payloadSize : ℕ) : ExtendedHeader × ℕ :=
  let payloadOffset :=
    if payloadSize ≤ payloadSizeBasic then 8 else if payloadSize ≤ payloadSizeExtended then 6 else 0
  (copyTo e 0 ((network 8 payloadSize).drop payloadOffset), 8 - payloadOffset)

def ofSize (payloadSize : ℕ) : ExtendedHeader := (empty.copyPayload payloadSize).1

def ofKey (payloadSize : ℕ) (maskingKey : MaskingKey) : ExtendedHeader :=
  let (e, offset) := empty.copyPayload payloadSize
  copyTo e offset maskingKey.c

end ExtendedHeader

/-- `prepare_header`. -/
def prepareHeader (h : BasicHeader) (e : ExtendedHeader) : List UInt8 :=
  h.b0 :: h.b1 :: e.take (h.getHeaderLen - 2)

/-- `get_masking_key`. -/
def getMaskingKey (h : BasicHeader) (e : ExtendedHeader) : MaskingKey :=
  if h.getMasked then UInt32.ofNat (ofLittleEndian ((e.drop h.getMaskingKeyOffset).take 4)) else 0

/-- `get_extended_size`. -/
def getExtendedSize (e : ExtendedHeader) : ℕ := ofNetwork (e.take 2)

/-- `get_jumbo_size`. -/
def getJumboSize (e : ExtendedHeader) : ℕ := ofNetwork (e.take 8)

/-- `get_payload_size`. -/
def getPayloadSize (h : BasicHeader) (e : ExtendedHeader) : ℕ :=
  if h.getBasicSize.toNat ≤ payloadSizeBasic then h.getBasicSize.toNat
  else if h.getBasicSize = payloadSizeCode16 then getExtendedSize e
  else getJumboSize e

/-! ## The format -/

/-- A frame of the protocol with an unmasked payload.  Its length has at most 64 bits. -/
structure Frame where
  fin : Bool
  opcode : Opcode
  key : Option MaskingKey
  payload : List UInt8
  fits : payload.length < 2 ^ 64

namespace Frame

/-- The seven bits of a length, and the bytes of a longer one. -/
def lengthField (n : ℕ) : ℕ × List UInt8 :=
  if n < 126 then (n, []) else if n < 2 ^ 16 then (126, network 2 n) else (127, network 8 n)

variable (f : Frame)

def byte0 : UInt8 := UInt8.ofNat ((if f.fin then 128 else 0) + f.opcode.value.toNat)

def byte1 : UInt8 :=
  UInt8.ofNat ((if f.key.isSome then 128 else 0) + (lengthField f.payload.length).1)

def extension : List UInt8 := (lengthField f.payload.length).2 ++ f.key.elim [] MaskingKey.c

def header : List UInt8 := f.byte0 :: f.byte1 :: f.extension

/-- The payload with its mask. -/
def body : List UInt8 := f.key.elim f.payload fun key => masked (keyStream key) f.payload

def wire : List UInt8 := f.header ++ f.body

theorem length_body : f.body.length = f.payload.length := by
  rw [body]
  cases f.key with
  | none => rfl
  | some key => exact length_masked _ _

theorem lengthField_le (n : ℕ) : (lengthField n).1 ≤ 127 := by
  rw [lengthField]
  split_ifs
  · show n ≤ 127
    omega
  · exact Nat.le_succ 126
  · exact Nat.le_refl 127

end Frame

/-! ## Reading a header -/

theorem byte0_fields (fin : Bool) (op : Opcode) (b1 : UInt8) :
    let h : BasicHeader := ⟨UInt8.ofNat ((if fin then 128 else 0) + op.value.toNat), b1⟩
    h.getFin = fin ∧ h.getRsv1 = false ∧ h.getRsv2 = false ∧ h.getRsv3 = false ∧
      h.getOpcode = op := by
  have hall : let h : BasicHeader :=
        ⟨UInt8.ofNat ((if fin then 128 else 0) + op.value.toNat), 0⟩
      h.getFin = fin ∧ h.getRsv1 = false ∧ h.getRsv2 = false ∧ h.getRsv3 = false ∧
        h.getOpcode = op := by
    cases fin <;> cases op <;> decide
  exact hall

theorem byte0_eq (h : BasicHeader) (hrsv1 : h.getRsv1 = false) (hrsv2 : h.getRsv2 = false)
    (hrsv3 : h.getRsv3 = false) :
    h.b0 = UInt8.ofNat ((if h.getFin then 128 else 0) + h.getOpcode.value.toNat) := by
  have hall : ∀ n : Fin 256, let h : BasicHeader := ⟨UInt8.ofFin n, 0⟩
      h.getRsv1 = false → h.getRsv2 = false → h.getRsv3 = false →
        h.b0 = UInt8.ofNat ((if h.getFin then 128 else 0) + h.getOpcode.value.toNat) := by
    decide +kernel
  exact hall h.b0.toFin hrsv1 hrsv2 hrsv3

theorem byte1_fields (b0 : UInt8) (isMasked : Bool) {code : ℕ} (hcode : code ≤ 127) :
    let h : BasicHeader := ⟨b0, UInt8.ofNat ((if isMasked then 128 else 0) + code)⟩
    h.getMasked = isMasked ∧ h.getBasicSize = UInt8.ofNat code := by
  have hall : ∀ n : Fin 128, ∀ isMasked : Bool,
      (⟨0, UInt8.ofNat ((if isMasked then 128 else 0) + n.val)⟩ : BasicHeader).getMasked =
          isMasked ∧
        (⟨0, UInt8.ofNat ((if isMasked then 128 else 0) + n.val)⟩ : BasicHeader).getBasicSize =
          UInt8.ofNat n.val := by
    decide
  exact hall ⟨code, Nat.lt_succ_of_le hcode⟩ isMasked

theorem byte1_eq (h : BasicHeader) :
    h.b1 = UInt8.ofNat ((if h.getMasked then 128 else 0) + h.getBasicSize.toNat) ∧
      h.getBasicSize.toNat ≤ 127 := by
  have hall : ∀ n : Fin 256, let h : BasicHeader := ⟨0, UInt8.ofFin n⟩
      h.b1 = UInt8.ofNat ((if h.getMasked then 128 else 0) + h.getBasicSize.toNat) ∧
        h.getBasicSize.toNat ≤ 127 := by
    decide +kernel
  exact hall h.b1.toFin

section

variable {h : BasicHeader}

theorem size_of_small (hsize : h.getBasicSize.toNat ≤ payloadSizeBasic) :
    h.getMaskingKeyOffset = 0 ∧ ∀ e, getPayloadSize h e = h.getBasicSize.toNat := by
  have hne : ∀ code : UInt8, payloadSizeBasic < code.toNat → h.getBasicSize ≠ code := by
    intro code hcode heq
    rw [heq] at hsize
    omega
  refine ⟨?_, fun e => if_pos hsize⟩
  rw [BasicHeader.getMaskingKeyOffset, if_neg (hne payloadSizeCode16 (by decide)),
    if_neg (hne payloadSizeCode64 (by decide))]

theorem size_of_code16 (hsize : h.getBasicSize = payloadSizeCode16) :
    h.getMaskingKeyOffset = 2 ∧ ∀ e, getPayloadSize h e = getExtendedSize e := by
  refine ⟨if_pos hsize, fun e => ?_⟩
  rw [getPayloadSize, hsize]
  rfl

theorem size_of_code64 (hsize : h.getBasicSize = payloadSizeCode64) :
    h.getMaskingKeyOffset = 8 ∧ ∀ e, getPayloadSize h e = getJumboSize e := by
  constructor
  · rw [BasicHeader.getMaskingKeyOffset, hsize]
    rfl
  · intro e
    rw [getPayloadSize, hsize]
    rfl

theorem basicSize_cases (h : BasicHeader) : h.getBasicSize.toNat ≤ payloadSizeBasic ∨
    h.getBasicSize = payloadSizeCode16 ∨ h.getBasicSize = payloadSizeCode64 := by
  have hle := (byte1_eq h).2
  have hcode : ∀ code : UInt8, h.getBasicSize = code ↔ h.getBasicSize.toNat = code.toNat :=
    fun code => UInt8.toNat_inj.symm
  rw [hcode, hcode, show payloadSizeCode16.toNat = 126 from rfl,
    show payloadSizeCode64.toNat = 127 from rfl, payloadSizeBasic]
  omega

end

namespace Frame

variable (f : Frame)

def basicHeader : BasicHeader := ⟨f.byte0, f.byte1⟩

@[simp] theorem getFin_basicHeader : f.basicHeader.getFin = f.fin := (byte0_fields _ _ _).1

@[simp] theorem getRsv1_basicHeader : f.basicHeader.getRsv1 = false := (byte0_fields _ _ _).2.1

@[simp] theorem getRsv2_basicHeader : f.basicHeader.getRsv2 = false := (byte0_fields _ _ _).2.2.1

@[simp] theorem getRsv3_basicHeader : f.basicHeader.getRsv3 = false :=
  (byte0_fields _ _ _).2.2.2.1

@[simp] theorem getOpcode_basicHeader : f.basicHeader.getOpcode = f.opcode :=
  (byte0_fields _ _ _).2.2.2.2

@[simp] theorem getMasked_basicHeader : f.basicHeader.getMasked = f.key.isSome :=
  (byte1_fields _ _ (lengthField_le _)).1

theorem getBasicSize_basicHeader :
    f.basicHeader.getBasicSize = UInt8.ofNat (lengthField f.payload.length).1 :=
  (byte1_fields _ _ (lengthField_le _)).2

theorem toNat_getBasicSize :
    f.basicHeader.getBasicSize.toNat = (lengthField f.payload.length).1 := by
  have hle := lengthField_le f.payload.length
  rw [getBasicSize_basicHeader, UInt8.toNat_ofNat']
  omega

theorem lengthField_cases {n : ℕ} (hn : n < 2 ^ 64) :
    n ≤ 125 ∧ lengthField n = (n, []) ∨
      125 < n ∧ n < 256 ^ 2 ∧ lengthField n = (126, network 2 n) ∨
      256 ^ 2 ≤ n ∧ n < 256 ^ 8 ∧ lengthField n = (127, network 8 n) := by
  rw [lengthField]
  split_ifs with hsmall hmedium
  · exact .inl ⟨by omega, rfl⟩
  · exact .inr (.inl ⟨by omega, hmedium, rfl⟩)
  · exact .inr (.inr ⟨Nat.le_of_not_lt hmedium, hn, rfl⟩)

/-- **The size that is read is the length of the payload.** -/
theorem size_basicHeader :
    f.basicHeader.getMaskingKeyOffset = (lengthField f.payload.length).2.length ∧
      ∀ more, getPayloadSize f.basicHeader (f.extension ++ more) = f.payload.length := by
  have hsize := f.toNat_getBasicSize
  have hcode := f.getBasicSize_basicHeader
  rw [extension]
  obtain ⟨hle, hfield⟩ | ⟨-, hlt, hfield⟩ | ⟨-, hlt, hfield⟩ := lengthField_cases f.fits
  all_goals rw [hfield] at hsize hcode ⊢
  · obtain ⟨hoffset, hpayload⟩ := size_of_small (hsize.trans_le hle)
    exact ⟨hoffset, fun more => (hpayload _).trans hsize⟩
  · obtain ⟨hoffset, hpayload⟩ := size_of_code16 hcode
    refine ⟨by rw [hoffset, length_network], fun more => ?_⟩
    rw [hpayload, getExtendedSize, List.append_assoc, List.take_left' (length_network _ _),
      ofNetwork_network hlt]
  · obtain ⟨hoffset, hpayload⟩ := size_of_code64 hcode
    refine ⟨by rw [hoffset, length_network], fun more => ?_⟩
    rw [hpayload, getJumboSize, List.append_assoc, List.take_left' (length_network _ _),
      ofNetwork_network hlt]

theorem getHeaderLen_basicHeader : f.basicHeader.getHeaderLen = 2 + f.extension.length := by
  rw [BasicHeader.getHeaderLen, f.size_basicHeader.1, getMasked_basicHeader, extension,
    List.length_append, Nat.add_assoc]
  cases f.key with
  | none => rfl
  | some key => rw [Option.elim_some, MaskingKey.c, length_littleEndian]; rfl

/-- **The masking key that is read is the one of the frame.** -/
theorem getMaskingKey_basicHeader (more : List UInt8) :
    getMaskingKey f.basicHeader (f.extension ++ more) = f.key.getD 0 := by
  rw [getMaskingKey, getMasked_basicHeader, f.size_basicHeader.1, extension,
    List.append_assoc, List.drop_left]
  cases f.key with
  | none => rfl
  | some key =>
    rw [Option.elim_some, MaskingKey.c, List.take_left' (length_littleEndian _ _),
      ofLittleEndian_littleEndian key.toNat_lt]
    exact UInt32.ofNat_toNat

end Frame

/-! ## Writing a header -/

theorem byte0_new (op : Opcode) (size : ℕ) (fin isMasked : Bool) :
    (BasicHeader.new op size fin isMasked false).b0 =
      UInt8.ofNat ((if fin then 128 else 0) + op.value.toNat) := by
  cases fin <;> cases op <;> rfl

theorem basicValue_eq (size : ℕ) :
    BasicHeader.basicValue size = UInt8.ofNat (Frame.lengthField size).1 := by
  rw [BasicHeader.basicValue, Frame.lengthField, payloadSizeBasic, payloadSizeExtended]
  by_cases hsmall : size ≤ 125
  · rw [if_pos hsmall, if_pos (by omega)]
  · rw [if_neg hsmall, if_neg (show ¬size < 126 by omega)]
    by_cases hmedium : size ≤ 0xFFFF
    · rw [if_pos hmedium, if_pos (by omega)]
      rfl
    · rw [if_neg hmedium, if_neg (by omega)]
      rfl

theorem byte1_new (op : Opcode) (size : ℕ) (fin isMasked : Bool) :
    (BasicHeader.new op size fin isMasked false).b1 =
      UInt8.ofNat ((if isMasked then 128 else 0) + (Frame.lengthField size).1) := by
  have hall : ∀ n : Fin 128, ∀ isMasked : Bool,
      (if isMasked then bhb1Mask else 0) ||| UInt8.ofNat n.val =
        UInt8.ofNat ((if isMasked then 128 else 0) + n.val) := by
    decide
  show (if isMasked then bhb1Mask else 0) ||| BasicHeader.basicValue size = _
  rw [basicValue_eq]
  exact hall ⟨_, Nat.lt_succ_of_le (Frame.lengthField_le size)⟩ isMasked

theorem copyPayload_eq (e : ExtendedHeader) (size : ℕ) :
    e.copyPayload size =
      (copyTo e 0 (Frame.lengthField size).2, (Frame.lengthField size).2.length) := by
  rw [ExtendedHeader.copyPayload, Frame.lengthField, payloadSizeBasic, payloadSizeExtended]
  by_cases hsmall : size ≤ 125
  · rw [if_pos hsmall, if_pos (by omega)]
    dsimp only
    rw [drop_network 0 8 size]
    rfl
  · rw [if_neg hsmall, if_neg (show ¬size < 126 by omega)]
    by_cases hmedium : size ≤ 0xFFFF
    · rw [if_pos hmedium, if_pos (by omega)]
      dsimp only
      rw [drop_network 2 6 size, length_network]
    · rw [if_neg hmedium, if_neg (by omega)]
      dsimp only
      rw [drop_network 8 0 size, length_network]

/-- **The header that is prepared is the one of the frame.** -/
theorem prepareHeader_eq (f : Frame) :
    prepareHeader (.new f.opcode f.payload.length f.fin f.key.isSome false)
        (f.key.elim (.ofSize f.payload.length) (.ofKey f.payload.length)) = f.header := by
  have hbasic : BasicHeader.new f.opcode f.payload.length f.fin f.key.isSome false =
      f.basicHeader := by
    rw [Frame.basicHeader, Frame.byte0, Frame.byte1, ← byte0_new f.opcode f.payload.length f.fin
      f.key.isSome, ← byte1_new f.opcode f.payload.length f.fin f.key.isSome]
  have hextended : ∃ more, f.key.elim (ExtendedHeader.ofSize f.payload.length)
      (.ofKey f.payload.length) = f.extension ++ more := by
    rw [Frame.extension]
    cases f.key with
    | none =>
      rw [Option.elim_none, ExtendedHeader.ofSize, copyPayload_eq, copyTo, List.take_zero,
        List.nil_append, Option.elim_none, List.append_nil]
      exact ⟨_, rfl⟩
    | some key =>
      rw [Option.elim_some, ExtendedHeader.ofKey, copyPayload_eq]
      dsimp only
      rw [copyTo, copyTo, List.take_zero, List.nil_append, List.take_left, Option.elim_some]
      exact ⟨_, rfl⟩
  obtain ⟨more, hmore⟩ := hextended
  rw [hbasic, prepareHeader, hmore, Frame.getHeaderLen_basicHeader, Nat.add_sub_cancel_left,
    List.take_left]
  rfl

/-! ## Every header is the one of a frame -/

variable {h : BasicHeader} {ext : List UInt8}

theorem lengthField_getPayloadSize (hext : h.getMaskingKeyOffset ≤ ext.length) (more : List UInt8)
    (h16 : h.getBasicSize = payloadSizeCode16 → payloadSizeBasic < getPayloadSize h (ext ++ more))
    (h64 : h.getBasicSize = payloadSizeCode64 →
      payloadSizeExtended < getPayloadSize h (ext ++ more)) :
    getPayloadSize h (ext ++ more) < 2 ^ 64 ∧ Frame.lengthField (getPayloadSize h (ext ++ more)) =
      (h.getBasicSize.toNat, ext.take h.getMaskingKeyOffset) := by
  have hnetwork : ∀ n, n ≤ ext.length →
      network n (ofNetwork ((ext ++ more).take n)) = ext.take n ∧
        ofNetwork ((ext ++ more).take n) < 256 ^ n := by
    intro n hn
    have hinverse := network_ofNetwork (ext.take n)
    have hlt := ofNetwork_lt (ext.take n)
    rw [List.length_take, Nat.min_eq_left hn] at hinverse hlt
    rw [List.take_append_of_le_length hn]
    exact ⟨hinverse, hlt⟩
  obtain hsmall | hcode | hcode := basicSize_cases h
  · obtain ⟨hoffset, hpayload⟩ := size_of_small hsmall
    rw [payloadSizeBasic] at hsmall
    rw [hpayload, hoffset, Frame.lengthField, if_pos (by omega), List.take_zero]
    exact ⟨by omega, rfl⟩
  · obtain ⟨hoffset, hpayload⟩ := size_of_code16 hcode
    have hminimal := h16 hcode
    rw [hoffset] at hext
    obtain ⟨hinverse, hlt⟩ := hnetwork 2 hext
    rw [hpayload, getExtendedSize, payloadSizeBasic] at hminimal
    rw [hpayload, getExtendedSize, hoffset, hcode, Frame.lengthField, if_neg (by omega),
      if_pos (show _ < 2 ^ 16 from hlt), hinverse]
    exact ⟨by omega, rfl⟩
  · obtain ⟨hoffset, hpayload⟩ := size_of_code64 hcode
    have hminimal := h64 hcode
    rw [hoffset] at hext
    obtain ⟨hinverse, hlt⟩ := hnetwork 8 hext
    rw [hpayload, getJumboSize, payloadSizeExtended] at hminimal
    rw [hpayload, getJumboSize, hoffset, hcode, Frame.lengthField, if_neg (by omega),
      if_neg (by omega), hinverse]
    exact ⟨hlt, rfl⟩

/-- **Every header without reserved bits and with a minimal length is the header of a frame**, with
any bytes of its payload. -/
theorem exists_frame (hrsv1 : h.getRsv1 = false) (hrsv2 : h.getRsv2 = false)
    (hrsv3 : h.getRsv3 = false) (hext : 2 + ext.length = h.getHeaderLen) (more : List UInt8)
    (h16 : h.getBasicSize = payloadSizeCode16 → payloadSizeBasic < getPayloadSize h (ext ++ more))
    (h64 : h.getBasicSize = payloadSizeCode64 →
      payloadSizeExtended < getPayloadSize h (ext ++ more))
    {body : List UInt8} (hbody : body.length = getPayloadSize h (ext ++ more)) :
    ∃ f : Frame, f.basicHeader = h ∧ f.extension = ext ∧ f.body = body := by
  rw [BasicHeader.getHeaderLen, Nat.add_assoc, Nat.add_left_cancel_iff] at hext
  obtain ⟨hfits, hfield⟩ := lengthField_getPayloadSize (by omega) more h16 h64
  rw [← hbody] at hfits hfield
  have hkey : ∃ (key : Option MaskingKey) (payload : List UInt8), key.isSome = h.getMasked ∧
      key.elim [] MaskingKey.c = ext.drop h.getMaskingKeyOffset ∧ payload.length = body.length ∧
        (key.elim payload fun key => masked (keyStream key) payload) = body := by
    have hlen : (ext.drop h.getMaskingKeyOffset).length = if h.getMasked then 4 else 0 := by
      rw [List.length_drop, hext, Nat.add_sub_cancel_left]
    cases hmasked : h.getMasked with
    | false =>
      rw [hmasked] at hlen
      exact ⟨none, body, rfl, (List.eq_nil_of_length_eq_zero hlen).symm, rfl, rfl⟩
    | true =>
      rw [hmasked, if_pos rfl] at hlen
      have hinverse := littleEndian_ofLittleEndian (ext.drop h.getMaskingKeyOffset)
      have hlt := ofLittleEndian_lt (ext.drop h.getMaskingKeyOffset)
      rw [hlen] at hinverse hlt
      refine ⟨some (UInt32.ofNat (ofLittleEndian (ext.drop h.getMaskingKeyOffset))),
        masked (keyStream _) body, rfl, ?_, length_masked _ _, masked_masked _ _⟩
      rw [Option.elim_some, MaskingKey.c, UInt32.toNat_ofNat',
        Nat.mod_eq_of_lt (show _ < 2 ^ 32 from hlt), hinverse]
  obtain ⟨key, payload, hsome, hbytes, hlen, hpayload⟩ := hkey
  rw [← hlen] at hfits hfield
  refine ⟨⟨h.getFin, h.getOpcode, key, payload, hfits⟩, ?_, ?_, hpayload⟩
  · rw [Frame.basicHeader, Frame.byte0, Frame.byte1, hsome, hfield, ← (byte1_eq h).1,
      ← byte0_eq h hrsv1 hrsv2 hrsv3]
  · rw [Frame.extension, hfield, hbytes]
    exact List.take_append_drop _ _

end SyntheticArbitrage.WebSocket
