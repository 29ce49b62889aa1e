import SyntheticArbitrage.WebSocket.Stream

/-!
# Frames that are sent

`prepare_data_frame`, `prepare_ping`, `prepare_pong` and `prepare_close` of
`libs/websocketpp/processors/hybi13.hpp`.  The random number of a masking key is a parameter.

* `Sent.prepare`: the header and the payload that are written.
* `Sent.exists_frame`: they are the bytes of a frame.
* `read_sent`: **the other side reads the messages that were sent**, in order and without an error.
-/

namespace SyntheticArbitrage.WebSocket

open ByteOrder Trace

/-! ## Preparing messages -/

/-- `masked_copy`. -/
def maskedCopy (i : List UInt8) (key : MaskingKey) : List UInt8 := byteMask i key 0

/-- The header and the payload of a frame, as both functions below set them. -/
def Message.prepare (out : Message) (isServer : Bool) (rng : MaskingKey) (op : Opcode) (fin : Bool)
    (payload : List UInt8) : Message :=
  let isMasked := !isServer
  let h := BasicHeader.new op payload.length fin isMasked false
  { out with
    opcode := op
    payload := if isMasked then maskedCopy payload rng else payload
    header :=
      if isMasked then prepareHeader h (.ofKey payload.length rng)
      else prepareHeader h (.ofSize payload.length)
    prepared := true }

/-- `prepare_data_frame`. -/
def prepareDataFrame (isServer : Bool) (rng : MaskingKey) (msg out : Message) :
    Except ProcessorError Message :=
  if msg.opcode.isControl then .error .invalidOpcode
  else if msg.opcode = .text && !validate msg.payload then .error .invalidPayload
  else .ok (out.prepare isServer rng msg.opcode msg.fin msg.payload)

/-- `prepare_control`. -/
def prepareControl (isServer : Bool) (rng : MaskingKey) (op : Opcode) (payload : List UInt8)
    (out : Message) : Except ProcessorError Message :=
  if !op.isControl then .error .invalidOpcode
  else if payloadSizeBasic < payload.length then .error .controlTooBig
  else .ok (out.prepare isServer rng op true payload)

/-- `prepare_ping`. -/
def preparePing (isServer : Bool) (rng : MaskingKey) (payload : List UInt8) (out : Message) :
    Except ProcessorError Message :=
  prepareControl isServer rng .ping payload out

/-- `prepare_pong`. -/
def preparePong (isServer : Bool) (rng : MaskingKey) (payload : List UInt8) (out : Message) :
    Except ProcessorError Message :=
  prepareControl isServer rng .pong payload out

namespace CloseStatus

def noStatus : UInt16 := 1005
def abnormalClose : UInt16 := 1006
def tlsHandshake : UInt16 := 1015
def rsvStart : UInt16 := 1016
def rsvEnd : UInt16 := 2999
def invalidLow : UInt16 := 999
def invalidHigh : UInt16 := 5000

/-- `close::status::reserved`. -/
def reserved (code : UInt16) : Bool := (rsvStart ≤ code && code ≤ rsvEnd) || code = 1004

/-- `close::status::invalid`. -/
def invalid (code : UInt16) : Bool :=
  code ≤ invalidLow || invalidHigh ≤ code || code = noStatus || code = abnormalClose ||
    code = tlsHandshake

end CloseStatus

def closePayload (code : UInt16) (reason : List UInt8) : List UInt8 :=
  if code ≠ CloseStatus.noStatus then network 2 code.toNat ++ reason else []

/-- `prepare_close`. -/
def prepareClose (isServer : Bool) (rng : MaskingKey) (code : UInt16) (reason : List UInt8)
    (out : Message) : Except ProcessorError Message :=
  if CloseStatus.reserved code then .error .reservedCloseCode
  else if CloseStatus.invalid code && code ≠ CloseStatus.noStatus then .error .invalidCloseCode
  else if code = CloseStatus.noStatus && 0 < reason.length then .error .reasonRequiresCode
  else if payloadSizeBasic - 2 < reason.length then .error .controlTooBig
  else prepareControl isServer rng .close (closePayload code reason) out

/-! ## What is sent -/

inductive Sent where
  | data (msg : Message)
  | ping (payload : List UInt8)
  | pong (payload : List UInt8)
  | close (code : UInt16) (reason : List UInt8)

namespace Sent

/-- The prepared message, with the random number that is drawn for it. -/
def prepare (isServer : Bool) (rng : MaskingKey) (out : Message) :
    Sent → Except ProcessorError Message
  | data msg => prepareDataFrame isServer rng msg out
  | ping payload => preparePing isServer rng payload out
  | pong payload => preparePong isServer rng payload out
  | close code reason => prepareClose isServer rng code reason out

def opcode : Sent → Opcode
  | data msg => msg.opcode
  | ping _ => .ping
  | pong _ => .pong
  | close _ _ => .close

def fin : Sent → Bool
  | data msg => msg.fin
  | _ => true

def payload : Sent → List UInt8
  | data msg => msg.payload
  | ping payload => payload
  | pong payload => payload
  | close code reason => closePayload code reason

/-- A text or binary message in one frame, or a control message. -/
def Whole : Sent → Prop
  | data msg => msg.fin = true ∧ (msg.opcode = .text ∨ msg.opcode = .binary)
  | _ => True

def message (s : Sent) : Message := Fragments.message ⟨s.opcode, s.payload⟩

end Sent

/-! ## The bytes of a frame -/

theorem Message.prepare_wire (out : Message) (isServer : Bool) (rng : MaskingKey) (op : Opcode)
    (fin : Bool) {payload : List UInt8} (hfits : payload.length < 2 ^ 64) :
    (out.prepare isServer rng op fin payload).header ++
        (out.prepare isServer rng op fin payload).payload =
      Frame.wire ⟨fin, op, if isServer then none else some rng, payload, hfits⟩ := by
  have hheader := prepareHeader_eq ⟨fin, op, if isServer then none else some rng, payload, hfits⟩
  rw [Frame.wire, ← hheader]
  cases isServer with
  | true => rfl
  | false =>
    have hmasked : maskedCopy payload rng = masked (keyStream rng) payload := by
      rw [maskedCopy, byteMask_eq]
      simp only [Nat.zero_add]
    show prepareHeader _ _ ++ maskedCopy payload rng = _
    rw [hmasked]
    rfl

theorem Sent.of_prepare {isServer : Bool} {rng : MaskingKey} {out m : Message} {s : Sent}
    (h : s.prepare isServer rng out = .ok m) :
    m = out.prepare isServer rng s.opcode s.fin s.payload ∧
      (s.opcode.isControl = true → s.payload.length ≤ 125) ∧
      (s.opcode = .text → validate s.payload = true) := by
  have hcontrol : ∀ {op payload}, op ≠ .text → prepareControl isServer rng op payload out = .ok m →
      m = out.prepare isServer rng op true payload ∧
        (op.isControl = true → payload.length ≤ 125) ∧ (op = .text → validate payload = true) := by
    intro op payload hop h
    rw [prepareControl, ite_error_eq_ok, ite_error_eq_ok] at h
    obtain ⟨-, hlen, h⟩ := h
    exact ⟨(Except.ok.inj h).symm, fun _ => Nat.le_of_not_lt hlen, fun htext => absurd htext hop⟩
  cases s with
  | data msg =>
    rw [prepare, prepareDataFrame, ite_error_eq_ok, ite_error_eq_ok] at h
    obtain ⟨hdata, htext, h⟩ := h
    refine ⟨(Except.ok.inj h).symm, fun hop => absurd hop hdata, fun hop => ?_⟩
    show validate msg.payload = true
    by_contra hvalid
    refine htext ?_
    rw [Bool.eq_false_iff.mpr hvalid, show msg.opcode = .text from hop]
    rfl
  | ping payload => exact hcontrol (show Opcode.ping ≠ .text by decide) h
  | pong payload => exact hcontrol (show Opcode.pong ≠ .text by decide) h
  | close code reason =>
    rw [prepare, prepareClose, ite_error_eq_ok, ite_error_eq_ok, ite_error_eq_ok,
      ite_error_eq_ok] at h
    exact hcontrol (show Opcode.close ≠ .text by decide) h.2.2.2.2

/-! ## The other side -/

theorem receive_whole {isServer : Bool} {maxMessageSize : ℕ} {f : Frame} (hfin : f.fin = true)
    (hkey : f.key.isSome = isServer) (hreserved : f.opcode.reserved = false)
    (hop : f.opcode ≠ .continuation) (hcontrol : f.opcode.isControl = true → f.payload.length ≤ 125)
    (hsize : f.opcode.isControl = false → f.payload.length ≤ maxMessageSize)
    (htext : f.opcode = .text → validate f.payload = true) :
    Ends (receive isServer maxMessageSize none f) [Fragments.message ⟨f.opcode, f.payload⟩]
      none := by
  have hheader : f.checkHeader isServer true = .ok () :=
    Frame.checkHeader_iff.mpr ⟨fun h => ⟨hcontrol h, hfin⟩, hreserved,
      fun _ => iff_of_false hop Bool.noConfusion, hkey⟩
  have hfits : f.checkSize maxMessageSize none = .ok () := by
    rw [Frame.checkSize]
    cases hdata : f.opcode.isControl with
    | true => rfl
    | false =>
      have hsum : (0 + f.payload.length) % 2 ^ 64 = f.payload.length := by
        rw [Nat.zero_add, Nat.mod_eq_of_lt f.fits]
      exact if_neg (Nat.not_lt_of_le (hsum.trans_le (hsize hdata)))
  have hcollect : Fragments.collect none f = ⟨f.opcode, f.payload⟩ := by
    rw [Fragments.collect, Fragments.begun, Option.getD_none, ite_self]
    rfl
  have hvalid : f.checkText ⟨f.opcode, f.payload⟩ = .ok () := by
    rw [Frame.checkText, ite_error_eq_ok, ite_error_eq_ok]
    by_cases hop : f.opcode = .text
    · have hdecode := htext hop
      rw [validate, Bool.and_eq_true] at hdecode
      rw [hdecode.1, hdecode.2]
      simp
    · simp [hop]
  rw [receive, Option.isNone_none, hheader, hfits, hcollect, hvalid, hfin, ite_self]
  exact ⟨rfl, rfl⟩

theorem exists_frames_sent {isServer : Bool} {maxMessageSize : ℕ} (hmax : maxMessageSize < 2 ^ 64)
    {sent : List Sent} {prepared : List Message}
    (hsent : List.Forall₂ (fun s m => ∃ rng out, s.prepare isServer rng out = .ok m) sent prepared)
    (hwhole : ∀ s ∈ sent, s.Whole)
    (hsize : ∀ s ∈ sent, s.opcode.isControl = false → s.payload.length ≤ maxMessageSize) :
    ∃ fs : List Frame, (prepared.flatMap fun m => m.header ++ m.payload) = fs.flatMap Frame.wire ∧
      Ends (fs.foldlM (receive (!isServer) maxMessageSize) none) (sent.map Sent.message) none := by
  induction hsent with
  | nil => exact ⟨[], rfl, ends_pure none⟩
  | @cons s m sent prepared hs hsent ih =>
    rw [List.forall_mem_cons] at hwhole hsize
    obtain ⟨fs, hbytes, hends⟩ := ih hwhole.2 hsize.2
    obtain ⟨rng, out, hprepare⟩ := hs
    obtain ⟨rfl, hcontrol, htext⟩ := Sent.of_prepare hprepare
    have hfits : s.payload.length < 2 ^ 64 := by
      cases hop : s.opcode.isControl with
      | true =>
        have hle := hcontrol hop
        omega
      | false => exact Nat.lt_of_le_of_lt (hsize.1 hop) hmax
    have hfields : s.fin = true ∧ s.opcode.reserved = false ∧ s.opcode ≠ .continuation := by
      cases s with
      | data msg =>
        obtain ⟨hfin, hop | hop⟩ := hwhole.1
        all_goals
          refine ⟨hfin, ?_, ?_⟩
          all_goals
            rw [show (Sent.data msg).opcode = msg.opcode from rfl, hop]
            decide
      | ping payload => exact ⟨rfl, rfl, show Opcode.ping ≠ .continuation by decide⟩
      | pong payload => exact ⟨rfl, rfl, show Opcode.pong ≠ .continuation by decide⟩
      | close code reason => exact ⟨rfl, rfl, show Opcode.close ≠ .continuation by decide⟩
    have hkey : (if isServer then none else some rng : Option MaskingKey).isSome = !isServer := by
      cases isServer <;> rfl
    refine ⟨⟨s.fin, s.opcode, if isServer then none else some rng, s.payload, hfits⟩ :: fs, ?_, ?_⟩
    · rw [List.flatMap_cons, List.flatMap_cons, hbytes, Message.prepare_wire]
    · rw [List.foldlM_cons]
      exact (receive_whole hfields.1 hkey hfields.2.1 hfields.2.2 hcontrol hsize.1 htext).bind hends

theorem exists_frames_of_sent {isServer : Bool} {maxMessageSize : ℕ}
    (hmax : maxMessageSize < 2 ^ 64) {sent : List Sent} {prepared : List Message}
    (hsent : List.Forall₂ (fun s m => ∃ rng out, s.prepare isServer rng out = .ok m) sent prepared)
    (hwhole : ∀ s ∈ sent, s.Whole)
    (hsize : ∀ s ∈ sent, s.opcode.isControl = false → s.payload.length ≤ maxMessageSize)
    {bufs : List (List UInt8)}
    (hbufs : bufs.flatten = prepared.flatMap fun m => m.header ++ m.payload) :
    ∃ fs, Frames bufs.flatten fs [] ∧
      Ends (fs.foldlM (receive (!isServer) maxMessageSize) none) (sent.map Sent.message) none := by
  obtain ⟨fs, hbytes, hends⟩ := exists_frames_sent hmax hsent hwhole hsize
  refine ⟨fs, ⟨?_, fun f bs h => ?_⟩, hends⟩
  · rw [hbufs, hbytes, List.append_nil]
  · rw [Frame.wire, Frame.header] at h
    cases h

theorem exists_prepare_of_mem {isServer : Bool} {sent : List Sent} {prepared : List Message}
    (hsent : List.Forall₂ (fun s m => ∃ rng out, s.prepare isServer rng out = .ok m) sent prepared)
    {s : Sent} (hs : s ∈ sent) : ∃ rng out m, s.prepare isServer rng out = .ok m := by
  induction hsent with
  | nil => cases hs
  | cons h _ ih =>
    obtain rfl | hs := List.mem_cons.mp hs
    · obtain ⟨rng, out, hprepare⟩ := h
      exact ⟨rng, out, _, hprepare⟩
    · exact ih hs

/-- **The other side reads the messages that were sent**, however the bytes are cut into buffers. -/
theorem read_sent {isServer : Bool} {maxMessageSize : ℕ} (hmax : maxMessageSize < 2 ^ 64)
    {sent : List Sent} {prepared : List Message}
    (hsent : List.Forall₂ (fun s m => ∃ rng out, s.prepare isServer rng out = .ok m) sent prepared)
    (hwhole : ∀ s ∈ sent, s.Whole)
    (hsize : ∀ s ∈ sent, s.opcode.isControl = false → s.payload.length ≤ maxMessageSize)
    {bufs : List (List UInt8)}
    (hbufs : bufs.flatten = prepared.flatMap fun m => m.header ++ m.payload) :
    (bufs.foldlM Hybi13.reader.read (.new (!isServer) maxMessageSize)).calls =
        sent.map Sent.message ∧
      ∃ p, (bufs.foldlM Hybi13.reader.read (.new (!isServer) maxMessageSize)).result = .ok p := by
  obtain ⟨fs, hframes, hends⟩ := exists_frames_of_sent hmax hsent hwhole hsize hbufs
  obtain ⟨hcalls, -, hresult⟩ := hframes.read_spec (!isServer) maxMessageSize
  exact ⟨hcalls.trans hends.calls, hresult rfl none hends.result⟩

/-- A client sends a text and answers a ping. -/
theorem read_sent_client :
    ∃ prepared : List Message,
      ([prepared.flatMap fun m => m.header ++ m.payload].foldlM Hybi13.reader.read
          (.new true 32000000)).calls =
        [Sent.message (.data { Message.new .text with payload := [0x7B, 0x7D] }),
          Sent.message (.pong [1, 2])] := by
  have hsent : List.Forall₂ (fun s m => ∃ rng out, Sent.prepare false rng out s = .ok m)
      [.data { Message.new .text with payload := [0x7B, 0x7D] }, .pong [1, 2]]
      [(Message.new .text).prepare false 0x01020304 .text true [0x7B, 0x7D],
        (Message.new .text).prepare false 0x05060708 .pong true [1, 2]] :=
    .cons ⟨_, _, rfl⟩ (.cons ⟨_, _, rfl⟩ .nil)
  refine ⟨_, (read_sent (by decide) hsent ?_ ?_ List.flatten_singleton).1⟩
  · exact List.forall_mem_cons.mpr
      ⟨⟨rfl, .inl rfl⟩, List.forall_mem_cons.mpr ⟨trivial, List.forall_mem_nil _⟩⟩
  · exact List.forall_mem_cons.mpr ⟨fun _ => show 2 ≤ 32000000 by omega,
      List.forall_mem_cons.mpr ⟨fun _ => show 2 ≤ 32000000 by omega, List.forall_mem_nil _⟩⟩

end SyntheticArbitrage.WebSocket
