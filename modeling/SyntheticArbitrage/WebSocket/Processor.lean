import SyntheticArbitrage.Lib.BufferReader
import SyntheticArbitrage.WebSocket.Frame
import SyntheticArbitrage.WebSocket.Utf8Validator

/-!
# The processor of incoming frames

The class `hybi13` of `libs/websocketpp/processors/hybi13.hpp`, with the extension that compresses
messages disabled, as `config::asio_tls_client` has it.  After an error a connection reads no more,
so that the state which an error leaves is not kept.

* `validateIncomingBasicHeader`, `validateIncomingExtendedHeader`: the checks of a header.
* `Hybi13.iterate`: one iteration of the loop of `consume`.
* `Hybi13.reader`: the loop, and `get_message` of what is ready.
-/

namespace SyntheticArbitrage.WebSocket

open ByteOrder

/-- The errors of `processor::error`. -/
inductive ProcessorError where
  | general
  | invalidArguments
  | invalidOpcode
  | controlTooBig
  | invalidRsvBit
  | fragmentedControl
  | invalidContinuation
  | maskingRequired
  | maskingForbidden
  | nonMinimalEncoding
  | messageTooBig
  | invalidPayload
  | invalidUtf8
  | reservedCloseCode
  | invalidCloseCode
  | reasonRequiresCode
deriving DecidableEq

/-- The class `message`, without its flags for compression and for the end of a connection. -/
structure Message where
  opcode : Opcode
  payload : List UInt8
  header : List UInt8
  fin : Bool
  prepared : Bool
deriving DecidableEq

/-- `get_message` of the message manager. -/
def Message.new (op : Opcode) : Message := ⟨op, [], [], true, false⟩

structure MsgMetadata where
  msgPtr : Option Message
  preparedKey : UInt64
  validator : Validator

/-- The states of the loop; `FATAL_ERROR` is left out, which no function sets. -/
inductive State where
  | headerBasic
  | headerExtended
  | extension
  | application
  | ready
deriving DecidableEq

/-- How many fields of a frame come without a byte at most. -/
def State.rank : State → ℕ
  | .headerBasic | .ready => 0
  | .headerExtended | .extension => 2
  | .application => 1

/-- Which message `m_current_msg` points to. -/
inductive Target where
  | data
  | control
deriving DecidableEq

structure Hybi13 where
  isServer : Bool
  maxMessageSize : ℕ
  basicHeader : BasicHeader
  bytesNeeded : ℕ
  cursor : ℕ
  dataMsg : MsgMetadata
  controlMsg : MsgMetadata
  currentMsg : Target
  extendedHeader : ExtendedHeader
  state : State

/-- `validate_incoming_basic_header`. -/
def validateIncomingBasicHeader (h : BasicHeader) (isServer newMsg : Bool) :
    Except ProcessorError Unit :=
  let op := h.getOpcode
  if op.isControl && payloadSizeBasic < h.getBasicSize.toNat then .error .controlTooBig
  else if h.getRsv1 then .error .invalidRsvBit
  else if h.getRsv2 || h.getRsv3 then .error .invalidRsvBit
  else if op.reserved then .error .invalidOpcode
  else if op.invalid then .error .invalidOpcode
  else if op.isControl && !h.getFin then .error .fragmentedControl
  else if newMsg && op = .continuation then .error .invalidContinuation
  else if !newMsg && !op.isControl && op ≠ .continuation then .error .invalidContinuation
  else if isServer && !h.getMasked then .error .maskingRequired
  else if !isServer && h.getMasked then .error .maskingForbidden
  else .ok ()

/-- `validate_incoming_extended_header`, where a `size_t` has 64 bits. -/
def validateIncomingExtendedHeader (h : BasicHeader) (e : ExtendedHeader) :
    Except ProcessorError Unit :=
  let payloadSize := getPayloadSize h e
  if h.getBasicSize = payloadSizeCode16 && payloadSize ≤ payloadSizeBasic then
    .error .nonMinimalEncoding
  else if h.getBasicSize = payloadSizeCode64 && payloadSize ≤ payloadSizeExtended then
    .error .nonMinimalEncoding
  else .ok ()

/-- The payload bytes without their mask, if they have one, and the key for the next part. -/
def unmask (isMasked : Bool) (buf : List UInt8) (preparedKey : UInt64) : List UInt8 × UInt64 :=
  if isMasked then byteMaskCirc buf preparedKey else (buf, preparedKey)

namespace MsgMetadata

def empty : MsgMetadata := ⟨none, 0, .new⟩

def start (op : Opcode) (maskingKey : MaskingKey) : MsgMetadata :=
  ⟨some (.new op), prepareMaskingKey maskingKey, .new⟩

/-- What `process_payload_bytes` does to the current message, which is there while its payload is
read. -/
def receive (m : MsgMetadata) (isMasked : Bool) (buf : List UInt8) :
    Except ProcessorError MsgMetadata :=
  let unmasked := unmask isMasked buf m.preparedKey
  match m.msgPtr with
  | none => .error .general
  | some out =>
    let msg := some { out with payload := out.payload ++ unmasked.1 }
    if out.opcode = .text then
      let r := m.validator.decode unmasked.1
      if r.1 then .ok ⟨msg, unmasked.2, r.2⟩ else .error .invalidUtf8
    else .ok ⟨msg, unmasked.2, m.validator⟩

end MsgMetadata

namespace Hybi13

/-- `reset_headers`. -/
def resetHeaders (p : Hybi13) : Hybi13 :=
  { p with
    state := .headerBasic
    bytesNeeded := 2
    basicHeader := ⟨0x00, 0x00⟩
    extendedHeader := .empty }

def new (isServer : Bool) (maxMessageSize : ℕ) : Hybi13 where
  isServer := isServer
  maxMessageSize := maxMessageSize
  basicHeader := ⟨0x00, 0x00⟩
  bytesNeeded := 2
  cursor := 0
  dataMsg := .empty
  controlMsg := .empty
  currentMsg := .data
  extendedHeader := .empty
  state := .headerBasic

/-- `*m_current_msg`. -/
def current (p : Hybi13) : MsgMetadata :=
  match p.currentMsg with
  | .data => p.dataMsg
  | .control => p.controlMsg

def setCurrent (p : Hybi13) (m : MsgMetadata) : Hybi13 :=
  match p.currentMsg with
  | .data => { p with dataMsg := m }
  | .control => { p with controlMsg := m }

/-- `copy_basic_header_bytes`. -/
def copyBasicHeaderBytes (p : Hybi13) (buf : List UInt8) : Hybi13 × List UInt8 :=
  if p.bytesNeeded = 0 then (p, buf)
  else
    match buf with
    | [] => (p, [])
    | b :: b' :: rest =>
      if p.bytesNeeded = 2 then
        ({ p with basicHeader := ⟨b, b'⟩, bytesNeeded := p.bytesNeeded - 2 }, rest)
      else
        ({ p with basicHeader := ⟨p.basicHeader.b0, b⟩, bytesNeeded := p.bytesNeeded - 1 },
          b' :: rest)
    | [b] =>
      if p.bytesNeeded = 2 then
        ({ p with basicHeader := ⟨b, p.basicHeader.b1⟩, bytesNeeded := p.bytesNeeded - 1 }, [])
      else ({ p with basicHeader := ⟨p.basicHeader.b0, b⟩, bytesNeeded := p.bytesNeeded - 1 }, [])

/-- `copy_extended_header_bytes`. -/
def copyExtendedHeaderBytes (p : Hybi13) (buf : List UInt8) : Hybi13 × List UInt8 :=
  let bytesToRead := min p.bytesNeeded buf.length
  ({ p with
      extendedHeader := copyTo p.extendedHeader p.cursor (buf.take bytesToRead)
      cursor := p.cursor + bytesToRead
      bytesNeeded := p.bytesNeeded - bytesToRead },
    buf.drop bytesToRead)

/-- The message of a frame whose header has been read: a new one, or the one that goes on. -/
def startFrame (p : Hybi13) : Except ProcessorError Hybi13 :=
  let op := p.basicHeader.getOpcode
  let key := getMaskingKey p.basicHeader p.extendedHeader
  let bytesNeeded := getPayloadSize p.basicHeader p.extendedHeader
  let p := { p with state := .application, bytesNeeded := bytesNeeded }
  if op.isControl then .ok { p with controlMsg := .start op key, currentMsg := .control }
  else
    match p.dataMsg.msgPtr with
    | none =>
      if p.maxMessageSize < bytesNeeded then .error .messageTooBig
      else .ok { p with dataMsg := .start op key, currentMsg := .data }
    | some out =>
      -- the sum is a `size_t`
      if p.maxMessageSize < (out.payload.length + bytesNeeded) % 2 ^ 64 then .error .messageTooBig
      else
        .ok { p with
          dataMsg := { p.dataMsg with preparedKey := prepareMaskingKey key }
          currentMsg := .data }

/-- `process_payload_bytes`. -/
def processPayloadBytes (p : Hybi13) (buf : List UInt8) : Except ProcessorError Hybi13 := do
  let m ← p.current.receive p.basicHeader.getMasked buf
  pure { p.setCurrent m with bytesNeeded := p.bytesNeeded - buf.length }

/-- `finalize_message`. -/
def finalizeMessage (p : Hybi13) : Except ProcessorError Hybi13 :=
  if p.basicHeader.getOpcode = .text && !p.current.validator.complete then .error .invalidUtf8
  else .ok { p with state := .ready }

/-- The loop goes on when bytes of a field are still needed, and goes on to the next field when they
are all there. -/
def whenRead (r : Hybi13 × List UInt8) (next : Hybi13 → Except ProcessorError Hybi13) :
    Except ProcessorError (Hybi13 × List UInt8) :=
  if 0 < r.1.bytesNeeded then .ok r else (next r.1).map fun p => (p, r.2)

def headerBasicRead (p : Hybi13) : Except ProcessorError Hybi13 := do
  validateIncomingBasicHeader p.basicHeader p.isServer p.dataMsg.msgPtr.isNone
  pure { p with
    state := .headerExtended
    cursor := 0
    bytesNeeded := p.basicHeader.getHeaderLen - 2 }

def headerExtendedRead (p : Hybi13) : Except ProcessorError Hybi13 := do
  validateIncomingExtendedHeader p.basicHeader p.extendedHeader
  p.startFrame

def payloadRead (p : Hybi13) : Except ProcessorError Hybi13 :=
  if p.basicHeader.getFin then p.finalizeMessage else .ok p.resetHeaders

def copyPayloadBytes (p : Hybi13) (buf : List UInt8) :
    Except ProcessorError (Hybi13 × List UInt8) :=
  let bytesToProcess := min p.bytesNeeded buf.length
  if 0 < bytesToProcess then
    (p.processPayloadBytes (buf.take bytesToProcess)).map fun p => (p, buf.drop bytesToProcess)
  else .ok (p, buf)

/-- One iteration of the loop of `consume`, with what is left of the buffer. -/
def iterate (p : Hybi13) (buf : List UInt8) : Except ProcessorError (Hybi13 × List UInt8) :=
  match p.state with
  | .headerBasic => whenRead (p.copyBasicHeaderBytes buf) headerBasicRead
  | .headerExtended => whenRead (p.copyExtendedHeaderBytes buf) headerExtendedRead
  | .extension => .ok ({ p with state := .application }, buf)
  | .application => (p.copyPayloadBytes buf).bind fun r => whenRead r payloadRead
  | .ready => .error .general

/-- `get_message` when one is ready. -/
def getMessage (p : Hybi13) : Option Message × Hybi13 :=
  let p' := p.setCurrent { p.current with msgPtr := none }
  (p.current.msgPtr, p'.resetHeaders)

/-- `consume` and `get_message`, as `handle_read_frame` of a connection calls them. -/
def reader : BufferReader Hybi13 UInt8 Message ProcessorError where
  ready p := p.state = .ready
  waits p := p.bytesNeeded
  iterate := iterate
  take p := (p.getMessage.1.getD (.new .continuation), p.getMessage.2)
  bound p n := 3 * n + p.state.rank

end Hybi13

end SyntheticArbitrage.WebSocket
