import SyntheticArbitrage.WebSocket.Sender

/-!
# A connection

What `libs/websocketpp/impl/connection_impl.hpp` does with what it reads, after the handshake and
until the program itself closes the connection.  The settings are those of `config::core_client`;
there are no handlers of pings and pongs, as in the program, and the timers are left out.

* `dispatch`: one message, by the handler of messages or by `process_control_frame`.
* `handleReadFrame`: the buffers that are read, one after the other, and an error of `consume`.
* `dispatchAll_opened`: before the first close frame messages are handled and pings answered, in
  order; after it only close frames are answered.
* `handleReadFrame_spec`: so it is with any bytes, and a refused frame closes the connection.
* `dispatchAll_sent`: **what the other side sends before it closes is handled or answered**.
-/

namespace SyntheticArbitrage.WebSocket

open ByteOrder

/-! ## Close frames -/

namespace CloseStatus

def blank : UInt16 := 0
def normal : UInt16 := 1000
def protocolError : UInt16 := 1002
def invalidPayload : UInt16 := 1007
def policyViolation : UInt16 := 1008
def messageTooBig : UInt16 := 1009
def internalEndpointError : UInt16 := 1011

/-- `close::status::terminal`. -/
def terminal (code : UInt16) : Bool :=
  code = protocolError || code = invalidPayload || code = policyViolation ||
    code = messageTooBig || code = internalEndpointError

end CloseStatus

namespace ProcessorError

/-- `error::to_ws`. -/
def toWs : ProcessorError → UInt16
  | controlTooBig | invalidOpcode | invalidRsvBit | fragmentedControl | invalidContinuation
  | maskingRequired | maskingForbidden | reservedCloseCode | invalidCloseCode =>
    CloseStatus.protocolError
  | invalidPayload | invalidUtf8 => CloseStatus.invalidPayload
  | messageTooBig => CloseStatus.messageTooBig
  | general | invalidArguments | nonMinimalEncoding | reasonRequiresCode =>
    CloseStatus.internalEndpointError

/-- `message` of the category of these errors. -/
def message : ProcessorError → String
  | general => "Generic processor error"
  | messageTooBig => "A message was too large"
  | invalidPayload => "A payload contained invalid data"
  | invalidArguments => "invalid function arguments"
  | invalidOpcode => "invalid opcode"
  | controlTooBig => "Control messages are limited to fewer than 125 characters"
  | invalidRsvBit => "Invalid use of reserved bits"
  | fragmentedControl => "Control messages cannot be fragmented"
  | invalidContinuation => "Invalid message continuation"
  | maskingRequired => "Clients may not send unmasked frames"
  | maskingForbidden => "Servers may not send masked frames"
  | nonMinimalEncoding => "Payload length was not minimally encoded"
  | invalidUtf8 => "Invalid UTF8 encoding"
  | reservedCloseCode => "Reserved close code used"
  | invalidCloseCode => "Invalid close code used"
  | reasonRequiresCode => "Using a close reason requires a valid close code"

end ProcessorError

/-- `extract_code`: the code, and whether it may be received. -/
def extractCode : List UInt8 → UInt16 × Bool
  | [] => (CloseStatus.noStatus, true)
  | [_] => (CloseStatus.protocolError, false)
  | b0 :: b1 :: _ =>
    let code := UInt16.ofNat (ofNetwork [b0, b1])
    (code, !(CloseStatus.invalid code || CloseStatus.reserved code))

/-- `extract_reason`: the reason, and whether it is a text. -/
def extractReason (payload : List UInt8) : List UInt8 × Bool :=
  (payload.drop 2, validate (payload.drop 2))

/-! ## The connection -/

/-- `session::state` after the handshake. -/
inductive SessionState where
  | opened
  | closing
  | closed
deriving DecidableEq

inductive Effect where
  /-- The handler of messages is called. -/
  | handle (msg : Message)
  /-- A prepared message is put into the queue; a terminal one ends the connection when it is
  written. -/
  | write (msg : Message) (terminal : Bool)
  | shutdown
deriving DecidableEq

/-- The fields that the functions below use, with the random numbers that masking keys are made
of. -/
structure Connection where
  isServer : Bool
  state : SessionState
  wasClean : Bool
  remoteCloseCode : UInt16
  remoteCloseReason : List UInt8
  localCloseCode : UInt16
  localCloseReason : List UInt8
  rng : ℕ → MaskingKey
  drawn : ℕ

namespace Connection

/-- The random number is drawn; only a client masks. -/
def draw (c : Connection) : Connection :=
  if c.isServer then c else { c with drawn := c.drawn + 1 }

/-- `pong`. -/
def pong (c : Connection) (payload : List UInt8) : Connection × List Effect :=
  if c.state ≠ .opened then (c, [])
  else
    match preparePong c.isServer (c.rng c.drawn) payload (.new .text) with
    | .error _ => (c, [])
    | .ok msg => (c.draw, [.write msg false])

/-- `terminate`, with the text of the error if there is one. -/
def terminate (c : Connection) (ec : Option String) : Connection × List Effect :=
  let c :=
    match ec with
    | none => c
    | some e =>
      { c with
        localCloseCode := CloseStatus.abnormalClose, localCloseReason := e.toUTF8.data.toList }
  if c.state = .closed then (c, []) else ({ c with state := .closed }, [.shutdown])

/-- The code and the reason that `send_close_frame` sends. -/
def closeInfo (c : Connection) (code : UInt16) (reason : List UInt8) (ack : Bool) :
    UInt16 × List UInt8 :=
  if code ≠ CloseStatus.blank then (code, reason)
  else if !ack then (CloseStatus.noStatus, [])
  else if c.remoteCloseCode = CloseStatus.noStatus then (CloseStatus.normal, [])
  else (c.remoteCloseCode, c.remoteCloseReason)

/-- `send_close_frame`. -/
def sendCloseFrame (c : Connection) (code : UInt16) (reason : List UInt8) (ack terminal : Bool) :
    Connection × Except ProcessorError (List Effect) :=
  let info := c.closeInfo code reason ack
  let c := { c with localCloseCode := info.1, localCloseReason := info.2 }
  match prepareClose c.isServer (c.rng c.drawn) info.1 info.2 (.new .text) with
  | .error e => (c, .error e)
  | .ok msg =>
    ({ c.draw with state := .closing, wasClean := c.wasClean || ack }, .ok [.write msg terminal])

/-- `send_close_ack`; its error is only logged. -/
def sendCloseAck (c : Connection) (code : UInt16) (reason : List UInt8) :
    Connection × List Effect :=
  let r := c.sendCloseFrame code reason true c.isServer
  (r.1, r.2.toOption.getD [])

/-- `close`, with the text of its error. -/
def close (c : Connection) (code : UInt16) (reason : List UInt8) :
    Connection × Except String (List Effect) :=
  if c.state ≠ .opened then (c, .error "invalid state")
  else
    let r := c.sendCloseFrame code (reason.take (payloadSizeBasic - 2)) false
      (CloseStatus.terminal code)
    (r.1, r.2.mapError ProcessorError.message)

/-- What `process_control_frame` does with a close frame. -/
def closeReceived (c : Connection) (payload : List UInt8) : Connection × List Effect :=
  let code := extractCode payload
  let c := { c with remoteCloseCode := code.1 }
  if !code.2 then c.sendCloseAck CloseStatus.protocolError "Invalid close code".toUTF8.data.toList
  else
    let reason := extractReason payload
    let c := { c with remoteCloseReason := reason.1 }
    if !reason.2 then
      c.sendCloseAck CloseStatus.protocolError "Invalid close reason".toUTF8.data.toList
    else if c.state = .opened then c.sendCloseAck CloseStatus.blank []
    else if c.state = .closing && !c.wasClean then
      let c := { c with wasClean := true }
      if c.isServer then c.terminate none else (c, [])
    else (c, [])

/-- `process_control_frame`. -/
def processControlFrame (c : Connection) (msg : Message) : Connection × List Effect :=
  if c.state = .closed then (c, [])
  else if msg.opcode ≠ .close && c.state ≠ .opened then (c, [])
  else if msg.opcode = .ping then c.pong msg.payload
  else if msg.opcode = .close then c.closeReceived msg.payload
  else (c, [])

/-- What `handle_read_frame` does with a message. -/
def dispatch (c : Connection) (msg : Message) : Connection × List Effect :=
  if !msg.opcode.isControl then
    if c.state ≠ .opened then (c, []) else (c, [.handle msg])
  else c.processControlFrame msg

def dispatchAll (c : Connection) : List Message → Connection × List Effect
  | [] => (c, [])
  | msg :: msgs =>
    let r := c.dispatch msg
    let s := r.1.dispatchAll msgs
    (s.1, r.2 ++ s.2)

/-- An error of `consume`, after which nothing more is read. -/
def consumeFailed (c : Connection) (e : ProcessorError) : Connection × List Effect :=
  let r := c.close e.toWs e.message.toUTF8.data.toList
  match r.2 with
  | .error ec => r.1.terminate (some ec)
  | .ok effects => (r.1, effects)

/-- `handle_read_frame`, one buffer after the other. -/
def handleReadFrame (c : Connection) (p : Hybi13) (bufs : List (List UInt8)) :
    Connection × List Effect :=
  let read := bufs.foldlM Hybi13.reader.read p
  let r := c.dispatchAll read.calls
  match read.result with
  | .ok _ => r
  | .error e =>
    let s := r.1.consumeFailed e
    (s.1, r.2 ++ s.2)

end Connection

/-! ## What is done -/

def Message.asks (msg : Message) : Bool := !msg.opcode.isControl || msg.opcode = .ping

/-- What is done with it. -/
inductive Effect.Answers (isServer : Bool) : Message → Effect → Prop
  | handle {msg : Message} (h : msg.opcode.isControl = false) : Answers isServer msg (.handle msg)
  | pong {msg out : Message} {rng : MaskingKey} (h : msg.opcode = .ping)
      (hout : preparePong isServer rng msg.payload (.new .text) = .ok out) :
      Answers isServer msg (.write out false)

/-- The code and the reason that acknowledge a close frame. -/
def ackInfo (payload : List UInt8) : UInt16 × List UInt8 :=
  if !(extractCode payload).2 then
    (CloseStatus.protocolError, "Invalid close code".toUTF8.data.toList)
  else if !(extractReason payload).2 then
    (CloseStatus.protocolError, "Invalid close reason".toUTF8.data.toList)
  else if (extractCode payload).1 = CloseStatus.noStatus then (CloseStatus.normal, [])
  else ((extractCode payload).1, (extractReason payload).1)

def Message.Acknowledges (isServer : Bool) (msg out : Message) : Prop :=
  ∃ rng, prepareClose isServer rng (ackInfo msg.payload).1 (ackInfo msg.payload).2 (.new .text) =
    .ok out

theorem exists_prepareClose (isServer : Bool) (rng : MaskingKey) {code : UInt16}
    {reason : List UInt8} (hreserved : CloseStatus.reserved code = false)
    (hinvalid : CloseStatus.invalid code = false) (hreason : reason.length ≤ 123) (out : Message) :
    ∃ m, prepareClose isServer rng code reason out = .ok m := by
  have hstatus : code ≠ CloseStatus.noStatus := by
    rintro rfl
    revert hinvalid
    decide
  have hlen : (closePayload code reason).length ≤ 125 := by
    rw [closePayload, if_pos hstatus, List.length_append, length_network]
    omega
  refine ⟨out.prepare isServer rng .close true (closePayload code reason), ?_⟩
  rw [prepareClose, hreserved, if_neg Bool.false_ne_true, hinvalid, Bool.false_and,
    if_neg Bool.false_ne_true, decide_eq_false hstatus, Bool.false_and,
    if_neg Bool.false_ne_true,
    if_neg (show ¬payloadSizeBasic - 2 < _ from Nat.not_lt_of_le hreason), prepareControl,
    if_neg (by decide), if_neg (show ¬payloadSizeBasic < _ from Nat.not_lt_of_le hlen)]

theorem exists_prepareClose_ackInfo (isServer : Bool) (rng : MaskingKey) {payload : List UInt8}
    (hlen : payload.length ≤ 125) (out : Message) :
    ∃ m, prepareClose isServer rng (ackInfo payload).1 (ackInfo payload).2 out = .ok m := by
  rw [ackInfo]
  split_ifs with hcode hreason hstatus
  · exact exists_prepareClose _ _ (by decide) (by decide) (by decide) _
  · exact exists_prepareClose _ _ (by decide) (by decide) (by decide) _
  · exact exists_prepareClose _ _ (by decide) (by decide) (by decide) _
  · have hvalid : CloseStatus.reserved (extractCode payload).1 = false ∧
        CloseStatus.invalid (extractCode payload).1 = false := by
      cases payload with
      | nil => exact absurd rfl hstatus
      | cons b0 bs =>
        cases bs with
        | nil => exact absurd rfl hcode
        | cons b1 bs => simpa [extractCode, and_comm] using hcode
    refine exists_prepareClose _ _ hvalid.1 hvalid.2 ?_ _
    rw [extractReason, List.length_drop]
    omega

/-- What is done after the other side has begun to close: the close frame is acknowledged, and of
what follows only close frames are answered. -/
inductive Effect.Closes (isServer : Bool) : List Message → List Effect → Prop
  | none : Closes isServer [] []
  | close {msg out : Message} {msgs : List Message} {effects : List Effect}
      (hout : msg.Acknowledges isServer out)
      (heffects : ∀ e ∈ effects, ∃ msg ∈ msgs, msg.opcode = .close ∧
        ∃ out, msg.Acknowledges isServer out ∧ e = .write out isServer) :
      Closes isServer (msg :: msgs) (.write out isServer :: effects)

namespace Connection

variable {c : Connection}

@[simp] theorem state_draw (c : Connection) : c.draw.state = c.state := by
  rw [draw]
  split <;> rfl

@[simp] theorem isServer_draw (c : Connection) : c.draw.isServer = c.isServer := by
  rw [draw]
  split <;> rfl

theorem sendCloseAck_of_ok {code : UInt16} {reason : List UInt8} {m : Message}
    (h : prepareClose c.isServer (c.rng c.drawn) (c.closeInfo code reason true).1
      (c.closeInfo code reason true).2 (.new .text) = .ok m) :
    (c.sendCloseAck code reason).2 = [.write m c.isServer] ∧
      (c.sendCloseAck code reason).1.state = .closing ∧
      (c.sendCloseAck code reason).1.wasClean = true ∧
      (c.sendCloseAck code reason).1.isServer = c.isServer := by
  rw [sendCloseAck, sendCloseFrame]
  dsimp only
  rw [h]
  exact ⟨rfl, rfl, Bool.or_true _, isServer_draw _⟩

theorem closeReceived_eq (c : Connection) (payload : List UInt8)
    (h : c.state = .opened ∨ (extractCode payload).2 = false ∨ (extractReason payload).2 = false) :
    ∃ c₁ : Connection, ∃ code reason, c.closeReceived payload = c₁.sendCloseAck code reason ∧
      c₁.closeInfo code reason true = ackInfo payload ∧ c₁.isServer = c.isServer := by
  rw [closeReceived, ackInfo]
  dsimp only
  by_cases hcode : (extractCode payload).2 = true
  · by_cases hreason : (extractReason payload).2 = true
    · have hopened : c.state = .opened := by simpa [hcode, hreason] using h
      rw [hcode, hreason]
      refine ⟨{ c with
        remoteCloseCode := (extractCode payload).1
        remoteCloseReason := (extractReason payload).1 }, CloseStatus.blank, [], ?_, rfl, rfl⟩
      exact (if_neg Bool.false_ne_true).trans ((if_neg Bool.false_ne_true).trans (if_pos hopened))
    · rw [hcode, Bool.eq_false_iff.mpr hreason]
      exact ⟨{ c with
        remoteCloseCode := (extractCode payload).1
        remoteCloseReason := (extractReason payload).1 }, CloseStatus.protocolError, _, rfl, rfl,
        rfl⟩
  · rw [Bool.eq_false_iff.mpr hcode]
    exact ⟨{ c with remoteCloseCode := (extractCode payload).1 }, CloseStatus.protocolError, _, rfl,
      rfl, rfl⟩

theorem closeReceived_acknowledges {msg : Message}
    (h : c.state = .opened ∨ (extractCode msg.payload).2 = false ∨
      (extractReason msg.payload).2 = false) (hlen : msg.payload.length ≤ 125) :
    ∃ out, msg.Acknowledges c.isServer out ∧
      (c.closeReceived msg.payload).2 = [.write out c.isServer] ∧
      (c.closeReceived msg.payload).1.state = .closing ∧
      (c.closeReceived msg.payload).1.wasClean = true ∧
      (c.closeReceived msg.payload).1.isServer = c.isServer := by
  obtain ⟨c₁, code, reason, heq, hinfo, hserver⟩ := closeReceived_eq c msg.payload h
  obtain ⟨out, hout⟩ :=
    exists_prepareClose_ackInfo c₁.isServer (c₁.rng c₁.drawn) hlen (.new .text)
  rw [← hinfo] at hout
  refine ⟨out, ⟨c₁.rng c₁.drawn, ?_⟩, ?_⟩
  · rw [← hinfo, ← hserver]
    exact hout
  · rw [heq, ← hserver]
    exact sendCloseAck_of_ok hout

/-- After the close frames of both sides, only close frames that are not valid are answered. -/
theorem dispatch_closing (hstate : c.state = .closing) (hclean : c.wasClean = true) {msg : Message}
    (hlen : msg.opcode.isControl = true → msg.payload.length ≤ 125) :
    (c.dispatch msg).1.state = .closing ∧ (c.dispatch msg).1.wasClean = true ∧
      (c.dispatch msg).1.isServer = c.isServer ∧
      ∀ e ∈ (c.dispatch msg).2, msg.opcode = .close ∧
        ∃ out, msg.Acknowledges c.isServer out ∧ e = .write out c.isServer := by
  have hquiet : c.state ≠ .opened := by
    rw [hstate]
    decide
  have hnone : ∀ e ∈ ([] : List Effect), msg.opcode = .close ∧
      ∃ out, msg.Acknowledges c.isServer out ∧ e = .write out c.isServer := List.forall_mem_nil _
  cases hcontrol : msg.opcode.isControl with
  | false =>
    rw [dispatch, hcontrol, if_pos Bool.not_false, if_pos hquiet]
    exact ⟨hstate, hclean, rfl, hnone⟩
  | true =>
    rw [dispatch, hcontrol, if_neg (by decide), processControlFrame,
      if_neg (by rw [hstate]; decide)]
    by_cases hclose : msg.opcode = .close
    · rw [if_neg (by simp [hclose]), if_neg (by rw [hclose]; decide), if_pos hclose]
      by_cases hvalid : (extractCode msg.payload).2 = true ∧ (extractReason msg.payload).2 = true
      · rw [closeReceived]
        dsimp only
        rw [hvalid.1, hvalid.2, hstate, hclean]
        exact ⟨rfl, rfl, rfl, hnone⟩
      · have hinvalid : (extractCode msg.payload).2 = false ∨
            (extractReason msg.payload).2 = false := by
          rw [← Bool.not_eq_true, ← Bool.not_eq_true]
          exact Classical.not_and_iff_not_or_not.mp hvalid
        obtain ⟨out, hout, heffects, hstate', hclean', hserver⟩ :=
          closeReceived_acknowledges (c := c) (.inr hinvalid) (hlen hcontrol)
        refine ⟨hstate', hclean', hserver, ?_⟩
        rw [heffects]
        exact List.forall_mem_singleton.mpr ⟨hclose, out, hout, rfl⟩
    · rw [if_pos (by simp [hclose, hquiet])]
      exact ⟨hstate, hclean, rfl, hnone⟩

theorem dispatch_opened (hstate : c.state = .opened) {msg : Message} (hclose : msg.opcode ≠ .close)
    (hlen : msg.opcode.isControl = true → msg.payload.length ≤ 125) :
    (c.dispatch msg).1.state = .opened ∧ (c.dispatch msg).1.isServer = c.isServer ∧
      List.Forall₂ (Effect.Answers c.isServer) ([msg].filter Message.asks) (c.dispatch msg).2 := by
  cases hcontrol : msg.opcode.isControl with
  | false =>
    have hasks : msg.asks = true := by
      rw [Message.asks, hcontrol]
      rfl
    rw [dispatch, hcontrol, if_pos Bool.not_false,
      if_neg (by simp [hstate]), List.filter_singleton, hasks]
    exact ⟨hstate, rfl, .cons (.handle hcontrol) .nil⟩
  | true =>
    rw [dispatch, hcontrol, if_neg (by decide), processControlFrame,
      if_neg (by rw [hstate]; decide), if_neg (by simp [hstate]), List.filter_singleton]
    by_cases hping : msg.opcode = .ping
    · have hasks : msg.asks = true := by simp [Message.asks, hping]
      have hpong : preparePong c.isServer (c.rng c.drawn) msg.payload (.new .text) =
          .ok ((Message.new .text).prepare c.isServer (c.rng c.drawn) .pong true msg.payload) := by
        rw [preparePong, prepareControl, if_neg (by decide),
          if_neg (show ¬payloadSizeBasic < _ from Nat.not_lt_of_le (hlen hcontrol))]
      rw [if_pos hping, pong, if_neg (by simp [hstate]), hpong, hasks]
      exact ⟨(state_draw c).trans hstate, isServer_draw c, .cons (.pong hping hpong) .nil⟩
    · have hasks : msg.asks = false := by simp [Message.asks, hping, hcontrol]
      rw [if_neg hping, if_neg hclose, hasks]
      exact ⟨hstate, rfl, .nil⟩

/-! ## One message after the other -/

theorem dispatchAll_closing (hstate : c.state = .closing) (hclean : c.wasClean = true)
    {msgs : List Message}
    (hlen : ∀ msg ∈ msgs, msg.opcode.isControl = true → msg.payload.length ≤ 125) :
    (c.dispatchAll msgs).1.state = .closing ∧ (c.dispatchAll msgs).1.isServer = c.isServer ∧
      ∀ e ∈ (c.dispatchAll msgs).2, ∃ msg ∈ msgs, msg.opcode = .close ∧
        ∃ out, msg.Acknowledges c.isServer out ∧ e = .write out c.isServer := by
  induction msgs generalizing c with
  | nil => exact ⟨hstate, rfl, List.forall_mem_nil _⟩
  | cons msg msgs ih =>
    rw [List.forall_mem_cons] at hlen
    obtain ⟨hstate', hclean', hserver, heffects⟩ := dispatch_closing hstate hclean hlen.1
    obtain ⟨hlast, hserver', hrest⟩ := ih hstate' hclean' hlen.2
    refine ⟨hlast, hserver'.trans hserver, fun e he => ?_⟩
    obtain he | he := List.mem_append.mp he
    · exact ⟨msg, List.mem_cons_self, heffects e he⟩
    · rw [← hserver]
      obtain ⟨msg', hmem, hclose⟩ := hrest e he
      exact ⟨msg', List.mem_cons_of_mem _ hmem, hclose⟩

/-- **Before the first close frame messages are handled and pings answered**, in order; after it
only close frames are answered. -/
theorem dispatchAll_opened (hstate : c.state = .opened) {msgs : List Message}
    (hlen : ∀ msg ∈ msgs, msg.opcode.isControl = true → msg.payload.length ≤ 125) :
    ∃ answers closing, (c.dispatchAll msgs).2 = answers ++ closing ∧
      List.Forall₂ (Effect.Answers c.isServer)
        ((msgs.takeWhile (·.opcode ≠ .close)).filter Message.asks) answers ∧
      Effect.Closes c.isServer (msgs.dropWhile (·.opcode ≠ .close)) closing ∧
      (c.dispatchAll msgs).1.isServer = c.isServer ∧
      (c.dispatchAll msgs).1.state = if closing = [] then .opened else .closing := by
  induction msgs generalizing c with
  | nil => exact ⟨[], [], rfl, .nil, .none, rfl, hstate⟩
  | cons msg msgs ih =>
    rw [List.forall_mem_cons] at hlen
    by_cases hclose : msg.opcode = .close
    · have hcontrol : msg.opcode.isControl = true := by
        rw [hclose]
        decide
      have hdispatch : c.dispatch msg = c.closeReceived msg.payload := by
        rw [dispatch, hcontrol, if_neg (by decide), processControlFrame,
          if_neg (by rw [hstate]; decide), if_neg (by simp [hstate]),
          if_neg (by rw [hclose]; decide), if_pos hclose]
      obtain ⟨out, hout, heffects, hstate', hclean', hserver⟩ :=
        closeReceived_acknowledges (c := c) (.inl hstate) (hlen.1 hcontrol)
      rw [← hdispatch] at heffects hstate' hclean' hserver
      obtain ⟨hlast, hserver', hlater⟩ := dispatchAll_closing hstate' hclean' hlen.2
      rw [hserver] at hserver' hlater
      rw [List.takeWhile_cons_of_neg (by simp [hclose]),
        List.dropWhile_cons_of_neg (by simp [hclose])]
      refine ⟨[], .write out c.isServer :: ((c.dispatch msg).1.dispatchAll msgs).2, ?_, .nil,
        .close hout hlater, hserver', ?_⟩
      · show (c.dispatch msg).2 ++ _ = _
        rw [heffects]
        rfl
      · rw [if_neg (List.cons_ne_nil _ _)]
        exact hlast
    · obtain ⟨hstate', hserver, hanswers⟩ := dispatch_opened hstate hclose hlen.1
      obtain ⟨answers, closing, heffects, hanswers', hcloses, hserver', hlast⟩ :=
        ih hstate' hlen.2
      rw [hserver] at hanswers' hcloses
      rw [List.takeWhile_cons_of_pos (by simp [hclose]),
        List.dropWhile_cons_of_pos (by simp [hclose])]
      refine ⟨(c.dispatch msg).2 ++ answers, closing, ?_, ?_, hcloses, hserver'.trans hserver,
        hlast⟩
      · show (c.dispatch msg).2 ++ _ = _
        rw [heffects, List.append_assoc]
      · rw [← List.singleton_append, List.filter_append]
        exact List.rel_append hanswers hanswers'

/-! ## Whatever bytes come -/

theorem consumeFailed_opened (hstate : c.state = .opened) (e : ProcessorError) :
    ∃ rng out, prepareClose c.isServer rng e.toWs e.message.toUTF8.data.toList (.new .text) =
        .ok out ∧ (c.consumeFailed e).2 = [.write out true] := by
  have hcode : CloseStatus.reserved e.toWs = false ∧ CloseStatus.invalid e.toWs = false ∧
      CloseStatus.terminal e.toWs = true ∧ e.toWs ≠ CloseStatus.blank := by
    cases e <;> decide
  have hreason : e.message.toUTF8.data.toList.length ≤ 123 := by
    cases e <;> decide
  obtain ⟨out, hout⟩ := exists_prepareClose c.isServer (c.rng c.drawn) hcode.1 hcode.2.1 hreason
    (.new .text)
  refine ⟨c.rng c.drawn, out, hout, ?_⟩
  have htake : e.message.toUTF8.data.toList.take (payloadSizeBasic - 2) =
      e.message.toUTF8.data.toList := List.take_of_length_le hreason
  rw [consumeFailed, close, if_neg (by simp [hstate]), htake, sendCloseFrame, closeInfo,
    if_pos hcode.2.2.2]
  dsimp only
  rw [hout, hcode.2.2.1]
  rfl

theorem consumeFailed_closing (hstate : c.state = .closing) (e : ProcessorError) :
    (c.consumeFailed e).2 = [.shutdown] := by
  rw [consumeFailed, close, if_pos (by simp [hstate])]
  dsimp only
  rw [terminate]
  dsimp only
  rw [if_neg (by simp [hstate])]

/-- **Whatever bytes come**, what is read is handled or answered up to the first close frame, which
is acknowledged; a refused frame closes an open connection and ends one that is closing. -/
theorem handleReadFrame_spec (hstate : c.state = .opened) (maxMessageSize : ℕ)
    (bufs : List (List UInt8)) :
    ∃ answers closing failed,
      (c.handleReadFrame (.new c.isServer maxMessageSize) bufs).2 =
        answers ++ closing ++ failed ∧
      List.Forall₂ (Effect.Answers c.isServer)
        (((bufs.foldlM Hybi13.reader.read (.new c.isServer maxMessageSize)).calls.takeWhile
          (·.opcode ≠ .close)).filter Message.asks) answers ∧
      Effect.Closes c.isServer
        ((bufs.foldlM Hybi13.reader.read (.new c.isServer maxMessageSize)).calls.dropWhile
          (·.opcode ≠ .close)) closing ∧
      (∀ p, (bufs.foldlM Hybi13.reader.read (.new c.isServer maxMessageSize)).result = .ok p →
        failed = []) ∧
      ∀ e, (bufs.foldlM Hybi13.reader.read (.new c.isServer maxMessageSize)).result = .error e →
        (closing = [] → ∃ rng out,
          prepareClose c.isServer rng e.toWs e.message.toUTF8.data.toList (.new .text) = .ok out ∧
            failed = [.write out true]) ∧
        (closing ≠ [] → failed = [.shutdown]) := by
  obtain ⟨fs, tail, hframes⟩ := exists_frames_of bufs.flatten
  have hlen : ∀ msg ∈ (bufs.foldlM Hybi13.reader.read (.new c.isServer maxMessageSize)).calls,
      msg.opcode.isControl = true → msg.payload.length ≤ 125 := by
    rw [(hframes.read_spec c.isServer maxMessageSize).1]
    exact fun msg hmsg => (foldlM_receive_sound (fun s hs => by cases hs) fs msg hmsg).control
  obtain ⟨answers, closing, heffects, hanswers, hcloses, hserver, hlast⟩ :=
    dispatchAll_opened hstate hlen
  rw [handleReadFrame]
  dsimp only
  cases hresult : (bufs.foldlM Hybi13.reader.read (.new c.isServer maxMessageSize)).result with
  | ok p =>
    refine ⟨answers, closing, [], ?_, hanswers, hcloses, fun _ _ => rfl, fun e h => ?_⟩
    · rw [heffects, List.append_nil]
    · cases h
  | error e =>
    refine ⟨answers, closing, _, congrArg (· ++ _) heffects, hanswers, hcloses, fun p h => ?_,
      fun e' h => ⟨fun hnil => ?_, fun hne => ?_⟩⟩
    · cases h
    · cases h
      rw [if_pos hnil] at hlast
      have hclosed := consumeFailed_opened hlast e
      rw [hserver] at hclosed
      exact hclosed
    · cases h
      rw [if_neg hne] at hlast
      exact consumeFailed_closing hlast e

/-- A server sends a frame of a reserved opcode. -/
theorem handleReadFrame_spec_reserved :
    ∃ answers closing failed,
      (handleReadFrame ⟨false, .opened, false, 0, [], 0, [], fun _ => 0x01020304, 0⟩
          (.new false 32000000) [[0x8B], [0x00]]).2 = answers ++ closing ++ failed ∧
        ∃ rng out, prepareClose false rng CloseStatus.protocolError
            "invalid opcode".toUTF8.data.toList (.new .text) = .ok out ∧
          failed = [.write out true] := by
  obtain ⟨answers, closing, failed, heffects, -, hcloses, -, hfailed⟩ :=
    handleReadFrame_spec (c := ⟨false, .opened, false, 0, [], 0, [], fun _ => 0x01020304, 0⟩) rfl
      32000000 [[0x8B], [0x00]]
  have hclosing : closing = [] := by
    cases hcloses
    rfl
  exact ⟨answers, closing, failed, heffects, (hfailed .invalidOpcode rfl).1 hclosing⟩

/-! ## Both sides -/

/-- **What the other side has sent before it closes is handled or answered**, once and in order, and
its close frame is acknowledged. -/
theorem dispatchAll_sent {isServer : Bool} {maxMessageSize : ℕ} (hmax : maxMessageSize < 2 ^ 64)
    {sent : List Sent} {prepared : List Message}
    (hsent : List.Forall₂ (fun s m => ∃ rng out, s.prepare isServer rng out = .ok m) sent prepared)
    (hwhole : ∀ s ∈ sent, s.Whole)
    (hsize : ∀ s ∈ sent, s.opcode.isControl = false → s.payload.length ≤ maxMessageSize)
    {bufs : List (List UInt8)}
    (hbufs : bufs.flatten = prepared.flatMap fun m => m.header ++ m.payload)
    (hserver : c.isServer = !isServer) (hstate : c.state = .opened) :
    ∃ answers closing,
      (c.dispatchAll (bufs.foldlM Hybi13.reader.read (.new c.isServer maxMessageSize)).calls).2 =
        answers ++ closing ∧
      List.Forall₂ (Effect.Answers c.isServer)
        (((sent.map Sent.message).takeWhile (·.opcode ≠ .close)).filter Message.asks) answers ∧
      Effect.Closes c.isServer ((sent.map Sent.message).dropWhile (·.opcode ≠ .close))
        closing := by
  obtain ⟨fs, hframes, hends⟩ := exists_frames_of_sent hmax hsent hwhole hsize hbufs
  rw [hserver, (hframes.read_spec _ _).1, hends.calls, ← hserver]
  have hlen : ∀ msg ∈ sent.map Sent.message,
      msg.opcode.isControl = true → msg.payload.length ≤ 125 := by
    intro msg hmsg hcontrol
    obtain ⟨s, hs, rfl⟩ := List.mem_map.mp hmsg
    obtain ⟨rng, out, m, hprepare⟩ := exists_prepare_of_mem hsent hs
    exact (Sent.of_prepare hprepare).2.1 hcontrol
  obtain ⟨answers, closing, heffects, hanswers, hcloses, -⟩ := dispatchAll_opened hstate hlen
  exact ⟨answers, closing, heffects, hanswers, hcloses⟩

/-- A client answers a ping and a close frame of a server. -/
theorem dispatchAll_sent_close :
    ∃ prepared : List Message, ∃ answers closing,
      (dispatchAll ⟨false, .opened, false, 0, [], 0, [], fun _ => 0x01020304, 0⟩
          ([prepared.flatMap fun m => m.header ++ m.payload].foldlM Hybi13.reader.read
            (.new false 32000000)).calls).2 = answers ++ closing ∧
        List.Forall₂ (Effect.Answers false) [Sent.message (.ping [1, 2])] answers ∧
        Effect.Closes false [Sent.message (.close 1000 [])] closing := by
  have hsent : List.Forall₂ (fun s m => ∃ rng out, Sent.prepare true rng out s = .ok m)
      [.ping [1, 2], .close 1000 []]
      [(Message.new .text).prepare true 0 .ping true [1, 2],
        (Message.new .text).prepare true 0 .close true [3, 232]] :=
    .cons ⟨0, _, rfl⟩ (.cons ⟨0, _, rfl⟩ .nil)
  refine ⟨_, dispatchAll_sent (by decide) hsent ?_ ?_ List.flatten_singleton rfl rfl⟩
  · exact List.forall_mem_cons.mpr
      ⟨trivial, List.forall_mem_cons.mpr ⟨trivial, List.forall_mem_nil _⟩⟩
  · exact List.forall_mem_cons.mpr ⟨Bool.noConfusion,
      List.forall_mem_cons.mpr ⟨Bool.noConfusion, List.forall_mem_nil _⟩⟩

end Connection

end SyntheticArbitrage.WebSocket
