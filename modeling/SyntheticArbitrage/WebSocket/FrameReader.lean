import SyntheticArbitrage.WebSocket.Buffers
import SyntheticArbitrage.WebSocket.Reassembly

/-!
# The processor reads frames

The loop of the processor on the bytes of frames, field by field.

* `validateIncomingBasicHeader_basicHeader`, `validateIncomingExtendedHeader_iff`: the checks.
* `consume_headerBasic`, `consume_headerExtended`, `consume_application`: one field.
* `Hybi13.Rests`: the processor is between two frames.
* `Rests.read_frame`, `Rests.read_frames`: **the processor does with the bytes of frames what
  `receive` does with the frames.**
-/

namespace SyntheticArbitrage.WebSocket

open ByteOrder

/-! ## Headers -/

theorem validateIncomingBasicHeader_basicHeader (f : Frame) (isServer newMsg : Bool) :
    validateIncomingBasicHeader f.basicHeader isServer newMsg = f.checkHeader isServer newMsg := by
  have hsize : payloadSizeBasic < f.basicHeader.getBasicSize.toNat ↔ 125 < f.payload.length := by
    rw [f.toNat_getBasicSize, payloadSizeBasic]
    obtain ⟨hn, hfield⟩ | ⟨hn, -, hfield⟩ | ⟨hn, -, hfield⟩ := Frame.lengthField_cases f.fits
    all_goals rw [hfield]
    · show 125 < 126 ↔ _
      omega
    · show 125 < 127 ↔ _
      omega
  have hinvalid : ∀ op : Opcode, op.invalid = false := by
    intro op
    cases op <;> decide
  rw [validateIncomingBasicHeader, Frame.checkHeader]
  simp only [Frame.getOpcode_basicHeader, Frame.getRsv1_basicHeader, Frame.getRsv2_basicHeader,
    Frame.getRsv3_basicHeader, Frame.getFin_basicHeader, Frame.getMasked_basicHeader, hsize,
    hinvalid, Bool.or_self, Bool.false_eq_true, if_false, Option.not_isSome]

theorem validateIncomingExtendedHeader_iff {h : BasicHeader} {e : ExtendedHeader} :
    validateIncomingExtendedHeader h e = .ok () ↔
      (h.getBasicSize = payloadSizeCode16 → payloadSizeBasic < getPayloadSize h e) ∧
        (h.getBasicSize = payloadSizeCode64 → payloadSizeExtended < getPayloadSize h e) := by
  rw [validateIncomingExtendedHeader]
  simp only [ite_error_eq_ok, Bool.and_eq_true, decide_eq_true_iff, not_and, Nat.not_le, and_true]

theorem validateIncomingExtendedHeader_basicHeader (f : Frame) (more : List UInt8) :
    validateIncomingExtendedHeader f.basicHeader (f.extension ++ more) = .ok () := by
  have hsize := f.toNat_getBasicSize
  rw [validateIncomingExtendedHeader_iff, f.size_basicHeader.2]
  constructor
  · intro hcode
    rw [hcode, show payloadSizeCode16.toNat = 126 from rfl] at hsize
    obtain ⟨hn, hfield⟩ | ⟨hn, -, -⟩ | ⟨-, -, hfield⟩ := Frame.lengthField_cases f.fits
    · rw [hfield] at hsize
      omega
    · exact hn
    · rw [hfield] at hsize
      omega
  · intro hcode
    rw [hcode, show payloadSizeCode64.toNat = 127 from rfl] at hsize
    obtain ⟨hn, hfield⟩ | ⟨-, -, hfield⟩ | ⟨hn, -, -⟩ := Frame.lengthField_cases f.fits
    · rw [hfield] at hsize
      omega
    · rw [hfield] at hsize
      omega
    · exact hn

/-! ## One field -/

namespace Hybi13

variable {p q : Hybi13}

theorem goesOn_append {xs : List UInt8} (hready : p.state ≠ .ready)
    (hneeded : p.bytesNeeded = xs.length) (ys : List UInt8) :
    reader.goesOn p (xs ++ ys) = true := by
  refine BufferReader.goesOn_iff.mpr ⟨decide_eq_false hready, fun hnil => ?_⟩
  show p.bytesNeeded = 0
  rw [hneeded, (List.append_eq_nil_iff.mp hnil).1]
  rfl

theorem consume_headerBasic (hp : p.Inv) (hstate : p.state = .headerBasic)
    (hneeded : p.bytesNeeded = 2) (b0 b1 : UInt8) (bs : List UInt8) :
    reader.consume p (b0 :: b1 :: bs) =
      ({ p with basicHeader := ⟨b0, b1⟩, bytesNeeded := 0 }.headerBasicRead).bind
        fun q => reader.consume q bs := by
  have hready : p.state ≠ .ready := by rw [hstate]; nofun
  have hgoes : reader.goesOn p (b0 :: b1 :: bs) = true :=
    goesOn_append hready (show p.bytesNeeded = [b0, b1].length from hneeded) bs
  rw [lawful_reader.consume_step hp hgoes]
  show (p.iterate (b0 :: b1 :: bs)).bind _ = _
  rw [iterate_headerBasic hstate, copyBasicHeaderBytes_two hneeded]
  show ((headerBasicRead _).map fun p => (p, bs)).bind _ = _
  cases headerBasicRead { p with basicHeader := ⟨b0, b1⟩, bytesNeeded := 0 } <;> rfl

theorem consume_headerExtended (hp : p.Inv) (hstate : p.state = .headerExtended) {ext : List UInt8}
    (hneeded : p.bytesNeeded = ext.length) (bs : List UInt8) :
    reader.consume p (ext ++ bs) =
      ({ p with
          extendedHeader := copyTo p.extendedHeader p.cursor ext
          cursor := p.cursor + ext.length
          bytesNeeded := 0 }.headerExtendedRead).bind fun q => reader.consume q bs := by
  have hready : p.state ≠ .ready := by rw [hstate]; nofun
  have hmin : min p.bytesNeeded (ext ++ bs).length = ext.length := by
    rw [hneeded, List.length_append]
    omega
  rw [lawful_reader.consume_step hp (goesOn_append hready hneeded bs)]
  show (p.iterate (ext ++ bs)).bind _ = _
  rw [iterate_headerExtended hstate, copyExtendedHeaderBytes, hmin, List.take_left, List.drop_left,
    hneeded, Nat.sub_self]
  show ((headerExtendedRead _).map fun p => (p, bs)).bind _ = _
  cases headerExtendedRead { p with
    extendedHeader := copyTo p.extendedHeader p.cursor ext
    cursor := p.cursor + ext.length
    bytesNeeded := 0 } <;> rfl

theorem receive_nil {m : MsgMetadata} (hm : m.msgPtr.isSome) (isMasked : Bool) :
    m.receive isMasked [] = .ok m := by
  obtain ⟨msgPtr, preparedKey, validator⟩ := m
  cases msgPtr with
  | none => cases hm
  | some out =>
    have hunmask : unmask isMasked [] preparedKey = ([], preparedKey) := by
      cases isMasked <;> rfl
    rw [MsgMetadata.receive, hunmask]
    dsimp only
    rw [List.append_nil]
    exact (congrArg (ite _ · _) (if_pos rfl)).trans (ite_self _)

theorem consume_application (hp : p.Inv) (hstate : p.state = .application) {body : List UInt8}
    (hneeded : p.bytesNeeded = body.length) (bs : List UInt8) :
    reader.consume p (body ++ bs) =
      (p.current.receive p.basicHeader.getMasked body).bind fun m =>
        ({ p.setCurrent m with bytesNeeded := 0 }.payloadRead).bind
          fun q => reader.consume q bs := by
  have hready : p.state ≠ .ready := by rw [hstate]; nofun
  have hmin : min p.bytesNeeded (body ++ bs).length = body.length := by
    rw [hneeded, List.length_append]
    omega
  rw [lawful_reader.consume_step hp (goesOn_append hready hneeded bs)]
  show (p.iterate (body ++ bs)).bind _ = _
  rw [iterate_application hstate, copyPayloadBytes, hmin, List.take_left, List.drop_left]
  have hcopy : (if 0 < body.length then (p.processPayloadBytes body).map fun p => (p, bs)
      else .ok (p, body ++ bs)) = (p.current.receive p.basicHeader.getMasked body).map fun m =>
        ({ p.setCurrent m with bytesNeeded := 0 }, bs) := by
    by_cases hbody : body = []
    · subst hbody
      rw [if_neg (show ¬0 < List.length [] from Nat.lt_irrefl 0),
        receive_nil (hp.current (.inl hstate))]
      have hsame : { p.setCurrent p.current with bytesNeeded := 0 } = p := by
        have hzero : p.bytesNeeded = 0 := hneeded
        rw [← hzero]
        obtain ⟨_, _, _, _, _, _, _, target, _, _⟩ := p
        cases target <;> rfl
      exact congrArg Except.ok (congrArg (·, bs) hsame.symm)
    · rw [if_pos (List.length_pos_of_ne_nil hbody), processPayloadBytes, hneeded, Nat.sub_self]
      cases p.current.receive p.basicHeader.getMasked body <;> rfl
  rw [hcopy]
  cases p.current.receive p.basicHeader.getMasked body with
  | error e => rfl
  | ok m =>
    show ((payloadRead _).map fun p => (p, bs)).bind _ = (payloadRead _).bind _
    cases payloadRead { p.setCurrent m with bytesNeeded := 0 } <;> rfl

end Hybi13

/-! ## One frame -/

/-- The metadata of a message of which these fragments have come. -/
structure MsgMetadata.Collects (m : MsgMetadata) (s : Fragments) : Prop where
  msgPtr : m.msgPtr = some s.message
  validator : s.opcode = .text → Validator.new.decode s.payload = (true, m.validator)

theorem MsgMetadata.collects_start (op : Opcode) (key : MaskingKey) :
    (MsgMetadata.start op key).Collects ⟨op, []⟩ := ⟨rfl, fun _ => rfl⟩

theorem unmask_body (f : Frame) :
    (unmask f.key.isSome f.body (prepareMaskingKey (f.key.getD 0))).1 = f.payload := by
  rw [Frame.body]
  cases f.key with
  | none => rfl
  | some key =>
    show (byteMaskCirc (masked (keyStream key) f.payload) (prepareMaskingKey key)).1 = f.payload
    rw [(byteMaskCirc_eq (holds_prepareMaskingKey key) _).1, masked_masked]

theorem MsgMetadata.Collects.receive {m : MsgMetadata} {s : Fragments} {f : Frame}
    (hm : m.Collects s) (hkey : m.preparedKey = prepareMaskingKey (f.key.getD 0)) :
    s.opcode = .text ∧ (Validator.new.decode (s.payload ++ f.payload)).1 = false ∧
        m.receive f.key.isSome f.body = .error .invalidUtf8 ∨
      ∃ m', m.receive f.key.isSome f.body = .ok m' ∧
        m'.Collects ⟨s.opcode, s.payload ++ f.payload⟩ := by
  have hunmask := unmask_body f
  obtain ⟨msgPtr, preparedKey, validator⟩ := m
  obtain ⟨rfl, hvalidator⟩ := hm
  subst hkey
  rw [MsgMetadata.receive]
  dsimp only
  rw [hunmask]
  by_cases htext : s.opcode = .text
  · have hdecode : Validator.new.decode (s.payload ++ f.payload) = validator.decode f.payload := by
      rw [Validator.decode_append, hvalidator htext]
      exact if_pos rfl
    rw [if_pos (show s.message.opcode = .text from htext)]
    cases hok : (validator.decode f.payload).1 with
    | false => exact .inl ⟨htext, by rw [hdecode, hok], if_neg Bool.false_ne_true⟩
    | true =>
      refine .inr ⟨_, if_pos rfl, rfl, fun _ => ?_⟩
      rw [hdecode]
      exact Prod.ext hok rfl
  · rw [if_neg (show s.message.opcode ≠ .text from htext)]
    exact .inr ⟨_, rfl, rfl, fun h => absurd h htext⟩

namespace Hybi13

variable {p q : Hybi13} {isServer : Bool} {maxMessageSize : ℕ} {pending : Option Fragments}
  {f : Frame}

/-- What has come of a data message. -/
def Pending (p : Hybi13) : Option Fragments → Prop
  | none => p.dataMsg.msgPtr = none
  | some s => p.dataMsg.Collects s

/-- The processor is between two frames. -/
structure Rests (p : Hybi13) (isServer : Bool) (maxMessageSize : ℕ)
    (pending : Option Fragments) : Prop where
  inv : p.Inv
  state : p.state = .headerBasic
  bytesNeeded : p.bytesNeeded = 2
  isServer : p.isServer = isServer
  maxMessageSize : p.maxMessageSize = maxMessageSize
  pending : p.Pending pending

theorem rests_new (isServer : Bool) (maxMessageSize : ℕ) :
    (new isServer maxMessageSize).Rests isServer maxMessageSize none where
  inv := inv_new isServer maxMessageSize
  state := rfl
  bytesNeeded := rfl
  isServer := rfl
  maxMessageSize := rfl
  pending := rfl

theorem Rests.waiting (hp : p.Rests isServer maxMessageSize pending) :
    reader.Waiting Inv p where
  inv := hp.inv
  ready := by
    show decide (p.state = .ready) = false
    rw [hp.state]
    rfl
  waits := by
    show 0 < p.bytesNeeded
    rw [hp.bytesNeeded]
    exact Nat.two_pos

/-- The processor reads the payload of a frame. -/
structure Reads (q : Hybi13) (isServer : Bool) (maxMessageSize : ℕ) (pending : Option Fragments)
    (f : Frame) : Prop where
  inv : q.Inv
  state : q.state = .application
  bytesNeeded : q.bytesNeeded = f.payload.length
  basicHeader : q.basicHeader = f.basicHeader
  isServer : q.isServer = isServer
  maxMessageSize : q.maxMessageSize = maxMessageSize
  preparedKey : q.current.preparedKey = prepareMaskingKey (f.key.getD 0)
  collects : q.current.Collects (.begun pending f)
  control : f.opcode.isControl = true → q.currentMsg = .control ∧ q.Pending pending
  data : f.opcode.isControl = false → q.currentMsg = .data

theorem startFrame_frame (hq : q.Inv) (hpending : q.Pending pending)
    (hbasic : q.basicHeader = f.basicHeader) {more : List UInt8}
    (hextended : q.extendedHeader = f.extension ++ more) :
    (∃ e, f.checkSize q.maxMessageSize pending = .error e ∧ q.startFrame = .error e) ∨
      f.checkSize q.maxMessageSize pending = .ok () ∧
        ∃ q', q.startFrame = .ok q' ∧ q'.Reads q.isServer q.maxMessageSize pending f := by
  have hop : q.basicHeader.getOpcode = f.opcode := by rw [hbasic, f.getOpcode_basicHeader]
  have hkey : getMaskingKey q.basicHeader q.extendedHeader = f.key.getD 0 := by
    rw [hbasic, hextended, f.getMaskingKey_basicHeader]
  have hsize : getPayloadSize q.basicHeader q.extendedHeader = f.payload.length := by
    rw [hbasic, hextended, f.size_basicHeader.2]
  have hinv : ∀ {q'}, q.startFrame = .ok q' → q'.Inv := fun h => (hq.startFrame h).1
  rw [startFrame, hop, hkey, hsize] at hinv ⊢
  rw [Frame.checkSize]
  cases hcontrol : f.opcode.isControl with
  | true =>
    rw [hcontrol] at hinv
    refine .inr ⟨rfl, _, rfl, hinv rfl, rfl, rfl, hbasic, rfl, rfl, rfl, ?_, fun _ => ?_,
      fun h => ?_⟩
    · rw [Fragments.begun, hcontrol]
      exact MsgMetadata.collects_start _ _
    · exact ⟨rfl, hpending⟩
    · rw [hcontrol] at h
      cases h
  | false =>
    have hno : ∀ {P : Prop}, f.opcode.isControl = true → P := by
      intro P h
      rw [hcontrol] at h
      cases h
    rw [hcontrol] at hinv
    cases pending with
    | none =>
      have hsum : (0 + f.payload.length) % 2 ^ 64 = f.payload.length := by
        rw [Nat.zero_add, Nat.mod_eq_of_lt f.fits]
      rw [show q.dataMsg.msgPtr = none from hpending] at hinv ⊢
      by_cases hbig : q.maxMessageSize < f.payload.length
      · exact .inl ⟨.messageTooBig, if_pos (hbig.trans_eq hsum.symm), if_pos hbig⟩
      · have hsmall : ¬q.maxMessageSize < (0 + f.payload.length) % 2 ^ 64 := by rwa [hsum]
        refine .inr ⟨if_neg hsmall, _, if_neg hbig, hinv (if_neg hbig), rfl, rfl, hbasic, rfl, rfl,
          rfl, ?_, hno, fun _ => rfl⟩
        rw [Fragments.begun, hcontrol]
        exact MsgMetadata.collects_start _ _
    | some s =>
      have hcollects : q.dataMsg.Collects s := hpending
      rw [hcollects.msgPtr] at hinv ⊢
      by_cases hbig : q.maxMessageSize < (s.payload.length + f.payload.length) % 2 ^ 64
      · exact .inl ⟨.messageTooBig, if_pos hbig, if_pos hbig⟩
      · refine .inr ⟨if_neg hbig, _, if_neg hbig, hinv (if_neg hbig), rfl, rfl, hbasic, rfl, rfl,
          rfl, ?_, hno, fun _ => rfl⟩
        rw [Fragments.begun, hcontrol]
        exact ⟨hcollects.msgPtr, hcollects.validator⟩

theorem Rests.isNone_msgPtr (hp : p.Rests isServer maxMessageSize pending) :
    p.dataMsg.msgPtr.isNone = pending.isNone := by
  have hpending := hp.pending
  cases pending with
  | none => exact congrArg Option.isNone hpending
  | some s => rw [MsgMetadata.Collects.msgPtr hpending]; rfl

theorem Rests.headerBasicRead (hp : p.Rests isServer maxMessageSize pending) (f : Frame) :
    { p with basicHeader := f.basicHeader, bytesNeeded := 0 }.headerBasicRead =
      (f.checkHeader isServer pending.isNone).map fun _ => { p with
        basicHeader := f.basicHeader
        state := .headerExtended
        cursor := 0
        bytesNeeded := f.extension.length } := by
  rw [Hybi13.headerBasicRead]
  dsimp only
  rw [validateIncomingBasicHeader_basicHeader, hp.isServer, hp.isNone_msgPtr,
    f.getHeaderLen_basicHeader, Nat.add_sub_cancel_left]
  cases f.checkHeader isServer pending.isNone <;> rfl

theorem headerExtendedRead_frame (hbasic : q.basicHeader = f.basicHeader) {more : List UInt8}
    (hextended : q.extendedHeader = f.extension ++ more) : q.headerExtendedRead = q.startFrame := by
  rw [headerExtendedRead, hbasic, hextended, validateIncomingExtendedHeader_basicHeader]
  rfl

theorem Rests.consume_header (hp : p.Rests isServer maxMessageSize pending) (f : Frame)
    (bs : List UInt8) :
    (∃ e, f.checkHeader isServer pending.isNone = .error e ∧
        reader.consume p (f.header ++ bs) = .error e) ∨
      f.checkHeader isServer pending.isNone = .ok () ∧
        ((∃ e, f.checkSize maxMessageSize pending = .error e ∧
            reader.consume p (f.header ++ bs) = .error e) ∨
          f.checkSize maxMessageSize pending = .ok () ∧
            ∃ q, q.Reads isServer maxMessageSize pending f ∧
              reader.consume p (f.header ++ bs) = reader.consume q bs) := by
  have hbasic : reader.consume p (f.header ++ bs) =
      ({ p with basicHeader := f.basicHeader, bytesNeeded := 0 }.headerBasicRead).bind
        fun q => reader.consume q (f.extension ++ bs) :=
    consume_headerBasic hp.inv hp.state hp.bytesNeeded f.byte0 f.byte1 (f.extension ++ bs)
  have hread := hp.headerBasicRead f
  cases hheader : f.checkHeader isServer pending.isNone with
  | error e =>
    rw [hheader] at hread
    rw [hbasic, hread]
    exact .inl ⟨e, rfl, rfl⟩
  | ok u =>
    rw [hheader] at hread
    have hinv := (hp.inv.headerBasicRead hread).2.2
    have hextended := consume_headerExtended hinv rfl rfl bs
    have hinv' := hinv.extendedPart rfl (Nat.le_refl f.extension.length)
    rw [Nat.sub_self] at hinv'
    dsimp only at hextended
    have hbytes : copyTo p.extendedHeader 0 f.extension =
        f.extension ++ p.extendedHeader.drop f.extension.length := by
      rw [copyTo, List.take_zero, List.nil_append, Nat.zero_add]
    rw [headerExtendedRead_frame rfl hbytes] at hextended
    have hconsume := (hbasic.trans (congrArg (Except.bind · _) hread)).trans hextended
    refine .inr ⟨rfl, ?_⟩
    rw [hconsume]
    obtain ⟨e, hsize, hstart⟩ | ⟨hsize, q, hstart, hq⟩ :=
      startFrame_frame hinv' hp.pending rfl hbytes
    · refine .inl ⟨e, ?_, ?_⟩
      · rw [← hsize, ← hp.maxMessageSize]
      · rw [hstart]
        rfl
    · refine .inr ⟨?_, q, ?_, ?_⟩
      · rw [← hsize, ← hp.maxMessageSize]
      · rw [← hp.isServer, ← hp.maxMessageSize]
        exact hq
      · rw [hstart]
        rfl

theorem setCurrent_of_control (h : p.currentMsg = .control) (m : MsgMetadata) :
    p.setCurrent m = { p with controlMsg := m } := by
  rw [setCurrent, h]

theorem setCurrent_of_data (h : p.currentMsg = .data) (m : MsgMetadata) :
    p.setCurrent m = { p with dataMsg := m } := by
  rw [setCurrent, h]

theorem pending_getMessage_control (h : p.currentMsg = .control) (hpending : p.Pending pending) :
    p.getMessage.2.Pending pending := by
  rw [getMessage, setCurrent_of_control h]
  cases pending <;> exact hpending

theorem pending_getMessage_data (h : p.currentMsg = .data) : p.getMessage.2.Pending none := by
  rw [getMessage, setCurrent_of_data h]
  rfl

theorem checkText_of_collects {m : MsgMetadata} {s : Fragments} (hm : m.Collects s)
    (htext : f.opcode = .text → s.opcode = .text) :
    f.checkText s =
      if f.fin && f.opcode = .text && !m.validator.complete then .error .invalidUtf8
      else .ok () := by
  rw [Frame.checkText]
  by_cases hs : s.opcode = .text
  · simp [hm.validator hs]
  · have hf : f.opcode ≠ .text := fun h => hs (htext h)
    simp [hs, hf]

theorem payloadRead_frame (hbasic : p.basicHeader = f.basicHeader) :
    p.payloadRead =
      if f.fin then
        if f.opcode = .text && !p.current.validator.complete then .error .invalidUtf8
        else .ok { p with state := .ready }
      else .ok p.resetHeaders := by
  have hfin : p.basicHeader.getFin = f.fin := by rw [hbasic, f.getFin_basicHeader]
  have hop : p.basicHeader.getOpcode = f.opcode := by rw [hbasic, f.getOpcode_basicHeader]
  rw [Hybi13.payloadRead, finalizeMessage, hfin, hop]

theorem Reads.payloadRead (hq : q.Reads isServer maxMessageSize pending f)
    (hheader : f.checkHeader isServer pending.isNone = .ok ()) {m : MsgMetadata}
    (hm : m.Collects (.collect pending f)) (hkey : ∃ k, Holds m.preparedKey k) :
    (∃ e, f.checkText (.collect pending f) = .error e ∧
        { q.setCurrent m with bytesNeeded := 0 }.payloadRead = .error e) ∨
      f.checkText (.collect pending f) = .ok () ∧ ∃ q' : Hybi13,
        { q.setCurrent m with bytesNeeded := 0 }.payloadRead = .ok q' ∧ q'.Inv ∧
        (f.fin = true → q'.state = .ready ∧
          q'.getMessage.1 = some (Fragments.collect pending f).message ∧
            q'.getMessage.2.Rests isServer maxMessageSize
              (if f.opcode.isControl then pending else none)) ∧
        (f.fin = false → q'.Rests isServer maxMessageSize (some (.collect pending f))) := by
  obtain ⟨hcontrolFrame, -, hcontinuation, -⟩ := Frame.checkHeader_iff.mp hheader
  have htext : f.opcode = .text → (Fragments.collect pending f).opcode = .text := by
    intro h
    have hdata : f.opcode.isControl = false := by rw [h]; rfl
    cases pending with
    | none => rw [Fragments.collect, Fragments.begun, hdata]; exact h
    | some s =>
      rw [(hcontinuation hdata).mpr rfl] at h
      cases h
  rw [checkText_of_collects hm htext]
  have hsome : m.msgPtr.isSome := by rw [hm.msgPtr]; rfl
  have hinv := hq.inv.payloadPart hq.state hsome hkey 0
  have hstate := (state_setCurrent q m).trans hq.state
  have hisServer := (isServer_setCurrent q m).trans hq.isServer
  have hmax := (maxMessageSize_setCurrent q m).trans hq.maxMessageSize
  have hread : { q.setCurrent m with bytesNeeded := 0 }.payloadRead = _ :=
    payloadRead_frame ((basicHeader_setCurrent q m).trans hq.basicHeader)
  rw [show current { q.setCurrent m with bytesNeeded := 0 } = m from
    current_setCurrent q m] at hread
  cases hfin : f.fin with
  | true =>
    rw [hfin, if_pos rfl] at hread
    rw [Bool.true_and]
    by_cases hcomplete : (f.opcode = .text && !m.validator.complete) = true
    · rw [if_pos hcomplete] at hread ⊢
      exact .inl ⟨_, rfl, hread⟩
    · rw [if_neg hcomplete] at hread ⊢
      have hinv' := (hinv.payloadRead hstate hread).1
      refine .inr ⟨rfl, _, hread, hinv', fun _ => ⟨rfl, ?_, ?_⟩,
        fun h => absurd h.symm Bool.false_ne_true⟩
      · show (q.setCurrent m).current.msgPtr = _
        rw [current_setCurrent, hm.msgPtr]
      · refine ⟨(waiting_getMessage hinv').inv, rfl, rfl, ?_, ?_, ?_⟩
        · exact (isServer_setCurrent _ _).trans hisServer
        · exact (maxMessageSize_setCurrent _ _).trans hmax
        · cases hop : f.opcode.isControl with
          | true =>
            obtain ⟨htarget, hpending⟩ := hq.control hop
            rw [setCurrent_of_control htarget, if_pos rfl]
            exact pending_getMessage_control htarget hpending
          | false =>
            have htarget := hq.data hop
            rw [setCurrent_of_data htarget, if_neg Bool.false_ne_true]
            exact pending_getMessage_data htarget
  | false =>
    have hdata : f.opcode.isControl = false := by
      rw [← Bool.not_eq_true]
      intro hcontrol
      rw [(hcontrolFrame hcontrol).2] at hfin
      cases hfin
    rw [hfin, if_neg Bool.false_ne_true] at hread
    refine .inr ⟨if_neg Bool.false_ne_true, _, hread, ?_,
      fun h => absurd h Bool.false_ne_true, fun _ => ?_⟩
    · exact (hinv.payloadRead hstate hread).1
    · refine ⟨(hinv.payloadRead hstate hread).1, rfl, rfl, hisServer, hmax, ?_⟩
      show (q.setCurrent m).dataMsg.Collects (.collect pending f)
      rw [setCurrent_of_data (hq.data hdata)]
      exact hm

theorem Reads.consume_body (hq : q.Reads isServer maxMessageSize pending f)
    (hheader : f.checkHeader isServer pending.isNone = .ok ()) (bs : List UInt8) :
    (∃ e, f.checkText (.collect pending f) = .error e ∧
        reader.consume q (f.body ++ bs) = .error e) ∨
      f.checkText (.collect pending f) = .ok () ∧ ∃ q' : Hybi13,
        reader.consume q (f.body ++ bs) = reader.consume q' bs ∧ q'.Inv ∧
        (f.fin = true → q'.state = .ready ∧
          q'.getMessage.1 = some (Fragments.collect pending f).message ∧
            q'.getMessage.2.Rests isServer maxMessageSize
              (if f.opcode.isControl then pending else none)) ∧
        (f.fin = false → q'.Rests isServer maxMessageSize (some (.collect pending f))) := by
  have hmasked : q.basicHeader.getMasked = f.key.isSome := by
    rw [hq.basicHeader, f.getMasked_basicHeader]
  have hbody := consume_application hq.inv hq.state (hq.bytesNeeded.trans f.length_body.symm) bs
  rw [hmasked] at hbody
  rw [hbody]
  obtain ⟨htext, hdecode, hreceive⟩ | ⟨m, hreceive, hm⟩ := hq.collects.receive hq.preparedKey
  · rw [hreceive]
    refine .inl ⟨.invalidUtf8, if_pos ?_, rfl⟩
    rw [Bool.and_eq_true, decide_eq_true_iff, Bool.not_eq_true']
    exact ⟨htext, hdecode⟩
  · have hkey : ∃ k, Holds m.preparedKey k :=
      (MsgMetadata.exists_of_receive hq.inv.currentKey.choose_spec hreceive).2
    rw [hreceive]
    show (∃ e, _ ∧ (Hybi13.payloadRead _).bind _ = _) ∨
      _ ∧ ∃ q', (Hybi13.payloadRead _).bind _ = _ ∧ _
    obtain ⟨e, htext, hread⟩ | ⟨htext, q', hread, hq'⟩ := hq.payloadRead hheader hm hkey
    · rw [hread]
      exact .inl ⟨e, htext, rfl⟩
    · rw [hread]
      exact .inr ⟨htext, q', rfl, hq'⟩

/-- **The processor does with the bytes of a frame what is done with the frame.** -/
theorem Rests.read_frame (hp : p.Rests isServer maxMessageSize pending) (f : Frame)
    (bs : List UInt8) : ∃ p' : Hybi13,
      (∀ pending', (receive isServer maxMessageSize pending f).result = .ok pending' →
        p'.Rests isServer maxMessageSize pending') ∧
      reader.read p (f.wire ++ bs) =
        receive isServer maxMessageSize pending f >>= fun _ => reader.read p' bs := by
  have hbytes : f.wire ++ bs = f.header ++ (f.body ++ bs) := List.append_assoc _ _ _
  have hne : f.wire ++ bs ≠ [] := List.cons_ne_nil _ _
  rw [lawful_reader.read_eq hp.waiting hne, hbytes, receive]
  obtain ⟨e, hheader, hconsume⟩ | ⟨hheader, ⟨e, hsize, hconsume⟩ | ⟨hsize, q, hq, hconsume⟩⟩ :=
    hp.consume_header f (f.body ++ bs)
  · rw [hconsume, hheader]
    refine ⟨p, ?_, rfl⟩
    intro _ h
    cases h
  · rw [hconsume, hheader, hsize]
    refine ⟨p, ?_, rfl⟩
    intro _ h
    cases h
  · rw [hconsume, hheader, hsize]
    obtain ⟨e, htext, hconsume'⟩ | ⟨htext, q', hconsume', hinv, hfin, hcontinues⟩ :=
      hq.consume_body hheader bs
    · rw [hconsume', htext]
      refine ⟨p, ?_, rfl⟩
      intro _ h
      cases h
    · rw [hconsume', htext]
      cases hf : f.fin with
      | true =>
        obtain ⟨hready, hmessage, hrests⟩ := hfin hf
        refine ⟨q'.getMessage.2, ?_, ?_⟩
        · intro pending' h
          cases h
          exact hrests
        · have hready' : reader.ready q' = true := decide_eq_true hready
          rw [BufferReader.Lawful.consume_done (BufferReader.not_goesOn_of_ready hready'),
            Trace.lift_ok_bind, BufferReader.goOn, if_pos hready']
          show (Trace.emit (q'.getMessage.1.getD (.new .continuation)) >>= fun _ => _) = _
          rw [hmessage]
          rfl
      | false =>
        refine ⟨q', ?_, ?_⟩
        · intro pending' h
          cases h
          exact hcontinues hf
        · rw [lawful_reader.consume_goOn (hcontinues hf).waiting]
          rfl

/-! ## Whole frames -/

/-- **The processor does with the bytes of frames what is done with the frames.** -/
theorem Rests.read_frames (hp : p.Rests isServer maxMessageSize pending) (fs : List Frame)
    (bs : List UInt8) : ∃ p' : Hybi13,
      (∀ pending', (fs.foldlM (receive isServer maxMessageSize) pending).result = .ok pending' →
        p'.Rests isServer maxMessageSize pending') ∧
      reader.read p (fs.flatMap Frame.wire ++ bs) =
        fs.foldlM (receive isServer maxMessageSize) pending >>= fun _ => reader.read p' bs := by
  induction fs generalizing p pending with
  | nil =>
    refine ⟨p, ?_, rfl⟩
    intro pending' h
    cases h
    exact hp
  | cons f fs ih =>
    obtain ⟨p₁, hrests, hread⟩ := hp.read_frame f (fs.flatMap Frame.wire ++ bs)
    rw [List.flatMap_cons, List.append_assoc, hread, List.foldlM_cons]
    cases hresult : (receive isServer maxMessageSize pending f).result with
    | error e =>
      refine ⟨p, ?_, ?_⟩
      · intro pending' h
        rw [Trace.result_bind, hresult] at h
        cases h
      · rw [Trace.bind_assoc]
        exact Trace.bind_congr fun a h => by rw [hresult] at h; cases h
    | ok pending₁ =>
      obtain ⟨p₂, hrests', hread'⟩ := ih (hrests pending₁ hresult)
      refine ⟨p₂, ?_, ?_⟩
      · intro pending' h
        rw [Trace.result_bind, hresult] at h
        exact hrests' pending' h
      · rw [Trace.bind_assoc]
        refine Trace.bind_congr fun a h => ?_
        rw [hresult] at h
        cases h
        exact hread'

end Hybi13

end SyntheticArbitrage.WebSocket
