import SyntheticArbitrage.WebSocket.FrameReader

/-!
# Streams of bytes

What a connection makes of any bytes that come.

* `Frames`: the bytes as whole frames and a tail without one; `Frames.unique`: they are determined.
* `Rests.read_tail`: a part of a frame is no message.
* `read_stream`: **the messages that are read are those of the whole frames.**
* `read_sound`: **what is delivered is sound**, whatever the bytes.
-/

namespace SyntheticArbitrage.WebSocket

namespace Hybi13

variable {p q : Hybi13} {isServer : Bool} {maxMessageSize : ℕ} {pending : Option Fragments}
  {f : Frame}

/-! ## The tail -/

theorem consume_short (hp : p.Inv) (hready : p.state ≠ .ready) {bs rest : List UInt8}
    (hlen : bs.length < p.bytesNeeded) (h : reader.consume p bs = .ok (q, rest)) :
    q.state ≠ .ready := by
  by_cases hbs : bs = []
  · subst hbs
    rw [BufferReader.Lawful.consume_done (BufferReader.not_goesOn_nil hlen)] at h
    cases h
    exact hready
  · have hgoes : reader.goesOn p bs = true :=
      BufferReader.goesOn_iff.mpr ⟨decide_eq_false hready, fun hnil => absurd hnil hbs⟩
    rw [lawful_reader.consume_step hp hgoes] at h
    cases hiterate : p.iterate bs with
    | error e =>
      rw [show reader.iterate p bs = _ from hiterate] at h
      cases h
    | ok r =>
      obtain ⟨p', rest'⟩ := r
      obtain ⟨rfl, hready', hneeded⟩ := iterate_part hp hready hbs hlen hiterate
      rw [show reader.iterate p bs = _ from hiterate] at h
      have hdone : reader.consume p' [] = .ok (q, rest) := h
      rw [BufferReader.Lawful.consume_done (BufferReader.not_goesOn_nil hneeded)] at hdone
      cases hdone
      exact hready'

theorem exists_wire {b0 b1 : UInt8} {newMsg : Bool} {ext more body : List UInt8}
    (hbasic : validateIncomingBasicHeader ⟨b0, b1⟩ isServer newMsg = .ok ())
    (hlen : 2 + ext.length = BasicHeader.getHeaderLen ⟨b0, b1⟩)
    (hextended : validateIncomingExtendedHeader ⟨b0, b1⟩ (ext ++ more) = .ok ())
    (hbody : body.length = getPayloadSize ⟨b0, b1⟩ (ext ++ more)) :
    ∃ f : Frame, b0 :: b1 :: (ext ++ body) = f.wire := by
  rw [validateIncomingBasicHeader] at hbasic
  simp only [ite_error_eq_ok, Bool.or_eq_true, Bool.not_eq_true, not_or] at hbasic
  obtain ⟨-, hrsv1, ⟨hrsv2, hrsv3⟩, -⟩ := hbasic
  obtain ⟨h16, h64⟩ := validateIncomingExtendedHeader_iff.mp hextended
  obtain ⟨f, hf, rfl, rfl⟩ := exists_frame hrsv1 hrsv2 hrsv3 hlen more h16 h64 hbody
  obtain ⟨rfl, rfl⟩ := BasicHeader.mk.inj hf
  exact ⟨f, rfl⟩

theorem exists_append_of_le {bs : List UInt8} {n : ℕ} (h : n ≤ bs.length) :
    ∃ xs ys, bs = xs ++ ys ∧ xs.length = n :=
  ⟨bs.take n, bs.drop n, (List.take_append_drop n bs).symm, List.length_take_of_le h⟩

theorem consume_tail (hp : p.Rests isServer maxMessageSize pending) {tail rest : List UInt8}
    (htail : ∀ f bs, tail ≠ Frame.wire f ++ bs) (h : reader.consume p tail = .ok (q, rest)) :
    q.state ≠ .ready := by
  have hready : p.state ≠ .ready := by
    rw [hp.state]
    decide
  obtain _ | ⟨b0, _ | ⟨b1, bs⟩⟩ := tail
  · exact consume_short hp.inv hready (by rw [hp.bytesNeeded]; exact Nat.two_pos) h
  · exact consume_short hp.inv hready (by rw [hp.bytesNeeded]; exact Nat.one_lt_two) h
  · rw [consume_headerBasic hp.inv hp.state hp.bytesNeeded] at h
    cases hbasic : { p with basicHeader := ⟨b0, b1⟩, bytesNeeded := 0 }.headerBasicRead with
    | error e =>
      rw [hbasic] at h
      cases h
    | ok p₁ =>
      rw [hbasic] at h
      obtain ⟨hvalid, rfl, hinv₁⟩ := hp.inv.headerBasicRead hbasic
      by_cases hshort : bs.length < BasicHeader.getHeaderLen ⟨b0, b1⟩ - 2
      · exact consume_short hinv₁ (show State.headerExtended ≠ .ready by decide) hshort h
      · obtain ⟨ext, bs, rfl, hext⟩ := exists_append_of_le (Nat.le_of_not_lt hshort)
        have hextended := (consume_headerExtended hinv₁ rfl hext.symm bs).symm.trans h
        have hinv₂ := hinv₁.extendedPart rfl (Nat.le_of_eq hext)
        dsimp only at hextended hinv₂
        rw [hext, Nat.sub_self] at hinv₂
        rw [hext] at hextended
        have hbytes : copyTo p.extendedHeader 0 ext = ext ++ p.extendedHeader.drop ext.length := by
          rw [copyTo, List.take_zero, List.nil_append, Nat.zero_add]
        rw [hbytes] at hextended hinv₂
        cases hread : headerExtendedRead { p with
            basicHeader := ⟨b0, b1⟩
            bytesNeeded := 0
            cursor := 0 + (BasicHeader.getHeaderLen ⟨b0, b1⟩ - 2)
            extendedHeader := ext ++ p.extendedHeader.drop ext.length
            state := .headerExtended } with
        | error e =>
          rw [hread] at hextended
          cases hextended
        | ok p₂ =>
          rw [hread] at hextended
          obtain ⟨hvalid', hinv', hstate', hneeded'⟩ := hinv₂.headerExtendedRead hread
          by_cases hshort' : bs.length < p₂.bytesNeeded
          · exact consume_short hinv' (by rw [hstate']; decide) hshort' hextended
          · -- the whole frame is there
            obtain ⟨body, bs, rfl, hbody⟩ := exists_append_of_le (Nat.le_of_not_lt hshort')
            have hlen : 2 + ext.length = BasicHeader.getHeaderLen ⟨b0, b1⟩ := by
              rw [hext, BasicHeader.getHeaderLen]
              omega
            obtain ⟨f, hwire⟩ := exists_wire hvalid hlen hvalid' (hbody.trans hneeded')
            refine absurd ?_ (htail f bs)
            rw [← hwire]
            simp only [List.cons_append, List.append_assoc]

/-- **A part of a frame is no message.** -/
theorem Rests.read_tail (hp : p.Rests isServer maxMessageSize pending) {tail : List UInt8}
    (htail : ∀ f bs, tail ≠ Frame.wire f ++ bs) : (reader.read p tail).calls = [] := by
  rw [← lawful_reader.consume_goOn hp.waiting]
  cases hconsume : reader.consume p tail with
  | error e => rfl
  | ok r =>
    obtain ⟨q, rest⟩ := r
    have hready : reader.ready q = false := decide_eq_false (consume_tail hp htail hconsume)
    obtain ⟨-, rfl⟩ := lawful_reader.waiting_of_consume hp.inv hconsume hready
    rw [Trace.lift_ok_bind, BufferReader.goOn, hready]
    rfl

end Hybi13

/-! ## A stream of bytes -/

/-- The bytes are those of whole frames and a tail that does not begin with one. -/
structure Frames (bytes : List UInt8) (fs : List Frame) (tail : List UInt8) : Prop where
  bytes : bytes = fs.flatMap Frame.wire ++ tail
  tail : ∀ f bs, tail ≠ Frame.wire f ++ bs

theorem Frame.wire_append_inj {f g : Frame} {xs ys : List UInt8}
    (h : f.wire ++ xs = g.wire ++ ys) : f = g ∧ xs = ys := by
  have hwire : ∀ f : Frame, ∀ xs,
      f.wire ++ xs = f.byte0 :: f.byte1 :: (f.extension ++ (f.body ++ xs)) := by
    intro f xs
    simp only [wire, header, List.cons_append, List.append_assoc]
  rw [hwire, hwire] at h
  obtain ⟨h0, h⟩ := List.cons.inj h
  obtain ⟨h1, h⟩ := List.cons.inj h
  have hbasic : f.basicHeader = g.basicHeader := by rw [basicHeader, basicHeader, h0, h1]
  have hlen : f.extension.length = g.extension.length := by
    have hf := f.getHeaderLen_basicHeader
    rw [hbasic, g.getHeaderLen_basicHeader] at hf
    omega
  obtain ⟨hextension, h⟩ := List.append_inj h hlen
  have hsize : f.payload.length = g.payload.length := by
    rw [← f.size_basicHeader.2 [], ← g.size_basicHeader.2 [], hbasic, hextension]
  obtain ⟨hbody, hrest⟩ := List.append_inj h (by rw [length_body, length_body, hsize])
  have hfin : f.fin = g.fin := by rw [← f.getFin_basicHeader, hbasic, g.getFin_basicHeader]
  have hopcode : f.opcode = g.opcode := by
    rw [← f.getOpcode_basicHeader, hbasic, g.getOpcode_basicHeader]
  have hsome : f.key.isSome = g.key.isSome := by
    rw [← f.getMasked_basicHeader, hbasic, g.getMasked_basicHeader]
  have hgetD : f.key.getD 0 = g.key.getD 0 := by
    rw [← f.getMaskingKey_basicHeader [], hbasic, hextension, g.getMaskingKey_basicHeader]
  have hpayload : f.payload = g.payload := by
    rw [← unmask_body f, ← unmask_body g, hsome, hgetD, hbody]
  have hkey : f.key = g.key := by
    generalize f.key = k at hsome hgetD
    generalize g.key = l at hsome hgetD
    cases k <;> cases l
    · rfl
    · cases hsome
    · cases hsome
    · exact congrArg some hgetD
  obtain ⟨_, _, _, _, _⟩ := f
  obtain ⟨_, _, _, _, _⟩ := g
  subst hfin hopcode hkey hpayload
  exact ⟨rfl, hrest⟩

theorem exists_frames_of (bytes : List UInt8) : ∃ fs tail, Frames bytes fs tail := by
  induction hn : bytes.length using Nat.strongRecOn generalizing bytes with
  | ind n ih =>
    subst hn
    by_cases hframe : ∃ f bs, bytes = Frame.wire f ++ bs
    · obtain ⟨f, bs, rfl⟩ := hframe
      have hless : bs.length < (f.wire ++ bs).length := by
        rw [List.length_append, Frame.wire, Frame.header, List.cons_append, List.length_cons]
        omega
      obtain ⟨fs, tail, rfl, htail⟩ := ih _ hless bs rfl
      exact ⟨f :: fs, tail, by rw [List.flatMap_cons, List.append_assoc], htail⟩
    · exact ⟨[], bytes, rfl, fun f bs h => hframe ⟨f, bs, h⟩⟩

theorem Frames.unique {bytes : List UInt8} {fs gs : List Frame} {tail tail' : List UInt8}
    (hf : Frames bytes fs tail) (hg : Frames bytes gs tail') : fs = gs ∧ tail = tail' := by
  obtain ⟨rfl, htail⟩ := hf
  obtain ⟨heq, htail'⟩ := hg
  induction fs generalizing gs with
  | nil =>
    cases gs with
    | nil => exact ⟨rfl, heq⟩
    | cons g gs =>
      rw [List.flatMap_cons, List.append_assoc] at heq
      exact absurd heq (htail g _)
  | cons f fs ih =>
    cases gs with
    | nil =>
      rw [List.flatMap_cons, List.append_assoc] at heq
      exact absurd heq.symm (htail' f _)
    | cons g gs =>
      rw [List.flatMap_cons, List.flatMap_cons, List.append_assoc, List.append_assoc] at heq
      obtain ⟨rfl, hrest⟩ := Frame.wire_append_inj heq
      obtain ⟨rfl, rfl⟩ := ih hrest
      exact ⟨rfl, rfl⟩

theorem Frames.read_spec {bufs : List (List UInt8)} {fs : List Frame} {tail : List UInt8}
    (h : Frames bufs.flatten fs tail) (isServer : Bool) (maxMessageSize : ℕ) :
    (bufs.foldlM Hybi13.reader.read (.new isServer maxMessageSize)).calls =
        (fs.foldlM (receive isServer maxMessageSize) none).calls ∧
      (∀ e, (fs.foldlM (receive isServer maxMessageSize) none).result = .error e →
        (bufs.foldlM Hybi13.reader.read (.new isServer maxMessageSize)).result = .error e) ∧
      (tail = [] → ∀ pending,
        (fs.foldlM (receive isServer maxMessageSize) none).result = .ok pending →
        ∃ p, (bufs.foldlM Hybi13.reader.read (.new isServer maxMessageSize)).result = .ok p) := by
  obtain ⟨p, hrests, hread⟩ := (Hybi13.rests_new isServer maxMessageSize).read_frames fs tail
  rw [← h.bytes, ← Hybi13.read_buffers] at hread
  rw [hread, Trace.calls_bind, Trace.result_bind]
  refine ⟨?_, ?_, ?_⟩
  · cases hresult : (fs.foldlM (receive isServer maxMessageSize) none).result with
    | error e => exact List.append_nil _
    | ok pending =>
      dsimp only
      rw [(hrests pending hresult).read_tail h.tail, List.append_nil]
  · intro e h
    rw [h]
  · rintro rfl pending h
    rw [h]
    exact ⟨p, rfl⟩

/-- **The messages of a connection are those of the whole frames among its bytes**, which are
determined, however the bytes are cut into buffers: the first frame that is refused is the error,
and after the last whole frame there is nothing or an error. -/
theorem read_stream (isServer : Bool) (maxMessageSize : ℕ) (bufs : List (List UInt8)) :
    ∃ fs tail, Frames bufs.flatten fs tail ∧
      (∀ fs' tail', Frames bufs.flatten fs' tail' → fs' = fs ∧ tail' = tail) ∧
      (bufs.foldlM Hybi13.reader.read (.new isServer maxMessageSize)).calls =
        (fs.foldlM (receive isServer maxMessageSize) none).calls ∧
      (∀ e, (fs.foldlM (receive isServer maxMessageSize) none).result = .error e →
        (bufs.foldlM Hybi13.reader.read (.new isServer maxMessageSize)).result = .error e) ∧
      (tail = [] → ∀ pending,
        (fs.foldlM (receive isServer maxMessageSize) none).result = .ok pending →
        ∃ p, (bufs.foldlM Hybi13.reader.read (.new isServer maxMessageSize)).result = .ok p) := by
  obtain ⟨fs, tail, hframes⟩ := exists_frames_of bufs.flatten
  exact ⟨fs, tail, hframes, fun fs' tail' h => h.unique hframes,
    hframes.read_spec isServer maxMessageSize⟩

/-- **Whatever bytes come**, only messages of the five opcodes are delivered: control messages are
short, data messages have at most the greatest size, and texts begin a text. -/
theorem read_sound (isServer : Bool) (maxMessageSize : ℕ) (bufs : List (List UInt8)) :
    ∀ m ∈ (bufs.foldlM Hybi13.reader.read (.new isServer maxMessageSize)).calls,
      m.Sound maxMessageSize := by
  obtain ⟨fs, tail, hframes⟩ := exists_frames_of bufs.flatten
  rw [(hframes.read_spec isServer maxMessageSize).1]
  exact foldlM_receive_sound (fun s hs => by cases hs) fs

/-- A text in two frames is delivered though its last character is cut off. -/
theorem read_sound_cut : (Fragments.message ⟨.text, [0xC3]⟩).Sound 32000000 := by
  have hcalls : ([[0x01], [0x01, 0xC3, 0x80, 0x00]].foldlM Hybi13.reader.read
      (.new false 32000000)).calls = [Fragments.message ⟨.text, [0xC3]⟩] := rfl
  exact read_sound false 32000000 [[0x01], [0x01, 0xC3, 0x80, 0x00]] _
    (by rw [hcalls]; exact List.mem_singleton_self _)

end SyntheticArbitrage.WebSocket
