import SyntheticArbitrage.WebSocket.Processor

/-!
# From frames to messages

The messages of a connection in terms of its frames.

* `Frame.checkHeader`, `Frame.checkSize`, `Frame.checkText`: why a frame is refused.
* `receive`: what the next frame adds to the message that has begun, or why it is refused.
* `foldlM_receive_sound`: **what is delivered is sound**, whatever the frames.
-/

namespace SyntheticArbitrage.WebSocket

theorem ite_error_eq_ok {ε α : Type} {c : Prop} [Decidable c] {e : ε} {x : Except ε α} {a : α} :
    (if c then .error e else x) = .ok a ↔ ¬c ∧ x = .ok a := by
  by_cases h : c
  · rw [if_pos h]
    exact iff_of_false nofun fun hx => hx.1 h
  · rw [if_neg h]
    exact (and_iff_right h).symm

/-! ## Frames -/

structure Fragments where
  opcode : Opcode
  payload : List UInt8

namespace Fragments

def message (s : Fragments) : Message := { Message.new s.opcode with payload := s.payload }

/-- The message to which a frame belongs.  Control frames come between the others and are messages
of their own. -/
def begun (pending : Option Fragments) (f : Frame) : Fragments :=
  if f.opcode.isControl then ⟨f.opcode, []⟩ else pending.getD ⟨f.opcode, []⟩

def collect (pending : Option Fragments) (f : Frame) : Fragments :=
  ⟨(begun pending f).opcode, (begun pending f).payload ++ f.payload⟩

end Fragments

namespace Frame

/-- Why a header is refused, in the order of the checks. -/
def checkHeader (isServer newMsg : Bool) (f : Frame) : Except ProcessorError Unit :=
  if f.opcode.isControl && 125 < f.payload.length then .error .controlTooBig
  else if f.opcode.reserved then .error .invalidOpcode
  else if f.opcode.isControl && !f.fin then .error .fragmentedControl
  else if newMsg && f.opcode = .continuation then .error .invalidContinuation
  else if !newMsg && !f.opcode.isControl && f.opcode ≠ .continuation then
    .error .invalidContinuation
  else if isServer && f.key.isNone then .error .maskingRequired
  else if !isServer && f.key.isSome then .error .maskingForbidden
  else .ok ()

/-- A message is too big; the sum wraps around. -/
def checkSize (maxMessageSize : ℕ) (pending : Option Fragments) (f : Frame) :
    Except ProcessorError Unit :=
  let size := (pending.elim 0 (·.payload.length) + f.payload.length) % 2 ^ 64
  if f.opcode.isControl then .ok ()
  else if maxMessageSize < size then .error .messageTooBig
  else .ok ()

/-- Texts are checked as they come.  Only a text in one frame has to end with a whole character. -/
def checkText (m : Fragments) (f : Frame) : Except ProcessorError Unit :=
  let r := Validator.new.decode m.payload
  if m.opcode = .text && !r.1 then .error .invalidUtf8
  else if f.fin && f.opcode = .text && !r.2.complete then .error .invalidUtf8
  else .ok ()

end Frame

/-- The frames that are accepted: data frames start a message when none has begun and go on with it
otherwise, control frames are short and whole, and a server wants masks. -/
theorem Frame.checkHeader_iff {isServer newMsg : Bool} {f : Frame} :
    f.checkHeader isServer newMsg = .ok () ↔
      (f.opcode.isControl = true → f.payload.length ≤ 125 ∧ f.fin = true) ∧
        f.opcode.reserved = false ∧
        (f.opcode.isControl = false → (f.opcode = .continuation ↔ newMsg = false)) ∧
        f.key.isSome = isServer := by
  have hcontinuation : f.opcode = .continuation → f.opcode.isControl = false := by
    intro h
    rw [h]
    rfl
  have hkey : f.key.isNone = !f.key.isSome := by cases f.key <;> rfl
  rw [checkHeader]
  simp only [ite_error_eq_ok, hkey, Bool.and_eq_true, Bool.not_eq_true', decide_eq_true_iff]
  cases isServer <;> cases newMsg <;> grind

/-- What a frame adds to the message that has begun, if one has. -/
def receive (isServer : Bool) (maxMessageSize : ℕ) (pending : Option Fragments) (f : Frame) :
    Trace ProcessorError Message (Option Fragments) := do
  Trace.lift (f.checkHeader isServer pending.isNone)
  Trace.lift (f.checkSize maxMessageSize pending)
  Trace.lift (f.checkText (.collect pending f))
  if f.fin then do
    Trace.emit (Fragments.collect pending f).message
    pure (if f.opcode.isControl then pending else none)
  else pure (some (.collect pending f))

/-! ## What the handlers may rely on -/

/-- What can have come of a data message.  The sum that is compared with the greatest size wraps
around, so that only a message of 2^64 bytes can be longer. -/
structure Fragments.Sound (maxMessageSize : ℕ) (s : Fragments) : Prop where
  opcode : s.opcode = .text ∨ s.opcode = .binary
  size : s.payload.length ≤ maxMessageSize ∨ 2 ^ 64 ≤ s.payload.length
  text : s.opcode = .text → ∃ more cs, s.payload ++ more = Utf8.encode cs

/-- What can be delivered. -/
structure Message.Sound (maxMessageSize : ℕ) (m : Message) : Prop where
  opcode : m.opcode = .text ∨ m.opcode = .binary ∨ m.opcode = .close ∨ m.opcode = .ping ∨
    m.opcode = .pong
  control : m.opcode.isControl = true → m.payload.length ≤ 125
  size : m.opcode.isControl = false →
    m.payload.length ≤ maxMessageSize ∨ 2 ^ 64 ≤ m.payload.length
  text : m.opcode = .text → ∃ more cs, m.payload ++ more = Utf8.encode cs

theorem Fragments.Sound.message {maxMessageSize : ℕ} {s : Fragments} (h : s.Sound maxMessageSize) :
    s.message.Sound maxMessageSize where
  opcode := by
    obtain hop | hop := h.opcode
    · exact .inl hop
    · exact .inr (.inl hop)
  control hcontrol := by
    rw [show s.message.opcode = s.opcode from rfl] at hcontrol
    obtain hop | hop := h.opcode
    all_goals
      rw [hop] at hcontrol
      cases hcontrol
  size _ := h.size
  text := h.text

variable {isServer : Bool} {maxMessageSize : ℕ} {pending : Option Fragments} {f : Frame}

theorem receive_cases (isServer : Bool) (maxMessageSize : ℕ) (pending : Option Fragments)
    (f : Frame) : (∃ e, receive isServer maxMessageSize pending f = Trace.lift (.error e)) ∨
      f.checkHeader isServer pending.isNone = .ok () ∧ f.checkSize maxMessageSize pending = .ok () ∧
        f.checkText (.collect pending f) = .ok () ∧ receive isServer maxMessageSize pending f =
          if f.fin then do
            Trace.emit (Fragments.collect pending f).message
            pure (if f.opcode.isControl then pending else none)
          else pure (some (.collect pending f)) := by
  rw [receive]
  cases f.checkHeader isServer pending.isNone with
  | error e => exact .inl ⟨e, rfl⟩
  | ok u =>
    cases f.checkSize maxMessageSize pending with
    | error e => exact .inl ⟨e, rfl⟩
    | ok u =>
      cases f.checkText (.collect pending f) with
      | error e => exact .inl ⟨e, rfl⟩
      | ok u => exact .inr ⟨rfl, rfl, rfl, rfl⟩

theorem exists_of_checkText {s : Fragments} (h : f.checkText s = .ok ())
    (htext : s.opcode = .text) : ∃ more cs, s.payload ++ more = Utf8.encode cs := by
  rw [Frame.checkText, ite_error_eq_ok] at h
  apply Validator.decode_iff.mp
  by_contra hdecode
  refine h.1 ?_
  rw [Bool.and_eq_true, decide_eq_true_iff, Bool.not_eq_true']
  exact ⟨htext, Bool.eq_false_iff.mpr hdecode⟩

theorem sound_control (hheader : f.checkHeader isServer pending.isNone = .ok ())
    (hcontrol : f.opcode.isControl = true) :
    (Fragments.collect pending f).message.Sound maxMessageSize := by
  obtain ⟨hlen, hreserved, -, -⟩ := Frame.checkHeader_iff.mp hheader
  have hcollect : Fragments.collect pending f = ⟨f.opcode, f.payload⟩ := by
    rw [Fragments.collect, Fragments.begun, if_pos hcontrol]
    rfl
  have hop : f.opcode = .close ∨ f.opcode = .ping ∨ f.opcode = .pong := by
    revert hcontrol hreserved
    cases f.opcode <;> decide
  rw [hcollect]
  refine ⟨.inr (.inr hop), fun _ => (hlen hcontrol).1, fun hdata => ?_, fun htext => ?_⟩
  · exact absurd (hdata.symm.trans hcontrol) Bool.false_ne_true
  · rw [show f.opcode = .text from htext] at hcontrol
    cases hcontrol

theorem sound_data (hpending : ∀ s ∈ pending, s.Sound maxMessageSize)
    (hheader : f.checkHeader isServer pending.isNone = .ok ())
    (hsize : f.checkSize maxMessageSize pending = .ok ())
    (htext : f.checkText (.collect pending f) = .ok ()) (hdata : f.opcode.isControl = false) :
    (Fragments.collect pending f).Sound maxMessageSize := by
  obtain ⟨-, hreserved, hcontinuation, -⟩ := Frame.checkHeader_iff.mp hheader
  have hbegun : Fragments.begun pending f = pending.getD ⟨f.opcode, []⟩ := by
    rw [Fragments.begun, hdata]
    rfl
  rw [Frame.checkSize, if_neg (by rw [hdata]; exact Bool.false_ne_true), ite_error_eq_ok] at hsize
  refine ⟨?_, ?_, exists_of_checkText htext⟩
  · rw [Fragments.collect, hbegun]
    cases pending with
    | none =>
      have hop : f.opcode ≠ .continuation := fun h => Bool.noConfusion ((hcontinuation hdata).mp h)
      show f.opcode = .text ∨ f.opcode = .binary
      revert hdata hreserved hop
      cases f.opcode <;> decide
    | some s => exact (hpending s rfl).opcode
  · have hlen : (Fragments.collect pending f).payload.length =
        pending.elim 0 (·.payload.length) + f.payload.length := by
      rw [Fragments.collect, hbegun]
      cases pending with
      | none => exact (Nat.zero_add _).symm
      | some s => exact List.length_append
    have hle := Nat.le_of_not_lt hsize.1
    rw [← hlen] at hle
    by_cases hwrap : (Fragments.collect pending f).payload.length < 2 ^ 64
    · rw [Nat.mod_eq_of_lt hwrap] at hle
      exact .inl hle
    · exact .inr (Nat.le_of_not_lt hwrap)

/-- One frame delivers only what is sound. -/
theorem receive_sound (hpending : ∀ s ∈ pending, s.Sound maxMessageSize) :
    (∀ m ∈ (receive isServer maxMessageSize pending f).calls, m.Sound maxMessageSize) ∧
      ∀ pending', (receive isServer maxMessageSize pending f).result = .ok pending' →
        ∀ s ∈ pending', s.Sound maxMessageSize := by
  obtain ⟨e, hreceive⟩ | ⟨hheader, hsize, htext, hreceive⟩ :=
    receive_cases isServer maxMessageSize pending f
  · rw [hreceive]
    exact ⟨nofun, nofun⟩
  · rw [hreceive]
    cases hcontrol : f.opcode.isControl with
    | true =>
      have hfin := ((Frame.checkHeader_iff.mp hheader).1 hcontrol).2
      rw [hfin, if_pos rfl]
      refine ⟨fun m hm => ?_, fun pending' h => ?_⟩
      · obtain rfl := List.mem_singleton.mp hm
        exact sound_control hheader hcontrol
      · cases h
        exact hpending
    | false =>
      have hsound := sound_data hpending hheader hsize htext hcontrol
      cases f.fin with
      | true =>
        refine ⟨fun m hm => ?_, fun pending' h => ?_⟩
        · obtain rfl := List.mem_singleton.mp hm
          exact hsound.message
        · cases h
          intro s hs
          cases hs
      | false =>
        refine ⟨nofun, fun pending' h s hs => ?_⟩
        cases h
        cases hs
        exact hsound

theorem foldlM_receive_sound (hpending : ∀ s ∈ pending, s.Sound maxMessageSize) (fs : List Frame) :
    ∀ m ∈ (fs.foldlM (receive isServer maxMessageSize) pending).calls, m.Sound maxMessageSize := by
  induction fs generalizing pending with
  | nil => nofun
  | cons f fs ih =>
    obtain ⟨hcalls, hresult⟩ := receive_sound hpending
    intro m hm
    rw [List.foldlM_cons, Trace.calls_bind, List.mem_append] at hm
    obtain hm | hm := hm
    · exact hcalls m hm
    · cases h : (receive isServer maxMessageSize pending f).result with
      | error e =>
        rw [h] at hm
        cases hm
      | ok pending' =>
        rw [h] at hm
        exact ih (hresult pending' h) m hm

end SyntheticArbitrage.WebSocket
