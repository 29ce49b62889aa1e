import SyntheticArbitrage.WebSocket.Processor

/-!
# The buffers of a connection

The processor reads the bytes of a connection from buffers, whose ends lie anywhere in a frame.

* `Inv`: what holds between two iterations.
* `copyTo_append`, `byteMaskCirc_append`, `processPayloadBytes_append`: a field that comes in two
  parts.
* `lawful_reader`: the loop is a lawful reader of buffers.
* `read_buffers`: **the messages and the error do not depend on how the bytes are cut into
  buffers.**
-/

namespace SyntheticArbitrage.WebSocket

open ByteOrder

/-! ## Fields in two parts -/

theorem length_copyTo {buffer bytes : List UInt8} {offset : ℕ}
    (h : offset + bytes.length ≤ buffer.length) :
    (copyTo buffer offset bytes).length = buffer.length := by
  rw [copyTo, List.length_append, List.length_append, List.length_take, List.length_drop]
  omega

theorem copyTo_append {buffer : List UInt8} {offset : ℕ} (h : offset ≤ buffer.length)
    (xs ys : List UInt8) : copyTo (copyTo buffer offset xs) (offset + xs.length) ys =
      copyTo buffer offset (xs ++ ys) := by
  have hfront : (buffer.take offset ++ xs).length = offset + xs.length := by
    rw [List.length_append, List.length_take, Nat.min_eq_left h]
  rw [copyTo, copyTo, List.take_left' hfront, List.drop_append, hfront,
    List.drop_eq_nil_of_le (by omega), Nat.add_sub_cancel_left, List.drop_drop, copyTo,
    List.length_append, Nat.add_assoc]
  simp only [List.nil_append, List.append_assoc]

theorem byteMaskCirc_append {preparedKey : UInt64} {k : ℕ → UInt8} (h : Holds preparedKey k)
    (xs ys : List UInt8) : byteMaskCirc (xs ++ ys) preparedKey =
      ((byteMaskCirc xs preparedKey).1 ++ (byteMaskCirc ys (byteMaskCirc xs preparedKey).2).1,
        (byteMaskCirc ys (byteMaskCirc xs preparedKey).2).2) := by
  obtain ⟨hboth, hboth'⟩ := byteMaskCirc_eq h (xs ++ ys)
  obtain ⟨hfirst, hfirst'⟩ := byteMaskCirc_eq h xs
  obtain ⟨hsecond, hsecond'⟩ := byteMaskCirc_eq hfirst' ys
  refine Prod.ext ?_ ?_
  · rw [hboth, hfirst, hsecond, masked_append]
  · apply hboth'.unique
    rw [List.length_append]
    simp only [Nat.add_assoc]
    exact hsecond'

theorem unmask_append {preparedKey : UInt64} {k : ℕ → UInt8} (h : Holds preparedKey k)
    (isMasked : Bool) (xs ys : List UInt8) : unmask isMasked (xs ++ ys) preparedKey =
      ((unmask isMasked xs preparedKey).1 ++
          (unmask isMasked ys (unmask isMasked xs preparedKey).2).1,
        (unmask isMasked ys (unmask isMasked xs preparedKey).2).2) := by
  cases isMasked with
  | false => rfl
  | true => exact byteMaskCirc_append h xs ys

theorem holds_unmask {preparedKey : UInt64} {k : ℕ → UInt8} (h : Holds preparedKey k)
    (isMasked : Bool) (buf : List UInt8) : ∃ k', Holds (unmask isMasked buf preparedKey).2 k' := by
  cases isMasked with
  | false => exact ⟨k, h⟩
  | true => exact ⟨_, (byteMaskCirc_eq h buf).2⟩

theorem MsgMetadata.receive_append {m : MsgMetadata} {k : ℕ → UInt8}
    (hk : Holds m.preparedKey k) (isMasked : Bool) (xs ys : List UInt8) :
    m.receive isMasked (xs ++ ys) =
      (m.receive isMasked xs).bind fun m' => m'.receive isMasked ys := by
  obtain ⟨msgPtr, preparedKey, validator⟩ := m
  cases msgPtr with
  | none => rfl
  | some out =>
    simp only [receive, unmask_append hk isMasked xs ys, Validator.decode_append]
    by_cases htext : out.opcode = .text
    · rw [if_pos htext, if_pos htext]
      cases hfirst : (validator.decode (unmask isMasked xs preparedKey).1).1 with
      | false =>
        simp only [Bool.false_eq_true, if_false, hfirst]
        rfl
      | true => simp only [if_true, Except.bind, if_pos htext, List.append_assoc]
    · rw [if_neg htext, if_neg htext]
      simp only [Except.bind, if_neg htext, List.append_assoc]

theorem MsgMetadata.exists_of_receive {m m' : MsgMetadata} {isMasked : Bool} {buf : List UInt8}
    {k : ℕ → UInt8}
    (hk : Holds m.preparedKey k) (h : m.receive isMasked buf = .ok m') :
    m'.msgPtr.isSome ∧ ∃ k', Holds m'.preparedKey k' := by
  obtain ⟨k', hk'⟩ := holds_unmask hk isMasked buf
  obtain ⟨msgPtr, preparedKey, validator⟩ := m
  cases msgPtr with
  | none => cases h
  | some out =>
    rw [MsgMetadata.receive] at h
    dsimp only at h
    split_ifs at h <;> cases h <;> exact ⟨rfl, k', hk'⟩

/-! ## The invariant -/

namespace Hybi13

/-- What holds between two iterations. -/
structure Inv (p : Hybi13) : Prop where
  extension : p.state ≠ .extension
  basic : p.state = .headerBasic → 0 < p.bytesNeeded ∧ p.bytesNeeded ≤ 2
  extended : p.state = .headerExtended → p.cursor + p.bytesNeeded + 2 = p.basicHeader.getHeaderLen
  length : p.extendedHeader.length = maxExtendedHeaderLength
  current : p.state = .application ∨ p.state = .ready → p.current.msgPtr.isSome
  dataKey : ∃ k, Holds p.dataMsg.preparedKey k
  controlKey : ∃ k, Holds p.controlMsg.preparedKey k

variable {p p' : Hybi13} {buf rest xs ys : List UInt8}

theorem Inv.currentKey (h : p.Inv) : ∃ k, Holds p.current.preparedKey k := by
  rw [Hybi13.current]
  cases p.currentMsg with
  | data => exact h.dataKey
  | control => exact h.controlKey

@[simp] theorem current_setCurrent (p : Hybi13) (m : MsgMetadata) :
    (p.setCurrent m).current = m := by
  rw [setCurrent, current]
  cases p.currentMsg <;> rfl

@[simp] theorem basicHeader_setCurrent (p : Hybi13) (m : MsgMetadata) :
    (p.setCurrent m).basicHeader = p.basicHeader := by
  rw [setCurrent]
  cases p.currentMsg <;> rfl

@[simp] theorem state_setCurrent (p : Hybi13) (m : MsgMetadata) :
    (p.setCurrent m).state = p.state := by
  rw [setCurrent]
  cases p.currentMsg <;> rfl

@[simp] theorem isServer_setCurrent (p : Hybi13) (m : MsgMetadata) :
    (p.setCurrent m).isServer = p.isServer := by
  rw [setCurrent]
  cases p.currentMsg <;> rfl

@[simp] theorem maxMessageSize_setCurrent (p : Hybi13) (m : MsgMetadata) :
    (p.setCurrent m).maxMessageSize = p.maxMessageSize := by
  rw [setCurrent]
  cases p.currentMsg <;> rfl

@[simp] theorem extendedHeader_setCurrent (p : Hybi13) (m : MsgMetadata) :
    (p.setCurrent m).extendedHeader = p.extendedHeader := by
  rw [setCurrent]
  cases p.currentMsg <;> rfl

theorem getHeaderLen_le (h : BasicHeader) : h.getHeaderLen ≤ 14 := by
  rw [BasicHeader.getHeaderLen, BasicHeader.getMaskingKeyOffset]
  split_ifs <;> omega

/-! ## One field -/

theorem whenRead_append (r : Hybi13 × List UInt8) (next : Hybi13 → Except ProcessorError Hybi13)
    (ys : List UInt8) : whenRead (r.1, r.2 ++ ys) next =
      (whenRead r next).map fun r => (r.1, r.2 ++ ys) := by
  rw [whenRead, whenRead]
  split_ifs with h
  · rfl
  · cases next r.1 <;> rfl

/-- The header with the next of its bytes, when so many are needed. -/
theorem copyBasicHeaderBytes_two (h : p.bytesNeeded = 2) (b b' : UInt8) (bs : List UInt8) :
    p.copyBasicHeaderBytes (b :: b' :: bs) =
      ({ p with basicHeader := ⟨b, b'⟩, bytesNeeded := 0 }, bs) := by
  rw [copyBasicHeaderBytes, if_neg (by omega), if_pos h, h]

theorem copyBasicHeaderBytes_first (h : p.bytesNeeded = 2) (b : UInt8) :
    p.copyBasicHeaderBytes [b] =
      ({ p with basicHeader := ⟨b, p.basicHeader.b1⟩, bytesNeeded := 1 }, []) := by
  rw [copyBasicHeaderBytes, if_neg (by omega), if_pos h, h]

theorem copyBasicHeaderBytes_second (h : p.bytesNeeded = 1) (b : UInt8) (bs : List UInt8) :
    p.copyBasicHeaderBytes (b :: bs) =
      ({ p with basicHeader := ⟨p.basicHeader.b0, b⟩, bytesNeeded := 0 }, bs) := by
  cases bs with
  | nil => rw [copyBasicHeaderBytes, if_neg (by omega), if_neg (by omega), h]
  | cons b' bs => rw [copyBasicHeaderBytes, if_neg (by omega), if_neg (by omega), h]

theorem copyBasicHeaderBytes_whole (hp : 0 < p.bytesNeeded ∧ p.bytesNeeded ≤ 2)
    (hxs : p.bytesNeeded ≤ xs.length) (ys : List UInt8) :
    p.copyBasicHeaderBytes (xs ++ ys) =
      ((p.copyBasicHeaderBytes xs).1, (p.copyBasicHeaderBytes xs).2 ++ ys) := by
  obtain hneeded | hneeded : p.bytesNeeded = 1 ∨ p.bytesNeeded = 2 := by omega
  · cases xs with
    | nil => rw [hneeded] at hxs; cases hxs
    | cons x xs =>
      rw [List.cons_append, copyBasicHeaderBytes_second hneeded,
        copyBasicHeaderBytes_second hneeded]
  · match xs, hxs with
    | [], hxs => rw [hneeded] at hxs; cases hxs
    | [x], hxs => rw [hneeded] at hxs; cases hxs with | step h => cases h
    | x :: x' :: xs, hxs =>
      rw [List.cons_append, List.cons_append, copyBasicHeaderBytes_two hneeded,
        copyBasicHeaderBytes_two hneeded]

theorem copyExtendedHeaderBytes_whole (hxs : p.bytesNeeded ≤ xs.length) (ys : List UInt8) :
    p.copyExtendedHeaderBytes (xs ++ ys) =
      ((p.copyExtendedHeaderBytes xs).1, (p.copyExtendedHeaderBytes xs).2 ++ ys) := by
  have hboth : min p.bytesNeeded (xs ++ ys).length = p.bytesNeeded := by
    rw [List.length_append]
    omega
  rw [copyExtendedHeaderBytes, copyExtendedHeaderBytes, hboth, Nat.min_eq_left hxs,
    List.take_append_of_le_length hxs, List.drop_append_of_le_length hxs]

theorem copyPayloadBytes_whole (hxs : p.bytesNeeded ≤ xs.length) (ys : List UInt8) :
    p.copyPayloadBytes (xs ++ ys) =
      (p.copyPayloadBytes xs).map fun r => (r.1, r.2 ++ ys) := by
  have hboth : min p.bytesNeeded (xs ++ ys).length = p.bytesNeeded := by
    rw [List.length_append]
    omega
  rw [copyPayloadBytes, copyPayloadBytes, hboth, Nat.min_eq_left hxs,
    List.take_append_of_le_length hxs, List.drop_append_of_le_length hxs]
  split_ifs
  · cases p.processPayloadBytes (xs.take p.bytesNeeded) <;> rfl
  · rfl

theorem iterate_headerBasic (h : p.state = .headerBasic) (buf : List UInt8) :
    p.iterate buf = whenRead (p.copyBasicHeaderBytes buf) headerBasicRead := by
  rw [iterate, h]

theorem iterate_headerExtended (h : p.state = .headerExtended) (buf : List UInt8) :
    p.iterate buf = whenRead (p.copyExtendedHeaderBytes buf) headerExtendedRead := by
  rw [iterate, h]

theorem iterate_application (h : p.state = .application) (buf : List UInt8) :
    p.iterate buf = (p.copyPayloadBytes buf).bind fun r => whenRead r payloadRead := by
  rw [iterate, h]

theorem iterate_whole (hp : p.Inv) (hready : p.state ≠ .ready) (hxs : p.bytesNeeded ≤ xs.length)
    (ys : List UInt8) : p.iterate (xs ++ ys) =
      (p.iterate xs).map fun r => (r.1, r.2 ++ ys) := by
  cases hstate : p.state with
  | headerBasic =>
    rw [iterate_headerBasic hstate, iterate_headerBasic hstate,
      copyBasicHeaderBytes_whole (hp.basic hstate) hxs, whenRead_append]
  | headerExtended =>
    rw [iterate_headerExtended hstate, iterate_headerExtended hstate,
      copyExtendedHeaderBytes_whole hxs, whenRead_append]
  | extension => exact absurd hstate hp.extension
  | application =>
    rw [iterate_application hstate, iterate_application hstate, copyPayloadBytes_whole hxs]
    cases p.copyPayloadBytes xs with
    | error e => rfl
    | ok r => exact whenRead_append r payloadRead ys
  | ready => exact absurd hstate hready

/-! ## A field in two buffers -/

theorem processPayloadBytes_append (hp : p.Inv) (xs ys : List UInt8) :
    p.processPayloadBytes (xs ++ ys) =
      (p.processPayloadBytes xs).bind fun p' => p'.processPayloadBytes ys := by
  obtain ⟨k, hk⟩ := hp.currentKey
  rw [processPayloadBytes, processPayloadBytes, MsgMetadata.receive_append hk]
  cases hxs : p.current.receive p.basicHeader.getMasked xs with
  | error e => rfl
  | ok m =>
    have hneeded : p.bytesNeeded - (xs ++ ys).length = p.bytesNeeded - xs.length - ys.length := by
      rw [List.length_append, Nat.sub_add_eq]
    rw [hneeded]
    obtain ⟨_, _, basicHeader, _, _, _, _, target, _, _⟩ := p
    cases target with
    | data => cases hys : m.receive basicHeader.getMasked ys <;> rfl
    | control => cases hys : m.receive basicHeader.getMasked ys <;> rfl

theorem exists_of_processPayloadBytes (h : p.processPayloadBytes buf = .ok p') :
    ∃ m, p.current.receive p.basicHeader.getMasked buf = .ok m ∧
      p' = { p.setCurrent m with bytesNeeded := p.bytesNeeded - buf.length } := by
  rw [processPayloadBytes] at h
  cases hm : p.current.receive p.basicHeader.getMasked buf with
  | error e =>
    rw [hm] at h
    cases h
  | ok m =>
    rw [hm] at h
    cases h
    exact ⟨m, rfl, rfl⟩

theorem iterate_short_basic (hstate : p.state = .headerBasic) (h : p.bytesNeeded = 2) (x : UInt8) :
    p.iterate [x] =
      .ok ({ p with basicHeader := ⟨x, p.basicHeader.b1⟩, bytesNeeded := 1 }, []) := by
  rw [iterate_headerBasic hstate, copyBasicHeaderBytes_first h]
  rfl

theorem iterate_short_extended (hstate : p.state = .headerExtended)
    (h : xs.length < p.bytesNeeded) : p.iterate xs =
      .ok ({ p with
        extendedHeader := copyTo p.extendedHeader p.cursor xs
        cursor := p.cursor + xs.length
        bytesNeeded := p.bytesNeeded - xs.length }, []) := by
  rw [iterate_headerExtended hstate, copyExtendedHeaderBytes, Nat.min_eq_right (Nat.le_of_lt h),
    List.take_length, List.drop_length, whenRead]
  exact if_pos (Nat.sub_pos_of_lt h)

theorem iterate_short_payload (hstate : p.state = .application) (hxs : xs ≠ [])
    (h : xs.length < p.bytesNeeded) :
    p.iterate xs = (p.processPayloadBytes xs).map fun p' => (p', []) := by
  rw [iterate_application hstate, copyPayloadBytes, Nat.min_eq_right (Nat.le_of_lt h),
    List.take_length, List.drop_length, if_pos (List.length_pos_of_ne_nil hxs)]
  cases hprocess : p.processPayloadBytes xs with
  | error e => rfl
  | ok p' =>
    obtain ⟨m, -, rfl⟩ := exists_of_processPayloadBytes hprocess
    exact if_pos (Nat.sub_pos_of_lt h)

theorem iterate_part (hp : p.Inv) (hready : p.state ≠ .ready) (hxs : xs ≠ [])
    (hlen : xs.length < p.bytesNeeded) (h : p.iterate xs = .ok (p', rest)) :
    rest = [] ∧ p'.state ≠ .ready ∧ 0 < p'.bytesNeeded := by
  have hpos := List.length_pos_of_ne_nil hxs
  cases hstate : p.state with
  | headerBasic =>
    have hneeded := hp.basic hstate
    obtain ⟨x, rfl⟩ := List.length_eq_one_iff.mp (show xs.length = 1 by omega)
    rw [iterate_short_basic hstate (by omega)] at h
    cases h
    exact ⟨rfl, hready, Nat.one_pos⟩
  | headerExtended =>
    rw [iterate_short_extended hstate hlen] at h
    cases h
    exact ⟨rfl, hready, Nat.sub_pos_of_lt hlen⟩
  | extension => exact absurd hstate hp.extension
  | application =>
    rw [iterate_short_payload hstate hxs hlen] at h
    cases hprocess : p.processPayloadBytes xs with
    | error e =>
      rw [hprocess] at h
      cases h
    | ok p₁ =>
      rw [hprocess] at h
      cases h
      obtain ⟨m, -, rfl⟩ := exists_of_processPayloadBytes hprocess
      refine ⟨rfl, ?_, Nat.sub_pos_of_lt hlen⟩
      show (p.setCurrent m).state ≠ .ready
      rw [state_setCurrent, hstate]
      nofun
  | ready => exact absurd hstate hready

theorem iterate_part_append (hp : p.Inv) (hready : p.state ≠ .ready) (hxs : xs ≠ [])
    (hlen : xs.length < p.bytesNeeded) (hys : ys ≠ []) :
    p.iterate (xs ++ ys) = (p.iterate xs).bind fun r => r.1.iterate ys := by
  have hpos := List.length_pos_of_ne_nil hxs
  have hmin : min p.bytesNeeded (xs ++ ys).length =
      xs.length + min (p.bytesNeeded - xs.length) ys.length := by
    rw [List.length_append]
    omega
  have htake : ∀ n, (xs ++ ys).take (xs.length + n) = xs ++ ys.take n :=
    fun n => List.take_length_add_append n
  have hdrop : ∀ n, (xs ++ ys).drop (xs.length + n) = ys.drop n :=
    fun n => List.drop_length_add_append n
  cases hstate : p.state with
  | headerBasic =>
    have hneeded := hp.basic hstate
    obtain ⟨x, rfl⟩ := List.length_eq_one_iff.mp (show xs.length = 1 by omega)
    obtain ⟨y, ys, rfl⟩ := List.exists_cons_of_ne_nil hys
    have htwo : p.bytesNeeded = 2 := by omega
    rw [iterate_short_basic hstate htwo, List.singleton_append]
    show p.iterate (x :: y :: ys) =
      iterate { p with basicHeader := ⟨x, p.basicHeader.b1⟩, bytesNeeded := 1 } (y :: ys)
    rw [iterate_headerBasic hstate, iterate_headerBasic (by exact hstate),
      copyBasicHeaderBytes_two htwo, copyBasicHeaderBytes_second rfl]
  | headerExtended =>
    have hcursor := hp.extended hstate
    have hle := getHeaderLen_le p.basicHeader
    have hlength := hp.length
    rw [maxExtendedHeaderLength] at hlength
    rw [iterate_short_extended hstate hlen]
    show p.iterate (xs ++ ys) = iterate { p with
        extendedHeader := copyTo p.extendedHeader p.cursor xs
        cursor := p.cursor + xs.length
        bytesNeeded := p.bytesNeeded - xs.length } ys
    rw [iterate_headerExtended hstate, iterate_headerExtended (by exact hstate),
      copyExtendedHeaderBytes, copyExtendedHeaderBytes, hmin, htake, hdrop]
    dsimp only
    rw [copyTo_append (by omega), Nat.add_assoc, Nat.sub_add_eq]
  | extension => exact absurd hstate hp.extension
  | application =>
    rw [iterate_short_payload hstate hxs hlen]
    have hboth : p.copyPayloadBytes (xs ++ ys) =
        (p.processPayloadBytes xs).bind fun p' => p'.copyPayloadBytes ys := by
      rw [copyPayloadBytes, hmin, htake, hdrop, if_pos (by omega), processPayloadBytes_append hp]
      cases hprocess : p.processPayloadBytes xs with
      | error e => rfl
      | ok p' =>
        obtain ⟨m, -, rfl⟩ := exists_of_processPayloadBytes hprocess
        have hypos := List.length_pos_of_ne_nil hys
        exact (if_pos (show 0 < min (p.bytesNeeded - xs.length) ys.length by omega)).symm
    rw [iterate_application hstate, hboth]
    cases hprocess : p.processPayloadBytes xs with
    | error e => rfl
    | ok p' =>
      have hstate' : p'.state = .application := by
        obtain ⟨m, -, rfl⟩ := exists_of_processPayloadBytes hprocess
        show (p.setCurrent m).state = .application
        rw [state_setCurrent, hstate]
      exact (iterate_application hstate' ys).symm
  | ready => exact absurd hstate hready

/-! ## Progress -/

theorem exists_of_whenRead {r : Hybi13 × List UInt8} {next : Hybi13 → Except ProcessorError Hybi13}
    (h : whenRead r next = .ok (p', rest)) :
    rest = r.2 ∧ (0 < r.1.bytesNeeded ∧ p' = r.1 ∨ r.1.bytesNeeded = 0 ∧ next r.1 = .ok p') := by
  rw [whenRead] at h
  split_ifs at h with hneeded
  · cases h
    exact ⟨rfl, .inl ⟨hneeded, rfl⟩⟩
  · cases hnext : next r.1 with
    | error e =>
      rw [hnext] at h
      cases h
    | ok q =>
      rw [hnext] at h
      cases h
      exact ⟨rfl, .inr ⟨Nat.eq_zero_of_not_pos hneeded, rfl⟩⟩

theorem exists_copyBasicHeaderBytes (hp : 0 < p.bytesNeeded ∧ p.bytesNeeded ≤ 2) (hbuf : buf ≠ []) :
    ∃ h n, (p.copyBasicHeaderBytes buf).1 = { p with basicHeader := h, bytesNeeded := n } ∧
      n ≤ 1 ∧ (p.copyBasicHeaderBytes buf).2.length < buf.length := by
  obtain ⟨b, bs, rfl⟩ := List.exists_cons_of_ne_nil hbuf
  obtain hneeded | hneeded : p.bytesNeeded = 1 ∨ p.bytesNeeded = 2 := by omega
  · rw [copyBasicHeaderBytes_second hneeded]
    exact ⟨_, _, rfl, Nat.zero_le _, Nat.lt_succ_self _⟩
  · cases bs with
    | nil =>
      rw [copyBasicHeaderBytes_first hneeded]
      exact ⟨_, _, rfl, Nat.le_refl _, Nat.lt_succ_self _⟩
    | cons b' bs =>
      rw [copyBasicHeaderBytes_two hneeded]
      refine ⟨_, _, rfl, Nat.zero_le _, ?_⟩
      show bs.length < bs.length + 1 + 1
      omega

theorem exists_of_copyPayloadBytes (hp : p.Inv) (hstate : p.state = .application)
    (h : p.copyPayloadBytes buf = .ok (p', rest)) :
    ∃ m, p' = { p.setCurrent m with bytesNeeded := p.bytesNeeded - buf.length } ∧
      m.msgPtr.isSome ∧ (∃ k, Holds m.preparedKey k) ∧ rest = buf.drop p.bytesNeeded := by
  obtain ⟨k, hk⟩ := hp.currentKey
  have hsub : ∀ n, n - (buf.take (min n buf.length)).length = n - buf.length := by
    intro n
    rw [List.length_take]
    omega
  rw [copyPayloadBytes, ← List.drop_eq_drop_min] at h
  split_ifs at h with hpos
  · cases hprocess : p.processPayloadBytes (buf.take (min p.bytesNeeded buf.length)) with
    | error e =>
      rw [hprocess] at h
      cases h
    | ok q =>
      rw [hprocess] at h
      cases h
      obtain ⟨m, hm, rfl⟩ := exists_of_processPayloadBytes hprocess
      obtain ⟨hsome, hkey⟩ := MsgMetadata.exists_of_receive hk hm
      rw [hsub]
      exact ⟨m, rfl, hsome, hkey, rfl⟩
  · cases h
    refine ⟨p.current, ?_, hp.current (.inl hstate), ⟨k, hk⟩, ?_⟩
    · have hzero : p.bytesNeeded - buf.length = p.bytesNeeded := by omega
      rw [hzero]
      obtain ⟨_, _, _, _, _, _, _, target, _, _⟩ := p
      cases target <;> rfl
    · by_cases hneeded : p.bytesNeeded = 0
      · rw [hneeded, List.drop_zero]
      · rw [List.eq_nil_of_length_eq_zero (show buf.length = 0 by omega), List.drop_nil]

/-! ## The invariant is kept -/

theorem inv_resetHeaders (hdata : ∃ k, Holds p.dataMsg.preparedKey k)
    (hcontrol : ∃ k, Holds p.controlMsg.preparedKey k) : p.resetHeaders.Inv where
  extension := nofun
  basic _ := ⟨Nat.two_pos, Nat.le_refl 2⟩
  extended := nofun
  length := rfl
  current h := by cases h <;> contradiction
  dataKey := hdata
  controlKey := hcontrol

theorem inv_new (isServer : Bool) (maxMessageSize : ℕ) : (new isServer maxMessageSize).Inv := by
  have hkey : ∃ k, Holds MsgMetadata.empty.preparedKey k := ⟨_, holds_prepareMaskingKey 0⟩
  exact inv_resetHeaders (p := new isServer maxMessageSize) hkey hkey

theorem Inv.basicPart (hp : p.Inv) (hstate : p.state = .headerBasic) (h : BasicHeader) {n : ℕ}
    (hpos : 0 < n) (hn : n ≤ 1) : Inv { p with basicHeader := h, bytesNeeded := n } where
  extension := hp.extension
  basic _ := ⟨hpos, Nat.le_succ_of_le hn⟩
  extended hextended := by rw [hstate] at hextended; cases hextended
  length := hp.length
  current hcurrent := hp.current hcurrent
  dataKey := hp.dataKey
  controlKey := hp.controlKey

theorem Inv.headerBasicRead (hp : p.Inv) {header : BasicHeader} {n : ℕ}
    (h : { p with basicHeader := header, bytesNeeded := n }.headerBasicRead = .ok p') :
    validateIncomingBasicHeader header p.isServer p.dataMsg.msgPtr.isNone = .ok () ∧
      p' = { p with
        basicHeader := header
        state := .headerExtended
        cursor := 0
        bytesNeeded := header.getHeaderLen - 2 } ∧ p'.Inv := by
  rw [Hybi13.headerBasicRead] at h
  cases hvalid : validateIncomingBasicHeader header p.isServer p.dataMsg.msgPtr.isNone with
  | error e =>
    rw [hvalid] at h
    cases h
  | ok u =>
    rw [hvalid] at h
    cases h
    refine ⟨rfl, rfl, nofun, nofun, ?_, hp.length, nofun, hp.dataKey, hp.controlKey⟩
    intro _
    show 0 + (header.getHeaderLen - 2) + 2 = header.getHeaderLen
    rw [BasicHeader.getHeaderLen]
    omega

theorem Inv.extendedPart (hp : p.Inv) (hstate : p.state = .headerExtended)
    (hlen : xs.length ≤ p.bytesNeeded) : Inv { p with
      extendedHeader := copyTo p.extendedHeader p.cursor xs
      cursor := p.cursor + xs.length
      bytesNeeded := p.bytesNeeded - xs.length } where
  extension := hp.extension
  basic h := by rw [hstate] at h; cases h
  extended _ := by
    have hcursor := hp.extended hstate
    show p.cursor + xs.length + (p.bytesNeeded - xs.length) + 2 = p.basicHeader.getHeaderLen
    omega
  length := by
    have hcursor := hp.extended hstate
    have hle := getHeaderLen_le p.basicHeader
    have hlength := hp.length
    rw [maxExtendedHeaderLength] at hlength
    exact (length_copyTo (by omega)).trans hp.length
  current h := hp.current h
  dataKey := hp.dataKey
  controlKey := hp.controlKey

theorem Inv.startFrame (hp : p.Inv) (h : p.startFrame = .ok p') :
    p'.Inv ∧ p'.state = .application ∧
      p'.bytesNeeded = getPayloadSize p.basicHeader p.extendedHeader := by
  have hkey : ∀ key, ∃ k, Holds (prepareMaskingKey key) k :=
    fun key => ⟨_, holds_prepareMaskingKey key⟩
  rw [Hybi13.startFrame] at h
  dsimp only at h
  by_cases hop : p.basicHeader.getOpcode.isControl = true
  · rw [if_pos hop] at h
    cases h
    exact ⟨⟨nofun, nofun, nofun, hp.length, fun _ => rfl, hp.dataKey, hkey _⟩, rfl, rfl⟩
  · rw [if_neg hop] at h
    cases hmsg : p.dataMsg.msgPtr with
    | none =>
      rw [hmsg] at h
      dsimp only at h
      split_ifs at h
      cases h
      exact ⟨⟨nofun, nofun, nofun, hp.length, fun _ => rfl, hkey _, hp.controlKey⟩, rfl, rfl⟩
    | some out =>
      rw [hmsg] at h
      dsimp only at h
      split_ifs at h
      cases h
      exact ⟨⟨nofun, nofun, nofun, hp.length, fun _ => rfl, hkey _, hp.controlKey⟩, rfl, rfl⟩

theorem Inv.headerExtendedRead (hp : p.Inv) (h : p.headerExtendedRead = .ok p') :
    validateIncomingExtendedHeader p.basicHeader p.extendedHeader = .ok () ∧ p'.Inv ∧
      p'.state = .application ∧
      p'.bytesNeeded = getPayloadSize p.basicHeader p.extendedHeader := by
  rw [Hybi13.headerExtendedRead] at h
  cases hvalid : validateIncomingExtendedHeader p.basicHeader p.extendedHeader with
  | error e =>
    rw [hvalid] at h
    cases h
  | ok u =>
    rw [hvalid] at h
    exact ⟨rfl, hp.startFrame h⟩

theorem Inv.payloadPart (hp : p.Inv) (hstate : p.state = .application) {m : MsgMetadata}
    (hsome : m.msgPtr.isSome) (hkey : ∃ k, Holds m.preparedKey k) (n : ℕ) :
    Inv { p.setCurrent m with bytesNeeded := n } := by
  have hstate' : (p.setCurrent m).state = .application := (state_setCurrent p m).trans hstate
  have hdata : ∃ k, Holds (p.setCurrent m).dataMsg.preparedKey k := by
    rw [setCurrent]
    cases p.currentMsg with
    | data => exact hkey
    | control => exact hp.dataKey
  have hcontrol : ∃ k, Holds (p.setCurrent m).controlMsg.preparedKey k := by
    rw [setCurrent]
    cases p.currentMsg with
    | data => exact hp.controlKey
    | control => exact hkey
  refine ⟨?_, ?_, ?_, ?_, fun _ => ?_, hdata, hcontrol⟩
  · show (p.setCurrent m).state ≠ .extension
    rw [hstate']
    nofun
  · intro h
    rw [show (p.setCurrent m).state = .headerBasic from h] at hstate'
    cases hstate'
  · intro h
    rw [show (p.setCurrent m).state = .headerExtended from h] at hstate'
    cases hstate'
  · show (p.setCurrent m).extendedHeader.length = maxExtendedHeaderLength
    rw [extendedHeader_setCurrent]
    exact hp.length
  · show (p.setCurrent m).current.msgPtr.isSome
    rw [current_setCurrent]
    exact hsome

theorem Inv.payloadRead (hp : p.Inv) (hstate : p.state = .application)
    (h : p.payloadRead = .ok p') : p'.Inv ∧ p'.state.rank = 0 := by
  rw [Hybi13.payloadRead] at h
  split_ifs at h
  · rw [finalizeMessage] at h
    split_ifs at h
    cases h
    exact ⟨⟨nofun, nofun, nofun, hp.length, fun _ => hp.current (.inl hstate), hp.dataKey,
      hp.controlKey⟩, rfl⟩
  · cases h
    exact ⟨inv_resetHeaders hp.dataKey hp.controlKey, rfl⟩

/-- **An iteration keeps the invariant**, and uses some of the buffer or goes on to the next
field. -/
theorem iterate_spec (hp : p.Inv) (hgoes : reader.goesOn p buf = true)
    (h : p.iterate buf = .ok (p', rest)) : p'.Inv ∧ (rest.length < buf.length ∨
      p.bytesNeeded = 0 ∧ rest = buf ∧ p'.state.rank < p.state.rank) := by
  obtain ⟨hready, hempty⟩ := BufferReader.goesOn_iff.mp hgoes
  have hbuf : 0 < p.bytesNeeded → 0 < buf.length := by
    intro hneeded
    apply List.length_pos_of_ne_nil
    intro hnil
    exact absurd (hempty hnil) (Nat.ne_of_gt hneeded)
  -- a field is only left behind without a byte when none are needed
  have hprogress : ∀ {q : Hybi13} {r}, (p.bytesNeeded = 0 → q.state.rank < r) →
      ((buf.drop p.bytesNeeded).length < buf.length ∨
        p.bytesNeeded = 0 ∧ buf.drop p.bytesNeeded = buf ∧ q.state.rank < r) := by
    intro q r hrank
    by_cases hneeded : p.bytesNeeded = 0
    · refine .inr ⟨hneeded, ?_, hrank hneeded⟩
      rw [hneeded, List.drop_zero]
    · have hpos := hbuf (Nat.pos_of_ne_zero hneeded)
      left
      rw [List.length_drop]
      omega
  cases hstate : p.state with
  | headerBasic =>
    have hneeded := hp.basic hstate
    obtain ⟨header, n, hcopy, hn, hless⟩ :=
      exists_copyBasicHeaderBytes hneeded (List.ne_nil_of_length_pos (hbuf hneeded.1))
    rw [iterate_headerBasic hstate] at h
    obtain ⟨rfl, hpart⟩ := exists_of_whenRead h
    rw [hcopy] at hpart
    obtain ⟨hpos, rfl⟩ | ⟨-, hread⟩ := hpart
    · exact ⟨hp.basicPart hstate header hpos hn, .inl hless⟩
    · exact ⟨(hp.headerBasicRead hread).2.2, .inl hless⟩
  | headerExtended =>
    have htake : (buf.take (min p.bytesNeeded buf.length)).length =
        min p.bytesNeeded buf.length := by
      rw [List.length_take, Nat.min_assoc, Nat.min_self]
    have hinv := hp.extendedPart hstate (htake.trans_le (Nat.min_le_left _ _))
    rw [htake] at hinv
    rw [iterate_headerExtended hstate] at h
    obtain ⟨rfl, hpart⟩ := exists_of_whenRead h
    rw [show (p.copyExtendedHeaderBytes buf).2 = buf.drop p.bytesNeeded from
      List.drop_eq_drop_min.symm]
    obtain ⟨hpos, rfl⟩ | ⟨-, hread⟩ := hpart
    · refine ⟨hinv, hprogress fun hneeded => absurd hpos ?_⟩
      show ¬0 < p.bytesNeeded - min p.bytesNeeded buf.length
      omega
    · obtain ⟨-, hinv', hstate', -⟩ := hinv.headerExtendedRead hread
      refine ⟨hinv', hprogress fun _ => ?_⟩
      rw [hstate']
      exact Nat.one_lt_two
  | extension => exact absurd hstate hp.extension
  | application =>
    rw [iterate_application hstate] at h
    cases hcopy : p.copyPayloadBytes buf with
    | error e =>
      rw [hcopy] at h
      cases h
    | ok r =>
      rw [hcopy] at h
      obtain ⟨q, rest'⟩ := r
      obtain ⟨m, rfl, hsome, hkey, rfl⟩ := exists_of_copyPayloadBytes hp hstate hcopy
      obtain ⟨rfl, hpart⟩ := exists_of_whenRead h
      have hinv := hp.payloadPart hstate hsome hkey (p.bytesNeeded - buf.length)
      obtain ⟨hpos, rfl⟩ | ⟨-, hread⟩ := hpart
      · refine ⟨hinv, hprogress fun hneeded => absurd hpos ?_⟩
        show ¬0 < p.bytesNeeded - buf.length
        omega
      · obtain ⟨hinv', hrank'⟩ := hinv.payloadRead ((state_setCurrent p m).trans hstate) hread
        refine ⟨hinv', hprogress fun _ => ?_⟩
        rw [hrank']
        exact Nat.one_pos
  | ready =>
    rw [show reader.ready p = decide (p.state = .ready) from rfl, hstate] at hready
    cases hready

theorem waiting_new (isServer : Bool) (maxMessageSize : ℕ) :
    reader.Waiting Inv (new isServer maxMessageSize) where
  inv := inv_new isServer maxMessageSize
  ready := rfl
  waits := Nat.two_pos

theorem waiting_getMessage (hp : p.Inv) : reader.Waiting Inv p.getMessage.2 := by
  have hkeys : (∃ k, Holds (p.setCurrent { p.current with msgPtr := none }).dataMsg.preparedKey k) ∧
      ∃ k, Holds (p.setCurrent { p.current with msgPtr := none }).controlMsg.preparedKey k := by
    obtain ⟨_, _, _, _, _, dataMsg, controlMsg, target, _, _⟩ := p
    cases target with
    | data => exact ⟨hp.dataKey, hp.controlKey⟩
    | control => exact ⟨hp.dataKey, hp.controlKey⟩
  exact ⟨inv_resetHeaders hkeys.1 hkeys.2, rfl, Nat.two_pos⟩

theorem lawful_reader : reader.Lawful Inv where
  inv hp hgoes h := (iterate_spec hp hgoes h).1
  bound {p p' buf rest} hp hgoes h := by
    have hrank : p'.state.rank ≤ 2 := by cases p'.state <;> decide
    show 3 * rest.length + p'.state.rank < 3 * buf.length + p.state.rank
    obtain hless | ⟨-, rfl, hrank'⟩ := (iterate_spec hp hgoes h).2
    · omega
    · omega
  rest {p p' buf rest} hp hgoes h := by
    obtain hless | ⟨hneeded, rfl, -⟩ := (iterate_spec hp hgoes h).2
    · exact ⟨Nat.le_of_lt hless, fun _ => hless⟩
    · exact ⟨Nat.le_refl _, fun hpos => absurd hneeded (Nat.ne_of_gt hpos)⟩
  whole ys hp hready hlen := iterate_whole hp (of_decide_eq_false hready) hlen ys
  part hp hready hxs hlen h := by
    obtain ⟨hrest, hready', hneeded⟩ := iterate_part hp (of_decide_eq_false hready) hxs hlen h
    exact ⟨hrest, decide_eq_false hready', hneeded⟩
  part_append hp hready hxs hlen hys :=
    iterate_part_append hp (of_decide_eq_false hready) hxs hlen hys
  take_inv hp _ := (waiting_getMessage hp).inv
  take_waits hp _ := ⟨(waiting_getMessage hp).ready, (waiting_getMessage hp).waits⟩

/-- **The messages, and the error if there is one, do not depend on how the bytes of a connection
are cut into buffers.** -/
theorem read_buffers (isServer : Bool) (maxMessageSize : ℕ) (bufs : List (List UInt8)) :
    bufs.foldlM reader.read (new isServer maxMessageSize) =
      reader.read (new isServer maxMessageSize) bufs.flatten :=
  lawful_reader.read_flatten (waiting_new isServer maxMessageSize) bufs

end Hybi13

end SyntheticArbitrage.WebSocket
