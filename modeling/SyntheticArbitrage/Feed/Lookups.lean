import SyntheticArbitrage.Feed.Atomicity

/-!
# Lookups of missing members

The single object is read through a reference that is not `const`, so a missing member becomes
`null`, and the conversion throws.  The loops over the entries, of `on_message` and of the Bybit
handler, read through a `const` one, for which a missing member has no value.

* `Defined`: the handler ends normally or in its `catch` block.
* `Lacks`: the entry is an object that lacks a member, and what is read before it can be converted.
* `entryTick_undefined_iff`: the entries whose decoding is undefined.
* `singleObject_defined`: the single object is always defined.
* `process_of_entries`: the process takes every message of a run without such entries.
* `lookups_defined_iff`: **the handlers are defined except on messages that reach such an entry.**
-/

namespace SyntheticArbitrage

variable {R : Type} [DoubleScan R]

open Trace TradeTick

/-- The computation ends in a value or with an exception. -/
def Defined {β : Type} (x : Except Stop β) : Prop := x ≠ .error .undefined

theorem defined_thrown {β : Type} (x : Except Exception β) : Defined (thrown x) := by
  cases x <;> rintro ⟨⟩

theorem Defined.bind {β γ : Type} {x : Except Stop β} {f : β → Except Stop γ} (hx : Defined x)
    (hf : ∀ b, Defined (f b)) : Defined (x >>= f) := by
  cases x with
  | error e => exact fun h => hx (congrArg Except.error (Except.error.inj h))
  | ok b => exact hf b

theorem Defined.trace_bind {κ β γ : Type} {x : Trace Stop κ β} {f : β → Trace Stop κ γ}
    (hx : Defined x.result) (hf : ∀ b, Defined (f b).result) : Defined (x >>= f).result := by
  rw [result_bind]
  cases h : x.result with
  | error e =>
    rw [h] at hx
    exact fun h => hx (congrArg Except.error (Except.error.inj h))
  | ok b => exact hf b

theorem defined_of_ok {β : Type} {x : Except Stop β} {b : β} (h : x = .ok b) : Defined x := by
  rintro rfl
  cases h

namespace Json

omit [DoubleScan R] in
theorem defined_getString (j : Json R) : Defined j.getString := by
  cases j <;> rintro ⟨⟩

theorem defined_number (j : Json R) : Defined j.number := by
  cases j with
  | string s => exact defined_thrown _
  | _ => rintro ⟨⟩

theorem defined_timestamp (j : Json R) : Defined j.timestamp := by
  cases j with
  | string s => exact defined_thrown _
  | _ => rintro ⟨⟩

omit [DoubleScan R] in
theorem defined_index (j : Json R) (key : String) : Defined (j.index key) := by
  cases j <;> rintro ⟨⟩

omit [DoubleScan R] in
theorem defined_value (j : Json R) (key defaultValue : String) :
    Defined (j.value key defaultValue) := by
  cases j with
  | object members =>
    rw [value]
    cases members.lookup key with
    | none => rintro ⟨⟩
    | some v => exact v.defined_getString
  | _ => rintro ⟨⟩

end Json

/-! ## Entries -/

/-- A member that an entry is read for, and whether its conversion succeeds. -/
structure FieldRead (R : Type) where
  key : String
  converts : Json R → Bool

def tradeFields : List (FieldRead R) :=
  [⟨"s", fun v => v.getString.toOption.isSome⟩, ⟨"p", fun v => v.number.toOption.isSome⟩,
    ⟨"v", fun v => v.number.toOption.isSome⟩, ⟨"T", fun v => v.timestamp.toOption.isSome⟩]

/-- Reading the fields comes to one that is missing: those before it are there and convert. -/
def LacksField (members : List (String × Json R)) : List (FieldRead R) → Prop
  | [] => False
  | f :: fields => members.lookup f.key = none ∨
      (∃ v ∈ members.lookup f.key, f.converts v = true) ∧ LacksField members fields

/-- The entry is an object whose reading comes to a missing member. -/
def Lacks (entry : Json R) : Prop :=
  ∃ members, entry = .object members ∧ LacksField members tradeFields

omit [DoubleScan R] in
/-- One read of a `const` object and what follows it. -/
theorem constIndex_undefined_iff {β γ : Type} {members : List (String × Json R)} {key : String}
    {convert : Json R → Except Stop β} (hconvert : ∀ j, Defined (convert j))
    {f : β → Except Stop γ} {P : Prop} (hf : ∀ b, f b = .error .undefined ↔ P) :
    ((Json.object members).constIndex key >>= convert) >>= f = .error .undefined ↔
      members.lookup key = none ∨
        (∃ v ∈ members.lookup key, (convert v).toOption.isSome = true) ∧ P := by
  rw [Json.constIndex]
  cases members.lookup key with
  | none => exact iff_of_true rfl (Or.inl rfl)
  | some v =>
    show convert v >>= f = .error .undefined ↔ _
    simp only [reduceCtorEq, Option.mem_some_iff, exists_eq_left', false_or]
    cases hv : convert v with
    | error e =>
      refine iff_of_false (fun h => hconvert v ?_) (by rintro ⟨⟨⟩, -⟩)
      rw [hv]
      exact congrArg Except.error (Except.error.inj h)
    | ok b => exact (hf b).trans (and_iff_right rfl).symm

/-- **The entries whose decoding is undefined** are those that lack a member. -/
theorem entryTick_undefined_iff (entry : Json R) :
    decodeTick Json.constIndex "v" entry = .error .undefined ↔ Lacks entry := by
  cases entry with
  | object members =>
    have hread : decodeTick Json.constIndex "v" (.object members) = .error .undefined ↔
        LacksField members tradeFields := by
      refine constIndex_undefined_iff Json.defined_getString fun symbol => ?_
      refine constIndex_undefined_iff Json.defined_number fun price => ?_
      refine constIndex_undefined_iff Json.defined_number fun quantity => ?_
      refine constIndex_undefined_iff Json.defined_timestamp fun timestamp => ?_
      exact iff_of_false (by rintro ⟨⟩) id
    rw [hread]
    constructor
    · intro h
      exact ⟨members, rfl, h⟩
    · rintro ⟨_, ⟨⟩, h⟩
      exact h
  | _ => exact iff_of_false (by rintro ⟨⟩) (by rintro ⟨_, ⟨⟩, _⟩)

/-- A loop over entries comes to one that lacks a member: those before it are well-formed. -/
def ReachesLacking (entries : List (Json R)) : Prop :=
  ∃ front entry back, entries = front ++ entry :: back ∧
    (∀ e ∈ front, (tickIn "v" e).isSome) ∧ Lacks entry

theorem not_reachesLacking_nil : ¬ ReachesLacking ([] : List (Json R)) := by
  rintro ⟨front, entry, back, h, -⟩
  simp at h

/-- **A loop over entries is defined** exactly when it does not come to one that lacks a member. -/
theorem forEach_defined_iff {κ : Type} {act : TradeTick R → Trace Stop κ Unit}
    (hact : ∀ tick, (act tick).result = .ok ()) (entries : List (Json R)) :
    Defined (forEach (fun entry => lift (decodeTick Json.constIndex "v" entry) >>= act)
      entries).result ↔ ¬ ReachesLacking entries := by
  rw [Defined, Ne, result_forEach_eq_error_iff hact, ReachesLacking]
  simp only [entryTick_undefined_iff, decodeTick_constIndex]

/-! ## Messages -/

namespace Binance

/-- The single object is read without `const`, so nothing in it is undefined. -/
theorem singleObject_defined (stream : String) (data : Json R) :
    Defined (singleObject stream data).result := by
  have hread : ∀ (key : String) {β : Type} {convert : Json R → Except Stop β},
      (∀ j, Defined (convert j)) → Defined (data.index key >>= convert) :=
    fun key _ _ hconvert => (data.defined_index key).bind hconvert
  have htick : Defined (objectTick data) :=
    (hread "s" Json.defined_getString).bind fun symbol =>
      (hread "p" Json.defined_number).bind fun price =>
      (hread "q" Json.defined_number).bind fun quantity =>
      (hread "T" Json.defined_timestamp).bind fun timestamp => by rintro ⟨⟩
  refine Defined.trace_bind htick fun tick => ?_
  have hupdates : Defined (objectUpdates tick).result :=
    defined_of_ok (by rw [objectUpdates_eq])
  have hfunding : Defined (fundingEvent data).result :=
    Defined.trace_bind (hread "r" Json.defined_number) fun rate =>
      Defined.trace_bind (hread "T" Json.defined_timestamp) fun ts => defined_of_ok rfl
  have hmark : Defined (markEvent data).result :=
    Defined.trace_bind (hread "p" Json.defined_number) fun markPrice =>
      Defined.trace_bind (hread "T" Json.defined_timestamp) fun ts => defined_of_ok rfl
  have hrest : Defined (do
      if stream = "btcusdt@markPrice" then
        markEvent data
      objectUpdates tick : Handler R Unit).result := by
    by_cases hm : stream = "btcusdt@markPrice"
    · simp only [hm, if_true]
      exact hmark.trace_bind fun _ => hupdates
    · simp only [hm, if_false]
      exact hupdates
  by_cases hf : stream = "btcusdt@fundingRate"
  · simp only [hf, if_true] at hrest ⊢
    exact hfunding.trace_bind fun _ => hrest
  · simp only [hf, if_false]
    exact hrest

def batchEntries (message : Option (Json R)) : List (Json R) :=
  match openMessage message with
  | some m => if m.batch then m.data.items else []
  | none => []

theorem onMessage_calls_of_batchEntries {message : Option (Json R)}
    (h : batchEntries message ≠ []) :
    (onMessage message).calls =
      (leading (tickIn "v") (batchEntries message)).flatMap arrayCalls := by
  rw [batchEntries] at h ⊢
  cases hopen : openMessage message with
  | none =>
    rw [hopen] at h
    exact absurd rfl h
  | some m =>
    rw [hopen] at h
    by_cases hbatch : m.batch = true
    · rw [onMessage_calls, hopen, Option.map_some, Option.getD_some, Opened.calls, if_pos hbatch]
      simp only [hbatch, if_true]
    · exact absurd (if_neg hbatch) h

theorem onMessage_defined_of_unopened {message : Option (Json R)}
    (h : openMessage message = none) : Defined (onMessage message).result := by
  cases message with
  | none => rintro ⟨⟩
  | some payload =>
    rw [openMessage, Option.map_eq_none_iff] at h
    have hvalue := payload.defined_value "stream" ""
    show Defined (lift (payload.value "stream" "") >>= _ : Handler R Unit).result
    cases hv : payload.value "stream" "" with
    | error e =>
      rw [hv] at hvalue
      exact fun he => hvalue (congrArg Except.error (Except.error.inj he))
    | ok stream =>
      rw [hv] at h
      cases h

/-- `on_message` is defined exactly when its loop does not come to an entry that lacks a member. -/
theorem onMessage_defined_iff (message : Option (Json R)) :
    Defined (onMessage message).result ↔ ¬ ReachesLacking (batchEntries message) := by
  rw [batchEntries]
  cases hopen : openMessage message with
  | none => exact iff_of_true (onMessage_defined_of_unopened hopen) not_reachesLacking_nil
  | some m =>
    rw [onMessage_of_opened hopen]
    by_cases hbatch : m.batch = true
    · simp only [hbatch, if_true]
      exact forEach_defined_iff (fun tick => by rw [arrayUpdates_eq]) m.data.items
    · simp only [hbatch, if_false, Bool.false_eq_true]
      exact iff_of_true (singleObject_defined m.stream m.data) not_reachesLacking_nil

end Binance

namespace Bybit

def entries (message : Option (Json R)) : List (Json R) :=
  ((message.bind (Json.member "data")).map Json.items).getD []

theorem onMessage_defined_iff (message : Option (Json R)) :
    Defined (onMessage message).result ↔ ¬ ReachesLacking (entries message) := by
  cases message with
  | none => exact iff_of_true (by rintro ⟨⟩) not_reachesLacking_nil
  | some payload =>
    show Defined (if !payload.contains "data" then pure ()
      else lift (payload.index "data") >>= fun data => forEach onEntry data.items :
        Trace Stop (TradeTick R) Unit).result ↔ _
    rw [entries, Option.bind_some, Json.contains]
    cases hdata : payload.member "data" with
    | none => exact iff_of_true (by rintro ⟨⟩) not_reachesLacking_nil
    | some data =>
      have hindex : payload.index "data" = .ok data := by
        cases payload with
        | object members =>
          rw [Json.member] at hdata
          rw [Json.index, hdata]
          rfl
        | _ => cases hdata
      rw [hindex, lift_ok_bind]
      exact forEach_defined_iff (fun _ => rfl) data.items

end Bybit

/-! ## The process -/

theorem aborted_iff {β : Type} {x : Except Stop β} : aborted x = true ↔ ¬ Defined x := by
  rw [Defined, not_not]
  rcases x with (_ | _) | _ <;> simp [aborted]

/-- The entries that the handler of a message loops over. -/
def FeedMessage.entries : FeedMessage R → List (Json R)
  | binance message => Binance.batchEntries message
  | bybit message => Bybit.entries message

theorem FeedMessage.aborts_iff (m : FeedMessage R) :
    m.aborts = true ↔ ReachesLacking m.entries := by
  cases m with
  | binance message =>
    exact aborted_iff.trans ((not_congr (Binance.onMessage_defined_iff message)).trans not_not)
  | bybit message =>
    exact aborted_iff.trans ((not_congr (Bybit.onMessage_defined_iff message)).trans not_not)

theorem process_of_entries (a : App R) {messages : List (FeedMessage R)}
    (h : ∀ m ∈ messages, ¬ ReachesLacking m.entries) :
    process a messages = run receive a messages := by
  rw [process_eq, upTo_eq_self]
  intro m hm
  exact Bool.eq_false_iff.mpr fun haborts => h m hm (m.aborts_iff.mp haborts)

/-- **Which messages make no undefined lookup**: exactly those on which neither handler's loop comes
to an entry that is an object without one of the four members, with those before it readable. -/
theorem lookups_defined_iff (message : Option (Json R)) :
    (Defined (Binance.onMessage message).result ↔ ¬ ReachesLacking (Binance.batchEntries message)) ∧
      (Defined (Bybit.onMessage message).result ↔ ¬ ReachesLacking (Bybit.entries message)) :=
  ⟨Binance.onMessage_defined_iff message, Bybit.onMessage_defined_iff message⟩

/-- An entry without a symbol, in either feed. -/
theorem not_defined_emptyEntry :
    ¬ Defined (Binance.onMessage
        (some (.object [("data", .array [.object []])]) : Option (Json XDouble))).result ∧
      ¬ Defined (Bybit.onMessage
        (some (.object [("data", .array [.object []])]) : Option (Json XDouble))).result :=
  ⟨fun h => h rfl, fun h => h rfl⟩

end SyntheticArbitrage
