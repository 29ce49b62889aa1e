import SyntheticArbitrage.Feed.Lookups
import SyntheticArbitrage.Numeral

/-!
# Numeric fields in texts

A price, a quantity or a time that comes as a string is converted with `std::stod` or `std::stoull`,
which skip blanks, take a sign, and ignore what follows the number.

* `WellWritten`: an entry whose strings are numerals as a whole.
* `Readable`: an entry whose strings begin with a number; `tickIn_isSome_iff`: these are decoded.
* `Reads`: the entries that a handler comes to.
* `acceptsNumerals_iff`: **the handlers accept exactly the well-written entries when they come to no
  sloppy one.**
-/

namespace SyntheticArbitrage

open Trace TradeTick

variable {R : Type} [DoubleScan R]

/-! ## Entries -/

/-- A member that is a number, or a string with a property. -/
def NumberMember (text : String → Prop) : Json R → Prop
  | .string s => text s
  | .numberInteger _ => True
  | .numberUnsigned _ => True
  | .numberFloat _ => True
  | _ => False

/-- An entry with a string for the symbol, and members for the price, the quantity and the time
whose strings have the properties `number` and `integer`. -/
structure Fields (number integer : String → Prop) (quantityKey : String) (entry : Json R) :
    Prop where
  symbol : ∃ s, entry.member "s" = some (.string s)
  price : ∃ v ∈ entry.member "p", NumberMember number v
  quantity : ∃ v ∈ entry.member quantityKey, NumberMember number v
  timestamp : ∃ v ∈ entry.member "T", NumberMember integer v

/-- The strings of the entry are finite, non-negative decimal numerals. -/
def WellWritten (quantityKey : String) (entry : Json R) : Prop :=
  Fields (IsNumeral R) IsInteger quantityKey entry

/-- The strings of the entry begin with a number. -/
def Readable (quantityKey : String) (entry : Json R) : Prop :=
  Fields (BeginsNumber R) BeginsInteger quantityKey entry

/-- The strings of the entry begin with a number, but not all of them are numerals. -/
def Sloppy (quantityKey : String) (entry : Json R) : Prop :=
  Readable quantityKey entry ∧ ¬ WellWritten quantityKey entry

omit [DoubleScan R] in
theorem NumberMember.imp {p q : String → Prop} (h : ∀ s, p s → q s) {v : Json R}
    (hv : NumberMember p v) : NumberMember q v := by
  cases v with
  | string s => exact h s hv
  | _ => exact hv

omit [DoubleScan R] in
theorem Fields.imp {number number' integer integer' : String → Prop} {quantityKey : String}
    {entry : Json R} (hnumber : ∀ s, number s → number' s) (hinteger : ∀ s, integer s → integer' s)
    (h : Fields number integer quantityKey entry) : Fields number' integer' quantityKey entry where
  symbol := h.symbol
  price := h.price.imp fun _ hv => ⟨hv.1, hv.2.imp hnumber⟩
  quantity := h.quantity.imp fun _ hv => ⟨hv.1, hv.2.imp hnumber⟩
  timestamp := h.timestamp.imp fun _ hv => ⟨hv.1, hv.2.imp hinteger⟩

theorem WellWritten.readable {quantityKey : String} {entry : Json R}
    (h : WellWritten quantityKey entry) : Readable quantityKey entry :=
  Fields.imp (fun _ => IsNumeral.begins R) (fun _ => IsInteger.begins) h

theorem number_isSome_iff (v : Json R) :
    v.number.toOption.isSome ↔ NumberMember (BeginsNumber R) v := by
  cases v with
  | string s =>
    rw [NumberMember, ← stod_isSome_iff, Json.number]
    cases (stod s : Except Exception R) <;> rfl
  | _ => first | exact iff_of_true rfl trivial | exact iff_of_false (by rintro ⟨⟩) id

theorem timestamp_isSome_iff (v : Json R) :
    v.timestamp.toOption.isSome ↔ NumberMember BeginsInteger v := by
  cases v with
  | string s =>
    rw [NumberMember, ← stoull_isSome_iff, Json.timestamp]
    cases stoull s <;> rfl
  | _ => first | exact iff_of_true rfl trivial | exact iff_of_false (by rintro ⟨⟩) id

omit [DoubleScan R] in
theorem field_isSome_iff {β : Type} {key : String} {convert : Json R → Except Stop β}
    {P : Json R → Prop} (hP : ∀ v, (convert v).toOption.isSome ↔ P v) (entry : Json R) :
    (entry.field key convert).isSome ↔ ∃ v ∈ entry.member key, P v := by
  rw [Json.field]
  cases entry.member key with
  | none => simp
  | some v => simp [hP]

omit [DoubleScan R] in
theorem getString_isSome_iff (v : Json R) : v.getString.toOption.isSome ↔ ∃ s, v = .string s := by
  cases v with
  | string s => exact iff_of_true rfl ⟨s, rfl⟩
  | _ => exact iff_of_false (by rintro ⟨⟩) (by rintro ⟨_, ⟨⟩⟩)

/-- **The entries that are decoded** are the readable ones. -/
theorem tickIn_isSome_iff (quantityKey : String) (entry : Json R) :
    (tickIn quantityKey entry).isSome ↔ Readable quantityKey entry := by
  have hfields : (tickIn quantityKey entry).isSome ↔
      (entry.field "s" Json.getString).isSome ∧ (entry.field "p" Json.number).isSome ∧
        (entry.field quantityKey Json.number).isSome ∧
        (entry.field "T" Json.timestamp).isSome := by
    rw [tickIn]
    cases entry.field "s" Json.getString <;> cases entry.field "p" Json.number <;>
      cases entry.field quantityKey Json.number <;> cases entry.field "T" Json.timestamp <;> simp
  rw [hfields, field_isSome_iff getString_isSome_iff, field_isSome_iff number_isSome_iff,
    field_isSome_iff number_isSome_iff, field_isSome_iff timestamp_isSome_iff]
  constructor
  · intro h
    obtain ⟨⟨_, hs, s, rfl⟩, hp, hq, ht⟩ := h
    exact ⟨⟨s, hs⟩, hp, hq, ht⟩
  · intro h
    obtain ⟨⟨s, hs⟩, hp, hq, ht⟩ := h
    exact ⟨⟨_, hs, s, rfl⟩, hp, hq, ht⟩

/-! ## Messages -/

/-- The entries that the handlers of a message come to: what the decoding of the entry ends in, and
the key of its quantity. -/
inductive Reads (message : Option (Json R)) : Except Stop (TradeTick R) → String → Json R → Prop
  | batch {front back : List (Json R)} {entry : Json R}
    (hsplit : Binance.batchEntries message = front ++ entry :: back)
    (hfront : ∀ e ∈ front, (tickIn "v" e).isSome) :
    Reads message (Binance.arrayTick entry) "v" entry
  | single {m : Binance.Opened R} (hopen : Binance.openMessage message = some m)
    (hbatch : m.batch = false) : Reads message (Binance.objectTick m.data) "q" m.data
  | bybit {front back : List (Json R)} {entry : Json R}
    (hsplit : Bybit.entries message = front ++ entry :: back)
    (hfront : ∀ e ∈ front, (tickIn "v" e).isSome) :
    Reads message (Bybit.entryTick entry) "v" entry

/-- The handlers decode the entries they come to exactly when these are well-written, and use
nothing of another one: the calls are those of the entries before it. -/
structure AcceptsNumerals (message : Option (Json R)) : Prop where
  decoded : ∀ {result quantityKey entry}, Reads message result quantityKey entry →
    (result.toOption.isSome ↔ WellWritten quantityKey entry)
  batch_unused : ∀ front entry back, Binance.batchEntries message = front ++ entry :: back →
    ¬ WellWritten "v" entry →
    (Binance.onMessage message).calls = (leading (tickIn "v") front).flatMap Binance.arrayCalls
  single_unused : ∀ m, Binance.openMessage message = some m → m.batch = false →
    ¬ WellWritten "q" m.data → (Binance.onMessage message).calls = []
  bybit_unused : (Bybit.onMessage message).calls = []

theorem Reads.toOption {message : Option (Json R)} {result : Except Stop (TradeTick R)}
    {quantityKey : String} {entry : Json R} (h : Reads message result quantityKey entry) :
    result.toOption = tickIn quantityKey entry := by
  cases h with
  | batch _ _ => exact decodeTick_constIndex "v" entry
  | single _ _ => exact decodeTick_index "q" _
  | bybit _ _ => exact decodeTick_constIndex "v" entry

/-- **The handlers accept exactly the well-written entries** when none of the entries they come to
is sloppy, and only then. -/
theorem acceptsNumerals_iff (message : Option (Json R)) :
    AcceptsNumerals message ↔
      ∀ {result quantityKey entry}, Reads message result quantityKey entry →
        ¬ Sloppy quantityKey entry := by
  constructor
  · rintro h result quantityKey entry hreads ⟨hreadable, hwell⟩
    refine hwell ((h.decoded hreads).mp ?_)
    rw [hreads.toOption, tickIn_isSome_iff]
    exact hreadable
  · intro h
    have hdecoded : ∀ {result quantityKey entry}, Reads message result quantityKey entry →
        (result.toOption.isSome ↔ WellWritten quantityKey entry) := by
      intro result quantityKey entry hreads
      rw [hreads.toOption, tickIn_isSome_iff]
      exact ⟨fun hreadable => not_not.mp fun hwell => h hreads ⟨hreadable, hwell⟩,
        WellWritten.readable⟩
    refine ⟨hdecoded, fun front entry back hsplit hwell => ?_, fun m hopen hbatch hwell => ?_,
      Bybit.onMessage_calls message⟩
    · have hnone : (∀ e ∈ front, (tickIn "v" e).isSome) → tickIn "v" entry = none := by
        intro hfront
        have hreads := Reads.batch hsplit hfront
        rw [← hreads.toOption, ← Option.not_isSome_iff_eq_none, hdecoded hreads]
        exact hwell
      have hne : Binance.batchEntries message ≠ [] := by
        rw [hsplit]
        simp
      rw [Binance.onMessage_calls_of_batchEntries hne, hsplit, leading_append_cons back hnone]
    · have hreads := Reads.single hopen hbatch
      have hnone : tickIn "q" m.data = none := by
        rw [← hreads.toOption, ← Option.not_isSome_iff_eq_none, hdecoded hreads]
        exact hwell
      rw [Binance.onMessage_calls, hopen, Option.map_some, Option.getD_some, Binance.Opened.calls,
        hbatch, Binance.singleCalls, hnone]
      rfl

def trailingLetter : Option (Json XDouble) :=
  some (.object [("T", .string "1700000000000"), ("p", .string "2000x"), ("q", .string "1"),
    ("s", .string "ETHUSDT")])

/-- The price is taken as 2000. -/
theorem not_acceptsNumerals_trailingLetter : ¬ AcceptsNumerals trailingLetter := by
  intro h
  have hreads : Reads trailingLetter _ "q" _ :=
    Reads.single (m := ⟨"", trailingLetter.get rfl, false⟩) (by rfl) rfl
  have hwell := (h.decoded hreads).mp (by decide +kernel)
  obtain ⟨v, hv, hnumeral⟩ := hwell.price
  cases hv
  obtain ⟨n, -, hn, -⟩ := hnumeral
  have hmem : 'x' ∈ n.text := by
    rw [← String.toList_ofList (l := n.text), ← hn]
    decide
  rcases Numeral.mem_text hmem with hdigit | hother
  · exact absurd hdigit (by decide)
  · exact absurd hother (by decide)

end SyntheticArbitrage
