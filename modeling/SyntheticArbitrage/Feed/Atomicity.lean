import SyntheticArbitrage.Feed.Bybit
import SyntheticArbitrage.Feed.Separation

/-!
# Messages that end in the `catch` block

`on_message` catches every exception around the whole handler.  The single object is decoded before
the first engine is touched; the entries of an array are decoded one by one, each after the calls of
the ones before it.

* `EndsInCatch`, `Intact`: the message ends in the `catch` block; the state is as before.
* `singleObject_atomic`: the single object does all of its calls or none.
* `intact_iff`: which failing messages leave every reachable state intact.
-/

namespace SyntheticArbitrage.Binance

variable {R : Type} [DoubleScan R]

open Trace TradeTick

/-- The message ends in the `catch` block of the handler. -/
def EndsInCatch (message : Option (Json R)) : Prop :=
  ∃ e, (onMessage message).result = .error (.exception e)

/-- A state that messages of the two feeds can lead to. -/
def Reachable (a : App R) : Prop := ∃ feed : List (FeedMessage R), a = run receive App.initial feed

/-- The engines, what is attached to them, and the buffers are as before. -/
structure Intact (a b : App R) : Prop where
  perp : b.perp = a.perp
  objects : b.objects = a.objects
  ethCross : b.ethCross = a.ethCross
  tradeBuffers : b.tradeBuffers = a.tradeBuffers

/-- The well-formed entries of the array of a message, up to the first malformed one. -/
def leadingEntries (message : Option (Json R)) : List (TradeTick R) :=
  match openMessage message with
  | some m => if m.batch then leading (tickIn "v") m.data.items else []
  | none => []

theorem singleObject_atomic (stream : String) (data : Json R) :
    (singleObject stream data).result = .ok () ∨ (singleObject stream data).calls = [] := by
  rw [singleObject, objectTick]
  cases htick : decodeTick Json.index "q" data with
  | error e => exact Or.inr rfl
  | ok tick =>
    obtain ⟨-, hprice, -, htimestamp⟩ := decodeTick_eq_ok htick
    rw [lift_ok_bind, objectUpdates_eq]
    by_cases hfunding : stream = "btcusdt@fundingRate"
    · simp only [hfunding, if_true, fundingEvent, htimestamp, lift_ok_bind]
      cases hrate : data.index "r" >>= Json.number with
      | error e => exact Or.inr rfl
      | ok rate => exact Or.inl rfl
    · by_cases hmark : stream = "btcusdt@markPrice"
      · simp only [hmark, markEvent, hprice, htimestamp, lift_ok_bind]
        exact Or.inl rfl
      · simp only [hfunding, hmark, if_false]
        exact Or.inl trivial

theorem onMessage_of_opened {message : Option (Json R)} {m : Opened R}
    (h : openMessage message = some m) :
    onMessage message =
      if m.batch then forEach arrayEntry m.data.items else singleObject m.stream m.data := by
  cases message with
  | none => cases h
  | some payload =>
    rw [openMessage, Option.map_eq_some_iff] at h
    obtain ⟨stream, hstream, rfl⟩ := h
    show (lift (payload.value "stream" "") >>= _ : Handler R Unit) = _
    cases hvalue : payload.value "stream" "" with
    | error e => rw [hvalue] at hstream; cases hstream
    | ok s =>
      rw [hvalue] at hstream
      cases hstream
      rfl

/-- A failing message makes no call, unless entries of its array come before the one that fails. -/
theorem calls_of_endsInCatch {message : Option (Json R)} (hcatch : EndsInCatch message)
    (hleading : leadingEntries message = []) : (onMessage message).calls = [] := by
  cases hopen : openMessage message with
  | none => rw [onMessage_calls, hopen]; rfl
  | some m =>
    rw [leadingEntries, hopen] at hleading
    by_cases hbatch : m.batch = true
    · simp only [hbatch, if_true] at hleading
      rw [onMessage_of_opened hopen, if_pos hbatch, forEach_arrayEntry_calls, hleading]
      rfl
    · obtain ⟨e, he⟩ := hcatch
      rw [onMessage_of_opened hopen, if_neg hbatch] at he ⊢
      rcases singleObject_atomic m.stream m.data with hok | hnone
      · rw [hok] at he
        cases he
      · exact hnone

/-- **Which failing messages leave every reachable state intact**: those without a well-formed entry
before the one that fails. -/
theorem intact_iff {message : Option (Json R)} (hcatch : EndsInCatch message) :
    (∀ a : App R, Reachable a → Intact a (deliver a message)) ↔ leadingEntries message = [] := by
  constructor
  · intro h
    have hcarried := carriedTicks_eq_nil_of_tradeBuffers (h App.initial ⟨[], rfl⟩).tradeBuffers
    cases hopen : openMessage message with
    | none => rw [leadingEntries, hopen]
    | some m =>
      rw [carriedTicks_of_opened hopen, Opened.ticks] at hcarried
      rw [leadingEntries, hopen]
      by_cases hbatch : m.batch = true
      · rw [if_pos hbatch] at hcarried
        simp only [hbatch, if_true, hcarried]
      · simp only [hbatch, if_false, Bool.false_eq_true]
  · intro h a _
    rw [deliver, calls_of_endsInCatch hcatch h]
    exact ⟨rfl, rfl, rfl, rfl⟩

def badSecondEntry : Option (Json XDouble) :=
  some (.object [("data", .array [
    .object [("T", .numberUnsigned 1000), ("p", .string "0.05"), ("s", .string "ETHBTC"),
      ("v", .string "1")],
    .object [("T", .numberUnsigned 1001), ("p", .string "abc"), ("s", .string "ETHBTC"),
      ("v", .string "1")]])])

theorem badSecondEntry_endsInCatch : EndsInCatch badSecondEntry :=
  ⟨.invalidArgument, by decide +kernel⟩

/-- The same entries the other way round. -/
def badFirstEntry : Option (Json XDouble) :=
  some (.object [("data", .array [
    .object [("T", .numberUnsigned 1001), ("p", .string "abc"), ("s", .string "ETHBTC"),
      ("v", .string "1")],
    .object [("T", .numberUnsigned 1000), ("p", .string "0.05"), ("s", .string "ETHBTC"),
      ("v", .string "1")]])])

theorem badFirstEntry_endsInCatch : EndsInCatch badFirstEntry :=
  ⟨.invalidArgument, by decide +kernel⟩

/-- A batch that fails at its first entry leaves everything intact. -/
theorem intact_iff_badFirstEntry :
    EndsInCatch badFirstEntry ∧
      ∀ a : App XDouble, Reachable a → Intact a (deliver a badFirstEntry) :=
  ⟨badFirstEntry_endsInCatch, (intact_iff badFirstEntry_endsInCatch).mpr (by decide +kernel)⟩

/-- The first entry stays in the engines. -/
theorem not_intact_badSecondEntry :
    EndsInCatch badSecondEntry ∧ Reachable (App.initial : App XDouble) ∧
      ¬ Intact App.initial (deliver App.initial badSecondEntry) := by
  refine ⟨badSecondEntry_endsInCatch, ⟨[], rfl⟩, fun h => ?_⟩
  have hready := congrArg (fun o => o.ethSynth.readyEthbtc) h.objects
  revert hready
  decide +kernel

end SyntheticArbitrage.Binance
