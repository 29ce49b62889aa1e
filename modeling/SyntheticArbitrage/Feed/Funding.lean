import SyntheticArbitrage.Feed.Binance
import SyntheticArbitrage.FundingCache
import SyntheticArbitrage.Numeral

/-!
# The funding stream

The message handler of `start_binance_funding_ws` in `src/feeds/binance_funding_ws.cpp`.  The time
of the next funding is declared as an `int64_t`, and decoded as the type of the default `0`.

* `onMessage`: the handler, on the cache.
* `FundingMessage`: a message with a decimal rate and an integer time.
* `decode_payload`: what the handler decodes of it; the time is cut to 32 bits.
* `fundingFaithful_iff`: when the cache has what the messages say.
-/

namespace SyntheticArbitrage.BinanceFunding

variable {R : Type} [DoubleToInt R]

/-! ## The source -/

def decode (message : Option (Json R)) : Except Stop (R × Int64) := do
  let j ← Binance.parsed message
  let rate ← j.value "r" "0" >>= fun r => thrown (stod r)
  let timestamp ← j.valueInt "T" 0
  pure (rate, timestamp.toInt64)

/-- The handler; its `catch (...)` block changes nothing. -/
def onMessage (symbol : String) (fundingCache : FundingCache R) (message : Option (Json R)) :
    FundingCache R :=
  match decode message with
  | .ok (rate, timestamp) => fundingCache.update symbol rate timestamp
  | .error _ => fundingCache

/-! ## Messages with a rate and a time -/

/-- A message whose `r` is a decimal numeral, with a `double` for its value, and whose `T` is an
integer. -/
structure FundingMessage (R : Type) [DoubleToInt R] where
  members : List (String × Json R)
  numeral : Decimal
  rate : R
  time : Int64
  r_eq : members.lookup "r" = some (.string (String.ofList numeral.text))
  rate_eq : numeral.toDouble = some rate
  T_eq : (members.lookup "T").bind Json.integer = some time.toInt

def FundingMessage.payload (m : FundingMessage R) : Option (Json R) := some (.object m.members)

/-- The cache has the rate and the time of a message, and the price is adjusted by its rate. -/
structure Holds (symbol : String) (m : FundingMessage R) (cache : FundingCache R) : Prop where
  get : cache.get symbol = ⟨m.rate, m.time⟩
  price : ∀ perpPrice, computeSyntheticPrice perpPrice symbol cache =
    perpPrice * (DoubleOps.lit 1.0 - m.rate)

/-- After each message of a run the cache has what the message says. -/
def FundingFaithful (symbol : String) (cache : FundingCache R)
    (messages : List (FundingMessage R)) : Prop :=
  ∀ pre m post, messages = pre ++ m :: post →
    Holds symbol m (run (onMessage symbol) cache ((pre ++ [m]).map FundingMessage.payload))

/-! ## What is decoded -/

/-- **One message**: the rate is decoded as it is written, and the time is cut to 32 bits. -/
theorem decode_payload (m : FundingMessage R) :
    decode m.payload = .ok (m.rate, m.time.toInt32.toInt64) := by
  have hr : (Json.object m.members).value "r" "0" = .ok (String.ofList m.numeral.text) := by
    rw [Json.value, m.r_eq]
    rfl
  have hrate : thrown (stod (String.ofList m.numeral.text)) = .ok m.rate := by
    rw [Decimal.stod_text, m.rate_eq]
    rfl
  have hT : (Json.object m.members).valueInt "T" 0 = .ok m.time.toInt32 := by
    obtain ⟨v, hv, hinteger⟩ := Option.bind_eq_some_iff.mp m.T_eq
    rw [Json.valueInt, hv, ← Int32.ofInt_int64ToInt]
    exact Json.getInt_of_integer hinteger
  show (do
    let rate ← (Json.object m.members).value "r" "0" >>= fun r => thrown (stod r)
    let timestamp ← (Json.object m.members).valueInt "T" 0
    pure (rate, timestamp.toInt64) : Except Stop (R × Int64)) = _
  rw [hr, hT]
  show (thrown (stod (String.ofList m.numeral.text)) >>= fun rate => _) = _
  rw [hrate]
  rfl

theorem get_onMessage (symbol : String) (cache : FundingCache R) (m : FundingMessage R) :
    (onMessage symbol cache m.payload).get symbol = ⟨m.rate, m.time.toInt32.toInt64⟩ := by
  rw [onMessage, decode_payload]
  exact FundingCache.get_update cache symbol m.rate _

theorem toInt64_toInt32_eq_iff (t : Int64) :
    t.toInt32.toInt64 = t ↔ -2 ^ 31 ≤ t.toInt ∧ t.toInt < 2 ^ 31 := by
  rw [← Int64.toInt_inj, Int32.toInt_toInt64, Int64.toInt_toInt32, Int.bmod_def]
  omega

/-- **When the cache has what the messages say**: exactly when every time of the run fits in a
32-bit `int`. -/
theorem fundingFaithful_iff (symbol : String) (cache : FundingCache R)
    (messages : List (FundingMessage R)) :
    FundingFaithful symbol cache messages ↔
      ∀ m ∈ messages, -2 ^ 31 ≤ m.time.toInt ∧ m.time.toInt < 2 ^ 31 := by
  have hget : ∀ pre m, (run (onMessage symbol) cache
      ((pre ++ [m]).map FundingMessage.payload)).get symbol = ⟨m.rate, m.time.toInt32.toInt64⟩ := by
    intro pre m
    rw [List.map_append, List.map_singleton, run_concat]
    exact get_onMessage symbol _ m
  constructor
  · intro h m hm
    obtain ⟨pre, post, hsplit⟩ := List.append_of_mem hm
    have hholds := (h pre m post hsplit).get
    rw [hget, FundingInfo.mk.injEq] at hholds
    exact (toInt64_toInt32_eq_iff m.time).mp hholds.2
  · intro h pre m post hsplit
    have hm : m ∈ messages := by rw [hsplit]; simp
    have htime := (toInt64_toInt32_eq_iff m.time).mpr (h m hm)
    refine ⟨?_, fun perpPrice => ?_⟩
    · rw [hget, htime]
    · rw [computeSyntheticPrice, hget]

def fundingMessage : FundingMessage XDouble where
  members := [("T", .numberUnsigned 1700000000000), ("r", .string "0.0001")]
  numeral :=
    ⟨false, ['0'], some ['0', '0', '0', '1'], List.cons_ne_nil _ _,
      List.all_eq_true.mp (by decide), List.all_eq_true.mp (by decide)⟩
  rate := .fin (1 / 10000)
  time := 1700000000000
  r_eq := rfl
  rate_eq := by decide +kernel
  T_eq := by decide

/-- The cache has a time in 1969. -/
theorem not_fundingFaithful_epochMs : ¬ FundingFaithful "BTCUSDT" {} [fundingMessage] := by
  intro h
  have hholds := (h [] fundingMessage [] rfl).get
  revert hholds
  decide +kernel

end SyntheticArbitrage.BinanceFunding
