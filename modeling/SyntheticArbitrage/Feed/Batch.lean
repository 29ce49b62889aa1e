import SyntheticArbitrage.Feed.Binance

/-!
# Trades in one message and trades in many

The array branch of `on_message` and the branch of the single object update the engines by two
copies of the same code.  The copy in the array branch has no call of `compareToReal`.

* `TradeEntry`: a well-formed trade, as an entry of an array and as a message of its own.
* `EnginesAgree`: two states of the program that differ at most in what was printed.
* `batch_agrees_iff`: a batch does what its trades do alone exactly when no ETHUSDT trade comes
  after both legs.
-/

namespace SyntheticArbitrage

variable {R : Type} [DoubleScan R]

namespace Binance

open Trace TradeTick

/-- A message whose data is `data`: under the key `data`, or the message itself. -/
structure Envelope (data : Json R) where
  payload : Json R
  stream : String
  data_eq : dataOf payload = data
  stream_eq : payload.value "stream" "" = .ok stream

/-- A well-formed trade, as it stands in an array and as the message that brings it alone. -/
structure TradeEntry (R : Type) [DoubleScan R] where
  tick : TradeTick R
  inArray : List (String × Json R)
  alone : List (String × Json R)
  inArray_carries : Carries "v" inArray tick
  alone_carries : Carries "q" alone tick
  message : Envelope (.object alone)
  not_funding : message.stream ≠ "btcusdt@fundingRate"
  not_mark : message.stream ≠ "btcusdt@markPrice"

def arrayOf (entries : List (TradeEntry R)) : Json R :=
  .array (entries.map fun e => .object e.inArray)

structure EnginesAgree (a b : App R) : Prop where
  perp : a.perp = b.perp
  ethSynth : a.objects.ethSynth = b.objects.ethSynth
  ethLogger : a.objects.ethLogger = b.objects.ethLogger
  ethSnapshotLogger : a.objects.ethSnapshotLogger = b.objects.ethSnapshotLogger
  ethArbEngine : a.objects.ethArbEngine = b.objects.ethArbEngine
  tracker : a.objects.tracker = b.objects.tracker
  signals : a.objects.signals = b.objects.signals
  ethCross : a.ethCross = b.ethCross
  tradeBuffers : a.tradeBuffers = b.tradeBuffers

/-- Both legs are there after the entries `pre`: each was there before, or an entry brought it. -/
def LegsReceived (a : App R) (pre : List (TradeEntry R)) : Prop :=
  (a.objects.ethSynth.readyEthbtc = true ∨ ∃ e ∈ pre, e.tick.symbol = "ETHBTC") ∧
    (a.objects.ethSynth.readyBtcusdt = true ∨ ∃ e ∈ pre, e.tick.symbol = "BTCUSDT")

/-! ## The calls -/

omit [DoubleScan R] in
theorem Envelope.openMessage {data : Json R} (e : Envelope data) :
    openMessage (some e.payload) =
      some ⟨e.stream, data, e.payload.contains "data" && data.isArray⟩ := by
  rw [Binance.openMessage, e.stream_eq, e.data_eq]
  rfl

omit [DoubleScan R] in
/-- An array is the data of a message only under the key `data`. -/
theorem Envelope.contains_of_array {items : List (Json R)} (e : Envelope (.array items)) :
    e.payload.contains "data" = true := by
  have hdata := e.data_eq
  have hstream := e.stream_eq
  rw [Json.contains]
  cases hmember : e.payload.member "data" with
  | some data => rfl
  | none =>
    rw [dataOf, hmember] at hdata
    dsimp only at hdata
    rw [hdata] at hstream
    cases hstream

theorem batch_calls {entries : List (TradeEntry R)} (batch : Envelope (arrayOf entries)) :
    (onMessage (some batch.payload)).calls = entries.flatMap fun e => arrayCalls e.tick := by
  have hread : ∀ e : TradeEntry R, tickIn "v" (.object e.inArray) = some e.tick :=
    fun e => e.inArray_carries.tickIn
  rw [onMessage_calls, batch.openMessage, batch.contains_of_array, Option.map_some,
    Option.getD_some]
  show (leading (tickIn "v") (entries.map fun e => .object e.inArray)).flatMap arrayCalls = _
  rw [leading_map hread, List.flatMap_map]

theorem single_calls (e : TradeEntry R) :
    (onMessage (some e.message.payload)).calls = objectCalls e.tick := by
  rw [onMessage_calls, e.message.openMessage, Option.map_some, Option.getD_some, Opened.calls]
  simp only [Json.isArray, Bool.and_false, Bool.false_eq_true, if_false,
    singleCalls_of_tickIn e.alone_carries.tickIn, eventCalls, e.not_funding, e.not_mark,
    Option.map_some, Option.getD_some, List.nil_append]

theorem deliver_batch (a : App R) {entries : List (TradeEntry R)}
    (batch : Envelope (arrayOf entries)) :
    deliver a (some batch.payload) =
      run App.call a (entries.flatMap fun e => arrayCalls e.tick) := by
  rw [deliver, batch_calls]

theorem deliver_singles (a : App R) (entries : List (TradeEntry R)) :
    run deliver a (entries.map fun e => some e.message.payload) =
      run App.call a (entries.flatMap fun e => objectCalls e.tick) := by
  rw [run_deliver, List.flatMap_map]
  simp only [single_calls]

/-! ## The legs -/

def givesLeg (leg : String) (k : EngineCall R) : Bool := (App.legGiven leg k).isSome

omit [DoubleScan R] in
theorem any_givesLeg_objectCalls {leg : String} (h : leg = "BTCUSDT" ∨ leg = "ETHBTC")
    (tick : TradeTick R) : (objectCalls tick).any (givesLeg leg) = decide (tick.symbol = leg) := by
  have hgiven := (legGiven_calls h tick).2
  rw [Bool.eq_iff_iff, List.any_eq_true, decide_eq_true_eq]
  have hnil : (objectCalls tick).filterMap (App.legGiven leg) ≠ [] ↔
      ∃ k ∈ objectCalls tick, givesLeg leg k = true := by
    rw [Ne, List.filterMap_eq_nil_iff]
    simp [givesLeg, Option.isSome_iff_ne_none]
  rw [← hnil, hgiven]
  simp

theorem call_flag (flag : SyntheticSpotSynth R → Bool) {leg : String}
    (hset : ∀ symbol price ts (s : SyntheticSpotSynth R),
      flag (s.setLeg symbol price ts) = (flag s || decide (symbol = leg)))
    (hupdate : ∀ (s : SyntheticSpotSynth R) p t,
      flag { s with syntheticPrice := p, lastTs := t } = flag s)
    (hcompare : ∀ (s : SyntheticSpotSynth R) p real buffer,
      flag { s with syntheticPrice := p, realEthusdt := real, buffer := buffer } = flag s)
    (a : App R) (k : EngineCall R) :
    flag (a.call k).objects.ethSynth = (flag a.objects.ethSynth || givesLeg leg k) := by
  cases k with
  | synth c =>
    cases c with
    | update symbol price ts =>
      have hgives : givesLeg leg (.synth (.update symbol price ts) : EngineCall R) =
          decide (symbol = leg) := by
        rw [givesLeg, App.legGiven]
        split <;> simp [*]
      rw [hgives, ← hset symbol price ts]
      exact Objects.update_frame a.objects symbol price ts flag hupdate
    | compareToReal real ts =>
      have hleg := Objects.compareToReal_frame a.objects real ts flag hcompare
      exact hleg.trans (Bool.or_false _).symm
  | _ => exact (Bool.or_false _).symm

theorem call_readyEthbtc (a : App R) (k : EngineCall R) :
    (a.call k).objects.ethSynth.readyEthbtc =
      (a.objects.ethSynth.readyEthbtc || givesLeg "ETHBTC" k) :=
  call_flag SyntheticSpotSynth.readyEthbtc Objects.setLeg_readyEthbtc (fun _ _ _ => rfl)
    (fun _ _ _ _ => rfl) a k

theorem call_readyBtcusdt (a : App R) (k : EngineCall R) :
    (a.call k).objects.ethSynth.readyBtcusdt =
      (a.objects.ethSynth.readyBtcusdt || givesLeg "BTCUSDT" k) :=
  call_flag SyntheticSpotSynth.readyBtcusdt Objects.setLeg_readyBtcusdt (fun _ _ _ => rfl)
    (fun _ _ _ _ => rfl) a k

/-- Both legs are there after the single messages of `pre` exactly when they were received. -/
theorem ready_iff_legsReceived (a : App R) (pre : List (TradeEntry R)) :
    (run App.call a (pre.flatMap fun e => objectCalls e.tick)).objects.ethSynth.ready = true ↔
      LegsReceived a pre := by
  have hany : ∀ leg, (∀ tick : TradeTick R,
      (objectCalls tick).any (givesLeg leg) = decide (tick.symbol = leg)) →
      ((pre.flatMap fun e => objectCalls e.tick).any (givesLeg leg) = true ↔
        ∃ e ∈ pre, e.tick.symbol = leg) := by
    intro leg h
    rw [List.any_flatMap, List.any_eq_true]
    simp only [h, decide_eq_true_eq]
  rw [SyntheticSpotSynth.ready, Bool.and_eq_true,
    run_flag (fun a : App R => a.objects.ethSynth.readyEthbtc) call_readyEthbtc,
    run_flag (fun a : App R => a.objects.ethSynth.readyBtcusdt) call_readyBtcusdt,
    Bool.or_eq_true, Bool.or_eq_true, hany "ETHBTC" (any_givesLeg_objectCalls (.inr rfl)),
    hany "BTCUSDT" (any_givesLeg_objectCalls (.inl rfl))]
  rfl

/-! ## Without `compareToReal` -/

theorem call_compareToReal_of_not_ready {a : App R} (h : a.objects.ethSynth.ready = false)
    (real : R) (ts : UInt64) : a.call (.synth (.compareToReal real ts)) = a := by
  have hstep : a.objects.step (.compareToReal real ts) = a.objects :=
    Objects.compareToReal_of_not_ready h real ts
  obtain ⟨objects, wired, perp, lastAlert, perpMonitor, ethCross, tradeBuffers⟩ := a
  simp only [App.call, hstep]

omit [DoubleScan R] in
theorem engineCalls_ethusdt {tick : TradeTick R} (h : tick.symbol = "ETHUSDT") :
    engineCalls tick = [.crossUpdate "Binance" tick.price tick.timestamp] ∧
      compareCalls tick = [.synth (.compareToReal tick.price tick.timestamp)] := by
  have hb : ¬ "ETHUSDT" = "BTCUSDT" := by decide
  have he : ¬ "ETHUSDT" = "ETHBTC" := by decide
  constructor
  · rw [engineCalls, h, if_neg hb, if_neg he, if_pos rfl]
    rfl
  · rw [compareCalls, if_pos h]

theorem run_objectCalls_eq {a : App R} {tick : TradeTick R}
    (h : tick.symbol = "ETHUSDT" → a.objects.ethSynth.ready = false) :
    run App.call a (objectCalls tick) = run App.call a (arrayCalls tick) := by
  rw [objectCalls, arrayCalls, run_append, run_append, run_append]
  by_cases hu : tick.symbol = "ETHUSDT"
  · obtain ⟨hengine, hcompare⟩ := engineCalls_ethusdt hu
    have hcross : (run App.call a
        [.crossUpdate "Binance" tick.price tick.timestamp]).objects.ethSynth.ready = false := h hu
    rw [hengine, hcompare]
    exact congrArg (fun b => run App.call b [.pushTick tick])
      (call_compareToReal_of_not_ready hcross tick.price tick.timestamp)
  · rw [compareCalls, if_neg hu, run_nil]

theorem singles_eq_batch (a : App R) (entries : List (TradeEntry R))
    (h : ∀ pre e post, entries = pre ++ e :: post → e.tick.symbol = "ETHUSDT" →
      ¬ LegsReceived a pre) :
    run App.call a (entries.flatMap fun e => objectCalls e.tick) =
      run App.call a (entries.flatMap fun e => arrayCalls e.tick) := by
  induction entries using List.reverseRecOn with
  | nil => rfl
  | append_singleton entries e ih =>
    have hinit := ih fun pre d post hpre => h pre d (post ++ [e]) (by rw [hpre]; simp)
    rw [List.flatMap_append, List.flatMap_append, run_append, run_append, ← hinit]
    simp only [List.flatMap_cons, List.flatMap_nil, List.append_nil]
    refine run_objectCalls_eq fun hu => ?_
    have hlegs := h entries e [] rfl hu
    rwa [← ready_iff_legsReceived, Bool.not_eq_true] at hlegs

/-! ## The snapshot rows -/

def snapshotRows (a : App R) : EngineCall R → List (SnapshotRow R)
  | .synth (.compareToReal real ts) =>
    if a.objects.ethSynth.ready then
      [⟨ts, a.objects.ethSynth.ethbtc, a.objects.ethSynth.btcusdt, real,
        a.objects.ethSynth.product, a.objects.ethSynth.product - real⟩]
    else []
  | _ => []

theorem call_snapshot (a : App R) (k : EngineCall R) :
    (a.call k).objects.ethSnapshotLogger.out =
      a.objects.ethSnapshotLogger.out ++ snapshotRows a k := by
  have hlogger : a.objects.ethSynth.snapshotLogger = true := congrArg Wiring.snapshotLogger a.wired
  cases k with
  | synth c =>
    cases c with
    | update symbol price ts =>
      have h := Objects.update_ethSnapshotLogger a.objects symbol price ts
      exact (congrArg SyntheticSnapshotLogger.out h).trans (List.append_nil _).symm
    | compareToReal real ts =>
      have h := Objects.compareToReal_snapshot a.objects real ts
      rw [hlogger, Bool.and_true] at h
      exact h
  | _ => exact (List.append_nil _).symm

theorem snapshotRows_arrayCalls (tick : TradeTick R) :
    ∀ k ∈ arrayCalls tick, ∀ a : App R, snapshotRows a k = [] := by
  unfold arrayCalls engineCalls
  simp only [List.forall_mem_append]
  refine ⟨⟨⟨?_, ?_⟩, ?_⟩, ?_⟩
  · split <;> simp [snapshotRows]
  · split <;> simp [snapshotRows]
  · split <;> simp [snapshotRows]
  · simp [snapshotRows]

theorem batch_snapshot (a : App R) (entries : List (TradeEntry R)) :
    (run App.call a (entries.flatMap fun e => arrayCalls e.tick)).objects.ethSnapshotLogger =
      a.objects.ethSnapshotLogger := by
  refine run_invariant
    (I := fun b : App R => b.objects.ethSnapshotLogger = a.objects.ethSnapshotLogger)
    (P := fun k => ∀ b : App R, snapshotRows b k = []) ?_ _ rfl ?_
  · intro b k hb hk
    have hout := call_snapshot b k
    rw [hk b, List.append_nil] at hout
    rw [← hb]
    exact congrArg SyntheticSnapshotLogger.mk hout
  · intro k hk
    obtain ⟨e, -, hk⟩ := List.mem_flatMap.mp hk
    exact snapshotRows_arrayCalls e.tick k hk

/-- If the single messages add no row either, no ETHUSDT trade was compared with both legs
there. -/
theorem not_legsReceived_of_snapshot {a : App R} {entries : List (TradeEntry R)}
    (h : (run App.call a (entries.flatMap fun e => objectCalls e.tick)).objects.ethSnapshotLogger =
      a.objects.ethSnapshotLogger) {pre : List (TradeEntry R)} {e : TradeEntry R}
    {post : List (TradeEntry R)} (hsplit : entries = pre ++ e :: post)
    (hu : e.tick.symbol = "ETHUSDT") : ¬ LegsReceived a pre := by
  have hrows : outputs App.call snapshotRows a (entries.flatMap fun e => objectCalls e.tick) =
      [] := by
    have hout := run_outputs (fun b : App R => b.objects.ethSnapshotLogger.out) call_snapshot
      a (entries.flatMap fun e => objectCalls e.tick)
    rw [h] at hout
    exact List.self_eq_append_right.mp hout
  obtain ⟨hengine, hcompare⟩ := engineCalls_ethusdt hu
  have hcalls : (entries.flatMap fun e => objectCalls e.tick) =
      ((pre.flatMap fun e => objectCalls e.tick) ++
        [.crossUpdate "Binance" e.tick.price e.tick.timestamp]) ++
      .synth (.compareToReal e.tick.price e.tick.timestamp) ::
        (.pushTick e.tick :: post.flatMap fun e => objectCalls e.tick) := by
    rw [hsplit, List.flatMap_append, List.flatMap_cons, objectCalls, hengine, hcompare]
    simp
  have hcompared := atEachCall_iff.mp (outputs_eq_nil_iff.mp hrows) _ _ _ hcalls
  rw [run_concat] at hcompared
  rw [← ready_iff_legsReceived, Bool.not_eq_true]
  by_contra hready
  rw [Bool.not_eq_false] at hready
  have hcross : ((run App.call a (pre.flatMap fun e => objectCalls e.tick)).call
      (.crossUpdate "Binance" e.tick.price e.tick.timestamp)).objects.ethSynth.ready = true :=
    hready
  simp [snapshotRows, hcross] at hcompared

/-! ## Agreement -/

/-- **When a batch agrees with its trades alone.**  A message with the array of the entries leaves
the engines as the messages of its entries do exactly when no ETHUSDT entry comes when both legs
have been received. -/
theorem batch_agrees_iff (a : App R) (entries : List (TradeEntry R))
    (batch : Envelope (arrayOf entries)) :
    EnginesAgree (deliver a (some batch.payload))
        (run deliver a (entries.map fun e => some e.message.payload)) ↔
      ∀ pre e post, entries = pre ++ e :: post → e.tick.symbol = "ETHUSDT" →
        ¬ LegsReceived a pre := by
  rw [deliver_batch, deliver_singles]
  constructor
  · intro h pre e post hsplit hu
    refine not_legsReceived_of_snapshot ?_ hsplit hu
    rw [← h.ethSnapshotLogger, batch_snapshot]
  · intro h
    rw [singles_eq_batch a entries h]
    exact ⟨rfl, rfl, rfl, rfl, rfl, rfl, rfl, rfl, rfl⟩

def exampleEntry (stream : String) (tick : TradeTick XDouble)
    (hfunding : stream ≠ "btcusdt@fundingRate") (hmark : stream ≠ "btcusdt@markPrice") :
    TradeEntry XDouble where
  tick := tick
  inArray := [("T", .numberUnsigned tick.timestamp), ("p", .numberFloat tick.price),
    ("q", .numberFloat tick.quantity), ("s", .string tick.symbol),
    ("v", .numberFloat tick.quantity)]
  alone := [("T", .numberUnsigned tick.timestamp), ("p", .numberFloat tick.price),
    ("q", .numberFloat tick.quantity), ("s", .string tick.symbol),
    ("v", .numberFloat tick.quantity)]
  inArray_carries := ⟨rfl, ⟨_, rfl, rfl⟩, ⟨_, rfl, rfl⟩, ⟨_, rfl, rfl⟩⟩
  alone_carries := ⟨rfl, ⟨_, rfl, rfl⟩, ⟨_, rfl, rfl⟩, ⟨_, rfl, rfl⟩⟩
  message :=
    { payload := .object
        [("data", .object [("T", .numberUnsigned tick.timestamp), ("p", .numberFloat tick.price),
          ("q", .numberFloat tick.quantity), ("s", .string tick.symbol),
          ("v", .numberFloat tick.quantity)]), ("stream", .string stream)]
      stream := stream
      data_eq := rfl
      stream_eq := rfl }
  not_funding := hfunding
  not_mark := hmark

def exampleEntries : List (TradeEntry XDouble) :=
  [exampleEntry "ethbtc@trade" ⟨"ETHBTC", .fin (1 / 20), .fin 1, 1000⟩ (by decide) (by decide),
    exampleEntry "btcusdt@trade" ⟨"BTCUSDT", .fin 40000, .fin 1, 1400⟩ (by decide) (by decide),
    exampleEntry "ethusdt@trade" ⟨"ETHUSDT", .fin 1990, .fin 1, 1500⟩ (by decide) (by decide)]

def exampleBatch : Envelope (arrayOf exampleEntries) where
  payload := .object [("data", arrayOf exampleEntries)]
  stream := ""
  data_eq := rfl
  stream_eq := rfl

/-- Three trades, the last of ETHUSDT: alone it is compared, in the batch it is not. -/
theorem not_batch_agrees_ethusdt :
    ¬ EnginesAgree (deliver App.initial (some exampleBatch.payload))
        (run deliver App.initial (exampleEntries.map fun e => some e.message.payload)) := by
  intro h
  have hrows := congrArg (fun l => l.out.length) h.ethSnapshotLogger
  revert hrows
  decide +kernel

end Binance

end SyntheticArbitrage
