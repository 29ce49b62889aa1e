import SyntheticArbitrage.SpotSynth.Basic

/-!
# Which leg pairs a synthetic price is computed from

`update` prices a pair of legs only when their stored timestamps are within `max_age` of each other.
`compareToReal` and `getSynthetic` compute the same product behind the readiness guard alone.

* `PriceLeaves`: a call put a synthetic price into the buffer, a log, a line or a trade.
* `GateHeld`: in a run, and in a read of `getSynthetic` at its end, prices leave only from legs
  within `max_age`.
* `gateHeld_iff`: that is so exactly for the runs whose `compareToReal` calls and whose read find
  the legs within `max_age`; `update` never breaks it.
* `ageTestExact_iff`: for which stored timestamps the age test of `update` is their distance.
-/

namespace SyntheticArbitrage

variable {R : Type} [DoubleOps R]

/-- The distance of the stored timestamps of the legs. -/
def SyntheticSpotSynth.legGap (s : SyntheticSpotSynth R) : ℕ := Clock.dist s.tsEthbtc s.tsBtcusdt

namespace Objects

open SyntheticSpotSynth

/-- A synthetic price has left the engine between two states: in a line, a row, the buffer or a
trade. -/
def PriceLeaves (o o' : Objects R) : Prop :=
  o'.cout ≠ o.cout ∨ o'.ethLogger.logfile ≠ o.ethLogger.logfile ∨
    o'.ethSnapshotLogger.out ≠ o.ethSnapshotLogger.out ∨
    o'.ethSynth.buffer ≠ o.ethSynth.buffer ∨ o'.signals ≠ o.signals ∨
    o'.tracker.pnlTracker.trades ≠ o.tracker.pnlTracker.trades

/-- Prices leave a run, and the read at its end, only from legs within `max_age`. -/
def GateHeld (o : Objects R) (calls : List (SynthCall R)) : Prop :=
  AtEachCall step
      (fun o c => PriceLeaves o (o.step c) → (o.step c).ethSynth.legGap ≤ 1500) o calls ∧
    ((run step o calls).ethSynth.getSynthetic ≠ 0 → (run step o calls).ethSynth.legGap ≤ 1500)

/-- A `compareToReal` that finds both legs finds them within `max_age`. -/
def ComparesInSync (o : Objects R) : SynthCall R → Prop
  | .update _ _ _ => True
  | .compareToReal _ _ => o.ethSynth.ready = true → o.ethSynth.legGap ≤ 1500

/-- Every `compareToReal` of the run, and the read at its end, find the legs within `max_age`. -/
def ReadsInSync (o : Objects R) (calls : List (SynthCall R)) : Prop :=
  AtEachCall step ComparesInSync o calls ∧
    ((run step o calls).ethSynth.ready = true → (run step o calls).ethSynth.product ≠ 0 →
      (run step o calls).ethSynth.legGap ≤ 1500)

/-! ## The stored timestamps -/

/-- Both stored timestamps are below `2 ^ 63`. -/
def LegsInRange (o : Objects R) : Prop :=
  o.ethSynth.tsEthbtc.toNat < 2 ^ 63 ∧ o.ethSynth.tsBtcusdt.toNat < 2 ^ 63

theorem update_tsEthbtc (o : Objects R) (symbol : String) (price : R) (ts : UInt64) :
    (o.update symbol price ts).ethSynth.tsEthbtc =
      (o.ethSynth.setLeg symbol price ts).tsEthbtc :=
  update_frame o symbol price ts tsEthbtc fun _ _ _ => rfl

theorem update_tsBtcusdt (o : Objects R) (symbol : String) (price : R) (ts : UInt64) :
    (o.update symbol price ts).ethSynth.tsBtcusdt =
      (o.ethSynth.setLeg symbol price ts).tsBtcusdt :=
  update_frame o symbol price ts tsBtcusdt fun _ _ _ => rfl

@[simp] theorem compareToReal_legGap (o : Objects R) (real : R) (ts : UInt64) :
    (o.compareToReal real ts).ethSynth.legGap = o.ethSynth.legGap :=
  compareToReal_frame o real ts legGap fun _ _ _ _ => rfl

theorem legsInRange_step (o : Objects R) (c : SynthCall R) (h : o.LegsInRange)
    (hc : c.timestamp.toNat < 2 ^ 63) : (o.step c).LegsInRange := by
  cases c with
  | update symbol price ts =>
    simp only [SynthCall.timestamp] at hc
    simp only [LegsInRange, step, update_tsEthbtc, update_tsBtcusdt, setLeg]
    split_ifs
    · exact ⟨hc, h.2⟩
    · exact ⟨h.1, hc⟩
    · exact h
  | compareToReal real ts =>
    have he := compareToReal_frame o real ts tsEthbtc fun _ _ _ _ => rfl
    have hb := compareToReal_frame o real ts tsBtcusdt fun _ _ _ _ => rfl
    rw [LegsInRange, step, he, hb]
    exact h

omit [DoubleOps R] in
/-- On timestamps below `2 ^ 63`, `synced_ticks` says that both legs are there and within
`max_age`. -/
theorem synced_iff {o : Objects R} (h : o.LegsInRange) :
    o.ethSynth.synced = true ↔ o.ethSynth.ready = true ∧ o.ethSynth.legGap ≤ 1500 := by
  rw [synced, Bool.and_eq_true, decide_eq_true_eq, Clock.signedGap_le_iff h.1 h.2]
  rfl

end Objects

/-! ## The age test on all timestamps -/

namespace SyntheticSpotSynth

/-- The age test of `update` is the distance of the stored timestamps, and `std::abs` has a value
for its argument. -/
def AgeTestExact (s : SyntheticSpotSynth R) : Prop :=
  (s.synced = true ↔ s.legGap ≤ 1500) ∧ (s.tsEthbtc - s.tsBtcusdt).toInt64 ≠ Int64.minValue

omit [DoubleOps R] in
/-- **For which timestamps the age test is exact**: those that are not half the 64-bit range apart,
and not within `max_age` of the whole range. -/
theorem ageTestExact_iff {s : SyntheticSpotSynth R} (h : s.ready = true) :
    s.AgeTestExact ↔ s.legGap ≠ 2 ^ 63 ∧ s.legGap < 2 ^ 64 - 1500 := by
  have hage : maxAge.toNat = 1500 := rfl
  have hsynced : s.synced = true ↔ s.legGap ≤ 1500 ∨ 2 ^ 64 ≤ s.legGap + 1500 := by
    rw [synced, h, Bool.true_and, decide_eq_true_eq, Clock.signedGap_le_iff_or (by decide), hage]
    rfl
  rw [AgeTestExact, hsynced, ne_eq, Clock.toInt64_sub_eq_minValue_iff]
  show _ ∧ ¬ s.legGap = 2 ^ 63 ↔ _
  omega

def withTimestamps (tsEthbtc tsBtcusdt : UInt64) : SyntheticSpotSynth ℚ :=
  ((new "ETHUSDT (Synthetic)" {}).setLeg "ETHBTC" (1 / 20) tsEthbtc).setLeg "BTCUSDT" 40000
    tsBtcusdt

/-- Legs 400 ms apart. -/
theorem ageTestExact_iff_close :
    (withTimestamps 1000 1400).ready = true ∧ (withTimestamps 1000 1400).AgeTestExact :=
  ⟨by decide +kernel, (ageTestExact_iff (by decide +kernel)).mpr (by decide +kernel)⟩

/-- A timestamp 0 and one of `-1` in the feed, which is `2 ^ 64 - 1`, pass as 1 ms apart. -/
theorem not_ageTestExact_negative :
    (withTimestamps 0 18446744073709551615).ready = true ∧
      ¬ (withTimestamps 0 18446744073709551615).AgeTestExact := by
  refine ⟨by decide +kernel, fun h => ?_⟩
  have hfar := h.1.mp (by decide +kernel)
  revert hfar
  decide +kernel

end SyntheticSpotSynth

namespace Objects

open SyntheticSpotSynth

/-! ## The gate, call by call -/

/-- A price leaves `update` only when the legs are in sync. -/
theorem synced_of_priceLeaves_update {o : Objects R} {symbol : String} {price : R} {ts : UInt64}
    (h : PriceLeaves o (o.update symbol price ts)) :
    (o.update symbol price ts).ethSynth.synced = true := by
  rw [update_synced]
  by_contra hs
  have hcout : (o.update symbol price ts).cout = o.cout := by simp [update_cout, hs]
  rcases h with hc | hl | hsn | hb | hsig | ht
  · exact hc hcout
  · exact hl (by simp [update_logfile, hs])
  · exact hsn (by simp)
  · exact hb (by simp)
  · exact hsig (by rw [signals, hcout]; rfl)
  · exact ht (by simp)

theorem priceLeaves_compareToReal {o : Objects R} (h : o.ethSynth.ready = true) (real : R)
    (ts : UInt64) : PriceLeaves o (o.compareToReal real ts) := by
  refine Or.inl fun hcout => ?_
  rw [compareToReal_cout, if_pos h] at hcout
  simp at hcout

/-- **One call.**  Prices leave it from legs within `max_age` exactly when, if it is a
`compareToReal` with both legs there, it finds them so. -/
theorem gate_step_iff {o : Objects R} {c : SynthCall R} (h : o.LegsInRange)
    (hc : c.timestamp.toNat < 2 ^ 63) :
    (PriceLeaves o (o.step c) → (o.step c).ethSynth.legGap ≤ 1500) ↔ ComparesInSync o c := by
  cases c with
  | update symbol price ts =>
    refine iff_of_true (fun hl => ?_) trivial
    exact ((synced_iff (legsInRange_step o _ h hc)).mp (synced_of_priceLeaves_update hl)).2
  | compareToReal real ts =>
    simp only [step, ComparesInSync, compareToReal_legGap]
    constructor
    · intro hgate hready
      exact hgate (priceLeaves_compareToReal hready real ts)
    · intro hsync hl
      apply hsync
      by_contra hready
      rw [Bool.not_eq_true] at hready
      rw [compareToReal_of_not_ready hready] at hl
      simp [PriceLeaves] at hl

/-- **Which runs keep the leg gate.**  Whatever the arithmetic and the attachments, a run of a fresh
engine lets prices leave only from legs within `max_age` exactly when each `compareToReal`, and the
`getSynthetic` read at the end, finds the legs so. -/
theorem gateHeld_iff (o : Objects R) (label : String) (wiring : Wiring)
    (calls : List (SynthCall R)) (hcalls : ∀ c ∈ calls, c.timestamp.toNat < 2 ^ 63) :
    GateHeld { o with ethSynth := new label wiring } calls ↔
      ReadsInSync { o with ethSynth := new label wiring } calls := by
  have hzero : (0 : UInt64).toNat < 2 ^ 63 := by decide
  have hfresh : LegsInRange { o with ethSynth := (new label wiring : SyntheticSpotSynth R) } :=
    ⟨hzero, hzero⟩
  refine and_congr ?_ ?_
  · exact atEachCall_congr legsInRange_step (fun _ _ h hc => gate_step_iff h hc) hfresh
      (atEachCall_of_forall hcalls _)
  · simp only [getSynthetic]
    split
    · next h => simp [h]
    · next h => simp [h]

/-- A BTCUSDT tick 100 seconds after the ETHBTC tick: `compareToReal` still prices the pair. -/
theorem not_gateHeld_stale_leg :
    ¬ GateHeld (mainObjects : Objects ℚ)
      [.update "ETHBTC" (1 / 20) 1000, .update "BTCUSDT" 40000 101000,
        .compareToReal 1990 101000] := by
  intro h
  obtain ⟨⟨-, -, hgate, -⟩, -⟩ := h
  exact absurd (hgate (priceLeaves_compareToReal (by decide +kernel) _ _)) (by decide +kernel)

/-- Legs 400 ms apart, at a `compareToReal` and a read. -/
theorem gateHeld_iff_synced_run :
    let calls : List (SynthCall ℚ) :=
      [.update "ETHBTC" (1 / 20) 1000, .update "BTCUSDT" 40000 1400, .compareToReal 1990 1500]
    (∀ c ∈ calls, c.timestamp.toNat < 2 ^ 63) ∧ GateHeld mainObjects calls := by
  have hcalls : ∀ c ∈ ([.update "ETHBTC" (1 / 20) 1000, .update "BTCUSDT" 40000 1400,
      .compareToReal 1990 1500] : List (SynthCall ℚ)), c.timestamp.toNat < 2 ^ 63 := by
    decide +kernel
  refine ⟨hcalls, (gateHeld_iff mainObjects "ETHUSDT (Synthetic)" mainWiring _ hcalls).mpr ?_⟩
  refine ⟨⟨trivial, trivial, fun _ => ?_, trivial⟩, fun _ _ => ?_⟩ <;> decide +kernel

end Objects

end SyntheticArbitrage
