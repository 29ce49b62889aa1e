import SyntheticArbitrage.SpotSynth.Pipeline

/-!
# The average mispricing

The spot engine feeds its buffer with the delta of every `compareToReal` that finds both legs.

* `deltas`: those deltas, read from the calls alone.
* `buffer_run`: the buffer of the engine has been given exactly these.
* `mispricing_law`: the sliding window of the buffer, and the average that the engine gives out.
-/

namespace SyntheticArbitrage.Objects

open SyntheticSpotSynth Reference

/-- The delta of a `compareToReal` made once both legs were there. -/
def delta (past : List (SynthCall ℚ)) : SynthCall ℚ → List ℚ
  | .update _ _ _ => []
  | .compareToReal r _ =>
    match lastPrice "ETHBTC" past, lastPrice "BTCUSDT" past with
    | some e, some b => [e * b - r]
    | _, _ => []

/-- The deltas of the `compareToReal` calls made once both legs were there, in order. -/
def deltas (calls : List (SynthCall ℚ)) : List ℚ :=
  outputs (fun past c => past ++ [c]) delta [] calls

theorem deltas_concat (calls : List (SynthCall ℚ)) (c : SynthCall ℚ) :
    deltas (calls ++ [c]) = deltas calls ++ delta calls c := by
  rw [deltas, outputs_concat, run_history_self]
  rfl

theorem delta_compareToReal {past : List (SynthCall ℚ)} {s : SyntheticSpotSynth ℚ}
    (h : Remembers past s) (r : ℚ) (t : UInt64) :
    delta past (.compareToReal r t) = if s.ready then [s.product - r] else [] := by
  simp only [delta, h.ethbtc, h.btcusdt, ready, product]
  by_cases he : s.readyEthbtc = true
  · by_cases hb : s.readyBtcusdt = true <;> simp [he, hb]
  · simp [he]

/-- **One call** adds its delta to the buffer. -/
theorem buffer_step {past : List (SynthCall ℚ)} {o : Objects ℚ} (h : Remembers past o.ethSynth)
    (c : SynthCall ℚ) :
    (o.step c).ethSynth.buffer = run MispricingBuffer.add o.ethSynth.buffer (delta past c) := by
  cases c with
  | update symbol price t => exact update_buffer o symbol price t
  | compareToReal r t =>
    rw [step, compareToReal_ethSynth, delta_compareToReal h]
    cases o.ethSynth.ready with
    | false => rfl
    | true => rfl

/-- **A run** of a new engine gives the deltas of its calls to the buffer. -/
theorem buffer_run (o : Objects ℚ) (label : String) (wiring : Wiring)
    (calls : List (SynthCall ℚ)) :
    (run step { o with ethSynth := new label wiring } calls).ethSynth.buffer =
      run MispricingBuffer.add (MispricingBuffer.new 2) (deltas calls) := by
  have hzero : Remembers [] (new label wiring : SyntheticSpotSynth ℚ) ∧
      (new label wiring : SyntheticSpotSynth ℚ).buffer =
        run MispricingBuffer.add (MispricingBuffer.new 2) (deltas []) := ⟨⟨rfl, rfl⟩, rfl⟩
  have hstep : ∀ past (o : Objects ℚ) c,
      Remembers past o.ethSynth ∧
        o.ethSynth.buffer = run MispricingBuffer.add (MispricingBuffer.new 2) (deltas past) →
      Remembers (past ++ [c]) (o.step c).ethSynth ∧ (o.step c).ethSynth.buffer =
        run MispricingBuffer.add (MispricingBuffer.new 2) (deltas (past ++ [c])) := by
    intro past o c h
    refine ⟨h.1.step c, ?_⟩
    rw [buffer_step h.1, h.2, deltas_concat, run_append]
  have hsim : Remembers calls (run step { o with ethSynth := new label wiring } calls).ethSynth ∧
      _ = _ := run_history hzero hstep calls
  exact hsim.2

/-- **The law of the mispricing buffer**: for every window size, every sequence of deltas and every
positive threshold the buffer is a sliding window with its mean and its spikes; and after any run of
a new engine the average mispricing is the mean of the last two deltas, or of as many as there
are. -/
theorem mispricing_law :
    (∀ (windowSize : ℕ) (ds : List ℚ) (threshold : ℚ), 0 < threshold →
      MispricingBuffer.WindowLaw windowSize ds threshold
        (run MispricingBuffer.add (MispricingBuffer.new windowSize) ds)) ∧
    ∀ (o : Objects ℚ) (label : String) (wiring : Wiring) (calls : List (SynthCall ℚ)),
      (run step { o with ethSynth := new label wiring } calls).ethSynth.getAverageMispricing =
        Mean.mean ((deltas calls).drop ((deltas calls).length - 2)) := by
  refine ⟨fun windowSize ds threshold h => MispricingBuffer.windowLaw windowSize ds h, ?_⟩
  intro o label wiring calls
  rw [getAverageMispricing, MispricingBuffer.average_eq, buffer_run,
    MispricingBuffer.run_add_new_items]
  rfl

/-- Three deltas in a window of two. -/
theorem mispricing_law_three :
    (0 : ℚ) < 1 ∧ MispricingBuffer.WindowLaw 2 [5, 1, 3] 1
      (run MispricingBuffer.add (MispricingBuffer.new 2) [5, 1, 3]) :=
  ⟨by norm_num, mispricing_law.1 2 [5, 1, 3] 1 (by norm_num)⟩

end SyntheticArbitrage.Objects
