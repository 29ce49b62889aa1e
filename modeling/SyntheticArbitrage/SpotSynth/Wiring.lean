import SyntheticArbitrage.SpotSynth.Basic

/-!
# The ledger behind the wiring of `main`

`main` attaches the tracker to the opportunity engine, whose pointer is never read; the pointer of
`ethSynth` that `compareToReal` reads stays null.

* `SignalsRecorded`: each signal of a run is recorded as one trade, and nothing else is.
* `Unrecorded`: what is left of the ledger and of the cooldown while no signal has fired.
* `signalsRecorded_iff`: in the wiring of `main` only the runs without a signal record their
  signals.
-/

namespace SyntheticArbitrage

variable {R : Type} [DoubleOps R]

def Objects.trades (o : Objects R) : List (SimulatedTrade R) := o.tracker.pnlTracker.trades

namespace Objects

open SyntheticSpotSynth

/-- Each call appends one trade for each signal it fires, at the time of the signal, and no other;
and in every state the count that is shown as `Signals Triggered` is the number of signals. -/
def SignalsRecorded (o : Objects R) (calls : List (SynthCall R)) : Prop :=
  AtEachCall step (fun o c =>
      ∃ new, (o.step c).trades = o.trades ++ new ∧
        new.map SimulatedTrade.timestamp = since o.signals (o.step c).signals) o calls ∧
    ∀ pre post, calls = pre ++ post →
      (run step o pre).tracker.pnlTracker.getCount = (run step o pre).signals.length

/-- The call is not a `compareToReal` that finds both legs and is off by the threshold. -/
def BelowThreshold (o : Objects R) : SynthCall R → Prop
  | .update _ _ _ => True
  | .compareToReal real _ =>
    o.ethSynth.ready = true → ¬ triggerThreshold ≤ DoubleOps.abs (o.ethSynth.product - real)

/-! ## The wiring of `main` -/

/-- In the wiring of `main` the ledger stays empty, and the cooldown has no time stored before the
first signal. -/
structure Unrecorded (o : Objects R) : Prop where
  wiring : o.ethSynth.toWiring = mainWiring
  trades : o.trades = []
  lastTrigger : o.signals = [] → o.ethArbEngine.lastTrigger "ETHUSDT" = none

theorem mainObjects_unrecorded : (mainObjects : Objects R).Unrecorded where
  wiring := congrArg SyntheticSpotSynth.toWiring mainObjects_ethSynth
  trades := rfl
  lastTrigger := fun _ => rfl

theorem signals_update (o : Objects R) (symbol : String) (price : R) (ts : UInt64) :
    (o.update symbol price ts).signals = o.signals := by
  have h := signals_step o (.update symbol price ts)
  rwa [callFires, if_neg Bool.false_ne_true, List.append_nil] at h

theorem compareToReal_ethArbEngine_of_not_fires {o : Objects R} {real : R} {ts : UInt64}
    (hw : o.ethSynth.toWiring = mainWiring) (hf : o.fires real ts = false) :
    (o.compareToReal real ts).ethArbEngine = o.ethArbEngine := by
  have harb : o.ethSynth.arbEngine = true := congrArg Wiring.arbEngine hw
  rw [compareToReal_ethArbEngine]
  split
  · next hguard =>
    refine ArbOpportunityEngine.shouldTrigger_of_not_passed ?_
    rwa [fires, hguard, Bool.true_and] at hf
  · rfl

/-- **Every call keeps the ledger empty.** -/
theorem unrecorded_step (o : Objects R) (c : SynthCall R) (h : o.Unrecorded) :
    (o.step c).Unrecorded := by
  cases c with
  | update symbol price ts =>
    refine ⟨?_, ?_, ?_⟩
    · rw [step, update_toWiring, h.wiring]
    · rw [step, Objects.trades, update_tracker]
      exact h.trades
    · rw [step, signals_update, update_ethArbEngine]
      exact h.lastTrigger
  | compareToReal real ts =>
    have hpnl : o.ethSynth.pnlTracker = false := congrArg Wiring.pnlTracker h.wiring
    refine ⟨?_, ?_, ?_⟩
    · rw [step, compareToReal_toWiring, h.wiring]
    · rw [step, Objects.trades, compareToReal_tracker, hpnl, Bool.and_false,
        if_neg Bool.false_ne_true]
      exact h.trades
    · rw [signals_step, List.append_eq_nil_iff]
      rintro ⟨hsignals, hfires⟩
      have hf : o.fires real ts = false := by
        rw [← Bool.not_eq_true]
        intro hf
        rw [callFires, if_pos hf] at hfires
        cases hfires
      rw [step, compareToReal_ethArbEngine_of_not_fires h.wiring hf]
      exact h.lastTrigger hsignals

theorem unrecorded_run (calls : List (SynthCall R)) :
    (run step mainObjects calls : Objects R).Unrecorded :=
  run_invariant (P := fun _ => True) (fun o c h _ => unrecorded_step o c h) calls
    mainObjects_unrecorded (fun _ _ => trivial)

/-! ## Which runs record their signals -/

theorem not_callFires_of_belowThreshold {o : Objects R} {c : SynthCall R}
    (h : o.BelowThreshold c) : o.callFires c = false := by
  cases c with
  | update symbol price ts => rfl
  | compareToReal real ts =>
    rw [callFires, ← Bool.not_eq_true]
    intro hf
    simp only [fires, Bool.and_eq_true, decide_eq_true_eq] at hf
    exact h hf.1.1.1 hf.1.2

theorem belowThreshold_of_not_callFires {o : Objects R} {c : SynthCall R} (h : o.Unrecorded)
    (hsignals : o.signals = []) (hf : o.callFires c = false) : o.BelowThreshold c := by
  cases c with
  | update symbol price ts => trivial
  | compareToReal real ts =>
    intro hready hthreshold
    have harb : o.ethSynth.arbEngine = true := congrArg Wiring.arbEngine h.wiring
    have hpassed := ArbOpportunityEngine.passed_of_none ts (h.lastTrigger hsignals)
    simp [callFires, fires, hready, harb, hthreshold, hpassed] at hf

theorem signals_eq_nil_of_belowThreshold {calls : List (SynthCall R)}
    (h : AtEachCall step BelowThreshold (mainObjects : Objects R) calls) :
    (run step mainObjects calls : Objects R).signals = [] := by
  induction calls using List.reverseRecOn with
  | nil => rfl
  | append_singleton calls c ih =>
    obtain ⟨hcalls, hc⟩ := atEachCall_concat.mp h
    rw [run_concat, signals_step, ih hcalls, not_callFires_of_belowThreshold hc]
    rfl

/-- **In the wiring of `main`** the signals of a run are recorded exactly when it has none: when no
`compareToReal` that finds both legs is off by the threshold. -/
theorem signalsRecorded_iff (calls : List (SynthCall R)) :
    SignalsRecorded (mainObjects : Objects R) calls ↔
      AtEachCall step BelowThreshold mainObjects calls := by
  constructor
  · rintro ⟨-, hcount⟩
    have hnone : ∀ pre post, calls = pre ++ post →
        (run step mainObjects pre : Objects R).signals = [] := by
      intro pre post hcalls
      have hlen := hcount pre post hcalls
      have htrades := (unrecorded_run (R := R) pre).trades
      rw [MockPnLEngine.getCount, ← Objects.trades, htrades] at hlen
      exact List.eq_nil_of_length_eq_zero hlen.symm
    refine atEachCall_iff.mpr fun pre c post hcalls => ?_
    have hbefore := hnone pre (c :: post) hcalls
    have hafter := hnone (pre ++ [c]) post (by rw [hcalls, List.append_assoc]; rfl)
    rw [run_concat, signals_step, hbefore, List.nil_append] at hafter
    refine belowThreshold_of_not_callFires (unrecorded_run pre) hbefore ?_
    rw [← Bool.not_eq_true]
    intro hf
    rw [if_pos hf] at hafter
    cases hafter
  · intro h
    refine ⟨atEachCall_iff.mpr fun pre c post hcalls => ⟨[], ?_, ?_⟩, ?_⟩
    · have hbefore := (unrecorded_run (R := R) pre).trades
      rw [List.append_nil, hbefore]
      exact (unrecorded_step _ c (unrecorded_run pre)).trades
    · rw [hcalls, atEachCall_append] at h
      rw [signals_step, since_append, not_callFires_of_belowThreshold h.2.1]
      rfl
    · intro pre post hcalls
      rw [hcalls, atEachCall_append] at h
      rw [signals_eq_nil_of_belowThreshold h.1, MockPnLEngine.getCount, ← Objects.trades,
        (unrecorded_run pre).trades]
      rfl

/-- A fired signal that the count does not show. -/
theorem not_signalsRecorded_first_signal :
    ¬ SignalsRecorded (mainObjects : Objects ℚ)
      [.update "ETHBTC" (1 / 20) 1000, .update "BTCUSDT" 40000 1400,
        .compareToReal 1990 1500] := by
  intro h
  obtain ⟨-, hcount⟩ := h
  exact absurd (hcount _ [] (List.append_nil _).symm) (by decide +kernel)

end Objects

end SyntheticArbitrage
