import SyntheticArbitrage.SpotSynth.Basic

/-!
# The real price in the mispricing log

`update` logs each synced pair against the stored `real_ethusdt`.  That field has no ready flag: it
starts at `0.0`, and `compareToReal` skips it while a leg is missing.

* `realEthusdt_run`: what the field holds after a run, in terms of the `compareToReal` calls made.
* `RealPriceLogged`: the rows and alerts of `update` carry the price of the most recent
  `compareToReal`.
* `realPriceLogged_iff`: so they do exactly when every synced `update` follows a `compareToReal`
  that found both legs, or that passed `0`.
-/

namespace SyntheticArbitrage

variable {R : Type} [DoubleOps R]

/-- The price passed to a call of `compareToReal`. -/
def SynthCall.real (c : SynthCall R) : Option R := c.compared.map Prod.fst

/-- The price passed to the most recent `compareToReal`. -/
def lastReal (calls : List (SynthCall R)) : Option R := (calls.filterMap SynthCall.real).getLast?

namespace Objects

open SyntheticSpotSynth

/-- The rows that a call of `update` logs carry the price of the most recent `compareToReal`, and
so do its alerts; before the first `compareToReal` there are none. -/
def RealPriceLogged (o : Objects R) (calls : List (SynthCall R)) : Prop :=
  ∀ pre symbol price ts post, calls = pre ++ .update symbol price ts :: post →
    let before := run step o pre
    let after := before.update symbol price ts
    (∀ row ∈ since before.ethLogger.logfile after.ethLogger.logfile,
        lastReal pre = some row.realPrice) ∧
      ∀ diff ∈ since before.ethLogger.alerts after.ethLogger.alerts,
        ∃ r, lastReal pre = some r ∧ diff = after.ethSynth.product - r

/-- The `compareToReal` calls of a run: the price passed, and whether both legs were there. -/
def compares (o : Objects R) (calls : List (SynthCall R)) : List (R × Bool) :=
  outputs step (fun o c => c.real.toList.map fun r => (r, o.ethSynth.ready)) o calls

/-- Each `update` that finds the legs in sync comes after a `compareToReal`, and the most recent one
found both legs or passed `0`. -/
def RealPriceKnown (o : Objects R) (calls : List (SynthCall R)) : Prop :=
  ∀ pre symbol price ts post, calls = pre ++ .update symbol price ts :: post →
    ((run step o pre).ethSynth.setLeg symbol price ts).synced = true →
      ∃ r found, (compares o pre).getLast? = some (r, found) ∧ (found = true ∨ r = 0)

/-! ## What the field holds -/

theorem compares_concat (o : Objects R) (calls : List (SynthCall R)) (c : SynthCall R) :
    compares o (calls ++ [c]) =
      compares o calls ++ c.real.toList.map fun r => (r, (run step o calls).ethSynth.ready) :=
  outputs_concat o calls c

theorem compares_fst (o : Objects R) (calls : List (SynthCall R)) :
    (compares o calls).map Prod.fst = calls.filterMap SynthCall.real := by
  induction calls generalizing o with
  | nil => rfl
  | cons c calls ih =>
    have hcons : compares o (c :: calls) =
        (c.real.toList.map fun r => (r, o.ethSynth.ready)) ++ compares (o.step c) calls := rfl
    rw [hcons, List.map_append, ih]
    cases c <;> rfl

theorem lastReal_eq (o : Objects R) (calls : List (SynthCall R)) :
    lastReal calls = (compares o calls).getLast?.map Prod.fst := by
  rw [lastReal, ← compares_fst o, List.getLast?_map]

omit [DoubleOps R] in
theorem ready_setLeg {s : SyntheticSpotSynth R} (h : s.ready = true) (symbol : String) (price : R)
    (ts : UInt64) : (s.setLeg symbol price ts).ready = true := by
  simp only [ready, Bool.and_eq_true] at h ⊢
  unfold setLeg
  split_ifs
  · exact ⟨rfl, h.2⟩
  · exact ⟨h.1, rfl⟩
  · exact h

theorem realEthusdt_of_not_ready (o : Objects R) (label : String) (wiring : Wiring)
    (calls : List (SynthCall R)) :
    let o' := run step { o with ethSynth := new label wiring } calls
    o'.ethSynth.ready = false → o'.ethSynth.realEthusdt = 0 := by
  intro o'
  refine run_invariant (P := fun _ => True)
    (I := fun o : Objects R => o.ethSynth.ready = false → o.ethSynth.realEthusdt = 0)
    ?_ calls (fun _ => rfl) (fun _ _ => trivial)
  intro o c ih _
  cases c with
  | update symbol price ts =>
    simp only [step, update_ready, update_realEthusdt]
    intro h
    apply ih
    by_contra hready
    rw [Bool.not_eq_false] at hready
    rw [ready_setLeg hready] at h
    cases h
  | compareToReal real ts =>
    simp only [step, compareToReal_ready, compareToReal_realEthusdt]
    intro h
    rw [h]
    exact ih h

/-- **The stored real price** is that of the most recent `compareToReal` if it found both legs, and
`0.0` otherwise. -/
theorem realEthusdt_run (o : Objects R) (label : String) (wiring : Wiring)
    (calls : List (SynthCall R)) :
    (run step { o with ethSynth := new label wiring } calls).ethSynth.realEthusdt =
      match (compares { o with ethSynth := new label wiring } calls).getLast? with
      | some (r, true) => r
      | _ => 0 := by
  induction calls using List.reverseRecOn with
  | nil => rfl
  | append_singleton calls c ih =>
    rw [run_concat, compares_concat]
    cases c with
    | update symbol price ts =>
      simp only [step, update_realEthusdt, SynthCall.real, SynthCall.compared, Option.map_none,
        Option.toList_none, List.map_nil, List.append_nil]
      exact ih
    | compareToReal real ts =>
      simp only [step, compareToReal_realEthusdt, SynthCall.real, SynthCall.compared,
        Option.map_some, Option.toList_some, List.map_cons, List.map_nil, List.getLast?_concat]
      cases h : (run step { o with ethSynth := new label wiring } calls).ethSynth.ready with
      | true => rfl
      | false => exact realEthusdt_of_not_ready o label wiring calls h

/-! ## What `update` logs -/

theorem update_alerts (o : Objects R) (symbol : String) (price : R) (ts : UInt64) :
    (o.update symbol price ts).ethLogger.alerts = o.ethLogger.alerts ++
      if (o.ethSynth.setLeg symbol price ts).synced && o.ethSynth.mispricingLogger &&
          decide (o.ethLogger.threshold ≤ DoubleOps.abs
            ((o.ethSynth.setLeg symbol price ts).product - o.ethSynth.realEthusdt)) then
        [(o.ethSynth.setLeg symbol price ts).product - o.ethSynth.realEthusdt]
      else [] := by
  rw [update_ethLogger]
  split
  · next h =>
    rw [MispricingLogger.log_alerts, h, Bool.true_and]
    simp only [decide_eq_true_eq]
  · next h =>
    rw [Bool.not_eq_true] at h
    rw [h, Bool.false_and, if_neg Bool.false_ne_true, List.append_nil]

/-- With a logger attached, the real prices logged by one `update` are the wanted one exactly when,
if the legs are in sync, the stored price is. -/
theorem logged_iff {o : Objects R} (hlogger : o.ethSynth.mispricingLogger = true) (symbol : String)
    (price : R) (ts : UInt64) (wanted : Option R) :
    ((∀ row ∈ since o.ethLogger.logfile (o.update symbol price ts).ethLogger.logfile,
        wanted = some row.realPrice) ∧
      ∀ diff ∈ since o.ethLogger.alerts (o.update symbol price ts).ethLogger.alerts,
        ∃ r, wanted = some r ∧ diff = (o.update symbol price ts).ethSynth.product - r) ↔
    ((o.ethSynth.setLeg symbol price ts).synced = true → wanted = some o.ethSynth.realEthusdt) := by
  rw [update_logfile, update_alerts, since_append, since_append, hlogger, update_product]
  cases hs : (o.ethSynth.setLeg symbol price ts).synced with
  | false => simp
  | true =>
    simp only [Bool.and_true, if_true, List.mem_singleton, forall_eq, true_implies,
      and_iff_left_iff_imp, Bool.true_and, decide_eq_true_eq]
    intro hwanted diff hdiff
    split at hdiff
    · rw [List.mem_singleton] at hdiff
      exact ⟨_, hwanted, hdiff⟩
    · cases hdiff

/-- **Which runs log the real price.**  With a mispricing logger attached to a fresh engine, the
rows and alerts of `update` carry the price of the most recent `compareToReal` exactly when each
synced `update` follows a `compareToReal` that found both legs or passed `0`. -/
theorem realPriceLogged_iff (o : Objects R) (label : String) (wiring : Wiring)
    (calls : List (SynthCall R)) :
    RealPriceLogged
        { o with ethSynth := new label { wiring with mispricingLogger := true } } calls ↔
      RealPriceKnown
        { o with ethSynth := new label { wiring with mispricingLogger := true } } calls := by
  refine forall₅_congr fun pre symbol price ts post => imp_congr_right fun _ => ?_
  have hlogger : (run step
      { o with ethSynth := new label { wiring with mispricingLogger := true } }
      pre).ethSynth.mispricingLogger = true :=
    congrArg Wiring.mispricingLogger (run_toWiring _ pre)
  refine (logged_iff hlogger symbol price ts (lastReal pre)).trans (imp_congr_right fun _ => ?_)
  rw [lastReal_eq { o with ethSynth := new label { wiring with mispricingLogger := true } },
    realEthusdt_run]
  cases hlast : (compares { o with
      ethSynth := new label { wiring with mispricingLogger := true } } pre).getLast? with
  | none => simp
  | some last =>
    obtain ⟨r, found⟩ := last
    cases found <;> simp

/-- The first synced pair of legs is logged against `0` before any real price has come. -/
theorem not_realPriceLogged_first_pair :
    ¬ RealPriceLogged (mainObjects : Objects ℚ)
      [.update "ETHBTC" (1 / 20) 1000, .update "BTCUSDT" 40000 1400] := by
  intro h
  have hrow := (h [.update "ETHBTC" (1 / 20) 1000] "BTCUSDT" 40000 1400 [] rfl).1
    ⟨1400, 2000, 0, 2000⟩ (by decide +kernel)
  cases hrow

end Objects

end SyntheticArbitrage
