import SyntheticArbitrage.Feed.Overlay
import SyntheticArbitrage.Lib.Greedy

/-!
# The comparisons of a run

Each trade of ETHUSDT that is no part of an array, once both legs have a quote, is compared with the
synthetic price.  Everything that the spot engine writes about real prices is about these.

* `comparisons`: the comparisons of the news, each with the legs and the last deltas.
* `ComparisonsShown`: the snapshot file, the monitor, the evaluations and the signals are the
  comparisons, those that are spikes, and those that are off by the threshold and do not repeat the
  time of the last signal.
* `comparisonsShown_run`: so it is after every run of messages of both feeds.
-/

namespace SyntheticArbitrage

/-- A comparison of the real price with the synthetic one. -/
structure Comparison (R : Type) where
  ts : UInt64
  ethbtc : R
  btcusdt : R
  real : R
  /-- The deltas in the buffer after the comparison. -/
  recent : List R

namespace Comparison

variable {R : Type} [DoubleOps R] (c : Comparison R)

def synthetic : R := c.ethbtc * c.btcusdt

def delta : R := c.synthetic - c.real

def snapshotRow : SnapshotRow R := ⟨c.ts, c.ethbtc, c.btcusdt, c.real, c.synthetic, c.delta⟩

def mispricingRow : MispricingRow R := ⟨c.ts, c.synthetic, c.real, c.delta⟩

def monitor : Line R :=
  .monitor c.btcusdt c.ethbtc c.real c.synthetic (c.real - c.synthetic)

def evaluate : Line R := .evaluate c.delta c.ts

def signal : Line R := .signal c.synthetic c.ts c.delta

def spike : Bool :=
  decide (SyntheticSpotSynth.spikeThreshold ≤ DoubleOps.abs (Display.average c.recent))

def exceeds : Bool := decide (SyntheticSpotSynth.triggerThreshold ≤ DoubleOps.abs c.delta)

end Comparison

section Reference

variable {R : Type} [DoubleOps R]

open Display

def comparison (past : List (News R)) (n : News R) : List (Comparison R) :=
  match n.realTrade, latest (News.quote "ETHBTC") past, latest (News.quote "BTCUSDT") past with
  | some (real, ts), some ethbtc, some btcusdt =>
    [{ ts, ethbtc, btcusdt, real
       recent := Window.lastN 2 (deltas past ++ [ethbtc * btcusdt - real]) }]
  | _, _, _ => []

def comparisons (ns : List (News R)) : List (Comparison R) :=
  outputs (fun past n => past ++ [n]) comparison [] ns

/-- The comparisons that are signals: off by the threshold, and of another time than the signal
before.  The cooldown `0.2` is converted to `0`, so only a repeated time is held back. -/
def signalled (ns : List (News R)) : List (Comparison R) :=
  Greedy.greedy (fun a b => a.ts ≠ b.ts) none ((comparisons ns).filter (·.exceeds))

end Reference

/-! ## What the objects show -/

namespace Line

variable {R : Type}

def isMonitor : Line R → Bool
  | monitor _ _ _ _ _ => true
  | _ => false

def isEvaluate : Line R → Bool
  | evaluate _ _ => true
  | _ => false

def isSignal : Line R → Bool
  | signal _ _ _ => true
  | _ => false

end Line

/-- What the spot engine has written about the comparisons of the news. -/
structure ComparisonsShown {R : Type} [DoubleOps R] (ns : List (News R)) (o : Objects R) :
    Prop where
  snapshots : o.ethSnapshotLogger.out = (comparisons ns).map Comparison.snapshotRow
  monitors : o.cout.filter Line.isMonitor = (comparisons ns).map Comparison.monitor
  evaluations : o.cout.filter Line.isEvaluate =
    ((comparisons ns).filter Comparison.spike).map Comparison.evaluate
  signals : o.cout.filter Line.isSignal = (signalled ns).map Comparison.signal
  rows : ((comparisons ns).map Comparison.mispricingRow).Sublist o.ethLogger.logfile

/-! ## One piece of news -/

section Step

variable {R : Type} [DoubleOps R]

open Display SyntheticSpotSynth

def engineComparison (s : SyntheticSpotSynth R) (real : R) (ts : UInt64) : Comparison R where
  ts := ts
  ethbtc := s.ethbtc
  btcusdt := s.btcusdt
  real := real
  recent := (s.buffer.add (s.product - real)).buffer.items

theorem comparison_eq {past : List (News R)} {s : SyntheticSpotSynth R} (h : Shows past s)
    (n : News R) :
    comparison past n = (n.synthCall.bind SynthCall.compared).elim []
      fun r => if s.ready then [engineComparison s r.1 r.2] else [] := by
  have hrecent : ∀ d, Window.lastN 2 (deltas past ++ [d]) = (s.buffer.add d).buffer.items := by
    intro d
    rw [MispricingBuffer.add_items, h.items, h.maxSize, Window.lastN_lastN_append]
  rw [comparison, realTrade_eq_compared, h.ethbtc, h.btcusdt]
  cases n.synthCall.bind SynthCall.compared with
  | none => rfl
  | some r =>
    rw [ready, Option.elim_some]
    cases s.readyEthbtc with
    | false => rfl
    | true =>
      cases s.readyBtcusdt with
      | false => rfl
      | true =>
        simp only [if_true, Bool.and_self, hrecent]
        rfl

theorem comparisons_concat (past : List (News R)) (n : News R) :
    comparisons (past ++ [n]) = comparisons past ++ comparison past n := by
  rw [comparisons, outputs_concat, run_history_self]
  rfl

theorem spike_eq (s : SyntheticSpotSynth R) (real : R) (ts : UInt64) :
    (s.buffer.add (s.product - real)).isPersistentSpike spikeThreshold =
      (engineComparison s real ts).spike := rfl

omit [DoubleOps R] in
/-- Without a cooldown only a repeated time is held back. -/
theorem passed_eq {e : ArbOpportunityEngine} {last : Option (Comparison R)}
    (hcooldown : e.cooldown = 0) (hlast : e.lastTrigger "ETHUSDT" = last.map Comparison.ts)
    (ts : UInt64) : e.passed "ETHUSDT" ts = decide (∀ l ∈ last, l.ts ≠ ts) := by
  rw [ArbOpportunityEngine.passed, hlast, hcooldown]
  cases last with
  | none => simp
  | some l =>
    have hpos : 0 < ts - l.ts ↔ l.ts ≠ ts := by
      rw [UInt64.pos_iff_ne_zero, ne_eq, ne_eq, UInt64.sub_eq_iff_eq_add, UInt64.zero_add]
      exact not_congr eq_comm
    simp [hpos]

structure Compares (ns : List (News R)) (o : Objects R) : Prop where
  shows : Shows ns o.ethSynth
  wiring : o.ethSynth.toWiring = Objects.mainWiring
  cooldown : o.ethArbEngine.cooldown = 0
  lastTrigger : o.ethArbEngine.lastTrigger "ETHUSDT" = (signalled ns).getLast?.map Comparison.ts
  shown : ComparisonsShown ns o

theorem Compares.of_quiet {past : List (News R)} {n : News R} {o o' : Objects R}
    (h : Compares past o) (hshows : Shows (past ++ [n]) o'.ethSynth)
    (hwiring : o'.ethSynth.toWiring = o.ethSynth.toWiring)
    (harb : o'.ethArbEngine = o.ethArbEngine) (hnone : comparison past n = [])
    (hsnapshot : o'.ethSnapshotLogger.out = o.ethSnapshotLogger.out)
    (hcout : ∃ lines, o'.cout = o.cout ++ lines ∧ ∀ l ∈ lines, l.isMonitor = false ∧
      l.isEvaluate = false ∧ l.isSignal = false)
    (hrows : o.ethLogger.logfile.Sublist o'.ethLogger.logfile) :
    Compares (past ++ [n]) o' := by
  have hsame : comparisons (past ++ [n]) = comparisons past := by
    rw [comparisons_concat, hnone, List.append_nil]
  have hsignalled : signalled (past ++ [n]) = signalled past := by rw [signalled, hsame]; rfl
  obtain ⟨lines, hlines, hquiet⟩ := hcout
  have hfilter : ∀ p : Line R → Bool, (∀ l ∈ lines, p l = false) →
      o'.cout.filter p = o.cout.filter p := by
    intro p hp
    have hnil : lines.filter p = [] := by
      rw [List.filter_eq_nil_iff]
      intro l hl
      rw [hp l hl]
      exact Bool.false_ne_true
    rw [hlines, List.filter_append, hnil, List.append_nil]
  refine ⟨hshows, hwiring.trans h.wiring, ?_, ?_, ?_, ?_, ?_, ?_, ?_⟩
  · rw [harb]
    exact h.cooldown
  · rw [harb, hsignalled]
    exact h.lastTrigger
  · rw [hsnapshot, hsame]
    exact h.shown.snapshots
  · rw [hfilter _ fun l hl => (hquiet l hl).1, hsame]
    exact h.shown.monitors
  · rw [hfilter _ fun l hl => (hquiet l hl).2.1, hsame]
    exact h.shown.evaluations
  · rw [hfilter _ fun l hl => (hquiet l hl).2.2, hsignalled]
    exact h.shown.signals
  · rw [hsame]
    exact h.shown.rows.trans hrows

theorem compareToReal_logfile {o : Objects R} (hready : o.ethSynth.ready = true)
    (hlog : o.ethSynth.mispricingLogger = true) (real : R) (ts : UInt64) :
    (o.compareToReal real ts).ethLogger.logfile =
      o.ethLogger.logfile ++ [(engineComparison o.ethSynth real ts).mispricingRow] := by
  have htry : ∀ o : Objects R, (o.tryTrigger real ts).ethLogger = o.ethLogger := by
    intro o
    unfold Objects.tryTrigger
    dsimp only
    split_ifs <;> rfl
  rw [Objects.compareToReal_of_ready hready, htry]
  simp only [Objects.reprice, hlog, if_true, MispricingLogger.log_logfile]
  rfl

theorem fires_eq {past : List (News R)} {o : Objects R} (h : Compares past o)
    (hready : o.ethSynth.ready = true) (real : R) (ts : UInt64) :
    o.fires real ts = ((engineComparison o.ethSynth real ts).exceeds &&
      decide (∀ l ∈ (signalled past).getLast?, l.ts ≠ ts)) := by
  have harb : o.ethSynth.arbEngine = true := congrArg Wiring.arbEngine h.wiring
  rw [Objects.fires, hready, harb, passed_eq h.cooldown h.lastTrigger]
  rfl

/-- One more comparison is a signal when it is off by the threshold and does not repeat the time of
the last signal. -/
theorem signalled_concat {past : List (News R)} {n : News R} {k : Comparison R}
    (h : comparison past n = [k]) :
    signalled (past ++ [n]) = signalled past ++
      if (k.exceeds && decide (∀ l ∈ (signalled past).getLast?, l.ts ≠ k.ts)) then [k]
      else [] := by
  rw [signalled, comparisons_concat, h, List.filter_append]
  cases hk : k.exceeds with
  | false =>
    rw [List.filter_cons_of_neg (by simp [hk]), List.filter_nil, List.append_nil, Bool.false_and,
      if_neg Bool.false_ne_true, List.append_nil]
    rfl
  | true =>
    rw [List.filter_cons_of_pos hk, List.filter_nil, Greedy.greedy_concat, Option.or_none,
      Bool.true_and]
    simp only [decide_eq_true_eq]
    rfl

def Comparison.lines (k : Comparison R) (fired : Bool) : List (Line R) :=
  [k.monitor] ++ (if k.spike then [k.evaluate] else []) ++ if fired then [k.signal] else []

theorem Comparison.filter_lines (k : Comparison R) (fired : Bool) :
    (k.lines fired).filter Line.isMonitor = [k.monitor] ∧
      (k.lines fired).filter Line.isEvaluate = (if k.spike then [k.evaluate] else []) ∧
      (k.lines fired).filter Line.isSignal = if fired then [k.signal] else [] := by
  rw [Comparison.lines]
  cases k.spike <;> cases fired <;> exact ⟨rfl, rfl, rfl⟩

theorem Compares.of_comparison {past : List (News R)} {n : News R} {o : Objects R} {real : R}
    {ts : UInt64} (h : Compares past o)
    (hshows : Shows (past ++ [n]) (o.compareToReal real ts).ethSynth)
    (hready : o.ethSynth.ready = true)
    (hcomparison : comparison past n = [engineComparison o.ethSynth real ts]) :
    Compares (past ++ [n]) (o.compareToReal real ts) := by
  have harb : o.ethSynth.arbEngine = true := congrArg Wiring.arbEngine h.wiring
  have hsnap : o.ethSynth.snapshotLogger = true := congrArg Wiring.snapshotLogger h.wiring
  have hlog : o.ethSynth.mispricingLogger = true := congrArg Wiring.mispricingLogger h.wiring
  have hall := comparisons_concat past n
  have hsignal := signalled_concat hcomparison
  have hfires := fires_eq h hready real ts
  have hcout : (o.compareToReal real ts).cout =
      o.cout ++ (engineComparison o.ethSynth real ts).lines (o.fires real ts) := by
    rw [Objects.compareToReal_cout, hready, if_pos rfl, harb, Bool.true_and,
      spike_eq o.ethSynth real ts]
    rfl
  have hengine : (o.compareToReal real ts).ethArbEngine =
      if (engineComparison o.ethSynth real ts).exceeds then
        (o.ethArbEngine.shouldTrigger "ETHUSDT" ts).1
      else o.ethArbEngine := by
    rw [Objects.compareToReal_ethArbEngine, hready, harb]
    rfl
  obtain ⟨hmonitor, hevaluate, hsignalLine⟩ :=
    (engineComparison o.ethSynth real ts).filter_lines (o.fires real ts)
  have hfires' : ((engineComparison o.ethSynth real ts).exceeds &&
      decide (∀ l ∈ (signalled past).getLast?, l.ts ≠ (engineComparison o.ethSynth real ts).ts)) =
      o.fires real ts := hfires.symm
  rw [hcomparison] at hall
  rw [hfires'] at hsignal
  refine ⟨hshows, (Objects.compareToReal_toWiring o real ts).trans h.wiring, ?_, ?_, ?_, ?_, ?_,
    ?_, ?_⟩
  · rw [hengine]
    split
    · rw [ArbOpportunityEngine.shouldTrigger_cooldown, h.cooldown]
    · exact h.cooldown
  · have hpassed := passed_eq h.cooldown h.lastTrigger ts
    rw [hsignal, hengine, hfires, ← hpassed]
    cases (engineComparison o.ethSynth real ts).exceeds with
    | false => simpa using h.lastTrigger
    | true =>
      rw [if_pos rfl, ArbOpportunityEngine.shouldTrigger_lastTrigger, Bool.true_and]
      cases o.ethArbEngine.passed "ETHUSDT" ts with
      | false => simpa using h.lastTrigger
      | true => simp [engineComparison]
  · rw [Objects.compareToReal_snapshot, hready, hsnap, h.shown.snapshots, hall, List.map_append]
    rfl
  · rw [hcout, List.filter_append, hmonitor, h.shown.monitors, hall, List.map_append]
    rfl
  · rw [hcout, List.filter_append, hevaluate, h.shown.evaluations, hall, List.filter_append,
      List.map_append, List.filter_singleton]
    cases (engineComparison o.ethSynth real ts).spike <;> rfl
  · rw [hcout, List.filter_append, hsignalLine, h.shown.signals, hsignal, List.map_append]
    cases o.fires real ts <;> rfl
  · rw [compareToReal_logfile hready hlog, hall, List.map_append]
    exact h.shown.rows.append (List.Sublist.refl _)

/-- **One piece of news.** -/
theorem Compares.step {past : List (News R)} {o : Objects R} (h : Compares past o)
    (n : News R) : Compares (past ++ [n]) (n.synthCall.elim o o.step) := by
  have hshows := h.shows.step n
  have hcomparison := comparison_eq h.shows n
  cases hc : n.synthCall with
  | none =>
    rw [hc] at hshows hcomparison
    exact h.of_quiet hshows rfl rfl hcomparison rfl
      ⟨[], (List.append_nil _).symm, fun _ hl => absurd hl List.not_mem_nil⟩
      (List.Sublist.refl _)
  | some c =>
    rw [hc] at hshows hcomparison
    cases c with
    | update symbol price ts =>
      refine h.of_quiet hshows (Objects.update_toWiring o symbol price ts)
        (Objects.update_ethArbEngine o symbol price ts) hcomparison
        (congrArg _ (Objects.update_ethSnapshotLogger o symbol price ts))
        ⟨_, Objects.update_cout o symbol price ts, ?_⟩ ?_
      · intro l hl
        split at hl
        · rw [List.mem_singleton] at hl
          rw [hl]
          exact ⟨rfl, rfl, rfl⟩
        · exact absurd hl List.not_mem_nil
      · show o.ethLogger.logfile.Sublist (o.update symbol price ts).ethLogger.logfile
        rw [Objects.update_logfile]
        exact List.sublist_append_left _ _
    | compareToReal real ts =>
      rw [Option.bind_some, SynthCall.compared, Option.elim_some] at hcomparison
      cases hready : o.ethSynth.ready with
      | true =>
        rw [hready, if_pos rfl] at hcomparison
        exact h.of_comparison hshows hready hcomparison
      | false =>
        have hsame : o.compareToReal real ts = o :=
          Objects.compareToReal_of_not_ready hready real ts
        rw [hready, if_neg Bool.false_ne_true] at hcomparison
        rw [Option.elim_some, Objects.step, hsame] at hshows ⊢
        exact h.of_quiet hshows rfl rfl hcomparison rfl
          ⟨[], (List.append_nil _).symm, fun _ hl => absurd hl List.not_mem_nil⟩
          (List.Sublist.refl _)

end Step

/-! ## Runs -/

namespace App

variable {R : Type} [DoubleScan R]

/-- **The comparisons of a run.**  After any messages of the two feeds, up to one on which `process`
aborts, the snapshot file, the monitor, the evaluations and the signals are those of the comparisons
of their news. -/
theorem comparisonsShown_run (messages : List (FeedMessage R)) :
    ComparisonsShown (messages.flatMap FeedMessage.news)
      (run receive initial messages).objects := by
  rw [run_receive]
  have hstart : Compares [] (initial : App R).objects :=
    ⟨⟨rfl, rfl, rfl, rfl⟩, rfl, rfl, rfl, ⟨rfl, rfl, rfl, rfl, List.Sublist.refl _⟩⟩
  have hrun := run_history (H := fun past (a : App R) => Compares past a.objects) hstart
    (fun past a n h => by
      rw [hear_objects]
      exact h.step n) (messages.flatMap FeedMessage.news)
  exact hrun.shown

end App

end SyntheticArbitrage
