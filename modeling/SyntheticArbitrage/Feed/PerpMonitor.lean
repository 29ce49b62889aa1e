import SyntheticArbitrage.Feed.Overlay
import SyntheticArbitrage.Lib.Greedy

/-!
# The perpetual monitor of a run

Each mark price of the news that comes after a spot price and a funding rate is reported beside the
price that these two make.

* `markings`: the mark prices with the inputs they are compared with, read off the news.
* `PerpMonitorShown`: the monitor reports each of them once, in order; the alerts are those off by
  more than the threshold, each more than five seconds, modulo `2 ^ 64`, after the one before.
* `perpMonitorShown_run`: so it is after every run of messages of both feeds.
-/

namespace SyntheticArbitrage

/-- A mark price, and the last spot price and funding rate before it. -/
structure Marking (R : Type) where
  ts : UInt64
  markPrice : R
  spot : R
  fundingRate : R
  nextFunding : UInt64

namespace Marking

variable {R : Type} [DoubleOps R] (k : Marking R)

/-- The hours to the next funding; the difference is taken modulo `2 ^ 64`. -/
def hours : R := DoubleOps.ofInt (k.nextFunding - k.ts).toNat / DoubleOps.lit 3600000.0

def synthetic : R := k.spot + k.fundingRate * k.spot * k.hours

def delta : R := k.markPrice - k.synthetic

/-- The delta is above the threshold of `perp`. -/
def exceeds : Bool := decide (DoubleOps.lit 1.0 < DoubleOps.abs k.delta)

/-- What the first alert is compared with: an alert at the time 0. -/
def origin : Marking R := ⟨0, 0, 0, 0, 0⟩

def report (alert : Bool) : PerpReport R where
  spot := k.spot
  fundingRate := k.fundingRate
  hours := k.hours
  synthetic := k.synthetic
  markPrice := k.markPrice
  delta := k.delta
  alert := alert

end Marking

section Reference

variable {R : Type} [DoubleOps R]

open Display

omit [DoubleOps R] in
def marking (past : List (News R)) (n : News R) : List (Marking R) :=
  match n.markPrice, latest (News.quote "BTCUSDT") past, latest News.fundingRate past with
  | some (markPrice, ts), some spot, some (fundingRate, nextFunding) =>
    [{ ts, markPrice, spot, fundingRate, nextFunding }]
  | _, _, _ => []

omit [DoubleOps R] in
def markings (ns : List (News R)) : List (Marking R) :=
  outputs (fun past n => past ++ [n]) marking [] ns

def alerting (ns : List (News R)) : List (Marking R) :=
  Greedy.greedy (fun a b => 5000 < b.ts - a.ts) (some Marking.origin)
    ((markings ns).filter (·.exceeds))

end Reference

/-- What the monitor of `perp` has printed about the markings of the news. -/
structure PerpMonitorShown {R : Type} [DoubleOps R] (ns : List (News R)) (a : App R) : Prop where
  /-- Each marking is reported, with or without an alert. -/
  reports : List.Forall₂ (fun report k => report = Marking.report k report.alert) a.perpMonitor
    (markings ns)
  /-- The markings whose reports are alerts. -/
  alerts : ((a.perpMonitor.zip (markings ns)).filter fun p => p.1.alert).map Prod.snd = alerting ns

namespace App

section Calls

variable {R : Type} [DoubleOps R]

theorem call_threshold (a : App R) (k : EngineCall R) :
    (a.call k).perp.threshold = a.perp.threshold := by
  cases k with
  | updateMark markPrice ts => rw [call, SyntheticPerpEngine.updateMark_fst]
  | _ => rfl

theorem run_call_of_unmarked (a : App R) {ks : List (EngineCall R)}
    (h : ks.filterMap marked = []) :
    (run call a ks).perpMonitor = a.perpMonitor ∧ (run call a ks).lastAlert = a.lastAlert := by
  rw [List.filterMap_eq_nil_iff] at h
  refine run_invariant (P := fun k => marked k = none)
    (I := fun b : App R => b.perpMonitor = a.perpMonitor ∧ b.lastAlert = a.lastAlert)
    (fun b k hb hk => ?_) ks ⟨rfl, rfl⟩ h
  cases k with
  | updateMark markPrice ts => cases hk
  | _ => exact hb

theorem call_updateMark {a : App R} {k : Marking R}
    (hthreshold : a.perp.threshold = DoubleOps.lit 1.0)
    (hspot : a.perp.spot = some k.spot) (hrate : a.perp.fundingRate = some k.fundingRate)
    (hnext : a.perp.nextFunding = some k.nextFunding) (hreadySpot : a.perp.readySpot = true)
    (hreadyFunding : a.perp.readyFunding = true) :
    (a.call (.updateMark k.markPrice k.ts)).perpMonitor = a.perpMonitor ++
        [k.report (k.exceeds && decide (5000 < k.ts - a.lastAlert))] ∧
      (a.call (.updateMark k.markPrice k.ts)).lastAlert =
        if k.exceeds && decide (5000 < k.ts - a.lastAlert) then k.ts else a.lastAlert := by
  have hupdate : (a.perp.updateMark a.lastAlert k.markPrice k.ts).2 =
      ((a.perp.report k.spot k.fundingRate k.nextFunding a.lastAlert k.markPrice k.ts).1,
        some
          (a.perp.report k.spot k.fundingRate k.nextFunding a.lastAlert k.markPrice k.ts).2) := by
    rw [SyntheticPerpEngine.updateMark, dif_pos ⟨hreadySpot, hreadyFunding⟩]
    simp only [hspot, hrate, hnext, Option.get_some]
  simp only [call, hupdate, SyntheticPerpEngine.report, hthreshold]
  exact ⟨rfl, rfl⟩

theorem call_updateMark_of_not_ready {a : App R} (markPrice : R) (ts : UInt64)
    (h : ¬ (a.perp.readySpot = true ∧ a.perp.readyFunding = true)) :
    (a.call (.updateMark markPrice ts)).perpMonitor = a.perpMonitor ∧
      (a.call (.updateMark markPrice ts)).lastAlert = a.lastAlert := by
  have hupdate : (a.perp.updateMark a.lastAlert markPrice ts).2 = (a.lastAlert, none) := by
    rw [SyntheticPerpEngine.updateMark, dif_neg h]
  simp only [call, hupdate]
  exact ⟨List.append_nil _, trivial⟩

end Calls

variable {R : Type} [DoubleScan R]

open Display

omit [DoubleScan R] in
theorem markings_concat (past : List (News R)) (n : News R) :
    markings (past ++ [n]) = markings past ++ marking past n := by
  rw [markings, outputs_concat, run_history_self]
  rfl

structure Monitors (ns : List (News R)) (a : App R) : Prop where
  lastAlert : a.lastAlert = ((alerting ns).getLast?.getD Marking.origin).ts
  shown : PerpMonitorShown ns a

/-- **A piece of news that makes no marking** leaves the monitor as it is. -/
theorem Monitors.of_quiet {past : List (News R)} {n : News R} {a a' : App R} (h : Monitors past a)
    (hmonitor : a'.perpMonitor = a.perpMonitor) (hlast : a'.lastAlert = a.lastAlert)
    (hnone : marking past n = []) : Monitors (past ++ [n]) a' := by
  have hsame : markings (past ++ [n]) = markings past := by
    rw [markings_concat, hnone, List.append_nil]
  have halerting : alerting (past ++ [n]) = alerting past := by rw [alerting, hsame]; rfl
  refine ⟨?_, ?_, ?_⟩
  · rw [hlast, halerting, h.lastAlert]
  · rw [hmonitor, hsame]
    exact h.shown.reports
  · rw [hmonitor, hsame, halerting]
    exact h.shown.alerts

/-- **A marking** is reported, and raises an alert when it has to. -/
theorem Monitors.of_marking {past : List (News R)} {n : News R} {a a' : App R} {k : Marking R}
    (h : Monitors past a) (hmarking : marking past n = [k])
    (hmonitor : a'.perpMonitor = a.perpMonitor ++
      [k.report (k.exceeds && decide (5000 < k.ts - a.lastAlert))])
    (hlast : a'.lastAlert =
      if k.exceeds && decide (5000 < k.ts - a.lastAlert) then k.ts else a.lastAlert) :
    Monitors (past ++ [n]) a' := by
  have hall : markings (past ++ [n]) = markings past ++ [k] := by
    rw [markings_concat, hmarking]
  have halerting : alerting (past ++ [n]) = alerting past ++
      if k.exceeds && decide (5000 < k.ts - a.lastAlert) then [k] else [] := by
    have hlastTaken : (alerting past).getLast?.or (some Marking.origin) =
        some ((alerting past).getLast?.getD Marking.origin) := by
      cases (alerting past).getLast? <;> rfl
    rw [alerting, hall, List.filter_append]
    cases hk : k.exceeds with
    | false =>
      rw [List.filter_cons_of_neg (by simp [hk])]
      simp [alerting]
    | true =>
      rw [List.filter_cons_of_pos hk, List.filter_nil, Greedy.greedy_concat, ← alerting,
        hlastTaken, h.lastAlert]
      simp
  have hlength := h.shown.reports.length_eq
  refine ⟨?_, ?_, ?_⟩
  · rw [hlast, halerting]
    split
    · rw [List.getLast?_concat]
      rfl
    · rw [List.append_nil, h.lastAlert]
  · rw [hmonitor, hall]
    exact List.rel_append h.shown.reports (List.Forall₂.cons rfl List.Forall₂.nil)
  · rw [hmonitor, hall, halerting, List.zip_append hlength, List.filter_append, List.map_append,
      h.shown.alerts]
    cases hb : (k.exceeds && decide (5000 < k.ts - a.lastAlert)) <;> rfl

theorem monitors_run (ns : List (News R)) : Monitors ns (run hear initial ns) := by
  induction ns using List.reverseRecOn with
  | nil => exact ⟨rfl, List.Forall₂.nil, rfl⟩
  | append_singleton ns n ih =>
    rw [run_concat]
    obtain ⟨hspot, hrate, hnext⟩ := perpInputs_run ns
    have hreadySpot := (perpRemembers_hear ns).readySpot
    have hreadyFunding := (perpRemembers_hear ns).readyFunding
    have hthreshold : (run hear (initial : App R) ns).perp.threshold = DoubleOps.lit 1.0 := by
      rw [run_hear]
      exact run_frame (fun a : App R => a.perp.threshold) call_threshold initial _
    cases hmark : n.markPrice with
    | none =>
      have hunmarked : n.calls.filterMap marked = [] := by rw [News.marked_news, hmark]; rfl
      obtain ⟨hmonitor, hlast⟩ := run_call_of_unmarked (run hear initial ns) hunmarked
      exact ih.of_quiet hmonitor hlast (by rw [marking, hmark])
    | some event =>
      obtain ⟨markPrice, ts⟩ := event
      have hn : n = .mark markPrice ts := by
        cases n with
        | mark price t => cases hmark; rfl
        | _ => cases hmark
      subst hn
      show Monitors _ ((run hear initial ns).call (.updateMark markPrice ts))
      cases hs : latest (News.quote "BTCUSDT") ns with
      | none =>
        rw [hs] at hspot
        have hnot : ¬ ((run hear (initial : App R) ns).perp.readySpot = true ∧
            (run hear (initial : App R) ns).perp.readyFunding = true) := by
          rw [hreadySpot, hspot]
          rintro ⟨h, -⟩
          cases h
        obtain ⟨hmonitor, hlast⟩ := call_updateMark_of_not_ready markPrice ts hnot
        exact ih.of_quiet hmonitor hlast (by rw [marking, hs]; rfl)
      | some spot =>
        cases hf : latest News.fundingRate ns with
        | none =>
          rw [hf] at hrate
          have hnot : ¬ ((run hear (initial : App R) ns).perp.readySpot = true ∧
              (run hear (initial : App R) ns).perp.readyFunding = true) := by
            rw [hreadyFunding, hrate]
            rintro ⟨-, h⟩
            cases h
          obtain ⟨hmonitor, hlast⟩ := call_updateMark_of_not_ready markPrice ts hnot
          exact ih.of_quiet hmonitor hlast (by rw [marking, hs, hf]; rfl)
        | some funding =>
          obtain ⟨fundingRate, nextFunding⟩ := funding
          rw [hs] at hspot
          rw [hf] at hrate hnext
          rw [hspot] at hreadySpot
          rw [hrate] at hreadyFunding
          obtain ⟨hmonitor, hlast⟩ := call_updateMark
            (k := ⟨ts, markPrice, spot, fundingRate, nextFunding⟩) hthreshold hspot hrate hnext
            hreadySpot hreadyFunding
          exact ih.of_marking (by rw [marking, hs, hf]; rfl) hmonitor hlast

/-- **The monitor of the perpetual.**  After any messages of the two feeds, up to one on which
`process` aborts, it has reported each marking of their news once, in order, and alerted for those
that were due. -/
theorem perpMonitorShown_run (messages : List (FeedMessage R)) :
    PerpMonitorShown (messages.flatMap FeedMessage.news) (run receive initial messages) := by
  rw [run_receive]
  exact (monitors_run _).shown

end App

end SyntheticArbitrage
