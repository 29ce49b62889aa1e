import SyntheticArbitrage.Lib.Clock
import SyntheticArbitrage.Lib.Run
import Mathlib.Logic.Function.Basic

/-!
# The cooldown of the opportunity engine

`include/ArbOpportunityEngine.hpp`.  `shouldTrigger` lets a signal of a symbol fire when the symbol
has not fired before, or when `timestamp - last > cooldown` in unsigned 64-bit arithmetic.

* `fires_iff`: when a call fires.
* `CooldownKept`: every call that fires comes more than the cooldown after each earlier call of its
  symbol that fired.
* `cooldownKept_iff`: runs keep the cooldown exactly when no call is older than the last accepted
  one by less than `2 ^ 64 - cooldown`; an older call wraps the difference and fires.
-/

namespace SyntheticArbitrage

structure ArbOpportunityEngine where
  cooldown : UInt64
  lastTrigger : String → Option UInt64
  /-- Whether `mockPnL` points to the tracker.  The pointer is set and never read. -/
  mockPnL : Bool := false

namespace ArbOpportunityEngine

/-- The constructor, called with `cooldown_ms`. -/
def new (cooldownMs : UInt64) : ArbOpportunityEngine where
  cooldown := cooldownMs
  lastTrigger := fun _ => none

/-- The condition of `shouldTrigger`: no time is stored, or more than the cooldown has passed. -/
def passed (e : ArbOpportunityEngine) (symbol : String) (timestamp : UInt64) : Bool :=
  match e.lastTrigger symbol with
  | none => true
  | some last => decide (e.cooldown < timestamp - last)

def shouldTrigger (e : ArbOpportunityEngine) (symbol : String) (timestamp : UInt64) :
    ArbOpportunityEngine × Bool :=
  if e.passed symbol timestamp then
    ({ e with lastTrigger := Function.update e.lastTrigger symbol (some timestamp) }, true)
  else (e, false)

def reset (e : ArbOpportunityEngine) (symbol : String) : ArbOpportunityEngine :=
  { e with lastTrigger := Function.update e.lastTrigger symbol none }

def attachMockPnL (e : ArbOpportunityEngine) : ArbOpportunityEngine := { e with mockPnL := true }

/-! ## What a call does -/

theorem passed_iff {e : ArbOpportunityEngine} {symbol : String} {t : UInt64} :
    e.passed symbol t = true ↔
      ∀ last, e.lastTrigger symbol = some last → e.cooldown < t - last := by
  unfold passed
  cases h : e.lastTrigger symbol with
  | none => simp
  | some last => simp

theorem passed_of_none {e : ArbOpportunityEngine} {symbol : String} (t : UInt64)
    (h : e.lastTrigger symbol = none) : e.passed symbol t = true := by
  rw [passed, h]

@[simp] theorem shouldTrigger_snd (e : ArbOpportunityEngine) (symbol : String) (t : UInt64) :
    (e.shouldTrigger symbol t).2 = e.passed symbol t := by
  unfold shouldTrigger
  split
  · next h => exact h.symm
  · next h => exact (Bool.eq_false_of_not_eq_true h).symm

theorem shouldTrigger_lastTrigger (e : ArbOpportunityEngine) (symbol : String) (t : UInt64) :
    (e.shouldTrigger symbol t).1.lastTrigger =
      if e.passed symbol t then Function.update e.lastTrigger symbol (some t)
      else e.lastTrigger := by
  unfold shouldTrigger
  split <;> rfl

theorem shouldTrigger_of_not_passed {e : ArbOpportunityEngine} {symbol : String} {t : UInt64}
    (h : e.passed symbol t = false) : (e.shouldTrigger symbol t).1 = e := by
  rw [shouldTrigger, if_neg (by simp [h])]

@[simp] theorem shouldTrigger_cooldown (e : ArbOpportunityEngine) (symbol : String) (t : UInt64) :
    (e.shouldTrigger symbol t).1.cooldown = e.cooldown := by
  unfold shouldTrigger
  split <;> rfl

/-! ## Runs -/

/-- The arguments of a call of `shouldTrigger`. -/
structure TriggerCall where
  symbol : String
  timestamp : UInt64
  deriving DecidableEq

def trigger (e : ArbOpportunityEngine) (c : TriggerCall) : ArbOpportunityEngine :=
  (e.shouldTrigger c.symbol c.timestamp).1

def fires (e : ArbOpportunityEngine) (c : TriggerCall) : Bool :=
  (e.shouldTrigger c.symbol c.timestamp).2

theorem trigger_lastTrigger (e : ArbOpportunityEngine) (c : TriggerCall) :
    (e.trigger c).lastTrigger =
      if e.fires c then Function.update e.lastTrigger c.symbol (some c.timestamp)
      else e.lastTrigger := by
  rw [trigger, fires, shouldTrigger_lastTrigger, shouldTrigger_snd]

theorem fires_iff {e : ArbOpportunityEngine} {c : TriggerCall} :
    e.fires c = true ↔
      ∀ last, e.lastTrigger c.symbol = some last → e.cooldown < c.timestamp - last := by
  rw [fires, shouldTrigger_snd, passed_iff]

def accepted (e : ArbOpportunityEngine) (calls : List TriggerCall) : List TriggerCall :=
  outputs trigger (fun e c => if e.fires c then [c] else []) e calls

theorem accepted_concat (e : ArbOpportunityEngine) (calls : List TriggerCall) (c : TriggerCall) :
    accepted e (calls ++ [c]) =
      accepted e calls ++ if (run trigger e calls).fires c then [c] else [] :=
  outputs_concat e calls c

theorem trigger_cooldown (e : ArbOpportunityEngine) (c : TriggerCall) :
    (e.trigger c).cooldown = e.cooldown := shouldTrigger_cooldown e c.symbol c.timestamp

theorem run_cooldown (e : ArbOpportunityEngine) (calls : List TriggerCall) :
    (run trigger e calls).cooldown = e.cooldown :=
  run_frame cooldown trigger_cooldown e calls

theorem lastTrigger_mem_accepted (cooldown : UInt64) (calls : List TriggerCall) :
    ∀ symbol last, (run trigger (new cooldown) calls).lastTrigger symbol = some last →
      ⟨symbol, last⟩ ∈ accepted (new cooldown) calls := by
  induction calls using List.reverseRecOn with
  | nil => intro symbol last h; simp [new] at h
  | append_singleton calls c ih =>
    intro symbol last h
    rw [run_concat, trigger_lastTrigger] at h
    rw [accepted_concat, List.mem_append]
    cases hf : (run trigger (new cooldown) calls).fires c with
    | false =>
      simp only [hf, Bool.false_eq_true, if_false] at h
      exact Or.inl (ih symbol last h)
    | true =>
      simp only [hf, if_true] at h
      by_cases hs : symbol = c.symbol
      · subst hs
        rw [Function.update_self, Option.some.injEq] at h
        subst h
        exact Or.inr (by simp)
      · rw [Function.update_of_ne hs] at h
        exact Or.inl (ih symbol last h)

/-! ## The cooldown -/

/-- Every call that fires comes more than the cooldown after each earlier accepted call of its
symbol. -/
def CooldownKept (e : ArbOpportunityEngine) (calls : List TriggerCall) : Prop :=
  ∀ pre c post, calls = pre ++ c :: post → (run trigger e pre).fires c = true →
    ∀ last, ⟨c.symbol, last⟩ ∈ accepted e pre →
      last.toNat + e.cooldown.toNat < c.timestamp.toNat

/-- The call is not older than the last accepted one, or is older by so much that the wrapped
difference is still within the cooldown. -/
def NotStale (e : ArbOpportunityEngine) (c : TriggerCall) : Prop :=
  ∀ last, e.lastTrigger c.symbol = some last → c.timestamp < last →
    c.timestamp.toNat + 2 ^ 64 ≤ last.toNat + e.cooldown.toNat

/-- A call that is not stale and fires comes after the cooldown. -/
theorem lt_of_fires {e : ArbOpportunityEngine} {c : TriggerCall} (hn : NotStale e c)
    (hf : e.fires c = true) {last : UInt64} (hlast : e.lastTrigger c.symbol = some last) :
    last.toNat + e.cooldown.toNat < c.timestamp.toNat := by
  have hlt := fires_iff.mp hf last hlast
  rcases UInt64.le_total last c.timestamp with hle | hle
  · exact (Clock.lt_sub_iff_of_le hle).mp hlt
  · by_cases hc : c.timestamp < last
    · have hwrap := (Clock.lt_sub_iff_of_lt hc).mp hlt
      have := hn last hlast hc
      omega
    · exact (Clock.lt_sub_iff_of_le (UInt64.not_lt.mp hc)).mp hlt

/-- A stale call fires. -/
theorem fires_of_stale {e : ArbOpportunityEngine} {c : TriggerCall} {last : UInt64}
    (hlast : e.lastTrigger c.symbol = some last) (hlt : c.timestamp < last)
    (hwrap : last.toNat + e.cooldown.toNat < c.timestamp.toNat + 2 ^ 64) : e.fires c = true := by
  refine fires_iff.mpr fun l hl => ?_
  rw [hlast, Option.some.injEq] at hl
  subst hl
  exact (Clock.lt_sub_iff_of_lt hlt).mpr hwrap

/-- Without stale calls the stored time is the latest of the accepted ones. -/
theorem le_lastTrigger (cooldown : UInt64) (calls : List TriggerCall)
    (h : AtEachCall trigger NotStale (new cooldown) calls) :
    ∀ symbol t, ⟨symbol, t⟩ ∈ accepted (new cooldown) calls →
      ∃ last, (run trigger (new cooldown) calls).lastTrigger symbol = some last ∧
        t.toNat ≤ last.toNat := by
  induction calls using List.reverseRecOn with
  | nil => intro symbol t ht; simp [accepted, outputs] at ht
  | append_singleton calls c ih =>
    obtain ⟨hcalls, hc⟩ := atEachCall_concat.mp h
    intro symbol t ht
    rw [accepted_concat, List.mem_append] at ht
    rw [run_concat, trigger_lastTrigger]
    cases hf : (run trigger (new cooldown) calls).fires c with
    | false =>
      simp only [hf, Bool.false_eq_true, if_false, List.not_mem_nil, or_false] at ht ⊢
      exact ih hcalls symbol t ht
    | true =>
      simp only [hf, if_true, List.mem_singleton] at ht ⊢
      by_cases hs : symbol = c.symbol
      · subst hs
        refine ⟨c.timestamp, by simp, ?_⟩
        rcases ht with ht | ht
        · obtain ⟨last, hlast, hle⟩ := ih hcalls c.symbol t ht
          have := lt_of_fires hc hf hlast
          omega
        · rw [← ht]
      · rcases ht with ht | ht
        · obtain ⟨last, hlast, hle⟩ := ih hcalls symbol t ht
          exact ⟨last, by rw [Function.update_of_ne hs]; exact hlast, hle⟩
        · exact absurd (congrArg TriggerCall.symbol ht) hs

/-- **Runs that keep the cooldown.**  On a fresh engine the accepted calls of a symbol are more than
the cooldown apart exactly when no call is stale. -/
theorem cooldownKept_iff (cooldown : UInt64) (calls : List TriggerCall) :
    CooldownKept (new cooldown) calls ↔ AtEachCall trigger NotStale (new cooldown) calls := by
  constructor
  · intro h
    refine atEachCall_iff.mpr fun pre c post hcalls last hlast hlt => ?_
    by_contra hwrap
    rw [not_le] at hwrap
    have hgap := h pre c post hcalls (fires_of_stale hlast hlt hwrap) last
      (lastTrigger_mem_accepted cooldown pre c.symbol last hlast)
    have := UInt64.lt_iff_toNat_lt.mp hlt
    omega
  · intro h pre c post hcalls hf t ht
    rw [hcalls, atEachCall_append] at h
    obtain ⟨hpre, hc, -⟩ := h
    obtain ⟨last, hlast, hle⟩ := le_lastTrigger cooldown pre hpre c.symbol t ht
    have hlt := lt_of_fires hc hf hlast
    rw [run_cooldown] at hlt
    omega

/-- A tick one millisecond older than the accepted one fires again. -/
theorem not_cooldownKept_stale :
    ¬ CooldownKept (new 5000) [⟨"ETHUSDT", 10000⟩, ⟨"ETHUSDT", 9999⟩] := by
  intro h
  have := h [⟨"ETHUSDT", 10000⟩] ⟨"ETHUSDT", 9999⟩ [] rfl (by decide) 10000 (by decide)
  exact absurd this (by decide)

end ArbOpportunityEngine

end SyntheticArbitrage
