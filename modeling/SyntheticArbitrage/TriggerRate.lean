import SyntheticArbitrage.ArbOpportunityEngine
import SyntheticArbitrage.Lib.Greedy
import Mathlib.Data.List.Basic
import Mathlib.Order.Bounds.Defs

/-!
# How many signals the cooldown lets through

On timestamps in order the calls of `shouldTrigger` for a symbol are a greedy selection of
timestamps that are more than the cooldown apart, whatever happens to the other symbols in between.

* `EngineOp`: a call of `shouldTrigger` or of `reset`.
* `triggered_eq_greedy`: the calls for a symbol that return true.
* `triggered_isGreatest`: they are as many as timestamps more than the cooldown apart can be.
-/

namespace SyntheticArbitrage.ArbOpportunityEngine

open Greedy

inductive EngineOp where
  | shouldTrigger (c : TriggerCall)
  | reset (symbol : String)
  deriving DecidableEq

def EngineOp.symbol : EngineOp → String
  | shouldTrigger c => c.symbol
  | reset symbol => symbol

def perform (e : ArbOpportunityEngine) : EngineOp → ArbOpportunityEngine
  | .shouldTrigger c => e.trigger c
  | .reset symbol => e.reset symbol

/-- The timestamp that a call passes to `shouldTrigger` for a symbol. -/
def passedAt (symbol : String) : EngineOp → Option UInt64
  | .shouldTrigger c => if c.symbol = symbol then some c.timestamp else none
  | .reset _ => none

/-- The timestamps passed to `shouldTrigger` for a symbol, in order. -/
def timestamps (symbol : String) (ops : List EngineOp) : List UInt64 :=
  ops.filterMap (passedAt symbol)

/-- The timestamp of a call for a symbol that returns true. -/
def returnedTrue (symbol : String) (e : ArbOpportunityEngine) : EngineOp → List UInt64
  | .shouldTrigger c => if c.symbol = symbol ∧ e.fires c = true then [c.timestamp] else []
  | .reset _ => []

/-- The timestamps of the calls of a run for a symbol that return true, in order. -/
def triggered (symbol : String) (e : ArbOpportunityEngine) (ops : List EngineOp) : List UInt64 :=
  outputs perform (returnedTrue symbol) e ops

/-- The timestamp `b` is more than the cooldown after `a`. -/
def Cooled (cooldown : UInt64) (a b : UInt64) : Prop := a.toNat + cooldown.toNat < b.toNat

instance (cooldown : UInt64) : DecidableRel (Cooled cooldown) :=
  fun a b => inferInstanceAs (Decidable (a.toNat + cooldown.toNat < b.toNat))

theorem Cooled.mono {cooldown : UInt64} (a b c : UInt64) (h : a ≤ b) (hbc : Cooled cooldown b c) :
    Cooled cooldown a c := by
  have hle := UInt64.le_iff_toNat_le.mp h
  simp only [Cooled] at hbc ⊢
  omega

theorem cooled_iff {cooldown a b : UInt64} (h : a ≤ b) :
    Cooled cooldown a b ↔ cooldown.toNat < Clock.dist a b := by
  have hle := UInt64.le_iff_toNat_le.mp h
  rw [Cooled, Clock.dist]
  omega

/-! ## The calls that return true -/

theorem fires_iff_cooled {e : ArbOpportunityEngine} {c : TriggerCall}
    (hle : ∀ l ∈ e.lastTrigger c.symbol, l ≤ c.timestamp) :
    e.fires c = true ↔ ∀ l ∈ e.lastTrigger c.symbol, Cooled e.cooldown l c.timestamp := by
  rw [fires_iff]
  refine forall_congr' fun l => forall_congr' fun hl => ?_
  exact Clock.lt_sub_iff_of_le (hle l hl)

theorem perform_of_ne {e : ArbOpportunityEngine} {op : EngineOp} {symbol : String}
    (h : op.symbol ≠ symbol) :
    (e.perform op).lastTrigger symbol = e.lastTrigger symbol ∧
      (e.perform op).cooldown = e.cooldown := by
  cases op with
  | shouldTrigger c =>
    refine ⟨?_, trigger_cooldown e c⟩
    rw [perform, trigger_lastTrigger]
    split
    · exact Function.update_of_ne (Ne.symm h) _ _
    · rfl
  | reset other => exact ⟨Function.update_of_ne (Ne.symm h) _ _, rfl⟩

theorem timestamps_cons_of_ne {op : EngineOp} {symbol : String} (h : op.symbol ≠ symbol)
    (ops : List EngineOp) : timestamps symbol (op :: ops) = timestamps symbol ops := by
  refine List.filterMap_cons_none ?_
  cases op with
  | shouldTrigger c => exact if_neg h
  | reset other => rfl

theorem triggered_cons_of_ne {op : EngineOp} {symbol : String} (h : op.symbol ≠ symbol)
    (e : ArbOpportunityEngine) (ops : List EngineOp) :
    triggered symbol e (op :: ops) = triggered symbol (e.perform op) ops := by
  rw [triggered, outputs]
  cases op with
  | shouldTrigger c =>
    rw [returnedTrue, if_neg fun hc => h hc.1]
    rfl
  | reset other => rfl

theorem timestamps_cons_shouldTrigger (c : TriggerCall) (ops : List EngineOp) :
    timestamps c.symbol (.shouldTrigger c :: ops) = c.timestamp :: timestamps c.symbol ops :=
  List.filterMap_cons_some (if_pos rfl)

theorem trigger_of_fires {e : ArbOpportunityEngine} {c : TriggerCall} (hf : e.fires c = true)
    (ops : List EngineOp) :
    (e.trigger c).lastTrigger c.symbol = some c.timestamp ∧
      triggered c.symbol e (.shouldTrigger c :: ops) =
        c.timestamp :: triggered c.symbol (e.trigger c) ops := by
  refine ⟨?_, ?_⟩
  · rw [trigger_lastTrigger, if_pos hf, Function.update_self]
  · rw [triggered, outputs, returnedTrue, if_pos ⟨rfl, hf⟩]
    rfl

theorem trigger_of_not_fires {e : ArbOpportunityEngine} {c : TriggerCall} (hf : ¬ e.fires c = true)
    (ops : List EngineOp) :
    triggered c.symbol e (.shouldTrigger c :: ops) = triggered c.symbol e ops := by
  have hsame : e.trigger c = e := by
    rw [trigger, shouldTrigger_of_not_passed]
    rwa [fires, shouldTrigger_snd, Bool.not_eq_true] at hf
  rw [triggered, outputs, returnedTrue, if_neg fun h => hf h.2, perform, hsame]
  rfl

/-- **The calls for a symbol that return true** are the greedy selection from its timestamps, when
these come in order and the symbol is not reset. -/
theorem triggered_eq_greedy {e : ArbOpportunityEngine} {symbol : String} {ops : List EngineOp}
    (hsorted : (timestamps symbol ops).Pairwise (· ≤ ·))
    (hlast : ∀ l ∈ e.lastTrigger symbol, ∀ t ∈ timestamps symbol ops, l ≤ t)
    (hreset : .reset symbol ∉ ops) :
    triggered symbol e ops =
      greedy (Cooled e.cooldown) (e.lastTrigger symbol) (timestamps symbol ops) := by
  induction ops generalizing e with
  | nil => rfl
  | cons op ops ih =>
    have hreset' : .reset symbol ∉ ops := fun h => hreset (List.mem_cons_of_mem op h)
    by_cases hs : op.symbol = symbol
    · cases op with
      | reset other =>
        exact absurd (show EngineOp.reset symbol ∈ .reset other :: ops from hs ▸ List.mem_cons_self)
          hreset
      | shouldTrigger c =>
        have hs' : c.symbol = symbol := hs
        subst hs'
        rw [timestamps_cons_shouldTrigger] at hsorted hlast ⊢
        obtain ⟨hle, hsorted'⟩ := List.pairwise_cons.mp hsorted
        have hfires := fires_iff_cooled fun l hl => hlast l hl c.timestamp List.mem_cons_self
        rw [greedy]
        by_cases hf : e.fires c = true
        · -- from here on the stored time is that of this call, and no later timestamp is below it
          obtain ⟨hstored, hreturned⟩ := trigger_of_fires hf ops
          have htail := ih (e := e.trigger c) hsorted'
            (fun l hl t ht => by
              rw [hstored, Option.mem_some] at hl
              exact hl ▸ hle t ht) hreset'
          rw [hstored, trigger_cooldown] at htail
          rw [hreturned, if_pos (hfires.mp hf), htail]
        · have htail := ih (e := e) hsorted'
            (fun l hl t ht => hlast l hl t (List.mem_cons_of_mem _ ht)) hreset'
          rw [trigger_of_not_fires hf, if_neg (fun h => hf (hfires.mpr h)), htail]
    · obtain ⟨hkept, hcooldown⟩ := perform_of_ne (e := e) hs
      rw [timestamps_cons_of_ne hs] at hsorted hlast ⊢
      have htail := ih (e := e.perform op) hsorted (by rwa [hkept]) hreset'
      rw [triggered_cons_of_ne hs, htail, hkept, hcooldown]

/-! ## The most signals -/

/-- **The cooldown loses as little as possible.**  When the timestamps passed for a symbol come in
order and the symbol is not reset, the calls that return true are as many as timestamps more than
the cooldown apart can be; and the calls on other symbols have no influence. -/
theorem triggered_isGreatest (cooldown : UInt64) {symbol : String} {ops : List EngineOp}
    (hsorted : (timestamps symbol ops).Pairwise (· ≤ ·)) (hreset : .reset symbol ∉ ops) :
    IsGreatest {n | ∃ l, List.Sublist l (timestamps symbol ops) ∧
        l.Pairwise (fun a b => cooldown.toNat < Clock.dist a b) ∧ l.length = n}
      (triggered symbol (new cooldown) ops).length ∧
    triggered symbol (new cooldown) (ops.filter fun op => op.symbol = symbol) =
      triggered symbol (new cooldown) ops := by
  have hnone : ∀ l ∈ (new cooldown).lastTrigger symbol, ∀ t ∈ timestamps symbol ops, l ≤ t := by
    rintro l ⟨⟩
  have hgreedy := triggered_eq_greedy hsorted hnone hreset
  -- the two ways of saying that timestamps are apart agree on a selection in order
  have hapart : ∀ l, List.Sublist l (timestamps symbol ops) →
      (l.Pairwise (Cooled cooldown) ↔ l.Pairwise fun a b => cooldown.toNat < Clock.dist a b) := by
    intro l hl
    have hle := hsorted.sublist hl
    constructor
    · intro h
      exact (hle.and h).imp fun hab => (cooled_iff hab.1).mp hab.2
    · intro h
      exact (hle.and h).imp fun hab => (cooled_iff hab.1).mpr hab.2
  refine ⟨⟨?_, ?_⟩, ?_⟩
  · rw [hgreedy]
    have hsub : List.Sublist (greedy (Cooled cooldown) none (timestamps symbol ops)) _ :=
      greedy_sublist none (timestamps symbol ops)
    exact ⟨_, hsub, (hapart _ hsub).mp (greedy_pairwise Cooled.mono hsorted), rfl⟩
  · rintro n ⟨l, hsub, hl, rfl⟩
    rw [hgreedy]
    exact length_le_greedy Cooled.mono hsorted hsub ((hapart l hsub).mpr hl) (by rintro x _ m ⟨⟩)
  · have htimes : timestamps symbol (ops.filter fun op => op.symbol = symbol) =
        timestamps symbol ops := by
      rw [timestamps, List.filterMap_filter]
      refine List.filterMap_congr fun op _ => ?_
      cases op with
      | shouldTrigger c => by_cases h : c.symbol = symbol <;> simp [EngineOp.symbol, passedAt, h]
      | reset other => by_cases h : other = symbol <;> simp [EngineOp.symbol, passedAt, h]
    have hfiltered : triggered symbol (new cooldown) (ops.filter fun op => op.symbol = symbol) =
        greedy (Cooled (new cooldown).cooldown) _
          (timestamps symbol (ops.filter fun op => op.symbol = symbol)) :=
      triggered_eq_greedy (by rwa [htimes]) (by rwa [htimes])
        fun h => hreset (List.mem_filter.mp h).1
    rw [hfiltered, htimes, hgreedy]

/-- Three calls within a cooldown of 5000, among calls on another symbol. -/
theorem triggered_isGreatest_three :
    let ops : List EngineOp := [.shouldTrigger ⟨"ETHUSDT", 1000⟩, .shouldTrigger ⟨"BTCUSDT", 4000⟩,
      .shouldTrigger ⟨"ETHUSDT", 6000⟩, .reset "BTCUSDT", .shouldTrigger ⟨"ETHUSDT", 6001⟩]
    (timestamps "ETHUSDT" ops).Pairwise (· ≤ ·) ∧ .reset "ETHUSDT" ∉ ops ∧
      (triggered "ETHUSDT" (new 5000) ops).length = 2 ∧
      triggered "ETHUSDT" (new 5000) (ops.filter fun op => op.symbol = "ETHUSDT") =
        triggered "ETHUSDT" (new 5000) ops := by
  intro ops
  have hsorted : (timestamps "ETHUSDT" ops).Pairwise (· ≤ ·) := by decide +kernel
  have hreset : .reset "ETHUSDT" ∉ ops := by decide +kernel
  exact ⟨hsorted, hreset, by decide +kernel, (triggered_isGreatest 5000 hsorted hreset).2⟩

end SyntheticArbitrage.ArbOpportunityEngine
