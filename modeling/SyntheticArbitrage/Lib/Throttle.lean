import SyntheticArbitrage.Lib.Clock
import SyntheticArbitrage.Lib.Run
import Mathlib.Logic.Function.Basic

/-!
# A cooldown with one clock for all objects

The objects of a class raise alerts, and after an alert the next one has to wait.  The time of the
last alert is one 64-bit variable for all of them, 0 before the first alert, and the waiting time is
a difference modulo `2 ^ 64`.

* `Throttles`: the updates of a class raise their alerts by this variable.
* `Family`: the objects, the variable, and the alerts raised so far.
* `AlertExact`: the alert of a cooldown that each object has for itself.
* `InOrder`, `KeptApart`: the times above the threshold are in order; an alert of another object is
  near only when one of the object itself is.
* `alertsExact_iff`: **on times in order the alerts are those exactly when they are kept apart.**
* `alertsExact_of_subsingleton`: the alerts of one object are.
-/

namespace SyntheticArbitrage.Throttle

/-- An evaluation of an object: its event time, whether the threshold is exceeded, and whether it
raises an alert. -/
structure Evaluation where
  time : UInt64
  exceeds : Bool
  alert : Bool
  deriving DecidableEq

variable {ι E γ : Type*}

/-- An update of an object: it is given the variable and returns it with the object and, when the
object was evaluated, the evaluation. -/
abbrev Update (E γ : Type*) := E → UInt64 → γ → E × UInt64 × Option Evaluation

/-- An evaluation that raises an alert when the threshold is exceeded and more than `gap` has passed
since the time in the variable, and then stores its event time there. -/
def throttled (gap last time : UInt64) (exceeds : Bool) : UInt64 × Option Evaluation :=
  let alert := exceeds && decide (gap < time - last)
  (if alert then time else last, some { time, exceeds, alert })

/-- The evaluations of the class are throttled, and the other updates keep the variable. -/
def Throttles (gap : UInt64) (update : Update E γ) : Prop :=
  ∀ e last c, (update e last c).2 = (last, none) ∨
    ∃ time exceeds, (update e last c).2 = throttled gap last time exceeds

/-- The objects of a class, the variable they share, and the object and the event time of each alert
raised so far. -/
structure Family (ι E : Type*) where
  objects : ι → E
  last : UInt64
  alerts : List (ι × UInt64)

namespace Family

def new (objects : ι → E) : Family ι E where
  objects := objects
  last := 0
  alerts := []

/-- The evaluation that an update of an object makes. -/
def evaluation (update : Update E γ) (f : Family ι E) (c : ι × γ) : Option Evaluation :=
  (update (f.objects c.1) f.last c.2).2.2

variable [DecidableEq ι]

/-- An update of the object `c.1`. -/
def call (update : Update E γ) (f : Family ι E) (c : ι × γ) : Family ι E :=
  let result := update (f.objects c.1) f.last c.2
  { objects := Function.update f.objects c.1 result.1
    last := result.2.1
    alerts := f.alerts ++ (result.2.2.filter (·.alert)).toList.map fun v => (c.1, v.time) }

end Family

/-! ## The cooldown that is meant, and the one that is computed -/

/-- The event time of the last alert of an object. -/
def lastAlert [DecidableEq ι] (alerts : List (ι × UInt64)) (i : ι) : Option UInt64 :=
  ((alerts.filter fun a => a.1 = i).map Prod.snd).getLast?

/-- The event time of the last alert of all objects, 0 before the first. -/
def lastOfAll (alerts : List (ι × UInt64)) : UInt64 := (alerts.map Prod.snd).getLast?.getD 0

/-- The object has not alerted before, or more than `gap` before `t`. -/
def OwnOver [DecidableEq ι] (gap : UInt64) (alerts : List (ι × UInt64)) (i : ι) (t : UInt64) :
    Prop :=
  ∀ l ∈ lastAlert alerts i, l.toNat + gap.toNat < t.toNat

instance [DecidableEq ι] (gap : UInt64) (alerts : List (ι × UInt64)) (i : ι) (t : UInt64) :
    Decidable (OwnOver gap alerts i t) :=
  decidable_of_iff ((lastAlert alerts i).all fun l => l.toNat + gap.toNat < t.toNat) (by
    rw [OwnOver]
    cases lastAlert alerts i <;> simp)

/-- The last alert of all objects is more than `gap` before `t`, or after `t` by less than
`2 ^ 64 - gap`. -/
def SharedOver (gap : UInt64) (alerts : List (ι × UInt64)) (t : UInt64) : Prop :=
  (lastOfAll alerts).toNat + gap.toNat < t.toNat ∨
    t.toNat < (lastOfAll alerts).toNat ∧ (lastOfAll alerts).toNat + gap.toNat < t.toNat + 2 ^ 64

/-- The evaluation raises an alert exactly when the threshold is exceeded and the cooldown of this
object is over. -/
def AlertExact [DecidableEq ι] (gap : UInt64) (alerts : List (ι × UInt64)) (i : ι)
    (v : Evaluation) : Prop :=
  v.alert = true ↔ v.exceeds = true ∧ OwnOver gap alerts i v.time

/-- When the threshold is exceeded, the event time is after `gap` and not before an alert. -/
def InOrder (gap : UInt64) (alerts : List (ι × UInt64)) (v : Evaluation) : Prop :=
  v.exceeds = true → gap < v.time ∧ ∀ a ∈ alerts, a.2 ≤ v.time

/-- When the threshold is exceeded within `gap` after an alert of another object, it is also within
`gap` after an alert of this one. -/
def KeptApart (gap : UInt64) (alerts : List (ι × UInt64)) (i : ι) (v : Evaluation) : Prop :=
  v.exceeds = true → ∀ a ∈ alerts, a.1 ≠ i → v.time.toNat ≤ a.2.toNat + gap.toNat →
    ∃ own ∈ alerts, own.1 = i ∧ v.time.toNat ≤ own.2.toNat + gap.toNat

instance (gap : UInt64) (alerts : List (ι × UInt64)) (v : Evaluation) :
    Decidable (InOrder gap alerts v) :=
  inferInstanceAs (Decidable (v.exceeds = true → gap < v.time ∧ ∀ a ∈ alerts, a.2 ≤ v.time))

instance [DecidableEq ι] (gap : UInt64) (alerts : List (ι × UInt64)) (i : ι) (v : Evaluation) :
    Decidable (KeptApart gap alerts i v) :=
  inferInstanceAs (Decidable (v.exceeds = true → ∀ a ∈ alerts, a.1 ≠ i →
    v.time.toNat ≤ a.2.toNat + gap.toNat →
      ∃ own ∈ alerts, own.1 = i ∧ v.time.toNat ≤ own.2.toNat + gap.toNat))

/-! ## Alerts in the order of their times -/

/-- Of times in order, the last one is over only when all are. -/
theorem getLast?_over_iff {times : List UInt64} (h : times.Pairwise (· ≤ ·)) (g t : ℕ) :
    (∀ l ∈ times.getLast?, l.toNat + g < t) ↔ ∀ u ∈ times, u.toNat + g < t := by
  induction times using List.reverseRecOn with
  | nil => simp
  | append_singleton times l _ =>
    rw [List.getLast?_concat]
    constructor
    · intro hl u hu
      have hlast := hl l rfl
      rcases List.mem_append.mp hu with hmem | hmem
      · have hle := UInt64.le_iff_toNat_le.mp
          ((List.pairwise_append.mp h).2.2 u hmem l (List.mem_singleton_self l))
        omega
      · rwa [List.mem_singleton.mp hmem]
    · intro hall u hu
      rw [← Option.some.inj hu]
      exact hall l (List.mem_append_right _ (List.mem_singleton_self l))

/-- The alerts were raised in the order of their times. -/
def Ordered (alerts : List (ι × UInt64)) : Prop := (alerts.map Prod.snd).Pairwise (· ≤ ·)

theorem ownOver_iff [DecidableEq ι] {gap t : UInt64} {alerts : List (ι × UInt64)}
    (h : Ordered alerts) (i : ι) :
    OwnOver gap alerts i t ↔ ∀ a ∈ alerts, a.1 = i → a.2.toNat + gap.toNat < t.toNat := by
  have hown : ((alerts.filter fun a => a.1 = i).map Prod.snd).Pairwise (· ≤ ·) :=
    h.sublist (List.filter_sublist.map Prod.snd)
  rw [OwnOver, lastAlert, getLast?_over_iff hown]
  simp only [List.forall_mem_map, List.mem_filter, decide_eq_true_eq, and_imp]

theorem lt_sub_iff_sharedOver {gap t : UInt64} {alerts : List (ι × UInt64)} :
    gap < t - lastOfAll alerts ↔ SharedOver gap alerts t := by
  rw [SharedOver]
  by_cases h : t < lastOfAll alerts
  · have hlt := UInt64.lt_iff_toNat_lt.mp h
    rw [Clock.lt_sub_iff_of_lt h]
    omega
  · have hle := UInt64.le_iff_toNat_le.mp (UInt64.not_lt.mp h)
    rw [Clock.lt_sub_iff_of_le (UInt64.not_lt.mp h)]
    omega

/-- After `gap`, and not before an alert, the shared cooldown is over when that of every alert
is. -/
theorem sharedOver_iff {gap t : UInt64} {alerts : List (ι × UInt64)} (h : Ordered alerts)
    (hgap : gap < t) (hle : ∀ a ∈ alerts, a.2 ≤ t) :
    SharedOver gap alerts t ↔ ∀ a ∈ alerts, a.2.toNat + gap.toNat < t.toNat := by
  have hgap := UInt64.lt_iff_toNat_lt.mp hgap
  have hall := getLast?_over_iff h gap.toNat t.toNat
  simp only [List.forall_mem_map] at hall
  rw [SharedOver, ← hall, lastOfAll]
  cases hlast : (alerts.map Prod.snd).getLast? with
  | none => simpa using hgap
  | some l =>
    obtain ⟨a, ha, rfl⟩ := List.mem_map.mp (List.mem_of_getLast? hlast)
    have hle := UInt64.le_iff_toNat_le.mp (hle a ha)
    simp only [Option.getD_some, Option.mem_some, forall_eq']
    omega

/-- What a run on times in order keeps: the variable holds the time of the last alert, and the
alerts are in order. -/
structure Kept (f : Family ι E) : Prop where
  last : f.last = lastOfAll f.alerts
  ordered : Ordered f.alerts

theorem kept_new (objects : ι → E) : Kept (Family.new objects) where
  last := rfl
  ordered := List.Pairwise.nil

variable [DecidableEq ι] {gap : UInt64} {update : Update E γ}

theorem Kept.call (h : Throttles gap update) {f : Family ι E} (hf : Kept f) (c : ι × γ)
    (horder : ∀ v ∈ f.evaluation update c, InOrder gap f.alerts v) : Kept (f.call update c) := by
  rcases h (f.objects c.1) f.last c.2 with hkept | ⟨time, exceeds, hthrottled⟩
  · have halerts : (f.call update c).alerts = f.alerts := by simp [Family.call, hkept]
    refine ⟨?_, halerts ▸ hf.ordered⟩
    rw [halerts, ← hf.last]
    simp [Family.call, hkept]
  · by_cases ha : (exceeds && decide (gap < time - f.last)) = true
    · have halerts : (f.call update c).alerts = f.alerts ++ [(c.1, time)] := by
        simp [Family.call, hthrottled, throttled, ha, Option.filter]
      have hexceeds : exceeds = true := (Bool.and_eq_true_iff.mp ha).1
      have hle := (horder ⟨time, exceeds, true⟩
        (by simp [Family.evaluation, hthrottled, throttled, ha]) hexceeds).2
      refine ⟨?_, ?_⟩
      · rw [halerts, lastOfAll, List.map_append, List.map_singleton, List.getLast?_concat]
        simp [Family.call, hthrottled, throttled, ha]
      · rw [halerts, Ordered, List.map_append, List.pairwise_append]
        refine ⟨hf.ordered, List.pairwise_singleton _ _, ?_⟩
        simpa using fun u i hu => hle (i, u) hu
    · have halerts : (f.call update c).alerts = f.alerts := by
        simp [Family.call, hthrottled, throttled, ha, Option.filter]
      refine ⟨?_, halerts ▸ hf.ordered⟩
      rw [halerts, ← hf.last]
      simp [Family.call, hthrottled, throttled, ha]

/-- **One evaluation** on times in order is the one meant exactly when the alerts of the other
objects are kept apart from it. -/
theorem alertExact_iff (h : Throttles gap update) {f : Family ι E} (hf : Kept f) (c : ι × γ)
    {v : Evaluation} (hv : v ∈ f.evaluation update c) (horder : InOrder gap f.alerts v) :
    AlertExact gap f.alerts c.1 v ↔ KeptApart gap f.alerts c.1 v := by
  rw [Family.evaluation] at hv
  rcases h (f.objects c.1) f.last c.2 with hkept | ⟨time, exceeds, hthrottled⟩
  · rw [hkept] at hv
    cases hv
  · rw [hthrottled] at hv
    cases hv
    cases exceeds with
    | false => simp [AlertExact, KeptApart]
    | true =>
      obtain ⟨hgap, hle⟩ := horder rfl
      simp only [AlertExact, KeptApart, hf.last, Bool.true_and, decide_eq_true_iff, true_and,
        forall_const, lt_sub_iff_sharedOver, sharedOver_iff hf.ordered hgap hle,
        ownOver_iff hf.ordered]
      constructor
      · intro hexact a ha _ hwithin
        by_contra hnone
        have hown : ∀ b ∈ f.alerts, b.1 = c.1 → b.2.toNat + gap.toNat < time.toNat :=
          fun b hb hi => Nat.lt_of_not_le fun hle => hnone ⟨b, hb, hi, hle⟩
        exact absurd (hexact.mpr hown a ha) (Nat.not_lt.mpr hwithin)
      · intro hapart
        refine ⟨fun hall a ha _ => hall a ha, fun hown a ha => ?_⟩
        -- an alert of another object that is not over would have one of this object beside it
        by_cases hi : a.1 = c.1
        · exact hown a ha hi
        · by_contra hlate
          obtain ⟨b, hb, hbi, hwithin⟩ := hapart a ha hi (Nat.le_of_not_lt hlate)
          exact absurd (hown b hb hbi) (Nat.not_lt.mpr hwithin)

/-! ## Runs -/

/-- In a run on the objects each evaluation alerts by the last alert of its own object. -/
def AlertsExact (gap : UInt64) (update : Update E γ) (objects : ι → E) (calls : List (ι × γ)) :
    Prop :=
  AtEachCall (Family.call update)
    (fun f c => ∀ v ∈ f.evaluation update c, AlertExact gap f.alerts c.1 v) (Family.new objects)
    calls

/-- In a run on the objects the times above the threshold are in order. -/
def TimesInOrder (gap : UInt64) (update : Update E γ) (objects : ι → E) (calls : List (ι × γ)) :
    Prop :=
  AtEachCall (Family.call update)
    (fun f c => ∀ v ∈ f.evaluation update c, InOrder gap f.alerts v) (Family.new objects) calls

/-- In a run on the objects the alerts of the others are kept apart from every evaluation. -/
def AlertsApart (gap : UInt64) (update : Update E γ) (objects : ι → E) (calls : List (ι × γ)) :
    Prop :=
  AtEachCall (Family.call update)
    (fun f c => ∀ v ∈ f.evaluation update c, KeptApart gap f.alerts c.1 v) (Family.new objects)
    calls

/-- **Every run** on times in order: the alerts are the ones meant exactly when those of different
objects are kept apart. -/
theorem alertsExact_iff (h : Throttles gap update) (objects : ι → E) {calls : List (ι × γ)}
    (horder : TimesInOrder gap update objects calls) :
    AlertsExact gap update objects calls ↔ AlertsApart gap update objects calls := by
  refine atEachCall_congr (fun f c hf ho => hf.call h c ho) (fun f c hf ho => ?_)
    (kept_new objects) horder
  exact forall_congr' fun v => forall_congr' fun hv => alertExact_iff h hf c hv (ho v hv)

theorem alertsExact_of_subsingleton [Subsingleton ι] (h : Throttles gap update) (objects : ι → E)
    {calls : List (ι × γ)} (horder : TimesInOrder gap update objects calls) :
    AlertsExact gap update objects calls := by
  rw [alertsExact_iff h objects horder, AlertsApart, atEachCall_iff]
  intro front c back _ v _ _ a _ hne
  exact absurd (Subsingleton.elim a.1 c.1) hne

end SyntheticArbitrage.Throttle
