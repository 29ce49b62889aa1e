import Mathlib.Data.List.Induction
import Mathlib.Tactic.Common

/-!
# Runs of a machine that takes one call at a time

A deterministic machine is a function `step : σ → γ → σ`, and `run step s cs` is its state after
the calls `cs`; `runUntil` ends it with the first call that stops the machine.  What is said about a
whole run is said in one of four ways:

* `run_invariant`: a property of states that every admitted call keeps.
* `run_history`: a relation between the calls made so far and the state they led to.  This is
  the form of a simulation against a specification that reads the history alone.
* `AtEachCall`: a property of every call of the run, said of the state the call was made in.
* `run_outputs`: an append-only log is what it was, followed by what the calls wrote.
-/

namespace SyntheticArbitrage

variable {σ γ ο : Type*} {step : σ → γ → σ}

/-- The state after the calls `cs`. -/
def run (step : σ → γ → σ) (s : σ) (cs : List γ) : σ := cs.foldl step s

@[simp] theorem run_nil (s : σ) : run step s [] = s := rfl

@[simp] theorem run_cons (s : σ) (c : γ) (cs : List γ) :
    run step s (c :: cs) = run step (step s c) cs := rfl

theorem run_append (s : σ) (cs ds : List γ) :
    run step s (cs ++ ds) = run step (run step s cs) ds := by
  simp only [run, List.foldl_append]

@[simp] theorem run_concat (s : σ) (cs : List γ) (c : γ) :
    run step s (cs ++ [c]) = step (run step s cs) c := by
  rw [run_append, run_cons, run_nil]

/-- A machine whose steps are runs of another one runs as that one does on all the calls. -/
theorem run_flatMap {μ : Type*} (calls : μ → List γ) (s : σ) (ms : List μ) :
    run (fun s m => run step s (calls m)) s ms = run step s (ms.flatMap calls) := by
  induction ms generalizing s with
  | nil => rfl
  | cons m ms ih => rw [run_cons, ih, List.flatMap_cons, run_append]

/-! ## Invariants -/

/-- A property that every admitted call keeps holds after every admitted run. -/
theorem run_invariant {I : σ → Prop} {P : γ → Prop}
    (hstep : ∀ s c, I s → P c → I (step s c)) :
    ∀ (cs : List γ) {s : σ}, I s → (∀ c ∈ cs, P c) → I (run step s cs) := by
  intro cs
  induction cs with
  | nil => intro s hs _; exact hs
  | cons c cs ih =>
    intro s hs hok
    rw [run_cons]
    exact ih (hstep s c hs (hok c List.mem_cons_self))
      (fun d hd => hok d (List.mem_cons_of_mem _ hd))

/-- **Simulation against the history.**  A relation between the calls so far and the state that
holds at the start and is kept by every call holds after every run. -/
theorem run_history {H : List γ → σ → Prop} {s₀ : σ} (hzero : H [] s₀)
    (hstep : ∀ h s c, H h s → H (h ++ [c]) (step s c)) (cs : List γ) :
    H cs (run step s₀ cs) := by
  induction cs using List.reverseRecOn with
  | nil => exact hzero
  | append_singleton cs c ih =>
    rw [run_concat]
    exact hstep cs _ c ih

/-- A log to which every call appends one entry of its own has after a run the entries of its
calls. -/
theorem run_entries {β : Type*} (log : σ → List β) {entry : γ → β}
    (hstep : ∀ s c, log (step s c) = log s ++ [entry c]) (s : σ) (cs : List γ) :
    log (run step s cs) = log s ++ cs.map entry := by
  induction cs generalizing s with
  | nil => rw [run_nil, List.map_nil, List.append_nil]
  | cons c cs ih =>
    rw [run_cons, ih, hstep, List.append_assoc, List.singleton_append, List.map_cons]

/-- The machine that keeps the calls it was given. -/
theorem run_history_self (h cs : List γ) : run (fun h c => h ++ [c]) h cs = h ++ cs := by
  have hentries : id (run (fun h c => h ++ [c]) h cs) = id h ++ cs.map id :=
    run_entries id (fun _ _ => rfl) h cs
  rwa [List.map_id] at hentries

/-- A projection that no call changes is the same after every run. -/
theorem run_frame {β : Type*} (proj : σ → β) (hstep : ∀ s c, proj (step s c) = proj s)
    (s : σ) (cs : List γ) : proj (run step s cs) = proj s := by
  induction cs generalizing s with
  | nil => rfl
  | cons c cs ih => rw [run_cons, ih, hstep]

/-- **The last write wins.**  A projection that a call either overwrites or keeps holds after a run
the last value written to it. -/
theorem run_lastWrite {β : Type*} (proj : σ → β) {given : γ → Option β}
    (hstep : ∀ s c, proj (step s c) = (given c).getD (proj s)) (s : σ) (cs : List γ) :
    proj (run step s cs) = (cs.filterMap given).getLast?.getD (proj s) := by
  induction cs using List.reverseRecOn with
  | nil => rfl
  | append_singleton cs c ih =>
    rw [run_concat, hstep, ih, List.filterMap_append]
    cases h : given c with
    | none => simp [h]
    | some b => simp [h]

/-- A flag that calls raise and none lowers is raised after a run when it was before, or when a call
of the run raises it. -/
theorem run_flag (flag : σ → Bool) {raises : γ → Bool}
    (hstep : ∀ s c, flag (step s c) = (flag s || raises c)) (s : σ) (cs : List γ) :
    flag (run step s cs) = (flag s || cs.any raises) := by
  induction cs generalizing s with
  | nil => simp
  | cons c cs ih => rw [run_cons, ih, hstep, List.any_cons, Bool.or_assoc]

/-! ## Runs that a call may end -/

/-- The calls up to the first one that stops the machine, with that one. -/
def upTo (stops : γ → Bool) : List γ → List γ
  | [] => []
  | c :: cs => if stops c then [c] else c :: upTo stops cs

/-- The state of a machine that takes no call after one that stops it. -/
def runUntil (stops : γ → Bool) (step : σ → γ → σ) (s : σ) : List γ → σ
  | [] => s
  | c :: cs => if stops c then step s c else runUntil stops step (step s c) cs

/-- **A run that a call may end** is the run of the calls up to that one, so what holds of every run
holds of it. -/
theorem runUntil_eq (stops : γ → Bool) (s : σ) (cs : List γ) :
    runUntil stops step s cs = run step s (upTo stops cs) := by
  induction cs generalizing s with
  | nil => rfl
  | cons c cs ih =>
    rw [runUntil, upTo]
    split
    · rfl
    · rw [run_cons, ih]

theorem upTo_eq_self {stops : γ → Bool} {cs : List γ} (h : ∀ c ∈ cs, stops c = false) :
    upTo stops cs = cs := by
  induction cs with
  | nil => rfl
  | cons c cs ih =>
    rw [upTo, if_neg (by simp [h c List.mem_cons_self]),
      ih fun d hd => h d (List.mem_cons_of_mem _ hd)]

/-! ## Properties of each call -/

/-- `P` holds of every call of the run, at the state the call was made in. -/
def AtEachCall (step : σ → γ → σ) (P : σ → γ → Prop) : σ → List γ → Prop
  | _, [] => True
  | s, c :: cs => P s c ∧ AtEachCall step P (step s c) cs

instance decidableAtEachCall {P : σ → γ → Prop} [∀ s c, Decidable (P s c)] :
    ∀ (s : σ) (cs : List γ), Decidable (AtEachCall step P s cs)
  | _, [] => isTrue trivial
  | s, c :: cs =>
    have : Decidable (AtEachCall step P (step s c) cs) := decidableAtEachCall (step s c) cs
    inferInstanceAs (Decidable (P s c ∧ AtEachCall step P (step s c) cs))

/-- `AtEachCall` read without the recursion: split the run at any call. -/
theorem atEachCall_iff {P : σ → γ → Prop} {s : σ} {cs : List γ} :
    AtEachCall step P s cs ↔
      ∀ pre c post, cs = pre ++ c :: post → P (run step s pre) c := by
  induction cs generalizing s with
  | nil =>
    simp only [AtEachCall, true_iff]
    intro pre c post h
    simp at h
  | cons d cs ih =>
    rw [AtEachCall, ih]
    constructor
    · rintro ⟨hd, htail⟩ pre c post h
      cases pre with
      | nil =>
        obtain ⟨rfl, -⟩ := List.cons.inj h
        exact hd
      | cons e pre =>
        rw [List.cons_append] at h
        obtain ⟨rfl, hcs⟩ := List.cons.inj h
        exact htail pre c post hcs
    · intro h
      refine ⟨h [] d cs rfl, fun pre c post hcs => ?_⟩
      exact h (d :: pre) c post (by rw [hcs]; rfl)

theorem atEachCall_append {P : σ → γ → Prop} {s : σ} {cs ds : List γ} :
    AtEachCall step P s (cs ++ ds) ↔
      AtEachCall step P s cs ∧ AtEachCall step P (run step s cs) ds := by
  induction cs generalizing s with
  | nil => simp [AtEachCall]
  | cons c cs ih => simp only [List.cons_append, AtEachCall, run_cons, ih, and_assoc]

theorem atEachCall_concat {P : σ → γ → Prop} {s : σ} {cs : List γ} {c : γ} :
    AtEachCall step P s (cs ++ [c]) ↔ AtEachCall step P s cs ∧ P (run step s cs) c := by
  rw [atEachCall_append]
  simp [AtEachCall]

theorem atEachCall_of_forall {ok : γ → Prop} {cs : List γ} (h : ∀ c ∈ cs, ok c) (s : σ) :
    AtEachCall step (fun _ c => ok c) s cs := by
  induction cs generalizing s with
  | nil => trivial
  | cons c cs ih =>
    rw [List.forall_mem_cons] at h
    exact ⟨h.1, ih h.2 (step s c)⟩

/-- Two properties that agree on every admitted call from a state with the invariant agree on
every run of admitted calls. -/
theorem atEachCall_congr {P Q ok : σ → γ → Prop} {I : σ → Prop}
    (hstep : ∀ s c, I s → ok s c → I (step s c))
    (hPQ : ∀ s c, I s → ok s c → (P s c ↔ Q s c)) :
    ∀ {cs : List γ} {s : σ}, I s → AtEachCall step ok s cs →
      (AtEachCall step P s cs ↔ AtEachCall step Q s cs) := by
  intro cs
  induction cs with
  | nil => intro s _ _; rfl
  | cons c cs ih =>
    intro s hs hok
    simp only [AtEachCall, hPQ s c hs hok.1, ih (hstep s c hs hok.1) hok.2]

/-- A property of the calls of a run passes to what it implies at states with the invariant. -/
theorem AtEachCall.mono {P Q : σ → γ → Prop} {I : σ → Prop} (hstep : ∀ s c, I s → I (step s c))
    (hPQ : ∀ s c, I s → P s c → Q s c) {cs : List γ} {s : σ} (hs : I s)
    (h : AtEachCall step P s cs) : AtEachCall step Q s cs := by
  induction cs generalizing s with
  | nil => trivial
  | cons c cs ih => exact ⟨hPQ s c hs h.1, ih (hstep s c hs) h.2⟩

/-! ## Append-only logs -/

/-- What the calls of a run write, one after the other. -/
def outputs (step : σ → γ → σ) (out : σ → γ → List ο) : σ → List γ → List ο
  | _, [] => []
  | s, c :: cs => out s c ++ outputs step out (step s c) cs

/-- **An append-only log after a run** is the log before it, followed by what each call wrote. -/
theorem run_outputs (log : σ → List ο) {out : σ → γ → List ο}
    (hstep : ∀ s c, log (step s c) = log s ++ out s c) (s : σ) (cs : List γ) :
    log (run step s cs) = log s ++ outputs step out s cs := by
  induction cs generalizing s with
  | nil => simp [outputs]
  | cons c cs ih => rw [run_cons, ih, hstep, outputs, List.append_assoc]

theorem outputs_concat {out : σ → γ → List ο} (s : σ) (cs : List γ) (c : γ) :
    outputs step out s (cs ++ [c]) = outputs step out s cs ++ out (run step s cs) c := by
  induction cs generalizing s with
  | nil => simp [outputs]
  | cons d cs ih => simp only [List.cons_append, outputs, ih, run_cons, List.append_assoc]

/-- What a run writes has a property exactly when what each call writes has it. -/
theorem forall_mem_outputs_iff {out : σ → γ → List ο} {P : ο → Prop} {s : σ} {cs : List γ} :
    (∀ x ∈ outputs step out s cs, P x) ↔ AtEachCall step (fun s c => ∀ x ∈ out s c, P x) s cs := by
  induction cs generalizing s with
  | nil => simp [outputs, AtEachCall]
  | cons c cs ih => simp only [outputs, AtEachCall, List.forall_mem_append, ih]

/-- A run writes nothing exactly when none of its calls does. -/
theorem outputs_eq_nil_iff {out : σ → γ → List ο} {s : σ} {cs : List γ} :
    outputs step out s cs = [] ↔ AtEachCall step (fun s c => out s c = []) s cs := by
  induction cs generalizing s with
  | nil => simp [outputs, AtEachCall]
  | cons c cs ih => simp only [outputs, AtEachCall, List.append_eq_nil_iff, ih]

/-- The part of an append-only log that was written since an earlier reading of it. -/
def since (before after : List ο) : List ο := after.drop before.length

@[simp] theorem since_append (before new : List ο) : since before (before ++ new) = new := by
  simp [since]

end SyntheticArbitrage
