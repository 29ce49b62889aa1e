import SyntheticArbitrage.Lib.Run
import Mathlib.Algebra.BigOperators.Group.Finset.Basic
import Mathlib.Algebra.Order.Group.Multiset
import Mathlib.Data.Fintype.Basic

/-!
# One file and several buffered writers

Writers of type `ω` append to one file.  What a writer puts stays in its own buffer until the buffer
is flushed, so the file is a mixture of what was put that depends on when each buffer is flushed.

* `step`: one put or one flush; a run is `run step`.
* `content_run`: whatever the order of the flushes, the file and the buffers together hold what was
  put.
* `file_run_of_single`: one writer alone continues the file.
* `ended_run`: if what each writer puts ends with a given symbol, so does the file once the buffers
  are empty.
-/

namespace SyntheticArbitrage

/-- A file, and what its writers have not written to it yet. -/
structure SharedFile (ω α : Type*) where
  file : List α
  buffer : ω → List α

namespace SharedFile

variable {ω α : Type*} [DecidableEq ω]

inductive Op (ω α : Type*) where
  | put (w : ω) (text : List α)
  | flush (w : ω)

def step (s : SharedFile ω α) : Op ω α → SharedFile ω α
  | .put w text => { s with buffer := Function.update s.buffer w (s.buffer w ++ text) }
  | .flush w => ⟨s.file ++ s.buffer w, Function.update s.buffer w []⟩

theorem buffer_put_self (s : SharedFile ω α) (w : ω) (text : List α) :
    (s.step (.put w text)).buffer w = s.buffer w ++ text := Function.update_self _ _ _

theorem buffer_put_of_ne (s : SharedFile ω α) {v w : ω} (h : w ≠ v) (text : List α) :
    (s.step (.put v text)).buffer w = s.buffer w := Function.update_of_ne h _ _

theorem buffer_flush_self (s : SharedFile ω α) (w : ω) : (s.step (.flush w)).buffer w = [] :=
  Function.update_self _ _ _

theorem buffer_flush_of_ne (s : SharedFile ω α) {v w : ω} (h : w ≠ v) :
    (s.step (.flush v)).buffer w = s.buffer w := Function.update_of_ne h _ _

/-- What an operation puts, and by which writer. -/
def written : Op ω α → Option (ω × List α)
  | .put w text => some (w, text)
  | .flush _ => none

def putBy (w : ω) (ops : List (Op ω α)) : List α :=
  (ops.filterMap written).flatMap fun p => if p.1 = w then p.2 else []

@[simp] theorem putBy_nil (w : ω) : putBy w ([] : List (Op ω α)) = [] := rfl

@[simp] theorem putBy_put (w v : ω) (text : List α) (ops : List (Op ω α)) :
    putBy w (.put v text :: ops) = (if v = w then text else []) ++ putBy w ops := rfl

@[simp] theorem putBy_flush (w v : ω) (ops : List (Op ω α)) :
    putBy w (.flush v :: ops) = putBy w ops := rfl

/-! ## Nothing is lost and nothing is added -/

section Content

variable [Fintype ω]

/-- All that is in the file and in the buffers, without the order. -/
def content (s : SharedFile ω α) : Multiset α :=
  (s.file : Multiset α) + ∑ w, (s.buffer w : Multiset α)

theorem content_step (s : SharedFile ω α) (op : Op ω α) :
    (s.step op).content = s.content + ((written op).map fun p => (p.2 : Multiset α)).getD 0 := by
  cases op with
  | put w text =>
    have hsum : ∑ v, (Function.update s.buffer w (s.buffer w ++ text) v : Multiset α) =
        ∑ v, (s.buffer v : Multiset α) + (text : Multiset α) := by
      rw [← Finset.add_sum_erase _ _ (Finset.mem_univ w), Function.update_self,
        ← Finset.add_sum_erase _ (fun v => (s.buffer v : Multiset α)) (Finset.mem_univ w),
        ← Multiset.coe_add, add_right_comm]
      congr 2
      refine Finset.sum_congr rfl fun v hv => ?_
      rw [Function.update_of_ne (Finset.ne_of_mem_erase hv)]
    rw [content, step, hsum, ← add_assoc]
    rfl
  | flush w =>
    have hsum : (s.buffer w : Multiset α) +
        ∑ v, (Function.update s.buffer w [] v : Multiset α) = ∑ v, (s.buffer v : Multiset α) := by
      rw [← Finset.add_sum_erase _ _ (Finset.mem_univ w), Function.update_self,
        ← Finset.add_sum_erase _ (fun v => (s.buffer v : Multiset α)) (Finset.mem_univ w),
        Multiset.coe_nil, zero_add]
      congr 1
      refine Finset.sum_congr rfl fun v hv => ?_
      rw [Function.update_of_ne (Finset.ne_of_mem_erase hv)]
    rw [content, step, ← Multiset.coe_add, add_assoc, hsum]
    exact (add_zero _).symm

/-- **Conservation.**  A run adds what is put to the file and the buffers, and nothing else. -/
theorem content_run (s : SharedFile ω α) (ops : List (Op ω α)) :
    (run step s ops).content =
      s.content + (((ops.filterMap written).flatMap Prod.snd : List α) : Multiset α) := by
  induction ops generalizing s with
  | nil => simp
  | cons op ops ih =>
    rw [run_cons, ih, content_step, add_assoc]
    congr 1
    cases op with
    | put w text =>
      have hput : written (.put w text : Op ω α) = some (w, text) := rfl
      rw [List.filterMap_cons_some hput, List.flatMap_cons, ← Multiset.coe_add]
      rfl
    | flush w =>
      have hflush : written (.flush w : Op ω α) = none := rfl
      rw [List.filterMap_cons_none hflush]
      exact zero_add _

omit [DecidableEq ω] in
theorem content_of_flushed {s : SharedFile ω α} (h : ∀ w, s.buffer w = []) :
    s.content = (s.file : Multiset α) := by
  simp [content, h]

end Content

/-! ## The end of the file -/

/-- What a writer has left to write. -/
def rest (s : SharedFile ω α) (ops : List (Op ω α)) (w : ω) : List α := s.buffer w ++ putBy w ops

theorem rest_put (s : SharedFile ω α) (v : ω) (text : List α) (ops : List (Op ω α)) (w : ω) :
    rest (s.step (.put v text)) ops w = rest s (.put v text :: ops) w := by
  rw [rest, rest, putBy_put]
  by_cases h : v = w
  · subst h
    rw [buffer_put_self, if_pos rfl, List.append_assoc]
  · rw [buffer_put_of_ne s (Ne.symm h), if_neg h, List.nil_append]

theorem rest_flush_self (s : SharedFile ω α) (v : ω) (ops : List (Op ω α)) :
    rest s (.flush v :: ops) v = s.buffer v ++ rest (s.step (.flush v)) ops v := by
  rw [rest, rest, putBy_flush, buffer_flush_self, List.nil_append]

theorem rest_flush_of_ne (s : SharedFile ω α) {v w : ω} (h : w ≠ v) (ops : List (Op ω α)) :
    rest (s.step (.flush v)) ops w = rest s (.flush v :: ops) w := by
  rw [rest, rest, putBy_flush, buffer_flush_of_ne s h]

theorem rest_suffix (s : SharedFile ω α) (op : Op ω α) (ops : List (Op ω α)) (w : ω) :
    rest (s.step op) ops w <:+ rest s (op :: ops) w := by
  cases op with
  | put v text => rw [rest_put]
  | flush v =>
    by_cases h : w = v
    · subst h
      rw [rest_flush_self]
      exact List.suffix_append _ _
    · rw [rest_flush_of_ne s h]

/-- When only one writer has anything left to write, the file is continued with it. -/
theorem file_run_of_single {s : SharedFile ω α} {ops : List (Op ω α)} {w : ω}
    (h : ∀ v, v ≠ w → rest s ops v = []) (hflushed : ∀ v, (run step s ops).buffer v = []) :
    (run step s ops).file = s.file ++ rest s ops w := by
  induction ops generalizing s with
  | nil => rw [rest, putBy_nil, List.append_nil, show s.buffer w = [] from hflushed w,
      List.append_nil, run_nil]
  | cons op ops ih =>
    have hother : ∀ v, v ≠ w → rest (s.step op) ops v = [] := by
      intro v hv
      have hsuffix := rest_suffix s op ops v
      rw [h v hv] at hsuffix
      exact List.suffix_nil.mp hsuffix
    rw [run_cons] at hflushed ⊢
    rw [ih hother hflushed]
    cases op with
    | put v text =>
      rw [rest_put]
      rfl
    | flush v =>
      show (s.file ++ s.buffer v) ++ _ = _
      by_cases hwv : w = v
      · subst hwv
        rw [rest_flush_self, List.append_assoc]
      · have hrest := h v (Ne.symm hwv)
        rw [rest_flush_self, List.append_eq_nil_iff] at hrest
        rw [rest_flush_of_ne s hwv, hrest.1, List.append_nil]

/-- Empty, or ended by `a`. -/
def Ended (a : α) (text : List α) : Prop := text = [] ∨ ∃ front, text = front ++ [a]

theorem Ended.append {a : α} {front back : List α} (h : Ended a back) (hfront : Ended a front) :
    Ended a (front ++ back) := by
  rcases h with rfl | ⟨rest, rfl⟩
  · rwa [List.append_nil]
  · exact Or.inr ⟨front ++ rest, (List.append_assoc _ _ _).symm⟩

theorem Ended.of_suffix {a : α} {text back : List α} (h : Ended a text) (hback : back <:+ text) :
    Ended a back := by
  obtain ⟨front, rfl⟩ := hback
  rcases List.eq_nil_or_concat' back with rfl | ⟨init, b, rfl⟩
  · exact Or.inl rfl
  · rcases h with h | ⟨rest, h⟩
    · simp at h
    · rw [← List.append_assoc] at h
      rw [(List.append_inj' h rfl).2]
      exact Or.inr ⟨init, rfl⟩

/-- **The end of the file.**  When what each writer has left to write ends with `a`, and the file
does or something is left to write, the file ends with `a` once all buffers are empty. -/
theorem ended_run {a : α} {s : SharedFile ω α} {ops : List (Op ω α)}
    (hrest : ∀ w, Ended a (rest s ops w)) (hfile : Ended a s.file ∨ ∃ w, rest s ops w ≠ [])
    (hflushed : ∀ w, (run step s ops).buffer w = []) : Ended a (run step s ops).file := by
  induction ops generalizing s with
  | nil =>
    rcases hfile with hfile | ⟨w, hw⟩
    · exact hfile
    · rw [rest, putBy_nil, List.append_nil] at hw
      exact absurd (hflushed w) hw
  | cons op ops ih =>
    rw [run_cons] at hflushed ⊢
    refine ih (fun w => (hrest w).of_suffix (rest_suffix s op ops w)) ?_ hflushed
    cases op with
    | put v text =>
      simp only [rest_put]
      exact hfile
    | flush v =>
      have hv := hrest v
      rw [rest_flush_self] at hv
      by_cases hrestv : rest (s.step (.flush v)) ops v = []
      · rw [hrestv, List.append_nil] at hv
        rcases hv with hnil | ⟨front, hfront⟩
        · -- an empty buffer: nothing has changed
          rcases hfile with hfile | ⟨w, hw⟩
          · left
            show Ended a (s.file ++ s.buffer v)
            rwa [hnil, List.append_nil]
          · right
            have hne : w ≠ v := by
              rintro rfl
              exact hw (by rw [rest_flush_self, hnil, hrestv]; rfl)
            exact ⟨w, by rwa [rest_flush_of_ne s hne]⟩
        · left
          show Ended a (s.file ++ s.buffer v)
          rw [hfront]
          exact Or.inr ⟨s.file ++ front, (List.append_assoc _ _ _).symm⟩
      · exact Or.inr ⟨v, hrestv⟩

end SharedFile

end SyntheticArbitrage
