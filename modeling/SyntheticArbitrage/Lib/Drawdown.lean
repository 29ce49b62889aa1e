import Mathlib.Algebra.BigOperators.Group.List.Basic
import Mathlib.Algebra.Order.Group.Basic
import Mathlib.Order.Bounds.Basic
import Mathlib.Tactic.Common

/-!
# Falls of a curve

A curve is the list of its points.  A fall goes from a point down to a later one or to the point
itself; the drawdown at a point goes from the highest point so far.

* `IsFall`, `isFall_iff`: the falls of a curve.
* `isFall_drop_partialSums_iff`: the falls of a curve that is given by its steps.
* `peaks`, `drawdowns`: the highest point so far, and how far each point is below it.
* `isGreatest_falls`: **the greatest drawdown is the greatest fall.**
-/

namespace SyntheticArbitrage.Drawdown

variable {α : Type*} [AddCommGroup α]

/-! ## Falls -/

/-- A fall of a curve from a point to the same or a later one. -/
inductive IsFall : List α → α → Prop
  | here {a b : α} {curve : List α} (hb : b ∈ a :: curve) : IsFall (a :: curve) (a - b)
  | there {a d : α} {curve : List α} (h : IsFall curve d) : IsFall (a :: curve) d

theorem isFall_cons_iff {a d : α} {curve : List α} :
    IsFall (a :: curve) d ↔ (∃ b ∈ a :: curve, d = a - b) ∨ IsFall curve d := by
  constructor
  · intro h
    cases h with
    | here hb => exact Or.inl ⟨_, hb, rfl⟩
    | there h => exact Or.inr h
  · rintro (⟨b, hb, rfl⟩ | h)
    · exact .here hb
    · exact .there h

theorem isFall_iff {curve : List α} {d : α} :
    IsFall curve d ↔ ∃ i j : ℕ, i ≤ j ∧ ∃ a ∈ curve[i]?, ∃ b ∈ curve[j]?, d = a - b := by
  constructor
  · intro h
    induction h with
    | here hb =>
      obtain ⟨j, hj⟩ := List.mem_iff_getElem?.mp hb
      exact ⟨0, j, Nat.zero_le j, _, rfl, _, hj, rfl⟩
    | there _ ih =>
      obtain ⟨i, j, hij, a, ha, b, hb, hd⟩ := ih
      exact ⟨i + 1, j + 1, Nat.succ_le_succ hij, a, ha, b, hb, hd⟩
  · rintro ⟨i, j, hij, a, ha, b, hb, rfl⟩
    induction i generalizing j curve with
    | zero =>
      cases curve with
      | nil => cases ha
      | cons c curve =>
        cases ha
        exact .here (List.mem_iff_getElem?.mpr ⟨j, hb⟩)
    | succ i ih =>
      cases curve with
      | nil => cases ha
      | cons c curve =>
        cases j with
        | zero => omega
        | succ j => exact .there (ih j (Nat.le_of_succ_le_succ hij) ha hb)

/-! ## Curves given by their steps -/

/-- The points of the curve that goes on from `e` by the steps. -/
def partialSums (e : α) : List α → List α
  | [] => []
  | p :: ps => (e + p) :: partialSums (e + p) ps

theorem getElem?_partialSums (e : α) (ps : List α) (k : ℕ) :
    (e :: partialSums e ps)[k]? = if k ≤ ps.length then some (e + (ps.take k).sum) else none := by
  induction ps generalizing e k with
  | nil =>
    cases k with
    | zero => simp
    | succ k => simp [partialSums]
  | cons p ps ih =>
    cases k with
    | zero => simp
    | succ k =>
      rw [List.getElem?_cons_succ, partialSums, ih]
      simp [add_assoc]

/-- The height of the curve after `k` steps. -/
def height (ps : List α) (k : ℕ) : α := (ps.take k).sum

/-- **The falls of a curve given by its steps**, from a point after the first `s` steps on. -/
theorem isFall_drop_partialSums_iff {ps : List α} {s : ℕ} {d : α} :
    IsFall ((0 :: partialSums 0 ps).drop s) d ↔
      ∃ i j, s ≤ i ∧ i ≤ j ∧ j ≤ ps.length ∧ d = height ps i - height ps j := by
  rw [isFall_iff]
  simp only [List.getElem?_drop, getElem?_partialSums, zero_add]
  constructor
  · intro h
    obtain ⟨i, j, hij, a, ha, b, hb, rfl⟩ := h
    split at hb
    · next hj =>
      rw [if_pos (by omega)] at ha
      cases ha
      cases hb
      exact ⟨s + i, s + j, Nat.le_add_right s i, by omega, hj, rfl⟩
    · cases hb
  · intro h
    obtain ⟨i, j, hi, hij, hj, rfl⟩ := h
    refine ⟨i - s, j - s, by omega, height ps i, ?_, height ps j, ?_, rfl⟩
    · rw [Nat.add_sub_cancel' hi, if_pos (hij.trans hj)]
      rfl
    · rw [Nat.add_sub_cancel' (hi.trans hij), if_pos hj]
      rfl

/-! ## The highest point so far -/

variable [LinearOrder α]

/-- The highest of `m` and the points so far. -/
def peaks (m : α) : List α → List α
  | [] => []
  | x :: xs => max m x :: peaks (max m x) xs

/-- How far each point is below the highest so far. -/
def drawdowns (m : α) (curve : List α) : List α := List.zipWith (· - ·) (peaks m curve) curve

omit [AddCommGroup α] in
theorem isGreatest_foldl_max (x : α) (xs : List α) :
    IsGreatest {y | y ∈ x :: xs} (xs.foldl max x) := by
  induction xs generalizing x with
  | nil => simp
  | cons y xs ih =>
    obtain ⟨hmem, hle⟩ := ih (max x y)
    rw [List.foldl_cons]
    constructor
    · show xs.foldl max (max x y) ∈ x :: y :: xs
      rcases List.mem_cons.mp hmem with heq | htail
      · rw [heq]
        rcases max_choice x y with h | h <;> rw [h] <;> simp
      · exact List.mem_cons_of_mem x (List.mem_cons_of_mem y htail)
    · intro z hz
      rcases List.mem_cons.mp hz with rfl | hz
      · exact (le_max_left _ y).trans (hle List.mem_cons_self)
      · rcases List.mem_cons.mp hz with rfl | hz
        · exact (le_max_right x _).trans (hle List.mem_cons_self)
        · exact hle (List.mem_cons_of_mem _ hz)

theorem drawdowns_cons (m x : α) (curve : List α) :
    drawdowns m (x :: curve) = (max m x - x) :: drawdowns (max m x) curve := rfl

theorem mem_drawdowns_of_tail {m x e : α} {curve : List α}
    (h : e ∈ 0 :: drawdowns (max m x) curve) : e ∈ 0 :: drawdowns m (x :: curve) := by
  rcases List.mem_cons.mp h with rfl | h
  · exact List.mem_cons_self
  · exact List.mem_cons_of_mem 0 (List.mem_cons_of_mem _ h)

theorem isFall_of_mem_drawdowns {m d : α} {curve : List α} (h : d ∈ 0 :: drawdowns m curve) :
    IsFall (m :: curve) d := by
  induction curve generalizing m with
  | nil =>
    rw [List.mem_singleton.mp h, ← sub_self m]
    exact .here List.mem_cons_self
  | cons x curve ih =>
    rw [drawdowns_cons] at h
    rcases List.mem_cons.mp h with rfl | h
    · rw [← sub_self m]
      exact .here List.mem_cons_self
    · -- the highest point so far is the one before or the new one
      rcases max_choice m x with hmax | hmax
      · rw [hmax] at h
        rcases List.mem_cons.mp h with rfl | h
        · exact .here (List.mem_cons_of_mem m List.mem_cons_self)
        · rcases isFall_cons_iff.mp (ih (List.mem_cons_of_mem 0 h)) with ⟨b, hb, rfl⟩ | hrest
          · refine .here ?_
            rcases List.mem_cons.mp hb with rfl | hb
            · exact List.mem_cons_self
            · exact List.mem_cons_of_mem m (List.mem_cons_of_mem x hb)
          · exact .there (.there hrest)
      · rw [hmax] at h
        rcases List.mem_cons.mp h with rfl | h
        · exact .there (.here List.mem_cons_self)
        · exact .there (ih (List.mem_cons_of_mem 0 h))

variable [IsOrderedAddMonoid α]

theorem le_drawdown_of_isFall {m d : α} {curve : List α} (h : IsFall (m :: curve) d) :
    ∃ e ∈ 0 :: drawdowns m curve, d ≤ e := by
  induction curve generalizing m d with
  | nil =>
    rcases isFall_cons_iff.mp h with ⟨b, hb, rfl⟩ | hrest
    · rw [List.mem_singleton.mp hb, sub_self]
      exact ⟨0, List.mem_cons_self, le_rfl⟩
    · cases hrest
  | cons x curve ih =>
    -- a fall from a point that is not above the peak is at most the one from the peak
    have hpeak : ∀ a b, a ≤ max m x → b ∈ x :: curve →
        ∃ e ∈ 0 :: drawdowns m (x :: curve), a - b ≤ e := by
      intro a b ha hb
      have hle : a - b ≤ max m x - b := sub_le_sub_right ha b
      rcases List.mem_cons.mp hb with rfl | hb
      · exact ⟨_, List.mem_cons_of_mem 0 List.mem_cons_self, hle⟩
      · obtain ⟨e, he, hbe⟩ := ih (m := max m x) (.here (List.mem_cons_of_mem _ hb))
        exact ⟨e, mem_drawdowns_of_tail he, hle.trans hbe⟩
    rcases isFall_cons_iff.mp h with ⟨b, hb, rfl⟩ | hrest
    · rcases List.mem_cons.mp hb with rfl | hb
      · rw [sub_self]
        exact ⟨0, List.mem_cons_self, le_rfl⟩
      · exact hpeak m b (le_max_left m x) hb
    · rcases isFall_cons_iff.mp hrest with ⟨b, hb, rfl⟩ | hrest
      · exact hpeak x b (le_max_right m x) hb
      · obtain ⟨e, he, hde⟩ := ih (m := max m x) (.there hrest)
        exact ⟨e, mem_drawdowns_of_tail he, hde⟩

/-- **The greatest drawdown is the greatest fall** of a curve that starts at `m`. -/
theorem isGreatest_falls (m : α) (curve : List α) :
    IsGreatest {d | IsFall (m :: curve) d} ((drawdowns m curve).foldl max 0) := by
  obtain ⟨hmem, hle⟩ := isGreatest_foldl_max (0 : α) (drawdowns m curve)
  refine ⟨isFall_of_mem_drawdowns hmem, fun d hd => ?_⟩
  obtain ⟨e, he, hde⟩ := le_drawdown_of_isFall hd
  exact hde.trans (hle he)

end SyntheticArbitrage.Drawdown
