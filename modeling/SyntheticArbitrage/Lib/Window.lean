import Mathlib.Data.List.Induction
import Mathlib.Tactic.Common

/-!
# Sliding windows

A `Window α cap` is a queue of at most `cap` items; `push` appends an item and lets the oldest
one go when there are too many.  The bound is a field, so no longer queue can be built.

* `push_items`: the items after a push, as a suffix of the items before and the new one.
* `pushAll_items`: **after any pushes the window holds the last `cap` items**, in order.
-/

namespace SyntheticArbitrage

/-- A queue of at most `cap` items, oldest first. -/
@[ext]
structure Window (α : Type*) (cap : ℕ) where
  items : List α
  size_le : items.length ≤ cap

namespace Window

variable {α : Type*} {cap : ℕ}

def empty : Window α cap := ⟨[], Nat.zero_le _⟩

/-- The last `cap` entries of a list. -/
def lastN (cap : ℕ) (l : List α) : List α := l.drop (l.length - cap)

theorem lastN_length (l : List α) : (lastN cap l).length = min l.length cap := by
  rw [lastN, List.length_drop]
  omega

theorem lastN_of_length_le {l : List α} (h : l.length ≤ cap) : lastN cap l = l := by
  rw [lastN, Nat.sub_eq_zero_of_le h, List.drop_zero]

/-- The last entries of a list whose front has already been cut to its last entries. -/
theorem lastN_lastN_append (l : List α) (x : α) :
    lastN cap (lastN cap l ++ [x]) = lastN cap (l ++ [x]) := by
  rcases Nat.le_total l.length cap with h | h
  · rw [lastN_of_length_le h]
  · have hlen : (lastN cap l).length = cap := by rw [lastN_length, Nat.min_eq_right h]
    have hdrop : (l ++ [x]).drop (l.length - cap) = lastN cap l ++ [x] := by
      rw [List.drop_append_of_le_length (Nat.sub_le _ _), lastN]
    have hstep : lastN cap (l ++ [x]) = ((l ++ [x]).drop (l.length - cap)).drop 1 := by
      rw [List.drop_drop, lastN, List.length_append, List.length_singleton]
      congr 1
      omega
    rw [hstep, hdrop, lastN, List.length_append, List.length_singleton, hlen]
    congr 1
    omega

/-- Append an item, and drop the oldest when the window is then too long. -/
def push (w : Window α cap) (x : α) : Window α cap where
  items := if cap < (w.items ++ [x]).length then (w.items ++ [x]).drop 1 else w.items ++ [x]
  size_le := by
    have := w.size_le
    split <;> simp only [List.length_drop, List.length_append, List.length_singleton] at * <;> omega

theorem push_items (w : Window α cap) (x : α) : (w.push x).items = lastN cap (w.items ++ [x]) := by
  have hw := w.size_le
  have hlen : (w.items ++ [x]).length = w.items.length + 1 := by simp
  simp only [push, lastN, hlen]
  split
  · congr 1
    omega
  · rw [Nat.sub_eq_zero_of_le (by omega), List.drop_zero]

def pushAll (w : Window α cap) (xs : List α) : Window α cap := xs.foldl push w

@[simp] theorem pushAll_concat (w : Window α cap) (xs : List α) (x : α) :
    w.pushAll (xs ++ [x]) = (w.pushAll xs).push x := by
  simp [pushAll]

/-- **A window holds the last items pushed.** -/
theorem pushAll_items (w : Window α cap) (xs : List α) :
    (w.pushAll xs).items = lastN cap (w.items ++ xs) := by
  induction xs using List.reverseRecOn with
  | nil => rw [List.append_nil, lastN_of_length_le w.size_le]; rfl
  | append_singleton xs x ih =>
    rw [pushAll_concat, push_items, ih, lastN_lastN_append, List.append_assoc]

end Window

end SyntheticArbitrage
