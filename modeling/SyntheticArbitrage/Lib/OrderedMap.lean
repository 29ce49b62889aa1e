import Mathlib.Data.List.Basic
import Mathlib.Order.Lattice

/-!
# Ordered maps

A map as the list of its entries in the order of their keys.

* `assign`: an assignment to the element of a key, which can be a new one.
* `lookup_assign`: what is found after an assignment.
* `Sorted`: the entries stand in the order of their keys; `Sorted.assign`: an assignment keeps it.
* `assignAll`, `lookup_assignAll`: assignments one after the other; **the last one for a key is
  found**.
* `assignAll_of_sorted`: sorted entries are assigned to themselves.
-/

namespace SyntheticArbitrage.OrderedMap

variable {κ α : Type*} [LinearOrder κ]

def assign (key : κ) (v : α) : List (κ × α) → List (κ × α)
  | [] => [(key, v)]
  | (k, w) :: entries =>
    if key < k then (key, v) :: (k, w) :: entries
    else if key = k then (key, v) :: entries
    else (k, w) :: assign key v entries

def assignAll (entries : List (κ × α)) (writes : List (κ × α)) : List (κ × α) :=
  writes.foldl (fun entries write => assign write.1 write.2 entries) entries

/-- The entries stand in the order of their keys, each with a key of its own. -/
def Sorted (entries : List (κ × α)) : Prop := entries.Pairwise fun e f => e.1 < f.1

theorem assign_assign (key : κ) (v w : α) (entries : List (κ × α)) :
    assign key v (assign key w entries) = assign key v entries := by
  induction entries with
  | nil => simp [assign]
  | cons e entries ih =>
    obtain ⟨k, u⟩ := e
    rw [assign, assign]
    split_ifs with hlt heq
    · rw [assign, if_neg (lt_irrefl key), if_pos rfl]
    · rw [assign, if_neg (lt_irrefl key), if_pos rfl]
    · rw [assign, if_neg hlt, if_neg heq, ih]

theorem lookup_cons (k key : κ) (v : α) (entries : List (κ × α)) :
    ((key, v) :: entries).lookup k = if k = key then some v else entries.lookup k := by
  rw [List.lookup_cons]
  by_cases h : k = key
  · rw [if_pos h, beq_iff_eq.mpr h]
  · rw [if_neg h, beq_false_of_ne h]

/-- After an assignment the new value is found, and what was there under other keys. -/
theorem lookup_assign (k key : κ) (v : α) (entries : List (κ × α)) :
    (assign key v entries).lookup k = if k = key then some v else entries.lookup k := by
  induction entries with
  | nil => exact lookup_cons k key v []
  | cons e entries ih =>
    obtain ⟨k', w⟩ := e
    rw [assign]
    by_cases hlt : key < k'
    · rw [if_pos hlt, lookup_cons]
    · rw [if_neg hlt]
      by_cases heq : key = k'
      · subst heq
        rw [if_pos rfl, lookup_cons, lookup_cons]
        split_ifs <;> rfl
      · rw [if_neg heq, lookup_cons, lookup_cons, ih]
        by_cases hk : k = key
        · rw [if_pos hk, if_neg (by rwa [hk]), if_pos hk]
        · rw [if_neg hk, if_neg hk]

theorem mem_assign {key : κ} {v : α} {entries : List (κ × α)} {e : κ × α}
    (h : e ∈ assign key v entries) : e = (key, v) ∨ e ∈ entries := by
  induction entries with
  | nil => exact Or.inl (List.mem_singleton.mp h)
  | cons f entries ih =>
    rw [assign] at h
    split_ifs at h with hlt heq
    · exact (List.mem_cons.mp h)
    · exact (List.mem_cons.mp h).imp_right (List.mem_cons_of_mem f)
    · rcases List.mem_cons.mp h with rfl | h
      · exact Or.inr List.mem_cons_self
      · exact (ih h).imp_right (List.mem_cons_of_mem f)

theorem Sorted.assign {entries : List (κ × α)} (h : Sorted entries) (key : κ) (v : α) :
    Sorted (assign key v entries) := by
  induction entries with
  | nil => exact List.pairwise_singleton _ _
  | cons f entries ih =>
    obtain ⟨hf, hrest⟩ := List.pairwise_cons.mp h
    rw [OrderedMap.assign]
    split_ifs with hlt heq
    · refine List.pairwise_cons.mpr ⟨?_, h⟩
      intro e he
      rcases List.mem_cons.mp he with rfl | he
      · exact hlt
      · exact lt_trans hlt (hf e he)
    · refine List.pairwise_cons.mpr ⟨?_, hrest⟩
      rw [heq]
      exact hf
    · refine List.pairwise_cons.mpr ⟨?_, ih hrest⟩
      intro e he
      rcases mem_assign he with rfl | he
      · exact lt_of_le_of_ne (not_lt.mp hlt) (Ne.symm heq)
      · exact hf e he

/-- An entry with a key above the others is added at the end. -/
theorem assign_of_forall_lt {entries : List (κ × α)} {key : κ} (h : ∀ e ∈ entries, e.1 < key)
    (v : α) : assign key v entries = entries ++ [(key, v)] := by
  induction entries with
  | nil => rfl
  | cons f entries ih =>
    obtain ⟨hf, hrest⟩ := List.forall_mem_cons.mp h
    rw [assign, if_neg (not_lt.mpr (le_of_lt hf)), if_neg (ne_of_gt hf), ih hrest]
    rfl

theorem Sorted.assignAll {entries : List (κ × α)} (h : Sorted entries) (writes : List (κ × α)) :
    Sorted (assignAll entries writes) := by
  induction writes generalizing entries with
  | nil => exact h
  | cons write writes ih => exact ih (h.assign write.1 write.2)

/-- **The last write for a key is found**, or what was there before. -/
theorem lookup_assignAll (k : κ) (entries writes : List (κ × α)) :
    (assignAll entries writes).lookup k = (writes.reverse.lookup k).or (entries.lookup k) := by
  induction writes generalizing entries with
  | nil => rfl
  | cons write writes ih =>
    rw [assignAll, List.foldl_cons, ← assignAll, ih, lookup_assign, List.reverse_cons,
      List.lookup_append, lookup_cons, Option.or_assoc]
    split_ifs <;> rfl

/-- Entries that come in order are kept as they are. -/
theorem assignAll_of_sorted {entries writes : List (κ × α)} (h : Sorted (entries ++ writes)) :
    assignAll entries writes = entries ++ writes := by
  induction writes generalizing entries with
  | nil => exact (List.append_nil entries).symm
  | cons write writes ih =>
    obtain ⟨hentries, -, hlt⟩ := List.pairwise_append.mp h
    rw [assignAll, List.foldl_cons, ← assignAll,
      assign_of_forall_lt fun e he => hlt e he write List.mem_cons_self]
    rw [ih (by simpa using h)]
    simp

end SyntheticArbitrage.OrderedMap
