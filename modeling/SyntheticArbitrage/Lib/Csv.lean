import Mathlib.Algebra.BigOperators.Group.List.Basic
import Mathlib.Algebra.Order.Ring.Nat
import Mathlib.Tactic.Common

/-!
# Files of lines and lines of fields

A file is a list of characters.  It is cut into lines at the line breaks, and a line into fields at
the commas.  Fields that would have to be quoted are not looked at.

* `lines`, `fields`: the cuts.
* `line`: the text of a list of fields, with its line break.
* `map_fields_lines`, `fields_intercalate`: a written file is read back.
* `length_lines`, `sum_count_lines`, `length_fields`: lines and fields are counted by the
  separators.
-/

namespace SyntheticArbitrage.Csv

/-! ## Cutting a list -/

section Split

variable {α : Type*} [BEq α] [LawfulBEq α] {a b : α}

theorem splitOn_cons_self (a : α) (xs : List α) : (a :: xs).splitOn a = [] :: xs.splitOn a :=
  (List.splitOnP_cons_eq_if_modifyHead a xs).trans (if_pos (beq_self_eq_true a))

theorem splitOn_cons_of_ne (h : b ≠ a) (xs : List α) :
    (b :: xs).splitOn a = (xs.splitOn a).modifyHead (b :: ·) :=
  (List.splitOnP_cons_eq_if_modifyHead b xs).trans (if_neg (by simpa using h))

omit [LawfulBEq α] in
theorem splitOn_ne_nil (a : α) (xs : List α) : xs.splitOn a ≠ [] := List.splitOnP_ne_nil _ xs

theorem splitOn_of_not_mem {xs : List α} (h : a ∉ xs) : xs.splitOn a = [xs] := by
  refine List.splitOnP_eq_singleton fun x hx => ?_
  rw [beq_eq_false_iff_ne]
  exact fun heq => h (heq ▸ hx)

theorem splitOn_append_cons_self (a : α) (xs ys : List α) :
    (xs ++ a :: ys).splitOn a = xs.splitOn a ++ ys.splitOn a :=
  List.splitOnP_append_cons xs ys (beq_self_eq_true a)

theorem length_splitOn (a : α) (xs : List α) : (xs.splitOn a).length = xs.count a + 1 := by
  induction xs with
  | nil => simp
  | cons b xs ih =>
    by_cases h : b = a
    · rw [h, splitOn_cons_self, List.length_cons, ih, List.count_cons_self]
    · rw [splitOn_cons_of_ne h, List.length_modifyHead, ih, List.count_cons_of_ne h]

theorem sum_count_splitOn {c : α} (hc : a ≠ c) (xs : List α) :
    ((xs.splitOn a).map (List.count c)).sum = xs.count c := by
  induction xs with
  | nil => simp
  | cons b xs ih =>
    by_cases h : b = a
    · rw [h, splitOn_cons_self, List.map_cons, List.sum_cons, ih, List.count_nil, zero_add,
        List.count_cons_of_ne hc]
    · rw [splitOn_cons_of_ne h]
      obtain ⟨piece, pieces, hpieces⟩ := List.exists_cons_of_ne_nil (splitOn_ne_nil a xs)
      rw [hpieces] at ih ⊢
      rw [List.modifyHead_cons, List.map_cons, List.sum_cons, List.count_cons, List.count_cons,
        ← ih, List.map_cons, List.sum_cons]
      omega

end Split

/-! ## Lines -/

/-- The lines of a file.  What follows the last line break is a line only when it is not empty. -/
def lines (file : List Char) : List (List Char) :=
  if (file.splitOn '\n').getLast? = some [] then (file.splitOn '\n').dropLast
  else file.splitOn '\n'

@[simp] theorem lines_nil : lines [] = [] := rfl

theorem lines_append_newline (front back : List Char) :
    lines (front ++ '\n' :: back) = front.splitOn '\n' ++ lines back := by
  have hne := splitOn_ne_nil '\n' back
  rw [lines, lines, splitOn_append_cons_self, List.getLast?_append_of_ne_nil _ hne]
  split
  · exact List.dropLast_append_of_ne_nil hne
  · rfl

theorem length_lines (front : List Char) :
    (lines (front ++ ['\n'])).length = (front ++ ['\n']).count '\n' := by
  rw [lines_append_newline, lines_nil, List.append_nil, length_splitOn]
  simp

theorem sum_count_lines (front : List Char) :
    ((lines (front ++ ['\n'])).map (List.count ',')).sum = (front ++ ['\n']).count ',' := by
  rw [lines_append_newline, lines_nil, List.append_nil, sum_count_splitOn (by decide)]
  simp

/-! ## Fields -/

def fields (text : List Char) : List (List Char) := text.splitOn ','

theorem length_fields (text : List Char) : (fields text).length = text.count ',' + 1 :=
  length_splitOn ',' text

def line (fields : List (List Char)) : List Char := [','].intercalate fields ++ ['\n']

/-- What a field that is not quoted cannot have in it. -/
def special : List Char := [',', '\n', '\r', '"']

/-- A text that can stand in a field. -/
def Plain (text : List Char) : Prop := ∀ c ∈ text, c ∉ special

instance (text : List Char) : Decidable (Plain text) := List.decidableBAll _ text

theorem Plain.comma_not_mem {text : List Char} (h : Plain text) : ',' ∉ text :=
  fun hc => h _ hc (by decide)

theorem Plain.newline_not_mem {text : List Char} (h : Plain text) : '\n' ∉ text :=
  fun hc => h _ hc (by decide)

theorem fields_intercalate {texts : List (List Char)} (hne : texts ≠ [])
    (h : ∀ text ∈ texts, Plain text) : fields ([','].intercalate texts) = texts :=
  List.splitOn_intercalate ',' (fun text ht => (h text ht).comma_not_mem) hne

theorem newline_not_mem_intercalate {texts : List (List Char)} (h : ∀ text ∈ texts, Plain text) :
    '\n' ∉ [','].intercalate texts := by
  induction texts with
  | nil => simp
  | cons text texts ih =>
    rcases eq_or_ne texts [] with rfl | hne
    · rw [List.intercalate_singleton]
      exact (h text List.mem_cons_self).newline_not_mem
    · rw [List.intercalate_cons_of_ne_nil hne]
      simp only [List.mem_append, List.mem_singleton, not_or]
      exact ⟨⟨(h text List.mem_cons_self).newline_not_mem, by decide⟩,
        ih fun t ht => h t (List.mem_cons_of_mem _ ht)⟩

theorem count_line {texts : List (List Char)} (hne : texts ≠ [])
    (h : ∀ text ∈ texts, Plain text) :
    (line texts).count '\n' = 1 ∧ (line texts).count ',' + 1 = texts.length := by
  constructor
  · rw [line, List.count_append, List.count_eq_zero.mpr (newline_not_mem_intercalate h)]
    rfl
  · have hfields := length_fields ([','].intercalate texts)
    rw [fields_intercalate hne h] at hfields
    rw [line, List.count_append, hfields]
    rfl

/-- **A file of written lines is read back.** -/
theorem map_fields_lines {rows : List (List (List Char))}
    (h : ∀ row ∈ rows, row ≠ [] ∧ ∀ text ∈ row, Plain text) :
    (lines (rows.flatMap line)).map fields = rows := by
  induction rows with
  | nil => rfl
  | cons row rows ih =>
    obtain ⟨hne, hplain⟩ := h row List.mem_cons_self
    rw [List.flatMap_cons, line, List.append_assoc, List.singleton_append, lines_append_newline,
      splitOn_of_not_mem (newline_not_mem_intercalate hplain), List.map_append,
      ih fun r hr => h r (List.mem_cons_of_mem _ hr), List.map_singleton,
      fields_intercalate hne hplain]
    rfl

end SyntheticArbitrage.Csv
