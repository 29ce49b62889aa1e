import Mathlib.Data.List.Pairwise
import Mathlib.Data.Option.Basic

/-!
# Greedy selection of spaced items

The items of a list, ordered by `before`, are taken one by one, each when it is far enough from the
one taken before it.  `far a b` says that `b` comes far enough after `a`; what is far from a later
item is far from an earlier one.

* `greedy`: the items taken, after the last item taken before the list.
* `greedy_concat`: one more item is taken when it is far from the last one taken.
* `greedy_sublist`, `greedy_pairwise`: they are items of the list, each far from every earlier one.
* `length_le_greedy`: **no other choice of items far from each other is longer**.
-/

namespace SyntheticArbitrage.Greedy

variable {α : Type*} {before far : α → α → Prop} [DecidableRel far]

/-- The items taken, when `last` is the last one taken before. -/
def greedy (far : α → α → Prop) [DecidableRel far] (last : Option α) : List α → List α
  | [] => []
  | t :: ts =>
    if ∀ l ∈ last, far l t then t :: greedy far (some t) ts else greedy far last ts

theorem greedy_sublist (last : Option α) (ts : List α) :
    List.Sublist (greedy far last ts) ts := by
  induction ts generalizing last with
  | nil => exact List.Sublist.refl []
  | cons t ts ih =>
    rw [greedy]
    split
    · exact (ih (some t)).cons_cons t
    · exact (ih last).cons t

/-- **One more item** is taken when it is far from the last one taken. -/
theorem greedy_concat (last : Option α) (ts : List α) (t : α) :
    greedy far last (ts ++ [t]) = greedy far last ts ++
      if ∀ l ∈ (greedy far last ts).getLast?.or last, far l t then [t] else [] := by
  induction ts generalizing last with
  | nil => rfl
  | cons u ts ih =>
    rw [List.cons_append, greedy, greedy]
    split
    · rw [ih (some u), List.cons_append]
      have hlast : ((u :: greedy far (some u) ts).getLast?).or last =
          ((greedy far (some u) ts).getLast?).or (some u) := by
        rw [List.getLast?_cons]
        cases (greedy far (some u) ts).getLast? <;> rfl
      rw [hlast]
    · exact ih last

variable (hmono : ∀ a b c : α, before a b → far b c → far a c)

include hmono

/-- Every item taken is far from the last one taken before. -/
theorem far_of_mem_greedy {last : Option α} {ts : List α} (hsorted : ts.Pairwise before)
    (hlast : ∀ l ∈ last, ∀ t ∈ ts, before l t) {l x : α} (hl : l ∈ last)
    (hx : x ∈ greedy far last ts) : far l x := by
  induction ts generalizing last l with
  | nil => cases hx
  | cons t ts ih =>
    obtain ⟨ht, hts⟩ := List.pairwise_cons.mp hsorted
    rw [greedy] at hx
    split at hx
    · next hfar =>
      rcases List.mem_cons.mp hx with rfl | hx
      · exact hfar l hl
      · have hnext : ∀ m ∈ some t, ∀ u ∈ ts, before m u := by
          rintro m ⟨⟩
          exact ht
        exact hmono l t x (hlast l hl t List.mem_cons_self) (ih hts hnext rfl hx)
    · exact ih hts (fun m hm u hu => hlast m hm u (List.mem_cons_of_mem t hu)) hl hx

theorem greedy_pairwise {last : Option α} {ts : List α} (hsorted : ts.Pairwise before) :
    (greedy far last ts).Pairwise far := by
  induction ts generalizing last with
  | nil => exact List.Pairwise.nil
  | cons t ts ih =>
    obtain ⟨ht, hts⟩ := List.pairwise_cons.mp hsorted
    rw [greedy]
    split
    · have hnext : ∀ m ∈ some t, ∀ u ∈ ts, before m u := by
        rintro m ⟨⟩
        exact ht
      exact List.pairwise_cons.mpr
        ⟨fun x hx => far_of_mem_greedy hmono hts hnext rfl hx, ih hts⟩
    · exact ih hts

/-- **Greedy selection is optimal.**  Items of the list that are far from each other, and from the
last one taken before, are at most as many as the items taken.  The first of them can be exchanged
for the first item taken, which is no later. -/
theorem length_le_greedy {last : Option α} {ts l : List α} (hsorted : ts.Pairwise before)
    (hsub : List.Sublist l ts) (hfar : l.Pairwise far) (hlast : ∀ x ∈ l, ∀ m ∈ last, far m x) :
    l.length ≤ (greedy far last ts).length := by
  induction ts generalizing last l with
  | nil => simp [List.sublist_nil.mp hsub]
  | cons t ts ih =>
    obtain ⟨ht, hts⟩ := List.pairwise_cons.mp hsorted
    rw [greedy]
    split
    · cases l with
      | nil => exact Nat.zero_le _
      | cons x l =>
        obtain ⟨hx, hl⟩ := List.pairwise_cons.mp hfar
        have htail : ∀ y ∈ l, ∀ m ∈ some t, far m y := by
          rintro y hy m ⟨⟩
          rcases List.mem_cons.mp (hsub.subset List.mem_cons_self) with rfl | hmem
          · exact hx y hy
          · exact hmono t x y (ht x hmem) (hx y hy)
        have hrest : List.Sublist l ts := by
          cases hsub with
          | cons _ h => exact (List.sublist_cons_self x l).trans h
          | cons_cons _ h => exact h
        exact Nat.succ_le_succ (ih hts hrest hl htail)
    · next hnot =>
      have hrest : List.Sublist l ts := by
        cases hsub with
        | cons _ h => exact h
        | cons_cons _ h => exact absurd (hlast t List.mem_cons_self) hnot
      exact ih hts hrest hfar hlast

end SyntheticArbitrage.Greedy
