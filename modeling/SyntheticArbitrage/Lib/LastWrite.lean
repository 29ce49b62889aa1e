import Mathlib.Data.List.Basic
import Mathlib.Data.Multiset.Basic
import Mathlib.Order.MinMax
import Mathlib.Tactic.Common

/-!
# Stamped writes and the order they arrive in

Writes with a value and a stamp arrive in some order, and a register keeps the value of the last
one.  It then holds the value of the write with the largest stamp only if the order is right.

* `IsLatest`: a write with the largest stamp.
* `LastIsLatest`: the last write of an order has the value of the latest one.
* `forall_perm_lastIsLatest_iff`: **every order ends in the value of the latest write exactly when
  all writes have the same value.**
-/

namespace SyntheticArbitrage.LastWrite

variable {ω β ι : Type*} [LinearOrder ι] {value : ω → β} {stamp : ω → ι}

/-- `t` is a write of the list with the largest stamp. -/
def IsLatest (stamp : ω → ι) (t : ω) (writes : List ω) : Prop :=
  t ∈ writes ∧ ∀ u ∈ writes, stamp u ≤ stamp t

/-- The last write has the value of the latest. -/
def LastIsLatest (value : ω → β) (stamp : ω → ι) (writes : List ω) : Prop :=
  ∀ t, IsLatest stamp t writes → (writes.map value).getLast? = some (value t)

theorem exists_isLatest (stamp : ω → ι) {writes : List ω} (h : writes ≠ []) :
    ∃ t, IsLatest stamp t writes := by
  induction writes with
  | nil => exact absurd rfl h
  | cons t writes ih =>
    rcases eq_or_ne writes [] with rfl | hne
    · exact ⟨t, List.mem_cons_self, fun u hu => by rw [List.mem_singleton.mp hu]⟩
    · obtain ⟨u, hu, hmax⟩ := ih hne
      rcases le_total (stamp t) (stamp u) with htu | hut
      · refine ⟨u, List.mem_cons_of_mem t hu, fun v hv => ?_⟩
        rcases List.mem_cons.mp hv with rfl | hv
        · exact htu
        · exact hmax v hv
      · refine ⟨t, List.mem_cons_self, fun v hv => ?_⟩
        rcases List.mem_cons.mp hv with rfl | hv
        · exact le_rfl
        · exact le_trans (hmax v hv) hut

theorem IsLatest.perm {t : ω} {writes writes' : List ω} (h : writes.Perm writes')
    (ht : IsLatest stamp t writes) : IsLatest stamp t writes' :=
  ⟨h.mem_iff.mp ht.1, fun u hu => ht.2 u (h.mem_iff.mpr hu)⟩

theorem exists_perm_concat {t : ω} {writes : List ω} (h : t ∈ writes) :
    ∃ front, (front ++ [t]).Perm writes := by
  obtain ⟨front, back, rfl⟩ := List.append_of_mem h
  refine ⟨front ++ back, ?_⟩
  rw [List.append_assoc]
  exact List.Perm.append_left front List.perm_append_comm

/-- **Every order ends in the value of the latest write** exactly when all writes have one value. -/
theorem forall_perm_lastIsLatest_iff {writes : List ω} :
    (∀ writes', writes'.Perm writes → LastIsLatest value stamp writes') ↔
      ∀ t ∈ writes, ∀ u ∈ writes, value t = value u := by
  constructor
  · intro h
    rcases eq_or_ne writes [] with rfl | hne
    · intro t ht
      exact absurd ht List.not_mem_nil
    · obtain ⟨latest, hlatest⟩ := exists_isLatest stamp hne
      -- put a write last: then its value is the latest one's
      have hvalue : ∀ t ∈ writes, value t = value latest := by
        intro t ht
        obtain ⟨front, hperm⟩ := exists_perm_concat ht
        have hlast := h _ hperm latest (hlatest.perm hperm.symm)
        rw [List.map_append, List.map_singleton, List.getLast?_concat, Option.some.injEq] at hlast
        exact hlast
      intro t ht u hu
      rw [hvalue t ht, hvalue u hu]
  · intro h writes' hperm t ht
    have hne : writes'.map value ≠ [] := List.map_eq_nil_iff.not.mpr (List.ne_nil_of_mem ht.1)
    obtain ⟨u, hu, hlast⟩ := List.mem_map.mp (List.getLast_mem hne)
    rw [List.getLast?_eq_some_getLast hne, ← hlast]
    rw [h u (hperm.mem_iff.mp hu) t (hperm.mem_iff.mp ht.1)]

end SyntheticArbitrage.LastWrite
