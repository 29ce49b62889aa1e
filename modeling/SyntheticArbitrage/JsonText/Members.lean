import SyntheticArbitrage.JsonText.Grammar

/-!
# The members of parsed documents

* `member_normal`: of the members of an object with the same key, the last one is found.
* `Ordered`: the members of every object stand in the order of their keys, each key once.
* `ordered_of_parse`: **what `json::parse` makes is ordered**; `normal_of_ordered`: an ordered
  document is in normal form.
-/

namespace SyntheticArbitrage

open OrderedMap

namespace Json

variable {R : Type}

theorem normalItems_eq (items : List (Json R)) : normalItems items = items.map normal := by
  induction items with
  | nil => rfl
  | cons j items ih => rw [normalItems, ih, List.map_cons]

theorem normalMembers_eq (built members : List (String × Json R)) :
    normalMembers built members = assignAll built (members.map fun m => (m.1, m.2.normal)) := by
  induction members generalizing built with
  | nil => rfl
  | cons m members ih =>
    obtain ⟨k, j⟩ := m
    rw [normalMembers, ih]
    rfl

def lastMember (key : String) : Json R → Option (Json R)
  | object members => members.reverse.lookup key
  | _ => none

/-- **Of the members with the same key the last one is found.** -/
theorem member_normal (key : String) (j : Json R) :
    j.normal.member key = (j.lastMember key).map normal := by
  cases j with
  | object members =>
    have hmap : ∀ members : List (String × Json R),
        (members.map fun m => (m.1, m.2.normal)).lookup key = (members.lookup key).map normal := by
      intro members
      induction members with
      | nil => rfl
      | cons m members ih =>
        obtain ⟨k, j⟩ := m
        rw [List.map_cons, lookup_cons, lookup_cons, ih]
        split_ifs <;> rfl
    rw [normal, member, normalMembers_eq, lookup_assignAll, ← List.map_reverse, hmap, lastMember]
    exact Option.or_none
  | _ => rfl

/-- The members of every object stand in the order of their keys, each key once. -/
inductive Ordered : Json R → Prop where
  | null : Ordered null
  | boolean (b : Bool) : Ordered (boolean b)
  | numberInteger (n : Int64) : Ordered (numberInteger n)
  | numberUnsigned (n : UInt64) : Ordered (numberUnsigned n)
  | numberFloat (x : R) : Ordered (numberFloat x)
  | string (s : String) : Ordered (string s)
  | array {items : List (Json R)} (h : ∀ j ∈ items, Ordered j) : Ordered (array items)
  | object {members : List (String × Json R)} (hsorted : Sorted members)
    (h : ∀ m ∈ members, Ordered m.2) : Ordered (object members)

theorem mem_assignAll {P : Json R → Prop} {entries writes : List (String × Json R)}
    (hentries : ∀ m ∈ entries, P m.2) (hwrites : ∀ m ∈ writes, P m.2) :
    ∀ m ∈ assignAll entries writes, P m.2 := by
  induction writes generalizing entries with
  | nil => exact hentries
  | cons write writes ih =>
    obtain ⟨hwrite, hrest⟩ := List.forall_mem_cons.mp hwrites
    refine ih ?_ hrest
    intro m hm
    rcases mem_assign hm with rfl | hm
    · exact hwrite
    · exact hentries m hm

theorem ordered_normal (j : Json R) : j.normal.Ordered := by
  induction j using Json.induction with
  | null => exact .null
  | boolean b => exact .boolean b
  | numberInteger n => exact .numberInteger n
  | numberUnsigned n => exact .numberUnsigned n
  | numberFloat x => exact .numberFloat x
  | string s => exact .string s
  | array items ih =>
    rw [normal, normalItems_eq]
    exact .array (List.forall_mem_map.mpr ih)
  | object members ih =>
    rw [normal, normalMembers_eq]
    exact .object (Sorted.assignAll List.Pairwise.nil _)
      (mem_assignAll (List.forall_mem_nil _) (List.forall_mem_map.mpr ih))

theorem normal_of_ordered {j : Json R} (h : j.Ordered) : j.normal = j := by
  induction h with
  | array h ih =>
    rw [normal, normalItems_eq, List.map_congr_left ih, List.map_id']
  | @object members hsorted h ih =>
    have hself : members.map (fun m => (m.1, m.2.normal)) = members := by
      calc
        members.map (fun m => (m.1, m.2.normal)) = members.map id := by
          apply List.map_congr_left
          intro m hm
          rw [ih m hm, id]
        _ = members := List.map_id members
    have hkept : assignAll [] members = [] ++ members := assignAll_of_sorted hsorted
    rw [normal, normalMembers_eq, hself, hkept, List.nil_append]
  | _ => rfl

end Json

/-- **What `json::parse` makes is ordered.** -/
theorem JsonText.ordered_of_parse {R : Type} [DoubleText R] {bs : List UInt8} {j : Json R}
    (h : parse bs = some j) : j.Ordered := by
  obtain ⟨d, -, -, rfl⟩ := exists_of_parse h
  exact d.ordered_normal

end SyntheticArbitrage
