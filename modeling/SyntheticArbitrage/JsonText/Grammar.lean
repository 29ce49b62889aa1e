import SyntheticArbitrage.JsonText.Parser
import SyntheticArbitrage.JsonText.TokenText

/-!
# The grammar of JSON texts

A document here is as it is written: the members of its objects stand in the order of the text, and
a key can be there twice.

* `Json.tokens`: the tokens of a document; `Json.events`: what the parser tells its handler.
* `Json.normal`: the document that is built, in which the members stand in the order of their keys,
  the last one for each.
* `saxParse_tokens`, `exists_of_saxParse`: **the parser accepts exactly the tokens of documents.**
* `foldl_events`: the handler builds the document in normal form.
* `parse_iff`: **`json::parse` accepts exactly the texts of documents without infinite numbers.**
-/

namespace SyntheticArbitrage

open JsonText

namespace Json

variable {R : Type}

theorem induction {P : Json R → Prop} (null : P null) (boolean : ∀ b, P (boolean b))
    (numberInteger : ∀ n, P (numberInteger n)) (numberUnsigned : ∀ n, P (numberUnsigned n))
    (numberFloat : ∀ x, P (numberFloat x)) (string : ∀ s, P (string s))
    (array : ∀ items : List (Json R), (∀ j ∈ items, P j) → P (array items))
    (object : ∀ members : List (String × Json R), (∀ m ∈ members, P m.2) → P (object members))
    (j : Json R) : P j :=
  @Json.rec R P (fun items => ∀ j ∈ items, P j) (fun members => ∀ m ∈ members, P m.2)
    (fun m => P m.2) null boolean numberInteger numberUnsigned numberFloat string array object
    (List.forall_mem_nil _) (fun _ _ hj hitems => List.forall_mem_cons.mpr ⟨hj, hitems⟩)
    (List.forall_mem_nil _) (fun _ _ hm hmembers => List.forall_mem_cons.mpr ⟨hm, hmembers⟩)
    (fun _ _ hj => hj) j

mutual

def tokens : Json R → List (Token R)
  | null => [.literalNull]
  | boolean b => [if b then .literalTrue else .literalFalse]
  | numberInteger n => [.valueInteger n]
  | numberUnsigned n => [.valueUnsigned n]
  | numberFloat x => [.valueFloat x]
  | string s => [.valueString s]
  | array [] => [.beginArray, .endArray]
  | array (j :: items) => .beginArray :: j.tokens ++ itemsTokens items ++ [.endArray]
  | object [] => [.beginObject, .endObject]
  | object ((k, j) :: members) =>
    .beginObject :: .valueString k :: .nameSeparator :: j.tokens ++ membersTokens members ++
      [.endObject]

def itemsTokens : List (Json R) → List (Token R)
  | [] => []
  | j :: items => .valueSeparator :: j.tokens ++ itemsTokens items

def membersTokens : List (String × Json R) → List (Token R)
  | [] => []
  | (k, j) :: members =>
    .valueSeparator :: .valueString k :: .nameSeparator :: j.tokens ++ membersTokens members

end

mutual

/-- What the parser tells its handler of a document. -/
def events : Json R → List (Event R)
  | null => [.null]
  | boolean b => [.boolean b]
  | numberInteger n => [.numberInteger n]
  | numberUnsigned n => [.numberUnsigned n]
  | numberFloat x => [.numberFloat x]
  | string s => [.string s]
  | array items => .startArray :: itemsEvents items ++ [.endArray]
  | object members => .startObject :: membersEvents members ++ [.endObject]

def itemsEvents : List (Json R) → List (Event R)
  | [] => []
  | j :: items => j.events ++ itemsEvents items

def membersEvents : List (String × Json R) → List (Event R)
  | [] => []
  | (k, j) :: members => .key k :: j.events ++ membersEvents members

end

mutual

/-- The document that is built. -/
def normal : Json R → Json R
  | array items => array (normalItems items)
  | object members => object (normalMembers [] members)
  | j => j

def normalItems : List (Json R) → List (Json R)
  | [] => []
  | j :: items => j.normal :: normalItems items

def normalMembers (built : List (String × Json R)) : List (String × Json R) → List (String × Json R)
  | [] => built
  | (k, j) :: members => normalMembers (OrderedMap.assign k j.normal built) members

end

theorem tokens_array_cons (j : Json R) (items : List (Json R)) (ts : List (Token R)) :
    (array (j :: items)).tokens ++ ts =
      .beginArray :: (j.tokens ++ (itemsTokens items ++ .endArray :: ts)) := by
  simp [tokens]

theorem tokens_object_cons (k : String) (j : Json R) (members : List (String × Json R))
    (ts : List (Token R)) :
    (object ((k, j) :: members)).tokens ++ ts =
      .beginObject :: .valueString k :: .nameSeparator ::
        (j.tokens ++ (membersTokens members ++ .endObject :: ts)) := by
  simp [tokens]

theorem itemsTokens_cons (j : Json R) (items : List (Json R)) (ts : List (Token R)) :
    itemsTokens (j :: items) ++ .endArray :: ts =
      .valueSeparator :: (j.tokens ++ (itemsTokens items ++ .endArray :: ts)) := by
  simp [itemsTokens]

theorem membersTokens_cons (k : String) (j : Json R) (members : List (String × Json R))
    (ts : List (Token R)) :
    membersTokens ((k, j) :: members) ++ .endObject :: ts =
      .valueSeparator :: .valueString k :: .nameSeparator ::
        (j.tokens ++ (membersTokens members ++ .endObject :: ts)) := by
  simp [membersTokens]

theorem head_tokens (j : Json R) : ∃ t ts, j.tokens = t :: ts ∧ t ≠ .endArray := by
  cases j with
  | boolean b => cases b <;> exact ⟨_, _, rfl, by simp⟩
  | array items => cases items <;> exact ⟨_, _, rfl, by simp⟩
  | object members => cases members <;> exact ⟨_, _, rfl, by simp⟩
  | _ => exact ⟨_, _, rfl, by simp⟩

end Json

namespace JsonText

variable {R : Type} [DoubleText R] {σ : Type} {handle : σ → Event R → σ}

/-! ## Documents are accepted -/

/-- No floating-point number among the tokens is infinite. -/
def AllFinite (ts : List (Token R)) : Prop := ∀ x, .valueFloat x ∈ ts → DoubleText.isFinite x

theorem saxParse_beginArray {ts : List (Token R)} (h : ts.head? ≠ some .endArray)
    (states : List Bool) (sax : σ) :
    saxParse handle (.beginArray :: ts) false states sax =
      saxParse handle ts false (true :: states) (handle sax .startArray) := by
  rw [saxParse]
  rintro ts' rfl
  exact h rfl

theorem saxParse_done (ts : List (Token R)) (sax : σ) :
    saxParse handle ts true [] sax = some (sax, ts) := by
  rw [saxParse]

theorem saxParse_firstMember (k : String) (ts : List (Token R)) (states : List Bool) (sax : σ) :
    saxParse handle (.beginObject :: .valueString k :: .nameSeparator :: ts) false states sax =
      saxParse handle ts false (false :: states)
        (handle (handle sax .startObject) (.key k)) := rfl

theorem saxParse_nextMember (k : String) (ts : List (Token R)) (states : List Bool) (sax : σ) :
    saxParse handle (.valueSeparator :: .valueString k :: .nameSeparator :: ts) true
        (false :: states) sax =
      saxParse handle ts false (false :: states) (handle sax (.key k)) := rfl

theorem saxParse_tokens {j : Json R} (h : AllFinite j.tokens) (ts : List (Token R))
    (states : List Bool) (sax : σ) :
    saxParse handle (j.tokens ++ ts) false states sax =
      saxParse handle ts true states (j.events.foldl handle sax) := by
  induction j using Json.induction generalizing ts states sax with
  | null => rfl
  | boolean b => cases b <;> rfl
  | numberInteger n => rfl
  | numberUnsigned n => rfl
  | numberFloat x =>
    have hx := h x (by simp [Json.tokens])
    rw [Json.tokens, List.cons_append, saxParse, if_pos hx]
    rfl
  | string s => rfl
  | array items ih =>
    have hloop : ∀ (items' : List (Json R)), (∀ j ∈ items', j ∈ items) →
        AllFinite (Json.itemsTokens items') → ∀ sax,
        saxParse handle (Json.itemsTokens items' ++ .endArray :: ts) true (true :: states) sax =
          saxParse handle ts true states
            (handle ((Json.itemsEvents items').foldl handle sax) .endArray) := by
      intro items'
      induction items' with
      | nil => intros; rfl
      | cons j items' ihitems =>
        intro hmem hfinite sax
        rw [Json.itemsTokens_cons, saxParse, ih j (hmem j List.mem_cons_self)
            (fun x hx => hfinite x (by simp [Json.itemsTokens, hx])),
          ihitems (fun j' hj' => hmem j' (List.mem_cons_of_mem j hj'))
            (fun x hx => hfinite x (by simp [Json.itemsTokens, hx])),
          Json.itemsEvents, List.foldl_append]
    cases items with
    | nil => rfl
    | cons j items =>
      have hj : AllFinite j.tokens := fun x hx => h x (by simp [Json.tokens, hx])
      have hitems : AllFinite (Json.itemsTokens items) :=
        fun x hx => h x (by simp [Json.tokens, hx])
      have hhead : (j.tokens ++ (Json.itemsTokens items ++ .endArray :: ts)).head? ≠
          some .endArray := by
        obtain ⟨t, more, hmore, ht⟩ := j.head_tokens
        rw [hmore]
        simpa using ht
      rw [Json.tokens_array_cons, saxParse_beginArray hhead, ih j List.mem_cons_self hj,
        hloop items (fun _ => List.mem_cons_of_mem j) hitems]
      simp [Json.events, Json.itemsEvents]
  | object members ih =>
    have hloop : ∀ (members' : List (String × Json R)), (∀ m ∈ members', m ∈ members) →
        AllFinite (Json.membersTokens members') → ∀ sax,
        saxParse handle (Json.membersTokens members' ++ .endObject :: ts) true (false :: states)
            sax =
          saxParse handle ts true states
            (handle ((Json.membersEvents members').foldl handle sax) .endObject) := by
      intro members'
      induction members' with
      | nil => intros; rfl
      | cons m members' ihmembers =>
        obtain ⟨k, j⟩ := m
        intro hmem hfinite sax
        rw [Json.membersTokens_cons, saxParse_nextMember, ih (k, j) (hmem _ List.mem_cons_self)
            (fun x hx => hfinite x (by simp [Json.membersTokens, hx])),
          ihmembers (fun m' hm' => hmem m' (List.mem_cons_of_mem _ hm'))
            (fun x hx => hfinite x (by simp [Json.membersTokens, hx])),
          Json.membersEvents, List.cons_append, List.foldl_cons, List.foldl_append]
    cases members with
    | nil => rfl
    | cons m members =>
      obtain ⟨k, j⟩ := m
      have hj : AllFinite j.tokens := fun x hx => h x (by simp [Json.tokens, hx])
      have hmembers : AllFinite (Json.membersTokens members) :=
        fun x hx => h x (by simp [Json.tokens, hx])
      rw [Json.tokens_object_cons, saxParse_firstMember, ih (k, j) List.mem_cons_self hj,
        hloop members (fun _ => List.mem_cons_of_mem _) hmembers]
      simp [Json.events, Json.membersEvents]

/-! ## Only documents are accepted -/

/-- A parse that reads a value reads the tokens of a document, and goes on after it. -/
def ReadsValue (handle : σ → Event R → σ) (ts : List (Token R)) : Prop :=
  ∀ states sax r, saxParse handle ts false states sax = some r →
    ∃ j more, ts = Json.tokens j ++ more ∧ AllFinite j.tokens ∧ more.length < ts.length ∧
      saxParse handle more true states (j.events.foldl handle sax) = some r

/-- A parse that goes on in an array reads the items after the first and the end of the array. -/
def ReadsItems (handle : σ → Event R → σ) (ts : List (Token R)) : Prop :=
  ∀ states sax r, saxParse handle ts true (true :: states) sax = some r →
    ∃ items more, ts = Json.itemsTokens items ++ .endArray :: more ∧
      AllFinite (Json.itemsTokens items) ∧ more.length < ts.length ∧
      saxParse handle more true states
        (handle ((Json.itemsEvents items).foldl handle sax) .endArray) = some r

/-- A parse that goes on in an object reads the members after the first and the end of the
object. -/
def ReadsMembers (handle : σ → Event R → σ) (ts : List (Token R)) : Prop :=
  ∀ states sax r, saxParse handle ts true (false :: states) sax = some r →
    ∃ members more, ts = Json.membersTokens members ++ .endObject :: more ∧
      AllFinite (Json.membersTokens members) ∧ more.length < ts.length ∧
      saxParse handle more true states
        (handle ((Json.membersEvents members).foldl handle sax) .endObject) = some r

theorem readsItems {ts : List (Token R)}
    (hvalue : ∀ ts' : List (Token R), ts'.length < ts.length → ReadsValue handle ts')
    (hitems : ∀ ts' : List (Token R), ts'.length < ts.length → ReadsItems handle ts') :
    ReadsItems handle ts := by
  intro states sax r h
  cases ts with
  | nil => cases h
  | cons t ts =>
    cases t with
    | valueSeparator =>
      obtain ⟨j, more, rfl, hj, hlen, hmore⟩ := hvalue ts (by simp) _ _ _ h
      have hshort := hlen.trans (Nat.lt_add_one _)
      obtain ⟨items, more', rfl, hitems', hlen', hmore'⟩ := hitems more hshort _ _ _ hmore
      refine ⟨j :: items, more', by simp [Json.itemsTokens], ?_, hlen'.trans hshort, ?_⟩
      · intro x hx
        simp [Json.itemsTokens] at hx
        rcases hx with hx | hx
        · exact hj x hx
        · exact hitems' x hx
      · rwa [Json.itemsEvents, List.foldl_append]
    | endArray => exact ⟨[], ts, rfl, by simp [AllFinite, Json.itemsTokens], by simp, h⟩
    | _ => cases h

theorem readsMembers {ts : List (Token R)}
    (hvalue : ∀ ts' : List (Token R), ts'.length < ts.length → ReadsValue handle ts')
    (hmembers : ∀ ts' : List (Token R), ts'.length < ts.length → ReadsMembers handle ts') :
    ReadsMembers handle ts := by
  intro states sax r h
  match ts, h with
  | .valueSeparator :: .valueString k :: .nameSeparator :: ts, h =>
    rw [saxParse_nextMember] at h
    have hless : ts.length < ts.length + 3 := by omega
    obtain ⟨j, more, rfl, hj, hlen, hmore⟩ := hvalue ts hless _ _ _ h
    have hshort := hlen.trans hless
    obtain ⟨members, more', rfl, hmembers', hlen', hmore'⟩ := hmembers more hshort _ _ _ hmore
    refine ⟨(k, j) :: members, more', by simp [Json.membersTokens], ?_, hlen'.trans hshort, ?_⟩
    · intro x hx
      simp [Json.membersTokens] at hx
      rcases hx with hx | hx
      · exact hj x hx
      · exact hmembers' x hx
    · rwa [Json.membersEvents, List.cons_append, List.foldl_cons, List.foldl_append]
  | .endObject :: ts, h => exact ⟨[], ts, rfl, by simp [AllFinite, Json.membersTokens], by simp, h⟩

theorem readsValue {ts : List (Token R)}
    (hvalue : ∀ ts' : List (Token R), ts'.length < ts.length → ReadsValue handle ts')
    (hitems : ∀ ts' : List (Token R), ts'.length < ts.length → ReadsItems handle ts')
    (hmembers : ∀ ts' : List (Token R), ts'.length < ts.length → ReadsMembers handle ts') :
    ReadsValue handle ts := by
  intro states sax r h
  cases ts with
  | nil => cases h
  | cons t ts =>
    -- a value of one token
    have hscalar : ∀ j : Json R, t :: ts = j.tokens ++ ts →
        (∀ x, t = .valueFloat x → DoubleText.isFinite x) →
        saxParse handle ts true states (j.events.foldl handle sax) = some r →
        ∃ j more, t :: ts = Json.tokens j ++ more ∧ AllFinite j.tokens ∧
          more.length < (t :: ts).length ∧
          saxParse handle more true states (j.events.foldl handle sax) = some r := by
      intro j htokens hfinite hmore
      refine ⟨j, ts, htokens, ?_, by simp, hmore⟩
      obtain hj : [t] = j.tokens := List.append_cancel_right htokens
      rw [← hj]
      intro x hx
      exact hfinite x (List.mem_singleton.mp hx).symm
    cases t with
    | literalNull => exact hscalar .null rfl nofun h
    | literalTrue => exact hscalar (.boolean true) rfl nofun h
    | literalFalse => exact hscalar (.boolean false) rfl nofun h
    | valueString s => exact hscalar (.string s) rfl nofun h
    | valueUnsigned n => exact hscalar (.numberUnsigned n) rfl nofun h
    | valueInteger n => exact hscalar (.numberInteger n) rfl nofun h
    | valueFloat x =>
      rw [saxParse] at h
      split_ifs at h with hx
      refine hscalar (.numberFloat x) rfl ?_ h
      rintro y ⟨⟩
      exact hx
    | beginArray =>
      by_cases hhead : ts.head? = some .endArray
      · obtain ⟨more, rfl⟩ := List.head?_eq_some_iff.mp hhead
        have hless : more.length < more.length + 2 := by omega
        exact ⟨.array [], more, rfl, by simp [AllFinite, Json.tokens], hless, h⟩
      · rw [saxParse_beginArray hhead] at h
        obtain ⟨j, more, rfl, hj, hlen, hmore⟩ := hvalue ts (Nat.lt_add_one _) _ _ _ h
        have hshort := hlen.trans (Nat.lt_add_one _)
        obtain ⟨items, more', rfl, hitems', hlen', hmore'⟩ := hitems more hshort _ _ _ hmore
        refine ⟨.array (j :: items), more', by simp [Json.tokens], ?_, hlen'.trans hshort, ?_⟩
        · intro x hx
          simp [Json.tokens] at hx
          rcases hx with hx | hx
          · exact hj x hx
          · exact hitems' x hx
        · simpa [Json.events, Json.itemsEvents] using hmore'
    | beginObject =>
      match ts, h, hvalue, hmembers with
      | .endObject :: ts, h, _, _ =>
        have hless : ts.length < ts.length + 2 := by omega
        exact ⟨.object [], ts, rfl, by simp [AllFinite, Json.tokens], hless, h⟩
      | .valueString k :: .nameSeparator :: ts, h, hvalue, hmembers =>
        rw [saxParse_firstMember] at h
        have hless : ts.length < ts.length + 3 := by omega
        obtain ⟨j, more, rfl, hj, hlen, hmore⟩ := hvalue ts hless _ _ _ h
        have hshort := hlen.trans hless
        obtain ⟨members, more', rfl, hmembers', hlen', hmore'⟩ := hmembers more hshort _ _ _ hmore
        refine ⟨.object ((k, j) :: members), more', by simp [Json.tokens], ?_,
          hlen'.trans hshort, ?_⟩
        · intro x hx
          simp [Json.tokens] at hx
          rcases hx with hx | hx
          · exact hj x hx
          · exact hmembers' x hx
        · simpa [Json.events, Json.membersEvents] using hmore'
    | _ => cases h

/-- What a parse reads, by induction on the number of tokens. -/
theorem reads (ts : List (Token R)) :
    ReadsValue handle ts ∧ ReadsItems handle ts ∧ ReadsMembers handle ts := by
  induction hn : ts.length using Nat.strong_induction_on generalizing ts with
  | _ n ih =>
    subst hn
    have hvalue : ∀ ts' : List (Token R), ts'.length < ts.length → ReadsValue handle ts' :=
      fun ts' h => (ih _ h ts' rfl).1
    have hitems : ∀ ts' : List (Token R), ts'.length < ts.length → ReadsItems handle ts' :=
      fun ts' h => (ih _ h ts' rfl).2.1
    have hmembers : ∀ ts' : List (Token R), ts'.length < ts.length → ReadsMembers handle ts' :=
      fun ts' h => (ih _ h ts' rfl).2.2
    exact ⟨readsValue hvalue hitems hmembers, readsItems hvalue hitems,
      readsMembers hvalue hmembers⟩

/-- **The parser accepts exactly the tokens of documents without infinite numbers**, and tells its
handler their events. -/
theorem saxParse_iff {ts rest : List (Token R)} {sax sax' : σ} :
    saxParse handle ts false [] sax = some (sax', rest) ↔
      ∃ j : Json R, ts = j.tokens ++ rest ∧ AllFinite j.tokens ∧
        sax' = j.events.foldl handle sax := by
  constructor
  · intro h
    obtain ⟨j, more, rfl, hj, -, hmore⟩ := (reads ts).1 _ _ _ h
    rw [saxParse_done] at hmore
    cases hmore
    exact ⟨j, rfl, hj, rfl⟩
  · rintro ⟨j, rfl, hj, rfl⟩
    rw [saxParse_tokens hj, saxParse_done]

/-! ## The document that is built -/

omit [DoubleText R] in
theorem assign_emplace (key : String) (v : Json R) (members : List (String × Json R)) :
    OrderedMap.assign key v (emplace key members) = OrderedMap.assign key v members := by
  rw [emplace]
  split_ifs
  · rfl
  · exact OrderedMap.assign_assign key v .null members

omit [DoubleText R] in
/-- **The handler builds the document in normal form.** -/
theorem foldl_events (j : Json R) (dom : Dom R) :
    j.events.foldl Dom.handle dom = dom.handleValue j.normal := by
  induction j using Json.induction generalizing dom with
  | array items ih =>
    have hloop : ∀ (items' built : List (Json R)) (stack : List (Frame R)),
        (∀ j ∈ items', j ∈ items) →
        (Json.itemsEvents items').foldl Dom.handle
            { root := dom.root, refStack := .array built :: stack } =
          { root := dom.root, refStack := .array (built ++ Json.normalItems items') :: stack } := by
      intro items'
      induction items' with
      | nil => intros; simp [Json.itemsEvents, Json.normalItems]
      | cons j items' ihitems =>
        intro built stack hmem
        rw [Json.itemsEvents, List.foldl_append, ih j (hmem j List.mem_cons_self),
          Dom.handleValue, ihitems _ _ fun j' hj' => hmem j' (List.mem_cons_of_mem j hj')]
        simp [Json.normalItems]
    rw [Json.events, List.cons_append, List.foldl_cons, List.foldl_append, Dom.handle,
      hloop items [] dom.refStack fun _ h => h]
    rfl
  | object members ih =>
    have hloop : ∀ (members' built : List (String × Json R)) (element : String)
        (stack : List (Frame R)), (∀ m ∈ members', m ∈ members) →
        ∃ element', (Json.membersEvents members').foldl Dom.handle
            { root := dom.root, refStack := .object built element :: stack } =
          { root := dom.root,
            refStack := .object (Json.normalMembers built members') element' :: stack } := by
      intro members'
      induction members' with
      | nil => exact fun _ element _ _ => ⟨element, rfl⟩
      | cons m members' ihmembers =>
        obtain ⟨k, j⟩ := m
        intro built element stack hmem
        obtain ⟨element', h⟩ := ihmembers (OrderedMap.assign k j.normal built) k stack
          fun m' hm' => hmem m' (List.mem_cons_of_mem _ hm')
        refine ⟨element', ?_⟩
        rw [Json.membersEvents, List.cons_append, List.foldl_cons, List.foldl_append,
          ih (k, j) (hmem _ List.mem_cons_self), Json.normalMembers, ← h, ← assign_emplace]
        rfl
    obtain ⟨element', h⟩ := hloop members [] "" dom.refStack fun _ h => h
    rw [Json.events, List.cons_append, List.foldl_cons, List.foldl_append, Dom.handle, h]
    rfl
  | _ => rfl

/-! ## Texts of documents -/

omit [DoubleText R] in
theorem separated_tokens (j : Json R) {ts : List (Token R)} (hts : Separated ts)
    (hhead : ∀ t ∈ ts.head?, t.isNumber = false) : Separated (j.tokens ++ ts) := by
  induction j using Json.induction generalizing ts with
  | boolean b => cases b <;> exact ⟨nofun, hts⟩
  | array items ih =>
    have hloop : ∀ items' : List (Json R), (∀ j ∈ items', j ∈ items) →
        Separated (Json.itemsTokens items' ++ .endArray :: ts) ∧
          ∀ t ∈ (Json.itemsTokens items' ++ .endArray :: ts).head?, t.isNumber = false := by
      intro items'
      induction items' with
      | nil => exact fun _ => ⟨⟨nofun, hts⟩, by rintro t ⟨⟩; rfl⟩
      | cons j items' ihitems =>
        intro hmem
        obtain ⟨hsep, hfirst⟩ := ihitems fun j' hj' => hmem j' (List.mem_cons_of_mem j hj')
        have hj := ih j (hmem j List.mem_cons_self) hsep hfirst
        rw [Json.itemsTokens_cons]
        exact ⟨⟨nofun, hj⟩, by rintro t ⟨⟩; rfl⟩
    cases items with
    | nil => exact ⟨nofun, nofun, hts⟩
    | cons j items =>
      obtain ⟨hsep, hfirst⟩ := hloop items fun _ => List.mem_cons_of_mem j
      have hj := ih j List.mem_cons_self hsep hfirst
      rw [Json.tokens_array_cons]
      exact ⟨nofun, hj⟩
  | object members ih =>
    have hloop : ∀ members' : List (String × Json R), (∀ m ∈ members', m ∈ members) →
        Separated (Json.membersTokens members' ++ .endObject :: ts) ∧
          ∀ t ∈ (Json.membersTokens members' ++ .endObject :: ts).head?, t.isNumber = false := by
      intro members'
      induction members' with
      | nil => exact fun _ => ⟨⟨nofun, hts⟩, by rintro t ⟨⟩; rfl⟩
      | cons m members' ihmembers =>
        obtain ⟨k, j⟩ := m
        intro hmem
        obtain ⟨hsep, hfirst⟩ := ihmembers fun m' hm' => hmem m' (List.mem_cons_of_mem _ hm')
        have hj := ih (k, j) (hmem _ List.mem_cons_self) hsep hfirst
        rw [Json.membersTokens_cons]
        exact ⟨⟨nofun, nofun, nofun, hj⟩, by rintro t ⟨⟩; rfl⟩
    cases members with
    | nil => exact ⟨nofun, nofun, hts⟩
    | cons m members =>
      obtain ⟨k, j⟩ := m
      obtain ⟨hsep, hfirst⟩ := hloop members fun _ => List.mem_cons_of_mem _
      have hj := ih (k, j) List.mem_cons_self hsep hfirst
      rw [Json.tokens_object_cons]
      exact ⟨nofun, nofun, nofun, hj⟩
  | _ => exact ⟨fun _ => hhead, hts⟩

/-- The bytes are a text of a document as it is written, perhaps after a byte order mark: its tokens
with whitespace between them. -/
def Writes (bs : List UInt8) (d : Json R) : Prop :=
  ∃ text, (bs = text ∨ bs = bom ++ text) ∧ TokensText d.tokens text

theorem tokens_iff_writes {bs : List UInt8} {d : Json R} :
    tokens bs = d.tokens ++ [.endOfInput] ↔ Writes bs d := by
  have hseparated : Separated d.tokens := by
    have h := separated_tokens d (show Separated [] from trivial) (by simp)
    rwa [List.append_nil] at h
  rw [tokens_iff]
  constructor
  · rintro (h | ⟨text, rfl, h⟩)
    · exact ⟨bs, Or.inl rfl, tokensText_of_written h⟩
    · exact ⟨text, Or.inr rfl, tokensText_of_written h⟩
  · rintro ⟨text, rfl | rfl, h⟩
    · exact Or.inl (written_of_tokensText h hseparated)
    · exact Or.inr ⟨text, rfl, written_of_tokensText h hseparated⟩

theorem parse_of_writes {bs : List UInt8} {d : Json R} (hwrites : Writes bs d)
    (hfinite : AllFinite d.tokens) : parse bs = some d.normal := by
  rw [parse, saxParse_iff.mpr ⟨d, tokens_iff_writes.mpr hwrites, hfinite, rfl⟩, foldl_events]
  rfl

theorem exists_of_parse {bs : List UInt8} {j : Json R} (h : parse bs = some j) :
    ∃ d : Json R, Writes bs d ∧ AllFinite d.tokens ∧ j = d.normal := by
  rw [parse] at h
  split at h
  · next dom more hparse =>
    obtain ⟨d, htokens, hfinite, rfl⟩ := saxParse_iff.mp hparse
    obtain rfl := eq_nil_of_tokens rfl htokens
    rw [foldl_events] at h
    cases h
    exact ⟨d, tokens_iff_writes.mp htokens, hfinite, rfl⟩
  · cases h

/-- **`json::parse` accepts exactly the texts of documents without infinite numbers**, and makes of
them the document in normal form. -/
theorem parse_iff {bs : List UInt8} {j : Json R} :
    parse bs = some j ↔ ∃ d : Json R, Writes bs d ∧ AllFinite d.tokens ∧ j = d.normal := by
  refine ⟨exists_of_parse, ?_⟩
  rintro ⟨d, hwrites, hfinite, rfl⟩
  exact parse_of_writes hwrites hfinite

end JsonText

end SyntheticArbitrage
