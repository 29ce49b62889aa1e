import SyntheticArbitrage.Feed.Funding

/-!
# Incomplete messages of the funding stream

`value` has a default for a member that is missing, so the handler of `start_binance_funding_ws`
cannot tell an object without a rate or without a time from one that says zero.

* `Complete`: a message with a rate and a time.
* `Defaulted`: an object that lacks one of the two, and whose other one can be converted.
* `decode_object`: which objects are decoded.
* `leavesAlone_iff`: **incomplete messages leave the cache alone except the defaulted ones.**
-/

namespace SyntheticArbitrage.BinanceFunding

variable {R : Type} [DoubleToInt R]

/-- `std::stod` of a member that is a string. -/
def stodMember (v : Json R) : Except Stop R := v.getString >>= fun r => thrown (stod r)

/-- The message is an object with a rate and a time, and both can be converted. -/
def Complete (message : Option (Json R)) : Prop :=
  ∃ j ∈ message, (j.field "r" stodMember).isSome ∧ (j.field "T" Json.getInt).isSome

/-- On every cache, an incomplete message changes nothing, and no message changes another symbol
than the subscribed one. -/
def LeavesAlone (symbol : String) (message : Option (Json R)) : Prop :=
  ∀ cache : FundingCache R, (¬ Complete message → onMessage symbol cache message = cache) ∧
    ∀ other, other ≠ symbol → (onMessage symbol cache message).rates other = cache.rates other

/-- A member that is missing or can be converted. -/
def Convertible {β : Type} (convert : Json R → Except Stop β) (v : Option (Json R)) : Prop :=
  ∀ j ∈ v, (convert j).toOption.isSome

/-- The message is an object that lacks `r` or `T`, and what it has of the two can be converted. -/
def Defaulted (message : Option (Json R)) : Prop :=
  ∃ members, message = some (.object members) ∧
    (members.lookup "r" = none ∨ members.lookup "T" = none) ∧
    Convertible stodMember (members.lookup "r") ∧ Convertible Json.getInt (members.lookup "T")

theorem stod_zero (h : (DoubleScan.ofNumeral 0 : Option R) = some 0) :
    (stod "0" : Except Exception R) = .ok 0 := by
  have hread := Decimal.stod_text (R := R) (.ofInt 0)
  have hvalue : (Decimal.ofInt 0).magnitude = 0 := by decide +kernel
  rw [Decimal.toDouble, hvalue, h] at hread
  exact hread

theorem rate_isSome_iff (h : (DoubleScan.ofNumeral 0 : Option R) = some 0)
    (members : List (String × Json R)) :
    ((Json.object members).value "r" "0" >>=
        fun r => (thrown (stod r) : Except Stop R)).toOption.isSome ↔
      Convertible stodMember (members.lookup "r") := by
  rw [Json.value, Convertible]
  cases members.lookup "r" with
  | none =>
    show (thrown (stod "0") : Except Stop R).toOption.isSome ↔ _
    rw [stod_zero h]
    simp [thrown]
  | some v =>
    simp only [Option.mem_some_iff, forall_eq']
    rfl

theorem time_isSome_iff (members : List (String × Json R)) :
    ((Json.object members).valueInt "T" 0).toOption.isSome ↔
      Convertible Json.getInt (members.lookup "T") := by
  rw [Json.valueInt, Convertible]
  cases members.lookup "T" with
  | none => simp [pure, Except.pure]
  | some v => simp only [Option.mem_some_iff, forall_eq']

theorem isSome_bind_bind {α β γ : Type} (x : Except Stop α) (y : Except Stop β) (f : α → β → γ) :
    (x >>= fun a => y >>= fun b => pure (f a b)).toOption.isSome ↔
      x.toOption.isSome ∧ y.toOption.isSome := by
  cases x with
  | error e => exact iff_of_false (by rintro ⟨⟩) (by rintro ⟨⟨⟩, -⟩)
  | ok a =>
    cases y with
    | error e => exact iff_of_false (by rintro ⟨⟩) (by rintro ⟨-, ⟨⟩⟩)
    | ok b => exact iff_of_true rfl ⟨rfl, rfl⟩

/-- **An object is decoded** exactly when what it has of the two members can be converted. -/
theorem decode_object (h : (DoubleScan.ofNumeral 0 : Option R) = some 0)
    (members : List (String × Json R)) :
    (decode (some (.object members))).toOption.isSome ↔
      Convertible stodMember (members.lookup "r") ∧
        Convertible Json.getInt (members.lookup "T") := by
  rw [← rate_isSome_iff h, ← time_isSome_iff]
  exact isSome_bind_bind ((Json.object members).value "r" "0" >>=
    fun r => (thrown (stod r) : Except Stop R)) ((Json.object members).valueInt "T" 0)
    fun rate timestamp => (rate, timestamp.toInt64)

theorem onMessage_of_not_object {symbol : String} {message : Option (Json R)}
    (h : ∀ members, message ≠ some (.object members)) (cache : FundingCache R) :
    onMessage symbol cache message = cache := by
  cases message with
  | none => rfl
  | some j =>
    cases j with
    | object members => exact absurd rfl (h members)
    | _ => rfl

theorem onMessage_eq (symbol : String) (cache : FundingCache R) (message : Option (Json R)) :
    onMessage symbol cache message =
      (decode message).toOption.elim cache fun p => cache.update symbol p.1 p.2 := by
  rw [onMessage]
  cases decode message <;> rfl

theorem onMessage_rates_of_ne {symbol other : String} (h : other ≠ symbol) (cache : FundingCache R)
    (message : Option (Json R)) :
    (onMessage symbol cache message).rates other = cache.rates other := by
  rw [onMessage_eq]
  cases (decode message).toOption with
  | none => rfl
  | some p => exact Function.update_of_ne h _ _

/-- A decoded message writes an entry for the symbol, so it changes the empty cache. -/
theorem onMessage_empty_eq_iff {symbol : String} {message : Option (Json R)} :
    onMessage symbol {} message = {} ↔ (decode message).toOption = none := by
  rw [onMessage_eq]
  cases (decode message).toOption with
  | none => simp
  | some p =>
    simp only [Option.elim_some, reduceCtorEq, iff_false]
    intro h
    have hentry := congrFun (congrArg FundingCache.rates h) symbol
    simp [FundingCache.update] at hentry

/-- **Incomplete messages leave the cache alone**, and all messages every other symbol, exactly when
the message is not a defaulted one. -/
theorem leavesAlone_iff (h : (DoubleScan.ofNumeral 0 : Option R) = some 0) (symbol : String)
    (message : Option (Json R)) : LeavesAlone symbol message ↔ ¬ Defaulted message := by
  constructor
  · rintro hleaves ⟨members, rfl, hmissing, hr, hT⟩
    have hincomplete : ¬ Complete (some (.object members)) := by
      rintro ⟨j, ⟨⟩, hrate, htime⟩
      rw [Json.field, Json.member] at hrate htime
      rcases hmissing with hnone | hnone
      · simp [hnone] at hrate
      · simp [hnone] at htime
    have hdecoded := (decode_object h members).mpr ⟨hr, hT⟩
    rw [onMessage_empty_eq_iff.mp ((hleaves {}).1 hincomplete)] at hdecoded
    cases hdecoded
  · intro hdefaulted cache
    refine ⟨fun hincomplete => ?_, fun other hne => onMessage_rates_of_ne hne cache message⟩
    by_cases hobject : ∃ members, message = some (.object members)
    · obtain ⟨members, rfl⟩ := hobject
      rw [onMessage_eq]
      cases hd : (decode (some (.object members))).toOption with
      | none => rfl
      | some p =>
        obtain ⟨hr, hT⟩ := (decode_object h members).mp (by rw [hd]; rfl)
        -- what is there can be converted, so it is complete or defaulted
        refine absurd ⟨members, rfl, ?_, hr, hT⟩ hdefaulted
        by_contra hboth
        rw [not_or] at hboth
        obtain ⟨r, hr'⟩ := Option.ne_none_iff_exists'.mp hboth.1
        obtain ⟨t, ht'⟩ := Option.ne_none_iff_exists'.mp hboth.2
        refine hincomplete ⟨_, rfl, ?_, ?_⟩
        · rw [Json.field, Json.member, hr']
          exact hr r hr'
        · rw [Json.field, Json.member, ht']
          exact hT t ht'
    · exact onMessage_of_not_object (fun members hm => hobject ⟨members, hm⟩) cache

/-- A rate that is no number, without a time. -/
theorem leavesAlone_iff_double :
    LeavesAlone "ETHUSDT" (some (.object [("r", .string "abc")]) : Option (Json XDouble)) ↔
      ¬ Defaulted (some (.object [("r", .string "abc")]) : Option (Json XDouble)) :=
  leavesAlone_iff rfl "ETHUSDT" _

/-- An empty object sets the rate to zero. -/
theorem not_leavesAlone_empty :
    ¬ LeavesAlone "ETHUSDT" (some (.object []) : Option (Json XDouble)) := by
  intro h
  have hincomplete : ¬ Complete (some (.object []) : Option (Json XDouble)) := by
    rintro ⟨j, ⟨⟩, hrate, -⟩
    cases hrate
  have hempty := (h {}).1 hincomplete
  have hentry := congrFun (congrArg FundingCache.rates hempty) "ETHUSDT"
  revert hentry
  decide +kernel

end SyntheticArbitrage.BinanceFunding
