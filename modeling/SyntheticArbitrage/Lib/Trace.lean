import Mathlib.Data.List.Basic
import Mathlib.Tactic.Common

/-!
# Computations that make calls

A `Trace ε κ α` is a computation that makes calls `κ` on its way and ends in a value or stops with
an `ε`.  What it has called before it stops stays called, as with the effects of a `try` block whose
exception is caught outside of it.

* `Trace.emit`, `Trace.lift`: one call; a computation that makes none.
* `calls_bind`, `bind_of_ok`: the calls of a sequence.
* `Trace.leading`: the items of a list up to the first that cannot be read.
* `calls_forEach`: a loop over a list makes the calls of its leading items.
* `result_forEach_eq_error_iff`: the item that stops a loop.
* `Ends`: a computation that does not stop, with its calls and its value.
* `ends_foldlM`: a loop with an accumulator whose steps do not stop is a fold.
-/

namespace SyntheticArbitrage

/-- The calls a computation made, in order, and how it ended. -/
structure Trace (ε κ α : Type) where
  calls : List κ
  result : Except ε α

namespace Trace

variable {ε κ α β γ : Type}

instance : Monad (Trace ε κ) where
  pure a := ⟨[], .ok a⟩
  bind x f :=
    match x.result with
    | .ok a => ⟨x.calls ++ (f a).calls, (f a).result⟩
    | .error e => ⟨x.calls, .error e⟩

def emit (k : κ) : Trace ε κ Unit := ⟨[k], .ok ()⟩

/-- A computation that makes no call. -/
def lift (x : Except ε α) : Trace ε κ α := ⟨[], x⟩

def forEach (body : α → Trace ε κ Unit) : List α → Trace ε κ Unit
  | [] => pure ()
  | x :: xs => do
    body x
    forEach body xs

/-! ## The calls of a sequence -/

@[simp] theorem calls_pure (a : α) : (pure a : Trace ε κ α).calls = [] := rfl

@[simp] theorem calls_emit (k : κ) : (emit k : Trace ε κ Unit).calls = [k] := rfl

theorem calls_bind (x : Trace ε κ α) (f : α → Trace ε κ β) :
    (x >>= f).calls = x.calls ++ match x.result with
      | .ok a => (f a).calls
      | .error _ => [] := by
  show (match x.result with
    | .ok a => (⟨x.calls ++ (f a).calls, (f a).result⟩ : Trace ε κ β)
    | .error e => ⟨x.calls, .error e⟩).calls = _
  cases x.result with
  | ok a => rfl
  | error e => simp

theorem result_bind (x : Trace ε κ α) (f : α → Trace ε κ β) :
    (x >>= f).result = match x.result with
      | .ok a => (f a).result
      | .error e => .error e := by
  show (match x.result with
    | .ok a => (⟨x.calls ++ (f a).calls, (f a).result⟩ : Trace ε κ β)
    | .error e => ⟨x.calls, .error e⟩).result = _
  cases x.result <;> rfl

theorem bind_of_ok {x : Trace ε κ α} {a : α} (h : x.result = .ok a) (f : α → Trace ε κ β) :
    (x >>= f).calls = x.calls ++ (f a).calls ∧ (x >>= f).result = (f a).result := by
  rw [calls_bind, result_bind, h]
  exact ⟨rfl, rfl⟩

/-- A step without calls that ends in a value is the value. -/
@[simp] theorem lift_ok_bind (a : α) (f : α → Trace ε κ β) :
    ((lift (.ok a) : Trace ε κ α) >>= f) = f a := rfl

@[simp] theorem pure_bind (a : α) (f : α → Trace ε κ β) : ((pure a : Trace ε κ α) >>= f) = f a :=
  rfl

theorem bind_assoc (x : Trace ε κ α) (f : α → Trace ε κ β) (g : β → Trace ε κ γ) :
    (x >>= f) >>= g = x >>= fun a => f a >>= g := by
  obtain ⟨calls, result⟩ := x
  cases result with
  | error e => rfl
  | ok a =>
    show (⟨calls ++ (f a).calls, (f a).result⟩ : Trace ε κ β) >>= g =
      ⟨calls ++ (f a >>= g).calls, (f a >>= g).result⟩
    generalize f a = y
    obtain ⟨calls', result'⟩ := y
    cases result' with
    | error e => rfl
    | ok b =>
      show (⟨(calls ++ calls') ++ (g b).calls, (g b).result⟩ : Trace ε κ γ) =
        ⟨calls ++ (calls' ++ (g b).calls), (g b).result⟩
      rw [List.append_assoc]

theorem bind_congr {x : Trace ε κ α} {f g : α → Trace ε κ β}
    (h : ∀ a, x.result = .ok a → f a = g a) : x >>= f = x >>= g := by
  obtain ⟨calls, result⟩ := x
  cases result with
  | error e => rfl
  | ok a =>
    show (⟨calls ++ (f a).calls, (f a).result⟩ : Trace ε κ β) = ⟨calls ++ (g a).calls, (g a).result⟩
    rw [h a rfl]

/-! ## Loops -/

/-- The items at the head of a list that can be read, up to the first one that cannot. -/
def leading (read : α → Option β) : List α → List β
  | [] => []
  | x :: xs =>
    match read x with
    | some b => b :: leading read xs
    | none => []

theorem leading_cons_of_some {read : α → Option β} {x : α} {b : β} (h : read x = some b)
    (xs : List α) : leading read (x :: xs) = b :: leading read xs := by
  rw [leading, h]

theorem leading_cons_of_none {read : α → Option β} {x : α} (h : read x = none) (xs : List α) :
    leading read (x :: xs) = [] := by
  rw [leading, h]

/-- An item that is not read, if the loop comes to it, leaves the items before it. -/
theorem leading_append_cons {read : α → Option β} {front : List α} {x : α} (back : List α)
    (h : (∀ y ∈ front, (read y).isSome) → read x = none) :
    leading read (front ++ x :: back) = leading read front := by
  induction front with
  | nil =>
    rw [List.nil_append, leading_cons_of_none (h (by simp))]
    rfl
  | cons y front ih =>
    rw [List.cons_append]
    cases hy : read y with
    | none => rw [leading_cons_of_none hy, leading_cons_of_none hy]
    | some b =>
      rw [leading_cons_of_some hy, leading_cons_of_some hy,
        ih fun hfront => h (List.forall_mem_cons.mpr ⟨by rw [hy]; rfl, hfront⟩)]

/-- When every item can be read, all of them are. -/
theorem leading_map {read : β → Option γ} {g : α → β} {f : α → γ}
    (h : ∀ x, read (g x) = some (f x)) (xs : List α) : leading read (xs.map g) = xs.map f := by
  induction xs with
  | nil => rfl
  | cons x xs ih => rw [List.map_cons, leading_cons_of_some (h x), List.map_cons, ih]

/-- A loop whose steps read an item and then make calls that do not stop: it makes the calls of the
leading items that can be read. -/
theorem calls_forEach (read : α → Except ε β) (act : β → Trace ε κ Unit)
    (hact : ∀ b, (act b).result = .ok ()) (xs : List α) :
    (forEach (fun x => lift (read x) >>= act) xs).calls =
      (leading (fun x => (read x).toOption) xs).flatMap fun b => (act b).calls := by
  induction xs with
  | nil => rfl
  | cons x xs ih =>
    rw [forEach]
    cases hread : read x with
    | error e =>
      rw [leading_cons_of_none (by rw [hread]; rfl)]
      rfl
    | ok b =>
      rw [leading_cons_of_some (by rw [hread]; rfl), lift_ok_bind, (bind_of_ok (hact b) _).1, ih,
        List.flatMap_cons]

/-- Such a loop stops with an `e` exactly when it comes to an item whose reading stops with it. -/
theorem result_forEach_eq_error_iff {read : α → Except ε β} {act : β → Trace ε κ Unit}
    (hact : ∀ b, (act b).result = .ok ()) {e : ε} {xs : List α} :
    (forEach (fun x => lift (read x) >>= act) xs).result = .error e ↔
      ∃ front x back, xs = front ++ x :: back ∧ (∀ y ∈ front, (read y).toOption.isSome) ∧
        read x = .error e := by
  induction xs with
  | nil =>
    refine iff_of_false (by rintro ⟨⟩) ?_
    rintro ⟨front, x, back, h, -⟩
    simp at h
  | cons x xs ih =>
    rw [forEach]
    cases hread : read x with
    | error e' =>
      show Except.error e' = Except.error e ↔ _
      constructor
      · intro h
        obtain rfl := Except.error.inj h
        exact ⟨[], x, xs, rfl, by simp, hread⟩
      · rintro ⟨front, y, back, hxs, hfront, hy⟩
        cases front with
        | nil =>
          obtain ⟨rfl, -⟩ := List.cons.inj hxs
          exact congrArg Except.error (Except.error.inj (hread.symm.trans hy))
        | cons z front =>
          obtain ⟨rfl, -⟩ := List.cons.inj hxs
          have hz := hfront x List.mem_cons_self
          rw [hread] at hz
          cases hz
    | ok b =>
      rw [lift_ok_bind, (bind_of_ok (hact b) _).2, ih]
      constructor
      · rintro ⟨front, y, back, rfl, hfront, hy⟩
        refine ⟨x :: front, y, back, rfl, List.forall_mem_cons.mpr ⟨?_, hfront⟩, hy⟩
        rw [hread]
        rfl
      · rintro ⟨front, y, back, hxs, hfront, hy⟩
        cases front with
        | nil =>
          obtain ⟨rfl, -⟩ := List.cons.inj hxs
          rw [hread] at hy
          cases hy
        | cons z front =>
          obtain ⟨rfl, rfl⟩ := List.cons.inj hxs
          exact ⟨front, y, back, rfl, (List.forall_mem_cons.mp hfront).2, hy⟩

/-! ## Computations that do not stop -/

/-- The computation makes these calls and ends in this value. -/
structure Ends (x : Trace ε κ α) (calls : List κ) (a : α) : Prop where
  calls : x.calls = calls
  result : x.result = .ok a

theorem ends_pure (a : α) : Ends (pure a : Trace ε κ α) [] a := ⟨rfl, rfl⟩

theorem ends_emit (k : κ) : Ends (emit k : Trace ε κ Unit) [k] () := ⟨rfl, rfl⟩

theorem ends_lift (a : α) : Ends (lift (.ok a) : Trace ε κ α) [] a := ⟨rfl, rfl⟩

/-- The calls of a sequence are those of its parts, in order. -/
theorem Ends.bind {x : Trace ε κ α} {f : α → Trace ε κ β} {calls calls' : List κ} {a : α} {b : β}
    (hx : Ends x calls a) (hf : Ends (f a) calls' b) : Ends (x >>= f) (calls ++ calls') b := by
  obtain ⟨hcalls, hresult⟩ := bind_of_ok hx.result f
  constructor
  · rw [hcalls, hx.calls, hf.calls]
  · rw [hresult, hf.result]

/-- A step without calls at the end only changes the value. -/
theorem Ends.map {x : Trace ε κ α} {calls : List κ} {a : α} (hx : Ends x calls a) (g : α → β) :
    Ends (x >>= fun a => pure (g a)) calls (g a) := by
  have h : Ends (x >>= fun a => pure (g a)) (calls ++ []) (g a) := hx.bind (ends_pure (g a))
  rwa [List.append_nil] at h

/-- A loop with an accumulator, whose steps on these items do not stop: it makes the calls of the
items in order and ends in the fold over them. -/
theorem ends_foldlM {step : β → α → Trace ε κ β} {call : α → κ} {next : β → α → β} {xs : List α}
    (h : ∀ x ∈ xs, ∀ b, Ends (step b x) [call x] (next b x)) (b : β) :
    Ends (xs.foldlM step b) (xs.map call) (xs.foldl next b) := by
  induction xs generalizing b with
  | nil => exact ends_pure b
  | cons x xs ih =>
    rw [List.foldlM_cons]
    have hrest : ∀ y ∈ xs, ∀ b, Ends (step b y) [call y] (next b y) :=
      fun y hy => h y (List.mem_cons_of_mem x hy)
    exact (h x List.mem_cons_self b).bind (ih hrest (next b x))

end Trace

end SyntheticArbitrage
