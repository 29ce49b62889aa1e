import SyntheticArbitrage.Lib.Trace

/-!
# Readers of buffers

A machine that reads a stream of which it is given one buffer after the other.  Its loop goes on
until something is ready to be taken or the buffer is used up, and what is ready is taken before the
loop goes on.

* `consume`: the loop on one buffer, until something is ready; `read`: the loop with what is taken.
* `Lawful`: an iteration does with two buffers in a row what it does with one.
* `consume_step`, `read_eq`: the loops without their bounds.
* `read_append`, `read_flatten`: **what is read does not depend on how the stream is cut into
  buffers.**
-/

namespace SyntheticArbitrage

/-- A machine with states `σ` that reads items `β`, makes messages `μ` of them and can fail with
`ε`. -/
structure BufferReader (σ β μ ε : Type) where
  /-- A message is ready to be taken. -/
  ready : σ → Bool
  /-- How many items the iteration waits for. -/
  waits : σ → ℕ
  /-- One iteration, with what it leaves of the buffer. -/
  iterate : σ → List β → Except ε (σ × List β)
  /-- The message that is ready, and the state without it. -/
  take : σ → μ × σ
  /-- A bound for the number of iterations on so many items. -/
  bound : σ → ℕ → ℕ

namespace BufferReader

variable {σ β μ ε : Type} (m : BufferReader σ β μ ε)

/-- The loop goes on: nothing is ready, and there are items or none are waited for. -/
def goesOn (s : σ) (buf : List β) : Bool := !m.ready s && (!buf.isEmpty || m.waits s == 0)

/-- The loop on a buffer, for at most so many iterations. -/
def consumeLoop : ℕ → σ → List β → Except ε (σ × List β)
  | 0, s, buf => .ok (s, buf)
  | fuel + 1, s, buf =>
    if m.goesOn s buf then (m.iterate s buf).bind fun r => consumeLoop fuel r.1 r.2
    else .ok (s, buf)

/-- The loop on a buffer until something is ready. -/
def consume (s : σ) (buf : List β) : Except ε (σ × List β) :=
  m.consumeLoop (m.bound s buf.length + 1) s buf

def readLoop : ℕ → σ → List β → Trace ε μ σ
  | 0, s, _ => pure s
  | fuel + 1, s, buf =>
    if buf.isEmpty then pure s
    else do
      let r ← Trace.lift (m.consume s buf)
      if m.ready r.1 then do
        Trace.emit (m.take r.1).1
        readLoop fuel (m.take r.1).2 r.2
      else readLoop fuel r.1 r.2

def read (s : σ) (buf : List β) : Trace ε μ σ := m.readLoop buf.length s buf

/-- What holds of the iterations of a machine in the states with an invariant. -/
structure Lawful (Inv : σ → Prop) : Prop where
  inv {s s' : σ} {buf rest : List β} : Inv s → m.goesOn s buf →
    m.iterate s buf = .ok (s', rest) → Inv s'
  bound {s s' : σ} {buf rest : List β} : Inv s → m.goesOn s buf →
    m.iterate s buf = .ok (s', rest) → m.bound s' rest.length < m.bound s buf.length
  rest {s s' : σ} {buf rest : List β} : Inv s → m.goesOn s buf →
    m.iterate s buf = .ok (s', rest) →
    rest.length ≤ buf.length ∧ (0 < m.waits s → rest.length < buf.length)
  /-- With what it waits for, the iteration leaves what comes after the buffer. -/
  whole {s : σ} {xs : List β} (ys : List β) : Inv s → m.ready s = false →
    m.waits s ≤ xs.length →
    m.iterate s (xs ++ ys) = (m.iterate s xs).map fun r => (r.1, r.2 ++ ys)
  /-- Without all of what it waits for, the iteration uses up the buffer and waits for more. -/
  part {s s' : σ} {xs rest : List β} : Inv s → m.ready s = false → xs ≠ [] →
    xs.length < m.waits s → m.iterate s xs = .ok (s', rest) →
    rest = [] ∧ m.ready s' = false ∧ 0 < m.waits s'
  /-- Then the next iteration goes on with it. -/
  part_append {s : σ} {xs ys : List β} : Inv s → m.ready s = false → xs ≠ [] →
    xs.length < m.waits s → ys ≠ [] →
    m.iterate s (xs ++ ys) = (m.iterate s xs).bind fun r => m.iterate r.1 ys
  take_inv {s : σ} : Inv s → m.ready s = true → Inv (m.take s).2
  take_waits {s : σ} : Inv s → m.ready s = true →
    m.ready (m.take s).2 = false ∧ 0 < m.waits (m.take s).2

variable {m} {Inv : σ → Prop} {s s' : σ} {buf rest : List β}

theorem goesOn_iff : m.goesOn s buf = true ↔ m.ready s = false ∧ (buf = [] → m.waits s = 0) := by
  rw [goesOn]
  cases buf <;> simp

theorem not_goesOn_of_ready (h : m.ready s = true) : m.goesOn s buf = false := by
  rw [goesOn, h]
  rfl

theorem not_goesOn_nil (h : 0 < m.waits s) : m.goesOn s [] = false := by
  rw [← Bool.not_eq_true, goesOn_iff]
  rintro ⟨-, hzero⟩
  exact absurd (hzero rfl) (Nat.ne_of_gt h)

/-! ## One buffer until something is ready -/

namespace Lawful

variable (hm : m.Lawful Inv)
include hm

theorem consumeLoop_congr {f g : ℕ} (hs : Inv s) (hf : m.bound s buf.length < f)
    (hg : m.bound s buf.length < g) : m.consumeLoop f s buf = m.consumeLoop g s buf := by
  induction f generalizing s buf g with
  | zero => omega
  | succ f ih =>
    cases g with
    | zero => omega
    | succ g =>
      rw [consumeLoop, consumeLoop]
      by_cases hgoes : m.goesOn s buf = true
      · rw [if_pos hgoes, if_pos hgoes]
        cases hiterate : m.iterate s buf with
        | error e => rfl
        | ok r =>
          have hless := hm.bound hs hgoes hiterate
          exact ih (hm.inv hs hgoes hiterate) (by omega) (by omega)
      · rw [if_neg hgoes, if_neg hgoes]

omit hm in
theorem consume_done (h : m.goesOn s buf = false) : m.consume s buf = .ok (s, buf) := by
  rw [consume, consumeLoop, if_neg (by rw [h]; exact Bool.false_ne_true)]

theorem consume_step (hs : Inv s) (h : m.goesOn s buf = true) :
    m.consume s buf = (m.iterate s buf).bind fun r => m.consume r.1 r.2 := by
  rw [consume, consumeLoop, if_pos h]
  cases hiterate : m.iterate s buf with
  | error e => rfl
  | ok r =>
    have hless := hm.bound hs h hiterate
    exact hm.consumeLoop_congr (hm.inv hs h hiterate) (by omega) (Nat.lt_succ_self _)

theorem consume_spec (hs : Inv s) (h : m.consume s buf = .ok (s', rest)) :
    Inv s' ∧ m.goesOn s' rest = false ∧ rest.length ≤ buf.length := by
  induction hn : m.bound s buf.length using Nat.strongRecOn generalizing s buf with
  | ind n ih =>
    subst hn
    by_cases hgoes : m.goesOn s buf = true
    · rw [hm.consume_step hs hgoes] at h
      cases hiterate : m.iterate s buf with
      | error e =>
        rw [hiterate] at h
        cases h
      | ok r =>
        rw [hiterate] at h
        obtain ⟨hinv, hend, hlen⟩ :=
          ih _ (hm.bound hs hgoes hiterate) (hm.inv hs hgoes hiterate) h rfl
        exact ⟨hinv, hend, Nat.le_trans hlen (hm.rest hs hgoes hiterate).1⟩
    · rw [Bool.not_eq_true] at hgoes
      rw [consume_done hgoes] at h
      cases h
      exact ⟨hs, hgoes, Nat.le_refl _⟩

theorem consume_lt (hs : Inv s) (hready : m.ready s = false) (hwaits : 0 < m.waits s)
    (hbuf : buf ≠ []) (h : m.consume s buf = .ok (s', rest)) : rest.length < buf.length := by
  have hgoes : m.goesOn s buf = true := goesOn_iff.mpr ⟨hready, fun hnil => absurd hnil hbuf⟩
  rw [hm.consume_step hs hgoes] at h
  cases hiterate : m.iterate s buf with
  | error e =>
    rw [hiterate] at h
    cases h
  | ok r =>
    rw [hiterate] at h
    have hless := (hm.rest hs hgoes hiterate).2 hwaits
    have hle := (hm.consume_spec (hm.inv hs hgoes hiterate) h).2.2
    omega

/-- **The loop on two buffers in a row.** -/
theorem consume_append (hs : Inv s) (xs ys : List β) :
    m.consume s (xs ++ ys) = (m.consume s xs).bind fun r => m.consume r.1 (r.2 ++ ys) := by
  induction hn : m.bound s xs.length using Nat.strongRecOn generalizing s xs with
  | ind n ih =>
    subst hn
    by_cases hgoes : m.goesOn s xs = true
    · obtain ⟨hready, hempty⟩ := goesOn_iff.mp hgoes
      have hgoes' : m.goesOn s (xs ++ ys) = true :=
        goesOn_iff.mpr ⟨hready, fun h => hempty (List.append_eq_nil_iff.mp h).1⟩
      rw [hm.consume_step hs hgoes]
      by_cases hwaits : m.waits s ≤ xs.length
      · -- the iteration is the same with both buffers
        rw [hm.consume_step hs hgoes', hm.whole ys hs hready hwaits]
        cases hiterate : m.iterate s xs with
        | error e => rfl
        | ok r => exact ih _ (hm.bound hs hgoes hiterate) (hm.inv hs hgoes hiterate) r.2 rfl
      · -- the first buffer is used up, and the iteration goes on with the second one
        have hxs : xs ≠ [] := by
          intro h
          rw [hempty h] at hwaits
          exact hwaits (Nat.zero_le _)
        cases hiterate : m.iterate s xs with
        | error e =>
          cases ys with
          | nil => rw [List.append_nil, hm.consume_step hs hgoes, hiterate]; rfl
          | cons y ys =>
            rw [hm.consume_step hs hgoes', hm.part_append hs hready hxs (by omega)
              (List.cons_ne_nil y ys), hiterate]
            rfl
        | ok r =>
          obtain ⟨s₁, rest₁⟩ := r
          obtain ⟨rfl, hready₁, hwaits₁⟩ := hm.part hs hready hxs (by omega) hiterate
          have hend : m.consume s₁ [] = .ok (s₁, []) := consume_done (not_goesOn_nil hwaits₁)
          show m.consume s (xs ++ ys) = (m.consume s₁ []).bind fun r => m.consume r.1 (r.2 ++ ys)
          rw [hend]
          show m.consume s (xs ++ ys) = m.consume s₁ ys
          cases ys with
          | nil => rw [List.append_nil, hm.consume_step hs hgoes, hiterate]; rfl
          | cons y ys =>
            have hgoes₁ : m.goesOn s₁ (y :: ys) = true := goesOn_iff.mpr ⟨hready₁, nofun⟩
            rw [hm.consume_step hs hgoes', hm.part_append hs hready hxs (by omega)
              (List.cons_ne_nil y ys), hiterate,
              hm.consume_step (hm.inv hs hgoes hiterate) hgoes₁]
            rfl
    · rw [Bool.not_eq_true] at hgoes
      rw [consume_done hgoes]
      rfl

end Lawful

/-! ## Buffers -/

/-- The machine is between two buffers. -/
structure Waiting (m : BufferReader σ β μ ε) (Inv : σ → Prop) (s : σ) : Prop where
  inv : Inv s
  ready : m.ready s = false
  waits : 0 < m.waits s

/-- The buffer goes on after the loop on it, once something is ready or it is used up. -/
def goOn (m : BufferReader σ β μ ε) (r : σ × List β) : Trace ε μ σ :=
  if m.ready r.1 then do
    Trace.emit (m.take r.1).1
    m.read (m.take r.1).2 r.2
  else m.read r.1 r.2

@[simp] theorem read_nil (s : σ) : m.read s [] = pure s := rfl

namespace Lawful

variable (hm : m.Lawful Inv)
include hm

theorem waiting_take (hs : Inv s) (h : m.ready s = true) : m.Waiting Inv (m.take s).2 :=
  ⟨hm.take_inv hs h, (hm.take_waits hs h).1, (hm.take_waits hs h).2⟩

theorem waiting_of_consume (hs : Inv s) (h : m.consume s buf = .ok (s', rest))
    (hready : m.ready s' = false) : m.Waiting Inv s' ∧ rest = [] := by
  obtain ⟨hinv, hend, -⟩ := hm.consume_spec hs h
  rw [← Bool.not_eq_true, goesOn_iff, not_and] at hend
  have hstop := hend hready
  rw [Classical.not_imp] at hstop
  exact ⟨⟨hinv, hready, Nat.pos_of_ne_zero hstop.2⟩, hstop.1⟩

theorem readLoop_congr {f g : ℕ} (hs : m.Waiting Inv s) (hf : buf.length ≤ f)
    (hg : buf.length ≤ g) : m.readLoop f s buf = m.readLoop g s buf := by
  induction f generalizing s buf g with
  | zero =>
    obtain rfl := List.eq_nil_of_length_eq_zero (Nat.le_zero.mp hf)
    cases g <;> rfl
  | succ f ih =>
    cases hbuf : buf with
    | nil => cases g <;> rfl
    | cons b bs =>
      rw [← hbuf]
      have hne : buf ≠ [] := by rw [hbuf]; exact List.cons_ne_nil b bs
      cases g with
      | zero => exact absurd (List.eq_nil_of_length_eq_zero (Nat.le_zero.mp hg)) hne
      | succ g =>
        have hempty : buf.isEmpty = false := by rw [hbuf]; rfl
        rw [readLoop, readLoop, hempty]
        cases hconsume : m.consume s buf with
        | error e => rfl
        | ok r =>
          obtain ⟨s₁, rest⟩ := r
          have hless := hm.consume_lt hs.inv hs.ready hs.waits hne hconsume
          cases hready : m.ready s₁ with
          | true =>
            have htake := hm.waiting_take (hm.consume_spec hs.inv hconsume).1 hready
            have hrest : m.readLoop f (m.take s₁).2 rest = m.readLoop g (m.take s₁).2 rest :=
              ih htake (by omega) (by omega)
            simp only [Bool.false_eq_true, if_false, Trace.lift_ok_bind, hready, if_true, hrest]
          | false =>
            have hwaiting := (hm.waiting_of_consume hs.inv hconsume hready).1
            have hrest : m.readLoop f s₁ rest = m.readLoop g s₁ rest :=
              ih hwaiting (by omega) (by omega)
            simp only [Bool.false_eq_true, if_false, Trace.lift_ok_bind, hready, hrest]

theorem read_eq (hs : m.Waiting Inv s) (hbuf : buf ≠ []) :
    m.read s buf = Trace.lift (m.consume s buf) >>= m.goOn := by
  obtain ⟨b, bs, rfl⟩ := List.exists_cons_of_ne_nil hbuf
  rw [read, List.length_cons, readLoop]
  cases hconsume : m.consume s (b :: bs) with
  | error e => rfl
  | ok r =>
    obtain ⟨s₁, rest⟩ := r
    have hless := hm.consume_lt hs.inv hs.ready hs.waits hbuf hconsume
    rw [List.length_cons] at hless
    show (if m.ready s₁ = true then _ else _) = (if m.ready s₁ = true then _ else _)
    cases hready : m.ready s₁ with
    | true =>
      have htake := hm.waiting_take (hm.consume_spec hs.inv hconsume).1 hready
      have hrest : m.readLoop bs.length (m.take s₁).2 rest = m.read (m.take s₁).2 rest :=
        hm.readLoop_congr htake (by omega) (Nat.le_refl _)
      simp only [if_true, hrest]
    | false =>
      have hwaiting := (hm.waiting_of_consume hs.inv hconsume hready).1
      have hrest : m.readLoop bs.length s₁ rest = m.read s₁ rest :=
        hm.readLoop_congr hwaiting (by omega) (Nat.le_refl _)
      simp only [Bool.false_eq_true, if_false, hrest]

theorem consume_goOn (hs : m.Waiting Inv s) (buf : List β) :
    Trace.lift (m.consume s buf) >>= m.goOn = m.read s buf := by
  by_cases hbuf : buf = []
  · subst hbuf
    rw [consume_done (not_goesOn_nil hs.waits), Trace.lift_ok_bind, goOn,
      if_neg (by rw [hs.ready]; exact Bool.false_ne_true)]
  · rw [hm.read_eq hs hbuf]

/-- **What is read of two buffers is what is read of them in one.** -/
theorem read_append (hs : m.Waiting Inv s) (xs ys : List β) :
    m.read s (xs ++ ys) = m.read s xs >>= fun s' => m.read s' ys := by
  induction hn : xs.length using Nat.strongRecOn generalizing s xs with
  | ind n ih =>
    subst hn
    by_cases hxs : xs = []
    · subst hxs
      rfl
    · have happend : xs ++ ys ≠ [] := fun h => hxs (List.append_eq_nil_iff.mp h).1
      rw [hm.read_eq hs hxs, hm.read_eq hs happend, hm.consume_append hs.inv]
      cases hconsume : m.consume s xs with
      | error e => rfl
      | ok r =>
        obtain ⟨s₁, rest⟩ := r
        have hless := hm.consume_lt hs.inv hs.ready hs.waits hxs hconsume
        rw [Trace.bind_assoc, Trace.lift_ok_bind]
        show Trace.lift (m.consume s₁ (rest ++ ys)) >>= m.goOn =
          m.goOn (s₁, rest) >>= fun s' => m.read s' ys
        cases hready : m.ready s₁ with
        | true =>
          have htake := hm.waiting_take (hm.consume_spec hs.inv hconsume).1 hready
          rw [consume_done (not_goesOn_of_ready hready), Trace.lift_ok_bind, goOn, goOn,
            if_pos hready, if_pos hready, Trace.bind_assoc, ih _ hless htake rest rfl]
        | false =>
          obtain ⟨hwaiting, rfl⟩ := hm.waiting_of_consume hs.inv hconsume hready
          have hrest : m.goOn (s₁, []) = pure s₁ := by
            rw [goOn, if_neg (by rw [hready]; exact Bool.false_ne_true), read_nil]
          rw [hrest, Trace.pure_bind, List.nil_append, hm.consume_goOn hwaiting]

theorem waiting_of_read (hs : m.Waiting Inv s) (h : (m.read s buf).result = .ok s') :
    m.Waiting Inv s' := by
  induction hn : buf.length using Nat.strongRecOn generalizing s buf with
  | ind n ih =>
    subst hn
    by_cases hbuf : buf = []
    · subst hbuf
      cases h
      exact hs
    · rw [hm.read_eq hs hbuf] at h
      cases hconsume : m.consume s buf with
      | error e =>
        rw [hconsume] at h
        cases h
      | ok r =>
        obtain ⟨s₁, rest⟩ := r
        have hless := hm.consume_lt hs.inv hs.ready hs.waits hbuf hconsume
        rw [hconsume, Trace.lift_ok_bind, goOn] at h
        cases hready : m.ready s₁ with
        | true =>
          have htake := hm.waiting_take (hm.consume_spec hs.inv hconsume).1 hready
          rw [if_pos hready, Trace.result_bind] at h
          exact ih _ hless htake h rfl
        | false =>
          have hwaiting := (hm.waiting_of_consume hs.inv hconsume hready).1
          rw [if_neg (by rw [hready]; exact Bool.false_ne_true)] at h
          exact ih _ hless hwaiting h rfl

/-- **What is read does not depend on how the stream is cut into buffers.** -/
theorem read_flatten (hs : m.Waiting Inv s) (bufs : List (List β)) :
    bufs.foldlM m.read s = m.read s bufs.flatten := by
  induction bufs generalizing s with
  | nil => rfl
  | cons buf bufs ih =>
    rw [List.foldlM_cons, List.flatten_cons, hm.read_append hs]
    exact Trace.bind_congr fun s' h => ih (hm.waiting_of_read hs h)

end Lawful

end BufferReader

end SyntheticArbitrage
