import SyntheticArbitrage.Lib.LastWrite
import SyntheticArbitrage.SpotSynth.Basic
import SyntheticArbitrage.SyntheticPerpEngine

/-!
# The order in which ticks arrive

`SyntheticSpotSynth::update` keeps a price for each leg and `CrossExchangePair::update` one for each
venue.  Both are given the timestamp of the tick, and neither compares it with the stored one.

* `Store`: the four prices kept; `Stores.receive` delivers a tick to the engine it is for.
* `price_receive`: a tick overwrites the price of its store, whatever its timestamp.
* `LatestWins`: after a delivery each price is that of the latest tick of its store.
* `latestWins_iff`: for which deliveries that is so, and for which sets of ticks it is so in every
  order.
-/

namespace SyntheticArbitrage

variable {R : Type} [DoubleOps R]

inductive Store where
  | ethbtc
  | btcusdt
  | binance
  | bybit
  deriving DecidableEq

/-- A tick on its way to one of the two engines. -/
inductive Arrival (R : Type) where
  /-- To `SyntheticSpotSynth::update`. -/
  | leg (symbol : String) (price : R) (timestamp : UInt64)
  /-- To `CrossExchangePair::update`. -/
  | venue (name : String) (price : R) (timestamp : UInt64)

namespace Arrival

def price : Arrival R → R
  | leg _ price _ => price
  | venue _ price _ => price

def timestamp : Arrival R → UInt64
  | leg _ _ timestamp => timestamp
  | venue _ _ timestamp => timestamp

/-- The store that a tick is for. -/
def store : Arrival R → Option Store
  | leg symbol _ _ =>
    if symbol = "ETHBTC" then some .ethbtc
    else if symbol = "BTCUSDT" then some .btcusdt
    else none
  | venue name _ _ =>
    if name = "Binance" then some .binance
    else if name = "Bybit" then some .bybit
    else none

/-- The order of the timestamps. -/
def stamp (t : Arrival R) : ℕ := t.timestamp.toNat

def ofStore (x : Store) (ticks : List (Arrival R)) : List (Arrival R) :=
  ticks.filter fun t => t.store = some x

end Arrival

structure Stores (R : Type) where
  objects : Objects R
  ethCross : CrossExchangePair R

namespace Stores

open Arrival LastWrite

def receive (s : Stores R) : Arrival R → Stores R
  | .leg symbol price timestamp => { s with objects := s.objects.update symbol price timestamp }
  | .venue name price timestamp => { s with ethCross := s.ethCross.update name price timestamp }

def price (s : Stores R) : Store → R
  | .ethbtc => s.objects.ethSynth.ethbtc
  | .btcusdt => s.objects.ethSynth.btcusdt
  | .binance => s.ethCross.getPrice "Binance"
  | .bybit => s.ethCross.getPrice "Bybit"

/-- After the delivery each price is that of the latest tick of its store, and the synthetic price
is the product of the latest legs. -/
structure LatestWins (s : Stores R) (ticks : List (Arrival R)) : Prop where
  price : ∀ x t, IsLatest stamp t (ofStore x ticks) → (run receive s ticks).price x = t.price
  getSynthetic : ∀ t u, IsLatest stamp t (ofStore .ethbtc ticks) →
    IsLatest stamp u (ofStore .btcusdt ticks) →
    (run receive s ticks).objects.ethSynth.getSynthetic = t.price * u.price

/-! ## One tick -/

def given (x : Store) (t : Arrival R) : Option R := if t.store = some x then some t.price else none

/-- **One tick** overwrites the price of its store. -/
theorem price_receive (x : Store) (s : Stores R) (t : Arrival R) :
    (s.receive t).price x = (given x t).getD (s.price x) := by
  cases t with
  | leg symbol price ts =>
    have hne : ¬ "BTCUSDT" = "ETHBTC" := by decide
    have hlegs := Objects.update_frame s.objects symbol price ts
      (fun e => (e.ethbtc, e.btcusdt)) (fun _ _ _ => rfl)
    rw [Prod.mk.injEq, SyntheticSpotSynth.setLeg] at hlegs
    by_cases he : symbol = "ETHBTC"
    · subst he
      cases x <;> simp [receive, Stores.price, given, store, Arrival.price, hlegs]
    · by_cases hb : symbol = "BTCUSDT"
      · subst hb
        cases x <;> simp [receive, Stores.price, given, store, Arrival.price, hlegs, hne]
      · cases x <;> simp [receive, Stores.price, given, store, hlegs, he, hb]
  | venue name price ts =>
    have hne : ¬ "Bybit" = "Binance" := by decide
    have hbinance := CrossExchangePair.getPrice_update (Or.inl rfl) s.ethCross name price ts
    have hbybit := CrossExchangePair.getPrice_update (Or.inr rfl) s.ethCross name price ts
    by_cases hb : name = "Binance"
    · subst hb
      cases x <;> simp [receive, Stores.price, given, store, Arrival.price, hbinance, hbybit]
    · by_cases hy : name = "Bybit"
      · subst hy
        cases x <;> simp [receive, Stores.price, given, store, Arrival.price, hbinance, hbybit, hne]
      · cases x <;> simp [receive, Stores.price, given, store, hbinance, hbybit, hb, hy]

theorem ready_receive (s : Stores R) (t : Arrival R) :
    (s.receive t).objects.ethSynth.readyEthbtc =
        (s.objects.ethSynth.readyEthbtc || decide (t.store = some .ethbtc)) ∧
      (s.receive t).objects.ethSynth.readyBtcusdt =
        (s.objects.ethSynth.readyBtcusdt || decide (t.store = some .btcusdt)) := by
  cases t with
  | leg symbol price ts =>
    have hne : ¬ "BTCUSDT" = "ETHBTC" := by decide
    have hready := Objects.update_frame s.objects symbol price ts
      (fun e => (e.readyEthbtc, e.readyBtcusdt)) (fun _ _ _ => rfl)
    rw [Prod.mk.injEq, Objects.setLeg_readyEthbtc, Objects.setLeg_readyBtcusdt] at hready
    rw [receive, hready.1, hready.2]
    by_cases he : symbol = "ETHBTC"
    · simp [store, he]
    · by_cases hb : symbol = "BTCUSDT" <;> simp [store, he, hb, hne]
  | venue name price ts =>
    have hstore : (Arrival.venue name price ts).store ≠ some .ethbtc ∧
        (Arrival.venue name price ts).store ≠ some .btcusdt := by
      simp only [store]
      split_ifs <;> simp
    simp [receive, hstore.1, hstore.2]

/-! ## Deliveries -/

omit [DoubleOps R] in
theorem filterMap_given (x : Store) (ticks : List (Arrival R)) :
    ticks.filterMap (given x) = (ofStore x ticks).map Arrival.price := by
  induction ticks with
  | nil => rfl
  | cons t ticks ih =>
    by_cases h : t.store = some x
    · simpa [given, ofStore, h] using ih
    · simpa [given, ofStore, h] using ih

theorem price_run (x : Store) (s : Stores R) (ticks : List (Arrival R)) :
    (run receive s ticks).price x =
      (((ofStore x ticks).map Arrival.price).getLast?).getD (s.price x) := by
  rw [run_lastWrite (fun s : Stores R => s.price x) (price_receive x), filterMap_given]

theorem getSynthetic_run (s : Stores R) {ticks : List (Arrival R)}
    (he : ofStore .ethbtc ticks ≠ []) (hb : ofStore .btcusdt ticks ≠ []) :
    (run receive s ticks).objects.ethSynth.getSynthetic =
      (run receive s ticks).price .ethbtc * (run receive s ticks).price .btcusdt := by
  have hany : ∀ x : Store, ofStore x ticks ≠ [] →
      ticks.any (fun t => decide (t.store = some x)) = true := by
    intro x hx
    obtain ⟨t, ht⟩ := List.exists_mem_of_ne_nil _ hx
    obtain ⟨hmem, hstore⟩ := List.mem_filter.mp ht
    exact List.any_eq_true.mpr ⟨t, hmem, hstore⟩
  have hready : (run receive s ticks).objects.ethSynth.ready = true := by
    have hethbtc := run_flag (fun s : Stores R => s.objects.ethSynth.readyEthbtc)
      (fun s t => (ready_receive s t).1) s ticks
    have hbtcusdt := run_flag (fun s : Stores R => s.objects.ethSynth.readyBtcusdt)
      (fun s t => (ready_receive s t).2) s ticks
    rw [SyntheticSpotSynth.ready, hethbtc, hbtcusdt, hany _ he, hany _ hb]
    simp
  rw [SyntheticSpotSynth.getSynthetic, if_pos hready]
  rfl

theorem latestWins_iff_lastIsLatest (s : Stores R) (ticks : List (Arrival R)) :
    LatestWins s ticks ↔ ∀ x, LastIsLatest Arrival.price stamp (ofStore x ticks) := by
  constructor
  · intro h x t ht
    have hprice := h.price x t ht
    have hne : (ofStore x ticks).map Arrival.price ≠ [] :=
      List.map_eq_nil_iff.not.mpr (List.ne_nil_of_mem ht.1)
    rw [price_run, List.getLast?_eq_some_getLast hne, Option.getD_some] at hprice
    rw [List.getLast?_eq_some_getLast hne, hprice]
  · intro h
    have hprice : ∀ x t, IsLatest stamp t (ofStore x ticks) →
        (run receive s ticks).price x = t.price := by
      intro x t ht
      rw [price_run, h x t ht, Option.getD_some]
    refine ⟨hprice, fun t u ht hu => ?_⟩
    rw [getSynthetic_run s (List.ne_nil_of_mem ht.1) (List.ne_nil_of_mem hu.1), hprice _ t ht,
      hprice _ u hu]

omit [DoubleOps R] in
theorem exists_perm_ofStore {x : Store} {ticks writes : List (Arrival R)}
    (h : writes.Perm (ofStore x ticks)) :
    ∃ ticks', ticks'.Perm ticks ∧ ofStore x ticks' = writes := by
  refine ⟨writes ++ ticks.filter fun t => !decide (t.store = some x), ?_, ?_⟩
  · exact (h.append_right _).trans (List.filter_append_perm _ ticks)
  · have hwrites : ∀ t ∈ writes, decide (t.store = some x) = true :=
      fun t ht => (List.mem_filter.mp (h.mem_iff.mp ht)).2
    rw [ofStore, List.filter_append, List.filter_eq_self.mpr hwrites, List.filter_filter]
    simp

/-- **When delayed ticks do not win.**  A delivery leaves the prices of the latest ticks exactly
when the last tick of each store has the price of the latest one; and a set of ticks does so in
every order exactly when all ticks of a store have the same price. -/
theorem latestWins_iff (s : Stores R) (ticks : List (Arrival R)) :
    (LatestWins s ticks ↔ ∀ x, LastIsLatest Arrival.price stamp (ofStore x ticks)) ∧
      ((∀ order, order.Perm ticks → LatestWins s order) ↔
        ∀ t ∈ ticks, ∀ u ∈ ticks, t.store = u.store → t.store ≠ none → t.price = u.price) := by
  refine ⟨latestWins_iff_lastIsLatest s ticks, ?_⟩
  simp only [latestWins_iff_lastIsLatest]
  constructor
  · intro h t ht u hu hstore hne
    obtain ⟨x, hx⟩ := Option.ne_none_iff_exists'.mp hne
    have hall : ∀ writes, writes.Perm (ofStore x ticks) →
        LastIsLatest Arrival.price stamp writes := by
      intro writes hperm
      obtain ⟨order, horder, hof⟩ := exists_perm_ofStore hperm
      rw [← hof]
      exact h order horder x
    have hmem : ∀ v ∈ ticks, v.store = some x → v ∈ ofStore x ticks :=
      fun v hv hvx => List.mem_filter.mpr ⟨hv, decide_eq_true hvx⟩
    exact forall_perm_lastIsLatest_iff.mp hall t (hmem t ht hx) u (hmem u hu (hstore ▸ hx))
  · intro h order horder x
    refine forall_perm_lastIsLatest_iff.mpr (fun t ht u hu => ?_) _ (horder.filter _)
    obtain ⟨htmem, htx⟩ := List.mem_filter.mp ht
    obtain ⟨humem, hux⟩ := List.mem_filter.mp hu
    rw [decide_eq_true_eq] at htx hux
    exact h t htmem u humem (htx.trans hux.symm) (by rw [htx]; exact Option.some_ne_none x)

def initial : Stores R := ⟨Objects.mainObjects, CrossExchangePair.new⟩

/-- A tick that arrives a second late replaces the newer one. -/
theorem not_latestWins_delayed :
    ¬ LatestWins (initial : Stores ℚ)
      [.leg "ETHBTC" (1 / 20) 2000, .leg "ETHBTC" (1 / 25) 1000] := by
  intro h
  have hlatest : IsLatest stamp (Arrival.leg "ETHBTC" (1 / 20 : ℚ) 2000)
      (ofStore .ethbtc [.leg "ETHBTC" (1 / 20) 2000, .leg "ETHBTC" (1 / 25) 1000]) := by
    refine ⟨by simp [ofStore, store], fun u hu => ?_⟩
    have hmem := (List.mem_filter.mp hu).1
    simp only [List.mem_cons, List.not_mem_nil, or_false] at hmem
    rcases hmem with rfl | rfl <;> decide
  have hprice := h.price .ethbtc _ hlatest
  revert hprice
  decide +kernel

end Stores

end SyntheticArbitrage
