import SyntheticArbitrage.Double
import SyntheticArbitrage.Lib.Mean
import SyntheticArbitrage.Lib.Run
import SyntheticArbitrage.Lib.Window

/-!
# The mispricing buffer

`include/MispricingBuffer.hpp`: the last `max_size` deltas, their mean, and the spike test on it.

* `run_add_items`: after any deltas the buffer holds the last ones, in order.
* `average_eq`, `isPersistentSpike_iff`: the average and the spike test in exact arithmetic.
* `windowLaw`: the sliding window as a whole.
-/

namespace SyntheticArbitrage

structure MispricingBuffer (R : Type) where
  maxSize : ℕ
  buffer : Window R maxSize

namespace MispricingBuffer

variable {R : Type} [DoubleOps R]

/-- The constructor, called with `window_size`. -/
def new (windowSize : ℕ) : MispricingBuffer R := ⟨windowSize, Window.empty⟩

def add (b : MispricingBuffer R) (delta : R) : MispricingBuffer R :=
  ⟨b.maxSize, b.buffer.push delta⟩

def average (b : MispricingBuffer R) : R :=
  if b.buffer.items.isEmpty then 0
  else
    let sum := b.buffer.items.foldl (· + ·) 0
    sum / DoubleOps.ofInt b.buffer.items.length

def isPersistentSpike (b : MispricingBuffer R) (threshold : R) : Bool :=
  decide (threshold ≤ DoubleOps.abs b.average)

/-! ## The deltas held -/

omit [DoubleOps R] in
theorem add_items (b : MispricingBuffer R) (delta : R) :
    (b.add delta).buffer.items = Window.lastN b.maxSize (b.buffer.items ++ [delta]) :=
  Window.push_items _ _

omit [DoubleOps R] in
theorem run_add_maxSize (b : MispricingBuffer R) (deltas : List R) :
    (run add b deltas).maxSize = b.maxSize := by
  have hstep : ∀ (b : MispricingBuffer R) delta, (b.add delta).maxSize = b.maxSize :=
    fun _ _ => rfl
  exact run_frame maxSize hstep b deltas

omit [DoubleOps R] in
/-- **The buffer holds the last deltas**, in order. -/
theorem run_add_items (b : MispricingBuffer R) (deltas : List R) :
    (run add b deltas).buffer.items = Window.lastN b.maxSize (b.buffer.items ++ deltas) := by
  induction deltas using List.reverseRecOn with
  | nil => rw [run_nil, List.append_nil, Window.lastN_of_length_le b.buffer.size_le]
  | append_singleton deltas delta ih =>
    rw [run_concat, add_items, ih, run_add_maxSize, Window.lastN_lastN_append, List.append_assoc]

omit [DoubleOps R] in
theorem run_add_new_items (windowSize : ℕ) (deltas : List R) :
    (run add (new windowSize) deltas).buffer.items = Window.lastN windowSize deltas :=
  run_add_items (new windowSize) deltas

/-! ## The average in exact arithmetic -/

theorem average_eq (b : MispricingBuffer ℚ) : b.average = Mean.mean b.buffer.items := by
  rw [average]
  split
  · next h => rw [List.isEmpty_iff.mp h, Mean.mean_nil]
  · rw [Mean.mean, List.sum_eq_foldl]
    rfl

theorem isPersistentSpike_iff {b : MispricingBuffer ℚ} {threshold : ℚ} :
    b.isPersistentSpike threshold = true ↔ threshold ≤ |Mean.mean b.buffer.items| := by
  rw [isPersistentSpike, decide_eq_true_eq, average_eq]
  rfl

theorem isPersistentSpike_of_forall {b : MispricingBuffer ℚ} {threshold : ℚ}
    (hne : b.buffer.items ≠ [])
    (h : (∀ d ∈ b.buffer.items, threshold ≤ d) ∨ ∀ d ∈ b.buffer.items, d ≤ -threshold) :
    b.isPersistentSpike threshold = true := by
  rw [isPersistentSpike_iff, le_abs]
  rcases h with habove | hbelow
  · exact Or.inl (Mean.le_mean hne habove)
  · exact Or.inr (le_neg_of_le_neg (Mean.mean_le hne hbelow))

theorem not_isPersistentSpike_of_forall {b : MispricingBuffer ℚ} {threshold : ℚ}
    (hpos : 0 < threshold) (h : ∀ d ∈ b.buffer.items, |d| < threshold) :
    b.isPersistentSpike threshold = false := by
  rw [← Bool.not_eq_true, isPersistentSpike_iff, not_le]
  exact Mean.abs_mean_lt hpos h

/-! ## The law -/

/-- What a buffer of a window size is after the deltas, and what the threshold finds in it. -/
structure WindowLaw (windowSize : ℕ) (deltas : List ℚ) (threshold : ℚ) (b : MispricingBuffer ℚ) :
    Prop where
  items : b.buffer.items = deltas.drop (deltas.length - windowSize)
  length : b.buffer.items.length = min deltas.length windowSize
  average : b.average =
    if b.buffer.items = [] then 0 else b.buffer.items.sum / b.buffer.items.length
  spike : b.buffer.items ≠ [] →
    ((∀ d ∈ b.buffer.items, threshold ≤ d) ∨ ∀ d ∈ b.buffer.items, d ≤ -threshold) →
      b.isPersistentSpike threshold = true
  noSpike : (∀ d ∈ b.buffer.items, |d| < threshold) → b.isPersistentSpike threshold = false

/-- **The sliding window**, for every window size and every sequence of deltas. -/
theorem windowLaw (windowSize : ℕ) (deltas : List ℚ) {threshold : ℚ} (h : 0 < threshold) :
    WindowLaw windowSize deltas threshold (run add (new windowSize) deltas) where
  items := run_add_new_items windowSize deltas
  length := by rw [run_add_new_items, Window.lastN_length]
  average := by
    rw [average_eq]
    split
    · next hnil => rw [hnil, Mean.mean_nil]
    · rfl
  spike := isPersistentSpike_of_forall
  noSpike := not_isPersistentSpike_of_forall h

end MispricingBuffer

end SyntheticArbitrage
