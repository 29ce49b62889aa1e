import SyntheticArbitrage.TradeLog.File

/-!
# When the trade log is well formed

The rows of `log_file` have seven fields and those of the loggers ten, under up to three headers, so
the commas of the whole file already tell that no mixture is well formed.  What they are in all does
not depend on when the buffers are flushed.

* `startup_buffer`: what the loggers may still hold when `main` truncates the file.
* `file_perm`: the characters of the final file.
* `wellFormed_iff`: the sessions whose file is well formed: those that write the header of
  `log_file` and nothing else.
-/

namespace SyntheticArbitrage

open SharedFile

/-! ## The start of the program -/

theorem flushes_buffer {I : LogWriter → List Char → Prop} (hnil : ∀ w, I w [])
    {s : SharedFile LogWriter Char} (h : ∀ w, I w (s.buffer w)) (ws : List LogWriter)
    (w : LogWriter) : I w ((flushes s ws).buffer w) := by
  induction ws generalizing s with
  | nil => exact h w
  | cons v ws ih =>
    refine ih (s := s.step (.flush v)) fun u => ?_
    by_cases hu : u = v
    · subst hu
      rw [buffer_flush_self]
      exact hnil u
    · rw [buffer_flush_of_ne s hu]
      exact h u

/-- A constructor fills the buffer of its own object only. -/
theorem construct_buffer {I : LogWriter → List Char → Prop} {s : SharedFile LogWriter Char}
    (h : ∀ w, I w (s.buffer w)) (tellp : List Char → ℕ) {o : ArbObject}
    (hnil : s.buffer (.arb o) = []) (ho : I (.arb o) (headerLine ArbLogger.header))
    (w : LogWriter) : I w ((construct tellp o s).buffer w) := by
  rw [construct]
  split
  · by_cases hw : w = .arb o
    · subst hw
      rw [buffer_put_self, hnil]
      exact ho
    · rw [buffer_put_of_ne s hw]
      exact h w
  · exact h w

/-- A buffer at the truncation: empty, or a header of `ArbLogger`. -/
def HeaderBuffer (w : LogWriter) (text : List Char) : Prop :=
  text = [] ∨ (w ≠ .logFile ∧ text = headerLine ArbLogger.header)

theorem startup_buffer (tellp : List Char → ℕ) (before : List Char) (early late : List LogWriter)
    (w : LogWriter) : HeaderBuffer w ((startup tellp before early late).buffer w) := by
  have hnil : ∀ v, HeaderBuffer v [] := fun _ => Or.inl rfl
  have hheader : ∀ o, HeaderBuffer (.arb o) (headerLine ArbLogger.header) := by
    intro o
    exact Or.inr ⟨by simp, rfl⟩
  let s : SharedFile LogWriter Char := flushes (construct tellp .logger ⟨before, fun _ => []⟩) early
  have hs : ∀ v, HeaderBuffer v (s.buffer v) :=
    flushes_buffer hnil (construct_buffer hnil tellp rfl (hheader .logger)) early
  -- the second object has put nothing yet
  have hsecond : s.buffer (.arb .arbLogger) = [] := by
    have h := flushes_buffer (I := fun v text => v = .arb .arbLogger → text = []) (fun _ _ => rfl)
      (construct_buffer (I := fun v text => v = .arb .arbLogger → text = [])
        (s := ⟨before, fun _ => []⟩) (fun _ _ => rfl) tellp (o := .logger) rfl (by simp)) early
    exact h _ rfl
  exact flushes_buffer hnil (construct_buffer hs tellp hsecond (hheader .arbLogger)) late w

theorem Session.opened_logFile (s : Session) : s.opened.buffer .logFile = [] := by
  rcases startup_buffer s.tellp s.before s.early s.late .logFile with h | ⟨h, -⟩
  · exact h
  · exact absurd rfl h

/-! ## All that is put -/

/-- The header of `log_file`, and the rows. -/
theorem flatMap_snd_program (maxExposure : XDouble) (calls : List LogCall) :
    (program maxExposure calls).flatMap Prod.snd = headerLine logFileHeader ++
      writtenText (outputs TradeLog.call TradeLog.written (TradeLog.start maxExposure) calls) := by
  rw [program, List.flatMap_cons, List.flatMap_assoc, writtenText]
  congr 1
  refine List.flatMap_congr fun p _ => ?_
  rw [List.flatMap_map, ← flatten_rowPieces]
  exact List.flatMap_id

/-- The text of a writer: what it puts is the header of `log_file`, if it is that writer, and its
own rows. -/
theorem putBy_ops (s : Session) (w : LogWriter) :
    putBy w s.ops = (if .logFile = w then headerLine logFileHeader else []) ++
      (outputs TradeLog.call TradeLog.written (TradeLog.start s.maxExposure) s.calls).flatMap
        fun p => if p.1 = w then rowLine p.2 else [] := by
  rw [putBy, s.puts, program, List.flatMap_cons, List.flatMap_assoc]
  congr 1
  refine List.flatMap_congr fun p _ => ?_
  rw [List.flatMap_map]
  split
  · simp [← flatten_rowPieces]
  · simp

theorem content_eq (s : SharedFile LogWriter Char) :
    s.content = (s.file ++ (s.buffer (.arb .logger) ++ (s.buffer (.arb .arbLogger) ++
      s.buffer .logFile)) : List Char) := by
  have huniv : (Finset.univ : Finset LogWriter) = {.arb .logger, .arb .arbLogger, .logFile} := rfl
  rw [content, huniv, Finset.sum_insert (by decide), Finset.sum_insert (by decide),
    Finset.sum_singleton]
  rfl

/-- **The characters of the final file**: the headers left in the buffers, and what is put. -/
theorem file_perm (s : Session) :
    s.file.Perm (s.opened.buffer (.arb .logger) ++ (s.opened.buffer (.arb .arbLogger) ++
      (headerLine logFileHeader ++ writtenText
        (outputs TradeLog.call TradeLog.written (TradeLog.start s.maxExposure) s.calls)))) := by
  have hempty : s.opened.file = [] := rfl
  have hflushed : ∀ w, (run step s.opened s.ops).buffer w = [] := s.flushed
  have h := content_run s.opened s.ops
  rw [content_of_flushed hflushed, content_eq, hempty, s.opened_logFile, s.puts,
    flatMap_snd_program, Multiset.coe_add, Multiset.coe_eq_coe] at h
  simpa [Session.file] using h

/-- A buffer of a logger at the truncation: one header, or none. -/
theorem counts_buffer (s : Session) (o : ArbObject) :
    ∃ h, Counts h (9 * h) (s.opened.buffer (.arb o)) ∧ (h = 0 → s.opened.buffer (.arb o) = []) := by
  rcases startup_buffer s.tellp s.before s.early s.late (.arb o) with hnil | ⟨-, hheader⟩
  · have hempty : s.opened.buffer (.arb o) = [] := hnil
    exact ⟨0, by rw [hempty]; exact ⟨rfl, rfl⟩, fun _ => hempty⟩
  · have hfull : s.opened.buffer (.arb o) = headerLine ArbLogger.header := hheader
    refine ⟨1, ?_, fun h => absurd h one_ne_zero⟩
    rw [hfull]
    decide

/-- **The counts of the final file**, with `h` headers of `ArbLogger` left in the buffers, `n`
calls that write two rows and `k` that write one. -/
theorem counts_file (s : Session) :
    ∃ h n k, Counts (h + 1 + (2 * n + k)) (9 * h + 6 + (15 * n + 9 * k)) s.file ∧
      (h = 0 → ∀ o, s.opened.buffer (.arb o) = []) ∧ n + k = s.calls.length := by
  obtain ⟨h₁, hcounts₁, hnil₁⟩ := counts_buffer s .logger
  obtain ⟨h₂, hcounts₂, hnil₂⟩ := counts_buffer s .arbLogger
  obtain ⟨n, k, hlen, hrows⟩ :=
    counts_outputs (TradeLog.start_attached s.maxExposure) s.plain
  have hheader : Counts 1 6 (headerLine logFileHeader) := by decide
  refine ⟨h₁ + h₂, n, k, ?_, ?_, hlen⟩
  · obtain ⟨hbreaks, hcommas⟩ := hcounts₁.append (hcounts₂.append (hheader.append hrows))
    rw [← (file_perm s).count_eq] at hbreaks hcommas
    constructor <;> omega
  · intro hsum o
    cases o with
    | logger => exact hnil₁ (by omega)
    | arbLogger => exact hnil₂ (by omega)

/-! ## The end of the file -/

theorem ended_line (texts : List (List Char)) : Ended '\n' (Csv.line texts) := Or.inr ⟨_, rfl⟩

theorem ended_flatMap {β : Type} {f : β → List Char} {bs : List β}
    (h : ∀ b ∈ bs, Ended '\n' (f b)) : Ended '\n' (bs.flatMap f) := by
  induction bs with
  | nil => exact Or.inl rfl
  | cons b bs ih =>
    rw [List.flatMap_cons]
    exact (ih fun d hd => h d (List.mem_cons_of_mem _ hd)).append (h b List.mem_cons_self)

theorem ended_file (s : Session) : Ended '\n' s.file := by
  refine ended_run (fun w => ?_) (Or.inl (Or.inl rfl)) s.flushed
  have hbuffer : Ended '\n' (s.opened.buffer w) := by
    rcases startup_buffer s.tellp s.before s.early s.late w with hnil | ⟨-, hheader⟩
    · exact Or.inl hnil
    · rw [Session.opened, hheader]
      exact ended_line _
  have hput : Ended '\n' (putBy w s.ops) := by
    rw [putBy_ops]
    refine Ended.append (ended_flatMap fun p _ => ?_) ?_
    · split
      · exact ended_line _
      · exact Or.inl rfl
    · split
      · exact ended_line _
      · exact Or.inl rfl
  exact hput.append hbuffer

/-! ## The result -/

theorem count_file_of_wellFormed {file : List Char} (hended : Ended '\n' file)
    (h : WellFormed file) : ∃ c, (c = 9 ∨ c = 6) ∧ file.count ',' = c * file.count '\n' := by
  obtain ⟨header, rest, hlines, hheader, hrest⟩ := h
  rcases hended with rfl | ⟨front, rfl⟩
  · simp at hlines
  · refine ⟨header.count ',', ?_, ?_⟩
    · have hlen := Csv.length_fields header
      rcases hheader with harb | hlog
      · left
        rw [harb] at hlen
        exact (Nat.succ_injective hlen).symm
      · right
        rw [hlog] at hlen
        exact (Nat.succ_injective hlen).symm
    · have hall : ∀ text ∈ Csv.lines (front ++ ['\n']), text.count ',' = header.count ',' := by
        rw [hlines]
        intro text ht
        rcases List.mem_cons.mp ht with rfl | ht
        · rfl
        · have hlen := (hrest text ht).2
          rw [Csv.length_fields, Csv.length_fields] at hlen
          exact Nat.succ_injective hlen
      rw [← Csv.sum_count_lines, ← Csv.length_lines, List.map_congr_left hall, List.map_const',
        List.sum_replicate_nat, mul_comm]

/-- **Which sessions leave a well-formed trade log**: those without a call in which the headers of
both loggers are out of the buffers when `main` truncates the file. -/
theorem wellFormed_iff (s : Session) :
    WellFormed s.file ↔ s.calls = [] ∧ ∀ o, s.opened.buffer (.arb o) = [] := by
  constructor
  · intro hwell
    obtain ⟨c, hc, hsquare⟩ := count_file_of_wellFormed (ended_file s) hwell
    obtain ⟨h, n, k, ⟨hbreaks, hcommas⟩, hnil, hlen⟩ := counts_file s
    rw [hbreaks, hcommas] at hsquare
    have hzero : h = 0 ∧ n + k = 0 := by
      rcases hc with rfl | rfl <;> omega
    exact ⟨List.length_eq_zero_iff.mp (hlen ▸ hzero.2), hnil hzero.1⟩
  · rintro ⟨hcalls, hnil⟩
    have hother : ∀ w, w ≠ .logFile → rest s.opened s.ops w = [] := by
      intro w hw
      cases w with
      | arb o =>
        rw [rest, hnil o, putBy_ops, hcalls]
        rfl
      | logFile => exact absurd rfl hw
    have hfile : s.file = headerLine logFileHeader := by
      rw [Session.file, file_run_of_single hother s.flushed, rest, s.opened_logFile, putBy_ops,
        hcalls]
      rfl
    rw [hfile]
    exact ⟨_, [], rfl, Or.inr rfl, by simp⟩

/-- A session on an empty file without any call, whose buffers are flushed at its end. -/
def noTrade : Session where
  tellp := List.length
  tellp_nil := rfl
  before := []
  early := []
  late := []
  maxExposure := .fin 5000
  calls := []
  plain := by simp
  ops := [.put .logFile (headerLine logFileHeader), .flush .logFile, .flush (.arb .arbLogger),
    .flush (.arb .logger)]
  puts := rfl
  flushed := by decide

/-- It leaves three headers. -/
theorem not_wellFormed_noTrade : ¬ WellFormed noTrade.file := by
  intro h
  obtain ⟨header, rest, hlines, -, hrest⟩ := h
  have hthree : (Csv.lines noTrade.file).map Csv.fields =
      [logFileHeader.map String.toList, ArbLogger.header.map String.toList,
        ArbLogger.header.map String.toList] := by
    decide +kernel
  rw [hlines, List.map_cons] at hthree
  obtain ⟨text, ht, hfields⟩ := List.mem_map.mp
    ((List.cons.inj hthree).2 ▸ List.mem_cons_self)
  exact (hrest text ht).1 (Or.inl hfields)

end SyntheticArbitrage
