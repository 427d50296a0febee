import MeridianMcp.Effects.Trace
import MeridianMcp.RuntimeOutput.Retention

namespace RuntimeOutput

open MeridianMcp Effects

-- Each producer is between the two locked sections of `push_output_line` while it holds a reading.
structure OutputLog (P : Type) where
  elapsed : Nat
  held : P → Option (Nat × Text)
  buffer : RuntimeOutputBuffer

inductive LogStep (P : Type) where
  | tick (milliseconds : Nat)
  | read (producer : P) (line : Text)
  | append (producer : P)

def OutputLog.start (P : Type) : OutputLog P := ⟨0, fun _ => none, .default⟩

variable {P : Type} [DecidableEq P]

def perform (log : OutputLog P) : LogStep P → Option (OutputLog P)
  | .tick milliseconds => some { log with elapsed := log.elapsed + milliseconds }
  | .read producer line =>
    match log.held producer with
    | some _ => none
    | none => some { log with
        held := Function.update log.held producer (some (log.elapsed % 2 ^ 64, line)) }
  | .append producer =>
    match log.held producer with
    | none => none
    | some (offset, line) => some { log with
        held := Function.update log.held producer none
        buffer := log.buffer.pushOutputLineAt offset line }

theorem perform_read {log log' : OutputLog P} {producer : P} {line : Text} :
    perform log (.read producer line) = some log' ↔ log.held producer = none ∧ log' = { log with
      held := Function.update log.held producer (some (log.elapsed % 2 ^ 64, line)) } := by
  rw [perform]
  cases log.held producer <;> simp [eq_comm]

theorem perform_append {log log' : OutputLog P} {producer : P} :
    perform log (.append producer) = some log' ↔ ∃ offset line,
      log.held producer = some (offset, line) ∧ log' = { log with
        held := Function.update log.held producer none
        buffer := log.buffer.pushOutputLineAt offset line } := by
  rw [perform]
  cases h : log.held producer with
  | none => simp
  | some reading =>
    obtain ⟨offset, line⟩ := reading
    simp [eq_comm]

-- A line is appended only when nobody else still holds an earlier reading of the clock.
def Orderly (log : OutputLog P) : LogStep P → Prop
  | .tick _ => True
  | .read _ _ => log.elapsed < 2 ^ 64
  | .append producer => ∀ offset line, log.held producer = some (offset, line) →
      ∀ other offset' line', other ≠ producer → log.held other = some (offset', line') →
        offset ≤ offset'

def IsNearest (entries : List RuntimeOutputEntry) (offset : Nat) :
    Option RuntimeOutputEntry → Prop
  | none => ∀ entry ∈ entries, offset < entry.monotonicOffsetMs
  | some entry => entry ∈ entries ∧ entry.monotonicOffsetMs ≤ offset ∧
      ∀ other ∈ entries, other.monotonicOffsetMs ≤ offset →
        other.monotonicOffsetMs ≤ entry.monotonicOffsetMs

def InTimeOrder (entries : List RuntimeOutputEntry) : Prop :=
  entries.Pairwise fun entry later => entry.monotonicOffsetMs ≤ later.monotonicOffsetMs

structure Ordered (buffer : RuntimeOutputBuffer) : Prop where
  sorted : InTimeOrder buffer.entries
  nearest : ∀ offset, IsNearest buffer.entries offset (buffer.nearestOutputBefore offset)

theorem isNearest_of_sorted {entries : List RuntimeOutputEntry} (h : InTimeOrder entries)
    (offset : Nat) :
    IsNearest entries offset
      (entries.reverse.find? fun entry => entry.monotonicOffsetMs ≤ offset) := by
  induction entries using List.reverseRecOn with
  | nil => exact fun _ h => absurd h List.not_mem_nil
  | append_singleton entries last ih =>
    obtain ⟨hsorted, -, hlast⟩ := List.pairwise_append.mp h
    have ih := ih hsorted
    rw [List.reverse_concat]
    by_cases hnear : last.monotonicOffsetMs ≤ offset
    · rw [List.find?_cons, decide_eq_true hnear]
      refine ⟨List.mem_append_right _ (List.mem_singleton_self _), hnear, fun other hother _ => ?_⟩
      rcases List.mem_append.mp hother with hother | hother
      · exact hlast other hother last (List.mem_singleton_self _)
      · rw [List.mem_singleton.mp hother]
    · rw [List.find?_cons, decide_eq_false hnear]
      generalize entries.reverse.find? _ = found at ih
      cases found with
      | none =>
        intro entry hentry
        rcases List.mem_append.mp hentry with hentry | hentry
        · exact ih entry hentry
        · rw [List.mem_singleton.mp hentry]
          exact Nat.not_le.mp hnear
      | some entry =>
        refine ⟨List.mem_append_left _ ih.1, ih.2.1, fun other hother hle => ?_⟩
        rcases List.mem_append.mp hother with hother | hother
        · exact ih.2.2 other hother hle
        · rw [List.mem_singleton.mp hother] at hle
          exact absurd hle hnear

theorem popOversized_suffix (entries : List RuntimeOutputEntry) : popOversized entries <:+ entries := by
  rw [popOversized_eq]
  exact (Suffixes.longest_longest (Nat.zero_le _)).suffix

theorem pushOutputLineAt_suffix (buffer : RuntimeOutputBuffer) (offset : Nat) (line : Text) :
    (buffer.pushOutputLineAt offset line).entries <:+
      buffer.entries ++ [⟨buffer.nextSequence, offset, truncateOutputLine line⟩] := by
  refine (popOversized_suffix _).trans (List.suffix_concat_iff.mpr (Or.inr ⟨_, rfl, ?_⟩))
  split
  · exact List.tail_suffix _
  · exact List.suffix_rfl

structure InOrder (log : OutputLog P) : Prop where
  sorted : InTimeOrder log.buffer.entries
  appended : ∀ entry ∈ log.buffer.entries, entry.monotonicOffsetMs ≤ log.elapsed
  holding : ∀ producer offset line, log.held producer = some (offset, line) →
    offset ≤ log.elapsed ∧ ∀ entry ∈ log.buffer.entries, entry.monotonicOffsetMs ≤ offset

omit [DecidableEq P] in
theorem inOrder_start : InOrder (OutputLog.start P) where
  sorted := .nil
  appended _ h := absurd h List.not_mem_nil
  holding _ _ _ h := by cases h

theorem inOrder_step (log : OutputLog P) (step : LogStep P) (log' : OutputLog P) (h : InOrder log)
    (horderly : Orderly log step) (hstep : perform log step = some log') : InOrder log' := by
  cases step with
  | tick milliseconds =>
    cases hstep
    refine ⟨h.sorted, fun entry hentry => ?_, fun producer offset line hheld => ?_⟩
    · exact Nat.le_add_right_of_le (h.appended entry hentry)
    · obtain ⟨hle, hall⟩ := h.holding producer offset line hheld
      exact ⟨Nat.le_add_right_of_le hle, hall⟩
  | read reader line =>
    obtain ⟨-, rfl⟩ := perform_read.mp hstep
    refine ⟨h.sorted, h.appended, fun producer offset line' hheld => ?_⟩
    dsimp only at hheld ⊢
    by_cases hreader : producer = reader
    · subst hreader
      rw [Function.update_self, Nat.mod_eq_of_lt horderly] at hheld
      cases hheld
      exact ⟨Nat.le_refl _, h.appended⟩
    · rw [Function.update_of_ne hreader] at hheld
      exact h.holding producer offset line' hheld
  | append writer =>
    obtain ⟨offset, line, hwriter, rfl⟩ := perform_append.mp hstep
    obtain ⟨hoffset, hbefore⟩ := h.holding writer offset line hwriter
    have hsuffix := pushOutputLineAt_suffix log.buffer offset line
    have hmem : ∀ entry ∈ (log.buffer.pushOutputLineAt offset line).entries,
        entry ∈ log.buffer.entries ∨ entry.monotonicOffsetMs = offset := by
      intro entry hentry
      rcases List.mem_append.mp (hsuffix.subset hentry) with hold | hnew
      · exact Or.inl hold
      · rw [List.mem_singleton.mp hnew]
        exact Or.inr rfl
    refine ⟨?_, fun entry hentry => ?_, fun producer offset' line' hheld => ?_⟩
    · refine List.Pairwise.sublist hsuffix.sublist (List.pairwise_append.mpr
        ⟨h.sorted, List.pairwise_singleton .., fun entry hentry last hlast => ?_⟩)
      rw [List.mem_singleton.mp hlast]
      exact hbefore entry hentry
    · rcases hmem entry hentry with hold | hnew
      · exact h.appended entry hold
      · exact hnew.le.trans hoffset
    · dsimp only at hheld
      by_cases hproducer : producer = writer
      · rw [hproducer, Function.update_self] at hheld
        cases hheld
      · rw [Function.update_of_ne hproducer] at hheld
        obtain ⟨hle, hall⟩ := h.holding producer offset' line' hheld
        refine ⟨hle, fun entry hentry => ?_⟩
        rcases hmem entry hentry with hold | hnew
        · exact hall entry hold
        · exact hnew.le.trans (horderly offset line hwriter producer offset' line' hproducer hheld)

omit [DecidableEq P] in
theorem InOrder.ordered {log : OutputLog P} (h : InOrder log) : Ordered log.buffer :=
  ⟨h.sorted, isNearest_of_sorted h.sorted⟩

theorem buffer_pushed {trace : List (OutputLog P × LogStep P)} {log : OutputLog P}
    (h : Trace perform (OutputLog.start P) trace log) : ∃ lines, log.buffer = pushes lines := by
  have hall := h.invariant (P := fun log => ∃ lines, log.buffer = pushes lines) ⟨[], rfl⟩ (by
    rintro log step log' ⟨lines, hlines⟩ hstep
    cases step with
    | tick milliseconds =>
      cases hstep
      exact ⟨lines, hlines⟩
    | read reader line =>
      obtain ⟨-, rfl⟩ := perform_read.mp hstep
      exact ⟨lines, hlines⟩
    | append writer =>
      obtain ⟨offset, line, -, rfl⟩ := perform_append.mp hstep
      refine ⟨lines ++ [(offset, line)], ?_⟩
      rw [pushes_concat, ← hlines])
  exact hall log (last_mem_visited _ _)

theorem not_ordered_of_overtaken (lines : List Push) {first second : Push} (h : second.1 < first.1) :
    ¬ Ordered (pushes (lines ++ [first] ++ [second])) := by
  intro hordered
  have hpair := hordered.sorted.sublist (pushes_pair lines first second).sublist
  have hle := List.pairwise_pair.mp hpair
  exact absurd hle (Nat.not_le.mpr h)

theorem overtaken_next {trace : List (OutputLog P × LogStep P)} {log log' : OutputLog P} {writer : P}
    (hrun : Trace perform (OutputLog.start P) trace log)
    (hstep : perform log (.append writer) = some log') (h : ¬ Orderly log (.append writer)) :
    ∃ other log'', perform log' (.append other) = some log'' ∧ ¬ Ordered log''.buffer := by
  obtain ⟨lines, hlines⟩ := buffer_pushed hrun
  simp only [Orderly, not_forall] at h
  obtain ⟨offset, line, hwriter, other, offset', line', hother, hheld, hlt⟩ := h
  obtain ⟨_, _, hsame, rfl⟩ := perform_append.mp hstep
  cases hwriter.symm.trans hsame
  refine ⟨other, _, perform_append.mpr ⟨offset', line', ?_, rfl⟩, ?_⟩
  · exact (Function.update_of_ne hother ..).trans hheld
  · rw [hlines, ← pushes_concat lines (offset, line), ← pushes_concat _ (offset', line')]
    exact not_ordered_of_overtaken lines (Nat.not_le.mp hlt)

theorem output_ordered_iff :
    (∀ trace (log : OutputLog P), Trace perform (OutputLog.start P) trace log →
      (∀ m ∈ trace, Orderly m.1 m.2) → ∀ v ∈ visited trace log, Ordered v.buffer) ∧
    ∀ trace (log log' : OutputLog P) writer, Trace perform (OutputLog.start P) trace log →
      perform log (.append writer) = some log' → ¬ Orderly log (.append writer) →
        ∃ other log'', perform log' (.append other) = some log'' ∧ ¬ Ordered log''.buffer :=
  ⟨fun _ _ hrun horderly v hv =>
      ((hrun.guarded inOrder_start inOrder_step horderly) v hv).ordered,
    fun _ _ _ _ hrun hstep h => overtaken_next hrun hstep h⟩

-- One producer reads the clock at five milliseconds, the other at seven, and they append the other
-- way round.
def overtaking : List (LogStep Bool) :=
  [.tick 5, .read false [], .tick 2, .read true [], .append true, .append false]

def overtaken : List (OutputLog Bool × LogStep Bool) × OutputLog Bool :=
  replay perform overtaking (.start Bool)

theorem later_line_first :
    ¬ ∀ trace (log : OutputLog Bool), Trace perform (OutputLog.start Bool) trace log →
      ∀ v ∈ visited trace log, Ordered v.buffer := by
  intro h
  have hordered := h overtaken.1 overtaken.2 (Trace.replay overtaking) _ (last_mem_visited _ _)
  have hnearest := hordered.nearest 8
  have hseven := hnearest.2.2 ⟨1, 7, []⟩ (by decide) (by decide)
  revert hseven
  decide

def undisturbed : List (LogStep Bool) := [.tick 5, .read false [], .append false]

theorem undisturbed_orderly :
    ∀ m ∈ (replay perform undisturbed (OutputLog.start Bool)).1, Orderly m.1 m.2 := by
  have htrace : (replay perform undisturbed (OutputLog.start Bool)).1 =
      [(⟨0, fun _ => none, .default⟩, .tick 5), (⟨5, fun _ => none, .default⟩, .read false []),
        (⟨5, Function.update (fun _ => none) false (some (5, [])), .default⟩, .append false)] := rfl
  rw [htrace, List.forall_mem_cons, List.forall_mem_cons, List.forall_mem_singleton]
  refine ⟨trivial, show 5 < 2 ^ 64 by decide, fun offset line _ other offset' line' hother hheld => ?_⟩
  dsimp only at hheld
  rw [Function.update_of_ne hother] at hheld
  cases hheld

theorem undisturbed_ordered :
    ∀ v ∈ visited (replay perform undisturbed (OutputLog.start Bool)).1
      (replay perform undisturbed (OutputLog.start Bool)).2, Ordered v.buffer :=
  output_ordered_iff.1 _ _ (Trace.replay undisturbed) undisturbed_orderly

end RuntimeOutput
