import MeridianMcp.Source.CommentScan

namespace Source

open MeridianMcp

-- A line that ends the excerpt before it.
structure Ends (before : List Text) (line : Text) : Prop where
  later : before ≠ []
  columnZero : ∃ c rest, line = c :: rest ∧ isWhitespace c = false
  outside : scan false (joinLines before) = false
  slashes : ¬ "//".toList <+: line
  opening : ¬ "/*".toList <+: line
  star : ¬ "*".toList <+: line

-- None of the first lines ends the excerpt.
def Passes (before lines : List Text) (count : Nat) : Prop :=
  ∀ index < count, ∀ line, lines[index]? = some line → ¬ Ends (before ++ lines.take index) line

def LookedAt (before lines : List Text) (index : Nat) : Prop :=
  index < lines.length ∧ Passes before lines index

def InExcerpt (before lines : List Text) (index : Nat) : Prop :=
  index < lines.length ∧ Passes before lines (index + 1)

-- The lines of the excerpt, each with the state of the scan over the excerpt so far.
def Excerpted (before lines : List Text) (excerpt : List (Text × Bool)) : Prop :=
  ∀ index line inside, excerpt[index]? = some (line, inside) ↔
    InExcerpt before lines index ∧ lines[index]? = some line ∧
      inside = scan false (joinLines (before ++ lines.take (index + 1)))

def Consistent (before lines : List Text) (startIndex : Nat) : Prop :=
  ∀ index, (LookedAt before lines index → startIndex + index + 1 < 2 ^ 32) ∧
    (InExcerpt before lines index → ∀ line, lines[index]? = some line →
      Agrees (scan false (joinLines (before ++ lines.take index))) line)

section Excerpts

variable {before lines : List Text} {line : Text} {excerpt : List (Text × Bool)} {startIndex : Nat}

theorem passes_cons {count : Nat} :
    Passes before (line :: lines) (count + 1) ↔
      ¬ Ends before line ∧ Passes (before ++ [line]) lines count := by
  have happend : ∀ index, before ++ (line :: lines).take (index + 1) =
      before ++ [line] ++ lines.take index := by simp
  constructor
  · intro h
    refine ⟨?_, fun index hindex next hnext => ?_⟩
    · have hfirst := h 0 (Nat.succ_pos _) line rfl
      rw [List.take_zero, List.append_nil] at hfirst
      exact hfirst
    · rw [← happend]
      exact h (index + 1) (Nat.succ_lt_succ hindex) next hnext
  · rintro ⟨hfirst, hrest⟩ index hindex next hnext
    cases index with
    | zero =>
      obtain rfl := Option.some.inj hnext
      rw [List.take_zero, List.append_nil]
      exact hfirst
    | succ index =>
      rw [happend]
      exact hrest index (Nat.lt_of_succ_lt_succ hindex) next hnext

theorem inExcerpt_cons {index : Nat} :
    InExcerpt before (line :: lines) (index + 1) ↔
      ¬ Ends before line ∧ InExcerpt (before ++ [line]) lines index := by
  rw [InExcerpt, InExcerpt, passes_cons, List.length_cons, Nat.add_lt_add_iff_right, and_left_comm]

theorem inExcerpt_head : InExcerpt before (line :: lines) 0 ↔ ¬ Ends before line := by
  rw [InExcerpt, passes_cons]
  exact ⟨fun h => h.2.1, fun h => ⟨Nat.succ_pos _, h, fun _ hindex => absurd hindex (Nat.not_lt_zero _)⟩⟩

theorem lookedAt_cons {index : Nat} :
    LookedAt before (line :: lines) (index + 1) ↔
      ¬ Ends before line ∧ LookedAt (before ++ [line]) lines index := by
  rw [LookedAt, LookedAt, passes_cons, List.length_cons, Nat.add_lt_add_iff_right, and_left_comm]

theorem excerpted_nil_of_ends (h : Ends before line) : Excerpted before (line :: lines) [] := by
  intro index next inside
  refine ⟨nofun, fun ⟨hin, _⟩ => ?_⟩
  cases index with
  | zero => exact absurd h (inExcerpt_head.mp hin)
  | succ index => exact absurd h (inExcerpt_cons.mp hin).1

theorem excerpted_cons (hnot : ¬ Ends before line) {inside : Bool} :
    Excerpted before (line :: lines) ((line, inside) :: excerpt) ↔
      inside = scan false (joinLines (before ++ [line])) ∧
        Excerpted (before ++ [line]) lines excerpt := by
  have happend : ∀ index, before ++ (line :: lines).take (index + 1) =
      before ++ [line] ++ lines.take index := by simp
  constructor
  · intro h
    refine ⟨((h 0 line inside).mp rfl).2.2, fun index next inside' => ?_⟩
    have hnext := h (index + 1) next inside'
    rw [inExcerpt_cons, and_iff_right hnot, happend] at hnext
    exact hnext
  · rintro ⟨rfl, h⟩ index next inside'
    cases index with
    | zero =>
      rw [inExcerpt_head, and_iff_right hnot, List.getElem?_cons_zero, List.getElem?_cons_zero,
        Option.some.injEq, Option.some.injEq, Prod.mk.injEq]
      exact and_congr_right fun _ => eq_comm
    | succ index =>
      rw [inExcerpt_cons, and_iff_right hnot, happend]
      exact h index next inside'

theorem consistent_cons (hnot : ¬ Ends before line) :
    Consistent before (line :: lines) startIndex ↔
      startIndex + 1 < 2 ^ 32 ∧ Agrees (scan false (joinLines before)) line ∧
        Consistent (before ++ [line]) lines (startIndex + 1) := by
  have happend : ∀ index, before ++ (line :: lines).take (index + 1) =
      before ++ [line] ++ lines.take index := by simp
  have hfirst : LookedAt before (line :: lines) 0 :=
    ⟨Nat.succ_pos _, fun _ hindex => absurd hindex (Nat.not_lt_zero _)⟩
  constructor
  · intro h
    refine ⟨(h 0).1 hfirst, ?_, fun index => ?_⟩
    · have hagrees := (h 0).2 (inExcerpt_head.mpr hnot) line rfl
      rw [List.take_zero, List.append_nil] at hagrees
      exact hagrees
    · have hnext := h (index + 1)
      rw [lookedAt_cons, inExcerpt_cons, and_iff_right hnot, and_iff_right hnot, happend] at hnext
      rw [Nat.add_right_comm startIndex 1 index]
      exact hnext
  · rintro ⟨hnumber, hagrees, h⟩ index
    cases index with
    | zero =>
      refine ⟨fun _ => hnumber, fun _ next hnext => ?_⟩
      obtain rfl := Option.some.inj hnext
      rw [List.take_zero, List.append_nil]
      exact hagrees
    | succ index =>
      have hnext := h index
      rw [Nat.add_right_comm startIndex 1 index] at hnext
      rw [lookedAt_cons, inExcerpt_cons, and_iff_right hnot, and_iff_right hnot, happend]
      exact hnext

end Excerpts

theorem endsBefore_iff {excerpt : List (Text × Bool)} {before : List Text} {line : Text}
    (hexcerpt : excerpt = [] ↔ before = []) :
    (excerpt ≠ [] ∧ isColumnZero line = true ∧
        isComment (scan false (joinLines before)) line = false) ↔ Ends before line := by
  have hcolumn : isColumnZero line = true ↔ ∃ c rest, line = c :: rest ∧ isWhitespace c = false := by
    cases line with
    | nil => exact ⟨nofun, nofun⟩
    | cons c rest =>
      refine ⟨fun h => ⟨c, rest, rfl, (Bool.not_eq_true' _).mp h⟩, ?_⟩
      rintro ⟨d, rest', heq, hd⟩
      obtain ⟨rfl, rfl⟩ := List.cons.inj heq
      exact (Bool.not_eq_true' _).mpr hd
  have htrimmed : (∃ c rest, line = c :: rest ∧ isWhitespace c = false) →
      line.dropWhile isWhitespace = line := by
    rintro ⟨c, rest, rfl, hc⟩
    rw [List.dropWhile_cons, hc]
    rfl
  have hcomment : (∃ c rest, line = c :: rest ∧ isWhitespace c = false) →
      (isComment (scan false (joinLines before)) line = false ↔
        scan false (joinLines before) = false ∧ ¬ "//".toList <+: line ∧ ¬ "/*".toList <+: line ∧
          ¬ "*".toList <+: line) := by
    intro h
    rw [isComment, htrimmed h]
    simp only [Bool.or_eq_false_iff, and_assoc]
    simp only [← Bool.not_eq_true, List.isPrefixOf_iff_prefix]
  constructor
  · rintro ⟨hne, hzero, hfalse⟩
    have hfirst := hcolumn.mp hzero
    obtain ⟨houtside, hslashes, hopening, hstar⟩ := (hcomment hfirst).mp hfalse
    exact ⟨fun h => hne (hexcerpt.mpr h), hfirst, houtside, hslashes, hopening, hstar⟩
  · intro h
    exact ⟨fun hnil => h.later (hexcerpt.mp hnil), hcolumn.mpr h.columnZero,
      (hcomment h.columnZero).mpr ⟨h.outside, h.slashes, h.opening, h.star⟩⟩

theorem declarationFrom_prefix {source : IndexedSource} {rounds index : Nat}
    {excerpt out : List (Text × Bool)} {inside : Bool}
    (h : declarationFrom source rounds index excerpt inside = some out) : excerpt <+: out := by
  induction rounds generalizing index excerpt inside with
  | zero =>
    cases h
    exact List.prefix_rfl
  | succ rounds ih =>
    rw [declarationFrom] at h
    obtain ⟨line, -, h⟩ := Option.bind_eq_some_iff.mp h
    split at h
    · cases h
      exact List.prefix_rfl
    · exact (List.prefix_append ..).trans (ih h)

-- By induction on the lines that are left: the flags stay the states of the scan as long as the
-- lines agree with it.
theorem declarationFrom_iff {source : IndexedSource} (hzero : source.line 0 = none)
    {before lines : List Text} {excerpt : List (Text × Bool)} {startIndex : Nat}
    (hindex : startIndex < 2 ^ 32) (hexcerpt : excerpt = [] ↔ before = [])
    (hlines : ∀ index < lines.length, source.line (startIndex + index + 1) = lines[index]?) :
    (∃ out, declarationFrom source lines.length startIndex excerpt
        (scan false (joinLines before)) = some (excerpt ++ out) ∧ Excerpted before lines out) ↔
      Consistent before lines startIndex := by
  induction lines generalizing before excerpt startIndex with
  | nil =>
    constructor
    · exact fun _ index => ⟨fun h => absurd h.1 (Nat.not_lt_zero _),
        fun h => absurd h.1 (Nat.not_lt_zero _)⟩
    · exact fun _ => ⟨[], by rw [List.append_nil]; rfl,
        fun index line inside => ⟨nofun, fun h => absurd h.1.1 (Nat.not_lt_zero _)⟩⟩
  | cons line lines ih =>
    rw [List.length_cons, declarationFrom]
    by_cases hnumber : startIndex + 1 < 2 ^ 32
    · have hline : source.line (startIndex + 1) = some line := hlines 0 (Nat.succ_pos _)
      rw [Nat.mod_eq_of_lt hnumber, hline, Option.bind_eq_bind, Option.bind_some]
      by_cases hends : Ends before line
      · rw [if_pos ((endsBefore_iff hexcerpt).mpr hends)]
        constructor
        · refine fun _ index => ⟨fun hlooked => ?_, fun hin => ?_⟩
          · cases index with
            | zero => exact hnumber
            | succ index => exact absurd hends (lookedAt_cons.mp hlooked).1
          · cases index with
            | zero => exact absurd hends (inExcerpt_head.mp hin)
            | succ index => exact absurd hends (inExcerpt_cons.mp hin).1
        · exact fun _ => ⟨[], by rw [List.append_nil], excerpted_nil_of_ends hends⟩
      · rw [if_neg fun h => hends ((endsBefore_iff hexcerpt).mp h)]
        dsimp only
        rw [consistent_cons hends, and_iff_right hnumber]
        by_cases hagrees : Agrees (scan false (joinLines before)) line
        · have hafter : commentAfter (scan false (joinLines before)) line =
              scan false (joinLines (before ++ [line])) := by
            rw [scan_joinLines]
            exact (commentAfter_iff _ line).mpr hagrees
          have hnext : ∀ index < lines.length,
              source.line (startIndex + 1 + index + 1) = lines[index]? := by
            intro index hlt
            rw [Nat.add_right_comm startIndex 1 index]
            exact hlines (index + 1) (Nat.succ_lt_succ hlt)
          have hrest := @ih (before ++ [line])
            (excerpt ++ [(line, scan false (joinLines (before ++ [line])))]) (startIndex + 1) hnumber
            (by simp) hnext
          rw [and_iff_right hagrees, hafter, ← hrest]
          constructor
          · rintro ⟨out, hrun, hout⟩
            obtain ⟨later, hlater⟩ := declarationFrom_prefix hrun
            rw [List.append_assoc] at hlater
            obtain rfl := List.append_cancel_left hlater
            refine ⟨later, by rw [hrun, List.append_assoc], ((excerpted_cons hends).mp hout).2⟩
          · rintro ⟨out, hrun, hout⟩
            exact ⟨_, by rw [hrun, List.append_assoc]; rfl, (excerpted_cons hends).mpr ⟨rfl, hout⟩⟩
        · refine iff_of_false ?_ fun h => hagrees h.1
          rintro ⟨out, hrun, hout⟩
          obtain ⟨later, hlater⟩ := declarationFrom_prefix hrun
          rw [List.append_assoc] at hlater
          obtain rfl := List.append_cancel_left hlater
          have hflag := ((excerpted_cons hends).mp hout).1
          rw [scan_joinLines] at hflag
          exact hagrees ((commentAfter_iff _ line).mp hflag)
    · have hlast : (startIndex + 1) % 2 ^ 32 = 0 := by omega
      rw [hlast, hzero]
      refine iff_of_false (fun ⟨_, hrun, _⟩ => nomatch hrun) fun h => hnumber ((h 0).1 ?_)
      exact ⟨Nat.succ_pos _, fun _ hlt => absurd hlt (Nat.not_lt_zero _)⟩

-- The lines that the excerpt is taken from.
def linesFrom (text : Text) (oneBasedLine maxLines : Nat) : List Text :=
  ((sourceLines text).drop (oneBasedLine - 1)).take maxLines

theorem declaration_excerpted_iff (text : Text) (oneBasedLine maxLines : Nat)
    (hnumber : oneBasedLine < 2 ^ 32) (hpos : 0 < oneBasedLine)
    (hstart : oneBasedLine ≤ (sourceLines text).length) (hmax : 0 < maxLines) :
    (∃ excerpt, declarationLines (IndexedSource.new text) oneBasedLine maxLines = some excerpt ∧
        Excerpted [] (linesFrom text oneBasedLine maxLines) excerpt) ↔
      Consistent [] (linesFrom text oneBasedLine maxLines) (oneBasedLine - 1) := by
  have hcount := lineCount_eq text
  have hlength : (linesFrom text oneBasedLine maxLines).length =
      min (IndexedSource.new text).lineCount (oneBasedLine - 1 + maxLines) - (oneBasedLine - 1) := by
    rw [linesFrom, List.length_take, List.length_drop, hcount]
    omega
  have hlines : ∀ index < (linesFrom text oneBasedLine maxLines).length,
      (IndexedSource.new text).line (oneBasedLine - 1 + index + 1) =
        (linesFrom text oneBasedLine maxLines)[index]? := by
    intro index hlt
    rw [linesFrom, List.length_take] at hlt
    rw [line_eq, linesFrom, List.getElem?_take_of_lt (by omega), List.getElem?_drop]
  have hlt : oneBasedLine - 1 < (IndexedSource.new text).lineStarts.length := by
    change _ < (IndexedSource.new text).lineCount
    omega
  have hrun : declarationLines (IndexedSource.new text) oneBasedLine maxLines =
      declarationFrom (IndexedSource.new text) (linesFrom text oneBasedLine maxLines).length
        (oneBasedLine - 1) [] false := by
    rw [declarationLines, if_neg (by omega), hlength]
    dsimp only
    rw [List.getElem?_eq_getElem hlt]
    rfl
  have hmain := @declarationFrom_iff (IndexedSource.new text) rfl [] _ [] (oneBasedLine - 1)
    (by omega) ⟨fun _ => rfl, fun _ => rfl⟩ hlines
  rw [hrun]
  exact hmain

theorem declaration_excerpted_first :
    (∃ excerpt, declarationLines (IndexedSource.new "/proc/a()\n\treturn\n".toList) 1 200 =
        some excerpt ∧ Excerpted [] (linesFrom "/proc/a()\n\treturn\n".toList 1 200) excerpt) ↔
      Consistent [] (linesFrom "/proc/a()\n\treturn\n".toList 1 200) 0 :=
  declaration_excerpted_iff "/proc/a()\n\treturn\n".toList 1 200 (by decide) (by decide)
    (by decide +kernel) (by decide)

-- The third line closes a comment and opens another; the test of the line sees it closed.
def reopened : Text := "/proc/a()\n\t/* first\n\tend */ return /* second\n/proc/b()\n\t*/\n".toList

theorem reopened_not_excerpted :
    ¬ ∃ excerpt, declarationLines (IndexedSource.new reopened) 1 200 = some excerpt ∧
      Excerpted [] (linesFrom reopened 1 200) excerpt := by
  rintro ⟨excerpt, hrun, hexcerpt⟩
  have hlines : declarationLines (IndexedSource.new reopened) 1 200 =
      some [("/proc/a()".toList, false), ("\t/* first".toList, true),
        ("\tend */ return /* second".toList, false)] := by
    decide +kernel
  obtain rfl := Option.some.inj (hlines.symm.trans hrun)
  have hflag := ((hexcerpt 2 _ _).mp rfl).2.2
  exact absurd hflag (by decide +kernel)

end Source
