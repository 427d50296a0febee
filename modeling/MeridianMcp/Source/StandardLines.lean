import MeridianMcp.BuildProvenance.Preparation
import MeridianMcp.Source.IndexedSource

namespace Source

open MeridianMcp Delimited
open BuildProvenance (lines lines_piece lines_last withoutEnding withoutEnding_piece)

theorem withoutEnding_eq (body : Text) : withoutEnding (body ++ ['\n']) = withoutSuffix '\r' body :=
  withoutEnding_piece

-- The two ways to cut differ only behind the last line feed, where str::lines keeps a carriage return.
theorem sourceLines_eq_lines (text : Text) (h : text.getLast? ≠ some '\r') :
    sourceLines text = lines text := by
  induction text using pieces_induction '\n' with
  | nil => rfl
  | last body hbody hne =>
    rw [sourceLines_last hbody hne, lines_last hbody hne, withoutSuffix, if_neg h]
  | piece body rest hbody ih =>
    rw [sourceLines_piece hbody, lines_piece hbody, withoutEnding_eq]
    cases rest with
    | nil => rfl
    | cons c rest =>
      rw [List.getLast?_append_of_ne_nil _ (List.cons_ne_nil _ _), List.getLast?_cons_cons] at h
      rw [ih h]

theorem lineCount_range {text : Text} (n : Nat) :
    (IndexedSource.new text).line n = none ↔ ¬ (1 ≤ n ∧ n ≤ (IndexedSource.new text).lineCount) := by
  cases n with
  | zero => exact iff_of_true rfl (fun h => Nat.not_succ_le_zero 0 h.1)
  | succ index =>
    rw [line_eq, lineCount_eq, List.getElem?_eq_none_iff]
    omega

theorem line_standard (text : Text) (h : text.getLast? ≠ some '\r') :
    (∀ index, (IndexedSource.new text).line (index + 1) = (lines text)[index]?) ∧
      (IndexedSource.new text).lineCount = (lines text).length ∧
      ∀ n, (IndexedSource.new text).line n = none ↔
        ¬ (1 ≤ n ∧ n ≤ (IndexedSource.new text).lineCount) := by
  refine ⟨fun index => ?_, ?_, lineCount_range⟩
  · rw [line_eq, sourceLines_eq_lines text h]
  · rw [lineCount_eq, sourceLines_eq_lines text h]

theorem line_standard_mixed :
    (IndexedSource.new "a\r\n\nb".toList).line 1 = some ['a'] ∧
      (IndexedSource.new "a\r\n\nb".toList).lineCount = 3 ∧
      (IndexedSource.new "a\r\n\nb".toList).line 4 = none := by
  obtain ⟨hline, hcount, hrange⟩ := line_standard "a\r\n\nb".toList (by decide)
  refine ⟨(hline 0).trans (by decide), hcount.trans (by decide), (hrange 4).mpr ?_⟩
  rw [hcount]
  decide

end Source
