import MeridianMcp.ByteOffsets
import MeridianMcp.Delimited

namespace Source

open MeridianMcp Delimited

structure IndexedSource where
  text : Text
  lineStarts : List Nat

-- The byte offsets behind each line feed.
def newlineEnds (start : Nat) : Text → List Nat
  | [] => []
  | c :: text =>
    if c = '\n' then (start + c.utf8Size) :: newlineEnds (start + c.utf8Size) text
    else newlineEnds (start + c.utf8Size) text

def IndexedSource.new (text : Text) : IndexedSource where
  text := text
  lineStarts :=
    if text = [] then []
    else 0 :: (newlineEnds 0 text).filter (· < (utf8 text).length)

def withoutSuffix (c : Char) (line : Text) : Text :=
  if line.getLast? = some c then line.dropLast else line

def IndexedSource.line (source : IndexedSource) (oneBasedLine : Nat) : Option Text :=
  if oneBasedLine = 0 then none
  else do
    let start ← source.lineStarts[oneBasedLine - 1]?
    let stop := (source.lineStarts[oneBasedLine - 1 + 1]?).elim (utf8 source.text).length (· - 1)
    let line ← getRange source.text start stop
    pure (withoutSuffix '\r' (withoutSuffix '\n' line))

def IndexedSource.lineCount (source : IndexedSource) : Nat := source.lineStarts.length

def sourceLines (text : Text) : List Text :=
  (split '\n' text).map fun piece => withoutSuffix '\r' (withoutSuffix '\n' piece)

section Lines

variable {base : Nat} {body rest : Text}

def startsFrom (base : Nat) (text : Text) : List Nat :=
  if text = [] then []
  else base :: (newlineEnds base text).filter (· < base + (utf8 text).length)

theorem newlineEnds_append (h : '\n' ∉ body) :
    newlineEnds base (body ++ rest) = newlineEnds (base + (utf8 body).length) rest := by
  induction body generalizing base with
  | nil => rfl
  | cons c body ih =>
    rw [List.mem_cons, not_or] at h
    rw [List.cons_append, newlineEnds, if_neg (Ne.symm h.1), ih h.2, length_utf8_cons, Nat.add_assoc]

theorem startsFrom_piece (h : '\n' ∉ body) :
    startsFrom base (body ++ '\n' :: rest) =
      base :: startsFrom (base + (utf8 (body ++ ['\n'])).length) rest := by
  have hlength : (utf8 (body ++ '\n' :: rest)).length =
      (utf8 (body ++ ['\n'])).length + (utf8 rest).length := by
    rw [← List.length_append, ← utf8_append]
    simp
  have hends : newlineEnds base (body ++ '\n' :: rest) =
      (base + (utf8 (body ++ ['\n'])).length) ::
        newlineEnds (base + (utf8 (body ++ ['\n'])).length) rest := by
    rw [newlineEnds_append h, newlineEnds, if_pos rfl, utf8_append, List.length_append,
      length_utf8_cons, Nat.add_assoc]
    rfl
  rw [startsFrom, if_neg (by simp), hends, hlength]
  cases rest with
  | nil =>
    rw [startsFrom, if_pos rfl, List.filter_cons_of_neg (by simp [utf8])]
    rfl
  | cons c rest =>
    have hsize := c.utf8Size_pos
    have hpos : 0 < (utf8 (c :: rest)).length := by
      rw [length_utf8_cons]
      omega
    rw [startsFrom, if_neg (List.cons_ne_nil c rest),
      List.filter_cons_of_pos (by simpa using hpos), Nat.add_assoc]

theorem startsFrom_last (h : '\n' ∉ body) (hne : body ≠ []) : startsFrom base body = [base] := by
  have hends := @newlineEnds_append base body [] h
  rw [List.append_nil] at hends
  rw [startsFrom, if_neg hne, hends]
  rfl

theorem withoutSuffix_of_not_mem {c : Char} {line : Text} (h : c ∉ line) :
    withoutSuffix c line = line :=
  if_neg fun hlast => h (List.mem_of_getLast? hlast)

theorem withoutSuffix_concat (c : Char) (line : Text) : withoutSuffix c (line ++ [c]) = line := by
  rw [withoutSuffix, if_pos (List.getLast?_concat ..), List.dropLast_concat]

-- The line that starts at one of these offsets, as IndexedSource::line cuts it.
def lineAt (whole : Text) (starts : List Nat) (index : Nat) : Option Text := do
  let start ← starts[index]?
  let stop := (starts[index + 1]?).elim (utf8 whole).length (· - 1)
  let line ← getRange whole start stop
  pure (withoutSuffix '\r' (withoutSuffix '\n' line))

theorem sourceLines_piece (h : '\n' ∉ body) :
    sourceLines (body ++ '\n' :: rest) = withoutSuffix '\r' body :: sourceLines rest := by
  rw [sourceLines, split_piece h, List.map_cons, withoutSuffix_concat]
  rfl

theorem sourceLines_last (h : '\n' ∉ body) (hne : body ≠ []) :
    sourceLines body = [withoutSuffix '\r' body] := by
  rw [sourceLines, split_last h hne, List.map_singleton, withoutSuffix_of_not_mem h]

theorem lineAt_range {pre value rest : Text} {starts : List Nat} {index : Nat}
    (hstart : starts[index]? = some (utf8 pre).length)
    (hstop : (starts[index + 1]?).elim (utf8 (pre ++ (value ++ rest))).length (· - 1) =
      (utf8 pre).length + (utf8 value).length) :
    lineAt (pre ++ (value ++ rest)) starts index =
      some (withoutSuffix '\r' (withoutSuffix '\n' value)) := by
  rw [lineAt, hstart, Option.bind_eq_bind, Option.bind_some, hstop]
  dsimp only
  rw [getRange_append]
  rfl

theorem length_line : (utf8 (body ++ ['\n'])).length = (utf8 body).length + 1 := by
  rw [utf8_append, List.length_append]
  rfl

theorem lineAt_first {pre : Text} (h : '\n' ∉ body) :
    lineAt (pre ++ (body ++ '\n' :: rest)) (startsFrom (utf8 pre).length (body ++ '\n' :: rest)) 0 =
      some (withoutSuffix '\r' body) := by
  rw [startsFrom_piece h]
  by_cases hrest : rest = []
  · subst rest
    have hline := @lineAt_range pre (body ++ ['\n']) [] [(utf8 pre).length] 0 rfl (by
      simp [utf8_append])
    rw [List.append_nil, withoutSuffix_concat] at hline
    exact hline
  · have hline := @lineAt_range pre body ('\n' :: rest)
      ((utf8 pre).length :: startsFrom ((utf8 pre).length + (utf8 (body ++ ['\n'])).length) rest) 0
      rfl (by
        rw [List.getElem?_cons_succ, startsFrom, if_neg hrest, length_line]
        rfl)
    rw [withoutSuffix_of_not_mem h] at hline
    exact hline

theorem lineAt_last {pre : Text} (h : '\n' ∉ body) (hne : body ≠ []) (index : Nat) :
    lineAt (pre ++ body) (startsFrom (utf8 pre).length body) index = (sourceLines body)[index]? := by
  rw [startsFrom_last h hne, sourceLines_last h hne]
  cases index with
  | zero =>
    have hline := @lineAt_range pre body [] [(utf8 pre).length] 0 rfl (by simp [utf8_append])
    rw [List.append_nil, withoutSuffix_of_not_mem h] at hline
    exact hline
  | succ index => rfl

theorem lineAt_eq (pre text : Text) (index : Nat) :
    lineAt (pre ++ text) (startsFrom (utf8 pre).length text) index = (sourceLines text)[index]? := by
  induction text using pieces_induction '\n' generalizing pre index with
  | nil => rfl
  | last body hbody hne => exact lineAt_last hbody hne index
  | piece body rest hbody ih =>
    rw [sourceLines_piece hbody]
    cases index with
    | zero => rw [lineAt_first hbody, List.getElem?_cons_zero]
    | succ index =>
      have hnext := ih (pre ++ (body ++ ['\n'])) index
      have hwhole : pre ++ (body ++ ['\n']) ++ rest = pre ++ (body ++ '\n' :: rest) := by simp
      rw [hwhole, utf8_append, List.length_append] at hnext
      rw [List.getElem?_cons_succ, ← hnext, lineAt, startsFrom_piece hbody]
      rfl

theorem line_eq (text : Text) (index : Nat) :
    (IndexedSource.new text).line (index + 1) = (sourceLines text)[index]? := by
  have hline := lineAt_eq [] text index
  have hstarts : startsFrom 0 text = (IndexedSource.new text).lineStarts := by
    simp only [startsFrom, IndexedSource.new, Nat.zero_add]
  rw [← hline, IndexedSource.line, if_neg (Nat.succ_ne_zero index), Nat.add_sub_cancel, ← hstarts]
  rfl

theorem length_startsFrom (base : Nat) (text : Text) :
    (startsFrom base text).length = (sourceLines text).length := by
  induction text using pieces_induction '\n' generalizing base with
  | nil => rfl
  | last body hbody hne =>
    rw [startsFrom_last hbody hne, sourceLines_last hbody hne]
    rfl
  | piece body rest hbody ih =>
    rw [startsFrom_piece hbody, sourceLines_piece hbody, List.length_cons, List.length_cons, ih]

theorem lineCount_eq (text : Text) :
    (IndexedSource.new text).lineCount = (sourceLines text).length := by
  rw [← length_startsFrom 0 text]
  simp only [startsFrom, IndexedSource.lineCount, IndexedSource.new, Nat.zero_add]

end Lines

end Source
