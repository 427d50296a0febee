import Mathlib.Algebra.Ring.Nat
import MeridianMcp.Delimited
import MeridianMcp.LossyUtf8
import MeridianMcp.Suffixes
import MeridianMcp.Utf8

namespace RuntimeOutput

open MeridianMcp

def outputLogCapacity : Nat := 500
def outputLineMaxBytes : Nat := 16 * 1024
def outputLogMaxBytes : Nat := 1024 * 1024
def outputTruncatedSuffix : Text := "... [truncated]".toList

def u64Max : Nat := 2 ^ 64 - 1

structure RuntimeOutputEntry where
  sequence : Nat
  monotonicOffsetMs : Nat
  text : Text
  deriving DecidableEq

structure RuntimeOutputBuffer where
  entries : List RuntimeOutputEntry
  nextSequence : Nat
  changes : Nat

def RuntimeOutputBuffer.default : RuntimeOutputBuffer := ⟨[], 1, 0⟩

-- The last character boundary not after the index; zero is one.
def splitAt (line : Text) : Nat → Nat
  | 0 => 0
  | index + 1 => if isCharBoundary line (index + 1) then index + 1 else splitAt line index

def contentLimit : Nat := outputLineMaxBytes - (utf8 outputTruncatedSuffix).length

def truncateOutputLine (line : Text) : Text :=
  if (utf8 line).length ≤ outputLineMaxBytes then line
  else sliceTo line (splitAt line contentLimit) ++ outputTruncatedSuffix

def outputLogByteLen (entries : List RuntimeOutputEntry) : Nat :=
  (entries.map fun entry => (utf8 entry.text).length).sum

def popOversized : List RuntimeOutputEntry → List RuntimeOutputEntry
  | [] => []
  | entry :: entries =>
    if outputLogMaxBytes < outputLogByteLen (entry :: entries) then popOversized entries
    else entry :: entries

def RuntimeOutputBuffer.pushOutputLineAt (buffer : RuntimeOutputBuffer) (monotonicOffsetMs : Nat)
    (line : Text) : RuntimeOutputBuffer :=
  let line := truncateOutputLine line
  let entries := if outputLogCapacity ≤ buffer.entries.length then buffer.entries.tail
    else buffer.entries
  { entries := popOversized (entries ++ [⟨buffer.nextSequence, monotonicOffsetMs, line⟩])
    nextSequence := min (buffer.nextSequence + 1) u64Max
    changes := (buffer.changes + 1) % 2 ^ 64 }

def RuntimeOutputBuffer.nearestOutputBefore (buffer : RuntimeOutputBuffer) (offsetMs : Nat) :
    Option RuntimeOutputEntry :=
  buffer.entries.reverse.find? fun entry => entry.monotonicOffsetMs ≤ offsetMs

open MeridianMcp Delimited

abbrev Bytes := List UInt8

def outputReadChunkBytes : Nat := 8 * 1024

def lineFeed : UInt8 := 0x0a

def carriageReturn : UInt8 := 0x0d

-- What a read brings: no more than fits the buffer, and nothing at the end of the stream.
inductive Read where
  | bytes (chunk : Bytes) (fits : chunk.length ≤ outputReadChunkBytes)
  | failed

structure Capture where
  lineBuffer : Bytes
  lineTruncated : Bool
  pushed : List Text

def withoutReturn (line : Bytes) : Bytes :=
  if line.getLast? = some carriageReturn then line.dropLast else line

def pushCapturedOutputLine (capture : Capture) : Capture :=
  let line := fromUtf8Lossy (withoutReturn capture.lineBuffer)
  let line := if capture.lineTruncated then line ++ outputTruncatedSuffix else line
  { capture with lineBuffer := [], pushed := capture.pushed ++ [line] }

def captureByte (capture : Capture) (byte : UInt8) : Capture :=
  if byte = lineFeed then { pushCapturedOutputLine capture with lineTruncated := false }
  else if capture.lineBuffer.length < contentLimit then
    { capture with lineBuffer := capture.lineBuffer ++ [byte] }
  else { capture with lineTruncated := true }

def captureReads : List Read → Capture → Capture
  | [], capture => capture
  | .failed :: _, capture => capture
  | .bytes chunk _ :: reads, capture =>
    if chunk = [] then capture else captureReads reads (chunk.foldl captureByte capture)

-- What is left at the end of the stream is pushed as a line.
def finish (capture : Capture) : List Text :=
  if capture.lineBuffer ≠ [] ∨ capture.lineTruncated = true then
    (pushCapturedOutputLine capture).pushed
  else capture.pushed

-- The lines pushed to the output log, in their order.
def captureOutputStream (reads : List Read) : List Text :=
  finish (captureReads reads ⟨[], false, []⟩)

section Reference

-- The stream ends with the first read that brings nothing or fails.
def content : List Read → Bytes
  | [] => []
  | .failed :: _ => []
  | .bytes chunk _ :: reads => if chunk = [] then [] else chunk ++ content reads

def withoutFeed (piece : Bytes) : Bytes :=
  if piece.getLast? = some lineFeed then piece.dropLast else piece

-- The lines without their line feeds; the last may have had none.
def rawLines (bytes : Bytes) : List Bytes := (split lineFeed bytes).map withoutFeed

def lineText (line : Bytes) : Text :=
  if (withoutReturn line).length ≤ contentLimit then fromUtf8Lossy (withoutReturn line)
  else fromUtf8Lossy ((withoutReturn line).take contentLimit) ++ outputTruncatedSuffix

def referenceLines (bytes : Bytes) : List Text := (rawLines bytes).map lineText

end Reference

-- What the capture makes of a line: the cut comes first.
def capturedText (line : Bytes) : Text :=
  fromUtf8Lossy (withoutReturn (line.take contentLimit)) ++
    if contentLimit < line.length then outputTruncatedSuffix else []

section Lines

-- The capture in the middle of a line.
def within (seen : Bytes) (pushed : List Text) : Capture :=
  ⟨seen.take contentLimit, decide (contentLimit < seen.length), pushed⟩

theorem contentLimit_pos : 0 < contentLimit := by decide +kernel

theorem pushed_within (seen : Bytes) (pushed : List Text) :
    (pushCapturedOutputLine (within seen pushed)).pushed = pushed ++ [capturedText seen] := by
  rw [pushCapturedOutputLine, within, capturedText]
  by_cases hlong : contentLimit < seen.length
  · simp only [hlong, decide_true, if_true]
  · simp only [hlong, decide_false, Bool.false_eq_true, if_false, List.append_nil]

theorem within_nil (pushed : List Text) : within [] pushed = ⟨[], false, pushed⟩ := by
  rw [within, List.take_nil, List.length_nil, decide_eq_false (Nat.not_lt_zero _)]

theorem captureByte_feed (seen : Bytes) (pushed : List Text) :
    captureByte (within seen pushed) lineFeed = within [] (pushed ++ [capturedText seen]) := by
  rw [captureByte, if_pos rfl, within_nil, ← pushed_within]
  rfl

theorem captureByte_within {byte : UInt8} (h : byte ≠ lineFeed) (seen : Bytes)
    (pushed : List Text) :
    captureByte (within seen pushed) byte = within (seen ++ [byte]) pushed := by
  have hlength : (within seen pushed).lineBuffer.length = min contentLimit seen.length :=
    List.length_take
  rw [captureByte, if_neg h, hlength]
  by_cases hroom : seen.length < contentLimit
  · have hkept : (seen ++ [byte]).take contentLimit = seen.take contentLimit ++ [byte] := by
      rw [List.take_of_length_le hroom.le, List.take_of_length_le]
      rwa [List.length_append]
    have hbefore : ¬contentLimit < seen.length := hroom.not_gt
    have hafter : ¬contentLimit < (seen ++ [byte]).length := by
      rw [List.length_append, List.length_singleton]
      omega
    rw [if_pos (min_lt_of_right_lt hroom), within, within, hkept, decide_eq_false hbefore,
      decide_eq_false hafter]
  · have hkept : (seen ++ [byte]).take contentLimit = seen.take contentLimit :=
      List.take_append_of_le_length (not_lt.mp hroom)
    have hafter : contentLimit < (seen ++ [byte]).length := by
      rw [List.length_append, List.length_singleton]
      omega
    rw [if_neg (by omega), within, within, hkept, decide_eq_true hafter]

theorem rawLines_cons {line rest : Bytes} (h : lineFeed ∉ line) :
    rawLines (line ++ lineFeed :: rest) = line :: rawLines rest := by
  rw [rawLines, split_piece h, List.map_cons, withoutFeed, if_pos List.getLast?_concat,
    List.dropLast_concat]
  rfl

theorem rawLines_last {line : Bytes} (h : lineFeed ∉ line) :
    rawLines line = if line = [] then [] else [line] := by
  split
  · rename_i hempty
    rw [hempty]
    rfl
  · rename_i hne
    rw [rawLines, split_last h hne, List.map_singleton, withoutFeed,
      if_neg fun hlast => h (List.mem_of_getLast? hlast)]

theorem finish_within {seen : Bytes} (h : lineFeed ∉ seen) (pushed : List Text) :
    finish (within seen pushed) = pushed ++ (rawLines seen).map capturedText := by
  rw [rawLines_last h, finish]
  split
  · rename_i hrest
    have hne : seen ≠ [] := by
      rintro rfl
      rw [within_nil] at hrest
      simp at hrest
    rw [if_neg hne, pushed_within, List.map_singleton]
  · rename_i hrest
    rw [not_or, not_not] at hrest
    have hempty : seen = [] := by
      rcases List.take_eq_nil_iff.mp hrest.1 with hzero | hnil
      · exact absurd hzero contentLimit_pos.ne'
      · exact hnil
    rw [if_pos hempty, List.map_nil, List.append_nil]
    rfl

theorem finish_foldl {bytes seen : Bytes} (h : lineFeed ∉ seen) (pushed : List Text) :
    finish (bytes.foldl captureByte (within seen pushed)) =
      pushed ++ (rawLines (seen ++ bytes)).map capturedText := by
  induction bytes generalizing seen pushed with
  | nil => rw [List.foldl_nil, List.append_nil, finish_within h]
  | cons byte bytes ih =>
    rw [List.foldl_cons]
    by_cases hfeed : byte = lineFeed
    · rw [hfeed, captureByte_feed, ih List.not_mem_nil, rawLines_cons h, List.nil_append,
        List.map_cons, List.append_assoc, List.singleton_append]
    · have hseen : lineFeed ∉ seen ++ [byte] := by
        rw [List.mem_append, List.mem_singleton, not_or]
        exact ⟨h, Ne.symm hfeed⟩
      rw [captureByte_within hfeed, ih hseen, List.append_assoc, List.singleton_append]

theorem captureReads_eq (reads : List Read) (capture : Capture) :
    captureReads reads capture = (content reads).foldl captureByte capture := by
  induction reads generalizing capture with
  | nil => rfl
  | cons read reads ih =>
    cases read with
    | failed => rfl
    | bytes chunk fits =>
      rw [captureReads, content]
      split
      · rfl
      · rw [ih, List.foldl_append]

theorem capture_eq (reads : List Read) :
    captureOutputStream reads = (rawLines (content reads)).map capturedText := by
  have hfold := @finish_foldl (content reads) [] List.not_mem_nil []
  rw [List.nil_append, List.nil_append, ← captureReads_eq] at hfold
  exact hfold

end Lines

section Exact

variable {line : Bytes}

theorem lossy_withoutReturn :
    fromUtf8Lossy (withoutReturn line) = fromUtf8Lossy line ↔
      line.getLast? ≠ some carriageReturn := by
  rw [withoutReturn]
  split
  · rename_i hlast
    obtain ⟨before, rfl⟩ := List.getLast?_eq_some_iff.mp hlast
    rw [List.dropLast_concat, fromUtf8Lossy_concat (by decide)]
    refine iff_of_false (fun heq => ?_) (fun hne => hne hlast)
    simpa using congrArg List.length heq
  · rename_i hlast
    exact iff_of_true rfl hlast

-- The limit does not fall on a carriage return, and not just before one that ends the line.
def CleanCut (line : Bytes) : Prop :=
  contentLimit < line.length → (line.take contentLimit).getLast? ≠ some carriageReturn ∧
    ¬(line.length = contentLimit + 1 ∧ line.getLast? = some carriageReturn)

-- What is cut is not what it was before the cut.
theorem captured_ne_exact (h : line.length = contentLimit) :
    capturedText (line ++ [carriageReturn]) ≠ lineText (line ++ [carriageReturn]) := by
  have htake : (line ++ [carriageReturn]).take contentLimit = line := List.take_left' h
  have hlong : contentLimit < (line ++ [carriageReturn]).length := by
    rw [List.length_append, h]
    exact Nat.lt_succ_self _
  have hreturn : withoutReturn (line ++ [carriageReturn]) = line := by
    rw [withoutReturn, if_pos List.getLast?_concat, List.dropLast_concat]
  rw [capturedText, lineText, htake, if_pos hlong, hreturn, if_pos h.le]
  intro heq
  by_cases hlast : line.getLast? = some carriageReturn
  · obtain ⟨before, rfl⟩ := List.getLast?_eq_some_iff.mp hlast
    rw [withoutReturn, if_pos hlast, List.dropLast_concat, fromUtf8Lossy_concat (by decide)] at heq
    exact absurd (List.append_cancel_left heq) (by decide)
  · rw [lossy_withoutReturn.mpr hlast] at heq
    exact absurd (List.append_right_eq_self.mp heq) (by decide)

theorem take_withoutReturn (hlong : contentLimit < line.length)
    (hexact : ¬(line.length = contentLimit + 1 ∧ line.getLast? = some carriageReturn)) :
    contentLimit < (withoutReturn line).length ∧
      (withoutReturn line).take contentLimit = line.take contentLimit := by
  rw [withoutReturn]
  split
  · rename_i hlast
    obtain ⟨before, rfl⟩ := List.getLast?_eq_some_iff.mp hlast
    have hbefore : contentLimit < before.length := by
      rw [List.length_append, List.length_singleton] at hlong hexact
      have hne : before.length + 1 ≠ contentLimit + 1 := fun heq => hexact ⟨heq, hlast⟩
      omega
    rw [List.dropLast_concat, List.take_append_of_le_length hbefore.le]
    exact ⟨hbefore, rfl⟩
  · exact ⟨hlong, rfl⟩

theorem capturedText_iff : capturedText line = lineText line ↔ CleanCut line := by
  by_cases hlong : contentLimit < line.length
  · by_cases hexact : line.length = contentLimit + 1 ∧ line.getLast? = some carriageReturn
    · obtain ⟨before, rfl⟩ := List.getLast?_eq_some_iff.mp hexact.2
      have hbefore : before.length = contentLimit := by
        have hlength := hexact.1
        rw [List.length_append, List.length_singleton] at hlength
        omega
      exact iff_of_false (captured_ne_exact hbefore) fun hclean => (hclean hlong).2 hexact
    · obtain ⟨hcontent, htake⟩ := take_withoutReturn hlong hexact
      rw [capturedText, lineText, if_pos hlong, if_neg (not_le.mpr hcontent), htake,
        List.append_left_inj, lossy_withoutReturn]
      exact ⟨fun hcut _ => ⟨hcut, hexact⟩, fun hclean => (hclean hlong).1⟩
  · have hshort := not_lt.mp hlong
    have hcontent : (withoutReturn line).length ≤ contentLimit := by
      rw [withoutReturn]
      split
      · rw [List.length_dropLast]
        omega
      · exact hshort
    rw [capturedText, lineText, if_neg hlong, if_pos hcontent, List.take_of_length_le hshort,
      List.append_nil]
    exact iff_of_true rfl fun hcut => absurd hcut hlong

end Exact

-- What is pushed depends on the bytes of the stream alone, and it is the reference as long as
-- every line is cut cleanly.
theorem captureOutputStream_iff (reads : List Read) :
    (∀ others, content others = content reads →
      captureOutputStream others = captureOutputStream reads) ∧
    (captureOutputStream reads = referenceLines (content reads) ↔
      ∀ line ∈ rawLines (content reads), CleanCut line) := by
  constructor
  · intro others hsame
    rw [capture_eq, capture_eq, hsame]
  · rw [capture_eq, referenceLines, List.map_inj_left]
    exact forall₂_congr fun line _ => capturedText_iff

-- A line of as many letters as are kept, in two reads, that ends in a carriage return and a line
-- feed.
def fullLine : List Read :=
  [.bytes (List.replicate 8192 0x61) (by decide +kernel),
    .bytes (List.replicate 8177 0x61 ++ [carriageReturn, lineFeed]) (by decide +kernel)]

theorem content_fullLine :
    content fullLine = (List.replicate 8192 0x61 ++ List.replicate 8177 0x61 ++ [carriageReturn]) ++
      lineFeed :: [] := by
  have hfirst : List.replicate 8192 (0x61 : UInt8) ≠ [] :=
    List.ne_nil_of_length_pos (by rw [List.length_replicate]; decide)
  have hsecond : List.replicate 8177 (0x61 : UInt8) ++ [carriageReturn, lineFeed] ≠ [] :=
    List.append_ne_nil_of_right_ne_nil _ (List.cons_ne_nil _ _)
  rw [fullLine, content, if_neg hfirst, content, if_neg hsecond, content, List.append_nil,
    List.append_assoc, List.append_assoc]
  rfl

theorem captureOutputStream_fullLine :
    captureOutputStream fullLine ≠ referenceLines (content fullLine) := by
  have hfeed : lineFeed ∉
      List.replicate 8192 0x61 ++ List.replicate 8177 0x61 ++ [carriageReturn] := by
    simp only [List.mem_append, List.mem_replicate, List.mem_singleton]
    decide
  have hlength : (List.replicate 8192 (0x61 : UInt8) ++ List.replicate 8177 0x61).length =
      contentLimit := by
    rw [List.length_append, List.length_replicate, List.length_replicate]
    decide +kernel
  rw [capture_eq, referenceLines, content_fullLine, rawLines_cons hfeed]
  intro heq
  exact captured_ne_exact hlength (List.cons.inj heq).1

end RuntimeOutput
