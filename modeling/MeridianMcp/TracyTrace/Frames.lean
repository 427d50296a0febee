import Mathlib.Algebra.Order.Ring.Nat
import Mathlib.Data.List.Basic
import Mathlib.Data.List.Infix

namespace TracyTrace

inductive FrameClass where
  | complete
  | leftBoundary
  | rightBoundary
  | spanning
  deriving DecidableEq, Repr

structure FrameInterval where
  start : Nat
  stop : Nat
  deriving DecidableEq, Repr

def classifyFrame (frame : FrameInterval) (rangeBegin rangeEnd : Nat) : Option FrameClass :=
  if frame.stop ≤ frame.start ∨ rangeEnd ≤ rangeBegin ∨ frame.stop ≤ rangeBegin ∨
      rangeEnd ≤ frame.start then none
  else if frame.start < rangeBegin ∧ rangeEnd < frame.stop then some .spanning
  else if frame.start < rangeBegin then some .leftBoundary
  else if rangeEnd < frame.stop then some .rightBoundary
  else some .complete

def shouldValidateFrame (frame : FrameInterval) (traceFirstTime : Nat) (hasObservedEnd : Bool) :
    Bool :=
  hasObservedEnd && decide (traceFirstTime < frame.start)

structure RangeCounts where
  rawTotal : Nat
  intersecting : Nat
  complete : Nat
  partialLeft : Nat
  partialRight : Nat
  spanning : Nat
  analyzed : Nat
  invalid : Nat
  deriving DecidableEq, Repr

def RangeCounts.add (counts : RangeCounts) : Option FrameClass → RangeCounts
  | none => counts
  | some .complete =>
    { counts with
      intersecting := counts.intersecting + 1
      complete := counts.complete + 1
      analyzed := counts.analyzed + 1 }
  | some .leftBoundary =>
    { counts with
      intersecting := counts.intersecting + 1
      partialLeft := counts.partialLeft + 1 }
  | some .rightBoundary =>
    { counts with
      intersecting := counts.intersecting + 1
      partialRight := counts.partialRight + 1 }
  | some .spanning =>
    { counts with
      intersecting := counts.intersecting + 1
      spanning := counts.spanning + 1 }

def countRange (intervals : List FrameInterval) (rangeBegin rangeEnd : Nat) : RangeCounts :=
  if rangeEnd ≤ rangeBegin then ⟨intervals.length, 0, 0, 0, 0, 0, 0, 0⟩
  else intervals.foldl (fun counts interval => counts.add (classifyFrame interval rangeBegin rangeEnd))
    ⟨intervals.length, 0, 0, 0, 0, 0, 0, 0⟩

-- A frame as the worker gives it: its begin, end and duration, and the end that is stored with it.
structure TraceFrame where
  start : Int
  stop : Int
  time : Int
  storedEnd : Int
  deriving DecidableEq, Repr

structure TraceFrames where
  continuous : Bool
  frames : List TraceFrame

-- The first time of the trace and the conversion of its times to raw ticks.
structure Clock where
  firstTime : Int
  rawBase : Nat
  ticks : Nat → Nat

def asUnsigned (time : Int) : Nat := (time % 2 ^ 64).toNat

def Clock.raw (clock : Clock) (time : Int) : Nat :=
  (clock.rawBase + clock.ticks time.toNat) % 2 ^ 64

def Clock.firstRaw (clock : Clock) : Nat := clock.raw (max 0 clock.firstTime)

def TraceFrames.hasObservedEnd (frames : TraceFrames) (index : Nat) (frame : TraceFrame) : Bool :=
  if frames.continuous then index + 1 < frames.frames.length else 0 ≤ frame.storedEnd

structure FrameData where
  traceIntervals : List FrameInterval
  frameIntervals : List FrameInterval
  frameDurations : List Int

section Extract

variable (clock : Clock) (frames : TraceFrames) (rangeBegin rangeEnd : Int)

def traceInterval (frame : TraceFrame) : FrameInterval := ⟨frame.start.toNat, frame.stop.toNat⟩

def rawInterval (frame : TraceFrame) : FrameInterval := ⟨clock.raw frame.start, clock.raw frame.stop⟩

def classOf (frame : TraceFrame) : Option FrameClass :=
  classifyFrame (traceInterval frame) (asUnsigned rangeBegin) (asUnsigned rangeEnd)

def validated (frame : TraceFrame × Nat) : Bool :=
  shouldValidateFrame (rawInterval clock frame.1) clock.firstRaw
    (frames.hasObservedEnd frame.2 frame.1)

def extractFrame (data : FrameData) (frame : TraceFrame × Nat) : FrameData :=
  if 0 ≤ frame.1.start ∧ 0 ≤ frame.1.stop then
    let data := { data with traceIntervals := data.traceIntervals ++ [traceInterval frame.1] }
    if validated clock frames frame then
      let data := { data with frameIntervals := data.frameIntervals ++ [rawInterval clock frame.1] }
      if classOf rangeBegin rangeEnd frame.1 = some .complete then
        { data with frameDurations := data.frameDurations ++ [frame.1.time] }
      else data
    else data
  else data

def extractFrames : FrameData :=
  frames.frames.zipIdx.foldl (extractFrame clock frames rangeBegin rangeEnd) ⟨[], [], []⟩

def frameCounts : RangeCounts :=
  countRange (extractFrames clock frames rangeBegin rangeEnd).traceIntervals (asUnsigned rangeBegin)
    (asUnsigned rangeEnd)

end Extract

section Tally

variable {intervals : List FrameInterval} {rangeBegin rangeEnd : Nat}

def tally (intervals : List FrameInterval) (rangeBegin rangeEnd : Nat) (cls : Option FrameClass) :
    Nat :=
  intervals.countP fun interval => classifyFrame interval rangeBegin rangeEnd = cls

theorem tally_append (before after : List FrameInterval) (cls : Option FrameClass) :
    tally (before ++ after) rangeBegin rangeEnd cls =
      tally before rangeBegin rangeEnd cls + tally after rangeBegin rangeEnd cls :=
  List.countP_append

theorem tally_singleton (interval : FrameInterval) (cls : Option FrameClass) :
    tally [interval] rangeBegin rangeEnd cls =
      if classifyFrame interval rangeBegin rangeEnd = cls then 1 else 0 := by
  rw [tally, List.countP_singleton]
  simp only [decide_eq_true_eq]

-- What the counts say of the frames: one count for each class, and all of them counted once.
structure Tallies (intervals : List FrameInterval) (rangeBegin rangeEnd : Nat)
    (before counts : RangeCounts) : Prop where
  raw : counts.rawTotal = before.rawTotal
  complete : counts.complete =
    before.complete + tally intervals rangeBegin rangeEnd (some .complete)
  analyzed : counts.analyzed =
    before.analyzed + tally intervals rangeBegin rangeEnd (some .complete)
  left : counts.partialLeft =
    before.partialLeft + tally intervals rangeBegin rangeEnd (some .leftBoundary)
  right : counts.partialRight =
    before.partialRight + tally intervals rangeBegin rangeEnd (some .rightBoundary)
  spanning : counts.spanning =
    before.spanning + tally intervals rangeBegin rangeEnd (some .spanning)
  invalid : counts.invalid = before.invalid

theorem add_tallies (interval : FrameInterval) (counts : RangeCounts) :
    Tallies [interval] rangeBegin rangeEnd counts
      (counts.add (classifyFrame interval rangeBegin rangeEnd)) := by
  cases hclass : classifyFrame interval rangeBegin rangeEnd with
  | none => constructor <;> simp [tally_singleton, hclass, RangeCounts.add]
  | some cls => cases cls <;> constructor <;> simp [tally_singleton, hclass, RangeCounts.add]

theorem Tallies.trans {before after : List FrameInterval} {counts mid out : RangeCounts}
    (h : Tallies before rangeBegin rangeEnd counts mid)
    (h' : Tallies after rangeBegin rangeEnd mid out) :
    Tallies (before ++ after) rangeBegin rangeEnd counts out where
  raw := h'.raw.trans h.raw
  complete := by rw [h'.complete, h.complete, tally_append, Nat.add_assoc]
  analyzed := by rw [h'.analyzed, h.analyzed, tally_append, Nat.add_assoc]
  left := by rw [h'.left, h.left, tally_append, Nat.add_assoc]
  right := by rw [h'.right, h.right, tally_append, Nat.add_assoc]
  spanning := by rw [h'.spanning, h.spanning, tally_append, Nat.add_assoc]
  invalid := h'.invalid.trans h.invalid

theorem foldl_tallies (counts : RangeCounts) :
    Tallies intervals rangeBegin rangeEnd counts
      (intervals.foldl (fun counts interval => counts.add (classifyFrame interval rangeBegin rangeEnd))
        counts) := by
  induction intervals generalizing counts with
  | nil => exact ⟨rfl, rfl, rfl, rfl, rfl, rfl, rfl⟩
  | cons interval intervals ih => exact (add_tallies interval counts).trans (ih _)

theorem countRange_tallies : Tallies intervals rangeBegin rangeEnd
    ⟨intervals.length, 0, 0, 0, 0, 0, 0, 0⟩ (countRange intervals rangeBegin rangeEnd) := by
  rw [countRange]
  split
  · rename_i hempty
    have hnone : ∀ cls, tally intervals rangeBegin rangeEnd (some cls) = 0 := by
      intro cls
      refine List.countP_eq_zero.mpr fun interval _ => ?_
      rw [classifyFrame, if_pos (Or.inr (Or.inl hempty))]
      simp
    constructor <;> simp only [hnone]
  · exact foldl_tallies _

theorem tally_total : intervals.length = tally intervals rangeBegin rangeEnd none +
    tally intervals rangeBegin rangeEnd (some .complete) +
    tally intervals rangeBegin rangeEnd (some .leftBoundary) +
    tally intervals rangeBegin rangeEnd (some .rightBoundary) +
    tally intervals rangeBegin rangeEnd (some .spanning) := by
  induction intervals with
  | nil => rfl
  | cons interval intervals ih =>
    rw [← List.singleton_append, List.length_append, ih]
    simp only [tally_append, tally_singleton, List.length_singleton]
    cases classifyFrame interval rangeBegin rangeEnd with
    | none => simp only [if_true, reduceCtorEq, if_false]; omega
    | some cls => cases cls <;> simp <;> omega

end Tally

section Accounting

variable (clock : Clock) (frames : TraceFrames) (rangeBegin rangeEnd : Int)

-- The frames that are looked at: those whose times are not negative.
def isListed (frame : TraceFrame × Nat) : Bool := 0 ≤ frame.1.start ∧ 0 ≤ frame.1.stop

def isComplete (frame : TraceFrame × Nat) : Bool := classOf rangeBegin rangeEnd frame.1 = some .complete

def listed : List (TraceFrame × Nat) := frames.frames.zipIdx.filter isListed

variable {clock frames rangeBegin rangeEnd}

theorem extractFrame_intervals (data : FrameData) (frame : TraceFrame × Nat) :
    (extractFrame clock frames rangeBegin rangeEnd data frame).traceIntervals =
      data.traceIntervals ++ ([frame].filter isListed).map fun frame => traceInterval frame.1 := by
  rw [extractFrame, List.filter_singleton]
  by_cases hlisted : 0 ≤ frame.1.start ∧ 0 ≤ frame.1.stop
  · rw [if_pos hlisted, show isListed frame = true from decide_eq_true hlisted]
    dsimp only
    split
    · split <;> rfl
    · rfl
  · rw [if_neg hlisted, show isListed frame = false from decide_eq_false hlisted]
    exact (List.append_nil _).symm

theorem extractFrame_durations (data : FrameData) (frame : TraceFrame × Nat) :
    (extractFrame clock frames rangeBegin rangeEnd data frame).frameDurations =
      data.frameDurations ++ (([frame].filter isListed).filter fun frame =>
        validated clock frames frame && isComplete rangeBegin rangeEnd frame).map (·.1.time) := by
  rw [extractFrame, List.filter_singleton]
  by_cases hlisted : 0 ≤ frame.1.start ∧ 0 ≤ frame.1.stop
  · rw [if_pos hlisted, show isListed frame = true from decide_eq_true hlisted]
    dsimp only
    rw [cond_true, List.filter_singleton]
    split
    · rename_i hvalid
      rw [hvalid, Bool.true_and]
      split
      · rename_i hcomplete
        rw [show isComplete rangeBegin rangeEnd frame = true from decide_eq_true hcomplete]
        rfl
      · rename_i hcomplete
        rw [show isComplete rangeBegin rangeEnd frame = false from decide_eq_false hcomplete]
        exact (List.append_nil _).symm
    · rename_i hvalid
      rw [Bool.eq_false_iff.mpr hvalid]
      exact (List.append_nil _).symm
  · rw [if_neg hlisted, show isListed frame = false from decide_eq_false hlisted]
    exact (List.append_nil _).symm

theorem foldl_extracts (data : FrameData) (l : List (TraceFrame × Nat)) :
    (l.foldl (extractFrame clock frames rangeBegin rangeEnd) data).traceIntervals =
        data.traceIntervals ++ (l.filter isListed).map (fun frame => traceInterval frame.1) ∧
      (l.foldl (extractFrame clock frames rangeBegin rangeEnd) data).frameDurations =
        data.frameDurations ++ ((l.filter isListed).filter fun frame =>
          validated clock frames frame && isComplete rangeBegin rangeEnd frame).map (·.1.time) := by
  induction l generalizing data with
  | nil => exact ⟨(List.append_nil _).symm, (List.append_nil _).symm⟩
  | cons frame l ih =>
    obtain ⟨hintervals, hdurations⟩ := ih (extractFrame clock frames rangeBegin rangeEnd data frame)
    have hcons : (frame :: l).filter isListed = [frame].filter isListed ++ l.filter isListed := by
      rw [← List.filter_append]
      rfl
    rw [List.foldl_cons, hintervals, hdurations, extractFrame_intervals, extractFrame_durations, hcons]
    simp only [List.filter_append, List.map_append, List.append_assoc, and_self]

theorem analyzed_eq : (frameCounts clock frames rangeBegin rangeEnd).analyzed =
    ((listed frames).filter (isComplete rangeBegin rangeEnd)).length := by
  have htallies := @countRange_tallies (extractFrames clock frames rangeBegin rangeEnd).traceIntervals
    (asUnsigned rangeBegin) (asUnsigned rangeEnd)
  have hextract := (@foldl_extracts clock frames rangeBegin rangeEnd ⟨[], [], []⟩
    frames.frames.zipIdx).1
  rw [frameCounts, htallies.analyzed, Nat.zero_add, extractFrames, hextract, List.nil_append, tally,
    List.countP_map, List.countP_eq_length_filter]
  rfl

-- Each frame that lies in the range begins after the first time stamp and has an observed end.
def AllValidated (clock : Clock) (frames : TraceFrames) (rangeBegin rangeEnd : Int) : Prop :=
  ∀ frame ∈ frames.frames.zipIdx, 0 ≤ frame.1.start → 0 ≤ frame.1.stop →
    classOf rangeBegin rangeEnd frame.1 = some .complete →
      frames.hasObservedEnd frame.2 frame.1 = true ∧ clock.firstRaw < clock.raw frame.1.start

-- The frames of the counts that no class takes.
def unclassified (clock : Clock) (frames : TraceFrames) (rangeBegin rangeEnd : Int) : Nat :=
  tally (extractFrames clock frames rangeBegin rangeEnd).traceIntervals (asUnsigned rangeBegin)
    (asUnsigned rangeEnd) none

theorem frames_reconcile : (frameCounts clock frames rangeBegin rangeEnd).rawTotal =
    (frameCounts clock frames rangeBegin rangeEnd).complete +
      (frameCounts clock frames rangeBegin rangeEnd).partialLeft +
      (frameCounts clock frames rangeBegin rangeEnd).partialRight +
      (frameCounts clock frames rangeBegin rangeEnd).spanning +
      (frameCounts clock frames rangeBegin rangeEnd).invalid +
      unclassified clock frames rangeBegin rangeEnd := by
  have htallies := @countRange_tallies (extractFrames clock frames rangeBegin rangeEnd).traceIntervals
    (asUnsigned rangeBegin) (asUnsigned rangeEnd)
  have htotal := @tally_total (extractFrames clock frames rangeBegin rangeEnd).traceIntervals
    (asUnsigned rangeBegin) (asUnsigned rangeEnd)
  rw [frameCounts, htallies.raw, htallies.complete, htallies.left, htallies.right,
    htallies.spanning, htallies.invalid, unclassified]
  dsimp only
  omega

theorem allValidated_iff : AllValidated clock frames rangeBegin rangeEnd ↔
    ∀ frame ∈ (listed frames).filter (isComplete rangeBegin rangeEnd),
      validated clock frames frame = true := by
  have hvalidated : ∀ frame, validated clock frames frame = true ↔
      frames.hasObservedEnd frame.2 frame.1 = true ∧ clock.firstRaw < clock.raw frame.1.start := by
    intro frame
    rw [validated, shouldValidateFrame, Bool.and_eq_true, decide_eq_true_eq]
    rfl
  simp only [hvalidated, AllValidated, listed, List.mem_filter, isListed, isComplete,
    decide_eq_true_eq, and_imp]

theorem frames_accounted_iff (clock : Clock) (frames : TraceFrames) (rangeBegin rangeEnd : Int) :
    ((extractFrames clock frames rangeBegin rangeEnd).frameDurations.length =
        (frameCounts clock frames rangeBegin rangeEnd).analyzed ∧
      (frameCounts clock frames rangeBegin rangeEnd).rawTotal =
        (frameCounts clock frames rangeBegin rangeEnd).complete +
          (frameCounts clock frames rangeBegin rangeEnd).partialLeft +
          (frameCounts clock frames rangeBegin rangeEnd).partialRight +
          (frameCounts clock frames rangeBegin rangeEnd).spanning +
          (frameCounts clock frames rangeBegin rangeEnd).invalid +
          unclassified clock frames rangeBegin rangeEnd) ↔
      AllValidated clock frames rangeBegin rangeEnd := by
  have hdurations := (@foldl_extracts clock frames rangeBegin rangeEnd ⟨[], [], []⟩
    frames.frames.zipIdx).2
  rw [and_iff_left frames_reconcile, analyzed_eq, extractFrames, hdurations, List.nil_append,
    List.length_map, ← List.filter_filter, allValidated_iff]
  exact List.length_filter_eq_length_iff

-- The first frame begins with the trace: it is counted as analyzed, and no duration of it is kept.
theorem first_frame_unaccounted :
    ¬ ((extractFrames ⟨0, 0, id⟩ ⟨true, [⟨0, 10, 10, -1⟩, ⟨10, 20, 10, -1⟩, ⟨20, 30, 10, -1⟩]⟩
          0 30).frameDurations.length =
        (frameCounts ⟨0, 0, id⟩ ⟨true, [⟨0, 10, 10, -1⟩, ⟨10, 20, 10, -1⟩, ⟨20, 30, 10, -1⟩]⟩
          0 30).analyzed) := by
  decide

end Accounting

end TracyTrace
