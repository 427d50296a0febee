import Mathlib.Data.Int.ConditionallyCompleteOrder
import Mathlib.Order.ConditionallyCompleteLattice.Basic
import Mathlib.Data.Rat.Floor
import MeridianMcp.Fallible
import MeridianMcp.Tracy.Collector

namespace TracyTrace

open Fallible
open Tracy (Thrown)

section Truncation

variable {K : Type} [Ring K] [LinearOrder K] [FloorRing K]

def truncate (x : K) : ℤ := if 0 ≤ x then ⌊x⌋ else ⌈x⌉

theorem truncate_of_nonneg {x : K} (h : 0 ≤ x) : truncate x = ⌊x⌋ := if_pos h

theorem truncate_mono : Monotone (truncate : K → ℤ) := by
  intro x y hxy
  by_cases hx : 0 ≤ x
  · rw [truncate_of_nonneg hx, truncate_of_nonneg (hx.trans hxy)]
    exact Int.floor_mono hxy
  · have hneg : ⌈x⌉ ≤ 0 := Int.ceil_le.mpr (by simpa using (not_le.mp hx).le)
    rw [truncate, if_neg hx, truncate]
    split
    · rename_i hy
      exact hneg.trans (Int.floor_nonneg.mpr hy)
    · exact Int.ceil_mono hxy

end Truncation

-- A conversion to a signed word of what such a word does not hold has no defined result.
inductive Cast where
  | time (value : Int64)
  | undefined
  deriving DecidableEq

def castInt64 (x : ℚ) : Cast :=
  if -2 ^ 63 ≤ truncate x ∧ truncate x < 2 ^ 63 then .time (Int64.ofInt (truncate x)) else .undefined

-- The largest signed word as a double.
def int64Max : ℚ := 2 ^ 63

def traceTimeFromRaw (rawTime rawBase : UInt64) (nanosecondsPerTick : ℚ) : Option Cast :=
  if rawTime < rawBase ∨ nanosecondsPerTick ≤ 0 then none
  else
    let converted := ((rawTime - rawBase).toNat : ℚ) * nanosecondsPerTick
    if int64Max < converted then none else some (castInt64 converted)

def invalidClock (message : String) : Thrown := .protocolError "invalid_clock_conversion" message

def requireTime (message : String) : Option Cast → Except Thrown Cast
  | none => .error (invalidClock message)
  | some time => .ok time

-- The window of a capture on the trace's clock, from the producer's clock at its two ends.
def activeWindow (nanosecondsPerTick : ℚ) (rawBase rawBegin rawEnd : UInt64) :
    Except Thrown (Cast × Cast) :=
  if nanosecondsPerTick ≤ 0 then
    .error (invalidClock "Tracy reported an invalid timer multiplier.")
  else do
    let activeBegin ← requireTime "Could not convert the producer start clock into Tracy time."
      (traceTimeFromRaw rawBegin rawBase nanosecondsPerTick)
    let activeEnd ← requireTime "Could not convert the producer end clock into Tracy time."
      (traceTimeFromRaw rawEnd rawBase nanosecondsPerTick)
    .ok (activeBegin, activeEnd)

def product (rawTime rawBase : UInt64) (nanosecondsPerTick : ℚ) : ℚ :=
  ((rawTime.toNat : ℚ) - rawBase.toNat) * nanosecondsPerTick

def AtEdge (rawTime rawBase : UInt64) (nanosecondsPerTick : ℚ) : Prop :=
  rawBase ≤ rawTime ∧ product rawTime rawBase nanosecondsPerTick = 2 ^ 63

-- What is returned is the truncated product as a signed word, and no earlier clock has a later time.
def Faithful (rawTime rawBase : UInt64) (nanosecondsPerTick : ℚ) : Prop :=
  ∀ result, traceTimeFromRaw rawTime rawBase nanosecondsPerTick = some result →
    ∃ time : Int64, result = .time time ∧
      time.toInt = truncate (product rawTime rawBase nanosecondsPerTick) ∧
      ∀ earlier ≤ rawTime, ∀ result', traceTimeFromRaw earlier rawBase nanosecondsPerTick =
        some result' → ∃ time' : Int64, result' = .time time' ∧ time'.toInt ≤ time.toInt

section Clock

variable {rawTime rawBase earlier : UInt64} {nanosecondsPerTick x : ℚ} {result : Cast}

theorem cast_in_range (hx : 0 ≤ x) (h : x < 2 ^ 63) :
    castInt64 x = .time (Int64.ofInt (truncate x)) ∧
      (Int64.ofInt (truncate x)).toInt = truncate x := by
  have hlow : -2 ^ 63 ≤ truncate x := by
    rw [truncate_of_nonneg hx]
    exact le_trans (by norm_num) (Int.floor_nonneg.mpr hx)
  have hhigh : truncate x < 2 ^ 63 := by
    rw [truncate_of_nonneg hx, Int.floor_lt]
    exact_mod_cast h
  exact ⟨if_pos ⟨hlow, hhigh⟩, Int64.toInt_ofInt_of_le hlow hhigh⟩

theorem cast_at_edge : castInt64 (2 ^ 63) = .undefined := by
  have hfloor : truncate (2 ^ 63 : ℚ) = 2 ^ 63 := by
    rw [truncate_of_nonneg (by norm_num)]
    exact_mod_cast Int.floor_natCast (R := ℚ) (2 ^ 63)
  rw [castInt64, hfloor]
  exact if_neg fun h => lt_irrefl _ h.2

theorem converted_eq_product (h : rawBase ≤ rawTime) :
    ((rawTime - rawBase).toNat : ℚ) * nanosecondsPerTick =
      product rawTime rawBase nanosecondsPerTick := by
  rw [product, UInt64.toNat_sub_of_le _ _ h, Nat.cast_sub (UInt64.le_iff_toNat_le.mp h)]

theorem traceTimeFromRaw_eq_some :
    traceTimeFromRaw rawTime rawBase nanosecondsPerTick = some result ↔
      rawBase ≤ rawTime ∧ 0 < nanosecondsPerTick ∧
        product rawTime rawBase nanosecondsPerTick ≤ 2 ^ 63 ∧
        result = castInt64 (product rawTime rawBase nanosecondsPerTick) := by
  rw [traceTimeFromRaw]
  split
  · rename_i h
    refine iff_of_false nofun fun hall => ?_
    exact h.elim (UInt64.not_lt.mpr hall.1) (not_le.mpr hall.2.1)
  · rename_i h
    rw [not_or, UInt64.not_lt, not_le] at h
    dsimp only
    rw [converted_eq_product h.1, int64Max]
    split
    · rename_i hbig
      exact iff_of_false nofun fun hall => not_le.mpr hbig hall.2.2.1
    · rename_i hsmall
      rw [not_lt] at hsmall
      rw [Option.some.injEq]
      exact ⟨fun heq => ⟨h.1, h.2, hsmall, heq.symm⟩, fun hall => hall.2.2.2.symm⟩

theorem product_nonneg (hle : rawBase ≤ rawTime) (hpos : 0 < nanosecondsPerTick) :
    0 ≤ product rawTime rawBase nanosecondsPerTick :=
  mul_nonneg (sub_nonneg.mpr (Nat.cast_le.mpr (UInt64.le_iff_toNat_le.mp hle))) hpos.le

theorem product_mono (hle : earlier ≤ rawTime) (hpos : 0 < nanosecondsPerTick) :
    product earlier rawBase nanosecondsPerTick ≤ product rawTime rawBase nanosecondsPerTick :=
  mul_le_mul_of_nonneg_right
    (sub_le_sub_right (Nat.cast_le.mpr (UInt64.le_iff_toNat_le.mp hle)) _) hpos.le

theorem converted_of_lt
    (h : traceTimeFromRaw rawTime rawBase nanosecondsPerTick = some result)
    (hlt : product rawTime rawBase nanosecondsPerTick < 2 ^ 63) :
    ∃ time : Int64, result = .time time ∧
      time.toInt = truncate (product rawTime rawBase nanosecondsPerTick) := by
  obtain ⟨hle, hpos, -, rfl⟩ := traceTimeFromRaw_eq_some.mp h
  obtain ⟨hcast, htime⟩ := cast_in_range (product_nonneg hle hpos) hlt
  exact ⟨_, hcast, htime⟩

theorem faithful_of_not_edge (hedge : ¬ AtEdge rawTime rawBase nanosecondsPerTick) :
    Faithful rawTime rawBase nanosecondsPerTick := by
  intro result hresult
  obtain ⟨hle, hpos, hbound, -⟩ := traceTimeFromRaw_eq_some.mp hresult
  have hlt := lt_of_le_of_ne hbound fun heq => hedge ⟨hle, heq⟩
  obtain ⟨time, rfl, htime⟩ := converted_of_lt hresult hlt
  refine ⟨time, rfl, htime, fun earlier hearlier result' hresult' => ?_⟩
  have hproducts := @product_mono _ rawBase _ _ hearlier hpos
  obtain ⟨time', rfl, htime'⟩ := converted_of_lt hresult' (hproducts.trans_lt hlt)
  refine ⟨time', rfl, ?_⟩
  rw [htime, htime']
  exact truncate_mono hproducts

theorem requireTime_ok {message : String} {time : Option Cast} {window : Cast}
    (h : requireTime message time = .ok window) : time = some window := by
  cases time with
  | none => cases h
  | some time => exact congrArg some (Except.ok.inj h)

-- A window away from the edge does not end before it begins.
theorem activeWindow_ordered {rawBegin rawEnd : UInt64} {window : Cast × Cast}
    (hle : rawBegin ≤ rawEnd) (hedge : ¬ AtEdge rawEnd rawBase nanosecondsPerTick)
    (h : activeWindow nanosecondsPerTick rawBase rawBegin rawEnd = .ok window) :
    ∃ activeBegin activeEnd : Int64, window = (.time activeBegin, .time activeEnd) ∧
      activeBegin.toInt ≤ activeEnd.toInt := by
  rw [activeWindow] at h
  split at h
  · cases h
  · obtain ⟨begun, hbegun, h⟩ := bind_ok h
    obtain ⟨ended, hended, h⟩ := bind_ok h
    obtain rfl := Except.ok.inj h
    obtain ⟨activeEnd, rfl, -, hearlier⟩ :=
      faithful_of_not_edge hedge ended (requireTime_ok hended)
    obtain ⟨activeBegin, rfl, htimes⟩ := hearlier rawBegin hle begun (requireTime_ok hbegun)
    exact ⟨activeBegin, activeEnd, rfl, htimes⟩

end Clock

theorem trace_time_iff (rawTime rawBase : UInt64) (nanosecondsPerTick : ℚ) :
    Faithful rawTime rawBase nanosecondsPerTick ↔ ¬ AtEdge rawTime rawBase nanosecondsPerTick := by
  constructor
  · rintro hfaithful ⟨hle, hedge⟩
    have hpos : 0 < nanosecondsPerTick := by
      have hticks : (0 : ℚ) ≤ (rawTime.toNat : ℚ) - rawBase.toNat :=
        sub_nonneg.mpr (Nat.cast_le.mpr (UInt64.le_iff_toNat_le.mp hle))
      refine pos_of_mul_pos_right ?_ hticks
      rw [← product, hedge]
      norm_num
    obtain ⟨time, htime, -⟩ := hfaithful _
      (traceTimeFromRaw_eq_some.mpr ⟨hle, hpos, hedge.le, rfl⟩)
    rw [hedge, cast_at_edge] at htime
    cases htime
  · exact faithful_of_not_edge

theorem edge_undefined :
    ¬ ∀ (rawTime rawBase : UInt64) (nanosecondsPerTick : ℚ), 0 < nanosecondsPerTick →
      Faithful rawTime rawBase nanosecondsPerTick := by
  intro h
  have hclock : (9223372036854775808 : UInt64).toNat = 9223372036854775808 := rfl
  have hproduct : product 9223372036854775808 0 1 = 2 ^ 63 := by
    rw [product, mul_one, hclock]
    norm_num
  have hreturned : traceTimeFromRaw 9223372036854775808 0 1 = some (castInt64 (2 ^ 63)) :=
    traceTimeFromRaw_eq_some.mpr ⟨by decide, one_pos, hproduct.le, by rw [hproduct]⟩
  obtain ⟨time, htime, -⟩ := h 9223372036854775808 0 1 one_pos _ hreturned
  rw [cast_at_edge] at htime
  cases htime

end TracyTrace
