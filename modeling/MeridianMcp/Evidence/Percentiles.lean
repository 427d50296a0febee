import Mathlib.Algebra.BigOperators.Group.List.Basic
import Mathlib.Algebra.Order.BigOperators.Group.List
import Mathlib.Data.List.Sort
import Mathlib.Data.Rat.Floor
import MeridianMcp.Interpolation

namespace Evidence

-- The operations on samples; `le` is the order the samples are sorted in.
structure Arithmetic (F : Type) where
  zero : F
  add : F → F → F
  sub : F → F → F
  mul : F → F → F
  div : F → F → F
  sqrt : F → F
  abs : F → F
  ofNat : Nat → F
  floor : F → Nat
  ceil : F → Nat
  isFinite : F → Bool
  le : F → F → Bool
  isZero : F → Bool
  p50 : F
  p95 : F
  p99 : F
  hundred : F

structure NumericSummary (F : Type) where
  count : Nat
  missingCount : Nat
  minimum : F
  maximum : F
  mean : F
  p50 : F
  p95 : F
  p99 : F
  sampleStandardDeviation : Option F

variable {F : Type}

def compensatedStep (arithmetic : Arithmetic F) (state : F × F) (value : F) : F × F :=
  let adjusted := arithmetic.sub value state.2
  let next := arithmetic.add state.1 adjusted
  (next, arithmetic.sub (arithmetic.sub next state.1) adjusted)

def compensatedSum (arithmetic : Arithmetic F) (values : List F) : F :=
  (values.foldl (compensatedStep arithmetic) (arithmetic.zero, arithmetic.zero)).1

def percentileType7 (arithmetic : Arithmetic F) (sorted : List F) (probability : F) : Option F :=
  let h := arithmetic.mul (arithmetic.ofNat (sorted.length - 1)) probability
  match sorted[arithmetic.floor h]?, sorted[arithmetic.ceil h]? with
  | some lower, some upper => some (arithmetic.add lower (arithmetic.mul
      (arithmetic.sub h (arithmetic.ofNat (arithmetic.floor h))) (arithmetic.sub upper lower)))
  | _, _ => none

def sortSamples (arithmetic : Arithmetic F) (samples : List F) : List F :=
  samples.insertionSort fun left right => arithmetic.le left right = true

def sampleDeviation (arithmetic : Arithmetic F) (sorted : List F) (mean : F) : Option F :=
  if 1 < sorted.length then
    some (arithmetic.sqrt (arithmetic.div
      (compensatedSum arithmetic (sorted.map fun value =>
        arithmetic.mul (arithmetic.sub value mean) (arithmetic.sub value mean)))
      (arithmetic.ofNat (sorted.length - 1))))
  else none

-- A percentile whose places are out of range is the panic of the index.
def fromSamplesWithTotal (arithmetic : Arithmetic F) (samples : List F) (totalCount : Nat) :
    Option (NumericSummary F) :=
  if samples.any fun value => !arithmetic.isFinite value then none
  else do
    let sorted := sortSamples arithmetic samples
    let minimum ← sorted.head?
    let maximum ← sorted.getLast?
    let mean := arithmetic.div (compensatedSum arithmetic sorted) (arithmetic.ofNat sorted.length)
    let p50 ← percentileType7 arithmetic sorted arithmetic.p50
    let p95 ← percentileType7 arithmetic sorted arithmetic.p95
    let p99 ← percentileType7 arithmetic sorted arithmetic.p99
    return { count := sorted.length
             missingCount := totalCount - sorted.length
             minimum := minimum
             maximum := maximum
             mean := mean
             p50 := p50
             p95 := p95
             p99 := p99
             sampleStandardDeviation := sampleDeviation arithmetic sorted mean }

def fromSamples (arithmetic : Arithmetic F) (samples : List F) : Option (NumericSummary F) :=
  fromSamplesWithTotal arithmetic samples samples.length

def coefficientOfVariation (arithmetic : Arithmetic F) (summary : NumericSummary F)
    (sampleCount : Nat) : Option F :=
  summary.sampleStandardDeviation.bind fun deviation =>
    if 3 ≤ sampleCount ∧ arithmetic.isZero summary.mean = false then
      some (arithmetic.div deviation (arithmetic.abs summary.mean))
    else none

end Evidence

namespace Evidence

open Interpolation

-- The operations on exact rational samples; the square root is the only one that is not exact.
def rationalArithmetic (sqrt : ℚ → ℚ) : Arithmetic ℚ where
  zero := 0
  add := (· + ·)
  sub := (· - ·)
  mul := (· * ·)
  div := (· / ·)
  sqrt := sqrt
  abs value := |value|
  ofNat n := n
  floor value := ⌊value⌋₊
  ceil value := ⌈value⌉₊
  isFinite _ := true
  le left right := left ≤ right
  isZero value := value = 0
  p50 := 50 / 100
  p95 := 95 / 100
  p99 := 99 / 100
  hundred := 100

-- The sample at a place, and the last sample at every place behind it.
def sampleAt (sorted : List ℚ) (last : ℚ) (i : Nat) : ℚ := (sorted[i]?).getD last

structure Ordered (summary : NumericSummary ℚ) : Prop where
  minimum_p50 : summary.minimum ≤ summary.p50
  p50_p95 : summary.p50 ≤ summary.p95
  p95_p99 : summary.p95 ≤ summary.p99
  p99_maximum : summary.p99 ≤ summary.maximum
  minimum_mean : summary.minimum ≤ summary.mean
  mean_maximum : summary.mean ≤ summary.maximum

section Percentile

variable {sqrt : ℚ → ℚ} {sorted : List ℚ} {first last p q : ℚ}

theorem le_getLast (hsorted : sorted.Pairwise (· ≤ ·)) (hlast : sorted.getLast? = some last)
    {value : ℚ} (h : value ∈ sorted) : value ≤ last := by
  obtain ⟨init, rfl⟩ := List.getLast?_eq_some_iff.mp hlast
  rcases List.mem_append.mp h with hin | hin
  · exact (List.pairwise_append.mp hsorted).2.2 value hin last (List.mem_singleton_self last)
  · exact (List.mem_singleton.mp hin).le

theorem head_le (hsorted : sorted.Pairwise (· ≤ ·)) (hfirst : sorted.head? = some first)
    {value : ℚ} (h : value ∈ sorted) : first ≤ value := by
  obtain ⟨rest, rfl⟩ := List.head?_eq_some_iff.mp hfirst
  rcases List.mem_cons.mp h with rfl | hin
  · exact le_refl _
  · exact (List.pairwise_cons.mp hsorted).1 value hin

theorem sampleAt_mono (hsorted : sorted.Pairwise (· ≤ ·)) (hlast : sorted.getLast? = some last) :
    Monotone (sampleAt sorted last) := by
  intro i j hij
  rw [sampleAt, sampleAt]
  by_cases hj : j < sorted.length
  · rw [List.getElem?_eq_getElem hj, List.getElem?_eq_getElem (hij.trans_lt hj)]
    rcases hij.eq_or_lt with rfl | hlt
    · exact le_refl _
    · exact List.pairwise_iff_getElem.mp hsorted i j (hij.trans_lt hj) hj hlt
  · rw [List.getElem?_eq_none (Nat.not_lt.mp hj)]
    cases hi : sorted[i]? with
    | none => exact le_refl _
    | some value => exact le_getLast hsorted hlast (List.mem_of_getElem? hi)

-- The place of a percentile in the sorted samples.
def place (sorted : List ℚ) (p : ℚ) : ℚ := (sorted.length - 1 : ℕ) * p

theorem place_nonneg (hp : 0 ≤ p) : 0 ≤ place sorted p := mul_nonneg (Nat.cast_nonneg _) hp

theorem place_le (hp : p ≤ 1) : place sorted p ≤ (sorted.length - 1 : ℕ) :=
  mul_le_of_le_one_right (Nat.cast_nonneg _) hp

theorem place_mono (h : p ≤ q) : place sorted p ≤ place sorted q :=
  mul_le_mul_of_nonneg_left h (Nat.cast_nonneg _)

theorem place_in_range (hne : sorted ≠ []) (hp : p ≤ 1) :
    ⌊place sorted p⌋₊ < sorted.length ∧ ⌈place sorted p⌉₊ < sorted.length := by
  have hpos := List.length_pos_iff.mpr hne
  have hceil : ⌈place sorted p⌉₊ ≤ sorted.length - 1 := Nat.ceil_le.mpr (place_le hp)
  have hfloor := Nat.floor_le_ceil (place sorted p)
  omega

theorem percentileType7_some {F : Type} {arithmetic : Arithmetic F} {samples : List F}
    {probability lower upper : F}
    (hlower : samples[arithmetic.floor (arithmetic.mul (arithmetic.ofNat (samples.length - 1))
      probability)]? = some lower)
    (hupper : samples[arithmetic.ceil (arithmetic.mul (arithmetic.ofNat (samples.length - 1))
      probability)]? = some upper) :
    percentileType7 arithmetic samples probability =
      some (arithmetic.add lower (arithmetic.mul
        (arithmetic.sub (arithmetic.mul (arithmetic.ofNat (samples.length - 1)) probability)
          (arithmetic.ofNat (arithmetic.floor
            (arithmetic.mul (arithmetic.ofNat (samples.length - 1)) probability))))
        (arithmetic.sub upper lower))) := by
  rw [percentileType7, hlower, hupper]

theorem percentileType7_eq (hne : sorted ≠ []) (hp : p ≤ 1) :
    percentileType7 (rationalArithmetic sqrt) sorted p =
      some (between (sampleAt sorted last) (place sorted p)) := by
  obtain ⟨hfloor, hceil⟩ := place_in_range hne hp
  have hlower := List.getElem?_eq_getElem hfloor
  have hupper := List.getElem?_eq_getElem hceil
  rw [between, sampleAt, sampleAt, hlower, hupper]
  exact percentileType7_some hlower hupper

theorem sampleAt_zero (hne : sorted ≠ []) : sampleAt sorted last 0 = sorted.head hne := by
  rw [sampleAt, ← List.head?_eq_getElem?, List.head?_eq_some_head hne, Option.getD_some]

theorem sampleAt_last (hne : sorted ≠ []) :
    sampleAt sorted (sorted.getLast hne) (sorted.length - 1) = sorted.getLast hne := by
  rw [sampleAt, ← List.getLast?_eq_getElem?, List.getLast?_eq_some_getLast hne, Option.getD_some]

structure Percentile (sqrt : ℚ → ℚ) (sorted : List ℚ) (hne : sorted ≠ []) (p value : ℚ) : Prop where
  lower_in_range : ⌊place sorted p⌋₊ < sorted.length
  upper_in_range : ⌈place sorted p⌉₊ < sorted.length
  computed : percentileType7 (rationalArithmetic sqrt) sorted p = some value
  smallest_le : sorted.head hne ≤ value
  le_largest : value ≤ sorted.getLast hne

theorem percentile_between (hne : sorted ≠ []) (hsorted : sorted.Pairwise (· ≤ ·)) (hp : 0 ≤ p)
    (hp1 : p ≤ 1) :
    Percentile sqrt sorted hne p
      (between (sampleAt sorted (sorted.getLast hne)) (place sorted p)) := by
  have hmono := sampleAt_mono hsorted (List.getLast?_eq_some_getLast hne)
  obtain ⟨hlow, hhigh⟩ := between_mem hmono (place_nonneg hp) (place_le hp1)
  rw [sampleAt_zero hne] at hlow
  rw [sampleAt_last hne] at hhigh
  obtain ⟨hfloor, hceil⟩ := place_in_range hne hp1
  exact ⟨hfloor, hceil, percentileType7_eq hne hp1, hlow, hhigh⟩

theorem percentile_mono (hne : sorted ≠ []) (hsorted : sorted.Pairwise (· ≤ ·)) (hp : 0 ≤ p)
    (hpq : p ≤ q) :
    between (sampleAt sorted (sorted.getLast hne)) (place sorted p) ≤
      between (sampleAt sorted (sorted.getLast hne)) (place sorted q) :=
  between_mono (sampleAt_mono hsorted (List.getLast?_eq_some_getLast hne)) (place_nonneg hp)
    (place_mono hpq)

end Percentile

section Mean

variable {sqrt : ℚ → ℚ} {values : List ℚ}

-- In exact arithmetic the correction stays zero.
theorem foldl_compensatedStep (sum : ℚ) :
    values.foldl (compensatedStep (rationalArithmetic sqrt)) (sum, 0) = (sum + values.sum, 0) := by
  induction values generalizing sum with
  | nil => rw [List.foldl_nil, List.sum_nil, add_zero]
  | cons value values ih =>
    have hstep : compensatedStep (rationalArithmetic sqrt) (sum, 0) value = (sum + value, 0) := by
      change (sum + (value - 0), sum + (value - 0) - sum - (value - 0)) = _
      rw [sub_zero, add_sub_cancel_left, sub_self]
    rw [List.foldl_cons, hstep, ih, List.sum_cons, add_assoc]

theorem compensatedSum_eq : compensatedSum (rationalArithmetic sqrt) values = values.sum := by
  have hsum := @foldl_compensatedStep sqrt values 0
  rw [zero_add] at hsum
  exact congrArg Prod.fst hsum

theorem mean_between (hne : values ≠ []) (hsorted : values.Pairwise (· ≤ ·)) :
    values.head hne ≤ values.sum / values.length ∧
      values.sum / values.length ≤ values.getLast hne := by
  have hpos : (0 : ℚ) < values.length := Nat.cast_pos.mpr (List.length_pos_iff.mpr hne)
  have hlow := List.card_nsmul_le_sum values (values.head hne) fun value hvalue =>
    head_le hsorted (List.head?_eq_some_head hne) hvalue
  have hhigh := List.sum_le_card_nsmul values (values.getLast hne) fun value hvalue =>
    le_getLast hsorted (List.getLast?_eq_some_getLast hne) hvalue
  rw [nsmul_eq_mul] at hlow hhigh
  constructor
  · rwa [le_div_iff₀ hpos, mul_comm]
  · rwa [div_le_iff₀ hpos, mul_comm]

end Mean

section Summary

theorem p50_nonneg : (0 : ℚ) ≤ 50 / 100 := by norm_num

theorem p50_le_p95 : (50 / 100 : ℚ) ≤ 95 / 100 := by norm_num

theorem p95_le_p99 : (95 / 100 : ℚ) ≤ 99 / 100 := by norm_num

theorem p99_le_one : (99 / 100 : ℚ) ≤ 1 := by norm_num

variable {sqrt : ℚ → ℚ} {samples : List ℚ} {total : Nat}

theorem sortSamples_pairwise : (sortSamples (rationalArithmetic sqrt) samples).Pairwise (· ≤ ·) := by
  have htotal : Std.Total fun left right => (rationalArithmetic sqrt).le left right = true :=
    ⟨fun left right => (le_total left right).imp decide_eq_true decide_eq_true⟩
  have htrans : IsTrans ℚ fun left right => (rationalArithmetic sqrt).le left right = true :=
    ⟨fun _ _ _ hab hbc => decide_eq_true ((of_decide_eq_true hab).trans (of_decide_eq_true hbc))⟩
  exact (List.pairwise_insertionSort _ samples).imp of_decide_eq_true

theorem sortSamples_ne_nil (h : samples ≠ []) :
    sortSamples (rationalArithmetic sqrt) samples ≠ [] :=
  fun hempty => h (List.length_eq_zero_iff.mp ((List.perm_insertionSort _ samples).length_eq.symm.trans
    (congrArg List.length hempty)))

structure Summarises {F : Type} (arithmetic : Arithmetic F) (sorted : List F)
    (summary : NumericSummary F) : Prop where
  minimum : sorted.head? = some summary.minimum
  maximum : sorted.getLast? = some summary.maximum
  mean : summary.mean =
    arithmetic.div (compensatedSum arithmetic sorted) (arithmetic.ofNat sorted.length)
  p50 : percentileType7 arithmetic sorted arithmetic.p50 = some summary.p50
  p95 : percentileType7 arithmetic sorted arithmetic.p95 = some summary.p95
  p99 : percentileType7 arithmetic sorted arithmetic.p99 = some summary.p99

theorem fromSamplesWithTotal_summarises {F : Type} {arithmetic : Arithmetic F} {samples : List F}
    {summary : NumericSummary F} (h : fromSamplesWithTotal arithmetic samples total = some summary) :
    Summarises arithmetic (sortSamples arithmetic samples) summary := by
  rw [fromSamplesWithTotal] at h
  split at h
  · cases h
  · simp only [Option.bind_eq_bind, Option.bind_eq_some_iff] at h
    obtain ⟨minimum, hminimum, maximum, hmaximum, p50, hp50, p95, hp95, p99, hp99, h⟩ := h
    obtain rfl := Option.some.inj h
    exact ⟨hminimum, hmaximum, rfl, hp50, hp95, hp99⟩

theorem fromSamplesWithTotal_exists (h : samples ≠ []) :
    ∃ summary, fromSamplesWithTotal (rationalArithmetic sqrt) samples total = some summary := by
  have hne := @sortSamples_ne_nil sqrt samples h
  have hcomputed : ∀ p : ℚ, p ≤ 1 → _ := fun p hp =>
    @percentileType7_eq sqrt _ ((sortSamples (rationalArithmetic sqrt) samples).getLast hne) p hne hp
  have hfinite : ¬ (samples.any fun value => !(rationalArithmetic sqrt).isFinite value) = true := by
    simp [rationalArithmetic]
  rw [fromSamplesWithTotal, if_neg hfinite]
  dsimp only
  rw [List.head?_eq_some_head hne,
    List.getLast?_eq_some_getLast hne, hcomputed (rationalArithmetic sqrt).p50 (p50_le_p95.trans (p95_le_p99.trans p99_le_one)),
    hcomputed (rationalArithmetic sqrt).p95 (p95_le_p99.trans p99_le_one),
    hcomputed (rationalArithmetic sqrt).p99 p99_le_one]
  exact ⟨_, rfl⟩

theorem ordered_of_summarises {sorted : List ℚ} {summary : NumericSummary ℚ}
    (hsorted : sorted.Pairwise (· ≤ ·)) (h : Summarises (rationalArithmetic sqrt) sorted summary) :
    Ordered summary := by
  have hne : sorted ≠ [] := fun hempty => by
    have hminimum := h.minimum
    rw [hempty] at hminimum
    cases hminimum
  have hminimum : sorted.head hne = summary.minimum :=
    Option.some.inj ((List.head?_eq_some_head hne).symm.trans h.minimum)
  have hmaximum : sorted.getLast hne = summary.maximum :=
    Option.some.inj ((List.getLast?_eq_some_getLast hne).symm.trans h.maximum)
  have hmean : summary.mean = sorted.sum / sorted.length := by
    rw [h.mean, compensatedSum_eq]
    rfl
  have hvalue : ∀ {p value : ℚ}, p ≤ 1 →
      percentileType7 (rationalArithmetic sqrt) sorted p = some value →
        between (sampleAt sorted (sorted.getLast hne)) (place sorted p) = value := fun hp hvalue =>
    Option.some.inj ((percentileType7_eq hne hp).symm.trans hvalue)
  have h99 := p99_le_one
  have h95 := p95_le_p99.trans h99
  have h50 := p50_le_p95.trans h95
  have hp50 := hvalue h50 h.p50
  have hp95 := hvalue h95 h.p95
  have hp99 := hvalue h99 h.p99
  have hlowest := (@percentile_between sqrt _ _ hne hsorted p50_nonneg h50).smallest_le
  have hhighest := (@percentile_between sqrt _ _ hne hsorted
    (p50_nonneg.trans (p50_le_p95.trans p95_le_p99)) h99).le_largest
  have hmiddle := percentile_mono hne hsorted p50_nonneg p50_le_p95
  have hupper := percentile_mono hne hsorted (p50_nonneg.trans p50_le_p95) p95_le_p99
  obtain ⟨hlow, hhigh⟩ := mean_between hne hsorted
  rw [hp50, hminimum] at hlowest
  rw [hp99, hmaximum] at hhighest
  rw [hp50, hp95] at hmiddle
  rw [hp95, hp99] at hupper
  rw [hminimum, ← hmean] at hlow
  rw [hmaximum, ← hmean] at hhigh
  exact ⟨hlowest, hmiddle, hupper, hhighest, hlow, hhigh⟩

end Summary

theorem percentiles_ordered (sqrt : ℚ → ℚ) :
    (∀ (sorted : List ℚ) (hne : sorted ≠ []) (p : ℚ), sorted.Pairwise (· ≤ ·) → 0 ≤ p → p ≤ 1 →
      ∃ value, Percentile sqrt sorted hne p value ∧
        ∀ q, p ≤ q → q ≤ 1 → ∃ value', Percentile sqrt sorted hne q value' ∧ value ≤ value') ∧
      ∀ (samples : List ℚ) (total : Nat), samples ≠ [] →
        ∃ summary, fromSamplesWithTotal (rationalArithmetic sqrt) samples total = some summary ∧
          Ordered summary := by
  constructor
  · intro sorted hne p hsorted hp hp1
    refine ⟨_, percentile_between hne hsorted hp hp1, fun q hq hq1 => ?_⟩
    exact ⟨_, percentile_between hne hsorted (hp.trans hq) hq1, percentile_mono hne hsorted hp hq⟩
  · intro samples total hsamples
    obtain ⟨summary, hsummary⟩ := @fromSamplesWithTotal_exists sqrt samples total hsamples
    exact ⟨summary, hsummary, ordered_of_summarises sortSamples_pairwise
      (fromSamplesWithTotal_summarises hsummary)⟩

theorem percentiles_ordered_three :
    (∃ value, Percentile id [1, 2, 4] (by decide) (1 / 2) value ∧
      ∃ value', Percentile id [1, 2, 4] (by decide) (3 / 4) value' ∧ value ≤ value') ∧
      ∃ summary, fromSamplesWithTotal (rationalArithmetic id) [4, 1, 2] 5 = some summary ∧
        Ordered summary := by
  obtain ⟨hpercentile, hsummary⟩ := percentiles_ordered id
  obtain ⟨value, hvalue, hmono⟩ :=
    hpercentile [1, 2, 4] (by decide) (1 / 2) (by decide +kernel) (by norm_num) (by norm_num)
  exact ⟨⟨value, hvalue, hmono (3 / 4) (by norm_num) (by norm_num)⟩,
    hsummary [4, 1, 2] 5 (by decide)⟩

end Evidence
