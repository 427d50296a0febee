import Mathlib.Algebra.Ring.Nat
import Mathlib.Data.List.Lex
import Mathlib.Data.Prod.Lex
import MeridianMcp.Effects.FinMap
import MeridianMcp.Search.TopK
import MeridianMcp.Text

namespace TracyTrace

open MeridianMcp Effects TopK

structure ZoneIdentity where
  name : Text
  file : Text
  line : Nat

def ZoneIdentity.key (identity : ZoneIdentity) : Text ×ₗ Text ×ₗ Nat :=
  toLex (identity.name, toLex (identity.file, identity.line))

theorem ZoneIdentity.key_injective : Function.Injective ZoneIdentity.key := by
  rintro ⟨name, file, line⟩ ⟨name', file', line'⟩ h
  obtain ⟨rfl, h⟩ := Prod.mk.inj (toLex.injective h)
  obtain ⟨rfl, rfl⟩ := Prod.mk.inj (toLex.injective h)
  rfl

instance : LinearOrder ZoneIdentity := LinearOrder.lift' ZoneIdentity.key ZoneIdentity.key_injective

-- The totals of a zone, as the sums of its durations that extract_trace checks: none is negative
-- and none exceeds the signed 64-bit range.
structure ZoneStatistics where
  identity : ZoneIdentity
  count : Nat
  inclusive : Nat
  self : Nat
  count_lt : count < 2 ^ 63
  inclusive_lt : inclusive < 2 ^ 63
  self_lt : self < 2 ^ 63

structure ZoneComparison where
  identity : ZoneIdentity
  inclusiveDelta : Int
  selfDelta : Int
  countDelta : Int

def ZoneComparison.magnitude (comparison : ZoneComparison) : Nat := comparison.inclusiveDelta.natAbs

structure ComparisonResult where
  items : List ZoneComparison
  truncated : Bool

-- An entry whose identity is already there is not taken.
def emplace (entries : FinMap ZoneIdentity ZoneStatistics) (zone : ZoneStatistics) :
    FinMap ZoneIdentity ZoneStatistics :=
  match entries.get zone.identity with
  | none => entries.insert zone.identity zone
  | some _ => entries

def byIdentity (zones : List ZoneStatistics) : FinMap ZoneIdentity ZoneStatistics :=
  zones.foldl emplace FinMap.empty

def delta (metric : ZoneStatistics → Nat) (before after : Option ZoneStatistics) : Int :=
  ((after.elim 0 metric : Nat) : Int) - (before.elim 0 metric : Nat)

def compareEntries (identity : ZoneIdentity) (before after : Option ZoneStatistics) : ZoneComparison where
  identity := identity
  inclusiveDelta := delta ZoneStatistics.inclusive before after
  selfDelta := delta ZoneStatistics.self before after
  countDelta := delta ZoneStatistics.count before after

def comparisons (baseline current : List ZoneStatistics) (minimumAbsoluteDelta : Int) :
    List ZoneComparison :=
  let baselineByIdentity := byIdentity baseline
  let currentByIdentity := byIdentity current
  let identities := (baselineByIdentity.keys ∪ currentByIdentity.keys).sort (· ≤ ·)
  identities.filterMap fun identity =>
    let comparison := compareEntries identity (baselineByIdentity.get identity)
      (currentByIdentity.get identity)
    if comparison.magnitude < minimumAbsoluteDelta then none else some comparison

def ZoneComparison.rank (comparison : ZoneComparison) : ℕᵒᵈ ×ₗ ZoneIdentity :=
  toLex (OrderDual.toDual comparison.magnitude, comparison.identity)

def compareZones (baseline current : List ZoneStatistics) (minimumAbsoluteDelta : Int)
    (limit : Nat) : ComparisonResult :=
  let output := sortBy ZoneComparison.rank (comparisons baseline current minimumAbsoluteDelta)
  { items := output.take limit
    truncated := limit < output.length }

-- The subtractions stay within the signed 64-bit range, also under the absolute value.
theorem delta_range {metric : ZoneStatistics → Nat} (hmetric : ∀ zone, metric zone < 2 ^ 63)
    (before after : Option ZoneStatistics) : (delta metric before after).natAbs < 2 ^ 63 := by
  have hbound : ∀ entry : Option ZoneStatistics, entry.elim 0 metric < 2 ^ 63 := by
    intro entry
    cases entry with
    | none => exact Nat.two_pow_pos 63
    | some zone => exact hmetric zone
  have hbefore := hbound before
  have hafter := hbound after
  rw [delta]
  omega

section Maps

variable {zones : List ZoneStatistics} {identity : ZoneIdentity}

theorem get_emplace (entries : FinMap ZoneIdentity ZoneStatistics) (zone : ZoneStatistics) :
    (emplace entries zone).get identity =
      (entries.get identity).or (if zone.identity = identity then some zone else none) := by
  rw [emplace]
  cases hentry : entries.get zone.identity with
  | none =>
    by_cases h : zone.identity = identity
    · subst h
      simp [hentry]
    · simp [Function.update_of_ne (Ne.symm h), h]
  | some other =>
    by_cases h : zone.identity = identity
    · subst h
      simp [hentry]
    · simp [h]

theorem get_foldl_emplace (entries : FinMap ZoneIdentity ZoneStatistics) :
    (zones.foldl emplace entries).get identity =
      (entries.get identity).or (zones.find? fun zone => zone.identity = identity) := by
  induction zones generalizing entries with
  | nil => simp
  | cons zone zones ih =>
    rw [List.foldl_cons, ih, get_emplace, List.find?_cons, Option.or_assoc]
    by_cases h : zone.identity = identity <;> simp [h]

theorem get_byIdentity : (byIdentity zones).get identity =
    zones.find? fun zone => zone.identity = identity := by
  rw [byIdentity, get_foldl_emplace]
  rfl

theorem mem_keys_byIdentity :
    identity ∈ (byIdentity zones).keys ↔ ∃ zone ∈ zones, zone.identity = identity := by
  rw [FinMap.mem_keys, get_byIdentity, ne_eq, List.find?_eq_none]
  simp

end Maps

-- The first entry of an identity against the first of the other side.
def compareFirst (baseline current : List ZoneStatistics) (identity : ZoneIdentity) : ZoneComparison :=
  compareEntries identity (baseline.find? fun zone => zone.identity = identity)
    (current.find? fun zone => zone.identity = identity)

def Occurs (baseline current : List ZoneStatistics) (identity : ZoneIdentity) : Prop :=
  ∃ zone ∈ baseline ++ current, zone.identity = identity

section Output

variable {baseline current : List ZoneStatistics} {minimum : Int} {limit : Nat}

theorem mem_comparisons (comparison : ZoneComparison) :
    comparison ∈ comparisons baseline current minimum ↔
      Occurs baseline current comparison.identity ∧
        comparison = compareFirst baseline current comparison.identity ∧
        minimum ≤ comparison.magnitude := by
  have hoccurs : ∀ identity, ((∃ zone ∈ baseline, zone.identity = identity) ∨
      ∃ zone ∈ current, zone.identity = identity) ↔ Occurs baseline current identity := by
    intro identity
    simp only [Occurs, List.mem_append, or_and_right, exists_or]
  simp only [comparisons, List.mem_filterMap, Finset.mem_sort, Finset.mem_union,
    mem_keys_byIdentity, get_byIdentity, hoccurs]
  constructor
  · rintro ⟨identity, hidentity, hsome⟩
    split at hsome
    · cases hsome
    · rename_i hminimum
      obtain rfl := Option.some.inj hsome
      exact ⟨hidentity, rfl, Int.not_lt.mp hminimum⟩
  · rintro ⟨hidentity, heq, hminimum⟩
    refine ⟨comparison.identity, hidentity, ?_⟩
    change (if ((compareFirst baseline current comparison.identity).magnitude : Int) < minimum then none
      else some (compareFirst baseline current comparison.identity)) = some comparison
    rw [← heq, if_neg (Int.not_lt.mpr hminimum)]

theorem nodup_comparisons : (comparisons baseline current minimum).Nodup := by
  refine (Finset.sort_nodup _ _).filterMap fun identity identity' comparison h h' => ?_
  have hidentity : ∀ {identity}, comparison ∈ (if
      ((compareEntries identity ((byIdentity baseline).get identity)
        ((byIdentity current).get identity)).magnitude : Int) < minimum then none
      else some (compareEntries identity ((byIdentity baseline).get identity)
        ((byIdentity current).get identity))) → comparison.identity = identity := by
    intro identity h
    split at h
    · cases h
    · cases h
      rfl
  exact (hidentity h).symm.trans (hidentity h')

-- The larger magnitude first, and the smaller identity among equals.
def Ranked (left right : ZoneComparison) : Prop :=
  right.magnitude < left.magnitude ∨
    left.magnitude = right.magnitude ∧ left.identity < right.identity

theorem rank_lt_iff {left right : ZoneComparison} : left.rank < right.rank ↔ Ranked left right := by
  rw [ZoneComparison.rank, ZoneComparison.rank, Prod.Lex.toLex_lt_toLex]
  exact Iff.rfl

theorem comparisons_ranked :
    (sortBy ZoneComparison.rank (comparisons baseline current minimum)).Pairwise Ranked := by
  have hperm := sortBy_perm ZoneComparison.rank (comparisons baseline current minimum)
  have hnodup := hperm.nodup_iff.mpr (@nodup_comparisons baseline current minimum)
  refine ((sortBy_pairwise ZoneComparison.rank _).and hnodup).imp_of_mem ?_
  rintro left right hleft hright ⟨hle, hne⟩
  refine rank_lt_iff.mp (lt_of_le_of_ne hle fun heq => hne ?_)
  have hidentity : left.identity = right.identity := (Prod.mk.inj (toLex.injective heq)).2
  have hleft' := ((mem_comparisons left).mp (hperm.mem_iff.mp hleft)).2.1
  have hright' := ((mem_comparisons right).mp (hperm.mem_iff.mp hright)).2.1
  rw [hleft', hright', hidentity]

end Output

section Swap

variable {baseline current : List ZoneStatistics} {minimum : Int} {limit : Nat}

def ZoneComparison.negated (comparison : ZoneComparison) : ZoneComparison where
  identity := comparison.identity
  inclusiveDelta := -comparison.inclusiveDelta
  selfDelta := -comparison.selfDelta
  countDelta := -comparison.countDelta

theorem compareEntries_swap (identity : ZoneIdentity) (before after : Option ZoneStatistics) :
    compareEntries identity after before = (compareEntries identity before after).negated := by
  simp only [compareEntries, ZoneComparison.negated, delta, Int.neg_sub]

theorem magnitude_negated (comparison : ZoneComparison) :
    comparison.negated.magnitude = comparison.magnitude := Int.natAbs_neg _

theorem comparisons_swap : comparisons current baseline minimum =
    (comparisons baseline current minimum).map ZoneComparison.negated := by
  simp only [comparisons]
  rw [List.map_filterMap, Finset.union_comm]
  refine List.filterMap_congr fun identity _ => ?_
  rw [compareEntries_swap, magnitude_negated]
  split <;> rfl

theorem compareZones_swap : compareZones current baseline minimum limit =
    ⟨(compareZones baseline current minimum limit).items.map ZoneComparison.negated,
      (compareZones baseline current minimum limit).truncated⟩ := by
  have hsorted : sortBy ZoneComparison.rank (comparisons current baseline minimum) =
      (sortBy ZoneComparison.rank (comparisons baseline current minimum)).map
        ZoneComparison.negated := by
    rw [comparisons_swap, sortBy, sortBy]
    refine (List.map_insertionSort _ _ ZoneComparison.negated _ fun left _ right _ => ?_).symm
    simp only [ZoneComparison.rank, magnitude_negated]
    rfl
  simp only [compareZones, hsorted, List.map_take, List.length_map]

end Swap

-- The sum over all entries of an identity, and over those behind the first.
def total (metric : ZoneStatistics → Nat) (zones : List ZoneStatistics) (identity : ZoneIdentity) : Nat :=
  ((zones.filter fun zone => zone.identity = identity).map metric).sum

def repeated (metric : ZoneStatistics → Nat) (zones : List ZoneStatistics)
    (identity : ZoneIdentity) : Nat :=
  (((zones.filter fun zone => zone.identity = identity).drop 1).map metric).sum

def compareTotals (baseline current : List ZoneStatistics) (identity : ZoneIdentity) :
    ZoneComparison where
  identity := identity
  inclusiveDelta := (total ZoneStatistics.inclusive current identity : Int) -
    total ZoneStatistics.inclusive baseline identity
  selfDelta := (total ZoneStatistics.self current identity : Int) -
    total ZoneStatistics.self baseline identity
  countDelta := (total ZoneStatistics.count current identity : Int) -
    total ZoneStatistics.count baseline identity

-- The first of the identities whose delta reaches the minimum, ranked, and whether there are more.
def Reports (baseline current : List ZoneStatistics) (minimum : Int) (limit : Nat)
    (result : ComparisonResult) : Prop :=
  ∃ ranking : List ZoneComparison, ranking.Pairwise Ranked ∧
    (∀ comparison, comparison ∈ ranking ↔ Occurs baseline current comparison.identity ∧
      comparison = compareTotals baseline current comparison.identity ∧
      minimum ≤ comparison.magnitude) ∧
    result.items = ranking.take limit ∧ result.truncated = decide (limit < ranking.length)

-- What a list repeats of an identity, the other repeats to the same sums.
def SameRepeats (baseline current : List ZoneStatistics) : Prop :=
  ∀ identity,
    repeated ZoneStatistics.inclusive baseline identity =
        repeated ZoneStatistics.inclusive current identity ∧
      repeated ZoneStatistics.self baseline identity =
        repeated ZoneStatistics.self current identity ∧
      repeated ZoneStatistics.count baseline identity =
        repeated ZoneStatistics.count current identity

section Totals

variable {baseline current : List ZoneStatistics}

theorem total_eq (metric : ZoneStatistics → Nat) (zones : List ZoneStatistics)
    (identity : ZoneIdentity) :
    total metric zones identity =
      (zones.find? fun zone => zone.identity = identity).elim 0 metric +
        repeated metric zones identity := by
  rw [total, repeated, ← List.head?_filter]
  cases zones.filter fun zone => zone.identity = identity with
  | nil => rfl
  | cons zone rest => rfl

theorem compareFirst_eq_iff (identity : ZoneIdentity) :
    compareFirst baseline current identity = compareTotals baseline current identity ↔
      repeated ZoneStatistics.inclusive baseline identity =
          repeated ZoneStatistics.inclusive current identity ∧
        repeated ZoneStatistics.self baseline identity =
          repeated ZoneStatistics.self current identity ∧
        repeated ZoneStatistics.count baseline identity =
          repeated ZoneStatistics.count current identity := by
  rw [compareFirst, compareEntries, compareTotals, ZoneComparison.mk.injEq]
  simp only [delta, total_eq, true_and]
  omega

theorem repeated_of_not_occurs (metric : ZoneStatistics → Nat) {zones : List ZoneStatistics}
    {identity : ZoneIdentity} (h : ∀ zone ∈ zones, zone.identity ≠ identity) :
    repeated metric zones identity = 0 := by
  have hnone : zones.filter (fun zone => zone.identity = identity) = [] :=
    List.filter_eq_nil_iff.mpr fun zone hzone => by simpa using h zone hzone
  rw [repeated, hnone]
  rfl

end Totals

theorem compareZones_reports_iff (baseline current : List ZoneStatistics) :
    (∀ minimum limit,
      Reports baseline current minimum limit (compareZones baseline current minimum limit) ∧
        compareZones current baseline minimum limit =
          ⟨(compareZones baseline current minimum limit).items.map ZoneComparison.negated,
            (compareZones baseline current minimum limit).truncated⟩) ↔
      SameRepeats baseline current := by
  constructor
  · intro h identity
    by_cases hoccurs : Occurs baseline current identity
    · obtain ⟨⟨ranking, -, hmem, hitems, htruncated⟩, -⟩ :=
        h 0 (comparisons baseline current 0).length
      have hlength := (sortBy_perm ZoneComparison.rank (comparisons baseline current 0)).length_eq
      have hfew : ranking.length ≤ (comparisons baseline current 0).length := by
        have hnot : ¬ (comparisons baseline current 0).length <
            (sortBy ZoneComparison.rank (comparisons baseline current 0)).length := by
          rw [hlength]
          exact Nat.lt_irrefl _
        exact Nat.not_lt.mp (of_decide_eq_false (htruncated.symm.trans (decide_eq_false hnot)))
      have hranking : sortBy ZoneComparison.rank (comparisons baseline current 0) = ranking := by
        rw [← List.take_of_length_le hfew, ← hitems]
        exact (List.take_of_length_le (Nat.le_of_eq hlength)).symm
      have htotals : compareTotals baseline current identity ∈ ranking :=
        (hmem _).mpr ⟨hoccurs, rfl, Int.natCast_nonneg _⟩
      rw [← hranking, (sortBy_perm _ _).mem_iff, mem_comparisons] at htotals
      exact (compareFirst_eq_iff identity).mp htotals.2.1.symm
    · have hnone : ∀ zones metric, (∀ zone ∈ zones, zone ∈ baseline ++ current) →
          repeated metric zones identity = 0 := by
        intro zones metric hsub
        exact repeated_of_not_occurs metric fun zone hzone heq => hoccurs ⟨zone, hsub zone hzone, heq⟩
      have hbaseline : ∀ zone ∈ baseline, zone ∈ baseline ++ current := fun _ => List.mem_append_left _
      have hcurrent : ∀ zone ∈ current, zone ∈ baseline ++ current := fun _ => List.mem_append_right _
      rw [hnone _ _ hbaseline, hnone _ _ hbaseline, hnone _ _ hbaseline, hnone _ _ hcurrent,
        hnone _ _ hcurrent, hnone _ _ hcurrent]
      exact ⟨rfl, rfl, rfl⟩
  · intro h minimum limit
    refine ⟨⟨sortBy ZoneComparison.rank (comparisons baseline current minimum), comparisons_ranked,
      fun comparison => ?_, rfl, rfl⟩, compareZones_swap⟩
    rw [(sortBy_perm _ _).mem_iff, mem_comparisons,
      (compareFirst_eq_iff comparison.identity).mpr (h comparison.identity)]

def sharedZone : ZoneStatistics :=
  ⟨⟨"/proc/a".toList, "a.dm".toList, 1⟩, 1, 10, 10, by decide, by decide, by decide⟩

-- Two source locations of one identity: the second is not taken.
theorem repeated_zone_lost :
    ¬ Reports [] [sharedZone, sharedZone] 0 1 (compareZones [] [sharedZone, sharedZone] 0 1) := by
  rintro ⟨ranking, -, hmem, hitems, htruncated⟩
  have hdeltas : (compareZones [] [sharedZone, sharedZone] 0 1).items.map (·.inclusiveDelta) = [10] := by
    decide +kernel
  have hnot : (compareZones [] [sharedZone, sharedZone] 0 1).truncated = false := by decide +kernel
  have hfew : ranking.length ≤ 1 :=
    Nat.not_lt.mp (of_decide_eq_false (htruncated.symm.trans hnot))
  have htotals : compareTotals [] [sharedZone, sharedZone] sharedZone.identity ∈ ranking :=
    (hmem _).mpr ⟨⟨sharedZone, by simp, rfl⟩, rfl, Int.natCast_nonneg _⟩
  rw [← List.take_of_length_le hfew, ← hitems] at htotals
  have hdelta := List.mem_map_of_mem (f := (·.inclusiveDelta)) htotals
  rw [hdeltas] at hdelta
  exact absurd hdelta (by decide +kernel)

end TracyTrace
