import MeridianMcp.Evidence.Series

namespace Evidence

open MeridianMcp Effects Fallible

variable {F : Type} {runs : List (NormalizedRun F)} {metrics : FinMap Text (ComparisonMetric F)}

-- One mean for each run, in the order of the runs, and all of one tuple.
def SeriesOfTuple (runs : List (NormalizedRun F)) (key : Text) (tuple : SeriesTuple) : Prop :=
  (contributions runs key).map (fun contribution => (contribution.1, contribution.2.1)) =
    (List.range runs.length).map fun i => (i, tuple)

structure Integrity (runs : List (NormalizedRun F)) (metrics : FinMap Text (ComparisonMetric F)) :
    Prop where
  series : ∀ key metric, metrics.get key = some metric →
    metric.values = (contributions runs key).map (fun contribution => contribution.2.2) ∧
      ∃ tuple, SeriesOfTuple runs key tuple
  represented : ∀ run ∈ runs, ∀ entry ∈ runEntries run,
    ∃! key, metrics.get key ≠ none ∧ SeriesOfTuple runs key entry.1

def TuplesNodup (run : NormalizedRun F) : Prop := ((runEntries run).map Prod.fst).Nodup

def KeysSeparate (runs : List (NormalizedRun F)) : Prop :=
  ∀ run ∈ runs, ∀ entry ∈ runEntries run, ∀ run' ∈ runs, ∀ entry' ∈ runEntries run',
    entry.1.key = entry'.1.key → entry.1 = entry'.1

theorem tuple_of_seriesOfTuple {key : Text} {tuple : SeriesTuple}
    (h : SeriesOfTuple runs key tuple) {run : NormalizedRun F} (hrun : run ∈ runs)
    {entry : SeriesTuple × F} (hentry : entry ∈ runEntries run) (hkey : entry.1.key = key) :
    entry.1 = tuple := by
  obtain ⟨i, hi⟩ := mem_contributions.mpr ⟨⟨run, hrun, hentry⟩, hkey⟩
  have hmem := List.mem_map_of_mem (f := fun contribution : Nat × SeriesTuple × F =>
    (contribution.1, contribution.2.1)) hi
  rw [show _ = _ from h, List.mem_map] at hmem
  obtain ⟨_, -, heq⟩ := hmem
  exact (congrArg Prod.snd heq).symm

theorem key_of_seriesOfTuple {key : Text} {tuple : SeriesTuple} (hruns : runs ≠ [])
    (h : SeriesOfTuple runs key tuple) : tuple.key = key := by
  have hpos : 0 < runs.length := List.length_pos_iff.mpr hruns
  have hmem : (0, tuple) ∈ (List.range runs.length).map fun i => (i, tuple) :=
    List.mem_map.mpr ⟨0, List.mem_range.mpr hpos, rfl⟩
  rw [← show _ = _ from h, List.mem_map] at hmem
  obtain ⟨contribution, hcontribution, heq⟩ := hmem
  have hkey := (mem_contributions.mp ⟨contribution.1, hcontribution⟩).2
  have htuple : contribution.2.1 = tuple := congrArg Prod.snd heq
  rwa [htuple] at hkey

theorem reported_of_mem (hcompared : Compared runs metrics) {run : NormalizedRun F}
    (hrun : run ∈ runs) {entry : SeriesTuple × F} (hentry : entry ∈ runEntries run) :
    metrics.get entry.1.key ≠ none := by
  obtain ⟨i, hi⟩ := mem_contributions.mpr ⟨⟨run, hrun, hentry⟩, rfl⟩
  apply hcompared.reported
  rw [get_seriesOf, if_neg (List.ne_nil_of_mem hi)]
  exact Option.some_ne_none _

theorem values_of_reported (hcompared : Compared runs metrics) {key : Text}
    {metric : ComparisonMetric F} (h : metrics.get key = some metric) :
    metric.values = (contributions runs key).map (fun contribution => contribution.2.2) ∧
      (contributions runs key).length = runs.length := by
  obtain ⟨hget, hlen⟩ := hcompared.values key metric h
  rw [get_seriesOf] at hget
  split at hget
  · cases hget
  · have hvalues := Option.some.inj hget
    rw [← hvalues, List.length_map] at hlen
    exact ⟨hvalues.symm, hlen⟩

theorem filter_length_le_one {run : NormalizedRun F} (hnodup : TuplesNodup run) {key : Text}
    {tuple : SeriesTuple}
    (hsame : ∀ entry ∈ runEntries run, entry.1.key = key → entry.1 = tuple) :
    ((runEntries run).filter fun entry => entry.1.key = key).length ≤ 1 := by
  have hsub : ((runEntries run).filter fun entry => entry.1.key = key).map Prod.fst ⊆ [tuple] := by
    intro found hfound
    obtain ⟨entry, hentry, rfl⟩ := List.mem_map.mp hfound
    rw [List.mem_filter, decide_eq_true_eq] at hentry
    exact List.mem_singleton.mpr (hsame entry hentry.1 hentry.2)
  have hnodup' : (((runEntries run).filter fun entry => entry.1.key = key).map Prod.fst).Nodup :=
    hnodup.sublist (List.filter_sublist.map Prod.fst)
  simpa using (List.subperm_of_subset hnodup' hsub).length_le

theorem seriesOfTuple_of_length {key : Text} {tuple : SeriesTuple}
    (hnodup : ∀ run ∈ runs, TuplesNodup run)
    (hsame : ∀ run ∈ runs, ∀ entry ∈ runEntries run, entry.1.key = key → entry.1 = tuple)
    (hlen : (contributions runs key).length = runs.length) : SeriesOfTuple runs key tuple := by
  have hshort : ∀ run ∈ runs.zipIdx, (((runEntries run.1).filter fun entry =>
      entry.1.key = key).map fun entry => (run.2, entry)).length ≤ 1 := by
    intro run hrun
    have hmem := List.fst_mem_of_mem_zipIdx hrun
    rw [List.length_map]
    exact filter_length_le_one (hnodup _ hmem) (hsame _ hmem)
  have hone := length_eq_one_of_flatMap hshort (by rw [List.length_zipIdx]; exact hlen)
  have hsingle : ∀ run ∈ runs.zipIdx, (((runEntries run.1).filter fun entry =>
      entry.1.key = key).map fun entry => (run.2, entry)).map
        (fun contribution => (contribution.1, contribution.2.1)) = [(run.2, tuple)] := by
    intro run hrun
    obtain ⟨contribution, hcontribution⟩ := List.length_eq_one_iff.mp (hone run hrun)
    have hmem : contribution ∈ ((runEntries run.1).filter fun entry =>
        entry.1.key = key).map fun entry => (run.2, entry) := by
      rw [hcontribution]
      exact List.mem_singleton_self _
    obtain ⟨entry, hentry, rfl⟩ := List.mem_map.mp hmem
    rw [List.mem_filter, decide_eq_true_eq] at hentry
    rw [hcontribution, List.map_singleton,
      hsame _ (List.fst_mem_of_mem_zipIdx hrun) entry hentry.1 hentry.2]
  rw [SeriesOfTuple, contributions, List.map_flatMap, List.flatMap_congr hsingle,
    ← List.map_eq_flatMap, List.range_eq_range', ← List.zipIdx_map_snd 0 runs, List.map_map]
  rfl

theorem integrity_iff_keysSeparate (hcompared : Compared runs metrics) (hruns : runs ≠ [])
    (hnodup : ∀ run ∈ runs, TuplesNodup run) : Integrity runs metrics ↔ KeysSeparate runs := by
  constructor
  · intro hintegrity run hrun entry hentry run' hrun' entry' hentry' hkey
    obtain ⟨metric, hmetric⟩ :=
      Option.ne_none_iff_exists'.mp (reported_of_mem hcompared hrun hentry)
    obtain ⟨-, tuple, htuple⟩ := hintegrity.series _ _ hmetric
    rw [tuple_of_seriesOfTuple htuple hrun hentry rfl,
      tuple_of_seriesOfTuple htuple hrun' hentry' hkey.symm]
  · intro hseparate
    have hseries : ∀ key metric, metrics.get key = some metric →
        ∃ tuple, SeriesOfTuple runs key tuple := by
      intro key metric hmetric
      obtain ⟨-, hlen⟩ := values_of_reported hcompared hmetric
      have hpos : 0 < (contributions runs key).length := by
        rw [hlen]
        exact List.length_pos_iff.mpr hruns
      obtain ⟨first, hfirst⟩ := List.exists_mem_of_length_pos hpos
      obtain ⟨⟨run, hrun, hentry⟩, hkey⟩ := mem_contributions.mp ⟨first.1, hfirst⟩
      refine ⟨first.2.1, seriesOfTuple_of_length hnodup ?_ hlen⟩
      intro run' hrun' entry' hentry' hkey'
      exact hseparate run' hrun' entry' hentry' run hrun _ hentry (hkey'.trans hkey.symm)
    constructor
    · intro key metric hmetric
      exact ⟨(values_of_reported hcompared hmetric).1, hseries key metric hmetric⟩
    · intro run hrun entry hentry
      have hreported := reported_of_mem hcompared hrun hentry
      obtain ⟨metric, hmetric⟩ := Option.ne_none_iff_exists'.mp hreported
      obtain ⟨tuple, htuple⟩ := hseries _ _ hmetric
      obtain rfl := tuple_of_seriesOfTuple htuple hrun hentry rfl
      refine ⟨entry.1.key, ⟨hreported, htuple⟩, ?_⟩
      rintro key ⟨-, hkey⟩
      exact (key_of_seriesOfTuple hruns hkey).symm

end Evidence
