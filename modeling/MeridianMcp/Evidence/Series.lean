import MeridianMcp.Evidence.Comparison
import MeridianMcp.Fallible

namespace Evidence

open MeridianMcp Effects Fallible

variable {F : Type}

def contributions (runs : List (NormalizedRun F)) (key : Text) : List (Nat × SeriesTuple × F) :=
  runs.zipIdx.flatMap fun run =>
    ((runEntries run.1).filter fun entry => entry.1.key = key).map fun entry => (run.2, entry)

theorem map_contributions (runs : List (NormalizedRun F)) (key : Text) :
    (contributions runs key).map (fun contribution => contribution.2) =
      (runs.flatMap runEntries).filter fun entry => entry.1.key = key := by
  rw [contributions, List.map_flatMap, List.filter_flatMap]
  have hmap : ∀ run : NormalizedRun F × Nat,
      (((runEntries run.1).filter fun entry => entry.1.key = key).map
        fun entry => (run.2, entry)).map (fun contribution => contribution.2) =
      (runEntries run.1).filter fun entry => entry.1.key = key := by
    intro run
    rw [List.map_map]
    exact List.map_id _
  simp only [hmap]
  generalize 0 = n
  induction runs generalizing n with
  | nil => rfl
  | cons run runs ih => rw [List.zipIdx_cons, List.flatMap_cons, List.flatMap_cons, ih]

theorem mem_contributions {runs : List (NormalizedRun F)} {key : Text} {entry : SeriesTuple × F} :
    (∃ i, (i, entry) ∈ contributions runs key) ↔
      (∃ run ∈ runs, entry ∈ runEntries run) ∧ entry.1.key = key := by
  have hmem : (∃ i, (i, entry) ∈ contributions runs key) ↔
      entry ∈ (contributions runs key).map fun contribution => contribution.2 := by
    simp
  rw [hmem, map_contributions, List.mem_filter, List.mem_flatMap, decide_eq_true_eq]

theorem get_seriesOf (runs : List (NormalizedRun F)) (key : Text) :
    (seriesOf runs).get key =
      if contributions runs key = [] then none
      else some ((contributions runs key).map fun contribution => contribution.2.2) := by
  have hget := FinMap.get_foldl_pushAt (fun entry : SeriesTuple × F => entry.1.key) Prod.snd key
    (runs.flatMap runEntries) FinMap.empty
  have hvalues : (contributions runs key).map (fun contribution => contribution.2.2) =
      ((runs.flatMap runEntries).filter fun entry => entry.1.key = key).map Prod.snd := by
    rw [← map_contributions, List.map_map]
    rfl
  have hnil : contributions runs key = [] ↔
      (runs.flatMap runEntries).any (fun entry => entry.1.key = key) = false := by
    rw [← List.map_eq_nil_iff, map_contributions, List.filter_eq_nil_iff, List.any_eq_false]
  rw [hvalues]
  by_cases hcontributions : contributions runs key = []
  · rw [hnil.mp hcontributions] at hget
    rw [if_pos hcontributions]
    exact hget
  · have hany : (runs.flatMap runEntries).any (fun entry => entry.1.key = key) = true := by
      rwa [hnil, Bool.not_eq_false] at hcontributions
    rw [hany] at hget
    rw [if_neg hcontributions]
    exact hget

structure Compared (runs : List (NormalizedRun F)) (metrics : FinMap Text (ComparisonMetric F)) :
    Prop where
  values : ∀ key metric, metrics.get key = some metric →
    (seriesOf runs).get key = some metric.values ∧ metric.values.length = runs.length
  reported : ∀ key, (seriesOf runs).get key ≠ none → metrics.get key ≠ none

theorem compareSeries_ok {arithmetic : Arithmetic F} {count : Nat}
    {metrics out : FinMap Text (ComparisonMetric F)} {series : Text × List F}
    (h : compareSeries arithmetic count metrics series = .ok out) :
    series.2.length = count ∧ ∃ metric, metric.values = series.2 ∧
      out = metrics.insert series.1 metric := by
  unfold compareSeries at h
  split at h
  · cases h
  · rename_i hlen
    split at h
    · cases h
    · cases h
      exact ⟨not_not.mp hlen, _, rfl, rfl⟩

theorem foldlM_compareSeries {arithmetic : Arithmetic F} {count : Nat}
    {metrics out : FinMap Text (ComparisonMetric F)} {series : List (Text × List F)}
    (h : series.foldlM (compareSeries arithmetic count) metrics = .ok out) :
    (∀ key metric, out.get key = some metric → metrics.get key = some metric ∨
      ((key, metric.values) ∈ series ∧ metric.values.length = count)) ∧
    ∀ key, (metrics.get key ≠ none ∨ key ∈ series.map Prod.fst) → out.get key ≠ none := by
  induction series generalizing metrics with
  | nil =>
    cases h
    exact ⟨fun _ _ h => Or.inl h, by simp⟩
  | cons entry series ih =>
    obtain ⟨next, hnext, hrest⟩ := foldlM_cons_ok h
    obtain ⟨hlen, metric, hvalues, rfl⟩ := compareSeries_ok hnext
    obtain ⟨hsound, hcomplete⟩ := ih hrest
    constructor
    · intro key found hfound
      rcases hsound key found hfound with hold | ⟨hmem, hcount⟩
      · rw [FinMap.get_insert] at hold
        by_cases hkey : key = entry.1
        · subst hkey
          rw [Function.update_self] at hold
          cases hold
          rw [hvalues]
          exact Or.inr ⟨List.mem_cons_self .., hlen⟩
        · rw [Function.update_of_ne hkey] at hold
          exact Or.inl hold
      · exact Or.inr ⟨List.mem_cons_of_mem _ hmem, hcount⟩
    · intro key hkey
      apply hcomplete
      by_cases heq : key = entry.1
      · subst heq
        left
        rw [FinMap.get_insert, Function.update_self]
        exact Option.some_ne_none _
      · rcases hkey with hold | hmem
        · left
          rwa [FinMap.get_insert, Function.update_of_ne heq]
        · right
          exact (List.mem_cons.mp hmem).resolve_left heq

theorem compareNormalized_compared {arithmetic : Arithmetic F} {runs : List (NormalizedRun F)}
    {result : ComparisonResult F} (h : compareNormalized arithmetic runs = .ok result) :
    Compared runs result.metrics := by
  unfold compareNormalized at h
  split at h
  · cases h
  · split at h
    · cases h
    · rename_i first rest _
      split at h
      · cases h
      · split at h
        · cases h
        · cases hfold : (seriesOf (first :: rest)).entries.foldlM
              (compareSeries arithmetic (first :: rest).length) FinMap.empty with
          | error e =>
            rw [hfold] at h
            cases h
          | ok metrics =>
            rw [hfold] at h
            cases h
            obtain ⟨hsound, hcomplete⟩ := foldlM_compareSeries hfold
            constructor
            · intro key metric hget
              rcases hsound key metric hget with hold | ⟨hmem, hlen⟩
              · cases hold
              · exact ⟨FinMap.mem_entries.mp hmem, hlen⟩
            · intro key hkey
              obtain ⟨values, hvalues⟩ := Option.ne_none_iff_exists'.mp hkey
              exact hcomplete key (Or.inr (List.mem_map.mpr
                ⟨(key, values), FinMap.mem_entries.mpr hvalues, rfl⟩))

theorem length_flatMap_le {α β : Type} {f : α → List β} {l : List α}
    (h : ∀ a ∈ l, (f a).length ≤ 1) : (l.flatMap f).length ≤ l.length := by
  induction l with
  | nil => simp
  | cons a l ih =>
    have ha := h a (List.mem_cons_self ..)
    have hl := ih fun b hb => h b (List.mem_cons_of_mem _ hb)
    simp only [List.flatMap_cons, List.length_append, List.length_cons]
    omega

theorem length_eq_one_of_flatMap {α β : Type} {f : α → List β} {l : List α}
    (h : ∀ a ∈ l, (f a).length ≤ 1) (hlen : (l.flatMap f).length = l.length) :
    ∀ a ∈ l, (f a).length = 1 := by
  induction l with
  | nil => simp
  | cons a l ih =>
    have ha := h a (List.mem_cons_self ..)
    have hrest := length_flatMap_le fun b hb => h b (List.mem_cons_of_mem a hb)
    simp only [List.flatMap_cons, List.length_append, List.length_cons] at hlen
    intro b hb
    rcases List.mem_cons.mp hb with rfl | hb
    · omega
    · exact ih (fun c hc => h c (List.mem_cons_of_mem a hc)) (by omega) b hb

end Evidence
