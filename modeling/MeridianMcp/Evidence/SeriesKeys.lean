import Mathlib.Data.Multiset.Dedup
import MeridianMcp.Evidence.Integrity

namespace Evidence

open MeridianMcp Effects Fallible

variable {F : Type} {context : NativeEvidenceContext F}

theorem bar_split {a b x y : Text} (ha : '|' ∉ a) (hb : '|' ∉ b)
    (h : a ++ '|' :: x = b ++ '|' :: y) : a = b ∧ x = y := by
  induction a generalizing b with
  | nil =>
    cases b with
    | nil => exact ⟨rfl, (List.cons.inj h).2⟩
    | cons c b =>
      rw [List.nil_append, List.cons_append] at h
      exact absurd (List.mem_cons.mpr (Or.inl (List.cons.inj h).1)) hb
  | cons c a ih =>
    cases b with
    | nil =>
      rw [List.nil_append, List.cons_append] at h
      exact absurd (List.mem_cons.mpr (Or.inl (List.cons.inj h).1.symm)) ha
    | cons d b =>
      rw [List.cons_append, List.cons_append] at h
      obtain ⟨rfl, htail⟩ := List.cons.inj h
      obtain ⟨rfl, hxy⟩ := ih (fun hm => ha (List.mem_cons_of_mem _ hm))
        (fun hm => hb (List.mem_cons_of_mem _ hm)) htail
      exact ⟨rfl, hxy⟩

theorem bar_not_mem_digits (n : Nat) : '|' ∉ Nat.toDigits 10 n := by
  intro h
  have hdigit := Nat.isDigit_of_mem_toDigits (by decide) le_rfl h
  exact absurd hdigit (by decide)

theorem digits_inj {m n : Nat} (h : Nat.toDigits 10 m = Nat.toDigits 10 n) : m = n := by
  have hm := @Nat.ofDigitChars_ten_toDigits m
  rw [h, Nat.ofDigitChars_ten_toDigits] at hm
  exact hm.symm

theorem bar_not_mem_debugName (semantics : EvidenceSemantics) : '|' ∉ semantics.debugName := by
  cases semantics <;> decide

theorem debugName_inj {semantics semantics' : EvidenceSemantics}
    (h : semantics.debugName = semantics'.debugName) : semantics = semantics' := by
  revert h
  cases semantics <;> cases semantics' <;> decide

def fullClassifications : List Text :=
  ["pre_game_cumulative".toList, "full_interval".toList, "full_event_stream".toList,
    "cumulative_snapshot".toList]

theorem fullClassification_mem (formats : Formats F) (phases : List PhaseInput)
    (artifact : ParsedArtifact F) :
    fullClassification formats phases artifact ∈ fullClassifications := by
  unfold fullClassification
  split
  · exact List.mem_cons_self ..
  · cases artifact.semantics <;> simp [fullClassifications]

-- A tuple without a phase is of a whole artifact, one with a phase of the records assigned to it.
def Shaped (classification : Text) (phase : Option Text) : Prop :=
  (phase = none ∧ classification ∈ fullClassifications) ∨
    (phase.isSome = true ∧ classification = assignedClassification)

theorem Shaped.bar_not_mem {classification : Text} {phase : Option Text}
    (h : Shaped classification phase) : '|' ∉ classification := by
  rcases h with ⟨-, h⟩ | ⟨-, rfl⟩
  · have hall : ∀ classification ∈ fullClassifications, '|' ∉ classification := by decide
    exact hall classification h
  · decide

theorem assigned_not_full : assignedClassification ∉ fullClassifications := by decide

theorem key_eq_iff {tuple tuple' : SeriesTuple} (h : Shaped tuple.classification tuple.phase)
    (h' : Shaped tuple'.classification tuple'.phase) :
    tuple.key = tuple'.key ↔ tuple.artifact = tuple'.artifact ∧
      tuple.semantics = tuple'.semantics ∧ tuple.classification = tuple'.classification ∧
      tuple.phase.getD "unassigned".toList ++ '|' :: tuple.metric =
        tuple'.phase.getD "unassigned".toList ++ '|' :: tuple'.metric := by
  constructor
  · intro hkey
    obtain ⟨hartifact, hkey⟩ := bar_split (bar_not_mem_digits _) (bar_not_mem_digits _) hkey
    obtain ⟨hsemantics, hkey⟩ :=
      bar_split (bar_not_mem_debugName _) (bar_not_mem_debugName _) hkey
    obtain ⟨hclass, hkey⟩ := bar_split h.bar_not_mem h'.bar_not_mem hkey
    exact ⟨digits_inj hartifact, debugName_inj hsemantics, hclass, hkey⟩
  · rintro ⟨hartifact, hsemantics, hclass, hrest⟩
    rw [SeriesTuple.key, SeriesTuple.key, hartifact, hsemantics, hclass, hrest]

theorem summarizeRecords_tuple {artifact : Nat} {semantics : EvidenceSemantics}
    {classification : Text} {phase : Option Text} {records : List (EvidenceRecord F)}
    {counts : RecordCounts} {unavailable : List Text} {dataset : DatasetSummary F}
    (h : summarizeRecords context artifact semantics classification phase records counts
      unavailable = .ok dataset) :
    dataset.artifact = artifact ∧ dataset.classification = classification ∧
      dataset.assignedPhase = phase := by
  unfold summarizeRecords at h
  cases hgroups : records.foldlM (countGroup context) FinMap.empty with
  | error e =>
    rw [hgroups] at h
    cases h
  | ok groups =>
    rw [hgroups] at h
    cases h
    exact ⟨rfl, rfl, rfl⟩

theorem artifactDatasets_tuples {phases : List PhaseInput}
    (hphases : (phases.map PhaseInput.id).Nodup) {artifact : ParsedArtifact F × Nat}
    {datasets : List (DatasetSummary F)}
    (h : artifactDatasets context phases artifact = .ok datasets) :
    (datasets.map DatasetSummary.assignedPhase).Nodup ∧ ∀ dataset ∈ datasets,
      dataset.artifact = artifact.2 ∧ Shaped dataset.classification dataset.assignedPhase := by
  unfold artifactDatasets at h
  cases hassigned : artifact.1.records.mapM
      (fun record => assign context.formats record phases) with
  | error e =>
    rw [hassigned] at h
    cases h
  | ok assigned =>
    rw [hassigned] at h
    dsimp only [bind, Except.bind] at h
    split at h
    · cases h
    · rename_i full hfull
      split at h
      · cases h
      · rename_i perPhase hperPhase
        cases h
        obtain ⟨hartifact, hclass, hphase⟩ := summarizeRecords_tuple hfull
        have hall := forall₂_of_mapM_ok hperPhase
        have hids : perPhase.map DatasetSummary.assignedPhase = _ :=
          map_eq_of_forall₂ (f := fun phase : PhaseInput => some phase.id) hall
            fun _ _ hok => (summarizeRecords_tuple hok).2.2
        constructor
        · rw [List.map_cons, hphase, hids, List.nodup_cons]
          refine ⟨by simp, ?_⟩
          have hmap : ∀ l : List PhaseInput, l.map (fun phase => some phase.id) =
              (l.map PhaseInput.id).map some := fun l => (List.map_map ..).symm
          rw [hmap]
          refine List.Nodup.map (Option.some_injective _) ?_
          split
          · exact List.nodup_nil
          · exact hphases.sublist (List.filter_sublist.map _)
        · intro dataset hdataset
          rcases List.mem_cons.mp hdataset with rfl | hdataset
          · rw [hphase, hclass]
            exact ⟨hartifact, Or.inl ⟨rfl, fullClassification_mem _ _ _⟩⟩
          · obtain ⟨phase, -, hok⟩ := exists_of_mem_right hall hdataset
            obtain ⟨hartifact, hclass, hphase⟩ := summarizeRecords_tuple hok
            rw [hphase, hclass]
            exact ⟨hartifact, Or.inr ⟨rfl, rfl⟩⟩

theorem uniquePhases_nodup {phases : List PhaseInput} (h : uniquePhases phases = .ok ()) :
    (phases.map PhaseInput.id).Nodup := by
  unfold uniquePhases at h
  split at h
  · cases h
  · rename_i hcard
    rw [not_not, ← List.length_map (f := PhaseInput.id)] at hcard
    exact Multiset.toFinset_card_eq_card_iff_nodup.mp hcard

theorem validateRequest_phases {formats : Formats F} {request : NativeEvidenceRequest}
    (h : validateRequest formats request = .ok ()) : (request.phases.map PhaseInput.id).Nodup := by
  unfold validateRequest at h
  split at h
  · split at h <;> cases h
  · split at h
    · cases h
    · obtain ⟨_, -, h⟩ := bind_ok h
      obtain ⟨_, hunique, -⟩ := bind_ok h
      exact uniquePhases_nodup hunique

theorem datasets_tuples {phases : List PhaseInput} (hphases : (phases.map PhaseInput.id).Nodup)
    {parsed : List (ParsedArtifact F)} {n : Nat} {datasets : List (List (DatasetSummary F))}
    (h : List.Forall₂ (fun artifact out => artifactDatasets context phases artifact = .ok out)
      (parsed.zipIdx n) datasets) :
    (datasets.flatten.map fun dataset => (dataset.artifact, dataset.assignedPhase)).Nodup ∧
      ∀ dataset ∈ datasets.flatten, n ≤ dataset.artifact ∧
        Shaped dataset.classification dataset.assignedPhase := by
  induction parsed generalizing n datasets with
  | nil =>
    cases h
    simp
  | cons artifact parsed ih =>
    rw [List.zipIdx_cons] at h
    cases h with
    | @cons _ head _ rest hhead htail =>
      obtain ⟨hnodup, hall⟩ := artifactDatasets_tuples hphases hhead
      obtain ⟨hrest, hrestAll⟩ := ih htail
      rw [List.flatten_cons]
      constructor
      · rw [List.map_append, List.nodup_append]
        refine ⟨?_, hrest, ?_⟩
        · have hpairs : head.map (fun dataset => (dataset.artifact, dataset.assignedPhase)) =
              (head.map DatasetSummary.assignedPhase).map fun phase => (n, phase) := by
            rw [List.map_map]
            exact List.map_congr_left fun dataset hdataset =>
              Prod.ext (hall dataset hdataset).1 rfl
          rw [hpairs]
          exact hnodup.map fun _ _ heq => (Prod.mk.inj heq).2
        · intro pair hpair pair' hpair' heq
          obtain ⟨dataset, hdataset, rfl⟩ := List.mem_map.mp hpair
          obtain ⟨dataset', hdataset', rfl⟩ := List.mem_map.mp hpair'
          have hartifact := (Prod.mk.inj heq).1
          have hle := (hrestAll dataset' hdataset').1
          rw [(hall dataset hdataset).1] at hartifact
          omega
      · intro dataset hdataset
        rcases List.mem_append.mp hdataset with hdataset | hdataset
        · exact ⟨(hall dataset hdataset).1.ge, (hall dataset hdataset).2⟩
        · exact ⟨Nat.le_of_succ_le (hrestAll dataset hdataset).1, (hrestAll dataset hdataset).2⟩

theorem datasetEntries_metrics_nodup (dataset : DatasetSummary F) :
    ((datasetEntries dataset).map Prod.fst).Nodup := by
  have hkeys := FinMap.entries_keys_nodup dataset.metrics
  rw [List.Nodup, List.pairwise_map] at hkeys
  rw [datasetEntries, List.map_map, List.Nodup, List.pairwise_map]
  exact hkeys.imp fun hne heq => hne (SeriesTuple.mk.inj heq).2.2.2.2

theorem summarizeRun_tuples {request : NativeEvidenceRequest} {run : NormalizedRun F}
    (h : summarizeRun context request = .ok run) :
    TuplesNodup run ∧ ∀ entry ∈ runEntries run, Shaped entry.1.classification entry.1.phase := by
  unfold summarizeRun at h
  obtain ⟨_, hvalid, h⟩ := bind_ok h
  obtain ⟨gathered, -, h⟩ := bind_ok h
  obtain ⟨identity, -, h⟩ := bind_ok h
  obtain ⟨datasets, hdatasets, h⟩ := bind_ok h
  cases h
  obtain ⟨hnodup, hall⟩ :=
    datasets_tuples (validateRequest_phases hvalid) (forall₂_of_mapM_ok hdatasets)
  constructor
  · rw [TuplesNodup, runEntries, List.map_flatMap, List.nodup_flatMap]
    refine ⟨fun dataset _ => datasetEntries_metrics_nodup dataset, ?_⟩
    rw [List.Nodup, List.pairwise_map] at hnodup
    refine hnodup.imp fun {dataset dataset'} hne => ?_
    intro tuple htuple htuple'
    obtain ⟨entry, hentry, rfl⟩ := List.mem_map.mp htuple
    obtain ⟨entry', hentry', heq⟩ := List.mem_map.mp htuple'
    obtain ⟨metric, -, rfl⟩ := List.mem_map.mp hentry
    obtain ⟨metric', -, rfl⟩ := List.mem_map.mp hentry'
    obtain ⟨hartifact, -, -, hphase, -⟩ := SeriesTuple.mk.inj heq
    exact hne (by rw [hartifact, hphase])
  · intro entry hentry
    obtain ⟨dataset, hdataset, hentry⟩ := List.mem_flatMap.mp hentry
    obtain ⟨metric, -, rfl⟩ := List.mem_map.mp hentry
    exact (hall dataset hdataset).2

end Evidence
