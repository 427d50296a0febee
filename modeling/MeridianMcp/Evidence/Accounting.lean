import Mathlib.Algebra.Ring.Nat
import Mathlib.Algebra.BigOperators.Group.List.Basic
import MeridianMcp.Evidence.Clash

namespace Evidence

open MeridianMcp Effects Fallible

section partition

variable {α : Type} [BEq α] [LawfulBEq α]

theorem sum_indicator {ids : List α} (hids : ids.Nodup) {a : α} (ha : a ∈ ids) :
    (ids.map fun b => if a == b then 1 else 0).sum = 1 := by
  induction ids with
  | nil => cases ha
  | cons b ids ih =>
    obtain ⟨hnew, hids⟩ := List.nodup_cons.mp hids
    rw [List.map_cons, List.sum_cons]
    by_cases hab : a = b
    · subst hab
      have hzero : ids.map (fun b => if a == b then 1 else 0) = ids.map fun _ => 0 :=
        List.map_congr_left fun b hb => by simpa using (ne_of_mem_of_not_mem hb hnew).symm
      rw [beq_self_eq_true, if_pos rfl, hzero]
      simp
    · have hrest := ih hids ((List.mem_cons.mp ha).resolve_left hab)
      rw [if_neg (by simpa using hab), hrest]

-- Every place is counted for the one value it carries, and for no other.
theorem sum_count {ids : List α} (hids : ids.Nodup) {places : List (Option α)}
    (h : ∀ a, some a ∈ places → a ∈ ids) :
    (ids.map fun a => places.count (some a)).sum = places.countP Option.isSome := by
  induction places with
  | nil => simp
  | cons place places ih =>
    have ih := ih fun a ha => h a (List.mem_cons_of_mem _ ha)
    simp only [List.count_cons, List.sum_map_add, ih, List.countP_cons]
    congr 1
    cases place with
    | none => simp
    | some a =>
      rw [Option.isSome_some, if_pos rfl]
      exact sum_indicator hids (h a (List.mem_cons_self ..))

end partition

variable {F : Type} {context : NativeEvidenceContext F} {phases : List PhaseInput}

theorem length_sortSamples (arithmetic : Arithmetic F) (samples : List F) :
    (sortSamples arithmetic samples).length = samples.length :=
  (List.perm_insertionSort _ _).length_eq

theorem fromSamplesWithTotal_counts {arithmetic : Arithmetic F} {samples : List F} {total : Nat}
    {summary : NumericSummary F} (h : fromSamplesWithTotal arithmetic samples total = some summary) :
    summary.count = samples.length ∧ summary.missingCount = total - samples.length := by
  unfold fromSamplesWithTotal at h
  split at h
  · cases h
  · simp only [Option.bind_eq_bind, Option.bind_eq_some_iff] at h
    obtain ⟨_, -, _, -, _, -, _, -, _, -, h⟩ := h
    cases h
    exact ⟨length_sortSamples _ _, congrArg (total - ·) (length_sortSamples _ _)⟩

theorem samples_le_records (records : List (EvidenceRecord F)) {name : Text} {values : List F}
    (h : ((records.flatMap fun record => record.metrics.entries).foldl pushSample FinMap.empty).get
      name = some values) : values.length ≤ records.length := by
  have hget := FinMap.get_foldl_pushAt Prod.fst Prod.snd name
    (records.flatMap fun record => record.metrics.entries) FinMap.empty
  have hone : ∀ record ∈ records,
      (record.metrics.entries.filter fun metric => metric.1 = name).length ≤ 1 := by
    intro record _
    rw [FinMap.filter_entries]
    cases record.metrics.get name <;> simp
  have hlength := length_flatMap_le hone
  rw [← List.filter_flatMap] at hlength
  replace hget := hget.symm.trans h
  split at hget
  · cases hget
    simpa [FinMap.empty] using hlength
  · cases hget

theorem summarizeRecords_counts {artifact : Nat} {semantics : EvidenceSemantics}
    {classification : Text} {phase : Option Text} {records : List (EvidenceRecord F)}
    {counts : RecordCounts} {unavailable : List Text} {dataset : DatasetSummary F}
    (h : summarizeRecords context artifact semantics classification phase records counts
      unavailable = .ok dataset) :
    dataset.semantics = semantics ∧ dataset.acceptedRecords = records.length ∧
      dataset.rawRecords = dataset.acceptedRecords + dataset.rejectedRecords ∧
      dataset.assignedRecords = counts.assigned ∧ dataset.unassignedRecords = counts.unassigned ∧
      ∀ name summary, dataset.metrics.get name = some summary →
        summary.count + summary.missingCount = dataset.acceptedRecords := by
  unfold summarizeRecords at h
  obtain ⟨groups, -, h⟩ := bind_ok h
  cases h
  refine ⟨rfl, rfl, rfl, rfl, rfl, fun name summary hsummary => ?_⟩
  rw [FinMap.get_filterMap] at hsummary
  obtain ⟨values, hvalues, hsummary⟩ := Option.bind_eq_some_iff.mp hsummary
  obtain ⟨hcount, hmissing⟩ := fromSamplesWithTotal_counts hsummary
  have hle := samples_le_records records hvalues
  rw [hcount, hmissing]
  dsimp only
  omega

theorem assign_mem {formats : Formats F} {record : EvidenceRecord F} {id : Text}
    (h : assign formats record phases = .ok (some id)) : id ∈ phases.map PhaseInput.id := by
  have hhead : ∀ {p : PhaseInput → Bool} {id' : Text},
      ((phases.filter p).map PhaseInput.id).head? = some id' → id' ∈ phases.map PhaseInput.id :=
    fun hid => (List.filter_sublist.map PhaseInput.id).subset (List.mem_of_head? hid)
  unfold assign at h
  dsimp only at h
  split at h
  · cases h
  · split at h
    · rename_i left right hleft _
      split at h
      · cases h
      · cases h
        exact hhead hleft
    · rename_i value hvalue _
      cases h
      exact hhead hvalue
    · rename_i value _ hvalue
      cases h
      exact hhead hvalue
    · cases h

theorem length_phaseRecords {artifact : ParsedArtifact F} {assigned : List (Option Text)}
    (h : assigned.length = artifact.records.length) (phase : PhaseInput) :
    (phaseRecords artifact assigned phase).length = assigned.count (some phase.id) := by
  unfold phaseRecords
  generalize artifact.records = records at h
  induction records generalizing assigned with
  | nil =>
    rw [List.length_nil, List.length_eq_zero_iff] at h
    subst h
    rfl
  | cons record records ih =>
    cases assigned with
    | nil => cases h
    | cons place assigned =>
      have ih := ih (Nat.succ.inj h)
      rw [List.zip_cons_cons, List.filterMap_cons, List.count_cons]
      by_cases hplace : place = some phase.id
      · simp [hplace, ih]
      · simp [hplace, ih]

structure Counted (dataset : DatasetSummary F) : Prop where
  raw : dataset.rawRecords = dataset.acceptedRecords + dataset.rejectedRecords
  placed : dataset.assignedRecords + dataset.unassignedRecords = dataset.acceptedRecords
  metrics : ∀ name summary, dataset.metrics.get name = some summary →
    summary.count + summary.missingCount = dataset.acceptedRecords

-- The datasets of one artifact: the whole, and for each phase the records assigned to it.
structure Accounted (context : NativeEvidenceContext F) (phases : List PhaseInput)
    (artifact : ParsedArtifact F × Nat) (full : DatasetSummary F)
    (perPhase : List (DatasetSummary F)) (assigned : List (Option Text)) : Prop where
  whole : full.artifact = artifact.2 ∧ full.assignedPhase = none ∧
    full.semantics = artifact.1.semantics ∧ full.acceptedRecords = artifact.1.records.length
  counted : ∀ dataset ∈ full :: perPhase, Counted dataset
  placed : List.Forall₂ (fun record place => assign context.formats record phases = .ok place)
    artifact.1.records assigned
  assignedRecords : full.assignedRecords = assigned.countP Option.isSome
  counts : ∀ dataset ∈ perPhase, ∃ id, dataset.assignedPhase = some id ∧
    dataset.acceptedRecords = assigned.count (some id)
  once : (perPhase.map DatasetSummary.assignedPhase).Nodup
  conserved : artifact.1.semantics ≠ .cumulativeSnapshot →
    (perPhase.map DatasetSummary.acceptedRecords).sum = full.assignedRecords

theorem phaseDataset_counted {index : Nat} {artifact : ParsedArtifact F}
    {assigned : List (Option Text)} {phase : PhaseInput} {dataset : DatasetSummary F}
    (hlength : assigned.length = artifact.records.length)
    (h : phaseDataset context index artifact assigned phase = .ok dataset) :
    Counted dataset ∧ dataset.assignedPhase = some phase.id ∧
      dataset.acceptedRecords = assigned.count (some phase.id) := by
  obtain ⟨-, haccepted, hraw, hassigned, hunassigned, hmetrics⟩ := summarizeRecords_counts h
  refine ⟨⟨hraw, ?_, hmetrics⟩, (summarizeRecords_tuple h).2.2, ?_⟩
  · rw [hassigned, hunassigned, haccepted, Nat.add_zero]
  · rw [haccepted, length_phaseRecords hlength]

-- Leaving out the phases without records leaves out only zeros.
theorem sum_nonempty (artifact : ParsedArtifact F) {assigned : List (Option Text)}
    (hlength : assigned.length = artifact.records.length) :
    ((phases.filter fun phase => !(phaseRecords artifact assigned phase).isEmpty).map
        fun phase => assigned.count (some phase.id)).sum =
      (phases.map fun phase => assigned.count (some phase.id)).sum := by
  induction phases with
  | nil => rfl
  | cons phase phases ih =>
    have hcount := length_phaseRecords hlength phase
    rw [List.filter_cons, List.map_cons, List.sum_cons, ← ih]
    cases hrecords : phaseRecords artifact assigned phase with
    | nil =>
      rw [hrecords, List.length_nil] at hcount
      simp [← hcount]
    | cons record records => simp

theorem artifactDatasets_accounted (hphases : (phases.map PhaseInput.id).Nodup)
    {artifact : ParsedArtifact F × Nat} {datasets : List (DatasetSummary F)}
    (h : artifactDatasets context phases artifact = .ok datasets) :
    ∃ full perPhase assigned, datasets = full :: perPhase ∧
      Accounted context phases artifact full perPhase assigned := by
  have htuples := artifactDatasets_tuples hphases h
  unfold artifactDatasets at h
  obtain ⟨assigned, hassigned, h⟩ := bind_ok h
  obtain ⟨full, hfull, h⟩ := bind_ok h
  obtain ⟨perPhase, hperPhase, h⟩ := bind_ok h
  cases h
  have hplaced := forall₂_of_mapM_ok hassigned
  have hlength := hplaced.length_eq
  have hall := forall₂_of_mapM_ok hperPhase
  obtain ⟨hsemantics, haccepted, hraw, hin, hout, hmetrics⟩ := summarizeRecords_counts hfull
  obtain ⟨hartifact, -, hphase⟩ := summarizeRecords_tuple hfull
  have hphaseDatasets : ∀ dataset ∈ perPhase, ∃ phase : PhaseInput,
      phaseDataset context artifact.2 artifact.1 assigned phase = .ok dataset := by
    intro dataset hdataset
    obtain ⟨phase, -, hok⟩ := exists_of_mem_right hall hdataset
    exact ⟨phase, hok⟩
  have hsplit : assigned.countP Option.isSome + assigned.countP Option.isNone = assigned.length := by
    rw [List.length_eq_countP_add_countP Option.isSome]
    congr 2
    funext place
    cases place <;> rfl
  refine ⟨full, perPhase, assigned, rfl, ⟨hartifact, hphase, hsemantics, haccepted⟩, ?_, hplaced, hin,
    ?_, ?_, ?_⟩
  · intro dataset hdataset
    rcases List.mem_cons.mp hdataset with rfl | hdataset
    · exact ⟨hraw, by rw [hin, hout, haccepted, hsplit, hlength], hmetrics⟩
    · obtain ⟨phase, hok⟩ := hphaseDatasets dataset hdataset
      exact (phaseDataset_counted hlength.symm hok).1
  · intro dataset hdataset
    obtain ⟨phase, hok⟩ := hphaseDatasets dataset hdataset
    exact ⟨phase.id, (phaseDataset_counted hlength.symm hok).2⟩
  · have hnodup := htuples.1
    rw [List.map_cons] at hnodup
    exact (List.nodup_cons.mp hnodup).2
  · intro hkind
    rw [if_neg hkind] at hall
    have hsum : perPhase.map DatasetSummary.acceptedRecords = _ :=
      map_eq_of_forall₂ (f := fun phase : PhaseInput => assigned.count (some phase.id)) hall
        fun _ _ hok => (phaseDataset_counted hlength.symm hok).2.2
    have hids : ∀ id, some id ∈ assigned → id ∈ phases.map PhaseInput.id := by
      intro id hid
      obtain ⟨record, -, hok⟩ := exists_of_mem_right hplaced hid
      exact assign_mem hok
    rw [hsum, sum_nonempty artifact.1 hlength.symm, hin, ← sum_count hphases hids, List.map_map]
    rfl

theorem summarizeRun_accounted {request : NativeEvidenceRequest} {run : NormalizedRun F}
    (h : summarizeRun context request = .ok run) :
    ∃ gathered : Gathered F,
      request.artifacts.foldlM (gather context) ⟨[], [], 0, 0⟩ = .ok gathered ∧
      ∃ datasets : List (List (DatasetSummary F)), run.datasets = datasets.flatten ∧
        List.Forall₂ (fun artifact group => ∃ full perPhase assigned, group = full :: perPhase ∧
          Accounted context request.phases artifact full perPhase assigned)
          gathered.parsed.zipIdx datasets := by
  unfold summarizeRun at h
  obtain ⟨_, hvalid, h⟩ := bind_ok h
  obtain ⟨gathered, hgathered, h⟩ := bind_ok h
  obtain ⟨identity, -, h⟩ := bind_ok h
  obtain ⟨datasets, hdatasets, h⟩ := bind_ok h
  cases h
  refine ⟨gathered, hgathered, datasets, rfl, ?_⟩
  exact (forall₂_of_mapM_ok hdatasets).imp fun artifact group hgroup =>
    artifactDatasets_accounted (validateRequest_phases hvalid) hgroup

theorem one_run_counts :
    ((summarizeRun clashContext (clashRequest "one")).toOption.map fun run =>
      run.datasets.map fun dataset =>
        (dataset.assignedPhase, dataset.acceptedRecords, dataset.assignedRecords)) =
      some [(none, 2, 1), (some "a|b".toList, 1, 1)] := by
  decide +kernel

theorem one_run_accounted : ∃ run, summarizeRun clashContext (clashRequest "one") = .ok run ∧
    ∃ datasets : List (List (DatasetSummary Int)), run.datasets = datasets.flatten ∧
      ∀ group ∈ datasets, ∃ artifact full perPhase assigned, group = full :: perPhase ∧
        Accounted clashContext (clashRequest "one").phases artifact full perPhase assigned := by
  obtain ⟨run, hrun, -⟩ := Option.map_eq_some_iff.mp one_run_counts
  have hok := eq_ok_of_toOption hrun
  obtain ⟨gathered, -, datasets, hdatasets, hall⟩ := summarizeRun_accounted hok
  refine ⟨run, hok, datasets, hdatasets, fun group hgroup => ?_⟩
  obtain ⟨artifact, -, h⟩ := exists_of_mem_right hall hgroup
  exact ⟨artifact, h⟩

end Evidence
