import MeridianMcp.TracyExperiment.Workload

namespace TracyExperiment

open MeridianMcp Effects Fallible

variable {libraries : Libraries} {input out supplied : WorkloadInput}

structure Valid (libraries : Libraries) (input : WorkloadInput) : Prop where
  fields : ∀ field ∈ input.fields, validateField libraries field = .ok ()
  features_length : input.featureSet.length ≤ maxFeatures
  features : ∀ value ∈ input.featureSet,
    validateValue libraries "feature_set" value maxIdentityValueBytes = .ok ()
  features_nodup : input.featureSet.Nodup
  annotations_card : input.annotations.keys.card ≤ maxAnnotations
  annotations : ∀ entry ∈ input.annotations.entries,
    validateEntry libraries entry = .ok ()

def WorkloadInput.canonical (input : WorkloadInput) : WorkloadInput :=
  { input with featureSet := FinMap.sortKeys input.featureSet.toFinset }

theorem toFinset_sortKeys (features : Finset Text) :
    (FinMap.sortKeys features).toFinset = features := by
  ext value
  rw [List.mem_toFinset, FinMap.mem_sortKeys]

@[simp] theorem canonical_canonical (input : WorkloadInput) :
    input.canonical.canonical = input.canonical := by
  simp only [WorkloadInput.canonical, toFinset_sortKeys]

theorem Valid.canonical (h : Valid libraries input) : Valid libraries input.canonical where
  fields := h.fields
  features_length := by
    have hperm : (FinMap.sortKeys input.featureSet.toFinset).Perm input.featureSet :=
      (List.perm_ext_iff_of_nodup (FinMap.sortKeys_nodup _) h.features_nodup).mpr (by simp)
    exact hperm.length_eq.le.trans h.features_length
  features value hvalue := h.features value (by simpa [WorkloadInput.canonical] using hvalue)
  features_nodup := FinMap.sortKeys_nodup input.featureSet.toFinset
  annotations_card := h.annotations_card
  annotations := h.annotations

theorem insertFeature_ok_iff {features next : Finset Text} {value : Text} :
    insertFeature libraries features value = .ok next ↔
      validateValue libraries "feature_set" value maxIdentityValueBytes = .ok () ∧
        value ∉ features ∧ next = insert value features := by
  simp only [insertFeature, bind_ok_iff]
  constructor
  · rintro ⟨⟨⟩, hvalid, ⟨⟩, hnew, hout⟩
    exact ⟨hvalid, ensure_ok_iff.mp hnew, (Except.ok.inj hout).symm⟩
  · rintro ⟨hvalid, hnew, rfl⟩
    exact ⟨(), hvalid, (), ensure_ok_iff.mpr hnew, rfl⟩

theorem insertFeatures_ok_iff {values : List Text} {features next : Finset Text} :
    values.foldlM (insertFeature libraries) features = .ok next ↔
      (∀ value ∈ values,
        validateValue libraries "feature_set" value maxIdentityValueBytes = .ok ()) ∧
      values.Nodup ∧ (∀ value ∈ values, value ∉ features) ∧ next = features ∪ values.toFinset := by
  induction values generalizing features with
  | nil => simp [pure, Except.pure, eq_comm]
  | cons value values ih =>
    rw [List.foldlM_cons, bind_ok_iff, List.forall_mem_cons, List.forall_mem_cons, List.nodup_cons]
    constructor
    · rintro ⟨_, hstep, hrest⟩
      obtain ⟨hvalid, hnew, rfl⟩ := insertFeature_ok_iff.mp hstep
      obtain ⟨hvalids, hnodup, hfresh, rfl⟩ := ih.mp hrest
      refine ⟨⟨hvalid, hvalids⟩, ⟨fun hmem => hfresh value hmem (Finset.mem_insert_self ..), hnodup⟩,
        ⟨hnew, fun other hother => ?_⟩, ?_⟩
      · exact fun hmem => hfresh other hother (Finset.mem_insert_of_mem hmem)
      · rw [List.toFinset_cons, Finset.insert_union, Finset.union_insert]
    · rintro ⟨⟨hvalid, hvalids⟩, ⟨hnotin, hnodup⟩, ⟨hnew, hfresh⟩, rfl⟩
      refine ⟨_, insertFeature_ok_iff.mpr ⟨hvalid, hnew, rfl⟩, ih.mpr ⟨hvalids, hnodup, ?_, ?_⟩⟩
      · intro other hother hmem
        rcases Finset.mem_insert.mp hmem with rfl | hmem
        · exact hnotin hother
        · exact hfresh other hother hmem
      · rw [List.toFinset_cons, Finset.insert_union, Finset.union_insert]

theorem validateWorkload_ok_iff :
    validateWorkload libraries input = .ok out ↔ Valid libraries input ∧ out = input.canonical := by
  simp only [validateWorkload, bind_ok_iff]
  constructor
  · rintro ⟨⟨⟩, hfields, ⟨⟩, hlength, features, hfeatures, ⟨⟩, hcard, ⟨⟩, hannotations, hout⟩
    obtain ⟨hvalues, hnodup, -, rfl⟩ := insertFeatures_ok_iff.mp hfeatures
    refine ⟨⟨forM_ok_iff.mp hfields, ensure_ok_iff.mp hlength, hvalues, hnodup,
      ensure_ok_iff.mp hcard, forM_ok_iff.mp hannotations⟩, ?_⟩
    rw [Finset.empty_union] at hout
    exact (Except.ok.inj hout).symm
  · rintro ⟨h, rfl⟩
    refine ⟨(), forM_ok_iff.mpr h.fields, (), ensure_ok_iff.mpr h.features_length, _,
      insertFeatures_ok_iff.mpr ⟨h.features, h.features_nodup, fun _ _ => Finset.notMem_empty _, rfl⟩,
      (), ensure_ok_iff.mpr h.annotations_card, (), forM_ok_iff.mpr h.annotations, ?_⟩
    rw [Finset.empty_union]
    rfl

theorem workloadIdentity_ok_iff {identity : WorkloadIdentity} :
    workloadIdentity libraries input = .ok identity ↔ Valid libraries input ∧
      canonicalSha256 libraries input.canonical = .ok identity.workloadId ∧
        identity.input = input.canonical := by
  simp only [workloadIdentity, bind_ok_iff]
  constructor
  · rintro ⟨_, hchecked, id, hid, hout⟩
    obtain ⟨hvalid, rfl⟩ := validateWorkload_ok_iff.mp hchecked
    cases hout
    exact ⟨hvalid, hid, rfl⟩
  · rintro ⟨hvalid, hid, hinput⟩
    obtain ⟨id, map, seed, profile, features, scenario, run, annotations⟩ := identity
    refine ⟨_, validateWorkload_ok_iff.mpr ⟨hvalid, rfl⟩, id, hid, ?_⟩
    rw [← hinput]
    rfl

-- `part` is absent or says what `whole` says.
def Agrees {α : Type} (absent part whole : α) : Prop := part = absent ∨ part = whole

def Within (part whole : FinMap Text Text) : Prop :=
  ∀ key value, part.get key = some value → whole.get key = some value

structure Carries (whole part : WorkloadInput) : Prop where
  map : Agrees none part.map whole.map
  seed : Agrees none part.seed whole.seed
  configurationProfile : Agrees none part.configurationProfile whole.configurationProfile
  featureSet : Agrees [] part.featureSet whole.featureSet
  scenario : Agrees none part.scenario whole.scenario
  externalRunId : Agrees none part.externalRunId whole.externalRunId
  annotations : Within part.annotations whole.annotations

theorem conflicts_false_iff {actual expected : Option Text} :
    conflicts actual expected = false ↔ Agrees none actual expected := by
  cases actual with
  | none => simp [conflicts, Agrees]
  | some value => simp [conflicts, Agrees]

theorem entries_within_iff {part whole : FinMap Text Text} :
    ¬ (part.entries.any fun (key, value) => whole.get key ≠ some value) = true ↔
      Within part whole := by
  simp only [List.any_eq_true, decide_eq_true_eq, not_exists, not_and, not_not, Prod.forall,
    FinMap.mem_entries]
  exact Iff.rfl

theorem verifyLockedWorkload_ok_iff {locked : WorkloadIdentity} :
    verifyLockedWorkload libraries locked supplied = .ok () ↔
      Valid libraries supplied ∧ Carries locked.input supplied.canonical := by
  simp only [verifyLockedWorkload, bind_ok_iff]
  constructor
  · rintro ⟨_, hchecked, ⟨⟩, hfields, ⟨⟩, hfeatures, hannotations⟩
    obtain ⟨hvalid, rfl⟩ := validateWorkload_ok_iff.mp hchecked
    rw [ensure_ok_iff, Bool.not_eq_true] at hfields
    simp only [List.any_cons, List.any_nil, Bool.or_false, Bool.or_eq_false_iff,
      conflicts_false_iff] at hfields
    obtain ⟨hmap, hseed, hprofile, hscenario, hrun⟩ := hfields
    have hfeatures := ensure_ok_iff.mp hfeatures
    exact ⟨hvalid, hmap, hseed, hprofile, hfeatures, hscenario, hrun,
      entries_within_iff.mp (ensure_ok_iff.mp hannotations)⟩
  · rintro ⟨hvalid, h⟩
    have hfeatures : supplied.canonical.featureSet = [] ∨
      supplied.canonical.featureSet = locked.featureSet := h.featureSet
    refine ⟨_, validateWorkload_ok_iff.mpr ⟨hvalid, rfl⟩, (), ?_, (), ensure_ok_iff.mpr hfeatures,
      ensure_ok_iff.mpr (entries_within_iff.mpr h.annotations)⟩
    rw [ensure_ok_iff, Bool.not_eq_true]
    simp only [List.any_cons, List.any_nil, Bool.or_false, Bool.or_eq_false_iff, conflicts_false_iff]
    exact ⟨h.map, h.seed, h.configurationProfile, h.scenario, h.externalRunId⟩

section merge

theorem mergeField_self_iff {existing supplied : Option Text} :
    mergeField existing supplied = .ok existing ↔ Agrees none supplied existing := by
  cases existing with
  | none => cases supplied <;> simp [mergeField, Agrees]
  | some left =>
    cases supplied with
    | none => simp [mergeField, Agrees]
    | some right =>
      by_cases h : left = right <;> simp [mergeField, Agrees, h]
      exact fun heq => h heq.symm

theorem mergeField_agrees {existing supplied merged : Option Text}
    (h : mergeField existing supplied = .ok merged) :
    Agrees none existing merged ∧ Agrees none supplied merged := by
  cases existing with
  | none => cases supplied <;> cases h <;> simp [Agrees]
  | some left =>
    cases supplied with
    | none => cases h; simp [Agrees]
    | some right =>
      by_cases heq : left = right
      · subst heq
        simp only [mergeField, ne_eq, not_true_eq_false, if_false, Except.ok.injEq] at h
        simp [Agrees, h]
      · simp [mergeField, heq] at h

theorem mergeVec_self_iff {existing supplied : List Text} :
    mergeVec existing supplied = .ok existing ↔ Agrees [] supplied existing := by
  cases existing with
  | nil => simp [mergeVec, Agrees]
  | cons value values =>
    cases supplied with
    | nil => simp [mergeVec, Agrees]
    | cons value' values' =>
      by_cases h : value :: values = value' :: values'
      · simp [mergeVec, Agrees, h]
      · have h' : ¬ value' :: values' = value :: values := fun heq => h heq.symm
        simp only [mergeVec, Agrees, h', List.isEmpty_cons, ne_eq, h]
        simp

theorem mergeVec_agrees {existing supplied merged : List Text}
    (h : mergeVec existing supplied = .ok merged) :
    Agrees [] existing merged ∧ Agrees [] supplied merged := by
  cases existing with
  | nil =>
    simp only [mergeVec, List.isEmpty_nil, Bool.not_true, Bool.false_and, Bool.false_eq_true, if_false,
      if_true, Except.ok.injEq] at h
    exact ⟨Or.inl rfl, Or.inr h⟩
  | cons value values =>
    cases supplied with
    | nil =>
      simp only [mergeVec, List.isEmpty_nil, Bool.not_true, Bool.and_false, Bool.false_and,
        Bool.false_eq_true, if_false, List.isEmpty_cons, Except.ok.injEq] at h
      exact ⟨Or.inr h, Or.inl rfl⟩
    | cons value' values' =>
      by_cases heq : value :: values = value' :: values'
      · simp [mergeVec, heq] at h
        exact ⟨Or.inr (heq.trans h), Or.inr h⟩
      · simp [mergeVec, heq] at h

theorem mergeEntry_ok_iff {merged next : FinMap Text Text} {entry : Text × Text} :
    mergeEntry merged entry = .ok next ↔
      Agrees none (merged.get entry.1) (some entry.2) ∧
        next = merged.insert entry.1 entry.2 := by
  unfold mergeEntry Agrees
  cases merged.get entry.1 with
  | none => simp [eq_comm]
  | some value => by_cases h : value = entry.2 <;> simp [h, eq_comm]

theorem mergeAnnotations_fold {annotations : List (Text × Text)} {merged next : FinMap Text Text}
    (h : annotations.foldlM mergeEntry merged = .ok next) :
    Within merged next ∧ ∀ entry ∈ annotations, next.get entry.1 = some entry.2 := by
  induction annotations generalizing merged with
  | nil =>
    cases h
    exact ⟨fun _ _ h => h, fun _ h => absurd h List.not_mem_nil⟩
  | cons entry annotations ih =>
    obtain ⟨_, hstep, hrest⟩ := foldlM_cons_ok h
    obtain ⟨hagrees, rfl⟩ := mergeEntry_ok_iff.mp hstep
    obtain ⟨hwithin, hall⟩ := ih hrest
    refine ⟨fun key value hvalue => hwithin key value ?_, ?_⟩
    · rw [FinMap.get_insert]
      by_cases hkey : key = entry.1
      · subst hkey
        rw [Function.update_self]
        rcases hagrees with hnone | hsome
        · rw [hnone] at hvalue
          cases hvalue
        · exact hsome.symm.trans hvalue
      · rwa [Function.update_of_ne hkey]
    · rw [List.forall_mem_cons]
      exact ⟨hwithin _ _ (by rw [FinMap.get_insert, Function.update_self]), hall⟩

theorem mergeAnnotations_within {existing supplied merged : FinMap Text Text}
    (h : mergeAnnotations existing supplied = .ok merged) :
    Within existing merged ∧ Within supplied merged := by
  obtain ⟨hexisting, hall⟩ := mergeAnnotations_fold h
  exact ⟨hexisting, fun key value hvalue => hall (key, value) (FinMap.mem_entries.mpr hvalue)⟩

theorem insert_same {annotations : FinMap Text Text} {key value : Text}
    (h : annotations.get key = some value) : annotations.insert key value = annotations := by
  refine FinMap.ext_get fun other => ?_
  rw [FinMap.get_insert, ← h, Function.update_eq_self]

theorem mergeAnnotations_self {existing supplied : FinMap Text Text} (h : Within supplied existing) :
    mergeAnnotations existing supplied = .ok existing := by
  have hfold : ∀ annotations : List (Text × Text),
      (∀ entry ∈ annotations, existing.get entry.1 = some entry.2) →
        annotations.foldlM mergeEntry existing = .ok existing := by
    intro annotations
    induction annotations with
    | nil => exact fun _ => rfl
    | cons entry annotations ih =>
      intro hall
      rw [List.forall_mem_cons] at hall
      have hstep : mergeEntry existing entry = .ok existing :=
        mergeEntry_ok_iff.mpr ⟨Or.inr hall.1, (insert_same hall.1).symm⟩
      rw [List.foldlM_cons, hstep]
      exact ih hall.2
  exact hfold _ fun entry hmem => h _ _ (FinMap.mem_entries.mp hmem)

variable {draft capture merged : WorkloadInput}

theorem merge_carries (h : merge draft capture = .ok merged) :
    Carries merged draft ∧ Carries merged capture := by
  simp only [merge, bind_ok_iff] at h
  obtain ⟨_, hmap, _, hseed, _, hprofile, _, hfeatures, _, hscenario, _, hrun, _, hannotations, h⟩ := h
  cases h
  have hmap := mergeField_agrees hmap
  have hseed := mergeField_agrees hseed
  have hprofile := mergeField_agrees hprofile
  have hfeatures := mergeVec_agrees hfeatures
  have hscenario := mergeField_agrees hscenario
  have hrun := mergeField_agrees hrun
  have hannotations := mergeAnnotations_within hannotations
  exact ⟨⟨hmap.1, hseed.1, hprofile.1, hfeatures.1, hscenario.1, hrun.1, hannotations.1⟩,
    ⟨hmap.2, hseed.2, hprofile.2, hfeatures.2, hscenario.2, hrun.2, hannotations.2⟩⟩

theorem merge_self (h : Carries draft capture) : merge draft capture = .ok draft := by
  simp only [merge, bind_ok_iff]
  exact ⟨_, mergeField_self_iff.mpr h.map, _, mergeField_self_iff.mpr h.seed, _,
    mergeField_self_iff.mpr h.configurationProfile, _, mergeVec_self_iff.mpr h.featureSet, _,
    mergeField_self_iff.mpr h.scenario, _, mergeField_self_iff.mpr h.externalRunId, _,
    mergeAnnotations_self h.annotations, rfl⟩

-- A merged feature set is one of the two, so merging canonical inputs gives a canonical one.
theorem merge_canonical (h : merge draft.canonical capture.canonical = .ok merged) :
    merged.canonical = merged := by
  simp only [merge, bind_ok_iff] at h
  obtain ⟨_, -, _, -, _, -, features, hfeatures, _, -, _, -, _, -, h⟩ := h
  cases h
  have hone : features = draft.canonical.featureSet ∨ features = capture.canonical.featureSet := by
    unfold mergeVec at hfeatures
    split at hfeatures
    · cases hfeatures
    · obtain rfl := Except.ok.inj hfeatures
      split
      · exact Or.inr rfl
      · exact Or.inl rfl
  rcases hone with rfl | rfl <;> simp only [WorkloadInput.canonical, toFinset_sortKeys]

end merge

theorem bindWorkload_ok_iff {draft capture : WorkloadInput} {identity : WorkloadIdentity} :
    bindWorkload libraries draft capture = .ok identity ↔
      Valid libraries draft ∧ Valid libraries capture ∧
        ∃ merged, merge draft.canonical capture.canonical = .ok merged ∧
          workloadIdentity libraries merged = .ok identity := by
  simp only [bindWorkload, bind_ok_iff]
  constructor
  · rintro ⟨_, hdraft, _, hcapture, hrest⟩
    obtain ⟨hdraftValid, rfl⟩ := validateWorkload_ok_iff.mp hdraft
    obtain ⟨hcaptureValid, rfl⟩ := validateWorkload_ok_iff.mp hcapture
    exact ⟨hdraftValid, hcaptureValid, hrest⟩
  · rintro ⟨hdraft, hcapture, hrest⟩
    exact ⟨_, validateWorkload_ok_iff.mpr ⟨hdraft, rfl⟩, _,
      validateWorkload_ok_iff.mpr ⟨hcapture, rfl⟩, hrest⟩

theorem verify_of_bind {draft capture : WorkloadInput} {identity : WorkloadIdentity}
    (h : bindWorkload libraries draft capture = .ok identity) :
    verifyLockedWorkload libraries identity capture = .ok () ∧
      verifyLockedWorkload libraries identity draft = .ok () := by
  obtain ⟨hdraft, hcapture, merged, hmerge, hidentity⟩ := bindWorkload_ok_iff.mp h
  obtain ⟨-, -, hinput⟩ := workloadIdentity_ok_iff.mp hidentity
  rw [merge_canonical hmerge] at hinput
  have hcarries := merge_carries hmerge
  rw [← hinput] at hcarries
  exact ⟨verifyLockedWorkload_ok_iff.mpr ⟨hcapture, hcarries.2⟩,
    verifyLockedWorkload_ok_iff.mpr ⟨hdraft, hcarries.1⟩⟩

theorem verify_iff_bind {locked : WorkloadIdentity}
    (h : workloadIdentity libraries input = .ok locked) :
    verifyLockedWorkload libraries locked supplied = .ok () ↔
      bindWorkload libraries locked.input supplied = .ok locked := by
  refine ⟨fun hverify => ?_, fun hbind => (verify_of_bind hbind).1⟩
  obtain ⟨hvalid, hid, hinput⟩ := workloadIdentity_ok_iff.mp h
  obtain ⟨hsupplied, hcarries⟩ := verifyLockedWorkload_ok_iff.mp hverify
  have hlocked : Valid libraries locked.input := by
    rw [hinput]
    exact hvalid.canonical
  have hcanonical : locked.input.canonical = locked.input := by
    rw [hinput, canonical_canonical]
  refine bindWorkload_ok_iff.mpr ⟨hlocked, hsupplied, locked.input, ?_, ?_⟩
  · rw [hcanonical]
    exact merge_self hcarries
  · refine workloadIdentity_ok_iff.mpr ⟨hlocked, ?_, hcanonical.symm⟩
    rwa [hcanonical, hinput]

theorem binding_agrees_with_lock (libraries : Libraries) :
    (∀ input locked, workloadIdentity libraries input = .ok locked → ∀ supplied,
      (verifyLockedWorkload libraries locked supplied = .ok () ↔
        bindWorkload libraries locked.input supplied = .ok locked)) ∧
    ∀ draft capture identity, bindWorkload libraries draft capture = .ok identity →
      verifyLockedWorkload libraries identity capture = .ok () ∧
        verifyLockedWorkload libraries identity draft = .ok () :=
  ⟨fun _ _ h _ => verify_iff_bind h, fun _ _ _ h => verify_of_bind h⟩

def plainLibraries : Libraries := ⟨fun _ => false, fun _ => .ok [], fun _ => "0".toList⟩

def boxDraft : WorkloadInput :=
  ⟨some "box".toList, none, none, ["lag".toList], none, none, FinMap.empty⟩

def seededCapture : WorkloadInput :=
  ⟨some "box".toList, some "7".toList, none, [], none, none, FinMap.empty⟩

def boxSeeded : WorkloadIdentity :=
  ⟨"0".toList, some "box".toList, some "7".toList, none, ["lag".toList], none, none, FinMap.empty⟩

theorem box_bound : bindWorkload plainLibraries boxDraft seededCapture = .ok boxSeeded := rfl

theorem box_identified : workloadIdentity plainLibraries boxSeeded.input = .ok boxSeeded := rfl

theorem box_locked :
    verifyLockedWorkload plainLibraries boxSeeded seededCapture = .ok () ∧
      bindWorkload plainLibraries boxSeeded.input seededCapture = .ok boxSeeded := by
  have hverified := ((binding_agrees_with_lock plainLibraries).2 _ _ _ box_bound).1
  exact ⟨hverified, ((binding_agrees_with_lock plainLibraries).1 _ _ box_identified _).mp hverified⟩

end TracyExperiment
