import MeridianMcp.Evidence.Reader

namespace Evidence

open MeridianMcp Effects

variable {F : Type} {formats : Formats F} {options : Option ArtifactOptions}

def isTimeField (options : Option ArtifactOptions) (name : Text) : Prop :=
  options.bind ArtifactOptions.wallTimeField = some name ∨
    options.bind ArtifactOptions.worldTimeField = some name

instance (options : Option ArtifactOptions) (name : Text) : Decidable (isTimeField options name) :=
  inferInstanceAs (Decidable (_ ∨ _))

-- The number a field adds to the metrics of its record.
def fieldMetric (formats : Formats F) (options : Option ArtifactOptions) (field : Text × Json F) :
    Option F :=
  if isTimeField options field.1 then none
  else (field.2.asF64 formats).filter fun number =>
    selected options field.1 && formats.isFinite number

def insertMetric (formats : Formats F) (options : Option ArtifactOptions) (metrics : FinMap Text F)
    (field : Text × Json F) : FinMap Text F :=
  match fieldMetric formats options field with
  | some number => metrics.insert field.1 number
  | none => metrics

-- Everything a record shows but its metrics.
def Scan.rest (scan : Scan F) : FinMap Text Text × Option Int × Option Int :=
  (scan.groups, scan.wallUnixMs, scan.worldDeciseconds)

theorem scanField_metrics (scan : Scan F) (field : Text × Json F) :
    (scanField formats options scan field).metrics =
      insertMetric formats options scan.metrics field := by
  rw [scanField, insertMetric, fieldMetric]
  by_cases hwall : options.bind ArtifactOptions.wallTimeField = some field.1
  · have htime : isTimeField options field.1 := Or.inl hwall
    rw [if_pos hwall, if_pos htime]
  · by_cases hworld : options.bind ArtifactOptions.worldTimeField = some field.1
    · have htime : isTimeField options field.1 := Or.inr hworld
      rw [if_neg hwall, if_pos hworld, if_pos htime]
    · have hnot : ¬ isTimeField options field.1 := not_or.mpr ⟨hwall, hworld⟩
      rw [if_neg hwall, if_neg hworld, if_neg hnot]
      cases field.2.asF64 formats with
      | some number =>
        cases hkept : (selected options field.1 && formats.isFinite number) <;>
          simp [hkept, Option.filter_some]
      | none =>
        cases field.2.asStr with
        | none => rfl
        | some text =>
          dsimp only
          split
          · rfl
          · split <;> rfl

theorem scanField_rest_congr {scan scan' : Scan F} (hrest : scan.rest = scan'.rest)
    (field : Text × Json F) :
    (scanField formats options scan field).rest = (scanField formats options scan' field).rest := by
  simp only [Scan.rest, Prod.mk.injEq] at hrest
  obtain ⟨hgroups, hwall, hworld⟩ := hrest
  unfold scanField
  split
  · simp [Scan.rest, hgroups, hworld]
  · split
    · simp [Scan.rest, hgroups, hwall]
    · cases field.2.asF64 formats with
      | some number =>
        dsimp only
        split <;> simp [Scan.rest, hgroups, hwall, hworld]
      | none =>
        cases field.2.asStr with
        | none => simp [Scan.rest, hgroups, hwall, hworld]
        | some text =>
          dsimp only
          split
          · simp [Scan.rest, hgroups, hwall, hworld]
          · split <;> simp [Scan.rest, hgroups, hwall, hworld]

theorem scanField_rest_protected (scan : Scan F) {field : Text × Json F}
    (hprotected : protectedName field.1 = true) (htime : ¬ isTimeField options field.1) :
    (scanField formats options scan field).rest = scan.rest := by
  rw [isTimeField, not_or] at htime
  rw [scanField, if_neg htime.1, if_neg htime.2]
  cases field.2.asF64 formats with
  | some number =>
    dsimp only
    split <;> rfl
  | none =>
    cases field.2.asStr with
    | none => rfl
    | some text =>
      dsimp only
      rw [if_pos hprotected]
      rfl

def Json.composite : Json F → Bool
  | .array _ => true
  | .object _ => true
  | _ => false

theorem scanField_rest_composite (scan : Scan F) (name : Text) {value value' : Json F}
    (h : value.composite = true) (h' : value'.composite = true) :
    (scanField formats options scan (name, value)).rest =
      (scanField formats options scan (name, value')).rest := by
  cases value <;> cases h <;> cases value' <;> cases h' <;> rfl

-- Two fields of one name with one value, unless the name is protected; what is nested in a value
-- may differ in any way, in the fields of protected names and in others.
def FieldDiffers (field field' : Text × Json F) : Prop :=
  field.1 = field'.1 ∧ (field.2 = field'.2 ∨ protectedName field.1 = true ∨
    (field.2.composite = true ∧ field'.2.composite = true))

def TimeUnprotected (options : Option ArtifactOptions) : Prop :=
  ∀ name, isTimeField options name → protectedName name = false

theorem scan_rest_eq {fields fields' : List (Text × Json F)} (htime : TimeUnprotected options)
    (hfields : List.Forall₂ FieldDiffers fields fields') {scan scan' : Scan F}
    (hrest : scan.rest = scan'.rest) :
    (fields.foldl (scanField formats options) scan).rest =
      (fields'.foldl (scanField formats options) scan').rest := by
  induction hfields generalizing scan scan' with
  | nil => exact hrest
  | @cons field field' fields fields' hfield _ ih =>
    rw [List.foldl_cons, List.foldl_cons]
    apply ih
    obtain ⟨name, value⟩ := field
    obtain ⟨name', value'⟩ := field'
    obtain ⟨rfl, rfl | hprotected | ⟨h, h'⟩⟩ := hfield
    · exact scanField_rest_congr hrest _
    · have hnot : ¬ isTimeField options name := fun h => by
        rw [htime name h] at hprotected
        cases hprotected
      have hleft : (scanField formats options scan (name, value)).rest = scan.rest :=
        scanField_rest_protected scan hprotected hnot
      have hright : (scanField formats options scan' (name, value')).rest = scan'.rest :=
        scanField_rest_protected scan' hprotected hnot
      exact hleft.trans (hrest.trans hright.symm)
    · exact (scanField_rest_congr hrest _).trans (scanField_rest_composite scan' name h h')

theorem scan_metrics (fields : List (Text × Json F)) (scan : Scan F) :
    (fields.foldl (scanField formats options) scan).metrics =
      fields.foldl (insertMetric formats options) scan.metrics := by
  induction fields generalizing scan with
  | nil => rfl
  | cons field fields ih => rw [List.foldl_cons, List.foldl_cons, ih, scanField_metrics]

theorem get_foldl_insertMetric {fields : List (Text × Json F)}
    (hnodup : (fields.map Prod.fst).Nodup) (metrics : FinMap Text F) :
    (∀ field ∈ fields, (fields.foldl (insertMetric formats options) metrics).get field.1 =
      (fieldMetric formats options field).or (metrics.get field.1)) ∧
    ∀ name, name ∉ fields.map Prod.fst →
      (fields.foldl (insertMetric formats options) metrics).get name = metrics.get name := by
  induction fields generalizing metrics with
  | nil => simp
  | cons field fields ih =>
    rw [List.map_cons, List.nodup_cons] at hnodup
    obtain ⟨hmem, hother⟩ := ih hnodup.2 (insertMetric formats options metrics field)
    have hself : (insertMetric formats options metrics field).get field.1 =
        (fieldMetric formats options field).or (metrics.get field.1) := by
      unfold insertMetric
      cases fieldMetric formats options field with
      | none => rfl
      | some number => exact Function.update_self _ _ _
    have hne : ∀ name, name ≠ field.1 →
        (insertMetric formats options metrics field).get name = metrics.get name := by
      intro name hname
      unfold insertMetric
      cases fieldMetric formats options field with
      | none => rfl
      | some number => exact Function.update_of_ne hname _ _
    constructor
    · intro field' hfield'
      rw [List.foldl_cons]
      rcases List.mem_cons.mp hfield' with rfl | hfield'
      · rw [hother _ hnodup.1, hself]
      · rw [hmem _ hfield', hne]
        exact fun heq => hnodup.1 (heq ▸ List.mem_map_of_mem hfield')
    · intro name hname
      rw [List.map_cons, List.mem_cons, not_or] at hname
      rw [List.foldl_cons, hother _ hname.2, hne _ hname.1]

def MetricsAgree (formats : Formats F) (options : Option ArtifactOptions)
    (fields fields' : List (Text × Json F)) : Prop :=
  List.Forall₂ (fun field field' => protectedName field.1 = true →
    fieldMetric formats options field = fieldMetric formats options field') fields fields'

theorem FieldDiffers.metric {field field' : Text × Json F} (h : FieldDiffers field field')
    (hprotected : protectedName field.1 = true →
      fieldMetric formats options field = fieldMetric formats options field') :
    fieldMetric formats options field = fieldMetric formats options field' := by
  obtain ⟨name, value⟩ := field
  obtain ⟨name', value'⟩ := field'
  obtain ⟨rfl, rfl | hname | ⟨h, h'⟩⟩ := h
  · rfl
  · exact hprotected hname
  · cases value <;> cases h <;> cases value' <;> cases h' <;> rfl

theorem insertMetric_congr {metrics : FinMap Text F} {field field' : Text × Json F}
    (hname : field.1 = field'.1)
    (hmetric : fieldMetric formats options field = fieldMetric formats options field') :
    insertMetric formats options metrics field = insertMetric formats options metrics field' := by
  rw [insertMetric, insertMetric, hmetric, hname]

theorem scan_metrics_eq_iff {fields fields' : List (Text × Json F)}
    (hnodup : (fields.map Prod.fst).Nodup) (hfields : List.Forall₂ FieldDiffers fields fields')
    {scan scan' : Scan F} (hscan : scan.metrics = FinMap.empty) (hscan' : scan'.metrics = FinMap.empty) :
    (fields.foldl (scanField formats options) scan).metrics =
        (fields'.foldl (scanField formats options) scan').metrics ↔
      MetricsAgree formats options fields fields' := by
  have hnames : fields.map Prod.fst = fields'.map Prod.fst := by
    clear hnodup
    induction hfields with
    | nil => rfl
    | cons hfield _ ih => rw [List.map_cons, List.map_cons, ih, hfield.1]
  rw [scan_metrics, scan_metrics, hscan, hscan']
  constructor
  · intro heq
    obtain ⟨hlen, hpairs⟩ := List.forall₂_iff_zip.mp hfields
    refine List.forall₂_iff_zip.mpr ⟨hlen, fun {field field'} hmem _ => ?_⟩
    have hfield := (@get_foldl_insertMetric F formats options _ hnodup FinMap.empty).1 field
      (List.of_mem_zip hmem).1
    have hfield' := (@get_foldl_insertMetric F formats options _ (hnames ▸ hnodup) FinMap.empty).1 field'
      (List.of_mem_zip hmem).2
    rw [heq, (hpairs hmem).1, hfield'] at hfield
    simpa [FinMap.empty] using hfield.symm
  · intro hagree
    clear hnodup hnames
    generalize (FinMap.empty : FinMap Text F) = metrics
    induction hfields generalizing metrics with
    | nil => rfl
    | cons hfield _ ih =>
      obtain ⟨hhead, htail⟩ := List.forall₂_cons.mp hagree
      rw [List.foldl_cons, List.foldl_cons, insertMetric_congr hfield.1 (hfield.metric hhead)]
      exact ih htail _

structure SameRecord (record record' : EvidenceRecord F) : Prop where
  metrics : record.metrics = record'.metrics
  groups : record.groups = record'.groups
  wall : record.wallUnixMs = record'.wallUnixMs
  world : record.worldDeciseconds = record'.worldDeciseconds

def SameView (parsed parsed' : ParsedArtifact F) : Prop :=
  List.Forall₂ SameRecord parsed.records parsed'.records

theorem scalarRecord_same_iff {value value' : Json F} (htime : TimeUnprotected options)
    (hnodup : (value.asObject.map Prod.fst).Nodup)
    (hfields : List.Forall₂ FieldDiffers value.asObject value'.asObject) (index : Nat)
    (redacted redacted' : Nat) :
    SameRecord (scalarRecord formats value index options redacted).1
        (scalarRecord formats value' index options redacted').1 ↔
      MetricsAgree formats options value.asObject value'.asObject := by
  have hmetrics := @scan_metrics_eq_iff F formats options _ _ hnodup hfields
    ⟨FinMap.empty, FinMap.empty, none, none, redacted⟩
    ⟨FinMap.empty, FinMap.empty, none, none, redacted'⟩ rfl rfl
  have hrest := @scan_rest_eq F formats options _ _ htime hfields
    ⟨FinMap.empty, FinMap.empty, none, none, redacted⟩
    ⟨FinMap.empty, FinMap.empty, none, none, redacted'⟩ rfl
  simp only [Scan.rest, Prod.mk.injEq] at hrest
  exact ⟨fun h => hmetrics.mp h.metrics,
    fun h => ⟨hmetrics.mpr h, hrest.1, hrest.2.1, hrest.2.2⟩⟩

end Evidence
