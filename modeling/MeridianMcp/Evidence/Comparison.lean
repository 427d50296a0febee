import Mathlib.Data.Finset.Sort
import MeridianMcp.Evidence.Percentiles
import MeridianMcp.Evidence.Timeline

namespace Evidence

open MeridianMcp Effects

structure EvidenceFile where
  canonicalPath : Text
  relativePath : Text
  metadataLen : Nat
  bytes : Bytes
  sha256 : Text

structure LaunchDecision where
  verified : Bool
  recordId : Option Text

-- The file system under the path policy, the provenance store and the libraries.
structure NativeEvidenceContext (F : Type) where
  formats : Formats F
  arithmetic : Arithmetic F
  serializeGroups : FinMap Text Text → Text
  readPath : Text → Except EvidenceError EvidenceFile
  capture : Text → Except EvidenceError Text
  evaluateLaunch : Option (Text → Except EvidenceError LaunchDecision)

structure GroupSummary where
  key : Text
  count : Nat

structure DatasetSummary (F : Type) where
  artifact : Nat
  semantics : EvidenceSemantics
  classification : Text
  assignedPhase : Option Text
  rawRecords : Nat
  acceptedRecords : Nat
  rejectedRecords : Nat
  assignedRecords : Nat
  unassignedRecords : Nat
  metrics : FinMap Text (NumericSummary F)
  groups : List GroupSummary
  unavailableMetrics : List Text

structure NativeRunIdentity where
  verified : Bool
  buildRecordId : Option Text
  dmbSha256 : Option Text
  workload : Option WorkloadIdentityInput

structure NormalizedRun (F : Type) where
  identity : NativeRunIdentity
  artifacts : List ArtifactIdentity
  phases : List PhaseInput
  datasets : List (DatasetSummary F)
  valuesRedacted : Nat

def maxEvidenceFileBytes : Nat := 256 * 1024 * 1024
def maxEvidenceTotalBytes : Nat := 1024 * 1024 * 1024

variable {F : Type}

def validateOptions (options : ArtifactOptions) : Except EvidenceError Unit := do
  if maxEvidenceSelectedMetrics < options.selectedMetrics.length then
    .error (.message "selected metric limit exceeded")
  if 64 < options.groupFields.length ∨ options.groupFields.any (fun field => 256 < utf8Len field) then
    .error (.message "event group field limit exceeded")
  if options.selectedMetrics.toFinset.card ≠ options.selectedMetrics.length ∨
      options.groupFields.toFinset.card ≠ options.groupFields.length then
    .error (.message "selected metric and group field names must be unique")

def validateArtifact (descriptor : ArtifactDescriptor) : Except EvidenceError Unit :=
  match descriptor.options with
  | none => .ok ()
  | some options => validateOptions options

def uniquePhases (phases : List PhaseInput) : Except EvidenceError Unit :=
  if (phases.map PhaseInput.id).toFinset.card ≠ phases.length then
    .error (.message "phase identifiers must be unique")
  else .ok ()

def validateRequest (formats : Formats F) (request : NativeEvidenceRequest) :
    Except EvidenceError Unit := do
  if request.artifacts = [] ∨ maxEvidenceArtifacts < request.artifacts.length then
    .error (.message "artifacts must contain 1-32 entries")
  if maxEvidencePhases < request.phases.length then
    .error (.message "phase limit exceeded")
  validatePhases formats request.phases
  uniquePhases request.phases
  request.artifacts.forM validateArtifact

def readArtifact (descriptor : ArtifactDescriptor) (file : EvidenceFile) (total : Nat) :
    Except EvidenceError (ReadArtifact × Nat) := do
  if maxEvidenceFileBytes < file.metadataLen then
    .error (.message "evidence file exceeds fixed byte limit")
  if 2 ^ 64 ≤ total + file.metadataLen then .error (.message "evidence byte total overflow")
  if maxEvidenceTotalBytes < total + file.metadataLen then
    .error (.message "evidence request exceeds fixed total byte limit")
  if maxEvidenceFileBytes < file.bytes.length then
    .error (.message "evidence file grew beyond fixed byte limit")
  return ({ identity := ⟨file.relativePath, descriptor.kind, file.bytes.length, file.sha256⟩
            bytes := file.bytes }, total + file.metadataLen)

structure Gathered (F : Type) where
  canonical : List Text
  parsed : List (ParsedArtifact F)
  total : Nat
  redacted : Nat

def gather (context : NativeEvidenceContext F) (gathered : Gathered F)
    (descriptor : ArtifactDescriptor) : Except EvidenceError (Gathered F) := do
  let file ← context.readPath descriptor.path
  if file.canonicalPath ∈ gathered.canonical then
    .error (.message "evidence artifact paths must be unique")
  else
    let (read, total) ← readArtifact descriptor file gathered.total
    let (parsed, redacted) ← parseRead context.formats read descriptor gathered.redacted
    return ⟨gathered.canonical ++ [file.canonicalPath], gathered.parsed ++ [parsed], total, redacted⟩

def pushSample (samples : FinMap Text (List F)) (metric : Text × F) : FinMap Text (List F) :=
  samples.insert metric.1 ((samples.get metric.1).getD [] ++ [metric.2])

def countGroup (context : NativeEvidenceContext F) (groups : FinMap Text Nat)
    (record : EvidenceRecord F) : Except EvidenceError (FinMap Text Nat) :=
  if record.groups.keys = ∅ then .ok groups
  else
    let key := context.serializeGroups record.groups
    let groups := groups.insert key ((groups.get key).getD 0 + 1)
    if maxEvidenceGroups < groups.keys.card then .error (.message "evidence group limit exceeded")
    else .ok groups

structure RecordCounts where
  rejected : Nat
  assigned : Nat
  unassigned : Nat

def summarizeRecords (context : NativeEvidenceContext F) (artifact : Nat)
    (semantics : EvidenceSemantics) (classification : Text) (assignedPhase : Option Text)
    (records : List (EvidenceRecord F)) (counts : RecordCounts) (unavailableMetrics : List Text) :
    Except EvidenceError (DatasetSummary F) := do
  let groups ← records.foldlM (countGroup context) FinMap.empty
  let samples := (records.flatMap fun record => record.metrics.entries).foldl pushSample FinMap.empty
  let ranked := (groups.entries.map fun group => GroupSummary.mk group.1 group.2).insertionSort
    fun left right => right.count < left.count ∨ (right.count = left.count ∧ left.key ≤ right.key)
  return { artifact := artifact
           semantics := semantics
           classification := classification
           assignedPhase := assignedPhase
           rawRecords := records.length + counts.rejected
           acceptedRecords := records.length
           rejectedRecords := counts.rejected
           assignedRecords := counts.assigned
           unassignedRecords := counts.unassigned
           metrics := samples.filterMap fun values =>
             fromSamplesWithTotal context.arithmetic values records.length
           groups := ranked.take maxEvidenceReturnedGroups
           unavailableMetrics := unavailableMetrics }

def before (value start : Option Int) : Bool :=
  match value, start with
  | some value, some start => value < start
  | _, _ => false

def preGame (formats : Formats F) (phases : List PhaseInput) (artifact : ParsedArtifact F) : Bool :=
  artifact.semantics = .cumulativeSnapshot &&
    (phases.find? fun phase => phase.id = "game_start".toList).any fun phase =>
      artifact.records.all fun record =>
        before record.wallUnixMs (wallMs? formats phase.wallStart) ||
          before record.worldDeciseconds phase.worldStartDs

def fullClassification (formats : Formats F) (phases : List PhaseInput)
    (artifact : ParsedArtifact F) : Text :=
  if preGame formats phases artifact then "pre_game_cumulative".toList
  else
    match artifact.semantics with
    | .intervalSeries => "full_interval".toList
    | .eventStream => "full_event_stream".toList
    | .cumulativeSnapshot => "cumulative_snapshot".toList

def assignedClassification : Text := "assigned".toList

def phaseRecords (artifact : ParsedArtifact F) (assigned : List (Option Text)) (phase : PhaseInput) :
    List (EvidenceRecord F) :=
  (artifact.records.zip assigned).filterMap fun pair =>
    if pair.2 = some phase.id then some pair.1 else none

def phaseDataset (context : NativeEvidenceContext F) (index : Nat) (artifact : ParsedArtifact F)
    (assigned : List (Option Text)) (phase : PhaseInput) :
    Except EvidenceError (DatasetSummary F) :=
  let records := phaseRecords artifact assigned phase
  summarizeRecords context index artifact.semantics assignedClassification (some phase.id) records
    ⟨0, records.length, 0⟩ artifact.unavailableMetrics

def artifactDatasets (context : NativeEvidenceContext F) (phases : List PhaseInput)
    (artifact : ParsedArtifact F × Nat) : Except EvidenceError (List (DatasetSummary F)) := do
  let assigned ← artifact.1.records.mapM fun record => assign context.formats record phases
  let full ← summarizeRecords context artifact.2 artifact.1.semantics
    (fullClassification context.formats phases artifact.1) none artifact.1.records
    ⟨artifact.1.rejectedRecords, assigned.countP Option.isSome, assigned.countP Option.isNone⟩
    artifact.1.unavailableMetrics
  let perPhase ←
    (if artifact.1.semantics = .cumulativeSnapshot then []
      else phases.filter fun phase => !(phaseRecords artifact.1 assigned phase).isEmpty).mapM
      (phaseDataset context artifact.2 artifact.1 assigned)
  return full :: perPhase

def runIdentity (context : NativeEvidenceContext F) (dmbPath : Option Text)
    (workload : Option WorkloadIdentityInput) : Except EvidenceError NativeRunIdentity :=
  match dmbPath with
  | none => .ok ⟨false, none, none, workload⟩
  | some path => do
    let sha256 ← context.capture path
    match context.evaluateLaunch with
    | none => return ⟨false, none, some sha256, workload⟩
    | some evaluate =>
      let decision ← evaluate path
      return ⟨decision.verified, decision.recordId, some sha256, workload⟩

def summarizeRun (context : NativeEvidenceContext F) (request : NativeEvidenceRequest) :
    Except EvidenceError (NormalizedRun F) := do
  validateRequest context.formats request
  let gathered ← request.artifacts.foldlM (gather context) ⟨[], [], 0, 0⟩
  let identity ← runIdentity context request.dmbPath request.workload
  let datasets ← gathered.parsed.zipIdx.mapM (artifactDatasets context request.phases)
  return { identity := identity
           artifacts := gathered.parsed.map ParsedArtifact.identity
           phases := request.phases
           datasets := datasets.flatten
           valuesRedacted := gathered.redacted }

structure ComparisonMetric (F : Type) where
  values : List F
  absoluteDelta : Option F
  percentageDelta : Option F
  coefficientOfVariation : Option F
  distribution : NumericSummary F

structure ComparisonResult (F : Type) where
  buildRecordId : Text
  runCount : Nat
  metrics : FinMap Text (ComparisonMetric F)

structure SeriesTuple where
  artifact : Nat
  semantics : EvidenceSemantics
  classification : Text
  phase : Option Text
  metric : Text
  deriving DecidableEq

def EvidenceSemantics.debugName : EvidenceSemantics → Text
  | cumulativeSnapshot => "CumulativeSnapshot".toList
  | intervalSeries => "IntervalSeries".toList
  | eventStream => "EventStream".toList

def SeriesTuple.key (tuple : SeriesTuple) : Text :=
  Nat.toDigits 10 tuple.artifact ++ '|' :: (tuple.semantics.debugName ++ '|' ::
    (tuple.classification ++ '|' :: (tuple.phase.getD "unassigned".toList ++ '|' :: tuple.metric)))

def datasetEntries (dataset : DatasetSummary F) : List (SeriesTuple × F) :=
  dataset.metrics.entries.map fun metric =>
    (⟨dataset.artifact, dataset.semantics, dataset.classification, dataset.assignedPhase, metric.1⟩,
      metric.2.mean)

def runEntries (run : NormalizedRun F) : List (SeriesTuple × F) :=
  run.datasets.flatMap datasetEntries

def pushMean (series : FinMap Text (List F)) (entry : SeriesTuple × F) : FinMap Text (List F) :=
  series.insert entry.1.key ((series.get entry.1.key).getD [] ++ [entry.2])

def seriesOf (runs : List (NormalizedRun F)) : FinMap Text (List F) :=
  (runs.flatMap runEntries).foldl pushMean FinMap.empty

def absoluteDelta (arithmetic : Arithmetic F) : List F → Option F
  | [first, second] => some (arithmetic.sub second first)
  | _ => none

def percentageDelta (arithmetic : Arithmetic F) : List F → Option F
  | [first, second] =>
    if arithmetic.isZero first then none
    else some (arithmetic.mul (arithmetic.div (arithmetic.sub second first) first)
      arithmetic.hundred)
  | _ => none

def compareSeries (arithmetic : Arithmetic F) (runCount : Nat)
    (metrics : FinMap Text (ComparisonMetric F)) (series : Text × List F) :
    Except EvidenceError (FinMap Text (ComparisonMetric F)) :=
  if series.2.length ≠ runCount then
    .error (.message "evidence_identity_mismatch: metric coverage differs between runs")
  else
    match fromSamples arithmetic series.2 with
    | none => .error .panicked
    | some distribution =>
      .ok (metrics.insert series.1
        { values := series.2
          absoluteDelta := absoluteDelta arithmetic series.2
          percentageDelta := percentageDelta arithmetic series.2
          coefficientOfVariation :=
            coefficientOfVariation arithmetic distribution series.2.length
          distribution := distribution })

def sameIdentity (first : NormalizedRun F) (recordId : Text) (run : NormalizedRun F) : Bool :=
  run.identity.buildRecordId = some recordId && run.identity.workload = first.identity.workload &&
    run.identity.dmbSha256 = first.identity.dmbSha256 && run.phases = first.phases &&
    run.artifacts.map ArtifactIdentity.kind = first.artifacts.map ArtifactIdentity.kind

def compareNormalized (arithmetic : Arithmetic F) (runs : List (NormalizedRun F)) :
    Except EvidenceError (ComparisonResult F) :=
  if runs.any fun run => !run.identity.verified then
    .error (.message "evidence_identity_mismatch: every run requires verified build identity")
  else
    match runs with
    | [] => .error .panicked
    | first :: _ =>
      match first.identity.buildRecordId with
      | none => .error .panicked
      | some recordId =>
        if runs.any fun run => !sameIdentity first recordId run then
          .error (.message
            "evidence_identity_mismatch: build, workload, phase, or format identity differs")
        else do
          let metrics ← (seriesOf runs).entries.foldlM (compareSeries arithmetic runs.length)
            FinMap.empty
          return ⟨recordId, runs.length, metrics⟩

def compareRuns (context : NativeEvidenceContext F) (requests : List NativeEvidenceRequest) :
    Except EvidenceError (ComparisonResult F) := do
  if requests.length < 2 ∨ maxEvidenceComparisonRuns < requests.length then
    .error (.message "comparison requires 2-20 runs")
  let runs ← requests.mapM (summarizeRun context)
  compareNormalized context.arithmetic runs

end Evidence
