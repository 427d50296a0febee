import MeridianMcp.PrivateState.Outcome
import MeridianMcp.Text

namespace BuildProvenance

open MeridianMcp

abbrev PathBuf := List Text

structure FileIdentity where
  path : PathBuf
  size : Nat
  sha256 : Text
  deriving DecidableEq, Repr

structure ProjectBuildIdentity where
  root : PathBuf
  repositoryIdentity : Text
  headRevision : Option Text
  dirty : Option Bool
  deriving DecidableEq, Repr

structure BuildInputIdentity where
  path : PathBuf
  resolvedPath : Option PathBuf
  relativePath : Text
  role : Text
  size : Nat
  sha256 : Text
  deriving DecidableEq, Repr

structure BuildVerification where
  method : Text
  arguments : List Text
  workingDirectory : PathBuf
  absentInputs : List PathBuf
  deriving DecidableEq, Repr

structure BuildRecord where
  schema : Nat
  recordId : Text
  artifactKey : Text
  project : ProjectBuildIdentity
  inputs : List BuildInputIdentity
  verification : Option BuildVerification
  dmb : FileIdentity
  rsc : Option FileIdentity
  createdAtUnixMs : Nat
  deriving DecidableEq, Repr

inductive BuildAttemptOutcome where
  | succeeded
  | failed (code : Text)
  | unverified (code : Text)
  deriving DecidableEq, Repr

structure BuildAttempt where
  schema : Nat
  attemptId : Text
  artifactKey : Text
  outcome : BuildAttemptOutcome
  observedInputs : List BuildInputIdentity
  retainedDmbSha256 : Option Text
  createdAtUnixMs : Nat
  deriving DecidableEq, Repr

inductive ProvenanceStatus where
  | verified | unverified | stale
  deriving DecidableEq, Repr

structure ProvenanceReason where
  code : String
  message : String
  role : Option Text
  path : Option PathBuf
  deriving DecidableEq, Repr

structure LaunchDecision where
  status : ProvenanceStatus
  allowed : Bool
  recordId : Option Text
  reasons : List ProvenanceReason
  deriving DecidableEq, Repr

structure LaunchProvenance where
  status : ProvenanceStatus
  buildRecordId : Option Text
  dmbSha256 : Text
  warnings : List ProvenanceReason
  deriving DecidableEq, Repr

open MeridianMcp Effects PrivateState

inductive FileMetadata where
  | file (size : Nat)
  | other
  | notFound
  | refused
  deriving DecidableEq

structure EffectiveRoot where
  path : PathBuf
  repositoryIdentity : Option Text
  headRevision : Option Text
  dirty : Option Bool

-- The file system and the path policy as one call finds them; `digest` is SHA-256 of a text.
structure Host where
  symlinkMetadata : PathBuf → FileMetadata
  existing : PathBuf → Bool
  canonicalize : PathBuf → Option PathBuf
  contents : PathBuf → Option Bytes
  readPath : PathBuf → Option PathBuf
  effectiveRoots : List EffectiveRoot
  sha256 : Bytes → Text
  digest : Text → Text

structure ArtifactLocation where
  schema : Nat
  artifactKey : Text
  deriving DecidableEq

structure ProvenanceState where
  builds : Text → Slot BuildRecord
  locations : Text → Slot ArtifactLocation
  attempts : Text → Slot BuildAttempt

def ProvenanceState.empty : ProvenanceState := ⟨fun _ => .absent, fun _ => .absent, fun _ => .absent⟩

def render (path : PathBuf) : Text := path.flatMap fun component => '/' :: component

def lowercase (path : Text) : Text := path.map Char.toLower

namespace Host

variable (host : Host)

def capture (path : PathBuf) : Option FileIdentity :=
  match host.symlinkMetadata path with
  | .file size => do
    let path ← host.canonicalize path
    let bytes ← host.contents path
    pure ⟨path, size, host.sha256 bytes⟩
  | _ => none

-- The path itself, or its directory and its name.
def resolving (resolve : PathBuf → Option PathBuf) (path : PathBuf) : Option PathBuf :=
  if host.existing path then resolve path
  else
    match path.getLast? with
    | none => none
    | some name => (resolve path.dropLast).map fun parent => parent ++ [name]

def deepest (artifact : PathBuf) : Option EffectiveRoot :=
  (host.effectiveRoots.filter fun root => root.path.isPrefixOf artifact).foldl
    (fun best root => match best with
      | some found => if found.path.length ≤ root.path.length then some root else best
      | none => some root) none

def normalizeRelative (path : PathBuf) : Text := ['/'].intercalate path

def projectAndRelative (artifactPath : PathBuf) : Option (ProjectBuildIdentity × Text) := do
  let artifact ← host.resolving host.readPath artifactPath
  let root ← host.deepest artifact
  let relative := normalizeRelative (artifact.drop root.path.length)
  let repositoryIdentity := root.repositoryIdentity.getD (host.digest (render root.path))
  pure (⟨root.path, repositoryIdentity, root.headRevision, root.dirty⟩, relative)

def projectIdentity (artifactPath : PathBuf) : Option ProjectBuildIdentity :=
  (host.projectAndRelative artifactPath).map Prod.fst

def artifactKey (dmbPath : PathBuf) : Option Text :=
  (host.projectAndRelative dmbPath).map fun (project, relative) =>
    host.digest (project.repositoryIdentity ++ ['\n'] ++ relative)

def locationKey (path : PathBuf) : Option Text :=
  (host.resolving host.canonicalize path).map fun path => host.digest (lowercase (render path))

end Host

def readOptional {α : Type} : Slot α → Option (Option α)
  | .absent => some none
  | .unreadable => none
  | .record v => some (some v)

def readRecord {α : Type} : Slot α → Option α
  | .record v => some v
  | _ => none

def reason (code message : String) (role : Option Text) (path : Option PathBuf) : ProvenanceReason :=
  ⟨code, message, role, path⟩

def compareOutput (host : Host) (recorded : FileIdentity) (code message : String) : List ProvenanceReason :=
  match host.capture recorded.path with
  | some current =>
    if current.size = recorded.size ∧ current.sha256 = recorded.sha256 then []
    else [reason code message none (some recorded.path)]
  | none => [reason code message none (some recorded.path)]

def compareInput (host : Host) (input : BuildInputIdentity) : List ProvenanceReason :=
  match host.capture input.path with
  | some current =>
    if current.size = input.size ∧ current.sha256 = input.sha256 ∧
        (∀ path ∈ input.resolvedPath, path = current.path) then []
    else [reason "input_changed" "a recorded build input changed" (some input.role) (some input.path)]
  | none => [reason "input_missing" "a recorded build input is missing or not a regular file" (some input.role)
      (some input.path)]

def metadataIsOk : FileMetadata → Bool
  | .file _ => true
  | .other => true
  | _ => false

def compareAbsent (host : Host) (path : PathBuf) : List ProvenanceReason :=
  if metadataIsOk (host.symlinkMetadata path) then
    [reason "input_appeared" "an absent build configuration input appeared" none (some path)]
  else []

def compareAttempt (dmbPath : PathBuf) (record : BuildRecord) : Option BuildAttempt → List ProvenanceReason
  | none => []
  | some attempt =>
    if record.createdAtUnixMs ≤ attempt.createdAtUnixMs then
      match attempt.outcome with
      | .succeeded => []
      | .failed _ => [reason "later_compile_failed"
          "a later compile attempt did not establish verified provenance" none (some dmbPath)]
      | .unverified _ => [reason "later_compile_unverified"
          "a later compile attempt did not establish verified provenance" none (some dmbPath)]
    else []

def compareProject (current recorded : ProjectBuildIdentity) : List ProvenanceReason :=
  if current ≠ recorded then
    [reason "repository_identity_changed"
      "the current project identity differs from the recorded successful build" none (some current.root)]
  else []

def unverified (requireVerified : Bool) : LaunchDecision :=
  ⟨.unverified, !requireVerified, none,
    [reason "no_build_record" "no managed successful build record exists for this artifact" none none]⟩

def supported (record : BuildRecord) : Bool :=
  record.schema == 2 &&
    match record.verification with
    | none => false
    | some proof => proof.method == "literal_dm_closure_v1".toList && !proof.arguments.isEmpty

def decideLaunch (requireVerified : Bool) (record : BuildRecord) (reasons : List ProvenanceReason) : LaunchDecision :=
  if reasons.isEmpty && !supported record then
    ⟨.unverified, !requireVerified, some record.recordId,
      [reason "unsupported_build_verification"
        "legacy or unsupported build evidence cannot prove effective compiler inputs" none none]⟩
  else if reasons.isEmpty then ⟨.verified, true, some record.recordId, reasons⟩
  else ⟨.stale, false, some record.recordId, reasons⟩

namespace ProvenanceState

def recordSuccess (host : Host) (record : BuildRecord) (buildWrite locationWrite : WriteOutcome)
    (state : ProvenanceState) : Bool × ProvenanceState :=
  if (record.schema ≠ 1 ∧ record.schema ≠ 2) ∨ record.recordId = [] ∨ record.artifactKey.length ≠ 64 then
    (false, state)
  else if host.artifactKey record.dmb.path ≠ some record.artifactKey then (false, state)
  else
    let build := buildWrite.leaves record (state.builds record.artifactKey)
    let state := { state with builds := Function.update state.builds record.artifactKey build }
    if buildWrite ≠ .ok then (false, state)
    else
      match host.locationKey record.dmb.path with
      | none => (false, state)
      | some key =>
        let location := locationWrite.leaves ⟨1, record.artifactKey⟩ (state.locations key)
        (decide (locationWrite = .ok), { state with locations := Function.update state.locations key location })

def recordAttempt (attempt : BuildAttempt) (write : WriteOutcome) (state : ProvenanceState) : Bool × ProvenanceState :=
  if attempt.schema ≠ 1 ∨ attempt.attemptId = [] ∨ attempt.artifactKey.length ≠ 64 then (false, state)
  else
    let entry := write.leaves attempt (state.attempts attempt.artifactKey)
    (decide (write = .ok), { state with attempts := Function.update state.attempts attempt.artifactKey entry })

-- The three records are read in one read transaction.
def evaluateLaunch (host : Host) (state : ProvenanceState) (dmbPath : PathBuf) (requireVerified : Bool) :
    Option LaunchDecision := do
  let dmbPath ← host.resolving host.readPath dmbPath
  let key ← host.locationKey dmbPath
  match ← readOptional (state.locations key) with
  | none => pure (unverified requireVerified)
  | some location =>
    if location.schema ≠ 1 ∨ location.artifactKey.length ≠ 64 then none
    else
      let record ← readRecord (state.builds location.artifactKey)
      let attempt ← readOptional (state.attempts record.artifactKey)
      let currentProject ← host.projectIdentity dmbPath
      let absentInputs := (record.verification.map BuildVerification.absentInputs).getD []
      pure (decideLaunch requireVerified record
        (compareProject currentProject record.project ++ record.inputs.flatMap (compareInput host) ++
          absentInputs.flatMap (compareAbsent host) ++
          compareOutput host record.dmb "dmb_changed" "the managed DMB changed" ++
          (record.rsc.toList.flatMap fun rsc => compareOutput host rsc "rsc_changed" "the managed RSC changed") ++
          compareAttempt dmbPath record attempt))

end ProvenanceState

end BuildProvenance
