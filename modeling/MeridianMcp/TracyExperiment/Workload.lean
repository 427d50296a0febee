import MeridianMcp.Effects.FinMap
import MeridianMcp.Fallible
import MeridianMcp.Utf8

namespace TracyExperiment

open MeridianMcp Effects Fallible

def maxAnnotations : Nat := 32
def maxAnnotationKeyBytes : Nat := 64
def maxAnnotationValueBytes : Nat := 512
def maxIdentityValueBytes : Nat := 512
def maxFeatures : Nat := 64

structure WorkloadInput where
  map : Option Text
  seed : Option Text
  configurationProfile : Option Text
  featureSet : List Text
  scenario : Option Text
  externalRunId : Option Text
  annotations : FinMap Text Text

structure WorkloadIdentity where
  workloadId : Text
  map : Option Text
  seed : Option Text
  configurationProfile : Option Text
  featureSet : List Text
  scenario : Option Text
  externalRunId : Option Text
  annotations : FinMap Text Text

def WorkloadIdentity.input (identity : WorkloadIdentity) : WorkloadInput :=
  ⟨identity.map, identity.seed, identity.configurationProfile, identity.featureSet,
    identity.scenario, identity.externalRunId, identity.annotations⟩

inductive ExperimentError where
  | valueTooLong (field : String)
  | unsafeValue (field : String)
  | tooManyAnnotations
  | invalidAnnotationKey
  | tooManyFeatures
  | duplicateFeature
  | workloadConflict
  | serialize (message : String)
  deriving DecidableEq, Repr

-- The platform's notion of an absolute path, the JSON serialiser and the digest.
structure Libraries where
  isAbsolute : Text → Bool
  toVec : WorkloadInput → Except String (List UInt8)
  sha256 : List UInt8 → Text

variable (libraries : Libraries)

def canonicalSha256 (input : WorkloadInput) : Except ExperimentError Text :=
  match libraries.toVec input with
  | .ok bytes => .ok (libraries.sha256 bytes)
  | .error message => .error (.serialize message)

def looksAbsolute (value : Text) : Bool :=
  libraries.isAbsolute value || "/".toList.isPrefixOf value || "\\\\".toList.isPrefixOf value ||
    3 ≤ (utf8 value).length && (utf8 value)[1]? = some 0x3a &&
      ((utf8 value)[2]? = some 0x5c || (utf8 value)[2]? = some 0x2f)

def validateValue (field : String) (value : Text) (maximumBytes : Nat) :
    Except ExperimentError Unit :=
  if maximumBytes < (utf8 value).length then .error (.valueTooLong field)
  else if value.any isControl || decide ("$env:".toList <:+: toAsciiLowercase value) ||
      value.contains '%' || looksAbsolute libraries value then .error (.unsafeValue field)
  else .ok ()

def validateField (field : String × Option Text) : Except ExperimentError Unit :=
  match field.2 with
  | none => .ok ()
  | some value => validateValue libraries field.1 value maxIdentityValueBytes

def insertFeature (features : Finset Text) (value : Text) : Except ExperimentError (Finset Text) := do
  validateValue libraries "feature_set" value maxIdentityValueBytes
  ensure (value ∉ features) .duplicateFeature
  return insert value features

def keyByte (index : Nat) (byte : UInt8) : Bool :=
  0x61 ≤ byte && byte ≤ 0x7a || 0x30 ≤ byte && byte ≤ 0x39 && decide (0 < index) ||
    byte == 0x5f && decide (0 < index)

def invalidKey (key : Text) : Bool :=
  key.isEmpty || decide (maxAnnotationKeyBytes < (utf8 key).length) ||
    !((utf8 key).zipIdx.all fun (byte, index) => keyByte index byte) ||
    "_".toList.isSuffixOf key || decide ("__".toList <:+: key)

def validateEntry (entry : Text × Text) : Except ExperimentError Unit :=
  if invalidKey entry.1 then .error .invalidAnnotationKey
  else validateValue libraries "annotation value" entry.2 maxAnnotationValueBytes

def WorkloadInput.fields (input : WorkloadInput) : List (String × Option Text) :=
  [("map", input.map), ("seed", input.seed), ("configuration_profile", input.configurationProfile),
    ("scenario", input.scenario), ("external_run_id", input.externalRunId)]

def validateWorkload (input : WorkloadInput) : Except ExperimentError WorkloadInput := do
  input.fields.forM (validateField libraries)
  ensure (input.featureSet.length ≤ maxFeatures) .tooManyFeatures
  let features ← input.featureSet.foldlM (insertFeature libraries) ∅
  ensure (input.annotations.keys.card ≤ maxAnnotations) .tooManyAnnotations
  input.annotations.entries.forM (validateEntry libraries)
  return { input with featureSet := FinMap.sortKeys features }

def workloadIdentity (input : WorkloadInput) : Except ExperimentError WorkloadIdentity := do
  let input ← validateWorkload libraries input
  let workloadId ← canonicalSha256 libraries input
  return ⟨workloadId, input.map, input.seed, input.configurationProfile, input.featureSet,
    input.scenario, input.externalRunId, input.annotations⟩

def mergeField (existing supplied : Option Text) : Except ExperimentError (Option Text) :=
  match existing, supplied with
  | some left, some right => if left ≠ right then .error .workloadConflict else .ok (some left)
  | some value, none => .ok (some value)
  | none, some value => .ok (some value)
  | none, none => .ok none

def mergeVec (existing supplied : List Text) : Except ExperimentError (List Text) :=
  if !existing.isEmpty && !supplied.isEmpty && existing ≠ supplied then .error .workloadConflict
  else .ok (if existing.isEmpty then supplied else existing)

def mergeEntry (merged : FinMap Text Text) (entry : Text × Text) :
    Except ExperimentError (FinMap Text Text) :=
  if (merged.get entry.1).any (· ≠ entry.2) then .error .workloadConflict
  else .ok (merged.insert entry.1 entry.2)

def mergeAnnotations (existing supplied : FinMap Text Text) :
    Except ExperimentError (FinMap Text Text) :=
  supplied.entries.foldlM mergeEntry existing

def merge (draft capture : WorkloadInput) : Except ExperimentError WorkloadInput := do
  let map ← mergeField draft.map capture.map
  let seed ← mergeField draft.seed capture.seed
  let configurationProfile ← mergeField draft.configurationProfile capture.configurationProfile
  let featureSet ← mergeVec draft.featureSet capture.featureSet
  let scenario ← mergeField draft.scenario capture.scenario
  let externalRunId ← mergeField draft.externalRunId capture.externalRunId
  let annotations ← mergeAnnotations draft.annotations capture.annotations
  return ⟨map, seed, configurationProfile, featureSet, scenario, externalRunId, annotations⟩

def bindWorkload (draft capture : WorkloadInput) : Except ExperimentError WorkloadIdentity := do
  let draft ← validateWorkload libraries draft
  let capture ← validateWorkload libraries capture
  let merged ← merge draft capture
  workloadIdentity libraries merged

def conflicts (actual expected : Option Text) : Bool :=
  actual.any fun value => some value ≠ expected

def verifyLockedWorkload (locked : WorkloadIdentity) (supplied : WorkloadInput) :
    Except ExperimentError Unit := do
  let supplied ← validateWorkload libraries supplied
  ensure (¬ [(supplied.map, locked.map), (supplied.seed, locked.seed),
    (supplied.configurationProfile, locked.configurationProfile), (supplied.scenario, locked.scenario),
    (supplied.externalRunId, locked.externalRunId)].any
      fun (actual, expected) => conflicts actual expected) .workloadConflict
  ensure (supplied.featureSet = [] ∨ supplied.featureSet = locked.featureSet) .workloadConflict
  ensure (¬ supplied.annotations.entries.any
    fun (key, value) => locked.annotations.get key ≠ some value) .workloadConflict

end TracyExperiment
