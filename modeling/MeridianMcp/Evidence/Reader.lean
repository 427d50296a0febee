import Mathlib.Algebra.Ring.Nat
import MeridianMcp.Effects.FileSystem
import MeridianMcp.Effects.FinMap
import MeridianMcp.Evidence.Redacts
import MeridianMcp.Text

namespace Evidence

open MeridianMcp Effects

inductive EvidenceError where
  | message (text : String)
  | external
  | panicked
  deriving DecidableEq, Repr

inductive ArtifactKind where
  | byondProcProfileJson
  | byondSendmapsJson
  | performanceCsv
  | runtimeJsonl
  | eventJsonl
  deriving DecidableEq, Repr

structure ArtifactOptions where
  selectedMetrics : List Text
  wallTimeField : Option Text
  worldTimeField : Option Text
  groupFields : List Text

structure ArtifactDescriptor where
  kind : ArtifactKind
  path : Text
  options : Option ArtifactOptions

structure PhaseInput where
  id : Text
  wallStart : Option Text
  wallEnd : Option Text
  worldStartDs : Option Int
  worldEndDs : Option Int
  deriving DecidableEq, Repr

structure WorkloadIdentityInput where
  map : Option Text
  seed : Option Text
  configurationProfile : Option Text
  scenario : Option Text
  deriving DecidableEq, Repr

structure NativeEvidenceRequest where
  artifacts : List ArtifactDescriptor
  dmbPath : Option Text
  workload : Option WorkloadIdentityInput
  phases : List PhaseInput

inductive EvidenceSemantics where
  | cumulativeSnapshot
  | intervalSeries
  | eventStream
  deriving DecidableEq, Repr

structure ArtifactIdentity where
  relativePath : Text
  kind : ArtifactKind
  bytes : Nat
  sha256 : Text
  deriving DecidableEq, Repr

structure ReadArtifact where
  identity : ArtifactIdentity
  bytes : Bytes

structure EvidenceRecord (F : Type) where
  wallUnixMs : Option Int
  worldDeciseconds : Option Int
  sampleIndex : Nat
  metrics : FinMap Text F
  groups : FinMap Text Text

structure ParsedArtifact (F : Type) where
  identity : ArtifactIdentity
  semantics : EvidenceSemantics
  records : List (EvidenceRecord F)
  acceptedRecords : Nat
  rejectedRecords : Nat
  unavailableMetrics : List Text

def maxEvidenceArtifacts : Nat := 32
def maxEvidenceRows : Nat := 5000000
def maxEvidenceColumns : Nat := 512
def maxEvidenceLineBytes : Nat := 1024 * 1024
def maxEvidenceStringBytes : Nat := 64 * 1024
def maxEvidenceGroups : Nat := 100000
def maxEvidencePhases : Nat := 64
def maxEvidenceSelectedMetrics : Nat := 64
def maxEvidenceReturnedGroups : Nat := 1000
def maxEvidenceComparisonRuns : Nat := 20

def utf8Len (text : Text) : Nat := (text.map Char.utf8Size).sum

inductive Number (F : Type) where
  | int (value : Int)
  | float (value : F)

-- The fields of an object come in the order of its map.
inductive Json (F : Type) where
  | null
  | bool (value : Bool)
  | number (value : Number F)
  | string (value : Text)
  | array (values : List (Json F))
  | object (fields : List (Text × Json F))

-- The parsers the readers call: those of the standard library, and of the JSON, CSV and time
-- libraries. A row that the CSV library rejects is `none`.
structure Formats (F : Type) where
  fromUtf8 : Bytes → Option Text
  isWhitespace : Char → Bool
  fromStr : Text → Option (Json F)
  fromStr_nodup : ∀ text fields, fromStr text = some (.object fields) →
    (fields.map Prod.fst).Nodup
  csvRecords : Bytes → Option (List Text × List (Option (List Text)))
  parseFloat : Text → Option F
  isFinite : F → Bool
  ofInt : Int → F
  parseRfc3339Ms : Text → Option Int

variable {F : Type}

def i64 (value : Int) : Option Int :=
  if -2 ^ 63 ≤ value ∧ value < 2 ^ 63 then some value else none

def Json.asF64 (formats : Formats F) : Json F → Option F
  | .number (.int value) => some (formats.ofInt value)
  | .number (.float value) => some value
  | _ => none

def Json.asI64 : Json F → Option Int
  | .number (.int value) => i64 value
  | _ => none

def Json.asStr : Json F → Option Text
  | .string value => some value
  | _ => none

def Json.asArray : Json F → Option (List (Json F))
  | .array values => some values
  | _ => none

def Json.asObject : Json F → List (Text × Json F)
  | .object fields => fields
  | _ => []

mutual

def validateJsonDepth : Json F → Nat → Except EvidenceError Unit
  | value, depth =>
    if 64 < depth then .error (.message "evidence JSON exceeds fixed depth limit")
    else
      match value with
      | .array values => validateValues values (depth + 1)
      | .object fields => validateFields fields (depth + 1)
      | .string text =>
        if maxEvidenceStringBytes < utf8Len text then
          .error (.message "evidence JSON string exceeds fixed byte limit")
        else .ok ()
      | _ => .ok ()

def validateValues : List (Json F) → Nat → Except EvidenceError Unit
  | [], _ => .ok ()
  | value :: rest, depth =>
    match validateJsonDepth value depth with
    | .error e => .error e
    | .ok () => validateValues rest depth

def validateFields : List (Text × Json F) → Nat → Except EvidenceError Unit
  | [], _ => .ok ()
  | (_, value) :: rest, depth =>
    match validateJsonDepth value depth with
    | .error e => .error e
    | .ok () => validateFields rest depth

end

def parseWall (formats : Formats F) (value : Json F) : Option Int :=
  match value.asI64 with
  | some number => some number
  | none => value.asStr.bind formats.parseRfc3339Ms

def selected (options : Option ArtifactOptions) (name : Text) : Bool :=
  options.all fun item => item.selectedMetrics = [] || item.selectedMetrics.any (· = name)

structure Scan (F : Type) where
  metrics : FinMap Text F
  groups : FinMap Text Text
  wallUnixMs : Option Int
  worldDeciseconds : Option Int
  redacted : Nat

def scanField (formats : Formats F) (options : Option ArtifactOptions) (scan : Scan F)
    (field : Text × Json F) : Scan F :=
  if (options.bind ArtifactOptions.wallTimeField) = some field.1 then
    { scan with wallUnixMs := parseWall formats field.2 }
  else if (options.bind ArtifactOptions.worldTimeField) = some field.1 then
    { scan with worldDeciseconds := field.2.asI64 }
  else
    match field.2.asF64 formats with
    | some number =>
      if selected options field.1 && formats.isFinite number then
        { scan with metrics := scan.metrics.insert field.1 number }
      else scan
    | none =>
      match field.2.asStr with
      | none => scan
      | some text =>
        if protectedName field.1 then { scan with redacted := scan.redacted + 1 }
        else if options.any fun item => item.groupFields.any (· = field.1) then
          let sanitized := sanitizeText formats.isWhitespace text
          { scan with
            redacted := scan.redacted + sanitized.2
            groups :=
              if utf8Len sanitized.1 ≤ maxEvidenceStringBytes then
                scan.groups.insert field.1 sanitized.1
              else scan.groups }
        else scan

def scalarRecord (formats : Formats F) (value : Json F) (index : Nat)
    (options : Option ArtifactOptions) (redacted : Nat) : EvidenceRecord F × Nat :=
  let scan := value.asObject.foldl (scanField formats options)
    ⟨FinMap.empty, FinMap.empty, none, none, redacted⟩
  ({ wallUnixMs := scan.wallUnixMs
     worldDeciseconds := scan.worldDeciseconds
     sampleIndex := index
     metrics := scan.metrics
     groups := scan.groups }, scan.redacted)

structure Reading (F : Type) where
  records : List (EvidenceRecord F)
  rejected : Nat
  redacted : Nat

namespace Csv

def cellValue (formats : Formats F) (cell : Text) : Json F :=
  match formats.parseFloat cell with
  | some number => if formats.isFinite number then .number (.float number) else .null
  | none => .string cell

def keptFields (formats : Formats F) (cells : List (Text × Text)) : List (Text × Json F) :=
  (cells.filter fun cell => !protectedName cell.1).map fun cell =>
    (cell.1, cellValue formats cell.2)

def rowObject (formats : Formats F) (cells : List (Text × Text)) : Json F :=
  .object ((keptFields formats cells).insertionSort fun left right => left.1 ≤ right.1)

def readRow (formats : Formats F) (options : Option ArtifactOptions) (headers : List Text)
    (reading : Reading F) (row : Option (List Text) × Nat) : Except EvidenceError (Reading F) :=
  if maxEvidenceRows ≤ row.2 then .error (.message "evidence row limit exceeded")
  else
    match row.1 with
    | none => .ok { reading with rejected := reading.rejected + 1 }
    | some cells =>
      let pairs := headers.zip cells
      let hidden := (pairs.filter fun cell => protectedName cell.1).length
      let record := scalarRecord formats (rowObject formats pairs) row.2 options
        (reading.redacted + hidden)
      .ok { reading with records := reading.records ++ [record.1], redacted := record.2 }

def parse (formats : Formats F) (read : ReadArtifact) (descriptor : ArtifactDescriptor)
    (redacted : Nat) : Except EvidenceError (ParsedArtifact F × Nat) := do
  match formats.csvRecords read.bytes with
  | none => .error .external
  | some (headers, rows) =>
    if maxEvidenceColumns < headers.length then
      .error (.message "evidence column limit exceeded")
    else if headers.toFinset.card ≠ headers.length then
      .error (.message "CSV headers must be unique")
    else
      let reading ← rows.zipIdx.foldlM (readRow formats descriptor.options headers) ⟨[], 0, redacted⟩
      return ({ identity := read.identity
                semantics := .intervalSeries
                records := reading.records
                acceptedRecords := reading.records.length
                rejectedRecords := reading.rejected
                unavailableMetrics := [] }, reading.redacted)

end Csv

namespace Jsonl

def stripCarriage (line : Text) : Text :=
  if line.getLast? = some '\r' then line.dropLast else line

def lines (text : Text) : List Text :=
  let pieces := text.splitOn '\n'
  (if pieces.getLast? = some [] then pieces.dropLast else pieces).map stripCarriage

def blank (formats : Formats F) (line : Text) : Bool := line.all formats.isWhitespace

def readLine (formats : Formats F) (options : Option ArtifactOptions) (reading : Reading F)
    (line : Text × Nat) : Except EvidenceError (Reading F) :=
  if maxEvidenceLineBytes < utf8Len line.1 then .error (.message "evidence line limit exceeded")
  else if blank formats line.1 then .ok reading
  else if maxEvidenceRows ≤ reading.records.length then
    .error (.message "evidence row limit exceeded")
  else
    match formats.fromStr line.1 with
    | none => .error .external
    | some value =>
      match validateJsonDepth value 0 with
      | .error e => .error e
      | .ok () =>
        let record := scalarRecord formats value line.2 options reading.redacted
        .ok { reading with records := reading.records ++ [record.1], redacted := record.2 }

def parse (formats : Formats F) (read : ReadArtifact) (descriptor : ArtifactDescriptor)
    (redacted : Nat) : Except EvidenceError (ParsedArtifact F × Nat) := do
  match formats.fromUtf8 read.bytes with
  | none => .error .external
  | some text =>
    let reading ← (lines text).zipIdx.foldlM (readLine formats descriptor.options) ⟨[], 0, redacted⟩
    return ({ identity := read.identity
              semantics := .eventStream
              records := reading.records
              acceptedRecords := reading.records.length
              rejectedRecords := 0
              unavailableMetrics := [] }, reading.redacted)

end Jsonl

namespace Byond

def recordsOf (value : Json F) : Except EvidenceError (List (Json F)) :=
  match value with
  | .array values => .ok values
  | .object fields =>
    match (fields.lookup "records".toList).bind Json.asArray with
    | some values => .ok values
    | none => .ok [value]
  | _ => .error (.message "BYOND evidence must be an object or array")

def readValue (formats : Formats F) (options : Option ArtifactOptions) (reading : Reading F)
    (value : Json F × Nat) : Reading F :=
  let record := scalarRecord formats value.1 value.2 options reading.redacted
  { reading with records := reading.records ++ [record.1], redacted := record.2 }

def parse (formats : Formats F) (read : ReadArtifact) (descriptor : ArtifactDescriptor)
    (redacted : Nat) : Except EvidenceError (ParsedArtifact F × Nat) := do
  match (formats.fromUtf8 read.bytes).bind formats.fromStr with
  | none => .error .external
  | some value =>
    validateJsonDepth value 0
    let values ← recordsOf value
    if maxEvidenceRows < values.length then .error (.message "evidence row limit exceeded")
    else
      let reading := values.zipIdx.foldl (readValue formats descriptor.options) ⟨[], 0, redacted⟩
      return ({ identity := read.identity
                semantics := .cumulativeSnapshot
                records := reading.records
                acceptedRecords := reading.records.length
                rejectedRecords := 0
                unavailableMetrics := [] }, reading.redacted)

end Byond

def parseRead (formats : Formats F) (read : ReadArtifact) (descriptor : ArtifactDescriptor)
    (redacted : Nat) : Except EvidenceError (ParsedArtifact F × Nat) :=
  match descriptor.kind with
  | .byondProcProfileJson => Byond.parse formats read descriptor redacted
  | .byondSendmapsJson => Byond.parse formats read descriptor redacted
  | .performanceCsv => Csv.parse formats read descriptor redacted
  | .runtimeJsonl => Jsonl.parse formats read descriptor redacted
  | .eventJsonl => Jsonl.parse formats read descriptor redacted

end Evidence
