import MeridianMcp.BuildProvenance.Launch
import MeridianMcp.Delimited
import MeridianMcp.Utf8
import MeridianMcp.Worklist

namespace BuildProvenance

open MeridianMcp Effects Delimited

def trim (text : Text) : Text :=
  ((text.dropWhile isWhitespace).reverse.dropWhile isWhitespace).reverse

def splitWhitespace (text : Text) : List Text := (text.splitOnP isWhitespace).filter (· ≠ [])

-- A line ends in a line feed or in a carriage return and a line feed.
def withoutEnding (piece : Text) : Text :=
  if piece.getLast? = some '\n' then
    let line := piece.dropLast
    if line.getLast? = some '\r' then line.dropLast else line
  else piece

def lines (text : Text) : List Text := (split '\n' text).map withoutEnding

def stripPrefix (start text : Text) : Option Text :=
  if start.isPrefixOf text then some (text.drop start.length) else none

def stripSuffix (ending text : Text) : Option Text :=
  if ending.isSuffixOf text then some (text.take (text.length - ending.length)) else none

-- What follows the first occurrence.
def afterFirst (needle : Text) : Text → Option Text
  | [] => if needle = [] then some [] else none
  | c :: text => if needle.isPrefixOf (c :: text) then some ((c :: text).drop needle.length)
      else afterFirst needle text

def contains (needle text : Text) : Bool := (afterFirst needle text).isSome

def joinPath (directory : PathBuf) (tail : Text) : PathBuf :=
  let components := (tail.splitOn '/').filter fun component => component ≠ [] ∧ component ≠ ['.']
  if tail.head? = some '/' then components else directory ++ components

-- What follows the last point of a name that is not its first character.
def extension (path : PathBuf) : Option Text :=
  match path.getLast? with
  | none => none
  | some name =>
    let ending := (name.reverse.takeWhile (· ≠ '.')).reverse
    if name = "..".toList ∨ name.length ≤ ending.length + 1 then none else some ending

def openComment : Text := "/*".toList

def closeComment : Text := "*/".toList

def inputUnavailable : Text := "build_input_unavailable".toList

def commentNotProved : Text := "comment_lexical_closure_not_proved".toList

structure LineScan where
  blockComment : Bool
  reason : Option Text
  pending : List PathBuf

-- The part of a line that is inside the block comment, when the line is in one or opens one.
def commentBody (blockComment : Bool) (line : Text) : Option Text :=
  if blockComment then some line
  else if openComment.isPrefixOf line then some (line.drop 2)
  else none

def commentDoubtful (body : Text) : Bool :=
  body.any (fun c => c = '#' || c = '"') || contains openComment body ||
    (afterFirst closeComment body).any fun rest => trim rest ≠ []

def isIdentifier : Text → Bool
  | [] => true
  | c :: text => (c = '_' || c.isAlpha) && text.all fun c => c = '_' || c.isAlpha || c.isDigit

def isNumericDefine (line : Text) : Bool :=
  match stripPrefix "#define ".toList line with
  | none => false
  | some define =>
    match splitWhitespace define with
    | [name, value] => isIdentifier name && value ≠ [] && value.all Char.isDigit
    | _ => false

def literalInclude (line : Text) : Option Text :=
  ((stripPrefix "#include \"".toList line).bind (stripSuffix ['"'])).filter fun value =>
    !value.any (fun c => c = '"' || c = '#') && value ≠ []

def scanLine (directory : PathBuf) (scan : LineScan) (raw : Text) : LineScan :=
  let line := trim raw
  match commentBody scan.blockComment line with
  | some body =>
    { scan with
      reason := if commentDoubtful body then some commentNotProved else scan.reason
      blockComment := !closeComment.isSuffixOf body }
  | none =>
    if contains openComment line || contains closeComment line then
      { scan with reason := some commentNotProved }
    else if '#' ∉ line then scan
    else if isNumericDefine line then scan
    else match literalInclude line with
      | none => { scan with reason := some "preprocessor_closure_not_proved".toList }
      | some value =>
        let included := joinPath directory value
        if extension included = some "dm".toList ∨ extension included = some "dme".toList then
          { scan with pending := included :: scan.pending }
        else { scan with reason := some "compiler_map_skin_script_closure_not_proved".toList }

structure Snapshot where
  environmentPath : PathBuf
  sourceInputs : List PathBuf
  discoveryPaths : List PathBuf

structure FixtureManifest where
  manifestPath : PathBuf
  inputs : List (PathBuf × Text)

structure PreparedBuild where
  inputs : List BuildInputIdentity
  compiler : FileIdentity
  verification : BuildVerification
  reason : Option Text
  deriving DecidableEq

namespace PreparedBuild

def because (prepared : PreparedBuild) (reason : String) : PreparedBuild :=
  { prepared with reason := some reason.toList }

def push (prepared : PreparedBuild) (input : BuildInputIdentity) : PreparedBuild :=
  { prepared with inputs := prepared.inputs ++ [input] }

end PreparedBuild

-- `readToString` gives the text of a file whose bytes are valid UTF-8.
structure BuildHost extends Host where
  readToString : PathBuf → Option Text

namespace BuildHost

variable (host : BuildHost)

def captureAuthorized (root path : PathBuf) (role : Text) : Option BuildInputIdentity := do
  let resolved ← host.readPath path
  let identity ← host.capture resolved
  let relative := if root.isPrefixOf path then Host.normalizeRelative (path.drop root.length)
    else "<authorized-external>".toList
  some ⟨path, some identity.path, relative, role, identity.size, identity.sha256⟩

def ambiguous (text : Text) : Bool :=
  text.any fun c => c = '\\' || c = '\'' || c = Char.ofNat 0 || 128 ≤ c.toNat

def directoryOf (root path : PathBuf) : PathBuf := if path = [] then root else path.dropLast

def visitText (root path : PathBuf) (text : Text) (prepared : PreparedBuild) :
    PreparedBuild × List PathBuf :=
  if ambiguous text then
    (prepared.because "compiler_resource_or_lexical_closure_not_proved", [])
  else
    let scan := (lines text).foldl (scanLine (directoryOf root path)) ⟨false, prepared.reason, []⟩
    let reason := if scan.blockComment then some commentNotProved else scan.reason
    ({ prepared with reason }, scan.pending)

def unparsed (snapshot : Snapshot) (path : PathBuf) (input : BuildInputIdentity) : Bool :=
  !snapshot.sourceInputs.any fun item => item = path ∨ some item = input.resolvedPath

def visitSource (root : PathBuf) (snapshot : Option Snapshot) (prepared : PreparedBuild)
    (path : PathBuf) : PreparedBuild × List PathBuf :=
  match host.captureAuthorized root path "source".toList with
  | none => (prepared.because "build_input_unavailable", [])
  | some input =>
    let prepared := if snapshot.any fun snapshot => unparsed snapshot path input then
      prepared.because "parser_closure_changed" else prepared
    let prepared := prepared.push input
    match host.readToString path with
    | none => (prepared.because "source_encoding_not_proved", [])
    | some text =>
      let prepared := if host.sha256 (utf8 text) ≠ input.sha256 then
        prepared.because "build_inputs_changed" else prepared
      visitText root path text prepared

def captureInput (root : PathBuf) (prepared : PreparedBuild) (path : PathBuf) (role : Text) :
    PreparedBuild :=
  match host.captureAuthorized root path role with
  | some input => prepared.push input
  | none => prepared.because "build_input_unavailable"

def captureAnalysisInput (root : PathBuf) (prepared : PreparedBuild) (path : PathBuf) :
    PreparedBuild :=
  if prepared.inputs.any fun input => input.path = path then prepared
  else host.captureInput root prepared path "analysis_input".toList

def captureDiscovery (root : PathBuf) (prepared : PreparedBuild) (path : PathBuf) :
    PreparedBuild :=
  match host.symlinkMetadata path with
  | .notFound =>
    { prepared with
      verification :=
        { prepared.verification with
          absentInputs := prepared.verification.absentInputs ++ [path] } }
  | .refused => prepared.because "build_input_unavailable"
  | _ => host.captureInput root prepared path "configuration".toList

def captureSnapshot (root : PathBuf) (snapshot : Snapshot) (prepared : PreparedBuild) :
    PreparedBuild :=
  snapshot.discoveryPaths.foldl (host.captureDiscovery root)
    (snapshot.sourceInputs.foldl (host.captureAnalysisInput root) prepared)

def captureFixture (root : PathBuf) (fixture : FixtureManifest) (prepared : PreparedBuild) :
    PreparedBuild :=
  ((fixture.manifestPath, "fixture_manifest".toList) :: fixture.inputs).foldl
    (fun prepared input => host.captureInput root prepared input.1 input.2) prepared

def buildInputLimit : Nat := 10000

def captureSources (root : PathBuf) (snapshot : Option Snapshot) (dme : PathBuf)
    (prepared : PreparedBuild) : PreparedBuild :=
  Worklist.walk buildInputLimit (fun prepared => prepared.because "build_input_limit")
    (host.visitSource root snapshot) prepared [dme] []

def started (compiler : FileIdentity) (matching : Option Snapshot) (arguments : List Text)
    (workingDirectory : PathBuf) : PreparedBuild :=
  let prepared : PreparedBuild :=
    ⟨[], compiler, ⟨"literal_dm_closure_v1".toList, arguments, workingDirectory, []⟩, none⟩
  let prepared := if matching.isNone then prepared.because "matching_snapshot_required"
    else prepared
  if arguments.length ≠ 1 then prepared.because "effective_defines_not_proved" else prepared

def matching (snapshot : Option Snapshot) (dme : PathBuf) : Option Snapshot :=
  snapshot.filter fun snapshot => snapshot.environmentPath = dme

def captureRest (root : PathBuf) (matching : Option Snapshot) (fixture : Option FixtureManifest)
    (prepared : PreparedBuild) : PreparedBuild :=
  let prepared := match matching with
    | some snapshot => host.captureSnapshot root snapshot prepared
    | none => prepared
  match fixture with
  | some fixture => host.captureFixture root fixture prepared
  | none => prepared

def captureBuild (snapshot : Option Snapshot) (fixture : Option FixtureManifest)
    (dme compiler : PathBuf) (arguments : List Text) (workingDirectory : PathBuf) :
    Option PreparedBuild := do
  let compiler ← host.capture compiler
  if dme = [] then none
  else
    let root := dme.dropLast
    let matching := matching snapshot dme
    let prepared := started compiler matching arguments workingDirectory
    some (host.captureRest root matching fixture
      (host.captureSources root matching dme prepared))

def unchanged (path : PathBuf) (size : Nat) (sha256 : Text) (resolved : Option PathBuf) : Bool :=
  (host.capture path).any fun current =>
    current.size = size ∧ current.sha256 = sha256 ∧ resolved.all (· = current.path)

def finishReason (prepared : PreparedBuild) : Option Text :=
  if (prepared.inputs.any fun input =>
        !host.unchanged input.path input.size input.sha256 input.resolvedPath) ||
      (prepared.verification.absentInputs.any fun path =>
        match host.symlinkMetadata path with
        | .notFound | .refused => false
        | _ => true) ||
      !host.unchanged prepared.compiler.path prepared.compiler.size prepared.compiler.sha256 none
  then some "build_inputs_changed".toList
  else prepared.reason

end BuildHost

variable {body rest : Text}

theorem withoutEnding_piece :
    withoutEnding (body ++ ['\n']) = if body.getLast? = some '\r' then body.dropLast else body := by
  rw [withoutEnding, if_pos (List.getLast?_concat ..), List.dropLast_concat]

theorem withoutEnding_last (h : '\n' ∉ body) : withoutEnding body = body :=
  if_neg fun hlast => h (List.mem_of_getLast? hlast)

theorem lines_piece (h : '\n' ∉ body) :
    lines (body ++ '\n' :: rest) = withoutEnding (body ++ ['\n']) :: lines rest := by
  rw [lines, split_piece h, List.map_cons]
  rfl

theorem lines_last (h : '\n' ∉ body) (hne : body ≠ []) : lines body = [body] := by
  rw [lines, split_last h hne, List.map_singleton, withoutEnding_last h]

theorem not_mem_lines (text : Text) : ∀ line ∈ lines text, '\n' ∉ line := by
  induction text using pieces_induction '\n' with
  | nil => nofun
  | last body h hne =>
    rw [lines_last h hne]
    simpa using h
  | piece body rest h ih =>
    rw [lines_piece h, List.forall_mem_cons]
    refine ⟨?_, ih⟩
    rw [withoutEnding_piece]
    split
    · exact fun hin => h (List.dropLast_subset body hin)
    · exact h

end BuildProvenance
