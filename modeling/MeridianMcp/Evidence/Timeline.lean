import MeridianMcp.Evidence.Reader

namespace Evidence

open MeridianMcp Effects

variable {F : Type}

def wallMs (formats : Formats F) : Option Text → Except EvidenceError (Option Int)
  | none => .ok none
  | some value =>
    match formats.parseRfc3339Ms value with
    | some ms => .ok (some ms)
    | none => .error .external

def contains (start stop value : Option Int) : Bool :=
  match start, stop, value with
  | some start, some stop, some value => start ≤ value && value < stop
  | _, _, _ => false

def overlaps (aStart aEnd bStart bEnd : Option Int) : Bool :=
  match aStart, aEnd, bStart, bEnd with
  | some a, some b, some c, some d => a < d && c < b
  | _, _, _, _ => false

def notIncreasing (start stop : Option Int) : Bool :=
  match start, stop with
  | some start, some stop => stop ≤ start
  | _, _ => false

def validatePhase (formats : Formats F) (phase : PhaseInput) : Except EvidenceError Unit := do
  if phase.id = [] ∨ 256 < utf8Len phase.id then
    .error (.message "phase identifiers must contain 1-256 bytes")
  let start ← wallMs formats phase.wallStart
  let stop ← wallMs formats phase.wallEnd
  if notIncreasing start stop then
    .error (.message "phase wall ranges must be half-open and increasing")
  if notIncreasing phase.worldStartDs phase.worldEndDs then
    .error (.message "phase world ranges must be half-open and increasing")

def validatePair (formats : Formats F) (left right : PhaseInput) : Except EvidenceError Unit := do
  if overlaps left.worldStartDs left.worldEndDs right.worldStartDs right.worldEndDs then
    .error (.message "phase ranges overlap")
  else
    let leftStart ← wallMs formats left.wallStart
    let leftEnd ← wallMs formats left.wallEnd
    let rightStart ← wallMs formats right.wallStart
    let rightEnd ← wallMs formats right.wallEnd
    if overlaps leftStart leftEnd rightStart rightEnd then
      .error (.message "phase ranges overlap")

def validatePairs (formats : Formats F) : List PhaseInput → Except EvidenceError Unit
  | [] => .ok ()
  | left :: rest => do
    rest.forM (validatePair formats left)
    validatePairs formats rest

def validatePhases (formats : Formats F) (phases : List PhaseInput) : Except EvidenceError Unit := do
  phases.forM (validatePhase formats)
  validatePairs formats phases

def wallMs? (formats : Formats F) (value : Option Text) : Option Int :=
  value.bind formats.parseRfc3339Ms

def assign (formats : Formats F) (record : EvidenceRecord F) (phases : List PhaseInput) :
    Except EvidenceError (Option Text) :=
  let wall := (phases.filter fun phase => contains (wallMs? formats phase.wallStart)
    (wallMs? formats phase.wallEnd) record.wallUnixMs).map PhaseInput.id
  let world := (phases.filter fun phase => contains phase.worldStartDs phase.worldEndDs
    record.worldDeciseconds).map PhaseInput.id
  if 1 < wall.length ∨ 1 < world.length then .error (.message "record matches multiple phases")
  else
    match wall.head?, world.head? with
    | some left, some right =>
      if left ≠ right then .error (.message "wall and world clocks assign different phases")
      else .ok (some left)
    | some value, none => .ok (some value)
    | none, some value => .ok (some value)
    | none, none => .ok none

end Evidence
