import MeridianMcp.BuildProvenance.Launch
import MeridianMcp.PrivateState.Outcome
import MeridianMcp.WorkspaceIntegrity.Capture
import MeridianMcp.WorkspaceIntegrity.Snapshot

namespace RuntimeIntegrity

open MeridianMcp WorkspaceIntegrity
open BuildProvenance (LaunchProvenance)

inductive RuntimeIntegrityStatus where
  | active | finalizedClean | finalizedWithChanges | finalizedWithViolation | observedDuringRecovery
  deriving DecidableEq, Repr

structure RuntimeOutputEntry where
  sequence : Nat
  monotonicOffsetMs : Nat
  text : Text
  deriving DecidableEq, Repr

structure RuntimeIntegrityEvent where
  code : String
  relativePath : Text
  changeKind : MutationKind
  before : Option FileIdentity
  after : Option FileIdentity
  firstObservedOffsetMs : Nat
  nearestOutput : Option RuntimeOutputEntry
  sessionId : Text
  processId : Option Nat
  buildRecordId : Option Text
  deriving DecidableEq, Repr

structure RuntimeIntegrityJournal where
  schema : Nat
  sessionId : Text
  status : RuntimeIntegrityStatus
  protectedRoot : List Text
  baseline : WorkspaceSnapshot
  events : List RuntimeIntegrityEvent
  lastAction : String
  processId : Option Nat
  launchProvenance : LaunchProvenance

structure RuntimeIntegritySummary where
  sessionId : Text
  status : RuntimeIntegrityStatus
  lastAction : String
  eventCount : Nat
  warnings : List RuntimeIntegrityEvent
  violations : List RuntimeIntegrityEvent
  deriving DecidableEq, Repr

def sourceIntegrityWarningCode : String := "source_integrity_warning"

def summaryFromDocument (document : RuntimeIntegrityJournal) : RuntimeIntegritySummary where
  sessionId := document.sessionId
  status := document.status
  lastAction := document.lastAction
  eventCount := document.events.length
  warnings := document.events.filter (fun event => event.changeKind ≠ .deleted)
  violations := document.events.filter (fun event => event.changeKind = .deleted)

def lowerHex (c : Char) : Bool := c.isDigit || ('a' ≤ c && c ≤ 'f')

def livenessRecordName (sessionId : Text) : Option Text :=
  if sessionId.length ≠ 32 ∨ ¬ sessionId.all lowerHex then none
  else some ("runtime-integrity-locks/".toList ++ sessionId ++ ".lock".toList)

open MeridianMcp PrivateState WorkspaceIntegrity
open BuildProvenance (LaunchProvenance)

def maxRuntimeEvents : Nat := 10000

inductive SessionError where
  | integrity (e : IntegrityError)
  | state (e : StoreError)
  | anyhow (text : String)
  deriving DecidableEq, Repr

abbrev MutationKey := Text × MutationKind

def keyOf (mutation : PathMutation) : MutationKey := (mutation.relativePath, mutation.changeKind)

def RuntimeIntegrityEvent.key (event : RuntimeIntegrityEvent) : MutationKey :=
  (event.relativePath, event.changeKind)

structure RuntimeIntegritySession where
  recordName : Text
  ownedPaths : List OwnedPath
  document : RuntimeIntegrityJournal
  observed : Finset MutationKey

abbrev Journals := Text → Slot RuntimeIntegrityJournal

-- A session together with the store that its journal is written to.
structure Live where
  session : RuntimeIntegritySession
  journals : Journals

def nearestOutputBefore (log : List RuntimeOutputEntry) (offsetMs : Nat) : Option RuntimeOutputEntry :=
  log.reverse.find? fun entry => entry.monotonicOffsetMs ≤ offsetMs

-- What one observation reads of its surroundings.
structure Scan where
  capture : Except SessionError WorkspaceSnapshot
  probe : PathProbe
  elapsedMs : Nat
  outputLog : List RuntimeOutputEntry

def Scan.delta (scan : Scan) (baseline : WorkspaceSnapshot) (ownedPaths : List OwnedPath) :
    Except SessionError IntegrityDelta := do
  let current ← scan.capture
  (compareSnapshots scan.probe baseline current ownedPaths).mapError .integrity

structure CreateScan where
  capture : Except IntegrityError WorkspaceSnapshot
  random : Except SessionError Effects.Bytes
  liveness : Except StoreError Unit

namespace RuntimeIntegritySession

def journalName (sessionId : Text) : Text := "runtime-integrity/".toList ++ sessionId ++ ".json".toList

def created (baseline : WorkspaceSnapshot) (sessionId : Text) (launchProvenance : LaunchProvenance)
    (ownedPaths : List OwnedPath) : RuntimeIntegritySession where
  recordName := journalName sessionId
  ownedPaths := ownedPaths
  document :=
    { schema := 1
      sessionId := sessionId
      status := .active
      protectedRoot := baseline.root
      baseline := baseline
      events := []
      lastAction := "baseline_captured"
      processId := none
      launchProvenance := launchProvenance }
  observed := ∅

def persist (outcome : WriteOutcome) (live : Live) : Except SessionError Unit × Live :=
  let name := live.session.recordName
  (outcome.result.mapError .state,
    { live with
      journals := Function.update live.journals name
        (outcome.leaves live.session.document (live.journals name)) })

def create (scan : CreateScan) (outcome : WriteOutcome) (launchProvenance : LaunchProvenance)
    (ownedPaths : List OwnedPath) (journals : Journals) :
    Except SessionError RuntimeIntegritySession × Journals :=
  match scan.capture with
  | .error e => (.error (.integrity e), journals)
  | .ok baseline =>
    match scan.random with
    | .error e => (.error e, journals)
    | .ok bytes =>
      let sessionId := (hex bytes).toList
      match livenessRecordName sessionId with
      | none => (.error (.anyhow "runtime integrity session ID is invalid"), journals)
      | some _ =>
        match scan.liveness with
        | .error e => (.error (.state e), journals)
        | .ok _ =>
          let session := created baseline sessionId launchProvenance ownedPaths
          let (result, live) := persist outcome ⟨session, journals⟩
          (result.map fun _ => session, live.journals)

def setProcessId (processId : Option Nat) (outcome : WriteOutcome) (live : Live) :
    Except SessionError Unit × Live :=
  persist outcome { live with session.document.processId := processId }

def event (session : RuntimeIntegritySession) (scan : Scan) (mutation : PathMutation) :
    RuntimeIntegrityEvent where
  code := sourceIntegrityWarningCode
  relativePath := mutation.relativePath
  changeKind := mutation.changeKind
  before := mutation.before
  after := mutation.after
  firstObservedOffsetMs := scan.elapsedMs
  nearestOutput := nearestOutputBefore scan.outputLog scan.elapsedMs
  sessionId := session.document.sessionId
  processId := session.document.processId
  buildRecordId := session.document.launchProvenance.buildRecordId

def push (session : RuntimeIntegritySession) (event : RuntimeIntegrityEvent) : RuntimeIntegritySession :=
  { session with document.events := session.document.events ++ [event] }

-- The key joins `observed` before the bound on the events is looked at.
def recordMutations (scan : Scan) :
    List PathMutation → RuntimeIntegritySession → Except SessionError Unit × RuntimeIntegritySession
  | [], session => (.ok (), session)
  | mutation :: mutations, session =>
    if keyOf mutation ∈ session.observed then recordMutations scan mutations session
    else
      let session := { session with observed := insert (keyOf mutation) session.observed }
      if session.document.events.length ≥ maxRuntimeEvents then
        (.error (.anyhow "runtime integrity event limit exceeded"), session)
      else recordMutations scan mutations (session.push (session.event scan mutation))

def summary (session : RuntimeIntegritySession) : RuntimeIntegritySummary :=
  summaryFromDocument session.document

def observeNow (action : String) (scan : Scan) (outcome : WriteOutcome) (live : Live) :
    Except SessionError RuntimeIntegritySummary × Live :=
  match scan.delta live.session.document.baseline live.session.ownedPaths with
  | .error e => (.error e, live)
  | .ok delta =>
    match recordMutations scan delta.mutations live.session with
    | (.error e, session) => (.error e, { live with session := session })
    | (.ok _, session) =>
      let session := { session with document.lastAction := action }
      let (result, live) := persist outcome { live with session := session }
      (result.map fun _ => session.summary, live)

def finalStatus (events : List RuntimeIntegrityEvent) : RuntimeIntegrityStatus :=
  if events.any (fun event => event.changeKind = .deleted) then .finalizedWithViolation
  else if events.isEmpty then .finalizedClean
  else .finalizedWithChanges

def finalize (action : String) (scan : Scan) (outcome last : WriteOutcome) (live : Live) :
    Except SessionError RuntimeIntegritySummary × Live :=
  match observeNow action scan outcome live with
  | (.error e, live) => (.error e, live)
  | (.ok _, live) =>
    let session := { live.session with document.status := finalStatus live.session.document.events }
    let (result, live) := persist last { live with session := session }
    (result.map fun _ => session.summary, live)

end RuntimeIntegritySession

end RuntimeIntegrity
