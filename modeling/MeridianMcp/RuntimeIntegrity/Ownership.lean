import MeridianMcp.Effects.Trace
import MeridianMcp.RuntimeIntegrity.Recovery
import MeridianMcp.RuntimeIntegrity.Session

namespace RuntimeIntegrity

open MeridianMcp Effects PrivateState WorkspaceIntegrity
open BuildProvenance (LaunchProvenance)
open RuntimeIntegritySession (journalName created finalStatus)

variable {O R : Type} [DecidableEq O] [DecidableEq R]

inductive Holder (O R : Type) where
  | owner (o : O)
  | recoverer (r : R)
  deriving DecidableEq

-- An owner whose session has been dropped, or whose process has crashed, is gone.
inductive OwnerStage where
  | idle
  | drawn (session : RuntimeIntegritySession)
  | locked (session : RuntimeIntegritySession)
  | live (session : RuntimeIntegritySession)
  | finalizing (session : RuntimeIntegritySession)
  | ended (session : RuntimeIntegritySession)
  | gone

inductive RecovererStage where
  | idle
  | visiting (names : List Text) (summaries : List RuntimeIntegritySummary)
  | found (name : Text) (document : RuntimeIntegrityJournal) (names : List Text)
      (summaries : List RuntimeIntegritySummary)
  | holding (name lock : Text) (names : List Text) (summaries : List RuntimeIntegritySummary)
  | writing (name lock : Text) (document : RuntimeIntegrityJournal) (names : List Text)
      (summaries : List RuntimeIntegritySummary)
  | done (result : Option (List RuntimeIntegritySummary))

structure Shared (O R : Type) where
  journals : Journals
  locks : Text → Option (Holder O R)
  owners : O → OwnerStage
  recoverers : R → RecovererStage

def Shared.new (O R : Type) : Shared O R where
  journals _ := .absent
  locks _ := none
  owners _ := .idle
  recoverers _ := .idle

inductive PartyStep (O R : Type) where
  | draw (o : O) (capture : Except IntegrityError WorkspaceSnapshot) (provenance : LaunchProvenance)
      (ownedPaths : List OwnedPath)
  | acquire (o : O)
  | create (o : O) (outcome : WriteOutcome)
  | setProcessId (o : O) (processId : Option Nat) (outcome : WriteOutcome)
  | observe (o : O) (action : String) (scan : Scan) (outcome : WriteOutcome)
  | finalize (o : O) (action : String) (scan : Scan) (outcome : WriteOutcome)
  | settle (o : O) (outcome : WriteOutcome)
  | drop (o : O)
  | list (r : R) (names : List Text)
  | visit (r : R)
  | tryLock (r : R)
  | reread (r : R)
  | rewrite (r : R) (outcome : WriteOutcome)
  | crash (r : R)

-- An atomic write leaves the old journal or the new one.
def atomicWrite : WriteOutcome → Bool
  | .ok => true
  | .kept _ => true
  | .installed _ => true
  | _ => false

def present : Slot RuntimeIntegrityJournal → Bool
  | .absent => false
  | _ => true

namespace Shared

def setOwner (w : Shared O R) (o : O) (stage : OwnerStage) : Shared O R :=
  { w with owners := Function.update w.owners o stage }

def setRecoverer (w : Shared O R) (r : R) (stage : RecovererStage) : Shared O R :=
  { w with recoverers := Function.update w.recoverers r stage }

def lockOf (session : RuntimeIntegritySession) : Option Text := livenessRecordName session.document.sessionId

def release (w : Shared O R) (lock : Text) : Shared O R := { w with locks := Function.update w.locks lock none }

def take (w : Shared O R) (lock : Text) (holder : Holder O R) : Shared O R :=
  { w with locks := Function.update w.locks lock (some holder) }

def releaseOf (w : Shared O R) (session : RuntimeIntegritySession) : Shared O R :=
  match lockOf session with
  | some lock => w.release lock
  | none => w

def session : OwnerStage → Option RuntimeIntegritySession
  | .drawn session => some session
  | .locked session => some session
  | .live session => some session
  | .finalizing session => some session
  | .ended session => some session
  | _ => none

def dropOwner (w : Shared O R) (o : O) : Shared O R :=
  match w.owners o with
  | .locked session => (w.releaseOf session).setOwner o .gone
  | .live session => (w.releaseOf session).setOwner o .gone
  | .finalizing session => (w.releaseOf session).setOwner o .gone
  | .ended session => (w.releaseOf session).setOwner o .gone
  | _ => w.setOwner o .gone

def persisted (w : Shared O R) (outcome : WriteOutcome) (session : RuntimeIntegritySession) :
    Except SessionError Unit × Shared O R :=
  let (result, live) := RuntimeIntegritySession.persist outcome ⟨session, w.journals⟩
  (result, { w with journals := live.journals })

variable (draw : O → Bytes) (effectiveRoots : List (List Text))

def performOwner (w : Shared O R) : PartyStep O R → Option (Shared O R)
  | .draw o capture provenance ownedPaths =>
    match w.owners o with
    | .idle =>
      match capture with
      | .error _ => some (w.setOwner o .gone)
      | .ok baseline =>
        some (w.setOwner o (.drawn (created baseline (hex (draw o)).toList provenance ownedPaths)))
    | _ => none
  | .acquire o =>
    match w.owners o with
    | .drawn session =>
      match lockOf session with
      | none => some (w.setOwner o .gone)
      | some lock =>
        if w.locks lock = none then some ((w.take lock (.owner o)).setOwner o (.locked session)) else none
    | _ => none
  | .create o outcome =>
    match w.owners o with
    | .locked session =>
      if atomicWrite outcome then
        match w.persisted outcome session with
        | (.ok _, w) => some (w.setOwner o (.live session))
        | (.error _, w) => some ((w.releaseOf session).setOwner o .gone)
      else none
    | _ => none
  | .setProcessId o processId outcome =>
    match w.owners o with
    | .live session =>
      if atomicWrite outcome then
        let session := { session with document.processId := processId }
        some ((w.persisted outcome session).2.setOwner o (.live session))
      else none
    | _ => none
  | .observe o action scan outcome =>
    match w.owners o with
    | .live session =>
      if atomicWrite outcome then
        let (_, live) := RuntimeIntegritySession.observeNow action scan outcome ⟨session, w.journals⟩
        some ({ w with journals := live.journals }.setOwner o (.live live.session))
      else none
    | _ => none
  | .finalize o action scan outcome =>
    match w.owners o with
    | .live session =>
      if atomicWrite outcome then
        match RuntimeIntegritySession.observeNow action scan outcome ⟨session, w.journals⟩ with
        | (.ok _, live) => some ({ w with journals := live.journals }.setOwner o (.finalizing live.session))
        | (.error _, live) => some ({ w with journals := live.journals }.setOwner o (.ended live.session))
      else none
    | _ => none
  | .settle o outcome =>
    match w.owners o with
    | .finalizing session =>
      if atomicWrite outcome then
        let session := { session with document.status := finalStatus session.document.events }
        some ((w.persisted outcome session).2.setOwner o (.ended session))
      else none
    | _ => none
  | .drop o => some (w.dropOwner o)
  | _ => none

def dropRecoverer (w : Shared O R) (r : R) : Shared O R :=
  match w.recoverers r with
  | .holding _ lock _ _ => (w.release lock).setRecoverer r (.done none)
  | .writing _ lock _ _ _ => (w.release lock).setRecoverer r (.done none)
  | _ => w.setRecoverer r (.done none)

-- Every path that `list_records` gave is read; one that cannot be read ends the recovery.
def performRecoverer (w : Shared O R) : PartyStep O R → Option (Shared O R)
  | .list r names =>
    match w.recoverers r with
    | .idle =>
      if names.all fun name => present (w.journals name) then some (w.setRecoverer r (.visiting names []))
      else none
    | _ => none
  | .visit r =>
    match w.recoverers r with
    | .visiting [] summaries => some (w.setRecoverer r (.done (some summaries)))
    | .visiting (name :: names) summaries =>
      match w.journals name with
      | .record document =>
        some (w.setRecoverer r (if document.status ≠ .active then .visiting names summaries
          else .found name document names summaries))
      | _ => some (w.setRecoverer r (.done none))
    | _ => none
  | .tryLock r =>
    match w.recoverers r with
    | .found name document names summaries =>
      match livenessRecordName document.sessionId with
      | none => some (w.setRecoverer r (.done none))
      | some lock =>
        if w.locks lock = none then
          some ((w.take lock (.recoverer r)).setRecoverer r (.holding name lock names summaries))
        else some (w.setRecoverer r (.visiting names summaries))
    | _ => none
  | .reread r =>
    match w.recoverers r with
    | .holding name lock names summaries =>
      match w.journals name with
      | .record document =>
        if document.status ≠ .active then
          some ((w.release lock).setRecoverer r (.visiting names summaries))
        else if ¬ effectiveRoots.any (fun root => root.isPrefixOf document.protectedRoot) then
          some ((w.release lock).setRecoverer r
            (.visiting names (summaries ++ [summaryFromDocument document])))
        else some (w.setRecoverer r (.writing name lock (recovered document) names summaries))
      | _ => some (w.dropRecoverer r)
    | _ => none
  | .rewrite r outcome =>
    match w.recoverers r with
    | .writing name lock document names summaries =>
      if atomicWrite outcome then
        let w := { w with
          journals := Function.update w.journals name (outcome.leaves document (w.journals name)) }
        some ((w.release lock).setRecoverer r (match outcome.result with
          | .ok _ => .visiting names (summaries ++ [summaryFromDocument document])
          | .error _ => .done none))
      else none
    | _ => none
  | .crash r => some (w.dropRecoverer r)
  | _ => none

def perform (w : Shared O R) (step : PartyStep O R) : Option (Shared O R) :=
  (w.performOwner draw step).or (w.performRecoverer effectiveRoots step)

abbrev Runs : List (Shared O R × PartyStep O R) → Shared O R → Prop :=
  Trace (perform draw effectiveRoots) (new O R)

end Shared

end RuntimeIntegrity
