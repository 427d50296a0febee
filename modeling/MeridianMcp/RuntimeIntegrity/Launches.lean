import MeridianMcp.Effects.Attempt
import MeridianMcp.RuntimeIntegrity.Liveness
import MeridianMcp.RuntimeIntegrity.Recording

namespace RuntimeIntegrity

open MeridianMcp Effects PrivateState WorkspaceIntegrity
open BuildProvenance (LaunchProvenance)

inductive RuntimeKind where
  | standard | tracy
  deriving DecidableEq, Repr

-- Baselines captured, processes spawned and gone, what observations found, and finalisations
-- that returned a summary; each names the call that launched the runtime.
inductive Happening (L : Type) where
  | baseline (l : L)
  | spawned (l : L) (processId : Option Nat)
  | exited (l : L)
  | observed (l : L) (mutations : List PathMutation)
  | finalized (l : L)
  deriving DecidableEq

variable {L : Type}

-- A process, an output log and a session go by the call that made them. The stop channel of the
-- monitor is set and taken together with its task.
structure RuntimeState (L : Type) where
  gameProcess : Option L
  containment : Option L
  outputLog : Option L
  kind : Option RuntimeKind
  integrity : Option L
  integrityTask : Option L
  integritySummary : Option RuntimeIntegritySummary

structure Ledger (L : Type) where
  sessions : L → Option RuntimeIntegritySession
  journals : Journals
  alive : L → Bool
  history : List (Happening L)

structure Server (L : Type) where
  runtime : RuntimeState L
  ledger : Ledger L

-- What a holder of the session's lock finds in the workspace, and how its write of the journal ends.
structure Sight where
  scan : Scan
  outcome : WriteOutcome

structure Creation where
  capture : Except IntegrityError WorkspaceSnapshot
  random : Except SessionError Unit
  liveness : Except StoreError Unit
  outcome : WriteOutcome
  launchProvenance : LaunchProvenance
  ownedPaths : List OwnedPath

def Creation.scan (draw : L → Bytes) (l : L) (creation : Creation) : CreateScan :=
  ⟨creation.capture, creation.random.map fun _ => draw l, creation.liveness⟩

def Creation.succeeds (draw : L → Bytes) (l : L) (creation : Creation) : Bool :=
  creation.capture.isOk && creation.random.isOk && (livenessRecordName (idOf draw l)).isSome &&
    creation.liveness.isOk && creation.outcome.result.isOk

structure Finalization where
  cleanup : Except SessionError Unit
  monitored : List Sight
  sight : Sight
  last : WriteOutcome

structure Stop where
  request : Except SessionError Unit
  kill : Except SessionError Unit
  cleanup : Except SessionError Unit

-- `checks` stands for everything between the finalisation of the last session and the first
-- write to the state: the arguments, the artifact's provenance and the search for DreamDaemon.
structure LaunchInput where
  waitFails : Bool
  natural : Finalization
  checks : Except SessionError Unit
  profilerPort : Option Nat
  creation : Creation
  spawn : Except SessionError (Option Nat)
  spawnFailed : Finalization
  setProcessId : WriteOutcome

variable [DecidableEq L]

namespace Ledger

def record (ledger : Ledger L) (happening : Happening L) : Ledger L :=
  { ledger with history := ledger.history ++ [happening] }

def keep (l : L) (live : Live) (ledger : Ledger L) : Ledger L :=
  { ledger with sessions := Function.update ledger.sessions l (some live.session), journals := live.journals }

def exit (l : L) (ledger : Ledger L) : Ledger L :=
  if ledger.alive l then
    { ledger with alive := Function.update ledger.alive l false, history := ledger.history ++ [.exited l] }
  else ledger

def spawn (l : L) (processId : Option Nat) (ledger : Ledger L) : Ledger L :=
  { ledger with
    alive := Function.update ledger.alive l true
    history := ledger.history ++ [.spawned l processId] }

def observe (l : L) (action : String) (sight : Sight) (ledger : Ledger L) :
    Except SessionError (Option RuntimeIntegritySummary) × Ledger L :=
  match ledger.sessions l with
  | none => (.ok none, ledger)
  | some session =>
    let (result, live) :=
      RuntimeIntegritySession.observeNow action sight.scan sight.outcome ⟨session, ledger.journals⟩
    (result.map some, (ledger.keep l live).record (.observed l (sight.scan.mutations session)))

def finalize (l : L) (action : String) (sight : Sight) (last : WriteOutcome) (ledger : Ledger L) :
    Except SessionError (Option RuntimeIntegritySummary) × Ledger L :=
  match ledger.sessions l with
  | none => (.ok none, ledger)
  | some session =>
    let (result, live) :=
      RuntimeIntegritySession.finalize action sight.scan sight.outcome last ⟨session, ledger.journals⟩
    let ledger := (ledger.keep l live).record (.observed l (sight.scan.mutations session))
    (result.map some, if result.isOk then ledger.record (.finalized l) else ledger)

def setProcessId (l : L) (processId : Option Nat) (outcome : WriteOutcome) (ledger : Ledger L) :
    Except SessionError Unit × Ledger L :=
  match ledger.sessions l with
  | none => (.ok (), ledger)
  | some session =>
    let (result, live) := RuntimeIntegritySession.setProcessId processId outcome ⟨session, ledger.journals⟩
    (result, ledger.keep l live)

def create (draw : L → Bytes) (l : L) (creation : Creation) (ledger : Ledger L) :
    Except SessionError Unit × Ledger L :=
  match RuntimeIntegritySession.create (creation.scan draw l) creation.outcome creation.launchProvenance
      creation.ownedPaths ledger.journals with
  | (.error e, journals) => (.error e, { ledger with journals := journals })
  | (.ok session, journals) => (.ok (), (ledger.keep l ⟨session, journals⟩).record (.baseline l))

end Ledger

-- Where a call that launches a runtime is, between two holds of the runtime's lock.
inductive CallStage where
  | launched | checked | returned
  deriving DecidableEq, Repr

-- One hold of the runtime's lock.
abbrev Section (L α : Type) := Attempt (Server L) SessionError α

namespace Server

open Attempt

def onLedger {α : Type} (f : Ledger L → Except SessionError α × Ledger L) : Section L α := fun w =>
  ((f w.ledger).1, { w with ledger := (f w.ledger).2 })

-- `try_wait` may fail; the process then counts as gone, whether it is or not.
def isGameRunning (waitFails : Bool) : Section L Bool := do
  match ← reads fun w => w.runtime.gameProcess with
  | none => pure false
  | some l =>
    let running ← reads fun w => !waitFails && w.ledger.alive l
    if running then pure true
    else
      change fun w => { w with runtime.gameProcess := none, runtime.kind := none }
      pure false

-- Cleanup succeeds only when the process tree is gone.
def finishRuntimeCleanup (cleanup : Except SessionError Unit) : Section L Unit := do
  match ← reads fun w => w.runtime.containment with
  | none => pure ()
  | some l =>
    lift cleanup
    change fun w => { w with runtime.containment := none, ledger := w.ledger.exit l }

def requestTermination (request : Except SessionError Unit) : Section L Unit := do
  match ← reads fun w => w.runtime.containment with
  | none => pure ()
  | some _ => lift request

def killGameProcess (kill : Except SessionError Unit) : Section L Unit := do
  match ← reads fun w => w.runtime.gameProcess with
  | none => pure ()
  | some l =>
    change fun w => { w with runtime.gameProcess := none }
    lift kill
    change fun w => { w with ledger := w.ledger.exit l }

def stopGameProcess (stop : Stop) : Section L Unit := do
  requestTermination stop.request
  killGameProcess stop.kill
  finishRuntimeCleanup stop.cleanup
  change fun w => { w with runtime.kind := none }

-- The monitor may observe until it sees that it is to stop.
def joinMonitor (monitored : List Sight) : Section L Unit := do
  match ← reads fun w => w.runtime.integrityTask with
  | none => pure ()
  | some l =>
    change fun w => { w with
      runtime.integrityTask := none
      ledger := monitored.foldl (fun ledger sight => (ledger.observe l "monitor" sight).2) w.ledger }

def finalSummary (w : Server L) : Option RuntimeIntegritySummary :=
  w.runtime.integritySummary.filter fun summary => summary.status ≠ .active

def finalizeSession (action : String) (finalization : Finalization) :
    Section L (Option RuntimeIntegritySummary) := do
  match ← reads fun w => w.runtime.integrity with
  | none => pure none
  | some l =>
    let summary ← onLedger (Ledger.finalize l action finalization.sight finalization.last)
    change fun w => { w with runtime.integritySummary := summary }
    pure summary

def finalizeStandardIntegrity (action : String) (finalization : Finalization) :
    Section L (Option RuntimeIntegritySummary) := do
  finishRuntimeCleanup finalization.cleanup
  match ← reads finalSummary with
  | some summary => pure (some summary)
  | none =>
    joinMonitor finalization.monitored
    finalizeSession action finalization

-- What a launch does before it changes anything of the last runtime.
def enter (i : LaunchInput) : Section L Bool := do
  if ← isGameRunning i.waitFails then pure false
  else
    let _ ← finalizeStandardIntegrity "natural_exit" i.natural
    lift i.checks
    pure true

-- `RuntimeIntegritySession::create` for a standard launch, and the slot it is put in.
def createIntegrity (draw : L → Bytes) (privateState : Bool) (l : L) (i : LaunchInput) : Section L Unit :=
  if i.profilerPort = none ∧ privateState then do
    onLedger (Ledger.create draw l i.creation)
    change fun w => { w with runtime.integrity := some l }
  else pure ()

def startMonitor (processId : Option Nat) (outcome : WriteOutcome) : Section L CallStage := do
  match ← reads fun w => w.runtime.integrity with
  | none => pure .launched
  | some l =>
    onLedger (Ledger.setProcessId l processId outcome)
    change fun w => { w with runtime.integrityTask := some l }
    pure .launched

def runtimeKind (profilerPort : Option Nat) : RuntimeKind := if profilerPort = none then .standard else .tracy

def spawnRuntime (l : L) (i : LaunchInput) : Section L CallStage := do
  match i.spawn with
  | .error e =>
    let _ ← caught (finalizeStandardIntegrity "spawn_failed" i.spawnFailed)
    lift (.error e)
  | .ok processId =>
    change fun w => { w with
      runtime.containment := some l
      runtime.gameProcess := some l
      runtime.kind := some (runtimeKind i.profilerPort)
      ledger := w.ledger.spawn l processId }
    if i.profilerPort = none then startMonitor processId i.setProcessId else pure .launched

def startRuntime (draw : L → Bytes) (privateState : Bool) (l : L) (i : LaunchInput) : Section L CallStage := do
  change fun w => { w with runtime.outputLog := some l, runtime.integritySummary := none }
  createIntegrity draw privateState l i
  spawnRuntime l i

def launch (draw : L → Bytes) (privateState : Bool) (l : L) (i : LaunchInput) : Section L CallStage := do
  if ← enter i then startRuntime draw privateState l i
  else pure .returned

-- The rest of a launch, with the lock taken anew each time: whether the process has survived its
-- first moments, what a missing readiness marker leads to, and the observation at the end.
def checkLaunch (l : L) (waitFails : Bool) (finalization : Finalization) : Section L CallStage := do
  if (← reads fun w => w.runtime.outputLog) ≠ some l then pure .returned
  else if ← isGameRunning waitFails then pure .checked
  else
    let _ ← finalizeStandardIntegrity "launch_failed" finalization
    pure .returned

def launchUnready (l : L) (stop : Stop) (finalization : Finalization) : Section L CallStage := do
  if (← reads fun w => w.runtime.outputLog) ≠ some l then pure .returned
  else
    stopGameProcess stop
    let _ ← finalizeStandardIntegrity "launch_failed" finalization
    pure .returned

def observeReady (sight : Sight) : Section L Unit := do
  match ← reads fun w => w.runtime.integrity with
  | none => pure ()
  | some l =>
    let summary ← onLedger (Ledger.observe l "launch_ready" sight)
    change fun w => { w with runtime.integritySummary := summary }

def launchReady (l : L) (waitFails : Bool) (sight : Sight) : Section L CallStage := do
  if (← reads fun w => w.runtime.outputLog) ≠ some l then pure .returned
  else if ← isGameRunning waitFails then
    observeReady sight
    pure .returned
  else pure .returned

def observeSlot (action : String) (sight : Sight) : Section L Unit := do
  match ← reads fun w => w.runtime.integrity with
  | none => pure ()
  | some l =>
    let _ ← onLedger (Ledger.observe l action sight)
    pure ()

def refresh (action : String) (waitFails : Bool) (sight : Sight) (finalization : Finalization) :
    Section L Unit := do
  if ← isGameRunning waitFails then observeSlot action sight
  else
    let _ ← finalizeStandardIntegrity "natural_exit" finalization
    pure ()

def status : Bool → Sight → Finalization → Section L Unit := refresh "status"

-- After the wait, when the output log is still the one that was waited on.
def waitForOutput : Bool → Sight → Finalization → Section L Unit := refresh "wait_for_output"

def stopWithLifecycle (waitFails : Bool) (stop : Stop) (finalization : Finalization) : Section L Unit := do
  let wasRunning ← isGameRunning waitFails
  let idle ← reads fun w => w.runtime.integrity.isNone && w.runtime.containment.isNone
  if !wasRunning && idle then pure ()
  else
    if wasRunning then stopGameProcess stop else pure ()
    let _ ← finalizeStandardIntegrity "stopped" finalization
    pure ()

def observeMonitored (sight : Sight) : Section L Unit := do
  match ← reads fun w => w.runtime.integrityTask with
  | none => pure ()
  | some l =>
    let _ ← caught (onLedger (Ledger.observe l "monitor" sight))
    pure ()

-- The stop of the Tracy tools, which knows no standard session.
def tracyStop (waitFails : Bool) (stop : Stop) : Section L Unit := do
  let wasRunning ← isGameRunning waitFails
  let kind ← reads fun w => w.runtime.kind
  if wasRunning then
    if kind = some .tracy then stopGameProcess stop else pure ()
  else finishRuntimeCleanup stop.cleanup

end Server

-- The lifecycle lock is left out: it only keeps some of these steps apart.
inductive RuntimeStep (L : Type) where
  | launch (l : L) (i : LaunchInput)
  | checkLaunch (l : L) (waitFails : Bool) (finalization : Finalization)
  | launchUnready (l : L) (stop : Stop) (finalization : Finalization)
  | launchReady (l : L) (waitFails : Bool) (sight : Sight)
  | status (waitFails : Bool) (sight : Sight) (finalization : Finalization)
  | waitForOutput (waitFails : Bool) (sight : Sight) (finalization : Finalization)
  | stop (waitFails : Bool) (stop : Stop) (finalization : Finalization)
  | tracyStop (waitFails : Bool) (stop : Stop)
  | tracyAbort (stop : Stop)
  | poll (waitFails : Bool)
  | monitor (sight : Sight)
  | exit (l : L)

structure World (L : Type) where
  server : Server L
  calls : L → Option CallStage

namespace World

open Server

def new (L : Type) : World L where
  server := ⟨⟨none, none, none, none, none, none, none⟩, ⟨fun _ => none, fun _ => .absent, fun _ => false, []⟩⟩
  calls _ := none

-- A call that fails has returned.
def inCall (l : L) (stage : Option CallStage) (m : Section L CallStage) (w : World L) : Option (World L) :=
  if w.calls l = stage then
    some ⟨(m w.server).2, Function.update w.calls l (some ((m w.server).1.toOption.getD .returned))⟩
  else none

def within {α : Type} (m : Section L α) (w : World L) : World L := { w with server := (m w.server).2 }

def perform (draw : L → Bytes) (privateState : Bool) (w : World L) : RuntimeStep L → Option (World L)
  | .launch l i => w.inCall l none (launch draw privateState l i)
  | .checkLaunch l waitFails finalization => w.inCall l (some .launched) (checkLaunch l waitFails finalization)
  | .launchUnready l stop finalization => w.inCall l (some .checked) (launchUnready l stop finalization)
  | .launchReady l waitFails sight => w.inCall l (some .checked) (launchReady l waitFails sight)
  | .status waitFails sight finalization => some (w.within (status waitFails sight finalization))
  | .waitForOutput waitFails sight finalization => some (w.within (waitForOutput waitFails sight finalization))
  | .stop waitFails stop finalization => some (w.within (stopWithLifecycle waitFails stop finalization))
  | .tracyStop waitFails stop => some (w.within (tracyStop waitFails stop))
  | .tracyAbort stop => some (w.within (stopGameProcess stop))
  | .poll waitFails => some (w.within (isGameRunning waitFails))
  | .monitor sight => some (w.within (observeMonitored sight))
  | .exit l =>
    if w.server.ledger.alive l then some { w with server.ledger := w.server.ledger.exit l } else none

end World

-- A launch that gets past its checks leaves no session of an earlier launch in the slot.
def Installs (draw : L → Bytes) (privateState : Bool) (l : L) (i : LaunchInput) : Prop :=
  i.profilerPort = none ∧ privateState = true ∧ i.creation.succeeds draw l = true

def Careful (draw : L → Bytes) (privateState : Bool) (w : World L) : RuntimeStep L → Prop
  | .launch l i => (Server.enter i w.server).1.toOption = some true →
      w.server.runtime.integrity = none ∨ Installs draw privateState l i
  | _ => True

end RuntimeIntegrity
