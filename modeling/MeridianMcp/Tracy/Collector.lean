import Mathlib.Logic.Function.Basic
import MeridianMcp.Effects.Trace

namespace Tracy

open Effects

inductive WorkerPurpose where
  | drain | capture
  deriving DecidableEq, Repr

inductive SessionPhase where
  | stopped | starting | draining | captureConnecting | capturing | validating | drainRestoring
  | stopping | failed
  deriving DecidableEq, Repr

structure QueueHealth where
  capacity : Nat
  lastProducerProgressRaw : Nat
  hookInstalled : Bool
  prologueValidated : Bool
  deriving DecidableEq, Repr

def QueueHealth.ready (health : QueueHealth) : Bool :=
  decide (0 < health.capacity) && decide (0 < health.lastProducerProgressRaw) &&
    health.hookInstalled && health.prologueValidated

structure SessionLimits where
  maximumSessionSeconds : Nat
  maximumCaptureCount : Nat
  maximumCaptureDurationMs : Nat
  maximumMemoryMb : Nat
  maximumTraceBytes : Nat
  stopTimeoutMs : Nat
  maximumAttachAttempts : Nat
  deriving DecidableEq, Repr

def SessionLimits.default : SessionLimits where
  maximumSessionSeconds := 30 * 60
  maximumCaptureCount := 64
  maximumCaptureDurationMs := 300000
  maximumMemoryMb := 4096
  maximumTraceBytes := 2 * 1024 * 1024 * 1024
  stopTimeoutMs := 5000
  maximumAttachAttempts := 2

structure SessionStartOptions where
  progressTimeoutMs : Nat
  deriving DecidableEq, Repr

structure CaptureWindowOptions where
  durationMs : Nat
  memoryLimitMb : Nat
  deriving DecidableEq, Repr

structure CaptureResult where
  compressedBytes : Nat
  deriving DecidableEq, Repr

inductive Thrown where
  | protocolError (code message : String)
  | exception
  deriving DecidableEq, Repr

def Thrown.transient : Thrown → Bool
  | .protocolError code _ =>
    code = "connect_timeout" || code = "handshake_dropped" || code = "client_disconnected" ||
      code = "profiler_busy"
  | .exception => false

structure SessionStatus where
  phase : SessionPhase
  workerGeneration : Nat
  producerProgress : Nat
  captureCount : Nat
  workerPurpose : WorkerPurpose
  workerAttached : Bool
  transitionRetryCount : Nat
  lastTransitionError : String
  recoveryRequired : Bool
  queueHealth : Option QueueHealth
  deriving DecidableEq, Repr

structure CollectorSession where
  status : SessionStatus
  captureActive : Bool
  cancelled : Bool
  startedAt : Nat
  readinessTimeoutMs : Nat
  deriving DecidableEq, Repr

-- What the backend holds, and whether it has reported valid health since it was attached.
structure Worker where
  purpose : WorkerPurpose
  memoryLimitMb : Nat
  healthy : Bool
  deriving DecidableEq, Repr

-- The failure details are `window_started` and `collector_recovered`.
inductive Outcome where
  | status (status : SessionStatus)
  | captured (result : CaptureResult) (status : SessionStatus)
  | threw (error : Thrown) (details : Option (Bool × Bool))
  deriving DecidableEq, Repr

namespace CollectorSession

def new : CollectorSession where
  status := ⟨.stopped, 0, 0, 0, .drain, false, 0, "", false, none⟩
  captureActive := false
  cancelled := false
  startedAt := 0
  readinessTimeoutMs := 100

def setPhase (phase : SessionPhase) (s : CollectorSession) : CollectorSession :=
  { s with status := { s.status with phase := phase } }

def setAttached (attached : Bool) (s : CollectorSession) : CollectorSession :=
  { s with status := { s.status with workerAttached := attached } }

def attachedWorker (purpose : WorkerPurpose) (s : CollectorSession) : CollectorSession :=
  { s with status := { s.status with
      workerGeneration := s.status.workerGeneration + 1
      workerPurpose := purpose
      workerAttached := true } }

def attachFailed (message : String) (s : CollectorSession) : CollectorSession :=
  { s with status := { s.status with workerAttached := false, lastTransitionError := message } }

def retried (s : CollectorSession) : CollectorSession :=
  { s with status := { s.status with transitionRetryCount := s.status.transitionRetryCount + 1 } }

def admitStart (now : Nat) (s : CollectorSession) : CollectorSession :=
  { s.setPhase .starting with startedAt := now }

def ready (progress : Nat) (health : QueueHealth) (s : CollectorSession) : CollectorSession :=
  { s with status := { s.status with producerProgress := progress, queueHealth := some health } }

def admitCapture (s : CollectorSession) : CollectorSession :=
  { s.setPhase .captureConnecting with captureActive := true, cancelled := false }

def captured (progress : Nat) (health : QueueHealth) (s : CollectorSession) : CollectorSession :=
  { s with
    status := { s.status with
      producerProgress := progress
      queueHealth := some health
      captureCount := s.status.captureCount + 1
      phase := .draining }
    captureActive := false }

def captureFailed (progress : Nat) (restored : Bool) (s : CollectorSession) : CollectorSession :=
  { s with
    status := { s.status with
      producerProgress := progress
      phase := if restored then .draining else .failed }
    captureActive := false }

def unrecovered (s : CollectorSession) : CollectorSession :=
  { s with status := { s.status with recoveryRequired := true } }

def admitStop (s : CollectorSession) : CollectorSession := { s.setPhase .stopping with cancelled := true }

def refresh (progress : Nat) (health : Option QueueHealth) (s : CollectorSession) : CollectorSession :=
  { s with status := { s.status with
      producerProgress := progress
      queueHealth := health.or s.status.queueHealth } }

end CollectorSession

-- What a worker is attached for, with the values that are needed once it is.
inductive Errand where
  | starting (initialProgress progressTimeoutMs : Nat)
  | connecting (options : CaptureWindowOptions)
  | reattaching (result : CaptureResult) (windowStarted : Bool)
  | restoring (error : Thrown) (windowStarted : Bool)
  deriving DecidableEq, Repr

def Errand.purpose : Errand → WorkerPurpose
  | .connecting _ => .capture
  | _ => .drain

def Errand.memoryLimitMb (limits : SessionLimits) : Errand → Nat
  | .connecting options => options.memoryLimitMb
  | _ => limits.maximumMemoryMb

-- The section or backend call that a thread comes to next.
inductive Stage where
  | rest (outcome : Option Outcome)
  | readying (options : SessionStartOptions)
  | attaching (errand : Errand) (attempt : Nat)
  | attached (errand : Errand)
  | attachFailed (errand : Errand) (attempt : Nat) (code message : String)
  | attachDetaching (errand : Errand) (attempt : Nat)
  | attachRetrying (errand : Errand) (attempt : Nat)
  | startFailing (error : Thrown)
  | polling (initialProgress deadline : Nat)
  | timingOut (progressAdvanced : Bool)
  | timedOut (progressAdvanced : Bool)
  | draining (health : QueueHealth)
  | disconnecting (options : CaptureWindowOptions)
  | disconnected (options : CaptureWindowOptions)
  | connected (options : CaptureWindowOptions)
  | measuring (options : CaptureWindowOptions)
  | validating (result : CaptureResult) (windowStarted : Bool)
  | releasing (result : CaptureResult) (windowStarted : Bool)
  | released (result : CaptureResult) (windowStarted : Bool)
  | awaiting (errand : Errand) (deadline : Nat)
  | reattached (result : CaptureResult) (windowStarted : Bool) (health : QueueHealth)
  | recovering (error : Thrown) (windowStarted : Bool)
  | restoring (error : Thrown) (windowStarted : Bool)
  | restored (error : Thrown) (windowStarted : Bool) (health : QueueHealth)
  | unrestored (error : Thrown) (windowStarted : Bool)
  | failing (error : Thrown) (windowStarted restored : Bool)
  | stopWaiting (deadline : Nat)
  | stopDetaching
  | stopFinishing
  deriving DecidableEq, Repr

def Stage.resting : Stage → Bool
  | .rest _ => true
  | _ => false

-- The clock and the backend's answers. A failed attachment may leave a worker behind.
structure Input where
  now : Nat
  progress : Nat
  health : Except Thrown (Option QueueHealth)
  attach : Except (Thrown × Bool) Unit
  capture : Except Thrown CaptureResult
  windowStarted : Bool

inductive SessionStep (I : Type) where
  | start (i : I) (options : SessionStartOptions) (now : Nat)
  | capture (i : I) (options : CaptureWindowOptions) (now : Nat)
  | status (i : I) (input : Input)
  | cancel (i : I)
  | stop (i : I) (now : Nat)
  | advance (i : I) (input : Input)

-- `stopping` and `stopped` remember that stop has set the phase to Stopping, or has returned
-- Stopped, since the last admitted start.
structure SessionWorld (I : Type) where
  session : CollectorSession
  worker : Option Worker
  threads : I → Stage
  stopping : Bool
  stopped : Bool

def SessionWorld.new (I : Type) : SessionWorld I where
  session := .new
  worker := none
  threads _ := .rest none
  stopping := false
  stopped := false

namespace SessionWorld

variable {I : Type} [DecidableEq I] (limits : SessionLimits)

def goto (w : SessionWorld I) (i : I) (stage : Stage) : SessionWorld I :=
  { w with threads := Function.update w.threads i stage }

def put (w : SessionWorld I) (session : CollectorSession) : SessionWorld I := { w with session := session }

def hold (w : SessionWorld I) (worker : Option Worker) : SessionWorld I := { w with worker := worker }

-- No worker reports no health.
def observed (w : SessionWorld I) (input : Input) : Except Thrown (Option QueueHealth) :=
  match w.worker with
  | none => .ok none
  | some _ => input.health

def markHealthy (w : SessionWorld I) (health : Except Thrown (Option QueueHealth)) : SessionWorld I :=
  match health with
  | .ok (some health) =>
    if health.ready then w.hold (w.worker.map fun worker => { worker with healthy := true }) else w
  | _ => w

-- Where a thread goes once the worker of its errand is attached.
def afterAttach (session : CollectorSession) (now : Nat) : Errand → Stage
  | .starting initialProgress progressTimeoutMs => .polling initialProgress (now + progressTimeoutMs)
  | .connecting options => .connected options
  | errand => .awaiting errand (now + session.readinessTimeoutMs)

def raise (error : Thrown) : Errand → Stage
  | .starting _ _ => .startFailing error
  | .connecting _ => .recovering error false
  | .reattaching _ windowStarted => .recovering error windowStarted
  | .restoring error windowStarted => .unrestored error windowStarted

def attach (session : CollectorSession) (now : Nat) (errand : Errand) (attempt : Nat) : Stage :=
  if attempt ≤ limits.maximumAttachAttempts then .attaching errand attempt
  else afterAttach session now errand

def readyHealth : Except Thrown (Option QueueHealth) → Option QueueHealth
  | .ok (some health) => if health.ready then some health else none
  | _ => none

def afterHealth (health : QueueHealth) : Errand → Stage
  | .reattaching result windowStarted => .reattached result windowStarted health
  | .restoring error windowStarted => .restored error windowStarted health
  | errand => .awaiting errand 0

def poll (w : SessionWorld I) (i : I) (initialProgress deadline : Nat) (input : Input) : SessionWorld I :=
  match w.observed input with
  | .error error => w.goto i (.rest (some (.threw error none)))
  | .ok health =>
    match decide (initialProgress < input.progress), readyHealth (.ok health) with
    | true, some health => (w.markHealthy (.ok (some health))).goto i (.draining health)
    | progressAdvanced, _ =>
      if deadline ≤ input.now then (w.markHealthy (.ok health)).goto i (.timingOut progressAdvanced)
      else (w.markHealthy (.ok health)).goto i (.polling initialProgress deadline)

def await (w : SessionWorld I) (i : I) (errand : Errand) (deadline : Nat) (input : Input) : SessionWorld I :=
  match w.observed input with
  | .error error => w.goto i (raise error errand)
  | .ok health =>
    match readyHealth (.ok health) with
    | some health => (w.markHealthy (.ok (some health))).goto i (afterHealth health errand)
    | none =>
      if deadline ≤ input.now then
        w.goto i (raise (.protocolError "health_timeout"
          "Queue health did not become valid during worker readiness.") errand)
      else w

def timeoutError (progressAdvanced : Bool) : Thrown :=
  if progressAdvanced then
    .protocolError "health_timeout" "Queue health did not become valid during collector readiness."
  else .protocolError "producer_stalled" "Producer progress did not advance during collector readiness."

def tryAttach (w : SessionWorld I) (i : I) (errand : Errand) (attempt : Nat) (input : Input) : SessionWorld I :=
  match input.attach with
  | .ok _ => (w.hold (some ⟨errand.purpose, errand.memoryLimitMb limits, false⟩)).goto i (.attached errand)
  | .error (error, leaves) =>
    let w := if leaves then w.hold (some ⟨errand.purpose, errand.memoryLimitMb limits, false⟩) else w
    match error with
    | .protocolError code message => w.goto i (.attachFailed errand attempt code message)
    | .exception => w.goto i (raise .exception errand)

def measure (w : SessionWorld I) (i : I) (input : Input) : SessionWorld I :=
  match input.capture with
  | .error error => w.goto i (.recovering error input.windowStarted)
  | .ok result =>
    if limits.maximumTraceBytes < result.compressedBytes then
      w.goto i (.recovering (.protocolError "session_limit_reached"
        "Trace exceeds the fixed session byte limit.") input.windowStarted)
    else w.goto i (.validating result input.windowStarted)

def failureDetails (error : Thrown) (windowStarted restored : Bool) : Option (Bool × Bool) :=
  match error with
  | .protocolError _ _ => some (windowStarted, restored)
  | .exception => none

def advance (w : SessionWorld I) (i : I) (input : Input) : Option (SessionWorld I) :=
  match w.threads i with
  | .rest _ => none
  | .readying options =>
    some ((w.put { w.session with readinessTimeoutMs := options.progressTimeoutMs }).goto i
      (attach limits w.session input.now (.starting input.progress options.progressTimeoutMs) 1))
  | .attaching errand attempt => some (w.tryAttach limits i errand attempt input)
  | .attached errand =>
    some ((w.put (w.session.attachedWorker errand.purpose)).goto i
      (afterAttach w.session input.now errand))
  | .attachFailed errand attempt code message =>
    let error := Thrown.protocolError code message
    some ((w.put (w.session.attachFailed message)).goto i
      (if error.transient = false ∨ attempt = limits.maximumAttachAttempts then raise error errand
        else .attachDetaching errand attempt))
  | .attachDetaching errand attempt => some ((w.hold none).goto i (.attachRetrying errand attempt))
  | .attachRetrying errand attempt =>
    some ((w.put w.session.retried).goto i (attach limits w.session input.now errand (attempt + 1)))
  | .startFailing error =>
    some ((w.put (w.session.setPhase .failed)).goto i (.rest (some (.threw error none))))
  | .polling initialProgress deadline => some (w.poll i initialProgress deadline input)
  | .timingOut progressAdvanced => some ((w.hold none).goto i (.timedOut progressAdvanced))
  -- The worker is gone, and `worker_attached` stays as it was.
  | .timedOut progressAdvanced =>
    some ((w.put (w.session.setPhase .failed)).goto i
      (.rest (some (.threw (timeoutError progressAdvanced) none))))
  | .draining health =>
    let session := (w.session.ready input.progress health).setPhase .draining
    some ((w.put session).goto i (.rest (some (.status session.status))))
  | .disconnecting options => some ((w.hold none).goto i (.disconnected options))
  | .disconnected options =>
    some ((w.put (w.session.setAttached false)).goto i
      (attach limits w.session input.now (.connecting options) 1))
  | .connected options => some ((w.put (w.session.setPhase .capturing)).goto i (.measuring options))
  | .measuring _ => some (w.measure limits i input)
  | .validating result windowStarted =>
    some ((w.put (w.session.setPhase .validating)).goto i (.releasing result windowStarted))
  | .releasing result windowStarted => some ((w.hold none).goto i (.released result windowStarted))
  | .released result windowStarted =>
    some ((w.put ((w.session.setAttached false).setPhase .drainRestoring)).goto i
      (attach limits w.session input.now (.reattaching result windowStarted) 1))
  | .awaiting errand deadline => some (w.await i errand deadline input)
  | .reattached result _ health =>
    let session := w.session.captured input.progress health
    some ((w.put session).goto i (.rest (some (.captured result session.status))))
  | .recovering error windowStarted => some ((w.hold none).goto i (.restoring error windowStarted))
  | .restoring error windowStarted =>
    some ((w.put ((w.session.setAttached false).setPhase .drainRestoring)).goto i
      (attach limits w.session input.now (.restoring error windowStarted) 1))
  | .restored error windowStarted health =>
    some ((w.put (w.session.ready input.progress health)).goto i (.failing error windowStarted true))
  | .unrestored error windowStarted =>
    some ((w.put w.session.unrecovered).goto i (.failing error windowStarted false))
  | .failing error windowStarted restored =>
    some ((w.put (w.session.captureFailed input.progress restored)).goto i
      (.rest (some (.threw error (failureDetails error windowStarted restored)))))
  | .stopWaiting deadline =>
    if w.session.captureActive = false then some (w.goto i .stopDetaching)
    else if deadline ≤ input.now then
      some ((w.put (w.session.setPhase .failed)).goto i (.rest (some (.threw
        (.protocolError "stop_timeout" "Active capture did not stop within the fixed timeout.") none))))
    else none
  | .stopDetaching => some ((w.hold none).goto i .stopFinishing)
  | .stopFinishing =>
    let session := (w.session.setAttached false).setPhase .stopped
    some ({ w.put session with stopped := true }.goto i (.rest (some (.status session.status))))

def threw (code message : String) : Stage := .rest (some (.threw (.protocolError code message) none))

def callStart (w : SessionWorld I) (i : I) (options : SessionStartOptions) (now : Nat) : SessionWorld I :=
  if w.session.status.phase ≠ .stopped then
    w.goto i (threw "session_already_started" "Collector session has already started.")
  else
    { w.put (w.session.admitStart now) with stopping := false, stopped := false }.goto i (.readying options)

def callCapture (w : SessionWorld I) (i : I) (options : CaptureWindowOptions) (now : Nat) : SessionWorld I :=
  if w.session.captureActive then w.goto i (threw "capture_busy" "A capture is already active.")
  else if w.session.status.phase ≠ .draining then
    w.goto i (threw "session_not_ready" "Collector session is not ready to capture.")
  else if limits.maximumCaptureCount ≤ w.session.status.captureCount ∨
      limits.maximumCaptureDurationMs < options.durationMs ∨
      limits.maximumMemoryMb < options.memoryLimitMb ∨
      limits.maximumSessionSeconds * 1000 < now - w.session.startedAt then
    w.goto i (threw "session_limit_reached" "Capture would exceed a fixed session limit.")
  else (w.put w.session.admitCapture).goto i (.disconnecting options)

def callStatus (w : SessionWorld I) (i : I) (input : Input) : SessionWorld I :=
  if w.session.status.workerAttached && !w.session.captureActive then
    match w.observed input with
    | .error error =>
      (w.put (w.session.refresh input.progress none)).goto i (.rest (some (.threw error none)))
    | .ok health =>
      let session := w.session.refresh input.progress health
      ((w.put session).markHealthy (.ok health)).goto i (.rest (some (.status session.status)))
  else w.goto i (.rest (some (.status w.session.status)))

def callCancel (w : SessionWorld I) (i : I) : SessionWorld I :=
  let session := if w.session.captureActive then { w.session with cancelled := true } else w.session
  (w.put session).goto i (.rest (some (.status session.status)))

def callStop (w : SessionWorld I) (i : I) (now : Nat) : SessionWorld I :=
  if w.session.status.phase = .stopped then
    { w with stopped := true }.goto i (.rest (some (.status w.session.status)))
  else
    { w.put w.session.admitStop with stopping := true }.goto i
      (if w.session.captureActive then .stopWaiting (now + limits.stopTimeoutMs) else .stopDetaching)

def perform (w : SessionWorld I) : SessionStep I → Option (SessionWorld I)
  | .start i options now => if (w.threads i).resting then some (w.callStart i options now) else none
  | .capture i options now =>
    if (w.threads i).resting then some (w.callCapture limits i options now) else none
  | .status i input => if (w.threads i).resting then some (w.callStatus i input) else none
  | .cancel i => if (w.threads i).resting then some (w.callCancel i) else none
  | .stop i now => if (w.threads i).resting then some (w.callStop limits i now) else none
  | .advance i input => w.advance limits i input

abbrev Runs : List (SessionWorld I × SessionStep I) → SessionWorld I → Prop :=
  Trace (perform limits) (new I)

@[simp] theorem goto_threads_self (w : SessionWorld I) (i : I) (stage : Stage) :
    (w.goto i stage).threads i = stage := by
  change Function.update w.threads i stage i = stage
  rw [Function.update_self]

@[simp] theorem goto_session (w : SessionWorld I) (i : I) (stage : Stage) :
    (w.goto i stage).session = w.session := rfl

@[simp] theorem goto_worker (w : SessionWorld I) (i : I) (stage : Stage) :
    (w.goto i stage).worker = w.worker := rfl

omit [DecidableEq I] in
@[simp] theorem markHealthy_session (w : SessionWorld I) (health : Except Thrown (Option QueueHealth)) :
    (w.markHealthy health).session = w.session := by
  unfold markHealthy
  split
  · split
    · rfl
    · rfl
  · rfl

omit [DecidableEq I] in
theorem markHealthy_worker (w : SessionWorld I) (health : Except Thrown (Option QueueHealth)) :
    ∃ mark : Worker → Worker, (w.markHealthy health).worker = w.worker.map mark ∧
      (∀ k, (mark k).purpose = k.purpose) ∧ (∀ k, k.healthy = true → (mark k).healthy = true) ∧
        ∀ h, readyHealth health = some h → ∀ k, (mark k).healthy = true := by
  unfold markHealthy
  split
  · rename_i h
    split
    · exact ⟨fun k => { k with healthy := true }, rfl, fun _ => rfl, fun _ _ => rfl, fun _ _ _ => rfl⟩
    · rename_i hready
      refine ⟨id, Option.map_id_apply.symm, fun _ => rfl, fun _ hk => hk, ?_⟩
      intro h' hh
      simp [readyHealth, hready] at hh
  · rename_i hnone
    refine ⟨id, Option.map_id_apply.symm, fun _ => rfl, fun _ hk => hk, ?_⟩
    intro h hh
    cases health with
    | error e => cases hh
    | ok found =>
      cases found with
      | none => cases hh
      | some h' => exact absurd rfl (hnone h')

theorem readyHealth_eq {health : Except Thrown (Option QueueHealth)} {h : QueueHealth}
    (hready : readyHealth health = some h) : health = .ok (some h) ∧ h.ready = true := by
  cases health with
  | error e => cases hready
  | ok found =>
    cases found with
    | none => cases hready
    | some h' =>
      rw [readyHealth] at hready
      split at hready
      · rename_i hh
        cases hready
        exact ⟨rfl, hh⟩
      · cases hready

omit [DecidableEq I] in
theorem worker_of_observed {w : SessionWorld I} {input : Input} {h : QueueHealth}
    (hobserved : w.observed input = .ok (some h)) : ∃ k, w.worker = some k := by
  rw [observed] at hobserved
  cases hk : w.worker with
  | none =>
    rw [hk] at hobserved
    cases hobserved
  | some k => exact ⟨k, rfl⟩

omit [DecidableEq I] in
theorem markHealthy_none {w : SessionWorld I} (health : Except Thrown (Option QueueHealth))
    (h : w.worker = none) : (w.markHealthy health).worker = none := by
  obtain ⟨mark, hmark, -⟩ := w.markHealthy_worker health
  rw [hmark, h]
  rfl

omit [DecidableEq I] in
theorem markHealthy_eq (w : SessionWorld I) (health : Except Thrown (Option QueueHealth)) :
    w.markHealthy health = w.hold (w.markHealthy health).worker := by
  unfold markHealthy
  split
  · split
    · rfl
    · rfl
  · rfl

end SessionWorld

end Tracy
