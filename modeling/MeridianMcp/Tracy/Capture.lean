import Mathlib.Data.Finset.Insert
import Mathlib.Logic.Function.Basic
import MeridianMcp.Effects.Trace
import MeridianMcp.Text

namespace Tracy

open MeridianMcp Effects

inductive RuntimeKind where
  | standard | tracy
  deriving DecidableEq, Repr

inductive TracySessionPhase where
  | collectorConnecting | healthyIdle | captureActive | recoveryRequired | stopped
  deriving DecidableEq, Repr

structure Window where
  phase : Text
  phaseIteration : Nat
  deriving DecidableEq, Repr

structure HelperDetails where
  windowStarted : Option Bool
  collectorRecovered : Option Bool
  deriving DecidableEq, Repr

inductive TracyProtocolError where
  | invalidParams | serialize | requestTooLarge | missingResult
  | timeout (id : Nat)
  | transport (message : Text)
  | helper (code : String) (message : Text) (details : HelperDetails)
  deriving DecidableEq, Repr

def captureWindowStarted : TracyProtocolError → Bool
  | .helper _ _ details => details.windowStarted == some true
  | _ => false

-- The collector of a launch is named by the number of that launch.
structure TracyCaptureState where
  active : Bool
  usedPhases : Finset Window
  phase : Option TracySessionPhase
  collector : Option Nat
  experiment : Bool
  deriving DecidableEq

structure RuntimeState where
  gameProcess : Bool
  kind : Option RuntimeKind
  profilerPort : Option Nat
  deriving DecidableEq, Repr

inductive TracyCaptureStartError where
  | active | phaseAlreadyUsed
  deriving DecidableEq, Repr

namespace TracyCaptureState

def beginCapture (window : Window) (state : TracyCaptureState) :
    Except TracyCaptureStartError TracyCaptureState :=
  if state.active then .error .active
  else if window ∈ state.usedPhases then .error .phaseAlreadyUsed
  else .ok { state with active := true }

def finishCapture (window : Window) (windowStarted : Bool) (state : TracyCaptureState) :
    TracyCaptureState :=
  { state with
    active := false
    usedPhases := if windowStarted then insert window state.usedPhases else state.usedPhases }

end TracyCaptureState

abbrev Invocation := Except TracyProtocolError Unit

def reportsStarted : Invocation → Bool
  | .ok _ => true
  | .error (.helper "invalid_capture" _ _) => true
  | .error e => captureWindowStarted e

def phaseAfter : Invocation → TracySessionPhase
  | .ok _ => .healthyIdle
  | .error (.helper "invalid_capture" _ details) =>
    if details.collectorRecovered = some false then .recoveryRequired else .healthyIdle
  | .error (.helper _ _ details) =>
    if details.collectorRecovered = some true then .healthyIdle else .recoveryRequired
  | .error _ => .recoveryRequired

def finished (window : Window) (invocation : Invocation) (state : TracyCaptureState) : TracyCaptureState :=
  { state.finishCapture window (reportsStarted invocation) with phase := some (phaseAfter invocation) }

-- How far a call of `capture` has come, with the local values it still uses. The answer of the
-- collector stands beside whether its window may have started.
inductive Call where
  | idle
  | admitted (window : Window)
  | collected (window : Window) (collector : Nat)
  | ported (window : Window) (collector : Nat) (port : Option Nat)
  | prepared (window : Window) (collector : Nat) (port : Option Nat)
  | begun (window : Window) (collector : Nat) (port : Option Nat)
  | invoked (window : Window) (port : Option Nat) (invocation : Invocation) (started : Bool)
  | concluding (window : Window) (started : Bool) (launch : Nat)
  | returned (window : Window) (started : Bool) (launch : Option Nat)
  | leaked (window : Window)
  deriving DecidableEq

structure Ask where
  collector : Nat
  window : Window
  started : Bool
  deriving DecidableEq, Repr

structure World (I : Type) where
  runtime : RuntimeState
  capture : TracyCaptureState
  calls : I → Call
  launches : Nat
  asks : List Ask

def World.new (I : Type) : World I where
  runtime := ⟨false, none, none⟩
  capture := ⟨false, ∅, none, none, false⟩
  calls _ := .idle
  launches := 0
  asks := []

inductive Step (I : Type) where
  | enter (i : I) (window : Window)
  | takeCollector (i : I)
  | readPort (i : I)
  | prepare (i : I) (ok : Bool)
  | begin (i : I)
  | invoke (i : I) (invocation : Invocation) (started : Bool)
  | finish (i : I)
  | conclude (i : I)
  | exit
  | stop (cleanupConfirmed : Bool)
  | observeStopped
  | clearExperiment
  | runtimeUp (kind : RuntimeKind) (port : Option Nat)
  | collectorUp
  | experimentUp

namespace World

variable {I : Type} [DecidableEq I]

def goto (w : World I) (i : I) (call : Call) : World I := { w with calls := Function.update w.calls i call }

def gone : RuntimeState := ⟨false, none, none⟩

-- Each step is one section under the locks that it takes; every other step may come between two
-- sections of a call.
def perform (w : World I) : Step I → Option (World I)
  | .enter i window =>
    if w.calls i ≠ .idle then none
    else if w.runtime.gameProcess = false ∨ w.runtime.kind ≠ some .tracy then
      some (w.goto i (.returned window false none))
    else some (w.goto i (.admitted window))
  | .takeCollector i =>
    match w.calls i with
    | .admitted window =>
      match w.capture.collector with
      | none => some (w.goto i (.returned window false none))
      | some collector => some (w.goto i (.collected window collector))
    | _ => none
  | .readPort i =>
    match w.calls i with
    | .collected window collector => some (w.goto i (.ported window collector w.runtime.profilerPort))
    | _ => none
  | .prepare i ok =>
    match w.calls i with
    | .ported window collector port =>
      if w.capture.experiment = false ∨ ok = false then some (w.goto i (.returned window false none))
      else some (w.goto i (.prepared window collector port))
    | _ => none
  | .begin i =>
    match w.calls i with
    | .prepared window collector port =>
      match w.capture.beginCapture window with
      | .error _ => some (w.goto i (.returned window false none))
      | .ok capture =>
        some ({ w with capture := { capture with phase := some .captureActive } }.goto i
          (.begun window collector port))
    | _ => none
  | .invoke i invocation started =>
    match w.calls i with
    | .begun window collector port =>
      some ({ w with asks := w.asks ++ [Ask.mk collector window started] }.goto i
        (.invoked window port invocation started))
    | _ => none
  | .finish i =>
    match w.calls i with
    -- "profiled runtime omitted its listener port": an early return between begin and finish.
    | .invoked window none _ _ => some (w.goto i (.leaked window))
    | .invoked window (some _) invocation started =>
      some ({ w with capture := finished window invocation w.capture }.goto i
        (.concluding window started w.launches))
    | _ => none
  | .conclude i =>
    match w.calls i with
    | .concluding window started launch => some (w.goto i (.returned window started (some launch)))
    | _ => none
  | .exit => some { w with runtime := gone }
  | .stop cleanupConfirmed =>
    some { w with
      runtime := gone
      capture := { w.capture with
        collector := if cleanupConfirmed then none else w.capture.collector
        experiment := false } }
  | .observeStopped => some { w with capture := { w.capture with phase := some .stopped } }
  | .clearExperiment =>
    if w.runtime.gameProcess then none
    else some { w with
      capture := { w.capture with usedPhases := ∅, experiment := false }
      launches := w.launches + 1 }
  | .runtimeUp kind port =>
    if w.runtime.gameProcess then none else some { w with runtime := RuntimeState.mk true (some kind) port }
  | .collectorUp =>
    some { w with capture := { w.capture with
      collector := some w.launches
      phase := some .collectorConnecting } }
  | .experimentUp =>
    some { w with capture := { w.capture with experiment := true, phase := some .healthyIdle } }

abbrev Runs : List (World I × Step I) → World I → Prop := Trace perform (new I)

end World

end Tracy
