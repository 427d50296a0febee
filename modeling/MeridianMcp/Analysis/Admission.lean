import Mathlib.Algebra.Ring.Nat
import Mathlib.Logic.Function.Basic
import MeridianMcp.Effects.Trace

namespace Analysis

open Effects

-- `started` numbers the builds in the order in which they start; the source has no such field.
structure AnalysisSnapshot (E : Type) where
  environmentPath : E
  generation : Nat
  started : Nat
  deriving DecidableEq

structure AnalysisState (E : Type) where
  active : Option (AnalysisSnapshot E)
  generation : Nat

structure AnalysisMetadata (E : Type) where
  activeEnvironment : Option E
  generation : Nat

inductive ParseOutcome (E : Type) where
  | reused (snapshot : AnalysisSnapshot E)
  | built (snapshot : AnalysisSnapshot E)
  | failed

inductive WorkerStage (E : Type) where
  | unspawned
  | queued (path : E) (force : Bool) (candidate : Option (AnalysisSnapshot E))
  | checking (path : E) (force : Bool) (candidate : Option (AnalysisSnapshot E))
  | building (path : E) (started : Nat)
  | finished (outcome : ParseOutcome E)
  | panicked
  | gone

-- A request that has failed has timed out, has been dropped or has been refused.
inductive RequestStage (E : Type) where
  | idle
  | queued (path : E) (force : Bool)
  | admitted (path : E) (force : Bool)
  | waiting
  | installing (snapshot : AnalysisSnapshot E)
  | publishing (snapshot : AnalysisSnapshot E)
  | published (snapshot : AnalysisSnapshot E)
  | unlocked (snapshot : AnalysisSnapshot E)
  | reused (snapshot : AnalysisSnapshot E)
  | installed (snapshot : AnalysisSnapshot E)
  | failed

inductive ClearStage where
  | idle
  | locked
  | taken
  | cleared
  | done
  deriving DecidableEq

structure Server (R C E : Type) where
  permit : Option R
  writer : Option (R ⊕ C)
  analysis : AnalysisState E
  metadata : AnalysisMetadata E
  clock : Nat
  requests : R → RequestStage E
  workers : R → WorkerStage E
  clears : C → ClearStage

def Server.new (R C E : Type) : Server R C E where
  permit := none
  writer := none
  analysis := ⟨none, 0⟩
  metadata := ⟨none, 0⟩
  clock := 0
  requests _ := .idle
  workers _ := .unspawned
  clears _ := .idle

inductive ServerStep (R C E : Type) where
  | request (r : R) (path : E) (force : Bool)
  | enter (r : R)
  | read (r : R)
  | start (r : R)
  | refuse (r : R)
  | reuse (r : R)
  | build (r : R)
  | built (r : R)
  | buildFailed (r : R)
  | panicked (r : R)
  | receive (r : R)
  | joinError (r : R)
  | abandon (r : R)
  | lock (r : R)
  | publish (r : R)
  | unlock (r : R)
  | answer (r : R)
  | clearLock (c : C)
  | clearTake (c : C)
  | clearMetadata (c : C)
  | clearUnlock (c : C)

def u64Max : Nat := 2 ^ 64 - 1

def saturatingAdd (a b : Nat) : Nat := min (a + b) u64Max

namespace Server

variable {R C E : Type} [DecidableEq R] [DecidableEq C] [DecidableEq E]

def setRequest (w : Server R C E) (r : R) (stage : RequestStage E) : Server R C E :=
  { w with requests := Function.update w.requests r stage }

def setWorker (w : Server R C E) (r : R) (stage : WorkerStage E) : Server R C E :=
  { w with workers := Function.update w.workers r stage }

def setClear (w : Server R C E) (c : C) (stage : ClearStage) : Server R C E :=
  { w with clears := Function.update w.clears c stage }

def release (w : Server R C E) : Server R C E := { w with permit := none }

-- The result of a worker carries the permit; without its request it is dropped at once.
def finish (w : Server R C E) (r : R) (outcome : ParseOutcome E) : Server R C E :=
  match w.requests r with
  | .waiting => w.setWorker r (.finished outcome)
  | _ => (w.setWorker r .gone).release

def publishAnalysis (w : Server R C E) (snapshot : AnalysisSnapshot E) : Server R C E :=
  let snapshot := { snapshot with generation := saturatingAdd w.analysis.generation 1 }
  { w with
    analysis := ⟨some snapshot, snapshot.generation⟩
    metadata := ⟨some snapshot.environmentPath, snapshot.generation⟩ }

-- A timeout and a dropped future let go of the same things.
def abandonRequest (w : Server R C E) (r : R) : Option (Server R C E) :=
  match w.requests r with
  | .queued _ _ => some (w.setRequest r .failed)
  | .admitted _ _ => some ((w.setRequest r .failed).release)
  | .waiting =>
    match w.workers r with
    | .finished _ => some (((w.setWorker r .gone).setRequest r .failed).release)
    | _ => some (w.setRequest r .failed)
  | .installing _ => some ((w.setRequest r .failed).release)
  | .publishing _ => some ({ w.setRequest r .failed with writer := none }.release)
  | _ => none

def perform (w : Server R C E) : ServerStep R C E → Option (Server R C E)
  | .request r path force =>
    match w.requests r with
    | .idle => some (w.setRequest r (.queued path force))
    | _ => none
  | .enter r =>
    match w.requests r with
    | .queued path force =>
      if w.permit = none then some { w.setRequest r (.admitted path force) with permit := some r } else none
    | _ => none
  | .read r =>
    match w.requests r with
    | .admitted path force =>
      if w.writer = none then
        some ((w.setWorker r (.queued path force w.analysis.active)).setRequest r .waiting)
      else none
    | _ => none
  | .start r =>
    match w.workers r with
    | .queued path force candidate => some (w.setWorker r (.checking path force candidate))
    | _ => none
  | .refuse r =>
    match w.workers r with
    | .checking _ _ _ => some (w.finish r .failed)
    | _ => none
  | .reuse r =>
    match w.workers r with
    | .checking path force (some snapshot) =>
      if ¬ force ∧ snapshot.environmentPath = path then some (w.finish r (.reused snapshot)) else none
    | _ => none
  | .build r =>
    match w.workers r with
    | .checking path _ _ => some { w.setWorker r (.building path w.clock) with clock := w.clock + 1 }
    | _ => none
  | .built r =>
    match w.workers r with
    | .building path started => some (w.finish r (.built ⟨path, 0, started⟩))
    | _ => none
  | .buildFailed r =>
    match w.workers r with
    | .building _ _ => some (w.finish r .failed)
    | _ => none
  | .panicked r =>
    match w.workers r with
    | .queued _ _ _ => some ((w.setWorker r .panicked).release)
    | .checking _ _ _ => some ((w.setWorker r .panicked).release)
    | .building _ _ => some ((w.setWorker r .panicked).release)
    | _ => none
  | .receive r =>
    match w.requests r, w.workers r with
    | .waiting, .finished (.built snapshot) =>
      some ((w.setWorker r .gone).setRequest r (.installing snapshot))
    | .waiting, .finished (.reused snapshot) =>
      some (((w.setWorker r .gone).setRequest r (.reused snapshot)).release)
    | .waiting, .finished .failed => some (((w.setWorker r .gone).setRequest r .failed).release)
    | _, _ => none
  | .joinError r =>
    match w.requests r, w.workers r with
    | .waiting, .panicked => some (w.setRequest r .failed)
    | _, _ => none
  | .abandon r => w.abandonRequest r
  | .lock r =>
    match w.requests r with
    | .installing snapshot =>
      if w.writer = none then some { w.setRequest r (.publishing snapshot) with writer := some (.inl r) } else none
    | _ => none
  | .publish r =>
    match w.requests r with
    | .publishing snapshot => some ((w.setRequest r (.published snapshot)).publishAnalysis snapshot)
    | _ => none
  | .unlock r =>
    match w.requests r with
    | .published snapshot => some { w.setRequest r (.unlocked snapshot) with writer := none }
    | _ => none
  | .answer r =>
    match w.requests r with
    | .unlocked snapshot => some ((w.setRequest r (.installed snapshot)).release)
    | _ => none
  | .clearLock c =>
    match w.clears c with
    | .idle => if w.writer = none then some { w.setClear c .locked with writer := some (.inr c) } else none
    | _ => none
  | .clearTake c =>
    match w.clears c with
    | .locked => some { w.setClear c .taken with analysis.active := none }
    | _ => none
  | .clearMetadata c =>
    match w.clears c with
    | .taken => some { w.setClear c .cleared with metadata.activeEnvironment := none }
    | _ => none
  | .clearUnlock c =>
    match w.clears c with
    | .cleared => some { w.setClear c .done with writer := none }
    | _ => none

abbrev Runs : List (Server R C E × ServerStep R C E) → Server R C E → Prop :=
  Trace perform (new R C E)

end Server

end Analysis
