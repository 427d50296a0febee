import Mathlib.Data.List.Induction
import MeridianMcp.BuildProvenance.Verdict

namespace BuildProvenance

open MeridianMcp Effects PrivateState

inductive StoreCall where
  | recordSuccess (host : Host) (record : BuildRecord) (buildWrite locationWrite : WriteOutcome)
  | recordAttempt (attempt : BuildAttempt) (write : WriteOutcome)

def StoreCall.apply (state : ProvenanceState) : StoreCall → ProvenanceState
  | .recordSuccess host record buildWrite locationWrite =>
    (ProvenanceState.recordSuccess host record buildWrite locationWrite state).2
  | .recordAttempt attempt write => (ProvenanceState.recordAttempt attempt write state).2

def storeAfter (calls : List StoreCall) : ProvenanceState := calls.foldl StoreCall.apply .empty

def Recorded (calls : List StoreCall) (host : Host) (record : BuildRecord) : Prop :=
  ∃ buildWrite locationWrite, StoreCall.recordSuccess host record buildWrite locationWrite ∈ calls

def canonicalPath (host : Host) (dmbPath : PathBuf) : Option PathBuf := do
  let path ← host.resolving host.readPath dmbPath
  host.resolving host.canonicalize path

def currentProject (host : Host) (dmbPath : PathBuf) : Option ProjectBuildIdentity := do
  let path ← host.resolving host.readPath dmbPath
  host.projectIdentity path

def absentInputs (record : BuildRecord) : List PathBuf :=
  (record.verification.map BuildVerification.absentInputs).getD []

def Hashes (host : Host) (path : PathBuf) (size : Nat) (sha256 : Text) (target : PathBuf) : Prop :=
  host.symlinkMetadata path = .file size ∧ host.canonicalize path = some target ∧
    ∃ bytes, host.contents target = some bytes ∧ host.sha256 bytes = sha256

-- What a verified launch of `path` is to mean, for the record it rests on.
structure Sound (host : Host) (dmbPath path : PathBuf) (record : BuildRecord) : Prop where
  own : record.dmb.path = path
  dmb : ∃ target, Hashes host path record.dmb.size record.dmb.sha256 target
  rsc : ∀ rsc ∈ record.rsc, ∃ target, Hashes host rsc.path rsc.size rsc.sha256 target
  inputs : ∀ input ∈ record.inputs, ∃ target, Hashes host input.path input.size input.sha256 target ∧
    ∀ resolved ∈ input.resolvedPath, resolved = target
  absent : ∀ absent ∈ absentInputs record, host.symlinkMetadata absent = .notFound
  project : currentProject host dmbPath = some record.project

-- No other artifact is taken for the one at `path`: none was recorded whose path differs from it
-- in letter case only, or whose key and project are those of the artifact.
structure Distinct (calls : List StoreCall) (host : Host) (dmbPath path : PathBuf) : Prop where
  letterCase : ∀ recorder record, Recorded calls recorder record →
    ∀ location, recorder.resolving recorder.canonicalize record.dmb.path = some location →
    lowercase (render location) = lowercase (render path) → record.dmb.path = path
  artifactKey : ∀ recorder record, Recorded calls recorder record → record.dmb.path = path →
    ∀ recorder' record', Recorded calls recorder' record' → record'.artifactKey = record.artifactKey →
    currentProject host dmbPath = some record'.project → record'.dmb.path = path

structure Filed (calls : List StoreCall) (state : ProvenanceState) : Prop where
  builds : ∀ key record, state.builds key = .record record →
    record.artifactKey = key ∧ ∃ host, Recorded calls host record
  locations : ∀ key location, state.locations key = .record location →
    ∃ host record, Recorded calls host record ∧ host.locationKey record.dmb.path = some key ∧
      location.artifactKey = record.artifactKey

variable {calls : List StoreCall} {host : Host}

theorem Recorded.snoc {record : BuildRecord} (call : StoreCall) (h : Recorded calls host record) :
    Recorded (calls ++ [call]) host record := by
  obtain ⟨buildWrite, locationWrite, hmem⟩ := h
  exact ⟨buildWrite, locationWrite, List.mem_append_left _ hmem⟩

theorem filed_snoc {state : ProvenanceState} (call : StoreCall) (h : Filed calls state) :
    Filed (calls ++ [call]) state := by
  constructor
  · intro key record hrecord
    obtain ⟨hkey, host, hrecorded⟩ := h.builds key record hrecord
    exact ⟨hkey, host, hrecorded.snoc call⟩
  · intro key location hlocation
    obtain ⟨host, record, hrecorded, hkey⟩ := h.locations key location hlocation
    exact ⟨host, record, hrecorded.snoc call, hkey⟩

theorem filed_writeBuild {state : ProvenanceState} {record : BuildRecord} {write : WriteOutcome}
    (hrecorded : Recorded calls host record) (h : Filed calls state) : Filed calls (state.writeBuild record write) := by
  refine ⟨?_, h.locations⟩
  intro key found hfound
  dsimp only [ProvenanceState.writeBuild] at hfound
  rcases eq_or_ne key record.artifactKey with rfl | hne
  · rw [Function.update_self] at hfound
    rcases leaves_record hfound with hold | rfl
    · exact h.builds _ found hold
    · exact ⟨rfl, host, hrecorded⟩
  · rw [Function.update_of_ne hne] at hfound
    exact h.builds key found hfound

theorem filed_writeLocation {state : ProvenanceState} {record : BuildRecord} {written : Text} {write : WriteOutcome}
    (hrecorded : Recorded calls host record) (hwritten : host.locationKey record.dmb.path = some written)
    (h : Filed calls state) : Filed calls (state.writeLocation written record.artifactKey write) := by
  refine ⟨h.builds, ?_⟩
  intro key location hlocation
  dsimp only [ProvenanceState.writeLocation] at hlocation
  rcases eq_or_ne key written with rfl | hne
  · rw [Function.update_self] at hlocation
    rcases leaves_record hlocation with hold | rfl
    · exact h.locations key location hold
    · exact ⟨host, record, hrecorded, hwritten, rfl⟩
  · rw [Function.update_of_ne hne] at hlocation
    exact h.locations key location hlocation

theorem filed_recordSuccess {state : ProvenanceState} {record : BuildRecord} {buildWrite locationWrite : WriteOutcome}
    (hrecorded : Recorded calls host record) (h : Filed calls state) :
    Filed calls (ProvenanceState.recordSuccess host record buildWrite locationWrite state).2 := by
  have hbuild : Filed calls (state.writeBuild record buildWrite) := filed_writeBuild hrecorded h
  unfold ProvenanceState.recordSuccess
  split
  · exact h
  · split
    · exact h
    · dsimp only
      split
      · exact hbuild
      · split
        · exact hbuild
        · rename_i written hwritten
          exact filed_writeLocation hrecorded hwritten hbuild

theorem filed_after (calls : List StoreCall) : Filed calls (storeAfter calls) := by
  induction calls using List.reverseRecOn with
  | nil => exact ⟨fun _ _ => nofun, fun _ _ => nofun⟩
  | append_singleton calls call ih =>
    rw [storeAfter, List.foldl_append]
    have hfiled := filed_snoc call ih
    cases call with
    | recordSuccess host record buildWrite locationWrite =>
      exact filed_recordSuccess ⟨buildWrite, locationWrite, by simp⟩ hfiled
    | recordAttempt attempt write =>
      rw [List.foldl_cons, List.foldl_nil, StoreCall.apply, ProvenanceState.recordAttempt]
      split
      · exact hfiled
      · exact ⟨hfiled.builds, hfiled.locations⟩

theorem capture_hashes {path : PathBuf} {current : FileIdentity} (h : host.capture path = some current) :
    Hashes host path current.size current.sha256 current.path := by
  unfold Host.capture at h
  split at h
  · rename_i size hsize
    simp only [Option.bind_eq_bind, Option.bind_eq_some_iff] at h
    obtain ⟨target, htarget, bytes, hbytes, h⟩ := h
    cases h
    exact ⟨hsize, htarget, bytes, hbytes, rfl⟩
  · cases h

theorem compareOutput_nil {recorded : FileIdentity} {code message : String}
    (h : compareOutput host recorded code message = []) :
    ∃ target, Hashes host recorded.path recorded.size recorded.sha256 target := by
  unfold compareOutput at h
  split at h
  · rename_i current hcurrent
    split at h
    · rename_i hsame
      refine ⟨current.path, ?_⟩
      rw [← hsame.1, ← hsame.2]
      exact capture_hashes hcurrent
    · cases h
  · cases h

theorem compareInput_nil {input : BuildInputIdentity} (h : compareInput host input = []) :
    ∃ target, Hashes host input.path input.size input.sha256 target ∧
      ∀ resolved ∈ input.resolvedPath, resolved = target := by
  unfold compareInput at h
  split at h
  · rename_i current hcurrent
    split at h
    · rename_i hsame
      refine ⟨current.path, ?_, hsame.2.2⟩
      rw [← hsame.1, ← hsame.2.1]
      exact capture_hashes hcurrent
    · cases h
  · cases h

theorem compareAbsent_nil {path : PathBuf} (h : compareAbsent host path = [])
    (hreadable : host.symlinkMetadata path ≠ .refused) : host.symlinkMetadata path = .notFound := by
  unfold compareAbsent at h
  cases hmetadata : host.symlinkMetadata path with
  | file size =>
    rw [hmetadata] at h
    cases h
  | other =>
    rw [hmetadata] at h
    cases h
  | notFound => rfl
  | refused => exact absurd hmetadata hreadable

theorem compareProject_nil {current recorded : ProjectBuildIdentity} (h : compareProject current recorded = []) :
    current = recorded := by
  unfold compareProject at h
  split at h
  · cases h
  · rename_i hsame
    exact not_not.mp hsame

theorem Verdict.currentProject {state : ProvenanceState} {dmbPath path : PathBuf} {record : BuildRecord}
    (h : Verdict host state dmbPath path record) : currentProject host dmbPath = some record.project := by
  obtain ⟨project, hproject, hsame⟩ := h.project
  rw [BuildProvenance.currentProject, h.resolved, ← compareProject_nil hsame]
  exact hproject

theorem locationKey_path {path : PathBuf} {key : Text} (h : host.locationKey path = some key) :
    ∃ location, host.resolving host.canonicalize path = some location ∧
      host.digest (lowercase (render location)) = key :=
  Option.map_eq_some_iff.mp h

def letterCaseHost : Host where
  symlinkMetadata := fun _ => .file 1
  existing := fun _ => true
  canonicalize := some
  contents := fun path => if path = ["ws".toList, "App.dmb".toList] then some [1] else some [2]
  readPath := some
  effectiveRoots := [⟨["ws".toList], some (List.replicate 56 'r'), none, none⟩]
  sha256 := List.map Char.ofUInt8
  digest := id

def letterCaseRecord : BuildRecord where
  schema := 2
  recordId := ['1']
  artifactKey := List.replicate 56 'r' ++ "\nApp.dmb".toList
  project := ⟨["ws".toList], List.replicate 56 'r', none, none⟩
  inputs := []
  verification := some ⟨"literal_dm_closure_v1".toList, ["App.dme".toList], ["ws".toList], []⟩
  dmb := ⟨["ws".toList, "App.dmb".toList], 1, [Char.ofUInt8 1]⟩
  rsc := none
  createdAtUnixMs := 3

def letterCaseCalls : List StoreCall := [.recordSuccess letterCaseHost letterCaseRecord .ok .ok]

theorem letterCaseCalls_recorded {recorder : Host} {record : BuildRecord}
    (h : Recorded letterCaseCalls recorder record) : recorder = letterCaseHost ∧ record = letterCaseRecord := by
  obtain ⟨buildWrite, locationWrite, hmem⟩ := h
  cases List.mem_singleton.mp hmem
  exact ⟨rfl, rfl⟩

theorem letterCase_launch : (storeAfter letterCaseCalls).evaluateLaunch letterCaseHost letterCaseRecord.dmb.path true =
    some ⟨.verified, true, some ['1'], []⟩ := by
  decide

end BuildProvenance
