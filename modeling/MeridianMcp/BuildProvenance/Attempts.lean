import MeridianMcp.BuildProvenance.Verdict
import MeridianMcp.Effects.Trace

namespace BuildProvenance

open MeridianMcp Effects PrivateState

-- What `record_compile_provenance` sets out to record.
inductive CompileRun where
  | verified (record : BuildRecord) (attempt : BuildAttempt)
  | unverified (attempt : BuildAttempt)

inductive CompileStage where
  | idle
  | building (record : BuildRecord) (attempt : BuildAttempt)
  | locating (record : BuildRecord) (attempt : BuildAttempt)
  | attempting (attempt : BuildAttempt)
  | done

-- `recorded` lists the attempts that have been in the slot; the store keeps only the last one.
structure CompileWorld (R : Type) where
  state : ProvenanceState
  recorded : List BuildAttempt
  runs : R → CompileStage

def CompileWorld.new (R : Type) : CompileWorld R := ⟨.empty, [], fun _ => .idle⟩

inductive CompileStep (R : Type) where
  | begin (r : R) (run : CompileRun)
  | writeBuild (r : R) (write : WriteOutcome)
  | writeLocation (r : R) (key : Text) (write : WriteOutcome)
  | writeAttempt (r : R) (write : WriteOutcome)

def CompileRun.start (artifactKey : Text) : CompileRun → Option CompileStage
  | .verified record attempt =>
    if record.artifactKey = artifactKey ∧ attempt.artifactKey = artifactKey ∧ attempt.outcome = .succeeded ∧
        attempt.createdAtUnixMs = record.createdAtUnixMs then
      some (.building record attempt)
    else none
  | .unverified attempt =>
    if attempt.artifactKey = artifactKey ∧ attempt.outcome ≠ .succeeded then some (.attempting attempt) else none

theorem recordSuccess_eq {host : Host} {record : BuildRecord} {key : Text} (buildWrite locationWrite : WriteOutcome)
    (state : ProvenanceState) (hschema : record.schema = 1 ∨ record.schema = 2) (hid : record.recordId ≠ [])
    (hlength : record.artifactKey.length = 64) (hkey : host.artifactKey record.dmb.path = some record.artifactKey)
    (hlocation : host.locationKey record.dmb.path = some key) :
    (ProvenanceState.recordSuccess host record buildWrite locationWrite state).2 =
      if buildWrite = .ok then (state.writeBuild record buildWrite).writeLocation key record.artifactKey locationWrite
      else state.writeBuild record buildWrite := by
  unfold ProvenanceState.recordSuccess
  rw [if_neg, if_neg (not_not.mpr hkey)]
  · by_cases hok : buildWrite = .ok
    · rw [if_neg (not_not.mpr hok), if_pos hok, hlocation]
      rfl
    · rw [if_pos hok, if_neg hok]
      rfl
  · rintro (⟨h1, h2⟩ | h | h)
    · exact hschema.elim h1 h2
    · exact hid h
    · exact h hlength

theorem recordAttempt_eq {attempt : BuildAttempt} (write : WriteOutcome) (state : ProvenanceState)
    (hschema : attempt.schema = 1) (hid : attempt.attemptId ≠ []) (hlength : attempt.artifactKey.length = 64) :
    (ProvenanceState.recordAttempt attempt write state).2 = state.writeAttempt attempt write := by
  unfold ProvenanceState.recordAttempt
  rw [if_neg]
  · rfl
  · rintro (h | h | h)
    · exact h hschema
    · exact hid h
    · exact h hlength

namespace CompileWorld

variable {R : Type} [DecidableEq R] (artifactKey : Text)

def goto (w : CompileWorld R) (r : R) (stage : CompileStage) : CompileWorld R :=
  { w with runs := Function.update w.runs r stage }

-- A failing write ends the run: the errors are passed on with `?`.
def perform (w : CompileWorld R) : CompileStep R → Option (CompileWorld R)
  | .begin r run =>
    match w.runs r with
    | .idle => (run.start artifactKey).map (w.goto r)
    | _ => none
  | .writeBuild r write =>
    match w.runs r with
    | .building record attempt =>
      some ({ w with state := w.state.writeBuild record write }.goto r
        (if write = WriteOutcome.ok then .locating record attempt else .done))
    | _ => none
  | .writeLocation r key write =>
    match w.runs r with
    | .locating record attempt =>
      some ({ w with state := w.state.writeLocation key record.artifactKey write }.goto r
        (if write = WriteOutcome.ok then .attempting attempt else .done))
    | _ => none
  | .writeAttempt r write =>
    match w.runs r with
    | .attempting attempt =>
      let state := w.state.writeAttempt attempt write
      let recorded := if state.attempts artifactKey = .record attempt then w.recorded ++ [attempt] else w.recorded
      some ({ w with state := state, recorded := recorded }.goto r .done)
    | _ => none

abbrev Runs : List (CompileWorld R × CompileStep R) → CompileWorld R → Prop :=
  Trace (perform artifactKey) (new R)

end CompileWorld

variable {R : Type} [DecidableEq R] {artifactKey : Text}

-- A run's record of its attempt does not take the place of one that makes the current success
-- stale without doing so itself, and a success that is not newer than a recorded failure is
-- recorded only while such a failure is in the slot.
def KeepsFailures (artifactKey : Text) (w : CompileWorld R) : CompileStep R → Prop
  | .writeBuild r write => ∀ record attempt, w.runs r = .building record attempt →
    write.leaves record (w.state.builds artifactKey) = .record record →
    ∀ failure ∈ w.recorded, Blocks failure record → SlotBlocks (w.state.attempts artifactKey) record
  | .writeAttempt r write => ∀ attempt, w.runs r = .attempting attempt →
    ∀ record, w.state.builds artifactKey = .record record → SlotBlocks (w.state.attempts artifactKey) record →
    SlotBlocks (write.leaves attempt (w.state.attempts artifactKey)) record
  | _ => True

def CompileStage.keyed (artifactKey : Text) : CompileStage → Prop
  | .building record attempt => record.artifactKey = artifactKey ∧ attempt.artifactKey = artifactKey
  | .locating record attempt => record.artifactKey = artifactKey ∧ attempt.artifactKey = artifactKey
  | .attempting attempt => attempt.artifactKey = artifactKey
  | _ => True

structure Keyed (artifactKey : Text) (w : CompileWorld R) : Prop where
  runs : ∀ r, (w.runs r).keyed artifactKey
  builds : ∀ record, w.state.builds artifactKey = .record record → record.artifactKey = artifactKey
  locations : ∀ key location, w.state.locations key = .record location → location.artifactKey = artifactKey

def Stale (artifactKey : Text) (w : CompileWorld R) : Prop :=
  ∀ record, w.state.builds artifactKey = .record record → ∀ failure ∈ w.recorded, Blocks failure record →
    SlotBlocks (w.state.attempts artifactKey) record

omit [DecidableEq R] in
theorem keyed_new : Keyed artifactKey (CompileWorld.new R) :=
  ⟨fun _ => trivial, fun _ => nofun, fun _ _ => nofun⟩

theorem keyed_goto {w : CompileWorld R} (hw : Keyed artifactKey w) {state : ProvenanceState}
    {recorded : List BuildAttempt} {r : R} {stage : CompileStage} (hstage : stage.keyed artifactKey)
    (hbuilds : ∀ record, state.builds artifactKey = .record record → record.artifactKey = artifactKey)
    (hlocations : ∀ key location, state.locations key = .record location → location.artifactKey = artifactKey) :
    Keyed artifactKey ({ w with state := state, recorded := recorded }.goto r stage) := by
  refine ⟨?_, hbuilds, hlocations⟩
  intro r'
  dsimp only [CompileWorld.goto]
  rcases eq_or_ne r' r with rfl | hne
  · rw [Function.update_self]
    exact hstage
  · rw [Function.update_of_ne hne]
    exact hw.runs r'

theorem keyed_step {w v : CompileWorld R} {step : CompileStep R} (hw : Keyed artifactKey w)
    (h : w.perform artifactKey step = some v) : Keyed artifactKey v := by
  cases step with
  | begin r run =>
    simp only [CompileWorld.perform] at h
    split at h <;> try cases h
    obtain ⟨stage, hstart, rfl⟩ := Option.map_eq_some_iff.mp h
    apply keyed_goto hw _ hw.builds hw.locations
    cases run with
    | verified record attempt =>
      simp only [CompileRun.start] at hstart
      split at hstart <;> cases hstart
      rename_i hkeys
      exact ⟨hkeys.1, hkeys.2.1⟩
    | unverified attempt =>
      simp only [CompileRun.start] at hstart
      split at hstart <;> cases hstart
      rename_i hkeys
      exact hkeys.1
  | writeBuild r write =>
    simp only [CompileWorld.perform] at h
    split at h <;> cases h
    rename_i record attempt hstage
    have hkeys := hw.runs r
    rw [hstage] at hkeys
    apply keyed_goto hw
    · split
      · exact hkeys
      · trivial
    · intro c hc
      simp only [ProvenanceState.writeBuild, hkeys.1, Function.update_self] at hc
      rcases leaves_record hc with hold | rfl
      · exact hw.builds c hold
      · exact hkeys.1
    · exact hw.locations
  | writeLocation r written write =>
    simp only [CompileWorld.perform] at h
    split at h <;> cases h
    rename_i record attempt hstage
    have hkeys := hw.runs r
    rw [hstage] at hkeys
    apply keyed_goto hw
    · split
      · exact hkeys.2
      · trivial
    · exact hw.builds
    · intro key location hlocation
      simp only [ProvenanceState.writeLocation] at hlocation
      rcases eq_or_ne key written with rfl | hne
      · rw [Function.update_self] at hlocation
        rcases leaves_record hlocation with hold | rfl
        · exact hw.locations key location hold
        · exact hkeys.1
      · rw [Function.update_of_ne hne] at hlocation
        exact hw.locations key location hlocation
  | writeAttempt r write =>
    simp only [CompileWorld.perform] at h
    split at h <;> cases h
    exact keyed_goto hw trivial hw.builds hw.locations

theorem stale_step {w v : CompileWorld R} {step : CompileStep R} (hw : Keyed artifactKey w)
    (hstale : Stale artifactKey w) (hkeeps : KeepsFailures artifactKey w step)
    (h : w.perform artifactKey step = some v) : Stale artifactKey v := by
  cases step with
  | begin r run =>
    simp only [CompileWorld.perform] at h
    split at h <;> try cases h
    obtain ⟨stage, -, rfl⟩ := Option.map_eq_some_iff.mp h
    exact hstale
  | writeBuild r write =>
    simp only [CompileWorld.perform] at h
    split at h <;> cases h
    rename_i record attempt hstage
    have hkeys := hw.runs r
    rw [hstage] at hkeys
    intro c hc failure hfailure hblocks
    simp only [CompileWorld.goto, ProvenanceState.writeBuild, hkeys.1, Function.update_self] at hc hfailure ⊢
    rcases leaves_record hc with hold | rfl
    · exact hstale c hold failure hfailure hblocks
    · exact hkeeps c attempt hstage hc failure hfailure hblocks
  | writeLocation r written write =>
    simp only [CompileWorld.perform] at h
    split at h <;> cases h
    exact hstale
  | writeAttempt r write =>
    simp only [CompileWorld.perform] at h
    split at h <;> cases h
    rename_i attempt hstage
    have hkey : attempt.artifactKey = artifactKey := by
      have hkeyed := hw.runs r
      rw [hstage] at hkeyed
      exact hkeyed
    intro c hc failure hfailure hblocks
    simp only [CompileWorld.goto, ProvenanceState.writeAttempt, hkey, Function.update_self] at hc hfailure ⊢
    have hold : failure ∈ w.recorded → SlotBlocks (write.leaves attempt (w.state.attempts artifactKey)) c :=
      fun hmem => hkeeps attempt hstage c hc (hstale c hc failure hmem hblocks)
    split at hfailure
    · rename_i hentry
      rcases List.mem_append.mp hfailure with hmem | hmem
      · exact hold hmem
      · obtain rfl := List.mem_singleton.mp hmem
        exact .inr ⟨failure, hentry, hblocks⟩
    · exact hold hfailure

theorem later_failure_stale {trace : List (CompileWorld R × CompileStep R)} {w : CompileWorld R}
    (hrun : CompileWorld.Runs artifactKey trace w)
    (hkeeps : ∀ m ∈ trace, KeepsFailures artifactKey m.1 m.2) :
    ∀ v ∈ visited trace w, ∀ record, v.state.builds artifactKey = .record record →
      ∀ failure ∈ v.recorded, Blocks failure record →
      ∀ host dmbPath requireVerified decision,
        v.state.evaluateLaunch host dmbPath requireVerified = some decision → decision.status ≠ .verified := by
  have hboth : ∀ v ∈ visited trace w, Keyed artifactKey v ∧ Stale artifactKey v := by
    apply hrun.guarded (P := fun v => Keyed artifactKey v ∧ Stale artifactKey v)
      ⟨keyed_new, fun _ => nofun⟩ _ hkeeps
    exact fun w step v hw hguard h => ⟨keyed_step hw.1 h, stale_step hw.1 hw.2 hguard h⟩
  intro v hv record hrecord failure hfailure hblocks host dmbPath requireVerified decision hdecision hverified
  obtain ⟨hkeyed, hstale⟩ := hboth v hv
  obtain ⟨path, found, hverdict⟩ := evaluateLaunch_verified hdecision hverified
  obtain ⟨key, location, -, hlocation, hfound⟩ := hverdict.located
  rw [hkeyed.locations key location hlocation, hrecord] at hfound
  cases hfound
  have hslot := hstale record hrecord failure hfailure hblocks
  rw [← hkeyed.builds record hrecord] at hslot
  exact hverdict.not_blocked hslot

def compiledHost : Host where
  symlinkMetadata := fun _ => .file 7
  existing := fun _ => true
  canonicalize := some
  contents := fun _ => some []
  readPath := some
  effectiveRoots := [⟨["ws".toList], none, none, none⟩]
  sha256 := fun _ => []
  digest := fun _ => List.replicate 64 'k'

def compiledKey : Text := List.replicate 64 'k'

def compiledDmb : PathBuf := ["ws".toList, "game.dmb".toList]

def compiledRecord (recordId : Text) (createdAtUnixMs : Nat) : BuildRecord where
  schema := 2
  recordId := recordId
  artifactKey := compiledKey
  project := ⟨["ws".toList], compiledKey, none, none⟩
  inputs := []
  verification := some ⟨"literal_dm_closure_v1".toList, ["game.dme".toList], ["ws".toList], []⟩
  dmb := ⟨compiledDmb, 7, []⟩
  rsc := none
  createdAtUnixMs := createdAtUnixMs

def compiledAttempt (attemptId : Text) (outcome : BuildAttemptOutcome) (createdAtUnixMs : Nat) : BuildAttempt :=
  ⟨1, attemptId, compiledKey, outcome, [], none, createdAtUnixMs⟩

def earlierCompile : CompileRun :=
  .verified (compiledRecord ['1'] 3) (compiledAttempt ['1'] .succeeded 3)

def laterCompile : CompileRun := .unverified (compiledAttempt ['2'] (.failed "compile_failed".toList) 5)

-- Run `true` has written its success when run `false` fails, and records its own attempt last.
def attemptsOvertake : List (CompileStep Bool) :=
  [.begin true earlierCompile, .writeBuild true .ok, .writeLocation true compiledKey .ok,
    .begin false laterCompile, .writeAttempt false .ok, .writeAttempt true .ok]

def attemptsInOrder : List (CompileStep Bool) :=
  [.begin true earlierCompile, .writeBuild true .ok, .writeLocation true compiledKey .ok, .writeAttempt true .ok,
    .begin false laterCompile, .writeAttempt false .ok]

def compiles (schedule : List (CompileStep Bool)) : List (CompileWorld Bool × CompileStep Bool) × CompileWorld Bool :=
  replay (CompileWorld.perform compiledKey) schedule (CompileWorld.new Bool)

theorem later_failure_launches :
    CompileWorld.Runs compiledKey (compiles attemptsOvertake).1 (compiles attemptsOvertake).2 ∧
    (compiles attemptsOvertake).2.state.builds compiledKey = .record (compiledRecord ['1'] 3) ∧
    (∃ failure ∈ (compiles attemptsOvertake).2.recorded, Blocks failure (compiledRecord ['1'] 3)) ∧
    ((compiles attemptsOvertake).2.state.evaluateLaunch compiledHost compiledDmb true).map LaunchDecision.status =
      some .verified :=
  ⟨Trace.replay attemptsOvertake, rfl, by decide, by decide⟩

theorem later_failure_stale_in_order :
    ∃ decision, (compiles attemptsInOrder).2.state.evaluateLaunch compiledHost compiledDmb true = some decision ∧
      decision.status ≠ .verified := by
  obtain ⟨decision, hdecision⟩ := Option.isSome_iff_exists.mp
    (show ((compiles attemptsInOrder).2.state.evaluateLaunch compiledHost compiledDmb true).isSome by decide)
  have hkeeps : ∀ m ∈ (compiles attemptsInOrder).1, KeepsFailures compiledKey m.1 m.2 := by
    refine List.forall_mem_cons.mpr ⟨trivial, List.forall_mem_cons.mpr ⟨?_, List.forall_mem_cons.mpr ⟨trivial,
      List.forall_mem_cons.mpr ⟨?_, List.forall_mem_cons.mpr ⟨trivial, List.forall_mem_singleton.mpr ?_⟩⟩⟩⟩⟩
    · intro record attempt hstage hwritten failure hfailure
      cases hfailure
    · intro attempt hstage record hrecord hblocks
      rcases hblocks with hslot | ⟨failure, hslot, hblocks⟩
      · cases hslot
      · cases hslot
    · intro attempt hstage record hrecord hblocks
      rcases hblocks with hslot | ⟨failure, hslot, hblocks⟩
      · cases hslot
      · cases hslot
        exact absurd rfl hblocks.1
  have hfailure : compiledAttempt ['2'] (.failed "compile_failed".toList) 5 ∈
      (compiles attemptsInOrder).2.recorded := by decide
  exact ⟨decision, hdecision, later_failure_stale (Trace.replay attemptsInOrder) hkeeps _ (last_mem_visited _ _)
    (compiledRecord ['1'] 3) rfl _ hfailure (by decide) compiledHost compiledDmb true decision hdecision⟩

end BuildProvenance
