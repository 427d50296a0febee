import MeridianMcp.BuildProvenance.Launch

namespace BuildProvenance

open MeridianMcp Effects PrivateState

-- An attempt that makes a success stale.
def Blocks (attempt : BuildAttempt) (record : BuildRecord) : Prop :=
  attempt.outcome ≠ .succeeded ∧ record.createdAtUnixMs ≤ attempt.createdAtUnixMs

instance (attempt : BuildAttempt) (record : BuildRecord) : Decidable (Blocks attempt record) :=
  inferInstanceAs (Decidable (_ ∧ _))

def SlotBlocks (slot : Slot BuildAttempt) (record : BuildRecord) : Prop :=
  slot = .unreadable ∨ ∃ attempt, slot = .record attempt ∧ Blocks attempt record

-- What a verified launch has found in the store and on the host.
structure Verdict (host : Host) (state : ProvenanceState) (dmbPath path : PathBuf) (record : BuildRecord) : Prop where
  resolved : host.resolving host.readPath dmbPath = some path
  located : ∃ key location, host.locationKey path = some key ∧ state.locations key = .record location ∧
    state.builds location.artifactKey = .record record
  project : ∃ project, host.projectIdentity path = some project ∧ compareProject project record.project = []
  inputs : record.inputs.flatMap (compareInput host) = []
  absent : ((record.verification.map BuildVerification.absentInputs).getD []).flatMap (compareAbsent host) = []
  dmb : compareOutput host record.dmb "dmb_changed" "the managed DMB changed" = []
  rsc : (record.rsc.toList.flatMap fun rsc => compareOutput host rsc "rsc_changed" "the managed RSC changed") = []
  attempt : ∃ attempt, readOptional (state.attempts record.artifactKey) = some attempt ∧
    compareAttempt path record attempt = []

-- The two writes of `record_success` and the one of `record_attempt`, each in its own critical section.
def ProvenanceState.writeBuild (state : ProvenanceState) (record : BuildRecord) (write : WriteOutcome) :
    ProvenanceState :=
  let entry := write.leaves record (state.builds record.artifactKey)
  { state with builds := Function.update state.builds record.artifactKey entry }

def ProvenanceState.writeLocation (state : ProvenanceState) (key artifactKey : Text) (write : WriteOutcome) :
    ProvenanceState :=
  let entry := write.leaves ⟨1, artifactKey⟩ (state.locations key)
  { state with locations := Function.update state.locations key entry }

def ProvenanceState.writeAttempt (state : ProvenanceState) (attempt : BuildAttempt) (write : WriteOutcome) :
    ProvenanceState :=
  let entry := write.leaves attempt (state.attempts attempt.artifactKey)
  { state with attempts := Function.update state.attempts attempt.artifactKey entry }

theorem leaves_record {α : Type} {write : WriteOutcome} {v u : α} {before : Slot α}
    (h : write.leaves v before = .record u) : before = .record u ∨ u = v := by
  cases write with
  | kept e => exact .inl h
  | ok =>
    cases h
    exact .inr rfl
  | installed e =>
    cases h
    exact .inr rfl
  | spoiled e => cases h
  | lost e => cases h

theorem readOptional_some {α : Type} {slot : Slot α} {v : α} (h : readOptional slot = some (some v)) :
    slot = .record v := by
  cases slot with
  | absent => cases h
  | unreadable => cases h
  | record u =>
    cases h
    rfl

theorem readRecord_some {α : Type} {slot : Slot α} {v : α} (h : readRecord slot = some v) : slot = .record v := by
  cases slot with
  | absent => cases h
  | unreadable => cases h
  | record u =>
    cases h
    rfl

theorem decideLaunch_verified {requireVerified : Bool} {record : BuildRecord} {reasons : List ProvenanceReason}
    (h : (decideLaunch requireVerified record reasons).status = .verified) : reasons = [] := by
  unfold decideLaunch at h
  split at h
  · cases h
  · split at h
    · rename_i hempty
      exact List.isEmpty_iff.mp hempty
    · cases h

theorem evaluateLaunch_verified {host : Host} {state : ProvenanceState} {dmbPath : PathBuf} {requireVerified : Bool}
    {decision : LaunchDecision} (h : state.evaluateLaunch host dmbPath requireVerified = some decision)
    (hverified : decision.status = .verified) : ∃ path record, Verdict host state dmbPath path record := by
  simp only [ProvenanceState.evaluateLaunch, Option.bind_eq_bind, Option.bind_eq_some_iff] at h
  obtain ⟨path, hpath, key, hkey, location, hlocation, h⟩ := h
  cases location with
  | none =>
    cases h
    cases hverified
  | some location =>
    dsimp only at h
    split at h
    · cases h
    · simp only [Option.bind_eq_some_iff] at h
      obtain ⟨record, hrecord, attempt, hattempt, project, hproject, h⟩ := h
      cases h
      have hreasons := decideLaunch_verified hverified
      simp only [List.append_eq_nil_iff] at hreasons
      obtain ⟨⟨⟨⟨⟨hsame, hinputs⟩, habsent⟩, hdmb⟩, hrsc⟩, hblocked⟩ := hreasons
      exact ⟨path, record, hpath, ⟨key, location, hkey, readOptional_some hlocation, readRecord_some hrecord⟩,
        ⟨project, hproject, hsame⟩, hinputs, habsent, hdmb, hrsc, attempt, hattempt, hblocked⟩

theorem compareAttempt_blocks {path : PathBuf} {record : BuildRecord} {attempt : BuildAttempt}
    (h : Blocks attempt record) : compareAttempt path record (some attempt) ≠ [] := by
  obtain ⟨houtcome, hcreated⟩ := h
  rw [compareAttempt, if_pos hcreated]
  cases hresult : attempt.outcome with
  | succeeded => exact absurd hresult houtcome
  | failed code => exact nofun
  | unverified code => exact nofun

theorem Verdict.not_blocked {host : Host} {state : ProvenanceState} {dmbPath path : PathBuf} {record : BuildRecord}
    (h : Verdict host state dmbPath path record) : ¬ SlotBlocks (state.attempts record.artifactKey) record := by
  obtain ⟨attempt, hread, hnone⟩ := h.attempt
  rintro (hslot | ⟨blocking, hslot, hblocks⟩)
  · rw [hslot] at hread
    cases hread
  · rw [hslot] at hread
    cases hread
    exact compareAttempt_blocks hblocks hnone

end BuildProvenance
