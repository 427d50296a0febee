import MeridianMcp.WorkspaceIntegrity.Journal

namespace WorkspaceIntegrity

open MeridianMcp Effects Fallible AtomicOutput

inductive JournalCall where
  | record (checkpoint : IntegrityCheckpoint)
  | finalize

namespace JournalCall

def run (sha256 : Bytes → String) (policy : PathPolicy) (journal : IntegrityJournal) :
    JournalCall → FsProg AtomicSite String IntegrityError (Except IntegrityError Unit × IntegrityJournal)
  | .record checkpoint => journal.record sha256 policy checkpoint
  | .finalize => journal.finalize sha256 policy

-- The document that a call persists.
def update (document : IntegrityJournalDocument) : JournalCall → IntegrityJournalDocument
  | .record checkpoint =>
    { document with
      lastAction := checkpoint.action
      checkpoints := document.checkpoints ++ [checkpoint] }
  | .finalize =>
    { document with
      status := .finalized
      lastAction := "finalized".toList }

end JournalCall

structure JournalAttempt where
  call : JournalCall
  policy : PathPolicy
  env : Env AtomicSite

structure JournalState where
  fs : FileSystem String
  journal : IntegrityJournal
  persisted : Bytes

-- What the file last held, also when it has been moved aside since.
def lastContents (fs : FileSystem String) (path : Path String) (persisted : Bytes) : Bytes :=
  match fs.node path with
  | some (.file bytes) => bytes
  | _ => persisted

namespace JournalAttempt

variable (sha256 : Bytes → String) (attempt : JournalAttempt) (s : JournalState)

def outcome : Except IntegrityError (Except IntegrityError Unit × IntegrityJournal) × FileSystem String :=
  exec attempt.env.serve (attempt.call.run sha256 attempt.policy s.journal) s.fs

def result : Except IntegrityError Unit :=
  (attempt.outcome sha256 s).1.bind Prod.fst

def next : JournalState :=
  match attempt.outcome sha256 s with
  | (.ok (_, journal), fs) => ⟨fs, journal, lastContents fs s.journal.path s.persisted⟩
  | (.error _, fs) => ⟨fs, s.journal, lastContents fs s.journal.path s.persisted⟩

-- A repeated call persists the checkpoints that this one was to persist.
structure Restored (s t : JournalState) : Prop where
  persisted : contents t.journal.document = t.persisted
  status : ∀ stored, contents stored = t.persisted → t.journal.status = stored.status
  repeated : (attempt.call.update t.journal.document).checkpoints =
    (attempt.call.update s.journal.document).checkpoints

def ErrorAtomic : Prop :=
  ∀ e, attempt.result sha256 s = .error e → attempt.Restored s (attempt.next sha256 s)

def publication : Publication :=
  .write attempt.policy s.journal.path true (writer (attempt.call.update s.journal.document))

def Installed : Prop :=
  (attempt.publication s).Reaches attempt.env s.fs ∧ Installs attempt.env s.fs s.journal.path

def Persists : Prop :=
  match attempt.call with
  | .record _ => attempt.Installed s ∧ Completes attempt.env s.fs s.journal.path
  | .finalize => attempt.Installed s ∨ attempt.call.update s.journal.document = s.journal.document

-- A drawn backup name that is in use is seen to be in use.
def Drawn : Prop := ∀ k,
  s.fs.node (privatePath s.journal.path.dropLast "backup" (attempt.env.entropy (.backupRandom k))) = none ∨
    attempt.env.fault (.backupExists k) = false ∧ s.fs.present
      (privatePath s.journal.path.dropLast "backup" (attempt.env.entropy (.backupRandom k))) = true

end JournalAttempt

structure Stored (s : JournalState) : Prop where
  persisted : contents s.journal.document = s.persisted
  file : s.fs.node s.journal.path = none ∨ s.fs.node s.journal.path = some (.file s.persisted)
  named : ∀ random, privatePath s.journal.path.dropLast "tmp" random ≠ s.journal.path

def Along (sha256 : Bytes → String) (P : JournalAttempt → JournalState → Prop) :
    JournalState → List JournalAttempt → Prop
  | _, [] => True
  | s, attempt :: attempts => P attempt s ∧ Along sha256 P (attempt.next sha256 s) attempts

variable {sha256 : Bytes → String} {attempt : JournalAttempt} {s : JournalState}

inductive Attempted (attempt : JournalAttempt) (s : JournalState) :
    Except IntegrityError Unit → JournalState → Prop
  | refused {e fs} : ¬ attempt.Installed s →
      Attempted attempt s (.error e)
        ⟨fs, ⟨s.journal.path, attempt.call.update s.journal.document⟩, s.persisted⟩
  | published {fs} : attempt.Installed s → Completes attempt.env s.fs s.journal.path →
      Attempted attempt s (.ok ()) ⟨fs, ⟨s.journal.path, attempt.call.update s.journal.document⟩,
        contents (attempt.call.update s.journal.document)⟩
  | unreported {e fs} : attempt.Installed s → ¬ Completes attempt.env s.fs s.journal.path →
      Attempted attempt s (.error e) ⟨fs, ⟨s.journal.path, attempt.call.update s.journal.document⟩,
        contents (attempt.call.update s.journal.document)⟩

theorem run_eq (sha256 : Bytes → String) (policy : PathPolicy) (journal : IntegrityJournal)
    (call : JournalCall) : call.run sha256 policy journal =
      IntegrityJournal.persistInto sha256 policy ⟨journal.path, call.update journal.document⟩ := by
  cases call <;> rfl

variable (sha256) in
theorem exec_persistJournal (policy : PathPolicy) (path : Path String) (overwrite : Bool)
    (document : IntegrityJournalDocument) (env : Env AtomicSite) (fs : FileSystem String) :
    exec env.serve (persistJournal sha256 policy path overwrite document) fs =
      ((exec env.serve (writeAtomic sha256 policy path overwrite (writer document)) fs).1.mapError
          IntegrityError.atomic |>.map fun artifact => artifact.path.getD path,
        (exec env.serve (writeAtomic sha256 policy path overwrite (writer document)) fs).2) := by
  rw [persistJournal, exec_bind, exec_adapt]
  cases (exec env.serve (writeAtomic sha256 policy path overwrite (writer document)) fs).1 <;> rfl

theorem lastContents_file {fs : FileSystem String} {path : Path String} {bytes persisted : Bytes}
    (h : fs.node path = some (.file bytes)) : lastContents fs path persisted = bytes := by
  rw [lastContents, h]

theorem outcome_ok {artifact : OutputArtifact} {fs : FileSystem String}
    (h : exec attempt.env.serve (writeAtomic sha256 attempt.policy s.journal.path true
      (writer (attempt.call.update s.journal.document))) s.fs = (.ok artifact, fs)) :
    attempt.outcome sha256 s = (.ok (.ok (),
      ⟨artifact.path.getD s.journal.path, attempt.call.update s.journal.document⟩), fs) := by
  have hpersist := exec_persistJournal sha256 attempt.policy s.journal.path true
    (attempt.call.update s.journal.document) attempt.env s.fs
  rw [h] at hpersist
  rw [JournalAttempt.outcome, run_eq, IntegrityJournal.persistInto,
    exec_bind_ok _ (exec_attempt _ _ _), hpersist]
  rfl

theorem outcome_error {e : AtomicOutputError} {fs : FileSystem String}
    (h : exec attempt.env.serve (writeAtomic sha256 attempt.policy s.journal.path true
      (writer (attempt.call.update s.journal.document))) s.fs = (.error e, fs)) :
    attempt.outcome sha256 s = (.ok (.error (.atomic e),
      ⟨s.journal.path, attempt.call.update s.journal.document⟩), fs) := by
  have hpersist := exec_persistJournal sha256 attempt.policy s.journal.path true
    (attempt.call.update s.journal.document) attempt.env s.fs
  rw [h] at hpersist
  rw [JournalAttempt.outcome, run_eq, IntegrityJournal.persistInto,
    exec_bind_ok _ (exec_attempt _ _ _), hpersist]
  rfl

variable (sha256) in
theorem attempt_attempted (hs : Stored s) (hd : attempt.Drawn s) :
    Attempted attempt s (attempt.result sha256 s) (attempt.next sha256 s) ∧
      ((attempt.next sha256 s).fs.node s.journal.path = none ∨
        (attempt.next sha256 s).fs.node s.journal.path =
          some (.file (attempt.next sha256 s).persisted)) := by
  have hplaced : Publication.Placed attempt.env s.fs (attempt.publication s) := by
    refine ⟨?_, ?_, hd⟩
    · rcases hs.file with h | h
      · exact .inl h
      · exact .inr ⟨_, h⟩
    · rintro tmp ⟨k, rfl⟩
      exact hs.named _
  have hwritten := writeAtomic_written sha256 hplaced
  cases hexec : exec attempt.env.serve (writeAtomic sha256 attempt.policy s.journal.path true
      (writer (attempt.call.update s.journal.document))) s.fs with
  | mk r fs =>
    rw [hexec] at hwritten
    cases hwritten with
    | refused hinstalled hnode =>
      rw [JournalAttempt.result, JournalAttempt.next, outcome_error hexec]
      have hkept : lastContents fs s.journal.path s.persisted = s.persisted := by
        rcases hnode with hnode | hnode
        · rcases hs.file with hfile | hfile
          · rw [lastContents, hnode, hfile]
          · exact lastContents_file (hnode.trans hfile)
        · rw [lastContents, hnode]
      simp only [hkept]
      refine ⟨.refused hinstalled, ?_⟩
      rcases hnode with hnode | hnode
      · rw [hnode]
        exact hs.file
      · exact .inl hnode
    | published hreaches hinstalls hcompletes hpath hnode =>
      rw [JournalAttempt.result, JournalAttempt.next, outcome_ok hexec, hpath]
      rw [payload_writer] at hnode
      simp only [lastContents_file hnode]
      exact ⟨.published ⟨hreaches, hinstalls⟩ hcompletes, .inr hnode⟩
    | unreported hreaches hinstalls hcompletes hnode =>
      rw [JournalAttempt.result, JournalAttempt.next, outcome_error hexec]
      rw [payload_writer] at hnode
      simp only [lastContents_file hnode]
      exact ⟨.unreported ⟨hreaches, hinstalls⟩ hcompletes, .inr hnode⟩

theorem update_record_ne (checkpoint : IntegrityCheckpoint) (document : IntegrityJournalDocument) :
    (JournalCall.record checkpoint).update document ≠ document := by
  intro h
  have hlength := congrArg (fun d => d.checkpoints.length) h
  simp [JournalCall.update] at hlength

theorem restored_refused {fs : FileSystem String} (hs : Stored s) :
    attempt.Restored s ⟨fs, ⟨s.journal.path, attempt.call.update s.journal.document⟩, s.persisted⟩ ↔
      attempt.call.update s.journal.document = s.journal.document := by
  constructor
  · rintro ⟨hpersisted, -, -⟩
    exact contents_injective (hpersisted.trans hs.persisted.symm)
  · intro h
    rw [h]
    refine ⟨hs.persisted, fun stored hstored => ?_, rfl⟩
    rw [contents_injective (hstored.trans hs.persisted.symm)]
    rfl

theorem restored_unreported {fs : FileSystem String} :
    attempt.Restored s ⟨fs, ⟨s.journal.path, attempt.call.update s.journal.document⟩,
        contents (attempt.call.update s.journal.document)⟩ ↔ attempt.call = .finalize := by
  constructor
  · rintro ⟨-, -, hrepeated⟩
    cases hcall : attempt.call with
    | record checkpoint =>
      rw [hcall] at hrepeated
      have hlength := congrArg List.length hrepeated
      simp [JournalCall.update] at hlength
    | finalize => rfl
  · intro h
    refine ⟨rfl, fun stored hstored => ?_, ?_⟩
    · rw [contents_injective hstored]
      rfl
    · rw [h]
      rfl

-- An error leaves the journal as persisted when the call installed its document and repeating it
-- does no harm, or when the call changes nothing.
theorem errorAtomic_iff_persists (hs : Stored s) (hd : attempt.Drawn s) :
    attempt.ErrorAtomic sha256 s ↔ attempt.Persists s := by
  obtain ⟨hattempted, -⟩ := attempt_attempted sha256 hs hd
  rw [JournalAttempt.ErrorAtomic, JournalAttempt.Persists]
  generalize attempt.result sha256 s = result, attempt.next sha256 s = t at hattempted ⊢
  cases hattempted with
  | refused hinstalled =>
    simp only [Except.error.injEq, forall_eq', restored_refused hs]
    cases hcall : attempt.call with
    | record checkpoint => exact iff_of_false (update_record_ne _ _) fun h => hinstalled h.1
    | finalize => exact (or_iff_right hinstalled).symm
  | published hinstalled hcompletes =>
    refine iff_of_true (fun e h => by cases h) ?_
    cases attempt.call with
    | record checkpoint => exact ⟨hinstalled, hcompletes⟩
    | finalize => exact .inl hinstalled
  | unreported hinstalled hcompletes =>
    simp only [Except.error.injEq, forall_eq', restored_unreported]
    cases hcall : attempt.call with
    | record checkpoint => exact iff_of_false (by simp) fun h => hcompletes h.2
    | finalize => exact iff_of_true rfl (.inl hinstalled)

theorem stored_next (hs : Stored s) (hd : attempt.Drawn s) (hp : attempt.Persists s) :
    Stored (attempt.next sha256 s) := by
  obtain ⟨hattempted, hfile⟩ := attempt_attempted sha256 hs hd
  generalize attempt.result sha256 s = result, attempt.next sha256 s = t at hattempted hfile ⊢
  cases hattempted with
  | refused hinstalled =>
    refine ⟨?_, hfile, hs.named⟩
    rw [JournalAttempt.Persists] at hp
    cases hcall : attempt.call with
    | record checkpoint =>
      rw [hcall] at hp
      exact absurd hp.1 hinstalled
    | finalize =>
      rw [hcall] at hp
      change contents (JournalCall.finalize.update s.journal.document) = s.persisted
      rw [hp.resolve_left hinstalled, hs.persisted]
  | published hinstalled hcompletes => exact ⟨rfl, hfile, hs.named⟩
  | unreported hinstalled hcompletes => exact ⟨rfl, hfile, hs.named⟩

theorem errors_atomic_iff (sha256 : Bytes → String) (s : JournalState) (attempts : List JournalAttempt)
    (hs : Stored s) (hd : Along sha256 JournalAttempt.Drawn s attempts) :
    Along sha256 (JournalAttempt.ErrorAtomic sha256) s attempts ↔
      Along sha256 JournalAttempt.Persists s attempts := by
  induction attempts generalizing s with
  | nil => exact Iff.rfl
  | cons attempt attempts ih =>
    rw [Along, Along, errorAtomic_iff_persists hs hd.1]
    refine and_congr_right fun hp => ?_
    exact ih (attempt.next sha256 s) (stored_next hs hd.1 hp) hd.2

def journalName : String := ".meridian-tracy-session.json"

theorem journalName_named (parent : Path String) (random : Bytes) :
    privatePath (parent ++ [journalName]).dropLast "tmp" random ≠ parent ++ [journalName] := by
  rw [List.dropLast_concat, privatePath]
  intro h
  have hname : privateName "tmp" random = journalName ++ "" := by
    rw [String.append_empty]
    exact (List.cons.inj (List.append_cancel_left h)).1
  rw [privateName, String.append_assoc] at hname
  exact append_ne_append (n := 12) (by decide) (by decide) (by decide) hname

-- What create leaves is where a run of calls starts.
theorem create_stored {env : Env AtomicSite} {fs t : FileSystem String} {policy : PathPolicy}
    {parent : Path String} {overwrite : Bool} {journalId : Text} {baseline : IntegrityBaseline}
    {journal : IntegrityJournal}
    (hplaced : ∀ document, Publication.Placed env fs
      (.write policy (parent ++ [journalName]) overwrite (writer document)))
    (h : exec env.serve (IntegrityJournal.create sha256 policy (parent ++ [journalName]) overwrite
      journalId baseline) fs = (.ok journal, t)) :
    Stored ⟨t, journal, contents journal.document⟩ := by
  rw [IntegrityJournal.create, exec_bind, exec_persistJournal] at h
  generalize hdocument : IntegrityJournalDocument.mk _ _ _ _ _ _ _ = document at h
  have hwritten := writeAtomic_written sha256 (hplaced document)
  generalize exec env.serve (writeAtomic sha256 policy (parent ++ [journalName]) overwrite
    (writer document)) fs = run at h hwritten
  obtain ⟨r, u⟩ := run
  cases hwritten with
  | refused => cases h
  | unreported => cases h
  | published _ _ _ hpath hnode =>
    simp only [Except.mapError, Except.map, hpath] at h
    cases h
    rw [payload_writer] at hnode
    exact ⟨rfl, .inr hnode, journalName_named parent⟩

def capturedDocument : IntegrityJournalDocument where
  schema := 1
  journalId := "5d".toList
  status := .active
  baselineDigest := "00".toList
  preexistingChangeCount := 0
  lastAction := "baseline_captured".toList
  checkpoints := []

def journalTree : FileSystem String :=
  FileSystem.empty.put [journalName] (.file (contents capturedDocument))
    ⟨by decide, by decide, by decide⟩

def captured : JournalState :=
  ⟨journalTree, ⟨[journalName], capturedDocument⟩, contents capturedDocument⟩

theorem captured_stored : Stored captured :=
  ⟨rfl, .inr rfl, journalName_named []⟩

def finalizing (faults : List AtomicSite) : JournalAttempt :=
  ⟨.finalize, ⟨[[]]⟩, ⟨fun site => decide (site ∈ faults), fun _ => []⟩⟩

theorem finalizing_drawn (faults : List AtomicSite) : (finalizing faults).Drawn captured :=
  fun _ => .inl rfl

theorem errors_atomic_iff_backup_kept :
    Along (fun _ => "") (JournalAttempt.ErrorAtomic fun _ => "") captured [finalizing [.removeBackup]] := by
  have hdrawn : Along (fun _ => "") JournalAttempt.Drawn captured [finalizing [.removeBackup]] :=
    ⟨finalizing_drawn _, trivial⟩
  refine (errors_atomic_iff (fun _ => "") captured _ captured_stored hdrawn).mpr ⟨.inl ⟨⟨?_, ?_, ?_⟩, ?_⟩, trivial⟩
  · exact ⟨by decide, by decide, fun _ _ => rfl⟩
  · decide
  · exact ⟨fun _ _ => rfl, rfl, rfl, rfl⟩
  · exact ⟨⟨⟨rfl, rfl, rfl⟩, fun _ => ⟨by decide, rfl⟩⟩, rfl⟩

theorem finalized_unpersisted :
    ¬ Along (fun _ => "") (JournalAttempt.ErrorAtomic fun _ => "") captured [finalizing [.flush]] ∧
      ((finalizing [.flush]).next (fun _ => "") captured).journal.status = .finalized ∧
      ((finalizing [.flush]).next (fun _ => "") captured).persisted = contents capturedDocument := by
  have hrefused : ¬ (finalizing [.flush]).Installed captured := by
    rintro ⟨⟨-, -, -, -, hflush, -⟩, -⟩
    cases hflush
  refine ⟨fun h => ?_, ?_⟩
  · rcases (errorAtomic_iff_persists captured_stored (finalizing_drawn [.flush])).mp h.1 with h | h
    · exact hrefused h
    · exact absurd (congrArg IntegrityJournalDocument.status h) (by decide)
  · obtain ⟨hattempted, -⟩ := attempt_attempted (fun _ => "") captured_stored
      (finalizing_drawn [.flush])
    generalize (finalizing [.flush]).result (fun _ => "") captured = result,
      (finalizing [.flush]).next (fun _ => "") captured = t at hattempted ⊢
    cases hattempted with
    | refused => exact ⟨rfl, rfl⟩
    | published hinstalled => exact absurd hinstalled hrefused
    | unreported hinstalled => exact absurd hinstalled hrefused

end WorkspaceIntegrity
