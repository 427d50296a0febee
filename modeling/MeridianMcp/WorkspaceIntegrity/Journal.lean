import MeridianMcp.AtomicOutput.Written
import MeridianMcp.PrettyJson.Legible
import MeridianMcp.WorkspaceIntegrity.Checkpoint

namespace WorkspaceIntegrity

open MeridianMcp Effects AtomicOutput

inductive IntegrityJournalStatus where
  | active | finalized
  deriving DecidableEq, Repr

structure IntegrityJournalDocument where
  schema : Nat
  journalId : Text
  status : IntegrityJournalStatus
  baselineDigest : Text
  preexistingChangeCount : Nat
  lastAction : Text
  checkpoints : List IntegrityCheckpoint

structure IntegrityJournal where
  path : Path String
  document : IntegrityJournalDocument

structure IntegrityJournalSummary where
  journalId : Text
  status : IntegrityJournalStatus
  lastAction : Text
  checkpointCount : Nat
  deriving DecidableEq, Repr

namespace Serialized

open PrettyJson

def checkpointFields : List (IntegrityCheckpoint → Pretty) :=
  [fun checkpoint => field "action".toList (string checkpoint.action),
    fun checkpoint => field "baseline_digest".toList (string checkpoint.baselineDigest),
    fun checkpoint => field "current_digest".toList (string checkpoint.currentDigest),
    fun checkpoint => field "added".toList (array (checkpoint.added.map string)),
    fun checkpoint => field "modified".toList (array (checkpoint.modified.map string)),
    fun checkpoint => field "deleted".toList (array (checkpoint.deleted.map string)),
    fun checkpoint => field "owned_paths".toList
      (array ((FinMap.sortKeys checkpoint.ownedPaths).map string))]

def checkpoint (checkpoint : IntegrityCheckpoint) : Pretty := object (checkpointFields.map (· checkpoint))

def status : IntegrityJournalStatus → Pretty
  | .active => string "active".toList
  | .finalized => string "finalized".toList

def documentFields : List (IntegrityJournalDocument → Pretty) :=
  [fun document => field "schema".toList (number document.schema),
    fun document => field "journal_id".toList (string document.journalId),
    fun document => field "status".toList (status document.status),
    fun document => field "baseline_digest".toList (string document.baselineDigest),
    fun document => field "preexisting_change_count".toList (number document.preexistingChangeCount),
    fun document => field "last_action".toList (string document.lastAction),
    fun document => field "checkpoints".toList (array (document.checkpoints.map checkpoint))]

def document (document : IntegrityJournalDocument) : Pretty := object (documentFields.map (· document))

theorem legible_strings : Legible fun items : List Text => array (items.map string) :=
  legible_array legible_string

theorem legible_checkpoint : Legible checkpoint := by
  have howned : ∀ a b : Finset Text, FinMap.sortKeys a = FinMap.sortKeys b → a = b := by
    intro a b h
    ext key
    rw [← FinMap.mem_sortKeys, h, FinMap.mem_sortKeys]
  refine @legible_object _ checkpointFields ?_ ?_
  · simp only [checkpointFields, List.forall_mem_cons, List.not_mem_nil, false_implies, implies_true, and_true]
    exact ⟨legible_string.closes _ _, legible_string.closes _ _, legible_string.closes _ _,
      legible_strings.closes _ _, legible_strings.closes _ _, legible_strings.closes _ _,
      legible_strings.closes (fun c : IntegrityCheckpoint => FinMap.sortKeys c.ownedPaths) _⟩
  · intro depth a b h
    simp only [checkpointFields, List.forall_mem_cons, List.not_mem_nil, false_implies, implies_true, and_true] at h
    obtain ⟨haction, hbaseline, hcurrent, hadded, hmodified, hdeleted, hkeys⟩ := h
    cases a
    cases b
    congr
    · exact legible_string.field_eq haction
    · exact legible_string.field_eq hbaseline
    · exact legible_string.field_eq hcurrent
    · exact legible_strings.field_eq hadded
    · exact legible_strings.field_eq hmodified
    · exact legible_strings.field_eq hdeleted
    · exact howned _ _ (legible_strings.field_eq hkeys)

theorem legible_status : Legible status := by
  intro depth a b s t _ _ h
  cases a <;> cases b
  · exact ⟨rfl, (quote_told h).2⟩
  · exact absurd (quote_told h).1 (by decide)
  · exact absurd (quote_told h).1 (by decide)
  · exact ⟨rfl, (quote_told h).2⟩

theorem legible_document : Legible document := by
  have hcheckpoints := legible_array legible_checkpoint
  refine @legible_object _ documentFields ?_ ?_
  · simp only [documentFields, List.forall_mem_cons, List.not_mem_nil, false_implies, implies_true, and_true]
    exact ⟨legible_number.closes _ _, legible_string.closes _ _, legible_status.closes _ _,
      legible_string.closes _ _, legible_number.closes _ _, legible_string.closes _ _,
      hcheckpoints.closes _ _⟩
  · intro depth a b h
    simp only [documentFields, List.forall_mem_cons, List.not_mem_nil, false_implies, implies_true, and_true] at h
    obtain ⟨hschema, hid, hstatus, hbaseline, hcount, haction, hrecorded⟩ := h
    cases a
    cases b
    congr
    · exact legible_number.field_eq hschema
    · exact legible_string.field_eq hid
    · exact legible_status.field_eq hstatus
    · exact legible_string.field_eq hbaseline
    · exact legible_number.field_eq hcount
    · exact legible_string.field_eq haction
    · exact hcheckpoints.field_eq hrecorded

end Serialized

def IntegrityJournalDocument.toVecPretty (document : IntegrityJournalDocument) : Bytes :=
  utf8 (Serialized.document document 0)

-- What a journal file holds: the document and the line break behind it.
def contents (document : IntegrityJournalDocument) : Bytes := document.toVecPretty ++ [10]

theorem contents_injective : Function.Injective contents := fun _ _ h =>
  Serialized.legible_document.injective 0 (utf8_injective (List.append_cancel_right h))

def writer (document : IntegrityJournalDocument) : Writer := ⟨[document.toVecPretty, [10]], none⟩

theorem payload_writer (document : IntegrityJournalDocument) :
    (writer document).payload = contents document := by
  simp [Writer.payload, writer, contents]

-- A file that has just been installed is no link, so its canonical path has a name in the tree.
def persistJournal (sha256 : Bytes → String) (policy : PathPolicy) (path : Path String)
    (overwrite : Bool) (document : IntegrityJournalDocument) :
    FsProg AtomicSite String IntegrityError (Path String) := do
  let artifact ← (writeAtomic sha256 policy path overwrite (writer document)).adapt IntegrityError.atomic
  pure (artifact.path.getD path)

namespace IntegrityJournal

variable (sha256 : Bytes → String) (policy : PathPolicy) (journal : IntegrityJournal)

-- Whether a finalized journal is there, and the drawn identifier, are given.
def create (path : Path String) (overwrite : Bool) (journalId : Text) (baseline : IntegrityBaseline) :
    FsProg AtomicSite String IntegrityError IntegrityJournal := do
  let document : IntegrityJournalDocument :=
    { schema := 1
      journalId
      status := .active
      baselineDigest := baseline.digest
      preexistingChangeCount := baseline.preexistingChanges.length
      lastAction := "baseline_captured".toList
      checkpoints := [] }
  let path ← persistJournal sha256 policy path overwrite document
  pure ⟨path, document⟩

def status : IntegrityJournalStatus := journal.document.status

def summary : IntegrityJournalSummary where
  journalId := journal.document.journalId
  status := journal.document.status
  lastAction := journal.document.lastAction
  checkpointCount := journal.document.checkpoints.length

-- An error leaves the caller with the journal as it was when it was to be persisted.
def persistInto : FsProg AtomicSite String IntegrityError (Except IntegrityError Unit × IntegrityJournal) := do
  match ← Fallible.attempt (persistJournal sha256 policy journal.path true journal.document) with
  | .ok path => pure (.ok (), { journal with path })
  | .error e => pure (.error e, journal)

def record (checkpoint : IntegrityCheckpoint) :
    FsProg AtomicSite String IntegrityError (Except IntegrityError Unit × IntegrityJournal) :=
  persistInto sha256 policy { journal with document :=
    { journal.document with
      lastAction := checkpoint.action
      checkpoints := journal.document.checkpoints ++ [checkpoint] } }

def finalize : FsProg AtomicSite String IntegrityError (Except IntegrityError Unit × IntegrityJournal) :=
  persistInto sha256 policy { journal with document :=
    { journal.document with
      status := .finalized
      lastAction := "finalized".toList } }

end IntegrityJournal

end WorkspaceIntegrity
