import Mathlib.Algebra.Ring.Nat
import Mathlib.Algebra.BigOperators.Group.Finset.Basic
import Mathlib.Algebra.Order.BigOperators.Group.List
import MeridianMcp.PrettyJson
import MeridianMcp.PrivateState.Outcome
import MeridianMcp.RuntimeIntegrity.Session
import MeridianMcp.WorkspaceIntegrity.Sources

namespace RuntimeIntegrity

open MeridianMcp PrettyJson WorkspaceIntegrity
open BuildProvenance (LaunchProvenance ProvenanceReason ProvenanceStatus)

namespace Serialized

def path (components : List Text) : Pretty := string ('/' :: ['/'].intercalate components)

def fileIdentity (identity : WorkspaceIntegrity.FileIdentity) : Pretty := object
  [field "tracked".toList (boolean identity.tracked),
    field "git_object_kind".toList (optional string identity.gitObjectKind),
    field "git_object_id".toList (optional string identity.gitObjectId),
    field "sha256".toList (optional string identity.sha256),
    field "size".toList (optional number identity.size),
    field "status".toList (string identity.status)]

def snapshot (snapshot : WorkspaceSnapshot) : Pretty := object
  [field "root".toList (path snapshot.root),
    field "records".toList (object (snapshot.records.entries.map fun record =>
      field record.1 (fileIdentity record.2))),
    field "digest".toList (string snapshot.digest),
    field "preexisting_changes".toList (array (snapshot.preexistingChanges.map string))]

def mutationKind : MutationKind → Pretty
  | .added => string "added".toList
  | .modified => string "modified".toList
  | .deleted => string "deleted".toList

def outputEntry (entry : RuntimeOutputEntry) : Pretty := object
  [field "sequence".toList (number entry.sequence),
    field "monotonic_offset_ms".toList (number entry.monotonicOffsetMs),
    field "text".toList (string entry.text)]

def event (event : RuntimeIntegrityEvent) : Pretty := object
  [field "code".toList (string event.code.toList),
    field "relative_path".toList (string event.relativePath),
    field "change_kind".toList (mutationKind event.changeKind),
    field "before".toList (optional fileIdentity event.before),
    field "after".toList (optional fileIdentity event.after),
    field "first_observed_offset_ms".toList (number event.firstObservedOffsetMs),
    field "nearest_output".toList (optional outputEntry event.nearestOutput),
    field "session_id".toList (string event.sessionId),
    field "process_id".toList (optional number event.processId),
    field "build_record_id".toList (optional string event.buildRecordId)]

def status : RuntimeIntegrityStatus → Pretty
  | .active => string "active".toList
  | .finalizedClean => string "finalized_clean".toList
  | .finalizedWithChanges => string "finalized_with_changes".toList
  | .finalizedWithViolation => string "finalized_with_violation".toList
  | .observedDuringRecovery => string "observed_during_recovery".toList

def provenanceStatus : ProvenanceStatus → Pretty
  | .verified => string "verified".toList
  | .unverified => string "unverified".toList
  | .stale => string "stale".toList

def provenanceReason (reason : ProvenanceReason) : Pretty := object
  [field "code".toList (string reason.code.toList),
    field "message".toList (string reason.message.toList),
    field "role".toList (optional string reason.role),
    field "path".toList (optional path reason.path)]

def launchProvenance (launch : LaunchProvenance) : Pretty := object
  [field "status".toList (provenanceStatus launch.status),
    field "build_record_id".toList (optional string launch.buildRecordId),
    field "dmb_sha256".toList (string launch.dmbSha256),
    field "warnings".toList (array (launch.warnings.map provenanceReason))]

def journal (document : RuntimeIntegrityJournal) : Pretty := object
  [field "schema".toList (number document.schema),
    field "session_id".toList (string document.sessionId),
    field "status".toList (status document.status),
    field "protected_root".toList (path document.protectedRoot),
    field "baseline".toList (snapshot document.baseline),
    field "events".toList (array (document.events.map event)),
    field "last_action".toList (string document.lastAction.toList),
    field "process_id".toList (optional number document.processId),
    field "launch_provenance".toList (launchProvenance document.launchProvenance)]

end Serialized

def toVecPretty (document : RuntimeIntegrityJournal) : Effects.Bytes :=
  utf8 (Serialized.journal document 0)

open MeridianMcp PrettyJson PrivateState WorkspaceIntegrity Effects
open BuildProvenance (LaunchProvenance)

def optionBytes {α : Type} (length : α → Nat) : Option α → Nat
  | none => 4
  | some a => length a

def textBytes (text : Text) : Nat := bytes (quote text)

def numberBytes (n : Nat) : Nat := bytes (Nat.toDigits 10 n)

def identityBytes (identity : WorkspaceIntegrity.FileIdentity) : Nat := bracketedBytes 3
  [fieldBytes "tracked".toList (if identity.tracked then 4 else 5),
    fieldBytes "git_object_kind".toList (optionBytes textBytes identity.gitObjectKind),
    fieldBytes "git_object_id".toList (optionBytes textBytes identity.gitObjectId),
    fieldBytes "sha256".toList (optionBytes textBytes identity.sha256),
    fieldBytes "size".toList (optionBytes numberBytes identity.size),
    fieldBytes "status".toList (textBytes identity.status)]

def pathBytes (components : List Text) : Nat := textBytes ('/' :: ['/'].intercalate components)

section

variable (host : CaptureHost) (root : List Text) (sessionId : Text) (launch : LaunchProvenance)

def sourceBytes (name : Text) : Nat :=
  (sourceOf host root name).elim 0 fun source =>
    fieldBytes name (identityBytes (identityOf host source)) + 8

def recordsBytes : Nat :=
  if scope host root = ∅ then 2 else ∑ name ∈ scope host root, sourceBytes host root name + 6

-- The digest is a hash in hexadecimal digits, so 66 bytes with its quotation marks.
def baselineBytes : Nat := bracketedBytes 1
  [fieldBytes "root".toList (pathBytes root),
    fieldBytes "records".toList (recordsBytes host root),
    fieldBytes "digest".toList 66,
    fieldBytes "preexisting_changes".toList (bracketedBytes 2 ((changes host).map textBytes))]

def journalBytes : Nat := bracketedBytes 0
  [fieldBytes "schema".toList 1,
    fieldBytes "session_id".toList (textBytes sessionId),
    fieldBytes "status".toList 8,
    fieldBytes "protected_root".toList (pathBytes root),
    fieldBytes "baseline".toList (baselineBytes host root),
    fieldBytes "events".toList 2,
    fieldBytes "last_action".toList 19,
    fieldBytes "process_id".toList 4,
    fieldBytes "launch_provenance".toList (bytes (Serialized.launchProvenance launch 1))]

end

variable {host : CaptureHost} {root : List Text} {depth : Nat} {sessionId : Text}
  {launch : LaunchProvenance} {owned : List OwnedPath} {snapshot : WorkspaceSnapshot}

theorem bytes_optional {α : Type} (value : α → Pretty) (option : Option α) :
    bytes (optional value option depth) = optionBytes (fun a => bytes (value a depth)) option := by
  cases option with
  | none => rfl
  | some a => rfl

theorem bytes_boolean (b : Bool) : bytes (boolean b depth) = if b then 4 else 5 := by
  cases b with
  | false => rfl
  | true => rfl

theorem bytes_fileIdentity (identity : WorkspaceIntegrity.FileIdentity) :
    bytes (Serialized.fileIdentity identity 3) = identityBytes identity := by
  rw [Serialized.fileIdentity, bytes_object]
  simp only [List.map_cons, List.map_nil, bytes_field, bytes_boolean, bytes_optional]
  rfl

theorem sum_entries (m : WorkspaceIntegrity.Records) (f : Text × WorkspaceIntegrity.FileIdentity → Nat) :
    (m.entries.map f).sum = ∑ name ∈ m.keys, (m.get name).elim 0 fun identity => f (name, identity) := by
  have hkeys : (FinMap.sortKeys m.keys).toFinset = m.keys := by
    ext name
    simp
  have hsum := List.sum_toFinset (fun name => (m.get name).elim 0 fun identity => f (name, identity))
    (FinMap.sortKeys_nodup m.keys)
  rw [hkeys] at hsum
  rw [hsum, FinMap.entries]
  generalize FinMap.sortKeys m.keys = keys
  induction keys with
  | nil => rfl
  | cons name keys ih =>
    rw [List.filterMap_cons, List.map_cons, List.sum_cons]
    cases m.get name with
    | none => simpa using ih
    | some identity => simp [ih]

theorem entries_eq_nil (m : WorkspaceIntegrity.Records) : m.entries = [] ↔ m.keys = ∅ := by
  rw [List.eq_nil_iff_forall_not_mem, Finset.eq_empty_iff_forall_notMem]
  constructor
  · intro h name hname
    obtain ⟨identity, hidentity⟩ := Option.ne_none_iff_exists'.mp ((m.mem_keys name).mp hname)
    exact h _ (FinMap.mem_entries.mpr hidentity)
  · rintro h ⟨name, identity⟩ hmem
    refine h name ((m.mem_keys name).mpr ?_)
    rw [FinMap.mem_entries.mp hmem]
    exact Option.some_ne_none _

theorem bytes_records {records : WorkspaceIntegrity.Records} {found : List Text}
    (h : captureRecords host root = .ok (records, found)) :
    bytes (object (records.entries.map fun record => field record.1 (Serialized.fileIdentity record.2)) 2) =
      recordsBytes host root := by
  rw [bytes_object, List.map_map, bracketedBytes, recordsBytes, ← captureRecords_keys h]
  by_cases hkeys : records.keys = ∅
  · rw [if_pos hkeys, if_pos (List.map_eq_nil_iff.mpr ((entries_eq_nil records).mpr hkeys))]
  · rw [if_neg hkeys, if_neg (fun hnil => hkeys ((entries_eq_nil records).mp (List.map_eq_nil_iff.mp hnil))),
      List.map_map, sum_entries]
    refine congrArg (· + 6) (Finset.sum_congr rfl fun name hname => ?_)
    rw [captureRecords_get_source h, sourceBytes]
    cases sourceOf host root name with
    | none => rfl
    | some source =>
      simp only [Option.map_some, Option.elim_some, Function.comp_apply, bytes_field]
      exact congrArg (fieldBytes name · + 8) (bytes_fileIdentity _)

theorem lowerHex_plain {c : Char} (h : lowerHex c = true) : c.utf8Size = 1 ∧ escape c = [c] := by
  have hrange : 48 ≤ c.toNat ∧ c.toNat ≤ 57 ∨ 97 ≤ c.toNat ∧ c.toNat ≤ 102 := by
    simpa [lowerHex, Char.isDigit, Char.le_def, UInt32.le_iff_toNat_le] using h
  constructor
  · have hsmall : c.toNat ≤ 127 := by omega
    exact Char.utf8Size_eq_one_iff.mpr (UInt32.le_iff_toNat_le.mpr hsmall)
  · have hne : ∀ d : Char, c.toNat ≠ d.toNat → c ≠ d := fun d hd heq => hd (congrArg Char.toNat heq)
    have hplain : ∀ n, n < 48 ∨ n = 92 → c.toNat ≠ n := by omega
    unfold escape
    rw [if_neg (not_or.mpr ⟨hne _ (hplain _ (by decide)), hne _ (hplain _ (by decide))⟩),
      if_neg (hne _ (hplain _ (by decide))), if_neg (hne _ (hplain _ (by decide))),
      if_neg (hne _ (hplain _ (by decide))), if_neg (hne _ (hplain _ (by decide))),
      if_neg (hne _ (hplain _ (by decide))), if_neg (by omega)]

def HexDigest (digest : Text) : Prop := digest.length = 64 ∧ digest.all lowerHex = true

theorem bytes_digest {digest : Text} (h : HexDigest digest) : bytes (quote digest) = 66 := by
  rw [bytes_quote_plain fun c hc => lowerHex_plain (List.all_eq_true.mp h.2 c hc), h.1]

theorem capture_parts {path : List Text} (h : WorkspaceSnapshot.capture host path = .ok snapshot) :
    host.canonicalize path = .ok snapshot.root ∧
      captureRecords host snapshot.root = .ok (snapshot.records, snapshot.preexistingChanges) ∧
      snapshot.digest = host.digestRecords snapshot.records := by
  obtain ⟨root, hroot, h⟩ := Fallible.bind_ok h
  obtain ⟨⟨records, found⟩, hrecords, h⟩ := Fallible.bind_ok h
  cases h
  exact ⟨Fallible.mapError_ok hroot, hrecords, rfl⟩

theorem bytes_snapshot (h : captureRecords host snapshot.root =
    .ok (snapshot.records, snapshot.preexistingChanges)) (hdigest : HexDigest snapshot.digest) :
    bytes (Serialized.snapshot snapshot 1) = baselineBytes host snapshot.root := by
  have hrecords : bytes (object (snapshot.records.entries.map fun record =>
      field record.1 (Serialized.fileIdentity record.2)) 2) = recordsBytes host snapshot.root :=
    bytes_records h
  have hchanges : bytes (array (snapshot.preexistingChanges.map string) 2) =
      bracketedBytes 2 ((changes host).map textBytes) := by
    rw [bytes_array, List.map_map, (captureRecords_fold h).2]
    rfl
  have hhash : bytes (string snapshot.digest 2) = 66 := bytes_digest hdigest
  rw [Serialized.snapshot, bytes_object]
  simp only [List.map_cons, List.map_nil, bytes_field]
  rw [hrecords, hchanges, hhash]
  rfl

theorem length_toVecPretty (h : captureRecords host snapshot.root =
    .ok (snapshot.records, snapshot.preexistingChanges)) (hdigest : HexDigest snapshot.digest) :
    (toVecPretty (RuntimeIntegritySession.created snapshot sessionId launch owned).document).length =
      journalBytes host snapshot.root sessionId launch := by
  have hbaseline := bytes_snapshot h hdigest
  change bytes (Serialized.journal _ 0) = _
  rw [Serialized.journal, bytes_object]
  simp only [List.map_cons, List.map_nil, bytes_field, RuntimeIntegritySession.created]
  rw [hbaseline]
  rfl

theorem sum_le_bracketedBytes (depth : Nat) (lengths : List Nat) :
    lengths.sum ≤ bracketedBytes depth lengths := by
  unfold bracketedBytes
  split
  · rename_i hnil
    simp [hnil]
  · refine Nat.le_add_right_of_le ?_
    calc lengths.sum = (lengths.map id).sum := by rw [List.map_id]
      _ ≤ (lengths.map (· + (2 * depth + 4))).sum :=
        List.sum_le_sum fun length _ => Nat.le_add_right length _

theorem le_bracketedBytes {length depth : Nat} {lengths : List Nat} (h : length ∈ lengths) :
    length ≤ bracketedBytes depth lengths :=
  (List.le_sum_of_mem h).trans (sum_le_bracketedBytes depth lengths)

theorem changes_le_journalBytes : ((changes host).map textBytes).sum ≤
    journalBytes host root sessionId launch := by
  have hfield : ∀ name length, length ≤ fieldBytes name length := fun _ _ => Nat.le_add_left _ _
  have hbaseline : baselineBytes host root ≤ journalBytes host root sessionId launch :=
    (hfield "baseline".toList _).trans (le_bracketedBytes (by simp))
  have hchanges : bracketedBytes 2 ((changes host).map textBytes) ≤ baselineBytes host root :=
    (hfield "preexisting_changes".toList _).trans (le_bracketedBytes (by simp))
  exact (sum_le_bracketedBytes 2 _).trans (hchanges.trans hbaseline)

def journalRecord (sessionId : Text) : List Component :=
  [.normal "runtime-integrity", .normal (String.ofList (sessionId ++ ".json".toList))]

def initialJournal (snapshot : WorkspaceSnapshot) (sessionId : Text) (launch : LaunchProvenance)
    (owned : List OwnedPath) : RuntimeIntegrityJournal :=
  (RuntimeIntegritySession.created snapshot sessionId launch owned).document

-- The codec is that of any set of journals which its decoder reads back.
theorem capacity_iff {J : Type} {asJournal : J → RuntimeIntegrityJournal} {codec : JsonCodec J}
    {journal : J} {env : Env WriteSite} {fs : FileSystem String} {path : List Text}
    (hcapture : WorkspaceSnapshot.capture host path = .ok snapshot)
    (hroot : host.canonicalize path = .ok root)
    (hdigest : ∀ records, HexDigest (host.digestRecords records))
    (hencode : ∀ j, codec.encode j = toVecPretty (asJournal j))
    (hjournal : asJournal journal = initialJournal snapshot sessionId launch owned)
    (hready : Ready env fs (journalRecord sessionId)) :
    (snapshot.records.keys.card ≤ maxIntegrityEntries ∧
        Stored codec (journalRecord sessionId) journal env fs) ↔
      (scope host root).card ≤ maxIntegrityEntries ∧
        journalBytes host root sessionId launch < maxRecordBytes := by
  obtain ⟨hcanonical, hrecords, hhash⟩ := capture_parts hcapture
  rw [hroot] at hcanonical
  obtain rfl := Except.ok.inj hcanonical
  have hlength : (codec.encode journal).length = journalBytes host snapshot.root sessionId launch := by
    rw [hencode, hjournal]
    exact length_toVecPretty hrecords (hhash ▸ hdigest _)
  rw [captureRecords_keys hrecords, stored_iff hready, hlength]

def plainHost : CaptureHost where
  canonicalize path := .ok path
  status := none
  lsFiles := .ok []
  isFile _ := true
  fileLen _ := .ok 12
  hashFile _ := .ok (List.replicate 64 'e')
  listing _ := .file "main.dm".toList (.ok 12) .done
  digestRecords _ := List.replicate 64 'a'

def plainLaunch : LaunchProvenance := ⟨.unverified, none, List.replicate 64 'b', []⟩

def plainId : Text := List.replicate 32 '0'

def plainIdentity : WorkspaceIntegrity.FileIdentity :=
  ⟨false, none, none, some (List.replicate 64 'e'), some 12, "clean".toList⟩

def plainSnapshot : WorkspaceSnapshot where
  root := ["game".toList]
  records := FinMap.empty.insert "main.dm".toList plainIdentity
  digest := List.replicate 64 'a'
  preexistingChanges := []

-- A codec that knows one journal.
def soleCodec (document : RuntimeIntegrityJournal) : JsonCodec Unit where
  encode _ := toVecPretty document
  decode b := if b = toVecPretty document ++ [10] then some () else none
  parses b := b = toVecPretty document ++ [10]
  decode_encode _ := by simp
  parses_encode _ := by simp

def lockedStore : FileSystem String := FileSystem.empty.put lockPath (.file []) lockPath_placeable

theorem lockedStore_ready : Ready Env.sound lockedStore (journalRecord plainId) where
  sound _ := rfl
  named := by decide
  fresh := ⟨fun _ => (by decide : temporaryPath Env.sound ["runtime-integrity"] 0 ≠
    recordPath (journalRecord plainId)), by decide, by decide⟩
  prepared :=
    { lock := ⟨⟨[], by decide⟩, fun _ => rfl⟩
      created := rfl
      openable := by decide
      parent := fun _ => rfl
      slot := fun _ _ => ⟨rfl, fun t h => by
        rw [show lockedStore.node (recordPath (journalRecord plainId)) = none by decide] at h
        cases h⟩
      fits := by decide
      drawn := by decide }
  slot := by decide

theorem plain_workspace_covered :
    WorkspaceSnapshot.capture plainHost ["game".toList] = .ok plainSnapshot ∧
      plainSnapshot.records.keys.card ≤ maxIntegrityEntries ∧
      Stored (soleCodec (initialJournal plainSnapshot plainId plainLaunch [])) (journalRecord plainId) ()
        Env.sound lockedStore := by
  have hcapture : WorkspaceSnapshot.capture plainHost ["game".toList] = .ok plainSnapshot := rfl
  have hdigest : ∀ records, HexDigest (plainHost.digestRecords records) :=
    fun _ => ⟨List.length_replicate, (by decide : (List.replicate 64 'a').all lowerHex = true)⟩
  have hencode : ∀ j, (soleCodec (initialJournal plainSnapshot plainId plainLaunch [])).encode j =
      toVecPretty (Function.const Unit (initialJournal plainSnapshot plainId plainLaunch []) j) :=
    fun _ => rfl
  have hscope : (scope plainHost ["game".toList]).card ≤ maxIntegrityEntries :=
    (List.toFinset_card_le _).trans (by decide)
  have hbytes : journalBytes plainHost ["game".toList] plainId plainLaunch < maxRecordBytes := by
    decide +kernel
  exact ⟨hcapture, (capacity_iff hcapture rfl hdigest hencode rfl lockedStore_ready).mpr ⟨hscope, hbytes⟩⟩

theorem insertUntracked_ok (hseen : ∀ path tracked kind object status, ∃ identity,
    captureIdentity host path tracked kind object status = .ok identity) (output : List Text)
    (records : WorkspaceIntegrity.Records) :
    ∃ records', insertUntracked host root output records = .ok records' := by
  induction output generalizing records with
  | nil => exact ⟨records, rfl⟩
  | cons change rest ih =>
    rw [insertUntracked]
    cases untrackedPath change with
    | none => exact ih records
    | some path =>
      obtain ⟨identity, hidentity⟩ := hseen (join root (slashed path)) false none none (some change)
      obtain ⟨records', hrest⟩ := ih (records.insert (slashed path) identity)
      refine ⟨records', ?_⟩
      simp only [hidentity]
      exact hrest

def untrackedHost (status : Text) : CaptureHost := { plainHost with status := some status }

theorem capture_untrackedHost (status : Text) : ∃ records,
    captureRecords (untrackedHost status) ["game".toList] = .ok (records, entries status) ∧
      WorkspaceSnapshot.capture (untrackedHost status) ["game".toList] =
        .ok ⟨["game".toList], records, List.replicate 64 'a', entries status⟩ := by
  obtain ⟨records, hrecords⟩ : ∃ records, insertUntracked (untrackedHost status) ["game".toList]
      (entries status) FinMap.empty = .ok records :=
    insertUntracked_ok (fun _ _ _ _ _ => ⟨_, rfl⟩) _ _
  have hrecorded : captureRecords (untrackedHost status) ["game".toList] =
      .ok (records, entries status) := by
    change (insertUntracked (untrackedHost status) ["game".toList] (entries status) FinMap.empty >>= _) = _
    rw [hrecords]
    rfl
  refine ⟨records, hrecorded, ?_⟩
  change (captureRecords (untrackedHost status) ["game".toList] >>= _) = _
  rw [hrecorded]
  rfl

theorem refused_of_untracked {status : Text}
    (hlong : maxRecordBytes ≤ ((entries status).map textBytes).sum) : ∃ snapshot,
    WorkspaceSnapshot.capture (untrackedHost status) ["game".toList] = .ok snapshot ∧
      ¬ (snapshot.records.keys.card ≤ maxIntegrityEntries ∧
        Stored (soleCodec (initialJournal snapshot plainId plainLaunch [])) (journalRecord plainId) ()
          Env.sound lockedStore) := by
  obtain ⟨records, hrecords, hcapture⟩ := capture_untrackedHost status
  have hdigest : HexDigest (List.replicate 64 'a') :=
    ⟨List.length_replicate, (by decide : (List.replicate 64 'a').all lowerHex = true)⟩
  have hbytes : ((changes (untrackedHost status)).map textBytes).sum ≤
      journalBytes (untrackedHost status) ["game".toList] plainId plainLaunch := changes_le_journalBytes
  refine ⟨_, hcapture, ?_⟩
  rintro ⟨-, hstored⟩
  have hfits := (stored_iff lockedStore_ready).mp hstored
  change (toVecPretty (RuntimeIntegritySession.created _ plainId plainLaunch []).document).length < _ at hfits
  rw [length_toVecPretty hrecords hdigest] at hfits
  exact absurd (hlong.trans hbytes) (not_le.mpr hfits)

-- Untracked names of two hundred and six letters in one directory.
def manyChanges : List Text := (List.range 41000).map fun n =>
  '?' :: ' ' :: ((List.range 16).map (fun i => if n.testBit i then 'b' else 'a') ++ List.replicate 190 'x')

def manyStatus : Text := [Char.ofNat 0].intercalate (manyChanges ++ [[]])

theorem entries_manyStatus : entries manyStatus = manyChanges := by
  have hclean : ∀ change ∈ manyChanges ++ [[]], Char.ofNat 0 ∉ change := by
    intro change hchange hzero
    rcases List.mem_append.mp hchange with hchange | hchange
    · obtain ⟨n, -, rfl⟩ := List.mem_map.mp hchange
      simp only [List.mem_cons, List.mem_append, List.mem_map, List.mem_replicate] at hzero
      rcases hzero with h | h | ⟨i, -, h⟩ | ⟨-, h⟩
      · exact absurd h (by decide)
      · exact absurd h (by decide)
      · split at h <;> exact absurd h (by decide)
      · exact absurd h (by decide)
    · rw [List.mem_singleton.mp hchange] at hzero
      cases hzero
  have hpieces : manyChanges.filter (· ≠ []) = manyChanges := by
    refine List.filter_eq_self.mpr fun change hchange => ?_
    obtain ⟨n, -, rfl⟩ := List.mem_map.mp hchange
    rfl
  rw [entries, manyStatus, List.splitOn_intercalate (Char.ofNat 0) hclean (by simp), List.filter_append, hpieces]
  simp

theorem manyChanges_bytes : maxRecordBytes ≤ (manyChanges.map textBytes).sum := by
  have hlength : ∀ length ∈ manyChanges.map textBytes, 210 ≤ length := by
    intro length hlength
    obtain ⟨change, hchange, rfl⟩ := List.mem_map.mp hlength
    refine le_trans ?_ (length_le_bytes_quote change)
    obtain ⟨n, -, rfl⟩ := List.mem_map.mp hchange
    rw [List.length_cons, List.length_cons, List.length_append, List.length_map, List.length_range,
      List.length_replicate]
  have hsum := List.card_nsmul_le_sum (manyChanges.map textBytes) 210 hlength
  rw [List.length_map, manyChanges, List.length_map, List.length_range] at hsum
  refine le_trans ?_ hsum
  decide

theorem many_untracked_refused : ∃ snapshot,
    WorkspaceSnapshot.capture (untrackedHost manyStatus) ["game".toList] = .ok snapshot ∧
      ¬ (snapshot.records.keys.card ≤ maxIntegrityEntries ∧
        Stored (soleCodec (initialJournal snapshot plainId plainLaunch [])) (journalRecord plainId) ()
          Env.sound lockedStore) := by
  apply refused_of_untracked
  rw [entries_manyStatus]
  exact manyChanges_bytes

end RuntimeIntegrity
