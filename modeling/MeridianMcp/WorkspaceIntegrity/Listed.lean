import MeridianMcp.Fallible
import MeridianMcp.WorkspaceIntegrity.Capture

namespace WorkspaceIntegrity

open MeridianMcp Effects

def trackedKey (entry : Text) : Option Text := (splitTab entry).map fun (_, path) => slashed path

def untrackedKey (change : Text) : Option Text := (untrackedPath change).map slashed

def Listing.paths : Listing → List Text → List (List Text)
  | .done, _ => []
  | .failed _, _ => []
  | .directory name contents rest, base =>
    if skipped name then rest.paths base else contents.paths (base ++ [name]) ++ rest.paths base
  | .file name _ rest, base => (base ++ [name]) :: rest.paths base
  | .other _ rest, base => rest.paths base

-- The names that a capture has in front of it.
def Tracked (host : CaptureHost) (key : Text) : Prop :=
  ∃ output, host.lsFiles = .ok output ∧ ∃ entry ∈ entries output, trackedKey entry = some key

def Untracked (status key : Text) : Prop := ∃ change ∈ entries status, untrackedKey change = some key

def Listed (host : CaptureHost) (root : List Text) (key : Text) : Prop :=
  match host.status with
  | some status => Tracked host key ∨ Untracked status key
  | none => ∃ path ∈ (host.listing root).paths [], normalizeRelative path = key

variable (host : CaptureHost) (root : List Text) (key : Text)

def CapturedAt (path : List Text) (identity : FileIdentity) : Prop :=
  ∃ tracked kind object status, captureIdentity host path tracked kind object status = .ok identity

def TrackedAs (entry : Text) (identity : FileIdentity) : Prop :=
  ∃ metadata path, splitTab entry = some (metadata, path) ∧ slashed path = key ∧
    CapturedAt host (join root path) identity

def UntrackedAs (change : Text) (identity : FileIdentity) : Prop :=
  untrackedKey change = some key ∧ CapturedAt host (join root key) identity

variable {host root key} {records records' : Records}

theorem TrackedAs.key_eq {entry : Text} {identity : FileIdentity} (h : TrackedAs host root key entry identity) :
    trackedKey entry = some key := by
  obtain ⟨metadata, path, hsplit, hkey, -⟩ := h
  rw [trackedKey, hsplit, Option.map_some]
  exact congrArg some hkey

-- A record is what the last entry of its key left, or what was there before.
theorem insertTracked_get {statuses : FinMap Text Text} {output : List Text}
    (h : insertTracked host root statuses output records = .ok records') :
    (records'.get key = records.get key ∧ ∀ entry ∈ output, trackedKey entry ≠ some key) ∨
      ∃ entry ∈ output, ∃ identity, TrackedAs host root key entry identity ∧ records'.get key = some identity := by
  induction output generalizing records with
  | nil =>
    cases h
    exact .inl ⟨rfl, fun _ => nofun⟩
  | cons entry rest ih =>
    rw [insertTracked] at h
    split at h
    · rename_i hsplit
      rcases ih h with ⟨hget, hrest⟩ | ⟨other, hmem, hother⟩
      · refine .inl ⟨hget, List.forall_mem_cons.mpr ⟨?_, hrest⟩⟩
        rw [trackedKey, hsplit]
        exact nofun
      · exact .inr ⟨other, List.mem_cons_of_mem _ hmem, hother⟩
    · rename_i metadata path hsplit
      obtain ⟨identity, hidentity, h⟩ := Fallible.bind_ok h
      dsimp only at h
      split at h
      · cases h
      · rcases ih h with ⟨hget, hrest⟩ | ⟨other, hmem, hother⟩
        · rw [FinMap.get_insert] at hget
          rcases eq_or_ne key (slashed path) with rfl | hne
          · rw [Function.update_self] at hget
            exact .inr ⟨entry, List.mem_cons_self, identity, ⟨metadata, path, hsplit, rfl, _, _, _, _, hidentity⟩, hget⟩
          · rw [Function.update_of_ne hne] at hget
            refine .inl ⟨hget, List.forall_mem_cons.mpr ⟨?_, hrest⟩⟩
            rw [trackedKey, hsplit]
            exact fun heq => hne (Option.some.inj heq).symm
        · exact .inr ⟨other, List.mem_cons_of_mem _ hmem, hother⟩

theorem insertUntracked_get {output : List Text} (h : insertUntracked host root output records = .ok records') :
    (records'.get key = records.get key ∧ ∀ change ∈ output, untrackedKey change ≠ some key) ∨
      ∃ change ∈ output, ∃ identity, UntrackedAs host root key change identity ∧ records'.get key = some identity := by
  induction output generalizing records with
  | nil =>
    cases h
    exact .inl ⟨rfl, fun _ => nofun⟩
  | cons change rest ih =>
    rw [insertUntracked] at h
    split at h
    · rename_i hpath
      rcases ih h with ⟨hget, hrest⟩ | ⟨other, hmem, hother⟩
      · refine .inl ⟨hget, List.forall_mem_cons.mpr ⟨?_, hrest⟩⟩
        rw [untrackedKey, hpath]
        exact nofun
      · exact .inr ⟨other, List.mem_cons_of_mem _ hmem, hother⟩
    · rename_i path hpath
      have hkey : untrackedKey change = some (slashed path) := by rw [untrackedKey, hpath, Option.map_some]
      obtain ⟨identity, hidentity, h⟩ := Fallible.bind_ok h
      rcases ih h with ⟨hget, hrest⟩ | ⟨other, hmem, hother⟩
      · rw [FinMap.get_insert] at hget
        rcases eq_or_ne key (slashed path) with rfl | hne
        · rw [Function.update_self] at hget
          exact .inr ⟨change, List.mem_cons_self, identity, ⟨hkey, _, _, _, _, hidentity⟩, hget⟩
        · rw [Function.update_of_ne hne] at hget
          refine .inl ⟨hget, List.forall_mem_cons.mpr ⟨?_, hrest⟩⟩
          rw [hkey]
          exact fun heq => hne (Option.some.inj heq).symm
      · exact .inr ⟨other, List.mem_cons_of_mem _ hmem, hother⟩

theorem visitFiles_get {listing : Listing} {base : List Text} {totalBytes totalBytes' : Nat}
    (h : visitFiles host root listing base (records, totalBytes) = .ok (records', totalBytes')) :
    (records'.get key ≠ none ↔ records.get key ≠ none ∨ ∃ path ∈ listing.paths base, normalizeRelative path = key) := by
  induction listing generalizing base records totalBytes records' totalBytes' with
  | done =>
    cases h
    simp [Listing.paths]
  | failed e => cases h
  | other name rest ih => exact ih h
  | directory name contents rest ihContents ihRest =>
    rw [visitFiles] at h
    rw [Listing.paths]
    split at h
    · rename_i hskipped
      rw [if_pos hskipped]
      exact ihRest h
    · rename_i hskipped
      obtain ⟨⟨between, betweenBytes⟩, hcontents, h⟩ := Fallible.bind_ok h
      rw [if_neg hskipped, ihRest h, ihContents hcontents]
      simp only [List.mem_append, or_and_right, exists_or, or_assoc]
  | file name len rest ih =>
    rw [visitFiles] at h
    obtain ⟨size, -, h⟩ := Fallible.bind_ok h
    dsimp only at h
    split at h
    · cases h
    · obtain ⟨identity, -, h⟩ := Fallible.bind_ok h
      rw [ih h, FinMap.get_insert, Listing.paths]
      rcases eq_or_ne key (normalizeRelative (base ++ [name])) with rfl | hne
      · simp
      · rw [Function.update_of_ne hne]
        simp [hne.symm]

theorem insertTracked_one {statuses : FinMap Text Text} {entry metadata path : Text} {identity : FileIdentity}
    (hsplit : splitTab entry = some (metadata, path))
    (hidentity : captureIdentity host (join root path) true (splitWhitespace metadata)[0]? (splitWhitespace metadata)[1]?
      (statuses.get (slashed path)) = .ok identity) :
    insertTracked host root statuses [entry] .empty = .ok (FinMap.empty.insert (slashed path) identity) := by
  have hcard := FinMap.card_keys_insert_le FinMap.empty (slashed path) identity
  rw [insertTracked, hsplit]
  dsimp only
  rw [hidentity]
  change (if (FinMap.empty.insert (slashed path) identity).keys.card > maxIntegrityEntries then _ else _) = _
  rw [if_neg (not_lt.mpr (hcard.trans (by decide)))]
  rfl

theorem insertUntracked_none {output : List Text} (h : ∀ change ∈ output, untrackedPath change = none) :
    insertUntracked host root output records = .ok records := by
  induction output with
  | nil => rfl
  | cons change rest ih =>
    rw [List.forall_mem_cons] at h
    rw [insertUntracked, h.1]
    exact ih h.2

-- The untracked names come last, so that theirs are the records that stand.
theorem captureGitRecords_get {status : Text} {changes : List Text}
    (h : captureGitRecords host root status = .ok (records, changes)) :
    (records.get key = none ∧ ¬ Tracked host key ∧ ¬ Untracked status key) ∨
      (Tracked host key ∧ ∃ output, host.lsFiles = .ok output ∧ ∃ entry ∈ entries output, ∃ identity,
        TrackedAs host root key entry identity ∧ records.get key = some identity) ∨
      (Untracked status key ∧ ∃ change ∈ entries status, ∃ identity,
        UntrackedAs host root key change identity ∧ records.get key = some identity) := by
  obtain ⟨output, houtput, h⟩ := Fallible.bind_ok h
  obtain ⟨tracked, htracked, h⟩ := Fallible.bind_ok h
  obtain ⟨all, hall, h⟩ := Fallible.bind_ok h
  cases h
  have houtput := Fallible.mapError_ok houtput
  rcases insertUntracked_get hall with ⟨hget, huntracked⟩ | ⟨change, hchange, identity, hidentity, hget⟩
  · rw [hget]
    rcases insertTracked_get htracked with ⟨hget, hnone⟩ | ⟨entry, hentry, identity, hidentity, hget⟩
    · refine .inl ⟨hget, ?_, ?_⟩
      · rintro ⟨output', houtput', entry, hentry, hkey⟩
        rw [houtput] at houtput'
        cases houtput'
        exact hnone entry hentry hkey
      · rintro ⟨change, hchange, hkey⟩
        exact huntracked change hchange hkey
    · exact .inr (.inl ⟨⟨output, houtput, entry, hentry, hidentity.key_eq⟩, output, houtput, entry, hentry, identity,
        hidentity, hget⟩)
  · exact .inr (.inr ⟨⟨change, hchange, hidentity.1⟩, change, hchange, identity, hidentity, hget⟩)

theorem captureRecords_get {changes : List Text} (h : captureRecords host root = .ok (records, changes)) :
    records.get key ≠ none ↔ Listed host root key := by
  unfold captureRecords at h
  unfold Listed
  cases hstatus : host.status with
  | none =>
    rw [hstatus] at h
    obtain ⟨⟨walked, totalBytes⟩, hwalked, h⟩ := Fallible.bind_ok h
    cases h
    rw [visitFiles_get hwalked]
    simp [FinMap.empty]
  | some status =>
    rw [hstatus] at h
    dsimp only at h ⊢
    rcases captureGitRecords_get h with ⟨hget, htracked, huntracked⟩ | ⟨htracked, hsource⟩ | ⟨huntracked, hsource⟩
    · rw [hget]
      exact iff_of_false (not_not.mpr rfl) (not_or.mpr ⟨htracked, huntracked⟩)
    · obtain ⟨output, -, entry, -, identity, -, hget⟩ := hsource
      exact iff_of_true (by simp [hget]) (.inl htracked)
    · obtain ⟨change, -, identity, -, hget⟩ := hsource
      exact iff_of_true (by simp [hget]) (.inr huntracked)

theorem capture_ok {path : List Text} {snapshot : WorkspaceSnapshot}
    (h : WorkspaceSnapshot.capture host path = .ok snapshot) :
    ∃ changes, captureRecords host snapshot.root = .ok (snapshot.records, changes) := by
  obtain ⟨root, -, h⟩ := Fallible.bind_ok h
  obtain ⟨⟨records, changes⟩, hrecords, h⟩ := Fallible.bind_ok h
  cases h
  exact ⟨changes, hrecords⟩

theorem capture_get {path : List Text} {snapshot : WorkspaceSnapshot}
    (h : WorkspaceSnapshot.capture host path = .ok snapshot) :
    snapshot.records.get key ≠ none ↔ Listed host snapshot.root key := by
  obtain ⟨changes, hrecords⟩ := capture_ok h
  exact captureRecords_get hrecords

end WorkspaceIntegrity
