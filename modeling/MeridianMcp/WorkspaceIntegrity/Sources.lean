import MeridianMcp.WorkspaceIntegrity.Listed

namespace WorkspaceIntegrity

open MeridianMcp Effects

-- What a listing says of one name, before the file itself is looked at.
structure Source where
  path : List Text
  tracked : Bool
  kind : Option Text
  object : Option Text
  status : Option Text
  deriving DecidableEq, Repr

def trackedSource (root : List Text) (statuses : FinMap Text Text) (entry : Text) : Option (Text × Source) :=
  (splitTab entry).map fun (metadata, path) => (slashed path, ⟨join root path, true,
    (splitWhitespace metadata)[0]?, (splitWhitespace metadata)[1]?, statuses.get (slashed path)⟩)

def untrackedSource (root : List Text) (change : Text) : Option (Text × Source) :=
  (untrackedPath change).map fun path =>
    (slashed path, ⟨join root (slashed path), false, none, none, some change⟩)

def visitedSource (root path : List Text) : Text × Source :=
  (normalizeRelative path, ⟨root ++ path, false, none, none, none⟩)

section

variable (host : CaptureHost) (root : List Text)

def changes : List Text :=
  match host.status with
  | some status => entries status
  | none => []

def sources : List (Text × Source) :=
  match host.status with
  | some status =>
    (match host.lsFiles with
      | .ok output => (entries output).filterMap (trackedSource root (statusesOf (entries status)))
      | .error _ => []) ++ (entries status).filterMap (untrackedSource root)
  | none => ((host.listing root).paths []).map (visitedSource root)

-- The scope of a capture: the distinct names that git lists, or that a walk comes to.
def scope : Finset Text := ((sources host root).map Prod.fst).toFinset

-- Of several listings of one name the last one stands.
def sourceOf (name : Text) : Option Source :=
  ((sources host root).reverse.find? fun source => source.1 = name).map Prod.snd

def seenSize (source : Source) : Option Nat :=
  if host.isFile source.path then (host.fileLen source.path).toOption else none

def seenHash (source : Source) : Option Text :=
  if host.isFile source.path then (host.hashFile source.path).toOption else none

def identityOf (source : Source) : FileIdentity where
  tracked := source.tracked
  gitObjectKind := source.kind
  gitObjectId := source.object
  sha256 := seenHash host source
  size := seenSize host source
  status := source.status.getD "clean".toList

def enter (records : Records) (source : Text × Source) : Records :=
  records.insert source.1 (identityOf host source.2)

end

variable {host : CaptureHost} {root : List Text} {records records' : Records} {name : Text}

theorem captureIdentity_ok (source : Source) {identity : FileIdentity} (h : captureIdentity host source.path
    source.tracked source.kind source.object source.status = .ok identity) :
    identity = identityOf host source := by
  unfold captureIdentity at h
  unfold identityOf seenHash seenSize
  split at h
  · rename_i hfile
    obtain ⟨size, hsize, h⟩ := Fallible.bind_ok h
    obtain ⟨sha256, hsha256, h⟩ := Fallible.bind_ok h
    cases h
    rw [if_pos hfile, if_pos hfile, Fallible.mapError_ok hsize, Fallible.mapError_ok hsha256]
    rfl
  · rename_i hfile
    cases h
    rw [if_neg hfile, if_neg hfile]

theorem insertTracked_fold {statuses : FinMap Text Text} {output : List Text}
    (h : insertTracked host root statuses output records = .ok records') :
    records' = (output.filterMap (trackedSource root statuses)).foldl (enter host) records := by
  induction output generalizing records with
  | nil =>
    cases h
    rfl
  | cons entry rest ih =>
    rw [insertTracked] at h
    rw [List.filterMap_cons, trackedSource]
    split at h
    · rename_i hsplit
      rw [hsplit]
      exact ih h
    · rename_i metadata path hsplit
      obtain ⟨identity, hidentity, h⟩ := Fallible.bind_ok h
      dsimp only at h
      split at h
      · cases h
      · rw [hsplit, Option.map_some, List.foldl_cons, enter]
        rw [ih h, captureIdentity_ok ⟨join root path, true, _, _, _⟩ hidentity]

theorem insertUntracked_fold {output : List Text}
    (h : insertUntracked host root output records = .ok records') :
    records' = (output.filterMap (untrackedSource root)).foldl (enter host) records := by
  induction output generalizing records with
  | nil =>
    cases h
    rfl
  | cons change rest ih =>
    rw [insertUntracked] at h
    rw [List.filterMap_cons, untrackedSource]
    split at h
    · rename_i hpath
      rw [hpath]
      exact ih h
    · rename_i path hpath
      obtain ⟨identity, hidentity, h⟩ := Fallible.bind_ok h
      rw [hpath, Option.map_some, List.foldl_cons, enter]
      rw [ih h, captureIdentity_ok ⟨join root (slashed path), false, none, none, some change⟩ hidentity]

theorem visitFiles_fold {listing : Listing} {base : List Text} {totalBytes totalBytes' : Nat}
    (h : visitFiles host root listing base (records, totalBytes) = .ok (records', totalBytes')) :
    records' = ((listing.paths base).map (visitedSource root)).foldl (enter host) records := by
  induction listing generalizing base records totalBytes records' totalBytes' with
  | done =>
    cases h
    rfl
  | failed e => cases h
  | other name rest ih => exact ih h
  | directory name contents rest ihContents ihRest =>
    rw [visitFiles] at h
    rw [Listing.paths]
    split at h
    · rename_i hskipped
      rw [if_pos hskipped]
      exact ihRest h
    · rename_i hskipped
      obtain ⟨⟨between, betweenBytes⟩, hcontents, h⟩ := Fallible.bind_ok h
      rw [if_neg hskipped, List.map_append, List.foldl_append, ← ihContents hcontents]
      exact ihRest h
  | file name len rest ih =>
    rw [visitFiles] at h
    obtain ⟨size, -, h⟩ := Fallible.bind_ok h
    dsimp only at h
    split at h
    · cases h
    · obtain ⟨identity, hidentity, h⟩ := Fallible.bind_ok h
      rw [ih h, Listing.paths, List.map_cons, List.foldl_cons, enter]
      rw [captureIdentity_ok ⟨root ++ (base ++ [name]), false, none, none, none⟩ hidentity]
      rfl

theorem captureRecords_fold {found : List Text} (h : captureRecords host root = .ok (records, found)) :
    records = (sources host root).foldl (enter host) .empty ∧ found = changes host := by
  unfold captureRecords at h
  unfold sources changes
  cases hstatus : host.status with
  | none =>
    rw [hstatus] at h
    obtain ⟨⟨walked, totalBytes⟩, hwalked, h⟩ := Fallible.bind_ok h
    cases h
    exact ⟨visitFiles_fold hwalked, rfl⟩
  | some status =>
    rw [hstatus] at h
    obtain ⟨output, houtput, h⟩ := Fallible.bind_ok h
    obtain ⟨tracked, htracked, h⟩ := Fallible.bind_ok h
    obtain ⟨all, hall, h⟩ := Fallible.bind_ok h
    cases h
    rw [Fallible.mapError_ok houtput]
    refine ⟨?_, rfl⟩
    rw [insertUntracked_fold hall, insertTracked_fold htracked, List.foldl_append]

theorem get_foldl_enter (listed : List (Text × Source)) : (listed.foldl (enter host) .empty).get name =
    ((listed.reverse.find? fun source => source.1 = name).map Prod.snd).map (identityOf host) := by
  induction listed using List.reverseRecOn with
  | nil => rfl
  | append_singleton listed source ih =>
    rw [List.foldl_append, List.foldl_cons, List.foldl_nil, enter, FinMap.get_insert, List.reverse_append,
      List.reverse_singleton, List.singleton_append, List.find?_cons]
    by_cases hname : source.1 = name
    · rw [← hname, Function.update_self]
      simp
    · rw [Function.update_of_ne (Ne.symm hname), ih]
      simp [hname]

theorem captureRecords_get_source {found : List Text}
    (h : captureRecords host root = .ok (records, found)) (name : Text) :
    records.get name = (sourceOf host root name).map (identityOf host) := by
  rw [(captureRecords_fold h).1, get_foldl_enter]
  rfl

theorem sourceOf_isSome : (sourceOf host root name).isSome ↔ name ∈ scope host root := by
  unfold sourceOf scope
  rw [Option.isSome_map, List.find?_isSome, List.mem_toFinset]
  simp

theorem captureRecords_keys {found : List Text} (h : captureRecords host root = .ok (records, found)) :
    records.keys = scope host root := by
  ext name
  rw [records.mem_keys, captureRecords_get_source h, ← sourceOf_isSome, ne_eq, Option.map_eq_none_iff,
    Option.isSome_iff_ne_none]

theorem visitFiles_card {listing : Listing} {base : List Text} {totalBytes totalBytes' : Nat}
    (h : visitFiles host root listing base (records, totalBytes) = .ok (records', totalBytes'))
    (hcard : records.keys.card ≤ maxIntegrityEntries) : records'.keys.card ≤ maxIntegrityEntries := by
  induction listing generalizing base records totalBytes records' totalBytes' with
  | done =>
    cases h
    exact hcard
  | failed e => cases h
  | other name rest ih => exact ih h hcard
  | directory name contents rest ihContents ihRest =>
    rw [visitFiles] at h
    split at h
    · exact ihRest h hcard
    · obtain ⟨⟨between, betweenBytes⟩, hcontents, h⟩ := Fallible.bind_ok h
      exact ihRest h (ihContents hcontents hcard)
  | file name len rest ih =>
    rw [visitFiles] at h
    obtain ⟨size, -, h⟩ := Fallible.bind_ok h
    dsimp only at h
    split at h
    · cases h
    · rename_i hlimit
      obtain ⟨identity, -, h⟩ := Fallible.bind_ok h
      refine ih h ((FinMap.card_keys_insert_le _ _ _).trans ?_)
      exact Nat.lt_of_not_ge fun hge => hlimit (.inl hge)

-- Only what git lists can pass the limit: a walk looks at it before each file.
theorem scope_walk_within {found : List Text} (hstatus : host.status = none)
    (h : captureRecords host root = .ok (records, found)) :
    (scope host root).card ≤ maxIntegrityEntries := by
  rw [← captureRecords_keys h]
  rw [captureRecords, hstatus] at h
  obtain ⟨⟨walked, totalBytes⟩, hwalked, h⟩ := Fallible.bind_ok h
  cases h
  exact visitFiles_card hwalked (by decide)

end WorkspaceIntegrity
