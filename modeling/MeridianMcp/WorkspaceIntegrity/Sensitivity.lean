import MeridianMcp.WorkspaceIntegrity.Listed

namespace WorkspaceIntegrity

open MeridianMcp Effects

def pathText (path : List Text) : Text := ['/'].intercalate path

-- A path as git prints it: named components, none with a slash.
structure Plain (path : List Text) : Prop where
  nonempty : path ≠ []
  named : ∀ component ∈ path, component ≠ []
  unslashed : ∀ component ∈ path, '/' ∉ component

-- No other tracked name normalises to the same key.
def Alone (host : CaptureHost) (key : Text) : Prop :=
  ∀ output, host.lsFiles = .ok output → ∀ entry ∈ entries output, ∀ metadata path,
    splitTab entry = some (metadata, path) → slashed path = key → path = key

variable {host : CaptureHost} {root path : List Text} {key : Text}

theorem components_pathText (h : Plain path) : components (pathText path) = path := by
  rw [components, pathText, List.splitOn_intercalate '/' h.unslashed h.nonempty]
  exact List.filter_eq_self.mpr fun component hmem => by simpa using h.named component hmem

theorem pathText_head (h : Plain path) : (pathText path).head? ≠ some '/' := by
  obtain ⟨hnonempty, hnamed, hunslashed⟩ := h
  cases path with
  | nil => exact absurd rfl hnonempty
  | cons component rest =>
    cases component with
    | nil => exact absurd rfl (hnamed [] List.mem_cons_self)
    | cons c name =>
      have hc : c ≠ '/' := by
        rintro rfl
        exact hunslashed _ List.mem_cons_self List.mem_cons_self
      cases rest with
      | nil => simpa [pathText] using hc
      | cons next rest => simpa [pathText, List.intercalate_cons_cons] using hc

theorem join_pathText (h : Plain path) (root : List Text) : join root (pathText path) = root ++ path := by
  rw [join, if_neg (pathText_head h), components_pathText h]

theorem slashed_unslashed (text : Text) : '\\' ∉ slashed text := by
  intro h
  obtain ⟨c, -, hc⟩ := List.mem_map.mp h
  split at hc
  · cases hc
  · exact absurd hc ‹_›

theorem slashed_of_trackedKey {entry : Text} (h : trackedKey entry = some key) : '\\' ∉ key := by
  obtain ⟨split, -, rfl⟩ := Option.map_eq_some_iff.mp h
  exact slashed_unslashed split.2

theorem slashed_of_untrackedKey {change : Text} (h : untrackedKey change = some key) : '\\' ∉ key := by
  obtain ⟨path, -, rfl⟩ := Option.map_eq_some_iff.mp h
  exact slashed_unslashed path

theorem slashed_of_listed (h : Listed host root key) : '\\' ∉ key := by
  unfold Listed at h
  split at h
  · rcases h with ⟨output, -, entry, -, hkey⟩ | ⟨change, -, hkey⟩
    · exact slashed_of_trackedKey hkey
    · exact slashed_of_untrackedKey hkey
  · obtain ⟨path, -, rfl⟩ := h
    exact slashed_unslashed _

theorem CapturedAt.sha256 {identity : FileIdentity} {sha256 : Text} (h : CapturedAt host path identity)
    (hfile : host.isFile path = true) (hsha : host.hashFile path = .ok sha256) : identity.sha256 = some sha256 := by
  obtain ⟨tracked, kind, object, status, h⟩ := h
  rw [captureIdentity, if_pos hfile] at h
  obtain ⟨size, -, h⟩ := Fallible.bind_ok h
  obtain ⟨found, hfound, h⟩ := Fallible.bind_ok h
  rw [hsha] at hfound
  cases hfound
  cases h
  rfl

theorem record_of_listed {captured : List Text} {snapshot : WorkspaceSnapshot} {status sha256 : Text}
    (hcapture : WorkspaceSnapshot.capture host captured = .ok snapshot) (hstatus : host.status = some status)
    (hplain : Plain path) (halone : Alone host (pathText path))
    (hfile : host.isFile (snapshot.root ++ path) = true) (hsha : host.hashFile (snapshot.root ++ path) = .ok sha256)
    (hlisted : Listed host snapshot.root (pathText path)) :
    ∃ identity, snapshot.records.get (pathText path) = some identity ∧ identity.sha256 = some sha256 := by
  have hpresent := (capture_get hcapture).mpr hlisted
  obtain ⟨changes, hrecords⟩ := capture_ok hcapture
  unfold captureRecords at hrecords
  rw [hstatus] at hrecords
  have hhash : ∀ identity, CapturedAt host (join snapshot.root (pathText path)) identity →
      identity.sha256 = some sha256 := by
    intro identity h
    rw [join_pathText hplain] at h
    exact h.sha256 hfile hsha
  rcases captureGitRecords_get hrecords with ⟨hnone, -⟩ | ⟨-, output, houtput, entry, hentry, identity, hidentity, hget⟩ |
    ⟨-, change, -, identity, hidentity, hget⟩
  · exact absurd hnone hpresent
  · obtain ⟨metadata, found, hsplit, hkey, hcaptured⟩ := hidentity
    rw [halone output houtput entry hentry metadata found hsplit hkey] at hcaptured
    exact ⟨identity, hget, hhash identity hcaptured⟩
  · exact ⟨identity, hget, hhash identity hidentity.2⟩

theorem mem_mutations {baseline current : Records} {owned : Finset Text} {digest : Text} {mutation : PathMutation}
    (h : mutation ∈ (compareRecords baseline current owned digest).mutations) :
    mutation.relativePath ∉ owned ∧
      (current.get mutation.relativePath ≠ none ∨ baseline.get mutation.relativePath ≠ none) := by
  rw [IntegrityDelta.mutations, List.mem_append, List.mem_append] at h
  rcases h with (h | h) | h
  · obtain ⟨after, hafter, howned, -⟩ := mem_added.mp h
    exact ⟨howned, .inl (by simp [hafter])⟩
  · obtain ⟨before, after, hafter, howned, -⟩ := mem_modified.mp h
    exact ⟨howned, .inl (by simp [hafter])⟩
  · obtain ⟨before, hbefore, howned, -⟩ := mem_deleted.mp h
    exact ⟨howned, .inr (by simp [hbefore])⟩

def Names (root path : List Text) (owned : OwnedPath) : Prop :=
  owned.components = if owned.isAbsolute then root ++ path else path

structure Sensed (probe : PathProbe) (baseline current : WorkspaceSnapshot) (path : List Text) : Prop where
  reported : ∃ delta, compareSnapshots probe baseline current [] = .ok delta ∧
    ∃ mutation ∈ delta.mutations, mutation.relativePath = pathText path
  exempt : ∀ owned, Names baseline.root path owned → probe.isDir owned = false →
    ∃ delta, compareSnapshots probe baseline current [owned] = .ok delta ∧
      ∀ mutation ∈ delta.mutations, mutation.relativePath ≠ pathText path

theorem ownedKeys_one {probe : PathProbe} {owned : OwnedPath} (hnames : Names root path owned)
    (hdir : probe.isDir owned = false) (hcanonical : probe.canonicalize (root ++ path) = some (root ++ path)) :
    ownedKeys probe root [owned] = .ok {slashed (pathText path)} := by
  have habsolute : (if owned.isAbsolute then owned.components else root ++ owned.components) = root ++ path := by
    rw [hnames]
    split <;> rfl
  have hkey : ownedKey probe root owned = .ok (some (slashed (pathText path))) := by
    rw [ownedKey, if_neg (by rw [hdir]; exact nofun)]
    dsimp only
    rw [habsolute, hcanonical, Option.getD_some, stripPrefix_append]
    rfl
  rw [ownedKeys, hkey]
  rfl

theorem compareSnapshots_one {probe : PathProbe} {baseline current : WorkspaceSnapshot} {owned : OwnedPath}
    (hroot : baseline.root = current.root) (hnames : Names baseline.root path owned)
    (hdir : probe.isDir owned = false)
    (hcanonical : probe.canonicalize (baseline.root ++ path) = some (baseline.root ++ path)) :
    compareSnapshots probe baseline current [owned] = .ok (compareRecords baseline.records current.records
      {slashed (pathText path)} current.digest) := by
  rw [compareSnapshots, if_neg (not_not.mpr hroot), ownedKeys_one hnames hdir hcanonical]
  rfl

section

variable {before after : CaptureHost} {captured : List Text} {baseline current : WorkspaceSnapshot}
  {status status' sha256 sha256' : Text} {probe : PathProbe}

theorem change_sensed_iff (hbaseline : WorkspaceSnapshot.capture before captured = .ok baseline)
    (hcurrent : WorkspaceSnapshot.capture after captured = .ok current) (hroot : baseline.root = current.root)
    (hstatus : before.status = some status) (hstatus' : after.status = some status') (hplain : Plain path)
    (hfile : before.isFile (baseline.root ++ path) = true) (hfile' : after.isFile (current.root ++ path) = true)
    (hsha : before.hashFile (baseline.root ++ path) = .ok sha256)
    (hsha' : after.hashFile (current.root ++ path) = .ok sha256') (hchanged : sha256 ≠ sha256')
    (hcanonical : probe.canonicalize (baseline.root ++ path) = some (baseline.root ++ path))
    (halone : Alone before (pathText path)) (halone' : Alone after (pathText path)) :
    Sensed probe baseline current path ↔ '\\' ∉ pathText path ∧
      (Listed before baseline.root (pathText path) ∨ Listed after current.root (pathText path)) := by
  have hunowned := @compareSnapshots_unowned probe baseline current hroot
  constructor
  · intro h
    obtain ⟨delta, hdelta, mutation, hmutation, hpath⟩ := h.reported
    rw [hunowned] at hdelta
    cases hdelta
    have hlisted := (mem_mutations hmutation).2
    rw [hpath, capture_get hbaseline, capture_get hcurrent] at hlisted
    exact ⟨hlisted.elim slashed_of_listed slashed_of_listed, hlisted.symm⟩
  · rintro ⟨hslash, hlisted⟩
    refine ⟨⟨_, hunowned, ?_⟩, ?_⟩
    · have hbefore := record_of_listed hbaseline hstatus hplain halone hfile hsha
      have hafter := record_of_listed hcurrent hstatus' hplain halone' hfile' hsha'
      by_cases hfirst : Listed before baseline.root (pathText path)
      · obtain ⟨identity, hget, hidentity⟩ := hbefore hfirst
        by_cases hsecond : Listed after current.root (pathText path)
        · obtain ⟨identity', hget', hidentity'⟩ := hafter hsecond
          have hne : identity ≠ identity' := by
            rintro rfl
            exact hchanged (Option.some.inj (hidentity.symm.trans hidentity'))
          have hmem : (⟨pathText path, .modified, some identity, some identity'⟩ : PathMutation) ∈
              (compareRecords baseline.records current.records ∅ current.digest).modified :=
            mem_modified.mpr ⟨_, _, hget', Finset.notMem_empty _, hget, hne, rfl⟩
          exact ⟨_, List.mem_append_left _ (List.mem_append_right _ hmem), rfl⟩
        · rw [← capture_get hcurrent, not_not] at hsecond
          have hmem : (⟨pathText path, .deleted, some identity, none⟩ : PathMutation) ∈
              (compareRecords baseline.records current.records ∅ current.digest).deleted :=
            mem_deleted.mpr ⟨_, hget, Finset.notMem_empty _, hsecond, rfl⟩
          exact ⟨_, List.mem_append_right _ hmem, rfl⟩
      · obtain ⟨identity', hget', hidentity'⟩ := hafter (hlisted.resolve_left hfirst)
        rw [← capture_get hbaseline, not_not] at hfirst
        have hmem : (⟨pathText path, .added, none, some identity'⟩ : PathMutation) ∈
            (compareRecords baseline.records current.records ∅ current.digest).added :=
          mem_added.mpr ⟨_, hget', Finset.notMem_empty _, hfirst, rfl⟩
        exact ⟨_, List.mem_append_left _ (List.mem_append_left _ hmem), rfl⟩
    · intro owned hnames hdir
      refine ⟨_, compareSnapshots_one hroot hnames hdir hcanonical, ?_⟩
      intro mutation hmutation hpath
      have hnot := (mem_mutations hmutation).1
      rw [slashed_of_not_mem hslash] at hnot
      exact hnot (Finset.mem_singleton.mpr hpath)

end

theorem capture_untracked {change name : Text} {identity : FileIdentity} {status : Text}
    (hcanonical : host.canonicalize root = .ok root) (hstatus : host.status = some status)
    (hls : host.lsFiles = .ok []) (hentries : entries status = [change]) (hname : untrackedPath change = some name)
    (hidentity : captureIdentity host (join root (slashed name)) false none none (some change) = .ok identity) :
    WorkspaceSnapshot.capture host root = .ok ⟨root, FinMap.empty.insert (slashed name) identity,
      host.digestRecords (FinMap.empty.insert (slashed name) identity), [change]⟩ := by
  have hrecords : captureRecords host root = .ok (FinMap.empty.insert (slashed name) identity, [change]) := by
    have huntracked : insertUntracked host root [change] .empty =
        .ok (FinMap.empty.insert (slashed name) identity) := by
      rw [insertUntracked, hname]
      dsimp only
      rw [hidentity]
      rfl
    unfold captureRecords
    rw [hstatus]
    dsimp only
    unfold captureGitRecords
    rw [hls, hentries]
    change (do
      let records ← insertUntracked host root [change] .empty
      pure (records, [change])) = _
    rw [huntracked]
    rfl
  unfold WorkspaceSnapshot.capture
  rw [hcanonical]
  change (do
    let captured ← captureRecords host root
    pure (⟨root, captured.1, host.digestRecords captured.1, captured.2⟩ : WorkspaceSnapshot)) = _
  rw [hrecords]
  rfl

def newDm : List Text := ["new.dm".toList]

-- A work tree with one untracked file, which `status` names from the top level.
def untrackedHost (status : String) (root : List Text) (sha256 : String) : CaptureHost where
  canonicalize := .ok
  status := some status.toList
  lsFiles := .ok []
  isFile := fun path => path = root ++ newDm
  fileLen := fun _ => .ok 1
  hashFile := fun _ => .ok sha256.toList
  listing := fun _ => .done
  digestRecords := fun _ => []

theorem untrackedHost_isFile (status : String) (root : List Text) (sha256 : String) :
    (untrackedHost status root sha256).isFile (root ++ newDm) = true := by
  change decide (root ++ newDm = root ++ newDm) = true
  exact decide_eq_true rfl

theorem untrackedHost_hashFile {status : String} {root path : List Text} {sha256 sha256' : String}
    (h : sha256.toList ≠ sha256'.toList) :
    (untrackedHost status root sha256).hashFile path ≠ (untrackedHost status root sha256').hashFile path :=
  fun heq => h (Except.ok.inj heq)

def sameProbe : PathProbe := ⟨fun _ => false, some⟩

def untrackedIdentity (status : String) (sha256 : Option Text) : FileIdentity :=
  ⟨false, none, none, sha256, sha256.map fun _ => 1, status.toList⟩

def gameRoot : List Text := ["top".toList, "game".toList]

theorem game_capture (sha256 : String) :
    WorkspaceSnapshot.capture (untrackedHost "? game/new.dm" gameRoot sha256) gameRoot =
      .ok ⟨gameRoot, FinMap.empty.insert "game/new.dm".toList (untrackedIdentity "? game/new.dm" none), [],
        ["? game/new.dm".toList]⟩ := by
  have hentries : entries "? game/new.dm".toList = ["? game/new.dm".toList] := by decide
  have hname : untrackedPath "? game/new.dm".toList = some "game/new.dm".toList := by decide
  have hslashed : slashed "game/new.dm".toList = "game/new.dm".toList := by decide
  have hmissing : (untrackedHost "? game/new.dm" gameRoot sha256).isFile (join gameRoot "game/new.dm".toList) =
      false := by
    change decide (join gameRoot "game/new.dm".toList = gameRoot ++ newDm) = false
    decide
  have hidentity : captureIdentity (untrackedHost "? game/new.dm" gameRoot sha256)
      (join gameRoot (slashed "game/new.dm".toList)) false none none (some "? game/new.dm".toList) =
        .ok (untrackedIdentity "? game/new.dm" none) := by
    rw [hslashed, captureIdentity, if_neg (by rw [hmissing]; exact nofun)]
    rfl
  have hcapture := capture_untracked rfl rfl rfl hentries hname hidentity
  rwa [hslashed] at hcapture

theorem untracked_change_unseen :
    ∃ before after baseline current, WorkspaceSnapshot.capture before gameRoot = .ok baseline ∧
      WorkspaceSnapshot.capture after gameRoot = .ok current ∧
      before.status = some "? game/new.dm".toList ∧ after.status = some "? game/new.dm".toList ∧
      before.isFile (gameRoot ++ newDm) = true ∧ after.isFile (gameRoot ++ newDm) = true ∧
      before.hashFile (gameRoot ++ newDm) ≠ after.hashFile (gameRoot ++ newDm) ∧
      ∀ delta, compareSnapshots sameProbe baseline current [] = .ok delta →
        ∀ mutation ∈ delta.mutations, mutation.relativePath ≠ pathText newDm := by
  have hpath : pathText newDm ≠ "game/new.dm".toList := by decide
  refine ⟨untrackedHost "? game/new.dm" gameRoot "00", untrackedHost "? game/new.dm" gameRoot "11", _, _,
    game_capture "00", game_capture "11", rfl, rfl, untrackedHost_isFile _ _ _, untrackedHost_isFile _ _ _,
    untrackedHost_hashFile (by decide), ?_⟩
  intro delta hdelta mutation hmutation hsame
  rw [compareSnapshots_unowned rfl] at hdelta
  cases hdelta
  have hpresent := (mem_mutations hmutation).2
  rw [hsame, FinMap.get_insert, Function.update_of_ne hpath] at hpresent
  rcases hpresent with h | h
  · exact h rfl
  · exact h rfl

def topRoot : List Text := ["top".toList]

theorem top_capture (sha256 : String) :
    WorkspaceSnapshot.capture (untrackedHost "? new.dm" topRoot sha256) topRoot =
      .ok ⟨topRoot, FinMap.empty.insert "new.dm".toList (untrackedIdentity "? new.dm" (some sha256.toList)), [],
        ["? new.dm".toList]⟩ := by
  have hentries : entries "? new.dm".toList = ["? new.dm".toList] := by decide
  have hname : untrackedPath "? new.dm".toList = some "new.dm".toList := by decide
  have hslashed : slashed "new.dm".toList = "new.dm".toList := by decide
  have hfile : (untrackedHost "? new.dm" topRoot sha256).isFile (join topRoot "new.dm".toList) = true := by
    change decide (join topRoot "new.dm".toList = topRoot ++ newDm) = true
    decide
  have hidentity : captureIdentity (untrackedHost "? new.dm" topRoot sha256)
      (join topRoot (slashed "new.dm".toList)) false none none (some "? new.dm".toList) =
        .ok (untrackedIdentity "? new.dm" (some sha256.toList)) := by
    rw [hslashed, captureIdentity, if_pos hfile]
    rfl
  have hcapture := capture_untracked rfl rfl rfl hentries hname hidentity
  rwa [hslashed] at hcapture

theorem newDm_plain : Plain newDm := ⟨by decide, by decide, by decide⟩

theorem untracked_alone (status : String) (root : List Text) (sha256 : String) (key : Text) :
    Alone (untrackedHost status root sha256) key := by
  intro output houtput entry hentry
  cases houtput
  have hnone : entries [] = [] := by decide
  rw [hnone] at hentry
  cases hentry

theorem change_sensed_top : ∃ baseline current, Sensed sameProbe baseline current newDm := by
  have hpath : pathText newDm = "new.dm".toList := by decide
  have hlisted : Listed (untrackedHost "? new.dm" topRoot "00") topRoot (pathText newDm) := by
    refine (capture_get (top_capture "00")).mp ?_
    rw [hpath, FinMap.get_insert, Function.update_self]
    exact nofun
  have hchanged : "00".toList ≠ "11".toList := by decide
  have hslash : '\\' ∉ pathText newDm := by decide
  exact ⟨_, _, (change_sensed_iff (top_capture "00") (top_capture "11") rfl rfl rfl newDm_plain
    (untrackedHost_isFile _ _ _) (untrackedHost_isFile _ _ _) rfl rfl hchanged rfl (untracked_alone _ _ _ _)
    (untracked_alone _ _ _ _)).mpr ⟨hslash, .inl hlisted⟩⟩

end WorkspaceIntegrity
