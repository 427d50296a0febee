import MeridianMcp.RuntimeIntegrity.Soundness
import MeridianMcp.WorkspaceIntegrity.Listed

namespace RuntimeIntegrity

open MeridianMcp Effects PrivateState WorkspaceIntegrity RuntimeIntegritySession Operation

variable {scan : Scan} {session : RuntimeIntegritySession} {live : Live} {mutations : List PathMutation}
  {event : RuntimeIntegrityEvent}

theorem recordMutations_keeps (h : event ∈ session.document.events) :
    event ∈ (recordMutations scan mutations session).2.document.events := by
  induction mutations generalizing session with
  | nil => exact h
  | cons mutation mutations ih =>
    rw [recordMutations_cons]
    split
    · exact ih h
    · split
      · exact h
      · exact ih (List.mem_append_left _ h)

theorem perform_keeps {op : Operation} (h : event ∈ live.session.document.events) :
    event ∈ (op.perform live).2.session.document.events := by
  rw [(perform_sameLog op live).events]
  cases op with
  | setProcessId processId outcome => exact h
  | observeNow action scan outcome => exact recordMutations_keeps h
  | finalize action scan outcome last => exact recordMutations_keeps h

theorem runAll_keeps {ops : List Operation} (h : event ∈ live.session.document.events) :
    event ∈ (runAll ops live).session.document.events := by
  induction ops generalizing live with
  | nil => exact h
  | cons op ops ih => exact ih (perform_keeps h)

-- The session has met no bound on its events before, and goes on in any way to its end.
def ViolatesAfter (probe : PathProbe) (baseline current : WorkspaceSnapshot) (ownedPaths : List OwnedPath) : Prop :=
  ∀ live action scan outcome summary, live.session.document.baseline = baseline →
    live.session.ownedPaths = ownedPaths → Synchronised live.session →
    scan.capture = .ok current → scan.probe = probe →
    (observeNow action scan outcome live).1 = .ok summary →
    ∀ ops action' scan' outcome' last final,
      (finalize action' scan' outcome' last (runAll ops (observeNow action scan outcome live).2)).1 = .ok final →
      final.status = .finalizedWithViolation

structure Classified (probe : PathProbe) (baseline current : WorkspaceSnapshot) (ownedPaths : List OwnedPath)
    (delta : IntegrityDelta) (key : Text) : Prop where
  deleted : ∃ before, ⟨key, .deleted, some before, none⟩ ∈ delta.deleted
  unmodified : ∀ mutation ∈ delta.modified, mutation.relativePath ≠ key
  violation : ViolatesAfter probe baseline current ownedPaths

theorem violatesAfter {probe : PathProbe} {baseline current : WorkspaceSnapshot} {ownedPaths : List OwnedPath}
    {delta : IntegrityDelta} {mutation : PathMutation}
    (hdelta : compareSnapshots probe baseline current ownedPaths = .ok delta) (hmem : mutation ∈ delta.deleted)
    (hkind : mutation.changeKind = .deleted) : ViolatesAfter probe baseline current ownedPaths := by
  intro live action scan outcome summary hbaseline howned hsynchronised hcapture hprobe hobserve
    ops action' scan' outcome' last final hfinal
  have hmutations : scan.mutations live.session = delta.mutations := by
    have hscan : scan.delta live.session.document.baseline live.session.ownedPaths = .ok delta := by
      rw [Scan.delta, hcapture, hprobe, hbaseline, howned]
      change (compareSnapshots probe baseline current ownedPaths).mapError SessionError.integrity = _
      rw [hdelta]
      rfl
    rw [Scan.mutations, hscan]
  have hrecorded := (observeNow_ok hobserve).1
  have hkeys := recordMutations_complete hrecorded
  have hsync : Synchronised (scan.recorded live.session).2 :=
    (recordMutations_synchronised hsynchronised).mpr hrecorded
  rw [hmutations] at hkeys
  have hkey : keyOf mutation ∈ keysOf delta.mutations :=
    List.mem_toFinset.mpr (List.mem_map_of_mem (List.mem_append_right _ hmem))
  have hseen : keyOf mutation ∈ (scan.recorded live.session).2.observed := by
    rw [Scan.recorded, hmutations]
    exact hkeys hkey
  rw [hsync, mem_eventKeys] at hseen
  obtain ⟨event, hevent, heq⟩ := hseen
  rw [← (observeNow_sameLog action scan outcome live).events] at hevent
  have hlast : event ∈ (perform (.finalize action' scan' outcome' last)
      (runAll ops (observeNow action scan outcome live).2)).2.session.document.events :=
    perform_keeps (runAll_keeps hevent)
  rw [(finalize_ok hfinal).2.2]
  exact finalStatus_of_deleted ⟨event, hlast, (congrArg Prod.snd heq).trans hkind⟩

theorem deletion_classified_iff {later : CaptureHost} {path : List Text} {baseline current : WorkspaceSnapshot}
    {probe : PathProbe} {ownedPaths : List OwnedPath} {delta : IntegrityDelta} {key : Text}
    (hcurrent : WorkspaceSnapshot.capture later path = .ok current)
    (hdelta : compareSnapshots probe baseline current ownedPaths = .ok delta)
    (hrecorded : baseline.records.get key ≠ none) :
    (key ∉ delta.ownedPaths → Classified probe baseline current ownedPaths delta key) ↔
      key ∈ delta.ownedPaths ∨ ¬ Listed later current.root key := by
  obtain ⟨owned, howned, hroot, rfl⟩ := compareSnapshots_ok hdelta
  constructor
  · intro h
    rw [or_iff_not_imp_left]
    intro hnot
    obtain ⟨before, hmem⟩ := (h hnot).deleted
    obtain ⟨-, -, -, hnone, -⟩ := mem_deleted.mp hmem
    rw [← capture_get hcurrent]
    exact not_not.mpr hnone
  · rintro (hmem | hlisted) hnot
    · exact absurd hmem hnot
    · rw [← capture_get hcurrent, not_not] at hlisted
      obtain ⟨before, hbefore⟩ := Option.ne_none_iff_exists'.mp hrecorded
      have hmem : (⟨key, .deleted, some before, none⟩ : PathMutation) ∈
          (compareRecords baseline.records current.records owned current.digest).deleted :=
        mem_deleted.mpr ⟨before, hbefore, hnot, hlisted, rfl⟩
      refine ⟨⟨before, hmem⟩, ?_, violatesAfter hdelta hmem rfl⟩
      rintro mutation hmodified rfl
      obtain ⟨-, after, hafter, -⟩ := mem_modified.mp hmodified
      rw [hlisted] at hafter
      cases hafter

def trackedDm : Text := "src/a.dm".toList

-- A work tree whose index names one file.
def gitHost (status : String) (present : Bool) : CaptureHost where
  canonicalize := .ok
  status := some status.toList
  lsFiles := .ok ("100644 e69de29 0\t".toList ++ trackedDm)
  isFile := fun _ => present
  fileLen := fun _ => .ok 1
  hashFile := fun _ => .ok "00".toList
  listing := fun _ => .done
  digestRecords := fun _ => []

def trackedMetadata : Text := "100644 e69de29 0".toList

def untouched : CaptureHost := gitHost "" true

def removed : CaptureHost := gitHost "1 .D N... 100644 100644 000000 e69de29 e69de29 src/a.dm" false

def noProbe : PathProbe := ⟨fun _ => false, fun _ => none⟩

def trackedIdentity (status : String) (present : Bool) : FileIdentity where
  tracked := true
  gitObjectKind := some "100644".toList
  gitObjectId := some "e69de29".toList
  sha256 := if present then some "00".toList else none
  size := if present then some 1 else none
  status := ((statusesOf (entries status.toList)).get trackedDm).getD "clean".toList

theorem gitHost_identity (status : String) (present : Bool) (path : List Text) :
    captureIdentity (gitHost status present) path true (splitWhitespace trackedMetadata)[0]?
      (splitWhitespace trackedMetadata)[1]? ((statusesOf (entries status.toList)).get (slashed trackedDm)) =
      .ok (trackedIdentity status present) := by
  have hkind : (splitWhitespace trackedMetadata)[0]? = some "100644".toList := by decide
  have hobject : (splitWhitespace trackedMetadata)[1]? = some "e69de29".toList := by decide
  have hkey : slashed trackedDm = trackedDm := by decide
  rw [hkind, hobject, hkey]
  cases present <;> rfl

theorem gitHost_capture {status : String} (present : Bool)
    (huntracked : ∀ change ∈ entries status.toList, untrackedPath change = none) :
    ∃ snapshot, WorkspaceSnapshot.capture (gitHost status present) ["ws".toList] = .ok snapshot ∧
      snapshot.root = ["ws".toList] ∧ snapshot.records.get trackedDm = some (trackedIdentity status present) := by
  have hentries : entries ("100644 e69de29 0\t".toList ++ trackedDm) =
      ["100644 e69de29 0\t".toList ++ trackedDm] := by decide
  have hsplit : splitTab ("100644 e69de29 0\t".toList ++ trackedDm) = some (trackedMetadata, trackedDm) := by decide
  have hkey : slashed trackedDm = trackedDm := by decide
  have htracked := insertTracked_one hsplit
    (gitHost_identity status present (join ["ws".toList] trackedDm))
  rw [← hentries, hkey] at htracked
  have hrecords : captureRecords (gitHost status present) ["ws".toList] =
      .ok (FinMap.empty.insert trackedDm (trackedIdentity status present), entries status.toList) := by
    change captureGitRecords (gitHost status present) ["ws".toList] status.toList = _
    unfold captureGitRecords
    change (do
      let records ← insertTracked (gitHost status present) ["ws".toList] (statusesOf (entries status.toList))
        (entries ("100644 e69de29 0\t".toList ++ trackedDm)) .empty
      let records ← insertUntracked (gitHost status present) ["ws".toList] (entries status.toList) records
      pure (records, entries status.toList)) = _
    rw [htracked]
    change (do
      let records ← insertUntracked (gitHost status present) ["ws".toList] (entries status.toList)
        (FinMap.empty.insert trackedDm (trackedIdentity status present))
      pure (records, entries status.toList)) = _
    rw [insertUntracked_none huntracked]
    rfl
  refine ⟨⟨["ws".toList], FinMap.empty.insert trackedDm (trackedIdentity status present), [], entries status.toList⟩,
    ?_, rfl, ?_⟩
  · change (do
      let captured ← captureRecords (gitHost status present) ["ws".toList]
      pure (⟨["ws".toList], captured.1, [], captured.2⟩ : WorkspaceSnapshot)) = _
    rw [hrecords]
    rfl
  · rw [FinMap.get_insert, Function.update_self]

theorem tracked_deletion_modified : ∃ baseline current delta before,
    WorkspaceSnapshot.capture untouched ["ws".toList] = .ok baseline ∧
    WorkspaceSnapshot.capture removed ["ws".toList] = .ok current ∧
    untouched.lsFiles = removed.lsFiles ∧
    compareSnapshots noProbe baseline current [] = .ok delta ∧
    baseline.records.get trackedDm = some before ∧ before.sha256 ≠ none ∧
    removed.isFile (join ["ws".toList] trackedDm) = false ∧ trackedDm ∉ delta.ownedPaths ∧
    (∃ mutation ∈ delta.modified, mutation.relativePath = trackedDm) ∧
    ∀ mutation ∈ delta.deleted, mutation.relativePath ≠ trackedDm := by
  obtain ⟨baseline, hbaseline, hbaselineRoot, hbefore⟩ := @gitHost_capture "" true (by decide)
  obtain ⟨current, hcurrent, hcurrentRoot, hafter⟩ :=
    @gitHost_capture "1 .D N... 100644 100644 000000 e69de29 e69de29 src/a.dm" false (by decide)
  have hne : trackedIdentity "" true ≠
      trackedIdentity "1 .D N... 100644 100644 000000 e69de29 e69de29 src/a.dm" false := by
    intro h
    have hsha := congrArg FileIdentity.sha256 h
    cases hsha
  have hmodified : (⟨trackedDm, .modified, some _, some _⟩ : PathMutation) ∈
      (compareRecords baseline.records current.records ∅ current.digest).modified :=
    mem_modified.mpr ⟨_, _, hafter, Finset.notMem_empty _, hbefore, hne, rfl⟩
  refine ⟨baseline, current, _, _, hbaseline, hcurrent, rfl,
    compareSnapshots_unowned (hbaselineRoot.trans hcurrentRoot.symm), hbefore, by decide, rfl,
    Finset.notMem_empty _, ⟨_, hmodified, rfl⟩, ?_⟩
  rintro mutation hdeleted hpath
  obtain ⟨-, -, -, hnone, -⟩ := mem_deleted.mp hdeleted
  rw [hpath, hafter] at hnone
  cases hnone

def walkedEmpty : CaptureHost := { removed with status := none }

def walkedBaseline : WorkspaceSnapshot :=
  ⟨["ws".toList], FinMap.empty.insert trackedDm (trackedIdentity "" true), [], []⟩

def walkedCurrent : WorkspaceSnapshot := ⟨["ws".toList], .empty, [], []⟩

theorem deletion_classified_walked : Classified noProbe walkedBaseline walkedCurrent []
    (compareRecords walkedBaseline.records walkedCurrent.records ∅ walkedCurrent.digest) trackedDm := by
  have hcurrent : WorkspaceSnapshot.capture walkedEmpty ["ws".toList] = .ok walkedCurrent := rfl
  have hrecorded : walkedBaseline.records.get trackedDm ≠ none := by
    rw [walkedBaseline, FinMap.get_insert, Function.update_self]
    exact nofun
  have hdelta : compareSnapshots noProbe walkedBaseline walkedCurrent [] =
      .ok (compareRecords walkedBaseline.records walkedCurrent.records ∅ walkedCurrent.digest) :=
    compareSnapshots_unowned rfl
  refine (deletion_classified_iff hcurrent hdelta hrecorded).mpr (.inr ?_) (Finset.notMem_empty _)
  rintro ⟨path, hpath, -⟩
  cases hpath

end RuntimeIntegrity
