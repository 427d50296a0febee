import MeridianMcp.WorkspaceIntegrity.Capture
import MeridianMcp.Fallible
import Mathlib.Data.List.Lattice

namespace WorkspaceIntegrity

open MeridianMcp Effects Fallible

structure IntegrityBaseline where
  snapshot : WorkspaceSnapshot
  digest : Text
  preexistingChanges : List Text

structure IntegrityCheckpoint where
  action : Text
  baselineDigest : Text
  currentDigest : Text
  added : List Text
  modified : List Text
  deleted : List Text
  ownedPaths : Finset Text

def IntegrityBaseline.capture (host : CaptureHost) (root : List Text) :
    Except IntegrityError IntegrityBaseline := do
  let snapshot ← WorkspaceSnapshot.capture host root
  pure ⟨snapshot, snapshot.digest, snapshot.preexistingChanges⟩

def IntegrityBaseline.checkpoint (host : CaptureHost) (probe : PathProbe)
    (baseline : IntegrityBaseline) (action : Text) (ownedPaths : List OwnedPath) :
    Except IntegrityError IntegrityCheckpoint := do
  let current ← WorkspaceSnapshot.capture host baseline.snapshot.root
  let delta ← compareSnapshots probe baseline.snapshot current ownedPaths
  let checkpoint : IntegrityCheckpoint :=
    { action
      baselineDigest := baseline.digest
      currentDigest := delta.currentDigest
      added := delta.added.map PathMutation.relativePath
      modified := delta.modified.map PathMutation.relativePath
      deleted := delta.deleted.map PathMutation.relativePath
      ownedPaths := delta.ownedPaths }
  let violations := checkpoint.added ++ checkpoint.modified ++ checkpoint.deleted
  if violations = [] then .ok checkpoint else .error (.violation violations)

section Owned

variable {probe : PathProbe} {root : List Text} {ownedPaths : List OwnedPath} {path : Text}

-- An exemption names the path.
def Owned (probe : PathProbe) (root : List Text) (ownedPaths : List OwnedPath) (path : Text) :
    Prop :=
  ∃ owned ∈ ownedPaths, ownedKey probe root owned = .ok (some path)

-- No exemption is a directory, and none that is given from the root leads out of it.
def Resolves (probe : PathProbe) (root : List Text) (ownedPaths : List OwnedPath) : Prop :=
  ∀ owned ∈ ownedPaths, ∃ key, ownedKey probe root owned = .ok key

theorem mem_ownedKeys {keys : Finset Text} (h : ownedKeys probe root ownedPaths = .ok keys) :
    path ∈ keys ↔ Owned probe root ownedPaths path := by
  induction ownedPaths generalizing keys with
  | nil =>
    obtain rfl := Except.ok.inj h
    exact iff_of_false (Finset.notMem_empty _) fun ⟨_, howned, _⟩ => by cases howned
  | cons owned ownedPaths ih =>
    obtain ⟨key, hkey, h⟩ := bind_ok h
    obtain ⟨rest, hrest, h⟩ := bind_ok h
    obtain rfl := Except.ok.inj h
    rw [Finset.mem_union, ih hrest, Option.mem_toFinset, Owned, Owned]
    simp only [List.mem_cons, exists_eq_or_imp, hkey, Except.ok.injEq, Option.mem_def]

theorem ownedKeys_ok_iff :
    (∃ keys, ownedKeys probe root ownedPaths = .ok keys) ↔ Resolves probe root ownedPaths := by
  induction ownedPaths with
  | nil => exact iff_of_true ⟨∅, rfl⟩ fun _ h => by cases h
  | cons owned ownedPaths ih =>
    rw [Resolves, List.forall_mem_cons, ← Resolves, ← ih]
    constructor
    · rintro ⟨keys, h⟩
      obtain ⟨key, hkey, h⟩ := bind_ok h
      obtain ⟨rest, hrest, -⟩ := bind_ok h
      exact ⟨⟨key, hkey⟩, rest, hrest⟩
    · rintro ⟨⟨key, hkey⟩, rest, hrest⟩
      exact ⟨_, by rw [ownedKeys, hkey, hrest]; rfl⟩

end Owned

section Compared

variable {probe : PathProbe} {baseline current : WorkspaceSnapshot} {ownedPaths : List OwnedPath}
  {delta : IntegrityDelta} {path : Text}

-- What the three lists of a comparison say of the records outside the exemptions.
structure Compared (baseline current : Records) (owned : Text → Prop)
    (added modified deleted : List Text) : Prop where
  added_iff : ∀ path, path ∈ added ↔
    ¬owned path ∧ baseline.get path = none ∧ current.get path ≠ none
  modified_iff : ∀ path, path ∈ modified ↔
    ¬owned path ∧ ∃ before after, baseline.get path = some before ∧
      current.get path = some after ∧ before ≠ after
  deleted_iff : ∀ path, path ∈ deleted ↔
    ¬owned path ∧ baseline.get path ≠ none ∧ current.get path = none
  disjoint : added.Disjoint modified ∧ added.Disjoint deleted ∧ modified.Disjoint deleted
  together : ∀ path, path ∈ added ++ modified ++ deleted ↔
    ¬owned path ∧ current.get path ≠ baseline.get path

theorem Compared.of_lists {baseline current : Records} {owned : Text → Prop}
    {added modified deleted : List Text}
    (hadded : ∀ path, path ∈ added ↔
      ¬owned path ∧ baseline.get path = none ∧ current.get path ≠ none)
    (hmodified : ∀ path, path ∈ modified ↔
      ¬owned path ∧ ∃ before after, baseline.get path = some before ∧
        current.get path = some after ∧ before ≠ after)
    (hdeleted : ∀ path, path ∈ deleted ↔
      ¬owned path ∧ baseline.get path ≠ none ∧ current.get path = none) :
    Compared baseline current owned added modified deleted where
  added_iff := hadded
  modified_iff := hmodified
  deleted_iff := hdeleted
  disjoint := by
    refine ⟨fun path hpath hpath' => ?_, fun path hpath hpath' => ?_, fun path hpath hpath' => ?_⟩
    · obtain ⟨-, before, after, hbefore, -⟩ := (hmodified path).mp hpath'
      rw [((hadded path).mp hpath).2.1] at hbefore
      cases hbefore
    · exact ((hdeleted path).mp hpath').2.1 ((hadded path).mp hpath).2.1
    · obtain ⟨-, before, after, -, hafter, -⟩ := (hmodified path).mp hpath
      rw [((hdeleted path).mp hpath').2.2] at hafter
      cases hafter
  together path := by
    rw [List.mem_append, List.mem_append, hadded, hmodified, hdeleted, ← and_or_left,
      ← and_or_left]
    refine and_congr_right fun _ => ?_
    cases baseline.get path <;> cases current.get path <;> simp [eq_comm]

theorem compareSnapshots_compared
    (h : compareSnapshots probe baseline current ownedPaths = .ok delta) :
    Compared baseline.records current.records (Owned probe baseline.root ownedPaths)
      (delta.added.map PathMutation.relativePath) (delta.modified.map PathMutation.relativePath)
      (delta.deleted.map PathMutation.relativePath) := by
  obtain ⟨owned, howned, -, rfl⟩ := compareSnapshots_ok h
  refine .of_lists (fun path => ?_) (fun path => ?_) fun path => ?_
  · rw [← mem_ownedKeys howned, List.mem_map]
    constructor
    · rintro ⟨mutation, hmutation, rfl⟩
      obtain ⟨after, hafter, hunowned, hnone, -⟩ := mem_added.mp hmutation
      exact ⟨hunowned, hnone, hafter ▸ Option.some_ne_none after⟩
    · rintro ⟨hunowned, hnone, hsome⟩
      obtain ⟨after, hafter⟩ := Option.ne_none_iff_exists'.mp hsome
      exact ⟨⟨path, .added, none, some after⟩,
        mem_added.mpr ⟨after, hafter, hunowned, hnone, rfl⟩, rfl⟩
  · rw [← mem_ownedKeys howned, List.mem_map]
    constructor
    · rintro ⟨mutation, hmutation, rfl⟩
      obtain ⟨before, after, hafter, hunowned, hbefore, hne, -⟩ := mem_modified.mp hmutation
      exact ⟨hunowned, before, after, hbefore, hafter, hne⟩
    · rintro ⟨hunowned, before, after, hbefore, hafter, hne⟩
      exact ⟨⟨path, .modified, some before, some after⟩,
        mem_modified.mpr ⟨before, after, hafter, hunowned, hbefore, hne, rfl⟩, rfl⟩
  · rw [← mem_ownedKeys howned, List.mem_map]
    constructor
    · rintro ⟨mutation, hmutation, rfl⟩
      obtain ⟨before, hbefore, hunowned, hnone, -⟩ := mem_deleted.mp hmutation
      exact ⟨hunowned, hbefore ▸ Option.some_ne_none before, hnone⟩
    · rintro ⟨hunowned, hsome, hnone⟩
      obtain ⟨before, hbefore⟩ := Option.ne_none_iff_exists'.mp hsome
      exact ⟨⟨path, .deleted, some before, none⟩,
        mem_deleted.mpr ⟨before, hbefore, hunowned, hnone, rfl⟩, rfl⟩

theorem compareSnapshots_ok_iff :
    (∃ delta, compareSnapshots probe baseline current ownedPaths = .ok delta) ↔
      baseline.root = current.root ∧ Resolves probe baseline.root ownedPaths := by
  rw [← ownedKeys_ok_iff]
  constructor
  · rintro ⟨delta, h⟩
    obtain ⟨owned, howned, hroot, -⟩ := compareSnapshots_ok h
    exact ⟨hroot, owned, howned⟩
  · rintro ⟨hroot, owned, howned⟩
    exact ⟨_, by rw [compareSnapshots, if_neg (not_not.mpr hroot), howned]; rfl⟩

end Compared

section Checkpoint

variable {host : CaptureHost} {probe : PathProbe} {baseline : IntegrityBaseline} {action : Text}
  {ownedPaths : List OwnedPath}

theorem checkpoint_ok_iff :
    (∃ checkpoint, baseline.checkpoint host probe action ownedPaths = .ok checkpoint) ↔
      ∃ current, WorkspaceSnapshot.capture host baseline.snapshot.root = .ok current ∧
        baseline.snapshot.root = current.root ∧
        Resolves probe baseline.snapshot.root ownedPaths ∧
        ∀ path, ¬Owned probe baseline.snapshot.root ownedPaths path →
          current.records.get path = baseline.snapshot.records.get path := by
  constructor
  · rintro ⟨checkpoint, h⟩
    obtain ⟨current, hcurrent, h⟩ := bind_ok h
    obtain ⟨delta, hdelta, h⟩ := bind_ok h
    obtain ⟨hroot, hresolves⟩ := compareSnapshots_ok_iff.mp ⟨delta, hdelta⟩
    refine ⟨current, hcurrent, hroot, hresolves, fun path hunowned => ?_⟩
    dsimp only at h
    split at h
    · rename_i hnone
      by_contra hdiffers
      have hmem := ((compareSnapshots_compared hdelta).together path).mpr ⟨hunowned, hdiffers⟩
      rw [hnone] at hmem
      cases hmem
    · cases h
  · rintro ⟨current, hcurrent, hroot, hresolves, hagree⟩
    obtain ⟨delta, hdelta⟩ := compareSnapshots_ok_iff.mpr ⟨hroot, hresolves⟩
    have hnone : delta.added.map PathMutation.relativePath ++
        delta.modified.map PathMutation.relativePath ++
        delta.deleted.map PathMutation.relativePath = [] := by
      refine List.eq_nil_iff_forall_not_mem.mpr fun path hmem => ?_
      obtain ⟨hunowned, hdiffers⟩ := ((compareSnapshots_compared hdelta).together path).mp hmem
      exact hdiffers (hagree path hunowned)
    exact ⟨_, bind_ok_iff.mpr ⟨current, hcurrent,
      bind_ok_iff.mpr ⟨delta, hdelta, if_pos hnone⟩⟩⟩

-- Two snapshots of one root can be compared with every list of exemptions that resolves, and a
-- checkpoint passes exactly when nothing outside the exemptions has changed.
theorem workspace_compared (host : CaptureHost) (probe : PathProbe) (baseline : IntegrityBaseline)
    (action : Text) (ownedPaths : List OwnedPath) :
    (∀ current : WorkspaceSnapshot, baseline.snapshot.root = current.root →
      Resolves probe baseline.snapshot.root ownedPaths →
      ∃ delta, compareSnapshots probe baseline.snapshot current ownedPaths = .ok delta) ∧
    (∀ current delta, compareSnapshots probe baseline.snapshot current ownedPaths = .ok delta →
      Compared baseline.snapshot.records current.records
        (Owned probe baseline.snapshot.root ownedPaths)
        (delta.added.map PathMutation.relativePath) (delta.modified.map PathMutation.relativePath)
        (delta.deleted.map PathMutation.relativePath)) ∧
    ((∃ checkpoint, baseline.checkpoint host probe action ownedPaths = .ok checkpoint) ↔
      ∃ current, WorkspaceSnapshot.capture host baseline.snapshot.root = .ok current ∧
        baseline.snapshot.root = current.root ∧
        Resolves probe baseline.snapshot.root ownedPaths ∧
        ∀ path, ¬Owned probe baseline.snapshot.root ownedPaths path →
          current.records.get path = baseline.snapshot.records.get path) :=
  ⟨fun _ hroot hresolves => compareSnapshots_ok_iff.mpr ⟨hroot, hresolves⟩,
    fun _ _ h => compareSnapshots_compared h, checkpoint_ok_iff⟩

end Checkpoint

end WorkspaceIntegrity
