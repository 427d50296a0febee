import MeridianMcp.Text
import MeridianMcp.Effects.FinMap

namespace WorkspaceIntegrity

open MeridianMcp Effects

structure FileIdentity where
  tracked : Bool
  gitObjectKind : Option Text
  gitObjectId : Option Text
  sha256 : Option Text
  size : Option Nat
  status : Text
  deriving DecidableEq, Repr

inductive MutationKind where
  | added | modified | deleted
  deriving DecidableEq, Repr

structure PathMutation where
  relativePath : Text
  changeKind : MutationKind
  before : Option FileIdentity
  after : Option FileIdentity
  deriving DecidableEq, Repr

abbrev Records := FinMap Text FileIdentity

structure WorkspaceSnapshot where
  root : List Text
  records : Records
  digest : Text
  preexistingChanges : List Text

structure IntegrityDelta where
  added : List PathMutation
  modified : List PathMutation
  deleted : List PathMutation
  ownedPaths : Finset Text
  currentDigest : Text

namespace IntegrityDelta

def mutations (delta : IntegrityDelta) : List PathMutation :=
  delta.added ++ delta.modified ++ delta.deleted

end IntegrityDelta

variable (baseline current : Records) (owned : Finset Text)

def presentMutation (path : Text) (after : FileIdentity) : Option PathMutation :=
  if path ∈ owned then none
  else match baseline.get path with
    | none => some ⟨path, .added, none, some after⟩
    | some before => if before ≠ after then some ⟨path, .modified, some before, some after⟩ else none

def absentMutation (path : Text) (before : FileIdentity) : Option PathMutation :=
  if path ∉ owned ∧ current.get path = none then some ⟨path, .deleted, some before, none⟩ else none

def compareRecords (digest : Text) : IntegrityDelta :=
  let present := current.toList.filterMap fun entry => presentMutation baseline owned entry.1 entry.2
  { added := present.filter (·.changeKind = .added)
    modified := present.filter (·.changeKind = .modified)
    deleted := baseline.toList.filterMap fun entry => absentMutation current owned entry.1 entry.2
    ownedPaths := owned
    currentDigest := digest }

variable {baseline current owned} {digest : Text} {mutation : PathMutation} {path : Text}

theorem mem_deleted :
    mutation ∈ (compareRecords baseline current owned digest).deleted ↔
      ∃ before, baseline.get mutation.relativePath = some before ∧ mutation.relativePath ∉ owned ∧
        current.get mutation.relativePath = none ∧
        mutation = ⟨mutation.relativePath, .deleted, some before, none⟩ := by
  simp only [compareRecords, List.mem_filterMap, absentMutation, Prod.exists, FinMap.mem_toList]
  constructor
  · rintro ⟨p, before, hp, h⟩
    split at h
    · rename_i hc
      cases h
      exact ⟨before, hp, hc.1, hc.2, rfl⟩
    · cases h
  · rintro ⟨before, hp, howned, hnone, h⟩
    exact ⟨_, before, hp, by rw [if_pos ⟨howned, hnone⟩, ← h]⟩

theorem mem_added :
    mutation ∈ (compareRecords baseline current owned digest).added ↔
      ∃ after, current.get mutation.relativePath = some after ∧ mutation.relativePath ∉ owned ∧
        baseline.get mutation.relativePath = none ∧
        mutation = ⟨mutation.relativePath, .added, none, some after⟩ := by
  simp only [compareRecords, List.mem_filter, List.mem_filterMap, presentMutation, Prod.exists,
    FinMap.mem_toList, decide_eq_true_eq]
  constructor
  · rintro ⟨⟨p, after, hp, h⟩, hkind⟩
    split at h
    · cases h
    · rename_i howned
      split at h
      · rename_i hnone
        cases h
        exact ⟨after, hp, howned, hnone, rfl⟩
      · split at h
        · cases h
          cases hkind
        · cases h
  · rintro ⟨after, hp, howned, hnone, h⟩
    refine ⟨⟨_, after, hp, ?_⟩, by rw [h]⟩
    rw [if_neg howned, hnone, ← h]

theorem mem_modified :
    mutation ∈ (compareRecords baseline current owned digest).modified ↔
      ∃ before after, current.get mutation.relativePath = some after ∧
        mutation.relativePath ∉ owned ∧ baseline.get mutation.relativePath = some before ∧
        before ≠ after ∧ mutation = ⟨mutation.relativePath, .modified, some before, some after⟩ := by
  simp only [compareRecords, List.mem_filter, List.mem_filterMap, presentMutation, Prod.exists,
    FinMap.mem_toList, decide_eq_true_eq]
  constructor
  · rintro ⟨⟨p, after, hp, h⟩, hkind⟩
    split at h
    · cases h
    · rename_i howned
      split at h
      · cases h
        cases hkind
      · rename_i before hbefore
        split at h
        · rename_i hne
          cases h
          exact ⟨before, after, hp, howned, hbefore, hne, rfl⟩
        · cases h
  · rintro ⟨before, after, hp, howned, hbefore, hne, h⟩
    refine ⟨⟨_, after, hp, ?_⟩, by rw [h]⟩
    rw [if_neg howned, hbefore]
    simp only [if_pos hne, ← h]

end WorkspaceIntegrity
