import Mathlib.Data.String.Basic
import MeridianMcp.Effects.Links
import MeridianMcp.Fallible
import Mathlib.Data.List.Destutter

namespace Containment

open Effects

structure PolicyError where
  code : String
  path : Route String
  message : String
  source : Option IoError
  deriving DecidableEq, Repr

structure PathPolicy where
  roots : List (Path String)
  executables : List (Path String)

variable (tree : LinkedTree String) (cwd : Path String)

def canonicalize (paths : List (Route String)) (code : String) :
    Except PolicyError (List (Path String)) :=
  paths.mapM fun path =>
    (tree.resolve cwd path).mapError fun source => ⟨code, path, "cannot resolve", some source⟩

namespace PathPolicy

def new (roots executables : List (Route String)) : Except PolicyError PathPolicy :=
  if roots = [] then throw ⟨"no_workspace_roots", ⟨false, []⟩, "no workspace roots configured", none⟩
  else do
    let roots ← canonicalize tree cwd roots "invalid_workspace_root"
    let executables ← canonicalize tree cwd executables "invalid_executable"
    pure ⟨roots, executables⟩

def fromEffectiveRoots (roots executables : List (Route String)) : Except PolicyError PathPolicy :=
  if roots = [] then throw ⟨"no_workspace_roots", ⟨false, []⟩, "no workspace roots configured", none⟩
  else do
    let normalized ← canonicalize tree cwd roots "invalid_workspace_root"
    let roots := (normalized.mergeSort (· ≤ ·)).destutter (· ≠ ·)
    let executables ← canonicalize tree cwd executables "invalid_executable"
    pure ⟨roots, executables⟩

inductive Configured (roots executables : List (Route String)) (policy : PathPolicy) : Prop
  | new (h : new tree cwd roots executables = .ok policy)
  | fromEffectiveRoots (h : fromEffectiveRoots tree cwd roots executables = .ok policy)

variable (policy : PathPolicy)

def requireContained (path : Path String) : Except PolicyError (Path String) :=
  if policy.roots.any (· <+: path) then .ok path
  else .error ⟨"path_outside_workspace", .ofPath path, "path is outside configured workspace roots", none⟩

def readPath (input : Route String) : Except PolicyError (Path String) := do
  let canonical ← (tree.resolve cwd input).mapError fun source =>
    ⟨"path_not_found", input, "cannot resolve", some source⟩
  policy.requireContained canonical

def outputPath (input : Route String) (overwrite : Bool) : Except PolicyError (Path String) :=
  if tree.resolves cwd input then do
    let canonical ← policy.readPath tree cwd input
    if overwrite then pure canonical
    else throw ⟨"output_exists", .ofPath canonical, "output already exists; set overwrite=true", none⟩
  else
    match input.parent with
    | none => throw ⟨"invalid_output_path", input, "output path has no parent", none⟩
    | some parent => do
      let canonical ← (tree.resolve cwd parent).mapError fun source =>
        ⟨"output_parent_not_found", parent, "cannot resolve output parent", some source⟩
      match input.fileName with
      | none => throw ⟨"invalid_output_path", input, "output path has no file name", none⟩
      | some name => policy.requireContained (canonical ++ [name])

end PathPolicy

variable {tree cwd} {policy : PathPolicy} {p : Path String} {input : Route String} {overwrite : Bool}

theorem mem_canonicalize {paths : List (Route String)} {code : String} {found : List (Path String)}
    (h : canonicalize tree cwd paths code = .ok found) : ∀ p ∈ found, tree.Canonical p := by
  intro p hp
  obtain ⟨path, -, hpath⟩ := Fallible.exists_of_mem_right (Fallible.forall₂_of_mapM_ok h) hp
  exact LinkedTree.resolve_canonical (Fallible.mapError_ok hpath)

theorem configured_canonical {roots executables : List (Route String)}
    (h : PathPolicy.Configured tree cwd roots executables policy) :
    ∀ root ∈ policy.roots, tree.Canonical root := by
  have hfound : ∀ {found : List (Path String)},
      canonicalize tree cwd roots "invalid_workspace_root" = .ok found →
      (∀ root ∈ policy.roots, root ∈ found) → ∀ root ∈ policy.roots, tree.Canonical root :=
    fun hc hmem root hroot => mem_canonicalize hc root (hmem root hroot)
  cases h with
  | new h =>
    unfold PathPolicy.new at h
    split at h
    · cases h
    · cases hc : canonicalize tree cwd roots "invalid_workspace_root" with
      | error e => simp [hc, bind, Except.bind] at h
      | ok found =>
        cases he : canonicalize tree cwd executables "invalid_executable" with
        | error e => simp [hc, he, bind, Except.bind] at h
        | ok allowed =>
          simp only [hc, he, bind, Except.bind] at h
          cases h
          exact hfound hc fun root hroot => hroot
  | fromEffectiveRoots h =>
    unfold PathPolicy.fromEffectiveRoots at h
    split at h
    · cases h
    · cases hc : canonicalize tree cwd roots "invalid_workspace_root" with
      | error e => simp [hc, bind, Except.bind] at h
      | ok found =>
        cases he : canonicalize tree cwd executables "invalid_executable" with
        | error e => simp [hc, he, bind, Except.bind] at h
        | ok allowed =>
          simp only [hc, he, bind, Except.bind] at h
          cases h
          refine hfound hc fun root hroot => ?_
          exact List.mem_mergeSort.mp ((List.destutter_sublist _ _).subset hroot)

theorem requireContained_ok {q : Path String} :
    policy.requireContained p = .ok q ↔ q = p ∧ ∃ root ∈ policy.roots, root <+: p := by
  unfold PathPolicy.requireContained
  split
  · rename_i hany
    simp only [List.any_eq_true, decide_eq_true_eq] at hany
    simp [hany, eq_comm]
  · rename_i hany
    simp only [List.any_eq_true, decide_eq_true_eq] at hany
    simp [hany]

theorem resolves_iff : tree.resolves cwd input = true ↔ ∃ p, tree.resolve cwd input = .ok p := by
  unfold LinkedTree.resolves
  cases tree.resolve cwd input <;> simp [Except.isOk, Except.toBool]

theorem readPath_ok : policy.readPath tree cwd input = .ok p ↔
    tree.resolve cwd input = .ok p ∧ ∃ root ∈ policy.roots, root <+: p := by
  unfold PathPolicy.readPath
  cases hr : tree.resolve cwd input with
  | error e => simp [Except.mapError, bind, Except.bind]
  | ok q =>
    simp only [Except.mapError, bind, Except.bind, requireContained_ok, Except.ok.injEq]
    constructor
    · rintro ⟨rfl, h⟩
      exact ⟨rfl, h⟩
    · rintro ⟨rfl, h⟩
      exact ⟨rfl, h⟩

-- The entry that a request comes down to: itself where it resolves, else a name in its parent.
def LandsOn (tree : LinkedTree String) (cwd : Path String) (input : Route String) (p : Path String) :
    Prop :=
  if tree.resolves cwd input then tree.resolve cwd input = .ok p
  else ∃ parent dir name, input.parent = some parent ∧ tree.resolve cwd parent = .ok dir ∧
    input.fileName = some name ∧ p = dir ++ [name]

theorem outputPath_ok : policy.outputPath tree cwd input overwrite = .ok p ↔
    LandsOn tree cwd input p ∧ (∃ root ∈ policy.roots, root <+: p) ∧
      (tree.resolves cwd input = true → overwrite = true) := by
  unfold PathPolicy.outputPath LandsOn
  split
  · rename_i hresolves
    cases hr : policy.readPath tree cwd input with
    | error e =>
      have hnot : ¬ (tree.resolve cwd input = .ok p ∧ ∃ root ∈ policy.roots, root <+: p) := by
        rw [← readPath_ok, hr]
        exact nofun
      simp only [bind, Except.bind, reduceCtorEq, false_iff]
      rintro ⟨hland, hroot, -⟩
      exact hnot ⟨hland, hroot⟩
    | ok q =>
      obtain ⟨hq, hroot⟩ := readPath_ok.mp hr
      cases overwrite with
      | true =>
        simp only [bind, Except.bind, if_true, pure, Except.pure, hq, Except.ok.injEq, implies_true, and_true]
        constructor
        · rintro rfl
          exact ⟨rfl, hroot⟩
        · exact And.left
      | false => simp [bind, Except.bind, throw, throwThe, MonadExceptOf.throw, hresolves]
  · rename_i hmissing
    have hfree : tree.resolves cwd input = true → overwrite = true := fun h => absurd h hmissing
    cases hparent : input.parent with
    | none => simp [throw, throwThe, MonadExceptOf.throw]
    | some parent =>
      cases hd : tree.resolve cwd parent with
      | error e => simp [Except.mapError, bind, Except.bind, hd]
      | ok dir =>
        cases hn : input.fileName with
        | none => simp [hd, Except.mapError, bind, Except.bind, throw, throwThe, MonadExceptOf.throw]
        | some name =>
          simp only [hd, Except.mapError, bind, Except.bind, requireContained_ok, Option.some.injEq]
          constructor
          · rintro ⟨rfl, hroot⟩
            exact ⟨⟨parent, dir, name, rfl, hd, rfl, rfl⟩, hroot, hfree⟩
          · rintro ⟨⟨_, dir', _, rfl, hdir, rfl, rfl⟩, hroot, -⟩
            rw [hd] at hdir
            cases hdir
            exact ⟨rfl, hroot⟩

end Containment
