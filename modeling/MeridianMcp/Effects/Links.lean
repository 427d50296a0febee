import MeridianMcp.Effects.FsOps
import Mathlib.Data.List.DropRight

namespace Effects

-- `here` is a single dot, or nothing between two separators or after the last one.
inductive Seg (N : Type) where
  | here
  | up
  | name (n : N)
  deriving DecidableEq, Repr

structure Route (N : Type) where
  absolute : Bool
  segs : List (Seg N)
  deriving DecidableEq, Repr

inductive LinkedNode (N : Type) where
  | file (bytes : Bytes)
  | dir
  | symlink (target : Route N)
  deriving DecidableEq, Repr

structure LinkedTree (N : Type) [DecidableEq N] where
  nodes : FinMap (Path N) (LinkedNode N)
  root : nodes.get [] = some .dir
  rooted : ∀ p n, nodes.get (p ++ [n]) ≠ none → nodes.get p = some .dir

inductive Stop (N : Type) where
  | reached (p : Path N)
  | link (start : Path N) (segs : List (Seg N))

variable {N : Type}

def Route.ofPath (p : Path N) : Route N := ⟨true, p.map .name⟩

-- The empty path leads nowhere, not even to the current directory.
def Route.start (route : Route N) (cwd : Path N) : Except IoError (Path N) :=
  if route.absolute then .ok []
  else if route.segs = [] then .error .notFound
  else .ok cwd

-- Components leave out the dots, except one that a relative path begins with.
def Route.trim [DecidableEq N] (absolute : Bool) (segs : List (Seg N)) : List (Seg N) :=
  let kept := segs.rdropWhile (· = .here)
  if kept = [] ∧ absolute = false then segs.take 1 else kept

def Route.parent [DecidableEq N] (route : Route N) : Option (Route N) :=
  let components := Route.trim route.absolute route.segs
  if components = [] then none
  else some ⟨route.absolute, Route.trim route.absolute components.dropLast⟩

def Route.fileName [DecidableEq N] (route : Route N) : Option N :=
  match (Route.trim route.absolute route.segs).getLast? with
  | some (.name n) => some n
  | _ => none

def maxLinks : Nat := 40

namespace LinkedTree

variable [DecidableEq N] (tree : LinkedTree N)

def node : Path N → Option (LinkedNode N) := tree.nodes.get

def empty : LinkedTree N where
  nodes := FinMap.empty.insert [] .dir
  root := by simp
  rooted p n h := by simp [FinMap.empty] at h

def place (dir : Path N) (name : N) (v : LinkedNode N) (hdir : tree.node dir = some .dir)
    (hfree : tree.node (dir ++ [name]) = none) : LinkedTree N where
  nodes := tree.nodes.insert (dir ++ [name]) v
  root := by
    rw [FinMap.get_insert, Function.update_of_ne (by simp)]
    exact tree.root
  rooted q n hq := by
    rw [FinMap.get_insert] at hq ⊢
    by_cases hqn : q ++ [n] = dir ++ [name]
    · obtain ⟨rfl, -⟩ := List.append_inj' hqn rfl
      rw [Function.update_of_ne (by simp)]
      exact hdir
    · rw [Function.update_of_ne hqn] at hq
      have hqdir := tree.rooted q n hq
      rw [Function.update_of_ne]
      · exact hqdir
      · rintro rfl
        rw [node, hqdir] at hfree
        cases hfree

def step (cur : Path N) (seg : Seg N) : Except IoError (Stop N) :=
  if tree.node cur = some .dir then
    match seg with
    | .here => .ok (.reached cur)
    | .up => .ok (.reached cur.dropLast)
    | .name n =>
      match tree.node (cur ++ [n]) with
      | none => .error .notFound
      | some (.symlink target) => (target.start cur).map (.link · target.segs)
      | some _ => .ok (.reached (cur ++ [n]))
  else .error .notADirectory

def walkWith (follow : Path N → List (Seg N) → Except IoError (Nat × Path N)) (left : Nat) :
    Path N → List (Seg N) → Except IoError (Nat × Path N)
  | cur, [] => .ok (left, cur)
  | cur, seg :: rest =>
    match tree.step cur seg with
    | .error e => .error e
    | .ok (.reached next) => walkWith follow left next rest
    | .ok (.link start segs) => follow start (segs ++ rest)

-- The number is that of the links which may still be followed.
def walk : Nat → Path N → List (Seg N) → Except IoError (Nat × Path N)
  | 0 => tree.walkWith (fun _ _ => .error .other) 0
  | left + 1 => tree.walkWith (walk left) (left + 1)

def resolve (cwd : Path N) (route : Route N) : Except IoError (Path N) := do
  let start ← route.start cwd
  let reached ← tree.walk maxLinks start route.segs
  pure reached.2

def resolves (cwd : Path N) (route : Route N) : Bool := (tree.resolve cwd route).isOk

-- What a canonical name shows of a node: of a link, the kind it leads to.
def look (p : Path N) : LinkedNode N → Node
  | .file bytes => .file bytes
  | .dir => .dir
  | .symlink _ => .symlink (match tree.resolve [] (.ofPath p) with
    | .error _ => none
    | .ok q => match tree.node q with
      | some (.file _) => some .file
      | some .dir => some .dir
      | _ => none)

def view : FileSystem N where
  nodes := FinMap.ofKeys (fun p => (tree.node p).map (tree.look p)) tree.nodes.keys (by
    intro p hp
    refine (tree.nodes.mem_keys p).mpr fun hnone => hp ?_
    rw [node, hnone]
    rfl)
  rooted p n h := by
    simp only [FinMap.get_ofKeys, ne_eq, Option.map_eq_none_iff] at h ⊢
    rw [show tree.node p = some .dir from tree.rooted p n h]
    rfl

@[simp] theorem node_view (p : Path N) : tree.view.node p = (tree.node p).map (tree.look p) := rfl

def Canonical (p : Path N) : Prop :=
  tree.node p ≠ none ∧ ∀ q, q <+: p → ∀ target, tree.node q ≠ some (.symlink target)

variable {tree} {cur start p q : Path N} {seg : Seg N} {segs s t : List (Seg N)} {left l : Nat}
  {follow : Path N → List (Seg N) → Except IoError (Nat × Path N)} {cwd : Path N} {route : Route N}

theorem prefix_dir (hpq : p <+: q) (hne : p ≠ q) (h : tree.node q ≠ none) :
    tree.node p = some .dir := by
  obtain ⟨u, rfl⟩ := hpq
  induction u using List.reverseRecOn with
  | nil => simp at hne
  | append_singleton u n ih =>
    have hparent : tree.node (p ++ u) = some .dir := tree.rooted (p ++ u) n (by
      rw [List.append_assoc]
      exact h)
    by_cases hu : u = []
    · simpa [hu] using hparent
    · exact ih (by simpa using hu) (by simp [hparent])

theorem canonical_of_node (h : tree.node p ≠ none) (hlink : ∀ target, tree.node p ≠ some (.symlink target)) :
    tree.Canonical p := by
  refine ⟨h, fun q hq target hq' => ?_⟩
  by_cases hne : q = p
  · exact hlink target (hne ▸ hq')
  · rw [prefix_dir hq hne h] at hq'
    cases hq'

theorem canonical_dir (h : tree.node p = some .dir) : tree.Canonical p :=
  canonical_of_node (by simp [h]) (by simp [h])

theorem canonical_cases (h : tree.Canonical p) :
    tree.node p = some .dir ∨ ∃ bytes, tree.node p = some (.file bytes) := by
  obtain ⟨hnode, hlink⟩ := h
  cases hv : tree.node p with
  | none => exact absurd hv hnode
  | some v =>
    cases v with
    | file bytes => exact .inr ⟨bytes, rfl⟩
    | dir => exact .inl rfl
    | symlink target => exact absurd hv (hlink p List.prefix_rfl target)

theorem canonical_prefix (h : tree.Canonical p) (hq : q <+: p) : tree.Canonical q := by
  by_cases hne : q = p
  · exact hne ▸ h
  · exact canonical_dir (prefix_dir hq hne h.1)

theorem dropLast_dir (h : tree.node p = some .dir) : tree.node p.dropLast = some .dir := by
  by_cases hp : p = []
  · rw [hp]
    exact tree.root
  · refine prefix_dir (List.dropLast_prefix p) (fun hdrop => hp ?_) (by simp [h])
    have hlen := congrArg List.length hdrop
    rw [List.length_dropLast] at hlen
    exact List.length_eq_zero_iff.mp (by omega)

theorem step_reached (h : tree.step cur seg = .ok (.reached p)) : tree.Canonical p := by
  unfold step at h
  split at h
  · rename_i hdir
    cases seg with
    | here =>
      cases h
      exact canonical_dir hdir
    | up =>
      cases h
      exact canonical_dir (dropLast_dir hdir)
    | name n =>
      simp only at h
      split at h
      · cases h
      · rename_i target _
        cases hs : target.start cur <;> simp [hs, Except.map] at h
      · rename_i v hlink hv
        cases h
        exact canonical_of_node (by simp [hv]) (fun target ht => hlink target (by
          rw [hv] at ht
          exact Option.some.inj ht))
  · cases h

theorem start_canonical (hdir : tree.node cur = some .dir) (h : route.start cur = .ok p) :
    tree.Canonical p := by
  unfold Route.start at h
  split at h
  · cases h
    exact canonical_dir tree.root
  · split at h
    · cases h
    · cases h
      exact canonical_dir hdir

theorem step_link (h : tree.step cur seg = .ok (.link start segs)) : tree.Canonical start := by
  unfold step at h
  split at h
  · rename_i hdir
    cases seg with
    | here => cases h
    | up => cases h
    | name n =>
      simp only at h
      split at h
      · cases h
      · rename_i target _
        cases hs : target.start cur with
        | error e =>
          rw [hs] at h
          cases h
        | ok p =>
          rw [hs] at h
          cases h
          exact start_canonical hdir hs
      · cases h
  · cases h

theorem walkWith_canonical
    (hfollow : ∀ start segs l p, tree.Canonical start → follow start segs = .ok (l, p) → tree.Canonical p)
    (hcur : s = [] → tree.Canonical cur) (h : tree.walkWith follow left cur s = .ok (l, p)) :
    tree.Canonical p := by
  induction s generalizing cur with
  | nil =>
    cases h
    exact hcur rfl
  | cons seg rest ih =>
    rw [walkWith] at h
    split at h
    · cases h
    · rename_i next hstep
      exact ih (fun _ => step_reached hstep) h
    · rename_i start segs hstep
      exact hfollow _ _ _ _ (step_link hstep) h

theorem walk_canonical (hcur : s = [] → tree.Canonical cur) (h : tree.walk left cur s = .ok (l, p)) :
    tree.Canonical p := by
  induction left generalizing cur s l p with
  | zero => exact walkWith_canonical (fun _ _ _ _ _ hnone => (by cases hnone)) hcur h
  | succ left ih => exact walkWith_canonical (fun _ _ _ _ hs => ih fun _ => hs) hcur h

theorem resolve_canonical (h : tree.resolve cwd route = .ok p) : tree.Canonical p := by
  unfold resolve at h
  cases hs : route.start cwd with
  | error e =>
    rw [hs] at h
    cases h
  | ok start =>
    rw [hs] at h
    cases hw : tree.walk maxLinks start route.segs with
    | error e => simp [bind, Except.bind, hw] at h
    | ok reached =>
      simp only [bind, Except.bind, hw] at h
      cases h
      refine walk_canonical (fun hsegs => ?_) hw
      unfold Route.start at hs
      split at hs
      · cases hs
        exact canonical_dir tree.root
      · cases hs

theorem walkWith_canonical_path (h : tree.Canonical (cur ++ p)) :
    tree.walkWith follow left cur (p.map .name) = .ok (left, cur ++ p) := by
  induction p generalizing cur with
  | nil => rw [List.map_nil, walkWith, List.append_nil]
  | cons n p ih =>
    have hcur : tree.node cur = some .dir :=
      prefix_dir (List.prefix_append ..) (by simp) h.1
    have hsplit : cur ++ n :: p = cur ++ [n] ++ p := by rw [List.append_assoc, List.singleton_append]
    rw [hsplit] at h ⊢
    have hnext := canonical_prefix h (List.prefix_append (cur ++ [n]) p)
    have hstep : tree.step cur (.name n) = .ok (.reached (cur ++ [n])) := by
      rw [step, if_pos hcur]
      cases hnode : tree.node (cur ++ [n]) with
      | none => exact absurd hnode hnext.1
      | some v =>
        cases v with
        | symlink target => exact absurd hnode (hnext.2 _ (List.prefix_refl _) target)
        | file bytes => rfl
        | dir => rfl
    rw [List.map_cons, walkWith, hstep]
    exact ih h

-- A canonical path is its own canonical path.
theorem resolve_ofPath (h : tree.Canonical p) : tree.resolve cwd (.ofPath p) = .ok p := by
  have hwalk : tree.walk maxLinks [] (p.map .name) = .ok (maxLinks, p) :=
    @walkWith_canonical_path N _ tree [] p maxLinks _ h
  change (tree.walk maxLinks [] (p.map .name)).bind (fun reached => .ok reached.2) = .ok p
  rw [hwalk]
  rfl

end LinkedTree

end Effects
