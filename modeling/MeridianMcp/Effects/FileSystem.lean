import MeridianMcp.Effects.FinMap
import Mathlib.Data.List.Infix

namespace Effects

abbrev Bytes := List UInt8

abbrev Path (N : Type) := List N

inductive FileKind where
  | file | dir | symlink
  deriving DecidableEq, Repr

-- A link is either dangling or leads to a node of some kind outside the tree.
inductive Node where
  | file (bytes : Bytes)
  | dir
  | symlink (target : Option FileKind)
  deriving DecidableEq, Repr

structure Metadata where
  kind : FileKind
  len : Nat
  deriving DecidableEq, Repr

inductive IoError where
  | notFound | alreadyExists | isADirectory | notADirectory | invalidInput | other
  deriving DecidableEq, Repr

def Node.metadata : Node → Metadata
  | .file bytes => ⟨.file, bytes.length⟩
  | .dir => ⟨.dir, 0⟩
  | .symlink _ => ⟨.symlink, 0⟩

structure FileSystem (N : Type) [DecidableEq N] where
  nodes : FinMap (Path N) Node
  rooted : ∀ p n, nodes.get (p ++ [n]) ≠ none → nodes.get p = some .dir

namespace FileSystem

variable {N : Type} [DecidableEq N]

def node (fs : FileSystem N) : Path N → Option Node := fs.nodes.get

@[ext] theorem ext_node {fs fs' : FileSystem N} (h : fs.node = fs'.node) : fs = fs' := by
  obtain ⟨m, hm⟩ := fs
  obtain ⟨m', hm'⟩ := fs'
  obtain rfl : m = m' := FinMap.ext_get (congrFun h)
  rfl

theorem prefix_dir {fs : FileSystem N} {p q : Path N} (hpq : p <+: q) (hne : p ≠ q)
    (h : fs.node q ≠ none) : fs.node p = some .dir := by
  obtain ⟨t, rfl⟩ := hpq
  induction t using List.reverseRecOn with
  | nil => simp at hne
  | append_singleton t n ih =>
    have hparent : fs.node (p ++ t) = some .dir := fs.rooted (p ++ t) n (by
      rw [List.append_assoc]
      exact h)
    by_cases ht : t = []
    · simpa [ht] using hparent
    · exact ih (by simpa using ht) (by simp [hparent])

def empty : FileSystem N where
  nodes := FinMap.empty.insert [] .dir
  rooted p n h := by simp [FinMap.empty] at h

@[simp] theorem node_empty : (empty : FileSystem N).node = Function.update (fun _ => none) [] (some .dir) :=
  rfl

def Placeable (fs : FileSystem N) (p : Path N) : Prop :=
  p ≠ [] ∧ fs.node p.dropLast = some .dir ∧ fs.node p ≠ some .dir

instance (fs : FileSystem N) (p : Path N) : Decidable (Placeable fs p) :=
  inferInstanceAs (Decidable (_ ∧ _ ∧ _))

def put (fs : FileSystem N) (p : Path N) (v : Node) (h : Placeable fs p) : FileSystem N where
  nodes := fs.nodes.insert p v
  rooted q n hq := by
    rw [FinMap.get_insert] at hq ⊢
    obtain ⟨hne, hparent, hdir⟩ := h
    by_cases hqp : q ++ [n] = p
    · subst hqp
      rw [List.dropLast_concat] at hparent
      rw [Function.update_of_ne (by simp)]
      exact hparent
    · rw [Function.update_of_ne hqp] at hq
      have hqdir := fs.rooted q n hq
      rw [Function.update_of_ne]
      · exact hqdir
      · rintro rfl
        exact hdir hqdir

@[simp] theorem node_put (fs : FileSystem N) (p : Path N) (v : Node) (h : Placeable fs p) :
    (fs.put p v h).node = Function.update fs.node p (some v) := rfl

def drop (fs : FileSystem N) (p : Path N) (h : fs.node p ≠ some .dir) : FileSystem N where
  nodes := fs.nodes.erase p
  rooted q n hq := by
    rw [FinMap.get_erase] at hq ⊢
    have hqp : q ++ [n] ≠ p := by
      rintro rfl
      simp at hq
    rw [Function.update_of_ne hqp] at hq
    have hqdir := fs.rooted q n hq
    rw [Function.update_of_ne]
    · exact hqdir
    · rintro rfl
      exact h hqdir

@[simp] theorem node_drop (fs : FileSystem N) (p : Path N) (h : fs.node p ≠ some .dir) :
    (fs.drop p h).node = Function.update fs.node p none := rfl

def Openable (fs : FileSystem N) (p : Path N) : Prop :=
  ∀ q ∈ p.inits, fs.node q = none ∨ fs.node q = some .dir

instance (fs : FileSystem N) (p : Path N) : Decidable (Openable fs p) :=
  inferInstanceAs (Decidable (∀ q ∈ p.inits, _))

def mkdirs (fs : FileSystem N) (p : Path N) (h : Openable fs p) : FileSystem N where
  nodes := FinMap.ofKeys
    (fun q => if q <+: p ∧ fs.node q = none then some .dir else fs.node q)
    (fs.nodes.keys ∪ p.inits.toFinset) (by
      intro q hq
      by_cases hqp : q <+: p
      · exact Finset.mem_union_right _ (by simpa using hqp)
      · simp only [hqp, false_and, if_false] at hq
        exact Finset.mem_union_left _ ((fs.nodes.mem_keys q).mpr hq))
  rooted q n hq := by
    simp only [FinMap.get_ofKeys] at hq ⊢
    by_cases hqp : q ++ [n] <+: p
    · have hq' : q <+: p := (List.prefix_append q [n]).trans hqp
      rcases h q (by simpa using hq') with hnone | hdir
      · simp [hq', hnone]
      · simp [hdir]
    · simp only [hqp, false_and, if_false] at hq
      have hdir : fs.node q = some .dir := fs.rooted q n hq
      simp [hdir]

@[simp] theorem node_mkdirs (fs : FileSystem N) (p : Path N) (h : Openable fs p) (q : Path N) :
    (fs.mkdirs p h).node q = if q <+: p ∧ fs.node q = none then some .dir else fs.node q := rfl

def Movable (fs : FileSystem N) (p q : Path N) : Prop :=
  q ≠ [] ∧ fs.node q.dropLast = some .dir ∧ fs.node q = none ∧ ¬ p <+: q

instance (fs : FileSystem N) (p q : Path N) : Decidable (Movable fs p q) :=
  inferInstanceAs (Decidable (_ ∧ _ ∧ _ ∧ _))

def moved (f : Path N → Option Node) (p q x : Path N) : Option Node :=
  if q <+: x then f (p ++ x.drop q.length) else if p <+: x then none else f x

theorem moved_append (f : Path N → Option Node) (p q t : Path N) :
    moved f p q (q ++ t) = f (p ++ t) := by
  simp [moved]

theorem moved_other (f : Path N → Option Node) {p q x : Path N} (hq : ¬ q <+: x) (hp : ¬ p <+: x) :
    moved f p q x = f x := by
  simp [moved, hq, hp]

def move (fs : FileSystem N) (p q : Path N) (h : Movable fs p q) : FileSystem N where
  nodes := FinMap.ofKeys (moved fs.node p q)
    (fs.nodes.keys ∪ fs.nodes.keys.image (fun x => q ++ x.drop p.length)) (by
      intro x hx
      by_cases hqx : q <+: x
      · obtain ⟨t, rfl⟩ := hqx
        rw [moved_append] at hx
        refine Finset.mem_union_right _ (Finset.mem_image.mpr ⟨p ++ t, ?_, by simp⟩)
        exact (fs.nodes.mem_keys _).mpr hx
      · by_cases hpx : p <+: x
        · simp [moved, hqx, hpx] at hx
        · rw [moved_other _ hqx hpx] at hx
          exact Finset.mem_union_left _ ((fs.nodes.mem_keys _).mpr hx))
  rooted x n hx := by
    simp only [FinMap.get_ofKeys] at hx ⊢
    obtain ⟨hne, hparent, hnone, hpq⟩ := h
    by_cases hqx : q <+: x
    · obtain ⟨t, rfl⟩ := hqx
      rw [List.append_assoc, moved_append, ← List.append_assoc] at hx
      rw [moved_append]
      exact fs.rooted _ _ hx
    · by_cases hpx : p <+: x
      · have hqn : q = x ++ [n] := by
          by_contra hqn
          have hqx' : ¬ q <+: x ++ [n] := by
            rw [List.prefix_concat_iff]
            rintro (h | h)
            · exact hqn h
            · exact hqx h
          simp [moved, hqx', hpx.trans (List.prefix_append x [n])] at hx
        exact absurd (hqn ▸ hpx.trans (List.prefix_append x [n])) hpq
      · rw [moved_other _ hqx hpx]
        by_cases hqn : q = x ++ [n]
        · rw [hqn, List.dropLast_concat] at hparent
          exact hparent
        · have hqx' : ¬ q <+: x ++ [n] := by
            rw [List.prefix_concat_iff]
            rintro (h | h)
            · exact hqn h
            · exact hqx h
          by_cases hpn : p <+: x ++ [n]
          · simp [moved, hqx', hpn] at hx
          · rw [moved_other _ hqx' hpn] at hx
            exact fs.rooted _ _ hx

@[simp] theorem node_move (fs : FileSystem N) (p q : Path N) (h : Movable fs p q) :
    (fs.move p q h).node = moved fs.node p q := rfl

end FileSystem

end Effects
