import MeridianMcp.Effects.FileSystem

namespace Effects

inductive FsOp (N : Type) where
  | lstat (p : Path N)
  | stat (p : Path N)
  | measure (p : Path N)
  | canonicalize (p : Path N)
  | readTree (p : Path N)
  | createDirAll (p : Path N)
  | createNew (p : Path N)
  | openFile (p : Path N)
  | append (p : Path N) (bytes : Bytes)
  | sync (p : Path N)
  | lock (p : Path N)
  | read (p : Path N)
  | rename (p q : Path N)
  | remove (p : Path N)
  | random
  deriving DecidableEq

-- `canonicalize` answers `none` where the path leaves the tree through a link.
@[reducible] def FsOp.Res {N : Type} [DecidableEq N] : FsOp N → Type
  | .lstat _ => Metadata
  | .stat _ => FileKind
  | .measure _ => Nat
  | .canonicalize _ => Option (Path N)
  | .readTree _ => FinMap (Path N) FileKind
  | .read _ => Bytes
  | .random => Bytes
  | _ => Unit

namespace FileSystem

variable {N : Type} [DecidableEq N]

def stat (fs : FileSystem N) (p : Path N) : Except IoError FileKind :=
  match fs.node p with
  | none => .error .notFound
  | some (.file _) => .ok .file
  | some .dir => .ok .dir
  | some (.symlink none) => .error .notFound
  | some (.symlink (some kind)) => .ok kind

def measure (fs : FileSystem N) (p : Path N) : Except IoError Nat :=
  match fs.node p with
  | none => .error .notFound
  | some (.file bytes) => .ok bytes.length
  | some (.symlink none) => .error .notFound
  | some _ => .ok 0

def present (fs : FileSystem N) (p : Path N) : Bool := (fs.stat p).isOk

def below (fs : FileSystem N) (p : Path N) : FinMap (Path N) FileKind :=
  FinMap.ofKeys
    (fun q => if p <+: q ∧ p ≠ q then (fs.node q).map (fun v => v.metadata.kind) else none)
    fs.nodes.keys (by
      intro q hq
      rw [fs.nodes.mem_keys]
      intro h
      simp [node, h] at hq)

def rename (fs : FileSystem N) (p q : Path N) : Except IoError (FileSystem N) :=
  match fs.node p with
  | none => .error .notFound
  | some v =>
    if hpq : p = q then .ok fs
    else if hdir : fs.node p = some .dir then
      if h : Movable fs p q then .ok (fs.move p q h) else .error .invalidInput
    else if h : Placeable fs q then
      .ok ((fs.put q v h).drop p (by rwa [node_put, Function.update_of_ne hpq]))
    else .error .isADirectory

def lstat (fs : FileSystem N) (p : Path N) : Except IoError Metadata :=
  match fs.node p with
  | none => .error .notFound
  | some v => .ok v.metadata

def canonicalize (fs : FileSystem N) (p : Path N) : Except IoError (Option (Path N)) :=
  match fs.node p with
  | none => .error .notFound
  | some (.symlink none) => .error .notFound
  | some (.symlink (some _)) => .ok none
  | some _ => .ok (some p)

def readTree (fs : FileSystem N) (p : Path N) : Except IoError (FinMap (Path N) FileKind) :=
  if fs.node p = some .dir then .ok (fs.below p) else .error .notADirectory

def createDirAll (fs : FileSystem N) (p : Path N) : Except IoError (FileSystem N) :=
  if h : Openable fs p then .ok (fs.mkdirs p h) else .error .notADirectory

def createNew (fs : FileSystem N) (p : Path N) : Except IoError (FileSystem N) :=
  if fs.node p ≠ none then .error .alreadyExists
  else if h : Placeable fs p then .ok (fs.put p (.file []) h)
  else .error .notFound

def openFile (fs : FileSystem N) (p : Path N) : Except IoError Unit :=
  match fs.stat p with
  | .ok .file => .ok ()
  | .ok _ => .error .isADirectory
  | .error e => .error e

def append (fs : FileSystem N) (p : Path N) (bytes : Bytes) : Except IoError (FileSystem N) :=
  match fs.node p with
  | some (.file old) =>
    if h : Placeable fs p then .ok (fs.put p (.file (old ++ bytes)) h) else .error .notFound
  | _ => .error .notFound

def read (fs : FileSystem N) (p : Path N) : Except IoError Bytes :=
  match fs.node p with
  | some (.file bytes) => .ok bytes
  | some .dir => .error .isADirectory
  | _ => .error .notFound

def remove (fs : FileSystem N) (p : Path N) : Except IoError (FileSystem N) :=
  if fs.node p = none then .error .notFound
  else if h : fs.node p ≠ some .dir then .ok (fs.drop p h)
  else .error .isADirectory

theorem present_iff {fs : FileSystem N} {p : Path N} :
    fs.present p = true ↔ fs.node p ≠ none ∧ fs.node p ≠ some (.symlink none) := by
  unfold present stat
  rcases fs.node p with _ | (b | _ | _ | k) <;> simp [Except.isOk, Except.toBool]

theorem present_congr {fs t : FileSystem N} {p : Path N} (h : fs.node p = t.node p) :
    fs.present p = t.present p := by
  simp only [present, stat, h]

theorem not_present_of_none {fs : FileSystem N} {p : Path N} (h : fs.node p = none) :
    fs.present p = false := by
  rw [← Bool.not_eq_true, present_iff]
  exact fun hp => hp.1 h

theorem lstat_of_present {fs : FileSystem N} {p : Path N} (h : fs.present p = true) :
    ∃ v, fs.node p = some v ∧ fs.lstat p = .ok v.metadata := by
  obtain ⟨v, hv⟩ := Option.ne_none_iff_exists'.mp (present_iff.mp h).1
  exact ⟨v, hv, by simp [lstat, hv]⟩

theorem canonicalize_of_present {fs : FileSystem N} {p : Path N} (h : fs.present p = true) :
    ∃ target, fs.canonicalize p = .ok target := by
  obtain ⟨hnone, hdangling⟩ := present_iff.mp h
  unfold canonicalize
  rcases hv : fs.node p with _ | (b | _ | _ | k)
  · exact absurd hv hnone
  · exact ⟨_, rfl⟩
  · exact ⟨_, rfl⟩
  · exact absurd hv hdangling
  · exact ⟨_, rfl⟩

def exec (fs : FileSystem N) (entropy : Bytes) :
    (o : FsOp N) → Except IoError (o.Res × FileSystem N)
  | .lstat p => (fs.lstat p).map (·, fs)
  | .stat p => (fs.stat p).map (·, fs)
  | .measure p => (fs.measure p).map (·, fs)
  | .canonicalize p => (fs.canonicalize p).map (·, fs)
  | .readTree p => (fs.readTree p).map (·, fs)
  | .createDirAll p => (fs.createDirAll p).map ((), ·)
  | .createNew p => (fs.createNew p).map ((), ·)
  | .openFile p => (fs.openFile p).map (·, fs)
  | .append p bytes => (fs.append p bytes).map ((), ·)
  | .sync p => (fs.openFile p).map (·, fs)
  | .lock p => (fs.openFile p).map (·, fs)
  | .read p => (fs.read p).map (·, fs)
  | .rename p q => (fs.rename p q).map ((), ·)
  | .remove p => (fs.remove p).map ((), ·)
  | .random => .ok (entropy, fs)

section siblings

variable {fs : FileSystem N} {par : Path N} {a b : N} {v : Node}

omit [DecidableEq N] in
theorem sibling_prefix_iff : par ++ [a] <+: par ++ [b] ↔ a = b := by
  constructor
  · intro h
    have heq := h.eq_of_length (by simp)
    simpa using heq
  · rintro rfl
    exact List.prefix_rfl

theorem createNew_ok (hpar : fs.node par = some .dir) (ha : fs.node (par ++ [a]) = none) :
    ∃ t, fs.createNew (par ++ [a]) = .ok t ∧
      t.node = Function.update fs.node (par ++ [a]) (some (.file [])) := by
  have hplace : Placeable fs (par ++ [a]) := ⟨by simp, by simpa using hpar, by simp [ha]⟩
  exact ⟨fs.put _ _ hplace, by simp [createNew, ha, hplace], node_put ..⟩

theorem append_ok (hpar : fs.node par = some .dir) {old : Bytes}
    (ha : fs.node (par ++ [a]) = some (.file old)) (bytes : Bytes) :
    ∃ t, fs.append (par ++ [a]) bytes = .ok t ∧
      t.node = Function.update fs.node (par ++ [a]) (some (.file (old ++ bytes))) := by
  have hplace : Placeable fs (par ++ [a]) := ⟨by simp, by simpa using hpar, by simp [ha]⟩
  exact ⟨fs.put _ _ hplace, by simp [append, ha, hplace], node_put ..⟩

theorem rename_replace (hpar : fs.node par = some .dir) (ha : fs.node (par ++ [a]) = some v)
    (hv : v ≠ .dir) (hab : a ≠ b) (hb : fs.node (par ++ [b]) ≠ some .dir) :
    ∃ t, fs.rename (par ++ [a]) (par ++ [b]) = .ok t ∧
      t.node = Function.update (Function.update fs.node (par ++ [b]) (some v)) (par ++ [a]) none := by
  have hplace : Placeable fs (par ++ [b]) := ⟨by simp, by simpa using hpar, hb⟩
  refine ⟨(fs.put _ v hplace).drop (par ++ [a]) ?_, ?_, rfl⟩
  · rw [node_put, Function.update_of_ne (by simpa using hab), ha]
    simpa using hv
  · simp [rename, ha, hab, hv, hplace]

theorem rename_to_dir (ha : fs.node (par ++ [a]) = some v) (hv : v ≠ .dir)
    (hb : fs.node (par ++ [b]) = some .dir) :
    ∃ e, fs.rename (par ++ [a]) (par ++ [b]) = .error e := by
  have hab : a ≠ b := by
    rintro rfl
    exact hv (by simpa [ha] using hb)
  have hplace : ¬ Placeable fs (par ++ [b]) := fun h => h.2.2 hb
  exact ⟨.isADirectory, by simp [rename, ha, hab, hv, hplace]⟩

theorem rename_away (hpar : fs.node par = some .dir) (ha : fs.node (par ++ [a]) = some v)
    (hab : a ≠ b) (hb : fs.node (par ++ [b]) = none) :
    ∃ t, fs.rename (par ++ [a]) (par ++ [b]) = .ok t ∧ t.node (par ++ [a]) = none ∧
      t.node (par ++ [b]) = some v ∧
      ∀ q, ¬ par ++ [a] <+: q → ¬ par ++ [b] <+: q → t.node q = fs.node q := by
  by_cases hv : v = .dir
  · subst hv
    have hmove : Movable fs (par ++ [a]) (par ++ [b]) :=
      ⟨by simp, by simpa using hpar, hb, by simpa [sibling_prefix_iff] using hab⟩
    refine ⟨fs.move _ _ hmove, by simp [rename, ha, hab, hmove], ?_, ?_, ?_⟩
    · simp [moved, Ne.symm hab]
    · have hmoved := moved_append fs.node (par ++ [a]) (par ++ [b]) []
      simpa [ha] using hmoved
    · intro q hqa hqb
      exact moved_other _ hqb hqa
  · obtain ⟨t, ht, hnode⟩ := rename_replace hpar ha hv hab (by simp [hb])
    refine ⟨t, ht, by simp [hnode], ?_, ?_⟩
    · rw [hnode, Function.update_of_ne (by simpa using Ne.symm hab), Function.update_self]
    · intro q hqa hqb
      rw [hnode, Function.update_of_ne, Function.update_of_ne]
      · rintro rfl
        exact hqb List.prefix_rfl
      · rintro rfl
        exact hqa List.prefix_rfl

theorem remove_ok (ha : fs.node (par ++ [a]) = some v) (hv : v ≠ .dir) :
    ∃ t, fs.remove (par ++ [a]) = .ok t ∧ t.node = Function.update fs.node (par ++ [a]) none := by
  have hdir : fs.node (par ++ [a]) ≠ some .dir := by simpa [ha] using hv
  exact ⟨fs.drop _ hdir, by simp [remove, ha, hv], rfl⟩

end siblings

theorem createNew_other {fs t : FileSystem N} {p q : Path N} (h : fs.createNew p = .ok t)
    (hq : q ≠ p) : t.node q = fs.node q := by
  unfold createNew at h
  split at h
  · cases h
  · split at h
    · cases h
      rw [node_put, Function.update_of_ne hq]
    · cases h

theorem append_other {fs t : FileSystem N} {p q : Path N} {bytes : Bytes}
    (h : fs.append p bytes = .ok t) (hq : q ≠ p) : t.node q = fs.node q := by
  unfold append at h
  split at h
  · split at h
    · cases h
      rw [node_put, Function.update_of_ne hq]
    · cases h
  · cases h

theorem rename_target {fs t : FileSystem N} {p q : Path N} (h : fs.rename p q = .ok t) :
    t.node q ≠ none := by
  unfold rename at h
  split at h
  · cases h
  · rename_i v hv
    split at h
    · rename_i hpq
      cases h
      rw [← hpq, hv]
      simp
    · rename_i hpq
      split at h
      · split at h
        · cases h
          have hmoved := moved_append fs.node p q []
          rw [List.append_nil, List.append_nil] at hmoved
          rw [node_move, hmoved, hv]
          simp
        · cases h
      · split at h
        · cases h
          rw [node_drop, Function.update_of_ne (Ne.symm hpq), node_put, Function.update_self]
          simp
        · cases h

theorem remove_other {fs t : FileSystem N} {p q : Path N} (h : fs.remove p = .ok t) (hq : q ≠ p) :
    t.node q = fs.node q := by
  unfold remove at h
  split at h
  · cases h
  · split at h
    · cases h
      rw [node_drop, Function.update_of_ne hq]
    · cases h

theorem map_state_ok {t : FileSystem N} {r : Except IoError (FileSystem N)} {v : Unit}
    (h : r.map ((), ·) = .ok (v, t)) : r = .ok t := by
  cases r with
  | error e => cases h
  | ok u =>
    cases h
    rfl

theorem map_value_ok {α : Type} {fs t : FileSystem N} {r : Except IoError α} {v : α}
    (h : r.map (·, fs) = .ok (v, t)) : r = .ok v ∧ t = fs := by
  cases r with
  | error e => cases h
  | ok u =>
    cases h
    exact ⟨rfl, rfl⟩

theorem openFile_file {fs : FileSystem N} {p : Path N} {b : Bytes} (h : fs.node p = some (.file b)) :
    fs.openFile p = .ok () := by
  simp [openFile, stat, h]

end FileSystem

end Effects
