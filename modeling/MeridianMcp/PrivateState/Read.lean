import MeridianMcp.PrivateState.Store

namespace PrivateState

open Effects Fallible

variable {S α : Type} {env : Env S} {fs : FileSystem String} {K : FileSystem String → Prop}

structure LockReady (env : Env S) (at_ : LockSite → S) (fs : FileSystem String) : Prop where
  regular : ∃ b, fs.node lockPath = some (.file b)
  sound : ∀ s, env.fault (at_ s) = false

variable (env fs) in
theorem lockOperation_settles (at_ : LockSite → S) (hK : K fs) :
    Settles env.serve (lockOperation at_) fs (LockReady env at_ fs) () fs K := by
  by_cases hreg : ∃ b, fs.node lockPath = some (.file b)
  · obtain ⟨b, hb⟩ := hreg
    have hlstat : fs.lstat lockPath = .ok ⟨.file, b.length⟩ := by
      simp [FileSystem.lstat, hb, Node.metadata]
    have hopen : fs.openFile lockPath = .ok () := by
      simp [FileSystem.openFile, FileSystem.stat, hb]
    have hinspect := fun s : LockSite =>
      (FsProg.settles_observe (FsProg.exec_lstat (at_ s) env fs lockPath) hlstat hK).adapt StoreError.io
    have hfile : ¬ FileKind.file ≠ .file := by simp
    refine ((hinspect .inspect).bind fun _ => Settles.orThrow hK fun _ =>
      ((FsProg.settles_observe (FsProg.exec_openFile (at_ .openLock) env fs lockPath) hopen hK).adapt
        _).bind fun _ => (hinspect .reinspect).bind fun _ => Settles.orThrow hK fun _ =>
      (FsProg.settles_observe (FsProg.exec_lock (at_ .acquire) env fs lockPath) hopen hK).adapt
        _).congr ?_
    constructor
    · rintro ⟨h1, -, h2, h3, -, h4⟩
      refine ⟨⟨b, hb⟩, ?_⟩
      rintro (_ | _ | _ | _) <;> assumption
    · rintro ⟨-, h⟩
      exact ⟨h _, hfile, h _, h _, hfile, h _⟩
  · refine Settles.congr ?_ (iff_of_false not_false (fun h => hreg h.regular))
    cases hl : fs.lstat lockPath with
    | error e =>
      exact (((FsProg.settles_observe_error (FsProg.exec_lstat (at_ .inspect) env fs lockPath) hl hK
        (a := ⟨.file, 0⟩) (t := fs)).adapt _).bind (P := False) (Q := True)
          (fun h => h.elim)).congr (by simp)
    | ok m =>
      have hm : m.kind ≠ .file := by
        intro hm
        apply hreg
        unfold FileSystem.lstat at hl
        split at hl
        · simp at hl
        · rename_i v hv
          cases v with
          | file b => exact ⟨b, hv⟩
          | dir => cases hl; simp [Node.metadata] at hm
          | symlink t => cases hl; simp [Node.metadata] at hm
      refine (((FsProg.settles_observe (FsProg.exec_lstat (at_ .inspect) env fs lockPath) hl
        hK).adapt _).bind (Q := False) fun _ => ?_).congr (by simp)
      rw [if_pos hm]
      exact Settles.throw hK

def ParentOk (env : Env S) (at_ : ResolveSite → S) (fs : FileSystem String) (parent : Path String) :
    Prop :=
  env.fault (at_ .parentExists) = false → fs.present parent = true →
    env.fault (at_ .canonicalizeParent) = false ∧ fs.canonicalize parent ≠ .ok none

def SlotOk (env : Env S) (at_ : ResolveSite → S) (fs : FileSystem String) (path : Path String) :
    Prop :=
  env.fault (at_ .pathExists) = false → fs.present path = true →
    env.fault (at_ .inspect) = false ∧ ∀ t, fs.node path ≠ some (.symlink t)

theorem settles_guarded {site : S} {p : Path String} {x : StoreProg S Unit} {P : Prop}
    (hx : fs.present p = true → Settles env.serve x fs P () fs K) :
    Settles env.serve (do if ← FsProg.pathExists site p then x else pure ()) fs
      (env.fault site = false → fs.present p = true → P) () fs K := by
  refine Settles.bind_sure (FsProg.exec_pathExists site env fs p) ?_
  by_cases hsees : (!env.fault site && fs.present p) = true
  · obtain ⟨hf, hp⟩ : env.fault site = false ∧ fs.present p = true := by simpa using hsees
    rw [if_pos hsees]
    exact (hx hp).congr (by simp [hf, hp])
  · rw [if_neg hsees]
    refine (Settles.pure ()).congr (iff_of_true trivial ?_)
    intro hf hp
    simp [hf, hp] at hsees

theorem checkParent_settles (at_ : ResolveSite → S) (parent : Path String) (hK : K fs) :
    Settles env.serve (checkParent at_ parent) fs (ParentOk env at_ fs parent) () fs K := by
  refine settles_guarded fun hp => ?_
  obtain ⟨target, htarget⟩ := FileSystem.canonicalize_of_present hp
  have hcanon := (FsProg.settles_observe
    (FsProg.exec_canonicalize (at_ .canonicalizeParent) env fs parent) htarget hK).adapt StoreError.io
  refine Settles.congr (hcanon.bind fun _ => Settles.orThrow hK fun _ => Settles.pure ()) ?_
  simp [htarget]

theorem checkSlot_settles (at_ : ResolveSite → S) (path : Path String) (hK : K fs) :
    Settles env.serve (checkSlot at_ path) fs (SlotOk env at_ fs path) () fs K := by
  refine settles_guarded fun hp => ?_
  obtain ⟨v, hv, hlstat⟩ := FileSystem.lstat_of_present hp
  have hinspect := (FsProg.settles_observe
    (FsProg.exec_lstat (at_ .inspect) env fs path) hlstat hK).adapt StoreError.io
  refine Settles.congr (hinspect.bind fun _ => Settles.orThrow hK fun _ => Settles.pure ()) ?_
  cases v <;> simp [hv, Node.metadata]

theorem checks_settle (at_ : ResolveSite → S) (path : Path String) (hK : K fs) :
    Settles env.serve (do
        checkParent at_ path.dropLast
        checkSlot at_ path
        pure path) fs
      (ParentOk env at_ fs path.dropLast ∧ SlotOk env at_ fs path) path fs K :=
  Settles.congr ((checkParent_settles at_ _ hK).bind fun _ =>
    (checkSlot_settles at_ _ hK).bind fun _ => Settles.pure _) (by simp)

variable (env) in
theorem resolveRecord_settles (at_ : ResolveSite → S) (relative : List Component) (hK : K fs) :
    Settles env.serve (resolveRecord at_ relative false) fs
      (¬ invalidName relative ∧ ParentOk env at_ fs (recordPath relative).dropLast ∧
        SlotOk env at_ fs (recordPath relative)) (recordPath relative) fs K :=
  Settles.orThrow hK fun _ => checks_settle at_ _ hK

variable (env) in
theorem resolveRecord_create_settles (at_ : ResolveSite → S) (relative : List Component)
    {t : FileSystem String} (ht : fs.createDirAll (recordPath relative).dropLast = .ok t)
    (hK : K fs) (hKt : K t) :
    Settles env.serve (resolveRecord at_ relative true) fs
      (¬ invalidName relative ∧ env.fault (at_ .createParent) = false ∧
        ParentOk env at_ t (recordPath relative).dropLast ∧
        SlotOk env at_ t (recordPath relative)) (recordPath relative) t K :=
  Settles.orThrow hK fun _ => ((FsProg.settles_change
    (FsProg.exec_createDirAll (at_ .createParent) env fs _) ht hK).adapt _).bind fun _ =>
      checks_settle at_ _ hKt

variable (env) in
theorem resolveRecord_create_blocked (at_ : ResolveSite → S) (relative : List Component)
    {e : IoError} (he : fs.createDirAll (recordPath relative).dropLast = .error e) (hK : K fs)
    (t : FileSystem String) :
    Settles env.serve (resolveRecord at_ relative true) fs False (recordPath relative) t K :=
  Settles.congr (Settles.orThrow hK fun _ => ((FsProg.settles_change_error (t := fs)
    (FsProg.exec_createDirAll (at_ .createParent) env fs _) he hK).adapt _).bind (Q := False)
      False.elim) (by simp)

end PrivateState

namespace PrivateState

open Effects Fallible

variable {S α : Type} {env : Env S} {fs : FileSystem String}

def slotValue (decode : Bytes → Option α) : Option Node → Except StoreError α
  | none => .error (.io .notFound)
  | some (.file b) =>
    if b.length > maxRecordBytes then
      .error (.message "private state record exceeds the 8 MiB limit")
    else match decode b with
      | some v => .ok v
      | none => .error .malformed
  | some .dir => .error (.message "private state record is not a regular file")
  | some (.symlink none) => .error (.message "private state record is not a regular file")
  | some (.symlink (some _)) => .error (.message "private state records cannot be symlinks")

def recordValue (decode : Bytes → Option α) : Option Node → Option Node → Option Node →
    Except StoreError α
  | some (.file _), some (.symlink (some _)), _ =>
    .error (.message "private state record escapes through a symlink or reparse point")
  | some (.file _), _, slot => slotValue decode slot
  | none, _, _ => .error (.io .notFound)
  | some _, _, _ => .error (.message "private state lock must be a regular file")

theorem recordValue_absent (decode : Bytes → Option α) (lock parent : Option Node) (v : α) :
    recordValue decode lock parent none ≠ .ok v := by
  rcases lock with _ | (_ | _ | _) <;> rcases parent with _ | (_ | _ | _ | _) <;>
    simp [recordValue, slotValue]

theorem exec_io_observe {x : FsProg S String IoError α} {site : S} {r : Except IoError α}
    (h : env.fault site = false) (hx : exec env.serve x fs = (env.observe site r, fs)) :
    exec env.serve (io x) fs = (r.mapError .io, fs) := by
  rw [io, exec_adapt, hx, Env.observe, h]
  rfl

variable (fs) in
theorem readJsonPath_clean (at_ : ReadSite → S) (decode : Bytes → Option α) (path : Path String)
    (h : ∀ s, env.fault s = false) (hlink : ∀ k, fs.node path ≠ some (.symlink (some k))) :
    exec env.serve (readJsonPath at_ decode path) fs = (slotValue decode (fs.node path), fs) := by
  have hinspect := exec_io_observe (h _) (FsProg.exec_lstat (at_ .inspect) env fs path)
  have hread := exec_io_observe (h _) (FsProg.exec_read (at_ .readAll) env fs path)
  unfold readJsonPath
  rcases hn : fs.node path with _ | (b | _ | _ | k)
  · rw [FileSystem.lstat, hn] at hinspect
    rw [exec_bind_error _ hinspect]
    rfl
  · rw [FileSystem.lstat, hn] at hinspect
    rw [FileSystem.read, hn] at hread
    rw [exec_bind_ok _ hinspect]
    by_cases hb : b.length > maxRecordBytes
    · simp [Node.metadata, slotValue, hb]
    · have htake : b.take (maxRecordBytes + 1) = b := List.take_of_length_le (by omega)
      simp only [Node.metadata, ne_eq, not_true_eq_false, if_false, hb, slotValue]
      rw [exec_bind_ok _ hread, htake, if_neg hb]
      cases decode b <;> rfl
  · rw [FileSystem.lstat, hn] at hinspect
    rw [exec_bind_ok _ hinspect]
    rfl
  · rw [FileSystem.lstat, hn] at hinspect
    rw [exec_bind_ok _ hinspect]
    rfl
  · exact absurd hn (hlink k)

theorem lockOperation_clean (at_ : LockSite → S) (h : ∀ s, env.fault s = false) :
    exec env.serve (lockOperation at_) fs =
      (match fs.node lockPath with
        | some (.file _) => .ok ()
        | none => .error (.io .notFound)
        | some _ => .error (.message "private state lock must be a regular file"), fs) := by
  rcases hn : fs.node lockPath with _ | (b | _ | t)
  · have hinspect := exec_io_observe (h _) (FsProg.exec_lstat (at_ .inspect) env fs lockPath)
    rw [FileSystem.lstat, hn] at hinspect
    rw [lockOperation, exec_bind_error _ hinspect]
  · exact (lockOperation_settles _ _ at_ (K := fun _ => True) trivial).1 ⟨⟨b, hn⟩, fun s => h _⟩
  · have hinspect := exec_io_observe (h _) (FsProg.exec_lstat (at_ .inspect) env fs lockPath)
    rw [FileSystem.lstat, hn] at hinspect
    rw [lockOperation, exec_bind_ok _ hinspect]
    rfl
  · have hinspect := exec_io_observe (h _) (FsProg.exec_lstat (at_ .inspect) env fs lockPath)
    rw [FileSystem.lstat, hn] at hinspect
    rw [lockOperation, exec_bind_ok _ hinspect]
    rfl

theorem checkParent_clean (at_ : ResolveSite → S) (parent : Path String)
    (h : ∀ s, env.fault s = false) :
    exec env.serve (checkParent at_ parent) fs =
      (match fs.node parent with
        | some (.symlink (some _)) =>
          .error (.message "private state record escapes through a symlink or reparse point")
        | _ => .ok (), fs) := by
  rw [checkParent, exec_bind_ok _ (FsProg.exec_pathExists _ env fs parent)]
  have hcanon := exec_io_observe (h _)
    (FsProg.exec_canonicalize (at_ .canonicalizeParent) env fs parent)
  rw [FileSystem.canonicalize] at hcanon
  rcases hn : fs.node parent with _ | (b | _ | _ | k) <;>
    simp only [h, hn, FileSystem.present, FileSystem.stat, Except.isOk, Except.toBool,
      Bool.not_false, Bool.true_and, if_true] at hcanon ⊢
  · rfl
  · rw [exec_bind_ok _ hcanon]
    rfl
  · rw [exec_bind_ok _ hcanon]
    rfl
  · rfl
  · rw [exec_bind_ok _ hcanon]
    rfl

theorem checkSlot_clean (at_ : ResolveSite → S) (path : Path String)
    (h : ∀ s, env.fault s = false) :
    exec env.serve (checkSlot at_ path) fs =
      (match fs.node path with
        | some (.symlink (some _)) => .error (.message "private state records cannot be symlinks")
        | _ => .ok (), fs) := by
  rw [checkSlot, exec_bind_ok _ (FsProg.exec_pathExists _ env fs path)]
  have hinspect := exec_io_observe (h _) (FsProg.exec_lstat (at_ .inspect) env fs path)
  rw [FileSystem.lstat] at hinspect
  rcases hn : fs.node path with _ | (b | _ | _ | k) <;>
    simp only [h, hn, FileSystem.present, FileSystem.stat, Except.isOk, Except.toBool,
      Bool.not_false, Bool.true_and, if_true] at hinspect ⊢
  · rfl
  · rw [exec_bind_ok _ hinspect]
    rfl
  · rw [exec_bind_ok _ hinspect]
    rfl
  · rfl
  · rw [exec_bind_ok _ hinspect]
    rfl

variable (fs) in
theorem checks_clean (at_ : ResolveSite → S) (path : Path String) (h : ∀ s, env.fault s = false) :
    exec env.serve (do
        checkParent at_ path.dropLast
        checkSlot at_ path
        pure path) fs =
      (match fs.node path.dropLast, fs.node path with
        | some (.symlink (some _)), _ =>
          .error (.message "private state record escapes through a symlink or reparse point")
        | _, some (.symlink (some _)) =>
          .error (.message "private state records cannot be symlinks")
        | _, _ => .ok path, fs) := by
  rw [exec_bind, checkParent_clean _ _ h]
  rcases fs.node path.dropLast with _ | (b | _ | _ | k)
  all_goals try rfl
  all_goals
    simp only
    rw [exec_bind, checkSlot_clean _ _ h]
    rcases fs.node path with _ | (b | _ | _ | k) <;> rfl

theorem readJson_clean (codec : JsonCodec α) (relative : List Component) {env : Env ReadSite}
    (h : ∀ s, env.fault s = false) (hname : ¬ invalidName relative) :
    exec env.serve (readJson codec relative) fs =
      (recordValue codec.decode (fs.node lockPath) (fs.node (recordPath relative).dropLast)
        (fs.node (recordPath relative)), fs) := by
  have hresolve : exec env.serve (resolveRecord (fun s => ReadSite.resolve s) relative false) fs =
      exec env.serve (do
        checkParent (fun s => ReadSite.resolve s) (recordPath relative).dropLast
        checkSlot (fun s => ReadSite.resolve s) (recordPath relative)
        pure (recordPath relative)) fs := by
    rw [resolveRecord, if_neg hname]
    rfl
  rw [readJson, exec_bind, lockOperation_clean _ h]
  rcases fs.node lockPath with _ | (b | _ | t)
  · rfl
  · change exec env.serve (resolveRecord (fun s => .resolve s) relative false >>=
      readJsonPath id codec.decode) fs = _
    rw [exec_bind, hresolve, checks_clean _ _ _ h]
    have hpath := readJsonPath_clean fs id codec.decode (recordPath relative) h
    rcases fs.node (recordPath relative).dropLast with _ | (b | _ | _ | k) <;>
      rcases hn : fs.node (recordPath relative) with _ | (b | _ | _ | k) <;>
      first | rfl | exact (hpath (by simp [hn])).trans (by rw [hn]; rfl)
  · rfl
  · rfl

end PrivateState
