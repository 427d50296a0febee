import MeridianMcp.PrivateState.Records
import MeridianMcp.PrivateState.Install

namespace PrivateState

open Effects Fallible FileSystem

variable {α : Type} {env : Env WriteSite} {fs s t : FileSystem String} {par : Path String}
  {n a : String} {codec : JsonCodec α} {K : FileSystem String → Prop}

def Written (env : Env WriteSite) : Prop :=
  ∀ site ∈ [WriteSite.writePayload, .writeNewline, .flush, .syncTemporary], env.fault site = false

structure Verified (env : Env WriteSite) (size : Nat) : Prop where
  parent : env.fault (.verify (.resolve .parentExists)) = false →
    env.fault (.verify (.resolve .canonicalizeParent)) = false
  slot : env.fault (.verify (.resolve .pathExists)) = false →
    env.fault (.verify (.resolve .inspect)) = false
  inspect : env.fault (.verify .inspect) = false
  readAll : env.fault (.verify .readAll) = false
  -- The check before the write admits one byte more: the newline is not counted there.
  fits : size < maxRecordBytes

theorem readJsonPath_settles {S β : Type} {env : Env S} (at_ : ReadSite → S)
    {decode : Bytes → Option β} {p : Path String} {b : Bytes} {v : β}
    (hp : t.node p = some (.file b)) (hdecode : decode b = some v) (hK : K t) :
    Settles env.serve (readJsonPath at_ decode p) t
      (env.fault (at_ .inspect) = false ∧ env.fault (at_ .readAll) = false ∧
        b.length ≤ maxRecordBytes) v t K := by
  have hlstat : t.lstat p = .ok ⟨.file, b.length⟩ := by simp [lstat, hp, Node.metadata]
  have hread : t.read p = .ok b := by simp [FileSystem.read, hp]
  have hinspect := (FsProg.settles_observe (FsProg.exec_lstat (at_ .inspect) env t p) hlstat
    hK).adapt StoreError.io
  have hreadAll := (FsProg.settles_observe (FsProg.exec_read (at_ .readAll) env t p) hread
    hK).adapt StoreError.io
  have hfile : ¬ FileKind.file ≠ .file := by simp
  by_cases hb : b.length ≤ maxRecordBytes
  · refine Settles.congr (hinspect.bind fun _ => Settles.orThrow hK fun _ => Settles.orThrow hK
      fun _ => hreadAll.bind (Q := True) fun _ => ?_) ?_
    · rw [List.take_of_length_le (by omega), if_neg (by omega), hdecode]
      exact Settles.pure v
    · simp [hb]
  · refine Settles.congr (hinspect.bind (Q := False) fun _ => ?_) (by simp [hb])
    exact Settles.congr (Settles.orThrow hK fun _ => Settles.orThrow (P := False) hK
      fun h => absurd (Nat.le_of_not_gt h) hb) (by simp)

theorem recordPath_concat {relative : List Component} (hname : ¬ invalidName relative) :
    ∃ par n, recordPath relative = par ++ [n] :=
  ⟨_, _, (List.dropLast_append_getLast (Records.recordPath_ne_nil hname)).symm⟩

theorem verify_settles {relative : List Component} {bytes : Bytes} (hname : ¬ invalidName relative)
    (hp : recordPath relative = par ++ [n]) (hpar : t.node par = some .dir)
    (hslot : t.node (par ++ [n]) = some (.file (bytes ++ [10])))
    (hparses : codec.parses (bytes ++ [10]) = true) (hK : K t) :
    Settles env.serve (readJsonUnlocked .verify codec.value relative) t (Verified env bytes.length) () t K := by
  have hdecode : codec.value (bytes ++ [10]) = some () := by simp [JsonCodec.value, hparses]
  have hresolve := resolveRecord_settles env (fun s => WriteSite.verify (.resolve s)) relative hK
  rw [hp] at hresolve
  refine Settles.congr (hresolve.bind fun _ =>
    readJsonPath_settles WriteSite.verify hslot hdecode hK) ?_
  have hpresent : t.present par = true := present_iff.mpr (by simp [hpar])
  have hpresent' : t.present (par ++ [n]) = true := present_iff.mpr (by simp [hslot])
  simp only [hname, ParentOk, SlotOk, List.dropLast_concat, hpresent, hpresent', canonicalize, hpar,
    hslot, not_false_eq_true, true_and, forall_const, List.length_append, List.length_singleton]
  constructor
  · rintro ⟨⟨h1, h2⟩, h3, h4, h5⟩
    exact ⟨fun h => (h1 h).1, fun h => (h2 h).1, h3, h4, h5⟩
  · rintro ⟨h1, h2, h3, h4, h5⟩
    exact ⟨⟨fun h => ⟨h1 h, by simp⟩, fun h => ⟨h2 h, by simp⟩⟩, h3, h4, h5⟩

def SameWatched (s u : FileSystem String) (p : Path String) : Prop :=
  ∀ q ∈ [lockPath, p.dropLast, p], u.node q = s.node q

theorem backsUp_congr {p : Path String} (h : t.node p = s.node p) :
    BacksUp env t p ↔ BacksUp env s p := by
  rw [BacksUp, BacksUp, present_congr h]

theorem lost_congr {p : Path String} (h : t.node p = s.node p) : Lost env t p ↔ Lost env s p := by
  rw [Lost, Lost, backsUp_congr h]

theorem installs_congr {p : Path String} (h : t.node p = s.node p) :
    Installs env t p ↔ Installs env s p := by
  rw [Installs, Installs, backsUp_congr h, h]

theorem completes_congr {p : Path String} (h : t.node p = s.node p) :
    Completes env t p ↔ Completes env s p := by
  rw [Completes, Completes, backsUp_congr h, h]

theorem SameWatched.slot {p : Path String} (h : SameWatched s t p) : t.node p = s.node p :=
  h p (by simp)

theorem SameWatched.shows {p : Path String} {v : Option Node} {u : FileSystem String}
    (h : SameWatched s t p) (hu : Shows t p v u) : Shows s p v u := by
  intro q hq
  rw [hu q hq]
  by_cases hqp : q = p
  · rw [hqp, Function.update_self, Function.update_self]
  · rw [Function.update_of_ne hqp, Function.update_of_ne hqp, h q hq]

theorem SameWatched.outcome {p : Path String} {content : Bytes} {u : FileSystem String}
    (h : SameWatched s t p) (hu : Outcome env t p content u) : Outcome env s p content u :=
  ⟨fun hl => h.shows (hu.lost ((lost_congr h.slot).mpr hl)),
    fun hi => h.shows (hu.installed ((installs_congr h.slot).mpr hi)),
    fun hl hi => by
      have hk := h.shows (hu.kept (fun hl' => hl ((lost_congr h.slot).mp hl')) (fun hi' => hi ((installs_congr h.slot).mp hi')))
      rwa [h.slot] at hk⟩

theorem SameWatched.symm {p : Path String} (h : SameWatched s t p) : SameWatched t s p :=
  fun q hq => (h q hq).symm

theorem SameWatched.kept {p : Path String} (h : SameWatched s t p) : Shows s p (s.node p) t := by
  intro q hq
  rw [Function.update_eq_self, h q hq]

theorem sameWatched_of_temporary {v : Option Node} (ha : a ≠ ".meridian-mcp.lock") (han : a ≠ n)
    (ht : t.node = Function.update s.node (par ++ [a]) v) : SameWatched s t (par ++ [n]) := by
  intro q hq
  rw [ht, Function.update_of_ne]
  rintro rfl
  rw [List.dropLast_concat] at hq
  exact watched_not_below hq ha han List.prefix_rfl

theorem Staging.append {content : Bytes} (hs : Staging env s par n a content) (extra : Bytes) :
    ∃ t, s.append (par ++ [a]) extra = .ok t ∧ Staging env t par n a (content ++ extra) ∧
      SameWatched s t (par ++ [n]) := by
  obtain ⟨t, ht, hnode⟩ := append_ok hs.parent hs.temporary extra
  have hsame := sameWatched_of_temporary hs.temporary_ne_lock hs.apart hnode
  refine ⟨t, ht, ⟨?_, ?_, ?_, hs.apart, hs.temporary_ne_backup, hs.backup_ne,
    hs.temporary_ne_lock⟩, hsame⟩
  · rw [hsame par (by simp), hs.parent]
  · rw [hnode, Function.update_self]
  · rw [hnode, Function.update_of_ne (by simpa [backupPath] using Ne.symm hs.temporary_ne_backup),
      hs.backup]

theorem write_settles (hs : Staging env s par n a []) (bytes : Bytes)
    (hK : ∀ u, SameWatched s u (par ++ [n]) → K u) :
    ∃ t, Staging env t par n a (bytes ++ [10]) ∧ SameWatched s t (par ++ [n]) ∧
      Settles env.serve (do
        io (FsProg.append WriteSite.writePayload (par ++ [a]) bytes)
        io (FsProg.append WriteSite.writeNewline (par ++ [a]) [10])
        io (FsProg.sync WriteSite.flush (par ++ [a]))
        io (FsProg.sync WriteSite.syncTemporary (par ++ [a])) : StoreProg WriteSite Unit) s
        (Written env) () t K := by
  obtain ⟨t₁, h₁, hs₁, hw₁⟩ := hs.append bytes
  obtain ⟨t₂, h₂, hs₂, hw₂⟩ := hs₁.append [10]
  have hw : SameWatched s t₂ (par ++ [n]) := fun q hq => (hw₂ q hq).trans (hw₁ q hq)
  have hopen := openFile_file hs₂.temporary
  refine ⟨t₂, by simpa using hs₂, hw, Settles.congr
    (((FsProg.settles_change (FsProg.exec_append WriteSite.writePayload env s _ bytes) h₁
      (hK s fun _ _ => rfl)).adapt StoreError.io).bind fun _ =>
    ((FsProg.settles_change (FsProg.exec_append WriteSite.writeNewline env t₁ _ [10]) h₂
      (hK t₁ hw₁)).adapt StoreError.io).bind fun _ =>
    ((FsProg.settles_observe (FsProg.exec_sync WriteSite.flush env t₂ _) hopen
      (hK t₂ hw)).adapt StoreError.io).bind fun _ =>
    (FsProg.settles_observe (FsProg.exec_sync WriteSite.syncTemporary env t₂ _) hopen
      (hK t₂ hw)).adapt StoreError.io) ?_⟩
  simp [Written]

structure Replaced (env : Env WriteSite) (s : FileSystem String) (p : Path String) (content : Bytes)
    (u : FileSystem String) : Prop where
  unwritten : ¬ Written env → Shows s p (s.node p) u
  written : Written env → Outcome env s p content u

theorem replaceRecord_eq (relative : List Component) (bytes : Bytes) (temporary output : Path String) :
    replaceRecord codec relative bytes temporary output = (do
      io (FsProg.append WriteSite.writePayload temporary bytes)
      io (FsProg.append WriteSite.writeNewline temporary [10])
      io (FsProg.sync WriteSite.flush temporary)
      io (FsProg.sync WriteSite.syncTemporary temporary)) >>= fun _ =>
        installTemporary temporary output >>= fun _ =>
          readJsonUnlocked .verify codec.value relative := by
  simp only [replaceRecord, bind_assoc]

theorem replaceRecord_settles {relative : List Component} {bytes : Bytes}
    (hname : ¬ invalidName relative) (hp : recordPath relative = par ++ [n])
    (hs : Staging env s par n a []) (hparses : codec.parses (bytes ++ [10]) = true) :
    ∃ t, (Installs env s (par ++ [n]) → Shows s (par ++ [n]) (some (.file (bytes ++ [10]))) t) ∧
      Settles env.serve (replaceRecord codec relative bytes (par ++ [a]) (par ++ [n])) s
        (Written env ∧ Installs env s (par ++ [n]) ∧ Completes env s (par ++ [n]) ∧
          Verified env bytes.length) () t
        (Replaced env s (par ++ [n]) (bytes ++ [10])) := by
  rw [replaceRecord_eq]
  obtain ⟨s₁, hs₁, hsame, hwrite⟩ := write_settles (K := fun u => SameWatched s u (par ++ [n])) hs
    bytes (fun _ => id)
  obtain ⟨t, ht, hinstall⟩ := installTemporary_settles hs₁
  have hnew : Installs env s (par ++ [n]) → Shows s (par ++ [n]) (some (.file (bytes ++ [10]))) t :=
    fun hi => hsame.shows (ht ((installs_congr hsame.slot).mpr hi))
  refine ⟨t, hnew, ?_⟩
  by_cases hw : Written env
  · have hreplaced := hinstall.mono (L := Replaced env s (par ++ [n]) (bytes ++ [10]))
      fun _ u hu => ⟨fun h => absurd hw h, fun _ => hsame.outcome hu⟩
    refine Settles.congr (Settles.bind_sure (hwrite.1 hw) (hreplaced.bind
      (Q := Verified env bytes.length) fun hdone => ?_)) ?_
    · have hi := (installs_congr hsame.slot).mp hdone.1
      have hpar : t.node par = some .dir := by
        rw [hnew hi par (by simp), Function.update_of_ne (by simp), hs.parent]
      exact verify_settles hname hp hpar (hnew hi).slot hparses
        ⟨fun h => absurd hw h, fun _ => .ofInstalled hi (hnew hi)⟩
    · rw [installs_congr hsame.slot, completes_congr hsame.slot]
      simp [hw, and_assoc]
  · refine Settles.congr ((hwrite.mono fun _ u hu => ?_).bind (Q := False) fun h => absurd h hw)
      (by simp [hw])
    exact ⟨fun _ => hu.kept, fun h => absurd h hw⟩

structure FreshNames (env : Env WriteSite) (fs : FileSystem String) (p : Path String) : Prop where
  temporary : ∀ attempt, temporaryPath env p.dropLast attempt ≠ p
  backup : fs.node (backupPath env p.dropLast) = none
  backup_ne : backupPath env p.dropLast ≠ p

structure Prepared (env : Env WriteSite) (fs : FileSystem String) (p : Path String) (size : Nat) :
    Prop where
  lock : LockReady env .lock fs
  created : env.fault (.resolve .createParent) = false
  openable : Openable fs p.dropLast
  parent : env.fault (.resolve .parentExists) = false →
    env.fault (.resolve .canonicalizeParent) = false
  slot : SlotOk env .resolve fs p
  fits : size ≤ maxRecordBytes
  drawn : drawnName env fs p.dropLast temporaryNameAttempts ≠ none

structure Parented (fs s : FileSystem String) (par : Path String) : Prop where
  parent : s.node par = some .dir
  below : ∀ n, s.node (par ++ [n]) = fs.node (par ++ [n])
  lock : ∀ b, fs.node lockPath = some (.file b) → s.node lockPath = some (.file b)

theorem createParent_ok (h : Openable fs par) :
    ∃ s, fs.createDirAll par = .ok s ∧ Parented fs s par := by
  refine ⟨fs.mkdirs par h, by simp [createDirAll, h], ?_, fun n => ?_, fun b hb => ?_⟩
  · rcases h par (by simp) with hnone | hdir
    · simp [hnone]
    · simp [hdir]
  · have hpre : ¬ par ++ [n] <+: par := fun hp => by simpa using hp.length_le
    rw [node_mkdirs, if_neg (fun hn => hpre hn.1)]
  · rw [node_mkdirs, if_neg (by simp [hb]), hb]

variable (env) in
theorem resolve_parented (relative : List Component) (hname : ¬ invalidName relative)
    (hp : recordPath relative = par ++ [n]) (hs : fs.createDirAll par = .ok s)
    (hpar : Parented fs s par) (hK : K fs) (hKs : K s) :
    Settles env.serve (resolveRecord .resolve relative true) fs
      (env.fault (.resolve .createParent) = false ∧
        (env.fault (.resolve .parentExists) = false →
          env.fault (.resolve .canonicalizeParent) = false) ∧
        SlotOk env .resolve fs (par ++ [n])) (par ++ [n]) s K := by
  have hresolve := resolveRecord_create_settles env WriteSite.resolve relative (t := s)
    (by rw [hp, List.dropLast_concat, hs]) hK hKs
  rw [hp, List.dropLast_concat] at hresolve
  refine Settles.congr hresolve ?_
  have hpresent : s.present par = true := present_iff.mpr (by simp [hpar.parent])
  have hslot : SlotOk env .resolve s (par ++ [n]) ↔ SlotOk env .resolve fs (par ++ [n]) := by
    rw [SlotOk, SlotOk, present_congr (hpar.below n), hpar.below n]
  rw [hslot]
  simp [hname, ParentOk, hpresent, canonicalize, hpar.parent]

theorem staging_of_drawn (hfresh : FreshNames env fs (par ++ [n])) (hpar : Parented fs s par)
    {tmp : Path String} (hdrawn : drawnName env fs par temporaryNameAttempts = some tmp) :
    ∃ a t, tmp = par ++ [a] ∧
      exec env.serve (createPrivateFile par temporaryNameAttempts) s = (.ok (par ++ [a]), t) ∧
      Staging env t par n a [] ∧ SameWatched s t (par ++ [n]) := by
  obtain ⟨htemp, hbackup, hbackup_ne⟩ := hfresh
  rw [List.dropLast_concat] at htemp hbackup hbackup_ne
  rw [drawnName_congr (fun m => (hpar.below m).symm)] at hdrawn
  obtain ⟨t, hexec, hnode⟩ := createPrivateFile_drawn hpar.parent hdrawn
  obtain ⟨-, attempt, rfl⟩ := drawnName_some hdrawn
  have han : temporaryName (env.entropy (.temporaryRandom attempt)) ≠ n := by
    rintro rfl
    exact htemp attempt rfl
  have hsame := sameWatched_of_temporary (temporaryName_ne_lock _) han hnode
  refine ⟨_, t, rfl, hexec, ⟨?_, ?_, ?_, han, temporaryName_ne_backupName _ _, ?_,
    temporaryName_ne_lock _⟩, hsame⟩
  · rw [hsame par (by simp), hpar.parent]
  · rw [hnode]
    exact Function.update_self ..
  · rw [hnode, Function.update_of_ne, backupPath, hpar.below]
    · exact hbackup
    · simpa [backupPath, temporaryPath] using Ne.symm (temporaryName_ne_backupName _ _)
  · rintro rfl
    exact hbackup_ne rfl

def readBack (codec : JsonCodec α) (relative : List Component) (fs : FileSystem String) :
    Except StoreError α :=
  (exec Env.sound.serve (readJson codec relative) fs).1

def recorded (codec : JsonCodec α) (v : α) : Except StoreError α :=
  slotValue codec.decode (some (.file (codec.encode v ++ [10])))

def WriteContract (codec : JsonCodec α) (relative : List Component) (v : α) (env : Env WriteSite)
    (fs : FileSystem String) : Prop :=
  match exec env.serve (writeJsonAtomic codec relative v) fs with
  | (.ok _, t) => readBack codec relative t = .ok v
  | (.error _, t) => readBack codec relative t = readBack codec relative fs

theorem readBack_eq {relative : List Component} (hname : ¬ invalidName relative)
    (hp : recordPath relative = par ++ [n]) (fs : FileSystem String) :
    readBack codec relative fs =
      recordValue codec.decode (fs.node lockPath) (fs.node par) (fs.node (par ++ [n])) := by
  rw [readBack, readJson_clean codec relative (fun _ => rfl) hname, hp, List.dropLast_concat]

theorem recorded_of_fits {v : α} (h : (codec.encode v).length < maxRecordBytes) :
    recorded codec v = .ok v := by
  rw [recorded, slotValue, if_neg (by simp; omega), codec.decode_encode]

variable (codec) in
theorem readBack_shows {relative : List Component} {v : Option Node} {b : Bytes} {u : FileSystem String}
    (hname : ¬ invalidName relative) (hp : recordPath relative = par ++ [n])
    (hpar : s.node par = some .dir) (hlock : s.node lockPath = some (.file b))
    (hv : v = none ∨ ∃ content, v = some (.file content)) (hu : Shows s (par ++ [n]) v u) :
    readBack codec relative u = slotValue codec.decode v := by
  have hpar' : u.node par = some .dir := by
    rw [hu par (by simp), Function.update_of_ne (by simp), hpar]
  rw [readBack_eq hname hp, hu.slot, hu lockPath (by simp), hpar']
  by_cases hlp : lockPath = par ++ [n]
  · rw [hlp, Function.update_self]
    rcases hv with rfl | ⟨content, rfl⟩ <;> rfl
  · rw [Function.update_of_ne hlp, hlock]
    rfl

theorem readBack_kept {relative : List Component} {u : FileSystem String}
    (hname : ¬ invalidName relative) (hp : recordPath relative = par ++ [n])
    (hopen : Openable fs par) (hpar : u.node par = some .dir)
    (hlock : u.node lockPath = fs.node lockPath)
    (hslot : u.node (par ++ [n]) = fs.node (par ++ [n])) :
    readBack codec relative u = readBack codec relative fs := by
  rw [readBack_eq hname hp, readBack_eq hname hp, hpar, hlock, hslot]
  rcases hopen par (by simp) with h | h <;> rw [h]
  rcases fs.node lockPath with _ | (_ | _ | _) <;> rfl

theorem readBack_present {relative : List Component} (hname : ¬ invalidName relative)
    (hp : recordPath relative = par ++ [n]) {b : Bytes} (hlock : fs.node lockPath = some (.file b))
    (h : fs.present (par ++ [n]) = true) : readBack codec relative fs ≠ .error (.io .notFound) := by
  rw [readBack_eq hname hp, hlock]
  obtain ⟨v, hv, -⟩ := lstat_of_present h
  have hslot : slotValue codec.decode (some v) ≠ .error (.io .notFound) := by
    rcases v with content | _ | _ | k
    · rw [slotValue]
      split
      · simp
      · cases codec.decode content <;> simp
    all_goals simp [slotValue]
  rw [hv]
  rcases fs.node par with _ | (_ | _ | _ | k) <;> first | exact hslot | simp [recordValue]

theorem cleanup_shows {v : Option Node} {content : Bytes} {u : FileSystem String}
    (hs : Staging env s par n a content) (hu : Shows s (par ++ [n]) v u) :
    Shows s (par ++ [n]) v (exec env.serve (FsProg.remove .cleanup (par ++ [a])) u).2 := by
  rw [FsProg.exec_remove]
  cases hf : env.fault .cleanup with
  | true => rwa [Env.change_fault hf]
  | false =>
    cases hr : u.remove (par ++ [a]) with
    | error e => rwa [Env.change_error hf rfl]
    | ok t =>
      rw [Env.change_ok hf rfl]
      intro q hq
      rw [remove_other hr, hu q hq]
      rintro rfl
      rw [List.dropLast_concat] at hq
      exact watched_not_below hq hs.temporary_ne_lock hs.apart List.prefix_rfl

theorem cleanup_outcome {content content' : Bytes} {u : FileSystem String}
    (hs : Staging env s par n a content) (hu : Outcome env s (par ++ [n]) content' u) :
    Outcome env s (par ++ [n]) content' (exec env.serve (FsProg.remove .cleanup (par ++ [a])) u).2 :=
  ⟨fun h => cleanup_shows hs (hu.lost h), fun h => cleanup_shows hs (hu.installed h),
    fun h h' => cleanup_shows hs (hu.kept h h')⟩

def Staged (env : Env WriteSite) (fs : FileSystem String) (p : Path String) (size : Nat) : Prop :=
  Prepared env fs p size ∧ Written env

theorem write_prepared {relative : List Component} {v : α} (hname : ¬ invalidName relative)
    (hp : recordPath relative = par ++ [n]) (hfresh : FreshNames env fs (par ++ [n]))
    (hprep : Prepared env fs (par ++ [n]) (codec.encode v).length) :
    ∃ s t, s.node par = some .dir ∧ s.node (par ++ [n]) = fs.node (par ++ [n]) ∧
      s.node lockPath = fs.node lockPath ∧
      (Installs env fs (par ++ [n]) →
        Shows s (par ++ [n]) (some (.file (codec.encode v ++ [10]))) t) ∧
      Settles env.serve (writeJsonAtomic codec relative v) fs
        (Written env ∧ Installs env fs (par ++ [n]) ∧ Completes env fs (par ++ [n]) ∧
          Verified env (codec.encode v).length) (par ++ [n]) t
        (Replaced env s (par ++ [n]) (codec.encode v ++ [10])) := by
  have hopen := hprep.openable
  rw [List.dropLast_concat] at hopen
  obtain ⟨s₀, hcreate, hpar⟩ := createParent_ok hopen
  obtain ⟨tmp, hdrawn⟩ := Option.ne_none_iff_exists'.mp hprep.drawn
  rw [List.dropLast_concat] at hdrawn
  obtain ⟨a, s, -, hexec, hs, hsame⟩ := staging_of_drawn hfresh hpar hdrawn
  obtain ⟨t, ht, hreplace⟩ := replaceRecord_settles hname hp hs (codec.parses_encode v)
  have hslot : s.node (par ++ [n]) = fs.node (par ++ [n]) := hsame.slot.trans (hpar.below n)
  obtain ⟨b, hb⟩ := hprep.lock.regular
  refine ⟨s, t, hs.parent, hslot, ?_, fun hi => ht ((installs_congr hslot).mpr hi), ?_⟩
  · rw [hsame lockPath (by simp), hpar.lock b hb, hb]
  have hlock := (lockOperation_settles _ _ (K := fun _ => True) WriteSite.lock trivial).1 hprep.lock
  have hresolve := (resolve_parented _ (K := fun _ => True) relative hname hp hcreate hpar trivial
    trivial).1 ⟨hprep.created, hprep.parent, hprep.slot⟩
  rw [installs_congr hslot, completes_congr hslot] at hreplace
  refine Settles.bind_sure hlock (Settles.bind_sure hresolve ?_)
  rw [if_neg (by simpa using hprep.fits), List.dropLast_concat]
  have hclean := hreplace.onError (L := Replaced env s (par ++ [n]) (codec.encode v ++ [10]))
    (y := FsProg.remove (S := WriteSite) .cleanup (par ++ [a])) fun u hu => ⟨fun h => cleanup_shows hs (hu.unwritten h), fun h => cleanup_outcome hs (hu.written h)⟩
  exact Settles.bind_sure hexec (Settles.congr (hclean.bind fun _ => Settles.pure _) (by simp))

theorem write_unprepared {relative : List Component} {v : α} (hname : ¬ invalidName relative)
    (hp : recordPath relative = par ++ [n])
    (hprep : ¬ Prepared env fs (par ++ [n]) (codec.encode v).length) :
    Settles env.serve (writeJsonAtomic codec relative v) fs False (par ++ [n]) fs
      (fun u => readBack codec relative u = readBack codec relative fs) := by
  have hlock := lockOperation_settles env fs
    (K := fun u => readBack codec relative u = readBack codec relative fs) WriteSite.lock rfl
  refine Settles.congr (hlock.bind (Q := False) fun hready => ?_) (by simp)
  obtain ⟨b, hb⟩ := hready.regular
  by_cases hopen : Openable fs par
  · obtain ⟨s, hcreate, hpar⟩ := createParent_ok hopen
    have hkept : readBack codec relative s = readBack codec relative fs :=
      readBack_kept hname hp hopen hpar.parent ((hpar.lock b hb).trans hb.symm) (hpar.below n)
    have hresolve := resolve_parented env relative hname hp hcreate hpar
      (K := fun u => readBack codec relative u = readBack codec relative fs) rfl hkept
    refine Settles.congr (hresolve.bind (Q := False) fun hres => ?_) (by simp)
    refine Settles.congr (Settles.orThrow (P := False) hkept fun hfits => ?_) (by simp)
    have hdrawn : drawnName env s par temporaryNameAttempts = none := by
      rw [← drawnName_congr (fun m => (hpar.below m).symm)]
      by_contra hdrawn
      refine hprep ⟨hready, hres.1, ?_, hres.2.1, hres.2.2, by simpa using hfits, ?_⟩
      · rwa [List.dropLast_concat]
      · rwa [List.dropLast_concat]
    obtain ⟨e, he⟩ := createPrivateFile_undrawn (n := temporaryNameAttempts) hdrawn
    rw [List.dropLast_concat]
    exact ⟨False.elim, fun _ => ⟨e, s, exec_bind_error _ he, hkept⟩⟩
  · have hcreate : fs.createDirAll (recordPath relative).dropLast = .error .notADirectory := by
      rw [hp, List.dropLast_concat]
      simp [createDirAll, hopen]
    have hblocked := resolveRecord_create_blocked env WriteSite.resolve relative hcreate
      (K := fun u => readBack codec relative u = readBack codec relative fs) rfl fs
    exact Settles.congr (hblocked.bind (Q := False) False.elim) (by simp)

theorem writeContract_of_unstaged {relative : List Component} {v : α} (hname : ¬ invalidName relative)
    (hfresh : FreshNames env fs (recordPath relative))
    (hstaged : ¬ Staged env fs (recordPath relative) (codec.encode v).length) :
    WriteContract codec relative v env fs := by
  obtain ⟨par, n, hp⟩ := recordPath_concat hname
  rw [hp] at hfresh hstaged
  unfold WriteContract
  by_cases hprep : Prepared env fs (par ++ [n]) (codec.encode v).length
  · have hopen := hprep.openable
    rw [List.dropLast_concat] at hopen
    obtain ⟨b, hb⟩ := hprep.lock.regular
    obtain ⟨s, t, hpar, hslot, hlock, -, hsettles⟩ := write_prepared hname hp hfresh hprep
    have hw : ¬ Written env := fun hw => hstaged ⟨hprep, hw⟩
    obtain ⟨e, u, he, hu⟩ := hsettles.2 fun h => hw h.1
    rw [he]
    have hshows := hu.unwritten hw
    refine readBack_kept hname hp hopen ?_ ?_ (hshows.slot.trans hslot)
    · rw [hshows par (by simp), Function.update_eq_self, hpar]
    · rw [hshows lockPath (by simp), Function.update_eq_self, hlock]
  · obtain ⟨e, u, he, hu⟩ := (write_unprepared hname hp hprep).2 not_false
    rw [he]
    exact hu

theorem write_staged {relative : List Component} {v : α} (hname : ¬ invalidName relative)
    (hfresh : FreshNames env fs (recordPath relative))
    (hstaged : Staged env fs (recordPath relative) (codec.encode v).length) :
    ∃ r t, exec env.serve (writeJsonAtomic codec relative v) fs = (r, t) ∧
      (r.isOk = true ↔ Installs env fs (recordPath relative) ∧ Completes env fs (recordPath relative) ∧
        Verified env (codec.encode v).length) ∧
      (Installs env fs (recordPath relative) → readBack codec relative t = recorded codec v) ∧
      (Lost env fs (recordPath relative) → readBack codec relative t = .error (.io .notFound)) ∧
      (¬ Lost env fs (recordPath relative) → ¬ Installs env fs (recordPath relative) →
        readBack codec relative t = readBack codec relative fs) := by
  obtain ⟨par, n, hp⟩ := recordPath_concat hname
  rw [hp] at hfresh hstaged ⊢
  have hopen := hstaged.1.openable
  rw [List.dropLast_concat] at hopen
  obtain ⟨b, hb⟩ := hstaged.1.lock.regular
  obtain ⟨s, t, hpar, hslot, hlock, hnew, hsettles⟩ := write_prepared hname hp hfresh hstaged.1
  have hlock' := hlock.trans hb
  by_cases hdone : Installs env fs (par ++ [n]) ∧ Completes env fs (par ++ [n]) ∧
      Verified env (codec.encode v).length
  · refine ⟨_, t, hsettles.1 ⟨hstaged.2, hdone⟩, iff_of_true rfl hdone, fun hi => ?_,
      fun hl => absurd hdone.1 (fun hi => not_lost_of_installs hi hl), fun _ h => absurd hdone.1 h⟩
    exact readBack_shows codec hname hp hpar hlock' (.inr ⟨_, rfl⟩) (hnew hi)
  · obtain ⟨e, u, he, hu⟩ := hsettles.2 fun h => hdone h.2
    have houtcome := hu.written hstaged.2
    refine ⟨_, u, he, iff_of_false (by simp [Except.isOk, Except.toBool]) hdone, fun hi => ?_, fun hl => ?_, fun hl hi => ?_⟩
    · exact readBack_shows codec hname hp hpar hlock' (.inr ⟨_, rfl⟩)
        (houtcome.installed ((installs_congr hslot).mpr hi))
    · exact readBack_shows codec hname hp hpar hlock' (.inl rfl)
        (houtcome.lost ((lost_congr hslot).mpr hl))
    · have hshows := houtcome.kept (fun h => hl ((lost_congr hslot).mp h))
        (fun h => hi ((installs_congr hslot).mp h))
      refine readBack_kept hname hp hopen ?_ ?_ (hshows.slot.trans hslot)
      · rw [hshows par (by simp), Function.update_eq_self, hpar]
      · rw [hshows lockPath (by simp), Function.update_eq_self, hlock]

theorem writeContract_of_staged {relative : List Component} {v : α} (hname : ¬ invalidName relative)
    (hfresh : FreshNames env fs (recordPath relative))
    (hstaged : Staged env fs (recordPath relative) (codec.encode v).length) :
    WriteContract codec relative v env fs ↔
      ¬ Lost env fs (recordPath relative) ∧ (Installs env fs (recordPath relative) →
        ¬ (Completes env fs (recordPath relative) ∧ Verified env (codec.encode v).length) →
          readBack codec relative fs = recorded codec v) := by
  obtain ⟨r, t, hexec, hok, hinstalled, hlost, hkept⟩ := write_staged hname hfresh hstaged
  unfold WriteContract
  rw [hexec]
  cases r with
  | ok _ =>
    obtain ⟨hi, hdone⟩ := hok.mp rfl
    refine iff_of_true ?_ ⟨not_lost_of_installs hi, fun _ h => absurd hdone h⟩
    exact (hinstalled hi).trans (recorded_of_fits hdone.2.fits)
  | error e =>
    have hdone : ¬ (Installs env fs (recordPath relative) ∧ Completes env fs (recordPath relative) ∧
      Verified env (codec.encode v).length) := fun h => by cases hok.mpr h
    by_cases hl : Lost env fs (recordPath relative)
    · refine iff_of_false (fun h => ?_) (fun h => h.1 hl)
      obtain ⟨par, n, hp⟩ := recordPath_concat hname
      obtain ⟨b, hb⟩ := hstaged.1.lock.regular
      refine readBack_present hname hp hb ?_ (h.symm.trans (hlost hl))
      rw [← hp]
      exact hl.1.2
    · by_cases hi : Installs env fs (recordPath relative)
      · have hread := hinstalled hi
        simp only [hread, hl, hi, not_false_eq_true, true_and, forall_const, not_and.mp hdone hi, eq_comm]
      · exact iff_of_true (hkept hl hi) ⟨hl, fun h => absurd h hi⟩

def quoted (letters : Nat) : Bytes := 34 :: (List.replicate letters 97 ++ [34])

theorem length_quoted (letters : Nat) : (quoted letters).length = letters + 2 := by
  simp [quoted]

def letterCodec : JsonCodec Nat where
  encode := quoted
  decode b := if b = quoted (b.length - 3) ++ [10] then some (b.length - 3) else none
  parses b := b = quoted (b.length - 3) ++ [10]
  decode_encode n := by simp [quoted]
  parses_encode n := by simp [quoted]

def recordStore : FileSystem String :=
  (FileSystem.empty.put lockPath (.file []) lockPath_placeable).put ["record.json"]
    (.file (quoted 0 ++ [10])) (by decide)

theorem recordStore_fresh : FreshNames Env.sound recordStore (recordPath [.normal "record.json"]) :=
  ⟨fun _ => (by decide : temporaryPath Env.sound [] 0 ≠ ["record.json"]), by decide, by decide⟩

theorem recordStore_prepared {size : Nat} (h : size ≤ maxRecordBytes) :
    Prepared Env.sound recordStore (recordPath [.normal "record.json"]) size where
  lock := ⟨⟨[], by decide⟩, fun _ => rfl⟩
  created := rfl
  openable := by decide
  parent _ := rfl
  slot _ _ := ⟨rfl, fun t h => by cases (show some (Node.file _) = _ from h)⟩
  fits := h
  drawn := by decide

theorem writeContract_iff (codec : JsonCodec α) (relative : List Component) (v : α)
    (env : Env WriteSite) (fs : FileSystem String) (hname : ¬ invalidName relative)
    (hfresh : FreshNames env fs (recordPath relative)) :
    WriteContract codec relative v env fs ↔
      (Staged env fs (recordPath relative) (codec.encode v).length →
        ¬ Lost env fs (recordPath relative) ∧ (Installs env fs (recordPath relative) →
          ¬ (Completes env fs (recordPath relative) ∧ Verified env (codec.encode v).length) →
            readBack codec relative fs = recorded codec v)) := by
  by_cases hstaged : Staged env fs (recordPath relative) (codec.encode v).length
  · rw [writeContract_of_staged hname hfresh hstaged]
    simp [hstaged]
  · exact iff_of_true (writeContract_of_unstaged hname hfresh hstaged) (fun h => absurd h hstaged)

theorem writeContract_iff_record :
    ¬ invalidName [.normal "record.json"] ∧
      FreshNames Env.sound recordStore (recordPath [.normal "record.json"]) ∧
      WriteContract letterCodec [.normal "record.json"] 3 Env.sound recordStore := by
  refine ⟨by decide, recordStore_fresh, ?_⟩
  rw [writeContract_iff letterCodec [.normal "record.json"] 3 Env.sound recordStore (by decide)
    recordStore_fresh]
  exact fun _ => ⟨fun h => by simp [Lost, Env.sound] at h, fun _ h => absurd
    ⟨⟨fun _ => ⟨rfl, by decide⟩, rfl, rfl⟩, fun _ => rfl, fun _ => rfl, rfl, rfl, by decide⟩ h⟩

theorem boundary_record_lost :
    ¬ WriteContract letterCodec [.normal "record.json"] 8388606 Env.sound recordStore := by
  have hsize : (letterCodec.encode 8388606).length = maxRecordBytes := length_quoted 8388606
  rw [writeContract_of_staged (by decide) recordStore_fresh
    ⟨recordStore_prepared hsize.le, fun _ _ => rfl⟩]
  rintro ⟨-, h⟩
  have hread := h ⟨rfl, fun _ => ⟨rfl, rfl⟩, fun _ => by decide⟩
    (fun hdone => by simpa [hsize] using hdone.2.fits)
  have hpath : recordPath [.normal "record.json"] = [] ++ ["record.json"] := rfl
  rw [readBack_eq (by decide) hpath] at hread
  have hbound : recorded letterCodec 8388606 =
      .error (.message "private state record exceeds the 8 MiB limit") := by
    rw [recorded, slotValue, if_pos]
    rw [List.length_append, hsize]
    exact Nat.lt_succ_self _
  rw [hbound] at hread
  revert hread
  decide

end PrivateState
