import MeridianMcp.PrivateState.Read

namespace PrivateState

open Effects Fallible MeridianMcp

variable {α : Type} {env : Env WriteSite} {fs s t : FileSystem String} {par : Path String}

def temporaryPath (env : Env WriteSite) (par : Path String) (attempt : Nat) : Path String :=
  par ++ [temporaryName (env.entropy (.temporaryRandom attempt))]

def backupPath (env : Env WriteSite) (par : Path String) : Path String :=
  par ++ [backupName (env.entropy .backupRandom)]

theorem temporaryName_ne_backupName (r r' : Bytes) : temporaryName r ≠ backupName r' :=
  append_ne_append (n := 10) (by decide) (by decide) (by decide)

theorem temporaryName_ne_lock (r : Bytes) : temporaryName r ≠ ".meridian-mcp.lock" :=
  append_ne_self (n := 10) (by decide) (by decide) (by decide)

theorem backupName_ne_lock (r : Bytes) : backupName r ≠ ".meridian-mcp.lock" :=
  append_ne_self (n := 10) (by decide) (by decide) (by decide)

theorem append_ne_lockPath {n : String} (hn : n ≠ ".meridian-mcp.lock") : par ++ [n] ≠ lockPath := by
  intro h
  have hlast := congrArg List.getLast? h
  simp [lockPath] at hlast
  exact hn hlast

def drawnName (env : Env WriteSite) (fs : FileSystem String) (par : Path String) :
    Nat → Option (Path String)
  | 0 => none
  | attempt + 1 =>
    if env.fault (.temporaryRandom attempt) = true ∨ env.fault (.createTemporary attempt) = true then
      none
    else if fs.node (temporaryPath env par attempt) = none then some (temporaryPath env par attempt)
    else drawnName env fs par attempt

theorem drawnName_some {n : Nat} {tmp : Path String} (h : drawnName env fs par n = some tmp) :
    fs.node tmp = none ∧ ∃ attempt, tmp = temporaryPath env par attempt := by
  induction n with
  | zero => simp [drawnName] at h
  | succ n ih =>
    rw [drawnName] at h
    split at h
    · cases h
    · split at h
      · rename_i hnone
        cases h
        exact ⟨hnone, n, rfl⟩
      · exact ih h

theorem drawnName_congr (h : ∀ n, fs.node (par ++ [n]) = t.node (par ++ [n])) (n : Nat) :
    drawnName env fs par n = drawnName env t par n := by
  induction n with
  | zero => rfl
  | succ n ih =>
    rw [drawnName, drawnName, ih]
    by_cases hnone : fs.node (temporaryPath env par n) = none
    · rw [if_pos hnone, if_pos (c := t.node (temporaryPath env par n) = none) ((h _).symm.trans hnone)]
    · rw [if_neg hnone, if_neg (c := t.node (temporaryPath env par n) = none)
        (fun ht => hnone ((h _).trans ht))]

theorem createPrivateFile_drawn {n : Nat} {tmp : Path String} (hpar : fs.node par = some .dir)
    (h : drawnName env fs par n = some tmp) :
    ∃ t, exec env.serve (createPrivateFile par n) fs = (.ok tmp, t) ∧
      t.node = Function.update fs.node tmp (some (.file [])) := by
  induction n with
  | zero => simp [drawnName] at h
  | succ n ih =>
    rw [drawnName] at h
    split at h
    · cases h
    · rename_i hfault
      obtain ⟨hrandom, hcreate⟩ : env.fault (.temporaryRandom n) = false ∧
          env.fault (.createTemporary n) = false := by simpa using hfault
      have hbytes := exec_io_observe hrandom (FsProg.exec_random (.temporaryRandom n) env fs)
      rw [createPrivateFile, exec_bind_ok _ hbytes]
      change ∃ t, exec env.serve (attempt (FsProg.createNew _ (temporaryPath env par n)) >>= _) fs = _ ∧ _
      rw [exec_bind, exec_attempt, FsProg.exec_createNew]
      by_cases hnone : fs.node (temporaryPath env par n) = none
      · rw [if_pos hnone] at h
        cases h
        obtain ⟨t, ht, hnode⟩ : ∃ t, fs.createNew (temporaryPath env par n) = .ok t ∧ _ :=
          FileSystem.createNew_ok hpar hnone
        refine ⟨t, ?_, hnode⟩
        rw [Env.change_ok hcreate ht]
        rfl
      · rw [if_neg hnone] at h
        have hexists : fs.createNew (temporaryPath env par n) = .error .alreadyExists := by
          simp [FileSystem.createNew, hnone]
        rw [Env.change_error hcreate hexists]
        exact ih h

theorem createPrivateFile_undrawn {n : Nat}
    (h : drawnName env fs par n = none) :
    ∃ e, exec env.serve (createPrivateFile par n) fs = (.error e, fs) := by
  induction n with
  | zero => exact ⟨_, rfl⟩
  | succ n ih =>
    rw [drawnName] at h
    by_cases hrandom : env.fault (.temporaryRandom n) = true
    · refine ⟨.io .other, exec_bind_error _ ?_⟩
      rw [io, exec_adapt, FsProg.exec_random, Env.observe, hrandom]
      rfl
    · rw [Bool.not_eq_true] at hrandom
      have hbytes := exec_io_observe hrandom (FsProg.exec_random (.temporaryRandom n) env fs)
      rw [createPrivateFile, exec_bind_ok _ hbytes]
      change ∃ e, exec env.serve (attempt (FsProg.createNew _ (temporaryPath env par n)) >>= _) fs = _
      rw [exec_bind, exec_attempt, FsProg.exec_createNew]
      by_cases hcreate : env.fault (.createTemporary n) = true
      · rw [Env.change_fault hcreate]
        exact ⟨_, rfl⟩
      · rw [Bool.not_eq_true] at hcreate
        simp only [hrandom, hcreate, Bool.false_eq_true, or_self, if_false] at h ⊢
        by_cases hnone : fs.node (temporaryPath env par n) = none
        · simp [hnone] at h
        · rw [if_neg hnone] at h
          have hexists : fs.createNew (temporaryPath env par n) = .error .alreadyExists := by
            simp [FileSystem.createNew, hnone]
          rw [Env.change_error hcreate hexists]
          exact ih h

end PrivateState

namespace PrivateState

open Effects Fallible FileSystem

variable {env : Env WriteSite} {s : FileSystem String} {par : Path String} {n a : String}
  {content : Bytes}

def BacksUp (env : Env WriteSite) (s : FileSystem String) (p : Path String) : Prop :=
  env.fault .installExists = false ∧ s.present p = true

def MovesAside (env : Env WriteSite) : Prop :=
  env.fault .backupRandom = false ∧ env.fault .backupRename = false

def Installs (env : Env WriteSite) (s : FileSystem String) (p : Path String) : Prop :=
  env.fault .installRename = false ∧ (BacksUp env s p → MovesAside env) ∧
    (¬ BacksUp env s p → s.node p ≠ some .dir)

def Lost (env : Env WriteSite) (s : FileSystem String) (p : Path String) : Prop :=
  BacksUp env s p ∧ MovesAside env ∧ env.fault .installRename = true ∧
    env.fault .rollbackRename = true

def Completes (env : Env WriteSite) (s : FileSystem String) (p : Path String) : Prop :=
  (BacksUp env s p → env.fault .removeBackup = false ∧ s.node p ≠ some .dir) ∧
    env.fault .openInstalled = false ∧ env.fault .syncInstalled = false

-- The three nodes a read of the record depends on: the lock, the parent and the slot.
def Shows (s : FileSystem String) (p : Path String) (v : Option Node) (u : FileSystem String) :
    Prop :=
  ∀ q ∈ [lockPath, p.dropLast, p], u.node q = Function.update s.node p v q

structure Outcome (env : Env WriteSite) (s : FileSystem String) (p : Path String) (content : Bytes)
    (u : FileSystem String) : Prop where
  lost : Lost env s p → Shows s p none u
  installed : Installs env s p → Shows s p (some (.file content)) u
  kept : ¬ Lost env s p → ¬ Installs env s p → Shows s p (s.node p) u

structure Staging (env : Env WriteSite) (s : FileSystem String) (par : Path String) (n a : String)
    (content : Bytes) : Prop where
  parent : s.node par = some .dir
  temporary : s.node (par ++ [a]) = some (.file content)
  backup : s.node (backupPath env par) = none
  apart : a ≠ n
  temporary_ne_backup : a ≠ backupName (env.entropy .backupRandom)
  backup_ne : backupName (env.entropy .backupRandom) ≠ n
  temporary_ne_lock : a ≠ ".meridian-mcp.lock"

theorem watched_below {q : Path String} (hq : q ∈ [lockPath, par, par ++ [n]]) {c : String}
    (h : par ++ [c] <+: q) : q = par ++ [c] := by
  refine (h.eq_of_length_le ?_).symm
  simp only [List.mem_cons, List.not_mem_nil, or_false] at hq
  rcases hq with rfl | rfl | rfl <;> simp [lockPath]

theorem watched_not_below {q : Path String} (hq : q ∈ [lockPath, par, par ++ [n]]) {c : String}
    (hc : c ≠ ".meridian-mcp.lock") (hcn : c ≠ n) : ¬ par ++ [c] <+: q := by
  intro h
  rw [watched_below hq h] at hq
  simp only [List.mem_cons, List.not_mem_nil, or_false] at hq
  rcases hq with h | h | h
  · exact append_ne_lockPath hc h
  · simp at h
  · exact hcn (by simpa using h)

theorem shows_of_other {u : FileSystem String} {v : Option Node} (hv : u.node (par ++ [n]) = v)
    (hother : ∀ q ∈ [lockPath, par, par ++ [n]], q ≠ par ++ [n] → u.node q = s.node q) :
    Shows s (par ++ [n]) v u := by
  intro q hq
  rw [List.dropLast_concat] at hq
  by_cases hqp : q = par ++ [n]
  · rw [hqp, Function.update_self, hv]
  · rw [Function.update_of_ne hqp, hother q hq hqp]

theorem shows_self (s : FileSystem String) (p : Path String) : Shows s p (s.node p) s := by
  intro q _
  rw [Function.update_eq_self]

structure MovedAside (env : Env WriteSite) (s : FileSystem String) (par : Path String) (n : String)
    (t : FileSystem String) : Prop where
  slot : t.node (par ++ [n]) = none
  backup : t.node (backupPath env par) = s.node (par ++ [n])
  other : ∀ q, ¬ par ++ [n] <+: q → ¬ backupPath env par <+: q → t.node q = s.node q

theorem MovedAside.shows {t : FileSystem String} (h : MovedAside env s par n t)
    (hs : Staging env s par n a content) : Shows s (par ++ [n]) none t :=
  shows_of_other h.slot fun q hq hqp => h.other q (fun hpre => hqp (watched_below hq hpre))
    (watched_not_below hq (backupName_ne_lock _) hs.backup_ne)

theorem backUp_settles {K : FileSystem String → Prop} (hs : Staging env s par n a content) (hK : K s)
    (hb : BacksUp env s (par ++ [n])) :
    ∃ t, Settles env.serve (backUp (par ++ [n])) s (MovesAside env) (some (backupPath env par)) t K ∧
      MovedAside env s par n t := by
  obtain ⟨v, hv, -⟩ := lstat_of_present hb.2
  obtain ⟨t, ht, hnone, hbak, hother⟩ := rename_away hs.parent hv (Ne.symm hs.backup_ne) hs.backup
  refine ⟨t, ?_, hnone, hbak.trans hv.symm, hother⟩
  have hsees : (!env.fault .installExists && s.present (par ++ [n])) = true := by
    rw [hb.1, hb.2]
    rfl
  have hrandom := (FsProg.settles_observe (FsProg.exec_random .backupRandom env s) rfl hK).adapt
    StoreError.io
  have hrename := (FsProg.settles_change (FsProg.exec_rename .backupRename env s _ _) ht hK).adapt
    StoreError.io
  refine Settles.bind_sure (FsProg.exec_pathExists .installExists env s _) ?_
  rw [if_pos hsees, List.dropLast_concat]
  refine hrandom.bind fun _ => ?_
  exact Settles.congr (hrename.bind fun _ => Settles.pure (some (backupPath env par))) (by simp)

theorem backUp_skipped (hb : ¬ BacksUp env s (par ++ [n])) :
    exec env.serve (backUp (par ++ [n])) s = (.ok none, s) := by
  have hsees : ¬ (!env.fault .installExists && s.present (par ++ [n])) = true := by
    simpa [BacksUp] using hb
  rw [backUp, exec_bind_ok _ (FsProg.exec_pathExists .installExists env s _), if_neg hsees]
  rfl

theorem not_lost_of_installs {p : Path String} (hi : Installs env s p) : ¬ Lost env s p := by
  intro hl
  have hfault := hl.2.2.1
  rw [hi.1] at hfault
  cases hfault

theorem Outcome.ofKept {u : FileSystem String} {p : Path String} (hl : ¬ Lost env s p)
    (hi : ¬ Installs env s p) (h : Shows s p (s.node p) u) : Outcome env s p content u :=
  ⟨fun h' => absurd h' hl, fun h' => absurd h' hi, fun _ _ => h⟩

theorem Outcome.ofLost {u : FileSystem String} {p : Path String} (hl : Lost env s p)
    (h : Shows s p none u) : Outcome env s p content u :=
  ⟨fun _ => h, fun hi => absurd hl (not_lost_of_installs hi), fun h' => absurd hl h'⟩

theorem Outcome.ofInstalled {u : FileSystem String} {p : Path String} (hi : Installs env s p)
    (h : Shows s p (some (.file content)) u) : Outcome env s p content u :=
  ⟨fun hl => absurd hl (not_lost_of_installs hi), fun _ => h, fun _ h' => absurd hi h'⟩

def Finished (env : Env WriteSite) : Prop :=
  env.fault .openInstalled = false ∧ env.fault .syncInstalled = false

theorem finish_settles {t : FileSystem String} {p : Path String} {K : FileSystem String → Prop}
    (hp : t.node p = some (.file content)) (hK : K t) :
    Settles env.serve (do
        io (FsProg.openFile .openInstalled p)
        io (FsProg.sync .syncInstalled p) : StoreProg WriteSite Unit) t (Finished env) () t K :=
  ((FsProg.settles_observe (FsProg.exec_openFile .openInstalled env t p) (openFile_file hp)
    hK).adapt StoreError.io).bind fun _ => (FsProg.settles_observe
      (FsProg.exec_sync .syncInstalled env t p) (openFile_file hp) hK).adapt StoreError.io

theorem Staging.kept_temporary {t : FileSystem String} (hs : Staging env s par n a content)
    (h : MovedAside env s par n t) : t.node (par ++ [a]) = some (.file content) := by
  rw [h.other, hs.temporary]
  · simpa [sibling_prefix_iff] using Ne.symm hs.apart
  · simpa [backupPath, sibling_prefix_iff] using Ne.symm hs.temporary_ne_backup

theorem install_shows {t u : FileSystem String} {v : Option Node}
    (hs : Staging env s par n a content) (ht : Shows s (par ++ [n]) v t)
    (hu : u.node = Function.update (Function.update t.node (par ++ [n]) (some (.file content)))
      (par ++ [a]) none) : Shows s (par ++ [n]) (some (.file content)) u := by
  have hother : ∀ q ∈ [lockPath, par, par ++ [n]], q ≠ par ++ [a] := fun q hq h =>
    watched_not_below hq hs.temporary_ne_lock hs.apart (h ▸ List.prefix_rfl)
  refine shows_of_other ?_ fun q hq hqp => ?_
  · rw [hu, Function.update_of_ne (hother _ (by simp)), Function.update_self]
  · rw [hu, Function.update_of_ne (hother q hq), Function.update_of_ne hqp,
      ht q (by simpa using hq), Function.update_of_ne hqp]

theorem Shows.slot {t : FileSystem String} {p : Path String} {v : Option Node}
    (h : Shows s p v t) : t.node p = v := by
  rw [h p (by simp), Function.update_self]

theorem removeBackup_settles {u : FileSystem String} {K : FileSystem String → Prop} {v : Node}
    (hs : Staging env s par n a content) (hu : Shows s (par ++ [n]) (some (.file content)) u)
    (hbak : u.node (backupPath env par) = some v) (hK : K u) :
    ∃ t, Shows s (par ++ [n]) (some (.file content)) t ∧
      Settles env.serve (io (FsProg.remove .removeBackup (backupPath env par)) :
        StoreProg WriteSite Unit) u (env.fault .removeBackup = false ∧ v ≠ .dir) () t K := by
  have hexec := FsProg.exec_remove .removeBackup env u (backupPath env par)
  by_cases hv : v = .dir
  · have herror : u.remove (backupPath env par) = .error .isADirectory := by
      simp [FileSystem.remove, hbak, hv]
    exact ⟨u, hu, Settles.congr ((FsProg.settles_change_error hexec herror hK).adapt _)
      (by simp [hv])⟩
  · obtain ⟨t, ht, hnode⟩ := remove_ok hbak hv
    refine ⟨t, fun q hq => ?_, Settles.congr ((FsProg.settles_change hexec ht hK).adapt _)
      (by simp [hv])⟩
    have hne : q ≠ backupPath env par := by
      rintro rfl
      rw [List.dropLast_concat] at hq
      exact watched_not_below hq (backupName_ne_lock _) hs.backup_ne List.prefix_rfl
    rw [hnode]
    exact (Function.update_of_ne hne ..).trans (hu q hq)

theorem rollback_shows {t : FileSystem String} {v : Node} (hs : Staging env s par n a content)
    (hv : s.node (par ++ [n]) = some v) (hmoved : MovedAside env s par n t)
    (hroll : env.fault .rollbackRename = false) :
    Shows s (par ++ [n]) (s.node (par ++ [n]))
      (exec env.serve (FsProg.rename .rollbackRename (backupPath env par) (par ++ [n])) t).2 := by
  have hpar : t.node par = some .dir := by
    rw [hmoved.shows hs par (by simp), Function.update_of_ne (by simp), hs.parent]
  obtain ⟨u, hu, -, hslot, hother⟩ : ∃ u, t.rename (backupPath env par) (par ++ [n]) = .ok u ∧ _ :=
    rename_away hpar (hmoved.backup.trans hv) hs.backup_ne hmoved.slot
  rw [FsProg.exec_rename, Env.change_ok hroll hu]
  refine shows_of_other (hslot.trans hv.symm) fun q hq hqp => ?_
  have hq' : ¬ par ++ [n] <+: q := fun hpre => hqp (watched_below hq hpre)
  have hbak := watched_not_below hq (backupName_ne_lock _) hs.backup_ne
  exact (hother q hbak hq').trans (hmoved.other q hq' hbak)

theorem installTemporary_backed (hs : Staging env s par n a content)
    (hb : BacksUp env s (par ++ [n])) :
    ∃ t, Shows s (par ++ [n]) (some (.file content)) t ∧
      Settles env.serve (installTemporary (par ++ [a]) (par ++ [n])) s
        (Installs env s (par ++ [n]) ∧ Completes env s (par ++ [n])) () t
        (Outcome env s (par ++ [n]) content) := by
  obtain ⟨v, hv, -⟩ := lstat_of_present hb.2
  obtain ⟨t₁, hback, hmoved⟩ := backUp_settles (K := (· = s)) hs rfl hb
  have hpar : t₁.node par = some .dir := by
    rw [hmoved.shows hs par (by simp), Function.update_of_ne (by simp), hs.parent]
  obtain ⟨t₂, hrename, hnode⟩ := rename_replace (b := n) hpar (hs.kept_temporary hmoved) (by simp)
    hs.apart (by simp [hmoved.slot])
  have hshows := install_shows hs (hmoved.shows hs) hnode
  have hbak : t₂.node (backupPath env par) = some v := by
    rw [hnode, Function.update_of_ne (by simpa [backupPath] using Ne.symm hs.temporary_ne_backup),
      Function.update_of_ne (by simpa [backupPath] using hs.backup_ne), hmoved.backup, hv]
  have hfirst := hback.mono (L := Outcome env s (par ++ [n]) content) fun hm u hu => by
    rw [hu]
    exact .ofKept (fun hl => hm hl.2.1) (fun hi => hm (hi.2.1 hb)) (shows_self s _)
  by_cases hinstall : env.fault .installRename = true
  · refine ⟨t₂, hshows, Settles.congr (hfirst.bind (Q := False) fun hm => ?_) ?_⟩
    · refine Settles.bind_sure (a := .error .other) (t := t₁) ?_ ?_
      · rw [exec_attempt, FsProg.exec_rename, Env.change_fault hinstall]
      · change Settles _ (attempt (FsProg.rename (N := String) WriteSite.rollbackRename _ _) >>=
          fun _ => throw _) _ _ _ _ _
        refine Settles.bind_sure (by rw [exec_attempt]) (Settles.throw ?_)
        have hnot : ¬ Installs env s (par ++ [n]) := fun hi => by simp [hi.1] at hinstall
        by_cases hroll : env.fault .rollbackRename = true
        · refine .ofLost ⟨hb, hm, hinstall, hroll⟩ ?_
          rw [FsProg.exec_rename, Env.change_fault hroll]
          exact hmoved.shows hs
        · rw [Bool.not_eq_true] at hroll
          exact .ofKept (fun hl => by simp [hl.2.2.2] at hroll) hnot (rollback_shows hs hv hmoved hroll)
    · simp [Installs, hinstall]
  · rw [Bool.not_eq_true] at hinstall
    have hi : MovesAside env → Installs env s (par ++ [n]) := fun hm =>
      ⟨hinstall, fun _ => hm, fun h => absurd hb h⟩
    have hK : ∀ u, MovesAside env → Shows s (par ++ [n]) (some (.file content)) u →
        Outcome env s (par ++ [n]) content u := fun u hm hu => .ofInstalled (hi hm) hu
    by_cases hm : MovesAside env
    · obtain ⟨t₃, hclean, hremove⟩ := removeBackup_settles hs hshows hbak (hK t₂ hm hshows)
      refine ⟨t₃, hclean, Settles.congr (hfirst.bind
        (Q := (env.fault .removeBackup = false ∧ v ≠ .dir) ∧ Finished env) fun _ => ?_) ?_⟩
      · refine Settles.bind_sure (a := .ok ()) (t := t₂) ?_ ?_
        · rw [exec_attempt, FsProg.exec_rename, Env.change_ok hinstall hrename]
        · exact hremove.bind fun _ => finish_settles hclean.slot (hK t₃ hm hclean)
      · constructor
        · rintro ⟨-, ⟨hremoves, hdir⟩, hopen, hsync⟩
          exact ⟨hi hm, fun _ => ⟨hremoves, by simpa [hv] using hdir⟩, hopen, hsync⟩
        · rintro ⟨-, hcompletes, hopen, hsync⟩
          exact ⟨hm, ⟨(hcompletes hb).1, by simpa [hv] using (hcompletes hb).2⟩, hopen, hsync⟩
    · exact ⟨t₂, hshows, Settles.congr (hfirst.bind (Q := False) fun h => absurd h hm)
        (iff_of_false (fun h => hm h.1) (fun h => hm (h.1.2.1 hb)))⟩

theorem installTemporary_unbacked (hs : Staging env s par n a content)
    (hb : ¬ BacksUp env s (par ++ [n])) :
    ∃ t, (Installs env s (par ++ [n]) → Shows s (par ++ [n]) (some (.file content)) t) ∧
      Settles env.serve (installTemporary (par ++ [a]) (par ++ [n])) s
        (Installs env s (par ++ [n]) ∧ Completes env s (par ++ [n])) () t
        (Outcome env s (par ++ [n]) content) := by
  have hkept : ¬ Installs env s (par ++ [n]) → Outcome env s (par ++ [n]) content s := fun hnot =>
    .ofKept (fun hl => hb hl.1) hnot (shows_self s _)
  have hexec := FsProg.exec_rename .installRename env s (par ++ [a]) (par ++ [n])
  by_cases hi : Installs env s (par ++ [n])
  · obtain ⟨t, hrename, hnode⟩ := rename_replace (b := n) hs.parent hs.temporary (by simp) hs.apart
      (hi.2.2 hb)
    have hshows := install_shows hs (shows_self s _) hnode
    refine ⟨t, fun _ => hshows, Settles.congr (Settles.bind_sure (backUp_skipped hb)
      (Settles.bind_sure (a := .ok ()) (t := t) ?_
        (finish_settles hshows.slot (.ofInstalled hi hshows)))) ?_⟩
    · rw [exec_attempt, hexec, Env.change_ok hi.1 hrename]
    · simp [hi, Completes, hb, Finished]
  · obtain ⟨e, he⟩ : ∃ e, exec env.serve (FsProg.rename .installRename (par ++ [a]) (par ++ [n])) s =
        (.error e, s) := by
      by_cases hinstall : env.fault .installRename = true
      · exact ⟨_, hexec.trans (Env.change_fault hinstall)⟩
      · rw [Bool.not_eq_true] at hinstall
        have hdir : s.node (par ++ [n]) = some .dir := by
          by_contra hdir
          exact hi ⟨hinstall, fun h => absurd h hb, fun _ => hdir⟩
        obtain ⟨e, he⟩ := rename_to_dir hs.temporary (by simp) hdir
        exact ⟨e, hexec.trans (Env.change_error hinstall he)⟩
    refine ⟨s, fun h => absurd h hi, Settles.congr (Settles.bind_sure (backUp_skipped hb)
      (Settles.bind_sure (a := .error e) (t := s) ?_ (Settles.throw (hkept hi)))) (by simp [hi])⟩
    rw [exec_attempt, he]

theorem installTemporary_settles (hs : Staging env s par n a content) :
    ∃ t, (Installs env s (par ++ [n]) → Shows s (par ++ [n]) (some (.file content)) t) ∧
      Settles env.serve (installTemporary (par ++ [a]) (par ++ [n])) s
        (Installs env s (par ++ [n]) ∧ Completes env s (par ++ [n])) () t
        (Outcome env s (par ++ [n]) content) := by
  by_cases hb : BacksUp env s (par ++ [n])
  · obtain ⟨t, ht, h⟩ := installTemporary_backed hs hb
    exact ⟨t, fun _ => ht, h⟩
  · exact installTemporary_unbacked hs hb

end PrivateState
