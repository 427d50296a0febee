import MeridianMcp.AtomicOutput.Resolve

namespace AtomicOutput

open Effects Fallible FileSystem MeridianMcp

variable {env : Env AtomicSite} {fs s t : FileSystem String} {par : Path String} {n a : String}
  {payload : Bytes} {sha256 : Bytes → String} {K : FileSystem String → Prop}

def AtomicOutputError.isReplacement : AtomicOutputError → Bool
  | .replacement _ _ => true
  | _ => false

theorem io_plain {α : Type} {x : FsProg AtomicSite String IoError α} {e : AtomicOutputError}
    (h : exec env.serve (io x) s = (.error e, t)) : e.isReplacement = false := by
  rw [io, exec_adapt] at h
  cases hr : (exec env.serve x s).1 with
  | ok a =>
    rw [hr] at h
    cases h
  | error e' =>
    rw [hr] at h
    cases h
    rfl

theorem removeBackup_plain {backup : Option (Path String)} {e : AtomicOutputError}
    (h : exec env.serve (removeBackup backup) s = (.error e, t)) : e.isReplacement = false := by
  cases backup with
  | none => cases h
  | some _ => exact io_plain h

def availableBackup (env : Env AtomicSite) (s : FileSystem String) (par : Path String) :
    Nat → Option (Path String)
  | 0 => none
  | attempt + 1 =>
    let path := privatePath par "backup" (env.entropy (.backupRandom attempt))
    if env.fault (.backupRandom attempt) = true then none
    else if !env.fault (.backupExists attempt) && s.present path then availableBackup env s par attempt
    else some path

theorem availableBackup_some {k : Nat} {b : Path String} (h : availableBackup env s par k = some b) :
    ∃ j, b = privatePath par "backup" (env.entropy (.backupRandom j)) ∧
      (env.fault (.backupExists j) = true ∨ s.present b = false) := by
  induction k with
  | zero => cases h
  | succ k ih =>
    simp only [availableBackup] at h
    split at h
    · cases h
    · split at h
      · exact ih h
      · rename_i hseen
        cases h
        refine ⟨k, rfl, ?_⟩
        cases hf : env.fault (.backupExists k) with
        | true => exact .inl rfl
        | false => exact .inr (by simpa [hf] using hseen)

theorem availableBackup_congr
    (h : ∀ r, s.node (privatePath par "backup" r) = t.node (privatePath par "backup" r)) (k : Nat) :
    availableBackup env s par k = availableBackup env t par k := by
  induction k with
  | zero => rfl
  | succ k ih => rw [availableBackup, availableBackup, present_congr (h _), ih]

theorem privateAvailablePath_settles (k : Nat) (hK : K s) :
    Settles env.serve (privateAvailablePath par k) s (availableBackup env s par k ≠ none)
      ((availableBackup env s par k).getD []) s K := by
  induction k with
  | zero => exact (Settles.throw hK).congr (by simp [availableBackup])
  | succ k ih =>
    rw [privateAvailablePath, availableBackup]
    have hrandom := (FsProg.settles_observe (FsProg.exec_random (.backupRandom k) env s) rfl hK).adapt
      AtomicOutputError.entropy
    have hexists := FsProg.exec_pathExists (ε := AtomicOutputError) (.backupExists k) env s
      (privatePath par "backup" (env.entropy (.backupRandom k)))
    cases hf : env.fault (.backupRandom k) with
    | true => exact (hrandom.bind_fails (by simp [hf])).congr (by simp)
    | false =>
      refine Settles.bind_sure (hrandom.1 hf) (Settles.bind_sure hexists ?_)
      simp only [Bool.false_eq_true, if_false]
      split
      · exact ih
      · exact (Settles.pure _).congr (by simp)

def Reads (env : Env AtomicSite) : Prop :=
  env.fault .measure = false ∧ env.fault .hashOpen = false ∧ env.fault .hashRead = false

def BacksUp (env : Env AtomicSite) (s : FileSystem String) (p : Path String) : Prop :=
  env.fault .installExists = false ∧ s.present p = true

def MovesAside (env : Env AtomicSite) (s : FileSystem String) (p : Path String) : Prop :=
  availableBackup env s p.dropLast randomNameAttempts ≠ none ∧ env.fault .backupRename = false

def Prepares (env : Env AtomicSite) (s : FileSystem String) (p : Path String) : Prop :=
  Reads env ∧ (BacksUp env s p → MovesAside env s p)

def Installs (env : Env AtomicSite) (s : FileSystem String) (p : Path String) : Prop :=
  Prepares env s p ∧ env.fault .installRename = false

def RollbackFails (env : Env AtomicSite) (s : FileSystem String) (p : Path String) : Prop :=
  Prepares env s p ∧ BacksUp env s p ∧ env.fault .installRename = true ∧
    env.fault .rollbackRename = true

def Completes (env : Env AtomicSite) (s : FileSystem String) (p : Path String) : Prop :=
  (BacksUp env s p → env.fault .removeBackup = false) ∧ env.fault .canonicalizeInstalled = false

-- A temporary next to its destination; a drawn backup name that is taken is seen to be taken.
structure Staged (env : Env AtomicSite) (s : FileSystem String) (par : Path String) (n a : String)
    (payload : Bytes) : Prop where
  parent : s.node par = some .dir
  temporary : s.node (par ++ [a]) = some (.file payload)
  destination : s.node (par ++ [n]) = none ∨ ∃ b, s.node (par ++ [n]) = some (.file b)
  apart : a ≠ n
  backups : ∀ k, a ≠ privateName "backup" (env.entropy (.backupRandom k)) ∧
    (s.node (privatePath par "backup" (env.entropy (.backupRandom k))) = none ∨
      env.fault (.backupExists k) = false ∧
        s.present (privatePath par "backup" (env.entropy (.backupRandom k))) = true)

theorem Staged.available (hs : Staged env s par n a payload) {k : Nat} {b : Path String}
    (h : availableBackup env s par k = some b) (hdest : s.present (par ++ [n]) = true) :
    ∃ r, b = privatePath par "backup" r ∧ s.node b = none ∧ privateName "backup" r ≠ a ∧
      privateName "backup" r ≠ n := by
  obtain ⟨j, rfl, hseen⟩ := availableBackup_some h
  obtain ⟨hne, hfree⟩ := hs.backups j
  have hnone : s.node (privatePath par "backup" (env.entropy (.backupRandom j))) = none := by
    rcases hfree with h | ⟨hf, hp⟩
    · exact h
    · rcases hseen with hfault | habsent
      · rw [hf] at hfault
        cases hfault
      · rw [hp] at habsent
        cases habsent
  refine ⟨_, rfl, hnone, hne.symm, fun heq => ?_⟩
  rw [← heq] at hdest
  exact absurd hdest (by simpa [privatePath] using not_present_of_none hnone)

inductive SetAside (env : Env AtomicSite) (s : FileSystem String) (par : Path String) (n a : String) :
    Option (Path String) → FileSystem String → Prop
  | kept : ¬ BacksUp env s (par ++ [n]) → SetAside env s par n a none s
  | moved {c r t} : c = privateName "backup" r → BacksUp env s (par ++ [n]) →
      s.node (par ++ [c]) = none → c ≠ a → c ≠ n →
      t.node = Function.update (Function.update s.node (par ++ [c]) (s.node (par ++ [n])))
        (par ++ [n]) none → SetAside env s par n a (some (par ++ [c])) t

theorem Staged.not_dir (hs : Staged env s par n a payload) {v : Node}
    (hv : s.node (par ++ [n]) = some v) : v ≠ .dir := by
  rintro rfl
  rcases hs.destination with h | ⟨b, h⟩ <;> simp [hv] at h

theorem backUp_settles (hs : Staged env s par n a payload) :
    ∃ backup t, ((BacksUp env s (par ++ [n]) → MovesAside env s (par ++ [n])) →
        SetAside env s par n a backup t) ∧
      Settles env.serve (backUp (par ++ [n])) s
        (BacksUp env s (par ++ [n]) → MovesAside env s (par ++ [n])) backup t (fun u => u = s) := by
  have hexists := FsProg.exec_pathExists (ε := AtomicOutputError) .installExists env s (par ++ [n])
  rw [backUp, MovesAside, List.dropLast_concat]
  by_cases hb : BacksUp env s (par ++ [n])
  · have hseen : (!env.fault .installExists && s.present (par ++ [n])) = true := by
      rw [hb.1, hb.2]
      rfl
    have hdraw : Settles env.serve (privateAvailablePath par randomNameAttempts) s
        (availableBackup env s par randomNameAttempts ≠ none)
        ((availableBackup env s par randomNameAttempts).getD []) s (fun u => u = s) :=
      privateAvailablePath_settles randomNameAttempts rfl
    cases hc : availableBackup env s par randomNameAttempts with
    | none =>
      rw [hc] at hdraw
      refine ⟨none, s, fun h => absurd rfl (h hb).1, Settles.bind_sure hexists ?_⟩
      rw [if_pos hseen]
      exact (hdraw.bind_fails (by simp)).congr (by simp [hb])
    | some b =>
      obtain ⟨r, rfl, hfree, hca, hcn⟩ := hs.available hc hb.2
      obtain ⟨v, hv, -⟩ := lstat_of_present hb.2
      obtain ⟨t, ht, hnode⟩ := rename_replace hs.parent hv (hs.not_dir hv) (Ne.symm hcn)
        (fun h => by cases hfree.symm.trans h)
      have hrename := (FsProg.settles_change (K := fun u => u = s)
        (FsProg.exec_rename .backupRename env s _ _) ht rfl).adapt AtomicOutputError.io
      rw [hc] at hdraw
      refine ⟨_, t, fun _ => .moved rfl hb hfree hca hcn (by rw [hnode, hv]),
        Settles.bind_sure hexists ?_⟩
      rw [if_pos hseen]
      refine Settles.bind_sure (hdraw.1 (by simp)) ?_
      exact (hrename.bind fun _ => Settles.pure (some _)).congr (by simp [hb])
  · have hseen : ¬ (!env.fault .installExists && s.present (par ++ [n])) = true := by
      simpa [BacksUp] using hb
    refine ⟨none, s, fun _ => .kept hb, Settles.bind_sure hexists ?_⟩
    rw [if_neg hseen]
    exact (Settles.pure _).congr (by simp [hb])

theorem hashFile_settles {p : Path String} (hp : s.node p = some (.file payload)) (hK : K s) :
    Settles env.serve (hashFile sha256 p) s
      (env.fault .hashOpen = false ∧ env.fault .hashRead = false) (sha256 payload) s K := by
  have hbytes : s.read p = .ok payload := by simp [FileSystem.read, hp]
  have hopen := (FsProg.settles_observe (FsProg.exec_openFile AtomicSite.hashOpen env s p)
    (openFile_file hp) hK).adapt AtomicOutputError.io
  have hread := (FsProg.settles_observe (FsProg.exec_read AtomicSite.hashRead env s p) hbytes
    hK).adapt AtomicOutputError.io
  refine hopen.bind fun _ => Settles.congr (hread.bind fun _ => Settles.pure (sha256 payload)) ?_
  rw [and_true]

theorem prepareInstall_settles (hs : Staged env s par n a payload) :
    ∃ backup t, (Prepares env s (par ++ [n]) → SetAside env s par n a backup t) ∧
      Settles env.serve (prepareInstall sha256 (par ++ [n]) (par ++ [a])) s (Prepares env s (par ++ [n]))
        ⟨backup, payload.length, sha256 payload⟩ t (fun u => u = s) := by
  obtain ⟨backup, t, hside, hbackUp⟩ := backUp_settles hs
  have hlen : s.measure (par ++ [a]) = .ok payload.length := by simp [FileSystem.measure, hs.temporary]
  have hmeasure := (FsProg.settles_observe (K := fun u => u = s)
    (FsProg.exec_measure AtomicSite.measure env s (par ++ [a])) hlen rfl).adapt AtomicOutputError.io
  have hhash : Settles env.serve (hashFile sha256 (par ++ [a])) s
      (env.fault .hashOpen = false ∧ env.fault .hashRead = false) (sha256 payload) s (fun u => u = s) :=
    hashFile_settles hs.temporary rfl
  have hrest : Settles env.serve (backUp (par ++ [n]) >>= fun backup => pure
      (⟨backup, payload.length, sha256 payload⟩ : Installed)) s _ _ t (fun u => u = s) :=
    hbackUp.bind fun _ => Settles.pure _
  refine ⟨backup, t, fun h => hside h.2, ?_⟩
  rw [prepareInstall, if_neg (by simp)]
  refine Settles.congr (hmeasure.bind fun _ => hhash.bind fun _ => hrest) ?_
  simp only [Prepares, Reads, and_true, and_assoc]

def replacedNode (s : FileSystem String) (par : Path String) (n a : String) (payload : Bytes) :
    Option (Path String) → Path String → Option Node
  | none => Function.update (Function.update s.node (par ++ [a]) none) (par ++ [n]) (some (.file payload))
  | some backup => Function.update (Function.update (Function.update s.node (par ++ [a]) none) backup
      (s.node (par ++ [n]))) (par ++ [n]) (some (.file payload))

section renames

variable {backup : Option (Path String)} {out : FileSystem String}

theorem SetAside.kept_parent (h : SetAside env s par n a backup t) (hs : Staged env s par n a payload) :
    t.node par = some .dir ∧ t.node (par ++ [a]) = some (.file payload) ∧
      t.node (par ++ [n]) ≠ some .dir := by
  cases h with
  | kept _ => exact ⟨hs.parent, hs.temporary, fun h => hs.not_dir h rfl⟩
  | moved _ _ _ hca _ ht =>
    rw [ht, Function.update_self]
    refine ⟨?_, ?_, by simp⟩
    · rw [Function.update_of_ne (by simp), Function.update_of_ne (by simp), hs.parent]
    · rw [Function.update_of_ne (by simpa using hs.apart), Function.update_of_ne (by simpa using hca.symm),
        hs.temporary]

theorem SetAside.installs (h : SetAside env s par n a backup t) (hs : Staged env s par n a payload)
    (hf : env.fault .installRename = false) :
    ∃ u, exec env.serve (renameOrRestore (par ++ [n]) (par ++ [a]) backup) t = (.ok (), u) ∧
      u.node = replacedNode s par n a payload backup := by
  obtain ⟨hpar, htmp, hdir⟩ := h.kept_parent hs
  obtain ⟨u, hu, hnode⟩ := rename_replace hpar htmp (by simp) hs.apart hdir
  refine ⟨u, ?_, ?_⟩
  · rw [renameOrRestore, exec_bind_ok _ (exec_attempt _ _ _), FsProg.exec_rename, Env.change_ok hf hu]
    rfl
  · rw [hnode]
    cases h with
    | kept _ => exact Function.update_comm (by simpa using hs.apart.symm) ..
    | @moved c _ _ _ _ _ hca hcn ht =>
      rw [ht, replacedNode, Function.update_idem, Function.update_comm (by simpa using hs.apart.symm),
        Function.update_comm (a := par ++ [c]) (by simpa using hca)]

theorem SetAside.restores (h : SetAside env s par n a backup t) (hs : Staged env s par n a payload)
    (hf : env.fault .installRename = true)
    (hr : BacksUp env s (par ++ [n]) → env.fault .rollbackRename = false) :
    exec env.serve (renameOrRestore (par ++ [n]) (par ++ [a]) backup) t = (.error (.io .other), s) := by
  rw [renameOrRestore, exec_bind_ok _ (exec_attempt _ _ _), FsProg.exec_rename, Env.change_fault hf]
  cases h with
  | kept _ => rfl
  | @moved c _ _ hname hb hfree hca hcn ht =>
    obtain ⟨hpar, -, -⟩ := (SetAside.moved hname hb hfree hca hcn ht).kept_parent hs
    obtain ⟨v, hv, -⟩ := lstat_of_present hb.2
    have hbak : t.node (par ++ [c]) = some v := by
      rw [ht, Function.update_of_ne (by simpa using hcn), Function.update_self, hv]
    obtain ⟨u, hu, hnode⟩ := rename_replace hpar hbak (hs.not_dir hv) hcn (by
      rw [ht, Function.update_self]
      simp)
    have hclear : Function.update s.node (par ++ [c]) none = s.node := by
      rw [← hfree, Function.update_eq_self]
    have hback : u = s := by
      apply ext_node
      rw [hnode, ht, Function.update_idem, ← hv,
        Function.update_comm (a := par ++ [n]) (by simpa using hcn.symm), Function.update_idem, hclear,
        Function.update_eq_self]
    simp only
    rw [exec_bind_ok _ (exec_attempt _ _ _), FsProg.exec_rename, Env.change_ok (hr hb) hu, hback]
    rfl

theorem SetAside.stuck (h : SetAside env s par n a backup t) (hb : BacksUp env s (par ++ [n]))
    (hf : env.fault .installRename = true) (hr : env.fault .rollbackRename = true) :
    exec env.serve (renameOrRestore (par ++ [n]) (par ++ [a]) backup) t =
      (.error (.replacement .other .other), t) := by
  rw [renameOrRestore, exec_bind_ok _ (exec_attempt _ _ _), FsProg.exec_rename, Env.change_fault hf]
  cases h with
  | kept h => exact absurd hb h
  | moved _ _ _ _ _ _ =>
    simp only
    rw [exec_bind_ok _ (exec_attempt _ _ _), FsProg.exec_rename, Env.change_fault hr]
    rfl

theorem removeBackup_settles (h : SetAside env s par n a backup t) (hs : Staged env s par n a payload)
    (hu : out.node = replacedNode s par n a payload backup) :
    ∃ u, u.node = Function.update (Function.update s.node (par ++ [a]) none) (par ++ [n])
        (some (.file payload)) ∧
      Settles env.serve (removeBackup backup) out
        (BacksUp env s (par ++ [n]) → env.fault .removeBackup = false) () u (fun u => u = out) := by
  cases h with
  | kept hb => exact ⟨out, hu, (Settles.pure ()).congr (by simp [hb])⟩
  | @moved c _ _ _ hb hfree hca hcn _ =>
    obtain ⟨v, hv, -⟩ := lstat_of_present hb.2
    have hbak : out.node (par ++ [c]) = some v := by
      rw [hu, replacedNode, Function.update_of_ne (by simpa using hcn), Function.update_self, hv]
    obtain ⟨u, hremove, hnode⟩ := remove_ok hbak (hs.not_dir hv)
    have hclear : Function.update s.node (par ++ [c]) none = s.node := by
      rw [← hfree, Function.update_eq_self]
    have hdone := (FsProg.settles_change (K := fun u => u = out)
      (FsProg.exec_remove AtomicSite.removeBackup env out _) hremove rfl).adapt AtomicOutputError.io
    refine ⟨u, ?_, hdone.congr (by simp [hb])⟩
    rw [hnode, hu, replacedNode, Function.update_comm (a := par ++ [n]) (by simpa using hcn.symm),
      Function.update_idem, Function.update_comm (a := par ++ [a]) (by simpa using hca.symm), hclear]

end renames

def dropped (env : Env AtomicSite) (s : FileSystem String) (tmp : Path String) : FileSystem String :=
  (exec env.serve (FsProg.remove .dropTemporary tmp) s).2

theorem node_dropped (env : Env AtomicSite) (s : FileSystem String) (tmp : Path String) :
    (dropped env s tmp).node = if env.fault .dropTemporary = true ∨ s.node tmp = some .dir then s.node
      else Function.update s.node tmp none := by
  rw [dropped, FsProg.exec_remove]
  cases hf : env.fault .dropTemporary with
  | true =>
    rw [Env.change_fault hf]
    simp
  | false =>
    by_cases hnone : s.node tmp = none
    · rw [Env.change_error hf (e := .notFound) (by simp [FileSystem.remove, hnone])]
      rw [← hnone, Function.update_eq_self, ite_self]
    · by_cases hdir : s.node tmp = some .dir
      · rw [Env.change_error hf (e := .isADirectory) (by simp [FileSystem.remove, hdir])]
        simp [hdir]
      · have hremove : s.remove tmp = .ok (s.drop tmp hdir) := by
          rw [FileSystem.remove, if_neg hnone, dif_pos hdir]
        rw [Env.change_ok hf hremove, if_neg (by simp [hdir])]
        rfl

theorem exec_armed_error {α : Type} {tmp : Path String} {x : OutputProg α} {e : AtomicOutputError}
    (h : exec env.serve x s = (.error e, t)) :
    exec env.serve (armed tmp x) s = (.error e, dropped env t tmp) := by
  rw [armed, exec_onError, h]
  rfl

theorem exec_armed_ok {α : Type} {tmp : Path String} {x : OutputProg α} {v : α}
    (h : exec env.serve x s = (.ok v, t)) : exec env.serve (armed tmp x) s = (.ok v, t) := by
  rw [armed, exec_onError, h]

-- How an install ends: with the destination as it was, with a reported failed rollback, or with
-- the payload in place, whether or not the steps after the rename succeed.
inductive Outcome (env : Env AtomicSite) (s : FileSystem String) (par : Path String) (n a : String)
    (payload : Bytes) : Except AtomicOutputError OutputArtifact → FileSystem String → Prop
  | refused {e} : ¬ Installs env s (par ++ [n]) →
      Outcome env s par n a payload (.error e) (dropped env s (par ++ [a]))
  | stuck {install restore t} : RollbackFails env s (par ++ [n]) →
      Outcome env s par n a payload (.error (.replacement install restore)) t
  | done {artifact t} : Installs env s (par ++ [n]) → Completes env s (par ++ [n]) →
      t.node = Function.update (Function.update s.node (par ++ [a]) none) (par ++ [n])
        (some (.file payload)) → Outcome env s par n a payload (.ok artifact) t
  | unfinished {e t} : Installs env s (par ++ [n]) → ¬ Completes env s (par ++ [n]) →
      e.isReplacement = false → t.node (par ++ [n]) = some (.file payload) →
      (∀ q, q ≠ par ++ [n] → (∀ r, q ≠ privatePath par "backup" r) →
        t.node q = Function.update s.node (par ++ [a]) none q) →
      Outcome env s par n a payload (.error e) t

theorem installed_outcome {backup : Option (Path String)} {u : FileSystem String}
    (hi : Installs env s (par ++ [n])) (hside : SetAside env s par n a backup t)
    (hs : Staged env s par n a payload) (hu : u.node = replacedNode s par n a payload backup) :
    let x : OutputProg OutputArtifact := do
      removeBackup backup
      let path ← io (FsProg.canonicalize .canonicalizeInstalled (par ++ [n]))
      pure ⟨path, payload.length, sha256 payload⟩
    Outcome env s par n a payload (exec env.serve x u).1 (exec env.serve x u).2 := by
  intro x
  have hdest : u.node (par ++ [n]) = some (.file payload) := by
    rw [hu]
    cases backup <;> rw [replacedNode, Function.update_self]
  have hother : ∀ q, q ≠ par ++ [n] → (∀ r, q ≠ privatePath par "backup" r) →
      u.node q = Function.update s.node (par ++ [a]) none q := by
    intro q hqn hqb
    rw [hu]
    cases hside with
    | kept _ => rw [replacedNode, Function.update_of_ne hqn]
    | @moved c r _ hname _ _ _ _ _ =>
      rw [replacedNode, Function.update_of_ne hqn, Function.update_of_ne (hname ▸ hqb r)]
  obtain ⟨v, hv, hremove⟩ := removeBackup_settles hside hs hu
  have hcanon : v.canonicalize (par ++ [n]) = .ok (some (par ++ [n])) := by
    simp [FileSystem.canonicalize, hv]
  have hpath : Settles env.serve (io (FsProg.canonicalize .canonicalizeInstalled (par ++ [n]))) v _ _ v
      (fun w => w = v) := (FsProg.settles_observe (K := fun w => w = v)
    (FsProg.exec_canonicalize AtomicSite.canonicalizeInstalled env v (par ++ [n])) hcanon rfl).adapt _
  by_cases hb : BacksUp env s (par ++ [n]) → env.fault .removeBackup = false
  · by_cases hc : env.fault .canonicalizeInstalled = false
    · have hx : exec env.serve x u = (.ok ⟨some (par ++ [n]), payload.length, sha256 payload⟩, v) := by
        rw [exec_bind_ok _ (hremove.1 hb), exec_bind_ok _ (hpath.1 hc)]
        rfl
      rw [hx]
      exact .done hi ⟨hb, hc⟩ hv
    · obtain ⟨e, w, he, rfl⟩ := hpath.2 hc
      have hx : exec env.serve x u = (.error e, w) := by
        rw [exec_bind_ok _ (hremove.1 hb), exec_bind_error _ he]
      rw [hx]
      refine .unfinished hi (fun h => hc h.2) (io_plain he) (by simp [hv]) fun q hqn hqb => ?_
      rw [hv, Function.update_of_ne hqn]
  · obtain ⟨e, w, he, rfl⟩ := hremove.2 hb
    have hx : exec env.serve x w = (.error e, w) := exec_bind_error _ he
    rw [hx]
    exact .unfinished hi (fun h => hb h.1) (removeBackup_plain he) hdest hother

variable (sha256) in
theorem moveIntoPlace_refused (hs : Staged env s par n a payload) (hi : ¬ Installs env s (par ++ [n])) :
    ∃ e u, exec env.serve (moveIntoPlace sha256 (par ++ [n]) (par ++ [a])) s = (.error e, u) ∧
      (u = s ∨ e = .replacement .other .other ∧ RollbackFails env s (par ++ [n]) ∧
        ∃ backup, SetAside env s par n a backup u) := by
  obtain ⟨backup, t, hside, hprepare⟩ := prepareInstall_settles hs
  by_cases hp : Prepares env s (par ++ [n])
  · have hside := hside hp
    have hrename : exec env.serve (moveIntoPlace sha256 (par ++ [n]) (par ++ [a])) s = _ :=
      exec_bind_ok _ (hprepare.1 hp)
    have hf : env.fault .installRename = true := by
      rw [← Bool.not_eq_false]
      exact fun hf => hi ⟨hp, hf⟩
    by_cases hr : BacksUp env s (par ++ [n]) → env.fault .rollbackRename = false
    · rw [exec_bind_error _ (hside.restores hs hf hr)] at hrename
      exact ⟨_, s, hrename, .inl rfl⟩
    · rw [Classical.not_imp, Bool.not_eq_false] at hr
      rw [exec_bind_error _ (hside.stuck hr.1 hf hr.2)] at hrename
      exact ⟨_, t, hrename, .inr ⟨rfl, ⟨hp, hr.1, hf, hr.2⟩, backup, hside⟩⟩
  · obtain ⟨e, u, he, rfl⟩ := hprepare.2 hp
    exact ⟨e, u, exec_bind_error _ he, .inl rfl⟩

theorem exec_installTemporary_refused {out tmp : Path String} {e : AtomicOutputError}
    (h : exec env.serve (moveIntoPlace sha256 out tmp) s = (.error e, t)) :
    exec env.serve (installTemporary sha256 out tmp) s = (.error e, dropped env t tmp) := by
  rw [installTemporary, exec_bind_error _ (exec_armed_error h)]

variable (sha256) in
theorem installTemporary_outcome (hs : Staged env s par n a payload) :
    Outcome env s par n a payload
      (exec env.serve (installTemporary sha256 (par ++ [n]) (par ++ [a])) s).1
      (exec env.serve (installTemporary sha256 (par ++ [n]) (par ++ [a])) s).2 := by
  by_cases hi : Installs env s (par ++ [n])
  · obtain ⟨backup, t, hside, hprepare⟩ := prepareInstall_settles hs
    obtain ⟨u, hu, hnode⟩ := (hside hi.1).installs hs hi.2
    have hrename : exec env.serve (moveIntoPlace sha256 (par ++ [n]) (par ++ [a])) s = _ :=
      exec_bind_ok _ (hprepare.1 hi.1)
    rw [exec_bind_ok _ hu] at hrename
    rw [installTemporary, exec_bind_ok _ (exec_armed_ok hrename)]
    exact installed_outcome hi (hside hi.1) hs hnode
  · obtain ⟨e, u, hexec, hkept⟩ := moveIntoPlace_refused sha256 hs hi
    rw [exec_installTemporary_refused hexec]
    rcases hkept with rfl | ⟨rfl, hrollback, -⟩
    · exact .refused hi
    · exact .stuck hrollback

end AtomicOutput
