import MeridianMcp.Effects.Crash
import MeridianMcp.PrivateState.Records
import MeridianMcp.PrivateState.Acceptance

namespace PrivateState

open Effects Fallible FileSystem

inductive Step where
  | created | backedUp | installed | removed
  deriving DecidableEq, Repr

-- The operations of a write that move names; a drawn name that is taken creates nothing.
def step (env : Env WriteSite) (fs : FileSystem String) (par : Path String) :
    WriteSite → Option Step
  | .createTemporary attempt =>
    if fs.node (temporaryPath env par attempt) = none then some .created else none
  | .backupRename => some .backedUp
  | .installRename => some .installed
  | .removeBackup => some .removed
  | _ => none

def Grown (fs : FileSystem String) (par : Path String) (t : FileSystem String) : Prop :=
  ∀ q, t.node q = fs.node q ∨ (fs.node q = none ∧ t.node q = some .dir ∧ q <+: par)

theorem Grown.refl (fs : FileSystem String) (par : Path String) : Grown fs par fs := fun _ => .inl rfl

theorem grown_createDirAll {fs t : FileSystem String} {par q : Path String} (hq : q <+: par)
    (h : fs.createDirAll q = .ok t) : Grown fs par t := by
  unfold createDirAll at h
  split at h
  · cases h
    intro x
    rw [node_mkdirs]
    by_cases hx : x <+: q ∧ fs.node x = none
    · rw [if_pos hx]
      exact .inr ⟨hx.2, rfl, hx.1.trans hq⟩
    · rw [if_neg hx]
      exact .inl rfl
  · cases h

theorem Grown.records {fs t : FileSystem String} {par : Path String} (h : Grown fs par t) :
    records t = records fs := by
  ext1 q
  rw [get_records, get_records]
  rcases h q with heq | ⟨hnone, hdir, -⟩
  · rw [heq]
  · rw [hnone, hdir]
    rfl

section quiet

variable {α : Type} {env : Env WriteSite} {fs s : FileSystem String} {mark : WriteSite → Option Step}

abbrev Silent (env : Env WriteSite) (mark : WriteSite → Option Step) (x : StoreProg WriteSite α)
    (s : FileSystem String) : Prop :=
  Quiet env.serve Env.Torn (FsProg.marked mark) x s

theorem silent_lockOperation (h : ∀ site, mark (.lock site) = none) :
    Silent env mark (lockOperation .lock) s := by
  refine Quiet.bind ((FsProg.quiet_act rfl (h _)).adapt _) fun _ => Quiet.ite (Quiet.throw _) ?_
  refine Quiet.bind ((FsProg.quiet_act rfl (h _)).adapt _) fun _ => ?_
  refine Quiet.bind ((FsProg.quiet_act rfl (h _)).adapt _) fun _ => Quiet.ite (Quiet.throw _) ?_
  exact (FsProg.quiet_act rfl (h _)).adapt _

theorem silent_checkParent {at_ : ResolveSite → WriteSite} (h : ∀ site, mark (at_ site) = none)
    (parent : Path String) : Silent env mark (checkParent at_ parent) s := by
  refine Quiet.bind (FsProg.quiet_pathExists (h _)) fun _ => Quiet.ite ?_ (Quiet.pure _)
  refine Quiet.bind ((FsProg.quiet_act rfl (h _)).adapt _) fun _ => ?_
  exact Quiet.ite (Quiet.throw _) (Quiet.pure _)

theorem silent_checkSlot {at_ : ResolveSite → WriteSite} (h : ∀ site, mark (at_ site) = none)
    (path : Path String) : Silent env mark (checkSlot at_ path) s := by
  refine Quiet.bind (FsProg.quiet_pathExists (h _)) fun _ => Quiet.ite ?_ (Quiet.pure _)
  refine Quiet.bind ((FsProg.quiet_act rfl (h _)).adapt _) fun _ => ?_
  exact Quiet.ite (Quiet.throw _) (Quiet.pure _)

theorem silent_readJsonUnlocked {at_ : ReadSite → WriteSite} (h : ∀ site, mark (at_ site) = none)
    (decode : Bytes → Option α) (relative : List Component) :
    Silent env mark (readJsonUnlocked at_ decode relative) s := by
  refine Quiet.bind (Quiet.ite (Quiet.throw _) ?_) fun path => ?_
  · refine Quiet.bind (silent_checkParent (fun _ => h _) _) fun _ => ?_
    exact Quiet.bind (silent_checkSlot (fun _ => h _) _) fun _ => Quiet.pure _
  · refine Quiet.bind ((FsProg.quiet_act rfl (h _)).adapt _) fun _ => Quiet.ite (Quiet.throw _) ?_
    refine Quiet.ite (Quiet.throw _) ?_
    refine Quiet.bind ((FsProg.quiet_act rfl (h _)).adapt _) fun b => Quiet.ite (Quiet.throw _) ?_
    cases decode (b.take (maxRecordBytes + 1)) with
    | none => exact Quiet.throw _
    | some v => exact Quiet.pure v

end quiet

section walks

variable {α : Type} {env : Env WriteSite} {fs s : FileSystem String} {par : Path String} {n a : String}
  {Φ : List Step → FileSystem String → Prop}

abbrev Follows (env : Env WriteSite) (fs : FileSystem String) (par : Path String)
    (x : StoreProg WriteSite α) (s : FileSystem String) (r : Except StoreError α)
    (t : FileSystem String) (ms : List Step) (Φ : List Step → FileSystem String → Prop) : Prop :=
  Walks env.serve Env.Torn (FsProg.marked (step env fs par)) x s r t ms Φ

variable (env fs par) in
theorem grown_exec_createDirAll :
    Grown fs par (exec env.serve (FsProg.createDirAll (WriteSite.resolve .createParent) par) fs).2 := by
  rw [FsProg.exec_createDirAll]
  cases hf : env.fault (.resolve .createParent) with
  | true =>
    rw [Env.change_fault hf]
    exact .refl fs par
  | false =>
    cases hc : fs.createDirAll par with
    | error e =>
      rw [Env.change_error hf rfl]
      exact .refl fs par
    | ok t =>
      rw [Env.change_ok hf rfl]
      exact grown_createDirAll List.prefix_rfl hc

variable (env fs par) in
theorem walks_createDirAll (hΦ : ∀ t, Grown fs par t → Φ [] t) :
    Follows env fs par (io (FsProg.createDirAll (WriteSite.resolve .createParent) par)) fs
      ((exec env.serve (FsProg.createDirAll (WriteSite.resolve .createParent) par) fs).1.mapError .io)
      (exec env.serve (FsProg.createDirAll (WriteSite.resolve .createParent) par) fs).2 [] Φ :=
  (FsProg.walks_act (step env fs par) (c := ⟨.resolve .createParent, .createDirAll par⟩)
    (r := (exec env.serve (FsProg.createDirAll (WriteSite.resolve .createParent) par) fs).1)
    (t := (exec env.serve (FsProg.createDirAll (WriteSite.resolve .createParent) par) fs).2)
    rfl (hΦ fs (.refl fs par)) (fun u ⟨_, hq, hu⟩ => hΦ u (grown_createDirAll hq hu))
    (hΦ _ (grown_exec_createDirAll env fs par))).adapt _

variable (env fs) in
theorem walks_resolveRecord (relative : List Component) (hp : (recordPath relative).dropLast = par)
    (hΦ : ∀ t, Grown fs par t → Φ [] t) :
    ∃ t, Grown fs par t ∧ Follows env fs par (resolveRecord .resolve relative true) fs
      (exec env.serve (resolveRecord .resolve relative true) fs).1 t [] Φ := by
  suffices h : ∃ r t, Grown fs par t ∧
      Follows env fs par (resolveRecord .resolve relative true) fs r t [] Φ by
    obtain ⟨r, t, ht, hwalk⟩ := h
    exact ⟨t, ht, by rwa [hwalk.exec]⟩
  by_cases hname : invalidName relative
  · rw [resolveRecord, if_pos hname]
    exact ⟨_, fs, .refl fs par, .throw (hΦ fs (.refl fs par))⟩
  · have hrest : ∀ t, Silent env (step env fs par) (do
        checkParent .resolve (recordPath relative).dropLast
        checkSlot .resolve (recordPath relative)
        pure (recordPath relative)) t := fun t =>
      Quiet.bind (silent_checkParent (fun _ => rfl) _) fun _ =>
        Quiet.bind (silent_checkSlot (fun _ => rfl) _) fun _ => Quiet.pure _
    have hcreate := walks_createDirAll env fs par hΦ
    have hgrown := grown_exec_createDirAll env fs par
    subst hp
    rw [resolveRecord, if_neg hname]
    revert hcreate hgrown
    rcases exec env.serve (FsProg.createDirAll (WriteSite.resolve .createParent) _) fs with ⟨r, t⟩
    intro hcreate hgrown
    cases r with
    | error e => exact ⟨_, t, hgrown, hcreate.bind_error⟩
    | ok _ => exact ⟨_, t, hgrown, hcreate.bind ((hrest t).walks (hΦ t hgrown))⟩

variable (fs par) in
theorem walks_random (site : WriteSite) (hsound : ∀ site, env.fault site = false)
    (hstep : step env fs par site = none) (hΦ : Φ [] s) :
    Follows env fs par (io (FsProg.random site)) s (.ok (env.entropy site)) s [] Φ := by
  have hexec := exec_io_observe (hsound site) (FsProg.exec_random site env s)
  have hquiet : Silent env (step env fs par) (io (FsProg.random site)) s :=
    (FsProg.quiet_act rfl hstep).adapt _
  have hwalk := hquiet.walks hΦ
  rwa [hexec] at hwalk

variable (fs Φ) in
theorem walks_createNew {k : Nat} {r : Except IoError Unit} {t : FileSystem String}
    (hexec : exec env.serve (FsProg.createNew (.createTemporary k) (temporaryPath env par k)) s =
      (r, t)) (hΦ : Φ [] s) (hΦ' : Φ (step env fs par (.createTemporary k)).toList t) :
    Follows env fs par (Fallible.attempt (FsProg.createNew (WriteSite.createTemporary k)
      (temporaryPath env par k))) s (.ok r) t (step env fs par (.createTemporary k)).toList Φ :=
  (FsProg.walks_act _ (c := ⟨WriteSite.createTemporary k, .createNew _⟩) hexec hΦ (fun _ => False.elim)
    hΦ').attempt

variable (fs) in
theorem walks_createPrivateFile {k : Nat} (hsound : ∀ site, env.fault site = false)
    (hpar : s.node par = some .dir) (hbelow : ∀ m, s.node (par ++ [m]) = fs.node (par ++ [m]))
    (hΦ : Φ [] s) :
    (drawnName env s par k = none →
      ∃ e, Follows env fs par (createPrivateFile par k) s (.error e) s [] Φ) ∧
    ∀ tmp, drawnName env s par k = some tmp →
      (∀ t, t.node = Function.update s.node tmp (some (.file [])) → Φ [.created] t) →
      ∃ t, t.node = Function.update s.node tmp (some (.file [])) ∧
        Follows env fs par (createPrivateFile par k) s (.ok tmp) t [.created] Φ := by
  induction k with
  | zero => exact ⟨fun _ => ⟨_, .throw hΦ⟩, fun tmp h => by cases h⟩
  | succ k ih =>
    have hrandom := walks_random fs par (.temporaryRandom k) hsound rfl hΦ
    rw [createPrivateFile, drawnName, if_neg (by simp [hsound])]
    by_cases hfree : s.node (temporaryPath env par k) = none
    · have hstep : step env fs par (.createTemporary k) = some .created := by
        rw [step, temporaryPath, ← hbelow]
        exact if_pos hfree
      obtain ⟨t, ht, hnode⟩ : ∃ t, s.createNew (temporaryPath env par k) = .ok t ∧ _ :=
        createNew_ok hpar hfree
      have hexec := (FsProg.exec_createNew (.createTemporary k) env s _).trans
        (Env.change_ok (hsound _) ht)
      rw [if_pos hfree]
      refine ⟨fun h => by simp at h, fun tmp htmp hΦ' => ?_⟩
      cases htmp
      have hcreate := walks_createNew fs Φ hexec hΦ
        (by rw [hstep]; exact hΦ' t hnode)
      rw [hstep] at hcreate
      exact ⟨t, hnode, hrandom.bind (hcreate.bind (.pure (hΦ' t hnode)))⟩
    · have hstep : step env fs par (.createTemporary k) = none := by
        rw [step, temporaryPath, ← hbelow]
        exact if_neg hfree
      have htaken : s.createNew (temporaryPath env par k) = .error .alreadyExists := by
        simp [FileSystem.createNew, hfree]
      have hexec := (FsProg.exec_createNew (.createTemporary k) env s _).trans
        (Env.change_error (hsound _) htaken)
      have hcreate := walks_createNew fs Φ hexec hΦ (by rw [hstep]; exact hΦ)
      rw [hstep] at hcreate
      rw [if_neg hfree]
      refine ⟨fun h => ?_, fun tmp htmp hΦ' => ?_⟩
      · obtain ⟨e, he⟩ := ih.1 h
        exact ⟨e, hrandom.bind (hcreate.bind he)⟩
      · obtain ⟨t, hnode, hwalk⟩ := ih.2 tmp htmp hΦ'
        exact ⟨t, hnode, hrandom.bind (hcreate.bind hwalk)⟩

structure Site (env : Env WriteSite) (B : Path String → Option Node) (par : Path String)
    (n a : String) : Prop where
  parent : B par = some .dir
  slot : ∀ v, B (par ++ [n]) = some v → (∃ old, v = .file old) ∨ v = .symlink none
  temporary : B (par ++ [a]) = none
  backup : B (backupPath env par) = none
  apart : a ≠ n
  temporary_ne_backup : a ≠ backupName (env.entropy .backupRandom)
  backup_ne : backupName (env.entropy .backupRandom) ≠ n

inductive Phase (env : Env WriteSite) (fs : FileSystem String) (B : Path String → Option Node)
    (par : Path String) (n a : String) (content : Bytes) : List Step → FileSystem String → Prop
  | idle {t} : Grown fs par t → Phase env fs B par n a content [] t
  | staged {t} (b : Bytes) : t.node = Function.update B (par ++ [a]) (some (.file b)) →
      Phase env fs B par n a content [.created] t
  | aside {t} (old : Bytes) : B (par ++ [n]) = some (.file old) →
      t.node = Function.update (Function.update (Function.update B (par ++ [a]) (some (.file content)))
        (backupPath env par) (B (par ++ [n]))) (par ++ [n]) none →
      Phase env fs B par n a content [.created, .backedUp] t
  | replaced {t} (old : Bytes) : B (par ++ [n]) = some (.file old) →
      t.node = Function.update (Function.update B (backupPath env par) (B (par ++ [n]))) (par ++ [n])
        (some (.file content)) →
      Phase env fs B par n a content [.created, .backedUp, .installed] t
  | settled {ms t} : t.node = Function.update B (par ++ [n]) (some (.file content)) →
      (ms = [.created, .installed] ∨ ms = [.created, .backedUp, .installed, .removed]) →
      Phase env fs B par n a content ms t

variable {B : Path String → Option Node} {content : Bytes}

variable (fs) in
theorem walks_append (site : WriteSite) {old : Bytes} (extra : Bytes) (hsound : ∀ site, env.fault site = false)
    (hstep : step env fs par site = none) (hs : Site env B par n a)
    (ht : s.node = Function.update B (par ++ [a]) (some (.file old)))
    (hΦ : ∀ b t, t.node = Function.update B (par ++ [a]) (some (.file b)) → Φ [] t) :
    ∃ t, t.node = Function.update B (par ++ [a]) (some (.file (old ++ extra))) ∧
      Follows env fs par (io (FsProg.append site (par ++ [a]) extra)) s (.ok ()) t [] Φ := by
  have hpar : s.node par = some .dir := by
    rw [ht, Function.update_of_ne (by simp), hs.parent]
  have htmp : s.node (par ++ [a]) = some (.file old) := by rw [ht, Function.update_self]
  have happend : ∀ bytes, ∃ t, s.append (par ++ [a]) bytes = .ok t ∧
      t.node = Function.update B (par ++ [a]) (some (.file (old ++ bytes))) := by
    intro bytes
    obtain ⟨t, h, hnode⟩ := append_ok hpar htmp bytes
    exact ⟨t, h, by rw [hnode, ht, Function.update_idem]⟩
  obtain ⟨t, h, hnode⟩ := happend extra
  have hwalk := FsProg.walks_act (step env fs par) (c := ⟨site, .append (par ++ [a]) extra⟩)
    ((FsProg.exec_append site env s _ extra).trans (Env.change_ok (hsound _) h)) (hΦ old s ht)
    (fun u ⟨k, hk⟩ => by
      obtain ⟨t', h', hnode'⟩ := happend (extra.take k)
      cases h'.symm.trans hk
      exact hΦ _ _ hnode') (by rw [hstep]; exact hΦ _ t hnode)
  rw [hstep] at hwalk
  exact ⟨t, hnode, hwalk.adapt StoreError.io⟩

theorem walks_rename (fs : FileSystem String) (par : Path String) (site : WriteSite)
    {p q : Path String} {t : FileSystem String}
    (hsound : ∀ site, env.fault site = false) (h : s.rename p q = .ok t) (hΦ : Φ [] s)
    (hΦ' : Φ (step env fs par site).toList t) :
    Walks env.serve Env.Torn (FsProg.marked (step env fs par)) (FsProg.rename site p q) s (.ok ()) t
      (step env fs par site).toList Φ :=
  FsProg.walks_act _ (c := ⟨site, .rename p q⟩) ((FsProg.exec_rename site env s p q).trans
    (Env.change_ok (hsound _) h)) hΦ (fun _ => False.elim) hΦ'

variable (env fs par) in
theorem silent_finish (t : FileSystem String) (p : Path String) :
    Silent env (step env fs par) (do
      io (FsProg.openFile .openInstalled p)
      io (FsProg.sync .syncInstalled p)) t :=
  Quiet.bind ((FsProg.quiet_act rfl rfl).adapt _) fun _ => (FsProg.quiet_act rfl rfl).adapt _

theorem walks_finish {t : FileSystem String} {p : Path String}
    (hsound : ∀ site, env.fault site = false) (hp : t.node p = some (.file content)) (hΦ : Φ [] t) :
    Follows env fs par (do
      io (FsProg.openFile .openInstalled p)
      io (FsProg.sync .syncInstalled p)) t (.ok ()) t [] Φ := by
  have hwalk := (silent_finish env fs par t p).walks hΦ
  rwa [(finish_settles (K := fun _ => True) hp trivial).1 ⟨hsound _, hsound _⟩] at hwalk

theorem Site.not_dir (hs : Site env B par n a) : B (par ++ [n]) ≠ some .dir := by
  intro h
  rcases hs.slot _ h with ⟨old, hold⟩ | hlink
  · cases hold
  · cases hlink

theorem Site.file (hs : Site env B par n a) (hslot : s.node (par ++ [n]) = B (par ++ [n]))
    (hpresent : s.present (par ++ [n]) = true) : ∃ old, B (par ++ [n]) = some (.file old) := by
  obtain ⟨hnone, hdangling⟩ := present_iff.mp hpresent
  rw [hslot] at hnone hdangling
  obtain ⟨v, hv⟩ := Option.ne_none_iff_exists'.mp hnone
  rcases hs.slot v hv with ⟨old, rfl⟩ | rfl
  · exact ⟨old, hv⟩
  · exact absurd hv hdangling

theorem Site.paths (hs : Site env B par n a) :
    par ++ [a] ≠ par ++ [n] ∧ par ++ [a] ≠ backupPath env par ∧ backupPath env par ≠ par ++ [n] :=
  ⟨by simpa using hs.apart, by simpa [backupPath] using hs.temporary_ne_backup,
    by simpa [backupPath] using hs.backup_ne⟩

theorem walks_backUp (hsound : ∀ site, env.fault site = false) (hs : Site env B par n a)
    (hpresent : s.present (par ++ [n]) = true)
    (ht : s.node = Function.update B (par ++ [a]) (some (.file content)))
    (hΦ : ∀ m t, Phase env fs B par n a content (.created :: m) t → Φ m t) :
    ∃ t, t.node = Function.update (Function.update (Function.update B (par ++ [a])
        (some (.file content))) (backupPath env par) (B (par ++ [n]))) (par ++ [n]) none ∧
      Follows env fs par (backUp (par ++ [n])) s (.ok (some (backupPath env par))) t [.backedUp] Φ := by
  obtain ⟨hap, hab, hbp⟩ := hs.paths
  have hslot : s.node (par ++ [n]) = B (par ++ [n]) := by rw [ht, Function.update_of_ne hap.symm]
  have hpar : s.node par = some .dir := by rw [ht, Function.update_of_ne (by simp), hs.parent]
  obtain ⟨old, hold⟩ := hs.file hslot hpresent
  have hidle : Φ [] s := hΦ [] s (.staged content ht)
  obtain ⟨t, hrename, hnode⟩ : ∃ t, s.rename (par ++ [n]) (backupPath env par) = .ok t ∧ _ :=
    rename_replace hpar (hslot.trans hold) (by simp) (Ne.symm hs.backup_ne) (by
      change s.node (backupPath env par) ≠ _
      rw [ht, Function.update_of_ne hab.symm, hs.backup]
      simp)
  have haside : t.node = Function.update (Function.update (Function.update B (par ++ [a])
      (some (.file content))) (backupPath env par) (B (par ++ [n]))) (par ++ [n]) none := by
    rw [hnode, ht, hold]
    rfl
  refine ⟨t, haside, ?_⟩
  have hexists : Follows env fs par (FsProg.pathExists .installExists (par ++ [n])) s (.ok true) s []
      Φ := by
    have hquiet : Silent env (step env fs par)
        (FsProg.pathExists WriteSite.installExists (par ++ [n])) s := FsProg.quiet_pathExists rfl
    have hwalk := hquiet.walks hidle
    rwa [FsProg.exec_pathExists, hsound, hpresent] at hwalk
  refine hexists.bind ?_
  rw [if_pos rfl, List.dropLast_concat]
  refine (walks_random _ _ .backupRandom hsound rfl hidle).bind ?_
  exact ((walks_rename fs par _ hsound hrename hidle (hΦ _ t (.aside old hold haside))).adapt StoreError.io).bind
    (.pure (hΦ _ t (.aside old hold haside)))

theorem update_away {f : Path String → Option Node} {x y : Path String} {u w : Option Node}
    (hxy : x ≠ y) (hx : f x = none) :
    Function.update (Function.update (Function.update f x u) y w) x none = Function.update f y w := by
  funext q
  by_cases hq : q = x
  · rw [hq, Function.update_self, Function.update_of_ne hxy, hx]
  · simp only [Function.update_apply, if_neg hq]

theorem walks_backed (hsound : ∀ site, env.fault site = false) (hs : Site env B par n a)
    (hpresent : s.present (par ++ [n]) = true)
    (ht : s.node = Function.update B (par ++ [a]) (some (.file content)))
    (hΦ : ∀ m t, Phase env fs B par n a content (.created :: m) t → Φ m t) :
    ∃ t, t.node = Function.update B (par ++ [n]) (some (.file content)) ∧
      Follows env fs par (installTemporary (par ++ [a]) (par ++ [n])) s (.ok ()) t
        [.backedUp, .installed, .removed] Φ := by
  obtain ⟨hap, hab, hbp⟩ := hs.paths
  obtain ⟨t₁, h₁, hback⟩ := walks_backUp hsound hs hpresent ht hΦ
  have hslot : s.node (par ++ [n]) = B (par ++ [n]) := by rw [ht, Function.update_of_ne hap.symm]
  obtain ⟨old, hold⟩ := hs.file hslot hpresent
  have hpar : t₁.node par = some .dir := by
    rw [h₁, Function.update_of_ne (by simp), Function.update_of_ne (by simp [backupPath]),
      Function.update_of_ne (by simp), hs.parent]
  have htmp : t₁.node (par ++ [a]) = some (.file content) := by
    rw [h₁, Function.update_of_ne hap, Function.update_of_ne hab, Function.update_self]
  obtain ⟨t₂, hrename, hnode⟩ := rename_replace (b := n) hpar htmp (by simp) hs.apart
    (by rw [h₁, Function.update_self]; simp)
  have h₂ : t₂.node = Function.update (Function.update B (backupPath env par) (B (par ++ [n])))
      (par ++ [n]) (some (.file content)) := by
    rw [hnode, h₁, Function.update_idem, Function.update_comm hab]
    exact update_away hap (by rw [Function.update_of_ne hab, hs.temporary])
  have hbak : t₂.node (backupPath env par) = some (.file old) := by
    rw [h₂, Function.update_of_ne hbp, Function.update_self, hold]
  obtain ⟨t₃, hremove, hnode₃⟩ : ∃ t, t₂.remove (backupPath env par) = .ok t ∧ _ :=
    remove_ok hbak (by simp)
  have h₃ : t₃.node = Function.update B (par ++ [n]) (some (.file content)) := by
    rw [hnode₃, h₂]
    exact update_away hbp hs.backup
  have hΦ₁ := hΦ _ t₁ (.aside old hold h₁)
  have hΦ₂ := hΦ _ t₂ (.replaced old hold h₂)
  have hΦ₃ := hΦ _ t₃ (.settled h₃ (.inr rfl))
  refine ⟨t₃, h₃, hback.bind ?_⟩
  have hinstall := walks_rename fs par .installRename
    (Φ := fun m t => Φ ([.backedUp] ++ m) t) hsound hrename hΦ₁ hΦ₂
  refine hinstall.attempt.bind ?_
  have hclean := (FsProg.walks_act (step env fs par)
    (Φ := fun m t => Φ ([.backedUp] ++ ([.installed] ++ m)) t)
    (c := ⟨WriteSite.removeBackup, .remove (backupPath env par)⟩)
    ((FsProg.exec_remove WriteSite.removeBackup env t₂ _).trans (Env.change_ok (hsound _) hremove))
    hΦ₂ (fun _ => False.elim) hΦ₃).adapt StoreError.io
  exact hclean.bind (walks_finish hsound (by rw [h₃, Function.update_self]) hΦ₃)

theorem walks_unbacked (hsound : ∀ site, env.fault site = false) (hs : Site env B par n a)
    (habsent : s.present (par ++ [n]) = false)
    (ht : s.node = Function.update B (par ++ [a]) (some (.file content)))
    (hΦ : ∀ m t, Phase env fs B par n a content (.created :: m) t → Φ m t) :
    ∃ t, t.node = Function.update B (par ++ [n]) (some (.file content)) ∧
      Follows env fs par (installTemporary (par ++ [a]) (par ++ [n])) s (.ok ()) t [.installed] Φ := by
  obtain ⟨hap, hab, hbp⟩ := hs.paths
  have hpar : s.node par = some .dir := by rw [ht, Function.update_of_ne (by simp), hs.parent]
  have htmp : s.node (par ++ [a]) = some (.file content) := by rw [ht, Function.update_self]
  have hdir : s.node (par ++ [n]) ≠ some .dir := by
    rw [ht, Function.update_of_ne hap.symm]
    exact hs.not_dir
  obtain ⟨t, hrename, hnode⟩ := rename_replace (b := n) hpar htmp (by simp) hs.apart hdir
  have hfinal : t.node = Function.update B (par ++ [n]) (some (.file content)) := by
    rw [hnode, ht]
    exact update_away hap hs.temporary
  have hΦ₁ := hΦ _ s (.staged content ht)
  have hΦ₂ := hΦ _ t (.settled hfinal (.inl rfl))
  have hbackUp : Follows env fs par (backUp (par ++ [n])) s (.ok none) s [] Φ := by
    have hquiet : Silent env (step env fs par)
        (FsProg.pathExists WriteSite.installExists (par ++ [n])) s := FsProg.quiet_pathExists rfl
    have hwalk := hquiet.walks hΦ₁
    rw [FsProg.exec_pathExists, hsound, habsent] at hwalk
    exact hwalk.bind (.pure hΦ₁)
  refine ⟨t, hfinal, hbackUp.bind ?_⟩
  have hinstall := walks_rename fs par .installRename hsound hrename hΦ₁ hΦ₂
  exact hinstall.attempt.bind (walks_finish hsound (by rw [hfinal, Function.update_self]) hΦ₂)

theorem walks_installTemporary (hsound : ∀ site, env.fault site = false) (hs : Site env B par n a)
    (ht : s.node = Function.update B (par ++ [a]) (some (.file content)))
    (hΦ : ∀ m t, Phase env fs B par n a content (.created :: m) t → Φ m t) :
    ∃ t ms, t.node = Function.update B (par ++ [n]) (some (.file content)) ∧
      (ms = [.installed] ∨ ms = [.backedUp, .installed, .removed]) ∧
      Follows env fs par (installTemporary (par ++ [a]) (par ++ [n])) s (.ok ()) t ms Φ := by
  cases hpresent : s.present (par ++ [n]) with
  | false =>
    obtain ⟨t, hnode, hwalk⟩ := walks_unbacked hsound hs hpresent ht hΦ
    exact ⟨t, _, hnode, .inl rfl, hwalk⟩
  | true =>
    obtain ⟨t, hnode, hwalk⟩ := walks_backed hsound hs hpresent ht hΦ
    exact ⟨t, _, hnode, .inr rfl, hwalk⟩

theorem walks_replaceRecord (codec : JsonCodec α) (relative : List Component) (bytes : Bytes)
    (hsound : ∀ site, env.fault site = false) (hs : Site env B par n a)
    (ht : s.node = Function.update B (par ++ [a]) (some (.file [])))
    (hΦ : ∀ m t, Phase env fs B par n a (bytes ++ [10]) (.created :: m) t → Φ m t) :
    ∃ r t ms, t.node = Function.update B (par ++ [n]) (some (.file (bytes ++ [10]))) ∧
      (ms = [.installed] ∨ ms = [.backedUp, .installed, .removed]) ∧
      Follows env fs par (replaceRecord codec relative bytes (par ++ [a]) (par ++ [n])) s r t ms Φ := by
  have hstaged : ∀ b t, t.node = Function.update B (par ++ [a]) (some (.file b)) → Φ [] t :=
    fun b t h => hΦ [] t (.staged b h)
  obtain ⟨s₁, h₁, hpayload⟩ := walks_append fs .writePayload bytes hsound
    rfl hs ht hstaged
  obtain ⟨s₂, h₂, hnewline⟩ := walks_append fs .writeNewline [10] hsound
    rfl hs h₁ hstaged
  rw [List.nil_append] at h₂
  have hopen : s₂.openFile (par ++ [a]) = .ok () :=
    openFile_file (by rw [h₂, Function.update_self])
  have hsync : ∀ site, step env fs par site = none →
      Follows env fs par (io (FsProg.sync site (par ++ [a]))) s₂ (.ok ()) s₂ [] Φ := by
    intro site hstep
    have hquiet : Silent env (step env fs par) (io (FsProg.sync site (par ++ [a]))) s₂ :=
      (FsProg.quiet_act rfl hstep).adapt _
    have hwalk := hquiet.walks (hstaged _ s₂ h₂)
    rwa [exec_io_observe (hsound site) (FsProg.exec_sync site env s₂ _), hopen] at hwalk
  obtain ⟨t, ms, hnode, hms, hinstall⟩ := walks_installTemporary hsound hs h₂ hΦ
  have hverify : Silent env (step env fs par) (readJsonUnlocked .verify codec.value relative) t :=
    silent_readJsonUnlocked (fun _ => rfl) _ _
  have hlast : Φ ms t := hinstall.last
  have hread := hverify.walks (Φ := fun m u => Φ (ms ++ m) u) (by rwa [List.append_nil])
  have hwalk := hinstall.bind (f := fun _ => readJsonUnlocked WriteSite.verify codec.value relative) hread
  rw [List.append_nil] at hwalk
  have hflush := hsync .flush rfl
  have hsyncTemporary := hsync .syncTemporary rfl
  exact ⟨_, t, ms, hnode, hms,
    hpayload.bind (hnewline.bind (hflush.bind (hsyncTemporary.bind hwalk)))⟩

variable (env fs) in
theorem silent_cleanup {t : FileSystem String} (htmp : t.node (par ++ [a]) = none) :
    Quiet env.serve Env.Torn (FsProg.marked (step env fs par))
      (FsProg.remove WriteSite.cleanup (par ++ [a])) t := by
  refine FsProg.quiet_still ?_ (fun _ => id) rfl
  refine (congrArg Prod.snd (FsProg.exec_remove WriteSite.cleanup env t (par ++ [a]))).trans ?_
  have hremove : t.remove (par ++ [a]) = .error .notFound := by simp [FileSystem.remove, htmp]
  cases hf : env.fault .cleanup with
  | true => rw [Env.change_fault hf]
  | false => rw [Env.change_error hf hremove]

theorem site_of_drawn {k : Nat} {tmp : Path String} (hfresh : FreshNames env fs (par ++ [n]))
    (hs : Parented fs s par)
    (hslot : ∀ v, fs.node (par ++ [n]) = some v → (∃ old, v = .file old) ∨ v = .symlink none)
    (hdrawn : drawnName env s par k = some tmp) :
    ∃ r, tmp = par ++ [temporaryName r] ∧ Site env s.node par n (temporaryName r) := by
  obtain ⟨htemp, hbackup, hbackup_ne⟩ := hfresh
  rw [List.dropLast_concat] at htemp hbackup hbackup_ne
  obtain ⟨hnone, attempt, rfl⟩ := drawnName_some hdrawn
  refine ⟨_, rfl, hs.parent, ?_, hnone, ?_, ?_, temporaryName_ne_backupName _ _, ?_⟩
  · rwa [hs.below]
  · rw [backupPath, hs.below]
    exact hbackup
  · rintro rfl
    exact htemp attempt rfl
  · rintro rfl
    exact hbackup_ne rfl

theorem walks_opened {relative : List Component} (hname : ¬ invalidName relative)
    (hp : recordPath relative = par ++ [n]) (hlock : LockReady env .lock fs)
    (hcreate : fs.createDirAll par = .ok s) (hpar : Parented fs s par)
    (hres : env.fault (.resolve .createParent) = false ∧
      (env.fault (.resolve .parentExists) = false →
        env.fault (.resolve .canonicalizeParent) = false) ∧ SlotOk env .resolve fs (par ++ [n]))
    (hΦ : ∀ t, Grown fs par t → Φ [] t) :
    Follows env fs par (lockOperation .lock) fs (.ok ()) fs [] Φ ∧
      Follows env fs par (resolveRecord .resolve relative true) fs (.ok (par ++ [n])) s [] Φ := by
  have hfs := hΦ fs (.refl fs par)
  have hlocked : Follows env fs par (lockOperation .lock) fs (.ok ()) fs [] Φ := by
    have hquiet : Silent env (step env fs par) (lockOperation .lock) fs :=
      silent_lockOperation (fun _ => rfl)
    have hwalk := hquiet.walks hfs
    rwa [(lockOperation_settles _ _ (K := fun _ => True) WriteSite.lock trivial).1 hlock] at hwalk
  have hexec := (resolve_parented env (K := fun _ => True) relative hname hp hcreate hpar
    trivial trivial).1 hres
  obtain ⟨u, -, hwalk⟩ := walks_resolveRecord env fs relative
    (by rw [hp, List.dropLast_concat]) hΦ
  have hu : u = s := congrArg Prod.snd (hwalk.exec.symm.trans hexec)
  rw [hexec, hu] at hwalk
  exact ⟨hlocked, hwalk⟩

theorem walks_prepared {codec : JsonCodec α} {relative : List Component} {v : α}
    (hsound : ∀ site, env.fault site = false) (hname : ¬ invalidName relative)
    (hp : recordPath relative = par ++ [n]) (hfresh : FreshNames env fs (par ++ [n]))
    (hdir : fs.node (par ++ [n]) ≠ some .dir)
    (hprep : Prepared env fs (par ++ [n]) (codec.encode v).length) :
    ∃ s x r t ms, Grown fs par s ∧ Site env s.node par n (temporaryName x) ∧
      t.node = Function.update s.node (par ++ [n]) (some (.file (codec.encode v ++ [10]))) ∧
      (ms = [.created, .installed] ∨ ms = [.created, .backedUp, .installed, .removed]) ∧
      Follows env fs par (writeJsonAtomic codec relative v) fs r t ms
        (Phase env fs s.node par n (temporaryName x) (codec.encode v ++ [10])) := by
  have hopen := hprep.openable
  rw [List.dropLast_concat] at hopen
  obtain ⟨s, hcreate, hpar⟩ := createParent_ok hopen
  have hgrown : Grown fs par s := grown_createDirAll List.prefix_rfl hcreate
  obtain ⟨tmp, hdrawn⟩ := Option.ne_none_iff_exists'.mp hprep.drawn
  rw [List.dropLast_concat, drawnName_congr (fun m => (hpar.below m).symm)] at hdrawn
  have hslot : ∀ w, fs.node (par ++ [n]) = some w → (∃ old, w = .file old) ∨ w = .symlink none := by
    intro w hw
    rcases w with old | _ | _ | k
    · exact .inl ⟨old, rfl⟩
    · exact absurd hw hdir
    · exact .inr rfl
    · exact absurd hw ((hprep.slot (hsound _) (present_iff.mpr (by simp [hw]))).2 _)
  obtain ⟨x, rfl, hs⟩ := site_of_drawn hfresh hpar hslot hdrawn
  generalize hx : temporaryName x = a at hs hdrawn
  obtain ⟨hlocked, hresolve⟩ := walks_opened (Φ := Phase env fs s.node par n a (codec.encode v ++ [10]))
    hname hp hprep.lock hcreate hpar ⟨hprep.created, hprep.parent, hprep.slot⟩ (fun t => .idle)
  obtain ⟨s₁, h₁, hfile⟩ := (walks_createPrivateFile fs hsound hpar.parent hpar.below
    (Φ := Phase env fs s.node par n a (codec.encode v ++ [10])) (.idle hgrown)).2 _ hdrawn
    (fun t ht => .staged [] ht)
  obtain ⟨r, t, ms, hnode, hms, hreplace⟩ := walks_replaceRecord codec relative
    (codec.encode v)
    (Φ := fun m u => Phase env fs s.node par n a (codec.encode v ++ [10]) ([.created] ++ m) u)
    hsound hs h₁ (fun _ _ => id)
  have htmp : t.node (par ++ [a]) = none := by
    rw [hnode, Function.update_of_ne hs.paths.1, hs.temporary]
  have hclean := hreplace.onError_quiet (silent_cleanup env fs htmp)
  have hrest : ∃ q, Follows env fs par (do
      (replaceRecord codec relative (codec.encode v) (par ++ [a]) (par ++ [n])).onError
        (FsProg.remove (S := WriteSite) .cleanup (par ++ [a]))
      pure (par ++ [n])) s₁ q t ms
        (fun m u => Phase env fs s.node par n a (codec.encode v ++ [10]) ([.created] ++ m) u) := by
    cases r with
    | error e => exact ⟨_, hclean.bind_error⟩
    | ok _ =>
      rw [← List.append_nil ms]
      exact ⟨_, hclean.bind (.pure (by simpa using hclean.last))⟩
  obtain ⟨q, hrest⟩ := hrest
  subst hx
  refine ⟨s, x, q, t, [.created] ++ ms, hgrown, hs, hnode, ?_, ?_⟩
  · rcases hms with rfl | rfl <;> simp
  · refine hlocked.bind ?_
    refine hresolve.bind ?_
    rw [if_neg (by simpa using hprep.fits), List.dropLast_concat]
    exact hfile.bind hrest

theorem walks_refused {relative : List Component} {e : StoreError} {u : FileSystem String}
    (hp : recordPath relative = par ++ [n])
    (h : exec env.serve (resolveRecord WriteSite.resolve relative true) fs = (.error e, u))
    (hΦ : ∀ t, Grown fs par t → Φ [] t) :
    ∃ t, Grown fs par t ∧
      Follows env fs par (resolveRecord .resolve relative true) fs (.error e) t [] Φ := by
  obtain ⟨t, hgrown, hwalk⟩ := walks_resolveRecord env fs relative
    (by rw [hp, List.dropLast_concat]) hΦ
  rw [h] at hwalk
  exact ⟨t, hgrown, hwalk⟩

theorem walks_unprepared {codec : JsonCodec α} {relative : List Component} {v : α}
    (hsound : ∀ site, env.fault site = false) (hname : ¬ invalidName relative)
    (hp : recordPath relative = par ++ [n])
    (hprep : ¬ Prepared env fs (par ++ [n]) (codec.encode v).length)
    (hΦ : ∀ t, Grown fs par t → Φ [] t) :
    ∃ r t, Grown fs par t ∧ Follows env fs par (writeJsonAtomic codec relative v) fs r t [] Φ := by
  have hquiet : Silent env (step env fs par) (lockOperation .lock) fs :=
    silent_lockOperation (fun _ => rfl)
  have hlocked := hquiet.walks (hΦ fs (.refl fs par))
  have hlock := lockOperation_settles env fs (K := fun _ => True) WriteSite.lock trivial
  by_cases hready : LockReady env .lock fs
  · rw [hlock.1 hready] at hlocked
    by_cases hopen : Openable fs par
    · obtain ⟨s, hcreate, hpar⟩ := createParent_ok hopen
      have hgrown : Grown fs par s := grown_createDirAll List.prefix_rfl hcreate
      have hresolve := resolve_parented env (K := fun _ => True) relative hname hp hcreate hpar
        trivial trivial
      by_cases hslot : SlotOk env .resolve fs (par ++ [n])
      · have hwalk := (walks_opened hname hp hready hcreate hpar ⟨hsound _, fun _ => hsound _, hslot⟩
          hΦ).2
        by_cases hfits : (codec.encode v).length ≤ maxRecordBytes
        · have hdrawn : drawnName env s par temporaryNameAttempts = none := by
            rw [← drawnName_congr (fun m => (hpar.below m).symm)]
            by_contra hdrawn
            refine hprep ⟨hready, hsound _, ?_, fun _ => hsound _, hslot, hfits, ?_⟩
            · rwa [List.dropLast_concat]
            · rwa [List.dropLast_concat]
          obtain ⟨e, hfile⟩ := (walks_createPrivateFile fs hsound hpar.parent hpar.below
            (hΦ s hgrown)).1 hdrawn
          refine ⟨.error e, s, hgrown, hlocked.bind (hwalk.bind ?_)⟩
          rw [if_neg (by simpa using hfits), List.dropLast_concat]
          exact hfile.bind_error
        · refine ⟨.error (.message "private state record exceeds the 8 MiB limit"), s, hgrown,
            hlocked.bind (hwalk.bind ?_)⟩
          rw [if_pos (by simpa using hfits)]
          exact .throw (hΦ s hgrown)
      · obtain ⟨e, u, he, -⟩ := hresolve.2 (fun h => hslot h.2.2)
        obtain ⟨t, hgrown, hwalk⟩ := walks_refused hp he hΦ
        exact ⟨_, t, hgrown, hlocked.bind hwalk.bind_error⟩
    · have hcreate : fs.createDirAll (recordPath relative).dropLast = .error .notADirectory := by
        rw [hp, List.dropLast_concat]
        simp [createDirAll, hopen]
      obtain ⟨e, u, he, -⟩ := (resolveRecord_create_blocked env (K := fun _ => True)
        WriteSite.resolve relative hcreate trivial fs).2 not_false
      obtain ⟨t, hgrown, hwalk⟩ := walks_refused hp he hΦ
      exact ⟨_, t, hgrown, hlocked.bind hwalk.bind_error⟩
  · obtain ⟨e, u, he, -⟩ := hlock.2 hready
    rw [he] at hlocked
    exact ⟨_, fs, .refl fs par, hlocked.bind_error⟩

end walks

end PrivateState
