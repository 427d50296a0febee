import MeridianMcp.AtomicOutput.Publication
import MeridianMcp.Effects.Interleave

namespace AtomicOutput

open Effects Fallible FileSystem MeridianMcp

inductive Caller where
  | write (policy : PathPolicy) (input : Path String) (overwrite : Bool) (writer : Writer)
  | reserve (policy : PathPolicy) (input : Path String) (overwrite commits : Bool)

namespace Caller

-- What an external producer writes into a reserved temporary is left to the surroundings.
def run (sha256 : Bytes → String) : Caller → OutputProg (Option OutputArtifact)
  | .write policy input overwrite writer => do
    let artifact ← writeAtomic sha256 policy input overwrite writer
    pure (some artifact)
  | .reserve policy input overwrite commits => do
    let reserved ← reserveExternalAtomic policy input overwrite
    if commits then
      let artifact ← reserved.commit sha256
      pure (some artifact)
    else
      let _ ← Fallible.attempt (FsProg.remove .dropTemporary reserved.temporary.path)
      pure none

def destination : Caller → Path String
  | .write _ input _ _ => input
  | .reserve _ input _ _ => input

def overwrites : Caller → Bool
  | .write _ _ overwrite _ => overwrite
  | .reserve _ _ overwrite _ => overwrite

end Caller

inductive Stage where
  | unchecked
  | pending (taken : Bool)
  | installed
  deriving DecidableEq, Repr

def taken (d : Path String) (s t : FileSystem String) : Bool :=
  decide (s.node d = none) && decide (t.node d ≠ none)

def watch (d : Path String) : Watch (Call AtomicSite String) Answer (FileSystem String) Stage where
  own g c r :=
    match g, c.site with
    | .unchecked, .policyExists => if r.isOk then .unchecked else .pending false
    | .pending b, .installRename => if r.isOk then .installed else .pending b
    | g, _ => g
  other g s t :=
    match g with
    | .pending false => .pending (taken d s t)
    | g => g
  holds g s := g = .pending false → s.node d = none
  honest g c s r :=
    (c.site = .policyExists → r.isOk = false → s.node d = none) ∧
      (g = .pending true → c.site = .backupRename ∨ c.site = .installRename → r.isOk = false)
  safe c s r :=
    (∀ p q, c.op = .rename p q → r.isOk = true → p = d ∨ q = d → s.node d = none) ∧
      (c.site = .installRename → ∃ p, c.op = .rename p d)

variable {d : Path String} {g g' : Stage}

abbrev Drifts (d : Path String) (g g' : Stage) : Prop := (watch d).Drifts g g'

abbrev Keeps {α ε : Type} (d : Path String) (x : FsProg AtomicSite String ε α) (g : Stage)
    (post : Stage → Except ε α → Prop) : Prop :=
  (watch d).Keeps FsProg.Serves post x.run g

def Stage.isPending : Stage → Bool
  | .pending _ => true
  | _ => false

theorem drifts_cases (h : Drifts d g g') : g' = g ∨ g = .pending false ∧ g' = .pending true := by
  induction h with
  | refl => exact .inl rfl
  | tail _ hstep ih =>
    obtain ⟨s, t, rfl⟩ := hstep
    rcases ih with rfl | ⟨rfl, rfl⟩
    · rename_i b _
      rcases b with _ | (_ | _) | _
      · exact .inl rfl
      · change Stage.pending (taken d s t) = _ ∨ _ ∧ Stage.pending (taken d s t) = _
        cases taken d s t
        · exact .inl rfl
        · exact .inr ⟨rfl, rfl⟩
      · exact .inl rfl
      · exact .inl rfl
    · exact .inr ⟨rfl, rfl⟩

theorem drifts_pending (h : Drifts d g g') : g'.isPending = g.isPending := by
  rcases drifts_cases h with rfl | ⟨rfl, rfl⟩ <;> rfl

theorem other_holds (g : Stage) (s t : FileSystem String) (h : (watch d).holds g s) :
    (watch d).holds ((watch d).other g s t) t := by
  rcases g with _ | (_ | _) | _
  · intro h'
    cases h'
  · intro h'
    have hs := h rfl
    change Stage.pending (taken d s t) = _ at h'
    by_contra hne
    simp [taken, hs, hne] at h'
  · intro h'
    cases h'
  · intro h'
    cases h'

def Spares (d : Path String) : FsOp String → Prop
  | .createNew p => p ≠ d
  | .append p _ => p ≠ d
  | .rename _ _ => False
  | .createDirAll _ => False
  | _ => True

def Harmless (d : Path String) (c : Call AtomicSite String) : Prop :=
  c.site ≠ .policyExists ∧ c.site ≠ .installRename ∧ c.site ≠ .backupRename ∧ Spares d c.op

theorem spares_node {op : FsOp String} {s t : FileSystem String} {entropy : Bytes} {v : op.Res}
    (h : Spares d op) (hexec : s.exec entropy op = .ok (v, t)) (hs : s.node d = none) :
    t.node d = none := by
  cases op with
  | createNew p => rw [createNew_other (map_state_ok hexec) (Ne.symm h), hs]
  | append p bytes => rw [append_other (map_state_ok hexec) (Ne.symm h), hs]
  | remove p =>
    have hremove := map_state_ok hexec
    by_cases hp : d = p
    · subst hp
      simp [FileSystem.remove, hs] at hremove
    · rw [remove_other hremove hp, hs]
  | rename p q => exact h.elim
  | createDirAll p => exact h.elim
  | random =>
    cases hexec
    exact hs
  | _ =>
    obtain ⟨-, rfl⟩ := map_value_ok hexec
    exact hs

theorem harmless_silent {c : Call AtomicSite String} {s t : FileSystem String} {r : Answer c}
    (hc : Harmless d c) (hs : (watch d).holds g s) (hserve : FsProg.Serves c s r t) :
    (watch d).safe c s r ∧ (watch d).holds g t ∧ (watch d).own g c r = g := by
  obtain ⟨hexists, hinstall, -, hspares⟩ := hc
  refine ⟨⟨?_, fun h => absurd h hinstall⟩, fun hg => ?_, ?_⟩
  · intro p q hop
    rw [hop] at hspares
    exact hspares.elim
  · rcases hserve with ⟨e, -, rfl⟩ | ⟨entropy, v, hexec, -⟩
    · exact hs hg
    · exact spares_node hspares hexec (hs hg)
  · cases g with
    | unchecked =>
      simp only [watch]
      split <;> simp_all
    | pending b =>
      simp only [watch]
      split <;> simp_all
    | installed => rfl

theorem keeps_act {c : Call AtomicSite String} (hc : Harmless d c) {post : Stage → Answer c → Prop}
    (h : ∀ g' s r t, Drifts d g g' → (watch d).holds g' s → FsProg.Serves c s r t →
      ∀ g'', Drifts d g' g'' → post g'' r) : Keeps d (FsProg.act c) g post := by
  unfold Keeps
  rw [FsProg.run_act]
  intro g' hg s r t hs hserve hhonest
  obtain ⟨hsafe, hholds, hown⟩ := harmless_silent hc hs hserve
  rw [hown]
  exact ⟨hsafe, hholds, fun g'' hg' => h g' s r t hg hs hserve g'' hg'⟩

theorem keeps_harmless {α ε : Type} {x : FsProg AtomicSite String ε α}
    (hx : Fallible.Within (Harmless d) x) : Keeps d x g fun g' _ => Drifts d g g' :=
  Watch.keeps_within hx fun _ _ _ _ _ hc hs hserve _ => harmless_silent hc hs hserve

section within

variable {ε : Type} {par tmp : Path String} {sha256 : Bytes → String}

-- The destination does not carry one of the names the publications draw for themselves.
def Public (d : Path String) : Prop := ∀ par purpose r, privatePath par purpose r ≠ d

abbrev Spared {α : Type} (d : Path String) (x : FsProg AtomicSite String ε α) : Prop :=
  Fallible.Within (Harmless d) x

theorem spared_act {c : Call AtomicSite String} (h : Harmless d c) : Spared d (FsProg.act c) := by
  unfold Spared Fallible.Within
  rw [FsProg.run_act]
  exact ⟨h, fun _ => trivial⟩

theorem spared_pathExists {site : AtomicSite} {p : Path String} (h : Harmless d ⟨site, .stat p⟩) :
    Spared d (FsProg.pathExists site p : FsProg AtomicSite String ε Bool) :=
  (spared_act h).attempt.bind fun _ => .pure _

theorem spared_existsNotFile (p : Path String) : Spared d (existsNotFile p) := by
  refine (spared_pathExists (by simp [Harmless, Spares])).bind fun _ => .ite ?_ (.pure _)
  refine Within.bind ?_ fun _ => .pure _
  refine (spared_act (by simp [Harmless, Spares])).attempt.bind fun r => ?_
  cases r with
  | ok _ => exact .pure _
  | error _ => exact .pure _

theorem spared_createPrivateFile (hd : Public d) (purpose : String) (k : Nat) :
    Spared d (createPrivateFile par purpose k) := by
  induction k with
  | zero => exact .throw _
  | succ k ih =>
    refine ((spared_act (by simp [Harmless, Spares])).adapt _).bind fun bytes => ?_
    have hcreate : Harmless d ⟨.createTemporary k, .createNew (privatePath par purpose bytes)⟩ := by
      simp [Harmless, Spares, hd par purpose bytes]
    refine (spared_act hcreate).attempt.bind fun r => ?_
    rcases r with e | _
    · cases e with
      | alreadyExists => exact ih
      | _ => exact .throw _
    · exact .pure _

theorem spared_privateAvailablePath (k : Nat) : Spared d (privateAvailablePath par k) := by
  induction k with
  | zero => exact .throw _
  | succ k ih =>
    refine ((spared_act (by simp [Harmless, Spares])).adapt _).bind fun _ => ?_
    exact (spared_pathExists (by simp [Harmless, Spares])).bind fun _ => .ite ih (.pure _)

theorem spared_remove (site : AtomicSite) (h : site ∈ [AtomicSite.dropTemporary, .removeBackup])
    (p : Path String) : Spared d (FsProg.remove site p) := by
  refine spared_act ?_
  rcases List.mem_pair.mp h with rfl | rfl <;> simp [Harmless, Spares]

variable (tmp) in
theorem spared_armed {α : Type} {x : OutputProg α} (hx : Spared d x) : Spared d (armed tmp x) :=
  hx.onError (spared_remove _ (by simp) tmp)

theorem spared_writeChunks (htmp : tmp ≠ d) (chunks : List Bytes) (k : Nat) :
    Spared d (writeChunks tmp k chunks) := by
  induction chunks generalizing k with
  | nil => exact .pure _
  | cons bytes rest ih =>
    have hwrite : Harmless d ⟨.write k, .append tmp bytes⟩ := by simp [Harmless, Spares, htmp]
    exact ((spared_act hwrite).adapt _).bind fun _ => ih (k + 1)

theorem spared_write (htmp : tmp ≠ d) (writer : Writer) : Spared d (writer.write tmp) := by
  refine (spared_writeChunks htmp _ _).bind fun _ => ?_
  cases writer.failure with
  | none => exact .pure _
  | some _ => exact .throw _

theorem spared_hashFile (p : Path String) : Spared d (hashFile sha256 p) := by
  refine ((spared_act (by simp [Harmless, Spares])).adapt _).bind fun _ => ?_
  exact ((spared_act (by simp [Harmless, Spares])).adapt _).bind fun _ => .pure _

end within

section keeps

variable {α β ε : Type} {tmp : Path String} {sha256 : Bytes → String} {policy : PathPolicy}

theorem keeps_lift {x : Except ε α} {post : Stage → Except ε α → Prop}
    (h : ∀ g', Drifts d g g' → post g' x) : Keeps d (liftM x : FsProg AtomicSite String ε α) g post :=
  h

theorem keeps_pathExists {site : AtomicSite} {p : Path String} {post : Stage → Except ε Bool → Prop}
    (h : Keeps d (FsProg.stat site p) g
      fun g' r => ∀ g'', Drifts d g' g'' → post g'' (.ok r.isOk)) :
    Keeps d (FsProg.pathExists site p) g post :=
  Watch.keeps_attempt_bind h fun _ _ hr => hr

theorem drifts_unchecked (h : Drifts d .unchecked g) : g = .unchecked := by
  rcases drifts_cases h with rfl | ⟨h, -⟩
  · rfl
  · cases h

theorem keeps_checkExists :
    Keeps d (FsProg.pathExists .policyExists d : FsProg AtomicSite String ε Bool) .unchecked
      fun g r => r = .ok false → g.isPending = true := by
  refine keeps_pathExists ?_
  unfold Keeps FsProg.stat
  rw [FsProg.run_act]
  intro g' hg s r t _ hserve hhonest
  obtain rfl := drifts_unchecked hg
  have hstill : t = s := by
    rcases hserve with ⟨_, -, rfl⟩ | ⟨_, _, hexec, -⟩
    · rfl
    · exact (map_value_ok hexec).2
  refine ⟨⟨fun p q h => (by cases h), fun h => (by cases h)⟩, fun hown => ?_, ?_⟩
  · cases hr : r.isOk with
    | true => simp [watch, hr] at hown
    | false =>
      rw [hstill]
      exact hhonest.1 rfl hr
  · intro g₁ hg₁ g₂ hg₂ hr
    have hr : r.isOk = false := by simpa using hr
    rw [drifts_pending hg₂, drifts_pending hg₁]
    simp [watch, hr, Stage.isPending]

theorem keeps_canonicalize {site : AtomicSite} (hc : Harmless d ⟨site, .canonicalize d.dropLast⟩)
    {f : IoError → ε} : Keeps d ((FsProg.canonicalize site d.dropLast).adapt f) g
      fun g' r => g'.isPending = g.isPending ∧ ∀ q, r = .ok (some q) → q = d.dropLast := by
  have hact : Keeps d (FsProg.canonicalize site d.dropLast) g fun g' r =>
      g'.isPending = g.isPending ∧ ∀ q, r = .ok (some q) → q = d.dropLast := by
    refine keeps_act hc fun g₁ s r t hg _ hserve g₂ hg' => ⟨?_, fun q hq => ?_⟩
    · rw [drifts_pending hg', drifts_pending hg]
    · subst hq
      rcases hserve with ⟨e, he, -⟩ | ⟨_, v, hexec, hv⟩
      · cases he
      · cases hv
        exact PathPolicy.canonicalize_some (map_value_ok hexec).1
  refine Watch.keeps_adapt hact fun g₁ r hr g₂ hg => ⟨?_, fun q hq => hr.2 q ?_⟩
  · rw [drifts_pending hg, hr.1]
  · cases r with
    | error e => cases hq
    | ok v =>
      cases hq
      rfl

theorem keeps_outputPath :
    Keeps d (policy.outputPath d false) .unchecked
      fun g r => ∀ p, r = .ok p → p = d ∧ g.isPending = true := by
  refine Watch.keeps_bind keeps_checkExists (fun g found hfound => ?_) (fun g e _ g' _ p h => by cases h)
  cases found with
  | true =>
    have hread : Spared d (policy.readPath d) := by
      refine Within.bind ((spared_act (by simp [Harmless, Spares])).adapt _) fun c => ?_
      cases hc : policy.requireContained c <;> exact trivial
    refine Watch.keeps_bind (keeps_harmless hread) (fun g' _ _ => ?_) (fun g' e _ g'' _ p h => by cases h)
    exact Watch.keeps_throw fun _ _ p h => by cases h
  | false =>
    have hpending := hfound rfl
    simp only [Bool.false_eq_true, if_false]
    cases hn : d.getLast? with
    | none => exact Watch.keeps_throw fun _ _ p h => by cases h
    | some name =>
      refine Watch.keeps_bind (keeps_canonicalize (by simp [Harmless, Spares]))
        (fun g' parent hparent => ?_) (fun g' e _ g'' _ p h => by cases h)
      refine keeps_lift fun g'' hg' p hp => ?_
      obtain ⟨q, rfl, rfl⟩ := Option.map_eq_some_iff.mp (PathPolicy.requireContained_ok hp)
      rw [drifts_pending hg', hparent.2 q rfl, hparent.1]
      exact ⟨List.dropLast_append_getLast? name hn, hpending⟩

theorem keeps_checked :
    Keeps d (checked policy d false) .unchecked
      fun g r => ∀ p, r = .ok p → p = d ∧ g.isPending = true := by
  have hpolicy : Keeps d ((policy.outputPath d false).adapt AtomicOutputError.policy) .unchecked
      fun g r => ∀ p, r = .ok p → p = d ∧ g.isPending = true := by
    refine Watch.keeps_adapt keeps_outputPath fun g r hr g' hg p hp => ?_
    cases r with
    | error e => cases hp
    | ok q =>
      cases hp
      rw [drifts_pending hg]
      exact hr p rfl
  refine Watch.keeps_bind hpolicy (fun g p hp => ?_) (fun g e _ g' _ p h => by cases h)
  obtain ⟨rfl, hpending⟩ := hp p rfl
  refine Watch.keeps_bind (keeps_harmless (spared_existsNotFile p)) (fun g' wrong hg => ?_)
    (fun g e _ g' _ p h => by cases h)
  cases wrong with
  | true => exact Watch.keeps_throw fun _ _ p h => by cases h
  | false =>
    simp only [Bool.false_eq_true, if_false]
    by_cases hroot : p = []
    · rw [if_pos hroot]
      exact Watch.keeps_throw fun _ _ p h => by cases h
    · rw [if_neg hroot]
      refine Watch.keeps_pure fun g'' hg' q hq => ?_
      cases hq
      rw [drifts_pending hg', drifts_pending hg]
      exact ⟨rfl, hpending⟩

theorem pending_of_isPending (h : g.isPending = true) : ∃ b, g = .pending b := by
  cases g with
  | pending b => exact ⟨b, rfl⟩
  | _ => cases h

theorem drifts_taken (h : Drifts d (.pending true) g) : g = .pending true := by
  rcases drifts_cases h with rfl | ⟨h, -⟩
  · rfl
  · cases h

theorem drifts_installed (h : Drifts d .installed g) : g = .installed := by
  rcases drifts_cases h with rfl | ⟨h, -⟩
  · rfl
  · cases h

theorem keeps_installExists (hg : g.isPending = true) :
    Keeps d (FsProg.pathExists .installExists d : OutputProg Bool) g
      fun g' r => g'.isPending = true ∧ (g' = .pending false → r = .ok false) := by
  refine keeps_pathExists (keeps_act (by simp [Harmless, Spares]) ?_)
  intro g₁ s r t hg₁ hs hserve g₂ hg₂ g₃ hg₃
  have hdrift := hg₂.trans hg₃
  refine ⟨by rw [drifts_pending hdrift, drifts_pending hg₁, hg], fun hfree => ?_⟩
  rcases drifts_cases hdrift with rfl | ⟨-, h⟩
  · have hnone : s.node d = none := hs hfree
    rcases hserve with ⟨e, rfl, -⟩ | ⟨_, v, hexec, -⟩
    · rfl
    · have hstat := (map_value_ok hexec).1
      simp [FileSystem.stat, hnone] at hstat
  · rw [hfree] at h
    cases h

theorem keeps_backupRename {b : Path String} :
    Keeps d (FsProg.rename .backupRename d b) (.pending true)
      fun g r => g = .pending true ∧ r.isOk = false := by
  unfold Keeps FsProg.rename
  rw [FsProg.run_act]
  intro g' hg s r t _ _ hhonest
  obtain rfl := drifts_taken hg
  have hfails : r.isOk = false := hhonest.2 rfl (.inl rfl)
  refine ⟨⟨fun p q _ hok => ?_, fun h => (by cases h)⟩, fun h => (by cases h),
    fun g'' hg' => ⟨drifts_taken hg', hfails⟩⟩
  rw [hfails] at hok
  cases hok

theorem keeps_backUp (hg : g.isPending = true) :
    Keeps d (backUp d) g fun g' r => g'.isPending = true ∧ ∀ b, r = .ok b → b = none := by
  refine Watch.keeps_bind (keeps_installExists hg) (fun g₁ found hfound => ?_)
    (fun g₁ e h g₂ hg₂ => ⟨by rw [drifts_pending hg₂, h.1], fun b hb => by cases hb⟩)
  cases found with
  | false =>
    refine Watch.keeps_pure fun g₂ hg₂ => ⟨by rw [drifts_pending hg₂, hfound.1], fun b hb => ?_⟩
    cases hb
    rfl
  | true =>
    obtain ⟨b, rfl⟩ := pending_of_isPending hfound.1
    cases b with
    | false => cases hfound.2 rfl
    | true =>
      refine Watch.keeps_bind (keeps_harmless (spared_privateAvailablePath _)) (fun g₂ backup hg₂ => ?_)
        (fun g₂ e hg₂ g₃ hg₃ => ⟨by rw [drifts_pending hg₃, drifts_pending hg₂]; rfl,
          fun b hb => by cases hb⟩)
      obtain rfl := drifts_taken hg₂
      have hrename : Keeps d (io (FsProg.rename .backupRename d backup)) (.pending true)
          fun g r => g = .pending true ∧ r.isOk = false := by
        refine Watch.keeps_adapt keeps_backupRename fun g r hr g' hg' => ?_
        obtain ⟨rfl, hfails⟩ := hr
        refine ⟨drifts_taken hg', ?_⟩
        cases r with
        | ok _ => cases hfails
        | error _ => rfl
      refine Watch.keeps_bind hrename (fun g₃ _ h => by cases h.2) (fun g₃ e h g₄ hg₄ => ?_)
      rw [drifts_pending hg₄, h.1]
      exact ⟨rfl, fun b hb => by cases hb⟩

theorem keeps_installRename (hg : g.isPending = true) :
    Keeps d (FsProg.rename .installRename tmp d) g fun g' r => r.isOk = true → g' = .installed := by
  unfold Keeps FsProg.rename
  rw [FsProg.run_act]
  intro g' hg' s r t hs hserve hhonest
  obtain ⟨b, rfl⟩ := pending_of_isPending ((drifts_pending hg').trans hg)
  cases hr : r.isOk with
  | true =>
    have hfree : b = false := by
      cases b with
      | false => rfl
      | true =>
        have hfails := hhonest.2 rfl (.inr rfl)
        rw [hr] at hfails
        cases hfails
    have hown : (watch d).own (.pending b) ⟨.installRename, .rename tmp d⟩ r = .installed := by
      simp [watch, hr]
    rw [hown]
    exact ⟨⟨fun p q _ _ _ => hs (by rw [hfree]), fun _ => ⟨tmp, rfl⟩⟩, fun h => (by cases h),
      fun g'' hg'' _ => drifts_installed hg''⟩
  | false =>
    have hown : (watch d).own (.pending b) ⟨.installRename, .rename tmp d⟩ r = .pending b := by
      simp [watch, hr]
    have hstill : t = s := by
      rcases hserve with ⟨_, -, rfl⟩ | ⟨_, _, -, rfl⟩
      · rfl
      · cases hr
    rw [hown, hstill]
    refine ⟨⟨fun p q _ h => ?_, fun _ => ⟨tmp, rfl⟩⟩, hs, fun g'' _ h => ?_⟩
    · rw [hr] at h
      cases h
    · cases hr.symm.trans h

theorem keeps_moveIntoPlace (hg : g.isPending = true) :
    Keeps d (moveIntoPlace sha256 d tmp) g
      fun g' r => ∀ i, r = .ok i → g' = .installed ∧ i.backup = none := by
  have hprepare : Keeps d (prepareInstall sha256 d tmp) g
      fun g' r => g'.isPending = true ∧ ∀ i, r = .ok i → i.backup = none := by
    unfold prepareInstall
    split
    · exact Watch.keeps_throw fun g' hg' => ⟨by rw [drifts_pending hg', hg], fun i hi => by cases hi⟩
    · have hmeasure : Spared d (io (FsProg.measure .measure tmp)) :=
        (spared_act (by simp [Harmless, Spares])).adapt _
      refine Watch.keeps_bind (keeps_harmless hmeasure) (fun g₁ bytes hg₁ => ?_)
        (fun g₁ e hg₁ g₂ hg₂ => ⟨by rw [drifts_pending hg₂, drifts_pending hg₁, hg],
          fun i hi => by cases hi⟩)
      refine Watch.keeps_bind (keeps_harmless (spared_hashFile tmp)) (fun g₂ digest hg₂ => ?_)
        (fun g₂ e hg₂ g₃ hg₃ => ⟨by rw [drifts_pending hg₃, drifts_pending hg₂, drifts_pending hg₁, hg],
          fun i hi => by cases hi⟩)
      refine Watch.keeps_bind (keeps_backUp ?_) (fun g₃ backup h => ?_)
        (fun g₃ e h g₄ hg₄ => ⟨by rw [drifts_pending hg₄, h.1], fun i hi => by cases hi⟩)
      · rw [drifts_pending hg₂, drifts_pending hg₁, hg]
      · refine Watch.keeps_pure fun g₄ hg₄ => ⟨by rw [drifts_pending hg₄, h.1], fun i hi => ?_⟩
        cases hi
        exact h.2 backup rfl
  refine Watch.keeps_bind hprepare (fun g₁ installed h => ?_) (fun g₁ e _ g₂ _ i hi => by cases hi)
  have hrename : Keeps d (renameOrRestore d tmp installed.backup) g₁
      fun g' r => ∀ u, r = .ok u → g' = .installed := by
    rw [h.2 installed rfl]
    refine Watch.keeps_attempt_bind (keeps_installRename h.1) fun g₂ r hr => ?_
    cases r with
    | error e => exact Watch.keeps_throw fun _ _ u hu => by cases hu
    | ok _ =>
      obtain rfl := hr rfl
      exact Watch.keeps_pure fun g₃ hg₃ u _ => drifts_installed hg₃
  refine Watch.keeps_bind hrename (fun g₂ u hu => ?_) (fun g₂ e _ g₃ _ i hi => by cases hi)
  obtain rfl := hu u rfl
  refine Watch.keeps_pure fun g₃ hg₃ i hi => ?_
  cases hi
  exact ⟨drifts_installed hg₃, h.2 installed rfl⟩

theorem keeps_installTemporary (hg : g.isPending = true) :
    Keeps d (installTemporary sha256 d tmp) g fun g' r => ∀ artifact, r = .ok artifact → g' = .installed := by
  have hmove : Keeps d (armed tmp (moveIntoPlace sha256 d tmp)) g
      fun g' r => ∀ i, r = .ok i → g' = .installed ∧ i.backup = none := by
    refine Watch.keeps_onError (keeps_moveIntoPlace hg) (fun g₁ i h g₂ hg₂ j hj => ?_) (fun g₁ e _ => ?_)
    · cases hj
      obtain ⟨rfl, hbackup⟩ := h i rfl
      exact ⟨drifts_installed hg₂, hbackup⟩
    · exact (keeps_harmless (spared_remove _ (by simp) tmp)).mono fun _ _ _ _ _ j hj => by cases hj
  refine Watch.keeps_bind hmove (fun g₁ i h => ?_) (fun g₁ e _ g₂ _ a ha => by cases ha)
  obtain ⟨rfl, hbackup⟩ := h i rfl
  rw [hbackup]
  have hrest : Spared d (do
      removeBackup none
      let path ← io (FsProg.canonicalize .canonicalizeInstalled d)
      pure (⟨path, i.bytes, i.sha256⟩ : OutputArtifact)) :=
    (Within.pure _).bind fun _ => ((spared_act (by simp [Harmless, Spares])).adapt _).bind fun _ => .pure _
  exact (keeps_harmless hrest).mono fun g₂ r hg₂ a _ => drifts_installed hg₂

end keeps

namespace Caller

variable {sha256 : Bytes → String}

theorem path_ne (hd : Public d) {par : Path String} {purpose : String}
    (tmp : TemporaryOutput par purpose) : tmp.path ≠ d := by
  obtain ⟨random, h⟩ := tmp.private_
  rw [h]
  exact hd par purpose random

theorem keeps_run (caller : Caller) (hoverwrite : caller.overwrites = false)
    (hd : Public caller.destination) :
    Keeps caller.destination (caller.run sha256) .unchecked
      fun g r => ∀ artifact, r = .ok (some artifact) → g = .installed := by
  cases caller with
  | write policy input overwrite writer =>
    obtain rfl : overwrite = false := hoverwrite
    have hwrite : Keeps input (writeAtomic sha256 policy input false writer) .unchecked
        fun g r => ∀ artifact, r = .ok artifact → g = .installed := by
      refine Watch.keeps_bind keeps_checked (fun g p hp => ?_) (fun g e _ g' _ a ha => by cases ha)
      obtain ⟨rfl, hpending⟩ := hp p rfl
      refine Watch.keeps_bind (keeps_harmless (spared_createPrivateFile hd "tmp" _)) (fun g₁ tmp hg₁ => ?_)
        (fun g e _ g' _ a ha => by cases ha)
      have hsync : ∀ site : AtomicSite, site ∈ [AtomicSite.flush, .syncTemporary] →
          Spared p (io (FsProg.sync site tmp.path)) := by
        intro site hsite
        refine (spared_act ?_).adapt _
        rcases List.mem_pair.mp hsite with rfl | rfl <;> simp [Harmless, Spares]
      have hstage := spared_armed tmp.path ((spared_write (path_ne hd tmp) writer).bind fun _ =>
        (hsync .flush (by simp)).bind fun _ => hsync .syncTemporary (by simp))
      refine Watch.keeps_bind (keeps_harmless hstage) (fun g₂ _ hg₂ => ?_)
        (fun g e _ g' _ a ha => by cases ha)
      exact keeps_installTemporary (by rw [drifts_pending hg₂, drifts_pending hg₁, hpending])
    refine Watch.keeps_bind hwrite (fun g a ha => ?_) (fun g e _ g' _ a ha => by cases ha)
    obtain rfl := ha a rfl
    exact Watch.keeps_pure fun g' hg' _ _ => drifts_installed hg'
  | reserve policy input overwrite commits =>
    obtain rfl : overwrite = false := hoverwrite
    have hreserve : Keeps input (reserveExternalAtomic policy input false) .unchecked
        fun g r => ∀ reserved, r = .ok reserved → reserved.output = input ∧ g.isPending = true := by
      refine Watch.keeps_bind keeps_checked (fun g p hp => ?_) (fun g e _ g' _ a ha => by cases ha)
      obtain ⟨rfl, hpending⟩ := hp p rfl
      refine Watch.keeps_bind (keeps_harmless (spared_createPrivateFile hd "external" _))
        (fun g₁ tmp hg₁ => ?_) (fun g e _ g' _ a ha => by cases ha)
      refine Watch.keeps_pure fun g₂ hg₂ reserved h => ?_
      cases h
      exact ⟨rfl, by rw [drifts_pending hg₂, drifts_pending hg₁, hpending]⟩
    refine Watch.keeps_bind hreserve (fun g reserved h => ?_) (fun g e _ g' _ a ha => by cases ha)
    obtain ⟨rfl, hpending⟩ := h reserved rfl
    cases commits with
    | false =>
      refine Watch.keeps_attempt_bind (keeps_harmless (spared_remove _ (by simp) _)) fun g' _ _ => ?_
      exact Watch.keeps_pure fun _ _ a ha => by cases ha
    | true =>
      have hguard : Spared reserved.output (armed reserved.temporary.path do
          let metadata ← io (FsProg.lstat .commitInspect reserved.temporary.path)
          if metadata.kind ≠ .file then throw (.invalidOutputType reserved.temporary.path)
          else
            io (FsProg.openFile .commitOpen reserved.temporary.path)
            io (FsProg.sync .commitSync reserved.temporary.path)) := by
        refine spared_armed _ (((spared_act (by simp [Harmless, Spares])).adapt _).bind fun _ => ?_)
        refine .ite (.throw _) (((spared_act (by simp [Harmless, Spares])).adapt _).bind fun _ => ?_)
        exact (spared_act (by simp [Harmless, Spares])).adapt _
      have hcommit : Keeps reserved.output (reserved.commit sha256) g
          fun g r => ∀ artifact, r = .ok artifact → g = .installed := by
        refine Watch.keeps_bind (keeps_harmless hguard) (fun g₁ _ hg₁ => ?_)
          (fun g e _ g' _ a ha => by cases ha)
        exact keeps_installTemporary (by rw [drifts_pending hg₁, hpending])
      refine Watch.keeps_bind hcommit (fun g a ha => ?_) (fun g e _ g' _ a ha => by cases ha)
      obtain rfl := ha a rfl
      exact Watch.keeps_pure fun g' hg' _ _ => drifts_installed hg'

end Caller

end AtomicOutput
