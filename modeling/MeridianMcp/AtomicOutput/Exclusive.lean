import MeridianMcp.AtomicOutput.Overwrite

namespace AtomicOutput

open Effects Fallible FileSystem MeridianMcp

variable {I : Type} [DecidableEq I]

abbrev Callers (I : Type) : Type :=
  Pool I (Call AtomicSite String) Answer (Except AtomicOutputError (Option OutputArtifact))
    (FileSystem String)

abbrev History (I : Type) : Type :=
  List (Moment I (Call AtomicSite String) Answer (FileSystem String))

def started (sha256 : Bytes → String) (callers : I → Caller) (fs : FileSystem String) : Callers I :=
  ⟨fun i => ((callers i).run sha256).run, fs⟩

-- Others, and the producers of reserved outputs, write whole files wherever they like.
def FileWritten (s t : FileSystem String) : Prop :=
  ∃ p bytes, t.node = Function.update s.node p (some (.file bytes))

abbrev Proceeds (start : Callers I) : History I → Callers I → Prop :=
  Runs FsProg.Serves FileWritten start

def stage (callers : I → Caller) (i : I) (h : History I) : Stage :=
  (watch (callers i).destination).ghost i .unchecked h

def Reported (P : Callers I) (i : I) : Prop := ∃ artifact, (P.program i).result = some (.ok (some artifact))

def Overlap (callers : I → Caller) (i j : I) (h : History I) : Prop :=
  ∃ h₁ h₂, h = h₁ ++ h₂ ∧ (stage callers i h₁).isPending = true ∧ (stage callers j h₁).isPending = true

def Exclusive (callers : I → Caller) (i : I) : Prop := (callers i).overwrites = false

structure NoSilentOverwrite (callers : I → Caller) (h : History I) (P : Callers I) : Prop where
  kept : ∀ i, Exclusive callers i → ∀ m ∈ h, ∀ c r, m.deed = .own i c r →
    ∀ p q, c.op = .rename p q → r.isOk = true →
      p = (callers i).destination ∨ q = (callers i).destination →
        m.before.node (callers i).destination = none
  installed : ∀ i, Exclusive callers i → Reported P i → stage callers i h = .installed
  single : ∀ i j, i ≠ j → Exclusive callers i → Exclusive callers j →
    (callers i).destination = (callers j).destination → Overlap callers i j h →
      ¬ (Reported P i ∧ Reported P j)

-- The existence check of the policy is right when it finds nothing, and no install step is taken
-- by a publication whose destination somebody created after that check.
def Calm (callers : I → Caller) (i : I) (h : History I)
    (m : Moment I (Call AtomicSite String) Answer (FileSystem String)) : Prop :=
  match m.deed with
  | .own k c r => k = i →
    (c.site = .policyExists → r.isOk = false → m.before.node (callers i).destination = none) ∧
      (stage callers i h = .pending true → c.site = .backupRename ∨ c.site = .installRename →
        r.isOk = false)
  | .outside => True

instance (callers : I → Caller) (i : I) (h : History I)
    (m : Moment I (Call AtomicSite String) Answer (FileSystem String)) :
    Decidable (Calm callers i h m) := by
  unfold Calm
  split <;> infer_instance

def Undisturbed (callers : I → Caller) (h : History I) : Prop :=
  ∀ i, Exclusive callers i → ∀ h₁ m h₂, h = h₁ ++ m :: h₂ → Calm callers i h₁ m

theorem Undisturbed.honest {callers : I → Caller} {h : History I} (hund : Undisturbed callers h) {i : I}
    (hi : Exclusive callers i) :
    Watch.HonestFor (watch (callers i).destination) i .unchecked h := by
  intro h₁ m h₂ c r hsplit hdeed
  have hcalm := hund i hi h₁ m h₂ hsplit
  rw [Calm, hdeed] at hcalm
  exact hcalm rfl

theorem undisturbed_of_inits {callers : I → Caller} {h : History I}
    (hcalm : ∀ i, Exclusive callers i → ∀ x ∈ h.inits.zip h, Calm callers i x.1 x.2) :
    Undisturbed callers h := by
  rintro i hi h₁ m h₂ rfl
  refine hcalm i hi (h₁, m) ?_
  rw [List.mem_iff_getElem]
  exact ⟨h₁.length, by simp, by simp⟩

variable {sha256 : Bytes → String} {callers : I → Caller} {fs : FileSystem String} {h : History I}
  {P : Callers I} {i j : I}

theorem keeps_stage (hpublic : Public (callers i).destination) (hi : Exclusive callers i)
    (hrun : Proceeds (started sha256 callers fs) h P) (hund : Undisturbed callers h) :
    Keeps (callers i).destination (ExceptT.mk (P.program i)) (stage callers i h)
        (fun g r => ∀ artifact, r = .ok (some artifact) → g = .installed) ∧
      ∀ m ∈ h, ∀ c r, m.deed = .own i c r → (watch (callers i).destination).safe c m.before r := by
  have hkeeps := Watch.run_keeps hrun i ((callers i).keeps_run hi hpublic) (fun h => (by cases h))
    other_holds (hund.honest hi)
  exact ⟨hkeeps.1, hkeeps.2.2⟩

theorem installed_of_reported (hpublic : Public (callers i).destination) (hi : Exclusive callers i)
    (hrun : Proceeds (started sha256 callers fs) h P) (hund : Undisturbed callers h)
    (hreported : Reported P i) : stage callers i h = .installed := by
  obtain ⟨artifact, ha⟩ := hreported
  have hkeeps := (keeps_stage hpublic hi hrun hund).1
  have hret : P.program i = .ret (.ok (some artifact)) := by
    cases hp : P.program i with
    | ret a =>
      rw [hp] at ha
      cases ha
      rfl
    | call o k =>
      rw [hp] at ha
      cases ha
  rw [hret] at hkeeps
  exact hkeeps _ .refl artifact rfl

-- Two publications of one destination that have both passed the check: the first install marks
-- the destination taken for the other.
inductive Rivals : Stage → Stage → Prop
  | pending (b b' : Bool) : Rivals (.pending b) (.pending b')
  | first : Rivals .installed (.pending true)
  | second : Rivals (.pending true) .installed

theorem Rivals.symm {g g' : Stage} (h : Rivals g g') : Rivals g' g := by
  cases h with
  | pending b b' => exact .pending b' b
  | first => exact .second
  | second => exact .first

structure Legal (d : Path String) (g : Stage) (c : Call AtomicSite String) (s : FileSystem String)
    (r : Answer c) (t : FileSystem String) : Prop where
  honest : (watch d).honest g c s r
  safe : (watch d).safe c s r
  serves : FsProg.Serves c s r t

variable {d : Path String} {g g' : Stage} {c : Call AtomicSite String} {s t : FileSystem String}
  {r : Answer c}

theorem rivals_other (h : Rivals g g') (s t : FileSystem String) :
    Rivals ((watch d).other g s t) ((watch d).other g' s t) := by
  cases h with
  | pending b b' => cases b <;> cases b' <;> exact .pending _ _
  | first => exact .first
  | second => exact .second

theorem Legal.takes (h : Legal d g c s r t) (hsite : c.site = .installRename) (hok : r.isOk = true) :
    taken d s t = true := by
  obtain ⟨p, hop⟩ := h.safe.2 hsite
  have hbefore : s.node d = none := h.safe.1 p d hop hok (.inr rfl)
  have hafter : t.node d ≠ none := by
    obtain ⟨site, op⟩ := c
    obtain rfl : op = .rename p d := hop
    rcases h.serves with ⟨e, rfl, -⟩ | ⟨_, v, hexec, -⟩
    · cases hok
    · exact rename_target (map_state_ok hexec)
  simp [taken, hbefore, hafter]

theorem rivals_own (h : Rivals g g') (hl : Legal d g c s r t) :
    Rivals ((watch d).own g c r) ((watch d).other g' s t) := by
  cases h with
  | first => exact .first
  | second =>
    by_cases hsite : c.site = .installRename
    · have hfails := hl.honest.2 rfl (.inr hsite)
      have hown : (watch d).own (.pending true) c r = .pending true := by simp [watch, hsite, hfails]
      rw [hown]
      exact .second
    · have hown : (watch d).own (.pending true) c r = .pending true := by
        simp only [watch]
        split <;> simp_all
      rw [hown]
      exact .second
  | pending b b' =>
    have hother : ∃ b'', (watch d).other (.pending b') s t = .pending b'' ∧
        (taken d s t = true → b'' = true) := by
      cases b' with
      | true => exact ⟨true, rfl, fun _ => rfl⟩
      | false => exact ⟨taken d s t, rfl, id⟩
    obtain ⟨b'', hb'', htaken⟩ := hother
    rw [hb'']
    by_cases hsite : c.site = .installRename
    · cases hr : r.isOk with
      | true =>
        have hown : (watch d).own (.pending b) c r = .installed := by simp [watch, hsite, hr]
        rw [hown, htaken (hl.takes hsite hr)]
        exact .first
      | false =>
        have hown : (watch d).own (.pending b) c r = .pending b := by simp [watch, hsite, hr]
        rw [hown]
        exact .pending _ _
    · have hown : (watch d).own (.pending b) c r = .pending b := by
        simp only [watch]
        split <;> simp_all
      rw [hown]
      exact .pending _ _

theorem rivals_step {m : Moment I (Call AtomicSite String) Answer (FileSystem String)} (hij : i ≠ j)
    (h : Rivals g g') (hi : ∀ c r, m.deed = .own i c r → Legal d g c m.before r m.after)
    (hj : ∀ c r, m.deed = .own j c r → Legal d g' c m.before r m.after) :
    Rivals ((watch d).step i g m) ((watch d).step j g' m) := by
  obtain ⟨deed, s, t⟩ := m
  cases deed with
  | outside => exact rivals_other h s t
  | own k c r =>
    simp only [Watch.step]
    by_cases hki : k = i
    · subst hki
      rw [if_pos rfl, if_neg hij]
      exact rivals_own h (hi c r rfl)
    · by_cases hkj : k = j
      · subst hkj
        rw [if_neg hki, if_pos rfl]
        exact (rivals_own h.symm (hj c r rfl)).symm
      · rw [if_neg hki, if_neg hkj]
        exact rivals_other h s t

theorem Undisturbed.init {m : Moment I (Call AtomicSite String) Answer (FileSystem String)}
    (hund : Undisturbed callers (h ++ [m])) : Undisturbed callers h := by
  rintro i hi h₁ n h₂ rfl
  exact hund i hi h₁ n (h₂ ++ [m]) (by simp)

theorem rivals_concat {m : Moment I (Call AtomicSite String) Answer (FileSystem String)}
    (hij : i ≠ j) (hi : Exclusive callers i) (hj : Exclusive callers j)
    (hpublic : Public (callers i).destination)
    (hsame : (callers i).destination = (callers j).destination)
    (hrun : Proceeds (started sha256 callers fs) (h ++ [m]) P) (hund : Undisturbed callers (h ++ [m]))
    (hserves : ∀ k c r, m.deed = .own k c r → FsProg.Serves c m.before r m.after)
    (hr : Rivals (stage callers i h) (stage callers j h)) :
    Rivals (stage callers i (h ++ [m])) (stage callers j (h ++ [m])) := by
  have hlegal : ∀ k, Exclusive callers k → Public (callers k).destination → ∀ c r,
      m.deed = .own k c r → Legal (callers k).destination (stage callers k h) c m.before r m.after :=
    fun k hk hpub c r hdeed => ⟨hund.honest hk h m [] c r rfl hdeed,
      (keeps_stage hpub hk hrun hund).2 m (by simp) c r hdeed, hserves k c r hdeed⟩
  have hlegal' := hlegal j hj (hsame ▸ hpublic)
  simp only [stage, Watch.ghost_concat] at hr hlegal' ⊢
  rw [← hsame] at hr hlegal' ⊢
  exact rivals_step hij hr (hlegal i hi hpublic) hlegal'

theorem rivals_pending (hpi : g.isPending = true) (hpj : g'.isPending = true) : Rivals g g' := by
  obtain ⟨b, rfl⟩ := pending_of_isPending hpi
  obtain ⟨b', rfl⟩ := pending_of_isPending hpj
  exact .pending b b'

theorem rivals_run (hij : i ≠ j) (hi : Exclusive callers i) (hj : Exclusive callers j)
    (hpublic : Public (callers i).destination)
    (hsame : (callers i).destination = (callers j).destination)
    (hrun : Proceeds (started sha256 callers fs) h P) (hund : Undisturbed callers h) {h₁ h₂ : History I}
    (hsplit : h = h₁ ++ h₂) (hpi : (stage callers i h₁).isPending = true)
    (hpj : (stage callers j h₁).isPending = true) :
    Rivals (stage callers i h) (stage callers j h) := by
  induction hrun generalizing h₂ with
  | start =>
    rw [(List.append_eq_nil_iff.mp hsplit.symm).1] at hpi
    cases hpi
  | @own h P k o f r t hrun hcall hserve ih =>
    rcases List.eq_nil_or_concat h₂ with rfl | ⟨h₃, m, rfl⟩
    · rw [hsplit, List.append_nil]
      exact rivals_pending hpi hpj
    · rw [List.concat_eq_append, ← List.append_assoc] at hsplit
      obtain ⟨rfl, -⟩ := List.append_inj' hsplit rfl
      refine rivals_concat hij hi hj hpublic hsame (.own hrun hcall hserve) hund ?_
        (ih hund.init rfl)
      rintro k' c r' hdeed
      cases hdeed
      exact hserve
  | @outside h P t hrun hout ih =>
    rcases List.eq_nil_or_concat h₂ with rfl | ⟨h₃, m, rfl⟩
    · rw [hsplit, List.append_nil]
      exact rivals_pending hpi hpj
    · rw [List.concat_eq_append, ← List.append_assoc] at hsplit
      obtain ⟨rfl, -⟩ := List.append_inj' hsplit rfl
      refine rivals_concat hij hi hj hpublic hsame (.outside hrun hout) hund ?_ (ih hund.init rfl)
      rintro k' c r' hdeed
      cases hdeed

theorem no_silent_overwrite (sha256 : Bytes → String) (callers : I → Caller) (fs : FileSystem String)
    (hpublic : ∀ i, Exclusive callers i → Public (callers i).destination) (h : History I) (P : Callers I)
    (hrun : Proceeds (started sha256 callers fs) h P) (hund : Undisturbed callers h) :
    NoSilentOverwrite callers h P where
  kept i hi m hm c r hdeed := ((keeps_stage (hpublic i hi) hi hrun hund).2 m hm c r hdeed).1
  installed i hi := installed_of_reported (hpublic i hi) hi hrun hund
  single i j hij hi hj hsame := by
    rintro ⟨h₁, h₂, hsplit, hpi, hpj⟩ ⟨hri, hrj⟩
    have hr := rivals_run hij hi hj (hpublic i hi) hsame hrun hund hsplit hpi hpj
    rw [installed_of_reported (hpublic i hi) hi hrun hund hri,
      installed_of_reported (hpublic j hj) hj hrun hund hrj] at hr
    cases hr

-- Two reservations of one destination, both checked before either is used.
def racers (commits : Bool → Bool) (i : Bool) : Caller :=
  .reserve ⟨[[]]⟩ ["capture.tracy"] false (commits i)

def workspaceTree : FileSystem String := FileSystem.empty

def draws (i : Bool) : Env AtomicSite := ⟨fun _ => false, fun _ => if i then [1] else [2]⟩

def race (commits : Bool → Bool) (schedule : List Bool) : History Bool × Callers Bool :=
  (started (fun _ => "") (racers commits) workspaceTree).play (fun i => (draws i).serve) schedule

theorem race_proceeds (commits : Bool → Bool) (schedule : List Bool) :
    Proceeds (started (fun _ => "") (racers commits) workspaceTree) (race commits schedule).1
      (race commits schedule).2 :=
  Pool.runs_play (fun i c s => FsProg.serves_serve (draws i) c s) .start schedule

theorem racers_public (commits : Bool → Bool) (i : Bool) : Public (racers commits i).destination := by
  intro par purpose r h
  have hdest : par ++ [privateName purpose r] = [] ++ ["capture.tracy"] := h
  obtain ⟨-, hname⟩ := List.append_inj' hdest rfl
  have hprivate : privateName purpose r ≠ "capture.tracy" := by
    rw [privateName, String.append_assoc]
    exact append_ne_self (n := 0) (by simp) (by decide) (by decide)
  exact hprivate (List.singleton_inj.mp hname)

def bothReserve : List Bool := List.replicate 5 true ++ List.replicate 5 false

def secondDrops : History Bool × Callers Bool :=
  race id (bothReserve ++ List.replicate 9 true ++ [false])

theorem no_silent_overwrite_dropped :
    Reported secondDrops.2 true ∧ NoSilentOverwrite (racers id) secondDrops.1 secondDrops.2 := by
  have hcalm : ∀ i, ∀ x ∈ secondDrops.1.inits.zip secondDrops.1, Calm (racers id) i x.1 x.2 := by
    decide
  have hund : Undisturbed (racers id) secondDrops.1 := undisturbed_of_inits fun i _ => hcalm i
  refine ⟨⟨_, rfl⟩, ?_⟩
  exact no_silent_overwrite (fun _ => "") (racers id) workspaceTree (fun i _ => racers_public id i)
    secondDrops.1 secondDrops.2 (race_proceeds id _) hund

def secondReplaces : History Bool × Callers Bool :=
  race (fun _ => true) (bothReserve ++ List.replicate 9 true ++ List.replicate 13 false)

theorem second_commit_replaces :
    Proceeds (started (fun _ => "") (racers fun _ => true) workspaceTree) secondReplaces.1
        secondReplaces.2 ∧
      ¬ NoSilentOverwrite (racers fun _ => true) secondReplaces.1 secondReplaces.2 := by
  refine ⟨race_proceeds _ _, fun h => ?_⟩
  have hreported : ∀ i, Reported secondReplaces.2 i := by
    rintro (_ | _)
    · exact ⟨_, rfl⟩
    · exact ⟨_, rfl⟩
  refine h.single true false (by decide) rfl rfl rfl ?_ ⟨hreported true, hreported false⟩
  refine ⟨secondReplaces.1.take 10, secondReplaces.1.drop 10, (List.take_append_drop 10 _).symm, ?_, ?_⟩
  · decide
  · decide

end AtomicOutput
