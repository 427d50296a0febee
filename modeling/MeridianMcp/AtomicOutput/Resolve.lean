import MeridianMcp.AtomicOutput.Publish

namespace AtomicOutput

open Effects Fallible FileSystem MeridianMcp

variable {env : Env AtomicSite} {fs s t : FileSystem String} {par : Path String} {purpose : String}

namespace PathPolicy

variable (policy : PathPolicy) (env : Env AtomicSite) (fs : FileSystem String)

def admitted (input : Path String) (overwrite : Bool) : Except PolicyError (Path String) :=
  if !env.fault .policyExists && fs.present input then do
    let canonical ← (env.observe .policyCanonicalize (fs.canonicalize input)).mapError fun source =>
      ⟨"path_not_found", some input, "cannot resolve", some source⟩
    let canonical ← policy.requireContained canonical
    if overwrite then pure canonical
    else throw ⟨"output_exists", some canonical, "output already exists; set overwrite=true", none⟩
  else
    match input.getLast? with
    | none => throw ⟨"invalid_output_path", some input, "output path has no parent", none⟩
    | some name => do
      let parent ← (env.observe .policyParent (fs.canonicalize input.dropLast)).mapError fun source =>
        ⟨"output_parent_not_found", some input.dropLast, "cannot resolve output parent", some source⟩
      policy.requireContained (parent.map (· ++ [name]))

theorem exec_outputPath (input : Path String) (overwrite : Bool) :
    exec env.serve (policy.outputPath input overwrite) fs =
      (policy.admitted env fs input overwrite, fs) := by
  rw [outputPath, exec_bind_ok _ (FsProg.exec_pathExists .policyExists env fs input), admitted]
  split
  · rw [readPath, exec_bind, exec_bind, exec_adapt, FsProg.exec_canonicalize]
    cases env.observe .policyCanonicalize (fs.canonicalize input) with
    | error e => rfl
    | ok canonical =>
      cases hc : policy.requireContained canonical with
      | error e => simp [Except.mapError, hc, bind, Except.bind]; rfl
      | ok path => cases overwrite <;> simp [Except.mapError, hc, bind, Except.bind] <;> rfl
  · cases input.getLast? with
    | none => rfl
    | some name =>
      simp only
      rw [exec_bind, exec_adapt, FsProg.exec_canonicalize]
      cases env.observe .policyParent (fs.canonicalize input.dropLast) with
      | error e => rfl
      | ok parent =>
        cases hc : policy.requireContained (parent.map (· ++ [name])) with
        | error e => simp [Except.mapError, hc, bind, Except.bind]; rfl
        | ok path => simp [Except.mapError, hc, bind, Except.bind]; rfl

variable {policy env fs}

theorem requireContained_ok {path : Option (Path String)} {p : Path String}
    (h : policy.requireContained path = .ok p) : path = some p := by
  unfold requireContained at h
  split at h
  · split at h
    · cases h
      rfl
    · cases h
  · cases h

theorem canonicalize_some {p q : Path String} (h : fs.canonicalize p = .ok (some q)) : q = p := by
  unfold canonicalize at h
  split at h <;> cases h
  rfl

theorem admitted_ok {input p : Path String} {overwrite : Bool}
    (h : policy.admitted env fs input overwrite = .ok p) : p = input := by
  unfold admitted at h
  split at h
  · cases hc : env.observe .policyCanonicalize (fs.canonicalize input) with
    | error e =>
      rw [hc] at h
      cases h
    | ok canonical =>
      rw [hc] at h
      cases hr : policy.requireContained canonical with
      | error e => simp [Except.mapError, bind, Except.bind, hr] at h
      | ok q =>
        cases overwrite with
        | false => simp [Except.mapError, bind, Except.bind, hr, throw, throwThe, MonadExceptOf.throw] at h
        | true =>
          simp only [Except.mapError, bind, Except.bind, hr, if_true] at h
          cases h
          rw [requireContained_ok hr] at hc
          unfold Env.observe at hc
          split at hc
          · cases hc
          · exact canonicalize_some hc
  · cases hn : input.getLast? with
    | none => simp [hn, throw, throwThe, MonadExceptOf.throw] at h
    | some name =>
      rw [hn] at h
      cases hc : env.observe .policyParent (fs.canonicalize input.dropLast) with
      | error e =>
        rw [hc] at h
        cases h
      | ok parent =>
        rw [hc] at h
        have hr := requireContained_ok h
        obtain ⟨q, rfl, rfl⟩ := Option.map_eq_some_iff.mp hr
        unfold Env.observe at hc
        split at hc
        · cases hc
        · rw [canonicalize_some hc]
          exact List.dropLast_append_getLast? name hn

end PathPolicy

-- The destination passes the policy and, where it is there, is seen to be a file.
def Accepted (policy : PathPolicy) (env : Env AtomicSite) (fs : FileSystem String)
    (input : Path String) (overwrite : Bool) : Prop :=
  (policy.admitted env fs input overwrite).isOk ∧ input ≠ [] ∧
    (env.fault .outputExists = false → fs.present input = true → env.fault .outputIsFile = false)

theorem exec_isFile (site : AtomicSite) (p : Path String) :
    exec env.serve (isFile site p) fs =
      (.ok (decide (env.observe site (fs.stat p) = .ok .file)), fs) := by
  rw [isFile, exec_bind, exec_attempt, FsProg.exec_stat]
  cases env.observe site (fs.stat p) <;> simp

theorem exec_existsNotFile {p : Path String} (hdest : fs.node p = none ∨ ∃ b, fs.node p = some (.file b)) :
    exec env.serve (existsNotFile p) fs = (.ok (decide (env.fault .outputExists = false ∧
      fs.present p = true ∧ env.fault .outputIsFile = true)), fs) := by
  rw [existsNotFile, exec_bind_ok _ (FsProg.exec_pathExists .outputExists env fs p)]
  by_cases hseen : (!env.fault .outputExists && fs.present p) = true
  · obtain ⟨hsound, hpresent⟩ : env.fault .outputExists = false ∧ fs.present p = true := by
      simpa using hseen
    have hstat : fs.stat p = .ok .file := by
      rcases hdest with h | ⟨b, h⟩
      · exact absurd h (present_iff.mp hpresent).1
      · simp [FileSystem.stat, h]
    rw [if_pos hseen, exec_bind_ok _ (exec_isFile .outputIsFile p), hstat]
    cases hfault : env.fault .outputIsFile <;> simp [Env.observe, hfault, hsound, hpresent]
  · rw [if_neg hseen]
    have hunseen : ¬ (env.fault .outputExists = false ∧ fs.present p = true ∧
        env.fault .outputIsFile = true) := by
      rintro ⟨hsound, hpresent, -⟩
      simp [hsound, hpresent] at hseen
    simp [hunseen]

theorem checked_settles {policy : PathPolicy} {input : Path String} {overwrite : Bool}
    {K : FileSystem String → Prop} (hdest : fs.node input = none ∨ ∃ b, fs.node input = some (.file b))
    (hK : K fs) :
    Settles env.serve (checked policy input overwrite) fs
      (Accepted policy env fs input overwrite) input fs K := by
  have hpolicy : exec env.serve ((policy.outputPath input overwrite).adapt AtomicOutputError.policy)
      fs = _ := exec_adapt ..
  rw [policy.exec_outputPath] at hpolicy
  cases hentered : policy.admitted env fs input overwrite with
  | error e =>
    rw [hentered] at hpolicy
    refine ⟨fun h => ?_, fun _ => ⟨_, fs, exec_bind_error _ hpolicy, hK⟩⟩
    rw [Accepted, hentered] at h
    cases h.1
  | ok p =>
    obtain rfl := PathPolicy.admitted_ok hentered
    rw [hentered] at hpolicy
    have hokay : (policy.admitted env fs p overwrite).isOk = true := by rw [hentered]; rfl
    have hparent : Settles env.serve (if p = [] then MonadExcept.throw (.io .invalidInput) else pure p :
        OutputProg (Path String)) fs (¬ p = [] ∧ True) p fs K := Settles.orThrow hK fun _ => Settles.pure p
    refine Settles.bind_sure hpolicy (Settles.bind_sure (exec_existsNotFile hdest) ?_)
    refine Settles.congr (Settles.orThrow hK fun _ => hparent) ?_
    simp only [Accepted, hokay, decide_eq_true_eq, not_and, Bool.not_eq_true, and_true, true_and, ne_eq]
    exact and_comm

def drawnTemporary (env : Env AtomicSite) (fs : FileSystem String) (par : Path String)
    (purpose : String) : Nat → Option (TemporaryOutput par purpose)
  | 0 => none
  | attempt + 1 =>
    let random := env.entropy (.temporaryRandom attempt)
    if env.fault (.temporaryRandom attempt) = true ∨ env.fault (.createTemporary attempt) = true then
      none
    else if fs.node (privatePath par purpose random) = none then
      if fs.node par = some .dir then some ⟨privatePath par purpose random, random, rfl⟩ else none
    else drawnTemporary env fs par purpose attempt

theorem drawnTemporary_some {n : Nat} {tmp : TemporaryOutput par purpose}
    (h : drawnTemporary env fs par purpose n = some tmp) :
    fs.node par = some .dir ∧ fs.node tmp.path = none ∧
      ∃ k, tmp.path = privatePath par purpose (env.entropy (.temporaryRandom k)) := by
  induction n with
  | zero => cases h
  | succ n ih =>
    simp only [drawnTemporary] at h
    split at h
    · cases h
    · split at h
      · rename_i hnone
        split at h
        · rename_i hpar
          cases h
          exact ⟨hpar, hnone, n, rfl⟩
        · cases h
      · exact ih h

variable (env fs par purpose) in
theorem createPrivateFile_draws (n : Nat) :
    (∀ tmp, drawnTemporary env fs par purpose n = some tmp →
      ∃ t, exec env.serve (createPrivateFile par purpose n) fs = (.ok tmp, t) ∧
        t.node = Function.update fs.node tmp.path (some (.file []))) ∧
    (drawnTemporary env fs par purpose n = none →
      ∃ e, exec env.serve (createPrivateFile par purpose n) fs = (.error e, fs)) := by
  induction n with
  | zero => exact ⟨fun _ h => (by cases h), fun _ => ⟨_, rfl⟩⟩
  | succ n ih =>
    have hrandom : exec env.serve ((FsProg.random (.temporaryRandom n)).adapt
        AtomicOutputError.entropy) fs = _ := exec_adapt ..
    have hcreate := FsProg.exec_createNew (.createTemporary n) env fs
      (privatePath par purpose (env.entropy (.temporaryRandom n)))
    rw [FsProg.exec_random] at hrandom
    rw [createPrivateFile, drawnTemporary]
    cases hf : env.fault (.temporaryRandom n) with
    | true =>
      rw [Env.observe, if_pos hf] at hrandom
      exact ⟨fun _ h => by simp at h, fun _ => ⟨_, exec_bind_error _ hrandom⟩⟩
    | false =>
      rw [Env.observe, hf] at hrandom
      rw [exec_bind_ok _ hrandom, exec_bind, exec_attempt, hcreate]
      cases hg : env.fault (.createTemporary n) with
      | true =>
        rw [Env.change_fault hg]
        exact ⟨fun _ h => by simp at h, fun _ => ⟨_, rfl⟩⟩
      | false =>
        by_cases hnone : fs.node (privatePath par purpose (env.entropy (.temporaryRandom n))) = none
        · by_cases hpar : fs.node par = some .dir
          · obtain ⟨t, ht, hnode⟩ : ∃ t, fs.createNew (privatePath par purpose _) = .ok t ∧ _ :=
              createNew_ok hpar hnone
            rw [Env.change_ok hg ht]
            refine ⟨fun tmp h => ?_, fun h => by simp [hnone, hpar] at h⟩
            simp only [Bool.false_eq_true, or_self, if_false, hnone, hpar, if_true] at h
            cases h
            exact ⟨t, rfl, hnode⟩
          · have herror : fs.createNew (privatePath par purpose (env.entropy (.temporaryRandom n))) =
                .error .notFound := by
              rw [FileSystem.createNew, if_neg (not_not.mpr hnone), dif_neg]
              simp [Placeable, privatePath, hpar]
            rw [Env.change_error hg herror]
            exact ⟨fun _ h => by simp [hnone, hpar] at h, fun _ => ⟨_, rfl⟩⟩
        · have herror : fs.createNew (privatePath par purpose (env.entropy (.temporaryRandom n))) =
              .error .alreadyExists := by
            simp [FileSystem.createNew, hnone]
          rw [Env.change_error hg herror]
          simp only [Bool.false_eq_true, or_self, if_false, hnone]
          exact ih

end AtomicOutput
