import MeridianMcp.AtomicOutput.Publication

namespace AtomicOutput

open Effects Fallible FileSystem MeridianMcp

variable {env : Env AtomicSite} {fs : FileSystem String} {par : Path String} {n a : String}
  {payload : Bytes} {sha256 : Bytes → String}

-- The steps up to the rename of a commit whose destination is free.
def Commits (env : Env AtomicSite) : Prop :=
  (env.fault .commitInspect = false ∧ env.fault .commitOpen = false ∧
    env.fault .commitSync = false) ∧ Reads env ∧ env.fault .installRename = false

theorem renameOrRestore_free {t : FileSystem String}
    (h : fs.rename (par ++ [a]) (par ++ [n]) = .ok t) :
    Settles env.serve (renameOrRestore (par ++ [n]) (par ++ [a]) none) fs
      (env.fault .installRename = false) () t (fun u => u = fs) := by
  constructor
  · intro hf
    rw [renameOrRestore, exec_bind_ok _ (exec_attempt _ _ _), FsProg.exec_rename, Env.change_ok hf h]
    rfl
  · intro hf
    refine ⟨.io .other, fs, ?_, rfl⟩
    rw [renameOrRestore, exec_bind_ok _ (exec_attempt _ _ _), FsProg.exec_rename,
      Env.change_fault (Bool.eq_true_of_not_eq_false hf)]
    rfl

theorem prepareInstall_free (htemp : fs.node (par ++ [a]) = some (.file payload))
    (hfree : fs.node (par ++ [n]) = none) :
    Settles env.serve (prepareInstall sha256 (par ++ [n]) (par ++ [a])) fs (Reads env)
      ⟨none, payload.length, sha256 payload⟩ fs (fun u => u = fs) := by
  have hexists := FsProg.exec_pathExists (ε := AtomicOutputError) .installExists env fs (par ++ [n])
  have hbackUp : exec env.serve (backUp (par ++ [n])) fs = (.ok none, fs) := by
    rw [backUp, exec_bind_ok _ hexists, if_neg (by simp [not_present_of_none hfree])]
    rfl
  have hlen : fs.measure (par ++ [a]) = .ok payload.length := by simp [FileSystem.measure, htemp]
  have hmeasure := (FsProg.settles_observe (K := fun u => u = fs)
    (FsProg.exec_measure AtomicSite.measure env fs (par ++ [a])) hlen rfl).adapt AtomicOutputError.io
  have hhash : Settles env.serve (hashFile sha256 (par ++ [a])) fs
      (env.fault .hashOpen = false ∧ env.fault .hashRead = false) (sha256 payload) fs
      (fun u => u = fs) := hashFile_settles htemp rfl
  have hrest : Settles env.serve (backUp (par ++ [n]) >>= fun backup => pure
      (⟨backup, payload.length, sha256 payload⟩ : Installed)) fs True
      ⟨none, payload.length, sha256 payload⟩ fs (fun u => u = fs) :=
    Settles.bind_sure hbackUp (Settles.pure _)
  rw [prepareInstall, if_neg (by simp)]
  refine Settles.congr (hmeasure.bind fun _ => hhash.bind fun _ => hrest) ?_
  simp only [Reads, and_true]

variable {reserved : ReservedExternalOutput}

variable (sha256) in
theorem commit_free (htemp : fs.node reserved.temporary.path = some (.file payload))
    (hfree : fs.node reserved.output = none) (hroot : reserved.output ≠ []) :
    (¬ Commits env → ∃ e, exec env.serve (reserved.commit sha256) fs =
      (.error e, dropped env fs reserved.temporary.path)) ∧
    (Commits env → ∃ t outcome, exec env.serve (reserved.commit sha256) fs = (outcome, t) ∧
      t.node = Function.update (Function.update fs.node reserved.temporary.path none)
        reserved.output (some (.file payload)) ∧
      (env.fault .canonicalizeInstalled = false →
        outcome = .ok ⟨some reserved.output, payload.length, sha256 payload⟩) ∧
      (env.fault .canonicalizeInstalled = true → ∃ e, outcome = .error e)) := by
  have hguard := Publication.commit_guard_settles env reserved (fun u => u = fs) rfl
  have hsite : (∃ bytes, fs.node reserved.temporary.path = some (.file bytes)) := ⟨_, htemp⟩
  obtain ⟨random, hrandom⟩ := reserved.temporary.private_
  have hout := (List.dropLast_append_getLast hroot).symm
  generalize reserved.output.getLast hroot = n at hout
  have htemp' := htemp
  have hfree' := hfree
  rw [hrandom, privatePath] at htemp'
  rw [hout] at hfree'
  have hapart : privateName "external" random ≠ n := by
    rintro rfl
    rw [hfree'] at htemp'
    cases htemp'
  have hpar : fs.node reserved.output.dropLast = some .dir :=
    fs.rooted _ _ (by rw [show fs.nodes.get _ = _ from htemp']; simp)
  obtain ⟨t, ht, hnode⟩ := rename_replace hpar htemp' (by simp) hapart (by simp [hfree'])
  have hmove : Settles env.serve (moveIntoPlace sha256 (reserved.output.dropLast ++ [n])
      (reserved.output.dropLast ++ [privateName "external" random])) fs
      (Reads env ∧ env.fault .installRename = false) ⟨none, payload.length, sha256 payload⟩ t
      (fun u => u = fs) := by
    have hrename : Settles env.serve (renameOrRestore (reserved.output.dropLast ++ [n])
        (reserved.output.dropLast ++ [privateName "external" random]) none >>= fun _ =>
          pure (⟨none, payload.length, sha256 payload⟩ : Installed)) fs _ _ t (fun u => u = fs) :=
      (renameOrRestore_free ht).bind fun _ => Settles.pure _
    rw [moveIntoPlace]
    exact ((prepareInstall_free htemp' hfree').bind fun _ => hrename).congr (by rw [and_true])
  rw [← hout, ← privatePath, ← hrandom] at hmove hnode
  rw [Function.update_comm (by
    intro heq
    rw [heq, htemp] at hfree
    cases hfree)] at hnode
  constructor
  · intro hfails
    by_cases hstaged : env.fault .commitInspect = false ∧ env.fault .commitOpen = false ∧
        env.fault .commitSync = false
    · obtain ⟨e, u, he, rfl⟩ := hmove.2 fun hm => hfails ⟨hstaged, hm⟩
      refine ⟨e, ?_⟩
      rw [ReservedExternalOutput.commit, exec_bind_ok _ (exec_armed_ok (hguard.1 ⟨hsite, hstaged⟩)),
        installTemporary, exec_bind_error _ (exec_armed_error he)]
    · obtain ⟨e, u, he, rfl⟩ := hguard.2 fun hg => hstaged hg.2
      exact ⟨e, exec_bind_error _ (exec_armed_error he)⟩
  · rintro ⟨hstaged, hm⟩
    have hdest : t.node reserved.output = some (.file payload) := by
      rw [hnode, Function.update_self]
    have hcanonical : t.canonicalize reserved.output = .ok (some reserved.output) := by
      simp [FileSystem.canonicalize, hdest]
    have hexec : exec env.serve (reserved.commit sha256) fs = exec env.serve (do
        let path ← io (FsProg.canonicalize .canonicalizeInstalled reserved.output)
        pure (⟨path, payload.length, sha256 payload⟩ : OutputArtifact) : OutputProg OutputArtifact) t := by
      rw [ReservedExternalOutput.commit, exec_bind_ok _ (exec_armed_ok (hguard.1 ⟨hsite, hstaged⟩)),
        installTemporary, exec_bind_ok _ (exec_armed_ok (hmove.1 hm))]
      rfl
    have hpath : exec env.serve (io (FsProg.canonicalize .canonicalizeInstalled reserved.output)) t =
        ((env.observe .canonicalizeInstalled (.ok (some reserved.output))).mapError .io, t) := by
      rw [io, exec_adapt, FsProg.exec_canonicalize, hcanonical]
    cases hf : env.fault .canonicalizeInstalled with
    | false =>
      rw [Env.observe, hf] at hpath
      exact ⟨t, _, hexec.trans (exec_bind_ok _ hpath), hnode, fun _ => rfl, by rintro ⟨⟩⟩
    | true =>
      rw [Env.observe, hf] at hpath
      exact ⟨t, _, hexec.trans (exec_bind_error _ hpath), hnode, by rintro ⟨⟩, fun _ => ⟨_, rfl⟩⟩

end AtomicOutput
