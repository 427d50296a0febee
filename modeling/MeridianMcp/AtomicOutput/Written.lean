import MeridianMcp.AtomicOutput.Publication

namespace AtomicOutput

open Effects Fallible FileSystem MeridianMcp

variable {env : Env AtomicSite} {fs s t : FileSystem String} {par : Path String} {n a : String}
  {payload : Bytes} {sha256 : Bytes → String}

variable (sha256) in
theorem installTemporary_spares (hs : Staged env s par n a payload) (hi : ¬ Installs env s (par ++ [n])) :
    ∃ e t, exec env.serve (installTemporary sha256 (par ++ [n]) (par ++ [a])) s = (.error e, t) ∧
      (t.node (par ++ [n]) = s.node (par ++ [n]) ∨ t.node (par ++ [n]) = none) := by
  obtain ⟨e, u, hexec, hkept⟩ := moveIntoPlace_refused sha256 hs hi
  have hdropped : (dropped env u (par ++ [a])).node (par ++ [n]) = u.node (par ++ [n]) := by
    rw [node_dropped]
    split
    · rfl
    · rw [Function.update_of_ne (by simpa using hs.apart.symm)]
  refine ⟨e, _, exec_installTemporary_refused hexec, ?_⟩
  rw [hdropped]
  rcases hkept with rfl | ⟨-, -, backup, hside⟩
  · exact .inl rfl
  · cases hside with
    | kept hb => exact .inl rfl
    | moved _ _ _ _ _ hnode => exact .inr (by rw [hnode, Function.update_self])

theorem installed_path {out tmp : Path String} {artifact : OutputArtifact}
    (h : exec env.serve (installTemporary sha256 out tmp) s = (.ok artifact, t)) :
    artifact.path.getD out = out := by
  have hcanon : ∀ u : FileSystem String, ∀ path v, exec env.serve
      (io (FsProg.canonicalize .canonicalizeInstalled out)) u = (.ok path, v) → path.getD out = out := by
    intro u path v hexec
    rw [io, exec_adapt, FsProg.exec_canonicalize, Env.observe] at hexec
    split at hexec
    · cases hexec
    · cases hpath : u.canonicalize out with
      | error e =>
        rw [hpath] at hexec
        cases hexec
      | ok found =>
        rw [hpath] at hexec
        cases hexec
        cases path with
        | none => rfl
        | some q => exact PathPolicy.canonicalize_some hpath
  rw [installTemporary, exec_bind] at h
  split at h
  · rw [exec_bind] at h
    split at h
    · rw [exec_bind] at h
      split at h
      · rename_i hpath
        cases h
        exact hcanon _ _ _ hpath
      · cases h
    · cases h
  · cases h

-- How a write ends: with the destination as it was or moved aside, with the payload in place, or
-- with the payload in place and an error of one of the steps behind the install.
inductive Written (env : Env AtomicSite) (fs : FileSystem String) (policy : PathPolicy)
    (input : Path String) (overwrite : Bool) (writer : Writer) :
    Except AtomicOutputError OutputArtifact → FileSystem String → Prop
  | refused {e t} :
      ¬ (Publication.Reaches env fs (.write policy input overwrite writer) ∧ Installs env fs input) →
      (t.node input = fs.node input ∨ t.node input = none) →
      Written env fs policy input overwrite writer (.error e) t
  | published {artifact t} : Publication.Reaches env fs (.write policy input overwrite writer) →
      Installs env fs input → Completes env fs input → artifact.path.getD input = input →
      t.node input = some (.file writer.payload) →
      Written env fs policy input overwrite writer (.ok artifact) t
  | unreported {e t} : Publication.Reaches env fs (.write policy input overwrite writer) →
      Installs env fs input → ¬ Completes env fs input →
      t.node input = some (.file writer.payload) →
      Written env fs policy input overwrite writer (.error e) t

variable (sha256) in
theorem writeAtomic_written {policy : PathPolicy} {input : Path String} {overwrite : Bool}
    {writer : Writer} (h : Publication.Placed env fs (.write policy input overwrite writer)) :
    Written env fs policy input overwrite writer
      (exec env.serve (writeAtomic sha256 policy input overwrite writer) fs).1
      (exec env.serve (writeAtomic sha256 policy input overwrite writer) fs).2 := by
  by_cases hr : Publication.Reaches env fs (.write policy input overwrite writer)
  · obtain ⟨s, n, a, hstaging, hexec⟩ := Publication.write_reaches sha256 h hr
    have hpath : input = input.dropLast ++ [n] := hstaging.path
    have hb : ∀ r, s.node (privatePath input.dropLast "backup" r) =
        fs.node (privatePath input.dropLast "backup" r) := hstaging.backups
    have hslot : s.node input = fs.node input := by rw [hpath, hstaging.slot]
    obtain ⟨hinstalls, hcompletes⟩ := Publication.installs_congr env hslot hb
    by_cases hi : Installs env s (input.dropLast ++ [n])
    · have houtcome := installTemporary_outcome sha256 hstaging.staged
      have hinst : Installs env fs input := hinstalls.mp (by rw [hpath]; exact hi)
      rw [hexec]
      cases hrun : exec env.serve (installTemporary sha256 (input.dropLast ++ [n])
          (input.dropLast ++ [a])) s with
      | mk r t =>
        rw [hrun] at houtcome
        cases houtcome with
        | refused hne => exact absurd hi hne
        | stuck hs =>
          obtain ⟨-, -, hfault, -⟩ := hs
          rw [hi.2] at hfault
          cases hfault
        | done _ hc ht =>
          refine .published hr hinst (hcompletes.mp (by rw [hpath]; exact hc)) ?_ ?_
          · rw [hpath]
            exact installed_path hrun
          · rw [hpath, ht, Function.update_self]
        | unfinished _ hc _ hnode _ =>
          refine .unreported hr hinst (fun h' => hc ?_) (by rw [hpath, hnode])
          rw [← hpath]
          exact hcompletes.mpr h'
    · obtain ⟨e, t, hrun, hkept⟩ := installTemporary_spares sha256 hstaging.staged hi
      rw [hexec, hrun]
      refine .refused (fun h' => hi ?_) ?_
      · rw [← hpath]
        exact hinstalls.mpr h'.2
      · rw [← hpath] at hkept
        rw [← hslot]
        exact hkept
  · obtain ⟨e, t, hexec, hkept, -⟩ := Publication.write_unreached sha256 h hr
    rw [hexec]
    exact .refused (fun h' => hr h'.1) (.inl hkept)

end AtomicOutput
