import MeridianMcp.AtomicOutput.Fresh
import MeridianMcp.AtomicOutput.Publish

namespace TracyArtifact

open Effects Fallible AtomicOutput MeridianMcp

inductive TraceSetError where
  | atomic (e : AtomicOutputError)
  | io (e : IoError)
  | serialize
  | rollback (path : Path String)

def TraceSetError.isRollback : TraceSetError → Bool
  | .rollback _ => true
  | _ => false

def sidecarPath (output : Path String) : Path String :=
  output.dropLast ++ [output.getLast?.getD "" ++ ".meridian.json"]

structure ReservedTraceSet where
  trace : ReservedExternalOutput
  sidecar : ReservedExternalOutput
  beside : sidecar.output = sidecarPath trace.output

structure PromotedTraceSet where
  trace : OutputArtifact
  sidecar : OutputArtifact

inductive TraceSetSite where
  | openSidecar | writeSidecar | writeLineFeed | flushSidecar | syncSidecar
  | dropTrace | dropSidecar
  | hashOpen | hashRead | removeTrace
  deriving DecidableEq

-- Which operations fail: those of `promote` itself and those of the two commits.
structure PromoteEnv where
  own : Env TraceSetSite
  trace : Env AtomicSite
  sidecar : Env AtomicSite

abbrev TraceSetProg : Type → Type := FsProg TraceSetSite String IoError

-- The temporary is new, so opening it for truncation finds it empty.
def writeSidecar (temporary : Path String) (bytes : Bytes) : TraceSetProg Unit := do
  FsProg.openFile .openSidecar temporary
  FsProg.append .writeSidecar temporary bytes
  FsProg.append .writeLineFeed temporary [10]
  FsProg.sync .flushSidecar temporary
  FsProg.sync .syncSidecar temporary

variable (sha256 : Bytes → String)

def hashFile (path : Path String) : TraceSetProg String := do
  FsProg.openFile .hashOpen path
  let bytes ← FsProg.read .hashRead path
  pure (sha256 bytes)

-- The trace that should have been removed and is still there.
def removeTrace (trace : OutputArtifact) : TraceSetProg (Option (Path String)) :=
  match trace.path with
  | none => pure none
  | some path => do
    match ← attempt (hashFile sha256 path) with
    | .error _ => pure none
    | .ok hash =>
      if hash = trace.sha256 then
        match ← attempt (FsProg.remove .removeTrace path) with
        | .ok _ => pure none
        | .error _ => pure (some path)
      else pure none

variable (env : PromoteEnv) (reserved : ReservedTraceSet)

def dropSidecar (fs : FileSystem String) : FileSystem String :=
  (exec env.own.serve (FsProg.remove .dropSidecar reserved.sidecar.temporary.path) fs).2

def dropBoth (fs : FileSystem String) : FileSystem String :=
  dropSidecar env reserved
    (exec env.own.serve (FsProg.remove .dropTrace reserved.trace.temporary.path) fs).2

def afterSidecar (trace : OutputArtifact) :
    Except AtomicOutputError OutputArtifact × FileSystem String →
      Except TraceSetError PromotedTraceSet × FileSystem String
  | (.ok sidecar, fs) => (.ok ⟨trace, sidecar⟩, fs)
  | (.error e, fs) =>
    match exec env.own.serve (removeTrace sha256 trace) fs with
    | (.ok (some path), fs) => (.error (.rollback path), fs)
    | (_, fs) => (.error (.atomic e), fs)

def promote (sidecar : Option Bytes) (fs : FileSystem String) :
    Except TraceSetError PromotedTraceSet × FileSystem String :=
  match sidecar with
  | none => (.error .serialize, dropBoth env reserved fs)
  | some bytes =>
    match exec env.own.serve (writeSidecar reserved.sidecar.temporary.path bytes) fs with
    | (.error e, fs) => (.error (.io e), dropBoth env reserved fs)
    | (.ok (), fs) =>
      match exec env.trace.serve (reserved.trace.commit sha256) fs with
      | (.error e, fs) => (.error (.atomic e), dropSidecar env reserved fs)
      | (.ok trace, fs) =>
        afterSidecar sha256 env trace (exec env.sidecar.serve (reserved.sidecar.commit sha256) fs)

end TracyArtifact

namespace TracyArtifact

open Effects Fallible FileSystem AtomicOutput MeridianMcp

variable {sha256 : Bytes → String} {env : PromoteEnv} {reserved : ReservedTraceSet}
  {fs s t : FileSystem String} {trace bytes : Bytes}

-- The set after its reservation and the capture, with no other writer on the two destinations.
structure Ready (reserved : ReservedTraceSet) (fs : FileSystem String) (trace : Bytes) : Prop where
  trace : fs.node reserved.trace.temporary.path = some (.file trace)
  sidecar : fs.node reserved.sidecar.temporary.path = some (.file [])
  apart : reserved.trace.temporary.path ≠ reserved.sidecar.temporary.path
  rooted : reserved.trace.output ≠ []
  traceFree : fs.node reserved.trace.output = none
  sidecarFree : fs.node reserved.sidecar.output = none

-- What a caller may rely on: both artifacts after success, neither after an error, unless the
-- error says that the trace could not be removed.
def Paired (reserved : ReservedTraceSet) (trace : Bytes) (sidecar : Option Bytes) :
    Except TraceSetError PromotedTraceSet × FileSystem String → Prop
  | (.ok _, t) => t.node reserved.trace.output = some (.file trace) ∧
      ∃ bytes, sidecar = some bytes ∧ t.node reserved.sidecar.output = some (.file (bytes ++ [10]))
  | (.error e, t) => e.isRollback = false →
      t.node reserved.trace.output = none ∧ t.node reserved.sidecar.output = none

theorem ne_of_node {p q : Path String} {v : Node} (hp : fs.node p = some v) (hq : fs.node q = none) :
    p ≠ q := by
  rintro rfl
  rw [hp] at hq
  cases hq

theorem sidecarPath_ne (output : Path String) (h : output ≠ []) : sidecarPath output ≠ output := by
  obtain ⟨par, n, rfl⟩ : ∃ par n, output = par ++ [n] :=
    ⟨_, _, (List.dropLast_append_getLast h).symm⟩
  intro heq
  simp only [sidecarPath, List.dropLast_concat, List.getLast?_concat, Option.getD_some,
    List.append_cancel_left_eq, List.cons.injEq, and_true] at heq
  have hlen := congrArg String.length heq
  rw [String.length_append] at hlen
  have hending : 0 < ".meridian.json".length := by decide
  omega

theorem removed_other (env : Env TraceSetSite) (site : TraceSetSite) {p q : Path String} (h : q ≠ p) :
    (exec env.serve (FsProg.remove site p) fs).2.node q = fs.node q := by
  rw [FsProg.exec_remove]
  cases hf : env.fault site with
  | true => rw [Env.change_fault hf]
  | false =>
    cases hr : fs.remove p with
    | error e => rw [Env.change_error hf rfl]
    | ok t =>
      rw [Env.change_ok hf rfl]
      exact FileSystem.remove_other hr h

def Writes (env : Env TraceSetSite) : Prop :=
  env.fault .openSidecar = false ∧ env.fault .writeSidecar = false ∧
    env.fault .writeLineFeed = false ∧ env.fault .flushSidecar = false ∧
      env.fault .syncSidecar = false

def Hashes (env : Env TraceSetSite) : Prop :=
  env.fault .hashOpen = false ∧ env.fault .hashRead = false

theorem writeSidecar_settles (env : Env TraceSetSite) {temporary : Path String} (bytes : Bytes)
    (h : fs.node temporary = some (.file [])) (hne : temporary ≠ []) :
    ∃ t, t.node = Function.update fs.node temporary (some (.file (bytes ++ [10]))) ∧
      Settles env.serve (writeSidecar temporary bytes) fs (Writes env) () t
        (fun u => ∀ q, q ≠ temporary → u.node q = fs.node q) := by
  have hout := (List.dropLast_append_getLast hne).symm
  generalize temporary.getLast hne = a at hout
  generalize temporary.dropLast = par at hout
  subst hout
  have hpar : fs.node par = some .dir := fs.rooted _ _ (by rw [show fs.nodes.get _ = _ from h]; simp)
  obtain ⟨s, hs, hsnode⟩ := append_ok hpar h bytes
  have hspar : s.node par = some .dir := by rw [hsnode, Function.update_of_ne (by simp), hpar]
  have hstemp : s.node (par ++ [a]) = some (.file bytes) := by rw [hsnode, Function.update_self]; rfl
  obtain ⟨t, ht, htnode⟩ := append_ok hspar hstemp [10]
  have hnode : t.node = Function.update fs.node (par ++ [a]) (some (.file (bytes ++ [10]))) := by
    rw [htnode, hsnode, Function.update_idem]
  have httemp : t.node (par ++ [a]) = some (.file (bytes ++ [10])) := by
    rw [hnode, Function.update_self]
  have hK : ∀ q, q ≠ par ++ [a] → s.node q = fs.node q := fun q hq => by
    rw [hsnode, Function.update_of_ne hq]
  have hK' : ∀ q, q ≠ par ++ [a] → t.node q = fs.node q := fun q hq => by
    rw [hnode, Function.update_of_ne hq]
  have hopen := FsProg.settles_observe (K := fun u => ∀ q, q ≠ par ++ [a] → u.node q = fs.node q)
    (FsProg.exec_openFile .openSidecar env fs (par ++ [a])) (openFile_file h) fun _ _ => rfl
  have hbody := FsProg.settles_change (K := fun u => ∀ q, q ≠ par ++ [a] → u.node q = fs.node q)
    (FsProg.exec_append .writeSidecar env fs (par ++ [a]) bytes) hs fun _ _ => rfl
  have hfeed := FsProg.settles_change (K := fun u => ∀ q, q ≠ par ++ [a] → u.node q = fs.node q)
    (FsProg.exec_append .writeLineFeed env s (par ++ [a]) [10]) ht hK
  have hflush := FsProg.settles_observe (K := fun u => ∀ q, q ≠ par ++ [a] → u.node q = fs.node q)
    (FsProg.exec_sync .flushSidecar env t (par ++ [a])) (openFile_file httemp) hK'
  have hsync := FsProg.settles_observe (K := fun u => ∀ q, q ≠ par ++ [a] → u.node q = fs.node q)
    (FsProg.exec_sync .syncSidecar env t (par ++ [a])) (openFile_file httemp) hK'
  exact ⟨t, hnode, hopen.bind fun _ => hbody.bind fun _ => hfeed.bind fun _ => hflush.bind fun _ =>
    hsync⟩

-- How the removal of the trace after a failed commit of the sidecar ends.
theorem removeTrace_ends (env : Env TraceSetSite) {path : Path String}
    (h : fs.node path = some (.file trace)) (hne : path ≠ []) :
    (¬ Hashes env → exec env.serve
        (removeTrace sha256 ⟨some path, trace.length, sha256 trace⟩) fs = (.ok none, fs)) ∧
    (Hashes env → env.fault .removeTrace = true → exec env.serve
        (removeTrace sha256 ⟨some path, trace.length, sha256 trace⟩) fs = (.ok (some path), fs)) ∧
    (Hashes env → env.fault .removeTrace = false → ∃ t, exec env.serve
        (removeTrace sha256 ⟨some path, trace.length, sha256 trace⟩) fs = (.ok none, t) ∧
          t.node = Function.update fs.node path none) := by
  have hbytes : fs.read path = .ok trace := by simp [FileSystem.read, h]
  have hopen := FsProg.settles_observe (K := fun u => u = fs)
    (FsProg.exec_openFile .hashOpen env fs path) (openFile_file h) rfl
  have hread := FsProg.settles_observe (K := fun u => u = fs)
    (FsProg.exec_read .hashRead env fs path) hbytes rfl
  have hhash : Settles env.serve (hashFile sha256 path) fs (Hashes env) (sha256 trace) fs
      (fun u => u = fs) :=
    (hopen.bind fun _ => hread.bind fun _ => Settles.pure (sha256 trace)).congr (by simp [Hashes])
  have hremove : ∀ ok, exec env.serve (hashFile sha256 path) fs = (.ok (sha256 trace), fs) →
      (exec env.serve (FsProg.remove .removeTrace path) fs) = ok →
        exec env.serve (removeTrace sha256 ⟨some path, trace.length, sha256 trace⟩) fs =
          (.ok (match ok.1 with | .ok _ => none | .error _ => some path), ok.2) := by
    rintro ⟨r, u⟩ hok hr
    rw [removeTrace, exec_bind_ok _ (exec_attempt _ _ _), hok]
    dsimp only
    rw [if_pos rfl, exec_bind_ok _ (exec_attempt _ _ _), hr]
    cases r <;> rfl
  refine ⟨fun hno => ?_, fun hyes hf => ?_, fun hyes hf => ?_⟩
  · obtain ⟨e, u, he, rfl⟩ := hhash.2 hno
    rw [removeTrace, exec_bind_ok _ (exec_attempt _ _ _), he]
    rfl
  · rw [hremove _ (hhash.1 hyes) (FsProg.exec_remove ..), Env.change_fault hf]
  · have hout := (List.dropLast_append_getLast hne).symm
    obtain ⟨t, ht, hnode⟩ := remove_ok (hout ▸ h : fs.node (path.dropLast ++ [path.getLast hne]) = _)
      (by simp)
    rw [← hout] at ht hnode
    refine ⟨t, ?_, hnode⟩
    rw [hremove _ (hhash.1 hyes) (FsProg.exec_remove ..), Env.change_ok hf ht]

-- The faults that leave the pair as it should be. Once the trace is in its place, nothing that is
-- left of its commit may fail; and either the sidecar's commit succeeds, or the trace can be read
-- again and, where the sidecar is in its place, cannot be removed.
def Contained (env : PromoteEnv) : Prop :=
  Writes env.own → Commits env.trace →
    env.trace.fault .canonicalizeInstalled = false ∧
      ((Commits env.sidecar ∧ env.sidecar.fault .canonicalizeInstalled = false) ∨
        (Hashes env.own ∧ (Commits env.sidecar → env.own.fault .removeTrace = true)))

theorem afterSidecar_error {artifact : OutputArtifact} {e : AtomicOutputError}
    {left : Option (Path String)} (h : exec env.own.serve (removeTrace sha256 artifact) s = (.ok left, t)) :
    afterSidecar sha256 env artifact (.error e, s) =
      (.error (left.elim (.atomic e) .rollback), t) := by
  rw [afterSidecar, h]
  cases left <;> rfl

theorem paired_afterSidecar_error {e : AtomicOutputError} {path : Path String}
    (hpath : reserved.trace.output = path) (hroot : path ≠ [])
    (htrace : s.node path = some (.file trace)) (hne : reserved.sidecar.output ≠ path)
    {sidecar : Option Bytes} :
    Paired reserved trace sidecar
      (afterSidecar sha256 env ⟨some path, trace.length, sha256 trace⟩ (.error e, s)) ↔
        Hashes env.own ∧
          (s.node reserved.sidecar.output ≠ none → env.own.fault .removeTrace = true) := by
  subst hpath
  obtain ⟨hunread, hkept, hgone⟩ := removeTrace_ends env.own htrace hroot
  by_cases hhashes : Hashes env.own
  · rw [and_iff_right hhashes]
    cases hf : env.own.fault .removeTrace with
    | true =>
      rw [afterSidecar_error (hkept hhashes hf)]
      exact iff_of_true (fun h => by cases h) fun _ => rfl
    | false =>
      obtain ⟨t, ht, hnode⟩ := hgone hhashes hf
      rw [afterSidecar_error ht]
      constructor
      · intro h hpresent
        have hnone := (h rfl).2
        rw [hnode, Function.update_of_ne hne] at hnone
        exact absurd hnone hpresent
      · intro h _
        refine ⟨by rw [hnode, Function.update_self], ?_⟩
        rw [hnode, Function.update_of_ne hne]
        by_contra hpresent
        cases h hpresent
  · rw [afterSidecar_error (hunread hhashes)]
    refine iff_of_false (fun h => ?_) fun h => hhashes h.1
    have hnone := (h rfl).1
    rw [htrace] at hnone
    cases hnone

theorem dropSidecar_other {q : Path String} (h : q ≠ reserved.sidecar.temporary.path) :
    (dropSidecar env reserved s).node q = s.node q := removed_other _ _ h

theorem paired_of_free {e : TraceSetError} {sidecar : Option Bytes}
    (htrace : s.node reserved.trace.output = none) (hsidecar : s.node reserved.sidecar.output = none) :
    Paired reserved trace sidecar (.error e, s) := fun _ => ⟨htrace, hsidecar⟩

theorem dropped_other {env : Env AtomicSite} {p q : Path String} (h : q ≠ p) :
    (dropped env s p).node q = s.node q := by
  rw [node_dropped]
  split
  · rfl
  · rw [Function.update_of_ne h]

theorem Ready.written (h : Ready reserved fs trace)
    (hs : s.node = Function.update fs.node reserved.sidecar.temporary.path (some (.file bytes))) :
    s.node reserved.trace.temporary.path = some (.file trace) ∧
      s.node reserved.trace.output = none := by
  rw [hs, Function.update_of_ne h.apart, h.trace,
    Function.update_of_ne (ne_of_node h.sidecar h.traceFree).symm, h.traceFree]
  exact ⟨rfl, rfl⟩

theorem temporary_ne (reserved : ReservedTraceSet) : reserved.sidecar.temporary.path ≠ [] := by
  obtain ⟨random, hrandom⟩ := reserved.sidecar.temporary.private_
  rw [hrandom, privatePath]
  simp

-- A trace whose canonical path cannot be found stays in its place, and the error does not say so.
theorem promote_leaves_trace (h : Ready reserved fs trace) (hwrites : Writes env.own)
    (hcommit : Commits env.trace) (hcanonical : env.trace.fault .canonicalizeInstalled = true) :
    ¬ Paired reserved trace (some bytes) (promote sha256 env reserved (some bytes) fs) := by
  obtain ⟨s, hs, hwritten⟩ := writeSidecar_settles env.own bytes h.sidecar (temporary_ne reserved)
  obtain ⟨htrace, hfree⟩ := h.written hs
  obtain ⟨t, outcome, hexec, ht, -, herror⟩ := (commit_free sha256 htrace hfree h.rooted).2 hcommit
  obtain ⟨e, rfl⟩ := herror hcanonical
  rw [promote, hwritten.1 hwrites]
  dsimp only
  rw [hexec]
  dsimp only
  intro hpaired
  have hnone := (hpaired rfl).1
  rw [dropSidecar_other (ne_of_node h.sidecar h.traceFree).symm, ht, Function.update_self] at hnone
  cases hnone

variable (sha256 env) in
theorem promote_paired_iff (h : Ready reserved fs trace) (sidecar : Option Bytes) :
    Paired reserved trace sidecar (promote sha256 env reserved sidecar fs) ↔
      (sidecar ≠ none → Contained env) := by
  have htraceTrace := (ne_of_node h.trace h.traceFree).symm
  have htraceSidecar := (ne_of_node h.sidecar h.traceFree).symm
  have hsidecarTrace := (ne_of_node h.trace h.sidecarFree).symm
  have hsidecarSidecar := (ne_of_node h.sidecar h.sidecarFree).symm
  have houtputs : reserved.sidecar.output ≠ reserved.trace.output :=
    reserved.beside ▸ sidecarPath_ne _ h.rooted
  have hsidecarRoot : reserved.sidecar.output ≠ [] := by
    rw [reserved.beside, sidecarPath]
    simp
  have hboth : ∀ u : FileSystem String, (∀ q, q ≠ reserved.sidecar.temporary.path →
      u.node q = fs.node q) → ∀ e, Paired reserved trace sidecar (.error e, dropBoth env reserved u) := by
    intro u hu e
    refine paired_of_free ?_ ?_
    · rw [dropBoth, dropSidecar_other htraceSidecar, removed_other _ _ htraceTrace, hu _ htraceSidecar,
        h.traceFree]
    · rw [dropBoth, dropSidecar_other hsidecarSidecar, removed_other _ _ hsidecarTrace,
        hu _ hsidecarSidecar, h.sidecarFree]
  cases sidecar with
  | none => exact iff_of_true (hboth fs (fun _ _ => rfl) _) fun hne => absurd rfl hne
  | some bytes =>
    by_cases hleft : Writes env.own ∧ Commits env.trace ∧
        env.trace.fault .canonicalizeInstalled = true
    · refine iff_of_false (promote_leaves_trace h hleft.1 hleft.2.1 hleft.2.2) fun hcontained => ?_
      have hresolved := (hcontained (Option.some_ne_none _) hleft.1 hleft.2.1).1
      cases hresolved.symm.trans hleft.2.2
    rw [promote, Contained]
    simp only [ne_eq, reduceCtorEq, not_false_eq_true, forall_const]
    obtain ⟨s, hs, hwritten⟩ := writeSidecar_settles env.own bytes h.sidecar (temporary_ne reserved)
    by_cases hwrites : Writes env.own
    · rw [hwritten.1 hwrites, forall_prop_of_true hwrites]
      dsimp only
      obtain ⟨hstrace, hsfree⟩ := h.written hs
      obtain ⟨hfails, hcommits⟩ := commit_free sha256 hstrace hsfree h.rooted
      by_cases hcommit : Commits env.trace
      · obtain ⟨t, outcome, hexec, ht, hok, -⟩ := hcommits hcommit
        rw [forall_prop_of_true hcommit]
        have httrace : t.node reserved.trace.output = some (.file trace) := by
          rw [ht, Function.update_self]
        have htsidecar : t.node reserved.sidecar.temporary.path = some (.file (bytes ++ [10])) := by
          rw [ht, Function.update_of_ne htraceSidecar.symm, Function.update_of_ne h.apart.symm, hs,
            Function.update_self]
        have htfree : t.node reserved.sidecar.output = none := by
          rw [ht, Function.update_of_ne houtputs, Function.update_of_ne hsidecarTrace, hs,
            Function.update_of_ne hsidecarSidecar, h.sidecarFree]
        cases hcanonical : env.trace.fault .canonicalizeInstalled with
        | true => exact absurd ⟨hwrites, hcommit, hcanonical⟩ hleft
        | false =>
          rw [hok hcanonical] at hexec
          rw [hexec, and_iff_right rfl]
          dsimp only
          obtain ⟨hfails', hcommits'⟩ := commit_free sha256 htsidecar htfree
            hsidecarRoot
          by_cases hcommit' : Commits env.sidecar
          · obtain ⟨u, outcome', hexec', hu, hok', herror'⟩ := hcommits' hcommit'
            have hutrace : u.node reserved.trace.output = some (.file trace) := by
              rw [hu, Function.update_of_ne houtputs.symm, Function.update_of_ne htraceSidecar, httrace]
            have husidecar : u.node reserved.sidecar.output = some (.file (bytes ++ [10])) := by
              rw [hu, Function.update_self]
            cases hcanonical' : env.sidecar.fault .canonicalizeInstalled with
            | true =>
              obtain ⟨e, rfl⟩ := herror' hcanonical'
              rw [hexec', paired_afterSidecar_error rfl h.rooted hutrace houtputs]
              simp [husidecar, hcommit']
            | false =>
              rw [hexec', hok' hcanonical']
              exact iff_of_true ⟨hutrace, bytes, rfl, husidecar⟩ (Or.inl ⟨hcommit', rfl⟩)
          · obtain ⟨e, he⟩ := hfails' hcommit'
            rw [he, paired_afterSidecar_error rfl h.rooted
              ((dropped_other htraceSidecar).trans httrace) houtputs, dropped_other hsidecarSidecar]
            simp [htfree, hcommit']
      · obtain ⟨e, he⟩ := hfails hcommit
        rw [he]
        dsimp only
        refine iff_of_true (paired_of_free ?_ ?_) fun h' => absurd h' hcommit
        · rw [dropSidecar_other htraceSidecar, dropped_other htraceTrace, hsfree]
        · rw [dropSidecar_other hsidecarSidecar, dropped_other hsidecarTrace, hs,
            Function.update_of_ne hsidecarSidecar, h.sidecarFree]
    · obtain ⟨e, u, he, hu⟩ := hwritten.2 hwrites
      rw [he]
      dsimp only
      exact iff_of_true (hboth u hu _) fun h' => absurd h' hwrites

def captureTrace : ReservedExternalOutput := ⟨["a.tracy"], ⟨privatePath [] "external" [0], [0], rfl⟩⟩

def captureSidecar : ReservedExternalOutput :=
  ⟨["a.tracy.meridian.json"], ⟨privatePath [] "external" [1], [1], rfl⟩⟩

def captureSet : ReservedTraceSet := ⟨captureTrace, captureSidecar, by decide⟩

def captureTree : FileSystem String :=
  (FileSystem.empty.put (privatePath [] "external" [0]) (.file [7]) (by decide)).put
    (privatePath [] "external" [1]) (.file []) (by decide)

theorem captureTree_ready : Ready captureSet captureTree [7] :=
  ⟨by decide, by decide, by decide, by decide, by decide, by decide⟩

theorem sound_commits : Commits Env.sound := ⟨⟨rfl, rfl, rfl⟩, ⟨rfl, rfl, rfl⟩, rfl⟩

theorem capture_promoted : Paired captureSet [7] (some [1])
    (promote (fun _ => "") ⟨Env.sound, Env.sound, Env.sound⟩ captureSet (some [1]) captureTree) :=
  (promote_paired_iff (fun _ => "") ⟨Env.sound, Env.sound, Env.sound⟩ captureTree_ready (some [1])).mpr
    fun _ _ _ => ⟨rfl, Or.inl ⟨sound_commits, rfl⟩⟩

def unresolved : Env AtomicSite := ⟨fun site => site = .canonicalizeInstalled, fun _ => []⟩

theorem trace_left_behind : ¬ Paired captureSet [7] (some [1])
    (promote (fun _ => "") ⟨Env.sound, unresolved, Env.sound⟩ captureSet (some [1]) captureTree) :=
  promote_leaves_trace captureTree_ready ⟨rfl, rfl, rfl, rfl, rfl⟩
    ⟨⟨by decide, by decide, by decide⟩, ⟨by decide, by decide, by decide⟩, by decide⟩ (by decide)

end TracyArtifact
