import MeridianMcp.Containment.Policy
import MeridianMcp.Containment.Entries

namespace Containment

open Effects AtomicOutput Fallible

section runs

variable {sha256 : Bytes → String} {dir output : Path String} {env : Env AtomicSite}
  {fs : FileSystem String} {writer : Writer} {purpose : String}

def Untouching {α ε : Type} (env : Env AtomicSite) (x : FsProg AtomicSite String ε α)
    (fs : FileSystem String) : Prop :=
  ∀ event ∈ Fallible.events env.serve x fs, touched event = []

theorem untouching_existsNotFile (p : Path String) : Untouching env (existsNotFile p) fs := by
  intro event hevent
  have hentries := (ensures_existsNotFile (fun _ h => h) p).events event hevent
  simp [touched, hentries]

-- Every name that may be drawn for the temporary is taken already.
theorem untouching_createPrivateFile (hlen : ∀ site, (env.entropy site).length = 16)
    (htaken : ∀ random, random.length = 16 → fs.node (privatePath dir purpose random) ≠ none) (k : Nat) :
    (∃ e, exec env.serve (createPrivateFile dir purpose k) fs = (.error e, fs)) ∧
      Untouching env (createPrivateFile dir purpose k) fs := by
  induction k with
  | zero => exact ⟨⟨_, rfl⟩, fun event hevent => by cases hevent⟩
  | succ k ih =>
    have hrandom : exec env.serve ((FsProg.random (.temporaryRandom k)).adapt
        AtomicOutputError.entropy) fs = _ := exec_adapt ..
    rw [FsProg.exec_random] at hrandom
    have hdraws : Fallible.events env.serve ((FsProg.random (.temporaryRandom k)).adapt
        AtomicOutputError.entropy) fs = [⟨⟨.temporaryRandom k, .random⟩, _⟩] :=
      (events_adapt ..).trans (FsProg.events_act env _ fs)
    rw [createPrivateFile]
    cases hf : env.fault (.temporaryRandom k) with
    | true =>
      rw [Env.observe, if_pos hf] at hrandom
      refine ⟨⟨_, exec_bind_error _ hrandom⟩, fun event hevent => ?_⟩
      rw [events_bind_error hrandom, hdraws, List.mem_singleton] at hevent
      simp [touched, hevent, FsOp.entries]
    | false =>
      rw [Env.observe, hf] at hrandom
      have htaken' := htaken (env.entropy (.temporaryRandom k)) (hlen _)
      have hfails : ∃ e, exec env.serve (FsProg.createNew (.createTemporary k)
          (privatePath dir purpose (env.entropy (.temporaryRandom k)))) fs = (.error e, fs) := by
        rw [FsProg.exec_createNew]
        cases hg : env.fault (.createTemporary k) with
        | true => exact ⟨_, Env.change_fault hg⟩
        | false => exact ⟨_, Env.change_error hg (by rw [FileSystem.createNew, if_pos htaken'])⟩
      obtain ⟨e, hcreate⟩ := hfails
      have hattempt : exec env.serve (Fallible.attempt (FsProg.createNew (.createTemporary k) (privatePath
          dir purpose (env.entropy (.temporaryRandom k)))) : OutputProg (Except IoError Unit)) fs = _ :=
        exec_attempt ..
      have hserve : env.serve ⟨.createTemporary k, .createNew (privatePath dir purpose
          (env.entropy (.temporaryRandom k)))⟩ fs = (.error e, fs) := by
        rw [← FsProg.exec_act]
        exact hcreate
      rw [hcreate] at hattempt
      have hasks : Untouching env (Fallible.attempt (FsProg.createNew (.createTemporary k) (privatePath dir
          purpose (env.entropy (.temporaryRandom k)))) : OutputProg (Except IoError Unit)) fs := by
        intro event hevent
        rw [events_attempt, FsProg.createNew, FsProg.events_act, hserve, List.mem_singleton] at hevent
        rw [hevent]
        rfl
      constructor
      · rw [exec_bind_ok _ hrandom, exec_bind_ok _ hattempt]
        cases e with
        | alreadyExists => exact ih.1
        | _ => exact ⟨_, rfl⟩
      · intro event hevent
        rw [events_bind_ok hrandom, hdraws, events_bind_ok hattempt] at hevent
        rcases List.mem_append.mp hevent with hevent | hevent
        · rw [List.mem_singleton] at hevent
          simp [touched, hevent, FsOp.entries]
        · rcases List.mem_append.mp hevent with hevent | hevent
          · exact hasks event hevent
          · cases e with
            | alreadyExists => exact ih.2 event hevent
            | _ => cases hevent

theorem createPrivateFile_touches {random : Bytes} (hdir : fs.node dir = some .dir)
    (hfree : fs.node (privatePath dir purpose random) = none) (k : Nat) :
    ∃ event ∈ Fallible.events (Env.serve ⟨fun _ => false, fun _ => random⟩)
      (createPrivateFile dir purpose (k + 1)) fs, privatePath dir purpose random ∈ touched event := by
  let env : Env AtomicSite := ⟨fun _ => false, fun _ => random⟩
  have hrandom : exec env.serve ((FsProg.random (.temporaryRandom k)).adapt
      AtomicOutputError.entropy) fs = (.ok random, fs) := by
    rw [exec_adapt, FsProg.exec_random]
    rfl
  obtain ⟨t, ht, -⟩ : ∃ t, fs.createNew (privatePath dir purpose random) = .ok t ∧ _ :=
    FileSystem.createNew_ok hdir hfree
  have hcreate : exec env.serve (FsProg.createNew (.createTemporary k)
      (privatePath dir purpose random)) fs = (.ok (), t) := by
    rw [FsProg.exec_createNew, Env.change_ok rfl ht]
  have hserve : env.serve ⟨.createTemporary k, .createNew (privatePath dir purpose random)⟩ fs =
      (.ok (), t) := by
    rw [← FsProg.exec_act]
    exact hcreate
  have hattempt : exec env.serve (Fallible.attempt (FsProg.createNew (.createTemporary k)
      (privatePath dir purpose random)) : OutputProg (Except IoError Unit)) fs = _ := exec_attempt ..
  rw [hcreate] at hattempt
  refine ⟨⟨⟨.createTemporary k, .createNew (privatePath dir purpose random)⟩, .ok ()⟩, ?_, ?_⟩
  · rw [createPrivateFile, events_bind_ok hrandom, events_bind_ok hattempt, events_attempt,
      FsProg.createNew, FsProg.events_act, hserve]
    simp
  · simp [touched, Except.isOk, Except.toBool, FsOp.entries]

theorem writeTo_touches {random : Bytes} (hroot : output ≠ []) (hdir : fs.node output.dropLast = some .dir)
    (hfile : ∃ bytes, fs.node output = some (.file bytes))
    (hfree : fs.node (privatePath output.dropLast "tmp" random) = none) :
    ∃ event ∈ Fallible.events (Env.serve ⟨fun _ => false, fun _ => random⟩)
      (writeTo sha256 output writer) fs, privatePath output.dropLast "tmp" random ∈ touched event := by
  let env : Env AtomicSite := ⟨fun _ => false, fun _ => random⟩
  have hkind : exec env.serve (existsNotFile output) fs = (.ok false, fs) :=
    (exec_existsNotFile (.inr hfile)).trans (by simp [env])
  obtain ⟨event, hevent, htouched⟩ := createPrivateFile_touches hdir hfree 31
  refine ⟨event, ?_, htouched⟩
  rw [writeTo, events_bind_ok hkind]
  refine List.mem_append_right _ ?_
  simp only [Bool.false_eq_true, if_false, if_neg hroot]
  unfold Fallible.events at hevent ⊢
  rw [ExceptT.run_bind, Prog.events_bind]
  exact List.mem_append_left _ hevent

theorem untouching_dir (hdir : fs.node output = some .dir) (hsound : env.fault .outputExists = false) :
    Untouching env (writeTo sha256 output writer) fs := by
  have hkind : exec env.serve (existsNotFile output) fs = (.ok true, fs) := by
    have hseen : fs.present output = true := FileSystem.present_iff.mpr (by simp [hdir])
    rw [existsNotFile, exec_bind_ok _ (FsProg.exec_pathExists .outputExists env fs output), hsound, hseen,
      Bool.not_false, Bool.and_true, if_pos rfl, exec_bind_ok _ (exec_isFile .outputIsFile output)]
    have hstat : env.observe .outputIsFile (fs.stat output) ≠ .ok .file := by
      unfold Env.observe
      split <;> simp [FileSystem.stat, hdir]
    simp [hstat]
  intro event hevent
  rw [writeTo, events_bind_ok hkind] at hevent
  rcases List.mem_append.mp hevent with hevent | hevent
  · exact untouching_existsNotFile output event hevent
  · cases hevent

theorem untouching_full (hlen : ∀ site, (env.entropy site).length = 16)
    (hfile : ∃ bytes, fs.node output = some (.file bytes))
    (htaken : ∀ random, random.length = 16 →
      fs.node (privatePath output.dropLast "tmp" random) ≠ none) :
    Untouching env (writeTo sha256 output writer) fs := by
  obtain ⟨⟨e, hcreate⟩, hquiet⟩ := untouching_createPrivateFile hlen htaken randomNameAttempts
  intro event hevent
  rw [writeTo, events_bind_ok (exec_existsNotFile (.inr hfile))] at hevent
  rcases List.mem_append.mp hevent with hevent | hevent
  · exact untouching_existsNotFile output event hevent
  · split at hevent
    · cases hevent
    · split at hevent
      · cases hevent
      · rw [events_bind_error hcreate] at hevent
        exact hquiet event hevent

end runs

variable (startup tree : LinkedTree String) (cwd : Path String) (policy : PathPolicy)
  (request : Route String) (overwrite : Bool)

-- What is held against the roots: the path itself, or the parent of an output that is missing.
def settled (p : Path String) : Path String := if tree.resolves cwd request then p else p.dropLast

def writeEvents (sha256 : Bytes → String) (writer : Writer) (env : Env AtomicSite) :
    List (Sigma fun c : Call AtomicSite String => Answer c) :=
  match policy.outputPath tree cwd request overwrite with
  | .error _ => []
  | .ok output => Fallible.events env.serve (writeTo sha256 output writer) tree.view

def Contained : Prop :=
  ∀ p, policy.readPath tree cwd request = .ok p ∨
      policy.outputPath tree cwd request overwrite = .ok p →
    ∃ root ∈ policy.roots, startup.Canonical root ∧
      (tree.Canonical (settled tree cwd request p) ∧ root <+: settled tree cwd request p) ∧
      ∀ sha256 writer env, (∀ site, (env.entropy site).length = 16) → env.fault .outputExists = false →
        ∀ event ∈ writeEvents tree cwd policy request overwrite sha256 writer env,
          ∀ entry ∈ touched event, ∃ dir name, entry = dir ++ [name] ∧ tree.Canonical dir ∧ root <+: dir

-- The request comes down to a root that lies in no other root, and is no directory.
def LandsOnRoot : Prop :=
  ∃ p, LandsOn tree cwd request p ∧ p ∈ policy.roots ∧ (∀ root ∈ policy.roots, ¬ root <+: p.dropLast) ∧
    (tree.resolves cwd request = true → overwrite = true ∧ (∃ bytes, tree.node p = some (.file bytes)) ∧
      ∃ random, random.length = 16 ∧ tree.node (privatePath p.dropLast "tmp" random) = none)

variable {startup tree cwd policy request overwrite} {p q : Path String}

theorem LandsOn.unique (hp : LandsOn tree cwd request p) (hq : LandsOn tree cwd request q) : p = q := by
  unfold LandsOn at hp hq
  split at hp
  · rename_i h
    rw [if_pos h, hp] at hq
    exact Except.ok.inj hq
  · rename_i h
    rw [if_neg h] at hq
    obtain ⟨parent, dir, name, hparent, hdir, hname, rfl⟩ := hp
    obtain ⟨parent', dir', name', hparent', hdir', hname', rfl⟩ := hq
    rw [hparent] at hparent'
    cases hparent'
    rw [hdir] at hdir'
    cases hdir'
    rw [hname] at hname'
    cases hname'
    rfl

theorem landsOn_of_ok (h : policy.readPath tree cwd request = .ok p ∨
    policy.outputPath tree cwd request overwrite = .ok p) :
    LandsOn tree cwd request p ∧ ∃ root ∈ policy.roots, root <+: p := by
  rcases h with h | h
  · obtain ⟨hresolve, hroot⟩ := readPath_ok.mp h
    refine ⟨?_, hroot⟩
    rw [LandsOn, if_pos (resolves_iff.mpr ⟨p, hresolve⟩)]
    exact hresolve
  · obtain ⟨hland, hroot, -⟩ := outputPath_ok.mp h
    exact ⟨hland, hroot⟩

theorem settled_canonical (h : LandsOn tree cwd request p) :
    tree.Canonical (settled tree cwd request p) := by
  unfold LandsOn at h
  unfold settled
  split
  · rename_i hresolves
    rw [if_pos hresolves] at h
    exact LinkedTree.resolve_canonical h
  · rename_i hmissing
    rw [if_neg hmissing] at h
    obtain ⟨parent, dir, name, -, hdir, -, rfl⟩ := h
    rw [List.dropLast_concat]
    exact LinkedTree.resolve_canonical hdir

theorem dropLast_canonical (h : LandsOn tree cwd request p) : tree.Canonical p.dropLast := by
  have hcanonical := settled_canonical h
  unfold settled at hcanonical
  split at hcanonical
  · exact LinkedTree.canonical_prefix hcanonical (List.dropLast_prefix p)
  · exact hcanonical

theorem entry_beside {sha256 : Bytes → String} {writer : Writer} {env : Env AtomicSite}
    (hland : LandsOn tree cwd request p) :
    ∀ event ∈ writeEvents tree cwd policy request overwrite sha256 writer env,
      ∀ entry ∈ touched event, ∃ name, entry = p.dropLast ++ [name] := by
  intro event hevent entry hentry
  unfold writeEvents at hevent
  split at hevent
  · cases hevent
  · rename_i output houtput
    obtain rfl := hland.unique (outputPath_ok.mp houtput).1
    unfold touched at hentry
    split at hentry
    · exact stays_writeTo.events event hevent entry hentry
    · cases hentry

theorem prefix_dropLast_or_eq {root : Path String} (h : root <+: p) : root <+: p.dropLast ∨ root = p := by
  by_cases hp : p = []
  · subst hp
    exact .inr (List.prefix_nil.mp h)
  · rw [← List.dropLast_append_getLast hp] at h
    rcases List.prefix_concat_iff.mp h with h | h
    · rw [List.dropLast_append_getLast hp] at h
      exact .inr h
    · exact .inl h

theorem contained_within (hstartup : ∀ root ∈ policy.roots, startup.Canonical root)
    (hsafe : ¬ LandsOnRoot tree cwd policy request overwrite) :
    Contained startup tree cwd policy request overwrite := by
  intro p hp
  obtain ⟨hland, root, hroot, hprefix⟩ := landsOn_of_ok hp
  have hcanonical := settled_canonical hland
  by_cases habove : ∃ root ∈ policy.roots, root <+: p.dropLast
  · obtain ⟨above, hmem, habove⟩ := habove
    refine ⟨above, hmem, hstartup above hmem, ⟨hcanonical, ?_⟩, ?_⟩
    · unfold settled
      split
      · exact habove.trans (List.dropLast_prefix p)
      · exact habove
    · intro sha256 writer env _ _ event hevent entry hentry
      obtain ⟨name, rfl⟩ := entry_beside hland event hevent entry hentry
      exact ⟨_, name, rfl, dropLast_canonical hland, habove⟩
  · have hnone : ∀ root ∈ policy.roots, ¬ root <+: p.dropLast := fun root hroot h => habove ⟨root, hroot, h⟩
    obtain rfl : root = p := (prefix_dropLast_or_eq hprefix).resolve_left (hnone root hroot)
    have hresolves : tree.resolves cwd request = true := by
      by_contra hmissing
      exact hsafe ⟨root, hland, hroot, hnone, fun h => absurd h hmissing⟩
    rw [settled, if_pos hresolves] at hcanonical
    refine ⟨root, hroot, hstartup root hroot, ?_, ?_⟩
    · rw [settled, if_pos hresolves]
      exact ⟨hcanonical, List.prefix_rfl⟩
    · intro sha256 writer env hlen hsound event hevent entry hentry
      unfold writeEvents at hevent
      split at hevent
      · cases hevent
      · rename_i output houtput
        obtain ⟨hland', -, hover⟩ := outputPath_ok.mp houtput
        obtain rfl := hland.unique hland'
        have huntouched : Untouching env (writeTo sha256 root writer) tree.view := by
          rcases LinkedTree.canonical_cases hcanonical with hdir | ⟨bytes, hfile⟩
          · exact untouching_dir (by simp [hdir, LinkedTree.look]) hsound
          · refine untouching_full hlen ⟨bytes, by simp [hfile, LinkedTree.look]⟩ fun random hrandom hfree => ?_
            refine hsafe ⟨root, hland, hroot, hnone, fun h => ⟨hover h, ⟨bytes, hfile⟩, random, hrandom, ?_⟩⟩
            simpa using hfree
        rw [huntouched event hevent] at hentry
        cases hentry

theorem lands_outside (hlands : LandsOnRoot tree cwd policy request overwrite) :
    ¬ Contained startup tree cwd policy request overwrite := by
  obtain ⟨p, hland, hroot, hnone, hcase⟩ := hlands
  intro hcontained
  by_cases hresolves : tree.resolves cwd request = true
  · obtain ⟨rfl, ⟨bytes, hfile⟩, random, hlen, hfree⟩ := hcase hresolves
    have hover : policy.outputPath tree cwd request true = .ok p :=
      outputPath_ok.mpr ⟨hland, ⟨p, hroot, List.prefix_rfl⟩, fun _ => rfl⟩
    obtain ⟨root, hmem, -, -, hwrites⟩ := hcontained p (.inr hover)
    have hne : p ≠ [] := by
      rintro rfl
      rw [show tree.node [] = _ from tree.root] at hfile
      cases hfile
    have hdir : tree.node p.dropLast = some .dir := by
      refine LinkedTree.prefix_dir (List.dropLast_prefix p) (fun heq => ?_) (by simp [hfile])
      rw [heq] at hnone
      exact hnone p hroot List.prefix_rfl
    obtain ⟨event, hevent, htouched⟩ : ∃ event ∈ Fallible.events
        (Env.serve ⟨fun _ => false, fun _ => random⟩) (writeTo (fun _ => "") p ⟨[], none⟩) tree.view,
        privatePath p.dropLast "tmp" random ∈ touched event :=
      writeTo_touches hne (by simp [hdir, LinkedTree.look]) ⟨bytes, by simp [hfile, LinkedTree.look]⟩
        (by simp [hfree])
    obtain ⟨dir, name, heq, -, hprefix⟩ := hwrites (fun _ => "") ⟨[], none⟩ ⟨fun _ => false, fun _ => random⟩
      (fun _ => hlen) rfl event (by rw [writeEvents, hover]; exact hevent) _ htouched
    obtain ⟨rfl, -⟩ := List.append_inj' heq rfl
    exact hnone root hmem hprefix
  · have hover : policy.outputPath tree cwd request overwrite = .ok p :=
      outputPath_ok.mpr ⟨hland, ⟨p, hroot, List.prefix_rfl⟩, fun h => absurd h hresolves⟩
    obtain ⟨root, hmem, -, ⟨-, hprefix⟩, -⟩ := hcontained p (.inr hover)
    rw [settled, if_neg hresolves] at hprefix
    exact hnone root hmem hprefix

variable {roots executables : List (Route String)}

theorem contained_iff (h : PathPolicy.Configured startup cwd roots executables policy) :
    Contained startup tree cwd policy request overwrite ↔
      ¬ LandsOnRoot tree cwd policy request overwrite :=
  ⟨fun hcontained hlands => lands_outside hlands hcontained, contained_within (configured_canonical h)⟩

-- A game directory with a link inside it, and a file beside it.
def shared : LinkedTree String :=
  ((((LinkedTree.empty.place [] "srv" .dir rfl rfl).place ["srv"] "notes" (.file [1]) rfl rfl).place
    ["srv"] "game" .dir rfl rfl).place ["srv", "game"] "maps" .dir rfl rfl).place
    ["srv", "game"] "out" (.symlink ⟨false, [.here, .name "maps"]⟩) rfl rfl

theorem linked_output_contained :
    PathPolicy.new shared ["srv"] [⟨false, [.name "game"]⟩] [] = .ok ⟨[["srv", "game"]], []⟩ ∧
      Contained shared shared ["srv"] ⟨[["srv", "game"]], []⟩
        ⟨false, [.name "game", .up, .name "game", .name "out", .name "new.dmm"]⟩ true := by
  have hnew : PathPolicy.new shared ["srv"] [⟨false, [.name "game"]⟩] [] =
      .ok ⟨[["srv", "game"]], []⟩ := rfl
  refine ⟨hnew, (contained_iff (.new hnew)).mpr ?_⟩
  rintro ⟨p, hland, hroot, -⟩
  have hplace : LandsOn shared ["srv"] ⟨false, [.name "game", .up, .name "game", .name "out",
      .name "new.dmm"]⟩ ["srv", "game", "maps", "new.dmm"] :=
    ⟨⟨false, [.name "game", .up, .name "game", .name "out"]⟩, ["srv", "game", "maps"], "new.dmm",
      rfl, rfl, rfl, rfl⟩
  rw [hland.unique hplace] at hroot
  simp at hroot

-- Nothing asks that a configured root be a directory.
theorem file_root_escaped :
    PathPolicy.new shared [] [.ofPath ["srv", "notes"]] [] = .ok ⟨[["srv", "notes"]], []⟩ ∧
      ¬ Contained shared shared [] ⟨[["srv", "notes"]], []⟩ (.ofPath ["srv", "notes"]) true := by
  refine ⟨rfl, lands_outside ⟨["srv", "notes"], rfl, by simp, by decide, fun _ => ⟨rfl, ⟨[1], rfl⟩, ?_⟩⟩⟩
  exact ⟨List.replicate 16 0, rfl, rfl⟩

end Containment
