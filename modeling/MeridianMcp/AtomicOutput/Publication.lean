import MeridianMcp.AtomicOutput.Install

namespace AtomicOutput

open Effects Fallible FileSystem MeridianMcp

inductive Publication where
  | write (policy : PathPolicy) (input : Path String) (overwrite : Bool) (writer : Writer)
  | commit (reserved : ReservedExternalOutput)

namespace Publication

def run (sha256 : Bytes → String) : Publication → OutputProg OutputArtifact
  | .write policy input overwrite writer => writeAtomic sha256 policy input overwrite writer
  | .commit reserved => reserved.commit sha256

def destination : Publication → Path String
  | .write _ input _ _ => input
  | .commit reserved => reserved.output

def payload (fs : FileSystem String) : Publication → Option Bytes
  | .write _ _ _ writer => some writer.payload
  | .commit reserved =>
    match fs.node reserved.temporary.path with
    | some (.file bytes) => some bytes
    | _ => none

-- The tree the publication starts from, without the temporary it was given.
def cleared (fs : FileSystem String) : Publication → Path String → Option Node
  | .write _ _ _ _ => fs.node
  | .commit reserved => Function.update fs.node reserved.temporary.path none

def MayUse (env : Env AtomicSite) (tmp : Path String) : Publication → Prop
  | .write _ input _ _ =>
    ∃ k, tmp = privatePath input.dropLast "tmp" (env.entropy (.temporaryRandom k))
  | .commit reserved => tmp = reserved.temporary.path

def RemovalFails (env : Env AtomicSite) (fs : FileSystem String) : Publication → Prop
  | .write _ _ _ _ => env.fault .dropTemporary = true
  | .commit reserved =>
    env.fault .dropTemporary = true ∨ fs.node reserved.temporary.path = some .dir

def Writes (env : Env AtomicSite) (writer : Writer) : Prop :=
  (∀ i < writer.chunks.length, env.fault (.write i) = false) ∧ writer.failure = none ∧
    env.fault .flush = false ∧ env.fault .syncTemporary = false

def Reaches (env : Env AtomicSite) (fs : FileSystem String) : Publication → Prop
  | .write policy input overwrite writer =>
    Accepted policy env fs input overwrite ∧
      drawnTemporary env fs input.dropLast "tmp" randomNameAttempts ≠ none ∧ Writes env writer
  | .commit reserved =>
    reserved.output ≠ [] ∧ (∃ bytes, fs.node reserved.temporary.path = some (.file bytes)) ∧
      env.fault .commitInspect = false ∧ env.fault .commitOpen = false ∧ env.fault .commitSync = false

structure Placed (env : Env AtomicSite) (fs : FileSystem String) (pub : Publication) : Prop where
  destination : fs.node pub.destination = none ∨ ∃ b, fs.node pub.destination = some (.file b)
  temporary : ∀ tmp, pub.MayUse env tmp → tmp ≠ pub.destination
  backups : ∀ k,
    fs.node (privatePath pub.destination.dropLast "backup" (env.entropy (.backupRandom k))) = none ∨
      env.fault (.backupExists k) = false ∧ fs.present
        (privatePath pub.destination.dropLast "backup" (env.entropy (.backupRandom k))) = true

def Leaves (env : Env AtomicSite) (fs : FileSystem String) (pub : Publication) :
    Except AtomicOutputError OutputArtifact → FileSystem String → Prop
  | .ok _, t => ∃ payload, pub.payload fs = some payload ∧
      t.node = Function.update (pub.cleared fs) pub.destination (some (.file payload))
  | .error e, t => e.isReplacement = false →
      t.node pub.destination = fs.node pub.destination ∧
        (¬ pub.RemovalFails env fs → ∀ q, (∀ r, q ≠ privatePath pub.destination.dropLast "backup" r) →
          t.node q = pub.cleared fs q)

def Atomic (sha256 : Bytes → String) (env : Env AtomicSite) (fs : FileSystem String)
    (pub : Publication) : Prop :=
  pub.Leaves env fs (exec env.serve (pub.run sha256) fs).1 (exec env.serve (pub.run sha256) fs).2

def LeavesUnreported (env : Env AtomicSite) (fs : FileSystem String) (pub : Publication) : Prop :=
  pub.Reaches env fs ∧ Installs env fs pub.destination ∧ ¬ Completes env fs pub.destination ∧
    fs.node pub.destination ≠ (pub.payload fs).map .file

variable {env : Env AtomicSite} {fs s t : FileSystem String} {par : Path String} {n a : String}
  {payload : Bytes} {sha256 : Bytes → String}

def PartlyWritten (s : FileSystem String) (tmp : Path String) (u : FileSystem String) : Prop :=
  ∃ b, u.node = Function.update s.node tmp (some (.file b))

theorem PartlyWritten.trans (h : PartlyWritten s (par ++ [a]) t) {u : FileSystem String}
    (hu : PartlyWritten t (par ++ [a]) u) : PartlyWritten s (par ++ [a]) u := by
  obtain ⟨b, h⟩ := h
  obtain ⟨c, hu⟩ := hu
  exact ⟨c, by rw [hu, h, Function.update_idem]⟩

variable (env) in
theorem writeChunks_settles (hpar : s.node par = some .dir) {old : Bytes}
    (hs : s.node (par ++ [a]) = some (.file old)) (chunks : List Bytes) (k : Nat) :
    ∃ t, t.node = Function.update s.node (par ++ [a]) (some (.file (old ++ chunks.flatten))) ∧
      Settles env.serve (writeChunks (par ++ [a]) k chunks) s
        (∀ i < chunks.length, env.fault (.write (k + i)) = false) () t
        (PartlyWritten s (par ++ [a])) := by
  induction chunks generalizing s old k with
  | nil =>
    refine ⟨s, ?_, (Settles.pure ()).congr (by simp)⟩
    rw [List.flatten_nil, List.append_nil, ← hs, Function.update_eq_self]
  | cons bytes rest ih =>
    obtain ⟨t, ht, hnode⟩ := append_ok hpar hs bytes
    have hpar' : t.node par = some .dir := by rw [hnode, Function.update_of_ne (by simp), hpar]
    obtain ⟨u, hu, hrest⟩ := ih hpar' (by rw [hnode, Function.update_self]) (k + 1)
    have hK : PartlyWritten s (par ++ [a]) s := ⟨old, by rw [← hs, Function.update_eq_self]⟩
    have happend := (FsProg.settles_change (K := PartlyWritten s (par ++ [a]))
      (FsProg.exec_append (AtomicSite.write k) env s _ bytes) ht hK).adapt AtomicOutputError.io
    refine ⟨u, ?_, ?_⟩
    · rw [hu, hnode, Function.update_idem, List.append_assoc, List.flatten_cons]
    · refine Settles.congr (happend.bind fun _ => hrest.mono fun _ v hv =>
        PartlyWritten.trans ⟨_, hnode⟩ hv) ?_
      rw [List.length_cons, Nat.forall_lt_succ_left]
      simp only [Nat.add_zero, Nat.add_assoc, Nat.add_comm 1]

variable (env) in
theorem write_settles (hpar : s.node par = some .dir) (hs : s.node (par ++ [a]) = some (.file []))
    (writer : Writer) :
    ∃ t, t.node = Function.update s.node (par ++ [a]) (some (.file writer.payload)) ∧
      Settles env.serve (do
          writer.write (par ++ [a])
          io (FsProg.sync .flush (par ++ [a]))
          io (FsProg.sync .syncTemporary (par ++ [a]))) s (Writes env writer) () t
        (PartlyWritten s (par ++ [a])) := by
  obtain ⟨t, ht, hchunks⟩ := writeChunks_settles env hpar hs writer.chunks 0
  have htmp : t.node (par ++ [a]) = some (.file writer.payload) := by
    rw [ht, Function.update_self, List.nil_append, Writer.payload]
  have hK : PartlyWritten s (par ++ [a]) t := ⟨_, ht⟩
  have hwrite : Settles env.serve (writer.write (par ++ [a])) s
      ((∀ i < writer.chunks.length, env.fault (.write (0 + i)) = false) ∧ writer.failure = none) () t
      (PartlyWritten s (par ++ [a])) := by
    refine hchunks.bind fun _ => ?_
    cases writer.failure with
    | none => exact (Settles.pure ()).congr (by simp)
    | some message => exact (Settles.throw hK).congr (by simp)
  have hsync : ∀ site : AtomicSite, Settles env.serve (io (FsProg.sync site (par ++ [a]))) t
      (env.fault site = false) () t (PartlyWritten s (par ++ [a])) := fun site =>
    (FsProg.settles_observe (FsProg.exec_sync site env t (par ++ [a])) (openFile_file htmp) hK).adapt _
  refine ⟨t, by rw [ht, List.nil_append, Writer.payload], ?_⟩
  refine Settles.congr (hwrite.bind fun _ => (hsync .flush).bind fun _ =>
    hsync .syncTemporary) ?_
  simp only [Writes, Nat.zero_add, and_assoc]

theorem privateName_ne_backup {purpose : String} (h : purpose ∈ ["tmp", "external"]) (r r' : Bytes) :
    privateName purpose r ≠ privateName "backup" r' := by
  rw [List.mem_cons, List.mem_singleton] at h
  rcases h with rfl | rfl
  · exact append_ne_of_ends (n := 1) (by decide) (by decide) (by decide)
  · exact append_ne_of_ends (n := 1) (by decide) (by decide) (by decide)

variable (env) in
theorem installs_congr {p : Path String} (hp : s.node p = t.node p)
    (hb : ∀ r, s.node (privatePath p.dropLast "backup" r) = t.node (privatePath p.dropLast "backup" r)) :
    (Installs env s p ↔ Installs env t p) ∧ (Completes env s p ↔ Completes env t p) := by
  simp only [Installs, Prepares, Completes, BacksUp, MovesAside, present_congr hp,
    availableBackup_congr hb, and_self]

structure Staging (env : Env AtomicSite) (fs s : FileSystem String) (pub : Publication)
    (par : Path String) (n a : String) (payload : Bytes) : Prop where
  path : pub.destination = par ++ [n]
  staged : Staged env s par n a payload
  payload_eq : pub.payload fs = some payload
  cleared : Function.update s.node (par ++ [a]) none = pub.cleared fs
  slot : s.node (par ++ [n]) = fs.node (par ++ [n])
  backups : ∀ r, s.node (privatePath par "backup" r) = fs.node (privatePath par "backup" r)
  removal : ¬ pub.RemovalFails env fs → env.fault .dropTemporary = false

theorem leaves_of_staging {pub : Publication} {r : Except AtomicOutputError OutputArtifact}
    (h : Staging env fs s pub par n a payload) (hr : Outcome env s par n a payload r t) :
    pub.Leaves env fs r t ↔ ¬ (Installs env fs pub.destination ∧ ¬ Completes env fs pub.destination ∧
      fs.node pub.destination ≠ (pub.payload fs).map .file) := by
  have hb : ∀ x, s.node (privatePath (par ++ [n]).dropLast "backup" x) =
      fs.node (privatePath (par ++ [n]).dropLast "backup" x) := by
    rw [List.dropLast_concat]
    exact h.backups
  obtain ⟨hinstalls, hcompletes⟩ := installs_congr env h.slot hb
  have hdest : pub.cleared fs (par ++ [n]) = fs.node (par ++ [n]) := by
    rw [← h.cleared, Function.update_of_ne (by simpa using h.staged.apart.symm), h.slot]
  simp only [Leaves, h.path, h.payload_eq, Option.map_some, ← hinstalls, ← hcompletes,
    List.dropLast_concat]
  cases hr with
  | refused hi =>
    refine iff_of_true (fun _ => ⟨?_, fun hfail q _ => ?_⟩) (fun h' => hi h'.1)
    · rw [node_dropped]
      split
      · exact h.slot
      · rw [h.cleared, hdest]
    · rw [node_dropped, if_neg (by simp [h.removal hfail, h.staged.temporary]), h.cleared]
  | stuck hs =>
    refine iff_of_true (fun h' => by cases h') (fun h' => ?_)
    obtain ⟨-, -, hfault, -⟩ := hs
    rw [h'.1.2] at hfault
    cases hfault
  | done hi hc ht =>
    refine iff_of_true ⟨payload, rfl, by rw [ht, h.cleared]⟩ (fun h' => h'.2.1 hc)
  | unfinished hi hc he hnode hother =>
    constructor
    · rintro hleaves ⟨-, -, hne⟩
      have heq := (hleaves he).1
      rw [hnode] at heq
      exact hne heq.symm
    · intro hne _
      have hsame : fs.node (par ++ [n]) = some (.file payload) := by
        by_contra h'
        exact hne ⟨hi, hc, h'⟩
      refine ⟨hnode.trans hsame.symm, fun _ q hq => ?_⟩
      by_cases hqn : q = par ++ [n]
      · rw [hqn, hnode, hdest, hsame]
      · rw [hother q hqn hq, h.cleared]

theorem leaves_of_dropped {pub : Publication} {tmp : Path String} {e : AtomicOutputError}
    (htmp : tmp ≠ pub.destination) (hu : ∀ q, q ≠ tmp → s.node q = fs.node q)
    (hcleared : pub.cleared fs = Function.update s.node tmp none)
    (hremoval : ¬ pub.RemovalFails env fs → env.fault .dropTemporary = false ∧ s.node tmp ≠ some .dir) :
    pub.Leaves env fs (.error e) (dropped env s tmp) := by
  refine fun _ => ⟨?_, fun hfail q _ => ?_⟩
  · rw [node_dropped]
    split
    · exact hu _ htmp.symm
    · rw [Function.update_of_ne htmp.symm, hu _ htmp.symm]
  · rw [node_dropped, if_neg (by simp [hremoval hfail]), hcleared]

section commit

variable {reserved : ReservedExternalOutput}

variable (env reserved) in
theorem commit_guard_settles (K : FileSystem String → Prop) (hK : K fs) :
    Settles env.serve (do
        let metadata ← io (FsProg.lstat .commitInspect reserved.temporary.path)
        if metadata.kind ≠ .file then throw (.invalidOutputType reserved.temporary.path)
        else
          io (FsProg.openFile .commitOpen reserved.temporary.path)
          io (FsProg.sync .commitSync reserved.temporary.path) : OutputProg Unit) fs
      ((∃ bytes, fs.node reserved.temporary.path = some (.file bytes)) ∧
        env.fault .commitInspect = false ∧ env.fault .commitOpen = false ∧
          env.fault .commitSync = false) () fs K := by
  have hlstat := FsProg.exec_lstat .commitInspect env fs reserved.temporary.path
  cases hnode : fs.node reserved.temporary.path with
  | none =>
    have hr : fs.lstat reserved.temporary.path = .error .notFound := by simp [FileSystem.lstat, hnode]
    have hinspect := (FsProg.settles_observe_error (a := ⟨.file, 0⟩) (t := fs) hlstat hr hK).adapt
      AtomicOutputError.io
    exact (hinspect.bind_fails not_false).congr (by simp)
  | some v =>
    have hr : fs.lstat reserved.temporary.path = .ok v.metadata := by simp [FileSystem.lstat, hnode]
    have hinspect := (FsProg.settles_observe hlstat hr hK).adapt AtomicOutputError.io
    cases v with
    | file bytes =>
      have hopen := (FsProg.settles_observe (FsProg.exec_openFile AtomicSite.commitOpen env fs _)
        (openFile_file hnode) hK).adapt AtomicOutputError.io
      have hsync := (FsProg.settles_observe (FsProg.exec_sync AtomicSite.commitSync env fs _)
        (openFile_file hnode) hK).adapt AtomicOutputError.io
      exact (hinspect.bind fun _ => hopen.bind fun _ => hsync).congr (by simp)
    | dir => exact (hinspect.bind (Q := False) fun _ => Settles.throw hK).congr (by simp)
    | symlink target => exact (hinspect.bind (Q := False) fun _ => Settles.throw hK).congr (by simp)

theorem commit_leaves (h : Placed env fs (.commit reserved)) :
    Atomic sha256 env fs (.commit reserved) ↔ ¬ LeavesUnreported env fs (.commit reserved) := by
  have hne : reserved.temporary.path ≠ reserved.output := h.temporary _ rfl
  have hguard := commit_guard_settles env reserved (fun u => u = fs) rfl
  have hfails : ∀ e, exec env.serve (reserved.commit sha256) fs =
      (.error e, dropped env fs reserved.temporary.path) →
      ¬ Reaches env fs (.commit reserved) →
        (Atomic sha256 env fs (.commit reserved) ↔ ¬ LeavesUnreported env fs (.commit reserved)) := by
    intro e hexec hreach
    refine iff_of_true ?_ (fun hl => hreach hl.1)
    rw [Atomic, run, hexec]
    exact leaves_of_dropped hne (fun _ _ => rfl) rfl fun hfail => by
      simpa [RemovalFails, not_or] using hfail
  by_cases hstaged : (∃ bytes, fs.node reserved.temporary.path = some (.file bytes)) ∧
      env.fault .commitInspect = false ∧ env.fault .commitOpen = false ∧ env.fault .commitSync = false
  · have hexec : exec env.serve (reserved.commit sha256) fs = _ :=
      exec_bind_ok _ (exec_armed_ok (hguard.1 hstaged))
    by_cases hroot : reserved.output = []
    · refine hfails (.io .invalidInput) ?_ fun hr => hr.1 hroot
      have hmove : exec env.serve (moveIntoPlace sha256 reserved.output reserved.temporary.path) fs =
          (.error (.io .invalidInput), fs) := by
        rw [moveIntoPlace, prepareInstall, if_pos hroot]
        rfl
      rw [hexec, installTemporary, exec_bind_error _ (exec_armed_error hmove)]
    · obtain ⟨bytes, hbytes⟩ := hstaged.1
      obtain ⟨random, hrandom⟩ := reserved.temporary.private_
      have hout := (List.dropLast_append_getLast hroot).symm
      generalize reserved.output.getLast hroot = n at hout
      have hslot : privateName "external" random ≠ n := by
        rintro rfl
        exact hne (hrandom.trans hout.symm)
      have hstaging : Staging env fs fs (.commit reserved) reserved.output.dropLast n
          (privateName "external" random) bytes := by
        rw [hrandom, privatePath] at hbytes
        refine ⟨hout, ⟨?_, hbytes, ?_, hslot, fun k => ⟨?_, h.backups k⟩⟩, ?_, ?_, rfl, fun _ => rfl, ?_⟩
        · exact fs.rooted _ _ (by rw [show fs.nodes.get _ = _ from hbytes]; simp)
        · rw [← hout]
          exact h.destination
        · exact privateName_ne_backup (by simp) _ _
        · rw [payload, hrandom, privatePath, hbytes]
        · rw [cleared, hrandom, privatePath]
        · exact fun hfail => by simpa using (not_or.mp hfail).1
      have houtcome := installTemporary_outcome sha256 hstaging.staged
      rw [← hout] at houtcome
      rw [Atomic, run, hexec, hrandom, privatePath]
      rw [leaves_of_staging hstaging houtcome, LeavesUnreported, not_iff_not]
      exact (and_iff_right ⟨hroot, hstaged⟩).symm
  · obtain ⟨e, u, he, rfl⟩ := hguard.2 hstaged
    exact hfails e (exec_bind_error _ (exec_armed_error he)) fun hr => hstaged hr.2

end commit

section write

variable {policy : PathPolicy} {input : Path String} {overwrite : Bool} {writer : Writer}

theorem write_refused {e : AtomicOutputError} :
    fs.node input = fs.node input ∧ Leaves env fs (.write policy input overwrite writer) (.error e) fs :=
  ⟨rfl, fun _ => ⟨rfl, fun _ _ _ => rfl⟩⟩

variable (sha256) in
theorem write_unreached (h : Placed env fs (.write policy input overwrite writer))
    (hr : ¬ Reaches env fs (.write policy input overwrite writer)) :
    ∃ e t, exec env.serve (writeAtomic sha256 policy input overwrite writer) fs = (.error e, t) ∧
      t.node input = fs.node input ∧ Leaves env fs (.write policy input overwrite writer) (.error e) t := by
  have hdest : fs.node input = none ∨ ∃ b, fs.node input = some (.file b) := h.destination
  have hchecked : Settles env.serve (checked policy input overwrite) fs
      (Accepted policy env fs input overwrite) input fs (fun u => u = fs) := checked_settles hdest rfl
  obtain ⟨hdrawn, hundrawn⟩ := createPrivateFile_draws env fs input.dropLast "tmp" randomNameAttempts
  by_cases haccepted : Accepted policy env fs input overwrite
  · have haccept := hchecked.1 haccepted
    cases hname : drawnTemporary env fs input.dropLast "tmp" randomNameAttempts with
    | none =>
      obtain ⟨e, he⟩ := hundrawn hname
      refine ⟨e, fs, ?_, write_refused⟩
      rw [writeAtomic, exec_bind_ok _ haccept, exec_bind_error _ he]
    | some tmp =>
      obtain ⟨hpar, hfree, k, hk⟩ := drawnTemporary_some hname
      obtain ⟨s, hcreate, hnode⟩ := hdrawn tmp hname
      have hne : tmp.path ≠ input := h.temporary _ ⟨k, hk⟩
      have hwritten : ¬ Writes env writer := fun hw => hr ⟨haccepted, by simp [hname], hw⟩
      have hfile : s.node (input.dropLast ++
          [privateName "tmp" (env.entropy (.temporaryRandom k))]) = some (.file []) := by
        rw [← privatePath, ← hk, hnode, Function.update_self]
      have hdir : s.node input.dropLast = some .dir := by
        rw [hnode, hk, Function.update_of_ne (by simp [privatePath]), hpar]
      obtain ⟨t, -, hwrite⟩ := write_settles env hdir hfile writer
      obtain ⟨e, u, he, b, hu⟩ := hwrite.2 hwritten
      have hstart : exec env.serve (writeAtomic sha256 policy input overwrite writer) fs = _ :=
        (exec_bind_ok _ haccept).trans (exec_bind_ok _ hcreate)
      rw [hk, privatePath, exec_bind_error _ (exec_armed_error he), ← privatePath, ← hk] at hstart
      rw [← privatePath, ← hk] at hu
      have hother : ∀ q, q ≠ tmp.path → u.node q = fs.node q := by
        intro q hq
        rw [hu, Function.update_of_ne hq, hnode, Function.update_of_ne hq]
      refine ⟨e, _, hstart, ?_, leaves_of_dropped hne hother ?_ fun hfail => ?_⟩
      · rw [node_dropped]
        split
        · exact hother _ hne.symm
        · rw [Function.update_of_ne hne.symm, hother _ hne.symm]
      · rw [cleared, hu, hnode, Function.update_idem, Function.update_idem, ← hfree,
          Function.update_eq_self]
      · exact ⟨by simpa [RemovalFails] using hfail, by rw [hu, Function.update_self]; simp⟩
  · obtain ⟨e, u, he, rfl⟩ := hchecked.2 haccepted
    exact ⟨e, u, exec_bind_error _ he, write_refused⟩

variable (sha256) in
theorem write_reaches (h : Placed env fs (.write policy input overwrite writer))
    (hr : Reaches env fs (.write policy input overwrite writer)) :
    ∃ s n a, Staging env fs s (.write policy input overwrite writer) input.dropLast n a writer.payload ∧
      exec env.serve (writeAtomic sha256 policy input overwrite writer) fs =
        exec env.serve (installTemporary sha256 (input.dropLast ++ [n]) (input.dropLast ++ [a])) s := by
  have hdest : fs.node input = none ∨ ∃ b, fs.node input = some (.file b) := h.destination
  obtain ⟨haccepted, hdraws, hwritten⟩ := hr
  have haccept : exec env.serve (checked policy input overwrite) fs = (.ok input, fs) :=
    (checked_settles (K := fun u => u = fs) hdest rfl).1 haccepted
  obtain ⟨tmp, hname⟩ := Option.ne_none_iff_exists'.mp hdraws
  obtain ⟨hpar, hfree, k, hk⟩ := drawnTemporary_some hname
  obtain ⟨s, hcreate, hnode⟩ :=
    (createPrivateFile_draws env fs input.dropLast "tmp" randomNameAttempts).1 tmp hname
  have hne : tmp.path ≠ input := h.temporary _ ⟨k, hk⟩
  have hout := (List.dropLast_append_getLast haccepted.2.1).symm
  generalize input.getLast haccepted.2.1 = n at hout
  have hfile : s.node (input.dropLast ++
      [privateName "tmp" (env.entropy (.temporaryRandom k))]) = some (.file []) := by
    rw [← privatePath, ← hk, hnode, Function.update_self]
  have hdir : s.node input.dropLast = some .dir := by
    rw [hnode, hk, Function.update_of_ne (by simp [privatePath]), hpar]
  obtain ⟨t, ht, hwrite⟩ := write_settles env hdir hfile writer
  have hstart : exec env.serve (writeAtomic sha256 policy input overwrite writer) fs = _ :=
    (exec_bind_ok _ haccept).trans (exec_bind_ok _ hcreate)
  rw [hk, privatePath, exec_bind_ok _ (exec_armed_ok (hwrite.1 hwritten))] at hstart
  have hother : ∀ q, q ≠ tmp.path → t.node q = fs.node q := by
    intro q hq
    rw [ht, ← privatePath, ← hk, Function.update_of_ne hq, hnode, Function.update_of_ne hq]
  have hnamed : ∀ r, privatePath input.dropLast "backup" r ≠ tmp.path := by
    intro r heq
    rw [hk] at heq
    simp only [privatePath, List.append_cancel_left_eq, List.cons.injEq, and_true] at heq
    exact privateName_ne_backup (by simp) _ _ heq.symm
  have hbackups : ∀ r, t.node (privatePath input.dropLast "backup" r) =
      fs.node (privatePath input.dropLast "backup" r) := fun r => hother _ (hnamed r)
  have hslot : t.node input = fs.node input := hother _ hne.symm
  have hapart : privateName "tmp" (env.entropy (.temporaryRandom k)) ≠ n := by
    rintro rfl
    exact hne (hk.trans hout.symm)
  refine ⟨t, n, _, ⟨hout, ⟨?_, ?_, ?_, hapart, fun j => ⟨privateName_ne_backup (by simp) _ _, ?_⟩⟩, rfl,
    ?_, ?_, hbackups, ?_⟩, by rw [← hout]; exact hstart⟩
  · rw [hother _ (by rw [hk]; simp [privatePath]), hpar]
  · rw [ht, Function.update_self]
  · rw [← hout, hslot]
    exact hdest
  · rw [hbackups, present_congr (hbackups _)]
    exact h.backups j
  · rw [← privatePath, ← hk] at ht ⊢
    rw [cleared, ht, hnode, Function.update_idem, Function.update_idem, ← hfree,
      Function.update_eq_self]
  · rw [← hout, hslot]
  · exact fun hfail => by simpa [RemovalFails] using hfail

variable (sha256) in
theorem write_leaves (h : Placed env fs (.write policy input overwrite writer)) :
    Atomic sha256 env fs (.write policy input overwrite writer) ↔
      ¬ LeavesUnreported env fs (.write policy input overwrite writer) := by
  by_cases hr : Reaches env fs (.write policy input overwrite writer)
  · obtain ⟨s, n, a, hstaging, hexec⟩ := write_reaches sha256 h hr
    have houtcome := installTemporary_outcome sha256 hstaging.staged
    rw [Atomic, run, hexec, leaves_of_staging hstaging houtcome, LeavesUnreported, not_iff_not]
    exact (and_iff_right hr).symm
  · obtain ⟨e, t, hexec, -, hleaves⟩ := write_unreached sha256 h hr
    refine iff_of_true ?_ fun hl => hr hl.1
    rw [Atomic, run, hexec]
    exact hleaves

end write

theorem atomic_iff (sha256 : Bytes → String) (env : Env AtomicSite) (fs : FileSystem String)
    (pub : Publication) (h : Placed env fs pub) :
    Atomic sha256 env fs pub ↔ ¬ LeavesUnreported env fs pub := by
  cases pub with
  | write _ _ _ _ => exact write_leaves sha256 h
  | commit _ => exact commit_leaves h

def outputTree : FileSystem String :=
  FileSystem.empty.put ["result.txt"] (.file [1]) ⟨by decide, by decide, by decide⟩

def overwriting : Publication := .write ⟨[[]]⟩ ["result.txt"] true ⟨[[2], [3]], none⟩

theorem overwriting_placed (env : Env AtomicSite) (h : env.entropy = fun _ => []) :
    Placed env outputTree overwriting := by
  refine ⟨.inr ⟨[1], by decide⟩, ?_, fun k => .inl ?_⟩
  · rintro tmp ⟨k, rfl⟩
    rw [h]
    change privatePath [] "tmp" [] ≠ ["result.txt"]
    decide
  · rw [h]
    change outputTree.node (privatePath [] "backup" []) = none
    decide

theorem not_leavesUnreported {pub : Publication} (h : Completes env fs pub.destination) :
    ¬ LeavesUnreported env fs pub := fun hl => hl.2.2.1 h

theorem sound_completes (fs : FileSystem String) (p : Path String) : Completes Env.sound fs p :=
  ⟨fun _ => rfl, rfl⟩

theorem atomic_iff_overwriting :
    Placed Env.sound outputTree overwriting ∧
      Atomic (fun _ => "") Env.sound outputTree overwriting := by
  have hplaced : Placed Env.sound outputTree overwriting := overwriting_placed Env.sound rfl
  refine ⟨hplaced, ?_⟩
  have hiff := atomic_iff (fun _ => "") Env.sound outputTree overwriting hplaced
  exact hiff.mpr (not_leavesUnreported (sound_completes outputTree overwriting.destination))

def backupKept : Env AtomicSite := ⟨fun site => site = .removeBackup, fun _ => []⟩

theorem backup_kept_after_replacement :
    ¬ Atomic (fun _ => "") backupKept outputTree overwriting := by
  have hiff := write_leaves (fun _ => "") (overwriting_placed backupKept rfl)
  refine fun h => hiff.mp h ?_
  refine ⟨⟨?_, ?_, ?_⟩, ?_, ?_, ?_⟩
  · exact ⟨by decide, by decide, by decide⟩
  · decide
  · exact ⟨by decide, by decide, by decide, by decide⟩
  · exact ⟨⟨⟨by decide, by decide, by decide⟩, fun _ => ⟨by decide, by decide⟩⟩, by decide⟩
  · exact fun h => absurd (h.1 ⟨by decide, by decide⟩) (by decide)
  · decide

end Publication

end AtomicOutput
