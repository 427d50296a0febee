import MeridianMcp.AtomicOutput.Resolve
import MeridianMcp.Effects.Events

namespace Containment

open Effects AtomicOutput Fallible

variable {sha256 : Bytes → String} {dir output temporary : Path String} {env : Env AtomicSite}
  {fs : FileSystem String} {writer : Writer}

-- What `write_atomic` does once the policy has named the output.
def writeTo (sha256 : Bytes → String) (output : Path String) (writer : Writer) :
    OutputProg OutputArtifact := do
  if ← existsNotFile output then throw (.invalidOutputType output)
  else if output = [] then throw (.io .invalidInput)
  else
    let temporary ← createPrivateFile output.dropLast "tmp" randomNameAttempts
    armed temporary.path do
      writer.write temporary.path
      io (FsProg.sync .flush temporary.path)
      io (FsProg.sync .syncTemporary temporary.path)
    installTemporary sha256 output temporary.path

theorem writeAtomic_eq (policy : AtomicOutput.PathPolicy) (input : Path String) (overwrite : Bool) :
    writeAtomic sha256 policy input overwrite writer =
      (policy.outputPath input overwrite).adapt .policy >>= fun output => writeTo sha256 output writer := by
  rw [writeAtomic, checked, bind_assoc]
  refine congrArg _ (funext fun output => ?_)
  rw [writeTo, bind_assoc]
  refine congrArg _ (funext fun notFile => ?_)
  cases notFile with
  | true => rfl
  | false =>
    by_cases hroot : output = []
    · simp only [Bool.false_eq_true, if_false, if_pos hroot]
      rfl
    · simp only [Bool.false_eq_true, if_false, if_neg hroot]
      rfl

def Beside (dir : Path String) (c : Call AtomicSite String) : Prop :=
  ∀ entry ∈ c.op.entries, ∃ name, entry = dir ++ [name]

abbrev Stays {α ε : Type} (dir : Path String) (post : α → Prop) (x : FsProg AtomicSite String ε α) :
    Prop :=
  Fallible.Ensures (Beside dir) post x

section stays

variable {α ε : Type} {site : AtomicSite} {name : String}

theorem beside_quiet (c : Call AtomicSite String) (h : c.op.entries = []) : Beside dir c := by
  simp [Beside, h]

theorem stays_quiet {c : Call AtomicSite String} (h : c.op.entries = []) :
    Stays dir (fun _ => True) (FsProg.act c) :=
  FsProg.ensures_act (beside_quiet c h)

theorem ensures_pathExists {allowed : Call AtomicSite String → Prop}
    (hquiet : ∀ c, c.op.entries = [] → allowed c) (p : Path String) : Fallible.Ensures allowed
      (fun _ => True) (FsProg.pathExists site p : FsProg AtomicSite String ε Bool) :=
  (FsProg.ensures_act (hquiet _ rfl)).attempt.bind fun _ _ => .pure trivial

theorem ensures_existsNotFile {allowed : Call AtomicSite String → Prop}
    (hquiet : ∀ c, c.op.entries = [] → allowed c) (p : Path String) :
    Fallible.Ensures allowed (fun _ => True) (existsNotFile p) := by
  have hfile : Fallible.Ensures allowed (fun _ => True) (isFile .outputIsFile p) := by
    refine (FsProg.ensures_act (hquiet _ rfl)).attempt.bind fun r _ => ?_
    cases r with
    | ok _ => exact .pure trivial
    | error _ => exact .pure trivial
  exact (ensures_pathExists hquiet p).bind fun _ _ =>
    .ite (hfile.bind fun _ _ => .pure trivial) (.pure trivial)

theorem stays_remove (h : ∃ name, temporary = dir ++ [name]) :
    Stays dir (fun _ => True) (FsProg.remove site temporary) := by
  refine FsProg.ensures_act fun entry hentry => ?_
  rw [List.mem_singleton.mp hentry]
  exact h

theorem stays_rename {p q : Path String} (hp : ∃ name, p = dir ++ [name]) (hq : ∃ name, q = dir ++ [name]) :
    Stays dir (fun _ => True) (FsProg.rename site p q) := by
  refine FsProg.ensures_act fun entry hentry => ?_
  rcases List.mem_pair.mp hentry with rfl | rfl
  · exact hp
  · exact hq

theorem stays_createPrivateFile (purpose : String) (k : Nat) :
    Stays dir (fun _ => True) (createPrivateFile dir purpose k) := by
  induction k with
  | zero => exact .throw _
  | succ k ih =>
    refine ((stays_quiet rfl).adapt _).bind fun bytes _ => ?_
    have hcreate : Beside dir ⟨.createTemporary k, .createNew (privatePath dir purpose bytes)⟩ := by
      intro entry hentry
      exact ⟨privateName purpose bytes, List.mem_singleton.mp hentry⟩
    refine (FsProg.ensures_act hcreate).attempt.bind fun r _ => ?_
    rcases r with e | _
    · cases e with
      | alreadyExists => exact ih
      | _ => exact .throw _
    · exact .pure trivial

theorem stays_privateAvailablePath (k : Nat) :
    Stays dir (fun p => ∃ name, p = dir ++ [name]) (privateAvailablePath dir k) := by
  induction k with
  | zero => exact .throw _
  | succ k ih =>
    refine ((stays_quiet rfl).adapt _).bind fun bytes _ => ?_
    exact (ensures_pathExists beside_quiet _).bind fun _ _ => .ite ih (.pure ⟨privateName "backup" bytes, rfl⟩)

theorem stays_armed {x : OutputProg α} {post : α → Prop} (h : ∃ name, temporary = dir ++ [name])
    (hx : Stays dir post x) : Stays dir post (armed temporary x) :=
  hx.onError (stays_remove h)

theorem stays_writeChunks (chunks : List Bytes) (k : Nat) :
    Stays dir (fun _ => True) (writeChunks temporary k chunks) := by
  induction chunks generalizing k with
  | nil => exact .pure trivial
  | cons bytes rest ih => exact ((stays_quiet rfl).adapt _).bind fun _ _ => ih (k + 1)

theorem stays_write : Stays dir (fun _ => True) (writer.write temporary) := by
  refine (stays_writeChunks _ _).bind fun _ _ => ?_
  cases writer.failure with
  | none => exact .pure trivial
  | some _ => exact .throw _

theorem stays_backUp :
    Stays dir (fun backup => ∀ b, backup = some b → ∃ name, b = dir ++ [name])
      (backUp (dir ++ [name])) := by
  refine (ensures_pathExists beside_quiet _).bind fun _ _ => .ite ?_ (.pure nofun)
  rw [List.dropLast_concat]
  refine (stays_privateAvailablePath _).bind fun backup hbackup => ?_
  refine ((stays_rename ⟨name, rfl⟩ hbackup).adapt _).bind fun _ _ => .pure ?_
  rintro b ⟨⟩
  exact hbackup

theorem stays_prepareInstall :
    Stays dir (fun installed => ∀ b, installed.backup = some b → ∃ name, b = dir ++ [name])
      (prepareInstall sha256 (dir ++ [name]) temporary) := by
  refine .ite (.throw _) ?_
  refine ((stays_quiet rfl).adapt _).bind fun _ _ => ?_
  have hhash : Stays dir (fun _ => True) (hashFile sha256 temporary) :=
    ((stays_quiet rfl).adapt _).bind fun _ _ => ((stays_quiet rfl).adapt _).bind fun _ _ => .pure trivial
  exact hhash.bind fun _ _ => stays_backUp.bind fun _ hbackup => .pure hbackup

theorem stays_renameOrRestore {backup : Option (Path String)} (h : ∃ name, temporary = dir ++ [name])
    (hbackup : ∀ b, backup = some b → ∃ name, b = dir ++ [name]) :
    Stays dir (fun _ => True) (renameOrRestore (dir ++ [name]) temporary backup) := by
  refine (stays_rename h ⟨name, rfl⟩).attempt.bind fun r _ => ?_
  cases r with
  | ok _ => exact .pure trivial
  | error _ =>
    cases backup with
    | none => exact .throw _
    | some b =>
      refine (stays_rename (hbackup b rfl) ⟨name, rfl⟩).attempt.bind fun r _ => ?_
      cases r with
      | ok _ => exact .throw _
      | error _ => exact .throw _

theorem stays_installTemporary (h : ∃ name, temporary = dir ++ [name]) :
    Stays dir (fun _ => True) (installTemporary sha256 (dir ++ [name]) temporary) := by
  have hmove : Stays dir (fun installed => ∀ b, installed.backup = some b → ∃ name, b = dir ++ [name])
      (moveIntoPlace sha256 (dir ++ [name]) temporary) :=
    stays_prepareInstall.bind fun _ hbackup =>
      (stays_renameOrRestore h hbackup).bind fun _ _ => .pure hbackup
  refine (stays_armed h hmove).bind fun installed hbackup => ?_
  have hremove : Stays dir (fun _ => True) (removeBackup installed.backup) := by
    cases hb : installed.backup with
    | none => exact .pure trivial
    | some b => exact (stays_remove (hbackup b hb)).adapt _
  exact hremove.bind fun _ _ => ((stays_quiet rfl).adapt _).bind fun _ _ => .pure trivial

theorem stays_writeTo : Stays output.dropLast (fun _ => True) (writeTo sha256 output writer) := by
  refine (ensures_existsNotFile beside_quiet output).bind fun _ _ => .ite (.throw _) ?_
  split
  · exact .throw _
  · rename_i hroot
    refine (stays_createPrivateFile "tmp" _).bind fun temporary _ => ?_
    obtain ⟨random, hprivate⟩ := temporary.private_
    have hbeside : ∃ name, temporary.path = output.dropLast ++ [name] := ⟨_, hprivate⟩
    have hwrites : Stays output.dropLast (fun _ => True) (armed temporary.path do
        writer.write temporary.path
        io (FsProg.sync .flush temporary.path)
        io (FsProg.sync .syncTemporary temporary.path)) :=
      stays_armed hbeside (stays_write.bind fun _ _ =>
        ((stays_quiet rfl).adapt _).bind fun _ _ => (stays_quiet rfl).adapt _)
    refine hwrites.bind fun _ _ => ?_
    have hinstall : Stays output.dropLast (fun _ => True) (installTemporary sha256
        (output.dropLast ++ [output.getLast hroot]) temporary.path) := stays_installTemporary hbeside
    rwa [List.dropLast_append_getLast hroot] at hinstall

end stays

end Containment
