import MeridianMcp.Effects.FsProg
import MeridianMcp.Text

namespace AtomicOutput

open Effects MeridianMcp

-- A path that leaves the tree through a link has no name in it.
structure PolicyError where
  code : String
  path : Option (Path String)
  message : String
  source : Option IoError
  deriving DecidableEq, Repr

structure PathPolicy where
  roots : List (Path String)

structure OutputArtifact where
  path : Option (Path String)
  bytes : Nat
  sha256 : String
  deriving DecidableEq, Repr

inductive AtomicOutputError where
  | policy (e : PolicyError)
  | io (e : IoError)
  | invalidOutputType (path : Path String)
  | temporaryNameExhausted
  | entropy (e : IoError)
  | writer (message : String)
  | replacement (install restore : IoError)
  deriving DecidableEq, Repr

inductive AtomicSite where
  | policyExists | policyCanonicalize | policyParent
  | outputExists | outputIsFile
  | temporaryRandom (attempt : Nat)
  | createTemporary (attempt : Nat)
  | write (chunk : Nat) | flush | syncTemporary
  | commitInspect | commitOpen | commitSync
  | measure | hashOpen | hashRead
  | installExists
  | backupRandom (attempt : Nat)
  | backupExists (attempt : Nat)
  | backupRename | installRename | rollbackRename
  | removeBackup | canonicalizeInstalled
  | dropTemporary
  deriving DecidableEq, Repr

def randomNameAttempts : Nat := 32

def privateName (purpose : String) (random : Bytes) : String :=
  (".meridian-mcp-" ++ hex random) ++ ("." ++ purpose)

def privatePath (parent : Path String) (purpose : String) (random : Bytes) : Path String :=
  parent ++ [privateName purpose random]

structure TemporaryOutput (parent : Path String) (purpose : String) where
  path : Path String
  private_ : ∃ random, path = privatePath parent purpose random

structure ReservedExternalOutput where
  output : Path String
  temporary : TemporaryOutput output.dropLast "external"

structure Writer where
  chunks : List Bytes
  failure : Option String

def Writer.payload (writer : Writer) : Bytes := writer.chunks.flatten

abbrev OutputProg : Type → Type := FsProg AtomicSite String AtomicOutputError

open FsProg (lstat stat measure canonicalize createNew openFile append sync read rename remove random
  pathExists)

def io {α : Type} (x : FsProg AtomicSite String IoError α) : OutputProg α := x.adapt .io

def isFile (site : AtomicSite) (path : Path String) : OutputProg Bool := do
  match ← Fallible.attempt (stat site path) with
  | .ok kind => pure (kind = .file)
  | .error _ => pure false

namespace PathPolicy

variable (policy : PathPolicy)

def requireContained (path : Option (Path String)) : Except PolicyError (Path String) :=
  match path with
  | some path =>
    if policy.roots.any (· <+: path) then .ok path
    else .error ⟨"path_outside_workspace", some path, "path is outside configured workspace roots", none⟩
  | none =>
    .error ⟨"path_outside_workspace", none, "path is outside configured workspace roots", none⟩

def readPath (input : Path String) : FsProg AtomicSite String PolicyError (Path String) := do
  let canonical ← (canonicalize .policyCanonicalize input).adapt fun source =>
    ⟨"path_not_found", some input, "cannot resolve", some source⟩
  policy.requireContained canonical

def outputPath (input : Path String) (overwrite : Bool) :
    FsProg AtomicSite String PolicyError (Path String) := do
  if ← pathExists .policyExists input then
    let canonical ← policy.readPath input
    if overwrite then pure canonical
    else throw ⟨"output_exists", some canonical, "output already exists; set overwrite=true", none⟩
  else
    match input.getLast? with
    | none => throw ⟨"invalid_output_path", some input, "output path has no parent", none⟩
    | some name =>
      let parent ← (canonicalize .policyParent input.dropLast).adapt fun source =>
        ⟨"output_parent_not_found", some input.dropLast, "cannot resolve output parent", some source⟩
      policy.requireContained (parent.map (· ++ [name]))

end PathPolicy

def createPrivateFile (parent : Path String) (purpose : String) :
    Nat → OutputProg (TemporaryOutput parent purpose)
  | 0 => throw .temporaryNameExhausted
  | attempt + 1 => do
    let bytes ← (random (.temporaryRandom attempt)).adapt .entropy
    match ← Fallible.attempt (createNew (.createTemporary attempt) (privatePath parent purpose bytes)) with
    | .ok _ => pure ⟨privatePath parent purpose bytes, bytes, rfl⟩
    | .error .alreadyExists => createPrivateFile parent purpose attempt
    | .error e => throw (.io e)

def privateAvailablePath (parent : Path String) : Nat → OutputProg (Path String)
  | 0 => throw .temporaryNameExhausted
  | attempt + 1 => do
    let bytes ← (random (.backupRandom attempt)).adapt .entropy
    if ← pathExists (.backupExists attempt) (privatePath parent "backup" bytes) then
      privateAvailablePath parent attempt
    else
      pure (privatePath parent "backup" bytes)

def existsNotFile (output : Path String) : OutputProg Bool := do
  if ← pathExists .outputExists output then
    let file ← isFile .outputIsFile output
    pure !file
  else
    pure false

-- `checked` is the common head of the three entry points: policy, kind of the output, parent.
def checked (policy : PathPolicy) (input : Path String) (overwrite : Bool) :
    OutputProg (Path String) := do
  let output ← (policy.outputPath input overwrite).adapt .policy
  if ← existsNotFile output then throw (.invalidOutputType output)
  else if output = [] then throw (.io .invalidInput)
  else pure output

-- An armed temporary is removed when the action that holds it fails.
def armed {α : Type} (temporary : Path String) (x : OutputProg α) : OutputProg α :=
  x.onError (remove .dropTemporary temporary)

def hashFile (sha256 : Bytes → String) (path : Path String) : OutputProg String := do
  io (openFile .hashOpen path)
  let bytes ← io (read .hashRead path)
  pure (sha256 bytes)

def backUp (output : Path String) : OutputProg (Option (Path String)) := do
  if ← pathExists .installExists output then
    let backup ← privateAvailablePath output.dropLast randomNameAttempts
    io (rename .backupRename output backup)
    pure (some backup)
  else
    pure none

structure Installed where
  backup : Option (Path String)
  bytes : Nat
  sha256 : String

def prepareInstall (sha256 : Bytes → String) (output temporary : Path String) :
    OutputProg Installed := do
  if output = [] then throw (.io .invalidInput)
  else
    let bytes ← io (measure .measure temporary)
    let digest ← hashFile sha256 temporary
    let backup ← backUp output
    pure ⟨backup, bytes, digest⟩

def renameOrRestore (output temporary : Path String) (backup : Option (Path String)) :
    OutputProg Unit := do
  match ← Fallible.attempt (rename .installRename temporary output) with
  | .ok _ => pure ()
  | .error install =>
    match backup with
    | none => throw (.io install)
    | some backup =>
      match ← Fallible.attempt (rename .rollbackRename backup output) with
      | .ok _ => throw (.io install)
      | .error restore => throw (.replacement install restore)

def moveIntoPlace (sha256 : Bytes → String) (output temporary : Path String) :
    OutputProg Installed := do
  let installed ← prepareInstall sha256 output temporary
  renameOrRestore output temporary installed.backup
  pure installed

def removeBackup : Option (Path String) → OutputProg Unit
  | some backup => io (remove .removeBackup backup)
  | none => pure ()

def installTemporary (sha256 : Bytes → String) (output temporary : Path String) :
    OutputProg OutputArtifact := do
  let installed ← armed temporary (moveIntoPlace sha256 output temporary)
  removeBackup installed.backup
  let path ← io (canonicalize .canonicalizeInstalled output)
  pure ⟨path, installed.bytes, installed.sha256⟩

def writeChunks (temporary : Path String) : Nat → List Bytes → OutputProg Unit
  | _, [] => pure ()
  | chunk, bytes :: rest => do
    io (append (.write chunk) temporary bytes)
    writeChunks temporary (chunk + 1) rest

def Writer.write (writer : Writer) (temporary : Path String) : OutputProg Unit := do
  writeChunks temporary 0 writer.chunks
  match writer.failure with
  | some message => throw (.writer message)
  | none => pure ()

def writeAtomic (sha256 : Bytes → String) (policy : PathPolicy) (input : Path String)
    (overwrite : Bool) (writer : Writer) : OutputProg OutputArtifact := do
  let output ← checked policy input overwrite
  let temporary ← createPrivateFile output.dropLast "tmp" randomNameAttempts
  armed temporary.path do
    writer.write temporary.path
    io (sync .flush temporary.path)
    io (sync .syncTemporary temporary.path)
  installTemporary sha256 output temporary.path

def reserveExternalAtomic (policy : PathPolicy) (input : Path String) (overwrite : Bool) :
    OutputProg ReservedExternalOutput := do
  let output ← checked policy input overwrite
  let temporary ← createPrivateFile output.dropLast "external" randomNameAttempts
  pure ⟨output, temporary⟩

namespace ReservedExternalOutput

def commit (sha256 : Bytes → String) (reserved : ReservedExternalOutput) :
    OutputProg OutputArtifact := do
  armed reserved.temporary.path do
    let metadata ← io (lstat .commitInspect reserved.temporary.path)
    if metadata.kind ≠ .file then throw (.invalidOutputType reserved.temporary.path)
    else
      io (openFile .commitOpen reserved.temporary.path)
      io (sync .commitSync reserved.temporary.path)
  installTemporary sha256 reserved.output reserved.temporary.path

end ReservedExternalOutput

end AtomicOutput
