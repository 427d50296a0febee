import MeridianMcp.Effects.FsProg
import MeridianMcp.Text
import Mathlib.Data.Finset.Sort

namespace PrivateState

open Effects MeridianMcp

def maxRecordBytes : Nat := 8 * 1024 * 1024

def maxRecords : Nat := 100000

def temporaryNameAttempts : Nat := 32

-- The components of a record name as the standard library parses it; paths are relative to
-- the canonical store directory, which is the root of the tree.
inductive Component where
  | normal (name : String)
  | curDir | parentDir | rootDir | volume
  deriving DecidableEq, Repr

def Component.name? : Component → Option String
  | .normal name => some name
  | _ => none

inductive StoreError where
  | io (e : IoError)
  | context (text : String) (e : IoError)
  | message (text : String)
  | malformed
  deriving DecidableEq, Repr

structure JsonCodec (α : Type) where
  encode : α → Bytes
  decode : Bytes → Option α
  parses : Bytes → Bool
  decode_encode : ∀ v, decode (encode v ++ [10]) = some v
  parses_encode : ∀ v, parses (encode v ++ [10]) = true

def JsonCodec.value {α : Type} (codec : JsonCodec α) (bytes : Bytes) : Option Unit :=
  if codec.parses bytes then some () else none

def lockPath : Path String := [".meridian-mcp.lock"]

theorem lockPath_placeable : FileSystem.Placeable (FileSystem.empty : FileSystem String) lockPath := by decide

def temporaryName (random : Bytes) : String := ".meridian-tmp-" ++ hex random

def backupName (random : Bytes) : String := ".meridian-backup-" ++ hex random

inductive LockSite where
  | inspect | openLock | reinspect | acquire
  deriving DecidableEq, Repr

inductive ResolveSite where
  | createParent | parentExists | canonicalizeParent | pathExists | inspect
  deriving DecidableEq, Repr

inductive ReadSite where
  | lock (s : LockSite)
  | resolve (s : ResolveSite)
  | inspect | readAll
  deriving DecidableEq, Repr

inductive WriteSite where
  | lock (s : LockSite)
  | resolve (s : ResolveSite)
  | temporaryRandom (attempt : Nat)
  | createTemporary (attempt : Nat)
  | writePayload | writeNewline | flush | syncTemporary
  | installExists | backupRandom | backupRename | installRename | rollbackRename
  | removeBackup | openInstalled | syncInstalled
  | verify (s : ReadSite)
  | cleanup
  deriving DecidableEq, Repr

abbrev StoreProg (S : Type) : Type → Type := FsProg S String StoreError

variable {S α : Type}

open FsProg (lstat stat canonicalize readTree createDirAll createNew openFile append sync lock read
  rename remove random pathExists)

def io (x : FsProg S String IoError α) : StoreProg S α := x.adapt .io

def lockOperation (at_ : LockSite → S) : StoreProg S Unit := do
  let metadata ← io (lstat (at_ .inspect) lockPath)
  if metadata.kind ≠ .file then
    throw (.message "private state lock must be a regular file")
  else
    (openFile (at_ .openLock) lockPath).adapt (.context "could not open private state lock")
    let metadata ← io (lstat (at_ .reinspect) lockPath)
    if metadata.kind ≠ .file then
      throw (.message "private state lock must be a regular file")
    else
      (lock (at_ .acquire) lockPath).adapt (.context "could not lock private state")

def invalidName (relative : List Component) : Prop :=
  relative = [] ∨ relative.any (fun c => c.name?.isNone)

instance (relative : List Component) : Decidable (invalidName relative) :=
  inferInstanceAs (Decidable (_ ∨ _))

def recordPath (relative : List Component) : Path String := relative.filterMap Component.name?

def checkParent (at_ : ResolveSite → S) (parent : Path String) : StoreProg S Unit := do
  if ← pathExists (at_ .parentExists) parent then
    let canonicalParent ← io (canonicalize (at_ .canonicalizeParent) parent)
    if canonicalParent = none then
      throw (.message "private state record escapes through a symlink or reparse point")
    else pure ()
  else pure ()

def checkSlot (at_ : ResolveSite → S) (path : Path String) : StoreProg S Unit := do
  if ← pathExists (at_ .pathExists) path then
    let metadata ← io (lstat (at_ .inspect) path)
    if metadata.kind = .symlink then
      throw (.message "private state records cannot be symlinks")
    else pure ()
  else pure ()

def resolveRecord (at_ : ResolveSite → S) (relative : List Component) (createParent : Bool) :
    StoreProg S (Path String) := do
  if invalidName relative then
    throw (.message "private state record name must be a non-empty relative path")
  else
    let path := recordPath relative
    if createParent then io (createDirAll (at_ .createParent) path.dropLast)
    checkParent at_ path.dropLast
    checkSlot at_ path
    pure path

def createPrivateFile (parent : Path String) : Nat → StoreProg WriteSite (Path String)
  | 0 => throw (.message "could not allocate a private state temporary file")
  | attempt + 1 => do
    let bytes ← io (random (.temporaryRandom attempt))
    let path := parent ++ [temporaryName bytes]
    match ← Fallible.attempt (createNew (.createTemporary attempt) path) with
    | .ok _ => pure path
    | .error .alreadyExists => createPrivateFile parent attempt
    | .error e => throw (.io e)

def backUp (output : Path String) : StoreProg WriteSite (Option (Path String)) := do
  if ← pathExists .installExists output then
    let bytes ← io (random .backupRandom)
    let backup := output.dropLast ++ [backupName bytes]
    io (rename .backupRename output backup)
    pure (some backup)
  else
    pure none

def installTemporary (temporary output : Path String) : StoreProg WriteSite Unit := do
  let backup ← backUp output
  match ← Fallible.attempt (rename .installRename temporary output) with
  | .error installError =>
    if let some backup := backup then
      let _ ← Fallible.attempt (rename .rollbackRename backup output)
    throw (.io installError)
  | .ok _ =>
    if let some backup := backup then
      io (remove .removeBackup backup)
    io (openFile .openInstalled output)
    io (sync .syncInstalled output)

def readJsonPath (at_ : ReadSite → S) (decode : Bytes → Option α) (path : Path String) :
    StoreProg S α := do
  let metadata ← io (lstat (at_ .inspect) path)
  if metadata.kind ≠ .file then
    throw (.message "private state record is not a regular file")
  else if metadata.len > maxRecordBytes then
    throw (.message "private state record exceeds the 8 MiB limit")
  else
    let contents ← io (read (at_ .readAll) path)
    let bytes := contents.take (maxRecordBytes + 1)
    if bytes.length > maxRecordBytes then
      throw (.message "private state record exceeds the 8 MiB limit")
    else match decode bytes with
      | some v => pure v
      | none => throw .malformed

def readJsonUnlocked (at_ : ReadSite → S) (decode : Bytes → Option α)
    (relative : List Component) : StoreProg S α := do
  let path ← resolveRecord (fun s => at_ (.resolve s)) relative false
  readJsonPath at_ decode path

def readJson (codec : JsonCodec α) (relative : List Component) : StoreProg ReadSite α := do
  lockOperation .lock
  readJsonUnlocked id codec.decode relative

def replaceRecord (codec : JsonCodec α) (relative : List Component) (bytes : Bytes)
    (temporary output : Path String) : StoreProg WriteSite Unit := do
  io (append .writePayload temporary bytes)
  io (append .writeNewline temporary [10])
  io (sync .flush temporary)
  io (sync .syncTemporary temporary)
  installTemporary temporary output
  readJsonUnlocked .verify codec.value relative

def writeJsonAtomic (codec : JsonCodec α) (relative : List Component) (value : α) :
    StoreProg WriteSite (Path String) := do
  lockOperation .lock
  let output ← resolveRecord .resolve relative true
  let bytes := codec.encode value
  if bytes.length > maxRecordBytes then
    throw (.message "private state record exceeds the 8 MiB limit")
  else
    let temporary ← createPrivateFile output.dropLast temporaryNameAttempts
    (replaceRecord codec relative bytes temporary output).onError (remove .cleanup temporary)
    pure output

inductive ListSite where
  | lock (s : LockSite)
  | resolve (s : ResolveSite)
  | isDir | walk
  deriving DecidableEq, Repr

instance path_trans : IsTrans (Path String) (· ≤ ·) := inferInstance

instance path_antisymm : Std.Antisymm ((· ≤ ·) : Path String → Path String → Prop) := inferInstance

instance path_total : Std.Total ((· ≤ ·) : Path String → Path String → Prop) := inferInstance

def listRecords (namespace_ : List Component) (maxEntries : Nat) :
    StoreProg ListSite (List (Path String)) := do
  lockOperation .lock
  let maximum := min maxEntries maxRecords
  let directory ← resolveRecord .resolve namespace_ false
  match ← Fallible.attempt (stat .isDir directory) with
  | .ok .dir =>
    -- The loop over `pending` visits every entry below the directory, in no fixed order.
    let entries ← io (readTree .walk directory)
    if (entries.keys.filter (fun p => entries.get p = some .symlink)).Nonempty then
      throw (.message "private state namespaces cannot contain symlinks")
    else
      let records := entries.keys.filter (fun p => entries.get p = some .file)
      if records.card > maximum then
        throw (.message "private state record enumeration exceeds its limit")
      else
        pure (records.sort (· ≤ ·))
  | _ => pure []

end PrivateState
