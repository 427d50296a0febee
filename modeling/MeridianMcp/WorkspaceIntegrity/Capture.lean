import Mathlib.Data.Finset.Option
import MeridianMcp.AtomicOutput.Publish
import MeridianMcp.WorkspaceIntegrity.Snapshot

namespace WorkspaceIntegrity

open MeridianMcp Effects

inductive IntegrityError where
  | io (e : IoError)
  | scopeTooLarge
  | violation (paths : List Text)
  | recoveryRequired (lastAction : Text)
  | invalidOwnedPath (path : Text)
  | atomic (e : AtomicOutput.AtomicOutputError)
  deriving DecidableEq, Repr

def normalizeRelative (path : List Text) : Text := slashed (['/'].intercalate path)

structure OwnedPath where
  isAbsolute : Bool
  components : List Text
  deriving DecidableEq, Repr

def OwnedPath.display (path : OwnedPath) : Text :=
  (if path.isAbsolute then ['/'] else []) ++ ['/'].intercalate path.components

-- What the file system says about the paths of an exemption at the time of a comparison.
structure PathProbe where
  isDir : OwnedPath → Bool
  canonicalize : List Text → Option (List Text)

def stripPrefix (root path : List Text) : Option (List Text) :=
  if root <+: path then some (path.drop root.length) else none

theorem stripPrefix_append (root path : List Text) : stripPrefix root (root ++ path) = some path := by
  simp [stripPrefix]

def ownedKey (probe : PathProbe) (root : List Text) (path : OwnedPath) :
    Except IntegrityError (Option Text) :=
  if probe.isDir path then .error (.invalidOwnedPath path.display)
  else
    let absolute := if path.isAbsolute then path.components else root ++ path.components
    let absolute := (probe.canonicalize absolute).getD absolute
    match stripPrefix root absolute with
    | some relative => .ok (some (normalizeRelative relative))
    | none => if path.isAbsolute then .ok none else .error (.invalidOwnedPath path.display)

def ownedKeys (probe : PathProbe) (root : List Text) : List OwnedPath → Except IntegrityError (Finset Text)
  | [] => .ok ∅
  | path :: paths => do
    let key ← ownedKey probe root path
    let keys ← ownedKeys probe root paths
    pure (key.toFinset ∪ keys)

def compareSnapshots (probe : PathProbe) (baseline current : WorkspaceSnapshot)
    (ownedPaths : List OwnedPath) : Except IntegrityError IntegrityDelta :=
  if baseline.root ≠ current.root then .error (.invalidOwnedPath "snapshot roots differ".toList)
  else do
    let owned ← ownedKeys probe baseline.root ownedPaths
    pure (compareRecords baseline.records current.records owned current.digest)

variable {probe : PathProbe} {baseline current : WorkspaceSnapshot} {ownedPaths : List OwnedPath}
  {delta : IntegrityDelta}

theorem compareSnapshots_ok (h : compareSnapshots probe baseline current ownedPaths = .ok delta) :
    ∃ owned, ownedKeys probe baseline.root ownedPaths = .ok owned ∧ baseline.root = current.root ∧
      delta = compareRecords baseline.records current.records owned current.digest := by
  unfold compareSnapshots at h
  split at h
  · cases h
  · rename_i hroot
    cases howned : ownedKeys probe baseline.root ownedPaths with
    | error e =>
      rw [howned] at h
      cases h
    | ok owned =>
      rw [howned] at h
      cases h
      exact ⟨owned, rfl, not_not.mp hroot, rfl⟩

theorem compareSnapshots_unowned (hroot : baseline.root = current.root) :
    compareSnapshots probe baseline current [] =
      .ok (compareRecords baseline.records current.records ∅ current.digest) := by
  simp only [compareSnapshots, hroot, ne_eq, not_true_eq_false, if_false]
  rfl

end WorkspaceIntegrity

namespace WorkspaceIntegrity

open MeridianMcp Effects

def maxIntegrityEntries : Nat := 250000
def maxIntegrityBytes : Nat := 16 * 1024 * 1024 * 1024

-- What `read_dir` hands out, entry by entry.
inductive Listing where
  | done
  | failed (e : IoError)
  | file (name : Text) (len : Except IoError Nat) (rest : Listing)
  | directory (name : Text) (contents rest : Listing)
  | other (name : Text) (rest : Listing)

-- `status` and `lsFiles` are the outputs of git, decoded; `isFile` follows links.
structure CaptureHost where
  canonicalize : List Text → Except IoError (List Text)
  status : Option Text
  lsFiles : Except IoError Text
  isFile : List Text → Bool
  fileLen : List Text → Except IoError Nat
  hashFile : List Text → Except IoError Text
  listing : List Text → Listing
  digestRecords : Records → Text

def components (path : Text) : List Text := (path.splitOn '/').filter (· ≠ [])

def join (root : List Text) (path : Text) : List Text :=
  if path.head? = some '/' then components path else root ++ components path

def entries (output : Text) : List Text := (output.splitOn (Char.ofNat 0)).filter (· ≠ [])

def afterFields : Nat → Text → Option Text
  | 0, text => some text
  | n + 1, text =>
    match text.dropWhile (· ≠ ' ') with
    | [] => none
    | _ :: rest => afterFields n rest

def untrackedPath : Text → Option Text
  | '?' :: ' ' :: path => some path
  | _ => none

def statusPath : Text → Option Text
  | '?' :: ' ' :: path => some path
  | '1' :: ' ' :: rest => afterFields 7 rest
  | '2' :: ' ' :: rest => afterFields 8 rest
  | _ => none

def splitTab (entry : Text) : Option (Text × Text) :=
  match entry.dropWhile (· ≠ '\t') with
  | [] => none
  | _ :: path => some (entry.takeWhile (· ≠ '\t'), path)

def splitWhitespace (text : Text) : List Text := (text.splitOnP Char.isWhitespace).filter (· ≠ [])

section

variable (host : CaptureHost) (root : List Text)

def captureIdentity (path : List Text) (tracked : Bool) (kind object status : Option Text) :
    Except IntegrityError FileIdentity :=
  let status := status.getD "clean".toList
  if host.isFile path then do
    let size ← (host.fileLen path).mapError .io
    let sha256 ← (host.hashFile path).mapError .io
    pure ⟨tracked, kind, object, some sha256, some size, status⟩
  else pure ⟨tracked, kind, object, none, none, status⟩

def statusesOf (changes : List Text) : FinMap Text Text :=
  changes.foldl (fun statuses change => match statusPath change with
    | some path => statuses.insert (slashed path) change
    | none => statuses) .empty

def insertTracked (statuses : FinMap Text Text) : List Text → Records → Except IntegrityError Records
  | [], records => .ok records
  | entry :: rest, records =>
    match splitTab entry with
    | none => insertTracked statuses rest records
    | some (metadata, path) => do
      let fields := splitWhitespace metadata
      let relative := slashed path
      let identity ← captureIdentity host (join root path) true fields[0]? fields[1]? (statuses.get relative)
      let records := records.insert relative identity
      if records.keys.card > maxIntegrityEntries then .error .scopeTooLarge
      else insertTracked statuses rest records

def insertUntracked : List Text → Records → Except IntegrityError Records
  | [], records => .ok records
  | change :: rest, records =>
    match untrackedPath change with
    | none => insertUntracked rest records
    | some path => do
      let relative := slashed path
      let identity ← captureIdentity host (join root relative) false none none (some change)
      insertUntracked rest (records.insert relative identity)

def captureGitRecords (status : Text) : Except IntegrityError (Records × List Text) := do
  let changes := entries status
  let statuses := statusesOf changes
  let tracked ← host.lsFiles.mapError .io
  let records ← insertTracked host root statuses (entries tracked) .empty
  let records ← insertUntracked host root changes records
  pure (records, changes)

def skipped (name : Text) : Bool :=
  name == ".git".toList || name == "target".toList || name == ".meridian-tracy-diagnostics".toList

def visitFiles : Listing → List Text → Records × Nat → Except IntegrityError (Records × Nat)
  | .done, _, visited => .ok visited
  | .failed e, _, _ => .error (.io e)
  | .directory name contents rest, base, visited =>
    if skipped name then visitFiles rest base visited
    else do
      let visited ← visitFiles contents (base ++ [name]) visited
      visitFiles rest base visited
  | .file name len rest, base, (records, totalBytes) => do
    let len ← len.mapError .io
    let totalBytes := min (totalBytes + len) (2 ^ 64 - 1)
    if records.keys.card ≥ maxIntegrityEntries ∨ totalBytes > maxIntegrityBytes then .error .scopeTooLarge
    else
      let path := base ++ [name]
      let identity ← captureIdentity host (root ++ path) false none none none
      visitFiles rest base (records.insert (normalizeRelative path) identity, totalBytes)
  | .other _ rest, base, visited => visitFiles rest base visited

def captureRecords : Except IntegrityError (Records × List Text) :=
  match host.status with
  | some status => captureGitRecords host root status
  | none => do
    let (records, _) ← visitFiles host root (host.listing root) [] (.empty, 0)
    pure (records, [])

def WorkspaceSnapshot.capture : Except IntegrityError WorkspaceSnapshot := do
  let root ← (host.canonicalize root).mapError .io
  let (records, preexistingChanges) ← captureRecords host root
  pure ⟨root, records, host.digestRecords records, preexistingChanges⟩

end

end WorkspaceIntegrity
