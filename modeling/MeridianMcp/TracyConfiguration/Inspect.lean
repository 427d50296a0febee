import Mathlib.Data.List.Sort
import MeridianMcp.BuildProvenance.Preparation
import MeridianMcp.ByteWords
import MeridianMcp.Effects.FileSystem
import MeridianMcp.Fallible
import MeridianMcp.LossyUtf8

namespace TracyConfiguration

open MeridianMcp Effects ByteWords Fallible
open BuildProvenance (lines trim splitWhitespace)

abbrev Name := List UInt8

def maxConfigurationEntries : Nat := 4096

def maxConfigurationBytes : Nat := 64 * 1024 * 1024

def resumeAfterInitializations : Text := "RESUME_AFTER_INITIALIZATIONS".toList

structure RuntimeConfigurationIdentity where
  schema : Nat
  directorySha256 : Text
  fileCount : Nat
  totalBytes : Nat
  resumeAfterInitializations : Bool
  deriving DecidableEq

structure RuntimeConfiguration where
  directory : List Name
  identity : RuntimeConfigurationIdentity
  deriving DecidableEq

inductive RuntimeConfigurationError where
  | notDirectory | missingConfig | resumeAfterInitializationsNotEnabled | scopeTooLarge
  | linkNotAllowed | unsafeParameter
  | io (e : IoError)
  deriving DecidableEq

-- A regular file, and what asking for its metadata and reading it come to.
structure ConfigurationFile where
  bytes : List UInt8
  metadata : Except IoError Unit
  reading : Except IoError Unit

-- What `read_dir` hands out, entry by entry.
inductive Listing where
  | done
  | failed (e : IoError)
  | file (name : Name) (file : ConfigurationFile) (rest : Listing)
  | directory (name : Name) (contents rest : Listing)
  | symlink (name : Name) (rest : Listing)
  | other (name : Name) (rest : Listing)

-- `regular` finds a file by its name in the directory, links followed.
structure Directory where
  isDir : Bool
  canonicalize : Except IoError (List Name)
  regular : Name → Option ConfigurationFile
  entries : Listing

abbrev Entry := Text × ConfigurationFile

def relativeText (path : List Name) : Text :=
  slashed (fromUtf8Lossy ((utf8 ['/']).intercalate path))

def collectFiles : Listing → List Name → List Entry → Except RuntimeConfigurationError (List Entry)
  | .done, _, files => .ok files
  | .failed e, _, _ => .error (.io e)
  | .symlink _ _, _, _ => .error .linkNotAllowed
  | .other _ rest, base, files => collectFiles rest base files
  | .directory name contents rest, base, files => do
    let files ← collectFiles contents (base ++ [name]) files
    collectFiles rest base files
  | .file name file rest, base, files =>
    let files := files ++ [(relativeText (base ++ [name]), file)]
    if maxConfigurationEntries < files.length then .error .scopeTooLarge
    else collectFiles rest base files

def sortFiles (files : List Entry) : List Entry :=
  files.insertionSort fun left right => left.1 ≤ right.1

def fileBytes (file : Text × List UInt8) : List UInt8 :=
  utf8 file.1 ++ 0 :: (leBytes 8 file.2.length ++ (file.2 ++ [0]))

-- The total and the bytes given to the hasher.
def hashFiles (fileCount : Nat) :
    List Entry → Nat × List UInt8 → Except RuntimeConfigurationError (Nat × List UInt8)
  | [], hashed => .ok hashed
  | (relative, file) :: files, (totalBytes, bytes) => do
    file.metadata.mapError .io
    let totalBytes := min (totalBytes + file.bytes.length) (2 ^ 64 - 1)
    ensure (fileCount ≤ maxConfigurationEntries ∧ totalBytes ≤ maxConfigurationBytes) .scopeTooLarge
    file.reading.mapError .io
    hashFiles fileCount files (totalBytes, bytes ++ fileBytes (relative, file.bytes))

def readToString (file : ConfigurationFile) : Except IoError Text := do
  file.reading
  let text := fromUtf8Lossy file.bytes
  ensure (utf8 text = file.bytes) .other
  .ok text

def lineEnablesKeepAwake (line : Text) : Bool :=
  let line := trim line
  line.head? ≠ some '#' && (splitWhitespace line).head?.any fun name =>
    name.map Char.toLower = resumeAfterInitializations.map Char.toLower

def fileEnablesKeepAwake (file : ConfigurationFile) : Except IoError Bool := do
  let contents ← readToString file
  .ok ((lines contents).any lineEnablesKeepAwake)

def keepAwakeStep (enabled : Bool) (file : ConfigurationFile) : Except IoError Bool :=
  if enabled then .ok true else fileEnablesKeepAwake file

def requireConfig : Option ConfigurationFile → Except RuntimeConfigurationError ConfigurationFile
  | none => .error .missingConfig
  | some file => .ok file

def inspectRuntimeConfiguration (sha256 : List UInt8 → List UInt8) (directory : Directory) :
    Except RuntimeConfigurationError RuntimeConfiguration := do
  ensure (directory.isDir = true) .notDirectory
  let path ← directory.canonicalize.mapError .io
  let config ← requireConfig (directory.regular (utf8 "config.txt".toList))
  let keepAwake ← ((config :: (directory.regular (utf8 "dev_overrides.txt".toList)).toList).foldlM
    keepAwakeStep false).mapError .io
  ensure (keepAwake = true) .resumeAfterInitializationsNotEnabled
  let files ← collectFiles directory.entries [] []
  let (totalBytes, bytes) ← hashFiles files.length (sortFiles files) (0, [])
  .ok ⟨path, ⟨1, (hex (sha256 bytes)).toList, files.length, totalBytes, true⟩⟩

end TracyConfiguration
