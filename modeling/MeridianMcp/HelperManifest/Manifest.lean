import MeridianMcp.DmiDecode.Preflight
import MeridianMcp.Effects.Links
import MeridianMcp.Fallible

namespace HelperManifest

open MeridianMcp
open DmiDecode (parseUnsigned)

abbrev Version := List Nat

def parseVersion (value : Text) : Option Version :=
  (value.splitOn '.').mapM (parseUnsigned (2 ^ 32))

-- The derived order of vectors: of two that agree as far as the shorter goes, the shorter is less.
def versionInRange (version : Text) (minimum maximum : Option Text) : Bool :=
  match parseVersion version with
  | none => false
  | some version =>
    if (minimum.bind parseVersion).any fun minimum => decide (version < minimum) then false
    else if (maximum.bind parseVersion).any fun maximum => decide (maximum < version) then false
    else true

-- A component that is not there counts as zero.
def Version.component (version : Version) (i : Nat) : Nat := version.getD i 0

def Version.Before (v w : Version) : Prop :=
  ∃ i, (∀ j < i, v.component j = w.component j) ∧ v.component i < w.component i

def Version.AtMost (v w : Version) : Prop := (∀ i, v.component i = w.component i) ∨ v.Before w

-- The bound is a version that stands in the relation to the requested one.
def Bounds (relation : Version → Version → Prop) (bound : Text) (version : Version) : Prop :=
  ∃ limit, parseVersion bound = some limit ∧ relation limit version

def InRange (version : Text) (minimum maximum : Option Text) : Prop :=
  ∃ v, parseVersion version = some v ∧
    (∀ bound ∈ minimum, Bounds (fun limit v => limit.AtMost v) bound v) ∧
    ∀ bound ∈ maximum, Bounds (fun limit v => v.AtMost limit) bound v

theorem atMost_cons {a : Nat} {v w : Version} (h : Version.AtMost v w) :
    Version.AtMost (a :: v) (a :: w) := by
  rcases h with h | ⟨i, hbefore, hless⟩
  · refine .inl fun i => ?_
    cases i with
    | zero => rfl
    | succ i => exact h i
  · refine .inr ⟨i + 1, fun j hj => ?_, hless⟩
    cases j with
    | zero => rfl
    | succ j => exact hbefore j (by omega)

theorem nil_atMost (v : Version) : Version.AtMost [] v := by
  induction v with
  | nil => exact .inl fun _ => rfl
  | cons a v ih =>
    rcases Nat.eq_zero_or_pos a with rfl | ha
    · rcases ih with h | ⟨i, hbefore, hless⟩
      · refine .inl fun i => ?_
        cases i with
        | zero => rfl
        | succ i => exact h i
      · refine .inr ⟨i + 1, fun j hj => ?_, hless⟩
        cases j with
        | zero => rfl
        | succ j => exact hbefore j (by omega)
    · exact .inr ⟨0, fun _ h => absurd h (Nat.not_lt_zero _), ha⟩

-- The order of vectors never puts a version behind a bound that it equals up to zeros or passes.
theorem atMost_of_not_less {v w : Version} (h : ¬ v < w) : Version.AtMost w v := by
  induction w generalizing v with
  | nil => exact nil_atMost v
  | cons b w ih =>
    cases v with
    | nil => exact absurd (List.nil_lt_cons b w) h
    | cons a v =>
      rw [List.cons_lt_cons_iff, not_or] at h
      rcases Nat.lt_or_eq_of_le (Nat.le_of_not_lt h.1) with hlt | rfl
      · exact .inr ⟨0, fun _ hj => absurd hj (Nat.not_lt_zero _), hlt⟩
      · exact atMost_cons (ih fun hvw => h.2 ⟨rfl, hvw⟩)

variable {version : Text} {minimum maximum : Option Text}

theorem versionInRange_parses (h : versionInRange version minimum maximum = true) :
    ∃ v, parseVersion version = some v ∧
      (∀ limit, minimum.bind parseVersion = some limit → limit.AtMost v) ∧
      ∀ limit, maximum.bind parseVersion = some limit → v.AtMost limit := by
  unfold versionInRange at h
  split at h
  · cases h
  · rename_i v hv
    split at h
    · cases h
    · rename_i hmin
      split at h
      · cases h
      · rename_i hmax
        refine ⟨v, hv, fun limit hlimit => atMost_of_not_less fun hless => hmin ?_,
          fun limit hlimit => atMost_of_not_less fun hless => hmax ?_⟩
        · rw [hlimit]
          exact decide_eq_true hless
        · rw [hlimit]
          exact decide_eq_true hless

-- What the code admits is in range exactly when the declared bounds are versions.
theorem inRange_iff (h : versionInRange version minimum maximum = true) :
    InRange version minimum maximum ↔
      (∀ bound ∈ minimum, parseVersion bound ≠ none) ∧ ∀ bound ∈ maximum, parseVersion bound ≠ none := by
  constructor
  · rintro ⟨v, -, hmin, hmax⟩
    constructor
    · intro bound hbound hnone
      obtain ⟨limit, hlimit, -⟩ := hmin bound hbound
      rw [hnone] at hlimit
      cases hlimit
    · intro bound hbound hnone
      obtain ⟨limit, hlimit, -⟩ := hmax bound hbound
      rw [hnone] at hlimit
      cases hlimit
  · rintro ⟨hmin, hmax⟩
    obtain ⟨v, hv, hlow, hhigh⟩ := versionInRange_parses h
    refine ⟨v, hv, fun bound hbound => ?_, fun bound hbound => ?_⟩
    · obtain ⟨limit, hlimit⟩ := Option.ne_none_iff_exists'.mp (hmin bound hbound)
      refine ⟨limit, hlimit, hlow limit ?_⟩
      rw [Option.mem_def.mp hbound, Option.bind_some, hlimit]
    · obtain ⟨limit, hlimit⟩ := Option.ne_none_iff_exists'.mp (hmax bound hbound)
      refine ⟨limit, hlimit, hhigh limit ?_⟩
      rw [Option.mem_def.mp hbound, Option.bind_some, hlimit]

end HelperManifest

namespace HelperManifest

open MeridianMcp Effects Fallible

structure HelperRequest where
  id : Text
  platform : Text
  targetArch : Text
  sourceRevision : Text
  protocolVersion : Option Nat
  byondVersion : Option Text
  deriving DecidableEq, Repr

structure OwnedPatchIdentity where
  name : Text
  patchSha256 : Text
  deriving DecidableEq, Repr

structure VerifiedHelper where
  id : Text
  path : Path String
  sha256 : Text
  sourceRevision : Text
  protocolVersion : Option Nat
  byondMinVersion : Option Text
  byondMaxVersion : Option Text
  patchSha256 : Option Text
  patches : List OwnedPatchIdentity
  deriving DecidableEq, Repr

inductive ManifestError where
  | io (e : IoError)
  | json
  | schema (version : Nat)
  | duplicateIdentity (id platform targetArch : Text)
  | noMatch (id platform targetArch : Text)
  | revision (id expected actual : Text)
  | protocol (id : Text) (expected : Nat) (actual : Option Nat)
  | byondVersion (id version : Text)
  | invalidChecksum (id : Text)
  | checksum (id : Text)
  | outsideManifestRoot (id : Text)
  deriving DecidableEq, Repr

structure RawEntry where
  id : Option Text
  platform : Text
  targetArch : Option Text
  path : Route String
  sha256 : Text
  sourceRevision : Text
  protocolVersion : Option Nat
  byondMinVersion : Option Text
  byondMaxVersion : Option Text
  patchSha256 : Option Text
  patches : List OwnedPatchIdentity
  deriving DecidableEq, Repr

structure RawManifest where
  schemaVersion : Nat
  helpers : List RawEntry
  deriving DecidableEq, Repr

structure Entry where
  id : Text
  platform : Text
  targetArch : Text
  path : Route String
  sha256 : Text
  sourceRevision : Text
  protocolVersion : Option Nat
  byondMinVersion : Option Text
  byondMaxVersion : Option Text
  patchSha256 : Option Text
  patches : List OwnedPatchIdentity
  deriving DecidableEq, Repr

-- The platform and the architecture behind its last hyphen.
def splitPlatform (platform : Text) : Text × Text :=
  match platform.reverse.span (· ≠ '-') with
  | (_, []) => (platform, [])
  | (arch, _ :: rest) => (rest.reverse, arch.reverse)

def RawEntry.legacy (entry : RawEntry) : Entry where
  id := "dmdoc".toList
  platform := (splitPlatform entry.platform).1
  targetArch := (splitPlatform entry.platform).2
  path := entry.path
  sha256 := entry.sha256
  sourceRevision := entry.sourceRevision
  protocolVersion := none
  byondMinVersion := none
  byondMaxVersion := none
  patchSha256 := none
  patches := []

def RawEntry.current (entry : RawEntry) : Entry where
  id := entry.id.getD []
  platform := entry.platform
  targetArch := entry.targetArch.getD []
  path := entry.path
  sha256 := entry.sha256
  sourceRevision := entry.sourceRevision
  protocolVersion := entry.protocolVersion
  byondMinVersion := entry.byondMinVersion
  byondMaxVersion := entry.byondMaxVersion
  patchSha256 := entry.patchSha256
  patches := entry.patches

def normalizeManifest (raw : RawManifest) : Except ManifestError (List Entry) :=
  match raw.schemaVersion with
  | 1 => .ok (raw.helpers.map RawEntry.legacy)
  | 2 => .ok (raw.helpers.map RawEntry.current)
  | schema => .error (.schema schema)

def Entry.identity (entry : Entry) : Text × Text × Text := (entry.id, entry.platform, entry.targetArch)

def validateUnique (identities : List (Text × Text × Text)) : List Entry → Except ManifestError Unit
  | [] => .ok ()
  | entry :: entries =>
    if entry.identity ∈ identities then
      .error (.duplicateIdentity entry.id entry.platform entry.targetArch)
    else validateUnique (entry.identity :: identities) entries

def validateUniqueIdentities (entries : List Entry) : Except ManifestError Unit := validateUnique [] entries

def asciiHexdigit (byte : UInt8) : Bool :=
  (48 ≤ byte && byte ≤ 57) || (65 ≤ byte && byte ≤ 70) || (97 ≤ byte && byte ≤ 102)

def isChecksum (text : Text) : Bool := (utf8 text).length = 64 && (utf8 text).all asciiHexdigit

section verified

variable (tree : LinkedTree String) (cwd : Path String) (sha256 : Bytes → Text)
  (fromSlice : Bytes → Option RawManifest)

def readFile (route : Route String) : Except IoError Bytes := do
  let path ← tree.resolve cwd route
  match tree.node path with
  | some (.file bytes) => .ok bytes
  | some .dir => .error .isADirectory
  | _ => .error .notFound

def loadManifest (manifestPath : Route String) : Except ManifestError RawManifest := do
  let bytes ← (readFile tree cwd manifestPath).mapError .io
  match fromSlice bytes with
  | some raw => .ok raw
  | none => .error .json

def HelperRequest.matches (request : HelperRequest) (entry : Entry) : Bool :=
  entry.id = request.id && entry.platform = request.platform && entry.targetArch = request.targetArch

def manifestDirectory (manifestPath : Route String) : Except IoError (Path String) :=
  tree.resolve cwd (manifestPath.parent.getD ⟨false, [.here]⟩)

def checkProtocol (entry : Entry) : Option Nat → Except ManifestError Unit
  | none => .ok ()
  | some expected =>
    ensure (entry.protocolVersion = some expected) (.protocol entry.id expected entry.protocolVersion)

def checkByondVersion (entry : Entry) : Option Text → Except ManifestError Unit
  | none => .ok ()
  | some version =>
    ensure (versionInRange version entry.byondMinVersion entry.byondMaxVersion)
      (.byondVersion entry.id version)

def checkEntry (request : HelperRequest) (entry : Entry) : Except ManifestError Unit := do
  ensure (entry.sourceRevision = request.sourceRevision)
    (.revision entry.id request.sourceRevision entry.sourceRevision)
  checkProtocol entry request.protocolVersion
  checkByondVersion entry request.byondVersion
  ensure (isChecksum entry.sha256) (.invalidChecksum entry.id)
  ensure ((entry.patchSha256.toList ++ entry.patches.map OwnedPatchIdentity.patchSha256).all isChecksum)
    (.invalidChecksum entry.id)
  ensure (entry.path.absolute = false ∧ .up ∉ entry.path.segs) (.outsideManifestRoot entry.id)

def resolveEntry (manifestPath : Route String) (entry : Entry) : Except ManifestError VerifiedHelper := do
  let manifestRoot ← (manifestDirectory tree cwd manifestPath).mapError .io
  let path ← (tree.resolve cwd ⟨true, manifestRoot.map .name ++ entry.path.segs⟩).mapError .io
  ensure (manifestRoot <+: path) (.outsideManifestRoot entry.id)
  let bytes ← (readFile tree cwd (.ofPath path)).mapError .io
  ensure (toAsciiLowercase (sha256 bytes) = toAsciiLowercase entry.sha256) (.checksum entry.id)
  pure
    { id := entry.id
      path
      sha256 := toAsciiLowercase entry.sha256
      sourceRevision := entry.sourceRevision
      protocolVersion := entry.protocolVersion
      byondMinVersion := entry.byondMinVersion
      byondMaxVersion := entry.byondMaxVersion
      patchSha256 := entry.patchSha256
      patches := entry.patches }

def verifiedHelper (manifestPath : Route String) (request : HelperRequest) :
    Except ManifestError VerifiedHelper := do
  let raw ← loadManifest tree cwd fromSlice manifestPath
  let entries ← normalizeManifest raw
  validateUniqueIdentities entries
  match entries.find? request.matches with
  | none => .error (.noMatch request.id request.platform request.targetArch)
  | some entry => do
    checkEntry request entry
    resolveEntry tree cwd sha256 manifestPath entry

end verified

end HelperManifest
