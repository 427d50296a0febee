import MeridianMcp.HelperManifest.Manifest
import MeridianMcp.PrettyJson

namespace HelperManifest

open MeridianMcp Effects Fallible

variable {tree : LinkedTree String} {cwd : Path String} {sha256 : Bytes → Text}
  {fromSlice : Bytes → Option RawManifest} {manifestPath : Route String} {request : HelperRequest}
  {raw : RawManifest} {entries : List Entry} {entry : Entry} {helper : VerifiedHelper}

-- The file that the helper names lies under the manifest's directory and has the declared checksum.
structure Placed (tree : LinkedTree String) (cwd : Path String) (sha256 : Bytes → Text)
    (manifestPath : Route String) (entry : Entry) (path : Path String) : Prop where
  under : ∃ directory, manifestDirectory tree cwd manifestPath = .ok directory ∧ directory <+: path
  hashes : ∃ bytes, tree.node path = some (.file bytes) ∧
    toAsciiLowercase (sha256 bytes) = toAsciiLowercase entry.sha256

-- The helper is the entry, under its place and with its checksum in lower case.
def VerifiedHelper.Is (helper : VerifiedHelper) (entry : Entry) : Prop :=
  helper = ⟨entry.id, helper.path, toAsciiLowercase entry.sha256, entry.sourceRevision,
    entry.protocolVersion, entry.byondMinVersion, entry.byondMaxVersion, entry.patchSha256, entry.patches⟩

def Supports (entry : Entry) (request : HelperRequest) : Prop :=
  ∀ version ∈ request.byondVersion, InRange version entry.byondMinVersion entry.byondMaxVersion

-- An entry that answers the request, but for the range of BYOND versions.
structure Matched (tree : LinkedTree String) (cwd : Path String) (sha256 : Bytes → Text)
    (manifestPath : Route String) (request : HelperRequest) (entries : List Entry) (entry : Entry)
    (helper : VerifiedHelper) : Prop where
  only : entries.filter request.matches = [entry]
  is : helper.Is entry
  revision : entry.sourceRevision = request.sourceRevision
  protocol : ∀ expected ∈ request.protocolVersion, entry.protocolVersion = some expected
  placed : Placed tree cwd sha256 manifestPath entry helper.path

def Admitted (tree : LinkedTree String) (cwd : Path String) (sha256 : Bytes → Text)
    (manifestPath : Route String) (request : HelperRequest) (entries : List Entry)
    (helper : VerifiedHelper) : Prop :=
  ∃ entry, Matched tree cwd sha256 manifestPath request entries entry helper ∧ Supports entry request

-- The bounds that the requested entry declares are versions, if it is asked for one.
def BoundsAreVersions (request : HelperRequest) (entries : List Entry) : Prop :=
  request.byondVersion.isSome → ∀ entry ∈ entries, request.matches entry = true →
    (∀ bound ∈ entry.byondMinVersion, parseVersion bound ≠ none) ∧
      ∀ bound ∈ entry.byondMaxVersion, parseVersion bound ≠ none

theorem validateUnique_ok {identities : List (Text × Text × Text)}
    (h : validateUnique identities entries = .ok ()) :
    (entries.map Entry.identity).Nodup ∧ ∀ entry ∈ entries, entry.identity ∉ identities := by
  induction entries generalizing identities with
  | nil => exact ⟨List.nodup_nil, fun _ h => by cases h⟩
  | cons entry entries ih =>
    rw [validateUnique] at h
    split at h
    · cases h
    · rename_i hnew
      obtain ⟨hnodup, hrest⟩ := ih h
      constructor
      · rw [List.map_cons, List.nodup_cons]
        refine ⟨fun hmem => ?_, hnodup⟩
        obtain ⟨other, hother, hsame⟩ := List.mem_map.mp hmem
        exact hrest other hother (by rw [hsame]; exact List.mem_cons_self ..)
      · intro other hother
        rcases List.mem_cons.mp hother with rfl | hother
        · exact hnew
        · exact fun hmem => hrest other hother (List.mem_cons_of_mem _ hmem)

theorem matches_identity (h : request.matches entry = true) :
    entry.identity = (request.id, request.platform, request.targetArch) := by
  simp only [HelperRequest.matches, Bool.and_eq_true, decide_eq_true_eq] at h
  obtain ⟨⟨hid, hplatform⟩, harch⟩ := h
  rw [Entry.identity, hid, hplatform, harch]

theorem find_only (hnodup : (entries.map Entry.identity).Nodup)
    (h : entries.find? request.matches = some entry) : entries.filter request.matches = [entry] := by
  induction entries with
  | nil => cases h
  | cons head entries ih =>
    rw [List.map_cons, List.nodup_cons] at hnodup
    cases hhead : request.matches head with
    | true =>
      rw [List.find?_cons_of_pos hhead] at h
      obtain rfl := Option.some.inj h
      have hrest : entries.filter request.matches = [] := by
        rw [List.filter_eq_nil_iff]
        intro other hother hmatches
        refine hnodup.1 (List.mem_map.mpr ⟨other, hother, ?_⟩)
        rw [matches_identity hmatches, matches_identity hhead]
      rw [List.filter_cons_of_pos hhead, hrest]
    | false =>
      rw [List.find?_cons_of_neg (by simp [hhead])] at h
      rw [List.filter_cons_of_neg (by simp [hhead])]
      exact ih hnodup.2 h

theorem checkEntry_ok (h : checkEntry request entry = .ok ()) :
    entry.sourceRevision = request.sourceRevision ∧
      (∀ expected ∈ request.protocolVersion, entry.protocolVersion = some expected) ∧
      ∀ version ∈ request.byondVersion,
        versionInRange version entry.byondMinVersion entry.byondMaxVersion = true := by
  simp only [checkEntry, bind_ok_iff] at h
  obtain ⟨_, hrevision, _, hprotocol, _, hbyond, -⟩ := h
  refine ⟨ensure_ok_iff.mp hrevision, fun expected hexpected => ?_, fun version hversion => ?_⟩
  · rw [Option.mem_def.mp hexpected] at hprotocol
    exact ensure_ok_iff.mp hprotocol
  · rw [Option.mem_def.mp hversion] at hbyond
    exact ensure_ok_iff.mp hbyond

theorem readFile_path {path : Path String} {bytes : Bytes} (hpath : tree.Canonical path)
    (h : readFile tree cwd (.ofPath path) = .ok bytes) : tree.node path = some (.file bytes) := by
  rw [readFile, LinkedTree.resolve_ofPath hpath] at h
  simp only [Except.bind, bind] at h
  split at h
  · rename_i hnode
    rw [hnode, Except.ok.inj h]
  · cases h
  · cases h

theorem resolveEntry_ok (h : resolveEntry tree cwd sha256 manifestPath entry = .ok helper) :
    helper.Is entry ∧ Placed tree cwd sha256 manifestPath entry helper.path := by
  simp only [resolveEntry, bind_ok_iff] at h
  obtain ⟨directory, hdirectory, path, hpath, _, hunder, bytes, hread, _, hhash, h⟩ := h
  obtain rfl := Except.ok.inj h
  have hcanonical := LinkedTree.resolve_canonical (mapError_ok hpath)
  exact ⟨rfl, ⟨directory, mapError_ok hdirectory, ensure_ok_iff.mp hunder⟩, bytes,
    readFile_path hcanonical (mapError_ok hread), ensure_ok_iff.mp hhash⟩

theorem verifiedHelper_ok
    (h : verifiedHelper tree cwd sha256 fromSlice manifestPath request = .ok helper) :
    ∃ raw entries entry, loadManifest tree cwd fromSlice manifestPath = .ok raw ∧
      normalizeManifest raw = .ok entries ∧
      Matched tree cwd sha256 manifestPath request entries entry helper ∧
      ∀ version ∈ request.byondVersion,
        versionInRange version entry.byondMinVersion entry.byondMaxVersion = true := by
  simp only [verifiedHelper, bind_ok_iff] at h
  obtain ⟨raw, hraw, entries, hentries, _, hunique, h⟩ := h
  split at h
  · cases h
  · rename_i entry hfind
    obtain ⟨_, hcheck, hresolve⟩ := bind_ok h
    obtain ⟨hrevision, hprotocol, hbyond⟩ := checkEntry_ok hcheck
    obtain ⟨his, hplaced⟩ := resolveEntry_ok hresolve
    exact ⟨raw, entries, entry, hraw, hentries,
      ⟨find_only (validateUnique_ok hunique).1 hfind, his, hrevision, hprotocol, hplaced⟩, hbyond⟩

theorem Matched.mem (h : Matched tree cwd sha256 manifestPath request entries entry helper) :
    entry ∈ entries ∧ request.matches entry = true := by
  rw [← List.mem_filter, h.only]
  exact List.mem_singleton_self entry

theorem admitted_iff (tree : LinkedTree String) (cwd : Path String) (sha256 : Bytes → Text)
    (fromSlice : Bytes → Option RawManifest) (manifestPath : Route String) (request : HelperRequest)
    (raw : RawManifest) (entries : List Entry) (helper : VerifiedHelper)
    (hraw : loadManifest tree cwd fromSlice manifestPath = .ok raw)
    (hentries : normalizeManifest raw = .ok entries)
    (h : verifiedHelper tree cwd sha256 fromSlice manifestPath request = .ok helper) :
    Admitted tree cwd sha256 manifestPath request entries helper ↔ BoundsAreVersions request entries := by
  obtain ⟨raw', entries', entry, hraw', hentries', hmatched, hrange⟩ := verifiedHelper_ok h
  obtain rfl := Except.ok.inj (hraw.symm.trans hraw')
  obtain rfl := Except.ok.inj (hentries.symm.trans hentries')
  have honly : ∀ other ∈ entries, request.matches other = true → other = entry := by
    intro other hother hmatches
    have hmem := List.mem_filter.mpr ⟨hother, hmatches⟩
    rwa [hmatched.only, List.mem_singleton] at hmem
  have hentry := hmatched.mem
  constructor
  · rintro ⟨other, hother, hsupports⟩ hsome
    obtain ⟨version, hversion⟩ := Option.isSome_iff_exists.mp hsome
    have hsame : [other] = [entry] := hother.only.symm.trans hmatched.only
    obtain rfl := (List.cons.inj hsame).1
    intro found hfound hmatches
    rw [honly found hfound hmatches]
    exact (inRange_iff (hrange version hversion)).mp (hsupports version hversion)
  · intro hbounds
    refine ⟨entry, hmatched, fun version hversion => (inRange_iff (hrange version hversion)).mpr ?_⟩
    exact hbounds (Option.isSome_iff_exists.mpr ⟨version, hversion⟩) entry hentry.1 hentry.2

section fixture

open PrettyJson

-- The SHA-256 of the byte 1.
def helperSha256 : Text := "4bf5122f344554c53bde2ebb8cd2b7e3d1600ad631c385a5d7cce23c7785459a".toList

def hashOne (bytes : Bytes) : Text := if bytes = [1] then helperSha256 else []

def manifestBytes (minimum : Text) : Bytes := utf8 (object
  [field "schema_version".toList (number 2),
    field "helpers".toList (array [object
      [field "id".toList (string "byond-tracy".toList),
        field "platform".toList (string "linux".toList),
        field "target_arch".toList (string "x86".toList),
        field "path".toList (string "hook.so".toList),
        field "sha256".toList (string helperSha256),
        field "source_revision".toList (string "r1".toList),
        field "byond_min_version".toList (string minimum)]])] 0)

def hookEntry (minimum : Text) : RawEntry where
  id := some "byond-tracy".toList
  platform := "linux".toList
  targetArch := some "x86".toList
  path := ⟨false, [.name "hook.so"]⟩
  sha256 := helperSha256
  sourceRevision := "r1".toList
  protocolVersion := none
  byondMinVersion := some minimum
  byondMaxVersion := none
  patchSha256 := none
  patches := []

def hookManifest (minimum : Text) : RawManifest := ⟨2, [hookEntry minimum]⟩

def parseHook (minimum : Text) (bytes : Bytes) : Option RawManifest :=
  if bytes = manifestBytes minimum then some (hookManifest minimum) else none

def hookTree (minimum : Text) : LinkedTree String :=
  (LinkedTree.empty.place [] "helpers.json" (.file (manifestBytes minimum)) (by decide) (by decide)).place
    [] "hook.so" (.file [1]) (by rfl) (by rfl)

def hookRequest : HelperRequest :=
  ⟨"byond-tracy".toList, "linux".toList, "x86".toList, "r1".toList, none, some "516.1685".toList⟩

def manifestRoute : Route String := ⟨true, [.name "helpers.json"]⟩

def hookHelper (minimum : Text) : VerifiedHelper :=
  ⟨"byond-tracy".toList, ["hook.so"], helperSha256, "r1".toList, none, some minimum, none, none, []⟩

theorem loadManifest_hook (minimum : Text) :
    loadManifest (hookTree minimum) [] (parseHook minimum) manifestRoute = .ok (hookManifest minimum) := by
  have hread : readFile (hookTree minimum) [] manifestRoute = .ok (manifestBytes minimum) := rfl
  rw [loadManifest, hread]
  simp only [Except.mapError, bind, Except.bind, parseHook, if_true]

theorem verifiedHelper_hook {minimum : Text}
    (h : versionInRange "516.1685".toList (some minimum) none = true) :
    verifiedHelper (hookTree minimum) [] hashOne (parseHook minimum) manifestRoute hookRequest =
      .ok (hookHelper minimum) := by
  have hcheck : checkEntry hookRequest (hookEntry minimum).current = .ok () := by
    simp only [checkEntry, bind_ok_iff]
    have hsha : isChecksum helperSha256 = true := by decide +kernel
    have hup : Seg.up ∉ [Seg.name "hook.so"] := by decide
    exact ⟨(), rfl, (), rfl, (), ensure_ok_iff.mpr h, (), ensure_ok_iff.mpr hsha, (), rfl,
      ensure_ok_iff.mpr ⟨rfl, hup⟩⟩
  have hresolve : resolveEntry (hookTree minimum) [] hashOne manifestRoute (hookEntry minimum).current =
      .ok (hookHelper minimum) := by
    simp only [resolveEntry, bind_ok_iff]
    exact ⟨[], rfl, ["hook.so"], rfl, (), rfl, [1], rfl, (), rfl, rfl⟩
  rw [verifiedHelper, loadManifest_hook]
  change (checkEntry hookRequest (hookEntry minimum).current).bind (fun _ => resolveEntry (hookTree minimum)
    [] hashOne manifestRoute (hookEntry minimum).current) = _
  rw [hcheck]
  exact hresolve

theorem admitted_hook : Admitted (hookTree "516.1680".toList) [] hashOne manifestRoute hookRequest
    [(hookEntry "516.1680".toList).current] (hookHelper "516.1680".toList) := by
  have hiff := admitted_iff (hookTree "516.1680".toList) [] hashOne (parseHook "516.1680".toList)
    manifestRoute hookRequest (hookManifest "516.1680".toList) [(hookEntry "516.1680".toList).current]
    (hookHelper "516.1680".toList) (loadManifest_hook _) rfl (verifiedHelper_hook (by decide +kernel))
  refine hiff.mpr fun _ entry hentry _ => ?_
  rw [List.mem_singleton] at hentry
  subst hentry
  refine ⟨fun bound hbound => ?_, fun _ hbound => by cases hbound⟩
  obtain rfl := Option.some.inj hbound
  decide +kernel

theorem malformed_bound_admits :
    verifiedHelper (hookTree "516.x".toList) [] hashOne (parseHook "516.x".toList) manifestRoute
        hookRequest = .ok (hookHelper "516.x".toList) ∧
      ¬ Admitted (hookTree "516.x".toList) [] hashOne manifestRoute hookRequest
        [(hookEntry "516.x".toList).current] (hookHelper "516.x".toList) := by
  refine ⟨verifiedHelper_hook (by decide +kernel), ?_⟩
  rintro ⟨entry, hmatched, hsupports⟩
  obtain rfl := List.mem_singleton.mp hmatched.mem.1
  obtain ⟨_, -, hminimum, -⟩ := hsupports _ rfl
  obtain ⟨limit, hlimit, -⟩ := hminimum _ rfl
  have hnone : parseVersion "516.x".toList = none := by decide +kernel
  rw [hnone] at hlimit
  cases hlimit

end fixture

end HelperManifest
