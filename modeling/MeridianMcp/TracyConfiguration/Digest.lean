import MeridianMcp.Delimited
import MeridianMcp.PrefixCode
import MeridianMcp.TracyConfiguration.Inspect
import MeridianMcp.WorkspaceIntegrity.Digest

namespace TracyConfiguration

open MeridianMcp Effects ByteWords Fallible PrefixCode Delimited
open PrettyJson (NulFree)
open WorkspaceIntegrity (not_mem_utf8)

-- The regular files below a directory with their paths from it.
def Listing.files : List Name → Listing → List (List Name × List UInt8)
  | _, .done => []
  | _, .failed _ => []
  | base, .file name value rest => (base ++ [name], value.bytes) :: rest.files base
  | base, .directory name contents rest => contents.files (base ++ [name]) ++ rest.files base
  | base, .symlink _ rest => rest.files base
  | base, .other _ rest => rest.files base

def written (file : List Name × List UInt8) : Text × List UInt8 := (relativeText file.1, file.2)

def contents (entry : Entry) : Text × List UInt8 := (entry.1, entry.2.bytes)

def Directory.files (directory : Directory) : List (List Name × List UInt8) :=
  directory.entries.files []

-- The files under the paths that the hasher is given.
def Directory.written (directory : Directory) : List (Text × List UInt8) :=
  directory.files.map TracyConfiguration.written

theorem collectFiles_ok {listing : Listing} {base : List Name} {files collected : List Entry}
    (h : collectFiles listing base files = .ok collected) :
    collected.map contents = files.map contents ++ (listing.files base).map written := by
  induction listing generalizing base files collected with
  | done =>
    obtain rfl := Except.ok.inj h
    exact (List.append_nil _).symm
  | failed e => cases h
  | file name file rest ih =>
    rw [collectFiles] at h
    split at h
    · cases h
    · rw [ih h, List.map_append, List.append_assoc]
      rfl
  | directory name contents rest ihcontents ihrest =>
    obtain ⟨inner, hinner, hrest⟩ := bind_ok h
    rw [ihrest hrest, ihcontents hinner, Listing.files, List.map_append, List.append_assoc]
  | symlink name rest ih => cases h
  | other name rest ih => exact ih h

theorem hashFiles_ok {fileCount : Nat} {files : List Entry} {hashed total : Nat × List UInt8}
    (h : hashFiles fileCount files hashed = .ok total) :
    total.2 = hashed.2 ++ (files.map contents).flatMap fileBytes ∧
      ∀ file ∈ files.map contents, file.2.length < 256 ^ 8 := by
  induction files generalizing hashed with
  | nil =>
    obtain rfl := Except.ok.inj h
    exact ⟨(List.append_nil _).symm, nofun⟩
  | cons entry files ih =>
    obtain ⟨relative, file⟩ := entry
    obtain ⟨totalBytes, bytes⟩ := hashed
    obtain ⟨-, -, h⟩ := bind_ok h
    rw [ensure_bind_ok_iff] at h
    obtain ⟨⟨-, hbound⟩, h⟩ := h
    obtain ⟨-, -, h⟩ := bind_ok h
    obtain ⟨hbytes, hlengths⟩ := ih h
    rw [List.map_cons, List.flatMap_cons, List.forall_mem_cons]
    refine ⟨hbytes.trans (List.append_assoc ..), ?_, hlengths⟩
    rw [maxConfigurationBytes] at hbound
    change file.bytes.length < 256 ^ 8
    omega

theorem sortFiles_perm (files : List Entry) : (sortFiles files).Perm files :=
  List.perm_insertionSort _ files

-- What an identity is computed from.
theorem inspect_hashed {sha256 : List UInt8 → List UInt8} {directory : Directory}
    {configuration : RuntimeConfiguration}
    (h : inspectRuntimeConfiguration sha256 directory = .ok configuration) :
    ∃ files : List (Text × List UInt8), files.Perm directory.written ∧
      (∀ file ∈ files, file.2.length < 256 ^ 8) ∧
      configuration.identity.directorySha256 = (hex (sha256 (files.flatMap fileBytes))).toList := by
  rw [inspectRuntimeConfiguration, ensure_bind_ok_iff] at h
  obtain ⟨-, h⟩ := h
  obtain ⟨path, -, h⟩ := bind_ok h
  obtain ⟨config, -, h⟩ := bind_ok h
  obtain ⟨keepAwake, -, h⟩ := bind_ok h
  rw [ensure_bind_ok_iff] at h
  obtain ⟨-, h⟩ := h
  obtain ⟨collected, hcollected, h⟩ := bind_ok h
  obtain ⟨⟨totalBytes, bytes⟩, hhashed, h⟩ := bind_ok h
  obtain rfl := Except.ok.inj h
  obtain ⟨hbytes, hlengths⟩ := hashFiles_ok hhashed
  replace hbytes : bytes = ((sortFiles collected).map contents).flatMap fileBytes := hbytes
  refine ⟨(sortFiles collected).map contents, ?_, hlengths, ?_⟩
  · have hfiles := collectFiles_ok hcollected
    rw [List.map_nil, List.nil_append] at hfiles
    exact ((sortFiles_perm collected).map contents).trans (List.Perm.of_eq hfiles)
  · rw [hbytes]

theorem fileBytes_prefixFree :
    PrefixFree (fun file => NulFree file.1 ∧ file.2.length < 256 ^ 8) fileBytes := by
  rintro ⟨path, bytes⟩ ⟨path', bytes'⟩ s t ⟨hpath, hlength⟩ ⟨hpath', hlength'⟩ h
  simp only [fileBytes, List.append_assoc, List.cons_append, List.nil_append] at h
  obtain ⟨hsame, hbehind⟩ := unique_stop (not_mem_utf8 hpath) (not_mem_utf8 hpath') h
  obtain ⟨hcount, hrest⟩ := List.append_inj hbehind
    ((length_leBytes 8 _).trans (length_leBytes 8 _).symm)
  obtain ⟨hbytes, hend⟩ := List.append_inj hrest (leBytes_injective hlength hlength' hcount)
  exact ⟨Prod.ext (utf8_injective hsame) hbytes, (List.cons.inj hend).2⟩

theorem inspect_injective {sha256 : List UInt8 → List UInt8} (hsha256 : Function.Injective sha256)
    {directory directory' : Directory} {configuration configuration' : RuntimeConfiguration}
    (hpaths : ∀ file ∈ directory.written, NulFree file.1)
    (hpaths' : ∀ file ∈ directory'.written, NulFree file.1)
    (h : inspectRuntimeConfiguration sha256 directory = .ok configuration)
    (h' : inspectRuntimeConfiguration sha256 directory' = .ok configuration')
    (hdigest : configuration.identity.directorySha256 = configuration'.identity.directorySha256) :
    directory.written.Perm directory'.written := by
  obtain ⟨files, hperm, hlengths, hsame⟩ := inspect_hashed h
  obtain ⟨files', hperm', hlengths', hsame'⟩ := inspect_hashed h'
  rw [hsame, hsame'] at hdigest
  have hbytes := hsha256 (hex_injective (String.toList_injective hdigest))
  have hfiles : files = files' := fileBytes_prefixFree.flatMap_injective
    (fun file => by simp [fileBytes])
    (fun file hfile => ⟨hpaths file (hperm.mem_iff.mp hfile), hlengths file hfile⟩)
    (fun file hfile => ⟨hpaths' file (hperm'.mem_iff.mp hfile), hlengths' file hfile⟩) hbytes
  exact hperm.symm.trans ((List.Perm.of_eq hfiles).trans hperm')

section Plain

-- Names that are UTF-8 and hold no separator of either kind.
def Plain (path : List Name) : Prop :=
  ∃ names : List Text, path = names.map utf8 ∧ ∀ name ∈ names, '/' ∉ name ∧ '\\' ∉ name

theorem utf8_intercalate (separator : Text) (names : List Text) :
    (utf8 separator).intercalate (names.map utf8) = utf8 (separator.intercalate names) := by
  induction names with
  | nil => rfl
  | cons name names ih =>
    cases names with
    | nil => rw [List.map_singleton, List.intercalate_singleton, List.intercalate_singleton]
    | cons next names =>
      rw [List.map_cons, List.map_cons, List.intercalate_cons_cons, List.intercalate_cons_cons,
        ← List.map_cons, ih, utf8_append, utf8_append]

theorem not_mem_intercalate {c : Char} {names : List Text} (hc : c ≠ '/')
    (h : ∀ name ∈ names, c ∉ name) : c ∉ ['/'].intercalate names := by
  induction names with
  | nil => exact List.not_mem_nil
  | cons name names ih =>
    rw [List.forall_mem_cons] at h
    cases names with
    | nil =>
      rw [List.intercalate_singleton]
      exact h.1
    | cons next names =>
      rw [List.intercalate_cons_cons, List.mem_append, List.mem_append, List.mem_singleton, not_or,
        not_or]
      exact ⟨⟨h.1, hc⟩, ih h.2⟩

theorem relativeText_plain {names : List Text} (h : ∀ name ∈ names, '\\' ∉ name) :
    relativeText (names.map utf8) = ['/'].intercalate names := by
  rw [relativeText, utf8_intercalate, fromUtf8Lossy_utf8,
    slashed_of_not_mem (not_mem_intercalate (by decide) h)]

theorem Plain.relativeText_injective {path path' : List Name} (h : Plain path) (h' : Plain path')
    (hne : path ≠ []) (hne' : path' ≠ []) (heq : relativeText path = relativeText path') :
    path = path' := by
  obtain ⟨names, rfl, hnames⟩ := h
  obtain ⟨names', rfl, hnames'⟩ := h'
  rw [relativeText_plain fun name hname => (hnames name hname).2,
    relativeText_plain fun name hname => (hnames' name hname).2] at heq
  have hsplit := congrArg (List.splitOn '/') heq
  rw [List.splitOn_intercalate '/' (fun name hname => (hnames name hname).1) (by simpa using hne),
    List.splitOn_intercalate '/' (fun name hname => (hnames' name hname).1)
      (by simpa using hne')] at hsplit
  rw [hsplit]

theorem files_ne_nil {listing : Listing} {base : List Name} :
    ∀ file ∈ listing.files base, file.1 ≠ [] := by
  induction listing generalizing base with
  | done => nofun
  | failed e => nofun
  | file name value rest ih =>
    rw [Listing.files, List.forall_mem_cons]
    exact ⟨by simp, ih⟩
  | directory name contents rest ihcontents ihrest =>
    rw [Listing.files, List.forall_mem_append]
    exact ⟨ihcontents, ihrest⟩
  | symlink name rest ih => exact ih
  | other name rest ih => exact ih

theorem files_of_written {directory directory' : Directory}
    (h : ∀ file ∈ directory.files, Plain file.1) (h' : ∀ file ∈ directory'.files, Plain file.1)
    (hwritten : directory.written.Perm directory'.written) {file : List Name × List UInt8}
    (hfile : file ∈ directory.files) : file ∈ directory'.files := by
  obtain ⟨file', hfile', heq⟩ :=
    List.mem_map.mp (hwritten.mem_iff.mp (List.mem_map_of_mem (f := written) hfile))
  obtain ⟨hpath, hbytes⟩ := Prod.mk.inj heq
  have hsame : file'.1 = file.1 := (h' file' hfile').relativeText_injective (h file hfile)
    (files_ne_nil file' hfile') (files_ne_nil file hfile) hpath
  rw [← Prod.ext hsame hbytes]
  exact hfile'

end Plain

def SameFiles (directory directory' : Directory) : Prop :=
  ∀ file, file ∈ directory.files ↔ file ∈ directory'.files

theorem digests_faithful (sha256 : List UInt8 → List UInt8) (hsha256 : Function.Injective sha256) :
    (∀ records records' : WorkspaceIntegrity.Records, (∀ path ∈ records.keys, NulFree path) →
      (∀ path ∈ records'.keys, NulFree path) →
      WorkspaceIntegrity.digestRecords sha256 records =
        WorkspaceIntegrity.digestRecords sha256 records' → records = records') ∧
    ∀ (directory directory' : Directory) (configuration configuration' : RuntimeConfiguration),
      (∀ file ∈ directory.written, NulFree file.1) →
      (∀ file ∈ directory'.written, NulFree file.1) →
      inspectRuntimeConfiguration sha256 directory = .ok configuration →
      inspectRuntimeConfiguration sha256 directory' = .ok configuration' →
      configuration.identity.directorySha256 = configuration'.identity.directorySha256 →
      directory.written.Perm directory'.written ∧
        ((∀ file ∈ directory.files, Plain file.1) → (∀ file ∈ directory'.files, Plain file.1) →
          SameFiles directory directory') := by
  constructor
  · intro records records' hpaths hpaths' h
    exact WorkspaceIntegrity.digestRecords_injective hsha256 hpaths hpaths' h
  · intro directory directory' configuration configuration' hpaths hpaths' h h' hdigest
    have hwritten := inspect_injective hsha256 hpaths hpaths' h h' hdigest
    refine ⟨hwritten, fun hplain hplain' file => ?_⟩
    exact ⟨files_of_written hplain hplain' hwritten, files_of_written hplain' hplain hwritten.symm⟩

def configText : List UInt8 := utf8 "RESUME_AFTER_INITIALIZATIONS".toList

def present (bytes : List UInt8) : ConfigurationFile := ⟨bytes, .ok (), .ok ()⟩

-- A directory with config.txt and what else is listed before it.
def configured (listed : Listing → Listing) : Directory where
  isDir := true
  canonicalize := .ok []
  regular name := if name = utf8 "config.txt".toList then some (present configText) else none
  entries := listed (.file (utf8 "config.txt".toList) (present configText) .done)

def nested (bytes : List UInt8) : Directory :=
  configured (.directory (utf8 ['a']) (.file (utf8 ['b']) (present bytes) .done))

def recorded (status : Text) : WorkspaceIntegrity.Records :=
  FinMap.empty.insert ['a'] ⟨true, none, none, none, some 0, status⟩

theorem nulFree_recorded (status : Text) : ∀ path ∈ (recorded status).keys, NulFree path := by
  intro path hpath
  rcases FinMap.mem_keys_insert.mp hpath with rfl | hnone
  · decide
  · cases hnone

theorem digests_faithful_edited :
    WorkspaceIntegrity.digestRecords id (recorded "clean".toList) ≠
        WorkspaceIntegrity.digestRecords id (recorded "edited".toList) ∧
      ∃ configuration configuration',
        inspectRuntimeConfiguration id (nested []) = .ok configuration ∧
        inspectRuntimeConfiguration id (nested [1]) = .ok configuration' ∧
        configuration.identity.directorySha256 ≠ configuration'.identity.directorySha256 := by
  obtain ⟨hrecords, hdirectories⟩ := digests_faithful id Function.injective_id
  constructor
  · intro h
    have hsame := hrecords _ _ (nulFree_recorded _) (nulFree_recorded _) h
    have hstatus := congrArg (fun records => (records.get ['a']).map (·.status)) hsame
    exact absurd hstatus (by decide)
  · obtain ⟨configuration, hconfiguration⟩ := exists_of_isOk
      (show (inspectRuntimeConfiguration id (nested [])).isOk = true by decide +kernel)
    obtain ⟨configuration', hconfiguration'⟩ := exists_of_isOk
      (show (inspectRuntimeConfiguration id (nested [1])).isOk = true by decide +kernel)
    refine ⟨configuration, configuration', hconfiguration, hconfiguration', fun hdigest => ?_⟩
    have hwritten := (hdirectories _ _ _ _ (by decide +kernel) (by decide +kernel) hconfiguration
      hconfiguration' hdigest).1
    exact absurd hwritten (by decide +kernel)

def backslashed : Directory :=
  configured (.file (utf8 ['a', '\\', 'b']) (present []))

theorem backslash_collides :
    ¬ ∀ (sha256 : List UInt8 → List UInt8), Function.Injective sha256 →
      ∀ (directory directory' : Directory) (configuration configuration' : RuntimeConfiguration),
        (∀ file ∈ directory.written, NulFree file.1) →
        (∀ file ∈ directory'.written, NulFree file.1) →
        inspectRuntimeConfiguration sha256 directory = .ok configuration →
        inspectRuntimeConfiguration sha256 directory' = .ok configuration' →
        configuration.identity.directorySha256 = configuration'.identity.directorySha256 →
        SameFiles directory directory' := by
  intro h
  have hsame : (inspectRuntimeConfiguration id backslashed).toOption =
      (inspectRuntimeConfiguration id (nested [])).toOption := by
    decide +kernel
  obtain ⟨configuration, hnested⟩ := exists_of_isOk
    (show (inspectRuntimeConfiguration id (nested [])).isOk = true by decide +kernel)
  obtain ⟨configuration', hbackslashed⟩ := exists_of_isOk
    (show (inspectRuntimeConfiguration id backslashed).isOk = true by decide +kernel)
  rw [hnested, hbackslashed] at hsame
  obtain rfl := Option.some.inj hsame
  have hfiles := h id Function.injective_id backslashed (nested []) _ _ (by decide +kernel)
    (by decide +kernel) hbackslashed hnested rfl ([utf8 ['a', '\\', 'b']], [])
  exact absurd (hfiles.mp (by decide)) (by decide)

end TracyConfiguration
