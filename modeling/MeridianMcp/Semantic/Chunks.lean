import MeridianMcp.BuildProvenance.Preparation
import MeridianMcp.ByteWords
import MeridianMcp.LossyUtf8
import MeridianMcp.Machine
import MeridianMcp.Windows

namespace Semantic

open MeridianMcp ByteWords Machine Windows
open BuildProvenance (lines not_mem_lines)

def semanticChunkSchemaVersion : Nat := 1

def chunkLines : Nat := 40

def chunkOverlapLines : Nat := 5

inductive Component where
  | rootDir
  | curDir
  | parentDir
  | normal (name : List UInt8)
  deriving DecidableEq

abbrev PathBuf := List Component

structure SemanticDocumentInput where
  kind : Text
  symbol : Text
  implementationOwner : Option Text
  declarationOwner : Option Text
  file : PathBuf
  line : Nat
  column : Nat
  overrideIndex : Option Nat
  docs : Text
  source : Option Text

structure SemanticChunkRecord where
  schemaVersion : Nat
  chunkId : Text
  documentId : Text
  contentDigest : Text
  chunkIndex : Nat
  kind : Text
  symbol : Text
  implementationOwner : Option Text
  declarationOwner : Option Text
  repositoryRelativeFile : Text
  line : Nat
  column : Nat
  text : Text
  deriving DecidableEq

def Component.bytes : Component → List UInt8
  | .rootDir => []
  | .curDir => utf8 ['.']
  | .parentDir => utf8 ['.', '.']
  | .normal name => name

def toStringLossy (path : PathBuf) : Text :=
  fromUtf8Lossy (if path = [.rootDir] then utf8 ['/']
    else (utf8 ['/']).intercalate (path.map Component.bytes))

def outsideRoot (file repositoryRoot : PathBuf) : Text :=
  "semantic source ".toList ++ toStringLossy file ++ " is outside repository root ".toList ++
    toStringLossy repositoryRoot

def repositoryRelativePath (file repositoryRoot : PathBuf) : Except Text Text :=
  if repositoryRoot.isPrefixOf file then
    let relative := file.drop repositoryRoot.length
    if relative = [] ∨ .parentDir ∈ relative ∨ .rootDir ∈ relative then
      .error "semantic source path must be repository-relative".toList
    else .ok (slashed (toStringLossy relative))
  else .error (outsideRoot file repositoryRoot)

def toDecimal (n : Nat) : Text := Nat.toDigits 10 n

def digestParts (sha256 : List UInt8 → List UInt8) (parts : List Text) : Text :=
  (hex (sha256 (parts.flatMap fun part => beBytes 8 (utf8 part).length ++ utf8 part))).toList

def joinLines (lines : List Text) : Text := ['\n'].intercalate lines

def semanticText (document : SemanticDocumentInput) : Text :=
  joinLines ([some document.symbol,
    if document.docs = [] then none else some document.docs,
    document.source.filter (· ≠ [])].filterMap id)

section Build

variable (sha256 : List UInt8 → List UInt8)

def documentId (document : SemanticDocumentInput) (relativeFile : Text) : Text :=
  digestParts sha256 ["semantic-document".toList, toDecimal semanticChunkSchemaVersion,
    document.kind, document.symbol, document.implementationOwner.getD [],
    document.declarationOwner.getD [], relativeFile, toDecimal document.line,
    toDecimal document.column, (document.overrideIndex.map toDecimal).getD "none".toList]

def chunkRecord (document : SemanticDocumentInput) (relativeFile : Text) (chunkIndex : Nat)
    (chunkText : Text) : SemanticChunkRecord where
  schemaVersion := semanticChunkSchemaVersion
  chunkId := digestParts sha256 ["semantic-chunk".toList, documentId sha256 document relativeFile,
    toDecimal chunkIndex]
  documentId := documentId sha256 document relativeFile
  contentDigest := digestParts sha256 ["semantic-content".toList, chunkText]
  chunkIndex := chunkIndex
  kind := document.kind
  symbol := document.symbol
  implementationOwner := document.implementationOwner
  declarationOwner := document.declarationOwner
  repositoryRelativeFile := relativeFile
  line := document.line
  column := document.column
  text := chunkText

def tooManyChunks : Text := "semantic document has too many chunks".toList

def chunkLoop (record : Nat → Text → SemanticChunkRecord) (lines : List Text) :
    Nat → List SemanticChunkRecord → Nat → Run Text (List SemanticChunkRecord)
  | 0, _, _ => .error .unfinished
  | rounds + 1, chunks, start =>
    if start < lines.length then do
      let reach ← add start chunkLines
      let stop := min lines.length reach
      let piece ← slice lines start stop
      if chunks.length < 2 ^ 32 then
        let chunks := chunks ++ [record chunks.length (joinLines piece)]
        if stop = lines.length then .ok chunks
        else do
          let next ← sub stop chunkOverlapLines
          chunkLoop record lines rounds chunks next
      else fail tooManyChunks
    else .ok chunks

-- Each round that does not end the loop moves the start on, so as many rounds as lines will do.
def buildSemanticChunks (document : SemanticDocumentInput) (repositoryRoot : PathBuf) :
    Run Text (List SemanticChunkRecord) := do
  let relativeFile ← lift (repositoryRelativePath document.file repositoryRoot)
  let lines := lines (semanticText document)
  chunkLoop (chunkRecord sha256 document relativeFile) lines (lines.length + 1) [] 0

end Build

def Starting (lines : List Text) (i : Nat) : Prop :=
  Starts chunkLines chunkOverlapLines lines.length i

def chunkAt (record : Nat → Text → SemanticChunkRecord) (lines : List Text) (i : Nat) :
    SemanticChunkRecord :=
  record i (joinLines (window chunkLines chunkOverlapLines lines i))

def chunksOf (record : Nat → Text → SemanticChunkRecord) (lines : List Text) (count : Nat) :
    List SemanticChunkRecord :=
  (List.range count).map (chunkAt record lines)

section Loop

variable {record : Nat → Text → SemanticChunkRecord} {lines : List Text} {count : Nat}

theorem chunksOf_succ :
    chunksOf record lines (count + 1) = chunksOf record lines count ++
      [chunkAt record lines count] := by
  rw [chunksOf, List.range_succ, List.map_append, List.map_singleton]
  rfl

@[simp] theorem length_chunksOf : (chunksOf record lines count).length = count := by
  rw [chunksOf, List.length_map, List.length_range]

theorem slice_window (hstart : 35 * count < lines.length) :
    (slice lines (35 * count) (min lines.length (35 * count + chunkLines)) : Run Text (List Text)) =
      .ok (window chunkLines chunkOverlapLines lines count) := by
  have hpiece : (lines.drop (35 * count)).take (min lines.length (35 * count + 40) - 35 * count) =
      (lines.drop (35 * count)).take 40 := by
    rw [List.take_eq_take_iff, List.length_drop]
    omega
  rw [chunkLines, slice_ok (by omega) (Nat.min_le_left ..), List.drop_take, hpiece]
  rfl

theorem starting_zero : Starting lines 0 ↔ 0 < lines.length := Iff.rfl

theorem starting_succ (i : Nat) : Starting lines (i + 1) ↔ 35 * i + 40 < lines.length :=
  starts_succ (by decide)

theorem Starting.start {i : Nat} (h : Starting lines i) : 35 * i < lines.length :=
  Nat.lt_of_le_of_lt (Nat.le_add_right ..) h

inductive Looped (record : Nat → Text → SemanticChunkRecord) (lines : List Text) :
    Run Text (List SemanticChunkRecord) → Prop where
  | chunked {total : Nat} (htotal : total ≤ 2 ^ 32) (hstarts : ∀ i < total, Starting lines i)
      (hend : ¬ Starting lines total) : Looped record lines (.ok (chunksOf record lines total))
  | refused (hmany : Starting lines (2 ^ 32)) : Looped record lines (fail tooManyChunks)

theorem chunkLoop_looped {rounds : Nat} (hpos : 0 < rounds)
    (hrounds : lines.length < rounds + 35 * count) (hcount : count ≤ 2 ^ 32)
    (hstarts : ∀ i < count, Starting lines i)
    (hnext : 35 * count < lines.length → Starting lines count) :
    Looped record lines
      (chunkLoop record lines rounds (chunksOf record lines count) (35 * count)) := by
  induction rounds generalizing count with
  | zero => exact absurd hpos (Nat.lt_irrefl 0)
  | succ rounds ih =>
    rw [chunkLoop]
    split
    · rename_i hstart
      have hall : ∀ i < count + 1, Starting lines i := fun i hi =>
        (Nat.lt_succ_iff_lt_or_eq.mp hi).elim (hstarts i) fun heq => heq ▸ hnext hstart
      have hword : 35 * count + chunkLines < wordSize := by
        rw [chunkLines, wordSize]
        omega
      rw [add_ok hword, ok_bind]
      dsimp only
      rw [slice_window hstart, ok_bind, length_chunksOf]
      split
      · rename_i hfew
        have hrecord : chunksOf record lines count ++
            [record count (joinLines (window chunkLines chunkOverlapLines lines count))] =
            chunksOf record lines (count + 1) := chunksOf_succ.symm
        rw [hrecord]
        split
        · rename_i hstop
          refine .chunked hfew hall fun h => ?_
          rw [starting_succ] at h
          rw [chunkLines] at hstop
          omega
        · rename_i hstop
          have hlong : 35 * count + 40 < lines.length := by
            rw [chunkLines] at hstop
            omega
          have hsub : min lines.length (35 * count + chunkLines) - chunkOverlapLines =
              35 * (count + 1) := by
            rw [chunkLines, chunkOverlapLines]
            omega
          rw [sub_ok (by rw [chunkLines, chunkOverlapLines]; omega), ok_bind, hsub]
          exact ih (by omega) (by omega) hfew hall fun _ => (starting_succ count).mpr hlong
      · rename_i hmany
        obtain rfl : count = 2 ^ 32 := Nat.le_antisymm hcount (Nat.not_lt.mp hmany)
        exact .refused (hnext hstart)
    · rename_i hstart
      exact .chunked hcount hstarts fun h => hstart h.start

end Loop

-- The file is below the repository's root, and its path from there does not step back.
def Within (repositoryRoot file : PathBuf) : Prop :=
  ∃ relative, file = repositoryRoot ++ relative ∧ relative ≠ [] ∧ .parentDir ∉ relative ∧
    .rootDir ∉ relative

theorem repositoryRelativePath_ok {file repositoryRoot : PathBuf} :
    (∃ relativeFile, repositoryRelativePath file repositoryRoot = .ok relativeFile) ↔
      Within repositoryRoot file := by
  rw [repositoryRelativePath]
  constructor
  · rintro ⟨relativeFile, h⟩
    split at h
    · rename_i hprefix
      obtain ⟨relative, rfl⟩ := List.isPrefixOf_iff_prefix.mp hprefix
      rw [List.drop_left] at h
      dsimp only at h
      split at h
      · cases h
      · rename_i hrelative
        rw [not_or, not_or] at hrelative
        exact ⟨relative, rfl, hrelative⟩
    · cases h
  · rintro ⟨relative, rfl, hne, hparent, hroot⟩
    rw [if_pos (List.isPrefixOf_iff_prefix.mpr (List.prefix_append ..)), List.drop_left]
    dsimp only
    rw [if_neg (not_or.mpr ⟨hne, not_or.mpr ⟨hparent, hroot⟩⟩)]
    exact ⟨_, rfl⟩

def SemanticChunkRecord.lines (chunk : SemanticChunkRecord) : List Text := chunk.text.splitOn '\n'

structure Chunked (lines : List Text) (chunks : List SemanticChunkRecord) : Prop where
  numbered : chunks.map SemanticChunkRecord.chunkIndex = List.range chunks.length
  tiled : Tiles chunkLines chunkOverlapLines lines (chunks.map SemanticChunkRecord.lines)

section Chunks

variable {sha256 : List UInt8 → List UInt8} {document : SemanticDocumentInput}
  {relativeFile : Text} {lines : List Text}

theorem lines_chunkAt (hlines : ∀ line ∈ lines, '\n' ∉ line) {i : Nat} (h : Starting lines i) :
    (chunkAt (chunkRecord sha256 document relativeFile) lines i).lines =
      window chunkLines chunkOverlapLines lines i := by
  have hstart := h.start
  refine List.splitOn_intercalate '\n' (fun line hline => ?_) fun hempty => ?_
  · exact hlines line (List.mem_of_mem_drop (List.mem_of_mem_take hline))
  · have hlength := congrArg List.length hempty
    rw [length_window] at hlength
    simp only [chunkLines, chunkOverlapLines, List.length_nil] at hlength
    omega

theorem chunked_chunksOf {total : Nat} (hlines : ∀ line ∈ lines, '\n' ∉ line)
    (hstarts : ∀ i < total, Starting lines i) (hend : ¬ Starting lines total) :
    Chunked lines (chunksOf (chunkRecord sha256 document relativeFile) lines total) where
  numbered := by
    rw [length_chunksOf, chunksOf, List.map_map]
    exact List.map_id _
  tiled := by
    have hpieces : (chunksOf (chunkRecord sha256 document relativeFile) lines total).map
        SemanticChunkRecord.lines = windows chunkLines chunkOverlapLines lines total := by
      rw [chunksOf, List.map_map]
      exact List.map_congr_left fun i hi =>
        lines_chunkAt hlines (hstarts i (List.mem_range.mp hi))
    rw [hpieces]
    exact tiles_windows (by decide) hstarts hend

end Chunks

section Build

variable {sha256 : List UInt8 → List UInt8} {document : SemanticDocumentInput}
  {repositoryRoot : PathBuf} {relativeFile refusal : Text}

theorem build_refused (h : repositoryRelativePath document.file repositoryRoot = .error refusal) :
    buildSemanticChunks sha256 document repositoryRoot = fail refusal := by
  rw [buildSemanticChunks, h]
  rfl

theorem build_looped (h : repositoryRelativePath document.file repositoryRoot = .ok relativeFile) :
    Looped (chunkRecord sha256 document relativeFile) (lines (semanticText document))
      (buildSemanticChunks sha256 document repositoryRoot) := by
  have hlooped := @chunkLoop_looped (chunkRecord sha256 document relativeFile)
    (lines (semanticText document)) 0 ((lines (semanticText document)).length + 1)
    (Nat.succ_pos _) (Nat.lt_succ_self _) (Nat.zero_le _) nofun id
  rw [buildSemanticChunks, h]
  exact hlooped

theorem starting_last {lines : List Text} :
    Starting lines (2 ^ 32) ↔ 35 * 2 ^ 32 + 5 < lines.length := by
  rw [show 2 ^ 32 = 4294967295 + 1 from rfl, starting_succ]

theorem Looped.chunks {lines : List Text} {run : Run Text (List SemanticChunkRecord)}
    (h : Looped (chunkRecord sha256 document relativeFile) lines run)
    (hlines : ∀ line ∈ lines, '\n' ∉ line) :
    Sound run ∧ ((∃ chunks, run = .ok chunks) ↔ lines.length ≤ 35 * 2 ^ 32 + 5) ∧
      ∀ chunks, run = .ok chunks → Chunked lines chunks := by
  cases h with
  | chunked htotal hstarts hend =>
    refine ⟨sound_ok _, iff_of_true ⟨_, rfl⟩ ?_, ?_⟩
    · exact Nat.not_lt.mp fun hlong => hend ((starting_last.mpr hlong).of_le htotal)
    · rintro chunks heq
      obtain rfl := Except.ok.inj heq
      exact chunked_chunksOf hlines hstarts hend
  | refused hmany =>
    exact ⟨sound_fail _, iff_of_false nofun (Nat.not_le.mpr (starting_last.mp hmany)), nofun⟩

end Build

theorem chunks_tile (sha256 : List UInt8 → List UInt8) (document : SemanticDocumentInput)
    (repositoryRoot : PathBuf) :
    Sound (buildSemanticChunks sha256 document repositoryRoot) ∧
      ((∃ chunks, buildSemanticChunks sha256 document repositoryRoot = .ok chunks) ↔
        Within repositoryRoot document.file ∧
          (lines (semanticText document)).length ≤ 35 * 2 ^ 32 + 5) ∧
      ∀ chunks, buildSemanticChunks sha256 document repositoryRoot = .ok chunks →
        Chunked (lines (semanticText document)) chunks := by
  rw [← repositoryRelativePath_ok]
  cases hpath : repositoryRelativePath document.file repositoryRoot with
  | error refusal =>
    rw [build_refused hpath]
    exact ⟨sound_fail _, iff_of_false nofun nofun, nofun⟩
  | ok relativeFile =>
    obtain ⟨hsound, hcount, hchunks⟩ :=
      (@build_looped sha256 _ _ _ hpath).chunks (not_mem_lines (semanticText document))
    exact ⟨hsound, hcount.trans (and_iff_right ⟨relativeFile, rfl⟩).symm, hchunks⟩

def mainDocument : SemanticDocumentInput where
  kind := "proc".toList
  symbol := "/proc/main".toList
  implementationOwner := none
  declarationOwner := none
  file := [.rootDir, .normal (utf8 "main.dm".toList)]
  line := 1
  column := 1
  overrideIndex := none
  docs := []
  source := none

theorem main_document_chunked :
    ∃ chunks, buildSemanticChunks id mainDocument [.rootDir] = .ok chunks ∧
      Chunked (lines (semanticText mainDocument)) chunks := by
  have hwithin : Within [.rootDir] mainDocument.file :=
    ⟨[.normal (utf8 "main.dm".toList)], rfl, by decide, by decide, by decide⟩
  obtain ⟨-, hbuilt, hchunks⟩ := chunks_tile id mainDocument [.rootDir]
  obtain ⟨chunks, hok⟩ := hbuilt.mpr ⟨hwithin, by decide⟩
  exact ⟨chunks, hok, hchunks chunks hok⟩

theorem stray_document_refused :
    ¬ ∀ (document : SemanticDocumentInput) (repositoryRoot : PathBuf),
      ∃ chunks, buildSemanticChunks id document repositoryRoot = .ok chunks ∧
        Chunked (lines (semanticText document)) chunks := by
  intro h
  obtain ⟨chunks, hchunks, -⟩ :=
    h mainDocument [.rootDir, .normal (utf8 "repository".toList)]
  have hrefused : repositoryRelativePath mainDocument.file
      [.rootDir, .normal (utf8 "repository".toList)] =
      .error (outsideRoot mainDocument.file [.rootDir, .normal (utf8 "repository".toList)]) :=
    if_neg (by decide)
  rw [build_refused hrefused] at hchunks
  cases hchunks

end Semantic
