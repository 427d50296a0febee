import MeridianMcp.DmiDecode.Inflated
import MeridianMcp.Utf8

namespace DmiDecode

open MeridianMcp Dmi Effects Machine Fallible

-- u32::from_be_bytes
def fromBeBytes (bytes : Bytes) : Nat := bytes.foldl (fun n byte => n * 256 + byte.toNat) 0

def invalid {α : Type} (message : String) : Run DmiError α := fail (.invalid message)

def signature : Bytes := [0x89, 0x50, 0x4e, 0x47, 0x0d, 0x0a, 0x1a, 0x0a]

def headerStart : Bytes := [0, 0, 0, 13, 0x49, 0x48, 0x44, 0x52]

def tEXt : Bytes := [0x74, 0x45, 0x58, 0x74]

def zTXt : Bytes := [0x7a, 0x54, 0x58, 0x74]

def acTL : Bytes := [0x61, 0x63, 0x54, 0x4c]

def fcTL : Bytes := [0x66, 0x63, 0x54, 0x4c]

def fdAT : Bytes := [0x66, 0x64, 0x41, 0x54]

def IDAT : Bytes := [0x49, 0x44, 0x41, 0x54]

def IEND : Bytes := [0x49, 0x45, 0x4e, 0x44]

def descriptionKey : Bytes := utf8 "Description".toList

def dimensions (limits : ServerLimits) (bytes : Bytes) : Run DmiError (Nat × Nat × Nat) := do
  if bytes.length < 33 then invalid "missing PNG image header"
  else
    let start ← slice bytes 0 8
    let header ← slice bytes 8 16
    if start ≠ signature ∨ header ≠ headerStart then invalid "missing PNG image header"
    else
      let width := fromBeBytes (← slice bytes 16 20)
      let height := fromBeBytes (← slice bytes 20 24)
      if width = 0 ∨ height = 0 then invalid "empty PNG dimensions"
      else
        let pixels ← mul width height
        if limits.maxDmiDecodedPixels < pixels then fail (.limit "max_dmi_decoded_pixels")
        else
          match checkedMul pixels 4 with
          | some decoded => .ok (width, height, decoded)
          | none => fail (.limit "max_dmi_decoded_pixels")

-- A chunk of the file: where its length field stands, the length, and the kind.
structure Chunk where
  offset : Nat
  length : Nat
  kind : Bytes
  deriving DecidableEq, Repr

def Chunk.stop (chunk : Chunk) : Nat := chunk.offset + 12 + chunk.length

-- The header of the chunk at an offset, held against the end of the file.
def checkedChunk (bytes : Bytes) (offset : Nat) : Run DmiError Chunk :=
  match get? bytes offset (Machine.saturatingAdd offset 8) with
  | none => invalid "truncated PNG chunk"
  | some header =>
    let length := fromBeBytes (header.take 4)
    match ((checkedAdd offset 12).bind (checkedAdd · length)).filter (· ≤ bytes.length) with
    | none => invalid "truncated PNG chunk"
    | some _ => .ok ⟨offset, length, header.drop 4⟩

inductive BoundedDecompressionError where
  | outputTooLarge
  | decompressionError
  deriving DecidableEq, Repr

-- The inflater of the compressed streams and the check of UTF-8 texts.
structure Codec where
  decompress : Bytes → Nat → Except BoundedDecompressionError Bytes
  fromUtf8 : Bytes → Option Text

variable (codec : Codec)

def descriptionText (limit : Nat) (kind value : Bytes) : Run DmiError Text :=
  let decoded : Run DmiError Bytes :=
    if kind = tEXt then
      if limit < value.length then fail (.limit "max_dmi_metadata_bytes") else .ok value
    else if value.head? ≠ some 0 then invalid "unsupported DMI text compression"
    else do
      match codec.decompress (← slice value 1 value.length) limit with
      | .ok decoded => .ok decoded
      | .error .outputTooLarge => fail (.limit "max_dmi_metadata_bytes")
      | .error .decompressionError => invalid "invalid compressed DMI metadata"
  do
    match codec.fromUtf8 (← decoded) with
    | some text => .ok text
    | none => invalid "DMI metadata is not UTF-8"

def chunkDescription (limit : Nat) (chunk : Chunk) (data : Bytes) : Run DmiError (Option Text) :=
  if chunk.kind = tEXt ∨ chunk.kind = zTXt then
    match data.findIdx? (· = 0) with
    | none => .ok none
    | some separator => do
      let key ← slice data 0 separator
      let value ← slice data (separator + 1) data.length
      if key = descriptionKey then
        let text ← descriptionText codec limit chunk.kind value
        .ok (some text)
      else .ok none
  else .ok none

def descriptionFrom (bytes : Bytes) (limit : Nat) : Nat → Nat → Run DmiError (Option Text)
  | 0, _ => .error .unfinished
  | rounds + 1, offset =>
    if offset < bytes.length then do
      let chunk ← checkedChunk bytes offset
      let data ← slice bytes (← add offset 8) (← sub chunk.stop 4)
      match ← chunkDescription codec limit chunk data with
      | some text => .ok (some text)
      | none => if chunk.kind = IEND then .ok none else descriptionFrom bytes limit rounds chunk.stop
    else .ok none

def description (bytes : Bytes) (limit : Nat) : Run DmiError (Option Text) :=
  descriptionFrom codec bytes limit (bytes.length + 1) 8

def countIdat (chunk : Chunk) (encodedLen : Nat) : Run DmiError Nat :=
  if chunk.kind = IDAT then add encodedLen chunk.length else .ok encodedLen

-- The first walk, with the chunks that it has looked at.
def validateFrom (bytes : Bytes) : Nat → Nat → Nat → Run DmiError (List Chunk × Nat)
  | 0, _, _ => .error .unfinished
  | rounds + 1, offset, encodedLen =>
    if offset < bytes.length then do
      let chunk ← checkedChunk bytes offset
      if chunk.kind = acTL ∨ chunk.kind = fcTL ∨ chunk.kind = fdAT then
        invalid "animated PNG is not supported as DMI"
      else
        let encodedLen ← countIdat chunk encodedLen
        if chunk.kind = IEND then .ok ([chunk], encodedLen)
        else
          let (chunks, encodedLen) ← validateFrom bytes rounds chunk.stop encodedLen
          .ok (chunk :: chunks, encodedLen)
    else .ok ([], encodedLen)

def appendIdat (bytes : Bytes) (chunk : Chunk) (encoded : Bytes) : Run DmiError Bytes :=
  if chunk.kind = IDAT then do
    let start ← add chunk.offset 8
    let payload ← slice bytes start (← add start chunk.length)
    .ok (encoded ++ payload)
  else .ok encoded

-- The second walk, which slices without a check, with the chunks that it visits.
def assembleFrom (bytes : Bytes) : Nat → Nat → Bytes → Run DmiError (List Chunk × Bytes)
  | 0, _, _ => .error .unfinished
  | rounds + 1, offset, encoded =>
    if offset < bytes.length then do
      let length := fromBeBytes (← slice bytes offset (← add offset 4))
      let kind ← slice bytes (← add offset 4) (← add offset 8)
      let chunk : Chunk := ⟨offset, length, kind⟩
      let encoded ← appendIdat bytes chunk encoded
      if kind = IEND then .ok ([chunk], encoded)
      else
        let (chunks, encoded) ← assembleFrom bytes rounds (← add offset (← add length 12)) encoded
        .ok (chunk :: chunks, encoded)
    else .ok ([], encoded)

def channelsOf (colorType : UInt8) : Run DmiError Nat :=
  if colorType = 0 ∨ colorType = 3 then .ok 1
  else if colorType = 2 then .ok 3
  else if colorType = 4 then .ok 2
  else if colorType = 6 then .ok 4
  else invalid "unsupported PNG color type"

def boundedImageStream (limits : ServerLimits) (bytes : Bytes) : Run DmiError Unit := do
  let (width, height, _) ← dimensions limits bytes
  let channels ← channelsOf (← index bytes 25)
  let bits ← mul channels (← index bytes 24).toNat
  let expected ← expectedSize limits width height bits (← index bytes 28).toNat
  let _ ← validateFrom bytes (bytes.length + 1) 8 0
  let (_, encoded) ← assembleFrom bytes (bytes.length + 1) 8 []
  match codec.decompress encoded expected with
  | .error .outputTooLarge => fail (.limit "max_dmi_decoded_pixels")
  | .error .decompressionError => invalid "invalid PNG image compression"
  | .ok filtered =>
    if filtered.length ≠ expected then invalid "PNG image data does not match dimensions"
    else .ok ()

end DmiDecode
