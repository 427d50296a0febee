import MeridianMcp.DmiDecode.Demands
import MeridianMcp.DmiDecode.Stream

namespace DmiDecode

open MeridianMcp Dmi Effects Machine Fallible

inductive ColorType where
  | grayscale
  | rgb
  | indexed
  | grayscaleAlpha
  | rgba
  deriving DecidableEq, Repr

def ColorType.samples : ColorType → Nat
  | grayscale => 1
  | rgb => 3
  | indexed => 1
  | grayscaleAlpha => 2
  | rgba => 4

inductive DecodingError where
  | limitsExceeded
  | other (message : String)
  deriving DecidableEq, Repr

def pngError : DecodingError → DmiError
  | .limitsExceeded => .limit "max_dmi_decoder_bytes"
  | .other message => .invalid message

structure Output where
  colorType : ColorType
  pixels : Bytes
  deriving DecidableEq, Repr

-- The image decoder's library: what it reads of a file within its bound on memory, the first
-- frame, and the rest of the file.
structure Png (R : Type) where
  readInfo : Bytes → Nat → Except DecodingError R
  nextFrame : R → Except DecodingError (Output × R)
  finish : R → Except DecodingError Unit

structure Icon (M : Type) where
  metadata : Metadata M
  width : Nat
  height : Nat
  data : List Pixel

-- What the program takes from its libraries.
structure Libraries (M R : Type) where
  codec : Codec
  png : Png R
  finite : Text → Bool
  metaFromStr : Text → Except DmiError (Metadata M)
  count : M → Nat

def chunksExact (n : Nat) (bytes : Bytes) : List Bytes :=
  (List.range (bytes.length / n)).map fun i => (bytes.drop (i * n)).take n

def pixelOf : ColorType → Bytes → Run DmiError Pixel
  | .rgba, pixel => do
    .ok ⟨← index pixel 0, ← index pixel 1, ← index pixel 2, ← index pixel 3⟩
  | .rgb, pixel => do .ok ⟨← index pixel 0, ← index pixel 1, ← index pixel 2, 255⟩
  | .grayscale, pixel => do
    let gray ← index pixel 0
    .ok ⟨gray, gray, gray, 255⟩
  | .grayscaleAlpha, pixel => do
    let gray ← index pixel 0
    .ok ⟨gray, gray, gray, ← index pixel 1⟩
  | .indexed, _ => invalid "PNG palette was not expanded"

-- A new image is clear where the output does not reach.
def paint (area : Nat) (output : Output) : Run DmiError (List Pixel) := do
  let painted ← ((chunksExact output.colorType.samples output.pixels).take area).mapM
    (pixelOf output.colorType)
  .ok (painted ++ List.replicate (area - painted.length) Pixel.clear)

structure Started (M R : Type) where
  metadata : Metadata M
  metadataBytes : Nat
  width : Nat
  height : Nat
  reader : R

variable {M R : Type} (libraries : Libraries M R)

def readMetadata (limits : ServerLimits) (bytes : Bytes) (width height : Nat) :
    Run DmiError (Metadata M × Nat) := do
  match ← description libraries.codec bytes limits.maxDmiMetadataBytes with
  | none => .ok (⟨width, height, []⟩, 0)
  | some text =>
    preflightMetadata limits libraries.finite text
    let metadata ← lift (libraries.metaFromStr text)
    .ok (metadata, (utf8 text).length)

-- The checks that come before the decoding of the pixels.
def start (limits : ServerLimits) (bytes : Bytes) : Run DmiError (Started M R) := do
  let (width, height, _) ← dimensions limits bytes
  let (metadata, metadataBytes) ← readMetadata libraries limits bytes width height
  lift (validateMetadata libraries.count limits metadata width height)
  let reader ← lift ((libraries.png.readInfo bytes limits.maxDmiDecoderBytes).mapError pngError)
  boundedImageStream libraries.codec limits bytes
  .ok ⟨metadata, metadataBytes, width, height, reader⟩

def render (started : Started M R) : Run DmiError (Icon M × Nat) := do
  let (output, reader) ← lift ((libraries.png.nextFrame started.reader).mapError pngError)
  let data ← paint (started.width * started.height) output
  lift ((libraries.png.finish reader).mapError pngError)
  .ok (⟨started.metadata, started.width, started.height, data⟩, started.metadataBytes)

def decode (limits : ServerLimits) (bytes : Bytes) : Run DmiError (Icon M × Nat) := do
  let started ← start libraries limits bytes
  render libraries started

structure LoadLimits where
  decode : ServerLimits
  maxDmiCacheEntries : Nat
  maxDmiCacheBytes : Nat

def LoadLimits.cache (limits : LoadLimits) : Dmi.ServerLimits :=
  ⟨limits.decode.maxDmiMetadataBytes, limits.maxDmiCacheEntries, limits.maxDmiCacheBytes⟩

def crashed : DmiError := .invalid "panicked"

-- The decoder of the cache, and whether it has come to decode.
def decoder (limits : LoadLimits) : Decoder (Icon M) where
  dimensions bytes := (settle crashed (dimensions limits.decode bytes)).map fun size => size.2.2
  validateMetadata icon :=
    validateMetadata libraries.count limits.decode icon.metadata icon.width icon.height
  decode bytes :=
    match settle crashed (start libraries limits.decode bytes) with
    | .error e => (false, .error e)
    | .ok started => (true, settle crashed (render libraries started))
  dataLen icon := icon.data.length

end DmiDecode

namespace DmiDecode

open MeridianMcp Dmi Effects Machine Fallible

-- What the program relies on in the inflater and in the check of UTF-8 texts: the inflater gives
-- no more than it was asked for, and all of it wherever there is room.
structure Codec.Lawful (codec : Codec) : Prop where
  bounded : ∀ stream limit output, codec.decompress stream limit = .ok output →
    output.length ≤ limit
  roomy : ∀ stream limit limit' output, codec.decompress stream limit = .ok output →
    output.length ≤ limit' → codec.decompress stream limit' = .ok output
  text : ∀ bytes text, codec.fromUtf8 bytes = some text → utf8 text = bytes

theorem Codec.Lawful.other {codec : Codec} (h : codec.Lawful) {stream output : Bytes} {limit : Nat}
    (hok : codec.decompress stream limit = .ok output) (limit' : Nat) (output' : Bytes) :
    codec.decompress stream limit' = .ok output' ↔ output' = output ∧ output.length ≤ limit' := by
  constructor
  · intro hok'
    have hlarge := h.roomy _ _ (max limit limit') _ hok
      ((h.bounded _ _ _ hok).trans (le_max_left ..))
    have hlarge' := h.roomy _ _ (max limit limit') _ hok'
      ((h.bounded _ _ _ hok').trans (le_max_right ..))
    obtain rfl := Except.ok.inj (hlarge'.symm.trans hlarge)
    exact ⟨rfl, h.bounded _ _ _ hok'⟩
  · rintro ⟨rfl, hfits⟩
    exact h.roomy _ _ _ _ hok hfits

section Description

variable {codec : Codec} {limit limit' : Nat} {bytes : Bytes}

def sizeOf : Option Text → Nat
  | none => 0
  | some text => (utf8 text).length

-- The text of a chunk, once its bytes are there.
theorem fromUtf8_other (hcodec : codec.Lawful) {raw : Run DmiError Bytes} {output : Bytes}
    {text other : Text} (hraw : ∀ output', raw = .ok output' ↔ output' = output ∧
      output.length ≤ limit') (htext : codec.fromUtf8 output = some text) :
    (raw >>= fun bytes => match codec.fromUtf8 bytes with
      | some text => .ok text
      | none => invalid "DMI metadata is not UTF-8") = .ok other ↔
      other = text ∧ (utf8 text).length ≤ limit' := by
  rw [hcodec.text _ _ htext, bind_ok_iff]
  simp only [hraw]
  constructor
  · rintro ⟨_, ⟨rfl, hfits⟩, heq⟩
    rw [htext] at heq
    exact ⟨(Except.ok.inj heq).symm, hfits⟩
  · rintro ⟨rfl, hfits⟩
    exact ⟨output, ⟨rfl, hfits⟩, by rw [htext]⟩

theorem descriptionText_other (hcodec : codec.Lawful) {kind value : Bytes} {text : Text}
    (h : descriptionText codec limit kind value = .ok text) (other : Text) :
    descriptionText codec limit' kind value = .ok other ↔
      other = text ∧ (utf8 text).length ≤ limit' := by
  rw [descriptionText] at h ⊢
  obtain ⟨output, houtput, h⟩ := bind_ok h
  split at h
  · rename_i text' htext
    obtain rfl := Except.ok.inj h
    refine fromUtf8_other hcodec (fun output' => ?_) htext
    split at houtput
    · rename_i hkind
      rw [if_pos hkind]
      split at houtput
      · cases houtput
      · obtain rfl := Except.ok.inj houtput
        split
        · rename_i hlarge
          exact iff_of_false (by rintro ⟨⟩) fun heq => absurd heq.2 (not_le.mpr hlarge)
        · rename_i hfits
          rw [Except.ok.injEq, eq_comm]
          exact (and_iff_left (not_lt.mp hfits)).symm
    · rename_i hkind
      rw [if_neg hkind]
      split at houtput
      · cases houtput
      · rename_i hmethod
        rw [if_neg hmethod]
        obtain ⟨stream, hstream, houtput⟩ := bind_ok houtput
        rw [hstream, ok_bind]
        split at houtput
        · rename_i decoded hdecoded
          obtain rfl := Except.ok.inj houtput
          rw [← hcodec.other hdecoded]
          cases codec.decompress stream limit' with
          | ok decoded' => rw [Except.ok.injEq, Except.ok.injEq]
          | error e => cases e <;> exact iff_of_false (by rintro ⟨⟩) (by rintro ⟨⟩)
        · cases houtput
        · cases houtput
  · cases h

theorem chunkDescription_other (hcodec : codec.Lawful) {chunk : Chunk} {data : Bytes}
    {found : Option Text} (h : chunkDescription codec limit chunk data = .ok found)
    (other : Option Text) :
    chunkDescription codec limit' chunk data = .ok other ↔
      other = found ∧ sizeOf found ≤ limit' := by
  have hnone (h : (.ok none : Run DmiError (Option Text)) = .ok found) :
      (.ok none : Run DmiError (Option Text)) = .ok other ↔
        other = found ∧ sizeOf found ≤ limit' := by
    obtain rfl := Except.ok.inj h
    rw [Except.ok.injEq, eq_comm]
    exact (and_iff_left (Nat.zero_le _)).symm
  rw [chunkDescription] at h ⊢
  split at h
  · rename_i hkind
    rw [if_pos hkind]
    split at h
    · exact hnone h
    · obtain ⟨key, hkey, h⟩ := bind_ok h
      obtain ⟨value, hvalue, h⟩ := bind_ok h
      rw [hkey, ok_bind, hvalue, ok_bind]
      split at h
      · rename_i hdescription
        rw [if_pos hdescription]
        obtain ⟨text, htext, h⟩ := bind_ok h
        obtain rfl := Except.ok.inj h
        rw [bind_ok_iff]
        simp only [descriptionText_other hcodec htext, Except.ok.injEq, sizeOf]
        constructor
        · rintro ⟨_, ⟨rfl, hfits⟩, rfl⟩
          exact ⟨rfl, hfits⟩
        · rintro ⟨rfl, hfits⟩
          exact ⟨text, ⟨rfl, hfits⟩, rfl⟩
      · rename_i hdescription
        rw [if_neg hdescription]
        exact hnone h
  · rename_i hkind
    rw [if_neg hkind]
    exact hnone h

theorem descriptionFrom_other (hcodec : codec.Lawful) {rounds offset : Nat} {found : Option Text}
    (h : descriptionFrom codec bytes limit rounds offset = .ok found) (other : Option Text) :
    descriptionFrom codec bytes limit' rounds offset = .ok other ↔
      other = found ∧ sizeOf found ≤ limit' := by
  induction rounds generalizing offset with
  | zero => cases h
  | succ rounds ih =>
    rw [descriptionFrom] at h ⊢
    split at h
    · rename_i hoffset
      rw [if_pos hoffset]
      obtain ⟨chunk, hchunk, h⟩ := bind_ok h
      obtain ⟨start, hstart, h⟩ := bind_ok h
      obtain ⟨stop, hstop, h⟩ := bind_ok h
      obtain ⟨data, hdata, h⟩ := bind_ok h
      obtain ⟨text, htext, h⟩ := bind_ok h
      simp only [hchunk, hstart, hstop, hdata, ok_bind]
      rw [bind_ok_iff]
      simp only [chunkDescription_other hcodec htext, and_assoc, exists_eq_left]
      cases text with
      | some text =>
        obtain rfl := Except.ok.inj h
        rw [Except.ok.injEq, eq_comm, and_comm]
      | none =>
        dsimp only at h ⊢
        rw [sizeOf, and_iff_right (Nat.zero_le _)]
        split at h
        · rename_i hend
          obtain rfl := Except.ok.inj h
          rw [if_pos hend, Except.ok.injEq, eq_comm]
          exact (and_iff_left (Nat.zero_le _)).symm
        · rename_i hend
          rw [if_neg hend]
          exact ih h
    · rename_i hoffset
      rw [if_neg hoffset]
      obtain rfl := Except.ok.inj h
      rw [Except.ok.injEq, eq_comm]
      exact (and_iff_left (Nat.zero_le _)).symm

end Description

variable {M R : Type} {libraries : Libraries M R}

section Start

variable {limits limits' : ServerLimits} {bytes : Bytes}

theorem dimensions_congr (h : limits.maxDmiDecodedPixels = limits'.maxDmiDecodedPixels) :
    dimensions limits bytes = dimensions limits' bytes := by
  rw [dimensions, dimensions, h]

theorem expectedSize_congr {width height bits interlace : Nat}
    (h : limits.maxDmiDecoderBytes = limits'.maxDmiDecoderBytes) :
    expectedSize limits width height bits interlace =
      expectedSize limits' width height bits interlace := by
  rw [expectedSize, expectedSize, h]

theorem boundedImageStream_congr {codec : Codec}
    (hpixels : limits.maxDmiDecodedPixels = limits'.maxDmiDecodedPixels)
    (hdecoder : limits.maxDmiDecoderBytes = limits'.maxDmiDecoderBytes) :
    boundedImageStream codec limits bytes = boundedImageStream codec limits' bytes := by
  simp only [boundedImageStream, dimensions_congr hpixels, expectedSize_congr hdecoder]

theorem readMetadata_other (hcodec : libraries.codec.Lawful) {width height : Nat}
    {metadata : Metadata M} {size : Nat} {found : Option Text}
    (hfound : description libraries.codec bytes limits.maxDmiMetadataBytes = .ok found)
    (h : readMetadata libraries limits bytes width height = .ok (metadata, size))
    (other : Metadata M × Nat) :
    readMetadata libraries limits' bytes width height = .ok other ↔
      other = (metadata, size) ∧ size ≤ limits'.maxDmiMetadataBytes ∧
        ∀ text, found = some text → Fits limits' text := by
  rw [readMetadata, hfound, ok_bind] at h
  rw [readMetadata, bind_ok_iff]
  simp only [description, descriptionFrom_other hcodec hfound, and_assoc, exists_eq_left]
  cases found with
  | none =>
    cases h
    simp [sizeOf, eq_comm]
  | some text =>
    obtain ⟨⟨⟩, hpreflight, h⟩ := bind_ok h
    obtain ⟨parsed, hparsed, h⟩ := bind_ok h
    cases h
    simp only [bind_ok_iff, preflight_other hpreflight, hparsed, Except.ok.injEq, sizeOf,
      Option.some.injEq, forall_eq']
    constructor
    · rintro ⟨hsize, ⟨⟩, hfits, _, rfl, rfl⟩
      exact ⟨rfl, hsize, hfits⟩
    · rintro ⟨rfl, hsize, hfits⟩
      exact ⟨hsize, (), hfits, metadata, rfl, rfl⟩

theorem start_other (hcodec : libraries.codec.Lawful)
    (hpixels : limits.maxDmiDecodedPixels = limits'.maxDmiDecodedPixels)
    (hdecoder : limits.maxDmiDecoderBytes = limits'.maxDmiDecoderBytes) {found : Option Text}
    {started : Started M R}
    (hfound : description libraries.codec bytes limits.maxDmiMetadataBytes = .ok found)
    (h : start libraries limits bytes = .ok started) (other : Started M R) :
    start libraries limits' bytes = .ok other ↔
      other = started ∧ started.metadataBytes ≤ limits'.maxDmiMetadataBytes ∧
        (∀ text, found = some text → Fits limits' text) ∧
        Valid libraries.count limits' started.metadata started.width started.height := by
  rw [start] at h ⊢
  obtain ⟨size, hsize, h⟩ := bind_ok h
  obtain ⟨⟨metadata, metadataBytes⟩, hmetadata, h⟩ := bind_ok h
  obtain ⟨⟨⟩, -, h⟩ := bind_ok h
  obtain ⟨reader, hreader, h⟩ := bind_ok h
  obtain ⟨⟨⟩, hstream, h⟩ := bind_ok h
  cases h
  rw [dimensions_congr hpixels] at hsize
  rw [boundedImageStream_congr hpixels hdecoder] at hstream
  rw [hdecoder] at hreader
  simp only [bind_ok_iff, hsize, lift_eq_ok, readMetadata_other hcodec hfound hmetadata,
    Except.ok.injEq, exists_eq_left', and_assoc, exists_eq_left]
  constructor
  · rintro ⟨hbytes, hfits, ⟨⟩, hvalid, other_reader, hother, ⟨⟩, -, rfl⟩
    rw [← lift_eq_ok, hreader] at hother
    obtain rfl := Except.ok.inj hother
    exact ⟨rfl, hbytes, hfits, (validateMetadata_ok _).mp hvalid⟩
  · rintro ⟨rfl, hbytes, hfits, hvalid⟩
    exact ⟨hbytes, hfits, (), (validateMetadata_ok _).mpr hvalid, reader, lift_eq_ok.mp hreader, (),
      hstream, rfl⟩

theorem start_facts {started : Started M R} (h : start libraries limits bytes = .ok started) :
    started.width = widthOf bytes ∧ started.height = heightOf bytes ∧
      ∃ found, description libraries.codec bytes limits.maxDmiMetadataBytes = .ok found ∧
        ∀ text, found = some text → libraries.metaFromStr text = .ok started.metadata ∧
          started.metadataBytes = (utf8 text).length := by
  rw [start] at h
  obtain ⟨size, hsize, h⟩ := bind_ok h
  obtain ⟨⟨metadata, metadataBytes⟩, hmetadata, h⟩ := bind_ok h
  obtain ⟨⟨⟩, -, h⟩ := bind_ok h
  obtain ⟨reader, -, h⟩ := bind_ok h
  obtain ⟨⟨⟩, -, h⟩ := bind_ok h
  cases h
  obtain ⟨-, hwidth, hheight⟩ := headed_of_dimensions hsize
  refine ⟨hwidth, hheight, ?_⟩
  obtain ⟨found, hfound, hmetadata⟩ := bind_ok hmetadata
  refine ⟨found, hfound, ?_⟩
  rintro text rfl
  obtain ⟨⟨⟩, -, hmetadata⟩ := bind_ok hmetadata
  obtain ⟨parsed, hparsed, hmetadata⟩ := bind_ok hmetadata
  cases hmetadata
  exact ⟨lift_eq_ok.mp hparsed, rfl⟩

theorem render_eq_ok {started : Started M R} {icon : Icon M} {size : Nat}
    (h : render libraries started = .ok (icon, size)) :
    icon.metadata = started.metadata ∧ icon.width = started.width ∧
      icon.height = started.height ∧ size = started.metadataBytes := by
  obtain ⟨⟨output, reader⟩, -, h⟩ := bind_ok h
  obtain ⟨data, -, h⟩ := bind_ok h
  obtain ⟨⟨⟩, -, h⟩ := bind_ok h
  cases h
  exact ⟨rfl, rfl, rfl, rfl⟩

end Start

section Sound

variable {limits : ServerLimits} {bytes : Bytes}

theorem length_of_mem_chunksExact {n : Nat} {chunk : Bytes} (h : chunk ∈ chunksExact n bytes) :
    chunk.length = n := by
  obtain ⟨i, hi, rfl⟩ := List.mem_map.mp h
  have hroom : (i + 1) * n ≤ bytes.length :=
    (Nat.mul_le_mul_right n (List.mem_range.mp hi)).trans (Nat.div_mul_le_self ..)
  rw [Nat.succ_mul] at hroom
  rw [List.length_take, List.length_drop]
  omega

theorem sound_pixelOf {colorType : ColorType} {pixel : Bytes}
    (h : pixel.length = colorType.samples) : Sound (pixelOf colorType pixel) := by
  have hindex : ∀ i < colorType.samples, Sound (index pixel i : Run DmiError UInt8) := by
    intro i hi
    rw [index_ok (h ▸ hi)]
    exact sound_ok _
  cases colorType with
  | grayscale => exact sound_bind (hindex 0 (by decide)) fun _ _ => sound_ok _
  | rgb =>
    refine sound_bind (hindex 0 (by decide)) fun _ _ => ?_
    refine sound_bind (hindex 1 (by decide)) fun _ _ => ?_
    exact sound_bind (hindex 2 (by decide)) fun _ _ => sound_ok _
  | indexed => exact sound_fail _
  | grayscaleAlpha =>
    refine sound_bind (hindex 0 (by decide)) fun _ _ => ?_
    exact sound_bind (hindex 1 (by decide)) fun _ _ => sound_ok _
  | rgba =>
    refine sound_bind (hindex 0 (by decide)) fun _ _ => ?_
    refine sound_bind (hindex 1 (by decide)) fun _ _ => ?_
    refine sound_bind (hindex 2 (by decide)) fun _ _ => ?_
    exact sound_bind (hindex 3 (by decide)) fun _ _ => sound_ok _

theorem sound_render {started : Started M R} : Sound (render libraries started) := by
  refine sound_bind (sound_lift _) fun output _ => ?_
  refine sound_bind ?_ fun data _ => sound_bind (sound_lift _) fun _ _ => sound_ok _
  refine sound_bind (sound_mapM fun chunk hchunk => ?_) fun _ _ => sound_ok _
  exact sound_pixelOf (length_of_mem_chunksExact (List.mem_of_mem_take hchunk))

theorem sound_readMetadata (hcodec : libraries.codec.Lawful)
    (hlimit : limits.maxDmiMetadataBytes < wordSize) (hbytes : bytes.length < 2 ^ 63)
    (hlength : 8 ≤ bytes.length) {width height : Nat} :
    Sound (readMetadata libraries limits bytes width height) := by
  refine sound_bind (sound_descriptionFrom hbytes hlength (by omega)) fun found hfound => ?_
  cases found with
  | none => exact sound_ok _
  | some text =>
    have hsize := ((descriptionFrom_other hcodec hfound _).mp hfound).2
    refine sound_bind (sound_preflight (hsize.trans_lt hlimit)) fun _ _ => ?_
    exact sound_bind (sound_lift _) fun _ _ => sound_ok _

-- No file makes the decoder panic.
theorem sound_decode (hcodec : libraries.codec.Lawful)
    (hlimit : limits.maxDmiMetadataBytes < wordSize) (hbytes : bytes.length < 2 ^ 63) :
    Sound (decode libraries limits bytes) := by
  refine sound_bind (sound_bind sound_dimensions fun size hsize => ?_) fun _ _ => sound_render
  have hlength := (headed_of_dimensions hsize).1.length
  refine sound_bind (sound_readMetadata hcodec hlimit hbytes (by omega)) fun metadata _ => ?_
  refine sound_bind (sound_lift _) fun _ _ => sound_bind (sound_lift _) fun reader _ => ?_
  exact sound_bind (sound_boundedImageStream hbytes) fun _ _ => sound_ok _

end Sound

end DmiDecode
