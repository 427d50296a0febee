import MeridianMcp.DmiDecode.Walks

namespace DmiDecode

open MeridianMcp Dmi Effects Machine Fallible

section Dimensions

variable {limits : ServerLimits} {bytes : Bytes}

def widthOf (bytes : Bytes) : Nat := fromBeBytes ((bytes.take 20).drop 16)

def heightOf (bytes : Bytes) : Nat := fromBeBytes ((bytes.take 24).drop 20)

-- What a file that passes the header check has.
structure Headed (limits : ServerLimits) (bytes : Bytes) : Prop where
  length : 33 ≤ bytes.length
  start : bytes.take 8 = signature
  header : (bytes.take 16).drop 8 = headerStart
  width_pos : 0 < widthOf bytes
  height_pos : 0 < heightOf bytes
  pixels : widthOf bytes * heightOf bytes ≤ limits.maxDmiDecodedPixels
  decoded : widthOf bytes * heightOf bytes * 4 < wordSize

theorem widthOf_lt (h : 33 ≤ bytes.length) : widthOf bytes < 2 ^ 32 := by
  have hlt := fromBeBytes_lt ((bytes.take 20).drop 16)
  rwa [length_piece (by omega)] at hlt

theorem heightOf_lt (h : 33 ≤ bytes.length) : heightOf bytes < 2 ^ 32 := by
  have hlt := fromBeBytes_lt ((bytes.take 24).drop 20)
  rwa [length_piece (by omega)] at hlt

theorem dimensions_eq (h : 33 ≤ bytes.length) :
    dimensions limits bytes =
      if bytes.take 8 ≠ signature ∨ (bytes.take 16).drop 8 ≠ headerStart then
        invalid "missing PNG image header"
      else if widthOf bytes = 0 ∨ heightOf bytes = 0 then invalid "empty PNG dimensions"
      else if limits.maxDmiDecodedPixels < widthOf bytes * heightOf bytes then
        fail (.limit "max_dmi_decoded_pixels")
      else
        match checkedMul (widthOf bytes * heightOf bytes) 4 with
        | some decoded => .ok (widthOf bytes, heightOf bytes, decoded)
        | none => fail (.limit "max_dmi_decoded_pixels") := by
  have harea : widthOf bytes * heightOf bytes < wordSize := by
    have hle := Nat.mul_le_mul (Nat.le_sub_one_of_lt (widthOf_lt h))
      (Nat.le_sub_one_of_lt (heightOf_lt h))
    exact hle.trans_lt (by decide)
  rw [dimensions, if_neg (by omega)]
  simp only [slice_ok (ε := DmiError) (Nat.zero_le 8) (show 8 ≤ bytes.length by omega),
    slice_ok (ε := DmiError) (show 8 ≤ 16 by decide) (show 16 ≤ bytes.length by omega),
    slice_ok (ε := DmiError) (show 16 ≤ 20 by decide) (show 20 ≤ bytes.length by omega),
    slice_ok (ε := DmiError) (show 20 ≤ 24 by decide) (show 24 ≤ bytes.length by omega), ok_bind,
    List.drop_zero]
  change (if _ then _ else if widthOf bytes = 0 ∨ heightOf bytes = 0 then _ else
    mul (widthOf bytes) (heightOf bytes) >>= fun pixels => _) = _
  rw [mul_ok harea]
  rfl

theorem sound_dimensions : Sound (dimensions limits bytes) := by
  by_cases h : 33 ≤ bytes.length
  · rw [dimensions_eq h]
    split
    · exact sound_fail _
    · split
      · exact sound_fail _
      · split
        · exact sound_fail _
        · split
          · exact sound_ok _
          · exact sound_fail _
  · rw [dimensions, if_pos (by omega)]
    exact sound_fail _

theorem headed_of_dimensions {size : Nat × Nat × Nat} (h : dimensions limits bytes = .ok size) :
    Headed limits bytes ∧ size.1 = widthOf bytes ∧ size.2.1 = heightOf bytes := by
  by_cases hlength : 33 ≤ bytes.length
  · rw [dimensions_eq hlength] at h
    split at h
    · cases h
    · rename_i hstart
      obtain ⟨hstart, hheader⟩ := not_or.mp hstart
      split at h
      · cases h
      · rename_i hempty
        obtain ⟨hwidth, hheight⟩ := not_or.mp hempty
        split at h
        · cases h
        · rename_i hpixels
          split at h
          · rename_i decoded hdecoded
            obtain rfl := Except.ok.inj h
            obtain ⟨rfl, hword⟩ := checkedMul_eq_some.mp hdecoded
            exact ⟨⟨hlength, not_not.mp hstart, not_not.mp hheader, Nat.pos_of_ne_zero hwidth,
              Nat.pos_of_ne_zero hheight, not_lt.mp hpixels, hword⟩, rfl, rfl⟩
          · cases h
  · rw [dimensions, if_pos (by omega)] at h
    cases h

end Dimensions

section Stream

variable {codec : Codec} {limits : ServerLimits} {bytes : Bytes}

theorem channelsOf_le {colorType : UInt8} {channels : Nat} (h : channelsOf colorType = .ok channels) :
    channels ≤ 4 := by
  rw [channelsOf] at h
  split at h
  · rw [← Except.ok.inj h]; decide
  · split at h
    · rw [← Except.ok.inj h]; decide
    · split at h
      · rw [← Except.ok.inj h]; decide
      · split at h
        · rw [← Except.ok.inj h]
        · cases h

theorem sound_channelsOf {colorType : UInt8} : Sound (channelsOf colorType) := by
  rw [channelsOf]
  split
  · exact sound_ok _
  · split
    · exact sound_ok _
    · split
      · exact sound_ok _
      · split
        · exact sound_ok _
        · exact sound_fail _

theorem bits_lt {channels : Nat} (h : channels ≤ 4) (depth : UInt8) :
    channels * depth.toNat < 2 ^ 32 := by
  have hdepth := depth.toNat_lt
  have hle := Nat.mul_le_mul h (Nat.le_sub_one_of_lt hdepth)
  exact hle.trans_lt (by decide)

def byteAt (bytes : Bytes) (i : Nat) : UInt8 := bytes.getD i 0

theorem index_byteAt {i : Nat} (h : i < bytes.length) :
    (index bytes i : Run DmiError UInt8) = .ok (byteAt bytes i) := by
  rw [index_ok h, byteAt, List.getD_eq_getElem?_getD, List.getElem?_eq_getElem h, Option.getD_some]

-- The walks and the inflater, for the size that the header asks for.
def inflate (codec : Codec) (bytes : Bytes) (expected : Nat) : Run DmiError Unit := do
  let _ ← validateFrom bytes (bytes.length + 1) 8 0
  let (_, encoded) ← assembleFrom bytes (bytes.length + 1) 8 []
  match codec.decompress encoded expected with
  | .error .outputTooLarge => fail (.limit "max_dmi_decoded_pixels")
  | .error .decompressionError => invalid "invalid PNG image compression"
  | .ok filtered =>
    if filtered.length ≠ expected then invalid "PNG image data does not match dimensions"
    else .ok ()

theorem boundedImageStream_eq {size : Nat × Nat × Nat} (h : dimensions limits bytes = .ok size) :
    boundedImageStream codec limits bytes =
      (channelsOf (byteAt bytes 25) >>= fun channels =>
        expectedSize limits (widthOf bytes) (heightOf bytes)
          (channels * (byteAt bytes 24).toNat) (byteAt bytes 28).toNat >>= inflate codec bytes) := by
  obtain ⟨hheaded, hwidth, hheight⟩ := headed_of_dimensions h
  have hlength := hheaded.length
  obtain ⟨width, height, decoded⟩ := size
  dsimp only at hwidth hheight
  subst hwidth hheight
  rw [boundedImageStream, h]
  simp only [ok_bind, index_byteAt (show 25 < bytes.length by omega),
    index_byteAt (show 24 < bytes.length by omega), index_byteAt (show 28 < bytes.length by omega)]
  cases hchannels : channelsOf (byteAt bytes 25) with
  | error fault => rfl
  | ok channels =>
    have hbits := bits_lt (channelsOf_le hchannels) (byteAt bytes 24)
    simp only [ok_bind]
    rw [mul_ok (by rw [wordSize]; omega)]
    rfl

theorem sound_inflate (hbytes : bytes.length < 2 ^ 63) (hlength : 33 ≤ bytes.length)
    (expected : Nat) : Sound (inflate codec bytes expected) := by
  refine sound_bind (sound_validateFrom hbytes (by omega) (by omega) (Nat.zero_le _))
    fun walked hwalked => ?_
  obtain ⟨htiles, -⟩ := validateFrom_ok hbytes (by omega) (Nat.zero_le _) hwalked
  rw [assembleFrom_tiles hbytes htiles (by omega)]
  refine sound_bind (sound_ok _) fun assembled _ => ?_
  dsimp only
  split
  · exact sound_fail _
  · exact sound_fail _
  · split
    · exact sound_fail _
    · exact sound_ok _

theorem sound_boundedImageStream (hbytes : bytes.length < 2 ^ 63) :
    Sound (boundedImageStream codec limits bytes) := by
  cases h : dimensions limits bytes with
  | error fault =>
    have hsound := @sound_dimensions limits bytes
    rw [h] at hsound
    rw [boundedImageStream, h]
    cases fault with
    | error e => exact sound_fail e
    | panic => exact absurd rfl hsound.1
    | unfinished => exact absurd rfl hsound.2
  | ok size =>
    have hlength := (headed_of_dimensions h).1.length
    rw [boundedImageStream_eq h]
    refine sound_bind sound_channelsOf fun channels hchannels => ?_
    have hbits := bits_lt (channelsOf_le hchannels) (byteAt bytes 24)
    exact sound_bind (expectedSize_eq _ (widthOf_lt hlength) hbits).1
      fun expected _ => sound_inflate hbytes hlength expected

theorem chunk_walks (codec : Codec) {size : Nat × Nat × Nat}
    (hsize : dimensions limits bytes = .ok size) (hbytes : bytes.length < 2 ^ 63) (limit : Nat) :
    Sound (dimensions limits bytes) ∧ Sound (description codec bytes limit) ∧
      Sound (boundedImageStream codec limits bytes) ∧
      ∀ chunks total, validateFrom bytes (bytes.length + 1) 8 0 = .ok (chunks, total) →
        Tiles bytes 8 chunks ∧ total = (imageData bytes chunks).length ∧
          assembleFrom bytes (bytes.length + 1) 8 [] = .ok (chunks, imageData bytes chunks) := by
  have hlength := (headed_of_dimensions hsize).1.length
  refine ⟨sound_dimensions, sound_descriptionFrom hbytes (by omega) (by omega),
    sound_boundedImageStream hbytes, fun chunks total hwalked => ?_⟩
  obtain ⟨htiles, htotal⟩ := validateFrom_ok hbytes (by omega) (Nat.zero_le _) hwalked
  rw [Nat.zero_add] at htotal
  exact ⟨htiles, htotal, assembleFrom_tiles hbytes htiles (by omega) []⟩

-- An image of one pixel: its header, an IDAT chunk of one byte and the end.
def pixelFile : Bytes :=
  signature ++ headerStart ++ [0, 0, 0, 1, 0, 0, 0, 1, 8, 6, 0, 0, 0, 0, 0, 0, 0] ++
    ([0, 0, 0, 1] ++ IDAT ++ [7, 0, 0, 0, 0]) ++ ([0, 0, 0, 0] ++ IEND ++ [0, 0, 0, 0])

def refusing : Codec where
  decompress _ _ := .error .decompressionError
  fromUtf8 bytes := if bytes = [] then some [] else none

theorem pixelFile_walks :
    Sound (description refusing pixelFile 100) ∧
      Sound (boundedImageStream refusing ⟨1, 100, 100, 1, 1⟩ pixelFile) ∧
      assembleFrom pixelFile 59 8 [] =
        .ok ([⟨8, 13, [0x49, 0x48, 0x44, 0x52]⟩, ⟨33, 1, IDAT⟩, ⟨46, 0, IEND⟩], [7]) := by
  obtain ⟨-, hdescription, hstream, hwalks⟩ := @chunk_walks ⟨1, 100, 100, 1, 1⟩ pixelFile refusing
    (1, 1, 4) (by decide) (by decide) 100
  refine ⟨hdescription, hstream, ?_⟩
  have hvalidated : validateFrom pixelFile (pixelFile.length + 1) 8 0 =
      .ok ([⟨8, 13, [0x49, 0x48, 0x44, 0x52]⟩, ⟨33, 1, IDAT⟩, ⟨46, 0, IEND⟩], 1) := by decide
  have hdata : imageData pixelFile
      [⟨8, 13, [0x49, 0x48, 0x44, 0x52]⟩, ⟨33, 1, IDAT⟩, ⟨46, 0, IEND⟩] = [7] := by decide
  have hassembled := (hwalks _ _ hvalidated).2.2
  rwa [hdata] at hassembled

-- What a successful check of an image says of the size it was held against. No vector is as long
-- as the largest word.
theorem boundedImageStream_ok (hdecompress : ∀ stream limit output,
      codec.decompress stream limit = .ok output → output.length < 2 ^ 63)
    (h : boundedImageStream codec limits bytes = .ok ()) :
    ∃ channels stream filtered, channelsOf (byteAt bytes 25) = .ok channels ∧
      codec.decompress stream (exactSize (widthOf bytes) (heightOf bytes)
        (channels * (byteAt bytes 24).toNat) (byteAt bytes 28).toNat) = .ok filtered ∧
      filtered.length = exactSize (widthOf bytes) (heightOf bytes)
        (channels * (byteAt bytes 24).toNat) (byteAt bytes 28).toNat ∧
      filtered.length < wordSize ∧ filtered.length ≤ limits.maxDmiDecoderBytes := by
  cases hsize : dimensions limits bytes with
  | error fault =>
    rw [boundedImageStream, hsize] at h
    cases h
  | ok size =>
    have hlength := (headed_of_dimensions hsize).1.length
    rw [boundedImageStream_eq hsize] at h
    obtain ⟨channels, hchannels, h⟩ := bind_ok h
    obtain ⟨expected, hexpected, h⟩ := bind_ok h
    obtain ⟨walked, -, h⟩ := bind_ok h
    obtain ⟨⟨visited, stream⟩, -, h⟩ := bind_ok h
    have hbits := bits_lt (channelsOf_le hchannels) (byteAt bytes 24)
    have hcases := (expectedSize_eq (byteAt bytes 28).toNat (widthOf_lt hlength) hbits).2.2
      expected hexpected
    dsimp only at h
    split at h
    · cases h
    · cases h
    · rename_i filtered hfiltered
      split at h
      · cases h
      · rename_i hequal
        have hequal := not_not.mp hequal
        have hlt := hdecompress _ _ _ hfiltered
        rcases hcases with ⟨rfl, hword, hle⟩ | ⟨hmax, -⟩
        · exact ⟨channels, stream, filtered, hchannels, hfiltered, hequal, hequal ▸ hword,
            hequal ▸ hle⟩
        · rw [hequal, hmax] at hlt
          exact absurd hlt (by decide)

theorem sum_passSize (width height bits : Nat) (l : List Pass) :
    (l.map (passSize width height bits)).sum =
      ((l.filter fun pass => columns width pass ≠ 0 ∧ rows height pass ≠ 0).map fun pass =>
        rows height pass * lineBytes (columns width pass) bits).sum := by
  induction l with
  | nil => rfl
  | cons pass l ih =>
    rw [List.map_cons, List.sum_cons, ih, passSize]
    by_cases h : columns width pass ≠ 0 ∧ rows height pass ≠ 0
    · rw [if_pos h, List.filter_cons_of_pos (by simpa using h), List.map_cons, List.sum_cons]
    · rw [if_neg h, List.filter_cons_of_neg (by simpa using h), Nat.zero_add]

theorem inflated_size {width height bits : Nat} (hwidth : 1 ≤ width) (hwidth' : width < 2 ^ 32)
    (hheight : 1 ≤ height) (hbits : bits < 2 ^ 32) (limits : ServerLimits) :
    exactSize width height bits 0 = height * (1 + (width * bits + 7) / 8) ∧
      (∀ interlace, interlace ≠ 0 → exactSize width height bits interlace =
        ((adam7.filter fun pass => columns width pass ≠ 0 ∧ rows height pass ≠ 0).map fun pass =>
          rows height pass * (1 + (columns width pass * bits + 7) / 8)).sum) ∧
      (∀ column row, ∃! pass, pass ∈ adam7 ∧ column % pass.stepX = pass.x ∧
        row % pass.stepY = pass.y) ∧
      ∀ interlace, Sound (expectedSize limits width height bits interlace) ∧
        (exactSize width height bits interlace < wordSize →
          exactSize width height bits interlace ≤ limits.maxDmiDecoderBytes →
            expectedSize limits width height bits interlace =
              .ok (exactSize width height bits interlace)) ∧
        (wordSize ≤ exactSize width height bits interlace ∨
            limits.maxDmiDecoderBytes < exactSize width height bits interlace →
          ∀ codec : Codec, (∀ stream limit output,
              codec.decompress stream limit = .ok output → output.length < 2 ^ 63) →
            ∀ bytes channels, widthOf bytes = width → heightOf bytes = height →
              channelsOf (byteAt bytes 25) = .ok channels →
              channels * (byteAt bytes 24).toNat = bits → (byteAt bytes 28).toNat = interlace →
                boundedImageStream codec limits bytes ≠ .ok ()) := by
  refine ⟨exactSize_plain hwidth hheight bits, fun interlace hinterlace => ?_, adam7_partition,
    fun interlace => ?_⟩
  · rw [exactSize, passes, if_neg hinterlace]
    exact sum_passSize width height bits adam7
  · obtain ⟨hsound, hexact, -⟩ := @expectedSize_eq limits _ height _ interlace hwidth' hbits
    refine ⟨hsound, hexact, ?_⟩
    rintro hlarge codec hdecompress bytes channels rfl rfl hchannels rfl rfl hok
    obtain ⟨channels', -, filtered, hchannels', -, hlength, hword, hle⟩ :=
      boundedImageStream_ok hdecompress hok
    obtain rfl := Except.ok.inj (hchannels.symm.trans hchannels')
    omega

-- Three columns and two rows of one byte each, whole and in passes.
theorem inflated_size_three_by_two :
    (expectedSize ⟨6, 0, 16, 0, 0⟩ 3 2 8 0 = .ok 8) ∧
      expectedSize ⟨6, 0, 16, 0, 0⟩ 3 2 8 1 = .ok 10 := by
  obtain ⟨-, -, -, hsizes⟩ := @inflated_size 3 2 8 (by decide) (by decide) (by decide) (by decide)
    ⟨6, 0, 16, 0, 0⟩
  have hwhole : exactSize 3 2 8 0 = 8 := by decide
  have hpasses : exactSize 3 2 8 1 = 10 := by decide
  have hfirst := (hsizes 0).2.1
  have hsecond := (hsizes 1).2.1
  rw [hwhole] at hfirst
  rw [hpasses] at hsecond
  exact ⟨hfirst (by decide) (by decide), hsecond (by decide) (by decide)⟩

end Stream

end DmiDecode
