import MeridianMcp.DmiDecode.Chunks

namespace DmiDecode

open MeridianMcp Dmi Effects Machine Fallible

def lengthField (bytes : Bytes) (offset : Nat) : Bytes := (bytes.take (offset + 4)).drop offset

def kindField (bytes : Bytes) (offset : Nat) : Bytes :=
  (bytes.take (offset + 8)).drop (offset + 4)

def payload (bytes : Bytes) (chunk : Chunk) : Bytes :=
  (bytes.take (chunk.offset + 8 + chunk.length)).drop (chunk.offset + 8)

-- A chunk as the file has it: its fields, its payload and its checksum stand before the end.
structure ChunkAt (bytes : Bytes) (chunk : Chunk) : Prop where
  stop_le : chunk.stop ≤ bytes.length
  length_eq : chunk.length = fromBeBytes (lengthField bytes chunk.offset)
  kind_eq : chunk.kind = kindField bytes chunk.offset

-- The chunks of a file from an offset on, each starting where the one before it ends, up to the
-- first IEND or the end of the file.
inductive Tiles (bytes : Bytes) : Nat → List Chunk → Prop where
  | done {offset : Nat} : offset = bytes.length → Tiles bytes offset []
  | last {chunk : Chunk} : ChunkAt bytes chunk → chunk.kind = IEND →
      Tiles bytes chunk.offset [chunk]
  | cons {chunk : Chunk} {chunks : List Chunk} : ChunkAt bytes chunk → chunk.kind ≠ IEND →
      Tiles bytes chunk.stop chunks → Tiles bytes chunk.offset (chunk :: chunks)

-- The payloads of the IDAT chunks before the first IEND.
def imageData (bytes : Bytes) (chunks : List Chunk) : Bytes :=
  ((chunks.takeWhile (·.kind ≠ IEND)).filter (·.kind = IDAT)).flatMap (payload bytes)

theorem fromBeBytes_lt (bytes : Bytes) : fromBeBytes bytes < 256 ^ bytes.length := by
  have hfold : ∀ (l : Bytes) (n k : Nat), n < 256 ^ k →
      l.foldl (fun n byte => n * 256 + byte.toNat) n < 256 ^ (k + l.length) := by
    intro l
    induction l with
    | nil => exact fun n k h => h
    | cons byte l ih =>
      intro n k h
      have hbyte := byte.toNat_lt
      have hnext : n * 256 + byte.toNat < 256 ^ (k + 1) := by
        rw [Nat.pow_succ]
        omega
      have hrest := ih _ _ hnext
      rwa [Nat.add_assoc, Nat.add_comm 1] at hrest
  have h := hfold bytes 0 0 (by decide)
  rwa [Nat.zero_add] at h

section Fields

variable {bytes : Bytes} {offset : Nat}

theorem take_header : ((bytes.take (offset + 8)).drop offset).take 4 = lengthField bytes offset := by
  rw [List.take_drop, List.take_take, Nat.min_eq_left (by omega), lengthField]

theorem drop_header : ((bytes.take (offset + 8)).drop offset).drop 4 = kindField bytes offset := by
  rw [List.drop_drop, kindField]

theorem saturatingAdd_word {a b : Nat} (h : a + b < wordSize) :
    Machine.saturatingAdd a b = a + b :=
  Nat.min_eq_left (Nat.le_sub_one_of_lt h)

theorem checkedChunk_ok (hoffset : offset + 8 < wordSize) (hbytes : bytes.length < wordSize)
    {chunk : Chunk} : checkedChunk bytes offset = .ok chunk ↔
      chunk.offset = offset ∧ ChunkAt bytes chunk := by
  have hstop : ∀ length, ((checkedAdd offset 12).bind (checkedAdd · length)).filter
      (· ≤ bytes.length) = if offset + 12 + length ≤ bytes.length then
        some (offset + 12 + length) else none := by
    intro length
    split
    · rename_i hle
      simp only [Option.filter_eq_some_iff, Option.bind_eq_some_iff, checkedAdd_eq_some,
        decide_eq_true_eq]
      exact ⟨⟨_, ⟨rfl, by omega⟩, rfl, by omega⟩, hle⟩
    · rename_i hgt
      rw [Option.filter_eq_none_iff]
      intro stop hstop
      obtain ⟨first, hfirst, hlast⟩ := Option.bind_eq_some_iff.mp hstop
      obtain ⟨rfl, -⟩ := checkedAdd_eq_some.mp hfirst
      obtain ⟨rfl, -⟩ := checkedAdd_eq_some.mp hlast
      simpa using hgt
  rw [checkedChunk, saturatingAdd_word hoffset]
  by_cases hheader : offset + 8 ≤ bytes.length
  · rw [get?_eq_some.mpr ⟨⟨Nat.le_add_right .., hheader⟩, rfl⟩]
    simp only [take_header, drop_header, hstop]
    split
    · rename_i hnone
      split at hnone
      · cases hnone
      · rename_i hgt
        refine ⟨nofun, fun ⟨hat, hchunk⟩ => ?_⟩
        subst hat
        have hle := hchunk.stop_le
        rw [Chunk.stop, hchunk.length_eq] at hle
        exact absurd hle hgt
    · rename_i hsome
      split at hsome
      · rename_i hle
        rw [Except.ok.injEq]
        constructor
        · rintro rfl
          exact ⟨rfl, hle, rfl, rfl⟩
        · rintro ⟨rfl, -, hlength, hkind⟩
          rw [← hlength, ← hkind]
      · cases hsome
  · have hnone : get? bytes offset (offset + 8) = none := if_neg fun h => hheader h.2
    rw [hnone]
    refine ⟨nofun, fun ⟨hat, hchunk⟩ => ?_⟩
    subst hat
    have hle := hchunk.stop_le
    rw [Chunk.stop] at hle
    omega

theorem sound_checkedChunk : Sound (checkedChunk bytes offset) := by
  rw [checkedChunk]
  split
  · exact sound_fail _
  · dsimp only
    split
    · exact sound_fail _
    · exact sound_ok _

end Fields

section Walks

variable {codec : Codec} {bytes : Bytes} {limit : Nat}

theorem sound_descriptionText {kind value : Bytes} :
    Sound (descriptionText codec limit kind value) := by
  rw [descriptionText]
  refine sound_bind ?_ fun decoded _ => ?_
  · split
    · split
      · exact sound_fail _
      · exact sound_ok _
    · split
      · exact sound_fail _
      · rename_i hhead
        have hvalue : 1 ≤ value.length := by
          cases value with
          | nil => exact absurd hhead nofun
          | cons first value => exact Nat.le_add_left ..
        rw [slice_ok hvalue le_rfl]
        refine sound_bind (sound_ok _) fun stream _ => ?_
        split
        · exact sound_ok _
        · exact sound_fail _
        · exact sound_fail _
  · split
    · exact sound_ok _
    · exact sound_fail _

theorem sound_chunkDescription {chunk : Chunk} {data : Bytes} :
    Sound (chunkDescription codec limit chunk data) := by
  rw [chunkDescription]
  split
  · split
    · exact sound_ok _
    · rename_i separator hfind
      have hseparator : separator < data.length := (List.findIdx?_eq_some_iff_getElem.mp hfind).1
      rw [slice_ok (Nat.zero_le _) hseparator.le, slice_ok hseparator le_rfl]
      refine sound_bind (sound_ok _) fun key _ => sound_bind (sound_ok _) fun value _ => ?_
      split
      · exact sound_bind sound_descriptionText fun text _ => sound_ok _
      · exact sound_ok _
  · exact sound_ok _

theorem sound_descriptionFrom (hbytes : bytes.length < 2 ^ 63) {rounds offset : Nat}
    (hoffset : offset ≤ bytes.length) (hrounds : bytes.length < offset + rounds) :
    Sound (descriptionFrom codec bytes limit rounds offset) := by
  induction rounds generalizing offset with
  | zero => exact absurd hrounds (not_lt.mpr hoffset)
  | succ rounds ih =>
    rw [descriptionFrom]
    split
    · refine sound_bind sound_checkedChunk fun chunk hchecked => ?_
      obtain ⟨rfl, hchunk⟩ := (checkedChunk_ok (by rw [wordSize]; omega)
        (by rw [wordSize]; omega)).mp hchecked
      have hstop := hchunk.stop_le
      have hafter : chunk.offset + 12 ≤ chunk.stop := Nat.le_add_right ..
      rw [add_ok (by rw [wordSize]; omega), sub_ok (by omega)]
      refine sound_bind (sound_ok _) fun start hstart => sound_bind (sound_ok _) fun stop hstop' => ?_
      obtain rfl := Except.ok.inj hstart
      obtain rfl := Except.ok.inj hstop'
      rw [slice_ok (by omega) (by omega)]
      refine sound_bind (sound_ok _) fun data _ => sound_bind sound_chunkDescription fun found _ => ?_
      split
      · exact sound_ok _
      · split
        · exact sound_ok _
        · exact ih hstop (by omega)
    · exact sound_ok _

theorem length_payload {chunk : Chunk} (h : ChunkAt bytes chunk) :
    (payload bytes chunk).length = chunk.length := by
  have hstop := h.stop_le
  rw [Chunk.stop] at hstop
  rw [payload, length_piece (by omega), Nat.add_sub_cancel_left]

theorem imageData_last {chunk : Chunk} (h : chunk.kind = IEND) : imageData bytes [chunk] = [] := by
  rw [imageData, List.takeWhile_cons_of_neg (by simpa using h)]
  rfl

theorem imageData_cons {chunk : Chunk} {chunks : List Chunk} (h : chunk.kind ≠ IEND) :
    imageData bytes (chunk :: chunks) =
      (if chunk.kind = IDAT then payload bytes chunk else []) ++ imageData bytes chunks := by
  rw [imageData, imageData, List.takeWhile_cons_of_pos (by simpa using h)]
  by_cases hkind : chunk.kind = IDAT
  · rw [if_pos hkind, List.filter_cons_of_pos (by simpa using hkind), List.flatMap_cons]
  · rw [if_neg hkind, List.filter_cons_of_neg (by simpa using hkind), List.nil_append]

theorem IEND_ne_IDAT : IEND ≠ IDAT := by decide

-- What a chunk adds to the compressed stream.
def idatPart (bytes : Bytes) (chunk : Chunk) : Bytes :=
  if chunk.kind = IDAT then payload bytes chunk else []

theorem length_idatPart_le {chunk : Chunk} (h : ChunkAt bytes chunk) :
    (idatPart bytes chunk).length ≤ chunk.length := by
  rw [idatPart]
  split
  · exact (length_payload h).le
  · exact Nat.zero_le _

theorem countIdat_ok {chunk : Chunk} (h : ChunkAt bytes chunk) {encodedLen : Nat}
    (hlen : encodedLen + chunk.length < wordSize) :
    countIdat chunk encodedLen = .ok (encodedLen + (idatPart bytes chunk).length) := by
  rw [countIdat, idatPart]
  split
  · rw [add_ok hlen, length_payload h]
  · rfl

theorem appendIdat_ok (hbytes : bytes.length < 2 ^ 63) {chunk : Chunk} (h : ChunkAt bytes chunk)
    (encoded : Bytes) : appendIdat bytes chunk encoded = .ok (encoded ++ idatPart bytes chunk) := by
  have hstop := h.stop_le
  rw [Chunk.stop] at hstop
  rw [appendIdat, idatPart]
  split
  · rw [add_ok (by rw [wordSize]; omega)]
    change (add (chunk.offset + 8) chunk.length >>= fun stop =>
      slice bytes (chunk.offset + 8) stop >>= fun payload => .ok (encoded ++ payload)) = _
    rw [add_ok (by rw [wordSize]; omega)]
    change (slice bytes (chunk.offset + 8) (chunk.offset + 8 + chunk.length) >>= fun payload =>
      .ok (encoded ++ payload)) = _
    rw [slice_ok (Nat.le_add_right ..) (by omega)]
    rfl
  · rw [List.append_nil]

theorem sound_validateFrom (hbytes : bytes.length < 2 ^ 63) {rounds offset encodedLen : Nat}
    (hoffset : offset ≤ bytes.length) (hrounds : bytes.length < offset + rounds)
    (hencoded : encodedLen ≤ offset) : Sound (validateFrom bytes rounds offset encodedLen) := by
  induction rounds generalizing offset encodedLen with
  | zero => exact absurd hrounds (not_lt.mpr hoffset)
  | succ rounds ih =>
    rw [validateFrom]
    split
    · refine sound_bind sound_checkedChunk fun chunk hchecked => ?_
      obtain ⟨rfl, hchunk⟩ := (checkedChunk_ok (by rw [wordSize]; omega)
        (by rw [wordSize]; omega)).mp hchecked
      have hstop := hchunk.stop_le
      have hafter : chunk.offset + 12 + chunk.length = chunk.stop := rfl
      split
      · exact sound_fail _
      · have hpart := length_idatPart_le hchunk
        rw [countIdat_ok hchunk (by rw [wordSize]; omega)]
        refine sound_bind (sound_ok _) fun encodedLen' hlen => ?_
        obtain rfl := Except.ok.inj hlen
        split
        · exact sound_ok _
        · exact sound_bind (ih hstop (by omega) (by omega)) fun walked _ => sound_ok _
    · exact sound_ok _

theorem validateFrom_ok (hbytes : bytes.length < 2 ^ 63) {rounds offset encodedLen total : Nat}
    {chunks : List Chunk} (hoffset : offset ≤ bytes.length) (hencoded : encodedLen ≤ offset)
    (h : validateFrom bytes rounds offset encodedLen = .ok (chunks, total)) :
    Tiles bytes offset chunks ∧ total = encodedLen + (imageData bytes chunks).length := by
  induction rounds generalizing offset encodedLen chunks total with
  | zero => cases h
  | succ rounds ih =>
    rw [validateFrom] at h
    split at h
    · obtain ⟨chunk, hchecked, hnext⟩ := bind_ok h
      obtain ⟨rfl, hchunk⟩ := (checkedChunk_ok (by rw [wordSize]; omega)
        (by rw [wordSize]; omega)).mp hchecked
      have hstop := hchunk.stop_le
      have hafter : chunk.offset + 12 + chunk.length = chunk.stop := rfl
      split at hnext
      · cases hnext
      · have hpart := length_idatPart_le hchunk
        obtain ⟨encodedLen', hlen, hnext⟩ := bind_ok hnext
        rw [countIdat_ok hchunk (by rw [wordSize]; omega)] at hlen
        obtain rfl := Except.ok.inj hlen
        split at hnext
        · rename_i hkind
          obtain ⟨rfl, rfl⟩ := Prod.mk.inj (Except.ok.inj hnext)
          refine ⟨.last hchunk hkind, ?_⟩
          rw [imageData_last hkind, idatPart, if_neg (hkind ▸ IEND_ne_IDAT)]
        · rename_i hkind
          obtain ⟨⟨rest, total'⟩, hrest, hnext⟩ := bind_ok hnext
          obtain ⟨rfl, rfl⟩ := Prod.mk.inj (Except.ok.inj hnext)
          obtain ⟨htiles, htotal⟩ := ih hstop (by omega) hrest
          refine ⟨.cons hchunk hkind htiles, ?_⟩
          rw [imageData_cons hkind, List.length_append, htotal, Nat.add_assoc, idatPart]
    · rename_i hend
      obtain ⟨rfl, rfl⟩ := Prod.mk.inj (Except.ok.inj h)
      exact ⟨.done (le_antisymm hoffset (not_lt.mp hend)), rfl⟩

-- One round of the second walk at a chunk that the first has found.
theorem assembleFrom_succ (hbytes : bytes.length < 2 ^ 63) {chunk : Chunk}
    (hchunk : ChunkAt bytes chunk) (rounds : Nat) (encoded : Bytes) :
    assembleFrom bytes (rounds + 1) chunk.offset encoded =
      if chunk.kind = IEND then .ok ([chunk], encoded ++ idatPart bytes chunk)
      else assembleFrom bytes rounds chunk.stop (encoded ++ idatPart bytes chunk) >>=
        fun (chunks, encoded) => .ok (chunk :: chunks, encoded) := by
  have hstop := hchunk.stop_le
  have hafter : chunk.offset + 12 + chunk.length = chunk.stop := rfl
  have hfour : (add chunk.offset 4 : Run DmiError Nat) = .ok (chunk.offset + 4) :=
    add_ok (by rw [wordSize]; omega)
  have height : (add chunk.offset 8 : Run DmiError Nat) = .ok (chunk.offset + 8) :=
    add_ok (by rw [wordSize]; omega)
  have htwelve : (add chunk.length 12 : Run DmiError Nat) = .ok (chunk.length + 12) :=
    add_ok (by rw [wordSize]; omega)
  have hnext : (add chunk.offset (chunk.length + 12) : Run DmiError Nat) = .ok chunk.stop := by
    rw [add_ok (by rw [wordSize]; omega), ← hafter]
    exact congrArg Except.ok (by omega)
  have hlength : (slice bytes chunk.offset (chunk.offset + 4) : Run DmiError Bytes) =
      .ok (lengthField bytes chunk.offset) := slice_ok (by omega) (by omega)
  have hkind : (slice bytes (chunk.offset + 4) (chunk.offset + 8) : Run DmiError Bytes) =
      .ok (kindField bytes chunk.offset) := slice_ok (by omega) (by omega)
  have hread : (⟨chunk.offset, fromBeBytes (lengthField bytes chunk.offset),
      kindField bytes chunk.offset⟩ : Chunk) = chunk := by
    rw [← hchunk.length_eq, ← hchunk.kind_eq]
  rw [assembleFrom, if_pos (by omega)]
  simp only [hfour, height, hlength, hkind, ok_bind, hread, appendIdat_ok hbytes hchunk]
  rw [← hchunk.kind_eq, ← hchunk.length_eq, htwelve]
  simp only [ok_bind, hnext]

theorem assembleFrom_tiles (hbytes : bytes.length < 2 ^ 63) {rounds offset : Nat}
    {chunks : List Chunk} (htiles : Tiles bytes offset chunks)
    (hrounds : bytes.length < offset + rounds) (encoded : Bytes) :
    assembleFrom bytes rounds offset encoded =
      .ok (chunks, encoded ++ imageData bytes chunks) := by
  induction htiles generalizing rounds encoded with
  | done hend =>
    cases rounds with
    | zero => omega
    | succ rounds =>
      rw [assembleFrom, if_neg (by omega)]
      rw [imageData, List.takeWhile_nil, List.filter_nil, List.flatMap_nil, List.append_nil]
  | @last chunk hchunk hkind =>
    have hstop := hchunk.stop_le
    rw [Chunk.stop] at hstop
    cases rounds with
    | zero => omega
    | succ rounds =>
      rw [assembleFrom_succ hbytes hchunk, if_pos hkind, imageData_last hkind, idatPart,
        if_neg (hkind ▸ IEND_ne_IDAT)]
  | @cons chunk chunks hchunk hkind _ ih =>
    have hstop := hchunk.stop_le
    have hafter : chunk.offset + 12 + chunk.length = chunk.stop := rfl
    cases rounds with
    | zero => omega
    | succ rounds =>
      rw [assembleFrom_succ hbytes hchunk, if_neg hkind, ih (by omega), imageData_cons hkind,
        ← List.append_assoc]
      rfl

end Walks

end DmiDecode
