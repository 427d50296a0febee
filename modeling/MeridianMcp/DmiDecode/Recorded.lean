import MeridianMcp.DmiDecode.Reload

namespace DmiDecode

open MeridianMcp Dmi Effects Machine Fallible

variable {M R P : Type} {libraries : Libraries M R}

section Decoded

variable {limits : ServerLimits} {bytes : Bytes} {icon : Icon M} {size : Nat}

theorem length_paint {area : Nat} {output : Output} {data : List Pixel}
    (h : paint area output = .ok data) : data.length = area := by
  obtain ⟨painted, hpainted, h⟩ := bind_ok h
  cases h
  have hlength := (forall₂_of_mapM_ok hpainted).length_eq
  rw [List.length_take] at hlength
  rw [List.length_append, List.length_replicate]
  omega

theorem length_render {started : Started M R} (h : render libraries started = .ok (icon, size)) :
    icon.data.length = started.width * started.height := by
  obtain ⟨⟨output, reader⟩, -, h⟩ := bind_ok h
  obtain ⟨data, hdata, h⟩ := bind_ok h
  obtain ⟨⟨⟩, -, h⟩ := bind_ok h
  cases h
  exact length_paint hdata

theorem length_data (h : decode libraries limits bytes = .ok (icon, size)) :
    icon.data.length = widthOf bytes * heightOf bytes := by
  obtain ⟨started, hstarted, hrender⟩ := bind_ok h
  obtain ⟨hwidth, hheight, -⟩ := start_facts hstarted
  rw [length_render hrender, hwidth, hheight]

theorem size_of_dimensions {found : Nat × Nat × Nat} (h : dimensions limits bytes = .ok found) :
    found.2.2 = widthOf bytes * heightOf bytes * 4 := by
  rw [dimensions_eq (headed_of_dimensions h).1.length] at h
  split at h
  · cases h
  · split at h
    · cases h
    · split at h
      · cases h
      · split at h
        · rename_i decoded hdecoded
          obtain rfl := Except.ok.inj h
          exact (checkedMul_eq_some.mp hdecoded).1
        · cases h

-- What a decoded file keeps of the limits.
theorem decode_within (hcodec : libraries.codec.Lawful)
    (h : decode libraries limits bytes = .ok (icon, size)) :
    size ≤ limits.maxDmiMetadataBytes ∧
      Valid libraries.count limits icon.metadata icon.width icon.height := by
  have hother := @decode_other _ _ libraries ⟨limits, 0, 0⟩ ⟨limits, 0, 0⟩ hcodec
    ⟨rfl, rfl, rfl, rfl⟩ _ _ _ h (icon, size)
  obtain ⟨-, hsize, -, hvalid⟩ := hother.mp h
  exact ⟨hsize, hvalid⟩

end Decoded

def decodedBytes (asset : DecodedDmi P (Icon M)) : Nat := asset.icon.data.length * 4

structure Within (count : M → Nat) (limits : ServerLimits) (remaining : Nat)
    (asset : DecodedDmi P (Icon M)) : Prop where
  decodedBytes : decodedBytes asset ≤ remaining
  metadataBytes : asset.metadataBytes ≤ limits.maxDmiMetadataBytes
  states : asset.icon.metadata.states.length ≤ limits.maxDmiStates
  frames : framesOf count asset.icon.metadata.states ≤ limits.maxDmiFrames

-- The icon and the size of its text come from a content with the hash.
def DecodedFrom (libraries : Libraries M R) (sha256 : Bytes → Text) (contents : Set Bytes)
    (sha : Text) (icon : Icon M) (size : Nat) : Prop :=
  ∃ bytes ∈ contents, sha = sha256 bytes ∧ ∃ limits, decode libraries limits bytes = .ok (icon, size)

def Recorded (libraries : Libraries M R) (sha256 : Bytes → Text) (contents : Set Bytes)
    (cache : DmiCache P (Icon M)) : Prop :=
  ∀ e ∈ cache.entries, e.2.asset.metadataBytes = e.2.metadataBytes ∧
    DecodedFrom libraries sha256 contents e.2.asset.identity.sha256 e.2.asset.icon
      e.2.metadataBytes

theorem Valid.frames_le {count : M → Nat} {limits : ServerLimits} {metadata : Metadata M}
    {width height : Nat} (h : Valid count limits metadata width height) :
    framesOf count metadata.states ≤ limits.maxDmiFrames := by
  cases hstates : metadata.states with
  | nil => exact Nat.zero_le _
  | cons state states =>
    rw [← hstates]
    exact (h.frames (by rw [hstates]; exact List.cons_ne_nil _ _)).1

variable [LinearOrder P] {sha256 : Bytes → Text} {contents : Set Bytes}
  {cache : DmiCache P (Icon M)} {limits : LoadLimits} {input : DmiInput P} {remaining : Nat}

theorem Recorded.touch (h : Recorded libraries sha256 contents cache) (path : P) (clock : Nat) :
    ∀ e ∈ DmiCache.touch cache.entries path clock,
      e.2.asset.metadataBytes = e.2.metadataBytes ∧
        DecodedFrom libraries sha256 contents e.2.asset.identity.sha256 e.2.asset.icon
          e.2.metadataBytes := by
  intro e he
  obtain ⟨old, hold, rfl⟩ := List.mem_map.mp he
  split <;> exact h old hold

theorem Recorded.install (h : Recorded libraries sha256 contents cache) {limits : Dmi.ServerLimits}
    {prepared : PreparedDmi P (Icon M)}
    (hprepared : DecodedFrom libraries sha256 contents prepared.identity.sha256 prepared.icon
      prepared.metadataBytes) :
    Recorded libraries sha256 contents (cache.install limits prepared).2 := by
  unfold DmiCache.install
  split
  · exact h.touch _ _
  · intro e he
    rcases List.mem_cons.mp ((evictRounds_sublist _ _).subset he) with rfl | hold
    · exact ⟨rfl, hprepared⟩
    · exact h e (List.mem_of_mem_filter hold)

theorem Recorded.loadInput (h : Recorded libraries sha256 contents cache)
    (hsha : input.identity.sha256 = sha256 input.bytes) (hcontent : input.bytes ∈ contents) :
    Recorded libraries sha256 contents
      (cache.loadInput limits.cache (decoder libraries limits) input remaining).2 := by
  unfold DmiCache.loadInput
  split
  · exact h
  · split
    · exact h
    · split
      · split
        · exact h
        · split
          · exact h
          · exact h.touch _ _
      · dsimp only
        split
        · exact h
        · rename_i prepared hprepared
          obtain ⟨icon, size, hdecoded, rfl⟩ := prepareInput_eq_ok.mp hprepared
          have hprepared : DecodedFrom libraries sha256 contents input.identity.sha256 icon size :=
            ⟨input.bytes, hcontent, hsha, limits.decode, hdecoded⟩
          have hcounted : ∀ decodeCount,
              Recorded libraries sha256 contents { cache with decodeCount := decodeCount } :=
            fun _ => h
          exact (hcounted _).install hprepared

-- A load that succeeds, from an entry of the cache or by decoding the file.
theorem loadInput_ok {asset : DecodedDmi P (Icon M)}
    (h : (cache.loadInput limits.cache (decoder libraries limits) input remaining).1 = .ok asset) :
    Admitted limits input.bytes remaining ∧
      ((∃ entry, cache.cached input.identity = some entry ∧ entry.asset = asset ∧
        Valid libraries.count limits.decode asset.icon.metadata asset.icon.width
          asset.icon.height ∧ entry.metadataBytes ≤ limits.decode.maxDmiMetadataBytes) ∨
      decode libraries limits.decode input.bytes = .ok (asset.icon, asset.metadataBytes)) := by
  unfold DmiCache.loadInput at h
  split at h
  · cases h
  · rename_i found hfound
    split at h
    · cases h
    · rename_i hroom
      refine ⟨(decoder_dimensions libraries).mp ⟨found, hfound, not_lt.mp hroom⟩, ?_⟩
      split at h
      · rename_i entry hcached
        split at h
        · cases h
        · rename_i hvalid
          split at h
          · cases h
          · rename_i hsize
            obtain rfl := Except.ok.inj h
            exact .inl ⟨entry, hcached, rfl, (validateMetadata_ok _).mp hvalid, not_lt.mp hsize⟩
      · rename_i hcached
        cases hprepared : DmiCache.prepareInput (decoder libraries limits) input with
        | error e =>
          simp only [hprepared] at h
          cases h
        | ok prepared =>
          obtain ⟨icon, size, hdecoded, rfl⟩ := prepareInput_eq_ok.mp hprepared
          have hnone : ∀ decodeCount, ({ cache with decodeCount := decodeCount } :
              DmiCache P (Icon M)).cached input.identity = none := fun _ => hcached
          simp only [hprepared, DmiCache.install, hnone, Except.ok.injEq] at h
          obtain rfl := h
          exact .inr hdecoded

theorem loadInput_within (hcodec : libraries.codec.Lawful) (hcollision : Set.InjOn sha256 contents)
    (hcache : Recorded libraries sha256 contents cache)
    (hsha : input.identity.sha256 = sha256 input.bytes) (hcontent : input.bytes ∈ contents)
    {asset : DecodedDmi P (Icon M)}
    (h : (cache.loadInput limits.cache (decoder libraries limits) input remaining).1 = .ok asset) :
    Within libraries.count limits.decode remaining asset := by
  obtain ⟨⟨found, hfound, hroom⟩, hcase⟩ := loadInput_ok h
  rw [size_of_dimensions hfound] at hroom
  rcases hcase with ⟨entry, hcached, rfl, hvalid, hsize⟩ | hdecoded
  · obtain ⟨hmem, hsame⟩ := cached_some hcached
    obtain ⟨hmetadata, bytes, hbytes, hrecorded, _, hdecoded⟩ := hcache _ hmem
    -- The entry comes from the same content as the file has now.
    obtain rfl : bytes = input.bytes :=
      hcollision hbytes hcontent (hrecorded.symm.trans (hsame.trans hsha))
    exact ⟨by rw [decodedBytes, length_data hdecoded]; exact hroom, hmetadata ▸ hsize,
      hvalid.states, hvalid.frames_le⟩
  · obtain ⟨hsize, hvalid⟩ := decode_within hcodec hdecoded
    exact ⟨by rw [decodedBytes, length_data hdecoded]; exact hroom, hsize, hvalid.states,
      hvalid.frames_le⟩

end DmiDecode
