import MeridianMcp.Dmi.Discipline
import MeridianMcp.DmiDecode.Limits

namespace DmiDecode

open MeridianMcp Dmi Effects Machine Fallible

-- Limits that differ at most in the bounds that a scan lowers.
structure OnlyBudgets (limits limits' : LoadLimits) : Prop where
  pixels : limits.decode.maxDmiDecodedPixels = limits'.decode.maxDmiDecodedPixels
  decoder : limits.decode.maxDmiDecoderBytes = limits'.decode.maxDmiDecoderBytes
  entries : limits.maxDmiCacheEntries = limits'.maxDmiCacheEntries
  bytes : limits.maxDmiCacheBytes = limits'.maxDmiCacheBytes

variable {M R P : Type} [LinearOrder P] {libraries : Libraries M R} {limits limits' : LoadLimits} {input : DmiInput P}
  {cache fresh : DmiCache P (Icon M)} {entry : CacheEntry P (Icon M)} {remaining : Nat}

-- The cache has the file from a load under the limits.
structure CachedFrom (libraries : Libraries M R) (limits : LoadLimits) (input : DmiInput P)
    (cache : DmiCache P (Icon M)) (entry : CacheEntry P (Icon M)) : Prop where
  cached : cache.cached input.identity = some entry
  decoded : decode libraries limits.decode input.bytes =
    .ok (entry.asset.icon, entry.metadataBytes)

theorem decoder_decode_ok {bytes : Bytes} {decoded : Icon M × Nat} :
    ((decoder libraries limits).decode bytes).2 = .ok decoded ↔
      decode libraries limits.decode bytes = .ok decoded := by
  rw [decoder, decode]
  dsimp only
  split
  · rename_i e hstart
    refine ⟨nofun, fun h => ?_⟩
    obtain ⟨started, hok, -⟩ := bind_ok h
    rw [hok] at hstart
    cases hstart
  · rename_i started hstart
    rw [settle_eq_ok] at hstart
    rw [hstart, ok_bind, settle_eq_ok]

omit [LinearOrder P] in
theorem prepareInput_eq_ok {prepared : PreparedDmi P (Icon M)} :
    DmiCache.prepareInput (decoder libraries limits) input = .ok prepared ↔
      ∃ icon size, decode libraries limits.decode input.bytes = .ok (icon, size) ∧
        prepared = ⟨input.identity, icon, icon.data.length * 4, size⟩ := by
  rw [DmiCache.prepareInput, bind_ok_iff]
  simp only [decoder_decode_ok]
  constructor
  · rintro ⟨⟨icon, size⟩, hdecoded, hprepared⟩
    exact ⟨icon, size, hdecoded, (Except.ok.inj hprepared).symm⟩
  · rintro ⟨icon, size, hdecoded, rfl⟩
    exact ⟨(icon, size), hdecoded, rfl⟩

-- The icon that a load gives, when it succeeds.
def iconOf (result : Except DmiError (DecodedDmi P (Icon M)) × DmiCache P (Icon M)) :
    Option (Icon M) :=
  match result.1 with
  | .ok asset => some asset.icon
  | .error _ => none

-- A file whose header is accepted and whose pixels fit what remains.
def Admitted (limits : LoadLimits) (bytes : Bytes) (remaining : Nat) : Prop :=
  ∃ size, dimensions limits.decode bytes = .ok size ∧ size.2.2 ≤ remaining

theorem decoder_dimensions (libraries : Libraries M R) {bytes : Bytes} :
    (∃ n, (decoder libraries limits).dimensions bytes = .ok n ∧ n ≤ remaining) ↔
      Admitted limits bytes remaining := by
  simp only [decoder, Admitted]
  cases dimensions limits.decode bytes with
  | ok size => simp [settle, Except.map]
  | error fault => cases fault <;> simp [settle, Except.map]

omit [LinearOrder P] in
theorem iconOf_eq_some {result : Except DmiError (DecodedDmi P (Icon M)) × DmiCache P (Icon M)}
    {icon : Icon M} : iconOf result = some icon ↔ ∃ asset, result.1 = .ok asset ∧
      asset.icon = icon := by
  rw [iconOf]
  cases result.1 with
  | ok asset => simp
  | error e => simp

theorem loadInput_hit (libraries : Libraries M R) (remaining : Nat)
    (hcached : cache.cached input.identity = some entry) (icon : Icon M) :
    iconOf (cache.loadInput limits.cache (decoder libraries limits) input remaining) = some icon ↔
      Admitted limits input.bytes remaining ∧
        Valid libraries.count limits.decode entry.asset.icon.metadata entry.asset.icon.width
          entry.asset.icon.height ∧
        entry.metadataBytes ≤ limits.decode.maxDmiMetadataBytes ∧ entry.asset.icon = icon := by
  rw [← validateMetadata_ok, ← decoder_dimensions libraries, iconOf_eq_some,
    DmiCache.loadInput, hcached]
  cases (decoder libraries limits).dimensions input.bytes with
  | error e =>
    constructor
    · rintro ⟨asset, hasset, -⟩
      cases hasset
    · rintro ⟨⟨n, hn, -⟩, -⟩
      cases hn
  | ok decodedBytes =>
    dsimp only
    split
    · rename_i hlarge
      refine ⟨by rintro ⟨asset, ⟨⟩, -⟩, ?_⟩
      rintro ⟨⟨n, hn, hroom⟩, -⟩
      obtain rfl := Except.ok.inj hn
      exact absurd hroom (not_le.mpr hlarge)
    · rename_i hroom
      have hroom := not_lt.mp hroom
      split
      · rename_i e hinvalid
        refine ⟨by rintro ⟨asset, ⟨⟩, -⟩, ?_⟩
        rintro ⟨-, hvalid, -⟩
        cases hinvalid.symm.trans hvalid
      · rename_i hvalid
        split
        · rename_i hlarge
          exact ⟨by rintro ⟨asset, ⟨⟩, -⟩, fun h => absurd h.2.2.1 (not_le.mpr hlarge)⟩
        · rename_i hsize
          simp only [Except.ok.injEq, exists_eq_left']
          exact ⟨fun heq => ⟨hroom, hvalid, not_lt.mp hsize, heq⟩, fun h => h.2.2.2⟩

theorem loadInput_miss (libraries : Libraries M R) (remaining : Nat)
    (hfresh : fresh.cached input.identity = none) (icon : Icon M) :
    iconOf (fresh.loadInput limits.cache (decoder libraries limits) input remaining) = some icon ↔
      Admitted limits input.bytes remaining ∧
        ∃ size, decode libraries limits.decode input.bytes = .ok (icon, size) := by
  rw [← decoder_dimensions libraries, iconOf_eq_some, DmiCache.loadInput, hfresh]
  cases (decoder libraries limits).dimensions input.bytes with
  | error e =>
    constructor
    · rintro ⟨asset, hasset, -⟩
      cases hasset
    · rintro ⟨⟨n, hn, -⟩, -⟩
      cases hn
  | ok decodedBytes =>
    dsimp only
    split
    · rename_i hlarge
      refine ⟨by rintro ⟨asset, ⟨⟩, -⟩, ?_⟩
      rintro ⟨⟨n, hn, hroom⟩, -⟩
      obtain rfl := Except.ok.inj hn
      exact absurd hroom (not_le.mpr hlarge)
    · rename_i hroom
      have hroom := not_lt.mp hroom
      cases hprepared : DmiCache.prepareInput (decoder libraries limits) input with
      | error e =>
        refine ⟨by rintro ⟨asset, ⟨⟩, -⟩, ?_⟩
        rintro ⟨-, size, hdecoded⟩
        have hok := prepareInput_eq_ok.mpr ⟨icon, size, hdecoded, rfl⟩
        rw [hok] at hprepared
        cases hprepared
      | ok prepared =>
        obtain ⟨icon', size, hdecoded, rfl⟩ := prepareInput_eq_ok.mp hprepared
        have hnone : ∀ decodeCount, ({ fresh with decodeCount := decodeCount } :
            DmiCache P (Icon M)).cached input.identity = none := fun _ => hfresh
        simp only [DmiCache.install, hnone, Except.ok.injEq, exists_eq_left', hdecoded]
        constructor
        · rintro rfl
          exact ⟨hroom, size, rfl⟩
        · rintro ⟨-, size', heq⟩
          exact (Prod.mk.inj heq).1

theorem evictRounds_sublist {limits : Dmi.ServerLimits} (n : Nat) (cache : DmiCache P (Icon M)) :
    (DmiCache.evictRounds limits n cache).entries.Sublist cache.entries := by
  induction n generalizing cache with
  | zero => exact List.Sublist.refl _
  | succ n ih =>
    rw [DmiCache.evictRounds]
    split
    · split
      · refine (ih _).trans ?_
        rw [DmiCache.remove]
        split
        · exact List.filter_sublist
        · exact List.Sublist.refl _
      · exact List.Sublist.refl _
    · exact List.Sublist.refl _

-- The load that puts a file into a cache is the one its entry comes from.
theorem cachedFrom_load {asset : DecodedDmi P (Icon M)}
    (hfresh : fresh.cached input.identity = none)
    (h : (fresh.loadInput limits.cache (decoder libraries limits) input remaining).1 = .ok asset)
    (hcached : (fresh.loadInput limits.cache (decoder libraries limits) input remaining).2.cached
      input.identity = some entry) :
    CachedFrom libraries limits input
      (fresh.loadInput limits.cache (decoder libraries limits) input remaining).2 entry := by
  refine ⟨hcached, ?_⟩
  simp only [DmiCache.loadInput, hfresh] at h hcached
  split at h
  · cases h
  · split at h
    · cases h
    · rename_i hsize hroom
      simp only [hsize, if_neg hroom] at hcached
      split at h
      · cases h
      · rename_i prepared hprepared
        obtain ⟨icon, size, hdecoded, rfl⟩ := prepareInput_eq_ok.mp hprepared
        have hnone : ∀ decodeCount, ({ fresh with decodeCount := decodeCount } :
            DmiCache P (Icon M)).cached input.identity = none := fun _ => hfresh
        simp only [hprepared, DmiCache.install, hnone] at hcached
        have hmem := (evictRounds_sublist _ _).subset (cached_some hcached).1
        rcases List.mem_cons.mp hmem with heq | hold
        · obtain rfl := (Prod.mk.inj heq).2
          exact hdecoded
        · simp at hold

theorem decode_other (hcodec : libraries.codec.Lawful) (h : OnlyBudgets limits limits')
    {bytes : Bytes} {icon : Icon M} {size : Nat}
    (hdecoded : decode libraries limits.decode bytes = .ok (icon, size)) (other : Icon M × Nat) :
    decode libraries limits'.decode bytes = .ok other ↔
      other = (icon, size) ∧ size ≤ limits'.decode.maxDmiMetadataBytes ∧
        (∀ text, description libraries.codec bytes limits.decode.maxDmiMetadataBytes =
          .ok (some text) → Fits limits'.decode text) ∧
        Valid libraries.count limits'.decode icon.metadata icon.width icon.height := by
  obtain ⟨started, hstarted, hrender⟩ := bind_ok hdecoded
  obtain ⟨-, -, found, hfound, -⟩ := start_facts hstarted
  obtain ⟨hmetadata, hwidth, hheight, rfl⟩ := render_eq_ok hrender
  rw [decode, bind_ok_iff]
  simp only [start_other hcodec h.pixels h.decoder hfound hstarted, hfound, Except.ok.injEq,
    hmetadata, hwidth, hheight]
  constructor
  · rintro ⟨_, ⟨rfl, hsize, hfits, hvalid⟩, hother⟩
    exact ⟨Except.ok.inj (hother.symm.trans hrender), hsize, hfits, hvalid⟩
  · rintro ⟨rfl, hsize, hfits, hvalid⟩
    exact ⟨started, ⟨rfl, hsize, hfits, hvalid⟩, hrender⟩

-- What is known of a decoded file that has a description.
theorem decode_described {bytes : Bytes} {icon : Icon M} {size : Nat} {text : Text}
    (hdecoded : decode libraries limits.decode bytes = .ok (icon, size))
    (htext : description libraries.codec bytes limits.decode.maxDmiMetadataBytes =
      .ok (some text)) :
    icon.width = widthOf bytes ∧ icon.height = heightOf bytes ∧
      libraries.metaFromStr text = .ok icon.metadata ∧ size = (utf8 text).length := by
  obtain ⟨started, hstarted, hrender⟩ := bind_ok hdecoded
  obtain ⟨hstartedWidth, hstartedHeight, found, hfound, hfacts⟩ := start_facts hstarted
  obtain ⟨hmetadata, hwidth, hheight, rfl⟩ := render_eq_ok hrender
  obtain ⟨hparsed, hsize⟩ := hfacts text (Except.ok.inj (hfound.symm.trans htext))
  exact ⟨hwidth.trans hstartedWidth, hheight.trans hstartedHeight, hmetadata ▸ hparsed, hsize⟩

-- The limits refuse the file for what the parser makes of its text, for the size of the text or
-- for its pixels.
def Refused (libraries : Libraries M R) (limits : LoadLimits) (bytes : Bytes) (remaining : Nat)
    (text : Text) : Prop :=
  ¬Admitted limits bytes remaining ∨ limits.decode.maxDmiMetadataBytes < (utf8 text).length ∨
    ∃ metadata, libraries.metaFromStr text = .ok metadata ∧
      ¬Valid libraries.count limits.decode metadata (widthOf bytes) (heightOf bytes)

theorem reload_alike_iff (hcodec : libraries.codec.Lawful) (h : OnlyBudgets limits limits')
    (hcached : CachedFrom libraries limits input cache entry)
    (hfresh : fresh.cached input.identity = none) (remaining : Nat) :
    iconOf (cache.loadInput limits'.cache (decoder libraries limits') input remaining) =
        iconOf (fresh.loadInput limits'.cache (decoder libraries limits') input remaining) ↔
      ∀ text, description libraries.codec input.bytes limits.decode.maxDmiMetadataBytes =
          .ok (some text) →
        Fits limits'.decode text ∨ Refused libraries limits' input.bytes remaining text := by
  have hdecoded := hcached.decoded
  have hmiss := @loadInput_miss _ _ _ _ limits' _ _ libraries remaining hfresh
  have hhit := @loadInput_hit _ _ _ _ limits' _ _ _ libraries remaining hcached.cached
  simp only [decode_other hcodec h hdecoded] at hmiss
  constructor
  · intro heq text htext
    obtain ⟨hwidth, hheight, hparsed, hsize⟩ := decode_described hdecoded htext
    refine or_iff_not_imp_right.mpr fun hallowed => ?_
    rw [Refused, hparsed, ← hsize, ← hwidth, ← hheight] at hallowed
    simp only [not_or, not_not, not_lt, Except.ok.injEq, exists_eq_left'] at hallowed
    obtain ⟨hadmitted, hfits, hvalid⟩ := hallowed
    have hloaded := (hhit entry.asset.icon).mpr ⟨hadmitted, hvalid, hfits, rfl⟩
    rw [heq, hmiss] at hloaded
    obtain ⟨-, _, -, -, hall, -⟩ := hloaded
    exact hall text htext
  · intro hcondition
    refine Option.ext fun icon => ?_
    rw [hhit, hmiss]
    constructor
    · rintro ⟨hadmitted, hvalid, hsize, rfl⟩
      refine ⟨hadmitted, entry.metadataBytes, rfl, hsize, fun text htext => ?_, hvalid⟩
      obtain ⟨hwidth, hheight, hparsed, hbytes⟩ := decode_described hdecoded htext
      refine (hcondition text htext).resolve_right ?_
      rintro (hnot | hlarge | ⟨metadata, hmetadata, hinvalid⟩)
      · exact hnot hadmitted
      · exact absurd (hbytes ▸ hsize) (not_le.mpr hlarge)
      · obtain rfl := Except.ok.inj (hparsed.symm.trans hmetadata)
        exact hinvalid (hwidth ▸ hheight ▸ hvalid)
    · rintro ⟨hadmitted, size, heq, hsize, -, hvalid⟩
      exact ⟨hadmitted, hvalid, hsize, (Prod.mk.inj heq).1.symm⟩

def wide : LoadLimits := ⟨⟨100, 1000, 100, 10, 8⟩, 10, 1000⟩

def narrow : LoadLimits := ⟨⟨100, 1000, 100, 10, 1⟩, 10, 1000⟩

def wallText : Text :=
  ("# BEGIN DMI\nversion = 4.0\n\twidth = 1\n\theight = 1\nstate = \"wall\"\n\tdirs = 8\n" ++
    "\tdirs = 1\n# END DMI\n").toList

def wallMetadata : Metadata Nat := ⟨1, 1, [⟨"wall".toList, 0, .one, 1, false, 0, false⟩]⟩

-- A scan line of one clear pixel behind its filter type, stored.
def clearLine : Bytes := [0x78, 1, 1, 5, 0, 0xfa, 0xff, 0, 0, 0, 0, 0, 0, 5, 0, 1]

def wallCodec : Codec where
  decompress stream limit :=
    if stream = clearLine then
      if 5 ≤ limit then .ok [0, 0, 0, 0, 0] else .error .outputTooLarge
    else .error .decompressionError
  fromUtf8 bytes := if bytes = utf8 wallText then some wallText else none

def wallLibraries : Libraries Nat Unit where
  codec := wallCodec
  png := ⟨fun _ _ => .ok (), fun _ => .ok (⟨.rgba, [0, 0, 0, 0]⟩, ()), fun _ => .ok ()⟩
  finite value := (digits value).isSome
  metaFromStr text :=
    if text = wallText then .ok wallMetadata else .error (.invalid "malformed DMI metadata")
  count := id

def wallFile : Bytes :=
  signature ++ headerStart ++ [0, 0, 0, 1, 0, 0, 0, 1, 8, 6, 0, 0, 0, 0x1f, 0x15, 0xc4, 0x89] ++
    ([0, 0, 0, 106] ++ tEXt ++ descriptionKey ++ [0] ++ utf8 wallText ++ [0xac, 0x38, 0x0e, 0x25]) ++
    ([0, 0, 0, 16] ++ IDAT ++ clearLine ++ [0x64, 0x78, 0x95, 0x38]) ++
    ([0, 0, 0, 0] ++ IEND ++ [0xae, 0x42, 0x60, 0x82])

def wallInput : DmiInput Nat := ⟨⟨7, "wall".toList, 191⟩, wallFile⟩

def wallLoad : Except DmiError (DecodedDmi Nat (Icon Nat)) × DmiCache Nat (Icon Nat) :=
  (DmiCache.empty Nat (Icon Nat)).loadInput wide.cache (decoder wallLibraries wide) wallInput 100

theorem lawful_wallCodec : wallCodec.Lawful where
  bounded stream limit output h := by
    simp only [wallCodec] at h
    split at h
    · split at h
      · rename_i hroom
        obtain rfl := Except.ok.inj h
        exact hroom
      · cases h
    · cases h
  roomy stream limit limit' output h hroom := by
    simp only [wallCodec] at h ⊢
    split at h
    · rename_i hstream
      split at h
      · obtain rfl := Except.ok.inj h
        rw [if_pos hstream]
        exact if_pos hroom
      · cases h
    · cases h
  text bytes text h := by
    simp only [wallCodec] at h
    split at h
    · rename_i hbytes
      rw [← Option.some.inj h, hbytes]
    · cases h

theorem cachedFrom_wall : ∃ entry, CachedFrom wallLibraries wide wallInput wallLoad.2 entry := by
  obtain ⟨hcached, hloaded⟩ : (wallLoad.2.cached wallInput.identity).isSome = true ∧
      (iconOf wallLoad).isSome = true := by decide +kernel
  obtain ⟨entry, hentry⟩ := Option.isSome_iff_exists.mp hcached
  obtain ⟨icon, hicon⟩ := Option.isSome_iff_exists.mp hloaded
  obtain ⟨asset, hasset, -⟩ := iconOf_eq_some.mp hicon
  exact ⟨entry, cachedFrom_load rfl hasset hentry⟩

theorem wall_cached : (iconOf (wallLoad.2.loadInput narrow.cache (decoder wallLibraries narrow)
    wallInput 100)).isSome = true := by
  decide +kernel

theorem wall_fresh : (iconOf ((DmiCache.empty Nat (Icon Nat)).loadInput narrow.cache
    (decoder wallLibraries narrow) wallInput 100)).isSome = false := by
  decide +kernel

-- The directions of the one state are eight at first and then one.
theorem reload_differs :
    OnlyBudgets wide narrow ∧ (∃ entry, CachedFrom wallLibraries wide wallInput wallLoad.2 entry) ∧
      (iconOf (wallLoad.2.loadInput narrow.cache (decoder wallLibraries narrow) wallInput
        100)).isSome = true ∧
      (iconOf ((DmiCache.empty Nat (Icon Nat)).loadInput narrow.cache
        (decoder wallLibraries narrow) wallInput 100)).isSome = false :=
  ⟨⟨rfl, rfl, rfl, rfl⟩, cachedFrom_wall, wall_cached, wall_fresh⟩

theorem reload_alike_iff_wall :
    ∃ text, description wallCodec wallFile 1000 = .ok (some text) ∧ ¬Fits narrow.decode text := by
  obtain ⟨entry, hcached⟩ := cachedFrom_wall
  have hiff := @reload_alike_iff _ _ _ _ wallLibraries wide narrow wallInput _
    (DmiCache.empty Nat (Icon Nat)) entry lawful_wallCodec ⟨rfl, rfl, rfl, rfl⟩ hcached rfl 100
  have hdiffer : ¬iconOf (wallLoad.2.loadInput narrow.cache (decoder wallLibraries narrow)
      wallInput 100) = iconOf ((DmiCache.empty Nat (Icon Nat)).loadInput narrow.cache
        (decoder wallLibraries narrow) wallInput 100) := by
    intro heq
    have hsame := congrArg Option.isSome heq
    rw [wall_cached, wall_fresh] at hsame
    cases hsame
  simp only [hiff, not_forall, not_or] at hdiffer
  obtain ⟨text, htext, hfits, -⟩ := hdiffer
  exact ⟨text, htext, hfits⟩

end DmiDecode
