import MeridianMcp.Dmi.Retention

namespace Dmi

open MeridianMcp Effects DmiCache

variable {P I : Type} [LinearOrder P] {limits : ServerLimits} {decoder : Decoder I} {cache after : DmiCache P I}
  {operation : CacheOperation P I} {result : Except DmiError (DecodedDmi P I)}
  {offered : Entries P I}

def CacheOperation.identity : CacheOperation P I → DmiAssetId P
  | .loadInput input _ => input.identity
  | .install prepared => prepared.identity

def CacheOperation.size (decoder : Decoder I) : CacheOperation P I → Nat
  | .loadInput input _ =>
    match (decoder.decode input.bytes).2 with
    | .ok (icon, _) => decoder.dataLen icon * 4
    | .error _ => 0
  | .install prepared => prepared.decodedBytes

structure Unsaturated (decoder : Decoder I) (cache : DmiCache P I) (operation : CacheOperation P I) : Prop where
  clock : cache.clock < maxCounter
  generation : cache.nextGeneration < maxCounter
  bytes : cache.decodedBytes + operation.size decoder ≤ maxCounter

-- What an operation on `identity` does: its result, the entries that it offers to the eviction,
-- and the cache that it leaves.
inductive CacheStep (limits : ServerLimits) (cache : DmiCache P I) (identity : DmiAssetId P) :
    Except DmiError (DecodedDmi P I) → Entries P I → DmiCache P I → Prop
  | failed (e : DmiError) (decodeCount : Nat) :
    CacheStep limits cache identity (.error e) cache.entries { cache with decodeCount := decodeCount }
  | hit (entry : CacheEntry P I) : cache.cached identity = some entry →
    CacheStep limits cache identity (.ok entry.asset) (touch cache.entries identity.path (cache.clock + 1))
      { cache with entries := touch cache.entries identity.path (cache.clock + 1), clock := cache.clock + 1 }
  | installed (asset : DecodedDmi P I) (new : CacheEntry P I) (inserted : DmiCache P I) :
    cache.cached identity = none → asset.identity = identity → asset.assetGeneration = cache.nextGeneration + 1 →
    new.asset = asset → new.lastUse = cache.clock + 1 →
    inserted.entries = (identity.path, new) :: cache.entries.filter (fun e => e.1 ≠ identity.path) →
    inserted.decodedBytes = total inserted.entries →
    inserted.clock = cache.clock + 1 → inserted.nextGeneration = cache.nextGeneration + 1 →
    CacheStep limits cache identity (.ok asset) inserted.entries (evict limits inserted)

theorem saturatingAdd_one {n : Nat} (h : n < maxCounter) : saturatingAdd n 1 = n + 1 := min_eq_left h

theorem insert_total {path : P} {new : CacheEntry P I} (h : Distinct cache.entries)
    (hcounted : cache.decodedBytes = total cache.entries) (hbytes : cache.decodedBytes + new.decodedBytes ≤ maxCounter) :
    (cache.insert path new).decodedBytes = total (cache.insert path new).entries := by
  have hsum : total (cache.insert path new).entries =
      new.decodedBytes + total (cache.entries.filter fun e => e.1 ≠ path) := by
    simp only [DmiCache.insert, total, List.map_cons, List.sum_cons]
  rw [hsum]
  unfold DmiCache.insert
  cases hentry : cache.entry path with
  | none =>
    have hself : cache.entries.filter (fun e => e.1 ≠ path) = cache.entries :=
      List.filter_eq_self.mpr fun e he => by simpa using entry_none hentry e he
    rw [hself]
    dsimp only
    rw [saturatingAdd, min_eq_left hbytes]
    omega
  | some old =>
    have hfilter := total_filter h (entry_some hentry)
    dsimp only at hfilter ⊢
    have hrest : cache.decodedBytes - old.decodedBytes = total (cache.entries.filter fun e => e.1 ≠ path) := by
      rw [hcounted, ← hfilter, Nat.add_sub_cancel]
    have hroom : cache.decodedBytes - old.decodedBytes + new.decodedBytes ≤ maxCounter :=
      (Nat.add_le_add_right (Nat.sub_le _ _) _).trans hbytes
    rw [saturatingAdd, min_eq_left hroom, hrest, add_comm]

theorem install_new {prepared : PreparedDmi P I} (decodeCount : Nat) (h : Sane limits cache)
    (hclock : cache.clock < maxCounter) (hgeneration : cache.nextGeneration < maxCounter)
    (hbytes : cache.decodedBytes + prepared.decodedBytes ≤ maxCounter)
    (hcached : cache.cached prepared.identity = none) :
    ∃ offered, CacheStep limits cache prepared.identity
      (.ok (({ cache with decodeCount := decodeCount } : DmiCache P I).install limits prepared).1) offered
      (({ cache with decodeCount := decodeCount } : DmiCache P I).install limits prepared).2 := by
  have hnone : ({ cache with decodeCount := decodeCount } : DmiCache P I).cached prepared.identity = none := hcached
  unfold install
  rw [hnone, saturatingAdd_one hclock, saturatingAdd_one hgeneration]
  dsimp only
  refine ⟨_, .installed _ ⟨⟨prepared.identity, prepared.icon, cache.nextGeneration + 1, prepared.metadataBytes⟩,
    prepared.decodedBytes, cache.clock + 1, prepared.metadataBytes⟩ _ hcached rfl rfl rfl rfl ?_ ?_ ?_ ?_⟩
  · rfl
  · exact insert_total h.distinct h.counted hbytes
  · rfl
  · rfl

theorem perform_step (h : Sane limits cache) (hroom : Unsaturated decoder cache operation) :
    ∃ offered, CacheStep limits cache operation.identity (operation.perform limits decoder cache).1 offered
      (operation.perform limits decoder cache).2 := by
  obtain ⟨hclock, hgeneration, hbytes⟩ := hroom
  cases operation with
  | install prepared =>
    cases hcached : cache.cached prepared.identity with
    | some entry =>
      simp only [CacheOperation.perform, install, hcached, saturatingAdd_one hclock]
      exact ⟨_, .hit entry hcached⟩
    | none => exact install_new cache.decodeCount h hclock hgeneration hbytes hcached
  | loadInput input remainingDecodedBytes =>
    simp only [CacheOperation.perform, loadInput]
    split
    · exact ⟨_, .failed _ _⟩
    · split
      · exact ⟨_, .failed _ _⟩
      · split
        · rename_i entry hcached
          split
          · exact ⟨_, .failed _ _⟩
          · split
            · exact ⟨_, .failed _ _⟩
            · rw [saturatingAdd_one hclock]
              exact ⟨_, .hit entry hcached⟩
        · rename_i hcached
          split
          · exact ⟨_, .failed _ _⟩
          · rename_i prepared hprepared
            simp only [CacheOperation.size] at hbytes
            unfold prepareInput at hprepared
            cases hdecode : (decoder.decode input.bytes).2 with
            | error e =>
              rw [hdecode] at hprepared
              cases hprepared
            | ok decoded =>
              rw [hdecode] at hprepared hbytes
              cases hprepared
              exact @install_new P I _ limits cache
                ⟨input.identity, decoded.1, decoder.dataLen decoded.1 * 4, decoded.2⟩ _ h hclock hgeneration hbytes
                hcached

theorem touch_paths (entries : Entries P I) (path : P) (clock : Nat) :
    (touch entries path clock).map Prod.fst = entries.map Prod.fst := by
  rw [touch, List.map_map]
  refine List.map_congr_left fun e _ => ?_
  dsimp only [Function.comp_apply]
  split <;> rfl

theorem mem_touch {entries : Entries P I} {path : P} {clock : Nat} {r : P × CacheEntry P I}
    (h : r ∈ touch entries path clock) : ∃ e ∈ entries, r.1 = e.1 ∧ r.2.asset = e.2.asset ∧
      r.2.decodedBytes = e.2.decodedBytes ∧ r.2.lastUse = if e.1 = path then clock else e.2.lastUse := by
  obtain ⟨e, he, rfl⟩ := List.mem_map.mp h
  refine ⟨e, he, ?_⟩
  split <;> exact ⟨rfl, rfl, rfl, rfl⟩

theorem total_touch (entries : Entries P I) (path : P) (clock : Nat) :
    total (touch entries path clock) = total entries := by
  rw [total, touch, List.map_map]
  congr 1
  refine List.map_congr_left fun e _ => ?_
  dsimp only [Function.comp_apply]
  split <;> rfl

theorem distinct_touch {entries : Entries P I} {clock : Nat} (h : Distinct entries)
    (hclocked : ∀ e ∈ entries, e.2.lastUse ≤ clock) (path : P) : Distinct (touch entries path (clock + 1)) := by
  refine ⟨?_, ?_⟩
  · rw [touch_paths]
    exact h.paths
  · rw [touch, List.map_map]
    have hnodup : entries.Nodup := List.Nodup.of_map _ h.paths
    refine hnodup.map_on fun e he r hr heq => ?_
    have hle := hclocked e he
    have hle' := hclocked r hr
    dsimp only [Function.comp_apply] at heq
    split at heq <;> rename_i hpath <;> split at heq <;> rename_i hpath'
    · exact h.eq_of_path he hr (hpath.trans hpath'.symm)
    · dsimp only at heq
      omega
    · dsimp only at heq
      omega
    · exact h.eq_of_use he hr heq

theorem distinct_cons {entries : Entries P I} {path : P} {new : CacheEntry P I} {clock : Nat} (h : Distinct entries)
    (hclocked : ∀ e ∈ entries, e.2.lastUse ≤ clock) (huse : new.lastUse = clock + 1) :
    Distinct ((path, new) :: entries.filter fun e => e.1 ≠ path) := by
  have hrest : Distinct (entries.filter fun e => e.1 ≠ path) := h.sublist List.filter_sublist
  refine ⟨?_, ?_⟩
  · refine List.nodup_cons.mpr ⟨?_, hrest.paths⟩
    intro hmem
    obtain ⟨e, he, hpath⟩ := List.mem_map.mp hmem
    simpa [hpath] using (List.mem_filter.mp he).2
  · refine List.nodup_cons.mpr ⟨?_, hrest.uses⟩
    intro hmem
    obtain ⟨e, he, hsame⟩ := List.mem_map.mp hmem
    have hle := hclocked e (List.mem_of_mem_filter he)
    dsimp only at hsame
    omega

theorem step_sane (h : Sane limits cache) {identity : DmiAssetId P}
    (hstep : CacheStep limits cache identity result offered after) :
    Sane limits after ∧ Retains limits offered after.entries := by
  cases hstep with
  | failed e decodeCount =>
    exact ⟨⟨h.distinct, h.clocked, h.generated, h.keyed, h.counted, h.fits⟩, retains_refl h.fits⟩
  | hit entry hcached =>
    have hfits : Fits limits (touch cache.entries identity.path (cache.clock + 1)) := by
      rw [Fits, total_touch, touch, List.length_map]
      exact h.fits
    refine ⟨⟨distinct_touch h.distinct h.clocked _, ?_, ?_, ?_, ?_, hfits⟩, retains_refl hfits⟩
    · intro r hr
      obtain ⟨e, he, -, -, -, huse⟩ := mem_touch hr
      have hle := h.clocked e he
      rw [huse]
      dsimp only
      split <;> omega
    · intro r hr
      obtain ⟨e, he, -, hasset, -⟩ := mem_touch hr
      rw [hasset]
      exact h.generated e he
    · intro r hr
      obtain ⟨e, he, hpath, hasset, -⟩ := mem_touch hr
      rw [hasset, hpath]
      exact h.keyed e he
    · rw [total_touch]
      exact h.counted
  | installed asset new inserted hnone hidentity hgeneration hnew huse hentries hcounted hclock hnext =>
    have hdistinct : Distinct inserted.entries := by
      rw [hentries]
      exact distinct_cons h.distinct h.clocked huse
    obtain ⟨hretains, htotal, hclock', hnext'⟩ :=
      @evictRounds_retains P I _ limits inserted inserted.entries.length hdistinct hcounted le_rfl
    have hmem : ∀ e ∈ (evict limits inserted).entries, e = (identity.path, new) ∨ e ∈ cache.entries := by
      intro e he
      have hoffered := hretains.sublist.subset he
      rw [hentries] at hoffered
      exact (List.mem_cons.mp hoffered).imp id List.mem_of_mem_filter
    have hclockEq : (evict limits inserted).clock = cache.clock + 1 := hclock'.trans hclock
    have hnextEq : (evict limits inserted).nextGeneration = cache.nextGeneration + 1 := hnext'.trans hnext
    refine ⟨⟨hdistinct.sublist hretains.sublist, ?_, ?_, ?_, htotal, hretains.fits⟩, hretains⟩
    · intro e he
      rw [hclockEq]
      rcases hmem e he with rfl | hold
      · exact huse.le
      · exact Nat.le_succ_of_le (h.clocked e hold)
    · intro e he
      rw [hnextEq]
      rcases hmem e he with rfl | hold
      · rw [hnew]
        exact hgeneration.le
      · exact Nat.le_succ_of_le (h.generated e hold)
    · intro e he
      rcases hmem e he with rfl | hold
      · rw [hnew, hidentity]
      · exact h.keyed e hold

theorem perform_sane (h : Sane limits cache) (hroom : Unsaturated decoder cache operation) :
    Sane limits (operation.perform limits decoder cache).2 := by
  obtain ⟨offered, hstep⟩ := perform_step h hroom
  exact (step_sane h hstep).1

theorem cached_some {identity : DmiAssetId P} {entry : CacheEntry P I} (h : cache.cached identity = some entry) :
    (identity.path, entry) ∈ cache.entries ∧ entry.asset.identity.sha256 = identity.sha256 := by
  obtain ⟨hentry, hsame⟩ := Option.filter_eq_some_iff.mp h
  exact ⟨entry_some hentry, by simpa using hsame⟩

theorem cached_congr {identity identity' : DmiAssetId P} (hpath : identity.path = identity'.path)
    (hsha : identity.sha256 = identity'.sha256) : cache.cached identity = cache.cached identity' := by
  rw [cached, cached, hpath, hsha]

omit [LinearOrder P] in
theorem sane_empty : Sane limits (DmiCache.empty P I) :=
  ⟨⟨List.nodup_nil, List.nodup_nil⟩, fun _ => nofun, fun _ => nofun, fun _ => nofun, rfl, Nat.zero_le _, Nat.zero_le _⟩

abbrev CacheRuns (limits : ServerLimits) (decoder : Decoder I) :
    List (DmiCache P I × CacheOperation P I) → DmiCache P I → Prop :=
  Trace (fun cache operation => some (operation.perform limits decoder cache).2) (DmiCache.empty P I)

-- A new installation and the generation it hands out.
def Installs (limits : ServerLimits) (decoder : Decoder I) (cache : DmiCache P I) (operation : CacheOperation P I)
    (generation : Nat) : Prop :=
  cache.cached operation.identity = none ∧
    ∃ asset, (operation.perform limits decoder cache).1 = .ok asset ∧ asset.assetGeneration = generation

structure Disciplined (limits : ServerLimits) (decoder : Decoder I) (trace : List (DmiCache P I × CacheOperation P I))
    (cache : DmiCache P I) : Prop where
  counted : ∀ v ∈ visited trace cache, v.decodedBytes = total v.entries
  limited : ∀ v ∈ visited trace cache,
    v.entries.length ≤ limits.maxDmiCacheEntries ∧ v.decodedBytes ≤ limits.maxDmiCacheBytes
  clocked : ∀ v ∈ visited trace cache, ∀ e ∈ v.entries, e.2.lastUse ≤ v.clock
  retained : ∀ m ∈ trace, ∃ offered, CacheStep limits m.1 m.2.identity (m.2.perform limits decoder m.1).1 offered
    (m.2.perform limits decoder m.1).2 ∧ Retains limits offered (m.2.perform limits decoder m.1).2.entries
  generations : trace.Pairwise fun m m' => ∀ g g', Installs limits decoder m.1 m.2 g →
    Installs limits decoder m'.1 m'.2 g' → g < g'
  stable : ∀ first m second, trace = first ++ m :: second → ∀ identity entry, m.1.cached identity = some entry →
    (∀ m' ∈ second, (m'.1.cached identity).isSome) → ∀ m' ∈ m :: second, m'.2.identity.path = identity.path →
    m'.2.identity.sha256 = identity.sha256 → ∀ asset, (m'.2.perform limits decoder m'.1).1 = .ok asset →
    asset.assetGeneration = entry.asset.assetGeneration

theorem installs_generation {generation : Nat} (h : Sane limits cache) (hroom : Unsaturated decoder cache operation)
    (hinstalls : Installs limits decoder cache operation generation) :
    generation = cache.nextGeneration + 1 ∧
      (operation.perform limits decoder cache).2.nextGeneration = cache.nextGeneration + 1 := by
  obtain ⟨hnone, asset, hasset, rfl⟩ := hinstalls
  obtain ⟨offered, hstep⟩ := perform_step h hroom
  generalize hresult : (operation.perform limits decoder cache).1 = result at hstep hasset
  generalize hafter : (operation.perform limits decoder cache).2 = after at hstep ⊢
  cases hstep with
  | failed e decodeCount => cases hasset
  | hit entry hcached =>
    rw [hnone] at hcached
    cases hcached
  | installed asset new inserted hcached hidentity hgeneration hnew huse hentries hcounted hclock hnext =>
    cases hasset
    have hdistinct : Distinct inserted.entries := by
      rw [hentries]
      exact distinct_cons h.distinct h.clocked huse
    have hkept := (@evictRounds_retains P I _ limits inserted inserted.entries.length hdistinct hcounted le_rfl).2.2.2
    exact ⟨hgeneration, hkept.trans hnext⟩

theorem perform_generation (h : Sane limits cache) (hroom : Unsaturated decoder cache operation) :
    cache.nextGeneration ≤ (operation.perform limits decoder cache).2.nextGeneration := by
  by_cases hinstalls : ∃ g, Installs limits decoder cache operation g
  · obtain ⟨g, hinstalls⟩ := hinstalls
    rw [(installs_generation h hroom hinstalls).2]
    exact Nat.le_succ _
  · obtain ⟨offered, hstep⟩ := perform_step h hroom
    generalize hresult : (operation.perform limits decoder cache).1 = result at hstep
    generalize hafter : (operation.perform limits decoder cache).2 = after at hstep ⊢
    cases hstep with
    | failed e decodeCount => exact le_rfl
    | hit entry hcached => exact le_rfl
    | installed asset new inserted hcached hidentity hgeneration hnew huse hentries hcounted hclock hnext =>
      exact absurd ⟨_, hcached, asset, hresult, rfl⟩ hinstalls

-- All entries for one content of one file have one generation.
def Generation (path : P) (sha256 : Text) (generation : Nat) (cache : DmiCache P I) : Prop :=
  ∀ e ∈ cache.entries, e.1 = path → e.2.asset.identity.sha256 = sha256 → e.2.asset.assetGeneration = generation

theorem step_generation {identity identity' : DmiAssetId P} {generation : Nat} (h : Sane limits cache)
    (hsome : (cache.cached identity).isSome) (hgeneration : Generation identity.path identity.sha256 generation cache)
    (hstep : CacheStep limits cache identity' result offered after) :
    Generation identity.path identity.sha256 generation after ∧
      (identity'.path = identity.path → identity'.sha256 = identity.sha256 → ∀ asset, result = .ok asset →
        asset.assetGeneration = generation) := by
  have hretains := (step_sane h hstep).2
  cases hstep with
  | failed e decodeCount => exact ⟨hgeneration, fun _ _ _ => nofun⟩
  | hit entry hcached =>
    refine ⟨?_, ?_⟩
    · intro r hr hpath hsha
      obtain ⟨e, he, hsame, hasset, -⟩ := mem_touch hr
      rw [hasset] at hsha ⊢
      exact hgeneration e he (hsame.symm.trans hpath) hsha
    · intro hpath hsha asset hasset
      cases hasset
      obtain ⟨hmem, hsame⟩ := cached_some hcached
      exact hgeneration _ hmem hpath (hsame.trans hsha)
  | installed asset new inserted hcached hidentity hnext hnew huse hentries hcounted hclock hnext' =>
    have hother : ¬ (identity'.path = identity.path ∧ identity'.sha256 = identity.sha256) := by
      rintro ⟨hpath, hsha⟩
      rw [← cached_congr hpath hsha, hcached] at hsome
      cases hsome
    refine ⟨?_, fun hpath hsha => absurd ⟨hpath, hsha⟩ hother⟩
    intro e he hpath hsha
    have hoffered := hretains.sublist.subset he
    rw [hentries] at hoffered
    rcases List.mem_cons.mp hoffered with rfl | hold
    · rw [hnew, hidentity] at hsha
      exact absurd ⟨hpath, hsha⟩ hother
    · exact hgeneration e (List.mem_of_mem_filter hold) hpath hsha

theorem cache_disciplined {trace : List (DmiCache P I × CacheOperation P I)}
    (hrun : CacheRuns limits decoder trace cache) (hroom : ∀ m ∈ trace, Unsaturated decoder m.1 m.2) :
    Disciplined limits decoder trace cache := by
  have hsane : ∀ v ∈ visited trace cache, Sane limits v := by
    apply hrun.guarded sane_empty _ hroom
    rintro w operation _ hw hguard ⟨⟩
    exact perform_sane hw hguard
  have hmember : ∀ m ∈ trace, Sane limits m.1 := fun m hm => hsane m.1 (mem_visited_of_mem hm)
  constructor
  · exact fun v hv => (hsane v hv).counted
  · intro v hv
    rw [(hsane v hv).counted]
    exact (hsane v hv).fits
  · exact fun v hv => (hsane v hv).clocked
  · intro m hm
    obtain ⟨offered, hstep⟩ := perform_step (hmember m hm) (hroom m hm)
    exact ⟨offered, hstep, (step_sane (hmember m hm) hstep).2⟩
  · have hlater := fun g => (hrun.restrict hroom).afterwards (I := Sane limits)
      (A := fun w operation => Installs limits decoder w operation g) (B := fun w => g ≤ w.nextGeneration) sane_empty
      (by
        rintro w operation w' hw hs
        obtain ⟨hguard, hs⟩ := restricted_some.mp hs
        cases hs
        exact perform_sane hw hguard)
      (by
        rintro w operation w' hw hs hinstalls
        obtain ⟨hguard, hs⟩ := restricted_some.mp hs
        cases hs
        obtain ⟨hg, hnext⟩ := installs_generation hw hguard hinstalls
        rw [hnext]
        exact hg.le)
      (by
        rintro w operation w' hw hs hle
        obtain ⟨hguard, hs⟩ := restricted_some.mp hs
        cases hs
        exact hle.trans (perform_generation hw hguard))
    refine List.pairwise_iff_getElem.mpr fun i j hi hj hij g g' hinstalls hinstalls' => ?_
    have hle := List.pairwise_iff_getElem.mp (hlater g) i j hi hj hij hinstalls
    have hmem := List.getElem_mem hj
    rw [(installs_generation (hmember _ hmem) (hroom _ hmem) hinstalls').1]
    exact Nat.lt_succ_of_le hle
  · intro first m second hsplit identity entry hentry hcached m' hm' hpath hsha asset hasset
    subst hsplit
    obtain ⟨v, -, hrest⟩ := hrun.split
    obtain rfl := hrest.head_eq
    have hguard : ∀ m' ∈ m :: second, Unsaturated decoder m'.1 m'.2 ∧ (m'.1.cached identity).isSome := by
      intro m' hm'
      refine ⟨hroom m' (List.mem_append_right first hm'), ?_⟩
      rcases List.mem_cons.mp hm' with rfl | hm'
      · rw [hentry]
        rfl
      · exact hcached m' hm'
    have hsaneStart : Sane limits m.1 := hmember m (List.mem_append_right first List.mem_cons_self)
    have hstart : Generation identity.path identity.sha256 entry.asset.assetGeneration m.1 := by
      intro e he hpath hsha
      rw [hsaneStart.distinct.eq_of_path he (cached_some hentry).1 hpath]
    have hkeeps : ∀ (w : DmiCache P I) (operation : CacheOperation P I) (w' : DmiCache P I),
        Sane limits w ∧ Generation identity.path identity.sha256 entry.asset.assetGeneration w →
        Unsaturated decoder w operation ∧ (w.cached identity).isSome →
        some (operation.perform limits decoder w).2 = some w' →
        Sane limits w' ∧ Generation identity.path identity.sha256 entry.asset.assetGeneration w' := by
      rintro w operation _ ⟨hw, hgeneration⟩ ⟨hroom, hsome⟩ ⟨⟩
      obtain ⟨offered, hstep⟩ := perform_step hw hroom
      exact ⟨perform_sane hw hroom, (step_generation hw hsome hgeneration hstep).1⟩
    have hboth := hrest.guarded ⟨hsaneStart, hstart⟩ hkeeps hguard
    obtain ⟨hw, hgeneration⟩ := hboth m'.1 (mem_visited_of_mem hm')
    obtain ⟨offered, hstep⟩ := perform_step hw (hguard m' hm').1
    exact (step_generation hw (hguard m' hm').2 hgeneration hstep).2 hpath hsha asset hasset

def smallLimits : ServerLimits := ⟨100, 2, 100⟩

-- The image of a file is its number of pixels, which is its length.
def lengthDecoder : Decoder Nat where
  dimensions := fun bytes => .ok (bytes.length * 4)
  validateMetadata := fun _ => .ok ()
  decode := fun bytes => (true, .ok (bytes.length, 0))
  dataLen := id

def loads : List (Nat × Text) := [(1, ['a']), (2, ['b']), (1, ['a']), (3, ['c']), (1, ['d'])]

def loading (load : Nat × Text) : CacheOperation Nat Nat := .loadInput ⟨⟨load.1, load.2, 1⟩, [0]⟩ 100

def loaded : List (DmiCache Nat Nat × CacheOperation Nat Nat) × DmiCache Nat Nat :=
  replay (fun cache operation => some (operation.perform smallLimits lengthDecoder cache).2) (loads.map loading)
    (DmiCache.empty Nat Nat)

theorem cache_disciplined_loads : Disciplined smallLimits lengthDecoder loaded.1 loaded.2 := by
  apply cache_disciplined (Trace.replay (loads.map loading))
  have hroom : ∀ m ∈ loaded.1, m.1.clock < maxCounter ∧ m.1.nextGeneration < maxCounter ∧
      m.1.decodedBytes + m.2.size lengthDecoder ≤ maxCounter := by
    decide
  exact fun m hm => ⟨(hroom m hm).1, (hroom m hm).2.1, (hroom m hm).2.2⟩

end Dmi
