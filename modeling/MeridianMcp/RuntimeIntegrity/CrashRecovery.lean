import MeridianMcp.PrivateState.CrashPoints
import MeridianMcp.RuntimeIntegrity.Recovery

namespace RuntimeIntegrity

open Effects Fallible PrivateState MeridianMcp

variable {α : Type} {codec : JsonCodec α} {relative : List Component} {v : α} {env : Env WriteSite}
  {fs s t u : FileSystem String} {par : Path String} {n a : String} {content : Bytes}

def listed (ns : List Component) (maxEntries : Nat) (fs : FileSystem String) :
    Option (List (Path String)) :=
  (exec Env.sound.serve (listRecords ns maxEntries) fs).1.toOption

def recoveredSummaries (env : RecoveryEnv) (fs : FileSystem String) :
    Option (List RuntimeIntegritySummary) :=
  (recoverUnfinished env (records fs)).map Prod.fst

def writeResult (codec : JsonCodec α) (relative : List Component) (v : α) (env : Env WriteSite)
    (fs : FileSystem String) : FileSystem String :=
  (exec env.serve (writeJsonAtomic codec relative v) fs).2

structure CrashSafe (codec : JsonCodec α) (relative : List Component) (v : α)
    (fs final t : FileSystem String) : Prop where
  record : (t.node (recordPath relative) = fs.node (recordPath relative) ∧
      (readBack codec relative t).toOption = (readBack codec relative fs).toOption) ∨
    readBack codec relative t = .ok v
  listing : ∀ ns maxEntries,
    listed ns maxEntries t = listed ns maxEntries fs ∨ listed ns maxEntries t = listed ns maxEntries final
  recovery : ∀ env,
    recoveredSummaries env t = recoveredSummaries env fs ∨
      recoveredSummaries env t = recoveredSummaries env final

def performed (env : Env WriteSite) (fs : FileSystem String) (relative : List Component)
    (done : List (Call WriteSite String)) : List Step :=
  done.filterMap (FsProg.marked (step env fs (recordPath relative).dropLast))

structure Tidy (codec : JsonCodec α) (relative : List Component) (v : α) (fs : FileSystem String)
    (ms : List Step) : Prop where
  fits : .installed ∈ ms → (codec.encode v).length < maxRecordBytes ∨
    fs.node (recordPath relative) = some (.file (codec.encode v ++ [10]))
  restored : .backedUp ∈ ms → .installed ∈ ms
  clean : (recordPath relative).dropLast ≠ [] →
    (.created ∈ ms → .installed ∈ ms) ∧ (.backedUp ∈ ms → .removed ∈ ms)

theorem listed_eq (ns : List Component) (maxEntries : Nat) (fs : FileSystem String) :
    listed ns maxEntries fs = (records fs).listing ns maxEntries :=
  listing_records ns maxEntries

theorem readBack_toOption (codec : JsonCodec α) (relative : List Component) (fs : FileSystem String) :
    (readBack codec relative fs).toOption = (records fs).reading codec.decode relative :=
  reading_records codec relative

theorem crashSafe_of_agree (stray : String → Prop) {final : FileSystem String}
    (hlock : ¬ stray ".meridian-mcp.lock") (hns : ¬ stray "runtime-integrity")
    (hp : ∀ x, stray x → recordPath relative ≠ [x])
    (h : Records.Agree stray (records t) (records fs))
    (hslot : t.node (recordPath relative) = fs.node (recordPath relative)) :
    CrashSafe codec relative v fs final t where
  record := by
    rw [readBack_toOption, readBack_toOption, h.reading hlock hp]
    exact .inl ⟨hslot, rfl⟩
  listing ns maxEntries := by
    rw [listed_eq, listed_eq, h.listing hlock]
    exact .inl rfl
  recovery renv := .inl (recoverUnfinished_agree hlock hns h)

theorem crashSafe_of_final {stray : String → Prop} {final : FileSystem String}
    (hlock : ¬ stray ".meridian-mcp.lock") (hns : ¬ stray "runtime-integrity")
    (h : Records.Agree stray (records t) (records final))
    (hread : readBack codec relative t = .ok v) : CrashSafe codec relative v fs final t where
  record := .inr hread
  listing ns maxEntries := by
    rw [listed_eq, listed_eq ns maxEntries final, h.listing hlock]
    exact .inr rfl
  recovery renv := .inr (recoverUnfinished_agree hlock hns h)

theorem agree_of_eq {stray : String → Prop} {m m' : Records} (h : m = m') :
    Records.Agree stray m m' := fun q => .inl (by rw [h])

theorem mem_listing {m : Records} {ns : List Component} {maxEntries : Nat}
    {paths : List (Path String)} (h : m.listing ns maxEntries = some paths) (q : Path String) :
    q ∈ paths ↔ q ∈ m.below (recordPath ns) := by
  unfold Records.listing at h
  split at h
  · cases h
  · simp only at h
    split at h
    · cases h
    · split at h
      · cases h
      · cases h
        exact Finset.mem_sort _

theorem listing_isSome {m : Records} {ns : List Component} {maxEntries : Nat} :
    (m.listing ns maxEntries).isSome = true ↔ m.Open ns ∧
      (∀ q ∈ m.below (recordPath ns), ¬ (m.get q).any (fun e => !Records.isRecord e) = true) ∧
      (m.below (recordPath ns)).card ≤ min maxEntries maxRecords := by
  unfold Records.listing
  by_cases hopen : m.Open ns
  · rw [if_neg (not_not.mpr hopen)]
    simp only
    by_cases hlinks : ∃ q ∈ m.below (recordPath ns), (m.get q).any (fun e => !Records.isRecord e) = true
    · rw [if_pos hlinks]
      obtain ⟨q, hq, hlink⟩ := hlinks
      exact iff_of_false (by simp) (fun h => h.2.1 q hq hlink)
    · rw [if_neg hlinks]
      have hnone : ∀ q ∈ m.below (recordPath ns),
          ¬ (m.get q).any (fun e => !Records.isRecord e) = true := fun q hq hlink => hlinks ⟨q, hq, hlink⟩
      by_cases hcard : (m.below (recordPath ns)).card > min maxEntries maxRecords
      · rw [if_pos hcard]
        exact iff_of_false (by simp) (fun h => absurd h.2.2 (by omega))
      · rw [if_neg hcard]
        exact iff_of_true rfl ⟨hopen, hnone, by omega⟩
  · rw [if_pos hopen]
    exact iff_of_false (by simp) (fun h => hopen h.1)

theorem listing_grows {m m' : Records} {ns : List Component} {p : Path String} {b : Bytes}
    (hp : p ≠ lockPath) (hns : ¬ p <+: recordPath ns)
    (hget : ∀ q, m'.get q = if q = p then some (.record b) else m.get q)
    (h : (m.listing ns (maxRecords - 1)).isSome = true) :
    (m.listing ns maxRecords).isSome = true ∧ (m'.listing ns maxRecords).isSome = true := by
  rw [listing_isSome] at h
  obtain ⟨hopen, hlinks, hcard⟩ := h
  have hbound : (m.below (recordPath ns)).card ≤ maxRecords - 1 := hcard.trans (by simp)
  have hmax : 0 < maxRecords := by decide
  have hsub : m'.below (recordPath ns) ⊆ insert p (m.below (recordPath ns)) := by
    intro q hq
    rw [Records.below, Finset.mem_filter, FinMap.mem_keys, hget] at hq
    rw [Finset.mem_insert, Records.below, Finset.mem_filter, FinMap.mem_keys]
    by_cases hqp : q = p
    · exact .inl hqp
    · rw [if_neg hqp] at hq
      exact .inr hq
  have hother : ∀ q, q <+: recordPath ns → m'.get q = m.get q := by
    intro q hq
    rw [hget, if_neg]
    rintro rfl
    exact hns hq
  refine ⟨listing_isSome.mpr ⟨hopen, hlinks, by omega⟩, listing_isSome.mpr ⟨?_, ?_, ?_⟩⟩
  · obtain ⟨hlock, hname, hparent, hslot⟩ := hopen
    refine ⟨?_, hname, ?_, ?_⟩
    · rwa [Records.locked, hget, if_neg (Ne.symm hp)]
    · rwa [Records.linked, hother _ (List.dropLast_prefix _)]
    · rwa [Records.linked, hother _ List.prefix_rfl]
  · intro q hq
    rw [hget]
    by_cases hqp : q = p
    · simp [hqp, Records.isRecord]
    · rw [if_neg hqp]
      exact hlinks q ((Finset.mem_insert.mp (hsub hq)).resolve_left hqp)
  · have hle := (Finset.card_le_card hsub).trans (Finset.card_insert_le ..)
    omega

-- A left-over file below a listed namespace is seen in the listing, or makes it fail.
theorem not_crashSafe_of_leftover {final : FileSystem String} (ns : List Component) {maxEntries : Nat}
    {q : Path String} (hq : recordPath ns <+: q ∧ recordPath ns ≠ q)
    (ht : (records t).get q ≠ none) (hfs : (records fs).get q = none)
    (hfinal : (records final).get q = none)
    (hold : ((records fs).listing ns maxEntries).isSome = true)
    (hnew : ((records final).listing ns maxEntries).isSome = true) :
    ¬ CrashSafe codec relative v fs final t := by
  intro h
  obtain ⟨old, hold⟩ := Option.isSome_iff_exists.mp hold
  obtain ⟨new, hnew⟩ := Option.isSome_iff_exists.mp hnew
  have hbelow : q ∈ (records t).below (recordPath ns) :=
    mem_below.mpr ⟨hq, Option.ne_none_iff_exists'.mp ht⟩
  rcases h.listing ns maxEntries with heq | heq
  · rw [listed_eq, listed_eq, hold] at heq
    have hmem := (mem_listing hold q).mp ((mem_listing heq q).mpr hbelow)
    obtain ⟨-, e, he⟩ := mem_below.mp hmem
    simp [hfs] at he
  · rw [listed_eq, listed_eq, hnew] at heq
    have hmem := (mem_listing hnew q).mp ((mem_listing heq q).mpr hbelow)
    obtain ⟨-, e, he⟩ := mem_below.mp hmem
    simp [hfinal] at he

section phases

variable {x : Bytes} {final : FileSystem String}

def stray (env : Env WriteSite) (par : Path String) (x : Bytes) (name : String) : Prop :=
  par = [] ∧ (name = temporaryName x ∨ name = backupName (env.entropy .backupRandom))

theorem stray_not_lock : ¬ stray env par x ".meridian-mcp.lock" := by
  rintro ⟨-, h | h⟩
  · exact temporaryName_ne_lock x h.symm
  · exact backupName_ne_lock _ h.symm

theorem stray_not_namespace : ¬ stray env par x "runtime-integrity" := by
  rintro ⟨-, h | h⟩
  · exact append_ne_self (n := 0) (by decide) (by decide) (by decide) h.symm
  · exact append_ne_self (n := 0) (by decide) (by decide) (by decide) h.symm

-- The situation of a write that passed its checks: `s` is the tree in which the temporary file
-- is created, and `final` the one the whole write leaves.
structure Underway (codec : JsonCodec α) (relative : List Component) (v : α) (env : Env WriteSite)
    (fs s final : FileSystem String) (par : Path String) (n : String) (x : Bytes) : Prop where
  path : recordPath relative = par ++ [n]
  name : ¬ invalidName relative
  grown : Grown fs par s
  site : Site env s.node par n (temporaryName x)
  lock : ∃ b, s.node lockPath = some (.file b)
  final : final.node = Function.update s.node (par ++ [n]) (some (.file (codec.encode v ++ [10])))

theorem Underway.slot (h : Underway codec relative v env fs s final par n x) :
    s.node (par ++ [n]) = fs.node (par ++ [n]) := by
  rcases h.grown (par ++ [n]) with heq | ⟨-, -, hpre⟩
  · exact heq
  · have hlen := hpre.length_le
    simp at hlen

theorem Underway.not_stray (h : Underway codec relative v env fs s final par n x) (name : String)
    (hname : stray env par x name) : recordPath relative ≠ [name] := by
  obtain ⟨rfl, hname⟩ := hname
  rw [h.path]
  intro heq
  obtain rfl : n = name := by simpa using heq
  rcases hname with rfl | rfl
  · exact h.site.apart rfl
  · exact h.site.backup_ne rfl

theorem get_update {f : Path String → Option Node} {k : Path String} {w : Option Node}
    (ht : t.node = Function.update f k w) (q : Path String) :
    (records t).get q = if q = k then w.bind entry else (f q).bind entry := by
  rw [get_records, ht]
  by_cases hq : q = k
  · rw [if_pos hq, hq, Function.update_self]
  · rw [if_neg hq, Function.update_of_ne hq]

theorem Underway.recorded_iff (h : Underway codec relative v env fs s final par n x)
    (hshows : Shows s (par ++ [n]) (some (.file (codec.encode v ++ [10]))) t) :
    readBack codec relative t = .ok v ↔ (codec.encode v).length < maxRecordBytes := by
  obtain ⟨b, hb⟩ := h.lock
  rw [readBack_shows _ h.name h.path h.site.parent hb (.inr ⟨_, rfl⟩) hshows]
  constructor
  · intro hok
    by_contra hbig
    rw [slotValue, if_pos (by simp; omega)] at hok
    cases hok
  · exact recorded_of_fits

theorem Underway.fits_of_safe (h : Underway codec relative v env fs s final par n x)
    (hshows : Shows s (par ++ [n]) (some (.file (codec.encode v ++ [10]))) t)
    (hsafe : CrashSafe codec relative v fs final t) :
    (codec.encode v).length < maxRecordBytes ∨
      fs.node (recordPath relative) = some (.file (codec.encode v ++ [10])) := by
  rcases hsafe.record with ⟨hslot, -⟩ | hread
  · rw [h.path] at hslot ⊢
    exact .inr (hslot.symm.trans hshows.slot)
  · exact .inl ((h.recorded_iff hshows).mp hread)

theorem Underway.safe_of_fits (h : Underway codec relative v env fs s final par n x)
    (hshows : Shows s (par ++ [n]) (some (.file (codec.encode v ++ [10]))) t)
    (hagree : Records.Agree (stray env par x) (records t) (records final))
    (hfits : (codec.encode v).length < maxRecordBytes ∨
      fs.node (recordPath relative) = some (.file (codec.encode v ++ [10]))) :
    CrashSafe codec relative v fs final t := by
  by_cases hsize : (codec.encode v).length < maxRecordBytes
  · exact crashSafe_of_final stray_not_lock stray_not_namespace hagree
      ((h.recorded_iff hshows).mpr hsize)
  · have hold := hfits.resolve_left hsize
    rw [h.path] at hold
    have hsame : final.node = s.node := by
      rw [h.final, ← hold, ← h.slot, Function.update_eq_self]
    have hrecords : records final = records fs := by
      rw [← h.grown.records]
      ext1 q
      rw [get_records, get_records, hsame]
    rw [hrecords] at hagree
    refine crashSafe_of_agree _ stray_not_lock stray_not_namespace h.not_stray hagree ?_
    rw [h.path, hshows.slot, hold]

theorem Underway.get_final (h : Underway codec relative v env fs s final par n x) (q : Path String) :
    (records final).get q =
      if q = par ++ [n] then some (.record (codec.encode v ++ [10])) else (records fs).get q := by
  rw [get_update h.final, ← h.grown.records]
  rfl

theorem Underway.leftover (h : Underway codec relative v env fs s final par n x) (hpar : par ≠ [])
    (hlisted : (listed (par.map .normal) (maxRecords - 1) fs).isSome = true) {name : String}
    (hname : name ≠ n) (hs : s.node (par ++ [name]) = none) (ht : (records t).get (par ++ [name]) ≠ none) :
    ¬ CrashSafe codec relative v fs final t := by
  have hns : recordPath (par.map Component.normal) = par := by
    induction par with
    | nil => rfl
    | cons c cs ih => simp [recordPath, Component.name?, List.filterMap_map, Function.comp_def]
  have hfs : (records fs).get (par ++ [name]) = none := by
    rw [← h.grown.records, get_records, hs]
    rfl
  rw [listed_eq] at hlisted
  obtain ⟨hold, hnew⟩ := listing_grows (p := par ++ [n]) (by
      intro heq
      have hlen := congrArg List.length heq
      simp only [List.length_append, lockPath, List.length_singleton] at hlen
      exact hpar (List.length_eq_zero_iff.mp (by omega)))
    (by rw [hns]; intro hpre; have hlen := hpre.length_le; simp at hlen) h.get_final hlisted
  refine not_crashSafe_of_leftover (q := par ++ [name]) (par.map .normal) ?_ ht hfs ?_ hold hnew
  · rw [hns]
    exact ⟨List.prefix_append _ _, by simp⟩
  · rw [h.get_final, if_neg (by simpa using hname), hfs]

theorem idle_safe (hp : recordPath relative = par ++ [n]) (ht : Grown fs par t) :
    CrashSafe codec relative v fs final t := by
  refine crashSafe_of_agree (fun _ => False) id id (fun _ => False.elim)
    (agree_of_eq ht.records) ?_
  rw [hp]
  rcases ht (par ++ [n]) with heq | ⟨-, -, hpre⟩
  · exact heq
  · have hlen := hpre.length_le
    simp at hlen

theorem Underway.staged_iff (h : Underway codec relative v env fs s final par n x)
    (hlisted : par ≠ [] → (listed (par.map .normal) (maxRecords - 1) fs).isSome = true) {b : Bytes}
    (ht : t.node = Function.update s.node (par ++ [temporaryName x]) (some (.file b))) :
    CrashSafe codec relative v fs final t ↔ par = [] := by
  have hget := get_update ht
  constructor
  · intro hsafe
    by_contra hpar
    refine h.leftover hpar (hlisted hpar) h.site.apart h.site.temporary ?_ hsafe
    rw [hget, if_pos rfl]
    simp [entry]
  · intro hpar
    refine crashSafe_of_agree (stray env par x) stray_not_lock stray_not_namespace h.not_stray
      (fun q => ?_) ?_
    · rw [hget, ← h.grown.records, get_records]
      by_cases hq : q = par ++ [temporaryName x]
      · refine .inr ⟨temporaryName x, ⟨hpar, .inl rfl⟩, by rw [hq, hpar]; rfl, ?_, ?_⟩
        · simp [Records.linked, hget, hq, entry]
        · simp [Records.linked, hq, get_records, h.site.temporary]
      · exact .inl (if_neg hq)
    · rw [h.path, ht, Function.update_of_ne h.site.paths.1.symm, h.slot]

theorem Underway.aside_not_safe (h : Underway codec relative v env fs s final par n x) {old : Bytes}
    (hold : s.node (par ++ [n]) = some (.file old)) (ht : t.node (par ++ [n]) = none) :
    ¬ CrashSafe codec relative v fs final t := by
  intro hsafe
  rcases hsafe.record with ⟨hslot, -⟩ | hread
  · rw [h.path, ht, ← h.slot, hold] at hslot
    cases hslot
  · rw [readBack_eq h.name h.path, ht] at hread
    exact recordValue_absent _ _ _ _ hread

theorem Underway.settled_iff (h : Underway codec relative v env fs s final par n x)
    (ht : t.node = Function.update s.node (par ++ [n]) (some (.file (codec.encode v ++ [10])))) :
    CrashSafe codec relative v fs final t ↔ (codec.encode v).length < maxRecordBytes ∨
      fs.node (recordPath relative) = some (.file (codec.encode v ++ [10])) := by
  have hshows : Shows s (par ++ [n]) (some (.file (codec.encode v ++ [10]))) t := fun q _ => by rw [ht]
  refine ⟨h.fits_of_safe hshows, h.safe_of_fits hshows (agree_of_eq ?_)⟩
  ext1 q
  rw [get_records, get_records, ht, h.final]

theorem Underway.replaced_iff (h : Underway codec relative v env fs s final par n x)
    (hlisted : par ≠ [] → (listed (par.map .normal) (maxRecords - 1) fs).isSome = true) {old : Bytes}
    (hold : s.node (par ++ [n]) = some (.file old))
    (ht : t.node = Function.update (Function.update s.node (backupPath env par)
      (s.node (par ++ [n]))) (par ++ [n]) (some (.file (codec.encode v ++ [10])))) :
    CrashSafe codec relative v fs final t ↔ par = [] ∧
      ((codec.encode v).length < maxRecordBytes ∨
        fs.node (recordPath relative) = some (.file (codec.encode v ++ [10]))) := by
  obtain ⟨-, -, hbp⟩ := h.site.paths
  have hshows : Shows s (par ++ [n]) (some (.file (codec.encode v ++ [10]))) t := by
    intro q hq
    rw [ht]
    by_cases hqp : q = par ++ [n]
    · rw [hqp, Function.update_self, Function.update_self]
    · rw [Function.update_of_ne hqp, Function.update_of_ne hqp, Function.update_of_ne]
      rintro rfl
      rw [List.dropLast_concat] at hq
      exact watched_not_below hq (backupName_ne_lock _) h.site.backup_ne List.prefix_rfl
  have hbak : t.node (backupPath env par) = some (.file old) := by
    rw [ht, Function.update_of_ne hbp, Function.update_self, hold]
  constructor
  · intro hsafe
    refine ⟨?_, h.fits_of_safe hshows hsafe⟩
    by_contra hpar
    refine h.leftover hpar (hlisted hpar) h.site.backup_ne h.site.backup ?_ hsafe
    rw [get_records]
    exact ne_of_eq_of_ne (congrArg (Option.bind · entry) hbak) (by simp [entry])
  · rintro ⟨hpar, hfits⟩
    refine h.safe_of_fits hshows (fun q => ?_) hfits
    by_cases hq : q = backupPath env par
    · refine .inr ⟨_, ⟨hpar, .inr rfl⟩, by rw [hq, backupPath, hpar]; rfl, ?_, ?_⟩
      · rw [linked_iff, hq, hbak]
        simp
      · rw [linked_iff, hq, h.final, Function.update_of_ne hbp, h.site.backup]
        simp
    · left
      rw [get_records, get_records, ht, h.final]
      by_cases hqp : q = par ++ [n]
      · rw [hqp, Function.update_self, Function.update_self]
      · rw [Function.update_of_ne hqp, Function.update_of_ne hqp, Function.update_of_ne hq]

theorem Underway.phase_iff (h : Underway codec relative v env fs s final par n x)
    (hlisted : par ≠ [] → (listed (par.map .normal) (maxRecords - 1) fs).isSome = true)
    {ms : List Step} (ht : Phase env fs s.node par n (temporaryName x) (codec.encode v ++ [10]) ms t) :
    CrashSafe codec relative v fs final t ↔ Tidy codec relative v fs ms := by
  have hpar : (recordPath relative).dropLast = par := by rw [h.path, List.dropLast_concat]
  cases ht with
  | idle ht => exact iff_of_true (idle_safe h.path ht) ⟨by simp, by simp, by simp⟩
  | staged b ht =>
    rw [h.staged_iff hlisted ht]
    constructor
    · intro hroot
      exact ⟨by simp, by simp, fun hne => absurd (hpar.trans hroot) hne⟩
    · intro htidy
      by_contra hne
      simpa using (htidy.clean (by rwa [hpar])).1
  | aside old hold ht =>
    refine iff_of_false (h.aside_not_safe hold (by rw [ht, Function.update_self])) fun htidy => ?_
    simpa using htidy.restored
  | replaced old hold ht =>
    rw [h.replaced_iff hlisted hold ht]
    constructor
    · rintro ⟨hroot, hfits⟩
      exact ⟨fun _ => hfits, by simp, fun hne => absurd (hpar.trans hroot) hne⟩
    · intro htidy
      refine ⟨?_, htidy.fits (by simp)⟩
      by_contra hne
      simpa using (htidy.clean (by rwa [hpar])).2
  | settled ht hms =>
    rw [h.settled_iff ht]
    rcases hms with rfl | rfl
    · exact ⟨fun hfits => ⟨fun _ => hfits, by simp, by simp⟩, fun htidy => htidy.fits (by simp)⟩
    · exact ⟨fun hfits => ⟨fun _ => hfits, by simp, by simp⟩, fun htidy => htidy.fits (by simp)⟩

end phases

theorem underway {x : Bytes} (hname : ¬ invalidName relative) (hp : recordPath relative = par ++ [n])
    (hprep : Prepared env fs (par ++ [n]) (codec.encode v).length) (hgrown : Grown fs par s)
    (hs : Site env s.node par n (temporaryName x))
    (ht : t.node = Function.update s.node (par ++ [n]) (some (.file (codec.encode v ++ [10])))) :
    Underway codec relative v env fs s t par n x := by
  refine ⟨hp, hname, hgrown, hs, ?_, ht⟩
  obtain ⟨b, hb⟩ := hprep.lock.regular
  rcases hgrown lockPath with heq | ⟨hnone, -⟩
  · exact ⟨b, heq.trans hb⟩
  · simp [hb] at hnone

theorem write_replaces (hsound : ∀ site, env.fault site = false) (hname : ¬ invalidName relative)
    (hfresh : FreshNames env fs (recordPath relative))
    (hprep : Prepared env fs (recordPath relative) (codec.encode v).length) {old : Bytes}
    (hold : fs.node (recordPath relative) = some (.file old)) :
    (exec env.serve (writeJsonAtomic codec relative v) fs).1.toOption.map
        (fun _ => records (writeResult codec relative v env fs)) =
      replace (records fs) (recordPath relative) (codec.encode v) := by
  obtain ⟨par, n, hp⟩ := recordPath_concat hname
  rw [hp] at hfresh hprep hold ⊢
  have hdir : fs.node (par ++ [n]) ≠ some .dir := by simp [hold]
  obtain ⟨s, x, r, final, ms, hgrown, hs, hfinal, -, hwalk⟩ := walks_prepared hsound hname hp hfresh
    hdir hprep
  have hresult : writeResult codec relative v env fs = final := congrArg Prod.snd hwalk.exec
  have hrecords : records final =
      (records fs).insert (par ++ [n]) (.record (codec.encode v ++ [10])) := by
    ext1 q
    rw [(underway hname hp hprep hgrown hs hfinal).get_final, FinMap.get_insert, Function.update_apply]
  obtain ⟨s₁, t, -, -, -, -, hsettles⟩ := write_prepared (v := v) hname hp hfresh hprep
  rw [hresult, replace]
  by_cases hsize : (codec.encode v).length < maxRecordBytes
  · have hdone : Completes env fs (par ++ [n]) := ⟨fun _ => ⟨hsound _, hdir⟩, hsound _, hsound _⟩
    rw [if_pos hsize, hsettles.1 ⟨fun _ _ => hsound _,
      ⟨hsound _, fun _ => ⟨hsound _, hsound _⟩, fun _ => hdir⟩, hdone, fun _ => hsound _,
      fun _ => hsound _, hsound _, hsound _, hsize⟩, hrecords]
    rfl
  · obtain ⟨e, u, he, -⟩ := hsettles.2 fun h => hsize h.2.2.2.fits
    rw [if_neg hsize, he]
    rfl

def buildStore : FileSystem String :=
  ((FileSystem.empty.put lockPath (.file []) lockPath_placeable).mkdirs ["builds"] (by decide)).put
    ["builds", "record.json"] (.file (quoted 0 ++ [10])) (by decide)

abbrev buildName : List Component := [.normal "builds", .normal "record.json"]

def stoppedAfter (operations : Nat) : List (Call WriteSite String) × FileSystem String :=
  Prog.upTo Env.sound.serve operations (writeJsonAtomic letterCodec buildName 1).run buildStore

theorem crashSafe_iff (codec : JsonCodec α) (relative : List Component) (v : α) (env : Env WriteSite)
    (fs t : FileSystem String) (done : List (Call WriteSite String))
    (hsound : ∀ site, env.fault site = false) (hname : ¬ invalidName relative)
    (hfresh : FreshNames env fs (recordPath relative))
    (hdir : fs.node (recordPath relative) ≠ some .dir)
    (hlisted : (recordPath relative).dropLast ≠ [] →
      (listed ((recordPath relative).dropLast.map .normal) (maxRecords - 1) fs).isSome = true)
    (hstop : Prog.Stops env.serve Env.Torn (writeJsonAtomic codec relative v).run fs done t) :
    CrashSafe codec relative v fs (writeResult codec relative v env fs) t ↔
      Tidy codec relative v fs (performed env fs relative done) := by
  obtain ⟨par, n, hp⟩ := recordPath_concat hname
  have hpar : (recordPath relative).dropLast = par := by rw [hp, List.dropLast_concat]
  rw [hpar] at hlisted
  rw [hp] at hfresh hdir
  rw [performed, hpar]
  by_cases hprep : Prepared env fs (par ++ [n]) (codec.encode v).length
  · obtain ⟨s, x, r, final, ms, hgrown, hs, hfinal, -, hwalk⟩ := walks_prepared hsound hname hp hfresh
      hdir hprep
    have hresult : writeResult codec relative v env fs = final := congrArg Prod.snd hwalk.exec
    rw [hresult]
    exact (underway hname hp hprep hgrown hs hfinal).phase_iff hlisted (hwalk.stops done t hstop)
  · obtain ⟨r, final, -, hwalk⟩ := walks_unprepared (Φ := fun ms t => ms = [] ∧ Grown fs par t) hsound
      hname hp hprep (fun _ ht => ⟨rfl, ht⟩)
    obtain ⟨hms, ht⟩ := hwalk.stops done t hstop
    refine iff_of_true (idle_safe hp ht) ?_
    rw [hms]
    exact ⟨by simp, by simp, by simp⟩


theorem crashSafe_iff_before_renames :
    CrashSafe letterCodec buildName 1 buildStore
        (writeResult letterCodec buildName 1 Env.sound buildStore) (stoppedAfter 10).2 ↔
      Tidy letterCodec buildName 1 buildStore
        (performed Env.sound buildStore buildName (stoppedAfter 10).1) := by
  refine crashSafe_iff letterCodec buildName 1 Env.sound buildStore _ _ (fun _ => rfl) (by decide)
    ⟨fun _ => (by decide : temporaryPath Env.sound ["builds"] 0 ≠ ["builds", "record.json"]),
      by decide, by decide⟩ (by decide) (fun _ => ?_) (Prog.stops_upTo _ _ _)
  rw [listed_eq, listing_isSome]
  exact ⟨by decide, by decide, by decide⟩

theorem stopped_between_renames :
    Prog.Stops Env.sound.serve Env.Torn (writeJsonAtomic letterCodec buildName 1).run buildStore
        (stoppedAfter 18).1 (stoppedAfter 18).2 ∧
      ¬ CrashSafe letterCodec buildName 1 buildStore
        (writeResult letterCodec buildName 1 Env.sound buildStore) (stoppedAfter 18).2 := by
  refine ⟨Prog.stops_upTo _ _ _, fun h => ?_⟩
  rcases h.record with ⟨hslot, -⟩ | hread
  · revert hslot
    decide
  · revert hread
    decide

end RuntimeIntegrity
