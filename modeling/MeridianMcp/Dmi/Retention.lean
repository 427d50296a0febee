import Mathlib.Algebra.Ring.Nat
import MeridianMcp.Dmi.Cache
import MeridianMcp.Effects.Trace

namespace Dmi

open MeridianMcp Effects DmiCache

variable {P I : Type} [LinearOrder P] {limits : ServerLimits} {decoder : Decoder I}

def total (entries : Entries P I) : Nat := (entries.map fun e => e.2.decodedBytes).sum

def Fits (limits : ServerLimits) (entries : Entries P I) : Prop :=
  entries.length ≤ limits.maxDmiCacheEntries ∧ total entries ≤ limits.maxDmiCacheBytes

-- `after` is the longest run of the most recently used among `before` that fits.
structure Retains (limits : ServerLimits) (before after : Entries P I) : Prop where
  sublist : after.Sublist before
  recent : ∀ e ∈ before, e ∉ after → ∀ r ∈ after, e.2.lastUse < r.2.lastUse
  fits : Fits limits after
  longest : ∀ e ∈ before, e ∉ after → ¬ Fits limits (before.filter fun r => e.2.lastUse ≤ r.2.lastUse)

structure Distinct (entries : Entries P I) : Prop where
  paths : (entries.map Prod.fst).Nodup
  uses : (entries.map fun e => e.2.lastUse).Nodup

structure Sane (limits : ServerLimits) (cache : DmiCache P I) : Prop where
  distinct : Distinct cache.entries
  clocked : ∀ e ∈ cache.entries, e.2.lastUse ≤ cache.clock
  generated : ∀ e ∈ cache.entries, e.2.asset.assetGeneration ≤ cache.nextGeneration
  keyed : ∀ e ∈ cache.entries, e.2.asset.identity.path = e.1
  counted : cache.decodedBytes = total cache.entries
  fits : Fits limits cache.entries

variable {cache : DmiCache P I} {entries : Entries P I} {path : P}

omit [LinearOrder P] in
theorem Distinct.sublist {after : Entries P I} (h : Distinct entries) (hsub : after.Sublist entries) : Distinct after :=
  ⟨h.paths.sublist (hsub.map _), h.uses.sublist (hsub.map _)⟩

omit [LinearOrder P] in
theorem Distinct.eq_of_path {e r : P × CacheEntry P I} (h : Distinct entries) (he : e ∈ entries) (hr : r ∈ entries)
    (hpath : e.1 = r.1) : e = r :=
  List.inj_on_of_nodup_map h.paths he hr hpath

omit [LinearOrder P] in
theorem Distinct.eq_of_use {e r : P × CacheEntry P I} (h : Distinct entries) (he : e ∈ entries) (hr : r ∈ entries)
    (huse : e.2.lastUse = r.2.lastUse) : e = r :=
  List.inj_on_of_nodup_map h.uses he hr huse

theorem entry_some {old : CacheEntry P I} (h : cache.entry path = some old) : (path, old) ∈ cache.entries := by
  obtain ⟨e, hfind, rfl⟩ := Option.map_eq_some_iff.mp h
  have hpath : e.1 = path := by simpa using List.find?_some hfind
  rw [← hpath]
  exact List.mem_of_find?_eq_some hfind

theorem entry_none (h : cache.entry path = none) : ∀ e ∈ cache.entries, e.1 ≠ path := by
  intro e he
  simpa using List.find?_eq_none.mp (Option.map_eq_none_iff.mp h) e he

theorem entry_of_mem {e : P × CacheEntry P I} (h : Distinct cache.entries) (he : e ∈ cache.entries) :
    cache.entry e.1 = some e.2 := by
  cases hentry : cache.entry e.1 with
  | none => exact absurd rfl (entry_none hentry e he)
  | some old => rw [← h.eq_of_path (entry_some hentry) he rfl]

theorem total_filter {e : P × CacheEntry P I} (h : Distinct entries) (he : e ∈ entries) :
    total (entries.filter fun r => r.1 ≠ e.1) + e.2.decodedBytes = total entries := by
  induction entries with
  | nil => cases he
  | cons first rest ih =>
    have hrest : Distinct rest := h.sublist (List.sublist_cons_self first rest)
    rcases List.mem_cons.mp he with rfl | hmem
    · have hnone : rest.filter (fun r => r.1 ≠ e.1) = rest := by
        refine List.filter_eq_self.mpr fun r hr => ?_
        have hne : r.1 ≠ e.1 := by
          intro heq
          have hnot := (List.nodup_cons.mp h.paths).1
          exact hnot (heq ▸ List.mem_map_of_mem hr)
        simpa using hne
      rw [List.filter_cons_of_neg (by simp), hnone]
      simp only [total, List.map_cons, List.sum_cons]
      omega
    · have hne : first.1 ≠ e.1 := by
        intro heq
        have hnot := (List.nodup_cons.mp h.paths).1
        exact hnot (heq ▸ List.mem_map_of_mem hmem)
      rw [List.filter_cons_of_pos (by simpa using hne)]
      have hsum := ih hrest hmem
      simp only [total, List.map_cons, List.sum_cons] at hsum ⊢
      omega

theorem remove_of_mem {e : P × CacheEntry P I} (h : Distinct cache.entries) (he : e ∈ cache.entries) :
    cache.remove e.1 = { cache with
      entries := cache.entries.filter fun r => r.1 ≠ e.1
      decodedBytes := cache.decodedBytes - e.2.decodedBytes } := by
  rw [remove, entry_of_mem h he]

theorem victim_some (h : victim entries = some path) :
    ∃ e ∈ entries, e.1 = path ∧ ∀ r ∈ entries, e.2.lastUse ≤ r.2.lastUse := by
  obtain ⟨e, hmin, rfl⟩ := Option.map_eq_some_iff.mp h
  refine ⟨e, List.argmin_mem hmin, rfl, ?_⟩
  intro r hr
  have hle := List.le_of_mem_argmin hr hmin
  exact (Prod.Lex.toLex_le_toLex.mp hle).elim le_of_lt fun heq => heq.1.le

theorem victim_none (h : victim entries = none) : entries = [] :=
  List.argmin_eq_none.mp (Option.map_eq_none_iff.mp h)

omit [LinearOrder P] in
theorem retains_refl (h : Fits limits entries) : Retains limits entries entries :=
  ⟨List.Sublist.refl _, fun _ he hnot => absurd he hnot, h, fun _ he hnot => absurd he hnot⟩

-- Taking the least recently used out of what does not fit, and going on with the rest.
theorem retains_evicted {e : P × CacheEntry P I} {after : Entries P I} (h : Distinct entries) (he : e ∈ entries)
    (hleast : ∀ r ∈ entries, e.2.lastUse ≤ r.2.lastUse) (hfits : ¬ Fits limits entries)
    (hafter : Retains limits (entries.filter fun r => r.1 ≠ e.1) after) : Retains limits entries after := by
  have hsub := List.filter_sublist (l := entries) (p := fun r => decide (r.1 ≠ e.1))
  have hrest : ∀ r ∈ entries, r ≠ e → r ∈ entries.filter fun r => r.1 ≠ e.1 := by
    intro r hr hne
    refine List.mem_filter.mpr ⟨hr, ?_⟩
    have hpath : r.1 ≠ e.1 := fun heq => hne (h.eq_of_path hr he heq)
    simpa using hpath
  have hlater : ∀ r ∈ entries, r ≠ e → e.2.lastUse < r.2.lastUse := fun r hr hne =>
    lt_of_le_of_ne (hleast r hr) fun heq => hne (h.eq_of_use hr he heq.symm)
  refine ⟨hafter.sublist.trans hsub, ?_, hafter.fits, ?_⟩
  · intro gone hgone hnot r hr
    rcases eq_or_ne gone e with rfl | hne
    · have hmem := hafter.sublist.subset hr
      apply hlater r (hsub.subset hmem)
      rintro rfl
      exact hnot hr
    · exact hafter.recent gone (hrest gone hgone hne) hnot r hr
  · intro gone hgone hnot
    rcases eq_or_ne gone e with rfl | hne
    · rwa [List.filter_eq_self.mpr fun r hr => decide_eq_true (hleast r hr)]
    · have hsame : entries.filter (fun r => gone.2.lastUse ≤ r.2.lastUse) =
          (entries.filter fun r => r.1 ≠ e.1).filter fun r => gone.2.lastUse ≤ r.2.lastUse := by
        rw [List.filter_filter]
        refine List.filter_congr fun r hr => ?_
        rcases eq_or_ne r e with rfl | hre
        · have hgap := hlater gone hgone hne
          simpa using hgap
        · have hpath : r.1 ≠ e.1 := fun heq => hre (h.eq_of_path hr he heq)
          simp [hpath]
      rw [hsame]
      exact hafter.longest gone (hrest gone hgone hne) hnot

theorem evictRounds_retains (n : Nat) (h : Distinct cache.entries) (hcounted : cache.decodedBytes = total cache.entries)
    (hlength : cache.entries.length ≤ n) :
    Retains limits cache.entries (evictRounds limits n cache).entries ∧
      (evictRounds limits n cache).decodedBytes = total (evictRounds limits n cache).entries ∧
      (evictRounds limits n cache).clock = cache.clock ∧
      (evictRounds limits n cache).nextGeneration = cache.nextGeneration := by
  induction n generalizing cache with
  | zero =>
    have hnil := List.length_eq_zero_iff.mp (Nat.le_zero.mp hlength)
    refine ⟨?_, hcounted, rfl, rfl⟩
    rw [evictRounds, hnil]
    exact retains_refl ⟨Nat.zero_le _, Nat.zero_le _⟩
  | succ n ih =>
    rw [evictRounds]
    split
    · rename_i hover
      cases hvictim : victim cache.entries with
      | none =>
        refine ⟨?_, hcounted, rfl, rfl⟩
        dsimp only
        rw [victim_none hvictim]
        exact retains_refl ⟨Nat.zero_le _, Nat.zero_le _⟩
      | some path =>
        obtain ⟨e, he, rfl, hleast⟩ := victim_some hvictim
        dsimp only
        have htotal := total_filter h he
        have hfits : ¬ Fits limits cache.entries := by
          rintro ⟨hcount, hbytes⟩
          rw [hcounted] at hover
          omega
        have hshorter : (cache.entries.filter fun r => r.1 ≠ e.1).length < cache.entries.length :=
          List.length_filter_lt_length_iff_exists.mpr ⟨e, he, by simp⟩
        rw [remove_of_mem h he]
        have hnext := @ih { cache with
            entries := cache.entries.filter fun r => r.1 ≠ e.1
            decodedBytes := cache.decodedBytes - e.2.decodedBytes }
          (h.sublist List.filter_sublist) (by dsimp only; omega) (by dsimp only; omega)
        exact ⟨retains_evicted h he hleast hfits hnext.1, hnext.2⟩
    · rename_i hfits
      refine ⟨retains_refl ?_, hcounted, rfl, rfl⟩
      rw [hcounted] at hfits
      exact ⟨by omega, by omega⟩

end Dmi
