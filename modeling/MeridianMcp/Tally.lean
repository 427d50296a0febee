import Mathlib.Algebra.BigOperators.Group.List.Lemmas
import Mathlib.Algebra.Ring.Nat
import Mathlib.Data.Prod.Lex
import Mathlib.Order.Lex
import MeridianMcp.Effects.FinMap
import MeridianMcp.Search.TopK

namespace Tally

open Effects TopK

variable {K : Type}

section Rank

-- Those that occur most come first; those that occur as often are in their own order.
def rank (entry : K × Nat) : Natᵒᵈ ×ₗ K := toLex (OrderDual.toDual entry.2, entry.1)

theorem rank_injective : Function.Injective (rank : K × Nat → Natᵒᵈ ×ₗ K) := by
  intro entry entry' h
  obtain ⟨hcount, hkey⟩ := Prod.mk.inj (toLex.injective h)
  exact Prod.ext hkey (OrderDual.toDual.injective hcount)

variable [LinearOrder K]

theorem rank_lt {entry entry' : K × Nat} :
    rank entry < rank entry' ↔ entry'.2 < entry.2 ∨ entry.2 = entry'.2 ∧ entry.1 < entry'.1 := by
  rw [rank, rank, Prod.Lex.toLex_lt_toLex]
  exact or_congr OrderDual.toDual_lt_toDual (and_congr_left' OrderDual.toDual_inj)

end Rank

variable [DecidableEq K]

def bump (counts : FinMap K Nat) (k : K) : FinMap K Nat := counts.insert k ((counts.get k).getD 0 + 1)

def tally (ks : List K) : FinMap K Nat := ks.foldl bump .empty

theorem get_foldl_bump (ks : List K) (counts : FinMap K Nat) (k : K) :
    (ks.foldl bump counts).get k =
      if k ∈ ks then some ((counts.get k).getD 0 + ks.count k) else counts.get k := by
  induction ks generalizing counts with
  | nil => rfl
  | cons j ks ih =>
    rw [List.foldl_cons, ih, bump, FinMap.get_insert]
    rcases eq_or_ne k j with rfl | hne
    · rw [Function.update_self, if_pos List.mem_cons_self, List.count_cons_self]
      by_cases hmem : k ∈ ks
      · rw [if_pos hmem, Option.getD_some]
        congr 1
        omega
      · rw [if_neg hmem, List.count_eq_zero_of_not_mem hmem]
    · have hmem : k ∈ j :: ks ↔ k ∈ ks := List.mem_cons.trans (or_iff_right hne)
      rw [Function.update_of_ne hne, List.count_cons_of_ne hne.symm]
      simp only [hmem]

-- The tally has what occurs, with the number of times.
theorem get_tally {ks : List K} {k : K} {n : Nat} : (tally ks).get k = some n ↔ k ∈ ks ∧ n = ks.count k := by
  rw [tally, get_foldl_bump]
  by_cases hmem : k ∈ ks
  · rw [if_pos hmem]
    simp [FinMap.empty, hmem, eq_comm]
  · rw [if_neg hmem]
    simp [FinMap.empty, hmem]

-- The entries can come in any order, as those of a hash map do.
structure Entries (ks : List K) (entries : List (K × Nat)) : Prop where
  nodup : entries.Nodup
  mem : ∀ entry, entry ∈ entries ↔ entry.1 ∈ ks ∧ entry.2 = ks.count entry.1

theorem entries_tally [LinearOrder K] (ks : List K) : Entries ks (tally ks).entries where
  nodup := List.Nodup.of_map Prod.fst (FinMap.entries_keys_nodup _)
  mem _ := FinMap.mem_entries.trans get_tally

def top [LinearOrder K] (limit : Nat) (entries : List (K × Nat)) : List (K × Nat) := (sortBy rank entries).take limit

theorem Entries.sum {ks : List K} {entries : List (K × Nat)} (h : Entries ks entries) :
    (entries.map Prod.snd).sum = ks.length := by
  have hinj : (ks.dedup.map fun k => (k, ks.count k)).Nodup :=
    ks.nodup_dedup.map fun k k' heq => (Prod.mk.inj heq).1
  have hperm : entries.Perm (ks.dedup.map fun k => (k, ks.count k)) := by
    refine (List.perm_ext_iff_of_nodup h.nodup hinj).mpr fun entry => ?_
    rw [h.mem, List.mem_map]
    constructor
    · rintro ⟨hmem, hcount⟩
      exact ⟨entry.1, List.mem_dedup.mpr hmem, Prod.ext rfl hcount.symm⟩
    · rintro ⟨k, hk, rfl⟩
      exact ⟨List.mem_dedup.mp hk, rfl⟩
  rw [(hperm.map Prod.snd).sum_eq, List.map_map]
  exact ks.sum_map_count_dedup_eq_length

theorem Entries.length {ks : List K} {entries : List (K × Nat)} (h : Entries ks entries) :
    entries.length = ks.dedup.length := by
  have hkeys : (entries.map Prod.fst).Nodup := by
    refine h.nodup.map_on fun entry hentry entry' hentry' heq => Prod.ext heq ?_
    rw [((h.mem entry).mp hentry).2, ((h.mem entry').mp hentry').2, heq]
  have hperm : (entries.map Prod.fst).Perm ks.dedup := by
    refine (List.perm_ext_iff_of_nodup hkeys ks.nodup_dedup).mpr fun k => ?_
    rw [List.mem_dedup, List.mem_map]
    constructor
    · rintro ⟨entry, hentry, rfl⟩
      exact ((h.mem entry).mp hentry).1
    · exact fun hk => ⟨(k, ks.count k), (h.mem _).mpr ⟨hk, rfl⟩, rfl⟩
  rw [← hperm.length_eq, List.length_map]

section Top

variable [LinearOrder K] {ks : List K} {entries : List (K × Nat)} {limit : Nat}

theorem Entries.sorted (h : Entries ks entries) :
    (sortBy rank entries).Pairwise fun entry entry' => rank entry < rank entry' := by
  have hnodup : (sortBy rank entries).Nodup := (sortBy_perm rank entries).nodup_iff.mpr h.nodup
  exact (sortBy_pairwise rank entries).imp₂
    (fun _ _ hle hne => lt_of_le_of_ne hle fun heq => hne (rank_injective heq)) hnodup

theorem Entries.top_eq {entries' : List (K × Nat)} (h : Entries ks entries) (h' : Entries ks entries') :
    top limit entries = top limit entries' := by
  have hperm : entries.Perm entries' :=
    (List.perm_ext_iff_of_nodup h.nodup h'.nodup).mpr fun entry => (h.mem entry).trans (h'.mem entry).symm
  rw [top, top, sortBy_eq_of_perm hperm fun _ _ _ _ heq => rank_injective heq]

-- What a ranking of what occurs says.
structure Ranking (ks : List K) (limit : Nat) (ranking : List (K × Nat)) : Prop where
  length_le : ranking.length ≤ limit
  counted : ∀ entry ∈ ranking, entry.1 ∈ ks ∧ entry.2 = ks.count entry.1
  ordered : ranking.Pairwise fun entry entry' => entry'.2 < entry.2 ∨ entry.2 = entry'.2 ∧ entry.1 < entry'.1
  complete : ∀ k ∈ ks, k ∉ ranking.map Prod.fst → ranking.length = limit ∧
    ∀ entry ∈ ranking, ks.count k < entry.2 ∨ entry.2 = ks.count k ∧ entry.1 < k

theorem Entries.ranking (h : Entries ks entries) : Ranking ks limit (top limit entries) := by
  have hmem : ∀ entry, entry ∈ sortBy rank entries ↔ entry.1 ∈ ks ∧ entry.2 = ks.count entry.1 := fun entry =>
    (sortBy_perm rank entries).mem_iff.trans (h.mem entry)
  refine ⟨List.length_take_le .., fun entry hentry => (hmem entry).mp (List.mem_of_mem_take hentry),
    (h.sorted.take).imp rank_lt.mp, fun k hk hnot => ?_⟩
  have hlater : (k, ks.count k) ∈ (sortBy rank entries).drop limit := by
    have hin : (k, ks.count k) ∈ sortBy rank entries := (hmem _).mpr ⟨hk, rfl⟩
    rw [← List.take_append_drop limit (sortBy rank entries)] at hin
    rcases List.mem_append.mp hin with hfirst | hlater
    · exact absurd (List.mem_map.mpr ⟨_, hfirst, rfl⟩) hnot
    · exact hlater
  constructor
  · have hlong : limit < (sortBy rank entries).length := by
      by_contra hshort
      rw [List.drop_eq_nil_of_le (Nat.not_lt.mp hshort)] at hlater
      exact List.not_mem_nil hlater
    exact List.length_take_of_le hlong.le
  · intro entry hentry
    have hsorted := h.sorted
    rw [← List.take_append_drop limit (sortBy rank entries)] at hsorted
    exact rank_lt.mp ((List.pairwise_append.mp hsorted).2.2 entry hentry _ hlater)

theorem Entries.sum_top (h : Entries ks entries) (hall : entries.length ≤ limit) :
    ((top limit entries).map Prod.snd).sum = ks.length := by
  have hlength : (sortBy rank entries).length ≤ limit := by rwa [(sortBy_perm rank entries).length_eq]
  rw [top, List.take_of_length_le hlength, ((sortBy_perm rank entries).map Prod.snd).sum_eq, h.sum]

end Top

end Tally
