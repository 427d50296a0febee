import Mathlib.Data.List.Destutter
import Mathlib.Data.List.Sort

namespace TopK

variable {α κ : Type} [LinearOrder κ] {key : α → κ}

theorem map_key_eq_of_perm {l l' : List α} (hperm : l.Perm l')
    (hl : l.Pairwise fun a b => key a ≤ key b) (hl' : l'.Pairwise fun a b => key a ≤ key b) :
    l.map key = l'.map key :=
  (hperm.map key).eq_of_pairwise (fun _ _ _ _ => le_antisymm) (List.pairwise_map.mpr hl)
    (List.pairwise_map.mpr hl')

def sortBy (key : α → κ) (l : List α) : List α := l.insertionSort fun a b => key a ≤ key b

theorem sortBy_perm (key : α → κ) (l : List α) : (sortBy key l).Perm l :=
  List.perm_insertionSort _ _

theorem sortBy_pairwise (key : α → κ) (l : List α) :
    (sortBy key l).Pairwise fun a b => key a ≤ key b :=
  haveI : Std.Total fun a b : α => key a ≤ key b := ⟨fun a b => le_total (key a) (key b)⟩
  haveI : IsTrans α fun a b : α => key a ≤ key b := ⟨fun _ _ _ => le_trans⟩
  List.pairwise_insertionSort _ _

-- A list whose elements have different keys is sorted in one way.
theorem sortBy_eq_of_perm {l l' : List α} (hperm : l.Perm l')
    (hinj : ∀ a ∈ l, ∀ b ∈ l, key a = key b → a = b) : sortBy key l = sortBy key l' := by
  have hmem : ∀ a ∈ sortBy key l, a ∈ l := fun a => (sortBy_perm key l).mem_iff.mp
  refine (((sortBy_perm key l).trans hperm).trans (sortBy_perm key l').symm).eq_of_pairwise ?_
    (sortBy_pairwise key l) (sortBy_pairwise key l')
  intro a b ha hb hab hba
  refine hinj a (hmem a ha) b (hperm.mem_iff.mpr ((sortBy_perm key l').mem_iff.mp hb)) ?_
  exact le_antisymm hab hba

theorem mem_destutter'_ne [DecidableEq α] {a b : α} {l : List α} :
    b ∈ l.destutter' (· ≠ ·) a ↔ b ∈ a :: l := by
  induction l generalizing a with
  | nil => rfl
  | cons c l ih =>
    by_cases h : a = c
    · subst h
      rw [List.destutter'_cons_neg _ (by simp), ih]
      simp
    · rw [List.destutter'_cons_pos _ h, List.mem_cons, ih, ← List.mem_cons]

theorem mem_destutter_ne [DecidableEq α] {b : α} {l : List α} :
    b ∈ l.destutter (· ≠ ·) ↔ b ∈ l := by
  cases l with
  | nil => rfl
  | cons a l => exact mem_destutter'_ne

theorem pairwise_lt_destutter {l : List κ} (h : l.Pairwise (· ≤ ·)) :
    (l.destutter (· ≠ ·)).Pairwise (· < ·) := by
  have hle : (l.destutter (· ≠ ·)).IsChain (· ≤ ·) :=
    List.isChain_iff_pairwise.mpr (h.sublist (List.destutter_sublist _ l))
  have hne := List.isChain_destutter (· ≠ ·) l
  rw [← List.isChain_iff_pairwise]
  rw [List.isChain_iff_getElem] at hle hne ⊢
  exact fun i hi => lt_of_le_of_ne (hle i hi) (hne i hi)

theorem takeWhile_eq_filter {p : α → Bool} {l : List α}
    (h : l.Pairwise fun a b => p b = true → p a = true) : l.takeWhile p = l.filter p := by
  induction l with
  | nil => rfl
  | cons a l ih =>
    obtain ⟨hall, hl⟩ := List.pairwise_cons.mp h
    cases ha : p a with
    | true => rw [List.takeWhile_cons_of_pos ha, List.filter_cons_of_pos ha, ih hl]
    | false =>
      have hnone : ∀ b ∈ l, ¬ p b = true := fun b hb hpb => by simp [hall b hb hpb] at ha
      rw [List.takeWhile_cons_of_neg (by simp [ha]), List.filter_cons_of_neg (by simp [ha]),
        List.filter_eq_nil_iff.mpr hnone]

theorem key_le_getLast {l : List α} (h : l.Pairwise fun a b => key a ≤ key b) {a : α}
    (ha : l.getLast? = some a) : ∀ b ∈ l, key b ≤ key a := by
  obtain ⟨front, rfl⟩ := List.getLast?_eq_some_iff.mp ha
  intro b hb
  rcases List.mem_append.mp hb with hfront | hlast
  · exact (List.pairwise_append.mp h).2.2 b hfront a (by simp)
  · rw [List.mem_singleton.mp hlast]

-- Keeping what a partial selection puts first is keeping the first of the sorted list.
theorem map_key_sortBy_selected {chosen rest sorted : List α}
    (hperm : (chosen ++ rest).Perm sorted) (hle : ∀ a ∈ chosen, ∀ b ∈ rest, key a ≤ key b)
    (hsorted : sorted.Pairwise fun a b => key a ≤ key b) :
    (sortBy key chosen).map key = (sorted.take chosen.length).map key := by
  have hboth : (sortBy key chosen ++ sortBy key rest).Pairwise fun a b => key a ≤ key b := by
    refine List.pairwise_append.mpr ⟨sortBy_pairwise key chosen, sortBy_pairwise key rest, ?_⟩
    intro a ha b hb
    exact hle a ((sortBy_perm key chosen).mem_iff.mp ha) b ((sortBy_perm key rest).mem_iff.mp hb)
  have hsame := map_key_eq_of_perm
    (((sortBy_perm key chosen).append (sortBy_perm key rest)).trans hperm) hboth hsorted
  have hlen : ((sortBy key chosen).map key).length = chosen.length := by
    rw [List.length_map, (sortBy_perm key chosen).length_eq]
  rw [List.map_take, ← hsame, List.map_append, ← hlen, List.take_left]

end TopK
