import Mathlib.Data.List.DropRight
import Mathlib.Data.List.Infix

namespace Suffixes

variable {α : Type} {P : List α → Prop} [DecidablePred P] {l s t : List α}

-- Drop from the front until what is left satisfies the predicate.
def longest (P : List α → Prop) [DecidablePred P] : List α → List α
  | [] => []
  | a :: l => if P (a :: l) then a :: l else longest P l

structure Longest (P : List α → Prop) (l s : List α) : Prop where
  suffix : s <:+ l
  satisfies : P s
  maximal : ∀ t, t <:+ l → P t → t <:+ s

theorem longest_longest (hnil : P []) : Longest P l (longest P l) := by
  induction l with
  | nil => exact ⟨List.suffix_rfl, hnil, fun t ht _ => ht⟩
  | cons a l ih =>
    unfold longest
    split
    · rename_i h
      exact ⟨List.suffix_rfl, h, fun t ht _ => ht⟩
    · rename_i h
      refine ⟨ih.suffix.trans (List.suffix_cons a l), ih.satisfies, fun t ht hPt => ?_⟩
      rcases List.suffix_cons_iff.mp ht with rfl | ht
      · exact absurd hPt h
      · exact ih.maximal t ht hPt

omit [DecidablePred P] in
theorem Longest.unique (hs : Longest P l s) (ht : Longest P l t) : s = t :=
  (ht.maximal s hs.suffix hs.satisfies).eq_of_length_le
    (hs.maximal t ht.suffix ht.satisfies).length_le

theorem longest_congr {Q : List α → Prop} [DecidablePred Q] (h : ∀ t, t <:+ l → (P t ↔ Q t)) :
    longest P l = longest Q l := by
  induction l with
  | nil => rfl
  | cons a l ih =>
    rw [longest, longest, ih fun t ht => h t (ht.trans (List.suffix_cons a l))]
    exact if_congr (h _ List.suffix_rfl) rfl rfl

omit [DecidablePred P] in
-- What a later element makes too long stays too long, so only what was kept needs looking at.
theorem Longest.push {a : α} (hP : ∀ l a, P (l ++ [a]) → P l) (hs : Longest P l s)
    (ht : Longest P (s ++ [a]) t) : Longest P (l ++ [a]) t := by
  refine ⟨?_, ht.satisfies, fun u hu hPu => ht.maximal u ?_ hPu⟩
  · refine ht.suffix.trans (List.suffix_concat_iff.mpr (Or.inr ⟨s, rfl, hs.suffix⟩))
  · rcases List.suffix_concat_iff.mp hu with rfl | ⟨v, rfl, hv⟩
    · exact List.nil_suffix
    · exact List.suffix_concat_iff.mpr (Or.inr ⟨v, rfl, hs.maximal v hv (hP v a hPu)⟩)

section Last

variable {α : Type} {l m : List α} {n : Nat}

theorem length_rtake : (l.rtake n).length = min n l.length := by
  rw [List.rtake, List.length_drop]
  omega

theorem rtake_suffix : l.rtake n <:+ l := List.drop_suffix ..

theorem rtake_of_le (h : l.length ≤ n) : l.rtake n = l := by
  rw [List.rtake, Nat.sub_eq_zero_of_le h, List.drop_zero]

-- A last piece that is long enough leaves nothing of what stood before it.
theorem rtake_append_long (h : n ≤ m.length) : (l ++ m).rtake n = m.rtake n := by
  rw [List.rtake, List.rtake, List.length_append,
    show l.length + m.length - n = l.length + (m.length - n) by omega, List.drop_length_add_append]

theorem rtake_append_short (h : m.length ≤ n) :
    (l ++ m).rtake n = l.rtake (n - m.length) ++ m := by
  rw [List.rtake, List.rtake, List.length_append,
    show l.length + m.length - n = l.length - (n - m.length) by omega,
    List.drop_append_of_le_length (Nat.sub_le ..)]

theorem rtake_rtake {k : Nat} (h : k ≤ n) : (l.rtake n).rtake k = l.rtake k := by
  rw [List.rtake, length_rtake, List.rtake, List.rtake, List.drop_drop]
  congr 1
  omega

end Last

end Suffixes
