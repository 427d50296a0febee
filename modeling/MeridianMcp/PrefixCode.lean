import Mathlib.Data.List.Basic
import Mathlib.Data.List.Nodup

namespace PrefixCode

variable {α β : Type}

-- What follows an encoded value is told apart from the value.
def PrefixFree (valid : α → Prop) (encode : α → List β) : Prop :=
  ∀ a b s t, valid a → valid b → encode a ++ s = encode b ++ t → a = b ∧ s = t

variable {valid : α → Prop} {encode : α → List β}

theorem PrefixFree.of_length {n : Nat} (hlength : ∀ a, (encode a).length = n)
    (hinj : ∀ a b, valid a → valid b → encode a = encode b → a = b) :
    PrefixFree valid encode := by
  intro a b s t ha hb h
  obtain ⟨hencode, hrest⟩ := List.append_inj h ((hlength a).trans (hlength b).symm)
  exact ⟨hinj a b ha hb hencode, hrest⟩

theorem PrefixFree.flatMap (hfree : PrefixFree valid encode) {xs ys : List α}
    (hlength : xs.length = ys.length) (hxs : ∀ x ∈ xs, valid x) (hys : ∀ y ∈ ys, valid y)
    {s t : List β} (h : xs.flatMap encode ++ s = ys.flatMap encode ++ t) : xs = ys ∧ s = t := by
  induction xs generalizing ys with
  | nil =>
    rw [List.length_nil, eq_comm, List.length_eq_zero_iff] at hlength
    subst hlength
    exact ⟨rfl, h⟩
  | cons x xs ih =>
    cases ys with
    | nil => cases hlength
    | cons y ys =>
      rw [List.flatMap_cons, List.flatMap_cons, List.append_assoc, List.append_assoc] at h
      obtain ⟨rfl, hrest⟩ := hfree x y _ _ (hxs x (List.mem_cons_self ..))
        (hys y (List.mem_cons_self ..)) h
      obtain ⟨rfl, hend⟩ := ih (Nat.succ.inj hlength)
        (fun z hz => hxs z (List.mem_cons_of_mem _ hz))
        (fun z hz => hys z (List.mem_cons_of_mem _ hz)) hrest
      exact ⟨rfl, hend⟩

theorem PrefixFree.flatMap_eq (hfree : PrefixFree valid encode) {xs ys : List α}
    (hlength : xs.length = ys.length) (hxs : ∀ x ∈ xs, valid x) (hys : ∀ y ∈ ys, valid y)
    (h : xs.flatMap encode = ys.flatMap encode) : xs = ys := by
  have happend : xs.flatMap encode ++ [] = ys.flatMap encode ++ [] := by
    rw [List.append_nil, List.append_nil, h]
  exact (hfree.flatMap hlength hxs hys happend).1

-- Values that are not encoded by nothing need no count of them.
theorem PrefixFree.flatMap_injective (hfree : PrefixFree valid encode) (hne : ∀ a, encode a ≠ [])
    {xs ys : List α} (hxs : ∀ x ∈ xs, valid x) (hys : ∀ y ∈ ys, valid y)
    (h : xs.flatMap encode = ys.flatMap encode) : xs = ys := by
  induction xs generalizing ys with
  | nil =>
    cases ys with
    | nil => rfl
    | cons y ys =>
      rw [List.flatMap_nil, List.flatMap_cons, List.nil_eq_append_iff] at h
      exact absurd h.1 (hne y)
  | cons x xs ih =>
    cases ys with
    | nil =>
      rw [List.flatMap_nil, List.flatMap_cons, List.append_eq_nil_iff] at h
      exact absurd h.1 (hne x)
    | cons y ys =>
      rw [List.forall_mem_cons] at hxs hys
      rw [List.flatMap_cons, List.flatMap_cons] at h
      obtain ⟨rfl, hrest⟩ := hfree x y _ _ hxs.1 hys.1 h
      rw [ih hxs.2 hys.2 hrest]

end PrefixCode
