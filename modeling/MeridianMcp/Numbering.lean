import MeridianMcp.Fallible
import Mathlib.Data.List.Forall2
import Mathlib.Data.List.Nodup
import Mathlib.Data.Set.Finite.Basic
import Mathlib.Logic.Equiv.Fintype

namespace Numbering

variable {α : Type} [DecidableEq α]

-- The elements seen so far stand in the order of their first occurrence, and each has its place in
-- that order as its number. A new element gets the next one.
def enter (seen : List α) (a : α) : List α := if a ∈ seen then seen else seen ++ [a]

def numbers (seen : List α) : List α → List Nat
  | [] => []
  | a :: l => seen.idxOf a :: numbers (enter seen a) l

theorem mem_enter {seen : List α} {a b : α} : b ∈ enter seen a ↔ b ∈ seen ∨ b = a := by
  unfold enter
  split
  · rename_i hmem
    constructor
    · exact Or.inl
    · rintro (h | rfl)
      · exact h
      · exact hmem
  · rw [List.mem_append, List.mem_singleton]

theorem prefix_enter (seen : List α) (a : α) : seen <+: enter seen a := by
  unfold enter
  split
  · exact List.prefix_refl _
  · exact List.prefix_append ..

theorem nodup_enter {seen : List α} (a : α) (h : seen.Nodup) : (enter seen a).Nodup := by
  unfold enter
  split
  · exact h
  · rename_i hnew
    rw [← List.concat_eq_append]
    exact h.concat hnew

theorem prefix_foldl_enter (seen l : List α) : seen <+: l.foldl enter seen := by
  induction l generalizing seen with
  | nil => exact List.prefix_refl _
  | cons a l ih => exact (prefix_enter seen a).trans (ih _)

theorem mem_foldl_enter {seen l : List α} {b : α} :
    b ∈ l.foldl enter seen ↔ b ∈ seen ∨ b ∈ l := by
  induction l generalizing seen with
  | nil => simp
  | cons a l ih => rw [List.foldl_cons, ih, mem_enter, List.mem_cons, or_assoc]

theorem nodup_foldl_enter {seen : List α} (l : List α) (h : seen.Nodup) :
    (l.foldl enter seen).Nodup := by
  induction l generalizing seen with
  | nil => exact h
  | cons a l ih => exact ih (nodup_enter a h)

theorem idxOf_enter (seen : List α) (a : α) : (enter seen a).idxOf a = seen.idxOf a := by
  unfold enter
  split
  · rfl
  · rename_i hnew
    rw [List.idxOf_append_of_notMem hnew, List.idxOf_cons_self, List.idxOf_eq_length hnew]
    rfl

theorem idxOf_extended {s t : List α} (h : s <+: t) {a : α} (ha : a ∈ s) :
    t.idxOf a = s.idxOf a := by
  obtain ⟨u, rfl⟩ := h
  exact List.idxOf_append_of_mem ha

theorem numbers_eq_map (seen l : List α) :
    numbers seen l = l.map fun a => (l.foldl enter seen).idxOf a := by
  induction l generalizing seen with
  | nil => rfl
  | cons a l ih =>
    have hhead : (l.foldl enter (enter seen a)).idxOf a = seen.idxOf a := by
      rw [idxOf_extended (prefix_foldl_enter _ l) (mem_enter.mpr (Or.inr rfl)), idxOf_enter]
    rw [numbers, ih, List.map_cons, List.foldl_cons, hhead]

theorem numbers_append (seen l l' : List α) :
    numbers seen (l ++ l') = numbers seen l ++ numbers (l.foldl enter seen) l' := by
  induction l generalizing seen with
  | nil => rfl
  | cons a l ih => rw [List.cons_append, numbers, ih, numbers, List.cons_append, List.foldl_cons]

theorem length_numbers (seen l : List α) : (numbers seen l).length = l.length := by
  rw [numbers_eq_map, List.length_map]

theorem lt_of_mem_numbers {seen l : List α} {n : Nat} (h : n ∈ numbers seen l) :
    n < (l.foldl enter seen).length := by
  rw [numbers_eq_map, List.mem_map] at h
  obtain ⟨a, ha, rfl⟩ := h
  exact List.idxOf_lt_length_of_mem (mem_foldl_enter.mpr (Or.inr ha))

variable {β : Type} [DecidableEq β]

theorem idxOf_map {f : α → β} {s : List α} {a : α} (h : ∀ b ∈ s, f b = f a → b = a) :
    (s.map f).idxOf (f a) = s.idxOf a := by
  induction s with
  | nil => rfl
  | cons b s ih =>
    have ih := ih fun c hc => h c (List.mem_cons_of_mem _ hc)
    rw [List.map_cons, List.idxOf_cons, List.idxOf_cons, ih]
    by_cases hb : b = a
    · rw [hb, beq_self_eq_true, beq_self_eq_true]
    · have hf : f b ≠ f a := fun heq => hb (h b (List.mem_cons_self ..) heq)
      rw [beq_false_of_ne hb, beq_false_of_ne hf]

theorem enter_map {f : α → β} {s : List α} {a : α} (h : ∀ b ∈ s, f b = f a → b = a) :
    enter (s.map f) (f a) = (enter s a).map f := by
  have hmem : f a ∈ s.map f ↔ a ∈ s := by
    constructor
    · intro hin
      obtain ⟨b, hb, heq⟩ := List.mem_map.mp hin
      rwa [← h b hb heq]
    · exact List.mem_map_of_mem
  unfold enter
  by_cases ha : a ∈ s
  · rw [if_pos ha, if_pos (hmem.mpr ha)]
  · rw [if_neg ha, if_neg (mt hmem.mp ha), List.map_append, List.map_singleton]

omit [DecidableEq β] in
-- What stays one-to-one when the first element has been entered and the rest is still to come.
theorem injOn_cons {f : α → β} {seen l : List α} {a : α}
    (hf : Set.InjOn f {b | b ∈ seen ∨ b ∈ a :: l}) :
    (∀ b ∈ seen, f b = f a → b = a) ∧ Set.InjOn f {b | b ∈ enter seen a ∨ b ∈ l} := by
  refine ⟨fun b hb heq => hf (Or.inl hb) (Or.inr (List.mem_cons_self ..)) heq, ?_⟩
  refine hf.mono fun b hb => ?_
  rcases hb with hb | hb
  · rcases mem_enter.mp hb with hb | rfl
    · exact Or.inl hb
    · exact Or.inr (List.mem_cons_self ..)
  · exact Or.inr (List.mem_cons_of_mem _ hb)

theorem foldl_enter_map {f : α → β} {seen l : List α}
    (hf : Set.InjOn f {a | a ∈ seen ∨ a ∈ l}) :
    (l.map f).foldl enter (seen.map f) = (l.foldl enter seen).map f := by
  induction l generalizing seen with
  | nil => rfl
  | cons a l ih =>
    obtain ⟨hone, hrest⟩ := injOn_cons hf
    rw [List.map_cons, List.foldl_cons, List.foldl_cons, enter_map hone, ih hrest]

theorem numbers_map {f : α → β} {seen l : List α}
    (hf : Set.InjOn f {a | a ∈ seen ∨ a ∈ l}) :
    numbers (seen.map f) (l.map f) = numbers seen l := by
  induction l generalizing seen with
  | nil => rfl
  | cons a l ih =>
    obtain ⟨hone, hrest⟩ := injOn_cons hf
    rw [List.map_cons, numbers, numbers, idxOf_map hone, enter_map hone, ih hrest]

-- Two lists have the same numbers exactly when a renaming, one-to-one on the first, gives the second.
theorem numbers_eq_iff {l l' : List α} :
    numbers [] l = numbers [] l' ↔ ∃ f : α → α, Set.InjOn f {a | a ∈ l} ∧ l' = l.map f := by
  constructor
  · intro h
    rw [numbers_eq_map, numbers_eq_map] at h
    have hsame : List.Forall₂
        (fun a b => (l.foldl enter []).idxOf a = (l'.foldl enter []).idxOf b) l l' := by
      rwa [← List.forall₂_eq_eq_eq, List.forall₂_map_left_iff, List.forall₂_map_right_iff] at h
    have hname : ∀ b ∈ l', (l'.foldl enter [])[(l'.foldl enter []).idxOf b]? = some b := by
      intro b hb
      have hmem : b ∈ l'.foldl enter [] := mem_foldl_enter.mpr (Or.inr hb)
      rw [List.getElem?_eq_getElem (List.idxOf_lt_length_of_mem hmem), List.getElem_idxOf]
    let f : α → α := fun a => ((l'.foldl enter [])[(l.foldl enter []).idxOf a]?).getD a
    have hf : List.Forall₂ (fun a b => b = f a ∧
        (l.foldl enter []).idxOf a = (l'.foldl enter []).idxOf b) l l' := by
      refine List.forall₂_iff_zip.mpr ⟨hsame.length_eq, ?_⟩
      intro a b hab
      have hidx := (List.forall₂_iff_zip.mp hsame).2 hab
      refine ⟨?_, hidx⟩
      change b = ((l'.foldl enter [])[(l.foldl enter []).idxOf a]?).getD a
      rw [hidx, hname b (List.of_mem_zip hab).2, Option.getD_some]
    refine ⟨f, ?_, ?_⟩
    · have hkey : ∀ a ∈ l, (l.foldl enter []).idxOf a = (l'.foldl enter []).idxOf (f a) := by
        intro a ha
        obtain ⟨b, -, rfl, hidx⟩ := Fallible.exists_of_mem_left hf ha
        exact hidx
      intro a ha a' ha' heq
      have hidx : (l.foldl enter []).idxOf a = (l.foldl enter []).idxOf a' := by
        rw [hkey a ha, hkey a' ha', heq]
      exact (List.idxOf_inj (mem_foldl_enter.mpr (Or.inr ha))).mp hidx
    · rw [← List.forall₂_eq_eq_eq, List.forall₂_map_right_iff]
      exact hf.flip.imp fun a b h => h.1
  · rintro ⟨f, hf, rfl⟩
    exact (@numbers_map α _ α _ f [] l (hf.mono fun a ha => ha.resolve_left List.not_mem_nil)).symm

-- Pairs of which either side determines the other.
def OneToOne (pairs : List (α × β)) : Prop :=
  ∀ p ∈ pairs, ∀ q ∈ pairs, p.1 = q.1 ↔ p.2 = q.2

omit [DecidableEq α] [DecidableEq β] in
theorem OneToOne.flip {pairs : List (α × β)} (h : OneToOne pairs) :
    OneToOne (pairs.map Prod.swap) := by
  rw [OneToOne, List.forall_mem_map]
  intro p hp
  rw [List.forall_mem_map]
  exact fun q hq => (h p hp q hq).symm

omit [DecidableEq α] [DecidableEq β] in
theorem OneToOne.perm {pairs pairs' : List (α × β)} (h : OneToOne pairs)
    (hperm : pairs'.Perm pairs) : OneToOne pairs' :=
  fun p hp q hq => h p (hperm.mem_iff.mp hp) q (hperm.mem_iff.mp hq)

theorem numbers_eq_iff_oneToOne {pairs : List (α × α)} :
    numbers [] (pairs.map Prod.fst) = numbers [] (pairs.map Prod.snd) ↔ OneToOne pairs := by
  constructor
  · intro h
    obtain ⟨f, hf, hmap⟩ := numbers_eq_iff.mp h
    rw [List.map_map] at hmap
    have hvalue : ∀ p ∈ pairs, p.2 = f p.1 := List.map_inj_left.mp hmap
    intro p hp q hq
    rw [hvalue p hp, hvalue q hq]
    exact (hf.eq_iff (List.mem_map_of_mem hp) (List.mem_map_of_mem hq)).symm
  · intro h
    let f : α → α := fun a => ((pairs.find? fun p => p.1 = a).map Prod.snd).getD a
    have hf : ∀ p ∈ pairs, p.2 = f p.1 := by
      intro p hp
      obtain ⟨q, hfind⟩ := Option.isSome_iff_exists.mp
        (List.find?_isSome.mpr ⟨p, hp, decide_eq_true rfl⟩ :
          (pairs.find? fun q => q.1 = p.1).isSome)
      have hq := List.mem_of_find?_eq_some hfind
      have hfirst : q.1 = p.1 := by simpa using List.find?_some hfind
      change p.2 = ((pairs.find? fun q => q.1 = p.1).map Prod.snd).getD p.1
      rw [hfind]
      exact ((h q hq p hp).mp hfirst).symm
    refine numbers_eq_iff.mpr ⟨f, ?_, ?_⟩
    · intro a ha b hb heq
      obtain ⟨p, hp, rfl⟩ := List.mem_map.mp ha
      obtain ⟨q, hq, rfl⟩ := List.mem_map.mp hb
      rw [← hf p hp, ← hf q hq] at heq
      exact (h p hp q hq).mpr heq
    · rw [List.map_map]
      exact List.map_congr_left hf

-- A renaming of finitely many names that keeps their kinds is part of a permutation of all names
-- that does.
theorem exists_perm_extending {α κ : Type} (kind : α → κ) {s : Set α} (hs : s.Finite) {f : α → α}
    (hf : Set.InjOn f s) (hkind : ∀ a ∈ s, kind (f a) = kind a) :
    ∃ e : Equiv.Perm α, (∀ a, kind (e a) = kind a) ∧ ∀ a ∈ s, e a = f a := by
  have hfiber : ∀ k : κ, ∃ e : Equiv.Perm {a // kind a = k},
      ∀ a : {a // a ∈ s ∧ kind a = k},
        e ⟨a, a.2.2⟩ = ⟨f a, (hkind a a.2.1).trans a.2.2⟩ := by
    intro k
    have : Finite {a // a ∈ s ∧ kind a = k} := (hs.subset fun a ha => ha.1).to_subtype
    refine Equiv.Perm.exists_extending_pair _ _ ?_ ?_
    · exact fun a b heq => Subtype.ext (Subtype.mk.inj heq)
    · exact fun a b heq => Subtype.ext (hf a.2.1 b.2.1 (Subtype.mk.inj heq))
  choose e he using hfiber
  refine ⟨(Equiv.sigmaFiberEquiv kind).symm.trans
    ((Equiv.sigmaCongrRight e).trans (Equiv.sigmaFiberEquiv kind)), ?_, ?_⟩
  · exact fun a => (e (kind a) ⟨a, rfl⟩).2
  · exact fun a ha => congrArg Subtype.val (he (kind a) ⟨a, ha, rfl⟩)

end Numbering
