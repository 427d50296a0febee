import Mathlib.Data.List.Nodup
import Mathlib.Data.List.Perm.Subperm
import Mathlib.Logic.Relation

namespace Lineage

variable {α β σ : Type}

def Up (up : α → Option α) (a b : α) : Prop := up a = some b

def Acyclic (up : α → Option α) (s : List α) : Prop :=
  ∀ a ∈ s, ¬ Relation.TransGen (Up up) a a

inductive Ascends (up : α → Option α) : α → List α → Prop
  | top {a : α} (h : up a = none) : Ascends up a [a]
  | step {a b : α} {l : List α} (h : up a = some b) (hl : Ascends up b l) : Ascends up a (a :: l)

theorem acyclic_of_rank {up : α → Option α} {s : List α} (rank : α → Nat)
    (hup : ∀ a ∈ s, ∀ b, up a = some b → b ∈ s ∧ rank b < rank a) : Acyclic up s := by
  intro a ha hcycle
  have hlt : ∀ b, Relation.TransGen (Up up) a b → b ∈ s ∧ rank b < rank a := by
    intro b hb
    induction hb with
    | single h => exact hup _ ha _ h
    | tail _ h ih => exact ⟨(hup _ ih.1 _ h).1, Nat.lt_trans (hup _ ih.1 _ h).2 ih.2⟩
  exact Nat.lt_irrefl _ (hlt a hcycle).2

theorem Ascends.unique {up : α → Option α} {a : α} {l l' : List α} (h : Ascends up a l)
    (h' : Ascends up a l') : l = l' := by
  induction h generalizing l' with
  | top h =>
    cases h' with
    | top _ => rfl
    | step h' _ => rw [h] at h'; cases h'
  | step h _ ih =>
    cases h' with
    | top h' => rw [h] at h'; cases h'
    | step h' hl' =>
      rw [h] at h'
      cases h'
      rw [ih hl']

theorem Ascends.mem_iff {up : α → Option α} {a b : α} {l : List α} (h : Ascends up a l) :
    b ∈ l ↔ Relation.ReflTransGen (Up up) a b := by
  induction h with
  | @top a h =>
    rw [List.mem_singleton, Relation.ReflTransGen.cases_head_iff]
    constructor
    · rintro rfl
      exact Or.inl rfl
    · rintro (rfl | ⟨c, hc, -⟩)
      · rfl
      · rw [Up, h] at hc
        cases hc
  | @step a c l h _ ih =>
    rw [List.mem_cons, ih, Relation.ReflTransGen.cases_head_iff (a := a)]
    constructor
    · rintro (rfl | hb)
      · exact Or.inl rfl
      · exact Or.inr ⟨c, h, hb⟩
    · rintro (rfl | ⟨d, hd, hb⟩)
      · exact Or.inl rfl
      · rw [Up, h] at hd
        cases hd
        exact Or.inr hb

theorem Ascends.subset {up : α → Option α} {a : α} {l s : List α} (h : Ascends up a l) (ha : a ∈ s)
    (hclosed : ∀ a ∈ s, ∀ b, up a = some b → b ∈ s) : l ⊆ s := by
  induction h with
  | top _ => exact List.cons_subset.mpr ⟨ha, List.nil_subset s⟩
  | step h _ ih => exact List.cons_subset.mpr ⟨ha, ih (hclosed _ ha _ h)⟩

theorem Ascends.map {up : α → Option α} {up' : β → Option β} {f : α → β} {a : α} {l s : List α}
    (h : Ascends up a l) (ha : a ∈ s) (hclosed : ∀ a ∈ s, ∀ b, up a = some b → b ∈ s)
    (hf : ∀ a ∈ s, up' (f a) = (up a).map f) : Ascends up' (f a) (l.map f) := by
  induction h with
  | top h => exact Ascends.top (by rw [hf _ ha, h]; rfl)
  | step h _ ih => exact Ascends.step (by rw [hf _ ha, h]; rfl) (ih (hclosed _ ha _ h))

-- The induction is on how many members of `s` have not been passed yet.
theorem exists_ascends_avoiding {up : α → Option α} {s : List α} (hacyclic : Acyclic up s)
    (hclosed : ∀ a ∈ s, ∀ b, up a = some b → b ∈ s) (n : Nat) {v : List α} {a : α}
    (hv : v.Nodup) (hvs : v ⊆ s) (ha : a ∈ s) (hreach : ∀ b ∈ v, Relation.TransGen (Up up) b a)
    (hn : s.length ≤ v.length + n) : ∃ l, Ascends up a l ∧ l.length ≤ n := by
  have hav : a ∉ v := fun h => hacyclic a ha (hreach a h)
  have hnodup : (a :: v).Nodup := List.nodup_cons.mpr ⟨hav, hv⟩
  have hsub : a :: v ⊆ s := List.cons_subset.mpr ⟨ha, hvs⟩
  have hlen : v.length + 1 ≤ s.length := (List.subperm_of_subset hnodup hsub).length_le
  induction n generalizing v a with
  | zero => omega
  | succ n ih =>
    cases h : up a with
    | none => exact ⟨[a], Ascends.top h, by simp⟩
    | some b =>
      have hb : b ∈ s := hclosed a ha b h
      have hreach' : ∀ c ∈ a :: v, Relation.TransGen (Up up) c b := by
        intro c hc
        rcases List.mem_cons.mp hc with rfl | hc
        · exact Relation.TransGen.single h
        · exact (hreach c hc).tail h
      have hbv : b ∉ a :: v := fun hm => hacyclic b hb (hreach' b hm)
      have hnodup' : (b :: a :: v).Nodup := List.nodup_cons.mpr ⟨hbv, hnodup⟩
      have hsub' : b :: a :: v ⊆ s := List.cons_subset.mpr ⟨hb, hsub⟩
      obtain ⟨l, hl, hln⟩ := ih hnodup hsub hb hreach' (by simp only [List.length_cons]; omega) hbv
        hnodup' hsub' (List.subperm_of_subset hnodup' hsub').length_le
      exact ⟨a :: l, Ascends.step h hl, by simp only [List.length_cons]; omega⟩

theorem exists_ascends {up : α → Option α} {s : List α} (hacyclic : Acyclic up s)
    (hclosed : ∀ a ∈ s, ∀ b, up a = some b → b ∈ s) {a : α} (ha : a ∈ s) :
    ∃ l, Ascends up a l ∧ l.length ≤ s.length :=
  exists_ascends_avoiding hacyclic hclosed s.length List.nodup_nil (List.nil_subset s) ha
    (by simp) (by simp)

def walk (up : α → Option α) (visit : σ → α → σ) : Nat → Option α → σ → Option σ
  | _, none, s => some s
  | 0, some _, _ => none
  | n + 1, some a, s => walk up visit n (up a) (visit s a)

theorem walk_ascends {up : α → Option α} {visit : σ → α → σ} {a : α} {l : List α}
    (h : Ascends up a l) {n : Nat} (hn : l.length ≤ n) (s : σ) :
    walk up visit n (some a) s = some (l.foldl visit s) := by
  induction h generalizing n s with
  | top h =>
    obtain ⟨n, rfl⟩ : ∃ m, n = m + 1 := Nat.exists_eq_succ_of_ne_zero (by simp at hn; omega)
    rw [walk, h]
    cases n <;> rfl
  | @step a b l h hl ih =>
    obtain ⟨n, rfl⟩ : ∃ m, n = m + 1 := Nat.exists_eq_succ_of_ne_zero (by simp at hn; omega)
    rw [walk, h, ih (by simpa using hn)]
    rfl

theorem ascends_of_walk {up : α → Option α} {visit : σ → α → σ} {n : Nat} {a : α} {s t : σ}
    (h : walk up visit n (some a) s = some t) : ∃ l, Ascends up a l ∧ l.length ≤ n := by
  induction n generalizing a s with
  | zero => cases h
  | succ n ih =>
    rw [walk] at h
    cases hup : up a with
    | none => exact ⟨[a], .top hup, by simp⟩
    | some b =>
      rw [hup] at h
      obtain ⟨l, hl, hlen⟩ := ih h
      exact ⟨a :: l, .step hup hl, by simp only [List.length_cons]; omega⟩

theorem Ascends.suffix {up : α → Option α} {a b : α} {l : List α} (h : Ascends up a l)
    (hb : b ∈ l) : ∃ l', Ascends up b l' ∧ l'.length ≤ l.length := by
  induction h with
  | top h =>
    obtain rfl := List.mem_singleton.mp hb
    exact ⟨_, .top h, Nat.le_refl _⟩
  | step h hl ih =>
    rcases List.mem_cons.mp hb with rfl | hb
    · exact ⟨_, .step h hl, Nat.le_refl _⟩
    · obtain ⟨l', hl', hlen⟩ := ih hb
      exact ⟨l', hl', by simp only [List.length_cons]; omega⟩

-- A chain that ends does not come back to where it started.
theorem Ascends.not_mem_tail {up : α → Option α} {a : α} {l : List α} (h : Ascends up a (a :: l)) :
    a ∉ l := by
  intro hmem
  cases h with
  | top _ => cases hmem
  | step hup hl =>
    obtain ⟨l', hl', hlen⟩ := hl.suffix hmem
    have heq := hl'.unique (.step hup hl)
    rw [heq, List.length_cons] at hlen
    omega

theorem Ascends.unmap {up : α → Option α} {up' : β → Option β} {f : α → β} {s : List α}
    (hclosed : ∀ a ∈ s, ∀ b, up a = some b → b ∈ s)
    (hf : ∀ a ∈ s, up' (f a) = (up a).map f) {a : α} (ha : a ∈ s) {l' : List β}
    (h : Ascends up' (f a) l') : ∃ l, Ascends up a l ∧ l' = l.map f := by
  generalize hb : f a = b at h
  induction h generalizing a with
  | top h =>
    subst hb
    rw [hf a ha, Option.map_eq_none_iff] at h
    exact ⟨[a], .top h, rfl⟩
  | step h _ ih =>
    subst hb
    rw [hf a ha] at h
    obtain ⟨c, hc, rfl⟩ := Option.map_eq_some_iff.mp h
    obtain ⟨l, hl, rfl⟩ := ih (hclosed a ha c hc) rfl
    exact ⟨a :: l, .step hc hl, rfl⟩

def seek (up : α → Option α) (pick : α → Option β) : Nat → Option α → Option (Option β)
  | _, none => some none
  | 0, some _ => none
  | n + 1, some a =>
    match pick a with
    | some b => some (some b)
    | none => seek up pick n (up a)

theorem seek_ascends {up : α → Option α} {pick : α → Option β} {a : α} {l : List α}
    (h : Ascends up a l) {n : Nat} (hn : l.length ≤ n) :
    seek up pick n (some a) = some (l.findSome? pick) := by
  induction h generalizing n with
  | @top a h =>
    cases n with
    | zero => simp at hn
    | succ n =>
      rw [seek, h, List.findSome?_cons]
      cases pick a with
      | some b => rfl
      | none => cases n <;> rfl
  | @step a b l h hl ih =>
    cases n with
    | zero => simp at hn
    | succ n =>
      rw [seek, h, ih (by simpa using hn), List.findSome?_cons]
      cases pick a <;> rfl

end Lineage
