import Mathlib.Data.List.Forall2
import Mathlib.Data.List.Perm.Basic

namespace Fallible

theorem exists_mapM_some {α β : Type} {f : α → Option β} {l : List α}
    (h : ∀ a ∈ l, ∃ b, f a = some b) : ∃ bs, l.mapM f = some bs := by
  induction l with
  | nil => exact ⟨[], rfl⟩
  | cons a l ih =>
    obtain ⟨b, hb⟩ := h a (List.mem_cons_self ..)
    obtain ⟨bs, hbs⟩ := ih fun c hc => h c (List.mem_cons_of_mem _ hc)
    exact ⟨b :: bs, by rw [List.mapM_cons, hb, hbs]; rfl⟩

theorem exists_mapM_ok {α β ε : Type} {f : α → Except ε β} {l : List α}
    (h : ∀ a ∈ l, ∃ b, f a = .ok b) : ∃ bs, l.mapM f = .ok bs := by
  induction l with
  | nil => exact ⟨[], rfl⟩
  | cons a l ih =>
    obtain ⟨b, hb⟩ := h a (List.mem_cons_self ..)
    obtain ⟨bs, hbs⟩ := ih fun c hc => h c (List.mem_cons_of_mem _ hc)
    exact ⟨b :: bs, by rw [List.mapM_cons, hb, hbs]; rfl⟩

theorem forall₂_of_mapM_ok {α β ε : Type} {f : α → Except ε β} {l : List α} {bs : List β}
    (h : l.mapM f = .ok bs) : List.Forall₂ (fun a b => f a = .ok b) l bs := by
  induction l generalizing bs with
  | nil =>
    cases h
    exact .nil
  | cons a l ih =>
    rw [List.mapM_cons] at h
    cases ha : f a with
    | error e =>
      rw [ha] at h
      cases h
    | ok b =>
      cases hl : l.mapM f with
      | error e =>
        rw [ha, hl] at h
        cases h
      | ok rest =>
        rw [ha, hl] at h
        cases h
        exact .cons ha (ih hl)

theorem exists_of_mem_right {α β : Type} {R : α → β → Prop} {l : List α} {bs : List β}
    (h : List.Forall₂ R l bs) {b : β} (hb : b ∈ bs) : ∃ a ∈ l, R a b := by
  induction h with
  | nil => cases hb
  | cons hhead _ ih =>
    rcases List.mem_cons.mp hb with rfl | hb
    · exact ⟨_, List.mem_cons_self .., hhead⟩
    · obtain ⟨a, ha, hab⟩ := ih hb
      exact ⟨a, List.mem_cons_of_mem _ ha, hab⟩

theorem exists_of_mem_left {α β : Type} {R : α → β → Prop} {l : List α} {bs : List β}
    (h : List.Forall₂ R l bs) {a : α} (ha : a ∈ l) : ∃ b ∈ bs, R a b :=
  exists_of_mem_right h.flip ha

theorem map_eq_of_forall₂ {α β γ : Type} {R : α → β → Prop} {f : α → γ} {g : β → γ} {l : List α}
    {bs : List β} (h : List.Forall₂ R l bs) (hfg : ∀ a b, R a b → g b = f a) :
    bs.map g = l.map f := by
  induction h with
  | nil => rfl
  | cons hhead _ ih => rw [List.map_cons, List.map_cons, ih, hfg _ _ hhead]

theorem foldlM_cons_ok {α β ε : Type} {f : β → α → Except ε β} {a : α} {l : List α} {b out : β}
    (h : (a :: l).foldlM f b = .ok out) : ∃ next, f b a = .ok next ∧ l.foldlM f next = .ok out := by
  rw [List.foldlM_cons] at h
  cases hstep : f b a with
  | error e =>
    rw [hstep] at h
    cases h
  | ok next =>
    rw [hstep] at h
    exact ⟨next, rfl, h⟩

theorem forall₂_concat_iff {α : Type} {R : α → α → Prop} {l l' : List α} {a a' : α} :
    List.Forall₂ R (l ++ [a]) (l' ++ [a']) ↔ List.Forall₂ R l l' ∧ R a a' := by
  rw [← List.forall₂_reverse_iff, List.reverse_append, List.reverse_append, List.reverse_singleton,
    List.reverse_singleton, List.singleton_append, List.singleton_append, List.forall₂_cons,
    List.forall₂_reverse_iff, and_comm]

theorem bind_ok {α β ε : Type} {x : Except ε α} {f : α → Except ε β} {b : β}
    (h : (x >>= f) = .ok b) : ∃ a, x = .ok a ∧ f a = .ok b := by
  cases x with
  | error e => cases h
  | ok a => exact ⟨a, rfl, h⟩

theorem map_ok {α β ε : Type} {x : Except ε α} {f : α → β} {b : β} (h : x.map f = .ok b) :
    ∃ a, x = .ok a ∧ f a = b := by
  cases x with
  | error e => cases h
  | ok a => exact ⟨a, rfl, Except.ok.inj h⟩

theorem mapError_ok {α ε ε' : Type} {x : Except ε α} {f : ε → ε'} {a : α} (h : x.mapError f = .ok a) :
    x = .ok a := by
  cases x with
  | error e => cases h
  | ok b =>
    cases h
    rfl

theorem bind_ok_iff {α β ε : Type} {x : Except ε α} {f : α → Except ε β} {b : β} :
    (x >>= f) = .ok b ↔ ∃ a, x = .ok a ∧ f a = .ok b := by
  constructor
  · exact bind_ok
  · rintro ⟨a, rfl, hf⟩
    exact hf

def ensure {ε : Type} (p : Prop) [Decidable p] (e : ε) : Except ε Unit :=
  if p then .ok () else .error e

@[simp] theorem ensure_ok_iff {ε : Type} {p : Prop} [Decidable p] {e : ε} :
    ensure p e = .ok () ↔ p := by
  unfold ensure
  by_cases h : p <;> simp [h]

theorem ensure_bind_ok_iff {β ε : Type} {p : Prop} [Decidable p] {e : ε} {f : Unit → Except ε β}
    {b : β} : (ensure p e >>= f) = .ok b ↔ p ∧ f () = .ok b := by
  rw [bind_ok_iff]
  exact ⟨fun ⟨(), hp, h⟩ => ⟨ensure_ok_iff.mp hp, h⟩, fun ⟨hp, h⟩ => ⟨(), ensure_ok_iff.mpr hp, h⟩⟩

theorem forM_ok_iff {α ε : Type} {f : α → Except ε Unit} {l : List α} :
    l.forM f = .ok () ↔ ∀ a ∈ l, f a = .ok () := by
  induction l with
  | nil => exact ⟨fun _ _ h => absurd h List.not_mem_nil, fun _ => rfl⟩
  | cons a l ih =>
    change (f a >>= fun _ => l.forM f) = .ok () ↔ _
    rw [bind_ok_iff, List.forall_mem_cons, ← ih]
    exact ⟨fun ⟨(), h⟩ => h, fun h => ⟨(), h⟩⟩

theorem forall₂_of_mapM_some {α β : Type} {f : α → Option β} {l : List α} {bs : List β}
    (h : l.mapM f = some bs) : List.Forall₂ (fun a b => f a = some b) l bs := by
  induction l generalizing bs with
  | nil =>
    cases h
    exact .nil
  | cons a l ih =>
    rw [List.mapM_cons] at h
    obtain ⟨b, hb, h⟩ := Option.bind_eq_some_iff.mp h
    obtain ⟨rest, hrest, h⟩ := Option.bind_eq_some_iff.mp h
    cases h
    exact .cons hb (ih hrest)

theorem mapM_some_of_forall₂ {α β : Type} {f : α → Option β} {l : List α} {bs : List β}
    (h : List.Forall₂ (fun a b => f a = some b) l bs) : l.mapM f = some bs := by
  induction h with
  | nil => rfl
  | cons hhead _ ih =>
    rw [List.mapM_cons, hhead, ih]
    rfl

theorem mapM_eq_some_iff {α β : Type} {f : α → Option β} {l : List α} {bs : List β} :
    l.mapM f = some bs ↔ l.map f = bs.map some := by
  rw [← List.forall₂_eq_eq_eq, List.forall₂_map_left_iff, List.forall₂_map_right_iff]
  exact ⟨forall₂_of_mapM_some, mapM_some_of_forall₂⟩

theorem isSome_of_mapM {α β : Type} {f : α → Option β} {l : List α} {bs : List β}
    (h : l.mapM f = some bs) {a : α} (ha : a ∈ l) : (f a).isSome := by
  obtain ⟨b, -, hb⟩ := exists_of_mem_left (forall₂_of_mapM_some h) ha
  rw [hb]
  rfl

-- The results for a list that is moved and put into another order.
theorem mapM_moved {α β γ : Type} {f g : α → Option β} {result : β → γ} {move : α → α}
    {l l' : List α} {bs : List β} (h : l.mapM f = some bs) (hperm : (l.map move).Perm l')
    (hsame : ∀ a ∈ l, (f a).map result = (g (move a)).map result) :
    ∃ bs', l'.mapM g = some bs' ∧ (bs.map result).Perm (bs'.map result) := by
  obtain ⟨bs', hbs'⟩ := @exists_mapM_some _ _ g l' fun a' ha' => by
    obtain ⟨a, ha, rfl⟩ := List.mem_map.mp (hperm.mem_iff.mpr ha')
    have hsome := isSome_of_mapM h ha
    rw [← @Option.isSome_map _ _ result, hsame a ha, Option.isSome_map] at hsome
    exact Option.isSome_iff_exists.mp hsome
  refine ⟨bs', hbs', ?_⟩
  have hresults : l.map (fun a => (g (move a)).map result) = (bs.map result).map some := by
    have hmapped := congrArg (List.map (Option.map result)) (mapM_eq_some_iff.mp h)
    rw [List.map_map, List.map_map] at hmapped
    rw [List.map_map]
    exact (List.map_congr_left fun a ha => (hsame a ha).symm).trans hmapped
  have hresults' : l'.map (Option.map result ∘ g) = (bs'.map result).map some := by
    have hmapped := congrArg (List.map (Option.map result)) (mapM_eq_some_iff.mp hbs')
    rw [List.map_map, List.map_map] at hmapped
    rw [List.map_map]
    exact hmapped
  have hmoved := hperm.map (Option.map result ∘ g)
  rw [List.map_map, hresults'] at hmoved
  have hsome := (List.Perm.of_eq hresults.symm).trans hmoved
  exact (List.map_perm_map_iff fun _ _ => Option.some.inj).mp hsome

end Fallible
