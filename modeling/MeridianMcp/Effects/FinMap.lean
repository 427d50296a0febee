import Mathlib.Data.Finset.Image
import Mathlib.Data.Finset.Sort
import Mathlib.Data.Finset.Union
import Mathlib.Data.List.Sort
import Mathlib.Logic.Function.Basic

namespace Effects

structure FinMap (K V : Type) [DecidableEq K] where
  get : K → Option V
  keys : Finset K
  mem_keys : ∀ k, k ∈ keys ↔ get k ≠ none

namespace FinMap

variable {K V W : Type} [DecidableEq K]

@[ext] theorem ext_get {m m' : FinMap K V} (h : ∀ k, m.get k = m'.get k) : m = m' := by
  obtain ⟨f, ks, hk⟩ := m
  obtain ⟨g, ks', hk'⟩ := m'
  obtain rfl : f = g := funext h
  obtain rfl : ks = ks' := by
    ext k
    rw [hk, hk']
  rfl

def empty : FinMap K V where
  get _ := none
  keys := ∅
  mem_keys k := by simp

def ofKeys (f : K → Option V) (ks : Finset K) (h : ∀ k, f k ≠ none → k ∈ ks) : FinMap K V where
  get := f
  keys := ks.filter (fun k => (f k).isSome)
  mem_keys k := by
    rw [Finset.mem_filter, Option.isSome_iff_ne_none]
    exact ⟨And.right, fun hk => ⟨h k hk, hk⟩⟩

@[simp] theorem get_ofKeys (f : K → Option V) (ks : Finset K) (h : ∀ k, f k ≠ none → k ∈ ks) (k : K) :
    (ofKeys f ks h).get k = f k := rfl

def insert (m : FinMap K V) (k : K) (v : V) : FinMap K V :=
  ofKeys (Function.update m.get k (some v)) (Insert.insert k m.keys) (by
    intro j hj
    by_cases h : j = k
    · simp [h]
    · rw [Function.update_of_ne h] at hj
      exact Finset.mem_insert_of_mem ((m.mem_keys j).mpr hj))

@[simp] theorem get_insert (m : FinMap K V) (k : K) (v : V) :
    (m.insert k v).get = Function.update m.get k (some v) := rfl

def erase (m : FinMap K V) (k : K) : FinMap K V :=
  ofKeys (Function.update m.get k none) m.keys (by
    intro j hj
    by_cases h : j = k
    · simp [h] at hj
    · rw [Function.update_of_ne h] at hj
      exact (m.mem_keys j).mpr hj)

@[simp] theorem get_erase (m : FinMap K V) (k : K) :
    (m.erase k).get = Function.update m.get k none := rfl

theorem mem_keys_insert {m : FinMap K V} {k j : K} {v : V} :
    j ∈ (m.insert k v).keys ↔ j = k ∨ j ∈ m.keys := by
  rw [mem_keys, get_insert, mem_keys]
  rcases eq_or_ne j k with rfl | h
  · simp
  · simp [h]

theorem keys_insert (m : FinMap K V) (k : K) (v : V) :
    (m.insert k v).keys = Insert.insert k m.keys :=
  Finset.ext fun _ => by rw [mem_keys_insert, Finset.mem_insert]

theorem mem_keys_erase {m : FinMap K V} {k j : K} : j ∈ (m.erase k).keys ↔ j ≠ k ∧ j ∈ m.keys := by
  rw [mem_keys, get_erase, mem_keys]
  rcases eq_or_ne j k with rfl | h
  · simp
  · simp [h]

theorem card_keys_insert_le (m : FinMap K V) (k : K) (v : V) :
    (m.insert k v).keys.card ≤ m.keys.card + 1 := by
  refine (Finset.card_le_card ?_).trans (Finset.card_insert_le k m.keys)
  intro j hj
  exact Finset.mem_insert.mpr (mem_keys_insert.mp hj)

theorem card_keys_erase_le (m : FinMap K V) (k : K) : (m.erase k).keys.card ≤ m.keys.card :=
  Finset.card_le_card fun _ hj => (mem_keys_erase.mp hj).2

def filterMap (f : V → Option W) (m : FinMap K V) : FinMap K W :=
  ofKeys (fun k => (m.get k).bind f) m.keys (by
    intro k hk
    rw [m.mem_keys]
    rintro h
    simp [h] at hk)

@[simp] theorem get_filterMap (f : V → Option W) (m : FinMap K V) (k : K) :
    (m.filterMap f).get k = (m.get k).bind f := rfl

def toList [LinearOrder K] (m : FinMap K V) : List (K × V) :=
  (m.keys.sort (· ≤ ·)).filterMap fun k => (m.get k).map fun v => (k, v)

theorem mem_toList [LinearOrder K] {m : FinMap K V} {k : K} {v : V} :
    (k, v) ∈ m.toList ↔ m.get k = some v := by
  simp only [toList, List.mem_filterMap, Finset.mem_sort, Option.map_eq_some_iff]
  constructor
  · rintro ⟨j, -, w, hw, heq⟩
    cases heq
    exact hw
  · intro h
    exact ⟨k, (m.mem_keys k).mpr (by simp [h]), v, h, rfl⟩

def pushAt {A : Type} (key : A → K) (value : A → V) (m : FinMap K (List V)) (a : A) :
    FinMap K (List V) :=
  m.insert (key a) ((m.get (key a)).getD [] ++ [value a])

theorem get_foldl_pushAt {A : Type} (key : A → K) (value : A → V) (k : K) (l : List A)
    (m : FinMap K (List V)) :
    (l.foldl (pushAt key value) m).get k =
      if l.any (fun a => key a = k) then
        some ((m.get k).getD [] ++ (l.filter fun a => key a = k).map value)
      else m.get k := by
  induction l generalizing m with
  | nil => rfl
  | cons a l ih =>
    rw [List.foldl_cons, ih, pushAt, get_insert]
    by_cases h : key a = k
    · subst h
      by_cases hrest : l.any (fun b => key b = key a) = true
      · simp [hrest]
      · have hnil : l.filter (fun b => key b = key a) = [] := by
          simpa [List.filter_eq_nil_iff] using hrest
        simp [hrest, hnil]
    · rw [Function.update_of_ne (Ne.symm h)]
      simp [h]

omit [DecidableEq K] in
theorem insertionSort_eq_of_perm [LinearOrder K] {l l' : List K} (h : l.Perm l') :
    l.insertionSort (· ≤ ·) = l'.insertionSort (· ≤ ·) :=
  (((List.perm_insertionSort _ l).trans h).trans (List.perm_insertionSort _ l').symm).eq_of_pairwise
    (fun _ _ _ _ => le_antisymm) (List.pairwise_insertionSort _ _) (List.pairwise_insertionSort _ _)

-- The keys of a tree map in their order, by a sort that evaluates.
def sortKeys [LinearOrder K] (keys : Finset K) : List K :=
  Quot.liftOn keys.val (fun l => l.insertionSort (· ≤ ·)) fun _ _ => insertionSort_eq_of_perm

omit [DecidableEq K] in
theorem sortKeys_nodup [LinearOrder K] (keys : Finset K) : (sortKeys keys).Nodup := by
  obtain ⟨⟨l⟩, h⟩ := keys
  exact (List.perm_insertionSort _ l).nodup_iff.mpr h

omit [DecidableEq K] in
@[simp] theorem mem_sortKeys [LinearOrder K] {keys : Finset K} {k : K} :
    k ∈ sortKeys keys ↔ k ∈ keys := by
  obtain ⟨⟨l⟩, h⟩ := keys
  exact (List.perm_insertionSort _ l).mem_iff

omit [DecidableEq K] in
theorem sortKeys_pairwise [LinearOrder K] (keys : Finset K) : (sortKeys keys).Pairwise (· < ·) := by
  obtain ⟨⟨l⟩, hl⟩ := keys
  have hnodup : (l.insertionSort (· ≤ ·)).Nodup := (List.perm_insertionSort _ l).nodup_iff.mpr hl
  exact (List.pairwise_insertionSort (· ≤ ·) l).imp₂ (fun _ _ hle hne => lt_of_le_of_ne hle hne) hnodup

def entries [LinearOrder K] (m : FinMap K V) : List (K × V) :=
  (sortKeys m.keys).filterMap fun k => (m.get k).map fun v => (k, v)

theorem mem_entries [LinearOrder K] {m : FinMap K V} {k : K} {v : V} :
    (k, v) ∈ m.entries ↔ m.get k = some v := by
  simp only [entries, List.mem_filterMap, mem_sortKeys, Option.map_eq_some_iff]
  constructor
  · rintro ⟨j, -, w, hw, heq⟩
    cases heq
    exact hw
  · intro h
    exact ⟨k, (m.mem_keys k).mpr (by simp [h]), v, h, rfl⟩

theorem entries_keys_nodup [LinearOrder K] (m : FinMap K V) : (m.entries.map Prod.fst).Nodup := by
  have hsub : ∀ l : List K,
      ((l.filterMap fun k => (m.get k).map fun v => (k, v)).map Prod.fst).Sublist l := by
    intro l
    induction l with
    | nil => exact List.Sublist.slnil
    | cons k l ih =>
      rw [List.filterMap_cons]
      cases m.get k with
      | none => exact ih.cons _
      | some v => exact ih.cons_cons _
  exact (sortKeys_nodup m.keys).sublist (hsub _)

-- The entries hold each key once.
theorem filter_entries [LinearOrder K] (m : FinMap K V) (k : K) :
    m.entries.filter (fun entry => entry.1 = k) = ((m.get k).map fun v => (k, v)).toList := by
  have hlist : ∀ l : List K, l.Nodup →
      ((l.filterMap fun j => (m.get j).map fun v => (j, v)).filter fun entry => entry.1 = k) =
        if k ∈ l then ((m.get k).map fun v => (k, v)).toList else [] := by
    intro l hl
    induction l with
    | nil => rfl
    | cons j l ih =>
      obtain ⟨hj, htail⟩ := List.nodup_cons.mp hl
      have hrest := ih htail
      rw [List.filterMap_cons]
      rcases eq_or_ne k j with rfl | hne
      · rw [if_neg hj] at hrest
        rw [if_pos (List.mem_cons_self ..)]
        cases m.get k with
        | none => exact hrest
        | some v => simpa using hrest
      · have hmem : k ∈ j :: l ↔ k ∈ l := List.mem_cons.trans (or_iff_right hne)
        simp only [hmem, ← hrest]
        cases m.get j with
        | none => rfl
        | some v => exact List.filter_cons_of_neg (by simpa using hne.symm)
  rw [entries, hlist _ (sortKeys_nodup m.keys), ite_eq_left_iff, mem_sortKeys, mem_keys, not_not]
  intro hnone
  rw [hnone]
  rfl

def insertPair (m : FinMap K V) (pair : K × V) : FinMap K V := m.insert pair.1 pair.2

theorem get_foldl_insertPair {pairs : List (K × V)} {m : FinMap K V} {k : K} {v : V}
    (h : (pairs.foldl insertPair m).get k = some v) : (k, v) ∈ pairs ∨ m.get k = some v := by
  induction pairs generalizing m with
  | nil => exact Or.inr h
  | cons pair pairs ih =>
    rcases ih h with hmem | hold
    · exact Or.inl (List.mem_cons_of_mem _ hmem)
    · rw [insertPair, get_insert] at hold
      by_cases hk : k = pair.1
      · subst hk
        rw [Function.update_self] at hold
        obtain rfl := Option.some.inj hold
        exact Or.inl (List.mem_cons_self ..)
      · rw [Function.update_of_ne hk] at hold
        exact Or.inr hold

theorem get_foldl_insertPair_ne {pairs : List (K × V)} {m : FinMap K V} {k : K}
    (h : k ∈ pairs.map Prod.fst ∨ m.get k ≠ none) : (pairs.foldl insertPair m).get k ≠ none := by
  induction pairs generalizing m with
  | nil => exact h.resolve_left (by simp)
  | cons pair pairs ih =>
    apply ih
    by_cases hk : k = pair.1
    · subst hk
      right
      rw [insertPair, get_insert, Function.update_self]
      exact Option.some_ne_none _
    · rcases h with hmem | hold
      · exact Or.inl ((List.mem_cons.mp hmem).resolve_left hk)
      · right
        rwa [insertPair, get_insert, Function.update_of_ne hk]

end FinMap

end Effects
