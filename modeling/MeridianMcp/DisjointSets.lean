import Mathlib.Data.List.Basic
import Mathlib.Logic.Relation
import Mathlib.Order.Lattice

namespace DisjointSets

-- Follows the parents to the place that is its own parent. Every place on the way gets the parent
-- of its parent, and the search goes on from there.
def find : Nat → List Nat → Nat → Option (List Nat × Nat)
  | 0, _, _ => none
  | fuel + 1, parents, index => do
    let parent ← parents[index]?
    if parent = index then some (parents, index)
    else
      let grand ← parents[parent]?
      find fuel (parents.set index grand) grand

def union (parents : List Nat) (pair : Nat × Nat) : Option (List Nat) := do
  let (parents, left) ← find parents.length parents pair.1
  let (parents, right) ← find parents.length parents pair.2
  if left = right then some parents
  else if left < right then some (parents.set right left)
  else some (parents.set left right)

def roots : List Nat → List Nat → Option (List Nat)
  | _, [] => some []
  | parents, index :: l => do
    let (parents, root) ← find parents.length parents index
    let rest ← roots parents l
    some (root :: rest)

-- The parents lead down to the representatives: no link goes up or leaves a class, and only the
-- representative of a class links to itself.
structure Represents (parents : List Nat) (rep : Nat → Nat) : Prop where
  le : ∀ {i parent : Nat}, parents[i]? = some parent → parent ≤ i
  along : ∀ {i parent : Nat}, parents[i]? = some parent → rep parent = rep i
  root : ∀ {i : Nat}, parents[i]? = some i → rep i = i

variable {parents : List Nat} {rep : Nat → Nat}

theorem getElem?_set_eq_some {l : List Nat} {place value i v : Nat}
    (h : (l.set place value)[i]? = some v) :
    (i = place ∧ v = value) ∨ (i ≠ place ∧ l[i]? = some v) := by
  rw [List.getElem?_set] at h
  split at h
  · rename_i heq
    split at h
    · exact Or.inl ⟨heq.symm, (Option.some.inj h).symm⟩
    · cases h
  · rename_i hne
    exact Or.inr ⟨Ne.symm hne, h⟩

theorem represents_range (n : Nat) : Represents (List.range n) id where
  le h := by
    obtain ⟨hi, rfl⟩ := List.getElem?_eq_some_iff.mp h
    rw [List.getElem_range]
  along h := by
    obtain ⟨hi, rfl⟩ := List.getElem?_eq_some_iff.mp h
    rw [List.getElem_range]
  root _ := rfl

namespace Represents

theorem halve (h : Represents parents rep) {i parent grand : Nat} (hi : parents[i]? = some parent)
    (hparent : parents[parent]? = some grand) (hne : parent ≠ i) :
    Represents (parents.set i grand) rep where
  le hget := by
    rcases getElem?_set_eq_some hget with ⟨rfl, rfl⟩ | ⟨-, hold⟩
    · exact (h.le hparent).trans (h.le hi)
    · exact h.le hold
  along hget := by
    rcases getElem?_set_eq_some hget with ⟨rfl, rfl⟩ | ⟨-, hold⟩
    · rw [h.along hparent, h.along hi]
    · exact h.along hold
  root hget := by
    rcases getElem?_set_eq_some hget with ⟨rfl, rfl⟩ | ⟨-, hold⟩
    · have := h.le hparent
      have := h.le hi
      omega
    · exact h.root hold

theorem find_eq (h : Represents parents rep) {fuel i : Nat} (hi : i < parents.length)
    (hfuel : i < fuel) : ∃ next, find fuel parents i = some (next, rep i) ∧
      next.length = parents.length ∧ Represents next rep := by
  induction fuel generalizing parents i with
  | zero => omega
  | succ fuel ih =>
    obtain ⟨parent, hparent⟩ : ∃ parent, parents[i]? = some parent :=
      ⟨_, List.getElem?_eq_getElem hi⟩
    by_cases hroot : parent = i
    · subst hroot
      refine ⟨parents, ?_, rfl, h⟩
      simp [find, hparent, h.root hparent]
    · have hle := h.le hparent
      obtain ⟨grand, hgrand⟩ : ∃ grand, parents[parent]? = some grand :=
        ⟨_, List.getElem?_eq_getElem (by omega)⟩
      have hle' := h.le hgrand
      obtain ⟨next, hnext, hlen, hrep⟩ := ih (h.halve hparent hgrand hroot) (i := grand)
        (by rw [List.length_set]; omega) (by omega)
      refine ⟨next, ?_, by rw [hlen, List.length_set], hrep⟩
      simp [find, hparent, hgrand, hroot, hnext, h.along hgrand, h.along hparent]

theorem rep_root (h : Represents parents rep) {i : Nat} (hi : i < parents.length) :
    rep i ≤ i ∧ parents[rep i]? = some (rep i) := by
  induction i using Nat.strong_induction_on with
  | _ i ih =>
    obtain ⟨parent, hparent⟩ : ∃ parent, parents[i]? = some parent :=
      ⟨_, List.getElem?_eq_getElem hi⟩
    have hle := h.le hparent
    by_cases hroot : parent = i
    · subst hroot
      rw [h.root hparent]
      exact ⟨le_refl _, hparent⟩
    · obtain ⟨hrep, hself⟩ := ih parent (by omega) (by omega)
      rw [h.along hparent] at hrep hself
      exact ⟨by omega, hself⟩

theorem rep_rep (h : Represents parents rep) {i : Nat} (hi : i < parents.length) :
    rep (rep i) = rep i := h.root (h.rep_root hi).2

end Represents

def merged (rep : Nat → Nat) (a b i : Nat) : Nat :=
  if rep i = max (rep a) (rep b) then min (rep a) (rep b) else rep i

theorem Represents.link (h : Represents parents rep) {a b : Nat}
    (hmin : rep (min (rep a) (rep b)) = min (rep a) (rep b))
    (hmax : rep (max (rep a) (rep b)) = max (rep a) (rep b)) (hne : rep a ≠ rep b) :
    Represents (parents.set (max (rep a) (rep b)) (min (rep a) (rep b))) (merged rep a b) where
  le hget := by
    rcases getElem?_set_eq_some hget with ⟨rfl, rfl⟩ | ⟨-, hold⟩
    · exact (min_le_left _ _).trans (le_max_left _ _)
    · exact h.le hold
  along hget := by
    rcases getElem?_set_eq_some hget with ⟨rfl, rfl⟩ | ⟨-, hold⟩
    · simp [merged, hmin, hmax]
    · simp [merged, h.along hold]
  root hget := by
    rcases getElem?_set_eq_some hget with ⟨rfl, heq⟩ | ⟨hother, hold⟩
    · omega
    · rw [merged, h.root hold, if_neg hother]

theorem Represents.union_eq (h : Represents parents rep) {a b : Nat} (ha : a < parents.length)
    (hb : b < parents.length) : ∃ next, union parents (a, b) = some next ∧
      next.length = parents.length ∧ Represents next (merged rep a b) := by
  obtain ⟨first, hfirst, hlen, hrep⟩ := h.find_eq ha ha
  obtain ⟨second, hsecond, hlen', hrep'⟩ := hrep.find_eq (hlen ▸ hb) (hlen ▸ hb)
  have hra := h.rep_rep ha
  have hrb := h.rep_rep hb
  by_cases heq : rep a = rep b
  · refine ⟨second, ?_, hlen'.trans hlen, ?_⟩
    · simp [union, hfirst, hsecond, heq]
    · have hsame : merged rep a b = rep := by
        funext i
        simp +contextual [merged, heq]
      rwa [hsame]
  · refine ⟨second.set (max (rep a) (rep b)) (min (rep a) (rep b)), ?_, ?_, ?_⟩
    · rcases Nat.lt_or_ge (rep a) (rep b) with hlt | hge
      · simp [union, hfirst, hsecond, heq, hlt, hlt.le]
      · simp [union, hfirst, hsecond, heq, hge, Nat.not_lt.mpr hge]
    · rw [List.length_set, hlen', hlen]
    · refine hrep'.link ?_ ?_ heq
      · rcases le_total (rep a) (rep b) with hle | hle <;> simp [hle, hra, hrb]
      · rcases le_total (rep a) (rep b) with hle | hle <;> simp [hle, hra, hrb]

theorem Represents.roots_eq (h : Represents parents rep) {l : List Nat}
    (hl : ∀ i ∈ l, i < parents.length) : roots parents l = some (l.map rep) := by
  induction l generalizing parents with
  | nil => rfl
  | cons i l ih =>
    have hi := hl i (List.mem_cons_self ..)
    obtain ⟨next, hnext, hlen, hrep⟩ := h.find_eq hi hi
    have hrest := ih hrep fun j hj => hlen ▸ hl j (List.mem_cons_of_mem _ hj)
    simp [roots, hnext, hrest]

-- The classes are those of the smallest equivalence around the joined pairs.
def Classes (joined : Nat → Nat → Prop) (rep : Nat → Nat) : Prop :=
  ∀ i j, rep i = rep j ↔ Relation.EqvGen joined i j

theorem classes_id : Classes (fun _ _ => False) id := by
  intro i j
  constructor
  · rintro rfl
    exact .refl _
  · intro h
    induction h with
    | rel _ _ h => exact h.elim
    | refl => rfl
    | symm _ _ _ ih => exact ih.symm
    | trans _ _ _ _ _ ih ih' => exact ih.trans ih'

theorem Classes.merged {joined : Nat → Nat → Prop} (h : Classes joined rep) (a b : Nat) :
    Classes (fun i j => joined i j ∨ (i, j) = (a, b)) (merged rep a b) := by
  have hkeep : ∀ {i j}, rep i = rep j →
      Relation.EqvGen (fun i j => joined i j ∨ (i, j) = (a, b)) i j := fun heq =>
    ((h _ _).mp heq).mono fun _ _ => Or.inl
  have hnew : Relation.EqvGen (fun i j => joined i j ∨ (i, j) = (a, b)) a b :=
    .rel _ _ (Or.inr rfl)
  -- A representative that moves is that of a or of b, and it moves to that of the other.
  have hmove : ∀ i, ∃ k, Relation.EqvGen (fun i j => joined i j ∨ (i, j) = (a, b)) i k ∧
      rep k = DisjointSets.merged rep a b i := by
    intro i
    unfold DisjointSets.merged
    split
    · rename_i hmax
      rcases le_total (rep a) (rep b) with hle | hle
      · rw [max_eq_right hle] at hmax
        exact ⟨a, (hkeep hmax).trans _ _ _ hnew.symm, (min_eq_left hle).symm⟩
      · rw [max_eq_left hle] at hmax
        exact ⟨b, (hkeep hmax).trans _ _ _ hnew, (min_eq_right hle).symm⟩
    · exact ⟨i, .refl _, rfl⟩
  intro i j
  constructor
  · intro heq
    obtain ⟨k, hik, hk⟩ := hmove i
    obtain ⟨m, hjm, hm⟩ := hmove j
    exact (hik.trans _ _ _ (hkeep (hk.trans (heq.trans hm.symm)))).trans _ _ _ hjm.symm
  · intro hgen
    induction hgen with
    | rel i j hij =>
      rcases hij with hold | hpair
      · simp only [DisjointSets.merged, (h i j).mpr (.rel _ _ hold)]
      · obtain ⟨rfl, rfl⟩ := Prod.mk.inj hpair
        unfold DisjointSets.merged
        rcases le_total (rep i) (rep j) with hle | hle
        · rw [max_eq_right hle, min_eq_left hle, if_pos rfl, ite_eq_right_iff]
          exact fun heq => rfl
        · rw [max_eq_left hle, min_eq_right hle, if_pos rfl]
          split <;> rfl
    | refl => rfl
    | symm _ _ _ ih => exact ih.symm
    | trans _ _ _ _ _ ih ih' => exact ih.trans ih'

theorem Represents.unions {joined : Nat → Nat → Prop} (h : Represents parents rep)
    (hclasses : Classes joined rep) {pairs : List (Nat × Nat)}
    (hpairs : ∀ pair ∈ pairs, pair.1 < parents.length ∧ pair.2 < parents.length) :
    ∃ next rep', pairs.foldlM union parents = some next ∧ next.length = parents.length ∧
      Represents next rep' ∧ Classes (fun i j => joined i j ∨ (i, j) ∈ pairs) rep' := by
  induction pairs generalizing parents rep joined with
  | nil => exact ⟨parents, rep, rfl, rfl, h, by simpa using hclasses⟩
  | cons pair pairs ih =>
    obtain ⟨ha, hb⟩ := hpairs pair (List.mem_cons_self ..)
    obtain ⟨first, hfirst, hlen, hrep⟩ := h.union_eq ha hb
    obtain ⟨next, rep', hnext, hlen', hrep', hclasses'⟩ := ih hrep (hclasses.merged pair.1 pair.2)
      fun other hother => hlen ▸ hpairs other (List.mem_cons_of_mem _ hother)
    refine ⟨next, rep', ?_, hlen'.trans hlen, hrep', ?_⟩
    · rw [List.foldlM_cons, hfirst]
      exact hnext
    · simpa only [List.mem_cons, or_assoc] using hclasses'

-- The representative is the least of its class, so the classes determine it.
theorem Represents.rep_eq {joined : Nat → Nat → Prop} {others : List Nat} {rep' : Nat → Nat}
    (h : Represents parents rep) (h' : Represents others rep')
    (hlen : others.length = parents.length) (hclasses : Classes joined rep)
    (hclasses' : Classes joined rep') {i : Nat} (hi : i < parents.length) : rep i = rep' i := by
  have hle := (h.rep_root hi).1
  have hle' := (h'.rep_root (hlen ▸ hi)).1
  have hself : rep (rep' i) = rep i := (hclasses _ _).mpr ((hclasses' _ _).mp (h'.rep_rep (hlen ▸ hi)))
  have hself' : rep' (rep i) = rep' i := (hclasses' _ _).mpr ((hclasses _ _).mp (h.rep_rep hi))
  refine le_antisymm ?_ ?_
  · rw [← hself]
    exact (h.rep_root (by omega)).1
  · rw [← hself']
    exact (h'.rep_root (by omega)).1

end DisjointSets
