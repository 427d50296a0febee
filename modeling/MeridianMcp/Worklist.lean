import Mathlib.Data.List.Basic
import Mathlib.Order.Lattice

namespace Worklist

variable {α σ : Type} [DecidableEq α] (limit : Nat) (cut : σ → σ) (visit : σ → α → σ × List α)

-- A stack of pending elements, each visited once. A visit may push more; the walk is cut off when
-- an element is pending after as many visits as the limit.
def walk (s : σ) (pending visited : List α) : σ :=
  match pending with
  | [] => s
  | a :: pending =>
    if limit ≤ visited.length then cut s
    else if a ∈ visited then walk s pending visited
    else walk (visit s a).1 ((visit s a).2 ++ pending) (a :: visited)
termination_by (limit - visited.length, pending.length)
decreasing_by
  · exact Prod.Lex.right _ (Nat.lt_succ_self _)
  · refine Prod.Lex.left _ _ ?_
    simp only [List.length_cons]
    omega

variable {limit cut visit}

theorem walk_nil (s : σ) (visited : List α) : walk limit cut visit s [] visited = s := by
  rw [walk]

theorem walk_cut {s : σ} {a : α} {pending visited : List α} (h : limit ≤ visited.length) :
    walk limit cut visit s (a :: pending) visited = cut s := by
  rw [walk, if_pos h]

theorem walk_skip {s : σ} {a : α} {pending visited : List α} (h : visited.length < limit)
    (ha : a ∈ visited) :
    walk limit cut visit s (a :: pending) visited = walk limit cut visit s pending visited := by
  rw [walk, if_neg (Nat.not_le.mpr h), if_pos ha]

theorem walk_visit {s : σ} {a : α} {pending visited : List α} (h : visited.length < limit)
    (ha : a ∉ visited) :
    walk limit cut visit s (a :: pending) visited =
      walk limit cut visit (visit s a).1 ((visit s a).2 ++ pending) (a :: visited) := by
  rw [walk, if_neg (Nat.not_le.mpr h), if_neg ha]

-- What holds at the start and is kept by each element taken from the stack holds when the stack is
-- empty, unless the walk is cut off.
theorem walk_invariant {P : σ → List α → List α → Prop}
    (hskip : ∀ s a pending visited, P s (a :: pending) visited → a ∈ visited → P s pending visited)
    (hvisit : ∀ s a pending visited, P s (a :: pending) visited → a ∉ visited →
      visited.length < limit → P (visit s a).1 ((visit s a).2 ++ pending) (a :: visited))
    {s : σ} {pending visited : List α} (h : P s pending visited) :
    (∃ visited', P (walk limit cut visit s pending visited) [] visited') ∨
      ∃ s' pending' visited', P s' pending' visited' ∧
        walk limit cut visit s pending visited = cut s' := by
  induction s, pending, visited using walk.induct limit visit with
  | case1 s visited => exact Or.inl ⟨visited, by rwa [walk_nil]⟩
  | case2 s visited a pending hlimit => exact Or.inr ⟨s, _, visited, h, walk_cut hlimit⟩
  | case3 s visited a pending hlimit hmem ih =>
    rw [walk_skip (Nat.lt_of_not_le hlimit) hmem]
    exact ih (hskip s a pending visited h hmem)
  | case4 s visited a pending hlimit hnew ih =>
    rw [walk_visit (Nat.lt_of_not_le hlimit) hnew]
    exact ih (hvisit s a pending visited h hnew (Nat.lt_of_not_le hlimit))

theorem walk_keeps {P : σ → Prop} (hcut : ∀ s, P s → P (cut s))
    (hvisit : ∀ s a, P s → P (visit s a).1) {s : σ} {pending visited : List α} (h : P s) :
    P (walk limit cut visit s pending visited) := by
  rcases walk_invariant (P := fun s _ _ => P s)
    (fun _ _ _ _ h _ => h) (fun s a _ _ h _ _ => hvisit s a h) h with ⟨-, hend⟩ | ⟨s', -, -, hs, heq⟩
  · exact hend
  · rw [heq]
    exact hcut s' hs

end Worklist
