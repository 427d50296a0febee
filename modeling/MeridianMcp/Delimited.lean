import Mathlib.Data.List.Basic

namespace Delimited

variable {α : Type} [DecidableEq α]

-- The pieces of a list cut after each delimiter; only the last may lack one.
def split (d : α) : List α → List (List α)
  | [] => []
  | a :: l =>
    if a = d then [a] :: split d l
    else match split d l with
      | [] => [[a]]
      | piece :: pieces => (a :: piece) :: pieces

theorem split_piece {d : α} {l : List α} (h : d ∉ l) (rest : List α) :
    split d (l ++ d :: rest) = (l ++ [d]) :: split d rest := by
  induction l with
  | nil => rw [List.nil_append, split, if_pos rfl, List.nil_append]
  | cons a l ih =>
    rw [List.mem_cons, not_or] at h
    rw [List.cons_append, split, if_neg (Ne.symm h.1), ih h.2]
    rfl

theorem split_last {d : α} {l : List α} (h : d ∉ l) (hne : l ≠ []) : split d l = [l] := by
  induction l with
  | nil => exact absurd rfl hne
  | cons a l ih =>
    rw [List.mem_cons, not_or] at h
    rw [split, if_neg (Ne.symm h.1)]
    cases l with
    | nil => rfl
    | cons b l => rw [ih h.2 (List.cons_ne_nil b l)]

@[elab_as_elim]
theorem pieces_induction (d : α) {P : List α → Prop} (nil : P [])
    (last : ∀ body, d ∉ body → body ≠ [] → P body)
    (piece : ∀ body rest, d ∉ body → P rest → P (body ++ d :: rest)) (l : List α) : P l := by
  obtain ⟨n, hn⟩ : ∃ n, l.length ≤ n := ⟨_, Nat.le_refl _⟩
  induction n generalizing l with
  | zero =>
    obtain rfl := List.length_eq_zero_iff.mp (Nat.le_zero.mp hn)
    exact nil
  | succ n ih =>
    by_cases hin : d ∈ l
    · obtain ⟨body, rest, rfl, hbody⟩ := List.eq_append_cons_of_mem hin
      rw [List.length_append, List.length_cons] at hn
      exact piece body rest hbody (ih rest (by omega))
    · by_cases hne : l = []
      · subst hne
        exact nil
      · exact last l hin hne

omit [DecidableEq α]

theorem unique_stop {d : α} {body body' rest rest' : List α} (h : d ∉ body) (h' : d ∉ body')
    (heq : body ++ d :: rest = body' ++ d :: rest') : body = body' ∧ rest = rest' := by
  induction body generalizing body' with
  | nil =>
    cases body' with
    | nil => exact ⟨rfl, (List.cons.inj heq).2⟩
    | cons a body' => exact absurd (List.mem_cons.mpr (Or.inl (List.cons.inj heq).1)) h'
  | cons a body ih =>
    cases body' with
    | nil => exact absurd (List.mem_cons.mpr (Or.inl (List.cons.inj heq).1.symm)) h
    | cons a' body' =>
      obtain ⟨rfl, htail⟩ := List.cons.inj heq
      obtain ⟨rfl, hrest⟩ := ih (fun hin => h (List.mem_cons_of_mem _ hin))
        (fun hin => h' (List.mem_cons_of_mem _ hin)) htail
      exact ⟨rfl, hrest⟩

theorem later_stop {d : α} {chunk more body rest : List α} (h : d ∉ chunk)
    (heq : chunk ++ more = body ++ d :: rest) :
    ∃ later, body = chunk ++ later ∧ more = later ++ d :: rest := by
  rcases List.append_eq_append_iff.mp heq with ⟨later, hbody, hmore⟩ | ⟨later, hchunk, hrest⟩
  · exact ⟨later, hbody, hmore⟩
  · cases later with
    | nil =>
      rw [List.append_nil] at hchunk
      exact ⟨[], by rw [hchunk, List.append_nil], hrest.symm⟩
    | cons a later =>
      obtain ⟨rfl, -⟩ := List.cons.inj hrest
      exact absurd (by rw [hchunk]; simp) h

end Delimited
