import Mathlib.Data.List.Basic

namespace Paging

variable {C α I : Type}

structure Page (C α I : Type) where
  items : List α
  next : Option C
  info : I

-- The pages of a client that asks with the cursor of the last page until there is none; `limits k`
-- is the limit of its `k`-th request.
inductive Followed (serve : C → Nat → Page C α I) (limits : Nat → Nat) : Nat → C → List (Page C α I) → Prop
  | last {k cursor} : (serve cursor (limits k)).next = none →
      Followed serve limits k cursor [serve cursor (limits k)]
  | more {k cursor c pages} : (serve cursor (limits k)).next = some c →
      Followed serve limits (k + 1) c pages →
      Followed serve limits k cursor (serve cursor (limits k) :: pages)

-- A cursor stands for an offset into the list; a page is the piece of it there, and its cursor
-- stands for the end of the piece.
structure Serves (serve : C → Nat → Page C α I) (offset : C → Option Nat) (l : List α) (info : I) :
    Prop where
  info : ∀ cursor limit, (serve cursor limit).info = info
  items : ∀ {cursor n limit}, offset cursor = some n → (serve cursor limit).items = (l.drop n).take limit
  last : ∀ {cursor n limit}, offset cursor = some n → l.length ≤ n + limit → (serve cursor limit).next = none
  more : ∀ {cursor n limit}, offset cursor = some n → n + limit < l.length →
    ∃ c, (serve cursor limit).next = some c ∧ offset c = some (n + limit)

variable {serve : C → Nat → Page C α I} {offset : C → Option Nat} {l : List α} {info : I}
  {limits : Nat → Nat} {k n : Nat} {cursor : C} {pages : List (Page C α I)}

theorem Followed.unique {pages' : List (Page C α I)} (h : Followed serve limits k cursor pages)
    (h' : Followed serve limits k cursor pages') : pages = pages' := by
  induction h generalizing pages' with
  | last hnone =>
    cases h' with
    | last _ => rfl
    | more hsome _ =>
      rw [hnone] at hsome
      cases hsome
  | more hsome _ ih =>
    cases h' with
    | last hnone =>
      rw [hnone] at hsome
      cases hsome
    | more hsome' hrest =>
      rw [hsome] at hsome'
      cases hsome'
      rw [ih hrest]

theorem Followed.mem {page : Page C α I} (h : Followed serve limits k cursor pages) (hpage : page ∈ pages) :
    ∃ c k, page = serve c (limits k) := by
  induction h with
  | last _ =>
    rw [List.mem_singleton] at hpage
    exact ⟨_, _, hpage⟩
  | more _ _ ih =>
    rcases List.mem_cons.mp hpage with rfl | hpage
    · exact ⟨_, _, rfl⟩
    · exact ih hpage

theorem Serves.beyond (h : Serves serve offset l info) (hcursor : offset cursor = some n)
    (hn : l.length ≤ n) (limit : Nat) :
    (serve cursor limit).items = [] ∧ (serve cursor limit).next = none := by
  refine ⟨?_, h.last hcursor (Nat.le_trans hn (Nat.le_add_right ..))⟩
  rw [h.items hcursor, List.drop_eq_nil_of_le hn, List.take_nil]

theorem Serves.followed (h : Serves serve offset l info) (hlimits : ∀ k, 1 ≤ limits k)
    (hcursor : offset cursor = some n) :
    ∃ pages, Followed serve limits k cursor pages ∧ pages.flatMap Page.items = l.drop n := by
  induction hleft : l.length - n using Nat.strongRecOn generalizing k n cursor with
  | ind left ih =>
    have hlimit := hlimits k
    by_cases hend : l.length ≤ n + limits k
    · refine ⟨[serve cursor (limits k)], .last (h.last hcursor hend), ?_⟩
      rw [List.flatMap_cons, List.flatMap_nil, List.append_nil, h.items hcursor,
        List.take_of_length_le]
      rw [List.length_drop]
      omega
    · obtain ⟨c, hnext, hc⟩ := h.more hcursor (Nat.lt_of_not_le hend)
      obtain ⟨pages, hpages, hitems⟩ := @ih (l.length - (n + limits k)) (by omega) (k + 1)
        (n + limits k) c hc rfl
      refine ⟨serve cursor (limits k) :: pages, .more hnext hpages, ?_⟩
      rw [List.flatMap_cons, hitems, h.items hcursor, ← List.drop_drop, List.take_append_drop]

-- Following the cursors from any start ends, with all of the list from there on.
theorem Serves.complete (h : Serves serve offset l info) (hlimits : ∀ k, 1 ≤ limits k)
    (hcursor : offset cursor = some n) :
    ∃ pages, Followed serve limits k cursor pages ∧
      (∀ pages', Followed serve limits k cursor pages' → pages' = pages) ∧
      pages.flatMap Page.items = l.drop n ∧ ∀ page ∈ pages, page.info = info := by
  obtain ⟨pages, hpages, hitems⟩ := @Serves.followed _ _ _ _ _ _ _ _ k _ _ h hlimits hcursor
  refine ⟨pages, hpages, fun pages' h' => h'.unique hpages, hitems, fun page hpage => ?_⟩
  obtain ⟨c, j, rfl⟩ := hpages.mem hpage
  exact h.info _ _

end Paging
