import Mathlib.Data.List.Infix
import MeridianMcp.Source.IndexedSource

namespace Source

open MeridianMcp

def opening : Text := "/*".toList

def closing : Text := "*/".toList

-- What follows the first occurrence.
def behind (pattern : Text) : Text → Option Text
  | [] => if pattern = [] then some [] else none
  | c :: text =>
    if pattern.isPrefixOf (c :: text) then some ((c :: text).drop pattern.length)
    else behind pattern text

-- The loop over the comments of a line: what remains of it, and whether one is left open.
def skipComments : Nat → Text → Text × Bool
  | 0, remainder => (remainder, false)
  | rounds + 1, remainder =>
    match behind opening remainder with
    | none => (remainder, false)
    | some afterStart =>
      match behind closing afterStart with
      | none => (remainder, true)
      | some remainder => skipComments rounds remainder

def commentAfter (inBlockComment : Bool) (line : Text) : Bool :=
  let skipped := skipComments (line.length + 1) line
  let inBlockComment := inBlockComment || skipped.2
  if inBlockComment && decide (closing <:+: skipped.1) then false else inBlockComment

def isColumnZero (line : Text) : Bool := line.head?.any fun c => !isWhitespace c

def isComment (inBlockComment : Bool) (line : Text) : Bool :=
  let trimmed := line.dropWhile isWhitespace
  inBlockComment || "//".toList.isPrefixOf trimmed || "/*".toList.isPrefixOf trimmed ||
    "*".toList.isPrefixOf trimmed

-- Each line of the excerpt stands with the flag after it. A line number is a u32.
def declarationFrom (source : IndexedSource) :
    Nat → Nat → List (Text × Bool) → Bool → Option (List (Text × Bool))
  | 0, _, excerpt, _ => some excerpt
  | rounds + 1, index, excerpt, inBlockComment => do
    let line ← source.line ((index + 1) % 2 ^ 32)
    if excerpt ≠ [] ∧ isColumnZero line = true ∧ isComment inBlockComment line = false then
      some excerpt
    else
      let inBlockComment := commentAfter inBlockComment line
      declarationFrom source rounds (index + 1) (excerpt ++ [(line, inBlockComment)]) inBlockComment

def declarationLines (source : IndexedSource) (oneBasedLine maxLines : Nat) :
    Option (List (Text × Bool)) :=
  if oneBasedLine = 0 ∨ maxLines = 0 then none
  else do
    let startIndex := oneBasedLine - 1
    let _ ← source.lineStarts[startIndex]?
    declarationFrom source (min source.lineCount (startIndex + maxLines) - startIndex) startIndex []
      false

def joinLines : List Text → Text
  | [] => []
  | [line] => line
  | line :: next :: rest => line ++ '\n' :: joinLines (next :: rest)

def declaration (source : IndexedSource) (oneBasedLine maxLines : Nat) : Option Text :=
  (declarationLines source oneBasedLine maxLines).map fun excerpt => joinLines (excerpt.map Prod.fst)

-- The scan: a comment opens outside of one and closes inside of one.
def scan : Bool → Text → Bool
  | false, '/' :: '*' :: text => scan true text
  | true, '*' :: '/' :: text => scan false text
  | inside, _ :: text => scan inside text
  | inside, [] => inside

-- What is behind the last comment that a scan from outside closes.
def behindComments : Bool → Text → Text → Text
  | false, kept, '/' :: '*' :: text => behindComments true kept text
  | true, _, '*' :: '/' :: text => behindComments false text text
  | inside, kept, _ :: text => behindComments inside kept text
  | _, kept, [] => kept

example : declaration (IndexedSource.new "/proc/a()\n\treturn\n// b\n/proc/c()\n".toList) 1 200 =
    some "/proc/a()\n\treturn\n// b".toList := by
  decide +kernel

-- What ends the state that the scan is in.
def token : Bool → Text
  | false => opening
  | true => closing

section Scan

variable {text rest kept : Text} {c : Char} {inside : Bool}

theorem token_hit (h : (token inside).isPrefixOf (c :: text) = true) (kept : Text) :
    scan inside (c :: text) = scan (!inside) (text.drop 1) ∧
      behindComments inside kept (c :: text) =
        behindComments (!inside) (if inside then text.drop 1 else kept) (text.drop 1) := by
  obtain ⟨rest, hrest⟩ := List.isPrefixOf_iff_prefix.mp h
  cases inside with
  | false =>
    obtain ⟨rfl, rfl⟩ := List.cons.inj hrest
    exact ⟨rfl, rfl⟩
  | true =>
    obtain ⟨rfl, rfl⟩ := List.cons.inj hrest
    exact ⟨rfl, rfl⟩

theorem token_miss (h : (token inside).isPrefixOf (c :: text) = false) (kept : Text) :
    scan inside (c :: text) = scan inside text ∧
      behindComments inside kept (c :: text) = behindComments inside kept text := by
  have hopen : ∀ rest, inside = false → c = '/' → text = '*' :: rest → False := by
    rintro rest rfl rfl rfl
    exact Bool.false_ne_true h.symm
  have hclose : ∀ rest, inside = true → c = '*' → text = '/' :: rest → False := by
    rintro rest rfl rfl rfl
    exact Bool.false_ne_true h.symm
  exact ⟨scan.eq_3 inside c text hopen hclose, behindComments.eq_3 inside kept c text hopen hclose⟩

theorem length_token : (token inside).length = 2 := by cases inside <;> rfl

theorem token_ne_nil : token inside ≠ [] := by cases inside <;> decide

theorem behind_none (h : behind (token inside) text = none) (kept : Text) :
    scan inside text = inside ∧ behindComments inside kept text = kept := by
  induction text generalizing kept with
  | nil => cases inside <;> exact ⟨rfl, rfl⟩
  | cons c text ih =>
    rw [behind] at h
    split at h
    · cases h
    · rename_i hmiss
      obtain ⟨hscan, hbehind⟩ := token_miss (Bool.eq_false_iff.mpr hmiss) kept
      rw [hscan, hbehind]
      exact ih h kept

theorem behind_some (h : behind (token inside) text = some rest) (kept : Text) :
    (scan inside text = scan (!inside) rest ∧
      behindComments inside kept text =
        behindComments (!inside) (if inside then rest else kept) rest) ∧
      rest.length < text.length := by
  induction text generalizing kept with
  | nil =>
    rw [behind, if_neg token_ne_nil] at h
    cases h
  | cons c text ih =>
    rw [behind] at h
    split at h
    · rename_i hhit
      have hdrop : (c :: text).drop (token inside).length = text.drop 1 := by rw [length_token]; rfl
      rw [hdrop] at h
      obtain rfl := Option.some.inj h
      refine ⟨token_hit hhit kept, ?_⟩
      rw [List.length_drop, List.length_cons]
      omega
    · rename_i hmiss
      obtain ⟨hscan, hbehind⟩ := token_miss (Bool.eq_false_iff.mpr hmiss) kept
      rw [hscan, hbehind]
      exact ⟨(ih h kept).1, Nat.lt_succ_of_lt (ih h kept).2⟩

theorem skipComments_eq {rounds : Nat} (h : text.length < rounds) :
    skipComments rounds text = (behindComments false text text, scan false text) := by
  induction rounds generalizing text with
  | zero => exact absurd h (Nat.not_lt_zero _)
  | succ rounds ih =>
    rw [skipComments]
    cases hopen : behind opening text with
    | none =>
      obtain ⟨hscan, hbehind⟩ := @behind_none text false hopen text
      rw [hscan, hbehind]
    | some afterStart =>
      obtain ⟨⟨hscan, hbehind⟩, hlength⟩ := @behind_some text afterStart false hopen text
      rw [hscan, hbehind]
      dsimp only
      cases hclose : behind closing afterStart with
      | none =>
        obtain ⟨hscan, hbehind⟩ := @behind_none afterStart true hclose text
        exact congrArg₂ Prod.mk hbehind.symm hscan.symm
      | some remainder =>
        obtain ⟨⟨hscan, hbehind⟩, hlength'⟩ := @behind_some afterStart remainder true hclose text
        dsimp only
        rw [ih (by omega)]
        exact congrArg₂ Prod.mk hbehind.symm hscan.symm

end Scan

-- When the test of a line agrees with the scan, by the state that the scan is in before the line.
def Agrees : Bool → Text → Prop
  | false, line => ¬ (scan false line = true ∧ closing <:+: behindComments false line line)
  | true, line => closing <:+: behindComments false line line ↔ scan true line = false

theorem commentAfter_iff (inside : Bool) (line : Text) :
    commentAfter inside line = scan inside line ↔ Agrees inside line := by
  rw [commentAfter, skipComments_eq (Nat.lt_succ_self _)]
  by_cases hclosed : closing <:+: behindComments false line line
  · cases inside with
    | false => cases hscan : scan false line <;> simp [Agrees, hscan, hclosed]
    | true => cases hscan : scan true line <;> simp [Agrees, hscan, hclosed]
  · cases inside with
    | false => cases hscan : scan false line <;> simp [Agrees, hscan, hclosed]
    | true => cases hscan : scan true line <;> simp [Agrees, hscan, hclosed]

theorem scan_append (inside : Bool) (text rest : Text) :
    scan inside (text ++ '\n' :: rest) = scan (scan inside text) rest := by
  fun_induction scan inside text with
  | case1 text ih => exact ih
  | case2 text ih => exact ih
  | case3 inside c text hopen hclose ih =>
    have hopen' : ∀ more, inside = false → c = '/' → text ++ '\n' :: rest = '*' :: more → False := by
      rintro more hinside hc heq
      cases text with
      | nil => exact absurd (List.cons.inj heq).1 (by decide)
      | cons d text =>
        obtain ⟨rfl, -⟩ := List.cons.inj heq
        exact hopen text hinside hc rfl
    have hclose' : ∀ more, inside = true → c = '*' → text ++ '\n' :: rest = '/' :: more → False := by
      rintro more hinside hc heq
      cases text with
      | nil => exact absurd (List.cons.inj heq).1 (by decide)
      | cons d text =>
        obtain ⟨rfl, -⟩ := List.cons.inj heq
        exact hclose text hinside hc rfl
    rw [List.cons_append, scan.eq_3 inside c _ hopen' hclose', ih]
  | case4 inside => cases inside <;> rfl

theorem joinLines_concat {before : List Text} (h : before ≠ []) (line : Text) :
    joinLines (before ++ [line]) = joinLines before ++ '\n' :: line := by
  induction before with
  | nil => exact absurd rfl h
  | cons first before ih =>
    cases before with
    | nil => rfl
    | cons second before =>
      rw [List.cons_append, List.cons_append, joinLines, ← List.cons_append, ih (List.cons_ne_nil second before),
        joinLines, List.append_assoc]
      rfl

theorem scan_joinLines (before : List Text) (line : Text) :
    scan false (joinLines (before ++ [line])) = scan (scan false (joinLines before)) line := by
  cases before with
  | nil => rfl
  | cons first before => rw [joinLines_concat (List.cons_ne_nil first before), scan_append]

end Source
