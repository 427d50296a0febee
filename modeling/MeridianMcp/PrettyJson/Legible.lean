import MeridianMcp.PrettyJson

namespace PrettyJson

open MeridianMcp

def Ends (rest : Text) : Prop := ∀ c ∈ rest.head?, c.isDigit = false

-- Whatever follows it, a laid out value is told apart from every other.
def Legible {α : Type} (value : α → Pretty) : Prop :=
  ∀ depth a b s t, Ends s → Ends t → value a depth ++ s = value b depth ++ t → a = b ∧ s = t

def Apart (x y : Text) : Prop := ∀ s t, Ends s → Ends t → x ++ s = y ++ t → x = y ∧ s = t

def Closes {α : Type} (value : α → Pretty) : Prop :=
  ∀ depth a b, Apart (value a depth) (value b depth)

theorem ends_nil : Ends [] := fun _ h => by cases h

theorem ends_cons {c : Char} {rest : Text} (h : c.isDigit = false) : Ends (c :: rest) := by
  intro d hd
  rw [List.head?_cons, Option.mem_some_iff] at hd
  rw [← hd, h]

section strings

def hexValue (c : Char) : Nat := if c.toNat < 58 then c.toNat - 48 else c.toNat - 87

def unescape : Text → Option (Char × Text)
  | [] => none
  | [c] => some (c, [])
  | c :: d :: rest =>
    if c ≠ '\\' then some (c, d :: rest)
    else if d = 'n' then some ('\n', rest)
    else if d = 'r' then some ('\r', rest)
    else if d = 't' then some ('\t', rest)
    else if d = 'b' then some (Char.ofNat 8, rest)
    else if d = 'f' then some (Char.ofNat 12, rest)
    else if d = 'u' then
      match rest with
      | _ :: _ :: high :: low :: rest => some (Char.ofNat (16 * hexValue high + hexValue low), rest)
      | _ => none
    else some (d, rest)

theorem hexValue_hexDigit : ∀ n < 16, hexValue (hexDigit n) = n := by decide

theorem unescape_plain {c : Char} (h : c ≠ '\\') (rest : Text) :
    unescape (c :: rest) = some (c, rest) := by
  cases rest with
  | nil => rfl
  | cons d rest => exact if_pos h

theorem unescape_escape (c : Char) (rest : Text) : unescape (escape c ++ rest) = some (c, rest) := by
  unfold escape
  split_ifs with hself hn hr ht hb hf hcontrol
  · rcases hself with rfl | rfl <;> rfl
  · rw [hn]
    rfl
  · rw [hr]
    rfl
  · rw [ht]
    rfl
  · rw [hb]
    rfl
  · rw [hf]
    rfl
  · have hhigh := hexValue_hexDigit (c.toNat / 16) (by omega)
    have hlow := hexValue_hexDigit (c.toNat % 16) (Nat.mod_lt _ (by decide))
    change some (Char.ofNat (16 * hexValue _ + hexValue _), rest) = _
    rw [hhigh, hlow, Nat.div_add_mod, Char.ofNat_toNat]
  · exact unescape_plain (fun h => hself (Or.inr h)) rest

theorem escape_head (c : Char) : ∃ d rest, escape c = d :: rest ∧ d ≠ quotationMark := by
  have hslash : '\\' ≠ quotationMark := by decide
  unfold escape
  split_ifs with hself
  all_goals first
    | exact ⟨_, _, rfl, hslash⟩
    | exact ⟨_, _, rfl, fun h => hself (Or.inl h)⟩

theorem escaped_told {text text' s t : Text}
    (h : text.flatMap escape ++ quotationMark :: s = text'.flatMap escape ++ quotationMark :: t) :
    text = text' ∧ s = t := by
  induction text generalizing text' with
  | nil =>
    cases text' with
    | nil => exact ⟨rfl, (List.cons.inj h).2⟩
    | cons c text' =>
      obtain ⟨d, rest, hd, hne⟩ := escape_head c
      rw [List.flatMap_cons, hd] at h
      exact absurd (List.cons.inj h).1.symm hne
  | cons c text ih =>
    cases text' with
    | nil =>
      obtain ⟨d, rest, hd, hne⟩ := escape_head c
      rw [List.flatMap_cons, hd] at h
      exact absurd (List.cons.inj h).1 hne
    | cons c' text' =>
      rw [List.flatMap_cons, List.flatMap_cons, List.append_assoc, List.append_assoc] at h
      have hread := congrArg unescape h
      rw [unescape_escape, unescape_escape, Option.some.injEq, Prod.mk.injEq] at hread
      obtain ⟨rfl, hrest⟩ := hread
      obtain ⟨rfl, hend⟩ := ih hrest
      exact ⟨rfl, hend⟩

theorem quote_told {text text' s t : Text} (h : quote text ++ s = quote text' ++ t) :
    text = text' ∧ s = t := by
  simp only [quote, List.cons_append, List.append_assoc, List.nil_append, List.cons.injEq, true_and] at h
  exact escaped_told h

theorem legible_string : Legible string := fun _ _ _ _ _ _ _ h => quote_told h

end strings

section numbers

theorem digits_told {ds ds' s t : Text} (hds : ∀ c ∈ ds, c.isDigit = true)
    (hds' : ∀ c ∈ ds', c.isDigit = true) (hs : Ends s) (ht : Ends t) (h : ds ++ s = ds' ++ t) :
    ds = ds' ∧ s = t := by
  have hstop : ∀ {x y : Text}, (∀ c ∈ x, c.isDigit = true) → Ends y →
      (x ++ y).takeWhile Char.isDigit = x := by
    intro x y hx hy
    rw [List.takeWhile_append_of_pos hx]
    cases y with
    | nil => rw [List.takeWhile_nil, List.append_nil]
    | cons c y =>
      rw [List.takeWhile_cons_of_neg (by rw [hy c (by simp)]; decide), List.append_nil]
  have hsame : ds = ds' := by rw [← hstop hds hs, h, hstop hds' ht]
  subst hsame
  exact ⟨rfl, List.append_cancel_left h⟩

theorem legible_number : Legible number := by
  intro _ m n s t hs ht h
  have hdigit : ∀ n, ∀ c ∈ Nat.toDigits 10 n, c.isDigit = true := fun n c hc =>
    Nat.isDigit_of_mem_toDigits (by decide) le_rfl hc
  obtain ⟨hdigits, hrest⟩ := digits_told (hdigit m) (hdigit n) hs ht h
  refine ⟨?_, hrest⟩
  rw [← @Nat.ofDigitChars_ten_toDigits m, hdigits, Nat.ofDigitChars_ten_toDigits]

end numbers

variable {α β : Type} {value : α → Pretty} {depth : Nat}

theorem Legible.injective (h : Legible value) (depth : Nat) :
    Function.Injective fun a => value a depth := fun a b hab => by
  have happend : value a depth ++ [] = value b depth ++ [] := congrArg (· ++ []) hab
  exact (h depth a b [] [] ends_nil ends_nil happend).1

theorem Legible.closes (h : Legible value) (part : β → α) (name : Text) :
    Closes fun b => field name (value (part b)) := by
  intro depth a b s t hs ht heq
  simp only [field, List.append_assoc, List.append_cancel_left_eq] at heq
  obtain ⟨hpart, hrest⟩ := h depth _ _ s t hs ht heq
  exact ⟨congrArg (fun p => field name (value p) depth) hpart, hrest⟩

theorem Legible.field_eq (h : Legible value) {name : Text} {a b : α}
    (heq : field name (value a) depth = field name (value b) depth) : a = b :=
  h.injective depth (List.append_cancel_left heq)

section brackets

theorem lines_told {xs ys : List Pretty} {s t : Text}
    (h : ∀ pair ∈ xs.zip ys, Apart (pair.1 (depth + 1)) (pair.2 (depth + 1)))
    (heq : (xs.flatMap fun item => ',' :: line depth item) ++ '\n' :: s =
      (ys.flatMap fun item => ',' :: line depth item) ++ '\n' :: t) :
    xs.map (· (depth + 1)) = ys.map (· (depth + 1)) ∧ s = t := by
  have hends : ∀ (zs : List Pretty) (r : Text),
      Ends ((zs.flatMap fun item => ',' :: line depth item) ++ '\n' :: r) := by
    intro zs r
    cases zs with
    | nil => exact ends_cons (by decide)
    | cons z zs => exact ends_cons (by decide)
  induction xs generalizing ys with
  | nil =>
    cases ys with
    | nil => exact ⟨rfl, (List.cons.inj heq).2⟩
    | cons y ys => exact absurd (List.cons.inj heq).1 (by decide)
  | cons x xs ih =>
    cases ys with
    | nil => exact absurd (List.cons.inj heq).1 (by decide)
    | cons y ys =>
      rw [List.zip_cons_cons, List.forall_mem_cons] at h
      simp only [List.flatMap_cons, line, List.cons_append, List.append_assoc, List.cons.injEq,
        List.append_cancel_left_eq, true_and] at heq
      obtain ⟨hitem, hrest⟩ := h.1 _ _ (hends xs s) (hends ys t) heq
      obtain ⟨hitems, hend⟩ := ih h.2 hrest
      exact ⟨congrArg₂ List.cons hitem hitems, hend⟩

theorem bracketed_told {left right : Char} (hright : right ≠ '\n') {xs ys : List Pretty} {s t : Text}
    (h : ∀ pair ∈ xs.zip ys, Apart (pair.1 (depth + 1)) (pair.2 (depth + 1)))
    (heq : bracketed left right xs depth ++ s = bracketed left right ys depth ++ t) :
    xs.map (· (depth + 1)) = ys.map (· (depth + 1)) ∧ s = t := by
  cases xs with
  | nil =>
    cases ys with
    | nil =>
      simp only [bracketed, List.cons_append, List.cons.injEq, true_and] at heq
      exact ⟨rfl, heq⟩
    | cons y ys =>
      simp only [bracketed, line, List.cons_append, List.cons.injEq, true_and] at heq
      exact absurd heq.1 hright
  | cons x xs =>
    cases ys with
    | nil =>
      simp only [bracketed, line, List.cons_append, List.cons.injEq, true_and] at heq
      exact absurd heq.1.symm hright
    | cons y ys =>
      simp only [bracketed, List.cons_append, List.append_assoc, List.cons.injEq, true_and] at heq
      have hlines := @lines_told depth (x :: xs) (y :: ys) (indent depth ++ ([right] ++ s))
        (indent depth ++ ([right] ++ t)) h (by
          simpa only [List.flatMap_cons, List.cons_append, List.append_assoc, List.nil_append] using
            congrArg (',' :: ·) heq)
      exact ⟨hlines.1, by simpa using hlines.2⟩

theorem legible_array (h : Legible value) : Legible fun items : List α => array (items.map value) := by
  intro depth xs ys s t _ _ heq
  obtain ⟨hmap, hrest⟩ := bracketed_told (by decide) (fun pair hpair s t hs ht hitem => by
    rw [List.zip_map, List.mem_map] at hpair
    obtain ⟨⟨x, y⟩, -, rfl⟩ := hpair
    obtain ⟨hxy, hst⟩ := h (depth + 1) x y s t hs ht hitem
    exact ⟨congrArg (value · (depth + 1)) hxy, hst⟩) heq
  rw [List.map_map, List.map_map] at hmap
  exact ⟨List.map_injective_iff.mpr (h.injective (depth + 1)) hmap, hrest⟩

theorem legible_object {fields : List (α → Pretty)} (hcloses : ∀ f ∈ fields, Closes f)
    (hfields : ∀ depth a b, (∀ f ∈ fields, f a depth = f b depth) → a = b) :
    Legible fun a => object (fields.map (· a)) := by
  intro depth a b s t _ _ heq
  obtain ⟨hmap, hrest⟩ := bracketed_told (by decide) (fun pair hpair s t hs ht hitem => by
    rw [List.zip_map', List.mem_map] at hpair
    obtain ⟨f, hf, rfl⟩ := hpair
    exact hcloses f hf (depth + 1) a b s t hs ht hitem) heq
  rw [List.map_map, List.map_map, List.map_inj_left] at hmap
  exact ⟨hfields (depth + 1) a b hmap, hrest⟩

end brackets

-- The layout without line breaks, for values that do not break lines themselves.
def member (name : Text) (value : Pretty) : Text := quote name ++ ':' :: value 0

def compact (members : List Text) : Text :=
  Char.ofNat 123 :: ([','].intercalate members ++ [Char.ofNat 125])

theorem legible_boolean : Legible boolean := by
  intro _ a b s t _ _ h
  cases a <;> cases b
  case false.false | true.true => exact ⟨rfl, List.append_cancel_left h⟩
  all_goals exact absurd (List.cons.inj h).1 (by decide)

theorem legible_optional {α : Type} {value : α → Pretty} (h : Legible value)
    (hhead : ∀ a depth, ∃ c rest, value a depth = c :: rest ∧ c ≠ 'n') :
    Legible (optional value) := by
  intro depth a b s t hs ht heq
  cases a with
  | none =>
    cases b with
    | none => exact ⟨rfl, List.append_cancel_left heq⟩
    | some b =>
      obtain ⟨c, rest, hvalue, hne⟩ := hhead b depth
      change "null".toList ++ s = value b depth ++ t at heq
      rw [hvalue] at heq
      exact absurd (List.cons.inj heq).1.symm hne
  | some a =>
    cases b with
    | none =>
      obtain ⟨c, rest, hvalue, hne⟩ := hhead a depth
      change value a depth ++ s = "null".toList ++ t at heq
      rw [hvalue] at heq
      exact absurd (List.cons.inj heq).1 hne
    | some b =>
      obtain ⟨rfl, hrest⟩ := h depth a b s t hs ht heq
      exact ⟨rfl, hrest⟩

theorem string_head (text : Text) (depth : Nat) :
    ∃ c rest, string text depth = c :: rest ∧ c ≠ 'n' := ⟨_, _, rfl, by decide⟩

theorem number_head (n depth : Nat) : ∃ c rest, number n depth = c :: rest ∧ c ≠ 'n' := by
  cases hdigits : number n depth with
  | nil => exact absurd hdigits (Nat.toDigits_ne_nil)
  | cons c rest =>
    refine ⟨c, rest, rfl, fun hc => ?_⟩
    have hdigit : c.isDigit = true :=
      Nat.isDigit_of_mem_toDigits (by decide) le_rfl (hdigits ▸ List.mem_cons_self ..)
    rw [hc] at hdigit
    cases hdigit

section Members

variable {α β : Type} {value : α → Pretty}

theorem Legible.member_apart (h : Legible value) (name : Text) (a b : α) :
    Apart (member name (value a)) (member name (value b)) := by
  intro s t hs ht heq
  simp only [member, List.append_assoc, List.append_cancel_left_eq, List.cons_append,
    List.cons.injEq, true_and] at heq
  obtain ⟨rfl, hrest⟩ := h 0 a b s t hs ht heq
  exact ⟨rfl, hrest⟩

theorem Legible.member_eq (h : Legible value) {name : Text} {a b : α}
    (heq : member name (value a) = member name (value b)) : a = b := by
  simp only [member, List.append_cancel_left_eq, List.cons.injEq, true_and] at heq
  exact h.injective 0 heq

theorem members_told {fields : List (β → Text)} {a b : β} {s t : Text}
    (happart : ∀ f ∈ fields, Apart (f a) (f b))
    (h : [','].intercalate (fields.map (· a)) ++ Char.ofNat 125 :: s =
      [','].intercalate (fields.map (· b)) ++ Char.ofNat 125 :: t) :
    (∀ f ∈ fields, f a = f b) ∧ s = t := by
  induction fields with
  | nil => exact ⟨nofun, (List.cons.inj h).2⟩
  | cons f fields ih =>
    rw [List.forall_mem_cons] at happart
    cases fields with
    | nil =>
      simp only [List.map_cons, List.map_nil, List.intercalate_singleton] at h
      obtain ⟨hf, hrest⟩ := happart.1 _ _ (ends_cons (by decide)) (ends_cons (by decide)) h
      exact ⟨by simpa using hf, (List.cons.inj hrest).2⟩
    | cons g fields =>
      simp only [List.map_cons, List.intercalate_cons_cons, List.append_assoc,
        List.singleton_append] at h
      obtain ⟨hf, hrest⟩ := happart.1 _ _ (ends_cons (by decide)) (ends_cons (by decide)) h
      obtain ⟨hfields, hend⟩ := ih happart.2 (List.cons.inj hrest).2
      exact ⟨List.forall_mem_cons.mpr ⟨hf, hfields⟩, hend⟩

theorem compact_told {fields : List (β → Text)} {a b : β}
    (happart : ∀ f ∈ fields, Apart (f a) (f b))
    (h : compact (fields.map (· a)) = compact (fields.map (· b))) : ∀ f ∈ fields, f a = f b :=
  (members_told happart (List.cons.inj h).2).1

end Members

section Zero

def NulFree (text : Text) : Prop := Char.ofNat 0 ∉ text

instance (text : Text) : Decidable (NulFree text) := inferInstanceAs (Decidable (_ ∉ text))

theorem nulFree_append {x y : Text} (hx : NulFree x) (hy : NulFree y) : NulFree (x ++ y) :=
  fun h => (List.mem_append.mp h).elim hx hy

theorem nulFree_cons {c : Char} {x : Text} (hc : c ≠ Char.ofNat 0) (hx : NulFree x) :
    NulFree (c :: x) :=
  fun h => (List.mem_cons.mp h).elim (fun heq => hc heq.symm) hx

theorem nulFree_escape (c : Char) : NulFree (escape c) := by
  have hhex : ∀ n < 16, hexDigit n ≠ Char.ofNat 0 := by decide
  unfold escape
  split_ifs with hself hn hr ht hb hf hcontrol
  · rcases hself with rfl | rfl <;> decide
  · decide
  · decide
  · decide
  · decide
  · decide
  · have hhigh := hhex (c.toNat / 16) (by omega)
    have hlow := hhex (c.toNat % 16) (Nat.mod_lt _ (by decide))
    refine nulFree_cons (by decide) (nulFree_cons (by decide) (nulFree_cons (by decide)
      (nulFree_cons (by decide) (nulFree_cons hhigh (nulFree_cons hlow ?_)))))
    exact List.not_mem_nil
  · refine nulFree_cons (fun hc => hcontrol ?_) List.not_mem_nil
    rw [hc]
    decide

theorem nulFree_quote (text : Text) : NulFree (quote text) := by
  refine nulFree_cons (by decide) (nulFree_append (fun h => ?_) (by decide))
  obtain ⟨c, -, hin⟩ := List.mem_flatMap.mp h
  exact nulFree_escape c hin

theorem nulFree_number (n depth : Nat) : NulFree (number n depth) := by
  intro h
  have hdigit : (Char.ofNat 0).isDigit = true :=
    Nat.isDigit_of_mem_toDigits (by decide) le_rfl h
  cases hdigit

theorem nulFree_boolean (b : Bool) (depth : Nat) : NulFree (boolean b depth) := by
  cases b with
  | false =>
    change NulFree "false".toList
    decide
  | true =>
    change NulFree "true".toList
    decide

theorem nulFree_optional {α : Type} {value : α → Pretty} (h : ∀ a depth, NulFree (value a depth))
    (a : Option α) (depth : Nat) : NulFree (optional value a depth) := by
  cases a with
  | none =>
    change NulFree "null".toList
    decide
  | some a => exact h a depth

theorem nulFree_member {name : Text} {value : Pretty} (h : NulFree (value 0)) :
    NulFree (member name value) :=
  nulFree_append (nulFree_quote name) (nulFree_cons (by decide) h)

theorem nulFree_compact {members : List Text} (h : ∀ m ∈ members, NulFree m) :
    NulFree (compact members) := by
  refine nulFree_cons (by decide) (nulFree_append ?_ (by decide))
  induction members with
  | nil => exact List.not_mem_nil
  | cons m members ih =>
    rw [List.forall_mem_cons] at h
    cases members with
    | nil =>
      rw [List.intercalate_singleton]
      exact h.1
    | cons n members =>
      rw [List.intercalate_cons_cons]
      exact nulFree_append (nulFree_append h.1 (by decide)) (ih h.2)

end Zero

end PrettyJson
