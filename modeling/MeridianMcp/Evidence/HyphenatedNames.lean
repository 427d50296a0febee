import MeridianMcp.Evidence.RedactionLoop

namespace Evidence

open MeridianMcp

def Marked (stop : Char → Bool) (post : Text) : Prop :=
  ∃ rest, post = redactionMarker ++ rest ∧ ∀ c ∈ rest.head?, stop c = true

-- Every such name behind no word character is followed by the marker and a delimiter or the end.
def Masked (stop : Char → Bool) (names : Text → Prop) (before : Option Char) (text : Text) : Prop :=
  ∀ pre name post, text = pre ++ (name ++ '=' :: post) → names name →
    (lastOf before pre).any wordCharacter = false → Marked stop post

-- What comes next stands in the value of a field.
def Covered (stop : Char → Bool) (fields : List Text) (before : Option Char) (pre : Text) : Prop :=
  ∃ lead field value, pre = lead ++ (field ++ '=' :: value) ∧ Field fields field ∧
    (lastOf before lead).any wordCharacter = false ∧ ∀ c ∈ value, stop c = false

def MaskedOutside (stop : Char → Bool) (fields : List Text) (names : Text → Prop)
    (before : Option Char) (text : Text) : Prop :=
  ∀ pre name post, text = pre ++ (name ++ '=' :: post) → names name →
    (lastOf before pre).any wordCharacter = false → ¬ Covered stop fields before pre →
      Marked stop post

section Scan

variable {stop : Char → Bool} {fields : List Text} {names : Text → Prop} {before : Option Char}
  {text rest : Text} {c : Char}

theorem masked_cons :
    Masked stop names before (c :: text) ↔
      (∀ name post, c :: text = name ++ '=' :: post → names name →
        before.any wordCharacter = false → Marked stop post) ∧ Masked stop names (some c) text := by
  constructor
  · intro h
    refine ⟨fun name post => h [] name post, fun pre name post heq hname hbefore => ?_⟩
    exact h (c :: pre) name post (congrArg _ heq) hname ((lastOf_cons before c pre).symm ▸ hbefore)
  · rintro ⟨hhead, htail⟩ pre name post heq hname hbefore
    cases pre with
    | nil => exact hhead name post heq hname hbefore
    | cons d pre =>
      obtain ⟨rfl, hrest⟩ := List.cons.inj heq
      exact htail pre name post hrest hname (lastOf_cons before c pre ▸ hbefore)

theorem masked_silent (h : Silent names before text rest) :
    Masked stop names before (text ++ rest) ↔ Masked stop names (lastOf before text) rest := by
  induction text generalizing before with
  | nil => exact Iff.rfl
  | cons c text ih =>
    rw [List.cons_append, masked_cons, ih h.2, lastOf_cons]
    refine and_iff_right fun name post heq hname hbefore => ?_
    exact absurd ⟨hbefore, name, post, hname, heq⟩ h.1

theorem maskedOutside_cons (hkeep : ¬ Starts (Field fields) before (c :: text)) :
    MaskedOutside stop fields names before (c :: text) ↔
      (∀ name post, c :: text = name ++ '=' :: post → names name →
        before.any wordCharacter = false → Marked stop post) ∧
      MaskedOutside stop fields names (some c) text := by
  constructor
  · intro h
    refine ⟨fun name post heq hname hbefore => h [] name post heq hname hbefore ?_,
      fun pre name post heq hname hbefore hout => ?_⟩
    · rintro ⟨lead, field, value, hnil, -⟩
      simp at hnil
    · refine h (c :: pre) name post (congrArg _ heq) hname (lastOf_cons before c pre ▸ hbefore) ?_
      rintro ⟨lead, field, value, hpre, hfield, hlead, hvalue⟩
      cases lead with
      | nil =>
        refine hkeep ⟨hlead, field, value ++ (name ++ '=' :: post), hfield, ?_⟩
        rw [heq, ← List.cons_append, hpre]
        simp
      | cons d lead =>
        obtain ⟨rfl, hrest⟩ := List.cons.inj hpre
        exact hout ⟨lead, field, value, hrest, hfield, lastOf_cons before c lead ▸ hlead, hvalue⟩
  · rintro ⟨hhead, htail⟩ pre name post heq hname hbefore hout
    cases pre with
    | nil => exact hhead name post heq hname hbefore
    | cons d pre =>
      obtain ⟨rfl, hrest⟩ := List.cons.inj heq
      refine htail pre name post hrest hname (lastOf_cons before c pre ▸ hbefore) ?_
      rintro ⟨lead, field, value, rfl, hfield, hlead, hvalue⟩
      exact hout ⟨c :: lead, field, value, rfl, hfield,
        (lastOf_cons before c lead).symm ▸ hlead, hvalue⟩

end Scan

section Values

variable {stop : Char → Bool} {fields : List Text} {names : Text → Prop} {before before' : Option Char}
  {text out name value rest : Text}

theorem lastOf_of_ne_nil (h : text ≠ []) : lastOf before text = lastOf before' text := by
  cases text with
  | nil => exact absurd rfl h
  | cons c text => rw [lastOf_cons, lastOf_cons]

-- The other names: no field is one of them, and they have the shape that keeps fields apart.
structure Unlisted (fields : List Text) (names : Text → Prop) : Prop extends Inert fields names where
  sign : ∀ name, names name → '=' ∉ name
  close : ∀ name, names name → '>' ∉ name
  distinct : ∀ name, names name → ¬ Field fields name

theorem not_stop_field (hstops : Stops stop) (hfields : FieldNames fields)
    (hname : Field fields name) (hvalue : ∀ c ∈ value, stop c = false) :
    ∀ c ∈ name ++ '=' :: value, stop c = false := by
  intro c hc
  rcases List.mem_append.mp hc with hc | hc
  · exact hstops.word c (hfields.word hname c hc)
  rcases List.mem_cons.mp hc with rfl | hc
  · exact hstops.sign
  · exact hvalue c hc

theorem not_word_of_stop (hstops : Stops stop) {c : Char} (hc : stop c = true) :
    wordCharacter c = false := by
  cases hword : wordCharacter c with
  | false => rfl
  | true => exact absurd (hstops.word c hword) (by rw [hc]; decide)

theorem ne_nil_of_head (hstops : Stops stop) {pre tail : Text}
    (hrest : ∀ c ∈ (pre ++ tail).head?, stop c = true)
    (htail : ∃ c text, tail = c :: text ∧ wordCharacter c = true) : pre ≠ [] := by
  rintro rfl
  obtain ⟨c, text, rfl, hc⟩ := htail
  exact absurd (not_word_of_stop hstops (hrest c rfl)) (by rw [hc]; decide)

theorem lastOf_word {pre : Text} (hne : pre ≠ []) (hword : ∀ c ∈ pre, wordCharacter c = true) :
    (lastOf before pre).any wordCharacter = true := by
  rcases List.eq_nil_or_concat pre with rfl | ⟨pre, c, rfl⟩
  · exact absurd rfl hne
  · rw [List.concat_eq_append, lastOf_append]
    exact hword c (by simp)

-- A name behind the start of a field lies in its value or behind it.
theorem name_in_value (hfields : FieldNames fields) (hunlisted : Unlisted fields names)
    (hname : Field fields name) {pre tail other post : Text} (hother : names other)
    (hpre : (lastOf before pre).any wordCharacter = false)
    (heq : name ++ '=' :: value = pre ++ tail) (htail : other ++ '=' :: post = tail ++ rest) :
    ∃ left, pre = name ++ '=' :: left ∧ value = left ++ tail := by
  obtain ⟨d, word, hword, hd⟩ := hunlisted.head other hother
  have hsign : ¬ '=' :: value = tail := by
    rintro rfl
    rw [hword] at htail
    obtain rfl : d = '=' := (List.cons.inj htail).1
    exact Bool.false_ne_true (sign_not_word.symm.trans hd)
  rcases List.append_eq_append_iff.mp heq with ⟨left, rfl, hleft⟩ | ⟨left, hsplit, hright⟩
  · cases left with
    | nil => exact absurd hleft hsign
    | cons c left =>
      obtain ⟨rfl, hvalue⟩ := List.cons.inj hleft
      exact ⟨left, rfl, hvalue⟩
  · cases hempty : pre with
    | nil =>
      rw [hempty, List.nil_append] at heq
      rw [← heq, List.append_assoc] at htail
      obtain ⟨rfl, -⟩ := Delimited.unique_stop (hunlisted.sign other hother)
        (hfields.sign_not_mem hname) htail
      exact absurd hname (hunlisted.distinct other hother)
    | cons c pre' =>
      have hwords : ∀ c ∈ pre, wordCharacter c = true := fun c hc =>
        hfields.word hname c (hsplit ▸ List.mem_append_left left hc)
      have hlast := @lastOf_word before pre (hempty ▸ List.cons_ne_nil c pre') hwords
      exact absurd (hpre.symm.trans hlast) (by decide)

theorem not_value_of_stop (hstops : Stops stop) (hfields : FieldNames fields)
    (hname : Field fields name) (hvalue : ∀ c ∈ value, stop c = false) {pre : Text} (hne : pre ≠ [])
    (hpre : ∀ c ∈ pre.head?, stop c = true) {lead : Text} :
    name ++ '=' :: value ≠ lead ++ pre := by
  intro heq
  cases pre with
  | nil => exact hne rfl
  | cons c pre =>
    have hstop := not_stop_field hstops hfields hname hvalue c (by rw [heq]; simp)
    exact Bool.false_ne_true (hstop.symm.trans (hpre c rfl))

-- Behind a delimiter the value of an earlier field covers nothing.
theorem covered_value (hstops : Stops stop) (hfields : FieldNames fields) {pre : Text}
    (hne : pre ≠ []) (hpre : ∀ c ∈ pre.head?, stop c = true) :
    Covered stop fields before (text ++ pre) ↔ Covered stop fields (some '>') pre := by
  constructor
  · rintro ⟨lead, field, later, heq, hfield, hbefore, hlater⟩
    obtain ⟨c, word, rfl, hc⟩ := hfields.head hfield
    rcases List.append_eq_append_iff.mp heq with ⟨left, rfl, hleft⟩ | ⟨left, rfl, hleft⟩
    · rw [lastOf_append, @lastOf_of_ne_nil _ (some '>') left
        (ne_nil_of_head hstops (hleft ▸ hpre) ⟨c, _, rfl, hc⟩)] at hbefore
      exact ⟨left, c :: word, later, hleft, hfield, hbefore, hlater⟩
    · exact absurd hleft (not_value_of_stop hstops hfields hfield hlater hne hpre)
  · rintro ⟨lead, field, later, rfl, hfield, hbefore, hlater⟩
    obtain ⟨c, word, rfl, hc⟩ := hfields.head hfield
    refine ⟨text ++ lead, c :: word, later, (List.append_assoc ..).symm, hfield, ?_, hlater⟩
    rw [lastOf_append, @lastOf_of_ne_nil _ (some '>') lead
      (ne_nil_of_head hstops hpre ⟨c, _, rfl, hc⟩)]
    exact hbefore

theorem maskedOutside_value (hstops : Stops stop) (hfields : FieldNames fields)
    (hunlisted : Unlisted fields names) (hname : Field fields name)
    (hbefore : before.any wordCharacter = false) (hvalue : ∀ c ∈ value, stop c = false)
    (hrest : ∀ c ∈ rest.head?, stop c = true) :
    MaskedOutside stop fields names before (name ++ '=' :: (value ++ rest)) ↔
      MaskedOutside stop fields names (some '>') rest := by
  rw [show name ++ '=' :: (value ++ rest) = (name ++ '=' :: value) ++ rest by simp]
  have hhead : ∀ {pre other post : Text}, rest = pre ++ (other ++ '=' :: post) → names other →
      pre ≠ [] ∧ ∀ c ∈ pre.head?, stop c = true := by
    rintro pre other post rfl hother
    obtain ⟨c, word, rfl, hc⟩ := hunlisted.head other hother
    have hne := ne_nil_of_head hstops hrest ⟨c, _, rfl, hc⟩
    rw [List.head?_append_of_ne_nil _ hne] at hrest
    exact ⟨hne, hrest⟩
  constructor
  · rintro h pre other post rfl hother hpre hout
    obtain ⟨hne, hstop⟩ := hhead rfl hother
    refine h (name ++ '=' :: value ++ pre) other post (by simp) hother ?_ ?_
    · rw [lastOf_append, @lastOf_of_ne_nil _ (some '>') pre hne]
      exact hpre
    · rw [covered_value hstops hfields hne hstop]
      exact hout
  · rintro h pre other post heq hother hpre hout
    rcases List.append_eq_append_iff.mp heq with ⟨tail, rfl, rfl⟩ | ⟨tail, hsplit, htail⟩
    · obtain ⟨hne, hstop⟩ := hhead rfl hother
      rw [covered_value hstops hfields hne hstop] at hout
      rw [lastOf_append, @lastOf_of_ne_nil _ (some '>') tail hne] at hpre
      exact h tail other post rfl hother hpre hout
    · obtain ⟨left, rfl, rfl⟩ := name_in_value hfields hunlisted hname hother hpre hsplit htail
      exact absurd ⟨[], name, left, rfl, hname, hbefore,
        fun c hc => hvalue c (List.mem_append_left tail hc)⟩ hout

end Values

section Masking

variable {stop : Char → Bool} {fields : List Text} {names : Text → Prop} {before : Option Char}
  {text out name post post' : Text}

theorem marked_iff (hfields : FieldNames fields) (h : Redacts stop fields before post post') :
    Marked stop post ↔ Marked stop post' := by
  have hsilent : ∀ rest, Silent (Field fields) before redactionMarker rest := fun rest =>
    marker_silent (fun _ => hfields.head) (fun _ => hfields.close_not_mem)
  constructor
  · rintro ⟨rest, rfl, hrest⟩
    obtain ⟨rest', rfl, hrests⟩ := Redacts.forward (hsilent rest) h
    exact ⟨rest', rfl, (hrests.head_stop hfields).mp hrest⟩
  · rintro ⟨rest', rfl, hrest'⟩
    obtain ⟨rest, rfl, hrests⟩ := Redacts.backward (hsilent rest') h
    exact ⟨rest, rfl, (hrests.head_stop hfields).mpr hrest'⟩

-- What the output shows behind the other names is what the input shows behind those of them that
-- stand in no value.
theorem masked_iff (hstops : Stops stop) (hfields : FieldNames fields)
    (hunlisted : Unlisted fields names) (h : Redacts stop fields before text out) :
    Masked stop names before out ↔ MaskedOutside stop fields names before text := by
  induction h with
  | done before =>
    constructor
    · exact fun h pre name post heq hname hpre _ => h pre name post heq hname hpre
    · exact fun _ pre name post heq => by simp at heq
  | @value before name value rest out hbefore hname hvalue hstop _ ih =>
    have hnot : ¬ Starts names before (name ++ '=' :: (redactionMarker ++ out)) := by
      rintro ⟨-, other, post, hother, heq⟩
      obtain ⟨rfl, -⟩ := Delimited.unique_stop (hfields.sign_not_mem hname)
        (hunlisted.sign other hother) heq
      exact hunlisted.distinct name hother hname
    have hsilent := value_silent hfields hname hunlisted.head hunlisted.close hnot
    rw [maskedOutside_value hstops hfields hunlisted hname hbefore hvalue hstop, ← ih,
      ← @lastOf_value before name, ← masked_silent hsilent]
    simp
  | @keep before c rest out hkeep hrest ih =>
    rw [masked_cons, maskedOutside_cons hkeep, ih]
    refine and_congr_left fun _ => ⟨fun h name post heq hname hbefore => ?_,
      fun h name post heq hname hbefore => ?_⟩
    · obtain ⟨post', heq', hpost⟩ := hrest.name_forward hunlisted.toInert hname heq
      exact (marked_iff hfields hpost).mpr (h name post' heq' hname hbefore)
    · obtain ⟨post', heq', hpost⟩ := hrest.name_backward hunlisted.toInert hname heq
      exact (marked_iff hfields hpost).mp (h name post' heq' hname hbefore)

theorem masked_fields (hfields : FieldNames fields) (h : Redacts stop fields before text out) :
    Masked stop (Field fields) before out := by
  induction h with
  | done before => exact fun pre name post heq => by simp at heq
  | @value before name value rest out hbefore hname _ hstop hrest ih =>
    obtain ⟨c, word, rfl, hc⟩ := hfields.head hname
    have hword := hfields.word hname
    have hsilent : Silent (Field fields) (some c) (word ++ '=' :: redactionMarker) out := by
      refine silent_append.mpr ⟨silent_word hc fun d hd => hword d (List.mem_cons_of_mem _ hd),
        not_starts_of_head (fun _ => hfields.head) sign_not_word, ?_⟩
      exact marker_silent (fun _ => hfields.head) (fun _ => hfields.close_not_mem)
    rw [List.cons_append, masked_cons]
    constructor
    · intro other post heq hother _
      obtain ⟨-, rfl⟩ := Delimited.unique_stop (hfields.sign_not_mem hname)
        (hfields.sign_not_mem hother) heq
      exact ⟨out, rfl, (hrest.head_stop hfields).mp hstop⟩
    · have htail := (masked_silent hsilent).mpr (by rw [lastOf_value]; exact ih)
      rw [List.append_assoc] at htail
      exact htail
  | @keep before c rest out hkeep hrest ih =>
    refine masked_cons.mpr ⟨fun name post heq hname hbefore => ?_, ih⟩
    exact absurd ((hrest.starts_iff (hfields.inert hfields)).mpr ⟨hbefore, name, post, hname, heq⟩)
      hkeep

theorem masked_or {names' : Text → Prop} :
    Masked stop (fun name => names name ∨ names' name) before text ↔
      Masked stop names before text ∧ Masked stop names' before text := by
  constructor
  · exact fun h => ⟨fun pre name post heq hname => h pre name post heq (Or.inl hname),
      fun pre name post heq hname => h pre name post heq (Or.inr hname)⟩
  · rintro ⟨h, h'⟩ pre name post heq (hname | hname)
    · exact h pre name post heq hname
    · exact h' pre name post heq hname

end Masking

def Hyphenated (name : Text) : Prop := protectedName name = true ∧ '-' ∈ name

theorem underscore_parts : ∀ field ∈ protectedFields, ∀ index ∈ List.range field.length,
    field[index]? = some '_' → field.take index ≠ [] ∧ field.drop (index + 1) ≠ [] ∧
      '_' ∉ field.take index ∧ '_' ∉ field.drop (index + 1) ∧
      field.drop (index + 1) ∉ protectedFields := by
  decide

-- One letter of a name as protected() compares it.
def normalized (c : Char) : Char := if c.toLower = '-' then '_' else c.toLower

theorem protectedName_iff (name : Text) :
    protectedName name = true ↔ name.map normalized ∈ protectedFields := by
  rw [protectedName, decide_eq_true_eq, List.map_map]
  exact Iff.rfl

theorem map_normalized {text : Text} (h : '_' ∉ text.map normalized) :
    '-' ∉ text ∧ text.map normalized = text.map Char.toLower := by
  have hlower : ∀ c ∈ text, c.toLower ≠ '-' := by
    intro c hc heq
    have hin := List.mem_map_of_mem (f := normalized) hc
    rw [normalized, if_pos heq] at hin
    exact h hin
  refine ⟨fun hin => hlower '-' hin rfl, List.map_congr_left fun c hc => ?_⟩
  rw [normalized, if_neg (hlower c hc)]

structure Parts (name left right : Text) : Prop where
  split : name = left ++ '-' :: right
  left_ne : left ≠ []
  right_ne : right ≠ []
  left_word : ∀ c ∈ left, wordCharacter c = true
  right_word : ∀ c ∈ right, wordCharacter c = true
  right_field : ¬ Field protectedFields right

theorem Hyphenated.parts {name : Text} (h : Hyphenated name) :
    ∃ left right, Parts name left right := by
  obtain ⟨hname, hhyphen⟩ := h
  obtain ⟨left, right, rfl⟩ := List.append_of_mem hhyphen
  rw [protectedName_iff, List.map_append, List.map_cons] at hname
  have hword := (protectedFields_names _ hname).2
  obtain ⟨hleft, hright, hleftOnly, hrightOnly, hfield⟩ := underscore_parts _ hname
    (left.map normalized).length (by simp)
    (by rw [List.getElem?_append_right (Nat.le_refl _)]; simp [normalized])
  rw [List.take_left] at hleft hleftOnly
  rw [List.drop_append, List.drop_eq_nil_of_le (Nat.le_succ _), Nat.add_sub_cancel_left]
    at hright hrightOnly hfield
  change right.map normalized ≠ [] at hright
  change '_' ∉ right.map normalized at hrightOnly
  change right.map normalized ∉ protectedFields at hfield
  obtain ⟨-, hleftMap⟩ := map_normalized hleftOnly
  obtain ⟨-, hrightMap⟩ := map_normalized hrightOnly
  rw [hleftMap, hrightMap] at hword
  refine ⟨left, right, rfl, ?_, ?_, fun c hc => ?_, fun c hc => ?_, ?_⟩
  · rintro rfl
    exact hleft rfl
  · rintro rfl
    exact hright rfl
  · rw [← wordCharacter_toLower]
    exact hword _ (List.mem_append_left _ (List.mem_map_of_mem hc))
  · rw [← wordCharacter_toLower]
    exact hword _ (List.mem_append_right _ (List.mem_cons_of_mem _ (List.mem_map_of_mem hc)))
  · rw [Field, ← hrightMap]
    exact hfield

theorem Hyphenated.parts_head {name : Text} (h : Hyphenated name) :
    ∃ c left right, Parts name (c :: left) right := by
  obtain ⟨left, right, hparts⟩ := h.parts
  cases left with
  | nil => exact absurd rfl hparts.left_ne
  | cons c left => exact ⟨c, left, right, hparts⟩

theorem Parts.mem {name left right : Text} (h : Parts name left right) {c : Char} (hc : c ∈ name) :
    wordCharacter c = true ∨ c = '-' := by
  rw [h.split] at hc
  rcases List.mem_append.mp hc with hc | hc
  · exact Or.inl (h.left_word c hc)
  rcases List.mem_cons.mp hc with rfl | hc
  · exact Or.inr rfl
  · exact Or.inl (h.right_word c hc)

theorem Parts.silent {left right rest : Text} {c : Char}
    (h : Parts (c :: left ++ '-' :: right) (c :: left) right) :
    Silent (Field protectedFields) (some c) (left ++ '-' :: right ++ ['=']) rest := by
  have hhead : ∀ name, Field protectedFields name →
      ∃ c rest, name = c :: rest ∧ wordCharacter c = true :=
    fun _ => protectedFields_names.head
  have hc := h.left_word c (List.mem_cons_self ..)
  cases right with
  | nil => exact absurd rfl h.right_ne
  | cons d right =>
    have hd := h.right_word d (List.mem_cons_self ..)
    have hright : ¬ Starts (Field protectedFields) (some '-') (d :: (right ++ ['='] ++ rest)) := by
      rintro ⟨-, name, post, hname, heq⟩
      have hsign : '=' ∉ d :: right := fun hin =>
        Bool.false_ne_true (sign_not_word.symm.trans (h.right_word _ hin))
      have hsplit : d :: right ++ '=' :: rest = name ++ '=' :: post := by
        rw [← heq, List.append_assoc]
        rfl
      obtain ⟨rfl, -⟩ :=
        Delimited.unique_stop hsign (protectedFields_names.sign_not_mem hname) hsplit
      exact h.right_field hname
    have hlast : Silent (Field protectedFields) (some d) (right ++ ['=']) rest := by
      refine silent_append.mpr
        ⟨silent_word hd fun e he => h.right_word e (List.mem_cons_of_mem _ he), ?_⟩
      exact ⟨not_starts_of_head hhead sign_not_word, trivial⟩
    rw [List.append_assoc]
    refine silent_append.mpr
      ⟨silent_word hc fun e he => h.left_word e (List.mem_cons_of_mem _ he), ?_⟩
    exact ⟨not_starts_of_head hhead (by decide), hright, hlast⟩

theorem hyphenated_unlisted : Unlisted protectedFields Hyphenated := by
  have hmem : ∀ name, Hyphenated name → ∀ c ∈ name, wordCharacter c = true ∨ c = '-' := by
    intro name hname c hc
    obtain ⟨left, right, hparts⟩ := hname.parts
    exact hparts.mem hc
  refine ⟨⟨fun name hname => ?_, fun c name rest hname => ?_⟩, fun name hname hin => ?_,
    fun name hname hin => ?_, fun name hname hfield => ?_⟩
  · obtain ⟨c, left, right, hparts⟩ := hname.parts_head
    exact ⟨c, left ++ '-' :: right, hparts.split, hparts.left_word c (List.mem_cons_self ..)⟩
  · obtain ⟨d, left, right, hparts⟩ := hname.parts_head
    obtain ⟨rfl, rfl⟩ := List.cons.inj hparts.split
    exact hparts.silent
  · exact absurd (hmem name hname '=' hin) (by decide)
  · exact absurd (hmem name hname '>' hin) (by decide)
  · exact absurd (protectedFields_names.word hfield '-' hname.2) (by decide)

theorem protectedName_or (name : Text) :
    protectedName name = true ↔ Field protectedFields name ∨ Hyphenated name := by
  have hlower : '-' ∉ name → name.map normalized = name.map Char.toLower := by
    refine fun hnot => List.map_congr_left fun c hc => ?_
    rw [normalized, if_neg fun heq => ?_]
    obtain rfl := of_toLower_eq (by decide) heq
    exact hnot hc
  constructor
  · intro h
    by_cases hhyphen : '-' ∈ name
    · exact Or.inr ⟨h, hhyphen⟩
    · rw [protectedName_iff, hlower hhyphen] at h
      exact Or.inl h
  · rintro (h | h)
    · have hhyphen : '-' ∉ name := fun hin =>
        absurd (protectedFields_names.word h '-' hin) (by decide)
      rw [protectedName_iff, hlower hhyphen]
      exact h
    · exact h.1

-- Redaction is complete exactly where the names spelled with a hyphen, which it does not look for,
-- are followed by a marker from the start or stand in the value of a field it does redact.
theorem protected_masked_iff (text : Text) :
    ∃ out count, sanitizeOffsets isWhitespace text = .ok (out, count) ∧
      (Masked (delimiter isWhitespace) (protectedName · = true) none out ↔
        MaskedOutside (delimiter isWhitespace) protectedFields Hyphenated none text) := by
  obtain ⟨out, count, hrun, hredacts⟩ := sanitizeOffsets_redacts text
  refine ⟨out, count, hrun, ?_⟩
  have hnames : (protectedName · = true) =
      fun name => Field protectedFields name ∨ Hyphenated name :=
    funext fun name => propext (protectedName_or name)
  rw [hnames, masked_or,
    and_iff_right (masked_fields protectedFields_names hredacts)]
  exact masked_iff stops_delimiter protectedFields_names hyphenated_unlisted hredacts

theorem hyphenated_leaks :
    sanitizeOffsets isWhitespace "player-id=alice".toList = .ok ("player-id=alice".toList, 0) ∧
      ¬ Masked (delimiter isWhitespace) (protectedName · = true) none "player-id=alice".toList := by
  refine ⟨by decide +kernel, fun h => ?_⟩
  obtain ⟨rest, hmarker, -⟩ := h [] "player-id".toList "alice".toList rfl (by decide) rfl
  exact absurd (List.cons.inj hmarker).1 (by decide)

end Evidence
