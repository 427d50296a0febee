import MeridianMcp.Text
import MeridianMcp.Utf8

namespace Evidence

open MeridianMcp

def protectedFields : List Text :=
  ["player".toList, "player_id".toList, "client".toList, "client_id".toList, "account".toList,
    "account_id".toList, "key".toList, "ckey".toList, "mob".toList, "mob_id".toList,
    "discord".toList, "discord_id".toList]

def protectedName (name : Text) : Bool :=
  ((name.map Char.toLower).map fun c => if c = '-' then '_' else c) ∈ protectedFields

def wordCharacter (c : Char) : Bool := c.isAlphanum || c = '_'

def redactionMarker : Text := "<redacted>".toList

def delimiter (isWhitespace : Char → Bool) (c : Char) : Bool :=
  isWhitespace c || c = ',' || c = ';'

-- `before` is the character in front of the cursor; the value is replaced up to its delimiter.
def redactField (isWhitespace : Char → Bool) (marker : Text) :
    Nat → Option Char → Text → Text × Nat
  | 0, _, text => (text, 0)
  | _ + 1, _, [] => ([], 0)
  | fuel + 1, before, c :: rest =>
    if marker.isPrefixOf ((c :: rest).map Char.toLower) && !(before.any wordCharacter) then
      let tail := ((c :: rest).drop marker.length).dropWhile fun c => !delimiter isWhitespace c
      let redacted := redactField isWhitespace marker fuel (some '>') tail
      ((c :: rest).take marker.length ++ redactionMarker ++ redacted.1, redacted.2 + 1)
    else
      let redacted := redactField isWhitespace marker fuel (some c) rest
      (c :: redacted.1, redacted.2)

def sanitizeText (isWhitespace : Char → Bool) (text : Text) : Text × Nat :=
  protectedFields.foldl
    (fun state field =>
      let redacted := redactField isWhitespace (field ++ ['=']) (state.1.length + 1) none state.1
      (redacted.1, state.2 + redacted.2))
    (text, 0)

theorem wordCharacter_iff (c : Char) : wordCharacter c = true ↔
    65 ≤ c.toNat ∧ c.toNat ≤ 90 ∨ 97 ≤ c.toNat ∧ c.toNat ≤ 122 ∨ 48 ≤ c.toNat ∧ c.toNat ≤ 57 ∨
      c.toNat = 95 := by
  delta wordCharacter Char.isAlphanum Char.isAlpha Char.isUpper Char.isLower Char.isDigit
  simp only [Bool.or_eq_true, Bool.and_eq_true, decide_eq_true_eq, ge_iff_le, UInt32.le_iff_toNat_le]
  have hunder : c = '_' ↔ c.toNat = 95 := ⟨fun h => h ▸ rfl, fun h => Char.toNat_inj.mp h⟩
  rw [hunder]
  change ((65 ≤ c.toNat ∧ c.toNat ≤ 90 ∨ 97 ≤ c.toNat ∧ c.toNat ≤ 122) ∨
    48 ≤ c.toNat ∧ c.toNat ≤ 57) ∨ c.toNat = 95 ↔ _
  omega

theorem wordCharacter_toLower (c : Char) : wordCharacter c.toLower = wordCharacter c := by
  rw [Bool.eq_iff_iff, wordCharacter_iff, wordCharacter_iff, toNat_toLower]
  split <;> omega

-- What ends a value: no character of a name, of the equals sign or of the marker does.
structure Stops (stop : Char → Bool) : Prop where
  word : ∀ c, wordCharacter c = true → stop c = false
  sign : stop '=' = false
  marker : ∀ c ∈ redactionMarker, stop c = false

def Field (fields : List Text) (name : Text) : Prop := name.map Char.toLower ∈ fields

def Starts (names : Text → Prop) (before : Option Char) (text : Text) : Prop :=
  before.any wordCharacter = false ∧ ∃ name rest, names name ∧ text = name ++ '=' :: rest

-- The value of each field that starts outside of such a value gives way to the marker; all else
-- stays.
inductive Redacts (stop : Char → Bool) (fields : List Text) : Option Char → Text → Text → Prop
  | done (before : Option Char) : Redacts stop fields before [] []
  | value {before : Option Char} {name value rest out : Text}
      (hbefore : before.any wordCharacter = false) (hname : Field fields name)
      (hvalue : ∀ c ∈ value, stop c = false) (hstop : ∀ c ∈ rest.head?, stop c = true)
      (hrest : Redacts stop fields (some '>') rest out) :
      Redacts stop fields before (name ++ '=' :: (value ++ rest))
        (name ++ '=' :: (redactionMarker ++ out))
  | keep {before : Option Char} {c : Char} {rest out : Text}
      (hkeep : ¬ Starts (Field fields) before (c :: rest))
      (hrest : Redacts stop fields (some c) rest out) :
      Redacts stop fields before (c :: rest) (c :: out)

-- Nothing starts within the text, whatever stands behind it.
def Silent (names : Text → Prop) : Option Char → Text → Text → Prop
  | _, [], _ => True
  | before, c :: text, rest =>
    ¬ Starts names before (c :: (text ++ rest)) ∧ Silent names (some c) text rest

def lastOf (before : Option Char) (text : Text) : Option Char := text.getLast?.or before

@[simp] theorem lastOf_nil (before : Option Char) : lastOf before [] = before := rfl

@[simp] theorem lastOf_cons (before : Option Char) (c : Char) (text : Text) :
    lastOf before (c :: text) = lastOf (some c) text := by
  cases text with
  | nil => rfl
  | cons d text =>
    rw [lastOf, lastOf, List.getLast?_cons_cons, List.getLast?_cons]
    rfl

theorem lastOf_append (before : Option Char) (text text' : Text) :
    lastOf before (text ++ text') = lastOf (lastOf before text) text' := by
  induction text generalizing before with
  | nil => rfl
  | cons c text ih => rw [List.cons_append, lastOf_cons, lastOf_cons, ih]

section Silence

variable {names : Text → Prop} {before : Option Char} {text text' rest : Text} {c : Char}

theorem not_starts_of_word (h : before.any wordCharacter = true) : ¬ Starts names before text :=
  fun hstarts => Bool.false_ne_true (hstarts.1.symm.trans h)

theorem silent_append :
    Silent names before (text ++ text') rest ↔
      Silent names before text (text' ++ rest) ∧ Silent names (lastOf before text) text' rest := by
  induction text generalizing before with
  | nil => exact (and_iff_right trivial).symm
  | cons c text ih =>
    rw [List.cons_append, Silent, Silent, ih, lastOf_cons, List.append_assoc, and_assoc]

theorem silent_word (hbefore : before.any wordCharacter = true)
    (htext : ∀ c ∈ text, wordCharacter c = true) : Silent names before text rest := by
  induction text generalizing before with
  | nil => trivial
  | cons c text ih =>
    exact ⟨not_starts_of_word hbefore,
      ih (htext c (List.mem_cons_self ..)) fun d hd => htext d (List.mem_cons_of_mem _ hd)⟩

theorem not_starts_of_head
    (hnames : ∀ name, names name → ∃ c rest, name = c :: rest ∧ wordCharacter c = true)
    (hc : wordCharacter c = false) : ¬ Starts names before (c :: rest) := by
  rintro ⟨-, name, tail, hname, heq⟩
  obtain ⟨d, name', rfl, hd⟩ := hnames name hname
  obtain ⟨rfl, -⟩ := List.cons.inj heq
  exact Bool.false_ne_true (hc.symm.trans hd)

end Silence

-- Within such a name and its equals sign no field starts, so what is done about the fields keeps
-- the name as it is.
structure Inert (fields : List Text) (names : Text → Prop) : Prop where
  head : ∀ name, names name → ∃ c rest, name = c :: rest ∧ wordCharacter c = true
  silent : ∀ c name rest, names (c :: name) → Silent (Field fields) (some c) (name ++ ['=']) rest

def FieldNames (fields : List Text) : Prop :=
  ∀ field ∈ fields, field ≠ [] ∧ ∀ c ∈ field, wordCharacter c = true

theorem sign_not_word : wordCharacter '=' = false := by decide

section Fields

variable {fields : List Text} {name : Text}

theorem FieldNames.word (h : FieldNames fields) (hname : Field fields name) :
    ∀ c ∈ name, wordCharacter c = true := by
  intro c hc
  rw [← wordCharacter_toLower]
  exact (h _ hname).2 _ (List.mem_map_of_mem hc)

theorem FieldNames.head (h : FieldNames fields) (hname : Field fields name) :
    ∃ c rest, name = c :: rest ∧ wordCharacter c = true := by
  have hword := h.word hname
  cases name with
  | nil => exact absurd rfl (h _ hname).1
  | cons c rest => exact ⟨c, rest, rfl, hword c (List.mem_cons_self ..)⟩

theorem FieldNames.sign_not_mem (h : FieldNames fields) (hname : Field fields name) : '=' ∉ name :=
  fun hin => Bool.false_ne_true (sign_not_word.symm.trans (h.word hname _ hin))

theorem FieldNames.inert {fields' : List Text} (h : FieldNames fields) (h' : FieldNames fields') :
    Inert fields (Field fields') := by
  refine ⟨fun name hname => h'.head hname, fun c name rest hname => ?_⟩
  have hword := h'.word hname
  have hc := hword c (List.mem_cons_self ..)
  refine silent_append.mpr ⟨silent_word hc fun d hd => hword d (List.mem_cons_of_mem _ hd), ?_⟩
  exact ⟨not_starts_of_head (fun _ => h.head) sign_not_word, trivial⟩

end Fields

section Relation

variable {stop : Char → Bool} {fields : List Text} {before : Option Char} {text out out' rest : Text}
  {c : Char}

theorem Redacts.of_nil (h : Redacts stop fields before [] out) : out = [] := by
  generalize heq : ([] : Text) = whole at h
  cases h with
  | done => rfl
  | value => simp at heq
  | keep => cases heq

theorem Redacts.forward_one (h : Redacts stop fields before (c :: text) out)
    (hkeep : ¬ Starts (Field fields) before (c :: text)) :
    ∃ out', out = c :: out' ∧ Redacts stop fields (some c) text out' := by
  generalize heq : c :: text = whole at h
  cases h with
  | done => cases heq
  | value hbefore hname _ _ _ => exact absurd ⟨hbefore, _, _, hname, heq⟩ hkeep
  | keep _ hrest =>
    obtain ⟨rfl, rfl⟩ := List.cons.inj heq
    exact ⟨_, rfl, hrest⟩

theorem Redacts.backward_one (h : Redacts stop fields before text (c :: out))
    (hkeep : ¬ Starts (Field fields) before (c :: out)) :
    ∃ text', text = c :: text' ∧ Redacts stop fields (some c) text' out := by
  generalize heq : c :: out = whole at h
  cases h with
  | done => cases heq
  | value hbefore hname _ _ _ => exact absurd ⟨hbefore, _, _, hname, heq⟩ hkeep
  | keep _ hrest =>
    obtain ⟨rfl, rfl⟩ := List.cons.inj heq
    exact ⟨_, rfl, hrest⟩

theorem Redacts.forward (hsilent : Silent (Field fields) before text rest)
    (h : Redacts stop fields before (text ++ rest) out) :
    ∃ out', out = text ++ out' ∧ Redacts stop fields (lastOf before text) rest out' := by
  induction text generalizing before out with
  | nil => exact ⟨out, rfl, h⟩
  | cons c text ih =>
    obtain ⟨out', rfl, hrest⟩ := h.forward_one hsilent.1
    obtain ⟨out, rfl, hout⟩ := ih hsilent.2 hrest
    exact ⟨out, rfl, (lastOf_cons before c text).symm ▸ hout⟩

theorem Redacts.backward (hsilent : Silent (Field fields) before out rest)
    (h : Redacts stop fields before text (out ++ rest)) :
    ∃ text', text = out ++ text' ∧ Redacts stop fields (lastOf before out) text' rest := by
  induction out generalizing before text with
  | nil => exact ⟨text, rfl, h⟩
  | cons c out ih =>
    obtain ⟨text', rfl, hrest⟩ := h.backward_one hsilent.1
    obtain ⟨text, rfl, htext⟩ := ih hsilent.2 hrest
    exact ⟨text, rfl, (lastOf_cons before c out).symm ▸ htext⟩

variable {names : Text → Prop} {name post : Text}

-- A name that begins at a character that stays is followed in the output by what becomes of the
-- text behind it.
theorem Redacts.name_forward (hinert : Inert fields names) (hname : names name)
    (h : Redacts stop fields (some c) rest out) (heq : c :: rest = name ++ '=' :: post) :
    ∃ post', c :: out = name ++ '=' :: post' ∧ Redacts stop fields (some '=') post post' := by
  obtain ⟨d, word, rfl, -⟩ := hinert.head name hname
  obtain ⟨rfl, hword⟩ := List.cons.inj heq
  rw [hword, show word.append ('=' :: post) = word ++ ['='] ++ post by simp] at h
  obtain ⟨post', rfl, hpost⟩ := Redacts.forward (hinert.silent c word post hname) h
  rw [lastOf_append] at hpost
  exact ⟨post', by rw [List.append_assoc]; rfl, hpost⟩

theorem Redacts.name_backward (hinert : Inert fields names) (hname : names name)
    (h : Redacts stop fields (some c) rest out) (heq : c :: out = name ++ '=' :: post) :
    ∃ post', c :: rest = name ++ '=' :: post' ∧ Redacts stop fields (some '=') post' post := by
  obtain ⟨d, word, rfl, -⟩ := hinert.head name hname
  obtain ⟨rfl, hword⟩ := List.cons.inj heq
  rw [hword, show word.append ('=' :: post) = word ++ ['='] ++ post by simp] at h
  obtain ⟨post', rfl, hpost⟩ := Redacts.backward (hinert.silent c word post hname) h
  rw [lastOf_append] at hpost
  exact ⟨post', by rw [List.append_assoc]; rfl, hpost⟩

theorem Redacts.starts_iff (hinert : Inert fields names)
    (h : Redacts stop fields (some c) rest out) :
    Starts names before (c :: rest) ↔ Starts names before (c :: out) := by
  constructor
  · rintro ⟨hbefore, name, post, hname, heq⟩
    obtain ⟨post', heq', -⟩ := h.name_forward hinert hname heq
    exact ⟨hbefore, name, post', hname, heq'⟩
  · rintro ⟨hbefore, name, post, hname, heq⟩
    obtain ⟨post', heq', -⟩ := h.name_backward hinert hname heq
    exact ⟨hbefore, name, post', hname, heq'⟩

theorem Redacts.head_stop (hfields : FieldNames fields)
    (h : Redacts stop fields before text out) :
    (∀ c ∈ text.head?, stop c = true) ↔ ∀ c ∈ out.head?, stop c = true := by
  cases h with
  | done => exact Iff.rfl
  | keep _ _ => exact Iff.rfl
  | value hbefore hname _ _ _ =>
    obtain ⟨c, word, rfl, hc⟩ := hfields.head hname
    exact Iff.rfl

end Relation

section Runs

variable {stop : Char → Bool} {value value' rest rest' : Text}

theorem unique_value (hvalue : ∀ c ∈ value, stop c = false) (hvalue' : ∀ c ∈ value', stop c = false)
    (hrest : ∀ c ∈ rest.head?, stop c = true) (hrest' : ∀ c ∈ rest'.head?, stop c = true)
    (heq : value ++ rest = value' ++ rest') : value = value' ∧ rest = rest' := by
  induction value generalizing value' with
  | nil =>
    cases value' with
    | nil => exact ⟨rfl, heq⟩
    | cons c value' =>
      have hc : stop c = true := hrest c (by rw [show rest = c :: (value' ++ rest') from heq]; rfl)
      exact absurd (hvalue' c (List.mem_cons_self ..)) (by rw [hc]; decide)
  | cons c value ih =>
    cases value' with
    | nil =>
      have hc : stop c = true := hrest' c (by rw [show rest' = c :: (value ++ rest) from heq.symm]; rfl)
      exact absurd (hvalue c (List.mem_cons_self ..)) (by rw [hc]; decide)
    | cons d value' =>
      obtain ⟨rfl, htail⟩ := List.cons.inj heq
      obtain ⟨rfl, hrests⟩ := ih (fun c hc => hvalue c (List.mem_cons_of_mem _ hc))
        (fun c hc => hvalue' c (List.mem_cons_of_mem _ hc)) htail
      exact ⟨rfl, hrests⟩

end Runs

end Evidence
