import MeridianMcp.Delimited
import MeridianMcp.Evidence.Redacts

namespace Evidence

open MeridianMcp

section Silence

variable {names : Text → Prop} {fields : List Text} {before : Option Char} {name out rest : Text}

theorem marker_silent
    (hhead : ∀ name, names name → ∃ c rest, name = c :: rest ∧ wordCharacter c = true)
    (hclose : ∀ name, names name → '>' ∉ name) :
    Silent names before redactionMarker rest := by
  have hopen : ¬ Starts names before ('<' :: ("redacted>".toList ++ rest)) :=
    not_starts_of_head hhead (by decide)
  have hword : ¬ Starts names (some '<') ("redacted>".toList ++ rest) := by
    rintro ⟨-, name, post, hname, heq⟩
    rcases List.append_eq_append_iff.mp heq with ⟨more, rfl, -⟩ | ⟨more, hbefore, htail⟩
    · exact hclose _ hname (by simp)
    · cases more with
      | nil => exact hclose _ hname (by rw [← List.append_nil name, ← hbefore]; decide)
      | cons d more =>
        obtain ⟨rfl, -⟩ := List.cons.inj htail
        exact absurd (show '=' ∈ "redacted>".toList by rw [hbefore]; simp) (by decide)
  have hinside : Silent names (some 'r') ("edacted".toList ++ ['>']) rest := by
    refine silent_append.mpr ⟨silent_word (by decide) (List.all_eq_true.mp (by decide)), ?_⟩
    exact ⟨not_starts_of_head hhead (by decide), trivial⟩
  exact ⟨hopen, hword, hinside⟩

theorem value_silent (hfields : FieldNames fields) (hname : Field fields name)
    (hhead : ∀ name, names name → ∃ c rest, name = c :: rest ∧ wordCharacter c = true)
    (hclose : ∀ name, names name → '>' ∉ name)
    (hnot : ¬ Starts names before (name ++ '=' :: (redactionMarker ++ out))) :
    Silent names before (name ++ '=' :: redactionMarker) out := by
  obtain ⟨c, word, rfl, hc⟩ := hfields.head hname
  have hword := hfields.word hname
  refine silent_append.mpr ⟨⟨hnot, ?_⟩, not_starts_of_head hhead sign_not_word, ?_⟩
  · exact silent_word hc fun d hd => hword d (List.mem_cons_of_mem _ hd)
  · exact marker_silent hhead hclose

theorem lastOf_value : lastOf before (name ++ '=' :: redactionMarker) = some '>' := by
  rw [lastOf_append, lastOf_cons]
  rfl

theorem FieldNames.close_not_mem (h : FieldNames fields) (hname : Field fields name) : '>' ∉ name :=
  fun hin => absurd (h.word hname _ hin) (by decide)

end Silence

section Once

variable {stop : Char → Bool} {fields fields' : List Text} {before : Option Char}
  {text mid out out' value rest : Text}

theorem Redacts.unique (hfields : FieldNames fields) (h : Redacts stop fields before text out)
    (h' : Redacts stop fields before text out') : out = out' := by
  induction h generalizing out' with
  | done => exact h'.of_nil.symm
  | @value before name value rest out hbefore hname hvalue hstop _ ih =>
    generalize heq : name ++ '=' :: (value ++ rest) = whole at h'
    cases h' with
    | done => simp at heq
    | value _ hname' hvalue' hstop' hrest' =>
      obtain ⟨rfl, hpost⟩ := Delimited.unique_stop (hfields.sign_not_mem hname)
        (hfields.sign_not_mem hname') heq
      obtain ⟨rfl, rfl⟩ := unique_value hvalue hvalue' hstop hstop' hpost
      rw [ih hrest']
    | keep hkeep _ => exact absurd ⟨hbefore, name, _, hname, heq.symm⟩ hkeep
  | keep hkeep _ ih =>
    obtain ⟨out', rfl, hout'⟩ := h'.forward_one hkeep
    rw [ih hout']

theorem Redacts.fixed (hstops : Stops stop) (hfields : FieldNames fields)
    (h : Redacts stop fields before text out) : Redacts stop fields before out out := by
  induction h with
  | done before => exact .done before
  | value hbefore hname _ hstop hrest ih =>
    exact .value hbefore hname hstops.marker ((hrest.head_stop hfields).mp hstop) ih
  | keep hkeep hrest ih =>
    exact .keep (fun hstarts => hkeep ((hrest.starts_iff (hfields.inert hfields)).mpr hstarts)) ih

theorem Redacts.value_backward (hstops : Stops stop) (hfields : FieldNames fields)
    (h : Redacts stop fields before text (value ++ rest)) (hvalue : ∀ c ∈ value, stop c = false)
    (hrest : ∀ c ∈ rest.head?, stop c = true) :
    ∃ value' rest', text = value' ++ rest' ∧ (∀ c ∈ value', stop c = false) ∧
      (∀ c ∈ rest'.head?, stop c = true) ∧ Redacts stop fields (some '>') rest' rest := by
  generalize heq : value ++ rest = out at h
  induction h generalizing value with
  | done =>
    obtain ⟨rfl, rfl⟩ := List.append_eq_nil_iff.mp heq
    exact ⟨[], [], rfl, nofun, nofun, .done _⟩
  | @value before name value' rest' out hbefore hname hvalue' hstop hrest' =>
    have hwhole : ∀ c ∈ name ++ '=' :: redactionMarker, stop c = false := by
      intro c hc
      rcases List.mem_append.mp hc with hc | hc
      · exact hstops.word c (hfields.word hname c hc)
      rcases List.mem_cons.mp hc with rfl | hc
      · exact hstops.sign
      · exact hstops.marker c hc
    rw [show name ++ '=' :: (redactionMarker ++ out) = (name ++ '=' :: redactionMarker) ++ out by
      simp] at heq
    obtain ⟨-, rfl⟩ := unique_value hvalue hwhole hrest ((hrest'.head_stop hfields).mp hstop) heq
    refine ⟨name ++ '=' :: value', rest', by simp, fun c hc => ?_, hstop, hrest'⟩
    rcases List.mem_append.mp hc with hc | hc
    · exact hstops.word c (hfields.word hname c hc)
    rcases List.mem_cons.mp hc with rfl | hc
    · exact hstops.sign
    · exact hvalue' c hc
  | @keep before c rest' out hkeep hrest' ih =>
    cases value with
    | nil =>
      obtain rfl : rest = c :: out := heq
      have hc : stop c = true := hrest c rfl
      have hword : wordCharacter c = false := by
        cases hword : wordCharacter c with
        | false => rfl
        | true => exact absurd (hstops.word c hword) (by rw [hc]; decide)
      refine ⟨[], c :: rest', rfl, nofun, hrest, .keep ?_ hrest'⟩
      exact not_starts_of_head (fun _ => hfields.head) hword
    | cons d value =>
      obtain ⟨rfl, htail⟩ := List.cons.inj heq
      obtain ⟨value', rest'', rfl, hvalue', hrest'', hredacts⟩ :=
        ih (fun c hc => hvalue c (List.mem_cons_of_mem _ hc)) htail
      exact ⟨d :: value', rest'', rfl,
        List.forall_mem_cons.mpr ⟨hvalue d (List.mem_cons_self ..), hvalue'⟩, hrest'', hredacts⟩

theorem field_append {name : Text} :
    Field (fields ++ fields') name ↔ Field fields name ∨ Field fields' name := List.mem_append

theorem starts_append :
    Starts (Field (fields ++ fields')) before text ↔
      Starts (Field fields) before text ∨ Starts (Field fields') before text := by
  constructor
  · rintro ⟨hbefore, name, rest, hname, heq⟩
    rcases field_append.mp hname with hname | hname
    · exact Or.inl ⟨hbefore, name, rest, hname, heq⟩
    · exact Or.inr ⟨hbefore, name, rest, hname, heq⟩
  · rintro (⟨hbefore, name, rest, hname, heq⟩ | ⟨hbefore, name, rest, hname, heq⟩)
    · exact ⟨hbefore, name, rest, field_append.mpr (Or.inl hname), heq⟩
    · exact ⟨hbefore, name, rest, field_append.mpr (Or.inr hname), heq⟩

-- Redacting further fields in what the first ones left is redacting all of them at once.
theorem Redacts.trans (hstops : Stops stop) (hfields : FieldNames fields)
    (hfields' : FieldNames fields') (hdisjoint : fields.Disjoint fields')
    (h : Redacts stop fields before text mid) (h' : Redacts stop fields' before mid out) :
    Redacts stop (fields ++ fields') before text out := by
  obtain ⟨n, hn⟩ : ∃ n, text.length ≤ n := ⟨_, Nat.le_refl _⟩
  induction n generalizing before text mid out with
  | zero =>
    obtain rfl := List.length_eq_zero_iff.mp (Nat.le_zero.mp hn)
    obtain rfl := h.of_nil
    obtain rfl := h'.of_nil
    exact .done before
  | succ n ih =>
    cases h with
    | done =>
      obtain rfl := h'.of_nil
      exact .done before
    | @value _ name value rest mid hbefore hname hvalue hstop hrest =>
      have hnot : ¬ Starts (Field fields') before (name ++ '=' :: (redactionMarker ++ mid)) := by
        rintro ⟨-, name', post, hname', heq⟩
        obtain ⟨rfl, -⟩ := Delimited.unique_stop (hfields.sign_not_mem hname)
          (hfields'.sign_not_mem hname') heq
        exact hdisjoint hname hname'
      have hsilent := value_silent hfields hname (fun _ => hfields'.head)
        (fun _ => hfields'.close_not_mem) hnot
      rw [show name ++ '=' :: (redactionMarker ++ mid) = (name ++ '=' :: redactionMarker) ++ mid by
        simp] at h'
      obtain ⟨out, rfl, hout⟩ := Redacts.forward hsilent h'
      rw [lastOf_value] at hout
      have hlength : rest.length ≤ n := by
        simp only [List.length_append, List.length_cons] at hn
        omega
      rw [List.append_assoc]
      exact .value hbefore (field_append.mpr (Or.inl hname)) hvalue hstop (ih hrest hout hlength)
    | @keep _ c rest mid hkeep hrest =>
      have hlength : rest.length ≤ n := Nat.le_of_succ_le_succ hn
      by_cases hstarts : Starts (Field fields') before (c :: mid)
      · generalize heq : c :: mid = whole at h'
        cases h' with
        | done => cases heq
        | keep hkeep' _ => exact absurd (heq ▸ hstarts) hkeep'
        | @value _ name value rest' out hbefore hname hvalue hstop hrest' =>
          obtain ⟨post, heq', hpost⟩ := hrest.name_backward (hfields.inert hfields') hname heq
          obtain ⟨value', rest'', rfl, hvalue', hstop', hredacts⟩ :=
            hpost.value_backward hstops hfields hvalue hstop
          have hlength' : rest''.length ≤ n := by
            have := congrArg List.length heq'
            simp only [List.length_append, List.length_cons] at this hn
            omega
          rw [heq']
          exact .value hbefore (field_append.mpr (Or.inr hname)) hvalue' hstop'
            (ih hredacts hrest' hlength')
      · obtain ⟨out, rfl, hout⟩ := h'.forward_one hstarts
        refine .keep (fun h => ?_) (ih hrest hout hlength)
        rcases starts_append.mp h with h | h
        · exact hkeep h
        · exact hstarts ((hrest.starts_iff (hfields.inert hfields')).mp h)

end Once

section Fields

variable {stop : Char → Bool} {isWhitespace : Char → Bool} {field : Text} {before : Option Char}
  {text : Text}

theorem of_toLower_eq {c d : Char} (hd : d.toNat < 97) (h : c.toLower = d) : c = d := by
  have hcode := congrArg Char.toNat h
  rw [toNat_toLower] at hcode
  apply Char.toNat_inj.mp
  split at hcode
  · omega
  · exact hcode

theorem marker_prefix_iff :
    (field ++ ['=']).isPrefixOf (text.map Char.toLower) = true ↔
      ∃ name rest, Field [field] name ∧ text = name ++ '=' :: rest := by
  rw [List.isPrefixOf_iff_prefix]
  constructor
  · rintro ⟨lowered, heq⟩
    rw [List.append_assoc] at heq
    obtain ⟨name, tail, rfl, hname, htail⟩ := List.map_eq_append_iff.mp heq.symm
    obtain ⟨c, rest, rfl, hc, -⟩ := List.map_eq_cons_iff.mp htail
    obtain rfl := of_toLower_eq (by decide) hc
    exact ⟨name, rest, List.mem_singleton.mpr hname, rfl⟩
  · rintro ⟨name, rest, hname, rfl⟩
    rw [← List.mem_singleton.mp hname, List.map_append, List.map_cons]
    exact ⟨rest.map Char.toLower, by rw [List.append_assoc]; rfl⟩

theorem split_marker {name post : Text} (hname : Field [field] name) :
    (name ++ '=' :: post).take (field ++ ['=']).length = name ++ ['='] ∧
      (name ++ '=' :: post).drop (field ++ ['=']).length = post := by
  have hlength : (field ++ ['=']).length = (name ++ ['=']).length := by
    rw [← List.mem_singleton.mp hname, List.length_append, List.length_append, List.length_map]
  rw [hlength, show name ++ '=' :: post = name ++ ['='] ++ post by simp]
  exact ⟨List.take_left, List.drop_left⟩

theorem starts_field_iff :
    Starts (Field [field]) before text ↔
      ((field ++ ['=']).isPrefixOf (text.map Char.toLower) && !(before.any wordCharacter)) = true := by
  rw [Bool.and_eq_true, Bool.not_eq_true', marker_prefix_iff]
  exact and_comm

theorem redactField_value {name post : Text} (fuel : Nat)
    (hbefore : before.any wordCharacter = false) (hname : Field [field] name) :
    redactField isWhitespace (field ++ ['=']) (fuel + 1) before (name ++ '=' :: post) =
      (name ++ '=' :: (redactionMarker ++ (redactField isWhitespace (field ++ ['=']) fuel (some '>')
          (post.dropWhile (!delimiter isWhitespace ·))).1),
        (redactField isWhitespace (field ++ ['=']) fuel (some '>')
          (post.dropWhile (!delimiter isWhitespace ·))).2 + 1) := by
  have hstarts : Starts (Field [field]) before (name ++ '=' :: post) := ⟨hbefore, name, post, hname, rfl⟩
  obtain ⟨htake, hdrop⟩ := @split_marker _ _ post hname
  generalize heq : name ++ '=' :: post = text at *
  cases text with
  | nil => simp at heq
  | cons c rest =>
    rw [redactField, if_pos (starts_field_iff.mp hstarts), htake, hdrop]
    simp only [List.append_assoc, List.cons_append, List.nil_append]

theorem redactField_keep {c : Char} {rest : Text} (fuel : Nat)
    (hkeep : ¬ Starts (Field [field]) before (c :: rest)) :
    redactField isWhitespace (field ++ ['=']) (fuel + 1) before (c :: rest) =
      (c :: (redactField isWhitespace (field ++ ['=']) fuel (some c) rest).1,
        (redactField isWhitespace (field ++ ['=']) fuel (some c) rest).2) := by
  rw [redactField, if_neg fun h => hkeep (starts_field_iff.mpr h)]

theorem length_dropWhile_post {name post : Text} (p : Char → Bool) :
    (post.dropWhile p).length < (name ++ '=' :: post).length := by
  have := (post.dropWhile_sublist p).length_le
  simp only [List.length_append, List.length_cons]
  omega

theorem redactField_redacts {fuel : Nat} (hfuel : text.length < fuel) :
    Redacts (delimiter isWhitespace) [field] before text
      (redactField isWhitespace (field ++ ['=']) fuel before text).1 := by
  induction fuel generalizing before text with
  | zero => exact absurd hfuel (Nat.not_lt_zero _)
  | succ fuel ih =>
    cases text with
    | nil => exact .done before
    | cons c rest =>
      by_cases hstarts : Starts (Field [field]) before (c :: rest)
      · obtain ⟨hbefore, name, post, hname, heq⟩ := hstarts
        rw [heq] at hfuel ⊢
        have hlength := @length_dropWhile_post name post (!delimiter isWhitespace ·)
        have hrest := @ih (some '>') _ (Nat.lt_of_lt_of_le hlength (Nat.le_of_lt_succ hfuel))
        have hvalue : ∀ d ∈ post.takeWhile (!delimiter isWhitespace ·),
            delimiter isWhitespace d = false := by
          intro d hd
          have hpass := @List.all_takeWhile _ (!delimiter isWhitespace ·) post
          exact (Bool.not_eq_true' _).mp (List.all_eq_true.mp hpass d hd)
        have hstop : ∀ d ∈ (post.dropWhile (!delimiter isWhitespace ·)).head?,
            delimiter isWhitespace d = true := by
          intro d hd
          have hnot := List.head?_dropWhile_not (!delimiter isWhitespace ·) post
          rw [Option.mem_def.mp hd] at hnot
          exact (Bool.not_eq_false' _).mp hnot
        have hredacts := Redacts.value hbefore hname hvalue hstop hrest
        rw [List.takeWhile_append_dropWhile] at hredacts
        rw [redactField_value fuel hbefore hname]
        exact hredacts
      · rw [redactField_keep fuel hstarts]
        exact .keep hstarts (ih (Nat.lt_of_succ_lt_succ hfuel))

theorem protectedFields_names : FieldNames protectedFields := by
  have hwords : protectedFields.all (fun field => field ≠ [] && field.all wordCharacter) = true := by
    decide
  intro field hfield
  simpa using List.all_eq_true.mp hwords field hfield

theorem protectedFields_nodup : protectedFields.Nodup := by decide

-- Each pass over one more field of the list adds that field to those redacted at once.
theorem foldl_redacts {fields done : List Text} {state : Text × Nat}
    (hstops : Stops (delimiter isWhitespace)) (hnames : FieldNames (done ++ fields))
    (hnodup : (done ++ fields).Nodup)
    (h : Redacts (delimiter isWhitespace) done none text state.1) :
    Redacts (delimiter isWhitespace) (done ++ fields) none text
      (fields.foldl (fun state field =>
        let redacted := redactField isWhitespace (field ++ ['=']) (state.1.length + 1) none state.1
        (redacted.1, state.2 + redacted.2)) state).1 := by
  induction fields generalizing done state with
  | nil =>
    rw [List.append_nil]
    exact h
  | cons field fields ih =>
    have hwhole : done ++ field :: fields = (done ++ [field]) ++ fields := by simp
    rw [hwhole] at hnames hnodup ⊢
    have hdone : FieldNames done := fun name hname => hnames name (by simp [hname])
    have hfield : FieldNames [field] := by
      intro name hname
      rw [List.mem_singleton.mp hname]
      exact hnames field (by simp)
    have hdisjoint : done.Disjoint [field] := by
      intro name hname hin
      rw [List.mem_singleton.mp hin] at hname
      exact (List.nodup_append.mp (List.nodup_append.mp hnodup).1).2.2 field hname field
        (List.mem_singleton_self field) rfl
    have hnext := @redactField_redacts isWhitespace field none state.1 _ (Nat.lt_succ_self _)
    exact ih hnames hnodup (Redacts.trans hstops hdone hfield hdisjoint h hnext)

theorem redacts_nothing {stop : Char → Bool} : Redacts stop [] before text text := by
  induction text generalizing before with
  | nil => exact .done before
  | cons c text ih => exact .keep (fun ⟨_, _, _, hname, _⟩ => nomatch hname) ih

theorem sanitizeText_redacts (hstops : Stops (delimiter isWhitespace)) (text : Text) :
    Redacts (delimiter isWhitespace) protectedFields none text (sanitizeText isWhitespace text).1 :=
  @foldl_redacts _ _ _ [] _ hstops protectedFields_names protectedFields_nodup redacts_nothing

end Fields

end Evidence
