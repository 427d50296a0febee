import MeridianMcp.Dmm.Map

namespace Dmm

open MeridianMcp Effects Scanning

variable {C E : Type}

theorem base52_plain : ∀ digit < 52, base52.getD digit 0 ∉ ['\n', '\r', '\t', '/', '"'].map Char.toUInt8 := by
  decide +kernel

theorem display_some {key : Key} {keyLength : Nat} {shown : Bytes} (h : key.display keyLength = some shown) :
    shown = key.digits keyLength (52 ^ (keyLength - 1)) ∧ 0 < keyLength ∧ keyLength < 256 ∧
      key.val / 52 ^ keyLength = 0 := by
  unfold Key.display at h
  split at h
  · cases h
  · rename_i hlength
    obtain ⟨hzero, hbound⟩ := not_or.mp hlength
    split at h
    · cases h
    · rename_i hfits
      have hsmall : keyLength - 1 < 64 := by
        have hpow : 2 ^ (keyLength - 1) ≤ 52 ^ (keyLength - 1) := Nat.pow_le_pow_left (by decide) _
        have hlt : 2 ^ (keyLength - 1) < 2 ^ 64 := hpow.trans_lt (Nat.not_le.mp hbound)
        exact (Nat.pow_lt_pow_iff_right (by decide)).mp hlt
      refine ⟨(Option.some.inj h).symm, by omega, by omega, Nat.div_eq_of_lt ?_⟩
      by_cases hshort : keyLength < maxKeyLength
      · exact Nat.not_le.mp fun hle => hfits ⟨hshort, hle⟩
      · have hpow : 52 ^ 3 ≤ 52 ^ keyLength := Nat.pow_le_pow_right (by decide) (Nat.not_lt.mp hshort)
        have hkey := key.isLt
        omega

-- A key is read digit by digit; the reader is in the state `at` of what it has read so far.
theorem reads_digits {S : Type} {step : S → UInt8 → Except E (Next S)} {at' : Key → Nat → S} {bound : Nat}
    (hstep : ∀ before after length digit, digit < 52 → advanceKey before digit = some after → length < bound →
      step (at' before length) (base52.getD digit 0) = .ok (.going (at' after (length + 1))))
    {key before : Key} {left length : Nat} (hbefore : before.val = key.val / 52 ^ left)
    (hbound : length + left ≤ bound) :
    Consumes step (at' before length) (key.digits left (52 ^ (left - 1))) (at' key (length + left)) := by
  induction left generalizing before length with
  | zero =>
    rw [pow_zero, Nat.div_one] at hbefore
    obtain rfl := Fin.ext hbefore
    exact .nil _
  | succ left ih =>
    obtain ⟨after, hadvance, hafter⟩ := advanceKey_digit key (52 ^ left) (hbefore.trans (by rw [pow_succ]))
    have hrest := ih hafter (show length + 1 + left ≤ bound by omega)
    have hone := hstep before after length _ (Nat.mod_lt _ (by decide)) hadvance (by omega)
    rw [show length + (left + 1) = length + 1 + left by omega, Key.digits, Nat.add_sub_cancel]
    refine Consumes.cons hone ?_
    cases left with
    | zero => exact hrest
    | succ left =>
      rwa [Nat.add_sub_cancel, show 52 ^ left = 52 ^ (left + 1) / 52 by rw [pow_succ, Nat.mul_div_cancel _ (by decide)]]
        at hrest

section Dictionary

open DictionaryState

variable {constants : Constants C E} {s : DictionaryState C} {ch : UInt8} {bytes : Bytes}

theorem step_block (hch : ch ∉ ['\n', '\r', '\t'].map Char.toUInt8) (hcomment : s.inCommentLine = false)
    (hslash : ¬ (ch = '/'.toUInt8 ∧ s.commentTrigger = true ∧ s.inQuoteBlock = false)) :
    step constants s ch =
      block constants { s with commentTrigger := decide (ch = '/'.toUInt8 ∧ s.inQuoteBlock = false) } ch := by
  have hends : ¬ (ch = '\n'.toUInt8 ∨ ch = '\r'.toUInt8) := by
    rintro (rfl | rfl) <;> exact hch (by simp)
  have htab : ch ≠ '\t'.toUInt8 := by
    rintro rfl
    exact hch (by simp)
  rw [step, if_neg hends, if_neg (by simp [hcomment]), if_neg htab]
  split
  · rename_i hopens
    rw [if_neg fun htrigger => hslash ⟨hopens.1, htrigger, hopens.2⟩, decide_eq_true hopens]
  · rename_i hother
    rw [decide_eq_false hother]

-- How the reader copies, where each of the elements goes to what has been read.
theorem copies (I : DictionaryState C → Prop) (allowed : UInt8 → Prop)
    (hI : ∀ s trigger ch, I s → I { s.push ch with commentTrigger := trigger })
    (hquiet : ∀ s, I s → s.inCommentLine = false ∧ s.inQuoteBlock = false)
    (hblock : ∀ s ch, I s → allowed ch → block constants s ch = .ok (.going (s.push ch)))
    (htrigger : ∀ s trigger, I s → I { s with commentTrigger := trigger })
    (hallowed : ∀ ch ∈ bytes, ch ∉ ['\n', '\r', '\t'].map Char.toUInt8 ∧ allowed ch) (hs : I s)
    (huncommented : Uncommented s.commentTrigger bytes) :
    Consumes (step constants) s bytes
      { s with currDatum := s.currDatum ++ bytes, commentTrigger := slashed s.commentTrigger bytes } := by
  induction bytes generalizing s with
  | nil =>
    rw [List.append_nil]
    exact .nil s
  | cons ch bytes ih =>
    obtain ⟨hopens, hrest⟩ := huncommented
    obtain ⟨hch, hin⟩ := hallowed ch List.mem_cons_self
    obtain ⟨hcomment, hquote⟩ := hquiet s hs
    have hstep : step constants s ch =
        .ok (.going ({ s with commentTrigger := decide (ch = '/'.toUInt8) }.push ch)) := by
      rw [step_block hch hcomment fun h => hopens ⟨h.1, h.2.1⟩, hblock _ ch (htrigger s _ hs) hin]
      simp only [hquote, and_true]
    have hlater := ih (s := { s with commentTrigger := decide (ch = '/'.toUInt8) }.push ch)
      (fun ch' h => hallowed ch' (List.mem_cons_of_mem ch h)) (hI s _ ch hs) hrest
    have hread := Consumes.cons hstep hlater
    simp only [push, List.append_assoc, List.singleton_append] at hread
    exact hread

theorem copied_allowed {excluded : List Char} (h : Copied excluded bytes) :
    ∀ ch ∈ bytes, ch ∉ ['\n', '\r', '\t'].map Char.toUInt8 ∧ ch ∉ excluded.map Char.toUInt8 := by
  intro ch hch
  have hallowed := h.allowed ch hch
  rw [List.map_append, List.mem_append, not_or] at hallowed
  exact hallowed

theorem copies_path (hcomment : s.inCommentLine = false) (hquote : s.inQuoteBlock = false)
    (hdata : s.inDataBlock = true) (hvaredit : s.inVareditBlock = false) (hslash : s.commentTrigger = false)
    (h : Copied ['{', ',', ')'] bytes) :
    Consumes (step constants) s bytes
      { s with currDatum := s.currDatum ++ bytes, commentTrigger := slashed s.commentTrigger bytes } := by
  apply copies (fun s => s.inCommentLine = false ∧ s.inQuoteBlock = false ∧ s.inDataBlock = true ∧
    s.inVareditBlock = false) (fun ch => ch ∉ ['{', ',', ')'].map Char.toUInt8) (fun _ _ _ hs => hs)
    (fun _ hs => ⟨hs.1, hs.2.1⟩) ?_ (fun _ _ hs => hs) (copied_allowed h) ⟨hcomment, hquote, hdata, hvaredit⟩
    (hslash ▸ h.uncommented)
  rintro s ch ⟨-, -, hdata, hvaredit⟩ hallowed
  simp only [List.map_cons, List.map_nil, List.mem_cons, List.not_mem_nil, or_false, not_or] at hallowed
  obtain ⟨hbrace, hcomma, hparen⟩ := hallowed
  rw [block, if_pos hdata, inData, if_neg (by simp [hvaredit]), if_neg hbrace, if_neg hcomma, if_neg hparen]
  rfl

theorem copies_name (hcomment : s.inCommentLine = false) (hquote : s.inQuoteBlock = false)
    (hdata : s.inDataBlock = true) (hvaredit : s.inVareditBlock = true) (hskip : s.skipWhitespace = false)
    (hslash : s.commentTrigger = false) (h : Copied ['"', '=', ';', '}'] bytes) :
    Consumes (step constants) s bytes
      { s with currDatum := s.currDatum ++ bytes, commentTrigger := slashed s.commentTrigger bytes } := by
  apply copies (fun s => s.inCommentLine = false ∧ s.inQuoteBlock = false ∧ s.inDataBlock = true ∧
    s.inVareditBlock = true ∧ s.skipWhitespace = false) (fun ch => ch ∉ ['"', '=', ';', '}'].map Char.toUInt8)
    (fun _ _ _ hs => hs) (fun _ hs => ⟨hs.1, hs.2.1⟩) ?_ (fun _ _ hs => hs) (copied_allowed h)
    ⟨hcomment, hquote, hdata, hvaredit, hskip⟩ (hslash ▸ h.uncommented)
  rintro s ch ⟨-, hquote, hdata, hvaredit, hskip⟩ hallowed
  simp only [List.map_cons, List.map_nil, List.mem_cons, List.not_mem_nil, or_false, not_or] at hallowed
  obtain ⟨hquotes, hequals, hsemicolon, hbrace⟩ := hallowed
  have hsame : { s with skipWhitespace := false } = s := by rw [← hskip]
  rw [block, if_pos hdata, inData, if_pos hvaredit, if_neg (by simp [hquote]), inVaredit, if_neg (by simp [hskip]),
    hsame]
  dsimp only
  rw [if_neg hquotes, if_neg fun h => hequals h.1, if_neg hsemicolon, if_neg hbrace]
  rfl

-- The reader goes through a constant's text as the scan of it does.
structure Follows (q : Quoting) (s : DictionaryState C) : Prop where
  comment : s.inCommentLine = false
  data : s.inDataBlock = true
  varedit : s.inVareditBlock = true
  skip : s.skipWhitespace = false
  var : s.currVar ≠ []
  quoted : s.inQuoteBlock = q.quoted
  escaping : s.escaping = q.escaping
  slash : s.commentTrigger = q.slash

def quoting (s : DictionaryState C) (q : Quoting) : DictionaryState C :=
  { s with inQuoteBlock := q.quoted, escaping := q.escaping, commentTrigger := q.slash }

theorem follows_quoted {q q' : Quoting} (h : Follows q s) (hquoted : q.quoted = true)
    (hnext : q.next ch = some q') :
    ({ s with commentTrigger := false } : DictionaryState C).inQuote ch = (quoting s q').push ch := by
  have hin : s.inQuoteBlock = true := h.quoted.trans hquoted
  unfold Quoting.next at hnext
  unfold inQuote
  rw [if_pos hquoted] at hnext
  split at hnext
  · cases hnext
  · split at hnext
    · rename_i hbackslash
      cases hnext
      rw [if_pos hbackslash]
      simp [quoting, push, hin, hquoted]
    · rename_i hbackslash
      rw [if_neg hbackslash]
      split at hnext
      · rename_i hescaping
        cases hnext
        rw [if_pos (h.escaping.trans hescaping)]
        simp [quoting, push, hin, hquoted]
      · rename_i hescaping
        have hplain : s.escaping = false := h.escaping.trans (by simpa using hescaping)
        rw [if_neg (by simp [hplain])]
        split at hnext
        · rename_i hquote
          cases hnext
          rw [if_pos hquote]
          simp [quoting, push, hplain]
        · rename_i hquote
          cases hnext
          rw [if_neg hquote]
          simp [quoting, push, hin, hquoted, h.escaping]

theorem follows_plain {q q' : Quoting} (h : Follows q s) (hquoted : q.quoted = false)
    (hnext : q.next ch = some q') :
    ({ s with commentTrigger := decide (ch = '/'.toUInt8) } : DictionaryState C).inVaredit constants ch =
      .ok ((quoting s q').push ch) := by
  have hin : s.inQuoteBlock = false := h.quoted.trans hquoted
  have hskip : s.skipWhitespace = false := h.skip
  unfold Quoting.next at hnext
  split at hnext
  · cases hnext
  · rw [if_neg (by simp [hquoted])] at hnext
    split at hnext
    · cases hnext
    · rename_i hends
      simp only [List.map_cons, List.map_nil, List.mem_cons, List.not_mem_nil, or_false, not_or] at hends
      split at hnext
      · cases hnext
      · cases hnext
        rw [inVaredit, if_neg (by simp [hskip])]
        dsimp only
        split
        · rename_i hquote
          simp [quoting, push, hquote, h.escaping, hskip]
        · rename_i hquote
          rw [if_neg fun hequals => h.var hequals.2, if_neg hends.1, if_neg hends.2]
          simp [quoting, push, hquote, h.escaping, hin, hskip]

theorem follows_next {q q' : Quoting} (h : Follows q s) (hnext : q.next ch = some q') :
    step constants s ch = .ok (.going ((quoting s q').push ch)) ∧ Follows q' ((quoting s q').push ch) := by
  refine ⟨?_, ⟨h.comment, h.data, h.varedit, h.skip, h.var, rfl, rfl, rfl⟩⟩
  have hch : ch ∉ ['\n', '\r', '\t'].map Char.toUInt8 := by
    intro hch
    rw [Quoting.next, if_pos hch] at hnext
    cases hnext
  cases hquoted : q.quoted with
  | true =>
    have hin : s.inQuoteBlock = true := h.quoted.trans hquoted
    have hno : decide (ch = '/'.toUInt8 ∧ s.inQuoteBlock = false) = false := by simp [hin]
    rw [step_block hch h.comment (by simp [hin]), hno, block, if_pos h.data, inData, if_pos h.varedit, if_pos hin,
      follows_quoted h hquoted hnext]
    rfl
  | false =>
    have hin : s.inQuoteBlock = false := h.quoted.trans hquoted
    have hslash : ¬ (ch = '/'.toUInt8 ∧ s.commentTrigger = true ∧ s.inQuoteBlock = false) := by
      rintro ⟨hslash, htrigger, -⟩
      rw [Quoting.next, if_neg hch, if_neg (by simp [hquoted]), if_neg (by subst hslash; decide),
        if_pos ⟨hslash, h.slash.symm.trans htrigger⟩] at hnext
      cases hnext
    have hsame : decide (ch = '/'.toUInt8 ∧ s.inQuoteBlock = false) = decide (ch = '/'.toUInt8) := by simp [hin]
    rw [step_block hch h.comment hslash, hsame, block, if_pos h.data, inData, if_pos h.varedit,
      if_neg (by simp [hin]), follows_plain h hquoted hnext]
    rfl

-- By induction on the text, along the scan of it.
theorem copies_value {q q' : Quoting} (h : Follows q s) (hover : q.over bytes = some q') :
    Consumes (step constants) s bytes (quoting { s with currDatum := s.currDatum ++ bytes } q') := by
  induction bytes generalizing q s with
  | nil =>
    cases hover
    rw [List.append_nil, quoting, ← h.quoted, ← h.escaping, ← h.slash]
    exact .nil s
  | cons ch bytes ih =>
    obtain ⟨next, hnext, hover⟩ := Option.bind_eq_some_iff.mp hover
    obtain ⟨hstep, hfollows⟩ : step constants s ch = .ok (.going ((quoting s next).push ch)) ∧
        Follows next ((quoting s next).push ch) := follows_next h hnext
    have hread := Consumes.cons hstep (ih hfollows hover)
    simp only [push, quoting, List.append_assoc, List.singleton_append] at hread ⊢
    exact hread

-- Where the reader is in the dictionary: at which key, and behind which prefabs.
structure Place (C : Type) where
  keyLength : Nat
  dictionary : FinMap Key (List (Prefab C))
  key : Key
  length : Nat
  data : List (Prefab C)

namespace Place

def start (p : Place C) : DictionaryState C :=
  { new C with
    keyLength := p.keyLength
    dictionary := p.dictionary
    currKey := p.key
    currKeyLength := p.length
    currData := p.data
    inDataBlock := true }

def fab (p : Place C) (path : Text) (vars : IndexMap Text C) : DictionaryState C :=
  { p.start with currPrefab := ⟨path, vars⟩ }

def varedit (p : Place C) (path : Text) (vars : IndexMap Text C) (skip : Bool) : DictionaryState C :=
  { p.fab path vars with inVareditBlock := true, skipWhitespace := skip }

def assigned (p : Place C) (path : Text) (vars : IndexMap Text C) (name value : Bytes) (trigger : Bool) :
    DictionaryState C :=
  { p.varedit path vars false with currVar := name, currDatum := value, commentTrigger := trigger }

end Place

variable {p : Place C} {path : Text} {vars : IndexMap Text C} {skip trigger : Bool} {var : Text × C}

theorem utf8_eq_nil {text : Text} (h : utf8 text = []) : text = [] :=
  utf8_injective (h.trans utf8_nil.symm)

theorem utf8_break : utf8 ['\n', '\t'] = ['\n'.toUInt8, '\t'.toUInt8] := by decide

theorem utf8_equals : utf8 [' ', '=', ' '] = [' '.toUInt8, '='.toUInt8, ' '.toUInt8] := by decide

theorem utf8_close : utf8 ['\n', '\t', '}'] = ['\n'.toUInt8, '\t'.toUInt8, '}'.toUInt8] := by decide

-- A space that may be skipped matters to no other element.
theorem step_skip (hch : ch ∉ ['\n', '\r', '\t'].map Char.toUInt8) (hspace : ch ≠ ' '.toUInt8)
    (hcomment : s.inCommentLine = false) (hslash : s.commentTrigger = false) (hdata : s.inDataBlock = true)
    (hvaredit : s.inVareditBlock = true) (hquote : s.inQuoteBlock = false) :
    step constants s ch = step constants { s with skipWhitespace := false } ch := by
  have hno : ¬ (ch = '/'.toUInt8 ∧ s.commentTrigger = true ∧ s.inQuoteBlock = false) := by simp [hslash]
  rw [step_block hch hcomment hno, step_block (s := { s with skipWhitespace := false }) hch hcomment hno, block, block,
    if_pos hdata, if_pos hdata, inData, inData, if_pos hvaredit, if_pos hvaredit, if_neg (by simp [hquote]),
    if_neg (by simp [hquote]), inVaredit, inVaredit]
  simp only [hspace, and_false, if_false]

theorem reads_name (h : StorableVar constants var) :
    Consumes (step constants) (p.varedit path vars skip) (utf8 var.1)
      (p.assigned path vars [] (utf8 var.1) (slashed false (utf8 var.1))) := by
  have hread : Consumes (step constants) (p.varedit path vars false) (utf8 var.1)
      (p.assigned path vars [] (utf8 var.1) (slashed false (utf8 var.1))) :=
    copies_name rfl rfl rfl rfl rfl rfl h.copied
  intro rest
  rw [← hread rest]
  cases hname : utf8 var.1 with
  | nil => exact absurd (utf8_eq_nil hname) h.nonempty
  | cons ch bytes =>
    have hch := (copied_allowed h.copied ch (hname ▸ List.mem_cons_self)).1
    have hspace : ch ≠ ' '.toUInt8 := by
      rintro rfl
      exact h.start (by rw [hname]; rfl)
    rw [List.cons_append, scan, scan, step_skip hch hspace rfl rfl rfl rfl rfl]
    rfl

theorem trimmed_name (h : StorableVar constants var) :
    (utf8 var.1 ++ [' '.toUInt8]).rdropWhile isWhitespace = utf8 var.1 := by
  rw [List.rdropWhile_concat_pos _ _ _ (by decide), List.rdropWhile_eq_self_iff]
  intro hne hwhite
  rw [h.stop _ (List.getLast?_eq_getLast_of_ne_nil hne)] at hwhite
  cases hwhite

theorem reads_equals (h : StorableVar constants var) :
    Consumes (step constants) (p.assigned path vars [] (utf8 var.1) trigger) (utf8 [' ', '=', ' '])
      (p.assigned path vars (utf8 var.1) [] false) := by
  have hread : Consumes (step constants) (p.assigned path vars [] (utf8 var.1) trigger)
      [' '.toUInt8, '='.toUInt8, ' '.toUInt8]
      (p.assigned path vars ((utf8 var.1 ++ [' '.toUInt8]).rdropWhile isWhitespace) [] false) := fun _ => rfl
  rwa [trimmed_name h, ← utf8_equals] at hread

theorem reads_value (h : StorableVar constants var) :
    ∃ trigger, Consumes (step constants) (p.assigned path vars (utf8 var.1) [] false)
      (utf8 (constants.display var.2))
      (p.assigned path vars (utf8 var.1) (utf8 (constants.display var.2)) trigger) := by
  have hlegible := h.legible
  unfold legible at hlegible
  split at hlegible
  · rename_i q hover
    simp only [Bool.and_eq_true, Bool.not_eq_true'] at hlegible
    obtain ⟨hquoted, hescaping⟩ := hlegible
    have hfollows : Follows ⟨false, false, false⟩ (p.assigned path vars (utf8 var.1) [] false) :=
      ⟨rfl, rfl, rfl, rfl, fun hnil => h.nonempty (utf8_eq_nil hnil), rfl, rfl, rfl⟩
    have hread : Consumes (step constants) _ _ _ := copies_value hfollows hover
    rw [quoting, hquoted, hescaping] at hread
    exact ⟨q.slash, hread⟩
  · cases hlegible

-- A variable is in place when what follows its text is read.
theorem reads_var (h : StorableVar constants var) :
    ∃ trigger, Consumes (step constants) (p.varedit path vars skip)
      (utf8 ['\n', '\t'] ++ utf8 var.1 ++ utf8 [' ', '=', ' '] ++ utf8 (constants.display var.2))
      (p.assigned path vars (utf8 var.1) (utf8 (constants.display var.2)) trigger) := by
  have hbreak : Consumes (step constants) (p.varedit path vars skip) (utf8 ['\n', '\t'])
      (p.varedit path vars skip) := by
    rw [utf8_break]
    exact fun _ => rfl
  obtain ⟨trigger, hvalue⟩ : ∃ trigger, Consumes (step constants) (p.assigned path vars (utf8 var.1) [] false)
      (utf8 (constants.display var.2))
      (p.assigned path vars (utf8 var.1) (utf8 (constants.display var.2)) trigger) := reads_value h
  exact ⟨trigger, ((hbreak.append (reads_name h)).append (reads_equals h)).append hvalue⟩

theorem insert_var (h : StorableVar constants var) :
    (p.assigned path vars (utf8 var.1) (utf8 (constants.display var.2)) false).insertCurrentVar constants =
      .ok (p.varedit path (vars.insert var.1 var.2) false) := by
  have hevaluates : constants.evaluateStr
      (p.assigned path vars (utf8 var.1) (utf8 (constants.display var.2)) false).currDatum = .ok var.2 := h.evaluates
  rw [insertCurrentVar, hevaluates]
  dsimp only
  change Except.ok (p.varedit path (vars.insert (fromUtf8OrLatin1 (utf8 var.1)) var.2) false) = _
  rw [fromUtf8OrLatin1_utf8]

theorem reads_semicolon (h : StorableVar constants var) :
    Consumes (step constants) (p.assigned path vars (utf8 var.1) (utf8 (constants.display var.2)) trigger)
      (utf8 [';']) (p.varedit path (vars.insert var.1 var.2) true) := by
  have hstep : step constants (p.assigned path vars (utf8 var.1) (utf8 (constants.display var.2)) trigger)
      ';'.toUInt8 = Except.map Next.going
        ((p.assigned path vars (utf8 var.1) (utf8 (constants.display var.2)) false).insertCurrentVar constants >>=
          fun s => .ok { s with skipWhitespace := true }) := rfl
  rw [insert_var h] at hstep
  exact Consumes.one hstep

theorem reads_close (h : StorableVar constants var) :
    Consumes (step constants) (p.assigned path vars (utf8 var.1) (utf8 (constants.display var.2)) trigger)
      (utf8 ['\n', '\t', '}']) (p.fab path (vars.insert var.1 var.2)) := by
  have hvar : utf8 var.1 ≠ [] := fun hnil => h.nonempty (utf8_eq_nil hnil)
  have hstep : step constants (p.assigned path vars (utf8 var.1) (utf8 (constants.display var.2)) false)
      '}'.toUInt8 = Except.map Next.going
        (if utf8 var.1 ≠ [] then
          (p.assigned path vars (utf8 var.1) (utf8 (constants.display var.2)) false).insertCurrentVar constants >>=
            fun s => .ok { s with inVareditBlock := false }
        else .ok (p.assigned path vars (utf8 var.1) (utf8 (constants.display var.2)) false) >>=
            fun s => .ok { s with inVareditBlock := false }) := rfl
  rw [if_pos hvar, insert_var h] at hstep
  have hbreak : Consumes (step constants)
      (p.assigned path vars (utf8 var.1) (utf8 (constants.display var.2)) trigger) ['\n'.toUInt8, '\t'.toUInt8]
      (p.assigned path vars (utf8 var.1) (utf8 (constants.display var.2)) false) := fun _ => rfl
  rw [utf8_close]
  exact hbreak.append (Consumes.one hstep)

-- By induction on the variables that are still to be read.
theorem reads_vars {left : List (Text × C)} (hne : left ≠ []) (h : ∀ var ∈ left, StorableVar constants var)
    (hnodup : ((vars.entries ++ left).map Prod.fst).Nodup) :
    ∃ vars' : IndexMap Text C, vars'.entries = vars.entries ++ left ∧
      Consumes (step constants) (p.varedit path vars skip) (saveVars constants left ++ utf8 ['\n', '\t', '}'])
        (p.fab path vars') := by
  induction left generalizing vars skip with
  | nil => exact absurd rfl hne
  | cons var left ih =>
    have hstorable := h var List.mem_cons_self
    have hnew : var.1 ∉ vars.entries.map Prod.fst := by
      intro hmem
      rw [List.map_append, List.map_cons] at hnodup
      exact (List.nodup_append.mp hnodup).2.2 var.1 hmem var.1 List.mem_cons_self rfl
    have hentries := IndexMap.insert_new hnew var.2
    obtain ⟨trigger, hvar⟩ : ∃ trigger, Consumes (step constants) (p.varedit path vars skip)
        (utf8 ['\n', '\t'] ++ utf8 var.1 ++ utf8 [' ', '=', ' '] ++ utf8 (constants.display var.2))
        (p.assigned path vars (utf8 var.1) (utf8 (constants.display var.2)) trigger) := reads_var hstorable
    cases left with
    | nil => exact ⟨vars.insert var.1 var.2, hentries, hvar.append (reads_close hstorable)⟩
    | cons next left =>
      obtain ⟨vars', hentries', hrest⟩ : ∃ vars' : IndexMap Text C,
          vars'.entries = (vars.insert var.1 var.2).entries ++ next :: left ∧
            Consumes (step constants) (p.varedit path (vars.insert var.1 var.2) true)
              (saveVars constants (next :: left) ++ utf8 ['\n', '\t', '}']) (p.fab path vars') :=
        ih (by simp) (fun var' hmem => h var' (List.mem_cons_of_mem var hmem)) (by rwa [hentries, List.append_assoc])
      refine ⟨vars', by rw [hentries', hentries, List.append_assoc]; rfl, ?_⟩
      have hread := (hvar.append (reads_semicolon hstorable)).append hrest
      rw [← List.append_assoc] at hread
      exact hread

-- What the reader has at the end of a prefab, before it sees what comes next.
structure Completes (p : Place C) (fab : Prefab C) (s : DictionaryState C) : Prop where
  comment : s.inCommentLine = false
  quote : s.inQuoteBlock = false
  data : s.inDataBlock = true
  varedit : s.inVareditBlock = false
  pushed : ({ s with commentTrigger := false } : DictionaryState C).pushPrefab =
    ({ p with data := p.data ++ [fab] } : Place C).start

theorem reads_prefab {fab : Prefab C} (h : Storable constants fab) :
    ∃ s, Consumes (step constants) p.start (savePrefab constants fab) s ∧ Completes p fab s := by
  have hpath : Consumes (step constants) p.start (utf8 fab.path)
      { p.start with currDatum := utf8 fab.path, commentTrigger := slashed false (utf8 fab.path) } :=
    copies_path rfl rfl rfl rfl rfl h.path
  unfold savePrefab
  split
  · rename_i hempty
    rw [List.append_nil]
    refine ⟨_, hpath, ⟨rfl, rfl, rfl, rfl, ?_⟩⟩
    have hvars : fab.vars = .empty := IndexMap.ext_entries hempty
    obtain ⟨path, vars⟩ := fab
    obtain rfl : vars = .empty := hvars
    unfold pushPrefab
    split
    · rename_i hread
      change ({ p with data := p.data ++ [⟨fromUtf8OrLatin1 (utf8 path), .empty⟩] } : Place C).start = _
      rw [fromUtf8OrLatin1_utf8]
    · rename_i hread
      have hnil : utf8 path = [] := by
        by_contra hne
        exact hread ⟨rfl, hne⟩
      obtain rfl := utf8_eq_nil hnil
      rfl
  · rename_i hvars
    have hnodup : (((IndexMap.empty : IndexMap Text C).entries ++ fab.vars.entries).map Prod.fst).Nodup :=
      fab.vars.nodup
    obtain ⟨vars', hentries, hread⟩ : ∃ vars' : IndexMap Text C, vars'.entries = [] ++ fab.vars.entries ∧
        Consumes (step constants) (p.varedit fab.path .empty false)
          (saveVars constants fab.vars.entries ++ utf8 ['\n', '\t', '}']) (p.fab fab.path vars') :=
      reads_vars hvars h.vars hnodup
    obtain rfl : vars' = fab.vars := IndexMap.ext_entries hentries
    have hopen : Consumes (step constants)
        { p.start with currDatum := utf8 fab.path, commentTrigger := slashed false (utf8 fab.path) } (utf8 ['{'])
        (p.varedit (fromUtf8OrLatin1 (utf8 fab.path)) .empty false) := Consumes.one rfl
    rw [fromUtf8OrLatin1_utf8] at hopen
    refine ⟨_, hpath.append (hopen.append hread), ⟨rfl, rfl, rfl, rfl, ?_⟩⟩
    unfold pushPrefab
    rw [if_neg fun hdatum => hdatum.2 rfl]
    rfl

theorem reads_comma {fab : Prefab C} (h : Completes p fab s) :
    Consumes (step constants) s (utf8 [',', '\n']) ({ p with data := p.data ++ [fab] } : Place C).start := by
  have hbytes : utf8 [',', '\n'] = [','.toUInt8, '\n'.toUInt8] := by decide
  have hslash : decide (','.toUInt8 = '/'.toUInt8 ∧ s.inQuoteBlock = false) = false :=
    decide_eq_false fun h => absurd h.1 (by decide)
  have hstep : step constants s ','.toUInt8 = .ok (.going ({ p with data := p.data ++ [fab] } : Place C).start) := by
    rw [step_block (by decide) h.comment fun hslash => absurd hslash.1 (by decide), hslash, block, if_pos h.data,
      inData, if_neg (by simp [h.varedit]), if_neg (by decide), if_pos rfl, h.pushed]
    rfl
  rw [hbytes]
  exact Consumes.cons hstep fun _ => rfl

def outside (keyLength : Nat) (dictionary : FinMap Key (List (Prefab C))) (after : Bool) : DictionaryState C :=
  { new C with keyLength := keyLength, dictionary := dictionary, afterDataBlock := after }

theorem reads_paren {fab : Prefab C} (h : Completes p fab s) :
    Consumes (step constants) s (utf8 [')', '\n'])
      (outside p.keyLength (p.dictionary.insert p.key (p.data ++ [fab])) true) := by
  have hbytes : utf8 [')', '\n'] = [')'.toUInt8, '\n'.toUInt8] := by decide
  have hslash : decide (')'.toUInt8 = '/'.toUInt8 ∧ s.inQuoteBlock = false) = false :=
    decide_eq_false fun h => absurd h.1 (by decide)
  have hstep : step constants s ')'.toUInt8 =
      .ok (.going (outside p.keyLength (p.dictionary.insert p.key (p.data ++ [fab])) true)) := by
    rw [step_block (by decide) h.comment fun hslash => absurd hslash.1 (by decide), hslash, block, if_pos h.data,
      inData, if_neg (by simp [h.varedit]), if_neg (by decide), if_neg (by decide), if_pos rfl]
    dsimp only
    rw [h.pushed]
    rfl
  rw [hbytes]
  exact Consumes.cons hstep fun _ => rfl

theorem reads_prefabs {prefabs : List (Prefab C)} (hne : prefabs ≠ []) (h : ∀ fab ∈ prefabs, Storable constants fab) :
    Consumes (step constants) p.start (savePrefabs constants prefabs ++ utf8 [')', '\n'])
      (outside p.keyLength (p.dictionary.insert p.key (p.data ++ prefabs)) true) := by
  induction prefabs generalizing p with
  | nil => exact absurd rfl hne
  | cons fab prefabs ih =>
    obtain ⟨s, hfab, hcompletes⟩ : ∃ s, Consumes (step constants) p.start (savePrefab constants fab) s ∧
        Completes p fab s := reads_prefab (h fab List.mem_cons_self)
    cases prefabs with
    | nil => exact hfab.append (reads_paren hcompletes)
    | cons next prefabs =>
      have hrest := ih (p := { p with data := p.data ++ [fab] }) (by simp)
        fun fab' hmem => h fab' (List.mem_cons_of_mem fab hmem)
      rw [List.append_assoc, List.singleton_append] at hrest
      have hread := (hfab.append (reads_comma hcompletes)).append hrest
      rw [← List.append_assoc] at hread
      exact hread

def atKey (keyLength : Nat) (dictionary : FinMap Key (List (Prefab C))) (key : Key) (length : Nat) :
    DictionaryState C :=
  { new C with
    keyLength := keyLength
    dictionary := dictionary
    currKey := key
    currKeyLength := length
    inKeyBlock := true }

variable {keyLength known : Nat} {dictionary : FinMap Key (List (Prefab C))} {after : Bool} {key : Key}

theorem step_digit {before : Key} {length digit : Nat} (hdigit : digit < 52)
    (hadvance : advanceKey before digit = some key) (hlength : length < 255) :
    step constants (atKey keyLength dictionary before length) (base52.getD digit 0) =
      .ok (.going (atKey keyLength dictionary key (length + 1))) := by
  have hplain := base52_plain digit hdigit
  simp only [List.map_cons, List.map_nil, List.mem_cons, List.not_mem_nil, or_false, not_or] at hplain
  obtain ⟨hfeed, hreturn, htab, hslash, hquote⟩ := hplain
  rw [step, if_neg (not_or.mpr ⟨hfeed, hreturn⟩), if_neg (by simp [atKey, new]), if_neg htab,
    if_neg fun h => hslash h.1]
  change Except.map Next.going ((atKey keyLength dictionary before length).inKey (base52.getD digit 0)) = _
  have hcurrent : (atKey keyLength dictionary before length).currKey = before := rfl
  have hcount : (atKey keyLength dictionary before length).currKeyLength + 1 < 256 := Nat.succ_lt_succ hlength
  rw [inKey, if_neg hquote, base52_reverse_digit digit hdigit]
  dsimp only
  rw [hcurrent, hadvance]
  dsimp only
  rw [if_pos hcount]
  rfl

-- The first key fixes the length of the keys.
theorem reads_key {shown : Bytes} (h : key.display keyLength = some shown) (hknown : known = 0 ∨ known = keyLength) :
    Consumes (step constants) (outside known dictionary after)
      (utf8 ['"'] ++ shown ++ utf8 ['"', ' ', '=', ' ', '(', '\n'])
      (⟨keyLength, dictionary, key, keyLength, []⟩ : Place C).start := by
  obtain ⟨rfl, -, hshort, hdone⟩ := display_some h
  have hopen : Consumes (step constants) (outside known dictionary after) (utf8 ['"']) (atKey known dictionary .first 0) :=
    Consumes.one rfl
  have hdigits : Consumes (step constants) (atKey known dictionary .first 0)
      (key.digits keyLength (52 ^ (keyLength - 1))) (atKey known dictionary key (0 + keyLength)) :=
    reads_digits (fun _ _ _ _ => step_digit) hdone.symm (by omega)
  rw [Nat.zero_add] at hdigits
  have hbytes : utf8 ['"', ' ', '=', ' ', '(', '\n'] =
      ['"'.toUInt8, ' '.toUInt8, '='.toUInt8, ' '.toUInt8, '('.toUInt8, '\n'.toUInt8] := by decide
  have hclose : step constants (atKey known dictionary key keyLength) '"'.toUInt8 =
      Except.map Next.going (if known = 0 ∨ known = keyLength then
        .ok { atKey known dictionary key keyLength with inKeyBlock := false, keyLength := keyLength }
      else .error .panicked) := rfl
  rw [if_pos hknown] at hclose
  refine (hopen.append hdigits).append ?_
  rw [hbytes]
  exact Consumes.cons hclose fun _ => rfl

theorem reads_entry {entry : Key × List (Prefab C)} {piece : Bytes}
    (hpiece : saveEntry constants keyLength entry = some piece) (hknown : known = 0 ∨ known = keyLength)
    (hne : entry.2 ≠ []) (h : ∀ fab ∈ entry.2, Storable constants fab) :
    Consumes (step constants) (outside known dictionary after) piece
      (outside keyLength (FinMap.insertPair dictionary entry) true) := by
  obtain ⟨shown, hshown, rfl⟩ := Option.map_eq_some_iff.mp hpiece
  have hkey : Consumes (step constants) (outside known dictionary after)
      (utf8 ['"'] ++ shown ++ utf8 ['"', ' ', '=', ' ', '(', '\n'])
      (⟨keyLength, dictionary, entry.1, keyLength, []⟩ : Place C).start := reads_key hshown hknown
  have hread := hkey.append (reads_prefabs hne h)
  rw [← List.append_assoc] at hread
  exact hread

theorem reads_entries {entries : List (Key × List (Prefab C))} {pieces : List Bytes}
    (hpieces : entries.mapM (saveEntry constants keyLength) = some pieces) (hknown : known = 0 ∨ known = keyLength)
    (hentries : entries ≠ []) (h : ∀ entry ∈ entries, entry.2 ≠ [] ∧ ∀ fab ∈ entry.2, Storable constants fab) :
    Consumes (step constants) (outside known dictionary after) pieces.flatten
      (outside keyLength (entries.foldl FinMap.insertPair dictionary) true) := by
  induction entries generalizing pieces known dictionary after with
  | nil => exact absurd rfl hentries
  | cons entry entries ih =>
    rw [List.mapM_cons] at hpieces
    obtain ⟨piece, hpiece, hrest⟩ := Option.bind_eq_some_iff.mp hpieces
    obtain ⟨later, hlater, hdone⟩ := Option.bind_eq_some_iff.mp hrest
    obtain rfl : piece :: later = pieces := Option.some.inj hdone
    obtain ⟨hne, hstorable⟩ := h entry List.mem_cons_self
    have hread : Consumes (step constants) (outside known dictionary after) piece
        (outside keyLength (FinMap.insertPair dictionary entry) true) := reads_entry hpiece hknown hne hstorable
    rw [List.flatten_cons]
    cases entries with
    | nil =>
      rw [List.mapM_nil] at hlater
      cases hlater
      rwa [List.flatten_nil, List.append_nil]
    | cons next entries =>
      exact hread.append (ih hlater (.inr rfl) (List.cons_ne_nil next entries)
        fun entry' hmem => h entry' (List.mem_cons_of_mem entry hmem))

end Dictionary

end Dmm
