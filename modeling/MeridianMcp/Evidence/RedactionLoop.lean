import MeridianMcp.ByteOffsets
import MeridianMcp.Evidence.RedactedOnce

namespace Evidence

open MeridianMcp Machine

def behindWord (result : Text) (start : Nat) : Run Empty Bool :=
  if 0 < start then do
    let byte ← index (utf8 result) (start - 1)
    pure (isAsciiAlphanumeric byte || byte = 95)
  else pure false

-- The rounds of one field over the text, with its byte offsets and the panics of a slice that
-- does not fall on characters.
def redactRounds (isWhitespace : Char → Bool) (marker : Text) :
    Nat → Text → Nat → Nat → Run Empty (Text × Nat)
  | 0, _, _, _ => .error .unfinished
  | rounds + 1, result, cursor, count => do
    let rest ← sliceFrom result cursor
    match find marker (toAsciiLowercase rest) with
    | none => pure (result, count)
    | some offset =>
      let start := cursor + offset
      if ← behindWord result start then
        redactRounds isWhitespace marker rounds result (start + 1) count
      else
        let valueStart := start + (utf8 marker).length
        let value ← sliceFrom result valueStart
        let stop := ((findChar (delimiter isWhitespace) value).map (valueStart + ·)).getD
          (utf8 result).length
        let result ← replaceRange result valueStart stop redactionMarker
        redactRounds isWhitespace marker rounds result
          (valueStart + (utf8 redactionMarker).length) (count + 1)

def sanitizeOffsets (isWhitespace : Char → Bool) (text : Text) : Run Empty (Text × Nat) :=
  protectedFields.foldlM
    (fun state field =>
      redactRounds isWhitespace (field ++ ['=']) (state.1.length + 1) state.1 0 state.2)
    (text, 0)

section Rounds

variable {isWhitespace : Char → Bool} {field : Text} {rest : Text}

theorem wordByte_eq {c : Char} {byte : UInt8}
    (h : 0x80 ≤ c.toNat ∧ 0x80 ≤ byte.toNat ∨ c.toNat < 0x80 ∧ byte.toNat = c.toNat) :
    (isAsciiAlphanumeric byte || byte = 95) = wordCharacter c := by
  have hunder : byte = 95 ↔ byte.toNat = 95 := UInt8.toNat_inj.symm
  rw [Bool.eq_iff_iff, wordCharacter_iff]
  simp only [isAsciiAlphanumeric, Bool.or_eq_true, Bool.and_eq_true, decide_eq_true_eq, hunder]
  omega

theorem behindWord_append (text rest : Text) :
    behindWord (text ++ rest) (utf8 text).length = .ok ((lastOf none text).any wordCharacter) := by
  rcases List.eq_nil_or_concat text with rfl | ⟨text, c, rfl⟩
  · rfl
  · obtain ⟨byte, hbyte, hlast⟩ := @index_last Empty text rest c
    have hpos : 0 < (utf8 (text ++ [c])).length := by
      have hsize := c.utf8Size_pos
      rw [utf8_append, List.length_append, length_utf8_cons]
      omega
    rw [List.concat_eq_append, behindWord, if_pos hpos, hbyte, lastOf_append]
    exact congrArg Except.ok (wordByte_eq hlast)

theorem find_none (h : find (field ++ ['=']) (toAsciiLowercase rest) = none) (fuel : Nat)
    (before : Option Char) : redactField isWhitespace (field ++ ['=']) fuel before rest = (rest, 0) := by
  induction rest generalizing fuel before with
  | nil => cases fuel <;> rfl
  | cons c rest ih =>
    cases fuel with
    | zero => rfl
    | succ fuel =>
      rw [toAsciiLowercase, List.map_cons, find, ← List.map_cons] at h
      split at h
      · cases h
      · rename_i hmiss
        have hkeep : ¬ Starts (Field [field]) before (c :: rest) :=
          fun hstarts => hmiss (marker_prefix_iff.mpr hstarts.2)
        rw [redactField_keep fuel hkeep, ih (Option.map_eq_none_iff.mp h)]

theorem find_some {offset : Nat} (h : find (field ++ ['=']) (toAsciiLowercase rest) = some offset) :
    ∃ skipped name post, rest = skipped ++ (name ++ '=' :: post) ∧ Field [field] name ∧
      offset = (utf8 skipped).length ∧ ∀ fuel before,
        redactField isWhitespace (field ++ ['=']) (skipped.length + fuel) before rest =
          (skipped ++ (redactField isWhitespace (field ++ ['=']) fuel (lastOf before skipped)
              (name ++ '=' :: post)).1,
            (redactField isWhitespace (field ++ ['=']) fuel (lastOf before skipped)
              (name ++ '=' :: post)).2) := by
  induction rest generalizing offset with
  | nil =>
    have hne : field ++ ['='] ≠ [] := by simp
    rw [toAsciiLowercase, List.map_nil, find, if_neg hne] at h
    cases h
  | cons c rest ih =>
    rw [toAsciiLowercase, List.map_cons, find, ← List.map_cons] at h
    split at h
    · rename_i hhit
      obtain ⟨name, post, hname, heq⟩ := marker_prefix_iff.mp hhit
      cases h
      exact ⟨[], name, post, heq, hname, rfl, fun fuel before => by rw [heq]; simp⟩
    · rename_i hmiss
      obtain ⟨offset', hoffset', rfl⟩ := Option.map_eq_some_iff.mp h
      obtain ⟨skipped, name, post, rfl, hname, rfl, hskip⟩ := ih hoffset'
      refine ⟨c :: skipped, name, post, rfl, hname, ?_, fun fuel before => ?_⟩
      · rw [length_utf8_cons, utf8Size_toLower]
      · have hkeep : ¬ Starts (Field [field]) before (c :: (skipped ++ (name ++ '=' :: post))) :=
          fun hstarts => hmiss (marker_prefix_iff.mpr hstarts.2)
        rw [List.length_cons, Nat.add_right_comm, redactField_keep _ hkeep, hskip, lastOf_cons]
        rfl

theorem length_utf8_lower (text : Text) :
    (utf8 (text.map Char.toLower)).length = (utf8 text).length := by
  induction text with
  | nil => rfl
  | cons c text ih => rw [List.map_cons, length_utf8_cons, length_utf8_cons, utf8Size_toLower, ih]

theorem wordCharacter_size {c : Char} (h : wordCharacter c = true) : c.utf8Size = 1 := by
  rw [Char.utf8Size_eq_one_iff, UInt32.le_iff_toNat_le]
  have hrange := (wordCharacter_iff c).mp h
  change c.toNat ≤ 127
  omega

theorem value_stop (pre post : Text) :
    ((findChar (delimiter isWhitespace) post).map ((utf8 pre).length + ·)).getD
        (utf8 (pre ++ post)).length =
      (utf8 pre).length + (utf8 (post.takeWhile (!delimiter isWhitespace ·))).length := by
  rw [← findChar_takeWhile, utf8_append, List.length_append]
  cases findChar (delimiter isWhitespace) post <;> rfl

theorem round_none {done : Text} (h : find (field ++ ['=']) (toAsciiLowercase rest) = none)
    (rounds count : Nat) :
    redactRounds isWhitespace (field ++ ['=']) (rounds + 1) (done ++ rest) (utf8 done).length count =
      .ok (done ++ rest, count) := by
  rw [redactRounds, sliceFrom_append, ok_bind, h]
  rfl

theorem round_behind {done skipped word post : Text} {c : Char} (hc : wordCharacter c = true)
    (h : find (field ++ ['=']) (toAsciiLowercase (skipped ++ (c :: word ++ '=' :: post))) =
      some (utf8 skipped).length)
    (hbefore : (lastOf none (done ++ skipped)).any wordCharacter = true) (rounds count : Nat) :
    redactRounds isWhitespace (field ++ ['=']) (rounds + 1)
        (done ++ (skipped ++ (c :: word ++ '=' :: post))) (utf8 done).length count =
      redactRounds isWhitespace (field ++ ['=']) rounds
        (done ++ skipped ++ [c] ++ (word ++ '=' :: post)) (utf8 (done ++ skipped ++ [c])).length
        count := by
  have hstart : (utf8 done).length + (utf8 skipped).length = (utf8 (done ++ skipped)).length := by
    rw [utf8_append, List.length_append]
  have hnext : (utf8 (done ++ skipped)).length + 1 = (utf8 (done ++ skipped ++ [c])).length := by
    rw [utf8_append (done ++ skipped), List.length_append, length_utf8_cons, wordCharacter_size hc]
    rfl
  have hwhole : done ++ skipped ++ [c] ++ (word ++ '=' :: post) =
      done ++ skipped ++ (c :: word ++ '=' :: post) := by simp
  rw [redactRounds, sliceFrom_append, ok_bind, h]
  dsimp only
  rw [hstart, ← List.append_assoc, behindWord_append, ok_bind, hbefore, if_pos rfl, hnext, hwhole]

theorem round_value {done skipped name post : Text} (hname : Field [field] name)
    (h : find (field ++ ['=']) (toAsciiLowercase (skipped ++ (name ++ '=' :: post))) =
      some (utf8 skipped).length)
    (hbefore : (lastOf none (done ++ skipped)).any wordCharacter = false) (rounds count : Nat) :
    redactRounds isWhitespace (field ++ ['=']) (rounds + 1)
        (done ++ (skipped ++ (name ++ '=' :: post))) (utf8 done).length count =
      redactRounds isWhitespace (field ++ ['=']) rounds
        (done ++ skipped ++ (name ++ '=' :: redactionMarker) ++
          post.dropWhile (!delimiter isWhitespace ·))
        (utf8 (done ++ skipped ++ (name ++ '=' :: redactionMarker))).length (count + 1) := by
  have hmarker : (utf8 (field ++ ['='])).length = (utf8 (name ++ ['='])).length := by
    rw [← List.mem_singleton.mp hname, utf8_append, utf8_append, List.length_append,
      List.length_append, length_utf8_lower]
  have hstart : (utf8 done).length + (utf8 skipped).length = (utf8 (done ++ skipped)).length := by
    rw [utf8_append, List.length_append]
  have hvalue : (utf8 (done ++ skipped)).length + (utf8 (name ++ ['='])).length =
      (utf8 (done ++ skipped ++ (name ++ ['=']))).length := by
    rw [utf8_append (done ++ skipped), List.length_append]
  have hwhole : done ++ skipped ++ (name ++ '=' :: post) = done ++ skipped ++ (name ++ ['=']) ++ post := by
    simp
  have hcursor : (utf8 (done ++ skipped ++ (name ++ ['=']))).length + (utf8 redactionMarker).length =
      (utf8 (done ++ skipped ++ (name ++ '=' :: redactionMarker))).length := by
    rw [← List.length_append, ← utf8_append]
    simp
  rw [redactRounds, sliceFrom_append, ok_bind, h]
  dsimp only
  rw [hstart, ← List.append_assoc, behindWord_append, ok_bind, hbefore, hmarker, hvalue, hwhole,
    if_neg Bool.false_ne_true, sliceFrom_append, ok_bind, value_stop]
  nth_rewrite 1 [← @List.takeWhile_append_dropWhile _ (!delimiter isWhitespace ·) post]
  rw [replaceRange_append, ok_bind, hcursor]
  simp

-- With rounds enough for what is behind the cursor, the loop does what redactField does there.
theorem redactRounds_eq (hfield : FieldNames [field]) {rounds fuel : Nat} {done rest : Text}
    (count : Nat) (hrounds : rest.length < rounds) (hfuel : rest.length < fuel) :
    redactRounds isWhitespace (field ++ ['=']) rounds (done ++ rest) (utf8 done).length count =
      .ok (done ++ (redactField isWhitespace (field ++ ['=']) fuel (lastOf none done) rest).1,
        count + (redactField isWhitespace (field ++ ['=']) fuel (lastOf none done) rest).2) := by
  induction rounds generalizing fuel done rest count with
  | zero => exact absurd hrounds (Nat.not_lt_zero _)
  | succ rounds ih =>
    cases hfind : find (field ++ ['=']) (toAsciiLowercase rest) with
    | none => rw [round_none hfind, find_none hfind, Nat.add_zero]
    | some offset =>
      obtain ⟨skipped, name, post, rfl, hname, rfl, hskip⟩ := find_some hfind
      obtain ⟨fuel, rfl⟩ : ∃ more, fuel = skipped.length + (more + 1) := by
        simp only [List.length_append, List.length_cons] at hfuel
        exact ⟨fuel - skipped.length - 1, by omega⟩
      simp only [List.length_append, List.length_cons] at hrounds hfuel
      rw [hskip, ← lastOf_append]
      cases hbefore : (lastOf none (done ++ skipped)).any wordCharacter with
      | true =>
        obtain ⟨c, word, rfl, hc⟩ := hfield.head hname
        have hrest : (word ++ '=' :: post).length < rounds ∧ (word ++ '=' :: post).length < fuel := by
          simp only [List.length_append, List.length_cons] at hrounds hfuel ⊢
          omega
        rw [round_behind hc hfind hbefore, ih count hrest.1 hrest.2, lastOf_append _ (done ++ skipped),
          List.cons_append, redactField_keep fuel (not_starts_of_word hbefore)]
        simp
      | false =>
        have hlength := @length_dropWhile_post name post (!delimiter isWhitespace ·)
        have hrest : (post.dropWhile (!delimiter isWhitespace ·)).length < rounds ∧
            (post.dropWhile (!delimiter isWhitespace ·)).length < fuel := by
          simp only [List.length_append, List.length_cons] at hlength
          omega
        rw [round_value hname hfind hbefore, ih (count + 1) hrest.1 hrest.2,
          lastOf_append _ (done ++ skipped), lastOf_value, redactField_value fuel hbefore hname,
          Nat.add_assoc count, Nat.add_comm 1]
        simp

theorem sanitizeOffsets_eq (isWhitespace : Char → Bool) (text : Text) :
    sanitizeOffsets isWhitespace text = .ok (sanitizeText isWhitespace text) := by
  have hpass : ∀ field ∈ protectedFields, ∀ state : Text × Nat,
      redactRounds isWhitespace (field ++ ['=']) (state.1.length + 1) state.1 0 state.2 =
        .ok ((redactField isWhitespace (field ++ ['=']) (state.1.length + 1) none state.1).1,
          state.2 + (redactField isWhitespace (field ++ ['=']) (state.1.length + 1) none state.1).2) := by
    intro field hin state
    have hfield : FieldNames [field] := fun name hname =>
      List.mem_singleton.mp hname ▸ protectedFields_names field hin
    exact @redactRounds_eq isWhitespace field hfield _ _ [] state.1 state.2 (Nat.lt_succ_self _)
      (Nat.lt_succ_self _)
  rw [sanitizeOffsets, sanitizeText]
  generalize (text, 0) = state
  generalize protectedFields = fields at hpass
  induction fields generalizing state with
  | nil => rfl
  | cons field fields ih =>
    rw [List.foldlM_cons, hpass field (List.mem_cons_self ..), ok_bind,
      ih _ fun other hother => hpass other (List.mem_cons_of_mem _ hother)]
    rfl

end Rounds

theorem stops_delimiter : Stops (delimiter isWhitespace) := by
  have hword : ∀ c, wordCharacter c = true → delimiter isWhitespace c = false := by
    intro c hc
    have hrange := (wordCharacter_iff c).mp hc
    have hcomma : c ≠ ',' := by rintro rfl; revert hrange; decide
    have hsemicolon : c ≠ ';' := by rintro rfl; revert hrange; decide
    simp only [delimiter, isWhitespace, Bool.or_eq_false_iff, Bool.and_eq_false_iff,
      decide_eq_false_iff_not]
    exact ⟨⟨by omega, hcomma⟩, hsemicolon⟩
  have hmarker : redactionMarker.any (delimiter isWhitespace) = false := by decide
  exact ⟨hword, by decide, fun c hc => Bool.eq_false_iff.mpr (List.any_eq_false.mp hmarker c hc)⟩

theorem sanitizeOffsets_redacts (text : Text) :
    ∃ out count, sanitizeOffsets isWhitespace text = .ok (out, count) ∧
      Redacts (delimiter isWhitespace) protectedFields none text out := by
  have hrun := sanitizeOffsets_eq isWhitespace text
  have hredacts := sanitizeText_redacts stops_delimiter text
  generalize sanitizeText isWhitespace text = result at hrun hredacts
  exact ⟨result.1, result.2, hrun, hredacts⟩

theorem sanitizing_redacts (text : Text) :
    ∃ out count, sanitizeOffsets isWhitespace text = .ok (out, count) ∧
      Redacts (delimiter isWhitespace) protectedFields none text out ∧
      ∃ count', sanitizeOffsets isWhitespace out = .ok (out, count') := by
  obtain ⟨out, count, hrun, hredacts⟩ := sanitizeOffsets_redacts text
  obtain ⟨out', count', hrun', hredacts'⟩ := sanitizeOffsets_redacts out
  have hfixed := hredacts.fixed stops_delimiter protectedFields_names
  obtain rfl := hfixed.unique protectedFields_names hredacts'
  exact ⟨out, count, hrun, hredacts, count', hrun'⟩

end Evidence
