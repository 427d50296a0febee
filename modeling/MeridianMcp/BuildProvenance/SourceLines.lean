import MeridianMcp.BuildProvenance.Preparation

namespace BuildProvenance

open MeridianMcp Delimited

def NumericDefine (line : Text) : Prop :=
  ∃ rest name value, line = "#define ".toList ++ rest ∧ splitWhitespace rest = [name, value] ∧
    isIdentifier name = true ∧ value ≠ [] ∧ ∀ c ∈ value, c.isDigit = true

def IncludeOf (line value : Text) : Prop :=
  line = "#include \"".toList ++ value ++ ['"'] ∧ value ≠ [] ∧ '"' ∉ value ∧ '#' ∉ value

theorem stripPrefix_eq_some {start text rest : Text} :
    stripPrefix start text = some rest ↔ text = start ++ rest := by
  unfold stripPrefix
  constructor
  · intro h
    split at h
    · rename_i hstart
      obtain ⟨tail, rfl⟩ := List.isPrefixOf_iff_prefix.mp hstart
      rw [← Option.some.inj h, List.drop_left]
    · cases h
  · rintro rfl
    rw [if_pos (List.isPrefixOf_iff_prefix.mpr (List.prefix_append ..)), List.drop_left]

theorem stripSuffix_eq_some {ending text rest : Text} :
    stripSuffix ending text = some rest ↔ text = rest ++ ending := by
  unfold stripSuffix
  constructor
  · intro h
    split at h
    · rename_i hending
      obtain ⟨front, rfl⟩ := List.isSuffixOf_iff_suffix.mp hending
      rw [← Option.some.inj h, List.length_append, Nat.add_sub_cancel, List.take_left]
    · cases h
  · rintro rfl
    rw [if_pos (List.isSuffixOf_iff_suffix.mpr (List.suffix_append ..)), List.length_append,
      Nat.add_sub_cancel, List.take_left]

theorem literalInclude_eq_some {line value : Text} :
    literalInclude line = some value ↔ IncludeOf line value := by
  simp only [literalInclude, IncludeOf, Option.filter_eq_some_iff, Option.bind_eq_some_iff,
    stripPrefix_eq_some, stripSuffix_eq_some, Bool.and_eq_true, Bool.not_eq_true',
    List.any_eq_false, Bool.or_eq_true, decide_eq_true_eq, not_or]
  constructor
  · rintro ⟨⟨rest, rfl, rfl⟩, hclean, hne⟩
    refine ⟨(List.append_assoc ..).symm, hne, ?_, ?_⟩
    · exact fun hin => (hclean _ hin).1 rfl
    · exact fun hin => (hclean _ hin).2 rfl
  · rintro ⟨rfl, hne, hquote, hhash⟩
    refine ⟨⟨value ++ ['"'], List.append_assoc .., rfl⟩, fun c hc => ⟨?_, ?_⟩, hne⟩
    · rintro rfl
      exact hquote hc
    · rintro rfl
      exact hhash hc

theorem numericDefine_of_isNumericDefine {line : Text} (h : isNumericDefine line = true) :
    NumericDefine line := by
  unfold isNumericDefine at h
  split at h
  · cases h
  · rename_i rest hrest
    split at h
    · rename_i name value hfields
      simp only [Bool.and_eq_true, decide_eq_true_eq, List.all_eq_true] at h
      exact ⟨rest, name, value, stripPrefix_eq_some.mp hrest, hfields, h.1.1, h.1.2, h.2⟩
    · cases h

theorem mem_dropWhile {p : Char → Bool} {c : Char} {text : Text} (h : c ∈ text) (hc : p c = false) :
    c ∈ text.dropWhile p := by
  induction text with
  | nil => cases h
  | cons first text ih =>
    rw [List.dropWhile_cons]
    split
    · rename_i hfirst
      refine ih ((List.mem_cons.mp h).resolve_left ?_)
      rintro rfl
      rw [hc] at hfirst
      cases hfirst
    · exact h

theorem mem_trim {c : Char} {text : Text} (h : c ∈ text) (hc : isWhitespace c = false) :
    c ∈ trim text := by
  rw [trim, List.mem_reverse]
  exact mem_dropWhile (List.mem_reverse.mpr (mem_dropWhile h hc)) hc

-- Whether the next line is in a block comment.
def commentAfter (blockComment : Bool) (raw : Text) : Bool :=
  match commentBody blockComment (trim raw) with
  | some body => !closeComment.isSuffixOf body
  | none => false

def inBlockComment (before : List Text) : Bool := before.foldl commentAfter false

theorem commentBody_include {blockComment : Bool} {line value body : Text}
    (h : IncludeOf line value) (hbody : commentBody blockComment line = some body) :
    commentDoubtful body = true := by
  obtain ⟨rfl, -, -, -⟩ := h
  unfold commentBody at hbody
  split at hbody
  · obtain rfl := Option.some.inj hbody
    rw [commentDoubtful, Bool.or_eq_true, Bool.or_eq_true]
    exact Or.inl (Or.inl (List.any_eq_true.mpr ⟨'#', by simp, rfl⟩))
  · split at hbody
    · rename_i hopen
      exact absurd hopen (by simp [openComment])
    · cases hbody

section Scan

variable {directory : PathBuf} {scan : LineScan} {raw : Text}

-- What a line that leaves the reason empty is, and what it leaves to the next one.
structure Passed (directory : PathBuf) (scan : LineScan) (raw : Text) : Prop where
  reason : scan.reason = none
  comment : (scanLine directory scan raw).blockComment = commentAfter scan.blockComment raw
  pending : scan.pending ⊆ (scanLine directory scan raw).pending
  pushed : ∀ value, IncludeOf (trim raw) value →
    joinPath directory value ∈ (scanLine directory scan raw).pending
  line : '#' ∈ raw → commentBody scan.blockComment (trim raw) = none →
    NumericDefine (trim raw) ∨ ∃ value, IncludeOf (trim raw) value

theorem blockComment_of_commentBody {blockComment : Bool} {line : Text}
    (h : commentBody blockComment line = none) : blockComment = false := by
  unfold commentBody at h
  split at h
  · cases h
  · rename_i hblock
    exact Bool.eq_false_of_not_eq_true hblock

theorem passed_of_reason (h : (scanLine directory scan raw).reason = none) :
    Passed directory scan raw := by
  have hmem : '#' ∈ raw → '#' ∈ trim raw := fun hin => mem_trim hin (by decide)
  cases hbody : commentBody scan.blockComment (trim raw) with
  | some body =>
    have hscan : scanLine directory scan raw = { scan with
        reason := if commentDoubtful body then some commentNotProved else scan.reason
        blockComment := !closeComment.isSuffixOf body } := by
      simp only [scanLine, hbody]
    rw [hscan] at h
    by_cases hdoubt : commentDoubtful body = true
    · rw [if_pos hdoubt] at h
      cases h
    · rw [if_neg hdoubt] at h
      refine ⟨h, ?_, ?_, fun value hvalue => absurd (commentBody_include hvalue hbody) hdoubt, ?_⟩
      · rw [hscan, commentAfter, hbody]
      · rw [hscan]
        exact fun _ hin => hin
      · exact fun _ hnone => nomatch hbody.symm.trans hnone
  | none =>
    have hopen := blockComment_of_commentBody hbody
    have hafter : commentAfter scan.blockComment raw = false := by rw [commentAfter, hbody]
    simp only [scanLine, hbody] at h
    split at h
    · cases h
    · rename_i hclear
      split at h
      · rename_i hhash
        have hscan : scanLine directory scan raw = scan := by
          simp only [scanLine, hbody, if_neg hclear, if_pos hhash]
        refine ⟨h, by rw [hscan, hafter, hopen], by rw [hscan]; exact List.Subset.refl _, ?_, ?_⟩
        · rintro value ⟨heq, -⟩
          rw [heq] at hhash
          exact absurd (by simp) hhash
        · exact fun hin _ => absurd (hmem hin) hhash
      · rename_i hhash
        split at h
        · rename_i hdefine
          have hscan : scanLine directory scan raw = scan := by
            simp only [scanLine, hbody, if_neg hclear, if_neg hhash, if_pos hdefine]
          have hnumeric := numericDefine_of_isNumericDefine hdefine
          refine ⟨h, by rw [hscan, hafter, hopen], by rw [hscan]; exact List.Subset.refl _, ?_, ?_⟩
          · rintro value ⟨heq, -⟩
            obtain ⟨rest, _, _, hline, -⟩ := hnumeric
            rw [heq] at hline
            simp at hline
          · exact fun _ _ => Or.inl hnumeric
        · rename_i hdefine
          cases hinclude : literalInclude (trim raw) with
          | none =>
            rw [hinclude] at h
            cases h
          | some value =>
            rw [hinclude] at h
            dsimp only at h
            split at h
            · rename_i hextension
              have hscan : scanLine directory scan raw =
                  { scan with pending := joinPath directory value :: scan.pending } := by
                simp only [scanLine, hbody, if_neg hclear, if_neg hhash, hdefine, hinclude,
                  if_pos hextension, if_false, Bool.false_eq_true]
              refine ⟨h, ?_, ?_, ?_, fun _ _ => Or.inr ⟨value, literalInclude_eq_some.mp hinclude⟩⟩
              · rw [hscan, hafter, ← hopen]
              · rw [hscan]
                exact List.subset_cons_self ..
              · intro other hother
                obtain rfl := Option.some.inj
                  (hinclude.symm.trans (literalInclude_eq_some.mpr hother))
                rw [hscan]
                exact List.mem_cons_self ..
            · cases h

structure Scanned (directory : PathBuf) (scan : LineScan) (text : List Text) : Prop where
  reason : scan.reason = none
  pending : scan.pending ⊆ (text.foldl (scanLine directory) scan).pending
  pushed : ∀ raw ∈ text, ∀ value, IncludeOf (trim raw) value →
    joinPath directory value ∈ (text.foldl (scanLine directory) scan).pending
  line : ∀ before raw after, text = before ++ raw :: after → '#' ∈ raw →
    commentBody (before.foldl commentAfter scan.blockComment) (trim raw) = none →
      NumericDefine (trim raw) ∨ ∃ value, IncludeOf (trim raw) value

theorem scanned_of_reason {text : List Text}
    (h : (text.foldl (scanLine directory) scan).reason = none) : Scanned directory scan text := by
  induction text generalizing scan with
  | nil => exact ⟨h, fun _ hin => hin, by simp, by simp⟩
  | cons raw text ih =>
    have hrest := ih h
    have hfirst := passed_of_reason hrest.reason
    refine ⟨hfirst.reason, fun _ hin => hrest.pending (hfirst.pending hin), ?_, ?_⟩
    · intro line hline value hvalue
      rcases List.mem_cons.mp hline with rfl | hline
      · exact hrest.pending (hfirst.pushed value hvalue)
      · exact hrest.pushed line hline value hvalue
    · intro before line after heq
      cases before with
      | nil =>
        obtain ⟨rfl, -⟩ := List.cons.inj heq
        exact hfirst.line
      | cons first before =>
        obtain ⟨rfl, hrest'⟩ := List.cons.inj heq
        rw [List.foldl_cons, ← hfirst.comment]
        exact hrest.line before line after hrest'

theorem scanLine_keeps (h : scan.reason ≠ none) : (scanLine directory scan raw).reason ≠ none :=
  fun hnone => h (passed_of_reason hnone).reason

end Scan

end BuildProvenance
