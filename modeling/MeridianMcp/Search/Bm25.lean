import Mathlib.Analysis.SpecialFunctions.Log.Basic
import MeridianMcp.Search.Limit
import MeridianMcp.Search.Postings

namespace Search

open MeridianMcp Effects

variable {unicode : Unicode} {documents : List SearchDocument} {index : SearchIndex}

noncomputable def bm25K1 : ℝ := 1.2

noncomputable def bm25B : ℝ := 0.75

noncomputable def bm25 : Scoring ℝ where
  zero := 0
  add := (· + ·)
  postingScore documentCount documentFrequency averageDocumentLength documentLength
      termFrequency :=
    let inverseDocumentFrequency : ℝ :=
      Real.log (1 + (documentCount - documentFrequency + 0.5) / (documentFrequency + 0.5))
    let lengthNormalization : ℝ :=
      if averageDocumentLength = 0 then 1
      else 1 - bm25B + bm25B * documentLength / averageDocumentLength
    let numerator : ℝ := termFrequency * (bm25K1 + 1)
    let denominator : ℝ := termFrequency + bm25K1 * lengthNormalization
    inverseDocumentFrequency * numerator / denominator
  exactSymbolBoost := 12
  exactNameBoost := 6
  phraseBoost := 2

theorem postingScore_pos {documentCount documentFrequency documentLength termFrequency : Nat}
    {average : ℚ} (hfrequency : documentFrequency ≤ documentCount) (haverage : 0 ≤ average)
    (hterm : 0 < termFrequency) :
    0 < bm25.postingScore documentCount documentFrequency average documentLength termFrequency := by
  have hcount : (documentFrequency : ℝ) ≤ documentCount := Nat.cast_le.mpr hfrequency
  have hfrequency : (0 : ℝ) ≤ documentFrequency := Nat.cast_nonneg _
  have hterm : (0 : ℝ) < termFrequency := Nat.cast_pos.mpr hterm
  have hinverse : 0 < Real.log
      (1 + ((documentCount : ℝ) - documentFrequency + 0.5) / (documentFrequency + 0.5)) := by
    refine Real.log_pos (lt_add_of_pos_right 1 (div_pos ?_ ?_)) <;> linarith
  have hnormal : (0 : ℝ) < if average = 0 then 1
      else 1 - bm25B + bm25B * documentLength / average := by
    split
    · exact one_pos
    · have haverage : (0 : ℝ) ≤ average := Rat.cast_nonneg.mpr haverage
      have hlength : (0 : ℝ) ≤ documentLength := Nat.cast_nonneg _
      have hshare : (0 : ℝ) ≤ bm25B * documentLength / average :=
        div_nonneg (mul_nonneg (by norm_num [bm25B]) hlength) haverage
      have hrest : (0 : ℝ) < 1 - bm25B := by norm_num [bm25B]
      linarith
  have hK1 : (0 : ℝ) < bm25K1 := by norm_num [bm25K1]
  refine div_pos (mul_pos hinverse (mul_pos hterm ?_)) (add_pos hterm (mul_pos hK1 hnormal))
  linarith

theorem mem_postingsOf {term : Text} {posting : Posting} :
    posting ∈ postingsOf unicode documents term ↔ ∃ document,
      documents[posting.documentId]? = some document ∧ Occurs unicode document term ∧
        posting.termFrequency = weightedCount unicode document term := by
  simp only [postingsOf, List.mem_filterMap, Prod.exists, List.mem_zipIdx_iff_getElem?]
  constructor
  · rintro ⟨document, id, hdocument, hposting⟩
    split at hposting
    · rename_i hoccurs
      obtain rfl := Option.some.inj hposting
      exact ⟨document, hdocument, hoccurs, rfl⟩
    · cases hposting
  · rintro ⟨document, hdocument, hoccurs, hcount⟩
    refine ⟨document, posting.documentId, hdocument, ?_⟩
    rw [if_pos hoccurs, ← hcount]

theorem length_postingsOf_le (term : Text) :
    (postingsOf unicode documents term).length ≤ documents.length :=
  (List.length_filterMap_le _ _).trans_eq List.length_zipIdx

theorem mem_idsOf {p : SearchDocument → Bool} {id : Nat} :
    id ∈ idsOf p documents ↔ ∃ document, documents[id]? = some document ∧ p document = true := by
  simp only [idsOf, List.mem_map, List.mem_filter, Prod.exists, List.mem_zipIdx_iff_getElem?]
  constructor
  · rintro ⟨document, _, ⟨hdocument, hp⟩, rfl⟩
    exact ⟨document, hdocument, hp⟩
  · rintro ⟨document, hdocument, hp⟩
    exact ⟨document, id, ⟨hdocument, hp⟩, rfl⟩

-- Every document with a score, and that the score is positive.
def Scored (scores : FinMap Nat ℝ) (p : Nat → Prop) : Prop :=
  (∀ id, scores.get id ≠ none ↔ p id) ∧ ∀ id score, scores.get id = some score → 0 < score

theorem scored_addPosting {documentFrequency : Nat} {scores : FinMap Nat ℝ} {p : Nat → Prop}
    {posting : Posting} (h : Scored scores p)
    (hfrequency : documentFrequency ≤ index.documents.length)
    (haverage : 0 ≤ index.averageDocumentLength) (hposting : 0 < posting.termFrequency) :
    Scored (index.addPosting bm25 documentFrequency scores posting)
      (fun id => p id ∨ id = posting.documentId) := by
  have hpos := @postingScore_pos index.documents.length documentFrequency
    (index.documentLengths.getD posting.documentId 0) posting.termFrequency
    index.averageDocumentLength hfrequency haverage hposting
  rw [SearchIndex.addPosting]
  constructor
  · intro id
    dsimp only
    rw [FinMap.get_insert]
    rcases eq_or_ne id posting.documentId with rfl | hne
    · simp
    · rw [Function.update_of_ne hne, h.1, or_iff_left hne]
  · intro id score hscore
    rw [FinMap.get_insert] at hscore
    rcases eq_or_ne id posting.documentId with rfl | hne
    · rw [Function.update_self] at hscore
      obtain rfl := Option.some.inj hscore
      refine add_pos_of_nonneg_of_pos ?_ hpos
      cases hold : scores.get posting.documentId with
      | none => exact le_refl (0 : ℝ)
      | some old => exact (h.2 _ old hold).le
    · rw [Function.update_of_ne hne] at hscore
      exact h.2 id score hscore

theorem scored_foldl_addPosting {documentFrequency : Nat} {postings : List Posting}
    {scores : FinMap Nat ℝ} {p : Nat → Prop} (h : Scored scores p)
    (hfrequency : documentFrequency ≤ index.documents.length)
    (haverage : 0 ≤ index.averageDocumentLength)
    (hpostings : ∀ posting ∈ postings, 0 < posting.termFrequency) :
    Scored (postings.foldl (index.addPosting bm25 documentFrequency) scores)
      (fun id => p id ∨ ∃ posting ∈ postings, posting.documentId = id) := by
  induction postings generalizing scores p with
  | nil => simpa using h
  | cons posting postings ih =>
    have hstep := scored_addPosting h hfrequency haverage (hpostings posting (List.mem_cons_self ..))
    have hrest := ih hstep fun other hother => hpostings other (List.mem_cons_of_mem _ hother)
    refine ⟨fun id => (hrest.1 id).trans ?_, hrest.2⟩
    dsimp only
    rw [List.exists_mem_cons_iff, or_assoc, eq_comm]

theorem scored_addTermScores (hbuilt : Built unicode documents index)
    (haverage : 0 ≤ index.averageDocumentLength) {scores : FinMap Nat ℝ} {p : Nat → Prop}
    (h : Scored scores p) (term : Text) :
    Scored (index.addTermScores bm25 scores term) (fun id => p id ∨ ∃ document,
      documents[id]? = some document ∧ Occurs unicode document term) := by
  have heq : index.addTermScores bm25 scores term =
      (postingsOf unicode documents term).foldl
        (index.addPosting bm25 (postingsOf unicode documents term).length) scores := by
    rw [← hbuilt.postings, SearchIndex.addTermScores]
    cases index.postings.get term <;> rfl
  rw [heq]
  have hscored := @scored_foldl_addPosting index (postingsOf unicode documents term).length
    (postingsOf unicode documents term) scores p h
    (hbuilt.documents_eq ▸ length_postingsOf_le term) haverage ?_
  · refine ⟨fun id => (hscored.1 id).trans (or_congr_right ?_), hscored.2⟩
    constructor
    · rintro ⟨posting, hposting, rfl⟩
      obtain ⟨document, hdocument, hoccurs, -⟩ := mem_postingsOf.mp hposting
      exact ⟨document, hdocument, hoccurs⟩
    · rintro ⟨document, hdocument, hoccurs⟩
      exact ⟨⟨id, weightedCount unicode document term⟩,
        mem_postingsOf.mpr ⟨document, hdocument, hoccurs, rfl⟩, rfl⟩
  · intro posting hposting
    obtain ⟨document, -, hoccurs, hcount⟩ := mem_postingsOf.mp hposting
    rw [hcount]
    exact weightedCount_pos hoccurs

theorem scored_terms (hbuilt : Built unicode documents index)
    (haverage : 0 ≤ index.averageDocumentLength) {terms : List Text} {scores : FinMap Nat ℝ}
    {p : Nat → Prop} (h : Scored scores p) :
    Scored (terms.foldl (index.addTermScores bm25) scores) (fun id => p id ∨ ∃ document,
      documents[id]? = some document ∧ ∃ term ∈ terms, Occurs unicode document term) := by
  induction terms generalizing scores p with
  | nil => simpa using h
  | cons term terms ih =>
    have hrest := ih (scored_addTermScores hbuilt haverage h term)
    refine ⟨fun id => (hrest.1 id).trans ?_, hrest.2⟩
    simp only [List.exists_mem_cons_iff, and_or_left, exists_or, or_assoc]

end Search
