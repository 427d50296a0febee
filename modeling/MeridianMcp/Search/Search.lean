import Mathlib.Data.Finset.Sort
import Mathlib.Data.Prod.Lex
import Mathlib.Order.Compare
import MeridianMcp.Search.Index
import MeridianMcp.Search.TopK

namespace Search

open MeridianMcp Effects

structure SearchRequest where
  query : Text
  kind : Option SymbolKind
  typePrefix : Option Text
  fileFilter : Option Text
  limit : Nat

structure SearchHit (S : Type) where
  score : S
  document : SearchDocument

structure SearchExecution (S : Type) where
  hits : List (SearchHit S)
  candidatesConsidered : Nat
  documentsScored : Nat

-- The arithmetic of the scores: what a posting adds, and the boosts.
structure Scoring (S : Type) where
  zero : S
  add : S → S → S
  postingScore (documentCount documentFrequency : Nat) (averageDocumentLength : ℚ)
    (documentLength termFrequency : Nat) : S
  exactSymbolBoost : S
  exactNameBoost : S
  phraseBoost : S

section Comparison

variable {S : Type} [LinearOrder S]

def compareHits (left right : SearchHit S) : Ordering :=
  (cmp right.score left.score).then <|
    (cmp left.document.symbol right.document.symbol).then <|
      (cmp left.document.file right.document.file).then <|
        (cmp left.document.line right.document.line).then <|
          cmp left.document.column right.document.column

def SearchHit.key (hit : SearchHit S) : Sᵒᵈ ×ₗ Text ×ₗ Text ×ₗ Nat ×ₗ Nat :=
  toLex (OrderDual.toDual hit.score, toLex (hit.document.symbol,
    toLex (hit.document.file, toLex (hit.document.line, hit.document.column))))

theorem cmp_toLex {α β : Type} [LinearOrder α] [LinearOrder β] (a a' : α) (b b' : β) :
    cmp (toLex (a, b)) (toLex (a', b')) = (cmp a a').then (cmp b b') := by
  have h := cmp_compares a a'
  cases hcmp : cmp a a' with
  | lt =>
    rw [hcmp] at h
    exact (cmp_eq_lt_iff _ _).mpr (Prod.Lex.toLex_lt_toLex.mpr (Or.inl h))
  | gt =>
    rw [hcmp] at h
    exact (cmp_eq_gt_iff _ _).mpr (Prod.Lex.toLex_lt_toLex.mpr (Or.inl h))
  | eq =>
    rw [hcmp] at h
    obtain rfl : a = a' := h
    have h := cmp_compares b b'
    cases hcmp' : cmp b b' with
    | lt =>
      rw [hcmp'] at h
      exact (cmp_eq_lt_iff _ _).mpr (Prod.Lex.toLex_lt_toLex.mpr (Or.inr ⟨rfl, h⟩))
    | gt =>
      rw [hcmp'] at h
      exact (cmp_eq_gt_iff _ _).mpr (Prod.Lex.toLex_lt_toLex.mpr (Or.inr ⟨rfl, h⟩))
    | eq =>
      rw [hcmp'] at h
      obtain rfl : b = b' := h
      exact cmp_self_eq_eq _

theorem cmp_instance {α : Type} [LT α] (h h' : DecidableLT α) (a b : α) :
    @cmp α _ h a b = @cmp α _ h' a b := by
  rw [Subsingleton.elim h h']

theorem compareHits_eq (left right : SearchHit S) :
    compareHits left right = cmp left.key right.key := by
  rw [SearchHit.key, SearchHit.key, cmp_toLex, cmp_toLex, cmp_toLex, cmp_toLex, cmp_toDual, compareHits]
  exact congrArg₂ _ rfl (congrArg₂ _ (cmp_instance _ _ _ _) (congrArg₂ _ (cmp_instance _ _ _ _)
    (congrArg₂ _ (cmp_instance _ _ _ _) (cmp_instance _ _ _ _))))

theorem compareHits_isLE {left right : SearchHit S} :
    (compareHits left right).isLE = true ↔ left.key ≤ right.key := by
  rw [compareHits_eq, ← not_lt, ← cmp_eq_gt_iff]
  cases cmp left.key right.key <;> decide

-- What the standard library leaves open: the order of a hash map's keys, and where an unstable
-- selection puts what is on either side of the selected place.
structure Platform (S : Type) [LinearOrder S] where
  iterate : Finset Nat → List Nat
  iterate_nodup : ∀ keys, (iterate keys).Nodup
  mem_iterate : ∀ keys id, id ∈ iterate keys ↔ id ∈ keys
  selectNth : Nat → List (SearchHit S) → List (SearchHit S)
  selectNth_perm : ∀ n hits, (selectNth n hits).Perm hits
  selectNth_between : ∀ n hits nth, (selectNth n hits)[n]? = some nth →
    (∀ hit ∈ (selectNth n hits).take n, (compareHits hit nth).isLE = true) ∧
      ∀ hit ∈ (selectNth n hits).drop (n + 1), (compareHits nth hit).isLE = true

end Comparison

def passes (unicode : Unicode) (request : SearchRequest) (document : SearchDocument) : Bool :=
  request.kind.all (fun kind => document.kind = kind) &&
    (request.typePrefix.map unicode.toLowercase).all
      (fun typePrefix => startsWithCaseInsensitive unicode document.typePath typePrefix) &&
    (request.fileFilter.map unicode.toLowercase).all
      (fun filter => containsCaseInsensitive unicode document.file filter)

def queryTerms (unicode : Unicode) (query : Text) : List Text :=
  FinMap.sortKeys (tokenize unicode query).toFinset

namespace SearchIndex

variable {S : Type} [LinearOrder S]

def addPosting (scoring : Scoring S) (index : SearchIndex) (documentFrequency : Nat)
    (scores : FinMap Nat S) (posting : Posting) : FinMap Nat S :=
  scores.insert posting.documentId
    (scoring.add ((scores.get posting.documentId).getD scoring.zero)
      (scoring.postingScore index.documents.length documentFrequency index.averageDocumentLength
        (index.documentLengths.getD posting.documentId 0) posting.termFrequency))

def addTermScores (scoring : Scoring S) (index : SearchIndex) (scores : FinMap Nat S)
    (term : Text) : FinMap Nat S :=
  match index.postings.get term with
  | none => scores
  | some postings => postings.foldl (index.addPosting scoring postings.length) scores

def enterZero (scoring : Scoring S) (scores : FinMap Nat S) (documentId : Nat) : FinMap Nat S :=
  scores.insert documentId ((scores.get documentId).getD scoring.zero)

def scores (unicode : Unicode) (scoring : Scoring S) (index : SearchIndex) (query : Text) :
    FinMap Nat S :=
  let normalizedQuery := unicode.toLowercase (unicode.trim query)
  match index.exactSymbols.get normalizedQuery with
  | some exactSymbols =>
    exactSymbols.foldl (fun scores id => scores.insert id scoring.zero) FinMap.empty
  | none =>
    ((index.exactNames.get normalizedQuery).getD []).foldl (enterZero scoring)
      ((queryTerms unicode query).foldl (index.addTermScores scoring) FinMap.empty)

def candidates (unicode : Unicode) (scoring : Scoring S) (platform : Platform S)
    (index : SearchIndex) (query : Text) : List Nat :=
  if (index.scores unicode scoring query).keys = ∅ then
    (List.range index.documents.length).filter fun id =>
      index.documents[id]?.any fun document =>
        containsCaseInsensitive unicode document.symbol (unicode.toLowercase (unicode.trim query))
  else platform.iterate (index.scores unicode scoring query).keys

def boost (unicode : Unicode) (scoring : Scoring S) (normalizedQuery : Text)
    (document : SearchDocument) (score : S) : S :=
  if equalsCaseInsensitive unicode document.symbol normalizedQuery then
    scoring.add score scoring.exactSymbolBoost
  else if equalsCaseInsensitive unicode document.name normalizedQuery then
    scoring.add score scoring.exactNameBoost
  else if containsCaseInsensitive unicode document.symbol normalizedQuery then
    scoring.add score scoring.phraseBoost
  else score

def documentScore (unicode : Unicode) (scoring : Scoring S) (index : SearchIndex) (query : Text)
    (documentId : Nat) (document : SearchDocument) : S :=
  boost unicode scoring (unicode.toLowercase (unicode.trim query)) document
    (((index.scores unicode scoring query).get documentId).getD scoring.zero)

def hitFor (unicode : Unicode) (scoring : Scoring S) (index : SearchIndex)
    (request : SearchRequest) (documentId : Nat) : Option (SearchHit S) :=
  (index.documents[documentId]?).bind fun document =>
    if passes unicode request document then
      let score := index.documentScore unicode scoring request.query documentId document
      if scoring.zero < score then some ⟨score, document⟩ else none
    else none

def ranked (platform : Platform S) (limit : Nat) (hits : List (SearchHit S)) :
    List (SearchHit S) :=
  let kept := if limit < hits.length then (platform.selectNth limit hits).take limit else hits
  TopK.sortBy SearchHit.key kept

def search (unicode : Unicode) (scoring : Scoring S) (platform : Platform S) (index : SearchIndex)
    (request : SearchRequest) : SearchExecution S :=
  if queryTerms unicode request.query = [] ∨ request.limit = 0 then ⟨[], 0, 0⟩
  else
    let candidates := index.candidates unicode scoring platform request.query
    { hits := ranked platform request.limit
        (candidates.filterMap (index.hitFor unicode scoring request))
      candidatesConsidered := candidates.length
      documentsScored := candidates.countP fun id =>
        index.documents[id]?.any (passes unicode request) }

end SearchIndex

end Search
