import MeridianMcp.Search.Bm25
import MeridianMcp.Utf8

namespace Search

open MeridianMcp Effects

variable {unicode : Unicode} {documents : List SearchDocument} {index : SearchIndex} {query : Text}

def normalized (unicode : Unicode) (query : Text) : Text :=
  unicode.toLowercase (unicode.trim query)

def symbolIs (unicode : Unicode) (query : Text) (document : SearchDocument) : Bool :=
  unicode.toLowercase document.symbol = normalized unicode query

def sharesTerm (unicode : Unicode) (query : Text) (document : SearchDocument) : Bool :=
  (tokenize unicode query).any fun term => Occurs unicode document term

def nameIs (unicode : Unicode) (query : Text) (document : SearchDocument) : Bool :=
  unicode.toLowercase document.name = normalized unicode query

def symbolContains (unicode : Unicode) (query : Text) (document : SearchDocument) : Bool :=
  normalized unicode query <:+: unicode.toLowercase document.symbol

-- The first of the three ways to match that some document does.
def firstMatching (unicode : Unicode) (documents : List SearchDocument) (query : Text) :
    SearchDocument → Bool :=
  ([symbolIs unicode query,
    fun document => sharesTerm unicode query document || nameIs unicode query document,
    symbolContains unicode query].find? fun p => documents.any p).getD fun _ => false

-- The hits before the limit are the documents that pass the filter and match.
def Finds (unicode : Unicode) (documents : List SearchDocument) (platform : Platform ℝ)
    (request : SearchRequest) : Prop :=
  ∃ hits, ((SearchIndex.new unicode documents).search unicode bm25 platform request).hits =
      SearchIndex.ranked platform request.limit hits ∧
    (hits.map SearchHit.document).Perm (documents.filter fun document =>
      passes unicode request document && firstMatching unicode documents request.query document)

-- What is documented of the lower case of an ASCII text.
def AsciiLowercase (unicode : Unicode) : Prop :=
  ∀ text, isAscii text = true → unicode.toLowercase text = text.map Char.toLower

section Comparison

theorem toLower_toLower (c : Char) : c.toLower.toLower = c.toLower := by
  apply Char.toNat_inj.mp
  rw [toNat_toLower, toNat_toLower]
  grind

theorem map_toLower_of_lower {text : Text} (h : text.all (fun c => !c.isUpper) = true) :
    text.map Char.toLower = text := by
  refine (List.map_congr_left fun c hc => ?_).trans (List.map_id text)
  have hnot : c.isUpper = false := by simpa using List.all_eq_true.mp h c hc
  have hupper : ¬(c.val ≥ 'A'.val ∧ c.val ≤ 'Z'.val) := of_decide_eq_false hnot
  delta Char.toLower
  rw [dif_neg hupper]
  rfl

theorem equals_of_toLowercase (hlower : AsciiLowercase unicode) {text query : Text}
    (h : unicode.toLowercase text = query) : equalsCaseInsensitive unicode text query = true := by
  rw [equalsCaseInsensitive]
  split
  · rename_i hascii
    rw [Bool.and_eq_true] at hascii
    rw [← h, hlower text hascii.1, List.map_map]
    refine decide_eq_true (List.map_congr_left fun c _ => ?_)
    exact (toLower_toLower c).symm
  · exact decide_eq_true h

theorem contains_eq (hlower : AsciiLowercase unicode) (text query : Text) :
    containsCaseInsensitive unicode text query = decide (query <:+: unicode.toLowercase text) := by
  rw [containsCaseInsensitive]
  split
  · rename_i hascii
    rw [Bool.and_eq_true] at hascii
    rw [hlower text hascii.1]
    split
    · rename_i hcase
      rw [map_toLower_of_lower hcase]
    · rfl
  · rfl

theorem boost_pos {name : SearchDocument} {score : ℝ} (hscore : 0 ≤ score)
    (h : 0 < score ∨ equalsCaseInsensitive unicode name.symbol query = true ∨
      equalsCaseInsensitive unicode name.name query = true ∨
      containsCaseInsensitive unicode name.symbol query = true) :
    0 < SearchIndex.boost unicode bm25 query name score := by
  have hadd : ∀ boost : ℝ, 0 < boost → 0 < score + boost := fun boost hboost =>
    add_pos_of_nonneg_of_pos hscore hboost
  unfold SearchIndex.boost
  split
  · exact hadd 12 (by norm_num)
  · split
    · exact hadd 6 (by norm_num)
    · split
      · exact hadd 2 (by norm_num)
      · rename_i hsymbol hname hcontains
        exact h.resolve_right (by simp [hsymbol, hname, hcontains])

end Comparison

section Matching

theorem mem_queryTerms {term : Text} :
    term ∈ queryTerms unicode query ↔ term ∈ tokenize unicode query := by
  rw [queryTerms, FinMap.mem_sortKeys, List.mem_toFinset]

theorem idsOf_eq_nil {p : SearchDocument → Bool} :
    idsOf p documents = [] ↔ documents.any p = false := by
  rw [List.eq_nil_iff_forall_not_mem, List.any_eq_false]
  constructor
  · intro h document hdocument hp
    obtain ⟨id, hid⟩ := List.mem_iff_getElem?.mp hdocument
    exact h id (mem_idsOf.mpr ⟨document, hid, hp⟩)
  · intro h id hid
    obtain ⟨document, hdocument, hp⟩ := mem_idsOf.mp hid
    exact h document (List.mem_of_getElem? hdocument) hp

theorem firstMatching_symbol (h : documents.any (symbolIs unicode query) = true) :
    firstMatching unicode documents query = symbolIs unicode query := by
  rw [firstMatching, List.find?_cons_of_pos h]
  rfl

theorem firstMatching_term (hsymbol : documents.any (symbolIs unicode query) = false)
    (h : documents.any (fun document =>
      sharesTerm unicode query document || nameIs unicode query document) = true) :
    firstMatching unicode documents query =
      fun document => sharesTerm unicode query document || nameIs unicode query document := by
  rw [firstMatching, List.find?_cons_of_neg (by simp [hsymbol]), List.find?_cons_of_pos h]
  rfl

theorem firstMatching_contains (hsymbol : documents.any (symbolIs unicode query) = false)
    (h : documents.any (fun document =>
      sharesTerm unicode query document || nameIs unicode query document) = false)
    {document : SearchDocument} (hdocument : document ∈ documents) :
    firstMatching unicode documents query document = symbolContains unicode query document := by
  rw [firstMatching, List.find?_cons_of_neg (by simp [hsymbol]),
    List.find?_cons_of_neg (by simp [h])]
  cases hany : documents.any (symbolContains unicode query) with
  | true =>
    rw [List.find?_cons_of_pos hany]
    rfl
  | false =>
    rw [List.find?_cons_of_neg (by simp [hany])]
    exact (Bool.eq_false_iff.mpr (List.any_eq_false.mp hany document hdocument)).symm

theorem get_foldl_insertZero (ids : List Nat) (scores : FinMap Nat ℝ) (id : Nat) :
    (ids.foldl (fun scores id => scores.insert id bm25.zero) scores).get id =
      if id ∈ ids then some 0 else scores.get id := by
  induction ids generalizing scores with
  | nil => rfl
  | cons other ids ih =>
    rw [List.foldl_cons, ih, FinMap.get_insert]
    rcases eq_or_ne id other with rfl | hne
    · rw [Function.update_self, if_pos (List.mem_cons_self ..)]
      split <;> rfl
    · simp only [Function.update_of_ne hne, List.mem_cons, or_iff_right hne]

theorem scores_symbol (hbuilt : Built unicode documents index)
    (h : documents.any (symbolIs unicode query) = true) (id : Nat) :
    (index.scores unicode bm25 query).get id =
      if id ∈ idsOf (symbolIs unicode query) documents then some 0 else none := by
  have hids := hbuilt.symbols (normalized unicode query)
  cases hget : index.exactSymbols.get (normalized unicode query) with
  | none =>
    rw [hget] at hids
    have hnil := idsOf_eq_nil.mp hids.symm
    exact absurd (h.symm.trans hnil) (by decide)
  | some ids =>
    rw [hget] at hids
    have hids : ids = idsOf (symbolIs unicode query) documents := hids
    unfold normalized at hget
    simp only [SearchIndex.scores, hget, ← hids]
    exact get_foldl_insertZero ids FinMap.empty id

theorem get_foldl_enterZero (ids : List Nat) (scores : FinMap Nat ℝ) (id : Nat) :
    (ids.foldl (SearchIndex.enterZero bm25) scores).get id =
      (scores.get id).or (if id ∈ ids then some 0 else none) := by
  induction ids generalizing scores with
  | nil => exact Option.or_none.symm
  | cons other ids ih =>
    rw [List.foldl_cons, ih, SearchIndex.enterZero, FinMap.get_insert]
    rcases eq_or_ne id other with rfl | hne
    · rw [Function.update_self, if_pos (List.mem_cons_self ..)]
      cases scores.get id <;> rfl
    · simp only [Function.update_of_ne hne, List.mem_cons, or_iff_right hne]

theorem scores_terms (hbuilt : Built unicode documents index)
    (haverage : 0 ≤ index.averageDocumentLength)
    (h : documents.any (symbolIs unicode query) = false) :
    ∃ scores : FinMap Nat ℝ,
      Scored scores (fun id => ∃ document, documents[id]? = some document ∧
        sharesTerm unicode query document = true) ∧
      ∀ id, (index.scores unicode bm25 query).get id =
        (scores.get id).or
          (if id ∈ idsOf (nameIs unicode query) documents then some 0 else none) := by
  have hids := hbuilt.symbols (normalized unicode query)
  have hnone : index.exactSymbols.get (normalized unicode query) = none := by
    cases hget : index.exactSymbols.get (normalized unicode query) with
    | none => rfl
    | some ids =>
      rw [hget] at hids
      have hnil : ids = [] := hids.trans (idsOf_eq_nil.mpr h)
      rw [hnil] at hget
      exact absurd hget (hbuilt.symbols_ne_nil _)
  have hempty : Scored (FinMap.empty : FinMap Nat ℝ) (fun _ => False) :=
    ⟨fun _ => ⟨fun hne => absurd rfl hne, False.elim⟩, nofun⟩
  have hterms := @scored_terms _ _ _ hbuilt haverage (queryTerms unicode query) _ _ hempty
  refine ⟨_, ⟨fun id => (hterms.1 id).trans ?_, hterms.2⟩, fun id => ?_⟩
  · simp [sharesTerm, mem_queryTerms]
  · unfold normalized at hnone
    simp only [SearchIndex.scores, hnone, get_foldl_enterZero, hbuilt.names]
    rfl

end Matching

end Search
