import MeridianMcp.Search.Matches

namespace Search

open MeridianMcp Effects

variable {unicode : Unicode} {documents : List SearchDocument} {index : SearchIndex} {query : Text}

-- The candidates are the documents that match, and each has a positive score.
structure Ranks (unicode : Unicode) (documents : List SearchDocument) (index : SearchIndex)
    (platform : Platform ℝ) (query : Text) (p : SearchDocument → Bool) : Prop where
  mem_candidates : ∀ id, id ∈ index.candidates unicode bm25 platform query ↔
    ∃ document, documents[id]? = some document ∧ p document = true
  score_pos : ∀ id document, documents[id]? = some document → p document = true →
    0 < index.documentScore unicode bm25 query id document

theorem mem_candidates_of_scored (platform : Platform ℝ) {p : Nat → Prop}
    (h : ∀ id, (index.scores unicode bm25 query).get id ≠ none ↔ p id) (hsome : ∃ id, p id)
    (id : Nat) : id ∈ index.candidates unicode bm25 platform query ↔ p id := by
  obtain ⟨found, hfound⟩ := hsome
  have hne : (index.scores unicode bm25 query).keys ≠ ∅ :=
    Finset.ne_empty_of_mem ((FinMap.mem_keys _ _).mpr ((h found).mpr hfound))
  rw [SearchIndex.candidates, if_neg hne, platform.mem_iterate, FinMap.mem_keys, h]

theorem exists_of_any {p : SearchDocument → Bool} (h : documents.any p = true) :
    ∃ (id : Nat) (document : SearchDocument), documents[id]? = some document ∧
      p document = true := by
  obtain ⟨document, hdocument, hp⟩ := List.any_eq_true.mp h
  obtain ⟨id, hid⟩ := List.mem_iff_getElem?.mp hdocument
  exact ⟨id, document, hid, hp⟩

theorem ranks_symbol (hlower : AsciiLowercase unicode) (hbuilt : Built unicode documents index)
    (platform : Platform ℝ) (h : documents.any (symbolIs unicode query) = true) :
    Ranks unicode documents index platform query (symbolIs unicode query) where
  mem_candidates := by
    refine mem_candidates_of_scored platform (fun id => ?_) (exists_of_any h)
    rw [scores_symbol hbuilt h, ← mem_idsOf]
    split <;> simp [*]
  score_pos id document hdocument hsymbol := by
    have hid : id ∈ idsOf (symbolIs unicode query) documents :=
      mem_idsOf.mpr ⟨document, hdocument, hsymbol⟩
    rw [SearchIndex.documentScore, scores_symbol hbuilt h, if_pos hid]
    exact boost_pos (le_refl 0)
      (.inr (.inl (equals_of_toLowercase hlower (of_decide_eq_true hsymbol))))

theorem ranks_term (hlower : AsciiLowercase unicode) (hbuilt : Built unicode documents index)
    (haverage : 0 ≤ index.averageDocumentLength) (platform : Platform ℝ)
    (hsymbol : documents.any (symbolIs unicode query) = false)
    (h : documents.any (fun document =>
      sharesTerm unicode query document || nameIs unicode query document) = true) :
    Ranks unicode documents index platform query fun document =>
      sharesTerm unicode query document || nameIs unicode query document := by
  obtain ⟨scores, ⟨hshared, hpositive⟩, hscores⟩ := scores_terms hbuilt haverage hsymbol
  constructor
  · refine mem_candidates_of_scored platform (fun id => ?_) (exists_of_any h)
    have hname := @mem_idsOf documents (nameIs unicode query) id
    have hshare : scores.get id ≠ none ↔ ∃ document, documents[id]? = some document ∧
      sharesTerm unicode query document = true := hshared id
    simp only [Bool.or_eq_true, and_or_left, exists_or]
    rw [hscores, ← hname, ← hshare]
    cases scores.get id with
    | none => by_cases hmem : id ∈ idsOf (nameIs unicode query) documents <;> simp [hmem]
    | some score => simp
  · intro id document hdocument hmatches
    rw [SearchIndex.documentScore, hscores]
    cases hscore : scores.get id with
    | some score =>
      have hpos := hpositive id score hscore
      exact boost_pos hpos.le (.inl hpos)
    | none =>
      have hnot : ¬sharesTerm unicode query document = true := fun hshares =>
        (hshared id).mpr ⟨document, hdocument, hshares⟩ hscore
      have hname : nameIs unicode query document = true := by simpa [hnot] using hmatches
      rw [if_pos (mem_idsOf.mpr ⟨document, hdocument, hname⟩)]
      exact boost_pos (le_refl 0)
        (.inr (.inr (.inl (equals_of_toLowercase hlower (of_decide_eq_true hname)))))

theorem ranks_contains (hlower : AsciiLowercase unicode) (hbuilt : Built unicode documents index)
    (haverage : 0 ≤ index.averageDocumentLength) (platform : Platform ℝ)
    (hsymbol : documents.any (symbolIs unicode query) = false)
    (h : documents.any (fun document =>
      sharesTerm unicode query document || nameIs unicode query document) = false) :
    Ranks unicode documents index platform query (symbolContains unicode query) := by
  obtain ⟨scores, ⟨hshared, -⟩, hscores⟩ := scores_terms hbuilt haverage hsymbol
  have hnone : ∀ id, (index.scores unicode bm25 query).get id = none := by
    intro id
    have hno : ∀ document, documents[id]? = some document →
        sharesTerm unicode query document = false ∧ nameIs unicode query document = false := by
      intro document hdocument
      have hnot := List.any_eq_false.mp h document (List.mem_of_getElem? hdocument)
      simpa using hnot
    have hscore : scores.get id = none := by
      by_contra hne
      obtain ⟨document, hdocument, hshares⟩ := (hshared id).mp hne
      rw [(hno document hdocument).1] at hshares
      cases hshares
    have hname : id ∉ idsOf (nameIs unicode query) documents := by
      intro hmem
      obtain ⟨document, hdocument, hname⟩ := mem_idsOf.mp hmem
      rw [(hno document hdocument).2] at hname
      cases hname
    rw [hscores, hscore, if_neg hname]
    rfl
  have hkeys : (index.scores unicode bm25 query).keys = ∅ := by
    refine Finset.eq_empty_of_forall_notMem fun id hid => ?_
    exact (FinMap.mem_keys _ _).mp hid (hnone id)
  constructor
  · intro id
    rw [SearchIndex.candidates, if_pos hkeys, List.mem_filter, List.mem_range, hbuilt.documents_eq]
    simp only [contains_eq hlower, Option.any_eq_true]
    constructor
    · rintro ⟨-, document, hdocument, hcontains⟩
      exact ⟨document, hdocument, hcontains⟩
    · rintro ⟨document, hdocument, hcontains⟩
      exact ⟨(List.getElem?_eq_some_iff.mp hdocument).1, document, hdocument, hcontains⟩
  · intro id document hdocument hcontains
    rw [SearchIndex.documentScore, hnone]
    refine boost_pos (le_refl 0) (.inr (.inr (.inr ?_)))
    rw [contains_eq hlower]
    exact hcontains

theorem ranks (hlower : AsciiLowercase unicode) (hbuilt : Built unicode documents index)
    (haverage : 0 ≤ index.averageDocumentLength) (platform : Platform ℝ) (query : Text) :
    Ranks unicode documents index platform query (firstMatching unicode documents query) := by
  cases hsymbol : documents.any (symbolIs unicode query) with
  | true =>
    rw [firstMatching_symbol hsymbol]
    exact ranks_symbol hlower hbuilt platform hsymbol
  | false =>
    cases hterm : documents.any (fun document =>
      sharesTerm unicode query document || nameIs unicode query document) with
    | true =>
      rw [firstMatching_term hsymbol hterm]
      exact ranks_term hlower hbuilt haverage platform hsymbol hterm
    | false =>
      have hcontains := ranks_contains hlower hbuilt haverage platform hsymbol hterm
      have hsame : ∀ id document, documents[id]? = some document →
          firstMatching unicode documents query document = symbolContains unicode query document :=
        fun id document hdocument =>
          firstMatching_contains hsymbol hterm (List.mem_of_getElem? hdocument)
      constructor
      · intro id
        rw [hcontains.mem_candidates]
        refine exists_congr fun document => and_congr_right fun hdocument => ?_
        rw [hsame id document hdocument]
      · intro id document hdocument hmatches
        exact hcontains.score_pos id document hdocument (hsame id document hdocument ▸ hmatches)

theorem filterMap_range {p : SearchDocument → Bool} (documents : List SearchDocument) :
    (List.range documents.length).filterMap (fun id => (documents[id]?).filter p) =
      documents.filter p := by
  induction documents using List.reverseRecOn with
  | nil => rfl
  | append_singleton documents document ih =>
    have hold : ∀ id ∈ List.range documents.length,
        ((documents ++ [document])[id]?).filter p = (documents[id]?).filter p := by
      intro id hid
      rw [List.getElem?_append_left (List.mem_range.mp hid)]
    rw [List.length_append, List.length_singleton, List.range_succ, List.filterMap_append,
      List.filterMap_congr hold, ih, List.filter_append, List.filterMap_cons, List.filterMap_nil,
      List.getElem?_concat_length, List.filter_singleton, Option.filter_some]
    cases p document <;> rfl

theorem hits_of_ranks {platform : Platform ℝ} {p : SearchDocument → Bool}
    (hbuilt : Built unicode documents index) {request : SearchRequest}
    (h : Ranks unicode documents index platform request.query p) :
    (((index.candidates unicode bm25 platform request.query).filterMap
      (index.hitFor unicode bm25 request)).map SearchHit.document).Perm
        (documents.filter fun document => passes unicode request document && p document) := by
  have hhit : ∀ id ∈ index.candidates unicode bm25 platform request.query,
      (index.hitFor unicode bm25 request id).map SearchHit.document =
        (documents[id]?).filter fun document => passes unicode request document && p document := by
    intro id hid
    obtain ⟨document, hdocument, hp⟩ := (h.mem_candidates id).mp hid
    have hpos : bm25.zero < index.documentScore unicode bm25 request.query id document :=
      h.score_pos id document hdocument hp
    rw [SearchIndex.hitFor, hbuilt.documents_eq, hdocument, Option.bind_some, Option.filter_some,
      hp, Bool.and_true]
    split
    · dsimp only
      rw [if_pos hpos]
      rfl
    · rfl
  have hids : (index.candidates unicode bm25 platform request.query).Perm
      ((List.range documents.length).filter fun id => (documents[id]?).any p) := by
    refine (List.perm_ext_iff_of_nodup (SearchIndex.candidates_nodup platform request.query)
      (List.nodup_range.filter _)).mpr fun id => ?_
    rw [h.mem_candidates, List.mem_filter, List.mem_range, Option.any_eq_true]
    constructor
    · rintro ⟨document, hdocument, hp⟩
      exact ⟨(List.getElem?_eq_some_iff.mp hdocument).1, document, hdocument, hp⟩
    · exact And.right
  have hskip : ∀ id : Nat, (if (documents[id]?).any p = true then
      (documents[id]?).filter fun document => passes unicode request document && p document
      else none) =
        (documents[id]?).filter fun document => passes unicode request document && p document := by
    intro id
    cases documents[id]? with
    | none => rfl
    | some document => cases hp : p document <;> simp [hp, Option.filter_some]
  rw [List.map_filterMap, List.filterMap_congr hhit]
  refine (hids.filterMap _).trans (List.Perm.of_eq ?_)
  rw [List.filterMap_filter]
  simp only [hskip]
  exact filterMap_range documents

-- The search ranks what it has found, and a limit of no hits at all keeps none of them.
theorem search_hits (platform : Platform ℝ) {request : SearchRequest}
    (h : queryTerms unicode request.query ≠ []) :
    ((index.search unicode bm25 platform request).hits) =
      SearchIndex.ranked platform request.limit
        ((index.candidates unicode bm25 platform request.query).filterMap
          (index.hitFor unicode bm25 request)) := by
  rw [SearchIndex.search]
  split
  · rename_i hguard
    have hlimit := hguard.resolve_left h
    have hlength := SearchIndex.length_ranked_le platform request.limit
      ((index.candidates unicode bm25 platform request.query).filterMap
        (index.hitFor unicode bm25 request))
    rw [hlimit] at hlength ⊢
    exact (List.eq_nil_of_length_eq_zero (Nat.le_zero.mp hlength)).symm
  · rfl

theorem search_complete (hlower : AsciiLowercase unicode) (hcounts : Countable unicode documents)
    (platform : Platform ℝ) :
    Indexed unicode documents (SearchIndex.new unicode documents) ∧
      ∀ request : SearchRequest, tokenize unicode request.query ≠ [] →
        Finds unicode documents platform request := by
  have hbuilt := built_new hcounts
  refine ⟨hbuilt.toIndexed, fun request hterms => ⟨_, search_hits platform fun hnil => ?_, ?_⟩⟩
  · refine hterms (List.eq_nil_iff_forall_not_mem.mpr fun term hterm => ?_)
    have hmem := mem_queryTerms.mpr hterm
    rw [hnil] at hmem
    cases hmem
  · exact hits_of_ranks hbuilt
      (ranks hlower hbuilt (average_nonneg unicode documents) platform request.query)

theorem weightedCount_le (document : SearchDocument) (term : Text) :
    weightedCount unicode document term ≤ ((weightedFields document).map fun field =>
      field.2 * (tokenize unicode field.1).length).sum :=
  List.sum_le_sum fun _ _ => Nat.mul_le_mul_left _ List.count_le_length

def airDocuments : List SearchDocument :=
  [namedDocument .proc "/turf/proc/update_air" "update_air",
    namedDocument .var "/turf/var/air" "air"]

theorem countable_air : Countable plainUnicode airDocuments := by
  have hsmall : ∀ document ∈ airDocuments, ((weightedFields document).map fun field =>
      field.2 * (tokenize plainUnicode field.1).length).sum < 2 ^ 32 := by
    decide
  exact fun document hdocument term =>
    (weightedCount_le document term).trans_lt (hsmall document hdocument)

theorem search_complete_air :
    Indexed plainUnicode airDocuments (SearchIndex.new plainUnicode airDocuments) ∧
      Finds plainUnicode airDocuments (sortingPlatform ℝ) (airQuery (some .proc) 1) := by
  have hlower : AsciiLowercase plainUnicode := fun _ _ => rfl
  have hcomplete := search_complete hlower countable_air (sortingPlatform ℝ)
  exact ⟨hcomplete.1, hcomplete.2 _ (by decide)⟩

def slashQuery : SearchRequest :=
  { query := ['/'], kind := none, typePrefix := none, fileFilter := none, limit := 10 }

theorem slash_finds_nothing : ¬ Finds plainUnicode airDocuments (sortingPlatform ℝ) slashQuery := by
  rintro ⟨hits, hhits, hperm⟩
  have hnone : queryTerms plainUnicode slashQuery.query = [] := by decide
  rw [SearchIndex.search, if_pos (Or.inl hnone)] at hhits
  have hmatching : (airDocuments.filter fun document => passes plainUnicode slashQuery document &&
      firstMatching plainUnicode airDocuments slashQuery.query document).length = 2 := by
    decide
  have hlength := hperm.length_eq
  rw [List.length_map, hmatching] at hlength
  have hle : hits.length ≤ slashQuery.limit := by
    rw [hlength]
    decide
  have hranked := SearchIndex.ranked_perm_of_le (sortingPlatform ℝ) hle
  rw [← hhits] at hranked
  rw [← hranked.length_eq] at hlength
  cases hlength

theorem tokenize_append {left right : Text} {c : Char} (h : unicode.isAlphanumeric c = false) :
    tokenize unicode (left ++ c :: right) = tokenize unicode left ++ tokenize unicode right := by
  rw [tokenize, List.splitOnP_append_cons _ _ (by simp [h]), List.filter_append, List.map_append]
  rfl

def repeatedName (n : Nat) : Text := (List.replicate n ['a', ' ']).flatten

theorem tokenize_repeatedName (n : Nat) :
    tokenize plainUnicode (repeatedName n) = List.replicate n ['a'] := by
  induction n with
  | zero => rfl
  | succ n ih =>
    have hname : repeatedName (n + 1) = ['a'] ++ ' ' :: repeatedName n := by
      simp [repeatedName, List.replicate_succ]
    rw [hname, tokenize_append (by decide), ih, List.replicate_succ]
    rfl

theorem not_indexed_of_large {document : SearchDocument} {term : Text}
    (h : 2 ^ 32 ≤ weightedCount unicode document term) :
    ¬ Indexed unicode [document] (SearchIndex.new unicode [document]) := by
  intro hindexed
  have hoccurs : Occurs unicode document term := by
    by_contra hnot
    rw [weightedCount, sum_counts_eq_zero hnot] at h
    exact absurd h (by decide)
  have hwrapped : ((SearchIndex.new unicode [document]).postings.get term).getD [] =
      [⟨0, weightedCount unicode document term % 2 ^ 32⟩] := by
    have hpush := get_pushPostings (weightedTerms unicode document) FinMap.empty 0 term
    rw [get_weightedTerms, if_pos hoccurs] at hpush
    exact hpush
  have hposting := hindexed.postings term
  rw [hwrapped] at hposting
  have hmem : ⟨0, weightedCount unicode document term % 2 ^ 32⟩ ∈
      postingsOf unicode [document] term := by
    rw [← hposting]
    exact List.mem_singleton_self _
  obtain ⟨other, hother, -, hcount⟩ := mem_postingsOf.mp hmem
  obtain rfl : document = other := Option.some.inj hother
  exact absurd (hcount ▸ Nat.mod_lt _ (Nat.two_pow_pos 32)) (not_lt.mpr h)

def repeatedDocument (n : Nat) : SearchDocument :=
  { namedDocument .proc "" "" with name := repeatedName n }

theorem weightedCount_repeatedDocument (n : Nat) :
    10 * n ≤ weightedCount plainUnicode (repeatedDocument n) ['a'] := by
  have hname : (repeatedName n, 10) ∈ weightedFields (repeatedDocument n) := List.mem_cons_self ..
  have hle := List.single_le_sum (fun _ _ => Nat.zero_le _) _ (List.mem_map_of_mem
    (f := fun field : Text × Nat => field.2 * (tokenize plainUnicode field.1).count ['a']) hname)
  rw [tokenize_repeatedName, List.count_replicate_self] at hle
  exact hle

-- The counter of a term wraps around, and the query of no term finds nothing.
theorem search_incomplete :
    (∃ document, ¬ Indexed plainUnicode [document] (SearchIndex.new plainUnicode [document])) ∧
      ∃ request : SearchRequest, request.query ≠ [] ∧ Countable plainUnicode airDocuments ∧
        ¬ Finds plainUnicode airDocuments (sortingPlatform ℝ) request := by
  have hlarge : 2 ^ 32 ≤ 10 * 429496730 := by decide
  exact ⟨⟨repeatedDocument 429496730,
    not_indexed_of_large (hlarge.trans (weightedCount_repeatedDocument 429496730))⟩,
    slashQuery, by decide, countable_air, slash_finds_nothing⟩

end Search
