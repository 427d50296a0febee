import MeridianMcp.Search.Search

namespace Search

open MeridianMcp Effects

variable {S : Type} [LinearOrder S] {unicode : Unicode} {scoring : Scoring S}

namespace SearchIndex

variable {index : SearchIndex}

theorem candidates_nodup (platform : Platform S) (query : Text) :
    (index.candidates unicode scoring platform query).Nodup := by
  unfold candidates
  split
  · exact List.nodup_range.filter _
  · exact platform.iterate_nodup _

theorem candidates_perm (platform platform' : Platform S) (query : Text) :
    (index.candidates unicode scoring platform query).Perm
      (index.candidates unicode scoring platform' query) := by
  unfold candidates
  split
  · exact List.Perm.refl _
  · refine (List.perm_ext_iff_of_nodup (platform.iterate_nodup _) (platform'.iterate_nodup _)).mpr ?_
    intro id
    rw [platform.mem_iterate, platform'.mem_iterate]

theorem hitFor_document {request : SearchRequest} {id : Nat} {hit : SearchHit S}
    (h : index.hitFor unicode scoring request id = some hit) :
    index.documents[id]? = some hit.document ∧ passes unicode request hit.document = true ∧
      hit.score = index.documentScore unicode scoring request.query id hit.document := by
  obtain ⟨document, hdocument, h⟩ := Option.bind_eq_some_iff.mp h
  split at h
  · rename_i hpasses
    dsimp only at h
    split at h
    · obtain rfl := Option.some.inj h
      exact ⟨hdocument, hpasses, rfl⟩
    · cases h
  · cases h

theorem hitFor_filter {request full : SearchRequest} (hquery : full.query = request.query)
    (hkind : full.kind = none) (htype : full.typePrefix = none) (hfile : full.fileFilter = none) :
    index.hitFor unicode scoring request =
      fun id => (index.hitFor unicode scoring full id).filter
        fun hit => passes unicode request hit.document := by
  funext id
  have hall : ∀ document, passes unicode full document = true := by
    intro document
    simp [passes, hkind, htype, hfile]
  unfold hitFor
  cases index.documents[id]? with
  | none => rfl
  | some document =>
    simp only [Option.bind_some, hall, if_true, hquery]
    by_cases hpos : scoring.zero < index.documentScore unicode scoring request.query id document
    · by_cases hpasses : passes unicode request document = true <;>
        simp [hpos, hpasses, Option.filter_some]
    · by_cases hpasses : passes unicode request document = true <;> simp [hpos, hpasses]

theorem length_filterMap_hitFor_le (platform : Platform S) (request : SearchRequest)
    (query : Text) :
    ((index.candidates unicode scoring platform query).filterMap
      (index.hitFor unicode scoring request)).length ≤ index.documents.length := by
  have hkept : (index.candidates unicode scoring platform query).filterMap
        (index.hitFor unicode scoring request) =
      ((index.candidates unicode scoring platform query).filter
        (· < index.documents.length)).filterMap (index.hitFor unicode scoring request) := by
    rw [List.filterMap_filter]
    congr 1
    funext id
    by_cases hid : id < index.documents.length
    · simp [hid]
    · simp [hid, hitFor]
  rw [hkept]
  refine (List.length_filterMap_le _ _).trans ?_
  have hsub : (index.candidates unicode scoring platform query).filter
      (· < index.documents.length) ⊆ List.range index.documents.length := by
    intro id hid
    exact List.mem_range.mpr (by simpa using (List.mem_filter.mp hid).2)
  simpa using (List.subperm_of_subset ((candidates_nodup platform query).filter _) hsub).length_le

theorem selectNth_take_le (platform : Platform S) {limit : Nat} {hits : List (SearchHit S)}
    (hlimit : limit < hits.length) :
    ∀ hit ∈ (platform.selectNth limit hits).take limit,
      ∀ later ∈ (platform.selectNth limit hits).drop limit, hit.key ≤ later.key := by
  intro hit hhit later hlater
  have hlen : limit < (platform.selectNth limit hits).length := by
    rwa [(platform.selectNth_perm limit hits).length_eq]
  obtain ⟨hbefore, hafter⟩ :=
    platform.selectNth_between limit hits _ (List.getElem?_eq_getElem hlen)
  have hnth := compareHits_isLE.mp (hbefore hit hhit)
  rw [List.drop_eq_getElem_cons hlen, List.mem_cons] at hlater
  rcases hlater with rfl | hlater
  · exact hnth
  · exact hnth.trans (compareHits_isLE.mp (hafter later hlater))

theorem ranked_sorted (platform : Platform S) (limit : Nat) (hits : List (SearchHit S)) :
    (ranked platform limit hits).Pairwise fun a b => (compareHits a b).isLE = true :=
  (TopK.sortBy_pairwise _ _).imp compareHits_isLE.mpr

theorem length_ranked_le (platform : Platform S) (limit : Nat) (hits : List (SearchHit S)) :
    (ranked platform limit hits).length ≤ limit := by
  rw [ranked, (TopK.sortBy_perm _ _).length_eq]
  split
  · exact List.length_take_le _ _
  · omega

theorem ranked_subperm (platform : Platform S) (limit : Nat) (hits : List (SearchHit S)) :
    (ranked platform limit hits).Subperm hits := by
  rw [ranked]
  refine (TopK.sortBy_perm _ _).subperm.trans ?_
  split
  · exact (List.take_sublist _ _).subperm.trans (platform.selectNth_perm _ _).subperm
  · exact List.Subperm.refl _

theorem ranked_perm_of_le (platform : Platform S) {limit : Nat} {hits : List (SearchHit S)}
    (hlimit : hits.length ≤ limit) : (ranked platform limit hits).Perm hits := by
  rw [ranked, if_neg (Nat.not_lt.mpr hlimit)]
  exact TopK.sortBy_perm _ _

theorem map_key_ranked (platform : Platform S) (limit : Nat) {hits sorted : List (SearchHit S)}
    (hperm : hits.Perm sorted) (hsorted : sorted.Pairwise fun a b => a.key ≤ b.key) :
    (ranked platform limit hits).map SearchHit.key = (sorted.take limit).map SearchHit.key := by
  rw [ranked]
  split
  · rename_i hlimit
    have hselected := TopK.map_key_sortBy_selected (κ := Sᵒᵈ ×ₗ Text ×ₗ Text ×ₗ Nat ×ₗ Nat)
      (by rw [List.take_append_drop]; exact (platform.selectNth_perm limit hits).trans hperm)
      (selectNth_take_le platform hlimit) hsorted
    rwa [List.length_take, (platform.selectNth_perm limit hits).length_eq,
      min_eq_left hlimit.le] at hselected
  · rename_i hlimit
    rw [List.take_of_length_le (by rw [← hperm.length_eq]; exact Nat.le_of_not_lt hlimit)]
    exact TopK.map_key_eq_of_perm ((TopK.sortBy_perm _ _).trans hperm) (TopK.sortBy_pairwise _ _)
      hsorted

theorem filtered_search (index : SearchIndex) (platform platform' : Platform S)
    {request full : SearchRequest} (hlimit : 1 ≤ request.limit)
    (hquery : full.query = request.query) (hkind : full.kind = none)
    (htype : full.typePrefix = none) (hfile : full.fileFilter = none)
    (hfull : index.documents.length < full.limit) :
    (index.search unicode scoring platform request).hits.length ≤ request.limit ∧
    (index.search unicode scoring platform request).hits.Pairwise
      (fun a b => (compareHits a b).isLE = true) ∧
    (index.search unicode scoring platform request).hits.map SearchHit.key =
      (((index.search unicode scoring platform' full).hits.filter
        fun hit => passes unicode request hit.document).take request.limit).map SearchHit.key ∧
    (index.search unicode scoring platform request).hits.Subperm
      ((index.search unicode scoring platform' full).hits.filter
        fun hit => passes unicode request hit.document) ∧
    ∀ hit ∈ (index.search unicode scoring platform request).hits,
      ∃ id, index.documents[id]? = some hit.document ∧
        hit.score = index.documentScore unicode scoring request.query id hit.document := by
  by_cases hterms : queryTerms unicode request.query = []
  · have hfull' : queryTerms unicode full.query = [] := hquery ▸ hterms
    simp [search, hterms, hfull']
  · have hleft : ¬ (queryTerms unicode request.query = [] ∨ request.limit = 0) := by
      rintro (h | h)
      · exact hterms h
      · omega
    have hright : ¬ (queryTerms unicode full.query = [] ∨ full.limit = 0) := by
      rintro (h | h)
      · exact hterms (hquery ▸ h)
      · omega
    set found := (index.candidates unicode scoring platform request.query).filterMap
      (index.hitFor unicode scoring request) with hfound
    set whole := (index.candidates unicode scoring platform' full.query).filterMap
      (index.hitFor unicode scoring full) with hwhole
    have hhits : (index.search unicode scoring platform request).hits =
        ranked platform request.limit found := by
      rw [search, if_neg hleft]
    have hhits' : (index.search unicode scoring platform' full).hits =
        ranked platform' full.limit whole := by
      rw [search, if_neg hright]
    have hwholeLen : whole.length ≤ full.limit :=
      (length_filterMap_hitFor_le platform' full full.query).trans hfull.le
    have hperm : found.Perm ((ranked platform' full.limit whole).filter
        fun hit => passes unicode request hit.document) := by
      refine List.Perm.trans ?_ ((ranked_perm_of_le platform' hwholeLen).filter _).symm
      rw [hfound, hitFor_filter hquery hkind htype hfile, hwhole, hquery, List.filter_filterMap]
      exact (candidates_perm platform platform' request.query).filterMap _
    have hsorted : ((ranked platform' full.limit whole).filter
        fun hit => passes unicode request hit.document).Pairwise fun a b => a.key ≤ b.key :=
      ((ranked_sorted platform' full.limit whole).imp compareHits_isLE.mp).filter _
    rw [hhits, hhits']
    refine ⟨length_ranked_le _ _ _, ranked_sorted _ _ _, map_key_ranked _ _ hperm hsorted,
      (ranked_subperm _ _ _).trans hperm.subperm, ?_⟩
    intro hit hhit
    have hmem := (ranked_subperm _ _ _).subset hhit
    rw [hfound, List.mem_filterMap] at hmem
    obtain ⟨id, -, hid⟩ := hmem
    obtain ⟨hdocument, -, hscore⟩ := hitFor_document hid
    exact ⟨id, hdocument, hscore⟩

end SearchIndex

def namedDocument (kind : SymbolKind) (symbol name : String) : SearchDocument :=
  { kind := kind, symbol := symbol.toList, name := name.toList, typePath := "/turf".toList
    implementationOwner := none, declarationOwner := none, parent := none
    file := "air.dm".toList, line := 1, column := 1, docs := [], source := none, parameters := []
    overrideIndex := none, overrideCount := none }

def plainUnicode : Unicode where
  isAlphanumeric := Char.isAlphanum
  isWhitespace := Char.isWhitespace
  toLowercase := List.map Char.toLower

def countScoring : Scoring Nat where
  zero := 0
  add := Nat.add
  postingScore _ _ _ _ termFrequency := termFrequency
  exactSymbolBoost := 12
  exactNameBoost := 6
  phraseBoost := 2

def sortingPlatform (S : Type) [LinearOrder S] : Platform S where
  iterate keys := keys.sort (· ≤ ·)
  iterate_nodup keys := Finset.sort_nodup _ _
  mem_iterate keys id := Finset.mem_sort _
  selectNth _ hits := TopK.sortBy SearchHit.key hits
  selectNth_perm _ _ := TopK.sortBy_perm _ _
  selectNth_between n hits nth hnth := by
    obtain ⟨hn, rfl⟩ := List.getElem?_eq_some_iff.mp hnth
    have hsorted := TopK.sortBy_pairwise SearchHit.key hits
    rw [← List.take_append_drop n (TopK.sortBy SearchHit.key hits), List.pairwise_append,
      List.drop_eq_getElem_cons hn, List.pairwise_cons] at hsorted
    refine ⟨fun hit hhit => compareHits_isLE.mpr ?_, fun hit hhit => compareHits_isLE.mpr ?_⟩
    · exact hsorted.2.2 hit hhit _ (List.mem_cons_self ..)
    · exact hsorted.2.1.1 hit hhit

def airIndex : SearchIndex :=
  SearchIndex.new plainUnicode [namedDocument .proc "/turf/proc/update_air" "update_air",
    namedDocument .var "/turf/var/air" "air"]

def airQuery (kind : Option SymbolKind) (limit : Nat) : SearchRequest :=
  { query := "air".toList, kind := kind, typePrefix := none, fileFilter := none, limit := limit }

theorem air_search_filters :
    (airIndex.search plainUnicode countScoring (sortingPlatform Nat)
        (airQuery (some .proc) 1)).hits.map SearchHit.key =
      (((airIndex.search plainUnicode countScoring (sortingPlatform Nat)
          (airQuery none 3)).hits.filter fun hit =>
        passes plainUnicode (airQuery (some .proc) 1) hit.document).take 1).map SearchHit.key :=
  (@SearchIndex.filtered_search Nat _ plainUnicode countScoring airIndex (sortingPlatform Nat)
    (sortingPlatform Nat) (airQuery (some .proc) 1) (airQuery none 3) le_rfl rfl rfl rfl rfl
    (by decide)).2.2.1

end Search
