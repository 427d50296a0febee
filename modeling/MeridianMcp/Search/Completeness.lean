import MeridianMcp.Search.Canonical

namespace Search

open MeridianMcp Effects Fallible Language

variable {context : AnalysisContext} {tree : ObjectTree} {fuel : Nat} {resolver : ProcResolver}
  {unicode : Unicode} {sources : Sources}

structure Place where
  name : Text
  file : Text
  line : Nat
  column : Nat
  deriving DecidableEq

def documentPlace (document : SearchDocument) : Place :=
  ⟨document.name, document.file, document.line, document.column⟩

def refPlace (sources : Sources) (ref : ProcRef) : Place :=
  ⟨ref.name, sources.contextFile ref.value.location.file, ref.value.location.line,
    ref.value.location.column⟩

def valuePlace (sources : Sources) (name : Text) (value : ProcValue) : Place :=
  ⟨name, sources.contextFile value.location.file, value.location.line, value.location.column⟩

theorem filter_mapIdx_map {α β γ : Type} {g : Nat → α → β} {p : α → Bool} {q : β → Bool}
    {place : β → γ} {place' : α → γ} (hq : ∀ i a, q (g i a) = p a)
    (hplace : ∀ i a, place (g i a) = place' a) (l : List α) :
    ((l.mapIdx g).filter q).map place = (l.filter p).map place' := by
  induction l generalizing g with
  | nil => rfl
  | cons a l ih =>
    rw [List.mapIdx_cons, List.filter_cons, List.filter_cons, hq]
    have htail := ih (fun i b => hq (i + 1) b) (fun i b => hplace (i + 1) b)
    split
    · rw [List.map_cons, List.map_cons, hplace, htail]
    · exact htail

theorem procDocuments_places (unicode : Unicode) (sources : Sources) (tree : ObjectTree)
    (ty : TypeNode) :
    (procDocuments unicode sources tree ty).map documentPlace =
      (ty.iterSelfProcs.filter fun ref => !ref.value.location.isBuiltins).map (refPlace sources) := by
  rw [procDocuments, TypeNode.iterSelfProcs, List.map_flatMap, List.filter_flatMap,
    List.map_flatMap]
  congr 1
  funext entry
  dsimp only
  have hdocuments := @filter_mapIdx_map _ _ _ (procDocument unicode sources tree ty entry.1
      (entry.2.value.filter fun value => !value.location.isBuiltins).length) (fun _ => true)
    (fun _ => true) documentPlace (valuePlace sources entry.1) (fun _ _ => rfl) (fun _ _ => rfl)
    (entry.2.value.filter fun value => !value.location.isBuiltins)
  have hrefs := @filter_mapIdx_map _ _ _
    (fun idx value => (⟨ty, entry.1, entry.2.value, value, idx⟩ : ProcRef))
    (fun value => !value.location.isBuiltins) (fun ref => !ref.value.location.isBuiltins)
    (refPlace sources) (valuePlace sources entry.1) (fun _ _ => rfl) (fun _ _ => rfl) entry.2.value
  rw [hrefs, ← List.filter_true (entry.2.value.filter _), ← hdocuments, List.filter_true,
    List.filter_true]

theorem fromObjectTree_procs (unicode : Unicode) (sources : Sources) (tree : ObjectTree) :
    ((fromObjectTree unicode sources tree).filter fun document => document.kind = .proc).map
        documentPlace =
      (visibleRefs tree).map (refPlace sources) := by
  rw [fromObjectTree, visibleRefs, treeRefs, List.filter_flatMap, List.map_flatMap,
    List.filter_flatMap, List.map_flatMap]
  congr 1
  funext ty
  have htypes : (typeDocuments unicode sources tree ty).filter
      (fun document => document.kind = .proc) = [] := by
    unfold typeDocuments
    split <;> rfl
  have hvars : (varDocuments unicode sources tree ty).filter
      (fun document => document.kind = .proc) = [] := by
    rw [List.filter_eq_nil_iff]
    intro document hdocument
    obtain ⟨entry, -, rfl⟩ := List.mem_map.mp hdocument
    exact Bool.false_ne_true
  have hprocs : (procDocuments unicode sources tree ty).filter
      (fun document => document.kind = .proc) = procDocuments unicode sources tree ty := by
    rw [List.filter_eq_self]
    intro document hdocument
    obtain ⟨entry, -, hdocument⟩ := List.mem_flatMap.mp hdocument
    obtain ⟨_, _, rfl⟩ := List.mem_mapIdx.mp hdocument
    rfl
  rw [List.filter_append, List.filter_append, htypes, hvars, hprocs, List.nil_append,
    List.nil_append, procDocuments_places]

def keptDocument (canonical : FinMap JoinKey Canonical) (document : SearchDocument) :
    Option SearchDocument :=
  if document.kind ≠ .proc then some document
  else (canonical.get (documentKey document)).map fun entry => rewriteDocument entry document

def documentMark (canonical : FinMap JoinKey Canonical) (document : SearchDocument) : Option Mark :=
  if document.kind ≠ .proc then none
  else (canonical.get (documentKey document)).map fun entry => markOf entry document

theorem foldl_retainDocument (canonical : FinMap JoinKey Canonical) {documents : List SearchDocument}
    {state : List SearchDocument × List Mark}
    (hmarks : (documents.filterMap (documentMark canonical)).Nodup)
    (hseen : ∀ mark ∈ documents.filterMap (documentMark canonical), mark ∉ state.2) :
    (documents.foldl (retainDocument canonical) state).1 =
      state.1 ++ documents.filterMap (keptDocument canonical) := by
  induction documents generalizing state with
  | nil => simp
  | cons document documents ih =>
    rw [List.foldl_cons]
    by_cases hkind : document.kind = .proc
    · cases hget : canonical.get (documentKey document) with
      | none =>
        have hmark : documentMark canonical document = none := by simp [documentMark, hget]
        have hkept : keptDocument canonical document = none := by simp [keptDocument, hkind, hget]
        rw [List.filterMap_cons, hmark] at hmarks hseen
        have hstep : retainDocument canonical state document = state := by
          simp [retainDocument, hkind, hget]
        rw [hstep, ih hmarks hseen, List.filterMap_cons, hkept]
      | some entry =>
        have hmark : documentMark canonical document = some (markOf entry document) := by
          simp [documentMark, hkind, hget]
        have hkept : keptDocument canonical document = some (rewriteDocument entry document) := by
          simp [keptDocument, hkind, hget]
        rw [List.filterMap_cons, hmark] at hmarks hseen
        obtain ⟨hfresh, hrest⟩ := List.nodup_cons.mp hmarks
        have hstep : retainDocument canonical state document =
            (state.1 ++ [rewriteDocument entry document], markOf entry document :: state.2) := by
          rw [retainDocument, if_neg (not_not.mpr hkind), hget]
          exact if_neg (hseen _ (List.mem_cons_self ..))
        rw [hstep, ih hrest, List.filterMap_cons, hkept, List.append_assoc, List.singleton_append]
        intro mark hmem hold
        rcases List.mem_cons.mp hold with rfl | hold
        · exact hfresh hmem
        · exact hseen mark (List.mem_cons_of_mem _ hmem) hold
    · have hmark : documentMark canonical document = none := by simp [documentMark, hkind]
      have hkept : keptDocument canonical document = some document := by simp [keptDocument, hkind]
      rw [List.filterMap_cons, hmark] at hmarks hseen
      have hstep : retainDocument canonical state document = (state.1 ++ [document], state.2) := by
        rw [retainDocument, if_pos hkind]
      rw [hstep, @ih (state.1 ++ [document], state.2) hmarks hseen, List.filterMap_cons, hkept,
        List.append_assoc, List.singleton_append]

theorem mem_foldl_retainDocument {canonical : FinMap JoinKey Canonical}
    {documents : List SearchDocument} {state : List SearchDocument × List Mark}
    {document : SearchDocument}
    (h : document ∈ (documents.foldl (retainDocument canonical) state).1) :
    document ∈ state.1 ∨ ∃ original ∈ documents, keptDocument canonical original = some document := by
  induction documents generalizing state with
  | nil => exact Or.inl h
  | cons original documents ih =>
    rcases ih h with hold | ⟨other, hother, hkept⟩
    · unfold retainDocument at hold
      split at hold
      · rename_i hkind
        rcases List.mem_append.mp hold with hold | hnew
        · exact Or.inl hold
        · rw [List.mem_singleton] at hnew
          exact Or.inr ⟨original, List.mem_cons_self .., by rw [keptDocument, if_pos hkind, hnew]⟩
      · rename_i hkind
        split at hold
        · exact Or.inl hold
        · rename_i entry hget
          split at hold
          · exact Or.inl hold
          · rcases List.mem_append.mp hold with hold | hnew
            · exact Or.inl hold
            · rw [List.mem_singleton] at hnew
              refine Or.inr ⟨original, List.mem_cons_self .., ?_⟩
              rw [keptDocument, if_neg hkind, hget, hnew]
              rfl
    · exact Or.inr ⟨other, List.mem_cons_of_mem _ hother, hkept⟩

theorem ref_of_mem_iterSelfProcs {ty : TypeNode} {ref : ProcRef} (h : ref ∈ ty.iterSelfProcs) :
    ∃ entry ∈ ty.procs, ref.name = entry.1 ∧ ref.list = entry.2.value ∧
      entry.2.value[ref.index]? = some ref.value := by
  obtain ⟨entry, hentry, hmem⟩ := List.mem_flatMap.mp h
  obtain ⟨i, hi, rfl⟩ := List.mem_mapIdx.mp hmem
  exact ⟨entry, hentry, rfl, rfl, List.getElem?_eq_getElem hi⟩

theorem ref_ext {ref ref' : ProcRef} (href : ref ∈ treeRefs tree) (href' : ref' ∈ treeRefs tree)
    (hpath : ref.ty.path = ref'.ty.path) (hname : ref.name = ref'.name)
    (hindex : ref.index = ref'.index) : ref = ref' := by
  obtain ⟨hty, hself⟩ := mem_treeRefs.mp href
  obtain ⟨hty', hself'⟩ := mem_treeRefs.mp href'
  have hsame := tree.path_inj hty hty' hpath
  obtain ⟨entry, hentry, hn, hl, hv⟩ := ref_of_mem_iterSelfProcs hself
  obtain ⟨entry', hentry', hn', hl', hv'⟩ := ref_of_mem_iterSelfProcs hself'
  rw [← hsame] at hentry'
  obtain rfl : entry = entry' := List.inj_on_of_nodup_map (tree.procs_nodup _ hty) hentry hentry'
    (by rw [← hn, ← hn', hname])
  rw [← hindex, hv, Option.some.injEq] at hv'
  obtain ⟨ty, name, list, value, index⟩ := ref
  obtain ⟨ty', name', list', value', index'⟩ := ref'
  simp only at hsame hname hl hl' hv' hindex
  rw [hsame, hname, hl, hl', hv', hindex]

theorem iterSelfProcs_nodup {ty : TypeNode} (hty : ty ∈ tree.graph) : ty.iterSelfProcs.Nodup := by
  rw [TypeNode.iterSelfProcs, List.nodup_flatMap]
  constructor
  · intro entry _
    apply List.Nodup.of_map ProcRef.index
    rw [List.mapIdx_eq_zipIdx_map, List.map_map]
    change (entry.2.value.zipIdx.map Prod.snd).Nodup
    rw [List.zipIdx_map_snd]
    exact List.nodup_range'
  · have hnames := tree.procs_nodup ty hty
    rw [List.Nodup, List.pairwise_map] at hnames
    refine hnames.imp fun {entry entry'} hne => ?_
    intro ref href href'
    obtain ⟨_, _, rfl⟩ := List.mem_mapIdx.mp href
    obtain ⟨_, _, heq⟩ := List.mem_mapIdx.mp href'
    exact hne (congrArg ProcRef.name heq).symm

theorem visibleRefs_nodup (tree : ObjectTree) : (visibleRefs tree).Nodup := by
  refine List.Nodup.filter _ ?_
  rw [treeRefs, List.nodup_flatMap]
  refine ⟨fun ty hty => iterSelfProcs_nodup hty, ?_⟩
  have hpaths := tree.paths_nodup
  rw [List.Nodup, List.pairwise_map] at hpaths
  refine hpaths.imp fun {ty ty'} hne => ?_
  intro ref href href'
  exact hne (congrArg TypeNode.path ((TypeNode.ty_of_mem_iterSelfProcs href).symm.trans
    (TypeNode.ty_of_mem_iterSelfProcs href')))

theorem mem_visibleRefs {ref : ProcRef} :
    ref ∈ visibleRefs tree ↔ ref ∈ treeRefs tree ∧ ref.value.location.isBuiltins = false := by
  rw [visibleRefs, List.mem_filter, Bool.not_eq_true']

theorem lastSegment_memberSymbol {typePath kind name : Text} (hname : '/' ∉ name) :
    lastSegment (memberSymbol typePath kind name) = name := by
  have hall : ∀ c ∈ name.reverse, decide (c ≠ '/') = true := by
    intro c hc
    refine decide_eq_true fun h => hname ?_
    rwa [← h, ← List.mem_reverse]
  have htake : ∀ front : Text, ((name.reverse ++ '/' :: front).takeWhile (· ≠ '/')) =
      name.reverse := by
    intro front
    rw [List.takeWhile_append_of_pos hall, List.takeWhile_cons]
    simp
  unfold memberSymbol lastSegment
  split
  · have hreverse : ('/' :: (kind ++ '/' :: name)).reverse =
        name.reverse ++ '/' :: (kind.reverse ++ ['/']) := by simp
    rw [hreverse, htake, List.reverse_reverse]
  · have hreverse : (typePath ++ '/' :: (kind ++ '/' :: name)).reverse =
        name.reverse ++ '/' :: (kind.reverse ++ '/' :: typePath.reverse) := by simp
    rw [hreverse, htake, List.reverse_reverse]

end Search
