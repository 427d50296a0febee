import MeridianMcp.Search.Completeness
import MeridianMcp.Search.Limit

namespace Search

open MeridianMcp Effects Fallible Language

variable {context : AnalysisContext} {tree : ObjectTree} {fuel : Nat} {resolver : ProcResolver}
  {unicode : Unicode} {sources : Sources}

-- The two readers of the context agree on the files of the tree, and no source file has the path
-- that stands for the file of the builtins.
structure SameFiles (context : AnalysisContext) (sources : Sources) (tree : ObjectTree) : Prop where
  agree : ∀ ref ∈ visibleRefs tree,
    sources.contextFile ref.value.location.file = context.filePath ref.value.location.file
  apart : ∀ ref ∈ visibleRefs tree,
    normalizePathText (context.filePath ref.value.location.file) ≠
      normalizePathText (context.filePath builtinsFile)

def KeysSeparate (context : AnalysisContext) (tree : ObjectTree) : Prop :=
  ∀ ref ∈ visibleRefs tree, ∀ ref' ∈ visibleRefs tree,
    refKey context ref = refKey context ref' → ref = ref'

def Complete (unicode : Unicode) (tree : ObjectTree) (documents : List SearchDocument) : Prop :=
  ∀ ref ∈ visibleRefs tree, ∃ document,
    documents.filter (isProcDocument ref.ty.path ref.name ref.index) = [document] ∧
      document.implementationOwner = some ref.ty.path ∧
      (SearchIndex.new unicode documents).procSource unicode ref.ty.path ref.name ref.index =
        document.source

structure Carries (ref : ProcRef) (document : SearchDocument) : Prop where
  kind : document.kind = .proc
  symbol : document.symbol = memberSymbol ref.ty.path "proc".toList ref.name
  typePath : document.typePath = ref.ty.path
  name : document.name = ref.name
  overrideIndex : document.overrideIndex = some ref.index
  implementationOwner : document.implementationOwner = some ref.ty.path

theorem procs_related (unicode : Unicode) (sources : Sources) (tree : ObjectTree) :
    List.Forall₂ (fun document ref =>
        document.kind = .proc ∧ documentPlace document = refPlace sources ref)
      ((fromObjectTree unicode sources tree).filter fun document => document.kind = .proc)
      (visibleRefs tree) := by
  have h := fromObjectTree_procs unicode sources tree
  rw [← List.forall₂_eq_eq_eq, List.forall₂_map_left_iff, List.forall₂_map_right_iff] at h
  refine List.forall₂_iff_zip.mpr ⟨h.length_eq, ?_⟩
  intro document ref hmem
  refine ⟨?_, (List.forall₂_iff_zip.mp h).2 hmem⟩
  simpa using (List.mem_filter.mp (List.of_mem_zip hmem).1).2

theorem documentKey_eq (hfiles : SameFiles context sources tree) {document : SearchDocument}
    {ref : ProcRef} (href : ref ∈ visibleRefs tree)
    (h : documentPlace document = refPlace sources ref) :
    documentKey document = refKey context ref := by
  obtain ⟨hname, hfile, hline, hcolumn⟩ := Place.mk.inj h
  rw [documentKey, hname, hfile, hline, hcolumn, hfiles.agree ref href]
  rfl

theorem canonical_of_separate (hbuild : ProcResolver.build context fuel tree = some resolver)
    (hfiles : SameFiles context sources tree) (hseparate : KeysSeparate context tree) {ref : ProcRef}
    (href : ref ∈ visibleRefs tree) :
    ∃ entry, (canonicalOf resolver).get (refKey context ref) = some entry ∧
      entry.implementationOwner = ref.ty.path ∧ entry.overrideIndex = ref.index := by
  obtain ⟨hsound, hcomplete⟩ := canonicalOf_get hbuild
  obtain ⟨entry, hentry⟩ :=
    Option.ne_none_iff_exists'.mp (hcomplete ref (mem_visibleRefs.mp href).1)
  obtain ⟨ref', href', hkey, howner, hindex⟩ := hsound _ _ hentry
  have hvisible : ref' ∈ visibleRefs tree := by
    refine mem_visibleRefs.mpr ⟨href', ?_⟩
    by_contra hbuiltin
    rw [Bool.not_eq_false, Location.isBuiltins, decide_eq_true_eq] at hbuiltin
    have hfile : normalizePathText (context.filePath ref'.value.location.file) =
        normalizePathText (context.filePath ref.value.location.file) := congrArg JoinKey.file hkey
    rw [hbuiltin] at hfile
    exact hfiles.apart ref href hfile.symm
  obtain rfl := hseparate ref' hvisible ref href hkey
  exact ⟨entry, hentry, howner, hindex⟩

theorem filterMap_related {α β γ : Type} {f : α → Option γ} {R : α → β → Prop} {S : γ → β → Prop}
    {l : List α} {bs : List β} (h : List.Forall₂ R l bs)
    (hstep : ∀ a, ∀ b ∈ bs, R a b → ∃ c, f a = some c ∧ S c b) :
    List.Forall₂ S (l.filterMap f) bs := by
  induction h with
  | nil => exact .nil
  | @cons a b l bs hhead _ ih =>
    obtain ⟨c, hc, hs⟩ := hstep a b (List.mem_cons_self ..) hhead
    rw [List.filterMap_cons, hc]
    exact .cons hs (ih fun a b hb => hstep a b (List.mem_cons_of_mem _ hb))

theorem kept_related (hbuild : ProcResolver.build context fuel tree = some resolver)
    (hfiles : SameFiles context sources tree) (hseparate : KeysSeparate context tree) :
    List.Forall₂ (fun document ref => Carries ref document)
      (((fromObjectTree unicode sources tree).filter fun document =>
        document.kind = .proc).filterMap (keptDocument (canonicalOf resolver)))
      (visibleRefs tree) := by
  refine filterMap_related (procs_related unicode sources tree) ?_
  rintro document ref href ⟨hkind, hplace⟩
  obtain ⟨entry, hentry, howner, hindex⟩ := canonical_of_separate hbuild hfiles hseparate href
  refine ⟨rewriteDocument entry document, ?_, hkind, ?_, howner, (Place.mk.inj hplace).1, ?_, ?_⟩
  · rw [keptDocument, if_neg (not_not.mpr hkind), documentKey_eq hfiles href hplace, hentry]
    rfl
  · rw [rewriteDocument, howner, (Place.mk.inj hplace).1]
  · rw [rewriteDocument, hindex]
  · rw [rewriteDocument, howner]

def refMark (sources : Sources) (ref : ProcRef) : Mark :=
  ⟨memberSymbol ref.ty.path "proc".toList ref.name, sources.contextFile ref.value.location.file,
    ref.value.location.line, ref.value.location.column, ref.index⟩

theorem name_plain {ref : ProcRef} (href : ref ∈ treeRefs tree) : '/' ∉ ref.name := by
  obtain ⟨hty, hself⟩ := mem_treeRefs.mp href
  obtain ⟨entry, hentry, hname, -⟩ := ref_of_mem_iterSelfProcs hself
  rw [hname]
  exact tree.names_plain _ hty entry hentry

theorem marks_nodup (hbuild : ProcResolver.build context fuel tree = some resolver)
    (hfiles : SameFiles context sources tree) (hseparate : KeysSeparate context tree) :
    ((fromObjectTree unicode sources tree).filterMap
      (documentMark (canonicalOf resolver))).Nodup := by
  have hprocs : (fromObjectTree unicode sources tree).filterMap
      (documentMark (canonicalOf resolver)) =
      ((fromObjectTree unicode sources tree).filter fun document =>
        document.kind = .proc).filterMap (documentMark (canonicalOf resolver)) := by
    rw [List.filterMap_filter]
    congr 1
    funext document
    by_cases hkind : document.kind = .proc
    · simp [hkind]
    · simp [documentMark, hkind]
  have hrelated : List.Forall₂ (fun mark ref => mark = refMark sources ref)
      ((fromObjectTree unicode sources tree).filterMap (documentMark (canonicalOf resolver)))
      (visibleRefs tree) := by
    rw [hprocs]
    refine filterMap_related (procs_related unicode sources tree) ?_
    rintro document ref href ⟨hkind, hplace⟩
    obtain ⟨entry, hentry, howner, hindex⟩ := canonical_of_separate hbuild hfiles hseparate href
    refine ⟨markOf entry document, ?_, ?_⟩
    · rw [documentMark, if_neg (not_not.mpr hkind), documentKey_eq hfiles href hplace, hentry]
      rfl
    · obtain ⟨hname, hfile, hline, hcolumn⟩ := Place.mk.inj hplace
      rw [markOf, refMark, howner, hindex, hname, hfile, hline, hcolumn]
  rw [← List.forall₂_map_right_iff, List.forall₂_eq_eq_eq] at hrelated
  rw [hrelated]
  refine (visibleRefs_nodup tree).map_on fun ref href ref' href' hmark => ?_
  obtain ⟨hsymbol, hfile, hline, hcolumn, -⟩ := Mark.mk.inj hmark
  have hname : ref.name = ref'.name := by
    rw [← lastSegment_memberSymbol (name_plain (mem_visibleRefs.mp href).1), hsymbol,
      lastSegment_memberSymbol (name_plain (mem_visibleRefs.mp href').1)]
  refine hseparate ref href ref' href' ?_
  rw [hfiles.agree ref href, hfiles.agree ref' href'] at hfile
  simp only [refKey, implementationKey, localImplementation, hname, hfile, hline, hcolumn]

theorem canonicalize_filter (hbuild : ProcResolver.build context fuel tree = some resolver)
    (hfiles : SameFiles context sources tree) (hseparate : KeysSeparate context tree) {ref : ProcRef}
    (href : ref ∈ visibleRefs tree) :
    ∃ document, (canonicalizeProcs resolver (fromObjectTree unicode sources tree)).filter
        (isProcDocument ref.ty.path ref.name ref.index) = [document] ∧ Carries ref document := by
  have hkept : canonicalizeProcs resolver (fromObjectTree unicode sources tree) =
      (fromObjectTree unicode sources tree).filterMap (keptDocument (canonicalOf resolver)) := by
    rw [canonicalizeProcs, foldl_retainDocument _ (marks_nodup hbuild hfiles hseparate) (by simp)]
    rfl
  have hprocs : ((fromObjectTree unicode sources tree).filterMap
        (keptDocument (canonicalOf resolver))).filter
          (isProcDocument ref.ty.path ref.name ref.index) =
      (((fromObjectTree unicode sources tree).filter fun document =>
        document.kind = .proc).filterMap (keptDocument (canonicalOf resolver))).filter
          (isProcDocument ref.ty.path ref.name ref.index) := by
    rw [List.filterMap_filter, List.filter_filterMap, List.filter_filterMap]
    congr 1
    funext document
    by_cases hkind : document.kind = .proc
    · simp [hkind]
    · simp [keptDocument, hkind, isProcDocument, Option.filter_some]
  have hsame : ∀ document other, Carries other document →
      (isProcDocument ref.ty.path ref.name ref.index document = true ↔
        decide (other.ty.path = ref.ty.path ∧ other.name = ref.name ∧ other.index = ref.index) =
          true) := by
    intro document other hcarries
    simp [isProcDocument, hcarries.kind, hcarries.typePath, hcarries.name, hcarries.overrideIndex,
      and_assoc]
  have hfiltered := List.rel_filter (R := fun document other => Carries other document)
    (fun {document other} h => hsame document other h)
    (@kept_related context tree fuel resolver unicode sources hbuild hfiles hseparate)
  have honly : (visibleRefs tree).filter (fun other =>
      decide (other.ty.path = ref.ty.path ∧ other.name = ref.name ∧ other.index = ref.index)) =
        [ref] := by
    have hcongr : (visibleRefs tree).filter (fun other =>
        decide (other.ty.path = ref.ty.path ∧ other.name = ref.name ∧ other.index = ref.index)) =
          (visibleRefs tree).filter (fun other => other == ref) := by
      refine List.filter_congr fun other hother => ?_
      rw [Bool.eq_iff_iff, decide_eq_true_eq, beq_iff_eq]
      constructor
      · rintro ⟨hpath, hname, hindex⟩
        exact ref_ext (mem_visibleRefs.mp hother).1 (mem_visibleRefs.mp href).1 hpath hname hindex
      · rintro rfl
        exact ⟨rfl, rfl, rfl⟩
    rw [hcongr, List.filter_beq, List.count_eq_one_of_mem (visibleRefs_nodup tree) href]
    rfl
  rw [honly, ← hprocs, ← hkept] at hfiltered
  generalize (canonicalizeProcs resolver (fromObjectTree unicode sources tree)).filter
    (isProcDocument ref.ty.path ref.name ref.index) = found at hfiltered ⊢
  cases hfiltered with
  | cons hhead htail =>
    cases htail
    exact ⟨_, rfl, hhead⟩

theorem exactSymbols_documents (unicode : Unicode) (documents : List SearchDocument) :
    (documents.foldl (addDocument unicode)
        ⟨[], FinMap.empty, FinMap.empty, FinMap.empty, [], 0⟩).documents = documents ∧
      ∀ key, (∀ id ∈ ((documents.foldl (addDocument unicode)
          ⟨[], FinMap.empty, FinMap.empty, FinMap.empty, [], 0⟩).exactSymbols.get key).getD [],
          id < documents.length) ∧
        (((documents.foldl (addDocument unicode)
          ⟨[], FinMap.empty, FinMap.empty, FinMap.empty, [], 0⟩).exactSymbols.get key).getD
            []).filterMap (fun id => documents[id]?) =
          documents.filter fun document => unicode.toLowercase document.symbol = key := by
  induction documents using List.reverseRecOn with
  | nil => simp [FinMap.empty]
  | append_singleton documents document ih =>
    obtain ⟨hdocuments, hkeys⟩ := ih
    rw [List.foldl_append, List.foldl_cons, List.foldl_nil]
    constructor
    · rw [addDocument, hdocuments]
    · intro key
      obtain ⟨hbound, hfound⟩ := hkeys key
      have hold : ∀ ids : List Nat, (∀ id ∈ ids, id < documents.length) →
          ids.filterMap (fun id => (documents ++ [document])[id]?) =
            ids.filterMap fun id => documents[id]? := by
        intro ids hids
        refine List.filterMap_congr fun id hid => ?_
        rw [List.getElem?_append_left (hids id hid)]
      rw [addDocument, hdocuments]
      dsimp only
      rw [pushId, FinMap.get_insert, List.filter_append]
      by_cases hkey : key = unicode.toLowercase document.symbol
      · subst hkey
        rw [Function.update_self, Option.getD_some]
        constructor
        · intro id hid
          rw [List.length_append, List.length_singleton]
          rcases List.mem_append.mp hid with hid | hid
          · exact Nat.lt_succ_of_lt (hbound id hid)
          · rw [List.mem_singleton.mp hid]
            exact Nat.lt_succ_self _
        · rw [List.filterMap_append, hold _ hbound, hfound]
          simp
      · rw [Function.update_of_ne hkey]
        constructor
        · intro id hid
          rw [List.length_append]
          exact Nat.lt_add_right _ (hbound id hid)
        · rw [hold _ hbound, hfound]
          simp [Ne.symm hkey]

theorem procSource_of_only {documents : List SearchDocument} {owner name : Text} {index : Nat}
    {document : SearchDocument}
    (honly : documents.filter (isProcDocument owner name index) = [document])
    (hsymbol : document.symbol = memberSymbol owner "proc".toList name) :
    (SearchIndex.new unicode documents).procSource unicode owner name index = document.source := by
  have hmem : document ∈ documents.filter (isProcDocument owner name index) := by
    rw [honly]
    exact List.mem_singleton_self _
  obtain ⟨hdocument, hmatches⟩ := List.mem_filter.mp hmem
  obtain ⟨hdocuments, hkeys⟩ := exactSymbols_documents unicode documents
  obtain ⟨-, hfound⟩ := hkeys (unicode.toLowercase (memberSymbol owner "proc".toList name))
  have hlisted : document ∈ documents.filter fun other =>
      unicode.toLowercase other.symbol =
        unicode.toLowercase (memberSymbol owner "proc".toList name) :=
    List.mem_filter.mpr ⟨hdocument, decide_eq_true (by rw [hsymbol])⟩
  have hfind : (documents.filter fun other => unicode.toLowercase other.symbol =
      unicode.toLowercase (memberSymbol owner "proc".toList name)).find?
        (isProcDocument owner name index) = some document := by
    cases hresult : (documents.filter fun other => unicode.toLowercase other.symbol =
        unicode.toLowercase (memberSymbol owner "proc".toList name)).find?
          (isProcDocument owner name index) with
    | none => exact absurd hmatches (List.find?_eq_none.mp hresult document hlisted)
    | some other =>
      have hother : other ∈ documents.filter (isProcDocument owner name index) :=
        List.mem_filter.mpr ⟨(List.mem_filter.mp (List.mem_of_find?_eq_some hresult)).1,
          List.find?_some hresult⟩
      rw [honly, List.mem_singleton] at hother
      rw [hother]
  rw [SearchIndex.procSource, SearchIndex.new]
  dsimp only
  rw [hdocuments]
  cases hget : (documents.foldl (addDocument unicode)
      ⟨[], FinMap.empty, FinMap.empty, FinMap.empty, [], 0⟩).exactSymbols.get
        (unicode.toLowercase (memberSymbol owner "proc".toList name)) with
  | none =>
    rw [hget] at hfound
    rw [← hfound] at hlisted
    cases hlisted
  | some ids =>
    rw [hget, Option.getD_some] at hfound
    rw [Option.bind_some, hfound, hfind]
    rfl

theorem keysSeparate_of_complete (hbuild : ProcResolver.build context fuel tree = some resolver)
    (hcomplete : Complete unicode tree
      (canonicalizeProcs resolver (fromObjectTree unicode sources tree))) :
    KeysSeparate context tree := by
  have hown : ∀ ref ∈ visibleRefs tree, ∃ entry,
      (canonicalOf resolver).get (refKey context ref) = some entry ∧
        entry.implementationOwner = ref.ty.path ∧ entry.overrideIndex = ref.index := by
    intro ref href
    obtain ⟨document, honly, -⟩ := hcomplete ref href
    have hmem : document ∈ (canonicalizeProcs resolver (fromObjectTree unicode sources tree)).filter
        (isProcDocument ref.ty.path ref.name ref.index) := by
      rw [honly]
      exact List.mem_singleton_self _
    obtain ⟨hdocument, hmatches⟩ := List.mem_filter.mp hmem
    simp only [isProcDocument, Bool.and_eq_true, decide_eq_true_eq] at hmatches
    obtain ⟨⟨⟨hkind, hpath⟩, hname⟩, hindex⟩ := hmatches
    rcases mem_foldl_retainDocument hdocument with hnone | ⟨original, _, hkept⟩
    · cases hnone
    · unfold keptDocument at hkept
      split at hkept
      · rename_i hnot
        cases hkept
        exact absurd hkind hnot
      · obtain ⟨entry, hentry, rfl⟩ := Option.map_eq_some_iff.mp hkept
        obtain ⟨other, hother, hkey, howner, hat⟩ := (canonicalOf_get hbuild).1 _ _ hentry
        have hsame : other = ref := by
          refine ref_ext hother (mem_visibleRefs.mp href).1 ?_ ?_ ?_
          · rw [← howner]
            exact hpath
          · exact (congrArg JoinKey.name hkey).trans hname
          · rw [← hat]
            exact Option.some.inj hindex
        rw [← hkey, hsame] at hentry
        exact ⟨entry, hentry, hpath, Option.some.inj hindex⟩
  intro ref href ref' href' hkey
  obtain ⟨entry, hentry, howner, hindex⟩ := hown ref href
  obtain ⟨entry', hentry', howner', hindex'⟩ := hown ref' href'
  rw [hkey, hentry', Option.some.injEq] at hentry
  subst hentry
  exact ref_ext (mem_visibleRefs.mp href).1 (mem_visibleRefs.mp href').1
    (howner.symm.trans howner') (congrArg JoinKey.name hkey) (hindex.symm.trans hindex')

def expandedType (path : String) (line : Nat) : TypeNode :=
  namedType path [("Foo".toList, ⟨[⟨⟨1, line, 2⟩, [], true, true, []⟩], some ⟨⟨1, line, 2⟩⟩⟩)] 0

-- Two types with a procedure each, at one place when the lines are the same.
def expandedTree (line : Nat) : ObjectTree where
  graph := [namedType "" [] 9, expandedType "/a" 7, expandedType "/b" line]
  paths_nodup := by
    change ["".toList, "/a".toList, "/b".toList].Nodup
    decide
  procs_nodup := by
    simp [namedType, expandedType]
  names_plain := by
    simp [namedType, expandedType]

def expandedContext : AnalysisContext := ⟨[(1, "code.dm".toList)]⟩

def expandedSources : Sources where
  contextFile _ := "code.dm".toList
  sourceLine _ _ := none
  sourceDeclaration _ _ _ := none

def expandedRef (path : String) (line : Nat) : ProcRef where
  ty := expandedType path line
  name := "Foo".toList
  list := [⟨⟨1, line, 2⟩, [], true, true, []⟩]
  value := ⟨⟨1, line, 2⟩, [], true, true, []⟩
  index := 0

theorem expandedTree_visible (line : Nat) :
    visibleRefs (expandedTree line) = [expandedRef "/a" 7, expandedRef "/b" line] := rfl

theorem expandedRef_key (context : AnalysisContext) (path path' : String) (line : Nat) :
    refKey context (expandedRef path line) = refKey context (expandedRef path' line) := by
  simp only [refKey, implementationKey, localImplementation, expandedRef]

theorem expandedTree_acyclic (line : Nat) : (expandedTree line).Acyclic := by
  refine Lineage.acyclic_of_rank (fun ty => ty.path.length) ?_
  have hroot : namedType "" [] 9 ∈ (expandedTree line).graph := List.mem_cons_self ..
  intro ty hty parent hparent
  simp only [expandedTree, List.mem_cons, List.not_mem_nil, or_false] at hty
  rcases hty with rfl | rfl | rfl
  · cases hparent
  · cases hparent
    exact ⟨hroot, by change 0 < "/a".toList.length; decide⟩
  · cases hparent
    exact ⟨hroot, by change 0 < "/b".toList.length; decide⟩

theorem expanded_sameFiles (line : Nat) :
    SameFiles expandedContext expandedSources (expandedTree line) := by
  have hfile : ∀ ref ∈ visibleRefs (expandedTree line), ref.value.location.file = 1 := by
    intro ref href
    rw [expandedTree_visible] at href
    simp only [List.mem_cons, List.not_mem_nil, or_false] at href
    rcases href with rfl | rfl <;> rfl
  have hagree : expandedSources.contextFile 1 = expandedContext.filePath 1 := by decide
  have hapart : normalizePathText (expandedContext.filePath 1) ≠
      normalizePathText (expandedContext.filePath builtinsFile) := by decide
  constructor
  · intro ref href
    rw [hfile ref href, hagree]
  · intro ref href
    rw [hfile ref href]
    exact hapart

end Search
