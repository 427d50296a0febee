import MeridianMcp.Search.Documents

namespace Search

open MeridianMcp Effects Fallible Language

variable {context : AnalysisContext} {tree : ObjectTree} {fuel : Nat} {resolver : ProcResolver}

def treeRefs (tree : ObjectTree) : List ProcRef := tree.graph.flatMap TypeNode.iterSelfProcs

def visibleRefs (tree : ObjectTree) : List ProcRef :=
  (treeRefs tree).filter fun ref => !ref.value.location.isBuiltins

def refKey (context : AnalysisContext) (ref : ProcRef) : JoinKey :=
  implementationKey ref.name (localImplementation context ref)

theorem mem_treeRefs {ref : ProcRef} :
    ref ∈ treeRefs tree ↔ ref.ty ∈ tree.graph ∧ ref ∈ ref.ty.iterSelfProcs := by
  rw [treeRefs, List.mem_flatMap]
  constructor
  · rintro ⟨ty, hty, href⟩
    obtain rfl := TypeNode.ty_of_mem_iterSelfProcs href
    exact ⟨hty, href⟩
  · rintro ⟨hty, href⟩
    exact ⟨_, hty, href⟩

theorem mem_canonicalKeys {tables : Tables} {key : Text × Text} :
    key ∈ tables.canonicalKeys ↔ tables.localOf key.1 key.2 ≠ none := by
  obtain ⟨owner, procName⟩ := key
  rw [Tables.canonicalKeys, List.mem_flatMap, Tables.localOf]
  cases hprocs : tables.localImplementations.get owner with
  | none =>
    simp only [Option.bind_none, ne_eq, not_true, iff_false]
    rintro ⟨owner', howner', hmem⟩
    obtain ⟨name, hname, heq⟩ := List.mem_map.mp hmem
    cases heq
    rw [hprocs] at hname
    simp at hname
  | some procs =>
    rw [Option.bind_some]
    constructor
    · rintro ⟨owner', -, hmem⟩
      obtain ⟨name, hname, heq⟩ := List.mem_map.mp hmem
      cases heq
      rw [hprocs] at hname
      exact (procs.mem_keys procName).mp (by simpa using hname)
    · intro hne
      have howner : owner ∈ tables.localImplementations.keys :=
        (tables.localImplementations.mem_keys owner).mpr (by simp [hprocs])
      refine ⟨owner, FinMap.mem_sortKeys.mpr howner, List.mem_map.mpr ⟨procName, ?_, rfl⟩⟩
      rw [hprocs]
      exact FinMap.mem_sortKeys.mpr ((procs.mem_keys procName).mpr hne)

theorem build_resolutions (h : ProcResolver.build context fuel tree = some resolver) :
    (∀ resolution ∈ resolver.canonicalResolutions, ∃ key ∈ (Tables.ofTree context tree).canonicalKeys,
      (Tables.ofTree context tree).resolve fuel key.1 key.2 = some (.ok resolution)) ∧
    ∀ key ∈ (Tables.ofTree context tree).canonicalKeys, ∃ outcome,
      (Tables.ofTree context tree).resolve fuel key.1 key.2 = some outcome ∧
        ∀ resolution, outcome = .ok resolution → resolution ∈ resolver.canonicalResolutions := by
  unfold ProcResolver.build at h
  obtain ⟨outcomes, houtcomes, rfl⟩ := Option.map_eq_some_iff.mp h
  have hall := forall₂_of_mapM_some houtcomes
  constructor
  · intro resolution hresolution
    obtain ⟨outcome, houtcome, hok⟩ := List.mem_filterMap.mp hresolution
    obtain ⟨key, hkey, hresolve⟩ := exists_of_mem_right hall houtcome
    refine ⟨key, hkey, ?_⟩
    cases outcome with
    | error e => cases hok
    | ok found =>
      cases hok
      exact hresolve
  · intro key hkey
    obtain ⟨outcome, houtcome, hresolve⟩ := exists_of_mem_left hall hkey
    refine ⟨outcome, hresolve, ?_⟩
    rintro resolution rfl
    exact List.mem_filterMap.mpr ⟨_, houtcome, rfl⟩

theorem owner_of_mem_localProcs {procName : Text} {ty : TypeNode}
    {implementation : ResolvedProcImplementation}
    (h : implementation ∈ ty.localProcs context procName) : implementation.owner = ty.path := by
  obtain ⟨ref, href, rfl⟩ := List.mem_map.mp h
  exact congrArg TypeNode.path (TypeNode.ty_of_mem_iterSelfProcs (List.mem_filter.mp href).1)

-- The chain is not assumed: it comes from the walk having ended.
theorem resolve_own {ty : TypeNode} (hty : ty ∈ tree.graph) {procName : Text}
    (himplements : ty.implements procName = true)
    {outcome : Except ProcResolutionError ProcResolution}
    (h : (Tables.ofTree context tree).resolve fuel ty.path procName = some outcome) :
    ∃ resolution, outcome = .ok resolution ∧ resolution.requestedTypePath = ty.path ∧
      resolution.procName = procName ∧ resolution.implementationOwner = ty.path ∧
      ownImplementations resolution = ty.localProcs context procName := by
  have hrecords := Tables.records_ofTree context tree
  obtain ⟨chain, hchain, hlen⟩ : ∃ chain, tree.Inheritance ty chain ∧ chain.length ≤ fuel := by
    rw [Tables.resolve, hrecords.parents ty hty] at h
    obtain ⟨_, hwalk, -⟩ := Option.map_eq_some_iff.mp h
    obtain ⟨paths, hpaths, hlen⟩ := Lineage.ascends_of_walk hwalk
    obtain ⟨chain, hchain, rfl⟩ :=
      Lineage.Ascends.unmap tree.parentTypeOf_mem hrecords.parentOf hty hpaths
    exact ⟨chain, hchain, by simpa using hlen⟩
  obtain ⟨rest, rfl⟩ : ∃ rest, chain = ty :: rest := by
    cases hchain with
    | top _ => exact ⟨[], rfl⟩
    | step _ _ => exact ⟨_, rfl⟩
  have hrest : ∀ ancestor ∈ rest, ancestor.path ≠ ty.path := by
    intro ancestor hancestor heq
    have hmem := Lineage.Ascends.subset hchain hty tree.parentTypeOf_mem
      (List.mem_cons_of_mem _ hancestor)
    rw [tree.path_inj hmem hty heq] at hancestor
    exact hchain.not_mem_tail hancestor
  rw [hrecords.resolve hty hchain hlen, Option.some.injEq] at h
  have howner : (searchOf context procName (ty :: rest)).implementationOwner = some ty.path := by
    rw [searchOf, List.find?_cons_of_pos himplements]
    rfl
  rw [Tables.resolution, howner] at h
  subst h
  refine ⟨_, rfl, rfl, rfl, rfl, ?_⟩
  rw [ownImplementations, searchOf, List.flatMap_cons, List.filter_append]
  have hself : (ty.localProcs context procName).filter
      (fun implementation => implementation.owner = ty.path) = ty.localProcs context procName :=
    List.filter_eq_self.mpr fun implementation himplementation =>
      decide_eq_true (owner_of_mem_localProcs himplementation)
  have hothers : (rest.flatMap (TypeNode.localProcs context procName)).filter
      (fun implementation => implementation.owner = ty.path) = [] := by
    rw [List.filter_eq_nil_iff]
    intro implementation himplementation
    obtain ⟨ancestor, hancestor, hlocal⟩ := List.mem_flatMap.mp himplementation
    rw [owner_of_mem_localProcs hlocal, decide_eq_true_eq]
    exact hrest ancestor hancestor
  dsimp only
  rw [hself, hothers, List.append_nil]

def resolutionPairs (resolution : ProcResolution) : List (JoinKey × Canonical) :=
  (ownImplementations resolution).map fun implementation =>
    (implementationKey resolution.procName implementation,
      ⟨resolution.implementationOwner, resolution.declarationOwner, implementation.overrideIndex,
        (ownImplementations resolution).length⟩)

theorem canonicalOf_eq (resolver : ProcResolver) :
    canonicalOf resolver = (((resolver.canonicalResolutions.filter fun resolution =>
      resolution.requestedTypePath = resolution.implementationOwner).flatMap
        resolutionPairs).foldl FinMap.insertPair FinMap.empty) := by
  rw [canonicalOf, List.foldl_flatMap]
  congr 1
  funext canonical resolution
  rw [enterResolution, resolutionPairs, List.foldl_map]
  rfl

theorem canonicalOf_get (h : ProcResolver.build context fuel tree = some resolver) :
    (∀ key entry, (canonicalOf resolver).get key = some entry → ∃ ref ∈ treeRefs tree,
      refKey context ref = key ∧ entry.implementationOwner = ref.ty.path ∧
        entry.overrideIndex = ref.index) ∧
    ∀ ref ∈ treeRefs tree, (canonicalOf resolver).get (refKey context ref) ≠ none := by
  obtain ⟨hsound, hcomplete⟩ := build_resolutions h
  have hrecords := Tables.records_ofTree context tree
  have hkeys : ∀ key ∈ (Tables.ofTree context tree).canonicalKeys,
      ∃ ty ∈ tree.graph, ty.path = key.1 ∧ ty.implements key.2 = true := by
    intro key hkey
    rw [mem_canonicalKeys] at hkey
    by_cases hpath : key.1 ∈ tree.graph.map TypeNode.path
    · obtain ⟨ty, hty, hpath⟩ := List.mem_map.mp hpath
      refine ⟨ty, hty, hpath, ?_⟩
      rw [← hpath, hrecords.localOf ty hty] at hkey
      by_contra hnot
      rw [if_neg hnot] at hkey
      exact hkey rfl
    · rw [Tables.localOf, (hrecords.fresh _ hpath).2.2] at hkey
      exact absurd rfl hkey
  rw [canonicalOf_eq]
  constructor
  · intro key entry hentry
    rcases FinMap.get_foldl_insertPair hentry with hmem | hempty
    · obtain ⟨resolution, hresolution, hpair⟩ := List.mem_flatMap.mp hmem
      obtain ⟨found, hfound, hresolve⟩ := hsound resolution (List.mem_filter.mp hresolution).1
      obtain ⟨ty, hty, hpath, himplements⟩ := hkeys found hfound
      rw [← hpath] at hresolve
      obtain ⟨_, hok, -, hname, howner, hown⟩ := resolve_own hty himplements hresolve
      cases hok
      obtain ⟨implementation, himplementation, heq⟩ := List.mem_map.mp hpair
      rw [hown] at himplementation
      obtain ⟨ref, href, rfl⟩ := List.mem_map.mp himplementation
      rw [List.mem_filter, decide_eq_true_eq] at href
      have hself := TypeNode.ty_of_mem_iterSelfProcs href.1
      cases heq
      refine ⟨ref, mem_treeRefs.mpr ?_, ?_, ?_, rfl⟩
      · rw [hself]
        exact ⟨hty, href.1⟩
      · rw [refKey, hname, href.2]
      · rw [hself]
        exact howner
    · cases hempty
  · intro ref href
    obtain ⟨hty, hself⟩ := mem_treeRefs.mp href
    apply FinMap.get_foldl_insertPair_ne
    left
    have himplements : ref.ty.implements ref.name = true := by
      simp only [TypeNode.implements, List.any_eq_true, decide_eq_true_eq]
      exact ⟨ref, hself, rfl⟩
    have hkey : (ref.ty.path, ref.name) ∈ (Tables.ofTree context tree).canonicalKeys := by
      rw [mem_canonicalKeys, hrecords.localOf _ hty, if_pos himplements]
      exact Option.some_ne_none _
    obtain ⟨outcome, hresolve, hmem⟩ := hcomplete _ hkey
    obtain ⟨resolution, hok, hrequested, hname, howner, hown⟩ :=
      resolve_own hty himplements hresolve
    refine List.mem_map.mpr ⟨(refKey context ref, ⟨resolution.implementationOwner,
      resolution.declarationOwner, ref.index, (ownImplementations resolution).length⟩),
      List.mem_flatMap.mpr ⟨resolution, List.mem_filter.mpr ⟨hmem resolution hok, ?_⟩, ?_⟩, rfl⟩
    · rw [hrequested, howner]
      exact decide_eq_true rfl
    · refine List.mem_map.mpr ⟨localImplementation context ref, ?_, ?_⟩
      · rw [hown]
        exact List.mem_map_of_mem (List.mem_filter.mpr ⟨hself, decide_eq_true rfl⟩)
      · rw [hname]
        rfl

end Search
