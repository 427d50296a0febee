import MeridianMcp.Fallible
import MeridianMcp.Language.LanguageIndex
import MeridianMcp.Language.Resolution

namespace Language

open MeridianMcp Effects Fallible

variable {context : AnalysisContext} {tree : ObjectTree} {tables : Tables}

def searchOf (context : AnalysisContext) (procName : Text) (chain : List TypeNode) : Search :=
  { searchedTypeChain := chain.map TypeNode.path
    implementations := chain.flatMap (TypeNode.localProcs context procName)
    implementationOwner := (chain.find? (TypeNode.implements procName)).map TypeNode.path
    declarationOwner := (chain.find? (TypeNode.declares procName)).map TypeNode.path }

def Search.append (search rest : Search) : Search :=
  { searchedTypeChain := search.searchedTypeChain ++ rest.searchedTypeChain
    implementations := search.implementations ++ rest.implementations
    implementationOwner := search.implementationOwner.or rest.implementationOwner
    declarationOwner := search.declarationOwner.or rest.declarationOwner }

theorem Search.empty_append (search : Search) : Search.append ⟨[], [], none, none⟩ search = search :=
  rfl

theorem Search.append_assoc (a b c : Search) : (a.append b).append c = a.append (b.append c) := by
  simp [Search.append, Option.or_assoc]

theorem Tables.Records.visit (h : tables.Records context tree tree.graph) {ty : TypeNode}
    (hty : ty ∈ tree.graph) (procName : Text) (search : Search) :
    tables.visit procName search ty.path = search.append (searchOf context procName [ty]) := by
  have hlocal := h.localOf ty hty procName
  have hdeclares := h.declares ty hty procName
  have hnil : ty.localProcs context procName = [] ↔ ty.implements procName = false :=
    TypeNode.localProcs_eq_nil_iff
  simp only [Tables.visit, Search.append, searchOf, hlocal, hdeclares, Search.mk.injEq]
  refine ⟨rfl, ?_, ?_, ?_⟩
  · cases himpl : ty.implements procName
    · simp [hnil.mpr himpl]
    · simp
  · cases himpl : ty.implements procName <;> simp [List.find?, himpl]
  · cases hdecl : ty.declares procName
    · simp [List.find?, hdecl]
    · cases search.declarationOwner <;> simp [List.find?, hdecl]

theorem searchOf_cons (procName : Text) (ty : TypeNode) (chain : List TypeNode) :
    searchOf context procName (ty :: chain) =
      (searchOf context procName [ty]).append (searchOf context procName chain) := by
  simp only [searchOf, Search.append, Search.mk.injEq]
  refine ⟨rfl, by simp, ?_, ?_⟩
  · cases h : ty.implements procName <;> simp [List.find?, h]
  · cases h : ty.declares procName <;> simp [List.find?, h]

theorem Tables.Records.foldl_visit (h : tables.Records context tree tree.graph)
    {chain : List TypeNode} (hchain : chain ⊆ tree.graph) (procName : Text) (search : Search) :
    (chain.map TypeNode.path).foldl (tables.visit procName) search =
      search.append (searchOf context procName chain) := by
  induction chain generalizing search with
  | nil => simp [searchOf, Search.append]
  | cons ty chain ih =>
    rw [List.map_cons, List.foldl_cons, h.visit (hchain (List.mem_cons_self ..)),
      ih (List.subset_of_cons_subset hchain), searchOf_cons procName ty chain, Search.append_assoc]

theorem Tables.Records.parentOf (h : tables.Records context tree tree.graph) :
    ∀ ty ∈ tree.graph, tables.parentOf ty.path = (tree.parentTypeOf ty).map TypeNode.path := by
  intro ty hty
  rw [Tables.parentOf, h.parents ty hty]
  rfl

theorem Tables.Records.resolve (h : tables.Records context tree tree.graph) {ty : TypeNode}
    (hty : ty ∈ tree.graph) {chain : List TypeNode} (hchain : tree.Inheritance ty chain)
    {fuel : Nat} (hfuel : chain.length ≤ fuel) (procName : Text) :
    tables.resolve fuel ty.path procName =
      some (tables.resolution ty.path procName (searchOf context procName chain)) := by
  have hpaths : Lineage.Ascends tables.parentOf ty.path (chain.map TypeNode.path) :=
    Lineage.Ascends.map hchain hty tree.parentTypeOf_mem h.parentOf
  have hsub : chain ⊆ tree.graph := Lineage.Ascends.subset hchain hty tree.parentTypeOf_mem
  rw [Tables.resolve, h.parents ty hty]
  dsimp only
  rw [Lineage.walk_ascends hpaths (by simpa using hfuel), h.foldl_visit hsub, Search.empty_append]
  rfl

-- What a resolution owes to the inheritance chain of the type it was asked for.
structure Resolved (context : AnalysisContext) (ty : TypeNode) (procName : Text)
    (chain : List TypeNode) (outcome : Except ProcResolutionError ProcResolution) : Prop where
  implementations : ∀ resolution, outcome = .ok resolution →
    resolution.implementations = chain.flatMap (TypeNode.localProcs context procName)
  implementationOwner : ∀ resolution, outcome = .ok resolution →
    (chain.find? (TypeNode.implements procName)).map TypeNode.path =
      some resolution.implementationOwner
  declarationOwner : ∀ resolution, outcome = .ok resolution →
    resolution.declarationOwner =
      ((chain.find? (TypeNode.declares procName)).map TypeNode.path).getD
        resolution.implementationOwner
  failure : ∀ error, outcome = .error error →
    ∃ searched candidates, error = .notFound ty.path procName searched candidates
  notFound : (∃ searched candidates,
      outcome = .error (.notFound ty.path procName searched candidates)) ↔
    ∀ ancestor ∈ chain, ancestor.localProcs context procName = []

theorem resolved_searchOf (tables : Tables) (ty : TypeNode) (procName : Text)
    (chain : List TypeNode) :
    Resolved context ty procName chain
      (tables.resolution ty.path procName (searchOf context procName chain)) := by
  have howner : (searchOf context procName chain).implementationOwner = none ↔
      ∀ ancestor ∈ chain, ancestor.localProcs context procName = [] := by
    simp [searchOf, TypeNode.localProcs_eq_nil_iff]
  cases hfind : (searchOf context procName chain).implementationOwner with
  | none =>
    have hout : ∃ searched candidates,
        tables.resolution ty.path procName (searchOf context procName chain) =
          .error (.notFound ty.path procName searched candidates) :=
      ⟨_, _, by rw [Tables.resolution, hfind]⟩
    obtain ⟨searched, candidates, hout'⟩ := hout
    rw [hout']
    refine ⟨nofun, nofun, nofun, ?_, fun _ => howner.mp hfind, fun _ => ⟨searched, candidates, rfl⟩⟩
    rintro _ ⟨⟩
    exact ⟨searched, candidates, rfl⟩
  | some owner =>
    rw [Tables.resolution, hfind]
    refine ⟨?_, ?_, ?_, nofun, ?_⟩
    · rintro _ ⟨⟩
      rfl
    · rintro _ ⟨⟩
      exact hfind
    · rintro _ ⟨⟩
      rfl
    · constructor
      · rintro ⟨_, _, ⟨⟩⟩
      · intro hnone
        rw [howner.mpr hnone] at hfind
        cases hfind

def listed : Except ProcResolutionError ProcResolution → List ResolvedProcImplementation
  | .ok resolution => resolution.implementations
  | .error _ => []

theorem Resolved.listed {ty : TypeNode} {procName : Text} {chain : List TypeNode}
    {outcome : Except ProcResolutionError ProcResolution}
    (h : Resolved context ty procName chain outcome) :
    Language.listed outcome = chain.flatMap (TypeNode.localProcs context procName) := by
  cases outcome with
  | ok resolution => exact h.implementations _ rfl
  | error e =>
    obtain ⟨searched, candidates, rfl⟩ := h.failure e rfl
    rw [Language.listed, eq_comm, List.flatMap_eq_nil_iff]
    exact h.notFound.mp ⟨searched, candidates, rfl⟩

theorem Tables.Records.resolve_stable (h : tables.Records context tree tree.graph)
    (hacyclic : tree.Acyclic) (path procName : Text) :
    ∃ outcome, ∀ fuel, tree.graph.length ≤ fuel → tables.resolve fuel path procName = some outcome := by
  by_cases hpath : path ∈ tree.graph.map TypeNode.path
  · obtain ⟨ty, hty, rfl⟩ := List.mem_map.mp hpath
    obtain ⟨chain, hchain, hlen⟩ := ObjectTree.exists_inheritance hacyclic hty
    exact ⟨_, fun fuel hfuel => h.resolve hty hchain (hlen.trans hfuel) procName⟩
  · refine ⟨.error (.typeNotFound path), fun fuel _ => ?_⟩
    rw [Tables.resolve, (h.fresh path hpath).1]

theorem ProcResolver.build_stable (context : AnalysisContext) (hacyclic : tree.Acyclic) :
    ∃ resolver : ProcResolver, resolver.toTables = Tables.ofTree context tree ∧
      ∀ fuel, tree.graph.length ≤ fuel → ProcResolver.build context fuel tree = some resolver := by
  have hrecords := Tables.records_ofTree context tree
  have hsame : ∀ fuel, tree.graph.length ≤ fuel →
      ProcResolver.build context fuel tree = ProcResolver.build context tree.graph.length tree := by
    intro fuel hfuel
    have hkey : (fun key : Text × Text => (Tables.ofTree context tree).resolve fuel key.1 key.2) =
        fun key => (Tables.ofTree context tree).resolve tree.graph.length key.1 key.2 := by
      funext key
      obtain ⟨outcome, hout⟩ := hrecords.resolve_stable hacyclic key.1 key.2
      rw [hout fuel hfuel, hout _ le_rfl]
    simp only [ProcResolver.build, hkey]
  obtain ⟨outcomes, hout⟩ : ∃ outcomes, (Tables.ofTree context tree).canonicalKeys.mapM
      (fun key => (Tables.ofTree context tree).resolve tree.graph.length key.1 key.2) =
        some outcomes := by
    refine exists_mapM_some fun key _ => ?_
    obtain ⟨outcome, hout⟩ := hrecords.resolve_stable hacyclic key.1 key.2
    exact ⟨outcome, hout _ le_rfl⟩
  refine ⟨⟨Tables.ofTree context tree, outcomes.filterMap Except.toOption⟩, rfl, fun fuel hfuel => ?_⟩
  rw [hsame fuel hfuel]
  simp only [ProcResolver.build, hout, Option.map_some]

theorem indexProc_resolves {resolver : ProcResolver}
    (hrecords : resolver.toTables.Records context tree tree.graph) (hacyclic : tree.Acyclic)
    {ty : TypeNode} (hty : ty ∈ tree.graph) {ref : ProcRef} (href : ref ∈ ty.iterSelfProcs)
    {fuel : Nat} (hfuel : tree.graph.length ≤ fuel) :
    ∃ resolution parent, indexProc context tree fuel resolver ref =
      .ok (procSymbol context resolution ref, procHit context resolution parent ref) := by
  have hself := TypeNode.ty_of_mem_iterSelfProcs href
  obtain ⟨chain, hchain, hlen⟩ := ObjectTree.exists_inheritance hacyclic hty
  have hresolve := hrecords.resolve hty hchain (hlen.trans hfuel) ref.name
  have hspec : Resolved context ty ref.name chain _ :=
    resolved_searchOf resolver.toTables ty ref.name chain
  have himpl : ty.implements ref.name = true := by
    simp only [TypeNode.implements, List.any_eq_true, decide_eq_true_eq]
    exact ⟨ref, href, rfl⟩
  obtain ⟨parent, hparent⟩ := ref.parentProc_returns hacyclic (hself ▸ hty) hfuel
  cases hout : resolver.resolution ty.path ref.name (searchOf context ref.name chain) with
  | error e =>
    rw [hout] at hspec
    obtain ⟨searched, candidates, rfl⟩ := hspec.failure e rfl
    have hnil := hspec.notFound.mp ⟨searched, candidates, rfl⟩ ty
      ((Lineage.Ascends.mem_iff hchain).mpr Relation.ReflTransGen.refl)
    rw [TypeNode.localProcs_eq_nil_iff, himpl] at hnil
    cases hnil
  | ok resolution =>
    refine ⟨resolution, parent, ?_⟩
    rw [indexProc, hself, hresolve, hout]
    dsimp only
    rw [hparent]

theorem LanguageIndex.exists_build {resolver : ProcResolver}
    (hrecords : resolver.toTables.Records context tree tree.graph) (hacyclic : tree.Acyclic)
    (macros : List MacroDefinitionRecord) {fuel : Nat} (hfuel : tree.graph.length ≤ fuel) :
    ∃ index, LanguageIndex.build context tree macros fuel resolver = .ok index := by
  have htype : ∀ ty ∈ tree.graph,
      ∃ entered, indexType context tree fuel resolver ty = .ok entered := by
    intro ty hty
    obtain ⟨procs, hprocs⟩ := exists_mapM_ok fun ref (href : ref ∈ ty.iterSelfProcs) =>
      have ⟨_, _, h⟩ := indexProc_resolves hrecords hacyclic hty href hfuel
      ⟨_, h⟩
    exact ⟨_, by rw [indexType, hprocs]; rfl⟩
  obtain ⟨types, htypes⟩ := exists_mapM_ok htype
  exact ⟨_, by rw [LanguageIndex.build, htypes]; rfl⟩

def namedType (path : String) (procs : List (Text × TypeProc)) (parentType : Nat) : TypeNode :=
  { path := path.toList, location := ⟨0, 0, 0⟩, vars := [], procs := procs, parentType := parentType
    docs := [] }

def movableType : TypeNode :=
  namedType "/atom/movable" [("Move".toList, ⟨[⟨⟨0, 7, 2⟩, [], true, true, []⟩], some ⟨⟨0, 7, 2⟩⟩⟩)] 2

-- A mob is a movable atom, although its path is not below that of one.
def movableTree : ObjectTree where
  graph := [namedType "" [] 9, namedType "/datum" [] 0, namedType "/atom" [] 1, movableType,
    namedType "/mob" [] 3]
  paths_nodup := by decide
  procs_nodup := by decide
  names_plain := by decide

theorem movableTree_acyclic : movableTree.Acyclic :=
  Lineage.acyclic_of_rank (fun ty => movableTree.graph.idxOf ty)
    (by decide : ∀ ty ∈ movableTree.graph, ∀ parent ∈ movableTree.parentTypeOf ty,
      parent ∈ movableTree.graph ∧ movableTree.graph.idxOf parent < movableTree.graph.idxOf ty)

theorem movable_chains :
    movableTree.Inheritance (namedType "" [] 9) [namedType "" [] 9] ∧
    movableTree.Inheritance (namedType "/datum" [] 0) [namedType "/datum" [] 0, namedType "" [] 9] ∧
    movableTree.Inheritance (namedType "/atom" [] 1)
      [namedType "/atom" [] 1, namedType "/datum" [] 0, namedType "" [] 9] ∧
    movableTree.Inheritance movableType
      [movableType, namedType "/atom" [] 1, namedType "/datum" [] 0, namedType "" [] 9] ∧
    movableTree.Inheritance (namedType "/mob" [] 3) [namedType "/mob" [] 3, movableType,
      namedType "/atom" [] 1, namedType "/datum" [] 0, namedType "" [] 9] := by
  have hroot : movableTree.Inheritance (namedType "" [] 9) [namedType "" [] 9] := .top (by decide)
  have hdatum : movableTree.Inheritance (namedType "/datum" [] 0) _ := .step (by decide) hroot
  have hatom : movableTree.Inheritance (namedType "/atom" [] 1) _ := .step (by decide) hdatum
  have hmovable : movableTree.Inheritance movableType _ := .step (by decide) hatom
  exact ⟨hroot, hdatum, hatom, hmovable, .step (by decide) hmovable⟩

end Language
