import MeridianMcp.Language.Inheritance

namespace Language

open MeridianMcp Effects Fallible

variable {context : AnalysisContext} {tree : ObjectTree} {fuel : Nat} {resolver : ProcResolver}

def SymbolId.owner : SymbolId → Option Text
  | .type path => some path
  | .proc owner _ _ => some owner
  | .var owner _ => some owner
  | .macroDefinition _ _ _ => none

-- With no member, the symbols of the types themselves.
def SymbolId.isOf : Option Text → SymbolId → Bool
  | none, .type _ => true
  | some member, .proc _ name _ => name = member
  | some member, .var _ name => name = member
  | _, _ => false

def TypeNode.symbols (ty : TypeNode) : List SymbolId :=
  .type ty.path :: ty.declaredVars.map (fun entry => .var ty.path entry.1) ++
    ty.iterSelfProcs.map procId

def TypeNode.hasMember (member : Option Text) (ty : TypeNode) : Prop :=
  ∃ symbol ∈ ty.symbols, symbol.isOf member = true

def InheritsFrom (tree : ObjectTree) (ty : TypeNode) (owner : Text) : Prop :=
  ∃ ancestor, Relation.ReflTransGen (Lineage.Up tree.parentTypeOf) ty ancestor ∧
    ancestor.path = owner

def PathBelow (owner path : Text) : Prop := path = owner ∨ owner ++ ['/'] <+: path

def FollowsInheritance (tree : ObjectTree) (index : LanguageIndex) (owner : Text)
    (member : Option Text) : Prop :=
  ∀ symbol, symbol ∈ (index.implementationsOf owner member).map ImplementationHit.symbol ↔
    ∃ ty ∈ tree.graph, InheritsFrom tree ty owner ∧ symbol ∈ ty.symbols ∧ symbol.isOf member = true

theorem inheritsFrom_iff {ty : TypeNode} {chain : List TypeNode} (h : tree.Inheritance ty chain)
    (owner : Text) : InheritsFrom tree ty owner ↔ owner ∈ chain.map TypeNode.path := by
  rw [InheritsFrom, List.mem_map]
  exact exists_congr fun ancestor => and_congr_left fun _ => (Lineage.Ascends.mem_iff h).symm

theorem TypeNode.owner_of_mem_symbols {ty : TypeNode} {symbol : SymbolId}
    (h : symbol ∈ ty.symbols) : symbol.owner = some ty.path := by
  rw [symbols, List.mem_append, List.mem_cons, List.mem_map, List.mem_map] at h
  rcases h with (rfl | ⟨entry, -, rfl⟩) | ⟨ref, href, rfl⟩
  · rfl
  · rfl
  · rw [procId, TypeNode.ty_of_mem_iterSelfProcs href]
    rfl

theorem selects_eq_true_iff {owner : Text} {member : Option Text} {hit : ImplementationHit}
    (howner : hit.symbol.owner = some hit.declaredIn) :
    LanguageIndex.selects owner member hit = true ↔
      hit.symbol.isOf member = true ∧ PathBelow owner hit.declaredIn := by
  cases hsym : hit.symbol <;> cases member <;>
    simp_all [LanguageIndex.selects, SymbolId.isOf, SymbolId.owner, PathBelow]

theorem indexProc_ok {ref : ProcRef} {out : DocumentSymbol × ImplementationHit}
    (h : indexProc context tree fuel resolver ref = .ok out) : ∃ resolution parent,
      out = (procSymbol context resolution ref, procHit context resolution parent ref) := by
  unfold indexProc at h
  split at h
  · cases h
  · cases h
  · split at h
    · cases h
    · cases h
      exact ⟨_, _, rfl⟩

theorem indexType_ok {ty : TypeNode} {out : List (DocumentSymbol × ImplementationHit)}
    (h : indexType context tree fuel resolver ty = .ok out) : ∃ procs,
      List.Forall₂ (fun ref entered => indexProc context tree fuel resolver ref = .ok entered)
        ty.iterSelfProcs procs ∧
      out = (typeSymbol context ty, typeHit context tree ty) ::
        (ty.declaredVars.map fun entry => (varSymbol context ty entry, varHit context ty entry)) ++
          procs := by
  obtain ⟨procs, hprocs, hout⟩ := bind_ok h
  exact ⟨procs, forall₂_of_mapM_ok hprocs, (Except.ok.inj hout).symm⟩

theorem LanguageIndex.build_ok {macros : List MacroDefinitionRecord} {index : LanguageIndex}
    (h : LanguageIndex.build context tree macros fuel resolver = .ok index) : ∃ types,
      List.Forall₂ (fun ty out => indexType context tree fuel resolver ty = .ok out) tree.graph
        types ∧
      index =
        { documents := (((macros.map macroSymbol ++ types.flatten.map Prod.fst).foldl insertSymbol
            FinMap.empty).filterMap fun symbols => some (finishDocument symbols))
          implementations := (types.flatten.map Prod.snd).insertionSort fun left right =>
            left.key ≤ right.key } := by
  obtain ⟨types, htypes, hindex⟩ := bind_ok h
  exact ⟨types, forall₂_of_mapM_ok htypes, (Except.ok.inj hindex).symm⟩

theorem indexType_hits {ty : TypeNode} {out : List (DocumentSymbol × ImplementationHit)}
    (h : indexType context tree fuel resolver ty = .ok out) :
    out.map (fun entered => entered.2.symbol) = ty.symbols ∧
      ∀ entered ∈ out, entered.2.declaredIn = ty.path := by
  obtain ⟨procs, hall, rfl⟩ := indexType_ok h
  have hsymbols : procs.map (fun entered => entered.2.symbol) = ty.iterSelfProcs.map procId := by
    refine map_eq_of_forall₂ hall fun _ _ hok => ?_
    obtain ⟨_, _, rfl⟩ := indexProc_ok hok
    rfl
  refine ⟨?_, ?_⟩
  · simp only [List.cons_append, List.map_cons, List.map_append, List.map_map, hsymbols]
    rfl
  · intro entered hentered
    rw [List.cons_append, List.mem_cons, List.mem_append, List.mem_map] at hentered
    rcases hentered with rfl | ⟨entry, -, rfl⟩ | hproc
    · rfl
    · rfl
    · obtain ⟨ref, href, hok⟩ := exists_of_mem_right hall hproc
      obtain ⟨_, _, rfl⟩ := indexProc_ok hok
      exact congrArg TypeNode.path (TypeNode.ty_of_mem_iterSelfProcs href)

theorem LanguageIndex.mem_symbols {macros : List MacroDefinitionRecord} {index : LanguageIndex}
    (h : LanguageIndex.build context tree macros fuel resolver = .ok index) :
    (∀ hit ∈ index.implementations, ∃ ty ∈ tree.graph, hit.symbol ∈ ty.symbols ∧
      hit.declaredIn = ty.path) ∧
    ∀ ty ∈ tree.graph, ∀ symbol ∈ ty.symbols, ∃ hit ∈ index.implementations,
      hit.symbol = symbol ∧ hit.declaredIn = ty.path := by
  obtain ⟨types, hall, rfl⟩ := build_ok h
  constructor
  · intro hit hhit
    simp only [List.mem_insertionSort, List.mem_map, List.mem_flatten] at hhit
    obtain ⟨entered, ⟨out, hout, hentered⟩, rfl⟩ := hhit
    obtain ⟨ty, hty, hok⟩ := exists_of_mem_right hall hout
    obtain ⟨hsymbols, hdeclared⟩ := indexType_hits hok
    refine ⟨ty, hty, ?_, hdeclared entered hentered⟩
    rw [← hsymbols]
    exact List.mem_map_of_mem hentered
  · intro ty hty symbol hsymbol
    obtain ⟨out, hout, hok⟩ := exists_of_mem_left hall hty
    obtain ⟨hsymbols, hdeclared⟩ := indexType_hits hok
    rw [← hsymbols, List.mem_map] at hsymbol
    obtain ⟨entered, hentered, rfl⟩ := hsymbol
    refine ⟨entered.2, ?_, rfl, hdeclared entered hentered⟩
    simp only [List.mem_insertionSort, List.mem_map, List.mem_flatten]
    exact ⟨entered, ⟨out, hout, hentered⟩, rfl⟩

theorem LanguageIndex.mem_implementationsOf {macros : List MacroDefinitionRecord}
    {index : LanguageIndex}
    (h : LanguageIndex.build context tree macros fuel resolver = .ok index) {owner : Text}
    {member : Option Text} {symbol : SymbolId} :
    symbol ∈ (index.implementationsOf owner member).map ImplementationHit.symbol ↔
      ∃ ty ∈ tree.graph, PathBelow owner ty.path ∧ symbol ∈ ty.symbols ∧
        symbol.isOf member = true := by
  obtain ⟨hsound, hcomplete⟩ := mem_symbols h
  rw [List.mem_map]
  constructor
  · rintro ⟨hit, hhit, rfl⟩
    rw [implementationsOf, List.mem_filter] at hhit
    obtain ⟨ty, hty, hsymbol, hdeclared⟩ := hsound hit hhit.1
    have howner : hit.symbol.owner = some hit.declaredIn := by
      rw [TypeNode.owner_of_mem_symbols hsymbol, hdeclared]
    obtain ⟨hof, hbelow⟩ := (selects_eq_true_iff howner).mp hhit.2
    exact ⟨ty, hty, hdeclared ▸ hbelow, hsymbol, hof⟩
  · rintro ⟨ty, hty, hbelow, hsymbol, hof⟩
    obtain ⟨hit, hhit, rfl, hdeclared⟩ := hcomplete ty hty symbol hsymbol
    have howner : hit.symbol.owner = some hit.declaredIn := by
      rw [TypeNode.owner_of_mem_symbols hsymbol, hdeclared]
    refine ⟨hit, List.mem_filter.mpr ⟨hhit, ?_⟩, rfl⟩
    exact (selects_eq_true_iff howner).mpr ⟨hof, hdeclared.symm ▸ hbelow⟩

theorem movableTree_index (context : AnalysisContext) (macros : List MacroDefinitionRecord) :
    ∃ resolver index, ProcResolver.build context 5 movableTree = some resolver ∧
      LanguageIndex.build context movableTree macros 5 resolver = .ok index := by
  obtain ⟨resolver, htables, hbuild⟩ := ProcResolver.build_stable context movableTree_acyclic
  have hrecords : resolver.toTables.Records context movableTree movableTree.graph := by
    rw [htables]
    exact Tables.records_ofTree _ _
  obtain ⟨index, hindex⟩ := LanguageIndex.exists_build hrecords movableTree_acyclic macros le_rfl
  exact ⟨resolver, index, hbuild 5 le_rfl, hindex⟩

theorem mob_inherits : InheritsFrom movableTree (namedType "/mob" [] 3) "/atom/movable".toList :=
  ⟨movableType, .single (by rw [Lineage.Up]; decide), by decide⟩

end Language
