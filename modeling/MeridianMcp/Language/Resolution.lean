import MeridianMcp.Language.ProcResolver

namespace Language

open MeridianMcp Effects

namespace TypeNode

def localProcs (context : AnalysisContext) (procName : Text) (ty : TypeNode) :
    List ResolvedProcImplementation :=
  (ty.iterSelfProcs.filter fun ref => ref.name = procName).map (localImplementation context)

def implements (procName : Text) (ty : TypeNode) : Bool :=
  ty.iterSelfProcs.any fun ref => ref.name = procName

def declares (procName : Text) (ty : TypeNode) : Bool :=
  ty.procs.any fun entry => entry.2.declaration.isSome && entry.1 = procName

theorem localProcs_eq_nil_iff {context : AnalysisContext} {procName : Text} {ty : TypeNode} :
    ty.localProcs context procName = [] ↔ ty.implements procName = false := by
  simp [localProcs, implements, List.filter_eq_nil_iff]

theorem mem_declaredProcs {procName : Text} {ty : TypeNode} :
    procName ∈ declaredProcs ty ↔ ty.declares procName = true := by
  simp only [declaredProcs, declares, List.mem_toFinset, List.mem_map, List.mem_filter,
    List.any_eq_true, Bool.and_eq_true, decide_eq_true_eq]
  constructor
  · rintro ⟨entry, ⟨hentry, hdeclared⟩, rfl⟩
    exact ⟨entry, hentry, hdeclared, rfl⟩
  · rintro ⟨entry, hentry, hdeclared, rfl⟩
    exact ⟨entry, ⟨hentry, hdeclared⟩, rfl⟩

end TypeNode

theorem get_foldl_pushLocal (context : AnalysisContext) (procName : Text) (refs : List ProcRef)
    (table : FinMap Text (List ResolvedProcImplementation)) :
    (refs.foldl (pushLocal context) table).get procName =
      if refs.any (fun ref => ref.name = procName) then
        some ((table.get procName).getD [] ++
          (refs.filter fun ref => ref.name = procName).map (localImplementation context))
      else table.get procName :=
  FinMap.get_foldl_pushAt ProcRef.name (localImplementation context) procName refs table

theorem mem_foldl_pushOwner {procName owner : Text} {refs : List ProcRef}
    {owners : FinMap Text (Finset Text)} :
    owner ∈ ((refs.foldl pushOwner owners).get procName).getD ∅ ↔
      owner ∈ (owners.get procName).getD ∅ ∨
        ∃ ref ∈ refs, ref.name = procName ∧ ref.ty.path = owner := by
  induction refs generalizing owners with
  | nil => simp
  | cons ref refs ih =>
    rw [List.foldl_cons, ih, pushOwner, FinMap.get_insert]
    by_cases h : ref.name = procName
    · subst h
      simp only [Function.update_self, Option.getD_some, Finset.mem_insert, List.exists_mem_cons_iff,
        true_and]
      grind
    · rw [Function.update_of_ne (Ne.symm h)]
      simp [h]

-- What the four tables hold once the types `tys` have been entered.
structure Tables.Records (context : AnalysisContext) (tree : ObjectTree) (tys : List TypeNode)
    (tables : Tables) : Prop where
  parents : ∀ ty ∈ tys, tables.parents.get ty.path = some ((tree.parentTypeOf ty).map TypeNode.path)
  declares : ∀ ty ∈ tys, ∀ procName, tables.declares ty.path procName = ty.declares procName
  localOf : ∀ ty ∈ tys, ∀ procName, tables.localOf ty.path procName =
    if ty.implements procName then some (ty.localProcs context procName) else none
  owners : ∀ owner procName, owner ∈ (tables.ownersByProcName.get procName).getD ∅ ↔
    ∃ ty ∈ tys, ty.path = owner ∧ ty.implements procName = true
  fresh : ∀ path, path ∉ tys.map TypeNode.path → tables.parents.get path = none ∧
    tables.declarations.get path = none ∧ tables.localImplementations.get path = none

theorem Tables.records_empty (context : AnalysisContext) (tree : ObjectTree) :
    Tables.Records context tree [] Tables.empty where
  parents := by simp
  declares := by simp
  localOf := by simp
  owners := by simp [Tables.empty, FinMap.empty]
  fresh := by simp [Tables.empty, FinMap.empty]

theorem keys_foldl_pushLocal {context : AnalysisContext} {ty : TypeNode} :
    (ty.iterSelfProcs.foldl (pushLocal context) FinMap.empty).keys = ∅ ↔
      ∀ procName, ty.implements procName = false := by
  rw [Finset.eq_empty_iff_forall_notMem]
  refine forall_congr' fun procName => ?_
  rw [FinMap.mem_keys, get_foldl_pushLocal, TypeNode.implements]
  cases ty.iterSelfProcs.any (fun ref => ref.name = procName) <;> simp [FinMap.empty]

theorem Tables.addType_localOf_self (context : AnalysisContext) (tree : ObjectTree)
    {tables : Tables} {ty : TypeNode} (hfresh : tables.localImplementations.get ty.path = none)
    (procName : Text) :
    (tables.addType context tree ty).localOf ty.path procName =
      if ty.implements procName then some (ty.localProcs context procName) else none := by
  simp only [Tables.localOf, Tables.addType]
  split
  · rename_i h
    rw [keys_foldl_pushLocal] at h
    simp [hfresh, h procName]
  · rw [FinMap.get_insert, Function.update_self, Option.bind_some, get_foldl_pushLocal]
    rfl

theorem Tables.addType_declares_self (context : AnalysisContext) (tree : ObjectTree)
    {tables : Tables} {ty : TypeNode} (hfresh : tables.declarations.get ty.path = none)
    (procName : Text) :
    (tables.addType context tree ty).declares ty.path procName = ty.declares procName := by
  rw [Bool.eq_iff_iff, ← TypeNode.mem_declaredProcs]
  simp only [Tables.declares, Tables.addType]
  split
  · rename_i h
    simp [hfresh, h]
  · simp

theorem Tables.addType_of_ne (context : AnalysisContext) (tree : ObjectTree) (tables : Tables)
    {ty : TypeNode} {path : Text} (hne : path ≠ ty.path) :
    (tables.addType context tree ty).parents.get path = tables.parents.get path ∧
      (tables.addType context tree ty).declarations.get path = tables.declarations.get path ∧
      (tables.addType context tree ty).localImplementations.get path =
        tables.localImplementations.get path := by
  refine ⟨Function.update_of_ne hne _ _, ?_, ?_⟩
  · simp only [Tables.addType]
    split
    · rfl
    · exact Function.update_of_ne hne _ _
  · simp only [Tables.addType]
    split
    · rfl
    · exact Function.update_of_ne hne _ _

theorem Tables.Records.addType {context : AnalysisContext} {tree : ObjectTree}
    {tys : List TypeNode} {tables : Tables} (h : tables.Records context tree tys) {ty : TypeNode}
    (hty : ty.path ∉ tys.map TypeNode.path) :
    (tables.addType context tree ty).Records context tree (tys ++ [ty]) := by
  have hne : ∀ ty' ∈ tys, ty'.path ≠ ty.path := fun ty' hty' heq =>
    hty (heq ▸ List.mem_map_of_mem hty')
  obtain ⟨-, hdeclarations, hlocal⟩ := h.fresh _ hty
  refine ⟨?_, ?_, ?_, ?_, ?_⟩
  · intro ty' hty'
    rcases List.mem_append.mp hty' with hold | hnew
    · rw [(Tables.addType_of_ne context tree tables (hne _ hold)).1]
      exact h.parents _ hold
    · rw [List.mem_singleton.mp hnew]
      exact Function.update_self _ _ _
  · intro ty' hty' procName
    rcases List.mem_append.mp hty' with hold | hnew
    · rw [Tables.declares, (Tables.addType_of_ne context tree tables (hne _ hold)).2.1]
      exact h.declares _ hold procName
    · rw [List.mem_singleton.mp hnew]
      exact Tables.addType_declares_self context tree hdeclarations procName
  · intro ty' hty' procName
    rcases List.mem_append.mp hty' with hold | hnew
    · rw [Tables.localOf, (Tables.addType_of_ne context tree tables (hne _ hold)).2.2]
      exact h.localOf _ hold procName
    · rw [List.mem_singleton.mp hnew]
      exact Tables.addType_localOf_self context tree hlocal procName
  · intro owner procName
    change owner ∈ ((ty.iterSelfProcs.foldl pushOwner tables.ownersByProcName).get procName).getD ∅ ↔ _
    rw [mem_foldl_pushOwner, h.owners]
    have hself : (∃ ref ∈ ty.iterSelfProcs, ref.name = procName ∧ ref.ty.path = owner) ↔
        ty.path = owner ∧ ty.implements procName = true := by
      simp only [TypeNode.implements, List.any_eq_true, decide_eq_true_eq]
      constructor
      · rintro ⟨ref, href, hname, howner⟩
        rw [TypeNode.ty_of_mem_iterSelfProcs href] at howner
        exact ⟨howner, ref, href, hname⟩
      · rintro ⟨howner, ref, href, hname⟩
        exact ⟨ref, href, hname, by rw [TypeNode.ty_of_mem_iterSelfProcs href, howner]⟩
    rw [hself]
    simp [or_and_right, exists_or]
  · intro path hpath
    rw [List.map_append, List.mem_append, not_or, List.map_singleton, List.mem_singleton] at hpath
    obtain ⟨hparents, hdeclarations, hlocal⟩ := Tables.addType_of_ne context tree tables hpath.2
    rw [hparents, hdeclarations, hlocal]
    exact h.fresh _ hpath.1

theorem Tables.Records.foldl {context : AnalysisContext} {tree : ObjectTree}
    {tys rest : List TypeNode} {tables : Tables} (h : tables.Records context tree tys)
    (hnodup : ((tys ++ rest).map TypeNode.path).Nodup) :
    (rest.foldl (Tables.addType context tree) tables).Records context tree (tys ++ rest) := by
  induction rest generalizing tys tables with
  | nil => simpa using h
  | cons ty rest ih =>
    have hty : ty.path ∉ tys.map TypeNode.path := by
      intro hmem
      rw [List.map_append, List.map_cons] at hnodup
      exact List.disjoint_of_nodup_append hnodup hmem (List.mem_cons_self ..)
    rw [List.append_cons] at hnodup ⊢
    exact ih (h.addType hty) hnodup

theorem Tables.records_ofTree (context : AnalysisContext) (tree : ObjectTree) :
    (Tables.ofTree context tree).Records context tree tree.graph :=
  (Tables.records_empty context tree).foldl tree.paths_nodup

end Language
