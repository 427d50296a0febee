import MeridianMcp.Effects.FinMap
import MeridianMcp.Language.ObjectTree

namespace Language

open MeridianMcp Effects

structure AnalysisContext where
  filePaths : List (Nat × Text)

def AnalysisContext.filePath (context : AnalysisContext) (file : Nat) : Text :=
  (context.filePaths.lookup file).getD "(unknown)".toList

structure SourceLocation where
  file : Text
  line : Nat
  column : Nat
  deriving DecidableEq, Repr

inductive ProcResolutionKind where
  | localImplementation
  | inheritedImplementation
  deriving DecidableEq, Repr

structure ResolvedProcImplementation where
  owner : Text
  overrideIndex : Nat
  location : SourceLocation
  hasBody : Bool
  parameters : List Text
  deriving DecidableEq, Repr

structure ProcResolution where
  requestedTypePath : Text
  procName : Text
  implementationOwner : Text
  declarationOwner : Text
  resolutionKind : ProcResolutionKind
  implementations : List ResolvedProcImplementation
  deriving DecidableEq, Repr

inductive ProcResolutionError where
  | typeNotFound (requestedTypePath : Text)
  | notFound (requestedTypePath procName : Text) (searchedTypeChain sameNameCandidates : List Text)
  deriving DecidableEq, Repr

def maxSameNameCandidates : Nat := 32

structure Tables where
  parents : FinMap Text (Option Text)
  declarations : FinMap Text (Finset Text)
  localImplementations : FinMap Text (FinMap Text (List ResolvedProcImplementation))
  ownersByProcName : FinMap Text (Finset Text)

def Tables.empty : Tables :=
  { parents := FinMap.empty, declarations := FinMap.empty, localImplementations := FinMap.empty
    ownersByProcName := FinMap.empty }

structure ProcResolver extends Tables where
  canonicalResolutions : List ProcResolution

def declaredProcs (ty : TypeNode) : Finset Text :=
  ((ty.procs.filter fun entry => entry.2.declaration.isSome).map Prod.fst).toFinset

def localImplementation (context : AnalysisContext) (ref : ProcRef) : ResolvedProcImplementation :=
  { owner := ref.ty.path
    overrideIndex := ref.index
    location :=
      { file := context.filePath ref.value.location.file
        line := ref.value.location.line
        column := ref.value.location.column }
    hasBody := ref.value.hasCode || ref.value.hasBodyRange
    parameters := ref.value.parameters }

def pushLocal (context : AnalysisContext)
    (table : FinMap Text (List ResolvedProcImplementation)) (ref : ProcRef) :
    FinMap Text (List ResolvedProcImplementation) :=
  table.insert ref.name ((table.get ref.name).getD [] ++ [localImplementation context ref])

def pushOwner (owners : FinMap Text (Finset Text)) (ref : ProcRef) : FinMap Text (Finset Text) :=
  owners.insert ref.name (Insert.insert ref.ty.path ((owners.get ref.name).getD ∅))

def Tables.addType (context : AnalysisContext) (tree : ObjectTree) (tables : Tables)
    (ty : TypeNode) : Tables :=
  let declared := declaredProcs ty
  let local_ := ty.iterSelfProcs.foldl (pushLocal context) FinMap.empty
  { parents := tables.parents.insert ty.path ((tree.parentTypeOf ty).map TypeNode.path)
    declarations :=
      if declared = ∅ then tables.declarations else tables.declarations.insert ty.path declared
    localImplementations :=
      if local_.keys = ∅ then tables.localImplementations
      else tables.localImplementations.insert ty.path local_
    ownersByProcName := ty.iterSelfProcs.foldl pushOwner tables.ownersByProcName }

def Tables.ofTree (context : AnalysisContext) (tree : ObjectTree) : Tables :=
  tree.graph.foldl (Tables.addType context tree) Tables.empty

structure Search where
  searchedTypeChain : List Text
  implementations : List ResolvedProcImplementation
  implementationOwner : Option Text
  declarationOwner : Option Text

namespace Tables

def localOf (tables : Tables) (owner procName : Text) : Option (List ResolvedProcImplementation) :=
  (tables.localImplementations.get owner).bind fun procs => procs.get procName

def declares (tables : Tables) (owner procName : Text) : Bool :=
  (tables.declarations.get owner).any fun names => procName ∈ names

def parentOf (tables : Tables) (owner : Text) : Option Text := (tables.parents.get owner).join

-- The body of the loop of `resolve`; it leaves an owner it has found as it is.
def visit (tables : Tables) (procName : Text) (search : Search) (owner : Text) : Search :=
  { searchedTypeChain := search.searchedTypeChain ++ [owner]
    declarationOwner :=
      if search.declarationOwner.isNone && tables.declares owner procName then some owner
      else search.declarationOwner
    implementationOwner :=
      match tables.localOf owner procName with
      | some _ => search.implementationOwner.or (some owner)
      | none => search.implementationOwner
    implementations :=
      match tables.localOf owner procName with
      | some local_ => search.implementations ++ local_
      | none => search.implementations }

def resolution (tables : Tables) (requestedTypePath procName : Text) (search : Search) :
    Except ProcResolutionError ProcResolution :=
  match search.implementationOwner with
  | none => .error (.notFound requestedTypePath procName search.searchedTypeChain
      ((FinMap.sortKeys ((tables.ownersByProcName.get procName).getD ∅)).take maxSameNameCandidates))
  | some implementationOwner => .ok
      { requestedTypePath := requestedTypePath
        procName := procName
        resolutionKind :=
          if implementationOwner = requestedTypePath then .localImplementation
          else .inheritedImplementation
        implementationOwner := implementationOwner
        declarationOwner := search.declarationOwner.getD implementationOwner
        implementations := search.implementations }

def resolve (tables : Tables) (fuel : Nat) (requestedTypePath procName : Text) :
    Option (Except ProcResolutionError ProcResolution) :=
  match tables.parents.get requestedTypePath with
  | none => some (.error (.typeNotFound requestedTypePath))
  | some _ =>
    (Lineage.walk tables.parentOf (tables.visit procName) fuel (some requestedTypePath)
      ⟨[], [], none, none⟩).map (tables.resolution requestedTypePath procName)

def canonicalKeys (tables : Tables) : List (Text × Text) :=
  (FinMap.sortKeys tables.localImplementations.keys).flatMap fun owner =>
    (FinMap.sortKeys (((tables.localImplementations.get owner).map FinMap.keys).getD ∅)).map
      fun procName => (owner, procName)

end Tables

-- A resolution that does not end keeps the construction from ending.
def ProcResolver.build (context : AnalysisContext) (fuel : Nat) (tree : ObjectTree) :
    Option ProcResolver :=
  let tables := Tables.ofTree context tree
  ((tables.canonicalKeys.mapM fun key => tables.resolve fuel key.1 key.2)).map fun outcomes =>
    { toTables := tables, canonicalResolutions := outcomes.filterMap Except.toOption }

end Language
