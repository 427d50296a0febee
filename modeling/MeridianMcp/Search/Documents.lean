import MeridianMcp.Language.Inheritance
import MeridianMcp.Search.Index

namespace Search

open MeridianMcp Effects Language

def indexSourceLines : Nat := 80

-- The paths of the parser's files, and the source cache.
structure Sources where
  contextFile : Nat → Text
  sourceLine : Text → Nat → Option Text
  sourceDeclaration : Text → Nat → Nat → Option Text

def memberSymbol (typePath kind name : Text) : Text :=
  if typePath = [] then '/' :: (kind ++ '/' :: name)
  else typePath ++ '/' :: (kind ++ '/' :: name)

def parentPath (tree : ObjectTree) (ty : TypeNode) : Option Text :=
  (tree.parentTypeOf ty).map TypeNode.path

def typeDocuments (unicode : Unicode) (sources : Sources) (tree : ObjectTree) (ty : TypeNode) :
    List SearchDocument :=
  if ty.path = [] || ty.location.isBuiltins then []
  else
    let file := sources.contextFile ty.location.file
    [{ kind := .type
       symbol := ty.path
       name := lastSegment ty.path
       typePath := ty.path
       implementationOwner := none
       declarationOwner := none
       parent := parentPath tree ty
       file := file
       line := ty.location.line
       column := ty.location.column
       docs := unicode.trim ty.docs
       source := sources.sourceLine file ty.location.line
       parameters := []
       overrideIndex := none
       overrideCount := none }]

def varDocument (unicode : Unicode) (sources : Sources) (tree : ObjectTree) (ty : TypeNode)
    (entry : Text × TypeVar) : SearchDocument :=
  let file := sources.contextFile entry.2.location.file
  { kind := .var
    symbol := memberSymbol ty.path "var".toList entry.1
    name := entry.1
    typePath := ty.path
    implementationOwner := none
    declarationOwner := none
    parent := parentPath tree ty
    file := file
    line := entry.2.location.line
    column := entry.2.location.column
    docs := unicode.trim entry.2.docs
    source := sources.sourceLine file entry.2.location.line
    parameters := []
    overrideIndex := none
    overrideCount := none }

def varDocuments (unicode : Unicode) (sources : Sources) (tree : ObjectTree) (ty : TypeNode) :
    List SearchDocument :=
  (ty.vars.filter fun entry => !entry.2.location.isBuiltins).map
    (varDocument unicode sources tree ty)

def procDocument (unicode : Unicode) (sources : Sources) (tree : ObjectTree) (ty : TypeNode)
    (name : Text) (overrideCount index : Nat) (value : ProcValue) : SearchDocument :=
  let file := sources.contextFile value.location.file
  { kind := .proc
    symbol := memberSymbol ty.path "proc".toList name
    name := name
    typePath := ty.path
    implementationOwner := none
    declarationOwner := none
    parent := parentPath tree ty
    file := file
    line := value.location.line
    column := value.location.column
    docs := unicode.trim value.docs
    source := sources.sourceDeclaration file value.location.line indexSourceLines
    parameters := value.parameters
    overrideIndex := some (index + 1)
    overrideCount := some overrideCount }

def procDocuments (unicode : Unicode) (sources : Sources) (tree : ObjectTree) (ty : TypeNode) :
    List SearchDocument :=
  ty.procs.flatMap fun entry =>
    let values := entry.2.value.filter fun value => !value.location.isBuiltins
    values.mapIdx (procDocument unicode sources tree ty entry.1 values.length)

def fromObjectTree (unicode : Unicode) (sources : Sources) (tree : ObjectTree) :
    List SearchDocument :=
  tree.graph.flatMap fun ty =>
    typeDocuments unicode sources tree ty ++ varDocuments unicode sources tree ty ++
      procDocuments unicode sources tree ty

def normalizePathText (path : Text) : Text := (slashed path).map Char.toLower

structure JoinKey where
  name : Text
  file : Text
  line : Nat
  column : Nat
  deriving DecidableEq

structure Canonical where
  implementationOwner : Text
  declarationOwner : Text
  overrideIndex : Nat
  overrideCount : Nat

def implementationKey (procName : Text) (implementation : ResolvedProcImplementation) : JoinKey :=
  ⟨procName, normalizePathText implementation.location.file, implementation.location.line,
    implementation.location.column⟩

def ownImplementations (resolution : ProcResolution) : List ResolvedProcImplementation :=
  resolution.implementations.filter fun implementation =>
    implementation.owner = resolution.implementationOwner

def enterResolution (canonical : FinMap JoinKey Canonical) (resolution : ProcResolution) :
    FinMap JoinKey Canonical :=
  (ownImplementations resolution).foldl
    (fun canonical implementation =>
      canonical.insert (implementationKey resolution.procName implementation)
        ⟨resolution.implementationOwner, resolution.declarationOwner, implementation.overrideIndex,
          (ownImplementations resolution).length⟩)
    canonical

def canonicalOf (resolver : ProcResolver) : FinMap JoinKey Canonical :=
  (resolver.canonicalResolutions.filter fun resolution =>
    resolution.requestedTypePath = resolution.implementationOwner).foldl enterResolution FinMap.empty

def documentKey (document : SearchDocument) : JoinKey :=
  ⟨document.name, normalizePathText document.file, document.line, document.column⟩

def rewriteDocument (canonical : Canonical) (document : SearchDocument) : SearchDocument :=
  { document with
    typePath := canonical.implementationOwner
    symbol := memberSymbol canonical.implementationOwner "proc".toList document.name
    implementationOwner := some canonical.implementationOwner
    declarationOwner := some canonical.declarationOwner
    overrideIndex := some canonical.overrideIndex
    overrideCount := some canonical.overrideCount }

structure Mark where
  symbol : Text
  file : Text
  line : Nat
  column : Nat
  overrideIndex : Nat
  deriving DecidableEq

def markOf (canonical : Canonical) (document : SearchDocument) : Mark :=
  ⟨memberSymbol canonical.implementationOwner "proc".toList document.name, document.file,
    document.line, document.column, canonical.overrideIndex⟩

def retainDocument (canonical : FinMap JoinKey Canonical)
    (state : List SearchDocument × List Mark) (document : SearchDocument) :
    List SearchDocument × List Mark :=
  if document.kind ≠ .proc then (state.1 ++ [document], state.2)
  else
    match canonical.get (documentKey document) with
    | none => state
    | some entry =>
      if markOf entry document ∈ state.2 then state
      else (state.1 ++ [rewriteDocument entry document], markOf entry document :: state.2)

def canonicalizeProcs (resolver : ProcResolver) (documents : List SearchDocument) :
    List SearchDocument :=
  (documents.foldl (retainDocument (canonicalOf resolver)) ([], [])).1

def isProcDocument (owner name : Text) (overrideIndex : Nat) (document : SearchDocument) : Bool :=
  document.kind = .proc && document.typePath = owner && document.name = name &&
    document.overrideIndex = some overrideIndex

def SearchIndex.procSource (unicode : Unicode) (index : SearchIndex) (owner name : Text)
    (overrideIndex : Nat) : Option Text :=
  (index.exactSymbols.get (unicode.toLowercase (memberSymbol owner "proc".toList name))).bind
    fun ids => ((ids.filterMap fun id => index.documents[id]?).find?
      (isProcDocument owner name overrideIndex)).bind SearchDocument.source

end Search
