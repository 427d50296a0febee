import Mathlib.Data.List.Destutter
import Mathlib.Data.Prod.Lex
import Mathlib.Data.List.Sort
import MeridianMcp.Language.ProcResolver

namespace Language

open MeridianMcp Effects

inductive SymbolId where
  | type (path : Text)
  | proc (owner name : Text) (overrideIndex : Nat)
  | var (owner name : Text)
  | macroDefinition (name file : Text) (line : Nat)
  deriving DecidableEq, Repr

inductive SymbolKind where
  | type
  | proc
  | var
  | macroDefinition
  deriving DecidableEq, Repr

def SymbolKind.rank : SymbolKind → Nat
  | type => 0
  | proc => 1
  | var => 2
  | macroDefinition => 3

structure MacroDefinitionRecord where
  name : Text
  file : Text
  line : Nat
  column : Nat
  deriving DecidableEq, Repr

structure DocumentSymbol where
  id : SymbolId
  name : Text
  kind : SymbolKind
  owner : Option Text
  implementationOwner : Option Text
  declarationOwner : Option Text
  file : Text
  line : Nat
  column : Nat
  deriving DecidableEq, Repr

structure ImplementationHit where
  symbol : SymbolId
  declaredIn : Text
  implementationOwner : Text
  declarationOwner : Text
  inheritedFrom : Option Text
  file : Text
  line : Nat
  column : Nat
  deriving DecidableEq, Repr

def DocumentSymbol.key (symbol : DocumentSymbol) : Nat ×ₗ Nat ×ₗ Nat ×ₗ Text :=
  toLex (symbol.line, toLex (symbol.column, toLex (symbol.kind.rank, symbol.name)))

def ImplementationHit.key (hit : ImplementationHit) : Text ×ₗ Nat ×ₗ Nat :=
  toLex (hit.declaredIn, toLex (hit.line, hit.column))

structure LanguageIndex where
  documents : FinMap (List Text) (List DocumentSymbol)
  implementations : List ImplementationHit

-- `unresolvedLocal` is the panic of the expectation that a local procedure resolves.
inductive BuildFault where
  | unresolvedLocal
  | outOfFuel
  deriving DecidableEq, Repr

-- Two paths are the same key when their components are.
def pathComponents (path : Text) : List Text :=
  match path.splitOn '/' with
  | [] => []
  | first :: rest =>
    (if first = [] then (if rest = [] then [] else [['/']]) else [first]) ++
      rest.filter fun part => part ≠ [] && part ≠ ['.']

def normalizePath (path : Text) : List Text := pathComponents ((slashed path).map Char.toLower)

def macroSymbol (record : MacroDefinitionRecord) : DocumentSymbol :=
  { id := .macroDefinition record.name record.file record.line
    name := record.name
    kind := .macroDefinition
    owner := none
    implementationOwner := none
    declarationOwner := none
    file := record.file
    line := record.line
    column := record.column }

def lastSegment (path : Text) : Text := (path.reverse.takeWhile (· ≠ '/')).reverse

def typeSymbol (context : AnalysisContext) (ty : TypeNode) : DocumentSymbol :=
  { id := .type ty.path
    name := lastSegment ty.path
    kind := .type
    owner := none
    implementationOwner := none
    declarationOwner := none
    file := context.filePath ty.location.file
    line := ty.location.line
    column := ty.location.column }

def typeHit (context : AnalysisContext) (tree : ObjectTree) (ty : TypeNode) : ImplementationHit :=
  { symbol := .type ty.path
    declaredIn := ty.path
    implementationOwner := ty.path
    declarationOwner := ty.path
    inheritedFrom := (tree.parentTypeOf ty).map TypeNode.path
    file := context.filePath ty.location.file
    line := ty.location.line
    column := ty.location.column }

def TypeNode.declaredVars (ty : TypeNode) : List (Text × TypeVar) :=
  ty.vars.filter fun entry => entry.2.declaration.isSome

def varSymbol (context : AnalysisContext) (ty : TypeNode) (entry : Text × TypeVar) :
    DocumentSymbol :=
  { id := .var ty.path entry.1
    name := entry.1
    kind := .var
    owner := some ty.path
    implementationOwner := some ty.path
    declarationOwner := some ty.path
    file := context.filePath entry.2.location.file
    line := entry.2.location.line
    column := entry.2.location.column }

def varHit (context : AnalysisContext) (ty : TypeNode) (entry : Text × TypeVar) :
    ImplementationHit :=
  { symbol := .var ty.path entry.1
    declaredIn := ty.path
    implementationOwner := ty.path
    declarationOwner := ty.path
    inheritedFrom := none
    file := context.filePath entry.2.location.file
    line := entry.2.location.line
    column := entry.2.location.column }

def procId (ref : ProcRef) : SymbolId := .proc ref.ty.path ref.name ref.index

def procSymbol (context : AnalysisContext) (resolution : ProcResolution) (ref : ProcRef) :
    DocumentSymbol :=
  { id := procId ref
    name := ref.name
    kind := .proc
    owner := some ref.ty.path
    implementationOwner := some ref.ty.path
    declarationOwner := some resolution.declarationOwner
    file := context.filePath ref.value.location.file
    line := ref.value.location.line
    column := ref.value.location.column }

def procHit (context : AnalysisContext) (resolution : ProcResolution) (parent : Option TypeNode)
    (ref : ProcRef) : ImplementationHit :=
  { symbol := procId ref
    declaredIn := ref.ty.path
    implementationOwner := ref.ty.path
    declarationOwner := resolution.declarationOwner
    inheritedFrom := parent.map TypeNode.path
    file := context.filePath ref.value.location.file
    line := ref.value.location.line
    column := ref.value.location.column }

def indexProc (context : AnalysisContext) (tree : ObjectTree) (fuel : Nat)
    (procResolver : ProcResolver) (ref : ProcRef) :
    Except BuildFault (DocumentSymbol × ImplementationHit) :=
  match procResolver.resolve fuel ref.ty.path ref.name with
  | none => .error .outOfFuel
  | some (.error _) => .error .unresolvedLocal
  | some (.ok resolution) =>
    match ref.parentProc tree fuel with
    | none => .error .outOfFuel
    | some parent =>
      .ok (procSymbol context resolution ref, procHit context resolution parent ref)

def indexType (context : AnalysisContext) (tree : ObjectTree) (fuel : Nat)
    (procResolver : ProcResolver) (ty : TypeNode) :
    Except BuildFault (List (DocumentSymbol × ImplementationHit)) := do
  let procs ← ty.iterSelfProcs.mapM (indexProc context tree fuel procResolver)
  return (typeSymbol context ty, typeHit context tree ty) ::
    (ty.declaredVars.map fun entry => (varSymbol context ty entry, varHit context ty entry)) ++ procs

def insertSymbol (documents : FinMap (List Text) (List DocumentSymbol)) (symbol : DocumentSymbol) :
    FinMap (List Text) (List DocumentSymbol) :=
  documents.insert (normalizePath symbol.file)
    ((documents.get (normalizePath symbol.file)).getD [] ++ [symbol])

def finishDocument (symbols : List DocumentSymbol) : List DocumentSymbol :=
  (symbols.insertionSort fun left right => left.key ≤ right.key).destutter (· ≠ ·)

namespace LanguageIndex

def build (context : AnalysisContext) (tree : ObjectTree) (macros : List MacroDefinitionRecord)
    (fuel : Nat) (procResolver : ProcResolver) : Except BuildFault LanguageIndex := do
  let types ← tree.graph.mapM (indexType context tree fuel procResolver)
  let entered := types.flatten
  let documents :=
    (macros.map macroSymbol ++ entered.map Prod.fst).foldl insertSymbol FinMap.empty
  return {
    documents := documents.filterMap fun symbols => some (finishDocument symbols)
    implementations :=
      (entered.map Prod.snd).insertionSort fun left right => left.key ≤ right.key }

def selects (owner : Text) (member : Option Text) (hit : ImplementationHit) : Bool :=
  match hit.symbol, member with
  | .type path, none => path = owner || (owner ++ ['/']).isPrefixOf path
  | .proc _ name _, some member =>
    name = member && (hit.declaredIn = owner || (owner ++ ['/']).isPrefixOf hit.declaredIn)
  | .var _ name, some member =>
    name = member && (hit.declaredIn = owner || (owner ++ ['/']).isPrefixOf hit.declaredIn)
  | _, _ => false

def implementationsOf (index : LanguageIndex) (owner : Text) (member : Option Text) :
    List ImplementationHit :=
  index.implementations.filter (selects owner member)

end LanguageIndex

end Language
