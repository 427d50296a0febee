import MeridianMcp.Language.LanguageIndex

namespace References

open MeridianMcp Language

inductive UnaryOp where
  | neg
  | not
  | bitNot
  | preIncr
  | postIncr
  | preDecr
  | postDecr
  | reference
  | dereference
  deriving DecidableEq, Repr

inductive AssignOp where
  | assign
  | addAssign
  | subAssign
  | mulAssign
  | divAssign
  | modAssign
  | floatModAssign
  | assignInto
  | bitAndAssign
  | andAssign
  | bitOrAssign
  | orAssign
  | bitXorAssign
  | lShiftAssign
  | rShiftAssign
  deriving DecidableEq, Repr

inductive PathOp where
  | slash
  | dot
  | colon
  deriving DecidableEq, Repr

-- `literal` stands for null, numbers, resources and `as`, whose contents are not read. A missing
-- list of arguments is the empty one.
mutual

inductive Expression where
  | base (location : Location) (term : Term) (follow : List (Location × Follow))
  | binaryOp (lhs rhs : Expression)
  | assignOp (op : AssignOp) (lhs rhs : Expression)
  | ternaryOp (cond if_ else_ : Expression)

inductive Term where
  | literal
  | string (text : Text)
  | ident (name : Text)
  | expr (expression : Expression)
  | prefab (path : List (PathOp × Text)) (vars : List (Text × Expression))
  | interpString (parts : List (Option Expression))
  | call (name : Text) (arguments : List Expression)
  | selfCall (arguments : List Expression)
  | parentCall (arguments : List Expression)
  | newImplicit (arguments : List Expression)
  | newPrefab (path : List (PathOp × Text)) (vars : List (Text × Expression))
      (arguments : List Expression)
  | newMiniExpr (ident : Text) (fields : List Text) (arguments : List Expression)
  | list (arguments : List Expression)
  | locate (arguments : List Expression) (inList : Option Expression)
  | input (arguments : List Expression) (inList : Option Expression)
  | pick (arguments : List (Option Expression × Expression))
  | dynamicCall (first second : List Expression)
  | externalCall (library : Option Expression) (function : Expression)
      (arguments : List Expression)
  | globalCall (name : Text) (arguments : List Expression)
  | globalIdent (name : Text)
  | ownType
  | ownProc
  | impliedType

inductive Follow where
  | unary (op : UnaryOp)
  | index (expression : Expression)
  | field (name : Text)
  | staticField (name : Text)
  | call (name : Text) (arguments : List Expression)
  | procReference (name : Text)

end

-- A declared type is its path, with the modifiers in front.
structure VarStatement where
  varType : List Text
  name : Text
  value : Option Expression

structure Parameter where
  location : Location
  varType : List Text
  name : Text
  default : Option Expression

inductive Case where
  | exact (expression : Expression)
  | range (start finish : Expression)

-- A missing else or default arm is the empty block.
inductive Statement where
  | expr (expression : Expression)
  | throw (expression : Expression)
  | del (expression : Expression)
  | return (expression : Option Expression)
  | crash (expression : Option Expression)
  | while (condition : Location × Expression) (block : List (Location × Statement))
  | doWhile (block : List (Location × Statement)) (condition : Location × Expression)
  | if (arms : List ((Location × Expression) × List (Location × Statement)))
      (elseArm : List (Location × Statement))
  | forInfinite (block : List (Location × Statement))
  | forLoop (init : Option Statement) (test : Option Expression) (inc : Option Statement)
      (block : List (Location × Statement))
  | forList (varType : Option (List Text)) (name : Text) (inList : Option Expression)
      (block : List (Location × Statement))
  | forRange (varType : Option (List Text)) (name : Text) (start finish : Expression)
      (step : Option Expression) (block : List (Location × Statement))
  | forKeyValue (varType : Option (List Text)) (key value : Text) (inList : Option Expression)
      (block : List (Location × Statement))
  | var (statement : VarStatement)
  | vars (statements : List VarStatement)
  | setting (value : Expression)
  | spawn (delay : Option Expression) (block : List (Location × Statement))
  | switch (input : Expression)
      (cases : List ((Location × List Case) × List (Location × Statement)))
      (default : List (Location × Statement))
  | tryCatch (tryBlock : List (Location × Statement)) (catchParams : List (List Text))
      (catchBlock : List (Location × Statement))
  | label (block : List (Location × Statement))
  | continue
  | break
  | goto

abbrev Block := List (Location × Statement)

open MeridianMcp Effects Language

inductive ReferenceKind where
  | read
  | write
  | call
  | typePath
  deriving DecidableEq, Repr

inductive StaticType (T : Type) where
  | none
  | type (ty : T)
  | list (ty : T) (keys : StaticType T)

def StaticType.basicType {T : Type} : StaticType T → Option T
  | .none => Option.none
  | .type ty => some ty
  | .list ty _ => some ty

structure VarDeclaration where
  id : SymbolId
  varType : List Text

-- What the object tree answers: its expected types, and the lookups along the inheritance.
structure TypeTree (T : Type) where
  root : T
  listType : T
  mobType : T
  isRoot : T → Bool
  id : T → SymbolId
  varDeclaration : T → Text → Option VarDeclaration
  hasProc : T → Text → Bool
  procDeclaration : T → Text → Option SymbolId
  typeByPath : List Text → Option T
  navigatePath : T → List (PathOp × Text) → Option T

structure ResolvedReference where
  symbol : SymbolId
  location : Location
  kind : ReferenceKind
  deriving DecidableEq

-- Which of the walker's functions recorded a reference. The table does not keep it.
inductive Origin where
  | ident
  | field
  | override
  | other
  deriving DecidableEq, Repr

inductive Visit where
  | record (origin : Origin) (reference : ResolvedReference)
  | skipDynamic
  deriving DecidableEq

abbrev Locals (T : Type) := FinMap Text (StaticType T)

structure Walker (T : Type) where
  tree : TypeTree T
  ty : T
  procName : Option Text

namespace Walker

variable {T : Type} (walker : Walker T)

def modifiers : List Text :=
  ["static".toList, "global".toList, "const".toList, "tmp".toList, "final".toList,
    "SpacemanDMM_final".toList, "SpacemanDMM_private".toList, "SpacemanDMM_protected".toList]

def staticType : List Text → StaticType T
  | [] => .none
  | first :: rest =>
    if first ∈ modifiers then staticType rest
    else if first = "list".toList then .list walker.tree.listType (staticType rest)
    else
      match walker.tree.typeByPath (first :: rest) with
      | some ty => .type ty
      | none => .none

def record (origin : Origin) (symbol : SymbolId) (location : Location) (kind : ReferenceKind) :
    Visit := .record origin ⟨symbol, location, kind⟩

def recordType (location : Location) : StaticType T → List Visit
  | .none => []
  | .type ty => [record .other (walker.tree.id ty) location .typePath]
  | .list ty keys =>
    record .other (walker.tree.id ty) location .typePath :: recordType location keys

def recordDeclared (origin : Origin) (location : Location) (access : ReferenceKind)
    (declaration : VarDeclaration) : List Visit × StaticType T :=
  ([record origin declaration.id location access], walker.staticType declaration.varType)

def visitIdent (locals : Locals T) (location : Location) (name : Text) (access : ReferenceKind) :
    List Visit × StaticType T :=
  match locals.get name with
  | some ty => ([], ty)
  | none =>
    match walker.tree.varDeclaration walker.ty name with
    | some declaration => walker.recordDeclared .ident location access declaration
    | none => ([], .none)

def visitField (location : Location) (lhs : StaticType T) (name : Text) (access : ReferenceKind) :
    List Visit × StaticType T :=
  match lhs.basicType.bind fun ty => walker.tree.varDeclaration ty name with
  | some declaration => walker.recordDeclared .field location access declaration
  | none => ([.skipDynamic], .none)

def visitFields (location : Location) (current : StaticType T) :
    List Text → List Visit × StaticType T
  | [] => ([], current)
  | name :: names =>
    let here := walker.visitField location current name .read
    let after := visitFields location here.2 names
    (here.1 ++ after.1, after.2)

def recordProc (location : Location) (source : T) (name : Text) : List Visit :=
  ((walker.tree.procDeclaration source name).map fun id => record .other id location .call).toList

def visitCallee (location : Location) (source : Option T) (name : Text) : List Visit :=
  match source with
  | some ty =>
    if walker.tree.hasProc ty name then walker.recordProc location ty name else [.skipDynamic]
  | none => [.skipDynamic]

def visitProcReference (location : Location) (lhs : StaticType T) (name : Text) : List Visit :=
  match lhs.basicType.bind fun ty => walker.tree.procDeclaration ty name with
  | some id => [record .other id location .call]
  | none => [.skipDynamic]

def newType (location : Location) : Option T → List Visit × StaticType T
  | some ty => ([record .other (walker.tree.id ty) location .typePath], .type ty)
  | none => ([], .none)

def overridden (location : Location) (ty : T) (name : Text) : List Visit × Option T :=
  match walker.tree.varDeclaration ty name with
  | some declaration =>
    ([record .override declaration.id location .write],
      (walker.staticType declaration.varType).basicType)
  | none => ([], none)

def isKwargKey : Expression → Bool
  | .base _ (.ident _) [] => true
  | .base _ (.string _) [] => true
  | _ => false

mutual

def visitExpression (locals : Locals T) (location : Location) :
    Expression → Option T → ReferenceKind → List Visit × StaticType T
  | .base termLocation term follow, hint, access =>
    let base := visitTerm locals termLocation term hint (if follow.isEmpty then access else .read)
    let rest := visitFollows locals base.2 follow access
    (base.1 ++ rest.1, rest.2)
  | .binaryOp lhs rhs, _, _ =>
    ((visitExpression locals location lhs none .read).1 ++
      (visitExpression locals location rhs none .read).1, .none)
  | .assignOp _ lhs rhs, _, _ =>
    let left := visitExpression locals location lhs none .write
    let right := visitExpression locals location rhs left.2.basicType .read
    (left.1 ++ right.1, right.2)
  | .ternaryOp cond if_ else_, hint, _ =>
    let first := visitExpression locals location cond none .read
    let second := visitExpression locals location if_ hint .read
    let third := visitExpression locals location else_ hint .read
    (first.1 ++ second.1 ++ third.1, second.2)

def visitTerm (locals : Locals T) (location : Location) :
    Term → Option T → ReferenceKind → List Visit × StaticType T
  | .literal, _, _ => ([], .none)
  | .string _, _, _ => ([], .none)
  | .expr expression, hint, access => visitExpression locals location expression hint access
  | .prefab path vars, _, _ =>
    match walker.tree.navigatePath walker.ty path with
    | some ty =>
      (record .other (walker.tree.id ty) location .typePath :: visitVars locals location ty vars,
        .type ty)
    | none => ([], .none)
  | .interpString parts, _, _ => (visitParts locals location parts, .none)
  | .ident name, _, access => walker.visitIdent locals location name access
  | .call name arguments, _, _ =>
    (walker.visitCallee location (some walker.ty) name ++ visitArguments locals location arguments,
      .none)
  | .selfCall arguments, _, _ => (visitArguments locals location arguments, .none)
  | .parentCall arguments, _, _ => (visitArguments locals location arguments, .none)
  | .newImplicit arguments, hint, _ =>
    (visitArguments locals location arguments ++ (walker.newType location hint).1,
      (walker.newType location hint).2)
  | .newPrefab path vars arguments, _, _ =>
    let ty := walker.tree.navigatePath walker.ty path
    let prefabVisits :=
      match ty with
      | some ty =>
        record .other (walker.tree.id ty) location .typePath :: visitVars locals location ty vars
      | none => []
    (prefabVisits ++ visitArguments locals location arguments ++ (walker.newType location ty).1,
      (walker.newType location ty).2)
  | .newMiniExpr ident fields arguments, _, _ =>
    let first := walker.visitIdent locals location ident .read
    let last := walker.visitFields location first.2 fields
    let skipped := if last.2.basicType.isNone then [Visit.skipDynamic] else []
    (first.1 ++ last.1 ++ skipped ++ visitArguments locals location arguments, .none)
  | .list arguments, _, _ =>
    (visitArguments locals location arguments, .list walker.tree.listType .none)
  | .locate arguments inList, _, _ =>
    (visitArguments locals location arguments ++ visitOption locals location inList, .none)
  | .input arguments inList, _, _ =>
    (visitArguments locals location arguments ++ visitOption locals location inList, .none)
  | .pick arguments, _, _ => (visitPick locals location arguments, .none)
  | .dynamicCall first second, _, _ =>
    (.skipDynamic :: (visitArguments locals location first ++
      visitArguments locals location second), .none)
  | .externalCall library function arguments, _, _ =>
    (.skipDynamic :: (visitOption locals location library ++
      (visitExpression locals location function none .read).1 ++
        visitArguments locals location arguments), .none)
  | .globalCall name arguments, _, _ =>
    (walker.visitCallee location (some walker.tree.root) name ++
      visitArguments locals location arguments, .none)
  | .globalIdent name, _, access =>
    match walker.tree.varDeclaration walker.tree.root name with
    | some declaration => walker.recordDeclared .field location access declaration
    | none => ([], .none)
  | .ownType, _, _ => ([record .other (walker.tree.id walker.ty) location .typePath], .none)
  | .ownProc, _, _ =>
    (walker.procName.elim [] (walker.recordProc location walker.ty), .none)
  | .impliedType, hint, _ => walker.newType location hint

def visitFollow (locals : Locals T) (location : Location) (lhs : StaticType T) :
    Follow → ReferenceKind → List Visit × StaticType T
  | .unary _, _ => ([], .none)
  | .index expression, _ =>
    ((visitExpression locals location expression none .read).1,
      match lhs with
      | .list _ keys => keys
      | _ => .none)
  | .field name, access => walker.visitField location lhs name access
  | .staticField name, access => walker.visitField location lhs name access
  | .call name arguments, _ =>
    (walker.visitCallee location lhs.basicType name ++ visitArguments locals location arguments,
      .none)
  | .procReference name, _ => (walker.visitProcReference location lhs name, .none)

def visitFollows (locals : Locals T) (current : StaticType T) :
    List (Location × Follow) → ReferenceKind → List Visit × StaticType T
  | [], _ => ([], current)
  | (location, each) :: rest, access =>
    let here := visitFollow locals location current each (if rest.isEmpty then access else .read)
    let after := visitFollows locals here.2 rest access
    (here.1 ++ after.1, after.2)

def visitArguments (locals : Locals T) (location : Location) : List Expression → List Visit
  | [] => []
  | argument :: rest =>
    let whole := (visitExpression locals location argument none .read).1
    let value :=
      match argument with
      | .assignOp op lhs rhs =>
        if op = .assign ∧ isKwargKey lhs then (visitExpression locals location rhs none .read).1
        else whole
      | _ => whole
    value ++ visitArguments locals location rest

def visitOption (locals : Locals T) (location : Location) : Option Expression → List Visit
  | none => []
  | some expression => (visitExpression locals location expression none .read).1

def visitParts (locals : Locals T) (location : Location) : List (Option Expression) → List Visit
  | [] => []
  | part :: rest => visitOption locals location part ++ visitParts locals location rest

def visitPick (locals : Locals T) (location : Location) :
    List (Option Expression × Expression) → List Visit
  | [] => []
  | (weight, value) :: rest =>
    visitOption locals location weight ++ (visitExpression locals location value none .read).1 ++
      visitPick locals location rest

def visitVars (locals : Locals T) (location : Location) (ty : T) :
    List (Text × Expression) → List Visit
  | [] => []
  | (name, expression) :: rest =>
    let here := walker.overridden location ty name
    here.1 ++ (visitExpression locals location expression here.2 .read).1 ++
      visitVars locals location ty rest

end

def visitVar (locals : Locals T) (location : Location) (varType : List Text) (name : Text)
    (value : Option Expression) : List Visit × Locals T :=
  let ty := walker.staticType varType
  let visits :=
    match value with
    | some value => (walker.visitExpression locals location value ty.basicType .read).1
    | none => []
  (walker.recordType location ty ++ visits, locals.insert name ty)

def visitLoopVar (locals : Locals T) (location : Location) (varType : Option (List Text))
    (name : Text) : List Visit × Locals T :=
  match varType with
  | some varType => walker.visitVar locals location varType name none
  | none => ([], locals)

def visitVarStatements (locals : Locals T) (location : Location) :
    List VarStatement → List Visit × Locals T
  | [] => ([], locals)
  | statement :: rest =>
    let here := walker.visitVar locals location statement.varType statement.name statement.value
    let after := visitVarStatements here.2 location rest
    (here.1 ++ after.1, after.2)

def visitCase (locals : Locals T) (location : Location) : Case → List Visit
  | .exact expression => (walker.visitExpression locals location expression none .read).1
  | .range start finish =>
    (walker.visitExpression locals location start none .read).1 ++
      (walker.visitExpression locals location finish none .read).1

def catchType (path : List Text) : List Text := path.dropLast.filter fun part => part ≠ "var".toList

def visitCatchParams (locals : Locals T) (location : Location) :
    List (List Text) → List Visit × Locals T
  | [] => ([], locals)
  | caught :: rest =>
    let here :=
      match caught.getLast? with
      | some name => walker.visitVar locals location (catchType caught) name none
      | none => ([], locals)
    let after := visitCatchParams here.2 location rest
    (here.1 ++ after.1, after.2)

mutual

def visitStatement (locals : Locals T) (location : Location) :
    Statement → List Visit × Locals T
  | .expr expression => ((walker.visitExpression locals location expression none .read).1, locals)
  | .throw expression => ((walker.visitExpression locals location expression none .read).1, locals)
  | .del expression => ((walker.visitExpression locals location expression none .read).1, locals)
  | .return expression => (walker.visitOption locals location expression, locals)
  | .crash expression => (walker.visitOption locals location expression, locals)
  | .while condition block =>
    let body := visitBlock locals block
    ((walker.visitExpression locals condition.1 condition.2 none .read).1 ++ body.1, body.2)
  | .doWhile block condition =>
    let body := visitBlock locals block
    (body.1 ++ (walker.visitExpression body.2 condition.1 condition.2 none .read).1, body.2)
  | .if arms elseArm =>
    let first := visitArms locals arms
    let second := visitBlock first.2 elseArm
    (first.1 ++ second.1, second.2)
  | .forInfinite block => visitBlock locals block
  | .forLoop init test inc block =>
    let first := visitOptional locals location init
    let tested := walker.visitOption first.2 location test
    let second := visitOptional first.2 location inc
    let body := visitBlock second.2 block
    (first.1 ++ tested ++ second.1 ++ body.1, body.2)
  | .forList varType name inList block =>
    let listed := walker.visitOption locals location inList
    let declared := walker.visitLoopVar locals location varType name
    let body := visitBlock declared.2 block
    (listed ++ declared.1 ++ body.1, body.2)
  | .forRange varType name start finish step block =>
    let bounds := (walker.visitExpression locals location start none .read).1 ++
      (walker.visitExpression locals location finish none .read).1 ++
        walker.visitOption locals location step
    let declared := walker.visitLoopVar locals location varType name
    let body := visitBlock declared.2 block
    (bounds ++ declared.1 ++ body.1, body.2)
  | .forKeyValue varType key value inList block =>
    let listed := walker.visitOption locals location inList
    let declared := walker.visitLoopVar locals location varType key
    let body := visitBlock (declared.2.insert value .none) block
    (listed ++ declared.1 ++ body.1, body.2)
  | .var statement =>
    walker.visitVar locals location statement.varType statement.name statement.value
  | .vars statements => walker.visitVarStatements locals location statements
  | .setting value => ((walker.visitExpression locals location value none .read).1, locals)
  | .spawn delay block =>
    let body := visitBlock locals block
    (walker.visitOption locals location delay ++ body.1, body.2)
  | .switch input cases default =>
    let first := visitCases locals cases
    let second := visitBlock first.2 default
    ((walker.visitExpression locals location input none .read).1 ++ first.1 ++ second.1, second.2)
  | .tryCatch tryBlock catchParams catchBlock =>
    let first := visitBlock locals tryBlock
    let caught := walker.visitCatchParams first.2 location catchParams
    let second := visitBlock caught.2 catchBlock
    (first.1 ++ caught.1 ++ second.1, second.2)
  | .label block => visitBlock locals block
  | .continue => ([], locals)
  | .break => ([], locals)
  | .goto => ([], locals)

def visitBlock (locals : Locals T) : List (Location × Statement) → List Visit × Locals T
  | [] => ([], locals)
  | (location, statement) :: rest =>
    let here := visitStatement locals location statement
    let after := visitBlock here.2 rest
    (here.1 ++ after.1, after.2)

def visitOptional (locals : Locals T) (location : Location) :
    Option Statement → List Visit × Locals T
  | none => ([], locals)
  | some statement => visitStatement locals location statement

def visitArms (locals : Locals T) :
    List ((Location × Expression) × List (Location × Statement)) → List Visit × Locals T
  | [] => ([], locals)
  | (condition, block) :: rest =>
    let body := visitBlock locals block
    let after := visitArms body.2 rest
    ((walker.visitExpression locals condition.1 condition.2 none .read).1 ++ body.1 ++ after.1,
      after.2)

def visitCases (locals : Locals T) :
    List ((Location × List Case) × List (Location × Statement)) → List Visit × Locals T
  | [] => ([], locals)
  | (case, block) :: rest =>
    let body := visitBlock locals block
    let after := visitCases body.2 rest
    (case.2.flatMap (walker.visitCase locals case.1) ++ body.1 ++ after.1, after.2)

end

def visitParameters (locals : Locals T) : List Parameter → List Visit × Locals T
  | [] => ([], locals)
  | parameter :: rest =>
    let ty := walker.staticType parameter.varType
    let default := walker.visitOption locals parameter.location parameter.default
    let after := visitParameters (locals.insert parameter.name ty) rest
    (walker.recordType parameter.location ty ++ default ++ after.1, after.2)

def builtinLocals : Locals T :=
  let locals := (((FinMap.empty.insert "global".toList (.type walker.tree.root)).insert
    ".".toList .none).insert "args".toList (.type walker.tree.listType)).insert
      "usr".toList (.type walker.tree.mobType)
  if walker.tree.isRoot walker.ty then locals else locals.insert "src".toList (.type walker.ty)

def run (parameters : List Parameter) (block : Block) : List Visit :=
  let first := walker.visitParameters walker.builtinLocals parameters
  first.1 ++ (walker.visitBlock first.2 block).1

end Walker

structure ReferenceTable where
  uses : FinMap SymbolId (List (Location × ReferenceKind))
  skippedDynamic : Nat

def ReferenceTable.visit (table : ReferenceTable) : Visit → ReferenceTable
  | .record _ reference =>
    { table with
      uses := FinMap.pushAt ResolvedReference.symbol
        (fun reference => (reference.location, reference.kind)) table.uses reference }
  | .skipDynamic => { table with skippedDynamic := min (table.skippedDynamic + 1) (2 ^ 64 - 1) }

-- Sorted and without repetition at the end, the references of a symbol are a set.
def ReferenceTable.references (table : ReferenceTable) (symbol : SymbolId) :
    Finset (Location × ReferenceKind) :=
  ((table.uses.get symbol).getD []).toFinset

def ReferenceTable.ofVisits (visits : List Visit) : ReferenceTable :=
  visits.foldl ReferenceTable.visit ⟨FinMap.empty, 0⟩

theorem ReferenceTable.mem_references {visits : List Visit} {symbol : SymbolId}
    {location : Location} {kind : ReferenceKind} :
    (location, kind) ∈ (ofVisits visits).references symbol ↔
      ∃ origin, Visit.record origin ⟨symbol, location, kind⟩ ∈ visits := by
  induction visits using List.reverseRecOn with
  | nil => simp [ofVisits, references, FinMap.empty]
  | append_singleton visits visit ih =>
    rw [ofVisits, List.foldl_append, List.foldl_cons, List.foldl_nil, ← ofVisits]
    cases visit with
    | skipDynamic =>
      rw [ReferenceTable.visit]
      refine ih.trans (exists_congr fun origin => ?_)
      simp
    | record origin reference =>
      obtain ⟨other, location', kind'⟩ := reference
      rw [references, List.mem_toFinset] at ih
      rw [references, List.mem_toFinset, ReferenceTable.visit, FinMap.pushAt, FinMap.get_insert]
      by_cases hsymbol : other = symbol
      · subst hsymbol
        rw [Function.update_self, Option.getD_some, List.mem_append, ih]
        constructor
        · rintro (⟨origin', h⟩ | h)
          · exact ⟨origin', List.mem_append_left _ h⟩
          · rw [List.mem_singleton, Prod.mk.injEq] at h
            obtain ⟨rfl, rfl⟩ := h
            exact ⟨origin, List.mem_append_right _ (List.mem_singleton_self _)⟩
        · rintro ⟨origin', h⟩
          rcases List.mem_append.mp h with h | h
          · exact Or.inl ⟨origin', h⟩
          · right
            cases List.mem_singleton.mp h
            exact List.mem_singleton_self _
      · rw [Function.update_of_ne (Ne.symm hsymbol), ih]
        refine exists_congr fun origin' => ?_
        simp [Ne.symm hsymbol]

end References
