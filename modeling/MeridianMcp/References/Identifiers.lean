import MeridianMcp.References.Walker

namespace References

open MeridianMcp Effects Language

-- Where a name stands as a variable in an expression. It is lost when it stands in the overrides of
-- a type path that leads nowhere.
structure Occurrence where
  name : Text
  location : Location
  lost : Bool
  deriving DecidableEq

def Occurrence.lose (occurrence : Occurrence) : Occurrence := { occurrence with lost := true }

namespace Walker

variable {T : Type} (walker : Walker T)

mutual

def idents : Expression → List Occurrence
  | .base location term follow => termIdents location term ++ followsIdents follow
  | .binaryOp lhs rhs => idents lhs ++ idents rhs
  | .assignOp _ lhs rhs => idents lhs ++ idents rhs
  | .ternaryOp cond if_ else_ => idents cond ++ idents if_ ++ idents else_

def termIdents (location : Location) : Term → List Occurrence
  | .literal => []
  | .string _ => []
  | .ident name => [⟨name, location, false⟩]
  | .expr expression => idents expression
  | .prefab path vars =>
    if (walker.tree.navigatePath walker.ty path).isSome then varsIdents vars
    else (varsIdents vars).map Occurrence.lose
  | .interpString parts => partsIdents parts
  | .call _ arguments => argumentsIdents arguments
  | .selfCall arguments => argumentsIdents arguments
  | .parentCall arguments => argumentsIdents arguments
  | .newImplicit arguments => argumentsIdents arguments
  | .newPrefab path vars arguments =>
    (if (walker.tree.navigatePath walker.ty path).isSome then varsIdents vars
      else (varsIdents vars).map Occurrence.lose) ++ argumentsIdents arguments
  | .newMiniExpr ident _ arguments => ⟨ident, location, false⟩ :: argumentsIdents arguments
  | .list arguments => argumentsIdents arguments
  | .locate arguments inList => argumentsIdents arguments ++ optionIdents inList
  | .input arguments inList => argumentsIdents arguments ++ optionIdents inList
  | .pick arguments => pickIdents arguments
  | .dynamicCall first second => argumentsIdents first ++ argumentsIdents second
  | .externalCall library function arguments =>
    optionIdents library ++ idents function ++ argumentsIdents arguments
  | .globalCall _ arguments => argumentsIdents arguments
  | .globalIdent _ => []
  | .ownType => []
  | .ownProc => []
  | .impliedType => []

def followIdents : Follow → List Occurrence
  | .unary _ => []
  | .index expression => idents expression
  | .field _ => []
  | .staticField _ => []
  | .call _ arguments => argumentsIdents arguments
  | .procReference _ => []

def followsIdents : List (Location × Follow) → List Occurrence
  | [] => []
  | (_, each) :: rest => followIdents each ++ followsIdents rest

-- The name of a named argument is no variable.
def argumentsIdents : List Expression → List Occurrence
  | [] => []
  | argument :: rest =>
    let whole := idents argument
    let value :=
      match argument with
      | .assignOp op lhs rhs => if op = .assign ∧ isKwargKey lhs then idents rhs else whole
      | _ => whole
    value ++ argumentsIdents rest

def optionIdents : Option Expression → List Occurrence
  | none => []
  | some expression => idents expression

def partsIdents : List (Option Expression) → List Occurrence
  | [] => []
  | part :: rest => optionIdents part ++ partsIdents rest

def pickIdents : List (Option Expression × Expression) → List Occurrence
  | [] => []
  | (weight, value) :: rest => optionIdents weight ++ idents value ++ pickIdents rest

def varsIdents : List (Text × Expression) → List Occurrence
  | [] => []
  | (_, expression) :: rest => idents expression ++ varsIdents rest

end

def identRecord : Visit → Option (SymbolId × Location)
  | .record .ident reference => some (reference.symbol, reference.location)
  | _ => none

-- The references that the walker recorded for identifiers, in its order.
def identRecords (visits : List Visit) : List (SymbolId × Location) := visits.filterMap identRecord

def named (occurrence : Occurrence) : Option (SymbolId × Location) :=
  (walker.tree.varDeclaration walker.ty occurrence.name).map fun declaration =>
    (declaration.id, occurrence.location)

def found (locals : Locals T) (occurrence : Occurrence) : Option (SymbolId × Location) :=
  if occurrence.lost ∨ (locals.get occurrence.name).isSome then none else walker.named occurrence

@[simp] theorem identRecords_nil : identRecords [] = [] := rfl

@[simp] theorem identRecords_append (visits visits' : List Visit) :
    identRecords (visits ++ visits') = identRecords visits ++ identRecords visits' :=
  List.filterMap_append

@[simp] theorem identRecords_skip (visits : List Visit) :
    identRecords (.skipDynamic :: visits) = identRecords visits := rfl

@[simp] theorem identRecords_other (symbol : SymbolId) (location : Location) (kind : ReferenceKind)
    (visits : List Visit) :
    identRecords (record .other symbol location kind :: visits) = identRecords visits := rfl

@[simp] theorem identRecords_recordType (location : Location) (ty : StaticType T) :
    identRecords (walker.recordType location ty) = [] := by
  induction ty with
  | none => rfl
  | type ty => rfl
  | list ty keys ih =>
    rw [recordType, identRecords_other, ih]

@[simp] theorem identRecords_visitField (location : Location) (lhs : StaticType T) (name : Text)
    (access : ReferenceKind) : identRecords (walker.visitField location lhs name access).1 = [] := by
  unfold visitField
  split <;> rfl

@[simp] theorem identRecords_visitFields (location : Location) (current : StaticType T)
    (names : List Text) : identRecords (walker.visitFields location current names).1 = [] := by
  induction names generalizing current with
  | nil => rfl
  | cons name names ih =>
    rw [visitFields, identRecords_append, identRecords_visitField, ih, List.append_nil]

@[simp] theorem identRecords_recordProc (location : Location) (source : T) (name : Text) :
    identRecords (walker.recordProc location source name) = [] := by
  unfold recordProc
  cases walker.tree.procDeclaration source name <;> rfl

@[simp] theorem identRecords_visitCallee (location : Location) (source : Option T) (name : Text) :
    identRecords (walker.visitCallee location source name) = [] := by
  unfold visitCallee
  split
  · split
    · exact walker.identRecords_recordProc ..
    · rfl
  · rfl

@[simp] theorem identRecords_visitProcReference (location : Location) (lhs : StaticType T)
    (name : Text) : identRecords (walker.visitProcReference location lhs name) = [] := by
  unfold visitProcReference
  split <;> rfl

@[simp] theorem identRecords_newType (location : Location) (ty : Option T) :
    identRecords (walker.newType location ty).1 = [] := by
  cases ty <;> rfl

@[simp] theorem identRecords_overridden (location : Location) (ty : T) (name : Text) :
    identRecords (walker.overridden location ty name).1 = [] := by
  unfold overridden
  split <;> rfl

variable {walker} {locals : Locals T}

@[simp] theorem found_lose (occurrence : Occurrence) :
    walker.found locals occurrence.lose = none := by
  simp [found, Occurrence.lose]

theorem identRecords_visitIdent (location : Location) (name : Text) (access : ReferenceKind) :
    identRecords (walker.visitIdent locals location name access).1 =
      [(⟨name, location, false⟩ : Occurrence)].filterMap (walker.found locals) := by
  unfold visitIdent
  cases hlocal : locals.get name with
  | some ty => simp [found, hlocal]
  | none =>
    cases hdeclaration : walker.tree.varDeclaration walker.ty name with
    | none => simp [found, named, hlocal, hdeclaration]
    | some declaration =>
      simp [found, named, hlocal, hdeclaration, recordDeclared, identRecords, identRecord, record]

mutual

theorem identRecords_visitExpression (location : Location) (hint : Option T)
    (access : ReferenceKind) : ∀ expression : Expression,
    identRecords (walker.visitExpression locals location expression hint access).1 =
      (walker.idents expression).filterMap (walker.found locals)
  | .base termLocation term follow => by
    rw [visitExpression, idents, identRecords_append, List.filterMap_append,
      identRecords_visitTerm termLocation, identRecords_visitFollows]
  | .binaryOp lhs rhs => by
    rw [visitExpression, idents, identRecords_append, List.filterMap_append,
      identRecords_visitExpression location _ _ lhs, identRecords_visitExpression location _ _ rhs]
  | .assignOp op lhs rhs => by
    rw [visitExpression, idents, identRecords_append, List.filterMap_append,
      identRecords_visitExpression location _ _ lhs, identRecords_visitExpression location _ _ rhs]
  | .ternaryOp cond if_ else_ => by
    rw [visitExpression, idents, identRecords_append, identRecords_append, List.filterMap_append,
      List.filterMap_append, identRecords_visitExpression location _ _ cond,
      identRecords_visitExpression location _ _ if_, identRecords_visitExpression location _ _ else_]

theorem identRecords_visitTerm (location : Location) (hint : Option T) (access : ReferenceKind) :
    ∀ term : Term, identRecords (walker.visitTerm locals location term hint access).1 =
      (walker.termIdents location term).filterMap (walker.found locals)
  | .literal => rfl
  | .string _ => rfl
  | .ident name => by rw [visitTerm, termIdents, identRecords_visitIdent]
  | .expr expression => by
    rw [visitTerm, termIdents, identRecords_visitExpression location hint access expression]
  | .prefab path vars => by
    rw [visitTerm, termIdents]
    cases walker.tree.navigatePath walker.ty path with
    | none => simp
    | some ty => simp [identRecords_visitVars location ty vars]
  | .interpString parts => by rw [visitTerm, termIdents, identRecords_visitParts location parts]
  | .call name arguments => by
    simp [visitTerm, termIdents, identRecords_visitArguments location arguments]
  | .selfCall arguments => by
    rw [visitTerm, termIdents, identRecords_visitArguments location arguments]
  | .parentCall arguments => by
    rw [visitTerm, termIdents, identRecords_visitArguments location arguments]
  | .newImplicit arguments => by
    simp [visitTerm, termIdents, identRecords_visitArguments location arguments]
  | .newPrefab path vars arguments => by
    rw [visitTerm, termIdents]
    cases walker.tree.navigatePath walker.ty path with
    | none => simp [identRecords_visitArguments location arguments]
    | some ty =>
      simp [identRecords_visitVars location ty vars, identRecords_visitArguments location arguments]
  | .newMiniExpr ident fields arguments => by
    rw [visitTerm, termIdents]
    have hskipped : ∀ ty : StaticType T,
        identRecords (if ty.basicType.isNone then [Visit.skipDynamic] else []) = [] := by
      intro ty
      split <;> rfl
    simp only [identRecords_append, identRecords_visitFields, hskipped, List.append_nil,
      identRecords_visitIdent, identRecords_visitArguments location arguments]
    rw [← List.filterMap_append, List.singleton_append]
  | .list arguments => by rw [visitTerm, termIdents, identRecords_visitArguments location arguments]
  | .locate arguments inList => by
    rw [visitTerm, termIdents, identRecords_append, List.filterMap_append,
      identRecords_visitArguments location arguments, identRecords_visitOption location inList]
  | .input arguments inList => by
    rw [visitTerm, termIdents, identRecords_append, List.filterMap_append,
      identRecords_visitArguments location arguments, identRecords_visitOption location inList]
  | .pick arguments => by rw [visitTerm, termIdents, identRecords_visitPick location arguments]
  | .dynamicCall first second => by
    rw [visitTerm, termIdents, identRecords_skip, identRecords_append, List.filterMap_append,
      identRecords_visitArguments location first, identRecords_visitArguments location second]
  | .externalCall library function arguments => by
    rw [visitTerm, termIdents, identRecords_skip, identRecords_append, identRecords_append,
      List.filterMap_append, List.filterMap_append, identRecords_visitOption location library,
      identRecords_visitExpression location _ _ function,
      identRecords_visitArguments location arguments]
  | .globalCall name arguments => by
    simp [visitTerm, termIdents, identRecords_visitArguments location arguments]
  | .globalIdent name => by
    rw [visitTerm, termIdents]
    cases walker.tree.varDeclaration walker.tree.root name <;> rfl
  | .ownType => rfl
  | .ownProc => by
    rw [visitTerm, termIdents]
    cases walker.procName with
    | none => rfl
    | some name => exact walker.identRecords_recordProc ..
  | .impliedType => by rw [visitTerm, termIdents, identRecords_newType]; rfl

theorem identRecords_visitFollow (location : Location) (lhs : StaticType T)
    (access : ReferenceKind) : ∀ follow : Follow,
    identRecords (walker.visitFollow locals location lhs follow access).1 =
      (walker.followIdents follow).filterMap (walker.found locals)
  | .unary _ => rfl
  | .index expression => identRecords_visitExpression location _ _ expression
  | .field name => by rw [visitFollow, followIdents, identRecords_visitField]; rfl
  | .staticField name => by rw [visitFollow, followIdents, identRecords_visitField]; rfl
  | .call name arguments => by
    simp [visitFollow, followIdents, identRecords_visitArguments location arguments]
  | .procReference name => by
    rw [visitFollow, followIdents, identRecords_visitProcReference]; rfl

theorem identRecords_visitFollows (current : StaticType T) (access : ReferenceKind) :
    ∀ follows : List (Location × Follow),
    identRecords (walker.visitFollows locals current follows access).1 =
      (walker.followsIdents follows).filterMap (walker.found locals)
  | [] => rfl
  | (location, each) :: rest => by
    rw [visitFollows, followsIdents, identRecords_append, List.filterMap_append,
      identRecords_visitFollow location _ _ each, identRecords_visitFollows _ _ rest]

theorem identRecords_visitArguments (location : Location) : ∀ arguments : List Expression,
    identRecords (walker.visitArguments locals location arguments) =
      (walker.argumentsIdents arguments).filterMap (walker.found locals)
  | [] => rfl
  | .base termLocation term follow :: rest => by
    rw [visitArguments, argumentsIdents, identRecords_append, List.filterMap_append,
      identRecords_visitExpression location _ _ (.base termLocation term follow),
      identRecords_visitArguments location rest]
    all_goals exact nofun
  | .binaryOp lhs rhs :: rest => by
    rw [visitArguments, argumentsIdents, identRecords_append, List.filterMap_append,
      identRecords_visitExpression location _ _ (.binaryOp lhs rhs),
      identRecords_visitArguments location rest]
    all_goals exact nofun
  | .assignOp op lhs rhs :: rest => by
    rw [visitArguments, argumentsIdents, identRecords_append, List.filterMap_append,
      identRecords_visitArguments location rest]
    split
    · rw [identRecords_visitExpression location _ _ rhs]
    · rw [identRecords_visitExpression location _ _ (.assignOp op lhs rhs)]
  | .ternaryOp cond if_ else_ :: rest => by
    rw [visitArguments, argumentsIdents, identRecords_append, List.filterMap_append,
      identRecords_visitExpression location _ _ (.ternaryOp cond if_ else_),
      identRecords_visitArguments location rest]
    all_goals exact nofun

theorem identRecords_visitOption (location : Location) : ∀ expression : Option Expression,
    identRecords (walker.visitOption locals location expression) =
      (walker.optionIdents expression).filterMap (walker.found locals)
  | none => rfl
  | some expression => by
    rw [visitOption, optionIdents, identRecords_visitExpression location _ _ expression]

theorem identRecords_visitParts (location : Location) : ∀ parts : List (Option Expression),
    identRecords (walker.visitParts locals location parts) =
      (walker.partsIdents parts).filterMap (walker.found locals)
  | [] => rfl
  | part :: rest => by
    rw [visitParts, partsIdents, identRecords_append, List.filterMap_append,
      identRecords_visitOption location part, identRecords_visitParts location rest]

theorem identRecords_visitPick (location : Location) :
    ∀ arguments : List (Option Expression × Expression),
    identRecords (walker.visitPick locals location arguments) =
      (walker.pickIdents arguments).filterMap (walker.found locals)
  | [] => rfl
  | (weight, value) :: rest => by
    rw [visitPick, pickIdents, identRecords_append, identRecords_append, List.filterMap_append,
      List.filterMap_append, identRecords_visitOption location weight,
      identRecords_visitExpression location _ _ value, identRecords_visitPick location rest]

theorem identRecords_visitVars (location : Location) (ty : T) :
    ∀ vars : List (Text × Expression),
    identRecords (walker.visitVars locals location ty vars) =
      (walker.varsIdents vars).filterMap (walker.found locals)
  | [] => rfl
  | (name, expression) :: rest => by
    rw [visitVars, varsIdents, identRecords_append, identRecords_append, List.filterMap_append,
      identRecords_overridden, List.nil_append, identRecords_visitExpression location _ _ expression,
      identRecords_visitVars location ty rest]

end

end Walker

end References
