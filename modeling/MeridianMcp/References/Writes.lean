import MeridianMcp.References.Scoping

namespace References

open MeridianMcp Effects Language

def UnaryOp.changes : UnaryOp → Bool
  | .preIncr | .postIncr | .preDecr | .postDecr => true
  | _ => false

-- The ways in which execution assigns a variable.
inductive Way where
  | operator
  | override
  | step
  | loop
  deriving DecidableEq, Repr

-- A place that assigns, with the declaration and position of its operand for given locals.
structure Target (T : Type) where
  way : Way
  lost : Bool
  operand : Locals T → Option (SymbolId × Location)

def Target.lose {T : Type} (target : Target T) : Target T := { target with lost := true }

-- The walker sees assignment operators and overrides, of the prefabs that it visits.
def Target.seen {T : Type} (locals : Locals T) (target : Target T) : Option (SymbolId × Location) :=
  if target.lost = false ∧ (target.way = .operator ∨ target.way = .override) then
    target.operand locals
  else none

namespace Walker

variable {T : Type} (walker : Walker T)

def declaredAt (location : Location) (declaration : Option VarDeclaration) :
    Option (SymbolId × Location) :=
  declaration.map fun declaration => (declaration.id, location)

def identOperand (location : Location) (name : Text) (locals : Locals T) :
    Option (SymbolId × Location) :=
  if (locals.get name).isSome then none
  else declaredAt location (walker.tree.varDeclaration walker.ty name)

def followOperand (location : Location) (lhs : StaticType T) :
    Follow → Option (SymbolId × Location)
  | .field name | .staticField name =>
    declaredAt location (lhs.basicType.bind fun ty => walker.tree.varDeclaration ty name)
  | _ => none

-- The operand of a chain is its last part, of the type that the parts before it have.
def followsOperand (locals : Locals T) (current : StaticType T) :
    List (Location × Follow) → Option (SymbolId × Location)
  | [] => none
  | [(location, each)] => walker.followOperand location current each
  | (location, each) :: rest =>
    followsOperand locals (walker.visitFollow locals location current each .read).2 rest

mutual

def expressionOperand (hint : Locals T → Option T) (locals : Locals T) :
    Expression → Option (SymbolId × Location)
  | .base location term follow =>
    if follow.isEmpty then termOperand location hint locals term
    else walker.followsOperand locals (walker.visitTerm locals location term (hint locals) .read).2
      follow
  | _ => none

def termOperand (location : Location) (hint : Locals T → Option T) (locals : Locals T) :
    Term → Option (SymbolId × Location)
  | .ident name => walker.identOperand location name locals
  | .globalIdent name => declaredAt location (walker.tree.varDeclaration walker.tree.root name)
  | .expr expression => expressionOperand hint locals expression
  | _ => none

end

def noHint : Locals T → Option T := fun _ => none

mutual

def targets (location : Location) : Expression → (Locals T → Option T) → List (Target T)
  | .base termLocation term follow, hint =>
    termTargets termLocation term hint ++
      followsTargets
        (fun locals => (walker.visitTerm locals termLocation term (hint locals) .read).2)
        (fun locals => walker.termOperand termLocation hint locals term) follow
  | .binaryOp lhs rhs, _ => targets location lhs noHint ++ targets location rhs noHint
  | .assignOp _ lhs rhs, _ =>
    targets location lhs noHint ++
      [⟨.operator, false, fun locals => walker.expressionOperand noHint locals lhs⟩] ++
      targets location rhs fun locals =>
        (walker.visitExpression locals location lhs none .write).2.basicType
  | .ternaryOp cond if_ else_, hint =>
    targets location cond noHint ++ targets location if_ hint ++ targets location else_ hint

def termTargets (location : Location) : Term → (Locals T → Option T) → List (Target T)
  | .literal, _ => []
  | .string _, _ => []
  | .ident _, _ => []
  | .expr expression, hint => targets location expression hint
  | .prefab path vars, _ =>
    match walker.tree.navigatePath walker.ty path with
    | some ty => varsTargets location (some ty) vars
    | none => (varsTargets location none vars).map Target.lose
  | .interpString parts, _ => partsTargets location parts
  | .call _ arguments, _ => argumentsTargets location arguments
  | .selfCall arguments, _ => argumentsTargets location arguments
  | .parentCall arguments, _ => argumentsTargets location arguments
  | .newImplicit arguments, _ => argumentsTargets location arguments
  | .newPrefab path vars arguments, _ =>
    (match walker.tree.navigatePath walker.ty path with
      | some ty => varsTargets location (some ty) vars
      | none => (varsTargets location none vars).map Target.lose) ++
        argumentsTargets location arguments
  | .newMiniExpr _ _ arguments, _ => argumentsTargets location arguments
  | .list arguments, _ => argumentsTargets location arguments
  | .locate arguments inList, _ =>
    argumentsTargets location arguments ++ optionTargets location inList
  | .input arguments inList, _ =>
    argumentsTargets location arguments ++ optionTargets location inList
  | .pick arguments, _ => pickTargets location arguments
  | .dynamicCall first second, _ =>
    argumentsTargets location first ++ argumentsTargets location second
  | .externalCall library function arguments, _ =>
    optionTargets location library ++ targets location function noHint ++
      argumentsTargets location arguments
  | .globalCall _ arguments, _ => argumentsTargets location arguments
  | .globalIdent _, _ => []
  | .ownType, _ => []
  | .ownProc, _ => []
  | .impliedType, _ => []

def followTargets (location : Location) : Follow → List (Target T)
  | .unary _ => []
  | .index expression => targets location expression noHint
  | .field _ => []
  | .staticField _ => []
  | .call _ arguments => argumentsTargets location arguments
  | .procReference _ => []

-- A step applies to what stands before it.
def followsTargets (current : Locals T → StaticType T)
    (before : Locals T → Option (SymbolId × Location)) :
    List (Location × Follow) → List (Target T)
  | [] => []
  | (location, each) :: rest =>
    (match each with
      | .unary op => if op.changes then [⟨.step, false, before⟩] else []
      | _ => []) ++ followTargets location each ++
      followsTargets (fun locals => (walker.visitFollow locals location (current locals) each .read).2)
        (fun locals => walker.followOperand location (current locals) each) rest

def argumentsTargets (location : Location) : List Expression → List (Target T)
  | [] => []
  | argument :: rest =>
    let whole := targets location argument noHint
    let value :=
      match argument with
      | .assignOp op lhs rhs =>
        if op = .assign ∧ isKwargKey lhs then targets location rhs noHint else whole
      | _ => whole
    value ++ argumentsTargets location rest

def optionTargets (location : Location) : Option Expression → List (Target T)
  | none => []
  | some expression => targets location expression noHint

def partsTargets (location : Location) : List (Option Expression) → List (Target T)
  | [] => []
  | part :: rest => optionTargets location part ++ partsTargets location rest

def pickTargets (location : Location) : List (Option Expression × Expression) → List (Target T)
  | [] => []
  | (weight, value) :: rest =>
    optionTargets location weight ++ targets location value noHint ++ pickTargets location rest

def varsTargets (location : Location) (ty : Option T) :
    List (Text × Expression) → List (Target T)
  | [] => []
  | (name, expression) :: rest =>
    let declaration := ty.bind fun ty => walker.tree.varDeclaration ty name
    ⟨.override, false, fun _ => declaredAt location declaration⟩ ::
      (targets location expression
          (fun _ => (declaration.map fun declaration =>
            walker.staticType declaration.varType).bind StaticType.basicType) ++
        varsTargets location ty rest)

end

def writeRecord : Visit → Option (SymbolId × Location)
  | .record _ ⟨symbol, location, .write⟩ => some (symbol, location)
  | _ => none

-- The write references that the walker recorded, in its order.
def writeRecords (visits : List Visit) : List (SymbolId × Location) := visits.filterMap writeRecord

def accessed (access : ReferenceKind) (operand : Option (SymbolId × Location)) :
    List (SymbolId × Location) :=
  if access = .write then operand.toList else []

@[simp] theorem writeRecords_nil : writeRecords [] = [] := rfl

@[simp] theorem writeRecords_append (visits visits' : List Visit) :
    writeRecords (visits ++ visits') = writeRecords visits ++ writeRecords visits' :=
  List.filterMap_append

@[simp] theorem writeRecords_skip (visits : List Visit) :
    writeRecords (.skipDynamic :: visits) = writeRecords visits := rfl

@[simp] theorem writeRecords_typePath (origin : Origin) (symbol : SymbolId) (location : Location)
    (visits : List Visit) :
    writeRecords (record origin symbol location .typePath :: visits) = writeRecords visits := rfl

@[simp] theorem accessed_read (operand : Option (SymbolId × Location)) :
    accessed .read operand = [] := rfl

@[simp] theorem accessed_none (access : ReferenceKind) : accessed access none = [] := by
  unfold accessed
  split <;> rfl

@[simp] theorem writeRecords_recordType (location : Location) (ty : StaticType T) :
    writeRecords (walker.recordType location ty) = [] := by
  induction ty with
  | none => rfl
  | type ty => rfl
  | list ty keys ih => rw [recordType, writeRecords_typePath, ih]

theorem writeRecords_recordDeclared (origin : Origin) (location : Location) (access : ReferenceKind)
    (declaration : VarDeclaration) :
    writeRecords (walker.recordDeclared origin location access declaration).1 =
      accessed access (declaredAt location (some declaration)) := by
  cases access <;> rfl

theorem writeRecords_visitIdent (locals : Locals T) (location : Location) (name : Text)
    (access : ReferenceKind) :
    writeRecords (walker.visitIdent locals location name access).1 =
      accessed access (walker.identOperand location name locals) := by
  unfold visitIdent identOperand
  cases hlocal : locals.get name with
  | some ty => simp
  | none =>
    cases hdeclaration : walker.tree.varDeclaration walker.ty name with
    | none => simp [declaredAt]
    | some declaration => simpa using walker.writeRecords_recordDeclared .ident location access _

theorem writeRecords_visitField (location : Location) (lhs : StaticType T) (name : Text)
    (access : ReferenceKind) :
    writeRecords (walker.visitField location lhs name access).1 =
      accessed access (walker.followOperand location lhs (.field name)) := by
  unfold visitField
  change _ = accessed access (declaredAt location
    (lhs.basicType.bind fun ty => walker.tree.varDeclaration ty name))
  cases hdeclaration : lhs.basicType.bind fun ty => walker.tree.varDeclaration ty name with
  | none => simp [declaredAt]
  | some declaration => exact walker.writeRecords_recordDeclared .field location access declaration

@[simp] theorem writeRecords_visitFields (location : Location) (current : StaticType T)
    (names : List Text) : writeRecords (walker.visitFields location current names).1 = [] := by
  induction names generalizing current with
  | nil => rfl
  | cons name names ih =>
    rw [visitFields, writeRecords_append, writeRecords_visitField, accessed_read, ih, List.nil_append]

@[simp] theorem writeRecords_recordProc (location : Location) (source : T) (name : Text) :
    writeRecords (walker.recordProc location source name) = [] := by
  unfold recordProc
  cases walker.tree.procDeclaration source name <;> rfl

@[simp] theorem writeRecords_visitCallee (location : Location) (source : Option T) (name : Text) :
    writeRecords (walker.visitCallee location source name) = [] := by
  unfold visitCallee
  split
  · split
    · exact walker.writeRecords_recordProc ..
    · rfl
  · rfl

@[simp] theorem writeRecords_visitProcReference (location : Location) (lhs : StaticType T)
    (name : Text) : writeRecords (walker.visitProcReference location lhs name) = [] := by
  unfold visitProcReference
  split <;> rfl

@[simp] theorem writeRecords_newType (location : Location) (ty : Option T) :
    writeRecords (walker.newType location ty).1 = [] := by
  cases ty <;> rfl

variable {walker} {locals : Locals T}

@[simp] theorem seen_lose (target : Target T) : Target.seen locals target.lose = none := by
  simp [Target.seen, Target.lose]

@[simp] theorem seen_operator (operand : Locals T → Option (SymbolId × Location)) :
    Target.seen locals ⟨.operator, false, operand⟩ = operand locals := by
  simp [Target.seen]

@[simp] theorem seen_override (operand : Locals T → Option (SymbolId × Location)) :
    Target.seen locals ⟨.override, false, operand⟩ = operand locals := by
  simp [Target.seen]

@[simp] theorem seen_step (operand : Locals T → Option (SymbolId × Location)) :
    Target.seen locals ⟨.step, false, operand⟩ = none := by
  simp [Target.seen]

theorem filterMap_seen_singleton (target : Target T) :
    [target].filterMap (Target.seen locals) = (Target.seen locals target).toList := by
  cases h : Target.seen locals target <;> simp [h]

theorem writeRecords_overridden (location : Location) (ty : T) (name : Text) :
    writeRecords (walker.overridden location ty name).1 =
      (declaredAt location (walker.tree.varDeclaration ty name)).toList := by
  unfold overridden
  cases walker.tree.varDeclaration ty name <;> rfl

theorem overridden_hint (location : Location) (ty : T) (name : Text) :
    (walker.overridden location ty name).2 =
      ((walker.tree.varDeclaration ty name).map fun declaration =>
        walker.staticType declaration.varType).bind StaticType.basicType := by
  unfold overridden
  cases walker.tree.varDeclaration ty name <;> rfl

mutual

-- What is seen inside an expression, and then its own operand when it is accessed to be written.
theorem writeRecords_visitExpression (location : Location) (hint : Locals T → Option T)
    (access : ReferenceKind) : ∀ expression : Expression,
    writeRecords (walker.visitExpression locals location expression (hint locals) access).1 =
      (walker.targets location expression hint).filterMap (Target.seen locals) ++
        accessed access (walker.expressionOperand hint locals expression)
  | .base termLocation term [] => by
    have hterm := writeRecords_visitTerm termLocation hint access term
    simpa [visitExpression, visitFollows, targets, followsTargets, expressionOperand] using hterm
  | .base termLocation term (next :: follow) => by
    have hterm := writeRecords_visitTerm termLocation hint .read term
    have hfollow := writeRecords_visitFollows
      (fun locals => (walker.visitTerm locals termLocation term (hint locals) .read).2)
      (fun locals => walker.termOperand termLocation hint locals term) access (next :: follow)
    rw [accessed_read, List.append_nil] at hterm
    rw [visitExpression, targets, expressionOperand, writeRecords_append, List.filterMap_append]
    simp only [List.isEmpty_cons, Bool.false_eq_true, if_false]
    rw [hterm, hfollow, List.append_assoc]
  | .binaryOp lhs rhs => by
    have hlhs := writeRecords_visitExpression location noHint .read lhs
    have hrhs := writeRecords_visitExpression location noHint .read rhs
    rw [accessed_read, List.append_nil] at hlhs hrhs
    rw [visitExpression, targets, expressionOperand, accessed_none, List.append_nil,
      writeRecords_append, List.filterMap_append, ← hlhs, ← hrhs]
    · rfl
    · exact nofun
  | .assignOp op lhs rhs => by
    have hlhs := writeRecords_visitExpression location noHint .write lhs
    have hrhs := writeRecords_visitExpression location
      (fun locals => (walker.visitExpression locals location lhs none .write).2.basicType) .read rhs
    rw [accessed_read, List.append_nil] at hrhs
    rw [visitExpression, targets, expressionOperand, accessed_none, List.append_nil,
      writeRecords_append, List.filterMap_append, List.filterMap_append, filterMap_seen_singleton,
      seen_operator, ← hrhs]
    · exact congrArg (· ++ _) hlhs
    · exact nofun
  | .ternaryOp cond if_ else_ => by
    have hcond := writeRecords_visitExpression location noHint .read cond
    have hif := writeRecords_visitExpression location hint .read if_
    have helse := writeRecords_visitExpression location hint .read else_
    rw [accessed_read, List.append_nil] at hcond hif helse
    rw [visitExpression, targets, expressionOperand, accessed_none, List.append_nil,
      writeRecords_append, writeRecords_append, List.filterMap_append, List.filterMap_append, ← hcond,
      ← hif, ← helse]
    · rfl
    · exact nofun

theorem writeRecords_visitTerm (location : Location) (hint : Locals T → Option T)
    (access : ReferenceKind) : ∀ term : Term,
    writeRecords (walker.visitTerm locals location term (hint locals) access).1 =
      (walker.termTargets location term hint).filterMap (Target.seen locals) ++
        accessed access (walker.termOperand location hint locals term)
  | .literal => by simp [visitTerm, termTargets, termOperand]
  | .string _ => by simp [visitTerm, termTargets, termOperand]
  | .ident name => by simp [visitTerm, termTargets, termOperand, writeRecords_visitIdent]
  | .expr expression => by
    simpa [visitTerm, termTargets, termOperand] using
      writeRecords_visitExpression location hint access expression
  | .prefab path vars => by
    rw [visitTerm, termTargets]
    cases walker.tree.navigatePath walker.ty path with
    | none => simp [termOperand]
    | some ty => simp [termOperand, writeRecords_visitVars location ty vars]
  | .interpString parts => by
    simp [visitTerm, termTargets, termOperand, writeRecords_visitParts location parts]
  | .call name arguments => by
    simp [visitTerm, termTargets, termOperand, writeRecords_visitArguments location arguments]
  | .selfCall arguments => by
    simp [visitTerm, termTargets, termOperand, writeRecords_visitArguments location arguments]
  | .parentCall arguments => by
    simp [visitTerm, termTargets, termOperand, writeRecords_visitArguments location arguments]
  | .newImplicit arguments => by
    simp [visitTerm, termTargets, termOperand, writeRecords_visitArguments location arguments]
  | .newPrefab path vars arguments => by
    rw [visitTerm, termTargets]
    cases walker.tree.navigatePath walker.ty path with
    | none => simp [termOperand, writeRecords_visitArguments location arguments]
    | some ty =>
      simp [termOperand, writeRecords_visitVars location ty vars,
        writeRecords_visitArguments location arguments]
  | .newMiniExpr ident fields arguments => by
    have hskipped : ∀ ty : StaticType T,
        writeRecords (if ty.basicType.isNone then [Visit.skipDynamic] else []) = [] := by
      intro ty
      split <;> rfl
    rw [visitTerm, termTargets, termOperand, accessed_none, List.append_nil]
    · simp only [writeRecords_append, writeRecords_visitFields, hskipped, writeRecords_visitIdent,
        accessed_read, List.nil_append, writeRecords_visitArguments location arguments]
    all_goals exact nofun
  | .list arguments => by
    simp [visitTerm, termTargets, termOperand, writeRecords_visitArguments location arguments]
  | .locate arguments inList => by
    simp [visitTerm, termTargets, termOperand, writeRecords_visitArguments location arguments,
      writeRecords_visitOption location inList]
  | .input arguments inList => by
    simp [visitTerm, termTargets, termOperand, writeRecords_visitArguments location arguments,
      writeRecords_visitOption location inList]
  | .pick arguments => by
    simp [visitTerm, termTargets, termOperand, writeRecords_visitPick location arguments]
  | .dynamicCall first second => by
    simp [visitTerm, termTargets, termOperand, writeRecords_visitArguments location first,
      writeRecords_visitArguments location second]
  | .externalCall library function arguments => by
    have hfunction := writeRecords_visitExpression location noHint .read function
    rw [accessed_read, List.append_nil] at hfunction
    rw [visitTerm, termTargets, termOperand, accessed_none, List.append_nil, writeRecords_skip,
      writeRecords_append, writeRecords_append, List.filterMap_append, List.filterMap_append,
      writeRecords_visitOption location library, ← hfunction,
      writeRecords_visitArguments location arguments]
    · rfl
    all_goals exact nofun
  | .globalCall name arguments => by
    simp [visitTerm, termTargets, termOperand, writeRecords_visitArguments location arguments]
  | .globalIdent name => by
    rw [visitTerm, termTargets, termOperand]
    cases walker.tree.varDeclaration walker.tree.root name with
    | none => simp [declaredAt]
    | some declaration => simpa using walker.writeRecords_recordDeclared .field location access _
  | .ownType => by simp [visitTerm, termTargets, termOperand]
  | .ownProc => by
    cases hname : walker.procName <;> simp [visitTerm, termTargets, termOperand, hname]
  | .impliedType => by simp [visitTerm, termTargets, termOperand]

theorem writeRecords_visitFollow (location : Location) (lhs : StaticType T)
    (access : ReferenceKind) : ∀ follow : Follow,
    writeRecords (walker.visitFollow locals location lhs follow access).1 =
      (walker.followTargets location follow).filterMap (Target.seen locals) ++
        accessed access (walker.followOperand location lhs follow)
  | .unary _ => by simp [visitFollow, followTargets, followOperand]
  | .index expression => by
    have hindex := writeRecords_visitExpression location noHint .read expression
    rw [accessed_read] at hindex
    rw [followTargets, followOperand, accessed_none]
    · exact hindex
    all_goals exact nofun
  | .field name => by
    simp [visitFollow, followTargets, writeRecords_visitField]
  | .staticField name => by
    simp [visitFollow, followTargets, writeRecords_visitField, followOperand]
  | .call name arguments => by
    simp [visitFollow, followTargets, followOperand, writeRecords_visitArguments location arguments]
  | .procReference name => by simp [visitFollow, followTargets, followOperand]

theorem writeRecords_visitFollows (current : Locals T → StaticType T)
    (before : Locals T → Option (SymbolId × Location)) (access : ReferenceKind) :
    ∀ follows : List (Location × Follow),
    writeRecords (walker.visitFollows locals (current locals) follows access).1 =
      (walker.followsTargets current before follows).filterMap (Target.seen locals) ++
        accessed access (walker.followsOperand locals (current locals) follows)
  | [] => by simp [visitFollows, followsTargets, followsOperand]
  | [(location, each)] => by
    have heach := writeRecords_visitFollow location (current locals) access each
    have hstep : (walker.followsTargets current before [(location, each)]).filterMap
        (Target.seen locals) =
          (walker.followTargets location each).filterMap (Target.seen locals) := by
      cases each with
      | unary op => cases hop : op.changes <;> simp [followsTargets, hop]
      | _ => simp [followsTargets]
    rw [hstep]
    simpa [visitFollows, followsOperand] using heach
  | (location, each) :: next :: rest => by
    have heach := writeRecords_visitFollow location (current locals) .read each
    have hrest := writeRecords_visitFollows
      (fun locals => (walker.visitFollow locals location (current locals) each .read).2)
      (fun locals => walker.followOperand location (current locals) each) access (next :: rest)
    have hstep : (walker.followsTargets current before ((location, each) :: next :: rest)).filterMap
        (Target.seen locals) =
          (walker.followTargets location each).filterMap (Target.seen locals) ++
            (walker.followsTargets
              (fun locals => (walker.visitFollow locals location (current locals) each .read).2)
              (fun locals => walker.followOperand location (current locals) each)
              (next :: rest)).filterMap (Target.seen locals) := by
      cases each with
      | unary op => cases hop : op.changes <;> simp [followsTargets, hop]
      | _ => simp [followsTargets]
    rw [accessed_read, List.append_nil] at heach
    rw [hstep, visitFollows, writeRecords_append]
    simp only [List.isEmpty_cons, Bool.false_eq_true, if_false]
    rw [heach, hrest, List.append_assoc]
    rfl

theorem writeRecords_visitArguments (location : Location) : ∀ arguments : List Expression,
    writeRecords (walker.visitArguments locals location arguments) =
      (walker.argumentsTargets location arguments).filterMap (Target.seen locals)
  | [] => rfl
  | .base termLocation term follow :: rest => by
    have hwhole := writeRecords_visitExpression location noHint .read (.base termLocation term follow)
    rw [accessed_read, List.append_nil] at hwhole
    rw [visitArguments, argumentsTargets, writeRecords_append, List.filterMap_append, ← hwhole,
      writeRecords_visitArguments location rest]
    · rfl
    all_goals exact nofun
  | .binaryOp lhs rhs :: rest => by
    have hwhole := writeRecords_visitExpression location noHint .read (.binaryOp lhs rhs)
    rw [accessed_read, List.append_nil] at hwhole
    rw [visitArguments, argumentsTargets, writeRecords_append, List.filterMap_append, ← hwhole,
      writeRecords_visitArguments location rest]
    · rfl
    all_goals exact nofun
  | .assignOp op lhs rhs :: rest => by
    have hwhole := writeRecords_visitExpression location noHint .read (.assignOp op lhs rhs)
    have hvalue := writeRecords_visitExpression location noHint .read rhs
    rw [accessed_read, List.append_nil] at hwhole hvalue
    rw [visitArguments, argumentsTargets, writeRecords_append, List.filterMap_append,
      writeRecords_visitArguments location rest]
    split
    · rw [← hvalue]
      rfl
    · rw [← hwhole]
      rfl
  | .ternaryOp cond if_ else_ :: rest => by
    have hwhole := writeRecords_visitExpression location noHint .read (.ternaryOp cond if_ else_)
    rw [accessed_read, List.append_nil] at hwhole
    rw [visitArguments, argumentsTargets, writeRecords_append, List.filterMap_append, ← hwhole,
      writeRecords_visitArguments location rest]
    · rfl
    all_goals exact nofun

theorem writeRecords_visitOption (location : Location) : ∀ expression : Option Expression,
    writeRecords (walker.visitOption locals location expression) =
      (walker.optionTargets location expression).filterMap (Target.seen locals)
  | none => rfl
  | some expression => by
    have h := writeRecords_visitExpression location noHint .read expression
    rw [accessed_read, List.append_nil] at h
    exact h

theorem writeRecords_visitParts (location : Location) : ∀ parts : List (Option Expression),
    writeRecords (walker.visitParts locals location parts) =
      (walker.partsTargets location parts).filterMap (Target.seen locals)
  | [] => rfl
  | part :: rest => by
    rw [visitParts, partsTargets, writeRecords_append, List.filterMap_append,
      writeRecords_visitOption location part, writeRecords_visitParts location rest]

theorem writeRecords_visitPick (location : Location) :
    ∀ arguments : List (Option Expression × Expression),
    writeRecords (walker.visitPick locals location arguments) =
      (walker.pickTargets location arguments).filterMap (Target.seen locals)
  | [] => rfl
  | (weight, value) :: rest => by
    have hvalue := writeRecords_visitExpression location noHint .read value
    rw [accessed_read, List.append_nil] at hvalue
    rw [visitPick, pickTargets, writeRecords_append, writeRecords_append, List.filterMap_append,
      List.filterMap_append, writeRecords_visitOption location weight, ← hvalue,
      writeRecords_visitPick location rest]
    rfl

theorem writeRecords_visitVars (location : Location) (ty : T) :
    ∀ vars : List (Text × Expression),
    writeRecords (walker.visitVars locals location ty vars) =
      (walker.varsTargets location (some ty) vars).filterMap (Target.seen locals)
  | [] => rfl
  | (name, expression) :: rest => by
    have hvalue := writeRecords_visitExpression location
      (fun _ => (walker.overridden location ty name).2) .read expression
    rw [accessed_read, List.append_nil, overridden_hint] at hvalue
    rw [visitVars, varsTargets, writeRecords_append, writeRecords_append,
      writeRecords_visitVars location ty rest, writeRecords_overridden, overridden_hint, hvalue,
      List.append_assoc, ← List.singleton_append, List.filterMap_append, List.filterMap_append,
      filterMap_seen_singleton, seen_override]
    rfl

end

theorem writeRecords_read (location : Location) (hint : Locals T → Option T)
    (expression : Expression) :
    writeRecords (walker.visitExpression locals location expression (hint locals) .read).1 =
      (walker.targets location expression hint).filterMap (Target.seen locals) := by
  rw [writeRecords_visitExpression, accessed_read, List.append_nil]

end Walker

end References
