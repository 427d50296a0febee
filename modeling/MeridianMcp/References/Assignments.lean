import Mathlib.Data.List.ReduceOption
import MeridianMcp.References.Writes

namespace References

open MeridianMcp Effects Language

-- The declared types of the names in scope, and for each name its last declaration in the text.
structure Scopes (T : Type) where
  scope : Locals T
  last : Locals T

structure Assigned (T : Type) where
  target : Target T
  scope : Locals T
  last : Locals T

namespace Assigned

variable {T : Type}

def correct (assigned : Assigned T) : Option (SymbolId × Location) :=
  assigned.target.operand assigned.scope

def recorded (assigned : Assigned T) : Option (SymbolId × Location) :=
  assigned.target.seen assigned.last

def IsSeen (assigned : Assigned T) : Prop := assigned.target.lost = false ∧
  (assigned.target.way = .operator ∨ assigned.target.way = .override)

-- A seen operand is the same by the last declarations as by those in scope, and what is not seen
-- assigns no declared variable.
structure Agrees (assigned : Assigned T) : Prop where
  same : assigned.IsSeen → assigned.target.operand assigned.last = assigned.correct
  none : ¬ assigned.IsSeen → assigned.correct = none

theorem agrees_iff {assigned : Assigned T} :
    assigned.Agrees ↔ assigned.recorded = assigned.correct := by
  have hseen : assigned.recorded = assigned.target.seen assigned.last := rfl
  rw [hseen, Target.seen]
  constructor
  · intro h
    split
    · rename_i hyes
      exact h.same hyes
    · rename_i hno
      exact (h.none hno).symm
  · intro h
    split at h
    · rename_i hyes
      exact ⟨fun _ => h, fun hno => absurd hyes hno⟩
    · rename_i hno
      exact ⟨fun hyes => absurd hyes hno, fun _ => h.symm⟩

end Assigned

namespace Scopes

variable {T : Type}

def assigned (scopes : Scopes T) (targets : List (Target T)) : List (Assigned T) :=
  targets.map fun target => ⟨target, scopes.scope, scopes.last⟩

def declare (scopes : Scopes T) (name : Text) (ty : StaticType T) : Scopes T :=
  ⟨scopes.scope.insert name ty, scopes.last.insert name ty⟩

def hide (scopes : Scopes T) (name : Text) : Scopes T :=
  { scopes with last := scopes.last.insert name .none }

def leave (outer inner : Scopes T) : Scopes T := ⟨outer.scope, inner.last⟩

end Scopes

namespace Walker

variable {T : Type} (walker : Walker T)

def loopTarget (location : Location) (name : Text) : Target T :=
  ⟨.loop, false, walker.identOperand location name⟩

def loopVarTargets (scopes : Scopes T) (location : Location) (varType : Option (List Text))
    (name : Text) : List (Assigned T) × Scopes T :=
  match varType with
  | some varType => ([], scopes.declare name (walker.staticType varType))
  | none => (scopes.assigned [walker.loopTarget location name], scopes)

def keyValueTargets (scopes : Scopes T) (location : Location) (varType : Option (List Text))
    (key value : Text) : List (Assigned T) × Scopes T :=
  match varType with
  | some varType => ([], (scopes.declare key (walker.staticType varType)).declare value .none)
  | none =>
    (scopes.assigned [walker.loopTarget location key, walker.loopTarget location value],
      scopes.hide value)

def declareCaught (scopes : Scopes T) : List (List Text) → Scopes T
  | [] => scopes
  | caught :: rest =>
    match caught.getLast? with
    | some name => declareCaught (scopes.declare name (walker.staticType (catchType caught))) rest
    | none => declareCaught scopes rest

def valueTargets (location : Location) (hint : Option T) : Option Expression → List (Target T)
  | some value => walker.targets location value fun _ => hint
  | none => []

def varTargets (scopes : Scopes T) (location : Location) (statement : VarStatement) :
    List (Assigned T) × Scopes T :=
  let ty := walker.staticType statement.varType
  (scopes.assigned (walker.valueTargets location ty.basicType statement.value),
    scopes.declare statement.name ty)

def varStatementsTargets (scopes : Scopes T) (location : Location) :
    List VarStatement → List (Assigned T) × Scopes T
  | [] => ([], scopes)
  | statement :: rest =>
    let here := walker.varTargets scopes location statement
    let after := varStatementsTargets here.2 location rest
    (here.1 ++ after.1, after.2)

def caseTargets (location : Location) : Case → List (Target T)
  | .exact expression => walker.targets location expression noHint
  | .range start finish =>
    walker.targets location start noHint ++ walker.targets location finish noHint

mutual

-- The places of a statement that assign, with the scopes after it.
def statementTargets (scopes : Scopes T) (location : Location) :
    Statement → List (Assigned T) × Scopes T
  | .expr expression => (scopes.assigned (walker.targets location expression noHint), scopes)
  | .throw expression => (scopes.assigned (walker.targets location expression noHint), scopes)
  | .del expression => (scopes.assigned (walker.targets location expression noHint), scopes)
  | .return expression => (scopes.assigned (walker.optionTargets location expression), scopes)
  | .crash expression => (scopes.assigned (walker.optionTargets location expression), scopes)
  | .while condition block =>
    let body := blockTargets scopes block
    (scopes.assigned (walker.targets condition.1 condition.2 noHint) ++ body.1, scopes.leave body.2)
  | .doWhile block condition =>
    let body := blockTargets scopes block
    (body.1 ++ (scopes.leave body.2).assigned (walker.targets condition.1 condition.2 noHint),
      scopes.leave body.2)
  | .if arms elseArm =>
    let first := armsTargets scopes arms
    let second := blockTargets first.2 elseArm
    (first.1 ++ second.1, first.2.leave second.2)
  | .forInfinite block =>
    let body := blockTargets scopes block
    (body.1, scopes.leave body.2)
  | .forLoop init test inc block =>
    let first := optionalTargets scopes location init
    let second := optionalTargets first.2 location inc
    let body := blockTargets second.2 block
    (first.1 ++ first.2.assigned (walker.optionTargets location test) ++ second.1 ++ body.1,
      scopes.leave body.2)
  | .forList varType name inList block =>
    let declared := walker.loopVarTargets scopes location varType name
    let body := blockTargets declared.2 block
    (scopes.assigned (walker.optionTargets location inList) ++ declared.1 ++ body.1,
      scopes.leave body.2)
  | .forRange varType name start finish step block =>
    let declared := walker.loopVarTargets scopes location varType name
    let body := blockTargets declared.2 block
    (scopes.assigned (walker.targets location start noHint) ++
      scopes.assigned (walker.targets location finish noHint) ++
      scopes.assigned (walker.optionTargets location step) ++ declared.1 ++ body.1,
      scopes.leave body.2)
  | .forKeyValue varType key value inList block =>
    let declared := walker.keyValueTargets scopes location varType key value
    let body := blockTargets declared.2 block
    (scopes.assigned (walker.optionTargets location inList) ++ declared.1 ++ body.1,
      scopes.leave body.2)
  | .var statement => walker.varTargets scopes location statement
  | .vars statements => walker.varStatementsTargets scopes location statements
  | .setting value => (scopes.assigned (walker.targets location value noHint), scopes)
  | .spawn delay block =>
    let body := blockTargets scopes block
    (scopes.assigned (walker.optionTargets location delay) ++ body.1, scopes.leave body.2)
  | .switch input cases default =>
    let first := casesTargets scopes cases
    let second := blockTargets first.2 default
    (scopes.assigned (walker.targets location input noHint) ++ first.1 ++ second.1,
      first.2.leave second.2)
  | .tryCatch tryBlock catchParams catchBlock =>
    let first := blockTargets scopes tryBlock
    let outside := scopes.leave first.2
    let second := blockTargets (walker.declareCaught outside catchParams) catchBlock
    (first.1 ++ second.1, outside.leave second.2)
  | .label block =>
    let body := blockTargets scopes block
    (body.1, scopes.leave body.2)
  | .continue => ([], scopes)
  | .break => ([], scopes)
  | .goto => ([], scopes)

def blockTargets (scopes : Scopes T) :
    List (Location × Statement) → List (Assigned T) × Scopes T
  | [] => ([], scopes)
  | (location, statement) :: rest =>
    let here := statementTargets scopes location statement
    let after := blockTargets here.2 rest
    (here.1 ++ after.1, after.2)

def optionalTargets (scopes : Scopes T) (location : Location) :
    Option Statement → List (Assigned T) × Scopes T
  | none => ([], scopes)
  | some statement => statementTargets scopes location statement

def armsTargets (scopes : Scopes T) :
    List ((Location × Expression) × List (Location × Statement)) → List (Assigned T) × Scopes T
  | [] => ([], scopes)
  | (condition, block) :: rest =>
    let body := blockTargets scopes block
    let after := armsTargets (scopes.leave body.2) rest
    (scopes.assigned (walker.targets condition.1 condition.2 noHint) ++ body.1 ++ after.1, after.2)

def casesTargets (scopes : Scopes T) :
    List ((Location × List Case) × List (Location × Statement)) → List (Assigned T) × Scopes T
  | [] => ([], scopes)
  | (case, block) :: rest =>
    let body := blockTargets scopes block
    let after := casesTargets (scopes.leave body.2) rest
    (scopes.assigned (case.2.flatMap (walker.caseTargets case.1)) ++ body.1 ++ after.1, after.2)

end

def parametersTargets (scopes : Scopes T) : List Parameter → List (Assigned T) × Scopes T
  | [] => ([], scopes)
  | parameter :: rest =>
    let after := parametersTargets
      (scopes.declare parameter.name (walker.staticType parameter.varType)) rest
    (scopes.assigned (walker.optionTargets parameter.location parameter.default) ++ after.1, after.2)

-- All places of a procedure that assign, in the order of the text.
def bodyTargets (parameters : List Parameter) (block : Block) : List (Assigned T) :=
  let first := walker.parametersTargets ⟨walker.builtinLocals, walker.builtinLocals⟩ parameters
  first.1 ++ (walker.blockTargets first.2 block).1

structure Assigns (visited : List Visit × Locals T) (assigned : List (Assigned T) × Scopes T) :
    Prop where
  records : writeRecords visited.1 = assigned.1.filterMap Assigned.recorded
  last : assigned.2.last = visited.2

variable {walker} {locals : Locals T} {scopes scopes' : Scopes T}

theorem Assigns.append {visited : List Visit} {visited' : List Visit × Locals T}
    {assigned : List (Assigned T)} {assigned' : List (Assigned T) × Scopes T}
    (h : Assigns (visited, locals) (assigned, scopes')) (h' : Assigns visited' assigned') :
    Assigns (visited ++ visited'.1, visited'.2) (assigned ++ assigned'.1, assigned'.2) where
  records := by rw [writeRecords_append, List.filterMap_append, h.records, h'.records]
  last := h'.last

theorem Assigns.leave {visited : List Visit × Locals T} {assigned : List (Assigned T) × Scopes T}
    (h : Assigns visited assigned) (outer : Scopes T) :
    Assigns visited (assigned.1, outer.leave assigned.2) :=
  ⟨h.records, h.last⟩

theorem Assigns.silent (hlast : scopes.last = locals) : Assigns ([], locals) ([], scopes) :=
  ⟨rfl, hlast⟩

theorem Assigns.of_records (hlast : scopes.last = locals) {visits : List Visit}
    {targets : List (Target T)}
    (h : writeRecords visits = targets.filterMap (Target.seen locals)) :
    Assigns (visits, locals) (scopes.assigned targets, scopes) := by
  refine ⟨?_, hlast⟩
  rw [Scopes.assigned, List.filterMap_map, h, ← hlast]
  rfl

variable (walker)

theorem Assigns.expression (hlast : scopes.last = locals) (location : Location)
    (expression : Expression) :
    Assigns ((walker.visitExpression locals location expression none .read).1, locals)
      (scopes.assigned (walker.targets location expression noHint), scopes) :=
  .of_records hlast (writeRecords_read location noHint expression)

theorem Assigns.option (hlast : scopes.last = locals) (location : Location)
    (expression : Option Expression) :
    Assigns (walker.visitOption locals location expression, locals)
      (scopes.assigned (walker.optionTargets location expression), scopes) :=
  .of_records hlast (writeRecords_visitOption location expression)

theorem Assigns.var (hlast : scopes.last = locals) (location : Location) (statement : VarStatement) :
    Assigns (walker.visitVar locals location statement.varType statement.name statement.value)
      (walker.varTargets scopes location statement) := by
  refine ⟨?_, congrArg (fun l : Locals T => l.insert statement.name _) hlast⟩
  have hvalue : writeRecords (walker.visitVar locals location statement.varType statement.name
      statement.value).1 = (walker.valueTargets location
        (walker.staticType statement.varType).basicType statement.value).filterMap
          (Target.seen locals) := by
    cases statement.value with
    | none => simp [visitVar, valueTargets]
    | some value =>
      have h := @writeRecords_read T walker locals location
        (fun _ => (walker.staticType statement.varType).basicType) value
      simp [visitVar, valueTargets, h]
  exact (Assigns.of_records hlast hvalue).records

theorem Assigns.loopVar (hlast : scopes.last = locals) (location : Location)
    (varType : Option (List Text)) (name : Text) :
    Assigns (walker.visitLoopVar locals location varType name)
      (walker.loopVarTargets scopes location varType name) := by
  cases varType with
  | some varType => exact Assigns.var walker hlast location ⟨varType, name, none⟩
  | none => exact .of_records hlast rfl

theorem Assigns.keyValue (hlast : scopes.last = locals) (location : Location)
    (varType : Option (List Text)) (key value : Text) :
    Assigns
      ((walker.visitLoopVar locals location varType key).1,
        (walker.visitLoopVar locals location varType key).2.insert value .none)
      (walker.keyValueTargets scopes location varType key value) := by
  cases varType with
  | some varType =>
    have hkey := Assigns.var walker hlast location ⟨varType, key, none⟩
    exact ⟨hkey.records, congrArg (fun l : Locals T => l.insert value .none) hkey.last⟩
  | none =>
    refine ⟨rfl, ?_⟩
    rw [keyValueTargets, visitLoopVar, Scopes.hide, hlast]

theorem Assigns.varStatements (location : Location) (statements : List VarStatement) :
    ∀ {locals : Locals T} {scopes : Scopes T}, scopes.last = locals →
      Assigns (walker.visitVarStatements locals location statements)
        (walker.varStatementsTargets scopes location statements) := by
  induction statements with
  | nil => exact fun hlast => .silent hlast
  | cons statement rest ih =>
    intro locals scopes hlast
    have hhere := Assigns.var walker hlast location statement
    exact hhere.append (ih hhere.last)

theorem Assigns.catchParams (location : Location) (catchParams : List (List Text)) :
    ∀ {locals : Locals T} {scopes : Scopes T}, scopes.last = locals →
      Assigns (walker.visitCatchParams locals location catchParams)
        ([], walker.declareCaught scopes catchParams) := by
  induction catchParams with
  | nil => exact fun hlast => .silent hlast
  | cons caught rest ih =>
    intro locals scopes hlast
    rw [visitCatchParams, declareCaught]
    cases caught.getLast? with
    | none => exact ih hlast
    | some name =>
      have hhere := Assigns.var walker hlast location ⟨catchType caught, name, none⟩
      exact hhere.append (ih hhere.last)

theorem writeRecords_visitCase (location : Location) (case : Case) :
    writeRecords (walker.visitCase locals location case) =
      (walker.caseTargets location case).filterMap (Target.seen locals) := by
  have hone : ∀ expression : Expression,
      writeRecords (walker.visitExpression locals location expression none .read).1 =
        (walker.targets location expression noHint).filterMap (Target.seen locals) :=
    writeRecords_read location noHint
  cases case with
  | exact expression => exact hone expression
  | range start finish =>
    rw [visitCase, caseTargets, writeRecords_append, List.filterMap_append, hone, hone]

theorem writeRecords_visitCases (location : Location) (cases : List Case) :
    writeRecords (cases.flatMap (walker.visitCase locals location)) =
      (cases.flatMap (walker.caseTargets location)).filterMap (Target.seen locals) := by
  induction cases with
  | nil => rfl
  | cons case rest ih =>
    rw [List.flatMap_cons, List.flatMap_cons, writeRecords_append, List.filterMap_append,
      writeRecords_visitCase, ih]

variable {walker}

mutual

theorem assigns_statement {locals : Locals T} {scopes : Scopes T} (hlast : scopes.last = locals)
    (location : Location) : ∀ statement : Statement,
    Assigns (walker.visitStatement locals location statement)
      (walker.statementTargets scopes location statement)
  | .expr expression => .expression walker hlast location expression
  | .throw expression => .expression walker hlast location expression
  | .del expression => .expression walker hlast location expression
  | .return expression => .option walker hlast location expression
  | .crash expression => .option walker hlast location expression
  | .while condition block =>
    ((Assigns.expression walker hlast condition.1 condition.2).append
      (assigns_block hlast block)).leave _
  | .doWhile block condition => by
    have hbody := (assigns_block hlast block).leave scopes
    exact hbody.append (.expression walker hbody.last condition.1 condition.2)
  | .if arms elseArm => by
    have harms := assigns_arms hlast arms
    exact harms.append ((assigns_block harms.last elseArm).leave
      (walker.armsTargets scopes arms).2)
  | .forInfinite block => (assigns_block hlast block).leave _
  | .forLoop init test inc block => by
    have hinit := assigns_optional hlast location init
    have htest := Assigns.option walker hinit.last location test
    have hinc := assigns_optional hinit.last location inc
    exact (((hinit.append htest).append hinc).append (assigns_block hinc.last block)).leave _
  | .forList varType name inList block => by
    have hvar := Assigns.loopVar walker hlast location varType name
    exact (((Assigns.option walker hlast location inList).append hvar).append
      (assigns_block hvar.last block)).leave _
  | .forRange varType name start finish step block => by
    have hvar := Assigns.loopVar walker hlast location varType name
    exact (((((Assigns.expression walker hlast location start).append
      (.expression walker hlast location finish)).append (.option walker hlast location step)).append
        hvar).append (assigns_block hvar.last block)).leave _
  | .forKeyValue varType key value inList block => by
    have hvar := Assigns.keyValue walker hlast location varType key value
    exact (((Assigns.option walker hlast location inList).append hvar).append
      (assigns_block hvar.last block)).leave _
  | .var statement => .var walker hlast location statement
  | .vars statements => .varStatements walker location statements hlast
  | .setting value => .expression walker hlast location value
  | .spawn delay block =>
    ((Assigns.option walker hlast location delay).append (assigns_block hlast block)).leave _
  | .switch input cases default => by
    have hcases := assigns_cases hlast cases
    exact ((Assigns.expression walker hlast location input).append hcases).append
      ((assigns_block hcases.last default).leave (walker.casesTargets scopes cases).2)
  | .tryCatch tryBlock catchParams catchBlock => by
    have htry := (assigns_block hlast tryBlock).leave scopes
    have hcaught := Assigns.catchParams walker location catchParams htry.last
    have hcatch := (hcaught.append (assigns_block hcaught.last catchBlock)).leave
      (scopes.leave (walker.blockTargets scopes tryBlock).2)
    have hall := htry.append hcatch
    rw [← List.append_assoc] at hall
    exact hall
  | .label block => (assigns_block hlast block).leave _
  | .continue => .silent hlast
  | .break => .silent hlast
  | .goto => .silent hlast

theorem assigns_block {locals : Locals T} {scopes : Scopes T} (hlast : scopes.last = locals) :
    ∀ block : List (Location × Statement),
    Assigns (walker.visitBlock locals block) (walker.blockTargets scopes block)
  | [] => .silent hlast
  | (location, statement) :: rest => by
    have hhere := assigns_statement hlast location statement
    exact hhere.append (assigns_block hhere.last rest)

theorem assigns_optional {locals : Locals T} {scopes : Scopes T} (hlast : scopes.last = locals)
    (location : Location) : ∀ statement : Option Statement,
    Assigns (walker.visitOptional locals location statement)
      (walker.optionalTargets scopes location statement)
  | none => .silent hlast
  | some statement => assigns_statement hlast location statement

theorem assigns_arms {locals : Locals T} {scopes : Scopes T} (hlast : scopes.last = locals) :
    ∀ arms : List ((Location × Expression) × List (Location × Statement)),
    Assigns (walker.visitArms locals arms) (walker.armsTargets scopes arms)
  | [] => .silent hlast
  | (condition, block) :: rest => by
    have hbody := (assigns_block hlast block).leave scopes
    exact ((Assigns.expression walker hlast condition.1 condition.2).append hbody).append
      (assigns_arms hbody.last rest)

theorem assigns_cases {locals : Locals T} {scopes : Scopes T} (hlast : scopes.last = locals) :
    ∀ cases : List ((Location × List Case) × List (Location × Statement)),
    Assigns (walker.visitCases locals cases) (walker.casesTargets scopes cases)
  | [] => .silent hlast
  | (case, block) :: rest => by
    have hbody := (assigns_block hlast block).leave scopes
    exact ((Assigns.of_records hlast (writeRecords_visitCases walker case.1 case.2)).append
      hbody).append (assigns_cases hbody.last rest)

end

theorem assigns_parameters (parameters : List Parameter) :
    ∀ {locals : Locals T} {scopes : Scopes T}, scopes.last = locals →
      Assigns (walker.visitParameters locals parameters)
        (walker.parametersTargets scopes parameters) := by
  induction parameters with
  | nil => exact fun hlast => .silent hlast
  | cons parameter rest ih =>
    intro locals scopes hlast
    have hdeclared : (scopes.declare parameter.name (walker.staticType parameter.varType)).last =
        locals.insert parameter.name (walker.staticType parameter.varType) :=
      congrArg (fun l : Locals T => l.insert parameter.name _) hlast
    have hdefault : Assigns
        (walker.recordType parameter.location (walker.staticType parameter.varType) ++
          walker.visitOption locals parameter.location parameter.default,
          locals.insert parameter.name (walker.staticType parameter.varType))
        (scopes.assigned (walker.optionTargets parameter.location parameter.default),
          scopes.declare parameter.name (walker.staticType parameter.varType)) := by
      refine ⟨?_, hdeclared⟩
      rw [writeRecords_append, writeRecords_recordType, List.nil_append]
      exact (Assigns.option walker hlast parameter.location parameter.default).records
    exact hdefault.append (ih hdeclared)

theorem writeRecords_run (parameters : List Parameter) (block : Block) :
    writeRecords (walker.run parameters block) =
      (walker.bodyTargets parameters block).filterMap Assigned.recorded := by
  have hparameters := @assigns_parameters T walker parameters walker.builtinLocals
    ⟨walker.builtinLocals, walker.builtinLocals⟩ rfl
  exact (hparameters.append (assigns_block hparameters.last block)).records

theorem mem_writeRecords {visits : List Visit} {symbol : SymbolId} {location : Location} :
    (location, .write) ∈ (ReferenceTable.ofVisits visits).references symbol ↔
      (symbol, location) ∈ writeRecords visits := by
  rw [ReferenceTable.mem_references, writeRecords, List.mem_filterMap]
  constructor
  · rintro ⟨origin, hvisit⟩
    exact ⟨_, hvisit, rfl⟩
  · rintro ⟨visit, hvisit, hrecord⟩
    cases visit with
    | skipDynamic => cases hrecord
    | record origin reference =>
      obtain ⟨other, location', kind⟩ := reference
      cases kind with
      | write =>
        cases hrecord
        exact ⟨origin, hvisit⟩
      | read => cases hrecord
      | call => cases hrecord
      | typePath => cases hrecord

variable (walker)

-- The table has a write reference to a declaration at a position exactly when a place at the
-- position assigns the declared variable.
def WritesReferenced (parameters : List Parameter) (block : Block) : Prop :=
  ∀ symbol location,
    (location, .write) ∈
        (ReferenceTable.ofVisits (walker.run parameters block)).references symbol ↔
      ∃ assigned ∈ walker.bodyTargets parameters block, assigned.correct = some (symbol, location)

-- No two places assign, or are seen to assign, at one position.
def Apart (places : List (Assigned T)) : Prop :=
  ∀ a ∈ places, ∀ b ∈ places, ∀ position ∈ [a.correct, a.recorded].reduceOption,
    ∀ position' ∈ [b.correct, b.recorded].reduceOption, position.2 = position'.2 → a = b

theorem writes_referenced_iff (parameters : List Parameter) (block : Block) :
    (walker.WritesReferenced parameters block ↔ ∀ position,
      (∃ assigned ∈ walker.bodyTargets parameters block, assigned.IsSeen ∧
          assigned.target.operand assigned.last = some position) ↔
        ∃ assigned ∈ walker.bodyTargets parameters block, assigned.correct = some position) ∧
      ((∀ assigned ∈ walker.bodyTargets parameters block, assigned.Agrees) →
        walker.WritesReferenced parameters block) ∧
      (Apart (walker.bodyTargets parameters block) → walker.WritesReferenced parameters block →
        ∀ assigned ∈ walker.bodyTargets parameters block, assigned.Agrees) := by
  have hrecorded : ∀ symbol location, (location, .write) ∈
      (ReferenceTable.ofVisits (walker.run parameters block)).references symbol ↔
        ∃ assigned ∈ walker.bodyTargets parameters block,
          assigned.recorded = some (symbol, location) := by
    intro symbol location
    rw [mem_writeRecords, writeRecords_run, List.mem_filterMap]
  have hseen : ∀ (assigned : Assigned T) (position : SymbolId × Location),
      assigned.recorded = some position ↔
        assigned.IsSeen ∧ assigned.target.operand assigned.last = some position := by
    intro assigned position
    rw [Assigned.recorded, Target.seen]
    split
    · rename_i hyes
      exact ⟨fun h => ⟨hyes, h⟩, And.right⟩
    · rename_i hno
      exact ⟨fun h => (Option.some_ne_none _ h.symm).elim, fun h => absurd h.1 hno⟩
  refine ⟨?_, ?_, ?_⟩
  · constructor
    · rintro h ⟨symbol, location⟩
      rw [← h, hrecorded]
      exact exists_congr fun assigned => and_congr_right fun _ => (hseen assigned _).symm
    · intro h symbol location
      rw [hrecorded, ← h]
      exact exists_congr fun assigned => and_congr_right fun _ => hseen assigned _
  · intro hagrees symbol location
    rw [hrecorded]
    refine exists_congr fun assigned => and_congr_right fun hassigned => ?_
    rw [Assigned.agrees_iff.mp (hagrees assigned hassigned)]
  · intro hapart hreferenced assigned hassigned
    have hcovers : ∀ a ∈ walker.bodyTargets parameters block, ∀ position,
        (a.correct = some position → a.recorded = some position) ∧
          (a.recorded = some position → a.correct = some position) := by
      intro a ha position
      constructor
      · intro hcorrect
        obtain ⟨b, hb, hfound⟩ :=
          (hrecorded position.1 position.2).mp ((hreferenced _ _).mpr ⟨a, ha, hcorrect⟩)
        have hsame := hapart a ha b hb position (by simp [hcorrect, List.reduceOption])
          position (by simp [hfound, List.reduceOption]) rfl
        rwa [hsame]
      · intro hfound
        obtain ⟨b, hb, hcorrect⟩ :=
          (hreferenced position.1 position.2).mp ((hrecorded _ _).mpr ⟨a, ha, hfound⟩)
        have hsame := hapart a ha b hb position (by simp [hfound, List.reduceOption])
          position (by simp [hcorrect, List.reduceOption]) rfl
        rwa [hsame]
    rw [Assigned.agrees_iff]
    exact Option.ext fun position =>
      ⟨(hcovers assigned hassigned position).2, (hcovers assigned hassigned position).1⟩

end Walker

def stepHp (line : Nat) : Location × Statement :=
  (⟨1, line, 1⟩, .expr (.base ⟨1, line, 1⟩ (.ident "hp".toList) [(⟨1, line, 3⟩, .unary .postIncr)]))

def assignHp (line : Nat) : Location × Statement :=
  (⟨1, line, 1⟩, .expr (.assignOp .addAssign (.base ⟨1, line, 1⟩ (.ident "hp".toList) [])
    (.base ⟨1, line, 6⟩ .literal [])))

theorem increment_unreferenced : ¬ mobWalker.WritesReferenced [] [stepHp 3] := by
  intro hreferenced
  have hplaces : ∃ assigned ∈ mobWalker.bodyTargets [] [stepHp 3],
      assigned.correct = some (.var "/mob".toList "hp".toList, ⟨1, 3, 1⟩) := by
    refine ⟨_, List.mem_cons_self .., ?_⟩
    decide
  have hmem := Walker.mem_writeRecords.mp ((hreferenced _ _).mpr hplaces)
  exact absurd hmem (by decide)

example : Walker.writeRecords (mobWalker.run [] [assignHp 3]) =
    [(.var "/mob".toList "hp".toList, ⟨1, 3, 1⟩)] := by
  decide

end References
