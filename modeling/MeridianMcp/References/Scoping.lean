import MeridianMcp.References.Identifiers

namespace References

open MeridianMcp Effects Language

-- The names of the variables in scope, and of those that were declared before and are not in scope
-- where they were declared any more.
structure Names where
  scope : List Text
  left : List Text

structure ScopedUse where
  occurrence : Occurrence
  inScope : Bool
  left : Bool
  loop : Bool

namespace Names

def use (names : Names) (loop : Bool) (occurrence : Occurrence) : ScopedUse :=
  ⟨occurrence, decide (occurrence.name ∈ names.scope), decide (occurrence.name ∈ names.left), loop⟩

def uses (names : Names) (occurrences : List Occurrence) : List ScopedUse :=
  occurrences.map (names.use false)

def declare (names : Names) (name : Text) : Names := { names with scope := name :: names.scope }

def hide (names : Names) (name : Text) : Names := { names with left := name :: names.left }

-- At the end of a block its own declarations go out of scope.
def leave (outer inner : Names) : Names := ⟨outer.scope, inner.scope ++ inner.left⟩

def loopVar (names : Names) (location : Location) (varType : Option (List Text)) (name : Text) :
    List ScopedUse × Names :=
  match varType with
  | some _ => ([], names.declare name)
  | none => ([names.use true ⟨name, location, false⟩], names)

-- A loop over keys and values declares both or reuses both.
def keyValue (names : Names) (location : Location) (varType : Option (List Text))
    (key value : Text) : List ScopedUse × Names :=
  match varType with
  | some _ => ([], (names.declare key).declare value)
  | none =>
    ([names.use true ⟨key, location, false⟩, names.use true ⟨value, location, false⟩],
      names.hide value)

def declareCaught (names : Names) : List (List Text) → Names
  | [] => names
  | caught :: rest =>
    match caught.getLast? with
    | some name => (names.declare name).declareCaught rest
    | none => names.declareCaught rest

end Names

namespace Walker

variable {T : Type} (walker : Walker T)

def varUses (names : Names) (statement : VarStatement) : List ScopedUse × Names :=
  (names.uses (walker.optionIdents statement.value), names.declare statement.name)

def varsUses (names : Names) : List VarStatement → List ScopedUse × Names
  | [] => ([], names)
  | statement :: rest =>
    let here := walker.varUses names statement
    let after := varsUses here.2 rest
    (here.1 ++ after.1, after.2)

def caseIdents : Case → List Occurrence
  | .exact expression => walker.idents expression
  | .range start finish => walker.idents start ++ walker.idents finish

mutual

-- The uses of a statement in the order of the text, with the names after it.
def statementUses (names : Names) (location : Location) : Statement → List ScopedUse × Names
  | .expr expression => (names.uses (walker.idents expression), names)
  | .throw expression => (names.uses (walker.idents expression), names)
  | .del expression => (names.uses (walker.idents expression), names)
  | .return expression => (names.uses (walker.optionIdents expression), names)
  | .crash expression => (names.uses (walker.optionIdents expression), names)
  | .while condition block =>
    let body := blockUses names block
    (names.uses (walker.idents condition.2) ++ body.1, names.leave body.2)
  | .doWhile block condition =>
    let body := blockUses names block
    (body.1 ++ (names.leave body.2).uses (walker.idents condition.2), names.leave body.2)
  | .if arms elseArm =>
    let first := armsUses names arms
    let second := blockUses first.2 elseArm
    (first.1 ++ second.1, first.2.leave second.2)
  | .forInfinite block =>
    let body := blockUses names block
    (body.1, names.leave body.2)
  | .forLoop init test inc block =>
    let first := optionalUses names location init
    let second := optionalUses first.2 location inc
    let body := blockUses second.2 block
    (first.1 ++ first.2.uses (walker.optionIdents test) ++ second.1 ++ body.1, names.leave body.2)
  | .forList varType name inList block =>
    let declared := names.loopVar location varType name
    let body := blockUses declared.2 block
    (names.uses (walker.optionIdents inList) ++ declared.1 ++ body.1, names.leave body.2)
  | .forRange varType name start finish step block =>
    let declared := names.loopVar location varType name
    let body := blockUses declared.2 block
    (names.uses (walker.idents start) ++ names.uses (walker.idents finish) ++
      names.uses (walker.optionIdents step) ++ declared.1 ++ body.1, names.leave body.2)
  | .forKeyValue varType key value inList block =>
    let declared := names.keyValue location varType key value
    let body := blockUses declared.2 block
    (names.uses (walker.optionIdents inList) ++ declared.1 ++ body.1, names.leave body.2)
  | .var statement => walker.varUses names statement
  | .vars statements => walker.varsUses names statements
  | .setting value => (names.uses (walker.idents value), names)
  | .spawn delay block =>
    let body := blockUses names block
    (names.uses (walker.optionIdents delay) ++ body.1, names.leave body.2)
  | .switch input cases default =>
    let first := casesUses names cases
    let second := blockUses first.2 default
    (names.uses (walker.idents input) ++ first.1 ++ second.1, first.2.leave second.2)
  | .tryCatch tryBlock catchParams catchBlock =>
    let first := blockUses names tryBlock
    let outside := names.leave first.2
    let second := blockUses (outside.declareCaught catchParams) catchBlock
    (first.1 ++ second.1, outside.leave second.2)
  | .label block =>
    let body := blockUses names block
    (body.1, names.leave body.2)
  | .continue => ([], names)
  | .break => ([], names)
  | .goto => ([], names)

def blockUses (names : Names) : List (Location × Statement) → List ScopedUse × Names
  | [] => ([], names)
  | (location, statement) :: rest =>
    let here := statementUses names location statement
    let after := blockUses here.2 rest
    (here.1 ++ after.1, after.2)

def optionalUses (names : Names) (location : Location) :
    Option Statement → List ScopedUse × Names
  | none => ([], names)
  | some statement => statementUses names location statement

def armsUses (names : Names) :
    List ((Location × Expression) × List (Location × Statement)) → List ScopedUse × Names
  | [] => ([], names)
  | (condition, block) :: rest =>
    let body := blockUses names block
    let after := armsUses (names.leave body.2) rest
    (names.uses (walker.idents condition.2) ++ body.1 ++ after.1, after.2)

def casesUses (names : Names) :
    List ((Location × List Case) × List (Location × Statement)) → List ScopedUse × Names
  | [] => ([], names)
  | (case, block) :: rest =>
    let body := blockUses names block
    let after := casesUses (names.leave body.2) rest
    (names.uses (case.2.flatMap walker.caseIdents) ++ body.1 ++ after.1, after.2)

end

def parametersUses (names : Names) : List Parameter → List ScopedUse × Names
  | [] => ([], names)
  | parameter :: rest =>
    let after := parametersUses (names.declare parameter.name) rest
    (names.uses (walker.optionIdents parameter.default) ++ after.1, after.2)

def builtinNames : Names :=
  ⟨(if walker.tree.isRoot walker.ty then [] else ["src".toList]) ++
    ["usr".toList, "args".toList, ".".toList, "global".toList], []⟩

def bodyUses (parameters : List Parameter) (block : Block) : List ScopedUse :=
  let first := walker.parametersUses walker.builtinNames parameters
  first.1 ++ (walker.blockUses first.2 block).1

-- What the walker does at a use, by the map that it keeps.
def recorded (use : ScopedUse) : Option (SymbolId × Location) :=
  if use.loop ∨ use.occurrence.lost ∨ use.inScope ∨ use.left then none
  else walker.named use.occurrence

structure Tracks (locals : Locals T) (names : Names) : Prop where
  mem : ∀ name, (locals.get name).isSome ↔ name ∈ names.scope ∨ name ∈ names.left

structure Walks (names : Names) (visited : List Visit × Locals T)
    (used : List ScopedUse × Names) : Prop where
  records : identRecords visited.1 = used.1.filterMap walker.recorded
  tracks : Tracks visited.2 used.2
  grows : names.scope ⊆ used.2.scope

variable {walker} {locals locals' : Locals T} {names names' : Names}

theorem found_eq_recorded (htracks : Tracks locals names) (occurrences : List Occurrence) :
    occurrences.filterMap (walker.found locals) =
      (names.uses occurrences).filterMap walker.recorded := by
  rw [Names.uses, List.filterMap_map]
  refine List.filterMap_congr fun occurrence _ => ?_
  have hmem := htracks.mem occurrence.name
  simp only [Function.comp, found, recorded, Names.use, hmem]
  simp

theorem Tracks.insert (htracks : Tracks locals names) (name : Text) (ty : StaticType T) :
    Tracks (locals.insert name ty) (names.declare name) where
  mem other := by
    rw [FinMap.get_insert]
    by_cases h : other = name
    · subst h
      simp [Names.declare]
    · rw [Function.update_of_ne h, htracks.mem]
      simp [Names.declare, h]

theorem Tracks.hide (htracks : Tracks locals names) (name : Text) (ty : StaticType T) :
    Tracks (locals.insert name ty) (names.hide name) where
  mem other := by
    rw [FinMap.get_insert]
    by_cases h : other = name
    · subst h
      simp [Names.hide]
    · rw [Function.update_of_ne h, htracks.mem]
      simp [Names.hide, h]

theorem Walks.append {visited : List Visit} {visited' : List Visit × Locals T}
    {used : List ScopedUse} {used' : List ScopedUse × Names}
    (h : walker.Walks names (visited, locals) (used, names'))
    (h' : walker.Walks names' visited' used') :
    walker.Walks names (visited ++ visited'.1, visited'.2) (used ++ used'.1, used'.2) where
  records := by
    rw [identRecords_append, List.filterMap_append, h.records, h'.records]
  tracks := h'.tracks
  grows := List.Subset.trans h.grows h'.grows

theorem Walks.leave {visited : List Visit × Locals T} {used : List ScopedUse × Names}
    (h : walker.Walks names visited used) :
    walker.Walks names visited (used.1, names.leave used.2) where
  records := h.records
  tracks := by
    refine ⟨fun name => ?_⟩
    rw [h.tracks.mem, Names.leave, List.mem_append]
    constructor
    · exact Or.inr
    · rintro (hscope | hrest)
      · exact Or.inl (h.grows hscope)
      · exact hrest
  grows := List.Subset.refl _

variable (walker)

theorem Walks.silent (htracks : Tracks locals names) : walker.Walks names ([], locals) ([], names) :=
  ⟨rfl, htracks, List.Subset.refl _⟩

theorem Walks.of_records (htracks : Tracks locals names) {visits : List Visit}
    {occurrences : List Occurrence}
    (h : identRecords visits = occurrences.filterMap (walker.found locals)) :
    walker.Walks names (visits, locals) (names.uses occurrences, names) :=
  ⟨h.trans (found_eq_recorded htracks occurrences), htracks, List.Subset.refl _⟩

theorem Walks.expression (htracks : Tracks locals names) (location : Location)
    (hint : Option T) (expression : Expression) :
    walker.Walks names ((walker.visitExpression locals location expression hint .read).1, locals)
      (names.uses (walker.idents expression), names) :=
  .of_records walker htracks (identRecords_visitExpression location hint .read expression)

theorem Walks.option (htracks : Tracks locals names) (location : Location)
    (expression : Option Expression) :
    walker.Walks names (walker.visitOption locals location expression, locals)
      (names.uses (walker.optionIdents expression), names) :=
  .of_records walker htracks (identRecords_visitOption location expression)

theorem Walks.var (htracks : Tracks locals names) (location : Location) (varType : List Text)
    (name : Text) (value : Option Expression) :
    walker.Walks names (walker.visitVar locals location varType name value)
      (names.uses (walker.optionIdents value), names.declare name) where
  records := by
    have hvalue : identRecords (walker.visitVar locals location varType name value).1 =
        (walker.optionIdents value).filterMap (walker.found locals) := by
      cases value with
      | none => simp [visitVar, optionIdents]
      | some value => simp [visitVar, optionIdents, identRecords_visitExpression]
    exact hvalue.trans (found_eq_recorded htracks _)
  tracks := htracks.insert name _
  grows := List.subset_cons_self ..

theorem Walks.loopVar (htracks : Tracks locals names) (location : Location)
    (varType : Option (List Text)) (name : Text) :
    walker.Walks names (walker.visitLoopVar locals location varType name)
      (names.loopVar location varType name) := by
  cases varType with
  | some varType => exact Walks.var walker htracks location varType name none
  | none => exact ⟨by simp [visitLoopVar, Names.loopVar, Names.use, recorded], htracks,
      List.Subset.refl _⟩

theorem Walks.keyValue (htracks : Tracks locals names) (location : Location)
    (varType : Option (List Text)) (key value : Text) :
    walker.Walks names
      ((walker.visitLoopVar locals location varType key).1,
        (walker.visitLoopVar locals location varType key).2.insert value .none)
      (names.keyValue location varType key value) := by
  cases varType with
  | some varType =>
    have hkey := Walks.var walker htracks location varType key none
    exact ⟨hkey.records, hkey.tracks.insert value _,
      List.Subset.trans hkey.grows (List.subset_cons_self ..)⟩
  | none =>
    exact ⟨by simp [visitLoopVar, Names.keyValue, Names.use, recorded], htracks.hide value _,
      List.Subset.refl _⟩

theorem Walks.varStatements (location : Location) (statements : List VarStatement) :
    ∀ {locals : Locals T} {names : Names}, Tracks locals names →
      walker.Walks names (walker.visitVarStatements locals location statements)
        (walker.varsUses names statements) := by
  induction statements with
  | nil => exact fun htracks => .silent walker htracks
  | cons statement rest ih =>
    intro locals names htracks
    have hhere := Walks.var walker htracks location statement.varType statement.name
      statement.value
    exact hhere.append (ih hhere.tracks)

theorem Walks.catchParams (location : Location) (catchParams : List (List Text)) :
    ∀ {locals : Locals T} {names : Names}, Tracks locals names →
      walker.Walks names (walker.visitCatchParams locals location catchParams)
        ([], names.declareCaught catchParams) := by
  induction catchParams with
  | nil => exact fun htracks => .silent walker htracks
  | cons caught rest ih =>
    intro locals names htracks
    rw [visitCatchParams, Names.declareCaught]
    cases caught.getLast? with
    | none => exact ih htracks
    | some name =>
      have hhere := Walks.var walker htracks location (catchType caught) name none
      exact hhere.append (ih hhere.tracks)

theorem identRecords_visitCase (location : Location) (case : Case) :
    identRecords (walker.visitCase locals location case) =
      (walker.caseIdents case).filterMap (walker.found locals) := by
  cases case with
  | exact expression => exact identRecords_visitExpression location _ _ expression
  | range start finish =>
    rw [visitCase, caseIdents, identRecords_append, List.filterMap_append,
      identRecords_visitExpression, identRecords_visitExpression]

theorem identRecords_visitCases (location : Location) (cases : List Case) :
    identRecords (cases.flatMap (walker.visitCase locals location)) =
      (cases.flatMap walker.caseIdents).filterMap (walker.found locals) := by
  induction cases with
  | nil => rfl
  | cons case rest ih =>
    rw [List.flatMap_cons, List.flatMap_cons, identRecords_append, List.filterMap_append,
      identRecords_visitCase, ih]

variable {walker}

mutual

-- One case for each form of statement: what the form visits itself, then its blocks.
theorem walks_statement {locals : Locals T} {names : Names} (htracks : Tracks locals names)
    (location : Location) : ∀ statement : Statement,
    walker.Walks names (walker.visitStatement locals location statement)
      (walker.statementUses names location statement)
  | .expr expression => .expression walker htracks location none expression
  | .throw expression => .expression walker htracks location none expression
  | .del expression => .expression walker htracks location none expression
  | .return expression => .option walker htracks location expression
  | .crash expression => .option walker htracks location expression
  | .while condition block =>
    ((Walks.expression walker htracks condition.1 none condition.2).append
      (walks_block htracks block)).leave
  | .doWhile block condition => by
    have hbody := (walks_block htracks block).leave
    exact hbody.append (.expression walker hbody.tracks condition.1 none condition.2)
  | .if arms elseArm => by
    have harms := walks_arms htracks arms
    exact harms.append (walks_block harms.tracks elseArm).leave
  | .forInfinite block => (walks_block htracks block).leave
  | .forLoop init test inc block => by
    have hinit := walks_optional htracks location init
    have htest := Walks.option walker hinit.tracks location test
    have hinc := walks_optional hinit.tracks location inc
    exact (((hinit.append htest).append hinc).append (walks_block hinc.tracks block)).leave
  | .forList varType name inList block => by
    have hvar := Walks.loopVar walker htracks location varType name
    exact (((Walks.option walker htracks location inList).append hvar).append
      (walks_block hvar.tracks block)).leave
  | .forRange varType name start finish step block => by
    have hvar := Walks.loopVar walker htracks location varType name
    exact (((((Walks.expression walker htracks location none start).append
      (.expression walker htracks location none finish)).append (.option walker htracks location step)).append
        hvar).append (walks_block hvar.tracks block)).leave
  | .forKeyValue varType key value inList block => by
    have hvar := Walks.keyValue walker htracks location varType key value
    exact (((Walks.option walker htracks location inList).append hvar).append
      (walks_block hvar.tracks block)).leave
  | .var statement => .var walker htracks location statement.varType statement.name statement.value
  | .vars statements => .varStatements walker location statements htracks
  | .setting value => .expression walker htracks location none value
  | .spawn delay block =>
    ((Walks.option walker htracks location delay).append (walks_block htracks block)).leave
  | .switch input cases default => by
    have hcases := walks_cases htracks cases
    exact ((Walks.expression walker htracks location none input).append hcases).append
      (walks_block hcases.tracks default).leave
  | .tryCatch tryBlock catchParams catchBlock => by
    have htry := (walks_block htracks tryBlock).leave
    have hcaught := Walks.catchParams walker location catchParams htry.tracks
    have hcatch := (hcaught.append (walks_block hcaught.tracks catchBlock)).leave
    have hall := htry.append hcatch
    rw [← List.append_assoc] at hall
    exact hall
  | .label block => (walks_block htracks block).leave
  | .continue => .silent walker htracks
  | .break => .silent walker htracks
  | .goto => .silent walker htracks

theorem walks_block {locals : Locals T} {names : Names} (htracks : Tracks locals names) :
    ∀ block : List (Location × Statement),
    walker.Walks names (walker.visitBlock locals block) (walker.blockUses names block)
  | [] => .silent walker htracks
  | (location, statement) :: rest => by
    have hhere := walks_statement htracks location statement
    exact hhere.append (walks_block hhere.tracks rest)

theorem walks_optional {locals : Locals T} {names : Names} (htracks : Tracks locals names)
    (location : Location) : ∀ statement : Option Statement,
    walker.Walks names (walker.visitOptional locals location statement)
      (walker.optionalUses names location statement)
  | none => .silent walker htracks
  | some statement => walks_statement htracks location statement

theorem walks_arms {locals : Locals T} {names : Names} (htracks : Tracks locals names) :
    ∀ arms : List ((Location × Expression) × List (Location × Statement)),
    walker.Walks names (walker.visitArms locals arms) (walker.armsUses names arms)
  | [] => .silent walker htracks
  | (condition, block) :: rest => by
    have hbody := (walks_block htracks block).leave
    exact ((Walks.expression walker htracks condition.1 none condition.2).append hbody).append
      (walks_arms hbody.tracks rest)

theorem walks_cases {locals : Locals T} {names : Names} (htracks : Tracks locals names) :
    ∀ cases : List ((Location × List Case) × List (Location × Statement)),
    walker.Walks names (walker.visitCases locals cases) (walker.casesUses names cases)
  | [] => .silent walker htracks
  | (case, block) :: rest => by
    have hbody := (walks_block htracks block).leave
    exact ((Walks.of_records walker htracks (identRecords_visitCases walker case.1 case.2)).append hbody).append
      (walks_cases hbody.tracks rest)

end

theorem walks_parameters (parameters : List Parameter) :
    ∀ {locals : Locals T} {names : Names}, Tracks locals names →
      walker.Walks names (walker.visitParameters locals parameters)
        (walker.parametersUses names parameters) := by
  induction parameters with
  | nil => exact fun htracks => .silent walker htracks
  | cons parameter rest ih =>
    intro locals names htracks
    have hdefault : walker.Walks names
        (walker.recordType parameter.location (walker.staticType parameter.varType) ++
          walker.visitOption locals parameter.location parameter.default,
          locals.insert parameter.name (walker.staticType parameter.varType))
        (names.uses (walker.optionIdents parameter.default), names.declare parameter.name) := by
      refine ⟨?_, htracks.insert _ _, List.subset_cons_self ..⟩
      rw [identRecords_append, identRecords_recordType, List.nil_append]
      exact (Walks.option walker htracks parameter.location parameter.default).records
    exact hdefault.append (ih hdefault.tracks)

theorem tracks_builtin : Tracks walker.builtinLocals walker.builtinNames := by
  have hempty : Tracks (FinMap.empty : Locals T) ⟨[], []⟩ := ⟨fun name => by simp [FinMap.empty]⟩
  have hall := (((hempty.insert "global".toList (.type walker.tree.root)).insert
    ".".toList .none).insert "args".toList (.type walker.tree.listType)).insert
      "usr".toList (.type walker.tree.mobType)
  unfold builtinLocals builtinNames
  cases walker.tree.isRoot walker.ty with
  | true => exact hall
  | false => exact hall.insert "src".toList (.type walker.ty)

theorem identRecords_run (parameters : List Parameter) (block : Block) :
    identRecords (walker.run parameters block) =
      (walker.bodyUses parameters block).filterMap walker.recorded := by
  have hbuiltin : Tracks walker.builtinLocals walker.builtinNames := tracks_builtin
  have hparameters : walker.Walks _ _ _ := walks_parameters parameters hbuiltin
  exact (hparameters.append (walks_block hparameters.tracks block)).records

variable (walker)

-- The reference of a use that is recorded exactly when no declaration hides it.
def visible (use : ScopedUse) : Option (SymbolId × Location) :=
  if use.inScope then none else walker.named use.occurrence

-- The same for the uses in expressions alone.
def visibleRead (use : ScopedUse) : Option (SymbolId × Location) :=
  if use.inScope ∨ use.loop then none else walker.named use.occurrence

def NamesOwn (use : ScopedUse) : Prop := (walker.named use.occurrence).isSome = true ∧
  use.inScope = false

end Walker

theorem filterMap_length_le {α β : Type} {f g : α → Option β} {l : List α}
    (h : ∀ a ∈ l, f a = none ∨ f a = g a) : (l.filterMap f).length ≤ (l.filterMap g).length := by
  induction l with
  | nil => exact le_rfl
  | cons a l ih =>
    have hrest := ih fun b hb => h b (List.mem_cons_of_mem _ hb)
    rw [List.filterMap_cons, List.filterMap_cons]
    cases hf : f a <;> cases hg : g a <;>
      have hhead := h a (List.mem_cons_self ..) <;> simp_all
    exact hrest.trans (Nat.le_succ _)

-- The references that are left out show in the length.
theorem filterMap_eq_iff {α β : Type} {f g : α → Option β} {l : List α}
    (h : ∀ a ∈ l, f a = none ∨ f a = g a) :
    l.filterMap f = l.filterMap g ↔ ∀ a ∈ l, f a = g a := by
  constructor
  · intro heq
    induction l with
    | nil => exact fun a ha => nomatch ha
    | cons a l ih =>
      have htail := fun b hb => h b (List.mem_cons_of_mem _ hb)
      have hlength := filterMap_length_le htail
      have hhead : f a = g a := by
        rcases h a (List.mem_cons_self ..) with hnone | hsame
        · cases hg : g a with
          | none => exact hnone
          | some b =>
            simp only [List.filterMap_cons, hnone, hg] at heq
            rw [heq, List.length_cons] at hlength
            exact absurd hlength (Nat.not_succ_le_self _)
        · exact hsame
      refine List.forall_mem_cons.mpr ⟨hhead, ih htail ?_⟩
      cases hg : g a with
      | none => simpa [List.filterMap_cons, hhead, hg] using heq
      | some b => simpa [List.filterMap_cons, hhead, hg] using heq
  · exact fun hsame => List.filterMap_congr hsame

namespace Walker

variable {T : Type} (walker : Walker T)

theorem references_scoped_iff (parameters : List Parameter) (block : Block) :
    (identRecords (walker.run parameters block) =
        (walker.bodyUses parameters block).filterMap walker.visibleRead ↔
      ∀ use ∈ walker.bodyUses parameters block, walker.NamesOwn use → use.loop = false →
        use.left = false ∧ use.occurrence.lost = false) ∧
      (identRecords (walker.run parameters block) =
          (walker.bodyUses parameters block).filterMap walker.visible ↔
        ∀ use ∈ walker.bodyUses parameters block, walker.NamesOwn use →
          use.loop = false ∧ use.left = false ∧ use.occurrence.lost = false) ∧
      ∀ reference ∈ identRecords (walker.run parameters block), ∃ kind,
        (reference.2, kind) ∈
          (ReferenceTable.ofVisits (walker.run parameters block)).references reference.1 := by
  refine ⟨?_, ?_, ?_⟩
  · rw [identRecords_run, filterMap_eq_iff]
    · refine forall₂_congr fun use _ => ?_
      obtain ⟨occurrence, inScope, left, loop⟩ := use
      cases hnamed : walker.named occurrence <;> cases inScope <;> cases left <;> cases loop <;>
        cases hlost : occurrence.lost <;>
          simp [recorded, visibleRead, NamesOwn, hnamed, hlost]
    · intro use _
      unfold recorded visibleRead
      split
      · exact Or.inl rfl
      · rename_i hnot
        rw [if_neg (by tauto)]
        exact Or.inr rfl
  · rw [identRecords_run, filterMap_eq_iff]
    · refine forall₂_congr fun use _ => ?_
      obtain ⟨occurrence, inScope, left, loop⟩ := use
      cases hnamed : walker.named occurrence <;> cases inScope <;> cases left <;> cases loop <;>
        cases hlost : occurrence.lost <;>
          simp [recorded, visible, NamesOwn, hnamed, hlost]
    · intro use _
      unfold recorded visible
      split
      · exact Or.inl rfl
      · rename_i hnot
        rw [if_neg (by tauto)]
        exact Or.inr rfl
  · intro reference hreference
    obtain ⟨visit, hvisit, hrecord⟩ := List.mem_filterMap.mp hreference
    cases visit with
    | skipDynamic => cases hrecord
    | record origin found =>
      cases origin with
      | ident =>
        cases hrecord
        exact ⟨found.kind, ReferenceTable.mem_references.mpr ⟨.ident, hvisit⟩⟩
      | field => cases hrecord
      | override => cases hrecord
      | other => cases hrecord

end Walker

def mobTree : TypeTree Unit where
  root := ()
  listType := ()
  mobType := ()
  isRoot _ := false
  id _ := .type "/mob".toList
  varDeclaration _ name := if name = "hp".toList then some ⟨.var "/mob".toList name, []⟩ else none
  hasProc _ _ := false
  procDeclaration _ _ := none
  typeByPath _ := none
  navigatePath _ _ := none

def mobWalker : Walker Unit := ⟨mobTree, (), none⟩

def useHp (line : Nat) : Location × Statement :=
  (⟨1, line, 1⟩, .expr (.base ⟨1, line, 1⟩ (.ident "hp".toList) []))

-- A condition around a local `hp`, then `hp`.
def nestedBody : Block :=
  [(⟨1, 1, 1⟩, .if [((⟨1, 1, 4⟩, .base ⟨1, 1, 4⟩ .literal []),
      [(⟨1, 2, 2⟩, .var ⟨[], "hp".toList, none⟩), useHp 3])] []), useHp 4]

theorem nested_local_hides_use :
    (mobWalker.bodyUses [] nestedBody).filterMap mobWalker.visibleRead =
        [(.var "/mob".toList "hp".toList, ⟨1, 4, 1⟩)] ∧
      Walker.identRecords (mobWalker.run [] nestedBody) ≠
        (mobWalker.bodyUses [] nestedBody).filterMap mobWalker.visibleRead := by
  decide

example : Walker.identRecords (mobWalker.run [] [useHp 3]) =
    [(.var "/mob".toList "hp".toList, ⟨1, 3, 1⟩)] := by
  decide

end References
