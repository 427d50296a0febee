import MeridianMcp.Language.ObjectTree
import MeridianMcp.Tools.Diagnostics

namespace Tools

open MeridianMcp Machine Fallible Paging Language
open DmiDecode (parseUnsigned_toDigits)

structure ListTypesArguments where
  start : Option Value
  maxDepth : Option Value
  limit : Option Value
  cursor : Option Value
  deriving DecidableEq, Repr

structure ListTypesQuery where
  start : Text
  maxDepth : Option Nat
  limit : Nat
  cursor : Nat
  deriving DecidableEq, Repr

structure TypeEntry where
  path : Text
  varCount : Nat
  procCount : Nat
  deriving DecidableEq, Repr

structure ListTypesResult where
  totalCount : Nat
  types : List TypeEntry
  nextCursor : Option Text
  hasMore : Bool
  truncationReasons : List String

def defaultTypeLimit : Nat := 100

def maxTypeLimit : Nat := 500

def Value.asString : Value → Option Text
  | .string text => some text
  | _ => none

def Value.asUnsigned : Value → Option Nat
  | .number unsigned => unsigned
  | _ => none

def boundedUnsigned (argument : Option Value) (field : String) (default minimum maximum : Nat) :
    Checked Nat := do
  let value ← match argument with
    | some value =>
      match value.asUnsigned with
      | some value => .ok value
      | none => .error (field ++ " must be an integer")
    | none => .ok default
  ensure (minimum ≤ value ∧ value ≤ maximum)
    (field ++ " must be between " ++ toString minimum ++ " and " ++ toString maximum)
  pure value

def typeCursor (argument : Option Value) : Checked Nat :=
  match argument with
  | some (.string text) =>
    match cursorOffset (some text) with
    | some cursor => .ok cursor
    | none => .error "cursor must be a non-negative integer string"
  | some _ => .error "cursor must be a non-negative integer string"
  | none => .ok 0

def parseListTypes (arguments : ListTypesArguments) : Checked ListTypesQuery := do
  let start := (arguments.start.bind Value.asString).getD []
  let maxDepth := arguments.maxDepth.bind Value.asUnsigned
  let limit ← boundedUnsigned arguments.limit "limit" defaultTypeLimit 1 maxTypeLimit
  let cursor ← typeCursor arguments.cursor
  pure { start, maxDepth, limit, cursor }

def ListTypesQuery.admits (query : ListTypesQuery) (ty : TypeNode) : Bool :=
  query.start.isPrefixOf ty.path && query.maxDepth.all (fun max => decide (ty.path.count '/' ≤ max))

def typeEntry (ty : TypeNode) : TypeEntry := ⟨ty.path, ty.vars.length, ty.procs.length⟩

def listMatching (tree : ObjectTree) (query : ListTypesQuery) : ListTypesResult :=
  let matching := tree.graph.filter query.admits
  let types := ((matching.drop query.cursor).take query.limit).map typeEntry
  let nextOffset := saturatingAdd query.cursor types.length
  let hasMore := decide (nextOffset < matching.length)
  { totalCount := matching.length
    types
    nextCursor := if hasMore then some (Nat.toDigits 10 nextOffset) else none
    hasMore
    truncationReasons := if hasMore then ["result_page_limit"] else [] }

def listTypes (tree : ObjectTree) (arguments : ListTypesArguments) : Checked ListTypesResult := do
  let query ← parseListTypes arguments
  pure (listMatching tree query)

variable {tree : ObjectTree} {query : ListTypesQuery}

def typePage (tree : ObjectTree) (query : ListTypesQuery) (cursor : Option Text) (limit : Nat) :
    Page (Option Text) TypeEntry Nat :=
  let result := listMatching tree { query with cursor := (cursorOffset cursor).getD 0, limit }
  ⟨result.types, result.nextCursor.map some, result.totalCount⟩

theorem parseListTypes_at {arguments : ListTypesArguments} {cursor : Option Text} {n limit : Nat}
    (hcursor : cursorOffset cursor = some n) (hlimit : 1 ≤ limit ∧ limit ≤ maxTypeLimit)
    (h : parseListTypes arguments = .ok query) :
    parseListTypes { arguments with
      cursor := cursor.map .string
      limit := some (.number (some limit)) } = .ok { query with cursor := n, limit } := by
  have hoffset : typeCursor (cursor.map .string) = .ok n := by
    cases cursor with
    | none => exact congrArg Except.ok (Option.some.inj hcursor)
    | some text =>
      rw [Option.map_some, typeCursor]
      simp only [hcursor]
  have hbound : boundedUnsigned (some (.number (some limit))) "limit" defaultTypeLimit 1 maxTypeLimit =
      .ok limit := by
    simp only [boundedUnsigned, Value.asUnsigned, bind_ok_iff]
    exact ⟨limit, rfl, (), ensure_ok_iff.mpr hlimit, rfl⟩
  simp only [parseListTypes, bind_ok_iff] at h ⊢
  obtain ⟨_, -, _, -, hquery⟩ := h
  obtain rfl := Except.ok.inj hquery
  exact ⟨limit, hbound, n, hoffset, rfl⟩

theorem listTypes_page {arguments : ListTypesArguments} {cursor : Option Text} {n limit : Nat}
    (hcursor : cursorOffset cursor = some n) (hlimit : 1 ≤ limit ∧ limit ≤ maxTypeLimit)
    (h : parseListTypes arguments = .ok query) :
    ∃ answer, listTypes tree { arguments with
        cursor := cursor.map .string
        limit := some (.number (some limit)) } = .ok answer ∧
      typePage tree query cursor limit =
        ⟨answer.types, answer.nextCursor.map some, answer.totalCount⟩ := by
  have hat := parseListTypes_at hcursor hlimit h
  refine ⟨_, by rw [listTypes, hat]; rfl, ?_⟩
  rw [typePage, hcursor]
  rfl

theorem typePage_serves (h : tree.graph.length < wordSize) :
    Serves (typePage tree query) cursorOffset ((tree.graph.filter query.admits).map typeEntry)
      (tree.graph.filter query.admits).length := by
  have htotal : (tree.graph.filter query.admits).length < wordSize :=
    Nat.lt_of_le_of_lt (List.length_filter_le ..) h
  have hadmits : ∀ cursor limit,
      (ListTypesQuery.admits { query with cursor, limit }) = query.admits := fun _ _ => rfl
  constructor
  · intro cursor limit
    rfl
  · intro cursor n limit hcursor
    rw [typePage, hcursor, ← List.map_drop, ← List.map_take]
    rfl
  · intro cursor n limit hcursor hend
    rw [List.length_map] at hend
    rw [typePage, hcursor, listMatching]
    simp only [hadmits, Option.getD_some, List.length_map, List.length_take, List.length_drop,
      saturatingAdd]
    rw [if_neg (by rw [decide_eq_true_eq]; omega)]
    rfl
  · intro cursor n limit hcursor hmore
    rw [List.length_map] at hmore
    refine ⟨some (Nat.toDigits 10 (n + limit)), ?_, parseUnsigned_toDigits (by omega)⟩
    rw [typePage, hcursor, listMatching]
    simp only [hadmits, Option.getD_some, List.length_map, List.length_take, List.length_drop,
      saturatingAdd]
    have hoffset : min (n + min limit ((tree.graph.filter query.admits).length - n)) (wordSize - 1) =
        n + limit := by omega
    rw [hoffset, if_pos (decide_eq_true (by omega))]
    rfl

-- Following the cursors of the answers from the first page on shows the list, once; `beyond` is
-- about the cursors that a client makes up.
structure Paged {α I : Type} (serve : Option Text → Nat → Page (Option Text) α I) (l : List α) (info : I) :
    Prop where
  complete : ∀ limits : Nat → Nat, (∀ k, 1 ≤ limits k) →
    ∃ pages, Followed serve limits 0 none pages ∧
      (∀ pages', Followed serve limits 0 none pages' → pages' = pages) ∧
      pages.flatMap Page.items = l ∧ ∀ page ∈ pages, page.info = info
  beyond : ∀ cursor n limit, cursorOffset cursor = some n → l.length ≤ n →
    serve cursor limit = ⟨[], none, info⟩

theorem paged_of_serves {α I : Type} {serve : Option Text → Nat → Page (Option Text) α I} {l : List α}
    {info : I} (h : Serves serve cursorOffset l info) : Paged serve l info where
  complete limits hlimits := by
    have hstart : cursorOffset none = some 0 := rfl
    exact h.complete hlimits hstart
  beyond cursor n limit hcursor hn := by
    obtain ⟨hitems, hnext⟩ := h.beyond hcursor hn limit
    have hinfo := h.info cursor limit
    generalize serve cursor limit = page at hitems hnext hinfo
    cases page
    congr

theorem results_paged (diagnostics : List DiagnosticRecord) (query : DiagnosticQuery) (tree : ObjectTree)
    (typeQuery : ListTypesQuery) (hdiagnostics : diagnostics.length < wordSize)
    (htypes : tree.graph.length < wordSize) :
    Paged (diagnosticPage diagnostics query) (diagnostics.filter query.admits)
        ((diagnostics.filter query.admits).length,
          summarizeDiagnostics (diagnostics.filter query.admits)) ∧
      Paged (typePage tree typeQuery) ((tree.graph.filter typeQuery.admits).map typeEntry)
        (tree.graph.filter typeQuery.admits).length :=
  ⟨paged_of_serves (diagnosticPage_serves hdiagnostics), paged_of_serves (typePage_serves htypes)⟩

def unusedVariable : DiagnosticRecord where
  rule := some "unused".toList
  severity := "warning".toList
  component := "dreamchecker".toList
  message := []
  file := "code/main.dm".toList
  line := 3
  column := 1
  notes := []
  configured := true

def unfiltered : DiagnosticQuery := ⟨none, none, none, none, none, 0, 1⟩

def rootTree : ObjectTree := ⟨[⟨[], ⟨0, 1, 1⟩, [], [], 1, []⟩], by decide, by simp, by simp⟩

theorem results_paged_two :
    Paged (diagnosticPage [unusedVariable, unusedVariable] unfiltered) [unusedVariable, unusedVariable]
        (2, summarizeDiagnostics [unusedVariable, unusedVariable]) ∧
      Paged (typePage rootTree ⟨[], none, 1, 0⟩) [⟨[], 0, 0⟩] 1 :=
  results_paged [unusedVariable, unusedVariable] unfiltered rootTree ⟨[], none, 1, 0⟩ (by decide) (by decide)

end Tools
