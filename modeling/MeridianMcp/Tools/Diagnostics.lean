import MeridianMcp.Effects.FinMap
import MeridianMcp.DmiDecode.Preflight
import MeridianMcp.Paging

namespace Tools

open MeridianMcp Effects Machine Fallible Paging
open DmiDecode (parseUnsigned parseUnsigned_toDigits)

-- A JSON argument; a number shows the unsigned 64-bit integer it is, if it is one.
inductive Value where
  | null
  | bool (b : Bool)
  | number (unsigned : Option Nat)
  | string (text : Text)
  | compound
  deriving DecidableEq, Repr

structure DiagnosticRecord where
  rule : Option Text
  severity : Text
  component : Text
  message : Text
  file : Text
  line : Nat
  column : Nat
  notes : List Text
  configured : Bool
  deriving DecidableEq, Repr

structure DiagnosticArguments where
  filePath : Option Value
  severity : Option Value
  component : Option Value
  rule : Option Value
  configured : Option Value
  cursor : Option Value
  limit : Option Value
  deriving DecidableEq, Repr

structure DiagnosticQuery where
  filePath : Option Text
  severity : Option Text
  component : Option Text
  rule : Option Text
  configured : Option Bool
  cursor : Nat
  limit : Nat
  deriving DecidableEq, Repr

structure DiagnosticSummary where
  total : Nat
  bySeverity : FinMap Text Nat
  byComponent : FinMap Text Nat
  byRule : FinMap Text Nat
  configured : Nat
  unconfigured : Nat

structure DiagnosticQueryResult where
  diagnostics : List DiagnosticRecord
  summary : DiagnosticSummary
  totalCount : Nat
  nextCursor : Option Text

def defaultDiagnosticLimit : Nat := 50

def maximumDiagnosticLimit : Nat := 100

-- The message of a refused request.
abbrev Checked := Except String

def optionalString (argument : Option Value) (field : String) : Checked (Option Text) :=
  match argument with
  | some (.string text) => if text = [] then .error (field ++ " must not be empty") else .ok (some text)
  | some _ => .error (field ++ " must be a string")
  | none => .ok none

def optionalBool (argument : Option Value) : Checked (Option Bool) :=
  match argument with
  | some (.bool value) => .ok (some value)
  | some _ => .error "configured must be a boolean"
  | none => .ok none

-- What an omitted cursor or the text of one stands for.
def cursorOffset : Option Text → Option Nat
  | some text => parseUnsigned wordSize text
  | none => some 0

def diagnosticCursor (argument : Option Value) : Checked Nat :=
  match argument with
  | some (.string text) =>
    match cursorOffset (some text) with
    | some cursor => .ok cursor
    | none => .error "cursor must be a non-negative integer string"
  | some _ => .error "cursor must be a string"
  | none => .ok 0

def diagnosticLimit (argument : Option Value) : Checked Nat :=
  let limit := match argument with
    | some (.number limit) => limit
    | some _ => none
    | none => some defaultDiagnosticLimit
  match limit.filter fun limit => 1 ≤ limit ∧ limit ≤ maximumDiagnosticLimit with
  | some limit => .ok limit
  | none => .error "limit must be an integer from 1 through 100"

def parseDiagnosticQuery (arguments : DiagnosticArguments) : Checked DiagnosticQuery := do
  let filePath ← optionalString arguments.filePath "file_path"
  let severity ← optionalString arguments.severity "severity"
  let component ← optionalString arguments.component "component"
  let rule ← optionalString arguments.rule "rule"
  let configured ← optionalBool arguments.configured
  let cursor ← diagnosticCursor arguments.cursor
  let limit ← diagnosticLimit arguments.limit
  ensure (severity.all fun value =>
      value ∈ ["error".toList, "warning".toList, "info".toList, "hint".toList])
    "severity must be error, warning, info, or hint"
  ensure (component.all fun value => value ∈ ["parser".toList, "dreamchecker".toList])
    "component must be parser or dreamchecker"
  pure { filePath, severity, component, rule, configured, cursor, limit }

def normalizePathForMatch (path : Text) : Text := slashed path

def DiagnosticQuery.admits (query : DiagnosticQuery) (diagnostic : DiagnosticRecord) : Bool :=
  (query.filePath.map normalizePathForMatch).all (fun filter =>
      decide (filter <:+: normalizePathForMatch diagnostic.file)) &&
    query.severity.all (fun severity => diagnostic.severity = severity) &&
    query.component.all (fun component => diagnostic.component = component) &&
    query.rule.all (fun rule => diagnostic.rule.any fun value => value = rule) &&
    query.configured.all (fun configured => diagnostic.configured = configured)

def increment (counts : FinMap Text Nat) (key : Text) : FinMap Text Nat :=
  counts.insert key ((counts.get key).getD 0 + 1)

def DiagnosticSummary.count (summary : DiagnosticSummary) (diagnostic : DiagnosticRecord) :
    DiagnosticSummary :=
  { summary with
    bySeverity := increment summary.bySeverity diagnostic.severity
    byComponent := increment summary.byComponent diagnostic.component
    byRule := increment summary.byRule (diagnostic.rule.getD "unclassified".toList)
    configured := if diagnostic.configured then summary.configured + 1 else summary.configured
    unconfigured := if diagnostic.configured then summary.unconfigured else summary.unconfigured + 1 }

def summarizeDiagnostics (diagnostics : List DiagnosticRecord) : DiagnosticSummary :=
  diagnostics.foldl DiagnosticSummary.count
    ⟨diagnostics.length, FinMap.empty, FinMap.empty, FinMap.empty, 0, 0⟩

def queryDiagnostics (diagnostics : List DiagnosticRecord) (query : DiagnosticQuery) :
    DiagnosticQueryResult :=
  let found := diagnostics.filter query.admits
  let pageEnd := min (saturatingAdd query.cursor query.limit) found.length
  { diagnostics := (get? found query.cursor pageEnd).getD []
    summary := summarizeDiagnostics found
    totalCount := found.length
    nextCursor := if pageEnd < found.length then some (Nat.toDigits 10 pageEnd) else none }

structure CheckErrorsResult where
  query : DiagnosticQuery
  page : DiagnosticQueryResult
  count : Nat
  hasMore : Bool
  truncationReasons : List String

def checkErrors (diagnostics : List DiagnosticRecord) (arguments : DiagnosticArguments) :
    Checked CheckErrorsResult := do
  let query ← parseDiagnosticQuery arguments
  let page := queryDiagnostics diagnostics query
  pure
    { query
      page
      count := page.diagnostics.length
      hasMore := page.nextCursor.isSome
      truncationReasons := if page.nextCursor.isSome then ["diagnostic_page_limit"] else [] }

section paging

variable {diagnostics : List DiagnosticRecord} {query : DiagnosticQuery}

-- The page of a request that carries a cursor, with the total and the summary it shows.
def diagnosticPage (diagnostics : List DiagnosticRecord) (query : DiagnosticQuery)
    (cursor : Option Text) (limit : Nat) : Page (Option Text) DiagnosticRecord (Nat × DiagnosticSummary) :=
  let result := queryDiagnostics diagnostics { query with cursor := (cursorOffset cursor).getD 0, limit }
  ⟨result.diagnostics, result.nextCursor.map some, result.totalCount, result.summary⟩

theorem parseDiagnosticQuery_at {arguments : DiagnosticArguments} {cursor : Option Text} {n limit : Nat}
    (hcursor : cursorOffset cursor = some n) (hlimit : 1 ≤ limit ∧ limit ≤ maximumDiagnosticLimit)
    (h : parseDiagnosticQuery arguments = .ok query) :
    parseDiagnosticQuery { arguments with
      cursor := cursor.map .string
      limit := some (.number (some limit)) } = .ok { query with cursor := n, limit } := by
  have hoffset : diagnosticCursor (cursor.map .string) = .ok n := by
    cases cursor with
    | none => exact congrArg Except.ok (Option.some.inj hcursor)
    | some text =>
      rw [Option.map_some, diagnosticCursor]
      simp only [hcursor]
  have hbound : diagnosticLimit (some (.number (some limit))) = .ok limit := by
    simp [diagnosticLimit, Option.filter, hlimit]
  simp only [parseDiagnosticQuery, bind_ok_iff] at h ⊢
  obtain ⟨filePath, hfile, severity, hseverity, component, hcomponent, rule, hrule, configured,
    hconfigured, _, -, _, -, u, hin, v, hof, hquery⟩ := h
  obtain rfl := Except.ok.inj hquery
  exact ⟨filePath, hfile, severity, hseverity, component, hcomponent, rule, hrule, configured,
    hconfigured, n, hoffset, limit, hbound, u, hin, v, hof, rfl⟩

-- What the tool answers to such a request.
theorem checkErrors_page {arguments : DiagnosticArguments} {cursor : Option Text} {n limit : Nat}
    {result : CheckErrorsResult}
    (hcursor : cursorOffset cursor = some n) (hlimit : 1 ≤ limit ∧ limit ≤ maximumDiagnosticLimit)
    (h : checkErrors diagnostics arguments = .ok result) :
    ∃ answer, checkErrors diagnostics { arguments with
        cursor := cursor.map .string
        limit := some (.number (some limit)) } = .ok answer ∧
      diagnosticPage diagnostics result.query cursor limit =
        ⟨answer.page.diagnostics, answer.page.nextCursor.map some, answer.page.totalCount,
          answer.page.summary⟩ := by
  obtain ⟨query, hquery, hresult⟩ := bind_ok h
  obtain rfl := Except.ok.inj hresult
  have hat := parseDiagnosticQuery_at hcursor hlimit hquery
  refine ⟨_, by rw [checkErrors, hat]; rfl, ?_⟩
  rw [diagnosticPage, hcursor]
  rfl

theorem pageEnd_eq {n limit total : Nat} (h : total < wordSize) :
    min (saturatingAdd n limit) total = min (n + limit) total := by
  rw [saturatingAdd]
  omega

theorem get?_getD_eq {α : Type} (l : List α) (n limit : Nat) :
    (get? l n (min (n + limit) l.length)).getD [] = (l.drop n).take limit := by
  rw [get?]
  split
  · rename_i h
    rw [Option.getD_some, List.drop_take, List.take_eq_take_iff, List.length_drop]
    omega
  · rename_i h
    rw [Option.getD_none, List.drop_eq_nil_of_le (by omega), List.take_nil]

theorem diagnosticPage_serves (h : diagnostics.length < wordSize) :
    Serves (diagnosticPage diagnostics query) cursorOffset (diagnostics.filter query.admits)
      ((diagnostics.filter query.admits).length, summarizeDiagnostics (diagnostics.filter query.admits)) := by
  have htotal : (diagnostics.filter query.admits).length < wordSize :=
    Nat.lt_of_le_of_lt (List.length_filter_le ..) h
  have hadmits : ∀ cursor limit,
      (DiagnosticQuery.admits { query with cursor, limit }) = query.admits := fun _ _ => rfl
  constructor
  · intro cursor limit
    rfl
  · intro cursor n limit hcursor
    rw [diagnosticPage, hcursor, queryDiagnostics]
    simp only [hadmits, Option.getD_some, pageEnd_eq htotal]
    exact get?_getD_eq _ n limit
  · intro cursor n limit hcursor hend
    rw [diagnosticPage, hcursor, queryDiagnostics]
    simp only [hadmits, Option.getD_some, pageEnd_eq htotal]
    rw [if_neg (by omega)]
    rfl
  · intro cursor n limit hcursor hmore
    refine ⟨some (Nat.toDigits 10 (n + limit)), ?_, parseUnsigned_toDigits (by omega)⟩
    rw [diagnosticPage, hcursor, queryDiagnostics]
    simp only [hadmits, Option.getD_some, pageEnd_eq htotal]
    rw [if_pos (by omega), Nat.min_eq_left (by omega)]
    rfl

end paging

end Tools
