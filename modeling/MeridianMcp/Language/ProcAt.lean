import MeridianMcp.Language.Implementations
import MeridianMcp.Search.TopK

namespace Language

open MeridianMcp Effects Fallible

variable {context : AnalysisContext} {tree : ObjectTree} {macros : List MacroDefinitionRecord}
  {fuel : Nat} {resolver : ProcResolver} {index : LanguageIndex}

namespace LanguageIndex

def documentSymbols (index : LanguageIndex) (file : Text) : List DocumentSymbol :=
  (index.documents.get (normalizePath file)).getD []

def procAt (index : LanguageIndex) (file : Text) (line : Nat) : Option DocumentSymbol :=
  ((index.documentSymbols file).takeWhile fun symbol => symbol.line ≤ line).getLast?.filter
    fun symbol => symbol.kind = .proc

end LanguageIndex

-- A place of the source where something is declared.
structure Site where
  symbol : SymbolId
  file : Text
  line : Nat
  column : Nat
  deriving DecidableEq, Repr

def SymbolId.kind : SymbolId → SymbolKind
  | .type _ => .type
  | .proc _ _ _ => .proc
  | .var _ _ => .var
  | .macroDefinition _ _ _ => .macroDefinition

def Site.position (site : Site) : Nat ×ₗ Nat := toLex (site.line, site.column)

def DocumentSymbol.site (symbol : DocumentSymbol) : Site :=
  ⟨symbol.id, symbol.file, symbol.line, symbol.column⟩

def siteAt (context : AnalysisContext) (symbol : SymbolId) (location : Location) : Site :=
  ⟨symbol, context.filePath location.file, location.line, location.column⟩

def TypeNode.sites (context : AnalysisContext) (ty : TypeNode) : List Site :=
  siteAt context (.type ty.path) ty.location ::
    ty.declaredVars.map (fun entry => siteAt context (.var ty.path entry.1) entry.2.location) ++
    ty.iterSelfProcs.map fun ref => siteAt context (procId ref) ref.value.location

def macroSite (record : MacroDefinitionRecord) : Site :=
  ⟨.macroDefinition record.name record.file record.line, record.file, record.line, record.column⟩

-- What the environment declares at or above a line of a file.
def sitesAbove (context : AnalysisContext) (tree : ObjectTree)
    (macros : List MacroDefinitionRecord) (file : Text) (line : Nat) : List Site :=
  (macros.map macroSite ++ tree.graph.flatMap (TypeNode.sites context)).filter fun site =>
    normalizePath site.file = normalizePath file ∧ site.line ≤ line

-- A procedure's header that no other type, variable or procedure follows.
structure Encloses (sites : List Site) (header : Site) : Prop where
  mem : header ∈ sites
  isProc : header.symbol.kind = .proc
  nearest : ∀ site ∈ sites, site.symbol.kind ≠ .macroDefinition → site.position ≤ header.position

structure ProcFound (sites : List Site) (found : Option DocumentSymbol) : Prop where
  encloses : ∀ header, found = some header → Encloses sites header.site
  complete : found = none → ∀ header, ¬ Encloses sites header

-- Neither a macro after the header nor a variable in its place hides the procedure.
def Unobscured (sites : List Site) : Prop :=
  ∀ header, Encloses sites header → ∀ site ∈ sites,
    (site.symbol.kind = .macroDefinition → site.position < header.position) ∧
      (site.symbol.kind = .var → site.position ≠ header.position)

-- The symbols at the sites, the latest in the file's order at the end.
structure EndsLatest (symbols : List DocumentSymbol) (sites : List Site) : Prop where
  mem_sites : ∀ site, site ∈ symbols.map DocumentSymbol.site ↔ site ∈ sites
  kinds : ∀ symbol ∈ symbols, symbol.site.symbol.kind = symbol.kind
  latest : ∀ last, symbols.getLast? = some last → ∀ symbol ∈ symbols, symbol.key ≤ last.key

theorem DocumentSymbol.key_le_iff {left right : DocumentSymbol} :
    left.key ≤ right.key ↔ left.site.position < right.site.position ∨
      left.site.position = right.site.position ∧
        toLex (left.kind.rank, left.name) ≤ toLex (right.kind.rank, right.name) := by
  simp only [key, Site.position, site, Prod.Lex.toLex_le_toLex, Prod.Lex.toLex_lt_toLex,
    EmbeddingLike.apply_eq_iff_eq, Prod.mk.injEq]
  grind

theorem DocumentSymbol.position_le {left right : DocumentSymbol} (h : left.key ≤ right.key) :
    left.site.position ≤ right.site.position := by
  rcases key_le_iff.mp h with hlt | ⟨heq, -⟩
  · exact hlt.le
  · exact heq.le

-- Symbols in one place stand in the order of their kinds.
theorem DocumentSymbol.position_lt {left right : DocumentSymbol} (h : left.key ≤ right.key)
    (hkind : right.kind.rank < left.kind.rank) : left.site.position < right.site.position := by
  rcases key_le_iff.mp h with hlt | ⟨-, hle⟩
  · exact hlt
  · rw [Prod.Lex.toLex_le_toLex] at hle
    omega

theorem indexType_sites {ty : TypeNode} {out : List (DocumentSymbol × ImplementationHit)}
    (h : indexType context tree fuel resolver ty = .ok out) :
    out.map (fun entered => entered.1.site) = ty.sites context ∧
      ∀ entered ∈ out, entered.1.kind = entered.1.id.kind := by
  obtain ⟨procs, hall, rfl⟩ := indexType_ok h
  have hsites : procs.map (fun entered => entered.1.site) =
      ty.iterSelfProcs.map fun ref => siteAt context (procId ref) ref.value.location := by
    refine map_eq_of_forall₂ hall fun _ _ hok => ?_
    obtain ⟨_, _, rfl⟩ := indexProc_ok hok
    rfl
  constructor
  · simp only [List.cons_append, List.map_cons, List.map_append, List.map_map, hsites]
    rfl
  · intro entered hentered
    rw [List.cons_append, List.mem_cons, List.mem_append, List.mem_map] at hentered
    rcases hentered with rfl | ⟨entry, -, rfl⟩ | hproc
    · rfl
    · rfl
    · obtain ⟨ref, -, hok⟩ := exists_of_mem_right hall hproc
      obtain ⟨_, _, rfl⟩ := indexProc_ok hok
      rfl

theorem mem_finishDocument {symbol : DocumentSymbol} {symbols : List DocumentSymbol} :
    symbol ∈ finishDocument symbols ↔ symbol ∈ symbols := by
  rw [finishDocument, TopK.mem_destutter_ne, List.mem_insertionSort]

theorem pairwise_finishDocument (symbols : List DocumentSymbol) :
    (finishDocument symbols).Pairwise fun left right => left.key ≤ right.key :=
  (TopK.sortBy_pairwise DocumentSymbol.key symbols).sublist (List.destutter_sublist _ _)

namespace LanguageIndex

theorem get_build {entered : List DocumentSymbol} (file : Text) :
    (((entered.foldl insertSymbol FinMap.empty).filterMap fun symbols =>
      some (finishDocument symbols)).get (normalizePath file)).getD [] =
        finishDocument (entered.filter fun symbol =>
          normalizePath symbol.file = normalizePath file) := by
  have hget := FinMap.get_foldl_pushAt (fun symbol : DocumentSymbol => normalizePath symbol.file) id
    (normalizePath file) entered FinMap.empty
  rw [FinMap.get_filterMap, show insertSymbol = FinMap.pushAt _ id from rfl, hget, List.map_id]
  cases hany : entered.any fun symbol => normalizePath symbol.file = normalizePath file with
  | true => rfl
  | false =>
    have hnone : (entered.filter fun symbol => normalizePath symbol.file = normalizePath file) =
        [] := by
      simpa using hany
    rw [hnone]
    rfl

theorem documentSymbols_of_build (h : build context tree macros fuel resolver = .ok index)
    (file : Text) : ∃ entered : List DocumentSymbol,
      index.documentSymbols file = finishDocument (entered.filter fun symbol =>
        normalizePath symbol.file = normalizePath file) ∧
      entered.map DocumentSymbol.site =
        macros.map macroSite ++ tree.graph.flatMap (TypeNode.sites context) ∧
      ∀ symbol ∈ entered, symbol.kind = symbol.id.kind := by
  obtain ⟨types, hall, rfl⟩ := build_ok h
  refine ⟨macros.map macroSymbol ++ types.flatten.map Prod.fst, get_build file, ?_, ?_⟩
  · have hsites : types.map (List.map fun entered => entered.1.site) =
        tree.graph.map (TypeNode.sites context) :=
      map_eq_of_forall₂ hall fun _ _ hok => (indexType_sites hok).1
    rw [List.map_append, List.map_map, List.map_map, List.map_flatten, List.flatMap_def, ← hsites]
    rfl
  · intro symbol hsymbol
    rw [List.mem_append, List.mem_map, List.mem_map] at hsymbol
    rcases hsymbol with ⟨record, -, rfl⟩ | ⟨entered, hentered, rfl⟩
    · rfl
    · obtain ⟨out, hout, hmem⟩ := List.mem_flatten.mp hentered
      obtain ⟨ty, -, hok⟩ := exists_of_mem_right hall hout
      exact (indexType_sites hok).2 entered hmem

theorem procAt_of_build (h : build context tree macros fuel resolver = .ok index) (file : Text)
    (line : Nat) : ∃ symbols, EndsLatest symbols (sitesAbove context tree macros file line) ∧
      index.procAt file line = symbols.getLast?.filter fun symbol => symbol.kind = .proc := by
  obtain ⟨entered, hsymbols, hsites, hkinds⟩ := documentSymbols_of_build h file
  have hsorted := pairwise_finishDocument
    (entered.filter fun symbol => normalizePath symbol.file = normalizePath file)
  rw [← hsymbols] at hsorted
  have hfilter : (index.documentSymbols file).takeWhile (fun symbol => symbol.line ≤ line) =
      (index.documentSymbols file).filter fun symbol => symbol.line ≤ line := by
    refine TopK.takeWhile_eq_filter (hsorted.imp fun {left right} hle hline => ?_)
    have hposition := DocumentSymbol.position_le hle
    simp only [Site.position, DocumentSymbol.site, Prod.Lex.toLex_le_toLex] at hposition
    simp only [decide_eq_true_eq] at hline ⊢
    omega
  have hmem : ∀ symbol, symbol ∈ (index.documentSymbols file).filter
      (fun symbol => symbol.line ≤ line) ↔
        symbol ∈ entered ∧ normalizePath symbol.file = normalizePath file ∧ symbol.line ≤ line := by
    intro symbol
    rw [hsymbols, List.mem_filter, mem_finishDocument, List.mem_filter, decide_eq_true_eq,
      decide_eq_true_eq, and_assoc]
  refine ⟨(index.documentSymbols file).filter fun symbol => symbol.line ≤ line, ⟨?_, ?_, ?_⟩, ?_⟩
  · intro site
    rw [sitesAbove, ← hsites, List.mem_map, List.mem_filter, List.mem_map]
    simp only [hmem, decide_eq_true_eq]
    constructor
    · rintro ⟨symbol, ⟨hentered, hfile⟩, rfl⟩
      exact ⟨⟨symbol, hentered, rfl⟩, hfile⟩
    · rintro ⟨⟨symbol, hentered, rfl⟩, hfile⟩
      exact ⟨symbol, ⟨hentered, hfile⟩, rfl⟩
  · exact fun symbol hsymbol => (hkinds symbol ((hmem symbol).mp hsymbol).1).symm
  · exact fun last hlast => TopK.key_le_getLast (hsorted.sublist List.filter_sublist) hlast
  · rw [procAt, hfilter]

end LanguageIndex

section EndsLatest

variable {symbols : List DocumentSymbol} {sites : List Site}

theorem EndsLatest.mem (h : EndsLatest symbols sites) {symbol : DocumentSymbol}
    (hsymbol : symbol ∈ symbols) : symbol.site ∈ sites :=
  (h.mem_sites _).mp (List.mem_map_of_mem hsymbol)

theorem EndsLatest.exists_symbol (h : EndsLatest symbols sites) {site : Site}
    (hsite : site ∈ sites) : ∃ symbol ∈ symbols, symbol.site = site :=
  List.mem_map.mp ((h.mem_sites site).mpr hsite)

theorem EndsLatest.unobscured (h : EndsLatest symbols sites)
    (hfound : ProcFound sites (symbols.getLast?.filter fun symbol => symbol.kind = .proc)) :
    Unobscured sites := by
  intro header hheader site hsite
  cases hlast : symbols.getLast?.filter fun symbol => symbol.kind = .proc with
  | none => exact absurd hheader (hfound.complete hlast header)
  | some last =>
    obtain ⟨hlast, hproc⟩ := Option.filter_eq_some_iff.mp hlast
    have hproc : last.kind = .proc := of_decide_eq_true hproc
    have hmem := List.mem_of_getLast? hlast
    have hle : last.site.position ≤ header.position := by
      refine hheader.nearest _ (h.mem hmem) ?_
      rw [h.kinds _ hmem, hproc]
      exact nofun
    obtain ⟨symbol, hsymbol, rfl⟩ := h.exists_symbol hsite
    have hkey := h.latest last hlast symbol hsymbol
    rw [h.kinds symbol hsymbol]
    constructor
    · intro hdefined
      exact (DocumentSymbol.position_lt hkey (by rw [hdefined, hproc]; decide)).trans_le hle
    · intro hvar
      exact ((DocumentSymbol.position_lt hkey (by rw [hvar, hproc]; decide)).trans_le hle).ne

theorem EndsLatest.encloses (h : EndsLatest symbols sites) {header : DocumentSymbol}
    (hlast : symbols.getLast? = some header) (hproc : header.kind = .proc) :
    Encloses sites header.site := by
  have hheader := List.mem_of_getLast? hlast
  refine ⟨h.mem hheader, (h.kinds _ hheader).trans hproc, fun site hsite _ => ?_⟩
  obtain ⟨symbol, hsymbol, rfl⟩ := h.exists_symbol hsite
  exact DocumentSymbol.position_le (h.latest header hlast symbol hsymbol)

theorem EndsLatest.last_isProc (h : EndsLatest symbols sites) (hunobscured : Unobscured sites)
    {header : Site} (hheader : Encloses sites header) :
    ∃ last, symbols.getLast? = some last ∧ last.kind = .proc := by
  obtain ⟨start, hstart, rfl⟩ := h.exists_symbol hheader.mem
  have hstartProc : start.kind = .proc := (h.kinds start hstart).symm.trans hheader.isProc
  obtain ⟨last, hlast⟩ := Option.isSome_iff_exists.mp
    (List.getLast?_isSome.mpr (List.ne_nil_of_mem hstart))
  have hmem := List.mem_of_getLast? hlast
  have hkey := h.latest last hlast start hstart
  obtain ⟨hdefined, hvar⟩ := hunobscured _ hheader _ (h.mem hmem)
  have hnearest := hheader.nearest _ (h.mem hmem)
  rw [h.kinds last hmem] at hdefined hvar hnearest
  refine ⟨last, hlast, ?_⟩
  cases hkind : last.kind with
  | proc => rfl
  | type =>
    have hlt := DocumentSymbol.position_lt hkey (by rw [hkind, hstartProc]; decide)
    exact absurd (hnearest (by rw [hkind]; exact nofun)) hlt.not_ge
  | var =>
    have hle := hnearest (by rw [hkind]; exact nofun)
    exact absurd (hle.antisymm (DocumentSymbol.position_le hkey)) (hvar hkind)
  | macroDefinition => exact absurd (DocumentSymbol.position_le hkey) (hdefined hkind).not_ge

end EndsLatest

def moveContext : AnalysisContext := ⟨[(0, "code/move.dm".toList)]⟩

-- A macro that is defined below the header of `Move`, whose body goes on after it.
def debugMacro : MacroDefinitionRecord := ⟨"DEBUG".toList, "code/move.dm".toList, 9, 0⟩

def moveSites (line : Nat) : List Site :=
  sitesAbove moveContext movableTree [debugMacro] "code/move.dm".toList line

def moveHeader : Site := ⟨.proc "/atom/movable".toList "Move".toList 0, "code/move.dm".toList, 7, 2⟩

theorem moveHeader_encloses : Encloses (moveSites 10) moveHeader :=
  ⟨by decide, rfl, by decide⟩

end Language
