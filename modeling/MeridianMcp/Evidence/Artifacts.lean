import MeridianMcp.Evidence.Noninterference
import MeridianMcp.Fallible

namespace Evidence

open MeridianMcp Effects Fallible

variable {F : Type} {formats : Formats F} {options : Option ArtifactOptions}

theorem scan_redacted_irrelevant (fields : List (Text × Json F)) {scan scan' : Scan F}
    (hmetrics : scan.metrics = scan'.metrics) (hrest : scan.rest = scan'.rest) :
    (fields.foldl (scanField formats options) scan).metrics =
        (fields.foldl (scanField formats options) scan').metrics ∧
      (fields.foldl (scanField formats options) scan).rest =
        (fields.foldl (scanField formats options) scan').rest := by
  induction fields generalizing scan scan' with
  | nil => exact ⟨hmetrics, hrest⟩
  | cons field fields ih =>
    refine ih ?_ (scanField_rest_congr hrest field)
    rw [scanField_metrics, scanField_metrics, hmetrics]

theorem scalarRecord_redacted_irrelevant (value : Json F) (index redacted redacted' : Nat) :
    SameRecord (scalarRecord formats value index options redacted).1
      (scalarRecord formats value index options redacted').1 := by
  obtain ⟨hmetrics, hrest⟩ := @scan_redacted_irrelevant F formats options value.asObject
    ⟨FinMap.empty, FinMap.empty, none, none, redacted⟩
    ⟨FinMap.empty, FinMap.empty, none, none, redacted'⟩ rfl rfl
  simp only [Scan.rest, Prod.mk.injEq] at hrest
  exact ⟨hmetrics, hrest.1, hrest.2.1, hrest.2.2⟩

namespace Csv

def CellDiffers (cell cell' : Text × Text) : Prop :=
  cell.1 = cell'.1 ∧ (cell.2 = cell'.2 ∨ protectedName cell.1 = true)

def RowDiffers (headers : List Text) : Option (List Text) → Option (List Text) → Prop
  | none, none => True
  | some cells, some cells' => List.Forall₂ CellDiffers (headers.zip cells) (headers.zip cells')
  | _, _ => False

theorem keptFields_eq {cells cells' : List (Text × Text)}
    (h : List.Forall₂ CellDiffers cells cells') :
    keptFields formats cells = keptFields formats cells' := by
  induction h with
  | nil => rfl
  | @cons cell cell' cells cells' hcell _ ih =>
    obtain ⟨name, text⟩ := cell
    obtain ⟨name', text'⟩ := cell'
    obtain ⟨rfl, hcell⟩ := hcell
    simp only [keptFields] at ih ⊢
    cases hprotected : protectedName name with
    | true => simpa [List.filter_cons, hprotected] using ih
    | false =>
      obtain rfl : text = text' := hcell.resolve_right (by simp [hprotected])
      simpa [List.filter_cons, hprotected] using ih

theorem readRow_same {headers : List Text} {row row' : Option (List Text)}
    (hrow : RowDiffers headers row row') {n : Nat} {reading reading' out out' : Reading F}
    (h : readRow formats options headers reading (row, n) = .ok out)
    (h' : readRow formats options headers reading' (row', n) = .ok out')
    (hsame : List.Forall₂ SameRecord reading.records reading'.records) :
    List.Forall₂ SameRecord out.records out'.records := by
  unfold readRow at h h'
  split at h
  · cases h
  · rename_i hlimit
    rw [if_neg hlimit] at h'
    cases row with
    | none =>
      cases row' with
      | none =>
        cases h
        cases h'
        exact hsame
      | some cells' => exact hrow.elim
    | some cells =>
      cases row' with
      | none => exact hrow.elim
      | some cells' =>
        cases h
        cases h'
        refine forall₂_concat_iff.mpr ⟨hsame, ?_⟩
        rw [rowObject, rowObject, keptFields_eq (show List.Forall₂ CellDiffers _ _ from hrow)]
        exact scalarRecord_redacted_irrelevant _ _ _ _

theorem readRows_same {headers : List Text} {rows rows' : List (Option (List Text))}
    (hrows : List.Forall₂ (RowDiffers headers) rows rows') {n : Nat}
    {reading reading' out out' : Reading F}
    (h : (rows.zipIdx n).foldlM (readRow formats options headers) reading = .ok out)
    (h' : (rows'.zipIdx n).foldlM (readRow formats options headers) reading' = .ok out')
    (hsame : List.Forall₂ SameRecord reading.records reading'.records) :
    List.Forall₂ SameRecord out.records out'.records := by
  induction hrows generalizing n reading reading' with
  | nil =>
    cases h
    cases h'
    exact hsame
  | cons hrow _ ih =>
    rw [List.zipIdx_cons] at h h'
    obtain ⟨next, hnext, hrest⟩ := foldlM_cons_ok h
    obtain ⟨next', hnext', hrest'⟩ := foldlM_cons_ok h'
    exact ih hrest hrest' (readRow_same hrow hnext hnext' hsame)

end Csv

namespace Jsonl

def fieldsOf (formats : Formats F) (line : Text) : List (Text × Json F) :=
  ((formats.fromStr line).map Json.asObject).getD []

def LineDiffers (formats : Formats F) (line line' : Text) : Prop :=
  blank formats line = blank formats line' ∧
    List.Forall₂ FieldDiffers (fieldsOf formats line) (fieldsOf formats line')

-- Each protected field of the line adds the same number, or none, to the metrics.
def LineAgrees (formats : Formats F) (options : Option ArtifactOptions) (line line' : Text) : Prop :=
  blank formats line = true ∨
    MetricsAgree formats options (fieldsOf formats line) (fieldsOf formats line')

theorem readLine_blank {line : Text} (hblank : blank formats line = true) {n : Nat}
    {reading out : Reading F} (h : readLine formats options reading (line, n) = .ok out) :
    out = reading := by
  unfold readLine at h
  split at h
  · cases h
  · exact (Except.ok.inj h).symm

theorem readLine_record {line : Text} (hblank : blank formats line = false) {n : Nat}
    {reading out : Reading F} (h : readLine formats options reading (line, n) = .ok out) :
    ∃ value, formats.fromStr line = some value ∧
      out.records = reading.records ++
        [(scalarRecord formats value n options reading.redacted).1] := by
  unfold readLine at h
  split at h
  · cases h
  · rw [if_neg (by simp [hblank])] at h
    split at h
    · cases h
    · split at h
      · cases h
      · rename_i value hvalue
        split at h
        · cases h
        · cases h
          exact ⟨value, hvalue, rfl⟩

theorem asObject_nodup {line : Text} {value : Json F} (h : formats.fromStr line = some value) :
    (value.asObject.map Prod.fst).Nodup := by
  cases value with
  | object fields => exact formats.fromStr_nodup line fields h
  | _ => exact List.nodup_nil

theorem readLines_same_iff (htime : TimeUnprotected options) {lines lines' : List Text}
    (hlines : List.Forall₂ (LineDiffers formats) lines lines') {n : Nat}
    {reading reading' out out' : Reading F}
    (h : (lines.zipIdx n).foldlM (readLine formats options) reading = .ok out)
    (h' : (lines'.zipIdx n).foldlM (readLine formats options) reading' = .ok out') :
    List.Forall₂ SameRecord out.records out'.records ↔
      List.Forall₂ SameRecord reading.records reading'.records ∧
        List.Forall₂ (LineAgrees formats options) lines lines' := by
  induction hlines generalizing n reading reading' with
  | nil =>
    cases h
    cases h'
    exact (and_iff_left .nil).symm
  | @cons line line' lines lines' hline _ ih =>
    rw [List.zipIdx_cons] at h h'
    obtain ⟨next, hnext, hrest⟩ := foldlM_cons_ok h
    obtain ⟨next', hnext', hrest'⟩ := foldlM_cons_ok h'
    rw [ih hrest hrest', List.forall₂_cons, ← and_assoc]
    refine and_congr_left fun _ => ?_
    obtain ⟨hblank, hfields⟩ := hline
    cases hb : blank formats line with
    | true =>
      rw [readLine_blank hb hnext, readLine_blank (hblank ▸ hb) hnext']
      exact (and_iff_left (Or.inl hb)).symm
    | false =>
      obtain ⟨value, hvalue, hrecords⟩ := readLine_record hb hnext
      obtain ⟨value', hvalue', hrecords'⟩ := readLine_record (hblank ▸ hb) hnext'
      have hagrees : LineAgrees formats options line line' ↔
          MetricsAgree formats options value.asObject value'.asObject := by
        rw [LineAgrees, hb, fieldsOf, fieldsOf, hvalue, hvalue']
        exact or_iff_right (by decide)
      rw [fieldsOf, fieldsOf, hvalue, hvalue'] at hfields
      rw [hrecords, hrecords', forall₂_concat_iff, hagrees,
        scalarRecord_same_iff htime (asObject_nodup hvalue) hfields]

end Jsonl

def ArtifactDiffers (formats : Formats F) (kind : ArtifactKind) (bytes bytes' : Bytes) : Prop :=
  match kind with
  | .performanceCsv => ∃ headers rows rows', formats.csvRecords bytes = some (headers, rows) ∧
      formats.csvRecords bytes' = some (headers, rows') ∧
      List.Forall₂ (Csv.RowDiffers headers) rows rows'
  | .runtimeJsonl | .eventJsonl => ∃ text text', formats.fromUtf8 bytes = some text ∧
      formats.fromUtf8 bytes' = some text' ∧
      List.Forall₂ (Jsonl.LineDiffers formats) (Jsonl.lines text) (Jsonl.lines text')
  | _ => False

def NumbersAgree (formats : Formats F) (options : Option ArtifactOptions) (kind : ArtifactKind)
    (bytes bytes' : Bytes) : Prop :=
  kind = .performanceCsv ∨ ∀ text text', formats.fromUtf8 bytes = some text →
    formats.fromUtf8 bytes' = some text' →
      List.Forall₂ (Jsonl.LineAgrees formats options) (Jsonl.lines text) (Jsonl.lines text')

theorem Csv.parse_records {read : ReadArtifact} {descriptor : ArtifactDescriptor}
    {redacted count : Nat} {parsed : ParsedArtifact F}
    (h : Csv.parse formats read descriptor redacted = .ok (parsed, count)) :
    ∃ headers rows reading, formats.csvRecords read.bytes = some (headers, rows) ∧
      rows.zipIdx.foldlM (Csv.readRow formats descriptor.options headers) ⟨[], 0, redacted⟩ =
        .ok reading ∧ parsed.records = reading.records := by
  unfold Csv.parse at h
  cases hcsv : formats.csvRecords read.bytes with
  | none =>
    rw [hcsv] at h
    cases h
  | some table =>
    obtain ⟨headers, rows⟩ := table
    rw [hcsv] at h
    dsimp only at h
    split at h
    · cases h
    · split at h
      · cases h
      · cases hfold : rows.zipIdx.foldlM (Csv.readRow formats descriptor.options headers)
            ⟨[], 0, redacted⟩ with
        | error e =>
          rw [hfold] at h
          cases h
        | ok reading =>
          rw [hfold] at h
          cases h
          exact ⟨headers, rows, reading, rfl, hfold, rfl⟩

theorem Jsonl.parse_records {read : ReadArtifact} {descriptor : ArtifactDescriptor}
    {redacted count : Nat} {parsed : ParsedArtifact F}
    (h : Jsonl.parse formats read descriptor redacted = .ok (parsed, count)) :
    ∃ text reading, formats.fromUtf8 read.bytes = some text ∧
      (Jsonl.lines text).zipIdx.foldlM (Jsonl.readLine formats descriptor.options)
        ⟨[], 0, redacted⟩ = .ok reading ∧ parsed.records = reading.records := by
  unfold Jsonl.parse at h
  cases htext : formats.fromUtf8 read.bytes with
  | none =>
    rw [htext] at h
    cases h
  | some text =>
    rw [htext] at h
    dsimp only at h
    cases hfold : (Jsonl.lines text).zipIdx.foldlM (Jsonl.readLine formats descriptor.options)
        ⟨[], 0, redacted⟩ with
    | error e =>
      rw [hfold] at h
      cases h
    | ok reading =>
      rw [hfold] at h
      cases h
      exact ⟨text, reading, rfl, hfold, rfl⟩

theorem Csv.parse_same {read read' : ReadArtifact} {descriptor : ArtifactDescriptor}
    {redacted redacted' count count' : Nat} {parsed parsed' : ParsedArtifact F}
    (hdiffers : ArtifactDiffers formats .performanceCsv read.bytes read'.bytes)
    (h : Csv.parse formats read descriptor redacted = .ok (parsed, count))
    (h' : Csv.parse formats read' descriptor redacted' = .ok (parsed', count')) :
    SameView parsed parsed' := by
  obtain ⟨headers, rows, rows', hcsv, hcsv', hrows⟩ := hdiffers
  obtain ⟨_, _, reading, hread, hfold, hrecords⟩ := Csv.parse_records h
  obtain ⟨_, _, reading', hread', hfold', hrecords'⟩ := Csv.parse_records h'
  rw [hcsv] at hread
  rw [hcsv'] at hread'
  cases hread
  cases hread'
  rw [SameView, hrecords, hrecords']
  exact Csv.readRows_same hrows hfold hfold' .nil

theorem Jsonl.parse_same_iff {read read' : ReadArtifact} {descriptor : ArtifactDescriptor}
    (htime : TimeUnprotected descriptor.options)
    {redacted redacted' count count' : Nat} {parsed parsed' : ParsedArtifact F}
    (hdiffers : ArtifactDiffers formats .eventJsonl read.bytes read'.bytes)
    (h : Jsonl.parse formats read descriptor redacted = .ok (parsed, count))
    (h' : Jsonl.parse formats read' descriptor redacted' = .ok (parsed', count')) :
    SameView parsed parsed' ↔ ∀ text text', formats.fromUtf8 read.bytes = some text →
      formats.fromUtf8 read'.bytes = some text' →
        List.Forall₂ (Jsonl.LineAgrees formats descriptor.options) (Jsonl.lines text)
          (Jsonl.lines text') := by
  obtain ⟨text, text', htext, htext', hlines⟩ := hdiffers
  obtain ⟨_, reading, hread, hfold, hrecords⟩ := Jsonl.parse_records h
  obtain ⟨_, reading', hread', hfold', hrecords'⟩ := Jsonl.parse_records h'
  rw [htext] at hread
  rw [htext'] at hread'
  cases hread
  cases hread'
  rw [SameView, hrecords, hrecords', Jsonl.readLines_same_iff htime hlines hfold hfold', htext,
    htext']
  constructor
  · rintro ⟨-, hagree⟩ _ _ ⟨⟩ ⟨⟩
    exact hagree
  · intro hagree
    exact ⟨.nil, hagree text text' rfl rfl⟩

theorem protected_values_unseen_iff {read read' : ReadArtifact} {descriptor : ArtifactDescriptor}
    (htime : TimeUnprotected descriptor.options)
    (hdiffers : ArtifactDiffers formats descriptor.kind read.bytes read'.bytes)
    {redacted redacted' count count' : Nat} {parsed parsed' : ParsedArtifact F}
    (h : parseRead formats read descriptor redacted = .ok (parsed, count))
    (h' : parseRead formats read' descriptor redacted' = .ok (parsed', count')) :
    SameView parsed parsed' ↔
      NumbersAgree formats descriptor.options descriptor.kind read.bytes read'.bytes := by
  unfold parseRead at h h'
  cases hkind : descriptor.kind <;> rw [hkind] at h h' hdiffers
  case byondProcProfileJson => exact hdiffers.elim
  case byondSendmapsJson => exact hdiffers.elim
  case performanceCsv => exact iff_of_true (Csv.parse_same hdiffers h h') (Or.inl rfl)
  case runtimeJsonl =>
    rw [Jsonl.parse_same_iff htime hdiffers h h', NumbersAgree, or_iff_right (by decide)]
  case eventJsonl =>
    rw [Jsonl.parse_same_iff htime hdiffers h h', NumbersAgree, or_iff_right (by decide)]

theorem Jsonl.parse_line {read : ReadArtifact} {descriptor : ArtifactDescriptor} {text line : Text}
    {value : Json F} (htext : formats.fromUtf8 read.bytes = some text)
    (hlines : Jsonl.lines text = [line]) (hlen : utf8Len line ≤ maxEvidenceLineBytes)
    (hblank : Jsonl.blank formats line = false) (hvalue : formats.fromStr line = some value)
    (hdepth : validateJsonDepth value 0 = .ok ()) :
    ∃ parsed count, Jsonl.parse formats read descriptor 0 = .ok (parsed, count) ∧
      parsed.records = [(scalarRecord formats value 0 descriptor.options 0).1] := by
  have hrows : ¬ maxEvidenceRows ≤ ([] : List (EvidenceRecord F)).length := by
    rw [List.length_nil]
    decide
  have hread : Jsonl.readLine formats descriptor.options ⟨[], 0, 0⟩ (line, 0) =
      .ok ⟨[(scalarRecord formats value 0 descriptor.options 0).1], 0,
        (scalarRecord formats value 0 descriptor.options 0).2⟩ := by
    rw [Jsonl.readLine, if_neg (Nat.not_lt.mpr hlen), if_neg (by simp [hblank]),
      if_neg hrows, hvalue]
    dsimp only
    rw [hdepth]
    rfl
  refine ⟨⟨read.identity, .eventStream, [(scalarRecord formats value 0 descriptor.options 0).1], 1,
    0, []⟩, (scalarRecord formats value 0 descriptor.options 0).2, ?_, rfl⟩
  rw [Jsonl.parse, htext]
  dsimp only
  rw [hlines, List.zipIdx_singleton, List.foldlM_cons, hread]
  rfl

def ckeyLine (digit : Char) : Text := "\x7b\"ckey\":".toList ++ [digit, '\x7d']

def ckeyValue (number : Int) : Json Int := .object [("ckey".toList, .number (.int number))]

def ckeyTable (text : Text) : Option (Json Int) :=
  if text = ckeyLine '1' then some (ckeyValue 1)
  else if text = ckeyLine '2' then some (ckeyValue 2)
  else none

def ckeyFormats : Formats Int where
  fromUtf8 bytes := some (bytes.map fun byte => Char.ofNat byte.toNat)
  isWhitespace := Char.isWhitespace
  fromStr := ckeyTable
  fromStr_nodup text fields h := by
    rw [ckeyTable] at h
    split at h
    · cases h
      exact List.nodup_singleton _
    · split at h
      · cases h
        exact List.nodup_singleton _
      · cases h
  csvRecords _ := none
  parseFloat _ := none
  isFinite _ := true
  ofInt value := value
  parseRfc3339Ms _ := none

def ckeyRead (digit : Char) : ReadArtifact :=
  { identity := ⟨"events.jsonl".toList, .eventJsonl, 10, []⟩
    bytes := (ckeyLine digit).map fun c => UInt8.ofNat c.toNat }

def ckeyDescriptor (selectedMetrics : List Text) : ArtifactDescriptor :=
  { kind := .eventJsonl, path := "events.jsonl".toList
    options := some ⟨selectedMetrics, none, none, []⟩ }

theorem ckey_value_one : ckeyFormats.fromStr (ckeyLine '1') = some (ckeyValue 1) := by
  change ckeyTable (ckeyLine '1') = _
  rw [ckeyTable, if_pos rfl]

theorem ckey_value_two : ckeyFormats.fromStr (ckeyLine '2') = some (ckeyValue 2) := by
  have hne : ckeyLine '2' ≠ ckeyLine '1' := by decide
  change ckeyTable (ckeyLine '2') = _
  rw [ckeyTable, if_neg hne, if_pos rfl]

theorem ckey_parse (selectedMetrics : List Text) {digit : Char} {number : Int}
    (hdigit : digit = '1' ∧ number = 1 ∨ digit = '2' ∧ number = 2) :
    ∃ parsed count,
      parseRead ckeyFormats (ckeyRead digit) (ckeyDescriptor selectedMetrics) 0 =
        .ok (parsed, count) ∧
      parsed.records = [(scalarRecord ckeyFormats (ckeyValue number) 0
        (ckeyDescriptor selectedMetrics).options 0).1] := by
  rcases hdigit with ⟨rfl, rfl⟩ | ⟨rfl, rfl⟩
  · exact @Jsonl.parse_line Int ckeyFormats (ckeyRead '1') (ckeyDescriptor selectedMetrics)
      (ckeyLine '1') (ckeyLine '1') (ckeyValue 1) (by decide) (by decide) (by decide) (by decide)
      ckey_value_one rfl
  · exact @Jsonl.parse_line Int ckeyFormats (ckeyRead '2') (ckeyDescriptor selectedMetrics)
      (ckeyLine '2') (ckeyLine '2') (ckeyValue 2) (by decide) (by decide) (by decide) (by decide)
      ckey_value_two rfl

theorem ckey_differs : ArtifactDiffers ckeyFormats .eventJsonl (ckeyRead '1').bytes
    (ckeyRead '2').bytes := by
  refine ⟨ckeyLine '1', ckeyLine '2', by decide, by decide, ?_⟩
  have hlines : Jsonl.lines (ckeyLine '1') = [ckeyLine '1'] := by decide
  have hlines' : Jsonl.lines (ckeyLine '2') = [ckeyLine '2'] := by decide
  rw [hlines, hlines']
  refine .cons ⟨by decide, ?_⟩ .nil
  rw [Jsonl.fieldsOf, Jsonl.fieldsOf, ckey_value_one, ckey_value_two]
  exact .cons ⟨rfl, Or.inr (Or.inl (by decide))⟩ .nil

theorem ckey_number_shown : ∃ parsed count parsed' count',
    ArtifactDiffers ckeyFormats .eventJsonl (ckeyRead '1').bytes (ckeyRead '2').bytes ∧
    TimeUnprotected (ckeyDescriptor []).options ∧
    parseRead ckeyFormats (ckeyRead '1') (ckeyDescriptor []) 0 = .ok (parsed, count) ∧
    parseRead ckeyFormats (ckeyRead '2') (ckeyDescriptor []) 0 = .ok (parsed', count') ∧
    ¬ SameView parsed parsed' := by
  obtain ⟨parsed, count, hparse, hrecords⟩ := ckey_parse [] (Or.inl ⟨rfl, rfl⟩)
  obtain ⟨parsed', count', hparse', hrecords'⟩ := ckey_parse [] (Or.inr ⟨rfl, rfl⟩)
  refine ⟨parsed, count, parsed', count', ckey_differs, ?_, hparse, hparse', ?_⟩
  · rintro name (h | h) <;> cases h
  · intro hsame
    rw [SameView, hrecords, hrecords', List.forall₂_cons] at hsame
    have hget := congrArg (fun metrics => metrics.get "ckey".toList) hsame.1.metrics
    have hnot : ((scalarRecord ckeyFormats (ckeyValue 1) 0 (ckeyDescriptor []).options 0).1.metrics.get
        "ckey".toList) ≠ ((scalarRecord ckeyFormats (ckeyValue 2) 0
          (ckeyDescriptor []).options 0).1.metrics.get "ckey".toList) := by decide
    exact hnot hget

theorem ckey_number_unselected : ∃ parsed count parsed' count',
    parseRead ckeyFormats (ckeyRead '1') (ckeyDescriptor ["ms".toList]) 0 = .ok (parsed, count) ∧
    parseRead ckeyFormats (ckeyRead '2') (ckeyDescriptor ["ms".toList]) 0 = .ok (parsed', count') ∧
    SameView parsed parsed' := by
  obtain ⟨parsed, count, hparse, -⟩ := ckey_parse ["ms".toList] (Or.inl ⟨rfl, rfl⟩)
  obtain ⟨parsed', count', hparse', -⟩ := ckey_parse ["ms".toList] (Or.inr ⟨rfl, rfl⟩)
  refine ⟨parsed, count, parsed', count', hparse, hparse',
    (protected_values_unseen_iff ?_ ckey_differs hparse hparse').mpr (Or.inr ?_)⟩
  · rintro name (h | h) <;> cases h
  · intro text text' htext htext'
    have hlines : Jsonl.lines (ckeyLine '1') = [ckeyLine '1'] := by decide
    have hlines' : Jsonl.lines (ckeyLine '2') = [ckeyLine '2'] := by decide
    have hbytes : ckeyFormats.fromUtf8 (ckeyRead '1').bytes = some (ckeyLine '1') := by decide
    have hbytes' : ckeyFormats.fromUtf8 (ckeyRead '2').bytes = some (ckeyLine '2') := by decide
    obtain rfl := Option.some.inj (hbytes.symm.trans htext)
    obtain rfl := Option.some.inj (hbytes'.symm.trans htext')
    rw [hlines, hlines']
    refine .cons (Or.inr ?_) .nil
    rw [Jsonl.fieldsOf, Jsonl.fieldsOf, ckey_value_one, ckey_value_two]
    exact .cons (fun _ => by decide) .nil

end Evidence
