import MeridianMcp.BuildProvenance.SourceLines

namespace BuildProvenance

open MeridianMcp Effects Delimited

namespace PreparedBuild

-- What a later stage of the capture may do: it appends inputs, and it clears no reason.
structure Extends (before after : PreparedBuild) : Prop where
  inputs : before.inputs <+: after.inputs
  reason : after.reason = none → before.reason = none

theorem Extends.refl (prepared : PreparedBuild) : Extends prepared prepared :=
  ⟨List.prefix_refl _, id⟩

theorem Extends.trans {p q r : PreparedBuild} (h : Extends p q) (h' : Extends q r) : Extends p r :=
  ⟨h.inputs.trans h'.inputs, fun hr => h.reason (h'.reason hr)⟩

theorem extends_because (prepared : PreparedBuild) (reason : String) :
    Extends prepared (prepared.because reason) := ⟨List.prefix_refl _, nofun⟩

theorem extends_push (prepared : PreparedBuild) (input : BuildInputIdentity) :
    Extends prepared (prepared.push input) := ⟨List.prefix_append .., id⟩

theorem extends_when (condition : Prop) [Decidable condition] (prepared : PreparedBuild)
    (reason : String) :
    Extends prepared (if condition then prepared.because reason else prepared) := by
  split
  · exact extends_because _ _
  · exact Extends.refl _

theorem extends_foldl {α : Type} {step : PreparedBuild → α → PreparedBuild}
    (h : ∀ prepared a, Extends prepared (step prepared a)) (l : List α) (prepared : PreparedBuild) :
    Extends prepared (l.foldl step prepared) := by
  induction l generalizing prepared with
  | nil => exact Extends.refl _
  | cons a l ih => exact (h prepared a).trans (ih _)

end PreparedBuild

open PreparedBuild

variable {host : BuildHost} {root : PathBuf} {snapshot : Option Snapshot}

structure SourceProved (root path : PathBuf) (text : Text) (captured : List PathBuf) : Prop where
  closed : ∀ line ∈ lines text, ∀ value, IncludeOf (trim line) value →
    joinPath (BuildHost.directoryOf root path) value ∈ captured
  line : ∀ before line after, lines text = before ++ line :: after → '#' ∈ line →
    commentBody (inBlockComment before) (trim line) = none →
      NumericDefine (trim line) ∨ ∃ value, IncludeOf (trim line) value

theorem SourceProved.mono {path : PathBuf} {text : Text} {captured captured' : List PathBuf}
    (h : SourceProved root path text captured) (hsub : captured ⊆ captured') :
    SourceProved root path text captured' :=
  ⟨fun line hline value hvalue => hsub (h.closed line hline value hvalue), h.line⟩

structure InputProved (host : BuildHost) (root : PathBuf) (input : BuildInputIdentity)
    (captured : List PathBuf) : Prop where
  role : input.role = "source".toList
  text : ∃ text, host.readToString input.path = some text ∧
    host.sha256 (utf8 text) = input.sha256 ∧ SourceProved root input.path text captured

theorem InputProved.mono {input : BuildInputIdentity} {captured captured' : List PathBuf}
    (h : InputProved host root input captured) (hsub : captured ⊆ captured') :
    InputProved host root input captured' := by
  obtain ⟨hrole, text, hread, hhash, hproved⟩ := h
  exact ⟨hrole, text, hread, hhash, hproved.mono hsub⟩

theorem visitText_extends {path : PathBuf} {text : Text} {prepared : PreparedBuild} :
    Extends prepared (BuildHost.visitText root path text prepared).1 := by
  unfold BuildHost.visitText
  split
  · exact extends_because _ _
  · refine ⟨List.prefix_refl _, fun h => ?_⟩
    dsimp only at h
    split at h
    · cases h
    · exact (scanned_of_reason h).reason

theorem visitText_proved {path : PathBuf} {text : Text} {prepared : PreparedBuild}
    (h : (BuildHost.visitText root path text prepared).1.reason = none) :
    SourceProved root path text (BuildHost.visitText root path text prepared).2 := by
  unfold BuildHost.visitText at h ⊢
  split at h
  · cases h
  · rename_i hclear
    rw [if_neg hclear]
    dsimp only at h ⊢
    split at h
    · cases h
    · have hscanned := scanned_of_reason h
      exact ⟨hscanned.pushed, hscanned.line⟩

theorem visitText_inputs {path : PathBuf} {text : Text} {prepared : PreparedBuild} :
    (BuildHost.visitText root path text prepared).1.inputs = prepared.inputs := by
  unfold BuildHost.visitText
  split <;> rfl

theorem captureAuthorized_eq {path : PathBuf} {role : Text} {input : BuildInputIdentity}
    (h : host.captureAuthorized root path role = some input) :
    input.path = path ∧ input.role = role := by
  rw [BuildHost.captureAuthorized] at h
  obtain ⟨resolved, -, h⟩ := Option.bind_eq_some_iff.mp h
  obtain ⟨identity, -, h⟩ := Option.bind_eq_some_iff.mp h
  obtain rfl := Option.some.inj h
  exact ⟨rfl, rfl⟩

theorem visitSource_extends (prepared : PreparedBuild) (path : PathBuf) :
    Extends prepared (host.visitSource root snapshot prepared path).1 := by
  unfold BuildHost.visitSource
  cases host.captureAuthorized root path "source".toList with
  | none => exact extends_because _ _
  | some input =>
    dsimp only
    have hparsed := extends_when (snapshot.any fun snapshot => BuildHost.unparsed snapshot path input)
      prepared "parser_closure_changed"
    refine (hparsed.trans (extends_push _ input)).trans ?_
    cases host.readToString path with
    | none => exact extends_because _ _
    | some text => exact (extends_when _ _ _).trans visitText_extends

-- A visit that leaves the reason empty has captured the source and taken all its lines.
theorem visitSource_proved {prepared : PreparedBuild} {path : PathBuf}
    (h : (host.visitSource root snapshot prepared path).1.reason = none) :
    ∃ input, input.path = path ∧
      (host.visitSource root snapshot prepared path).1.inputs = prepared.inputs ++ [input] ∧
      InputProved host root input (host.visitSource root snapshot prepared path).2 := by
  unfold BuildHost.visitSource at h ⊢
  cases hcapture : host.captureAuthorized root path "source".toList with
  | none =>
    rw [hcapture] at h
    cases h
  | some input =>
    obtain ⟨rfl, hrole⟩ := captureAuthorized_eq hcapture
    rw [hcapture] at h
    dsimp only at h ⊢
    cases hread : host.readToString input.path with
    | none =>
      rw [hread] at h
      cases h
    | some text =>
      rw [hread] at h
      dsimp only at h ⊢
      have hbefore := visitText_extends.reason h
      split at hbefore
      · cases hbefore
      · rename_i hhash
        refine ⟨input, rfl, ?_, hrole, text, hread, not_not.mp hhash, visitText_proved h⟩
        rw [visitText_inputs, if_neg hhash]
        split <;> rfl

theorem captureInput_extends (prepared : PreparedBuild) (path : PathBuf) (role : Text) :
    Extends prepared (host.captureInput root prepared path role) := by
  unfold BuildHost.captureInput
  split
  · exact extends_push _ _
  · exact extends_because _ _

theorem captureAnalysisInput_extends (prepared : PreparedBuild) (path : PathBuf) :
    Extends prepared (host.captureAnalysisInput root prepared path) := by
  unfold BuildHost.captureAnalysisInput
  split
  · exact Extends.refl _
  · exact captureInput_extends _ _ _

theorem captureDiscovery_extends (prepared : PreparedBuild) (path : PathBuf) :
    Extends prepared (host.captureDiscovery root prepared path) := by
  unfold BuildHost.captureDiscovery
  split
  · exact ⟨List.prefix_refl _, id⟩
  · exact extends_because _ _
  · exact captureInput_extends _ _ _

theorem captureRest_extends (fixture : Option FixtureManifest) (prepared : PreparedBuild) :
    Extends prepared (host.captureRest root snapshot fixture prepared) := by
  unfold BuildHost.captureRest
  cases snapshot with
  | none =>
    cases fixture with
    | none => exact Extends.refl _
    | some fixture => exact extends_foldl (fun _ _ => captureInput_extends _ _ _) _ _
  | some snapshot =>
    have hsnapshot : Extends prepared (host.captureSnapshot root snapshot prepared) :=
      (extends_foldl captureAnalysisInput_extends _ _).trans (extends_foldl captureDiscovery_extends _ _)
    cases fixture with
    | none => exact hsnapshot
    | some fixture => exact hsnapshot.trans (extends_foldl (fun _ _ => captureInput_extends _ _ _) _ _)

-- While no reason is set, the visited paths are those of the captured sources, and each included
-- path is visited or pending.
structure Walking (host : BuildHost) (root dme : PathBuf) (prepared : PreparedBuild)
    (pending visited : List PathBuf) : Prop where
  entry : dme ∈ visited ∨ dme ∈ pending
  found : visited ⊆ prepared.inputs.map BuildInputIdentity.path
  captured : prepared.inputs.map BuildInputIdentity.path ⊆ visited
  proved : ∀ input ∈ prepared.inputs, InputProved host root input (visited ++ pending)

theorem Walking.skip {dme path : PathBuf} {prepared : PreparedBuild} {pending visited : List PathBuf}
    (h : Walking host root dme prepared (path :: pending) visited) (hmem : path ∈ visited) :
    Walking host root dme prepared pending visited := by
  have hsub : visited ++ path :: pending ⊆ visited ++ pending := by
    intro other hother
    simp only [List.mem_append, List.mem_cons] at hother ⊢
    rcases hother with hold | rfl | hnew
    · exact Or.inl hold
    · exact Or.inl hmem
    · exact Or.inr hnew
  refine ⟨?_, h.found, h.captured, fun input hin => (h.proved input hin).mono hsub⟩
  rcases h.entry with hold | hpending
  · exact Or.inl hold
  · rcases List.mem_cons.mp hpending with rfl | hpending
    · exact Or.inl hmem
    · exact Or.inr hpending

theorem Walking.visit {dme path : PathBuf} {prepared : PreparedBuild} {pending visited : List PathBuf}
    (h : Walking host root dme prepared (path :: pending) visited)
    (hreason : (host.visitSource root snapshot prepared path).1.reason = none) :
    Walking host root dme (host.visitSource root snapshot prepared path).1
      ((host.visitSource root snapshot prepared path).2 ++ pending) (path :: visited) := by
  obtain ⟨input, hpath, hinputs, hproved⟩ := visitSource_proved hreason
  refine ⟨?_, ?_, ?_, ?_⟩
  · rcases h.entry with hold | hpending
    · exact Or.inl (List.mem_cons_of_mem _ hold)
    · rcases List.mem_cons.mp hpending with rfl | hpending
      · exact Or.inl (List.mem_cons_self ..)
      · exact Or.inr (List.mem_append_right _ hpending)
  · rw [hinputs, List.map_append, List.map_singleton, hpath]
    refine List.cons_subset.mpr ⟨by simp, fun other hother => ?_⟩
    exact List.mem_append_left _ (h.found hother)
  · rw [hinputs, List.map_append, List.map_singleton, hpath]
    intro other hother
    rcases List.mem_append.mp hother with hold | hnew
    · exact List.mem_cons_of_mem _ (h.captured hold)
    · exact List.mem_cons.mpr (Or.inl (List.mem_singleton.mp hnew))
  · intro other hother
    rw [hinputs] at hother
    rcases List.mem_append.mp hother with hold | hnew
    · refine (h.proved other hold).mono fun p hp => ?_
      simp only [List.mem_append, List.mem_cons] at hp ⊢
      tauto
    · obtain rfl := List.mem_singleton.mp hnew
      exact hproved.mono fun p hp => List.mem_append_right _ (List.mem_append_left _ hp)

theorem captureSources_keeps (pending visited : List PathBuf) {prepared : PreparedBuild}
    (h : prepared.reason ≠ none) :
    (Worklist.walk BuildHost.buildInputLimit (fun prepared => prepared.because "build_input_limit")
      (host.visitSource root snapshot) prepared pending visited).reason ≠ none :=
  Worklist.walk_keeps (P := fun prepared => prepared.reason ≠ none) (fun _ _ => Option.some_ne_none _)
    (fun prepared path hset hnone => hset ((visitSource_extends prepared path).reason hnone)) h

theorem captureSources_walking {dme : PathBuf} {prepared : PreparedBuild}
    (hempty : prepared.inputs = [])
    (h : (host.captureSources root snapshot dme prepared).reason = none) :
    ∃ visited, Walking host root dme (host.captureSources root snapshot dme prepared) [] visited := by
  have hstart : prepared.reason = none → Walking host root dme prepared [dme] [] := by
    intro _
    refine ⟨Or.inr (List.mem_singleton_self _), List.nil_subset _, ?_, ?_⟩
    · rw [hempty]
      exact List.nil_subset _
    · simp [hempty]
  have hwalk := @Worklist.walk_invariant PathBuf PreparedBuild _ BuildHost.buildInputLimit
    (fun prepared => prepared.because "build_input_limit") (host.visitSource root snapshot)
    (fun prepared pending visited =>
      prepared.reason = none → Walking host root dme prepared pending visited)
    (fun _ _ _ _ hinv hmem hreason => (hinv hreason).skip hmem)
    (fun prepared path _ _ hinv _ _ hreason =>
      (hinv ((visitSource_extends prepared path).reason hreason)).visit hreason)
    prepared [dme] [] hstart
  rcases hwalk with ⟨visited, hend⟩ | ⟨s', -, -, -, hcut⟩
  · exact ⟨visited, hend h⟩
  · rw [BuildHost.captureSources, hcut] at h
    cases h

structure SourcesClosed (host : BuildHost) (root dme : PathBuf) (sources : List BuildInputIdentity) :
    Prop where
  entry : dme ∈ sources.map BuildInputIdentity.path
  proved : ∀ input ∈ sources, InputProved host root input (sources.map BuildInputIdentity.path)

theorem started_inputs {compiler : FileIdentity} {arguments : List Text} {directory : PathBuf} :
    (BuildHost.started compiler snapshot arguments directory).inputs = [] := by
  simp only [BuildHost.started]
  split <;> split <;> rfl

theorem finishReason_keeps {prepared : PreparedBuild} (h : host.finishReason prepared = none) :
    prepared.reason = none := by
  unfold BuildHost.finishReason at h
  split at h
  · cases h
  · exact h

theorem sourcesClosed_of_walking {dme : PathBuf} {prepared : PreparedBuild}
    {visited : List PathBuf} (h : Walking host root dme prepared [] visited) :
    SourcesClosed host root dme prepared.inputs := by
  refine ⟨h.found (h.entry.resolve_right (List.not_mem_nil)), fun input hin => ?_⟩
  have hproved := h.proved input hin
  rw [List.append_nil] at hproved
  exact hproved.mono h.found

-- The state of the capture when the walk over the sources is done.
def sourcesWalked (host : BuildHost) (snapshot : Option Snapshot) (dme : PathBuf)
    (compiler : FileIdentity) (arguments : List Text) (directory : PathBuf) : PreparedBuild :=
  host.captureSources dme.dropLast (BuildHost.matching snapshot dme) dme
    (BuildHost.started compiler (BuildHost.matching snapshot dme) arguments directory)

theorem captureBuild_complete {fixture : Option FixtureManifest} {dme compiler : PathBuf}
    {arguments : List Text} {directory : PathBuf} {prepared : PreparedBuild}
    (h : host.captureBuild snapshot fixture dme compiler arguments directory = some prepared) :
    (∃ identity, host.capture compiler = some identity ∧
      (sourcesWalked host snapshot dme identity arguments directory).inputs <+: prepared.inputs ∧
      (prepared.reason = none → SourcesClosed host dme.dropLast dme
        (sourcesWalked host snapshot dme identity arguments directory).inputs)) ∧
    (∀ before pending visited, before.reason ≠ none →
      (Worklist.walk BuildHost.buildInputLimit (fun prepared => prepared.because "build_input_limit")
        (host.visitSource dme.dropLast (BuildHost.matching snapshot dme)) before pending
          visited).reason ≠ none) ∧
    (∀ location scan line, scan.reason ≠ none → (scanLine location scan line).reason ≠ none) ∧
    (∀ before, before.reason ≠ none →
      (host.captureRest dme.dropLast (BuildHost.matching snapshot dme) fixture before).reason ≠ none) ∧
    (prepared.reason ≠ none → host.finishReason prepared ≠ none) := by
  rw [BuildHost.captureBuild] at h
  obtain ⟨identity, hidentity, h⟩ := Option.bind_eq_some_iff.mp h
  split at h
  · cases h
  · obtain rfl := Option.some.inj h
    have hrest : Extends (sourcesWalked host snapshot dme identity arguments directory)
        (host.captureRest dme.dropLast (BuildHost.matching snapshot dme) fixture
          (sourcesWalked host snapshot dme identity arguments directory)) :=
      captureRest_extends _ _
    refine ⟨⟨identity, hidentity, hrest.inputs, fun hreason => ?_⟩, ?_, ?_, ?_, ?_⟩
    · obtain ⟨visited, hwalking⟩ := captureSources_walking started_inputs (hrest.reason hreason)
      exact sourcesClosed_of_walking hwalking
    · exact fun before pending visited hset => captureSources_keeps pending visited hset
    · exact fun _ _ _ hset => scanLine_keeps hset
    · exact fun before hset hnone => hset ((captureRest_extends fixture before).reason hnone)
    · exact fun hset hnone => hset (finishReason_keeps hnone)

def roomsEntry : PathBuf := ["rooms".toList, "rooms.dme".toList]

def roomsWalls : PathBuf := ["rooms".toList, "walls.dm".toList]

def roomsText (path : PathBuf) : Text :=
  if path = roomsEntry then "#define SIZE 7\n#include \"walls.dm\"\n".toList
  else "/* no walls yet */\n#include \"rooms.dme\"\n".toList

def roomsHost : BuildHost where
  symlinkMetadata path := .file (roomsText path).length
  existing _ := true
  canonicalize := some
  contents path := some (utf8 (roomsText path))
  readPath := some
  effectiveRoots := []
  sha256 bytes := bytes.map fun byte => Char.ofNat byte.toNat
  digest := id
  readToString path := some (roomsText path)

def roomsSnapshot : Snapshot := ⟨roomsEntry, [roomsEntry, roomsWalls], []⟩

def roomsInput (path : PathBuf) (relative : String) : BuildInputIdentity :=
  ⟨path, some path, relative.toList, "source".toList, (roomsText path).length,
    roomsHost.sha256 (utf8 (roomsText path))⟩

def roomsCompiler : FileIdentity :=
  ⟨["dm".toList], (roomsText ["dm".toList]).length, roomsHost.sha256 (utf8 (roomsText ["dm".toList]))⟩

def roomsPrepared (inputs : List BuildInputIdentity) : PreparedBuild :=
  ⟨inputs, roomsCompiler, ⟨"literal_dm_closure_v1".toList, ["rooms.dme".toList], [], []⟩, none⟩

theorem rooms_entry_visited : roomsHost.visitSource ["rooms".toList] (some roomsSnapshot)
    (roomsPrepared []) roomsEntry =
      (roomsPrepared [roomsInput roomsEntry "rooms.dme"], [roomsWalls]) := by decide

theorem rooms_walls_visited : roomsHost.visitSource ["rooms".toList] (some roomsSnapshot)
    (roomsPrepared [roomsInput roomsEntry "rooms.dme"]) roomsWalls =
      (roomsPrepared [roomsInput roomsEntry "rooms.dme", roomsInput roomsWalls "walls.dm"],
        [roomsEntry]) := by decide

-- The two files include each other.
theorem rooms_walked : roomsHost.captureSources ["rooms".toList] (some roomsSnapshot) roomsEntry
    (roomsPrepared []) =
      roomsPrepared [roomsInput roomsEntry "rooms.dme", roomsInput roomsWalls "walls.dm"] := by
  rw [BuildHost.captureSources, Worklist.walk_visit (by decide) (by decide), rooms_entry_visited]
  change Worklist.walk _ _ _ _ [roomsWalls] _ = _
  rw [Worklist.walk_visit (by decide) (by decide), rooms_walls_visited]
  change Worklist.walk _ _ _ _ [roomsEntry] _ = _
  rw [Worklist.walk_skip (by decide) (by decide), Worklist.walk_nil]

theorem rooms_sources : sourcesWalked roomsHost (some roomsSnapshot) roomsEntry roomsCompiler
    ["rooms.dme".toList] [] =
      roomsPrepared [roomsInput roomsEntry "rooms.dme", roomsInput roomsWalls "walls.dm"] := by
  have hstarted : BuildHost.started roomsCompiler (BuildHost.matching (some roomsSnapshot) roomsEntry)
      ["rooms.dme".toList] [] = roomsPrepared [] := by decide
  rw [sourcesWalked, hstarted]
  exact rooms_walked

theorem rooms_captured : roomsHost.captureBuild (some roomsSnapshot) none roomsEntry ["dm".toList]
    ["rooms.dme".toList] [] =
      some (roomsPrepared [roomsInput roomsEntry "rooms.dme", roomsInput roomsWalls "walls.dm"]) := by
  have hcompiler : roomsHost.capture ["dm".toList] = some roomsCompiler := by decide
  have hentry : roomsEntry ≠ [] := List.cons_ne_nil _ _
  rw [BuildHost.captureBuild, hcompiler, Option.bind_eq_bind, Option.bind_some, if_neg hentry]
  change some (roomsHost.captureRest _ _ none (sourcesWalked roomsHost (some roomsSnapshot) roomsEntry
    roomsCompiler ["rooms.dme".toList] [])) = _
  rw [rooms_sources]
  decide

theorem rooms_closed : SourcesClosed roomsHost ["rooms".toList] roomsEntry
    [roomsInput roomsEntry "rooms.dme", roomsInput roomsWalls "walls.dm"] := by
  obtain ⟨⟨identity, hidentity, -, hclosed⟩, -⟩ := captureBuild_complete rooms_captured
  have hcompiler : roomsHost.capture ["dm".toList] = some roomsCompiler := by decide
  obtain rfl := Option.some.inj (hidentity.symm.trans hcompiler)
  rw [rooms_sources] at hclosed
  exact hclosed rfl

end BuildProvenance
