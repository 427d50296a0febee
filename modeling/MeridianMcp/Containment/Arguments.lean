import MeridianMcp.Containment.Policy
import MeridianMcp.Evidence.Reader

namespace ToolArguments

open MeridianMcp Effects Containment Evidence Fallible

-- `parse` reads a path from its text, `display` writes one.
structure Platform where
  tree : LinkedTree String
  cwd : Path String
  parse : Text → Route String
  display : Path String → Text

inductive Failure where
  | refused (error : PolicyError)
  | panics

section Values

variable {F : Type}

def get (value : Json F) (key : String) : Option (Json F) := value.asObject.lookup key.toList

-- The panic of a value that is no object is left out: the callers have found a key in it.
def set (value : Json F) (key : String) (new : Json F) : Json F :=
  .object ((key.toList, new) :: value.asObject.filter (·.1 ≠ key.toList))

def getStr (value : Json F) (key : String) : Option Text := (get value key).bind Json.asStr

def eachOf {ε : Type} (key : String) (f : Json F → Except ε (Json F)) (value : Json F) : Except ε (Json F) :=
  match (get value key).bind Json.asArray with
  | none => .ok value
  | some items => do
    let items ← items.mapM f
    pure (set value key (.array items))

def overwrite (args : Json F) : Bool :=
  match get args "overwrite" with
  | some (.bool value) => value
  | _ => false

theorem get_set_self (value : Json F) (key : String) (new : Json F) : get (set value key new) key = some new := by
  rw [get, set, Json.asObject, List.lookup_cons_self]

theorem lookup_filter_ne {fields : List (Text × Json F)} {key other : Text} (h : other ≠ key) :
    (fields.filter (·.1 ≠ key)).lookup other = fields.lookup other := by
  induction fields with
  | nil => rfl
  | cons field fields ih =>
    obtain ⟨name, value⟩ := field
    by_cases hname : name = key
    · have hskip : (other == name) = false := beq_eq_false_iff_ne.mpr (hname ▸ h)
      rw [List.filter_cons_of_neg (by simpa using hname), ih, List.lookup_cons, hskip]
    · rw [List.filter_cons_of_pos (by simpa using hname), List.lookup_cons, List.lookup_cons, ih]

theorem get_set_of_ne {value new : Json F} {key other : String} (h : other ≠ key) :
    get (set value key new) other = get value other := by
  have hne : other.toList ≠ key.toList := fun heq => h (String.toList_injective heq)
  have hskip : (other.toList == key.toList) = false := beq_eq_false_iff_ne.mpr hne
  rw [get, set, Json.asObject, List.lookup_cons, hskip]
  exact lookup_filter_ne hne

end Values

-- The stem ends before the last dot, unless that is its first character.
def fileStem (name : Text) : Text :=
  let rest := (name.reverse.dropWhile (· ≠ '.')).drop 1
  if rest = [] then name else rest.reverse

def withExtension (input : Route String) (extension : Text) : Route String :=
  match input.fileName with
  | none => input
  | some name =>
    { input with segs := (Route.trim input.absolute input.segs).dropLast ++
        [.name (String.ofList (fileStem name.toList ++ '.' :: extension))] }

variable {F : Type} (platform : Platform) (policy : PathPolicy)

def runtimeDmb (input : Route String) : Except PolicyError (Path String) :=
  policy.readPath platform.tree platform.cwd input

def executable (input : Route String) : Except PolicyError (Path String) :=
  match platform.tree.resolve platform.cwd input with
  | .error _ => .error ⟨"executable_not_allowed", input, "executable is not allowlisted", none⟩
  | .ok canonical =>
    if canonical ∈ policy.executables then .ok canonical
    else .error ⟨"executable_not_allowed", .ofPath canonical, "executable is not allowlisted", none⟩

-- What the argument checks share: the text at a key is replaced by that of the path it is resolved to.
def replaceArgument (check : Route String → Except PolicyError (Path String)) (key : String) (args : Json F) :
    Except PolicyError (Json F) :=
  match getStr args key with
  | none => .ok args
  | some text => do
    let path ← check (platform.parse text)
    pure (set args key (.string (platform.display path)))

def canonicalArgument (args : Json F) (key : String) (runtime : Bool) : Except PolicyError (Json F) :=
  replaceArgument platform
    (if runtime then runtimeDmb platform policy else policy.readPath platform.tree platform.cwd) key args

def canonicalOptionalArgument (args : Json F) (key : String) : Except PolicyError (Json F) :=
  canonicalArgument platform policy args key false

def containEvidenceRequest (request : Json F) : Except PolicyError (Json F) := do
  let request ← eachOf "artifacts" (fun artifact => canonicalArgument platform policy artifact "path" false) request
  canonicalOptionalArgument platform policy request "dmb_path"

-- The keys that the arms of the match check, and whether as the path of a runtime. The arms of the icon
-- tools have a guard on their key, without which there is nothing to check.
def namedKeys : String → List (String × Bool)
  | "dm_parse_environment" | "dm_compile" => [("dme_path", false)]
  | "dm_check_fixture_sync" => [("fixture_manifest_path", false)]
  | "dm_document_symbols" => [("file_path", false)]
  | "dm_dmi_info" => [("dmi_path", false)]
  | "dm_compare_dmi_states" => [("left_dmi_path", false), ("right_dmi_path", false)]
  | "dm_find_dmi_duplicates" | "dm_audit_icons" => [("scope_path", false)]
  | "dm_extract_dmi" => [("dmi_path", false)]
  | "dm_render_map" | "dm_map_info" | "dm_find_on_map" => [("dmm_path", false)]
  | "dm_diff_maps" => [("left_dmm_path", false), ("right_dmm_path", false)]
  | "dm_run" | "dm_tracy_prepare" | "dm_tracy_launch" => [("dmb_path", true)]
  | "dm_debug_launch" => [("dmb_path", true)]
  | "dm_debug_set_breakpoints" => [("source_path", false)]
  | "dm_tracy_hotspots" | "dm_tracy_zone" | "dm_tracy_frame_stats" => [("trace_path", false)]
  | "dm_tracy_compare" => [("baseline_path", false), ("current_path", false)]
  | _ => []

def optionalKeys (name : String) : List String :=
  if name = "dm_compile" then ["working_directory", "fixture_manifest_path"]
  else if name = "rift_compile" then ["fixture_manifest_path"]
  else if name = "dm_run" then ["working_directory"]
  else []

def containNamed (name : String) (args : Json F) : Except PolicyError (Json F) :=
  if name = "dm_native_evidence_summary" then containEvidenceRequest platform policy args
  else if name = "dm_native_evidence_compare" then eachOf "runs" (containEvidenceRequest platform policy) args
  else (namedKeys name).foldlM (fun args key => canonicalArgument platform policy args key.1 key.2) args

def containInputs (name : String) (args : Json F) : Except PolicyError (Json F) := do
  let args ← containNamed platform policy name args
  let args ← (optionalKeys name).foldlM (canonicalOptionalArgument platform policy) args
  if name = "dm_compile" then replaceArgument platform (executable platform policy) "compiler_path" args
  else pure args

def containOutput (key : String) (args : Json F) : Except PolicyError (Json F) :=
  replaceArgument platform (policy.outputPath platform.tree platform.cwd · (overwrite args)) key args

-- The path of the map with another extension, where the arguments name no output; it panics without one.
def renderedPath (args : Json F) : Except Failure (Route String) :=
  match getStr args "output_path" with
  | some output => .ok (platform.parse output)
  | none =>
    match getStr args "dmm_path" with
    | some map => .ok (withExtension (platform.parse map) "png".toList)
    | none => .error .panics

def containRendered (args : Json F) : Except Failure (Json F) := do
  let output ← renderedPath platform args
  let output ← (policy.outputPath platform.tree platform.cwd output (overwrite args)).mapError .refused
  pure (set args "output_path" (.string (platform.display output)))

def containArguments (name : String) (args : Json F) : Except Failure (Json F) := do
  let args ← (containInputs platform policy name args).mapError .refused
  if name = "dm_render_map" then containRendered platform policy args
  else if name = "dm_extract_dmi" then (containOutput platform policy "output_path" args).mapError .refused
  else if name = "dm_generate_docs" then
    (containOutput platform policy "output_directory" args).mapError .refused
  else pure args

inductive Role where
  | read
  | executable
  | output
  deriving DecidableEq

inductive Place where
  | key (name : String)
  | each

-- Where the arguments of a tool hold a path: behind a key, and places below it.
structure Site where
  role : Role
  key : String
  rest : List Place

def Site.inEach (key : String) (site : Site) : Site := ⟨site.role, key, .each :: .key site.key :: site.rest⟩

def evidenceSites : List Site := [Site.inEach "artifacts" ⟨.read, "path", []⟩, ⟨.read, "dmb_path", []⟩]

def namedSites (name : String) : List Site :=
  if name = "dm_native_evidence_summary" then evidenceSites
  else if name = "dm_native_evidence_compare" then evidenceSites.map (·.inEach "runs")
  else (namedKeys name).map fun key => ⟨.read, key.1, []⟩

def optionalSites (name : String) : List Site := (optionalKeys name).map (⟨.read, ·, []⟩)

def executableSites (name : String) : List Site :=
  if name = "dm_compile" then [⟨.executable, "compiler_path", []⟩] else []

def outputSites (name : String) : List Site :=
  if name = "dm_extract_dmi" then [⟨.output, "output_path", []⟩]
  else if name = "dm_generate_docs" then [⟨.output, "output_directory", []⟩]
  else []

def inputSites (name : String) : List Site := namedSites name ++ optionalSites name ++ executableSites name

-- What a path stands for that a tool is given: a place in the tree that the policy lets it use.
def Admits (replace : Bool) : Role → Route String → Text → Prop
  | .read, input, text => ∃ p, platform.tree.resolve platform.cwd input = .ok p ∧
      (∃ root ∈ policy.roots, root <+: p) ∧ text = platform.display p
  | .executable, input, text => ∃ p, platform.tree.resolve platform.cwd input = .ok p ∧
      p ∈ policy.executables ∧ text = platform.display p
  | .output, input, text => ∃ p, LandsOn platform.tree platform.cwd input p ∧
      (∃ root ∈ policy.roots, root <+: p) ∧
      (platform.tree.resolves platform.cwd input = true → replace = true) ∧ text = platform.display p

-- Between two values: at a place, each text is related to the one that stands for it, all else is kept.
def Follows (R : Text → Text → Prop) : List Place → Json F → Json F → Prop
  | [], v, v' => (∃ text text', v = .string text ∧ v' = .string text' ∧ R text text') ∨ v.asStr = none ∧ v' = v
  | .key key :: rest, v, v' =>
    (∃ w w', get v key = some w ∧ get v' key = some w' ∧ Follows R rest w w') ∨
      get v key = none ∧ get v' key = none
  | .each :: rest, v, v' =>
    (∃ items items', v = .array items ∧ v' = .array items' ∧ List.Forall₂ (Follows R rest) items items') ∨
      v.asArray = none ∧ v' = v

structure Clears (R : Role → Text → Text → Prop) (sites : List Site) (v v' : Json F) : Prop where
  follows : ∀ site ∈ sites, Follows (R site.role) (.key site.key :: site.rest) v v'
  others : ∀ key, key ∉ sites.map Site.key → get v' key = get v key

variable {platform policy} {R : Role → Text → Text → Prop} {sites later : List Site} {v w u : Json F}

theorem follows_congr {R : Text → Text → Prop} {key : String} {rest : List Place} {v v' w w' : Json F}
    (hv : get w key = get v key) (hv' : get w' key = get v' key) (h : Follows R (.key key :: rest) v v') :
    Follows R (.key key :: rest) w w' := by
  rw [Follows] at h ⊢
  rwa [hv, hv']

theorem Clears.refl : Clears R [] v v := ⟨fun _ hin => absurd hin List.not_mem_nil, fun _ _ => rfl⟩

theorem Clears.append (h : Clears R sites v w) (h' : Clears R later w u)
    (hdisjoint : ∀ site ∈ sites, ∀ site' ∈ later, site.key ≠ site'.key) : Clears R (sites ++ later) v u := by
  refine ⟨fun site hin => ?_, fun key hkey => ?_⟩
  · rcases List.mem_append.mp hin with hsite | hsite
    · refine follows_congr rfl (h'.others site.key ?_) (h.follows site hsite)
      rintro hin
      obtain ⟨site', hsite', heq⟩ := List.mem_map.mp hin
      exact hdisjoint site hsite site' hsite' heq.symm
    · refine follows_congr (h.others site.key ?_).symm rfl (h'.follows site hsite)
      rintro hin
      obtain ⟨site', hsite', heq⟩ := List.mem_map.mp hin
      exact hdisjoint site' hsite' site hsite heq
  · rw [List.map_append, List.mem_append, not_or] at hkey
    rw [h'.others key hkey.2, h.others key hkey.1]

theorem asStr_eq_some {v : Json F} {text : Text} (h : v.asStr = some text) : v = .string text := by
  cases v with
  | string value => exact congrArg Json.string (Option.some.inj h)
  | _ => cases h

theorem asArray_eq_some {v : Json F} {items : List (Json F)} (h : v.asArray = some items) : v = .array items := by
  cases v with
  | array values => exact congrArg Json.array (Option.some.inj h)
  | _ => cases h

theorem replaceArgument_clears {check : Route String → Except PolicyError (Path String)} {key : String} {role : Role}
    (hcheck : ∀ text p, check (platform.parse text) = .ok p → R role text (platform.display p))
    (h : replaceArgument platform check key v = .ok w) : Clears R [⟨role, key, []⟩] v w := by
  rw [replaceArgument] at h
  cases htext : getStr v key with
  | none =>
    rw [htext] at h
    obtain rfl := Except.ok.inj h
    refine ⟨fun site hin => ?_, fun _ _ => rfl⟩
    obtain rfl := List.mem_singleton.mp hin
    rw [Follows]
    cases hvalue : get v key with
    | none => exact .inr ⟨rfl, rfl⟩
    | some value =>
      rw [getStr, hvalue, Option.bind_some] at htext
      exact .inl ⟨value, value, rfl, rfl, .inr ⟨htext, rfl⟩⟩
  | some text =>
    rw [htext] at h
    obtain ⟨p, hp, hset⟩ := bind_ok h
    obtain rfl := Except.ok.inj hset
    refine ⟨fun site hin => ?_, fun other hother => ?_⟩
    · obtain rfl := List.mem_singleton.mp hin
      obtain ⟨value, hvalue, hstring⟩ := Option.bind_eq_some_iff.mp htext
      rw [Follows]
      exact .inl ⟨value, _, hvalue, get_set_self _ _ _,
        .inl ⟨text, _, asStr_eq_some hstring, rfl, hcheck text p hp⟩⟩
    · rw [List.map_singleton, List.mem_singleton] at hother
      exact get_set_of_ne hother

theorem eachOf_clears {ε : Type} {f : Json F → Except ε (Json F)} {key : String}
    (hf : ∀ item item', f item = .ok item' → Clears R sites item item') (hne : sites ≠ [])
    (h : eachOf key f v = .ok w) : Clears R (sites.map (·.inEach key)) v w := by
  obtain ⟨one, hone⟩ := List.exists_mem_of_ne_nil sites hne
  rw [eachOf] at h
  cases hitems : (get v key).bind Json.asArray with
  | none =>
    rw [hitems] at h
    obtain rfl := Except.ok.inj h
    refine ⟨fun site hin => ?_, fun _ _ => rfl⟩
    obtain ⟨site, -, rfl⟩ := List.mem_map.mp hin
    rw [Site.inEach, Follows]
    cases hvalue : get v key with
    | none => exact .inr ⟨rfl, rfl⟩
    | some value =>
      rw [hvalue, Option.bind_some] at hitems
      refine .inl ⟨value, value, rfl, rfl, ?_⟩
      rw [Follows]
      exact .inr ⟨hitems, rfl⟩
  | some items =>
    rw [hitems] at h
    obtain ⟨items', hitems', hset⟩ := bind_ok h
    obtain rfl := Except.ok.inj hset
    obtain ⟨value, hvalue, harray⟩ := Option.bind_eq_some_iff.mp hitems
    refine ⟨fun site hin => ?_, fun other hother => ?_⟩
    · obtain ⟨site, hsite, rfl⟩ := List.mem_map.mp hin
      rw [Site.inEach, Follows]
      refine .inl ⟨value, _, hvalue, get_set_self _ _ _, ?_⟩
      rw [Follows]
      refine .inl ⟨items, items', asArray_eq_some harray, rfl, ?_⟩
      exact (forall₂_of_mapM_ok hitems').imp fun item item' hitem => (hf item item' hitem).follows site hsite
    · refine get_set_of_ne fun heq => hother ?_
      rw [List.map_map]
      exact List.mem_map.mpr ⟨one, hone, heq.symm⟩

section Inputs

variable {replace : Bool} {name : String} {args args' : Json F}

def Admitted (platform : Platform) (policy : PathPolicy) (replace : Bool) (role : Role) (text text' : Text) : Prop :=
  Admits platform policy replace role (platform.parse text) text'

theorem canonicalArgument_clears {key : String} {runtime : Bool}
    (h : canonicalArgument platform policy args key runtime = .ok args') :
    Clears (Admitted platform policy replace) [⟨.read, key, []⟩] args args' := by
  refine replaceArgument_clears (fun text p hp => ?_) h
  have hread : policy.readPath platform.tree platform.cwd (platform.parse text) = .ok p := by
    cases runtime with
    | false => exact hp
    | true => exact hp
  obtain ⟨hresolve, hroot⟩ := readPath_ok.mp hread
  exact ⟨p, hresolve, hroot, rfl⟩

theorem executable_ok {input : Route String} {p : Path String} (h : executable platform policy input = .ok p) :
    platform.tree.resolve platform.cwd input = .ok p ∧ p ∈ policy.executables := by
  rw [executable] at h
  cases hresolve : platform.tree.resolve platform.cwd input with
  | error e =>
    rw [hresolve] at h
    cases h
  | ok canonical =>
    rw [hresolve] at h
    dsimp only at h
    split at h
    · rename_i hin
      obtain rfl := Except.ok.inj h
      exact ⟨rfl, hin⟩
    · cases h

theorem executable_clears (h : replaceArgument platform (executable platform policy) "compiler_path" args = .ok args') :
    Clears (Admitted platform policy replace) [⟨.executable, "compiler_path", []⟩] args args' := by
  refine replaceArgument_clears (fun text p hp => ?_) h
  obtain ⟨hresolve, hin⟩ := executable_ok hp
  exact ⟨p, hresolve, hin, rfl⟩

theorem containOutput_clears {key : String} (h : containOutput platform policy key args = .ok args') :
    Clears (Admitted platform policy (overwrite args)) [⟨.output, key, []⟩] args args' := by
  refine replaceArgument_clears (fun text p hp => ?_) h
  obtain ⟨hlands, hroot, hreplace⟩ := outputPath_ok.mp hp
  exact ⟨p, hlands, hroot, hreplace, rfl⟩

-- By induction on the keys, which are different: a later check leaves what an earlier one has put.
theorem foldlM_clears {keys : List (String × Bool)} (hnodup : (keys.map Prod.fst).Nodup)
    (h : keys.foldlM (fun args key => canonicalArgument platform policy args key.1 key.2) args = .ok args') :
    Clears (Admitted platform policy replace) (keys.map fun key => ⟨.read, key.1, []⟩) args args' := by
  induction keys generalizing args with
  | nil =>
    obtain rfl := Except.ok.inj h
    exact Clears.refl
  | cons key keys ih =>
    obtain ⟨next, hnext, hrest⟩ := foldlM_cons_ok h
    rw [List.map_cons, List.nodup_cons] at hnodup
    refine (canonicalArgument_clears hnext).append (ih hnodup.2 hrest) fun site hsite site' hsite' heq => ?_
    obtain rfl := List.mem_singleton.mp hsite
    obtain ⟨other, hother, rfl⟩ := List.mem_map.mp hsite'
    exact hnodup.1 (List.mem_map.mpr ⟨other, hother, heq.symm⟩)

theorem containEvidenceRequest_clears (h : containEvidenceRequest platform policy args = .ok args') :
    Clears (Admitted platform policy replace) evidenceSites args args' := by
  obtain ⟨request, hartifacts, hdmb⟩ := bind_ok h
  have heach : Clears (Admitted platform policy replace) [Site.inEach "artifacts" ⟨.read, "path", []⟩] args request :=
    eachOf_clears (fun _ _ hitem => canonicalArgument_clears hitem) (List.cons_ne_nil _ _) hartifacts
  refine heach.append (canonicalArgument_clears hdmb) fun site hsite site' hsite' => ?_
  obtain rfl := List.mem_singleton.mp hsite
  obtain rfl := List.mem_singleton.mp hsite'
  simp [Site.inEach]

theorem nodup_namedKeys (name : String) : ((namedKeys name).map Prod.fst).Nodup := by
  unfold namedKeys
  split <;> simp

theorem containNamed_clears (h : containNamed platform policy name args = .ok args') :
    Clears (Admitted platform policy replace) (namedSites name) args args' := by
  rw [containNamed] at h
  rw [namedSites]
  split at h
  · rename_i hname
    rw [if_pos hname]
    exact containEvidenceRequest_clears h
  · rename_i hsummary
    rw [if_neg hsummary]
    split at h
    · rename_i hname
      rw [if_pos hname]
      exact eachOf_clears (fun _ _ hrun => containEvidenceRequest_clears hrun) (List.cons_ne_nil _ _) h
    · rename_i hcompare
      rw [if_neg hcompare]
      exact foldlM_clears (nodup_namedKeys name) h

theorem containOptional_clears
    (h : (optionalKeys name).foldlM (canonicalOptionalArgument platform policy) args = .ok args') :
    Clears (Admitted platform policy replace) (optionalSites name) args args' := by
  have hsites : optionalSites name = ((optionalKeys name).map (·, false)).map fun key => ⟨.read, key.1, []⟩ := by
    rw [optionalSites, List.map_map]
    rfl
  rw [hsites]
  refine foldlM_clears ?_ ?_
  · rw [List.map_map, optionalKeys]
    split
    · simp
    · split
      · simp
      · split <;> simp
  · rw [List.foldlM_map]
    exact h

theorem named_ne_optional : ∀ site ∈ namedSites name, ∀ site' ∈ optionalSites name, site.key ≠ site'.key := by
  intro site hsite site' hsite'
  rw [optionalSites, optionalKeys] at hsite'
  split at hsite'
  · rename_i hname
    subst hname
    simp [namedSites, namedKeys] at hsite
    simp at hsite'
    rcases hsite' with rfl | rfl <;> simp [hsite]
  · split at hsite'
    · rename_i hname
      subst hname
      simp [namedSites, namedKeys] at hsite
    · split at hsite'
      · rename_i hname
        subst hname
        simp [namedSites, namedKeys] at hsite
        simp at hsite'
        simp [hsite, hsite']
      · simp at hsite'

theorem inputs_ne_executable :
    ∀ site ∈ namedSites name ++ optionalSites name, ∀ site' ∈ executableSites name, site.key ≠ site'.key := by
  intro site hsite site' hsite'
  rw [executableSites] at hsite'
  split at hsite'
  · rename_i hname
    subst hname
    simp [namedSites, namedKeys, optionalSites, optionalKeys] at hsite
    obtain rfl := List.mem_singleton.mp hsite'
    rcases hsite with rfl | rfl | rfl <;> simp
  · cases hsite'

theorem inputs_ne_output : ∀ site ∈ inputSites name, ∀ site' ∈ outputSites name, site.key ≠ site'.key := by
  intro site hsite site' hsite'
  rw [outputSites] at hsite'
  split at hsite'
  · rename_i hname
    subst hname
    simp [inputSites, namedSites, namedKeys, optionalSites, optionalKeys, executableSites] at hsite
    obtain rfl := List.mem_singleton.mp hsite'
    simp [hsite]
  · split at hsite'
    · rename_i hname
      subst hname
      simp [inputSites, namedSites, namedKeys, optionalSites, optionalKeys, executableSites] at hsite
    · cases hsite'

theorem containInputs_clears (h : containInputs platform policy name args = .ok args') :
    Clears (Admitted platform policy replace) (inputSites name) args args' := by
  obtain ⟨named, hnamed, h⟩ := bind_ok h
  obtain ⟨optional, hoptional, h⟩ := bind_ok h
  have hinputs := (@containNamed_clears F platform policy replace _ _ _ hnamed).append (containOptional_clears hoptional)
    named_ne_optional
  refine hinputs.append ?_ inputs_ne_executable
  rw [executableSites]
  split at h
  · rename_i hname
    rw [if_pos hname]
    exact executable_clears h
  · rename_i hname
    rw [if_neg hname]
    obtain rfl := Except.ok.inj h
    exact Clears.refl

theorem ne_overwrite_namedKeys : ∀ key ∈ namedKeys name, key.1 ≠ "overwrite" := by
  unfold namedKeys
  split <;> simp

theorem ne_overwrite_optionalKeys : ∀ key ∈ optionalKeys name, key ≠ "overwrite" := by
  unfold optionalKeys
  split
  · simp
  · split
    · simp
    · split <;> simp

theorem overwrite_inputs (h : containInputs platform policy name args = .ok args') :
    overwrite args' = overwrite args := by
  have hsame : get args' "overwrite" = get args "overwrite" := by
    refine (@containInputs_clears F platform policy false _ _ _ h).others _ ?_
    rw [inputSites, List.map_append, List.map_append, List.mem_append, List.mem_append, not_or, not_or]
    refine ⟨⟨fun hin => ?_, fun hin => ?_⟩, fun hin => ?_⟩
    · obtain ⟨site, hsite, heq⟩ := List.mem_map.mp hin
      rw [namedSites] at hsite
      split at hsite
      · simp [evidenceSites, Site.inEach] at hsite
        rcases hsite with rfl | rfl <;> simp at heq
      · split at hsite
        · simp [evidenceSites, Site.inEach] at hsite
          rcases hsite with rfl | rfl <;> simp at heq
        · obtain ⟨key, hkey, rfl⟩ := List.mem_map.mp hsite
          exact ne_overwrite_namedKeys key hkey heq
    · obtain ⟨site, hsite, heq⟩ := List.mem_map.mp hin
      obtain ⟨key, hkey, rfl⟩ := List.mem_map.mp hsite
      exact ne_overwrite_optionalKeys key hkey heq
    · rw [executableSites] at hin
      split at hin
      · simp at hin
      · cases hin
  rw [overwrite, overwrite, hsame]

theorem Follows.getStr_some {R : Text → Text → Prop} {key : String} {v v' : Json F} {text' : Text}
    (h : Follows R [.key key] v v') (htext : getStr v' key = some text') :
    ∃ text, getStr v key = some text ∧ R text text' := by
  obtain ⟨w', hw', hstring⟩ := Option.bind_eq_some_iff.mp htext
  rw [Follows] at h
  rcases h with ⟨w, u, hw, hu, hfollows⟩ | ⟨-, hnone⟩
  · rw [hw'] at hu
    obtain rfl := Option.some.inj hu
    rw [Follows] at hfollows
    rcases hfollows with ⟨text, own, rfl, rfl, hr⟩ | ⟨hother, rfl⟩
    · obtain rfl : own = text' := Option.some.inj hstring
      exact ⟨text, by rw [getStr, hw]; rfl, hr⟩
    · rw [hstring] at hother
      cases hother
  · rw [hw'] at hnone
    cases hnone

theorem Follows.getStr_none {R : Text → Text → Prop} {key : String} {v v' : Json F}
    (h : Follows R [.key key] v v') (hnone : getStr v' key = none) : getStr v key = none := by
  rw [Follows] at h
  rcases h with ⟨w, w', hw, hw', hfollows⟩ | ⟨hv, -⟩
  · rw [getStr, hw', Option.bind_some] at hnone
    rw [Follows] at hfollows
    rcases hfollows with ⟨text, own, rfl, rfl, hr⟩ | ⟨hother, -⟩
    · cases hnone
    · rw [getStr, hw, Option.bind_some, hother]
  · rw [getStr, hv, Option.bind_none]

theorem containInputs_nil (h : inputSites name = []) : containInputs platform policy name args = .ok args := by
  rw [inputSites, List.append_eq_nil_iff, List.append_eq_nil_iff] at h
  obtain ⟨⟨hnamed, hoptional⟩, hexecutable⟩ := h
  have hkeys : containNamed platform policy name args = .ok args := by
    rw [namedSites] at hnamed
    rw [containNamed]
    split at hnamed
    · cases hnamed
    · rename_i hsummary
      rw [if_neg hsummary]
      split at hnamed
      · cases hnamed
      · rename_i hcompare
        rw [if_neg hcompare, List.map_eq_nil_iff.mp hnamed]
        rfl
  have hcompile : name ≠ "dm_compile" := by
    rintro rfl
    cases hexecutable
  rw [containInputs, hkeys, List.map_eq_nil_iff.mp hoptional]
  change (if name = "dm_compile" then _ else _) = _
  rw [if_neg hcompile]
  rfl

end Inputs

def pathSites (name : String) : List Site := inputSites name ++ outputSites name

-- What a rendered map is written to: the path that is given, or the map's own with another extension.
def RendersTo (platform : Platform) (policy : PathPolicy) (args : Json F) (input : Route String) : Prop :=
  match getStr args "output_path" with
  | some output => input = platform.parse output
  | none => ∃ map text, getStr args "dmm_path" = some map ∧ Admitted platform policy false .read map text ∧
      input = withExtension (platform.parse text) "png".toList

-- Accepted arguments: each path is in place of one that the policy lets the tool use, all else is kept.
structure Cleared (platform : Platform) (policy : PathPolicy) (name : String) (args args' : Json F) : Prop where
  follows : ∀ site ∈ pathSites name,
    Follows (Admitted platform policy (overwrite args) site.role) (.key site.key :: site.rest) args args'
  rendered : name = "dm_render_map" → ∃ input text, RendersTo platform policy args input ∧
    get args' "output_path" = some (.string text) ∧ Admits platform policy (overwrite args) .output input text
  others : ∀ key, key ∉ (pathSites name).map Site.key → (name = "dm_render_map" → key ≠ "output_path") →
    get args' key = get args key

def Answers (platform : Platform) (policy : PathPolicy) (name : String) (args : Json F) :
    Except Failure (Json F) → Prop
  | .ok args' => Cleared platform policy name args args'
  | .error (.refused _) => pathSites name ≠ []
  | .error .panics =>
    name = "dm_render_map" ∧ getStr args "output_path" = none ∧ getStr args "dmm_path" = none

section Answers

variable {name : String} {args mid args' : Json F}

theorem Clears.cleared (h : Clears (Admitted platform policy (overwrite args)) (pathSites name) args args')
    (hname : name ≠ "dm_render_map") : Cleared platform policy name args args' :=
  ⟨h.follows, fun heq => absurd heq hname, fun key hkey _ => h.others key hkey⟩

theorem output_answers {key : String} (hname : name ≠ "dm_render_map")
    (hsites : outputSites name = [⟨.output, key, []⟩])
    (hinputs : Clears (Admitted platform policy (overwrite args)) (inputSites name) args mid)
    (hsame : overwrite mid = overwrite args) :
    Answers platform policy name args ((containOutput platform policy key mid).mapError .refused) := by
  cases houtput : containOutput platform policy key mid with
  | error e =>
    rw [Except.mapError, Answers, pathSites, hsites]
    exact List.append_ne_nil_of_right_ne_nil _ (List.cons_ne_nil _ _)
  | ok args' =>
    rw [Except.mapError, Answers]
    have hwritten := containOutput_clears houtput
    rw [hsame, ← hsites] at hwritten
    exact (hinputs.append hwritten inputs_ne_output).cleared hname

theorem inputSites_render : inputSites "dm_render_map" = [⟨.read, "dmm_path", []⟩] := by
  simp [inputSites, namedSites, namedKeys, optionalSites, optionalKeys, executableSites]

theorem pathSites_render : pathSites "dm_render_map" = [⟨.read, "dmm_path", []⟩] := by
  rw [pathSites, inputSites_render]
  simp [outputSites]

theorem rendered_answers
    (hinputs : Clears (Admitted platform policy (overwrite args)) (inputSites "dm_render_map") args mid)
    (hsame : overwrite mid = overwrite args) :
    Answers platform policy "dm_render_map" args (containRendered platform policy mid) := by
  rw [inputSites_render] at hinputs
  have hmap := hinputs.follows _ (List.mem_singleton_self _)
  have houtput : getStr mid "output_path" = getStr args "output_path" := by
    rw [getStr, getStr, hinputs.others _ (by simp)]
  cases hpath : renderedPath platform mid with
  | error e =>
    rw [containRendered, hpath]
    rw [renderedPath, houtput] at hpath
    split at hpath
    · cases hpath
    · rename_i hnone
      split at hpath
      · cases hpath
      · rename_i hmissing
        cases hpath
        exact ⟨rfl, hnone, hmap.getStr_none hmissing⟩
  | ok input =>
    have hrenders : RendersTo platform policy args input := by
      rw [RendersTo]
      rw [renderedPath, houtput] at hpath
      split at hpath
      · exact (Except.ok.inj hpath).symm
      · split at hpath
        · rename_i text htext
          obtain ⟨map, hmapped, hread⟩ := hmap.getStr_some htext
          exact ⟨map, text, hmapped, hread, (Except.ok.inj hpath).symm⟩
        · cases hpath
    cases hwritten : policy.outputPath platform.tree platform.cwd input (overwrite mid) with
    | error e =>
      have hrun : containRendered platform policy mid = .error (.refused e) := by
        rw [containRendered, hpath]
        simp only [bind, Except.bind, hwritten, Except.mapError]
      rw [hrun, Answers, pathSites_render]
      exact List.cons_ne_nil _ _
    | ok p =>
      have hrun : containRendered platform policy mid =
          .ok (set mid "output_path" (.string (platform.display p))) := by
        rw [containRendered, hpath]
        simp only [bind, Except.bind, hwritten, Except.mapError, pure, Except.pure]
      rw [hrun, Answers]
      obtain ⟨hlands, hroot, hreplace⟩ := outputPath_ok.mp hwritten
      rw [hsame] at hreplace
      refine ⟨fun site hin => ?_, fun _ => ?_, fun key hkey hother => ?_⟩
      · rw [pathSites_render, List.mem_singleton] at hin
        obtain rfl := hin
        exact follows_congr rfl (get_set_of_ne (by simp)) hmap
      · exact ⟨input, _, hrenders, get_set_self _ _ _, p, hlands, hroot, hreplace, rfl⟩
      · rw [pathSites_render] at hkey
        rw [get_set_of_ne (hother rfl)]
        exact hinputs.others key hkey

end Answers

end ToolArguments
