import MeridianMcp.BuildProvenance.Preparation
import MeridianMcp.DmiDecode.Metadata

namespace DmiDecode

open MeridianMcp Dmi Machine Fallible BuildProvenance

-- The two parts of a text around the first occurrence of a separator.
def splitOnce (separator : Text) : Text → Option (Text × Text)
  | [] => none
  | c :: text =>
    if separator.isPrefixOf (c :: text) then some ([], (c :: text).drop separator.length)
    else (splitOnce separator text).map fun parts => (c :: parts.1, parts.2)

def digits (text : Text) : Option Nat :=
  if text ≠ [] ∧ text.all Char.isDigit then
    some (text.foldl (fun n c => 10 * n + (c.toNat - '0'.toNat)) 0)
  else none

-- The unsigned number below a bound that a text spells; a plus sign may stand before its digits.
def parseUnsigned (bound : Nat) (text : Text) : Option Nat :=
  (digits (if text.head? = some '+' then text.tail else text)).filter (· < bound)

inductive Setting where
  | dirs
  | frames
  | delay
  | loop
  | flag
  deriving DecidableEq, Repr

inductive Key where
  | dimension
  | state
  | setting (s : Setting)
  | hotspot
  deriving DecidableEq, Repr

def keyOf (name : Text) : Option Key :=
  match String.ofList name with
  | "width" => some .dimension
  | "height" => some .dimension
  | "state" => some .state
  | "dirs" => some (.setting .dirs)
  | "frames" => some (.setting .frames)
  | "delay" => some (.setting .delay)
  | "loop" => some (.setting .loop)
  | "rewind" => some (.setting .flag)
  | "movement" => some (.setting .flag)
  | "hotspot" => some .hotspot
  | _ => none

def property (line : Text) : Except DmiError (Key × Text) :=
  match splitOnce " = ".toList (trim line) with
  | none => .error (.invalid "malformed DMI metadata line")
  | some (name, value) =>
    match keyOf name with
    | none => .error (.invalid "unknown DMI metadata property")
    | some key => .ok (key, value)

structure OpenState where
  dirs : Nat
  frames : Nat
  hasFrames : Bool
  hasDelay : Bool
  deriving DecidableEq, Repr

structure Scan where
  states : Nat
  total : Nat
  state : Option OpenState
  deriving DecidableEq, Repr

def delays (value : Text) : List Text := value.splitOn ','

def stateName (value : Text) : Prop :=
  2 ≤ (utf8 value).length ∧ value.head? = some '"' ∧ value.getLast? = some '"'

instance (value : Text) : Decidable (stateName value) :=
  inferInstanceAs (Decidable (_ ∧ _ ∧ _))

-- `finite` tells whether a text spells a 32-bit floating point number that is finite.
variable (limits : ServerLimits) (finite : Text → Bool)

def set (state : OpenState) (value : Text) : Setting → Except DmiError OpenState
  | .dirs =>
    match (parseUnsigned wordSize value).filter fun n => n = 1 || n = 4 || n = 8 with
    | some n => .ok { state with dirs := n }
    | none => .error (.invalid "invalid DMI direction count")
  | .frames => do
    ensure (¬(state.hasFrames ∨ state.hasDelay)) (.invalid "duplicate DMI frames property")
    match parseUnsigned wordSize value with
    | some n => .ok { state with frames := n, hasFrames := true }
    | none => .error (.invalid "invalid DMI frame count")
  | .delay => do
    ensure (¬state.hasDelay) (.invalid "duplicate DMI delay property")
    ensure ((delays value).length ≤ limits.maxDmiFrames) (.limit "max_dmi_frames")
    ensure ((delays value).all finite) (.invalid "invalid DMI delay")
    .ok { state with
      frames := if state.hasFrames then state.frames else (delays value).length
      hasDelay := true }
  | .loop => do
    ensure ((parseUnsigned (2 ^ 32) value).isSome) (.invalid "invalid DMI loop count")
    .ok state
  | .flag => do
    ensure ((parseUnsigned (2 ^ 8) value).isSome) (.invalid "invalid DMI state flag")
    .ok state

-- The total with the state that is open.
def close (scan : Scan) : Except DmiError Nat :=
  match scan.state with
  | some state => boundedFrames limits state.dirs state.frames scan.total
  | none => .ok scan.total

def scanProperty (scan : Scan) (value : Text) : Key → Run DmiError Scan
  | .dimension => do
    lift (ensure ((parseUnsigned (2 ^ 32) value).any (0 < ·)) (.invalid "invalid DMI cell dimensions"))
    .ok scan
  | .state => do
    let total ← lift (close limits scan)
    let states ← add scan.states 1
    lift (ensure (states ≤ limits.maxDmiStates) (.limit "max_dmi_states"))
    lift (ensure (stateName value) (.invalid "malformed DMI state name"))
    .ok ⟨states, total, some ⟨1, 1, false, false⟩⟩
  | .setting setting =>
    match scan.state with
    | none => fail (.invalid "DMI state property without state")
    | some state => do
      let state ← lift (set limits finite state value setting)
      let _ ← lift (boundedFrames limits state.dirs state.frames scan.total)
      .ok { scan with state := some state }
  | .hotspot => .ok scan

def scanLine (scan : Scan) (line : Text) : Run DmiError Scan := do
  let (key, value) ← lift (property line)
  scanProperty limits finite scan value key

def endMarker : Text := "# END DMI".toList

def scanLines (scan : Scan) : List Text → Run DmiError Scan
  | [] => .ok scan
  | line :: rest =>
    if endMarker.isPrefixOf line then .ok scan
    else do
      let scan ← scanLine limits finite scan line
      scanLines scan rest

def header : List Text := ["# BEGIN DMI".toList, "version = 4.0".toList]

def preflightMetadata (text : Text) : Run DmiError Unit :=
  if text = [] then .ok ()
  else do
    lift (ensure ((lines text).take 2 = header) (.invalid "invalid DMI metadata header"))
    let scan ← scanLines limits finite ⟨0, 0, none⟩ ((lines text).drop 2)
    let _ ← lift (close limits scan)
    .ok ()

section Reference

def properties (lines : List Text) : List (Key × Text) :=
  (lines.takeWhile fun line => !endMarker.isPrefixOf line).filterMap fun line =>
    (property line).toOption

-- The settings that come before the next state.
def settings : List (Key × Text) → List (Setting × Text)
  | [] => []
  | (.state, _) :: _ => []
  | (.setting s, value) :: rest => (s, value) :: settings rest
  | (.dimension, _) :: rest => settings rest
  | (.hotspot, _) :: rest => settings rest

def stateSettings : List (Key × Text) → List (List (Setting × Text))
  | [] => []
  | (.state, _) :: rest => settings rest :: stateSettings rest
  | (.setting _, _) :: rest => stateSettings rest
  | (.dimension, _) :: rest => stateSettings rest
  | (.hotspot, _) :: rest => stateSettings rest

def valuesOf (setting : Setting) (block : List (Setting × Text)) : List Text :=
  (block.filter fun entry => entry.1 = setting).map Prod.snd

def numbersOf (setting : Setting) (block : List (Setting × Text)) : List Nat :=
  (valuesOf setting block).filterMap (parseUnsigned wordSize)

def dirsOf (block : List (Setting × Text)) : Nat := (numbersOf .dirs block).getLast?.getD 1

def frameCount (block : List (Setting × Text)) : Nat :=
  match (numbersOf .frames block).head?, (valuesOf .delay block).head? with
  | some frames, _ => frames
  | none, some value => (delays value).length
  | none, none => 1

def imagesIn (entries : List (Key × Text)) : Nat :=
  ((stateSettings entries).map fun block => dirsOf block * frameCount block).sum

def entriesOf (text : Text) : List (Key × Text) := properties ((lines text).drop 2)

-- The states of a text, each with the settings it is given.
def statesOf (text : Text) : List (List (Setting × Text)) := stateSettings (entriesOf text)

def imagesOf (text : Text) : Nat := imagesIn (entriesOf text)

end Reference

section Settings

variable {limits : ServerLimits} {finite : Text → Bool} {state state' : OpenState} {value : Text}
  {setting : Setting} {block : List (Setting × Text)}

-- What the settings still to come make of the state that is open.
def dirsFrom (state : OpenState) (block : List (Setting × Text)) : Nat :=
  (numbersOf .dirs block).getLast?.getD state.dirs

def framesFrom (state : OpenState) (block : List (Setting × Text)) : Nat :=
  if state.hasFrames then state.frames
  else match (numbersOf .frames block).head? with
    | some frames => frames
    | none =>
      if state.hasDelay then state.frames
      else (((valuesOf .delay block).head?.map delays).map List.length).getD state.frames

theorem valuesOf_cons (setting other : Setting) (value : Text) :
    valuesOf setting ((other, value) :: block) =
      if other = setting then value :: valuesOf setting block else valuesOf setting block := by
  rw [valuesOf, List.filter_cons]
  by_cases h : other = setting
  · simp only [h, decide_true, if_true, List.map_cons]
    rfl
  · simp only [h, decide_false, Bool.false_eq_true, if_false]
    rfl

theorem numbersOf_cons (setting other : Setting) (value : Text) :
    numbersOf setting ((other, value) :: block) =
      if other = setting then
        match parseUnsigned wordSize value with
        | some n => n :: numbersOf setting block
        | none => numbersOf setting block
      else numbersOf setting block := by
  rw [numbersOf, valuesOf_cons]
  split
  · rw [List.filterMap_cons]
    cases parseUnsigned wordSize value <;> rfl
  · rfl

-- How a setting that is accepted changes the state.
inductive Sets (limits : ServerLimits) (state : OpenState) (value : Text) :
    Setting → OpenState → Prop
  | dirs {n : Nat} (hn : parseUnsigned wordSize value = some n) :
    Sets limits state value .dirs { state with dirs := n }
  | frames {n : Nat} (hn : parseUnsigned wordSize value = some n) (hframes : state.hasFrames = false)
    (hdelay : state.hasDelay = false) :
    Sets limits state value .frames { state with frames := n, hasFrames := true }
  | delay (hdelay : state.hasDelay = false) (hcount : (delays value).length ≤ limits.maxDmiFrames) :
    Sets limits state value .delay { state with
      frames := if state.hasFrames then state.frames else (delays value).length
      hasDelay := true }
  | loop : Sets limits state value .loop state
  | flag : Sets limits state value .flag state

theorem sets_of_ok (h : set limits finite state value setting = .ok state') :
    Sets limits state value setting state' := by
  cases setting with
  | dirs =>
    rw [set] at h
    split at h
    · rename_i n hn
      cases h
      exact .dirs (Option.filter_eq_some_iff.mp hn).1
    · cases h
  | frames =>
    rw [set, ensure_bind_ok_iff] at h
    obtain ⟨hfresh, h⟩ := h
    rw [not_or, Bool.not_eq_true, Bool.not_eq_true] at hfresh
    split at h
    · rename_i n hn
      cases h
      exact .frames hn hfresh.1 hfresh.2
    · cases h
  | delay =>
    rw [set, ensure_bind_ok_iff, ensure_bind_ok_iff, ensure_bind_ok_iff] at h
    obtain ⟨hdelay, hcount, -, h⟩ := h
    cases h
    exact .delay (Bool.not_eq_true _ ▸ hdelay) hcount
  | loop =>
    rw [set, ensure_bind_ok_iff] at h
    cases h.2
    exact .loop
  | flag =>
    rw [set, ensure_bind_ok_iff] at h
    cases h.2
    exact .flag

theorem dirsFrom_set (h : set limits finite state value setting = .ok state') :
    dirsFrom state ((setting, value) :: block) = dirsFrom state' block := by
  cases sets_of_ok h with
  | dirs hn => simp [dirsFrom, numbersOf_cons, hn, List.getLast?_cons]
  | frames => simp [dirsFrom, numbersOf_cons]
  | delay => simp [dirsFrom, numbersOf_cons]
  | loop => simp [dirsFrom, numbersOf_cons]
  | flag => simp [dirsFrom, numbersOf_cons]

theorem framesFrom_set (h : set limits finite state value setting = .ok state') :
    framesFrom state ((setting, value) :: block) = framesFrom state' block := by
  cases sets_of_ok h with
  | dirs => simp [framesFrom, numbersOf_cons, valuesOf_cons]
  | frames hn hframes hdelay => simp [framesFrom, numbersOf_cons, hn, hframes]
  | delay hdelay hcount =>
    cases hframes : state.hasFrames with
    | true => simp [framesFrom, hframes]
    | false => simp [framesFrom, numbersOf_cons, valuesOf_cons, hframes, hdelay]
  | loop => simp [framesFrom, numbersOf_cons, valuesOf_cons]
  | flag => simp [framesFrom, numbersOf_cons, valuesOf_cons]

theorem dirsFrom_fresh : dirsFrom ⟨1, 1, false, false⟩ block = dirsOf block := rfl

theorem framesFrom_fresh : framesFrom ⟨1, 1, false, false⟩ block = frameCount block := by
  rw [framesFrom, frameCount, if_neg Bool.false_ne_true]
  cases (numbersOf .frames block).head? with
  | some frames => rfl
  | none =>
    cases (valuesOf .delay block).head? with
    | some value => rfl
    | none => rfl

end Settings

section Scan

variable {limits : ServerLimits} {finite : Text → Bool} {scan scan' : Scan}

-- The images of the states the scan has met, with those of the properties still to come.
def Scan.images (scan : Scan) (rest : List (Key × Text)) : Nat :=
  scan.total +
    (match scan.state with
      | some state => dirsFrom state (settings rest) * framesFrom state (settings rest)
      | none => 0) +
    imagesIn rest

def Scan.count (scan : Scan) (rest : List (Key × Text)) : Nat :=
  scan.states + (stateSettings rest).length

structure Scan.Bounded (limits : ServerLimits) (scan : Scan) : Prop where
  states : scan.states ≤ limits.maxDmiStates
  empty : scan.state = none → scan.total = 0

theorem framesFrom_nil (state : OpenState) : framesFrom state [] = state.frames := by
  rw [framesFrom]
  split
  · rfl
  · change (if state.hasDelay then state.frames else state.frames) = state.frames
    exact ite_id state.frames

theorem close_eq_ok {n : Nat} (hbounded : scan.Bounded limits) :
    close limits scan = .ok n → n = scan.images [] ∧ n ≤ limits.maxDmiFrames ∧ n < 2 ^ 32 := by
  intro h
  rw [close] at h
  rw [Scan.images]
  cases hstate : scan.state with
  | none =>
    rw [hstate] at h
    obtain rfl := Except.ok.inj h
    rw [hbounded.empty hstate]
    exact ⟨rfl, Nat.zero_le _, Nat.two_pow_pos 32⟩
  | some state =>
    rw [hstate] at h
    obtain ⟨hn, hframes, hword⟩ := boundedFrames_eq_ok.mp h
    refine ⟨?_, hframes, hword⟩
    simp only [settings, framesFrom_nil]
    exact hn

theorem scanProperty_images {value : Text} {key : Key} {rest : List (Key × Text)}
    (h : scanProperty limits finite scan value key = .ok scan') (hbounded : scan.Bounded limits) :
    scan.images ((key, value) :: rest) = scan'.images rest ∧
      scan.count ((key, value) :: rest) = scan'.count rest ∧ scan'.Bounded limits := by
  cases key with
  | dimension =>
    obtain ⟨-, -, h⟩ := bind_ok h
    cases h
    exact ⟨rfl, rfl, hbounded⟩
  | hotspot =>
    cases h
    exact ⟨rfl, rfl, hbounded⟩
  | state =>
    obtain ⟨total, htotal, h⟩ := bind_ok h
    obtain ⟨states, hadd, h⟩ := bind_ok h
    obtain ⟨⟨⟩, hstates, h⟩ := bind_ok h
    obtain ⟨-, -, h⟩ := bind_ok h
    cases h
    obtain ⟨htotal, -, -⟩ := close_eq_ok hbounded (lift_eq_ok.mp htotal)
    obtain ⟨rfl, -⟩ := add_eq_ok.mp hadd
    refine ⟨?_, ?_, ensure_ok_iff.mp (lift_eq_ok.mp hstates), nofun⟩
    · simp only [Scan.images, imagesIn, settings, stateSettings, List.map_nil, List.sum_nil,
        List.map_cons, List.sum_cons, dirsFrom_fresh, framesFrom_fresh] at htotal ⊢
      omega
    · simp only [Scan.count, stateSettings, List.length_cons]
      omega
  | setting setting =>
    rw [scanProperty] at h
    cases hstate : scan.state with
    | none =>
      rw [hstate] at h
      cases h
    | some state =>
      rw [hstate] at h
      obtain ⟨state', hset, h⟩ := bind_ok h
      obtain ⟨-, -, h⟩ := bind_ok h
      cases h
      have hset := lift_eq_ok.mp hset
      refine ⟨?_, rfl, hbounded.states, nofun⟩
      simp only [Scan.images, imagesIn, hstate, settings, stateSettings, dirsFrom_set hset,
        framesFrom_set hset]

theorem properties_cons {line : Text} {rest : List Text} {entry : Key × Text}
    (hmarker : endMarker.isPrefixOf line = false) (hline : property line = .ok entry) :
    properties (line :: rest) = entry :: properties rest := by
  simp [properties, hmarker, hline, Except.toOption]

theorem properties_marker {line : Text} {rest : List Text}
    (hmarker : endMarker.isPrefixOf line = true) : properties (line :: rest) = [] := by
  simp [properties, hmarker]

theorem scanLines_images {text : List Text} (h : scanLines limits finite scan text = .ok scan')
    (hbounded : scan.Bounded limits) :
    scan.images (properties text) = scan'.images [] ∧
      scan.count (properties text) = scan'.count [] ∧ scan'.Bounded limits := by
  induction text generalizing scan with
  | nil =>
    cases h
    exact ⟨rfl, rfl, hbounded⟩
  | cons line rest ih =>
    rw [scanLines] at h
    split at h
    · rename_i hmarker
      cases h
      rw [properties_marker hmarker]
      exact ⟨rfl, rfl, hbounded⟩
    · rename_i hmarker
      obtain ⟨next, hnext, h⟩ := bind_ok h
      obtain ⟨⟨key, value⟩, hline, hnext⟩ := bind_ok hnext
      obtain ⟨himages, hcount, hbounded⟩ := scanProperty_images hnext hbounded
      rw [properties_cons (Bool.not_eq_true _ ▸ hmarker) (lift_eq_ok.mp hline), himages, hcount]
      exact ih h hbounded

-- The counter of states grows by at most one a line.
theorem scanProperty_states {value : Text} {key : Key}
    (h : scanProperty limits finite scan value key = .ok scan') :
    scan'.states ≤ scan.states + 1 := by
  cases key with
  | dimension =>
    obtain ⟨-, -, h⟩ := bind_ok h
    cases h
    exact Nat.le_succ _
  | hotspot =>
    cases h
    exact Nat.le_succ _
  | state =>
    obtain ⟨total, -, h⟩ := bind_ok h
    obtain ⟨states, hadd, h⟩ := bind_ok h
    obtain ⟨-, -, h⟩ := bind_ok h
    obtain ⟨-, -, h⟩ := bind_ok h
    cases h
    exact (add_eq_ok.mp hadd).1.le
  | setting setting =>
    rw [scanProperty] at h
    cases hstate : scan.state with
    | none =>
      rw [hstate] at h
      cases h
    | some state =>
      rw [hstate] at h
      obtain ⟨state', -, h⟩ := bind_ok h
      obtain ⟨-, -, h⟩ := bind_ok h
      cases h
      exact Nat.le_succ _

theorem sound_scanProperty {value : Text} {key : Key} (h : scan.states + 1 < wordSize) :
    Sound (scanProperty limits finite scan value key) := by
  cases key with
  | dimension => exact sound_bind (sound_lift _) fun _ _ => sound_ok _
  | hotspot => exact sound_ok _
  | state =>
    refine sound_bind (sound_lift _) fun total _ => ?_
    refine sound_bind (by rw [add_ok h]; exact sound_ok _) fun states _ => ?_
    refine sound_bind (sound_lift _) fun _ _ => ?_
    exact sound_bind (sound_lift _) fun _ _ => sound_ok _
  | setting setting =>
    rw [scanProperty]
    split
    · exact sound_fail _
    · refine sound_bind (sound_lift _) fun state _ => ?_
      exact sound_bind (sound_lift _) fun _ _ => sound_ok _

theorem sound_scanLines {text : List Text} (h : scan.states + text.length < wordSize) :
    Sound (scanLines limits finite scan text) := by
  induction text generalizing scan with
  | nil => exact sound_ok _
  | cons line rest ih =>
    rw [List.length_cons] at h
    rw [scanLines]
    split
    · exact sound_ok _
    · refine sound_bind (sound_bind (sound_lift _) fun entry _ => ?_) fun next hnext => ?_
      · exact sound_scanProperty (by omega)
      · obtain ⟨entry, -, hnext⟩ := bind_ok hnext
        have hstates := scanProperty_states hnext
        exact ih (by omega)

end Scan

section Lines

theorem length_split_le (d : Char) (text : Text) : (Delimited.split d text).length ≤ text.length := by
  induction text with
  | nil => exact Nat.le_refl 0
  | cons c text ih =>
    rw [Delimited.split]
    split
    · exact Nat.succ_le_succ ih
    · split
      · exact Nat.succ_le_succ (Nat.zero_le _)
      · rename_i heq
        rw [heq] at ih
        exact ih.trans (Nat.le_succ _)

theorem length_le_utf8 (text : Text) : text.length ≤ (utf8 text).length := by
  induction text with
  | nil => exact Nat.le_refl 0
  | cons c text ih =>
    have hsize := c.utf8Size_pos
    rw [length_utf8_cons, List.length_cons]
    omega

theorem length_lines_le (text : Text) : (lines text).length ≤ (utf8 text).length := by
  rw [lines, List.length_map]
  exact (length_split_le '\n' text).trans (length_le_utf8 text)

end Lines

variable {limits : ServerLimits} {finite : Text → Bool} {text : Text}

theorem preflight_ok (h : preflightMetadata limits finite text = .ok ()) :
    (statesOf text).length ≤ limits.maxDmiStates ∧ imagesOf text ≤ limits.maxDmiFrames ∧
      imagesOf text < 2 ^ 32 := by
  rw [preflightMetadata] at h
  split at h
  · rename_i hempty
    subst hempty
    exact ⟨Nat.zero_le _, Nat.zero_le _, Nat.two_pow_pos 32⟩
  · obtain ⟨-, -, h⟩ := bind_ok h
    obtain ⟨scan, hscan, h⟩ := bind_ok h
    obtain ⟨total, hclose, -⟩ := bind_ok h
    obtain ⟨himages, hcount, hbounded⟩ :=
      scanLines_images hscan ⟨Nat.zero_le _, fun _ => rfl⟩
    obtain ⟨rfl, hframes, hword⟩ := close_eq_ok hbounded (lift_eq_ok.mp hclose)
    have htotal : imagesOf text = scan.images [] := by
      rw [← himages]
      simp only [Scan.images, Nat.zero_add]
      rfl
    have hstates : (statesOf text).length = scan.states := by
      simp only [Scan.count, Nat.zero_add, stateSettings, List.length_nil, Nat.add_zero] at hcount
      exact hcount
    rw [htotal, hstates]
    exact ⟨hbounded.states, hframes, hword⟩

theorem sound_preflight (h : (utf8 text).length < wordSize) :
    Sound (preflightMetadata limits finite text) := by
  rw [preflightMetadata]
  split
  · exact sound_ok _
  · refine sound_bind (sound_lift _) fun _ _ => ?_
    refine sound_bind (sound_scanLines ?_) fun _ _ => ?_
    · have hlines := length_lines_le text
      change 0 + ((lines text).drop 2).length < wordSize
      rw [List.length_drop]
      omega
    · exact sound_bind (sound_lift _) fun _ _ => sound_ok _

-- A text has fewer than 2 ^ 63 bytes, as every string of the program.
theorem preflight_metadata (limits : ServerLimits) (finite : Text → Bool) (text : Text)
    (htext : (utf8 text).length < 2 ^ 63) :
    (preflightMetadata limits finite text = .ok () →
      (statesOf text).length ≤ limits.maxDmiStates ∧ imagesOf text ≤ limits.maxDmiFrames ∧
        imagesOf text < 2 ^ 32) ∧
    ((limits.maxDmiStates < (statesOf text).length ∨ limits.maxDmiFrames < imagesOf text ∨
        2 ^ 32 ≤ imagesOf text) → ∃ e, preflightMetadata limits finite text = fail e) ∧
    Sound (preflightMetadata limits finite text) := by
  have hsound : Sound (preflightMetadata limits finite text) :=
    sound_preflight (htext.trans (by decide))
  refine ⟨preflight_ok, fun hover => hsound.rejected fun () hok => ?_, hsound⟩
  obtain ⟨hstates, hframes, hword⟩ := preflight_ok hok
  rcases hover with hover | hover | hover
  · exact hover.not_ge hstates
  · exact hover.not_ge hframes
  · exact hword.not_ge hover

def doorText : Text :=
  ("# BEGIN DMI\nversion = 4.0\n\twidth = 32\n\theight = 32\nstate = \"open\"\n\tdirs = 4\n" ++
    "\tframes = 2\n\tdelay = 1,2\nstate = \"shut\"\n\tdelay = 1,1,3\n# END DMI\n").toList

def doorLimits : ServerLimits := ⟨4096, 1024, 65536, 2, 11⟩

theorem preflight_metadata_door :
    (preflightMetadata doorLimits (fun value => (digits value).isSome) doorText = .ok () ∧
      (statesOf doorText).map (fun block => (dirsOf block, frameCount block)) = [(4, 2), (1, 3)]) ∧
    (statesOf doorText).length ≤ 2 ∧ imagesOf doorText ≤ 11 ∧ imagesOf doorText < 2 ^ 32 :=
  have haccepted : preflightMetadata doorLimits (fun value => (digits value).isSome) doorText =
      .ok () := by decide +kernel
  ⟨⟨haccepted, by decide +kernel⟩,
    (preflight_metadata doorLimits (fun value => (digits value).isSome) doorText
      (by decide +kernel)).1 haccepted⟩

theorem digits_toDigits (n : Nat) : digits (Nat.toDigits 10 n) = some n := by
  have hdigit : ∀ c ∈ Nat.toDigits 10 n, c.isDigit = true := fun c hc =>
    Nat.isDigit_of_mem_toDigits (by decide) le_rfl hc
  have hne : Nat.toDigits 10 n ≠ [] := Nat.toDigits_ne_nil
  rw [digits, if_pos ⟨hne, List.all_eq_true.mpr hdigit⟩]
  exact congrArg some Nat.ofDigitChars_ten_toDigits

theorem parseUnsigned_toDigits {bound n : Nat} (h : n < bound) :
    parseUnsigned bound (Nat.toDigits 10 n) = some n := by
  have hplus : (Nat.toDigits 10 n).head? ≠ some '+' := by
    intro hhead
    have hdigit := Nat.isDigit_of_mem_toDigits (by decide) le_rfl (List.mem_of_mem_head? hhead)
    cases hdigit
  rw [parseUnsigned, if_neg hplus, digits_toDigits, Option.filter_some, if_pos (decide_eq_true h)]

end DmiDecode
