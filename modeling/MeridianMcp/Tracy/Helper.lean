import Mathlib.Data.List.Nodup

namespace TracyHelper

-- What the helper tells apart in a JSON document; the fields of an object have different names.
inductive Json where
  | unsigned (value : UInt64)
  | string (value : String)
  | object (fields : List (String × Json))
  | other

inductive Command where
  | capture
  | sessionStart
  | captureWindow
  | sessionStatus
  | sessionStop
  | cancel
  | hotspots
  | zone
  | frameStats
  | compare

def commands : List (String × Command) :=
  [("capture", .capture), ("session_start", .sessionStart), ("capture_window", .captureWindow),
    ("session_status", .sessionStatus), ("session_stop", .sessionStop), ("cancel", .cancel),
    ("hotspots", .hotspots), ("zone", .zone), ("frame_stats", .frameStats), ("compare", .compare)]

def Command.allowed : Command → List String
  | capture => ["port", "duration_ms", "memory_limit_mb", "output_path"]
  | sessionStart => ["host", "port", "connect_timeout_ms", "progress_timeout_ms"]
  | captureWindow => ["duration_ms", "memory_limit_mb", "output_path", "phase", "phase_iteration"]
  | sessionStatus => []
  | sessionStop => []
  | cancel => []
  | hotspots => ["trace_path", "limit", "sort", "range_begin_ns", "range_end_ns"]
  | zone => ["trace_path", "name", "limit", "range_begin_ns", "range_end_ns"]
  | frameStats => ["trace_path", "range_begin_ns", "range_end_ns"]
  | compare => ["baseline_path", "current_path", "minimum_delta_ns", "limit", "baseline_range_begin_ns",
      "baseline_range_end_ns", "current_range_begin_ns", "current_range_end_ns"]

-- The details of an error are of a type of their own.
structure ProtocolError (D : Type) where
  code : String
  message : String
  details : Option D

structure Request where
  id : UInt64
  command : Command
  params : List (String × Json)

def protocolSchemaVersion : UInt64 := 2

def maximumRequestBytes : Nat := 1024 * 1024

def maximumResponseBytes : Nat := 4 * 1024 * 1024

def maximumResidentMemoryMb : UInt64 := 4096

def maximumCaptureDurationMs : UInt64 := 300000

variable {D R : Type}

def refuse {α : Type} (code message : String) : Except (ProtocolError D) α := .error ⟨code, message, none⟩

def topLevelFields : List String := ["schema_version", "id", "command", "params"]

def requireSchema (document : List (String × Json)) : Except (ProtocolError D) Unit :=
  match document.lookup "schema_version" with
  | some (.unsigned version) =>
    if version = protocolSchemaVersion then .ok ()
    else refuse "unsupported_schema" "Request schema is not supported."
  | _ => refuse "unsupported_schema" "Request schema is not supported."

def requireId (document : List (String × Json)) : Except (ProtocolError D) UInt64 :=
  match document.lookup "id" with
  | some (.unsigned id) => .ok id
  | _ => refuse "invalid_id" "Request id must be an unsigned integer."

def requireCommand (document : List (String × Json)) : Except (ProtocolError D) String :=
  match document.lookup "command" with
  | some (.string name) => .ok name
  | _ => refuse "invalid_command" "Request command must be a string."

def requireParams (document : List (String × Json)) : Except (ProtocolError D) (List (String × Json)) :=
  match document.lookup "params" with
  | some (.object params) => .ok params
  | _ => refuse "invalid_params" "Request params must be an object."

def bytesOf (text : String) : List UInt8 := text.toByteArray.data.toList

def parseRequest (parse : List UInt8 → Option Json) (input : List UInt8) :
    Except (ProtocolError D) Request :=
  if maximumRequestBytes < input.length then
    refuse "request_too_large" "Request exceeds the fixed protocol limit."
  else
    match parse input with
    | none => refuse "invalid_json" "Request is not valid JSON."
    | some (.object document) =>
      if document.any fun field => topLevelFields.all (· ≠ field.1) then
        refuse "unknown_field" "Request contains an unknown top-level field."
      else do
        requireSchema document
        let id ← requireId document
        let name ← requireCommand document
        let params ← requireParams document
        match commands.lookup name with
        | none => refuse "unsupported_command" "Request command is not supported."
        | some command =>
          if params.any fun field => command.allowed.all (· ≠ field.1) then
            refuse "unknown_param" "Request contains an unknown command parameter."
          else .ok ⟨id, command, params⟩
    | some _ => refuse "invalid_request" "Request must be a JSON object."

def boundedUnsigned (params : List (String × Json)) (name : String) (minimum maximum : UInt64) :
    Except (ProtocolError D) UInt64 :=
  match params.lookup name with
  | some (.unsigned value) =>
    if value < minimum ∨ maximum < value then refuse "invalid_params" (name ++ " is outside the permitted range.")
    else .ok value
  | _ => refuse "invalid_params" (name ++ " must be an unsigned integer.")

def boundedString (params : List (String × Json)) (name : String) (maximum : Nat) :
    Except (ProtocolError D) String :=
  match params.lookup name with
  | some (.string value) =>
    if value = "" ∨ maximum < value.utf8ByteSize then
      refuse "invalid_params" (name ++ " is outside the permitted length.")
    else .ok value
  | _ => refuse "invalid_params" (name ++ " must be a string.")

structure SessionStartOptions where
  host : String
  port : UInt64
  connectTimeoutMs : UInt64
  progressTimeoutMs : UInt64

def startOptions (params : List (String × Json)) : Except (ProtocolError D) SessionStartOptions := do
  let host ← boundedString params "host" 255
  let port ← boundedUnsigned params "port" 1 65535
  let connectTimeoutMs ← boundedUnsigned params "connect_timeout_ms" 1 120000
  let progressTimeoutMs ← boundedUnsigned params "progress_timeout_ms" 1 120000
  .ok ⟨host, port, connectTimeoutMs, progressTimeoutMs⟩

structure CaptureWindowOptions where
  durationMs : UInt64
  memoryLimitMb : UInt64
  outputPath : String
  phase : String
  phaseIteration : UInt64
  deriving DecidableEq

def phaseByte (value : UInt8) : Bool :=
  (97 ≤ value && value ≤ 122) || (48 ≤ value && value ≤ 57) || value = 95 || value = 45

def validPhaseName (phase : String) : Bool :=
  phase ≠ "" && phase.utf8ByteSize ≤ 64 && (bytesOf phase).all phaseByte

def captureOptions (params : List (String × Json)) : Except (ProtocolError D) CaptureWindowOptions := do
  let durationMs ← boundedUnsigned params "duration_ms" 1 maximumCaptureDurationMs
  let memoryLimitMb ← boundedUnsigned params "memory_limit_mb" 16 maximumResidentMemoryMb
  let outputPath ← boundedString params "output_path" 32768
  let phase ← boundedString params "phase" 64
  let phaseIteration ← boundedUnsigned params "phase_iteration" 1 4294967295
  if validPhaseName phase then .ok ⟨durationMs, memoryLimitMb, outputPath, phase, phaseIteration⟩
  else
    refuse "invalid_phase" "Phase must contain 1-64 lowercase ASCII letters, digits, underscore, or hyphen."

structure Response (D R : Type) where
  id : UInt64
  result : Except (ProtocolError D) R

-- The JSON library.
structure Library (D R : Type) where
  parse : List UInt8 → Option Json
  dump : Response D R → List UInt8

inductive Stage where
  | reading
  | joining
  | finished
  deriving DecidableEq

-- `captures`: the threads that have not answered; `started`: the requests of all threads; `lines`: what
-- has been read; `out`: the responses in the order of the output.
structure Session (D R : Type) where
  stage : Stage
  requestIds : List UInt64
  captures : List (UInt64 × CaptureWindowOptions)
  started : List UInt64
  lines : List (List UInt8)
  out : List (Response D R)

def Session.new : Session D R := ⟨.reading, [], [], [], [], []⟩

namespace Session

variable (library : Library D R)

def tooLarge (id : UInt64) : Response D R :=
  ⟨id, .error ⟨"response_too_large", "Response exceeds the fixed protocol limit.", none⟩⟩

def writeResponse (s : Session D R) (response : Response D R) : Session D R :=
  { s with out := s.out ++ [if maximumResponseBytes < (library.dump response).length then tooLarge response.id
      else response] }

def withoutReturn (line : List UInt8) : List UInt8 :=
  if line.getLast? = some 13 then line.dropLast else line

def duplicateId : ProtocolError D := ⟨"duplicate_id", "Request id has already been used in this session.", none⟩

def dispatch (s : Session D R) (request : Request) (answer : Except (ProtocolError D) R) : Session D R :=
  match request.command with
  | .captureWindow =>
    match captureOptions request.params with
    | .error e => s.writeResponse library ⟨request.id, .error e⟩
    | .ok options => { s with
        captures := s.captures ++ [(request.id, options)], started := request.id :: s.started }
  | .sessionStart =>
    match (startOptions request.params : Except (ProtocolError D) SessionStartOptions) with
    | .error e => s.writeResponse library ⟨request.id, .error e⟩
    | .ok _ => s.writeResponse library ⟨request.id, answer⟩
  | _ => s.writeResponse library ⟨request.id, answer⟩

-- One line; `answer` is what the call of the session or the offline query comes to, a
-- `std::exception` of it included.
def serve (s : Session D R) (line : List UInt8) (answer : Except (ProtocolError D) R) : Session D R :=
  let s := { s with lines := s.lines ++ [line] }
  match parseRequest library.parse (withoutReturn line) with
  | .error e => s.writeResponse library ⟨0, .error e⟩
  | .ok request =>
    if request.id ∈ s.requestIds then s.writeResponse library ⟨request.id, .error duplicateId⟩
    else { s with requestIds := request.id :: s.requestIds }.dispatch library request answer

end Session

open Session

inductive Step (library : Library D R) (s : Session D R) : Session D R → Prop
  | line {line : List UInt8} {answer : Except (ProtocolError D) R} : s.stage = .reading →
      Step library s (s.serve library line answer)
  | captured {before after : List (UInt64 × CaptureWindowOptions)} {id : UInt64}
      {options : CaptureWindowOptions} {answer : Except (ProtocolError D) R} :
      s.captures = before ++ (id, options) :: after →
      Step library s ({ s with captures := before ++ after }.writeResponse library ⟨id, answer⟩)
  | ended : s.stage = .reading → Step library s { s with stage := .joining }
  | joined : s.stage = .joining → s.captures = [] → Step library s { s with stage := .finished }

inductive Reachable (library : Library D R) : Session D R → Prop
  | new : Reachable library .new
  | step {s s' : Session D R} : Reachable library s → Step library s s' → Reachable library s'

variable {library : Library D R} {s : Session D R}

-- The id that the response to a line bears: that of its request, or zero.
def responseId (library : Library D R) (line : List UInt8) : UInt64 :=
  match (parseRequest library.parse (withoutReturn line) : Except (ProtocolError D) Request) with
  | .ok request => request.id
  | .error _ => 0

def Requested (library : Library D R) (id : UInt64) (line : List UInt8) : Prop :=
  ∃ request, (parseRequest library.parse (withoutReturn line) : Except (ProtocolError D) Request) = .ok request ∧
    request.id = id

-- Each line has its response, or a thread that will give it; `debt` are the ids that are owed at once.
structure Kept (library : Library D R) (debt : List UInt64) (s : Session D R) : Prop where
  answered : (debt ++ (s.out.map Response.id ++ s.captures.map Prod.fst)).Perm (s.lines.map (responseId library))
  known : ∀ id, id ∈ s.requestIds ↔ ∃ line ∈ s.lines, Requested library id line
  started : s.started.Nodup
  requested : ∀ id ∈ s.started, id ∈ s.requestIds
  underway : (s.captures.map Prod.fst).Nodup
  captures : ∀ id ∈ s.captures.map Prod.fst, id ∈ s.started
  sized : (∀ id, (library.dump (tooLarge id)).length ≤ maximumResponseBytes) →
    ∀ response ∈ s.out, (library.dump response).length ≤ maximumResponseBytes
  finished : s.stage = .finished → s.captures = []

theorem kept_new : Kept library [] .new := by
  refine ⟨.refl _, fun id => ?_, List.nodup_nil, fun id hid => ?_, List.nodup_nil, fun id hid => ?_,
    fun _ response hout => ?_, fun _ => rfl⟩
  · refine ⟨fun hid => absurd hid List.not_mem_nil, ?_⟩
    rintro ⟨line, hline, -⟩
    exact absurd hline List.not_mem_nil
  · exact absurd hid List.not_mem_nil
  · exact absurd hid List.not_mem_nil
  · exact absurd hout List.not_mem_nil

theorem Kept.write {response : Response D R} (h : Kept library [response.id] s) :
    Kept library [] (s.writeResponse library response) := by
  have hid : ∀ large : Prop, [Decidable large] →
      (if large then tooLarge response.id else response).id = response.id := by
    intro large _
    split
    · rfl
    · rfl
  refine ⟨?_, h.known, h.started, h.requested, h.underway, h.captures, fun hfits other hother => ?_, h.finished⟩
  · rw [writeResponse, List.map_append, List.map_singleton, hid, List.nil_append, List.append_assoc]
    exact List.perm_middle.trans h.answered
  · rcases List.mem_append.mp hother with hold | hnew
    · exact h.sized hfits other hold
    · rw [List.mem_singleton.mp hnew]
      split
      · exact hfits _
      · rename_i hsmall
        exact Nat.le_of_not_lt hsmall

theorem Kept.start {id : UInt64} {options : CaptureWindowOptions} (h : Kept library [id] s)
    (hid : id ∈ s.requestIds) (hnew : id ∉ s.started) (hstage : s.stage ≠ .finished) :
    Kept library [] { s with captures := s.captures ++ [(id, options)], started := id :: s.started } := by
  have hfresh : id ∉ s.captures.map Prod.fst := fun hin => hnew (h.captures id hin)
  refine ⟨?_, h.known, h.started.cons hnew, ?_, ?_, fun other hother => ?_, h.sized, fun heq => absurd heq hstage⟩
  · rw [List.map_append, List.map_singleton, List.nil_append, ← List.append_assoc]
    exact (List.perm_append_comm.trans (.refl _)).trans h.answered
  · intro other hother
    rcases List.mem_cons.mp hother with rfl | hold
    · exact hid
    · exact h.requested other hold
  · rw [List.map_append, List.map_singleton]
    exact h.underway.append (List.nodup_singleton id) (List.disjoint_singleton.mpr hfresh)
  · rw [List.map_append, List.map_singleton] at hother
    rcases List.mem_append.mp hother with hold | hown
    · exact List.mem_cons_of_mem _ (h.captures other hold)
    · rw [List.mem_singleton.mp hown]
      exact List.mem_cons_self

theorem kept_dispatch {request : Request} {answer : Except (ProtocolError D) R} (h : Kept library [request.id] s)
    (hid : request.id ∈ s.requestIds) (hnew : request.id ∉ s.started) (hstage : s.stage ≠ .finished) :
    Kept library [] (s.dispatch library request answer) := by
  rw [dispatch]
  split
  · split
    · exact h.write
    · exact h.start hid hnew hstage
  · split
    · exact h.write
    · exact h.write
  · exact h.write

-- A line is read: its response is owed.
theorem Kept.read (h : Kept library [] s) {line : List UInt8} {id : UInt64} {requestIds : List UInt64}
    (hid : responseId library line = id)
    (hknown : ∀ other, other ∈ requestIds ↔ other ∈ s.requestIds ∨ Requested library other line) :
    Kept library [id] { s with lines := s.lines ++ [line], requestIds := requestIds } := by
  refine ⟨?_, fun other => ?_, h.started, fun other hother => ?_, h.underway, h.captures, h.sized, h.finished⟩
  · rw [List.map_append, List.map_singleton, hid, List.singleton_append]
    exact (h.answered.cons id).trans (List.perm_append_singleton _ _).symm
  · rw [hknown, h.known]
    constructor
    · rintro (⟨earlier, hearlier, hrequested⟩ | hrequested)
      · exact ⟨earlier, List.mem_append_left _ hearlier, hrequested⟩
      · exact ⟨line, List.mem_append_right _ (List.mem_singleton_self line), hrequested⟩
    · rintro ⟨earlier, hearlier, hrequested⟩
      rcases List.mem_append.mp hearlier with hold | hown
      · exact .inl ⟨earlier, hold, hrequested⟩
      · rw [List.mem_singleton.mp hown] at hrequested
        exact .inr hrequested
  · exact (hknown other).mpr (.inl (h.requested other hother))

theorem kept_serve (h : Kept library [] s) (hstage : s.stage = .reading) (line : List UInt8)
    (answer : Except (ProtocolError D) R) : Kept library [] (s.serve library line answer) := by
  have hopen : s.stage ≠ .finished := by
    rw [hstage]
    exact Stage.noConfusion
  rw [serve]
  cases hparse : (parseRequest library.parse (withoutReturn line) : Except (ProtocolError D) Request) with
  | error e =>
    have hid : responseId library line = 0 := by rw [responseId, hparse]
    refine (h.read hid fun other => (or_iff_left ?_).symm).write
    rintro ⟨request, hrequest, -⟩
    cases hparse.symm.trans hrequest
  | ok request =>
    have hid : responseId library line = request.id := by rw [responseId, hparse]
    have hrequested : ∀ other, Requested library other line ↔ other = request.id := by
      intro other
      constructor
      · rintro ⟨found, hfound, rfl⟩
        cases hparse.symm.trans hfound
        rfl
      · exact fun heq => ⟨request, hparse, heq.symm⟩
    dsimp only
    split
    · rename_i hin
      refine (h.read hid fun other => ?_).write
      rw [hrequested]
      exact (or_iff_left_of_imp fun heq => heq ▸ hin).symm
    · rename_i hnew
      refine kept_dispatch (h.read hid fun other => ?_) List.mem_cons_self (fun hin => hnew (h.requested _ hin)) hopen
      rw [hrequested, List.mem_cons, or_comm]

-- A thread takes its response upon itself.
theorem Kept.take {before after : List (UInt64 × CaptureWindowOptions)} {id : UInt64}
    {options : CaptureWindowOptions} (h : Kept library [] s) (hcaptures : s.captures = before ++ (id, options) :: after) :
    Kept library [id] { s with captures := before ++ after } := by
  have hsub : (before ++ after).Sublist s.captures := by
    rw [hcaptures]
    exact (List.Sublist.refl before).append (List.sublist_cons_self _ after)
  refine ⟨?_, h.known, h.started, h.requested, h.underway.sublist (hsub.map _),
    fun other hother => h.captures other ((hsub.map _).subset hother), h.sized, fun hstage => ?_⟩
  · have hanswered := h.answered
    rw [hcaptures, List.map_append, List.map_cons, List.nil_append] at hanswered
    rw [List.map_append, List.singleton_append]
    refine List.Perm.trans ?_ hanswered
    rw [← List.append_assoc, ← List.append_assoc]
    exact List.perm_middle.symm
  · have hnone := h.finished hstage
    rw [hcaptures] at hnone
    exact absurd hnone (List.append_ne_nil_of_right_ne_nil _ (List.cons_ne_nil _ _))

theorem kept_step {s' : Session D R} (h : Kept library [] s) (hstep : Step library s s') : Kept library [] s' := by
  cases hstep with
  | line hstage => exact kept_serve h hstage _ _
  | captured hcaptures => exact Kept.write (h.take hcaptures)
  | ended _ => exact { h with finished := Stage.noConfusion }
  | joined _ hnone => exact { h with finished := fun _ => hnone }

theorem reachable_kept (h : Reachable library s) : Kept library [] s := by
  induction h with
  | new => exact kept_new
  | step _ hstep ih => exact kept_step ih hstep

-- A line has one response, with its id, unless a thread is about to give it; at the end there are no
-- threads. Lines with ids of their own have responses with ids of their own, and an id has at most one
-- thread, whatever is asked with it again.
structure Answered (library : Library D R) (s : Session D R) : Prop where
  responses : (s.out.map Response.id ++ s.captures.map Prod.fst).Perm (s.lines.map (responseId library))
  finished : s.stage = .finished → (s.out.map Response.id).Perm (s.lines.map (responseId library))
  distinct : (s.lines.map (responseId library)).Nodup → (s.out.map Response.id ++ s.captures.map Prod.fst).Nodup
  started : s.started.Nodup
  requested : ∀ id ∈ s.started, ∃ line ∈ s.lines, Requested library id line
  underway : ∀ id ∈ s.captures.map Prod.fst, id ∈ s.started
  sized : (∀ id, (library.dump (tooLarge id)).length ≤ maximumResponseBytes) →
    ∀ response ∈ s.out, (library.dump response).length ≤ maximumResponseBytes

theorem reachable_answered (h : Reachable library s) : Answered library s := by
  have hkept := reachable_kept h
  have hresponses := hkept.answered
  rw [List.nil_append] at hresponses
  refine ⟨hresponses, fun hfinished => ?_, fun hnodup => hresponses.nodup_iff.mpr hnodup, hkept.started,
    fun id hid => (hkept.known id).mp (hkept.requested id hid), hkept.captures, hkept.sized⟩
  rw [hkept.finished hfinished, List.map_nil, List.append_nil] at hresponses
  exact hresponses

def captureText : String :=
  "\x7b\"schema_version\":2,\"id\":7,\"command\":\"capture_window\",\"params\":\x7b\"duration_ms\":1000," ++
    "\"memory_limit_mb\":512,\"output_path\":\"a.tracy\",\"phase\":\"steady\",\"phase_iteration\":1\x7d\x7d"

def captureDocument : Json := .object [("schema_version", .unsigned 2), ("id", .unsigned 7),
  ("command", .string "capture_window"), ("params", .object [("duration_ms", .unsigned 1000),
    ("memory_limit_mb", .unsigned 512), ("output_path", .string "a.tracy"), ("phase", .string "steady"),
    ("phase_iteration", .unsigned 1)])]

-- Results are JSON texts.
def tinyLibrary : Library Unit String where
  parse input := if input = bytesOf captureText then some captureDocument else none
  dump response := bytesOf (match response.result with
    | .ok result => "\x7b\"id\":" ++ toString response.id ++ ",\"ok\":true,\"result\":" ++ result ++
        ",\"schema_version\":2\x7d"
    | .error error => "\x7b\"error\":\x7b\"code\":\"" ++ error.code ++ "\",\"message\":\"" ++ error.message ++
        "\"\x7d,\"id\":" ++ toString response.id ++ ",\"ok\":false,\"schema_version\":2\x7d")

-- A capture, the same request again while it goes on, and a line that is no JSON.
theorem reachable_answered_twice :
    ∃ s : Session Unit String, s.stage = .finished ∧ s.started = [7] ∧ s.out.map Response.id = [7, 0, 7] ∧
      Answered tinyLibrary s := by
  have hstarted : Reachable tinyLibrary _ :=
    Reachable.new.step (@Step.line _ _ _ _ (bytesOf captureText) (.ok "") rfl)
  have hread := (hstarted.step (@Step.line _ _ _ _ (bytesOf captureText) (.ok "") (by decide +kernel))).step
    (@Step.line _ _ _ _ (bytesOf "x") (.ok "") (by decide +kernel))
  have hanswered := hread.step (@Step.captured _ _ _ _ [] [] 7 ⟨1000, 512, "a.tracy", "steady", 1⟩ (.ok "null")
    (by decide +kernel))
  have hjoined := (hanswered.step (.ended (by decide +kernel))).step (.joined rfl rfl)
  exact ⟨_, rfl, by decide +kernel, by decide +kernel, reachable_answered hjoined⟩

end TracyHelper
