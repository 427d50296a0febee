import MeridianMcp.Debugger.Connection
import MeridianMcp.Effects.Trace
import MeridianMcp.Machine

namespace Debugger

open MeridianMcp Effects

inductive EventKind where
  | output
  | breakpoint
  | step
  | pause
  | runtime
  | terminated
  deriving DecidableEq, Repr

def EventKind.text : EventKind → Text
  | output => "output".toList
  | breakpoint => "breakpoint".toList
  | step => "step".toList
  | pause => "pause".toList
  | runtime => "runtime".toList
  | terminated => "terminated".toList

structure DebuggerEventRecord where
  sequence : Nat
  kind : EventKind
  message : Option Text
  deriving DecidableEq, Repr

def maxDebugEvents : Nat := 1000

-- A call of wait_for_event.
structure Wait (C : Type) where
  client : C
  afterSequence : Nat
  kinds : List Text

def Wait.wants {C : Type} (wait : Wait C) (event : DebuggerEventRecord) : Bool :=
  wait.afterSequence < event.sequence && (wait.kinds.isEmpty || wait.kinds.contains event.kind.text)

theorem wants_eq {C : Type} {wait : Wait C} (hkinds : wait.kinds = []) :
    wait.wants = fun event => decide (wait.afterSequence < event.sequence) := by
  funext event
  rw [Wait.wants, hkinds, List.isEmpty_nil, Bool.true_or, Bool.and_true]

theorem wants_iff {C : Type} {wait : Wait C} {event : DebuggerEventRecord}
    (hkinds : wait.kinds = []) :
    wait.wants event = true ↔ wait.afterSequence < event.sequence := by
  rw [wants_eq hkinds, decide_eq_true_iff]

-- The session, and beside it the events that were recorded and those that were returned to clients.
structure DebuggerSession (C : Type) where
  link : Link
  waiting : Option (Wait C)
  eventSequence : Nat
  lastException : Option Text
  events : List DebuggerEventRecord
  droppedEvents : Nat
  recorded : List DebuggerEventRecord
  given : List (C × DebuggerEventRecord)

def DebuggerSession.start (C : Type) : DebuggerSession C := ⟨.new, none, 0, none, [], 0, [], []⟩

-- Requests and waits hold the session for as long as they take.
inductive SessionStep (C : Type) where
  | connection (step : LinkStep)
  | waitForEvent (wait : Wait C)
  | nextEvent
  | timedOut
  | interrupted (consumed : Nat) (e : AuxProtocolError)

def eventKind : AuxResponse → Option (EventKind × Option Text)
  | .notification message => some (.output, some message)
  | .breakpointHit .breakpoint => some (.breakpoint, none)
  | .breakpointHit .step => some (.step, none)
  | .breakpointHit .pause => some (.pause, none)
  | .breakpointHit (.runtime message) => some (.runtime, some message)
  | .disconnect => some (.terminated, none)
  | _ => none

-- The response of next_event, once there is one.
def Link.takeEvent (protocol : Protocol) (link : Link) :
    Option (Except AuxProtocolError AuxResponse × Link) :=
  match link.events with
  | event :: events => some (.ok event, { link with events := events })
  | [] =>
    match protocol.readResponse link.inbound with
    | some (result, rest) => some (result, link.read result rest)
    | none => none

theorem Link.perform_nextEvent {protocol : Protocol} {link : Link} (h : link.awaiting = none) :
    link.perform protocol .nextEvent = (link.takeEvent protocol).map Prod.snd := by
  simp only [Link.perform, h, ne_eq, not_true_eq_false, if_false, Link.takeEvent]
  cases link.events with
  | cons event events => rfl
  | nil =>
    cases protocol.readResponse link.inbound with
    | some read => rfl
    | none => rfl

namespace DebuggerSession

variable {C : Type}

def give (session : DebuggerSession C) (client : C) (event : DebuggerEventRecord) :
    DebuggerSession C :=
  { session with waiting := none, given := session.given ++ [(client, event)] }

def debuggerEvent (session : DebuggerSession C) (response : AuxResponse) :
    Option DebuggerEventRecord × DebuggerSession C :=
  let session := { session with
    eventSequence := Machine.saturatingAdd session.eventSequence 1
    lastException := match response with
      | .breakpointHit (.runtime message) => some message
      | _ => session.lastException }
  match eventKind response with
  | some (kind, message) => (some ⟨session.eventSequence, kind, message⟩, session)
  | none => (none, session)

def push (session : DebuggerSession C) (event : DebuggerEventRecord) : DebuggerSession C :=
  let full := maxDebugEvents ≤ session.events.length
  { session with
    events := (if full then session.events.tail else session.events) ++ [event]
    droppedEvents :=
      if full then Machine.saturatingAdd session.droppedEvents 1 else session.droppedEvents
    recorded := session.recorded ++ [event] }

-- What a wait makes of a response.
def respond (session : DebuggerSession C) (wait : Wait C) (response : AuxResponse) :
    DebuggerSession C :=
  match session.debuggerEvent response with
  | (none, session) => { session with waiting := none }
  | (some event, session) =>
    let session := session.push event
    if wait.wants event then session.give wait.client event else session

def perform (protocol : Protocol) (session : DebuggerSession C) :
    SessionStep C → Option (DebuggerSession C)
  | .connection (.deliver frame) =>
    (session.link.perform protocol (.deliver frame)).map fun link => { session with link }
  | .connection .nextEvent => none
  | .connection (.eventInterrupted _ _) => none
  | .connection step =>
    if session.waiting.isSome then none
    else (session.link.perform protocol step).map fun link => { session with link }
  | .waitForEvent wait =>
    if session.waiting.isSome ∨ session.link.awaiting ≠ none then none
    else match session.events.find? wait.wants with
      | some event => some (session.give wait.client event)
      | none => some { session with waiting := some wait }
  | .nextEvent =>
    match session.waiting, session.link.takeEvent protocol with
    | some wait, some (.ok response, link) => some (respond { session with link } wait response)
    | some _, some (.error _, link) => some { session with link, waiting := none }
    | _, _ => none
  | .timedOut => if session.waiting.isSome then some { session with waiting := none } else none
  | .interrupted consumed e =>
    if session.waiting.isSome then
      (session.link.perform protocol (.eventInterrupted consumed e)).map
        fun link => { session with link, waiting := none }
    else none

-- The session once a response has been taken: the sequence advances whatever the response is.
def taken (session : DebuggerSession C) (response : AuxResponse) (link : Link) :
    DebuggerSession C :=
  { session with
    link
    eventSequence := Machine.saturatingAdd session.eventSequence 1
    lastException := match response with
      | .breakpointHit (.runtime message) => some message
      | _ => session.lastException }

section Fields

variable (session : DebuggerSession C) (response : AuxResponse) (link : Link)
  (event : DebuggerEventRecord) (client : C)

@[simp] theorem taken_events : (session.taken response link).events = session.events := rfl

@[simp] theorem taken_droppedEvents :
    (session.taken response link).droppedEvents = session.droppedEvents := rfl

@[simp] theorem taken_recorded : (session.taken response link).recorded = session.recorded := rfl

@[simp] theorem taken_eventSequence : (session.taken response link).eventSequence =
    Machine.saturatingAdd session.eventSequence 1 := rfl

@[simp] theorem push_recorded : (session.push event).recorded = session.recorded ++ [event] := rfl

@[simp] theorem push_eventSequence : (session.push event).eventSequence = session.eventSequence :=
  rfl

variable {session}

theorem push_full (h : maxDebugEvents ≤ session.events.length) :
    (session.push event).events = session.events.tail ++ [event] ∧
      (session.push event).droppedEvents = Machine.saturatingAdd session.droppedEvents 1 :=
  ⟨congrArg (· ++ [event]) (if_pos h), if_pos h⟩

theorem push_room (h : ¬maxDebugEvents ≤ session.events.length) :
    (session.push event).events = session.events ++ [event] ∧
      (session.push event).droppedEvents = session.droppedEvents :=
  ⟨congrArg (· ++ [event]) (if_neg h), if_neg h⟩

-- What is evicted is the oldest of a thousand events.
theorem push_kept (session : DebuggerSession C) (event : DebuggerEventRecord) :
    ∃ kept, kept <:+ session.events ∧ (session.events ≠ [] → kept ≠ []) ∧
      (session.push event).events = kept ++ [event] := by
  rcases Nat.lt_or_ge session.events.length maxDebugEvents with hroom | hfull
  · exact ⟨session.events, List.suffix_refl _, id, (push_room event (Nat.not_le.mpr hroom)).1⟩
  · refine ⟨session.events.tail, List.tail_suffix _, fun _ => ?_, (push_full event hfull).1⟩
    apply List.ne_nil_of_length_pos
    rw [List.length_tail]
    exact Nat.sub_pos_of_lt (Nat.lt_of_lt_of_le (by decide) hfull)

end Fields

-- Everything that a step can do.
inductive Changes (protocol : Protocol) (session : DebuggerSession C) :
    SessionStep C → DebuggerSession C → Prop
  | connection {step : LinkStep} {link : Link} (hstep : step ≠ .nextEvent)
    (hlink : session.link.perform protocol step = some link)
    (hbusy : session.waiting = none ∨ ∃ frame, step = .deliver frame) :
    Changes protocol session (.connection step) { session with link }
  | found {wait : Wait C} {event : DebuggerEventRecord} (hidle : session.waiting = none)
    (hawaiting : session.link.awaiting = none)
    (hfound : session.events.find? wait.wants = some event) :
    Changes protocol session (.waitForEvent wait) (session.give wait.client event)
  | waits {wait : Wait C} (hidle : session.waiting = none)
    (hawaiting : session.link.awaiting = none)
    (hnone : session.events.find? wait.wants = none) :
    Changes protocol session (.waitForEvent wait) { session with waiting := some wait }
  | records {wait : Wait C} {response : AuxResponse} {link : Link} {kind : EventKind}
    {message : Option Text} (hwaiting : session.waiting = some wait)
    (htake : session.link.takeEvent protocol = some (.ok response, link))
    (hkind : eventKind response = some (kind, message))
    (hwants : wait.wants ⟨Machine.saturatingAdd session.eventSequence 1, kind, message⟩ = false) :
    Changes protocol session .nextEvent ((session.taken response link).push
      ⟨Machine.saturatingAdd session.eventSequence 1, kind, message⟩)
  | returns {wait : Wait C} {response : AuxResponse} {link : Link} {kind : EventKind}
    {message : Option Text} (hwaiting : session.waiting = some wait)
    (htake : session.link.takeEvent protocol = some (.ok response, link))
    (hkind : eventKind response = some (kind, message))
    (hwants : wait.wants ⟨Machine.saturatingAdd session.eventSequence 1, kind, message⟩ = true) :
    Changes protocol session .nextEvent (((session.taken response link).push
      ⟨Machine.saturatingAdd session.eventSequence 1, kind, message⟩).give wait.client
        ⟨Machine.saturatingAdd session.eventSequence 1, kind, message⟩)
  | refuses {wait : Wait C} {response : AuxResponse} {link : Link}
    (hwaiting : session.waiting = some wait)
    (htake : session.link.takeEvent protocol = some (.ok response, link))
    (hkind : eventKind response = none) :
    Changes protocol session .nextEvent { session.taken response link with waiting := none }
  | fails {wait : Wait C} {e : AuxProtocolError} {link : Link}
    (hwaiting : session.waiting = some wait)
    (htake : session.link.takeEvent protocol = some (.error e, link)) :
    Changes protocol session .nextEvent { session with link, waiting := none }
  | timedOut : Changes protocol session .timedOut { session with waiting := none }
  | interrupted {consumed : Nat} {e : AuxProtocolError} {link : Link}
    (hlink : session.link.perform protocol (.eventInterrupted consumed e) = some link) :
    Changes protocol session (.interrupted consumed e) { session with link, waiting := none }

variable {protocol : Protocol} {session session' : DebuggerSession C} {step : SessionStep C}

theorem changes_nextEvent (h : session.perform protocol .nextEvent = some session') :
    Changes protocol session .nextEvent session' := by
  simp only [perform] at h
  split at h
  · rename_i wait response link hwaiting htake
    cases h
    cases hkind : eventKind response with
    | none =>
      simp only [respond, debuggerEvent, hkind]
      exact .refuses hwaiting htake hkind
    | some told =>
      obtain ⟨kind, message⟩ := told
      simp only [respond, debuggerEvent, hkind]
      split
      · rename_i hwants
        exact .returns hwaiting htake hkind hwants
      · rename_i hwants
        exact .records hwaiting htake hkind (Bool.not_eq_true _ ▸ hwants)
  · rename_i wait e link hwaiting htake
    cases h
    exact .fails hwaiting htake
  · cases h

theorem changes_connection {linkStep : LinkStep} (hstep : linkStep ≠ .nextEvent)
    (h : (if session.waiting.isSome then none else (session.link.perform protocol linkStep).map
      fun link => { session with link }) = some session') :
    Changes protocol session (.connection linkStep) session' := by
  split at h
  · cases h
  · rename_i hidle
    obtain ⟨link, hlink, rfl⟩ := Option.map_eq_some_iff.mp h
    exact .connection hstep hlink (.inl (Option.not_isSome_iff_eq_none.mp hidle))

theorem changes_of_perform (h : session.perform protocol step = some session') :
    Changes protocol session step session' := by
  cases step with
  | nextEvent => exact changes_nextEvent h
  | timedOut =>
    simp only [perform] at h
    split at h
    · cases h
      exact .timedOut
    · cases h
  | interrupted consumed e =>
    simp only [perform] at h
    split at h
    · obtain ⟨link, hlink, rfl⟩ := Option.map_eq_some_iff.mp h
      exact .interrupted hlink
    · cases h
  | waitForEvent wait =>
    simp only [perform] at h
    split at h
    · cases h
    · rename_i hfree
      rw [not_or, not_not, Option.not_isSome_iff_eq_none] at hfree
      split at h
      · rename_i event hfound
        cases h
        exact .found hfree.1 hfree.2 hfound
      · rename_i hnone
        cases h
        exact .waits hfree.1 hfree.2 hnone
  | connection step =>
    cases step with
    | nextEvent => cases h
    | eventInterrupted consumed e => cases h
    | deliver frame =>
      obtain ⟨link, hlink, rfl⟩ := Option.map_eq_some_iff.mp h
      exact .connection nofun hlink (.inr ⟨frame, rfl⟩)
    | request payload => exact changes_connection nofun h
    | receive => exact changes_connection nofun h
    | interrupted consumed e => exact changes_connection nofun h

end DebuggerSession

section Log

open DebuggerSession

variable {C : Type} {session session' : DebuggerSession C} {protocol : Protocol}
  {step : SessionStep C} {event : DebuggerEventRecord}

def maxSequence : Nat := Machine.wordSize - 1

-- What holds between the log and all that was recorded.
structure Logged (session : DebuggerSession C) : Prop where
  retained : session.events = session.recorded.drop session.droppedEvents
  dropped : session.droppedEvents ≤ session.recorded.length
  capacity : session.events.length ≤ maxDebugEvents
  increasing : session.recorded.Pairwise fun event later => event.sequence < later.sequence
  latest : ∀ event ∈ session.recorded, event.sequence ≤ session.eventSequence
  counted : session.recorded.length ≤ session.eventSequence

theorem logged_start : Logged (DebuggerSession.start C) where
  retained := rfl
  dropped := Nat.le_refl 0
  capacity := Nat.zero_le _
  increasing := .nil
  latest _ h := absurd h List.not_mem_nil
  counted := Nat.le_refl 0

theorem Logged.congr (h : Logged session) (hevents : session'.events = session.events)
    (hdropped : session'.droppedEvents = session.droppedEvents)
    (hrecorded : session'.recorded = session.recorded)
    (hsequence : session.eventSequence ≤ session'.eventSequence) : Logged session' where
  retained := by rw [hevents, hdropped, hrecorded, h.retained]
  dropped := by rw [hdropped, hrecorded]; exact h.dropped
  capacity := by rw [hevents]; exact h.capacity
  increasing := by rw [hrecorded]; exact h.increasing
  latest event hmem := (h.latest event (hrecorded ▸ hmem)).trans hsequence
  counted := by rw [hrecorded]; exact h.counted.trans hsequence

theorem Logged.of_retained (h : Logged session) (hmem : event ∈ session.events) :
    event ∈ session.recorded :=
  List.mem_of_mem_drop (h.retained ▸ hmem)

theorem Logged.sorted (h : Logged session) :
    session.events.Pairwise fun event later => event.sequence < later.sequence := by
  rw [h.retained]
  exact h.increasing.sublist (List.drop_sublist _ _)

theorem Logged.accounted (h : Logged session) :
    session.events.length + session.droppedEvents = session.recorded.length := by
  rw [h.retained, List.length_drop, Nat.sub_add_cancel h.dropped]

theorem Logged.eq_of_sequence (h : Logged session) {other : DebuggerEventRecord}
    (hevent : event ∈ session.recorded) (hother : other ∈ session.recorded)
    (hsame : event.sequence = other.sequence) : event = other := by
  have hdistinct : (session.recorded.map DebuggerEventRecord.sequence).Nodup :=
    List.pairwise_map.mpr (h.increasing.imp Nat.ne_of_lt)
  exact List.inj_on_of_nodup_map hdistinct hevent hother hsame

theorem saturatingAdd_one {n : Nat} (h : n < maxSequence) : Machine.saturatingAdd n 1 = n + 1 :=
  min_eq_left h

theorem Logged.next_not_recorded (h : Logged session) (hroom : session.eventSequence < maxSequence)
    {kind : EventKind} {message : Option Text} :
    ⟨Machine.saturatingAdd session.eventSequence 1, kind, message⟩ ∉ session.recorded := by
  rw [saturatingAdd_one hroom]
  exact fun hmem => Nat.not_succ_le_self _ (h.latest _ hmem)

-- A push onto a full log takes the oldest event out.
theorem Logged.retained_push (h : Logged session) (hroom : session.recorded.length < maxSequence)
    (event : DebuggerEventRecord) :
    (session.push event).events =
        (session.recorded ++ [event]).drop (session.push event).droppedEvents ∧
      (session.push event).droppedEvents ≤ (session.recorded ++ [event]).length ∧
      (session.push event).events.length ≤ maxDebugEvents := by
  have hlength := h.accounted
  have hdropped := h.dropped
  rw [List.length_append, List.length_singleton]
  by_cases hfull : maxDebugEvents ≤ session.events.length
  · have hpos : 0 < session.events.length := Nat.lt_of_lt_of_le (by decide) hfull
    have hcapacity := h.capacity
    obtain ⟨hevents, hevicted⟩ := push_full event hfull
    rw [saturatingAdd_one (by omega)] at hevicted
    rw [hevents, hevicted, List.drop_append_of_le_length (by omega), h.retained, List.tail_drop]
    refine ⟨rfl, by omega, ?_⟩
    rw [List.length_append, List.length_drop, List.length_singleton]
    omega
  · obtain ⟨hevents, hkept⟩ := push_room event hfull
    rw [hevents, hkept, List.drop_append_of_le_length hdropped, ← h.retained]
    refine ⟨rfl, by omega, ?_⟩
    rw [List.length_append, List.length_singleton]
    omega

theorem Logged.push (h : Logged session) (hroom : session.eventSequence < maxSequence)
    (response : AuxResponse) (link : Link) (kind : EventKind) (message : Option Text) :
    Logged ((session.taken response link).push
      ⟨Machine.saturatingAdd session.eventSequence 1, kind, message⟩) := by
  have hsequence := saturatingAdd_one hroom
  have htaken : Logged (session.taken response link) := by
    refine h.congr rfl rfl rfl ?_
    rw [taken_eventSequence, hsequence]
    exact Nat.le_succ _
  have hlater : ∀ event ∈ session.recorded,
      event.sequence < Machine.saturatingAdd session.eventSequence 1 := by
    intro event hevent
    rw [hsequence]
    exact Nat.lt_succ_of_le (h.latest event hevent)
  obtain ⟨hretained, hdropped, hcapacity⟩ := htaken.retained_push (h.counted.trans_lt hroom)
    ⟨Machine.saturatingAdd session.eventSequence 1, kind, message⟩
  refine ⟨hretained, hdropped, hcapacity, ?_, fun event hevent => ?_, ?_⟩
  · exact List.pairwise_append.mpr ⟨h.increasing, List.pairwise_singleton _ _,
      fun event hevent other hother => List.mem_singleton.mp hother ▸ hlater event hevent⟩
  · rcases List.mem_append.mp hevent with hold | hnew
    · exact (hlater event hold).le
    · rw [List.mem_singleton.mp hnew]
      rfl
  · rw [push_recorded, push_eventSequence, taken_eventSequence, hsequence, List.length_append]
    exact Nat.succ_le_succ h.counted

-- The sequence can advance whenever a response is taken.
def Unsaturated (session : DebuggerSession C) (step : SessionStep C) : Prop :=
  step = .nextEvent → session.eventSequence < maxSequence

theorem logged_changes (h : Logged session) (hroom : Unsaturated session step)
    (hchanges : session.Changes protocol step session') : Logged session' := by
  cases hchanges with
  | connection => exact h.congr rfl rfl rfl (Nat.le_refl _)
  | found => exact h.congr rfl rfl rfl (Nat.le_refl _)
  | waits => exact h.congr rfl rfl rfl (Nat.le_refl _)
  | fails => exact h.congr rfl rfl rfl (Nat.le_refl _)
  | timedOut => exact h.congr rfl rfl rfl (Nat.le_refl _)
  | interrupted => exact h.congr rfl rfl rfl (Nat.le_refl _)
  | refuses =>
    refine h.congr rfl rfl rfl ?_
    change _ ≤ Machine.saturatingAdd session.eventSequence 1
    rw [saturatingAdd_one (hroom rfl)]
    exact Nat.le_succ _
  | records => exact h.push (hroom rfl) _ _ _ _
  | returns => exact (h.push (hroom rfl) _ _ _ _).congr rfl rfl rfl (Nat.le_refl _)

end Log

section Arrivals

open DebuggerSession

variable {C : Type} {session session' : DebuggerSession C} {protocol : Protocol}
  {step : SessionStep C} {link link' : Link}

-- The event that a frame tells of.
def told : Except AuxProtocolError AuxResponse → Option (EventKind × Option Text)
  | .ok response => if response.isEvent then eventKind response else none
  | .error _ => none

def Link.arrivals (link : Link) : List (EventKind × Option Text) := link.decoded.filterMap told

def Link.queue (link : Link) : List (EventKind × Option Text) := link.events.filterMap eventKind

theorem told_event {response : AuxResponse} (h : response.isEvent = true) :
    told (.ok response) = eventKind response := if_pos h

theorem eventKind_cases {response : AuxResponse} {kind : EventKind} {message : Option Text}
    (h : eventKind response = some (kind, message)) :
    (response.isEvent = true ∧ kind ≠ .terminated) ∨
      (response.isEvent = false ∧ kind = .terminated) := by
  cases response with
  | notification => cases h; exact .inl ⟨rfl, nofun⟩
  | breakpointHit reason => cases reason <;> cases h <;> exact .inl ⟨rfl, nofun⟩
  | disconnect => cases h; exact .inr ⟨rfl, rfl⟩
  | _ => cases h

theorem told_none {response : AuxResponse} (h : eventKind response = none) :
    told (.ok response) = none := by
  rw [told, h, ite_self]

theorem arrivals_read (link : Link) (result : Except AuxProtocolError AuxResponse) (rest : Bytes) :
    (link.read result rest).arrivals = link.arrivals ++ (told result).toList := by
  rw [Link.arrivals, Link.read, List.filterMap_append]
  cases h : told result <;> simp [h, Link.arrivals]

theorem perform_deliver {frame : Frame} (h : link.perform protocol (.deliver frame) = some link') :
    link'.awaiting = link.awaiting ∧ link'.decoded = link.decoded ∧ link'.events = link.events := by
  simp only [Link.perform] at h
  split at h
  · cases h
    exact ⟨rfl, rfl, rfl⟩
  · split at h
    · cases h
      exact ⟨rfl, rfl, rfl⟩
    · cases h

-- Only a read takes a response from the stream, and only `next_event` takes one from the queue.
theorem perform_unread {move : LinkStep} (hreceive : move ≠ .receive) (hnext : move ≠ .nextEvent)
    (h : link.perform protocol move = some link') :
    link'.decoded = link.decoded ∧ link'.events = link.events := by
  cases move with
  | receive => exact absurd rfl hreceive
  | nextEvent => exact absurd rfl hnext
  | deliver frame => exact (perform_deliver h).2
  | request payload =>
    simp only [Link.perform] at h
    split at h
    · cases h
    · split at h <;> cases h <;> exact ⟨rfl, rfl⟩
  | interrupted consumed e =>
    simp only [Link.perform] at h
    split at h
    · cases h
    · split at h
      · cases h
        exact ⟨rfl, rfl⟩
      · cases h
  | eventInterrupted consumed e =>
    simp only [Link.perform] at h
    split at h
    · cases h
    · split at h
      · cases h
        exact ⟨rfl, rfl⟩
      · cases h

-- Requests put what they read of events at the end of the queue.
theorem arrivals_receive (h : link.perform protocol .receive = some link')
    (hqueued : ∀ response ∈ link.events, response.isEvent = true) :
    (∃ new, link'.arrivals = link.arrivals ++ new ∧ link'.queue = link.queue ++ new) ∧
      ∀ response ∈ link'.events, response.isEvent = true := by
  simp only [Link.perform] at h
  split at h
  · rename_i n result rest hawaiting hread
    obtain rfl := Option.some.inj h
    have hread := arrivals_read link result rest
    cases result with
    | error e => exact ⟨⟨[], hread, (List.append_nil _).symm⟩, hqueued⟩
    | ok response =>
      cases hevent : response.isEvent with
      | true =>
        rw [told_event hevent] at hread
        have hdispatch : (link.read (.ok response) rest).dispatch n (.ok response) =
            { link.read (.ok response) rest with events := link.events ++ [response] } :=
          if_pos hevent
        rw [hdispatch]
        refine ⟨⟨_, hread, ?_⟩, fun other hother => ?_⟩
        · rw [Link.queue, List.filterMap_append]
          cases h : eventKind response <;> simp [h, Link.queue]
        · rcases List.mem_append.mp hother with hold | hnew
          · exact hqueued other hold
          · rw [List.mem_singleton.mp hnew]
            exact hevent
      | false =>
        rw [told, hevent] at hread
        have hdispatch : ∃ result', (link.read (.ok response) rest).dispatch n (.ok response) =
            (link.read (.ok response) rest).finish n result' := by
          simp only [Link.dispatch, hevent, Bool.false_eq_true, if_false]
          split <;> exact ⟨_, rfl⟩
        obtain ⟨result', hdispatch⟩ := hdispatch
        rw [hdispatch]
        exact ⟨⟨[], hread, (List.append_nil _).symm⟩, hqueued⟩
  · cases h

theorem arrivals_perform {move : LinkStep} (hmove : move ≠ .nextEvent)
    (h : link.perform protocol move = some link')
    (hqueued : ∀ response ∈ link.events, response.isEvent = true) :
    (∃ new, link'.arrivals = link.arrivals ++ new ∧ link'.queue = link.queue ++ new) ∧
      ∀ response ∈ link'.events, response.isEvent = true := by
  rcases Classical.em (move = .receive) with rfl | hreceive
  · exact arrivals_receive h hqueued
  · obtain ⟨hdecoded, hevents⟩ := perform_unread hreceive hmove h
    rw [hevents]
    refine ⟨⟨[], ?_, ?_⟩, hqueued⟩
    · rw [Link.arrivals, hdecoded, List.append_nil, Link.arrivals]
    · rw [Link.queue, hevents, List.append_nil, Link.queue]

theorem arrivals_takeEvent {result : Except AuxProtocolError AuxResponse}
    (h : link.takeEvent protocol = some (result, link'))
    (hqueued : ∀ response ∈ link.events, response.isEvent = true)
    {logged : List (EventKind × Option Text)} (hmerged : link.arrivals = logged ++ link.queue) :
    link'.arrivals = logged ++ (told result).toList ++ link'.queue ∧
      ∀ response ∈ link'.events, response.isEvent = true := by
  rw [Link.takeEvent] at h
  cases hevents : link.events with
  | cons event events =>
    rw [hevents] at h
    cases h
    rw [hevents] at hqueued
    have hevent := hqueued event (List.mem_cons_self ..)
    refine ⟨?_, fun response hresponse => hqueued response (List.mem_cons_of_mem _ hresponse)⟩
    rw [told_event hevent, List.append_assoc]
    refine Eq.trans hmerged (congrArg _ ?_)
    rw [Link.queue, hevents, List.filterMap_cons]
    cases eventKind event <;> rfl
  | nil =>
    rw [hevents] at h
    dsimp only at h
    split at h
    · rename_i read rest hread
      cases h
      have hempty : link.queue = [] := by rw [Link.queue, hevents]; rfl
      rw [hempty, List.append_nil] at hmerged
      refine ⟨?_, hqueued⟩
      rw [arrivals_read, hmerged]
      have hstill : (link.read result rest).queue = [] := hempty
      rw [hstill, List.append_nil]
    · cases h

def DebuggerEventRecord.content (event : DebuggerEventRecord) : EventKind × Option Text :=
  (event.kind, event.message)

def reported (events : List DebuggerEventRecord) : List (EventKind × Option Text) :=
  (events.filter fun event => event.kind ≠ .terminated).map DebuggerEventRecord.content

-- The events that have arrived are recorded in their order, and those that are not wait in the
-- queue of the connection.
structure Merged (session : DebuggerSession C) : Prop where
  queued : ∀ response ∈ session.link.events, response.isEvent = true
  merged : session.link.arrivals = reported session.recorded ++ session.link.queue

theorem merged_start : Merged (DebuggerSession.start C) where
  queued _ h := absurd h List.not_mem_nil
  merged := rfl

theorem Merged.of_link (h : Merged session) {move : LinkStep}
    (hlink : session.link.perform protocol move = some link') (hmove : move ≠ .nextEvent)
    (hsession' : session'.link = link') (hrecorded : session'.recorded = session.recorded) :
    Merged session' := by
  obtain ⟨⟨new, harrivals, hqueue⟩, hqueued⟩ := arrivals_perform hmove hlink h.queued
  refine ⟨hsession' ▸ hqueued, ?_⟩
  rw [hsession', hrecorded, harrivals, hqueue, h.merged, List.append_assoc]

theorem reported_record {response : AuxResponse} {kind : EventKind} {message : Option Text}
    (hkind : eventKind response = some (kind, message)) (recorded : List DebuggerEventRecord)
    (sequence : Nat) :
    reported (recorded ++ [⟨sequence, kind, message⟩]) =
      reported recorded ++ (told (.ok response)).toList := by
  rw [reported, List.filter_append, List.map_append]
  rcases eventKind_cases hkind with ⟨hevent, hne⟩ | ⟨hevent, rfl⟩
  · rw [told_event hevent, hkind]
    simp [hne, DebuggerEventRecord.content, reported]
  · rw [told, hevent]
    simp [reported]

theorem merged_changes (h : Merged session) (hchanges : session.Changes protocol step session') :
    Merged session' := by
  cases hchanges with
  | connection hmove hlink => exact h.of_link hlink hmove rfl rfl
  | interrupted hlink => exact h.of_link hlink nofun rfl rfl
  | found => exact ⟨h.queued, h.merged⟩
  | waits => exact ⟨h.queued, h.merged⟩
  | timedOut => exact ⟨h.queued, h.merged⟩
  | fails _ htake =>
    obtain ⟨hmerged, hqueued⟩ := arrivals_takeEvent htake h.queued h.merged
    exact ⟨hqueued, by simpa [told] using hmerged⟩
  | refuses _ htake hkind =>
    obtain ⟨hmerged, hqueued⟩ := arrivals_takeEvent htake h.queued h.merged
    rw [told_none hkind, Option.toList_none, List.append_nil] at hmerged
    exact ⟨hqueued, hmerged⟩
  | records _ htake hkind =>
    obtain ⟨hmerged, hqueued⟩ := arrivals_takeEvent htake h.queued h.merged
    rw [← reported_record hkind] at hmerged
    exact ⟨hqueued, hmerged⟩
  | returns _ htake hkind =>
    obtain ⟨hmerged, hqueued⟩ := arrivals_takeEvent htake h.queued h.merged
    rw [← reported_record hkind] at hmerged
    exact ⟨hqueued, hmerged⟩

theorem awaiting_takeEvent {result : Except AuxProtocolError AuxResponse}
    (h : link.takeEvent protocol = some (result, link')) : link'.awaiting = link.awaiting := by
  rw [Link.takeEvent] at h
  split at h
  · cases h
    rfl
  · split at h
    · cases h
      rfl
    · cases h

-- Every step of the session is a step of its connection, or leaves it alone.
theorem link_changes (hidle : session.waiting ≠ none → session.link.awaiting = none)
    (hchanges : session.Changes protocol step session') :
    (session'.link = session.link ∨ ∃ move, session.link.perform protocol move =
      some session'.link) ∧ (session'.waiting ≠ none → session'.link.awaiting = none) := by
  have htaken {wait : Wait C} {result : Except AuxProtocolError AuxResponse} {link : Link}
      (hwaiting : session.waiting = some wait)
      (htake : session.link.takeEvent protocol = some (result, link)) :
      session.link.perform protocol .nextEvent = some link ∧ link.awaiting = none := by
    have hawaiting := hidle (hwaiting ▸ Option.some_ne_none wait)
    rw [Link.perform_nextEvent hawaiting, htake]
    exact ⟨rfl, (awaiting_takeEvent htake).trans hawaiting⟩
  cases hchanges with
  | found _ hawaiting => exact ⟨.inl rfl, fun _ => hawaiting⟩
  | waits _ hawaiting => exact ⟨.inl rfl, fun _ => hawaiting⟩
  | timedOut => exact ⟨.inl rfl, fun h => absurd rfl h⟩
  | interrupted hlink => exact ⟨.inr ⟨_, hlink⟩, fun h => absurd rfl h⟩
  | records hwaiting htake =>
    exact ⟨.inr ⟨_, (htaken hwaiting htake).1⟩, fun _ => (htaken hwaiting htake).2⟩
  | returns hwaiting htake =>
    exact ⟨.inr ⟨_, (htaken hwaiting htake).1⟩, fun _ => (htaken hwaiting htake).2⟩
  | refuses hwaiting htake =>
    exact ⟨.inr ⟨_, (htaken hwaiting htake).1⟩, fun _ => (htaken hwaiting htake).2⟩
  | fails hwaiting htake =>
    exact ⟨.inr ⟨_, (htaken hwaiting htake).1⟩, fun _ => (htaken hwaiting htake).2⟩
  | @connection move link _ hlink hbusy =>
    refine ⟨.inr ⟨move, hlink⟩, fun hwaiting => ?_⟩
    rcases hbusy with hnone | ⟨frame, rfl⟩
    · exact absurd hnone hwaiting
    · exact (perform_deliver hlink).1.trans (hidle hwaiting)

end Arrivals

section Runs

variable {C : Type} {protocol : Protocol} {session : DebuggerSession C}
  {trace : List (DebuggerSession C × SessionStep C)}

-- A run of the session is a run of its connection.
theorem link_runs (hrun : Trace (DebuggerSession.perform protocol) (.start C) trace session) :
    (∃ moves, Link.Runs protocol moves session.link) ∧
      (session.waiting ≠ none → session.link.awaiting = none) := by
  induction hrun with
  | start => exact ⟨⟨[], .start⟩, fun h => absurd rfl h⟩
  | step _ hperform ih =>
    obtain ⟨⟨moves, hruns⟩, hidle⟩ := ih
    obtain ⟨hlink, hidle'⟩ := link_changes hidle (DebuggerSession.changes_of_perform hperform)
    refine ⟨?_, hidle'⟩
    rcases hlink with hsame | ⟨move, hmove⟩
    · exact ⟨moves, hsame ▸ hruns⟩
    · exact ⟨_, hruns.step hmove⟩

theorem length_push (session : DebuggerSession C) (event : DebuggerEventRecord)
    (h : session.events.length ≤ maxDebugEvents) :
    (session.push event).events.length ≤ maxDebugEvents := by
  rcases Nat.lt_or_ge session.events.length maxDebugEvents with hroom | hfull
  · rw [(DebuggerSession.push_room event (Nat.not_le.mpr hroom)).1, List.length_append]
    exact hroom
  · rw [(DebuggerSession.push_full event hfull).1, List.length_append, List.length_tail,
      List.length_singleton, Nat.sub_add_cancel (Nat.lt_of_lt_of_le (by decide) hfull)]
    exact h

theorem capacity_run (hrun : Trace (DebuggerSession.perform protocol) (.start C) trace session) :
    session.events.length ≤ maxDebugEvents := by
  refine hrun.invariant (P := fun session => session.events.length ≤ maxDebugEvents)
    (Nat.zero_le _) (fun session step session' h hperform => ?_) session
    (last_mem_visited trace session)
  cases DebuggerSession.changes_of_perform hperform with
  | records => exact length_push _ _ h
  | returns => exact length_push _ _ h
  | _ => exact h

theorem logged_run (hrun : Trace (DebuggerSession.perform protocol) (.start C) trace session)
    (hroom : ∀ m ∈ trace, Unsaturated m.1 m.2) : Logged session ∧ Merged session := by
  have hall := hrun.guarded (P := fun session => Logged session ∧ Merged session)
    ⟨logged_start, merged_start⟩ (fun _ _ _ h hguard hperform =>
      have hchanges := DebuggerSession.changes_of_perform hperform
      ⟨logged_changes h.1 hguard hchanges, merged_changes h.2 hchanges⟩) hroom
  exact hall session (last_mem_visited trace session)

end Runs

end Debugger
