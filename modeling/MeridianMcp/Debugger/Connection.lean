import Mathlib.Data.List.Basic
import MeridianMcp.Effects.FileSystem
import MeridianMcp.Debugger.Breakpoints

namespace Debugger

open MeridianMcp Effects

structure Stack where
  id : Nat
  name : Text
  deriving DecidableEq, Repr

structure StackFrame where
  id : Nat
  instruction : InstructionRef
  line : Option Nat
  deriving DecidableEq, Repr

structure Variable where
  name : Text
  value : Text
  vars : Option Int
  deriving DecidableEq, Repr

inductive BreakpointReason where
  | breakpoint | step | pause
  | runtime (message : Text)
  deriving DecidableEq, Repr

inductive BreakpointSetResult where
  | success (line : Option Nat)
  | failed
  deriving DecidableEq, Repr

inductive AuxResponse where
  | ack
  | stdDef (source : Option Text)
  | eval (value : Text) (vars : Option Int)
  | currentInstruction (instruction : Option InstructionRef)
  | breakpointSet (result : BreakpointSetResult)
  | breakpointUnset (success : Bool)
  | lineNumber (line : Option Nat)
  | offset (offset : Option Nat)
  | stackList (list : List Stack)
  | stackFrames (frames : List StackFrame) (totalCount : Nat)
  | scopes (arguments locals globals : Option Int)
  | variableList (vars : List Variable)
  | disconnect
  | notification (message : Text)
  | breakpointHit (reason : BreakpointReason)
  deriving DecidableEq, Repr

def AuxResponse.isEvent : AuxResponse → Bool
  | .notification _ | .breakpointHit _ => true
  | _ => false

inductive AuxProtocolError where
  | io | codec | timeout | disconnected
  | length (n : Nat)
  deriving DecidableEq, Repr

def u32le (n : Nat) : Bytes :=
  [UInt8.ofNat n, UInt8.ofNat (n / 256), UInt8.ofNat (n / 65536), UInt8.ofNat (n / 16777216)]

def readU32le (b₀ b₁ b₂ b₃ : UInt8) : Nat :=
  b₀.toNat + 256 * b₁.toNat + 65536 * b₂.toNat + 16777216 * b₃.toNat

theorem readU32le_u32le {n : Nat} (h : n < 2 ^ 32) :
    readU32le (UInt8.ofNat n) (UInt8.ofNat (n / 256)) (UInt8.ofNat (n / 65536))
      (UInt8.ofNat (n / 16777216)) = n := by
  simp only [readU32le, UInt8.toNat_ofNat']
  omega

-- The other side of the stream: a frame is an event, or the reply to one request.
structure Frame where
  payload : Bytes
  answers : Option Nat
  fits : payload.length < 2 ^ 32

def Frame.encode (frame : Frame) : Bytes := u32le frame.payload.length ++ frame.payload

structure Protocol where
  maxMessageBytes : Nat
  deserialize : Bytes → Option AuxResponse

namespace Protocol

variable (protocol : Protocol)

def decode (payload : Bytes) : Except AuxProtocolError AuxResponse :=
  match protocol.deserialize payload with
  | some response => .ok response
  | none => .error .codec

-- What read_response makes of the bytes that have arrived; `none` while it needs more of them.
def readResponse : Bytes → Option (Except AuxProtocolError AuxResponse × Bytes)
  | b₀ :: b₁ :: b₂ :: b₃ :: rest =>
    let len := readU32le b₀ b₁ b₂ b₃
    if len = 0 ∨ len > protocol.maxMessageBytes then some (.error (.length len), rest)
    else if rest.length < len then none
    else some (protocol.decode (rest.take len), rest.drop len)
  | _ => none

end Protocol

-- The connection, and beside it the requests and frames that the debuggee has seen and sent.
structure Link where
  inbound : Bytes
  events : List AuxResponse
  awaiting : Option Nat
  sent : Nat
  replied : Nat
  frames : List Frame
  decoded : List (Except AuxProtocolError AuxResponse)
  returned : List (Nat × Except AuxProtocolError AuxResponse)

def Link.new : Link := ⟨[], [], none, 0, 0, [], [], []⟩

inductive LinkStep where
  | deliver (frame : Frame)
  | request (payload : Bytes)
  | receive
  | interrupted (consumed : Nat) (e : AuxProtocolError)
  | nextEvent
  | eventInterrupted (consumed : Nat) (e : AuxProtocolError)

namespace Link

def finish (link : Link) (n : Nat) (result : Except AuxProtocolError AuxResponse) : Link :=
  { link with awaiting := none, returned := link.returned ++ [(n, result)] }

def read (link : Link) (result : Except AuxProtocolError AuxResponse) (rest : Bytes) : Link :=
  { link with inbound := rest, decoded := link.decoded ++ [result] }

def dispatch (link : Link) (n : Nat) : Except AuxProtocolError AuxResponse → Link
  | .error e => link.finish n (.error e)
  | .ok response =>
    if response.isEvent then { link with events := link.events ++ [response] }
    else if response = .disconnect then link.finish n (.error .disconnected)
    else link.finish n (.ok response)

def perform (protocol : Protocol) (link : Link) : LinkStep → Option Link
  | .deliver frame =>
    match frame.answers with
    | none => some { link with inbound := link.inbound ++ frame.encode, frames := link.frames ++ [frame] }
    | some n =>
      if link.replied ≤ n ∧ n < link.sent then
        some { link with
          inbound := link.inbound ++ frame.encode
          frames := link.frames ++ [frame]
          replied := n + 1 }
      else none
  | .request payload =>
    if link.awaiting ≠ none then none
    else if payload = [] ∨ payload.length > protocol.maxMessageBytes then some link
    else some { link with awaiting := some link.sent, sent := link.sent + 1 }
  | .receive =>
    match link.awaiting, protocol.readResponse link.inbound with
    | some n, some (result, rest) => some ((link.read result rest).dispatch n result)
    | _, _ => none
  -- A cancelled read loses the bytes of the frame that it has already taken.
  | .interrupted consumed e =>
    match link.awaiting with
    | none => none
    | some n =>
      if consumed ≤ link.inbound.length ∧ protocol.readResponse (link.inbound.take consumed) = none then
        some ({ link with inbound := link.inbound.drop consumed }.finish n (.error e))
      else none
  | .nextEvent =>
    if link.awaiting ≠ none then none
    else match link.events with
      | _ :: events => some { link with events := events }
      | [] =>
        match protocol.readResponse link.inbound with
        | some (result, rest) => some (link.read result rest)
        | none => none
  | .eventInterrupted consumed _ =>
    if link.awaiting ≠ none ∨ link.events ≠ [] then none
    else if consumed ≤ link.inbound.length ∧ protocol.readResponse (link.inbound.take consumed) = none then
      some { link with inbound := link.inbound.drop consumed }
    else none

-- A run, with the state that each of its steps was taken in.
inductive Runs (protocol : Protocol) : List (Link × LinkStep) → Link → Prop
  | start : Runs protocol [] new
  | step {trace link step link'} : Runs protocol trace link → link.perform protocol step = some link' →
      Runs protocol (trace ++ [(link, step)]) link'

end Link

def Frame.tells (protocol : Protocol) (frame : Frame) : Except AuxProtocolError AuxResponse :=
  protocol.decode frame.payload

structure Corresponds (protocol : Protocol) (link : Link) : Prop where
  replies : ∀ n value, (n, .ok value) ∈ link.returned →
    ∃ frame ∈ link.frames, frame.answers = some n ∧ frame.tells protocol = .ok value
  boundaries : ∃ consumed unread, link.frames = consumed ++ unread ∧
    link.decoded = consumed.map (Frame.tells protocol) ∧ link.inbound = unread.flatMap Frame.encode

-- The debuggee keeps to the protocol: frames within the limit, events that are no replies, and
-- replies that are no events.
structure WellFormed (protocol : Protocol) (frame : Frame) : Prop where
  nonempty : 0 < frame.payload.length
  bounded : frame.payload.length ≤ protocol.maxMessageBytes
  event : frame.answers = none →
    ∃ response, frame.tells protocol = .ok response ∧ (response.isEvent = true ∨ response = .disconnect)
  reply : frame.answers ≠ none → ∃ response, frame.tells protocol = .ok response ∧ response.isEvent = false

def Leaves (protocol : Protocol) (frame : Frame) : Prop :=
  frame.answers = none ∧ frame.tells protocol = .ok .disconnect

-- A reply comes while its request waits, no request gives up once its reply has been sent, and no
-- read is cancelled inside a frame.
def Prompt (protocol : Protocol) (link : Link) : LinkStep → Prop
  | .deliver frame => WellFormed protocol frame ∧ ∀ n, frame.answers = some n →
      link.awaiting = some n ∧ ∀ other ∈ link.frames, ¬ Leaves protocol other
  | .interrupted consumed _ => consumed = 0 ∧ ∀ n, link.awaiting = some n → link.replied ≤ n
  | .eventInterrupted consumed _ => consumed = 0
  | .request _ | .receive | .nextEvent => True

variable {protocol : Protocol} {link link' : Link} {move : LinkStep} {frame : Frame}
  {unread : List Frame}

theorem readResponse_encode (hpos : 0 < frame.payload.length)
    (hmax : frame.payload.length ≤ protocol.maxMessageBytes) (rest : Bytes) :
    protocol.readResponse (frame.encode ++ rest) = some (frame.tells protocol, rest) := by
  have hlen := readU32le_u32le frame.fits
  simp only [Frame.encode, u32le, List.cons_append, List.nil_append, Protocol.readResponse, hlen]
  rw [if_neg (by omega), if_neg (by simp), List.take_left, List.drop_left]
  rfl

theorem readResponse_unread {rest : Bytes} {result : Except AuxProtocolError AuxResponse}
    (hframes : ∀ frame ∈ unread, 0 < frame.payload.length ∧
      frame.payload.length ≤ protocol.maxMessageBytes)
    (h : protocol.readResponse (unread.flatMap Frame.encode) = some (result, rest)) :
    ∃ frame unread', unread = frame :: unread' ∧ result = frame.tells protocol ∧
      rest = unread'.flatMap Frame.encode := by
  cases unread with
  | nil => cases h
  | cons frame unread =>
    obtain ⟨hpos, hmax⟩ := hframes frame (by simp)
    rw [List.flatMap_cons, readResponse_encode hpos hmax] at h
    cases h
    exact ⟨frame, unread, rfl, rfl, rfl⟩

-- What holds between the frames that were sent and the frames that were read.
structure Aligned (protocol : Protocol) (link : Link) (consumed unread : List Frame) : Prop where
  frames : link.frames = consumed ++ unread
  decoded : link.decoded = consumed.map (Frame.tells protocol)
  inbound : link.inbound = unread.flatMap Frame.encode
  wellFormed : ∀ frame ∈ unread, WellFormed protocol frame
  waiting : ∀ frame ∈ unread, ∀ n, frame.answers = some n → link.awaiting = some n ∧ n < link.replied
  once : ∀ before frame after, unread = before ++ frame :: after → frame.answers ≠ none →
    ∀ other ∈ after, other.answers = none
  last : ∀ before frame after, unread = before ++ frame :: after → Leaves protocol frame →
    ∀ other ∈ after, other.answers = none
  returned : ∀ n value, (n, .ok value) ∈ link.returned →
    ∃ frame ∈ link.frames, frame.answers = some n ∧ frame.tells protocol = .ok value


variable {consumed : List Frame}

theorem Aligned.silent (h : Aligned protocol link consumed unread)
    (hidle : ∀ n, link.awaiting = some n → link.replied ≤ n) : ∀ frame ∈ unread, frame.answers = none := by
  intro frame hframe
  cases ha : frame.answers with
  | none => rfl
  | some n =>
    obtain ⟨hwait, hreplied⟩ := h.waiting frame hframe n ha
    have := hidle n hwait
    omega

theorem Aligned.receives (h : Aligned protocol link consumed unread) {rest : Bytes}
    {result : Except AuxProtocolError AuxResponse}
    (hread : protocol.readResponse link.inbound = some (result, rest)) :
    ∃ frame unread', unread = frame :: unread' ∧ result = frame.tells protocol ∧
      Aligned protocol (link.read result rest) (consumed ++ [frame]) unread' := by
  rw [h.inbound] at hread
  obtain ⟨frame, unread', rfl, rfl, rfl⟩ := readResponse_unread
    (fun f hf => ⟨(h.wellFormed f hf).nonempty, (h.wellFormed f hf).bounded⟩) hread
  refine ⟨frame, unread', rfl, rfl, ?_, ?_, rfl, fun f hf => h.wellFormed f (.tail _ hf),
    fun f hf => h.waiting f (.tail _ hf), fun before f after hsplit => ?_, fun before f after hsplit => ?_,
    h.returned⟩
  · rw [List.append_assoc]
    exact h.frames
  · simp [Link.read, h.decoded]
  · exact h.once (frame :: before) f after (by rw [hsplit, List.cons_append])
  · exact h.last (frame :: before) f after (by rw [hsplit, List.cons_append])

theorem Aligned.finish (h : Aligned protocol link consumed unread)
    (hsilent : ∀ frame ∈ unread, frame.answers = none) (n : Nat)
    {result : Except AuxProtocolError AuxResponse}
    (hresult : ∀ value, result = .ok value →
      ∃ frame ∈ link.frames, frame.answers = some n ∧ frame.tells protocol = .ok value) :
    Aligned protocol (link.finish n result) consumed unread where
  frames := h.frames
  decoded := h.decoded
  inbound := h.inbound
  wellFormed := h.wellFormed
  waiting frame hframe m hm := by
    rw [hsilent frame hframe] at hm
    cases hm
  once := h.once
  last := h.last
  returned m value hmem := by
    rcases List.mem_append.mp hmem with hold | hnew
    · exact h.returned m value hold
    · cases List.mem_singleton.mp hnew
      exact hresult value rfl

theorem Aligned.dispatch {frame : Frame} {n : Nat} {result : Except AuxProtocolError AuxResponse}
    {rest : Bytes} (h : Aligned protocol link consumed (frame :: unread)) (hn : link.awaiting = some n)
    (hresult : result = frame.tells protocol)
    (hread : Aligned protocol (link.read result rest) (consumed ++ [frame]) unread) :
    Aligned protocol ((link.read result rest).dispatch n result) (consumed ++ [frame]) unread := by
  have hmem : frame ∈ link.frames := by
    rw [h.frames]
    simp
  cases ha : frame.answers with
  | none =>
    obtain ⟨response, htells, hevent⟩ := (h.wellFormed frame (by simp)).event ha
    rw [htells] at hresult
    subst hresult
    by_cases hisEvent : response.isEvent = true
    · simp only [Link.dispatch, hisEvent, if_true]
      exact ⟨hread.frames, hread.decoded, hread.inbound, hread.wellFormed, hread.waiting, hread.once,
        hread.last, hread.returned⟩
    · obtain rfl := hevent.resolve_left hisEvent
      simp only [Link.dispatch, hisEvent, if_true]
      exact hread.finish (h.last [] frame unread rfl ⟨ha, htells⟩) n (fun _ h => by cases h)
  | some m =>
    obtain ⟨response, htells, hevent⟩ := (h.wellFormed frame (by simp)).reply (by simp [ha])
    rw [htells] at hresult
    subst hresult
    obtain ⟨hwait, -⟩ := h.waiting frame (by simp) m ha
    obtain rfl : n = m := Option.some.inj (hn.symm.trans hwait)
    have hsilent := h.once [] frame unread rfl (by simp [ha])
    simp only [Link.dispatch, hevent, Bool.false_eq_true, if_false]
    split
    · exact hread.finish hsilent n (fun _ h => by cases h)
    · refine hread.finish hsilent n fun value hvalue => ?_
      cases hvalue
      exact ⟨frame, hmem, ha, htells⟩

theorem split_concat {α : Type} {xs before after : List α} {x y : α}
    (h : xs ++ [x] = before ++ y :: after) :
    after = [] ∨ ∃ after', after = after' ++ [x] ∧ xs = before ++ y :: after' := by
  rcases List.eq_nil_or_concat after with rfl | ⟨after', z, rfl⟩
  · exact .inl rfl
  · rw [List.concat_eq_append, ← List.cons_append, ← List.append_assoc] at h
    obtain ⟨hxs, hz⟩ := List.append_inj' h rfl
    exact .inr ⟨after', by rw [List.concat_eq_append, List.singleton_inj.mp hz], hxs⟩

theorem Aligned.deliver (h : Aligned protocol link consumed unread) (hprompt : Prompt protocol link (.deliver frame))
    (hperform : link.perform protocol (.deliver frame) = some link') :
    Aligned protocol link' consumed (unread ++ [frame]) := by
  obtain ⟨hwell, hreply⟩ := hprompt
  have hfresh : ∀ n, frame.answers = some n → link.replied ≤ n → ∀ other ∈ unread, other.answers = none := by
    intro n ha hle
    refine h.silent fun m hm => ?_
    obtain rfl : n = m := Option.some.inj ((hreply n ha).1.symm.trans hm)
    exact hle
  have hlink : link'.frames = link.frames ++ [frame] ∧ link'.decoded = link.decoded ∧
      link'.inbound = link.inbound ++ frame.encode ∧ link'.awaiting = link.awaiting ∧
      link'.returned = link.returned ∧ link.replied ≤ link'.replied ∧
      ∀ n, frame.answers = some n → link.replied ≤ n ∧ link'.replied = n + 1 := by
    simp only [Link.perform] at hperform
    split at hperform
    · rename_i ha
      cases hperform
      exact ⟨rfl, rfl, rfl, rfl, rfl, le_rfl, fun n hn => by rw [ha] at hn; cases hn⟩
    · rename_i n ha
      split at hperform
      · rename_i hn
        cases hperform
        refine ⟨rfl, rfl, rfl, rfl, rfl, Nat.le_succ_of_le hn.1, fun m hm => ?_⟩
        obtain rfl : n = m := Option.some.inj (ha.symm.trans hm)
        exact ⟨hn.1, rfl⟩
      · cases hperform
  obtain ⟨hframes, hdecoded, hinbound, hawaiting, hreturned, hmono, hreplied⟩ := hlink
  refine ⟨?_, by rw [hdecoded, h.decoded], ?_, ?_, ?_, ?_, ?_, ?_⟩
  · rw [hframes, h.frames, List.append_assoc]
  · rw [hinbound, h.inbound, List.flatMap_append]
    simp
  · intro other hother
    rcases List.mem_append.mp hother with hold | hnew
    · exact h.wellFormed other hold
    · rwa [List.mem_singleton.mp hnew]
  · intro other hother n hn
    rcases List.mem_append.mp hother with hold | hnew
    · obtain ⟨hwait, hlt⟩ := h.waiting other hold n hn
      exact ⟨hawaiting.trans hwait, by omega⟩
    · rw [List.mem_singleton.mp hnew] at hn
      exact ⟨hawaiting.trans (hreply n hn).1, by rw [(hreplied n hn).2]; omega⟩
  · intro before f after hsplit hf other hother
    rcases split_concat hsplit with rfl | ⟨after', rfl, hunread⟩
    · cases hother
    rcases List.mem_append.mp hother with hold | hnew
    · exact h.once before f after' hunread hf other hold
    · rw [List.mem_singleton.mp hnew]
      cases ha : frame.answers with
      | none => rfl
      | some n => exact absurd (hfresh n ha (hreplied n ha).1 f (by rw [hunread]; simp)) hf
  · intro before f after hsplit hf other hother
    rcases split_concat hsplit with rfl | ⟨after', rfl, hunread⟩
    · cases hother
    rcases List.mem_append.mp hother with hold | hnew
    · exact h.last before f after' hunread hf other hold
    · rw [List.mem_singleton.mp hnew]
      cases ha : frame.answers with
      | none => rfl
      | some n => exact absurd hf ((hreply n ha).2 f (by rw [h.frames, hunread]; simp))
  · intro n value hmem
    rw [hreturned] at hmem
    obtain ⟨other, hother, htells⟩ := h.returned n value hmem
    exact ⟨other, by rw [hframes]; simp [hother], htells⟩


theorem Aligned.step (h : Aligned protocol link consumed unread) (hprompt : Prompt protocol link move)
    (hperform : link.perform protocol move = some link') :
    ∃ consumed' unread', Aligned protocol link' consumed' unread' := by
  cases move with
  | deliver frame => exact ⟨_, _, h.deliver hprompt hperform⟩
  | request payload =>
    simp only [Link.perform] at hperform
    split at hperform
    · cases hperform
    · rename_i hidle
      split at hperform <;> cases hperform
      · exact ⟨_, _, h⟩
      · have hsilent := h.silent fun n hn => absurd (by simp [hn]) hidle
        refine ⟨consumed, unread, h.frames, h.decoded, h.inbound, h.wellFormed, fun f hf n hn => ?_, h.once,
          h.last, h.returned⟩
        rw [hsilent f hf] at hn
        cases hn
  | receive =>
    simp only [Link.perform] at hperform
    split at hperform
    · rename_i n result rest hn hread
      cases hperform
      obtain ⟨frame, unread', rfl, hresult, hnext⟩ := h.receives hread
      exact ⟨_, _, h.dispatch hn hresult hnext⟩
    · cases hperform
  | interrupted taken e =>
    obtain ⟨rfl, hleft⟩ := hprompt
    simp only [Link.perform] at hperform
    split at hperform
    · cases hperform
    · rename_i n hn
      split at hperform <;> cases hperform
      exact ⟨_, _, h.finish (h.silent hleft) n fun _ h => by cases h⟩
  | nextEvent =>
    simp only [Link.perform] at hperform
    split at hperform
    · cases hperform
    · split at hperform
      · cases hperform
        exact ⟨consumed, unread, h.frames, h.decoded, h.inbound, h.wellFormed, h.waiting, h.once, h.last,
          h.returned⟩
      · split at hperform
        · rename_i result rest hread
          cases hperform
          obtain ⟨frame, unread', -, -, hnext⟩ := h.receives hread
          exact ⟨_, _, hnext⟩
        · cases hperform
  | eventInterrupted taken e =>
    obtain rfl := hprompt
    simp only [Link.perform] at hperform
    split at hperform
    · cases hperform
    · split at hperform <;> cases hperform
      exact ⟨_, _, h⟩

theorem Aligned.new : Aligned protocol Link.new [] [] := by
  refine ⟨rfl, rfl, rfl, ?_, ?_, ?_, ?_, ?_⟩ <;> simp [Link.new]

theorem requests_correspond (protocol : Protocol) (trace : List (Link × LinkStep)) (link : Link)
    (hrun : Link.Runs protocol trace link) (hprompt : ∀ moment ∈ trace, Prompt protocol moment.1 moment.2) :
    Corresponds protocol link := by
  have haligned : ∃ consumed unread, Aligned protocol link consumed unread := by
    induction hrun with
    | start => exact ⟨[], [], .new⟩
    | step hrun hperform ih =>
      obtain ⟨consumed, unread, h⟩ := ih fun moment hmem => hprompt moment (by simp [hmem])
      exact h.step (hprompt (_, _) (by simp)) hperform
  obtain ⟨consumed, unread, h⟩ := haligned
  exact ⟨h.returned, consumed, unread, h.frames, h.decoded, h.inbound⟩


def tinyProtocol : Protocol where
  maxMessageBytes := 8
  deserialize bytes := if bytes = [1] then some .ack else some (.notification [])

def event : Frame := ⟨[0], none, by decide⟩

def replyTo (n : Nat) : Frame := ⟨[1], some n, by decide⟩

def afterRequest : Link := { Link.new with awaiting := some 0, sent := 1 }

def afterEvent : Link := { afterRequest with inbound := event.encode, frames := [event] }

def afterReply : Link :=
  { afterEvent with inbound := event.encode ++ (replyTo 0).encode, frames := [event, replyTo 0], replied := 1 }

def promptTrace : List (Link × LinkStep) :=
  [(Link.new, .request [7]), (afterRequest, .deliver event), (afterEvent, .deliver (replyTo 0)),
    (afterReply, .receive)]

def answered : Link :=
  { afterReply with
    inbound := (replyTo 0).encode
    decoded := [.ok (.notification [])]
    events := [.notification []] }

theorem runs_answered : Link.Runs tinyProtocol promptTrace answered :=
  ((((Link.Runs.start.step (by rfl : _ = some afterRequest)).step (by rfl : _ = some afterEvent)).step
    (by rfl : _ = some afterReply)).step (by rfl : _ = some answered))

theorem prompt_answered : ∀ moment ∈ promptTrace, Prompt tinyProtocol moment.1 moment.2 := by
  simp only [promptTrace, List.forall_mem_cons, List.not_mem_nil, false_implies, implies_true, and_true]
  refine ⟨trivial, ⟨⟨by decide, by decide, fun _ => ⟨_, rfl, .inl rfl⟩, fun h => absurd rfl h⟩,
    fun n h => by cases h⟩, ⟨⟨by decide, by decide, fun h => (by cases h), fun _ => ⟨.ack, rfl, rfl⟩⟩,
      fun n h => ?_⟩, trivial⟩
  cases h
  refine ⟨rfl, fun other hother hleaves => ?_⟩
  obtain rfl : other = event := List.mem_singleton.mp hother
  exact absurd hleaves.2 (by decide)

theorem requests_correspond_answered : Corresponds tinyProtocol answered :=
  requests_correspond tinyProtocol promptTrace answered runs_answered prompt_answered

-- The first request times out, its reply comes while the second one waits.
def mistaken : Link :=
  { Link.new with
    sent := 2
    replied := 1
    frames := [replyTo 0]
    decoded := [.ok .ack]
    returned := [(0, .error .timeout), (1, .ok .ack)] }

theorem late_reply_answers_next_request :
    ∃ trace, Link.Runs tinyProtocol trace mistaken ∧ ¬ Corresponds tinyProtocol mistaken := by
  have hfirst := Link.Runs.start.step (rfl : Link.new.perform tinyProtocol (.request [7]) = some _)
  have htimedOut := hfirst.step (rfl : Link.perform tinyProtocol _ (.interrupted 0 .timeout) = some _)
  have hsecond := htimedOut.step (rfl : Link.perform tinyProtocol _ (.request [7]) = some _)
  have hlate := hsecond.step (rfl : Link.perform tinyProtocol _ (.deliver (replyTo 0)) = some _)
  have hreceived : Link.Runs tinyProtocol _ mistaken :=
    hlate.step (rfl : Link.perform tinyProtocol _ .receive = some mistaken)
  refine ⟨_, hreceived, fun h => ?_⟩
  obtain ⟨frame, hframe, hanswers, -⟩ := h.replies 1 .ack (by simp [mistaken])
  obtain rfl : frame = replyTo 0 := List.mem_singleton.mp hframe
  cases hanswers

end Debugger
