import MeridianMcp.Effects.FinMap
import MeridianMcp.Effects.Trace
import MeridianMcp.Tracy.Capture

namespace Tracy

open MeridianMcp Effects

def maxPendingRequests : Nat := 256

def maxAbandonedRequests : Nat := 256

def maxTracyRequestBytes : Nat := 1024 * 1024

structure Document where
  id : Nat
  ok : Option Bool
  code : Option String
  message : Option Text
  details : HelperDetails
  result : Option Text
  deriving DecidableEq, Repr

def Document.outcome (document : Document) : Except TracyProtocolError Text :=
  if document.ok = some false then
    .error (.helper (document.code.getD "unknown") (document.message.getD "helper failed".toList)
      document.details)
  else
    match document.result with
    | some result => .ok result
    | none => .error .missingResult

inductive Frame where
  | closed | oversized | schemaMismatch | missingId
  | readFailed (error : Text)
  | invalidJson (error : Text)
  | response (document : Document)
  deriving DecidableEq, Repr

def Frame.parse : Frame → Except Text Document
  | .closed => .error "collector closed stdout".toList
  | .oversized => .error "collector response exceeded the fixed byte limit".toList
  | .schemaMismatch => .error "collector response schema mismatch".toList
  | .missingId => .error "collector response omitted its id".toList
  | .readFailed error => .error ("collector read failed: ".toList ++ error)
  | .invalidJson error => .error ("collector returned invalid JSON: ".toList ++ error)
  | .response document => .ok document

abbrev PendingResult := Except Text Document

abbrev RequestResult := Except TracyProtocolError Text

-- The oneshot channel of a request: its sender may be in the registry, taken out, or used.
inductive Cell where
  | empty
  | sending (result : PendingResult)
  | sent (result : PendingResult)

-- A request whose future is dropped ends without a result.
inductive RequestStage where
  | fresh
  | numbering
  | queued (id : Nat)
  | writing (id : Nat)
  | waiting (id : Nat)
  | abandoning (id : Nat) (result : Option RequestResult)
  | dropping (id : Nat) (result : Option RequestResult)
  | overflowing (id : Nat) (result : Option RequestResult)
  | returned (id : Option Nat) (result : Option RequestResult)

def RequestStage.id : RequestStage → Option Nat
  | .queued id => some id
  | .writing id => some id
  | .waiting id => some id
  | .abandoning id _ => some id
  | .dropping id _ => some id
  | .overflowing id _ => some id
  | .returned id _ => id
  | _ => none

inductive ReaderStage where
  | reading
  | failing (message : Text)
  | stopped

structure Registry (I : Type) where
  pending : FinMap Nat I
  abandoned : Finset Nat
  terminal : Option Text

-- `issued` are the ids that have been pending, `refused` says that a response was unknown or a
-- duplicate, and `condemned` are the requests that were pending when the transport failed.
structure Transport (I : Type) where
  registry : Registry I
  nextRequestId : Nat
  writerOpen : Bool
  writerHolder : Option I
  requests : I → RequestStage
  cells : I → Cell
  reader : ReaderStage
  issued : Finset Nat
  refused : Bool
  condemned : I → Bool

def Transport.new (I : Type) : Transport I where
  registry := ⟨.empty, ∅, none⟩
  nextRequestId := 1
  writerOpen := true
  writerHolder := none
  requests _ := .fresh
  cells _ := .empty
  reader := .reading
  issued := ∅
  refused := false
  condemned _ := false

inductive TransportStep (I : Type) where
  | call (i : I) (isObject : Bool)
  | number (i : I) (requestLength : Nat)
  | enter (i : I)
  | wrote (i : I) (failure : Option Text)
  | expire (i : I)
  | cancel (i : I)
  | receive (i : I)
  | dropGuard (i : I)
  | send (i : I)
  | frame (frame : Frame)
  | failReader
  | stopReader
  | dropOwner
  | closeWriter

namespace Transport

variable {I : Type} [DecidableEq I]

def goto (w : Transport I) (i : I) (stage : RequestStage) : Transport I :=
  { w with requests := Function.update w.requests i stage }

def transportError (message : String) : Option RequestResult :=
  some (.error (.transport message.toList))

def isPending (w : Transport I) (i : I) : Bool :=
  match (w.requests i).id with
  | some id => decide (w.registry.pending.get id = some i)
  | none => false

def failTransport (w : Transport I) (message : Text) : Transport I :=
  if w.registry.terminal.isSome then w
  else { w with
    registry := ⟨.empty, ∅, some message⟩
    cells := fun i => if w.isPending i then .sending (.error message) else w.cells i
    condemned := fun i => w.condemned i || w.isPending i }

def takeNumber (w : Transport I) (i : I) (requestLength : Nat) : Transport I :=
  if w.nextRequestId + 1 < 2 ^ 64 then
    { w with nextRequestId := w.nextRequestId + 1 }.goto i
      (if maxTracyRequestBytes < requestLength then
        .returned (some w.nextRequestId) (some (.error .requestTooLarge))
      else .queued w.nextRequestId)
  else w.goto i (.returned none (transportError "collector request IDs exhausted"))

def enter (w : Transport I) (i : I) (id : Nat) : Transport I :=
  if w.writerOpen = false then w.goto i (.returned (some id) (transportError "collector stdin closed"))
  else
    match w.registry.terminal with
    | some error => w.goto i (.returned (some id) (some (.error (.transport error))))
    | none =>
      if w.registry.pending.keys.card = maxPendingRequests then
        w.goto i (.returned (some id) (transportError "collector pending-request capacity exceeded"))
      else
        { w with
          registry := { w.registry with pending := w.registry.pending.insert id i }
          writerHolder := some i
          issued := insert id w.issued }.goto i (.writing id)

def received (result : PendingResult) : RequestResult :=
  match result with
  | .ok document => document.outcome
  | .error message => .error (.transport message)

-- The guard of a request whose frame was written: the section, and the failure that follows it
-- when there is no room for one more abandoned id.
def releaseGuard (w : Transport I) (i : I) (id : Nat) (result : Option RequestResult) : Transport I :=
  match w.registry.pending.get id with
  | none => w.goto i (.returned (some id) result)
  | some _ =>
    let w := { w with registry := { w.registry with pending := w.registry.pending.erase id } }
    if w.registry.terminal.isSome then w.goto i (.returned (some id) result)
    else if w.registry.abandoned.card = maxAbandonedRequests then w.goto i (.overflowing id result)
    else { w with registry := { w.registry with abandoned := insert id w.registry.abandoned } }.goto i
      (.returned (some id) result)

def unknownId (id : Nat) : Text :=
  "collector returned unknown or duplicate response id ".toList ++ (toString id).toList

def respond (w : Transport I) (document : Document) : Transport I :=
  if w.registry.terminal.isSome then w
  else
    match w.registry.pending.get document.id with
    | some i =>
      { w with
        registry := { w.registry with pending := w.registry.pending.erase document.id }
        cells := Function.update w.cells i (.sending (.ok document)) }
    | none =>
      if document.id ∈ w.registry.abandoned then
        { w with registry := { w.registry with abandoned := w.registry.abandoned.erase document.id } }
      else { w with reader := .failing (unknownId document.id), refused := true }

def perform (w : Transport I) : TransportStep I → Option (Transport I)
  | .call i isObject =>
    match w.requests i with
    | .fresh => some (w.goto i (if isObject then .numbering else .returned none (some (.error .invalidParams))))
    | _ => none
  | .number i requestLength =>
    match w.requests i with
    | .numbering => some (w.takeNumber i requestLength)
    | _ => none
  | .enter i =>
    match w.requests i, w.writerHolder with
    | .queued id, none => some (w.enter i id)
    | _, _ => none
  | .wrote i failure =>
    match w.requests i with
    | .writing id =>
      match failure with
      | none => some ({ w with writerHolder := none }.goto i (.waiting id))
      | some error =>
        some (w.goto i (.abandoning id (some (.error (.transport ("collector write failed: ".toList ++ error))))))
    | _ => none
  | .expire i =>
    match w.requests i with
    | .queued id => some (w.goto i (.returned (some id) (some (.error (.timeout id)))))
    | .writing id => some (w.goto i (.abandoning id (some (.error (.timeout id)))))
    | .waiting id => some (w.goto i (.dropping id (some (.error (.timeout id)))))
    | _ => none
  | .cancel i =>
    match w.requests i with
    | .queued id => some (w.goto i (.returned (some id) none))
    | .writing id => some (w.goto i (.abandoning id none))
    | .waiting id => some (w.goto i (.dropping id none))
    | _ => none
  | .receive i =>
    match w.requests i, w.cells i with
    | .waiting id, .sent result => some (w.goto i (.dropping id (some (received result))))
    | _, _ => none
  | .dropGuard i =>
    match w.requests i with
    | .abandoning id result =>
      some ({ w.failTransport "collector request frame was abandoned during write".toList with
        writerHolder := none }.goto i (.returned (some id) result))
    | .dropping id result => some (w.releaseGuard i id result)
    | .overflowing id result =>
      some ((w.failTransport "collector abandoned-request capacity exceeded".toList).goto i
        (.returned (some id) result))
    | _ => none
  | .send i =>
    match w.cells i with
    | .sending result => some { w with cells := Function.update w.cells i (.sent result) }
    | _ => none
  | .frame frame =>
    match w.reader with
    | .reading =>
      match frame.parse with
      | .error message => some { w with reader := .failing message }
      | .ok document => some (w.respond document)
    | _ => none
  | .failReader =>
    match w.reader with
    | .failing message => some { w.failTransport message with reader := .stopped }
    | _ => none
  | .stopReader =>
    match w.reader with
    | .reading => if w.registry.terminal.isSome then some { w with reader := .stopped } else none
    | _ => none
  | .dropOwner => some (w.failTransport "collector transport dropped".toList)
  | .closeWriter => if w.writerHolder = none then some { w with writerOpen := false } else none

abbrev Runs : List (Transport I × TransportStep I) → Transport I → Prop := Trace perform (new I)

end Transport

end Tracy
