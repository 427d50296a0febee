import MeridianMcp.Tracy.BoundedLine

namespace Tracy

open MeridianMcp Effects Delimited

def maxTracyResponseBytes : Nat := 4 * 1024 * 1024

def popLast (byte : UInt8) (bytes : Bytes) : Bytes :=
  if bytes.getLast? = some byte then bytes.dropLast else bytes

def responseBody (line : Bytes) : Bytes := popLast carriageReturn (popLast lineFeed line)

def receiveFrame (fromSlice : Bytes → Frame) : LineResult → Frame
  | .error error => .readFailed error
  | .ok none => .closed
  | .ok (some (bytes, _)) =>
    if maxTracyResponseBytes < (responseBody bytes).length then .oversized
    else fromSlice (responseBody bytes)

variable {R : Type} (fromSlice : Bytes → Frame) (deliver : R → Document → Except Text R)

-- The loop hands each document to the registry and ends with the first error.
def readerLoop : Nat → R → ByteStream → List Frame
  | 0, _, _ => []
  | calls + 1, registry, stream =>
    let (result, stream) := nextLine (maxTracyResponseBytes + 2) false stream
    let frame := receiveFrame fromSlice result
    match frame.parse >>= deliver registry with
    | .error _ => [frame]
    | .ok registry => frame :: readerLoop calls registry stream

def receivedFrames : R → List LineResult → List Frame
  | _, [] => []
  | registry, result :: results =>
    let frame := receiveFrame fromSlice result
    match frame.parse >>= deliver registry with
    | .error _ => [frame]
    | .ok registry => frame :: receivedFrames registry results

theorem readerLoop_eq (calls : Nat) (registry : R) (stream : ByteStream) :
    readerLoop fromSlice deliver calls registry stream =
      receivedFrames fromSlice deliver registry
        (boundedLines (maxTracyResponseBytes + 2) false calls stream) := by
  induction calls generalizing registry stream with
  | zero => rfl
  | succ calls ih =>
    rw [readerLoop, boundedLines]
    obtain ⟨result, next⟩ := nextLine (maxTracyResponseBytes + 2) false stream
    cases result with
    | error error => rfl
    | ok found =>
      cases found with
      | none => rfl
      | some line =>
        simp only [receivedFrames]
        split
        · rfl
        · rw [ih]

-- A line ends with a line feed, and the carriage return before it belongs to the ending.
inductive Ended (body : Bytes) : Bytes → Prop
  | lineFeed : body.getLast? ≠ some carriageReturn → Ended body (body ++ [Tracy.lineFeed])
  | carriageReturn : Ended body (body ++ [Tracy.carriageReturn, Tracy.lineFeed])

theorem popLast_concat (byte : UInt8) (bytes : Bytes) : popLast byte (bytes ++ [byte]) = bytes := by
  rw [popLast, if_pos List.getLast?_concat, List.dropLast_concat]

theorem responseBody_of_ended {body line : Bytes} (h : Ended body line) : responseBody line = body := by
  cases h with
  | lineFeed h => rw [responseBody, popLast_concat, popLast, if_neg h]
  | carriageReturn =>
    rw [responseBody, ← List.singleton_append, ← List.append_assoc, popLast_concat, popLast_concat]

theorem length_popLast (byte : UInt8) (bytes : Bytes) : bytes.length ≤ (popLast byte bytes).length + 1 := by
  unfold popLast
  split
  · rw [List.length_dropLast]
    omega
  · omega

theorem length_responseBody (line : Bytes) : line.length ≤ (responseBody line).length + 2 := by
  have hfeed := length_popLast lineFeed line
  have hreturn := length_popLast carriageReturn (popLast lineFeed line)
  rw [responseBody]
  omega

def Rejected (frame : Frame) : Prop := frame = .oversized ∨ frame = .readFailed oversizedLine

variable {fromSlice}

theorem receiveFrame_line (line : Bytes) :
    ((responseBody line).length ≤ maxTracyResponseBytes →
      receiveFrame fromSlice (lineResult (maxTracyResponseBytes + 2) false line) =
        fromSlice (responseBody line)) ∧
    (maxTracyResponseBytes < (responseBody line).length →
      Rejected (receiveFrame fromSlice (lineResult (maxTracyResponseBytes + 2) false line))) := by
  have hlength := length_responseBody line
  rcases lineResult_cases line with ⟨hover, -, hresult⟩ | ⟨hwithin, hresult⟩
  · rw [hresult]
    exact ⟨fun hbody => by omega, fun _ => Or.inr rfl⟩
  · have hall : line.take (maxTracyResponseBytes + 2) = line :=
      List.take_of_length_le (by
        have := not_and.mp hwithin
        by_contra hover
        exact this (by omega) rfl)
    rw [hresult, keptLine, hall]
    constructor
    · intro hbody
      rw [receiveFrame, if_neg (Nat.not_lt.mpr hbody)]
    · intro hbody
      exact Or.inl (by rw [receiveFrame, if_pos hbody])

variable (fromSlice)

theorem bounded_lines :
    (∀ limit drain (stream : ByteStream) calls, (content stream.chunks).length < calls →
      boundedLines limit drain calls stream =
        lineResults stream.failure limit drain (split lineFeed (content stream.chunks))) ∧
    (∀ limit (stream : ByteStream) body rest, lineFeed ∉ body →
      content stream.chunks = body ++ lineFeed :: rest →
        (nextLine limit true stream).1 = .ok (some (keptLine limit (body ++ [lineFeed]))) ∧
          content (nextLine limit true stream).2.chunks = rest) ∧
    (∀ (registry : R) (stream : ByteStream) calls, (content stream.chunks).length < calls →
      readerLoop fromSlice deliver calls registry stream =
        receivedFrames fromSlice deliver registry (lineResults stream.failure
          (maxTracyResponseBytes + 2) false (split lineFeed (content stream.chunks)))) ∧
    ∀ body line, Ended body line →
      (body.length ≤ maxTracyResponseBytes →
        receiveFrame fromSlice (lineResult (maxTracyResponseBytes + 2) false line) = fromSlice body) ∧
      (maxTracyResponseBytes < body.length →
        Rejected (receiveFrame fromSlice (lineResult (maxTracyResponseBytes + 2) false line))) := by
  refine ⟨fun limit drain stream calls h => boundedLines_eq h, ?_, ?_, ?_⟩
  · intro limit stream body rest hbody hcontent
    obtain ⟨hresult, hrest⟩ := @nextLine_line limit true stream body rest hcontent hbody
    have hkept : lineResult limit true (body ++ [lineFeed]) =
        .ok (some (keptLine limit (body ++ [lineFeed]))) := by
      rw [lineResult, Bool.not_true, Bool.and_false]
      rfl
    rw [hkept] at hresult
    exact ⟨hresult, hrest (by rw [hresult]; rfl)⟩
  · intro registry stream calls h
    rw [readerLoop_eq, boundedLines_eq h]
  · intro body line hline
    have hframe := @receiveFrame_line fromSlice line
    rwa [responseBody_of_ended hline] at hframe

-- "a\r" and "\nb": the ending of the first line lies across the two reads.
def splitEnding : ByteStream :=
  ⟨[⟨[0x61, 0x0d], List.cons_ne_nil _ _⟩, ⟨[0x0a, 0x62], List.cons_ne_nil _ _⟩], none⟩

theorem splitEnding_lines : boundedLines 1 true 5 splitEnding =
    [.ok (some ([0x61], true)), .ok (some ([0x62], false)), .ok none] := by
  rw [(bounded_lines (fun _ => .missingId) (fun (r : Unit) _ => .ok r)).1 1 true splitEnding 5 (by decide)]
  rfl

end Tracy
