import MeridianMcp.LossyUtf8
import MeridianMcp.Machine
import MeridianMcp.Suffixes

namespace Process

open MeridianMcp Machine Suffixes

def maxProcessOutputBytes : Nat := 512 * 1024

structure BoundedOutput where
  text : Text
  capturedBytes : Nat
  truncatedBytes : Nat

structure TailBuffer where
  bytes : List UInt8
  truncatedBytes : Nat

def TailBuffer.new : TailBuffer := ⟨[], 0⟩

def TailBuffer.push (buffer : TailBuffer) (chunk : List UInt8) : Run Empty TailBuffer :=
  if maxProcessOutputBytes ≤ chunk.length then do
    let excess ← sub chunk.length maxProcessOutputBytes
    let tail ← slice chunk excess chunk.length
    .ok ⟨tail, saturatingAdd (saturatingAdd buffer.truncatedBytes buffer.bytes.length) excess⟩
  else
    let overflow := saturatingAdd buffer.bytes.length chunk.length - maxProcessOutputBytes
    if overflow ≠ 0 then do
      let kept ← slice buffer.bytes overflow buffer.bytes.length
      .ok ⟨kept ++ chunk, saturatingAdd buffer.truncatedBytes overflow⟩
    else .ok ⟨buffer.bytes ++ chunk, buffer.truncatedBytes⟩

def TailBuffer.finish (buffer : TailBuffer) : BoundedOutput where
  text := fromUtf8Lossy buffer.bytes
  capturedBytes := buffer.bytes.length
  truncatedBytes := buffer.truncatedBytes

-- What a buffer holds of all the output that it was given.
def TailBuffer.ofOutput (output : List UInt8) : TailBuffer where
  bytes := output.rtake maxProcessOutputBytes
  truncatedBytes := min (output.length - maxProcessOutputBytes) (wordSize - 1)

theorem bytes_ofOutput (output : List UInt8) :
    (TailBuffer.ofOutput output).bytes = output.rtake maxProcessOutputBytes := by
  rw [TailBuffer.ofOutput]

theorem truncatedBytes_ofOutput (output : List UInt8) :
    (TailBuffer.ofOutput output).truncatedBytes =
      min (output.length - maxProcessOutputBytes) (wordSize - 1) := by
  rw [TailBuffer.ofOutput]

section Push

variable {output chunk : List UInt8}

theorem drained {bytes : List UInt8} {count : Nat} (h : count ≤ bytes.length) :
    (slice bytes count bytes.length : Run Empty (List UInt8)) =
      .ok (bytes.rtake (bytes.length - count)) := by
  rw [slice_ok h (Nat.le_refl _), List.take_length, List.rtake, Nat.sub_sub_self h]

theorem ofOutput_nil : TailBuffer.ofOutput [] = TailBuffer.new := by
  rw [TailBuffer.ofOutput, List.rtake_nil, List.length_nil, Nat.zero_sub, Nat.zero_min]
  rfl

theorem push_long (h : maxProcessOutputBytes ≤ chunk.length) :
    (TailBuffer.ofOutput output).push chunk = .ok (.ofOutput (output ++ chunk)) := by
  have htruncated : saturatingAdd
      (saturatingAdd (min (output.length - maxProcessOutputBytes) (wordSize - 1))
        (output.rtake maxProcessOutputBytes).length) (chunk.length - maxProcessOutputBytes) =
      min ((output ++ chunk).length - maxProcessOutputBytes) (wordSize - 1) := by
    rw [length_rtake, saturatingAdd, saturatingAdd, List.length_append]
    generalize maxProcessOutputBytes = limit at h ⊢
    omega
  rw [TailBuffer.push, if_pos h, sub_ok h, ok_bind, drained (Nat.sub_le ..), ok_bind,
    Nat.sub_sub_self h, TailBuffer.ofOutput, TailBuffer.ofOutput, rtake_append_long h, htruncated]

theorem truncated_short :
    saturatingAdd (min (output.length - maxProcessOutputBytes) (wordSize - 1))
        (min maxProcessOutputBytes output.length + chunk.length - maxProcessOutputBytes) =
      min ((output ++ chunk).length - maxProcessOutputBytes) (wordSize - 1) := by
  rw [saturatingAdd, List.length_append]
  generalize maxProcessOutputBytes = limit
  omega

theorem kept_short
    (hfits : min maxProcessOutputBytes output.length + chunk.length ≤ maxProcessOutputBytes) :
    output.rtake maxProcessOutputBytes = output.rtake (maxProcessOutputBytes - chunk.length) := by
  have hshort : output.length ≤ maxProcessOutputBytes - chunk.length ∨ chunk.length = 0 := by
    omega
  rcases hshort with hshort | hempty
  · rw [rtake_of_le hshort, rtake_of_le (hshort.trans (Nat.sub_le ..))]
  · rw [hempty, Nat.sub_zero]

theorem push_short (h : chunk.length < maxProcessOutputBytes) :
    (TailBuffer.ofOutput output).push chunk = .ok (.ofOutput (output ++ chunk)) := by
  have hword : 2 * maxProcessOutputBytes < wordSize := by decide
  have hsum : saturatingAdd (output.rtake maxProcessOutputBytes).length chunk.length =
      min maxProcessOutputBytes output.length + chunk.length := by
    rw [saturatingAdd, length_rtake]
    omega
  have hkept : min maxProcessOutputBytes output.length -
      (min maxProcessOutputBytes output.length + chunk.length - maxProcessOutputBytes) =
      maxProcessOutputBytes - chunk.length ∨
      min maxProcessOutputBytes output.length + chunk.length ≤ maxProcessOutputBytes := by
    omega
  have htruncated := @truncated_short output chunk
  rw [TailBuffer.push, if_neg (Nat.not_le.mpr h), TailBuffer.ofOutput, TailBuffer.ofOutput,
    rtake_append_short h.le]
  dsimp only
  rw [hsum]
  split
  · rename_i hover
    rw [drained (by rw [length_rtake]; omega), ok_bind, rtake_rtake (by rw [length_rtake]; omega),
      length_rtake, hkept.resolve_right (by omega), htruncated]
  · rename_i hfits
    rw [not_ne_iff] at hfits
    rw [hfits, saturatingAdd, Nat.add_zero, Nat.min_eq_left (Nat.min_le_right ..)] at htruncated
    rw [kept_short (Nat.le_of_sub_eq_zero hfits), htruncated]

theorem push_ofOutput (output chunk : List UInt8) :
    (TailBuffer.ofOutput output).push chunk = .ok (.ofOutput (output ++ chunk)) :=
  (Nat.lt_or_ge chunk.length maxProcessOutputBytes).elim push_short push_long

end Push

theorem pushes_ofOutput (output : List UInt8) (chunks : List (List UInt8)) :
    chunks.foldlM TailBuffer.push (.ofOutput output) =
      .ok (TailBuffer.ofOutput (output ++ chunks.flatten)) := by
  induction chunks generalizing output with
  | nil => rw [List.flatten_nil, List.append_nil, List.foldlM_nil]; rfl
  | cons chunk chunks ih =>
    rw [List.foldlM_cons, push_ofOutput, ok_bind, ih, List.flatten_cons, List.append_assoc]

theorem new_pushes (chunks : List (List UInt8)) :
    chunks.foldlM TailBuffer.push TailBuffer.new = .ok (TailBuffer.ofOutput chunks.flatten) := by
  rw [← ofOutput_nil, pushes_ofOutput, List.nil_append]

theorem tail_pushed (chunks : List (List UInt8)) :
    ∃ buffer, chunks.foldlM TailBuffer.push TailBuffer.new = .ok buffer ∧
      buffer.bytes <:+ chunks.flatten ∧
      buffer.bytes.length = min chunks.flatten.length maxProcessOutputBytes ∧
      buffer.truncatedBytes = min (chunks.flatten.length - buffer.bytes.length) (2 ^ 64 - 1) ∧
      ∀ chunks' : List (List UInt8), chunks'.flatten = chunks.flatten →
        chunks'.foldlM TailBuffer.push TailBuffer.new = .ok buffer := by
  have hlength : (TailBuffer.ofOutput chunks.flatten).bytes.length =
      min chunks.flatten.length maxProcessOutputBytes := by
    rw [bytes_ofOutput, length_rtake, Nat.min_comm]
  refine ⟨.ofOutput chunks.flatten, new_pushes chunks, ?_, hlength, ?_, fun chunks' heq => ?_⟩
  · rw [bytes_ofOutput]
    exact rtake_suffix
  · rw [hlength, truncatedBytes_ofOutput, wordSize]
    generalize maxProcessOutputBytes = limit
    omega
  · rw [← heq]
    exact new_pushes chunks'

theorem length_even_chunks (count size : Nat) (byte : UInt8) :
    (List.replicate count (List.replicate size byte)).flatten.length = count * size := by
  rw [List.length_flatten, List.map_replicate, List.length_replicate, List.sum_replicate_nat]

theorem truncated_lt (output : List UInt8) :
    (TailBuffer.ofOutput output).truncatedBytes < wordSize := by
  rw [truncatedBytes_ofOutput, wordSize]
  omega

-- Five chunks of 2^62 bytes.
theorem truncated_bytes_saturate :
    ¬ ∀ chunks : List (List UInt8), ∃ buffer,
      chunks.foldlM TailBuffer.push TailBuffer.new = .ok buffer ∧
        buffer.truncatedBytes = chunks.flatten.length - buffer.bytes.length := by
  intro h
  obtain ⟨buffer, hbuffer, hexact⟩ := h (List.replicate 5 (List.replicate (2 ^ 62) 0))
  rw [new_pushes] at hbuffer
  have hshort := truncated_lt (List.replicate 5 (List.replicate (2 ^ 62) (0 : UInt8))).flatten
  have hheld := @length_rtake _ (List.replicate 5 (List.replicate (2 ^ 62) (0 : UInt8))).flatten
    maxProcessOutputBytes
  have hsmall : maxProcessOutputBytes < 2 ^ 20 := by decide
  rw [Except.ok.inj hbuffer, hexact, ← Except.ok.inj hbuffer, bytes_ofOutput, hheld,
    length_even_chunks, wordSize] at hshort
  omega

inductive OutputStream where
  | stdout
  | stderr
  deriving DecidableEq

inductive TerminationReason where
  | exited
  | wallTimeout
  | idleTimeout
  | cancelled
  | spawnFailed
  deriving DecidableEq

structure ProcessSpec where
  timeout : Nat
  idleTimeout : Nat

def channelCapacity : Nat := 64

def readChunkBytes : Nat := 8 * 1024

def outputDrainTimeout : Nat := 2000

-- Where `capture_stream` is: at its read, at its send, or behind its loop.
inductive Reader where
  | reading
  | sending (chunk : List UInt8)
  | ended

def Reader.held : Reader → List UInt8
  | sending chunk => chunk
  | _ => []

-- Where `run_contained_process` is: at the top of its loop, in the select or behind it, behind the
-- loop, in `drain_output` at the deadline or at the receive, or at its end.
inductive Stage where
  | checking
  | selecting
  | sampling
  | closing
  | draining (deadline : Nat)
  | receiving (deadline : Nat)
  | done (drained : Bool)
  | failed

def Stage.Over : Stage → Prop
  | done _ => True
  | failed => True
  | _ => False

-- One stream of the child. `dropped`: what its reader held when it was aborted or could not send;
-- `broken`: a read has failed.
structure Strand where
  writer : Bool
  written : List UInt8
  pipe : List UInt8
  reader : Reader
  broken : Bool
  dropped : List UInt8
  buffer : TailBuffer

def Strand.new : Strand := ⟨true, [], [], .reading, false, [], .new⟩

-- `left`: when the loop was left; `receivedAt`: when it last received a chunk.
structure Contained where
  stage : Stage
  queue : List (OutputStream × List UInt8)
  strands : OutputStream → Strand
  startedAt : Nat
  now : Nat
  lastProgress : Nat
  previousCpuTime : Option Nat
  termination : Option TerminationReason
  exitCode : Option Int
  left : Nat
  receivedAt : Nat

structure ProcessOutcome where
  exitCode : Option Int
  termination : TerminationReason
  durationMs : Nat
  stdout : BoundedOutput
  stderr : BoundedOutput

def ProcessOutcome.output (outcome : ProcessOutcome) : OutputStream → BoundedOutput
  | .stdout => outcome.stdout
  | .stderr => outcome.stderr

namespace Contained

def started (cpuTime : Option Nat) (now : Nat) : Contained where
  stage := .checking
  queue := []
  strands := fun _ => .new
  startedAt := now
  now := now
  lastProgress := now
  previousCpuTime := cpuTime
  termination := none
  exitCode := none
  left := now
  receivedAt := now

def put (r : Contained) (stream : OutputStream) (strand : Strand) : Contained :=
  { r with strands := Function.update r.strands stream strand }

def leave (r : Contained) (reason : TerminationReason) (code : Option Int) : Contained :=
  { r with stage := .closing, termination := some reason, exitCode := code, left := r.now }

def appendOutput (r : Contained) (stream : OutputStream) (bytes : List UInt8) : Run Empty Contained := do
  let buffer ← (r.strands stream).buffer.push bytes
  .ok (r.put stream { r.strands stream with buffer := buffer })

def sampled (r : Contained) : Option Nat → Contained
  | none => { r with stage := .checking }
  | some cpuTime => { r with
      stage := .checking
      lastProgress := if r.previousCpuTime.all (· < cpuTime) then r.now else r.lastProgress
      previousCpuTime := some cpuTime }

def outcome (r : Contained) : Option ProcessOutcome :=
  match r.stage, r.termination with
  | .done _, some termination => some {
      exitCode := r.exitCode
      termination := termination
      durationMs := r.now - r.startedAt
      stdout := (r.strands .stdout).buffer.finish
      stderr := (r.strands .stderr).buffer.finish }
  | _, _ => none

end Contained

-- The child and its descendants, the two readers, and the loop.
inductive Step (spec : ProcessSpec) (r : Contained) : Contained → Prop
  | pass {later : Nat} : r.now ≤ later → Step spec r { r with now := later }
  | write {stream : OutputStream} {bytes : List UInt8} : (r.strands stream).writer = true →
      Step spec r (r.put stream { r.strands stream with
        written := (r.strands stream).written ++ bytes, pipe := (r.strands stream).pipe ++ bytes })
  | close {stream : OutputStream} :
      Step spec r (r.put stream { r.strands stream with writer := false })
  | read {stream : OutputStream} {chunk rest : List UInt8} : (r.strands stream).reader = .reading →
      (r.strands stream).pipe = chunk ++ rest → chunk ≠ [] → chunk.length ≤ readChunkBytes →
      Step spec r (r.put stream { r.strands stream with reader := .sending chunk, pipe := rest })
  | ending {stream : OutputStream} : (r.strands stream).reader = .reading → (r.strands stream).pipe = [] →
      (r.strands stream).writer = false →
      Step spec r (r.put stream { r.strands stream with reader := .ended })
  | broken {stream : OutputStream} : (r.strands stream).reader = .reading →
      Step spec r (r.put stream { r.strands stream with reader := .ended, broken := true })
  | send {stream : OutputStream} {chunk : List UInt8} : (r.strands stream).reader = .sending chunk →
      r.queue.length < channelCapacity → r.stage ≠ .failed →
      Step spec r { r.put stream { r.strands stream with reader := .reading } with
        queue := r.queue ++ [(stream, chunk)] }
  | abort {stream : OutputStream} : r.stage.Over →
      Step spec r (r.put stream { r.strands stream with
        reader := .ended, dropped := (r.strands stream).reader.held ++ (r.strands stream).dropped })
  | wallTimeout {code : Option Int} : r.stage = .checking → spec.timeout ≤ r.now - r.startedAt →
      Step spec r (r.leave .wallTimeout code)
  | idleTimeout {code : Option Int} : r.stage = .checking → r.now - r.startedAt < spec.timeout →
      spec.idleTimeout ≤ r.now - r.lastProgress → Step spec r (r.leave .idleTimeout code)
  | check : r.stage = .checking → r.now - r.startedAt < spec.timeout →
      r.now - r.lastProgress < spec.idleTimeout → Step spec r { r with stage := .selecting }
  | exited {code : Option Int} : r.stage = .selecting → Step spec r (r.leave .exited code)
  | receive {stream : OutputStream} {chunk : List UInt8} {queue : List (OutputStream × List UInt8)}
      {s : Contained} : r.stage = .selecting → r.queue = (stream, chunk) :: queue →
      r.appendOutput stream chunk = .ok s →
      Step spec r { s with stage := .sampling, queue := queue, lastProgress := r.now, receivedAt := r.now }
  | cancelled {code : Option Int} : r.stage = .selecting → Step spec r (r.leave .cancelled code)
  | sleep : r.stage = .selecting → Step spec r { r with stage := .sampling }
  | sample {cpuTime : Option Nat} : r.stage = .sampling → Step spec r (r.sampled cpuTime)
  | fail : r.stage = .checking ∨ r.stage = .selecting → Step spec r { r with stage := .failed }
  | closed : r.stage = .closing → Step spec r { r with stage := .draining (r.now + outputDrainTimeout) }
  | drain {deadline : Nat} : r.stage = .draining deadline → r.now < deadline →
      Step spec r { r with stage := .receiving deadline }
  | drained {deadline : Nat} {stream : OutputStream} {chunk : List UInt8}
      {queue : List (OutputStream × List UInt8)} {s : Contained} : r.stage = .receiving deadline →
      r.queue = (stream, chunk) :: queue → r.appendOutput stream chunk = .ok s →
      Step spec r { s with stage := .draining deadline, queue := queue }
  | disconnected {deadline : Nat} : r.stage = .receiving deadline → r.queue = [] →
      (∀ stream, (r.strands stream).reader = .ended) → Step spec r { r with stage := .done true }
  | elapsed {deadline : Nat} : r.stage = .draining deadline ∨ r.stage = .receiving deadline →
      deadline ≤ r.now → Step spec r { r with stage := .done false }
  | unfed {drained : Bool} : r.stage = .done drained → r.termination = some .exited →
      Step spec r { r with stage := .failed }

inductive Reachable (spec : ProcessSpec) : Contained → Prop
  | started {cpuTime : Option Nat} {now : Nat} : Reachable spec (.started cpuTime now)
  | step {r s : Contained} : Reachable spec r → Step spec r s → Reachable spec s

-- The bytes of a stream that wait in the channel.
def waiting (stream : OutputStream) (queue : List (OutputStream × List UInt8)) : List UInt8 :=
  queue.flatMap fun message => if message.1 = stream then message.2 else []

section Waiting

variable {stream other : OutputStream} {chunk : List UInt8} {queue : List (OutputStream × List UInt8)}

@[simp]
theorem waiting_cons_self : waiting stream ((stream, chunk) :: queue) = chunk ++ waiting stream queue := by
  rw [waiting, List.flatMap_cons, if_pos rfl, waiting]

@[simp]
theorem waiting_append_self :
    waiting stream (queue ++ [(stream, chunk)]) = waiting stream queue ++ chunk := by
  rw [waiting, List.flatMap_append, List.flatMap_singleton, if_pos rfl, waiting]

theorem waiting_cons_of_ne (h : other ≠ stream) :
    waiting other ((stream, chunk) :: queue) = waiting other queue := by
  rw [waiting, List.flatMap_cons, if_neg h.symm, List.nil_append, waiting]

theorem waiting_append_of_ne (h : other ≠ stream) :
    waiting other (queue ++ [(stream, chunk)]) = waiting other queue := by
  rw [waiting, List.flatMap_append, List.flatMap_singleton, if_neg h.symm, List.append_nil, waiting]

end Waiting

structure Strand.Kept (stage : Stage) (queued : List UInt8) (strand : Strand) : Prop where
  conserved : ∃ received, strand.buffer = .ofOutput received ∧
    strand.written = received ++ (queued ++ (strand.reader.held ++ (strand.dropped ++ strand.pipe)))
  ended : strand.reader = .ended → strand.broken = true ∨ stage.Over ∨ strand.pipe = [] ∧ strand.writer = false
  active : strand.reader ≠ .ended → strand.dropped = []
  dropped : ¬ stage.Over → strand.dropped = []
  drained : stage = .done true → queued = [] ∧ strand.reader = .ended ∧ strand.dropped = [] ∧
    (strand.broken = true ∨ strand.pipe = [] ∧ strand.writer = false)

structure Contained.Kept (r : Contained) : Prop where
  strands : ∀ stream, (r.strands stream).Kept r.stage (waiting stream r.queue)
  queue : r.queue.length ≤ channelCapacity

theorem kept_started (cpuTime : Option Nat) (now : Nat) : (Contained.started cpuTime now).Kept := by
  refine ⟨fun stream => ⟨⟨[], ?_, ?_⟩, ?_, ?_, ?_, ?_⟩, Nat.zero_le _⟩
  · exact ofOutput_nil.symm
  · rfl
  · intro hended
    cases hended
  · exact fun _ => rfl
  · exact fun _ => rfl
  · intro hdone
    cases hdone

variable {spec : ProcessSpec} {r s : Contained} {stream : OutputStream} {strand : Strand}

theorem not_over {stage : Stage} (hstage : r.stage = stage) (h : ¬ stage.Over) : ¬ r.stage.Over := by
  rw [hstage]
  exact h

-- The loop goes on, or ends without the channel being found closed.
theorem Strand.Kept.advance {stage stage' : Stage} {queued : List UInt8} (h : strand.Kept stage queued)
    (hover : stage.Over → stage'.Over) (hdone : stage' ≠ .done true) : strand.Kept stage' queued where
  conserved := h.conserved
  ended hended := (h.ended hended).imp_right fun hrest => hrest.imp_left hover
  active := h.active
  dropped hnot := h.dropped fun hover' => hnot (hover hover')
  drained heq := absurd heq hdone

theorem Contained.Kept.advance (h : r.Kept) (hqueue : s.queue = r.queue) (hstrands : s.strands = r.strands)
    (hover : r.stage.Over → s.stage.Over) (hdone : s.stage ≠ .done true) : s.Kept := by
  refine ⟨fun stream => ?_, hqueue ▸ h.queue⟩
  rw [hstrands, hqueue]
  exact (h.strands stream).advance hover hdone

theorem Contained.Kept.goto (h : r.Kept) (hnot : ¬ r.stage.Over) (hqueue : s.queue = r.queue)
    (hstrands : s.strands = r.strands) (hdone : s.stage ≠ .done true) : s.Kept :=
  h.advance hqueue hstrands (fun hover => absurd hover hnot) hdone

-- One stream changes, the channel at most by a chunk of it.
theorem Contained.Kept.put (h : r.Kept) (hstrands : s.strands = Function.update r.strands stream strand)
    (hover : r.stage.Over → s.stage.Over) (hdone : s.stage = .done true → r.stage = .done true)
    (hown : strand.Kept s.stage (waiting stream s.queue))
    (hother : ∀ other, other ≠ stream → waiting other s.queue = waiting other r.queue)
    (hlength : s.queue.length ≤ channelCapacity) : s.Kept := by
  refine ⟨fun other => ?_, hlength⟩
  rw [hstrands]
  by_cases heq : other = stream
  · rw [heq, Function.update_self]
    exact hown
  · rw [Function.update_of_ne heq, hother other heq]
    have hkept := h.strands other
    exact ⟨hkept.conserved, fun hended => (hkept.ended hended).imp_right fun hrest => hrest.imp_left hover,
      hkept.active, fun hnot => hkept.dropped fun hover' => hnot (hover hover'), fun heq => hkept.drained (hdone heq)⟩

theorem Contained.Kept.own (h : r.Kept) (hown : strand.Kept r.stage (waiting stream r.queue)) :
    (r.put stream strand).Kept :=
  h.put rfl id id hown (fun _ _ => rfl) h.queue

theorem appendOutput_ofOutput {received : List UInt8} (chunk : List UInt8)
    (hbuffer : (r.strands stream).buffer = .ofOutput received) :
    r.appendOutput stream chunk =
      .ok (r.put stream { r.strands stream with buffer := .ofOutput (received ++ chunk) }) := by
  rw [Contained.appendOutput, hbuffer, push_ofOutput, ok_bind]

-- The loop receives: the buffer takes the front of the channel.
theorem Contained.Kept.received (h : r.Kept) {chunk : List UInt8} {queue : List (OutputStream × List UInt8)}
    (hqueue : r.queue = (stream, chunk) :: queue) (hs : r.appendOutput stream chunk = .ok s)
    (hnot : ¬ r.stage.Over) {t : Contained} (hstrands : t.strands = s.strands) (htail : t.queue = queue)
    (hover : ¬ t.stage.Over) : t.Kept := by
  have hkept := h.strands stream
  obtain ⟨received, hbuffer, hwritten⟩ := hkept.conserved
  have hput := Except.ok.inj ((appendOutput_ofOutput chunk hbuffer).symm.trans hs)
  have hdone : t.stage ≠ .done true := by
    intro heq
    rw [heq] at hover
    exact hover trivial
  refine h.put (hstrands.trans (congrArg Contained.strands hput.symm)) (fun hr => absurd hr hnot)
    (fun heq => absurd heq hdone) ?_ ?_ ?_
  · rw [htail]
    rw [hqueue, waiting_cons_self] at hwritten
    refine ⟨⟨received ++ chunk, rfl, ?_⟩, fun hended => ?_, hkept.active,
      fun _ => hkept.dropped hnot, fun heq => absurd heq hdone⟩
    · rw [hwritten]
      simp only [List.append_assoc]
    · exact (hkept.ended hended).imp_right fun hrest => hrest.imp_left fun hr => absurd hr hnot
  · intro other hne
    rw [htail, hqueue, waiting_cons_of_ne hne]
  · have hlength := h.queue
    rw [hqueue, List.length_cons] at hlength
    rw [htail]
    exact Nat.le_of_succ_le hlength

theorem kept_step (h : r.Kept) (hstep : Step spec r s) : s.Kept := by
  cases hstep with
  | pass hle => exact ⟨h.strands, h.queue⟩
  | write hwriter =>
    rename_i stream bytes
    have hkept := h.strands stream
    obtain ⟨received, hbuffer, hwritten⟩ := hkept.conserved
    have hopen : ¬ (r.strands stream).writer = false := fun hclosed =>
      Bool.noConfusion (hwriter.symm.trans hclosed)
    refine h.own ⟨⟨received, hbuffer, ?_⟩, fun hended => ?_, hkept.active, hkept.dropped, fun hdone => ?_⟩
    · rw [hwritten]
      simp only [List.append_assoc]
    · exact (hkept.ended hended).imp_right fun hrest => .inl (hrest.resolve_right fun hpipe => hopen hpipe.2)
    · obtain ⟨hqueued, hreader, hdropped, hleft⟩ := hkept.drained hdone
      exact ⟨hqueued, hreader, hdropped, .inl (hleft.resolve_right fun hpipe => hopen hpipe.2)⟩
  | close =>
    rename_i stream
    have hkept := h.strands stream
    refine h.own ⟨hkept.conserved, fun hended => ?_, hkept.active, hkept.dropped, fun hdone => ?_⟩
    · exact (hkept.ended hended).imp_right fun hrest => hrest.imp_right fun hpipe => ⟨hpipe.1, rfl⟩
    · obtain ⟨hqueued, hreader, hdropped, hleft⟩ := hkept.drained hdone
      exact ⟨hqueued, hreader, hdropped, hleft.imp_right fun hpipe => ⟨hpipe.1, rfl⟩⟩
  | read hreader hpipe hne hle =>
    rename_i stream chunk rest
    have hkept := h.strands stream
    obtain ⟨received, hbuffer, hwritten⟩ := hkept.conserved
    have hnone : (r.strands stream).dropped = [] := hkept.active fun hended => by
      rw [hreader] at hended
      cases hended
    refine h.own ⟨⟨received, hbuffer, ?_⟩, fun hended => ?_, fun _ => hnone, hkept.dropped, fun hdone => ?_⟩
    · rw [hwritten, hreader, hpipe, hnone]
      rfl
    · cases hended
    · have hended := (hkept.drained hdone).2.1
      rw [hreader] at hended
      cases hended
  | ending hreader hpipe hwriter =>
    rename_i stream
    have hkept := h.strands stream
    obtain ⟨received, hbuffer, hwritten⟩ := hkept.conserved
    refine h.own ⟨⟨received, hbuffer, ?_⟩, fun _ => .inr (.inr ⟨hpipe, hwriter⟩),
      fun hactive => absurd rfl hactive, hkept.dropped, fun hdone => ?_⟩
    · rw [hwritten, hreader]
      rfl
    · obtain ⟨hqueued, -, hdropped, hleft⟩ := hkept.drained hdone
      exact ⟨hqueued, rfl, hdropped, hleft⟩
  | broken hreader =>
    rename_i stream
    have hkept := h.strands stream
    obtain ⟨received, hbuffer, hwritten⟩ := hkept.conserved
    refine h.own ⟨⟨received, hbuffer, ?_⟩, fun _ => .inl rfl, fun hactive => absurd rfl hactive,
      hkept.dropped, fun hdone => ?_⟩
    · rw [hwritten, hreader]
      rfl
    · obtain ⟨hqueued, -, hdropped, -⟩ := hkept.drained hdone
      exact ⟨hqueued, rfl, hdropped, .inl rfl⟩
  | send hreader hroom hstage =>
    rename_i stream chunk
    have hkept := h.strands stream
    obtain ⟨received, hbuffer, hwritten⟩ := hkept.conserved
    refine h.put rfl id id ⟨⟨received, hbuffer, ?_⟩, fun hended => ?_, fun _ => hkept.active fun hended => ?_,
      hkept.dropped, fun hdone => ?_⟩ ?_ ?_
    · rw [waiting_append_self, hwritten, hreader]
      simp only [Reader.held, List.append_assoc, List.nil_append]
    · cases hended
    · rw [hreader] at hended
      cases hended
    · have hended := (hkept.drained hdone).2.1
      rw [hreader] at hended
      cases hended
    · exact fun other hne => waiting_append_of_ne hne
    · exact (List.length_append).trans_le hroom
  | abort hover =>
    rename_i stream
    have hkept := h.strands stream
    obtain ⟨received, hbuffer, hwritten⟩ := hkept.conserved
    refine h.own ⟨⟨received, hbuffer, ?_⟩, fun _ => .inr (.inl hover),
      fun hactive => absurd rfl hactive, fun hnot => absurd hover hnot, fun hdone => ?_⟩
    · rw [hwritten]
      simp only [Reader.held, List.append_assoc, List.nil_append]
    · obtain ⟨hqueued, hreader, hdropped, hleft⟩ := hkept.drained hdone
      refine ⟨hqueued, rfl, ?_, hleft⟩
      rw [hreader, hdropped]
      rfl
  | wallTimeout hstage _ => exact h.goto (not_over hstage id) rfl rfl Stage.noConfusion
  | idleTimeout hstage _ _ => exact h.goto (not_over hstage id) rfl rfl Stage.noConfusion
  | check hstage _ _ => exact h.goto (not_over hstage id) rfl rfl Stage.noConfusion
  | exited hstage => exact h.goto (not_over hstage id) rfl rfl Stage.noConfusion
  | receive hstage hqueue hs => exact h.received hqueue hs (not_over hstage id) rfl rfl id
  | cancelled hstage => exact h.goto (not_over hstage id) rfl rfl Stage.noConfusion
  | sleep hstage => exact h.goto (not_over hstage id) rfl rfl Stage.noConfusion
  | sample hstage =>
    rename_i cpuTime
    cases cpuTime <;> exact h.goto (not_over hstage id) rfl rfl Stage.noConfusion
  | fail hstage =>
    have hnot := hstage.elim (fun hstage => not_over hstage id) fun hstage => not_over hstage id
    exact h.goto hnot rfl rfl Stage.noConfusion
  | closed hstage => exact h.goto (not_over hstage id) rfl rfl Stage.noConfusion
  | drain hstage _ => exact h.goto (not_over hstage id) rfl rfl Stage.noConfusion
  | drained hstage hqueue hs => exact h.received hqueue hs (not_over hstage id) rfl rfl id
  | disconnected hstage hqueue hended =>
    refine ⟨fun stream => ?_, h.queue⟩
    have hkept := h.strands stream
    have hnot := not_over hstage id
    have hnone := hkept.dropped hnot
    have hleft := (hkept.ended (hended stream)).imp_right fun hrest => hrest.resolve_left hnot
    rw [hqueue] at hkept ⊢
    exact ⟨hkept.conserved, fun _ => hleft.imp_right .inr, fun _ => hnone, fun _ => hnone,
      fun _ => ⟨rfl, hended stream, hnone, hleft⟩⟩
  | elapsed hstage _ =>
    refine h.goto ?_ rfl rfl fun heq => ?_
    · exact hstage.elim (fun hstage => not_over hstage id) fun hstage => not_over hstage id
    · cases heq
  | unfed hstage _ => exact h.advance rfl rfl (fun _ => trivial) Stage.noConfusion

theorem reachable_kept (h : Reachable spec r) : r.Kept := by
  induction h with
  | started => exact kept_started _ _
  | step _ hstep ih => exact kept_step ih hstep

def Stage.Looping : Stage → Prop
  | checking => True
  | selecting => True
  | sampling => True
  | _ => False

structure Contained.Timely (spec : ProcessSpec) (r : Contained) : Prop where
  received : r.receivedAt ≤ r.lastProgress
  progress : r.lastProgress ≤ r.now
  left : r.left ≤ r.now
  looping : r.stage.Looping → r.termination = none
  deadline : ∀ deadline, r.stage = .draining deadline ∨ r.stage = .receiving deadline →
    r.left + outputDrainTimeout ≤ deadline
  elapsed : r.stage = .done false → r.left + outputDrainTimeout ≤ r.now
  wall : r.termination = some .wallTimeout → spec.timeout ≤ r.left - r.startedAt
  idle : r.termination = some .idleTimeout → r.left - r.startedAt < spec.timeout ∧
    r.receivedAt + spec.idleTimeout ≤ r.left

theorem timely_started (cpuTime : Option Nat) (now : Nat) : (Contained.started cpuTime now).Timely spec := by
  refine ⟨Nat.le_refl _, Nat.le_refl _, Nat.le_refl _, fun _ => rfl, fun deadline hstage => ?_, ?_, ?_, ?_⟩
  · rcases hstage with hstage | hstage <;> cases hstage
  · exact Stage.noConfusion
  · intro hreason
    cases hreason
  · intro hreason
    cases hreason

theorem Contained.Timely.put (h : r.Timely spec) : (r.put stream strand).Timely spec :=
  ⟨h.received, h.progress, h.left, h.looping, h.deadline, h.elapsed, h.wall, h.idle⟩

-- The stage changes, to one that waits for nothing.
theorem Contained.Timely.goto (h : r.Timely spec) {stage : Stage}
    (hlooping : stage.Looping → r.stage.Looping)
    (hdeadline : ∀ deadline, stage = .draining deadline ∨ stage = .receiving deadline →
      r.left + outputDrainTimeout ≤ deadline)
    (helapsed : stage = .done false → r.left + outputDrainTimeout ≤ r.now) :
    Contained.Timely spec { r with stage := stage } :=
  ⟨h.received, h.progress, h.left, fun hstage => h.looping (hlooping hstage), hdeadline, helapsed, h.wall, h.idle⟩

theorem Contained.Timely.leave (h : r.Timely spec) {reason : TerminationReason} {code : Option Int}
    (hwall : reason = .wallTimeout → spec.timeout ≤ r.now - r.startedAt)
    (hidle : reason = .idleTimeout → r.now - r.startedAt < spec.timeout ∧
      spec.idleTimeout ≤ r.now - r.lastProgress) : (r.leave reason code).Timely spec := by
  refine ⟨h.received, h.progress, Nat.le_refl _, False.elim, fun deadline hstage => ?_, Stage.noConfusion,
    fun hreason => hwall (Option.some.inj hreason), fun hreason => ?_⟩
  · rcases hstage with hstage | hstage <;> cases hstage
  · obtain ⟨hearly, hsilent⟩ := hidle (Option.some.inj hreason)
    have hreceived := h.received
    have hprogress := h.progress
    refine ⟨hearly, ?_⟩
    change r.receivedAt + spec.idleTimeout ≤ r.now
    omega

theorem Contained.Timely.sampled (h : r.Timely spec) (hlooping : r.stage.Looping) (cpuTime : Option Nat) :
    (r.sampled cpuTime).Timely spec := by
  have hchecking : ∀ deadline, Stage.checking = .draining deadline ∨ Stage.checking = .receiving deadline →
      r.left + outputDrainTimeout ≤ deadline := by
    intro deadline hstage
    rcases hstage with hstage | hstage <;> cases hstage
  cases cpuTime with
  | none => exact h.goto (fun _ => hlooping) hchecking Stage.noConfusion
  | some cpuTime =>
    have hprogress : r.lastProgress ≤ if r.previousCpuTime.all (· < cpuTime) then r.now else r.lastProgress := by
      split
      · exact h.progress
      · exact Nat.le_refl _
    refine ⟨h.received.trans hprogress, ?_, h.left, fun _ => h.looping hlooping, hchecking, Stage.noConfusion,
      h.wall, h.idle⟩
    rw [Contained.sampled]
    split
    · exact Nat.le_refl _
    · exact h.progress

theorem looping_of_eq {stage : Stage} (hstage : r.stage = stage) (h : stage.Looping) : r.stage.Looping := by
  rw [hstage]
  exact h

theorem appendOutput_eq {chunk : List UInt8} (hs : r.appendOutput stream chunk = .ok s) :
    ∃ strand, s = r.put stream strand := by
  rw [Contained.appendOutput] at hs
  cases hpush : (r.strands stream).buffer.push chunk with
  | error e =>
    rw [hpush] at hs
    cases hs
  | ok buffer =>
    rw [hpush, ok_bind] at hs
    exact ⟨_, (Except.ok.inj hs).symm⟩

theorem timely_step (h : r.Timely spec) (hstep : Step spec r s) : s.Timely spec := by
  cases hstep with
  | pass hle => exact ⟨h.received, h.progress.trans hle, h.left.trans hle, h.looping, h.deadline,
      fun hdone => (h.elapsed hdone).trans hle, h.wall, h.idle⟩
  | write _ => exact h.put
  | close => exact h.put
  | read _ _ _ _ => exact h.put
  | ending _ _ _ => exact h.put
  | broken _ => exact h.put
  | send _ _ _ =>
    exact ⟨h.received, h.progress, h.left, h.looping, h.deadline, h.elapsed, h.wall, h.idle⟩
  | abort _ => exact h.put
  | wallTimeout _ hlate =>
    refine h.leave (fun _ => hlate) fun hreason => ?_
    cases hreason
  | idleTimeout _ hearly hsilent =>
    refine h.leave (fun hreason => ?_) fun _ => ⟨hearly, hsilent⟩
    cases hreason
  | check hstage _ _ =>
    refine h.goto (fun _ => looping_of_eq hstage trivial) (fun deadline hnext => ?_) Stage.noConfusion
    rcases hnext with hnext | hnext <;> cases hnext
  | exited _ =>
    refine h.leave (fun hreason => ?_) fun hreason => ?_
    · cases hreason
    · cases hreason
  | receive hstage _ hs =>
    obtain ⟨strand, rfl⟩ := appendOutput_eq hs
    have hnone := h.looping (looping_of_eq hstage trivial)
    refine ⟨Nat.le_refl _, Nat.le_refl _, h.left, fun _ => hnone, fun deadline hnext => ?_, Stage.noConfusion,
      h.wall, fun hreason => ?_⟩
    · rcases hnext with hnext | hnext <;> cases hnext
    · cases hnone.symm.trans hreason
  | cancelled _ =>
    refine h.leave (fun hreason => ?_) fun hreason => ?_
    · cases hreason
    · cases hreason
  | sleep hstage =>
    refine h.goto (fun _ => looping_of_eq hstage trivial) (fun deadline hnext => ?_) Stage.noConfusion
    rcases hnext with hnext | hnext <;> cases hnext
  | sample hstage => exact h.sampled (looping_of_eq hstage trivial) _
  | fail _ =>
    refine h.goto False.elim (fun deadline hnext => ?_) Stage.noConfusion
    rcases hnext with hnext | hnext <;> cases hnext
  | closed _ =>
    refine h.goto False.elim (fun deadline hnext => ?_) Stage.noConfusion
    rcases hnext with hnext | hnext
    · rw [← Stage.draining.inj hnext]
      exact Nat.add_le_add_right h.left _
    · cases hnext
  | drain hstage _ =>
    refine h.goto False.elim (fun deadline hnext => ?_) Stage.noConfusion
    rcases hnext with hnext | hnext
    · cases hnext
    · rw [← Stage.receiving.inj hnext]
      exact h.deadline _ (.inl hstage)
  | drained hstage _ hs =>
    obtain ⟨strand, rfl⟩ := appendOutput_eq hs
    refine ⟨h.received, h.progress, h.left, False.elim, fun deadline hnext => ?_, Stage.noConfusion, h.wall, h.idle⟩
    rcases hnext with hnext | hnext
    · rw [← Stage.draining.inj hnext]
      exact h.deadline _ (.inr hstage)
    · cases hnext
  | disconnected _ _ _ =>
    refine h.goto False.elim (fun deadline hnext => ?_) fun hdone => ?_
    · rcases hnext with hnext | hnext <;> cases hnext
    · cases hdone
  | elapsed hstage hlate =>
    refine h.goto False.elim (fun deadline hnext => ?_) fun _ => (h.deadline _ hstage).trans hlate
    rcases hnext with hnext | hnext <;> cases hnext
  | unfed _ _ =>
    refine h.goto False.elim (fun deadline hnext => ?_) Stage.noConfusion
    rcases hnext with hnext | hnext <;> cases hnext

theorem reachable_timely (h : Reachable spec r) : r.Timely spec := by
  induction h with
  | started => exact timely_started _ _
  | step _ hstep ih => exact timely_step ih hstep

-- What becomes of the output of a stream when the run is over.
theorem Strand.Kept.outcome {drained : Bool} {queued : List UInt8} (h : strand.Kept (.done drained) queued) :
    ∃ received, strand.buffer = .ofOutput received ∧ received <+: strand.written ∧
      (received = strand.written ∨ strand.broken = true ∨ drained = false) := by
  obtain ⟨received, hbuffer, hwritten⟩ := h.conserved
  refine ⟨received, hbuffer, ⟨_, hwritten.symm⟩, ?_⟩
  cases drained with
  | false => exact .inr (.inr rfl)
  | true =>
    obtain ⟨hqueued, hreader, hdropped, hleft⟩ := h.drained rfl
    rcases hleft with hbroken | ⟨hpipe, -⟩
    · exact .inr (.inl hbroken)
    · rw [hqueued, hreader, hdropped, hpipe] at hwritten
      exact .inl (hwritten.trans (List.append_nil _)).symm

theorem outcome_eq {outcome : ProcessOutcome} (h : r.outcome = some outcome) :
    (∃ drained, r.stage = .done drained) ∧ r.termination = some outcome.termination ∧
      ∀ stream, outcome.output stream = (r.strands stream).buffer.finish := by
  rw [Contained.outcome] at h
  split at h
  · rename_i drained termination hstage htermination
    cases Option.some.inj h
    refine ⟨⟨drained, hstage⟩, htermination, fun stream => ?_⟩
    cases stream with
    | stdout => rfl
    | stderr => rfl
  · cases h

-- While the run goes on, what a stream was sent is in the buffer, in the channel, with its reader or in
-- its pipe, in this order. The outcome shows a prefix of it, the whole unless a read has failed or the
-- drain has taken its time; a timeout in it was due when the loop was left.
structure Contained.Accounted (spec : ProcessSpec) (r : Contained) : Prop where
  queue : r.queue.length ≤ channelCapacity
  append : ∀ stream chunk, ∃ s, r.appendOutput stream chunk = .ok s
  running : ¬ r.stage.Over → ∀ stream, ∃ received, (r.strands stream).buffer = .ofOutput received ∧
    (r.strands stream).written = received ++ (waiting stream r.queue ++
      ((r.strands stream).reader.held ++ (r.strands stream).pipe))
  outcome : ∀ outcome, r.outcome = some outcome → ∀ stream, ∃ received,
    outcome.output stream = (TailBuffer.ofOutput received).finish ∧ received <+: (r.strands stream).written ∧
    (received = (r.strands stream).written ∨ (r.strands stream).broken = true ∨
      r.left + outputDrainTimeout ≤ r.now)
  wall : ∀ outcome, r.outcome = some outcome → outcome.termination = .wallTimeout →
    spec.timeout ≤ r.left - r.startedAt
  idle : ∀ outcome, r.outcome = some outcome → outcome.termination = .idleTimeout →
    r.left - r.startedAt < spec.timeout ∧ r.receivedAt + spec.idleTimeout ≤ r.left

theorem reachable_accounted (h : Reachable spec r) : r.Accounted spec := by
  have hkept := reachable_kept h
  have htimely := reachable_timely h
  refine ⟨hkept.queue, fun stream chunk => ?_, fun hnot stream => ?_, fun outcome heq stream => ?_,
    fun outcome heq hreason => ?_, fun outcome heq hreason => ?_⟩
  · obtain ⟨received, hbuffer, -⟩ := (hkept.strands stream).conserved
    exact ⟨_, appendOutput_ofOutput chunk hbuffer⟩
  · obtain ⟨received, hbuffer, hwritten⟩ := (hkept.strands stream).conserved
    rw [(hkept.strands stream).dropped hnot, List.nil_append] at hwritten
    exact ⟨received, hbuffer, hwritten⟩
  · obtain ⟨⟨drained, hdone⟩, -, houtput⟩ := outcome_eq heq
    have hstrand := hkept.strands stream
    rw [hdone] at hstrand
    obtain ⟨received, hbuffer, hprefix, hall⟩ := hstrand.outcome
    refine ⟨received, ?_, hprefix, hall.imp_right fun hrest => hrest.imp_right fun hlate => ?_⟩
    · rw [houtput, hbuffer]
    · rw [hlate] at hdone
      exact htimely.elapsed hdone
  · obtain ⟨-, htermination, -⟩ := outcome_eq heq
    rw [hreason] at htermination
    exact htimely.wall htermination
  · obtain ⟨-, htermination, -⟩ := outcome_eq heq
    rw [hreason] at htermination
    exact htimely.idle htermination

-- A child that says one thing and exits.
theorem reachable_accounted_spoken :
    ∃ r : Contained, r.stage = .done true ∧ (r.strands .stdout).written = [104, 105] ∧
      (r.outcome.map fun outcome => outcome.stdout.capturedBytes) = some 2 ∧ r.Accounted ⟨1000, 500⟩ := by
  have hsent : Reachable ⟨1000, 500⟩ _ := ((@Reachable.started ⟨1000, 500⟩ none 0).step
    (@Step.write _ _ .stdout [104, 105] rfl)).step
    (@Step.read _ _ .stdout [104, 105] [] rfl rfl (List.cons_ne_nil _ _) (by decide)) |>.step
    (@Step.send _ _ .stdout [104, 105] rfl (by decide) Stage.noConfusion)
  have hreceived := (hsent.step (.check rfl (by decide) (by decide))).step
    (@Step.receive _ _ .stdout [104, 105] [] _ rfl rfl (appendOutput_ofOutput _ ofOutput_nil.symm))
  have hended := (((hreceived.step (@Step.close _ _ .stdout)).step (@Step.close _ _ .stderr)).step
    (@Step.ending _ _ .stdout rfl rfl rfl)).step (@Step.ending _ _ .stderr rfl rfl rfl)
  have hleft := ((hended.step (@Step.sample _ _ none rfl)).step (.check rfl (by decide) (by decide))).step
    (@Step.exited _ _ (some 0) rfl)
  have hdone := ((hleft.step (.closed rfl)).step (.drain rfl (by decide))).step
    (.disconnected rfl rfl fun stream => by cases stream <;> rfl)
  exact ⟨_, rfl, rfl, rfl, reachable_accounted hdone⟩

end Process
