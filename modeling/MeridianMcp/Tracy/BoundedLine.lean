import MeridianMcp.Delimited
import MeridianMcp.Effects.FileSystem
import MeridianMcp.Tracy.Transport

namespace Tracy

open MeridianMcp Effects Delimited

def lineFeed : UInt8 := 0x0a

def carriageReturn : UInt8 := 0x0d

-- What a read has brought and not yet been consumed: an empty buffer means the end of the stream.
abbrev Chunk := { bytes : Bytes // bytes ≠ [] }

def content (chunks : List Chunk) : Bytes := chunks.flatMap Subtype.val

def consume (amount : Nat) : List Chunk → List Chunk
  | [] => []
  | chunk :: rest => if h : chunk.val.drop amount ≠ [] then ⟨_, h⟩ :: rest else rest

structure ByteStream where
  chunks : List Chunk
  failure : Option Text

abbrev LineResult := Except Text (Option (Bytes × Bool))

def oversizedLine : Text := "collector frame exceeded fixed byte limit".toList

-- The stream ends after the last chunk, or the read after it fails.
def boundedLine (failure : Option Text) (limit : Nat) (drain : Bool) :
    List Chunk → Bytes → Bool → LineResult × List Chunk
  | [], bytes, truncated =>
    match failure with
    | some error => (.error error, [])
    | none => (.ok (if !bytes.isEmpty || truncated then some (bytes, truncated) else none), [])
  | available :: rest, bytes, truncated =>
    let newline := available.val.findIdx? (· = lineFeed)
    let consumed := newline.elim available.val.length (· + 1)
    let retained := min consumed (limit - bytes.length)
    let bytes := bytes ++ available.val.take retained
    let truncated := truncated || decide (retained < consumed)
    if truncated && !drain then (.error oversizedLine, consume consumed (available :: rest))
    else if newline.isSome then (.ok (some (bytes, truncated)), consume consumed (available :: rest))
    else boundedLine failure limit drain rest bytes truncated

def nextLine (limit : Nat) (drain : Bool) (stream : ByteStream) : LineResult × ByteStream :=
  let (result, chunks) := boundedLine stream.failure limit drain stream.chunks [] false
  (result, { stream with chunks })

def boundedLines (limit : Nat) (drain : Bool) : Nat → ByteStream → List LineResult
  | 0, _ => []
  | calls + 1, stream =>
    match nextLine limit drain stream with
    | (.ok (some line), stream) => .ok (some line) :: boundedLines limit drain calls stream
    | (result, _) => [result]

def keptLine (limit : Nat) (line : Bytes) : Bytes × Bool :=
  (line.take limit, decide (limit < line.length))

def lineResult (limit : Nat) (drain : Bool) (line : Bytes) : LineResult :=
  if decide (limit < line.length) && !drain then .error oversizedLine
  else .ok (some (keptLine limit line))

def endResult (failure : Option Text) (limit : Nat) (drain : Bool) (line : Bytes) : LineResult :=
  if decide (limit < line.length) && !drain then .error oversizedLine
  else match failure with
    | some error => .error error
    | none => .ok (if line = [] then none else some (keptLine limit line))

-- The stream cut into lines: each is kept up to the limit, and without draining the first that
-- exceeds it ends the sequence, as the end of the stream does.
def lineResults (failure : Option Text) (limit : Nat) (drain : Bool) : List Bytes → List LineResult
  | [] => [endResult failure limit drain []]
  | line :: lines =>
    if line.getLast? = some lineFeed then
      match lineResult limit drain line with
      | .ok result => .ok result :: lineResults failure limit drain lines
      | .error error => [.error error]
    else
      match endResult failure limit drain line with
      | .ok result => .ok result :: lineResults failure limit drain lines
      | .error error => [.error error]

section line

variable {failure : Option Text} {limit : Nat} {drain : Bool}

theorem content_cons (chunk : Chunk) (chunks : List Chunk) :
    content (chunk :: chunks) = chunk.val ++ content chunks := List.flatMap_cons

theorem content_consume (amount : Nat) (chunk : Chunk) (chunks : List Chunk) :
    content (consume amount (chunk :: chunks)) = chunk.val.drop amount ++ content chunks := by
  rw [consume]
  split
  · rw [content_cons]
  · rename_i h
    rw [not_not.mp h, List.nil_append]

theorem consume_whole (chunk : Chunk) (chunks : List Chunk) :
    consume chunk.val.length (chunk :: chunks) = chunks := by
  rw [consume, dif_neg (by simp)]

theorem findIdx?_lineFeed {body : Bytes} (h : lineFeed ∉ body) (rest : Bytes) :
    (body ++ lineFeed :: rest).findIdx? (· = lineFeed) = some body.length := by
  have hnone : body.findIdx? (· = lineFeed) = none := by
    rw [List.findIdx?_eq_none_iff]
    intro byte hbyte
    exact decide_eq_false fun heq => h (heq ▸ hbyte)
  rw [List.findIdx?_append, hnone, List.findIdx?_cons]
  simp

-- What one round keeps of `more`, and whether it keeps less, is what the limit says of the line so far.
theorem round_kept (limit : Nat) (seen available : Bytes) (consumed : Nat) :
    seen.take limit ++ available.take (min consumed (limit - (seen.take limit).length)) =
      (seen ++ available.take consumed).take limit := by
  have hroom : limit - (seen.take limit).length = limit - seen.length := by
    rw [List.length_take]
    omega
  rw [List.take_append, List.take_take, hroom, Nat.min_comm]

theorem round_truncated (limit : Nat) (seen available : Bytes) {consumed : Nat} (h : consumed ≤ available.length) :
    (decide (limit < seen.length) ||
        decide (min consumed (limit - (seen.take limit).length) < consumed)) =
      decide (limit < (seen ++ available.take consumed).length) := by
  rw [List.length_take, List.length_append, List.length_take, ← Bool.decide_or]
  congr 1
  apply propext
  omega

variable (failure limit drain)

theorem boundedLine_pass (chunk : Chunk) (rest : List Chunk) (seen : Bytes)
    (h : lineFeed ∉ chunk.val) :
    boundedLine failure limit drain (chunk :: rest) (seen.take limit) (decide (limit < seen.length)) =
      if decide (limit < (seen ++ chunk.val).length) && !drain then (.error oversizedLine, rest)
      else boundedLine failure limit drain rest ((seen ++ chunk.val).take limit)
        (decide (limit < (seen ++ chunk.val).length)) := by
  have hnone : chunk.val.findIdx? (· = lineFeed) = none := by
    rw [List.findIdx?_eq_none_iff]
    intro byte hbyte
    exact decide_eq_false fun heq => h (heq ▸ hbyte)
  have hkept := round_kept limit seen chunk.val chunk.val.length
  have htruncated := round_truncated limit seen chunk.val (Nat.le_refl _)
  rw [List.take_length] at hkept htruncated
  simp only [boundedLine, hnone, Option.elim_none, Option.isSome_none, Bool.false_eq_true, if_false]
  rw [hkept, htruncated, consume_whole]

theorem boundedLine_stop (chunk : Chunk) (rest : List Chunk) (seen : Bytes) {body more : Bytes}
    (hchunk : chunk.val = body ++ lineFeed :: more) (h : lineFeed ∉ body) :
    ∃ remaining, content remaining = more ++ content rest ∧
      boundedLine failure limit drain (chunk :: rest) (seen.take limit)
          (decide (limit < seen.length)) =
        (lineResult limit drain (seen ++ body ++ [lineFeed]), remaining) := by
  have hsome : chunk.val.findIdx? (· = lineFeed) = some body.length := by
    rw [hchunk, findIdx?_lineFeed h]
  have hlen : body.length + 1 ≤ chunk.val.length := by
    rw [hchunk, List.length_append, List.length_cons]
    omega
  have hsplit : chunk.val = (body ++ [lineFeed]) ++ more := by
    rw [hchunk, List.append_assoc, List.singleton_append]
  have htake : chunk.val.take (body.length + 1) = body ++ [lineFeed] := by
    rw [hsplit, List.take_left' (by simp)]
  have hdrop : chunk.val.drop (body.length + 1) = more := by
    rw [hsplit, List.drop_left' (by simp)]
  have hkept := round_kept limit seen chunk.val (body.length + 1)
  have htruncated := round_truncated limit seen chunk.val hlen
  rw [htake, ← List.append_assoc] at hkept htruncated
  refine ⟨consume (body.length + 1) (chunk :: rest), ?_, ?_⟩
  · rw [content_consume, hdrop]
  · simp only [boundedLine, hsome, Option.elim_some, Option.isSome_some, if_true]
    rw [hkept, htruncated, lineResult, keptLine]
    split <;> rfl

theorem boundedLine_line (chunks : List Chunk) (seen : Bytes) {body rest : Bytes}
    (hchunks : content chunks = body ++ lineFeed :: rest) (h : lineFeed ∉ body) :
    let outcome := boundedLine failure limit drain chunks (seen.take limit) (decide (limit < seen.length))
    outcome.1 = lineResult limit drain (seen ++ body ++ [lineFeed]) ∧
      (outcome.1.isOk = true → content outcome.2 = rest) := by
  induction chunks generalizing seen body with
  | nil => simp [content] at hchunks
  | cons chunk chunks ih =>
    rw [content_cons] at hchunks
    by_cases hmem : lineFeed ∈ chunk.val
    · obtain ⟨here, more, hchunk, hhere⟩ := List.eq_append_cons_of_mem hmem
      rw [hchunk, List.append_assoc, List.cons_append] at hchunks
      obtain ⟨rfl, hrest⟩ := unique_stop hhere h hchunks
      obtain ⟨remaining, hremaining, hround⟩ :=
        boundedLine_stop failure limit drain chunk chunks seen hchunk hhere
      rw [hround]
      exact ⟨rfl, fun _ => hremaining.trans hrest⟩
    · obtain ⟨later, rfl, hlater⟩ := later_stop hmem hchunks
      have hlater' : lineFeed ∉ later := fun hin => h (List.mem_append_right _ hin)
      have ih := ih (seen ++ chunk.val) hlater hlater'
      rw [boundedLine_pass failure limit drain chunk chunks seen hmem]
      have hline : seen ++ (chunk.val ++ later) ++ [lineFeed] =
          seen ++ chunk.val ++ later ++ [lineFeed] := by simp only [List.append_assoc]
      rw [hline]
      split
      · rename_i hover
        refine ⟨?_, fun hok => by cases hok⟩
        rw [lineResult, if_pos]
        simp only [Bool.and_eq_true, decide_eq_true_eq, List.length_append] at hover ⊢
        exact ⟨by omega, hover.2⟩
      · exact ih

theorem boundedLine_end (chunks : List Chunk) (seen : Bytes)
    (hseen : (decide (limit < seen.length) && !drain) = false) (h : lineFeed ∉ content chunks) :
    let outcome := boundedLine failure limit drain chunks (seen.take limit) (decide (limit < seen.length))
    outcome.1 = endResult failure limit drain (seen ++ content chunks) ∧
      (outcome.1.isOk = true → outcome.2 = []) := by
  induction chunks generalizing seen with
  | nil =>
    have hnil : seen ++ content [] = seen := List.append_nil seen
    have hsome : (!(seen.take limit).isEmpty || decide (limit < seen.length)) = !seen.isEmpty := by
      cases seen with
      | nil => simp
      | cons byte seen => cases limit <;> simp
    unfold boundedLine endResult
    rw [hnil, hseen]
    cases failure with
    | some error => exact ⟨rfl, fun _ => rfl⟩
    | none =>
      simp only [hsome, Bool.false_eq_true, if_false]
      refine ⟨?_, fun _ => trivial⟩
      cases seen <;> rfl
  | cons chunk chunks ih =>
    rw [content_cons, List.mem_append, not_or] at h
    rw [boundedLine_pass failure limit drain chunk chunks seen h.1, content_cons, ← List.append_assoc]
    split
    · rename_i hover
      refine ⟨?_, fun hok => by cases hok⟩
      unfold endResult
      rw [if_pos]
      simp only [Bool.and_eq_true, decide_eq_true_eq, List.length_append] at hover ⊢
      exact ⟨by omega, hover.2⟩
    · rename_i hwithin
      exact ih _ (Bool.not_eq_true _ ▸ hwithin) h.2

variable {failure limit drain}

theorem nextLine_line {stream : ByteStream} {body rest : Bytes}
    (hcontent : content stream.chunks = body ++ lineFeed :: rest) (h : lineFeed ∉ body) :
    (nextLine limit drain stream).1 = lineResult limit drain (body ++ [lineFeed]) ∧
      ((nextLine limit drain stream).1.isOk = true →
        content (nextLine limit drain stream).2.chunks = rest) := by
  have hline := boundedLine_line stream.failure limit drain stream.chunks [] hcontent h
  rw [List.take_nil, List.length_nil, List.nil_append] at hline
  exact hline

theorem nextLine_end {stream : ByteStream} (h : lineFeed ∉ content stream.chunks) :
    (nextLine limit drain stream).1 =
        endResult stream.failure limit drain (content stream.chunks) ∧
      ((nextLine limit drain stream).1.isOk = true → (nextLine limit drain stream).2.chunks = []) := by
  have hend := boundedLine_end stream.failure limit drain stream.chunks [] (by simp) h
  rw [List.take_nil, List.length_nil, List.nil_append] at hend
  exact hend

theorem nextLine_failure (stream : ByteStream) :
    (nextLine limit drain stream).2.failure = stream.failure := rfl

theorem lineResult_cases (line : Bytes) :
    (limit < line.length ∧ drain = false ∧ lineResult limit drain line = .error oversizedLine) ∨
      (¬ (limit < line.length ∧ drain = false) ∧
        lineResult limit drain line = .ok (some (keptLine limit line))) := by
  unfold lineResult
  by_cases hover : limit < line.length <;> cases drain <;> simp [hover]

theorem endResult_cases (failure : Option Text) (line : Bytes) :
    (∃ error, endResult failure limit drain line = .error error) ∨
      endResult failure limit drain line = .ok (if line = [] then none else some (keptLine limit line)) := by
  unfold endResult
  split
  · exact Or.inl ⟨_, rfl⟩
  · cases failure with
    | some error => exact Or.inl ⟨_, rfl⟩
    | none => exact Or.inr rfl

theorem boundedLines_eq {calls : Nat} {stream : ByteStream}
    (h : (content stream.chunks).length < calls) :
    boundedLines limit drain calls stream =
      lineResults stream.failure limit drain (split lineFeed (content stream.chunks)) := by
  induction calls generalizing stream with
  | zero => omega
  | succ calls ih =>
    have hfailure := @nextLine_failure limit drain stream
    rw [boundedLines]
    by_cases hmem : lineFeed ∈ content stream.chunks
    · obtain ⟨body, rest, hcontent, hbody⟩ := List.eq_append_cons_of_mem hmem
      obtain ⟨hresult, hrest⟩ := @nextLine_line limit drain stream body rest hcontent hbody
      rw [hcontent, split_piece hbody, lineResults, if_pos List.getLast?_concat]
      generalize nextLine limit drain stream = outcome at hresult hrest hfailure
      obtain ⟨result, next⟩ := outcome
      rcases lineResult_cases (body ++ [lineFeed]) with ⟨-, -, hline⟩ | ⟨-, hline⟩
      · rw [hline] at hresult ⊢
        obtain rfl : result = _ := hresult
        rfl
      · rw [hline] at hresult ⊢
        obtain rfl : result = _ := hresult
        have hnext : content next.chunks = rest := hrest rfl
        have hlength : (content next.chunks).length < calls := by
          rw [hcontent, List.length_append, List.length_cons] at h
          rw [hnext]
          omega
        have ih := ih hlength
        rw [hnext, show next.failure = stream.failure from hfailure] at ih
        exact congrArg (List.cons _) ih
    · obtain ⟨hresult, hrest⟩ := @nextLine_end limit drain stream hmem
      generalize nextLine limit drain stream = outcome at hresult hrest hfailure
      obtain ⟨result, next⟩ := outcome
      obtain rfl : result = _ := hresult
      by_cases hnil : content stream.chunks = []
      · rw [hnil, split, lineResults]
        rcases endResult_cases stream.failure [] with ⟨error, hend⟩ | hend
        · rw [hend]
        · rw [hend]
          rfl
      · rw [split_last hmem hnil, lineResults, if_neg (fun hlast => hmem (List.mem_of_getLast? hlast))]
        rcases endResult_cases stream.failure (content stream.chunks) with
          ⟨error, hend⟩ | hend
        · rw [hend]
        · rw [hend] at hrest ⊢
          rw [if_neg hnil]
          have hnext : content next.chunks = [] := by
            rw [show next.chunks = [] from hrest rfl]
            rfl
          have hpos : 0 < (content stream.chunks).length := List.length_pos_iff.mpr hnil
          have hlength : (content next.chunks).length < calls := by
            rw [hnext, List.length_nil]
            omega
          have ih := ih hlength
          rw [hnext, show next.failure = stream.failure from hfailure] at ih
          exact congrArg (List.cons _) ih

end line

end Tracy
