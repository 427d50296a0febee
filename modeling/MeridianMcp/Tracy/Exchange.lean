import MeridianMcp.LossyUtf8
import MeridianMcp.Tracy.Helper
import MeridianMcp.Tracy.Registry

namespace TracyExchange

open MeridianMcp Effects Tracy

variable {I : Type} [DecidableEq I] {D R : Type}

-- The client still knows the id, or does not take responses any more.
def Tracked (w : Transport I) (n : Nat) : Prop :=
  n ∈ w.registry.pending.keys ∨ n ∈ w.registry.abandoned ∨ w.registry.terminal.isSome = true

-- What a step of the client that takes no response leaves as it is.
structure Upheld (w v : Transport I) : Prop where
  tracked : ∀ n, Tracked w n → Tracked v n
  issued : ∀ n ∈ v.issued, n ∈ w.issued ∨ Tracked v n
  grown : ∀ n ∈ w.issued, n ∈ v.issued
  refused : v.refused = w.refused
  numbers : w.nextRequestId < 2 ^ 64 → v.nextRequestId < 2 ^ 64

section Steps

variable {w v : Transport I}

omit [DecidableEq I] in
theorem upheld_same (hregistry : v.registry = w.registry) (hissued : v.issued = w.issued)
    (hrefused : v.refused = w.refused) (hnumber : v.nextRequestId = w.nextRequestId) : Upheld w v := by
  refine ⟨fun n hn => ?_, fun n hn => .inl ?_, fun n hn => ?_, hrefused, fun hlt => ?_⟩
  · rw [Tracked, hregistry]
    exact hn
  · rw [hissued] at hn
    exact hn
  · rw [hissued]
    exact hn
  · rw [hnumber]
    exact hlt

theorem upheld_fail (message : Text) (hregistry : v.registry = (w.failTransport message).registry)
    (hissued : v.issued = w.issued) (hrefused : v.refused = w.refused)
    (hnumber : v.nextRequestId = w.nextRequestId) : Upheld w v := by
  have hterminal : v.registry.terminal.isSome = true := by
    rw [hregistry]
    exact terminal_failTransport w message
  refine ⟨fun n _ => .inr (.inr hterminal), fun n _ => .inr (.inr (.inr hterminal)), fun n hn => ?_, hrefused,
    fun hlt => ?_⟩
  · rw [hissued]
    exact hn
  · rw [hnumber]
    exact hlt

theorem upheld_number (i : I) (requestLength : Nat) : Upheld w (w.takeNumber i requestLength) := by
  rw [Transport.takeNumber]
  split
  · rename_i hroom
    exact ⟨fun n hn => hn, fun n hn => .inl hn, fun n hn => hn, rfl, fun _ => hroom⟩
  · exact upheld_same rfl rfl rfl rfl

theorem upheld_enter (i : I) (id : Nat) : Upheld w (w.enter i id) := by
  rw [Transport.enter]
  split
  · exact upheld_same rfl rfl rfl rfl
  · split
    · exact upheld_same rfl rfl rfl rfl
    · split
      · exact upheld_same rfl rfl rfl rfl
      · refine ⟨fun n hn => hn.imp_left fun hpending => ?_, fun n hn => ?_, fun n hn => ?_, rfl, fun h => h⟩
        · exact FinMap.mem_keys_insert.mpr (.inr hpending)
        · rcases Finset.mem_insert.mp hn with rfl | hold
          · exact .inr (.inl (FinMap.mem_keys_insert.mpr (.inl rfl)))
          · exact .inl hold
        · exact Finset.mem_insert_of_mem hn

theorem upheld_release (i : I) (id : Nat) (result : Option RequestResult)
    (hroom : w.registry.abandoned.card ≠ maxAbandonedRequests) : Upheld w (w.releaseGuard i id result) := by
  rw [Transport.releaseGuard]
  split
  · exact upheld_same rfl rfl rfl rfl
  · dsimp only
    split
    · rename_i hterminal
      exact ⟨fun n _ => .inr (.inr hterminal), fun n hn => .inl hn, fun n hn => hn, rfl, fun h => h⟩
    · refine ⟨fun n hn => ?_, fun n hn => .inl hn, fun n hn => hn, rfl, fun h => h⟩
      rcases hn with hpending | habandoned | hterminal
      · rcases eq_or_ne n id with rfl | hne
        · exact .inr (.inl (Finset.mem_insert_self n _))
        · exact .inl (FinMap.mem_keys_erase.mpr ⟨hne, hpending⟩)
      · exact .inr (.inl (Finset.mem_insert_of_mem habandoned))
      · exact .inr (.inr hterminal)

theorem failTransport_issued (message : Text) : (w.failTransport message).issued = w.issued := by
  rw [Transport.failTransport]
  split
  · rfl
  · rfl

theorem failTransport_refused (message : Text) : (w.failTransport message).refused = w.refused := by
  rw [Transport.failTransport]
  split
  · rfl
  · rfl

theorem failTransport_number (message : Text) : (w.failTransport message).nextRequestId = w.nextRequestId := by
  rw [Transport.failTransport]
  split
  · rfl
  · rfl

theorem perform_upheld {step : TransportStep I} (h : w.perform step = some v)
    (hframe : ∀ document, step ≠ .frame (.response document))
    (hroom : w.registry.abandoned.card ≠ maxAbandonedRequests) : Upheld w v := by
  cases step with
  | number i requestLength =>
    simp only [Transport.perform] at h
    split at h
    · cases h
      exact upheld_number i requestLength
    · cases h
  | enter i =>
    simp only [Transport.perform] at h
    split at h
    · cases h
      exact upheld_enter i _
    · cases h
  | wrote i failure =>
    simp only [Transport.perform] at h
    split at h
    · split at h
      all_goals
        cases h
        exact upheld_same rfl rfl rfl rfl
    · cases h
  | dropGuard i =>
    simp only [Transport.perform] at h
    split at h
    · cases h
      exact upheld_fail _ rfl (failTransport_issued _) (failTransport_refused _) (failTransport_number _)
    · cases h
      exact upheld_release i _ _ hroom
    · cases h
      exact upheld_fail _ rfl (failTransport_issued _) (failTransport_refused _) (failTransport_number _)
    · cases h
  | frame frame =>
    simp only [Transport.perform] at h
    split at h
    · cases frame with
      | response document => exact absurd rfl (hframe document)
      | _ =>
        cases h
        exact upheld_same rfl rfl rfl rfl
    · cases h
  | failReader =>
    simp only [Transport.perform] at h
    split at h
    · cases h
      exact upheld_fail _ rfl (failTransport_issued _) (failTransport_refused _) (failTransport_number _)
    · cases h
  | stopReader =>
    simp only [Transport.perform] at h
    split at h
    · split at h
      · cases h
        exact upheld_same rfl rfl rfl rfl
      · cases h
    · cases h
  | dropOwner =>
    cases h
    exact upheld_fail _ rfl (failTransport_issued _) (failTransport_refused _) (failTransport_number _)
  | _ =>
    simp only [Transport.perform] at h
    split at h
    all_goals
      cases h
      try exact upheld_same rfl rfl rfl rfl

-- A response with an id that is tracked is taken; another id stays tracked.
theorem respond_tracked {document : Document} (hid : Tracked w document.id) :
    (w.respond document).refused = w.refused ∧ (w.respond document).issued = w.issued ∧
      (w.respond document).nextRequestId = w.nextRequestId ∧
      ∀ n, n ≠ document.id → Tracked w n → Tracked (w.respond document) n := by
  rw [Transport.respond]
  split
  · exact ⟨rfl, rfl, rfl, fun n _ hn => hn⟩
  · rename_i hterminal
    split
    · refine ⟨rfl, rfl, rfl, fun n hne hn => hn.imp_left fun hpending => ?_⟩
      exact FinMap.mem_keys_erase.mpr ⟨hne, hpending⟩
    · rename_i hnone
      have habandoned : document.id ∈ w.registry.abandoned := by
        rcases hid with hpending | habandoned | hsome
        · exact absurd hnone ((FinMap.mem_keys _ _).mp hpending)
        · exact habandoned
        · exact absurd hsome hterminal
      rw [if_pos habandoned]
      refine ⟨rfl, rfl, rfl, fun n hne hn => hn.imp_right fun hrest => hrest.imp_left fun hold => ?_⟩
      exact Finset.mem_erase.mpr ⟨hne, hold⟩

end Steps

-- The two programs agree on their JSON: a frame of the client is a request with its id for the helper,
-- and the client reads the id of a response.
structure Wire (library : TracyHelper.Library D R) where
  frame : Nat → List UInt8
  document : TracyHelper.Response D R → Document
  requested : ∀ n < 2 ^ 64, TracyHelper.Requested library (.ofNat n) (frame n)
  addressed : ∀ response, (document response).id = response.id.toNat

-- The transport of the client, the session of the helper, and the pipes: `read` are the ids of the lines
-- that the helper has read, `delivered` counts the responses that the client has.
structure Exchange (I D R : Type) where
  client : Transport I
  helper : TracyHelper.Session D R
  read : List Nat
  delivered : Nat

def Exchange.new (I D R : Type) : Exchange I D R := ⟨.new I, .new, [], 0⟩

def Exchange.answered (s : Exchange I D R) : List Nat :=
  (s.helper.out.take s.delivered).map fun response => response.id.toNat

variable {library : TracyHelper.Library D R}

inductive Step (wire : Wire library) (s : Exchange I D R) : Exchange I D R → Prop
  | client {step : TransportStep I} {client : Transport I} : (∀ document, step ≠ .frame (.response document)) →
      s.client.perform step = some client → Step wire s { s with client := client }
  | line {n : Nat} {answer : Except (TracyHelper.ProtocolError D) R} : n ∈ s.client.issued → n ∉ s.read →
      s.helper.stage = .reading →
      Step wire s { s with helper := s.helper.serve library (wire.frame n) answer, read := s.read ++ [n] }
  | helper {helper : TracyHelper.Session D R} : TracyHelper.Step library s.helper helper →
      helper.lines = s.helper.lines → Step wire s { s with helper := helper }
  | deliver {response : TracyHelper.Response D R} {client : Transport I} :
      s.helper.out[s.delivered]? = some response →
      s.client.perform (.frame (.response (wire.document response))) = some client →
      Step wire s { s with client := client, delivered := s.delivered + 1 }

-- The runs in which there is room for one more abandoned request.
inductive Reachable (wire : Wire library) : Exchange I D R → Prop
  | new : Reachable wire (.new I D R)
  | step {s s' : Exchange I D R} : Reachable wire s → Step wire s s' →
      s.client.registry.abandoned.card < maxAbandonedRequests → Reachable wire s'

section Output

variable {s s' : TracyHelper.Session D R}

theorem out_writeResponse (response : TracyHelper.Response D R) :
    s.out <+: (s.writeResponse library response).out := List.prefix_append _ _

theorem out_dispatch (request : TracyHelper.Request) (answer : Except (TracyHelper.ProtocolError D) R) :
    s.out <+: (s.dispatch library request answer).out := by
  rw [TracyHelper.Session.dispatch]
  split
  · split
    · exact out_writeResponse _
    · exact List.prefix_rfl
  · split
    · exact out_writeResponse _
    · exact out_writeResponse _
  · exact out_writeResponse _

theorem out_serve (line : List UInt8) (answer : Except (TracyHelper.ProtocolError D) R) :
    s.out <+: (s.serve library line answer).out := by
  rw [TracyHelper.Session.serve]
  split
  · exact out_writeResponse _
  · dsimp only
    split
    · exact out_writeResponse _
    · rename_i request _ _
      exact out_dispatch
        (s := { s with lines := s.lines ++ [line], requestIds := request.id :: s.requestIds }) request answer

theorem lines_dispatch (request : TracyHelper.Request) (answer : Except (TracyHelper.ProtocolError D) R) :
    (s.dispatch library request answer).lines = s.lines := by
  rw [TracyHelper.Session.dispatch]
  split
  · split
    · rfl
    · rfl
  · split
    · rfl
    · rfl
  · rfl

theorem lines_serve (line : List UInt8) (answer : Except (TracyHelper.ProtocolError D) R) :
    (s.serve library line answer).lines = s.lines ++ [line] := by
  rw [TracyHelper.Session.serve]
  split
  · rfl
  · dsimp only
    split
    · rfl
    · exact lines_dispatch _ _

theorem out_step (hstep : TracyHelper.Step library s s') : s.out <+: s'.out := by
  cases hstep with
  | line _ => exact out_serve _ _
  | captured _ => exact out_writeResponse _
  | ended _ => exact List.prefix_rfl
  | joined _ _ => exact List.prefix_rfl

end Output

theorem responseId_frame (wire : Wire library) {n : Nat} (h : n < 2 ^ 64) :
    TracyHelper.responseId library (wire.frame n) = .ofNat n := by
  obtain ⟨request, hrequest, hid⟩ := wire.requested n h
  rw [TracyHelper.responseId, hrequest]
  exact hid

theorem not_mem_take {l : List Nat} {k n : Nat} (h : l.Nodup) (hget : l[k]? = some n) : n ∉ l.take k := by
  intro hin
  have hdrop : n ∈ l.drop k := by
    rw [List.mem_iff_getElem?]
    exact ⟨0, by rw [List.getElem?_drop, Nat.add_zero, hget]⟩
  exact List.disjoint_take_drop h (Nat.le_refl k) hin hdrop

structure Kept (wire : Wire library) (s : Exchange I D R) : Prop where
  client : Coherent s.client
  helper : TracyHelper.Reachable library s.helper
  lines : s.helper.lines = s.read.map wire.frame
  once : s.read.Nodup
  issued : ∀ n ∈ s.read, n ∈ s.client.issued
  number : s.client.nextRequestId < 2 ^ 64
  delivered : s.delivered ≤ s.helper.out.length
  tracked : ∀ n ∈ s.client.issued, Tracked s.client n ∨ n ∈ s.answered
  refused : s.client.refused = false

variable {wire : Wire library} {s s' : Exchange I D R}

omit [DecidableEq I] in
theorem kept_new : Kept wire (.new I D R) where
  client := coherent_new
  helper := .new
  lines := rfl
  once := List.nodup_nil
  issued n hn := absurd hn List.not_mem_nil
  number := (by decide : (1 : Nat) < 2 ^ 64)
  delivered := Nat.le_refl _
  tracked n hn := absurd hn (Finset.notMem_empty n)
  refused := rfl

omit [DecidableEq I] in
theorem Kept.small (h : Kept wire s) {n : Nat} (hn : n ∈ s.client.issued) : n < 2 ^ 64 := by
  obtain ⟨i, hi, -⟩ := h.client.issued n hn
  exact (h.client.numbered i n hi).trans h.number

omit [DecidableEq I] in
theorem Kept.ids (h : Kept wire s) :
    s.helper.lines.map (TracyHelper.responseId library) = s.read.map UInt64.ofNat := by
  rw [h.lines, List.map_map]
  exact List.map_congr_left fun n hn => responseId_frame wire (h.small (h.issued n hn))

omit [DecidableEq I] in
theorem Kept.read_nodup (h : Kept wire s) : (s.read.map UInt64.ofNat).Nodup := by
  refine List.Nodup.map_on (fun n hn m hm heq => ?_) h.once
  have hvalue := congrArg UInt64.toNat heq
  rwa [UInt64.toNat_ofNat_of_lt' (h.small (h.issued n hn)),
    UInt64.toNat_ofNat_of_lt' (h.small (h.issued m hm))] at hvalue

omit [DecidableEq I] in
theorem Kept.responses_nodup (h : Kept wire s) :
    (s.helper.out.map fun response => response.id.toNat).Nodup := by
  have hdistinct := (TracyHelper.reachable_kept h.helper).answered
  rw [h.ids] at hdistinct
  have hnodup := hdistinct.nodup_iff.mpr h.read_nodup
  rw [List.nil_append] at hnodup
  have hids := hnodup.of_append_left.map (f := UInt64.toNat) fun n m heq => UInt64.toNat_inj.mp heq
  rwa [List.map_map] at hids

-- Each response bears the id of a request that the client has issued.
omit [DecidableEq I] in
theorem Kept.response_issued (h : Kept wire s) {response : TracyHelper.Response D R}
    (hin : response ∈ s.helper.out) : response.id.toNat ∈ s.client.issued := by
  have hdistinct := (TracyHelper.reachable_kept h.helper).answered
  rw [h.ids] at hdistinct
  have hmem := hdistinct.mem_iff.mp
    (List.mem_append_right [] (List.mem_append_left _ (List.mem_map_of_mem hin)))
  obtain ⟨n, hn, heq⟩ := List.mem_map.mp hmem
  rw [← heq, UInt64.toNat_ofNat_of_lt' (h.small (h.issued n hn))]
  exact h.issued n hn

omit [DecidableEq I] in
theorem Kept.advance (h : Kept wire s) {helper : TracyHelper.Session D R}
    (hstep : TracyHelper.Step library s.helper helper) {read : List Nat} (hlines : helper.lines = read.map wire.frame)
    (honce : read.Nodup) (hissued : ∀ n ∈ read, n ∈ s.client.issued) :
    Kept wire { s with helper := helper, read := read } := by
  obtain ⟨rest, hrest⟩ := out_step hstep
  refine ⟨h.client, h.helper.step hstep, hlines, honce, hissued, h.number, ?_, fun n hn => ?_, h.refused⟩
  · change s.delivered ≤ helper.out.length
    rw [← hrest, List.length_append]
    exact h.delivered.trans (Nat.le_add_right _ _)
  · refine (h.tracked n hn).imp_right fun hanswered => ?_
    change n ∈ (helper.out.take s.delivered).map _
    rw [← hrest, List.take_append_of_le_length h.delivered]
    exact hanswered

theorem respond_of_perform {w v : Transport I} {document : Document}
    (h : w.perform (.frame (.response document)) = some v) : v = w.respond document := by
  simp only [Transport.perform, Frame.parse] at h
  split at h
  · exact (Option.some.inj h).symm
  · cases h

theorem Kept.deliver (h : Kept wire s) {response : TracyHelper.Response D R} {client : Transport I}
    (hnext : s.helper.out[s.delivered]? = some response)
    (hclient : s.client.perform (.frame (.response (wire.document response))) = some client) :
    Kept wire { s with client := client, delivered := s.delivered + 1 } := by
  have hin := List.mem_of_getElem? hnext
  have hid := wire.addressed response
  have hissued := h.response_issued hin
  have hids : (s.helper.out.map fun response => response.id.toNat)[s.delivered]? = some response.id.toNat := by
    rw [List.getElem?_map, hnext]
    rfl
  have hfresh : response.id.toNat ∉ s.answered := by
    rw [Exchange.answered, List.map_take]
    exact not_mem_take h.responses_nodup hids
  have hknown : Tracked s.client (wire.document response).id := by
    rw [hid]
    exact (h.tracked _ hissued).resolve_right hfresh
  have hcoherent := coherent_step h.client hclient
  obtain rfl := respond_of_perform hclient
  obtain ⟨hrefused, hsame, hnumber, hothers⟩ := respond_tracked hknown
  have hanswered : ∀ n, n ∈ s.answered ∨ n = response.id.toNat →
      n ∈ (s.helper.out.take (s.delivered + 1)).map fun response => response.id.toNat := by
    intro n hn
    rw [List.take_add_one, hnext, List.map_append, List.mem_append]
    exact hn.imp_right fun heq => List.mem_singleton.mpr heq
  refine ⟨hcoherent, h.helper, h.lines, h.once, fun n hn => ?_, ?_, ?_, fun n hn => ?_, ?_⟩
  · change n ∈ (s.client.respond (wire.document response)).issued
    rw [hsame]
    exact h.issued n hn
  · change (s.client.respond (wire.document response)).nextRequestId < 2 ^ 64
    rw [hnumber]
    exact h.number
  · exact (List.getElem?_eq_some_iff.mp hnext).1
  · change n ∈ (s.client.respond (wire.document response)).issued at hn
    rw [hsame] at hn
    by_cases heq : n = response.id.toNat
    · exact .inr (hanswered n (.inr heq))
    · refine (h.tracked n hn).imp (fun htracked => hothers n ?_ htracked) fun hold => hanswered n (.inl hold)
      rw [hid]
      exact heq
  · exact hrefused.trans h.refused

theorem kept_step (h : Kept wire s) (hstep : Step wire s s')
    (hroom : s.client.registry.abandoned.card < maxAbandonedRequests) : Kept wire s' := by
  cases hstep with
  | client hframe hclient =>
    have hupheld := perform_upheld hclient hframe hroom.ne
    refine ⟨coherent_step h.client hclient, h.helper, h.lines, h.once, fun n hn => hupheld.grown n (h.issued n hn),
      hupheld.numbers h.number, h.delivered, fun n hn => ?_, hupheld.refused.trans h.refused⟩
    rcases hupheld.issued n hn with hold | hnew
    · exact (h.tracked n hold).imp_left (hupheld.tracked n)
    · exact .inl hnew
  | line hissued hnew hstage =>
    rename_i n answer
    refine h.advance (.line hstage) ?_ ?_ fun m hm => ?_
    · rw [lines_serve, h.lines, List.map_append, List.map_singleton]
    · exact h.once.append (List.nodup_singleton n) (List.disjoint_singleton.mpr hnew)
    · rcases List.mem_append.mp hm with hold | hown
      · exact h.issued m hold
      · rw [List.mem_singleton.mp hown]
        exact hissued
  | helper hhelper hlines => exact h.advance hhelper (hlines.trans h.lines) h.once h.issued
  | deliver hnext hclient => exact h.deliver hnext hclient

theorem reachable_kept (h : Reachable wire s) : Kept wire s := by
  induction h with
  | new => exact kept_new
  | step _ hstep hroom ih => exact kept_step ih hstep hroom

-- The client refuses no response of the helper; each delivered one was for a request of the client, no
-- two for the same, and an issued id that the client has no response for is still known to it.
structure Matched (s : Exchange I D R) : Prop where
  refused : s.client.refused = false
  requested : ∀ n ∈ s.answered, n ∈ s.client.issued
  once : s.answered.Nodup
  tracked : ∀ n ∈ s.client.issued, Tracked s.client n ∨ n ∈ s.answered
  addressed : ∀ i document, (s.client.cells i).content = some (.ok document) →
    (s.client.requests i).id = some document.id

section Status

-- A client that only asks for the status.
def statusHead : Text := "\x7b\"command\":\"session_status\",\"id\":".toList

def statusTail : Text := ",\"params\":\x7b\x7d,\"schema_version\":2\x7d".toList

def statusFrame (n : Nat) : List UInt8 := utf8 (statusHead ++ (Nat.toDigits 10 n ++ statusTail))

def statusDocument (n : Nat) : TracyHelper.Json := .object [("command", .string "session_status"),
  ("id", .unsigned (.ofNat n)), ("params", .object []), ("schema_version", .unsigned 2)]

def parseStatus (text : Text) : Option TracyHelper.Json :=
  if statusHead <+: text then
    let digits := (text.drop statusHead.length).takeWhile Char.isDigit
    if (text.drop statusHead.length).drop digits.length = statusTail then
      some (statusDocument (Nat.ofDigitChars 10 digits 0))
    else none
  else none

def statusLibrary : TracyHelper.Library Unit String where
  parse input := parseStatus (fromUtf8Lossy input)
  dump := TracyHelper.tinyLibrary.dump

theorem parseStatus_frame (n : Nat) :
    parseStatus (statusHead ++ (Nat.toDigits 10 n ++ statusTail)) = some (statusDocument n) := by
  have hdigits : (Nat.toDigits 10 n ++ statusTail).takeWhile Char.isDigit = Nat.toDigits 10 n := by
    rw [List.takeWhile_append_of_pos fun c hc => Nat.isDigit_of_mem_toDigits (by decide) le_rfl hc]
    have hnone : statusTail.takeWhile Char.isDigit = [] := by decide
    rw [hnone, List.append_nil]
  rw [parseStatus, if_pos (List.prefix_append _ _), List.drop_left]
  dsimp only
  rw [hdigits, List.drop_left, if_pos rfl, Nat.ofDigitChars_ten_toDigits]

theorem length_utf8_le (text : Text) : (utf8 text).length ≤ 4 * text.length := by
  induction text with
  | nil => exact Nat.le_refl _
  | cons c text ih =>
    have hsize := Char.utf8Size_le_four c
    rw [length_utf8_cons, List.length_cons]
    omega

theorem length_statusFrame {n : Nat} (h : n < 2 ^ 64) : (statusFrame n).length ≤ 1000 := by
  have hdigits : (Nat.toDigits 10 n).length ≤ 20 :=
    (Nat.length_toDigits_le_iff (by decide) (by decide)).mpr (h.trans (by decide))
  have hhead : statusHead.length ≤ 50 := by decide
  have htail : statusTail.length ≤ 50 := by decide
  have hlength := length_utf8_le (statusHead ++ (Nat.toDigits 10 n ++ statusTail))
  rw [List.length_append, List.length_append] at hlength
  rw [statusFrame]
  omega

theorem withoutReturn_statusFrame (n : Nat) : TracyHelper.Session.withoutReturn (statusFrame n) = statusFrame n := by
  have hlast : (utf8 statusTail).getLast? = some 125 := by decide
  rw [TracyHelper.Session.withoutReturn, if_neg]
  rw [statusFrame, utf8_append, utf8_append, List.getLast?_append, List.getLast?_append, hlast,
    Option.some_or, Option.some_or]
  decide

def statusWire : Wire statusLibrary where
  frame := statusFrame
  document response := ⟨response.id.toNat, some true, none, none, ⟨none, none⟩, some "null".toList⟩
  requested n h := by
    refine ⟨⟨.ofNat n, .sessionStatus, []⟩, ?_, rfl⟩
    rw [withoutReturn_statusFrame, TracyHelper.parseRequest, if_neg]
    · have hparse : statusLibrary.parse (statusFrame n) = some (statusDocument n) :=
        (congrArg parseStatus (fromUtf8Lossy_utf8 _)).trans (parseStatus_frame n)
      rw [hparse]
      rfl
    · have hshort := length_statusFrame h
      rw [TracyHelper.maximumRequestBytes]
      omega
  addressed _ := rfl

end Status

end TracyExchange
