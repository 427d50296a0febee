import MeridianMcp.Tracy.Transport

namespace Tracy

open MeridianMcp Effects

-- The id under which the sender of a request may still stand in the registry.
def RequestStage.open : RequestStage → Option Nat
  | .writing id => some id
  | .waiting id => some id
  | .abandoning id _ => some id
  | .dropping id _ => some id
  | _ => none

def RequestStage.result : RequestStage → Option RequestResult
  | .abandoning _ result => result
  | .dropping _ result => result
  | .overflowing _ result => result
  | .returned _ result => result
  | _ => none

def RequestStage.isQueued : RequestStage → Bool
  | .queued _ => true
  | _ => false

def Cell.content : Cell → Option PendingResult
  | .empty => none
  | .sending result => some result
  | .sent result => some result

variable {I : Type} [DecidableEq I]

structure Coherent (w : Transport I) : Prop where
  numbered : ∀ i n, (w.requests i).id = some n → n < w.nextRequestId
  unique : ∀ i j n, (w.requests i).id = some n → (w.requests j).id = some n → i = j
  owner : ∀ n i, w.registry.pending.get n = some i → (w.requests i).open = some n
  issued : ∀ n ∈ w.issued, ∃ i, (w.requests i).id = some n ∧ (w.requests i).isQueued = false
  pendingIssued : ∀ n ∈ w.registry.pending.keys, n ∈ w.issued
  abandonedIssued : ∀ n ∈ w.registry.abandoned, n ∈ w.issued
  disjoint : ∀ n ∈ w.registry.pending.keys, n ∉ w.registry.abandoned
  pendingBound : w.registry.pending.keys.card ≤ maxPendingRequests
  abandonedBound : w.registry.abandoned.card ≤ maxAbandonedRequests
  emptied : w.registry.terminal.isSome = true → w.registry.pending.keys = ∅ ∧ w.registry.abandoned = ∅
  taken : ∀ i r, (w.cells i).content = some r → ∀ n, w.registry.pending.get n ≠ some i
  filled : ∀ i r, (w.cells i).content = some r → ∃ n ∈ w.issued, (w.requests i).id = some n
  addressed : ∀ i document, (w.cells i).content = some (.ok document) → (w.requests i).id = some document.id
  answered : ∀ i value, (w.requests i).result = some (.ok value) → ∃ document, w.cells i = .sent (.ok document)
  condemned : ∀ i, w.condemned i = true →
    ∃ message, w.registry.terminal = some message ∧ (w.cells i).content = some (.error message)
  refused : w.refused = true → w.registry.terminal.isSome = true ∨ ∃ message, w.reader = .failing message

namespace Transport

theorem goto_requests_self (w : Transport I) (i : I) (stage : RequestStage) :
    (w.goto i stage).requests i = stage := by
  change Function.update w.requests i stage i = stage
  rw [Function.update_self]

theorem goto_requests_of_ne (w : Transport I) {i j : I} (stage : RequestStage) (h : j ≠ i) :
    (w.goto i stage).requests j = w.requests j := by
  change Function.update w.requests i stage j = w.requests j
  rw [Function.update_of_ne h]

theorem forall_requests {w : Transport I} {i : I} {stage : RequestStage} {p : I → RequestStage → Prop}
    (hself : p i stage) (hrest : ∀ j, j ≠ i → p j (w.requests j)) (j : I) : p j ((w.goto i stage).requests j) := by
  rcases eq_or_ne j i with rfl | hne
  · rw [goto_requests_self]
    exact hself
  · rw [goto_requests_of_ne w stage hne]
    exact hrest j hne

end Transport

theorem open_id {stage : RequestStage} {n : Nat} (h : stage.open = some n) :
    stage.id = some n ∧ stage.isQueued = false := by
  cases stage with
  | writing id => exact ⟨h, rfl⟩
  | waiting id => exact ⟨h, rfl⟩
  | abandoning id result => exact ⟨h, rfl⟩
  | dropping id result => exact ⟨h, rfl⟩
  | _ => cases h

omit [DecidableEq I] in
theorem coherent_new : Coherent (Transport.new I) where
  numbered _ _ := nofun
  unique _ _ _ := nofun
  owner _ _ := nofun
  issued _ := nofun
  pendingIssued _ h := absurd h (Finset.notMem_empty _)
  abandonedIssued _ := nofun
  disjoint _ h := absurd h (Finset.notMem_empty _)
  pendingBound := Nat.zero_le _
  abandonedBound := Nat.zero_le _
  emptied := nofun
  taken _ _ := nofun
  filled _ _ := nofun
  addressed _ _ := nofun
  answered _ _ := nofun
  condemned _ := nofun
  refused := nofun

theorem coherent_goto {w : Transport I} (hw : Coherent w) {i : I} {stage : RequestStage}
    (hid : stage.id = (w.requests i).id)
    (hopen : ∀ n, w.registry.pending.get n = some i → stage.open = some n)
    (hqueued : (w.requests i).isQueued = false → stage.isQueued = false)
    (hresult : ∀ value, stage.result = some (.ok value) → ∃ document, w.cells i = .sent (.ok document)) :
    Coherent (w.goto i stage) := by
  have hids : ∀ j, ((w.goto i stage).requests j).id = (w.requests j).id :=
    Transport.forall_requests (p := fun j stage => stage.id = (w.requests j).id) hid fun _ _ => rfl
  refine ⟨?_, ?_, ?_, ?_, hw.pendingIssued, hw.abandonedIssued, hw.disjoint, hw.pendingBound, hw.abandonedBound,
    hw.emptied, hw.taken, ?_, ?_, ?_, hw.condemned, hw.refused⟩
  · intro j n hj
    rw [hids] at hj
    exact hw.numbered j n hj
  · intro j k n hj hk
    rw [hids] at hj hk
    exact hw.unique j k n hj hk
  · intro n j hj
    revert hj
    apply Transport.forall_requests (p := fun j stage =>
      w.registry.pending.get n = some j → stage.open = some n)
    · exact hopen n
    · exact fun j _ => hw.owner n j
  · intro n hn
    obtain ⟨j, hj, hnot⟩ := hw.issued n hn
    refine ⟨j, (hids j).trans hj, ?_⟩
    revert hnot
    apply Transport.forall_requests (p := fun j stage =>
      (w.requests j).isQueued = false → stage.isQueued = false)
    · exact hqueued
    · exact fun _ _ h => h
  · intro j r hj
    obtain ⟨n, hn, hid⟩ := hw.filled j r hj
    exact ⟨n, hn, (hids j).trans hid⟩
  · intro j document hj
    exact (hids j).trans (hw.addressed j document hj)
  · apply Transport.forall_requests (p := fun j stage =>
      ∀ value, stage.result = some (.ok value) → ∃ document, w.cells j = .sent (.ok document))
    · exact hresult
    · exact fun j _ => hw.answered j

theorem coherent_number {w : Transport I} (hw : Coherent w) {i : I} {stage : RequestStage}
    (hnumbering : w.requests i = .numbering) (hid : stage.id = some w.nextRequestId)
    (hresult : ∀ value, stage.result ≠ some (.ok value)) :
    Coherent ({ w with nextRequestId := w.nextRequestId + 1 }.goto i stage) := by
  have hnone : (w.requests i).id = none := by rw [hnumbering]; rfl
  have hother : ∀ j n, (w.requests j).id = some n → j ≠ i := by
    rintro j n hj rfl
    rw [hnone] at hj
    cases hj
  have hself : ({ w with nextRequestId := w.nextRequestId + 1 }.goto i stage).requests i = stage :=
    Transport.goto_requests_self _ i stage
  have hkept : ∀ j, j ≠ i → ({ w with nextRequestId := w.nextRequestId + 1 }.goto i stage).requests j =
      w.requests j := fun j hj => Transport.goto_requests_of_ne _ stage hj
  refine ⟨?_, ?_, ?_, ?_, hw.pendingIssued, hw.abandonedIssued, hw.disjoint, hw.pendingBound, hw.abandonedBound,
    hw.emptied, hw.taken, ?_, ?_, ?_, hw.condemned, hw.refused⟩
  · apply Transport.forall_requests (p := fun _ stage => ∀ n, stage.id = some n → n < w.nextRequestId + 1)
    · intro n hn
      rw [hid] at hn
      cases hn
      exact Nat.lt_succ_self _
    · exact fun j _ n hj => Nat.lt_succ_of_lt (hw.numbered j n hj)
  · intro j k n hj hk
    rcases eq_or_ne j i with rfl | hji
    · rcases eq_or_ne k j with rfl | hkj
      · rfl
      · rw [hself, hid] at hj
        cases hj
        rw [hkept k hkj] at hk
        exact absurd (hw.numbered k _ hk) (Nat.lt_irrefl _)
    · rw [hkept j hji] at hj
      rcases eq_or_ne k i with rfl | hki
      · rw [hself, hid] at hk
        cases hk
        exact absurd (hw.numbered j _ hj) (Nat.lt_irrefl _)
      · rw [hkept k hki] at hk
        exact hw.unique j k n hj hk
  · intro n j hj
    have hopen := hw.owner n j hj
    rw [hkept j (hother j n (open_id hopen).1)]
    exact hopen
  · intro n hn
    obtain ⟨j, hj, hnot⟩ := hw.issued n hn
    refine ⟨j, ?_, ?_⟩
    · rw [hkept j (hother j n hj)]
      exact hj
    · rw [hkept j (hother j n hj)]
      exact hnot
  · intro j r hj
    obtain ⟨n, hn, hid⟩ := hw.filled j r hj
    refine ⟨n, hn, ?_⟩
    rw [hkept j (hother j n hid)]
    exact hid
  · intro j document hj
    have hid := hw.addressed j document hj
    rw [hkept j (hother j _ hid)]
    exact hid
  · apply Transport.forall_requests (p := fun j stage =>
      ∀ value, stage.result = some (.ok value) → ∃ document, w.cells j = .sent (.ok document))
    · exact fun value hv => absurd hv (hresult value)
    · exact fun j _ => hw.answered j

omit [DecidableEq I] in
theorem mem_pending {w : Transport I} {n : Nat} {i : I} (h : w.registry.pending.get n = some i) :
    n ∈ w.registry.pending.keys := by
  rw [FinMap.mem_keys, h]
  nofun

theorem isPending_iff {w : Transport I} (hw : Coherent w) {i : I} :
    w.isPending i = true ↔ ∃ n, w.registry.pending.get n = some i := by
  rw [Transport.isPending]
  constructor
  · intro h
    split at h
    · exact ⟨_, of_decide_eq_true h⟩
    · cases h
  · rintro ⟨n, hn⟩
    rw [(open_id (hw.owner n i hn)).1]
    exact decide_eq_true hn

theorem coherent_fail {w : Transport I} (hw : Coherent w) (message : Text) : Coherent (w.failTransport message) := by
  rw [Transport.failTransport]
  split
  · exact hw
  · rename_i hterminal
    refine ⟨hw.numbered, hw.unique, nofun, hw.issued, fun n h => absurd h (Finset.notMem_empty n), nofun,
      fun n h => absurd h (Finset.notMem_empty n), Nat.zero_le _, Nat.zero_le _, fun _ => ⟨rfl, rfl⟩, nofun,
      ?_, ?_, ?_, ?_, fun _ => .inl rfl⟩
    · intro i r hi
      dsimp only at hi
      split at hi
      · rename_i hpending
        obtain ⟨n, hn⟩ := (isPending_iff hw).mp hpending
        exact ⟨n, hw.pendingIssued n (mem_pending hn), (open_id (hw.owner n i hn)).1⟩
      · exact hw.filled i r hi
    · intro i document hi
      dsimp only at hi
      split at hi
      · cases hi
      · exact hw.addressed i document hi
    · intro i value hi
      obtain ⟨document, hdocument⟩ := hw.answered i value hi
      refine ⟨document, ?_⟩
      dsimp only
      split
      · rename_i hpending
        obtain ⟨n, hn⟩ := (isPending_iff hw).mp hpending
        exact absurd hn (hw.taken i (.ok document) (by rw [hdocument]; rfl) n)
      · exact hdocument
    · intro i hi
      refine ⟨message, rfl, ?_⟩
      dsimp only at hi ⊢
      split
      · rfl
      · rename_i hpending
        rw [Bool.eq_false_of_not_eq_true hpending, Bool.or_false] at hi
        obtain ⟨m, hm, -⟩ := hw.condemned i hi
        rw [hm] at hterminal
        exact absurd rfl hterminal

def spent (w : Transport I) (n : Nat) : Prop :=
  n ∈ w.issued ∧ n ∉ w.registry.pending.keys ∧ n ∉ w.registry.abandoned

omit [DecidableEq I] in
theorem Coherent.unissued {w : Transport I} (hw : Coherent w) {i : I} {n : Nat}
    (hqueued : w.requests i = .queued n) : n ∉ w.issued := by
  intro hn
  obtain ⟨j, hj, hnot⟩ := hw.issued n hn
  obtain rfl := hw.unique j i n hj (by rw [hqueued]; rfl)
  rw [hqueued] at hnot
  cases hnot

theorem coherent_insert {w : Transport I} (hw : Coherent w) {i : I} {id : Nat}
    (hqueued : w.requests i = .queued id) (hterminal : w.registry.terminal = none)
    (hroom : w.registry.pending.keys.card ≠ maxPendingRequests) :
    Coherent ({ w with
      registry := { w.registry with pending := w.registry.pending.insert id i }
      writerHolder := some i
      issued := insert id w.issued }.goto i (.writing id)) := by
  have hnew := hw.unissued hqueued
  have hid : (w.requests i).id = some id := by rw [hqueued]; rfl
  have hids : ∀ j, (({ w with
      registry := { w.registry with pending := w.registry.pending.insert id i }
      writerHolder := some i
      issued := insert id w.issued }.goto i (.writing id)).requests j).id = (w.requests j).id :=
    Transport.forall_requests (p := fun j stage => stage.id = (w.requests j).id) hid.symm fun _ _ => rfl
  have hpending : ∀ n j, (w.registry.pending.insert id i).get n = some j →
      (n = id ∧ j = i) ∨ (n ≠ id ∧ w.registry.pending.get n = some j) := by
    intro n j hj
    rw [FinMap.get_insert] at hj
    rcases eq_or_ne n id with rfl | hne
    · rw [Function.update_self] at hj
      cases hj
      exact .inl ⟨rfl, rfl⟩
    · rw [Function.update_of_ne hne] at hj
      exact .inr ⟨hne, hj⟩
  refine ⟨?_, ?_, ?_, ?_, ?_, ?_, ?_, ?_, hw.abandonedBound, ?_, ?_, ?_, ?_, ?_, hw.condemned, hw.refused⟩
  · intro j n hj
    rw [hids] at hj
    exact hw.numbered j n hj
  · intro j k n hj hk
    rw [hids] at hj hk
    exact hw.unique j k n hj hk
  · intro n j hj
    revert hj
    apply Transport.forall_requests (p := fun j stage =>
      (w.registry.pending.insert id i).get n = some j → stage.open = some n)
    · intro hj
      rcases hpending n i hj with ⟨rfl, -⟩ | ⟨hne, hj⟩
      · rfl
      · have hopen := hw.owner n i hj
        rw [hqueued] at hopen
        cases hopen
    · intro j hne hj
      rcases hpending n j hj with ⟨-, rfl⟩ | ⟨-, hj⟩
      · exact absurd rfl hne
      · exact hw.owner n j hj
  · intro n hn
    rcases Finset.mem_insert.mp hn with rfl | hn
    · refine ⟨i, (hids i).trans hid, ?_⟩
      rw [Transport.goto_requests_self]
      rfl
    · obtain ⟨j, hj, hnot⟩ := hw.issued n hn
      refine ⟨j, (hids j).trans hj, ?_⟩
      rcases eq_or_ne j i with rfl | hne
      · rw [Transport.goto_requests_self]
        rfl
      · rw [Transport.goto_requests_of_ne _ _ hne]
        exact hnot
  · intro n hn
    rcases FinMap.mem_keys_insert.mp hn with rfl | hn
    · exact Finset.mem_insert_self _ _
    · exact Finset.mem_insert_of_mem (hw.pendingIssued n hn)
  · intro n hn
    exact Finset.mem_insert_of_mem (hw.abandonedIssued n hn)
  · intro n hn
    rcases FinMap.mem_keys_insert.mp hn with rfl | hn
    · exact fun habandoned => hnew (hw.abandonedIssued n habandoned)
    · exact hw.disjoint n hn
  · exact (FinMap.card_keys_insert_le _ _ _).trans (lt_of_le_of_ne hw.pendingBound hroom)
  · intro hsome
    have hsome' : w.registry.terminal.isSome = true := hsome
    rw [hterminal] at hsome'
    cases hsome'
  · intro j r hj n hn
    rcases hpending n j hn with ⟨rfl, rfl⟩ | ⟨-, hn⟩
    · obtain ⟨m, hm, hid'⟩ := hw.filled j r hj
      rw [hid] at hid'
      cases hid'
      exact hnew hm
    · exact hw.taken j r hj n hn
  · intro j r hj
    obtain ⟨n, hn, hid⟩ := hw.filled j r hj
    exact ⟨n, Finset.mem_insert_of_mem hn, (hids j).trans hid⟩
  · intro j document hj
    exact (hids j).trans (hw.addressed j document hj)
  · apply Transport.forall_requests (p := fun j stage =>
      ∀ value, stage.result = some (.ok value) → ∃ document, w.cells j = .sent (.ok document))
    · nofun
    · exact fun j _ => hw.answered j

omit [DecidableEq I] in
theorem coherent_writer {w : Transport I} (hw : Coherent w) (isOpen : Bool) (holder : Option I) :
    Coherent { w with writerOpen := isOpen, writerHolder := holder } :=
  ⟨hw.numbered, hw.unique, hw.owner, hw.issued, hw.pendingIssued, hw.abandonedIssued, hw.disjoint,
    hw.pendingBound, hw.abandonedBound, hw.emptied, hw.taken, hw.filled, hw.addressed, hw.answered,
    hw.condemned, hw.refused⟩

omit [DecidableEq I] in
theorem coherent_reader {w : Transport I} (hw : Coherent w) (reader : ReaderStage) (refused : Bool)
    (hrefused : refused = true → w.registry.terminal.isSome = true ∨ ∃ message, reader = .failing message) :
    Coherent { w with reader := reader, refused := refused } :=
  ⟨hw.numbered, hw.unique, hw.owner, hw.issued, hw.pendingIssued, hw.abandonedIssued, hw.disjoint,
    hw.pendingBound, hw.abandonedBound, hw.emptied, hw.taken, hw.filled, hw.addressed, hw.answered,
    hw.condemned, hrefused⟩

omit [DecidableEq I] in
theorem get_of_erase {w : Transport I} {id n : Nat} {i : I}
    (h : (w.registry.pending.erase id).get n = some i) : n ≠ id ∧ w.registry.pending.get n = some i := by
  rw [FinMap.get_erase] at h
  rcases eq_or_ne n id with rfl | hne
  · rw [Function.update_self] at h
    cases h
  · rw [Function.update_of_ne hne] at h
    exact ⟨hne, h⟩

omit [DecidableEq I] in
theorem coherent_erase {w : Transport I} (hw : Coherent w) (id : Nat) :
    Coherent { w with registry := { w.registry with pending := w.registry.pending.erase id } } := by
  refine ⟨hw.numbered, hw.unique, ?_, hw.issued, ?_, hw.abandonedIssued, ?_, ?_, hw.abandonedBound, ?_, ?_,
    hw.filled, hw.addressed, hw.answered, hw.condemned, hw.refused⟩
  · intro n i hi
    exact hw.owner n i (get_of_erase hi).2
  · intro n hn
    exact hw.pendingIssued n (FinMap.mem_keys_erase.mp hn).2
  · intro n hn
    exact hw.disjoint n (FinMap.mem_keys_erase.mp hn).2
  · exact (FinMap.card_keys_erase_le _ _).trans hw.pendingBound
  · intro hterminal
    obtain ⟨hpending, habandoned⟩ := hw.emptied hterminal
    refine ⟨?_, habandoned⟩
    apply Finset.eq_empty_of_forall_notMem
    intro n hn
    have hmem := (FinMap.mem_keys_erase.mp hn).2
    rw [hpending] at hmem
    exact Finset.notMem_empty n hmem
  · intro i r hi n hn
    exact hw.taken i r hi n (get_of_erase hn).2

omit [DecidableEq I] in
theorem coherent_abandon {w : Transport I} (hw : Coherent w) {id : Nat} (hissued : id ∈ w.issued)
    (hpending : id ∉ w.registry.pending.keys) (hterminal : w.registry.terminal = none)
    (hroom : w.registry.abandoned.card ≠ maxAbandonedRequests) :
    Coherent { w with registry := { w.registry with abandoned := insert id w.registry.abandoned } } := by
  refine ⟨hw.numbered, hw.unique, hw.owner, hw.issued, hw.pendingIssued, ?_, ?_, hw.pendingBound, ?_, ?_, hw.taken,
    hw.filled, hw.addressed, hw.answered, hw.condemned, hw.refused⟩
  · intro n hn
    rcases Finset.mem_insert.mp hn with rfl | hn
    · exact hissued
    · exact hw.abandonedIssued n hn
  · intro n hn habandoned
    rcases Finset.mem_insert.mp habandoned with rfl | habandoned
    · exact hpending hn
    · exact hw.disjoint n hn habandoned
  · exact (Finset.card_insert_le _ _).trans (lt_of_le_of_ne hw.abandonedBound hroom)
  · intro hsome
    have hsome' : w.registry.terminal.isSome = true := hsome
    rw [hterminal] at hsome'
    cases hsome'

omit [DecidableEq I] in
theorem coherent_accept {w : Transport I} (hw : Coherent w) (id : Nat) :
    Coherent { w with registry := { w.registry with abandoned := w.registry.abandoned.erase id } } := by
  refine ⟨hw.numbered, hw.unique, hw.owner, hw.issued, hw.pendingIssued, ?_, ?_, hw.pendingBound, ?_, ?_, hw.taken,
    hw.filled, hw.addressed, hw.answered, hw.condemned, hw.refused⟩
  · intro n hn
    exact hw.abandonedIssued n (Finset.mem_of_mem_erase hn)
  · intro n hn habandoned
    exact hw.disjoint n hn (Finset.mem_of_mem_erase habandoned)
  · exact (Finset.card_le_card (Finset.erase_subset _ _)).trans hw.abandonedBound
  · intro hterminal
    obtain ⟨hpending, habandoned⟩ := hw.emptied hterminal
    refine ⟨hpending, ?_⟩
    change w.registry.abandoned.erase id = ∅
    rw [habandoned]
    rfl

theorem coherent_deliver {w : Transport I} (hw : Coherent w) {i : I} {document : Document}
    (hpending : w.registry.pending.get document.id = some i) (hterminal : w.registry.terminal = none) :
    Coherent { w with
      registry := { w.registry with pending := w.registry.pending.erase document.id }
      cells := Function.update w.cells i (.sending (.ok document)) } := by
  have herased := coherent_erase hw document.id
  have hopen := hw.owner document.id i hpending
  have hmem := mem_pending hpending
  refine ⟨herased.numbered, herased.unique, herased.owner, herased.issued, herased.pendingIssued,
    herased.abandonedIssued, herased.disjoint, herased.pendingBound, herased.abandonedBound, herased.emptied,
    ?_, ?_, ?_, ?_, ?_, herased.refused⟩
  · intro j r hj n hn
    obtain ⟨hne, hget⟩ := get_of_erase hn
    rcases eq_or_ne j i with rfl | hji
    · have hopen' := hw.owner n j hget
      rw [hopen] at hopen'
      exact hne (Option.some.inj hopen').symm
    · dsimp only at hj
      rw [Function.update_of_ne hji] at hj
      exact hw.taken j r hj n hget
  · intro j r hj
    rcases eq_or_ne j i with rfl | hji
    · exact ⟨document.id, hw.pendingIssued _ hmem, (open_id hopen).1⟩
    · dsimp only at hj
      rw [Function.update_of_ne hji] at hj
      exact hw.filled j r hj
  · intro j document' hj
    dsimp only at hj
    rcases eq_or_ne j i with rfl | hji
    · rw [Function.update_self] at hj
      cases hj
      exact (open_id hopen).1
    · rw [Function.update_of_ne hji] at hj
      exact hw.addressed j document' hj
  · intro j value hj
    obtain ⟨document', hsent⟩ := hw.answered j value hj
    have hji : j ≠ i := by
      rintro rfl
      exact hw.taken j (.ok document') (by rw [hsent]; rfl) document.id hpending
    refine ⟨document', ?_⟩
    dsimp only
    rw [Function.update_of_ne hji]
    exact hsent
  · intro j hj
    obtain ⟨message, hmessage, -⟩ := hw.condemned j hj
    rw [hterminal] at hmessage
    cases hmessage

theorem coherent_send {w : Transport I} (hw : Coherent w) {i : I} {result : PendingResult}
    (hsending : w.cells i = .sending result) :
    Coherent { w with cells := Function.update w.cells i (.sent result) } := by
  have hcontent : ∀ j, (Function.update w.cells i (.sent result) j).content = (w.cells j).content := by
    intro j
    rcases eq_or_ne j i with rfl | hne
    · rw [Function.update_self, hsending]
      rfl
    · rw [Function.update_of_ne hne]
  refine ⟨hw.numbered, hw.unique, hw.owner, hw.issued, hw.pendingIssued, hw.abandonedIssued, hw.disjoint,
    hw.pendingBound, hw.abandonedBound, hw.emptied, ?_, ?_, ?_, ?_, ?_, hw.refused⟩
  · intro j r hj
    exact hw.taken j r ((hcontent j).symm.trans hj)
  · intro j r hj
    exact hw.filled j r ((hcontent j).symm.trans hj)
  · intro j document hj
    exact hw.addressed j document ((hcontent j).symm.trans hj)
  · intro j value hj
    obtain ⟨document, hsent⟩ := hw.answered j value hj
    have hne : j ≠ i := by
      rintro rfl
      rw [hsending] at hsent
      cases hsent
    refine ⟨document, ?_⟩
    dsimp only
    rw [Function.update_of_ne hne]
    exact hsent
  · intro j hj
    obtain ⟨message, hmessage, hj⟩ := hw.condemned j hj
    exact ⟨message, hmessage, (hcontent j).trans hj⟩

theorem terminal_failTransport (w : Transport I) (message : Text) :
    (w.failTransport message).registry.terminal.isSome = true := by
  rw [Transport.failTransport]
  split
  · assumption
  · rfl

theorem requests_failTransport (w : Transport I) (message : Text) :
    (w.failTransport message).requests = w.requests := by
  rw [Transport.failTransport]
  split
  · rfl
  · rfl

theorem coherent_fail_goto {w : Transport I} (hw : Coherent w) {i : I} {stage : RequestStage} (message : Text)
    (hid : stage.id = (w.requests i).id) (hqueued : stage.isQueued = false)
    (hresult : stage.result = (w.requests i).result) : Coherent ((w.failTransport message).goto i stage) := by
  have hfailed := coherent_fail hw message
  have hrequests := requests_failTransport w message
  refine coherent_goto hfailed ?_ ?_ (fun _ => hqueued) ?_
  · rw [hrequests]
    exact hid
  · intro n hn
    have hmem := mem_pending hn
    rw [(hfailed.emptied (terminal_failTransport w message)).1] at hmem
    exact absurd hmem (Finset.notMem_empty n)
  · intro value hvalue
    apply hfailed.answered i value
    rw [hrequests, ← hresult]
    exact hvalue

theorem coherent_releaseGuard {w : Transport I} (hw : Coherent w) {i : I} {id : Nat}
    {result : Option RequestResult} (hdropping : w.requests i = .dropping id result) :
    Coherent (w.releaseGuard i id result) := by
  have hid : (w.requests i).id = some id := by rw [hdropping]; rfl
  have hresult : ∀ value, result = some (.ok value) → ∃ document, w.cells i = .sent (.ok document) := by
    intro value hvalue
    apply hw.answered i value
    rw [hdropping]
    exact hvalue
  have hown : ∀ n, w.registry.pending.get n = some i → n = id := by
    intro n hn
    have hopen := hw.owner n i hn
    rw [hdropping] at hopen
    exact (Option.some.inj hopen).symm
  rw [Transport.releaseGuard]
  split
  · rename_i hnone
    refine coherent_goto hw hid.symm ?_ (fun _ => rfl) hresult
    intro n hn
    rw [hown n hn, hnone] at hn
    cases hn
  · rename_i j hj
    have hmem := mem_pending hj
    have herased := coherent_erase hw id
    have hgone : ∀ n, (w.registry.pending.erase id).get n ≠ some i := by
      intro n hn
      obtain ⟨hne, hn⟩ := get_of_erase hn
      exact hne (hown n hn)
    dsimp only
    split
    · exact coherent_goto herased hid.symm (fun n hn => absurd hn (hgone n)) (fun _ => rfl) hresult
    · rename_i hterminal
      split
      · exact coherent_goto herased hid.symm (fun n hn => absurd hn (hgone n)) (fun _ => rfl) hresult
      · rename_i hroom
        have habandoned := coherent_abandon herased (hw.pendingIssued id hmem)
          (fun h => (FinMap.mem_keys_erase.mp h).1 rfl) (Option.not_isSome_iff_eq_none.mp hterminal) hroom
        exact coherent_goto habandoned hid.symm (fun n hn => absurd hn (hgone n)) (fun _ => rfl) hresult

theorem coherent_respond {w : Transport I} (hw : Coherent w) (document : Document) :
    Coherent (w.respond document) := by
  rw [Transport.respond]
  split
  · exact hw
  · rename_i hterminal
    split
    · rename_i i hi
      exact coherent_deliver hw hi (Option.not_isSome_iff_eq_none.mp hterminal)
    · split
      · exact coherent_accept hw document.id
      · exact coherent_reader hw _ _ fun _ => .inr ⟨_, rfl⟩

theorem coherent_step {w w' : Transport I} {step : TransportStep I} (hw : Coherent w)
    (h : w.perform step = some w') : Coherent w' := by
  have hnone : ∀ i stage, w.requests i = stage → stage.open = none →
      ∀ n, w.registry.pending.get n ≠ some i := by
    rintro i stage rfl hopen n hn
    rw [hw.owner n i hn] at hopen
    cases hopen
  have hkeep : ∀ i id stage, w.requests i = stage → stage.open = some id →
      ∀ n, w.registry.pending.get n = some i → some id = some n := by
    rintro i id stage rfl hopen n hn
    exact hopen.symm.trans (hw.owner n i hn)
  cases step with
  | call i isObject =>
    simp only [Transport.perform] at h
    split at h
    · rename_i hfresh
      cases h
      have hid : (w.requests i).id = none := by rw [hfresh]; rfl
      cases isObject with
      | false =>
        exact coherent_goto hw hid.symm (fun n hn => absurd hn (hnone i _ hfresh rfl n)) (fun _ => rfl) nofun
      | true =>
        exact coherent_goto hw hid.symm (fun n hn => absurd hn (hnone i _ hfresh rfl n)) (fun _ => rfl) nofun
    · cases h
  | number i requestLength =>
    simp only [Transport.perform] at h
    split at h
    · rename_i hnumbering
      cases h
      rw [Transport.takeNumber]
      split
      · apply coherent_number hw hnumbering
        · split
          · rfl
          · rfl
        · split
          · nofun
          · nofun
      · have hid : (w.requests i).id = none := by rw [hnumbering]; rfl
        exact coherent_goto hw hid.symm (fun n hn => absurd hn (hnone i _ hnumbering rfl n)) (fun _ => rfl)
          nofun
    · cases h
  | enter i =>
    simp only [Transport.perform] at h
    split at h
    · rename_i id hqueued hholder
      cases h
      have hid : (w.requests i).id = some id := by rw [hqueued]; rfl
      have hreturned : ∀ error : TracyProtocolError,
          Coherent (w.goto i (.returned (some id) (some (.error error)))) := fun error =>
        coherent_goto hw hid.symm (fun n hn => absurd hn (hnone i _ hqueued rfl n)) (fun _ => rfl) nofun
      rw [Transport.enter]
      split
      · exact hreturned _
      · split
        · exact hreturned _
        · rename_i hterminal
          split
          · exact hreturned _
          · rename_i hroom
            exact coherent_insert hw hqueued hterminal hroom
    · cases h
  | wrote i failure =>
    simp only [Transport.perform] at h
    split at h
    · rename_i id hwriting
      have hid : (w.requests i).id = some id := by rw [hwriting]; rfl
      split at h
      · cases h
        exact coherent_goto (coherent_writer hw _ _) hid.symm (hkeep i id _ hwriting rfl) (fun _ => rfl) nofun
      · cases h
        exact coherent_goto hw hid.symm (hkeep i id _ hwriting rfl) (fun _ => rfl) nofun
    · cases h
  | expire i =>
    simp only [Transport.perform] at h
    split at h
    · rename_i id hqueued
      cases h
      have hid : (w.requests i).id = some id := by rw [hqueued]; rfl
      exact coherent_goto hw hid.symm (fun n hn => absurd hn (hnone i _ hqueued rfl n)) (fun _ => rfl) nofun
    · rename_i id hwriting
      cases h
      have hid : (w.requests i).id = some id := by rw [hwriting]; rfl
      exact coherent_goto hw hid.symm (hkeep i id _ hwriting rfl) (fun _ => rfl) nofun
    · rename_i id hwaiting
      cases h
      have hid : (w.requests i).id = some id := by rw [hwaiting]; rfl
      exact coherent_goto hw hid.symm (hkeep i id _ hwaiting rfl) (fun _ => rfl) nofun
    · cases h
  | cancel i =>
    simp only [Transport.perform] at h
    split at h
    · rename_i id hqueued
      cases h
      have hid : (w.requests i).id = some id := by rw [hqueued]; rfl
      exact coherent_goto hw hid.symm (fun n hn => absurd hn (hnone i _ hqueued rfl n)) (fun _ => rfl) nofun
    · rename_i id hwriting
      cases h
      have hid : (w.requests i).id = some id := by rw [hwriting]; rfl
      exact coherent_goto hw hid.symm (hkeep i id _ hwriting rfl) (fun _ => rfl) nofun
    · rename_i id hwaiting
      cases h
      have hid : (w.requests i).id = some id := by rw [hwaiting]; rfl
      exact coherent_goto hw hid.symm (hkeep i id _ hwaiting rfl) (fun _ => rfl) nofun
    · cases h
  | receive i =>
    simp only [Transport.perform] at h
    split at h
    · rename_i id result hwaiting hsent
      cases h
      have hid : (w.requests i).id = some id := by rw [hwaiting]; rfl
      refine coherent_goto hw hid.symm (hkeep i id _ hwaiting rfl) (fun _ => rfl) ?_
      intro value hvalue
      cases result with
      | ok document => exact ⟨document, hsent⟩
      | error message => cases hvalue
    · cases h
  | dropGuard i =>
    simp only [Transport.perform] at h
    split at h
    · rename_i id result habandoning
      cases h
      have hfailed : Coherent ((w.failTransport
          "collector request frame was abandoned during write".toList).goto i (.returned (some id) result)) :=
        coherent_fail_goto hw _ (by rw [habandoning]; rfl) rfl (by rw [habandoning]; rfl)
      exact coherent_writer hfailed _ _
    · rename_i id result hdropping
      cases h
      exact coherent_releaseGuard hw hdropping
    · rename_i id result hoverflowing
      cases h
      exact coherent_fail_goto hw _ (by rw [hoverflowing]; rfl) rfl (by rw [hoverflowing]; rfl)
    · cases h
  | send i =>
    simp only [Transport.perform] at h
    split at h
    · rename_i result hsending
      cases h
      exact coherent_send hw hsending
    · cases h
  | frame frame =>
    simp only [Transport.perform] at h
    split at h
    · rename_i hreading
      split at h
      · cases h
        exact coherent_reader hw _ _ fun _ => .inr ⟨_, rfl⟩
      · cases h
        exact coherent_respond hw _
    · cases h
  | failReader =>
    simp only [Transport.perform] at h
    split at h
    · cases h
      exact coherent_reader (coherent_fail hw _) _ _ fun _ => .inl (terminal_failTransport _ _)
    · cases h
  | stopReader =>
    simp only [Transport.perform] at h
    split at h
    · split at h
      · rename_i hterminal
        cases h
        exact coherent_reader hw _ _ fun _ => .inl hterminal
      · cases h
    · cases h
  | dropOwner =>
    cases h
    exact coherent_fail hw _
  | closeWriter =>
    simp only [Transport.perform] at h
    split at h
    · cases h
      exact coherent_writer hw _ _
    · cases h

end Tracy
