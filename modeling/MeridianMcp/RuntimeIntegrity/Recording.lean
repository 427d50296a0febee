import MeridianMcp.RuntimeIntegrity.Session

namespace RuntimeIntegrity

open MeridianMcp PrivateState WorkspaceIntegrity RuntimeIntegritySession

def Scan.mutations (scan : Scan) (session : RuntimeIntegritySession) : List PathMutation :=
  match scan.delta session.document.baseline session.ownedPaths with
  | .error _ => []
  | .ok delta => delta.mutations

def Scan.recorded (scan : Scan) (session : RuntimeIntegritySession) :
    Except SessionError Unit × RuntimeIntegritySession :=
  recordMutations scan (scan.mutations session) session

variable {scan : Scan} {session session' : RuntimeIntegritySession} {mutations : List PathMutation}
  {live : Live}

def eventKeys (session : RuntimeIntegritySession) : Finset MutationKey :=
  (session.document.events.map RuntimeIntegrityEvent.key).toFinset

def keysOf (mutations : List PathMutation) : Finset MutationKey := (mutations.map keyOf).toFinset

def Synchronised (session : RuntimeIntegritySession) : Prop := session.observed = eventKeys session

-- What every session keeps, whether or not it has met the bound on its events.
structure Logged (session : RuntimeIntegritySession) : Prop where
  seen : eventKeys session ⊆ session.observed
  distinct : (session.document.events.map RuntimeIntegrityEvent.key).Nodup
  bounded : session.document.events.length ≤ maxRuntimeEvents

theorem mem_eventKeys {key : MutationKey} :
    key ∈ eventKeys session ↔ ∃ event ∈ session.document.events, event.key = key := by
  simp [eventKeys]

theorem Logged.card (h : Logged session) : (eventKeys session).card = session.document.events.length := by
  rw [eventKeys, List.toFinset_card_of_nodup h.distinct, List.length_map]

theorem eventKeys_push (mutation : PathMutation) :
    eventKeys (session.push (session.event scan mutation)) =
      insert (keyOf mutation) (eventKeys session) := by
  ext key
  simp [eventKeys, push, event, RuntimeIntegrityEvent.key, keyOf]

theorem push_observed (event : RuntimeIntegrityEvent) : (session.push event).observed = session.observed :=
  rfl

def seeing (session : RuntimeIntegritySession) (key : MutationKey) : RuntimeIntegritySession :=
  { session with observed := insert key session.observed }

theorem recordMutations_cons (mutation : PathMutation) :
    recordMutations scan (mutation :: mutations) session =
      if keyOf mutation ∈ session.observed then recordMutations scan mutations session
      else if session.document.events.length ≥ maxRuntimeEvents then
        (.error (.anyhow "runtime integrity event limit exceeded"), seeing session (keyOf mutation))
      else recordMutations scan mutations
        ((seeing session (keyOf mutation)).push (session.event scan mutation)) := rfl

theorem Logged.push (h : Logged session) {mutation : PathMutation} (hnew : keyOf mutation ∉ session.observed)
    (hroom : session.document.events.length < maxRuntimeEvents) :
    Logged ((seeing session (keyOf mutation)).push (session.event scan mutation)) where
  seen := by
    intro key hkey
    have hkey' : key ∈ eventKeys ((session.push (session.event scan mutation))) := hkey
    rw [eventKeys_push, Finset.mem_insert] at hkey'
    exact Finset.mem_insert.mpr (hkey'.imp_right fun hk => h.seen hk)
  distinct := by
    have hfresh : keyOf mutation ∉ session.document.events.map RuntimeIntegrityEvent.key := by
      intro hmem
      exact hnew (h.seen (List.mem_toFinset.mpr hmem))
    have hmap : ((seeing session (keyOf mutation)).push (session.event scan mutation)).document.events.map
        RuntimeIntegrityEvent.key =
          session.document.events.map RuntimeIntegrityEvent.key ++ [keyOf mutation] := by
      simp [RuntimeIntegritySession.push, seeing, event, RuntimeIntegrityEvent.key, keyOf]
    rw [hmap]
    exact List.nodup_append.mpr ⟨h.distinct, List.nodup_singleton _, fun a ha b hb => by
      rintro rfl
      rw [List.mem_singleton.mp hb] at ha
      exact hfresh ha⟩
  bounded := by
    simp only [RuntimeIntegritySession.push, seeing, List.length_append, List.length_singleton]
    omega

theorem recordMutations_logged (h : Logged session) : Logged (recordMutations scan mutations session).2 := by
  induction mutations generalizing session with
  | nil => exact h
  | cons mutation mutations ih =>
    rw [recordMutations_cons]
    split
    · exact ih h
    · rename_i hnew
      split
      · exact ⟨fun key hkey => Finset.mem_insert_of_mem (h.seen hkey), h.distinct, h.bounded⟩
      · rename_i hroom
        exact ih (h.push hnew (by omega))

theorem Synchronised.push (h : Synchronised session) (mutation : PathMutation) :
    Synchronised ((seeing session (keyOf mutation)).push (session.event scan mutation)) := by
  have hkeys : eventKeys (session.push (session.event scan mutation)) =
      insert (keyOf mutation) (eventKeys session) := eventKeys_push mutation
  rw [← h] at hkeys
  exact hkeys.symm

-- An observation keeps the keys and the events together exactly when it is not cut short.
theorem recordMutations_synchronised (h : Synchronised session) :
    Synchronised (recordMutations scan mutations session).2 ↔
      (recordMutations scan mutations session).1 = .ok () := by
  induction mutations generalizing session with
  | nil => exact iff_of_true h rfl
  | cons mutation mutations ih =>
    rw [recordMutations_cons]
    split
    · exact ih h
    · rename_i hnew
      split
      · refine iff_of_false (fun hsync => hnew ?_) (by simp)
        have hmem : keyOf mutation ∈ (seeing session (keyOf mutation)).observed :=
          Finset.mem_insert_self _ _
        rw [hsync] at hmem
        rw [h]
        exact hmem
      · exact ih (h.push mutation)

theorem recordMutations_observed :
    session.observed ⊆ (recordMutations scan mutations session).2.observed ∧
      (recordMutations scan mutations session).2.observed ⊆ session.observed ∪ keysOf mutations := by
  induction mutations generalizing session with
  | nil => exact ⟨subset_rfl, Finset.subset_union_left⟩
  | cons mutation mutations ih =>
    have hcons : keysOf (mutation :: mutations) = insert (keyOf mutation) (keysOf mutations) := by
      simp [keysOf]
    rw [recordMutations_cons, hcons, Finset.union_insert]
    split
    · exact ⟨ih.1, ih.2.trans (Finset.subset_insert _ _)⟩
    · split
      · exact ⟨Finset.subset_insert _ _, Finset.insert_subset_insert _ Finset.subset_union_left⟩
      · have hstep := @ih ((seeing session (keyOf mutation)).push (session.event scan mutation))
        rw [push_observed, seeing, Finset.insert_union] at hstep
        exact ⟨(Finset.subset_insert _ _).trans hstep.1, hstep.2⟩

theorem recordMutations_complete (h : (recordMutations scan mutations session).1 = .ok ()) :
    keysOf mutations ⊆ (recordMutations scan mutations session).2.observed := by
  induction mutations generalizing session with
  | nil => simp [keysOf]
  | cons mutation mutations ih =>
    have hcons : keysOf (mutation :: mutations) = insert (keyOf mutation) (keysOf mutations) := by
      simp [keysOf]
    rw [recordMutations_cons] at h ⊢
    rw [hcons, Finset.insert_subset_iff]
    split at h
    · rename_i hold
      rw [if_pos hold]
      exact ⟨recordMutations_observed.1 hold, ih h⟩
    · rename_i hnew
      rw [if_neg hnew]
      split at h
      · cases h
      · rename_i hroom
        rw [if_neg hroom]
        exact ⟨recordMutations_observed.1 (Finset.mem_insert_self _ _), ih h⟩

theorem recordMutations_accepts {keys : Finset MutationKey} (ht : Logged session)
    (hs : Synchronised session) (hkeys : session.observed ∪ keysOf mutations ⊆ keys)
    (hcard : keys.card ≤ maxRuntimeEvents) : (recordMutations scan mutations session).1 = .ok () := by
  induction mutations generalizing session with
  | nil => rfl
  | cons mutation mutations ih =>
    have hcons : keysOf (mutation :: mutations) = insert (keyOf mutation) (keysOf mutations) := by
      simp [keysOf]
    rw [hcons, Finset.union_insert, Finset.insert_subset_iff] at hkeys
    rw [recordMutations_cons]
    split
    · exact ih ht hs hkeys.2
    · rename_i hnew
      have hroom : session.document.events.length < maxRuntimeEvents := by
        have hfit : (insert (keyOf mutation) session.observed).card ≤ keys.card :=
          Finset.card_le_card (Finset.insert_subset hkeys.1
            (Finset.subset_union_left.trans hkeys.2))
        rw [Finset.card_insert_of_notMem hnew, hs, ht.card] at hfit
        omega
      rw [if_neg (by omega)]
      refine ih (ht.push hnew hroom) (hs.push mutation) ?_
      rw [push_observed, seeing, Finset.insert_union]
      exact Finset.insert_subset hkeys.1 hkeys.2

theorem recordMutations_fixed :
    (recordMutations scan mutations session).2.document.baseline = session.document.baseline ∧
      (recordMutations scan mutations session).2.ownedPaths = session.ownedPaths := by
  induction mutations generalizing session with
  | nil => exact ⟨rfl, rfl⟩
  | cons mutation mutations ih =>
    rw [recordMutations_cons]
    split
    · exact ih
    · split
      · exact ⟨rfl, rfl⟩
      · exact ih

-- The part of a session that its observations are compared with and recorded in.
structure SameLog (session session' : RuntimeIntegritySession) : Prop where
  baseline : session'.document.baseline = session.document.baseline
  ownedPaths : session'.ownedPaths = session.ownedPaths
  events : session'.document.events = session.document.events
  observed : session'.observed = session.observed

theorem SameLog.refl (session : RuntimeIntegritySession) : SameLog session session := ⟨rfl, rfl, rfl, rfl⟩

theorem SameLog.trans {session'' : RuntimeIntegritySession} (h : SameLog session session')
    (h' : SameLog session' session'') : SameLog session session'' :=
  ⟨h'.baseline.trans h.baseline, h'.ownedPaths.trans h.ownedPaths, h'.events.trans h.events,
    h'.observed.trans h.observed⟩

theorem SameLog.logged (h : SameLog session session') (ht : Logged session) : Logged session' := by
  obtain ⟨hseen, hdistinct, hbounded⟩ := ht
  refine ⟨?_, ?_, ?_⟩
  · rwa [eventKeys, h.events, h.observed]
  · rwa [h.events]
  · rwa [h.events]

theorem SameLog.synchronised (h : SameLog session session') :
    Synchronised session' ↔ Synchronised session := by
  rw [Synchronised, Synchronised, eventKeys, eventKeys, h.events, h.observed]

theorem observeNow_sameLog (action : String) (scan : Scan) (outcome : WriteOutcome) (live : Live) :
    SameLog (scan.recorded live.session).2 (observeNow action scan outcome live).2.session := by
  unfold observeNow Scan.recorded Scan.mutations
  cases scan.delta live.session.document.baseline live.session.ownedPaths with
  | error e => exact .refl _
  | ok delta =>
    dsimp only
    rcases recordMutations scan delta.mutations live.session with ⟨e | _, session⟩
    · exact .refl _
    · exact ⟨rfl, rfl, rfl, rfl⟩

theorem observeNow_ok {action : String} {outcome : WriteOutcome} {summary : RuntimeIntegritySummary}
    (h : (observeNow action scan outcome live).1 = .ok summary) :
    (scan.recorded live.session).1 = .ok () ∧
      summary = (observeNow action scan outcome live).2.session.summary := by
  unfold observeNow Scan.recorded Scan.mutations at *
  cases hdelta : scan.delta live.session.document.baseline live.session.ownedPaths with
  | error e =>
    rw [hdelta] at h
    cases h
  | ok delta =>
    rw [hdelta] at h
    dsimp only at h ⊢
    rcases hrec : recordMutations scan delta.mutations live.session with ⟨e | _, session⟩ <;>
      rw [hrec] at h
    · cases h
    · refine ⟨rfl, ?_⟩
      cases outcome <;> cases h
      rfl

theorem finalize_sameLog (action : String) (scan : Scan) (outcome last : WriteOutcome) (live : Live) :
    SameLog (scan.recorded live.session).2 (finalize action scan outcome last live).2.session := by
  have hobserve := observeNow_sameLog action scan outcome live
  unfold finalize
  rcases hlive : observeNow action scan outcome live with ⟨e | _, live'⟩ <;> rw [hlive] at hobserve
  · exact hobserve
  · exact hobserve.trans ⟨rfl, rfl, rfl, rfl⟩

theorem finalize_ok {action : String} {outcome last : WriteOutcome} {summary : RuntimeIntegritySummary}
    (h : (finalize action scan outcome last live).1 = .ok summary) :
    (scan.recorded live.session).1 = .ok () ∧
      summary = (finalize action scan outcome last live).2.session.summary ∧
      summary.status = finalStatus (finalize action scan outcome last live).2.session.document.events := by
  have hobserve := @observeNow_ok scan live action outcome
  unfold finalize at *
  rcases hlive : observeNow action scan outcome live with ⟨e | first, live'⟩
  · rw [hlive] at h
    cases h
  · rw [hlive] at h hobserve
    refine ⟨(hobserve rfl).1, ?_⟩
    cases last <;> cases h
    exact ⟨rfl, rfl⟩

end RuntimeIntegrity
