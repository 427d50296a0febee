import MeridianMcp.RuntimeIntegrity.Launches

namespace RuntimeIntegrity

open MeridianMcp Effects PrivateState WorkspaceIntegrity
open RuntimeIntegritySession (journalName)

variable {L : Type} {draw : L → Bytes} {l : L} {history history' : List (Happening L)}

def journalOf (draw : L → Bytes) (l : L) : Text := journalName (idOf draw l)

-- What may follow on the happenings before it.
def Allowed (before : List (Happening L)) : Happening L → Prop
  | .baseline l => .baseline l ∉ before
  | .spawned l _ => .finalized l ∉ before
  | .exited _ => True
  | .observed l _ => .baseline l ∈ before ∧ .finalized l ∉ before
  | .finalized l => .baseline l ∈ before ∧ .finalized l ∉ before ∧
      ∀ processId, .spawned l processId ∈ before → .exited l ∈ before

def Orderly (history : List (Happening L)) : Prop :=
  ∀ before happening after, history = before ++ happening :: after → Allowed before happening

theorem orderly_nil : Orderly ([] : List (Happening L)) := by
  intro before happening after h
  simp at h

theorem Orderly.snoc {happening : Happening L} (h : Orderly history) (hallowed : Allowed history happening) :
    Orderly (history ++ [happening]) := by
  intro before happening' after heq
  rcases List.eq_nil_or_concat after with rfl | ⟨rest, last, rfl⟩
  · obtain ⟨rfl, hlast⟩ := List.append_inj' heq rfl
    cases hlast
    exact hallowed
  · rw [List.concat_eq_append, ← List.cons_append, ← List.append_assoc] at heq
    exact h before happening' rest (List.append_inj' heq rfl).1

-- The event of a journal comes from an observation by the session of that journal.
structure Attributed (draw : L → Bytes) (history : List (Happening L)) (l : L) (event : RuntimeIntegrityEvent) :
    Prop where
  session : event.sessionId = idOf draw l
  process : event.processId = none ∨ .spawned l event.processId ∈ history
  observed : ∃ mutations, .observed l mutations ∈ history ∧ ∃ mutation ∈ mutations,
    event.relativePath = mutation.relativePath ∧ event.changeKind = mutation.changeKind ∧
      event.before = mutation.before ∧ event.after = mutation.after

theorem Attributed.mono {event : RuntimeIntegrityEvent} (h : Attributed draw history l event)
    (hsub : history ⊆ history') : Attributed draw history' l event := by
  obtain ⟨mutations, hmem, hmutation⟩ := h.observed
  exact ⟨h.session, h.process.imp_right fun hspawned => hsub hspawned, mutations, hsub hmem, hmutation⟩

structure JournalLaw (draw : L → Bytes) (trace : List (World L × RuntimeStep L)) (w : World L) : Prop where
  immutable : (visited trace w).Pairwise fun u v => ∀ l, .finalized l ∈ u.server.ledger.history →
    v.server.ledger.journals (journalOf draw l) = u.server.ledger.journals (journalOf draw l) ∧
      (v.server.ledger.sessions l).map (·.document) = (u.server.ledger.sessions l).map (·.document)
  attributed : ∀ v ∈ visited trace w, Orderly v.server.ledger.history ∧
    ∀ l document, v.server.ledger.journals (journalOf draw l) = .record document →
      ∀ event ∈ document.events, Attributed draw v.server.ledger.history l event

section Sessions

variable {mutations : List PathMutation} {before after : Live} {session : RuntimeIntegritySession}

structure Tells (session : RuntimeIntegritySession) (event : RuntimeIntegrityEvent) (mutation : PathMutation) :
    Prop where
  sessionId : event.sessionId = session.document.sessionId
  processId : event.processId = session.document.processId
  mutation : event.relativePath = mutation.relativePath ∧ event.changeKind = mutation.changeKind ∧
    event.before = mutation.before ∧ event.after = mutation.after

-- What an observation makes of a session and of the journals.
structure Touches (mutations : List PathMutation) (before after : Live) : Prop where
  recordName : after.session.recordName = before.session.recordName
  sessionId : after.session.document.sessionId = before.session.document.sessionId
  processId : after.session.document.processId = before.session.document.processId
  events : ∀ event ∈ after.session.document.events, event ∈ before.session.document.events ∨
    ∃ mutation ∈ mutations, Tells before.session event mutation
  others : ∀ name, name ≠ before.session.recordName → after.journals name = before.journals name
  own : ∀ document, after.journals before.session.recordName = .record document →
    before.journals before.session.recordName = .record document ∨
      document.events ⊆ after.session.document.events

theorem recordMutations_result (scan : Scan) (mutations : List PathMutation) (session : RuntimeIntegritySession) :
    ∃ events observed, (RuntimeIntegritySession.recordMutations scan mutations session).2 =
        { session with document.events := events, observed := observed } ∧
      ∀ event ∈ events, event ∈ session.document.events ∨
        ∃ mutation ∈ mutations, Tells session event mutation := by
  induction mutations generalizing session with
  | nil => exact ⟨_, _, rfl, fun _ h => .inl h⟩
  | cons mutation mutations ih =>
    rw [recordMutations_cons]
    split
    · obtain ⟨events, observed, hresult, hevents⟩ := ih session
      refine ⟨events, observed, hresult, fun event hevent => ?_⟩
      exact (hevents event hevent).imp_right fun ⟨m, hm, h⟩ => ⟨m, List.mem_cons_of_mem _ hm, h⟩
    · split
      · exact ⟨_, _, rfl, fun _ h => .inl h⟩
      · obtain ⟨events, observed, hresult, hevents⟩ :=
          ih ((seeing session (keyOf mutation)).push (session.event scan mutation))
        refine ⟨events, observed, hresult, fun event hevent => ?_⟩
        rcases hevents event hevent with hold | ⟨m, hm, htells⟩
        · rcases List.mem_append.mp hold with hold | hnew
          · exact .inl hold
          · obtain rfl := List.mem_singleton.mp hnew
            exact .inr ⟨mutation, List.mem_cons_self, rfl, rfl, rfl, rfl, rfl, rfl⟩
        · exact .inr ⟨m, List.mem_cons_of_mem _ hm, htells.sessionId, htells.processId, htells.mutation⟩

theorem leaves_record {outcome : WriteOutcome} {document document' : RuntimeIntegrityJournal}
    {slot : Slot RuntimeIntegrityJournal} (h : outcome.leaves document slot = .record document') :
    slot = .record document' ∨ document' = document := by
  cases outcome with
  | ok =>
    cases h
    exact .inr rfl
  | kept e => exact .inl h
  | installed e =>
    cases h
    exact .inr rfl
  | spoiled e => cases h
  | lost e => cases h

theorem Touches.persist (h : Touches mutations before after) (outcome : WriteOutcome)
    (hname : session.recordName = after.session.recordName)
    (hid : session.document.sessionId = after.session.document.sessionId)
    (hprocess : session.document.processId = after.session.document.processId)
    (hevents : session.document.events = after.session.document.events) :
    Touches mutations before (RuntimeIntegritySession.persist outcome ⟨session, after.journals⟩).2 := by
  have hrecord := hname.trans h.recordName
  refine ⟨hrecord, hid.trans h.sessionId, hprocess.trans h.processId, ?_, ?_, ?_⟩
  · intro event hevent
    exact h.events event (hevents ▸ hevent)
  · intro name hne
    have hne' : name ≠ session.recordName := hrecord ▸ hne
    exact (Function.update_of_ne hne' (outcome.leaves session.document (after.journals session.recordName))
      after.journals).trans (h.others name hne)
  · intro document hdocument
    have hown : outcome.leaves session.document (after.journals before.session.recordName) = .record document := by
      rw [← hdocument, ← hrecord]
      exact (Function.update_self session.recordName _ after.journals).symm
    rcases leaves_record hown with hbefore | rfl
    · refine (h.own document hbefore).imp_right fun hsub => ?_
      exact hevents ▸ hsub
    · exact .inr fun _ hevent => hevent

theorem touches_observeNow (action : String) (scan : Scan) (outcome : WriteOutcome) (live : Live) :
    Touches (scan.mutations live.session) live
      (RuntimeIntegritySession.observeNow action scan outcome live).2 := by
  unfold RuntimeIntegritySession.observeNow Scan.mutations
  cases scan.delta live.session.document.baseline live.session.ownedPaths with
  | error e => exact ⟨rfl, rfl, rfl, fun _ h => .inl h, fun _ _ => rfl, fun _ h => .inl h⟩
  | ok delta =>
    obtain ⟨events, observed, hresult, hevents⟩ := recordMutations_result scan delta.mutations live.session
    have hlogged : Touches delta.mutations live
        ⟨{ live.session with document.events := events, observed := observed }, live.journals⟩ :=
      ⟨rfl, rfl, rfl, hevents, fun _ _ => rfl, fun _ h => .inl h⟩
    dsimp only
    cases hrecord : RuntimeIntegritySession.recordMutations scan delta.mutations live.session with
    | mk result session =>
      rw [hrecord] at hresult
      obtain rfl : session = _ := hresult
      cases result with
      | error e => exact hlogged
      | ok _ => exact hlogged.persist outcome rfl rfl rfl rfl

theorem touches_finalize (action : String) (scan : Scan) (outcome last : WriteOutcome) (live : Live) :
    Touches (scan.mutations live.session) live
      (RuntimeIntegritySession.finalize action scan outcome last live).2 := by
  have hobserved := touches_observeNow action scan outcome live
  unfold RuntimeIntegritySession.finalize
  cases hrun : RuntimeIntegritySession.observeNow action scan outcome live with
  | mk result after =>
    rw [hrun] at hobserved
    cases result with
    | error e => exact hobserved
    | ok _ => exact hobserved.persist last rfl rfl rfl rfl

-- No journal is written before the session is there; then its first document is.
theorem create_cases (draw : L → Bytes) (l : L) (creation : Creation) (journals : Journals) :
    (∃ e, RuntimeIntegritySession.create (creation.scan draw l) creation.outcome creation.launchProvenance
        creation.ownedPaths journals = (.error e, journals)) ∨
      ∃ baseline session,
        session = RuntimeIntegritySession.created baseline (idOf draw l) creation.launchProvenance
          creation.ownedPaths ∧
        RuntimeIntegritySession.create (creation.scan draw l) creation.outcome creation.launchProvenance
          creation.ownedPaths journals =
            ((creation.outcome.result.mapError .state).map fun _ => session,
              (RuntimeIntegritySession.persist creation.outcome ⟨session, journals⟩).2.journals) := by
  unfold RuntimeIntegritySession.create Creation.scan
  cases creation.capture with
  | error e => exact .inl ⟨_, rfl⟩
  | ok baseline =>
    cases creation.random with
    | error e => exact .inl ⟨_, rfl⟩
    | ok _ =>
      dsimp only [Except.map]
      split
      · exact .inl ⟨_, rfl⟩
      · cases creation.liveness with
        | error e => exact .inl ⟨_, rfl⟩
        | ok _ => exact .inr ⟨baseline, _, rfl, rfl⟩

theorem create_succeeds {creation : Creation} (h : creation.succeeds draw l = true) (journals : Journals) :
    ∃ session, (RuntimeIntegritySession.create (creation.scan draw l) creation.outcome
      creation.launchProvenance creation.ownedPaths journals).1 = .ok session := by
  simp only [Creation.succeeds, Bool.and_eq_true] at h
  obtain ⟨⟨⟨⟨hcapture, hrandom⟩, hname⟩, hliveness⟩, houtcome⟩ := h
  obtain ⟨baseline, hcapture⟩ := exists_of_isOk hcapture
  obtain ⟨_, hrandom⟩ := exists_of_isOk hrandom
  obtain ⟨name, hname⟩ := Option.isSome_iff_exists.mp hname
  obtain ⟨_, hliveness⟩ := exists_of_isOk hliveness
  obtain ⟨_, houtcome⟩ := exists_of_isOk houtcome
  refine ⟨RuntimeIntegritySession.created baseline (idOf draw l) creation.launchProvenance creation.ownedPaths, ?_⟩
  unfold RuntimeIntegritySession.create Creation.scan
  rw [hcapture, hrandom]
  dsimp only [Except.map]
  rw [show (hex (draw l)).toList = idOf draw l from rfl, hname, hliveness]
  dsimp only [RuntimeIntegritySession.persist]
  rw [houtcome]
  rfl

end Sessions

section Ledgers

variable {mutations : List PathMutation} {session : RuntimeIntegritySession} {live : Live}
  {fresh fresh' : Set L} {u ledger : Ledger L}

structure Owned (draw : L → Bytes) (history : List (Happening L)) (l : L) (session : RuntimeIntegritySession) :
    Prop where
  recordName : session.recordName = journalOf draw l
  sessionId : session.document.sessionId = idOf draw l
  processId : session.document.processId = none ∨ .spawned l session.document.processId ∈ history
  events : ∀ event ∈ session.document.events, Attributed draw history l event
  baseline : .baseline l ∈ history

theorem Owned.mono (h : Owned draw history l session) (hsub : history ⊆ history') : Owned draw history' l session :=
  ⟨h.recordName, h.sessionId, h.processId.imp_right fun hspawned => hsub hspawned,
    fun event hevent => (h.events event hevent).mono hsub, hsub h.baseline⟩

-- What holds of the sessions and journals at any time, and since the time of `u`; the calls in
-- `fresh` have not been made yet.
structure Kept (draw : L → Bytes) (fresh : Set L) (u ledger : Ledger L) : Prop where
  sessions : ∀ l session, ledger.sessions l = some session → Owned draw ledger.history l session
  journals : ∀ l document, ledger.journals (journalOf draw l) = .record document →
    ∀ event ∈ document.events, Attributed draw ledger.history l event
  gone : ∀ l processId, .spawned l processId ∈ ledger.history → ledger.alive l = true ∨ .exited l ∈ ledger.history
  fresh : ∀ l ∈ fresh, ledger.sessions l = none ∧ .baseline l ∉ ledger.history ∧ .finalized l ∉ ledger.history
  orderly : Orderly ledger.history
  grows : u.history ⊆ ledger.history
  settled : ∀ l, .finalized l ∈ u.history → ledger.journals (journalOf draw l) = u.journals (journalOf draw l) ∧
    ledger.sessions l = u.sessions l

theorem Kept.restart (h : Kept draw fresh u ledger) : Kept draw fresh ledger ledger :=
  ⟨h.sessions, h.journals, h.gone, h.fresh, h.orderly, fun _ hmem => hmem, fun _ _ => ⟨rfl, rfl⟩⟩

theorem Kept.fewer (h : Kept draw fresh u ledger) (hsub : fresh' ⊆ fresh) : Kept draw fresh' u ledger :=
  ⟨h.sessions, h.journals, h.gone, fun l hl => h.fresh l (hsub hl), h.orderly, h.grows, h.settled⟩

theorem Kept.stale (h : Kept draw fresh u ledger) (hsession : ledger.sessions l = some session) : l ∉ fresh := by
  intro hfresh
  rw [(h.fresh l hfresh).1] at hsession
  cases hsession

theorem Kept.record (h : Kept draw fresh u ledger) {happening : Happening L}
    (hallowed : Allowed ledger.history happening)
    (hfresh : ∀ l ∈ fresh, .baseline l ≠ happening ∧ .finalized l ≠ happening)
    (hgone : ∀ l processId, .spawned l processId = happening → ledger.alive l = true) :
    Kept draw fresh u (ledger.record happening) := by
  have hsub : ledger.history ⊆ (ledger.record happening).history := List.subset_append_left _ _
  refine ⟨?_, ?_, ?_, ?_, h.orderly.snoc hallowed, fun _ hmem => hsub (h.grows hmem), h.settled⟩
  · exact fun l session hsession => (h.sessions l session hsession).mono hsub
  · exact fun l document hdocument event hevent => (h.journals l document hdocument event hevent).mono hsub
  · intro l processId hspawned
    rcases List.mem_append.mp hspawned with hspawned | hspawned
    · exact (h.gone l processId hspawned).imp_right fun hexited => hsub hexited
    · exact .inl (hgone l processId (List.mem_singleton.mp hspawned))
  · intro l hl
    obtain ⟨hsession, hbaseline, hfinalized⟩ := h.fresh l hl
    refine ⟨hsession, ?_, ?_⟩
    · intro hmem
      rcases List.mem_append.mp hmem with hmem | hmem
      · exact hbaseline hmem
      · exact (hfresh l hl).1 (List.mem_singleton.mp hmem)
    · intro hmem
      rcases List.mem_append.mp hmem with hmem | hmem
      · exact hfinalized hmem
      · exact (hfresh l hl).2 (List.mem_singleton.mp hmem)

theorem Kept.processes (h : Kept draw fresh u ledger) {alive : L → Bool}
    (hgone : ∀ l processId, .spawned l processId ∈ ledger.history → alive l = true ∨ .exited l ∈ ledger.history) :
    Kept draw fresh u { ledger with alive := alive } :=
  ⟨h.sessions, h.journals, hgone, h.fresh, h.orderly, h.grows, h.settled⟩

-- The journals change for one launch only, which has not been finalized.
theorem Kept.publish (h : Kept draw fresh u ledger) (hdraw : Function.Injective (idOf draw))
    (hopen : .finalized l ∉ ledger.history) (journals : Journals)
    (hothers : ∀ name, name ≠ journalOf draw l → journals name = ledger.journals name)
    (hown : ∀ document, journals (journalOf draw l) = .record document →
      ∀ event ∈ document.events, Attributed draw ledger.history l event) :
    Kept draw fresh u { ledger with journals := journals } := by
  have hapart : ∀ l', l' ≠ l → journalOf draw l' ≠ journalOf draw l := fun l' hne heq =>
    hne (hdraw (journalName_injective heq))
  refine ⟨h.sessions, ?_, h.gone, h.fresh, h.orderly, h.grows, ?_⟩
  · intro l' document hdocument
    rcases eq_or_ne l' l with rfl | hne
    · exact hown document hdocument
    · exact h.journals l' document ((hothers _ (hapart l' hne)).symm.trans hdocument)
  · intro l' hfinalized
    have hne : l' ≠ l := by
      rintro rfl
      exact hopen (h.grows hfinalized)
    exact ⟨(hothers _ (hapart l' hne)).trans (h.settled l' hfinalized).1, (h.settled l' hfinalized).2⟩

theorem created_owned {history : List (Happening L)} (hbaseline : .baseline l ∈ history)
    (baseline : WorkspaceSnapshot) (creation : Creation) :
    Owned draw history l (RuntimeIntegritySession.created baseline (idOf draw l) creation.launchProvenance
      creation.ownedPaths) :=
  ⟨rfl, rfl, .inl rfl, fun _ hevent => absurd hevent List.not_mem_nil, hbaseline⟩

theorem Kept.created (h : Kept draw fresh u ledger) (hdraw : Function.Injective (idOf draw))
    (hopen : .finalized l ∉ ledger.history) (howned : Owned draw history l session)
    (hevents : session.document.events = []) (outcome : WriteOutcome) :
    Kept draw fresh u { ledger with
      journals := (RuntimeIntegritySession.persist outcome ⟨session, ledger.journals⟩).2.journals } := by
  refine h.publish hdraw hopen _ ?_ ?_
  · intro name hne
    rw [← howned.recordName] at hne
    exact Function.update_of_ne hne _ _
  · intro document hdocument event hevent
    have hleaves : outcome.leaves session.document (ledger.journals (journalOf draw l)) = .record document := by
      rw [← hdocument, ← howned.recordName]
      exact (Function.update_self session.recordName _ ledger.journals).symm
    rcases leaves_record hleaves with hbefore | rfl
    · exact h.journals l document hbefore event hevent
    · rw [hevents] at hevent
      exact absurd hevent List.not_mem_nil

variable [DecidableEq L]

theorem Kept.exit (h : Kept draw fresh u ledger) (l : L) : Kept draw fresh u (ledger.exit l) := by
  unfold Ledger.exit
  split
  · have hrecorded : Kept draw fresh u (ledger.record (.exited l)) :=
      h.record trivial (fun _ _ => by simp) fun _ _ => by simp
    refine hrecorded.processes fun l' processId hspawned => ?_
    rcases eq_or_ne l' l with rfl | hne
    · exact .inr (List.mem_append_right _ (List.mem_singleton.mpr rfl))
    · rw [Function.update_of_ne hne]
      exact hrecorded.gone l' processId hspawned
  · exact h

theorem Kept.spawn (h : Kept draw fresh u ledger) (hopen : .finalized l ∉ ledger.history) (processId : Option Nat) :
    Kept draw fresh u (ledger.spawn l processId) := by
  have halive : Kept draw fresh u { ledger with alive := Function.update ledger.alive l true } := by
    refine h.processes fun l' processId' hspawned => ?_
    rcases eq_or_ne l' l with rfl | hne
    · exact .inl (Function.update_self _ _ _)
    · rw [Function.update_of_ne hne]
      exact h.gone l' processId' hspawned
  refine halive.record hopen (fun _ _ => by simp) fun l' processId' hsame => ?_
  cases hsame
  exact Function.update_self _ _ _

theorem Kept.install (h : Kept draw fresh u ledger) (hopen : .finalized l ∉ ledger.history) (hfresh : l ∉ fresh)
    (howned : Owned draw ledger.history l session) :
    Kept draw fresh u { ledger with sessions := Function.update ledger.sessions l (some session) } := by
  refine ⟨?_, h.journals, h.gone, ?_, h.orderly, h.grows, ?_⟩
  · intro l' session' hsession
    rcases eq_or_ne l' l with rfl | hne
    · have hsame : some session = some session' := (Function.update_self l' (some session) ledger.sessions).symm.trans hsession
      cases hsame
      exact howned
    · exact h.sessions l' session' ((Function.update_of_ne hne (some session) ledger.sessions).symm.trans hsession)
  · intro l' hl
    have hne : l' ≠ l := fun heq => hfresh (heq ▸ hl)
    exact ⟨(Function.update_of_ne hne _ _).trans (h.fresh l' hl).1, (h.fresh l' hl).2⟩
  · intro l' hfinalized
    have hne : l' ≠ l := by
      rintro rfl
      exact hopen (h.grows hfinalized)
    exact ⟨(h.settled l' hfinalized).1, (Function.update_of_ne hne _ _).trans (h.settled l' hfinalized).2⟩

theorem Kept.touched (h : Kept draw fresh u ledger) (hdraw : Function.Injective (idOf draw))
    (hsession : ledger.sessions l = some session) (hopen : .finalized l ∉ ledger.history)
    (htouches : Touches mutations ⟨session, ledger.journals⟩ live) :
    Kept draw fresh u ((ledger.keep l live).record (.observed l mutations)) := by
  have howned := h.sessions l session hsession
  have hfresh := h.stale hsession
  have hrecorded : Kept draw fresh u (ledger.record (.observed l mutations)) :=
    h.record ⟨howned.baseline, hopen⟩ (fun _ _ => by simp) fun _ _ => by simp
  have hopen' : .finalized l ∉ (ledger.record (.observed l mutations)).history := by
    simpa [Ledger.record] using hopen
  have howned' := hrecorded.sessions l session hsession
  have hevents : ∀ event ∈ live.session.document.events,
      Attributed draw (ledger.record (.observed l mutations)).history l event := by
    intro event hevent
    rcases htouches.events event hevent with hold | ⟨mutation, hmutation, htells⟩
    · exact howned'.events event hold
    · refine ⟨htells.sessionId.trans howned.sessionId, ?_, mutations, ?_, mutation, hmutation, htells.mutation⟩
      · rw [htells.processId]
        exact howned'.processId
      · exact List.mem_append_right _ (List.mem_singleton.mpr rfl)
  have hpublished := hrecorded.publish hdraw hopen' live.journals
    (fun name hne => htouches.others name (howned.recordName.symm ▸ hne)) (by
      intro document hdocument event hevent
      rw [← howned.recordName] at hdocument
      rcases htouches.own document hdocument with hbefore | hsub
      · exact hrecorded.journals l document (howned.recordName ▸ hbefore) event hevent
      · exact hevents event (hsub hevent))
  refine hpublished.install hopen' hfresh ⟨htouches.recordName.trans howned.recordName,
    htouches.sessionId.trans howned.sessionId, ?_, hevents, howned'.baseline⟩
  rw [htouches.processId]
  exact howned'.processId

theorem Kept.observe (h : Kept draw fresh u ledger) (hdraw : Function.Injective (idOf draw))
    (hopen : .finalized l ∉ ledger.history) (action : String) (sight : Sight) :
    Kept draw fresh u (ledger.observe l action sight).2 := by
  unfold Ledger.observe
  cases hsession : ledger.sessions l with
  | none => exact h
  | some session =>
    exact h.touched hdraw hsession hopen
      (touches_observeNow action sight.scan sight.outcome ⟨session, ledger.journals⟩)

theorem Kept.finalize (h : Kept draw fresh u ledger) (hdraw : Function.Injective (idOf draw))
    (hopen : .finalized l ∉ ledger.history)
    (hgone : ∀ processId, .spawned l processId ∈ ledger.history → .exited l ∈ ledger.history)
    (action : String) (sight : Sight) (last : WriteOutcome) :
    Kept draw fresh u (ledger.finalize l action sight last).2 := by
  unfold Ledger.finalize
  cases hsession : ledger.sessions l with
  | none => exact h
  | some session =>
    have htouched := h.touched hdraw hsession hopen
      (touches_finalize action sight.scan sight.outcome last ⟨session, ledger.journals⟩)
    dsimp only
    split
    · refine htouched.record ⟨?_, ?_, ?_⟩ ?_ fun _ _ => by simp
      · exact List.mem_append_left _ (h.sessions l session hsession).baseline
      · simpa [Ledger.record, Ledger.keep] using hopen
      · intro processId hspawned
        have hspawned : .spawned l processId ∈ ledger.history := by
          simpa [Ledger.record, Ledger.keep] using hspawned
        exact List.mem_append_left _ (hgone processId hspawned)
      · intro l' hl'
        refine ⟨by simp, fun hsame => ?_⟩
        cases hsame
        exact h.stale hsession hl'
    · exact htouched

theorem Kept.setProcessId (h : Kept draw fresh u ledger) (hdraw : Function.Injective (idOf draw))
    (hopen : .finalized l ∉ ledger.history) {processId : Option Nat}
    (hspawned : .spawned l processId ∈ ledger.history) (outcome : WriteOutcome) :
    Kept draw fresh u (ledger.setProcessId l processId outcome).2 := by
  unfold Ledger.setProcessId
  cases hsession : ledger.sessions l with
  | none => exact h
  | some session =>
    have howned := h.sessions l session hsession
    have htouches : Touches [] ⟨{ session with document.processId := processId }, ledger.journals⟩
        (RuntimeIntegritySession.setProcessId processId outcome ⟨session, ledger.journals⟩).2 :=
      Touches.persist ⟨rfl, rfl, rfl, fun _ h => .inl h, fun _ _ => rfl, fun _ h => .inl h⟩ outcome rfl rfl rfl rfl
    have hevents : ∀ event ∈ (RuntimeIntegritySession.setProcessId processId outcome
        ⟨session, ledger.journals⟩).2.session.document.events, Attributed draw ledger.history l event :=
      fun event hevent => howned.events event hevent
    have hpublished := h.publish hdraw hopen
      (RuntimeIntegritySession.setProcessId processId outcome ⟨session, ledger.journals⟩).2.journals
      (fun name hne => htouches.others name (howned.recordName.symm ▸ hne)) (by
        intro document hdocument event hevent
        rw [← howned.recordName] at hdocument
        rcases htouches.own document hdocument with hbefore | hsub
        · exact h.journals l document (howned.recordName ▸ hbefore) event hevent
        · exact hevents event (hsub hevent))
    exact hpublished.install hopen (h.stale hsession)
      ⟨howned.recordName, howned.sessionId, .inr hspawned, hevents, howned.baseline⟩

theorem Kept.create (h : Kept draw fresh u ledger) (hdraw : Function.Injective (idOf draw)) (hl : l ∈ fresh)
    (creation : Creation) : Kept draw (fresh \ {l}) u (ledger.create draw l creation).2 := by
  have hfewer : Kept draw (fresh \ {l}) u ledger := h.fewer Set.sdiff_subset
  obtain ⟨-, hbaseline, hopen⟩ := h.fresh l hl
  unfold Ledger.create
  rcases create_cases draw l creation ledger.journals with ⟨e, hcreate⟩ | ⟨baseline, session, rfl, hcreate⟩
  · rw [hcreate]
    exact hfewer
  · rw [hcreate]
    have hrecorded : Kept draw (fresh \ {l}) u (ledger.record (.baseline l)) := by
      refine hfewer.record hbaseline (fun l' hl' => ⟨fun hsame => ?_, by simp⟩) fun _ _ => by simp
      cases hsame
      exact hl'.2 rfl
    have howned : Owned draw (ledger.record (.baseline l)).history l (RuntimeIntegritySession.created baseline
        (idOf draw l) creation.launchProvenance creation.ownedPaths) :=
      created_owned (List.mem_append_right _ (List.mem_singleton.mpr rfl)) baseline creation
    have hopen' : .finalized l ∉ (ledger.record (.baseline l)).history := by
      simpa [Ledger.record] using hopen
    cases creation.outcome.result with
    | error e => exact hfewer.created hdraw hopen howned rfl creation.outcome
    | ok _ =>
      exact (hrecorded.created hdraw hopen' howned rfl creation.outcome).install hopen' (fun hl' => hl'.2 rfl) howned

end Ledgers

end RuntimeIntegrity
