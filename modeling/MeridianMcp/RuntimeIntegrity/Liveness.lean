import MeridianMcp.RuntimeIntegrity.Ownership

namespace RuntimeIntegrity

open MeridianMcp Effects PrivateState WorkspaceIntegrity
open RuntimeIntegritySession (journalName created finalStatus recordMutations observeNow persist)

variable {O R : Type} [DecidableEq O] [DecidableEq R]

theorem journalName_injective : Function.Injective journalName := by
  intro a b h
  unfold journalName at h
  generalize "runtime-integrity/".toList = before at h
  generalize ".json".toList = after at h
  exact List.append_cancel_left (List.append_cancel_right h)

theorem livenessRecordName_injective {a b lock : Text} (ha : livenessRecordName a = some lock)
    (hb : livenessRecordName b = some lock) : a = b := by
  unfold livenessRecordName at ha hb
  generalize "runtime-integrity-locks/".toList = before at ha hb
  generalize ".lock".toList = after at ha hb
  split at ha
  · cases ha
  · split at hb
    · cases hb
    · have h := (Option.some.inj ha).trans (Option.some.inj hb).symm
      exact List.append_cancel_left (List.append_cancel_right h)

-- What identifies a session, and the status that it writes.
structure SameSession (session session' : RuntimeIntegritySession) : Prop where
  recordName : session'.recordName = session.recordName
  sessionId : session'.document.sessionId = session.document.sessionId
  status : session'.document.status = session.document.status

theorem SameSession.refl (session : RuntimeIntegritySession) : SameSession session session := ⟨rfl, rfl, rfl⟩

theorem recordMutations_same (scan : Scan) (mutations : List PathMutation) (session : RuntimeIntegritySession) :
    SameSession session (recordMutations scan mutations session).2 := by
  induction mutations generalizing session with
  | nil => exact .refl session
  | cons mutation mutations ih =>
    rw [recordMutations]
    split
    · exact ih session
    · dsimp only
      split
      · exact ⟨rfl, rfl, rfl⟩
      · obtain ⟨hname, hid, hstatus⟩ := ih (({ session with
          observed := insert (keyOf mutation) session.observed } : RuntimeIntegritySession).push
            (({ session with observed := insert (keyOf mutation) session.observed } :
              RuntimeIntegritySession).event scan mutation))
        exact ⟨hname, hid, hstatus⟩

-- An atomic write of a session leaves its journal as it was, or makes it the session's document.
structure Wrote (session : RuntimeIntegritySession) (before after : Journals) : Prop where
  others : ∀ name, name ≠ session.recordName → after name = before name
  own : after session.recordName = before session.recordName ∨
    after session.recordName = .record session.document

theorem leaves_atomic {outcome : WriteOutcome} (h : atomicWrite outcome = true)
    (document : RuntimeIntegrityJournal) (before : Slot RuntimeIntegrityJournal) :
    outcome.leaves document before = before ∨ outcome.leaves document before = .record document := by
  cases outcome with
  | ok => exact .inr rfl
  | kept e => exact .inl rfl
  | installed e => exact .inr rfl
  | spoiled e => cases h
  | lost e => cases h

theorem persist_wrote {outcome : WriteOutcome} (h : atomicWrite outcome = true)
    (session : RuntimeIntegritySession) (journals : Journals) :
    Wrote session journals (persist outcome ⟨session, journals⟩).2.journals := by
  refine ⟨?_, ?_⟩
  · intro name hname
    exact Function.update_of_ne hname _ _
  · have hown : (persist outcome ⟨session, journals⟩).2.journals session.recordName =
        outcome.leaves session.document (journals session.recordName) := Function.update_self _ _ _
    rw [hown]
    exact leaves_atomic h _ _

theorem persist_ok {outcome : WriteOutcome} {session : RuntimeIntegritySession} {journals : Journals} {u : Unit}
    (h : (persist outcome ⟨session, journals⟩).1 = .ok u) :
    (persist outcome ⟨session, journals⟩).2.journals session.recordName = .record session.document := by
  have hown : (persist outcome ⟨session, journals⟩).2.journals session.recordName =
      outcome.leaves session.document (journals session.recordName) := Function.update_self _ _ _
  rw [hown]
  cases outcome with
  | ok => rfl
  | _ => cases h

theorem observeNow_effect {outcome : WriteOutcome} (h : atomicWrite outcome = true) (action : String)
    (scan : Scan) (session : RuntimeIntegritySession) (journals : Journals) :
    SameSession session (observeNow action scan outcome ⟨session, journals⟩).2.session ∧
      Wrote (observeNow action scan outcome ⟨session, journals⟩).2.session journals
        (observeNow action scan outcome ⟨session, journals⟩).2.journals := by
  rw [observeNow]
  split
  · exact ⟨.refl session, fun _ _ => rfl, .inl rfl⟩
  · rename_i delta hdelta
    have hsame := recordMutations_same scan delta.mutations session
    dsimp only
    split
    · rename_i e session' hrecord
      rw [hrecord] at hsame
      exact ⟨hsame, fun _ _ => rfl, .inl rfl⟩
    · rename_i u session' hrecord
      rw [hrecord] at hsame
      exact ⟨⟨hsame.recordName, hsame.sessionId, hsame.status⟩, persist_wrote h _ journals⟩

def OwnerStage.alive : OwnerStage → Bool
  | .locked _ => true
  | .live _ => true
  | .finalizing _ => true
  | .ended _ => true
  | _ => false

def OwnerStage.early : OwnerStage → Bool
  | .idle => true
  | .drawn _ => true
  | .locked _ => true
  | _ => false

def OwnerStage.running : OwnerStage → Bool
  | .live _ => true
  | .finalizing _ => true
  | _ => false

def OwnerStage.hasEnded : OwnerStage → Bool
  | .ended _ => true
  | _ => false

def RecovererStage.holds : RecovererStage → Option (Text × Text)
  | .holding name lock _ _ => some (name, lock)
  | .writing name lock _ _ _ => some (name, lock)
  | _ => none

section

variable (draw : O → Bytes)

def idOf (o : O) : Text := (hex (draw o)).toList

omit [DecidableEq O] in
theorem idOf_injective {draw : O → Bytes} (h : Function.Injective draw) : Function.Injective (idOf draw) :=
  fun _ _ heq => h (hex_injective (String.toList_injective heq))

-- What holds of one owner's stage, its journal and its lock.
structure OwnerFits (o : O) (stage : OwnerStage) (journal : Slot RuntimeIntegrityJournal)
    (locks : Text → Option (Holder O R)) : Prop where
  named : ∀ session, Shared.session stage = some session →
    session.document.sessionId = idOf draw o ∧ session.recordName = journalName (idOf draw o)
  active : ∀ session, Shared.session stage = some session → stage.hasEnded = false →
    session.document.status = .active
  held : stage.alive = true → ∃ lock, livenessRecordName (idOf draw o) = some lock ∧ locks lock = some (.owner o)
  unborn : stage.early = true → journal = .absent
  current : stage.running = true → ∃ document, journal = .record document ∧ document.status = .active
  written : journal = .absent ∨ ∃ document, journal = .record document ∧ document.sessionId = idOf draw o

structure RecovererFits (r : R) (stage : RecovererStage) (journals : Journals)
    (locks : Text → Option (Holder O R)) : Prop where
  found : ∀ name document names summaries, stage = .found name document names summaries →
    ∃ o, name = journalName (idOf draw o) ∧ document.sessionId = idOf draw o
  holding : ∀ name lock, stage.holds = some (name, lock) → locks lock = some (.recoverer r) ∧
    ∃ o, name = journalName (idOf draw o) ∧ livenessRecordName (idOf draw o) = some lock
  writing : ∀ name lock document names summaries, stage = .writing name lock document names summaries →
    ∃ before, journals name = .record before ∧ before.status = .active ∧ document = recovered before

structure Guarded (w : Shared O R) : Prop where
  owners : ∀ o, OwnerFits draw o (w.owners o) (w.journals (journalName (idOf draw o))) w.locks
  recoverers : ∀ r, RecovererFits draw r (w.recoverers r) w.journals w.locks
  unowned : ∀ name, (∀ o, name ≠ journalName (idOf draw o)) → w.journals name = .absent

end

variable {draw : O → Bytes} {effectiveRoots : List (List Text)}

omit [DecidableEq O] [DecidableEq R] in
theorem guarded_new : Guarded draw (Shared.new O R) where
  owners _ := ⟨fun _ => nofun, fun _ => nofun, nofun, fun _ => rfl, nofun, .inl rfl⟩
  recoverers _ := ⟨fun _ _ _ _ => nofun, fun _ _ => nofun, fun _ _ _ _ _ => nofun⟩
  unowned _ _ := rfl

omit [DecidableEq R] in
-- A step of one owner: only its own journal and its own lock may change, and the journal only
-- while the lock is held.
theorem guarded_owner (hdraw : Function.Injective (idOf draw)) {w : Shared O R} (hw : Guarded draw w) {o : O}
    {stage : OwnerStage} {journals : Journals} {locks : Text → Option (Holder O R)}
    (hjournals : ∀ name, name ≠ journalName (idOf draw o) → journals name = w.journals name)
    (hquiet : journals (journalName (idOf draw o)) = w.journals (journalName (idOf draw o)) ∨
      (w.owners o).alive = true)
    (hlocks : ∀ lock, locks lock = w.locks lock ∨ (livenessRecordName (idOf draw o) = some lock ∧
      (w.locks lock = none ∨ w.locks lock = some (.owner o))))
    (hfits : OwnerFits draw o stage (journals (journalName (idOf draw o))) locks) :
    Guarded draw { w with journals := journals, locks := locks, owners := Function.update w.owners o stage } := by
  have hheld : ∀ lock r, w.locks lock = some (.recoverer r) → locks lock = some (.recoverer r) := by
    intro lock r hr
    rcases hlocks lock with h | ⟨-, h | h⟩
    · rw [h, hr]
    · rw [hr] at h
      cases h
    · rw [hr] at h
      cases h
  refine ⟨?_, ?_, ?_⟩
  · intro o'
    rcases eq_or_ne o' o with rfl | hne
    · dsimp only
      rw [Function.update_self]
      exact hfits
    · have hid : idOf draw o' ≠ idOf draw o := fun h => hne (hdraw h)
      have hname : journalName (idOf draw o') ≠ journalName (idOf draw o) := fun h => hid (journalName_injective h)
      dsimp only
      rw [Function.update_of_ne hne, hjournals _ hname]
      obtain ⟨hnamed, hactive, hheld', hunborn, hcurrent, hwritten⟩ := hw.owners o'
      refine ⟨hnamed, hactive, ?_, hunborn, hcurrent, hwritten⟩
      intro halive
      obtain ⟨lock, hlock, howner⟩ := hheld' halive
      refine ⟨lock, hlock, ?_⟩
      rcases hlocks lock with h | ⟨h, -⟩
      · rw [h, howner]
      · exact absurd (livenessRecordName_injective hlock h) hid
  · intro r
    obtain ⟨hfound, hholding, hwriting⟩ := hw.recoverers r
    refine ⟨hfound, ?_, ?_⟩
    · intro name lock hr
      obtain ⟨hlock, o', hname, hlock'⟩ := hholding name lock hr
      exact ⟨hheld lock r hlock, o', hname, hlock'⟩
    · intro name lock document names summaries hr
      obtain ⟨before, hbefore, hstatus, hrecovered⟩ := hwriting name lock document names summaries hr
      refine ⟨before, ?_, hstatus, hrecovered⟩
      obtain ⟨hlock, o', hname, hlock'⟩ := hholding name lock (by rw [hr]; rfl)
      dsimp only
      rcases eq_or_ne o' o with rfl | hne
      · rcases hquiet with hquiet | halive
        · rw [hname, hquiet, ← hname, hbefore]
        · -- The recoverer and the owner would hold the same lock.
          obtain ⟨lock', hlock'', howner⟩ := (hw.owners o').held halive
          rw [hlock'] at hlock''
          cases hlock''
          rw [hlock] at howner
          cases howner
      · rw [hjournals name, hbefore]
        rw [hname]
        exact fun h => hne (hdraw (journalName_injective h))
  · intro name hname
    dsimp only
    rw [hjournals name (hname o)]
    exact hw.unowned name hname

omit [DecidableEq O] in
theorem guarded_recoverer {w : Shared O R} (hw : Guarded draw w) {r : R}
    {stage : RecovererStage} {locks : Text → Option (Holder O R)}
    (hlocks : ∀ lock, locks lock = w.locks lock ∨ w.locks lock = none ∨ w.locks lock = some (.recoverer r))
    (hfits : RecovererFits draw r stage w.journals locks) :
    Guarded draw { w with locks := locks, recoverers := Function.update w.recoverers r stage } := by
  refine ⟨?_, ?_, hw.unowned⟩
  · intro o
    obtain ⟨hnamed, hactive, hheld, hunborn, hcurrent, hwritten⟩ := hw.owners o
    refine ⟨hnamed, hactive, ?_, hunborn, hcurrent, hwritten⟩
    intro halive
    obtain ⟨lock, hlock, howner⟩ := hheld halive
    refine ⟨lock, hlock, ?_⟩
    rcases hlocks lock with h | h | h
    · exact h.trans howner
    · rw [howner] at h
      cases h
    · rw [howner] at h
      cases h
  · intro r'
    rcases eq_or_ne r' r with rfl | hne
    · dsimp only
      rw [Function.update_self]
      exact hfits
    · dsimp only
      rw [Function.update_of_ne hne]
      obtain ⟨hfound, hholding, hwriting⟩ := hw.recoverers r'
      refine ⟨hfound, ?_, hwriting⟩
      intro name lock hr
      obtain ⟨hlock, howner⟩ := hholding name lock hr
      refine ⟨?_, howner⟩
      rcases hlocks lock with h | h | h
      · rw [h, hlock]
      · rw [hlock] at h
        cases h
      · rw [hlock] at h
        cases h
        exact absurd rfl hne

omit [DecidableEq O] in
-- The write of a recoverer that holds the lock of the journal it writes.
theorem guarded_rewrite (hdraw : Function.Injective (idOf draw)) {w : Shared O R} (hw : Guarded draw w) {r : R}
    {name lock : Text} {document : RuntimeIntegrityJournal} {names : List Text}
    {summaries : List RuntimeIntegritySummary} {entry : Slot RuntimeIntegrityJournal}
    (hstage : w.recoverers r = .writing name lock document names summaries)
    (hentry : entry = w.journals name ∨ entry = .record document) (result : RecovererStage)
    (hresult : ∀ name document names summaries, result ≠ .found name document names summaries)
    (hholds : result.holds = none) :
    Guarded draw { w with
      journals := Function.update w.journals name entry
      locks := Function.update w.locks lock none
      recoverers := Function.update w.recoverers r result } := by
  obtain ⟨-, hholding, hwriting⟩ := hw.recoverers r
  obtain ⟨hlock, o, hname, hlockOf⟩ := hholding name lock (by rw [hstage]; rfl)
  obtain ⟨before, hbefore, hactive, hrecovered⟩ := hwriting name lock document names summaries hstage
  have hnot : (w.owners o).alive ≠ true := by
    intro halive
    obtain ⟨lock', hlock', howner⟩ := (hw.owners o).held halive
    rw [hlockOf] at hlock'
    cases hlock'
    rw [hlock] at howner
    cases howner
  refine ⟨?_, ?_, ?_⟩
  · intro o'
    obtain ⟨hnamed, hactive', hheld, hunborn, hcurrent, hwritten⟩ := hw.owners o'
    have hheld' : (w.owners o').alive = true → ∃ l, livenessRecordName (idOf draw o') = some l ∧
        Function.update w.locks lock none l = some (.owner o') := by
      intro halive
      obtain ⟨l, hl, howner⟩ := hheld halive
      refine ⟨l, hl, ?_⟩
      rw [Function.update_of_ne, howner]
      rintro rfl
      rw [hlock] at howner
      cases howner
    rcases eq_or_ne o' o with rfl | hne
    · refine ⟨hnamed, hactive', hheld', ?_, ?_, ?_⟩
      · intro hearly
        have habsent := hunborn hearly
        rw [← hname, hbefore] at habsent
        cases habsent
      · intro hrunning
        refine absurd ?_ hnot
        revert hrunning
        cases w.owners o' with
        | live session => exact id
        | finalizing session => exact id
        | _ => nofun
      · right
        dsimp only
        rw [← hname, Function.update_self]
        rcases hwritten with h | ⟨document', hdocument, hid⟩
        · rw [← hname, hbefore] at h
          cases h
        · rw [← hname, hbefore] at hdocument
          cases hdocument
          rcases hentry with rfl | rfl
          · exact ⟨before, hbefore, hid⟩
          · refine ⟨document, rfl, ?_⟩
            rw [hrecovered]
            exact hid
    · have hother : journalName (idOf draw o') ≠ name := by
        rw [hname]
        exact fun h => hne (hdraw (journalName_injective h))
      dsimp only
      rw [Function.update_of_ne hother]
      exact ⟨hnamed, hactive', hheld', hunborn, hcurrent, hwritten⟩
  · intro r'
    rcases eq_or_ne r' r with rfl | hne
    · dsimp only
      rw [Function.update_self]
      refine ⟨?_, ?_, ?_⟩
      · exact fun name document names summaries h => absurd h (hresult name document names summaries)
      · intro name lock h
        rw [hholds] at h
        cases h
      · rintro name lock document names summaries rfl
        cases hholds
    · dsimp only
      rw [Function.update_of_ne hne]
      obtain ⟨hfound', hholding', hwriting'⟩ := hw.recoverers r'
      have hlocks : ∀ l, w.locks l = some (.recoverer r') → l ≠ lock := by
        rintro l hl rfl
        rw [hlock] at hl
        cases hl
        exact hne rfl
      refine ⟨hfound', ?_, ?_⟩
      · intro name' lock' h
        obtain ⟨hlock', howner⟩ := hholding' name' lock' h
        refine ⟨?_, howner⟩
        rw [Function.update_of_ne (hlocks lock' hlock'), hlock']
      · intro name' lock' document' names' summaries' h
        obtain ⟨hlock', o', hname', hlockOf'⟩ := hholding' name' lock' (by rw [h]; rfl)
        obtain ⟨before', hbefore', hrest⟩ := hwriting' name' lock' document' names' summaries' h
        refine ⟨before', ?_, hrest⟩
        rw [Function.update_of_ne, hbefore']
        rintro rfl
        rw [hname] at hname'
        obtain rfl := hdraw (journalName_injective hname')
        rw [hlockOf] at hlockOf'
        cases hlockOf'
        exact hlocks lock hlock' rfl
  · intro name' hname'
    dsimp only
    rw [Function.update_of_ne, hw.unowned name' hname']
    rintro rfl
    exact hname' o hname

def RuntimeIntegrityStatus.final : RuntimeIntegrityStatus → Bool
  | .finalizedClean => true
  | .finalizedWithChanges => true
  | .finalizedWithViolation => true
  | _ => false

def statusOf : Slot RuntimeIntegrityJournal → Option RuntimeIntegrityStatus
  | .record document => some document.status
  | _ => none

def PartyStep.owner : PartyStep O R → Option O
  | .setProcessId o _ _ => some o
  | .observe o _ _ _ => some o
  | .finalize o _ _ _ => some o
  | _ => none

-- What a step makes of the journal of one name.
inductive JournalMove (draw : O → Bytes) (w : Shared O R) : PartyStep O R → Shared O R → Text → Prop
  | unchanged {step v name} (h : v.journals name = w.journals name) : JournalMove draw w step v name
  | created {o outcome v} (halive : (w.owners o).alive = true)
      (hbefore : w.journals (journalName (idOf draw o)) = .absent)
      (hafter : statusOf (v.journals (journalName (idOf draw o))) = some .active) :
      JournalMove draw w (.create o outcome) v (journalName (idOf draw o))
  | updated {step o v} (howner : step.owner = some o) (halive : (w.owners o).alive = true)
      (hbefore : statusOf (w.journals (journalName (idOf draw o))) = some .active)
      (hafter : statusOf (v.journals (journalName (idOf draw o))) = some .active) :
      JournalMove draw w step v (journalName (idOf draw o))
  | finalized {o outcome v} (status : RuntimeIntegrityStatus) (halive : (w.owners o).alive = true)
      (hbefore : statusOf (w.journals (journalName (idOf draw o))) = some .active)
      (hafter : statusOf (v.journals (journalName (idOf draw o))) = some status)
      (hfinal : status.final = true) :
      JournalMove draw w (.settle o outcome) v (journalName (idOf draw o))
  | recovered {r outcome v lock} (o : O) (hgone : w.owners o = .gone)
      (hlock : livenessRecordName (idOf draw o) = some lock) (hholder : w.locks lock = some (.recoverer r))
      (hbefore : statusOf (w.journals (journalName (idOf draw o))) = some .active)
      (hafter : statusOf (v.journals (journalName (idOf draw o))) = some .observedDuringRecovery) :
      JournalMove draw w (.rewrite r outcome) v (journalName (idOf draw o))

theorem statusOf_record {entry : Slot RuntimeIntegrityJournal} {status : RuntimeIntegrityStatus}
    (h : ∃ document, entry = .record document ∧ document.status = status) : statusOf entry = some status := by
  obtain ⟨document, rfl, rfl⟩ := h
  rfl

omit [DecidableEq R] in
theorem guarded_setOwner (hdraw : Function.Injective (idOf draw)) {w : Shared O R} (hw : Guarded draw w) {o : O}
    {stage : OwnerStage} (hfits : OwnerFits draw o stage (w.journals (journalName (idOf draw o))) w.locks) :
    Guarded draw (w.setOwner o stage) :=
  guarded_owner hdraw hw (fun _ _ => rfl) (.inl rfl) (fun _ => .inl rfl) hfits

omit [DecidableEq O] in
theorem guarded_setRecoverer {w : Shared O R} (hw : Guarded draw w) {r : R} {stage : RecovererStage}
    (hfits : RecovererFits draw r stage w.journals w.locks) : Guarded draw (w.setRecoverer r stage) :=
  guarded_recoverer hw (fun _ => .inl rfl) hfits

omit [DecidableEq O] [DecidableEq R] in
theorem OwnerFits.gone {o : O} {stage : OwnerStage} {journal : Slot RuntimeIntegrityJournal}
    {locks : Text → Option (Holder O R)} (h : OwnerFits draw o stage journal locks)
    (locks' : Text → Option (Holder O R)) : OwnerFits draw o .gone journal locks' :=
  ⟨fun _ => nofun, fun _ => nofun, nofun, nofun, nofun, h.written⟩

omit [DecidableEq R] in
theorem guarded_write (hdraw : Function.Injective (idOf draw)) {w : Shared O R} (hw : Guarded draw w) {o : O}
    {session session' : RuntimeIntegritySession} {stage : OwnerStage} {journals : Journals}
    (hsession : Shared.session (w.owners o) = some session) (halive : (w.owners o).alive = true)
    (hname : session'.recordName = session.recordName)
    (hid : session'.document.sessionId = session.document.sessionId) (hwrote : Wrote session' w.journals journals)
    (hstage : Shared.session stage = some session') (hearly : stage.early = false)
    (hactive : stage.hasEnded = false → session'.document.status = .active)
    (hcurrent : stage.running = true → ∃ document, journals (journalName (idOf draw o)) = .record document ∧
      document.status = .active) :
    Guarded draw ({ w with journals := journals }.setOwner o stage) := by
  obtain ⟨hnamed, -, hheld, -, -, hwritten⟩ := hw.owners o
  obtain ⟨hsessionId, hrecordName⟩ := hnamed session hsession
  have hown : session'.recordName = journalName (idOf draw o) := hname.trans hrecordName
  apply guarded_owner hdraw hw _ (.inr halive) (fun _ => .inl rfl)
  · refine ⟨?_, ?_, fun _ => hheld halive, ?_, hcurrent, ?_⟩
    · intro s hs
      rw [hstage] at hs
      cases hs
      exact ⟨hid.trans hsessionId, hown⟩
    · intro s hs
      rw [hstage] at hs
      cases hs
      exact hactive
    · intro h
      rw [hearly] at h
      cases h
    · have hwrote' := hwrote.own
      rw [hown] at hwrote'
      rcases hwrote' with h | h
      · dsimp only
        rw [h]
        exact hwritten
      · exact .inr ⟨_, h, hid.trans hsessionId⟩
  · intro name hne
    exact hwrote.others name (by rw [hown]; exact hne)

omit [DecidableEq O] [DecidableEq R] in
theorem current_write {w : Shared O R} (hw : Guarded draw w) {o : O} {session' : RuntimeIntegritySession}
    {journals : Journals} (hrunning : (w.owners o).running = true)
    (hown : session'.recordName = journalName (idOf draw o)) (hwrote : Wrote session' w.journals journals)
    (hactive : session'.document.status = .active) :
    ∃ document, journals (journalName (idOf draw o)) = .record document ∧ document.status = .active := by
  have hwrote' := hwrote.own
  rw [hown] at hwrote'
  rcases hwrote' with h | h
  · rw [h]
    exact (hw.owners o).current hrunning
  · exact ⟨_, h, hactive⟩

omit [DecidableEq O] [DecidableEq R] in
theorem move_of_wrote {w v : Shared O R} {session' : RuntimeIntegritySession} {step : PartyStep O R} {o : O}
    (hown : session'.recordName = journalName (idOf draw o)) (hwrote : Wrote session' w.journals v.journals)
    (hmove : JournalMove draw w step v (journalName (idOf draw o))) (name : Text) :
    JournalMove draw w step v name := by
  rcases eq_or_ne name (journalName (idOf draw o)) with rfl | hne
  · exact hmove
  · exact .unchanged (hwrote.others name (by rw [hown]; exact hne))

-- One step: the invariant, and what became of every journal.
def Moves (draw : O → Bytes) (w : Shared O R) (step : PartyStep O R) (v : Shared O R) : Prop :=
  Guarded draw v ∧ ∀ name, JournalMove draw w step v name

omit [DecidableEq R] in
theorem moves_setOwner (hdraw : Function.Injective (idOf draw)) {w : Shared O R} (hw : Guarded draw w) {o : O}
    {step : PartyStep O R} {stage : OwnerStage}
    (hfits : OwnerFits draw o stage (w.journals (journalName (idOf draw o))) w.locks) :
    Moves draw w step (w.setOwner o stage) :=
  ⟨guarded_setOwner hdraw hw hfits, fun _ => .unchanged rfl⟩

omit [DecidableEq R] in
theorem moves_releaseOf (hdraw : Function.Injective (idOf draw)) {w v : Shared O R} (hw : Guarded draw w) {o : O}
    {session : RuntimeIntegritySession} (hid : session.document.sessionId = idOf draw o)
    (halive : (w.owners o).alive = true) (hv : v.locks = w.locks) (hvo : v.owners = w.owners)
    (hvr : v.recoverers = w.recoverers)
    (hjournals : ∀ name, name ≠ journalName (idOf draw o) → v.journals name = w.journals name)
    (hwritten : v.journals (journalName (idOf draw o)) = .absent ∨
      ∃ document, v.journals (journalName (idOf draw o)) = .record document ∧ document.sessionId = idOf draw o) :
    Guarded draw ((v.releaseOf session).setOwner o .gone) := by
  obtain ⟨lock, hlock, howner⟩ := (hw.owners o).held halive
  have hrelease : v.releaseOf session = { w with
      journals := v.journals
      locks := Function.update w.locks lock none } := by
    have h : Shared.lockOf session = some lock := by
      rw [Shared.lockOf, hid, hlock]
    unfold Shared.releaseOf
    rw [h]
    dsimp only [Shared.release]
    rw [hv, hvo, hvr]
  rw [hrelease]
  apply guarded_owner hdraw hw hjournals (.inr halive)
  · intro l
    rcases eq_or_ne l lock with rfl | hne
    · exact .inr ⟨hlock, .inr howner⟩
    · exact .inl (Function.update_of_ne hne _ _)
  · exact ⟨fun _ => nofun, fun _ => nofun, nofun, nofun, nofun, hwritten⟩

end RuntimeIntegrity
