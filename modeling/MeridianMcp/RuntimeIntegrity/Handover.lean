import MeridianMcp.RuntimeIntegrity.Liveness

namespace RuntimeIntegrity

open MeridianMcp Effects PrivateState WorkspaceIntegrity
open RuntimeIntegritySession (journalName created finalStatus observeNow)

variable {O R : Type} [DecidableEq O] [DecidableEq R]

variable {draw : O → Bytes} {effectiveRoots : List (List Text)} {w v : Shared O R} {o : O} {r : R}

omit [DecidableEq R] in
theorem draw_moves (hdraw : Function.Injective (idOf draw)) (hw : Guarded draw w) {capture provenance ownedPaths}
    (h : w.performOwner draw (.draw o capture provenance ownedPaths) = some v) :
    Moves draw w (.draw o capture provenance ownedPaths) v := by
  have hfits := hw.owners o
  simp only [Shared.performOwner] at h
  split at h <;> try cases h
  rename_i hstage
  have habsent : w.journals (journalName (idOf draw o)) = .absent := hfits.unborn (by rw [hstage]; rfl)
  cases capture with
  | error e =>
    cases h
    exact moves_setOwner hdraw hw (hfits.gone _)
  | ok baseline =>
    cases h
    apply moves_setOwner hdraw hw
    refine ⟨?_, ?_, nofun, fun _ => habsent, nofun, .inl habsent⟩
    · intro session hs
      cases hs
      exact ⟨rfl, rfl⟩
    · intro session hs _
      cases hs
      rfl

omit [DecidableEq R] in
theorem acquire_moves (hdraw : Function.Injective (idOf draw)) (hw : Guarded draw w)
    (h : w.performOwner draw (.acquire o) = some v) : Moves draw w (.acquire o) v := by
  have hfits := hw.owners o
  simp only [Shared.performOwner] at h
  split at h <;> try cases h
  rename_i session hstage
  have hnamed := hfits.named session (by rw [hstage]; rfl)
  have hactive := hfits.active session (by rw [hstage]; rfl) (by rw [hstage]; rfl)
  have habsent : w.journals (journalName (idOf draw o)) = .absent := hfits.unborn (by rw [hstage]; rfl)
  split at h
  · cases h
    exact moves_setOwner hdraw hw (hfits.gone _)
  · rename_i lock hlock
    have hlockOf : livenessRecordName (idOf draw o) = some lock := by
      rw [← hnamed.1]
      exact hlock
    split at h
    · rename_i hfree
      cases h
      refine ⟨?_, fun _ => .unchanged rfl⟩
      apply guarded_owner hdraw hw (fun _ _ => rfl) (.inl rfl)
      · intro l
        rcases eq_or_ne l lock with rfl | hne
        · exact .inr ⟨hlockOf, .inl hfree⟩
        · exact .inl (Function.update_of_ne hne _ _)
      · refine ⟨?_, ?_, ?_, fun _ => habsent, nofun, .inl habsent⟩
        · intro s hs
          cases hs
          exact hnamed
        · intro s hs _
          cases hs
          exact hactive
        · intro _
          exact ⟨lock, hlockOf, Function.update_self _ _ _⟩
    · cases h

omit [DecidableEq R] in
theorem create_moves (hdraw : Function.Injective (idOf draw)) (hw : Guarded draw w) {outcome : WriteOutcome}
    (h : w.performOwner draw (.create o outcome) = some v) : Moves draw w (.create o outcome) v := by
  have hfits := hw.owners o
  simp only [Shared.performOwner] at h
  split at h <;> try cases h
  rename_i session hstage
  have hsession : Shared.session (w.owners o) = some session := by
    rw [hstage]
    rfl
  obtain ⟨hid, hname⟩ := hfits.named session hsession
  have hactive := hfits.active session hsession (by rw [hstage]; rfl)
  have halive : (w.owners o).alive = true := by rw [hstage]; rfl
  have habsent : w.journals (journalName (idOf draw o)) = .absent := hfits.unborn (by rw [hstage]; rfl)
  split at h
  · rename_i hatomic
    have hwrote := persist_wrote hatomic session w.journals
    have hmove : ∀ u : Shared O R,
        u.journals = (RuntimeIntegritySession.persist outcome ⟨session, w.journals⟩).2.journals →
        ∀ name, JournalMove draw w (.create o outcome) u name := by
      intro u hu
      rw [← hu] at hwrote
      apply move_of_wrote hname hwrote
      rcases hwrote.own with h | h
      · rw [hname] at h
        exact .unchanged h
      · rw [hname] at h
        exact .created halive habsent (statusOf_record ⟨_, h, hactive⟩)
    split at h
    · rename_i u after hpersist
      cases h
      have hafter : after = { w with
          journals := (RuntimeIntegritySession.persist outcome ⟨session, w.journals⟩).2.journals } :=
        (congrArg Prod.snd hpersist).symm
      subst hafter
      refine ⟨?_, hmove _ rfl⟩
      apply guarded_write hdraw hw hsession halive rfl rfl hwrote rfl rfl
      · exact fun _ => hactive
      · intro _
        have hresult : (RuntimeIntegritySession.persist outcome ⟨session, w.journals⟩).1 = .ok u :=
          congrArg Prod.fst hpersist
        have hok := persist_ok hresult
        rw [hname] at hok
        exact ⟨_, hok, hactive⟩
    · rename_i e after hpersist
      cases h
      have hafter : after = { w with
          journals := (RuntimeIntegritySession.persist outcome ⟨session, w.journals⟩).2.journals } :=
        (congrArg Prod.snd hpersist).symm
      subst hafter
      refine ⟨?_, ?_⟩
      · apply moves_releaseOf hdraw hw hid halive
        · rfl
        · rfl
        · rfl
        · intro name hne
          exact hwrote.others name (by rw [hname]; exact hne)
        · rcases hwrote.own with h | h
          · rw [hname] at h
            exact .inl (h.trans habsent)
          · rw [hname] at h
            exact .inr ⟨_, h, hid⟩
      · apply hmove
        unfold Shared.releaseOf
        split <;> rfl
  · cases h

omit [DecidableEq R] in
-- A write of a session whose journal is there and active.
theorem running_moves (hdraw : Function.Injective (idOf draw)) (hw : Guarded draw w)
    {session session' : RuntimeIntegritySession} {stage : OwnerStage} {journals : Journals} {step : PartyStep O R}
    (hsession : Shared.session (w.owners o) = some session) (hrunning : (w.owners o).running = true)
    (hsame : SameSession session session') (hwrote : Wrote session' w.journals journals)
    (hstage : Shared.session stage = some session') (hearly : stage.early = false) (howner : step.owner = some o) :
    Moves draw w step ({ w with journals := journals }.setOwner o stage) := by
  have halive : (w.owners o).alive = true := by
    revert hrunning
    cases w.owners o with
    | live session => exact id
    | finalizing session => exact id
    | _ => nofun
  have hended : (w.owners o).hasEnded = false := by
    revert hrunning
    cases w.owners o with
    | ended session => nofun
    | _ => exact fun _ => rfl
  have hfits := hw.owners o
  have hactive : session'.document.status = .active := hsame.status.trans (hfits.active session hsession hended)
  have hown : session'.recordName = journalName (idOf draw o) := hsame.recordName.trans (hfits.named session hsession).2
  have hcurrent := current_write hw hrunning hown hwrote hactive
  refine ⟨?_, ?_⟩
  · apply guarded_write hdraw hw hsession halive hsame.recordName hsame.sessionId hwrote hstage hearly
    · exact fun _ => hactive
    · exact fun _ => hcurrent
  · apply move_of_wrote hown hwrote
    exact .updated howner halive (statusOf_record (hfits.current hrunning)) (statusOf_record hcurrent)

omit [DecidableEq R] in
theorem setProcessId_moves (hdraw : Function.Injective (idOf draw)) (hw : Guarded draw w) {processId : Option Nat}
    {outcome : WriteOutcome} (h : w.performOwner draw (.setProcessId o processId outcome) = some v) :
    Moves draw w (.setProcessId o processId outcome) v := by
  simp only [Shared.performOwner] at h
  split at h <;> try cases h
  rename_i session hstage
  split at h
  · rename_i hatomic
    cases h
    apply running_moves hdraw hw (by rw [hstage]; rfl) (by rw [hstage]; rfl) _ _ rfl rfl rfl
    · exact ⟨rfl, rfl, rfl⟩
    · exact persist_wrote hatomic _ w.journals
  · cases h

omit [DecidableEq R] in
theorem observe_moves (hdraw : Function.Injective (idOf draw)) (hw : Guarded draw w) {action : String} {scan : Scan}
    {outcome : WriteOutcome} (h : w.performOwner draw (.observe o action scan outcome) = some v) :
    Moves draw w (.observe o action scan outcome) v := by
  simp only [Shared.performOwner] at h
  split at h <;> try cases h
  rename_i session hstage
  split at h
  · rename_i hatomic
    cases h
    obtain ⟨hsame, hwrote⟩ := observeNow_effect hatomic action scan session w.journals
    exact running_moves hdraw hw (by rw [hstage]; rfl) (by rw [hstage]; rfl) hsame hwrote rfl rfl rfl
  · cases h

omit [DecidableEq R] in
theorem finalize_moves (hdraw : Function.Injective (idOf draw)) (hw : Guarded draw w) {action : String} {scan : Scan}
    {outcome : WriteOutcome} (h : w.performOwner draw (.finalize o action scan outcome) = some v) :
    Moves draw w (.finalize o action scan outcome) v := by
  simp only [Shared.performOwner] at h
  split at h <;> try cases h
  rename_i session hstage
  split at h
  · rename_i hatomic
    obtain ⟨hsame, hwrote⟩ := observeNow_effect hatomic action scan session w.journals
    split at h
    · rename_i live hobserve
      cases h
      rw [hobserve] at hsame hwrote
      exact running_moves hdraw hw (by rw [hstage]; rfl) (by rw [hstage]; rfl) hsame hwrote rfl rfl rfl
    · rename_i live hobserve
      cases h
      rw [hobserve] at hsame hwrote
      exact running_moves hdraw hw (by rw [hstage]; rfl) (by rw [hstage]; rfl) hsame hwrote rfl rfl rfl
  · cases h

theorem finalStatus_final (events : List RuntimeIntegrityEvent) : (finalStatus events).final = true := by
  unfold finalStatus
  split
  · rfl
  · split <;> rfl

omit [DecidableEq R] in
theorem final_moves (hdraw : Function.Injective (idOf draw)) (hw : Guarded draw w)
    {session session' : RuntimeIntegritySession} {journals : Journals} {outcome : WriteOutcome}
    (hstage : w.owners o = .finalizing session) (hrecordName : session'.recordName = session.recordName)
    (hsessionId : session'.document.sessionId = session.document.sessionId)
    (hfinal : session'.document.status.final = true) (hwrote : Wrote session' w.journals journals) :
    Moves draw w (.settle o outcome) ({ w with journals := journals }.setOwner o (.ended session')) := by
  have hfits := hw.owners o
  have hsession : Shared.session (w.owners o) = some session := by
    rw [hstage]
    rfl
  have halive : (w.owners o).alive = true := by rw [hstage]; rfl
  have hname := hrecordName.trans (hfits.named session hsession).2
  have hcurrent := hfits.current (by rw [hstage]; rfl)
  refine ⟨?_, ?_⟩
  · exact guarded_write hdraw hw hsession halive hrecordName hsessionId hwrote rfl rfl nofun nofun
  · apply move_of_wrote hname hwrote
    rcases hwrote.own with h | h
    · rw [hname] at h
      exact .unchanged h
    · rw [hname] at h
      exact .finalized _ halive (statusOf_record hcurrent) (statusOf_record ⟨_, h, rfl⟩) hfinal

omit [DecidableEq R] in
theorem settle_moves (hdraw : Function.Injective (idOf draw)) (hw : Guarded draw w) {outcome : WriteOutcome}
    (h : w.performOwner draw (.settle o outcome) = some v) : Moves draw w (.settle o outcome) v := by
  simp only [Shared.performOwner] at h
  split at h <;> try cases h
  rename_i session hstage
  split at h
  · rename_i hatomic
    cases h
    apply final_moves hdraw hw hstage
    · rfl
    · rfl
    · exact finalStatus_final _
    · exact persist_wrote hatomic _ w.journals
  · cases h

omit [DecidableEq R] in
theorem drop_moves (hdraw : Function.Injective (idOf draw)) (hw : Guarded draw w)
    (h : w.performOwner draw (.drop o) = some v) : Moves draw w (.drop o) v := by
  have hfits := hw.owners o
  have hreleased : ∀ session, Shared.session (w.owners o) = some session → (w.owners o).alive = true →
      Moves draw w (.drop o) ((w.releaseOf session).setOwner o .gone) := by
    intro session hsession halive
    refine ⟨?_, fun name => .unchanged ?_⟩
    · apply moves_releaseOf hdraw hw (hfits.named session hsession).1 halive
      · rfl
      · rfl
      · rfl
      · exact fun _ _ => rfl
      · exact hfits.written
    · unfold Shared.releaseOf
      split <;> rfl
  simp only [Shared.performOwner, Option.some.injEq] at h
  subst h
  unfold Shared.dropOwner
  split
  case h_5 => exact moves_setOwner hdraw hw (hfits.gone _)
  all_goals
    rename_i session hstage
    exact hreleased session (by rw [hstage]; rfl) (by rw [hstage]; rfl)

omit [DecidableEq O] in
theorem moves_setRecoverer (hw : Guarded draw w) {step : PartyStep O R} {stage : RecovererStage}
    (hfits : RecovererFits draw r stage w.journals w.locks) : Moves draw w step (w.setRecoverer r stage) :=
  ⟨guarded_setRecoverer hw hfits, fun _ => .unchanged rfl⟩

omit [DecidableEq O] [DecidableEq R] in
theorem RecovererFits.visiting (journals : Journals) (locks : Text → Option (Holder O R)) (names : List Text)
    (summaries : List RuntimeIntegritySummary) : RecovererFits draw r (.visiting names summaries) journals locks :=
  ⟨fun _ _ _ _ => nofun, fun _ _ => nofun, fun _ _ _ _ _ => nofun⟩

omit [DecidableEq O] [DecidableEq R] in
theorem RecovererFits.done (journals : Journals) (locks : Text → Option (Holder O R))
    (result : Option (List RuntimeIntegritySummary)) : RecovererFits draw r (.done result) journals locks :=
  ⟨fun _ _ _ _ => nofun, fun _ _ => nofun, fun _ _ _ _ _ => nofun⟩

omit [DecidableEq O] in
theorem moves_release (hw : Guarded draw w) {step : PartyStep O R} {name lock : Text} {stage : RecovererStage}
    (hholds : (w.recoverers r).holds = some (name, lock))
    (hfits : ∀ locks, RecovererFits draw r stage w.journals locks) :
    Moves draw w step ((w.release lock).setRecoverer r stage) := by
  refine ⟨?_, fun _ => .unchanged rfl⟩
  apply guarded_recoverer hw _ (hfits _)
  intro l
  rcases eq_or_ne l lock with rfl | hne
  · exact .inr (.inr ((hw.recoverers r).holding name l hholds).1)
  · exact .inl (Function.update_of_ne hne _ _)

omit [DecidableEq O] in
theorem dropRecoverer_moves (hw : Guarded draw w) (step : PartyStep O R) :
    Moves draw w step (w.dropRecoverer r) := by
  unfold Shared.dropRecoverer
  split
  · rename_i name lock names summaries hstage
    have hholds : (w.recoverers r).holds = some (name, lock) := by rw [hstage]; rfl
    exact moves_release hw hholds fun _ => .done _ _ none
  · rename_i name lock document names summaries hstage
    have hholds : (w.recoverers r).holds = some (name, lock) := by rw [hstage]; rfl
    exact moves_release hw hholds fun _ => .done _ _ none
  · exact moves_setRecoverer hw (.done _ _ none)

omit [DecidableEq O] in
theorem list_moves (hw : Guarded draw w) {names : List Text}
    (h : w.performRecoverer effectiveRoots (.list r names) = some v) : Moves draw w (.list r names) v := by
  simp only [Shared.performRecoverer] at h
  split at h <;> try cases h
  split at h <;> try cases h
  exact moves_setRecoverer hw (.visiting _ _ names [])

omit [DecidableEq O] in
theorem visit_moves (hw : Guarded draw w) (h : w.performRecoverer effectiveRoots (.visit r) = some v) :
    Moves draw w (.visit r) v := by
  simp only [Shared.performRecoverer] at h
  split at h <;> try cases h
  · exact moves_setRecoverer hw (.done _ _ _)
  · rename_i name names summaries hstage
    split at h <;> cases h
    · rename_i document hjournal
      apply moves_setRecoverer hw
      split
      · exact .visiting _ _ names summaries
      · refine ⟨?_, fun _ _ => nofun, fun _ _ _ _ _ => nofun⟩
        intro name' document' names' summaries' hfound
        cases hfound
        by_contra hnone
        have hunowned := hw.unowned name
        have habsent : w.journals name = .absent := by
          apply hunowned
          intro o hname
          rcases (hw.owners o).written with h | ⟨written, h, hid⟩
          · rw [← hname, hjournal] at h
            cases h
          · rw [← hname, hjournal] at h
            cases h
            exact hnone ⟨o, hname, hid⟩
        rw [hjournal] at habsent
        cases habsent
    · exact moves_setRecoverer hw (.done _ _ _)

omit [DecidableEq O] in
theorem tryLock_moves (hw : Guarded draw w) (h : w.performRecoverer effectiveRoots (.tryLock r) = some v) :
    Moves draw w (.tryLock r) v := by
  simp only [Shared.performRecoverer] at h
  split at h <;> try cases h
  rename_i name document names summaries hstage
  obtain ⟨o, hname, hid⟩ := (hw.recoverers r).found name document names summaries hstage
  split at h
  · cases h
    exact moves_setRecoverer hw (.done _ _ _)
  · rename_i lock hlock
    rw [hid] at hlock
    split at h <;> cases h
    · rename_i hfree
      refine ⟨?_, fun _ => .unchanged rfl⟩
      apply guarded_recoverer hw
      · intro l
        rcases eq_or_ne l lock with rfl | hne
        · exact .inr (.inl hfree)
        · exact .inl (Function.update_of_ne hne _ _)
      · refine ⟨fun _ _ _ _ => nofun, ?_, fun _ _ _ _ _ => nofun⟩
        intro name' lock' hholds
        cases hholds
        exact ⟨Function.update_self _ _ _, o, hname, hlock⟩
    · exact moves_setRecoverer hw (.visiting _ _ names summaries)

omit [DecidableEq O] in
theorem reread_moves (hw : Guarded draw w) (h : w.performRecoverer effectiveRoots (.reread r) = some v) :
    Moves draw w (.reread r) v := by
  simp only [Shared.performRecoverer] at h
  split at h <;> try cases h
  rename_i name lock names summaries hstage
  have hholds : (w.recoverers r).holds = some (name, lock) := by
    rw [hstage]
    rfl
  split at h
  · rename_i document hjournal
    split at h
    · cases h
      exact moves_release hw hholds fun _ => .visiting _ _ _ _
    · rename_i hactive
      split at h
      · cases h
        exact moves_release hw hholds fun _ => .visiting _ _ _ _
      · cases h
        apply moves_setRecoverer hw
        refine ⟨fun _ _ _ _ => nofun, ?_, ?_⟩
        · intro name' lock' h
          cases h
          exact (hw.recoverers r).holding name lock hholds
        · intro name' lock' document' names' summaries' h
          cases h
          exact ⟨document, hjournal, not_not.mp hactive, rfl⟩
  · cases h
    exact dropRecoverer_moves hw _

omit [DecidableEq O] in
theorem rewrite_moves (hdraw : Function.Injective (idOf draw)) (hw : Guarded draw w) {outcome : WriteOutcome}
    (h : w.performRecoverer effectiveRoots (.rewrite r outcome) = some v) :
    Moves draw w (.rewrite r outcome) v := by
  simp only [Shared.performRecoverer] at h
  split at h <;> try cases h
  rename_i name lock document names summaries hstage
  split at h
  · rename_i hatomic
    cases h
    have hentry := leaves_atomic hatomic document (w.journals name)
    refine ⟨?_, ?_⟩
    · refine guarded_rewrite hdraw hw hstage hentry _ ?_ ?_
      · intro name' document' names' summaries'
        split <;> nofun
      · split <;> rfl
    · intro name'
      rcases eq_or_ne name' name with rfl | hne
      · obtain ⟨hlock, o, hname, hlockOf⟩ := (hw.recoverers r).holding name' lock (by rw [hstage]; rfl)
        obtain ⟨before, hbefore, hactive, hrecovered⟩ :=
          (hw.recoverers r).writing name' lock document names summaries hstage
        have hown : (Function.update w.journals name' (outcome.leaves document (w.journals name'))) name' =
            outcome.leaves document (w.journals name') := Function.update_self _ _ _
        rcases hentry with h | h
        · exact .unchanged (hown.trans h)
        · have hdead : (w.owners o).alive = false := by
            cases halive : (w.owners o).alive with
            | false => rfl
            | true =>
              obtain ⟨lock', hlock', howner⟩ := (hw.owners o).held halive
              rw [hlockOf] at hlock'
              cases hlock'
              rw [hlock] at howner
              cases howner
          subst hname
          have hgone : w.owners o = .gone := by
            have hborn := (hw.owners o).unborn
            rw [hbefore] at hborn
            revert hdead hborn
            cases w.owners o with
            | gone => exact fun _ _ => rfl
            | idle => exact fun _ h => nomatch h rfl
            | drawn session => exact fun _ h => nomatch h rfl
            | locked session => nofun
            | live session => nofun
            | finalizing session => nofun
            | ended session => nofun
          apply JournalMove.recovered o hgone hlockOf hlock (statusOf_record ⟨before, hbefore, hactive⟩)
          exact statusOf_record ⟨document, hown.trans h, by rw [hrecovered]; rfl⟩
      · exact .unchanged (Function.update_of_ne hne _ _)
  · cases h

omit [DecidableEq R] in
theorem owner_moves (hdraw : Function.Injective (idOf draw)) (hw : Guarded draw w) {step : PartyStep O R}
    (h : w.performOwner draw step = some v) : Moves draw w step v := by
  cases step with
  | draw o capture provenance ownedPaths => exact draw_moves hdraw hw h
  | acquire o => exact acquire_moves hdraw hw h
  | create o outcome => exact create_moves hdraw hw h
  | setProcessId o processId outcome => exact setProcessId_moves hdraw hw h
  | observe o action scan outcome => exact observe_moves hdraw hw h
  | finalize o action scan outcome => exact finalize_moves hdraw hw h
  | settle o outcome => exact settle_moves hdraw hw h
  | drop o => exact drop_moves hdraw hw h
  | list r names => cases h
  | visit r => cases h
  | tryLock r => cases h
  | reread r => cases h
  | rewrite r outcome => cases h
  | crash r => cases h

omit [DecidableEq O] in
theorem recoverer_moves (hdraw : Function.Injective (idOf draw)) (hw : Guarded draw w) {step : PartyStep O R}
    (h : w.performRecoverer effectiveRoots step = some v) : Moves draw w step v := by
  cases step with
  | list r names => exact list_moves hw h
  | visit r => exact visit_moves hw h
  | tryLock r => exact tryLock_moves hw h
  | reread r => exact reread_moves hw h
  | rewrite r outcome => exact rewrite_moves hdraw hw h
  | crash r =>
    cases h
    exact dropRecoverer_moves hw _
  | draw o capture provenance ownedPaths => cases h
  | acquire o => cases h
  | create o outcome => cases h
  | setProcessId o processId outcome => cases h
  | observe o action scan outcome => cases h
  | finalize o action scan outcome => cases h
  | settle o outcome => cases h
  | drop o => cases h

theorem perform_moves (hdraw : Function.Injective (idOf draw)) (hw : Guarded draw w) {step : PartyStep O R}
    (h : w.perform draw effectiveRoots step = some v) : Moves draw w step v := by
  rcases Option.or_eq_some_iff.mp h with h | ⟨-, h⟩
  · exact owner_moves hdraw hw h
  · exact recoverer_moves hdraw hw h

omit [DecidableEq O] [DecidableEq R] in
-- What has been finalized or recovered stays as it is.
theorem JournalMove.settled {step : PartyStep O R} {name : Text} (hmove : JournalMove draw w step v name)
    {status : RuntimeIntegrityStatus} (hstatus : statusOf (w.journals name) = some status) (hne : status ≠ .active) :
    v.journals name = w.journals name := by
  have hnot : statusOf (w.journals name) ≠ some .active := by
    rw [hstatus]
    exact fun h => hne (Option.some.inj h)
  cases hmove with
  | unchanged h => exact h
  | created halive hbefore hafter =>
    rw [hbefore] at hstatus
    cases hstatus
  | updated howner halive hbefore hafter => exact absurd hbefore hnot
  | finalized status halive hbefore hafter hfinal => exact absurd hbefore hnot
  | recovered o hgone hlock hholder hbefore hafter => exact absurd hbefore hnot

theorem journals_protocol (hdraw : Function.Injective draw) {trace : List (Shared O R × PartyStep O R)}
    (hrun : Shared.Runs draw effectiveRoots trace w) :
    (∀ m ∈ trace, ∀ v, m.1.perform draw effectiveRoots m.2 = some v → ∀ name, JournalMove draw m.1 m.2 v name) ∧
    (visited trace w).Pairwise fun u v => ∀ name status, statusOf (u.journals name) = some status →
      status ≠ .active → v.journals name = u.journals name := by
  have hid := idOf_injective hdraw
  have hinv := hrun.invariant guarded_new fun _ _ _ hw h => (perform_moves hid hw h).1
  refine ⟨?_, ?_⟩
  · intro m hm v h name
    exact (perform_moves hid (hinv m.1 (mem_visited_of_mem hm)) h).2 name
  · apply hrun.pairwise guarded_new fun _ _ _ hw h => (perform_moves hid hw h).1
    · exact fun _ _ _ _ _ => rfl
    · intro u v w huv hvw name status hstatus hne
      have hsame := huv name status hstatus hne
      rw [← hsame] at hstatus
      exact (hvw name status hstatus hne).trans hsame
    · intro u step v hu h name status hstatus hne
      exact ((perform_moves hid hu h).2 name).settled hstatus hne

def drawTwo (o : Bool) : Bytes := List.replicate 16 (if o then 1 else 2)

def emptyBaseline : WorkspaceSnapshot := ⟨["ws".toList], FinMap.empty, [], []⟩

-- One owner crashes after it has created its journal, the other one finishes; a recoverer
-- that comes early finds a lock held.
def handover : List (PartyStep Bool Bool) :=
  [.draw true (.ok emptyBaseline) ⟨.unverified, none, [], []⟩ [], .acquire true, .create true .ok,
    .list false [journalName (idOf drawTwo true)], .visit false, .tryLock false, .visit false,
    .drop true,
    .list true [journalName (idOf drawTwo true)], .visit true, .tryLock true, .reread true, .rewrite true .ok]

def afterHandover : List (Shared Bool Bool × PartyStep Bool Bool) × Shared Bool Bool :=
  replay (Shared.perform drawTwo [["ws".toList]]) handover (.new Bool Bool)

theorem journals_protocol_handover :
    ((∀ m ∈ afterHandover.1, ∀ v, m.1.perform drawTwo [["ws".toList]] m.2 = some v → ∀ name,
        JournalMove drawTwo m.1 m.2 v name) ∧
      (visited afterHandover.1 afterHandover.2).Pairwise fun u v => ∀ name status,
        statusOf (u.journals name) = some status → status ≠ .active → v.journals name = u.journals name) ∧
    statusOf (afterHandover.2.journals (journalName (idOf drawTwo true))) = some .observedDuringRecovery :=
  ⟨journals_protocol (by decide) (Trace.replay handover), by decide⟩

end RuntimeIntegrity
