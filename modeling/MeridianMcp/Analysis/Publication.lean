import MeridianMcp.Analysis.Orderly

namespace Analysis

open Effects

variable {R C E : Type} [DecidableEq R] [DecidableEq C] [DecidableEq E]

def ServerStep.request? : ServerStep R C E → Option R
  | .request r _ _ => some r
  | .enter r => some r
  | .read r => some r
  | .start r => some r
  | .refuse r => some r
  | .reuse r => some r
  | .build r => some r
  | .built r => some r
  | .buildFailed r => some r
  | .panicked r => some r
  | .receive r => some r
  | .joinError r => some r
  | .abandon r => some r
  | .lock r => some r
  | .publish r => some r
  | .unlock r => some r
  | .answer r => some r
  | _ => none

def ServerStep.publishes : ServerStep R C E → Bool
  | .publish _ => true
  | _ => false

-- What a step can do: move one request and its worker, start a build, publish, or clear.
inductive Step (w : Server R C E) : ServerStep R C E → Server R C E → Prop
  | quiet {step} (r : R) (l : Local R C E) (hne : step.publishes = false) (hrequest : step.request? = some r)
      (h : QuietMove w r l) : Step w step (w.move r l)
  | build (r : R) (path : E) (hfits : w.permit = some r ∧ (w.requests r).carries = false ∧
      (w.requests r).unspawned = false) :
      Step w (.build r) { w.setWorker r (.building path w.clock) with clock := w.clock + 1 }
  | publish (r : R) (snapshot : AnalysisSnapshot E) (h : w.requests r = .publishing snapshot) :
      Step w (.publish r) ((w.setRequest r (.published snapshot)).publishAnalysis snapshot)
  | clearLock (c : C) (h : w.clears c = .idle) (hfree : w.writer = none) :
      Step w (.clearLock c) { w.setClear c .locked with writer := some (.inr c) }
  | clearTake (c : C) (h : w.clears c = .locked) :
      Step w (.clearTake c) { w.setClear c .taken with analysis.active := none }
  | clearMetadata (c : C) (h : w.clears c = .taken) :
      Step w (.clearMetadata c) { w.setClear c .cleared with metadata.activeEnvironment := none }
  | clearUnlock (c : C) (h : w.clears c = .cleared) :
      Step w (.clearUnlock c) { w.setClear c .done with writer := none }

section

variable {w v : Server R C E} {r : R} {step : ServerStep R C E}

omit [DecidableEq C] [DecidableEq E] in
theorem setRequest_move (stage : RequestStage E) : w.setRequest r stage = w.move r ⟨stage, w.workers r, w.permit, w.writer⟩ := by
  rw [Server.setRequest, Server.move, Function.update_eq_self]

omit [DecidableEq C] [DecidableEq E] in
theorem setWorker_move (worker : WorkerStage E) : w.setWorker r worker = w.move r ⟨w.requests r, worker, w.permit, w.writer⟩ := by
  rw [Server.setWorker, Server.move, Function.update_eq_self]

omit [DecidableEq E] in
-- A worker that carries the permit goes on, or gives the permit back.
theorem worker_step (hw : Orderly w) (hne : step.publishes = false) (hrequest : step.request? = some r)
    (hcarries : (w.workers r).carries = true) {worker : WorkerStage E}
    (hpending : ∀ n, worker.pending = some n → (w.workers r).pending = some n) : Step w step (w.setWorker r worker) := by
  obtain ⟨hpermit, hstage, hspawned⟩ := (hw.fits r).running hcarries
  rw [setWorker_move]
  refine .quiet r _ hne hrequest ⟨⟨.inl rfl, .inl rfl, .working hpermit hstage hspawned⟩, ?_, .inl rfl⟩
  exact fun n h => h.imp_right (hpending n)

omit [DecidableEq E] in
theorem release_step (hw : Orderly w) (hne : step.publishes = false) (hrequest : step.request? = some r)
    (hcarries : (w.workers r).carries = true) {worker : WorkerStage E} (hidle : worker.carries = false)
    (hpending : worker.pending = none) : Step w step ((w.setWorker r worker).release) := by
  obtain ⟨hpermit, hstage, hspawned⟩ := (hw.fits r).running hcarries
  have hmove : (w.setWorker r worker).release = w.move r ⟨w.requests r, worker, none, w.writer⟩ := by
    rw [setWorker_move]
    rfl
  rw [hmove]
  refine .quiet r _ hne hrequest ⟨⟨.inr (.inr hpermit), .inl rfl, .quiet hstage hspawned hidle⟩, ?_, .inl rfl⟩
  rintro n (h | h)
  · exact .inl h
  · rw [hpending] at h
    cases h

omit [DecidableEq E] in
theorem finish_step (hw : Orderly w) (hne : step.publishes = false) (hrequest : step.request? = some r)
    (hcarries : (w.workers r).carries = true) {outcome : ParseOutcome E}
    (hpending : ∀ n, (WorkerStage.finished outcome).pending = some n → (w.workers r).pending = some n) :
    Step w step (w.finish r outcome) := by
  unfold Server.finish
  split
  · exact worker_step hw hne hrequest hcarries hpending
  · exact release_step hw hne hrequest hcarries rfl rfl

omit [DecidableEq E] in
theorem pending_of_idle {worker : WorkerStage E} (h : worker.carries = false) : worker.pending = none := by
  cases worker with
  | building path started => cases h
  | finished outcome => cases h
  | _ => rfl

omit [DecidableEq E] in
-- A request that fails gives back what it holds.
theorem fail_step (hne : step.publishes = false) (hrequest : step.request? = some r)
    (hopened : (w.requests r).opened = true)
    (hidle : (w.workers r).carries = false) {permit : Option R} {writer : Option (R ⊕ C)}
    (hpermit : permit = w.permit ∨ w.permit = none ∨ w.permit = some r)
    (hwriter : writer = w.writer ∨ w.writer = none ∨ w.writer = some (.inl r)) :
    Step w step (w.move r ⟨.failed, w.workers r, permit, writer⟩) := by
  refine .quiet r _ hne hrequest ⟨⟨hpermit, hwriter, .quiet rfl rfl hidle⟩, ?_, .inr (.inl hopened)⟩
  exact fun n h => absurd h (pending_none rfl (pending_of_idle hidle) n)

omit [DecidableEq E] in
-- The result that came with the permit is used up.
theorem used_step (hne : step.publishes = false) (hrequest : step.request? = some r) (hpermit : w.permit = some r)
    {stage : RequestStage E} (hstage : stage.carries = false) (hspawned : stage.unspawned = false)
    (hpending : stage.pending = none) (hopened : (w.requests r).opened = true) :
    Step w step (w.move r ⟨stage, .gone, none, w.writer⟩) := by
  refine .quiet r _ hne hrequest ⟨⟨.inr (.inr hpermit), .inl rfl, .quiet hstage hspawned rfl⟩, ?_, .inr (.inl hopened)⟩
  exact fun n h => absurd h (pending_none hpending rfl n)

theorem request_step (hw : Orderly w) {path : E} {force : Bool} (h : w.perform (.request r path force) = some v) :
    Step w (.request r path force) v := by
  simp only [Server.perform] at h
  split at h <;> cases h
  rename_i hstage
  have hworker := (hw.fits r).fresh (by rw [hstage]; rfl)
  rw [setRequest_move]
  refine .quiet r _ rfl rfl ⟨⟨.inl rfl, .inl rfl, ?_⟩, ?_, ?_⟩
  · rw [hworker]
    exact ⟨fun h => h.elim nofun nofun, fun _ => rfl, fun _ => rfl, nofun⟩
  · exact fun n h => h.elim nofun .inr
  · exact .inr (.inl (by rw [hstage]; rfl))

theorem admit_step (hw : Orderly w) (h : w.perform (.enter r) = some v) : Step w (.enter r) v := by
  simp only [Server.perform] at h
  split at h <;> try cases h
  rename_i path force hstage
  have hworker := (hw.fits r).fresh (by rw [hstage]; rfl)
  split at h <;> cases h
  rename_i hfree
  have hmove : { w.setRequest r (.admitted path force) with permit := some r } =
      w.move r ⟨.admitted path force, w.workers r, some r, w.writer⟩ := by
    rw [setRequest_move]
    rfl
  rw [hmove]
  refine .quiet r _ rfl rfl ⟨⟨.inr (.inl hfree), .inl rfl, ?_⟩, ?_, ?_⟩
  · rw [hworker]
    exact ⟨fun _ => rfl, fun _ => rfl, fun _ => rfl, nofun⟩
  · exact fun n h => h.elim nofun .inr
  · exact .inr (.inl (by rw [hstage]; rfl))

theorem read_step (hw : Orderly w) (h : w.perform (.read r) = some v) : Step w (.read r) v := by
  simp only [Server.perform] at h
  split at h <;> try cases h
  rename_i path force hstage
  have hpermit := (hw.fits r).permit (.inl (by rw [hstage]; rfl))
  split at h <;> cases h
  have hmove : (w.setWorker r (.queued path force w.analysis.active)).setRequest r .waiting =
      w.move r ⟨.waiting, .queued path force w.analysis.active, w.permit, w.writer⟩ := rfl
  rw [hmove]
  refine .quiet r _ rfl rfl ⟨⟨.inl rfl, .inl rfl, .working hpermit rfl rfl⟩, ?_, ?_⟩
  · exact fun n h => h.elim nofun nofun
  · exact .inr (.inl (by rw [hstage]; rfl))

theorem panicked_step (hw : Orderly w) (h : w.perform (.panicked r) = some v) : Step w (.panicked r) v := by
  simp only [Server.perform] at h
  split at h <;> cases h
  all_goals
    rename_i hworker
    exact release_step hw rfl rfl (by rw [hworker]; rfl) rfl rfl

theorem receive_step (hw : Orderly w) (h : w.perform (.receive r) = some v) : Step w (.receive r) v := by
  simp only [Server.perform] at h
  split at h
  · rename_i snapshot hstage hworker
    cases h
    have hpermit := (hw.fits r).permit (.inr (by rw [hworker]; rfl))
    have hmove : (w.setWorker r .gone).setRequest r (.installing snapshot) =
        w.move r ⟨.installing snapshot, .gone, w.permit, w.writer⟩ := rfl
    rw [hmove]
    refine .quiet r _ rfl rfl ⟨⟨.inl rfl, .inl rfl, .carrying hpermit rfl rfl nofun⟩, ?_, ?_⟩
    · rintro n (h | h)
      · right
        rw [hworker]
        exact h
      · cases h
    · exact .inr (.inl (by rw [hstage]; rfl))
  · rename_i snapshot hstage hworker
    cases h
    have hpermit := (hw.fits r).permit (.inr (by rw [hworker]; rfl))
    exact used_step rfl rfl hpermit rfl rfl rfl (by rw [hstage]; rfl)
  · rename_i hstage hworker
    cases h
    have hpermit := (hw.fits r).permit (.inr (by rw [hworker]; rfl))
    exact used_step rfl rfl hpermit rfl rfl rfl (by rw [hstage]; rfl)
  · cases h

theorem joinError_step (h : w.perform (.joinError r) = some v) : Step w (.joinError r) v := by
  simp only [Server.perform] at h
  split at h <;> cases h
  rename_i hstage hworker
  rw [setRequest_move]
  exact fail_step rfl rfl (by rw [hstage]; rfl) (by rw [hworker]; rfl) (.inl rfl) (.inl rfl)

theorem abandon_step (hw : Orderly w) (h : w.perform (.abandon r) = some v) : Step w (.abandon r) v := by
  have hfits := hw.fits r
  simp only [Server.perform, Server.abandonRequest] at h
  split at h
  · rename_i path force hstage
    cases h
    rw [setRequest_move]
    have hworker := hfits.fresh (by rw [hstage]; rfl)
    exact fail_step rfl rfl (by rw [hstage]; rfl) (by rw [hworker]; rfl) (.inl rfl) (.inl rfl)
  · rename_i path force hstage
    cases h
    rw [setRequest_move]
    have hpermit := hfits.permit (.inl (by rw [hstage]; rfl))
    exact fail_step rfl rfl (by rw [hstage]; rfl) (hfits.alone (by rw [hstage]; rfl)) (.inr (.inr hpermit)) (.inl rfl)
  · rename_i hstage
    split at h
    · rename_i outcome hworker
      cases h
      have hpermit := hfits.permit (.inr (by rw [hworker]; rfl))
      exact used_step rfl rfl hpermit rfl rfl rfl (by rw [hstage]; rfl)
    · -- The worker goes on without its request.
      cases h
      rw [setRequest_move]
      refine .quiet r _ rfl rfl ⟨⟨.inl rfl, .inl rfl, ?_⟩, ?_, .inr (.inl (by rw [hstage]; rfl))⟩
      · exact ⟨fun h => hfits.permit (.inr (h.resolve_left nofun)), nofun, nofun, nofun⟩
      · exact fun n h => h.elim nofun .inr
  · rename_i snapshot hstage
    cases h
    have hpermit := hfits.permit (.inl (by rw [hstage]; rfl))
    rw [setRequest_move]
    exact fail_step rfl rfl (by rw [hstage]; rfl) (hfits.alone (by rw [hstage]; rfl)) (.inr (.inr hpermit)) (.inl rfl)
  · rename_i snapshot hstage
    cases h
    have hpermit := hfits.permit (.inl (by rw [hstage]; rfl))
    have hwriter := hfits.writer (by rw [hstage]; rfl)
    rw [setRequest_move]
    exact fail_step rfl rfl (by rw [hstage]; rfl) (hfits.alone (by rw [hstage]; rfl)) (.inr (.inr hpermit)) (.inr (.inr hwriter))
  · cases h

theorem lock_step (hw : Orderly w) (h : w.perform (.lock r) = some v) : Step w (.lock r) v := by
  have hfits := hw.fits r
  simp only [Server.perform] at h
  split at h <;> try cases h
  rename_i snapshot hstage
  have hpermit := hfits.permit (.inl (by rw [hstage]; rfl))
  have hidle := hfits.alone (by rw [hstage]; rfl)
  split at h <;> cases h
  rename_i hfree
  rw [setRequest_move]
  refine .quiet r ⟨_, _, _, _⟩ rfl rfl ⟨⟨.inl rfl, .inr (.inl hfree), .carrying hpermit rfl hidle fun _ => rfl⟩, ?_, ?_⟩
  · intro n h
    rw [hstage]
    exact h
  · exact .inr (.inl (by rw [hstage]; rfl))

theorem unlock_step (hw : Orderly w) (h : w.perform (.unlock r) = some v) : Step w (.unlock r) v := by
  have hfits := hw.fits r
  simp only [Server.perform] at h
  split at h <;> cases h
  rename_i snapshot hstage
  have hpermit := hfits.permit (.inl (by rw [hstage]; rfl))
  have hidle := hfits.alone (by rw [hstage]; rfl)
  have hwriter := hfits.writer (by rw [hstage]; rfl)
  rw [setRequest_move]
  refine .quiet r ⟨_, _, _, _⟩ rfl rfl ⟨⟨.inl rfl, .inr (.inr hwriter), .carrying hpermit rfl hidle nofun⟩, ?_, ?_⟩
  · exact fun n h => absurd h (pending_none rfl (pending_of_idle hidle) n)
  · exact .inr (.inr ⟨by rw [hstage]; rfl, rfl⟩)

theorem answer_step (hw : Orderly w) (h : w.perform (.answer r) = some v) : Step w (.answer r) v := by
  have hfits := hw.fits r
  simp only [Server.perform] at h
  split at h <;> cases h
  rename_i snapshot hstage
  have hpermit := hfits.permit (.inl (by rw [hstage]; rfl))
  have hidle := hfits.alone (by rw [hstage]; rfl)
  rw [setRequest_move]
  refine .quiet r ⟨_, _, _, _⟩ rfl rfl ⟨⟨.inr (.inr hpermit), .inl rfl, .quiet rfl rfl hidle⟩, ?_, ?_⟩
  · exact fun n h => absurd h (pending_none rfl (pending_of_idle hidle) n)
  · exact .inr (.inr ⟨by rw [hstage]; rfl, rfl⟩)

theorem build_step (hw : Orderly w) (h : w.perform (.build r) = some v) : Step w (.build r) v := by
  simp only [Server.perform] at h
  split at h <;> cases h
  rename_i path force candidate hworker
  exact .build r path ((hw.fits r).running (by rw [hworker]; rfl))

theorem perform_step (hw : Orderly w) (h : w.perform step = some v) : Step w step v := by
  cases step with
  | request r path force => exact request_step hw h
  | enter r => exact admit_step hw h
  | read r => exact read_step hw h
  | start r =>
    simp only [Server.perform] at h
    split at h <;> cases h
    rename_i hworker
    exact worker_step hw rfl rfl (by rw [hworker]; rfl) nofun
  | refuse r =>
    simp only [Server.perform] at h
    split at h <;> cases h
    rename_i hworker
    exact finish_step hw rfl rfl (by rw [hworker]; rfl) nofun
  | reuse r =>
    simp only [Server.perform] at h
    split at h <;> try cases h
    rename_i hworker
    split at h <;> cases h
    exact finish_step hw rfl rfl (by rw [hworker]; rfl) nofun
  | build r => exact build_step hw h
  | built r =>
    simp only [Server.perform] at h
    split at h <;> cases h
    rename_i hworker
    refine finish_step hw rfl rfl (by rw [hworker]; rfl) ?_
    rw [hworker]
    exact fun _ h => h
  | buildFailed r =>
    simp only [Server.perform] at h
    split at h <;> cases h
    rename_i hworker
    exact finish_step hw rfl rfl (by rw [hworker]; rfl) nofun
  | panicked r => exact panicked_step hw h
  | receive r => exact receive_step hw h
  | joinError r => exact joinError_step h
  | abandon r => exact abandon_step hw h
  | lock r => exact lock_step hw h
  | publish r =>
    simp only [Server.perform] at h
    split at h <;> cases h
    rename_i snapshot hstage
    exact .publish r snapshot hstage
  | unlock r => exact unlock_step hw h
  | answer r => exact answer_step hw h
  | clearLock c =>
    simp only [Server.perform] at h
    split at h <;> try cases h
    rename_i hstage
    split at h <;> cases h
    rename_i hfree
    exact .clearLock c hstage hfree
  | clearTake c =>
    simp only [Server.perform] at h
    split at h <;> cases h
    rename_i hstage
    exact .clearTake c hstage
  | clearMetadata c =>
    simp only [Server.perform] at h
    split at h <;> cases h
    rename_i hstage
    exact .clearMetadata c hstage
  | clearUnlock c =>
    simp only [Server.perform] at h
    split at h <;> cases h
    rename_i hstage
    exact .clearUnlock c hstage

end

end Analysis
