import MeridianMcp.Analysis.Publication

namespace Analysis

open Effects

variable {R C E : Type} [DecidableEq R] [DecidableEq C] [DecidableEq E]

section

variable {w v : Server R C E} {r : R} {step : ServerStep R C E}

omit [DecidableEq C] in
omit [DecidableEq E] in
theorem orderly_build (hw : Orderly w) {path : E} (hfits : w.permit = some r ∧ (w.requests r).carries = false ∧
    (w.requests r).unspawned = false) :
    Orderly { w.setWorker r (.building path w.clock) with clock := w.clock + 1 } := by
  obtain ⟨hpermit, hstage, hspawned⟩ := hfits
  have hmove : LocalMove w r ⟨w.requests r, .building path w.clock, w.permit, w.writer⟩ :=
    ⟨.inl rfl, .inl rfl, .working hpermit hstage hspawned⟩
  obtain ⟨hfits, hclears⟩ := fits_move hw hmove
  rw [← setWorker_move] at hfits
  refine ⟨hfits, hclears, ⟨?_, ?_⟩, ⟨hw.published.generation, hw.published.bounded, hw.published.named,
    hw.published.taken⟩⟩
  · intro r' n hn
    dsimp only [Server.setWorker] at hn ⊢
    have hold : Pending (w.requests r') (w.workers r') n → n < w.clock + 1 ∧
        ∀ old, w.analysis.active = some old → old.started < n := by
      intro h
      obtain ⟨hlt, hnewer⟩ := hw.newer.pending r' n h
      exact ⟨by omega, hnewer⟩
    rcases eq_or_ne r' r with rfl | hne
    · rw [Function.update_self] at hn
      rcases hn with hn | hn
      · exact hold (.inl hn)
      · cases hn
        exact ⟨by omega, hw.newer.active⟩
    · rw [Function.update_of_ne hne] at hn
      exact hold hn
  · intro old hold
    exact Nat.lt_succ_of_lt (hw.newer.active old hold)

omit [DecidableEq C] [DecidableEq E] in
theorem orderly_publish (hw : Orderly w) {snapshot : AnalysisSnapshot E} (h : w.requests r = .publishing snapshot) :
    Orderly ((w.setRequest r (.published snapshot)).publishAnalysis snapshot) := by
  have hfits := hw.fits r
  have hpermit := hfits.permit (.inl (by rw [h]; rfl))
  have hidle := hfits.alone (by rw [h]; rfl)
  have hwriter := hfits.writer (by rw [h]; rfl)
  have hmove : LocalMove w r ⟨.published snapshot, w.workers r, w.permit, w.writer⟩ :=
    ⟨.inl rfl, .inl rfl, .carrying hpermit rfl hidle fun _ => hwriter⟩
  obtain ⟨hfits', hclears⟩ := fits_move hw hmove
  rw [← setRequest_move] at hfits'
  obtain ⟨hstarted, -⟩ := hw.newer.pending r snapshot.started (.inl (by rw [h]; rfl))
  refine ⟨hfits', hclears, ⟨?_, ?_⟩, ⟨rfl, Nat.min_le_right _ _, fun _ => rfl, ?_⟩⟩
  · -- Nothing else can be pending: it would carry the permit.
    intro r' n hn
    dsimp only [Server.publishAnalysis, Server.setRequest] at hn
    rcases eq_or_ne r' r with rfl | hne
    · rw [Function.update_self] at hn
      exact absurd hn (pending_none rfl (pending_of_idle hidle) n)
    · rw [Function.update_of_ne hne] at hn
      have hother := (hw.fits r').permit hn.carries
      rw [hpermit] at hother
      exact absurd (Option.some.inj hother).symm hne
  · intro old hold
    cases hold
    exact hstarted
  · intro c hc
    have hheld := hw.clears c (by dsimp only [Server.publishAnalysis, Server.setRequest] at hc; rw [hc]; rfl)
    rw [hwriter] at hheld
    cases hheld

omit [DecidableEq R] [DecidableEq C] [DecidableEq E] in
theorem fits_clear (hw : Orderly w) {writer : Option (R ⊕ C)}
    (hwriter : writer = w.writer ∨ w.writer = none ∨ ∃ c, w.writer = some (.inr c)) (r : R) :
    Fits r (w.requests r) (w.workers r) w.permit writer := by
  obtain ⟨hpermit, hfresh, halone, hwrites⟩ := hw.fits r
  refine ⟨hpermit, hfresh, halone, ?_⟩
  intro h
  have hheld := hwrites h
  rcases hwriter with h | h | ⟨c, h⟩
  · rw [h, hheld]
  · rw [hheld] at h
    cases h
  · rw [hheld] at h
    cases h

omit [DecidableEq R] [DecidableEq E] in
theorem writes_update (hw : Orderly w) {c : C} {stage : ClearStage} {writer : Option (R ⊕ C)}
    (hwriter : w.writer = none ∨ w.writer = some (.inr c)) (hstage : stage.writes = true → writer = some (.inr c))
    (c' : C) (h : (Function.update w.clears c stage c').writes = true) : writer = some (.inr c') := by
  rcases eq_or_ne c' c with rfl | hne
  · rw [Function.update_self] at h
    exact hstage h
  · rw [Function.update_of_ne hne] at h
    have hheld := hw.clears c' h
    rcases hwriter with h | h
    · rw [hheld] at h
      cases h
    · rw [hheld] at h
      exact absurd (Sum.inr.inj (Option.some.inj h)) hne

omit [DecidableEq R] [DecidableEq E] in
-- A clear that is not between its two writes before or after.
theorem published_clear (hw : Orderly w) {c : C} {stage : ClearStage} (hbefore : w.clears c ≠ .taken)
    (hafter : stage ≠ .taken) (writer : Option (R ⊕ C)) :
    Published { w.setClear c stage with writer := writer } := by
  have hclears : ∀ c', Function.update w.clears c stage c' = .taken ↔ w.clears c' = .taken := by
    intro c'
    rcases eq_or_ne c' c with rfl | hne
    · rw [Function.update_self]
      exact iff_of_false hafter hbefore
    · rw [Function.update_of_ne hne]
  refine ⟨hw.published.generation, hw.published.bounded, ?_, ?_⟩
  · intro h
    exact hw.published.named fun c' hc => h c' ((hclears c').mpr hc)
  · exact fun c' hc => hw.published.taken c' ((hclears c').mp hc)

omit [DecidableEq E] in
theorem orderly_step (hw : Orderly w) (h : Step w step v) : Orderly v := by
  cases h with
  | quiet r l hne hrequest h => exact orderly_move hw h
  | build r path hfits => exact orderly_build hw hfits
  | publish r snapshot h => exact orderly_publish hw h
  | clearLock c h hfree =>
    refine ⟨fits_clear hw (.inr (.inl hfree)), writes_update hw (.inl hfree) fun _ => rfl,
      ⟨hw.newer.pending, hw.newer.active⟩, published_clear hw ?_ ?_ _⟩
    · rw [h]
      exact nofun
    · exact nofun
  | clearTake c h =>
    have hwriter := hw.clears c (by rw [h]; rfl)
    refine ⟨fits_clear hw (.inl rfl), writes_update hw (.inr hwriter) fun _ => hwriter, ⟨?_, nofun⟩,
      ⟨hw.published.generation, hw.published.bounded, ?_, fun _ _ => rfl⟩⟩
    · exact fun r n hn => ⟨(hw.newer.pending r n hn).1, nofun⟩
    · intro h
      refine absurd ?_ (h c)
      exact Function.update_self c _ w.clears
  | clearMetadata c h =>
    have hwriter := hw.clears c (by rw [h]; rfl)
    have hnone := hw.published.taken c h
    refine ⟨fits_clear hw (.inl rfl), writes_update hw (.inr hwriter) fun _ => hwriter,
      ⟨hw.newer.pending, hw.newer.active⟩, ⟨hw.published.generation, hw.published.bounded, ?_, fun _ _ => hnone⟩⟩
    intro _
    dsimp only [Server.setClear]
    rw [hnone]
    rfl
  | clearUnlock c h =>
    have hwriter := hw.clears c (by rw [h]; rfl)
    refine ⟨fits_clear hw (.inr (.inr ⟨c, hwriter⟩)), writes_update hw (.inr hwriter) nofun,
      ⟨hw.newer.pending, hw.newer.active⟩, published_clear hw ?_ ?_ _⟩
    · rw [h]
      exact nofun
    · exact nofun

theorem orderly_perform (hw : Orderly w) (h : w.perform step = some v) : Orderly v :=
  orderly_step hw (perform_step hw h)

def ServerStep.clears : ServerStep R C E → Bool
  | .clearTake _ => true
  | .clearMetadata _ => true
  | _ => false

omit [DecidableEq E] in
theorem kept_step (h : Step w step v) (hpublish : step.publishes = false) (hclear : step.clears = false) :
    v.analysis = w.analysis ∧ v.metadata = w.metadata := by
  cases h with
  | quiet r l hne hrequest h => exact ⟨rfl, rfl⟩
  | build r path hfits => exact ⟨rfl, rfl⟩
  | publish r snapshot h => cases hpublish
  | clearLock c h hfree => exact ⟨rfl, rfl⟩
  | clearTake c h => cases hclear
  | clearMetadata c h => cases hclear
  | clearUnlock c h => exact ⟨rfl, rfl⟩

omit [DecidableEq R] [DecidableEq C] [DecidableEq E] in
theorem QuietMove.failed {l : Local R C E} (h : QuietMove w r l) (hr : w.requests r = .failed) :
    l.stage = .failed := by
  have hstage := h.stage
  rw [hr] at hstage
  rcases hstage with h | h | h
  · exact h
  · cases h
  · cases h.1

omit [DecidableEq R] [DecidableEq C] [DecidableEq E] in
theorem QuietMove.passed {l : Local R C E} (h : QuietMove w r l) (hr : (w.requests r).passed = true) :
    l.stage.passed = true := by
  rcases h.stage with h | h | h
  · rw [h, hr]
  · revert hr h
    cases w.requests r with
    | published snapshot => nofun
    | unlocked snapshot => nofun
    | installed snapshot => nofun
    | _ => nofun
  · exact h.2

omit [DecidableEq E] in
theorem failed_step (h : Step w step v) (hr : w.requests r = .failed) : v.requests r = .failed := by
  cases h with
  | quiet r' l hne hrequest h =>
    dsimp only [Server.move]
    rcases eq_or_ne r r' with rfl | hne
    · rw [Function.update_self]
      exact h.failed hr
    · rw [Function.update_of_ne hne]
      exact hr
  | publish r' snapshot h =>
    dsimp only [Server.publishAnalysis, Server.setRequest]
    rw [Function.update_of_ne, hr]
    rintro rfl
    rw [hr] at h
    cases h
  | _ => exact hr

omit [DecidableEq E] in
theorem passed_step (h : Step w step v) (hr : (w.requests r).passed = true) : (v.requests r).passed = true := by
  cases h with
  | quiet r' l hne hrequest h =>
    dsimp only [Server.move]
    rcases eq_or_ne r r' with rfl | hne
    · rw [Function.update_self]
      exact h.passed hr
    · rw [Function.update_of_ne hne]
      exact hr
  | publish r' snapshot h =>
    dsimp only [Server.publishAnalysis, Server.setRequest]
    rcases eq_or_ne r r' with rfl | hne
    · rw [Function.update_self]
      rfl
    · rw [Function.update_of_ne hne]
      exact hr
  | _ => exact hr

omit [DecidableEq E] in
theorem publish_passed (h : Step w (.publish r) v) : (v.requests r).passed = true := by
  cases h with
  | quiet r' l hne hrequest h => cases hne
  | publish r snapshot h =>
    dsimp only [Server.publishAnalysis, Server.setRequest]
    rw [Function.update_self]
    rfl

omit [DecidableEq E] in
theorem generation_step (h : Step w step v) :
    v.analysis.generation = if step.publishes then saturatingAdd w.analysis.generation 1 else w.analysis.generation := by
  cases h with
  | quiet r l hne hrequest h =>
    rw [hne]
    rfl
  | _ => rfl

end

structure ParseProtocol (trace : List (Server R C E × ServerStep R C E)) (w : Server R C E) : Prop where
  alone : ∀ v ∈ visited trace w, ∀ r r', (v.workers r).builds = true → (v.workers r').builds = true → r = r'
  newer : ∀ m ∈ trace, ∀ r snapshot old, m.2 = .publish r → m.1.requests r = .publishing snapshot →
    m.1.analysis.active = some old → old.started < snapshot.started
  kept : ∀ m ∈ trace, ∀ v, m.1.perform m.2 = some v → m.2.publishes = false → m.2.clears = false →
    v.analysis = m.1.analysis ∧ v.metadata = m.1.metadata
  failed : ∀ v ∈ visited trace w, ∀ r, v.requests r = .failed → ∀ m ∈ trace, m.2 ≠ .publish r
  generation : ∀ v ∈ visited trace w, v.metadata.generation = v.analysis.generation
  named : ∀ v ∈ visited trace w, (∀ c, v.clears c ≠ .taken) →
    v.metadata.activeEnvironment = v.analysis.active.map AnalysisSnapshot.environmentPath
  grows : ∀ m ∈ trace, ∀ v, m.1.perform m.2 = some v → v.analysis.generation =
    if m.2.publishes ∧ m.1.analysis.generation < u64Max then m.1.analysis.generation + 1
    else m.1.analysis.generation

theorem saturatingAdd_one {n : Nat} (h : n ≤ u64Max) : saturatingAdd n 1 = if n < u64Max then n + 1 else n := by
  unfold saturatingAdd
  split <;> omega

omit [DecidableEq E] in
theorem grows_step {w v : Server R C E} {step : ServerStep R C E} (hw : Orderly w) (h : Step w step v) :
    v.analysis.generation =
      if step.publishes ∧ w.analysis.generation < u64Max then w.analysis.generation + 1
      else w.analysis.generation := by
  rw [generation_step h, saturatingAdd_one hw.published.bounded]
  cases step.publishes with
  | false => simp
  | true => simp

omit [DecidableEq E] in
theorem builds_carries {worker : WorkerStage E} (h : worker.builds = true) : worker.carries = true := by
  cases worker with
  | building path started => rfl
  | _ => cases h

theorem parse_protocol {trace : List (Server R C E × ServerStep R C E)} {w : Server R C E}
    (hrun : Server.Runs trace w) : ParseProtocol trace w := by
  have horderly : ∀ v ∈ visited trace w, Orderly v :=
    hrun.invariant orderly_new fun _ _ _ hw h => orderly_perform hw h
  have horderly' : ∀ m ∈ trace, Orderly m.1 := fun m hm => horderly m.1 (mem_visited_of_mem hm)
  refine ⟨?_, ?_, ?_, ?_, ?_, ?_, ?_⟩
  · intro v hv r r' hr hr'
    have hpermit := ((horderly v hv).fits r).permit (.inr (builds_carries hr))
    have hpermit' := ((horderly v hv).fits r').permit (.inr (builds_carries hr'))
    rw [hpermit] at hpermit'
    exact Option.some.inj hpermit'
  · intro m hm r snapshot old _ hstage hold
    have hpending : Pending (m.1.requests r) (m.1.workers r) snapshot.started := .inl (by rw [hstage]; rfl)
    exact ((horderly' m hm).newer.pending r snapshot.started hpending).2 old hold
  · intro m hm v h hpublish hclear
    exact kept_step (perform_step (horderly' m hm) h) hpublish hclear
  · intro v hv r hr m hm hpublish
    have hfailed := hrun.persists (P := fun v => v.requests r = .failed) orderly_new
      (fun _ _ _ hw h => orderly_perform hw h) (fun _ _ _ hw h => failed_step (perform_step hw h)) v hv hr
    have hpassed := hrun.brings (A := fun _ s => s = .publish r) (B := fun v => (v.requests r).passed = true)
      orderly_new (fun _ _ _ hw h => orderly_perform hw h)
      (fun _ _ _ hw h hs => publish_passed (perform_step hw (hs ▸ h)))
      (fun _ _ _ hw h => passed_step (perform_step hw h)) m hm hpublish
    rw [hfailed] at hpassed
    cases hpassed
  · exact fun v hv => (horderly v hv).published.generation
  · exact fun v hv => (horderly v hv).published.named
  · exact fun m hm v h => grows_step (horderly' m hm) (perform_step (horderly' m hm) h)

-- The worker of a request that has timed out keeps the next one waiting.
def orphaned : List (ServerStep Nat Unit Unit) :=
  [.request 0 () false, .enter 0, .read 0, .start 0, .build 0, .abandon 0, .request 1 () true, .built 0,
    .enter 1, .read 1, .start 1, .build 1, .built 1, .receive 1, .lock 1, .publish 1, .unlock 1, .answer 1]

def afterOrphan : List (Server Nat Unit Unit × ServerStep Nat Unit Unit) × Server Nat Unit Unit :=
  replay Server.perform orphaned (.new Nat Unit Unit)

theorem parse_protocol_orphaned : ParseProtocol afterOrphan.1 afterOrphan.2 ∧ afterOrphan.1.length = 18 ∧
    afterOrphan.2.analysis.active = some ⟨(), 1, 1⟩ :=
  ⟨parse_protocol (Trace.replay orphaned), by decide, by decide⟩

-- One request as far as the write lock.
def prepare (r : Nat) : List (ServerStep Nat Unit Unit) :=
  [.request r () true, .enter r, .read r, .start r, .build r, .built r, .receive r, .lock r]

def prepared (w : Server Nat Unit Unit) (r : Nat) : Server Nat Unit Unit :=
  { w with
    permit := some r
    writer := some (.inl r)
    clock := w.clock + 1
    requests := Function.update w.requests r (.publishing ⟨(), 0, w.clock⟩)
    workers := Function.update w.workers r .gone }

theorem prepared_stage (w : Server Nat Unit Unit) (r : Nat) :
    (prepared w r).requests r = .publishing ⟨(), 0, w.clock⟩ := Function.update_self _ _ _

theorem prepared_publish (w : Server Nat Unit Unit) (r : Nat) :
    (prepared w r).perform (.publish r) =
      some (((prepared w r).setRequest r (.published ⟨(), 0, w.clock⟩)).publishAnalysis ⟨(), 0, w.clock⟩) := by
  rw [Server.perform, prepared_stage]

structure Ready (w : Server Nat Unit Unit) (n : Nat) : Prop where
  permit : w.permit = none
  writer : w.writer = none
  idle : ∀ r, n ≤ r → w.requests r = .idle
  generation : w.analysis.generation = min n u64Max

theorem replay_prepare {w : Server Nat Unit Unit} {n : Nat} (h : Ready w n) :
    (replay Server.perform (prepare n) w).2 = prepared w n := by
  simp [prepare, replay, Server.perform, h.idle, h.permit, h.writer, Server.setRequest, Server.setWorker,
    Server.finish, prepared]

theorem ready_next {w : Server Nat Unit Unit} {n : Nat} (h : Ready w n) :
    Ready (replay Server.perform [.publish n, .unlock n, .answer n] (prepared w n)).2 (n + 1) := by
  have hresult : (replay Server.perform [.publish n, .unlock n, .answer n] (prepared w n)).2 =
      { (prepared w n).publishAnalysis ⟨(), 0, w.clock⟩ with
        permit := none
        writer := none
        requests := Function.update w.requests n (.installed ⟨(), 0, w.clock⟩) } := by
    simp [replay, Server.perform, prepared, Server.setRequest, Server.publishAnalysis, Server.release]
  rw [hresult]
  refine ⟨rfl, rfl, ?_, ?_⟩
  · intro r hr
    exact (Function.update_of_ne (by omega) _ _).trans (h.idle r (by omega))
  · have hgeneration : ((prepared w n).publishAnalysis ⟨(), 0, w.clock⟩).analysis.generation =
        saturatingAdd w.analysis.generation 1 := rfl
    dsimp only
    rw [hgeneration, h.generation]
    unfold saturatingAdd
    omega

theorem exists_ready (n : Nat) : ∃ trace w, Server.Runs trace w ∧ Ready w n := by
  induction n with
  | zero => exact ⟨[], .new Nat Unit Unit, .start, rfl, rfl, fun _ _ => rfl, rfl⟩
  | succ n ih =>
    obtain ⟨trace, w, hrun, hready⟩ := ih
    have hprepared := hrun.replay_append (prepare n)
    rw [replay_prepare hready] at hprepared
    exact ⟨_, _, hprepared.replay_append [.publish n, .unlock n, .answer n], ready_next hready⟩

def clearing : List (ServerStep Nat Unit Unit) :=
  prepare 0 ++ [.publish 0, .unlock 0, .answer 0, .clearLock (), .clearTake ()]

-- The installation that finds the generation at its largest value, and a clear between its
-- two writes.
theorem full_generation_stays :
    (∃ trace w v, Server.Runs trace w ∧ w.perform (.publish u64Max : ServerStep Nat Unit Unit) = some v ∧
      v.analysis.generation ≠ w.analysis.generation + 1) ∧
    ∃ trace w, Server.Runs (R := Nat) (C := Unit) (E := Unit) trace w ∧
      w.metadata.activeEnvironment = some () ∧ w.analysis.active = none := by
  constructor
  · obtain ⟨trace, w, hrun, hready⟩ := exists_ready u64Max
    have hprepared := hrun.replay_append (prepare u64Max)
    rw [replay_prepare hready] at hprepared
    have hfull : (prepared w u64Max).analysis.generation = u64Max := hready.generation.trans (Nat.min_self _)
    refine ⟨_, prepared w u64Max, _, hprepared, prepared_publish w u64Max, ?_⟩
    rw [hfull]
    exact Nat.ne_of_lt (Nat.lt_succ_of_le (Nat.min_le_right _ _))
  · have hrun : Server.Runs (replay Server.perform clearing (.new Nat Unit Unit)).1
        (replay Server.perform clearing (.new Nat Unit Unit)).2 := Trace.replay clearing
    exact ⟨_, _, hrun, by decide, by decide⟩

end Analysis
