import MeridianMcp.RuntimeIntegrity.Attribution
import MeridianMcp.RuntimeIntegrity.Handover

namespace RuntimeIntegrity

open MeridianMcp Effects Attempt PrivateState WorkspaceIntegrity Server

variable {L : Type} [DecidableEq L] {draw : L → Bytes} {privateState : Bool} {l : L}
  {before after ledger : Ledger L}

-- Nothing is lost, no process comes to life and no session is finalized.
structure Watched (before after : Ledger L) : Prop where
  sessions : ∀ l, (before.sessions l).isSome = true → (after.sessions l).isSome = true
  alive : ∀ l, after.alive l = true → before.alive l = true
  finalized : ∀ l, .finalized l ∈ after.history → .finalized l ∈ before.history

omit [DecidableEq L] in
theorem Watched.refl (ledger : Ledger L) : Watched ledger ledger := ⟨fun _ h => h, fun _ h => h, fun _ h => h⟩

omit [DecidableEq L] in
theorem Watched.trans {later : Ledger L} (h : Watched before after) (h' : Watched after later) :
    Watched before later :=
  ⟨fun l hl => h'.sessions l (h.sessions l hl), fun l hl => h.alive l (h'.alive l hl),
    fun l hl => h.finalized l (h'.finalized l hl)⟩

theorem watched_keep (ledger : Ledger L) (l : L) (live : Live) : Watched ledger (ledger.keep l live) := by
  refine ⟨fun l' hl' => ?_, fun _ h => h, fun _ h => h⟩
  rcases eq_or_ne l' l with rfl | hne
  · exact congrArg Option.isSome (Function.update_self l' (some live.session) ledger.sessions)
  · exact (congrArg Option.isSome (Function.update_of_ne hne (some live.session) ledger.sessions)).trans hl'

omit [DecidableEq L] in
theorem Watched.record (h : Watched before after) {happening : Happening L}
    (hne : ∀ l, .finalized l ≠ happening) : Watched before (after.record happening) := by
  refine ⟨h.sessions, h.alive, fun l hmem => ?_⟩
  rcases List.mem_append.mp hmem with hmem | hmem
  · exact h.finalized l hmem
  · exact absurd (List.mem_singleton.mp hmem) (hne l)

theorem exit_alive {l' : L} (h : (ledger.exit l).alive l' = true) : ledger.alive l' = true ∧ l' ≠ l := by
  unfold Ledger.exit at h
  split at h
  · rcases eq_or_ne l' l with rfl | hne
    · dsimp only at h
      rw [Function.update_self] at h
      cases h
    · dsimp only at h
      rw [Function.update_of_ne hne] at h
      exact ⟨h, hne⟩
  · rename_i hdead
    refine ⟨h, ?_⟩
    rintro rfl
    exact hdead h

theorem watched_exit (ledger : Ledger L) (l : L) : Watched ledger (ledger.exit l) := by
  refine ⟨?_, fun l' h => (exit_alive h).1, ?_⟩
  · unfold Ledger.exit
    split <;> exact fun _ h => h
  · unfold Ledger.exit
    split
    · intro l' hmem
      rcases List.mem_append.mp hmem with hmem | hmem
      · exact hmem
      · cases List.mem_singleton.mp hmem
    · exact fun _ h => h

theorem watched_observe (ledger : Ledger L) (l : L) (action : String) (sight : Sight) :
    Watched ledger (ledger.observe l action sight).2 := by
  unfold Ledger.observe
  cases ledger.sessions l with
  | none => exact .refl ledger
  | some session => exact (watched_keep ledger l _).record fun _ => by simp

theorem watched_setProcessId (ledger : Ledger L) (l : L) (processId : Option Nat) (outcome : WriteOutcome) :
    Watched ledger (ledger.setProcessId l processId outcome).2 := by
  unfold Ledger.setProcessId
  cases ledger.sessions l with
  | none => exact .refl ledger
  | some session => exact watched_keep ledger l _

theorem watched_create (draw : L → Bytes) (ledger : Ledger L) (l : L) (creation : Creation) :
    Watched ledger (ledger.create draw l creation).2 := by
  unfold Ledger.create
  rcases create_cases draw l creation ledger.journals with ⟨e, hcreate⟩ | ⟨baseline, session, -, hcreate⟩
  · rw [hcreate]
    exact .refl ledger
  · rw [hcreate]
    cases creation.outcome.result with
    | error e => exact ⟨fun _ h => h, fun _ h => h, fun _ h => h⟩
    | ok _ => exact (watched_keep ledger l _).record fun _ => by simp

theorem create_installs {creation : Creation} (h : (ledger.create draw l creation).1 = .ok ()) :
    ((ledger.create draw l creation).2.sessions l).isSome = true := by
  unfold Ledger.create at h ⊢
  cases hcreate : RuntimeIntegritySession.create (creation.scan draw l) creation.outcome creation.launchProvenance
      creation.ownedPaths ledger.journals with
  | mk result journals =>
    rw [hcreate] at h
    cases result with
    | error e => cases h
    | ok session => exact congrArg Option.isSome (Function.update_self l (some session) ledger.sessions)

theorem ledger_create_ok {creation : Creation} (h : creation.succeeds draw l = true) (ledger : Ledger L) :
    (ledger.create draw l creation).1 = .ok () := by
  obtain ⟨session, hcreate⟩ := create_succeeds h ledger.journals
  unfold Ledger.create
  cases hrun : RuntimeIntegritySession.create (creation.scan draw l) creation.outcome creation.launchProvenance
      creation.ownedPaths ledger.journals with
  | mk result journals =>
    rw [hrun] at hcreate
    obtain rfl : result = .ok session := hcreate
    rfl

-- A finalisation that fails leaves no session finalized, and one that does not has a final summary.
structure Finalizing (before after : Ledger L) (l : L)
    (result : Except SessionError (Option RuntimeIntegritySummary)) : Prop where
  sessions : ∀ l, (before.sessions l).isSome = true → (after.sessions l).isSome = true
  alive : after.alive = before.alive
  failed : ∀ e, result = .error e → Watched before after
  summary : ∀ summary, result = .ok summary → (before.sessions l).isSome = true →
    ∃ final, summary = some final ∧ final.status ≠ .active

theorem ledger_finalizing (ledger : Ledger L) (l : L) (action : String) (sight : Sight) (last : WriteOutcome) :
    Finalizing ledger (ledger.finalize l action sight last).2 l (ledger.finalize l action sight last).1 := by
  unfold Ledger.finalize
  cases hsession : ledger.sessions l with
  | none =>
    refine ⟨fun _ h => h, rfl, ?_, ?_⟩
    · intro e h
      cases h
    · intro summary h hsome
      rw [hsession] at hsome
      cases hsome
  | some session =>
    have hwatched : Watched ledger ((ledger.keep l (RuntimeIntegritySession.finalize action sight.scan sight.outcome
        last ⟨session, ledger.journals⟩).2).record (.observed l (sight.scan.mutations session))) :=
      (watched_keep ledger l _).record fun _ => by simp
    dsimp only
    cases hresult : (RuntimeIntegritySession.finalize action sight.scan sight.outcome last
        ⟨session, ledger.journals⟩).1 with
    | error e =>
      refine ⟨hwatched.sessions, rfl, fun _ _ => hwatched, ?_⟩
      intro summary h
      cases h
    | ok final =>
      refine ⟨hwatched.sessions, rfl, ?_, ?_⟩
      · intro e h
        cases h
      · intro summary h _
        cases h
        refine ⟨final, rfl, ?_⟩
        rw [(finalize_ok hresult).2.2]
        unfold RuntimeIntegritySession.finalStatus
        split
        · decide
        · split <;> decide

structure Consistent (w : Server L) : Prop where
  slot : ∀ l, w.runtime.integrity = some l → (w.ledger.sessions l).isSome = true
  monitored : ∀ l, w.runtime.integrityTask = some l → .finalized l ∉ w.ledger.history
  unsettled : ∀ l, w.runtime.integrity = some l → finalSummary w = none → .finalized l ∉ w.ledger.history
  running : ∀ p l, w.runtime.gameProcess = some p → w.runtime.integrity = some l →
    .finalized l ∉ w.ledger.history
  contained : ∀ l, w.ledger.alive l = true → w.runtime.containment = some l

variable {fresh : Set L} {u : Ledger L} {slot : Option L} {w : Server L}

omit [DecidableEq L] in
theorem Consistent.watched (h : Consistent w) (hwatched : Watched w.ledger ledger) : Consistent { w with ledger := ledger } where
  slot l hl := hwatched.sessions l (h.slot l hl)
  monitored l hl hmem := h.monitored l hl (hwatched.finalized l hmem)
  unsettled l hl hsummary hmem := h.unsettled l hl hsummary (hwatched.finalized l hmem)
  running p l hp hl hmem := h.running p l hp hl (hwatched.finalized l hmem)
  contained l hl := h.contained l (hwatched.alive l hl)

structure Safe (draw : L → Bytes) (fresh : Set L) (u : Ledger L) (w : Server L) : Prop where
  kept : Kept draw fresh u w.ledger
  consistent : Consistent w

structure Steady (draw : L → Bytes) (fresh : Set L) (u : Ledger L) (slot : Option L) (w : Server L) : Prop
    extends Safe draw fresh u w where
  integrity : w.runtime.integrity = slot

structure Halted (draw : L → Bytes) (fresh : Set L) (u : Ledger L) (slot : Option L) (w : Server L) : Prop
    extends Steady draw fresh u slot w where
  gameProcess : w.runtime.gameProcess = none

structure Quiet (draw : L → Bytes) (fresh : Set L) (u : Ledger L) (slot : Option L) (w : Server L) : Prop
    extends Halted draw fresh u slot w where
  containment : w.runtime.containment = none

section Specs

omit [DecidableEq L] in
theorem spec_onLedger {α : Type} {f : Ledger L → Except SessionError α × Ledger L} {pre : Server L → Prop}
    {post : α → Server L → Prop} {fail : Server L → Prop}
    (hok : ∀ w a, pre w → (f w.ledger).1 = .ok a → post a { w with ledger := (f w.ledger).2 })
    (herror : ∀ w e, pre w → (f w.ledger).1 = .error e → fail { w with ledger := (f w.ledger).2 }) :
    Spec pre (onLedger f) post fail := by
  intro w hw
  refine ⟨?_, ?_⟩
  · intro a w' heq
    obtain ⟨hresult, rfl⟩ := Prod.mk.inj heq
    exact hok w a hw hresult
  · intro e w' heq
    obtain ⟨hresult, rfl⟩ := Prod.mk.inj heq
    exact herror w e hw hresult

omit [DecidableEq L] in
theorem spec_isGameRunning (waitFails : Bool) :
    Spec (Steady draw fresh u slot) (isGameRunning waitFails)
      (fun running w => Steady draw fresh u slot w ∧ (running = true → w.runtime.gameProcess.isSome = true) ∧
        (running = false → Halted draw fresh u slot w)) (Safe draw fresh u) := by
  refine .reads fun process => ?_
  cases process with
  | none => exact .pure fun w hw => ⟨hw.1, (by simp), fun _ => ⟨hw.1, hw.2⟩⟩
  | some l =>
    refine .reads fun running => ?_
    cases running with
    | true =>
      refine .pure fun w hw => ⟨hw.1.1, ?_, by simp⟩
      rw [hw.1.2]
      exact fun _ => rfl
    | false =>
      refine .bind (fun _ => Halted draw fresh u slot) (.change fun w hw => ?_) fun _ => ?_
      · obtain ⟨⟨⟨⟨hkept, hconsistent⟩, hslot⟩, -⟩, -⟩ := hw
        exact ⟨⟨⟨hkept, hconsistent.slot, hconsistent.monitored, hconsistent.unsettled, fun _ _ h => (by cases h),
          hconsistent.contained⟩, hslot⟩, rfl⟩
      · exact .pure fun w hw => ⟨hw.toSteady, (by simp), fun _ => hw⟩

theorem spec_finishRuntimeCleanup (cleanup : Except SessionError Unit) :
    Spec (Halted draw fresh u slot) (finishRuntimeCleanup cleanup) (fun _ => Quiet draw fresh u slot)
      (Safe draw fresh u) := by
  refine .reads fun containment => ?_
  cases containment with
  | none => exact .pure fun w hw => ⟨hw.1, hw.2⟩
  | some l =>
    refine .bind (fun _ w => Halted draw fresh u slot w ∧ w.runtime.containment = some l)
      (.lift (fun _ w _ hw => hw) fun _ w _ hw => hw.1.toSafe) fun _ => ?_
    refine .change fun w hw => ?_
    obtain ⟨⟨⟨⟨hkept, hconsistent⟩, hslot⟩, hhalted⟩, hcontained⟩ := hw
    have hwatched := watched_exit w.ledger l
    have hconsistent' := hconsistent.watched hwatched
    refine ⟨⟨⟨⟨hkept.exit l, hconsistent'.slot, hconsistent'.monitored, hconsistent'.unsettled, hconsistent'.running, ?_⟩,
      hslot⟩, hhalted⟩, rfl⟩
    intro l' hl'
    obtain ⟨halive, hne⟩ := exit_alive hl'
    have hsame := hconsistent.contained l' halive
    rw [hcontained] at hsame
    exact absurd (Option.some.inj hsame).symm hne

omit [DecidableEq L] in
theorem spec_requestTermination (request : Except SessionError Unit) :
    Spec (Steady draw fresh u slot) (requestTermination request) (fun _ => Steady draw fresh u slot)
      (Safe draw fresh u) := by
  refine .reads fun containment => ?_
  cases containment with
  | none => exact .pure fun w hw => hw.1
  | some l => exact .lift (fun _ w _ hw => hw.1) fun _ w _ hw => hw.1.toSafe

theorem spec_killGameProcess (kill : Except SessionError Unit) :
    Spec (Steady draw fresh u slot) (killGameProcess kill) (fun _ => Halted draw fresh u slot)
      (Safe draw fresh u) := by
  refine .reads fun process => ?_
  cases process with
  | none => exact .pure fun w hw => ⟨hw.1, hw.2⟩
  | some l =>
    refine .bind (fun _ => Halted draw fresh u slot) (.change fun w hw => ?_) fun _ => ?_
    · obtain ⟨⟨⟨hkept, hconsistent⟩, hslot⟩, -⟩ := hw
      exact ⟨⟨⟨hkept, hconsistent.slot, hconsistent.monitored, hconsistent.unsettled, fun _ _ h => (by cases h),
        hconsistent.contained⟩, hslot⟩, rfl⟩
    · refine .bind (fun _ => Halted draw fresh u slot) (.lift (fun _ w _ hw => hw) fun _ w _ hw => hw.toSafe) fun _ => ?_
      refine .change fun w hw => ?_
      exact ⟨⟨⟨hw.kept.exit l, hw.consistent.watched (watched_exit w.ledger l)⟩, hw.integrity⟩, hw.gameProcess⟩

theorem spec_stopGameProcess (stop : Stop) :
    Spec (Steady draw fresh u slot) (stopGameProcess stop) (fun _ => Quiet draw fresh u slot)
      (Safe draw fresh u) := by
  refine .bind _ (spec_requestTermination stop.request) fun _ => ?_
  refine .bind _ (spec_killGameProcess stop.kill) fun _ => ?_
  refine .bind _ (spec_finishRuntimeCleanup stop.cleanup) fun _ => ?_
  refine .change fun w hw => ?_
  obtain ⟨⟨⟨⟨hkept, hconsistent⟩, hslot⟩, hhalted⟩, hquiet⟩ := hw
  exact ⟨⟨⟨⟨hkept, hconsistent.slot, hconsistent.monitored, hconsistent.unsettled, hconsistent.running, hconsistent.contained⟩,
    hslot⟩, hhalted⟩, hquiet⟩

theorem Kept.monitored (h : Kept draw fresh u ledger) (hdraw : Function.Injective (idOf draw))
    (hopen : .finalized l ∉ ledger.history) (sights : List Sight) :
    Kept draw fresh u (sights.foldl (fun ledger sight => (ledger.observe l "monitor" sight).2) ledger) ∧
      Watched ledger (sights.foldl (fun ledger sight => (ledger.observe l "monitor" sight).2) ledger) := by
  induction sights generalizing ledger with
  | nil => exact ⟨h, .refl ledger⟩
  | cons sight sights ih =>
    have hwatched := watched_observe ledger l "monitor" sight
    obtain ⟨hkept, hlater⟩ := ih (h.observe hdraw hopen "monitor" sight) fun hmem => hopen (hwatched.finalized l hmem)
    exact ⟨hkept, hwatched.trans hlater⟩

theorem spec_joinMonitor (hdraw : Function.Injective (idOf draw)) (monitored : List Sight) :
    Spec (fun w => Quiet draw fresh u slot w ∧ finalSummary w = none) (joinMonitor monitored)
      (fun _ w => Quiet draw fresh u slot w ∧ finalSummary w = none ∧ w.runtime.integrityTask = none)
      (Safe draw fresh u) := by
  refine .reads fun task => ?_
  cases task with
  | none => exact .pure fun w hw => ⟨hw.1.1, hw.1.2, hw.2⟩
  | some l =>
    refine .change fun w hw => ?_
    obtain ⟨⟨⟨⟨⟨⟨hkept, hconsistent⟩, hslot⟩, hhalted⟩, hquiet⟩, hsummary⟩, htask⟩ := hw
    obtain ⟨hkept', hwatched⟩ := hkept.monitored hdraw (hconsistent.monitored l htask) monitored
    have hconsistent' := hconsistent.watched hwatched
    exact ⟨⟨⟨⟨⟨hkept', hconsistent'.slot, fun _ h => (by cases h), hconsistent'.unsettled, hconsistent'.running,
      hconsistent'.contained⟩, hslot⟩, hhalted⟩, hquiet⟩, hsummary, rfl⟩

omit [DecidableEq L] in
theorem finalSummary_some {final : RuntimeIntegritySummary} (hsummary : w.runtime.integritySummary = some final)
    (hfinal : final.status ≠ .active) : finalSummary w = some final := by
  rw [finalSummary, hsummary, Option.filter_some, if_pos (by simpa using hfinal)]

theorem spec_finalizeSession (hdraw : Function.Injective (idOf draw)) (action : String)
    (finalization : Finalization) :
    Spec (fun w => Quiet draw fresh u slot w ∧ finalSummary w = none ∧ w.runtime.integrityTask = none)
      (finalizeSession action finalization) (fun _ => Quiet draw fresh u slot) (Safe draw fresh u) := by
  refine .reads fun integrity => ?_
  cases integrity with
  | none => exact .pure fun w hw => hw.1.1
  | some l =>
    have hkeeps : ∀ w : Server L, (Quiet draw fresh u slot w ∧ finalSummary w = none ∧
        w.runtime.integrityTask = none) ∧ w.runtime.integrity = some l →
          Kept draw fresh u (w.ledger.finalize l action finalization.sight finalization.last).2 := by
      rintro w ⟨⟨⟨⟨⟨⟨hkept, hconsistent⟩, -⟩, -⟩, hquiet⟩, hsummary, -⟩, hintegrity⟩
      refine hkept.finalize hdraw (hconsistent.unsettled l hintegrity hsummary) ?_ action _ _
      intro processId hspawned
      refine (hkept.gone l processId hspawned).resolve_left fun halive => ?_
      have hcontained := hconsistent.contained l halive
      rw [hquiet] at hcontained
      cases hcontained
    refine .bind (fun summary w => Quiet draw fresh u slot { w with runtime.integritySummary := summary })
      (spec_onLedger ?_ ?_) fun summary => ?_
    · intro w summary hw hok
      have hkept' := hkeeps w hw
      obtain ⟨⟨⟨⟨⟨⟨-, hconsistent⟩, hslot⟩, hhalted⟩, hquiet⟩, -, htask⟩, hintegrity⟩ := hw
      have hfinalizing := ledger_finalizing w.ledger l action finalization.sight finalization.last
      obtain ⟨final, rfl, hfinal⟩ := hfinalizing.summary summary hok (hconsistent.slot l hintegrity)
      refine ⟨⟨⟨⟨hkept', ?_⟩, hslot⟩, hhalted⟩, hquiet⟩
      refine ⟨fun l' hl' => hfinalizing.sessions l' (hconsistent.slot l' hl'), ?_, ?_, ?_, ?_⟩
      · intro l' htask'
        have hnone : none = some l' := htask.symm.trans htask'
        cases hnone
      · intro l' _ hnone
        rw [finalSummary_some rfl hfinal] at hnone
        cases hnone
      · intro p l' hp
        have hnone : none = some p := hhalted.symm.trans hp
        cases hnone
      · exact fun l' halive => hconsistent.contained l' (hfinalizing.alive ▸ halive)
    · intro w e hw herror
      have hfinalizing := ledger_finalizing w.ledger l action finalization.sight finalization.last
      exact ⟨hkeeps w hw, hw.1.1.consistent.watched (hfinalizing.failed e herror)⟩
    · exact .bind (fun _ => Quiet draw fresh u slot) (.change fun w hw => hw) fun _ => .pure fun w hw => hw

theorem spec_finalizeStandardIntegrity (hdraw : Function.Injective (idOf draw)) (action : String)
    (finalization : Finalization) :
    Spec (Halted draw fresh u slot) (finalizeStandardIntegrity action finalization)
      (fun _ => Quiet draw fresh u slot) (Safe draw fresh u) := by
  refine .bind _ (spec_finishRuntimeCleanup finalization.cleanup) fun _ => ?_
  refine .reads fun summary => ?_
  cases summary with
  | some final => exact .pure fun w hw => hw.1
  | none =>
    exact .bind _ (spec_joinMonitor hdraw finalization.monitored) fun _ =>
      spec_finalizeSession hdraw action finalization

theorem spec_enter (hdraw : Function.Injective (idOf draw)) (i : LaunchInput) :
    Spec (Steady draw fresh u slot) (enter i)
      (fun entered w => Steady draw fresh u slot w ∧ (entered = true → Quiet draw fresh u slot w))
      (Safe draw fresh u) := by
  refine .bind _ (spec_isGameRunning i.waitFails) fun running => ?_
  cases running with
  | true => exact .pure fun w hw => ⟨hw.1, by simp⟩
  | false =>
    refine .bind (fun _ => Quiet draw fresh u slot)
      ((spec_finalizeStandardIntegrity hdraw "natural_exit" i.natural).weaken (fun w hw => hw.2.2 rfl)
        (fun _ _ hw => hw) fun _ hw => hw) fun _ => ?_
    refine .bind (fun _ => Quiet draw fresh u slot) (.lift (fun _ _ _ hw => hw) fun _ _ _ hw => hw.toSafe) fun _ => ?_
    exact .pure fun w hw => ⟨hw.toSteady, fun _ => hw⟩

-- Between the reset of the last run's summary and the session of this one the slot still holds
-- the last session, so nothing is known of it.
structure Cleared (draw : L → Bytes) (fresh : Set L) (u : Ledger L) (slot : Option L) (w : Server L) : Prop where
  kept : Kept draw fresh u w.ledger
  slotted : ∀ l, w.runtime.integrity = some l → (w.ledger.sessions l).isSome = true
  monitored : ∀ l, w.runtime.integrityTask = some l → .finalized l ∉ w.ledger.history
  contained : ∀ l, w.ledger.alive l = true → w.runtime.containment = some l
  integrity : w.runtime.integrity = slot
  gameProcess : w.runtime.gameProcess = none
  containment : w.runtime.containment = none

-- The slot is empty or holds the session of the call that is about to spawn its process.
structure Primed (draw : L → Bytes) (fresh : Set L) (u : Ledger L) (l : L) (w : Server L) : Prop
    extends Safe draw fresh u w where
  own : ∀ l', w.runtime.integrity = some l' → l' = l
  unfinished : .finalized l ∉ w.ledger.history
  gameProcess : w.runtime.gameProcess = none
  containment : w.runtime.containment = none

omit [DecidableEq L] in
theorem Cleared.primed (h : Cleared draw fresh u none w) (hl : l ∈ fresh) : Primed draw (fresh \ {l}) u l w := by
  have hempty : ∀ l', w.runtime.integrity ≠ some l' := by
    intro l' hl'
    rw [h.integrity] at hl'
    cases hl'
  refine ⟨⟨h.kept.fewer Set.sdiff_subset, h.slotted, h.monitored, ?_, ?_, h.contained⟩, ?_, ?_, h.gameProcess,
    h.containment⟩
  · exact fun l' hl' => absurd hl' (hempty l')
  · exact fun p l' _ hl' => absurd hl' (hempty l')
  · exact fun l' hl' => absurd hl' (hempty l')
  · exact (h.kept.fresh l hl).2.2

theorem spec_createIntegrity (hdraw : Function.Injective (idOf draw)) {i : LaunchInput} (hl : l ∈ fresh)
    (hslot : slot = none ∨ Installs draw privateState l i) :
    Spec (Cleared draw fresh u slot) (createIntegrity draw privateState l i)
      (fun _ => Primed draw (fresh \ {l}) u l) (Safe draw (fresh \ {l}) u) := by
  unfold createIntegrity
  split
  · refine .bind (fun _ w => Primed draw (fresh \ {l}) u l { w with runtime.integrity := some l })
      (spec_onLedger ?_ ?_) fun _ => .change fun w hw => hw
    · intro w _ hw hok
      have hwatched := watched_create draw w.ledger l i.creation
      have hopen : .finalized l ∉ (w.ledger.create draw l i.creation).2.history := fun hmem =>
        (hw.kept.fresh l hl).2.2 (hwatched.finalized l hmem)
      refine ⟨⟨hw.kept.create hdraw hl i.creation, ?_, ?_, ?_, ?_, ?_⟩, ?_, hopen, hw.gameProcess, hw.containment⟩
      · intro l' hl'
        cases hl'
        exact create_installs hok
      · exact fun l' hl' hmem => hw.monitored l' hl' (hwatched.finalized l' hmem)
      · intro l' hl' _
        cases hl'
        exact hopen
      · intro p l' hp
        have hnone : none = some p := hw.gameProcess.symm.trans hp
        cases hnone
      · exact fun l' halive => hw.contained l' (hwatched.alive l' halive)
      · intro l' hl'
        cases hl'
        rfl
    · intro w e hw herror
      rcases hslot with rfl | ⟨-, -, hsucceeds⟩
      · have hprimed := hw.primed hl
        exact ⟨hw.kept.create hdraw hl i.creation, hprimed.consistent.watched (watched_create draw w.ledger l i.creation)⟩
      · rw [ledger_create_ok hsucceeds w.ledger] at herror
        cases herror
  · rename_i hother
    rcases hslot with rfl | ⟨hport, hprivate, -⟩
    · exact .pure fun w hw => hw.primed hl
    · exact absurd ⟨hport, hprivate⟩ hother

theorem spec_startMonitor (hdraw : Function.Injective (idOf draw)) (processId : Option Nat) (outcome : WriteOutcome) :
    Spec (fun w => Safe draw fresh u w ∧ (∀ l', w.runtime.integrity = some l' → l' = l) ∧
        .finalized l ∉ w.ledger.history ∧ .spawned l processId ∈ w.ledger.history)
      (startMonitor processId outcome) (fun _ => Safe draw fresh u) (Safe draw fresh u) := by
  refine .reads fun integrity => ?_
  cases integrity with
  | none => exact .pure fun w hw => hw.1.1
  | some l' =>
    refine .bind (fun _ w => Safe draw fresh u w ∧ .finalized l' ∉ w.ledger.history) (spec_onLedger ?_ ?_)
      fun _ => ?_
    · rintro w _ ⟨⟨hsafe, hown, hopen, hspawned⟩, hintegrity⟩ -
      obtain rfl := hown l' hintegrity
      have hwatched := watched_setProcessId w.ledger l' processId outcome
      exact ⟨⟨hsafe.kept.setProcessId hdraw hopen hspawned outcome, hsafe.consistent.watched hwatched⟩,
        fun hmem => hopen (hwatched.finalized l' hmem)⟩
    · rintro w _ ⟨⟨hsafe, hown, hopen, hspawned⟩, hintegrity⟩ -
      obtain rfl := hown l' hintegrity
      exact ⟨hsafe.kept.setProcessId hdraw hopen hspawned outcome,
        hsafe.consistent.watched (watched_setProcessId w.ledger l' processId outcome)⟩
    · refine .bind (fun _ => Safe draw fresh u) (.change ?_) fun _ => .pure fun w hw => hw
      rintro w ⟨⟨hkept, hconsistent⟩, hopen⟩
      refine ⟨hkept, hconsistent.slot, ?_, hconsistent.unsettled, hconsistent.running, hconsistent.contained⟩
      intro l'' hl''
      cases hl''
      exact hopen

-- What is proved with the slot fixed holds whatever is in it.
omit [DecidableEq L] in
theorem spec_halted {α : Type} {m : Section L α} {post : α → Server L → Prop}
    (h : ∀ slot, Spec (Halted draw fresh u slot) m post (Safe draw fresh u)) :
    Spec (fun w => Safe draw fresh u w ∧ w.runtime.gameProcess = none) m post (Safe draw fresh u) :=
  (Spec.ofEach h).weaken (fun _ hw => ⟨_, ⟨⟨hw.1, rfl⟩, hw.2⟩⟩) (fun _ _ hw => hw) fun _ hw => hw

theorem spec_spawnRuntime (hdraw : Function.Injective (idOf draw)) (i : LaunchInput) :
    Spec (Primed draw fresh u l) (spawnRuntime l i) (fun _ => Safe draw fresh u) (Safe draw fresh u) := by
  unfold spawnRuntime
  cases i.spawn with
  | error e =>
    have hfinalize : Spec (fun w => Safe draw fresh u w ∧ w.runtime.gameProcess = none)
        (finalizeStandardIntegrity "spawn_failed" i.spawnFailed) (fun _ => Safe draw fresh u) (Safe draw fresh u) :=
      spec_halted fun slot => (spec_finalizeStandardIntegrity hdraw "spawn_failed" i.spawnFailed).weaken
        (fun _ hw => hw) (fun _ _ hw => hw.toSafe) fun _ hw => hw
    refine .bind (fun _ => Safe draw fresh u)
      (hfinalize.caught.weaken (fun _ hw => ⟨hw.toSafe, hw.gameProcess⟩) (fun _ _ hw => hw) fun _ hw => hw) fun _ => ?_
    exact .lift (fun _ _ h _ => (by cases h)) fun _ _ _ hw => hw
  | ok processId =>
    refine .bind (fun _ w => Safe draw fresh u w ∧ (∀ l', w.runtime.integrity = some l' → l' = l) ∧
        .finalized l ∉ w.ledger.history ∧ .spawned l processId ∈ w.ledger.history) (.change fun w hw => ?_) fun _ => ?_
    · have hopen : .finalized l ∉ (w.ledger.spawn l processId).history := by
        simpa [Ledger.spawn] using hw.unfinished
      have hothers : ∀ l', .finalized l' ∈ (w.ledger.spawn l processId).history → .finalized l' ∈ w.ledger.history := by
        intro l' hmem
        simpa [Ledger.spawn] using hmem
      refine ⟨⟨hw.kept.spawn hw.unfinished processId, hw.consistent.slot, ?_, ?_, ?_, ?_⟩, hw.own, hopen,
        List.mem_append_right _ (List.mem_singleton.mpr rfl)⟩
      · exact fun l' hl' hmem => hw.consistent.monitored l' hl' (hothers l' hmem)
      · exact fun l' hl' hsummary hmem => hw.consistent.unsettled l' hl' hsummary (hothers l' hmem)
      · intro p l' _ hl'
        obtain rfl := hw.own l' hl'
        exact hopen
      · intro l' halive
        rcases eq_or_ne l' l with rfl | hne
        · rfl
        · have hbefore : Function.update w.ledger.alive l true l' = true := halive
          rw [Function.update_of_ne hne] at hbefore
          have hcontained := hw.consistent.contained l' hbefore
          rw [hw.containment] at hcontained
          cases hcontained
    · split
      · exact spec_startMonitor hdraw processId i.setProcessId
      · exact .pure fun w hw => hw.1

theorem spec_startRuntime (hdraw : Function.Injective (idOf draw)) {i : LaunchInput} (hl : l ∈ fresh)
    (hslot : slot = none ∨ Installs draw privateState l i) :
    Spec (Quiet draw fresh u slot) (startRuntime draw privateState l i)
      (fun _ => Safe draw (fresh \ {l}) u) (Safe draw (fresh \ {l}) u) := by
  refine .bind (fun _ => Cleared draw fresh u slot) (.change fun w hw => ?_) fun _ => ?_
  · exact ⟨hw.kept, hw.consistent.slot, hw.consistent.monitored, hw.consistent.contained, hw.integrity,
      hw.gameProcess, hw.containment⟩
  · exact .bind _ (spec_createIntegrity hdraw hl hslot) fun _ => spec_spawnRuntime hdraw i

omit [DecidableEq L] in
theorem Safe.fewer {fresh' : Set L} (h : Safe draw fresh u w) (hsub : fresh' ⊆ fresh) : Safe draw fresh' u w :=
  ⟨h.kept.fewer hsub, h.consistent⟩

theorem launch_safe (hdraw : Function.Injective (idOf draw)) (hsafe : Safe draw fresh u w) {i : LaunchInput}
    (hl : l ∈ fresh) (hcareful : (enter i w).1.toOption = some true →
      w.runtime.integrity = none ∨ Installs draw privateState l i) :
    Safe draw (fresh \ {l}) u (launch draw privateState l i w).2 := by
  obtain ⟨hentered, hfailed⟩ := spec_enter hdraw i w ⟨hsafe, rfl⟩
  have hlaunch : launch draw privateState l i w = andThen (enter i) (fun entered =>
    if entered then startRuntime draw privateState l i else pure .returned) w := rfl
  rw [hlaunch, andThen]
  cases hrun : enter i w with
  | mk result v =>
    cases result with
    | error e => exact (hfailed e v hrun).fewer Set.sdiff_subset
    | ok entered =>
      obtain ⟨hsteady, hquiet⟩ := hentered entered v hrun
      cases entered with
      | false => exact hsteady.toSafe.fewer Set.sdiff_subset
      | true =>
        have hslot := hcareful (by rw [hrun]; rfl)
        exact (spec_startRuntime hdraw hl hslot).leaves (hquiet rfl)

theorem spec_checkLaunch (hdraw : Function.Injective (idOf draw)) (waitFails : Bool) (finalization : Finalization) :
    Spec (Steady draw fresh u slot) (checkLaunch l waitFails finalization) (fun _ => Safe draw fresh u)
      (Safe draw fresh u) := by
  refine .reads fun log => ?_
  split
  · exact .pure fun w hw => hw.1.toSafe
  · refine .bind _ ((spec_isGameRunning waitFails).weaken (fun w hw => hw.1) (fun _ _ hw => hw) fun _ hw => hw)
      fun running => ?_
    cases running with
    | true => exact .pure fun w hw => hw.1.toSafe
    | false =>
      refine .bind (fun _ => Quiet draw fresh u slot)
        ((spec_finalizeStandardIntegrity hdraw "launch_failed" finalization).weaken (fun w hw => hw.2.2 rfl)
          (fun _ _ hw => hw) fun _ hw => hw) fun _ => ?_
      exact .pure fun w hw => hw.toSafe

theorem spec_launchUnready (hdraw : Function.Injective (idOf draw)) (stop : Stop) (finalization : Finalization) :
    Spec (Steady draw fresh u slot) (launchUnready l stop finalization) (fun _ => Safe draw fresh u)
      (Safe draw fresh u) := by
  refine .reads fun log => ?_
  split
  · exact .pure fun w hw => hw.1.toSafe
  · refine .bind (fun _ => Quiet draw fresh u slot)
      ((spec_stopGameProcess stop).weaken (fun w hw => hw.1) (fun _ _ hw => hw) fun _ hw => hw) fun _ => ?_
    refine .bind (fun _ => Quiet draw fresh u slot)
      ((spec_finalizeStandardIntegrity hdraw "launch_failed" finalization).weaken (fun w hw => hw.toHalted)
        (fun _ _ hw => hw) fun _ hw => hw) fun _ => ?_
    exact .pure fun w hw => hw.toSafe

theorem Safe.observe (h : Safe draw fresh u w) (hdraw : Function.Injective (idOf draw))
    (hopen : .finalized l ∉ w.ledger.history) (action : String) (sight : Sight) :
    Safe draw fresh u { w with ledger := (w.ledger.observe l action sight).2 } :=
  ⟨h.kept.observe hdraw hopen action sight, h.consistent.watched (watched_observe w.ledger l action sight)⟩

theorem spec_observeSlot (hdraw : Function.Injective (idOf draw)) (action : String) (sight : Sight) :
    Spec (fun w => Safe draw fresh u w ∧ w.runtime.gameProcess.isSome = true) (observeSlot action sight)
      (fun _ => Safe draw fresh u) (Safe draw fresh u) := by
  refine .reads fun integrity => ?_
  cases integrity with
  | none => exact .pure fun w hw => hw.1.1
  | some l =>
    have hopen : ∀ w : Server L, (Safe draw fresh u w ∧ w.runtime.gameProcess.isSome = true) ∧
        w.runtime.integrity = some l → .finalized l ∉ w.ledger.history := by
      rintro w ⟨⟨hsafe, hrunning⟩, hintegrity⟩
      obtain ⟨p, hp⟩ := Option.isSome_iff_exists.mp hrunning
      exact hsafe.consistent.running p l hp hintegrity
    refine .bind (fun _ => Safe draw fresh u) (spec_onLedger ?_ ?_) fun _ => .pure fun w hw => hw
    · exact fun w _ hw _ => hw.1.1.observe hdraw (hopen w hw) action sight
    · exact fun w _ hw _ => hw.1.1.observe hdraw (hopen w hw) action sight

-- The summary that becomes the runtime's is that of a session whose process runs.
theorem spec_observeReady (hdraw : Function.Injective (idOf draw)) (sight : Sight) :
    Spec (fun w => Safe draw fresh u w ∧ w.runtime.gameProcess.isSome = true) (observeReady sight)
      (fun _ => Safe draw fresh u) (Safe draw fresh u) := by
  refine .reads fun integrity => ?_
  cases integrity with
  | none => exact .pure fun w hw => hw.1.1
  | some l =>
    have hopen : ∀ w : Server L, (Safe draw fresh u w ∧ w.runtime.gameProcess.isSome = true) ∧
        w.runtime.integrity = some l → .finalized l ∉ w.ledger.history := by
      rintro w ⟨⟨hsafe, hrunning⟩, hintegrity⟩
      obtain ⟨p, hp⟩ := Option.isSome_iff_exists.mp hrunning
      exact hsafe.consistent.running p l hp hintegrity
    refine .bind (fun _ w => Safe draw fresh u w ∧ w.runtime.gameProcess.isSome = true) (spec_onLedger ?_ ?_)
      fun summary => .change ?_
    · exact fun w _ hw _ => ⟨hw.1.1.observe hdraw (hopen w hw) "launch_ready" sight, hw.1.2⟩
    · exact fun w _ hw _ => hw.1.1.observe hdraw (hopen w hw) "launch_ready" sight
    · rintro w ⟨⟨hkept, hconsistent⟩, hrunning⟩
      obtain ⟨p, hp⟩ := Option.isSome_iff_exists.mp hrunning
      exact ⟨hkept, hconsistent.slot, hconsistent.monitored, fun l' hl' _ => hconsistent.running p l' hp hl',
        hconsistent.running, hconsistent.contained⟩

theorem spec_launchReady (hdraw : Function.Injective (idOf draw)) (waitFails : Bool) (sight : Sight) :
    Spec (Steady draw fresh u slot) (launchReady l waitFails sight) (fun _ => Safe draw fresh u)
      (Safe draw fresh u) := by
  refine .reads fun log => ?_
  split
  · exact .pure fun w hw => hw.1.toSafe
  · refine .bind _ ((spec_isGameRunning waitFails).weaken (fun w hw => hw.1) (fun _ _ hw => hw) fun _ hw => hw)
      fun running => ?_
    cases running with
    | false => exact .pure fun w hw => hw.1.toSafe
    | true =>
      refine .bind (fun _ => Safe draw fresh u) ((spec_observeReady hdraw sight).weaken
        (fun w hw => ⟨hw.1.toSafe, hw.2.1 rfl⟩) (fun _ _ hw => hw) fun _ hw => hw) fun _ => ?_
      exact .pure fun w hw => hw

theorem spec_refresh (hdraw : Function.Injective (idOf draw)) (action : String) (waitFails : Bool) (sight : Sight)
    (finalization : Finalization) :
    Spec (Steady draw fresh u slot) (refresh action waitFails sight finalization) (fun _ => Safe draw fresh u)
      (Safe draw fresh u) := by
  refine .bind _ (spec_isGameRunning waitFails) fun running => ?_
  cases running with
  | true =>
    exact (spec_observeSlot hdraw action sight).weaken (fun w hw => ⟨hw.1.toSafe, hw.2.1 rfl⟩) (fun _ _ hw => hw)
      fun _ hw => hw
  | false =>
    refine .bind (fun _ => Quiet draw fresh u slot)
      ((spec_finalizeStandardIntegrity hdraw "natural_exit" finalization).weaken (fun w hw => hw.2.2 rfl)
        (fun _ _ hw => hw) fun _ hw => hw) fun _ => ?_
    exact .pure fun w hw => hw.toSafe

theorem spec_stopWithLifecycle (hdraw : Function.Injective (idOf draw)) (waitFails : Bool) (stop : Stop)
    (finalization : Finalization) :
    Spec (Steady draw fresh u slot) (stopWithLifecycle waitFails stop finalization) (fun _ => Safe draw fresh u)
      (Safe draw fresh u) := by
  refine .bind _ (spec_isGameRunning waitFails) fun wasRunning => ?_
  refine .reads fun idle => ?_
  split
  · exact .pure fun w hw => hw.1.1.toSafe
  · have hfinalize : Spec (Halted draw fresh u slot) (finalizeStandardIntegrity "stopped" finalization)
        (fun _ => Quiet draw fresh u slot) (Safe draw fresh u) :=
      spec_finalizeStandardIntegrity hdraw "stopped" finalization
    cases wasRunning with
    | true =>
      refine .bind (fun _ => Halted draw fresh u slot) ((spec_stopGameProcess stop).weaken (fun w hw => hw.1.1)
        (fun _ _ hw => hw.toHalted) fun _ hw => hw) fun _ => ?_
      exact .bind _ hfinalize fun _ => .pure fun w hw => hw.toSafe
    | false =>
      refine .bind _ (hfinalize.weaken (fun w hw => hw.1.2.2 rfl) (fun _ _ hw => hw) fun _ hw => hw) fun _ => ?_
      exact .pure fun w hw => hw.toSafe

theorem spec_observeMonitored (hdraw : Function.Injective (idOf draw)) (sight : Sight) :
    Spec (Steady draw fresh u slot) (observeMonitored sight) (fun _ => Safe draw fresh u) (Safe draw fresh u) := by
  refine .reads fun task => ?_
  cases task with
  | none => exact .pure fun w hw => hw.1.toSafe
  | some l =>
    refine .bind (fun _ => Safe draw fresh u) (Spec.caught (spec_onLedger ?_ ?_)) fun _ => .pure fun w hw => hw
    · exact fun w _ hw _ => hw.1.toSafe.observe hdraw (hw.1.consistent.monitored l hw.2) "monitor" sight
    · exact fun w _ hw _ => hw.1.toSafe.observe hdraw (hw.1.consistent.monitored l hw.2) "monitor" sight

theorem spec_tracyStop (waitFails : Bool) (stop : Stop) :
    Spec (Steady draw fresh u slot) (tracyStop waitFails stop) (fun _ => Safe draw fresh u) (Safe draw fresh u) := by
  refine .bind _ (spec_isGameRunning waitFails) fun wasRunning => ?_
  refine .reads fun kind => ?_
  cases wasRunning with
  | true =>
    rw [if_pos rfl]
    split
    · exact (spec_stopGameProcess stop).weaken (fun w hw => hw.1.1) (fun _ _ hw => hw.toSafe) fun _ hw => hw
    · exact .pure fun w hw => hw.1.1.toSafe
  | false =>
    exact (spec_finishRuntimeCleanup stop.cleanup).weaken (fun w hw => hw.1.2.2 rfl) (fun _ _ hw => hw.toSafe)
      fun _ hw => hw

end Specs

section Steps

variable {w v : World L} {step : RuntimeStep L}

-- What holds between the steps of a run: the calls without a stage have not been made.
def Upheld (draw : L → Bytes) (u : Ledger L) (w : World L) : Prop :=
  Safe draw {l | w.calls l = none} u w.server

omit [DecidableEq L] in
theorem upheld_new : Upheld draw (World.new L).server.ledger (World.new L) := by
  refine ⟨⟨?_, ?_, ?_, ?_, orderly_nil, fun _ h => h, fun _ _ => ⟨rfl, rfl⟩⟩, ?_, ?_, ?_, ?_, ?_⟩
  · intro l session h
    cases h
  · intro l document h
    cases h
  · intro l processId h
    cases h
  · exact fun l _ => ⟨rfl, List.not_mem_nil, List.not_mem_nil⟩
  · intro l h
    cases h
  · intro l h
    cases h
  · intro l h
    cases h
  · intro p l h
    cases h
  · intro l h
    cases h

omit [DecidableEq L] in
theorem Upheld.restart {u : Ledger L} (h : Upheld draw u w) : Upheld draw w.server.ledger w :=
  ⟨h.kept.restart, h.consistent⟩

theorem inCall_stage {stage : Option CallStage} {m : Section L CallStage} (hin : w.inCall l stage m = some v) :
    w.calls l = stage := by
  unfold World.inCall at hin
  split at hin
  · assumption
  · cases hin

theorem Upheld.inCall {u : Ledger L} {stage : Option CallStage} {m : Section L CallStage}
    (hm : Safe draw ({l' | w.calls l' = none} \ {l}) u (m w.server).2) (hin : w.inCall l stage m = some v) :
    Upheld draw u v := by
  unfold World.inCall at hin
  split at hin
  · cases hin
    refine hm.fewer ?_
    intro l' hl'
    have hnone : Function.update w.calls l (some ((m w.server).1.toOption.getD .returned)) l' = none := hl'
    have hne : l' ≠ l := by
      rintro rfl
      rw [Function.update_self] at hnone
      cases hnone
    rw [Function.update_of_ne hne] at hnone
    exact ⟨hnone, hne⟩
  · cases hin

omit [DecidableEq L] in
theorem spec_safe {α : Type} {m : Section L α} {fresh : Set L} {u : Ledger L} {server : Server L}
    (h : ∀ slot, Spec (Steady draw fresh u slot) m (fun _ => Safe draw fresh u) (Safe draw fresh u))
    (hsafe : Safe draw fresh u server) : Safe draw fresh u (m server).2 :=
  (h server.runtime.integrity).leaves ⟨hsafe, rfl⟩

theorem perform_upheld (hdraw : Function.Injective (idOf draw)) {u : Ledger L} (h : Upheld draw u w)
    (hcareful : Careful draw privateState w step) (hstep : w.perform draw privateState step = some v) :
    Upheld draw u v := by
  have hsafe : Safe draw {l | w.calls l = none} u w.server := h
  cases step with
  | launch l i => exact Upheld.inCall (launch_safe hdraw hsafe (inCall_stage hstep) hcareful) hstep
  | checkLaunch l waitFails finalization =>
    exact Upheld.inCall ((spec_safe (fun _ => spec_checkLaunch hdraw waitFails finalization) hsafe).fewer
      Set.sdiff_subset) hstep
  | launchUnready l stop finalization =>
    exact Upheld.inCall ((spec_safe (fun _ => spec_launchUnready hdraw stop finalization) hsafe).fewer
      Set.sdiff_subset) hstep
  | launchReady l waitFails sight =>
    exact Upheld.inCall ((spec_safe (fun _ => spec_launchReady hdraw waitFails sight) hsafe).fewer
      Set.sdiff_subset) hstep
  | status waitFails sight finalization =>
    cases hstep
    exact spec_safe (fun _ => spec_refresh hdraw "status" waitFails sight finalization) hsafe
  | waitForOutput waitFails sight finalization =>
    cases hstep
    exact spec_safe (fun _ => spec_refresh hdraw "wait_for_output" waitFails sight finalization) hsafe
  | stop waitFails stop finalization =>
    cases hstep
    exact spec_safe (fun _ => spec_stopWithLifecycle hdraw waitFails stop finalization) hsafe
  | tracyStop waitFails stop =>
    cases hstep
    exact spec_safe (fun _ => spec_tracyStop waitFails stop) hsafe
  | tracyAbort stop =>
    cases hstep
    exact spec_safe (fun _ => (spec_stopGameProcess stop).weaken (fun _ hw => hw) (fun _ _ hw => hw.toSafe)
      fun _ hw => hw) hsafe
  | poll waitFails =>
    cases hstep
    exact spec_safe (fun _ => (spec_isGameRunning waitFails).weaken (fun _ hw => hw) (fun _ _ hw => hw.1.toSafe)
      fun _ hw => hw) hsafe
  | monitor sight =>
    cases hstep
    exact spec_safe (fun _ => spec_observeMonitored hdraw sight) hsafe
  | exit l =>
    unfold World.perform at hstep
    dsimp only at hstep
    split at hstep
    · cases hstep
      exact ⟨hsafe.kept.exit l, hsafe.consistent.watched (watched_exit w.server.ledger l)⟩
    · cases hstep

end Steps

-- The history only grows, and what has been finalised stays as it is.
structure Lasting (draw : L → Bytes) (u v : Ledger L) : Prop where
  grows : u.history ⊆ v.history
  settled : ∀ l, .finalized l ∈ u.history → v.journals (journalOf draw l) = u.journals (journalOf draw l) ∧
    (v.sessions l).map (·.document) = (u.sessions l).map (·.document)

omit [DecidableEq L] in
theorem Lasting.trans {u v w : Ledger L} (h : Lasting draw u v) (h' : Lasting draw v w) : Lasting draw u w := by
  refine ⟨fun _ hmem => h'.grows (h.grows hmem), fun l hl => ?_⟩
  obtain ⟨hjournal, hdocument⟩ := h.settled l hl
  obtain ⟨hjournal', hdocument'⟩ := h'.settled l (h.grows hl)
  exact ⟨hjournal'.trans hjournal, hdocument'.trans hdocument⟩

omit [DecidableEq L] in
theorem Upheld.lasting {u : Ledger L} {w : World L} (h : Upheld draw u w) : Lasting draw u w.server.ledger := by
  refine ⟨h.kept.grows, fun l hl => ?_⟩
  obtain ⟨hjournal, hsession⟩ := h.kept.settled l hl
  exact ⟨hjournal, congrArg (Option.map (·.document)) hsession⟩

theorem journals_immutable (hdraw : Function.Injective draw) {trace : List (World L × RuntimeStep L)} {w : World L}
    (hrun : Trace (World.perform draw privateState) (World.new L) trace w)
    (hcareful : ∀ m ∈ trace, Careful draw privateState m.1 m.2) : JournalLaw draw trace w := by
  have hinjective := idOf_injective hdraw
  have hrestricted := hrun.restrict hcareful
  have hstep : ∀ w s w', Upheld draw w.server.ledger w →
      restricted (World.perform draw privateState) (Careful draw privateState) w s = some w' →
        Upheld draw w.server.ledger w' := by
    intro w s w' h hs
    obtain ⟨hguard, hperform⟩ := restricted_some.mp hs
    exact perform_upheld hinjective h hguard hperform
  have hinvariant : ∀ w s w', Upheld draw w.server.ledger w →
      restricted (World.perform draw privateState) (Careful draw privateState) w s = some w' →
        Upheld draw w'.server.ledger w' := fun w s w' h hs => (hstep w s w' h hs).restart
  have hlasting := hrestricted.pairwise (I := fun w => Upheld draw w.server.ledger w)
    (R := fun u v => Lasting draw u.server.ledger v.server.ledger) upheld_new hinvariant
    (fun w => ⟨fun _ h => h, fun _ _ => ⟨rfl, rfl⟩⟩) (fun _ _ _ h h' => h.trans h')
    fun w s w' h hs => (hstep w s w' h hs).lasting
  refine ⟨hlasting.imp fun h l hl => h.settled l hl, fun v hv => ?_⟩
  have hupheld := hrestricted.invariant (P := fun w => Upheld draw w.server.ledger w) upheld_new hinvariant v hv
  exact ⟨hupheld.kept.orderly, hupheld.kept.journals⟩

instance careful_decidable (draw : L → Bytes) (privateState : Bool) (w : World L) (step : RuntimeStep L) :
    Decidable (Careful draw privateState w step) :=
  match step with
  | .launch l i =>
    inferInstanceAs (Decidable ((enter i w.server).1.toOption = some true →
      w.server.runtime.integrity = none ∨
        i.profilerPort = none ∧ privateState = true ∧ i.creation.succeeds draw l = true))
  | .checkLaunch _ _ _ | .launchUnready _ _ _ | .launchReady _ _ _ | .status _ _ _ | .waitForOutput _ _ _
  | .stop _ _ _ | .tracyStop _ _ | .tracyAbort _ | .poll _ | .monitor _ | .exit _ => .isTrue trivial

def sightOf (current : WorkspaceSnapshot) : Sight := ⟨⟨.ok current, ⟨fun _ => false, some⟩, 0, []⟩, .ok⟩

def finalizing (current : WorkspaceSnapshot) : Finalization := ⟨.ok (), [], sightOf current, .ok⟩

def editedWorkspace : WorkspaceSnapshot :=
  ⟨["ws".toList], FinMap.empty.insert ['a'] ⟨true, none, none, none, some 0, []⟩, [], []⟩

def launching (profilerPort : Option Nat) (processId : Nat) : LaunchInput where
  waitFails := false
  natural := finalizing emptyBaseline
  checks := .ok ()
  profilerPort := profilerPort
  creation := ⟨.ok emptyBaseline, .ok (), .ok (), .ok, ⟨.unverified, none, [], []⟩, []⟩
  spawn := .ok (some processId)
  spawnFailed := finalizing emptyBaseline
  setProcessId := .ok

-- The first runtime is finalised once it has exited; the workspace is edited while the second runs.
def successive (profilerPort : Option Nat) : List (RuntimeStep Bool) :=
  [.launch true (launching none 1), .checkLaunch true false (finalizing emptyBaseline),
    .launchReady true false (sightOf emptyBaseline), .exit true,
    .status false (sightOf emptyBaseline) (finalizing emptyBaseline),
    .launch false (launching profilerPort 2), .checkLaunch false false (finalizing editedWorkspace),
    .launchReady false false (sightOf editedWorkspace), .exit false,
    .stop false ⟨.ok (), .ok (), .ok ()⟩ (finalizing editedWorkspace)]

def afterLaunches (profilerPort : Option Nat) : List (World Bool × RuntimeStep Bool) × World Bool :=
  replay (World.perform drawTwo true) (successive profilerPort) (.new Bool)

def eventsOf (slot : Slot RuntimeIntegrityJournal) : List RuntimeIntegrityEvent :=
  match slot with
  | .record document => document.events
  | _ => []

theorem journals_immutable_standard :
    JournalLaw drawTwo (afterLaunches none).1 (afterLaunches none).2 ∧
      .finalized true ∈ (afterLaunches none).2.server.ledger.history ∧
      .finalized false ∈ (afterLaunches none).2.server.ledger.history :=
  ⟨journals_immutable (by decide) (Trace.replay (successive none)) (by decide +kernel), by decide +kernel,
    by decide +kernel⟩

-- A profiled launch has no session of its own and observes for the one that it finds.
theorem journals_rewritten_profiled :
    ¬ JournalLaw drawTwo (afterLaunches (some 9)).1 (afterLaunches (some 9)).2 := by
  intro h
  have hlater := (List.pairwise_append.mp h.immutable).2.2 _
    (List.mem_map_of_mem (List.getElem_mem (show 5 < (afterLaunches (some 9)).1.length by decide +kernel))) _
    (List.mem_singleton.mpr rfl) true (by decide +kernel)
  have hevents := congrArg (fun slot => (eventsOf slot).length) hlater.1
  exact absurd hevents (by decide +kernel)

end RuntimeIntegrity
