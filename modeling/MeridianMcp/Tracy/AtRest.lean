import MeridianMcp.Tracy.Collector

namespace Tracy

open Effects

structure Consistent (session : CollectorSession) (worker : Option Worker) : Prop where
  idle : session.captureActive = false
  attached : session.status.workerAttached = worker.isSome
  drained : session.status.phase = .draining →
    ∃ k, worker = some k ∧ k.purpose = .drain ∧ k.healthy = true

-- The recovery of a failed capture detaches whatever its attachment left behind.
def Errand.recovers : Errand → Bool
  | .connecting _ => true
  | .reattaching _ _ => true
  | _ => false

def Cleared (limits : SessionLimits) (errand : Errand) (attempt : Nat) :
    Except (Thrown × Bool) Unit → Prop
  | .ok _ => True
  | .error (error, leaves) =>
    leaves = false ∨ errand.recovers = true ∨
      (error.transient = true ∧ attempt ≠ limits.maximumAttachAttempts)

instance (limits : SessionLimits) (errand : Errand) (attempt : Nat) :
    DecidablePred (Cleared limits errand attempt)
  | .ok _ => .isTrue trivial
  | .error (error, leaves) =>
    inferInstanceAs (Decidable (leaves = false ∨ errand.recovers = true ∨
      (error.transient = true ∧ attempt ≠ limits.maximumAttachAttempts)))

-- A poll that does not give up the wait for readiness.
def InTime (w : SessionWorld Unit) (initialProgress deadline : Nat) (input : Input) : Prop :=
  (w.observed input).isOk = false ∨ input.now < deadline ∨
    (initialProgress < input.progress ∧ (SessionWorld.readyHealth (w.observed input)).isSome = true)

instance (w : SessionWorld Unit) (initialProgress deadline : Nat) (input : Input) :
    Decidable (InTime w initialProgress deadline input) :=
  inferInstanceAs (Decidable (_ ∨ _ ∨ (_ ∧ _)))

def CleanAt (limits : SessionLimits) (w : SessionWorld Unit) (input : Input) : Stage → Prop
  | .polling initialProgress deadline => InTime w initialProgress deadline input
  | .attaching errand attempt => Cleared limits errand attempt input.attach
  | _ => True

instance (limits : SessionLimits) (w : SessionWorld Unit) (input : Input) :
    DecidablePred (CleanAt limits w input) := fun stage => by
  cases stage with
  | polling initialProgress deadline =>
    exact inferInstanceAs (Decidable (InTime w initialProgress deadline input))
  | attaching errand attempt => exact inferInstanceAs (Decidable (Cleared limits errand attempt input.attach))
  | _ => exact .isTrue trivial

def Clean (limits : SessionLimits) (w : SessionWorld Unit) : SessionStep Unit → Prop
  | .advance _ input => CleanAt limits w input (w.threads ())
  | _ => True

instance (limits : SessionLimits) (w : SessionWorld Unit) : DecidablePred (Clean limits w)
  | .advance _ input => inferInstanceAs (Decidable (CleanAt limits w input (w.threads ())))
  | .start _ _ _ | .capture _ _ _ | .status _ _ | .cancel _ | .stop _ _ => .isTrue trivial

-- Where a worker has been asked for, no other one may be there.
def Drained (worker : Option Worker) : Prop :=
  ∃ k, worker = some k ∧ k.purpose = .drain ∧ k.healthy = true

def Errand.Underway : Errand → CollectorSession → Prop
  | .starting _ _, s => s.captureActive = false ∧ s.status.phase = .starting
  | _, s => s.captureActive = true

def Matched (session : CollectorSession) (worker : Option Worker) : Prop :=
  session.status.workerAttached = worker.isSome ∧ ∀ k, worker = some k → k.purpose = .drain

def Errand.restarts : Errand → Bool
  | .reattaching _ _ => true
  | .restoring _ _ => true
  | _ => false

def Fits (limits : SessionLimits) : Stage → CollectorSession → Option Worker → Prop
  | .rest _, s, k => Consistent s k ∧ (s.status.phase = .stopped → k = none)
  | .readying _, s, k =>
    (s.captureActive = false ∧ s.status.phase = .starting) ∧ s.status.workerAttached = false ∧ k = none
  | .attaching errand _, s, k =>
    errand.Underway s ∧ s.status.workerAttached = false ∧ k = none
  | .attached errand, s, k =>
    errand.Underway s ∧ ∃ worker, k = some worker ∧ worker.purpose = errand.purpose
  | .attachFailed errand attempt code message, s, k =>
    errand.Underway s ∧
      (k = none ∨ errand.recovers = true ∨
        ((Thrown.protocolError code message).transient = true ∧ attempt ≠ limits.maximumAttachAttempts))
  | .attachDetaching errand _, s, _ =>
    errand.Underway s ∧ s.status.workerAttached = false
  | .attachRetrying errand _, s, k =>
    errand.Underway s ∧ s.status.workerAttached = false ∧ k = none
  | .startFailing _, s, k => s.captureActive = false ∧ s.status.workerAttached = false ∧ k = none
  | .polling _ _, s, k => (s.captureActive = false ∧ s.status.phase = .starting) ∧ Matched s k
  | .timingOut _, _, _ => False
  | .timedOut _, _, _ => False
  | .draining _, s, k => s.captureActive = false ∧ s.status.workerAttached = true ∧ Drained k
  | .released _ _, s, k => s.captureActive = true ∧ k = none
  | .disconnected _, s, k => s.captureActive = true ∧ k = none
  | .awaiting errand _, s, k => s.captureActive = true ∧ errand.restarts = true ∧ Matched s k
  | .reattached _ _ _, s, k => s.captureActive = true ∧ s.status.workerAttached = true ∧ Drained k
  | .restoring _ _, s, k => s.captureActive = true ∧ k = none
  | .restored _ _ _, s, k => s.captureActive = true ∧ s.status.workerAttached = true ∧ Drained k
  | .unrestored _ _, s, k => s.captureActive = true ∧ s.status.workerAttached = k.isSome
  | .failing _ _ restored, s, k =>
    s.captureActive = true ∧ s.status.workerAttached = k.isSome ∧ (restored = true → Drained k)
  | .stopWaiting _, _, _ => False
  | .stopDetaching, s, _ => s.captureActive = false
  | .stopFinishing, s, k => s.captureActive = false ∧ k = none
  | _, s, _ => s.captureActive = true

variable {limits : SessionLimits}

def AllFit (limits : SessionLimits) (w : SessionWorld Unit) : Prop := Fits limits (w.threads ()) w.session w.worker

theorem matched_markHealthy {w : SessionWorld Unit} {s : CollectorSession}
    (health : Except Thrown (Option QueueHealth)) (h : Matched s w.worker) :
    Matched s (w.markHealthy health).worker := by
  obtain ⟨mark, hmark, hpurpose, -, -⟩ := w.markHealthy_worker health
  rw [hmark]
  refine ⟨by rw [Option.isSome_map]; exact h.1, ?_⟩
  intro k hk
  obtain ⟨k', hk', rfl⟩ := Option.map_eq_some_iff.mp hk
  rw [hpurpose]
  exact h.2 k' hk'

theorem drained_markHealthy {w : SessionWorld Unit} {s : CollectorSession} {input : Input} {h : QueueHealth}
    (hobserved : w.observed input = .ok (some h)) (hready : h.ready = true) (hm : Matched s w.worker) :
    s.status.workerAttached = true ∧ Drained (w.markHealthy (.ok (some h))).worker := by
  obtain ⟨k, hk⟩ := SessionWorld.worker_of_observed hobserved
  obtain ⟨mark, hmark, hpurpose, -, hhealthy⟩ := w.markHealthy_worker (.ok (some h))
  constructor
  · rw [hm.1, hk]
    rfl
  · refine ⟨mark k, ?_, ?_, ?_⟩
    · rw [hmark, hk]
      rfl
    · rw [hpurpose]
      exact hm.2 k hk
    · apply hhealthy h
      simp [SessionWorld.readyHealth, hready]

theorem consistent_markHealthy {w : SessionWorld Unit} {s s' : CollectorSession}
    (health : Except Thrown (Option QueueHealth)) (h : Consistent s w.worker)
    (hidle : s'.captureActive = s.captureActive := by rfl)
    (hattached : s'.status.workerAttached = s.status.workerAttached := by rfl)
    (hphase : s'.status.phase = s.status.phase := by rfl) :
    Consistent s' (w.markHealthy health).worker := by
  obtain ⟨mark, hmark, hpurpose, hhealthy, -⟩ := w.markHealthy_worker health
  refine ⟨hidle.trans h.idle, ?_, ?_⟩
  · rw [hmark, hattached, h.attached, Option.isSome_map]
  · intro hdraining
    obtain ⟨k, hk, hdrain, hok⟩ := h.drained (hphase.symm.trans hdraining)
    refine ⟨mark k, ?_, (hpurpose k).trans hdrain, hhealthy k hok⟩
    rw [hmark, hk]
    rfl

theorem allFit_goto {w : SessionWorld Unit} {stage : Stage} :
    AllFit limits (w.goto () stage) ↔ Fits limits stage w.session w.worker := by
  rw [AllFit, SessionWorld.goto_threads_self, SessionWorld.goto_session, SessionWorld.goto_worker]

theorem fits_afterAttach {errand : Errand} {session s : CollectorSession} {worker : Option Worker} {now : Nat}
    (hunderway : errand.Underway s) (hattached : s.status.workerAttached = worker.isSome)
    (hpurpose : ∀ k, worker = some k → k.purpose = errand.purpose) :
    Fits limits (SessionWorld.afterAttach session now errand) s worker := by
  cases errand with
  | starting initialProgress progressTimeoutMs => exact ⟨hunderway, hattached, hpurpose⟩
  | connecting options => exact hunderway
  | reattaching result windowStarted => exact ⟨hunderway, rfl, hattached, hpurpose⟩
  | restoring error windowStarted => exact ⟨hunderway, rfl, hattached, hpurpose⟩

theorem fits_attach {errand : Errand} {session s : CollectorSession} {worker : Option Worker}
    {now attempt : Nat} (hunderway : errand.Underway s) (hattached : s.status.workerAttached = false)
    (hworker : worker = none) :
    Fits limits (SessionWorld.attach limits session now errand attempt) s worker := by
  rw [SessionWorld.attach]
  split
  · exact ⟨hunderway, hattached, hworker⟩
  · apply fits_afterAttach hunderway
    · rw [hattached, hworker]
      rfl
    · rw [hworker]
      nofun

theorem fits_raise {errand : Errand} {s : CollectorSession} {worker : Option Worker} {error : Thrown}
    (hunderway : errand.Underway s)
    (hclean : errand.recovers = true ∨ (s.status.workerAttached = false ∧ worker = none)) :
    Fits limits (SessionWorld.raise error errand) s worker := by
  cases errand with
  | connecting options => exact hunderway
  | reattaching result windowStarted => exact hunderway
  | starting initialProgress progressTimeoutMs =>
    rcases hclean with hclean | hclean
    · cases hclean
    · exact ⟨hunderway.1, hclean⟩
  | restoring error windowStarted =>
    rcases hclean with hclean | ⟨hattached, hworker⟩
    · cases hclean
    · refine ⟨hunderway, ?_⟩
      rw [hattached, hworker]
      rfl

theorem allFit_poll {w : SessionWorld Unit} {initialProgress deadline : Nat} {input : Input}
    (hstarting : w.session.captureActive = false ∧ w.session.status.phase = .starting)
    (hmatched : Matched w.session w.worker) (hintime : InTime w initialProgress deadline input) :
    AllFit limits (w.poll () initialProgress deadline input) := by
  rw [SessionWorld.poll]
  cases hobserved : w.observed input with
  | error error =>
    dsimp only
    rw [allFit_goto]
    refine ⟨⟨hstarting.1, hmatched.1, ?_⟩, ?_⟩
    all_goals
      rw [hstarting.2]
      nofun
  | ok health =>
    rw [InTime, hobserved] at hintime
    dsimp only
    split
    · rename_i health' hadvanced hready
      obtain ⟨hhealth, hvalid⟩ := SessionWorld.readyHealth_eq hready
      obtain rfl : health = some health' := by injection hhealth
      rw [allFit_goto, SessionWorld.markHealthy_session]
      exact ⟨hstarting.1, drained_markHealthy hobserved hvalid hmatched⟩
    · rename_i progressAdvanced found hnot
      have hbefore : input.now < deadline := by
        rcases hintime with h | h | ⟨hprogress, hsome⟩
        · cases h
        · exact h
        · obtain ⟨h, hh⟩ := Option.isSome_iff_exists.mp hsome
          exact (hnot h (decide_eq_true hprogress) hh).elim
      rw [if_neg (Nat.not_le.mpr hbefore), allFit_goto, SessionWorld.markHealthy_session]
      exact ⟨hstarting, matched_markHealthy _ hmatched⟩

theorem allFit_await {w : SessionWorld Unit} {errand : Errand} {deadline : Nat} {input : Input}
    (hthread : w.threads () = .awaiting errand deadline) (hactive : w.session.captureActive = true)
    (hrestarts : errand.restarts = true) (hmatched : Matched w.session w.worker) :
    AllFit limits (w.await () errand deadline input) := by
  have hraise : ∀ error, Fits limits (SessionWorld.raise error errand) w.session w.worker := by
    intro error
    cases errand with
    | starting => cases hrestarts
    | connecting => cases hrestarts
    | reattaching result windowStarted => exact hactive
    | restoring error windowStarted => exact ⟨hactive, hmatched.1⟩
  rw [SessionWorld.await]
  cases hobserved : w.observed input with
  | error error =>
    dsimp only
    rw [allFit_goto]
    exact hraise error
  | ok health =>
    dsimp only
    cases hready : SessionWorld.readyHealth (.ok health) with
    | some health' =>
      obtain ⟨hhealth, hvalid⟩ := SessionWorld.readyHealth_eq hready
      obtain rfl : health = some health' := by injection hhealth
      dsimp only
      rw [allFit_goto, SessionWorld.markHealthy_session]
      have hdrained := drained_markHealthy hobserved hvalid hmatched
      cases errand with
      | starting => cases hrestarts
      | connecting => cases hrestarts
      | reattaching result windowStarted => exact ⟨hactive, hdrained⟩
      | restoring error windowStarted => exact ⟨hactive, hdrained⟩
    | none =>
      dsimp only
      split
      · rw [allFit_goto]
        exact hraise _
      · rw [AllFit, hthread]
        exact ⟨hactive, hrestarts, hmatched⟩

theorem allFit_tryAttach {w : SessionWorld Unit} {errand : Errand} {attempt : Nat} {input : Input}
    (hunderway : errand.Underway w.session) (hattached : w.session.status.workerAttached = false)
    (hworker : w.worker = none) (hcleared : Cleared limits errand attempt input.attach) :
    AllFit limits (w.tryAttach limits () errand attempt input) := by
  rw [SessionWorld.tryAttach]
  cases hattach : input.attach with
  | ok found =>
    dsimp only
    rw [allFit_goto]
    exact ⟨hunderway, _, rfl, rfl⟩
  | error failure =>
    obtain ⟨error, leaves⟩ := failure
    rw [hattach] at hcleared
    cases leaves with
    | false =>
      cases error with
      | protocolError code message =>
        dsimp only
        rw [allFit_goto]
        exact ⟨hunderway, .inl hworker⟩
      | exception =>
        dsimp only
        rw [allFit_goto]
        exact fits_raise hunderway (.inr ⟨hattached, hworker⟩)
    | true =>
      rcases hcleared with h | hcleared
      · cases h
      cases error with
      | protocolError code message =>
        dsimp only
        rw [allFit_goto]
        exact ⟨hunderway, .inr hcleared⟩
      | exception =>
        dsimp only
        rw [allFit_goto]
        apply fits_raise hunderway
        rcases hcleared with h | h
        · exact .inl h
        · cases h.1

theorem allFit_advance {w w' : SessionWorld Unit} {input : Input} (hfit : AllFit limits w)
    (hclean : Clean limits w (.advance () input)) (h : w.advance limits () input = some w') :
    AllFit limits w' := by
  rw [AllFit] at hfit
  rw [Clean] at hclean
  rw [SessionWorld.advance] at h
  generalize hthread : w.threads () = stage at hfit hclean h
  cases stage with
  | rest outcome => cases h
  | readying options =>
    cases h
    rw [allFit_goto]
    exact fits_attach hfit.1 hfit.2.1 hfit.2.2
  | attaching errand attempt =>
    cases h
    exact allFit_tryAttach hfit.1 hfit.2.1 hfit.2.2 hclean
  | attached errand =>
    cases h
    obtain ⟨hunderway, worker, hworker, hpurpose⟩ := hfit
    rw [allFit_goto]
    apply fits_afterAttach
    · cases errand with
      | starting => exact hunderway
      | _ => exact hunderway
    · change true = w.worker.isSome
      rw [hworker]
      rfl
    · rintro k hk
      have hk' : w.worker = some k := hk
      rw [hworker] at hk'
      cases hk'
      exact hpurpose
  | attachFailed errand attempt code message =>
    cases h
    rw [allFit_goto]
    have hunderway : errand.Underway (w.session.attachFailed message) := by
      cases errand with
      | starting => exact hfit.1
      | _ => exact hfit.1
    split
    · rename_i hfinal
      apply fits_raise hunderway
      rcases hfit.2 with hworker | hrecovers | ⟨htransient, hagain⟩
      · exact .inr ⟨rfl, hworker⟩
      · exact .inl hrecovers
      · rcases hfinal with hfinal | hfinal
        · rw [htransient] at hfinal
          cases hfinal
        · exact absurd hfinal hagain
    · exact ⟨hunderway, rfl⟩
  | attachDetaching errand attempt =>
    cases h
    rw [allFit_goto]
    exact ⟨hfit.1, hfit.2, rfl⟩
  | attachRetrying errand attempt =>
    cases h
    rw [allFit_goto]
    have hunderway : errand.Underway w.session.retried := by
      cases errand with
      | starting => exact hfit.1
      | _ => exact hfit.1
    exact fits_attach hunderway hfit.2.1 hfit.2.2
  | startFailing error =>
    cases h
    rw [allFit_goto]
    refine ⟨⟨hfit.1, ?_, nofun⟩, nofun⟩
    change w.session.status.workerAttached = w.worker.isSome
    rw [hfit.2.1, hfit.2.2]
    rfl
  | polling initialProgress deadline =>
    cases h
    exact allFit_poll hfit.1 hfit.2 hclean
  | timingOut progressAdvanced => exact hfit.elim
  | timedOut progressAdvanced => exact hfit.elim
  | draining health =>
    cases h
    rw [allFit_goto]
    obtain ⟨hactive, hattached, k, hworker, hk⟩ := hfit
    refine ⟨⟨hactive, ?_, fun _ => ⟨k, hworker, hk⟩⟩, nofun⟩
    change w.session.status.workerAttached = w.worker.isSome
    rw [hattached, hworker]
    rfl
  | disconnecting options =>
    cases h
    rw [allFit_goto]
    exact ⟨hfit, rfl⟩
  | disconnected options =>
    cases h
    rw [allFit_goto]
    exact fits_attach hfit.1 rfl hfit.2
  | connected options =>
    cases h
    rw [allFit_goto]
    exact hfit
  | measuring options =>
    cases h
    rw [SessionWorld.measure]
    split
    · rw [allFit_goto]
      exact hfit
    · split
      · rw [allFit_goto]
        exact hfit
      · rw [allFit_goto]
        exact hfit
  | validating result windowStarted =>
    cases h
    rw [allFit_goto]
    exact hfit
  | releasing result windowStarted =>
    cases h
    rw [allFit_goto]
    exact ⟨hfit, rfl⟩
  | released result windowStarted =>
    cases h
    rw [allFit_goto]
    exact fits_attach hfit.1 rfl hfit.2
  | awaiting errand deadline =>
    cases h
    exact allFit_await hthread hfit.1 hfit.2.1 hfit.2.2
  | reattached result windowStarted health =>
    cases h
    rw [allFit_goto]
    obtain ⟨-, hattached, k, hworker, hk⟩ := hfit
    refine ⟨⟨rfl, ?_, fun _ => ⟨k, hworker, hk⟩⟩, nofun⟩
    change w.session.status.workerAttached = w.worker.isSome
    rw [hattached, hworker]
    rfl
  | recovering error windowStarted =>
    cases h
    rw [allFit_goto]
    exact ⟨hfit, rfl⟩
  | restoring error windowStarted =>
    cases h
    rw [allFit_goto]
    exact fits_attach hfit.1 rfl hfit.2
  | restored error windowStarted health =>
    cases h
    rw [allFit_goto]
    obtain ⟨hactive, hattached, k, hworker, hk⟩ := hfit
    refine ⟨hactive, ?_, fun _ => ⟨k, hworker, hk⟩⟩
    change w.session.status.workerAttached = w.worker.isSome
    rw [hattached, hworker]
    rfl
  | unrestored error windowStarted =>
    cases h
    rw [allFit_goto]
    exact ⟨hfit.1, hfit.2, nofun⟩
  | failing error windowStarted restored =>
    cases h
    rw [allFit_goto]
    cases restored with
    | false => exact ⟨⟨rfl, hfit.2.1, nofun⟩, nofun⟩
    | true => exact ⟨⟨rfl, hfit.2.1, fun _ => hfit.2.2 rfl⟩, nofun⟩
  | stopWaiting deadline => exact hfit.elim
  | stopDetaching =>
    cases h
    rw [allFit_goto]
    exact ⟨hfit, rfl⟩
  | stopFinishing =>
    cases h
    rw [allFit_goto]
    refine ⟨⟨hfit.1, ?_, nofun⟩, fun _ => hfit.2⟩
    change false = w.worker.isSome
    rw [hfit.2]
    rfl

theorem allFit_step {w w' : SessionWorld Unit} {step : SessionStep Unit} (hfit : AllFit limits w)
    (hclean : Clean limits w step) (h : w.perform limits step = some w') : AllFit limits w' := by
  have hrest : (w.threads ()).resting = true →
      Consistent w.session w.worker ∧ (w.session.status.phase = .stopped → w.worker = none) := by
    intro hresting
    rw [AllFit] at hfit
    generalize w.threads () = stage at hfit hresting
    cases stage with
    | rest outcome => exact hfit
    | _ => cases hresting
  cases step with
  | advance i input => exact allFit_advance hfit hclean h
  | start i options now =>
    rw [SessionWorld.perform] at h
    split at h
    · rename_i hresting
      cases h
      obtain ⟨hconsistent, hstopped⟩ := hrest hresting
      rw [SessionWorld.callStart]
      split
      · rw [allFit_goto]
        exact ⟨hconsistent, hstopped⟩
      · rename_i hphase
        have hnone := hstopped (not_not.mp hphase)
        rw [allFit_goto]
        refine ⟨⟨hconsistent.idle, rfl⟩, ?_, hnone⟩
        change w.session.status.workerAttached = false
        rw [hconsistent.attached, hnone]
        rfl
    · cases h
  | capture i options now =>
    rw [SessionWorld.perform] at h
    split at h
    · rename_i hresting
      cases h
      have hkeep := hrest hresting
      rw [SessionWorld.callCapture]
      split
      · rw [allFit_goto]
        exact hkeep
      · split
        · rw [allFit_goto]
          exact hkeep
        · split
          · rw [allFit_goto]
            exact hkeep
          · rw [allFit_goto]
            rfl
    · cases h
  | status i input =>
    rw [SessionWorld.perform] at h
    split at h
    · rename_i hresting
      cases h
      obtain ⟨hconsistent, hstopped⟩ := hrest hresting
      rw [SessionWorld.callStatus]
      split
      · cases hobserved : w.observed input with
        | error error =>
          dsimp only
          rw [allFit_goto]
          exact ⟨⟨hconsistent.idle, hconsistent.attached, hconsistent.drained⟩, hstopped⟩
        | ok health =>
          dsimp only
          rw [allFit_goto, SessionWorld.markHealthy_session]
          exact ⟨consistent_markHealthy _ hconsistent, fun hphase => SessionWorld.markHealthy_none _ (hstopped hphase)⟩
      · rw [allFit_goto]
        exact ⟨hconsistent, hstopped⟩
    · cases h
  | cancel i =>
    rw [SessionWorld.perform] at h
    split at h
    · rename_i hresting
      cases h
      obtain ⟨hconsistent, hstopped⟩ := hrest hresting
      rw [SessionWorld.callCancel, hconsistent.idle, if_neg Bool.false_ne_true]
      rw [allFit_goto]
      exact ⟨hconsistent, hstopped⟩
    · cases h
  | stop i now =>
    rw [SessionWorld.perform] at h
    split at h
    · rename_i hresting
      cases h
      obtain ⟨hconsistent, hstopped⟩ := hrest hresting
      rw [SessionWorld.callStop]
      split
      · rw [allFit_goto]
        exact ⟨hconsistent, hstopped⟩
      · rw [hconsistent.idle, if_neg Bool.false_ne_true, allFit_goto]
        exact hconsistent.idle
    · cases h

theorem allFit_new : AllFit limits (SessionWorld.new Unit) :=
  ⟨⟨rfl, rfl, nofun⟩, fun _ => rfl⟩

theorem consistent_at_rest {trace : List (SessionWorld Unit × SessionStep Unit)} {w : SessionWorld Unit}
    (hrun : SessionWorld.Runs limits trace w) (hclean : ∀ moment ∈ trace, Clean limits moment.1 moment.2) :
    ∀ v ∈ visited trace w, (v.threads ()).resting = true → Consistent v.session v.worker := by
  intro v hv hresting
  have hfit := hrun.guarded allFit_new (fun _ _ _ hw hg h => allFit_step hw hg h) hclean v hv
  rw [AllFit] at hfit
  generalize v.threads () = stage at hfit hresting
  cases stage with
  | rest outcome => exact hfit.1
  | _ => cases hresting

def validHealth : QueueHealth := ⟨1024, 1, true, true⟩

def answering (progress : Nat) : Input := ⟨0, progress, .ok (some validHealth), .ok (), .ok ⟨4096⟩, true⟩

def started {I : Type} (i : I) : List (SessionStep I) :=
  .start i ⟨100⟩ 0 :: (List.replicate 3 (answering 0) ++ List.replicate 2 (answering 10)).map (.advance i)

def measuredOnce {I : Type} (i : I) : List (SessionStep I) :=
  .capture i ⟨1000, 64⟩ 0 :: (List.replicate 13 (answering 20)).map (.advance i)

def restingAfterCapture : SessionWorld Unit :=
  (replay (SessionWorld.perform .default) (started () ++ measuredOnce ()) (.new Unit)).2

theorem consistent_after_capture : Consistent restingAfterCapture.session restingAfterCapture.worker ∧
    restingAfterCapture.session.status.phase = .draining ∧
      restingAfterCapture.session.status.captureCount = 1 :=
  ⟨consistent_at_rest (Trace.replay (started () ++ measuredOnce ())) (by decide) restingAfterCapture
    (last_mem_visited _ _) rfl, rfl, rfl⟩

-- Health never becomes valid, and the deadline passes.
def late : Input := ⟨100, 10, .ok none, .ok (), .ok ⟨0⟩, false⟩

def neverReady : List (SessionStep Unit) :=
  .start () ⟨100⟩ 0 :: (List.replicate 3 (answering 0) ++ List.replicate 3 late).map (.advance ())

theorem start_timeout_keeps_flag : ∃ (trace : List (SessionWorld Unit × SessionStep Unit))
    (w : SessionWorld Unit), SessionWorld.Runs .default trace w ∧
      w.threads () = .rest (some (.threw (SessionWorld.timeoutError true) none)) ∧
        w.session.status.workerAttached = true ∧ w.worker = none ∧ ¬ Consistent w.session w.worker := by
  refine ⟨_, _, Trace.replay neverReady, rfl, rfl, rfl, ?_⟩
  intro h
  cases h.attached

end Tracy
