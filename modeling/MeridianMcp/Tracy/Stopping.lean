import Mathlib.Data.Fintype.Basic
import MeridianMcp.Tracy.AtRest

namespace Tracy

open Effects

inductive Kind where
  | start | capture | stop
  deriving DecidableEq, Repr

def Errand.kind : Errand → Kind
  | .starting _ _ => .start
  | _ => .capture

-- The call that a thread is in.
def Stage.kind : Stage → Option Kind
  | .rest _ => none
  | .readying _ => some .start
  | .attaching errand _ => some errand.kind
  | .attached errand => some errand.kind
  | .attachFailed errand _ _ _ => some errand.kind
  | .attachDetaching errand _ => some errand.kind
  | .attachRetrying errand _ => some errand.kind
  | .startFailing _ => some .start
  | .polling _ _ => some .start
  | .timingOut _ => some .start
  | .timedOut _ => some .start
  | .draining _ => some .start
  | .awaiting errand _ => some errand.kind
  | .stopWaiting _ => some .stop
  | .stopDetaching => some .stop
  | .stopFinishing => some .stop
  | _ => some .capture

def Stage.pastWait : Stage → Bool
  | .stopDetaching => true
  | .stopFinishing => true
  | _ => false

-- The last section of a capture that puts the drain worker back.
def Stage.restores : Stage → Bool
  | .reattached _ _ _ => true
  | .failing _ _ back => back
  | _ => false

variable {I : Type} [DecidableEq I] {limits : SessionLimits}

def StopsAlone (w : SessionWorld I) : SessionStep I → Prop
  | .start _ _ _ => w.session.status.phase = .stopped → ∀ j, (w.threads j).kind ≠ some .stop
  | .stop _ _ => w.session.status.phase ≠ .stopped → ∀ j, (w.threads j).kind ≠ some .start
  | .advance i _ => (w.threads i).restores = true → w.stopping = false
  | _ => True

instance [Fintype I] (w : SessionWorld I) : DecidablePred (StopsAlone w)
  | .start _ _ _ =>
    inferInstanceAs (Decidable (w.session.status.phase = .stopped → ∀ j, (w.threads j).kind ≠ some .stop))
  | .stop _ _ =>
    inferInstanceAs (Decidable (w.session.status.phase ≠ .stopped → ∀ j, (w.threads j).kind ≠ some .start))
  | .advance i _ => inferInstanceAs (Decidable ((w.threads i).restores = true → w.stopping = false))
  | .capture _ _ _ | .status _ _ | .cancel _ => .isTrue trivial

structure StopFinal (w : SessionWorld I) : Prop where
  stays : w.stopped = true →
    w.session.status.phase = .stopped ∧ w.session.status.workerAttached = false ∧ w.worker = none
  never : w.stopping = true → w.session.status.phase ≠ .draining

def AdmitsCapture (limits : SessionLimits) (w : SessionWorld I) : SessionStep I → Prop
  | .capture i options now => w.session.captureActive = false ∧
      (w.callCapture limits i options now).session.captureActive = true
  | _ => False

def changed (w : SessionWorld I) (session : CollectorSession) (worker : Option Worker) (i : I) (stage : Stage) :
    SessionWorld I :=
  { w with session := session, worker := worker }.goto i stage

inductive Act (w : SessionWorld I) : SessionStep I → SessionWorld I → Prop
  | observe {step i} (session : CollectorSession) (worker : Option Worker) (stage : Stage)
      (hkind : (w.threads i).kind = none) (hstage : stage.kind = none)
      (hactive : session.captureActive = w.session.captureActive)
      (hphase : session.status.phase = w.session.status.phase)
      (hattached : session.status.workerAttached = w.session.status.workerAttached)
      (hworker : w.worker = none → worker = none) :
      Act w step (changed w session worker i stage)
  | work {i input} (kind : Kind) (session : CollectorSession) (worker : Option Worker) (stage : Stage)
      (hkind : (w.threads i).kind = some kind) (hne : kind ≠ .stop) (hstage : stage.kind = some kind)
      (hactive : session.captureActive = w.session.captureActive)
      (hphase : session.status.phase = w.session.status.phase ∨
        (session.status.phase ≠ .draining ∧ session.status.phase ≠ .stopped)) :
      Act w (.advance i input) (changed w session worker i stage)
  | finishStart {i input} (session : CollectorSession) (stage : Stage)
      (hkind : (w.threads i).kind = some .start) (hstage : stage.kind = none)
      (hactive : session.captureActive = w.session.captureActive)
      (hphase : session.status.phase = w.session.status.phase ∨ session.status.phase ≠ .stopped) :
      Act w (.advance i input) (changed w session w.worker i stage)
  | finishCapture {i input} (session : CollectorSession) (stage : Stage)
      (hkind : (w.threads i).kind = some .capture) (hstage : stage.kind = none)
      (hactive : session.captureActive = false) (hphase : session.status.phase ≠ .stopped)
      (hrestores : session.status.phase = .draining → (w.threads i).restores = true) :
      Act w (.advance i input) (changed w session w.worker i stage)
  | start {i options now} (hkind : (w.threads i).kind = none)
      (hphase : w.session.status.phase = .stopped) :
      Act w (.start i options now)
        ({ w.put (w.session.admitStart now) with stopping := false, stopped := false }.goto i
          (.readying options))
  | capture {i options now} (hkind : (w.threads i).kind = none)
      (hactive : w.session.captureActive = false) (hphase : w.session.status.phase = .draining) :
      Act w (.capture i options now) ((w.put w.session.admitCapture).goto i (.disconnecting options))
  | stopAgain {i now} (stage : Stage) (hkind : (w.threads i).kind = none) (hstage : stage.kind = none)
      (hphase : w.session.status.phase = .stopped) :
      Act w (.stop i now) ({ w with stopped := true }.goto i stage)
  | stop {i now} (deadline : Nat) (hkind : (w.threads i).kind = none)
      (hphase : w.session.status.phase ≠ .stopped) :
      Act w (.stop i now) ({ w.put w.session.admitStop with stopping := true }.goto i
        (if w.session.captureActive then .stopWaiting deadline else .stopDetaching))
  | stopWait {i input deadline} (hthread : w.threads i = .stopWaiting deadline)
      (hactive : w.session.captureActive = false) :
      Act w (.advance i input) (w.goto i .stopDetaching)
  | stopTimeout {i input deadline} (stage : Stage) (hthread : w.threads i = .stopWaiting deadline)
      (hstage : stage.kind = none) (hactive : w.session.captureActive = true) :
      Act w (.advance i input) ((w.put (w.session.setPhase .failed)).goto i stage)
  | stopDetach {i input} (hthread : w.threads i = .stopDetaching) :
      Act w (.advance i input) ((w.hold none).goto i .stopFinishing)
  | stopFinish {i input} (stage : Stage) (hthread : w.threads i = .stopFinishing)
      (hstage : stage.kind = none) :
      Act w (.advance i input)
        ({ w.put ((w.session.setAttached false).setPhase .stopped) with stopped := true }.goto i stage)

theorem kind_of_resting {stage : Stage} (h : stage.resting = true) : stage.kind = none := by
  cases stage with
  | rest outcome => rfl
  | _ => cases h

theorem kind_afterAttach (session : CollectorSession) (now : Nat) (errand : Errand) :
    (SessionWorld.afterAttach session now errand).kind = some errand.kind := by
  cases errand with
  | _ => rfl

theorem kind_raise (error : Thrown) (errand : Errand) : (SessionWorld.raise error errand).kind = some errand.kind := by
  cases errand with
  | _ => rfl

theorem kind_attach (session : CollectorSession) (now : Nat) (errand : Errand) (attempt : Nat) :
    (SessionWorld.attach limits session now errand attempt).kind = some errand.kind := by
  rw [SessionWorld.attach]
  split
  · rfl
  · exact kind_afterAttach session now errand

theorem kind_afterHealth (health : QueueHealth) (errand : Errand) :
    (SessionWorld.afterHealth health errand).kind = some errand.kind := by
  cases errand with
  | _ => rfl

theorem errand_kind_ne_stop (errand : Errand) : errand.kind ≠ .stop := by
  cases errand with
  | _ => nofun

theorem poll_act {w : SessionWorld I} {i : I} {initialProgress deadline : Nat} {input : Input}
    (hkind : (w.threads i).kind = some .start) :
    Act w (.advance i input) (w.poll i initialProgress deadline input) := by
  have hwork : ∀ health stage, Stage.kind stage = some .start →
      Act w (.advance i input) ((w.markHealthy health).goto i stage) := by
    intro health stage hstage
    rw [w.markHealthy_eq]
    exact .work .start w.session _ stage hkind nofun hstage rfl (.inl rfl)
  rw [SessionWorld.poll]
  split
  · exact .finishStart w.session _ hkind rfl rfl (.inl rfl)
  · split
    · exact hwork _ _ rfl
    · split
      · exact hwork _ _ rfl
      · exact hwork _ _ rfl

theorem goto_same {w : SessionWorld I} {i : I} {stage : Stage} (h : w.threads i = stage) : w.goto i stage = w := by
  rw [SessionWorld.goto, ← h, Function.update_eq_self]

theorem await_act {w : SessionWorld I} {i : I} {errand : Errand} {deadline : Nat} {input : Input}
    (hthread : w.threads i = .awaiting errand deadline) :
    Act w (.advance i input) (w.await i errand deadline input) := by
  have hkind : (w.threads i).kind = some errand.kind := by rw [hthread]; rfl
  have hwork : ∀ stage, Stage.kind stage = some errand.kind →
      Act w (.advance i input) (w.goto i stage) := fun stage hstage =>
    .work errand.kind w.session w.worker stage hkind (errand_kind_ne_stop errand) hstage rfl (.inl rfl)
  rw [SessionWorld.await]
  split
  · exact hwork _ (kind_raise _ errand)
  · split
    · rw [w.markHealthy_eq]
      exact .work errand.kind w.session _ _ hkind (errand_kind_ne_stop errand) (kind_afterHealth _ errand)
        rfl (.inl rfl)
    · split
      · exact hwork _ (kind_raise _ errand)
      · have hsame := hwork (.awaiting errand deadline) rfl
        rwa [goto_same hthread] at hsame

theorem tryAttach_act {w : SessionWorld I} {i : I} {errand : Errand} {attempt : Nat} {input : Input}
    (hkind : (w.threads i).kind = some errand.kind) :
    Act w (.advance i input) (w.tryAttach limits i errand attempt input) := by
  have hwork : ∀ worker stage, Stage.kind stage = some errand.kind →
      Act w (.advance i input) ((w.hold worker).goto i stage) := fun worker stage hstage =>
    .work errand.kind w.session worker stage hkind (errand_kind_ne_stop errand) hstage rfl (.inl rfl)
  rw [SessionWorld.tryAttach]
  split
  · exact hwork _ _ rfl
  · rename_i error leaves hattach
    cases leaves with
    | false =>
      cases error with
      | protocolError code message => exact hwork w.worker _ rfl
      | exception => exact hwork w.worker _ (kind_raise _ errand)
    | true =>
      cases error with
      | protocolError code message => exact hwork _ _ rfl
      | exception => exact hwork _ _ (kind_raise _ errand)

theorem measure_act {w : SessionWorld I} {i : I} {input : Input}
    (hkind : (w.threads i).kind = some .capture) : Act w (.advance i input) (w.measure limits i input) := by
  have hwork : ∀ stage, Stage.kind stage = some .capture → Act w (.advance i input) (w.goto i stage) :=
    fun stage hstage => .work .capture w.session w.worker stage hkind nofun hstage rfl (.inl rfl)
  rw [SessionWorld.measure]
  split
  · exact hwork _ rfl
  · split
    · exact hwork _ rfl
    · exact hwork _ rfl

theorem start_ne_stop : Kind.start ≠ .stop := by decide

theorem capture_ne_stop : Kind.capture ≠ .stop := by decide

theorem advance_act {w w' : SessionWorld I} {i : I} {input : Input}
    (h : w.advance limits i input = some w') : Act w (.advance i input) w' := by
  rw [SessionWorld.advance] at h
  generalize hthread : w.threads i = stage at h
  have hkind : (w.threads i).kind = stage.kind := by rw [hthread]
  cases stage with
  | rest outcome => cases h
  | readying options =>
    cases h
    exact .work .start _ w.worker _ hkind start_ne_stop (kind_attach _ _ _ _) rfl (.inl rfl)
  | attaching errand attempt =>
    cases h
    exact tryAttach_act hkind
  | attached errand =>
    cases h
    exact .work errand.kind _ w.worker _ hkind (errand_kind_ne_stop errand) (kind_afterAttach _ _ errand) rfl
      (.inl rfl)
  | attachFailed errand attempt code message =>
    cases h
    refine .work errand.kind _ w.worker _ hkind (errand_kind_ne_stop errand) ?_ rfl (.inl rfl)
    split
    · exact kind_raise _ errand
    · rfl
  | attachDetaching errand attempt =>
    cases h
    exact .work errand.kind w.session none _ hkind (errand_kind_ne_stop errand) rfl rfl (.inl rfl)
  | attachRetrying errand attempt =>
    cases h
    exact .work errand.kind _ w.worker _ hkind (errand_kind_ne_stop errand) (kind_attach _ _ errand _) rfl
      (.inl rfl)
  | startFailing error =>
    cases h
    exact .finishStart _ _ hkind rfl rfl (.inr SessionPhase.noConfusion)
  | polling initialProgress deadline =>
    cases h
    exact poll_act hkind
  | timingOut progressAdvanced =>
    cases h
    exact .work .start w.session none _ hkind start_ne_stop rfl rfl (.inl rfl)
  | timedOut progressAdvanced =>
    cases h
    exact .finishStart _ _ hkind rfl rfl (.inr SessionPhase.noConfusion)
  | draining health =>
    cases h
    exact .finishStart _ _ hkind rfl rfl (.inr SessionPhase.noConfusion)
  | disconnecting options =>
    cases h
    exact .work .capture w.session none _ hkind capture_ne_stop rfl rfl (.inl rfl)
  | disconnected options =>
    cases h
    exact .work .capture _ w.worker _ hkind capture_ne_stop (kind_attach _ _ _ _) rfl (.inl rfl)
  | connected options =>
    cases h
    exact .work .capture _ w.worker _ hkind capture_ne_stop rfl rfl (.inr ⟨SessionPhase.noConfusion, SessionPhase.noConfusion⟩)
  | measuring options =>
    cases h
    exact measure_act hkind
  | validating result windowStarted =>
    cases h
    exact .work .capture _ w.worker _ hkind capture_ne_stop rfl rfl (.inr ⟨SessionPhase.noConfusion, SessionPhase.noConfusion⟩)
  | releasing result windowStarted =>
    cases h
    exact .work .capture w.session none _ hkind capture_ne_stop rfl rfl (.inl rfl)
  | released result windowStarted =>
    cases h
    exact .work .capture _ w.worker _ hkind capture_ne_stop (kind_attach _ _ _ _) rfl (.inr ⟨SessionPhase.noConfusion, SessionPhase.noConfusion⟩)
  | awaiting errand deadline =>
    cases h
    exact await_act hthread
  | reattached result windowStarted health =>
    cases h
    refine .finishCapture _ _ hkind rfl rfl SessionPhase.noConfusion fun _ => ?_
    rw [hthread]
    rfl
  | recovering error windowStarted =>
    cases h
    exact .work .capture w.session none _ hkind capture_ne_stop rfl rfl (.inl rfl)
  | restoring error windowStarted =>
    cases h
    exact .work .capture _ w.worker _ hkind capture_ne_stop (kind_attach _ _ _ _) rfl (.inr ⟨SessionPhase.noConfusion, SessionPhase.noConfusion⟩)
  | restored error windowStarted health =>
    cases h
    exact .work .capture _ w.worker _ hkind capture_ne_stop rfl rfl (.inl rfl)
  | unrestored error windowStarted =>
    cases h
    exact .work .capture _ w.worker _ hkind capture_ne_stop rfl rfl (.inl rfl)
  | failing error windowStarted back =>
    cases h
    refine .finishCapture _ _ hkind rfl rfl ?_ fun hdraining => ?_
    · cases back with
      | _ => exact SessionPhase.noConfusion
    · rw [hthread]
      cases back with
      | false => cases hdraining
      | true => rfl
  | stopWaiting deadline =>
    dsimp only at h
    split at h
    · rename_i hactive
      cases h
      exact .stopWait hthread hactive
    · rename_i hactive
      split at h
      · cases h
        exact .stopTimeout _ hthread rfl (Bool.eq_true_of_not_eq_false hactive)
      · cases h
  | stopDetaching =>
    cases h
    exact .stopDetach hthread
  | stopFinishing =>
    cases h
    exact .stopFinish _ hthread rfl

theorem perform_act {w w' : SessionWorld I} {step : SessionStep I} (h : w.perform limits step = some w') :
    Act w step w' := by
  cases step with
  | advance i input => exact advance_act h
  | start i options now =>
    rw [SessionWorld.perform] at h
    split at h
    · rename_i hresting
      have hkind := kind_of_resting hresting
      cases h
      rw [SessionWorld.callStart]
      split
      · exact .observe w.session w.worker _ hkind rfl rfl rfl rfl id
      · rename_i hphase
        exact .start hkind (not_not.mp hphase)
    · cases h
  | capture i options now =>
    rw [SessionWorld.perform] at h
    split at h
    · rename_i hresting
      have hkind := kind_of_resting hresting
      cases h
      rw [SessionWorld.callCapture]
      split
      · exact .observe w.session w.worker _ hkind rfl rfl rfl rfl id
      · rename_i hactive
        split
        · exact .observe w.session w.worker _ hkind rfl rfl rfl rfl id
        · rename_i hphase
          split
          · exact .observe w.session w.worker _ hkind rfl rfl rfl rfl id
          · exact .capture hkind (Bool.eq_false_of_not_eq_true hactive) (not_not.mp hphase)
    · cases h
  | status i input =>
    rw [SessionWorld.perform] at h
    split at h
    · rename_i hresting
      have hkind := kind_of_resting hresting
      cases h
      rw [SessionWorld.callStatus]
      split
      · split
        · exact .observe _ w.worker _ hkind rfl rfl rfl rfl id
        · dsimp only
          rw [SessionWorld.markHealthy_eq]
          exact .observe _ _ _ hkind rfl rfl rfl rfl
            fun hnone => SessionWorld.markHealthy_none (w := w.put _) _ hnone
      · exact .observe w.session w.worker _ hkind rfl rfl rfl rfl id
    · cases h
  | cancel i =>
    rw [SessionWorld.perform] at h
    split at h
    · rename_i hresting
      have hkind := kind_of_resting hresting
      cases h
      rw [SessionWorld.callCancel]
      split
      · exact .observe _ w.worker _ hkind rfl rfl rfl rfl id
      · exact .observe w.session w.worker _ hkind rfl rfl rfl rfl id
    · cases h
  | stop i now =>
    rw [SessionWorld.perform] at h
    split at h
    · rename_i hresting
      have hkind := kind_of_resting hresting
      cases h
      rw [SessionWorld.callStop]
      split
      · rename_i hphase
        exact .stopAgain _ hkind rfl hphase
      · rename_i hphase
        exact .stop _ hkind hphase
    · cases h

structure Settled (w : SessionWorld I) : Prop where
  active : ∀ i, (w.threads i).kind = some .capture → w.session.captureActive = true
  alone : ∀ i j, (w.threads i).kind = some .capture → (w.threads j).kind = some .capture → i = j
  begun : ∀ i, (w.threads i).kind = some .stop → w.stopping = true
  unstarted : w.stopping = true → ∀ i, (w.threads i).kind ≠ some .start
  undrained : w.stopping = true → w.session.status.phase ≠ .draining
  waited : ∀ i, (w.threads i).pastWait = true → w.session.captureActive = false
  detached : ∀ i, w.threads i = .stopFinishing → w.worker = none
  quiet : w.session.status.phase = .stopped →
    w.session.status.workerAttached = false ∧ w.worker = none ∧ w.session.captureActive = false ∧
      ∀ i, (w.threads i).kind ≠ some .start
  done : w.stopped = true → w.session.status.phase = .stopped

theorem forall_threads_goto {w : SessionWorld I} {i : I} {stage : Stage} {p : I → Stage → Prop}
    (hself : p i stage) (hrest : ∀ j, j ≠ i → p j (w.threads j)) (j : I) : p j ((w.goto i stage).threads j) := by
  rcases eq_or_ne j i with rfl | hne
  · rw [SessionWorld.goto_threads_self]
    exact hself
  · change p j (Function.update w.threads i stage j)
    rw [Function.update_of_ne hne]
    exact hrest j hne

theorem kind_of_goto {w : SessionWorld I} {i j : I} {stage : Stage} {kind : Kind}
    (hstage : stage.kind = none ∨ stage.kind = (w.threads i).kind)
    (h : ((w.goto i stage).threads j).kind = some kind) : (w.threads j).kind = some kind := by
  revert h
  apply forall_threads_goto (p := fun j stage => stage.kind = some kind → (w.threads j).kind = some kind)
  · intro h
    rcases hstage with hs | hs
    · rw [hs] at h
      cases h
    · rw [← hs]
      exact h
  · exact fun _ _ h => h

theorem kind_of_pastWait {stage : Stage} (h : stage.pastWait = true) : stage.kind = some .stop := by
  cases stage with
  | stopDetaching => rfl
  | stopFinishing => rfl
  | _ => cases h

theorem pastWait_of_goto {w : SessionWorld I} {i j : I} {stage : Stage} (hstage : stage.pastWait = false)
    (h : ((w.goto i stage).threads j).pastWait = true) : (w.threads j).pastWait = true := by
  revert h
  apply forall_threads_goto (p := fun j stage => stage.pastWait = true → (w.threads j).pastWait = true)
  · intro h
    rw [hstage] at h
    cases h
  · exact fun _ _ h => h

theorem pastWait_of_kind {stage : Stage} (h : stage.kind ≠ some .stop) : stage.pastWait = false := by
  cases stage with
  | stopDetaching => exact absurd rfl h
  | stopFinishing => exact absurd rfl h
  | _ => rfl

theorem finishing_of_goto {w : SessionWorld I} {i j : I} {stage : Stage} (hstage : stage ≠ .stopFinishing)
    (h : (w.goto i stage).threads j = .stopFinishing) : w.threads j = .stopFinishing := by
  revert h
  apply forall_threads_goto (p := fun j stage => stage = .stopFinishing → w.threads j = .stopFinishing)
  · exact fun h => absurd h hstage
  · exact fun _ _ h => h

omit [DecidableEq I] in
-- While a stop is past its wait, nothing else is under way that may attach a worker.
theorem Settled.unworked {w : SessionWorld I} (hw : Settled w) {i j : I} {kind : Kind}
    (hi : (w.threads i).kind = some kind) (hne : kind ≠ .stop) : (w.threads j).pastWait ≠ true := by
  intro hj
  have hactive := hw.waited j hj
  have hstopping := hw.begun j (kind_of_pastWait hj)
  cases kind with
  | start => exact hw.unstarted hstopping i hi
  | capture =>
    rw [hw.active i hi] at hactive
    cases hactive
  | stop => exact hne rfl

omit [DecidableEq I] in
theorem Settled.unstopped {w : SessionWorld I} (hw : Settled w) {i : I} {kind : Kind}
    (hi : (w.threads i).kind = some kind) (hne : kind ≠ .stop) : w.session.status.phase ≠ .stopped := by
  intro hphase
  obtain ⟨-, -, hidle, hnostart⟩ := hw.quiet hphase
  cases kind with
  | start => exact hnostart i hi
  | capture =>
    rw [hw.active i hi] at hidle
    cases hidle
  | stop => exact hne rfl

theorem ne_finishing_of_kind {stage : Stage} (h : stage.kind ≠ some .stop) : stage ≠ .stopFinishing := by
  rintro rfl
  exact h rfl

theorem settled_observe {w : SessionWorld I} (hw : Settled w) {i : I} {session : CollectorSession}
    {worker : Option Worker} {stage : Stage} (hstage : stage.kind = none)
    (hactive : session.captureActive = w.session.captureActive)
    (hphase : session.status.phase = w.session.status.phase)
    (hattached : session.status.workerAttached = w.session.status.workerAttached)
    (hworker : w.worker = none → worker = none) : Settled (changed w session worker i stage) where
  active j hj := by
    change session.captureActive = true
    rw [hactive]
    exact hw.active j (kind_of_goto (.inl hstage) hj)
  alone j k hj hk := hw.alone j k (kind_of_goto (.inl hstage) hj) (kind_of_goto (.inl hstage) hk)
  begun j hj := hw.begun j (kind_of_goto (.inl hstage) hj)
  unstarted hstopping j hj := hw.unstarted hstopping j (kind_of_goto (.inl hstage) hj)
  undrained hstopping := by
    change session.status.phase ≠ .draining
    rw [hphase]
    exact hw.undrained hstopping
  waited j hj := by
    change session.captureActive = false
    rw [hactive]
    exact hw.waited j (pastWait_of_goto (pastWait_of_kind (by rw [hstage]; nofun)) hj)
  detached j hj := hworker (hw.detached j (finishing_of_goto (ne_finishing_of_kind (by rw [hstage]; nofun)) hj))
  quiet hstopped := by
    obtain ⟨hnot, hnone, hidle, hnostart⟩ := hw.quiet (hphase.symm.trans hstopped)
    refine ⟨hattached.trans hnot, hworker hnone, hactive.trans hidle, ?_⟩
    exact fun j hj => hnostart j (kind_of_goto (.inl hstage) hj)
  done hstopped := hphase.trans (hw.done hstopped)

theorem settled_work {w : SessionWorld I} (hw : Settled w) {i : I} {kind : Kind} {session : CollectorSession}
    {worker : Option Worker} {stage : Stage} (hkind : (w.threads i).kind = some kind) (hne : kind ≠ .stop)
    (hstage : stage.kind = some kind) (hactive : session.captureActive = w.session.captureActive)
    (hphase : session.status.phase = w.session.status.phase ∨
      (session.status.phase ≠ .draining ∧ session.status.phase ≠ .stopped)) :
    Settled (changed w session worker i stage) where
  active j hj := by
    change session.captureActive = true
    rw [hactive]
    exact hw.active j (kind_of_goto (.inr (hstage.trans hkind.symm)) hj)
  alone j k hj hk := hw.alone j k (kind_of_goto (.inr (hstage.trans hkind.symm)) hj)
    (kind_of_goto (.inr (hstage.trans hkind.symm)) hk)
  begun j hj := hw.begun j (kind_of_goto (.inr (hstage.trans hkind.symm)) hj)
  unstarted hstopping j hj := hw.unstarted hstopping j (kind_of_goto (.inr (hstage.trans hkind.symm)) hj)
  undrained hstopping := by
    change session.status.phase ≠ .draining
    rcases hphase with hphase | hphase
    · rw [hphase]
      exact hw.undrained hstopping
    · exact hphase.1
  waited j hj := by
    have hnot : stage.kind ≠ some .stop := by
      rw [hstage]
      exact fun h => hne (Option.some.inj h)
    exact absurd (pastWait_of_goto (pastWait_of_kind hnot) hj) (hw.unworked hkind hne)
  detached j hj := by
    have hnot : stage.kind ≠ some .stop := by
      rw [hstage]
      exact fun h => hne (Option.some.inj h)
    have hthread := finishing_of_goto (ne_finishing_of_kind hnot) hj
    refine absurd ?_ (hw.unworked (j := j) hkind hne)
    rw [hthread]
    rfl
  quiet hstopped := by
    rcases hphase with hphase | hphase
    · exact absurd (hphase.symm.trans hstopped) (hw.unstopped hkind hne)
    · exact absurd hstopped hphase.2
  done hstopped := absurd (hw.done hstopped) (hw.unstopped hkind hne)

theorem settled_finishStart {w : SessionWorld I} (hw : Settled w) {i : I} {session : CollectorSession}
    {stage : Stage} (hkind : (w.threads i).kind = some .start) (hstage : stage.kind = none)
    (hactive : session.captureActive = w.session.captureActive)
    (hphase : session.status.phase = w.session.status.phase ∨ session.status.phase ≠ .stopped) :
    Settled (changed w session w.worker i stage) where
  active j hj := by
    change session.captureActive = true
    rw [hactive]
    exact hw.active j (kind_of_goto (.inl hstage) hj)
  alone j k hj hk := hw.alone j k (kind_of_goto (.inl hstage) hj) (kind_of_goto (.inl hstage) hk)
  begun j hj := hw.begun j (kind_of_goto (.inl hstage) hj)
  unstarted hstopping := absurd hkind (hw.unstarted hstopping i)
  undrained hstopping := absurd hkind (hw.unstarted hstopping i)
  waited j hj := absurd (pastWait_of_goto (pastWait_of_kind (by rw [hstage]; nofun)) hj)
    (hw.unworked hkind nofun)
  detached j hj := hw.detached j (finishing_of_goto (ne_finishing_of_kind (by rw [hstage]; nofun)) hj)
  quiet hstopped := by
    rcases hphase with hphase | hphase
    · exact absurd (hphase.symm.trans hstopped) (hw.unstopped hkind nofun)
    · exact absurd hstopped hphase
  done hstopped := absurd (hw.done hstopped) (hw.unstopped hkind nofun)

theorem settled_finishCapture {w : SessionWorld I} (hw : Settled w) {i : I} {session : CollectorSession}
    {stage : Stage} (hkind : (w.threads i).kind = some .capture) (hstage : stage.kind = none)
    (hactive : session.captureActive = false) (hphase : session.status.phase ≠ .stopped)
    (hrestores : session.status.phase = .draining → w.stopping = false) :
    Settled (changed w session w.worker i stage) where
  active j hj := by
    rcases eq_or_ne j i with rfl | hne
    · rw [changed, SessionWorld.goto_threads_self, hstage] at hj
      cases hj
    · exact absurd (hw.alone j i (kind_of_goto (.inl hstage) hj) hkind) hne
  alone j k hj hk := hw.alone j k (kind_of_goto (.inl hstage) hj) (kind_of_goto (.inl hstage) hk)
  begun j hj := hw.begun j (kind_of_goto (.inl hstage) hj)
  unstarted hstopping j hj := hw.unstarted hstopping j (kind_of_goto (.inl hstage) hj)
  undrained hstopping hdraining := by
    have htrue : w.stopping = true := hstopping
    rw [hrestores hdraining] at htrue
    cases htrue
  waited _ _ := hactive
  detached j hj := hw.detached j (finishing_of_goto (ne_finishing_of_kind (by rw [hstage]; nofun)) hj)
  quiet hstopped := absurd hstopped hphase
  done hstopped := absurd (hw.done hstopped) (hw.unstopped hkind nofun)

omit [DecidableEq I] in
theorem settled_new : Settled (SessionWorld.new I) where
  active _ := nofun
  alone _ _ := nofun
  begun _ := nofun
  unstarted _ _ := nofun
  undrained := nofun
  waited _ := nofun
  detached _ := nofun
  quiet _ := ⟨rfl, rfl, rfl, fun _ => nofun⟩
  done := nofun

theorem settled_step {w w' : SessionWorld I} {step : SessionStep I} (hw : Settled w)
    (halone : StopsAlone w step) (h : w.perform limits step = some w') : Settled w' := by
  cases perform_act h with
  | observe session worker stage hkind hstage hactive hphase hattached hworker =>
    exact settled_observe hw hstage hactive hphase hattached hworker
  | work kind session worker stage hkind hne hstage hactive hphase =>
    exact settled_work hw hkind hne hstage hactive hphase
  | finishStart session stage hkind hstage hactive hphase =>
    exact settled_finishStart hw hkind hstage hactive hphase
  | finishCapture session stage hkind hstage hactive hphase hrestores =>
    exact settled_finishCapture hw hkind hstage hactive hphase fun hdraining => halone (hrestores hdraining)
  | @start i options now hkind hphase =>
    have hnostop := halone hphase
    obtain ⟨-, -, hidle, -⟩ := hw.quiet hphase
    have hback : ∀ j kind, kind ≠ .start → ((({ w.put (w.session.admitStart now) with
        stopping := false, stopped := false } : SessionWorld I).goto i (.readying options)).threads j).kind =
          some kind → (w.threads j).kind = some kind := by
      intro j kind hne
      apply forall_threads_goto (p := fun j stage => stage.kind = some kind → (w.threads j).kind = some kind)
      · intro hstart
        exact absurd (Option.some.inj hstart).symm hne
      · exact fun _ _ hj => hj
    refine ⟨?_, ?_, ?_, nofun, nofun, fun _ _ => hidle, ?_, nofun, nofun⟩
    · intro j hj
      exact hw.active j (hback j .capture nofun hj)
    · intro j k hj hk
      exact hw.alone j k (hback j .capture nofun hj) (hback k .capture nofun hk)
    · intro j hj
      exact absurd (hback j .stop nofun hj) (hnostop j)
    · intro j hj
      refine absurd (hback j .stop nofun ?_) (hnostop j)
      rw [hj]
      rfl
  | @capture i options now hkind hidle hphase =>
    have hfree : w.stopping = false := by
      cases hstopping : w.stopping with
      | false => rfl
      | true => exact absurd hphase (hw.undrained hstopping)
    have hnocapture : ∀ j, (w.threads j).kind ≠ some .capture := by
      intro j hj
      rw [hw.active j hj] at hidle
      cases hidle
    have hback : ∀ j kind, kind ≠ .capture → (((w.put w.session.admitCapture).goto i
        (.disconnecting options)).threads j).kind = some kind → (w.threads j).kind = some kind := by
      intro j kind hne
      apply forall_threads_goto (p := fun j stage => stage.kind = some kind → (w.threads j).kind = some kind)
      · intro hcapture
        exact absurd (Option.some.inj hcapture).symm hne
      · exact fun _ _ hj => hj
    have honly : ∀ j, (((w.put w.session.admitCapture).goto i (.disconnecting options)).threads j).kind =
        some .capture → j = i := by
      apply forall_threads_goto (p := fun j stage => stage.kind = some .capture → j = i)
      · exact fun _ => rfl
      · exact fun j _ hj => absurd hj (hnocapture j)
    refine ⟨fun _ _ => rfl, ?_, ?_, ?_, nofun, ?_, ?_, nofun, ?_⟩
    · intro j k hj hk
      rw [honly j hj, honly k hk]
    · intro j hj
      exact hw.begun j (hback j .stop nofun hj)
    · intro hstopping j hj
      exact hw.unstarted hstopping j (hback j .start nofun hj)
    · intro j hj
      have hstopping := hw.begun j (hback j .stop nofun (kind_of_pastWait hj))
      rw [hfree] at hstopping
      cases hstopping
    · intro j hj
      apply hw.detached j
      refine finishing_of_goto ?_ hj
      nofun
    · intro hstopped
      have hphase' := hw.done hstopped
      rw [hphase] at hphase'
      cases hphase'
  | @stopAgain i now stage hkind hstage hphase =>
    have hobserved := settled_observe (i := i) hw hstage rfl rfl rfl (id : w.worker = none → w.worker = none)
    exact ⟨hobserved.active, hobserved.alone, hobserved.begun, hobserved.unstarted, hobserved.undrained,
      hobserved.waited, hobserved.detached, hobserved.quiet, fun _ => hphase⟩
  | @stop i now deadline hkind hphase =>
    have hnostart := halone hphase
    have hback : ∀ j kind, kind ≠ .stop → ((({ w.put w.session.admitStop with
        stopping := true } : SessionWorld I).goto i (if w.session.captureActive then .stopWaiting deadline
          else .stopDetaching)).threads j).kind = some kind → (w.threads j).kind = some kind := by
      intro j kind hne
      apply forall_threads_goto (p := fun j stage => stage.kind = some kind → (w.threads j).kind = some kind)
      · split
        · exact fun hstop => absurd (Option.some.inj hstop).symm hne
        · exact fun hstop => absurd (Option.some.inj hstop).symm hne
      · exact fun _ _ hj => hj
    refine ⟨?_, ?_, fun _ _ => rfl, ?_, nofun, ?_, ?_, nofun, ?_⟩
    · intro j hj
      exact hw.active j (hback j .capture nofun hj)
    · intro j k hj hk
      exact hw.alone j k (hback j .capture nofun hj) (hback k .capture nofun hk)
    · intro _ j hj
      exact hnostart j (hback j .start nofun hj)
    · apply forall_threads_goto (p := fun _ stage => stage.pastWait = true → w.session.captureActive = false)
      · split
        · nofun
        · rename_i hidle
          exact fun _ => Bool.eq_false_of_not_eq_true hidle
      · exact fun j _ => hw.waited j
    · intro j hj
      apply hw.detached j
      refine finishing_of_goto ?_ hj
      split
      · nofun
      · nofun
    · intro hstopped
      exact absurd (hw.done hstopped) hphase
  | @stopWait i input deadline hthread hidle =>
    have hkind : Stage.kind .stopDetaching = none ∨ Stage.kind .stopDetaching = (w.threads i).kind := by
      right
      rw [hthread]
      rfl
    refine ⟨?_, ?_, ?_, ?_, hw.undrained, fun _ _ => hidle, ?_, ?_, hw.done⟩
    · intro j hj
      exact hw.active j (kind_of_goto hkind hj)
    · intro j k hj hk
      exact hw.alone j k (kind_of_goto hkind hj) (kind_of_goto hkind hk)
    · intro j hj
      exact hw.begun j (kind_of_goto hkind hj)
    · intro hstopping j hj
      exact hw.unstarted hstopping j (kind_of_goto hkind hj)
    · intro j hj
      apply hw.detached j
      refine finishing_of_goto ?_ hj
      nofun
    · intro hstopped
      obtain ⟨hnot, hnone, hidle, hnostart⟩ := hw.quiet hstopped
      exact ⟨hnot, hnone, hidle, fun j hj => hnostart j (kind_of_goto hkind hj)⟩
  | @stopTimeout i input deadline stage hthread hstage hactive =>
    refine ⟨fun _ _ => hactive, ?_, ?_, ?_, nofun, ?_, ?_, nofun, ?_⟩
    · intro j k hj hk
      exact hw.alone j k (kind_of_goto (.inl hstage) hj) (kind_of_goto (.inl hstage) hk)
    · intro j hj
      exact hw.begun j (kind_of_goto (.inl hstage) hj)
    · intro hstopping j hj
      exact hw.unstarted hstopping j (kind_of_goto (.inl hstage) hj)
    · intro j hj
      exact hw.waited j (pastWait_of_goto (pastWait_of_kind (by rw [hstage]; nofun)) hj)
    · intro j hj
      exact hw.detached j (finishing_of_goto (ne_finishing_of_kind (by rw [hstage]; nofun)) hj)
    · intro hstopped
      obtain ⟨-, -, hidle, -⟩ := hw.quiet (hw.done hstopped)
      rw [hactive] at hidle
      cases hidle
  | @stopDetach i input hthread =>
    have hkind : Stage.kind .stopFinishing = none ∨ Stage.kind .stopFinishing = (w.threads i).kind := by
      right
      rw [hthread]
      rfl
    have hidle : w.session.captureActive = false := hw.waited i (by rw [hthread]; rfl)
    refine ⟨?_, ?_, ?_, ?_, hw.undrained, fun _ _ => hidle, fun _ _ => rfl, ?_, hw.done⟩
    · intro j hj
      exact hw.active j (kind_of_goto hkind hj)
    · intro j k hj hk
      exact hw.alone j k (kind_of_goto hkind hj) (kind_of_goto hkind hk)
    · intro j hj
      exact hw.begun j (kind_of_goto hkind hj)
    · intro hstopping j hj
      exact hw.unstarted hstopping j (kind_of_goto hkind hj)
    · intro hstopped
      obtain ⟨hnot, -, hidle, hnostart⟩ := hw.quiet hstopped
      exact ⟨hnot, rfl, hidle, fun j hj => hnostart j (kind_of_goto hkind hj)⟩
  | @stopFinish i input stage hthread hstage =>
    have hpast : (w.threads i).pastWait = true := by rw [hthread]; rfl
    have hstopping := hw.begun i (kind_of_pastWait hpast)
    have hidle := hw.waited i hpast
    have hnone := hw.detached i hthread
    refine ⟨?_, ?_, ?_, ?_, nofun, fun _ _ => hidle, fun _ _ => hnone, ?_, fun _ => rfl⟩
    · intro j hj
      exact hw.active j (kind_of_goto (.inl hstage) hj)
    · intro j k hj hk
      exact hw.alone j k (kind_of_goto (.inl hstage) hj) (kind_of_goto (.inl hstage) hk)
    · intro j hj
      exact hw.begun j (kind_of_goto (.inl hstage) hj)
    · intro _ j hj
      exact hw.unstarted hstopping j (kind_of_goto (.inl hstage) hj)
    · intro _
      exact ⟨rfl, hnone, hidle, fun j hj => hw.unstarted hstopping j (kind_of_goto (.inl hstage) hj)⟩

omit [DecidableEq I] in
theorem Settled.stopFinal {w : SessionWorld I} (hw : Settled w) : StopFinal w where
  stays hstopped := by
    have hphase := hw.done hstopped
    obtain ⟨hnot, hnone, -⟩ := hw.quiet hphase
    exact ⟨hphase, hnot, hnone⟩
  never := hw.undrained

theorem draining_of_admits {w : SessionWorld I} {step : SessionStep I} (h : AdmitsCapture limits w step) :
    w.session.status.phase = .draining := by
  cases step with
  | capture i options now =>
    obtain ⟨hidle, hactive⟩ := h
    rw [SessionWorld.callCapture, hidle, if_neg Bool.false_ne_true] at hactive
    split at hactive
    · rw [SessionWorld.goto_session, hidle] at hactive
      cases hactive
    · rename_i hphase
      exact not_not.mp hphase
  | _ => exact h.elim

theorem stop_final {trace : List (SessionWorld I × SessionStep I)} {w : SessionWorld I}
    (hrun : SessionWorld.Runs limits trace w) (halone : ∀ moment ∈ trace, StopsAlone moment.1 moment.2) :
    (∀ v ∈ visited trace w, StopFinal v) ∧
      ∀ moment ∈ trace, AdmitsCapture limits moment.1 moment.2 → moment.1.stopping = false := by
  have hsettled := hrun.guarded settled_new (fun _ _ _ hw hg h => settled_step hw hg h) halone
  constructor
  · intro v hv
    exact (hsettled v hv).stopFinal
  · intro moment hmoment hadmits
    cases hstopping : moment.1.stopping with
    | false => rfl
    | true =>
      have hundrained := (hsettled _ (mem_visited_of_mem hmoment)).undrained hstopping
      exact absurd (draining_of_admits hadmits) hundrained

def stopOnce {I : Type} (i : I) : List (SessionStep I) :=
  .stop i 0 :: (List.replicate 2 (answering 30)).map (.advance i)

def stoppedAfterCapture : SessionWorld Bool :=
  (replay (SessionWorld.perform .default) (started false ++ measuredOnce true ++ stopOnce false) (.new Bool)).2

theorem stop_final_after_capture : StopFinal stoppedAfterCapture ∧ stoppedAfterCapture.stopped = true ∧
    stoppedAfterCapture.session.status.captureCount = 1 :=
  ⟨(stop_final (Trace.replay (started false ++ measuredOnce true ++ stopOnce false)) (by decide)).1
    stoppedAfterCapture (last_mem_visited _ _), rfl, rfl⟩

-- The stop cancels a capture; its recovery puts the drain worker back while the stop still waits.
def cancelledInput : Input :=
  ⟨0, 20, .ok (some validHealth), .ok (), .error (.protocolError "capture_cancelled" "Capture was cancelled."), true⟩

def stopDuringCapture : List (SessionStep Bool) :=
  started false ++
    .capture true ⟨1000, 64⟩ 0 :: (List.replicate 5 (answering 20)).map (.advance true) ++
      .stop false 0 :: (List.replicate 8 cancelledInput).map (.advance true)

theorem stop_puts_worker_back : ∃ (trace : List (SessionWorld Bool × SessionStep Bool)) (w : SessionWorld Bool),
    SessionWorld.Runs .default trace w ∧ w.stopping = true ∧ w.session.status.phase = .draining ∧
      ¬ StopFinal w ∧ AdmitsCapture .default w (.capture true ⟨1000, 64⟩ 0) := by
  refine ⟨_, _, Trace.replay stopDuringCapture, rfl, rfl, ?_, rfl, rfl⟩
  intro h
  exact h.never rfl rfl

end Tracy
