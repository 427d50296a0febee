import MeridianMcp.Tracy.Capture

namespace Tracy

open MeridianMcp Effects

-- The window for which a call occupies the experiment's capture slot.
def Call.held : Call → Option Window
  | .begun window _ _ => some window
  | .invoked window _ _ _ => some window
  | _ => none

def Call.inProgress : Call → Bool
  | .idle => false
  | .returned _ _ _ => false
  | .leaked _ => false
  | _ => true

def Call.passing : Call → Bool
  | .begun _ _ _ => false
  | .invoked _ _ _ _ => false
  | .returned _ _ _ => false
  | .leaked _ => false
  | _ => true

theorem Call.held_of_passing {call : Call} (h : call.passing = true) : call.held = none := by
  cases call with
  | begun => cases h
  | invoked => cases h
  | _ => rfl

-- The launch under whose ledger a call gave its started window back.
def Call.settled : Call → Option (Window × Nat)
  | .concluding window true launch => some (window, launch)
  | .returned window true (some launch) => some (window, launch)
  | _ => none

theorem Call.inProgress_of_held {call : Call} {window : Window} (h : call.held = some window) :
    call.inProgress = true := by
  cases call with
  | begun => rfl
  | invoked => rfl
  | idle => cases h
  | admitted => cases h
  | collected => cases h
  | ported => cases h
  | prepared => cases h
  | concluding => cases h
  | returned => cases h
  | leaked => cases h

variable {I : Type} [DecidableEq I]

namespace World

theorem goto_calls (w : World I) (i : I) (call : Call) : (w.goto i call).calls = Function.update w.calls i call :=
  rfl

@[simp] theorem goto_capture (w : World I) (i : I) (call : Call) : (w.goto i call).capture = w.capture := rfl

@[simp] theorem goto_launches (w : World I) (i : I) (call : Call) : (w.goto i call).launches = w.launches := rfl

@[simp] theorem goto_asks (w : World I) (i : I) (call : Call) : (w.goto i call).asks = w.asks := rfl

@[simp] theorem goto_calls_self (w : World I) (i : I) (call : Call) : (w.goto i call).calls i = call := by
  rw [goto_calls, Function.update_self]

theorem goto_calls_of_ne (w : World I) {i j : I} (call : Call) (h : j ≠ i) :
    (w.goto i call).calls j = w.calls j := by
  rw [goto_calls, Function.update_of_ne h]

end World

structure SlotReleased (w : World I) : Prop where
  finished : ∀ i window, w.calls i ≠ .leaked window
  released : (∀ i, (w.calls i).inProgress = false) → w.capture.active = false
  recorded : ∀ i window, (w.calls i).settled = some (window, w.launches) → window ∈ w.capture.usedPhases

-- A call that is about to finish read a port, and an answer to a window that started says so.
def Call.Accounted : Call → Prop
  | .invoked _ port invocation started =>
    port ≠ none ∧ (started = true → reportsStarted invocation = true)
  | _ => True

instance : DecidablePred Call.Accounted
  | .invoked _ port invocation started =>
    inferInstanceAs (Decidable (port ≠ none ∧ (started = true → reportsStarted invocation = true)))
  | .idle | .admitted _ | .collected _ _ | .ported _ _ _ | .prepared _ _ _ | .begun _ _ _ |
    .concluding _ _ _ | .returned _ _ _ | .leaked _ => .isTrue trivial

def Step.finishes : Step I → Option I
  | .finish i => some i
  | _ => none

def Settles (w : World I) (step : Step I) : Prop := ∀ i ∈ step.finishes, (w.calls i).Accounted

instance (w : World I) (step : Step I) : Decidable (Settles w step) :=
  inferInstanceAs (Decidable (∀ i ∈ step.finishes, (w.calls i).Accounted))

def releasing (w : World I) (i : I) (window : Window) (invocation : Invocation) (started : Bool) : World I :=
  { w with capture := finished window invocation w.capture }.goto i (.concluding window started w.launches)

-- What a step can do to the capture slot, the ledger and the questions put to collectors.
inductive Move (w : World I) : Step I → World I → Prop
  | outside {step} (hstep : ∀ i, step ≠ .finish i) (runtime phase collector experiment) :
      Move w step { w with
        runtime := runtime
        capture := { w.capture with phase := phase, collector := collector, experiment := experiment } }
  | clear {step} (hstep : ∀ i, step ≠ .finish i) (experiment) :
      Move w step { w with
        capture := { w.capture with usedPhases := ∅, experiment := experiment }
        launches := w.launches + 1 }
  | pass {step i} (hstep : ∀ i, step ≠ .finish i) (call : Call) (hcall : (w.calls i).passing = true) (hheld : call.held = none)
      (hleaked : ∀ window, call ≠ .leaked window)
      (hsettled : call.settled = none ∨ call.settled = (w.calls i).settled) :
      Move w step (w.goto i call)
  | take {i window collector port} (hcall : w.calls i = .prepared window collector port)
      (hactive : w.capture.active = false) (hunused : window ∉ w.capture.usedPhases) :
      Move w (.begin i)
        ({ w with capture := { w.capture with active := true, phase := some .captureActive } }.goto i
          (.begun window collector port))
  | ask {i window collector port} (invocation : Invocation) (started : Bool)
      (hcall : w.calls i = .begun window collector port) :
      Move w (.invoke i invocation started)
        ({ w with asks := w.asks ++ [Ask.mk collector window started] }.goto i
          (.invoked window port invocation started))
  | leak {i window invocation started} (hcall : w.calls i = .invoked window none invocation started) :
      Move w (.finish i) (w.goto i (.leaked window))
  | release {i window port invocation started}
      (hcall : w.calls i = .invoked window (some port) invocation started) :
      Move w (.finish i) (releasing w i window invocation started)

theorem beginCapture_ok {window : Window} {state state' : TracyCaptureState}
    (h : state.beginCapture window = .ok state') :
    state.active = false ∧ window ∉ state.usedPhases ∧ state' = { state with active := true } := by
  rw [TracyCaptureState.beginCapture] at h
  split at h
  · cases h
  · rename_i hactive
    split at h
    · cases h
    · rename_i hused
      cases h
      exact ⟨by simpa using hactive, hused, rfl⟩

theorem perform_move {w w' : World I} {step : Step I} (h : w.perform step = some w') : Move w step w' := by
  cases step with
  | enter i window =>
    rw [World.perform] at h
    split at h
    · cases h
    · rename_i hidle
      have hidle' : w.calls i = .idle := by simpa using hidle
      have hpassing : (w.calls i).passing = true := by rw [hidle']; rfl
      split at h
      all_goals
        cases h
        exact .pass nofun _ hpassing rfl nofun (.inl rfl)
  | takeCollector i =>
    simp only [World.perform] at h
    split at h
    · rename_i window hcall
      have hpassing : (w.calls i).passing = true := by rw [hcall]; rfl
      split at h
      all_goals
        cases h
        exact .pass nofun _ hpassing rfl nofun (.inl rfl)
    · cases h
  | readPort i =>
    simp only [World.perform] at h
    split at h
    · rename_i window collector hcall
      have hpassing : (w.calls i).passing = true := by rw [hcall]; rfl
      cases h
      exact .pass nofun _ hpassing rfl nofun (.inl rfl)
    · cases h
  | prepare i ok =>
    simp only [World.perform] at h
    split at h
    · rename_i window collector port hcall
      have hpassing : (w.calls i).passing = true := by rw [hcall]; rfl
      split at h
      all_goals
        cases h
        exact .pass nofun _ hpassing rfl nofun (.inl rfl)
    · cases h
  | begin i =>
    simp only [World.perform] at h
    split at h
    · rename_i window collector port hcall
      have hpassing : (w.calls i).passing = true := by rw [hcall]; rfl
      split at h
      · cases h
        exact .pass nofun _ hpassing rfl nofun (.inl rfl)
      · rename_i capture hbegin
        obtain ⟨hactive, hunused, rfl⟩ := beginCapture_ok hbegin
        cases h
        exact .take hcall hactive hunused
    · cases h
  | invoke i invocation started =>
    simp only [World.perform] at h
    split at h
    · rename_i window collector port hcall
      cases h
      exact .ask invocation started hcall
    · cases h
  | finish i =>
    simp only [World.perform] at h
    split at h
    · rename_i window invocation started hcall
      cases h
      exact .leak hcall
    · rename_i window port invocation started hcall
      cases h
      exact .release hcall
    · cases h
  | conclude i =>
    simp only [World.perform] at h
    split at h
    · rename_i window started launch hcall
      have hpassing : (w.calls i).passing = true := by rw [hcall]; rfl
      cases h
      refine .pass nofun _ hpassing rfl nofun (.inr ?_)
      rw [hcall]
      cases started <;> rfl
    · cases h
  | exit =>
    cases h
    exact .outside nofun _ _ _ _
  | stop cleanupConfirmed =>
    cases h
    exact .outside nofun _ _ _ _
  | observeStopped =>
    cases h
    exact .outside nofun _ _ _ _
  | clearExperiment =>
    rw [World.perform] at h
    split at h
    · cases h
    · cases h
      exact .clear nofun _
  | runtimeUp kind port =>
    rw [World.perform] at h
    split at h
    · cases h
    · cases h
      exact .outside nofun _ _ _ _
  | collectorUp =>
    cases h
    exact .outside nofun _ _ _ _
  | experimentUp =>
    cases h
    exact .outside nofun _ _ _ _

structure Exclusive (w : World I) : Prop where
  unique : ∀ i j a b, (w.calls i).held = some a → (w.calls j).held = some b → i = j
  active : ∀ i a, (w.calls i).held = some a → w.capture.active = true
  unused : ∀ i a, (w.calls i).held = some a → a ∉ w.capture.usedPhases
  bounded : ∀ i a n, (w.calls i).settled = some (a, n) → n ≤ w.launches

structure Owned (w : World I) : Prop where
  finished : ∀ i window, w.calls i ≠ .leaked window
  owner : w.capture.active = true → ∃ i a, (w.calls i).held = some a
  recorded : ∀ i window, (w.calls i).settled = some (window, w.launches) → window ∈ w.capture.usedPhases

-- A fact about every call survives the move of one of them.
theorem forall_goto {w : World I} {i : I} {call : Call} {p : I → Call → Prop} (hself : p i call)
    (hrest : ∀ j, j ≠ i → p j (w.calls j)) (j : I) : p j ((w.goto i call).calls j) := by
  rcases eq_or_ne j i with rfl | hne
  · rw [World.goto_calls_self]
    exact hself
  · rw [World.goto_calls_of_ne w call hne]
    exact hrest j hne

theorem held_of_goto {w : World I} {i j : I} {call : Call} {a : Window} (hcall : call.held = none)
    (h : ((w.goto i call).calls j).held = some a) : j ≠ i ∧ (w.calls j).held = some a := by
  rcases eq_or_ne j i with rfl | hne
  · rw [World.goto_calls_self, hcall] at h
    cases h
  · rw [World.goto_calls_of_ne w call hne] at h
    exact ⟨hne, h⟩

omit [DecidableEq I] in
theorem exclusive_new : Exclusive (World.new I) where
  unique _ _ _ _ h := by cases h
  active _ _ h := by cases h
  unused _ _ h := by cases h
  bounded _ _ _ h := by cases h

theorem exclusive_step {w w' : World I} {step : Step I} (hw : Exclusive w) (h : w.perform step = some w') :
    Exclusive w' := by
  cases perform_move h with
  | outside => exact ⟨hw.unique, hw.active, hw.unused, hw.bounded⟩
  | clear =>
    refine ⟨hw.unique, hw.active, fun _ _ _ => Finset.notMem_empty _, ?_⟩
    intro j a n hj
    exact Nat.le_succ_of_le (hw.bounded j a n hj)
  | @pass _ i hstep call hcall hheld hleaked hsettled =>
    refine ⟨?_, ?_, ?_, ?_⟩
    · intro j k a b hj hk
      exact hw.unique j k a b (held_of_goto hheld hj).2 (held_of_goto hheld hk).2
    · intro j a hj
      exact hw.active j a (held_of_goto hheld hj).2
    · intro j a hj
      exact hw.unused j a (held_of_goto hheld hj).2
    · apply forall_goto (p := fun _ call => ∀ a n, call.settled = some (a, n) → n ≤ w.launches)
      · intro a n hn
        rcases hsettled with hs | hs
        · rw [hs] at hn
          cases hn
        · rw [hs] at hn
          exact hw.bounded i a n hn
      · exact fun j _ => hw.bounded j
  | @take i window collector port hcall hactive hunused =>
    have hfree : ∀ j a, (w.calls j).held ≠ some a := by
      intro j a hj
      rw [hw.active j a hj] at hactive
      cases hactive
    refine ⟨?_, fun _ _ _ => rfl, ?_, ?_⟩
    · intro j k a b hj hk
      rcases eq_or_ne j i with rfl | hji
      · rcases eq_or_ne k j with rfl | hkj
        · rfl
        · rw [World.goto_calls_of_ne _ _ hkj] at hk
          exact absurd hk (hfree k b)
      · rw [World.goto_calls_of_ne _ _ hji] at hj
        exact absurd hj (hfree j a)
    · apply forall_goto (p := fun _ call => ∀ a, call.held = some a → a ∉ w.capture.usedPhases)
      · intro a ha
        cases ha
        exact hunused
      · exact fun j _ a hj => absurd hj (hfree j a)
    · apply forall_goto (p := fun _ call => ∀ a n, call.settled = some (a, n) → n ≤ w.launches)
      · nofun
      · exact fun j _ => hw.bounded j
  | @ask i window collector port invocation started hcall =>
    have hi : (w.calls i).held = some window := by rw [hcall]; rfl
    have hback : ∀ j a, (({ w with asks := w.asks ++ [Ask.mk collector window started] }.goto i
        (.invoked window port invocation started)).calls j).held = some a →
          (w.calls j).held = some a := by
      apply forall_goto (p := fun j call => ∀ a, call.held = some a → (w.calls j).held = some a)
      · intro a ha
        cases ha
        exact hi
      · exact fun j _ a hj => hj
    refine ⟨?_, ?_, ?_, ?_⟩
    · intro j k a b hj hk
      exact hw.unique j k a b (hback j a hj) (hback k b hk)
    · intro j a hj
      exact hw.active j a (hback j a hj)
    · intro j a hj
      exact hw.unused j a (hback j a hj)
    · apply forall_goto (p := fun _ call => ∀ a n, call.settled = some (a, n) → n ≤ w.launches)
      · nofun
      · exact fun j _ => hw.bounded j
  | @leak i window invocation started hcall =>
    refine ⟨?_, ?_, ?_, ?_⟩
    · intro j k a b hj hk
      exact hw.unique j k a b (held_of_goto rfl hj).2 (held_of_goto rfl hk).2
    · intro j a hj
      exact hw.active j a (held_of_goto rfl hj).2
    · intro j a hj
      exact hw.unused j a (held_of_goto rfl hj).2
    · apply forall_goto (p := fun _ call => ∀ a n, call.settled = some (a, n) → n ≤ w.launches)
      · nofun
      · exact fun j _ => hw.bounded j
  | @release i window port invocation started hcall =>
    have hi : (w.calls i).held = some window := by rw [hcall]; rfl
    -- The slot is given back, so no other call may hold it.
    have hnone : ∀ j a, ((releasing w i window invocation started).calls j).held ≠ some a := by
      intro j a hj
      obtain ⟨hne, hj⟩ := held_of_goto rfl hj
      exact hne (hw.unique j i a window hj hi)
    refine ⟨?_, ?_, ?_, ?_⟩
    · intro j _ a _ hj _
      exact absurd hj (hnone j a)
    · intro j a hj
      exact absurd hj (hnone j a)
    · intro j a hj
      exact absurd hj (hnone j a)
    · apply forall_goto (p := fun _ call => ∀ a n, call.settled = some (a, n) → n ≤ w.launches)
      · intro a n hn
        cases started with
        | false => cases hn
        | true =>
          cases hn
          exact Nat.le_refl _
      · exact fun j _ => hw.bounded j

omit [DecidableEq I] in
theorem owned_new : Owned (World.new I) where
  finished _ _ := nofun
  owner := nofun
  recorded _ _ h := by cases h

theorem mem_finished {window : Window} {invocation : Invocation} {state : TracyCaptureState} {a : Window} :
    a ∈ (finished window invocation state).usedPhases ↔
      a ∈ state.usedPhases ∨ (reportsStarted invocation = true ∧ a = window) := by
  simp only [finished, TracyCaptureState.finishCapture]
  split
  · rename_i h
    simp [h, or_comm]
  · rename_i h
    simp [h]

theorem owned_step {w w' : World I} {step : Step I} (he : Exclusive w) (hw : Owned w)
    (hsettles : Settles w step) (h : w.perform step = some w') : Owned w' := by
  cases perform_move h with
  | outside => exact ⟨hw.finished, hw.owner, hw.recorded⟩
  | clear =>
    refine ⟨hw.finished, hw.owner, ?_⟩
    intro j a hj
    exact absurd (he.bounded j a _ hj) (Nat.not_succ_le_self _)
  | @pass _ i hstep call hcall hheld hleaked hsettled =>
    refine ⟨?_, ?_, ?_⟩
    · exact forall_goto (p := fun _ call => ∀ window, call ≠ .leaked window) hleaked fun j _ => hw.finished j
    · intro hactive
      obtain ⟨j, a, hj⟩ := hw.owner hactive
      have hne : j ≠ i := by
        rintro rfl
        rw [Call.held_of_passing hcall] at hj
        cases hj
      refine ⟨j, a, ?_⟩
      rw [World.goto_calls_of_ne w call hne]
      exact hj
    · apply forall_goto (p := fun _ call => ∀ window, call.settled = some (window, w.launches) →
        window ∈ w.capture.usedPhases)
      · intro a ha
        rcases hsettled with hs | hs
        · rw [hs] at ha
          cases ha
        · rw [hs] at ha
          exact hw.recorded i a ha
      · exact fun j _ => hw.recorded j
  | @take i window collector port hcall hactive hunused =>
    refine ⟨?_, ?_, ?_⟩
    · exact forall_goto (p := fun _ call => ∀ window, call ≠ .leaked window) nofun fun j _ => hw.finished j
    · intro _
      refine ⟨i, window, ?_⟩
      rw [World.goto_calls_self]
      rfl
    · exact forall_goto (p := fun _ call => ∀ window, call.settled = some (window, w.launches) →
        window ∈ w.capture.usedPhases) nofun fun j _ => hw.recorded j
  | @ask i window collector port invocation started hcall =>
    refine ⟨?_, ?_, ?_⟩
    · exact forall_goto (p := fun _ call => ∀ window, call ≠ .leaked window) nofun fun j _ => hw.finished j
    · intro _
      refine ⟨i, window, ?_⟩
      rw [World.goto_calls_self]
      rfl
    · exact forall_goto (p := fun _ call => ∀ window, call.settled = some (window, w.launches) →
        window ∈ w.capture.usedPhases) nofun fun j _ => hw.recorded j
  | @leak i window invocation started hcall =>
    have haccounted := hsettles i rfl
    rw [hcall] at haccounted
    exact absurd rfl haccounted.1
  | @release i window port invocation started hcall =>
    have haccounted := hsettles i rfl
    rw [hcall] at haccounted
    have hreports := haccounted.2
    refine ⟨?_, nofun, ?_⟩
    · exact forall_goto (p := fun _ call => ∀ window, call ≠ .leaked window) nofun fun j _ => hw.finished j
    · apply forall_goto (p := fun _ call => ∀ a, call.settled = some (a, w.launches) →
        a ∈ (finished window invocation w.capture).usedPhases)
      · intro a ha
        cases started with
        | false => cases ha
        | true =>
          cases ha
          exact mem_finished.mpr (.inr ⟨hreports rfl, rfl⟩)
      · exact fun j _ a hj => mem_finished.mpr (.inl (hw.recorded j a hj))

omit [DecidableEq I] in
theorem Owned.slotReleased {w : World I} (hw : Owned w) : SlotReleased w where
  finished := hw.finished
  released hidle := by
    cases hactive : w.capture.active with
    | false => rfl
    | true =>
      obtain ⟨i, a, hi⟩ := hw.owner hactive
      have hrunning := Call.inProgress_of_held hi
      rw [hidle i] at hrunning
      cases hrunning
  recorded := hw.recorded

omit [DecidableEq I] in
theorem settles_of_ne {w : World I} {step : Step I} (h : ∀ i, step ≠ .finish i) : Settles w step := by
  intro i hi
  cases step with
  | finish i => exact absurd rfl (h i)
  | _ => cases hi

theorem unsettled_spoils {w w' : World I} {step : Step I} (he : Exclusive w)
    (h : w.perform step = some w') (hsettles : ¬ Settles w step) : ¬ SlotReleased w' := by
  intro hreleased
  cases perform_move h with
  | @leak i window invocation started hcall =>
    apply hreleased.finished i window
    rw [World.goto_calls_self]
  | @release i window port invocation started hcall =>
    apply hsettles
    rintro j ⟨rfl⟩
    rw [hcall]
    refine ⟨nofun, ?_⟩
    rintro rfl
    have hrecorded : window ∈ (finished window invocation w.capture).usedPhases := by
      apply hreleased.recorded i window
      rw [releasing, World.goto_calls_self]
      rfl
    have hunused : window ∉ w.capture.usedPhases := he.unused i window (by rw [hcall]; rfl)
    exact (mem_finished.mp hrecorded).elim (fun hw => absurd hw hunused) And.left
  | take => exact hsettles nofun
  | ask => exact hsettles nofun
  | outside hstep => exact hsettles (settles_of_ne hstep)
  | clear hstep => exact hsettles (settles_of_ne hstep)
  | pass hstep => exact hsettles (settles_of_ne hstep)

theorem slot_released_iff {trace : List (World I × Step I)} {w : World I} (hrun : World.Runs trace w) :
    (∀ v ∈ visited trace w, SlotReleased v) ↔ ∀ moment ∈ trace, Settles moment.1 moment.2 :=
  hrun.holds_iff_guarded exclusive_new (fun _ _ _ hw h => exclusive_step hw h) owned_new
    (fun _ _ _ he hw hg h => owned_step he hw hg h) (fun _ _ hw => hw.slotReleased)
    (fun _ _ _ he h hg => unsettled_spoils he h hg)

def firstWindow : Window := ⟨['a'], 1⟩

def launchSchedule : List (Step Unit) :=
  [.clearExperiment, .runtimeUp .tracy (some 8086), .collectorUp, .experimentUp]

def captureSchedule (invocation : Invocation) (started : Bool) : List (Step Unit) :=
  [.enter () firstWindow, .takeCollector (), .readPort (), .prepare () true, .begin (),
    .invoke () invocation started, .finish (), .conclude ()]

def measured : List (World Unit × Step Unit) × World Unit :=
  replay World.perform (launchSchedule ++ captureSchedule (.ok ()) true) (World.new Unit)

theorem slot_released_iff_measured : SlotReleased measured.2 ∧ measured.2.calls () = .returned firstWindow true (some 1) :=
  ⟨(slot_released_iff (Trace.replay (launchSchedule ++ captureSchedule (.ok ()) true))).mpr (by decide)
    measured.2 (last_mem_visited _ _), rfl⟩

-- The game exits between the admission check and the read of its port.
def exitSchedule : List (Step Unit) :=
  [.enter () firstWindow, .exit, .takeCollector (), .readPort (), .prepare () true, .begin (),
    .invoke () (.ok ()) true, .finish ()]

theorem exit_leaks_slot : ∃ (trace : List (World Unit × Step Unit)) (w : World Unit), World.Runs trace w ∧
    w.calls () = .leaked firstWindow ∧ w.capture.active = true ∧ ¬ SlotReleased w := by
  refine ⟨_, _, Trace.replay (launchSchedule ++ exitSchedule), rfl, rfl, ?_⟩
  intro h
  exact h.finished () firstWindow rfl

end Tracy
