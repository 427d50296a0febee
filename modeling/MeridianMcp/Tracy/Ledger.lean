import MeridianMcp.Tracy.Slot

namespace Tracy

open MeridianMcp Effects

-- A window that has been asked for and is not in the ledger yet.
def Call.pending : Call → Option Window
  | .invoked window _ _ true => some window
  | .leaked window => some window
  | _ => none

def Call.ready : Call → Option (Window × Nat)
  | .prepared window collector _ => some (window, collector)
  | _ => none

def Call.Reported : Call → Prop
  | .invoked _ _ invocation started => started = true → reportsStarted invocation = true
  | _ => True

instance : DecidablePred Call.Reported
  | .invoked _ _ invocation started =>
    inferInstanceAs (Decidable (started = true → reportsStarted invocation = true))
  | .idle | .admitted _ | .collected _ _ | .ported _ _ _ | .prepared _ _ _ | .begun _ _ _ |
    .concluding _ _ _ | .returned _ _ _ | .leaked _ => .isTrue trivial

variable {I : Type} [DecidableEq I]

def Step.begins : Step I → Option I
  | .begin i => some i
  | _ => none

-- A call that `beginCapture` will not refuse comes in a phase other than recovery, and with the
-- collector of the launch that the ledger belongs to.
def Admissible (w : World I) (i : I) : Prop :=
  ∀ ready ∈ (w.calls i).ready, w.capture.active = true ∨ ready.1 ∈ w.capture.usedPhases ∨
    (w.capture.phase ≠ some .recoveryRequired ∧ ready.2 = w.launches)

instance (w : World I) (i : I) : Decidable (Admissible w i) :=
  inferInstanceAs (Decidable (∀ ready ∈ (w.calls i).ready, w.capture.active = true ∨
    ready.1 ∈ w.capture.usedPhases ∨ (w.capture.phase ≠ some .recoveryRequired ∧ ready.2 = w.launches)))

def Keeps (w : World I) (step : Step I) : Prop :=
  (∀ i ∈ step.begins, Admissible w i) ∧ ∀ i ∈ step.finishes, (w.calls i).Reported

instance (w : World I) (step : Step I) : Decidable (Keeps w step) :=
  inferInstanceAs (Decidable ((∀ i ∈ step.begins, Admissible w i) ∧ ∀ i ∈ step.finishes, (w.calls i).Reported))

def OncePerWindow (w : World I) : Prop :=
  w.asks.Pairwise fun earlier later =>
    earlier.collector = later.collector → earlier.window = later.window → earlier.started = false

def Admitted (w : World I) (step : Step I) : Prop :=
  ∃ i ∈ step.begins, ∃ ready ∈ (w.calls i).ready, (w.capture.beginCapture ready.1).isOk = true

structure Ledger (w : World I) : Prop where
  bounded : ∀ ask ∈ w.asks, ask.collector ≤ w.launches
  begun : ∀ i window collector port, w.calls i = .begun window collector port →
    collector ≤ w.launches ∧
      ∀ ask ∈ w.asks, ask.collector = collector → ask.window = window → ask.started = false
  known : ∀ ask ∈ w.asks, ask.started = true → ask.collector = w.launches →
    ask.window ∈ w.capture.usedPhases ∨ ∃ i, (w.calls i).pending = some ask.window
  stuck : ∀ i window, w.calls i = .leaked window →
    w.capture.active = true ∧ ∀ j, (w.calls j).held = none
  once : OncePerWindow w

omit [DecidableEq I] in
theorem ledger_new : Ledger (World.new I) where
  bounded := nofun
  begun _ _ _ _ := nofun
  known := nofun
  stuck _ _ := nofun
  once := List.Pairwise.nil

theorem held_of_pending {call : Call} {window : Window} (h : call.pending = some window)
    (hleaked : ∀ a, call ≠ .leaked a) : call.held = some window := by
  cases call with
  | invoked a port invocation started =>
    cases started with
    | false => cases h
    | true => exact h
  | leaked a => exact absurd rfl (hleaked a)
  | _ => cases h

theorem pending_of_passing {call : Call} (h : call.passing = true) : call.pending = none := by
  cases call with
  | invoked => cases h
  | leaked => cases h
  | _ => rfl

theorem begun_held {call : Call} {window : Window} {collector : Nat} {port : Option Nat}
    (h : call = .begun window collector port) : call.held = some window := by
  rw [h]
  rfl

theorem pending_of_goto {w : World I} {i j : I} {call : Call} {window : Window}
    (hi : (w.calls i).pending = none ∨ call.pending = (w.calls i).pending)
    (h : (w.calls j).pending = some window) : ((w.goto i call).calls j).pending = some window := by
  rcases eq_or_ne j i with rfl | hne
  · rw [World.goto_calls_self]
    rcases hi with hi | hi
    · rw [hi] at h
      cases h
    · rw [hi]
      exact h
  · rw [World.goto_calls_of_ne w call hne]
    exact h

theorem ne_leaked_goto {w : World I} {i : I} {call : Call} (hcall : ∀ a, call ≠ .leaked a)
    (hfree : ∀ j a, w.calls j ≠ .leaked a) : ∀ j a, (w.goto i call).calls j ≠ .leaked a :=
  forall_goto (p := fun _ call => ∀ a, call ≠ .leaked a) hcall fun j _ => hfree j

theorem ledger_step {w w' : World I} {step : Step I} (he : Exclusive w) (hw : Ledger w)
    (hkeeps : Keeps w step) (h : w.perform step = some w') : Ledger w' := by
  cases perform_move h with
  | outside => exact ⟨hw.bounded, hw.begun, hw.known, hw.stuck, hw.once⟩
  | clear =>
    refine ⟨?_, ?_, ?_, hw.stuck, hw.once⟩
    · intro ask hask
      exact Nat.le_succ_of_le (hw.bounded ask hask)
    · intro i window collector port hi
      obtain ⟨hle, hasks⟩ := hw.begun i window collector port hi
      exact ⟨Nat.le_succ_of_le hle, hasks⟩
    · intro ask hask _ hlaunch
      have hle := hw.bounded ask hask
      rw [hlaunch] at hle
      exact absurd hle (Nat.not_succ_le_self _)
  | @pass _ i hstep call hcall hheld hleaked hsettled =>
    have hnew : ∀ window collector port, call ≠ .begun window collector port := by
      rintro window collector port rfl
      cases hheld
    refine ⟨hw.bounded, ?_, ?_, ?_, hw.once⟩
    · apply forall_goto (p := fun _ call => ∀ window collector port,
        call = .begun window collector port → collector ≤ w.launches ∧
          ∀ ask ∈ w.asks, ask.collector = collector → ask.window = window → ask.started = false)
      · intro window collector port hbegun
        exact absurd hbegun (hnew window collector port)
      · exact fun j _ => hw.begun j
    · intro ask hask hstarted hlaunch
      rcases hw.known ask hask hstarted hlaunch with hused | ⟨j, hj⟩
      · exact .inl hused
      · exact .inr ⟨j, pending_of_goto (.inl (pending_of_passing hcall)) hj⟩
    · intro j window hj
      have hne : j ≠ i := by
        rintro rfl
        rw [World.goto_calls_self] at hj
        exact hleaked window hj
      rw [World.goto_calls_of_ne w call hne] at hj
      obtain ⟨hactive, hnone⟩ := hw.stuck j window hj
      refine ⟨hactive, ?_⟩
      exact forall_goto (p := fun _ call => call.held = none) hheld fun k _ => hnone k
  | @take i window collector port hcall hactive hunused =>
    have hready : (w.calls i).ready = some (window, collector) := by rw [hcall]; rfl
    obtain rfl : collector = w.launches := by
      rcases hkeeps.1 i rfl (window, collector) hready with h | h | h
      · rw [hactive] at h
        cases h
      · exact absurd h hunused
      · exact h.2
    have hfree : ∀ j a, w.calls j ≠ .leaked a := by
      intro j a hj
      rw [(hw.stuck j a hj).1] at hactive
      cases hactive
    have hidle : ∀ j, (w.calls j).pending = none := by
      intro j
      cases hj : (w.calls j).pending with
      | none => rfl
      | some a =>
        rw [he.active j a (held_of_pending hj (hfree j))] at hactive
        cases hactive
    refine ⟨hw.bounded, ?_, ?_, ?_, hw.once⟩
    · apply forall_goto (p := fun _ call => ∀ a c p, call = .begun a c p → c ≤ w.launches ∧
        ∀ ask ∈ w.asks, ask.collector = c → ask.window = a → ask.started = false)
      · rintro a c p ⟨rfl⟩
        refine ⟨Nat.le_refl _, ?_⟩
        rintro ask hask hcollector rfl
        cases hstarted : ask.started with
        | false => rfl
        | true =>
          rcases hw.known ask hask hstarted hcollector with hused | ⟨j, hj⟩
          · exact absurd hused hunused
          · rw [hidle j] at hj
            cases hj
      · exact fun j _ => hw.begun j
    · intro ask hask hstarted hlaunch
      rcases hw.known ask hask hstarted hlaunch with hused | ⟨j, hj⟩
      · exact .inl hused
      · rw [hidle j] at hj
        cases hj
    · intro j a hj
      refine absurd hj (ne_leaked_goto ?_ hfree j a)
      nofun
  | @ask i window collector port invocation started hcall =>
    have hi : (w.calls i).held = some window := begun_held hcall
    obtain ⟨hle, hfresh⟩ := hw.begun i window collector port hcall
    have hfree : ∀ j a, w.calls j ≠ .leaked a := by
      intro j a hj
      rw [(hw.stuck j a hj).2 i] at hi
      cases hi
    refine ⟨?_, ?_, ?_, ?_, ?_⟩
    · intro ask hask
      rcases List.mem_append.mp hask with hask | hask
      · exact hw.bounded ask hask
      · obtain rfl := List.mem_singleton.mp hask
        exact hle
    · apply forall_goto (p := fun _ call => ∀ a c p, call = .begun a c p → c ≤ w.launches ∧
        ∀ ask ∈ w.asks ++ [Ask.mk collector window started],
          ask.collector = c → ask.window = a → ask.started = false)
      · nofun
      · intro j hne a c p hj
        exact absurd (he.unique j i a window (begun_held hj) hi) hne
    · intro ask hask hstarted hlaunch
      rcases List.mem_append.mp hask with hask | hask
      · rcases hw.known ask hask hstarted hlaunch with hused | ⟨j, hj⟩
        · exact .inl hused
        · refine .inr ⟨j, pending_of_goto (.inl ?_) hj⟩
          rw [hcall]
          rfl
      · obtain rfl := List.mem_singleton.mp hask
        obtain rfl : started = true := hstarted
        refine .inr ⟨i, ?_⟩
        rw [World.goto_calls_self]
        rfl
    · intro j a hj
      refine absurd hj (ne_leaked_goto ?_ hfree j a)
      nofun
    · refine List.pairwise_append.mpr ⟨hw.once, List.pairwise_singleton _ _, ?_⟩
      intro ask hask new hnew hcollector hwindow
      obtain rfl := List.mem_singleton.mp hnew
      exact hfresh ask hask hcollector hwindow
  | @leak i window invocation started hcall =>
    have hi : (w.calls i).held = some window := by rw [hcall]; rfl
    refine ⟨hw.bounded, ?_, ?_, ?_, hw.once⟩
    · exact forall_goto (p := fun _ call => ∀ a c p, call = .begun a c p → c ≤ w.launches ∧
        ∀ ask ∈ w.asks, ask.collector = c → ask.window = a → ask.started = false) nofun
        fun j _ => hw.begun j
    · intro ask hask hstarted hlaunch
      rcases hw.known ask hask hstarted hlaunch with hused | ⟨j, hj⟩
      · exact .inl hused
      · rcases eq_or_ne j i with rfl | hne
        · refine .inr ⟨j, ?_⟩
          rw [World.goto_calls_self]
          rw [hcall] at hj
          cases started with
          | false => cases hj
          | true => exact hj
        · refine .inr ⟨j, ?_⟩
          rw [World.goto_calls_of_ne w _ hne]
          exact hj
    · intro j a _
      refine ⟨he.active i window hi, ?_⟩
      apply forall_goto (p := fun _ call => call.held = none)
      · rfl
      · intro k hne
        cases hk : (w.calls k).held with
        | none => rfl
        | some b => exact absurd (he.unique k i b window hk hi) hne
  | @release i window port invocation started hcall =>
    have hi : (w.calls i).held = some window := by rw [hcall]; rfl
    have hreported := hkeeps.2 i rfl
    rw [hcall] at hreported
    have hfree : ∀ j a, w.calls j ≠ .leaked a := by
      intro j a hj
      rw [(hw.stuck j a hj).2 i] at hi
      cases hi
    refine ⟨hw.bounded, ?_, ?_, ?_, hw.once⟩
    · exact forall_goto (p := fun _ call => ∀ a c p, call = .begun a c p → c ≤ w.launches ∧
        ∀ ask ∈ w.asks, ask.collector = c → ask.window = a → ask.started = false) nofun
        fun j _ => hw.begun j
    · intro ask hask hstarted hlaunch
      left
      apply mem_finished.mpr
      rcases hw.known ask hask hstarted hlaunch with hused | ⟨j, hj⟩
      · exact .inl hused
      · obtain rfl := he.unique j i _ window (held_of_pending hj (hfree j)) hi
        rw [hcall] at hj
        cases started with
        | false => cases hj
        | true =>
          cases hj
          exact .inr ⟨hreported rfl, rfl⟩
    · intro j a hj
      refine absurd hj (ne_leaked_goto ?_ hfree j a)
      nofun

theorem beginCapture_isOk {window : Window} {state : TracyCaptureState} :
    (state.beginCapture window).isOk = true ↔ state.active = false ∧ window ∉ state.usedPhases := by
  rw [TracyCaptureState.beginCapture]
  split
  · rename_i hactive
    simp [hactive, Except.isOk, Except.toBool]
  · rename_i hactive
    split
    · rename_i hused
      simp [hused, Except.isOk, Except.toBool]
    · rename_i hunused
      simpa [Except.isOk, Except.toBool, hunused] using hactive

omit [DecidableEq I] in
theorem Keeps.gated {w : World I} {step : Step I} (hkeeps : Keeps w step) (hadmitted : Admitted w step) :
    w.capture.phase ≠ some .recoveryRequired := by
  obtain ⟨i, hi, ready, hready, hok⟩ := hadmitted
  obtain ⟨hactive, hunused⟩ := beginCapture_isOk.mp hok
  rcases hkeeps.1 i hi ready hready with h | h | h
  · rw [hactive] at h
    cases h
  · exact absurd h hunused
  · exact h.1

def twoWindows : List (Step Unit) :=
  launchSchedule ++ captureSchedule (.ok ()) true

-- The request times out after the window has started; the same window is asked for again.
def retrySchedule : List (Step Bool) :=
  [.clearExperiment, .runtimeUp .tracy (some 8086), .collectorUp, .experimentUp,
    .enter false firstWindow, .takeCollector false, .readPort false, .prepare false true, .begin false,
    .invoke false (.error (.timeout 1)) true, .finish false, .conclude false,
    .enter true firstWindow, .takeCollector true, .readPort true, .prepare true true, .begin true,
    .invoke true (.ok ()) true]

end Tracy
