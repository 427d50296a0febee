import Mathlib.Logic.Basic

namespace Effects

-- A computation on a state that may fail, and then leaves the state as far as it has changed it.
def Attempt (W ε α : Type) := W → Except ε α × W

namespace Attempt

variable {W ε α β : Type}

def andThen (m : Attempt W ε α) (f : α → Attempt W ε β) : Attempt W ε β := fun w =>
  match m w with
  | (.ok a, w) => f a w
  | (.error e, w) => (.error e, w)

instance attempt_monad : Monad (Attempt W ε) where
  pure a w := (.ok a, w)
  bind := andThen

def reads (f : W → α) : Attempt W ε α := fun w => (.ok (f w), w)

def change (f : W → W) : Attempt W ε Unit := fun w => (.ok (), f w)

def lift (result : Except ε α) : Attempt W ε α := fun w => (result, w)

-- What a caller does that goes on whatever the result.
def caught (m : Attempt W ε α) : Attempt W ε (Except ε α) := fun w => (.ok (m w).1, (m w).2)

-- From a state with `pre`, a value comes with `post`, and an error with `fail`.
def Spec (pre : W → Prop) (m : Attempt W ε α) (post : α → W → Prop) (fail : W → Prop) : Prop :=
  ∀ w, pre w → (∀ a w', m w = (.ok a, w') → post a w') ∧ ∀ e w', m w = (.error e, w') → fail w'

variable {pre : W → Prop} {m : Attempt W ε α} {post : α → W → Prop} {fail : W → Prop}

theorem Spec.pure {a : α} (h : ∀ w, pre w → post a w) : Spec pre (Pure.pure a : Attempt W ε α) post fail := by
  intro w hw
  refine ⟨?_, ?_⟩
  · intro b w' heq
    cases heq
    exact h w hw
  · intro e w' heq
    cases heq

theorem Spec.bind {f : α → Attempt W ε β} {post : β → W → Prop} (mid : α → W → Prop)
    (hm : Spec pre m mid fail) (hf : ∀ a, Spec (mid a) (f a) post fail) : Spec pre (m >>= f) post fail := by
  intro w hw
  have hbind : (m >>= f) w = andThen m f w := rfl
  obtain ⟨hok, herror⟩ := hm w hw
  rw [hbind, andThen]
  split
  · rename_i a v hrun
    exact hf a v (hok a v hrun)
  · rename_i e v hrun
    refine ⟨?_, ?_⟩
    · intro b w' heq
      cases heq
    · intro e' w' heq
      cases heq
      exact herror e v hrun

theorem Spec.reads {f : W → β} {next : β → Attempt W ε α}
    (h : ∀ b, Spec (fun w => pre w ∧ f w = b) (next b) post fail) :
    Spec pre (Attempt.reads f >>= next) post fail := by
  intro w hw
  exact h (f w) w ⟨hw, rfl⟩

theorem Spec.change {f : W → W} {post : Unit → W → Prop} (h : ∀ w, pre w → post () (f w)) :
    Spec pre (Attempt.change f : Attempt W ε Unit) post fail := by
  intro w hw
  refine ⟨?_, ?_⟩
  · intro a w' heq
    cases heq
    exact h w hw
  · intro e w' heq
    cases heq

theorem Spec.lift {result : Except ε α} (hok : ∀ a w, result = .ok a → pre w → post a w)
    (herror : ∀ e w, result = .error e → pre w → fail w) : Spec pre (Attempt.lift result) post fail := by
  intro w hw
  refine ⟨?_, ?_⟩
  · intro a w' heq
    obtain ⟨hresult, rfl⟩ := Prod.mk.inj heq
    exact hok a _ hresult hw
  · intro e w' heq
    obtain ⟨hresult, rfl⟩ := Prod.mk.inj heq
    exact herror e _ hresult hw

-- What holds of every state that the computation leaves, with or without a value.
theorem Spec.leaves {post : W → Prop} (hm : Spec pre m (fun _ => post) post) {w : W} (hw : pre w) :
    post (m w).2 := by
  cases hrun : m w with
  | mk result v =>
    cases result with
    | ok a => exact (hm w hw).1 a v hrun
    | error e => exact (hm w hw).2 e v hrun

theorem Spec.caught {post : W → Prop} (hm : Spec pre m (fun _ => post) post) :
    Spec pre (Attempt.caught m) (fun _ => post) fail := by
  intro w hw
  refine ⟨?_, ?_⟩
  · intro result w' heq
    cases heq
    exact hm.leaves hw
  · intro e w' heq
    cases heq

theorem Spec.ofEach {X : Type} {pre : X → W → Prop} (h : ∀ x, Spec (pre x) m post fail) :
    Spec (fun w => ∃ x, pre x w) m post fail := by
  rintro w ⟨x, hw⟩
  exact h x w hw

theorem Spec.weaken {pre' : W → Prop} {post' : α → W → Prop} {fail' : W → Prop} (hm : Spec pre m post fail)
    (hpre : ∀ w, pre' w → pre w) (hpost : ∀ a w, post a w → post' a w) (hfail : ∀ w, fail w → fail' w) :
    Spec pre' m post' fail' := by
  intro w hw
  obtain ⟨hok, herror⟩ := hm w (hpre w hw)
  exact ⟨fun a w' h => hpost a w' (hok a w' h), fun e w' h => hfail w' (herror e w' h)⟩

end Attempt

end Effects
