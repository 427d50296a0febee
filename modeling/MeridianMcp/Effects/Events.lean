import MeridianMcp.Effects.FsProg

namespace Effects

variable {O : Type} {R : O → Type} {ε ε' α β σ : Type}

namespace Prog

def events (serve : (o : O) → σ → R o × σ) : Prog O R α → σ → List (Sigma R)
  | .ret _, _ => []
  | .call o k, s => ⟨o, (serve o s).1⟩ :: events serve (k (serve o s).1) (serve o s).2

theorem events_bind (serve : (o : O) → σ → R o × σ) (p : Prog O R α) (f : α → Prog O R β) (s : σ) :
    events serve (p >>= f) s =
      events serve p s ++ events serve (f (run serve p s).1) (run serve p s).2 := by
  induction p generalizing s with
  | ret a => rfl
  | call o k ih => exact congrArg (List.cons _) (ih _ _)

-- Whatever is answered, only allowed calls are made and the result is as stated.
def Ensures (allowed : O → Prop) (post : α → Prop) : Prog O R α → Prop
  | .ret a => post a
  | .call o k => allowed o ∧ ∀ r, Ensures allowed post (k r)

variable {allowed : O → Prop} {post : α → Prop} {post' : β → Prop}

theorem Ensures.bind {p : Prog O R α} {f : α → Prog O R β} (hp : Ensures allowed post p)
    (hf : ∀ a, post a → Ensures allowed post' (f a)) : Ensures allowed post' (p >>= f) := by
  induction p with
  | ret a => exact hf a hp
  | call o k ih => exact ⟨hp.1, fun r => ih r (hp.2 r)⟩

theorem Ensures.events {serve : (o : O) → σ → R o × σ} {p : Prog O R α} {s : σ}
    (hp : Ensures allowed post p) : ∀ e ∈ events serve p s, allowed e.1 := by
  induction p generalizing s with
  | ret a => simp [Prog.events]
  | call o k ih =>
    intro e he
    rcases List.mem_cons.mp he with rfl | he
    · exact hp.1
    · exact ih _ (hp.2 _) e he

end Prog

namespace Fallible

def events (serve : (o : O) → σ → R o × σ) (x : Fallible O R ε α) (s : σ) : List (Sigma R) :=
  Prog.events serve x.run s

theorem events_bind_ok {serve : (o : O) → σ → R o × σ} {x : Fallible O R ε α}
    {f : α → Fallible O R ε β} {s t : σ} {a : α} (h : exec serve x s = (.ok a, t)) :
    events serve (x >>= f) s = events serve x s ++ events serve (f a) t := by
  unfold exec at h
  rw [events, ExceptT.run_bind, Prog.events_bind, h]
  rfl

theorem events_bind_error {serve : (o : O) → σ → R o × σ} {x : Fallible O R ε α}
    {f : α → Fallible O R ε β} {s t : σ} {e : ε} (h : exec serve x s = (.error e, t)) :
    events serve (x >>= f) s = events serve x s := by
  unfold exec at h
  rw [events, ExceptT.run_bind, Prog.events_bind, h]
  exact List.append_nil _

theorem events_adapt (serve : (o : O) → σ → R o × σ) (f : ε → ε') (x : Fallible O R ε α) (s : σ) :
    events serve (adapt f x) s = events serve x s := by
  rw [events, adapt, ExceptT.run_mk, Prog.events_bind]
  exact List.append_nil _

theorem events_attempt (serve : (o : O) → σ → R o × σ) (x : Fallible O R ε α) (s : σ) :
    events serve (attempt x : Fallible O R ε' (Except ε α)) s = events serve x s := by
  rw [events, attempt, ExceptT.run_mk, Prog.events_bind]
  exact List.append_nil _

def Ensures (allowed : O → Prop) (post : α → Prop) (x : Fallible O R ε α) : Prop :=
  Prog.Ensures allowed (fun r => ∀ a, r = .ok a → post a) x.run

section Ensures

variable {allowed : O → Prop} {post : α → Prop} {post' : β → Prop} {x : Fallible O R ε α}

theorem Ensures.pure {a : α} (h : post a) : Ensures allowed post (pure a : Fallible O R ε α) := by
  rintro b ⟨⟩
  exact h

theorem Ensures.throw (e : ε) : Ensures allowed post (throw e : Fallible O R ε α) := nofun

theorem Ensures.bind {f : α → Fallible O R ε β} (hx : Ensures allowed post x)
    (hf : ∀ a, post a → Ensures allowed post' (f a)) : Ensures allowed post' (x >>= f) := by
  unfold Ensures
  rw [ExceptT.run_bind]
  refine Prog.Ensures.bind hx fun r hr => ?_
  cases r with
  | ok a => exact hf a (hr a rfl)
  | error e => exact nofun

theorem Ensures.adapt (f : ε → ε') (hx : Ensures allowed post x) :
    Ensures allowed post (Fallible.adapt f x) := by
  refine Prog.Ensures.bind hx fun r hr => ?_
  cases r with
  | ok a =>
    rintro b ⟨⟩
    exact hr a rfl
  | error e => exact nofun

theorem Ensures.attempt (hx : Ensures allowed post x) :
    Ensures allowed (fun r => ∀ a, r = .ok a → post a)
      (Fallible.attempt x : Fallible O R ε' (Except ε α)) := by
  refine Prog.Ensures.bind hx fun r hr => ?_
  rintro b ⟨⟩
  exact hr

theorem Ensures.onError {y : Fallible O R ε' β} (hx : Ensures allowed post x)
    (hy : Ensures allowed post' y) : Ensures allowed post (Fallible.onError x y) := by
  refine hx.attempt.bind fun r hr => ?_
  cases r with
  | ok a => exact .pure (hr a rfl)
  | error e => exact hy.attempt.bind fun _ _ => .throw e

theorem Ensures.ite {c : Prop} [Decidable c] {y : Fallible O R ε α} (hx : Ensures allowed post x)
    (hy : Ensures allowed post y) : Ensures allowed post (if c then x else y) := by
  split
  · exact hx
  · exact hy

theorem Ensures.events {serve : (o : O) → σ → R o × σ} {s : σ} (hx : Ensures allowed post x) :
    ∀ e ∈ events serve x s, allowed e.1 :=
  Prog.Ensures.events hx

end Ensures

end Fallible

-- The entries of directories that an operation makes, moves or takes away when it succeeds.
def FsOp.entries {N : Type} : FsOp N → List (Path N)
  | .createNew p => [p]
  | .createDirAll p => p.inits
  | .rename p q => [p, q]
  | .remove p => [p]
  | _ => []

def touched {S N : Type} [DecidableEq N] (event : Sigma fun c : Call S N => Answer c) :
    List (Path N) :=
  if event.2.isOk then event.1.op.entries else []

theorem FsProg.events_act {S N : Type} [DecidableEq N] (env : Env S) (c : Call S N)
    (fs : FileSystem N) : Fallible.events env.serve (FsProg.act c) fs = [⟨c, (env.serve c fs).1⟩] := by
  rw [Fallible.events, FsProg.run_act]
  rfl

theorem FsProg.ensures_act {S N : Type} [DecidableEq N] {allowed : Call S N → Prop} {c : Call S N}
    (h : allowed c) : Fallible.Ensures allowed (fun _ => True) (FsProg.act c) := by
  unfold Fallible.Ensures
  rw [FsProg.run_act]
  exact ⟨h, fun _ _ _ => trivial⟩

end Effects
