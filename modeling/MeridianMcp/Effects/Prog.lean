import Mathlib.Logic.Relation
import Mathlib.Data.Set.Basic

namespace Effects

inductive Prog (O : Type) (R : O → Type) (α : Type) where
  | ret (a : α)
  | call (o : O) (k : R o → Prog O R α)

namespace Prog

variable {O : Type} {R : O → Type} {α β γ σ : Type}

def bind : Prog O R α → (α → Prog O R β) → Prog O R β
  | .ret a, f => f a
  | .call o k, f => .call o (fun r => (k r).bind f)

instance : Monad (Prog O R) where
  pure := .ret
  bind := bind

@[simp] theorem pure_eq (a : α) : (pure a : Prog O R α) = .ret a := rfl

@[simp] theorem ret_bind (a : α) (f : α → Prog O R β) : (Prog.ret a >>= f) = f a := rfl

@[simp] theorem call_bind (o : O) (k : R o → Prog O R α) (f : α → Prog O R β) :
    (Prog.call o k >>= f) = .call o (fun r => k r >>= f) := rfl

theorem bind_ret (p : Prog O R α) : p >>= Prog.ret = p := by
  induction p with
  | ret a => rfl
  | call o k ih => simp only [call_bind, ih]

theorem bind_assoc (p : Prog O R α) (f : α → Prog O R β) (g : β → Prog O R γ) :
    p >>= f >>= g = p >>= fun a => f a >>= g := by
  induction p with
  | ret a => rfl
  | call o k ih => simp only [call_bind, ih]

instance : LawfulMonad (Prog O R) :=
  LawfulMonad.mk' _ bind_ret (fun _ _ => rfl) bind_assoc

def run (serve : (o : O) → σ → R o × σ) : Prog O R α → σ → α × σ
  | .ret a, s => (a, s)
  | .call o k, s => run serve (k (serve o s).1) (serve o s).2

theorem run_bind (serve : (o : O) → σ → R o × σ) (p : Prog O R α) (f : α → Prog O R β) (s : σ) :
    run serve (p >>= f) s = run serve (f (run serve p s).1) (run serve p s).2 := by
  induction p generalizing s with
  | ret a => rfl
  | call o k ih => exact ih _ _

def trace (serve : (o : O) → σ → R o × σ) : Prog O R α → σ → List O
  | .ret _, _ => []
  | .call o k, s => o :: trace serve (k (serve o s).1) (serve o s).2

theorem trace_bind (serve : (o : O) → σ → R o × σ) (p : Prog O R α) (f : α → Prog O R β) (s : σ) :
    trace serve (p >>= f) s =
      trace serve p s ++ trace serve (f (run serve p s).1) (run serve p s).2 := by
  induction p generalizing s with
  | ret a => rfl
  | call o k ih => exact congrArg (List.cons o) (ih _ _)

def result : Prog O R α → Option α
  | .ret a => some a
  | .call _ _ => none

def Within (allowed : O → Prop) : Prog O R α → Prop
  | .ret _ => True
  | .call o k => allowed o ∧ ∀ r, Within allowed (k r)

theorem Within.bind {allowed : O → Prop} {p : Prog O R α} {f : α → Prog O R β}
    (hp : Within allowed p) (hf : ∀ a, Within allowed (f a)) : Within allowed (p >>= f) := by
  induction p with
  | ret a => exact hf a
  | call o k ih => exact ⟨hp.1, fun r => ih r (hp.2 r)⟩

end Prog

abbrev Fallible (O : Type) (R : O → Type) (ε : Type) : Type → Type := ExceptT ε (Prog O R)

namespace Fallible

variable {O : Type} {R : O → Type} {ε ε' α β γ σ : Type}

def ask (o : O) : Fallible O R ε (R o) := ExceptT.mk (.call o (fun r => .ret (.ok r)))

def attempt (x : Fallible O R ε α) : Fallible O R ε' (Except ε α) :=
  ExceptT.mk (x.run >>= fun r => .ret (.ok r))

def adapt (f : ε → ε') (x : Fallible O R ε α) : Fallible O R ε' α :=
  ExceptT.mk (x.run >>= fun r => .ret (r.mapError f))

def onError (x : Fallible O R ε α) (y : Fallible O R ε' β) : Fallible O R ε α := do
  match ← attempt x with
  | .ok a => pure a
  | .error e =>
    let _ ← attempt y
    throw e

def Within (allowed : O → Prop) (x : Fallible O R ε α) : Prop := Prog.Within allowed x.run

section Within

variable {allowed : O → Prop} {x : Fallible O R ε α}

theorem Within.pure (a : α) : Within allowed (pure a : Fallible O R ε α) := trivial

theorem Within.throw (e : ε) : Within allowed (throw e : Fallible O R ε α) := trivial

theorem Within.ask {o : O} (h : allowed o) : Within allowed (ask o : Fallible O R ε (R o)) :=
  ⟨h, fun _ => trivial⟩

theorem Within.bind {f : α → Fallible O R ε β} (hx : Within allowed x)
    (hf : ∀ a, Within allowed (f a)) : Within allowed (x >>= f) := by
  unfold Within
  rw [ExceptT.run_bind]
  refine Prog.Within.bind hx fun r => ?_
  cases r with
  | ok a => exact hf a
  | error e => trivial

theorem Within.adapt (f : ε → ε') (hx : Within allowed x) : Within allowed (adapt f x) :=
  Prog.Within.bind hx fun _ => trivial

theorem Within.attempt (hx : Within allowed x) :
    Within allowed (attempt x : Fallible O R ε' (Except ε α)) :=
  Prog.Within.bind hx fun _ => trivial

theorem Within.onError {y : Fallible O R ε' β} (hx : Within allowed x) (hy : Within allowed y) :
    Within allowed (onError x y) := by
  refine hx.attempt.bind fun r => ?_
  cases r with
  | ok a => exact .pure a
  | error e => exact hy.attempt.bind fun _ => .throw e

theorem Within.ite {c : Prop} [Decidable c] {y : Fallible O R ε α} (hx : Within allowed x)
    (hy : Within allowed y) : Within allowed (if c then x else y) := by
  split
  · exact hx
  · exact hy

end Within

def exec (serve : (o : O) → σ → R o × σ) (x : Fallible O R ε α) (s : σ) : Except ε α × σ :=
  Prog.run serve x.run s

variable (serve : (o : O) → σ → R o × σ)

@[simp] theorem exec_pure (a : α) (s : σ) :
    exec serve (pure a : Fallible O R ε α) s = (.ok a, s) := rfl

@[simp] theorem exec_throw (e : ε) (s : σ) :
    exec serve (throw e : Fallible O R ε α) s = (.error e, s) := rfl

@[simp] theorem exec_ask (o : O) (s : σ) :
    exec serve (ask o : Fallible O R ε (R o)) s = (.ok (serve o s).1, (serve o s).2) := rfl

@[simp] theorem exec_attempt (x : Fallible O R ε α) (s : σ) :
    exec serve (attempt x : Fallible O R ε' (Except ε α)) s =
      (.ok (exec serve x s).1, (exec serve x s).2) := by
  simp only [exec, attempt, ExceptT.run_mk, Prog.run_bind]
  rfl

@[simp] theorem exec_adapt (f : ε → ε') (x : Fallible O R ε α) (s : σ) :
    exec serve (adapt f x) s = ((exec serve x s).1.mapError f, (exec serve x s).2) := by
  simp only [exec, adapt, ExceptT.run_mk, Prog.run_bind]
  rfl

theorem exec_bind (x : Fallible O R ε α) (f : α → Fallible O R ε β) (s : σ) :
    exec serve (x >>= f) s =
      match exec serve x s with
      | (.ok a, t) => exec serve (f a) t
      | (.error e, t) => (.error e, t) := by
  simp only [exec, ExceptT.run_bind, Prog.run_bind]
  rcases Prog.run serve x.run s with ⟨r, t⟩
  cases r <;> rfl

theorem exec_bind_ok {x : Fallible O R ε α} {f : α → Fallible O R ε β} {s t : σ} {a : α}
    (h : exec serve x s = (.ok a, t)) : exec serve (x >>= f) s = exec serve (f a) t := by
  rw [exec_bind, h]

theorem exec_bind_error {x : Fallible O R ε α} {f : α → Fallible O R ε β} {s t : σ} {e : ε}
    (h : exec serve x s = (.error e, t)) : exec serve (x >>= f) s = (.error e, t) := by
  rw [exec_bind, h]

theorem exec_onError (x : Fallible O R ε α) (y : Fallible O R ε' β) (s : σ) :
    exec serve (onError x y) s =
      match exec serve x s with
      | (.ok a, t) => (.ok a, t)
      | (.error e, t) => (.error e, (exec serve y t).2) := by
  rw [onError, exec_bind_ok serve (exec_attempt serve x s)]
  rcases exec serve x s with ⟨r, t⟩
  cases r with
  | ok a => rfl
  | error e => exact exec_bind_ok serve (exec_attempt serve y t)

/- An action settles when it either succeeds, exactly under `P`, or fails in a state that `K`
still accepts. -/
def Settles (x : Fallible O R ε α) (s : σ) (P : Prop) (a : α) (t : σ) (K : σ → Prop) : Prop :=
  (P → exec serve x s = (.ok a, t)) ∧ (¬ P → ∃ e u, exec serve x s = (.error e, u) ∧ K u)

variable {serve} {x : Fallible O R ε α} {s t u : σ} {P Q : Prop} {a : α} {b : β} {K L : σ → Prop}

theorem Settles.pure (a : α) : Settles serve (pure a : Fallible O R ε α) s True a s K :=
  ⟨fun _ => rfl, fun h => absurd trivial h⟩

theorem Settles.throw {e : ε} (hs : K s) :
    Settles serve (throw e : Fallible O R ε α) s False a t K :=
  ⟨False.elim, fun _ => ⟨e, s, rfl, hs⟩⟩

theorem Settles.fails (h : Settles serve x s P a t K) (hP : ¬ P) : Settles serve x s False a t K :=
  ⟨False.elim, fun _ => h.2 hP⟩

theorem Settles.congr (h : Settles serve x s P a t K) (hPQ : P ↔ Q) : Settles serve x s Q a t K :=
  ⟨fun hQ => h.1 (hPQ.mpr hQ), fun hQ => h.2 (fun hP => hQ (hPQ.mp hP))⟩

theorem Settles.mono (h : Settles serve x s P a t K) (hKL : ¬ P → ∀ u, K u → L u) :
    Settles serve x s P a t L := by
  refine ⟨h.1, fun hP => ?_⟩
  obtain ⟨e, u, he, hu⟩ := h.2 hP
  exact ⟨e, u, he, hKL hP u hu⟩

theorem Settles.adapt (f : ε → ε') (h : Settles serve x s P a t K) :
    Settles serve (Fallible.adapt f x) s P a t K := by
  constructor
  · intro hP
    rw [exec_adapt, h.1 hP]
    rfl
  · intro hP
    obtain ⟨e, u, he, hu⟩ := h.2 hP
    refine ⟨f e, u, ?_, hu⟩
    rw [exec_adapt, he]
    rfl

theorem Settles.bind {f : α → Fallible O R ε β} (hx : Settles serve x s P a t K)
    (hf : P → Settles serve (f a) t Q b u K) : Settles serve (x >>= f) s (P ∧ Q) b u K := by
  constructor
  · rintro ⟨hP, hQ⟩
    rw [exec_bind_ok serve (hx.1 hP)]
    exact (hf hP).1 hQ
  · intro hPQ
    by_cases hP : P
    · rw [exec_bind_ok serve (hx.1 hP)]
      exact (hf hP).2 (fun hQ => hPQ ⟨hP, hQ⟩)
    · obtain ⟨e, v, he, hv⟩ := hx.2 hP
      exact ⟨e, v, exec_bind_error serve he, hv⟩

theorem Settles.bind_fails {f : α → Fallible O R ε β} (hx : Settles serve x s P a t K) (hP : ¬ P) :
    Settles serve (x >>= f) s False b u K := by
  refine ⟨False.elim, fun _ => ?_⟩
  obtain ⟨e, v, he, hv⟩ := hx.2 hP
  exact ⟨e, v, exec_bind_error serve he, hv⟩

theorem Settles.bind_sure {f : α → Fallible O R ε β} (hx : exec serve x s = (.ok a, t))
    (hf : Settles serve (f a) t P b u K) : Settles serve (x >>= f) s P b u K := by
  unfold Settles
  rw [exec_bind_ok serve hx]
  exact hf

theorem Settles.orThrow {c : Prop} [Decidable c] {e : ε} (hs : K s)
    (h : ¬ c → Settles serve x s P a t K) :
    Settles serve (if c then MonadExcept.throw e else x) s (¬ c ∧ P) a t K := by
  by_cases hc : c
  · rw [if_pos hc]
    exact (Settles.throw hs).congr (by simp [hc])
  · rw [if_neg hc]
    exact (h hc).congr (by simp [hc])

theorem Settles.onError {y : Fallible O R ε' β} (h : Settles serve x s P a t K)
    (hy : ∀ u, K u → L (exec serve y u).2) : Settles serve (onError x y) s P a t L := by
  constructor
  · intro hP
    rw [exec_onError, h.1 hP]
  · intro hP
    obtain ⟨e, u, he, hu⟩ := h.2 hP
    refine ⟨e, _, ?_, hy u hu⟩
    rw [exec_onError, he]

end Fallible

theorem exists_of_isOk {α ε : Type} {result : Except ε α} (h : result.isOk = true) :
    ∃ a, result = .ok a := by
  cases result with
  | error e => cases h
  | ok a => exact ⟨a, rfl⟩

end Effects
