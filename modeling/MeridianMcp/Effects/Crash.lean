import MeridianMcp.Effects.FsProg

namespace Effects

namespace Prog

variable {O : Type} {R : O → Type} {α β σ : Type}

inductive Stops (serve : (o : O) → σ → R o × σ) (torn : O → σ → σ → Prop) :
    Prog O R α → σ → List O → σ → Prop
  | here (p : Prog O R α) (s : σ) : Stops serve torn p s [] s
  | torn {o : O} {k : R o → Prog O R α} {s t : σ} :
      torn o s t → Stops serve torn (.call o k) s [] t
  | step {o : O} {k : R o → Prog O R α} {s t : σ} {done : List O} :
      Stops serve torn (k (serve o s).1) (serve o s).2 done t →
      Stops serve torn (.call o k) s (o :: done) t

section Stops

variable {serve : (o : O) → σ → R o × σ} {torn : O → σ → σ → Prop}

theorem stops_ret {a : α} {s t : σ} {done : List O} :
    Stops serve torn (.ret a) s done t ↔ done = [] ∧ t = s := by
  constructor
  · rintro ⟨⟩
    exact ⟨rfl, rfl⟩
  · rintro ⟨rfl, rfl⟩
    exact .here _ _

theorem stops_call {o : O} {k : R o → Prog O R α} {s t : σ} {done : List O} :
    Stops serve torn (.call o k) s done t ↔
      (done = [] ∧ (t = s ∨ torn o s t)) ∨
      ∃ rest, done = o :: rest ∧ Stops serve torn (k (serve o s).1) (serve o s).2 rest t := by
  constructor
  · intro h
    cases h with
    | here => exact .inl ⟨rfl, .inl rfl⟩
    | torn ht => exact .inl ⟨rfl, .inr ht⟩
    | step hs => exact .inr ⟨_, rfl, hs⟩
  · rintro (⟨rfl, rfl | ht⟩ | ⟨rest, rfl, hs⟩)
    · exact .here _ _
    · exact .torn ht
    · exact .step hs

theorem stops_bind {p : Prog O R α} {f : α → Prog O R β} {s t : σ} {done : List O}
    (h : Stops serve torn (p >>= f) s done t) :
    Stops serve torn p s done t ∨
      ∃ rest, done = trace serve p s ++ rest ∧
        Stops serve torn (f (run serve p s).1) (run serve p s).2 rest t := by
  induction p generalizing s done with
  | ret a => exact .inr ⟨done, rfl, h⟩
  | call o k ih =>
    rw [call_bind, stops_call] at h
    rcases h with ⟨rfl, h⟩ | ⟨rest, rfl, h⟩
    · exact .inl (stops_call.mpr (.inl ⟨rfl, h⟩))
    · rcases ih _ h with hp | ⟨tail, rfl, hf⟩
      · exact .inl (.step hp)
      · exact .inr ⟨tail, rfl, hf⟩

def upTo (serve : (o : O) → σ → R o × σ) : Nat → Prog O R α → σ → List O × σ
  | 0, _, s => ([], s)
  | _, .ret _, s => ([], s)
  | k + 1, .call o f, s =>
    let rest := upTo serve k (f (serve o s).1) (serve o s).2
    (o :: rest.1, rest.2)

theorem stops_upTo (k : Nat) (p : Prog O R α) (s : σ) :
    Stops serve torn p s (upTo serve k p s).1 (upTo serve k p s).2 := by
  induction k generalizing p s with
  | zero => exact .here _ _
  | succ k ih =>
    cases p with
    | ret a => exact .here _ _
    | call o f => exact .step (ih _ _)

theorem stops_end (p : Prog O R α) (s : σ) :
    Stops serve torn p s (trace serve p s) (run serve p s).2 := by
  induction p generalizing s with
  | ret a => exact .here _ _
  | call o k ih => exact .step (ih _ _)

end Stops

end Prog

namespace Fallible

variable {O M : Type} {R : O → Type} {ε ε' α β σ : Type}

-- One run of an action with every point at which it can be stopped; `mark` keeps of the
-- operations performed only those that matter.
structure Walks (serve : (o : O) → σ → R o × σ) (torn : O → σ → σ → Prop) (mark : O → Option M)
    (x : Fallible O R ε α) (s : σ) (r : Except ε α) (t : σ) (ms : List M) (Φ : List M → σ → Prop) :
    Prop where
  exec : exec serve x s = (r, t)
  marks : (Prog.trace serve x.run s).filterMap mark = ms
  stops : ∀ done u, Prog.Stops serve torn x.run s done u → Φ (done.filterMap mark) u

variable {serve : (o : O) → σ → R o × σ} {torn : O → σ → σ → Prop} {mark : O → Option M}
  {s t u : σ} {ms ns : List M} {Φ : List M → σ → Prop}

theorem Walks.pure {a : α} (h : Φ [] s) :
    Walks serve torn mark (pure a : Fallible O R ε α) s (.ok a) s [] Φ where
  exec := rfl
  marks := rfl
  stops done u hstop := by
    obtain ⟨rfl, rfl⟩ := Prog.stops_ret.mp hstop
    exact h

theorem Walks.throw {e : ε} (h : Φ [] s) :
    Walks serve torn mark (throw e : Fallible O R ε α) s (.error e) s [] Φ where
  exec := rfl
  marks := rfl
  stops done u hstop := by
    obtain ⟨rfl, rfl⟩ := Prog.stops_ret.mp hstop
    exact h

theorem Walks.ask {o : O} (h : Φ [] s) (htorn : ∀ u, torn o s u → Φ [] u)
    (hdone : Φ (mark o).toList (serve o s).2) :
    Walks serve torn mark (ask o : Fallible O R ε (R o)) s (.ok (serve o s).1) (serve o s).2
      (mark o).toList Φ where
  exec := rfl
  marks := by
    change List.filterMap mark [o] = _
    cases hm : mark o <;> simp [hm]
  stops done u hstop := by
    rcases Prog.stops_call.mp hstop with ⟨rfl, rfl | hu⟩ | ⟨rest, rfl, hrest⟩
    · exact h
    · exact htorn u hu
    · obtain ⟨rfl, rfl⟩ := Prog.stops_ret.mp hrest
      cases hm : mark o <;> simpa [hm] using hdone

theorem Walks.last {x : Fallible O R ε α} {r : Except ε α}
    (hx : Walks serve torn mark x s r t ms Φ) : Φ ms t := by
  have hend := hx.stops _ _ (Prog.stops_end x.run s)
  have hrun : Prog.run serve x.run s = (r, t) := hx.exec
  rwa [hrun, hx.marks] at hend

theorem Walks.bind {x : Fallible O R ε α} {f : α → Fallible O R ε β} {a : α} {r : Except ε β}
    (hx : Walks serve torn mark x s (.ok a) t ms Φ)
    (hf : Walks serve torn mark (f a) t r u ns (fun m v => Φ (ms ++ m) v)) :
    Walks serve torn mark (x >>= f) s r u (ms ++ ns) Φ where
  exec := by rw [exec_bind_ok serve hx.exec, hf.exec]
  marks := by
    have hrun : Prog.run serve x.run s = (.ok a, t) := hx.exec
    rw [ExceptT.run_bind, Prog.trace_bind, hrun, List.filterMap_append, hx.marks]
    exact congrArg _ hf.marks
  stops done v hstop := by
    have hrun : Prog.run serve x.run s = (.ok a, t) := hx.exec
    rw [ExceptT.run_bind] at hstop
    rcases Prog.stops_bind hstop with h | ⟨rest, rfl, h⟩
    · exact hx.stops done v h
    · rw [hrun] at h
      rw [List.filterMap_append, hx.marks]
      exact hf.stops rest v h

theorem Walks.bind_error {x : Fallible O R ε α} {f : α → Fallible O R ε β} {e : ε}
    (hx : Walks serve torn mark x s (.error e) t ms Φ) :
    Walks serve torn mark (x >>= f) s (.error e) t ms Φ where
  exec := exec_bind_error serve hx.exec
  marks := by
    have hrun : Prog.run serve x.run s = (.error e, t) := hx.exec
    rw [ExceptT.run_bind, Prog.trace_bind, hrun, List.filterMap_append, hx.marks]
    exact List.append_nil _
  stops done v hstop := by
    have hrun : Prog.run serve x.run s = (.error e, t) := hx.exec
    rw [ExceptT.run_bind] at hstop
    rcases Prog.stops_bind hstop with h | ⟨rest, rfl, h⟩
    · exact hx.stops done v h
    · rw [hrun] at h
      obtain ⟨rfl, rfl⟩ := Prog.stops_ret.mp h
      rw [List.append_nil, hx.marks]
      exact hx.last

theorem Walks.mono {x : Fallible O R ε α} {r : Except ε α} {Ψ : List M → σ → Prop}
    (hx : Walks serve torn mark x s r t ms Φ) (h : ∀ m u, Φ m u → Ψ m u) :
    Walks serve torn mark x s r t ms Ψ :=
  ⟨hx.exec, hx.marks, fun done u hu => h _ u (hx.stops done u hu)⟩

theorem Walks.mapRun {x : Fallible O R ε α} {y : Fallible O R ε' β} {r : Except ε α}
    {f : Except ε α → Except ε' β} (hx : Walks serve torn mark x s r t ms Φ)
    (hy : y = ExceptT.mk (x.run >>= fun r => .ret (f r))) :
    Walks serve torn mark y s (f r) t ms Φ := by
  have hrun : Prog.run serve x.run s = (r, t) := hx.exec
  subst hy
  constructor
  · rw [Fallible.exec, ExceptT.run_mk, Prog.run_bind, hrun]
    rfl
  · rw [ExceptT.run_mk, Prog.trace_bind, List.filterMap_append, hx.marks]
    exact List.append_nil _
  · intro done u hstop
    rcases Prog.stops_bind hstop with h | ⟨rest, rfl, h⟩
    · exact hx.stops done u h
    · rw [hrun] at h
      obtain ⟨rfl, rfl⟩ := Prog.stops_ret.mp h
      rw [List.append_nil, hx.marks]
      exact hx.last

theorem Walks.adapt {x : Fallible O R ε α} {r : Except ε α} (f : ε → ε')
    (hx : Walks serve torn mark x s r t ms Φ) :
    Walks serve torn mark (Fallible.adapt f x) s (r.mapError f) t ms Φ :=
  hx.mapRun rfl

theorem Walks.attempt {x : Fallible O R ε α} {r : Except ε α}
    (hx : Walks serve torn mark x s r t ms Φ) :
    Walks serve torn mark (Fallible.attempt x : Fallible O R ε' _) s (.ok r) t ms Φ :=
  hx.mapRun (f := .ok) rfl

theorem Walks.onError_ok {x : Fallible O R ε α} {y : Fallible O R ε' β} {a : α}
    (hx : Walks serve torn mark x s (.ok a) t ms Φ) :
    Walks serve torn mark (Fallible.onError x y) s (.ok a) t ms Φ := by
  rw [← List.append_nil ms]
  exact (Walks.attempt hx).bind (.pure (by simpa using hx.last))

theorem Walks.onError_error {x : Fallible O R ε α} {y : Fallible O R ε' β} {e : ε} {r : Except ε' β}
    (hx : Walks serve torn mark x s (.error e) t ms Φ)
    (hy : Walks serve torn mark y t r u ns (fun m v => Φ (ms ++ m) v)) :
    Walks serve torn mark (Fallible.onError x y) s (.error e) u (ms ++ ns) Φ := by
  rw [← List.append_nil ns]
  exact (Walks.attempt hx).bind ((Walks.attempt hy).bind (.throw (by simpa using hy.last)))

variable (serve torn mark) in
def Quiet (x : Fallible O R ε α) (s : σ) : Prop :=
  ∃ r, ∀ Φ : List M → σ → Prop, Φ [] s → Walks serve torn mark x s r s [] Φ

theorem Quiet.walks {x : Fallible O R ε α} (hx : Quiet serve torn mark x s) (h : Φ [] s) :
    Walks serve torn mark x s (exec serve x s).1 s [] Φ := by
  obtain ⟨r, hr⟩ := hx
  rw [(hr Φ h).exec]
  exact hr Φ h

theorem Quiet.pure (a : α) : Quiet serve torn mark (Pure.pure a : Fallible O R ε α) s :=
  ⟨_, fun _ h => .pure h⟩

theorem Quiet.throw (e : ε) : Quiet serve torn mark (MonadExcept.throw e : Fallible O R ε α) s :=
  ⟨_, fun _ h => .throw h⟩

theorem Quiet.bind {x : Fallible O R ε α} {f : α → Fallible O R ε β}
    (hx : Quiet serve torn mark x s) (hf : ∀ a, Quiet serve torn mark (f a) s) :
    Quiet serve torn mark (x >>= f) s := by
  obtain ⟨r, hr⟩ := hx
  cases r with
  | error e => exact ⟨_, fun Φ h => (hr Φ h).bind_error⟩
  | ok a =>
    obtain ⟨q, hq⟩ := hf a
    exact ⟨q, fun Φ h => (hr Φ h).bind (hq _ h)⟩

theorem Quiet.adapt {x : Fallible O R ε α} (f : ε → ε') (hx : Quiet serve torn mark x s) :
    Quiet serve torn mark (Fallible.adapt f x) s := by
  obtain ⟨r, hr⟩ := hx
  exact ⟨_, fun Φ h => (hr Φ h).adapt f⟩

theorem Quiet.attempt {x : Fallible O R ε α} (hx : Quiet serve torn mark x s) :
    Quiet serve torn mark (Fallible.attempt x : Fallible O R ε' _) s := by
  obtain ⟨r, hr⟩ := hx
  exact ⟨_, fun Φ h => (hr Φ h).attempt⟩

theorem Walks.onError_quiet {x : Fallible O R ε α} {y : Fallible O R ε' β} {r : Except ε α}
    (hx : Walks serve torn mark x s r t ms Φ) (hy : Quiet serve torn mark y t) :
    Walks serve torn mark (Fallible.onError x y) s r t ms Φ := by
  cases r with
  | ok a => exact hx.onError_ok
  | error e =>
    have hlast : Φ (ms ++ []) t := by simpa using hx.last
    have hwalk := hx.onError_error (hy.walks hlast)
    rwa [List.append_nil] at hwalk

theorem Quiet.ite {c : Prop} [Decidable c] {x y : Fallible O R ε α}
    (hx : Quiet serve torn mark x s) (hy : Quiet serve torn mark y s) :
    Quiet serve torn mark (if c then x else y) s := by
  split
  · exact hx
  · exact hy

end Fallible

namespace FsProg

open Fallible

variable {S N M : Type} [DecidableEq N] {env : Env S} {mark : S → Option M} {fs t : FileSystem N}
  {Φ : List M → FileSystem N → Prop}

abbrev marked (mark : S → Option M) (c : Call S N) : Option M := mark c.site

variable (mark) in
theorem walks_act {c : Call S N} {r : Answer c} (h : exec env.serve (act c) fs = (r, t)) (hs : Φ [] fs)
    (htorn : ∀ u, Env.Torn c fs u → Φ [] u) (ht : Φ (mark c.site).toList t) :
    Walks env.serve Env.Torn (marked mark) (act c) fs r t (mark c.site).toList Φ := by
  rw [exec_act] at h
  have hask : Walks env.serve Env.Torn (marked mark) (ask c : FsProg S N IoError (Answer c)) fs _ _ _ Φ :=
    .ask hs htorn (by rwa [h])
  rw [h] at hask
  rw [act, ← List.append_nil (mark c.site).toList]
  refine hask.bind ?_
  cases r with
  | ok v => exact .pure (by simpa using ht)
  | error e => exact .throw (by simpa using ht)

def observing : FsOp N → Bool
  | .createDirAll _ | .createNew _ | .append _ _ | .rename _ _ | .remove _ => false
  | _ => true

variable (fs) in
theorem exec_observing {op : FsOp N} (h : observing op = true) (entropy : Bytes) :
    ∃ r : Except IoError op.Res, fs.exec entropy op = r.map (·, fs) := by
  cases op <;> first | exact ⟨.ok entropy, rfl⟩ | exact ⟨_, rfl⟩ | cases h

theorem not_torn_observing {c : Call S N} (h : observing c.op = true) (u : FileSystem N) :
    ¬ Env.Torn c fs u := by
  obtain ⟨site, op⟩ := c
  cases op <;> first | exact id | cases h

theorem quiet_still {c : Call S N} (h : (exec env.serve (act c) fs).2 = fs)
    (htorn : ∀ u, ¬ Env.Torn c fs u) (hm : mark c.site = none) :
    Quiet env.serve Env.Torn (marked mark) (act c) fs := by
  refine ⟨(exec env.serve (act c) fs).1, fun Φ hΦ => ?_⟩
  have hwalk := walks_act mark (r := (exec env.serve (act c) fs).1) (t := fs)
    (Prod.ext rfl h) hΦ (fun u hu => absurd hu (htorn u)) (by rwa [hm])
  rwa [hm] at hwalk

theorem quiet_act {c : Call S N} (h : observing c.op = true) (hm : mark c.site = none) :
    Quiet env.serve Env.Torn (marked mark) (act c) fs := by
  obtain ⟨r, hr⟩ := exec_observing fs h (env.entropy c.site)
  refine quiet_still ?_ (not_torn_observing h) hm
  rw [exec_act, serve_observe c.site env fs hr]

theorem quiet_pathExists {ε : Type} {site : S} {p : Path N} (hm : mark site = none) :
    Quiet env.serve Env.Torn (marked mark) (pathExists site p : FsProg S N ε Bool) fs :=
  (Quiet.attempt (quiet_act rfl hm)).bind fun _ => Quiet.pure _

end FsProg

end Effects
