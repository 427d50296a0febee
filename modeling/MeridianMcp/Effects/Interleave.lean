import MeridianMcp.Effects.Prog
import Mathlib.Logic.Function.Basic

namespace Effects

variable {I O G α β σ ε : Type} {R : O → Type}

inductive Deed (I O : Type) (R : O → Type) where
  | own (i : I) (o : O) (r : R o)
  | outside

structure Moment (I O : Type) (R : O → Type) (σ : Type) where
  deed : Deed I O R
  before : σ
  after : σ

structure Pool (I O : Type) (R : O → Type) (α σ : Type) where
  program : I → Prog O R α
  state : σ

inductive Runs [DecidableEq I] (serves : (o : O) → σ → R o → σ → Prop) (outside : σ → σ → Prop)
    (start : Pool I O R α σ) : List (Moment I O R σ) → Pool I O R α σ → Prop
  | start : Runs serves outside start [] start
  | own {h P i o k r t} : Runs serves outside start h P → P.program i = .call o k →
      serves o P.state r t →
      Runs serves outside start (h ++ [⟨.own i o r, P.state, t⟩])
        ⟨Function.update P.program i (k r), t⟩
  | outside {h P t} : Runs serves outside start h P → outside P.state t →
      Runs serves outside start (h ++ [⟨.outside, P.state, t⟩]) ⟨P.program, t⟩

namespace Pool

variable [DecidableEq I]

def advance (serve : I → (o : O) → σ → R o × σ) (i : I) (P : Pool I O R α σ) :
    List (Moment I O R σ) × Pool I O R α σ :=
  match P.program i with
  | .ret _ => ([], P)
  | .call o k =>
    let (r, t) := serve i o P.state
    ([⟨.own i o r, P.state, t⟩], ⟨Function.update P.program i (k r), t⟩)

def play (serve : I → (o : O) → σ → R o × σ) :
    List I → Pool I O R α σ → List (Moment I O R σ) × Pool I O R α σ
  | [], P => ([], P)
  | i :: rest, P =>
    let (m, Q) := P.advance serve i
    let (h, S) := play serve rest Q
    (m ++ h, S)

theorem runs_play {serves : (o : O) → σ → R o → σ → Prop} {outside : σ → σ → Prop}
    {serve : I → (o : O) → σ → R o × σ} (hserve : ∀ i o s, serves o s (serve i o s).1 (serve i o s).2)
    {start P : Pool I O R α σ} {h : List (Moment I O R σ)} (hrun : Runs serves outside start h P)
    (schedule : List I) :
    Runs serves outside start (h ++ (P.play serve schedule).1) (P.play serve schedule).2 := by
  induction schedule generalizing h P with
  | nil =>
    rw [play, List.append_nil]
    exact hrun
  | cons i rest ih =>
    have hstep : Runs serves outside start (h ++ (P.advance serve i).1) (P.advance serve i).2 := by
      unfold advance
      split
      · rw [List.append_nil]
        exact hrun
      · rename_i o k hcall
        exact .own hrun hcall (hserve i o P.state)
    have hrest := ih hstep
    rw [List.append_assoc] at hrest
    exact hrest

end Pool

-- What one program's proof keeps track of while the others run: a ghost that its own answers
-- and the changes made by others move, and the assertion the ghost makes about the state.
structure Watch (O : Type) (R : O → Type) (σ G : Type) where
  own : G → (o : O) → R o → G
  other : G → σ → σ → G
  holds : G → σ → Prop
  honest : G → (o : O) → σ → R o → Prop
  safe : (o : O) → σ → R o → Prop

namespace Watch

variable (W : Watch O R σ G)

def Drifts : G → G → Prop := Relation.ReflTransGen fun g g' => ∃ s t, g' = W.other g s t

def Keeps (serves : (o : O) → σ → R o → σ → Prop) (post : G → α → Prop) : Prog O R α → G → Prop
  | .ret a, g => ∀ g', W.Drifts g g' → post g' a
  | .call o k, g => ∀ g', W.Drifts g g' → ∀ s r t, W.holds g' s → serves o s r t → W.honest g' o s r →
      W.safe o s r ∧ W.holds (W.own g' o r) t ∧ Keeps serves post (k r) (W.own g' o r)

variable {W} {serves : (o : O) → σ → R o → σ → Prop} {post : G → α → Prop} {g g' : G}

theorem Keeps.drift {p : Prog O R α} (h : W.Keeps serves post p g) (hg : W.Drifts g g') :
    W.Keeps serves post p g' := by
  cases p with
  | ret a => exact fun g'' hg' => h g'' (hg.trans hg')
  | call o k => exact fun g'' hg' => h g'' (hg.trans hg')

theorem Keeps.mono {p : Prog O R α} {post' : G → α → Prop} (h : W.Keeps serves post p g)
    (hpost : ∀ g a, post g a → post' g a) : W.Keeps serves post' p g := by
  induction p generalizing g with
  | ret a => exact fun g' hg => hpost g' a (h g' hg)
  | call o k ih =>
    intro g' hg s r t hs hserve hhonest
    obtain ⟨hsafe, hholds, hrest⟩ := h g' hg s r t hs hserve hhonest
    exact ⟨hsafe, hholds, ih r hrest⟩

theorem Keeps.bind {p : Prog O R α} {f : α → Prog O R β} {post' : G → β → Prop}
    (h : W.Keeps serves (fun g a => W.Keeps serves post' (f a) g) p g) :
    W.Keeps serves post' (p >>= f) g := by
  induction p generalizing g with
  | ret a => exact h g .refl
  | call o k ih =>
    intro g' hg s r t hs hserve hhonest
    obtain ⟨hsafe, hholds, hrest⟩ := h g' hg s r t hs hserve hhonest
    exact ⟨hsafe, hholds, ih r hrest⟩

section ghost

variable [DecidableEq I]

variable (W) in
def step (i : I) (g : G) (m : Moment I O R σ) : G :=
  match m.deed with
  | .own j o r => if j = i then W.own g o r else W.other g m.before m.after
  | .outside => W.other g m.before m.after

variable (W) in
def ghost (i : I) (g : G) (h : List (Moment I O R σ)) : G := h.foldl (W.step i) g

@[simp] theorem ghost_concat (i : I) (g : G) (h : List (Moment I O R σ)) (m : Moment I O R σ) :
    W.ghost i g (h ++ [m]) = W.step i (W.ghost i g h) m := by
  simp [ghost]

def HonestFor (W : Watch O R σ G) (i : I) (g : G) (h : List (Moment I O R σ)) : Prop :=
  ∀ h₁ m h₂ o r, h = h₁ ++ m :: h₂ → m.deed = .own i o r →
    W.honest (W.ghost i g h₁) o m.before r

theorem HonestFor.init {i : I} {h : List (Moment I O R σ)} {m : Moment I O R σ}
    (hh : HonestFor W i g (h ++ [m])) : HonestFor W i g h := by
  rintro h₁ n h₂ o r rfl hn
  exact hh h₁ n (h₂ ++ [m]) o r (by simp) hn

theorem HonestFor.last {i : I} {h : List (Moment I O R σ)} {o : O} {r : R o} {s t : σ}
    (hh : HonestFor W i g (h ++ [⟨.own i o r, s, t⟩])) : W.honest (W.ghost i g h) o s r :=
  hh h ⟨.own i o r, s, t⟩ [] o r rfl rfl

theorem run_keeps {outside : σ → σ → Prop} {start P : Pool I O R α σ} {h : List (Moment I O R σ)}
    (hrun : Runs serves outside start h P) (i : I) (hstart : W.Keeps serves post (start.program i) g)
    (hholds : W.holds g start.state)
    (hother : ∀ g s t, W.holds g s → W.holds (W.other g s t) t) (hhonest : HonestFor W i g h) :
    W.Keeps serves post (P.program i) (W.ghost i g h) ∧ W.holds (W.ghost i g h) P.state ∧
      ∀ m ∈ h, ∀ o r, m.deed = .own i o r → W.safe o m.before r := by
  induction hrun with
  | start => exact ⟨hstart, hholds, fun _ hm => absurd hm (by simp)⟩
  | @own h P j o k r t hrun hcall hserve ih =>
    obtain ⟨hkeeps, hstate, hsafe⟩ := ih hhonest.init
    rw [ghost_concat, step]
    by_cases hj : j = i
    · subst hj
      rw [hcall] at hkeeps
      obtain ⟨hsafe', hstate', hrest⟩ := hkeeps _ .refl P.state r t hstate hserve hhonest.last
      simp only [if_true, Function.update_self]
      refine ⟨hrest, hstate', fun m hm o' r' hdeed => ?_⟩
      rcases List.mem_append.mp hm with hm | hm
      · exact hsafe m hm o' r' hdeed
      · obtain rfl := List.mem_singleton.mp hm
        cases hdeed
        exact hsafe'
    · simp only [if_neg hj]
      rw [Function.update_of_ne (Ne.symm hj)]
      refine ⟨hkeeps.drift (.single ⟨_, _, rfl⟩), hother _ _ _ hstate, fun m hm o' r' hdeed => ?_⟩
      rcases List.mem_append.mp hm with hm | hm
      · exact hsafe m hm o' r' hdeed
      · obtain rfl := List.mem_singleton.mp hm
        cases hdeed
        exact absurd rfl hj
  | @outside h P t hrun hout ih =>
    obtain ⟨hkeeps, hstate, hsafe⟩ := ih hhonest.init
    rw [ghost_concat, step]
    refine ⟨hkeeps.drift (.single ⟨_, _, rfl⟩), hother _ _ _ hstate, fun m hm o' r' hdeed => ?_⟩
    rcases List.mem_append.mp hm with hm | hm
    · exact hsafe m hm o' r' hdeed
    · obtain rfl := List.mem_singleton.mp hm
      cases hdeed

end ghost

section fallible

variable {ε' : Type} {fpost : G → Except ε α → Prop}

theorem keeps_pure {a : α} (h : ∀ g', W.Drifts g g' → fpost g' (.ok a)) :
    W.Keeps serves fpost (pure a : Fallible O R ε α).run g := h

theorem keeps_throw {e : ε} (h : ∀ g', W.Drifts g g' → fpost g' (.error e)) :
    W.Keeps serves fpost (throw e : Fallible O R ε α).run g := h

theorem keeps_bind {x : Fallible O R ε α} {f : α → Fallible O R ε β} {post' : G → Except ε β → Prop}
    (hx : W.Keeps serves fpost x.run g)
    (hok : ∀ g a, fpost g (.ok a) → W.Keeps serves post' (f a).run g)
    (herror : ∀ g e, fpost g (.error e) → ∀ g', W.Drifts g g' → post' g' (.error e)) :
    W.Keeps serves post' (x >>= f).run g := by
  rw [ExceptT.run_bind]
  refine Keeps.bind (hx.mono fun g r hr => ?_)
  cases r with
  | ok a => exact hok g a hr
  | error e => exact herror g e hr

theorem keeps_adapt {x : Fallible O R ε α} {f : ε → ε'} {post' : G → Except ε' α → Prop}
    (hx : W.Keeps serves fpost x.run g)
    (h : ∀ g r, fpost g r → ∀ g', W.Drifts g g' → post' g' (r.mapError f)) :
    W.Keeps serves post' (Fallible.adapt f x).run g :=
  Keeps.bind (hx.mono h)

theorem keeps_attempt_bind {x : Fallible O R ε α} {f : Except ε α → Fallible O R ε' β}
    {post' : G → Except ε' β → Prop} (hx : W.Keeps serves fpost x.run g)
    (h : ∀ g r, fpost g r → W.Keeps serves post' (f r).run g) :
    W.Keeps serves post' (Fallible.attempt x >>= f).run g := by
  have hrun : (Fallible.attempt x >>= f).run = x.run >>= fun r => (f r).run := by
    rw [ExceptT.run_bind, Fallible.attempt, ExceptT.run_mk, Prog.bind_assoc]
    rfl
  rw [hrun]
  exact Keeps.bind (hx.mono h)

theorem keeps_onError {x : Fallible O R ε α} {y : Fallible O R ε' β} {post' : G → Except ε α → Prop}
    (hx : W.Keeps serves fpost x.run g)
    (hok : ∀ g a, fpost g (.ok a) → ∀ g', W.Drifts g g' → post' g' (.ok a))
    (herror : ∀ g e, fpost g (.error e) →
      W.Keeps serves (fun g' _ => ∀ g'', W.Drifts g' g'' → post' g'' (.error e)) y.run g) :
    W.Keeps serves post' (Fallible.onError x y).run g := by
  refine keeps_attempt_bind hx fun g r hr => ?_
  cases r with
  | ok a => exact hok g a hr
  | error e =>
    exact keeps_attempt_bind (herror g e hr) fun g' _ hpost => hpost

theorem keeps_within {allowed : O → Prop} {p : Prog O R α} (hp : Prog.Within allowed p)
    (h : ∀ g o s r t, allowed o → W.holds g s → serves o s r t → W.honest g o s r →
      W.safe o s r ∧ W.holds g t ∧ W.own g o r = g) :
    W.Keeps serves (fun g' _ => W.Drifts g g') p g := by
  induction p generalizing g with
  | ret a => exact fun g' hg => hg
  | call o k ih =>
    intro g' hg s r t hs hserve hhonest
    obtain ⟨hsafe, hholds, hown⟩ := h g' o s r t hp.1 hs hserve hhonest
    rw [hown]
    exact ⟨hsafe, hholds, (ih r (hp.2 r)).mono fun _ _ => hg.trans⟩

end fallible

end Watch

end Effects
