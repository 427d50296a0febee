import Mathlib.Data.List.Induction

namespace Effects

variable {W S : Type} {perform : W → S → Option W} {start : W}

inductive Trace (perform : W → S → Option W) (start : W) : List (W × S) → W → Prop
  | start : Trace perform start [] start
  | step {trace w s w'} : Trace perform start trace w → perform w s = some w' →
      Trace perform start (trace ++ [(w, s)]) w'

def visited (trace : List (W × S)) (w : W) : List W := trace.map Prod.fst ++ [w]

theorem visited_snoc (trace : List (W × S)) (w w' : W) (s : S) :
    visited (trace ++ [(w, s)]) w' = visited trace w ++ [w'] := by
  simp [visited]

theorem last_mem_visited (trace : List (W × S)) (w : W) : w ∈ visited trace w := by
  simp [visited]

theorem mem_visited_of_mem {trace : List (W × S)} {w : W} {m : W × S} (h : m ∈ trace) : m.1 ∈ visited trace w :=
  List.mem_append_left _ (List.mem_map_of_mem h)

-- A schedule from which the steps that cannot be taken are left out.
def replay (perform : W → S → Option W) : List S → W → List (W × S) × W
  | [], w => ([], w)
  | s :: rest, w =>
    match perform w s with
    | none => replay perform rest w
    | some w' => ((w, s) :: (replay perform rest w').1, (replay perform rest w').2)

open Classical in
noncomputable def restricted (perform : W → S → Option W) (guard : W → S → Prop) (w : W) (s : S) : Option W :=
  if guard w s then perform w s else none

theorem restricted_some {guard : W → S → Prop} {w w' : W} {s : S} :
    restricted perform guard w s = some w' ↔ guard w s ∧ perform w s = some w' := by
  unfold restricted
  split
  · rename_i h
    exact (and_iff_right h).symm
  · rename_i h
    exact iff_of_false (fun hnone => by cases hnone) fun hboth => h hboth.1

namespace Trace

variable {P Q I : W → Prop} {guard : W → S → Prop} {trace : List (W × S)} {w : W}

theorem replay_append (schedule : List S) (hrun : Trace perform start trace w) :
    Trace perform start (trace ++ (replay perform schedule w).1) (replay perform schedule w).2 := by
  induction schedule generalizing trace w with
  | nil =>
    rw [replay, List.append_nil]
    exact hrun
  | cons s rest ih =>
    rw [replay]
    cases hs : perform w s with
    | none => exact ih hrun
    | some w' =>
      have hnext := ih (hrun.step hs)
      rwa [List.append_assoc] at hnext

theorem replay (schedule : List S) :
    Trace perform start (replay perform schedule start).1 (replay perform schedule start).2 :=
  Trace.start.replay_append schedule

theorem last_step {s : S} {v : W} (hrun : Trace perform start (trace ++ [(v, s)]) w) :
    Trace perform start trace v ∧ perform v s = some w := by
  generalize hlist : trace ++ [(v, s)] = whole at hrun
  cases hrun with
  | start => simp at hlist
  | step h hs =>
    obtain ⟨rfl, hlast⟩ := List.append_inj' hlist rfl
    cases hlast
    exact ⟨h, hs⟩

theorem split {first second : List (W × S)} (hrun : Trace perform start (first ++ second) w) :
    ∃ v, Trace perform start first v ∧ Trace perform v second w := by
  induction second using List.reverseRecOn generalizing w with
  | nil =>
    rw [List.append_nil] at hrun
    exact ⟨w, hrun, .start⟩
  | append_singleton second m ih =>
    rw [← List.append_assoc] at hrun
    obtain ⟨hbefore, hlast⟩ := hrun.last_step
    obtain ⟨v, hfirst, hsecond⟩ := ih hbefore
    exact ⟨v, hfirst, hsecond.step hlast⟩

theorem nil_eq (hrun : Trace perform start [] w) : w = start := by
  generalize hnil : ([] : List (W × S)) = trace at hrun
  cases hrun with
  | start => rfl
  | step h hs => simp at hnil

theorem head_eq {m : W × S} (hrun : Trace perform start (m :: trace) w) : m.1 = start := by
  obtain ⟨v, hfirst, -⟩ := @split _ _ _ _ _ [m] trace hrun
  obtain ⟨hnil, -⟩ := @last_step _ _ _ _ [] _ _ _ hfirst
  exact hnil.nil_eq

theorem invariant (hstart : P start) (hstep : ∀ w s w', P w → perform w s = some w' → P w')
    (hrun : Trace perform start trace w) : ∀ v ∈ visited trace w, P v := by
  induction hrun with
  | start => simpa [visited] using hstart
  | step h hs ih =>
    intro v hv
    rw [visited_snoc, List.mem_append, List.mem_singleton] at hv
    rcases hv with hv | rfl
    · exact ih v hv
    · exact hstep _ _ _ (ih _ (last_mem_visited _ _)) hs

theorem guarded (hstart : P start)
    (hstep : ∀ w s w', P w → guard w s → perform w s = some w' → P w')
    (hrun : Trace perform start trace w) (hguard : ∀ m ∈ trace, guard m.1 m.2) :
    ∀ v ∈ visited trace w, P v := by
  induction hrun with
  | start => simpa [visited] using hstart
  | @step trace w s w' h hs ih =>
    have hbefore := ih fun m hm => hguard m (List.mem_append_left _ hm)
    intro v hv
    rw [visited_snoc, List.mem_append, List.mem_singleton] at hv
    rcases hv with hv | rfl
    · exact hbefore v hv
    · apply hstep w s _ (hbefore w (last_mem_visited _ _)) _ hs
      exact hguard (w, s) (List.mem_append_right _ (List.mem_singleton.mpr rfl))

-- A run whose steps all meet the guard is a run of the steps that do.
theorem restrict (hrun : Trace perform start trace w) (hguard : ∀ m ∈ trace, guard m.1 m.2) :
    Trace (restricted perform guard) start trace w := by
  induction hrun with
  | start => exact .start
  | @step trace w s w' h hs ih =>
    have hlast : guard w s := hguard (w, s) (List.mem_append_right _ (List.mem_singleton.mpr rfl))
    exact (ih fun m hm => hguard m (List.mem_append_left _ hm)).step (restricted_some.mpr ⟨hlast, hs⟩)

theorem pairwise {R : W → W → Prop} (hstart : I start) (hI : ∀ w s w', I w → perform w s = some w' → I w')
    (hrefl : ∀ w, R w w) (htrans : ∀ u v w, R u v → R v w → R u w)
    (hstep : ∀ w s w', I w → perform w s = some w' → R w w') (hrun : Trace perform start trace w) :
    (visited trace w).Pairwise R := by
  have hinv := hrun.invariant hstart hI
  have hlast : (visited trace w).Pairwise R ∧ ∀ v ∈ visited trace w, R v w := by
    induction hrun with
    | start => simpa [visited] using hrefl start
    | @step trace w s w' h hs ih =>
      rw [visited_snoc] at hinv ⊢
      obtain ⟨hpairs, hbefore⟩ := ih fun v hv => hinv v (List.mem_append_left _ hv)
      have hnext : R w w' := hstep w s w' (hinv w (List.mem_append_left _ (last_mem_visited _ _))) hs
      constructor
      · refine List.pairwise_append.mpr ⟨hpairs, List.pairwise_singleton _ _, ?_⟩
        intro v hv u hu
        obtain rfl := List.mem_singleton.mp hu
        exact htrans v w u (hbefore v hv) hnext
      · intro v hv
        rcases List.mem_append.mp hv with hv | hv
        · exact htrans v w w' (hbefore v hv) hnext
        · obtain rfl := List.mem_singleton.mp hv
          exact hrefl v
  exact hlast.1

theorem persists (hstart : I start) (hI : ∀ w s w', I w → perform w s = some w' → I w')
    (hP : ∀ w s w', I w → perform w s = some w' → P w → P w') (hrun : Trace perform start trace w) :
    ∀ v ∈ visited trace w, P v → P w := by
  have hinv := hrun.invariant hstart hI
  induction hrun with
  | start => simp [visited]
  | @step trace w s w' h hs ih =>
    rw [visited_snoc] at hinv ⊢
    have hbefore := ih fun v hv => hinv v (List.mem_append_left _ hv)
    have hw : I w := hinv w (List.mem_append_left _ (last_mem_visited _ _))
    intro v hv hPv
    rcases List.mem_append.mp hv with hv | hv
    · exact hP w s w' hw hs (hbefore v hv hPv)
    · obtain rfl := List.mem_singleton.mp hv
      exact hPv

-- What a step of the kind `A` brings about holds at the end.
theorem brings {A : W → S → Prop} {B : W → Prop} (hstart : I start)
    (hI : ∀ w s w', I w → perform w s = some w' → I w')
    (hA : ∀ w s w', I w → perform w s = some w' → A w s → B w')
    (hB : ∀ w s w', I w → perform w s = some w' → B w → B w') (hrun : Trace perform start trace w) :
    ∀ m ∈ trace, A m.1 m.2 → B w := by
  have hinv := hrun.invariant hstart hI
  induction hrun with
  | start => simp
  | @step trace w s w' h hs ih =>
    rw [visited_snoc] at hinv
    have hbefore := ih fun v hv => hinv v (List.mem_append_left _ hv)
    have hw : I w := hinv w (List.mem_append_left _ (last_mem_visited _ _))
    intro m hm hAm
    rcases List.mem_append.mp hm with hm | hm
    · exact hB w s w' hw hs (hbefore m hm hAm)
    · obtain rfl := List.mem_singleton.mp hm
      exact hA w s w' hw hs hAm

-- What a step of the kind `A` brings about holds at every later step.
theorem afterwards {A : W → S → Prop} {B : W → Prop} (hstart : I start)
    (hI : ∀ w s w', I w → perform w s = some w' → I w')
    (hA : ∀ w s w', I w → perform w s = some w' → A w s → B w')
    (hB : ∀ w s w', I w → perform w s = some w' → B w → B w') (hrun : Trace perform start trace w) :
    trace.Pairwise fun m m' => A m.1 m.2 → B m'.1 := by
  induction hrun with
  | start => exact List.Pairwise.nil
  | @step trace w s w' h hs ih =>
    refine List.pairwise_append.mpr ⟨ih, List.pairwise_singleton _ _, ?_⟩
    intro m hm m' hm'
    obtain rfl := List.mem_singleton.mp hm'
    exact h.brings hstart hI hA hB m hm

-- `I` holds in every run, `P` as long as the guard does, and a step that breaks the guard
-- makes `Q` false at once.
theorem holds_iff_guarded (hI : I start) (hI' : ∀ w s w', I w → perform w s = some w' → I w')
    (hP : P start) (hP' : ∀ w s w', I w → P w → guard w s → perform w s = some w' → P w')
    (hQ : ∀ w, I w → P w → Q w)
    (hbroken : ∀ w s w', I w → perform w s = some w' → ¬ guard w s → ¬ Q w')
    (hrun : Trace perform start trace w) :
    (∀ v ∈ visited trace w, Q v) ↔ ∀ m ∈ trace, guard m.1 m.2 := by
  have hinv := hrun.invariant hI hI'
  constructor
  · intro h
    induction hrun with
    | start => simp
    | @step trace w s w' hrun hs ih =>
      have hin : ∀ v ∈ visited trace w, v ∈ visited (trace ++ [(w, s)]) w' := by
        intro v hv
        rw [visited_snoc]
        exact List.mem_append_left _ hv
      intro m hm
      rcases List.mem_append.mp hm with hm | hm
      · exact ih (fun v hv => hinv v (hin v hv)) (fun v hv => h v (hin v hv)) m hm
      · obtain rfl := List.mem_singleton.mp hm
        by_contra hbreak
        exact hbroken w s w' (hinv w (hin w (last_mem_visited _ _))) hs hbreak
          (h w' (last_mem_visited _ _))
  · intro hguard
    have hboth : ∀ v ∈ visited trace w, I v ∧ P v := by
      apply hrun.guarded (P := fun v => I v ∧ P v) ⟨hI, hP⟩ _ hguard
      intro w s w' h hg hs
      exact ⟨hI' w s w' h.1 hs, hP' w s w' h.1 h.2 hg hs⟩
    intro v hv
    exact hQ v (hboth v hv).1 (hboth v hv).2

end Trace

end Effects
