import MeridianMcp.Analysis.Admission

namespace Analysis

open Effects

variable {R C E : Type} [DecidableEq R] [DecidableEq C] [DecidableEq E]

def WorkerStage.carries : WorkerStage E → Bool
  | .queued _ _ _ => true
  | .checking _ _ _ => true
  | .building _ _ => true
  | .finished _ => true
  | _ => false

def WorkerStage.builds : WorkerStage E → Bool
  | .building _ _ => true
  | _ => false

def WorkerStage.pending : WorkerStage E → Option Nat
  | .building _ started => some started
  | .finished (.built snapshot) => some snapshot.started
  | _ => none

def RequestStage.carries : RequestStage E → Bool
  | .admitted _ _ => true
  | .installing _ => true
  | .publishing _ => true
  | .published _ => true
  | .unlocked _ => true
  | _ => false

def RequestStage.waits : RequestStage E → Bool
  | .waiting => true
  | _ => false

def RequestStage.unspawned : RequestStage E → Bool
  | .idle => true
  | .queued _ _ => true
  | .admitted _ _ => true
  | _ => false

def RequestStage.writes : RequestStage E → Bool
  | .publishing _ => true
  | .published _ => true
  | _ => false

def RequestStage.pending : RequestStage E → Option Nat
  | .installing snapshot => some snapshot.started
  | .publishing snapshot => some snapshot.started
  | _ => none

-- A request that has not been answered and has published nothing.
def RequestStage.opened : RequestStage E → Bool
  | .idle => true
  | .queued _ _ => true
  | .admitted _ _ => true
  | .waiting => true
  | .installing _ => true
  | .publishing _ => true
  | _ => false

def RequestStage.passed : RequestStage E → Bool
  | .published _ => true
  | .unlocked _ => true
  | .installed _ => true
  | _ => false

def ClearStage.writes : ClearStage → Bool
  | .locked => true
  | .taken => true
  | .cleared => true
  | _ => false

-- A build that has started and whose snapshot may still be published.
def Pending (stage : RequestStage E) (worker : WorkerStage E) (n : Nat) : Prop :=
  stage.pending = some n ∨ worker.pending = some n

structure Fits (r : R) (stage : RequestStage E) (worker : WorkerStage E) (permit : Option R)
    (writer : Option (R ⊕ C)) : Prop where
  permit : stage.carries = true ∨ worker.carries = true → permit = some r
  fresh : stage.unspawned = true → worker = .unspawned
  alone : stage.carries = true → worker.carries = false
  writer : stage.writes = true → writer = some (.inl r)

structure Newer (w : Server R C E) : Prop where
  pending : ∀ r n, Pending (w.requests r) (w.workers r) n → n < w.clock ∧
    ∀ old, w.analysis.active = some old → old.started < n
  active : ∀ old, w.analysis.active = some old → old.started < w.clock

structure Published (w : Server R C E) : Prop where
  generation : w.metadata.generation = w.analysis.generation
  bounded : w.analysis.generation ≤ u64Max
  named : (∀ c, w.clears c ≠ .taken) →
    w.metadata.activeEnvironment = w.analysis.active.map AnalysisSnapshot.environmentPath
  taken : ∀ c, w.clears c = .taken → w.analysis.active = none

structure Orderly (w : Server R C E) : Prop where
  fits : ∀ r, Fits r (w.requests r) (w.workers r) w.permit w.writer
  clears : ∀ c, (w.clears c).writes = true → w.writer = some (.inr c)
  newer : Newer w
  published : Published w

omit [DecidableEq R] [DecidableEq C] [DecidableEq E] in
theorem orderly_new : Orderly (Server.new R C E) where
  fits _ := ⟨fun h => h.elim nofun nofun, fun _ => rfl, fun _ => rfl, nofun⟩
  clears _ := nofun
  newer := ⟨fun _ _ h => h.elim nofun nofun, fun _ => nofun⟩
  published := ⟨rfl, Nat.zero_le _, fun _ => rfl, fun _ => nofun⟩

omit [DecidableEq E] in
theorem Pending.carries {stage : RequestStage E} {worker : WorkerStage E} {n : Nat} (h : Pending stage worker n) :
    stage.carries = true ∨ worker.carries = true := by
  rcases h with h | h
  · left
    cases stage with
    | installing snapshot => rfl
    | publishing snapshot => rfl
    | _ => cases h
  · right
    cases worker with
    | building path started => rfl
    | finished outcome => rfl
    | _ => cases h

omit [DecidableEq E] in
theorem RequestStage.carries_of_writes {stage : RequestStage E} (h : stage.writes = true) :
    stage.carries = true := by
  cases stage with
  | publishing snapshot => rfl
  | published snapshot => rfl
  | _ => cases h

-- The part of the state that one request and its worker move.
structure Local (R C E : Type) where
  stage : RequestStage E
  worker : WorkerStage E
  permit : Option R
  writer : Option (R ⊕ C)

def Server.move (w : Server R C E) (r : R) (l : Local R C E) : Server R C E :=
  { w with
    permit := l.permit
    writer := l.writer
    requests := Function.update w.requests r l.stage
    workers := Function.update w.workers r l.worker }

def Server.here (w : Server R C E) (r : R) : Local R C E := ⟨w.requests r, w.workers r, w.permit, w.writer⟩

structure LocalMove (w : Server R C E) (r : R) (l : Local R C E) : Prop where
  permit : l.permit = w.permit ∨ w.permit = none ∨ w.permit = some r
  writer : l.writer = w.writer ∨ w.writer = none ∨ w.writer = some (.inl r)
  fits : Fits r l.stage l.worker l.permit l.writer

omit [DecidableEq C] [DecidableEq E] in
theorem fits_move {w : Server R C E} (hw : Orderly w) {r : R} {l : Local R C E} (h : LocalMove w r l) :
    (∀ r', Fits r' ((w.move r l).requests r') ((w.move r l).workers r') l.permit l.writer) ∧
      ∀ c, (w.clears c).writes = true → l.writer = some (.inr c) := by
  refine ⟨?_, ?_⟩
  · intro r'
    dsimp only [Server.move]
    rcases eq_or_ne r' r with rfl | hne
    · rw [Function.update_self, Function.update_self]
      exact h.fits
    · rw [Function.update_of_ne hne, Function.update_of_ne hne]
      obtain ⟨hpermit, hfresh, halone, hwriter⟩ := hw.fits r'
      refine ⟨?_, hfresh, halone, ?_⟩
      · intro hcarries
        have hheld := hpermit hcarries
        rcases h.permit with h | h | h
        · rw [h, hheld]
        · rw [hheld] at h
          cases h
        · rw [hheld] at h
          exact absurd (Option.some.inj h) hne
      · intro hwrites
        have hheld := hwriter hwrites
        rcases h.writer with h | h | h
        · rw [h, hheld]
        · rw [hheld] at h
          cases h
        · rw [hheld] at h
          exact absurd (Sum.inl.inj (Option.some.inj h)) hne
  · intro c hwrites
    have hheld := hw.clears c hwrites
    rcases h.writer with h | h | h
    · rw [h, hheld]
    · rw [hheld] at h
      cases h
    · rw [hheld] at h
      cases h

-- A move that starts no build and publishes nothing.
structure QuietMove (w : Server R C E) (r : R) (l : Local R C E) : Prop extends LocalMove w r l where
  pending : ∀ n, Pending l.stage l.worker n → Pending (w.requests r) (w.workers r) n
  stage : l.stage = w.requests r ∨ (w.requests r).opened = true ∨
    ((w.requests r).passed = true ∧ l.stage.passed = true)

omit [DecidableEq C] [DecidableEq E] in
theorem orderly_move {w : Server R C E} (hw : Orderly w) {r : R} {l : Local R C E} (h : QuietMove w r l) :
    Orderly (w.move r l) := by
  obtain ⟨hfits, hclears⟩ := fits_move hw h.toLocalMove
  refine ⟨hfits, hclears, ⟨?_, hw.newer.active⟩, ⟨hw.published.generation, hw.published.bounded,
    hw.published.named, hw.published.taken⟩⟩
  intro r' n hn
  dsimp only [Server.move] at hn ⊢
  rcases eq_or_ne r' r with rfl | hne
  · rw [Function.update_self, Function.update_self] at hn
    exact hw.newer.pending r' n (h.pending n hn)
  · rw [Function.update_of_ne hne, Function.update_of_ne hne] at hn
    exact hw.newer.pending r' n hn

section

variable {r : R} {stage : RequestStage E} {worker : WorkerStage E} {permit : Option R} {writer : Option (R ⊕ C)}

omit [DecidableEq R] [DecidableEq C] in
omit [DecidableEq E] in
theorem Fits.quiet (hstage : stage.carries = false) (hspawned : stage.unspawned = false)
    (hworker : worker.carries = false) : Fits r stage worker permit writer where
  permit h := by
    rw [hstage, hworker] at h
    exact h.elim nofun nofun
  fresh h := by
    rw [hspawned] at h
    cases h
  alone _ := hworker
  writer h := by
    have hcarries := RequestStage.carries_of_writes h
    rw [hstage] at hcarries
    cases hcarries

omit [DecidableEq R] [DecidableEq C] in
omit [DecidableEq E] in
theorem Fits.working (hpermit : permit = some r) (hstage : stage.carries = false)
    (hspawned : stage.unspawned = false) : Fits r stage worker permit writer where
  permit _ := hpermit
  fresh h := by
    rw [hspawned] at h
    cases h
  alone h := by
    rw [hstage] at h
    cases h
  writer h := by
    have hcarries := RequestStage.carries_of_writes h
    rw [hstage] at hcarries
    cases hcarries

omit [DecidableEq R] [DecidableEq C] [DecidableEq E] in
theorem Fits.carrying (hpermit : permit = some r) (hspawned : stage.unspawned = false)
    (hworker : worker.carries = false) (hwriter : stage.writes = true → writer = some (.inl r)) :
    Fits r stage worker permit writer where
  permit _ := hpermit
  fresh h := by
    rw [hspawned] at h
    cases h
  alone _ := hworker
  writer := hwriter

omit [DecidableEq R] [DecidableEq C] [DecidableEq E] in
theorem Fits.running (h : Fits r stage worker permit writer) (hworker : worker.carries = true) :
    permit = some r ∧ stage.carries = false ∧ stage.unspawned = false := by
  refine ⟨h.permit (.inr hworker), ?_, ?_⟩
  · cases hstage : stage.carries with
    | false => rfl
    | true =>
      have hidle := h.alone hstage
      rw [hworker] at hidle
      cases hidle
  · cases hstage : stage.unspawned with
    | false => rfl
    | true =>
      have hidle := h.fresh hstage
      subst hidle
      cases hworker

omit [DecidableEq E] in
theorem pending_none (hstage : stage.pending = none) (hworker : worker.pending = none) (n : Nat) :
    ¬ Pending stage worker n := by
  rintro (h | h)
  · rw [hstage] at h
    cases h
  · rw [hworker] at h
    cases h

end

end Analysis
