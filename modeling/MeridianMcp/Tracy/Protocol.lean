import MeridianMcp.Tracy.Registry

namespace Tracy

open MeridianMcp Effects

variable {I : Type} [DecidableEq I]

inductive RegistryChange (w v : Transport I) : Prop
  | kept (hregistry : v.registry = w.registry) (hissued : v.issued = w.issued)
  | inserted (i : I) (n : Nat) (hqueued : w.requests i = .queued n) (hterminal : w.registry.terminal = none)
      (hregistry : v.registry = { w.registry with pending := w.registry.pending.insert n i })
      (hissued : v.issued = insert n w.issued)
  | removed (n : Nat) (hregistry : v.registry = { w.registry with pending := w.registry.pending.erase n })
      (hissued : v.issued = w.issued)
  | abandoned (n : Nat) (hpending : n ∈ w.registry.pending.keys)
      (hregistry : v.registry = { w.registry with
        pending := w.registry.pending.erase n, abandoned := insert n w.registry.abandoned })
      (hissued : v.issued = w.issued)
  | accepted (n : Nat) (hregistry : v.registry = { w.registry with abandoned := w.registry.abandoned.erase n })
      (hissued : v.issued = w.issued)
  | failed (message : Text) (hterminal : w.registry.terminal = none)
      (hregistry : v.registry = ⟨.empty, ∅, some message⟩) (hissued : v.issued = w.issued)
      (hcondemned : ∀ i, w.isPending i = true → v.condemned i = true)

theorem failTransport_change (w : Transport I) (message : Text) {v : Transport I}
    (hregistry : v.registry = (w.failTransport message).registry)
    (hissued : v.issued = (w.failTransport message).issued)
    (hcondemned : v.condemned = (w.failTransport message).condemned) : RegistryChange w v := by
  rw [Transport.failTransport] at hregistry hissued hcondemned
  split at hregistry
  · rename_i hterminal
    rw [if_pos hterminal] at hissued
    exact .kept hregistry hissued
  · rename_i hterminal
    rw [if_neg hterminal] at hissued hcondemned
    refine .failed message (Option.not_isSome_iff_eq_none.mp hterminal) hregistry hissued ?_
    intro i hi
    rw [hcondemned]
    dsimp only
    rw [hi, Bool.or_true]

theorem releaseGuard_change (w : Transport I) (i : I) (id : Nat) (result : Option RequestResult) :
    RegistryChange w (w.releaseGuard i id result) := by
  rw [Transport.releaseGuard]
  split
  · exact .kept rfl rfl
  · rename_i j hj
    dsimp only
    split
    · exact .removed id rfl rfl
    · split
      · exact .removed id rfl rfl
      · exact .abandoned id (mem_pending hj) rfl rfl

theorem respond_change (w : Transport I) (document : Document) : RegistryChange w (w.respond document) := by
  rw [Transport.respond]
  split
  · exact .kept rfl rfl
  · split
    · exact .removed document.id rfl rfl
    · split
      · exact .accepted document.id rfl rfl
      · exact .kept rfl rfl

theorem admit_change {w : Transport I} {i : I} {id : Nat} (hqueued : w.requests i = .queued id) :
    RegistryChange w (w.enter i id) := by
  rw [Transport.enter]
  split
  · exact .kept rfl rfl
  · split
    · exact .kept rfl rfl
    · rename_i hterminal
      split
      · exact .kept rfl rfl
      · exact .inserted i id hqueued hterminal rfl rfl

theorem perform_change {w v : Transport I} {step : TransportStep I} (h : w.perform step = some v) :
    RegistryChange w v := by
  cases step with
  | call i isObject =>
    simp only [Transport.perform] at h
    split at h
    · cases h
      exact .kept rfl rfl
    · cases h
  | number i requestLength =>
    simp only [Transport.perform] at h
    split at h
    · cases h
      rw [Transport.takeNumber]
      split
      · exact .kept rfl rfl
      · exact .kept rfl rfl
    · cases h
  | enter i =>
    simp only [Transport.perform] at h
    split at h
    · rename_i id hqueued hholder
      cases h
      exact admit_change hqueued
    · cases h
  | wrote i failure =>
    simp only [Transport.perform] at h
    split at h
    · split at h
      all_goals
        cases h
        exact .kept rfl rfl
    · cases h
  | expire i =>
    simp only [Transport.perform] at h
    split at h
    all_goals
      cases h
      try exact .kept rfl rfl
  | cancel i =>
    simp only [Transport.perform] at h
    split at h
    all_goals
      cases h
      try exact .kept rfl rfl
  | receive i =>
    simp only [Transport.perform] at h
    split at h
    · cases h
      exact .kept rfl rfl
    · cases h
  | dropGuard i =>
    simp only [Transport.perform] at h
    split at h
    · cases h
      exact failTransport_change w _ rfl rfl rfl
    · cases h
      exact releaseGuard_change w i _ _
    · cases h
      exact failTransport_change w _ rfl rfl rfl
    · cases h
  | send i =>
    simp only [Transport.perform] at h
    split at h
    · cases h
      exact .kept rfl rfl
    · cases h
  | frame frame =>
    simp only [Transport.perform] at h
    split at h
    · split at h
      · cases h
        exact .kept rfl rfl
      · cases h
        exact respond_change w _
    · cases h
  | failReader =>
    simp only [Transport.perform] at h
    split at h
    · cases h
      exact failTransport_change w _ rfl rfl rfl
    · cases h
  | stopReader =>
    simp only [Transport.perform] at h
    split at h
    · split at h
      · cases h
        exact .kept rfl rfl
      · cases h
    · cases h
  | dropOwner =>
    cases h
    exact failTransport_change w _ rfl rfl rfl
  | closeWriter =>
    simp only [Transport.perform] at h
    split at h
    · cases h
      exact .kept rfl rfl
    · cases h

-- A response that is delivered to a request or accepted as the late answer to an abandoned one.
def Consumes (n : Nat) (w : Transport I) (step : TransportStep I) : Prop :=
  ∃ document, step = .frame (.response document) ∧ document.id = n ∧ w.registry.terminal = none ∧
    (n ∈ w.registry.pending.keys ∨ n ∈ w.registry.abandoned)

structure RegistryProtocol (trace : List (Transport I × TransportStep I)) (w : Transport I) : Prop where
  uniqueIds : ∀ v ∈ visited trace w, ∀ i j n, (v.requests i).id = some n → (v.requests j).id = some n → i = j
  disjoint : ∀ v ∈ visited trace w, Disjoint v.registry.pending.keys v.registry.abandoned
  bounded : ∀ v ∈ visited trace w, v.registry.pending.keys.card ≤ maxPendingRequests ∧
    v.registry.abandoned.card ≤ maxAbandonedRequests
  delivered : ∀ v ∈ visited trace w, ∀ i document, (v.cells i).content = some (.ok document) →
    (v.requests i).id = some document.id
  consumedOnce : ∀ n, trace.Pairwise fun m m' => Consumes n m.1 m.2 → ¬ Consumes n m'.1 m'.2
  accepted : ∀ m ∈ trace, ∀ document v, m.2 = .frame (.response document) →
    m.1.perform m.2 = some v → m.1.registry.terminal = none → document.id ∈ m.1.registry.abandoned →
      v.registry = { m.1.registry with abandoned := m.1.registry.abandoned.erase document.id } ∧
        v.reader = m.1.reader
  refused : ∀ m ∈ trace, ∀ document v, m.2 = .frame (.response document) → m.1.perform m.2 = some v →
    m.1.registry.terminal = none → ¬ Consumes document.id m.1 m.2 → v.refused = true
  refusedFails : ∀ v ∈ visited trace w, v.refused = true → v.registry.terminal.isSome = true ∨
    ∃ message, v.reader = .failing message ∧
      ∀ u, v.perform .failReader = some u → u.registry.terminal.isSome = true
  refusedStays : (visited trace w).Pairwise fun v u => v.refused = true → u.refused = true
  terminalStays : (visited trace w).Pairwise fun v u =>
    ∀ message, v.registry.terminal = some message → u.registry.terminal = some message
  emptied : ∀ v ∈ visited trace w, v.registry.terminal.isSome = true →
    v.registry.pending.keys = ∅ ∧ v.registry.abandoned = ∅
  noAdmission : ∀ m ∈ trace, ∀ v, m.1.perform m.2 = some v → m.1.registry.terminal.isSome = true →
    v.issued = m.1.issued
  condemned : ∀ m ∈ trace, ∀ v, m.1.perform m.2 = some v → m.1.registry.terminal = none →
    v.registry.terminal.isSome = true → ∀ n i, m.1.registry.pending.get n = some i → v.condemned i = true
  condemnedStays : (visited trace w).Pairwise fun v u => ∀ i, v.condemned i = true → u.condemned i = true
  condemnedFails : ∀ v ∈ visited trace w, ∀ i, v.condemned i = true →
    (∃ message, v.registry.terminal = some message ∧ (v.cells i).content = some (.error message)) ∧
      ∀ value, (v.requests i).result ≠ some (.ok value)

structure Grows (w v : Transport I) : Prop where
  refused : w.refused = true → v.refused = true
  condemned : ∀ i, w.condemned i = true → v.condemned i = true

omit [DecidableEq I] in
theorem Grows.refl (w : Transport I) : Grows w w := ⟨id, fun _ => id⟩

theorem failTransport_grows (w : Transport I) (message : Text) : Grows w (w.failTransport message) := by
  rw [Transport.failTransport]
  split
  · exact .refl w
  · refine ⟨id, fun i hi => ?_⟩
    dsimp only
    rw [hi, Bool.true_or]

theorem takeNumber_grows (w : Transport I) (i : I) (requestLength : Nat) :
    Grows w (w.takeNumber i requestLength) := by
  rw [Transport.takeNumber]
  split
  all_goals exact ⟨id, fun _ => id⟩

theorem admit_grows (w : Transport I) (i : I) (id : Nat) : Grows w (w.enter i id) := by
  rw [Transport.enter]
  split
  · exact ⟨fun h => h, fun _ h => h⟩
  · split
    · exact ⟨fun h => h, fun _ h => h⟩
    · split
      all_goals exact ⟨fun h => h, fun _ h => h⟩

theorem releaseGuard_grows (w : Transport I) (i : I) (id : Nat) (result : Option RequestResult) :
    Grows w (w.releaseGuard i id result) := by
  rw [Transport.releaseGuard]
  split
  · exact ⟨fun h => h, fun _ h => h⟩
  · dsimp only
    split
    · exact ⟨fun h => h, fun _ h => h⟩
    · split
      all_goals exact ⟨fun h => h, fun _ h => h⟩

theorem respond_grows (w : Transport I) (document : Document) : Grows w (w.respond document) := by
  rw [Transport.respond]
  split
  · exact .refl w
  · split
    · exact ⟨id, fun _ => id⟩
    · split
      · exact ⟨id, fun _ => id⟩
      · exact ⟨fun _ => rfl, fun _ => id⟩

theorem perform_grows {w v : Transport I} {step : TransportStep I} (h : w.perform step = some v) : Grows w v := by
  cases step with
  | number i requestLength =>
    simp only [Transport.perform] at h
    split at h
    · cases h
      exact takeNumber_grows w i requestLength
    · cases h
  | enter i =>
    simp only [Transport.perform] at h
    split at h
    · cases h
      exact admit_grows w i _
    · cases h
  | dropGuard i =>
    simp only [Transport.perform] at h
    split at h
    · cases h
      have hgrows := failTransport_grows w "collector request frame was abandoned during write".toList
      exact ⟨hgrows.refused, hgrows.condemned⟩
    · cases h
      exact releaseGuard_grows w i _ _
    · cases h
      have hgrows := failTransport_grows w "collector abandoned-request capacity exceeded".toList
      exact ⟨hgrows.refused, hgrows.condemned⟩
    · cases h
  | frame frame =>
    simp only [Transport.perform] at h
    split at h
    · split at h
      · cases h
        exact ⟨id, fun _ => id⟩
      · cases h
        exact respond_grows w _
    · cases h
  | failReader =>
    simp only [Transport.perform] at h
    split at h
    · rename_i message _
      cases h
      have hgrows := failTransport_grows w message
      exact ⟨hgrows.refused, hgrows.condemned⟩
    · cases h
  | stopReader =>
    simp only [Transport.perform] at h
    split at h
    · split at h
      · cases h
        exact ⟨id, fun _ => id⟩
      · cases h
    · cases h
  | dropOwner =>
    cases h
    exact failTransport_grows w _
  | wrote i failure =>
    simp only [Transport.perform] at h
    split at h
    · split at h
      all_goals
        cases h
        exact ⟨id, fun _ => id⟩
    · cases h
  | _ =>
    simp only [Transport.perform] at h
    split at h
    all_goals
      cases h
      try exact ⟨id, fun _ => id⟩

theorem spent_of_consumes {w v : Transport I} {step : TransportStep I} {n : Nat} (hw : Coherent w)
    (h : w.perform step = some v) (hconsumes : Consumes n w step) : spent v n := by
  obtain ⟨document, rfl, rfl, hterminal, hknown⟩ := hconsumes
  have hissued : document.id ∈ w.issued :=
    hknown.elim (hw.pendingIssued document.id) (hw.abandonedIssued document.id)
  simp only [Transport.perform, Frame.parse] at h
  split at h
  · cases h
    rw [Transport.respond, hterminal, if_neg (by simp)]
    split
    · rename_i i hi
      refine ⟨hissued, fun hmem => (FinMap.mem_keys_erase.mp hmem).1 rfl, ?_⟩
      exact hw.disjoint document.id (mem_pending hi)
    · rename_i hnone
      have habsent : document.id ∉ w.registry.pending.keys := by
        rw [FinMap.mem_keys, hnone]
        exact fun h => h rfl
      split
      · exact ⟨hissued, habsent, Finset.notMem_erase _ _⟩
      · rename_i hnot
        exact absurd hknown (not_or.mpr ⟨habsent, hnot⟩)
  · cases h

theorem spent_step {w v : Transport I} {step : TransportStep I} {n : Nat} (hw : Coherent w)
    (h : w.perform step = some v) (hspent : spent w n) : spent v n := by
  obtain ⟨hissued, hpending, habandoned⟩ := hspent
  rw [spent]
  cases perform_change h with
  | kept hregistry hsame =>
    rw [hregistry, hsame]
    exact ⟨hissued, hpending, habandoned⟩
  | inserted i m hqueued hterminal hregistry hgrown =>
    rw [hregistry, hgrown]
    refine ⟨Finset.mem_insert_of_mem hissued, ?_, habandoned⟩
    intro hmem
    rcases FinMap.mem_keys_insert.mp hmem with rfl | hmem
    · exact hw.unissued hqueued hissued
    · exact hpending hmem
  | removed m hregistry hsame =>
    rw [hregistry, hsame]
    exact ⟨hissued, fun hmem => hpending (FinMap.mem_keys_erase.mp hmem).2, habandoned⟩
  | abandoned m hm hregistry hsame =>
    rw [hregistry, hsame]
    refine ⟨hissued, fun hmem => hpending (FinMap.mem_keys_erase.mp hmem).2, ?_⟩
    intro hmem
    rcases Finset.mem_insert.mp hmem with rfl | hmem
    · exact hpending hm
    · exact habandoned hmem
  | accepted m hregistry hsame =>
    rw [hregistry, hsame]
    exact ⟨hissued, hpending, fun hmem => habandoned (Finset.mem_of_mem_erase hmem)⟩
  | failed message hterminal hregistry hsame hcondemned =>
    rw [hregistry, hsame]
    exact ⟨hissued, Finset.notMem_empty n, Finset.notMem_empty n⟩

omit [DecidableEq I] in
theorem not_consumes_of_spent {w : Transport I} {step : TransportStep I} {n : Nat} (h : spent w n) :
    ¬ Consumes n w step := by
  rintro ⟨document, -, rfl, -, hknown⟩
  exact hknown.elim h.2.1 h.2.2

theorem terminal_step {w v : Transport I} {step : TransportStep I} (h : w.perform step = some v)
    {message : Text} (hterminal : w.registry.terminal = some message) :
    v.registry.terminal = some message ∧ v.issued = w.issued := by
  cases perform_change h with
  | kept hregistry hsame => exact ⟨by rw [hregistry, hterminal], hsame⟩
  | removed n hregistry hsame => exact ⟨by rw [hregistry, hterminal], hsame⟩
  | abandoned n hpending hregistry hsame => exact ⟨by rw [hregistry, hterminal], hsame⟩
  | accepted n hregistry hsame => exact ⟨by rw [hregistry, hterminal], hsame⟩
  | inserted i n hqueued hnone hregistry hgrown =>
    rw [hterminal] at hnone
    cases hnone
  | failed message hnone hregistry hsame hcondemned =>
    rw [hterminal] at hnone
    cases hnone

theorem condemned_step {w v : Transport I} {step : TransportStep I} (hw : Coherent w)
    (h : w.perform step = some v) (hnone : w.registry.terminal = none)
    (hsome : v.registry.terminal.isSome = true) {n : Nat} {i : I}
    (hi : w.registry.pending.get n = some i) : v.condemned i = true := by
  have hunfailed : v.registry.terminal = w.registry.terminal → v.condemned i = true := by
    intro hsame
    rw [hsame, hnone] at hsome
    cases hsome
  cases perform_change h with
  | kept hregistry hsame => exact hunfailed (by rw [hregistry])
  | removed m hregistry hsame => exact hunfailed (by rw [hregistry])
  | abandoned m hpending hregistry hsame => exact hunfailed (by rw [hregistry])
  | accepted m hregistry hsame => exact hunfailed (by rw [hregistry])
  | inserted j m hqueued hterminal hregistry hgrown => exact hunfailed (by rw [hregistry])
  | failed message hterminal hregistry hsame hcondemned =>
    exact hcondemned i ((isPending_iff hw).mpr ⟨n, hi⟩)

theorem accepted_step {w v : Transport I} {document : Document} (hw : Coherent w)
    (h : w.perform (.frame (.response document)) = some v) (hterminal : w.registry.terminal = none)
    (habandoned : document.id ∈ w.registry.abandoned) :
    v.registry = { w.registry with abandoned := w.registry.abandoned.erase document.id } ∧
      v.reader = w.reader := by
  have hnone : w.registry.pending.get document.id = none := by
    by_contra hsome
    exact hw.disjoint document.id ((w.registry.pending.mem_keys _).mpr hsome) habandoned
  simp only [Transport.perform, Frame.parse] at h
  split at h
  · cases h
    rw [Transport.respond, hterminal, if_neg (by simp), hnone]
    dsimp only
    rw [if_pos habandoned]
    exact ⟨rfl, rfl⟩
  · cases h

theorem refused_step {w v : Transport I} {document : Document}
    (h : w.perform (.frame (.response document)) = some v) (hterminal : w.registry.terminal = none)
    (hunknown : ¬ Consumes document.id w (.frame (.response document))) : v.refused = true := by
  have hnot : ¬ (document.id ∈ w.registry.pending.keys ∨ document.id ∈ w.registry.abandoned) := by
    intro hknown
    exact hunknown ⟨document, rfl, rfl, hterminal, hknown⟩
  obtain ⟨hpending, habandoned⟩ := not_or.mp hnot
  have hnone : w.registry.pending.get document.id = none := by
    by_contra hsome
    exact hpending ((w.registry.pending.mem_keys _).mpr hsome)
  simp only [Transport.perform, Frame.parse] at h
  split at h
  · cases h
    rw [Transport.respond, hterminal, if_neg (by simp), hnone]
    dsimp only
    rw [if_neg habandoned]
  · cases h

theorem registry_protocol {trace : List (Transport I × TransportStep I)} {w : Transport I}
    (hrun : Transport.Runs trace w) : RegistryProtocol trace w := by
  have hcoherent := hrun.invariant coherent_new fun _ _ _ hw h => coherent_step hw h
  have hcoherent' : ∀ m ∈ trace, Coherent m.1 := fun m hm => hcoherent m.1 (mem_visited_of_mem hm)
  constructor
  · exact fun v hv => (hcoherent v hv).unique
  · exact fun v hv => Finset.disjoint_left.mpr (hcoherent v hv).disjoint
  · exact fun v hv => ⟨(hcoherent v hv).pendingBound, (hcoherent v hv).abandonedBound⟩
  · exact fun v hv => (hcoherent v hv).addressed
  · intro n
    have hspent := hrun.afterwards (A := Consumes n) (B := fun v => spent v n) coherent_new
      (fun _ _ _ hw h => coherent_step hw h) (fun _ _ _ hw h hc => spent_of_consumes hw h hc)
      (fun _ _ _ hw h hs => spent_step hw h hs)
    exact hspent.imp fun h hconsumes => not_consumes_of_spent (h hconsumes)
  · intro m hm document v hstep h hterminal habandoned
    rw [hstep] at h
    exact accepted_step (hcoherent' m hm) h hterminal habandoned
  · intro m hm document v hstep h hterminal hunknown
    rw [hstep] at h hunknown
    exact refused_step h hterminal hunknown
  · intro v hv hrefused
    rcases (hcoherent v hv).refused hrefused with hterminal | ⟨message, hfailing⟩
    · exact .inl hterminal
    · refine .inr ⟨message, hfailing, ?_⟩
      intro u hu
      simp only [Transport.perform, hfailing] at hu
      cases hu
      exact terminal_failTransport v message
  · exact hrun.pairwise coherent_new (fun _ _ _ hw h => coherent_step hw h) (fun _ h => h)
      (fun _ _ _ huv hvw h => hvw (huv h)) (fun _ _ _ _ h => (perform_grows h).refused)
  · exact hrun.pairwise coherent_new (fun _ _ _ hw h => coherent_step hw h) (fun _ _ h => h)
      (fun _ _ _ huv hvw message h => hvw message (huv message h))
      (fun _ _ _ _ h message hterminal => (terminal_step h hterminal).1)
  · exact fun v hv => (hcoherent v hv).emptied
  · intro m _ v h hsome
    obtain ⟨message, hterminal⟩ := Option.isSome_iff_exists.mp hsome
    exact (terminal_step h hterminal).2
  · intro m hm v h hnone hsome n i hi
    exact condemned_step (hcoherent' m hm) h hnone hsome hi
  · exact hrun.pairwise coherent_new (fun _ _ _ hw h => coherent_step hw h) (fun _ _ h => h)
      (fun _ _ _ huv hvw i h => hvw i (huv i h)) (fun _ _ _ _ h => (perform_grows h).condemned)
  · intro v hv i hi
    obtain ⟨message, hterminal, hcontent⟩ := (hcoherent v hv).condemned i hi
    refine ⟨⟨message, hterminal, hcontent⟩, ?_⟩
    intro value hvalue
    obtain ⟨document, hsent⟩ := (hcoherent v hv).answered i value hvalue
    rw [hsent] at hcontent
    cases hcontent

def lateDocument : Document := ⟨1, some true, none, none, ⟨none, none⟩, some []⟩

-- A request times out; its response comes late, and then once more.
def lateSchedule : List (TransportStep Unit) :=
  [.call () true, .number () 64, .enter (), .wrote () none, .expire (), .dropGuard (),
    .frame (.response lateDocument), .frame (.response lateDocument), .failReader]

def afterLateResponse : List (Transport Unit × TransportStep Unit) × Transport Unit :=
  replay Transport.perform lateSchedule (.new Unit)

theorem registry_protocol_late : RegistryProtocol afterLateResponse.1 afterLateResponse.2 ∧
    afterLateResponse.1.length = 9 ∧
      afterLateResponse.2.registry.terminal = some (Transport.unknownId 1) :=
  ⟨registry_protocol (Trace.replay lateSchedule), by decide, by decide⟩

end Tracy
