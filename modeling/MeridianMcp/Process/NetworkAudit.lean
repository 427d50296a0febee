import Mathlib.Data.List.Induction
import Mathlib.Data.List.Nodup
import MeridianMcp.Text

namespace NetworkAudit

open MeridianMcp

inductive EndpointProtocol where
  | tcp
  | udp
  deriving DecidableEq

structure ObservationKey where
  protocol : EndpointProtocol
  processId : Nat
  localEndpoint : Text
  remoteEndpoint : Option Text
  deriving DecidableEq

-- An observation is its key, beside the times.
structure EndpointObservation where
  key : ObservationKey
  firstSeenMs : Nat
  lastSeenMs : Nat

structure NetworkAuditReport where
  requested : Bool
  available : Bool
  captureComplete : Bool
  truncated : Bool
  observations : List EndpointObservation
  warning : Option Text

def maxNetworkObservations : Nat := 256

-- `indices` is a hash map.
structure NetworkAuditCollector where
  report : NetworkAuditReport
  indices : ObservationKey → Option Nat

-- What the system's tables answer for the processes of a sample.
structure Sample where
  processIds : List Nat
  elapsedMs : Nat
  answer : Except Text (List ObservationKey)

namespace NetworkAuditCollector

-- On Windows, where there are samples.
def new (requested : Bool) : NetworkAuditCollector where
  report := ⟨requested, requested, false, false, [], none⟩
  indices _ := none

def seenAgain (observations : List EndpointObservation) (index elapsedMs : Nat) : List EndpointObservation :=
  observations.modify index fun observation => { observation with lastSeenMs := elapsedMs }

def record (c : NetworkAuditCollector) (key : ObservationKey) (elapsedMs : Nat) : NetworkAuditCollector :=
  match c.indices key with
  | some index =>
    { c with report := { c.report with observations := seenAgain c.report.observations index elapsedMs } }
  | none =>
    if maxNetworkObservations ≤ c.report.observations.length then
      { c with report := { c.report with truncated := true } }
    else
      { report := { c.report with observations := c.report.observations ++ [⟨key, elapsedMs, elapsedMs⟩] }
        indices := Function.update c.indices key (some c.report.observations.length) }

def sample (c : NetworkAuditCollector) (s : Sample) : NetworkAuditCollector :=
  if c.report.requested = false ∨ c.report.available = false ∨ s.processIds = [] then c
  else
    match s.answer with
    | .ok observations => observations.foldl (fun c key => c.record key s.elapsedMs) c
    | .error error => { c with report := { c.report with
        available := false, warning := some ("network_audit_unavailable: ".toList ++ error) } }

def finish (c : NetworkAuditCollector) : NetworkAuditReport := c.report

end NetworkAuditCollector

inductive ProcessRole where
  | meridianMcp
  | dreamDaemon
  | dreamSeeker
  | collector
  deriving DecidableEq

structure ProcessIdentity where
  pid : Nat
  startedAtIdentity : Nat
  role : ProcessRole

structure OwnedEndpointObservation where
  owner : ProcessIdentity
  protocol : EndpointProtocol
  localEndpoint : Text
  remoteEndpoint : Option Text
  firstSeenMs : Nat
  lastSeenMs : Nat

def OwnedEndpointObservation.key (endpoint : OwnedEndpointObservation) : EndpointProtocol × Text × Option Text :=
  (endpoint.protocol, endpoint.localEndpoint, endpoint.remoteEndpoint)

structure NetworkEvidence where
  mode : Text
  networkIsolationConfirmed : Bool
  captureComplete : Bool
  listenerVerified : Bool
  collectorConnectionVerified : Bool
  ownedLoopbackEndpoints : List OwnedEndpointObservation
  observationFailures : List Text

def endpointIsLoopbackPort (endpoint : Text) (port : Nat) : Bool :=
  (':' :: Nat.toDigits 10 port).isSuffixOf endpoint &&
    ("127.".toList.isPrefixOf endpoint || "[::1]".toList.isPrefixOf endpoint)

def Relevant (profilerPort : Nat) (key : ObservationKey) : Prop :=
  endpointIsLoopbackPort key.localEndpoint profilerPort = true ∨
    key.remoteEndpoint.any (endpointIsLoopbackPort · profilerPort) = true

instance relevant_decidable (profilerPort : Nat) (key : ObservationKey) : Decidable (Relevant profilerPort key) :=
  inferInstanceAs (Decidable (_ ∨ _))

def ownedEndpoint (profilerPort : Nat) (identities : List ProcessIdentity) (observation : EndpointObservation) :
    Option OwnedEndpointObservation :=
  (identities.find? fun identity => identity.pid = observation.key.processId).bind fun owner =>
    if Relevant profilerPort observation.key then
      some ⟨owner, observation.key.protocol, observation.key.localEndpoint, observation.key.remoteEndpoint,
        observation.firstSeenMs, observation.lastSeenMs⟩
    else none

def tracyNetworkEvidence (report : NetworkAuditReport) (profilerPort : Nat) (identities : List ProcessIdentity)
    (listenerVerified collectorConnectionVerified : Bool) : NetworkEvidence where
  mode := "best_effort_owned_loopback".toList
  networkIsolationConfirmed := false
  captureComplete := false
  listenerVerified := listenerVerified
  collectorConnectionVerified := collectorConnectionVerified
  ownedLoopbackEndpoints := report.observations.filterMap (ownedEndpoint profilerPort identities)
  observationFailures :=
    report.warning.toList ++ if report.truncated then ["network_observations_truncated".toList] else []

open NetworkAuditCollector

-- The keys in the order in which they first came.
def distinct (sightings : List (ObservationKey × Nat)) : List ObservationKey :=
  sightings.foldl (fun keys sighting => if sighting.1 ∈ keys then keys else keys ++ [sighting.1]) []

def firstTime (sightings : List (ObservationKey × Nat)) (key : ObservationKey) : Option Nat :=
  (sightings.find? fun sighting => sighting.1 = key).map Prod.snd

def lastTime (sightings : List (ObservationKey × Nat)) (key : ObservationKey) : Option Nat :=
  (sightings.reverse.find? fun sighting => sighting.1 = key).map Prod.snd

-- What a sample comes to in an audit that is available.
def Sample.observed (s : Sample) : List (ObservationKey × Nat) :=
  match s.answer with
  | .ok observations => if s.processIds = [] then [] else observations.map fun key => (key, s.elapsedMs)
  | .error _ => []

def Sample.failure (s : Sample) : Option Text :=
  match s.answer with
  | .ok _ => none
  | .error error => if s.processIds = [] then none else some ("network_audit_unavailable: ".toList ++ error)

-- The audit stops at the first sample that fails.
def recorded (requested : Bool) (samples : List Sample) : List (ObservationKey × Nat) :=
  if requested then (samples.takeWhile fun s => s.failure.isNone).flatMap Sample.observed else []

def warned (requested : Bool) (samples : List Sample) : Option Text :=
  if requested then samples.findSome? Sample.failure else none

section Sightings

variable {sightings : List (ObservationKey × Nat)} {key other : ObservationKey} {time : Nat}

theorem distinct_append : distinct (sightings ++ [(key, time)]) =
    if key ∈ distinct sightings then distinct sightings else distinct sightings ++ [key] := by
  rw [distinct, List.foldl_append, List.foldl_cons, List.foldl_nil, distinct]

theorem nodup_distinct (sightings : List (ObservationKey × Nat)) : (distinct sightings).Nodup := by
  induction sightings using List.reverseRecOn with
  | nil => exact List.nodup_nil
  | append_singleton sightings sighting ih =>
    rw [distinct_append]
    split
    · exact ih
    · rename_i hnew
      exact ih.append (List.nodup_singleton _) (List.disjoint_singleton.mpr hnew)

theorem mem_distinct : key ∈ distinct sightings ↔ key ∈ sightings.map Prod.fst := by
  induction sightings using List.reverseRecOn with
  | nil => exact Iff.rfl
  | append_singleton sightings sighting ih =>
    rw [distinct_append, List.map_append, List.mem_append, ← ih, List.map_singleton, List.mem_singleton]
    split
    · rename_i hold
      exact (or_iff_left_of_imp fun heq => heq ▸ hold).symm
    · rw [List.mem_append, List.mem_singleton]

theorem firstTime_old {first : Nat} (h : firstTime sightings key = some first) :
    firstTime (sightings ++ [(other, time)]) key = some first := by
  rw [firstTime, Option.map_eq_some_iff] at h
  obtain ⟨sighting, hfound, hfirst⟩ := h
  rw [firstTime, List.find?_append, hfound, Option.some_or, Option.map_some, hfirst]

theorem firstTime_new (h : key ∉ distinct sightings) : firstTime (sightings ++ [(key, time)]) key = some time := by
  have hnone : sightings.find? (fun sighting => sighting.1 = key) = none := by
    rw [List.find?_eq_none]
    intro sighting hin heq
    rw [mem_distinct] at h
    exact h (List.mem_map.mpr ⟨sighting, hin, of_decide_eq_true heq⟩)
  rw [firstTime, List.find?_append, hnone, Option.none_or]
  simp

theorem lastTime_self : lastTime (sightings ++ [(key, time)]) key = some time := by
  rw [lastTime, List.reverse_append, List.reverse_singleton, List.singleton_append]
  simp

theorem lastTime_of_ne (h : other ≠ key) : lastTime (sightings ++ [(other, time)]) key = lastTime sightings key := by
  rw [lastTime, List.reverse_append, List.reverse_singleton, List.singleton_append]
  simp [h, lastTime]

end Sightings

-- What the report holds of the sightings recorded.
structure Kept (sightings : List (ObservationKey × Nat)) (c : NetworkAuditCollector) : Prop where
  keys : c.report.observations.map EndpointObservation.key = (distinct sightings).take maxNetworkObservations
  first : ∀ observation ∈ c.report.observations, firstTime sightings observation.key = some observation.firstSeenMs
  last : ∀ observation ∈ c.report.observations, lastTime sightings observation.key = some observation.lastSeenMs
  truncated : c.report.truncated = decide (maxNetworkObservations < (distinct sightings).length)
  indices : ∀ key index, c.indices key = some index ↔
    (c.report.observations.map EndpointObservation.key)[index]? = some key

variable {sightings : List (ObservationKey × Nat)} {c : NetworkAuditCollector}

theorem kept_new (requested : Bool) : Kept [] (.new requested) := by
  refine ⟨rfl, fun observation hin => ?_, fun observation hin => ?_, rfl, fun key index => ?_⟩
  · exact absurd hin List.not_mem_nil
  · exact absurd hin List.not_mem_nil
  · refine ⟨fun hindex => ?_, fun hindex => ?_⟩
    · cases hindex
    · cases hindex

theorem Kept.nodup (h : Kept sightings c) : (c.report.observations.map EndpointObservation.key).Nodup := by
  rw [h.keys]
  exact (nodup_distinct sightings).sublist (List.take_sublist _ _)

theorem Kept.length_eq (h : Kept sightings c) :
    c.report.observations.length = min maxNetworkObservations (distinct sightings).length := by
  have hlength := congrArg List.length h.keys
  rwa [List.length_map, List.length_take] at hlength

theorem Kept.missing (h : Kept sightings c) {key : ObservationKey} (hindex : c.indices key = none) :
    key ∉ c.report.observations.map EndpointObservation.key := by
  intro hin
  obtain ⟨place, hplace⟩ := List.mem_iff_getElem?.mp hin
  rw [(h.indices key place).mpr hplace] at hindex
  cases hindex

-- A sighting of a key without an observation leaves the times of the others.
theorem Kept.last_other (h : Kept sightings c) {key : ObservationKey} (hindex : c.indices key = none)
    (elapsedMs : Nat) {observation : EndpointObservation} (hin : observation ∈ c.report.observations) :
    lastTime (sightings ++ [(key, elapsedMs)]) observation.key = some observation.lastSeenMs := by
  have hne : key ≠ observation.key := fun heq => h.missing hindex (heq ▸ List.mem_map_of_mem hin)
  rw [lastTime_of_ne hne]
  exact h.last observation hin

theorem keys_seenAgain (observations : List EndpointObservation) (index elapsedMs : Nat) :
    (seenAgain observations index elapsedMs).map EndpointObservation.key =
      observations.map EndpointObservation.key := by
  induction observations generalizing index with
  | nil => simp [seenAgain]
  | cons observation observations ih =>
    cases index with
    | zero => rfl
    | succ index =>
      have hrest := ih index
      simpa [seenAgain] using hrest

-- An observation of the changed list: it was there before, or it is the one that was seen again.
theorem mem_seenAgain {observations : List EndpointObservation} {index elapsedMs : Nat}
    {observation : EndpointObservation} (h : observation ∈ seenAgain observations index elapsedMs) :
    (∃ place, place ≠ index ∧ observations[place]? = some observation) ∨
      ∃ before, observations[index]? = some before ∧ observation = { before with lastSeenMs := elapsedMs } := by
  obtain ⟨place, hplace⟩ := List.mem_iff_getElem?.mp h
  rw [seenAgain, List.getElem?_modify, Option.map_eq_map, Option.map_eq_some_iff] at hplace
  obtain ⟨before, hbefore, hchanged⟩ := hplace
  by_cases heq : index = place
  · rw [if_pos heq] at hchanged
    exact .inr ⟨before, heq ▸ hbefore, hchanged.symm⟩
  · rw [if_neg heq] at hchanged
    exact .inl ⟨place, fun hsame => heq hsame.symm, hchanged ▸ hbefore⟩

theorem Kept.again (h : Kept sightings c) {key : ObservationKey} {index : Nat} (hindex : c.indices key = some index)
    (elapsedMs : Nat) : Kept (sightings ++ [(key, elapsedMs)]) (c.record key elapsedMs) := by
  have hplace := (h.indices key index).mp hindex
  have hold : key ∈ distinct sightings := by
    have hin := List.mem_of_getElem? hplace
    rw [h.keys] at hin
    exact List.mem_of_mem_take hin
  have hsame : distinct (sightings ++ [(key, elapsedMs)]) = distinct sightings := by
    rw [distinct_append, if_pos hold]
  rw [NetworkAuditCollector.record, hindex]
  dsimp only
  have hother : ∀ place observation, place ≠ index → c.report.observations[place]? = some observation →
      observation.key ≠ key := by
    intro place observation hne hobservation heq
    have hkey : (c.report.observations.map EndpointObservation.key)[place]? = some key := by
      rw [List.getElem?_map, hobservation, ← heq]
      rfl
    exact hne (Option.some.inj (((h.indices key place).mpr hkey).symm.trans hindex))
  refine ⟨?_, fun observation hin => ?_, fun observation hin => ?_, ?_, fun other place => ?_⟩
  · rw [hsame]
    exact (keys_seenAgain _ _ _).trans h.keys
  · rcases mem_seenAgain hin with ⟨place, -, hobservation⟩ | ⟨before, hbefore, rfl⟩
    · exact firstTime_old (h.first observation (List.mem_of_getElem? hobservation))
    · exact firstTime_old (h.first before (List.mem_of_getElem? hbefore))
  · rcases mem_seenAgain hin with ⟨place, hne, hobservation⟩ | ⟨before, hbefore, rfl⟩
    · rw [lastTime_of_ne (hother place observation hne hobservation).symm]
      exact h.last observation (List.mem_of_getElem? hobservation)
    · have hkey : before.key = key := by
        rw [List.getElem?_map, hbefore] at hplace
        exact Option.some.inj hplace
      change lastTime _ before.key = some elapsedMs
      rw [hkey]
      exact lastTime_self
  · rw [hsame]
    exact h.truncated
  · rw [keys_seenAgain]
    exact h.indices other place

theorem getElem?_snoc {keys : List ObservationKey} {key other : ObservationKey} {place : Nat} :
    (keys ++ [key])[place]? = some other ↔ place = keys.length ∧ other = key ∨ keys[place]? = some other := by
  rcases Nat.lt_trichotomy place keys.length with hlt | rfl | hgt
  · rw [List.getElem?_append_left hlt]
    simp [hlt.ne]
  · simp [eq_comm]
  · rw [List.getElem?_eq_none (by simpa using Nat.succ_le_of_lt hgt), List.getElem?_eq_none hgt.le]
    simp [hgt.ne']

theorem Kept.full (h : Kept sightings c) {key : ObservationKey} (hindex : c.indices key = none)
    (hfull : maxNetworkObservations ≤ c.report.observations.length) (elapsedMs : Nat) :
    Kept (sightings ++ [(key, elapsedMs)]) { c with report := { c.report with truncated := true } } := by
  have hlength := h.length_eq
  have hmany : maxNetworkObservations ≤ (distinct sightings).length := by omega
  have hmissing : key ∉ (distinct sightings).take maxNetworkObservations := by
    rw [← h.keys]
    exact h.missing hindex
  have hkeys : (distinct (sightings ++ [(key, elapsedMs)])).take maxNetworkObservations =
      (distinct sightings).take maxNetworkObservations := by
    rw [distinct_append]
    split
    · rfl
    · rw [List.take_append_of_le_length hmany]
  have hover : maxNetworkObservations < (distinct (sightings ++ [(key, elapsedMs)])).length := by
    rw [distinct_append]
    split
    · rename_i hold
      refine lt_of_le_of_ne hmany fun heq => hmissing ?_
      rwa [heq, List.take_length]
    · rw [List.length_append, List.length_singleton]
      exact Nat.lt_succ_of_le hmany
  exact ⟨h.keys.trans hkeys.symm, fun observation hin => firstTime_old (h.first observation hin),
    fun observation hin => h.last_other hindex elapsedMs hin, (decide_eq_true hover).symm, h.indices⟩

theorem Kept.fresh (h : Kept sightings c) {key : ObservationKey} (hindex : c.indices key = none)
    (hroom : c.report.observations.length < maxNetworkObservations) (elapsedMs : Nat) :
    Kept (sightings ++ [(key, elapsedMs)])
      { report := { c.report with observations := c.report.observations ++ [⟨key, elapsedMs, elapsedMs⟩] }
        indices := Function.update c.indices key (some c.report.observations.length) } := by
  have hlength := h.length_eq
  have hfew : (distinct sightings).length < maxNetworkObservations := by omega
  have hall : c.report.observations.map EndpointObservation.key = distinct sightings := by
    rw [h.keys, List.take_of_length_le hfew.le]
  have hnew : key ∉ distinct sightings := by
    rw [← hall]
    exact h.missing hindex
  have hdistinct : distinct (sightings ++ [(key, elapsedMs)]) = distinct sightings ++ [key] := by
    rw [distinct_append, if_neg hnew]
  have hshort : (distinct sightings ++ [key]).length ≤ maxNetworkObservations := by
    rw [List.length_append, List.length_singleton]
    exact hfew
  refine ⟨?_, fun observation hin => ?_, fun observation hin => ?_, ?_, fun other place => ?_⟩
  · rw [hdistinct, List.take_of_length_le hshort, List.map_append, hall, List.map_singleton]
  · rcases List.mem_append.mp hin with hold | hown
    · exact firstTime_old (h.first observation hold)
    · rw [List.mem_singleton.mp hown]
      exact firstTime_new hnew
  · rcases List.mem_append.mp hin with hold | hown
    · exact h.last_other hindex elapsedMs hold
    · rw [List.mem_singleton.mp hown]
      exact lastTime_self
  · rw [hdistinct]
    exact h.truncated.trans ((decide_eq_false hfew.not_gt).trans (decide_eq_false hshort.not_gt).symm)
  · dsimp only
    rw [List.map_append, List.map_singleton, hall, getElem?_snoc]
    rcases eq_or_ne other key with rfl | hne
    · rw [Function.update_self, ← List.length_map EndpointObservation.key, hall]
      have hnone : (distinct sightings)[place]? ≠ some other := fun hplace => hnew (List.mem_of_getElem? hplace)
      simp [hnone, eq_comm]
    · rw [Function.update_of_ne hne, h.indices, hall]
      simp [hne]

theorem kept_record (h : Kept sightings c) (key : ObservationKey) (elapsedMs : Nat) :
    Kept (sightings ++ [(key, elapsedMs)]) (c.record key elapsedMs) := by
  cases hindex : c.indices key with
  | some index => exact h.again hindex elapsedMs
  | none =>
    rw [NetworkAuditCollector.record, hindex]
    dsimp only
    split
    · rename_i hfull
      exact h.full hindex hfull elapsedMs
    · rename_i hroom
      exact h.fresh hindex (Nat.lt_of_not_le hroom) elapsedMs

def recordAll (c : NetworkAuditCollector) (sightings : List (ObservationKey × Nat)) : NetworkAuditCollector :=
  sightings.foldl (fun c sighting => c.record sighting.1 sighting.2) c

theorem kept_recordAll (h : Kept sightings c) (later : List (ObservationKey × Nat)) :
    Kept (sightings ++ later) (recordAll c later) := by
  induction later generalizing sightings c with
  | nil => simpa [recordAll] using h
  | cons sighting later ih =>
    have hrest := ih (kept_record h sighting.1 sighting.2)
    simpa [recordAll] using hrest

structure Running (c : NetworkAuditCollector) : Prop where
  requested : c.report.requested = true
  available : c.report.available = true
  warning : c.report.warning = none

theorem running_record (h : Running c) (key : ObservationKey) (elapsedMs : Nat) :
    Running (c.record key elapsedMs) := by
  rw [NetworkAuditCollector.record]
  split
  · exact ⟨h.requested, h.available, h.warning⟩
  · split
    · exact ⟨h.requested, h.available, h.warning⟩
    · exact ⟨h.requested, h.available, h.warning⟩

theorem running_recordAll (h : Running c) (later : List (ObservationKey × Nat)) : Running (recordAll c later) := by
  induction later generalizing c with
  | nil => exact h
  | cons sighting later ih => exact ih (running_record h sighting.1 sighting.2)

theorem sample_stopped (h : c.report.requested = false ∨ c.report.available = false) (samples : List Sample) :
    samples.foldl sample c = c := by
  induction samples with
  | nil => rfl
  | cons s samples ih =>
    have hsame : c.sample s = c := by
      rw [NetworkAuditCollector.sample, if_pos (h.imp_right .inl)]
    rw [List.foldl_cons, hsame, ih]

theorem Running.samples (h : Running c) {s : Sample} (hids : s.processIds ≠ []) :
    ¬ (c.report.requested = false ∨ c.report.available = false ∨ s.processIds = []) := by
  rw [h.requested, h.available]
  simpa using hids

theorem Running.passes (h : Running c) {s : Sample} (hs : s.failure = none) :
    c.sample s = recordAll c s.observed := by
  by_cases hids : s.processIds = []
  · have hnone : s.observed = [] := by
      rw [Sample.observed]
      split
      · rw [if_pos hids]
      · rfl
    rw [NetworkAuditCollector.sample, if_pos (.inr (.inr hids)), hnone]
    rfl
  · rw [NetworkAuditCollector.sample, if_neg (h.samples hids)]
    cases hanswer : s.answer with
    | ok observations =>
      rw [Sample.observed, hanswer]
      dsimp only
      rw [if_neg hids, recordAll, List.foldl_map]
    | error error =>
      rw [Sample.failure, hanswer] at hs
      exact absurd ((if_neg hids).symm.trans hs) (Option.some_ne_none _)

theorem Running.fails (h : Running c) {s : Sample} {warning : Text} (hs : s.failure = some warning) :
    c.sample s = { c with report := { c.report with available := false, warning := some warning } } := by
  cases hanswer : s.answer with
  | ok observations =>
    rw [Sample.failure, hanswer] at hs
    cases hs
  | error error =>
    rw [Sample.failure, hanswer] at hs
    have hids : s.processIds ≠ [] := by
      intro hids
      exact absurd ((if_pos hids).symm.trans hs).symm (Option.some_ne_none _)
    have hwarning := Option.some.inj ((if_neg hids).symm.trans hs)
    rw [NetworkAuditCollector.sample, if_neg (h.samples hids), hanswer, ← hwarning]

-- By induction on the samples: the audit runs up to the first that fails.
theorem kept_samples (h : Kept sightings c) (hrunning : Running c) (samples : List Sample) :
    Kept (sightings ++ recorded true samples) (samples.foldl sample c) ∧
      (samples.foldl sample c).report.warning = warned true samples := by
  induction samples generalizing sightings c with
  | nil => exact ⟨by simpa [recorded] using h, hrunning.warning⟩
  | cons s samples ih =>
    rw [List.foldl_cons]
    cases hfailure : s.failure with
    | none =>
      rw [hrunning.passes hfailure]
      have hrest := ih (kept_recordAll h s.observed) (running_recordAll hrunning s.observed)
      simpa [recorded, warned, hfailure] using hrest
    | some warning =>
      rw [hrunning.fails hfailure, sample_stopped (.inr rfl)]
      refine ⟨?_, ?_⟩
      · have hsame : sightings ++ recorded true (s :: samples) = sightings := by simp [recorded, hfailure]
        rw [hsame]
        exact ⟨h.keys, h.first, h.last, h.truncated, h.indices⟩
      · simp [warned, hfailure]

-- The report shows the first endpoints that were seen, in the order in which they came, with their first
-- and their last time; it says when there were more, and why the audit ended early.
structure Audited (requested : Bool) (samples : List Sample) (report : NetworkAuditReport) : Prop where
  keys : report.observations.map EndpointObservation.key =
    (distinct (recorded requested samples)).take maxNetworkObservations
  first : ∀ observation ∈ report.observations,
    firstTime (recorded requested samples) observation.key = some observation.firstSeenMs
  last : ∀ observation ∈ report.observations,
    lastTime (recorded requested samples) observation.key = some observation.lastSeenMs
  truncated : report.truncated = decide (maxNetworkObservations < (distinct (recorded requested samples)).length)
  warning : report.warning = warned requested samples

theorem audited_finish (requested : Bool) (samples : List Sample) :
    Audited requested samples (samples.foldl sample (.new requested)).finish := by
  cases requested with
  | false =>
    rw [sample_stopped (.inl rfl)]
    have h := kept_new false
    exact ⟨h.keys, h.first, h.last, h.truncated, rfl⟩
  | true =>
    obtain ⟨h, hwarning⟩ := kept_samples (kept_new true) ⟨rfl, rfl, rfl⟩ samples
    exact ⟨h.keys, h.first, h.last, h.truncated, hwarning⟩

-- What the evidence shows is what the samples saw: the endpoints at the profiler's port of the processes
-- owned, of those the report has room for, and nothing else.
structure Evidenced (sightings : List (ObservationKey × Nat)) (warning : Option Text) (profilerPort : Nat)
    (identities : List ProcessIdentity) (evidence : NetworkEvidence) : Prop where
  owned : ∀ endpoint, endpoint ∈ evidence.ownedLoopbackEndpoints ↔
    ∃ key ∈ (distinct sightings).take maxNetworkObservations, Relevant profilerPort key ∧
      identities.find? (fun identity => identity.pid = key.processId) = some endpoint.owner ∧
      endpoint.key = (key.protocol, key.localEndpoint, key.remoteEndpoint) ∧
      firstTime sightings key = some endpoint.firstSeenMs ∧ lastTime sightings key = some endpoint.lastSeenMs
  failures : evidence.observationFailures = warning.toList ++
    if maxNetworkObservations < (distinct sightings).length then ["network_observations_truncated".toList] else []
  incomplete : evidence.captureComplete = false ∧ evidence.networkIsolationConfirmed = false

theorem ownedEndpoint_eq_some {profilerPort : Nat} {identities : List ProcessIdentity}
    {observation : EndpointObservation} {endpoint : OwnedEndpointObservation} :
    ownedEndpoint profilerPort identities observation = some endpoint ↔
      Relevant profilerPort observation.key ∧
        identities.find? (fun identity => identity.pid = observation.key.processId) = some endpoint.owner ∧
        endpoint.key = (observation.key.protocol, observation.key.localEndpoint, observation.key.remoteEndpoint) ∧
        observation.firstSeenMs = endpoint.firstSeenMs ∧ observation.lastSeenMs = endpoint.lastSeenMs := by
  obtain ⟨owner, protocol, localEndpoint, remoteEndpoint, firstSeenMs, lastSeenMs⟩ := endpoint
  cases howner : identities.find? (fun identity => identity.pid = observation.key.processId) with
  | none => simp [ownedEndpoint, howner]
  | some identity =>
    simp only [ownedEndpoint, howner, Option.bind_some, OwnedEndpointObservation.key]
    split
    · rename_i hrelevant
      simp [hrelevant]
      grind
    · rename_i hrelevant
      simp [hrelevant]

section Evidence

variable {report : NetworkAuditReport} {profilerPort : Nat} {identities : List ProcessIdentity}
  {listenerVerified collectorConnectionVerified : Bool}

theorem ownedLoopbackEndpoints_evidence :
    (tracyNetworkEvidence report profilerPort identities listenerVerified
      collectorConnectionVerified).ownedLoopbackEndpoints =
      report.observations.filterMap (ownedEndpoint profilerPort identities) := rfl

theorem observationFailures_evidence :
    (tracyNetworkEvidence report profilerPort identities listenerVerified
      collectorConnectionVerified).observationFailures =
      report.warning.toList ++ if report.truncated then ["network_observations_truncated".toList] else [] := rfl

theorem Audited.evidenced {requested : Bool} {samples : List Sample} (h : Audited requested samples report) :
    Evidenced (recorded requested samples) (warned requested samples) profilerPort identities
      (tracyNetworkEvidence report profilerPort identities listenerVerified collectorConnectionVerified) := by
  refine ⟨fun endpoint => ?_, ?_, rfl, rfl⟩
  · rw [ownedLoopbackEndpoints_evidence, List.mem_filterMap]
    refine ⟨?_, ?_⟩
    · rintro ⟨observation, hin, hendpoint⟩
      obtain ⟨hrelevant, howner, hkey, hfirst, hlast⟩ := ownedEndpoint_eq_some.mp hendpoint
      refine ⟨observation.key, ?_, hrelevant, howner, hkey, ?_, ?_⟩
      · rw [← h.keys]
        exact List.mem_map_of_mem hin
      · rw [← hfirst]
        exact h.first observation hin
      · rw [← hlast]
        exact h.last observation hin
    · rintro ⟨key, hkeys, hrelevant, howner, hkey, hfirst, hlast⟩
      rw [← h.keys] at hkeys
      obtain ⟨observation, hin, rfl⟩ := List.mem_map.mp hkeys
      refine ⟨observation, hin, ownedEndpoint_eq_some.mpr ⟨hrelevant, howner, hkey, ?_, ?_⟩⟩
      · exact Option.some.inj ((h.first observation hin).symm.trans hfirst)
      · exact Option.some.inj ((h.last observation hin).symm.trans hlast)
  · rw [observationFailures_evidence, h.warning, h.truncated]
    simp only [decide_eq_true_eq]

end Evidence

theorem evidenced_samples (requested : Bool) (samples : List Sample) (profilerPort : Nat)
    (identities : List ProcessIdentity) (listenerVerified collectorConnectionVerified : Bool) :
    Evidenced (recorded requested samples) (warned requested samples) profilerPort identities
      (tracyNetworkEvidence (samples.foldl sample (.new requested)).finish profilerPort identities
        listenerVerified collectorConnectionVerified) :=
  (audited_finish requested samples).evidenced

end NetworkAudit
