import MeridianMcp.RuntimeIntegrity.Recording

namespace RuntimeIntegrity

open MeridianMcp PrivateState WorkspaceIntegrity
open BuildProvenance (LaunchProvenance)

inductive Operation where
  | setProcessId (processId : Option Nat) (outcome : WriteOutcome)
  | observeNow (action : String) (scan : Scan) (outcome : WriteOutcome)
  | finalize (action : String) (scan : Scan) (outcome last : WriteOutcome)

namespace Operation

def perform : Operation → Live → Except SessionError (Option RuntimeIntegritySummary) × Live
  | .setProcessId processId outcome, live =>
    let (result, live) := RuntimeIntegritySession.setProcessId processId outcome live
    (result.map fun _ => none, live)
  | .observeNow action scan outcome, live =>
    let (result, live) := RuntimeIntegritySession.observeNow action scan outcome live
    (result.map some, live)
  | .finalize action scan outcome last, live =>
    let (result, live) := RuntimeIntegritySession.finalize action scan outcome last live
    (result.map some, live)

def runAll : List Operation → Live → Live
  | [], live => live
  | op :: ops, live => runAll ops (op.perform live).2

def mutations (session : RuntimeIntegritySession) : Operation → List PathMutation
  | .setProcessId _ _ => []
  | .observeNow _ scan _ | .finalize _ scan _ _ => scan.mutations session

def recorded (session : RuntimeIntegritySession) :
    Operation → Except SessionError Unit × RuntimeIntegritySession
  | .setProcessId _ _ => (.ok (), session)
  | .observeNow _ scan _ | .finalize _ scan _ _ => scan.recorded session

-- Everything that the observations of a run find, as far as their captures succeed.
def offered (session : RuntimeIntegritySession) (ops : List Operation) : List PathMutation :=
  ops.flatMap (mutations session)

end Operation

open Operation
open RuntimeIntegritySession (create created finalStatus)

structure Sound (live : Live) (ops : List Operation) : Prop where
  synchronised : ∀ earlier later, ops = earlier ++ later → Synchronised (runAll earlier live).session
  violation : ∀ earlier action scan outcome last later summary,
    ops = earlier ++ .finalize action scan outcome last :: later →
    (RuntimeIntegritySession.finalize action scan outcome last (runAll earlier live)).1 = .ok summary →
    (∃ mutation ∈ offered live.session (earlier ++ [.finalize action scan outcome last]),
      mutation.changeKind = .deleted) →
    summary.status ≠ .finalizedClean ∧ summary.status ≠ .finalizedWithChanges

variable {live : Live} {op : Operation} {ops : List Operation} {session session' : RuntimeIntegritySession}
  {keys : Finset MutationKey}

theorem perform_sameLog (op : Operation) (live : Live) :
    SameLog (op.recorded live.session).2 (op.perform live).2.session := by
  cases op with
  | setProcessId processId outcome => exact ⟨rfl, rfl, rfl, rfl⟩
  | observeNow action scan outcome => exact observeNow_sameLog action scan outcome live
  | finalize action scan outcome last => exact finalize_sameLog action scan outcome last live

theorem mutations_congr (hbaseline : session'.document.baseline = session.document.baseline)
    (hpaths : session'.ownedPaths = session.ownedPaths) (op : Operation) :
    op.mutations session' = op.mutations session := by
  cases op <;> simp only [mutations, Scan.mutations, hbaseline, hpaths]

theorem recorded_fixed : (op.recorded session).2.document.baseline = session.document.baseline ∧
    (op.recorded session).2.ownedPaths = session.ownedPaths := by
  cases op with
  | setProcessId processId outcome => exact ⟨rfl, rfl⟩
  | observeNow action scan outcome => exact recordMutations_fixed
  | finalize action scan outcome last => exact recordMutations_fixed

theorem offered_perform (ops : List Operation) :
    offered (op.perform live).2.session ops = offered live.session ops := by
  have hsame := perform_sameLog op live
  have hfixed : (op.recorded live.session).2.document.baseline = live.session.document.baseline ∧
      (op.recorded live.session).2.ownedPaths = live.session.ownedPaths := recorded_fixed
  have hmutations := mutations_congr (hsame.baseline.trans hfixed.1) (hsame.ownedPaths.trans hfixed.2)
  exact List.flatMap_congr fun op _ => hmutations op

theorem recorded_logged (h : Logged session) : Logged (op.recorded session).2 := by
  cases op with
  | setProcessId processId outcome => exact h
  | observeNow action scan outcome => exact recordMutations_logged h
  | finalize action scan outcome last => exact recordMutations_logged h

theorem recorded_synchronised (h : Synchronised session) :
    Synchronised (op.recorded session).2 ↔ (op.recorded session).1 = .ok () := by
  cases op with
  | setProcessId processId outcome => exact iff_of_true h rfl
  | observeNow action scan outcome => exact recordMutations_synchronised h
  | finalize action scan outcome last => exact recordMutations_synchronised h

theorem recorded_complete (h : (op.recorded session).1 = .ok ()) :
    keysOf (op.mutations session) ⊆ (op.recorded session).2.observed := by
  cases op with
  | setProcessId processId outcome => simp [mutations, keysOf]
  | observeNow action scan outcome => exact recordMutations_complete h
  | finalize action scan outcome last => exact recordMutations_complete h

theorem recorded_observed : session.observed ⊆ (op.recorded session).2.observed ∧
    (op.recorded session).2.observed ⊆ session.observed ∪ keysOf (op.mutations session) := by
  cases op with
  | setProcessId processId outcome => exact ⟨subset_rfl, Finset.subset_union_left⟩
  | observeNow action scan outcome => exact recordMutations_observed
  | finalize action scan outcome last => exact recordMutations_observed

theorem recorded_accepts (ht : Logged session) (hs : Synchronised session)
    (hkeys : session.observed ∪ keysOf (op.mutations session) ⊆ keys)
    (hcard : keys.card ≤ maxRuntimeEvents) : (op.recorded session).1 = .ok () := by
  cases op with
  | setProcessId processId outcome => rfl
  | observeNow action scan outcome => exact recordMutations_accepts ht hs hkeys hcard
  | finalize action scan outcome last => exact recordMutations_accepts ht hs hkeys hcard

theorem offered_append (first second : List Operation) :
    offered session (first ++ second) = offered session first ++ offered session second :=
  List.flatMap_append

theorem perform_logged (h : Logged live.session) : Logged (op.perform live).2.session :=
  (perform_sameLog op live).logged (recorded_logged h)

theorem perform_synchronised (h : Synchronised live.session) :
    Synchronised (op.perform live).2.session ↔ (op.recorded live.session).1 = .ok () := by
  rw [(perform_sameLog op live).synchronised, recorded_synchronised h]

theorem perform_observed : live.session.observed ⊆ (op.perform live).2.session.observed ∧
    (op.perform live).2.session.observed ⊆
      live.session.observed ∪ keysOf (op.mutations live.session) := by
  rw [(perform_sameLog op live).observed]
  exact recorded_observed

theorem keysOf_append (first second : List PathMutation) :
    keysOf (first ++ second) = keysOf first ∪ keysOf second := by
  simp [keysOf]

theorem runAll_append (first second : List Operation) (live : Live) :
    runAll (first ++ second) live = runAll second (runAll first live) := by
  induction first generalizing live with
  | nil => rfl
  | cons op ops ih => exact ih _

theorem runAll_logged (h : Logged live.session) : Logged (runAll ops live).session := by
  induction ops generalizing live with
  | nil => exact h
  | cons op ops ih => exact ih (perform_logged h)

theorem runAll_synchronised (ht : Logged live.session) (hs : Synchronised live.session)
    (hkeys : live.session.observed ∪ keysOf (offered live.session ops) ⊆ keys)
    (hcard : keys.card ≤ maxRuntimeEvents) : Synchronised (runAll ops live).session := by
  induction ops generalizing live with
  | nil => exact hs
  | cons op ops ih =>
    have hoffered : offered live.session (op :: ops) =
        op.mutations live.session ++ offered live.session ops := List.flatMap_cons ..
    rw [hoffered, keysOf_append, ← Finset.union_assoc] at hkeys
    have hop : live.session.observed ∪ keysOf (op.mutations live.session) ⊆ keys :=
      Finset.subset_union_left.trans hkeys
    refine ih (perform_logged ht) ((perform_synchronised hs).mpr (recorded_accepts ht hs hop hcard)) ?_
    rw [offered_perform]
    exact Finset.union_subset (perform_observed.2.trans hop) (Finset.subset_union_right.trans hkeys)

theorem runAll_complete
    (h : ∀ earlier later, ops = earlier ++ later → Synchronised (runAll earlier live).session) :
    live.session.observed ∪ keysOf (offered live.session ops) ⊆ (runAll ops live).session.observed := by
  induction ops generalizing live with
  | nil => simp [offered, keysOf, runAll]
  | cons op ops ih =>
    have hoffered : offered live.session (op :: ops) =
        op.mutations live.session ++ offered live.session ops := List.flatMap_cons ..
    have hrest := @ih (op.perform live).2 fun earlier later hsplit =>
      h (op :: earlier) later (by rw [hsplit, List.cons_append])
    rw [offered_perform] at hrest
    have hok := (perform_synchronised (h [] (op :: ops) rfl)).mp (h [op] ops rfl)
    have hop : keysOf (op.mutations live.session) ⊆ (op.perform live).2.session.observed := by
      rw [(perform_sameLog op live).observed]
      exact recorded_complete hok
    have hkept : (op.perform live).2.session.observed ⊆ (runAll (op :: ops) live).session.observed :=
      Finset.subset_union_left.trans hrest
    rw [hoffered, keysOf_append]
    exact Finset.union_subset (perform_observed.1.trans hkept)
      (Finset.union_subset (hop.trans hkept) (Finset.subset_union_right.trans hrest))

theorem finalStatus_of_deleted {events : List RuntimeIntegrityEvent}
    (h : ∃ event ∈ events, event.changeKind = .deleted) :
    finalStatus events = .finalizedWithViolation := by
  have hany : events.any (fun event => event.changeKind = .deleted) = true := by simpa using h
  rw [finalStatus, if_pos hany]

theorem sound_of_synchronised
    (h : ∀ earlier later, ops = earlier ++ later → Synchronised (runAll earlier live).session) :
    Sound live ops where
  synchronised := h
  violation := by
    rintro earlier action scan outcome last later summary hsplit hok ⟨mutation, hmem, hdeleted⟩
    have hsplit' : ops = (earlier ++ [.finalize action scan outcome last]) ++ later := by
      rw [hsplit, List.append_assoc, List.singleton_append]
    have hseen : live.session.observed ∪
        keysOf (offered live.session (earlier ++ [.finalize action scan outcome last])) ⊆
          (runAll (earlier ++ [.finalize action scan outcome last]) live).session.observed :=
      runAll_complete fun first second hfirst =>
        h first (second ++ later) (by rw [hsplit', hfirst, List.append_assoc])
    have hkey : keyOf mutation ∈ keysOf
        (offered live.session (earlier ++ [.finalize action scan outcome last])) :=
      List.mem_toFinset.mpr (List.mem_map_of_mem hmem)
    have hobserved := hseen (Finset.mem_union_right _ hkey)
    rw [h _ later hsplit', mem_eventKeys] at hobserved
    obtain ⟨event, hevent, heq⟩ := hobserved
    have hstatus := (finalize_ok hok).2.2
    rw [finalStatus_of_deleted] at hstatus
    · simp [hstatus]
    · rw [runAll_append] at hevent
      exact ⟨event, hevent, (congrArg Prod.snd heq).trans hdeleted⟩

theorem sound_iff_card (ht : Logged live.session) (hs : Synchronised live.session)
    (hempty : live.session.observed = ∅) :
    Sound live ops ↔ (keysOf (offered live.session ops)).card ≤ maxRuntimeEvents := by
  constructor
  · intro h
    have hseen := runAll_complete h.synchronised
    rw [h.synchronised ops [] (by simp), hempty, Finset.empty_union] at hseen
    have hlogged : Logged (runAll ops live).session := runAll_logged ht
    exact (Finset.card_le_card hseen).trans (hlogged.card.trans_le hlogged.bounded)
  · intro hcard
    refine sound_of_synchronised fun earlier later hsplit => runAll_synchronised ht hs ?_ hcard
    rw [hempty, Finset.empty_union, hsplit, offered_append, keysOf_append]
    exact Finset.subset_union_left

theorem create_ok {scan : CreateScan} {outcome : WriteOutcome} {provenance : LaunchProvenance}
    {ownedPaths : List OwnedPath} {journals journals' : Journals}
    (h : create scan outcome provenance ownedPaths journals = (.ok session, journals')) :
    ∃ baseline sessionId, session = created baseline sessionId provenance ownedPaths := by
  unfold create at h
  rcases hcapture : scan.capture with e | baseline <;> rw [hcapture] at h
  · cases h
  rcases hrandom : scan.random with e | bytes <;> rw [hrandom] at h
  · cases h
  dsimp only at h
  rcases hname : livenessRecordName (hex bytes).toList with _ | name <;> rw [hname] at h
  · cases h
  rcases hlock : scan.liveness with e | _ <;> rw [hlock] at h
  · cases h
  cases outcome <;> cases h
  exact ⟨_, _, rfl⟩

theorem created_logged (baseline : WorkspaceSnapshot) (sessionId : Text) (provenance : LaunchProvenance)
    (ownedPaths : List OwnedPath) : Logged (created baseline sessionId provenance ownedPaths) :=
  ⟨subset_rfl, List.nodup_nil, Nat.zero_le _⟩

theorem sound_iff (scan : CreateScan) (outcome : WriteOutcome) (provenance : LaunchProvenance)
    (ownedPaths : List OwnedPath) (journals journals' : Journals) (session : RuntimeIntegritySession)
    (hcreate : create scan outcome provenance ownedPaths journals = (.ok session, journals'))
    (ops : List Operation) :
    Sound ⟨session, journals'⟩ ops ↔ (keysOf (offered session ops)).card ≤ maxRuntimeEvents := by
  obtain ⟨baseline, sessionId, rfl⟩ := create_ok hcreate
  have hlogged : Logged (Live.mk _ journals').session := created_logged baseline sessionId provenance ownedPaths
  exact sound_iff_card hlogged rfl rfl

def gonePath : Text := "gone.dm".toList

def plainFile : FileIdentity := ⟨false, none, none, some "00".toList, some 1, "clean".toList⟩

def filesAt (keys : Finset Text) : WorkspaceIntegrity.Records :=
  Effects.FinMap.ofKeys (fun key => if key ∈ keys then some plainFile else none) keys (by simp)

def snapshotOf (keys : Finset Text) : WorkspaceSnapshot := ⟨["work".toList], filesAt keys, [], []⟩

def captured (keys : Finset Text) : Scan := ⟨.ok (snapshotOf keys), ⟨fun _ => false, fun _ => none⟩, 0, []⟩

def baselineScan : CreateScan := ⟨.ok (snapshotOf {gonePath}), .ok (List.replicate 16 0), .ok ()⟩

def unverifiedLaunch : LaunchProvenance := ⟨.unverified, none, [], []⟩

def baselineSession : RuntimeIntegritySession :=
  created (snapshotOf {gonePath}) (List.replicate 32 '0') unverifiedLaunch []

def baselineJournals : Journals :=
  Function.update (fun _ => .absent) baselineSession.recordName (.record baselineSession.document)

theorem create_baseline : create baselineScan .ok unverifiedLaunch [] (fun _ => .absent) =
    (.ok baselineSession, baselineJournals) := rfl

def observedTwice (keys : Finset Text) : List Operation :=
  [.observeNow "monitor" (captured keys) .ok, .finalize "stopped" (captured keys) .ok .ok]

theorem get_filesAt {keys : Finset Text} {path : Text} {file : FileIdentity} :
    (filesAt keys).get path = some file ↔ path ∈ keys ∧ plainFile = file := by
  simp [filesAt]

theorem get_filesAt_none {keys : Finset Text} {path : Text} (h : path ∉ keys) :
    (filesAt keys).get path = none := by
  simp [filesAt, h]

theorem keysOf_captured (keys : Finset Text) (hgone : gonePath ∉ keys) :
    keysOf (offered baselineSession (observedTwice keys)) =
      insert (gonePath, .deleted) (keys.image fun path => (path, .added)) := by
  have hoffered : offered baselineSession (observedTwice keys) =
      (captured keys).mutations baselineSession ++ (captured keys).mutations baselineSession := by
    simp [offered, observedTwice, mutations]
  have hmutations : (captured keys).mutations baselineSession =
      (compareRecords (filesAt {gonePath}) (filesAt keys) ∅ []).mutations := rfl
  rw [hoffered, keysOf_append, Finset.union_self, hmutations]
  ext ⟨path, kind⟩
  simp only [keysOf, List.mem_toFinset, List.mem_map, IntegrityDelta.mutations, List.mem_append,
    Finset.mem_insert, Finset.mem_image, Prod.mk.injEq]
  constructor
  · rintro ⟨mutation, (hmem | hmem) | hmem, hkey⟩
    · obtain ⟨after, hafter, -, -, heq⟩ := mem_added.mp hmem
      rw [heq] at hkey
      cases hkey
      exact .inr ⟨_, (get_filesAt.mp hafter).1, rfl, rfl⟩
    · obtain ⟨before, after, hafter, -, hbefore, hne, -⟩ := mem_modified.mp hmem
      exact absurd ((get_filesAt.mp hbefore).2.symm.trans (get_filesAt.mp hafter).2) hne
    · obtain ⟨before, hbefore, -, -, heq⟩ := mem_deleted.mp hmem
      rw [heq] at hkey
      cases hkey
      exact .inl ⟨Finset.mem_singleton.mp (get_filesAt.mp hbefore).1, rfl⟩
  · rintro (⟨rfl, rfl⟩ | ⟨name, hin, rfl, rfl⟩)
    · refine ⟨⟨gonePath, .deleted, some plainFile, none⟩, .inr (mem_deleted.mpr ?_), rfl⟩
      exact ⟨plainFile, get_filesAt.mpr ⟨Finset.mem_singleton_self _, rfl⟩, Finset.notMem_empty _,
        get_filesAt_none hgone, rfl⟩
    · refine ⟨⟨name, .added, none, some plainFile⟩, .inl (.inl (mem_added.mpr ?_)), rfl⟩
      refine ⟨plainFile, get_filesAt.mpr ⟨hin, rfl⟩, Finset.notMem_empty _, get_filesAt_none ?_, rfl⟩
      rw [Finset.mem_singleton]
      rintro rfl
      exact hgone hin

theorem sound_iff_deletion : Sound ⟨baselineSession, baselineJournals⟩ (observedTwice ∅) := by
  rw [sound_iff baselineScan .ok unverifiedLaunch [] (fun _ => .absent) baselineJournals baselineSession
    create_baseline, keysOf_captured ∅ (by simp)]
  decide

def manyFiles : Finset Text := (Finset.range maxRuntimeEvents).image fun n => List.replicate n 'a'

theorem gone_notMem_manyFiles : gonePath ∉ manyFiles := by
  rw [manyFiles, Finset.mem_image]
  rintro ⟨n, -, h⟩
  have hmem : 'g' ∈ List.replicate n 'a' := by
    rw [h]
    decide
  exact absurd (List.eq_of_mem_replicate hmem) (by decide)

theorem deletion_dropped_at_limit :
    create baselineScan .ok unverifiedLaunch [] (fun _ => .absent) =
        (.ok baselineSession, baselineJournals) ∧
      ¬ Sound ⟨baselineSession, baselineJournals⟩ (observedTwice manyFiles) := by
  refine ⟨rfl, ?_⟩
  have hlogged : Logged (Live.mk baselineSession baselineJournals).session := created_logged ..
  rw [sound_iff_card hlogged rfl rfl, keysOf_captured manyFiles gone_notMem_manyFiles, Finset.card_insert_of_notMem (by simp),
    Finset.card_image_of_injective _ (fun _ _ h => congrArg Prod.fst h), manyFiles,
    Finset.card_image_of_injective _ (fun _ _ h => by simpa using congrArg List.length h),
    Finset.card_range]
  exact Nat.not_succ_le_self _

end RuntimeIntegrity
