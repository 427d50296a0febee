import MeridianMcp.Evidence.SeriesKeys

namespace Evidence

open MeridianMcp Effects Fallible

variable {F : Type} {context : NativeEvidenceContext F}

-- No artifact has two pairs of a phase and a metric with one text `phase|metric`.
def PhasesSeparate (runs : List (NormalizedRun F)) : Prop :=
  ∀ run ∈ runs, ∀ entry ∈ runEntries run, ∀ run' ∈ runs, ∀ entry' ∈ runEntries run',
    entry.1.artifact = entry'.1.artifact → entry.1.semantics = entry'.1.semantics →
      ∀ phase phase', entry.1.phase = some phase → entry'.1.phase = some phase' →
        phase ++ '|' :: entry.1.metric = phase' ++ '|' :: entry'.1.metric →
          phase = phase' ∧ entry.1.metric = entry'.1.metric

theorem keysSeparate_iff {runs : List (NormalizedRun F)}
    (hshaped : ∀ run ∈ runs, ∀ entry ∈ runEntries run,
      Shaped entry.1.classification entry.1.phase) :
    KeysSeparate runs ↔ PhasesSeparate runs := by
  constructor
  · intro hkeys run hrun entry hentry run' hrun' entry' hentry' hartifact hsemantics phase phase'
      hphase hphase' htext
    have hassigned : entry.1.classification = entry'.1.classification := by
      rcases hshaped run hrun entry hentry with ⟨hnone, -⟩ | ⟨-, hclass⟩
      · rw [hphase] at hnone
        cases hnone
      · rcases hshaped run' hrun' entry' hentry' with ⟨hnone, -⟩ | ⟨-, hclass'⟩
        · rw [hphase'] at hnone
          cases hnone
        · rw [hclass, hclass']
    have hkey := (key_eq_iff (hshaped run hrun entry hentry) (hshaped run' hrun' entry' hentry')).mpr
      ⟨hartifact, hsemantics, hassigned, by rw [hphase, hphase']; exact htext⟩
    have htuple := hkeys run hrun entry hentry run' hrun' entry' hentry' hkey
    rw [htuple, hphase'] at hphase
    exact ⟨(Option.some.inj hphase).symm, congrArg SeriesTuple.metric htuple⟩
  · intro hphases run hrun entry hentry run' hrun' entry' hentry' hkey
    have h := hshaped run hrun entry hentry
    have h' := hshaped run' hrun' entry' hentry'
    obtain ⟨hartifact, hsemantics, hclass, htext⟩ := (key_eq_iff h h').mp hkey
    have hsame : entry.1.phase = entry'.1.phase ∧ entry.1.metric = entry'.1.metric := by
      cases hphase : entry.1.phase with
      | none =>
        cases hphase' : entry'.1.phase with
        | none =>
          rw [hphase, hphase'] at htext
          exact ⟨rfl, (List.cons.inj (List.append_cancel_left htext)).2⟩
        | some phase' =>
          rw [Shaped, hphase] at h
          rw [Shaped, hphase'] at h'
          obtain ⟨-, hfull⟩ | ⟨hnone, -⟩ := h
          · obtain ⟨hnone, -⟩ | ⟨-, hassigned⟩ := h'
            · cases hnone
            · rw [hclass, hassigned] at hfull
              exact absurd hfull assigned_not_full
          · cases hnone
      | some phase =>
        cases hphase' : entry'.1.phase with
        | none =>
          rw [Shaped, hphase] at h
          rw [Shaped, hphase'] at h'
          obtain ⟨-, hfull⟩ | ⟨hnone, -⟩ := h'
          · obtain ⟨hnone, -⟩ | ⟨-, hassigned⟩ := h
            · cases hnone
            · rw [← hclass, hassigned] at hfull
              exact absurd hfull assigned_not_full
          · cases hnone
        | some phase' =>
          rw [hphase, hphase'] at htext
          obtain ⟨rfl, hmetric⟩ := hphases run hrun entry hentry run' hrun' entry' hentry' hartifact
            hsemantics phase phase' hphase hphase' htext
          exact ⟨rfl, hmetric⟩
    calc entry.1
      _ = ⟨entry.1.artifact, entry.1.semantics, entry.1.classification, entry.1.phase,
          entry.1.metric⟩ := rfl
      _ = ⟨entry'.1.artifact, entry'.1.semantics, entry'.1.classification, entry'.1.phase,
          entry'.1.metric⟩ := by rw [hartifact, hsemantics, hclass, hsame.1, hsame.2]
      _ = entry'.1 := rfl

theorem compareRuns_ok {requests : List NativeEvidenceRequest} {result : ComparisonResult F}
    (h : compareRuns context requests = .ok result) :
    ∃ runs, requests.mapM (summarizeRun context) = .ok runs ∧ runs ≠ [] ∧
      Compared runs result.metrics := by
  unfold compareRuns at h
  split at h
  · cases h
  · rename_i hcount
    obtain ⟨runs, hruns, h⟩ := bind_ok h
    refine ⟨runs, hruns, ?_, compareNormalized_compared h⟩
    have hlen := (forall₂_of_mapM_ok hruns).length_eq
    rintro rfl
    rw [List.length_nil] at hlen
    omega

theorem comparison_integrity_iff {requests : List NativeEvidenceRequest}
    {result : ComparisonResult F} (h : compareRuns context requests = .ok result) :
    ∃ runs, requests.mapM (summarizeRun context) = .ok runs ∧
      (Integrity runs result.metrics ↔ PhasesSeparate runs) := by
  obtain ⟨runs, hruns, hne, hcompared⟩ := compareRuns_ok h
  have htuples : ∀ run ∈ runs, TuplesNodup run ∧ ∀ entry ∈ runEntries run,
      Shaped entry.1.classification entry.1.phase := by
    intro run hrun
    obtain ⟨request, -, hrequest⟩ := exists_of_mem_right (forall₂_of_mapM_ok hruns) hrun
    exact summarizeRun_tuples hrequest
  refine ⟨runs, hruns, ?_⟩
  rw [integrity_iff_keysSeparate hcompared hne fun run hrun => (htuples run hrun).1,
    keysSeparate_iff fun run hrun => (htuples run hrun).2]

-- The lines of two runs, in the phases `a` (0 to 10) and `a|b` (10 to 20).
def clashLine (n : Nat) : Text :=
  match n with
  | 0 => "\x7b\"c\":1,\"t\":15\x7d".toList
  | 1 => "\x7b\"b|c\":5\x7d".toList
  | 2 => "\x7b\"b|c\":2,\"t\":5\x7d".toList
  | _ => "\x7b\"c\":7\x7d".toList

def clashValue (n : Nat) : Json Int :=
  match n with
  | 0 => .object [("c".toList, .number (.int 1)), ("t".toList, .number (.int 15))]
  | 1 => .object [("b|c".toList, .number (.int 5))]
  | 2 => .object [("b|c".toList, .number (.int 2)), ("t".toList, .number (.int 5))]
  | _ => .object [("c".toList, .number (.int 7))]

def clashTable (text : Text) : Option (Json Int) :=
  ((List.range 4).find? fun n => text = clashLine n).map clashValue

theorem clashTable_nodup (text : Text) (fields : List (Text × Json Int))
    (h : clashTable text = some (.object fields)) : (fields.map Prod.fst).Nodup := by
  obtain ⟨n, -, hn⟩ := Option.map_eq_some_iff.mp h
  match n, hn with
  | 0, hn => cases hn; decide
  | 1, hn => cases hn; decide
  | 2, hn => cases hn; decide
  | n + 3, hn => cases hn; decide

def clashFormats : Formats Int where
  fromUtf8 bytes := some (bytes.map fun byte => Char.ofNat byte.toNat)
  isWhitespace := Char.isWhitespace
  fromStr := clashTable
  fromStr_nodup := clashTable_nodup
  csvRecords _ := none
  parseFloat _ := none
  isFinite _ := true
  ofInt value := value
  parseRfc3339Ms _ := none

def intArithmetic : Arithmetic Int where
  zero := 0
  add := Int.add
  sub := Int.sub
  mul := Int.mul
  div := Int.tdiv
  sqrt value := value
  abs value := value.natAbs
  ofNat := Int.ofNat
  floor := Int.toNat
  ceil := Int.toNat
  isFinite _ := true
  le left right := left ≤ right
  isZero value := value = 0
  p50 := 0
  p95 := 0
  p99 := 0
  hundred := 100

def clashFile (path : Text) : EvidenceFile :=
  let text := if path = "one".toList then clashLine 0 ++ '\n' :: clashLine 1
    else clashLine 2 ++ '\n' :: clashLine 3
  { canonicalPath := path, relativePath := path, metadataLen := text.length
    bytes := text.map (fun c => UInt8.ofNat c.toNat), sha256 := [] }

def clashContext : NativeEvidenceContext Int where
  formats := clashFormats
  arithmetic := intArithmetic
  serializeGroups _ := []
  readPath path := .ok (clashFile path)
  capture path := .ok path
  evaluateLaunch := some fun _ => .ok ⟨true, some "record".toList⟩

def clashRequest (path : String) : NativeEvidenceRequest :=
  { artifacts := [⟨.eventJsonl, path.toList, some ⟨[], none, some "t".toList, []⟩⟩]
    dmbPath := some "game.dmb".toList
    workload := none
    phases := [⟨"a".toList, none, none, some 0, some 10⟩,
      ⟨"a|b".toList, none, none, some 10, some 20⟩] }

def clashKey : Text := "0|EventStream|assigned|a|b|c".toList

def clashTuple (phase metric : String) : SeriesTuple :=
  ⟨0, .eventStream, assignedClassification, some phase.toList, metric.toList⟩

theorem clash_values :
    ((compareRuns clashContext [clashRequest "one", clashRequest "two"]).toOption.map fun result =>
      (result.metrics.get clashKey).map ComparisonMetric.values) = some (some [1, 2]) := by
  decide +kernel

theorem clash_contributions :
    (([clashRequest "one", clashRequest "two"].mapM (summarizeRun clashContext)).toOption.map
      fun runs => (contributions runs clashKey).map fun contribution =>
        (contribution.1, contribution.2.1)) =
      some [(0, clashTuple "a|b" "c"), (1, clashTuple "a" "b|c")] := by
  decide +kernel

theorem eq_ok_of_toOption {α ε : Type} {x : Except ε α} {a : α} (h : x.toOption = some a) :
    x = .ok a := by
  cases x with
  | error e => cases h
  | ok b => exact congrArg Except.ok (Option.some.inj h)

theorem clash_mixes_phases : ∃ result runs,
    compareRuns clashContext [clashRequest "one", clashRequest "two"] = .ok result ∧
      [clashRequest "one", clashRequest "two"].mapM (summarizeRun clashContext) = .ok runs ∧
      ¬ Integrity runs result.metrics := by
  obtain ⟨result, hresult, hvalues⟩ := Option.map_eq_some_iff.mp clash_values
  obtain ⟨runs, hruns, hpairs⟩ := Option.map_eq_some_iff.mp clash_contributions
  obtain ⟨metric, hmetric, -⟩ := Option.map_eq_some_iff.mp hvalues
  refine ⟨result, runs, eq_ok_of_toOption hresult, eq_ok_of_toOption hruns, fun hintegrity => ?_⟩
  obtain ⟨-, tuple, htuple⟩ := hintegrity.series clashKey metric hmetric
  rw [SeriesOfTuple, hpairs] at htuple
  have hsame : ∀ pair ∈ [(0, clashTuple "a|b" "c"), (1, clashTuple "a" "b|c")], pair.2 = tuple := by
    intro pair hpair
    rw [htuple] at hpair
    obtain ⟨_, -, rfl⟩ := List.mem_map.mp hpair
    rfl
  have hne : clashTuple "a|b" "c" ≠ clashTuple "a" "b|c" := by decide
  exact hne ((hsame _ (List.mem_cons_self ..)).trans
    (hsame _ (List.mem_cons_of_mem _ (List.mem_cons_self ..))).symm)

theorem same_run_values :
    ((compareRuns clashContext [clashRequest "one", clashRequest "one"]).toOption.map fun result =>
      (result.metrics.get clashKey).map ComparisonMetric.values) = some (some [1, 1]) := by
  decide +kernel

theorem same_run_phases :
    (([clashRequest "one", clashRequest "one"].mapM (summarizeRun clashContext)).toOption.map
      fun runs => (((runs.flatMap runEntries).map Prod.fst).filter fun tuple =>
        tuple.phase.isSome).all fun tuple => tuple = clashTuple "a|b" "c") = some true := by
  decide +kernel

theorem same_run_compares : ∃ result runs,
    compareRuns clashContext [clashRequest "one", clashRequest "one"] = .ok result ∧
      [clashRequest "one", clashRequest "one"].mapM (summarizeRun clashContext) = .ok runs ∧
      Integrity runs result.metrics := by
  obtain ⟨result, hresult, -⟩ := Option.map_eq_some_iff.mp same_run_values
  obtain ⟨runs, hruns, hall⟩ := Option.map_eq_some_iff.mp same_run_phases
  have hcompare := eq_ok_of_toOption hresult
  obtain ⟨runs', hruns', hiff⟩ := comparison_integrity_iff hcompare
  obtain rfl : runs = runs' := Except.ok.inj ((eq_ok_of_toOption hruns).symm.trans hruns')
  refine ⟨result, runs, hcompare, hruns', hiff.mpr ?_⟩
  have htuple : ∀ run ∈ runs, ∀ entry ∈ runEntries run, ∀ phase, entry.1.phase = some phase →
      entry.1 = clashTuple "a|b" "c" := by
    intro run hrun entry hentry phase hphase
    have hmem : entry.1 ∈ ((runs.flatMap runEntries).map Prod.fst).filter fun tuple =>
        tuple.phase.isSome := by
      rw [List.mem_filter]
      exact ⟨List.mem_map_of_mem (List.mem_flatMap.mpr ⟨run, hrun, hentry⟩), by simp [hphase]⟩
    simpa using List.all_eq_true.mp hall entry.1 hmem
  intro run hrun entry hentry run' hrun' entry' hentry' _ _ phase phase' hphase hphase' _
  have hsame := (htuple run hrun entry hentry phase hphase).trans
    (htuple run' hrun' entry' hentry' phase' hphase').symm
  rw [hsame, hphase'] at hphase
  exact ⟨(Option.some.inj hphase).symm, congrArg SeriesTuple.metric hsame⟩

end Evidence
