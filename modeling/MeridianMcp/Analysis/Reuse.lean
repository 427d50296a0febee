import MeridianMcp.Analysis.Fingerprint

namespace Reuse

open Effects

variable {P : Type} [LinearOrder P] {earliest : Instant}

section

variable (h : History earliest P)

def History.settledBefore : Instant := h.clock h.started - mtimeSettleWindow

theorem settled_before : (checkedSub earliest (h.clock h.started) mtimeSettleWindow).getD (h.clock h.started) =
    h.settledBefore := by
  rw [checkedSub, if_pos h.representable]
  rfl

variable {h}

theorem written_late {n : Nat} (hn : h.started ≤ n) {node : Node}
    (hearly : h.clock n - mtimeSettleWindow ≤ node.modified) : ¬ node.modified < h.settledBefore := by
  have hclock := h.monotone hn
  exact not_lt.mpr ((Int.sub_le_sub_right hclock mtimeSettleWindow).trans hearly)

-- Old nodes only disappear.
theorem Change.nodes {t : Instant} {w v : World P} (hchange : Change t w v) {r : P} {node : Node}
    (hr : v.nodes r = some node) : w.nodes r = some node ∨ t - mtimeSettleWindow ≤ node.modified := by
  cases hchange with
  | retarget links => exact .inl hr
  | edit hedit =>
    cases hedit with
    | stay => exact .inl hr
    | unlink links hlinks => exact .inl hr
    | write r' node' hearly hlate =>
      dsimp only at hr
      rcases eq_or_ne r r' with rfl | hne
      · rw [Function.update_self] at hr
        cases hr
        exact .inr hearly
      · rw [Function.update_of_ne hne] at hr
        exact .inl hr
    | delete r' =>
      dsimp only at hr
      rcases eq_or_ne r r' with rfl | hne
      · rw [Function.update_self] at hr
        cases hr
      · rw [Function.update_of_ne hne] at hr
        exact .inl hr

theorem node_origin {n : Nat} (hn : h.started ≤ n) {r : P} {node : Node} (hr : (h.world n).nodes r = some node)
    (hsettled : node.modified < h.settledBefore) : (h.world h.started).nodes r = some node := by
  induction n, hn using Nat.le_induction with
  | base => exact hr
  | succ n hn ih =>
    rcases (h.changes n hn).nodes hr with hold | hlate
    · exact ih hold
    · exact absurd hsettled (written_late hn hlate)

theorem Edit.links {t : Instant} {w v : World P} (hedit : Edit t w v) {p : P} {node : Node}
    (hp : v.nodes (v.links p) = some node) : v.links p = w.links p := by
  cases hedit with
  | unlink links hlinks =>
    rcases hlinks p with hsame | hnone
    · exact hsame
    · rw [hnone] at hp
      cases hp
  | _ => rfl

theorem link_origin {n : Nat} (hn : h.started ≤ n) (hbuilt : n ≤ h.built) {p : P} {node : Node}
    (hp : (h.world n).nodes ((h.world n).links p) = some node) (hsettled : node.modified < h.settledBefore) :
    (h.world n).links p = (h.world h.started).links p := by
  induction n, hn using Nat.le_induction with
  | base => rfl
  | succ n hn ih =>
    have hlinks := (h.edits n hn (by omega)).links hp
    rcases (h.changes n hn).nodes hp with hold | hlate
    · rw [hlinks] at hold ⊢
      exact ih (by omega) hold
    · exact absurd hsettled (written_late hn hlate)

end

section

variable {settledBefore : Instant} {path : P} {optional : Bool} {w : World P} {probe : Probe}

-- What an entry says that does not spoil the fingerprint.
structure Seen (settledBefore : Instant) (w : World P) (entry : FingerprintEntry P) (node : Node) : Prop where
  resolved : entry.resolved = w.links entry.path
  found : w.nodes (w.links entry.path) = some node
  modified : entry.modified = node.modified
  settled : node.modified < settledBefore

omit [LinearOrder P] in
theorem look_entry {entry : FingerprintEntry P} (hlook : look settledBefore path optional w probe = (some entry, true)) :
    entry.path = path ∧ ∃ node, Seen settledBefore w entry node := by
  unfold look at hlook
  split at hlook
  · cases hlook
  · split at hlook
    · cases hlook
    · rename_i node hnode
      split at hlook
      · cases hlook
      · split at hlook
        · cases hlook
        · simp only [Prod.mk.injEq, Option.some.injEq, Bool.and_eq_true, decide_eq_true_eq] at hlook
          obtain ⟨rfl, hsettled, -⟩ := hlook
          exact ⟨rfl, node, rfl, hnode, rfl, hsettled⟩

omit [LinearOrder P] in
theorem look_absent (hlook : look settledBefore path optional w probe = (none, true)) :
    optional = true ∧ w.nodes (w.links path) = none := by
  unfold look at hlook
  split at hlook
  · cases hlook
  · split at hlook
    · rename_i hnone
      simp only [Prod.mk.injEq, Bool.and_eq_true, true_and] at hlook
      exact ⟨hlook.1, hnone⟩
    · split at hlook
      · cases hlook
      · split at hlook
        · cases hlook
        · cases hlook

end

section

variable {inputs discoveryPaths : List P} {seen : Nat → World P × Probe} {observedAt : Instant}

def settledOf (earliest observedAt : Instant) : Instant :=
  (checkedSub earliest observedAt mtimeSettleWindow).getD observedAt

theorem mem_entries {entry : FingerprintEntry P}
    (hreusable : (captureWithDiscovery earliest inputs discoveryPaths seen observedAt).reusable = true)
    (hentry : entry ∈ (captureWithDiscovery earliest inputs discoveryPaths seen observedAt).entries) :
    ∃ i path optional, (recorded inputs discoveryPaths)[i]? = some (path, optional) ∧
      look (settledOf earliest observedAt) path optional (seen i).1 (seen i).2 = (some entry, true) := by
  simp only [captureWithDiscovery, List.all_eq_true] at hreusable
  simp only [captureWithDiscovery, List.mem_insertionSort, List.mem_filterMap] at hentry
  obtain ⟨result, hresult, hsome⟩ := hentry
  have htrue := hreusable result hresult
  obtain ⟨i, hi, rfl⟩ := List.mem_mapIdx.mp hresult
  refine ⟨i, (recorded inputs discoveryPaths)[i].1, (recorded inputs discoveryPaths)[i].2,
    List.getElem?_eq_getElem hi, ?_⟩
  exact Prod.ext hsome htrue

theorem look_reusable {i : Nat} {path : P} {optional : Bool}
    (hreusable : (captureWithDiscovery earliest inputs discoveryPaths seen observedAt).reusable = true)
    (hi : (recorded inputs discoveryPaths)[i]? = some (path, optional)) :
    (look (settledOf earliest observedAt) path optional (seen i).1 (seen i).2).2 = true := by
  simp only [captureWithDiscovery, List.all_eq_true] at hreusable
  apply hreusable
  obtain ⟨hlt, heq⟩ := List.getElem?_eq_some_iff.mp hi
  refine List.mem_mapIdx.mpr ⟨i, hlt, ?_⟩
  rw [heq]
  rfl

theorem entry_mem {i : Nat} {path : P} {optional : Bool} {entry : FingerprintEntry P}
    (hi : (recorded inputs discoveryPaths)[i]? = some (path, optional))
    (hlook : (look (settledOf earliest observedAt) path optional (seen i).1 (seen i).2).1 = some entry) :
    entry ∈ (captureWithDiscovery earliest inputs discoveryPaths seen observedAt).entries := by
  simp only [captureWithDiscovery, List.mem_insertionSort, List.mem_filterMap]
  obtain ⟨hlt, heq⟩ := List.getElem?_eq_some_iff.mp hi
  refine ⟨_, List.mem_mapIdx.mpr ⟨i, hlt, rfl⟩, ?_⟩
  rw [heq]
  exact hlook

theorem source_present {i : Nat} {path : P}
    (hreusable : (captureWithDiscovery earliest inputs discoveryPaths seen observedAt).reusable = true)
    (hi : (recorded inputs discoveryPaths)[i]? = some (path, false)) :
    ∃ entry, look (settledOf earliest observedAt) path false (seen i).1 (seen i).2 = (some entry, true) := by
  have htrue := look_reusable hreusable hi
  cases hlook : look (settledOf earliest observedAt) path false (seen i).1 (seen i).2 with
  | mk entry reusable =>
    rw [hlook] at htrue
    cases htrue
    cases entry with
    | none => cases (look_absent hlook).1
    | some entry => exact ⟨entry, rfl⟩

omit [LinearOrder P] in
theorem recorded_source {i : Nat} {path : P} (hi : inputs[i]? = some path) :
    (recorded inputs discoveryPaths)[i]? = some (path, false) := by
  obtain ⟨hlt, heq⟩ := List.getElem?_eq_some_iff.mp hi
  unfold recorded
  rw [List.getElem?_append_left (by rwa [List.length_map]), List.getElem?_map, hi]
  rfl

omit [LinearOrder P] in
theorem recorded_candidate (candidate : P) :
    (recorded inputs [candidate])[inputs.length]? = some (candidate, true) := by
  unfold recorded
  rw [List.getElem?_append_right (by rw [List.length_map]), List.length_map, Nat.sub_self]
  rfl

-- With a single candidate, the number of entries tells whether it was there.
theorem length_entries {candidate : P}
    (hreusable : (captureWithDiscovery earliest inputs [candidate] seen observedAt).reusable = true) :
    (captureWithDiscovery earliest inputs [candidate] seen observedAt).entries.length = inputs.length +
      (look (settledOf earliest observedAt) candidate true (seen inputs.length).1
        (seen inputs.length).2).1.toList.length := by
  have hsources : ∀ result ∈ (inputs.map fun path => (path, false)).mapIdx (fun i input =>
      look (settledOf earliest observedAt) input.1 input.2 (seen i).1 (seen i).2), result.1.isSome = true := by
    intro result hresult
    obtain ⟨i, hi, rfl⟩ := List.mem_mapIdx.mp hresult
    rw [List.length_map] at hi
    obtain ⟨entry, hentry⟩ := source_present hreusable (recorded_source (List.getElem?_eq_getElem hi))
    rw [List.getElem_map, hentry]
    rfl
  have hcount := List.filterMap_length_eq_length.mpr hsources
  rw [List.length_mapIdx, List.length_map] at hcount
  simp only [captureWithDiscovery, List.length_insertionSort, recorded, List.mapIdx_append, List.filterMap_append,
    List.length_append, List.map_cons, List.map_nil, List.mapIdx_cons, List.mapIdx_nil, List.length_map,
    Nat.zero_add]
  rw [show (fun i (input : P × Bool) => look ((checkedSub earliest observedAt mtimeSettleWindow).getD observedAt)
    input.1 input.2 (seen i).1 (seen i).2) = (fun i (input : P × Bool) => look (settledOf earliest observedAt)
      input.1 input.2 (seen i).1 (seen i).2) from rfl, hcount]
  congr 1

end

section

variable {h : History earliest P} {sourceInputs : List P} {candidate path : P} {snapshot : Snapshot P}
  {taken checked : Nat → Nat × Probe} {now : Instant}

def History.seen (h : History earliest P) (moments : Nat → Nat × Probe) (i : Nat) : World P × Probe :=
  (h.world (moments i).1, (moments i).2)

theorem reusableSnapshot_some {seen : Nat → World P × Probe} {result : Snapshot P}
    (hreuse : reusableSnapshot earliest (some snapshot) path seen now = some result) :
    result = snapshot ∧ (snapshot.sourceFingerprint.matches (captureWithDiscovery earliest snapshot.sourceInputs
      snapshot.sourceFingerprint.discoveryPaths seen now)) = true := by
  simp only [reusableSnapshot, Option.bind_eq_bind, Option.bind_some] at hreuse
  split at hreuse
  · cases hreuse
  · split at hreuse
    · rename_i hmatches
      exact ⟨(Option.some.inj hreuse).symm, hmatches⟩
    · cases hreuse

-- Both fingerprints of a snapshot that is used again.
structure Matched (h : History earliest P) (sourceInputs : List P) (candidate : P) (taken checked : Nat → Nat × Probe)
    (now : Instant) : Prop where
  first : (captureWithDiscovery earliest sourceInputs [candidate] (h.seen taken) (h.clock h.started)).reusable = true
  second : (captureWithDiscovery earliest sourceInputs [candidate] (h.seen checked) now).reusable = true
  entries : (captureWithDiscovery earliest sourceInputs [candidate] (h.seen taken) (h.clock h.started)).entries =
    (captureWithDiscovery earliest sourceInputs [candidate] (h.seen checked) now).entries

variable (htaken : ∀ i, h.started ≤ (taken i).1 ∧ (taken i).1 ≤ h.built) (hchecked : ∀ i, h.built ≤ (checked i).1)

include htaken in
-- An entry of the first fingerprint speaks of the moment at which the parse started.
theorem entry_origin (hreusable :
      (captureWithDiscovery earliest sourceInputs [candidate] (h.seen taken) (h.clock h.started)).reusable = true)
    {entry : FingerprintEntry P} (hentry : entry ∈
      (captureWithDiscovery earliest sourceInputs [candidate] (h.seen taken) (h.clock h.started)).entries) :
    entry.modified < h.settledBefore ∧ (h.world h.started).links entry.path = entry.resolved := by
  obtain ⟨i, path, optional, -, hlook⟩ := mem_entries hreusable hentry
  obtain ⟨-, node, hseen⟩ := look_entry hlook
  have hsettled := hseen.settled
  rw [settledOf, settled_before] at hsettled
  rw [hseen.modified]
  refine ⟨hsettled, ?_⟩
  rw [hseen.resolved]
  exact (link_origin (htaken i).1 (htaken i).2 hseen.found hsettled).symm

include htaken hchecked in
theorem checked_view (hmatched : Matched h sourceInputs candidate taken checked now) {i : Nat} {path : P}
    {optional : Bool} (hi : (recorded sourceInputs [candidate])[i]? = some (path, optional))
    {entry : FingerprintEntry P} (hlook : look (settledOf earliest now) path optional (h.world (checked i).1)
      (checked i).2 = (some entry, true)) :
    view (h.world (checked i).1) path = view (h.world h.started) path := by
  obtain ⟨rfl, node, hseen⟩ := look_entry hlook
  have hfound : (look (settledOf earliest now) entry.path optional (h.seen checked i).1 (h.seen checked i).2).1 =
      some entry := congrArg Prod.fst hlook
  have hmem := entry_mem hi hfound
  rw [← hmatched.entries] at hmem
  obtain ⟨hsettled, hlinks⟩ := entry_origin htaken hmatched.first hmem
  rw [hseen.modified] at hsettled
  have hstarted : h.started ≤ (checked i).1 := ((htaken 0).1.trans (htaken 0).2).trans (hchecked i)
  have hnode := node_origin hstarted hseen.found hsettled
  unfold view
  rw [hseen.found, hlinks, hseen.resolved, hnode]

include htaken hchecked in
theorem source_view (hmatched : Matched h sourceInputs candidate taken checked now) {i : Nat} {path : P}
    (hi : sourceInputs[i]? = some path) : view (h.world (checked i).1) path = view (h.world h.started) path := by
  have hrecorded : (recorded sourceInputs [candidate])[i]? = some (path, false) := recorded_source hi
  obtain ⟨entry, hlook⟩ := source_present hmatched.second hrecorded
  exact checked_view htaken hchecked hmatched hrecorded hlook

omit [LinearOrder P] in
theorem view_none {w : World P} {p : P} : view w p = none ↔ w.nodes (w.links p) = none :=
  Option.map_eq_none_iff

omit [LinearOrder P] in
theorem look_view {settledBefore : Instant} {optional : Bool} {w : World P} {probe : Probe} {p : P}
    (hlook : (look settledBefore p optional w probe).2 = true) :
    (look settledBefore p optional w probe).1 = none ↔ view w p = none := by
  rw [view_none]
  cases hresult : look settledBefore p optional w probe with
  | mk entry reusable =>
    rw [hresult] at hlook
    cases hlook
    cases entry with
    | none => exact iff_of_true rfl (look_absent hresult).2
    | some entry =>
      obtain ⟨rfl, node, hseen⟩ := look_entry hresult
      refine iff_of_false nofun ?_
      rw [hseen.found]
      exact nofun

-- The candidate is there at the second look exactly if it was at the first.
theorem candidate_present (hmatched : Matched h sourceInputs candidate taken checked now) :
    view (h.world (taken sourceInputs.length).1) candidate = none ↔
      view (h.world (checked sourceInputs.length).1) candidate = none := by
  have hfirst := look_reusable hmatched.first (recorded_candidate candidate)
  have hsecond := look_reusable hmatched.second (recorded_candidate candidate)
  have hlength := congrArg List.length hmatched.entries
  rw [length_entries hmatched.first, length_entries hmatched.second] at hlength
  have hcounts := Nat.add_left_cancel hlength
  have hiff := look_view hfirst
  have hiff' := look_view hsecond
  refine hiff.symm.trans (Iff.trans ?_ hiff')
  revert hcounts
  cases (look (settledOf earliest (h.clock h.started)) candidate true (h.seen taken sourceInputs.length).1
    (h.seen taken sourceInputs.length).2).1 with
  | none =>
    cases (look (settledOf earliest now) candidate true (h.seen checked sourceInputs.length).1
      (h.seen checked sourceInputs.length).2).1 with
    | none => exact fun _ => Iff.rfl
    | some entry => nofun
  | some entry =>
    cases (look (settledOf earliest now) candidate true (h.seen checked sourceInputs.length).1
      (h.seen checked sourceInputs.length).2).1 with
    | none => nofun
    | some entry' => exact fun _ => iff_of_false nofun nofun

-- The parse may have found the candidate at its start and the capture may not.
def Deleted (h : History earliest P) (candidate : P) (captured : Nat) : Prop :=
  view (h.world captured) candidate = none ∧ view (h.world h.started) candidate ≠ none

include htaken hchecked in
theorem candidate_view (hmatched : Matched h sourceInputs candidate taken checked now)
    (hkept : ¬ Deleted h candidate (taken sourceInputs.length).1) :
    view (h.world (checked sourceInputs.length).1) candidate = view (h.world h.started) candidate := by
  have hpresent := candidate_present hmatched
  by_cases habsent : view (h.world (taken sourceInputs.length).1) candidate = none
  · rw [hpresent.mp habsent]
    by_contra hne
    exact hkept ⟨habsent, fun h => hne h.symm⟩
  · have hrecorded : (recorded sourceInputs [candidate])[sourceInputs.length]? = some (candidate, true) :=
      recorded_candidate candidate
    have hsecond := look_reusable hmatched.second hrecorded
    have hsome := mt (look_view hsecond).mp (mt hpresent.mpr habsent)
    obtain ⟨entry, hentry⟩ := Option.ne_none_iff_exists'.mp hsome
    exact checked_view htaken hchecked hmatched hrecorded (Prod.ext hentry hsecond)

-- What the recorded paths stand for is what it was when the parse started.
def Sound (h : History earliest P) (snapshot : Snapshot P) (candidate : P) (returned : Nat) : Prop :=
  (∀ p ∈ snapshot.sourceInputs, view (h.world returned) p = view (h.world h.started) p) ∧
    view (h.world returned) candidate = view (h.world h.started) candidate

-- Nothing was touched after the check had looked at it, and the candidate was not deleted
-- between the start of the parse and its capture; or it was, and has been put back since.
structure Undisturbed (h : History earliest P) (sourceInputs : List P) (candidate : P)
    (taken checked : Nat → Nat × Probe) (returned : Nat) : Prop where
  sources : ∀ i p, sourceInputs[i]? = some p → view (h.world returned) p = view (h.world (checked i).1) p
  candidate : (¬ Deleted h candidate (taken sourceInputs.length).1 ∧
      view (h.world returned) candidate = view (h.world (checked sourceInputs.length).1) candidate) ∨
    (Deleted h candidate (taken sourceInputs.length).1 ∧
      view (h.world returned) candidate = view (h.world h.started) candidate)

include htaken hchecked in
theorem sound_iff_undisturbed (hmatched : Matched h snapshot.sourceInputs candidate taken checked now) (returned : Nat) :
    Sound h snapshot candidate returned ↔ Undisturbed h snapshot.sourceInputs candidate taken checked returned := by
  constructor
  · rintro ⟨hsources, hcandidate⟩
    refine ⟨?_, ?_⟩
    · intro i p hi
      rw [hsources p (List.mem_of_getElem? hi), source_view htaken hchecked hmatched hi]
    · by_cases hdeleted : Deleted h candidate (taken snapshot.sourceInputs.length).1
      · exact .inr ⟨hdeleted, hcandidate⟩
      · exact .inl ⟨hdeleted, hcandidate.trans (candidate_view htaken hchecked hmatched hdeleted).symm⟩
  · rintro ⟨hsources, hcandidate⟩
    refine ⟨?_, ?_⟩
    · intro p hp
      obtain ⟨i, hi⟩ := List.mem_iff_getElem?.mp hp
      rw [hsources i p hi, source_view htaken hchecked hmatched hi]
    · rcases hcandidate with ⟨hkept, hsame⟩ | ⟨-, hrestored⟩
      · exact hsame.trans (candidate_view htaken hchecked hmatched hkept)
      · exact hrestored

end

theorem reuse_sound_iff {h : History earliest P} {environmentPath path rootConfig : P} {filePaths : List P}
    {profile : Option (ProjectProfile P)} {canonicalize : P → Option P} {taken checked : Nat → Nat × Probe}
    {now : Instant} {returned : Nat} {snapshot : Snapshot P}
    (htaken : ∀ i, h.started ≤ (taken i).1 ∧ (taken i).1 ≤ h.built)
    (hchecked : ∀ i, h.built ≤ (checked i).1 ∧ (checked i).1 ≤ returned)
    (hreuse : reusableSnapshot earliest
      (some (fromParse earliest environmentPath filePaths profile rootConfig canonicalize (h.seen taken)
        (h.clock h.started))) path (h.seen checked) now = some snapshot) :
    Sound h snapshot (configCandidate profile rootConfig) returned ↔
      Undisturbed h snapshot.sourceInputs (configCandidate profile rootConfig) taken checked returned := by
  obtain ⟨rfl, hmatches⟩ := reusableSnapshot_some hreuse
  simp only [SourceFingerprint.matches, Bool.and_eq_true, decide_eq_true_eq] at hmatches
  obtain ⟨⟨⟨hfirst, hsecond⟩, hentries⟩, -⟩ := hmatches
  have hmatched : Matched h (buildSourceInputs filePaths environmentPath profile canonicalize)
      (configCandidate profile rootConfig) taken checked now := ⟨hfirst, hsecond, hentries⟩
  exact sound_iff_undisturbed htaken (fun i => (hchecked i).1) hmatched returned

def answering : Probe := ⟨true, false, true, true⟩

def configured : World Nat where
  links := id
  nodes := fun p => if p < 2 then some ⟨true, [7], 0⟩ else none

def unconfigured : World Nat := { configured with nodes := Function.update configured.nodes 1 none }

-- The environment is path 0; its configuration, path 1, is deleted while the parse is under way.
def deletedConfig : History 0 Nat where
  world n := if n = 0 then configured else unconfigured
  clock _ := 10000000000
  monotone := monotone_const
  started := 0
  built := 1
  representable := by decide
  edits n _ hn := by
    obtain rfl : n = 0 := by omega
    exact .delete 1
  changes n _ := by
    cases n with
    | zero => exact .edit (.delete 1)
    | succ n => exact .edit .stay

def staleSnapshot : Option (Snapshot Nat) :=
  reusableSnapshot 0 (some (fromParse 0 0 [] none 1 some (deletedConfig.seen fun _ => (1, answering)) 10000000000)) 0
    (deletedConfig.seen fun _ => (1, answering)) 10000000000

theorem staleSnapshot_reused : ∃ snapshot, staleSnapshot = some snapshot :=
  Option.isSome_iff_exists.mp (by decide)

theorem reuse_sound_iff_stale : ∃ snapshot, staleSnapshot = some snapshot ∧
    (Sound deletedConfig snapshot 1 1 ↔
      Undisturbed deletedConfig snapshot.sourceInputs 1 (fun _ => (1, answering)) (fun _ => (1, answering)) 1) := by
  obtain ⟨snapshot, hsnapshot⟩ := staleSnapshot_reused
  exact ⟨snapshot, hsnapshot, reuse_sound_iff (fun _ => by decide) (fun _ => by decide) hsnapshot⟩

theorem deleted_config_reused :
    ∃ snapshot, staleSnapshot = some snapshot ∧ ¬ Sound deletedConfig snapshot 1 1 := by
  obtain ⟨snapshot, hsnapshot⟩ := staleSnapshot_reused
  refine ⟨snapshot, hsnapshot, ?_⟩
  rintro ⟨-, hcandidate⟩
  revert hcandidate
  decide

end Reuse
