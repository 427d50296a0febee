import Mathlib.Data.Prod.Lex
import Mathlib.Order.Lex
import MeridianMcp.DisjointSets
import MeridianMcp.Dmi.Compare
import MeridianMcp.Dmi.Duplicates
import MeridianMcp.Effects.FinMap
import MeridianMcp.Search.TopK

namespace Dmi

open MeridianMcp Effects TopK DisjointSets

def StateLocator.key {P : Type} (locator : StateLocator P) : P ×ₗ (Text ×ₗ Nat) :=
  toLex (locator.dmiPath, toLex (locator.state, locator.duplicateIndex))

theorem StateLocator.key_injective {P : Type} :
    Function.Injective (StateLocator.key : StateLocator P → P ×ₗ (Text ×ₗ Nat)) := by
  intro left right h
  obtain ⟨path, state, index⟩ := left
  obtain ⟨path', state', index'⟩ := right
  simp only [key, EmbeddingLike.apply_eq_iff_eq, Prod.mk.injEq] at h
  obtain ⟨rfl, rfl, rfl⟩ := h
  rfl

-- The derived order: by the path, then the state, then the duplicate index.
instance {P : Type} [LinearOrder P] : LinearOrder (StateLocator P) :=
  LinearOrder.lift' StateLocator.key StateLocator.key_injective

variable {P S : Type} [LinearOrder P]

structure DuplicateCluster (P S : Type) where
  clusterId : Text
  confidence : Text
  members : List (StateLocator P)
  pairEvidence : List (StateComparison P S)

def confidenceText : MatchKind → Text
  | .exact => "exact".toList
  | .transformed => "transformed".toList
  | .padded => "padded".toList
  | .palette => "palette".toList
  | .near => "near".toList
  | .different => "different".toList

def matchConfidenceRank (confidence : Text) : Nat :=
  if confidence = "exact".toList then 0
  else if confidence = "transformed".toList then 1
  else if confidence = "padded".toList then 2
  else if confidence = "palette".toList then 3
  else if confidence = "near".toList then 4
  else 5

-- The digest of the serialized confidence and members. A path that is no Unicode text has no
-- serialization.
structure ClusterIdentity (P : Type) where
  toStr : P → Option Text
  toVec : Text → List (Text × Text × Nat) → List UInt8
  digest : List UInt8 → Text

def ClusterIdentity.serialized (identity : ClusterIdentity P) (locator : StateLocator P) :
    Option (Text × Text × Nat) :=
  (identity.toStr locator.dmiPath).map fun path => (path, locator.state, locator.duplicateIndex)

def StateComparison.pair (comparison : StateComparison P S) : StateLocator P × StateLocator P :=
  (comparison.left, comparison.right)

def membersOf (comparisons : List (StateComparison P S)) : List (StateLocator P) :=
  (sortBy id (comparisons.flatMap fun comparison => [comparison.left, comparison.right])).destutter
    (· ≠ ·)

def indexPair (members : List (StateLocator P)) (comparison : StateComparison P S) :
    Option (Nat × Nat) := do
  let left ← members.idxOf? comparison.left
  let right ← members.idxOf? comparison.right
  some (left, right)

def groupsOf (members : List (StateLocator P)) (memberRoots : List Nat) :
    List (List (StateLocator P)) :=
  ((memberRoots.zip members).foldl (FinMap.pushAt Prod.fst Prod.snd) FinMap.empty).entries.map
    Prod.snd

def pairEvidenceOf (comparisons : List (StateComparison P S)) (members : List (StateLocator P)) :
    List (StateComparison P S) :=
  sortBy (fun comparison => toLex comparison.pair)
    (comparisons.filter fun comparison => comparison.left ∈ members ∧ comparison.right ∈ members)

def toCluster (identity : ClusterIdentity P) (comparisons : List (StateComparison P S))
    (members : List (StateLocator P)) : Option (DuplicateCluster P S) := do
  let pairEvidence := pairEvidenceOf comparisons members
  let matchClass := (worst (pairEvidence.map StateComparison.imageMatch)).getD .different
  let confidence := confidenceText matchClass
  let serialized ← members.mapM identity.serialized
  some ⟨identity.digest (identity.toVec confidence serialized), confidence, members, pairEvidence⟩

-- No cluster is without members, so the comparison by the first of them finds one.
def precedes (left right : DuplicateCluster P S) : Bool :=
  match left.members, right.members with
  | first :: _, other :: _ =>
    toLex (matchConfidenceRank left.confidence, first) ≤
      toLex (matchConfidenceRank right.confidence, other)
  | _, _ => true

def clusterComparisons (identity : ClusterIdentity P) (comparisons : List (StateComparison P S)) :
    Option (List (DuplicateCluster P S)) := do
  let members := membersOf comparisons
  let pairs ← comparisons.mapM (indexPair members)
  let parents ← pairs.foldlM union (List.range members.length)
  let memberRoots ← roots parents (List.range members.length)
  let clusters ← (groupsOf members memberRoots).mapM (toCluster identity comparisons)
  some (clusters.mergeSort precedes)

end Dmi

namespace Dmi

open MeridianMcp Effects TopK DisjointSets Fallible

variable {P S : Type} [LinearOrder P]

def locatorsOf (comparisons : List (StateComparison P S)) : List (StateLocator P) :=
  comparisons.flatMap fun comparison => [comparison.left, comparison.right]

def Connected (comparisons : List (StateComparison P S)) :
    StateLocator P → StateLocator P → Prop :=
  Relation.EqvGen fun left right => ∃ comparison ∈ comparisons, comparison.pair = (left, right)

section Members

variable {comparisons others : List (StateComparison P S)}

theorem mem_membersOf {locator : StateLocator P} :
    locator ∈ membersOf comparisons ↔ locator ∈ locatorsOf comparisons := by
  rw [membersOf, mem_destutter_ne, (sortBy_perm _ _).mem_iff, locatorsOf]

theorem membersOf_pairwise (comparisons : List (StateComparison P S)) :
    (membersOf comparisons).Pairwise (· < ·) :=
  pairwise_lt_destutter (sortBy_pairwise id _)

theorem membersOf_nodup (comparisons : List (StateComparison P S)) :
    (membersOf comparisons).Nodup :=
  (membersOf_pairwise comparisons).imp ne_of_lt

theorem membersOf_perm (h : others.Perm comparisons) : membersOf others = membersOf comparisons := by
  have hsort : sortBy id (locatorsOf others) = sortBy id (locatorsOf comparisons) :=
    sortBy_eq_of_perm (h.flatMap_right _) fun _ _ _ _ heq => heq
  exact congrArg (List.destutter (· ≠ ·)) hsort

theorem pair_mem (comparison : StateComparison P S) (h : comparison ∈ comparisons) :
    comparison.left ∈ membersOf comparisons ∧ comparison.right ∈ membersOf comparisons := by
  rw [mem_membersOf, mem_membersOf, locatorsOf, List.mem_flatMap, List.mem_flatMap]
  exact ⟨⟨comparison, h, by simp⟩, ⟨comparison, h, by simp⟩⟩

def placesOf (members : List (StateLocator P)) (comparison : StateComparison P S) : Nat × Nat :=
  (members.idxOf comparison.left, members.idxOf comparison.right)

theorem idxOf?_eq {members : List (StateLocator P)} {locator : StateLocator P}
    (h : locator ∈ members) : members.idxOf? locator = some (members.idxOf locator) := by
  induction members with
  | nil => cases h
  | cons first members ih =>
    rw [List.idxOf?_cons, List.idxOf_cons]
    by_cases hfirst : first = locator
    · simp [hfirst]
    · rw [ih ((List.mem_cons.mp h).resolve_left (Ne.symm hfirst)), beq_false_of_ne hfirst]
      rfl

theorem mapM_indexPair (comparisons : List (StateComparison P S)) :
    comparisons.mapM (indexPair (membersOf comparisons)) =
      some (comparisons.map (placesOf (membersOf comparisons))) := by
  apply mapM_some_of_forall₂
  rw [List.forall₂_map_right_iff, List.forall₂_same]
  intro comparison hmem
  obtain ⟨hleft, hright⟩ := pair_mem comparison hmem
  simp [indexPair, placesOf, idxOf?_eq hleft, idxOf?_eq hright]

end Members

section Classes

variable (comparisons : List (StateComparison P S))

def Joined (i j : Nat) : Prop :=
  (i, j) ∈ comparisons.map (placesOf (membersOf comparisons))

variable {comparisons}

theorem connected_of_joined {i j : Nat} (h : Relation.EqvGen (Joined comparisons) i j) :
    i = j ∨ ∃ left right, (membersOf comparisons)[i]? = some left ∧
      (membersOf comparisons)[j]? = some right ∧ Connected comparisons left right := by
  induction h with
  | rel i j hij =>
    obtain ⟨comparison, hmem, hplaces⟩ := List.mem_map.mp hij
    obtain ⟨rfl, rfl⟩ := Prod.mk.inj hplaces
    obtain ⟨hleft, hright⟩ := pair_mem comparison hmem
    exact Or.inr ⟨_, _, List.getElem?_idxOf hleft, List.getElem?_idxOf hright,
      .rel _ _ ⟨comparison, hmem, rfl⟩⟩
  | refl => exact Or.inl rfl
  | symm _ _ _ ih =>
    rcases ih with rfl | ⟨left, right, hleft, hright, h⟩
    · exact Or.inl rfl
    · exact Or.inr ⟨right, left, hright, hleft, h.symm⟩
  | trans _ _ _ _ _ ih ih' =>
    rcases ih with rfl | ⟨left, mid, hleft, hmid, h⟩
    · exact ih'
    · rcases ih' with rfl | ⟨mid', right, hmid', hright, h'⟩
      · exact Or.inr ⟨left, mid, hleft, hmid, h⟩
      · obtain rfl := Option.some.inj (hmid.symm.trans hmid')
        exact Or.inr ⟨left, right, hleft, hright, h.trans _ _ _ h'⟩

theorem joined_of_connected {left right : StateLocator P} (h : Connected comparisons left right) :
    Relation.EqvGen (Joined comparisons) ((membersOf comparisons).idxOf left)
      ((membersOf comparisons).idxOf right) := by
  induction h with
  | rel left right hpair =>
    obtain ⟨comparison, hmem, hpair⟩ := hpair
    obtain ⟨rfl, rfl⟩ := Prod.mk.inj hpair
    exact .rel _ _ (List.mem_map_of_mem hmem)
  | refl => exact .refl _
  | symm _ _ _ ih => exact ih.symm
  | trans _ _ _ _ _ ih ih' => exact ih.trans _ _ _ ih'

theorem joined_iff_connected {left right : StateLocator P} (hleft : left ∈ membersOf comparisons)
    (hright : right ∈ membersOf comparisons) :
    Relation.EqvGen (Joined comparisons) ((membersOf comparisons).idxOf left)
      ((membersOf comparisons).idxOf right) ↔ Connected comparisons left right := by
  refine ⟨fun h => ?_, joined_of_connected⟩
  rcases connected_of_joined h with heq | ⟨first, second, hfirst, hsecond, hconnected⟩
  · obtain rfl := (List.idxOf_inj hleft).mp heq
    exact .refl _
  · obtain rfl := Option.some.inj (hfirst.symm.trans (List.getElem?_idxOf hleft))
    obtain rfl := Option.some.inj (hsecond.symm.trans (List.getElem?_idxOf hright))
    exact hconnected

theorem mem_of_connected {left right : StateLocator P} (h : Connected comparisons left right)
    (hleft : left ∈ membersOf comparisons) : right ∈ membersOf comparisons := by
  suffices hboth : left ∈ membersOf comparisons ↔ right ∈ membersOf comparisons from hboth.mp hleft
  clear hleft
  induction h with
  | rel left right hpair =>
    obtain ⟨comparison, hmem, hpair⟩ := hpair
    obtain ⟨rfl, rfl⟩ := Prod.mk.inj hpair
    obtain ⟨hleft, hright⟩ := pair_mem comparison hmem
    exact iff_of_true hleft hright
  | refl => rfl
  | symm _ _ _ ih => exact ih.symm
  | trans _ _ _ _ _ ih ih' => exact ih.trans ih'

-- The roots that the parents lead to after all comparisons.
def Leads (comparisons : List (StateComparison P S)) (rep : Nat → Nat) : Prop :=
  ∃ parents, parents.length = (membersOf comparisons).length ∧ Represents parents rep ∧
    Classes (Joined comparisons) rep

theorem Leads.rep_eq {others : List (StateComparison P S)} {rep rep' : Nat → Nat}
    (h : Leads comparisons rep) (h' : Leads others rep') (hperm : others.Perm comparisons) {i : Nat}
    (hi : i < (membersOf comparisons).length) : rep i = rep' i := by
  obtain ⟨parents, hlen, hrep, hclasses⟩ := h
  obtain ⟨parents', hlen', hrep', hclasses'⟩ := h'
  have hjoined : Joined others = Joined comparisons := by
    funext i j
    rw [Joined, Joined, membersOf_perm hperm]
    exact propext (hperm.map _).mem_iff
  rw [membersOf_perm hperm] at hlen'
  rw [hjoined] at hclasses'
  exact hrep.rep_eq hrep' (hlen'.trans hlen.symm) hclasses hclasses' (hlen ▸ hi)

theorem exists_leads (comparisons : List (StateComparison P S)) :
    ∃ rep, Leads comparisons rep ∧ ∃ parents,
      (comparisons.map (placesOf (membersOf comparisons))).foldlM union
        (List.range (membersOf comparisons).length) = some parents ∧
      roots parents (List.range (membersOf comparisons).length) =
        some ((List.range (membersOf comparisons).length).map rep) := by
  have hplaces : ∀ pair ∈ comparisons.map (placesOf (membersOf comparisons)),
      pair.1 < (List.range (membersOf comparisons).length).length ∧
        pair.2 < (List.range (membersOf comparisons).length).length := by
    intro pair hpair
    obtain ⟨comparison, hmem, rfl⟩ := List.mem_map.mp hpair
    obtain ⟨hleft, hright⟩ := pair_mem comparison hmem
    rw [List.length_range]
    exact ⟨List.idxOf_lt_length_iff.mpr hleft, List.idxOf_lt_length_iff.mpr hright⟩
  obtain ⟨parents, rep, hfold, hlen, hrep, hclasses⟩ :=
    (represents_range (membersOf comparisons).length).unions classes_id hplaces
  rw [List.length_range] at hlen
  refine ⟨rep, ⟨parents, hlen, hrep, ?_⟩, parents, hfold, hrep.roots_eq ?_⟩
  · simp only [false_or] at hclasses
    exact hclasses
  · intro i hi
    rw [hlen]
    exact List.mem_range.mp hi

end Classes

section Groups

structure Grouped (comparisons : List (StateComparison P S))
    (groups : List (List (StateLocator P))) : Prop where
  nodup : groups.flatten.Nodup
  mem_flatten : ∀ locator, locator ∈ groups.flatten ↔ locator ∈ locatorsOf comparisons
  sorted : ∀ members ∈ groups, members.Pairwise (· < ·)
  component : ∀ members ∈ groups, ∃ locator ∈ members,
    ∀ other, other ∈ members ↔ Connected comparisons locator other

variable {members : List (StateLocator P)} {rep : Nat → Nat}

theorem zip_roots (h : members.Nodup) : ((List.range members.length).map rep).zip members =
    members.map fun member => (rep (members.idxOf member), member) := by
  refine List.ext_getElem (by simp) fun i hi _ => ?_
  simp [h.idxOf_getElem]

theorem mem_entries_groups {root : Nat} {group : List (StateLocator P)} (h : members.Nodup) :
    (root, group) ∈ ((((List.range members.length).map rep).zip members).foldl
        (FinMap.pushAt Prod.fst Prod.snd) FinMap.empty).entries ↔
      (∃ member ∈ members, rep (members.idxOf member) = root) ∧
        group = members.filter fun member => rep (members.idxOf member) = root := by
  rw [FinMap.mem_entries, zip_roots h, FinMap.get_foldl_pushAt]
  simp only [List.any_map, List.any_eq_true, Function.comp_apply, decide_eq_true_eq,
    List.filter_map, List.map_map]
  split
  · rename_i hany
    simp only [FinMap.empty, Option.getD_none, List.nil_append, Option.some.injEq,
      Function.comp_def, List.map_id']
    exact ⟨fun heq => ⟨hany, heq.symm⟩, fun heq => heq.2.symm⟩
  · rename_i hnone
    simp [FinMap.empty, hnone]

variable {comparisons : List (StateComparison P S)}

theorem grouped_of_leads (h : Leads comparisons rep) : Grouped comparisons
    (groupsOf (membersOf comparisons) ((List.range (membersOf comparisons).length).map rep)) := by
  obtain ⟨-, -, -, hclasses⟩ := h
  have hnodup := membersOf_nodup comparisons
  have hgroup : ∀ group ∈ groupsOf (membersOf comparisons)
      ((List.range (membersOf comparisons).length).map rep), ∃ member ∈ membersOf comparisons,
        group = (membersOf comparisons).filter fun other =>
          rep ((membersOf comparisons).idxOf other) = rep ((membersOf comparisons).idxOf member) := by
    intro group hgroup
    obtain ⟨⟨root, found⟩, hentry, rfl⟩ := List.mem_map.mp hgroup
    obtain ⟨⟨member, hmember, rfl⟩, rfl⟩ := (mem_entries_groups hnodup).mp hentry
    exact ⟨member, hmember, rfl⟩
  refine ⟨List.nodup_flatten.mpr ⟨?_, ?_⟩, ?_, ?_, ?_⟩
  · intro group hmem
    obtain ⟨member, -, rfl⟩ := hgroup group hmem
    exact hnodup.filter _
  · -- Two groups have different roots, and each of their members leads to its own.
    rw [groupsOf, List.pairwise_map]
    refine (List.pairwise_map.mp (FinMap.entries_keys_nodup _)).imp_of_mem ?_
    rintro ⟨root, group⟩ ⟨root', group'⟩ hentry hentry' hne locator hin hin'
    obtain ⟨-, rfl⟩ := (mem_entries_groups hnodup).mp hentry
    obtain ⟨-, rfl⟩ := (mem_entries_groups hnodup).mp hentry'
    have hroot := (List.mem_filter.mp hin).2
    have hroot' := (List.mem_filter.mp hin').2
    exact hne ((of_decide_eq_true hroot).symm.trans (of_decide_eq_true hroot'))
  · intro locator
    rw [List.mem_flatten, ← mem_membersOf]
    constructor
    · rintro ⟨group, hmem, hin⟩
      obtain ⟨member, -, rfl⟩ := hgroup group hmem
      exact (List.mem_filter.mp hin).1
    · intro hin
      refine ⟨_, List.mem_map.mpr ⟨(rep ((membersOf comparisons).idxOf locator), _),
        (mem_entries_groups hnodup).mpr ⟨⟨locator, hin, rfl⟩, rfl⟩, rfl⟩, ?_⟩
      exact List.mem_filter.mpr ⟨hin, decide_eq_true rfl⟩
  · intro group hmem
    obtain ⟨member, -, rfl⟩ := hgroup group hmem
    exact (membersOf_pairwise comparisons).filter _
  · intro group hmem
    obtain ⟨member, hmember, rfl⟩ := hgroup group hmem
    refine ⟨member, List.mem_filter.mpr ⟨hmember, decide_eq_true rfl⟩, fun other => ?_⟩
    rw [List.mem_filter, decide_eq_true_eq, eq_comm, hclasses]
    constructor
    · rintro ⟨hother, h⟩
      exact (joined_iff_connected hmember hother).mp h
    · intro h
      have hother := mem_of_connected h hmember
      exact ⟨hother, (joined_iff_connected hmember hother).mpr h⟩

end Groups

section Clusters

structure Clustered (comparisons : List (StateComparison P S))
    (clusters : List (DuplicateCluster P S)) : Prop where
  grouped : Grouped comparisons (clusters.map DuplicateCluster.members)
  evidence : (clusters.flatMap DuplicateCluster.pairEvidence).Perm comparisons
  inside : ∀ cluster ∈ clusters, ∀ comparison ∈ cluster.pairEvidence,
    comparison.left ∈ cluster.members ∧ comparison.right ∈ cluster.members
  confidence : ∀ cluster ∈ clusters, ∃ comparison ∈ cluster.pairEvidence,
    cluster.confidence = confidenceText comparison.imageMatch ∧
      ∀ other ∈ cluster.pairEvidence, matchRank other.imageMatch ≤ matchRank comparison.imageMatch

variable {identity : ClusterIdentity P} {comparisons others : List (StateComparison P S)}

theorem Grouped.perm {groups groups' : List (List (StateLocator P))}
    (h : Grouped comparisons groups) (hperm : groups'.Perm groups) : Grouped comparisons groups' where
  nodup := hperm.flatten.nodup_iff.mpr h.nodup
  mem_flatten locator := hperm.flatten.mem_iff.trans (h.mem_flatten locator)
  sorted members hmem := h.sorted members (hperm.mem_iff.mp hmem)
  component members hmem := h.component members (hperm.mem_iff.mp hmem)

theorem Clustered.perm {clusters clusters' : List (DuplicateCluster P S)}
    (h : Clustered comparisons clusters) (hperm : clusters'.Perm clusters) :
    Clustered comparisons clusters' where
  grouped := h.grouped.perm (hperm.map _)
  evidence := (hperm.flatMap_right _).trans h.evidence
  inside cluster hmem := h.inside cluster (hperm.mem_iff.mp hmem)
  confidence cluster hmem := h.confidence cluster (hperm.mem_iff.mp hmem)

theorem mem_pairEvidenceOf {members : List (StateLocator P)} {comparison : StateComparison P S} :
    comparison ∈ pairEvidenceOf comparisons members ↔
      comparison ∈ comparisons ∧ comparison.left ∈ members ∧ comparison.right ∈ members := by
  rw [pairEvidenceOf, (sortBy_perm _ _).mem_iff, List.mem_filter, decide_eq_true_eq]

theorem pairEvidenceOf_perm (hpairs : (comparisons.map StateComparison.pair).Nodup)
    (hperm : others.Perm comparisons) (members : List (StateLocator P)) :
    pairEvidenceOf others members = pairEvidenceOf comparisons members := by
  symm
  refine sortBy_eq_of_perm (hperm.symm.filter _) fun a ha b hb heq => ?_
  exact List.inj_on_of_nodup_map hpairs (List.mem_filter.mp ha).1 (List.mem_filter.mp hb).1
    (toLex.injective heq)

theorem toCluster_some {members : List (StateLocator P)} {cluster : DuplicateCluster P S}
    (h : toCluster identity comparisons members = some cluster) :
    cluster.members = members ∧ cluster.pairEvidence = pairEvidenceOf comparisons members ∧
      cluster.confidence = confidenceText
        ((worst ((pairEvidenceOf comparisons members).map StateComparison.imageMatch)).getD
          .different) ∧
      ∀ locator ∈ members, (identity.toStr locator.dmiPath).isSome := by
  rw [toCluster] at h
  obtain ⟨serialized, hserialized, h⟩ := Option.bind_eq_some_iff.mp h
  obtain rfl := Option.some.inj h
  refine ⟨rfl, rfl, rfl, fun locator hlocator => ?_⟩
  obtain ⟨_, -, hsome⟩ := exists_of_mem_left (forall₂_of_mapM_some hserialized) hlocator
  obtain ⟨path, hpath, -⟩ := Option.map_eq_some_iff.mp hsome
  rw [hpath]
  rfl

theorem exists_toCluster {members : List (StateLocator P)}
    (h : ∀ locator ∈ members, (identity.toStr locator.dmiPath).isSome) :
    ∃ cluster, toCluster identity comparisons members = some cluster := by
  obtain ⟨serialized, hserialized⟩ := exists_mapM_some (f := identity.serialized) fun locator hmem => by
    obtain ⟨path, hpath⟩ := Option.isSome_iff_exists.mp (h locator hmem)
    exact ⟨_, congrArg (Option.map _) hpath⟩
  rw [toCluster, hserialized]
  exact ⟨_, rfl⟩

theorem worst_ne_none {kinds : List MatchKind} {start : Option MatchKind}
    (h : start ≠ none ∨ kinds ≠ []) : kinds.foldl
      (fun best kind =>
        match best with
        | none => some kind
        | some old => if matchRank old ≤ matchRank kind then some kind else some old)
      start ≠ none := by
  induction kinds generalizing start with
  | nil => exact h.resolve_right fun hne => hne rfl
  | cons kind kinds ih =>
    apply ih
    left
    cases start with
    | none => exact Option.some_ne_none _
    | some old =>
      dsimp only
      split <;> exact Option.some_ne_none _

theorem worst_mem_foldl {kinds : List MatchKind} {start : Option MatchKind} {kind : MatchKind}
    (h : kinds.foldl
      (fun best kind =>
        match best with
        | none => some kind
        | some old => if matchRank old ≤ matchRank kind then some kind else some old)
      start = some kind) : start = some kind ∨ kind ∈ kinds := by
  induction kinds generalizing start with
  | nil => exact Or.inl h
  | cons first kinds ih =>
    rcases ih h with hstart | hmem
    · cases start with
      | none => exact Or.inr (Option.some.inj hstart ▸ List.mem_cons_self ..)
      | some old =>
        dsimp only at hstart
        split at hstart
        · exact Or.inr (Option.some.inj hstart ▸ List.mem_cons_self ..)
        · exact Or.inl hstart
    · exact Or.inr (List.mem_cons_of_mem _ hmem)

omit [LinearOrder P] in
theorem exists_worst {evidence : List (StateComparison P S)} (h : evidence ≠ []) :
    ∃ comparison ∈ evidence,
      (worst (evidence.map StateComparison.imageMatch)).getD .different = comparison.imageMatch ∧
        ∀ other ∈ evidence, matchRank other.imageMatch ≤ matchRank comparison.imageMatch := by
  have hkinds : evidence.map StateComparison.imageMatch ≠ [] := List.map_eq_nil_iff.not.mpr h
  have hsome : worst (evidence.map StateComparison.imageMatch) ≠ none := worst_ne_none (Or.inr hkinds)
  obtain ⟨kind, hkind⟩ := Option.ne_none_iff_exists'.mp hsome
  obtain ⟨comparison, hmem, rfl⟩ := List.mem_map.mp
    ((worst_mem_foldl hkind).resolve_left (Option.some_ne_none _).symm)
  refine ⟨comparison, hmem, congrArg (Option.getD · _) hkind, fun other hother => ?_⟩
  exact (worst_foldl hkind).2 _ (List.mem_map_of_mem hother)

theorem clustered_of_mapM {groups : List (List (StateLocator P))}
    {clusters : List (DuplicateCluster P S)}
    (hpairs : (comparisons.map StateComparison.pair).Nodup) (hgroups : Grouped comparisons groups)
    (h : groups.mapM (toCluster identity comparisons) = some clusters) :
    Clustered comparisons clusters := by
  have hall := forall₂_of_mapM_some h
  have hmembers : clusters.map DuplicateCluster.members = groups :=
    (map_eq_of_forall₂ hall fun _ _ hcluster => (toCluster_some hcluster).1).trans (List.map_id _)
  have hevidence : ∀ cluster ∈ clusters,
      cluster.pairEvidence = pairEvidenceOf comparisons cluster.members := by
    intro cluster hmem
    obtain ⟨group, -, hcluster⟩ := exists_of_mem_right hall hmem
    rw [(toCluster_some hcluster).1, (toCluster_some hcluster).2.1]
  have hinside : ∀ cluster ∈ clusters, ∀ comparison ∈ cluster.pairEvidence,
      comparison.left ∈ cluster.members ∧ comparison.right ∈ cluster.members := by
    intro cluster hmem comparison hcomparison
    rw [hevidence cluster hmem] at hcomparison
    exact (mem_pairEvidenceOf.mp hcomparison).2
  rw [← hmembers] at hgroups
  have hnodup := hpairs.of_map
  refine ⟨hgroups, ?_, hinside, ?_⟩
  · refine (List.perm_ext_iff_of_nodup (List.nodup_flatMap.mpr ⟨?_, ?_⟩) hnodup).mpr ?_
    · intro cluster hmem
      rw [hevidence cluster hmem]
      exact (sortBy_perm _ _).nodup_iff.mpr (hnodup.filter _)
    · -- A comparison in two clusters has its left locator in both.
      refine (List.pairwise_map.mp (List.nodup_flatten.mp hgroups.nodup).2).imp_of_mem ?_
      intro cluster cluster' hmem hmem' hdisjoint comparison hin hin'
      exact hdisjoint (hinside cluster hmem _ hin).1 (hinside cluster' hmem' _ hin').1
    · intro comparison
      rw [List.mem_flatMap]
      constructor
      · rintro ⟨cluster, hmem, hin⟩
        rw [hevidence cluster hmem] at hin
        exact (mem_pairEvidenceOf.mp hin).1
      · intro hin
        have hleft : comparison.left ∈ locatorsOf comparisons :=
          List.mem_flatMap.mpr ⟨comparison, hin, by simp⟩
        obtain ⟨members, hmem, hleft⟩ :=
          List.mem_flatten.mp ((hgroups.mem_flatten _).mpr hleft)
        obtain ⟨cluster, hcluster, rfl⟩ := List.mem_map.mp hmem
        obtain ⟨locator, -, hcomponent⟩ := hgroups.component _ hmem
        have hright : comparison.right ∈ cluster.members := by
          rw [hcomponent] at hleft ⊢
          exact hleft.trans _ _ _ (.rel _ _ ⟨comparison, hin, rfl⟩)
        refine ⟨cluster, hcluster, ?_⟩
        rw [hevidence cluster hcluster]
        exact mem_pairEvidenceOf.mpr ⟨hin, hleft, hright⟩
  · intro cluster hmem
    obtain ⟨group, -, hcluster⟩ := exists_of_mem_right hall hmem
    obtain ⟨locator, hlocator, hcomponent⟩ :=
      hgroups.component _ (List.mem_map_of_mem hmem)
    have hoccurs : locator ∈ locatorsOf comparisons := (hgroups.mem_flatten _).mp
      (List.mem_flatten.mpr ⟨_, List.mem_map_of_mem hmem, hlocator⟩)
    obtain ⟨comparison, hin, hend⟩ := List.mem_flatMap.mp hoccurs
    have hlink : Connected comparisons comparison.left comparison.right :=
      .rel _ _ ⟨comparison, hin, rfl⟩
    have hboth : comparison.left ∈ cluster.members ∧ comparison.right ∈ cluster.members := by
      rw [hcomponent, hcomponent]
      rcases List.mem_pair.mp hend with rfl | rfl
      · exact ⟨.refl _, hlink⟩
      · exact ⟨hlink.symm, .refl _⟩
    have hne : cluster.pairEvidence ≠ [] := by
      rw [hevidence cluster hmem]
      exact List.ne_nil_of_mem (mem_pairEvidenceOf.mpr ⟨hin, hboth⟩)
    obtain ⟨chosen, hchosen, hkind, hworst⟩ := exists_worst hne
    refine ⟨chosen, hchosen, ?_, hworst⟩
    rw [(toCluster_some hcluster).2.2.1, ← (toCluster_some hcluster).2.1, hkind]

theorem clusterComparisons_eq (identity : ClusterIdentity P)
    (comparisons : List (StateComparison P S)) : ∃ rep, Leads comparisons rep ∧
      clusterComparisons identity comparisons =
        ((groupsOf (membersOf comparisons)
          ((List.range (membersOf comparisons).length).map rep)).mapM
            (toCluster identity comparisons)).map fun clusters => clusters.mergeSort precedes := by
  obtain ⟨rep, hleads, parents, hfold, hroots⟩ := exists_leads comparisons
  refine ⟨rep, hleads, ?_⟩
  simp only [clusterComparisons, mapM_indexPair, hfold, hroots, Option.bind_eq_bind,
    Option.bind_some, Option.map_eq_bind]
  rfl

theorem serializable_of_clusterComparisons {clusters : List (DuplicateCluster P S)}
    (h : clusterComparisons identity comparisons = some clusters) :
    ∀ locator ∈ locatorsOf comparisons, (identity.toStr locator.dmiPath).isSome := by
  intro locator hlocator
  obtain ⟨rep, hleads, heq⟩ := clusterComparisons_eq identity comparisons
  obtain ⟨found, hfound, -⟩ := Option.map_eq_some_iff.mp (heq.symm.trans h)
  obtain ⟨group, hgroup, hin⟩ :=
    List.mem_flatten.mp (((grouped_of_leads hleads).mem_flatten locator).mpr hlocator)
  obtain ⟨cluster, -, hcluster⟩ := exists_of_mem_left (forall₂_of_mapM_some hfound) hgroup
  exact (toCluster_some hcluster).2.2.2 locator hin

theorem clusterComparisons_perm (identity : ClusterIdentity P)
    (hpairs : (comparisons.map StateComparison.pair).Nodup) (hperm : others.Perm comparisons) :
    clusterComparisons identity others = clusterComparisons identity comparisons := by
  obtain ⟨rep, hleads, heq⟩ := clusterComparisons_eq identity comparisons
  obtain ⟨rep', hleads', heq'⟩ := clusterComparisons_eq identity others
  have hcluster : toCluster identity others = toCluster identity comparisons := by
    funext members
    rw [toCluster, toCluster, pairEvidenceOf_perm hpairs hperm]
  have hroots : (List.range (membersOf comparisons).length).map rep' =
      (List.range (membersOf comparisons).length).map rep :=
    List.map_congr_left fun i hi =>
      (hleads.rep_eq hleads' hperm (List.mem_range.mp hi)).symm
  rw [heq, heq', membersOf_perm hperm, hroots, hcluster]

end Clusters

-- The path of bytes that is a text when the bytes are all ASCII.
def asciiIdentity : ClusterIdentity (List (Fin 256)) where
  toStr path :=
    if ∀ byte ∈ path, byte.val < 128 then some (path.map fun byte => Char.ofNat byte.val) else none
  toVec confidence members :=
    confidence.map (fun c => UInt8.ofNat c.toNat) ++
      members.flatMap fun member => member.1.map fun c => UInt8.ofNat c.toNat
  digest bytes := bytes.map fun byte => Char.ofNat byte.toNat

def lampComparison (path : List (Fin 256)) : StateComparison (List (Fin 256)) Nat :=
  ⟨⟨path, "lamp".toList, 0⟩, ⟨path, "lamp2".toList, 0⟩, .exact, [], []⟩

theorem isSome_toStr {path : List (Fin 256)} :
    (∀ locator ∈ locatorsOf [lampComparison path], (asciiIdentity.toStr locator.dmiPath).isSome) ↔
      ∀ byte ∈ path, byte.val < 128 := by
  simp [locatorsOf, lampComparison, asciiIdentity]

end Dmi
