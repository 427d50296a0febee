import Mathlib.Algebra.Ring.Rat
import MeridianMcp.Dmi.Duplicates
import MeridianMcp.Effects.FinMap
import Mathlib.Algebra.Order.Ring.Unbundled.Rat

namespace Dmi

open MeridianMcp Effects Numbering Fallible

theorem pair_sublist_cons {α : Type} {a b c : α} {l : List α} :
    [a, b].Sublist (c :: l) ↔ (a = c ∧ b ∈ l) ∨ [a, b].Sublist l := by
  rw [List.sublist_cons_iff]
  constructor
  · rintro (h | ⟨r, hr, hsub⟩)
    · exact Or.inr h
    · obtain ⟨rfl, rfl⟩ := List.cons.inj hr
      exact Or.inl ⟨rfl, List.singleton_sublist.mp hsub⟩
  · rintro (⟨rfl, hb⟩ | h)
    · exact Or.inr ⟨[b], rfl, List.singleton_sublist.mpr hb⟩
    · exact Or.inl h

theorem pair_sublist_or {α : Type} {a b : α} {l : List α} (ha : a ∈ l) (hb : b ∈ l) (hne : a ≠ b) :
    [a, b].Sublist l ∨ [b, a].Sublist l := by
  induction l with
  | nil => cases ha
  | cons c l ih =>
    rw [pair_sublist_cons, pair_sublist_cons]
    rcases List.mem_cons.mp ha with rfl | hold
    · exact Or.inl (Or.inl ⟨rfl, (List.mem_cons.mp hb).resolve_left hne.symm⟩)
    · rcases List.mem_cons.mp hb with rfl | hold'
      · exact Or.inr (Or.inl ⟨rfl, hold⟩)
      · exact (ih hold hold').imp Or.inr Or.inr

-- The pairs of a loop over the places of a list around a loop over the places after it.
def bucketPairs {I : Type} : List I → List (I × I)
  | [] => []
  | a :: l => l.map (fun b => (a, b)) ++ bucketPairs l

theorem mem_bucketPairs {I : Type} {a b : I} {l : List I} :
    (a, b) ∈ bucketPairs l ↔ [a, b].Sublist l := by
  induction l with
  | nil => simp [bucketPairs]
  | cons c l ih =>
    rw [bucketPairs, List.mem_append, ih, pair_sublist_cons, List.mem_map]
    refine or_congr_left ?_
    constructor
    · rintro ⟨d, hd, heq⟩
      cases heq
      exact ⟨rfl, hd⟩
    · rintro ⟨rfl, hb⟩
      exact ⟨b, hb, rfl⟩

-- The sorted order of the signatures.
structure SignatureOrder (D : Type) where
  iterate : Finset (Signature D) → List (Signature D)
  iterate_nodup : ∀ signatures, (iterate signatures).Nodup
  mem_iterate : ∀ signatures signature, signature ∈ iterate signatures ↔ signature ∈ signatures

variable {S P M D : Type} [DecidableEq M] [DecidableEq D] {similarity : Similarity S}

structure ScannedState (P M : Type) where
  index : Nat × Nat
  asset : DecodedDmi P (IconFile M)
  state : State M

def scannedStates (assets : List (DecodedDmi P (IconFile M))) : List (ScannedState P M) :=
  assets.zipIdx.flatMap fun asset =>
    asset.1.icon.states.zipIdx.map fun state => ⟨(asset.2, state.2), asset.1, state.1⟩

variable (library : IconLibrary M) (hash : List UInt8 → D) (order : SignatureOrder D)

def bucketEntries (assets : List (DecodedDmi P (IconFile M))) :
    List (Signature D × (Nat × Nat)) :=
  (scannedStates assets).flatMap fun scanned =>
    (order.iterate (stateCandidateSignatures library hash scanned.asset scanned.state)).map
      fun signature => (signature, scanned.index)

def buckets (assets : List (DecodedDmi P (IconFile M))) :
    FinMap (Signature D) (List (Nat × Nat)) :=
  (bucketEntries library hash order assets).foldl (FinMap.pushAt Prod.fst Prod.snd) FinMap.empty

-- The flag stands for the break out of the loops.
def insertPair (limit : Nat) (state : Finset ((Nat × Nat) × (Nat × Nat)) × Bool)
    (pair : (Nat × Nat) × (Nat × Nat)) : Finset ((Nat × Nat) × (Nat × Nat)) × Bool :=
  if state.2 then state
  else (insert pair state.1, decide (limit ≤ (insert pair state.1).card))

def candidatePairs (assets : List (DecodedDmi P (IconFile M))) (limit : Nat) :
    Finset ((Nat × Nat) × (Nat × Nat)) × Bool :=
  let found := buckets library hash order assets
  ((order.iterate found.keys).flatMap fun signature =>
    bucketPairs ((found.get signature).getD [])).foldl (insertPair limit) (∅, false)

theorem foldl_insertPair {limit : Nat} {pairs : List ((Nat × Nat) × (Nat × Nat))}
    {state : Finset ((Nat × Nat) × (Nat × Nat)) × Bool}
    (h : (pairs.foldl (insertPair limit) state).2 = false) :
    state.2 = false ∧ ∀ pair, pair ∈ (pairs.foldl (insertPair limit) state).1 ↔
      pair ∈ state.1 ∨ pair ∈ pairs := by
  induction pairs generalizing state with
  | nil => exact ⟨h, fun pair => by simp⟩
  | cons first pairs ih =>
    obtain ⟨hflag, hmem⟩ := ih h
    cases hstop : state.2 with
    | true =>
      rw [insertPair, if_pos hstop, hstop] at hflag
      cases hflag
    | false =>
      refine ⟨rfl, fun pair => ?_⟩
      rw [List.foldl_cons, hmem, insertPair, hstop, List.mem_cons]
      simp only [Bool.false_eq_true, if_false, Finset.mem_insert]
      tauto

omit [DecidableEq M] in
theorem mem_scannedStates {assets : List (DecodedDmi P (IconFile M))}
    {scanned : ScannedState P M} (h : scanned ∈ scannedStates assets) :
    assets[scanned.index.1]? = some scanned.asset ∧
      scanned.asset.icon.states[scanned.index.2]? = some scanned.state := by
  obtain ⟨asset, hasset, hscanned⟩ := List.mem_flatMap.mp h
  obtain ⟨state, hstate, rfl⟩ := List.mem_map.mp hscanned
  exact ⟨List.mem_zipIdx_iff_getElem?.mp hasset, List.mem_zipIdx_iff_getElem?.mp hstate⟩

omit [DecidableEq M] in
theorem scannedStates_inj {assets : List (DecodedDmi P (IconFile M))}
    {scanned scanned' : ScannedState P M} (h : scanned ∈ scannedStates assets)
    (h' : scanned' ∈ scannedStates assets) (hindex : scanned.index = scanned'.index) :
    scanned = scanned' := by
  obtain ⟨hasset, hstate⟩ := mem_scannedStates h
  obtain ⟨hasset', hstate'⟩ := mem_scannedStates h'
  obtain ⟨index, asset, state⟩ := scanned
  obtain ⟨index', asset', state'⟩ := scanned'
  obtain rfl : index = index' := hindex
  obtain rfl : asset = asset' := Option.some.inj (hasset.symm.trans hasset')
  obtain rfl : state = state' := Option.some.inj (hstate.symm.trans hstate')
  rfl

omit [DecidableEq M] in
theorem filter_bucketEntries (assets : List (DecodedDmi P (IconFile M))) (signature : Signature D) :
    ((bucketEntries library hash order assets).filter fun entry => entry.1 = signature).map
        Prod.snd =
      ((scannedStates assets).filter fun scanned =>
        signature ∈ stateCandidateSignatures library hash scanned.asset scanned.state).map
          ScannedState.index := by
  rw [bucketEntries]
  induction scannedStates assets with
  | nil => rfl
  | cons scanned l ih =>
    have hone : ((order.iterate (stateCandidateSignatures library hash scanned.asset
        scanned.state)).map fun other => (other, scanned.index)).filter
          (fun entry => entry.1 = signature) =
        if signature ∈ stateCandidateSignatures library hash scanned.asset scanned.state then
          [(signature, scanned.index)] else [] := by
      rw [List.filter_map]
      have hcomp : ((fun entry : Signature D × (Nat × Nat) => decide (entry.1 = signature)) ∘
          fun other => (other, scanned.index)) = fun other => decide (other = signature) := rfl
      rw [hcomp, List.filter_eq, (order.iterate_nodup _).count]
      by_cases hmem : signature ∈ stateCandidateSignatures library hash scanned.asset scanned.state
      · rw [if_pos ((order.mem_iterate _ _).mpr hmem), if_pos hmem]
        rfl
      · rw [if_neg (mt (order.mem_iterate _ _).mp hmem), if_neg hmem]
        rfl
    rw [List.flatMap_cons, List.filter_append, List.map_append, ih, hone, List.filter_cons]
    split
    · rename_i hmem
      rw [if_pos (decide_eq_true hmem)]
      rfl
    · rename_i hmem
      rw [if_neg (by simpa using hmem)]
      rfl

omit [DecidableEq M] in
theorem get_buckets (assets : List (DecodedDmi P (IconFile M))) (signature : Signature D) :
    ((buckets library hash order assets).get signature).getD [] =
      ((scannedStates assets).filter fun scanned =>
        signature ∈ stateCandidateSignatures library hash scanned.asset scanned.state).map
          ScannedState.index := by
  rw [buckets, FinMap.get_foldl_pushAt, ← filter_bucketEntries library hash order]
  split
  · rfl
  · rename_i hnone
    have hempty : (bucketEntries library hash order assets).filter
        (fun entry => entry.1 = signature) = [] := by
      rw [List.filter_eq_nil_iff]
      intro entry hentry hkey
      exact hnone (List.any_eq_true.mpr ⟨entry, hentry, hkey⟩)
    rw [hempty]
    rfl

omit [DecidableEq M] in
theorem mem_candidatePairs {assets : List (DecodedDmi P (IconFile M))} {limit : Nat}
    (hlimit : (candidatePairs library hash order assets limit).2 = false)
    {scanned scanned' : ScannedState P M} (hscanned : scanned ∈ scannedStates assets)
    (hscanned' : scanned' ∈ scannedStates assets) :
    (scanned.index, scanned'.index) ∈ (candidatePairs library hash order assets limit).1 ↔
      [scanned, scanned'].Sublist (scannedStates assets) ∧
        Shares library hash scanned.asset scanned'.asset scanned.state scanned'.state := by
  rw [candidatePairs, (foldl_insertPair hlimit).2, List.mem_flatMap]
  constructor
  · rintro (hnone | ⟨signature, -, hpair⟩)
    · exact absurd hnone (Finset.notMem_empty _)
    · rw [mem_bucketPairs, get_buckets, List.sublist_map_iff] at hpair
      obtain ⟨l, hsub, hmap⟩ := hpair
      obtain ⟨first, rest, rfl, hfirst, hrest⟩ := List.map_eq_cons_iff.mp hmap.symm
      obtain ⟨second, last, rfl, hsecond, hlast⟩ := List.map_eq_cons_iff.mp hrest
      obtain rfl := List.map_eq_nil_iff.mp hlast
      have hin : ∀ other ∈ [first, second], other ∈ scannedStates assets ∧
          signature ∈ stateCandidateSignatures library hash other.asset other.state := by
        intro other hother
        simpa using List.mem_filter.mp (hsub.subset hother)
      obtain ⟨hmem, hshared⟩ := hin first (List.mem_cons_self ..)
      obtain ⟨hmem', hshared'⟩ := hin second (List.mem_cons_of_mem _ (List.mem_singleton_self _))
      obtain rfl := scannedStates_inj hmem hscanned hfirst
      obtain rfl := scannedStates_inj hmem' hscanned' hsecond
      exact ⟨hsub.trans List.filter_sublist, signature, hshared, hshared'⟩
  · rintro ⟨hsub, signature, hshared, hshared'⟩
    have hpair : [scanned, scanned'].filter (fun scanned =>
        signature ∈ stateCandidateSignatures library hash scanned.asset scanned.state) =
          [scanned, scanned'] := by
      refine List.filter_eq_self.mpr ?_
      simp only [List.forall_mem_cons, decide_eq_true_eq]
      exact ⟨hshared, hshared', by simp⟩
    have hbucket : [scanned.index, scanned'.index].Sublist
        (((buckets library hash order assets).get signature).getD []) := by
      rw [get_buckets]
      have hfilter := hsub.filter fun scanned =>
        decide (signature ∈ stateCandidateSignatures library hash scanned.asset scanned.state)
      rw [hpair] at hfilter
      exact hfilter.map ScannedState.index
    refine Or.inr ⟨signature, ?_, mem_bucketPairs.mpr hbucket⟩
    rw [order.mem_iterate, FinMap.mem_keys]
    intro hnone
    rw [hnone] at hbucket
    cases hbucket

-- The duplicate scan compares two states in the order in which it meets them.
def Compared (assets : List (DecodedDmi P (IconFile M))) (limit : Nat)
    (scanned scanned' : ScannedState P M) : Prop :=
  (scanned.index, scanned'.index) ∈ (candidatePairs library hash order assets limit).1 ∨
    (scanned'.index, scanned.index) ∈ (candidatePairs library hash order assets limit).1

omit [DecidableEq M] in
theorem compared_iff_shares {assets : List (DecodedDmi P (IconFile M))} {limit : Nat}
    (hlimit : (candidatePairs library hash order assets limit).2 = false)
    {scanned scanned' : ScannedState P M} (hscanned : scanned ∈ scannedStates assets)
    (hscanned' : scanned' ∈ scannedStates assets) (hne : scanned.index ≠ scanned'.index) :
    Compared library hash order assets limit scanned scanned' ↔
      Shares library hash scanned.asset scanned'.asset scanned.state scanned'.state := by
  rw [Compared, mem_candidatePairs library hash order hlimit hscanned hscanned',
    mem_candidatePairs library hash order hlimit hscanned' hscanned]
  constructor
  · rintro (⟨-, hshares⟩ | ⟨-, signature, hright, hleft⟩)
    · exact hshares
    · exact ⟨signature, hleft, hright⟩
  · rintro ⟨signature, hleft, hright⟩
    have hstates : scanned ≠ scanned' := fun heq => hne (congrArg ScannedState.index heq)
    refine (pair_sublist_or hscanned hscanned' hstates).imp ?_ ?_
    · exact fun hsub => ⟨hsub, signature, hleft, hright⟩
    · exact fun hsub => ⟨hsub, signature, hright, hleft⟩

def spriteLibrary : IconLibrary Nat where
  flipEw
    | .east => .west
    | .west => .east
    | .northeast => .northwest
    | .northwest => .northeast
    | .southeast => .southwest
    | .southwest => .southeast
    | dir => dir
  flipNs
    | .north => .south
    | .south => .north
    | .northeast => .southeast
    | .southeast => .northeast
    | .northwest => .southwest
    | .southwest => .northwest
    | dir => dir
  flip
    | .north => .south
    | .south => .north
    | .east => .west
    | .west => .east
    | .northeast => .southwest
    | .southwest => .northeast
    | .northwest => .southeast
    | .southeast => .northwest
  count frames := frames
  indexOfFrame _ _ frame := frame

def exactSimilarity : Similarity ℚ where
  zero := 0
  one := 1
  ofDelta delta width height := 1 - delta / (width * height * 4 * 255)
  clamp minimum := min (max minimum (9 / 10)) 1
  mean l := l.sum / max l.length 1
  gt a b := b < a
  ge a b := b ≤ a

def byteNumber (bytes : List UInt8) : Nat := bytes.foldl (fun n byte => n * 257 + byte.toNat + 1) 0

def Signature.key : Signature Nat → Nat
  | .exact digest => 4 * digest
  | .cropped digest => 4 * digest + 1
  | .palette digest => 4 * digest + 2
  | .perceptual band bits => 4 * (band * 2 ^ 16 + bits.toNat) + 3

theorem Signature.key_inj : Function.Injective Signature.key := by
  intro a b h
  cases a <;> cases b <;> simp only [key] at h <;> try omega
  · rw [Nat.eq_of_mul_eq_mul_left (by decide) h]
  · rw [Nat.eq_of_mul_eq_mul_left (by decide) (Nat.succ.inj h)]
  · rw [Nat.eq_of_mul_eq_mul_left (by decide) (Nat.succ.inj (Nat.succ.inj h))]
  · rename_i band bits band' bits'
    have := bits.isLt
    have := bits'.isLt
    have hband : band = band' := by omega
    have hbits : bits = bits' := BitVec.eq_of_toNat_eq (by omega)
    rw [hband, hbits]

def keyOrder : SignatureOrder Nat :=
  letI := LinearOrder.lift' Signature.key Signature.key_inj
  { iterate := FinMap.sortKeys
    iterate_nodup := fun _ => FinMap.sortKeys_nodup _
    mem_iterate := fun _ _ => FinMap.mem_sortKeys }

def black : Pixel := ⟨0, 0, 0, 255⟩

def white : Pixel := ⟨255, 255, 255, 255⟩

def lamp : State Nat := ⟨"lamp".toList, 0, .one, 2, false, 0, false⟩

-- A sheet of two cells of one pixel, the frames of one state.
def lampAsset (path : Nat) (first second : Pixel) : DecodedDmi Nat (IconFile Nat) where
  identity := ⟨path, [], 0⟩
  icon :=
    { cellWidth := 1
      cellHeight := 1
      states := [lamp]
      imageWidth := 2
      data := [first, second]
      width_lt := by decide
      height_lt := by decide
      states_distinct := by decide }
  assetGeneration := 1
  metadataBytes := 0

def lampMatch (left right : DecodedDmi Nat (IconFile Nat)) : Option MatchKind :=
  match compareStates exactSimilarity spriteLibrary left lamp.name 0 right lamp.name 0 (9 / 10) with
  | .ok comparison => some comparison.imageMatch
  | .error _ => none

theorem exists_of_lampMatch {left right : DecodedDmi Nat (IconFile Nat)} {kind : MatchKind}
    (h : lampMatch left right = some kind) : ∃ comparison : StateComparison Nat ℚ,
      compareStates exactSimilarity spriteLibrary left lamp.name 0 right lamp.name 0 (9 / 10) =
        .ok comparison ∧ comparison.imageMatch = kind := by
  unfold lampMatch at h
  split at h
  · rename_i comparison hcompare
    exact ⟨comparison, hcompare, Option.some.inj h⟩
  · cases h

def lampScan (index : Nat) (asset : DecodedDmi Nat (IconFile Nat)) : ScannedState Nat Nat :=
  ⟨(index, 0), asset, lamp⟩

end Dmi
