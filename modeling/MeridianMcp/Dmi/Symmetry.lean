import MeridianMcp.Dmi.CropSymmetry
import MeridianMcp.Dmi.Components
import Mathlib.Order.WithBot

namespace Dmi

open MeridianMcp Fallible

theorem exists_worst_kind {kinds : List MatchKind} (h : kinds ≠ []) :
    ∃ kind ∈ kinds, worst kinds = some kind ∧ ∀ other ∈ kinds, matchRank other ≤ matchRank kind := by
  obtain ⟨kind, hkind⟩ := Option.ne_none_iff_exists'.mp (worst_ne_none (Or.inr h))
  refine ⟨kind, (worst_mem_foldl hkind).resolve_left (Option.some_ne_none _).symm, hkind, ?_⟩
  exact (worst_foldl hkind).2

theorem matchRank_inj : Function.Injective matchRank := by
  intro kind kind' h
  cases kind <;> cases kind' <;> first | rfl | exact absurd h (by decide)

theorem worst_perm {kinds kinds' : List MatchKind} (h : kinds.Perm kinds') :
    worst kinds = worst kinds' := by
  by_cases hkinds : kinds = []
  · subst hkinds
    rw [h.symm.eq_nil]
  · have hkinds' : kinds' ≠ [] := fun heq => hkinds (heq ▸ h).eq_nil
    obtain ⟨kind, hmem, hworst, hle⟩ := exists_worst_kind hkinds
    obtain ⟨kind', hmem', hworst', hle'⟩ := exists_worst_kind hkinds'
    have hrank := (hle' kind (h.mem_iff.mp hmem)).antisymm (hle kind' (h.mem_iff.mpr hmem'))
    rw [hworst, hworst', matchRank_inj hrank]

theorem nearResult_eq {S : Type} (similarity : Similarity S) {threshold : S}
    {comparison comparison' : FrameComparison S} (h : comparison.result = comparison'.result) :
    (withNear similarity threshold comparison).result =
      (withNear similarity threshold comparison').result := by
  obtain ⟨hkind, hsimilarity⟩ := Prod.mk.inj h
  simp only [withNear, hkind, hsimilarity]
  split
  · exact Prod.ext rfl rfl
  · exact h

section Directions

variable {M : Type} {library : IconLibrary M} (hlibrary : Compass library)

include hlibrary

theorem transformDirection_inverse (dir : Dir) (transform : GeometricTransform) :
    transformDirection library (transformDirection library dir transform) transform.inverse =
      dir := by
  apply heading_inj
  rw [heading_transformDirection hlibrary, heading_transformDirection hlibrary]
  cases transform <;> cases dir <;> rfl

theorem transformDirection_inj {dir dir' : Dir} {transform : GeometricTransform}
    (h : transformDirection library dir transform = transformDirection library dir' transform) :
    dir = dir' := by
  rw [← transformDirection_inverse hlibrary dir transform, h, transformDirection_inverse hlibrary]

theorem sourceDir_eq_some {dirs : Dirs} {transform : GeometricTransform} {canonical source : Dir} :
    sourceDir library dirs transform canonical = some source ↔
      source ∈ orderedDirs dirs ∧ transformDirection library source transform = canonical := by
  constructor
  · intro h
    exact ⟨List.mem_of_find?_eq_some h, by simpa using List.find?_some h⟩
  · rintro ⟨hsource, rfl⟩
    obtain ⟨found, hfound⟩ := Option.isSome_iff_exists.mp
      (List.find?_isSome.mpr ⟨source, hsource, decide_eq_true rfl⟩ :
        (sourceDir library dirs transform (transformDirection library source transform)).isSome)
    have hdir : transformDirection library found transform =
        transformDirection library source transform := by simpa using List.find?_some hfound
    rwa [transformDirection_inj hlibrary hdir] at hfound

theorem sourceDir_inverse {dirs : Dirs} {transform : GeometricTransform} {canonical source : Dir}
    (hcanonical : canonical ∈ orderedDirs dirs)
    (h : sourceDir library dirs transform canonical = some source) :
    source ∈ orderedDirs dirs ∧
      sourceDir library dirs transform.inverse source = some canonical := by
  obtain ⟨hsource, rfl⟩ := (sourceDir_eq_some hlibrary).mp h
  refine ⟨hsource, (sourceDir_eq_some hlibrary).mpr ⟨hcanonical, ?_⟩⟩
  exact transformDirection_inverse hlibrary source transform

end Directions

theorem nodup_orderedDirs (dirs : Dirs) : (orderedDirs dirs).Nodup := by
  cases dirs <;> decide

theorem nodup_views (dirs : Dirs) (count : Nat) : (views dirs count).Nodup := by
  refine List.nodup_flatMap.mpr ⟨fun frame _ => ?_, ?_⟩
  · exact (nodup_orderedDirs dirs).map fun dir dir' h => (Prod.mk.inj h).2
  · refine List.nodup_range.imp fun hne => ?_
    intro view hview hview'
    obtain ⟨dir, -, rfl⟩ := List.mem_map.mp hview
    obtain ⟨dir', -, hpair⟩ := List.mem_map.mp hview'
    exact hne (Prod.mk.inj hpair).1.symm

section Search

variable {M : Type} {library : IconLibrary M}

theorem normal_normalizedIconFrame (icon : IconFile M) (state : State M) (dir : Dir)
    (frame : Nat) : Normal (normalizedIconFrame library icon state dir frame) := by
  refine normal_normalizeFrame ?_
  rw [framePixels, List.length_map, length_cells]

variable (library) (left right : IconFile M) (ls rs : State M) (threshold : ℚ)

-- The comparisons of one round of the search.
def tried (transform : GeometricTransform) : Option (List (FrameComparison ℚ)) :=
  (views ls.dirs (library.count ls.frames)).mapM
    (compareView exactSimilarity library left right ls rs threshold transform)

variable {library left right ls rs threshold}

theorem compareView_symm (hlibrary : Compass library) (hdirs : ls.dirs = rs.dirs)
    {transform : GeometricTransform} {frame : Nat} {dir source : Dir}
    (hdir : dir ∈ orderedDirs ls.dirs) (hsource : sourceDir library rs.dirs transform dir = some source) :
    (compareView exactSimilarity library left right ls rs threshold transform (frame, dir)).map
        FrameComparison.result =
      (compareView exactSimilarity library right left rs ls threshold transform.inverse
        (frame, source)).map FrameComparison.result := by
  rw [hdirs] at hdir
  obtain ⟨-, hback⟩ := sourceDir_inverse hlibrary hdir hsource
  rw [← hdirs] at hback
  simp only [compareView, transformedView, hsource, hback, Option.map_some]
  refine congrArg some (nearResult_eq _ ?_)
  exact compareAligned_symm (normal_normalizedIconFrame left ls dir frame)
    (normal_normalizedIconFrame right rs source frame) transform

theorem isSome_compareView {transform : GeometricTransform} {view : Nat × Dir} :
    (compareView exactSimilarity library left right ls rs threshold transform view).isSome ↔
      ∃ source, sourceDir library rs.dirs transform view.2 = some source := by
  simp only [compareView, transformedView, Option.isSome_map, Option.isSome_iff_exists]

-- Moving every view to its source leaves the same views, in another order.
theorem views_moved (hlibrary : Compass library) {dirs : Dirs} {count : Nat}
    {transform : GeometricTransform} {back : Nat × Dir → Nat × Dir}
    (hback : ∀ view ∈ views dirs count, (back view).1 = view.1 ∧
      sourceDir library dirs transform view.2 = some (back view).2) :
    ((views dirs count).map back).Perm (views dirs count) := by
  have hnodup : ((views dirs count).map back).Nodup := by
    refine List.Nodup.map_on ?_ (nodup_views _ _)
    intro view hview view' hview' heq
    obtain ⟨hframe, hsource⟩ := hback view hview
    obtain ⟨hframe', hsource'⟩ := hback view' hview'
    have hdir := ((sourceDir_eq_some hlibrary).mp hsource).2
    have hdir' := ((sourceDir_eq_some hlibrary).mp hsource').2
    rw [heq] at hframe hdir
    exact Prod.ext (hframe.symm.trans hframe') (hdir.symm.trans hdir')
  refine (hnodup.subperm ?_).perm_of_length_le (by rw [List.length_map])
  intro view hview
  obtain ⟨origin, horigin, rfl⟩ := List.mem_map.mp hview
  obtain ⟨hframe, hsource⟩ := hback origin horigin
  refine mem_views.mpr ⟨?_, ((sourceDir_eq_some hlibrary).mp hsource).1⟩
  rw [hframe]
  exact (mem_views.mp horigin).1

theorem tried_symm (hlibrary : Compass library) (hdirs : ls.dirs = rs.dirs)
    (hcount : library.count ls.frames = library.count rs.frames)
    {transform : GeometricTransform} {comparisons : List (FrameComparison ℚ)}
    (h : tried library left right ls rs threshold transform = some comparisons) :
    ∃ comparisons', tried library right left rs ls threshold transform.inverse =
        some comparisons' ∧
      (comparisons.map FrameComparison.result).Perm
        (comparisons'.map FrameComparison.result) := by
  let back : Nat × Dir → Nat × Dir := fun view =>
    (view.1, (sourceDir library rs.dirs transform view.2).getD view.2)
  have hback : ∀ view ∈ views ls.dirs (library.count ls.frames),
      sourceDir library rs.dirs transform view.2 = some (back view).2 := by
    intro view hview
    obtain ⟨source, hsource⟩ := isSome_compareView.mp (isSome_of_mapM h hview)
    simp only [back, hsource, Option.getD_some]
  have hperm : ((views ls.dirs (library.count ls.frames)).map back).Perm
      (views rs.dirs (library.count rs.frames)) := by
    rw [hdirs, hcount] at hback ⊢
    exact views_moved hlibrary fun view hview => ⟨rfl, hback view hview⟩
  refine mapM_moved h hperm fun view hview => ?_
  exact compareView_symm hlibrary hdirs (mem_views.mp hview).2 (hback view hview)

theorem tried_none (hlibrary : Compass library) (hdirs : ls.dirs = rs.dirs)
    (hcount : library.count ls.frames = library.count rs.frames)
    {transform : GeometricTransform}
    (h : tried library left right ls rs threshold transform = none) :
    tried library right left rs ls threshold transform.inverse = none := by
  by_contra hsome
  obtain ⟨comparisons, hcomparisons⟩ := Option.ne_none_iff_exists'.mp hsome
  obtain ⟨back, hback, -⟩ := tried_symm hlibrary hdirs.symm hcount.symm hcomparisons
  rw [GeometricTransform.inverse_inverse, h] at hback
  cases hback

def meanOf (comparisons : List (FrameComparison ℚ)) : ℚ :=
  exactSimilarity.mean (comparisons.map FrameComparison.similarity)

theorem rankOf_perm {comparisons comparisons' : List (FrameComparison ℚ)}
    (h : (comparisons.map FrameComparison.result).Perm
      (comparisons'.map FrameComparison.result)) : rankOf comparisons = rankOf comparisons' := by
  have hkinds := h.map Prod.fst
  rw [List.map_map, List.map_map] at hkinds
  exact congrArg (fun kind => matchRank (Option.getD kind .different)) (worst_perm hkinds)

theorem meanOf_perm {comparisons comparisons' : List (FrameComparison ℚ)}
    (h : (comparisons.map FrameComparison.result).Perm
      (comparisons'.map FrameComparison.result)) : meanOf comparisons = meanOf comparisons' := by
  have hmeans := h.map Prod.snd
  rw [List.map_map, List.map_map] at hmeans
  have hmeans : (comparisons.map FrameComparison.similarity).Perm
      (comparisons'.map FrameComparison.similarity) := hmeans
  simp only [meanOf, exactSimilarity, hmeans.sum_eq, hmeans.length_eq]

-- A lower rank is better, and with one rank a higher mean.
abbrev RankKey := ℕ ×ₗ ℚᵒᵈ

def rankKey (rank : Nat) (mean : ℚ) : RankKey := toLex (rank, OrderDual.toDual mean)

def Ranked.key (ranked : Ranked ℚ) : RankKey := rankKey ranked.rank ranked.similarity

def roundOf (comparisons : List (FrameComparison ℚ)) : Ranked ℚ :=
  ⟨rankOf comparisons, meanOf comparisons, comparisons⟩

def bestKey (best : Option (Ranked ℚ)) : WithTop RankKey :=
  match best with
  | none => ⊤
  | some ranked => (ranked.key : RankKey)

theorem better_iff {best : Option (Ranked ℚ)} {rank : Nat} {mean : ℚ} :
    better exactSimilarity best rank mean = true ↔ (rankKey rank mean : RankKey) < bestKey best := by
  cases best with
  | none => exact iff_of_true rfl (WithTop.coe_lt_top _)
  | some old =>
    rw [bestKey, WithTop.coe_lt_coe, Ranked.key, rankKey, rankKey, Prod.Lex.toLex_lt_toLex]
    simp [better, exactSimilarity]

theorem bestKey_tryTransform (best : Option (Ranked ℚ)) (transform : GeometricTransform) :
    bestKey (tryTransform exactSimilarity library left right ls rs threshold best transform) =
      min (bestKey best)
        (bestKey ((tried library left right ls rs threshold transform).map roundOf)) := by
  rw [tryTransform, ← tried]
  cases tried library left right ls rs threshold transform with
  | none => exact (min_eq_left le_top).symm
  | some comparisons =>
    dsimp only
    split
    · rename_i hbetter
      exact (min_eq_right (better_iff.mp hbetter).le).symm
    · rename_i hworse
      exact (min_eq_left (not_lt.mp (mt better_iff.mpr hworse))).symm

theorem bestKey_foldl (l : List GeometricTransform) (start : Option (Ranked ℚ)) :
    bestKey (l.foldl (tryTransform exactSimilarity library left right ls rs threshold) start) =
      (l.map fun transform =>
        bestKey ((tried library left right ls rs threshold transform).map roundOf)).foldl min
          (bestKey start) := by
  induction l generalizing start with
  | nil => rfl
  | cons transform l ih =>
    rw [List.foldl_cons, ih, bestKey_tryTransform, List.map_cons, List.foldl_cons]

theorem round_symm (hlibrary : Compass library) (hdirs : ls.dirs = rs.dirs)
    (hcount : library.count ls.frames = library.count rs.frames)
    (transform : GeometricTransform) :
    bestKey ((tried library left right ls rs threshold transform).map roundOf) =
      bestKey ((tried library right left rs ls threshold transform.inverse).map roundOf) := by
  cases h : tried library left right ls rs threshold transform with
  | none => rw [tried_none hlibrary hdirs hcount h]
  | some comparisons =>
    obtain ⟨comparisons', hback, hperm⟩ := tried_symm hlibrary hdirs hcount h
    rw [hback]
    simp only [Option.map_some, bestKey, Ranked.key, roundOf, rankOf_perm hperm, meanOf_perm hperm]

variable (library left right ls rs threshold) in
-- What the search over all transforms finds.
def searchTransforms : Option (Ranked ℚ) :=
  transforms.foldl (tryTransform exactSimilarity library left right ls rs threshold) none

theorem searchTransforms_symm (hlibrary : Compass library) (hdirs : ls.dirs = rs.dirs)
    (hcount : library.count ls.frames = library.count rs.frames) :
    bestKey (searchTransforms library left right ls rs threshold) =
      bestKey (searchTransforms library right left rs ls threshold) := by
  have hinverses : (transforms.map GeometricTransform.inverse).Perm transforms := by decide
  rw [searchTransforms, searchTransforms, bestKey_foldl, bestKey_foldl,
    List.map_congr_left fun transform _ => round_symm hlibrary hdirs hcount transform]
  have hrounds := hinverses.map fun transform =>
    bestKey ((tried library right left rs ls threshold transform).map roundOf)
  rw [List.map_map] at hrounds
  exact hrounds.foldl_op_eq

theorem rank_searchTransforms {l : List GeometricTransform} {start : Option (Ranked ℚ)}
    (hstart : ∀ ranked ∈ start, ranked.rank = rankOf ranked.comparisons) :
    ∀ ranked ∈ l.foldl (tryTransform exactSimilarity library left right ls rs threshold) start,
      ranked.rank = rankOf ranked.comparisons := by
  induction l generalizing start with
  | nil => exact hstart
  | cons transform l ih =>
    refine ih fun ranked hranked => ?_
    rw [tryTransform] at hranked
    split at hranked
    · exact hstart ranked hranked
    · dsimp only at hranked
      split at hranked
      · obtain rfl := Option.some.inj hranked
        rfl
      · exact hstart ranked hranked

theorem matchRank_searchTransforms :
    matchRank ((worst ((((searchTransforms library left right ls rs threshold).map
      Ranked.comparisons).getD []).map FrameComparison.kind)).getD .different) =
      ((searchTransforms library left right ls rs threshold).map Ranked.rank).getD 5 := by
  have hrank := @rank_searchTransforms M library left right ls rs threshold transforms none
    fun ranked hranked => nomatch hranked
  cases h : searchTransforms library left right ls rs threshold with
  | none => rfl
  | some ranked => exact (hrank ranked h).symm

theorem rank_of_bestKey {best best' : Option (Ranked ℚ)} (h : bestKey best = bestKey best') :
    best.map Ranked.key = best'.map Ranked.key := by
  cases best with
  | none =>
    cases best' with
    | none => rfl
    | some ranked => exact absurd h (WithTop.top_ne_coe)
  | some ranked =>
    cases best' with
    | none => exact absurd h (WithTop.coe_ne_top)
    | some ranked' => exact congrArg some (WithTop.coe_inj.mp h)

end Search

theorem compareStates_of_found {P M S : Type} [DecidableEq M] (similarity : Similarity S)
    (library : IconLibrary M) {left right : DecodedDmi P (IconFile M)} {leftName rightName : Text}
    {leftDuplicate rightDuplicate : Nat} {ls rs : State M} {minimum : S}
    (hls : findState left.icon leftName leftDuplicate = .ok ls)
    (hrs : findState right.icon rightName rightDuplicate = .ok rs) :
    compareStates similarity library left leftName leftDuplicate right rightName rightDuplicate
        minimum =
      if ls.dirs.count ≠ rs.dirs.count ∨ library.count ls.frames ≠ library.count rs.frames then
        .ok ⟨locator left ls, locator right rs, .different, metadataDifferences ls rs, []⟩
      else
        .ok ⟨locator left ls, locator right rs,
          (worst ((((transforms.foldl (tryTransform similarity library left.icon right.icon ls rs
            (similarity.clamp minimum)) none).map Ranked.comparisons).getD []).map
              FrameComparison.kind)).getD .different,
          metadataDifferences ls rs,
          ((transforms.foldl (tryTransform similarity library left.icon right.icon ls rs
            (similarity.clamp minimum)) none).map Ranked.comparisons).getD []⟩ := by
  rw [compareStates, hls, hrs]
  rfl

theorem compareStates_symm {P M : Type} [DecidableEq M] {library : IconLibrary M}
    (hlibrary : Compass library) {left right : DecodedDmi P (IconFile M)}
    {leftName rightName : Text} {leftDuplicate rightDuplicate : Nat} {ls rs : State M}
    (hls : findState left.icon leftName leftDuplicate = .ok ls)
    (hrs : findState right.icon rightName rightDuplicate = .ok rs) (minimum : ℚ) :
    ∃ ab ba,
      compareStates exactSimilarity library left leftName leftDuplicate right rightName
          rightDuplicate minimum = .ok ab ∧
        compareStates exactSimilarity library right rightName rightDuplicate left leftName
          leftDuplicate minimum = .ok ba ∧
        ab.imageMatch = ba.imageMatch ∧
        (ls.dirs.count = rs.dirs.count → library.count ls.frames = library.count rs.frames →
          (searchTransforms library left.icon right.icon ls rs
              (exactSimilarity.clamp minimum)).map Ranked.key =
            (searchTransforms library right.icon left.icon rs ls
              (exactSimilarity.clamp minimum)).map Ranked.key) := by
  have hkeys : ls.dirs.count = rs.dirs.count → library.count ls.frames = library.count rs.frames →
      (searchTransforms library left.icon right.icon ls rs
          (exactSimilarity.clamp minimum)).map Ranked.key =
        (searchTransforms library right.icon left.icon rs ls
          (exactSimilarity.clamp minimum)).map Ranked.key := fun hdirs hcount =>
    rank_of_bestKey (searchTransforms_symm hlibrary (Dirs.count_inj hdirs) hcount)
  by_cases hsame : ls.dirs.count = rs.dirs.count ∧ library.count ls.frames = library.count rs.frames
  · obtain ⟨hdirs, hcount⟩ := hsame
    have hab : ¬(ls.dirs.count ≠ rs.dirs.count ∨
        library.count ls.frames ≠ library.count rs.frames) :=
      not_or.mpr ⟨not_not.mpr hdirs, not_not.mpr hcount⟩
    have hba : ¬(rs.dirs.count ≠ ls.dirs.count ∨
        library.count rs.frames ≠ library.count ls.frames) :=
      not_or.mpr ⟨not_not.mpr hdirs.symm, not_not.mpr hcount.symm⟩
    refine ⟨_, _, (compareStates_of_found exactSimilarity library hls hrs).trans (if_neg hab),
      (compareStates_of_found exactSimilarity library hrs hls).trans (if_neg hba), ?_, hkeys⟩
    apply matchRank_inj
    have hranks := congrArg (Option.map fun key => (ofLex key).1) (hkeys hdirs hcount)
    rw [Option.map_map, Option.map_map] at hranks
    exact matchRank_searchTransforms.trans ((congrArg (Option.getD · 5) hranks).trans
      matchRank_searchTransforms.symm)
  · have hab := not_and_or.mp hsame
    have hba : rs.dirs.count ≠ ls.dirs.count ∨
        library.count rs.frames ≠ library.count ls.frames := hab.imp Ne.symm Ne.symm
    exact ⟨_, _, (compareStates_of_found exactSimilarity library hls hrs).trans (if_pos hab),
      (compareStates_of_found exactSimilarity library hrs hls).trans (if_pos hba), rfl, hkeys⟩

theorem compareStates_symm_lamps :
    ∃ ab ba : StateComparison Nat ℚ,
      compareStates exactSimilarity spriteLibrary (lampAsset 1 black black) lamp.name 0
          (lampAsset 2 white black) lamp.name 0 (9 / 10) = .ok ab ∧
        compareStates exactSimilarity spriteLibrary (lampAsset 2 white black) lamp.name 0
          (lampAsset 1 black black) lamp.name 0 (9 / 10) = .ok ba ∧
        ab.imageMatch = ba.imageMatch := by
  obtain ⟨ab, ba, hab, hba, hclass, -⟩ := @compareStates_symm Nat Nat _ _ compass_spriteLibrary
    (lampAsset 1 black black) (lampAsset 2 white black) lamp.name lamp.name 0 0 lamp lamp rfl rfl
    (9 / 10)
  exact ⟨ab, ba, hab, hba, hclass⟩

end Dmi
