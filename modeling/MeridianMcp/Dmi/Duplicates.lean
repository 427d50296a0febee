import MeridianMcp.Dmi.Geometry

namespace Dmi

open MeridianMcp Numbering PrefixCode Fallible

variable {S P M D : Type} [DecidableEq M] {similarity : Similarity S} {library : IconLibrary M}

theorem changed_foldl {C : Type} {left right : C → Pixel} {l : List C} {tally : Tally} :
    (l.foldl (fun tally cell => tally.compare (left cell) (right cell)) tally).changed = 0 ↔
      tally.changed = 0 ∧ ∀ cell ∈ l, left cell = right cell := by
  induction l generalizing tally with
  | nil => simp
  | cons cell l ih =>
    rw [List.foldl_cons, ih, List.forall_mem_cons, ← and_assoc]
    refine and_congr_left fun _ => ?_
    by_cases heq : left cell = right cell
    · simp [Tally.compare, heq]
    · simp [Tally.compare, heq]

theorem cropped_of_compareAligned {left right : NormalizedFrame} {transform : GeometricTransform}
    (h : matchRank (compareAligned similarity left right transform).kind < 3) :
    cropped right = cropped left := by
  rw [cropped_eq, cropped_eq]
  unfold compareAligned at h
  cases hleft : left.alphaBounds with
  | none =>
    cases hright : right.alphaBounds with
    | none => rfl
    | some rb =>
      rw [hleft, hright] at h
      exact absurd h (by change ¬ 5 < 3; decide)
  | some lb =>
    cases hright : right.alphaBounds with
    | none =>
      rw [hleft, hright] at h
      exact absurd h (by change ¬ 5 < 3; decide)
    | some rb =>
      rw [hleft, hright] at h
      dsimp only at h
      split at h
      · exact absurd h (by change ¬ 5 < 3; decide)
      · rename_i hsize
        obtain ⟨hwidth, hheight⟩ : lb.width = rb.width ∧ lb.height = rb.height := by
          simpa only [not_or, not_not] using hsize
        dsimp only at h
        split at h
        · rename_i hchanged
          have hcells := (changed_foldl.mp hchanged).2
          rw [Option.map_some, Option.map_some, ← hwidth, ← hheight]
          congr 2
          exact List.map_congr_left fun cell hcell => (hcells cell hcell).symm
        · split at h
          · exact absurd h (by change ¬ 3 < 3; decide)
          · exact absurd h (by change ¬ 5 < 3; decide)

theorem worst_foldl {kinds : List MatchKind} {start : Option MatchKind} {kind : MatchKind}
    (h : kinds.foldl
      (fun best kind =>
        match best with
        | none => some kind
        | some old => if matchRank old ≤ matchRank kind then some kind else some old)
      start = some kind) :
    (∀ other ∈ start, matchRank other ≤ matchRank kind) ∧
      ∀ other ∈ kinds, matchRank other ≤ matchRank kind := by
  induction kinds generalizing start with
  | nil => exact ⟨fun other hother => by rw [Option.some.inj (hother.symm.trans h)], by simp⟩
  | cons first kinds ih =>
    obtain ⟨hstart, hrest⟩ := ih h
    rw [List.forall_mem_cons]
    cases start with
    | none => exact ⟨by simp, hstart first rfl, hrest⟩
    | some old =>
      dsimp only at hstart
      split at hstart
      · rename_i hle
        have hfirst := hstart first rfl
        exact ⟨fun other hother => Option.some.inj hother ▸ hle.trans hfirst, hfirst, hrest⟩
      · rename_i hlt
        have hold := hstart old rfl
        exact ⟨fun other hother => Option.some.inj hother ▸ hold,
          (Nat.le_of_lt (Nat.lt_of_not_le hlt)).trans hold, hrest⟩

theorem rank_le_of_worst {kinds : List MatchKind} {kind : MatchKind}
    (h : (worst kinds).getD .different = kind) (hkind : kind ≠ .different) :
    kinds ≠ [] ∧ ∀ other ∈ kinds, matchRank other ≤ matchRank kind := by
  cases hworst : worst kinds with
  | none =>
    rw [hworst] at h
    exact absurd h.symm hkind
  | some found =>
    rw [hworst, Option.getD_some] at h
    subst h
    refine ⟨?_, (worst_foldl hworst).2⟩
    rintro rfl
    cases hworst

omit [DecidableEq M] in
theorem foldl_tryTransform {left right : IconFile M} {ls rs : State M} {threshold : S}
    {l : List GeometricTransform} {start best : Option (Ranked S)}
    (h : l.foldl (tryTransform similarity library left right ls rs threshold) start = best)
    {ranked : Ranked S} (hranked : best = some ranked) :
    start = some ranked ∨ ∃ transform ∈ l,
      (views ls.dirs (library.count ls.frames)).mapM
        (compareView similarity library left right ls rs threshold transform) =
          some ranked.comparisons := by
  induction l generalizing start with
  | nil => exact Or.inl (h.trans hranked)
  | cons transform l ih =>
    rcases ih h with hstep | ⟨other, hother, hfound⟩
    · rw [tryTransform] at hstep
      split at hstep
      · exact Or.inl hstep
      · rename_i comparisons hcomparisons
        dsimp only at hstep
        split at hstep
        · obtain rfl := Option.some.inj hstep
          exact Or.inr ⟨transform, List.mem_cons_self .., hcomparisons⟩
        · exact Or.inl hstep
    · exact Or.inr ⟨other, List.mem_cons_of_mem _ hother, hfound⟩

omit [DecidableEq M] in
theorem framed_normalizedIconFrame (icon : IconFile M) (state : State M) (dir : Dir) (frame : Nat) :
    Framed (normalizedIconFrame library icon state dir frame) := by
  refine framed_normalizeFrame icon.width_lt icon.height_lt ?_
  rw [framePixels, List.length_map, length_cells]

omit [DecidableEq M] in
theorem transformFrame_normalizedIconFrame (icon : IconFile M) (state : State M) (dir : Dir)
    (frame : Nat) :
    transformFrame (normalizedIconFrame library icon state dir frame) .identity =
      normalizedIconFrame library icon state dir frame := by
  refine transformFrame_identity ?_
  rw [framePixels, List.length_map, length_cells]

omit [DecidableEq M] in
theorem framed_of_transformedFrames {icon : IconFile M} {state : State M}
    {transform : GeometricTransform} {frames : List NormalizedFrame}
    (h : transformedFrames library icon state transform = some frames) :
    ∀ frame ∈ frames, Framed frame := by
  intro frame hframe
  obtain ⟨view, -, hview⟩ := exists_of_mem_right (forall₂_of_mapM_some h) hframe
  obtain ⟨source, -, rfl⟩ := Option.map_eq_some_iff.mp hview
  exact framed_transformFrame (framed_normalizedIconFrame icon state source view.1) transform

omit [DecidableEq M] in
theorem length_of_transformedFrames {icon : IconFile M} {state : State M}
    {transform : GeometricTransform} {frames : List NormalizedFrame}
    (h : transformedFrames library icon state transform = some frames) :
    frames.length = (views state.dirs (library.count state.frames)).length :=
  (forall₂_of_mapM_some h).length_eq.symm

omit [DecidableEq M] in
theorem sourceDir_identity {dirs : Dirs} {dir : Dir} (hdir : dir ∈ orderedDirs dirs) :
    sourceDir library dirs .identity dir = some dir := by
  have hfind : ∀ l : List Dir, dir ∈ l →
      l.find? (fun source => transformDirection library source .identity = dir) = some dir := by
    intro l hl
    induction l with
    | nil => cases hl
    | cons first l ih =>
      by_cases hfirst : first = dir
      · rw [List.find?_cons_of_pos (by exact decide_eq_true hfirst), hfirst]
      · have hnot : decide (transformDirection library first .identity = dir) = false :=
          decide_eq_false hfirst
        rw [List.find?_cons, hnot]
        exact ih ((List.mem_cons.mp hl).resolve_left (Ne.symm hfirst))
  exact hfind _ hdir

theorem mem_views {dirs : Dirs} {count : Nat} {view : Nat × Dir} :
    view ∈ views dirs count ↔ view.1 < count ∧ view.2 ∈ orderedDirs dirs := by
  obtain ⟨frame, dir⟩ := view
  simp [views]

omit [DecidableEq M] in
theorem transformedFrames_identity (icon : IconFile M) (state : State M) :
    transformedFrames library icon state .identity =
      some ((views state.dirs (library.count state.frames)).map fun view =>
        normalizedIconFrame library icon state view.2 view.1) := by
  refine mapM_some_of_forall₂ ?_
  rw [List.forall₂_map_right_iff, List.forall₂_same]
  intro view hview
  rw [transformedView, sourceDir_identity (mem_views.mp hview).2, Option.map_some,
    transformFrame_normalizedIconFrame]

theorem Dirs.count_inj {dirs dirs' : Dirs} (h : dirs.count = dirs'.count) : dirs = dirs' := by
  cases dirs <;> cases dirs' <;> first | rfl | cases h

theorem kind_withNear {threshold : S} {comparison : FrameComparison S}
    (h : matchRank (withNear similarity threshold comparison).kind < 4) :
    (withNear similarity threshold comparison).kind = comparison.kind := by
  unfold withNear at h ⊢
  by_cases hnear : comparison.kind = .different ∧ similarity.ge comparison.similarity threshold
  · rw [if_pos hnear] at h
    exact absurd h (by change ¬ 4 < 4; decide)
  · rw [if_neg hnear]

def duplicateKinds : List MatchKind := [.exact, .transformed, .padded, .palette]

def Shares [DecidableEq D] (library : IconLibrary M) (hash : List UInt8 → D)
    (left right : DecodedDmi P (IconFile M)) (ls rs : State M) : Prop :=
  ∃ signature, signature ∈ stateCandidateSignatures library hash left ls ∧
    signature ∈ stateCandidateSignatures library hash right rs

def SameBand (frames frames' : List NormalizedFrame) : Prop :=
  ∃ band < 4, segment frames band = segment frames' band

-- In some orientations, one recolouring over all frames, or an equal part of the perceptual ones.
def Corresponds (library : IconLibrary M) (left right : IconFile M) (ls rs : State M) : Prop :=
  ∃ transform transform' frames frames',
    transformedFrames library left ls transform = some frames ∧
      transformedFrames library right rs transform' = some frames' ∧
      (Recolours (frames.map cropped) (frames'.map cropped) ∨ SameBand frames frames')

def hashedStreams (library : IconLibrary M) (icon : IconFile M) (state : State M) :
    List (List UInt8) :=
  transforms.flatMap fun transform =>
    ((transformedFrames library icon state transform).map fun frames =>
      [exactStream frames, croppedStream frames, paletteStream frames]).getD []

omit [DecidableEq M] in
theorem mem_hashedStreams {icon : IconFile M} {state : State M} {transform : GeometricTransform}
    {frames : List NormalizedFrame} {stream : List UInt8}
    (hframes : transformedFrames library icon state transform = some frames)
    (hstream : stream ∈ [exactStream frames, croppedStream frames, paletteStream frames]) :
    stream ∈ hashedStreams library icon state := by
  refine List.mem_flatMap.mpr ⟨transform, by cases transform <;> decide, ?_⟩
  rw [hframes]
  exact hstream

variable [DecidableEq D] {hash : List UInt8 → D} {left right : DecodedDmi P (IconFile M)}
  {ls rs : State M}

omit [DecidableEq M] in
theorem shares_of_corresponds (h : Corresponds library left.icon right.icon ls rs) :
    Shares library hash left right ls rs := by
  obtain ⟨transform, transform', frames, frames', hframes, hframes', hsame⟩ := h
  rcases hsame with hrecolours | ⟨band, hband, hsegment⟩
  · refine ⟨.palette (hash (paletteStream frames)),
      (mem_stateCandidateSignatures library hash).mpr ⟨transform, frames, hframes, ?_⟩,
      (mem_stateCandidateSignatures library hash).mpr ⟨transform', frames', hframes', ?_⟩⟩
    · simp [frameSignatures]
    · rw [paletteStream_of_recolours hrecolours]
      simp [frameSignatures]
  · refine ⟨.perceptual band (segment frames band),
      (mem_stateCandidateSignatures library hash).mpr ⟨transform, frames, hframes, ?_⟩,
      (mem_stateCandidateSignatures library hash).mpr ⟨transform', frames', hframes', ?_⟩⟩
    · simp [frameSignatures, hband]
    · simp [frameSignatures, hband, hsegment]

omit [DecidableEq M] in
theorem corresponds_of_shares
    (hviews : (views ls.dirs (library.count ls.frames)).length =
      (views rs.dirs (library.count rs.frames)).length)
    (hhash : ∀ stream ∈ hashedStreams library left.icon ls,
      ∀ stream' ∈ hashedStreams library right.icon rs, hash stream = hash stream' → stream = stream')
    (h : Shares library hash left right ls rs) :
    Corresponds library left.icon right.icon ls rs := by
  obtain ⟨signature, hleft, hright⟩ := h
  obtain ⟨transform, frames, hframes, hmem⟩ := (mem_stateCandidateSignatures library hash).mp hleft
  obtain ⟨transform', frames', hframes', hmem'⟩ :=
    (mem_stateCandidateSignatures library hash).mp hright
  refine ⟨transform, transform', frames, frames', hframes, hframes', ?_⟩
  have hlength : frames.length = frames'.length := by
    rw [length_of_transformedFrames hframes, length_of_transformedFrames hframes', hviews]
  have hframed := framed_of_transformedFrames hframes
  have hframed' := framed_of_transformedFrames hframes'
  have hstream : ∀ stream ∈ [exactStream frames, croppedStream frames, paletteStream frames],
      ∀ stream' ∈ [exactStream frames', croppedStream frames', paletteStream frames'],
      hash stream = hash stream' → stream = stream' := fun stream hs stream' hs' =>
    hhash stream (mem_hashedStreams hframes hs) stream' (mem_hashedStreams hframes' hs')
  cases signature with
  | exact digest =>
    simp only [frameSignatures, List.mem_append, List.mem_cons, List.mem_map, List.not_mem_nil,
      Signature.exact.injEq, reduceCtorEq, or_false, and_false, exists_false] at hmem hmem'
    have hsame := hstream _ (by simp) _ (by simp) (hmem.symm.trans hmem')
    rw [frames_of_exactStream hlength hframed hframed' hsame]
    exact Or.inl (recolours_self _)
  | cropped digest =>
    simp only [frameSignatures, List.mem_append, List.mem_cons, List.mem_map, List.not_mem_nil,
      Signature.cropped.injEq, reduceCtorEq, or_false, false_or, and_false, exists_false]
      at hmem hmem'
    have hsame := hstream _ (by simp) _ (by simp) (hmem.symm.trans hmem')
    rw [cropped_of_croppedStream hlength hframed hframed' hsame]
    exact Or.inl (recolours_self _)
  | palette digest =>
    simp only [frameSignatures, List.mem_append, List.mem_cons, List.mem_map, List.not_mem_nil,
      Signature.palette.injEq, reduceCtorEq, or_false, false_or, and_false, exists_false]
      at hmem hmem'
    have hsame := hstream _ (by simp) _ (by simp) (hmem.symm.trans hmem')
    exact Or.inl (recolours_of_paletteStream hlength hframed hframed' hsame)
  | perceptual band bits =>
    simp only [frameSignatures, List.mem_append, List.mem_cons, List.mem_map, List.not_mem_nil,
      List.mem_range, Signature.perceptual.injEq, reduceCtorEq, or_false, false_or] at hmem hmem'
    obtain ⟨band', hband, rfl, hsegment⟩ := hmem
    obtain ⟨_, -, rfl, hsegment'⟩ := hmem'
    exact Or.inr ⟨_, hband, hsegment.trans hsegment'.symm⟩

omit [DecidableEq M] in
theorem findState_of_mem {icon : IconFile M} {state : State M} (h : state ∈ icon.states) :
    findState icon state.name state.duplicateIndex = .ok state := by
  cases hfind : icon.states.find? fun other =>
      other.name = state.name ∧ other.duplicateIndex = state.duplicateIndex with
  | none => exact absurd (List.find?_eq_none.mp hfind state h) (by simp)
  | some other =>
    have hsame := List.find?_some hfind
    simp only [decide_eq_true_eq] at hsame
    have hother : other = state :=
      List.inj_on_of_nodup_map icon.states_distinct (List.mem_of_find?_eq_some hfind) h
        (Prod.ext hsame.1 hsame.2)
    rw [findState, hfind, hother]

-- What a comparison that ends with a duplicate has found.
theorem comparisons_of_duplicate {minimum : S} {comparison : StateComparison P S}
    (hls : ls ∈ left.icon.states) (hrs : rs ∈ right.icon.states)
    (h : compareStates similarity library left ls.name ls.duplicateIndex right rs.name
      rs.duplicateIndex minimum = .ok comparison)
    (hkind : comparison.imageMatch ∈ duplicateKinds) :
    ls.dirs = rs.dirs ∧ library.count ls.frames = library.count rs.frames ∧
      ∃ transform comparisons,
        (views ls.dirs (library.count ls.frames)).mapM (compareView similarity library left.icon
          right.icon ls rs (similarity.clamp minimum) transform) = some comparisons ∧
        ∀ c ∈ comparisons, matchRank c.kind ≤ matchRank comparison.imageMatch := by
  rw [compareStates, findState_of_mem hls, findState_of_mem hrs] at h
  change (if ls.dirs.count ≠ rs.dirs.count ∨ library.count ls.frames ≠ library.count rs.frames then
    _ else _) = Except.ok comparison at h
  split at h
  · cases h
    exact absurd hkind (by change MatchKind.different ∉ duplicateKinds; decide)
  · rename_i hcounts
    obtain ⟨hdirs, hcount⟩ : ls.dirs.count = rs.dirs.count ∧
        library.count ls.frames = library.count rs.frames := by
      simpa only [not_or, not_not] using hcounts
    refine ⟨Dirs.count_inj hdirs, hcount, ?_⟩
    cases h
    dsimp only at hkind ⊢
    have hdifferent : ∀ kind ∈ duplicateKinds, kind ≠ .different := by decide
    cases hbest : transforms.foldl (tryTransform similarity library left.icon right.icon ls rs
        (similarity.clamp minimum)) none with
    | none =>
      rw [hbest] at hkind
      exact absurd hkind (by change MatchKind.different ∉ duplicateKinds; decide)
    | some ranked =>
      rw [hbest] at hkind
      obtain ⟨-, hranks⟩ := rank_le_of_worst rfl (hdifferent _ hkind)
      rcases foldl_tryTransform hbest rfl with hnone | ⟨transform, -, hcomparisons⟩
      · cases hnone
      · refine ⟨transform, ranked.comparisons, hcomparisons, fun c hc => ?_⟩
        exact hranks _ (List.mem_map_of_mem hc)

theorem corresponds_of_unpainted {minimum : S} {comparison : StateComparison P S}
    (hls : ls ∈ left.icon.states) (hrs : rs ∈ right.icon.states)
    (h : compareStates similarity library left ls.name ls.duplicateIndex right rs.name
      rs.duplicateIndex minimum = .ok comparison)
    (hkind : comparison.imageMatch ∈ duplicateKinds) (hpalette : comparison.imageMatch ≠ .palette) :
    Corresponds library left.icon right.icon ls rs := by
  obtain ⟨hdirs, hcount, transform, comparisons, hcomparisons, hranks⟩ :=
    comparisons_of_duplicate hls hrs h hkind
  have hrank : matchRank comparison.imageMatch < 3 := by
    have hall : ∀ kind ∈ duplicateKinds, kind ≠ .palette → matchRank kind < 3 := by decide
    exact hall _ hkind hpalette
  have hviews := forall₂_of_mapM_some hcomparisons
  have htransformed : ∀ view ∈ views ls.dirs (library.count ls.frames), ∃ frame,
      transformedView library right.icon rs transform view = some frame ∧
        cropped frame = cropped (normalizedIconFrame library left.icon ls view.2 view.1) := by
    intro view hview
    obtain ⟨c, hc, hcompared⟩ := exists_of_mem_left hviews hview
    obtain ⟨frame, hframe, rfl⟩ := Option.map_eq_some_iff.mp hcompared
    have hlow := (hranks _ hc).trans_lt hrank
    rw [kind_withNear (hlow.trans (by decide))] at hlow
    exact ⟨frame, hframe, cropped_of_compareAligned hlow⟩
  obtain ⟨frames', hframes'⟩ := exists_mapM_some fun view hview =>
    have ⟨frame, hframe, _⟩ := htransformed view hview
    ⟨frame, hframe⟩
  refine ⟨.identity, transform, _, frames', transformedFrames_identity left.icon ls, ?_, Or.inl ?_⟩
  · rw [transformedFrames, ← hdirs, ← hcount, hframes']
  · have hrelated : List.Forall₂ (fun view frame => cropped frame =
        cropped (normalizedIconFrame library left.icon ls view.2 view.1))
        (views ls.dirs (library.count ls.frames)) frames' := by
      refine List.forall₂_iff_zip.mpr ⟨(forall₂_of_mapM_some hframes').length_eq, ?_⟩
      intro view frame hpair
      obtain ⟨other, hother, hcropped⟩ := htransformed view (List.of_mem_zip hpair).1
      have hframe := (List.forall₂_iff_zip.mp (forall₂_of_mapM_some hframes')).2 hpair
      rwa [Option.some.inj (hother.symm.trans hframe)] at hcropped
    rw [List.map_map, map_eq_of_forall₂ hrelated fun _ _ h => h]
    exact recolours_self _

end Dmi
