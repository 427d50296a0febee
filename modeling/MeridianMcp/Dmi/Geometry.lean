import MeridianMcp.Dmi.Recolouring

namespace Dmi

open MeridianMcp Numbering PrefixCode

theorem mem_cells {width height x y : Nat} : (x, y) ∈ cells width height ↔ x < width ∧ y < height := by
  simp [cells, and_comm]

theorem length_cells (width height : Nat) : (cells width height).length = width * height := by
  simp [cells, Nat.mul_comm]

theorem cells_index (width height : Nat) :
    (cells width height).map (fun cell => cell.2 * width + cell.1) = List.range (height * width) := by
  induction height with
  | zero => simp [cells]
  | succ height ih =>
    have hcells : cells width (height + 1) =
        cells width height ++ (List.range width).map fun x => (x, height) := by
      rw [cells, List.range_succ, List.flatMap_append, List.flatMap_singleton, cells]
    rw [hcells, List.map_append, ih, List.map_map, Nat.succ_mul, List.range_add]
    rfl

theorem foldl_set_range {g : Nat → Pixel} {n : Nat} {out : List Pixel} (hn : n ≤ out.length) :
    (List.range n).foldl (fun out i => out.set i (g i)) out = (List.range n).map g ++ out.drop n := by
  induction n with
  | zero => rfl
  | succ n ih =>
    have hlength : ((List.range n).map g).length = n := by
      rw [List.length_map, List.length_range]
    rw [List.range_succ, List.foldl_append, ih (Nat.le_of_succ_le hn), List.map_append,
      List.foldl_cons, List.foldl_nil, List.set_append_right _ _ hlength.le, hlength, Nat.sub_self,
      List.drop_eq_getElem_cons hn, List.set_cons_zero, List.map_singleton, List.append_assoc,
      List.singleton_append]

theorem map_pixelAt_range (pixels : List Pixel) :
    (List.range pixels.length).map (pixelAt pixels) = pixels := by
  refine List.ext_getElem (by rw [List.length_map, List.length_range]) fun i _ hi => ?_
  rw [List.getElem_map, List.getElem_range, pixelAt, List.getElem?_eq_getElem hi, Option.getD_some]

theorem Pixel.normalize_normalize (pixel : Pixel) : pixel.normalize.normalize = pixel.normalize := by
  by_cases ha : pixel.a = 0
  · simp [normalize, ha, clear]
  · simp [normalize, ha]

theorem normalizeFrame_normalized (width height : Nat) (pixels : List Pixel) :
    normalizeFrame width height (normalizeFrame width height pixels).pixels =
      normalizeFrame width height pixels := by
  have hpixels : (pixels.map Pixel.normalize).map Pixel.normalize = pixels.map Pixel.normalize := by
    rw [List.map_map]
    exact List.map_congr_left fun pixel _ => pixel.normalize_normalize
  simp only [normalizeFrame, hpixels]

theorem transformFrame_identity {width height : Nat} {pixels : List Pixel}
    (hlength : pixels.length = width * height) :
    transformFrame (normalizeFrame width height pixels) .identity =
      normalizeFrame width height pixels := by
  have hindexed : (cells width height).foldl
      (fun out cell => out.set (cell.2 * width + cell.1)
        (pixelAt (pixels.map Pixel.normalize) (cell.2 * width + cell.1)))
      (List.replicate (width * height) Pixel.clear) = pixels.map Pixel.normalize := by
    have hsize : (pixels.map Pixel.normalize).length = height * width := by
      rw [List.length_map, hlength, Nat.mul_comm]
    have hout : height * width ≤ (List.replicate (width * height) Pixel.clear).length := by
      rw [List.length_replicate, Nat.mul_comm]
    have hfold := @foldl_set_range (pixelAt (pixels.map Pixel.normalize)) _ _ hout
    rw [← cells_index, List.foldl_map, cells_index, ← hsize, map_pixelAt_range] at hfold
    rw [hfold, List.drop_of_length_le, List.append_nil]
    rw [hsize, List.length_replicate, Nat.mul_comm]
  have hnormal := normalizeFrame_normalized width height pixels
  rw [transformFrame]
  change normalizeFrame width height ((cells width height).foldl
      (fun out cell => out.set (cell.2 * width + cell.1)
        (pixelAt (pixels.map Pixel.normalize) (cell.2 * width + cell.1)))
      (List.replicate (width * height) Pixel.clear)) = _
  rw [hindexed]
  exact hnormal

structure Framed (frame : NormalizedFrame) : Prop where
  width_lt : frame.width < 2 ^ 32
  height_lt : frame.height < 2 ^ 32
  length : frame.pixels.length = frame.width * frame.height
  bounds : frame.alphaBounds = pixelStats frame.pixels frame.width frame.height

theorem pixelStats_lt {pixels : List Pixel} {width height : Nat} {bounds : AlphaBounds}
    (h : pixelStats pixels width height = some bounds) :
    bounds.maxX < width ∧ bounds.maxY < height := by
  have hfold : ∀ l : List (Nat × Nat), (∀ cell ∈ l, cell ∈ cells width height) →
      ∀ start : Option AlphaBounds, (∀ b ∈ start, b.maxX < width ∧ b.maxY < height) →
      ∀ b ∈ l.foldl (fun bounds cell =>
        if (pixelAt pixels (cell.2 * width + cell.1)).a ≠ 0 then
          some (AlphaBounds.widen bounds cell.1 cell.2)
        else bounds) start, b.maxX < width ∧ b.maxY < height := by
    intro l hl
    induction l with
    | nil => exact fun start hstart => hstart
    | cons cell l ih =>
      intro start hstart
      refine ih (fun c hc => hl c (List.mem_cons_of_mem _ hc)) _ ?_
      obtain ⟨hx, hy⟩ := mem_cells.mp (hl cell (List.mem_cons_self ..))
      intro b hb
      dsimp only at hb
      split at hb
      · obtain rfl := Option.some.inj hb
        cases start with
        | none => exact ⟨hx, hy⟩
        | some old =>
          obtain ⟨holdx, holdy⟩ := hstart old rfl
          exact ⟨max_lt holdx hx, max_lt holdy hy⟩
      · exact hstart b hb
  exact hfold _ (fun _ hcell => hcell) none (fun _ hb => nomatch hb) bounds h

theorem framed_normalizeFrame {width height : Nat} {pixels : List Pixel} (hwidth : width < 2 ^ 32)
    (hheight : height < 2 ^ 32) (hlength : pixels.length = width * height) :
    Framed (normalizeFrame width height pixels) where
  width_lt := hwidth
  height_lt := hheight
  length := by rw [normalizeFrame, List.length_map, hlength]
  bounds := rfl

theorem length_foldl_set (l : List (Nat × Nat)) (index : Nat × Nat → Nat)
    (value : Nat × Nat → Pixel) (out : List Pixel) :
    (l.foldl (fun out cell => out.set (index cell) (value cell)) out).length = out.length := by
  induction l generalizing out with
  | nil => rfl
  | cons cell l ih => rw [List.foldl_cons, ih, List.length_set]

theorem framed_transformFrame {frame : NormalizedFrame} (hframe : Framed frame)
    (transform : GeometricTransform) : Framed (transformFrame frame transform) := by
  have hsize : (transformedSize frame transform).1 < 2 ^ 32 ∧
      (transformedSize frame transform).2 < 2 ^ 32 := by
    cases transform with
    | rotate90 => exact ⟨hframe.height_lt, hframe.width_lt⟩
    | rotate270 => exact ⟨hframe.height_lt, hframe.width_lt⟩
    | _ => exact ⟨hframe.width_lt, hframe.height_lt⟩
  rw [transformFrame]
  refine framed_normalizeFrame hsize.1 hsize.2 ?_
  rw [length_foldl_set, List.length_replicate]

theorem cropped_eq (frame : NormalizedFrame) :
    cropped frame = frame.alphaBounds.map fun bounds =>
      ⟨bounds.width, bounds.height,
        (cells bounds.width bounds.height).map (boundedPixel frame bounds)⟩ := by
  have hcells : ∀ bounds : AlphaBounds, boundedCells bounds =
      (cells bounds.width bounds.height).map fun cell =>
        (bounds.minX + cell.1, bounds.minY + cell.2) := by
    intro bounds
    simp only [boundedCells, cells, List.range'_eq_map_range, List.flatMap_map, List.map_flatMap,
      List.map_map]
    rfl
  cases hbounds : frame.alphaBounds with
  | none => rw [cropped, hbounds]; rfl
  | some bounds =>
    rw [cropped, hbounds, Option.map_some, Option.map_some, hcells, List.map_map]
    rfl

theorem cropped_sized {frame : NormalizedFrame} (hframe : Framed frame) :
    CroppedSized (fun _ => True) (cropped frame) := by
  rw [cropped_eq]
  intro block hblock
  obtain ⟨bounds, hbounds, rfl⟩ := Option.map_eq_some_iff.mp hblock
  obtain ⟨hx, hy⟩ := pixelStats_lt (hframe.bounds.symm.trans hbounds)
  have hwidth := hframe.width_lt
  have hheight := hframe.height_lt
  refine ⟨⟨?_, ?_, ?_, fun _ _ => trivial⟩, Nat.succ_pos _⟩
  · change bounds.width < 2 ^ 32
    unfold AlphaBounds.width
    omega
  · change bounds.height < 2 ^ 32
    unfold AlphaBounds.height
    omega
  · rw [List.length_map, length_cells]

theorem wholeBlock_sized {frame : NormalizedFrame} (hframe : Framed frame) :
    (wholeBlock frame).Sized fun _ => True :=
  ⟨hframe.width_lt, hframe.height_lt, hframe.length, fun _ _ => trivial⟩

theorem wholeBlock_inj {frame frame' : NormalizedFrame} (hframe : Framed frame)
    (hframe' : Framed frame') (h : wholeBlock frame = wholeBlock frame') : frame = frame' := by
  obtain ⟨hwidth, hheight, hpixels⟩ := Block.mk.inj h
  have hbounds := hframe.bounds
  have hbounds' := hframe'.bounds
  rw [hwidth, hheight, hpixels, ← hbounds'] at hbounds
  obtain ⟨_, _, _, _⟩ := frame
  obtain ⟨_, _, _, _⟩ := frame'
  cases hwidth
  cases hheight
  cases hpixels
  cases hbounds
  rfl

theorem frames_of_exactStream {frames frames' : List NormalizedFrame}
    (hlength : frames.length = frames'.length) (hframes : ∀ frame ∈ frames, Framed frame)
    (hframes' : ∀ frame ∈ frames', Framed frame) (h : exactStream frames = exactStream frames') :
    frames = frames' := by
  have hsized : ∀ (l : List NormalizedFrame), (∀ frame ∈ l, Framed frame) →
      ∀ block ∈ l.map wholeBlock, block.Sized fun _ => True := by
    intro l hl block hblock
    obtain ⟨frame, hframe, rfl⟩ := List.mem_map.mp hblock
    exact wholeBlock_sized (hl frame hframe)
  have hblocks := (block_prefixFree pixel_prefixFree).flatMap_eq
    (by rw [List.length_map, List.length_map, hlength]) (hsized frames hframes)
    (hsized frames' hframes') h
  rw [← List.forall₂_eq_eq_eq, List.forall₂_map_left_iff, List.forall₂_map_right_iff] at hblocks
  rw [← List.forall₂_eq_eq_eq, List.forall₂_iff_zip]
  refine ⟨hlength, ?_⟩
  intro frame frame' hpair
  obtain ⟨hmem, hmem'⟩ := List.of_mem_zip hpair
  exact wholeBlock_inj (hframes _ hmem) (hframes' _ hmem')
    ((List.forall₂_iff_zip.mp hblocks).2 hpair)

theorem croppedSized_map {frames : List NormalizedFrame} (hframes : ∀ frame ∈ frames, Framed frame) :
    ∀ block ∈ frames.map cropped, CroppedSized (fun _ => True) block := by
  intro block hblock
  obtain ⟨frame, hframe, rfl⟩ := List.mem_map.mp hblock
  exact cropped_sized (hframes frame hframe)

theorem cropped_of_croppedStream {frames frames' : List NormalizedFrame}
    (hlength : frames.length = frames'.length) (hframes : ∀ frame ∈ frames, Framed frame)
    (hframes' : ∀ frame ∈ frames', Framed frame) (h : croppedStream frames = croppedStream frames') :
    frames.map cropped = frames'.map cropped :=
  (cropped_prefixFree pixel_prefixFree).flatMap_eq
    (by rw [List.length_map, List.length_map, hlength]) (croppedSized_map hframes)
    (croppedSized_map hframes') h

theorem recolours_of_paletteStream {frames frames' : List NormalizedFrame}
    (hlength : frames.length = frames'.length) (hframes : ∀ frame ∈ frames, Framed frame)
    (hframes' : ∀ frame ∈ frames', Framed frame) (h : paletteStream frames = paletteStream frames') :
    Recolours (frames.map cropped) (frames'.map cropped) := by
  refine paletteBlocks_eq_iff.mp ((cropped_prefixFree paletteCell_prefixFree).flatMap_eq ?_
    (paletteBlocks_sized List.nodup_nil (croppedSized_map hframes))
    (paletteBlocks_sized List.nodup_nil (croppedSized_map hframes')) h)
  rw [length_paletteBlocks, length_paletteBlocks, List.length_map, List.length_map, hlength]

theorem paletteStream_of_recolours {frames frames' : List NormalizedFrame}
    (h : Recolours (frames.map cropped) (frames'.map cropped)) :
    paletteStream frames = paletteStream frames' := by
  rw [paletteStream, paletteStream, paletteBlocks_eq_iff.mpr h]

end Dmi
