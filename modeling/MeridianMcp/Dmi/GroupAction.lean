import MeridianMcp.Dmi.Transforms
import MeridianMcp.Dmi.DuplicateScan

namespace Dmi

open MeridianMcp

theorem transformFrame_width (frame : NormalizedFrame) (transform : GeometricTransform) :
    (transformFrame frame transform).width = (turnedSize frame.width frame.height transform).1 :=
  congrArg Prod.fst (transformFrame_size frame transform)

theorem transformFrame_height (frame : NormalizedFrame) (transform : GeometricTransform) :
    (transformFrame frame transform).height = (turnedSize frame.width frame.height transform).2 :=
  congrArg Prod.snd (transformFrame_size frame transform)

theorem transformFrame_comp {frame : NormalizedFrame} (h : Normal frame)
    {first second both : GeometricTransform}
    (hsize : turnedSize (turnedSize frame.width frame.height first).1
      (turnedSize frame.width frame.height first).2 second =
        turnedSize frame.width frame.height both)
    (hmove : ∀ cell ∈ cells frame.width frame.height,
      move (turnedSize frame.width frame.height first).1
        (turnedSize frame.width frame.height first).2 second
          (move frame.width frame.height first cell) = move frame.width frame.height both cell) :
    transformFrame (transformFrame frame first) second = transformFrame frame both := by
  have hwidth := transformFrame_width frame first
  have hheight := transformFrame_height frame first
  have hsize' : ((transformFrame (transformFrame frame first) second).width,
      (transformFrame (transformFrame frame first) second).height) =
        ((transformFrame frame both).width, (transformFrame frame both).height) := by
    rw [transformFrame_size, transformFrame_size, hwidth, hheight, hsize]
  obtain ⟨hw, hh⟩ := Prod.mk.inj hsize'
  refine (normal_transformFrame _ _).ext (normal_transformFrame _ _) hw hh ?_
  intro cell hcell
  rw [hw, hh, transformFrame_width, transformFrame_height] at hcell
  obtain ⟨source, hsource, rfl⟩ := exists_move hcell
  have hmoved := @move_mem _ _ first _ hsource
  rw [← hwidth, ← hheight] at hmoved
  have hpixel := pixel_transformFrame (normal_transformFrame frame first) second hmoved
  rw [hwidth, hheight, hmove source hsource, pixel_transformFrame h first hsource] at hpixel
  rw [hpixel, pixel_transformFrame h both hsource]

theorem Normal.transform_identity {frame : NormalizedFrame} (h : Normal frame) :
    transformFrame frame .identity = frame := by
  rw [← h.normalized]
  exact transformFrame_identity h.length

theorem transformFrame_inverse {frame : NormalizedFrame} (h : Normal frame)
    (transform : GeometricTransform) :
    transformFrame (transformFrame frame transform) transform.inverse = frame := by
  refine (transformFrame_comp h turnedSize_inverse fun cell hcell => ?_).trans h.transform_identity
  exact move_inverse hcell

theorem transformFrame_quarters {frame : NormalizedFrame} (h : Normal frame) :
    transformFrame (transformFrame frame .rotate90) .rotate90 = transformFrame frame .rotate180 :=
  transformFrame_comp h rfl fun _ _ => rfl

def moveBounds (width height : Nat) (transform : GeometricTransform) (bounds : AlphaBounds) :
    AlphaBounds :=
  let first := move width height transform (bounds.minX, bounds.minY)
  let last := move width height transform (bounds.maxX, bounds.maxY)
  ⟨min first.1 last.1, min first.2 last.2, max first.1 last.1, max first.2 last.2⟩

section Bounds

variable {width height : Nat} {bounds : AlphaBounds} {l : List (Nat × Nat)}

-- A transform computes each coordinate from one of the two, so a corner of the box has its
-- coordinates from cells on the sides that meet there.
theorem exists_corner {corner : Nat × Nat} (hx : ∃ cell ∈ l, cell.1 = corner.1)
    (hy : ∃ cell ∈ l, cell.2 = corner.2) (transform : GeometricTransform) :
    (∃ cell ∈ l, (move width height transform cell).1 = (move width height transform corner).1) ∧
      ∃ cell ∈ l,
        (move width height transform cell).2 = (move width height transform corner).2 := by
  obtain ⟨side, hside, hx⟩ := hx
  obtain ⟨edge, hedge, hy⟩ := hy
  constructor
  · cases transform
    case rotate90 | rotate270 => exact ⟨edge, hedge, by simp only [move, hy]⟩
    all_goals exact ⟨side, hside, by simp only [move, hx]⟩
  · cases transform
    case rotate90 | rotate270 => exact ⟨side, hside, by simp only [move, hx]⟩
    all_goals exact ⟨edge, hedge, by simp only [move, hy]⟩

theorem exists_extreme {f : Nat × Nat → Nat} {first last : Nat} (hfirst : ∃ cell ∈ l, f cell = first)
    (hlast : ∃ cell ∈ l, f cell = last) :
    (∃ cell ∈ l, f cell = min first last) ∧ ∃ cell ∈ l, f cell = max first last := by
  rcases le_total first last with hle | hle
  · rw [Nat.min_eq_left hle, Nat.max_eq_right hle]
    exact ⟨hfirst, hlast⟩
  · rw [Nat.min_eq_right hle, Nat.max_eq_left hle]
    exact ⟨hlast, hfirst⟩

theorem Encloses.move (h : Encloses bounds l) (hl : ∀ cell ∈ l, cell ∈ cells width height)
    (transform : GeometricTransform) :
    Encloses (moveBounds width height transform bounds)
      (l.map (Dmi.move width height transform)) := by
  obtain ⟨hfirstX, hfirstY⟩ :=
    @exists_corner width height l (bounds.minX, bounds.minY) h.left h.top transform
  obtain ⟨hlastX, hlastY⟩ :=
    @exists_corner width height l (bounds.maxX, bounds.maxY) h.right h.bottom transform
  obtain ⟨hminX, hmaxX⟩ := exists_extreme hfirstX hlastX
  obtain ⟨hminY, hmaxY⟩ := exists_extreme hfirstY hlastY
  refine ⟨?_, ?_, ?_, ?_, ?_⟩
  · rw [List.forall_mem_map]
    intro cell hcell
    have hinside := h.inside cell hcell
    have hgrid := mem_cells.mp (hl cell hcell)
    cases transform <;> simp only [Dmi.move, moveBounds] <;> omega
  · simpa only [List.mem_map, exists_exists_and_eq_and, moveBounds] using hminX
  · simpa only [List.mem_map, exists_exists_and_eq_and, moveBounds] using hmaxX
  · simpa only [List.mem_map, exists_exists_and_eq_and, moveBounds] using hminY
  · simpa only [List.mem_map, exists_exists_and_eq_and, moveBounds] using hmaxY

theorem Boxed.move {bounds : Option AlphaBounds} (h : Boxed bounds l)
    (hl : ∀ cell ∈ l, cell ∈ cells width height) (transform : GeometricTransform) :
    Boxed (bounds.map (moveBounds width height transform))
      (l.map (Dmi.move width height transform)) := by
  cases bounds with
  | none => exact (congrArg (List.map _) h).trans List.map_nil
  | some bounds => exact Encloses.move h hl transform

end Bounds

theorem Normal.bounds {frame : NormalizedFrame} (h : Normal frame) :
    Boxed frame.alphaBounds ((cells frame.width frame.height).filter fun cell =>
      (frame.pixel cell).a ≠ 0) := by
  have hpixels : frame.pixels.map Pixel.normalize = frame.pixels :=
    congrArg NormalizedFrame.pixels h.normalized
  have hbounds : pixelStats (frame.pixels.map Pixel.normalize) frame.width frame.height =
      frame.alphaBounds := congrArg NormalizedFrame.alphaBounds h.normalized
  rw [← hbounds, hpixels]
  exact pixelStats_boxed frame.pixels frame.width frame.height

theorem alphaBounds_transformFrame {frame : NormalizedFrame} (h : Normal frame)
    (transform : GeometricTransform) : (transformFrame frame transform).alphaBounds =
      frame.alphaBounds.map (moveBounds frame.width frame.height transform) := by
  have hmoved := h.bounds.move (fun cell hcell => List.mem_of_mem_filter hcell) transform
  refine boxed_unique (normal_transformFrame frame transform).bounds hmoved fun cell => ?_
  rw [transformFrame_width, transformFrame_height, List.mem_filter, List.mem_map]
  constructor
  · rintro ⟨hcell, halpha⟩
    obtain ⟨source, hsource, rfl⟩ := exists_move hcell
    rw [pixel_transformFrame h transform hsource] at halpha
    exact ⟨source, List.mem_filter.mpr ⟨hsource, halpha⟩, rfl⟩
  · rintro ⟨source, hsource, rfl⟩
    obtain ⟨hsource, halpha⟩ := List.mem_filter.mp hsource
    refine ⟨move_mem hsource, ?_⟩
    rwa [pixel_transformFrame h transform hsource]

-- One step in a direction, the first coordinate to the right and the second down.
def heading : Dir → Int × Int
  | .north => (0, -1)
  | .south => (0, 1)
  | .east => (1, 0)
  | .west => (-1, 0)
  | .northeast => (1, -1)
  | .northwest => (-1, -1)
  | .southeast => (1, 1)
  | .southwest => (-1, 1)

def turnHeading : GeometricTransform → Int × Int → Int × Int
  | .identity, (x, y) => (x, y)
  | .mirrorHorizontal, (x, y) => (-x, y)
  | .mirrorVertical, (x, y) => (x, -y)
  | .rotate90, (x, y) => (-y, x)
  | .rotate180, (x, y) => (-x, -y)
  | .rotate270, (x, y) => (y, -x)

theorem heading_inj : Function.Injective heading := by
  intro dir dir' h
  cases dir <;> cases dir' <;> first | rfl | exact absurd h (by decide)

-- What the parser's library says of its three functions: east and west change places, north and
-- south do, or both.
structure Compass {M : Type} (library : IconLibrary M) : Prop where
  flipEw : ∀ dir, heading (library.flipEw dir) = (-(heading dir).1, (heading dir).2)
  flipNs : ∀ dir, heading (library.flipNs dir) = ((heading dir).1, -(heading dir).2)
  flip : ∀ dir, heading (library.flip dir) = (-(heading dir).1, -(heading dir).2)

variable {M : Type} {library : IconLibrary M}

theorem heading_transformDirection (hlibrary : Compass library) (dir : Dir)
    (transform : GeometricTransform) :
    heading (transformDirection library dir transform) = turnHeading transform (heading dir) := by
  cases transform with
  | identity => rfl
  | mirrorHorizontal => exact hlibrary.flipEw dir
  | mirrorVertical => exact hlibrary.flipNs dir
  | rotate90 => cases dir <;> rfl
  | rotate180 => exact hlibrary.flip dir
  | rotate270 => cases dir <;> rfl

-- The second cell is as many steps of a heading away from the first.
def Apart (steps : Int) (heading : Int × Int) (cell cell' : Nat × Nat) : Prop :=
  (cell'.1 : Int) = cell.1 + steps * heading.1 ∧ (cell'.2 : Int) = cell.2 + steps * heading.2

theorem Apart.move {width height : Nat} {cell cell' : Nat × Nat} {steps : Int} {way : Int × Int}
    (h : Apart steps way cell cell') (hcell : cell ∈ cells width height)
    (hcell' : cell' ∈ cells width height) (transform : GeometricTransform) :
    Apart steps (turnHeading transform way) (Dmi.move width height transform cell)
      (Dmi.move width height transform cell') := by
  obtain ⟨hx, hy⟩ := h
  obtain ⟨hcx, hcy⟩ := mem_cells.mp hcell
  obtain ⟨hcx', hcy'⟩ := mem_cells.mp hcell'
  cases transform <;> simp only [Apart, turnHeading, Dmi.move, Int.mul_neg] <;> omega

-- The loop of a transform at one cell: no subtraction goes below zero, and the places that are
-- read and written, with all that is computed on the way, are inside their arrays.
structure InRange (frame : NormalizedFrame) (transform : GeometricTransform) (cell : Nat × Nat) :
    Prop where
  column : cell.1 + 1 ≤ frame.width
  row : cell.2 + 1 ≤ frame.height
  read : cell.2 * frame.width + cell.1 < frame.pixels.length
  written : (target frame transform cell).2 * (transformedSize frame transform).1 +
    (target frame transform cell).1 <
      (transformedSize frame transform).1 * (transformedSize frame transform).2
  read_lt : cell.2 * frame.width + cell.1 < 2 ^ 32
  size_lt : (transformedSize frame transform).1 * (transformedSize frame transform).2 < 2 ^ 32

theorem inRange {frame : NormalizedFrame} (h : Normal frame)
    (hsize : frame.width * frame.height < 2 ^ 32) (transform : GeometricTransform)
    {cell : Nat × Nat} (hcell : cell ∈ cells frame.width frame.height) :
    InRange frame transform cell := by
  obtain ⟨hx, hy⟩ := mem_cells.mp hcell
  refine ⟨hx, hy, ?_, ?_, (index_lt hcell).trans hsize, ?_⟩
  · rw [h.length]
    exact index_lt hcell
  · rw [target_eq, transformedSize_eq]
    exact index_lt (move_mem hcell)
  · rwa [transformedSize_eq, turnedSize_mul]

theorem nodup_cells (width height : Nat) : (cells width height).Nodup := by
  refine List.Nodup.of_map (fun cell => cell.2 * width + cell.1) ?_
  rw [cells_index]
  exact List.nodup_range

theorem perm_move {width height : Nat} (transform : GeometricTransform) :
    (cells (turnedSize width height transform).1 (turnedSize width height transform).2).Perm
      ((cells width height).map (move width height transform)) := by
  have hnodup : ((cells width height).map (move width height transform)).Nodup :=
    List.Nodup.map_on (fun cell h cell' h' heq => move_bijOn.injOn h h' heq)
      (nodup_cells width height)
  refine (List.perm_ext_iff_of_nodup (nodup_cells _ _) hnodup).mpr fun cell => ?_
  rw [List.mem_map]
  constructor
  · exact exists_move
  · rintro ⟨source, hsource, rfl⟩
    exact move_mem hsource

theorem perm_transformFrame {frame : NormalizedFrame} (h : Normal frame)
    (transform : GeometricTransform) :
    (transformFrame frame transform).pixels.Perm frame.pixels := by
  rw [(normal_transformFrame frame transform).pixels_eq, transformFrame_width,
    transformFrame_height, h.pixels_eq]
  refine ((perm_move transform).map _).trans (List.Perm.of_eq ?_)
  rw [List.map_map]
  exact List.map_congr_left fun cell hcell => pixel_transformFrame h transform hcell

theorem geometricTransforms_act (hlibrary : Compass library) {width height : Nat}
    {pixels : List Pixel} (hlength : pixels.length = width * height)
    (hsize : width * height < 2 ^ 32) {frame : NormalizedFrame}
    (hframe : frame = normalizeFrame width height pixels) :
    (∀ transform, ∀ cell ∈ cells width height, InRange frame transform cell) ∧
      (∀ transform, Set.BijOn (target frame transform) {cell | cell ∈ cells width height}
          {cell | cell ∈ cells (transformedSize frame transform).1
            (transformedSize frame transform).2} ∧
        (∀ cell ∈ cells width height,
          (transformFrame frame transform).pixel (target frame transform cell) =
            frame.pixel cell) ∧
        (transformFrame frame transform).pixels.Perm frame.pixels) ∧
      (transformFrame (transformFrame frame .rotate90) .rotate270 = frame ∧
        transformFrame (transformFrame frame .rotate270) .rotate90 = frame ∧
        transformFrame (transformFrame frame .mirrorHorizontal) .mirrorHorizontal = frame ∧
        transformFrame (transformFrame frame .mirrorVertical) .mirrorVertical = frame ∧
        transformFrame (transformFrame frame .rotate180) .rotate180 = frame ∧
        transformFrame (transformFrame frame .rotate90) .rotate90 =
          transformFrame frame .rotate180) ∧
      (∀ transform, (transformFrame frame transform).alphaBounds =
        frame.alphaBounds.map (moveBounds width height transform)) ∧
      (∀ transform way steps, ∀ cell ∈ cells width height, ∀ cell' ∈ cells width height,
        Apart steps way cell cell' →
          Apart steps (turnHeading transform way) (target frame transform cell)
            (target frame transform cell')) ∧
      ∀ transform dir,
        heading (transformDirection library dir transform) =
          turnHeading transform (heading dir) := by
  have hnormal : Normal frame := hframe ▸ normal_normalizeFrame hlength
  obtain ⟨hw, hh⟩ : frame.width = width ∧ frame.height = height := hframe ▸ ⟨rfl, rfl⟩
  subst hw hh
  refine ⟨fun transform cell hcell => inRange hnormal hsize transform hcell, ?_, ?_, ?_, ?_, ?_⟩
  · intro transform
    rw [target_eq, transformedSize_eq]
    exact ⟨move_bijOn, fun cell hcell => pixel_transformFrame hnormal transform hcell,
      perm_transformFrame hnormal transform⟩
  · exact ⟨transformFrame_inverse hnormal .rotate90, transformFrame_inverse hnormal .rotate270,
      transformFrame_inverse hnormal .mirrorHorizontal,
      transformFrame_inverse hnormal .mirrorVertical, transformFrame_inverse hnormal .rotate180,
      transformFrame_quarters hnormal⟩
  · exact fun transform => alphaBounds_transformFrame hnormal transform
  · intro transform way steps cell hcell cell' hcell' happart
    rw [target_eq]
    exact happart.move hcell hcell' transform
  · exact fun transform dir => heading_transformDirection hlibrary dir transform

theorem compass_spriteLibrary : Compass spriteLibrary :=
  ⟨by intro dir; cases dir <;> rfl, by intro dir; cases dir <;> rfl,
    by intro dir; cases dir <;> rfl⟩

-- Three cells side by side, one of them empty.
theorem geometricTransforms_act_row :
    (transformFrame (transformFrame (normalizeFrame 3 1 [black, Pixel.clear, white]) .rotate90)
      .rotate270 = normalizeFrame 3 1 [black, Pixel.clear, white]) ∧
      InRange (normalizeFrame 3 1 [black, Pixel.clear, white]) .rotate90 (2, 0) := by
  obtain ⟨hrange, -, ⟨hback, -⟩, -⟩ := @geometricTransforms_act _ _ compass_spriteLibrary 3 1
    [black, Pixel.clear, white] rfl (by decide) _ rfl
  exact ⟨hback, hrange .rotate90 (2, 0) (by decide)⟩

end Dmi
