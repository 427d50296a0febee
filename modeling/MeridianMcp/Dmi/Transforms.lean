import MeridianMcp.Dmi.Geometry

namespace Dmi

structure Encloses (bounds : AlphaBounds) (l : List (Nat × Nat)) : Prop where
  inside : ∀ cell ∈ l, (bounds.minX ≤ cell.1 ∧ cell.1 ≤ bounds.maxX) ∧
    bounds.minY ≤ cell.2 ∧ cell.2 ≤ bounds.maxY
  left : ∃ cell ∈ l, cell.1 = bounds.minX
  right : ∃ cell ∈ l, cell.1 = bounds.maxX
  top : ∃ cell ∈ l, cell.2 = bounds.minY
  bottom : ∃ cell ∈ l, cell.2 = bounds.maxY

-- The smallest box around the cells of a list, none where there are no cells.
def Boxed (bounds : Option AlphaBounds) (l : List (Nat × Nat)) : Prop :=
  match bounds with
  | none => l = []
  | some bounds => Encloses bounds l

theorem Encloses.le {bounds bounds' : AlphaBounds} {l l' : List (Nat × Nat)}
    (h : Encloses bounds l) (h' : Encloses bounds' l') (hsub : l ⊆ l') :
    (bounds'.minX ≤ bounds.minX ∧ bounds.maxX ≤ bounds'.maxX) ∧
      bounds'.minY ≤ bounds.minY ∧ bounds.maxY ≤ bounds'.maxY := by
  obtain ⟨left, hleft, hminX⟩ := h.left
  obtain ⟨right, hright, hmaxX⟩ := h.right
  obtain ⟨top, htop, hminY⟩ := h.top
  obtain ⟨bottom, hbottom, hmaxY⟩ := h.bottom
  have hl := h'.inside left (hsub hleft)
  have hr := h'.inside right (hsub hright)
  have ht := h'.inside top (hsub htop)
  have hb := h'.inside bottom (hsub hbottom)
  omega

theorem boxed_unique {bounds bounds' : Option AlphaBounds} {l l' : List (Nat × Nat)}
    (h : Boxed bounds l) (h' : Boxed bounds' l') (hmem : ∀ cell, cell ∈ l ↔ cell ∈ l') :
    bounds = bounds' := by
  cases bounds with
  | none =>
    cases bounds' with
    | none => rfl
    | some bounds' =>
      obtain ⟨cell, hcell, -⟩ := h'.left
      rw [← hmem, show l = [] from h] at hcell
      cases hcell
  | some bounds =>
    cases bounds' with
    | none =>
      obtain ⟨cell, hcell, -⟩ := h.left
      rw [hmem, show l' = [] from h'] at hcell
      cases hcell
    | some bounds' =>
      have hle := Encloses.le h h' fun cell hcell => (hmem cell).mp hcell
      have hge := Encloses.le h' h fun cell hcell => (hmem cell).mpr hcell
      obtain ⟨minX, minY, maxX, maxY⟩ := bounds
      obtain ⟨minX', minY', maxX', maxY'⟩ := bounds'
      simp only at hle hge
      simp only [Option.some.injEq, AlphaBounds.mk.injEq]
      omega

theorem exists_mem_snoc {α : Type} {p : α → Prop} {l : List α} {a : α} :
    (∃ b ∈ l ++ [a], p b) ↔ (∃ b ∈ l, p b) ∨ p a := by
  simp only [List.mem_append, List.mem_singleton, or_and_right, exists_or, exists_eq_left]

theorem boxed_widen {bounds : Option AlphaBounds} {l : List (Nat × Nat)} (h : Boxed bounds l)
    (x y : Nat) : Boxed (some (AlphaBounds.widen bounds x y)) (l ++ [(x, y)]) := by
  cases bounds with
  | none =>
    obtain rfl : l = [] := h
    constructor <;> simp [AlphaBounds.widen]
  | some bounds =>
    obtain ⟨hinside, hleft, hright, htop, hbottom⟩ := h
    refine ⟨?_, ?_, ?_, ?_, ?_⟩
    · intro cell hcell
      rw [List.mem_append, List.mem_singleton] at hcell
      simp only [AlphaBounds.widen]
      rcases hcell with hcell | rfl
      · have := hinside cell hcell
        omega
      · omega
    · rw [exists_mem_snoc]
      rcases le_total bounds.minX x with hle | hle
      · exact Or.inl (by simpa only [AlphaBounds.widen, Nat.min_eq_left hle] using hleft)
      · exact Or.inr (Nat.min_eq_right hle).symm
    · rw [exists_mem_snoc]
      rcases le_total x bounds.maxX with hle | hle
      · exact Or.inl (by simpa only [AlphaBounds.widen, Nat.max_eq_left hle] using hright)
      · exact Or.inr (Nat.max_eq_right hle).symm
    · rw [exists_mem_snoc]
      rcases le_total bounds.minY y with hle | hle
      · exact Or.inl (by simpa only [AlphaBounds.widen, Nat.min_eq_left hle] using htop)
      · exact Or.inr (Nat.min_eq_right hle).symm
    · rw [exists_mem_snoc]
      rcases le_total y bounds.maxY with hle | hle
      · exact Or.inl (by simpa only [AlphaBounds.widen, Nat.max_eq_left hle] using hbottom)
      · exact Or.inr (Nat.max_eq_right hle).symm

def opaqueCells (pixels : List Pixel) (width height : Nat) : List (Nat × Nat) :=
  (cells width height).filter fun cell => (pixelAt pixels (cell.2 * width + cell.1)).a ≠ 0

theorem boxed_foldl {pixels : List Pixel} {width : Nat} {l seen : List (Nat × Nat)}
    {start : Option AlphaBounds} (h : Boxed start seen) :
    Boxed (l.foldl (fun bounds cell =>
        if (pixelAt pixels (cell.2 * width + cell.1)).a ≠ 0 then
          some (AlphaBounds.widen bounds cell.1 cell.2)
        else bounds) start)
      (seen ++ l.filter fun cell => (pixelAt pixels (cell.2 * width + cell.1)).a ≠ 0) := by
  induction l generalizing start seen with
  | nil => simpa using h
  | cons cell l ih =>
    rw [List.foldl_cons]
    by_cases ha : (pixelAt pixels (cell.2 * width + cell.1)).a ≠ 0
    · rw [if_pos ha, List.filter_cons_of_pos (by simpa using ha), List.append_cons]
      exact ih (boxed_widen h cell.1 cell.2)
    · rw [if_neg ha, List.filter_cons_of_neg (by simpa using ha)]
      exact ih h

theorem pixelStats_boxed (pixels : List Pixel) (width height : Nat) :
    Boxed (pixelStats pixels width height) (opaqueCells pixels width height) := by
  have h := @boxed_foldl pixels width (cells width height) [] none rfl
  rwa [List.nil_append] at h

open MeridianMcp

def turnedSize (width height : Nat) : GeometricTransform → Nat × Nat
  | .rotate90 | .rotate270 => (height, width)
  | _ => (width, height)

-- Where a transform takes a cell of a grid, whatever the grid holds.
def move (width height : Nat) (transform : GeometricTransform) (cell : Nat × Nat) : Nat × Nat :=
  match transform with
  | .identity => cell
  | .mirrorHorizontal => (width - 1 - cell.1, cell.2)
  | .mirrorVertical => (cell.1, height - 1 - cell.2)
  | .rotate90 => (height - 1 - cell.2, cell.1)
  | .rotate180 => (width - 1 - cell.1, height - 1 - cell.2)
  | .rotate270 => (cell.2, width - 1 - cell.1)

def GeometricTransform.inverse : GeometricTransform → GeometricTransform
  | .rotate90 => .rotate270
  | .rotate270 => .rotate90
  | transform => transform

@[simp] theorem GeometricTransform.inverse_inverse (transform : GeometricTransform) :
    transform.inverse.inverse = transform := by
  cases transform <;> rfl

theorem GeometricTransform.inverse_eq_identity {transform : GeometricTransform} :
    transform.inverse = .identity ↔ transform = .identity := by
  cases transform <;> decide

theorem target_eq (frame : NormalizedFrame) (transform : GeometricTransform) :
    target frame transform = move frame.width frame.height transform := by
  cases transform <;> rfl

theorem transformedSize_eq (frame : NormalizedFrame) (transform : GeometricTransform) :
    transformedSize frame transform = turnedSize frame.width frame.height transform := by
  cases transform <;> rfl

section Grid

variable {width height : Nat} {transform : GeometricTransform} {cell : Nat × Nat}

theorem turnedSize_inverse : turnedSize (turnedSize width height transform).1
    (turnedSize width height transform).2 transform.inverse = (width, height) := by
  cases transform <;> rfl

theorem turnedSize_mul : (turnedSize width height transform).1 *
    (turnedSize width height transform).2 = width * height := by
  cases transform with
  | rotate90 => exact Nat.mul_comm ..
  | rotate270 => exact Nat.mul_comm ..
  | _ => rfl

theorem move_mem (h : cell ∈ cells width height) : move width height transform cell ∈
    cells (turnedSize width height transform).1 (turnedSize width height transform).2 := by
  obtain ⟨hx, hy⟩ := mem_cells.mp h
  rw [mem_cells]
  cases transform <;> simp only [move, turnedSize] <;> omega

theorem move_inverse (h : cell ∈ cells width height) :
    move (turnedSize width height transform).1 (turnedSize width height transform).2
      transform.inverse (move width height transform cell) = cell := by
  obtain ⟨x, y⟩ := cell
  obtain ⟨hx, hy⟩ := mem_cells.mp h
  cases transform <;> refine Prod.ext ?_ ?_ <;>
    simp only [move, turnedSize, GeometricTransform.inverse] <;> omega

theorem exists_move (h : cell ∈ cells (turnedSize width height transform).1
    (turnedSize width height transform).2) :
    ∃ source ∈ cells width height, move width height transform source = cell := by
  have hmem := @move_mem _ _ transform.inverse _ h
  have hback := @move_inverse _ _ transform.inverse _ h
  simp only [turnedSize_inverse, GeometricTransform.inverse_inverse] at hmem hback
  exact ⟨_, hmem, hback⟩

theorem move_bijOn : Set.BijOn (move width height transform) {cell | cell ∈ cells width height}
    {cell | cell ∈ cells (turnedSize width height transform).1
      (turnedSize width height transform).2} := by
  refine ⟨fun _ h => move_mem h, ?_, fun _ h => exists_move h⟩
  intro cell h cell' h' heq
  rw [← @move_inverse _ _ transform _ h, heq, move_inverse h']

theorem index_inj {x y x' y' : Nat} (hx : x < width) (hx' : x' < width)
    (h : y * width + x = y' * width + x') : x = x' ∧ y = y' := by
  have hmod := congrArg (· % width) h
  simp only [Nat.mul_add_mod_self_right, Nat.mod_eq_of_lt hx, Nat.mod_eq_of_lt hx'] at hmod
  subst hmod
  exact ⟨rfl, Nat.eq_of_mul_eq_mul_right (Nat.zero_lt_of_lt hx) (Nat.add_right_cancel h)⟩

theorem index_lt (h : cell ∈ cells width height) : cell.2 * width + cell.1 < width * height := by
  obtain ⟨hx, hy⟩ := mem_cells.mp h
  calc cell.2 * width + cell.1 < cell.2 * width + width := Nat.add_lt_add_left hx _
    _ = (cell.2 + 1) * width := (Nat.succ_mul ..).symm
    _ ≤ height * width := Nat.mul_le_mul_right _ hy
    _ = width * height := Nat.mul_comm ..

theorem getElem?_foldl_set {l : List (Nat × Nat)} {index : Nat × Nat → Nat}
    {value : Nat × Nat → Pixel} {out : List Pixel} {i : Nat} {pixel : Pixel}
    (hvalue : ∀ cell ∈ l, index cell = i → value cell = pixel)
    (h : out[i]? = some pixel ∨ i < out.length ∧ ∃ cell ∈ l, index cell = i) :
    (l.foldl (fun out cell => out.set (index cell) (value cell)) out)[i]? = some pixel := by
  induction l generalizing out with
  | nil => simpa using h
  | cons cell l ih =>
    have hi : i < out.length := by
      rcases h with h | ⟨h, -⟩
      · exact (List.getElem?_eq_some_iff.mp h).1
      · exact h
    rw [List.forall_mem_cons] at hvalue
    refine ih hvalue.2 ?_
    by_cases hcell : index cell = i
    · left
      dsimp only
      rw [hcell, hvalue.1 hcell, List.getElem?_set_self hi]
    · dsimp only
      rw [List.getElem?_set_ne hcell, List.length_set]
      refine h.imp_right fun ⟨_, other, hother, hindex⟩ => ⟨hi, other, ?_, hindex⟩
      refine List.mem_of_ne_of_mem ?_ hother
      rintro rfl
      exact hcell hindex

end Grid

def NormalizedFrame.pixel (frame : NormalizedFrame) (cell : Nat × Nat) : Pixel :=
  pixelAt frame.pixels (cell.2 * frame.width + cell.1)

-- What holds of every frame that is built from as many pixels as its size asks for.
structure Normal (frame : NormalizedFrame) : Prop where
  length : frame.pixels.length = frame.width * frame.height
  normalized : normalizeFrame frame.width frame.height frame.pixels = frame

theorem normal_normalizeFrame {width height : Nat} {pixels : List Pixel}
    (hlength : pixels.length = width * height) : Normal (normalizeFrame width height pixels) where
  length := by rw [normalizeFrame, List.length_map, hlength]
  normalized := normalizeFrame_normalized width height pixels

theorem pixelAt_normalize (pixels : List Pixel) (i : Nat) :
    pixelAt (pixels.map Pixel.normalize) i = (pixelAt pixels i).normalize := by
  rw [pixelAt, pixelAt, List.getElem?_map]
  cases pixels[i]? <;> rfl

theorem Normal.pixel_normalize {frame : NormalizedFrame} (h : Normal frame) (cell : Nat × Nat) :
    (frame.pixel cell).normalize = frame.pixel cell := by
  have hpixels := congrArg NormalizedFrame.pixels h.normalized
  rw [NormalizedFrame.pixel, ← pixelAt_normalize]
  exact congrArg (fun pixels => pixelAt pixels _) hpixels

theorem Normal.pixels_eq {frame : NormalizedFrame} (h : Normal frame) :
    frame.pixels = (cells frame.width frame.height).map frame.pixel := by
  have hindexed := congrArg (List.map (pixelAt frame.pixels))
    (cells_index frame.width frame.height)
  rw [List.map_map, Nat.mul_comm, ← h.length, map_pixelAt_range] at hindexed
  exact hindexed.symm

theorem Normal.ext {frame frame' : NormalizedFrame} (h : Normal frame) (h' : Normal frame')
    (hwidth : frame.width = frame'.width) (hheight : frame.height = frame'.height)
    (hpixel : ∀ cell ∈ cells frame.width frame.height, frame.pixel cell = frame'.pixel cell) :
    frame = frame' := by
  have hpixels : frame.pixels = frame'.pixels := by
    rw [h.pixels_eq, h'.pixels_eq, ← hwidth, ← hheight]
    exact List.map_congr_left hpixel
  rw [← h.normalized, ← h'.normalized, hwidth, hheight, hpixels]

theorem normal_transformFrame (frame : NormalizedFrame) (transform : GeometricTransform) :
    Normal (transformFrame frame transform) := by
  refine normal_normalizeFrame ?_
  rw [length_foldl_set, List.length_replicate]

theorem transformFrame_size (frame : NormalizedFrame) (transform : GeometricTransform) :
    ((transformFrame frame transform).width, (transformFrame frame transform).height) =
      turnedSize frame.width frame.height transform :=
  transformedSize_eq frame transform

theorem pixel_transformFrame {frame : NormalizedFrame} (h : Normal frame)
    (transform : GeometricTransform) {cell : Nat × Nat}
    (hcell : cell ∈ cells frame.width frame.height) :
    (transformFrame frame transform).pixel (move frame.width frame.height transform cell) =
      frame.pixel cell := by
  have hout : (((cells frame.width frame.height).foldl
      (fun out cell =>
        out.set ((target frame transform cell).2 * (transformedSize frame transform).1 +
          (target frame transform cell).1) (frame.pixel cell))
      (List.replicate ((transformedSize frame transform).1 * (transformedSize frame transform).2)
        Pixel.clear))[(move frame.width frame.height transform cell).2 *
          (transformedSize frame transform).1 +
          (move frame.width frame.height transform cell).1]?) = some (frame.pixel cell) := by
    rw [target_eq, transformedSize_eq]
    refine getElem?_foldl_set ?_ (Or.inr ⟨?_, cell, hcell, rfl⟩)
    · intro other hother hindex
      obtain ⟨hx, -⟩ := mem_cells.mp (@move_mem _ _ transform _ hcell)
      obtain ⟨hx', -⟩ := mem_cells.mp (@move_mem _ _ transform _ hother)
      obtain ⟨h1, h2⟩ := index_inj hx' hx hindex
      rw [move_bijOn.injOn hother hcell (Prod.ext h1 h2)]
    · rw [List.length_replicate]
      exact index_lt (move_mem hcell)
  change pixelAt (List.map Pixel.normalize _) _ = _
  rw [pixelAt_normalize]
  exact (congrArg (fun pixel => Pixel.normalize (Option.getD pixel Pixel.clear)) hout).trans
    (h.pixel_normalize cell)

end Dmi
