import MeridianMcp.Dmi.Palette
import Mathlib.Algebra.Order.Ring.Rat
import Mathlib.Tactic.Ring

namespace Dmi

open MeridianMcp Numbering

-- A box inside a grid with its sides in order.
structure Inside (bounds : AlphaBounds) (width height : Nat) : Prop where
  columns : bounds.minX ≤ bounds.maxX
  rows : bounds.minY ≤ bounds.maxY
  right : bounds.maxX < width
  bottom : bounds.maxY < height

theorem Normal.inside {frame : NormalizedFrame} (h : Normal frame) {bounds : AlphaBounds}
    (hbounds : frame.alphaBounds = some bounds) : Inside bounds frame.width frame.height := by
  have hbox := h.bounds
  rw [hbounds] at hbox
  have hcells : ∀ cell ∈ (cells frame.width frame.height).filter fun cell =>
      (frame.pixel cell).a ≠ 0, cell.1 < frame.width ∧ cell.2 < frame.height :=
    fun cell hcell => mem_cells.mp (List.mem_of_mem_filter hcell)
  obtain ⟨right, hright, hmaxX⟩ := hbox.right
  obtain ⟨bottom, hbottom, hmaxY⟩ := hbox.bottom
  refine ⟨?_, ?_, ?_, ?_⟩
  · exact (hbox.inside right hright).1.1.trans (hbox.inside right hright).1.2
  · exact (hbox.inside right hright).2.1.trans (hbox.inside right hright).2.2
  · rw [← hmaxX]
    exact (hcells right hright).1
  · rw [← hmaxY]
    exact (hcells bottom hbottom).2

section Box

variable {width height : Nat} {bounds : AlphaBounds}

theorem size_moveBounds (h : Inside bounds width height) (transform : GeometricTransform) :
    (moveBounds width height transform bounds).size =
      turnedSize bounds.width bounds.height transform := by
  obtain ⟨hx, hy, hright, hbottom⟩ := h
  cases transform <;> refine Prod.ext ?_ ?_ <;>
    simp only [AlphaBounds.size, moveBounds, move, turnedSize, AlphaBounds.width,
      AlphaBounds.height] <;> omega

theorem move_corner (h : Inside bounds width height) (transform : GeometricTransform)
    {cell : Nat × Nat} (hcell : cell ∈ cells bounds.width bounds.height) :
    move width height transform (bounds.minX + cell.1, bounds.minY + cell.2) =
      ((moveBounds width height transform bounds).minX +
          (move bounds.width bounds.height transform cell).1,
        (moveBounds width height transform bounds).minY +
          (move bounds.width bounds.height transform cell).2) := by
  obtain ⟨hx, hy, hright, hbottom⟩ := h
  obtain ⟨hcx, hcy⟩ := mem_cells.mp hcell
  simp only [AlphaBounds.width] at hcx
  simp only [AlphaBounds.height] at hcy
  cases transform <;> refine Prod.ext ?_ ?_ <;>
    simp only [moveBounds, move, AlphaBounds.width, AlphaBounds.height] <;> omega

end Box

theorem boundedPixel_transformFrame {frame : NormalizedFrame} (h : Normal frame)
    {bounds : AlphaBounds} (hbounds : frame.alphaBounds = some bounds)
    (transform : GeometricTransform) {cell : Nat × Nat}
    (hcell : cell ∈ cells bounds.width bounds.height) :
    boundedPixel (transformFrame frame transform)
        (moveBounds frame.width frame.height transform bounds)
        (move bounds.width bounds.height transform cell) = boundedPixel frame bounds cell := by
  have hinside := h.inside hbounds
  obtain ⟨hx, hy⟩ := mem_cells.mp hcell
  have hplace : (bounds.minX + cell.1, bounds.minY + cell.2) ∈
      cells frame.width frame.height := by
    obtain ⟨hcolumns, hrows, hright, hbottom⟩ := hinside
    simp only [AlphaBounds.width] at hx
    simp only [AlphaBounds.height] at hy
    rw [mem_cells]
    omega
  have hpixel := pixel_transformFrame h transform hplace
  rw [move_corner hinside transform hcell] at hpixel
  exact hpixel

section Facing

variable {left right : NormalizedFrame} (hleft : Normal left) (hright : Normal right)
  {lb rb : AlphaBounds} (hlb : left.alphaBounds = some lb) (hrb : right.alphaBounds = some rb)
  {transform : GeometricTransform}
  (hsize : turnedSize rb.width rb.height transform = (lb.width, lb.height))

include hleft hright hlb hrb hsize in
-- The comparison with the transformed right frame meets the same pixels as the one of the right
-- frame with the left frame transformed back, in another order and with the sides exchanged.
theorem facing_perm :
    (facing left (transformFrame right transform) lb
        (moveBounds right.width right.height transform rb)).Perm
      ((facing right (transformFrame left transform.inverse) rb
        (moveBounds left.width left.height transform.inverse lb)).map Prod.swap) := by
  have hwidth : (turnedSize rb.width rb.height transform).1 = lb.width := congrArg Prod.fst hsize
  have hheight : (turnedSize rb.width rb.height transform).2 = lb.height := congrArg Prod.snd hsize
  have hcells := @perm_move rb.width rb.height transform
  rw [hwidth, hheight] at hcells
  refine (hcells.map _).trans (List.Perm.of_eq ?_)
  rw [List.map_map, facing, List.map_map]
  refine List.map_congr_left fun cell hcell => ?_
  have hmoved := @move_mem _ _ transform _ hcell
  have hback := @move_inverse _ _ transform _ hcell
  rw [hwidth, hheight] at hmoved hback
  have hpixel := boundedPixel_transformFrame hleft hlb transform.inverse hmoved
  rw [hback] at hpixel
  simp only [Function.comp_apply, Prod.swap_prod_mk, Prod.mk.injEq]
  exact ⟨hpixel.symm, boundedPixel_transformFrame hright hrb transform hcell⟩

end Facing

theorem absDiff_comm (a b : UInt8) : absDiff a b = absDiff b a := Nat.add_comm ..

theorem pairDelta_swap (pair : Pixel × Pixel) : pairDelta pair.swap = pairDelta pair := by
  simp only [pairDelta, channelDeltas, Prod.fst_swap, Prod.snd_swap, absDiff_comm pair.2.r,
    absDiff_comm pair.2.g, absDiff_comm pair.2.b, absDiff_comm pair.2.a]

section Tallies

variable {left right left' right' : NormalizedFrame} {lb rb lb' rb' : AlphaBounds}
  (hfacing : (facing left right lb rb).Perm ((facing left' right' lb' rb').map Prod.swap))

include hfacing

theorem changed_of_facing :
    (tallyOf left right lb rb).changed = 0 ↔ (tallyOf left' right' lb' rb').changed = 0 := by
  rw [changed_tallyOf, changed_tallyOf]
  constructor
  · intro h pair hpair
    exact (h pair.swap (hfacing.mem_iff.mpr (List.mem_map_of_mem hpair))).symm
  · intro h pair hpair
    obtain ⟨other, hother, rfl⟩ := List.mem_map.mp (hfacing.mem_iff.mp hpair)
    exact (h other hother).symm

theorem paletteEqual_of_facing :
    (tallyOf left right lb rb).paletteEqual = (tallyOf left' right' lb' rb').paletteEqual := by
  rw [Bool.eq_iff_iff, paletteEqual_tallyOf, paletteEqual_tallyOf]
  constructor
  · rintro ⟨hone, halpha⟩
    have hback := (hone.perm hfacing.symm).flip
    rw [List.map_map, Prod.swap_swap_eq, List.map_id] at hback
    refine ⟨hback, fun pair hpair => ?_⟩
    exact (halpha pair.swap (hfacing.mem_iff.mpr (List.mem_map_of_mem hpair))).symm
  · rintro ⟨hone, halpha⟩
    refine ⟨hone.flip.perm hfacing, fun pair hpair => ?_⟩
    obtain ⟨other, hother, rfl⟩ := List.mem_map.mp (hfacing.mem_iff.mp hpair)
    exact (halpha other hother).symm

theorem delta_of_facing :
    (tallyOf left right lb rb).delta = (tallyOf left' right' lb' rb').delta := by
  rw [tallyOf_eq, tallyOf_eq, delta_compareAll, delta_compareAll, (hfacing.map pairDelta).sum_eq,
    List.map_map]
  congr 2
  exact List.map_congr_left fun pair _ => pairDelta_swap pair

end Tallies

-- What the search of the transforms uses of a comparison.
def FrameComparison.result {S : Type} (comparison : FrameComparison S) : MatchKind × S :=
  (comparison.kind, comparison.similarity)

theorem compareAligned_different {S : Type} (similarity : Similarity S)
    {left right : NormalizedFrame} {lb rb : AlphaBounds} (hleft : left.alphaBounds = some lb)
    (hright : right.alphaBounds = some rb) (hsize : lb.size ≠ rb.size)
    (transform : GeometricTransform) :
    (compareAligned similarity left right transform).result = (.different, similarity.zero) := by
  have hne : lb.width ≠ rb.width ∨ lb.height ≠ rb.height := by
    rw [← not_and_or]
    exact fun h => hsize (Prod.ext h.1 h.2)
  rw [compareAligned, hleft, hright]
  dsimp only
  rw [if_pos hne]
  rfl

theorem size_symm {left right : NormalizedFrame} {lb rb : AlphaBounds}
    (hlb : Inside lb left.width left.height) (hrb : Inside rb right.width right.height)
    (transform : GeometricTransform) :
    (moveBounds right.width right.height transform rb).size = lb.size ↔
      (moveBounds left.width left.height transform.inverse lb).size = rb.size := by
  rw [size_moveBounds hlb, size_moveBounds hrb]
  cases transform <;>
    simp only [turnedSize, GeometricTransform.inverse, AlphaBounds.size, Prod.mk.injEq] <;> omega

theorem ofDelta_symm {lb rb : AlphaBounds} {transform : GeometricTransform}
    (hsize : turnedSize rb.width rb.height transform = (lb.width, lb.height)) (delta : Nat) :
    exactSimilarity.ofDelta delta lb.width lb.height =
      exactSimilarity.ofDelta delta rb.width rb.height := by
  have harea := @turnedSize_mul rb.width rb.height transform
  rw [hsize] at harea
  have harea : ((lb.width : ℚ) * lb.height) = rb.width * rb.height := by exact_mod_cast harea
  change 1 - (delta : ℚ) / (lb.width * lb.height * 4 * 255) =
    1 - (delta : ℚ) / (rb.width * rb.height * 4 * 255)
  rw [harea]

theorem kind_symm {left right : NormalizedFrame} (hleft : Normal left) (hright : Normal right)
    {lb rb lb' rb' : AlphaBounds} {transform : GeometricTransform}
    (hlb' : lb' = moveBounds left.width left.height transform.inverse lb)
    (hrb' : rb' = moveBounds right.width right.height transform rb)
    (hlb : left.alphaBounds = some lb) (hrb : right.alphaBounds = some rb)
    (htransform : transform = .identity) :
    (lb.minX ≠ rb'.minX ∨ lb.minY ≠ rb'.minY ∨
        left.width ≠ (transformFrame right transform).width ∨
        left.height ≠ (transformFrame right transform).height) ↔
      (rb.minX ≠ lb'.minX ∨ rb.minY ≠ lb'.minY ∨
        right.width ≠ (transformFrame left transform.inverse).width ∨
        right.height ≠ (transformFrame left transform.inverse).height) := by
  subst htransform
  have hl := hleft.inside hlb
  have hr := hright.inside hrb
  have hlb : lb' = lb := by
    rw [hlb']
    simp only [moveBounds, GeometricTransform.inverse, move, Nat.min_eq_left hl.columns,
      Nat.min_eq_left hl.rows, Nat.max_eq_right hl.columns, Nat.max_eq_right hl.rows]
  have hrb : rb' = rb := by
    rw [hrb']
    simp only [moveBounds, move, Nat.min_eq_left hr.columns,
      Nat.min_eq_left hr.rows, Nat.max_eq_right hr.columns, Nat.max_eq_right hr.rows]
  have hidentity : GeometricTransform.identity.inverse = .identity := rfl
  rw [hlb, hrb, hright.transform_identity, hidentity, hleft.transform_identity]
  omega

theorem compareAligned_symm {left right : NormalizedFrame} (hleft : Normal left)
    (hright : Normal right) (transform : GeometricTransform) :
    (compareAligned exactSimilarity left (transformFrame right transform) transform).result =
      (compareAligned exactSimilarity right (transformFrame left transform.inverse)
        transform.inverse).result := by
  have hl' := alphaBounds_transformFrame hleft transform.inverse
  have hr' := alphaBounds_transformFrame hright transform
  cases hlb : left.alphaBounds with
  | none =>
    rw [hlb, Option.map_none] at hl'
    cases hrb : right.alphaBounds with
    | none =>
      rw [hrb, Option.map_none] at hr'
      simp only [compareAligned, hlb, hrb, hl', hr', FrameComparison.result]
    | some rb =>
      rw [hrb, Option.map_some] at hr'
      simp only [compareAligned, hlb, hrb, hl', hr', FrameComparison.result]
  | some lb =>
    rw [hlb, Option.map_some] at hl'
    cases hrb : right.alphaBounds with
    | none =>
      rw [hrb, Option.map_none] at hr'
      simp only [compareAligned, hlb, hrb, hl', hr', FrameComparison.result]
    | some rb =>
      rw [hrb, Option.map_some] at hr'
      have hsymm := size_symm (hleft.inside hlb) (hright.inside hrb) transform
      by_cases hsize : (moveBounds right.width right.height transform rb).size = lb.size
      · have hsize' := hsymm.mp hsize
        obtain ⟨hwidth, hheight⟩ := Prod.mk.inj hsize.symm
        obtain ⟨hwidth', hheight'⟩ := Prod.mk.inj hsize'.symm
        have hturned : turnedSize rb.width rb.height transform = (lb.width, lb.height) :=
          (size_moveBounds (hright.inside hrb) transform).symm.trans hsize
        have hfacing := facing_perm hleft hright hlb hrb hturned
        have hkind := @kind_symm left right hleft hright lb rb _ _ transform rfl rfl hlb hrb
        rw [compareAligned_of_bounds _ hlb hr' hwidth hheight,
          compareAligned_of_bounds _ hrb hl' hwidth' hheight']
        simp only [FrameComparison.result, changed_of_facing hfacing,
          paletteEqual_of_facing hfacing, delta_of_facing hfacing, ofDelta_symm hturned,
          ne_eq, GeometricTransform.inverse_eq_identity]
        refine Prod.ext ?_ rfl
        dsimp only
        by_cases htransform : transform = .identity
        · simp only [ne_eq] at hkind
          rw [if_neg (not_not.mpr htransform), if_neg (not_not.mpr htransform)]
          simp only [hkind htransform]
        · simp only [htransform, not_false_eq_true, if_true]
      · rw [compareAligned_different _ hlb hr' (Ne.symm hsize),
          compareAligned_different _ hrb hl' (Ne.symm (mt hsymm.mpr hsize))]

end Dmi
