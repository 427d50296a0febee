import Mathlib.Algebra.Ring.Nat
import MeridianMcp.Dmi.GroupAction

namespace Dmi

open MeridianMcp Numbering

-- What the loop of a comparison has counted at its end.
def tallyOf (left right : NormalizedFrame) (lb rb : AlphaBounds) : Tally :=
  (cells lb.width lb.height).foldl
    (fun tally cell => tally.compare (boundedPixel left lb cell) (boundedPixel right rb cell))
    Tally.start

-- The pixels that the loop compares, those of the left crop with those of the right.
def facing (left right : NormalizedFrame) (lb rb : AlphaBounds) : List (Pixel × Pixel) :=
  (cells lb.width lb.height).map fun cell =>
    (boundedPixel left lb cell, boundedPixel right rb cell)

def Tally.compareAll (tally : Tally) (pairs : List (Pixel × Pixel)) : Tally :=
  pairs.foldl (fun tally pair => tally.compare pair.1 pair.2) tally

theorem tallyOf_eq (left right : NormalizedFrame) (lb rb : AlphaBounds) :
    tallyOf left right lb rb = Tally.start.compareAll (facing left right lb rb) := by
  rw [tallyOf, Tally.compareAll, facing, List.foldl_map]

@[simp] theorem Tally.compareAll_cons (tally : Tally) (pair : Pixel × Pixel)
    (pairs : List (Pixel × Pixel)) :
    tally.compareAll (pair :: pairs) = (tally.compare pair.1 pair.2).compareAll pairs := rfl

def pairDelta (pair : Pixel × Pixel) : Nat := (channelDeltas pair.1 pair.2).sum

theorem delta_compareAll (tally : Tally) (pairs : List (Pixel × Pixel)) :
    (tally.compareAll pairs).delta = tally.delta + (pairs.map pairDelta).sum := by
  induction pairs generalizing tally with
  | nil => rfl
  | cons pair pairs ih =>
    have hstep : (tally.compare pair.1 pair.2).delta = tally.delta + pairDelta pair := by
      simp only [Tally.compare, pairDelta, channelDeltas, List.foldl_cons, List.foldl_nil,
        List.sum_cons, List.sum_nil]
      omega
    rw [Tally.compareAll_cons, ih, hstep, List.map_cons, List.sum_cons, Nat.add_assoc]

theorem changed_compareAll (tally : Tally) (pairs : List (Pixel × Pixel)) :
    (tally.compareAll pairs).changed = 0 ↔
      tally.changed = 0 ∧ ∀ pair ∈ pairs, pair.1 = pair.2 :=
  changed_foldl

theorem paletteEqual_compareAll (tally : Tally) (pairs : List (Pixel × Pixel)) :
    (tally.compareAll pairs).paletteEqual = true ↔
      tally.paletteEqual = true ∧
        numbers tally.paletteLeft (pairs.map Prod.fst) =
          numbers tally.paletteRight (pairs.map Prod.snd) ∧
        ∀ pair ∈ pairs, pair.1.a = pair.2.a := by
  induction pairs generalizing tally with
  | nil => simp [Tally.compareAll, numbers]
  | cons pair pairs ih =>
    rw [Tally.compareAll_cons, ih, List.map_cons, List.map_cons, numbers, numbers,
      List.cons.injEq, List.forall_mem_cons]
    simp only [Tally.compare, Bool.and_eq_true, decide_eq_true_eq]
    constructor
    · rintro ⟨⟨⟨hbefore, hnumber⟩, halpha⟩, hnumbers, halphas⟩
      exact ⟨hbefore, ⟨hnumber, hnumbers⟩, halpha, halphas⟩
    · rintro ⟨hbefore, ⟨hnumber, hnumbers⟩, halpha, halphas⟩
      exact ⟨⟨⟨hbefore, hnumber⟩, halpha⟩, hnumbers, halphas⟩

theorem changed_tallyOf (left right : NormalizedFrame) (lb rb : AlphaBounds) :
    (tallyOf left right lb rb).changed = 0 ↔
      ∀ pair ∈ facing left right lb rb, pair.1 = pair.2 := by
  rw [tallyOf_eq, changed_compareAll]
  exact and_iff_right rfl

theorem paletteEqual_tallyOf (left right : NormalizedFrame) (lb rb : AlphaBounds) :
    (tallyOf left right lb rb).paletteEqual = true ↔
      OneToOne (facing left right lb rb) ∧
        ∀ pair ∈ facing left right lb rb, pair.1.a = pair.2.a := by
  rw [tallyOf_eq, paletteEqual_compareAll, ← numbers_eq_iff_oneToOne]
  exact and_iff_right rfl

-- The comparison of two crops of one size, in terms of what the loop has counted.
theorem compareAligned_of_bounds {S : Type} (similarity : Similarity S)
    {left right : NormalizedFrame} {lb rb : AlphaBounds} (hleft : left.alphaBounds = some lb)
    (hright : right.alphaBounds = some rb) (hwidth : lb.width = rb.width)
    (hheight : lb.height = rb.height) (transform : GeometricTransform) :
    compareAligned similarity left right transform =
      ⟨if (tallyOf left right lb rb).changed = 0 then
          if transform ≠ .identity then .transformed
          else if lb.minX ≠ rb.minX ∨ lb.minY ≠ rb.minY ∨ left.width ≠ right.width ∨
            left.height ≠ right.height then .padded
          else .exact
        else if (tallyOf left right lb rb).paletteEqual then .palette
        else .different,
        transform, offsetOf lb rb,
        similarity.ofDelta (tallyOf left right lb rb).delta lb.width lb.height,
        (tallyOf left right lb rb).changed, (tallyOf left right lb rb).maxDelta⟩ := by
  have hsize : ¬(lb.width ≠ rb.width ∨ lb.height ≠ rb.height) := by
    rw [not_or, not_not, not_not]
    exact ⟨hwidth, hheight⟩
  rw [compareAligned, hleft, hright]
  dsimp only
  rw [if_neg hsize]
  rfl

-- A map of the colours that keeps their alpha and takes the left crop to the right crop.
structure Carries (f : Pixel → Pixel) (left right : NormalizedFrame) (lb rb : AlphaBounds) :
    Prop where
  alpha : ∀ cell ∈ cells lb.width lb.height,
    (f (boundedPixel left lb cell)).a = (boundedPixel left lb cell).a
  pixels : ∀ cell ∈ cells lb.width lb.height,
    boundedPixel right rb cell = f (boundedPixel left lb cell)

theorem exists_carries_iff {left right : NormalizedFrame} {lb rb : AlphaBounds} :
    (tallyOf left right lb rb).paletteEqual = true ↔
      ∃ f, Set.InjOn f {pixel | ∃ cell ∈ cells lb.width lb.height,
        boundedPixel left lb cell = pixel} ∧ Carries f left right lb rb := by
  have hfst : (facing left right lb rb).map Prod.fst =
      (cells lb.width lb.height).map (boundedPixel left lb) := by
    rw [facing, List.map_map]
    rfl
  have hsnd : (facing left right lb rb).map Prod.snd =
      (cells lb.width lb.height).map (boundedPixel right rb) := by
    rw [facing, List.map_map]
    rfl
  rw [paletteEqual_tallyOf, ← numbers_eq_iff_oneToOne, numbers_eq_iff, hfst, hsnd, facing,
    List.forall_mem_map]
  simp only [List.mem_map, List.map_map, List.map_inj_left, Function.comp_apply]
  constructor
  · rintro ⟨⟨f, hf, hpixels⟩, halpha⟩
    exact ⟨f, hf, fun cell hcell => by rw [← hpixels cell hcell, halpha cell hcell], hpixels⟩
  · rintro ⟨f, hf, halpha, hpixels⟩
    exact ⟨⟨f, hf, hpixels⟩, fun cell hcell => by rw [hpixels cell hcell, halpha cell hcell]⟩

theorem exists_permutation_iff {left right : NormalizedFrame} {lb rb : AlphaBounds} :
    (∃ f, Set.InjOn f {pixel | ∃ cell ∈ cells lb.width lb.height,
        boundedPixel left lb cell = pixel} ∧ Carries f left right lb rb) ↔
      ∃ f : Pixel → Pixel, Function.Injective f ∧ (∀ pixel, (f pixel).a = pixel.a) ∧
        Carries f left right lb rb := by
  constructor
  · rintro ⟨f, hf, hcarries⟩
    have hfinite : {pixel | ∃ cell ∈ cells lb.width lb.height,
        boundedPixel left lb cell = pixel}.Finite := by
      simpa only [List.mem_map] using
        ((cells lb.width lb.height).map (boundedPixel left lb)).finite_toSet
    have hkeeps : ∀ pixel ∈ {pixel | ∃ cell ∈ cells lb.width lb.height,
        boundedPixel left lb cell = pixel}, (f pixel).a = pixel.a := by
      rintro _ ⟨cell, hcell, rfl⟩
      exact hcarries.alpha cell hcell
    obtain ⟨e, halpha, he⟩ := exists_perm_extending Pixel.a hfinite hf hkeeps
    refine ⟨e, e.injective, halpha, fun cell _ => halpha _, fun cell hcell => ?_⟩
    rw [he _ ⟨cell, hcell, rfl⟩]
    exact hcarries.pixels cell hcell
  · rintro ⟨f, hf, -, hcarries⟩
    exact ⟨f, hf.injOn, hcarries⟩

theorem cropped_eq_iff {left right : NormalizedFrame} {lb rb : AlphaBounds}
    (hleft : left.alphaBounds = some lb) (hright : right.alphaBounds = some rb)
    (hwidth : lb.width = rb.width) (hheight : lb.height = rb.height) :
    cropped left = cropped right ↔ ∀ pair ∈ facing left right lb rb, pair.1 = pair.2 := by
  rw [cropped_eq, cropped_eq, hleft, hright, Option.map_some, Option.map_some, ← hwidth, ← hheight,
    Option.some.injEq, Block.mk.injEq, facing, List.forall_mem_map, ← List.map_inj_left]
  simp only [true_and]

theorem kind_eq_palette {S : Type} (similarity : Similarity S) {left right : NormalizedFrame}
    {lb rb : AlphaBounds} (hleft : left.alphaBounds = some lb) (hright : right.alphaBounds = some rb)
    (hwidth : lb.width = rb.width) (hheight : lb.height = rb.height)
    (transform : GeometricTransform) :
    (compareAligned similarity left right transform).kind = .palette ↔
      (compareAligned similarity left right transform).changedPixels ≠ 0 ∧
        (tallyOf left right lb rb).paletteEqual = true := by
  rw [compareAligned_of_bounds similarity hleft hright hwidth hheight]
  dsimp only
  split
  · rename_i hchanged
    simp only [hchanged]
    split
    · simp
    · split <;> simp
  · rename_i hchanged
    split <;> simp [*]

def AlphaBounds.size (bounds : AlphaBounds) : Nat × Nat := (bounds.width, bounds.height)

theorem palette_equality {S : Type} (similarity : Similarity S) {left right : NormalizedFrame}
    (hsize : left.alphaBounds.map AlphaBounds.size = right.alphaBounds.map AlphaBounds.size)
    (transform : GeometricTransform) :
    ((compareAligned similarity left right transform).changedPixels = 0 ↔
        cropped left = cropped right) ∧
      ∀ lb ∈ left.alphaBounds, ∀ rb ∈ right.alphaBounds,
        ((tallyOf left right lb rb).paletteEqual = true ↔
          ∃ f : Pixel → Pixel, Function.Injective f ∧ (∀ pixel, (f pixel).a = pixel.a) ∧
            Carries f left right lb rb) ∧
        ((tallyOf left right lb rb).paletteEqual = true ↔
          ∃ f, Set.InjOn f {pixel | ∃ cell ∈ cells lb.width lb.height,
            boundedPixel left lb cell = pixel} ∧ Carries f left right lb rb) ∧
        ((compareAligned similarity left right transform).kind = .palette ↔
          (compareAligned similarity left right transform).changedPixels ≠ 0 ∧
            (tallyOf left right lb rb).paletteEqual = true) := by
  cases hleft : left.alphaBounds with
  | none =>
    rw [hleft] at hsize
    have hright : right.alphaBounds = none := Option.map_eq_none_iff.mp hsize.symm
    refine ⟨?_, fun lb hlb => nomatch hlb⟩
    rw [compareAligned, cropped_eq, cropped_eq, hleft, hright]
    exact iff_of_true rfl rfl
  | some lb =>
    rw [hleft] at hsize
    obtain ⟨rb, hright, hrb⟩ := Option.map_eq_some_iff.mp hsize.symm
    obtain ⟨hwidth, hheight⟩ := Prod.mk.inj hrb.symm
    constructor
    · rw [compareAligned_of_bounds similarity hleft hright hwidth hheight,
        cropped_eq_iff hleft hright hwidth hheight]
      exact changed_tallyOf left right lb rb
    · rintro _ ⟨⟩ rb' hrb'
      obtain rfl : rb = rb' := Option.some.inj (hright.symm.trans hrb')
      exact ⟨exists_carries_iff.trans exists_permutation_iff, exists_carries_iff,
        kind_eq_palette similarity hleft hright hwidth hheight transform⟩

-- Black on white against white on black.
theorem palette_equality_swapped :
    (tallyOf (normalizeFrame 2 1 [black, white]) (normalizeFrame 2 1 [white, black])
      ⟨0, 0, 1, 0⟩ ⟨0, 0, 1, 0⟩).paletteEqual = true ∧
    ∃ f : Pixel → Pixel, Function.Injective f ∧ (∀ pixel, (f pixel).a = pixel.a) ∧
      Carries f (normalizeFrame 2 1 [black, white]) (normalizeFrame 2 1 [white, black])
        ⟨0, 0, 1, 0⟩ ⟨0, 0, 1, 0⟩ := by
  have hbounds : (normalizeFrame 2 1 [black, white]).alphaBounds = some ⟨0, 0, 1, 0⟩ ∧
      (normalizeFrame 2 1 [white, black]).alphaBounds = some ⟨0, 0, 1, 0⟩ := by decide
  have hequal : (tallyOf (normalizeFrame 2 1 [black, white]) (normalizeFrame 2 1 [white, black])
      ⟨0, 0, 1, 0⟩ ⟨0, 0, 1, 0⟩).paletteEqual = true := by decide
  have hiff := ((palette_equality exactSimilarity (by rw [hbounds.1, hbounds.2]) .identity).2
    _ hbounds.1 _ hbounds.2).1
  exact ⟨hequal, hiff.mp hequal⟩

end Dmi
