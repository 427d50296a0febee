import Mathlib.Data.Finset.Basic
import Mathlib.Data.Fintype.Card
import MeridianMcp.Dmi.Compare
import MeridianMcp.PrefixCode

namespace Dmi

open MeridianMcp Numbering

-- `to_le_bytes` of a `u32`.
def leBytes (n : Nat) : List UInt8 :=
  [UInt8.ofNat n, UInt8.ofNat (n / 2 ^ 8), UInt8.ofNat (n / 2 ^ 16), UInt8.ofNat (n / 2 ^ 24)]

structure Block (C : Type) where
  width : Nat
  height : Nat
  cells : List C
  deriving DecidableEq

def Block.bytes {C : Type} (encode : C → List UInt8) (block : Block C) : List UInt8 :=
  leBytes block.width ++ leBytes block.height ++ block.cells.flatMap encode

def croppedBytes {C : Type} (encode : C → List UInt8) : Option (Block C) → List UInt8
  | none => leBytes 0
  | some block => block.bytes encode

def Pixel.bytes (pixel : Pixel) : List UInt8 := [pixel.r, pixel.g, pixel.b, pixel.a]

def wholeBlock (frame : NormalizedFrame) : Block Pixel := ⟨frame.width, frame.height, frame.pixels⟩

def boundedCells (bounds : AlphaBounds) : List (Nat × Nat) :=
  (List.range' bounds.minY bounds.height).flatMap fun y =>
    (List.range' bounds.minX bounds.width).map fun x => (x, y)

def cropped (frame : NormalizedFrame) : Option (Block Pixel) :=
  frame.alphaBounds.map fun bounds =>
    ⟨bounds.width, bounds.height, (boundedCells bounds).map fun cell =>
      pixelAt frame.pixels (cell.2 * frame.width + cell.1)⟩

-- The colours met stand in the order of their first occurrence in the frames so far.
def paletteBlocks (seen : List Pixel) :
    List (Option (Block Pixel)) → List (Option (Block (Nat × UInt8)))
  | [] => []
  | none :: blocks => none :: paletteBlocks seen blocks
  | some block :: blocks =>
    some ⟨block.width, block.height, (numbers seen block.cells).zip (block.cells.map Pixel.a)⟩ ::
      paletteBlocks (block.cells.foldl enter seen) blocks

def paletteCell (cell : Nat × UInt8) : List UInt8 := leBytes cell.1 ++ [cell.2]

def perceptualSignature (frame : NormalizedFrame) : BitVec 64 :=
  (cells 8 8).foldl
    (fun signature sample =>
      let x := min (sample.1 * frame.width / 8) (frame.width - 1)
      let y := min (sample.2 * frame.height / 8) (frame.height - 1)
      let pixel := pixelAt frame.pixels (y * frame.width + x)
      let luminance := pixel.r.toNat * 54 + pixel.g.toNat * 183 + pixel.b.toNat * 19
      if pixel.a ≠ 0 ∧ luminance ≠ 0 then signature ||| (1#64 <<< (sample.2 * 8 + sample.1))
      else signature)
    0#64

def perceptual (frames : List NormalizedFrame) : BitVec 64 :=
  frames.foldl (fun signature frame => signature.rotateLeft 7 ^^^ perceptualSignature frame) 0#64

def segment (frames : List NormalizedFrame) (band : Nat) : BitVec 16 :=
  (perceptual frames >>> (band * 16)).setWidth 16

def exactStream (frames : List NormalizedFrame) : List UInt8 :=
  (frames.map wholeBlock).flatMap (Block.bytes Pixel.bytes)

def croppedStream (frames : List NormalizedFrame) : List UInt8 :=
  (frames.map cropped).flatMap (croppedBytes Pixel.bytes)

def paletteStream (frames : List NormalizedFrame) : List UInt8 :=
  (paletteBlocks [] (frames.map cropped)).flatMap (croppedBytes paletteCell)

-- The four kinds of text, which differ in what stands before the colon.
inductive Signature (D : Type) where
  | exact (digest : D)
  | cropped (digest : D)
  | palette (digest : D)
  | perceptual (band : Nat) (segment : BitVec 16)
  deriving DecidableEq

variable {M D P : Type} (library : IconLibrary M) (hash : List UInt8 → D)

def transformedFrames (icon : IconFile M) (state : State M) (transform : GeometricTransform) :
    Option (List NormalizedFrame) :=
  (views state.dirs (library.count state.frames)).mapM
    (transformedView library icon state transform)

def frameSignatures (frames : List NormalizedFrame) : List (Signature D) :=
  [.exact (hash (exactStream frames)), .cropped (hash (croppedStream frames)),
    .palette (hash (paletteStream frames))] ++
      (List.range 4).map fun band => .perceptual band (segment frames band)

-- Sorted and without repetition, the list is that of a set.
def stateCandidateSignatures [DecidableEq D] (asset : DecodedDmi P (IconFile M)) (state : State M) :
    Finset (Signature D) :=
  (transforms.flatMap fun transform =>
    ((transformedFrames library asset.icon state transform).map (frameSignatures hash)).getD
      []).toFinset

theorem mem_stateCandidateSignatures [DecidableEq D] {asset : DecodedDmi P (IconFile M)}
    {state : State M} {signature : Signature D} :
    signature ∈ stateCandidateSignatures library hash asset state ↔
      ∃ transform frames, transformedFrames library asset.icon state transform = some frames ∧
        signature ∈ frameSignatures hash frames := by
  rw [stateCandidateSignatures, List.mem_toFinset, List.mem_flatMap]
  constructor
  · rintro ⟨transform, -, hsignature⟩
    cases hframes : transformedFrames library asset.icon state transform with
    | none =>
      rw [hframes] at hsignature
      cases hsignature
    | some frames =>
      rw [hframes] at hsignature
      exact ⟨transform, frames, hframes, hsignature⟩
  · rintro ⟨transform, frames, hframes, hsignature⟩
    refine ⟨transform, by cases transform <;> decide, ?_⟩
    rw [hframes]
    exact hsignature

end Dmi

namespace Dmi

open MeridianMcp Numbering PrefixCode

def Block.recolour (f : Pixel → Pixel) (block : Block Pixel) : Block Pixel :=
  ⟨block.width, block.height, block.cells.map f⟩

def colours (blocks : List (Option (Block Pixel))) : List Pixel :=
  blocks.flatMap fun block => (block.map Block.cells).getD []

-- One renaming of the colours of all blocks together that keeps their alpha.
def Recolours (blocks blocks' : List (Option (Block Pixel))) : Prop :=
  ∃ f : Pixel → Pixel, Set.InjOn f {pixel | pixel ∈ colours blocks} ∧
    (∀ pixel ∈ colours blocks, (f pixel).a = pixel.a) ∧
    blocks' = blocks.map (Option.map (Block.recolour f))

theorem recolours_self (blocks : List (Option (Block Pixel))) : Recolours blocks blocks := by
  refine ⟨id, Set.injOn_id _, fun _ _ => rfl, ?_⟩
  have hid : Option.map (Block.recolour id) = id := by
    funext block
    cases block with
    | none => rfl
    | some block => simp [Block.recolour]
  rw [hid, List.map_id]

theorem colours_cons_none (blocks : List (Option (Block Pixel))) :
    colours (none :: blocks) = colours blocks := by
  rw [colours, List.flatMap_cons]
  rfl

theorem colours_cons_some (block : Block Pixel) (blocks : List (Option (Block Pixel))) :
    colours (some block :: blocks) = block.cells ++ colours blocks := by
  rw [colours, List.flatMap_cons]
  rfl

theorem paletteBlocks_map {f : Pixel → Pixel} {seen : List Pixel}
    {blocks : List (Option (Block Pixel))}
    (hf : Set.InjOn f {pixel | pixel ∈ seen ∨ pixel ∈ colours blocks})
    (halpha : ∀ pixel ∈ colours blocks, (f pixel).a = pixel.a) :
    paletteBlocks (seen.map f) (blocks.map (Option.map (Block.recolour f))) =
      paletteBlocks seen blocks := by
  induction blocks generalizing seen with
  | nil => rfl
  | cons block blocks ih =>
    cases block with
    | none =>
      rw [colours_cons_none] at hf halpha
      rw [List.map_cons, Option.map_none, paletteBlocks, paletteBlocks, ih hf halpha]
    | some block =>
      rw [colours_cons_some] at hf halpha
      have hhere : Set.InjOn f {pixel | pixel ∈ seen ∨ pixel ∈ block.cells} :=
        hf.mono fun pixel hpixel => hpixel.imp_right (List.mem_append_left _)
      have hrest : Set.InjOn f {pixel | pixel ∈ block.cells.foldl enter seen ∨
          pixel ∈ colours blocks} := by
        refine hf.mono fun pixel hpixel => ?_
        rcases hpixel with hpixel | hpixel
        · exact (mem_foldl_enter.mp hpixel).imp_right (List.mem_append_left _)
        · exact Or.inr (List.mem_append_right _ hpixel)
      have halphas : (block.cells.map f).map Pixel.a = block.cells.map Pixel.a := by
        rw [List.map_map]
        exact List.map_congr_left fun pixel hpixel =>
          halpha pixel (List.mem_append_left _ hpixel)
      rw [List.map_cons, Option.map_some, paletteBlocks, paletteBlocks, Block.recolour]
      dsimp only
      rw [numbers_map hhere, foldl_enter_map hhere, halphas,
        ih hrest fun pixel hpixel => halpha pixel (List.mem_append_right _ hpixel)]

-- Blocks of one shape, with the cells of a rectangle of that size.
def SameShape (block block' : Option (Block Pixel)) : Prop :=
  block.map (fun b => (b.width, b.height, b.cells.length)) =
    block'.map fun b => (b.width, b.height, b.cells.length)

theorem paletteBlocks_eq {seen seen' : List Pixel} {blocks blocks' : List (Option (Block Pixel))}
    (h : paletteBlocks seen blocks = paletteBlocks seen' blocks') :
    List.Forall₂ SameShape blocks blocks' ∧
      numbers seen (colours blocks) = numbers seen' (colours blocks') ∧
      (colours blocks).map Pixel.a = (colours blocks').map Pixel.a := by
  induction blocks generalizing seen seen' blocks' with
  | nil =>
    cases blocks' with
    | nil => exact ⟨.nil, rfl, rfl⟩
    | cons block' blocks' => cases block' <;> cases h
  | cons block blocks ih =>
    cases blocks' with
    | nil => cases block <;> cases h
    | cons block' blocks' =>
      cases block with
      | none =>
        cases block' with
        | none =>
          rw [colours_cons_none, colours_cons_none]
          obtain ⟨hshapes, hrest⟩ := ih (List.cons.inj h).2
          exact ⟨.cons rfl hshapes, hrest⟩
        | some block' => cases (List.cons.inj h).1
      | some block =>
        cases block' with
        | none => cases (List.cons.inj h).1
        | some block' =>
          obtain ⟨hblock, htail⟩ := List.cons.inj h
          obtain ⟨hwidth, hheight, hcells⟩ := Block.mk.inj (Option.some.inj hblock)
          obtain ⟨hshapes, hnumbers, halphas⟩ := ih htail
          have hfst := congrArg (List.map Prod.fst) hcells
          have hsnd := congrArg (List.map Prod.snd) hcells
          rw [List.map_fst_zip (by rw [length_numbers, List.length_map]),
            List.map_fst_zip (by rw [length_numbers, List.length_map])] at hfst
          rw [List.map_snd_zip (by rw [length_numbers, List.length_map]),
            List.map_snd_zip (by rw [length_numbers, List.length_map])] at hsnd
          have hlength : block.cells.length = block'.cells.length := by
            rw [← length_numbers seen, hfst, length_numbers]
          rw [colours_cons_some, colours_cons_some, numbers_append, numbers_append, List.map_append,
            List.map_append, hfst, hnumbers, hsnd, halphas]
          refine ⟨.cons ?_ hshapes, rfl, rfl⟩
          rw [SameShape, Option.map_some, Option.map_some, hwidth, hheight, hlength]

theorem map_recolour_of_colours {f : Pixel → Pixel} {blocks blocks' : List (Option (Block Pixel))}
    (hshapes : List.Forall₂ SameShape blocks blocks')
    (hcolours : colours blocks' = (colours blocks).map f) :
    blocks' = blocks.map (Option.map (Block.recolour f)) := by
  induction hshapes with
  | nil => rfl
  | @cons block block' blocks blocks' hshape _ ih =>
    cases block with
    | none =>
      cases block' with
      | none =>
        rw [colours_cons_none, colours_cons_none] at hcolours
        rw [List.map_cons, Option.map_none, ih hcolours]
      | some block' => cases hshape
    | some block =>
      cases block' with
      | none => cases hshape
      | some block' =>
        obtain ⟨hwidth, hsize⟩ := Prod.mk.inj (Option.some.inj hshape)
        obtain ⟨hheight, hlength⟩ := Prod.mk.inj hsize
        rw [colours_cons_some, colours_cons_some, List.map_append] at hcolours
        obtain ⟨hcells, hrest⟩ := List.append_inj hcolours
          (by rw [List.length_map]; exact hlength.symm)
        rw [List.map_cons, Option.map_some, Block.recolour, ih hrest, ← hcells, hwidth, hheight]

theorem paletteBlocks_eq_iff {blocks blocks' : List (Option (Block Pixel))} :
    paletteBlocks [] blocks = paletteBlocks [] blocks' ↔ Recolours blocks blocks' := by
  constructor
  · intro h
    obtain ⟨hshapes, hnumbers, halphas⟩ := paletteBlocks_eq h
    obtain ⟨f, hf, hcolours⟩ := numbers_eq_iff.mp hnumbers
    refine ⟨f, hf, ?_, map_recolour_of_colours hshapes hcolours⟩
    rw [hcolours, List.map_map] at halphas
    exact fun pixel hpixel => (List.map_inj_left.mp halphas pixel hpixel).symm
  · rintro ⟨f, hf, halpha, rfl⟩
    refine (@paletteBlocks_map f [] blocks (hf.mono fun pixel hpixel => ?_) halpha).symm
    exact hpixel.resolve_left List.not_mem_nil

theorem leBytes_inj {n m : Nat} (hn : n < 2 ^ 32) (hm : m < 2 ^ 32) (h : leBytes n = leBytes m) :
    n = m := by
  simp only [leBytes, List.cons.injEq, and_true, ← UInt8.toNat_inj, UInt8.toNat_ofNat'] at h
  omega

structure Block.Sized {C : Type} (valid : C → Prop) (block : Block C) : Prop where
  width_lt : block.width < 2 ^ 32
  height_lt : block.height < 2 ^ 32
  length : block.cells.length = block.width * block.height
  cells : ∀ cell ∈ block.cells, valid cell

theorem block_prefixFree {C : Type} {valid : C → Prop} {encode : C → List UInt8}
    (hfree : PrefixFree valid encode) : PrefixFree (Block.Sized valid) (Block.bytes encode) := by
  intro a b s t ha hb h
  simp only [Block.bytes, List.append_assoc] at h
  obtain ⟨hwidth, h⟩ := List.append_inj h rfl
  obtain ⟨hheight, h⟩ := List.append_inj h rfl
  have hwidth := leBytes_inj ha.width_lt hb.width_lt hwidth
  have hheight := leBytes_inj ha.height_lt hb.height_lt hheight
  have hlength : a.cells.length = b.cells.length := by rw [ha.length, hb.length, hwidth, hheight]
  obtain ⟨hcells, hrest⟩ := hfree.flatMap hlength ha.cells hb.cells h
  refine ⟨?_, hrest⟩
  obtain ⟨_, _, _⟩ := a
  obtain ⟨_, _, _⟩ := b
  cases hwidth
  cases hheight
  cases hcells
  rfl

def CroppedSized {C : Type} (valid : C → Prop) (block : Option (Block C)) : Prop :=
  ∀ b ∈ block, b.Sized valid ∧ 0 < b.width

theorem cropped_prefixFree {C : Type} {valid : C → Prop} {encode : C → List UInt8}
    (hfree : PrefixFree valid encode) : PrefixFree (CroppedSized valid) (croppedBytes encode) := by
  have hempty : ∀ (b : Block C) (s t : List UInt8), b.Sized valid → 0 < b.width →
      leBytes 0 ++ s ≠ b.bytes encode ++ t := by
    intro b s t hb hpos h
    simp only [Block.bytes, List.append_assoc] at h
    obtain ⟨hwidth, -⟩ := List.append_inj h rfl
    exact hpos.ne (leBytes_inj (by decide) hb.width_lt hwidth)
  intro a b s t ha hb h
  cases a with
  | none =>
    cases b with
    | none => exact ⟨rfl, (List.append_inj h rfl).2⟩
    | some b => exact absurd h (hempty b s t (hb b rfl).1 (hb b rfl).2)
  | some a =>
    cases b with
    | none => exact absurd h.symm (hempty a t s (ha a rfl).1 (ha a rfl).2)
    | some b =>
      obtain ⟨rfl, hrest⟩ := block_prefixFree hfree a b s t (ha a rfl).1 (hb b rfl).1 h
      exact ⟨rfl, hrest⟩

theorem pixel_prefixFree : PrefixFree (fun _ => True) Pixel.bytes := by
  refine PrefixFree.of_length (n := 4) (fun _ => rfl) ?_
  rintro ⟨⟩ ⟨⟩ - - h
  simpa [Pixel.bytes] using h

theorem paletteCell_prefixFree : PrefixFree (fun cell => cell.1 < 2 ^ 32) paletteCell := by
  refine PrefixFree.of_length (n := 5) (fun _ => rfl) ?_
  rintro ⟨n, a⟩ ⟨m, b⟩ hn hm h
  obtain ⟨hnumber, halpha⟩ := List.append_inj h rfl
  exact Prod.ext (leBytes_inj hn hm hnumber) (List.singleton_inj.mp halpha)

def Pixel.toFin (pixel : Pixel) : Fin (2 ^ 32) :=
  ⟨pixel.r.toNat * 2 ^ 24 + pixel.g.toNat * 2 ^ 16 + pixel.b.toNat * 2 ^ 8 + pixel.a.toNat, by
    have hr := pixel.r.toNat_lt
    have hg := pixel.g.toNat_lt
    have hb := pixel.b.toNat_lt
    have ha := pixel.a.toNat_lt
    omega⟩

theorem Pixel.toFin_inj {p q : Pixel} (h : p.toFin = q.toFin) : p = q := by
  have hval := congrArg Fin.val h
  obtain ⟨pr, pg, pb, pa⟩ := p
  obtain ⟨qr, qg, qb, qa⟩ := q
  simp only [Pixel.toFin] at hval
  have := pr.toNat_lt
  have := pg.toNat_lt
  have := pb.toNat_lt
  have := pa.toNat_lt
  have := qr.toNat_lt
  have := qg.toNat_lt
  have := qb.toNat_lt
  have := qa.toNat_lt
  simp only [Pixel.mk.injEq, ← UInt8.toNat_inj]
  omega

-- There are no more colours than numbers of 32 bits.
theorem length_le_of_nodup {seen : List Pixel} (h : seen.Nodup) : seen.length ≤ 2 ^ 32 := by
  have hmap : (seen.map Pixel.toFin).Nodup := h.map fun _ _ => Pixel.toFin_inj
  simpa using hmap.length_le_card

theorem paletteBlocks_sized {seen : List Pixel} {blocks : List (Option (Block Pixel))}
    (hseen : seen.Nodup) (hsized : ∀ block ∈ blocks, CroppedSized (fun _ => True) block) :
    ∀ block ∈ paletteBlocks seen blocks, CroppedSized (fun cell => cell.1 < 2 ^ 32) block := by
  induction blocks generalizing seen with
  | nil => exact fun block hblock => absurd hblock List.not_mem_nil
  | cons first blocks ih =>
    have hrest := fun block hblock => hsized block (List.mem_cons_of_mem _ hblock)
    cases first with
    | none =>
      intro block hblock
      rcases List.mem_cons.mp hblock with rfl | hblock
      · exact fun b hb => nomatch hb
      · exact ih hseen hrest block hblock
    | some first =>
      obtain ⟨hfirst, hpos⟩ := hsized _ (List.mem_cons_self ..) first rfl
      have hnodup := nodup_foldl_enter first.cells hseen
      intro block hblock
      rcases List.mem_cons.mp hblock with rfl | hblock
      · intro b hb
        obtain rfl := Option.some.inj hb
        refine ⟨⟨hfirst.width_lt, hfirst.height_lt, ?_, ?_⟩, hpos⟩
        · rw [List.length_zip, length_numbers, List.length_map, Nat.min_self]
          exact hfirst.length
        · intro cell hcell
          exact (lt_of_mem_numbers (List.of_mem_zip hcell).1).trans_le (length_le_of_nodup hnodup)
      · exact ih hnodup hrest block hblock

theorem length_paletteBlocks (seen : List Pixel) (blocks : List (Option (Block Pixel))) :
    (paletteBlocks seen blocks).length = blocks.length := by
  induction blocks generalizing seen with
  | nil => rfl
  | cons block blocks ih => cases block <;> rw [paletteBlocks, List.length_cons, ih, List.length_cons]

end Dmi
