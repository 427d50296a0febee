import MeridianMcp.DmiDecode.Metadata
import MeridianMcp.Dmi.Transforms
import MeridianMcp.Dmi.DuplicateScan

namespace DmiDecode

open MeridianMcp Dmi

section Sheet

variable {width height cellWidth cellHeight index : Nat}

-- The column of a cell, then its row, in a sheet whose last columns and rows may be too narrow.
theorem column_fits (hcell : cellWidth ≤ width) (hpos : 0 < cellWidth) :
    index % (width / cellWidth) * cellWidth + cellWidth ≤ width := by
  have hcolumn : index % (width / cellWidth) < width / cellWidth :=
    Nat.mod_lt _ (Nat.div_pos hcell hpos)
  calc index % (width / cellWidth) * cellWidth + cellWidth
      = (index % (width / cellWidth) + 1) * cellWidth := (Nat.succ_mul ..).symm
    _ ≤ width / cellWidth * cellWidth := Nat.mul_le_mul_right _ hcolumn
    _ ≤ width := Nat.div_mul_le_self ..

theorem row_fits (h : index < width / cellWidth * (height / cellHeight)) :
    index / (width / cellWidth) * cellHeight + cellHeight ≤ height := by
  have hrow : index / (width / cellWidth) < height / cellHeight := Nat.div_lt_of_lt_mul h
  calc index / (width / cellWidth) * cellHeight + cellHeight
      = (index / (width / cellWidth) + 1) * cellHeight := (Nat.succ_mul ..).symm
    _ ≤ height / cellHeight * cellHeight := Nat.mul_le_mul_right _ hrow
    _ ≤ height := Nat.div_mul_le_self ..

end Sheet

variable {M : Type} (library : IconLibrary M)

-- The pinned parser's layout: a state starts where the states before it end, and each of its
-- frames has one cell for each direction.
def PinnedLayout (states : List (State M)) : Prop :=
  ∀ before state after, states = before ++ state :: after →
    ∀ dir ∈ orderedDirs state.dirs, ∀ frame < library.count state.frames,
      ∃ place < state.dirs.count, library.indexOfFrame state dir frame =
        framesOf library.count before + frame * state.dirs.count + place

-- The reads of one frame: neither division is by zero, the rectangle lies in the sheet, every
-- pixel index is inside the array and nothing that is computed leaves 32 bits.
structure Accessible (icon : IconFile M) (imageHeight index : Nat) : Prop where
  index_lt : index < 2 ^ 32
  cellWidth_ne : icon.cellWidth ≠ 0
  count_ne : icon.imageWidth / icon.cellWidth ≠ 0
  right_le : (icon.rectOfIndex index).1 + (icon.rectOfIndex index).2.2.1 ≤ icon.imageWidth
  bottom_le : (icon.rectOfIndex index).2.1 + (icon.rectOfIndex index).2.2.2 ≤ imageHeight
  width_lt : icon.imageWidth < 2 ^ 32
  height_lt : imageHeight < 2 ^ 32
  area_lt : (icon.rectOfIndex index).2.2.1 * (icon.rectOfIndex index).2.2.2 < 2 ^ 32
  read : ∀ cell ∈ cells (icon.rectOfIndex index).2.2.1 (icon.rectOfIndex index).2.2.2,
    ((icon.rectOfIndex index).2.1 + cell.2) * icon.imageWidth +
      ((icon.rectOfIndex index).1 + cell.1) < icon.data.length
  read_lt : ∀ cell ∈ cells (icon.rectOfIndex index).2.2.1 (icon.rectOfIndex index).2.2.2,
    ((icon.rectOfIndex index).2.1 + cell.2) * icon.imageWidth +
      ((icon.rectOfIndex index).1 + cell.1) < 2 ^ 32

variable {library} {icon : IconFile M} {imageHeight : Nat} {limits : ServerLimits}

theorem accessible_of_lt
    (hvalid : Valid library.count limits ⟨icon.cellWidth, icon.cellHeight, icon.states⟩
      icon.imageWidth imageHeight)
    (hdata : icon.data.length = icon.imageWidth * imageHeight)
    (hsmall : icon.imageWidth * imageHeight < 2 ^ 32) {index : Nat}
    (hindex : index < framesOf library.count icon.states) :
    Accessible icon imageHeight index := by
  obtain ⟨hwidth, hheight, hwidth_le, hheight_le, -, hcells, -⟩ := id hvalid
  dsimp only at hwidth hheight hwidth_le hheight_le hcells
  have hright := @column_fits _ _ index hwidth_le hwidth
  have hbottom := row_fits (hindex.trans_le hcells)
  have himage : 0 < icon.imageWidth ∧ 0 < imageHeight :=
    ⟨hwidth.trans_le hwidth_le, hheight.trans_le hheight_le⟩
  have hread : ∀ cell ∈ cells icon.cellWidth icon.cellHeight,
      (index / (icon.imageWidth / icon.cellWidth) * icon.cellHeight + cell.2) * icon.imageWidth +
        (index % (icon.imageWidth / icon.cellWidth) * icon.cellWidth + cell.1) <
          icon.imageWidth * imageHeight := by
    intro cell hcell
    obtain ⟨hx, hy⟩ := mem_cells.mp hcell
    have hplace : (index % (icon.imageWidth / icon.cellWidth) * icon.cellWidth + cell.1,
        index / (icon.imageWidth / icon.cellWidth) * icon.cellHeight + cell.2) ∈
          cells icon.imageWidth imageHeight := mem_cells.mpr ⟨by omega, by omega⟩
    exact index_lt hplace
  refine ⟨hindex.trans hvalid.frames_lt, hwidth.ne', (Nat.div_pos hwidth_le hwidth).ne', hright,
    hbottom, ?_, ?_, ?_, ?_, ?_⟩
  · exact (Nat.le_mul_of_pos_right _ himage.2).trans_lt hsmall
  · exact (Nat.le_mul_of_pos_left _ himage.1).trans_lt hsmall
  · exact (Nat.mul_le_mul hwidth_le hheight_le).trans_lt hsmall
  · rw [hdata]
    exact hread
  · exact fun cell hcell => (hread cell hcell).trans hsmall

theorem index_lt_framesOf {states : List (State M)} (hlayout : PinnedLayout library states)
    {state : State M} (hstate : state ∈ states) {dir : Dir} (hdir : dir ∈ orderedDirs state.dirs)
    {frame : Nat} (hframe : frame < library.count state.frames) :
    library.indexOfFrame state dir frame < framesOf library.count states := by
  obtain ⟨before, after, rfl⟩ := List.append_of_mem hstate
  obtain ⟨place, hplace, hindex⟩ := hlayout before state after rfl dir hdir frame hframe
  have hown : frame * state.dirs.count + place < state.dirs.count * library.count state.frames :=
    calc frame * state.dirs.count + place < frame * state.dirs.count + state.dirs.count :=
          Nat.add_lt_add_left hplace _
      _ = (frame + 1) * state.dirs.count := (Nat.succ_mul ..).symm
      _ ≤ library.count state.frames * state.dirs.count := Nat.mul_le_mul_right _ hframe
      _ = state.dirs.count * library.count state.frames := Nat.mul_comm ..
  have htotal : framesOf library.count (before ++ state :: after) =
      framesOf library.count before + (state.dirs.count * library.count state.frames +
        framesOf library.count after) := by
    simp only [framesOf, List.map_append, List.sum_append, List.map_cons, List.sum_cons]
  rw [hindex, htotal]
  omega

theorem frames_accessible
    (hvalid : validateMetadata library.count limits ⟨icon.cellWidth, icon.cellHeight, icon.states⟩
      icon.imageWidth imageHeight = .ok ())
    (hdata : icon.data.length = icon.imageWidth * imageHeight)
    (hsmall : icon.imageWidth * imageHeight < 2 ^ 32)
    (hlayout : PinnedLayout library icon.states) :
    ∀ state ∈ icon.states, ∀ dir ∈ orderedDirs state.dirs,
      ∀ frame < library.count state.frames,
        Accessible icon imageHeight (library.indexOfFrame state dir frame) := by
  intro state hstate dir hdir frame hframe
  exact accessible_of_lt (validateMetadata_ok library.count |>.mp hvalid) hdata hsmall
    (index_lt_framesOf hlayout hstate hdir hframe)

def sheetLimits : ServerLimits := ⟨100, 100, 100, 10, 10⟩

theorem lampSheet_accessible :
    Accessible (lampAsset 1 black white).icon 1
      (spriteLibrary.indexOfFrame lamp .south 1) := by
  refine @frames_accessible _ spriteLibrary _ _ sheetLimits (by decide) rfl (by decide) ?_ lamp (List.mem_singleton.mpr rfl) .south (by decide) 1 (by decide)
  intro before state after hstates dir hdir frame hframe
  obtain ⟨rfl, hrest⟩ := List.append_eq_singleton_iff.mp hstates.symm |>.resolve_right
    fun h => List.cons_ne_nil _ _ h.2
  obtain ⟨rfl, -⟩ := List.cons.inj hrest
  exact ⟨0, by decide, by simp [framesOf, spriteLibrary, lamp, Dirs.count]⟩

end DmiDecode
