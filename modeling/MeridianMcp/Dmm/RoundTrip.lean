import Mathlib.Data.List.Nodup
import MeridianMcp.Dmm.Dictionary

namespace Dmm

open MeridianMcp Effects Scanning

variable {C E : Type}

section Grid

open GridState

theorem digit_byte {c : Char} (h : c.isDigit = true) :
    utf8 [c] = [c.toUInt8] ∧ c.toUInt8 ≠ ','.toUInt8 ∧ c.toUInt8 ≠ ')'.toUInt8 ∧
      toDigit c.toUInt8 = some (c.toNat - '0'.toNat) := by
  have hdigits : ∀ n < 10, utf8 [Char.ofNat (48 + n)] = [(Char.ofNat (48 + n)).toUInt8] ∧
      (Char.ofNat (48 + n)).toUInt8 ≠ ','.toUInt8 ∧ (Char.ofNat (48 + n)).toUInt8 ≠ ')'.toUInt8 ∧
      toDigit (Char.ofNat (48 + n)).toUInt8 = some ((Char.ofNat (48 + n)).toNat - '0'.toNat) := by
    decide
  obtain ⟨hlow, hhigh⟩ : 48 ≤ c.toNat ∧ c.toNat ≤ 57 := Char.isDigit_iff_toNat.mp h
  have hdigit := hdigits (c.toNat - 48) (by omega)
  rwa [Nat.add_sub_cancel' hlow, Char.ofNat_toNat] at hdigit

-- By induction on the digits; what has been read of a number is never more than the number.
theorem reads_number {digits : List Char} {g : GridState} (hcoords : g.inCoordBlock = true) {keyLength : Nat}
    (hdigits : ∀ c ∈ digits, c.isDigit = true) (hbound : Nat.ofDigitChars 10 digits g.currNum < usizeBound) :
    Consumes (GridState.step keyLength : GridState → UInt8 → Except (ReadError E) (Next GridState)) g (utf8 digits)
      { g with currNum := Nat.ofDigitChars 10 digits g.currNum } := by
  induction digits generalizing g with
  | nil => exact .nil g
  | cons c digits ih =>
    obtain ⟨hbyte, hcomma, hparen, hdigit⟩ := digit_byte (hdigits c List.mem_cons_self)
    rw [Nat.ofDigitChars_cons] at hbound ⊢
    have hle : 10 * g.currNum + (c.toNat - '0'.toNat) ≤
        Nat.ofDigitChars 10 digits (10 * g.currNum + (c.toNat - '0'.toNat)) := by
      rw [Nat.ofDigitChars_eq_ofDigitChars_zero]
      exact (Nat.le_mul_of_pos_left _ (Nat.pow_pos (by decide))).trans (Nat.le_add_right _ _)
    have hstep : (GridState.step keyLength g c.toUInt8 : Except (ReadError E) (Next GridState)) =
        .ok (.going { g with currNum := 10 * g.currNum + (c.toNat - '0'.toNat) }) := by
      rw [GridState.step, if_pos hcoords, inCoords, if_neg hcomma, if_neg hparen, hdigit]
      dsimp only
      rw [if_pos (hle.trans_lt hbound)]
      rfl
    rw [show c :: digits = [c] ++ digits from rfl, utf8_append, hbyte]
    exact Consumes.cons hstep (ih hcoords (fun c' hmem => hdigits c' (List.mem_cons_of_mem c hmem)) hbound)

theorem reads_decimal {g : GridState} (hcoords : g.inCoordBlock = true) (hnum : g.currNum = 0) {keyLength n : Nat}
    (hbound : n < usizeBound) :
    Consumes (GridState.step keyLength : GridState → UInt8 → Except (ReadError E) (Next GridState)) g (decimal n)
      { g with currNum := n } := by
  have hvalue : Nat.ofDigitChars 10 (Nat.toDigits 10 n) g.currNum = n := by
    rw [hnum, Nat.ofDigitChars_ten_toDigits]
  have hread : Consumes (GridState.step keyLength : GridState → UInt8 → Except (ReadError E) (Next GridState)) g
      (utf8 (Nat.toDigits 10 n)) { g with currNum := Nat.ofDigitChars 10 (Nat.toDigits 10 n) g.currNum } :=
    reads_number hcoords (fun c hc => Nat.isDigit_of_mem_toDigits (by decide) le_rfl hc) (by rwa [hvalue])
  rwa [hvalue] at hread

-- Where the reader is between two columns.
structure Sheet where
  cells : Cells
  currX : Nat
  currY : Nat
  currZ : Nat
  maxX : Nat
  maxY : Nat
  maxZ : Nat
  baseX : Nat

namespace Sheet

def blank : Sheet := ⟨fun _ => none, 0, 0, 0, 0, 0, 0, 0⟩

def between (s : Sheet) : GridState :=
  { new with
    grid := s.cells
    currX := s.currX
    currY := s.currY
    currZ := s.currZ
    maxX := s.maxX
    maxY := s.maxY
    maxZ := s.maxZ
    baseX := s.baseX
    inCoordBlock := false }

def coords (s : Sheet) (coord : Coord) (num : Nat) : GridState :=
  { s.between with inCoordBlock := true, readingCoord := coord, currNum := num }

def row (s : Sheet) : GridState := { s.between with inMapString := true, adjustY := false }

def tile (s : Sheet) (key : Key) (length : Nat) : GridState := { s.row with currKey := key, currKeyLength := length }

def place (s : Sheet) (key : Key) : Sheet :=
  { s with
    cells := Function.update s.cells (s.currX, s.currY, s.currZ) (some key)
    maxX := max s.maxX s.currX
    currX := s.currX + 1 }

-- After so many digits of a tile's key.
def reached (s : Sheet) (keyLength : Nat) (key : Key) (length : Nat) : GridState :=
  if length = keyLength then (s.place key).row else s.tile key length

def next (s : Sheet) : Sheet := { s with currX := s.baseX, currY := s.currY + 1 }

-- The head of a column leads to its first row.
def head (s : Sheet) (x z : Nat) : Sheet :=
  { s with
    currX := x
    currY := 1
    currZ := z
    maxX := max s.maxX x
    maxY := max s.maxY 1
    maxZ := max s.maxZ z
    baseX := x }

-- After so many rows of a column.
def filled (s : Sheet) (f : Nat → Key) (x z n : Nat) : Sheet :=
  { s.head x z with
    cells := fun c => if c.1 = x ∧ c.2.2 = z ∧ 1 ≤ c.2.1 ∧ c.2.1 ≤ n then some (f (c.2.1 - 1)) else s.cells c
    currY := n + 1 }

end Sheet

variable {keyLength : Nat} {s : Sheet} {key : Key} {shown : Bytes}

theorem step_tile {before after : Key} {length digit : Nat} (hshort : keyLength < 256) (hdigit : digit < 52)
    (hadvance : advanceKey before digit = some after) (hlength : length < keyLength)
    (hfree : s.cells (s.currX, s.currY, s.currZ) = none) (hx : s.currX + 1 < usizeBound) :
    (GridState.step keyLength (s.tile before length) (base52.getD digit 0) : Except (ReadError E) (Next GridState)) =
      .ok (.going (s.reached keyLength after (length + 1))) := by
  have hplain := base52_plain digit hdigit
  simp only [List.map_cons, List.map_nil, List.mem_cons, List.not_mem_nil, or_false, not_or] at hplain
  obtain ⟨hfeed, hreturn, -, -, hquote⟩ := hplain
  change Except.map Next.going ((s.tile before length).inString keyLength (base52.getD digit 0)) = _
  have hcurrent : (s.tile before length).currKey = before := rfl
  have hcount : (s.tile before length).currKeyLength + 1 < 256 := by
    change length + 1 < 256
    omega
  rw [inString, if_neg hquote, if_neg hreturn, if_neg hfeed, base52_reverse_digit digit hdigit]
  dsimp only
  rw [hcurrent, hadvance]
  dsimp only
  rw [if_pos hcount]
  have hplace : (placeKey keyLength (s.tile after (length + 1)) : Except (ReadError E) GridState) =
      .ok (s.reached keyLength after (length + 1)) := by
    unfold placeKey Sheet.reached
    split
    · rename_i hcomplete
      have hempty : (s.tile after (length + 1)).grid ((s.tile after (length + 1)).currX,
          (s.tile after (length + 1)).currY, (s.tile after (length + 1)).currZ) = none := hfree
      have hroom : (s.tile after (length + 1)).currX + 1 < usizeBound := hx
      rw [hempty]
      dsimp only
      rw [if_pos hroom]
      exact (congrArg Except.ok (if_pos hcomplete)).symm
    · rename_i hopen
      exact (congrArg Except.ok (if_neg hopen)).symm
  exact congrArg (Except.map Next.going) hplace

-- A row of a column is the key of its tile.
theorem reads_row (h : key.display keyLength = some shown) (hfree : s.cells (s.currX, s.currY, s.currZ) = none)
    (hx : s.currX + 1 < usizeBound) (hy : s.currY + 1 < usizeBound) :
    Consumes (GridState.step keyLength : GridState → UInt8 → Except (ReadError E) (Next GridState)) s.row
      (shown ++ utf8 ['\n']) (s.place key).next.row := by
  obtain ⟨rfl, hpositive, hshort, hdone⟩ := display_some h
  have hdigits : Consumes (GridState.step keyLength : GridState → UInt8 → Except (ReadError E) (Next GridState))
      (s.reached keyLength .first 0) (key.digits keyLength (52 ^ (keyLength - 1)))
      (s.reached keyLength key (0 + keyLength)) := by
    refine reads_digits ?_ hdone.symm (Nat.zero_add keyLength).le
    intro before after length digit hdigit hadvance hlength
    rw [Sheet.reached, if_neg hlength.ne]
    exact step_tile hshort hdigit hadvance hlength hfree hx
  rw [Sheet.reached, Sheet.reached, if_neg hpositive.ne, if_pos (Nat.zero_add keyLength)] at hdigits
  refine hdigits.append ?_
  have hstep : (GridState.step keyLength (s.place key).row '\n'.toUInt8 : Except (ReadError E) (Next GridState)) =
      Except.map Next.going
        (if s.currY + 1 < usizeBound then .ok (s.place key).next.row else .error .panicked) := rfl
  rw [if_pos hy] at hstep
  exact Consumes.one hstep

theorem filled_zero (f : Nat → Key) (x z : Nat) : s.filled f x z 0 = s.head x z := by
  have hcells : (s.filled f x z 0).cells = s.cells := by
    funext c
    exact if_neg (by omega)
  change { s.head x z with cells := (s.filled f x z 0).cells } = s.head x z
  rw [hcells]
  rfl

theorem filled_succ (f : Nat → Key) (x z n : Nat) :
    ((s.filled f x z n).place (f n)).next = s.filled f x z (n + 1) := by
  have hmax : max (max s.maxX x) x = max s.maxX x := by omega
  unfold Sheet.next Sheet.place
  simp only [Sheet.filled, Sheet.head, hmax]
  congr 1
  funext c
  obtain ⟨a, b, d⟩ := c
  by_cases hlast : (a, b, d) = (x, n + 1, z)
  · obtain ⟨rfl, rfl, rfl⟩ : a = x ∧ b = n + 1 ∧ d = z := by simpa using hlast
    simp
  · rw [Function.update_of_ne hlast]
    have hne : ¬ (a = x ∧ b = n + 1 ∧ d = z) := by simpa using hlast
    have hiff : (a = x ∧ d = z ∧ 1 ≤ b ∧ b ≤ n) ↔ (a = x ∧ d = z ∧ 1 ≤ b ∧ b ≤ n + 1) := by omega
    simp only [hiff]

-- By induction on the rows from the first one.
theorem reads_rows (f : Nat → Key) {x z n : Nat} {keys : List Bytes}
    (hkeys : (List.range n).mapM (fun y => (f y).display keyLength) = some keys)
    (hfree : ∀ y, s.cells (x, y + 1, z) = none) (hx : x + 1 < usizeBound) (hn : n + 1 < usizeBound) :
    Consumes (GridState.step keyLength : GridState → UInt8 → Except (ReadError E) (Next GridState)) (s.head x z).row
      (keys.flatMap fun key => key ++ utf8 ['\n']) (s.filled f x z n).row := by
  induction n generalizing keys with
  | zero =>
    cases hkeys
    rw [filled_zero]
    exact .nil _
  | succ n ih =>
    rw [List.range_succ, List.mapM_append] at hkeys
    obtain ⟨before, hbefore, hrest⟩ := Option.bind_eq_some_iff.mp hkeys
    obtain ⟨last, hlast, hall⟩ := Option.bind_eq_some_iff.mp hrest
    obtain rfl : before ++ last = keys := Option.some.inj hall
    rw [List.mapM_cons] at hlast
    obtain ⟨shown, hshown, hone⟩ := Option.bind_eq_some_iff.mp hlast
    obtain rfl : [shown] = last := Option.some.inj hone
    have hcell : (s.filled f x z n).cells (x, n + 1, z) = none := by
      unfold Sheet.filled
      dsimp only
      rw [if_neg (by omega)]
      exact hfree n
    have hrow : Consumes
        (GridState.step keyLength : GridState → UInt8 → Except (ReadError E) (Next GridState)) (s.filled f x z n).row
        (shown ++ utf8 ['\n']) ((s.filled f x z n).place (f n)).next.row := reads_row hshown hcell hx hn
    rw [filled_succ] at hrow
    rw [List.flatMap_append]
    refine (ih hbefore (by omega)).append ?_
    rwa [List.flatMap_cons, List.flatMap_nil, List.append_nil]

theorem reads_head {x z : Nat} (hx : x < usizeBound) (hz : z < usizeBound) :
    Consumes (GridState.step keyLength : GridState → UInt8 → Except (ReadError E) (Next GridState)) s.between
      (utf8 ['('] ++ decimal x ++ utf8 [',', '1', ','] ++ decimal z ++ utf8 [')', ' ', '=', ' ', '{', '"', '\n'])
      (s.head x z).row := by
  have hopen : Consumes (GridState.step keyLength : GridState → UInt8 → Except (ReadError E) (Next GridState))
      s.between (utf8 ['(']) (s.coords .x 0) := Consumes.one rfl
  have hone : utf8 [',', '1', ','] = [','.toUInt8, '1'.toUInt8, ','.toUInt8] := by decide
  have hclose : utf8 [')', ' ', '=', ' ', '{', '"', '\n'] =
      [')'.toUInt8, ' '.toUInt8, '='.toUInt8, ' '.toUInt8, '{'.toUInt8, '"'.toUInt8, '\n'.toUInt8] := by decide
  have hfirst : Consumes (GridState.step keyLength : GridState → UInt8 → Except (ReadError E) (Next GridState))
      (s.coords .x 0) (decimal x) (s.coords .x x) := reads_decimal rfl rfl hx
  have hsecond : Consumes (GridState.step keyLength : GridState → UInt8 → Except (ReadError E) (Next GridState))
      (s.coords .x x) (utf8 [',', '1', ','])
      ({ s.head x z with currZ := s.currZ, maxZ := s.maxZ }.coords .z 0) := by
    rw [hone]
    exact fun _ => rfl
  have hthird : Consumes (GridState.step keyLength : GridState → UInt8 → Except (ReadError E) (Next GridState))
      ({ s.head x z with currZ := s.currZ, maxZ := s.maxZ }.coords .z 0) (decimal z)
      ({ s.head x z with currZ := s.currZ, maxZ := s.maxZ }.coords .z z) := reads_decimal rfl rfl hz
  refine (((hopen.append hfirst).append hsecond).append hthird).append ?_
  rw [hclose]
  exact fun _ => rfl

-- What has been read of a grid after these columns of it.
structure Recorded (grid : Grid) (done : List (Nat × Nat)) (s : Sheet) : Prop where
  cells : ∀ z y x, s.cells (x + 1, y + 1, z + 1) =
    if (z, x) ∈ done ∧ y < grid.dimY then some (grid.at z y x) else none
  boundX : s.maxX ≤ grid.dimX
  boundZ : s.maxZ ≤ grid.dimZ
  boundY : s.maxY ≤ 1
  reached : ∀ column ∈ done, column.1 < s.maxZ ∧ column.2 < s.maxX ∧ s.currY = grid.dimY

structure Bounded (grid : Grid) : Prop where
  dimZ : 0 < grid.dimZ ∧ grid.dimZ + 1 < usizeBound
  dimY : 0 < grid.dimY ∧ grid.dimY + 1 < usizeBound
  dimX : 0 < grid.dimX ∧ grid.dimX + 1 < usizeBound

variable {grid : Grid} {done left : List (Nat × Nat)}

theorem Recorded.blank (grid : Grid) : Recorded grid [] .blank where
  cells _ _ _ := (if_neg fun h => List.not_mem_nil h.1).symm
  boundX := Nat.zero_le _
  boundZ := Nat.zero_le _
  boundY := Nat.zero_le _
  reached _ h := absurd h List.not_mem_nil

-- The closing quote takes back the last line break.
def Sheet.column (s : Sheet) (grid : Grid) (z x : Nat) : Sheet :=
  { s.filled (fun y => grid.at z y x) (x + 1) (z + 1) grid.dimY with currY := grid.dimY }

theorem Recorded.column (h : Recorded grid done s) {z x : Nat} (hz : z < grid.dimZ) (hx : x < grid.dimX) :
    Recorded grid ((z, x) :: done) (s.column grid z x) where
  cells z' y x' := by
    change (if x' + 1 = x + 1 ∧ z' + 1 = z + 1 ∧ 1 ≤ y + 1 ∧ y + 1 ≤ grid.dimY then some (grid.at z (y + 1 - 1) x)
      else s.cells (x' + 1, y + 1, z' + 1)) = _
    rw [h.cells]
    by_cases hsame : (z', x') = (z, x)
    · obtain ⟨rfl, rfl⟩ := Prod.mk.inj hsame
      by_cases hy : y < grid.dimY
      · rw [if_pos ⟨rfl, rfl, by omega, by omega⟩, if_pos ⟨List.mem_cons_self, hy⟩, Nat.add_sub_cancel]
      · rw [if_neg (by omega), if_neg fun h => hy h.2, if_neg fun h => hy h.2]
    · have hmem : (z', x') ∈ (z, x) :: done ↔ (z', x') ∈ done := List.mem_cons.trans (or_iff_right hsame)
      have hne : ¬ (x' + 1 = x + 1 ∧ z' + 1 = z + 1 ∧ 1 ≤ y + 1 ∧ y + 1 ≤ grid.dimY) :=
        fun h => hsame (Prod.ext (Nat.succ.inj h.2.1) (Nat.succ.inj h.1))
      rw [if_neg hne]
      simp only [hmem]
  boundX := Nat.max_le.mpr ⟨h.boundX, hx⟩
  boundZ := Nat.max_le.mpr ⟨h.boundZ, hz⟩
  boundY := Nat.max_le.mpr ⟨h.boundY, le_rfl⟩
  reached column hcolumn := by
    rcases List.mem_cons.mp hcolumn with rfl | hold
    · exact ⟨Nat.le_max_right .., Nat.le_max_right .., rfl⟩
    · obtain ⟨hmaxZ, hmaxX, -⟩ := h.reached column hold
      exact ⟨hmaxZ.trans_le (Nat.le_max_left ..), hmaxX.trans_le (Nat.le_max_left ..), rfl⟩

theorem reads_column (h : Recorded grid done s) (hgrid : Bounded grid) {z x : Nat} {piece : Bytes}
    (hpiece : saveColumn keyLength grid z x = some piece) (hz : z < grid.dimZ) (hx : x < grid.dimX)
    (hnew : (z, x) ∉ done) :
    Consumes (GridState.step keyLength : GridState → UInt8 → Except (ReadError E) (Next GridState)) s.between piece
      (s.column grid z x).between := by
  obtain ⟨keys, hkeys, rfl⟩ := Option.map_eq_some_iff.mp hpiece
  have hboundZ := hgrid.dimZ.2
  have hboundX := hgrid.dimX.2
  have hfree : ∀ y, s.cells (x + 1, y + 1, z + 1) = none := by
    intro y
    rw [h.cells, if_neg fun hmem => hnew hmem.1]
  have hhead : Consumes (GridState.step keyLength : GridState → UInt8 → Except (ReadError E) (Next GridState))
      s.between (utf8 ['('] ++ decimal (x + 1) ++ utf8 [',', '1', ','] ++ decimal (z + 1) ++
        utf8 [')', ' ', '=', ' ', '{', '"', '\n']) (s.head (x + 1) (z + 1)).row :=
    reads_head (by omega) (by omega)
  have hrows : Consumes (GridState.step keyLength : GridState → UInt8 → Except (ReadError E) (Next GridState))
      (s.head (x + 1) (z + 1)).row (keys.flatMap fun key => key ++ utf8 ['\n'])
      (s.filled (fun y => grid.at z y x) (x + 1) (z + 1) grid.dimY).row :=
    reads_rows (fun y => grid.at z y x) hkeys hfree (by omega) hgrid.dimY.2
  have hend : utf8 ['"', '}', '\n'] = ['"'.toUInt8, '}'.toUInt8, '\n'.toUInt8] := by decide
  refine (hhead.append hrows).append ?_
  rw [hend]
  exact fun _ => rfl

-- By induction on the columns of a level that are still to be read.
theorem reads_columns {z : Nat} {xs : List Nat} {pieces : List Bytes}
    (hpieces : xs.mapM (saveColumn keyLength grid z) = some pieces) (h : Recorded grid done s) (hgrid : Bounded grid)
    (hz : z < grid.dimZ) (hxs : ∀ x ∈ xs, x < grid.dimX) (hnodup : xs.Nodup) (hnew : ∀ x ∈ xs, (z, x) ∉ done) :
    ∃ s' : Sheet, Consumes (GridState.step keyLength : GridState → UInt8 → Except (ReadError E) (Next GridState))
      s.between pieces.flatten s'.between ∧ Recorded grid ((xs.map (z, ·)).reverse ++ done) s' := by
  induction xs generalizing pieces done s with
  | nil =>
    cases hpieces
    exact ⟨s, .nil _, h⟩
  | cons x xs ih =>
    rw [List.mapM_cons] at hpieces
    obtain ⟨piece, hpiece, hrest⟩ := Option.bind_eq_some_iff.mp hpieces
    obtain ⟨later, hlater, hall⟩ := Option.bind_eq_some_iff.mp hrest
    obtain rfl : piece :: later = pieces := Option.some.inj hall
    obtain ⟨hx, hnodup⟩ := List.nodup_cons.mp hnodup
    have hwidth := hxs x List.mem_cons_self
    have hcolumn := reads_column (E := E) h hgrid hpiece hz hwidth (hnew x List.mem_cons_self)
    obtain ⟨s', hread, hrecorded⟩ := ih hlater (h.column hz hwidth)
      (fun x' hmem => hxs x' (List.mem_cons_of_mem x hmem)) hnodup (by
        intro x' hmem hdone
        rcases List.mem_cons.mp hdone with hsame | hold
        · exact hx ((Prod.mk.inj hsame).2 ▸ hmem)
        · exact hnew x' (List.mem_cons_of_mem x hmem) hold)
    refine ⟨s', ?_, ?_⟩
    · rw [List.flatten_cons]
      exact hcolumn.append hread
    · rw [List.map_cons, List.reverse_cons, List.append_assoc]
      exact hrecorded

theorem reads_levels {zs : List Nat} {pieces : List Bytes}
    (hpieces : zs.mapM (saveLevel keyLength grid) = some pieces) (h : Recorded grid done s) (hgrid : Bounded grid)
    (hzs : ∀ z ∈ zs, z < grid.dimZ) (hnodup : zs.Nodup) (hnew : ∀ z ∈ zs, ∀ x, (z, x) ∉ done) :
    ∃ (s' : Sheet) (done' : List (Nat × Nat)),
      Consumes (GridState.step keyLength : GridState → UInt8 → Except (ReadError E) (Next GridState)) s.between
        pieces.flatten s'.between ∧ Recorded grid done' s' ∧
      ∀ z x, (z, x) ∈ done' ↔ (z ∈ zs ∧ x < grid.dimX) ∨ (z, x) ∈ done := by
  induction zs generalizing pieces done s with
  | nil =>
    cases hpieces
    refine ⟨s, done, .nil _, h, fun z x => ?_⟩
    simp
  | cons z zs ih =>
    rw [List.mapM_cons] at hpieces
    obtain ⟨piece, hpiece, hrest⟩ := Option.bind_eq_some_iff.mp hpieces
    obtain ⟨later, hlater, hall⟩ := Option.bind_eq_some_iff.mp hrest
    obtain rfl : piece :: later = pieces := Option.some.inj hall
    obtain ⟨columns, hcolumns, rfl⟩ := Option.map_eq_some_iff.mp hpiece
    obtain ⟨hz, hnodup⟩ := List.nodup_cons.mp hnodup
    have hline : Consumes (GridState.step keyLength : GridState → UInt8 → Except (ReadError E) (Next GridState))
        s.between (utf8 ['\n']) s.between := Consumes.one rfl
    obtain ⟨level, hlevel, hrecorded⟩ := reads_columns (E := E) hcolumns h hgrid (hzs z List.mem_cons_self)
      (fun x hx => List.mem_range.mp hx) List.nodup_range fun x _ => hnew z List.mem_cons_self x
    have hmem : ∀ z' x', (z', x') ∈ ((List.range grid.dimX).map (z, ·)).reverse ++ done ↔
        (z' = z ∧ x' < grid.dimX) ∨ (z', x') ∈ done := by
      intro z' x'
      simp only [List.mem_append, List.mem_reverse, List.mem_map, List.mem_range, Prod.mk.injEq]
      grind
    obtain ⟨s', done', hread, hrecorded', hdone⟩ := ih hlater hrecorded
      (fun z' hmem => hzs z' (List.mem_cons_of_mem z hmem)) hnodup (by
        intro z' hz' x' hdone
        rcases (hmem z' x').mp hdone with ⟨rfl, -⟩ | hold
        · exact hz hz'
        · exact hnew z' (List.mem_cons_of_mem z hz') x' hold)
    refine ⟨s', done', ?_, hrecorded', fun z' x' => ?_⟩
    · rw [List.flatten_cons]
      exact (hline.append hlevel).append hread
    · rw [hdone, hmem, List.mem_cons]
      grind

theorem gridOf_recorded (h : Recorded grid done s) (hgrid : Bounded grid)
    (hdone : ∀ z x, (z, x) ∈ done ↔ z < grid.dimZ ∧ x < grid.dimX) :
    (gridOf s.cells s.maxZ (max s.maxY s.currY) s.maxX : Except (ReadError E) Grid) = .ok grid := by
  have hlastZ := hgrid.dimZ.1
  have hlastY := hgrid.dimY.1
  have hlastX := hgrid.dimX.1
  obtain ⟨hreachedZ, hreachedX, hcurrY⟩ :=
    h.reached (grid.dimZ - 1, grid.dimX - 1) ((hdone _ _).mpr ⟨by omega, by omega⟩)
  dsimp only at hreachedZ hreachedX
  have hboundX := h.boundX
  have hboundY := h.boundY
  have hboundZ := h.boundZ
  obtain hmaxZ : s.maxZ = grid.dimZ := by omega
  obtain hmaxY : max s.maxY s.currY = grid.dimY := by omega
  obtain hmaxX : s.maxX = grid.dimX := by omega
  have hcell : ∀ z < grid.dimZ, ∀ y < grid.dimY, ∀ x < grid.dimX,
      s.cells (x + 1, y + 1, z + 1) = some (grid.at z y x) := by
    intro z hz y hy x hx
    rw [h.cells, if_pos ⟨(hdone z x).mpr ⟨hz, hx⟩, hy⟩]
  have hcomplete : (coordinates grid.dimZ grid.dimY grid.dimX).filter (fun c => (s.cells c).isNone) = [] := by
    rw [List.filter_eq_nil_iff]
    intro c hc
    simp only [coordinates, List.mem_flatMap, List.mem_map, List.mem_range] at hc
    obtain ⟨z, hz, y, hy, x, hx, rfl⟩ := hc
    simp [hcell z hz y hy x hx]
  rw [hmaxZ, hmaxY, hmaxX, gridOf, hcomplete]
  have hshape : Grid.fromShapeFn grid.dimZ grid.dimY grid.dimX
      (fun z y x => (s.cells (x + 1, y + 1, z + 1)).getD .first) = grid := by
    obtain ⟨dimZ, dimY, dimX, cell⟩ := grid
    unfold Grid.fromShapeFn
    congr 1
    funext z y x
    dsimp only
    rw [hcell z z.isLt y y.isLt x x.isLt, Option.getD_some, Grid.at, dif_pos ⟨z.isLt, y.isLt, x.isLt⟩]
  exact congrArg Except.ok hshape

theorem reads_grid {levels : List Bytes} (hlevels : (List.range grid.dimZ).mapM (saveLevel keyLength grid) = some levels)
    (hgrid : Bounded grid) :
    ∃ s : Sheet, scan (GridState.step keyLength : GridState → UInt8 → Except (ReadError E) (Next GridState))
        Sheet.blank.between levels.flatten = .ok (s.between, []) ∧
      (gridOf s.cells s.maxZ (max s.maxY s.currY) s.maxX : Except (ReadError E) Grid) = .ok grid := by
  obtain ⟨s, done, hread, hrecorded, hdone⟩ := reads_levels (E := E) hlevels (.blank grid) hgrid
    (fun z hz => List.mem_range.mp hz) List.nodup_range fun _ _ _ => List.not_mem_nil
  refine ⟨s, hread.done, gridOf_recorded hrecorded hgrid fun z x => ?_⟩
  rw [hdone, List.mem_range]
  exact or_iff_left List.not_mem_nil

-- The levels of a grid start with an empty line and the parenthesis of their first column.
theorem levels_start {levels : List Bytes}
    (hlevels : (List.range grid.dimZ).mapM (saveLevel keyLength grid) = some levels) (hgrid : Bounded grid) :
    ∃ rest, levels.flatten = '\n'.toUInt8 :: '('.toUInt8 :: rest := by
  obtain ⟨dimZ, hdimZ⟩ := Nat.exists_eq_succ_of_ne_zero hgrid.dimZ.1.ne'
  obtain ⟨dimX, hdimX⟩ := Nat.exists_eq_succ_of_ne_zero hgrid.dimX.1.ne'
  rw [hdimZ, List.range_succ_eq_map, List.mapM_cons] at hlevels
  obtain ⟨level, hlevel, hrest⟩ := Option.bind_eq_some_iff.mp hlevels
  obtain ⟨later, -, hall⟩ := Option.bind_eq_some_iff.mp hrest
  obtain rfl : level :: later = levels := Option.some.inj hall
  obtain ⟨columns, hcolumns, rfl⟩ := Option.map_eq_some_iff.mp hlevel
  rw [hdimX, List.range_succ_eq_map, List.mapM_cons] at hcolumns
  obtain ⟨column, hcolumn, hrest⟩ := Option.bind_eq_some_iff.mp hcolumns
  obtain ⟨others, -, hall⟩ := Option.bind_eq_some_iff.mp hrest
  obtain rfl : column :: others = columns := Option.some.inj hall
  obtain ⟨keys, -, rfl⟩ := Option.map_eq_some_iff.mp hcolumn
  exact ⟨_, rfl⟩

end Grid

section File

variable {constants : Constants C E}

theorem skips_comment {s : DictionaryState C} (h : s.inCommentLine = true) {bytes : Bytes}
    (hbytes : ∀ ch ∈ bytes, ch ≠ '\n'.toUInt8 ∧ ch ≠ '\r'.toUInt8) :
    Consumes (DictionaryState.step constants) s bytes s := by
  induction bytes with
  | nil => exact .nil s
  | cons ch bytes ih =>
    obtain ⟨hfeed, hreturn⟩ := hbytes ch List.mem_cons_self
    have hstep : DictionaryState.step constants s ch = .ok (.going s) := by
      rw [DictionaryState.step, if_neg (not_or.mpr ⟨hfeed, hreturn⟩), if_pos h]
    exact Consumes.cons hstep (ih fun ch' hmem => hbytes ch' (List.mem_cons_of_mem ch hmem))

theorem reads_header :
    Consumes (DictionaryState.step constants) (.new C) (utf8 tgmHeader ++ utf8 ['\n']) (outside 0 .empty false) := by
  have hopen : Consumes (DictionaryState.step constants) (.new C) (utf8 ['/', '/'])
      { DictionaryState.new C with inCommentLine := true, commentTrigger := true } := by
    rw [show utf8 ['/', '/'] = ['/'.toUInt8, '/'.toUInt8] by decide]
    exact fun _ => rfl
  have hplain : ∀ ch ∈ utf8 (tgmHeader.drop 2), ch ≠ '\n'.toUInt8 ∧ ch ≠ '\r'.toUInt8 := by decide +kernel
  have hcomment : Consumes (DictionaryState.step constants)
      { DictionaryState.new C with inCommentLine := true, commentTrigger := true } (utf8 (tgmHeader.drop 2))
      { DictionaryState.new C with inCommentLine := true, commentTrigger := true } := skips_comment rfl hplain
  rw [show tgmHeader = ['/', '/'] ++ tgmHeader.drop 2 from rfl, utf8_append]
  exact (hopen.append hcomment).append (Consumes.one rfl)

-- What the reader needs of a map to find it again in its file.
structure Writable (constants : Constants C E) (map : Map C) : Prop where
  entries : map.dictionary.entries ≠ []
  storable : ∀ key prefabs, map.dictionary.get key = some prefabs →
    prefabs ≠ [] ∧ ∀ fab ∈ prefabs, Storable constants fab
  grid : Bounded map.grid

theorem foldl_entries (dictionary : FinMap Key (List (Prefab C))) :
    dictionary.entries.foldl FinMap.insertPair .empty = dictionary := by
  ext key prefabs
  constructor
  · intro h
    rcases FinMap.get_foldl_insertPair h with hmem | hempty
    · exact FinMap.mem_entries.mp hmem
    · cases hempty
  · intro h
    have hkey : key ∈ dictionary.entries.map Prod.fst :=
      List.mem_map.mpr ⟨(key, prefabs), FinMap.mem_entries.mpr h, rfl⟩
    obtain ⟨prefabs', hget⟩ := Option.ne_none_iff_exists'.mp
      (FinMap.get_foldl_insertPair_ne (m := .empty) (Or.inl hkey))
    rcases FinMap.get_foldl_insertPair hget with hmem | hempty
    · rw [hget, ← h, FinMap.mem_entries.mp hmem]
    · cases hempty

def numerals : Constants Nat Unit where
  display n := Nat.toDigits 10 n
  evaluateStr bytes :=
    if !bytes.isEmpty && bytes.all fun byte => 48 ≤ byte && byte ≤ 57 then
      .ok (bytes.foldl (fun n byte => 10 * n + (byte.toNat - 48)) 0)
    else .error ()

def turf : Prefab Nat := ⟨"/turf/open/floor".toList, IndexMap.empty.insert "dir".toList 4⟩

def area : Prefab Nat := ⟨"/area".toList, .empty⟩

def room : Map Nat := ⟨1, FinMap.empty.insert .first [turf, area], .fromShapeFn 1 2 2 fun _ _ _ => .first⟩

end File

end Dmm
