import Mathlib.Data.List.Chain
import Mathlib.Data.List.Range

namespace Windows

variable {α : Type}

-- The piece of a list at a position, when each piece takes up again the end of the one before it.
def window (width overlap : Nat) (l : List α) (i : Nat) : List α :=
  (l.drop ((width - overlap) * i)).take width

def windows (width overlap : Nat) (l : List α) (count : Nat) : List (List α) :=
  (List.range count).map (window width overlap l)

def rejoin (overlap : Nat) : List (List α) → List α
  | [] => []
  | first :: later => first ++ later.flatMap (List.drop overlap)

-- The positions at which a window starts that the window before it does not reach the end of.
def Starts (width overlap size i : Nat) : Prop :=
  (width - overlap) * i + (if i = 0 then 0 else overlap) < size

structure Tiles (width overlap : Nat) (l : List α) (pieces : List (List α)) : Prop where
  placed : pieces = windows width overlap l pieces.length
  bounded : ∀ piece ∈ pieces, piece.length ≤ width
  overlapping : pieces.IsChain fun piece next =>
    piece.length = width ∧ next.take overlap = piece.drop (width - overlap)
  further : ∀ next ∈ pieces.tail, overlap < next.length
  rejoined : rejoin overlap pieces = l

section Count

variable {width overlap size count : Nat}

theorem Starts.of_le {i j : Nat} (h : Starts width overlap size j) (hij : i ≤ j) :
    Starts width overlap size i := by
  rw [Starts] at *
  have hmul := Nat.mul_le_mul_left (width - overlap) hij
  split_ifs at * <;> omega

theorem starts_succ {i : Nat} (h : overlap < width) :
    Starts width overlap size (i + 1) ↔ (width - overlap) * i + width < size := by
  rw [Starts, if_neg (Nat.succ_ne_zero i), Nat.mul_succ]
  omega

end Count

section Rejoin

variable {width overlap : Nat} {l : List α}

theorem length_window (i : Nat) :
    (window width overlap l i).length = min width (l.length - (width - overlap) * i) := by
  rw [window, List.length_take, List.length_drop]

theorem drop_window (h : overlap < width) (i : Nat) :
    (window width overlap l (i + 1)).drop overlap =
      (l.drop ((width - overlap) * i + width)).take (width - overlap) := by
  rw [window, List.drop_take, List.drop_drop]
  congr 2
  rw [Nat.mul_succ]
  omega

theorem take_window (h : overlap < width) (i : Nat) :
    (window width overlap l (i + 1)).take overlap =
      (window width overlap l i).drop (width - overlap) := by
  have hleft : (window width overlap l (i + 1)).take overlap =
      (l.drop ((width - overlap) * (i + 1))).take overlap := by
    rw [window, List.take_take, Nat.min_eq_left h.le]
  have hright : (window width overlap l i).drop (width - overlap) =
      (l.drop ((width - overlap) * (i + 1))).take overlap := by
    rw [window, List.drop_take, List.drop_drop, Nat.mul_succ]
    congr 1
    omega
  rw [hleft, hright]

theorem rejoin_concat {pieces : List (List α)} (hne : pieces ≠ []) (piece : List α) :
    rejoin overlap (pieces ++ [piece]) = rejoin overlap pieces ++ piece.drop overlap := by
  cases pieces with
  | nil => exact absurd rfl hne
  | cons first later => simp [rejoin]

theorem windows_succ (count : Nat) :
    windows width overlap l (count + 1) =
      windows width overlap l count ++ [window width overlap l count] := by
  rw [windows, List.range_succ, List.map_append, List.map_singleton]
  rfl

@[simp] theorem length_windows (count : Nat) : (windows width overlap l count).length = count := by
  rw [windows, List.length_map, List.length_range]

-- However many windows there are, they hold the list up to where the last of them ends.
theorem rejoin_windows (h : overlap < width) (count : Nat) :
    rejoin overlap (windows width overlap l (count + 1)) =
      l.take ((width - overlap) * count + width) := by
  induction count with
  | zero => simp [windows, rejoin, window]
  | succ count ih =>
    have hne : windows width overlap l (count + 1) ≠ [] := by
      rw [windows_succ]
      simp
    rw [windows_succ, rejoin_concat hne, ih, drop_window h, ← List.take_add]
    congr 1
    rw [Nat.mul_succ]
    omega

-- A count of windows is right when each of them starts and the next would not.
theorem tiles_windows {count : Nat} (h : overlap < width)
    (hstarts : ∀ i < count, Starts width overlap l.length i)
    (hend : ¬ Starts width overlap l.length count) :
    Tiles width overlap l (windows width overlap l count) where
  placed := by rw [length_windows]
  bounded := by
    intro piece hpiece
    obtain ⟨i, -, rfl⟩ := List.mem_map.mp hpiece
    rw [length_window]
    exact Nat.min_le_left ..
  overlapping := by
    rw [List.isChain_iff_getElem]
    intro i hi
    rw [length_windows] at hi
    have hnext := (starts_succ h).mp (hstarts (i + 1) hi)
    simp only [windows, List.getElem_map, List.getElem_range]
    refine ⟨?_, take_window h i⟩
    rw [length_window]
    omega
  further := by
    intro next hnext
    rw [windows, ← List.map_tail, List.mem_map] at hnext
    obtain ⟨i, hi, rfl⟩ := hnext
    rw [List.tail_range, List.mem_range'_1] at hi
    have hstart := hstarts i (by omega)
    rw [Starts, if_neg (by omega)] at hstart
    rw [length_window]
    omega
  rejoined := by
    cases count with
    | zero =>
      have hempty : l.length = 0 := by simpa [Starts] using hend
      rw [List.length_eq_zero_iff.mp hempty]
      rfl
    | succ count =>
      rw [starts_succ h, Nat.not_lt] at hend
      rw [rejoin_windows h, List.take_of_length_le hend]

end Rejoin

end Windows
