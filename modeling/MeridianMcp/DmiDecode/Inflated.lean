import MeridianMcp.DmiDecode.Metadata
import Mathlib.Data.Nat.ModEq

namespace DmiDecode

open MeridianMcp Dmi Machine Fallible

structure Pass where
  x : Nat
  y : Nat
  stepX : Nat
  stepY : Nat
  deriving DecidableEq, Repr

def adam7 : List Pass :=
  [⟨0, 0, 8, 8⟩, ⟨4, 0, 8, 8⟩, ⟨0, 4, 4, 8⟩, ⟨2, 0, 4, 4⟩, ⟨0, 2, 2, 4⟩, ⟨1, 0, 2, 2⟩, ⟨0, 1, 1, 2⟩]

def passes (interlace : Nat) : List Pass := if interlace = 0 then [⟨0, 0, 1, 1⟩] else adam7

def divCeil (a b : Nat) : Nat := if a % b > 0 then a / b + 1 else a / b

def passWidth (width : Nat) (pass : Pass) : Nat := divCeil (width - pass.x) pass.stepX

def passHeight (height : Nat) (pass : Pass) : Nat := divCeil (height - pass.y) pass.stepY

def decoderLimit : DmiError := .limit "max_dmi_decoder_bytes"

def addPass (width height bits expected : Nat) (pass : Pass) : Run DmiError Nat :=
  if passWidth width pass ≠ 0 ∧ passHeight height pass ≠ 0 then do
    let row ← mul (passWidth width pass) bits
    match checkedAdd expected
        (saturatingMul (Machine.saturatingAdd (divCeil row 8) 1) (passHeight height pass)) with
    | some expected => .ok expected
    | none => fail decoderLimit
  else .ok expected

def expectedSize (limits : ServerLimits) (width height bits interlace : Nat) :
    Run DmiError Nat := do
  let expected ← (passes interlace).foldlM (addPass width height bits) 0
  if expected ≤ limits.maxDmiDecoderBytes then .ok expected else fail decoderLimit

-- The columns and the rows of an image that a pass takes.
def columns (width : Nat) (pass : Pass) : Nat :=
  (List.range width).countP fun column => column % pass.stepX = pass.x

def rows (height : Nat) (pass : Pass) : Nat :=
  (List.range height).countP fun row => row % pass.stepY = pass.y

def lineBytes (columns bits : Nat) : Nat := 1 + (columns * bits + 7) / 8

def passSize (width height bits : Nat) (pass : Pass) : Nat :=
  if columns width pass ≠ 0 ∧ rows height pass ≠ 0 then
    rows height pass * lineBytes (columns width pass) bits
  else 0

def exactSize (width height bits interlace : Nat) : Nat :=
  ((passes interlace).map (passSize width height bits)).sum

section Counts

theorem divCeil_succ (a b : Nat) : divCeil (a + 1) b = a / b + 1 := by
  rw [divCeil, Nat.succ_div]
  by_cases h : b ∣ a + 1
  · rw [if_pos h, if_neg (by rw [Nat.mod_eq_zero_of_dvd h]; exact Nat.lt_irrefl 0)]
  · rw [if_neg h, if_pos (Nat.pos_of_ne_zero fun hmod => h (Nat.dvd_of_mod_eq_zero hmod))]

theorem count_residue {offset step : Nat} (h : offset < step) (n : Nat) :
    (List.range n).countP (fun i => i % step = offset) = divCeil (n - offset) step := by
  induction n with
  | zero => rw [Nat.zero_sub, divCeil, Nat.zero_mod, Nat.zero_div]; rfl
  | succ n ih =>
    rw [List.range_succ, List.countP_append, ih, List.countP_singleton]
    by_cases hn : n < offset
    · have hmod : ¬n % step = offset := by
        rw [Nat.mod_eq_of_lt (hn.trans h)]
        exact hn.ne
      rw [Nat.sub_eq_zero_of_le hn.le, Nat.sub_eq_zero_of_le hn]
      simp [hmod]
    · obtain ⟨m, rfl⟩ := Nat.exists_eq_add_of_le (not_lt.mp hn)
      have hmod : (offset + m) % step = offset ↔ m % step = 0 := by
        have hcancel : offset + m ≡ offset + 0 [MOD step] ↔ m ≡ 0 [MOD step] :=
          ⟨Nat.ModEq.add_left_cancel' offset, Nat.ModEq.add_left offset⟩
        rwa [Nat.ModEq, Nat.ModEq, Nat.add_zero, Nat.mod_eq_of_lt h, Nat.zero_mod] at hcancel
      rw [Nat.add_assoc, Nat.add_sub_cancel_left, Nat.add_sub_cancel_left, divCeil_succ, divCeil]
      simp only [hmod, decide_eq_true_eq]
      split <;> split <;> omega

end Counts

-- A pass whose offsets are below its steps.
structure Pass.Proper (pass : Pass) : Prop where
  x_lt : pass.x < pass.stepX
  y_lt : pass.y < pass.stepY

theorem proper_passes {interlace : Nat} {pass : Pass} (h : pass ∈ passes interlace) :
    pass.Proper := by
  have hall : ∀ pass ∈ [⟨0, 0, 1, 1⟩] ++ adam7, pass.x < pass.stepX ∧ pass.y < pass.stepY := by
    decide
  have hmem : pass ∈ [⟨0, 0, 1, 1⟩] ++ adam7 := by
    rw [passes] at h
    split at h
    · exact List.mem_append_left _ h
    · exact List.mem_append_right _ h
  exact ⟨(hall pass hmem).1, (hall pass hmem).2⟩

section Exact

variable {width height bits : Nat} {pass : Pass}

theorem Pass.Proper.passWidth_eq (h : pass.Proper) : passWidth width pass = columns width pass :=
  (count_residue h.x_lt width).symm

theorem Pass.Proper.passHeight_eq (h : pass.Proper) : passHeight height pass = rows height pass :=
  (count_residue h.y_lt height).symm

theorem columns_le : columns width pass ≤ width := by
  have hle := List.countP_le_length (p := fun column => column % pass.stepX = pass.x)
    (l := List.range width)
  rwa [List.length_range] at hle

theorem lineBytes_eq {row : Nat} (hrow : row < wordSize - 8) :
    Machine.saturatingAdd (divCeil row 8) 1 = 1 + (row + 7) / 8 := by
  rw [Machine.saturatingAdd, divCeil]
  rw [wordSize] at hrow ⊢
  split <;> omega

theorem row_lt (hwidth : width < 2 ^ 32) (hbits : bits < 2 ^ 32) :
    columns width pass * bits < wordSize - 8 := by
  have hle : columns width pass * bits ≤ (2 ^ 32 - 1) * (2 ^ 32 - 1) :=
    Nat.mul_le_mul (columns_le.trans (Nat.le_sub_one_of_lt hwidth)) (Nat.le_sub_one_of_lt hbits)
  exact hle.trans_lt (by decide)

theorem addPass_eq (hpass : pass.Proper) (hwidth : width < 2 ^ 32) (hbits : bits < 2 ^ 32)
    {expected : Nat} (hexpected : expected < wordSize) :
    addPass width height bits expected pass =
      if expected + min (passSize width height bits pass) (wordSize - 1) < wordSize then
        .ok (expected + min (passSize width height bits pass) (wordSize - 1))
      else fail decoderLimit := by
  have hrow := @row_lt width bits pass hwidth hbits
  rw [addPass, hpass.passWidth_eq, hpass.passHeight_eq, passSize]
  split
  · rw [mul_ok (by omega)]
    change (match checkedAdd expected (saturatingMul (Machine.saturatingAdd
      (divCeil (columns width pass * bits) 8) 1) (rows height pass)) with
      | some expected => Except.ok expected
      | none => fail decoderLimit) = _
    rw [lineBytes_eq hrow, saturatingMul, Nat.mul_comm, checkedAdd, lineBytes]
    split
    · rename_i h
      split at h
      · rename_i hlt
        rw [if_pos hlt, Option.some.inj h]
      · cases h
    · rename_i h
      split at h
      · cases h
      · rename_i hge
        rw [if_neg hge]
  · rw [Nat.min_eq_left (Nat.zero_le _), Nat.add_zero, if_pos hexpected]

theorem foldlM_addPass {l : List Pass} (hl : ∀ pass ∈ l, pass.Proper) (hwidth : width < 2 ^ 32)
    (hbits : bits < 2 ^ 32) {expected : Nat} (hexpected : expected < wordSize) :
    l.foldlM (addPass width height bits) expected =
      if expected + (l.map fun pass =>
          min (passSize width height bits pass) (wordSize - 1)).sum < wordSize then
        .ok (expected + (l.map fun pass =>
          min (passSize width height bits pass) (wordSize - 1)).sum)
      else fail decoderLimit := by
  induction l generalizing expected with
  | nil => exact (if_pos hexpected).symm
  | cons pass l ih =>
    rw [List.forall_mem_cons] at hl
    rw [List.foldlM_cons, addPass_eq hl.1 hwidth hbits hexpected, List.map_cons, List.sum_cons,
      ← Nat.add_assoc]
    by_cases h : expected + min (passSize width height bits pass) (wordSize - 1) < wordSize
    · rw [if_pos h]
      exact ih hl.2 h
    · rw [if_neg h, if_neg fun hlt => h ((Nat.le_add_right _ _).trans_lt hlt)]
      rfl

-- The sum of what the passes add, each of them held below the word's end.
theorem sum_capped (l : List Nat) :
    ((l.map fun n => min n (wordSize - 1)).sum < wordSize →
      (l.map fun n => min n (wordSize - 1)).sum = l.sum ∨
        (l.map fun n => min n (wordSize - 1)).sum = wordSize - 1 ∧ wordSize ≤ l.sum) ∧
    (l.sum < wordSize → (l.map fun n => min n (wordSize - 1)).sum = l.sum) := by
  induction l with
  | nil => exact ⟨fun _ => Or.inl rfl, fun _ => rfl⟩
  | cons n l ih =>
    simp only [List.map_cons, List.sum_cons]
    rw [wordSize] at ih ⊢
    omega

end Exact

theorem expectedSize_eq {limits : ServerLimits} {width height bits : Nat} (interlace : Nat)
    (hwidth : width < 2 ^ 32) (hbits : bits < 2 ^ 32) :
    Sound (expectedSize limits width height bits interlace) ∧
      (exactSize width height bits interlace < wordSize →
        exactSize width height bits interlace ≤ limits.maxDmiDecoderBytes →
          expectedSize limits width height bits interlace =
            .ok (exactSize width height bits interlace)) ∧
      ∀ size, expectedSize limits width height bits interlace = .ok size →
        size = exactSize width height bits interlace ∧ size < wordSize ∧
            size ≤ limits.maxDmiDecoderBytes ∨
          size = wordSize - 1 ∧ wordSize ≤ exactSize width height bits interlace := by
  obtain ⟨capped, hcap, hexact, hfold⟩ : ∃ capped,
      (capped < wordSize → capped = exactSize width height bits interlace ∨
        capped = wordSize - 1 ∧ wordSize ≤ exactSize width height bits interlace) ∧
      (exactSize width height bits interlace < wordSize →
        capped = exactSize width height bits interlace) ∧
      (passes interlace).foldlM (addPass width height bits) 0 =
        if capped < wordSize then .ok capped else fail decoderLimit := by
    have hfold := @foldlM_addPass width height bits (passes interlace)
      (fun pass hpass => proper_passes hpass) hwidth hbits 0 (by decide)
    have hcap := sum_capped ((passes interlace).map (passSize width height bits))
    rw [List.map_map] at hcap
    rw [Nat.zero_add] at hfold
    exact ⟨_, hcap.1, hcap.2, hfold⟩
  rw [expectedSize, hfold]
  by_cases hword : capped < wordSize
  · rw [if_pos hword]
    change Sound (if capped ≤ limits.maxDmiDecoderBytes then .ok capped else fail decoderLimit) ∧
      (_ → _ → (if capped ≤ limits.maxDmiDecoderBytes then .ok capped else fail decoderLimit) = _) ∧
      ∀ size, (if capped ≤ limits.maxDmiDecoderBytes then .ok capped else fail decoderLimit) =
        .ok size → _
    refine ⟨by split <;> simp, fun hlt hle => ?_, fun size hsize => ?_⟩
    · rw [hexact hlt, if_pos hle]
    · split at hsize
      · rename_i hle
        obtain rfl := Except.ok.inj hsize
        exact (hcap hword).imp (fun heq => ⟨heq, hword, hle⟩) id
      · cases hsize
  · rw [if_neg hword]
    refine ⟨sound_fail decoderLimit, fun hlt _ => ?_, fun size hsize => nomatch hsize⟩
    rw [hexact hlt] at hword
    exact absurd hlt hword

-- Each cell of the grid falls to one pass, which takes it in one of its columns and rows.
theorem adam7_partition (column row : Nat) :
    ∃! pass, pass ∈ adam7 ∧ column % pass.stepX = pass.x ∧ row % pass.stepY = pass.y := by
  have hresidues : ∀ c < 8, ∀ r < 8, ∃ pass ∈ adam7,
      (c % pass.stepX = pass.x ∧ r % pass.stepY = pass.y) ∧
        ∀ other ∈ adam7, c % other.stepX = other.x → r % other.stepY = other.y → other = pass := by
    decide
  have hstep : ∀ pass ∈ adam7, pass.stepX ∣ 8 ∧ pass.stepY ∣ 8 := by decide
  obtain ⟨pass, hpass, ⟨hx, hy⟩, hother⟩ :=
    hresidues (column % 8) (Nat.mod_lt _ (by decide)) (row % 8) (Nat.mod_lt _ (by decide))
  refine ⟨pass, ⟨hpass, ?_, ?_⟩, ?_⟩
  · rwa [Nat.mod_mod_of_dvd _ (hstep pass hpass).1] at hx
  · rwa [Nat.mod_mod_of_dvd _ (hstep pass hpass).2] at hy
  · rintro other ⟨hmem, hcolumn, hrow⟩
    refine hother other hmem ?_ ?_
    · rwa [Nat.mod_mod_of_dvd _ (hstep other hmem).1]
    · rwa [Nat.mod_mod_of_dvd _ (hstep other hmem).2]

theorem exactSize_plain {width height : Nat} (hwidth : 0 < width) (hheight : 0 < height)
    (bits : Nat) : exactSize width height bits 0 = height * (1 + (width * bits + 7) / 8) := by
  have hall : ∀ n : Nat, (List.range n).countP (fun i => i % 1 = 0) = n := by
    intro n
    rw [List.countP_eq_length.mpr fun i _ => decide_eq_true (Nat.mod_one i), List.length_range]
  simp only [exactSize, passes, if_true, List.map_cons, List.map_nil, List.sum_cons, List.sum_nil,
    passSize, columns, rows, lineBytes, hall]
  rw [if_pos ⟨hwidth.ne', hheight.ne'⟩, Nat.add_zero]

end DmiDecode
