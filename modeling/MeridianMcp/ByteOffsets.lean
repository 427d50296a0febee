import MeridianMcp.Machine
import MeridianMcp.Utf8

namespace MeridianMcp

open Machine

-- What stands behind a byte offset.
def sliceAfter : Text → Nat → Text
  | text, 0 => text
  | [], _ + 1 => []
  | c :: text, index + 1 => sliceAfter text (index + 1 - c.utf8Size)

def sliceFrom {ε : Type} (text : Text) (index : Nat) : Run ε Text :=
  if isCharBoundary text index then .ok (sliceAfter text index) else .error .panic

def replaceRange {ε : Type} (text : Text) (start stop : Nat) (replacement : Text) : Run ε Text :=
  if start ≤ stop ∧ isCharBoundary text start = true ∧ isCharBoundary text stop = true then
    .ok (sliceTo text start ++ replacement ++ sliceAfter text stop)
  else .error .panic

def getRange (text : Text) (start stop : Nat) : Option Text :=
  if start ≤ stop ∧ isCharBoundary text start = true ∧ isCharBoundary text stop = true then
    some (sliceAfter (sliceTo text stop) start)
  else none

def find (pattern : Text) : Text → Option Nat
  | [] => if pattern = [] then some 0 else none
  | c :: text =>
    if pattern.isPrefixOf (c :: text) then some 0 else (find pattern text).map (c.utf8Size + ·)

def findChar (p : Char → Bool) : Text → Option Nat
  | [] => none
  | c :: text => if p c then some 0 else (findChar p text).map (c.utf8Size + ·)

def isAsciiAlphanumeric (byte : UInt8) : Bool :=
  48 ≤ byte.toNat && byte.toNat ≤ 57 || 65 ≤ byte.toNat && byte.toNat ≤ 90 ||
    97 ≤ byte.toNat && byte.toNat ≤ 122

section Offsets

variable {ε : Type} (text rest : Text)

theorem utf8Size_toLower (c : Char) : c.toLower.utf8Size = c.utf8Size := by
  have h := toNat_toLower c
  change c.toLower.val.toNat = _ at h
  simp only [Char.utf8Size, UInt32.le_iff_toNat_le, h]
  split
  · rename_i hupper
    change 65 ≤ c.val.toNat ∧ c.val.toNat ≤ 90 at hupper
    rw [if_pos, if_pos]
    · change c.val.toNat ≤ 127
      omega
    · change c.toNat + 32 ≤ 127
      change c.val.toNat + 32 ≤ 127
      omega
  · rfl

theorem length_utf8_cons_succ (c : Char) : ∃ index, (utf8 (c :: text)).length = index + 1 := by
  have hsize := c.utf8Size_pos
  refine Nat.exists_eq_succ_of_ne_zero ?_
  rw [length_utf8_cons]
  omega

theorem isCharBoundary_append : isCharBoundary (text ++ rest) (utf8 text).length = true := by
  induction text with
  | nil => exact isCharBoundary.eq_1 _
  | cons c text ih =>
    obtain ⟨index, hindex⟩ := length_utf8_cons_succ text c
    rw [hindex, List.cons_append, isCharBoundary, Bool.and_eq_true, decide_eq_true_eq, ← hindex,
      length_utf8_cons, Nat.add_sub_cancel_left]
    exact ⟨Nat.le_add_right _ _, ih⟩

theorem sliceTo_append : sliceTo (text ++ rest) (utf8 text).length = text := by
  induction text with
  | nil => exact sliceTo.eq_1 _
  | cons c text ih =>
    obtain ⟨index, hindex⟩ := length_utf8_cons_succ text c
    rw [hindex, List.cons_append, sliceTo, ← hindex, length_utf8_cons, Nat.add_sub_cancel_left, ih]

theorem sliceAfter_append : sliceAfter (text ++ rest) (utf8 text).length = rest := by
  induction text with
  | nil => exact sliceAfter.eq_1 _
  | cons c text ih =>
    obtain ⟨index, hindex⟩ := length_utf8_cons_succ text c
    rw [hindex, List.cons_append, sliceAfter, ← hindex, length_utf8_cons, Nat.add_sub_cancel_left, ih]

theorem sliceFrom_append :
    (sliceFrom (text ++ rest) (utf8 text).length : Run ε Text) = .ok rest := by
  rw [sliceFrom, if_pos (isCharBoundary_append text rest), sliceAfter_append]

theorem replaceRange_append (value replacement : Text) :
    (replaceRange (text ++ (value ++ rest)) (utf8 text).length
        ((utf8 text).length + (utf8 value).length) replacement : Run ε Text) =
      .ok (text ++ (replacement ++ rest)) := by
  have hstop : (utf8 text).length + (utf8 value).length = (utf8 (text ++ value)).length := by
    rw [utf8_append, List.length_append]
  have hwhole : text ++ (value ++ rest) = text ++ value ++ rest := (List.append_assoc ..).symm
  have hboundary := isCharBoundary_append (text ++ value) rest
  rw [← hwhole] at hboundary
  rw [replaceRange, hstop,
    if_pos ⟨hstop ▸ Nat.le_add_right .., isCharBoundary_append text _, hboundary⟩, sliceTo_append,
    hwhole, sliceAfter_append, List.append_assoc]

theorem getRange_append (value : Text) :
    getRange (text ++ (value ++ rest)) (utf8 text).length
      ((utf8 text).length + (utf8 value).length) = some value := by
  have hstop : (utf8 text).length + (utf8 value).length = (utf8 (text ++ value)).length := by
    rw [utf8_append, List.length_append]
  have hwhole : text ++ (value ++ rest) = text ++ value ++ rest := (List.append_assoc ..).symm
  have hboundary := isCharBoundary_append (text ++ value) rest
  rw [← hwhole] at hboundary
  rw [getRange, hstop,
    if_pos ⟨hstop ▸ Nat.le_add_right .., isCharBoundary_append text _, hboundary⟩, hwhole,
    sliceTo_append, sliceAfter_append]

theorem findChar_takeWhile (p : Char → Bool) :
    (findChar p text).getD (utf8 text).length = (utf8 (text.takeWhile (!p ·))).length := by
  induction text with
  | nil => rfl
  | cons c text ih =>
    rw [findChar, List.takeWhile_cons]
    cases p c with
    | true => rfl
    | false =>
      simp only [Bool.false_eq_true, if_false, Bool.not_false, if_true]
      rw [length_utf8_cons, length_utf8_cons, ← ih]
      cases findChar p text <;> rfl

theorem last_byte (c : Char) : ∃ bytes byte, String.utf8EncodeChar c = bytes ++ [byte] ∧
    (0x80 ≤ c.toNat ∧ 0x80 ≤ byte.toNat ∨ c.toNat < 0x80 ∧ byte.toNat = c.toNat) := by
  have hbyte : ∀ n, n < 256 → (UInt8.ofNat n).toNat = n := fun n hn => Nat.mod_eq_of_lt hn
  have hcode : c.toNat = c.val.toNat := rfl
  rw [String.utf8EncodeChar]
  split
  · refine ⟨[], _, rfl, Or.inr ⟨by omega, ?_⟩⟩
    rw [hbyte _ (by omega), hcode]
  · have hlast : 0x80 ≤ (UInt8.ofNat (c.val.toNat % 0x40 + 0x80)).toNat := by
      rw [hbyte _ (by omega)]
      omega
    split
    · exact ⟨[_], _, rfl, Or.inl ⟨by omega, hlast⟩⟩
    · split
      · exact ⟨[_, _], _, rfl, Or.inl ⟨by omega, hlast⟩⟩
      · exact ⟨[_, _, _], _, rfl, Or.inl ⟨by omega, hlast⟩⟩

theorem index_last (c : Char) : ∃ byte,
    (index (utf8 (text ++ [c] ++ rest)) ((utf8 (text ++ [c])).length - 1) : Run ε UInt8) = .ok byte ∧
      (0x80 ≤ c.toNat ∧ 0x80 ≤ byte.toNat ∨ c.toNat < 0x80 ∧ byte.toNat = c.toNat) := by
  obtain ⟨bytes, byte, hbytes, hlast⟩ := last_byte c
  have hchar : utf8 [c] = bytes ++ [byte] := by rw [utf8, List.flatMap_singleton, hbytes]
  refine ⟨byte, ?_, hlast⟩
  rw [utf8_append, utf8_append, hchar, Machine.index]
  have hget : (utf8 text ++ (bytes ++ [byte]) ++ utf8 rest)[(utf8 text ++ (bytes ++ [byte])).length - 1]? =
      some byte := by
    rw [← List.append_assoc, List.append_assoc, List.getElem?_append_right (by simp),
      List.length_append, List.length_singleton, Nat.add_sub_cancel, Nat.sub_self]
    rfl
  rw [hget]

end Offsets

end MeridianMcp
