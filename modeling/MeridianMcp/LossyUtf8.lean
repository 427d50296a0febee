import Mathlib.Data.List.Forall2
import MeridianMcp.Utf8

namespace MeridianMcp

-- The ranges of the bytes that have to follow a first byte, when a character can start with it.
def following (first : UInt8) : Option (List (Nat × Nat)) :=
  let byte := first.toNat
  let any := (0x80, 0xbf)
  if byte < 0x80 then some []
  else if byte < 0xc2 then none
  else if byte < 0xe0 then some [any]
  else if byte = 0xe0 then some [(0xa0, 0xbf), any]
  else if byte = 0xed then some [(0x80, 0x9f), any]
  else if byte < 0xf0 then some [any, any]
  else if byte = 0xf0 then some [(0x90, 0xbf), any, any]
  else if byte < 0xf4 then some [any, any, any]
  else if byte = 0xf4 then some [(0x80, 0x8f), any, any]
  else none

def matched : List (Nat × Nat) → List UInt8 → Nat
  | [], _ => 0
  | _ :: _, [] => 0
  | (low, high) :: ranges, byte :: rest =>
    if low ≤ byte.toNat ∧ byte.toNat ≤ high then matched ranges rest + 1 else 0

-- The first byte without the bits that tell how many follow.
def payload (first : UInt8) : List (Nat × Nat) → Nat
  | [] => first.toNat
  | [_] => first.toNat - 0xc0
  | [_, _] => first.toNat - 0xe0
  | _ => first.toNat - 0xf0

def replacement : Char := Char.ofNat 0xfffd

-- The character at a first byte, and how many of the bytes behind it belong to it. What is no
-- character is replaced, up to the first byte that does not fit.
def character (first : UInt8) (rest : List UInt8) : Char × Nat :=
  match following first with
  | none => (replacement, 0)
  | some ranges =>
    let count := matched ranges rest
    if count = ranges.length then
      (Char.ofNat ((rest.take count).foldl (fun n byte => n * 64 + (byte.toNat - 0x80))
        (payload first ranges)), count)
    else (replacement, count)

def lossyFrom : Nat → List UInt8 → Text
  | 0, _ => []
  | _ + 1, [] => []
  | rounds + 1, first :: rest =>
    (character first rest).1 :: lossyFrom rounds (rest.drop (character first rest).2)

def fromUtf8Lossy (bytes : List UInt8) : Text := lossyFrom bytes.length bytes

example : fromUtf8Lossy [0x68, 0xc3, 0xa9, 0xe2, 0x82, 0x41, 0xf0, 0x9f, 0x98, 0x80, 0xff] =
    ['h', 'é', replacement, 'A', '😀', replacement] := by
  decide

theorem matched_le_length (ranges : List (Nat × Nat)) (rest : List UInt8) :
    matched ranges rest ≤ rest.length := by
  induction ranges generalizing rest with
  | nil => exact Nat.zero_le _
  | cons range ranges ih =>
    cases rest with
    | nil => exact Nat.le_refl 0
    | cons byte rest =>
      rw [matched]
      split
      · exact Nat.succ_le_succ (ih rest)
      · exact Nat.zero_le _

theorem matched_concat {ranges : List (Nat × Nat)} {byte : UInt8} (hbyte : byte.toNat < 0x80)
    (h : ∀ range ∈ ranges, 0x80 ≤ range.1) (rest : List UInt8) :
    matched ranges (rest ++ [byte]) = matched ranges rest := by
  induction ranges generalizing rest with
  | nil => rw [matched, matched]
  | cons range ranges ih =>
    have hrange := h range (List.mem_cons_self ..)
    have hranges := fun other hother => h other (List.mem_cons_of_mem _ hother)
    cases rest with
    | nil =>
      rw [List.nil_append, matched, matched, if_neg]
      omega
    | cons first rest => rw [List.cons_append, matched, matched, ih hranges]

theorem low_following {first : UInt8} {ranges : List (Nat × Nat)}
    (h : following first = some ranges) : ∀ range ∈ ranges, 0x80 ≤ range.1 := by
  simp only [following] at h
  repeat' split at h
  all_goals
    cases h
  all_goals decide

theorem character_le_length (first : UInt8) (rest : List UInt8) :
    (character first rest).2 ≤ rest.length := by
  rw [character]
  split
  · exact Nat.zero_le _
  · dsimp only
    split <;> exact matched_le_length _ _

theorem character_concat {byte : UInt8} (hbyte : byte.toNat < 0x80) (first : UInt8)
    (rest : List UInt8) : character first (rest ++ [byte]) = character first rest := by
  rw [character, character]
  cases h : following first with
  | none => rfl
  | some ranges =>
    have hcount := matched_concat hbyte (low_following h) rest
    have htake : (rest ++ [byte]).take (matched ranges rest) = rest.take (matched ranges rest) :=
      List.take_append_of_le_length (matched_le_length ranges rest)
    dsimp only
    rw [hcount, htake]

theorem character_ascii {first : UInt8} (h : first.toNat < 0x80) (rest : List UInt8) :
    character first rest = (Char.ofNat first.toNat, 0) := by
  have hnone : following first = some [] := if_pos h
  rw [character, hnone]
  rfl

theorem lossyFrom_singleton {byte : UInt8} (h : byte.toNat < 0x80) (rounds : Nat) :
    lossyFrom (rounds + 1) [byte] = [Char.ofNat byte.toNat] := by
  rw [lossyFrom, character_ascii h]
  cases rounds <;> rfl

theorem lossyFrom_concat {byte : UInt8} (hbyte : byte.toNat < 0x80) {rounds : Nat}
    {bytes : List UInt8} (h : bytes.length ≤ rounds) :
    lossyFrom (rounds + 1) (bytes ++ [byte]) =
      lossyFrom rounds bytes ++ [Char.ofNat byte.toNat] := by
  induction rounds generalizing bytes with
  | zero =>
    obtain rfl := List.eq_nil_of_length_eq_zero (Nat.le_zero.mp h)
    exact lossyFrom_singleton hbyte 0
  | succ rounds ih =>
    cases bytes with
    | nil =>
      exact lossyFrom_singleton hbyte (rounds + 1)
    | cons first rest =>
      have hle := character_le_length first rest
      have hshorter : (rest.drop (character first rest).2).length ≤ rounds := by
        rw [List.length_cons] at h
        rw [List.length_drop]
        omega
      rw [List.cons_append, lossyFrom, character_concat hbyte, List.drop_append_of_le_length hle,
        ih hshorter, lossyFrom, List.cons_append]

-- An ASCII byte at the end is a character of its own.
theorem fromUtf8Lossy_concat {byte : UInt8} (hbyte : byte.toNat < 0x80) (bytes : List UInt8) :
    fromUtf8Lossy (bytes ++ [byte]) = fromUtf8Lossy bytes ++ [Char.ofNat byte.toNat] := by
  rw [fromUtf8Lossy, List.length_append, List.length_singleton,
    lossyFrom_concat hbyte (Nat.le_refl _)]
  rfl

section RoundTrip

def Fits (range : Nat × Nat) (byte : UInt8) : Prop := range.1 ≤ byte.toNat ∧ byte.toNat ≤ range.2

theorem matched_fits {ranges : List (Nat × Nat)} {tail : List UInt8}
    (h : List.Forall₂ Fits ranges tail) (rest : List UInt8) :
    matched ranges (tail ++ rest) = tail.length := by
  induction h with
  | nil => rfl
  | cons hfits _ ih => rw [List.cons_append, matched, if_pos ⟨hfits.1, hfits.2⟩, ih, List.length_cons]

theorem character_fits {first : UInt8} {ranges : List (Nat × Nat)} {tail : List UInt8} {c : Char}
    (hfollowing : following first = some ranges) (hfits : List.Forall₂ Fits ranges tail)
    (hvalue : tail.foldl (fun n byte => n * 64 + (byte.toNat - 0x80)) (payload first ranges) =
      c.toNat) (rest : List UInt8) :
    character first (tail ++ rest) = (c, tail.length) := by
  have hmatched := matched_fits hfits rest
  rw [character, hfollowing]
  dsimp only
  rw [hmatched, if_pos hfits.length_eq.symm, List.take_left, hvalue, Char.ofNat_toNat]

theorem toNat_byte {n : Nat} (h : n < 256) : (UInt8.ofNat n).toNat = n := Nat.mod_eq_of_lt h

theorem fits_tail {n : Nat} (h : n < 0x40) : Fits (0x80, 0xbf) (UInt8.ofNat (n + 0x80)) := by
  rw [Fits, toNat_byte (by omega)]
  omega

-- The ranges that follow the first byte of a longer character.
theorem following_two {n : Nat} (h : 2 ≤ n) (hn : n < 0x20) :
    following (UInt8.ofNat (n + 0xc0)) = some [(0x80, 0xbf)] := by
  simp only [following, toNat_byte (show n + 0xc0 < 256 by omega)]
  rw [if_neg (by omega), if_neg (by omega), if_pos (by omega)]

theorem following_three {n : Nat} (hn : n < 0x10) :
    following (UInt8.ofNat (n + 0xe0)) = some [(if n = 0 then 0xa0 else 0x80,
      if n = 0xd then 0x9f else 0xbf), (0x80, 0xbf)] := by
  simp only [following, toNat_byte (show n + 0xe0 < 256 by omega)]
  rw [if_neg (by omega), if_neg (by omega), if_neg (by omega)]
  split_ifs <;> first | rfl | omega

theorem following_four {n : Nat} (hn : n < 5) :
    following (UInt8.ofNat (n + 0xf0)) = some [(if n = 0 then 0x90 else 0x80,
      if n = 4 then 0x8f else 0xbf), (0x80, 0xbf), (0x80, 0xbf)] := by
  simp only [following, toNat_byte (show n + 0xf0 < 256 by omega)]
  rw [if_neg (by omega), if_neg (by omega), if_neg (by omega), if_neg (by omega), if_neg (by omega),
    if_neg (by omega)]
  split_ifs <;> first | rfl | omega

theorem payload_two (first : UInt8) (a : Nat × Nat) : payload first [a] = first.toNat - 0xc0 := rfl

theorem payload_three (first : UInt8) (a b : Nat × Nat) :
    payload first [a, b] = first.toNat - 0xe0 := rfl

theorem payload_four (first : UInt8) (a b c : Nat × Nat) :
    payload first [a, b, c] = first.toNat - 0xf0 := rfl

theorem encoded_character (c : Char) (rest : List UInt8) : ∃ first tail,
    String.utf8EncodeChar c = first :: tail ∧ character first (tail ++ rest) = (c, tail.length) := by
  have hvalid : c.toNat < 0xd800 ∨ 0xdfff < c.toNat ∧ c.toNat < 0x110000 := c.valid
  have hcode : c.toNat = c.val.toNat := rfl
  rw [String.utf8EncodeChar, ← hcode]
  generalize hv : c.toNat = v at *
  have hlow : (UInt8.ofNat (v % 0x40 + 0x80)).toNat = v % 0x40 + 0x80 := toNat_byte (by omega)
  have hmiddle : (UInt8.ofNat (v / 64 % 0x40 + 0x80)).toNat = v / 64 % 0x40 + 0x80 :=
    toNat_byte (by omega)
  have hhigh : (UInt8.ofNat (v / 4096 % 0x40 + 0x80)).toNat = v / 4096 % 0x40 + 0x80 :=
    toNat_byte (by omega)
  have hlast : Fits (0x80, 0xbf) (UInt8.ofNat (v % 0x40 + 0x80)) := fits_tail (by omega)
  have hinner : Fits (0x80, 0xbf) (UInt8.ofNat (v / 64 % 0x40 + 0x80)) := fits_tail (by omega)
  split
  · have hascii := character_ascii
      (show (UInt8.ofNat v).toNat < 0x80 by rw [toNat_byte] <;> omega) rest
    rw [toNat_byte (by omega), ← hv, Char.ofNat_toNat] at hascii
    refine ⟨UInt8.ofNat v, [], rfl, ?_⟩
    rw [List.nil_append, ← hv, hascii]
    rfl
  · split
    · have hfirst : (UInt8.ofNat (v / 64 % 0x20 + 0xc0)).toNat = v / 64 % 0x20 + 0xc0 :=
        toNat_byte (by omega)
      refine ⟨_, [_], rfl, character_fits (following_two (n := v / 64 % 0x20) (by omega) (by omega))
        (.cons hlast .nil) ?_ rest⟩
      rw [payload_two, List.foldl_cons, List.foldl_nil, hfirst, hlow, hv]
      omega
    · split
      · have hfirst : (UInt8.ofNat (v / 4096 % 0x10 + 0xe0)).toNat = v / 4096 % 0x10 + 0xe0 :=
          toNat_byte (by omega)
        refine ⟨_, [_, _], rfl, character_fits (following_three (n := v / 4096 % 0x10) (by omega))
          (.cons ?_ (.cons hlast .nil)) ?_ rest⟩
        · simp only [Fits, hmiddle]
          split_ifs <;> omega
        · rw [payload_three, List.foldl_cons, List.foldl_cons, List.foldl_nil, hfirst, hmiddle, hlow, hv]
          omega
      · have hfirst : (UInt8.ofNat (v / 262144 % 0x08 + 0xf0)).toNat = v / 262144 % 0x08 + 0xf0 :=
          toNat_byte (by omega)
        refine ⟨_, [_, _, _], rfl, character_fits
          (following_four (n := v / 262144 % 0x08) (by omega))
          (.cons ?_ (.cons hinner (.cons hlast .nil))) ?_ rest⟩
        · simp only [Fits, hhigh]
          split_ifs <;> omega
        · rw [payload_four, List.foldl_cons, List.foldl_cons, List.foldl_cons, List.foldl_nil, hfirst,
            hhigh, hmiddle, hlow, hv]
          omega

theorem lossyFrom_utf8 {rounds : Nat} {text : Text} (h : (utf8 text).length ≤ rounds) :
    lossyFrom rounds (utf8 text) = text := by
  induction text generalizing rounds with
  | nil => cases rounds <;> rfl
  | cons c text ih =>
    obtain ⟨first, tail, hencoded, hcharacter⟩ := encoded_character c (utf8 text)
    have hbytes : utf8 (c :: text) = first :: (tail ++ utf8 text) := by
      rw [utf8, List.flatMap_cons, hencoded, List.cons_append]
      rfl
    rw [hbytes, List.length_cons, List.length_append] at h
    cases rounds with
    | zero => omega
    | succ rounds =>
      rw [hbytes, lossyFrom, hcharacter, List.drop_left, ih (by omega)]

theorem fromUtf8Lossy_utf8 (text : Text) : fromUtf8Lossy (utf8 text) = text :=
  lossyFrom_utf8 (Nat.le_refl _)

end RoundTrip

end MeridianMcp
