import MeridianMcp.Text

namespace MeridianMcp

def utf8 (text : Text) : List UInt8 := text.flatMap String.utf8EncodeChar

@[simp] theorem utf8_nil : utf8 [] = [] := rfl

@[simp] theorem utf8_append (text text' : Text) : utf8 (text ++ text') = utf8 text ++ utf8 text' :=
  List.flatMap_append

theorem utf8_injective : Function.Injective utf8 := by
  intro a b h
  have hencoded : a.utf8Encode = b.utf8Encode := congrArg List.toByteArray h
  have hdecoded := congrArg ByteArray.utf8Decode? hencoded
  rw [List.utf8Decode?_utf8Encode, List.utf8Decode?_utf8Encode, Option.some.injEq] at hdecoded
  exact Array.toList_inj.mpr hdecoded

@[simp] theorem length_utf8_cons (c : Char) (text : Text) :
    (utf8 (c :: text)).length = c.utf8Size + (utf8 text).length := by
  rw [utf8, List.flatMap_cons, List.length_append, String.length_utf8EncodeChar]
  rfl

theorem encoded_bytes (c : Char) :
    (c.toNat < 0x80 ∧ String.utf8EncodeChar c = [UInt8.ofNat c.toNat]) ∨
      ∀ byte ∈ String.utf8EncodeChar c, 0x80 ≤ byte.toNat := by
  have hcode : c.toNat = c.val.toNat := rfl
  have hbyte : ∀ n < 256, (UInt8.ofNat n).toNat = n := fun n hn => Nat.mod_eq_of_lt hn
  rw [String.utf8EncodeChar]
  split
  · exact Or.inl ⟨by omega, rfl⟩
  · refine Or.inr ?_
    split_ifs
    all_goals
      simp only [List.forall_mem_cons, List.not_mem_nil, false_implies, implies_true, and_true]
      rw [hbyte _ (by omega), hbyte _ (by omega)]
      try rw [hbyte _ (by omega)]
      try rw [hbyte _ (by omega)]
      omega

-- An ASCII byte of an encoded text is a character of the text.
theorem ascii_mem_utf8 {byte : UInt8} (hbyte : byte.toNat < 0x80) {text : Text}
    (h : byte ∈ utf8 text) : Char.ofNat byte.toNat ∈ text := by
  obtain ⟨c, hc, hin⟩ := List.mem_flatMap.mp h
  rcases encoded_bytes c with ⟨hascii, hone⟩ | hlong
  · rw [hone, List.mem_singleton] at hin
    have htoNat : byte.toNat = c.toNat := by
      rw [hin]
      exact Nat.mod_eq_of_lt (by omega)
    rw [htoNat, Char.ofNat_toNat]
    exact hc
  · exact absurd (hlong byte hin) (Nat.not_le.mpr hbyte)

def isCharBoundary : Text → Nat → Bool
  | _, 0 => true
  | [], _ + 1 => false
  | c :: text, index + 1 =>
    decide (c.utf8Size ≤ index + 1) && isCharBoundary text (index + 1 - c.utf8Size)

def sliceTo : Text → Nat → Text
  | _, 0 => []
  | [], _ + 1 => []
  | c :: text, index + 1 => c :: sliceTo text (index + 1 - c.utf8Size)

theorem sliceTo_prefix (text : Text) (index : Nat) : sliceTo text index <+: text := by
  induction text generalizing index with
  | nil => cases index <;> exact List.prefix_refl _
  | cons c text ih =>
    cases index with
    | zero => exact List.nil_prefix
    | succ index => exact (List.prefix_cons_inj c).mpr (ih _)

theorem length_sliceTo {text : Text} {index : Nat} (h : isCharBoundary text index = true) :
    (utf8 (sliceTo text index)).length = index := by
  induction text generalizing index with
  | nil =>
    cases index with
    | zero => rfl
    | succ index => cases h
  | cons c text ih =>
    cases index with
    | zero => rfl
    | succ index =>
      simp only [isCharBoundary, Bool.and_eq_true, decide_eq_true_eq] at h
      rw [sliceTo, length_utf8_cons, ih h.2]
      omega

-- The control characters are those of the general category Cc.
def isControl (c : Char) : Bool := c.toNat < 0x20 || 0x7f ≤ c.toNat && c.toNat ≤ 0x9f

def toAsciiLowercase (text : Text) : Text := text.map Char.toLower

def isWhitespace (c : Char) : Bool :=
  (9 ≤ c.toNat && c.toNat ≤ 13) || c.toNat = 0x20 || c.toNat = 0x85 || c.toNat = 0xa0 ||
    c.toNat = 0x1680 || (0x2000 ≤ c.toNat && c.toNat ≤ 0x200a) || c.toNat = 0x2028 ||
    c.toNat = 0x2029 || c.toNat = 0x202f || c.toNat = 0x205f || c.toNat = 0x3000

theorem toNat_toLower (c : Char) :
    c.toLower.toNat = if 65 ≤ c.toNat ∧ c.toNat ≤ 90 then c.toNat + 32 else c.toNat := by
  have hrange : (c.val ≥ 'A'.val ∧ c.val ≤ 'Z'.val) ↔ 65 ≤ c.toNat ∧ c.toNat ≤ 90 := by
    rw [ge_iff_le, UInt32.le_iff_toNat_le, UInt32.le_iff_toNat_le]
    rfl
  delta Char.toLower
  split
  · rename_i h
    have hc := hrange.mp h
    have hmax : c.val.toNat ≤ 90 := hc.2
    rw [if_pos hc]
    change (c.val.toNat + 32) % 2 ^ 32 = c.val.toNat + 32
    omega
  · rename_i h
    rw [if_neg fun hc => h (hrange.mpr hc)]

end MeridianMcp
