import Mathlib.Data.Char
import Mathlib.Data.String.Basic
import Mathlib.Data.List.Lex
import Mathlib.Logic.Function.Basic

namespace MeridianMcp

abbrev Text := List Char

instance text_lawfulBEq : LawfulBEq Text := inferInstance

def hexDigit (n : Nat) : Char := if n < 10 then Char.ofNat (48 + n) else Char.ofNat (87 + n)

def hex (bytes : List UInt8) : String :=
  String.ofList (bytes.flatMap fun b => [hexDigit (b.toNat / 16), hexDigit (b.toNat % 16)])

theorem hexDigit_injective {a b : Nat} (ha : a < 16) (hb : b < 16) (h : hexDigit a = hexDigit b) : a = b := by
  have hall : ∀ a b : Fin 16, hexDigit a = hexDigit b → a = b := by decide
  exact congrArg Fin.val (hall ⟨a, ha⟩ ⟨b, hb⟩ h)

theorem hex_injective : Function.Injective hex := by
  intro a b h
  unfold hex at h
  have hdigits := String.ofList_injective h
  clear h
  induction a generalizing b with
  | nil =>
    cases b with
    | nil => rfl
    | cons y b => cases hdigits
  | cons x a ih =>
    cases b with
    | nil => cases hdigits
    | cons y b =>
      simp only [List.flatMap_cons, List.cons_append, List.nil_append, List.cons.injEq] at hdigits
      obtain ⟨hhigh, hlow, hrest⟩ := hdigits
      have hx := x.toNat_lt
      have hy := y.toNat_lt
      have hhigh := hexDigit_injective (by omega) (by omega) hhigh
      have hlow := hexDigit_injective (by omega) (by omega) hlow
      have hbyte : x = y := UInt8.toNat_inj.mp (by omega)
      rw [hbyte, ih hrest]

theorem append_ne_append {a b x y : String} {n : Nat} (ha : n < a.toList.length)
    (hb : n < b.toList.length) (hab : a.toList[n]? ≠ b.toList[n]?) : a ++ x ≠ b ++ y := by
  intro h
  have hchar := congrArg (fun s => s.toList[n]?) h
  simp only [String.toList_append, List.getElem?_append_left ha, List.getElem?_append_left hb] at hchar
  exact hab hchar

theorem append_ne_self {a b x : String} {n : Nat} (ha : n < a.toList.length)
    (hb : n < b.toList.length) (hab : a.toList[n]? ≠ b.toList[n]?) : a ++ x ≠ b := by
  rw [← String.append_empty (s := b)]
  exact append_ne_append ha hb hab

theorem append_ne_of_ends {a b x y : String} {n : Nat} (ha : n < a.toList.length)
    (hb : n < b.toList.length) (hab : a.toList.reverse[n]? ≠ b.toList.reverse[n]?) :
    x ++ a ≠ y ++ b := by
  intro h
  have hchar := congrArg (fun s => s.toList.reverse[n]?) h
  simp only [String.toList_append, List.reverse_append] at hchar
  rw [List.getElem?_append_left (by simpa using ha), List.getElem?_append_left (by simpa using hb)]
    at hchar
  exact hab hchar

def slashed (t : Text) : Text := t.map fun c => if c = '\\' then '/' else c

theorem slashed_of_not_mem {t : Text} (h : '\\' ∉ t) : slashed t = t := by
  induction t with
  | nil => rfl
  | cons c t ih =>
    rw [List.mem_cons, not_or] at h
    have hc : c ≠ '\\' := Ne.symm h.1
    simp only [slashed, List.map_cons, if_neg hc]
    exact congrArg _ (ih h.2)

end MeridianMcp
