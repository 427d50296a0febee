import Mathlib.Algebra.Ring.Nat
import Mathlib.Data.List.Basic

namespace ByteWords

def leBytes : Nat → Nat → List UInt8
  | 0, _ => []
  | width + 1, n => UInt8.ofNat n :: leBytes width (n / 256)

def beBytes (width n : Nat) : List UInt8 := (leBytes width n).reverse

@[simp] theorem length_leBytes (width n : Nat) : (leBytes width n).length = width := by
  induction width generalizing n with
  | zero => rfl
  | succ width ih => rw [leBytes, List.length_cons, ih]

theorem leBytes_injective {width n m : Nat} (hn : n < 256 ^ width) (hm : m < 256 ^ width)
    (h : leBytes width n = leBytes width m) : n = m := by
  induction width generalizing n m with
  | zero =>
    rw [Nat.pow_zero] at hn hm
    omega
  | succ width ih =>
    rw [Nat.pow_succ] at hn hm
    obtain ⟨hlow, hhigh⟩ := List.cons.inj h
    have hdiv := ih (Nat.div_lt_of_lt_mul (by rwa [Nat.mul_comm]))
      (Nat.div_lt_of_lt_mul (by rwa [Nat.mul_comm])) hhigh
    have hmod : n % 256 = m % 256 := by
      have htoNat := congrArg UInt8.toNat hlow
      rwa [UInt8.toNat_ofNat', UInt8.toNat_ofNat'] at htoNat
    rw [← Nat.div_add_mod n 256, ← Nat.div_add_mod m 256, hdiv, hmod]

end ByteWords
