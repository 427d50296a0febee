import Mathlib.Algebra.Order.Floor.Semiring
import Mathlib.Algebra.Order.Field.Basic

namespace Interpolation

variable {K : Type} [Field K] [LinearOrder K] [IsStrictOrderedRing K] [FloorSemiring K]

-- The value at a place between the values at the whole numbers around it.
def between (a : ℕ → K) (h : K) : K := a ⌊h⌋₊ + (h - ⌊h⌋₊) * (a ⌈h⌉₊ - a ⌊h⌋₊)

section Between

variable {a : ℕ → K} {h k : K}

theorem between_eq (hh : 0 ≤ h) :
    between a h = a ⌊h⌋₊ + (h - ⌊h⌋₊) * (a (⌊h⌋₊ + 1) - a ⌊h⌋₊) := by
  rcases (Nat.ceil_le_floor_add_one h).eq_or_lt with heq | hlt
  · rw [between, heq]
  · have hfloor : (⌊h⌋₊ : K) = h := by
      have hceil : (⌈h⌉₊ : K) ≤ ⌊h⌋₊ := Nat.cast_le.mpr (Nat.lt_succ_iff.mp hlt)
      exact le_antisymm (Nat.floor_le hh) ((Nat.le_ceil h).trans hceil)
    rw [between, hfloor, sub_self, zero_mul, zero_mul]

theorem floor_le_between (ha : Monotone a) (hh : 0 ≤ h) : a ⌊h⌋₊ ≤ between a h := by
  have hpart : 0 ≤ h - ⌊h⌋₊ := sub_nonneg.mpr (Nat.floor_le hh)
  have hrise : 0 ≤ a ⌈h⌉₊ - a ⌊h⌋₊ := sub_nonneg.mpr (ha (Nat.floor_le_ceil h))
  exact le_add_of_nonneg_right (mul_nonneg hpart hrise)

theorem between_le_ceil (ha : Monotone a) : between a h ≤ a ⌈h⌉₊ := by
  have hpart : h - ⌊h⌋₊ ≤ 1 := (sub_lt_iff_lt_add'.mpr (Nat.lt_floor_add_one h)).le
  have hrise : 0 ≤ a ⌈h⌉₊ - a ⌊h⌋₊ := sub_nonneg.mpr (ha (Nat.floor_le_ceil h))
  have hproduct := mul_le_mul_of_nonneg_right hpart hrise
  rw [one_mul] at hproduct
  exact (add_le_add_right hproduct _).trans_eq (add_sub_cancel ..)

theorem between_mono (ha : Monotone a) (hh : 0 ≤ h) (hk : h ≤ k) : between a h ≤ between a k := by
  rcases (Nat.floor_mono hk).eq_or_lt with heq | hlt
  · rw [between_eq hh, between_eq (hh.trans hk), heq]
    have hrise : 0 ≤ a (⌊k⌋₊ + 1) - a ⌊k⌋₊ := sub_nonneg.mpr (ha (Nat.le_succ _))
    exact add_le_add_right (mul_le_mul_of_nonneg_right (sub_le_sub_right hk _) hrise) _
  · calc between a h ≤ a ⌈h⌉₊ := between_le_ceil ha
      _ ≤ a ⌊k⌋₊ := ha ((Nat.ceil_le_floor_add_one h).trans hlt)
      _ ≤ between a k := floor_le_between ha (hh.trans hk)

theorem between_mem {n : ℕ} (ha : Monotone a) (hh : 0 ≤ h) (hn : h ≤ n) :
    a 0 ≤ between a h ∧ between a h ≤ a n :=
  ⟨(ha (Nat.zero_le _)).trans (floor_le_between ha hh),
    (between_le_ceil ha).trans (ha (Nat.ceil_le.mpr hn))⟩

end Between

end Interpolation
