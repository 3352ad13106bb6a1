/-
# Masks of the high bits

`x & ~(2^k - 1)` and `x & (~0UL << k)` both round `x` down to a multiple of `2^k`.
-/
import Mathlib.Data.Nat.Basic
import Mathlib.Tactic.IntervalCases

namespace Yap

open BitVec

/-- `(~0UL) << k`. -/
def maskOf (k : ℕ) : BitVec 32 := (~~~0#32) <<< k

theorem maskOf_succ (k : ℕ) : maskOf k <<< 1 = maskOf (k + 1) := by
  simp [maskOf, shiftLeft_add]

theorem neg_maskOf (k : ℕ) (hk : k < 32) : -maskOf k = BitVec.ofNat 32 (2 ^ k) := by
  interval_cases k <;> decide

theorem toNat_and_maskOf (x : BitVec 32) (k : ℕ) :
    (x &&& maskOf k).toNat = x.toNat / 2 ^ k * 2 ^ k := by
  have h : x &&& maskOf k = (x >>> k) <<< k := by
    apply eq_of_getLsbD_eq
    intro i hi
    simp only [maskOf, getLsbD_and, getLsbD_shiftLeft, getLsbD_not,
      getLsbD_zero, getLsbD_ushiftRight]
    by_cases hik : i < k
    · simp [hik]
    · rw [show k + (i - k) = i by omega]
      simp [hik, hi]
      omega
  rw [h, toNat_shiftLeft, toNat_ushiftRight, Nat.shiftRight_eq_div_pow,
    Nat.shiftLeft_eq]
  apply Nat.mod_eq_of_lt
  exact lt_of_le_of_lt (Nat.div_mul_le_self _ _) x.isLt

theorem dvd_toNat_and_maskOf (x : BitVec 32) (k : ℕ) : 2 ^ k ∣ (x &&& maskOf k).toNat := by
  rw [toNat_and_maskOf]
  exact Nat.dvd_mul_left _ _

/-- Rounding up to a multiple of `2^k` leaves multiples alone. -/
theorem add_and_maskOf_of_dvd {x : BitVec 32} {k : ℕ} (hk : k < 32) (hx : 2 ^ k ∣ x.toNat) :
    (x + BitVec.ofNat 32 (2 ^ k) - 1) &&& maskOf k = x := by
  obtain ⟨q, hq⟩ := hx
  have hpow : 2 ^ k < 2 ^ 32 := Nat.pow_lt_pow_right (by decide) hk
  have hpos : 0 < 2 ^ k := Nat.two_pow_pos k
  have hone : (1 : BitVec 32).toNat = 1 := rfl
  have hsplit : 2 ^ k * 2 ^ (32 - k) = 2 ^ 32 := by
    rw [← Nat.pow_add]
    congr 1
    omega
  have hq32 : q < 2 ^ (32 - k) := by
    by_contra hge
    have := Nat.mul_le_mul_left (2 ^ k) (Nat.le_of_not_lt hge)
    omega
  have hbound : x.toNat + 2 ^ k ≤ 2 ^ 32 := by
    have := Nat.mul_le_mul_left (2 ^ k) hq32
    rw [Nat.mul_succ] at this
    omega
  apply eq_of_toNat_eq
  have hsum : (x + BitVec.ofNat 32 (2 ^ k) - 1).toNat = 2 ^ k * q + (2 ^ k - 1) := by
    rw [toNat_sub, toNat_add, toNat_ofNat, hone, Nat.mod_eq_of_lt hpow]
    omega
  rw [toNat_and_maskOf, hsum, Nat.mul_add_div hpos, Nat.div_eq_of_lt (by omega), Nat.add_zero,
    Nat.mul_comm, ← hq]

end Yap
