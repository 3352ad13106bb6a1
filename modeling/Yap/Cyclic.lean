/-
# Counters that wrap

A counter of `w` bits that only moves forwards takes the values of `BitVec w` in turn, again and
again.  How far one value is ahead of another can be told from the two values; which of two
values comes first cannot, unless it is said from where one looks.  `ahead b x` is the distance
from `b` to `x`, and values are in order, as seen from `b`, when their distances are.

Comparing the values as numbers agrees with this order exactly when the counter does not wrap
between the two (`le_iff_ahead_le_iff`).
-/
import Mathlib.Algebra.Order.Group.Nat

namespace Yap

namespace Cyclic

open BitVec

variable {w : ℕ} {b x y : BitVec w}

/-- How many steps it takes the counter from `b` to `x`. -/
def ahead (b x : BitVec w) : ℕ := (x - b).toNat

theorem ahead_of_le (h : b ≤ x) : ahead b x = x.toNat - b.toNat :=
  toNat_sub_of_le h

theorem ahead_of_lt (h : x < b) : ahead b x = 2 ^ w - b.toNat + x.toNat := by
  rw [lt_def] at h
  rw [ahead, toNat_sub, Nat.mod_eq_of_lt]
  omega

/-- The counter moves on by `n`. -/
theorem ahead_add {n : BitVec w} (h : ahead b x + n.toNat < 2 ^ w) :
    ahead b (x + n) = ahead b x + n.toNat := by
  have hsub : x + n - b = (x - b) + n := by
    rw [BitVec.sub_eq_add_neg, BitVec.sub_eq_add_neg, BitVec.add_assoc, BitVec.add_comm n,
      BitVec.add_assoc]
  rw [ahead, hsub, toNat_add]
  exact Nat.mod_eq_of_lt h

/-- On one side of the wrap the order of the numbers is the order as seen from `b`. -/
theorem le_iff_ahead_le (h : b ≤ x ↔ b ≤ y) : x ≤ y ↔ ahead b x ≤ ahead b y := by
  by_cases hx : b ≤ x
  · have hy := h.mp hx
    rw [ahead_of_le hx, ahead_of_le hy, le_def]
    rw [le_def] at hx hy
    omega
  · have hy : ¬ b ≤ y := fun hy => hx (h.mpr hy)
    rw [ahead_of_lt (BitVec.not_le.mp hx), ahead_of_lt (BitVec.not_le.mp hy), le_def]
    omega

/-- Across the wrap it is the other one. -/
theorem lt_of_wrapped (hx : b ≤ x) (hy : y < b) : y < x ∧ ahead b x < ahead b y := by
  rw [ahead_of_le hx, ahead_of_lt hy]
  rw [le_def] at hx
  rw [lt_def] at hy ⊢
  omega

/-- **The two orders agree** on `x` and `y` exactly when the counter does not wrap between them. -/
theorem le_iff_ahead_le_iff :
    (x ≤ y ↔ ahead b x ≤ ahead b y) ↔ (b ≤ x ↔ b ≤ y) := by
  refine ⟨fun h => ?_, le_iff_ahead_le⟩
  by_cases hx : b ≤ x <;> by_cases hy : b ≤ y
  · exact ⟨fun _ => hy, fun _ => hx⟩
  · obtain ⟨hlt, hahead⟩ := lt_of_wrapped hx (BitVec.not_le.mp hy)
    exact absurd (h.mpr hahead.le) (BitVec.not_le.mpr hlt)
  · obtain ⟨hlt, hahead⟩ := lt_of_wrapped hy (BitVec.not_le.mp hx)
    exact absurd (h.mp (BitVec.le_of_lt hlt)) (Nat.not_le.mpr hahead)
  · exact ⟨fun h' => absurd h' hx, fun h' => absurd h' hy⟩

end Cyclic

end Yap
