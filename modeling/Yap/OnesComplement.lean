/-
# Sums of sixteen-bit words in ones' complement

A checksum in ones' complement is a sum modulo `2 ^ 16 - 1`: carries out of the upper end come in
again at the lower end (`fold`).  The order of the two bytes of a word does not matter for whether
such a sum is zero, since swapping them multiplies the sum by `256` (`bigSum_modEq`).
-/
import Mathlib.Algebra.Order.Group.Nat
import Mathlib.Data.Nat.ModEq
import Mathlib.Tactic.NormNum

namespace Yap

namespace OnesComplement

open List

/-- The sum of the words of a byte string, upper byte first. -/
def bigSum : List (BitVec 8) → ℕ
  | [] => 0
  | [a] => 256 * a.toNat
  | a :: b :: l => 256 * a.toNat + b.toNat + bigSum l

/-- The sum of the words of a byte string, lower byte first. -/
def littleSum : List (BitVec 8) → ℕ
  | [] => 0
  | [a] => a.toNat
  | a :: b :: l => a.toNat + 256 * b.toNat + littleSum l

/-- A byte string whose words add up to zero in ones' complement, but are not all zero. -/
def Verifies (l : List (BitVec 8)) : Prop := 0 < bigSum l ∧ bigSum l % 65535 = 0

/-- The two halves of a number added up, and the carry of that added once more. -/
def fold (s : ℕ) : ℕ :=
  let t := s / 2 ^ 16 + s % 2 ^ 16
  (t + t / 2 ^ 16) % 2 ^ 16

/-- Swapping the bytes of all words multiplies their sum by `256`. -/
theorem bigSum_modEq : ∀ l : List (BitVec 8), bigSum l ≡ 256 * littleSum l [MOD 65535]
  | [] => rfl
  | [_] => rfl
  | a :: b :: l => by
      have ih := bigSum_modEq l
      unfold Nat.ModEq at ih ⊢
      unfold bigSum littleSum
      omega

theorem bigSum_pos_iff : ∀ l : List (BitVec 8), 0 < bigSum l ↔ 0 < littleSum l
  | [] => Iff.rfl
  | [a] => by
      unfold bigSum littleSum
      omega
  | a :: b :: l => by
      have ih := bigSum_pos_iff l
      unfold bigSum littleSum
      omega

/-- Either order of the bytes may be used to verify. -/
theorem verifies_iff_littleSum (l : List (BitVec 8)) :
    Verifies l ↔ 0 < littleSum l ∧ littleSum l % 65535 = 0 := by
  have hmod := bigSum_modEq l
  unfold Nat.ModEq at hmod
  apply and_congr (bigSum_pos_iff l)
  omega

/-- Folding subtracts a multiple of `2 ^ 16 - 1`. -/
theorem exists_fold {s : ℕ} (hs : s < 2 ^ 32) :
    ∃ k, s = fold s + 65535 * k ∧ fold s ≤ 65535 ∧ (fold s = 0 → k = 0) := by
  have hlow : s / 2 ^ 16 < 2 ^ 16 := by omega
  have hsplit : s = 2 ^ 16 * (s / 2 ^ 16) + s % 2 ^ 16 := (Nat.div_add_mod s (2 ^ 16)).symm
  have hrest : s % 2 ^ 16 < 2 ^ 16 := Nat.mod_lt _ (by norm_num)
  unfold fold
  generalize s / 2 ^ 16 = h at hlow hsplit
  generalize s % 2 ^ 16 = l at hsplit hrest
  by_cases hcarry : h + l < 2 ^ 16
  · refine ⟨h, ?_⟩
    simp only [Nat.div_eq_of_lt hcarry]
    omega
  · have hone : (h + l) / 2 ^ 16 = 1 := by omega
    refine ⟨h + 1, ?_⟩
    simp only [hone]
    omega

/-- **The complement of the folded sum** added to the sum gives zero in ones' complement. -/
theorem add_complement_fold {s : ℕ} (hs : s < 2 ^ 32) :
    0 < s + (65535 - fold s) ∧ (s + (65535 - fold s)) % 65535 = 0 := by
  obtain ⟨k, hk, hle, -⟩ := exists_fold hs
  have hsum : s + (65535 - fold s) = 65535 * (k + 1) := by omega
  refine ⟨by omega, ?_⟩
  rw [hsum, Nat.mul_mod_right]

end OnesComplement

end Yap
