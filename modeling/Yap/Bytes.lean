/-
# Parts of lists

Reading a part of a list and writing one, by position.  Every fact about them is read off at
a position: `getElem?_slice` and `getElem?_patch` say what stands there.

At the end, the bytes of a word in memory.
-/
import Mathlib.Data.List.Basic
import Mathlib.Algebra.Order.Group.Nat

namespace Yap

open List

section

variable {α : Type*} {l xs : List α} {off n : ℕ}

/-- The `n` elements from position `off` on. -/
def slice (l : List α) (off n : ℕ) : List α := (l.drop off).take n

/-- The list with `xs` written at position `off`. -/
def patch (l : List α) (off : ℕ) (xs : List α) : List α :=
  l.take off ++ xs ++ l.drop (off + xs.length)

theorem length_slice (h : off + n ≤ l.length) : (slice l off n).length = n := by
  rw [slice, length_take, length_drop]
  omega

theorem getElem?_slice (i : ℕ) : (slice l off n)[i]? = if i < n then l[off + i]? else none := by
  rw [slice, getElem?_take]
  split_ifs
  · rw [getElem?_drop]
  · rfl

theorem length_patch (h : off + xs.length ≤ l.length) : (patch l off xs).length = l.length := by
  rw [patch, length_append, length_append, length_take, length_drop]
  omega

theorem getElem?_patch (h : off + xs.length ≤ l.length) (i : ℕ) :
    (patch l off xs)[i]? = if off ≤ i ∧ i < off + xs.length then xs[i - off]? else l[i]? := by
  have htake : (l.take off).length = off := by
    rw [length_take]
    omega
  rw [patch, List.append_assoc]
  by_cases hlow : i < off
  · rw [getElem?_append_left (by omega), getElem?_take_of_lt hlow, if_neg (by omega)]
  · rw [getElem?_append_right (by omega), htake]
    by_cases hhigh : i < off + xs.length
    · rw [getElem?_append_left (by omega), if_pos ⟨by omega, hhigh⟩]
    · rw [getElem?_append_right (by omega), getElem?_drop, if_neg (by omega)]
      congr 1
      omega

@[simp] theorem patch_nil : patch l off [] = l := by
  rw [patch, append_nil, length_nil, Nat.add_zero, take_append_drop]

@[simp] theorem slice_zero : slice l off 0 = [] := take_zero

/-- Writing behind a part leaves that part alone. -/
theorem patch_append {r : List α} (hoff : off = l.length) :
    patch (l ++ r) off xs = l ++ xs ++ r.drop xs.length := by
  subst hoff
  rw [patch, take_left, drop_append, drop_eq_nil_of_le (Nat.le_add_right _ _),
    nil_append, Nat.add_sub_cancel_left]

/-- Overwriting a list of the same length leaves nothing of the old one. -/
theorem patch_zero_of_length_eq (h : xs.length = l.length) : patch l 0 xs = xs := by
  rw [patch, take_zero, nil_append, Nat.zero_add, h, drop_length, append_nil]

theorem slice_slice {a m : ℕ} (h : off + n ≤ m) :
    slice (slice l a m) off n = slice l (a + off) n := by
  apply ext_getElem?
  intro i
  simp only [getElem?_slice, Nat.add_assoc]
  by_cases hi : i < n
  · rw [if_pos hi, if_pos hi, if_pos (by omega)]
  · rw [if_neg hi, if_neg hi]

theorem slice_zero_length : slice l 0 l.length = l := by
  rw [slice, drop_zero, take_length]

/-- Outside the part written, a list reads as before. -/
theorem slice_patch_outside {a : ℕ} (h : off + xs.length ≤ l.length)
    (hout : a + n ≤ off ∨ off + xs.length ≤ a) : slice (patch l off xs) a n = slice l a n := by
  apply ext_getElem?
  intro i
  rw [getElem?_slice, getElem?_slice]
  split_ifs with hi
  · rw [getElem?_patch h, if_neg (by omega)]
  · rfl

theorem slice_patch_self (h : off + xs.length ≤ l.length) :
    slice (patch l off xs) off xs.length = xs := by
  apply ext_getElem?
  intro i
  rw [getElem?_slice]
  split_ifs with hi
  · rw [getElem?_patch h, if_pos (by omega), Nat.add_sub_cancel_left]
  · rw [List.getElem?_eq_none (by omega)]

theorem slice_replicate {m : ℕ} (x : α) (h : n ≤ m) :
    slice (replicate m x) 0 n = replicate n x := by
  rw [slice, drop_zero, take_replicate, Nat.min_eq_left h]

/-- A list of one element after a run of each of two elements is written to it. -/
theorem getElem?_patch_runs {len m i : ℕ} (x y z : α) (hoff : off + (n + m) ≤ len)
    (hi : i < len) : (patch (replicate len x) off
      (replicate n y ++ replicate m z))[i]? =
      some (if off ≤ i ∧ i < off + n then y
        else if off + n ≤ i ∧ i < off + (n + m) then z else x) := by
  rw [getElem?_patch (by simpa using hoff), length_append, length_replicate,
    length_replicate]
  by_cases hfirst : off ≤ i ∧ i < off + n
  · rw [if_pos (by omega), if_pos hfirst, getElem?_append_left (by simp; omega),
      getElem?_replicate_of_lt (by omega)]
  · rw [if_neg hfirst]
    by_cases hsecond : off + n ≤ i ∧ i < off + (n + m)
    · rw [if_pos (by omega), if_pos hsecond, getElem?_append_right (by simp; omega),
        length_replicate, getElem?_replicate_of_lt (by omega)]
    · rw [if_neg (by omega), if_neg hsecond, getElem?_replicate_of_lt hi]

end

/-! ## Words -/

abbrev Byte := BitVec 8

/-- The bytes of a sixteen-bit word in memory. -/
def halfBytes (big : Bool) (v : BitVec 16) : List Byte :=
  if big then [v.extractLsb' 8 8, v.extractLsb' 0 8] else [v.extractLsb' 0 8, v.extractLsb' 8 8]

/-- The bytes of a thirty-two-bit word in memory. -/
def wordBytes (big : Bool) (v : BitVec 32) : List Byte :=
  if big then [v.extractLsb' 24 8, v.extractLsb' 16 8, v.extractLsb' 8 8, v.extractLsb' 0 8]
  else [v.extractLsb' 0 8, v.extractLsb' 8 8, v.extractLsb' 16 8, v.extractLsb' 24 8]

end Yap
