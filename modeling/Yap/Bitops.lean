/-
# Bitmaps (`kernel/bitops.c`)

`test_and_change_bit`, `change_bit` and `test_and_set_bit` address bit `nr` of a byte
array as bit `nr & 7` of byte `nr >> 3`.  `bitAt` reads the array as a sequence of bits;
in that reading each of them changes one bit and leaves all others alone.

`set_bit`, `clear_bit` and `test_bit` address bit `nr` of an array of words as bit
`nr & 31` of word `nr >> 5`.  On a little-endian machine both see the same bits of the
same memory (`testBit_wordsOf`).
-/
import Mathlib

namespace Yap

open Function BitVec
open Nat (mod_lt shiftRight_eq_div_pow)

/-- An `unsigned char *map`. -/
abbrev ByteMap := ℕ → BitVec 8

/-- `test_and_change_bit(nr, map)`: the returned value and the array afterwards. -/
def testAndChangeBit (nr : ℕ) (map : ByteMap) : BitVec 8 × ByteMap :=
  let oldvalue := map (nr >>> 3)
  (oldvalue &&& (1#8 <<< (nr &&& 7)),
    update map (nr >>> 3) (oldvalue ^^^ (1#8 <<< (nr &&& 7))))

/-- `change_bit(nr, map)`. -/
def changeBit (nr : ℕ) (map : ByteMap) : ByteMap :=
  let oldvalue := map (nr >>> 3)
  update map (nr >>> 3) (oldvalue ^^^ (1#8 <<< (nr &&& 7)))

/-- Bit `nr` of the array. -/
def bitAt (map : ByteMap) (nr : ℕ) : Bool := (map (nr / 8)).getLsbD (nr % 8)

theorem testAndChangeBit_snd (nr : ℕ) (map : ByteMap) :
    (testAndChangeBit nr map).2 = changeBit nr map := rfl

/-- In a word of `w = 2 ^ k` bits the mask `1 << (nr & (w - 1))` selects one bit. -/
theorem getLsbD_mask {w k : ℕ} (hw : w = 2 ^ k) (i j : ℕ) (hj : j < w) :
    (1#w <<< (i &&& (w - 1))).getLsbD j = decide (j = i % w) := by
  have hi : i &&& (w - 1) = i % w := by rw [hw, Nat.and_two_pow_sub_one_eq_mod]
  rw [hi, getLsbD_shiftLeft]
  by_cases h : j = i % w
  · subst h
    simp
    omega
  · simp [h]
    omega

theorem and_mask_eq_zero {w k : ℕ} (hw : w = 2 ^ k) (x : BitVec w) (nr : ℕ) :
    x &&& (1#w <<< (nr &&& (w - 1))) = 0 ↔ x.getLsbD (nr % w) = false := by
  have hlt : nr % w < w := mod_lt _ (hw ▸ Nat.two_pow_pos k)
  constructor
  · intro h
    have h1 := congrArg (fun v : BitVec w => v.getLsbD (nr % w)) h
    simp only [getLsbD_and, getLsbD_mask hw nr (nr % w) hlt] at h1
    simpa using h1
  · intro h
    apply eq_of_getLsbD_eq
    intro i hi
    rw [getLsbD_and, getLsbD_mask hw nr i hi]
    by_cases hi' : i = nr % w
    · subst hi'
      simp [h]
    · simp [hi']

/-- A bitwise operation with the mask of `nr` acts on the bit `nr` alone. -/
theorem bitAt_update_mask {op : BitVec 8 → BitVec 8 → BitVec 8} {f : Bool → Bool → Bool}
    (hop : ∀ x y i, (op x y).getLsbD i = f (x.getLsbD i) (y.getLsbD i)) (hf : ∀ b, f b false = b)
    (nr : ℕ) (map : ByteMap) (m : ℕ) :
    bitAt (update map (nr >>> 3) (op (map (nr >>> 3)) (1#8 <<< (nr &&& 7)))) m =
      f (bitAt map m) (decide (m = nr)) := by
  unfold bitAt
  rw [shiftRight_eq_div_pow]
  by_cases hm : m / 8 = nr / 2 ^ 3
  · rw [hm, update_self, hop, getLsbD_mask (w := 8) (k := 3) rfl nr (m % 8) (mod_lt _ (by decide))]
    congr 1
    rw [decide_eq_decide]
    omega
  · rw [update_of_ne hm]
    have : m ≠ nr := by rintro rfl; exact hm (by norm_num)
    simp [this, hf]

section

variable (nr : ℕ) (map : ByteMap)

theorem bitAt_changeBit (m : ℕ) : bitAt (changeBit nr map) m = (bitAt map m ^^ decide (m = nr)) :=
  bitAt_update_mask (fun _ _ _ => getLsbD_xor) Bool.xor_false nr map m

theorem testAndChangeBit_fst_eq_zero : (testAndChangeBit nr map).1 = 0 ↔ bitAt map nr = false := by
  unfold testAndChangeBit bitAt
  rw [shiftRight_eq_div_pow]
  exact and_mask_eq_zero (k := 3) rfl _ nr

/-- `test_and_set_bit(nr, map)`, the array afterwards. -/
def testAndSetBit : ByteMap :=
  update map (nr >>> 3) (map (nr >>> 3) ||| (1#8 <<< (nr &&& 7)))

theorem bitAt_testAndSetBit (m : ℕ) :
    bitAt (testAndSetBit nr map) m = (bitAt map m || decide (m = nr)) :=
  bitAt_update_mask (fun _ _ _ => getLsbD_or) Bool.or_false nr map m

end

/-! ## Words -/

/-- A `long *addr`. -/
abbrev WordMap := ℕ → BitVec 32

section

variable (nr : ℕ) (addr : WordMap)

/-- `set_bit(nr, addr)`, the array afterwards. -/
def setBit : WordMap :=
  update addr (nr >>> 5) (addr (nr >>> 5) ||| (1#32 <<< (nr &&& 0x1f)))

/-- `clear_bit(nr, addr)`, the array afterwards. -/
def clearBit : WordMap :=
  update addr (nr >>> 5) (addr (nr >>> 5) &&& ~~~(1#32 <<< (nr &&& 0x1f)))

/-- `test_bit(nr, addr)`. -/
def testBit : Bool :=
  (1#32 <<< (nr &&& 0x1f)) &&& addr (nr >>> 5) ≠ 0

/-- `test_bit` reads bit `nr & 31` of word `nr >> 5`. -/
theorem testBit_eq : testBit nr addr = (addr (nr / 32)).getLsbD (nr % 32) := by
  have hzero := and_mask_eq_zero (w := 32) (k := 5) rfl (addr (nr / 32)) nr
  rw [testBit, shiftRight_eq_div_pow, BitVec.and_comm, Bool.eq_iff_iff, decide_eq_true_iff]
  exact (not_congr hzero).trans (Bool.not_eq_false _).to_iff

@[simp] theorem testBit_setBit : testBit nr (setBit nr addr) = true := by
  have hlt : nr % 32 < 32 := mod_lt _ (by decide)
  rw [testBit_eq, setBit, shiftRight_eq_div_pow, update_self, getLsbD_or,
    getLsbD_mask (w := 32) (k := 5) rfl nr (nr % 32) hlt]
  simp

@[simp] theorem testBit_clearBit : testBit nr (clearBit nr addr) = false := by
  have hlt : nr % 32 < 32 := mod_lt _ (by decide)
  rw [testBit_eq, clearBit, shiftRight_eq_div_pow, update_self, getLsbD_and,
    getLsbD_not, getLsbD_mask (w := 32) (k := 5) rfl nr (nr % 32) hlt]
  simp

end

/-- The words a little-endian machine reads in an array of bytes. -/
def wordsOf (map : ByteMap) : WordMap := fun i =>
  map (4 * i + 3) ++ map (4 * i + 2) ++ map (4 * i + 1) ++ map (4 * i)

theorem testBit_wordsOf (nr : ℕ) (map : ByteMap) : testBit nr (wordsOf map) = bitAt map nr := by
  obtain ⟨q, r, hr, rfl⟩ : ∃ q r, r < 32 ∧ nr = 32 * q + r :=
    ⟨nr / 32, nr % 32, mod_lt _ (by decide), by omega⟩
  rw [testBit_eq, bitAt, wordsOf, getLsbD_append, getLsbD_append,
    getLsbD_append, show (32 * q + r) / 32 = q by omega, show (32 * q + r) % 32 = r by omega]
  -- by the byte of the word that the bit lies in
  by_cases h0 : r < 8
  · rw [if_pos h0, show (32 * q + r) / 8 = 4 * q by omega, show (32 * q + r) % 8 = r by omega]
  · by_cases h1 : r < 16
    · rw [if_neg h0, if_pos (by omega), show (32 * q + r) / 8 = 4 * q + 1 by omega,
        show (32 * q + r) % 8 = r - 8 by omega]
    · by_cases h2 : r < 24
      · rw [if_neg h0, if_neg (by omega), if_pos (by omega),
          show (32 * q + r) / 8 = 4 * q + 2 by omega,
          show (32 * q + r) % 8 = r - 8 - 8 by omega]
      · rw [if_neg h0, if_neg (by omega), if_neg (by omega),
          show (32 * q + r) / 8 = 4 * q + 3 by omega,
          show (32 * q + r) % 8 = r - 8 - 8 - 8 by omega]

end Yap
