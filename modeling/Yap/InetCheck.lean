/-
# The checksum of a segment (`inet_check` in `net/inet/inet.c`)

`__inet_chksum` adds up words of two bytes: for an odd size the byte behind the buffer is added
too.  `inet_check` passes twelve more than the size of the segment as an `unsigned short`.
`inetChksum_exact_iff` says when the result is the sum in ones' complement of the bytes of the
buffer, and when a receiver accepts it.
-/
import Yap.IpFragmentSend

namespace Yap

namespace InetCheck

open Ip OnesComplement List BitVec

/-- Addition in ones' complement: the carry comes in again at the lower end. -/
def onesAdd (a b : ℕ) : ℕ := if 65535 < a + b then a + b - 65535 else a + b

/-- The sum in ones' complement of the words of a byte string, with a zero behind an odd last
byte. -/
def onesSum (big : Bool) : List Byte → ℕ
  | [] => 0
  | [a] => (checkPtr big a 0).toNat
  | a :: b :: l => onesAdd (checkPtr big a b).toNat (onesSum big l)

/-- The checksum that the protocols ask for. -/
def checksum (big : Bool) (l : List Byte) : BitVec 16 := BitVec.ofNat 16 (65535 - onesSum big l)

/-- `__inet_chksum(buffer, size)`, where `mem` is the memory from `buffer` on.  It is read in whole
words: an odd last byte with the byte behind it. -/
def inetChksumAt (big : Bool) (mem : List Byte) (size : BitVec 16) : Option (BitVec 16) :=
  inetChksum big (mem.take (size.toNat + size.toNat % 2))

/-- The bytes of `struct inet_pseudo_hdr`. -/
def inetPseudoHdr (big : Bool) (sip dip : BitVec 32) (proto : BitVec 8) (size : BitVec 16) :
    List Byte :=
  wordBytes big sip ++ wordBytes big dip ++ [0, proto] ++ halfBytes big (htons big size)

/-- `inet_check(sip, dip, buffer, size, proto)`: the header is written right before the buffer. -/
def inetCheck (big : Bool) (sip dip : BitVec 32) (proto : BitVec 8) (buffer : List Byte)
    (behind : Byte) : Option (BitVec 16) :=
  let size := BitVec.ofNat 16 buffer.length
  inetChksumAt big (inetPseudoHdr big sip dip proto size ++ buffer ++ [behind]) (12 + size)

/-- What is added to the sum of `mem` by the byte behind it, or left out when twelve more than the
size is no `unsigned short`, does not matter. -/
def SumsUp (big : Bool) (mem : List Byte) (behind : Byte) : Prop :=
  if mem.length < 2 ^ 16 then mem.length % 2 = 0 ∨ behind = 0
  else hostSum big (mem.drop (mem.length - 2 ^ 16 + mem.length % 2)) % 65535 = 0

section

variable {big : Bool} {l : List Byte}

theorem hostSum_singleton (a : Byte) : hostSum big [a] = (checkPtr big a 0).toNat := by
  rw [toNat_checkPtr]
  cases big with
  | true => rfl
  | false => exact (Nat.zero_add a.toNat).symm

/-- The sum in ones' complement is the sum, up to a multiple of `2 ^ 16 - 1`. -/
theorem onesSum_spec (big : Bool) (l : List Byte) :
    ∃ k, hostSum big l = onesSum big l + 65535 * k ∧ onesSum big l ≤ 65535 ∧
      (onesSum big l = 0 → k = 0) := by
  induction l using bigSum.induct with
  | case1 => exact ⟨0, by cases big <;> rfl, Nat.zero_le _, fun _ => rfl⟩
  | case2 a =>
    refine ⟨0, hostSum_singleton a, ?_, fun _ => rfl⟩
    show (checkPtr big a 0).toNat ≤ 65535
    omega
  | case3 a b l ih =>
    obtain ⟨k, hk, hle, h0⟩ := ih
    rw [hostSum_cons_cons, onesSum, onesAdd]
    split_ifs with hcarry
    · exact ⟨k + 1, by omega, by omega, by omega⟩
    · exact ⟨k, by omega, by omega, by omega⟩

/-- An odd last byte and the byte behind it. -/
theorem hostSum_concat (hodd : l.length % 2 = 1) (b : Byte) :
    hostSum big (l ++ [b]) = hostSum big l + (checkPtr big 0 b).toNat := by
  have hword : ∀ a : Byte, (checkPtr big a b).toNat =
      (checkPtr big a 0).toNat + (checkPtr big 0 b).toNat := by
    intro a
    have hzero : (0 : Byte).toNat = 0 := rfl
    rw [toNat_checkPtr, toNat_checkPtr, toNat_checkPtr]
    split_ifs <;> omega
  induction l using bigSum.induct with
  | case1 => exact absurd hodd (by decide)
  | case2 a =>
    rw [singleton_append, hostSum_cons_cons, hostSum_singleton, hword]
    cases big <;> rfl
  | case3 a c l ih =>
    rw [List.cons_append, List.cons_append, hostSum_cons_cons, hostSum_cons_cons,
      ih (by simp only [length_cons] at hodd; omega), Nat.add_assoc]

/-- The byte behind the buffer counts for less than `2 ^ 16 - 1`. -/
theorem checkPtr_zero (big : Bool) (b : Byte) :
    (checkPtr big 0 b).toNat < 65535 ∧ ((checkPtr big 0 b).toNat = 0 ↔ b = 0) := by
  have hb : b = 0 ↔ b.toNat = 0 := ⟨fun h => by rw [h]; rfl, fun h => eq_of_toNat_eq h⟩
  have hzero : (0 : Byte).toNat = 0 := rfl
  rw [hb, toNat_checkPtr]
  split_ifs <;> omega

/-- `__inet_chksum` of the words that it reads. -/
theorem inetChksumAt_spec (big : Bool) {mem : List Byte} {size : BitVec 16}
    (hmem : size.toNat + size.toNat % 2 ≤ mem.length) :
    ∃ c s k, inetChksumAt big mem size = some c ∧
      hostSum big (mem.take (size.toNat + size.toNat % 2)) = s + 65535 * k ∧
      c.toNat = 65535 - s ∧ s ≤ 65535 ∧ (s = 0 → k = 0) := by
  have hlen : (mem.take (size.toNat + size.toNat % 2)).length = size.toNat + size.toNat % 2 := by
    rw [length_take, Nat.min_eq_left hmem]
  have hle := hostSum_le big (mem.take (size.toNat + size.toNat % 2))
  obtain ⟨c, hc, hval⟩ := inetChksum_spec big
    (show (mem.take (size.toNat + size.toNat % 2)).length % 2 = 0 by omega) (by omega)
  obtain ⟨k, hk, hfold, h0⟩ := exists_fold
    (show hostSum big (mem.take (size.toNat + size.toNat % 2)) < 2 ^ 32 by omega)
  exact ⟨c, _, k, hc, hk, hval, hfold, h0⟩

/-- The words read of a buffer with an `unsigned short` for its size: an odd last byte comes with
the byte behind. -/
theorem hostSum_read (big : Bool) (l : List Byte) (behind : Byte) :
    ∃ d, hostSum big ((l ++ [behind]).take (l.length + l.length % 2)) = hostSum big l + d ∧
      d < 65535 ∧ (d = 0 ↔ l.length % 2 = 0 ∨ behind = 0) := by
  rcases Nat.mod_two_eq_zero_or_one l.length with heven | hodd
  · refine ⟨0, ?_, by decide, by simp [heven]⟩
    rw [heven, Nat.add_zero, Nat.add_zero, take_left]
  · obtain ⟨hlt, hzero⟩ := checkPtr_zero big behind
    refine ⟨_, ?_, hlt, hzero.trans (or_iff_right (by omega)).symm⟩
    rw [hodd, take_of_length_le (by simp), hostSum_concat hodd]

end

theorem length_inetPseudoHdr (big : Bool) (sip dip : BitVec 32) (proto : BitVec 8)
    (size : BitVec 16) : (inetPseudoHdr big sip dip proto size).length = 12 := by
  cases big <;> rfl

/-- `inet_check` of the words that it reads. -/
theorem inetCheck_spec (big : Bool) (sip dip : BitVec 32) (proto : BitVec 8) (buffer : List Byte)
    (behind : Byte) :
    let mem := inetPseudoHdr big sip dip proto (BitVec.ofNat 16 buffer.length) ++ buffer
    ∃ c s k, inetCheck big sip dip proto buffer behind = some c ∧
      hostSum big ((mem ++ [behind]).take (mem.length % 2 ^ 16 + mem.length % 2 ^ 16 % 2)) =
        s + 65535 * k ∧
      c.toNat = 65535 - s ∧ s ≤ 65535 ∧ (s = 0 → k = 0) := by
  intro mem
  have hmem : mem.length = 12 + buffer.length := by
    rw [length_append, length_inetPseudoHdr]
  have hwrap : (12 + BitVec.ofNat 16 buffer.length).toNat = mem.length % 2 ^ 16 := by
    rw [toNat_add, toNat_ofNat, hmem, Nat.add_mod_mod]
    rfl
  have hroom : (mem ++ [behind]).length = mem.length + 1 := length_append
  rw [← hwrap]
  apply inetChksumAt_spec
  show _ ≤ (mem ++ [behind]).length
  rw [hwrap, hroom]
  omega

/-- The words that `inet_check` adds up, compared with those of the pseudo header and the
segment. -/
theorem hostSum_covered (big : Bool) (mem : List Byte) (behind : Byte) (h12 : 12 ≤ mem.length)
    (hlen : mem.length < 2 ^ 16 + 12) :
    ∃ d e, hostSum big ((mem ++ [behind]).take
        (mem.length % 2 ^ 16 + mem.length % 2 ^ 16 % 2)) + e = hostSum big mem + d ∧
      d < 65535 ∧ (d = 0 ∨ e = 0) ∧ (d = 0 ∧ e % 65535 = 0 ↔ SumsUp big mem behind) := by
  unfold SumsUp
  by_cases hshort : mem.length < 2 ^ 16
  · rw [if_pos hshort, Nat.mod_eq_of_lt hshort]
    obtain ⟨d, hd, hlt, hiff⟩ := hostSum_read big mem behind
    exact ⟨d, 0, hd, hlt, Or.inr rfl, by rw [← hiff]; simp⟩
  · -- the size has wrapped, and only the beginning of the pseudo header is added up
    rw [if_neg hshort]
    have hmod : mem.length % 2 ^ 16 = mem.length - 2 ^ 16 := by omega
    have hpar : (mem.length - 2 ^ 16) % 2 = mem.length % 2 := by omega
    rw [hmod, hpar, take_append_of_le_length (by omega)]
    refine ⟨0, hostSum big (mem.drop (mem.length - 2 ^ 16 + mem.length % 2)), ?_, by decide,
      Or.inl rfl, and_iff_right rfl⟩
    rw [Nat.add_zero, ← hostSum_append (by rw [length_take]; omega), take_append_drop]

/-- **The checksum of a segment.**  For every buffer of an `unsigned short` of bytes,
`__inet_chksum` is its checksum if and only if its length is even or the byte behind it is zero.
The checksum of `inet_check`, stored in its field, is accepted if and only if that holds and the
length of the pseudo header and the segment is an `unsigned short`, or what is left out adds up to
zero. -/
theorem inetChksum_exact_iff (big : Bool) (buffer : List Byte) (behind : Byte)
    (hlen : buffer.length < 2 ^ 16) :
    (inetChksumAt big (buffer ++ [behind]) (BitVec.ofNat 16 buffer.length) =
        some (checksum big buffer) ↔ buffer.length % 2 = 0 ∨ behind = 0) ∧
      ∀ sip dip proto pre post, buffer = pre ++ halfBytes big 0 ++ post → pre.length % 2 = 0 →
        ∃ c, inetCheck big sip dip proto buffer behind = some c ∧
          (Verifies (inetPseudoHdr big sip dip proto (BitVec.ofNat 16 buffer.length) ++ pre ++
              halfBytes big c ++ post) ↔
            SumsUp big (inetPseudoHdr big sip dip proto (BitVec.ofNat 16 buffer.length) ++ buffer)
              behind) := by
  have hsize : (BitVec.ofNat 16 buffer.length).toNat = buffer.length := by
    rw [toNat_ofNat, Nat.mod_eq_of_lt hlen]
  refine ⟨?_, fun sip dip proto pre post hbuffer heven => ?_⟩
  · obtain ⟨c, s, k, hc, hk, hval, hle, h0⟩ := inetChksumAt_spec big
      (show (BitVec.ofNat 16 buffer.length).toNat + (BitVec.ofNat 16 buffer.length).toNat % 2 ≤
          (buffer ++ [behind]).length by
        rw [hsize, length_append, length_singleton]
        omega)
    obtain ⟨d, hd, hlt, hiff⟩ := hostSum_read big buffer behind
    obtain ⟨k', hk', hle', h0'⟩ := onesSum_spec big buffer
    rw [hsize, hd] at hk
    rw [hc, Option.some.injEq, ← hiff, ← toNat_inj, hval, checksum, toNat_ofNat,
      Nat.mod_eq_of_lt (by omega)]
    omega
  · have hpseudo := length_inetPseudoHdr big sip dip proto (BitVec.ofNat 16 buffer.length)
    obtain ⟨c, s, k, hc, hk, hval, hle, h0⟩ := inetCheck_spec big sip dip proto buffer behind
    set head := inetPseudoHdr big sip dip proto (BitVec.ofNat 16 buffer.length) with hhead
    have hmem : (head ++ buffer).length = 12 + buffer.length := by
      rw [length_append, hpseudo]
    obtain ⟨d, e, hsum, hlt, hone, hiff⟩ := hostSum_covered big (head ++ buffer) behind
      (by omega) (by omega)
    refine ⟨c, hc, ?_⟩
    have hhalf : ∀ v : BitVec 16, (halfBytes big v).length = 2 := fun v => by cases big <;> rfl
    have hstore : ∀ v : BitVec 16, hostSum big (head ++ pre ++ halfBytes big v ++ post) =
        hostSum big (head ++ pre) + (v.toNat + hostSum big post) := by
      intro v
      rw [List.append_assoc, hostSum_append (by rw [length_append]; omega),
        hostSum_append (l := halfBytes big v) (by rw [hhalf]), hostSum_halfBytes]
    have hzero := hstore 0
    rw [List.append_assoc, List.append_assoc, ← List.append_assoc pre, ← hbuffer] at hzero
    have hnone : (0 : BitVec 16).toNat = 0 := rfl
    rw [verifies_iff_hostSum big, hstore, ← hiff]
    omega

/-- Three bytes with a zero behind them. -/
theorem inetChksum_exact_iff_padded :
    inetChksumAt false ([0, 0, 5] ++ [0]) 3 = some (checksum false [0, 0, 5]) ∧
      ∃ c, inetCheck false 1 2 17 [0, 0, 5] 0 = some c ∧
        Verifies (inetPseudoHdr false 1 2 17 3 ++ [] ++ halfBytes false c ++ [5]) := by
  obtain ⟨hexact, hcheck⟩ := inetChksum_exact_iff false [0, 0, 5] 0 (by decide)
  obtain ⟨c, hc, hverifies⟩ := hcheck 1 2 17 [] [5] rfl rfl
  refine ⟨hexact.mpr (Or.inr rfl), c, hc, hverifies.mpr ?_⟩
  exact Or.inr rfl

/-- **The byte behind the buffer is added.**  Three bytes with a seven behind them: the result is
not their checksum, and no receiver accepts the segment. -/
theorem neighbouring_byte_added :
    inetChksumAt false ([0, 0, 5] ++ [7]) 3 ≠ some (checksum false [0, 0, 5]) ∧
      ∃ c, inetCheck false 1 2 17 [0, 0, 5] 7 = some c ∧
        ¬ Verifies (inetPseudoHdr false 1 2 17 3 ++ [] ++ halfBytes false c ++ [5]) := by
  refine ⟨by decide, _, rfl, ?_⟩
  unfold Verifies
  decide

end InetCheck

end Yap
