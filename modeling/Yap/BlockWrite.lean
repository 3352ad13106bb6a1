/-
# Block transfers with sectors of any size (`driver/block_dev.c`)

A block is 512 bytes, and a device works in sectors of its own size.  Both transfers ask for
the sectors that cover their blocks.  `block_read` copies out of them from the offset of its
first block on.  `block_write` copies its blocks to the start of them, whatever that offset
is, and what remains of the last sector is written as zeros: the old contents of the sectors
are never read.

So a write is exact when its blocks are whole sectors (`blockWrite_exact_iff`).  The position
and the size in bytes are words of the machine, so the blocks from 4 GiB on are those from 0
on: a device that has a block 4 GiB behind the first one written shows the write there too.
-/
import Yap.BlockDev

namespace Yap

namespace Block

open List Option
open BitVec hiding replicate

/-! ## Devices that transfer whole sectors -/

/-- The request function transfers whole sectors of `size` bytes between the bytes of the
device and the buffer of the request; it leaves a buffer that is too short for them. -/
structure Transfers (dev : BlkDevStruct (List Byte)) (size : ℕ) : Prop where
  read : ∀ {disk buffer : List Byte} {sector nr : BitVec 32},
    (sector.toNat + nr.toNat) * size ≤ disk.length → nr.toNat * size ≤ buffer.length →
    ∃ ret, 0 ≤ ret ∧ dev.requestFn disk ⟨.requestRead, sector, nr, buffer⟩ =
      some (disk, patch buffer 0 (slice disk (sector.toNat * size) (nr.toNat * size)), ret)
  write : ∀ {disk buffer : List Byte} {sector nr : BitVec 32},
    (sector.toNat + nr.toNat) * size ≤ disk.length → nr.toNat * size ≤ buffer.length →
    ∃ ret, 0 ≤ ret ∧ dev.requestFn disk ⟨.requestWrite, sector, nr, buffer⟩ =
      some (patch disk (sector.toNat * size) (slice buffer 0 (nr.toNat * size)), buffer, ret)
  outside : ∀ {disk : List Byte} {req : Request},
    req.buffer.length < req.nrSectors.toNat * size → dev.requestFn disk req = none

/-- A device of sectors of the given size, with its bytes in memory. -/
def sectorDev (sectorSize : BitVec 32) : BlkDevStruct (List Byte) where
  getDiskInfo := some sectorSize
  requestFn disk req :=
    let off := req.sector.toNat * sectorSize.toNat
    let n := req.nrSectors.toNat * sectorSize.toNat
    if req.buffer.length < n then none
    else if disk.length < off + n then some (disk, req.buffer, -5)
    else
      match req.cmd with
      | .requestRead => some (disk, patch req.buffer 0 (slice disk off n), 0)
      | .requestWrite => some (patch disk off (slice req.buffer 0 n), req.buffer, 0)

theorem sectorDev_transfers (sectorSize : BitVec 32) :
    Transfers (sectorDev sectorSize) sectorSize.toNat := by
  refine ⟨?_, ?_, fun hbuf => if_pos hbuf⟩
  all_goals
    intro disk buffer sector nr hdisk hbuf
    rw [Nat.add_mul] at hdisk
    refine ⟨0, le_refl _, ?_⟩
    simp only [sectorDev]
    rw [if_neg (by omega), if_neg (by omega)]

/-! ## What an exact write is -/

/-- A successful `block_write` changes the bytes of its blocks to `buf` and no other byte;
reading its blocks gives `buf`, and reading others gives what it gave before. -/
def WriteExact (dev : BlkDevStruct (List Byte)) (disk : List Byte) (pos : BitVec 32)
    (buf : List Byte) (count : BitVec 32) : Prop :=
  ∀ alloc, ∃ disk' ret, blockWrite (some dev) alloc disk pos (some buf) count =
      some (disk', ret) ∧
    (0 ≤ ret → disk' = patch disk (512 * pos.toNat) buf ∧
      (∀ alloc' out, out.length = 512 * count.toNat →
        ∃ out' ret', blockRead (some dev) alloc' disk' pos (some out) count =
          some (disk', some out', ret') ∧ (0 ≤ ret' → out' = buf)) ∧
      ∀ alloc' out (p c : BitVec 32), 512 * (p.toNat + c.toNat) ≤ disk.length →
        (∀ i, ¬ ((p.toNat ≤ i ∧ i < p.toNat + c.toNat) ∧
          pos.toNat ≤ i ∧ i < pos.toNat + count.toNat)) →
        (blockRead (some dev) alloc' disk' p out c).map (fun r => r.2.1) =
          (blockRead (some dev) alloc' disk p out c).map (fun r => r.2.1))

/-- The blocks written are whole sectors, they and their number are below 4 GiB, and no block
of the device is 4 GiB behind the first of them. -/
def WholeSectors (size len pos count : ℕ) : Prop :=
  size ∣ 512 * pos ∧ size ∣ 512 * count ∧ pos < 2 ^ 23 ∧ count < 2 ^ 23 ∧
    len < 2 ^ 32 + 512 * pos + 512

/-! ## The sectors asked for -/

/-- Fewer than one sector more is no sector more. -/
theorem le_of_mul_lt_add {a b : ℕ} (size : ℕ) (h : a * size < b * size + size) : a ≤ b := by
  rw [← Nat.succ_mul] at h
  exact Nat.lt_succ_iff.mp (Nat.lt_of_mul_lt_mul_right h)

/-- The bytes of so many blocks, as a word of the machine. -/
abbrev inBytes (x : BitVec 32) : BitVec 32 := x * systemDefaultSectorSize

theorem toNat_inBytes_mod (x : BitVec 32) : (inBytes x).toNat = 512 * x.toNat % 2 ^ 32 := by
  have hsize : systemDefaultSectorSize.toNat = 512 := rfl
  rw [toNat_mul, hsize, Nat.mul_comm]

theorem toNat_inBytes_le (x : BitVec 32) : (inBytes x).toNat ≤ 512 * x.toNat := by
  rw [toNat_inBytes_mod]
  exact Nat.mod_le _ _

variable {n len off srcOff lo hi : ℕ} {s : List Byte}

section

variable {sectorSize pos totalSize : BitVec 32}

/-- The sectors that hold as many bytes as are asked for. -/
def sectorsFor (sectorSize totalSize : BitVec 32) : BitVec 32 :=
  if totalSize % sectorSize ≠ 0 then totalSize / sectorSize + 1 else totalSize / sectorSize

theorem rwSectors_eq : rwSectors sectorSize pos totalSize =
    if sectorsFor sectorSize totalSize * sectorSize - inBytes pos % sectorSize <
      totalSize then sectorsFor sectorSize totalSize + 1
    else sectorsFor sectorSize totalSize := rfl

/-- The bytes of the sectors that a transfer asks for. -/
abbrev rwBytes (sectorSize pos totalSize : BitVec 32) : ℕ :=
  (rwSectors sectorSize pos totalSize).toNat * sectorSize.toNat

/-- The sectors asked for hold the range from its offset in the first of them on, and no
sector more. -/
def Covers (sectorSize pos totalSize : BitVec 32) : Prop :=
  (inBytes pos).toNat % sectorSize.toNat + totalSize.toNat ≤
      rwBytes sectorSize pos totalSize ∧
    rwBytes sectorSize pos totalSize <
      (inBytes pos).toNat % sectorSize.toNat + totalSize.toNat +
        sectorSize.toNat

variable (hsize : 0 < sectorSize.toNat)

include hsize

theorem sectorsFor_bounds (totalSize : BitVec 32) :
    totalSize.toNat ≤ (sectorsFor sectorSize totalSize).toNat * sectorSize.toNat ∧
      (sectorsFor sectorSize totalSize).toNat * sectorSize.toNat <
        totalSize.toNat + sectorSize.toNat := by
  have hdiv := Nat.div_add_mod totalSize.toNat sectorSize.toNat
  have hmod := Nat.mod_lt totalSize.toNat hsize
  rw [Nat.mul_comm] at hdiv
  by_cases hrest : totalSize % sectorSize ≠ 0
  · have hne : totalSize.toNat % sectorSize.toNat ≠ 0 := by
      intro h0
      exact hrest (eq_of_toNat_eq (by rw [toNat_umod, h0]; rfl))
    -- a remainder leaves the quotient below the largest word
    have hle : totalSize.toNat / sectorSize.toNat ≤
        totalSize.toNat / sectorSize.toNat * sectorSize.toNat := Nat.le_mul_of_pos_right _ hsize
    have hval : (totalSize / sectorSize + 1).toNat = totalSize.toNat / sectorSize.toNat + 1 := by
      rw [toNat_add, toNat_udiv]
      exact Nat.mod_eq_of_lt (by change _ + 1 < _; omega)
    rw [sectorsFor, if_pos hrest, hval, Nat.add_mul, Nat.one_mul]
    omega
  · have h0 : totalSize.toNat % sectorSize.toNat = 0 := by
      rw [← toNat_umod, not_not.mp hrest]
      rfl
    rw [sectorsFor, if_neg hrest, toNat_udiv]
    omega

/-- No sector is asked for when nothing is. -/
theorem rwBytes_zero (htotal : totalSize.toNat = 0) :
    rwBytes sectorSize pos totalSize = 0 := by
  have hbound := (sectorsFor_bounds hsize totalSize).2
  have hlt : ¬ sectorsFor sectorSize totalSize * sectorSize -
      inBytes pos % sectorSize < totalSize := by
    rw [lt_def]
    omega
  rw [rwBytes, rwSectors_eq, if_neg hlt, Nat.mul_eq_zero]
  left
  exact Nat.lt_one_iff.mp (Nat.lt_of_mul_lt_mul_right (by omega : _ < 1 * sectorSize.toNat))

theorem covers_of_fits (pos : BitVec 32) (htotal : totalSize.toNat ≠ 0)
    (hfit : (sectorsFor sectorSize totalSize).toNat * sectorSize.toNat < 2 ^ 32) :
    Covers sectorSize pos totalSize := by
  obtain ⟨hlow, hhigh⟩ := sectorsFor_bounds hsize totalSize
  have hoff := Nat.mod_lt (inBytes pos).toNat hsize
  have hone : sectorSize.toNat ≤
      (sectorsFor sectorSize totalSize).toNat * sectorSize.toNat := by
    apply Nat.le_mul_of_pos_left
    apply Nat.pos_of_ne_zero
    intro h0
    rw [h0, Nat.zero_mul] at hlow
    omega
  have hsub : (sectorsFor sectorSize totalSize * sectorSize -
      inBytes pos % sectorSize).toNat =
      (sectorsFor sectorSize totalSize).toNat * sectorSize.toNat -
        (inBytes pos).toNat % sectorSize.toNat := by
    rw [toNat_sub_of_le, toNat_mul, Nat.mod_eq_of_lt hfit, toNat_umod]
    rw [le_def, toNat_mul, Nat.mod_eq_of_lt hfit, toNat_umod]
    omega
  rw [Covers, rwBytes, rwSectors_eq]
  by_cases hlt : sectorsFor sectorSize totalSize * sectorSize -
      inBytes pos % sectorSize < totalSize
  · rw [if_pos hlt]
    rw [lt_def, hsub] at hlt
    have hword : (sectorsFor sectorSize totalSize).toNat + 1 < 2 ^ 32 := by
      by_contra hmax
      have hn : (sectorsFor sectorSize totalSize).toNat = 2 ^ 32 - 1 := by
        omega
      rw [hn] at hlow hhigh hlt hfit
      omega
    rw [toNat_add, show (1 : BitVec 32).toNat = 1 from rfl, Nat.mod_eq_of_lt hword,
      Nat.add_mul, Nat.one_mul]
    omega
  · rw [if_neg hlt]
    rw [lt_def, hsub] at hlt
    omega

theorem covers_of_word (htotal : totalSize.toNat ≠ 0)
    (hword : rwBytes sectorSize pos totalSize < 2 ^ 32) :
    Covers sectorSize pos totalSize := by
  apply covers_of_fits hsize pos htotal
  obtain ⟨hlow, hhigh⟩ := sectorsFor_bounds hsize totalSize
  rw [rwBytes, rwSectors_eq] at hword
  split_ifs at hword with hlt
  · by_cases hmax : (sectorsFor sectorSize totalSize).toNat + 1 < 2 ^ 32
    · rw [toNat_add, show (1 : BitVec 32).toNat = 1 from rfl, Nat.mod_eq_of_lt hmax,
        Nat.add_mul, Nat.one_mul] at hword
      omega
    · -- only sectors of one byte are so many
      have hval : (sectorsFor sectorSize totalSize).toNat = 2 ^ 32 - 1 := by omega
      rw [hval] at hhigh hlow ⊢
      omega
  · exact hword

theorem covers_or_zero (hword : rwBytes sectorSize pos totalSize < 2 ^ 32) :
    totalSize.toNat = 0 ∨ Covers sectorSize pos totalSize := by
  by_cases h0 : totalSize.toNat = 0
  · exact Or.inl h0
  · exact Or.inr (covers_of_word hsize h0 hword)

/-- A range inside sectors that fit in a word. -/
theorem covers_of_cover (pos : BitVec 32) (htotal : totalSize.toNat ≠ 0)
    (hcover : (inBytes pos).toNat % sectorSize.toNat +
      totalSize.toNat ≤ n * sectorSize.toNat) (hn : n * sectorSize.toNat < 2 ^ 32) :
    Covers sectorSize pos totalSize ∧
      rwBytes sectorSize pos totalSize ≤ n * sectorSize.toNat := by
  obtain ⟨hlow, hhigh⟩ := sectorsFor_bounds hsize totalSize
  have hle : (sectorsFor sectorSize totalSize).toNat ≤ n :=
    le_of_mul_lt_add sectorSize.toNat (by omega)
  have hfit := Nat.mul_le_mul_right sectorSize.toNat hle
  have hcov := covers_of_fits hsize pos htotal (by omega)
  have hleast := hcov.2
  rw [rwBytes] at hleast
  exact ⟨hcov, Nat.mul_le_mul_right _ (le_of_mul_lt_add sectorSize.toNat (by omega))⟩

end

/-- A run of ones and then of zeros changes disks of zeros and of ones like a run of ones
only if it is that run. -/
theorem runs_eq {m off' n' : ℕ} (hoff : off + (n + m) ≤ len) (hoff' : off' + n' ≤ len)
    (hne : n' ≠ 0) (hzeros : patch (replicate len (0 : Byte)) off
      (replicate n 1 ++ replicate m 0) =
      patch (replicate len 0) off' (replicate n' 1))
    (hones : patch (replicate len (1 : Byte)) off
      (replicate n 1 ++ replicate m 0) =
      patch (replicate len 1) off' (replicate n' 1)) :
    off = off' ∧ n = n' ∧ m = 0 := by
  have hrun : replicate n' (1 : Byte) =
      replicate n' 1 ++ replicate 0 0 := (append_nil _).symm
  rw [hrun] at hzeros hones
  have hmem : ∀ i, i < len → ((off ≤ i ∧ i < off + n) ↔ (off' ≤ i ∧ i < off' + n')) := by
    intro i hi
    have hat := congrArg (fun l => l[i]?) hzeros
    simp only [getElem?_patch_runs (0 : Byte) 1 0 hoff hi,
      getElem?_patch_runs (0 : Byte) 1 0 (show off' + (n' + 0) ≤ len from hoff') hi] at hat
    by_cases h : off ≤ i ∧ i < off + n <;> by_cases h' : off' ≤ i ∧ i < off' + n' <;>
      simp [h, h'] at hat ⊢
  have hrest : ∀ i, i < len → ¬ (off + n ≤ i ∧ i < off + (n + m)) := by
    intro i hi hin
    have hat := congrArg (fun l => l[i]?) hones
    simp only [getElem?_patch_runs (1 : Byte) 1 0 hoff hi,
      getElem?_patch_runs (1 : Byte) 1 0 (show off' + (n' + 0) ≤ len from hoff') hi] at hat
    rw [if_neg (by omega), if_pos hin, if_neg (by omega : ¬ (off' + n' ≤ i ∧ _)), ite_self]
      at hat
    exact absurd hat (by decide)
  have h1 := hmem off' (by omega)
  have h2 := hmem (off' + n' - 1) (by omega)
  have h3 := hmem off (by omega)
  have h4 := hmem (off + n - 1) (by omega)
  have h5 := hrest (off + n)
  omega

/-! ## The transfers -/

theorem memcpy_zero (dest src : Buf) (off srcOff : ℕ) :
    memcpy dest off src srcOff 0 = some dest := if_pos (Or.inl rfl)

theorem memcpy_of_ne_zero {d : List Byte} (hn : n ≠ 0) :
    memcpy (some d) off (some s) srcOff n =
      if off + n ≤ d.length ∧ srcOff + n ≤ s.length then
        some (some (patch d off (slice s srcOff n))) else none := by
  rw [memcpy, if_neg (by simp [hn])]

theorem length_memcpy {d d' : List Byte}
    (h : memcpy (some d) off (some s) srcOff n = some (some d')) : d'.length = d.length := by
  by_cases hn : n = 0
  · rw [hn, memcpy_zero] at h
    cases h
    rfl
  · rw [memcpy_of_ne_zero hn] at h
    split_ifs at h with hin
    cases h
    rw [length_patch (by rw [length_slice hin.2]; exact hin.1)]

/-- A copy reads its own part of the source only. -/
theorem memcpy_congr {t : List Byte} (off : ℕ) (dest : Buf) (hlen : s.length = t.length)
    (hpart : slice s srcOff n = slice t srcOff n) :
    memcpy dest off (some s) srcOff n = memcpy dest off (some t) srcOff n := by
  by_cases hn : n = 0
  · rw [hn, memcpy_zero, memcpy_zero]
  · cases dest with
    | none => simp [memcpy]
    | some d => rw [memcpy_of_ne_zero hn, memcpy_of_ne_zero hn, hlen, hpart]

section

variable {dev : BlkDevStruct (List Byte)} {sectorSize pos count : BitVec 32} {alloc : Allocs}
  {disk buf : List Byte} {start total span : ℕ}

theorem toNat_mul_rwSectors {totalSize : BitVec 32}
    (hword : rwBytes sectorSize pos totalSize < 2 ^ 32) :
    (rwSectors sectorSize pos totalSize * sectorSize).toNat =
      rwBytes sectorSize pos totalSize := by
  rw [toNat_mul, Nat.mod_eq_of_lt hword]

/-- The sectors asked for are on a device of whole sectors that holds the range. -/
theorem sectors_on_disk {totalSize : BitVec 32} (hp : (inBytes pos).toNat = start)
    (hsize : 0 < sectorSize.toNat) (hlen : sectorSize.toNat ∣ len)
    (hrange : start + totalSize.toNat ≤ len)
    (hcov : totalSize.toNat = 0 ∨ Covers sectorSize pos totalSize) :
    start / sectorSize.toNat * sectorSize.toNat +
      rwBytes sectorSize pos totalSize ≤ len := by
  subst hp
  obtain ⟨k, rfl⟩ := hlen
  have hdiv := Nat.div_add_mod (inBytes pos).toNat sectorSize.toNat
  rw [← Nat.add_mul, Nat.mul_comm sectorSize.toNat]
  apply Nat.mul_le_mul_right
  apply le_of_mul_lt_add sectorSize.toNat
  rw [Nat.mul_comm sectorSize.toNat] at hdiv hrange
  rw [Nat.add_mul, ← rwBytes]
  rcases hcov with htotal | ⟨-, hleast⟩
  · rw [rwBytes_zero hsize htotal]
    omega
  · omega

/-- The sectors of a range between two sector boundaries fit in a word if those between the
boundaries do. -/
theorem word_of_between (totalSize : BitVec 32) (hp : (inBytes pos).toNat = start)
    (hsize : 0 < sectorSize.toNat) (hlo : sectorSize.toNat ∣ lo) (hhi : sectorSize.toNat ∣ hi)
    (hbelow : lo ≤ start) (habove : start + totalSize.toNat ≤ hi) (hword : hi < 2 ^ 32 + lo) :
    rwBytes sectorSize pos totalSize < 2 ^ 32 ∧
      (totalSize.toNat = 0 ∨ Covers sectorSize pos totalSize) := by
  by_cases h0 : totalSize.toNat = 0
  · rw [rwBytes_zero hsize h0]
    exact ⟨by decide, Or.inl h0⟩
  · obtain ⟨l, rfl⟩ := hlo
    obtain ⟨u, rfl⟩ := hhi
    have hdiv := Nat.div_add_mod start sectorSize.toNat
    have hl : l ≤ start / sectorSize.toNat := by
      rw [Nat.le_div_iff_mul_le hsize, Nat.mul_comm]
      exact hbelow
    have hmono := Nat.mul_le_mul_left sectorSize.toNat hl
    have hn : (u - start / sectorSize.toNat) * sectorSize.toNat =
        sectorSize.toNat * u - sectorSize.toNat * (start / sectorSize.toNat) := by
      rw [Nat.sub_mul, Nat.mul_comm u, Nat.mul_comm (_ / _)]
    obtain ⟨hcov, hle⟩ := covers_of_cover hsize pos h0
      (n := u - start / sectorSize.toNat) (by rw [hp]; omega) (by omega)
    exact ⟨by omega, Or.inr hcov⟩

section

variable (hinfo : dev.getDiskInfo = some sectorSize)

include hinfo

theorem blockWrite_failed (halloc : ¬ alloc.All) :
    blockWrite (some dev) alloc disk pos (some buf) count = some (disk, -12) := by
  obtain ⟨req, info, tmpBuff⟩ := alloc
  cases req <;> cases info <;> cases tmpBuff <;>
    first
    | exact absurd ⟨rfl, rfl, rfl⟩ halloc
    | simp [blockWrite, hinfo, kmalloc]

theorem blockRead_failed (halloc : ¬ alloc.All)
    (out : Buf) : blockRead (some dev) alloc disk pos out count = some (disk, out, -12) := by
  obtain ⟨req, info, tmpBuff⟩ := alloc
  cases req <;> cases info <;> cases tmpBuff <;>
    first
    | exact absurd ⟨rfl, rfl, rfl⟩ halloc
    | simp [blockRead, hinfo, kmalloc]

/-- A write whose sectors do not fit in a word leaves its buffer, which is as long as the
word says. -/
theorem blockWrite_eq_none (hdev : Transfers dev sectorSize.toNat)
    (hword : 2 ^ 32 ≤ rwBytes sectorSize pos (inBytes count))
    (halloc : alloc.All) :
    blockWrite (some dev) alloc disk pos (some buf) count = none := by
  obtain ⟨hreq', hinfo', htmp⟩ := halloc
  generalize htotal : inBytes count = totalSize at *
  have hshort : (rwSectors sectorSize pos totalSize * sectorSize).toNat <
      rwBytes sectorSize pos totalSize :=
    lt_of_lt_of_le (rwSectors sectorSize pos totalSize * sectorSize).isLt hword
  simp only [blockWrite, hinfo, hreq', hinfo', htmp, Bool.true_eq_false, if_false, kmalloc_true,
    htotal, writeSectors]
  cases hcopy : memcpy (some (replicate (rwSectors sectorSize pos totalSize *
      sectorSize).toNat 0)) 0 (some buf) 0 totalSize.toNat with
  | none => rfl
  | some dest =>
    cases dest with
    | none => rfl
    | some tmpBuff =>
      have hlen := length_memcpy hcopy
      rw [length_replicate] at hlen
      have hrequest : dev.requestFn disk ⟨.requestWrite,
          inBytes pos / sectorSize, rwSectors sectorSize pos totalSize,
          tmpBuff⟩ = none := hdev.outside (lt_of_eq_of_lt hlen hshort)
      simp only [hrequest, map_none]

end

variable (hinfo : dev.getDiskInfo = some sectorSize) (hsize : 0 < sectorSize.toNat)
  (hdev : Transfers dev sectorSize.toNat)

include hinfo hsize hdev

section

-- the range in bytes, as the words of the machine have it
variable (hp : (inBytes pos).toNat = start)
  (hc : (inBytes count).toNat = total)

include hp hc

/-- **A write**: the blocks stand at the start of the sectors asked for, zeros behind them. -/
theorem blockWrite_eq (buf : List Byte) (hlen : sectorSize.toNat ∣ disk.length)
    (hrange : start + total ≤ disk.length) (hbuf : total ≤ buf.length)
    (hspan : rwBytes sectorSize pos (inBytes count) = span)
    (hword : span < 2 ^ 32) (halloc : alloc.All) :
    ∃ ret, 0 ≤ ret ∧ blockWrite (some dev) alloc disk pos (some buf) count =
      some (patch disk (start / sectorSize.toNat * sectorSize.toNat)
        (slice buf 0 total ++ replicate (span - total) 0), ret) := by
  obtain ⟨hreq', hinfo', htmp⟩ := halloc
  generalize htotal : inBytes count = totalSize at *
  subst hc
  have hcov := covers_or_zero hsize (hspan.symm ▸ hword)
  have hfits : totalSize.toNat ≤ span := by
    rcases hcov with h0 | ⟨hlow, -⟩ <;> omega
  have hlenSlice : (slice buf 0 totalSize.toNat).length = totalSize.toNat :=
    length_slice (by omega)
  have htmpEq : patch (replicate span (0 : Byte)) 0 (slice buf 0 totalSize.toNat) =
      slice buf 0 totalSize.toNat ++ replicate (span - totalSize.toNat) 0 := by
    rw [patch, take_zero, nil_append, Nat.zero_add, hlenSlice, drop_replicate]
  generalize htmpBuff : slice buf 0 totalSize.toNat ++
    replicate (span - totalSize.toNat) (0 : Byte) = tmpBuff at htmpEq ⊢
  have htmpLen : tmpBuff.length = span := by
    rw [← htmpBuff, length_append, hlenSlice, length_replicate]
    omega
  have hcopy : memcpy (some (replicate (rwSectors sectorSize pos totalSize *
      sectorSize).toNat 0)) 0 (some buf) 0 totalSize.toNat = some (some tmpBuff) := by
    rw [toNat_mul_rwSectors (hspan.symm ▸ hword), hspan,
      memcpy_some (by rw [length_replicate]; omega) (by omega), htmpEq]
  have hdisk := sectors_on_disk hp hsize hlen hrange hcov
  rw [← hp, ← toNat_udiv, ← Nat.add_mul] at hdisk
  obtain ⟨ret, hret, hreq⟩ := hdev.write hdisk (le_of_eq (hspan.trans htmpLen.symm))
  refine ⟨ret, hret, ?_⟩
  simp only [blockWrite, hinfo, hreq', hinfo', htmp, Bool.true_eq_false, if_false, kmalloc_true,
    htotal, writeSectors, hcopy, hreq, map_some, hspan, ← htmpLen, slice_zero_length,
    toNat_udiv, hp]

/-- **A read**: the copy is made out of the sectors asked for. -/
theorem blockRead_eq (out : Buf) (hlen : sectorSize.toNat ∣ disk.length)
    (hrange : start + total ≤ disk.length)
    (hspan : rwBytes sectorSize pos (inBytes count) = span)
    (hword : span < 2 ^ 32) (halloc : alloc.All) :
    ∃ ret, 0 ≤ ret ∧ blockRead (some dev) alloc disk pos out count =
      (memcpy out 0 (some (slice disk (start / sectorSize.toNat * sectorSize.toNat) span))
        (start % sectorSize.toNat) total).map fun buf => (disk, buf, ret) := by
  obtain ⟨hreq', hinfo', htmp⟩ := halloc
  generalize htotal : inBytes count = totalSize at *
  subst hc
  have hdisk := sectors_on_disk hp hsize hlen hrange (covers_or_zero hsize (hspan.symm ▸ hword))
  have hslice := length_slice hdisk
  rw [← hp, ← toNat_udiv, ← Nat.add_mul] at hdisk
  have htmpLen : (replicate (rwSectors sectorSize pos totalSize * sectorSize).toNat
      (0 : Byte)).length = rwBytes sectorSize pos totalSize := by
    rw [length_replicate, toNat_mul_rwSectors (hspan.symm ▸ hword)]
  obtain ⟨ret, hret, hreq⟩ := hdev.read hdisk (le_of_eq htmpLen.symm)
  refine ⟨ret, hret, ?_⟩
  rw [toNat_udiv, hp, patch_zero_of_length_eq (hslice.trans htmpLen.symm), hspan] at hreq
  simp only [blockRead, hinfo, hreq', hinfo', htmp, Bool.true_eq_false, if_false, kmalloc_true,
    htotal, readSectors, hreq, BitVec.mul_comm systemDefaultSectorSize pos, toNat_umod, hp]

variable (hlen : sectorSize.toNat ∣ disk.length) (hlo : sectorSize.toNat ∣ lo)
  (hhi : sectorSize.toNat ∣ hi) (hbelow : lo ≤ start) (habove : start + total ≤ hi)
  (hdisk : hi ≤ disk.length) (hword : hi < 2 ^ 32 + lo)

include hlen hlo hhi hbelow habove hdisk hword

/-- A read between two sector boundaries copies its range out of a buffer that holds it. -/
theorem blockRead_between (halloc : alloc.All) (out : Buf) :
    ∃ ret tmp, 0 ≤ ret ∧
      tmp.length = rwBytes sectorSize pos (inBytes count) ∧
      (total = 0 ∨ start % sectorSize.toNat + total ≤ tmp.length) ∧
      slice tmp (start % sectorSize.toNat) total = slice disk start total ∧
      blockRead (some dev) alloc disk pos out count =
        (memcpy out 0 (some tmp) (start % sectorSize.toNat) total).map
          fun buf => (disk, buf, ret) := by
  obtain ⟨hfit, hcov⟩ := word_of_between (inBytes count) hp hsize hlo hhi
    hbelow (hc.symm ▸ habove) hword
  obtain ⟨ret, hret, h⟩ := blockRead_eq hinfo hsize hdev hp hc out hlen (by omega) rfl hfit halloc
  have htmp := length_slice (sectors_on_disk hp hsize hlen (by omega) hcov)
  have hdiv := Nat.div_add_mod start sectorSize.toNat
  rw [Nat.mul_comm] at hdiv
  rw [hc, Covers, hp, hc] at hcov
  refine ⟨ret, _, hret, htmp, ?_, ?_, h⟩
  · rw [htmp]
    exact hcov.imp id And.left
  · rcases hcov with h0 | hcov
    · rw [h0, slice_zero, slice_zero]
    · rw [slice_slice hcov.1, hdiv]

/-- Two disks that agree on a range read the same there. -/
theorem blockRead_congr {disk' : List Byte} (hlen' : disk'.length = disk.length)
    (hsame : slice disk' start total = slice disk start total) (out : Buf) :
    (blockRead (some dev) alloc disk' pos out count).map (fun r => r.2.1) =
      (blockRead (some dev) alloc disk pos out count).map (fun r => r.2.1) := by
  by_cases halloc : alloc.All
  · obtain ⟨_, tmp, -, htmp, -, hpart, h⟩ :=
      blockRead_between hinfo hsize hdev hp hc hlen hlo hhi hbelow habove hdisk hword halloc out
    obtain ⟨_, tmp', -, htmp', -, hpart', h'⟩ :=
      blockRead_between hinfo hsize hdev hp hc (hlen' ▸ hlen) hlo hhi hbelow habove
        (hlen' ▸ hdisk) hword halloc out
    have hcopy := memcpy_congr 0 out (htmp'.trans htmp.symm)
      (hpart'.trans (hsame.trans hpart.symm))
    rw [h, h', hcopy, Option.map_map, Option.map_map]
    rfl
  · rw [blockRead_failed hinfo halloc, blockRead_failed hinfo halloc]
    rfl

/-- A range between two sector boundaries is read as it stands on the disk. -/
theorem blockRead_slice (halloc : alloc.All) {out : List Byte} (hout : out.length = total) :
    ∃ ret, blockRead (some dev) alloc disk pos (some out) count =
      some (disk, some (slice disk start total), ret) := by
  obtain ⟨ret, tmp, -, -, hcov, hpart, h⟩ :=
    blockRead_between hinfo hsize hdev hp hc hlen hlo hhi hbelow habove hdisk hword halloc
      (some out)
  refine ⟨ret, ?_⟩
  rcases hcov with h0 | hcov
  · rw [h0] at hout
    rw [h, h0, memcpy_zero, slice_zero, length_eq_zero_iff.mp hout]
    rfl
  · rw [h, memcpy_some (by omega) hcov, hpart,
      patch_zero_of_length_eq (by rw [length_slice (by omega), hout])]
    rfl

end

/-! ## Whole sectors -/

section

variable (hlen : sectorSize.toNat ∣ disk.length)

include hlen

/-- Reading no block leaves the buffer alone. -/
theorem blockRead_zero (hrange : (inBytes pos).toNat ≤ disk.length)
    (htotal : (inBytes count).toNat = 0) (out : Buf) :
    (blockRead (some dev) alloc disk pos out count).map (fun r => r.2.1) = some out := by
  by_cases halloc : alloc.All
  · obtain ⟨ret, -, h⟩ := blockRead_eq hinfo hsize hdev rfl htotal out hlen (by omega)
      (rwBytes_zero hsize htotal) (by decide) halloc
    rw [h, memcpy_zero]
    rfl
  · rw [blockRead_failed hinfo halloc]
    rfl

/-- Writing no block changes nothing. -/
theorem writeExact_zero (hrange : 512 * pos.toNat ≤ disk.length)
    (hbuf : buf.length = 0) : WriteExact dev disk pos buf 0 := by
  have htotal : (inBytes 0).toNat = 0 := rfl
  have hle := toNat_inBytes_le pos
  have hspan : rwBytes sectorSize pos (inBytes 0) = 0 :=
    rwBytes_zero hsize htotal
  rw [length_eq_zero_iff.mp hbuf]
  intro alloc
  by_cases halloc : alloc.All
  · obtain ⟨ret, hret, h⟩ := blockWrite_eq hinfo hsize hdev rfl htotal [] hlen
      (by omega) (Nat.zero_le _) hspan (by decide) halloc
    rw [slice_zero, nil_append, List.replicate_zero, patch_nil] at h
    refine ⟨disk, ret, h, ?_⟩
    intro _
    refine ⟨patch_nil.symm, ?_, fun _ _ _ _ _ _ => rfl⟩
    intro alloc' out hout
    by_cases halloc' : alloc'.All
    · obtain ⟨ret', -, h'⟩ := blockRead_eq hinfo hsize hdev rfl htotal (some out) hlen (by omega)
        hspan (by decide) halloc'
      exact ⟨out, ret', h', fun _ => length_eq_zero_iff.mp hout⟩
    · refine ⟨out, -12, blockRead_failed hinfo halloc' _, ?_⟩
      intro hneg
      exact absurd hneg (by decide)
  · refine ⟨disk, -12, blockWrite_failed hinfo halloc, ?_⟩
    intro hneg
    exact absurd hneg (by decide)

section

variable (hrange : 512 * (pos.toNat + count.toNat) ≤ disk.length)
  (hbuf : buf.length = 512 * count.toNat)

include hrange hbuf

theorem blockWrite_whole (hpos : pos.toNat < 2 ^ 23)
    (hcount : count.toNat < 2 ^ 23) (hstart : sectorSize.toNat ∣ 512 * pos.toNat)
    (htotal : sectorSize.toNat ∣ 512 * count.toNat) (halloc : alloc.All) :
    ∃ ret, 0 ≤ ret ∧ blockWrite (some dev) alloc disk pos (some buf) count =
      some (patch disk (512 * pos.toNat) buf, ret) := by
  have hp : (inBytes pos).toNat = 512 * pos.toNat :=
    toNat_mul_sector (by omega)
  have hc : (inBytes count).toNat = 512 * count.toNat :=
    toNat_mul_sector (by omega)
  obtain ⟨hword, hcov⟩ := word_of_between (inBytes count) hp hsize
    hstart (Nat.dvd_add hstart htotal) (le_refl _) (by rw [hc]) (by omega)
  -- the sectors asked for are the range itself
  have hsectors : rwBytes sectorSize pos (inBytes count) = 512 * count.toNat := by
    rw [hc] at hcov
    rcases hcov with h0 | ⟨hlow, hleast⟩
    · rw [rwBytes_zero hsize (hc.trans h0), h0]
    · rw [hp, hc, Nat.mod_eq_zero_of_dvd hstart, Nat.zero_add] at hlow hleast
      obtain ⟨k, hk⟩ := htotal
      rw [hk, Nat.mul_comm sectorSize.toNat] at hlow hleast ⊢
      exact le_antisymm (Nat.mul_le_mul_right _ (le_of_mul_lt_add _ hleast)) hlow
  obtain ⟨ret, hret, h⟩ := blockWrite_eq hinfo hsize hdev hp hc buf hlen (by omega) (by omega)
    hsectors (by omega) halloc
  refine ⟨ret, hret, ?_⟩
  rw [h, Nat.div_mul_cancel hstart, Nat.sub_self, List.replicate_zero, append_nil, ← hbuf,
    slice_zero_length]

theorem writeExact_of_whole (hne : count.toNat ≠ 0)
    (hwhole : WholeSectors sectorSize.toNat disk.length pos.toNat count.toNat) :
    WriteExact dev disk pos buf count := by
  obtain ⟨hstart, htotal, hpos, hcount, hfar⟩ := hwhole
  have hp : (inBytes pos).toNat = 512 * pos.toNat :=
    toNat_mul_sector (by omega)
  have hc : (inBytes count).toNat = 512 * count.toNat :=
    toNat_mul_sector (by omega)
  have hpatch : 512 * pos.toNat + buf.length ≤ disk.length := by omega
  have hlen' := length_patch hpatch
  intro alloc
  by_cases halloc : alloc.All
  · obtain ⟨ret, hret, h⟩ := blockWrite_whole hinfo hsize hdev hlen hrange hbuf hpos hcount
      hstart htotal halloc
    refine ⟨_, ret, h, ?_⟩
    intro _
    refine ⟨rfl, ?_, ?_⟩
    · intro alloc' out hout
      by_cases halloc' : alloc'.All
      · obtain ⟨ret', h'⟩ := blockRead_slice hinfo hsize hdev hp hc (hlen' ▸ hlen) hstart
          (Nat.dvd_add hstart htotal) (le_refl _) (le_refl _) (by rw [hlen']; omega) (by omega)
          halloc' hout
        refine ⟨_, ret', h', ?_⟩
        intro _
        rw [← hbuf, slice_patch_self hpatch]
      · refine ⟨out, -12, blockRead_failed hinfo halloc' _, ?_⟩
        intro hneg
        exact absurd hneg (by decide)
    · intro alloc' out p c hpc hapart
      by_cases hc0 : c.toNat = 0
      · have hzero : (inBytes c).toNat = 0 := by
          have := toNat_inBytes_le c
          omega
        have hp' := toNat_inBytes_le p
        rw [blockRead_zero hinfo hsize hdev (hlen' ▸ hlen) (by omega) hzero,
          blockRead_zero hinfo hsize hdev hlen (by omega) hzero]
      · have h1 := hapart p.toNat
        have h2 := hapart pos.toNat
        have hc' : (inBytes c).toNat = 512 * c.toNat :=
          toNat_mul_sector (by omega)
        have hmod := toNat_inBytes_mod p
        -- the range is read behind the one written, or before it, which is also where a
        -- position from 4 GiB on leads
        by_cases hbehind : p.toNat < 2 ^ 23 ∧ pos.toNat + count.toNat ≤ p.toNat
        · have hfit : disk.length < 2 ^ 32 + (512 * pos.toNat + 512 * count.toNat) := by
            omega
          refine blockRead_congr hinfo hsize hdev rfl hc' hlen (Nat.dvd_add hstart htotal) hlen
            (by omega) (by omega) (le_refl _) hfit hlen' ?_ out
          exact slice_patch_outside hpatch (by omega)
        · refine blockRead_congr hinfo hsize hdev rfl hc' hlen (Nat.dvd_zero _) hstart
            (Nat.zero_le _) (by omega) (by omega) (by omega) hlen' ?_ out
          exact slice_patch_outside hpatch (by omega)
  · refine ⟨disk, -12, blockWrite_failed hinfo halloc, ?_⟩
    intro hneg
    exact absurd hneg (by decide)

/-! ## Writes that are exact whatever stands on the disk -/

/-- The words of an exact write fit, and what it writes is what it should. -/
theorem WriteExact.patch_eq (h : WriteExact dev disk pos buf count) :
    rwBytes sectorSize pos (inBytes count) < 2 ^ 32 ∧
      patch disk ((inBytes pos).toNat / sectorSize.toNat * sectorSize.toNat)
        (slice buf 0 (inBytes count).toNat ++ replicate
          (rwBytes sectorSize pos (inBytes count) -
            (inBytes count).toNat) 0) =
        patch disk (512 * pos.toNat) buf := by
  have hp := toNat_inBytes_le pos
  have hc := toNat_inBytes_le count
  have halloc : Allocs.All ⟨true, true, true⟩ := ⟨rfl, rfl, rfl⟩
  obtain ⟨disk', ret, hwrite, hexact⟩ := h ⟨true, true, true⟩
  have hword : rwBytes sectorSize pos (inBytes count) < 2 ^ 32 := by
    by_contra hover
    rw [blockWrite_eq_none hinfo hdev (by omega) halloc] at hwrite
    exact absurd hwrite (by simp)
  obtain ⟨ret', hret, hwrite'⟩ := blockWrite_eq hinfo hsize hdev rfl rfl buf hlen (by omega)
    (by omega) rfl hword halloc
  rw [hwrite'] at hwrite
  cases hwrite
  exact ⟨hword, (hexact hret).1⟩

end

end

section

variable (hlen : sectorSize.toNat ∣ len) (hrange : 512 * (pos.toNat + count.toNat) ≤ len)

include hlen hrange

/-- A block that is 4 GiB behind the first one written is read from where that one is. -/
theorem not_exact_of_far (hstart : sectorSize.toNat ∣ 512 * pos.toNat)
    (htotal : sectorSize.toNat ∣ 512 * count.toNat) (hpos : pos.toNat < 2 ^ 23)
    (hcount : count.toNat < 2 ^ 23) (hne : count.toNat ≠ 0)
    (hfar : 2 ^ 32 + 512 * pos.toNat + 512 ≤ len) :
    ¬ WriteExact dev (replicate len 0) pos (replicate (512 * count.toNat) 1)
      count := by
  intro h
  have hdisk : (replicate len (0 : Byte)).length = len := length_replicate
  have hbuf : (replicate (512 * count.toNat) (1 : Byte)).length = 512 * count.toNat :=
    length_replicate
  have halloc : Allocs.All ⟨true, true, true⟩ := ⟨rfl, rfl, rfl⟩
  have hpatch : 512 * pos.toNat + (replicate (512 * count.toNat) (1 : Byte)).length ≤
      (replicate len (0 : Byte)).length := by omega
  obtain ⟨ret, hret, hwrite⟩ := blockWrite_whole hinfo hsize hdev (hdisk.symm ▸ hlen)
    (hdisk.symm ▸ hrange) hbuf hpos hcount hstart htotal halloc
  obtain ⟨disk', ret', hwrite', hexact⟩ := h ⟨true, true, true⟩
  rw [hwrite] at hwrite'
  cases hwrite'
  obtain ⟨-, -, hreads⟩ := hexact hret
  -- the block is below 4 GiB again as a position in bytes
  obtain ⟨p, hp⟩ : ∃ p : BitVec 32, p.toNat = 2 ^ 23 + pos.toNat :=
    ⟨BitVec.ofNat 32 (2 ^ 23 + pos.toNat), by rw [toNat_ofNat]; omega⟩
  have hp' : (inBytes p).toNat = 512 * pos.toNat := by
    rw [toNat_inBytes_mod, hp]
    omega
  have hblock : (1 : BitVec 32).toNat = 1 := rfl
  have hone : (inBytes 1).toNat = 512 := rfl
  have hin : 512 * p.toNat + 512 ≤ len := by omega
  have hread : ∀ disk : List Byte, disk.length = len → ∃ ret,
      blockRead (some dev) ⟨true, true, true⟩ disk p (some (replicate 512 0)) 1 =
        some (disk, some (slice disk (512 * pos.toNat) 512), ret) := by
    intro disk hd
    obtain ⟨ret, hr⟩ := blockRead_slice hinfo hsize hdev hp' hone (hd.symm ▸ hlen) hstart
      (Nat.dvd_add hstart htotal) (le_refl _) (by omega) (by omega) (by omega) halloc
      length_replicate
    exact ⟨ret, hr⟩
  obtain ⟨_, hr⟩ := hread _ hdisk
  obtain ⟨_, hr'⟩ := hread _ ((length_patch hpatch).trans hdisk)
  have hsame := hreads ⟨true, true, true⟩ (some (replicate 512 0)) p 1
    (by rw [hdisk, hblock, Nat.mul_add]; exact hin) (by rw [hblock]; omega)
  rw [hr, hr', map_some, map_some, some_inj, some_inj] at hsame
  have hat := congrArg (fun l => l[0]?) hsame
  simp only [getElem?_slice, getElem?_patch hpatch] at hat
  rw [if_pos (by decide), if_pos (by omega), if_pos (by decide), Nat.add_zero, Nat.sub_self,
    getElem?_replicate_of_lt (by omega), getElem?_replicate_of_lt (by omega)] at hat
  exact absurd hat (by decide)

/-- A write that is exact over every disk and for every buffer is one of whole sectors. -/
theorem wholeSectors_of_exact (hne : count.toNat ≠ 0)
    (h : ∀ disk buf : List Byte, disk.length = len → buf.length = 512 * count.toNat →
      WriteExact dev disk pos buf count) :
    WholeSectors sectorSize.toNat len pos.toNat count.toNat := by
  have hc := toNat_inBytes_le count
  have hpmod := toNat_inBytes_mod pos
  have hbuf : ∀ y : Byte, (replicate (512 * count.toNat) y).length = 512 * count.toNat :=
    fun _ => length_replicate
  have hdisk : ∀ x : Byte, (replicate len x).length = len :=
    fun _ => length_replicate
  -- ones on a disk of zeros, and ones on a disk of ones
  obtain ⟨hword, hzeros⟩ := WriteExact.patch_eq hinfo hsize hdev (by rwa [hdisk])
    (by rwa [hdisk]) (hbuf 1) (h _ _ (hdisk 0) (hbuf 1))
  obtain ⟨-, hones⟩ := WriteExact.patch_eq hinfo hsize hdev (by rwa [hdisk])
    (by rwa [hdisk]) (hbuf 1) (h _ _ (hdisk 1) (hbuf 1))
  rw [slice_replicate 1 hc] at hzeros hones
  have hcov := covers_or_zero hsize hword
  have hsectors := sectors_on_disk rfl hsize hlen (by omega) hcov
  have htotal : (inBytes count).toNat ≤
      rwBytes sectorSize pos (inBytes count) := by
    rcases hcov with h0 | hcov
    · omega
    · have := hcov.1
      omega
  obtain ⟨hstart, hsame, hpad⟩ := runs_eq (by omega) (by omega) (by omega) hzeros hones
  have hdiv := Nat.div_mul_le_self (inBytes pos).toNat sectorSize.toNat
  have hpos : sectorSize.toNat ∣ 512 * pos.toNat := hstart ▸ Nat.dvd_mul_left _ _
  have hcount : sectorSize.toNat ∣ 512 * count.toNat := by
    rw [← hsame, le_antisymm htotal (Nat.sub_eq_zero_iff_le.mp hpad)]
    exact Nat.dvd_mul_left _ _
  have hp23 : pos.toNat < 2 ^ 23 := by omega
  have hc23 : count.toNat < 2 ^ 23 := by omega
  refine ⟨hpos, hcount, hp23, hc23, ?_⟩
  by_contra hfar
  exact not_exact_of_far hinfo hsize hdev hlen hrange hpos hcount hp23 hc23 hne (by omega)
    (h _ _ (hdisk 0) (hbuf 1))

end

/-- **Exact writes**: on a device of whole sectors, writing these blocks is exact whatever
the buffer and the disk hold iff no block is written, or the blocks are whole sectors. -/
theorem blockWrite_exact_iff {len : ℕ}
    (hlen : sectorSize.toNat ∣ len) (hrange : 512 * (pos.toNat + count.toNat) ≤ len) :
    (∀ disk buf : List Byte, disk.length = len → buf.length = 512 * count.toNat →
      WriteExact dev disk pos buf count) ↔
      count = 0 ∨ WholeSectors sectorSize.toNat len pos.toNat count.toNat := by
  constructor
  · intro h
    by_cases hne : count.toNat = 0
    · exact Or.inl (eq_of_toNat_eq hne)
    · exact Or.inr (wholeSectors_of_exact hinfo hsize hdev hlen hrange hne h)
  · intro h disk buf hdisk hbuf
    subst hdisk
    by_cases hne : count.toNat = 0
    · obtain rfl : count = 0 := eq_of_toNat_eq hne
      exact writeExact_zero hinfo hsize hdev hlen (by omega) (by omega)
    · rcases h with rfl | hwhole
      · exact absurd rfl hne
      · exact writeExact_of_whole hinfo hsize hdev hlen hrange hbuf hne hwhole

end

/-- One block on a device of two blocks, with sectors of one block. -/
theorem blockWrite_exact_iff_one_block :
    (∀ disk buf : List Byte, disk.length = 1024 → buf.length = 512 * (1 : BitVec 32).toNat →
      WriteExact (sectorDev 512) disk 1 buf 1) ↔
      (1 : BitVec 32) = 0 ∨ WholeSectors 512 1024 1 1 :=
  blockWrite_exact_iff rfl (by decide) (sectorDev_transfers 512) ⟨2, rfl⟩ (by decide)

/-- The second block of a sector of 2048 bytes is written over the first one. -/
theorem second_block_not_exact : ¬ WriteExact (sectorDev 2048) (replicate 2048 0) 1
    (replicate 512 1) 1 := by
  intro h
  obtain ⟨disk', ret, hwrite, hexact⟩ := h ⟨true, true, true⟩
  have hrun : blockWrite (some (sectorDev 2048)) ⟨true, true, true⟩ (replicate 2048 0) 1
      (some (replicate 512 1)) 1 =
      some (replicate 512 1 ++ replicate 1536 0, 0) := by decide +kernel
  rw [hrun] at hwrite
  cases hwrite
  have hbyte := congrArg (fun l => l[0]?) (hexact (le_refl 0)).1
  exact absurd hbyte (by decide +kernel)

end Block

end Yap
