/-
# Block devices (`driver/block_dev.c`, `lib/lib.c`)

`block_read` and `block_write` of a device with any sector size: a request for the sectors
that cover the range goes to the device's request function, through a buffer of the size of
those sectors.

A pointer to a buffer carries the bytes of the buffer, and is `NULL` if its allocation has
failed.  An access outside the buffers ends the run.
-/
import Yap.Bytes

namespace Yap

namespace Block

open BitVec

/-- A pointer to a buffer; `none` is `NULL`. -/
abbrev Buf := Option (List Byte)

/-- `SYSTEM_DEFAULT_SECTOR_SIZE`. -/
def systemDefaultSectorSize : BitVec 32 := 512

/-- `kmalloc(size, GFP_KERNEL)`, which clears what it returns; `ok` says whether the
allocation succeeds. -/
def kmalloc (ok : Bool) (size : BitVec 32) : Buf :=
  if ok then some (List.replicate size.toNat 0) else none

/-- `memcpy(dest + off, src + srcOff, n)`, which does nothing for a null pointer; `none` if
it leaves a buffer. -/
def memcpy (dest : Buf) (off : ℕ) (src : Buf) (srcOff n : ℕ) : Option Buf :=
  if n = 0 ∨ (dest = none ∧ off = 0) ∨ (src = none ∧ srcOff = 0) then some dest
  else
    match dest, src with
    | some d, some s =>
      if off + n ≤ d.length ∧ srcOff + n ≤ s.length then
        some (some (patch d off (slice s srcOff n)))
      else none
    | _, _ => none

/-- `REQUEST_READ`, `REQUEST_WRITE`. -/
inductive Cmd : Type where
  | requestRead : Cmd
  | requestWrite : Cmd
  deriving DecidableEq, Repr

/-- `struct request`, as far as a request function reads it. -/
structure Request where
  cmd : Cmd
  sector : BitVec 32
  nrSectors : BitVec 32
  buffer : List Byte
  deriving DecidableEq, Repr

/-- `struct blk_dev_struct`.  `σ` is what the request function works on; it returns the
buffer of the request and its result. -/
structure BlkDevStruct (σ : Type) where
  /-- the sector size that `get_disk_info` gives, if it is registered -/
  getDiskInfo : Option (BitVec 32)
  requestFn : σ → Request → Option (σ × List Byte × ℤ)

/-- Which allocations of `block_read` or `block_write` succeed. -/
structure Allocs where
  req : Bool
  info : Bool
  tmpBuff : Bool
  deriving DecidableEq, Repr

/-- The number of sectors that `block_read` and `block_write` ask for. -/
def rwSectors (sectorSize pos totalSize : BitVec 32) : BitVec 32 :=
  let n := totalSize / sectorSize
  let n := if totalSize % sectorSize ≠ 0 then n + 1 else n
  if n * sectorSize - pos * systemDefaultSectorSize % sectorSize < totalSize then n + 1 else n

section

variable {σ : Type}

/-- `block_read`, after the device has been found: the temporary buffer is filled by the
device and copied out. -/
def readSectors (dev : BlkDevStruct σ) (sectorSize : BitVec 32) (s : σ) (pos : BitVec 32)
    (buf : Buf) (totalSize : BitVec 32) (tmpBuff : List Byte) : Option (σ × Buf × ℤ) :=
  match dev.requestFn s ⟨.requestRead, pos * systemDefaultSectorSize / sectorSize,
      rwSectors sectorSize pos totalSize, tmpBuff⟩ with
  | none => none
  | some (s, tmpBuff, ret) =>
    (memcpy buf 0 (some tmpBuff) (systemDefaultSectorSize * pos % sectorSize).toNat
      totalSize.toNat).map fun buf => (s, buf, ret)

/-- `block_read(inode, pos, buf, count)`.  `blkDev` is what `find_blk_dev(inode->i_dev)`
returns. -/
def blockRead (blkDev : Option (BlkDevStruct σ)) (alloc : Allocs) (s : σ) (pos : BitVec 32)
    (buf : Buf) (count : BitVec 32) : Option (σ × Buf × ℤ) :=
  match blkDev with
  | none => some (s, buf, -22)
  | some dev =>
    match dev.getDiskInfo with
    | none => some (s, buf, -19)
    | some sectorSize =>
      if alloc.req = false then some (s, buf, -12)
      else if alloc.info = false then some (s, buf, -12)
      else
        let totalSize := count * systemDefaultSectorSize
        match kmalloc alloc.tmpBuff (rwSectors sectorSize pos totalSize * sectorSize) with
        | none => some (s, buf, -12)
        | some tmpBuff => readSectors dev sectorSize s pos buf totalSize tmpBuff

/-- `block_write`, after the device has been found. -/
def writeSectors (dev : BlkDevStruct σ) (sectorSize : BitVec 32) (s : σ) (pos : BitVec 32)
    (buf : Buf) (totalSize : BitVec 32) (tmpBuff : List Byte) : Option (σ × ℤ) :=
  match memcpy (some tmpBuff) 0 buf 0 totalSize.toNat with
  | some (some tmpBuff) =>
    (dev.requestFn s ⟨.requestWrite, pos * systemDefaultSectorSize / sectorSize,
      rwSectors sectorSize pos totalSize, tmpBuff⟩).map fun r => (r.1, r.2.2)
  | _ => none

/-- `block_write(inode, pos, buf, count)`. -/
def blockWrite (blkDev : Option (BlkDevStruct σ)) (alloc : Allocs) (s : σ) (pos : BitVec 32)
    (buf : Buf) (count : BitVec 32) : Option (σ × ℤ) :=
  match blkDev with
  | none => some (s, -22)
  | some dev =>
    match dev.getDiskInfo with
    | none => some (s, -19)
    | some sectorSize =>
      if alloc.req = false then some (s, -12)
      else if alloc.info = false then some (s, -12)
      else
        let totalSize := count * systemDefaultSectorSize
        match kmalloc alloc.tmpBuff (rwSectors sectorSize pos totalSize * sectorSize) with
        | none => some (s, -12)
        | some tmpBuff => writeSectors dev sectorSize s pos buf totalSize tmpBuff

end

/-! ## Copies that stay inside their buffers -/

variable {d s : List Byte} {n off srcOff : ℕ}

theorem memcpy_some (hd : off + n ≤ d.length)
    (hs : srcOff + n ≤ s.length) :
    memcpy (some d) off (some s) srcOff n = some (some (patch d off (slice s srcOff n))) := by
  by_cases hn : n = 0
  · rw [memcpy, if_pos (Or.inl hn), hn, slice_zero, patch_nil]
  · rw [memcpy, if_neg (by simp [hn])]
    exact if_pos ⟨hd, hs⟩

theorem memcpy_eq_none (hn : n ≠ 0)
    (hd : d.length < off + n) : memcpy (some d) off (some s) srcOff n = none := by
  rw [memcpy, if_neg (by simp [hn])]
  exact if_neg (by omega)

theorem kmalloc_true (size : BitVec 32) :
    kmalloc true size = some (List.replicate size.toNat 0) := if_pos rfl

/-! ## Sectors of the default size -/

/-- All allocations of a transfer succeed. -/
def Allocs.All (a : Allocs) : Prop := a.req = true ∧ a.info = true ∧ a.tmpBuff = true

instance (a : Allocs) : Decidable a.All := inferInstanceAs (Decidable (_ ∧ _ ∧ _))

section

variable {σ : Type} {dev : BlkDevStruct σ} {alloc : Allocs} {s s' : σ} {pos count : BitVec 32}
  {ret : ℤ}

theorem toNat_mul_sector (h : 512 * count.toNat < 2 ^ 32) :
    (count * systemDefaultSectorSize).toNat = 512 * count.toNat := by
  have hsize : systemDefaultSectorSize.toNat = 512 := rfl
  rw [toNat_mul, hsize, Nat.mul_comm, Nat.mod_eq_of_lt h]

theorem mul_sector_div (h : 512 * count.toNat < 2 ^ 32) :
    count * systemDefaultSectorSize / systemDefaultSectorSize = count := by
  apply eq_of_toNat_eq
  rw [toNat_udiv, toNat_mul_sector h]
  exact Nat.mul_div_cancel_left _ (by decide)

theorem mul_sector_mod (h : 512 * count.toNat < 2 ^ 32) :
    count * systemDefaultSectorSize % systemDefaultSectorSize = 0#32 := by
  apply eq_of_toNat_eq
  rw [toNat_umod, toNat_mul_sector h]
  exact Nat.mul_mod_right _ _

/-- With sectors of the default size, as many sectors as blocks are asked for. -/
theorem rwSectors_default (hpos : 512 * pos.toNat < 2 ^ 32) (h : 512 * count.toNat < 2 ^ 32) :
    rwSectors systemDefaultSectorSize pos (count * systemDefaultSectorSize) = count := by
  have hlt : ¬ count * systemDefaultSectorSize - 0#32 < count * systemDefaultSectorSize := by
    rw [BitVec.sub_zero]
    exact BitVec.lt_irrefl _
  rw [rwSectors]
  simp only [mul_sector_div h, mul_sector_mod h, mul_sector_mod hpos]
  exact if_neg hlt

section

variable (hdev : dev.getDiskInfo = some systemDefaultSectorSize) (halloc : alloc.All)
  (hpos : 512 * pos.toNat < 2 ^ 32) (h : 512 * count.toNat < 2 ^ 32)

include hdev halloc hpos h

/-- `block_read` from a device with sectors of the default size. -/
theorem blockRead_default {tmp : List Byte}
    (hreq : dev.requestFn s ⟨.requestRead, pos, count, List.replicate (512 * count.toNat) 0⟩ =
      some (s', tmp, ret)) (buf : List Byte) :
    blockRead (some dev) alloc s pos (some buf) count =
      (memcpy (some buf) 0 (some tmp) 0 (512 * count.toNat)).map fun buf => (s', buf, ret) := by
  obtain ⟨hreq', hinfo, htmp⟩ := halloc
  have hmod : systemDefaultSectorSize * pos % systemDefaultSectorSize = 0#32 := by
    rw [BitVec.mul_comm]
    exact mul_sector_mod hpos
  simp only [blockRead, hdev, hreq', hinfo, htmp, Bool.true_eq_false, if_false, kmalloc_true,
    readSectors, rwSectors_default hpos h, mul_sector_div hpos, toNat_mul_sector h, hreq, hmod]
  rfl

/-- `block_write` to a device with sectors of the default size. -/
theorem blockWrite_default {buf : List Byte} (hlen : buf.length = 512 * count.toNat) :
    blockWrite (some dev) alloc s pos (some buf) count =
      (dev.requestFn s ⟨.requestWrite, pos, count, buf⟩).map fun r => (r.1, r.2.2) := by
  obtain ⟨hreq', hinfo, htmp⟩ := halloc
  have hcopy : memcpy (some (List.replicate (512 * count.toNat) 0)) 0 (some buf) 0
      (512 * count.toNat) = some (some buf) := by
    rw [memcpy_some (by simp) (by omega), ← hlen, slice_zero_length,
      patch_zero_of_length_eq (by simp)]
  simp only [blockWrite, hdev, hreq', hinfo, htmp, Bool.true_eq_false, if_false, kmalloc_true,
    writeSectors, rwSectors_default hpos h, mul_sector_div hpos, toNat_mul_sector h, hcopy]

end

end

end Block

end Yap
