/-
# Regular files of ramfs (`fs/ramfs.c`, `fs/ramdisk.c`)

`ramfs_read` and `ramfs_write` on one inode, through any number of open files, over the
ramdisk.  They should behave as reads and writes of an array of bytes.

`ramfs_write` reads only the first sector of the range into its buffer, and then writes all
the sectors.  What stands after the end of the data in a last sector other than the first is
overwritten with zeros.
-/
import Yap.BlockDev

namespace Yap

namespace Ramfs

open Block List Option
open BitVec hiding replicate

/-! ## The ramdisk -/

/-- `struct ramfs_inode`, as far as its contents are concerned. -/
structure RamfsInode where
  startAddr : Buf
  size : BitVec 32
  deriving DecidableEq, Repr

/-- `RAMDISK_SECTOR_SIZE`. -/
def ramdiskSectorSize : BitVec 32 := 512

/-- `ramdisk_do_request`.  Pointers into the file are offsets from `start_addr`. -/
def ramdiskDoRequest (r : RamfsInode) (req : Request) : Option (RamfsInode × List Byte × ℤ) :=
  match r.startAddr with
  | none => some (r, req.buffer, 0)
  | some bytes =>
    let start := req.sector * ramdiskSectorSize
    if r.size ≤ start then some (r, req.buffer, 0)
    else
      let size := if r.size < start + req.nrSectors * ramdiskSectorSize then r.size - start
        else req.nrSectors * ramdiskSectorSize
      match req.cmd with
      | .requestRead =>
        match memcpy (some req.buffer) 0 (some bytes) start.toNat size.toNat with
        | some (some buffer) => some (r, buffer, size.toInt)
        | _ => none
      | .requestWrite =>
        (memcpy (some bytes) start.toNat (some req.buffer) 0 size.toNat).map fun bytes =>
          ({ r with startAddr := bytes }, req.buffer, size.toInt)

/-- The device that `ramdisk_init` registers. -/
def ramdisk : BlkDevStruct RamfsInode := ⟨some ramdiskSectorSize, ramdiskDoRequest⟩

/-! ## Reading and writing -/

/-- `RAMFS_DEFAULT_FILE_LEN`. -/
def ramfsDefaultFileLen : BitVec 32 := 4096

/-- The contents that `ramfs_create` gives a file. -/
def ramfsCreate : RamfsInode :=
  ⟨some (replicate ramfsDefaultFileLen.toNat 0), ramfsDefaultFileLen⟩

/-- Which allocations of `ramfs_read` or `ramfs_write` succeed. -/
structure RwAllocs where
  buff : Bool
  read : Allocs
  write : Allocs
  deriving DecidableEq, Repr

/-- The length, cut off at the end of the file. -/
def clipLen (r : RamfsInode) (fPos len : BitVec 32) : BitVec 32 :=
  if r.size < fPos + len then r.size - fPos else len

/-- `nr_blocks`. -/
def nrBlocks (fPos len : BitVec 32) : BitVec 32 :=
  let n := len.sdiv systemDefaultSectorSize
  let n := if len.srem systemDefaultSectorSize ≠ 0 then n + 1 else n
  if n * systemDefaultSectorSize - fPos % systemDefaultSectorSize < len then n + 1 else n

/-- What a call leaves: the inode, `f_pos`, the caller's buffer and the result. -/
structure Outcome where
  inode : RamfsInode
  fPos : BitVec 32
  buf : List Byte
  ret : ℤ
  deriving DecidableEq, Repr

/-- `ramfs_read`. -/
def ramfsRead (alloc : RwAllocs) (r : RamfsInode) (fPos : BitVec 32) (buf : List Byte)
    (len : BitVec 32) : Option Outcome :=
  if len = 0 then some ⟨r, fPos, buf, 0⟩
  else
    let len := clipLen r fPos len
    let n := nrBlocks fPos len
    match blockRead (some ramdisk) alloc.read r (fPos / systemDefaultSectorSize)
        (kmalloc alloc.buff (n * systemDefaultSectorSize)) n with
    | none => none
    | some (r, buff, ret) =>
      if ret < 0 then some ⟨r, fPos, buf, ret⟩
      else
        match memcpy (some buf) 0 buff (fPos % systemDefaultSectorSize).toNat len.toNat with
        | some (some buf) => some ⟨r, fPos + len, buf, len.toInt⟩
        | _ => none

/-- `ramfs_write`.  The block that is read first is one sector long. -/
def ramfsWrite (alloc : RwAllocs) (r : RamfsInode) (fPos : BitVec 32) (buf : List Byte)
    (len : BitVec 32) : Option Outcome :=
  if len = 0 then some ⟨r, fPos, buf, 0⟩
  else
    let len := clipLen r fPos len
    let n := nrBlocks fPos len
    match blockRead (some ramdisk) alloc.read r (fPos / systemDefaultSectorSize)
        (kmalloc alloc.buff (n * systemDefaultSectorSize)) 1 with
    | none => none
    | some (r, buff, ret) =>
      if ret < 0 then some ⟨r, fPos, buf, ret⟩
      else
        match memcpy buff (fPos % systemDefaultSectorSize).toNat (some buf) 0 len.toNat with
        | none => none
        | some buff =>
          match blockWrite (some ramdisk) alloc.write r (fPos / systemDefaultSectorSize)
              buff n with
          | none => none
          | some (r, ret) =>
            if ret < 0 then some ⟨r, fPos, buf, ret⟩
            else some ⟨r, fPos + len, buf, len.toInt⟩

/-! ## Open files on one inode -/

/-- The inode and `f_pos` of every open file. -/
structure State where
  inode : RamfsInode
  fPos : ℕ → BitVec 32

inductive Op : Type where
  | ramfsRead : Op
  | ramfsWrite : Op
  deriving DecidableEq, Repr

/-- A call through the file `file`, with the caller's buffer; its length is `len`. -/
structure Call where
  op : Op
  file : ℕ
  buf : List Byte
  alloc : RwAllocs
  deriving DecidableEq, Repr

/-- What the caller sees: the result, and its buffer after the call. -/
structure Result where
  ret : ℤ
  buf : List Byte
  deriving DecidableEq, Repr

/-- What the function called computes. -/
def outcome (s : State) (c : Call) : Option Outcome :=
  let len := BitVec.ofNat 32 c.buf.length
  match c.op with
  | .ramfsRead => ramfsRead c.alloc s.inode (s.fPos c.file) c.buf len
  | .ramfsWrite => ramfsWrite c.alloc s.inode (s.fPos c.file) c.buf len

/-- One call; `none` if it accesses memory outside its buffers. -/
def step (s : State) (c : Call) : Option (State × Result) :=
  (outcome s c).map fun o =>
    (⟨o.inode, fun f => if f = c.file then o.fPos else s.fPos f⟩, ⟨o.ret, o.buf⟩)

/-- A sequence of calls, with their results. -/
def run : State → List Call → Option (State × List Result)
  | s, [] => some (s, [])
  | s, c :: cs =>
    match step s c with
    | none => none
    | some (s, out) => (run s cs).map fun r => (r.1, out :: r.2)

/-! ## The array of bytes -/

/-- An array of bytes with positions in it. -/
structure ByteFile where
  bytes : List Byte
  pos : ℕ → ℕ

/-- The number of bytes that a call moves. -/
def ByteFile.count (b : ByteFile) (c : Call) : ℕ :=
  min c.buf.length (b.bytes.length - b.pos c.file)

/-- A call on the array. -/
def ByteFile.step (b : ByteFile) (c : Call) : ByteFile × Result :=
  let n := b.count c
  let pos := fun f => if f = c.file then b.pos f + n else b.pos f
  match c.op with
  | .ramfsRead => (⟨b.bytes, pos⟩, ⟨n, patch c.buf 0 (slice b.bytes (b.pos c.file) n)⟩)
  | .ramfsWrite => (⟨patch b.bytes (b.pos c.file) (slice c.buf 0 n), pos⟩, ⟨n, c.buf⟩)

/-- A sequence of calls on the array. -/
def ByteFile.run : ByteFile → List Call → ByteFile × List Result
  | b, [] => (b, [])
  | b, c :: cs =>
    let r := (b.step c).1.run cs
    (r.1, (b.step c).2 :: r.2)

/-- The array that a state represents. -/
def State.abs (s : State) : ByteFile := ⟨s.inode.startAddr.getD [], fun f => (s.fPos f).toNat⟩

/-! ## Well-formed files -/

/-- A file as `ramfs_create` makes it: a buffer of whole sectors, and no position past its
end. -/
structure FileOk (s : State) : Prop where
  buffer : ∃ bytes, s.inode.startAddr = some bytes ∧ bytes.length = s.inode.size.toNat
  aligned : 512 ∣ s.inode.size.toNat
  bound : s.inode.size.toNat < 2 ^ 31
  pos_le : ∀ f, (s.fPos f).toNat ≤ s.inode.size.toNat

/-- The bytes between the end of a write and the end of its last sector, outside its first
sector, are zero. -/
def TailZero (s : State) (c : Call) : Prop :=
  let b := s.abs
  let stop := b.pos c.file + b.count c
  ∀ i < 512, stop + i < 512 * ((stop + 511) / 512) → 512 * (b.pos c.file / 512 + 1) ≤ stop + i →
    b.bytes[stop + i]? = some 0

/-- All allocations that a call makes succeed. -/
def Allocated (c : Call) : Prop :=
  c.alloc.buff = true ∧ c.alloc.read.All ∧ (c.op = .ramfsWrite → c.alloc.write.All)

/-- A write starts before the end of the file, and has only zeros in its tail. -/
def Exact (s : State) (c : Call) : Prop :=
  c.op = .ramfsWrite → c.buf ≠ [] →
    (s.fPos c.file).toNat < s.inode.size.toNat ∧ TailZero s c

instance (s : State) (c : Call) : Decidable (TailZero s c) := by
  unfold TailZero
  infer_instance

instance (c : Call) : Decidable (Allocated c) := by
  unfold Allocated
  infer_instance

instance (s : State) (c : Call) : Decidable (Exact s c) := by
  unfold Exact
  infer_instance

/-! ## Lengths and blocks -/

section

variable {r : RamfsInode} {fPos len : BitVec 32}

theorem toNat_clipLen (hpos : fPos.toNat ≤ r.size.toNat) (hsize : r.size.toNat < 2 ^ 31)
    (hlen : len.toNat < 2 ^ 31) :
    (clipLen r fPos len).toNat = min len.toNat (r.size.toNat - fPos.toNat) := by
  have hadd := toNat_add_of_lt (x := fPos) (y := len) (by omega)
  have hsub : (r.size - fPos).toNat = r.size.toNat - fPos.toNat :=
    toNat_sub_of_le hpos
  rw [clipLen]
  split_ifs with h
  · rw [lt_def, hadd] at h
    omega
  · rw [lt_def, hadd] at h
    omega

theorem toNat_sdiv_sector (h : len.toNat < 2 ^ 31) :
    (len.sdiv systemDefaultSectorSize).toNat = len.toNat / 512 := by
  have hmsb : len.msb = false := msb_eq_false_iff_two_mul_lt.mpr (by omega)
  have hsize : systemDefaultSectorSize.msb = false := rfl
  rw [BitVec.sdiv, hmsb, hsize]
  exact toNat_udiv

theorem toNat_srem_sector (h : len.toNat < 2 ^ 31) :
    (len.srem systemDefaultSectorSize).toNat = len.toNat % 512 := by
  have hmsb : len.msb = false := msb_eq_false_iff_two_mul_lt.mpr (by omega)
  have hsize : systemDefaultSectorSize.msb = false := rfl
  rw [BitVec.srem, hmsb, hsize]
  exact toNat_umod

theorem toNat_add_one_of_lt {n : BitVec 32} (h : n.toNat + 1 < 2 ^ 32) :
    (n + 1).toNat = n.toNat + 1 := by
  have hone : (1 : BitVec 32).toNat = 1 := rfl
  rw [toNat_add, hone, Nat.mod_eq_of_lt h]

theorem toNat_mod_sector (fPos : BitVec 32) :
    (fPos % systemDefaultSectorSize).toNat = fPos.toNat % 512 :=
  toNat_umod

theorem toNat_div_sector (fPos : BitVec 32) :
    (fPos / systemDefaultSectorSize).toNat = fPos.toNat / 512 :=
  toNat_udiv

/-- The blocks that a transfer of at least one byte covers. -/
theorem toNat_nrBlocks (fPos : BitVec 32) (h : len.toNat < 2 ^ 31) (hlen : 0 < len.toNat) :
    (nrBlocks fPos len).toNat = (fPos.toNat % 512 + len.toNat + 511) / 512 := by
  have hrem : len.srem systemDefaultSectorSize ≠ 0 ↔ len.toNat % 512 ≠ 0 := by
    rw [ne_eq, ne_eq, ← toNat_srem_sector h]
    exact not_congr ⟨fun heq => by rw [heq]; rfl, fun heq => eq_of_toNat_eq heq⟩
  have hdiv := toNat_sdiv_sector h
  rw [nrBlocks]
  set q := len.sdiv systemDefaultSectorSize
  have hround : ∃ n : BitVec 32,
      (if len.srem systemDefaultSectorSize ≠ 0 then q + 1 else q) = n ∧
        n.toNat = (len.toNat + 511) / 512 := by
    refine ⟨_, rfl, ?_⟩
    split_ifs with hne
    · rw [hrem] at hne
      rw [toNat_add_one_of_lt (by omega), hdiv]
      omega
    · rw [hrem] at hne
      omega
  obtain ⟨n, hn, htoNat⟩ := hround
  simp only [hn]
  have hmul := toNat_mul_sector (show 512 * n.toNat < 2 ^ 32 by omega)
  have hsub : (n * systemDefaultSectorSize - fPos % systemDefaultSectorSize).toNat =
      512 * n.toNat - fPos.toNat % 512 := by
    rw [toNat_sub_of_le, hmul, toNat_mod_sector]
    rw [le_def, hmul, toNat_mod_sector]
    omega
  split_ifs with hlt
  · rw [lt_def, hsub] at hlt
    rw [toNat_add_one_of_lt (by omega)]
    omega
  · rw [lt_def, hsub] at hlt
    omega

/-- At a sector boundary, nothing needs no block. -/
theorem nrBlocks_zero (hpos : fPos.toNat % 512 = 0) : nrBlocks fPos 0 = 0 := by
  have hmod : fPos % systemDefaultSectorSize = 0 :=
    eq_of_toNat_eq (by rw [toNat_mod_sector, hpos]; rfl)
  rw [nrBlocks, hmod]
  decide

end

/-! ## Requests -/

section

variable {bytes buffer : List Byte} {size sector n : BitVec 32}

theorem ramdisk_info : ramdisk.getDiskInfo = some systemDefaultSectorSize := rfl

theorem ramdisk_requestFn : ramdisk.requestFn = ramdiskDoRequest := rfl

section

variable (hin : 512 * sector.toNat + 512 * n.toNat ≤ size.toNat)

include hin

theorem toNat_sector : (sector * ramdiskSectorSize).toNat = 512 * sector.toNat :=
  toNat_mul_sector (by omega)

/-- A request inside the file moves all its sectors. -/
theorem requestSize :
    (if size < sector * ramdiskSectorSize + n * ramdiskSectorSize then
      size - sector * ramdiskSectorSize else n * ramdiskSectorSize).toNat = 512 * n.toNat := by
  have hn : (n * ramdiskSectorSize).toNat = 512 * n.toNat := toNat_mul_sector (by omega)
  have hadd : (sector * ramdiskSectorSize + n * ramdiskSectorSize).toNat =
      512 * sector.toNat + 512 * n.toNat := by
    rw [toNat_add, toNat_sector hin, hn, Nat.mod_eq_of_lt (by omega)]
  rw [if_neg (by rw [lt_def, hadd]; omega), hn]

theorem not_size_le (hn : 0 < n.toNat) : ¬ size ≤ sector * ramdiskSectorSize := by
  rw [le_def, toNat_sector hin]
  omega

/-- What a request inside the file returns is not an error. -/
theorem requestSize_nonneg (hsize : size.toNat < 2 ^ 31) :
    0 ≤ (if size < sector * ramdiskSectorSize + n * ramdiskSectorSize then
      size - sector * ramdiskSectorSize else n * ramdiskSectorSize).toInt := by
  have h := requestSize hin
  rw [toInt_eq_toNat_of_lt (by omega)]
  exact Int.natCast_nonneg _

variable (hlen : bytes.length = size.toNat) (hsize : size.toNat < 2 ^ 31)
  (hbuf : buffer.length = 512 * n.toNat) (hn : 0 < n.toNat)

include hlen hsize hbuf hn

theorem ramdisk_read :
    ∃ ret, 0 ≤ ret ∧
      ramdisk.requestFn ⟨some bytes, size⟩ ⟨.requestRead, sector, n, buffer⟩ =
        some (⟨some bytes, size⟩, slice bytes (512 * sector.toNat) (512 * n.toNat), ret) := by
  have hslice : (slice bytes (512 * sector.toNat) (512 * n.toNat)).length = buffer.length := by
    rw [length_slice (by omega), hbuf]
  refine ⟨_, requestSize_nonneg hin hsize, ?_⟩
  rw [ramdisk_requestFn, ramdiskDoRequest]
  dsimp only
  rw [if_neg (not_size_le hin hn), requestSize hin, toNat_sector hin,
    memcpy_some (by omega) (by omega), patch_zero_of_length_eq hslice]

theorem ramdisk_write :
    ∃ ret, 0 ≤ ret ∧
      ramdisk.requestFn ⟨some bytes, size⟩ ⟨.requestWrite, sector, n, buffer⟩ =
        some (⟨some (patch bytes (512 * sector.toNat) buffer), size⟩, buffer, ret) := by
  refine ⟨_, requestSize_nonneg hin hsize, ?_⟩
  rw [ramdisk_requestFn, ramdiskDoRequest]
  dsimp only
  rw [if_neg (not_size_le hin hn), requestSize hin, toNat_sector hin,
    memcpy_some (by omega) (by omega), ← hbuf, slice_zero_length]
  rfl

end

/-- A request past the end of the file moves nothing. -/
theorem ramdisk_past (bytes buffer : List Byte) (n : BitVec 32) (cmd : Cmd)
    (hout : size ≤ sector * ramdiskSectorSize) :
    ramdisk.requestFn ⟨some bytes, size⟩ ⟨cmd, sector, n, buffer⟩ =
      some (⟨some bytes, size⟩, buffer, 0) := by
  exact if_pos hout

end

/-! ## One call -/

section

variable {bytes buf : List Byte} {size fPos : BitVec 32} {alloc : RwAllocs}

/-- Reading sectors of the file into a fresh buffer. -/
theorem blockRead_file {a : Allocs} {sector n : BitVec 32} {m : ℕ}
    (hlen : bytes.length = size.toNat) (hsize : size.toNat < 2 ^ 31) (ha : a.All)
    (hin : 512 * sector.toNat + 512 * n.toNat ≤ size.toNat) (hn : 0 < n.toNat)
    (hm : 512 * n.toNat ≤ m) :
    ∃ ret, 0 ≤ ret ∧
      blockRead (some ramdisk) a ⟨some bytes, size⟩ sector (some (replicate m 0)) n =
        some (⟨some bytes, size⟩, some (patch (replicate m 0) 0
          (slice bytes (512 * sector.toNat) (512 * n.toNat))), ret) := by
  obtain ⟨ret, hret, hreq⟩ := ramdisk_read hin hlen hsize
    (length_replicate (a := (0 : Byte))) hn
  have hslice : (slice bytes (512 * sector.toNat) (512 * n.toNat)).length = 512 * n.toNat :=
    length_slice (by omega)
  refine ⟨ret, hret, ?_⟩
  rw [blockRead_default ramdisk_info ha (by omega) (by omega) hreq,
    memcpy_some (by rw [length_replicate]; omega) (by omega), slice_slice (by omega),
    Nat.add_zero]
  rfl

/-- What the argument `len` becomes for a caller's buffer that is not empty. -/
theorem clip_buf (bytes : List Byte) (hsize : size.toNat < 2 ^ 31) (hpos : fPos.toNat ≤ size.toNat)
    (hbuf : buf.length < 2 ^ 31) (hne : buf ≠ []) :
    BitVec.ofNat 32 buf.length ≠ 0 ∧
      ∃ len, clipLen ⟨some bytes, size⟩ fPos (BitVec.ofNat 32 buf.length) = len ∧
        len.toNat = min buf.length (size.toNat - fPos.toNat) ∧
        (fPos + len).toNat = fPos.toNat + len.toNat ∧ len.toInt = len.toNat := by
  have hofNat : (BitVec.ofNat 32 buf.length).toNat = buf.length := by
    rw [toNat_ofNat, Nat.mod_eq_of_lt (by omega)]
  have hlength := length_pos_iff.mpr hne
  have hclip := toNat_clipLen (r := ⟨some bytes, size⟩) hpos hsize (hofNat ▸ hbuf)
  rw [hofNat] at hclip
  refine ⟨fun heq => ?_, _, rfl, hclip, ?_, toInt_eq_toNat_of_lt (by omega)⟩
  · rw [heq] at hofNat
    have hzero : (0 : BitVec 32).toNat = 0 := rfl
    omega
  · rw [toNat_add_of_lt (by omega)]

/-- The blocks of a transfer are whole sectors of the file. -/
theorem nrBlocks_inside (fPos len : BitVec 32) (hsize : size.toNat < 2 ^ 31)
    (halign : 512 ∣ size.toNat) (hend : fPos.toNat + len.toNat ≤ size.toNat)
    (hlen : 0 < len.toNat) :
    0 < (nrBlocks fPos len).toNat ∧
      512 * (fPos / systemDefaultSectorSize).toNat + 512 * (nrBlocks fPos len).toNat =
        512 * ((fPos.toNat + len.toNat + 511) / 512) ∧
      512 * (fPos / systemDefaultSectorSize).toNat + 512 * (nrBlocks fPos len).toNat ≤
        size.toNat ∧
      (nrBlocks fPos len * systemDefaultSectorSize).toNat = 512 * (nrBlocks fPos len).toNat := by
  have hn := toNat_nrBlocks fPos (show len.toNat < 2 ^ 31 by omega) hlen
  have hdiv := toNat_div_sector fPos
  refine ⟨by omega, by omega, by omega, toNat_mul_sector (by omega)⟩

/-- At the end of the file there is nothing to transfer. -/
theorem size_le_sector (halign : 512 ∣ size.toNat) (hend : fPos.toNat = size.toNat) :
    size ≤ fPos / systemDefaultSectorSize * ramdiskSectorSize := by
  have hdiv := toNat_div_sector fPos
  have hmul : (fPos / systemDefaultSectorSize * ramdiskSectorSize).toNat =
      512 * (fPos.toNat / 512) := by
    exact toNat_mul_sector (by omega)
  rw [le_def, hmul]
  omega

section

variable (hlen : bytes.length = size.toNat) (hsize : size.toNat < 2 ^ 31)
  (halign : 512 ∣ size.toNat)

include hlen hsize halign

/-- `ramfs_read` copies the bytes from `f_pos` on. -/
theorem ramfsRead_spec (hpos : fPos.toNat ≤ size.toNat) (hbuf : buf.length < 2 ^ 31)
    (hbuff : alloc.buff = true) (hread : alloc.read.All) :
    ∃ fPos' : BitVec 32, fPos'.toNat = fPos.toNat + min buf.length (size.toNat - fPos.toNat) ∧
      ramfsRead alloc ⟨some bytes, size⟩ fPos buf (BitVec.ofNat 32 buf.length) =
        some ⟨⟨some bytes, size⟩, fPos',
          patch buf 0 (slice bytes fPos.toNat (min buf.length (size.toNat - fPos.toNat))),
          (min buf.length (size.toNat - fPos.toNat) : ℕ)⟩ := by
  by_cases hempty : buf = []
  · subst hempty
    refine ⟨fPos, by simp, ?_⟩
    rfl
  obtain ⟨hne, len, hclip, hlenval, hadd, htoInt⟩ := clip_buf bytes hsize hpos hbuf hempty
  refine ⟨fPos + len, by omega, ?_⟩
  rw [ramfsRead, if_neg hne]
  simp only [hclip, hbuff, kmalloc_true, ← hlenval]
  by_cases hzero : len.toNat = 0
  · have hlen0 : len = 0 := eq_of_toNat_eq hzero
    have hlength := length_pos_iff.mpr hempty
    have hend : fPos.toNat = size.toNat := by omega
    have hn : nrBlocks fPos len = 0 := by
      rw [hlen0]
      exact nrBlocks_zero (by omega)
    have hreq := ramdisk_past bytes (replicate (512 * (0 : BitVec 32).toNat) 0) 0 .requestRead
      (size_le_sector halign hend)
    have hdiv := toNat_div_sector fPos
    have hblock := blockRead_default ramdisk_info hread (by omega) (by decide) hreq []
    have hbuff0 : replicate (nrBlocks fPos len * systemDefaultSectorSize).toNat (0 : Byte) = [] := by
      rw [hn]
      rfl
    rw [hbuff0, hn, hblock, hzero, slice_zero, patch_nil, htoInt, hzero]
    rfl
  · obtain ⟨hn, hblocks, hin, hmul⟩ := nrBlocks_inside fPos len hsize halign (by omega) (by omega)
    obtain ⟨ret, hret, hblock⟩ := blockRead_file hlen hsize hread hin hn (Nat.le_refl _)
    have hdiv := toNat_div_sector fPos
    have hmod := toNat_mod_sector fPos
    set n := nrBlocks fPos len
    have hslice : (slice bytes (512 * (fPos / systemDefaultSectorSize).toNat) (512 * n.toNat)).length =
        512 * n.toNat := length_slice (by omega)
    rw [hmul, hblock]
    dsimp only
    rw [if_neg (by omega), patch_zero_of_length_eq (by rw [hslice, length_replicate]),
      memcpy_some (by omega) (by omega), slice_slice (by omega), htoInt, hdiv, hmod,
      Nat.div_add_mod]

/-- The buffer that `ramfs_write` hands to `block_write`: the first sector of the file is kept
around the data, the other sectors are zero around it. -/
def writeBuffer (bytes buf : List Byte) (pos n : ℕ) : List Byte :=
  patch
    (patch (replicate (512 * ((pos % 512 + n + 511) / 512)) 0) 0
      (slice bytes (512 * (pos / 512)) 512))
    (pos % 512) (slice buf 0 n)

/-- What `ramfs_write` makes of the bytes of the file. -/
def written (bytes buf : List Byte) (pos n : ℕ) : List Byte :=
  patch bytes (512 * (pos / 512)) (writeBuffer bytes buf pos n)

/-- `ramfs_write` inside the file. -/
theorem ramfsWrite_spec (hpos : fPos.toNat < size.toNat) (hbuf : buf.length < 2 ^ 31)
    (hne : buf ≠ []) (hbuff : alloc.buff = true) (hread : alloc.read.All)
    (hwrite : alloc.write.All) :
    ∃ fPos' : BitVec 32, fPos'.toNat = fPos.toNat + min buf.length (size.toNat - fPos.toNat) ∧
      ramfsWrite alloc ⟨some bytes, size⟩ fPos buf (BitVec.ofNat 32 buf.length) =
        some ⟨⟨some (written bytes buf fPos.toNat (min buf.length (size.toNat - fPos.toNat))), size⟩,
          fPos', buf, (min buf.length (size.toNat - fPos.toNat) : ℕ)⟩ := by
  obtain ⟨hlen0, len, hclip, hlenval, hadd, htoInt⟩ :=
    clip_buf bytes hsize (Nat.le_of_lt hpos) hbuf hne
  have hlength := length_pos_iff.mpr hne
  obtain ⟨hn, hblocks, hin, hmul⟩ := nrBlocks_inside fPos len hsize halign (by omega) (by omega)
  have hnval := toNat_nrBlocks fPos (show len.toNat < 2 ^ 31 by omega) (by omega)
  have hdiv := toNat_div_sector fPos
  have hmod := toNat_mod_sector fPos
  have hone : (1 : BitVec 32).toNat = 1 := rfl
  set n := nrBlocks fPos len with hndef
  set sector := fPos / systemDefaultSectorSize with hsector
  -- the one sector that is read
  obtain ⟨ret, hret, hblock⟩ := blockRead_file (a := alloc.read) (n := 1) (m := 512 * n.toNat)
    hlen hsize hread (show 512 * sector.toNat + 512 * (1 : BitVec 32).toNat ≤ size.toNat by omega)
    (by decide) (by omega)
  rw [hone, Nat.mul_one] at hblock
  set buff1 := patch (replicate (512 * n.toNat) (0 : Byte)) 0
    (slice bytes (512 * sector.toNat) 512) with hbuff1
  have hslice : (slice bytes (512 * sector.toNat) 512).length = 512 := length_slice (by omega)
  have hlen1 : buff1.length = 512 * n.toNat := by
    rw [hbuff1, length_patch (by rw [hslice, length_replicate]; omega), length_replicate]
  have hdata : (slice buf 0 len.toNat).length = len.toNat := length_slice (by omega)
  have hlen2 : (patch buff1 (fPos.toNat % 512) (slice buf 0 len.toNat)).length = 512 * n.toNat := by
    rw [length_patch (by omega), hlen1]
  -- all the sectors are written
  obtain ⟨ret', hret', hreq⟩ := ramdisk_write hin hlen hsize hlen2 hn
  have hblock' : blockWrite (some ramdisk) alloc.write ⟨some bytes, size⟩ sector (some _) n = _ :=
    blockWrite_default ramdisk_info hwrite (by omega) (by omega) hlen2
  refine ⟨fPos + len, by omega, ?_⟩
  rw [ramfsWrite, if_neg hlen0]
  simp only [hclip, hbuff, kmalloc_true, ← hlenval, ← hndef, ← hsector]
  rw [hmul, hblock]
  dsimp only
  rw [if_neg (by omega), hmod, memcpy_some (by omega) (by omega)]
  dsimp only
  rw [hblock', hreq, map_some]
  dsimp only
  rw [if_neg (by omega), htoInt, written, writeBuffer, ← hnval, ← hdiv]

end

/-- At the end of the file, `ramfs_write` reads a sector into a buffer of size 0. -/
theorem ramfsWrite_at_end (bytes : List Byte) (hsize : size.toNat < 2 ^ 31)
    (halign : 512 ∣ size.toNat) (hpos : fPos.toNat = size.toNat) (hbuf : buf.length < 2 ^ 31)
    (hne : buf ≠ []) (hbuff : alloc.buff = true) (hread : alloc.read.All) :
    ramfsWrite alloc ⟨some bytes, size⟩ fPos buf (BitVec.ofNat 32 buf.length) = none := by
  obtain ⟨hlen0, len, hclip, hlenval, hadd, htoInt⟩ :=
    clip_buf bytes hsize (Nat.le_of_eq hpos) hbuf hne
  have hzero : len = 0 := eq_of_toNat_eq (show len.toNat = 0 by omega)
  have hn : nrBlocks fPos len = 0 := by
    rw [hzero]
    exact nrBlocks_zero (by omega)
  have hreq := ramdisk_past bytes (replicate (512 * (1 : BitVec 32).toNat) 0) 1 .requestRead
    (size_le_sector halign hpos)
  have hdiv := toNat_div_sector fPos
  have hblock := blockRead_default ramdisk_info hread (by omega) (by decide) hreq []
  rw [memcpy_eq_none (by decide) (by decide), map_none] at hblock
  have hbuff0 : replicate (nrBlocks fPos len * systemDefaultSectorSize).toNat (0 : Byte) = [] := by
    rw [hn]
    rfl
  rw [ramfsWrite, if_neg hlen0]
  simp only [hclip, hbuff, kmalloc_true]
  rw [hbuff0, hblock]

end

/-! ## What a write changes -/

section

variable {bytes buf : List Byte} {pos n : ℕ}

section

variable (halign : 512 ∣ bytes.length) (hend : pos + n ≤ bytes.length) (hn : 0 < n)
  (hbuf : n ≤ buf.length)

include halign hend hn hbuf

theorem length_writeBuffer :
    (writeBuffer bytes buf pos n).length = 512 * ((pos % 512 + n + 511) / 512) := by
  have hslice : (slice bytes (512 * (pos / 512)) 512).length = 512 := length_slice (by omega)
  have hdata : (slice buf 0 n).length = n := length_slice (by omega)
  have hsector : (patch (replicate (512 * ((pos % 512 + n + 511) / 512)) (0 : Byte)) 0
      (slice bytes (512 * (pos / 512)) 512)).length = 512 * ((pos % 512 + n + 511) / 512) := by
    rw [length_patch (by rw [hslice, length_replicate]; omega), length_replicate]
  rw [writeBuffer, length_patch (by omega), hsector]

theorem getElem?_writeBuffer {i : ℕ} (hi : i < 512 * ((pos % 512 + n + 511) / 512)) :
    (writeBuffer bytes buf pos n)[i]? =
      if pos % 512 ≤ i ∧ i < pos % 512 + n then buf[i - pos % 512]?
      else if i < 512 then bytes[512 * (pos / 512) + i]? else some 0 := by
  have hslice : (slice bytes (512 * (pos / 512)) 512).length = 512 := length_slice (by omega)
  have hdata : (slice buf 0 n).length = n := length_slice (by omega)
  have hfits : 0 + (slice bytes (512 * (pos / 512)) 512).length ≤
      (replicate (512 * ((pos % 512 + n + 511) / 512)) (0 : Byte)).length := by
    rw [hslice, length_replicate]
    omega
  have hsector := length_patch hfits
  rw [length_replicate] at hsector
  rw [writeBuffer, getElem?_patch (by omega), hdata]
  split_ifs with hin hfirst
  · rw [getElem?_slice, if_pos (by omega), Nat.zero_add]
  · rw [getElem?_patch hfits, if_pos (by omega), getElem?_slice, if_pos (by omega), Nat.sub_zero]
  · rw [getElem?_patch hfits, if_neg (by omega), getElem?_replicate, if_pos hi]

theorem length_written : (written bytes buf pos n).length = bytes.length := by
  have hlen := length_writeBuffer halign hend hn hbuf
  rw [written, length_patch (by omega)]

/-- The bytes of the file after a write: the data, zeros in the rest of the last sectors, and
everything else as before. -/
theorem getElem?_written (i : ℕ) :
    (written bytes buf pos n)[i]? =
      if pos ≤ i ∧ i < pos + n then buf[i - pos]?
      else if 512 * (pos / 512 + 1) ≤ i ∧ i < 512 * ((pos + n + 511) / 512) then some 0
      else bytes[i]? := by
  have hlen := length_writeBuffer halign hend hn hbuf
  rw [written, getElem?_patch (by omega), hlen]
  by_cases hin : 512 * (pos / 512) ≤ i ∧
      i < 512 * (pos / 512) + 512 * ((pos % 512 + n + 511) / 512)
  · rw [if_pos hin, getElem?_writeBuffer halign hend hn hbuf (by omega)]
    by_cases hdata : pos ≤ i ∧ i < pos + n
    · rw [if_pos (by omega), if_pos hdata]
      congr 1
      omega
    · rw [if_neg (by omega), if_neg hdata]
      by_cases hfirst : i - 512 * (pos / 512) < 512
      · rw [if_pos hfirst, if_neg (by omega)]
        congr 1
        omega
      · rw [if_neg hfirst, if_pos (by omega)]
  · rw [if_neg hin, if_neg (by omega), if_neg (by omega)]

/-- A write is a write of the array if and only if what it clears was zero. -/
theorem written_eq_iff :
    written bytes buf pos n = patch bytes pos (slice buf 0 n) ↔
      ∀ i, pos + n ≤ i → 512 * (pos / 512 + 1) ≤ i → i < 512 * ((pos + n + 511) / 512) →
        bytes[i]? = some 0 := by
  have hdata : (slice buf 0 n).length = n := length_slice (by omega)
  have hpatch : ∀ i, (patch bytes pos (slice buf 0 n))[i]? =
      if pos ≤ i ∧ i < pos + n then buf[i - pos]? else bytes[i]? := by
    intro i
    rw [getElem?_patch (by omega), hdata]
    by_cases hi : pos ≤ i ∧ i < pos + n
    · rw [if_pos hi, if_pos hi, getElem?_slice, if_pos (by omega), Nat.zero_add]
    · rw [if_neg hi, if_neg hi]
  constructor
  · intro heq i h1 h2 h3
    have hi := getElem?_written halign hend hn hbuf i
    rw [heq, hpatch, if_neg (by omega), if_neg (by omega), if_pos ⟨h2, h3⟩] at hi
    exact hi
  · intro hzero
    apply ext_getElem?
    intro i
    rw [getElem?_written halign hend hn hbuf, hpatch]
    by_cases hin : pos ≤ i ∧ i < pos + n
    · rw [if_pos hin, if_pos hin]
    · rw [if_neg hin, if_neg hin]
      by_cases htail : 512 * (pos / 512 + 1) ≤ i ∧ i < 512 * ((pos + n + 511) / 512)
      · rw [if_pos htail, hzero i (by omega) htail.1 htail.2]
      · rw [if_neg htail]

end

end

variable {bytes : List Byte} {c : Call} {fPos : BitVec 32} {s : State}

theorem tailZero_iff :
    TailZero s c ↔ ∀ i, s.abs.pos c.file + s.abs.count c ≤ i →
      512 * (s.abs.pos c.file / 512 + 1) ≤ i →
      i < 512 * ((s.abs.pos c.file + s.abs.count c + 511) / 512) → s.abs.bytes[i]? = some 0 := by
  constructor
  · intro h i h1 h2 h3
    have hi := h (i - (s.abs.pos c.file + s.abs.count c)) (by omega) (by omega) (by omega)
    rw [Nat.add_sub_cancel' h1] at hi
    exact hi
  · intro h i _ h2 h3
    exact h _ (Nat.le_add_right _ _) h3 h2

/-! ## Calls and the array -/

/-- A call does to the array what it should, and returns what it should. -/
def Matches (s : State) (c : Call) : Prop :=
  ∃ s', step s c = some (s', (s.abs.step c).2) ∧ s'.abs = (s.abs.step c).1

/-- A call that leaves a file with its size and moves `f_pos` keeps the file well formed. -/
theorem fileOk_call {s s' : State} (h : FileOk s)
    (hlen : bytes.length = s.inode.size.toNat)
    (hpos : fPos.toNat = (s.fPos c.file).toNat +
      min c.buf.length (s.inode.size.toNat - (s.fPos c.file).toNat))
    (hs' : s' = ⟨⟨some bytes, s.inode.size⟩, fun f => if f = c.file then fPos else s.fPos f⟩) :
    FileOk s' := by
  subst hs'
  refine ⟨⟨bytes, rfl, hlen⟩, h.aligned, h.bound, fun f => ?_⟩
  have hf := h.pos_le f
  have hc := h.pos_le c.file
  dsimp only
  split_ifs with heq
  · omega
  · exact hf

theorem abs_call (s : State) (c : Call) {n : ℕ}
    (hpos : fPos.toNat = (s.fPos c.file).toNat + n) (size : BitVec 32) :
    (State.mk ⟨some bytes, size⟩ fun f => if f = c.file then fPos else s.fPos f).abs =
      ⟨bytes, fun f => if f = c.file then s.abs.pos f + n else s.abs.pos f⟩ := by
  rw [State.abs]
  congr 1
  funext f
  dsimp only
  split_ifs with heq
  · rw [hpos, heq]
    rfl
  · rfl

section

variable {s : State} {c : Call}

theorem count_abs (h : FileOk s) :
    s.abs.count c = min c.buf.length (s.inode.size.toNat - (s.fPos c.file).toNat) := by
  obtain ⟨bytes, hstart, hlen⟩ := h.buffer
  rw [ByteFile.count, State.abs]
  rw [hstart, getD_some, hlen]

theorem outcome_read (hop : c.op = .ramfsRead) : outcome s c =
    ramfsRead c.alloc s.inode (s.fPos c.file) c.buf (BitVec.ofNat 32 c.buf.length) := by
  rw [outcome, hop]

theorem outcome_write (hop : c.op = .ramfsWrite) : outcome s c =
    ramfsWrite c.alloc s.inode (s.fPos c.file) c.buf (BitVec.ofNat 32 c.buf.length) := by
  rw [outcome, hop]

section

variable (h : FileOk s) (hbuf : c.buf.length < 2 ^ 31) (ha : Allocated c)

include h hbuf ha

/-- Reads match the array. -/
theorem step_read (hop : c.op = .ramfsRead) :
    ∃ s', step s c = some (s', (s.abs.step c).2) ∧ s'.abs = (s.abs.step c).1 ∧ FileOk s' := by
  have hcount := count_abs (c := c) h
  obtain ⟨⟨start, size⟩, fPos⟩ := s
  obtain ⟨bytes, rfl, hlen⟩ := h.buffer
  obtain ⟨fPos', hpos', hread⟩ := ramfsRead_spec hlen h.bound h.aligned (h.pos_le c.file) hbuf
    ha.1 ha.2.1
  refine ⟨⟨⟨some bytes, size⟩, fun f => if f = c.file then fPos' else fPos f⟩, ?_, ?_,
    fileOk_call h hlen hpos' rfl⟩
  · rw [step, outcome_read hop, hread, map_some, ByteFile.step, hop, hcount]
    rfl
  · rw [← hcount] at hpos'
    rw [abs_call _ c hpos', ByteFile.step, hop]
    rfl

/-- Writes inside the file write the data, and clear the rest of the last sectors. -/
theorem step_write (hop : c.op = .ramfsWrite) (hne : c.buf ≠ [])
    (hpos : (s.fPos c.file).toNat < s.inode.size.toNat) :
    ∃ s', step s c = some (s', (s.abs.step c).2) ∧ FileOk s' ∧
      s'.abs = ⟨written s.abs.bytes c.buf (s.abs.pos c.file) (s.abs.count c),
        (s.abs.step c).1.pos⟩ := by
  have hcount := count_abs (c := c) h
  obtain ⟨⟨start, size⟩, fPos⟩ := s
  obtain ⟨bytes, rfl, hlen⟩ := h.buffer
  obtain ⟨fPos', hpos', hwrite⟩ := ramfsWrite_spec hlen h.bound h.aligned hpos hbuf hne
    ha.1 ha.2.1 (ha.2.2 hop)
  have hlength := length_pos_iff.mpr hne
  dsimp only at hpos hlen hcount
  rw [← hcount] at hwrite
  have hwritten : (written bytes c.buf (fPos c.file).toNat
      ((State.mk ⟨some bytes, size⟩ fPos).abs.count c)).length = size.toNat := by
    rw [length_written (hlen ▸ h.aligned) (by omega) (by omega) (by omega), hlen]
  refine ⟨⟨⟨some (written bytes c.buf (fPos c.file).toNat
      ((State.mk ⟨some bytes, size⟩ fPos).abs.count c)), size⟩,
    fun f => if f = c.file then fPos' else fPos f⟩, ?_, fileOk_call h hwritten hpos' rfl, ?_⟩
  · rw [step, outcome_write hop, hwrite, map_some, ByteFile.step, hop]
  · dsimp only at hpos'
    rw [← hcount] at hpos'
    rw [abs_call ⟨⟨some bytes, size⟩, fPos⟩ c hpos', ByteFile.step, hop]
    rfl

omit h hbuf ha in
/-- An empty write does nothing. -/
theorem step_write_nil (hop : c.op = .ramfsWrite) (hnil : c.buf = []) :
    step s c = some (s, (s.abs.step c).2) ∧ s.abs = (s.abs.step c).1 := by
  have hzero : BitVec.ofNat 32 c.buf.length = 0 := by rw [hnil]; rfl
  have hcount : s.abs.count c = 0 := by rw [ByteFile.count, hnil, length_nil, Nat.zero_min]
  have hpos : (fun f => if f = c.file then s.fPos c.file else s.fPos f) = s.fPos := by
    funext f
    split_ifs with heq
    · rw [heq]
    · rfl
  refine ⟨?_, ?_⟩
  · rw [step, outcome_write hop, ramfsWrite, if_pos hzero, map_some, ByteFile.step, hop]
    rw [hcount, hpos]
    rfl
  · rw [ByteFile.step, hop]
    dsimp only
    rw [hcount, slice_zero, patch_nil]
    simp only [Nat.add_zero, ite_self]

/-- A write past the end faults. -/
theorem step_write_at_end (hop : c.op = .ramfsWrite) (hne : c.buf ≠ [])
    (hpos : (s.fPos c.file).toNat = s.inode.size.toNat) : step s c = none := by
  obtain ⟨⟨start, size⟩, fPos⟩ := s
  obtain ⟨bytes, rfl, hlen⟩ := h.buffer
  have hnone := ramfsWrite_at_end bytes h.bound h.aligned hpos hbuf hne ha.1 ha.2.1
  rw [step, outcome_write hop, hnone, map_none]

omit h hbuf ha in
/-- The array after a write inside the file. -/
theorem written_iff_tailZero (h : FileOk s) (hne : c.buf ≠ [])
    (hpos : (s.fPos c.file).toNat < s.inode.size.toNat) :
    written s.abs.bytes c.buf (s.abs.pos c.file) (s.abs.count c) =
      patch s.abs.bytes (s.abs.pos c.file) (slice c.buf 0 (s.abs.count c)) ↔ TailZero s c := by
  have hcount := count_abs (c := c) h
  have hlength := length_pos_iff.mpr hne
  have hpos' : s.abs.pos c.file = (s.fPos c.file).toNat := rfl
  have hbytes : s.abs.bytes.length = s.inode.size.toNat := by
    obtain ⟨bytes, hstart, hlen⟩ := h.buffer
    rw [State.abs, hstart]
    exact hlen
  rw [written_eq_iff (hbytes ▸ h.aligned) (by omega) (by omega) (by omega), tailZero_iff]

/-- A call that meets the condition matches the array. -/
theorem step_exact (he : Exact s c) :
    ∃ s', step s c = some (s', (s.abs.step c).2) ∧ s'.abs = (s.abs.step c).1 ∧ FileOk s' := by
  cases hop : c.op with
  | ramfsRead => exact step_read h hbuf ha hop
  | ramfsWrite =>
    by_cases hnil : c.buf = []
    · obtain ⟨hstep, habs⟩ := step_write_nil (s := s) hop hnil
      exact ⟨s, hstep, habs, h⟩
    · obtain ⟨hpos, htail⟩ := he hop hnil
      obtain ⟨s', hstep, hok, habs⟩ := step_write h hbuf ha hop hnil hpos
      refine ⟨s', hstep, ?_, hok⟩
      rw [habs, (written_iff_tailZero h hnil hpos).mpr htail, ByteFile.step, hop]

/-- If its allocations succeed, a call matches the array only under the condition. -/
theorem exact_of_matches (hm : Matches s c) : Exact s c := by
  intro hop hne
  obtain ⟨s1, hstep1, habs1⟩ := hm
  have hle := h.pos_le c.file
  have hpos : (s.fPos c.file).toNat < s.inode.size.toNat := by
    by_contra hge
    rw [step_write_at_end h hbuf ha hop hne (by omega)] at hstep1
    cases hstep1
  refine ⟨hpos, ?_⟩
  obtain ⟨s2, hstep2, -, habs2⟩ := step_write h hbuf ha hop hne hpos
  rw [hstep1, some.injEq, Prod.mk.injEq] at hstep2
  rw [hstep2.1, habs2, ByteFile.step, hop, ByteFile.mk.injEq] at habs1
  exact (written_iff_tailZero h hne hpos).mp habs1.1

end

end

/-! ## Sequences of calls -/

/-- Every call of a sequence meets the condition in the state before it. -/
def Meets : State → List Call → Prop
  | _, [] => True
  | s, c :: cs => Allocated c ∧ Exact s c ∧ ∀ r ∈ step s c, Meets r.1 cs

instance decidableMeets : ∀ (s : State) (cs : List Call), Decidable (Meets s cs)
  | _, [] => inferInstanceAs (Decidable True)
  | s, c :: cs =>
    have : ∀ r : State × Result, Decidable (Meets r.1 cs) := fun r => decidableMeets r.1 cs
    inferInstanceAs (Decidable (Allocated c ∧ Exact s c ∧ ∀ r ∈ step s c, Meets r.1 cs))

/-- **A file of ramfs refines an array of bytes**, in every sequence of calls that all meet
the condition: the results are those of the array, and so is what the file holds.  A call
whose allocations succeed matches the array if and only if it meets the condition. -/
theorem ramfs_refines_array (s : State) (h : FileOk s) (cs : List Call)
    (hlen : ∀ c ∈ cs, c.buf.length < 2 ^ 31) (hmeets : Meets s cs) :
    (∃ s', FileOk s' ∧ run s cs = some (s', (s.abs.run cs).2) ∧ s'.abs = (s.abs.run cs).1) ∧
      ∀ c : Call, c.buf.length < 2 ^ 31 → Allocated c → (Matches s c ↔ Exact s c) := by
  refine ⟨?_, fun c hbuf ha => ⟨exact_of_matches h hbuf ha, fun he => ?_⟩⟩
  · induction cs generalizing s with
    | nil => exact ⟨s, h, rfl, rfl⟩
    | cons c cs ih =>
      obtain ⟨ha, he, hrest⟩ := hmeets
      obtain ⟨s₁, hstep, habs, hok⟩ := step_exact h (hlen c mem_cons_self) ha he
      obtain ⟨s', hok', hrun, habs'⟩ := ih s₁ hok
        (fun c' hc' => hlen c' (mem_cons_of_mem _ hc')) (hrest _ hstep)
      refine ⟨s', hok', ?_, ?_⟩
      · rw [run, hstep]
        dsimp only
        rw [hrun, map_some, ByteFile.run, habs]
      · rw [habs', habs, ByteFile.run]
  · obtain ⟨s', hstep, habs, -⟩ := step_exact h hbuf ha he
    exact ⟨s', hstep, habs⟩

/-- A new file, with every open file at its start. -/
def created : State := ⟨ramfsCreate, fun _ => 0⟩

theorem fileOk_created : FileOk created := by
  refine ⟨⟨_, rfl, length_replicate⟩, by decide, by decide, fun _ => Nat.zero_le _⟩

/-- All allocations succeed. -/
def allAllocs : RwAllocs := ⟨true, ⟨true, true, true⟩, ⟨true, true, true⟩⟩

/-- Three bytes are written through one file and read through another. -/
def writeThenRead : List Call :=
  [⟨.ramfsWrite, 0, [1, 2, 3], allAllocs⟩, ⟨.ramfsRead, 1, [0, 0], allAllocs⟩]

theorem ramfs_refines_array_writeThenRead :
    Meets created writeThenRead ∧
      ∃ s', FileOk s' ∧ run created writeThenRead = some (s', (created.abs.run writeThenRead).2) ∧
        s'.abs = (created.abs.run writeThenRead).1 := by
  have hmeets : Meets created writeThenRead := by decide +kernel
  exact ⟨hmeets, (ramfs_refines_array created fileOk_created writeThenRead (by decide) hmeets).1⟩

/-- After 514 bytes of value 1, 513 bytes of value 2 are written from the start; then 514
bytes are read. -/
def shortOverwrite : List Call :=
  [⟨.ramfsWrite, 0, replicate 514 1, allAllocs⟩,
    ⟨.ramfsWrite, 1, replicate 513 2, allAllocs⟩,
    ⟨.ramfsRead, 2, replicate 514 0, allAllocs⟩]

/-- The byte after the second write is lost. -/
theorem short_overwrite_clears_a_byte :
    ((run created shortOverwrite).map fun r => r.2.map fun out => (out.ret, out.buf[513]?)) =
        some [(514, some 1), (513, none), (514, some 0)] ∧
      ((created.abs.run shortOverwrite).2.map fun out => (out.ret, out.buf[513]?)) =
        [(514, some 1), (513, none), (514, some 1)] := by
  decide +kernel

end Ramfs

end Yap
