/-
# The area list of an address space (`mm/mmap.c`, `proc/fork.c`)

The `vm_area_struct`s of all address spaces are records at addresses; a `mm_struct` holds
the list of its areas in the order of `vm_next`, a cache of the last area found, and three
counters.  What the page tables look like, and what the functions of `mm/memory.c` do to
them, is a parameter (`PageOps`): the area list only learns whether a copy succeeded.

The result of a slab allocation is an argument of the function that asks for it (`none`
for a failure).  A result `none` of a function is a write through a null pointer.
-/
import Yap.Headers
import Yap.Ranges

namespace Yap

namespace Mmap

/-! ## Constants -/

/-- `PAGE_ALIGN(x)`. -/
def pageAlign (x : BitVec 32) : BitVec 32 := (x + pageSize - 1) &&& ~~~(pageSize - 1)

/-- `PGDIR_SIZE`. -/
def pgdirSize : BitVec 32 := 0x100000

/-- `pgd_index(addr)`. -/
def pgdIndex (addr : BitVec 32) : BitVec 32 := addr >>> 20

/-- `MAX_MAP_COUNT`. -/
def maxMapCount : ℤ := 65536

/-- `VM_WRITE`. -/
def vmWrite : BitVec 32 := 0x00000002

/-- `VM_SHARED`. -/
def vmShared : BitVec 32 := 0x00000008

/-- `VM_MAYREAD | VM_MAYWRITE | VM_MAYEXEC`. -/
def vmMayAll : BitVec 32 := 0x00000070

/-- `VM_LOCKED`. -/
def vmLocked : BitVec 32 := 0x00002000

/-- `VM_DONTCOPY`. -/
def vmDontcopy : BitVec 32 := 0x00020000

/-- `VM_DATA_DEFAULT_FLAGS`. -/
def vmDataDefaultFlags : BitVec 32 := 0x00000077

/-- `protection_map[flags & 0x0f]`, the `vm_page_prot` of a new area with these flags. -/
def protectionMap (flags : BitVec 32) : BitVec 32 :=
  match (flags &&& 0xf).toNat with
  | 0 | 8 => 0x003
  | 10 | 11 | 14 | 15 => 0x55f
  | _ => 0x00f

/-! ## State -/

/-- `struct vm_area_struct`, without `vm_next`, which is the order of the list. -/
structure VmArea where
  vmMm : ℕ
  vmStart : BitVec 32
  vmEnd : BitVec 32
  vmPageProt : BitVec 32
  vmFlags : BitVec 32
  vmPgoff : BitVec 32
  deriving DecidableEq, Repr

/-- `struct mm_struct`, as far as the area list is concerned. -/
structure MmStruct where
  mmap : List ℕ
  mmapCache : Option ℕ
  mapCount : ℤ
  totalVm : BitVec 32
  lockedVm : BitVec 32
  defFlags : BitVec 32
  deriving DecidableEq, Repr

/-- The functions on page tables that the area functions call. -/
structure PageOps (σ : Type) where
  /-- `mm_init(mm)` and the copy of the kernel's directory; `none` when there is no memory -/
  mmInit : σ → ℕ → Option σ
  /-- `zap_page_range(mm, address, size)` -/
  zapPageRange : σ → ℕ → BitVec 32 → BitVec 32 → σ
  /-- `clear_page_tables(mm, first, nr)` -/
  clearPageTables : σ → ℕ → BitVec 32 → BitVec 32 → σ
  /-- `handle_mm_fault(mm, vma, address, write_access)` -/
  handleMmFault : σ → ℕ → VmArea → BitVec 32 → Bool → σ × ℤ
  /-- `copy_page_range(dst, src, vma)` -/
  copyPageRange : σ → ℕ → ℕ → VmArea → σ × ℤ

/-- All areas, all address spaces and the page tables. -/
structure State (σ : Type) where
  area : ℕ → VmArea
  mm : ℕ → MmStruct
  pages : σ

variable {σ : Type}

section

variable (s : State σ)

/-- Write an area. -/
def State.setArea (p : ℕ) (a : VmArea) : State σ :=
  { s with area := fun q => if q = p then a else s.area q }

/-- Write an address space. -/
def State.setMm (m : ℕ) (x : MmStruct) : State σ :=
  { s with mm := fun n => if n = m then x else s.mm n }

/-! ## Searching and inserting -/

/-- `find_vma`. -/
def findVma (m : ℕ) (addr : BitVec 32) : Option ℕ × State σ :=
  let walk : Option ℕ × State σ :=
    match ((s.mm m).mmap.dropWhile fun p => decide ((s.area p).vmEnd ≤ addr)).head? with
    | some p => (some p, s.setMm m { s.mm m with mmapCache := some p })
    | none => (none, s)
  match (s.mm m).mmapCache with
  | some p =>
    if addr < (s.area p).vmEnd ∧ (s.area p).vmStart ≤ addr then (some p, s) else walk
  | none => walk

/-- `find_vma_prev`: the areas that end below `addr`, and the others. -/
def findVmaPrev (m : ℕ) (addr : BitVec 32) : List ℕ × List ℕ :=
  ((s.mm m).mmap.takeWhile (fun p => decide ((s.area p).vmEnd < addr)),
    (s.mm m).mmap.dropWhile fun p => decide ((s.area p).vmEnd < addr))

/-- `__insert_vm_struct`. -/
def insertVmStruct (m p : ℕ) : State σ :=
  s.setMm m
    { s.mm m with
      mmap := Ranges.insertWhile
        (fun q => decide ((s.area q).vmStart ≤ (s.area p).vmStart)) p (s.mm m).mmap
      mapCount := (s.mm m).mapCount + 1 }

/-! ## Unmapping -/

/-- Take `n` pages of an area with these flags from the counters of `m`. -/
def unaccount (m : ℕ) (flags n : BitVec 32) : State σ :=
  s.setMm m
    { s.mm m with
      totalVm := (s.mm m).totalVm - n
      lockedVm := if flags &&& vmLocked ≠ 0 then (s.mm m).lockedVm - n else (s.mm m).lockedVm }

/-- `unmap_fixup`: the state and what is left of `extra`. -/
def unmapFixup (m p : ℕ) (addr len : BitVec 32) (extra : Option ℕ) : Option (State σ × Option ℕ) :=
  let stop := addr + len
  let a := s.area p
  let s := unaccount s a.vmMm a.vmFlags (len >>> 12)
  if addr = a.vmStart ∧ stop = a.vmEnd then some (s, extra)
  else if stop = a.vmEnd then
    some (insertVmStruct (s.setArea p { a with vmEnd := addr }) m p, extra)
  else if addr = a.vmStart then
    let pgoff := a.vmPgoff + ((stop - a.vmStart) >>> 12)
    some (insertVmStruct (s.setArea p { a with vmPgoff := pgoff, vmStart := stop }) m p, extra)
  else
    match extra with
    | none => none
    | some q =>
      let pgoff := a.vmPgoff + ((stop - a.vmStart) >>> 12)
      let s := s.setArea q { a with vmPgoff := pgoff, vmStart := stop }
      let s := s.setArea p { a with vmEnd := addr }
      some (insertVmStruct (insertVmStruct s m q) m p, none)

end

section

variable (ops : PageOps σ)

/-- One round of the second loop of `do_munmap`, for the area `p` that is off the list. -/
def munmapArea (s : State σ) (m p : ℕ) (addr stop : BitVec 32)
    (extra : Option ℕ) : Option (State σ × Option ℕ) :=
  let a := s.area p
  let st := if addr < a.vmStart then a.vmStart else addr
  let en := if a.vmEnd < stop then a.vmEnd else stop
  let size := en - st
  let s := s.setMm m { s.mm m with mapCount := (s.mm m).mapCount - 1 }
  unmapFixup { s with pages := ops.zapPageRange s.pages m st size } m p st size extra

/-- The second loop of `do_munmap`. -/
def munmapLoop (ops : PageOps σ) (m : ℕ) (addr stop : BitVec 32) :
    State σ → List ℕ → Option ℕ → Option (State σ)
  | s, [], _ => some s
  | s, p :: free, extra =>
    match munmapArea ops s m p addr stop extra with
    | none => none
    | some (s, extra) => munmapLoop ops m addr stop s free extra

/-- The bounds `first` and `last` of `free_pgtables` behind the area `prev`. -/
def freePgtablesWalk (s : State σ) (m prev : ℕ) (start first last : BitVec 32) :
    BitVec 32 × BitVec 32 :=
  let behind := ((s.mm m).mmap.dropWhile (fun p => decide (p ≠ prev))).tail
  let prev := (behind.takeWhile fun p => decide ((s.area p).vmStart < start)).getLastD prev
  let last :=
    match (behind.dropWhile fun p => decide ((s.area p).vmStart < start)).head? with
    | some next => if (s.area next).vmStart < last then (s.area next).vmStart else last
    | none => last
  let first := if first < (s.area prev).vmEnd then (s.area prev).vmEnd + pgdirSize - 1 else first
  (first, last)

section

variable (s : State σ) (m : ℕ)

/-- The bounds `first` and `last` of `free_pgtables`. -/
def freePgtablesBounds (prev : Option ℕ) (start stop : BitVec 32) : BitVec 32 × BitVec 32 :=
  let first := start &&& ~~~(pgdirSize - 1)
  let last := stop + pgdirSize - 1
  match prev, (s.mm m).mmap with
  | some p, _ => freePgtablesWalk s m p start first last
  | none, [] => (first, last)
  | none, p :: _ =>
    if start < (s.area p).vmEnd then
      (first, if (s.area p).vmStart < last then (s.area p).vmStart else last)
    else freePgtablesWalk s m p start first last

/-- `free_pgtables`. -/
def freePgtables (prev : Option ℕ) (start stop : BitVec 32) : State σ :=
  let b := freePgtablesBounds s m prev start stop
  if pgdIndex b.1 < pgdIndex b.2 then
    { s with
      pages := ops.clearPageTables s.pages m (pgdIndex b.1) (pgdIndex b.2 - pgdIndex b.1) }
  else s

/-- `do_munmap` from the first loop on: `pre` and `rest` are what `find_vma_prev` found. -/
def unmapAreas (addr stop : BitVec 32) (pre rest : List ℕ) (extra : ℕ) : Option (State σ) :=
  let hit := rest.takeWhile fun p => decide ((s.area p).vmStart < stop)
  let post := rest.dropWhile fun p => decide ((s.area p).vmStart < stop)
  let s := s.setMm m { s.mm m with mmap := pre ++ post, mmapCache := none }
  (munmapLoop ops m addr stop s hit.reverse (some extra)).map fun s =>
    freePgtables ops s m pre.getLast? addr stop

/-- `do_munmap`. -/
def doMunmap (addr len : BitVec 32) (extra : Option ℕ) : Option (State σ × ℤ) :=
  let len := pageAlign len
  if len = 0 then some (s, -22)
  else
    match (findVmaPrev s m addr).2 with
    | [] => some (s, 0)
    | p :: _ =>
      if addr + len ≤ (s.area p).vmStart then some (s, 0)
      else if ((s.area p).vmStart < addr ∧ addr + len < (s.area p).vmEnd) ∧
          maxMapCount ≤ (s.mm m).mapCount then some (s, -12)
      else
        match extra with
        | none => some (s, -12)
        | some q =>
          (unmapAreas ops s m addr (addr + len) (findVmaPrev s m addr).1 (findVmaPrev s m addr).2
            q).map fun s => (s, 0)

/-! ## Mapping -/

/-- The loop of `make_pages_present`. -/
def presentLoop (ops : PageOps σ) (m : ℕ) (vma : VmArea) (write : Bool) (stop : BitVec 32) :
    ℕ → BitVec 32 → σ → σ
  | 0, _, g => g
  | fuel + 1, addr, g =>
    let r := ops.handleMmFault g m vma addr write
    if r.2 < 0 then r.1
    else if addr + pageSize < stop then presentLoop ops m vma write stop fuel (addr + pageSize) r.1
    else r.1

/-- `make_pages_present`. -/
def makePagesPresent (addr stop : BitVec 32) : Option (State σ) :=
  let r := findVma s m addr
  match r.1 with
  | none => none
  | some p =>
    let vma := r.2.area p
    let write := decide (vma.vmFlags &&& vmWrite ≠ 0)
    some { r.2 with
      pages := presentLoop ops m vma write stop ((stop - addr).toNat / 4096 + 1) addr r.2.pages }

/-- The flags of an area of `do_brk`. -/
def brkFlags : BitVec 32 :=
  vmDataDefaultFlags ||| (s.mm m).defFlags ||| (vmMayAll ||| vmLocked)

/-- The area that `do_brk` can extend, looked up with `find_vma`. -/
def findExpandable (addr flags : BitVec 32) : Option ℕ × State σ :=
  if addr ≠ 0 then
    let r := findVma s m (addr - 1)
    (r.1.filter fun p => decide ((r.2.area p).vmEnd = addr ∧ (r.2.area p).vmFlags = flags), r.2)
  else (none, s)

/-- `do_brk` at `out:`. -/
def brkOut (addr len flags : BitVec 32) : Option (State σ × BitVec 32) :=
  let x := s.mm m
  let s := s.setMm m { x with totalVm := x.totalVm + (len >>> 12) }
  if flags &&& vmLocked ≠ 0 then
    let x := s.mm m
    let s := s.setMm m { x with lockedVm := x.lockedVm + (len >>> 12) }
    (makePagesPresent ops s m addr (addr + len)).map fun s => (s, addr)
  else some (s, addr)

/-- `do_brk` once the range is clear; `len` is page aligned. -/
def brkMap (addr len : BitVec 32) (vma : Option ℕ) : Option (State σ × BitVec 32) :=
  let flags := brkFlags s m
  let r := findExpandable s m addr flags
  match r.1 with
  | some p => brkOut ops (r.2.setArea p { r.2.area p with vmEnd := addr + len }) m addr len flags
  | none =>
    match vma with
    | none => some (r.2, -12)
    | some p =>
      let s := r.2.setArea p ⟨m, addr, addr + len, protectionMap flags, flags, 0⟩
      brkOut ops (insertVmStruct s m p) m addr len flags

/-- `do_brk` of a task whose address space is `m`.  `extra` and `vma` are what the two
allocations return. -/
def doBrk (addr len : BitVec 32) (extra vma : Option ℕ) : Option (State σ × BitVec 32) :=
  let len := pageAlign len
  if len = 0 then some (s, addr)
  else
    match doMunmap ops s m addr len extra with
    | none => none
    | some (s, ret) =>
      if ret ≠ 0 then some (s, BitVec.ofInt 32 ret)
      else if maxMapCount < (s.mm m).mapCount then some (s, -12)
      else brkMap ops s m addr len vma

end

/-! ## Forking -/

/-- One round of `dup_mmap`: link a copy of the area `p`, at `q`, to the child `m'`. -/
def dupArea (s : State σ) (m' m p q : ℕ) : State σ × ℤ :=
  let tmp := { s.area p with vmFlags := (s.area p).vmFlags &&& ~~~vmLocked, vmMm := m' }
  let s := s.setArea q tmp
  let r := ops.copyPageRange s.pages m' m tmp
  let x := s.mm m'
  ({ s.setMm m' { x with mapCount := x.mapCount + 1, mmap := x.mmap ++ [q] } with pages := r.1 },
    r.2)

/-- The loop of `dup_mmap` over the areas of the parent.  The allocations return `answers`. -/
def dupMmapLoop (ops : PageOps σ) (m' m : ℕ) :
    State σ → List ℕ → List (Option ℕ) → State σ × ℤ
  | s, [], _ => (s, 0)
  | s, p :: ps, answers =>
    if (s.area p).vmFlags &&& vmDontcopy ≠ 0 then dupMmapLoop ops m' m s ps answers
    else
      match answers with
      | [] => (s, -12)
      | none :: _ => (s, -12)
      | some q :: answers =>
        let r := dupArea ops s m' m p q
        if r.2 ≠ 0 then r else dupMmapLoop ops m' m r.1 ps answers

/-- `dup_mmap(mm)` of a task whose address space is `m`. -/
def dupMmap (s : State σ) (m' m : ℕ) (answers : List (Option ℕ)) :
    State σ × ℤ :=
  let s := s.setMm m'
    { s.mm m' with lockedVm := 0, mmap := [], mmapCache := none, mapCount := 0 }
  dupMmapLoop ops m' m s (s.mm m).mmap answers

/-- `copy_mm` with the new `mm_struct` at `m'`. -/
def copyMm (s : State σ) (m' m : ℕ) (answers : List (Option ℕ)) :
    State σ × ℤ :=
  let s := s.setMm m' (s.mm m)
  match ops.mmInit s.pages m' with
  | none => (s, -12)
  | some pages => dupMmap ops { s with pages := pages } m' m answers

/-! ## Runs -/

/-- A call that changes an area list, with the answers of its allocations. -/
inductive Event : Type where
  | brk (m : ℕ) (addr len : BitVec 32) (extra vma : Option ℕ)
  | munmap (m : ℕ) (addr len : BitVec 32) (extra : Option ℕ)
  | fork (m m' : ℕ) (answers : List (Option ℕ))
  deriving Repr

/-- One call. -/
def step (s : State σ) : Event → Option (State σ)
  | .brk m addr len extra vma => (doBrk ops s m addr len extra vma).map Prod.fst
  | .munmap m addr len extra => (doMunmap ops s m addr len extra).map Prod.fst
  | .fork m m' answers => some (copyMm ops s m' m answers).1

end

end Mmap

end Yap
