/-
# Page tables (`mm/memory.c`, `arch/arm/pagealloc.c`, `arch/arm/pgtable.c`)

The directory of an address space has 4096 entries, one for each section of 1 MB; an entry is
empty, a section of the kernel, or points to a second-level table of 256 entries.  Tables and
pages are frames of physical memory, which is an array of words for each frame number.

What the functions need of the machine is a parameter (`Machine`): the pool of free frames,
which frames are valid and reserved, and the kernel's directory.  `failed` records that an
allocation has failed, `fault` that a walk has left the directory.
-/
import Yap.Mmap
import Yap.Pool

namespace Yap

namespace Paging

open Mmap

/-! ## The machine -/

/-- `PHYS_PFN_OFFSET`. -/
def physPfnOffset : ℕ := 0x30000

/-- `pmd_bad(pmd)`. -/
def pmdBad (d : BitVec 32) : Prop := d &&& 2 ≠ 0

instance (d : BitVec 32) : Decidable (pmdBad d) := inferInstanceAs (Decidable (_ ≠ _))

/-- `VM_MAYWRITE`. -/
def vmMaywrite : BitVec 32 := 0x00000020

/-- What the page functions need of the machine. -/
structure Machine (α : Type) where
  pool : Pool α
  /-- `max_mapnr` -/
  maxMapnr : ℕ
  /-- `PageReserved` of each frame -/
  reserved : ℕ → Bool
  /-- the kernel's directory at `TLB_BASE` -/
  tlbBase : ℕ → BitVec 32
  /-- `empty_zero_page` -/
  emptyZeroPage : ℕ
  maxMapnr_le : maxMapnr ≤ 0xd0000
  tlbBase_section : ∀ i, tlbBase i = 0 ∨ pmdBad (tlbBase i)

/-- The directories, physical memory, the reference counts and the pool. -/
structure Pages (α : Type) where
  pgd : ℕ → ℕ → BitVec 32
  mem : ℕ → ℕ → BitVec 32
  count : ℕ → ℤ
  free : α
  failed : Bool
  fault : Bool

variable {α : Type}

/-- Write a directory entry. -/
def Pages.setDir (g : Pages α) (m i : ℕ) (d : BitVec 32) : Pages α :=
  { g with pgd := fun n l => if n = m ∧ l = i then d else g.pgd n l }

/-- Write a word of a frame. -/
def Pages.setWord (g : Pages α) (t j : ℕ) (e : BitVec 32) : Pages α :=
  { g with mem := fun u l => if u = t ∧ l = j then e else g.mem u l }

/-- Write a whole frame. -/
def Pages.setFrame (g : Pages α) (p : ℕ) (c : ℕ → BitVec 32) : Pages α :=
  { g with mem := fun u => if u = p then c else g.mem u }

/-- `set_page_count`. -/
def Pages.setCount (g : Pages α) (p : ℕ) (c : ℤ) : Pages α :=
  { g with count := fun u => if u = p then c else g.count u }

/-! ## Entries -/

/-- The number of the frame that an entry points to. -/
def pfn (e : BitVec 32) : ℕ := (e >>> 12).toNat

/-- `page_address` of the frame `p`. -/
def pageAddress (p : ℕ) : BitVec 32 := BitVec.ofNat 32 (p * 4096)

section

variable (M : Machine α)

/-- `VALID_PAGE` of the frame `p`. -/
def validPage (p : ℕ) : Prop :=
  physPfnOffset ≤ p ∧ p - physPfnOffset < M.maxMapnr

instance (M : Machine α) (p : ℕ) : Decidable (validPage M p) :=
  inferInstanceAs (Decidable (_ ∧ _))

/-- What `set_pmd` stores. -/
def setPmd (entry : BitVec 32) : BitVec 32 := entry &&& ~~~0x1ff#32 ||| 0x60#32 ||| 1#32

/-- What `set_pte` stores. -/
def setPte (entry : BitVec 32) : BitVec 32 :=
  entry &&& ~~~0xfff#32 ||| 0xff0#32 ||| 4#32 ||| 8#32 ||| 2#32

/-- `pmd_page(pmd)`. -/
def pmdPage (d : BitVec 32) : BitVec 32 := d &&& ~~~0xfff#32 &&& ~~~1#32

/-- `pte_present(pte)`. -/
def ptePresent (e : BitVec 32) : Prop := e &&& 3 ≠ 0

instance (e : BitVec 32) : Decidable (ptePresent e) := inferInstanceAs (Decidable (_ ≠ _))

section

variable (e : BitVec 32)

/-- `pte_wrprotect(pte)`. -/
def pteWrprotect : BitVec 32 := e ||| 0x02

/-- `pte_mkold(pte)`. -/
def pteMkold : BitVec 32 := e ||| 0x08

/-- `pte_mkclean(pte)`. -/
def pteMkclean : BitVec 32 := e ||| 0x10

/-- `pte_mkwrite(pte)`. -/
def pteMkwrite : BitVec 32 := e &&& ~~~0x02#32

/-- `pte_mkyoung(pte)`. -/
def pteMkyoung : BitVec 32 := e &&& ~~~0x08#32

/-- `pte_mkdirty(pte)`. -/
def pteMkdirty : BitVec 32 := e &&& ~~~0x10#32

end

/-- `mk_pte(page, pgprot)`. -/
def mkPte (p : ℕ) (pgprot : BitVec 32) : BitVec 32 := pageAddress p + pgprot

/-- `__pte_offset(addr)`. -/
def pteIndex (addr : BitVec 32) : ℕ := ((addr >>> 12) &&& 0xff).toNat

/-! ## Frames -/

section

variable (g : Pages α)

/-- `alloc_pages(gfp_mask, 0)`, which clears the frame. -/
def allocPage : Option (ℕ × Pages α) :=
  (M.pool.alloc g.free).map fun r =>
    (r.1, (({ g with free := r.2 }).setCount r.1 1).setFrame r.1 fun _ => 0)

/-- `__free_page(page)`. -/
def freePage (p : ℕ) : Pages α :=
  if M.reserved p then g
  else
    let g := g.setCount p (g.count p - 1)
    if g.count p = 0 then { g with free := M.pool.release g.free p } else g

/-- `free_pages(addr, 0)`. -/
def freePages (addr : BitVec 32) : Pages α :=
  if validPage M (pfn addr) then freePage M g (pfn addr) else g

/-! ## Faults -/

/-- `pte_alloc` for the directory entry `i`: the frame of the table, `none` for `NULL`. -/
def pteAlloc (m i : ℕ) : Pages α × Option ℕ :=
  let d := g.pgd m i
  if d = 0 then
    match allocPage M g with
    | none => ({ g.setDir m i (setPmd 0) with failed := true }, none)
    | some (p, g) => (g.setDir m i (setPmd (pageAddress p)), some p)
  else if pmdBad d then (g.setDir m i (setPmd 0), none)
  else (g, some (pfn (pmdPage d)))

/-- `do_anonymous_page`, for the entry `j` of the table `t`. -/
def doAnonymousPage (pgprot : BitVec 32) (t j : ℕ) (write : Bool) : Pages α × ℤ :=
  if write then
    match allocPage M g with
    | none => ({ g with failed := true }, -1)
    | some (p, g) => (g.setWord t j (setPte (pteMkwrite (pteMkdirty (mkPte p pgprot)))), 1)
  else (g.setWord t j (setPte (pteWrprotect (mkPte M.emptyZeroPage pgprot))), 1)

/-- The copy that `do_wp_page` makes of the frame `old` when others use it too. -/
def copyPage (pgprot : BitVec 32) (t j : ℕ) (pte : BitVec 32) (old : ℕ) : Pages α × ℤ :=
  match allocPage M g with
  | none => ({ g with failed := true }, -1)
  | some (p, g) =>
    if g.mem t j = pte then
      let g := g.setFrame p (g.mem old)
      (freePage M (g.setWord t j (setPte (pteMkwrite (pteMkdirty (mkPte p pgprot))))) old, 1)
    else (freePage M g p, 1)

/-- `do_wp_page`.  No page is in a swap cache. -/
def doWpPage (pgprot : BitVec 32) (t j : ℕ) (pte : BitVec 32) : Pages α × ℤ :=
  let old := pfn pte
  if ¬ validPage M old then (g, -1)
  else if g.count old = 1 then
    (g.setWord t j (setPte (pteMkyoung (pteMkdirty (pteMkwrite pte)))), 1)
  else copyPage M g pgprot t j pte old

/-- `handle_pte_fault`.  Areas have no `vm_ops`, and there is no swap. -/
def handlePteFault (pgprot : BitVec 32) (t j : ℕ) (write : Bool) : Pages α × ℤ :=
  let entry := g.mem t j
  if ¬ ptePresent entry ∧ entry = 0 then doAnonymousPage M g pgprot t j write
  else if write then doWpPage M g pgprot t j entry
  else (g.setWord t j (setPte (pteMkyoung entry)), 1)

/-- `handle_mm_fault`. -/
def handleMmFault (m : ℕ) (vma : VmArea) (address : BitVec 32) (write : Bool) : Pages α × ℤ :=
  match pteAlloc M g m (pgdIndex address).toNat with
  | (g, none) => (g, -1)
  | (g, some t) => handlePteFault M g vma.vmPageProt t (pteIndex address) write

/-! ## Zapping -/

/-- `free_pte`. -/
def freePte (e : BitVec 32) : Pages α :=
  if ptePresent e then
    if ¬ validPage M (pfn e) ∨ M.reserved (pfn e) then g else freePage M g (pfn e)
  else g

/-- One round of the loop of `zap_pte_range`. -/
def zapPte (t j : ℕ) : Pages α :=
  let e := g.mem t j
  let g := g.setWord t j (setPte 0)
  if e = 0 then g else freePte M g e

end

/-- The loop of `zap_pte_range` over `n` entries of the table `t` from `j` on. -/
def zapPtes (M : Machine α) (t : ℕ) : ℕ → ℕ → Pages α → Pages α
  | 0, _, g => g
  | n + 1, j, g => zapPtes M t n (j + 1) (zapPte M g t j)

/-- `zap_pte_range`. -/
def zapPteRange (g : Pages α) (m i : ℕ) (address size : BitVec 32) : Pages α :=
  let d := g.pgd m i
  if d = 0 then g
  else if pmdBad d then g.setDir m i (setPmd 0)
  else
    let address' := address &&& (pgdirSize - 1)
    let size := if pgdirSize < address' + size then pgdirSize - address' else size
    zapPtes M (pfn (pmdPage d)) (size >>> 12).toNat (pteIndex address) g

/-- `zap_pmd_range`, whose loop makes one round since `PMD_SIZE` is `PGDIR_SIZE`. -/
def zapPmdRange (g : Pages α) (m i : ℕ) (address size : BitVec 32) : Pages α :=
  let address := address &&& (pgdirSize - 1)
  let stop := if pgdirSize < address + size then pgdirSize else address + size
  zapPteRange M g m i address (stop - address)

/-- The next section. -/
def nextSection (address : BitVec 32) : BitVec 32 := (address + pgdirSize) &&& ~~~(pgdirSize - 1)

/-- The loop of `zap_page_range`, with `n` directory entries left. -/
def zapSections (M : Machine α) (m : ℕ) (stop : BitVec 32) : ℕ → BitVec 32 → Pages α → Pages α
  | 0, _, g => g
  | n + 1, address, g =>
    let g := zapPmdRange M g m (4095 - n) address (stop - address)
    let address := nextSection address
    if address ≠ 0 ∧ address < stop then zapSections M m stop n address g else g

/-- `zap_page_range`. -/
def zapPageRange (g : Pages α) (m : ℕ) (address size : BitVec 32) : Pages α :=
  zapSections M m (address + size) (4096 - (pgdIndex address).toNat) address g

/-! ## Freeing tables -/

/-- `free_one_pmd`. -/
def freeOnePmd (g : Pages α) (m i : ℕ) : Pages α :=
  let d := g.pgd m i
  if d = 0 then g
  else if pmdBad d then g.setDir m i (setPmd 0)
  else freePages M (g.setDir m i (setPmd 0)) (pmdPage d)

/-- The loop of `clear_page_tables`. -/
def clearTables (M : Machine α) (m : ℕ) : ℕ → ℕ → Pages α → Pages α
  | 0, _, g => g
  | n + 1, i, g => clearTables M m n (i + 1) (freeOnePmd M g m i)

/-- `clear_page_tables(mm, first, nr)`, for `nr` at least 1. -/
def clearPageTables (g : Pages α) (m : ℕ) (first nr : BitVec 32) : Pages α :=
  clearTables M m nr.toNat first.toNat g

/-! ## Copying -/

/-- `copy_one_pte` from the table `ts` to the table `td`, and the write fault that breaks the
sharing. -/
def copyOnePte (g : Pages α) (dst : ℕ) (vma : VmArea) (address : BitVec 32)
    (ts td j : ℕ) : Pages α :=
  let e := g.mem ts j
  if e = 0 then g
  else if ¬ ptePresent e then g.setWord td j (setPte e)
  else if ¬ validPage M (pfn e) ∨ M.reserved (pfn e) then g.setWord td j (setPte e)
  else
    let cow := vma.vmFlags &&& (vmShared ||| vmMaywrite) = vmMaywrite
    let g := if cow then g.setWord ts j (setPte (pteWrprotect e)) else g
    let pte := if cow then g.mem ts j else e
    let pte := if vma.vmFlags &&& vmShared ≠ 0 then pteMkclean pte else pte
    let g := g.setCount (pfn e) (g.count (pfn e) + 1)
    let g := g.setWord td j (setPte (pteMkold pte))
    if cow then (handleMmFault M g dst vma address true).1 else g

/-- The loop of `copy_page_range` over a table, with `n` entries left; `none` for `goto out`,
otherwise the address to go on at. -/
def copyPtes (M : Machine α) (dst : ℕ) (vma : VmArea) (ts td : ℕ) :
    ℕ → BitVec 32 → Pages α → Pages α × Option (BitVec 32)
  | 0, address, g => (g, some address)
  | n + 1, address, g =>
    let g := copyOnePte M g dst vma address ts td (255 - n)
    let address := address + pageSize
    if vma.vmEnd ≤ address then (g, none) else copyPtes M dst vma ts td n address g

/-- The loop of `copy_page_range` over the directory, with `n` entries left.  The address is
compared with the end only, so that the walk leaves the directory when the address wraps.  An entry
that `pmd_clear` has written leads to a table at the address 0, which is none. -/
def copySections (M : Machine α) (dst src : ℕ) (vma : VmArea) :
    ℕ → BitVec 32 → Pages α → Pages α × ℤ
  | 0, _, g => ({ g with fault := true }, 0)
  | n + 1, address, g =>
    let i := 4095 - n
    let d := g.pgd src i
    if d = 0 ∨ pmdBad d then
      let g := if d = 0 then g else g.setDir src i (setPmd 0)
      let address := nextSection address
      if vma.vmEnd ≤ address then (g, 0) else copySections M dst src vma n address g
    else
      match if g.pgd dst i = 0 then pteAlloc M g dst i else (g, some 0) with
      | (g, none) => (g, -12)
      | (g, some _) =>
        if ¬ validPage M (pfn (pmdPage (g.pgd src i))) then ({ g with fault := true }, 0)
        else
          match copyPtes M dst vma (pfn (pmdPage (g.pgd src i))) (pfn (pmdPage (g.pgd dst i)))
              (256 - pteIndex address) address g with
          | (g, none) => (g, 0)
          | (g, some address) => copySections M dst src vma n address g

/-- `copy_page_range(dst, src, vma)`. -/
def copyPageRange (g : Pages α) (dst src : ℕ) (vma : VmArea) : Pages α × ℤ :=
  copySections M dst src vma (4096 - (pgdIndex vma.vmStart).toNat) vma.vmStart g

/-- `mm_init` of the address space `m`, and the copy of the kernel's directory. -/
def mmInit (g : Pages α) (m : ℕ) : Option (Pages α) :=
  (M.pool.allocBlock g.free).map fun a =>
    { g with free := a, pgd := fun n i => if n = m then M.tlbBase i else g.pgd n i }

/-- The page functions. -/
def pageOps : PageOps (Pages α) where
  mmInit := mmInit M
  zapPageRange := zapPageRange M
  clearPageTables := clearPageTables M
  handleMmFault := handleMmFault M
  copyPageRange := copyPageRange M

end

end Paging

end Yap
