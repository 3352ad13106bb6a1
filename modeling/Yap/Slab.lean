/-
# The slab allocator (`mm/slab.c`)

One cache: its ring of slabs (full ones first, then partially used ones, then empty
ones), the cursor `firstnotfull`, and in each slab the chain of free objects that
`slab_bufctl` threads through an array of indices.

A slab is named by the address of its `slab_t`; addresses are numbers, and all
address arithmetic stays inside the pages of a slab.  What the rest of the kernel
answers during `kmem_cache_grow` (the pages, and the management structure of an
off-slab cache) is an argument.
-/
import Yap.Headers
import Yap.ListHead

namespace Yap

namespace Slab

/-- `BUFCTL_END`. -/
def bufctlEnd : BitVec 32 := 0xffffffff

/-- `SLAB_NO_GROW`. -/
def slabNoGrow : BitVec 32 := 0x00001000

/-- `L1_CACHE_BYTES`. -/
def l1CacheBytes : BitVec 32 := 32

/-- `L1_CACHE_ALIGN(x)`. -/
def l1CacheAlign (x : BitVec 32) : BitVec 32 := (x + (l1CacheBytes - 1)) &&& ~~~(l1CacheBytes - 1)

/-- `sizeof(slab_t)`. -/
def sizeofSlab : BitVec 32 := 24

/-- `sizeof(kmem_bufctl_t)`. -/
def sizeofBufctl : BitVec 32 := 4

/-- `slab_size`: a `slab_t` and its `kmem_bufctl_t` array. -/
def slabSize (num : BitVec 32) : BitVec 32 := l1CacheAlign (num * sizeofBufctl + sizeofSlab)

/-- The list nodes of a cache: `&cachep->slabs` and `&slabp->list`. -/
inductive Node : Type where
  | slabs : Node
  | slab (a : ℕ) : Node
  deriving DecidableEq, Repr

/-- `list_entry(p, slab_t, list)`.  The list head is no slab; it is read as address 0. -/
def Node.entry : Node → ℕ
  | .slab a => a
  | .slabs => 0

/-- `slab_t` with the `kmem_bufctl_t` array behind it. -/
structure SlabT where
  colouroff : ℕ
  sMem : ℕ
  inuse : BitVec 32
  free : BitVec 32
  bufctl : BitVec 32 → BitVec 32

/-- The constant fields of a `kmem_cache_t`, laid out as `kmem_cache_estimate` lays
them out: management and objects fit the pages of a slab at every colour. -/
structure Cache where
  objsize : ℕ
  num : ℕ
  gfporder : ℕ
  colour : ℕ
  colourOff : ℕ
  /-- `OFF_SLAB(cachep)` -/
  offSlab : Bool
  objsize_pos : 0 < objsize
  num_pos : 0 < num
  num_lt : num < 2 ^ 32
  fits : ∀ k, k = 0 ∨ k < colour →
    k * colourOff + (if offSlab then 0 else (slabSize (BitVec.ofNat 32 num)).toNat) +
      num * objsize ≤ 2 ^ gfporder * pageSize.toNat

/-- Bytes in the pages of a slab. -/
def Cache.span (c : Cache) : ℕ := 2 ^ c.gfporder * pageSize.toNat

/-- The changing fields of a `kmem_cache_t`, the slabs, and `GET_PAGE_SLAB` of the
page frames. -/
structure State where
  links : Links Node
  firstnotfull : Node
  colourNext : ℕ
  growing : BitVec 32
  slab : ℕ → SlabT
  pageSlab : ℕ → ℕ

/-- The answers `kmem_cache_grow` gets: the address of the pages from
`__get_free_pages`, and of the management structure from `slabp_cache`. -/
structure Answers where
  pages : Option ℕ
  mgmt : Option ℕ
  deriving DecidableEq, Repr

/-- Change one slab. -/
def State.setSlab (s : State) (a : ℕ) (t : SlabT) : State :=
  { s with slab := Function.update s.slab a t }

section

variable (c : Cache)

/-- `kmem_cache_slabmgmt(cachep, objp, colour_off, local_flags)`: the address of the
management structure and its contents. -/
def kmemCacheSlabmgmt (s : State) (objp colourOff : ℕ) (mgmt : Option ℕ) : Option (ℕ × SlabT) :=
  let fill := fun (slabp colourOff : ℕ) =>
    (slabp, { s.slab slabp with inuse := 0, colouroff := colourOff, sMem := objp + colourOff })
  if c.offSlab then mgmt.map (fun slabp => fill slabp colourOff)
  else some (fill (objp + colourOff) (colourOff + (slabSize (BitVec.ofNat 32 c.num)).toNat))

/-- The loop of `kmem_cache_init_objs`, for the objects below `n`. -/
def initLoop : ℕ → (BitVec 32 → BitVec 32) → BitVec 32 → BitVec 32
  | 0, bufctl => bufctl
  | n + 1, bufctl =>
    Function.update (initLoop n bufctl) (BitVec.ofNat 32 n) (BitVec.ofNat 32 n + 1)

/-- `kmem_cache_init_objs(cachep, slabp, ctor_flags)`. -/
def kmemCacheInitObjs (t : SlabT) : SlabT :=
  { t with
    bufctl := Function.update (initLoop c.num t.bufctl) (BitVec.ofNat 32 (c.num - 1)) bufctlEnd
    free := 0 }

/-- `SET_PAGE_SLAB` for the `n` pages from frame `page` on. -/
def setPageSlab (slabp : ℕ) : ℕ → ℕ → (ℕ → ℕ) → ℕ → ℕ
  | 0, _, f => f
  | n + 1, page, f => setPageSlab slabp n (page + 1) (Function.update f page slabp)

/-- `kmem_cache_grow` up to its allocations: the next colour, `growing++`. -/
def growBegin (s : State) : State :=
  { s with
    colourNext := if s.colourNext + 1 ≥ c.colour then 0 else s.colourNext + 1
    growing := s.growing + 1 }

/-- The label `failed`: `growing--`. -/
def growFailed (s : State) : State := { s with growing := s.growing - 1 }

/-- `kmem_cache_grow` after its allocations: set up the slab and make it active. -/
def growActivate (s : State) (objp slabp : ℕ) (t : SlabT) : State :=
  let s := { s with
    pageSlab := setPageSlab slabp (2 ^ c.gfporder) (objp / pageSize.toNat) s.pageSlab }
  let s := s.setSlab slabp (kmemCacheInitObjs c t)
  { s with
    growing := s.growing - 1
    links := listAddTail s.links (.slab slabp) .slabs
    firstnotfull := if s.firstnotfull = .slabs then .slab slabp else s.firstnotfull }

/-- `kmem_cache_grow(cachep, flags)`. -/
def kmemCacheGrow (s : State) (flags : BitVec 32) (ans : Answers) : Bool × State :=
  if flags &&& slabNoGrow ≠ 0 then (false, s)
  else
    let offset := s.colourNext * c.colourOff
    let s := growBegin c s
    match ans.pages with
    | none => (false, growFailed s)
    | some objp =>
      match kmemCacheSlabmgmt c s objp offset ans.mgmt with
      | none => (false, growFailed s)
      | some (slabp, t) => (true, growActivate c s objp slabp t)

/-- `kmem_cache_alloc_one_tail(cachep, slabp)`. -/
def kmemCacheAllocOneTail (s : State) (slabp : ℕ) : ℕ × State :=
  let t := s.slab slabp
  let objp := t.sMem + t.free.toNat * c.objsize
  let t := { t with inuse := t.inuse + 1, free := t.bufctl t.free }
  let s := s.setSlab slabp t
  let s := if t.free = bufctlEnd then { s with firstnotfull := s.links.next (.slab slabp) } else s
  (objp, s)

/-- `__kmem_cache_alloc(cachep, flags)` with at most `n` passes through `try_again`;
`none` when they are used up. -/
def kmemCacheAllocLoop (flags : BitVec 32) (ans : Answers) : ℕ → State → Option (Option ℕ × State)
  | 0, _ => none
  | n + 1, s =>
    if s.firstnotfull = .slabs then
      match kmemCacheGrow c s flags ans with
      | (true, s) => kmemCacheAllocLoop flags ans n s
      | (false, s) => some (none, s)
    else
      let r := kmemCacheAllocOneTail c s s.firstnotfull.entry
      some (some r.1, r.2)

/-- `kmem_cache_alloc(cachep, flags)`: a second pass always finds the grown slab. -/
def kmemCacheAlloc (s : State) (flags : BitVec 32) (ans : Answers) : Option (Option ℕ × State) :=
  kmemCacheAllocLoop c flags ans 2 s

/-- `moveslab_partial`: the slab was full. -/
def moveslabPartial (s : State) (slabp : ℕ) : State :=
  let t := s.firstnotfull
  let s := { s with firstnotfull := .slab slabp }
  if s.links.next (.slab slabp) = t then s
  else { s with links := listAddTail (listRemove s.links (.slab slabp)) (.slab slabp) t }

/-- `moveslab_free`: the slab was partially used and is now empty. -/
def moveslabFree (s : State) (slabp : ℕ) : State :=
  let t := s.links.prev s.firstnotfull
  let s := { s with links := listAddTail (listRemove s.links (.slab slabp)) (.slab slabp) .slabs }
  if s.firstnotfull = .slab slabp then { s with firstnotfull := s.links.next t } else s

/-- `kmem_cache_free_one(cachep, objp)`. -/
def kmemCacheFreeOne (s : State) (objp : ℕ) : State :=
  let slabp := s.pageSlab (objp / pageSize.toNat)
  let t := s.slab slabp
  let objnr := BitVec.ofNat 32 ((objp - t.sMem) / c.objsize)
  let inuse := t.inuse
  let t := { t with
    bufctl := Function.update t.bufctl objnr t.free
    free := objnr
    inuse := inuse - 1 }
  let s := s.setSlab slabp t
  if inuse = BitVec.ofNat 32 c.num then moveslabPartial s slabp
  else if inuse - 1 = 0 then moveslabFree s slabp
  else s

end

/-- A cache as `kmem_cache_create` leaves it. -/
def emptyState (slab : ℕ → SlabT) (pageSlab : ℕ → ℕ) : State where
  links := initListHead { next := id, prev := id } .slabs
  firstnotfull := .slabs
  colourNext := 0
  growing := 0
  slab := slab
  pageSlab := pageSlab

end Slab

end Yap
