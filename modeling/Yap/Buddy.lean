/-
# The page allocator (`mm/page_alloc.c`)

The binary buddy allocator of one memory zone: the free lists of
`zone->free_area[MAX_ORDER]` (rings through `struct page.list`), one bitmap per
order with one bit per pair of buddies, and the three functions that change
them, `expand`, `rmqueue` and `__free_pages_ok`.

A page is named by its index in `mem_map`.  `BUG()` is an empty function in this
kernel, so a failed check is counted in `bugs` and execution goes on.
-/
import Yap.ListHead
import Yap.Bitops

namespace Yap

namespace Buddy

/-- `MAX_ORDER`. -/
def maxOrder : ℕ := 10

/-- `PAGE_AGE_START`. -/
def pageAgeStart : BitVec 32 := 2

/-- The list nodes of a zone: `&zone->free_area[k].free_list` and `&mem_map[i].list`. -/
inductive Node : Type where
  | freeList (k : ℕ) : Node
  | page (i : ℕ) : Node
  deriving DecidableEq, Repr

/-- `memlist_entry(curr, struct page, list)`, as an index in `mem_map`.  A list
head is no page; it is read as page `0`. -/
def Node.entry : Node → ℕ
  | .page i => i
  | .freeList _ => 0

/-- The fields of `struct page` that the allocator reads or writes. -/
structure Page where
  count : BitVec 32
  flags : BitVec 32
  age : BitVec 32
  buffers : BitVec 32
  mapping : BitVec 32
  zone : ℕ
  deriving DecidableEq, Repr

/-- The word a page-flag macro reads.  `test_bit(nr, &page->flags)` steps
`nr >> 5` words from `flags`, and the word before `flags` is `count`. -/
def Page.word (p : Page) (i : ℤ) : BitVec 32 := if i = -1 then p.count else p.flags

/-- `test_bit(nr, &(page)->flags)`. -/
def Page.testBit (p : Page) (nr : ℤ) : Bool := (p.word (nr / 32)).getLsbD (nr % 32).toNat

def pgLocked : ℤ := -2
def pgReferenced : ℕ := 0
def pgDirty : ℕ := 2
def pgDecrAfter : ℤ := 3
def pgActive : ℤ := 4
def pgInactiveDirty : ℤ := 5
def pgSwapCache : ℤ := 7
def pgInactiveClean : ℤ := 9
def pgReserved : ℕ := 29

/-- A zone with its pages, and the globals the allocator uses. -/
structure State where
  /-- the address of the zone, what `page->zone` is compared with -/
  zone : ℕ
  offset : ℕ
  size : ℕ
  maxMapnr : ℕ
  freePages : BitVec 32
  /-- `free_area[k].map` -/
  map : ℕ → ByteMap
  page : ℕ → Page
  links : Links Node
  memoryPressure : BitVec 32
  /-- the number of `BUG()` calls so far -/
  bugs : ℕ

namespace State

/-- `if (c) BUG();` -/
def bugIf (s : State) (c : Bool) : State := if c then { s with bugs := s.bugs + 1 } else s

/-- `BAD_RANGE(zone, x)`. -/
def badRange (s : State) (x : ℕ) : Bool :=
  s.zone ≠ (s.page x).zone || decide (x < s.offset) || decide (x ≥ s.offset + s.size)

/-- `MARK_USED(index, order, area)`. -/
def markUsed (s : State) (index : BitVec 32) (order : ℕ) : State :=
  let nr := (index >>> (1 + order)).toNat
  { s with map := Function.update s.map order (changeBit nr (s.map order)) }

/-- `memlist_add_head(&mem_map[x].list, &free_area[order].free_list)`. -/
def memlistAdd (s : State) (x order : ℕ) : State :=
  { s with links := listAdd s.links (.page x) (.freeList order) }

/-- `memlist_del(&mem_map[x].list)`. -/
def memlistDel (s : State) (x : ℕ) : State :=
  { s with links := listRemove s.links (.page x) }

/-- `set_page_count(page, v)`. -/
def setPageCount (s : State) (x : ℕ) (v : BitVec 32) : State :=
  { s with page := Function.update s.page x { s.page x with count := v } }

end State

/-! ## Splitting: `expand` and `rmqueue` -/

/-- The loop of `expand`: while `high > low`, put the lower half on the list one
order below and go on with the upper half. -/
def expandLoop (low : ℕ) : ℕ → State → ℕ → BitVec 32 → ℕ → State × ℕ
  | 0, s, page, _, _ => (s, page)
  | high + 1, s, page, index, size =>
    if high + 1 > low then
      let s := s.bugIf (s.badRange page)
      let size := size >>> 1
      let s := s.memlistAdd page high
      let s := s.markUsed index high
      expandLoop low high s (page + size) (index + BitVec.ofNat 32 size) size
    else (s, page)

/-- `expand(zone, page, index, low, high, area)`. -/
def expand (s : State) (page : ℕ) (index : BitVec 32) (low high : ℕ) : State × ℕ :=
  let r := expandLoop low high s page index (1 <<< high)
  (r.1.bugIf (r.1.badRange r.2), r.2)

/-- The loop of `rmqueue`, with `n` orders left to look at. -/
def rmqueueLoop (order : ℕ) : ℕ → State → ℕ → Option ℕ × State
  | 0, s, _ => (none, s)
  | n + 1, s, currOrder =>
    let curr := s.links.next (.freeList currOrder)
    if curr ≠ .freeList currOrder then
      let page := curr.entry
      let s := s.bugIf (s.badRange page)
      let s := s.memlistDel page
      let index : BitVec 32 := BitVec.ofNat 32 page - BitVec.ofNat 32 s.offset
      let s := s.markUsed index currOrder
      let s := { s with freePages := s.freePages - (1 <<< order) }
      let r := expand s page index order currOrder
      let s := r.1.setPageCount r.2 1
      let s := s.bugIf (s.badRange r.2)
      let s := s.setPageCount r.2 1
      (some r.2, s)
    else rmqueueLoop order n s (currOrder + 1)

/-- `rmqueue(zone, order)`: the block handed out, `none` for `NULL`. -/
def rmqueue (s : State) (order : ℕ) : Option ℕ × State :=
  rmqueueLoop order (maxOrder - order) s order

/-! ## Merging: `__free_pages_ok` -/

/-- The loop of `__free_pages_ok`, at most `n` rounds: as long as the order is
below the top one and the pair's bit says that the buddy is free, take the buddy
off its list and go up one order.  Returns the order and the index where the
block ends up. -/
def freeLoop : ℕ → State → BitVec 32 → ℕ → BitVec 32 → BitVec 32 → State × ℕ × BitVec 32
  | 0, s, _, area, _, pageIdx => (s, area, pageIdx)
  | n + 1, s, mask, area, index, pageIdx =>
    if mask + (1 <<< (maxOrder - 1)) ≠ 0 then
      let s := s.bugIf (area ≥ maxOrder)
      let r := testAndChangeBit index.toNat (s.map area)
      let s := { s with map := Function.update s.map area r.2 }
      -- the buddy page is still allocated
      if r.1 = 0 then (s, area, pageIdx)
      else
        let buddy1 := s.offset + (pageIdx ^^^ (-mask)).toNat
        let buddy2 := s.offset + pageIdx.toNat
        let s := s.bugIf (s.badRange buddy1)
        let s := s.bugIf (s.badRange buddy2)
        let s := s.memlistDel buddy1
        let mask := mask <<< 1
        freeLoop n s mask (area + 1) (index >>> 1) (pageIdx &&& mask)
    else (s, area, pageIdx)

/-- The sanity checks at the entry of `__free_pages_ok`. -/
def freePagesChecks (s : State) (x : ℕ) : State :=
  let p := s.page x
  ((((((((s.bugIf (p.buffers ≠ 0)).bugIf (p.mapping ≠ 0)).bugIf
    (x ≥ s.maxMapnr)).bugIf (p.testBit pgSwapCache)).bugIf (p.testBit pgLocked)).bugIf
    (p.testBit pgDecrAfter)).bugIf (p.testBit pgActive)).bugIf
    (p.testBit pgInactiveDirty)).bugIf (p.testBit pgInactiveClean)

/-- `page->flags &= ~((1 << PG_referenced) | (1 << PG_dirty)); page->age = PAGE_AGE_START;` -/
def resetPage (s : State) (x : ℕ) : State :=
  let p := s.page x
  let flags := p.flags &&& ~~~((1#32 <<< pgReferenced) ||| (1#32 <<< pgDirty))
  { s with page := Function.update s.page x { p with flags := flags, age := pageAgeStart } }

/-- `__free_pages_ok(page, order)`, for a page of this zone. -/
def freePagesOk (s : State) (x order : ℕ) : State :=
  let s := freePagesChecks s x
  let s := resetPage s x
  let mask : BitVec 32 := (~~~0#32) <<< order
  let pageIdx : BitVec 32 := BitVec.ofNat 32 x - BitVec.ofNat 32 s.offset
  let s := s.bugIf (pageIdx &&& ~~~mask ≠ 0)
  let index := pageIdx >>> (1 + order)
  let s := { s with freePages := s.freePages - mask }
  let r := freeLoop maxOrder s mask order index pageIdx
  let s := r.1.memlistAdd (s.offset + r.2.2.toNat) r.2.1
  { s with memoryPressure := s.memoryPressure - 1 }

/-! ## The initial state and the clients -/

/-- The state `free_area_init_core` leaves a zone in: every page reserved, unused
and on no list, all free lists empty, all bitmaps zero, no free page. -/
def freeAreaInitCore (zone offset size maxMapnr : ℕ) (foreign : ℕ → ℕ) : State where
  zone := zone
  offset := offset
  size := size
  maxMapnr := maxMapnr
  freePages := 0
  map := fun _ _ => 0
  page := fun i =>
    { count := 0
      flags := 1#32 <<< pgReserved
      age := 0
      buffers := 0
      mapping := 0
      zone := if offset ≤ i ∧ i < offset + size then zone else foreign i }
  links := { next := id, prev := id }
  memoryPressure := 0
  bugs := 0

/-- A zone together with the blocks its clients hold, each as `mem_map` index and order. -/
structure Sys where
  st : State
  out : List (ℕ × ℕ)

/-- One call of a client: `rmqueue` of an order below `MAX_ORDER`, or
`__free_pages_ok` of a block it holds, with the order it was handed out with. -/
inductive Step : Sys → Sys → Prop
  | alloc (s : Sys) (order : ℕ) (h : order < maxOrder) :
      Step s ⟨(rmqueue s.st order).2,
        ((rmqueue s.st order).1.map (fun x => (x, order))).toList ++ s.out⟩
  | free (s : Sys) (x order : ℕ) (h : (x, order) ∈ s.out) :
      Step s ⟨freePagesOk s.st x order, s.out.erase (x, order)⟩

/-- At boot every page of the zone is held as a block of order 0. -/
def bootBlocks (offset size : ℕ) : List (ℕ × ℕ) :=
  (List.range size).map (fun i => (offset + i, 0))

/-- Where and how large a zone is.  `mem_init` sets `max_mapnr` past the last zone,
and page numbers are 32 bits wide. -/
structure ZoneConfig where
  zone : ℕ
  offset : ℕ
  size : ℕ
  maxMapnr : ℕ
  foreign : ℕ → ℕ
  fits : offset + size ≤ maxMapnr
  wide : maxMapnr < 2 ^ 32

/-- The zone after `free_area_init_core`, with all its pages held by the boot code. -/
def ZoneConfig.boot (c : ZoneConfig) : Sys where
  st := freeAreaInitCore c.zone c.offset c.size c.maxMapnr c.foreign
  out := bootBlocks c.offset c.size

end Buddy

end Yap
