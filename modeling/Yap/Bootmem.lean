/-
# The hand-over of the boot memory (`mm/bootmem.c`)

While the kernel boots, a bitmap with one bit per page of the node says which pages are
taken.  `reserve_bootmem_core` sets the bits of the pages an area touches, through the
byte-addressed `test_and_set_bit`; `free_all_bootmem_core` reads them through the
word-addressed `test_bit` and frees every page whose bit is clear into the buddy allocator.

The main result, `hand_over`, says that the pages freed are those no reserved area touches
and that the free lists are then the maximal blocks of these pages.
-/
import Yap.BuddyHistory
import Yap.Headers

namespace Yap

namespace Bootmem

open Buddy List
open BitVec (toNat_sub_of_le le_def toNat_add lt_def)

/-- `PAGE_SHIFT`. -/
def pageShift : ℕ := 12

/-- `bootmem_data_t`. -/
structure BootmemData where
  nodeBootStart : BitVec 32
  nodeLowPfn : BitVec 32
  nodeBootmemMap : ByteMap
  /-- the number of `BUG()` calls so far -/
  bugs : ℕ

/-- How `mem_init(START, END)` sets up `bdata`, with the bitmap that `alloc_bootmem_node`
has cleared. -/
def memInit (START END : BitVec 32) : BootmemData where
  nodeBootStart := START
  nodeLowPfn := END >>> pageShift
  nodeBootmemMap := fun _ => 0
  bugs := 0

/-! ## Reservation -/

/-- The loop of `reserve_bootmem_core`: `n` bits from bit `i` on. -/
def reserveLoop : ℕ → ℕ → ByteMap → ByteMap
  | 0, _, map => map
  | n + 1, i, map => reserveLoop n (i + 1) (testAndSetBit i map)

/-- `reserve_bootmem_core(bdata, addr, size)`. -/
def reserveBootmemCore (b : BootmemData) (addr size : BitVec 32) : BootmemData :=
  let sidx := (addr - b.nodeBootStart) / pageSize
  let eidx := (addr + size - b.nodeBootStart + pageSize - 1) / pageSize
  let endPfn := (addr + size + pageSize - 1) / pageSize
  { b with
    bugs := b.bugs + (if size = 0 then 1 else 0) + (if endPfn > b.nodeLowPfn then 1 else 0)
    nodeBootmemMap := reserveLoop (eidx.toNat - sidx.toNat) sidx.toNat b.nodeBootmemMap }

/-- The loop of `mem_init` over the reserved areas, each given by address and size. -/
def reserveAreas (b : BootmemData) (areas : List (BitVec 32 × BitVec 32)) : BootmemData :=
  areas.foldl (fun b ra => reserveBootmemCore b ra.1 ra.2) b

/-! ## Release -/

/-- The state of `free_all_bootmem_core`: the zone, the counter, and the arguments
`__free_pages_ok` has been called with so far. -/
structure HandOver where
  st : Buddy.State
  count : BitVec 32
  freed : List (ℕ × ℕ)

/-- `ClearPageReserved(page)`. -/
def clearPageReserved (s : Buddy.State) (x : ℕ) : Buddy.State :=
  let p := s.page x
  { s with
    page := Function.update s.page x { p with flags := p.flags &&& ~~~(1#32 <<< pgReserved) } }

/-- `__free_pages(page, order)`. -/
def freePages (h : HandOver) (x order : ℕ) : HandOver :=
  if (h.st.page x).testBit pgReserved then h
  else
    -- put_page_testzero(page)
    let count := (h.st.page x).count - 1
    let st := h.st.setPageCount x count
    if count = 0 then
      { h with st := freePagesOk st x order, freed := h.freed ++ [(x, order)] }
    else { h with st := st }

/-- The loop of `free_all_bootmem_core`: `n` pages from page `i` of the node on. -/
def freeAllLoop (map : ByteMap) : ℕ → ℕ → HandOver → HandOver
  | 0, _, h => h
  | n + 1, i, h =>
    let page := h.st.offset + i
    if testBit i (wordsOf map) then freeAllLoop map n (i + 1) h
    else
      let st := (clearPageReserved h.st page).setPageCount page 1
      freeAllLoop map n (i + 1) (freePages { h with st := st, count := h.count + 1 } page 0)

/-- `free_all_bootmem_core(pgdat)`; it returns `count`. -/
def freeAllBootmemCore (b : BootmemData) (st : Buddy.State) : HandOver :=
  let idx := b.nodeLowPfn - (b.nodeBootStart >>> pageShift)
  freeAllLoop b.nodeBootmemMap idx.toNat 0 { st := st, count := 0, freed := [] }

/-! ## Which bits are set -/

/-- The area `ra` and page `i` of a node that begins at `START` have a byte in common. -/
def Intersects (START : BitVec 32) (ra : BitVec 32 × BitVec 32) (i : ℕ) : Prop :=
  ∃ byte, ra.1.toNat ≤ byte ∧ byte < ra.1.toNat + ra.2.toNat ∧
    START.toNat + 4096 * i ≤ byte ∧ byte < START.toNat + 4096 * (i + 1)

/-- A nonempty area inside the node from `START` to the last whole page before `END`. -/
structure InNode (START END : BitVec 32) (ra : BitVec 32 × BitVec 32) : Prop where
  nonempty : 0 < ra.2
  above : START.toNat ≤ ra.1.toNat
  below : ra.1.toNat + ra.2.toNat ≤ 4096 * (END >>> pageShift).toNat

variable {END START : BitVec 32} {ra : BitVec 32 × BitVec 32}

theorem bitAt_reserveLoop (n i : ℕ) (map : ByteMap) (m : ℕ) :
    bitAt (reserveLoop n i map) m = (bitAt map m || decide (i ≤ m ∧ m < i + n)) := by
  induction n generalizing i map with
  | zero =>
    have hno : ¬ (i ≤ m ∧ m < i + 0) := by omega
    rw [reserveLoop, decide_eq_false hno, Bool.or_false]
  | succ n ih =>
    rw [reserveLoop, ih, bitAt_testAndSetBit, Bool.or_assoc, ← Bool.decide_or]
    congr 2
    rw [eq_iff_iff]
    omega

/-- The page frame numbers of a 32-bit address space. -/
theorem toNat_shift_lt (END : BitVec 32) : (END >>> pageShift).toNat < 2 ^ 20 := by
  rw [BitVec.toNat_ushiftRight, Nat.shiftRight_eq_div_pow, pageShift]
  omega

/-- A rounded-up difference of addresses does not wrap inside a node. -/
theorem toNat_round_up (a start : BitVec 32) (hs : start.toNat ≤ a.toNat)
    (ha : a.toNat ≤ 4096 * (2 ^ 20 - 1)) :
    ((a - start + pageSize - 1) / pageSize).toNat = (a.toNat - start.toNat + 4095) / 4096 := by
  have hsub : (a - start).toNat = a.toNat - start.toNat :=
    toNat_sub_of_le (le_def.mpr hs)
  have hadd : (a - start + pageSize - 1).toNat = a.toNat - start.toNat + 4095 := by
    have hmask : a - start + pageSize - 1 = a - start + 4095#32 := by
      rw [add_sub_assoc]
      rfl
    rw [hmask, toNat_add, hsub, BitVec.toNat_ofNat, Nat.mod_eq_of_lt (by omega)]
  rw [BitVec.toNat_udiv, hadd, toNat_pageSize]

/-- **Reservation.**  `reserve_bootmem_core` sets the bits of the pages the area touches. -/
theorem bitAt_reserveBootmemCore
    (hra : InNode START END ra) (b : BootmemData) (hstart : b.nodeBootStart = START) (i : ℕ) :
    bitAt (reserveBootmemCore b ra.1 ra.2).nodeBootmemMap i = true ↔
      bitAt b.nodeBootmemMap i = true ∨ Intersects START ra i := by
  have hlow := toNat_shift_lt END
  have hpos : 0 < ra.2.toNat := lt_def.mp hra.nonempty
  have habove := hra.above
  have hbelow := hra.below
  have hend := BitVec.toNat_add_of_lt (x := ra.1) (y := ra.2) (by omega)
  have hsidx : ((ra.1 - START) / pageSize).toNat = (ra.1.toNat - START.toNat) / 4096 := by
    rw [BitVec.toNat_udiv, toNat_sub_of_le (le_def.mpr habove), toNat_pageSize]
  have heidx := toNat_round_up (ra.1 + ra.2) START (by omega) (by omega)
  rw [reserveBootmemCore]
  rw [bitAt_reserveLoop, hstart, hsidx, heidx, hend, Bool.or_eq_true, decide_eq_true_iff]
  apply or_congr_right
  constructor
  · rintro ⟨h1, h2⟩
    -- the later of the two first bytes is in both
    refine ⟨max ra.1.toNat (START.toNat + 4096 * i), ?_, ?_, ?_, ?_⟩ <;> omega
  · rintro ⟨byte, h1, h2, h3, h4⟩
    constructor <;> omega

/-- No check of `reserve_bootmem_core` fires on an area inside the node. -/
theorem bugs_reserveBootmemCore
    (hra : InNode START END ra) (b : BootmemData) (hlow : b.nodeLowPfn = END >>> pageShift) :
    (reserveBootmemCore b ra.1 ra.2).bugs = b.bugs := by
  have hlt := toNat_shift_lt END
  have hpos : 0 < ra.2.toNat := lt_def.mp hra.nonempty
  have hbelow := hra.below
  have hend := BitVec.toNat_add_of_lt (x := ra.1) (y := ra.2) (by omega)
  have hround := toNat_round_up (ra.1 + ra.2) 0 (Nat.zero_le _) (by omega)
  have hzero : (0 : BitVec 32).toNat = 0 := rfl
  rw [sub_zero, hend, hzero] at hround
  have hsize : ra.2 ≠ 0 := by
    intro h0
    rw [h0] at hpos
    exact absurd hpos (by decide)
  have hin : ¬ (ra.1 + ra.2 + pageSize - 1) / pageSize > b.nodeLowPfn := by
    rw [gt_iff_lt, lt_def, hround, hlow]
    omega
  rw [reserveBootmemCore]
  rw [if_neg hsize, if_neg hin, add_zero, add_zero]

/-- What the reservations leave in `bdata`. -/
theorem reserveAreas_spec (areas : List (BitVec 32 × BitVec 32))
    (hareas : ∀ ra ∈ areas, InNode START END ra) (b : BootmemData)
    (hstart : b.nodeBootStart = START) (hlow : b.nodeLowPfn = END >>> pageShift) :
    (reserveAreas b areas).nodeBootStart = START ∧
      (reserveAreas b areas).nodeLowPfn = END >>> pageShift ∧
      (reserveAreas b areas).bugs = b.bugs ∧
      ∀ i, bitAt (reserveAreas b areas).nodeBootmemMap i = true ↔
        bitAt b.nodeBootmemMap i = true ∨ ∃ ra ∈ areas, Intersects START ra i := by
  induction areas generalizing b with
  | nil => simpa [reserveAreas] using ⟨hstart, hlow⟩
  | cons ra areas ih =>
    have hra := hareas ra mem_cons_self
    obtain ⟨h1, h2, h3, h4⟩ := ih (fun r hr => hareas r (mem_cons_of_mem _ hr))
      (reserveBootmemCore b ra.1 ra.2) hstart hlow
    refine ⟨h1, h2, h3.trans (bugs_reserveBootmemCore hra b hlow), ?_⟩
    intro i
    show bitAt (reserveAreas (reserveBootmemCore b ra.1 ra.2) areas).nodeBootmemMap i = true ↔ _
    rw [h4, bitAt_reserveBootmemCore hra b hstart, exists_mem_cons_iff, or_assoc]

/-! ## The pages handed over -/

/-- The writes to a page before it is freed keep the zone's invariant. -/
theorem inv_clear_reserved {c : ZoneConfig} {s : Buddy.State} {out : List (ℕ × ℕ)}
    {L : ℕ → List ℕ} {held : List Blk} (h : Inv c ⟨s, out⟩ L held) (x : ℕ) :
    Inv c ⟨((clearPageReserved s x).setPageCount x 1).setPageCount x 0, out⟩ L held := by
  have hclear : Core (clearPageReserved s x) L held := by
    refine h.core.update_page x _ rfl ?_
    simp only [Page.clean_iff]
    rintro ⟨h1, h2, h3, h4⟩
    refine ⟨h1, h2, h3, fun i hi => ?_⟩
    rw [BitVec.getLsbD_and, h4 i hi, Bool.false_and]
  have hcount : Core (((clearPageReserved s x).setPageCount x 1).setPageCount x 0) L held := by
    refine (hclear.setPageCount_one x).update_page x _ rfl ?_
    simp only [Page.clean_iff]
    rintro ⟨h1, h2, _, h4⟩
    exact ⟨h1, h2, by decide, h4⟩
  exact ⟨hcount, h.offset, h.size, h.out, h.freePages⟩

/-- A page that is not reserved and has one reference is freed. -/
theorem freePages_one (h : HandOver) (x order : ℕ) (v : BitVec 32) :
    freePages { h with st := (clearPageReserved h.st x).setPageCount x 1, count := v } x order =
      { st := freePagesOk (((clearPageReserved h.st x).setPageCount x 1).setPageCount x 0) x order
        count := v
        freed := h.freed ++ [(x, order)] } := by
  have hflag : (((clearPageReserved h.st x).setPageCount x 1).page x).testBit pgReserved = false := by
    simp [clearPageReserved, State.setPageCount, Page.testBit, Page.word, pgReserved]
  have hcount : (((clearPageReserved h.st x).setPageCount x 1).page x).count - 1 = 0 := by
    simp [State.setPageCount]
  rw [freePages]
  simp only
  rw [hflag, if_neg (by decide), hcount, if_pos rfl]

/-- What holds after `i` rounds of `free_all_bootmem_core`, with the pages `out` not yet
freed: the zone's invariant, and the pages freed are those below `i` whose bit is clear. -/
structure Handed (c : ZoneConfig) (map : ByteMap) (i : ℕ) (h : HandOver) (out : List (ℕ × ℕ))
    (L : ℕ → List ℕ) (held : List Blk) : Prop where
  inv : Inv c ⟨h.st, out⟩ L held
  coalesced : Blk.Coalesced L maxOrder
  pages : Blk.total (Blk.filed L maxOrder) + Blk.total held = c.size
  nodup_out : out.Nodup
  mem_out : ∀ b, b ∈ out ↔
    b.2 = 0 ∧ ∃ j < c.size, b.1 = c.offset + j ∧ (bitAt map j = false → i ≤ j)
  nodup_freed : h.freed.Nodup
  mem_freed : ∀ b, b ∈ h.freed ↔ b.2 = 0 ∧ ∃ j < i, b.1 = c.offset + j ∧ bitAt map j = false
  listed : Blk.total (Blk.filed L maxOrder) = h.freed.length
  count : h.count = BitVec.ofNat 32 h.freed.length

namespace Handed

variable {c : ZoneConfig} {map : ByteMap} {i : ℕ} {h : HandOver} {out : List (ℕ × ℕ)}
  {L : ℕ → List ℕ} {held : List Blk}

/-- Nothing has been freed at the start. -/
theorem start (c : ZoneConfig) (map : ByteMap) :
    Handed c map 0 { st := c.boot.st, count := 0, freed := [] } c.boot.out (fun _ => [])
      ((range c.size).map (fun i => (i, 0))) where
  inv := inv_boot c
  coalesced := by
    intro k _ q hq
    cases hq.1
  pages := by simp [Blk.total, Function.comp_def]
  nodup_out := by
    apply List.Nodup.map _ nodup_range
    intro a b hab
    simpa using hab
  mem_out := by
    rintro ⟨x, k⟩
    simp only [ZoneConfig.boot, bootBlocks, List.mem_map, mem_range, Prod.mk.injEq]
    constructor
    · rintro ⟨j, hj, rfl, rfl⟩
      exact ⟨rfl, j, hj, rfl, fun _ => Nat.zero_le _⟩
    · rintro ⟨rfl, j, hj, rfl, _⟩
      exact ⟨j, hj, rfl, rfl⟩
  nodup_freed := nodup_nil
  mem_freed := by simp
  listed := by simp
  count := rfl

/-- A page whose bit is set is passed over. -/
theorem skip (hh : Handed c map i h out L held) (hbit : bitAt map i = true) :
    Handed c map (i + 1) h out L held where
  inv := hh.inv
  coalesced := hh.coalesced
  pages := hh.pages
  nodup_out := hh.nodup_out
  mem_out := by
    intro b
    rw [hh.mem_out]
    apply and_congr_right
    intro _
    constructor
    · rintro ⟨j, hj, hb, hle⟩
      refine ⟨j, hj, hb, fun hclear => ?_⟩
      have hne : j ≠ i := by
        rintro rfl
        rw [hbit] at hclear
        cases hclear
      have := hle hclear
      omega
    · rintro ⟨j, hj, hb, hle⟩
      exact ⟨j, hj, hb, fun hclear => by have := hle hclear; omega⟩
  nodup_freed := hh.nodup_freed
  mem_freed := by
    intro b
    rw [hh.mem_freed]
    apply and_congr_right
    intro _
    constructor
    · rintro ⟨j, hj, hb, hclear⟩
      exact ⟨j, by omega, hb, hclear⟩
    · rintro ⟨j, hj, hb, hclear⟩
      have hne : j ≠ i := by
        rintro rfl
        rw [hbit] at hclear
        cases hclear
      exact ⟨j, by omega, hb, hclear⟩
  listed := hh.listed
  count := hh.count

/-- A page whose bit is clear goes to the buddy allocator. -/
theorem release (hh : Handed c map i h out L held) (hi : i < c.size) (hbit : bitAt map i = false) :
    ∃ out' L' held', Handed c map (i + 1)
      (freePages { h with st := (clearPageReserved h.st (c.offset + i)).setPageCount (c.offset + i) 1
                          count := h.count + 1 } (c.offset + i) 0) out' L' held' := by
  have hmem : (c.offset + i, 0) ∈ out :=
    (hh.mem_out _).mpr ⟨rfl, i, hi, rfl, fun _ => le_refl _⟩
  have hready := inv_clear_reserved hh.inv (c.offset + i)
  obtain ⟨L', held', hinv, hfiled, hheld, hco⟩ := hready.free hmem
  rw [freePages_one]
  refine ⟨out.erase (c.offset + i, 0), L', held', ?_⟩
  have hpages := hh.pages
  have hlisted := hh.listed
  have hnew : (c.offset + i, 0) ∉ h.freed := by
    rw [hh.mem_freed]
    rintro ⟨_, j, hj, he, _⟩
    simp only at he
    omega
  exact
    { inv := hinv
      coalesced := hco hh.coalesced
      pages := by omega
      nodup_out := hh.nodup_out.erase _
      mem_out := by
        rintro ⟨x, k⟩
        rw [hh.nodup_out.mem_erase_iff, hh.mem_out, ne_eq, Prod.mk.injEq]
        constructor
        · rintro ⟨hne, rfl, j, hj, rfl, hle⟩
          refine ⟨rfl, j, hj, rfl, fun hclear => ?_⟩
          have h1 := hle hclear
          have h2 : j ≠ i := by
            rintro rfl
            exact hne ⟨rfl, rfl⟩
          omega
        · rintro ⟨rfl, j, hj, rfl, hle⟩
          refine ⟨?_, rfl, j, hj, rfl, fun hclear => by have := hle hclear; omega⟩
          rintro ⟨he, _⟩
          have hji : j = i := Nat.add_left_cancel he
          have := hle (hji ▸ hbit)
          omega
      nodup_freed := by
        rw [nodup_append]
        refine ⟨hh.nodup_freed, nodup_singleton _, ?_⟩
        intro a ha b hb
        rw [mem_singleton] at hb
        rintro rfl
        exact hnew (hb ▸ ha)
      mem_freed := by
        rintro ⟨x, k⟩
        simp only [mem_append, hh.mem_freed, mem_singleton, Prod.mk.injEq]
        constructor
        · rintro (⟨rfl, j, hj, rfl, hclear⟩ | ⟨rfl, rfl⟩)
          · exact ⟨rfl, j, by omega, rfl, hclear⟩
          · exact ⟨rfl, i, by omega, rfl, hbit⟩
        · rintro ⟨rfl, j, hj, rfl, hclear⟩
          rcases Nat.lt_succ_iff_lt_or_eq.mp hj with hj | rfl
          · exact Or.inl ⟨rfl, j, hj, rfl, hclear⟩
          · exact Or.inr ⟨rfl, rfl⟩
      listed := by
        rw [length_append, length_singleton]
        omega
      count := by
        rw [hh.count, length_append, length_singleton, BitVec.ofNat_add]
        rfl }

/-- The loop of `free_all_bootmem_core`, by induction on the pages left. -/
theorem freeAllLoop (n : ℕ) (hh : Handed c map i h out L held) (hn : i + n ≤ c.size) :
    ∃ out' L' held', Handed c map (i + n) (freeAllLoop map n i h) out' L' held' := by
  induction n generalizing i h out L held with
  | zero => exact ⟨out, L, held, hh⟩
  | succ n ih =>
    have hoff : h.st.offset = c.offset := hh.inv.offset
    rw [Bootmem.freeAllLoop, testBit_wordsOf, hoff, show i + (n + 1) = i + 1 + n by omega]
    cases hbit : bitAt map i with
    | true => exact ih (hh.skip hbit) (by omega)
    | false =>
      obtain ⟨out', L', held', hh'⟩ := hh.release (by omega) hbit
      exact ih hh' (by omega)

/-- Once the whole node has been passed, the free pages are the pages freed. -/
theorem freePage_iff (hh : Handed c map c.size h out L held) {pages : ℕ → List ℕ}
    (hp : FreeLists h.st pages) : FreePage pages = fun x => (x, 0) ∈ h.freed := by
  funext x
  rw [eq_iff_iff, hh.inv.freePage_iff_not_held hh.pages hp, hh.mem_freed]
  have hheld : HeldPage ⟨h.st, out⟩ x ↔ ∃ j < c.size, x = c.offset + j ∧ bitAt map j = true := by
    constructor
    · rintro ⟨⟨y, k⟩, hb, h1, h2⟩
      obtain ⟨hk, j, hj, hy, hle⟩ := (hh.mem_out _).mp hb
      simp only at hk hy h1 h2
      subst hk hy
      refine ⟨j, hj, by omega, ?_⟩
      rw [← Bool.not_eq_false]
      intro hclear
      have := hle hclear
      omega
    · rintro ⟨j, hj, rfl, hset⟩
      refine ⟨(c.offset + j, 0), (hh.mem_out _).mpr ⟨rfl, j, hj, rfl, ?_⟩, le_refl _, by simp⟩
      intro hclear
      rw [hset] at hclear
      cases hclear
  rw [hheld]
  constructor
  · rintro ⟨⟨h1, h2⟩, hno⟩
    refine ⟨rfl, x - c.offset, by omega, by omega, ?_⟩
    rw [← Bool.not_eq_true]
    exact fun hset => hno ⟨x - c.offset, by omega, by omega, hset⟩
  · rintro ⟨_, j, hj, hx, hclear⟩
    refine ⟨by omega, ?_⟩
    rintro ⟨j', _, hx', hset⟩
    have hjj : j = j' := by omega
    rw [hjj, hset] at hclear
    cases hclear

end Handed

/-- What `free_all_bootmem_core` has done with the pages of a zone when the areas `areas` of
its node are reserved. -/
structure HandedOver (c : ZoneConfig) (START : BitVec 32) (areas : List (BitVec 32 × BitVec 32))
    (h : HandOver) : Prop where
  /-- no page is freed twice -/
  once : h.freed.Nodup
  /-- the pages freed, all with order 0, are those that no reserved area touches -/
  exact_pages : ∀ x order, (x, order) ∈ h.freed ↔ order = 0 ∧ ∃ i < c.size, x = c.offset + i ∧
    ∀ ra ∈ areas, ¬ Intersects START ra i
  /-- their number is returned -/
  returned : h.count.toNat = h.freed.length
  /-- and is the zone's counter -/
  freePages : h.st.freePages = h.count
  /-- the free lists hold the maximal blocks of these pages, each once -/
  lists : ∃ pages, FreeLists h.st pages ∧ ∀ k < maxOrder, (pages k).Nodup ∧
    ∀ y, y ∈ pages k ↔ MaximalBlock c.offset (fun x => (x, 0) ∈ h.freed) k y
  /-- no check has failed -/
  noBug : h.st.bugs = 0

/-- **Boot memory hand-over.**  Whatever areas inside the node are reserved,
`free_all_bootmem_core` frees exactly the pages that none of them touches. -/
theorem hand_over (c : ZoneConfig) (START END : BitVec 32)
    (hsize : (END >>> pageShift).toNat = (START >>> pageShift).toNat + c.size)
    (areas : List (BitVec 32 × BitVec 32)) (hareas : ∀ ra ∈ areas, InNode START END ra) :
    (reserveAreas (memInit START END) areas).bugs = 0 ∧
      HandedOver c START areas
        (freeAllBootmemCore (reserveAreas (memInit START END) areas) c.boot.st) := by
  obtain ⟨hstart, hlow, hbugs, hbits⟩ := reserveAreas_spec areas hareas (memInit START END) rfl rfl
  refine ⟨hbugs, ?_⟩
  generalize reserveAreas (memInit START END) areas = b at *
  have hidx : (b.nodeLowPfn - (b.nodeBootStart >>> pageShift)).toNat = c.size := by
    rw [hstart, hlow, toNat_sub_of_le (le_def.mpr (by omega)), hsize,
      Nat.add_sub_cancel_left]
  have hclear : ∀ i, bitAt b.nodeBootmemMap i = false ↔ ∀ ra ∈ areas, ¬ Intersects START ra i := by
    intro i
    have hzero : bitAt (memInit START END).nodeBootmemMap i = false := by simp [memInit, bitAt]
    rw [← Bool.not_eq_true, hbits, hzero]
    simp
  rw [freeAllBootmemCore, hidx]
  obtain ⟨out, L, held, hh⟩ := (Handed.start c b.nodeBootmemMap).freeAllLoop c.size (by omega)
  rw [Nat.zero_add] at hh
  generalize freeAllLoop b.nodeBootmemMap c.size 0 _ = h at *
  have hlt := hh.inv.core.total_lt
  rw [hh.listed] at hlt
  have hcount : h.count.toNat = h.freed.length := by
    rw [hh.count, BitVec.toNat_ofNat, Nat.mod_eq_of_lt hlt]
  have hp : FreeLists h.st (pagesOf c.offset L) := hh.inv.zoneInvariant.lists
  refine ⟨hh.nodup_freed, ?_, hcount, ?_, ⟨_, hp, ?_⟩, hh.inv.core.bugs⟩
  · intro x order
    rw [hh.mem_freed]
    simp only [hclear]
  · apply BitVec.eq_of_toNat_eq
    rw [hcount, ← hh.listed]
    exact hh.inv.freePages
  · intro k hk
    refine ⟨hh.inv.nodup_pages hp hk, fun y => ?_⟩
    rw [hh.inv.mem_pages_iff hh.coalesced hp hk, hh.freePage_iff hp]

/-- A node of eight pages with two overlapping areas, one of them of a single byte. -/
theorem hand_over_eight_pages :
    let c : ZoneConfig := ⟨1, 0, 8, 0x30008, fun _ => 0, by decide, by decide⟩
    let areas : List (BitVec 32 × BitVec 32) := [(0x30001fff, 1), (0x30001800, 0x1000)]
    (∀ ra ∈ areas, InNode 0x30000000 0x30008000 ra) ∧
      HandedOver c 0x30000000 areas
        (freeAllBootmemCore (reserveAreas (memInit 0x30000000 0x30008000) areas) c.boot.st) := by
  intro c areas
  have hareas : ∀ ra ∈ areas, InNode 0x30000000 0x30008000 ra := by
    intro ra hra
    simp only [areas, mem_cons, not_mem_nil, or_false] at hra
    rcases hra with rfl | rfl
    · exact ⟨by decide, by decide, by decide⟩
    · exact ⟨by decide, by decide, by decide⟩
  exact ⟨hareas, (hand_over c 0x30000000 0x30008000 (by decide) areas hareas).2⟩

end Bootmem

end Yap
