/-
# Page allocation and exhaustion (`alloc_pages` in `mm/page_alloc.c`, `memset` in `lib/lib.c`)

`alloc_pages` clears the block that `__alloc_pages` returns before anybody has looked whether there
is one.  `page_address` of the null pointer is an address like any other.

* `allocPages_reports_iff`: when `alloc_pages` and `__get_free_pages` give a cleared block, or
  nothing without an effect.
-/
import Yap.BuddyInvariant

namespace Yap

namespace Buddy

open List BitVec

/-- A zone, and the watermark that `__alloc_pages` reads. -/
structure Zone where
  st : State
  pagesLow : BitVec 32

abbrev Mem := BitVec 32 → BitVec 8

/-- `__alloc_pages(zonelist, order)`: the page, and the zones afterwards.  `memory_pressure` is
counted and never read. -/
def allocPagesLoop (order : ℕ) : List Zone → Option ℕ × List Zone
  | [] => (none, [])
  | z :: zones =>
    let st := z.st.bugIf (z.st.size = 0)
    let r := if z.pagesLow ≤ st.freePages then rmqueue st order else (none, st)
    let z := { z with st := r.2 }
    match r.1 with
    | some page => (some page, z :: zones)
    | none => ((allocPagesLoop order zones).1, z :: (allocPagesLoop order zones).2)

/-- `memset(src, 0, len)`. -/
def memset (mem : Mem) (src : BitVec 32) (len : ℕ) : Mem :=
  if src = 0 then mem else fun a => if (a - src).toNat < len then 0 else mem a

/-- `page_address(page)`, of the page at the index `page - mem_map`. -/
def pageAddress (index : BitVec 32) : BitVec 32 := (index + 0x30000) <<< 12

section

-- `NULL - mem_map`
variable (null : BitVec 32) (order : ℕ)

/-- `alloc_pages(gfp_mask, order)`, with the zones of the list for `gfp_mask`. -/
def allocPages (zones : List Zone) (mem : Mem) : Option ℕ × List Zone × Mem :=
  let r := allocPagesLoop order zones
  let p := pageAddress (r.1.elim null (BitVec.ofNat 32))
  (r.1, r.2, memset mem p (2 ^ order * 4096))

/-- `__get_free_pages(gfp_mask, order)`. -/
def getFreePages (zones : List Zone) (mem : Mem) : BitVec 32 × List Zone × Mem :=
  let r := allocPages null order zones mem
  match r.1 with
  | none => (0, r.2)
  | some page =>
    let p := pageAddress (BitVec.ofNat 32 page)
    (p, r.2.1, memset r.2.2 p (2 ^ order * 4096))

/-- A block at `p` is clear and nothing else is written; or there is none, and nothing changes. -/
def Reports (zones : List Zone) (mem : Mem) (p : BitVec 32) (r : List Zone × Mem) : Prop :=
  if p = 0 then r = (zones, mem)
  else ∀ a, r.2 a = if (a - p).toNat < 2 ^ order * 4096 then 0 else mem a

/-- What `memset` would clear at the address of the null pointer is clear. -/
def NullClear (mem : Mem) : Prop :=
  pageAddress null = 0 ∨ ∀ a, (a - pageAddress null).toNat < 2 ^ order * 4096 → mem a = 0

/-- A zone above its watermark has a block that is large enough. -/
def Served (zones : List Zone) : Prop :=
  ∃ z ∈ zones, z.pagesLow ≤ z.st.freePages ∧
    ∃ k, order ≤ k ∧ k < maxOrder ∧ z.st.links.next (.freeList k) ≠ .freeList k

/-- The invariant of a zone in the list, whose pages have addresses. -/
def Zone.Ok (z : Zone) : Prop :=
  (∃ L held, Core z.st L held) ∧ 0 < z.st.size ∧ z.st.offset + z.st.size ≤ 0xD0000

end

section

variable {null : BitVec 32} {order : ℕ} {zones : List Zone} {mem : Mem}

theorem pageAddress_ne_zero {x : ℕ} (hx : x < 0xD0000) : pageAddress (BitVec.ofNat 32 x) ≠ 0 := by
  intro h
  have hnat := congrArg BitVec.toNat h
  have hoff : (0x30000 : BitVec 32).toNat = 0x30000 := rfl
  have hzero : (0 : BitVec 32).toNat = 0 := rfl
  rw [pageAddress, toNat_shiftLeft, toNat_add, toNat_ofNat, hoff, hzero,
    Nat.shiftLeft_eq] at hnat
  omega

/-- The zones are asked one after the other; one that has nothing stays as it is. -/
theorem allocPagesLoop_spec (hord : order < maxOrder) (hok : ∀ z ∈ zones, z.Ok) :
    ¬ Served order zones ∧ allocPagesLoop order zones = (none, zones) ∨
      Served order zones ∧ ∃ x < 0xD0000, (allocPagesLoop order zones).1 = some x := by
  induction zones with
  | nil =>
    refine Or.inl ⟨?_, rfl⟩
    rintro ⟨z, hz, -⟩
    cases hz
  | cons z zones ih =>
    obtain ⟨⟨L, held, hcore⟩, hsize, hend⟩ := hok z (by simp)
    have ih := ih fun z hz => hok z (by simp [hz])
    have hbug : z.st.bugIf (z.st.size = 0) = z.st := if_neg (by simp; omega)
    have hempty : ∀ k, L k = [] ↔ z.st.links.next (.freeList k) = .freeList k := fun k => by
      rw [(hcore.rings.ring k).next_head_eq_iff, State.nodes, map_eq_nil_iff]
    have hserved : Served order (z :: zones) ↔ z.pagesLow ≤ z.st.freePages ∧
        (∃ k, order ≤ k ∧ k < maxOrder ∧ L k ≠ []) ∨ Served order zones := by
      simp only [Served, mem_cons, exists_eq_or_imp, ne_eq, hempty]
    by_cases hz : z.pagesLow ≤ z.st.freePages ∧ ∃ k, order ≤ k ∧ k < maxOrder ∧ L k ≠ []
    · obtain ⟨hlow, k, h1, h2, h3⟩ := hz
      rcases rmqueue_spec hcore hord with ⟨hall, -⟩ | ⟨hsome, L', q, hcore', hpage, hframe, -⟩
      · exact absurd (hall k h1 h2) h3
      · refine Or.inr ⟨hserved.mpr (Or.inl ⟨hlow, hsome⟩), z.st.first (q, order), ?_, ?_⟩
        · have hin := (hcore'.inside (q, order) (by simp)).2
          have hlt := Blk.lo_lt_hi (q, order)
          have hsame : (rmqueue z.st order).2.size = z.st.size := hframe.size
          show z.st.offset + Blk.lo (q, order) < 0xD0000
          omega
        · simp only [allocPagesLoop, hbug, if_pos hlow, hpage]
    · -- the zone stays as it is, and the rest of the list decides
      have heq : allocPagesLoop order (z :: zones) =
          ((allocPagesLoop order zones).1, z :: (allocPagesLoop order zones).2) := by
        by_cases hlow : z.pagesLow ≤ z.st.freePages
        · rcases rmqueue_spec hcore hord with ⟨-, hnone⟩ | ⟨hsome, -⟩
          · simp only [allocPagesLoop, hbug, if_pos hlow, hnone]
          · exact absurd ⟨hlow, hsome⟩ hz
        · simp only [allocPagesLoop, hbug, if_neg hlow]
      rw [heq, hserved, or_iff_right hz]
      exact ih.imp (fun h => ⟨h.1, by rw [h.2]⟩) id

theorem memset_eq_self_iff : memset mem (pageAddress null) (2 ^ order * 4096) = mem ↔
    NullClear null order mem := by
  unfold memset NullClear
  split_ifs with hp
  · exact iff_of_true rfl (Or.inl hp)
  · rw [or_iff_right hp, funext_iff]
    refine forall_congr' fun a => ?_
    split_ifs with ha
    · exact ⟨fun h _ => h.symm, fun h => (h ha).symm⟩
    · exact iff_of_true rfl fun h => absurd h ha

/-- **Exhaustion.**  For every list of zones, order and memory, `alloc_pages` gives a cleared block
and writes nowhere else, or `NULL` without an effect, if and only if a zone above its watermark has
a block, or what stands at the address of the null pointer is clear already; and so does
`__get_free_pages`. -/
theorem allocPages_reports_iff (null : BitVec 32) (mem : Mem) (hord : order < maxOrder)
    (hok : ∀ z ∈ zones, z.Ok) :
    (Reports order zones mem
        ((allocPages null order zones mem).1.elim 0 fun x => pageAddress (BitVec.ofNat 32 x))
        (allocPages null order zones mem).2 ↔ Served order zones ∨ NullClear null order mem) ∧
      (Reports order zones mem (getFreePages null order zones mem).1
        (getFreePages null order zones mem).2 ↔ Served order zones ∨ NullClear null order mem) := by
  unfold getFreePages allocPages
  rcases allocPagesLoop_spec hord hok with ⟨hnot, heq⟩ | ⟨hserved, x, hx, heq⟩
  · rw [or_iff_right hnot, ← memset_eq_self_iff, heq]
    simp only [Option.elim, Reports, if_true, Prod.mk.injEq, true_and]
  · have hne := pageAddress_ne_zero hx
    simp only [heq, Option.elim, Reports, if_neg hne, memset]
    refine ⟨iff_of_true (fun _ => trivial) (Or.inl hserved),
      iff_of_true (fun a => ?_) (Or.inl hserved)⟩
    split_ifs <;> rfl

end

/-- A zone of two pages that are both taken, below a watermark of one. -/
def takenZone : Zone :=
  ⟨(ZoneConfig.boot ⟨1, 5, 2, 7, fun _ => 0, by decide, by decide⟩).st, 1⟩

theorem allocPages_reports_iff_taken : Reports 3 [takenZone] (fun _ => 0)
    (getFreePages 7 3 [takenZone] fun _ => 0).1 (getFreePages 7 3 [takenZone] fun _ => 0).2 := by
  refine (allocPages_reports_iff 7 (fun _ => 0) (by decide) fun z hz => ?_).2.mpr
    (Or.inr (Or.inr fun _ _ => rfl))
  rw [mem_singleton.mp hz]
  exact ⟨⟨_, _, (inv_boot _).core⟩, by decide, by decide⟩

/-- **Memory is cleared that nobody asked for**, when there is no page. -/
theorem null_block_cleared : (allocPages 7 3 [takenZone] fun _ => 1).1 = none ∧
    (allocPages 7 3 [takenZone] fun _ => 1).2.2 (pageAddress 7) = 0 := by
  decide +kernel

end Buddy

end Yap
