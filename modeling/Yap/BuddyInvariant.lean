/-
# The buddy invariant (`mm/page_alloc.c`)

The bitmap of order `k` has one bit per pair of buddies.  It means something only
under an invariant that ties it to the free list: the bit is the exclusive or of
"the left buddy is listed" and "the right buddy is listed".  `Core` states that
invariant for a zone whose lists hold the blocks `L` while the blocks `held` are
in somebody's hands, and there are four ways to keep it:

* `Core.take` — a listed block goes into the hand (list removal, bit flip);
* `Core.put` — a held block goes on its list (list insertion, bit flip);
* `Core.split`, `Core.merge` — a held block becomes its two halves, or back.

`expand` is a run of split-and-put, the loop of `__free_pages_ok` is a run of
take-and-merge, and the invariant follows for every run of the clients.
-/
import Yap.Buddy
import Yap.Blocks
import Yap.Masks

namespace Yap

namespace Buddy

open Blk List BitVec Function

/-! ## Index arithmetic -/

/-- The loop condition `mask + (1 << (MAX_ORDER - 1))` fails at the top order only. -/
theorem maskOf_add_top (k : ℕ) (hk : k < maxOrder) :
    maskOf k + (1 <<< (maxOrder - 1)) = 0 ↔ k = maxOrder - 1 := by
  unfold maxOrder at *
  interval_cases k <;> decide

variable {x index : BitVec 32} {q k low high order : ℕ} {s : State} {held : List Blk}
  {c : ZoneConfig}

/-- `page_idx ^ -mask` is the index of the buddy. -/
theorem toNat_xor_buddy (hk : k < 32) (hx : x.toNat = q * 2 ^ k) :
    (x ^^^ -maskOf k).toNat = (q ^^^ 1) * 2 ^ k := by
  rw [neg_maskOf k hk, toNat_xor, hx, toNat_ofNat,
    Nat.mod_eq_of_lt (Nat.pow_lt_pow_right (by decide) hk), ← Nat.shiftLeft_eq,
    ← Nat.shiftLeft_eq, Nat.shiftLeft_xor_distrib, Nat.one_shiftLeft]

/-- Block `q` and its buddy are the two halves of block `q / 2`. -/
theorem buddy_cases (q : ℕ) :
    (q = 2 * (q / 2) ∧ q ^^^ 1 = 2 * (q / 2) + 1) ∨
      (q = 2 * (q / 2) + 1 ∧ q ^^^ 1 = 2 * (q / 2)) := by
  rcases Nat.even_or_odd q with h | h
  · have h1 := Nat.xor_one_of_even h
    obtain ⟨r, rfl⟩ := h
    left; omega
  · have h1 := Nat.xor_one_of_odd h
    obtain ⟨r, rfl⟩ := h
    right; omega

/-- `index >> (1 + order)` of a block's first page is the number of its pair. -/
theorem toNat_pair_index (hx : x.toNat = q * 2 ^ k) :
    (x >>> (1 + k)).toNat = q / 2 := by
  rw [toNat_ushiftRight, hx, Nat.shiftRight_eq_div_pow, pow_add, pow_one, Nat.mul_comm 2,
    ← Nat.div_div_eq_div_mul, Nat.mul_div_cancel _ (Nat.two_pow_pos k)]

/-! ## The invariant -/

/-- A page on which none of the `BUG()` tests of `__free_pages_ok` fires. -/
def Page.Clean (p : Page) : Prop :=
  p.buffers = 0 ∧ p.mapping = 0 ∧
    ∀ nr ∈ [pgSwapCache, pgLocked, pgDecrAfter, pgActive, pgInactiveDirty, pgInactiveClean],
      p.testBit nr = false

/-- The bits behind the checks: `PG_locked` is bit 30 of the word before `flags`. -/
theorem Page.clean_iff (p : Page) : p.Clean ↔ p.buffers = 0 ∧ p.mapping = 0 ∧
    p.count.getLsbD 30 = false ∧ ∀ i ∈ [3, 4, 5, 7, 9], p.flags.getLsbD i = false := by
  simp only [Page.Clean, Page.testBit, Page.word, pgSwapCache, pgLocked, pgDecrAfter, pgActive,
    pgInactiveDirty, pgInactiveClean, forall_mem_cons, not_mem_nil, false_implies,
    implies_true, and_true]
  norm_num
  tauto

/-- The `mem_map` index of the first page of a block of the zone. -/
def State.first (s : State) (b : Blk) : ℕ := s.offset + lo b

/-- The nodes of the free list of order `k` when the blocks `L k` are on it. -/
def State.nodes (s : State) (L : ℕ → List ℕ) (k : ℕ) : List Node :=
  (L k).map (fun q => .page (s.first (q, k)))

/-- The zone invariant, with the blocks `L k` on the list of order `k` and the
blocks `held` in somebody's hands. -/
structure Core (s : State) (L : ℕ → List ℕ) (held : List Blk) : Prop where
  fits : s.offset + s.size ≤ s.maxMapnr
  wide : s.maxMapnr < 2 ^ 32
  rings : s.links.Rings Node.freeList (s.nodes L)
  top : ∀ k, maxOrder ≤ k → L k = []
  inside : ∀ b ∈ filed L maxOrder ++ held, b.2 < maxOrder ∧ hi b ≤ s.size
  apart : (filed L maxOrder ++ held).Pairwise Apart
  bits : ∀ k < maxOrder - 1, ∀ p,
    bitAt (s.map k) p = (decide (2 * p ∈ L k) ^^ decide (2 * p + 1 ∈ L k))
  pages : ∀ i, s.offset ≤ i → i < s.offset + s.size → (s.page i).Clean ∧ (s.page i).zone = s.zone
  bugs : s.bugs = 0

namespace Core

variable {s : State} {L : ℕ → List ℕ} {held : List Blk}

/-- The invariant does not look at the free-page counter, and of the pages only at
what the `BUG()` tests read. -/
theorem of_same {s' : State} (h : Core s L held) (hz : s'.zone = s.zone)
    (ho : s'.offset = s.offset) (hs : s'.size = s.size) (hm : s'.maxMapnr = s.maxMapnr)
    (hmap : s'.map = s.map) (hl : s'.links = s.links) (hb : s'.bugs = s.bugs)
    (hp : ∀ i, (s.page i).Clean → (s'.page i).Clean)
    (hpz : ∀ i, (s'.page i).zone = (s.page i).zone) : Core s' L held where
  fits := by rw [ho, hs, hm]; exact h.fits
  wide := by rw [hm]; exact h.wide
  rings := by
    have hn : s'.nodes L = s.nodes L := by
      funext k
      simp only [State.nodes, State.first, ho]
    rw [hl, hn]
    exact h.rings
  top := h.top
  inside := by rw [hs]; exact h.inside
  apart := h.apart
  bits := by rw [hmap]; exact h.bits
  pages := by
    intro i h1 h2
    rw [ho] at h1 h2
    rw [hs] at h2
    obtain ⟨hc, hzz⟩ := h.pages i h1 h2
    exact ⟨hp i hc, by rw [hpz, hz, hzz]⟩
  bugs := by rw [hb]; exact h.bugs

/-- No page of the zone is out of range. -/
theorem badRange_eq_false (h : Core s L held) {i : ℕ} (h1 : s.offset ≤ i)
    (h2 : i < s.offset + s.size) : s.badRange i = false := by
  simp [State.badRange, (h.pages i h1 h2).2]
  omega

variable {b : Blk} {k q : ℕ}

section

variable (h : Core s L held)

include h

/-- The first page of a listed or held block is in range. -/
theorem badRange_first (hb : b ∈ filed L maxOrder ++ held) :
    s.badRange (s.first b) = false := by
  have h1 := (h.inside b hb).2
  have h2 := lo_lt_hi b
  exact h.badRange_eq_false (by simp [State.first]) (by simp only [State.first]; omega)

/-- A held block is on no list. -/
theorem held_not_listed (hb : b ∈ held) (k : ℕ) :
    Node.page (s.first b) ∉ Node.freeList k :: s.nodes L k := by
  intro hm
  rcases mem_cons.mp hm with hm | hm
  · cases hm
  · obtain ⟨q, hq, he⟩ := List.mem_map.mp hm
    have hk : k < maxOrder := by
      by_contra hk
      rw [h.top k (not_lt.mp hk)] at hq
      cases hq
    have hlo : lo (q, k) = lo b := by
      simp only [State.first, Node.page.injEq] at he
      omega
    have hap := (pairwise_append.mp h.apart).2.2 (q, k) (mem_filed.mpr ⟨hk, hq⟩) b hb
    exact not_apart_of_lo_eq hlo hap

omit h in
theorem not_mem (h : Core s L ((q, k) :: held)) : q ∉ L k := by
  intro hq
  have hk : k < maxOrder := (h.inside (q, k) (by simp)).1
  have := (pairwise_append.mp h.apart).2.2 (q, k) (mem_filed.mpr ⟨hk, hq⟩) (q, k) (by simp)
  exact not_apart_of_lo_eq rfl this

omit h in
/-- With a block in the hand, the bit of its pair says whether its buddy is listed. -/
theorem buddy_mem (h : Core s L ((q, k) :: held)) (hk : k < maxOrder - 1)
    (hbit : bitAt (s.map k) (q / 2) = true) : q ^^^ 1 ∈ L k := by
  have hb := h.bits k hk (q / 2)
  rw [hbit] at hb
  have hq := h.not_mem
  rcases buddy_cases q with ⟨h1, h2⟩ | ⟨h1, h2⟩
  · rw [← h2, ← h1] at hb
    simpa [hq] using hb
  · rw [← h1, ← h2] at hb
    simpa [hq] using hb

omit h in
/-- With a block in the hand and its buddy listed, the bit of their pair is set. -/
theorem bit_eq_of_buddy_mem (h : Core s L ((q, k) :: held)) (hk : k < maxOrder - 1)
    (hmem : q ^^^ 1 ∈ L k) : bitAt (s.map k) (q / 2) = true := by
  have hq := h.not_mem
  rw [h.bits k hk (q / 2)]
  rcases buddy_cases q with ⟨h1, h2⟩ | ⟨h1, h2⟩
  · rw [← h2, ← h1]
    simp [hq, hmem]
  · rw [← h1, ← h2]
    simp [hq, hmem]

/-- No block is on its list twice. -/
theorem nodup (k : ℕ) : (L k).Nodup := by
  have := (nodup_cons.mp (h.rings.ring k).2).2
  exact List.Nodup.of_map _ this

theorem perm_held {held' : List Blk} (hp : held.Perm held') :
    Core s L held' where
  fits := h.fits
  wide := h.wide
  rings := h.rings
  top := h.top
  inside := fun b hb => h.inside b ((hp.append_left _).mem_iff.mpr hb)
  apart := (List.Perm.pairwise_iff (fun {_ _} hab => hab.symm) (hp.append_left _)).mp h.apart
  bits := h.bits
  pages := h.pages
  bugs := h.bugs

/-! ### The four moves -/

omit h in
theorem nodes_update (s : State) (L : ℕ → List ℕ) (k : ℕ) (qs : List ℕ) :
    s.nodes (update L k qs) =
      update (s.nodes L) k (qs.map (fun q => .page (s.first (q, k)))) := by
  funext j
  by_cases hj : j = k
  · subst hj
    simp [State.nodes]
  · simp [State.nodes, update_of_ne hj]

omit h in
/-- Listing block `q` flips the exclusive or of its pair and of no other. -/
theorem pair_bit_insert {qs : List ℕ} (hq : q ∉ qs) (p : ℕ) :
    (decide (2 * p ∈ q :: qs) ^^ decide (2 * p + 1 ∈ q :: qs)) =
      ((decide (2 * p ∈ qs) ^^ decide (2 * p + 1 ∈ qs)) ^^ decide (p = q / 2)) := by
  by_cases h : p = q / 2
  · rw [decide_eq_true h]
    have hq2 : q = 2 * p ∨ q = 2 * p + 1 := by omega
    rcases hq2 with rfl | rfl <;> simp [hq]
  · have h1 : 2 * p ≠ q := by omega
    have h2 : 2 * p + 1 ≠ q := by omega
    simp [h, h1, h2]

/-- A listed block goes into the hand: list removal and, below the top order, one
bit flip. -/
theorem take {as bs : List ℕ} (hk : k < maxOrder) (hL : L k = as ++ q :: bs)
    {m : ℕ → ByteMap} (hmo : ∀ j, j ≠ k → m j = s.map j)
    (hmk : k < maxOrder - 1 → m k = changeBit (q / 2) (s.map k)) :
    Core { s with links := listRemove s.links (.page (s.first (q, k))), map := m }
      (update L k (as ++ bs)) ((q, k) :: held) where
  fits := h.fits
  wide := h.wide
  rings := by
    show Links.Rings _ _ (s.nodes _)
    rw [nodes_update, listRemove_eq_remove, map_append]
    exact h.rings.remove k (by simp [State.nodes, hL])
  top := by
    intro j hj
    rw [update_of_ne (by omega)]
    exact h.top j hj
  inside := by
    intro b hb
    refine h.inside b ?_
    have hp := (filed_remove hk hL).append_right held
    exact hp.mem_iff.mpr (perm_middle.mem_iff.mp hb)
  apart := by
    have hp := ((filed_remove hk hL).append_right held).trans perm_middle.symm
    exact (List.Perm.pairwise_iff (fun {_ _} hab => hab.symm) hp).mp h.apart
  bits := by
    intro j hj p
    by_cases hjk : j = k
    · subst hjk
      have hnd := h.nodup j
      rw [hL, nodup_middle, nodup_cons] at hnd
      have hbit := pair_bit_insert hnd.1 p
      have hold := h.bits j hj p
      have hmem : ∀ x, x ∈ L j ↔ x ∈ q :: (as ++ bs) := by
        intro x
        rw [hL]
        exact perm_middle.mem_iff
      show bitAt (m j) p = _
      simp only [hmem] at hold
      rw [hmk hj, bitAt_changeBit, hold, hbit, update_self, Bool.xor_assoc, Bool.xor_self,
        Bool.xor_false]
    · show bitAt (m j) p = _
      rw [update_of_ne hjk, hmo j hjk]
      exact h.bits j hj p
  pages := h.pages
  bugs := h.bugs

omit h in
/-- A held block goes on its list: list insertion and, below the top order, one
bit flip. -/
theorem put (h : Core s L ((q, k) :: held)) {m : ℕ → ByteMap} (hmo : ∀ j, j ≠ k → m j = s.map j)
    (hmk : k < maxOrder - 1 → m k = changeBit (q / 2) (s.map k)) :
    Core { s with links := listAdd s.links (.page (s.first (q, k))) (.freeList k), map := m }
      (update L k (q :: L k)) held := by
  have hk : k < maxOrder := (h.inside (q, k) (by simp)).1
  have hp := ((filed_insert L hk q).append_right held).trans perm_middle.symm
  have hq : q ∉ L k := h.not_mem
  refine
    { fits := h.fits, wide := h.wide, rings := ?_, top := ?_, inside := ?_, apart := ?_,
      bits := ?_, pages := h.pages, bugs := h.bugs }
  · show Links.Rings _ _ (s.nodes _)
    rw [nodes_update, listAdd_eq_link, map_cons]
    exact h.rings.link_head k (h.held_not_listed (by simp))
  · intro j hj
    rw [update_of_ne (by omega)]
    exact h.top j hj
  · intro b hb
    exact h.inside b (hp.mem_iff.mp hb)
  · exact (List.Perm.pairwise_iff (fun {_ _} hab => hab.symm) hp).mpr h.apart
  · intro j hj p
    show bitAt (m j) p = _
    by_cases hjk : j = k
    · subst hjk
      rw [hmk hj, bitAt_changeBit, h.bits j hj p, update_self, pair_bit_insert hq]
    · rw [update_of_ne hjk, hmo j hjk]
      exact h.bits j hj p

omit h in
/-- A held block becomes its two halves. -/
theorem split (h : Core s L ((q, k + 1) :: held)) :
    Core s L ((2 * q, k) :: (2 * q + 1, k) :: held) := by
  have hin := h.inside (q, k + 1) (by simp)
  have hap := h.apart
  rw [pairwise_middle Apart.symm, pairwise_cons] at hap
  refine { h with inside := ?_, apart := ?_ }
  · intro b hb
    simp only [mem_append, mem_cons] at hb
    have h1 := hi_left q k
    have h2 := hi_right q k
    have h3 := lo_lt_hi (2 * q + 1, k)
    rcases hb with hb | rfl | rfl | hb
    · exact h.inside b (by simp [hb])
    · exact ⟨by omega, by omega⟩
    · exact ⟨by omega, by omega⟩
    · exact h.inside b (by simp [hb])
  · rw [pairwise_middle Apart.symm, pairwise_cons, pairwise_middle Apart.symm, pairwise_cons]
    refine ⟨fun c hc => ?_, fun c hc => (hap.1 c hc).halves.2, hap.2⟩
    rcases mem_cons.mp (perm_middle.mem_iff.mp hc) with rfl | hc
    · exact apart_halves q k
    · exact (hap.1 c hc).halves.1

omit h in
/-- Two held buddies become the block they are the halves of. -/
theorem merge (hk : k + 1 < maxOrder)
    (h : Core s L ((2 * q, k) :: (2 * q + 1, k) :: held)) : Core s L ((q, k + 1) :: held) := by
  have hin := h.inside (2 * q + 1, k) (by simp)
  have hap := h.apart
  rw [pairwise_middle Apart.symm, pairwise_cons, pairwise_middle Apart.symm, pairwise_cons] at hap
  refine { h with inside := ?_, apart := ?_ }
  · intro b hb
    simp only [mem_append, mem_cons] at hb
    have h1 := hi_right q k
    rcases hb with hb | rfl | hb
    · exact h.inside b (by simp [hb])
    · exact ⟨hk, by omega⟩
    · exact h.inside b (by simp [hb])
  · rw [pairwise_middle Apart.symm, pairwise_cons]
    refine ⟨fun c hc => (hap.1 c ?_).whole (hap.2.1 c hc), hap.2.2⟩
    exact perm_middle.mem_iff.mpr (mem_cons_of_mem _ hc)

omit h in
/-- Two held buddies, in either order, become the block they are the halves of. -/
theorem merge_buddy (hk : k + 1 < maxOrder)
    (h : Core s L ((q ^^^ 1, k) :: (q, k) :: held)) : Core s L ((q / 2, k + 1) :: held) := by
  refine merge hk ?_
  rcases buddy_cases q with ⟨h1, h2⟩ | ⟨h1, h2⟩
  · rw [h2] at h
    have h3 := h.perm_held (List.Perm.swap _ _ _)
    rwa [h1, show 2 * (q / 2) / 2 = q / 2 by omega] at h3
  · rw [h2] at h
    rwa [h1, show (2 * (q / 2) + 1) / 2 = q / 2 by omega] at h

/-! ### Page bookkeeping -/

/-- Changing one page so that no check starts to fire keeps the invariant. -/
theorem update_page (x : ℕ) (p : Page) (hz : p.zone = (s.page x).zone)
    (hp : (s.page x).Clean → p.Clean) :
    Core { s with page := update s.page x p } L held := by
  refine h.of_same rfl rfl rfl rfl rfl rfl rfl ?_ ?_
  · intro i hi
    by_cases hx : i = x
    · subst hx
      simpa using hp hi
    · simpa [update_of_ne hx] using hi
  · intro i
    by_cases hx : i = x
    · subst hx
      simpa using hz
    · simp [update_of_ne hx]

theorem setPageCount_one (x : ℕ) : Core (s.setPageCount x 1) L held := by
  refine h.update_page x _ rfl ?_
  simp only [Page.clean_iff]
  rintro ⟨h1, h2, _, h4⟩
  exact ⟨h1, h2, by decide, h4⟩

theorem resetPage (x : ℕ) : Core (resetPage s x) L held := by
  refine h.update_page x _ rfl ?_
  simp only [Page.clean_iff]
  rintro ⟨h1, h2, h3, h4⟩
  refine ⟨h1, h2, h3, ?_⟩
  intro i hi
  rw [getLsbD_and, h4 i hi, Bool.false_and]

/-- None of the entry checks of `__free_pages_ok` fires on a page of the zone. -/
theorem freePagesChecks_eq {i : ℕ} (h1 : s.offset ≤ i)
    (h2 : i < s.offset + s.size) : freePagesChecks s i = s := by
  have hfits := h.fits
  obtain ⟨hbuf, hmap, hbits⟩ := (h.pages i h1 h2).1
  have hlt : ¬ i ≥ s.maxMapnr := by omega
  simp [freePagesChecks, State.bugIf, hbuf, hmap, hlt, hbits]

/-- The zone-relative index of a block's first page, as `__free_pages_ok` and
`rmqueue` compute it. -/
theorem toNat_index (hb : b ∈ filed L maxOrder ++ held) :
    (BitVec.ofNat 32 (s.first b) - BitVec.ofNat 32 s.offset).toNat = lo b := by
  have h1 := (h.inside b hb).2
  have h2 := lo_lt_hi b
  have h3 := h.fits
  have h4 := h.wide
  rw [State.first, ofNat_add, add_sub_cancel_left, toNat_ofNat,
    Nat.mod_eq_of_lt (by omega)]

end

end Core

variable {L L' : ℕ → List ℕ}

/-! ## What the functions do -/

@[simp] theorem State.bugIf_false (s : State) : s.bugIf false = s := rfl

/-- What the list functions leave alone. -/
structure Frame (s s' : State) : Prop where
  offset : s'.offset = s.offset
  size : s'.size = s.size
  freePages : s'.freePages = s.freePages

theorem Frame.first {s' : State} (h : Frame s s') (b : Blk) : s'.first b = s.first b := by
  simp [State.first, h.offset]

/-- What `expand` does to the lists: one more block of each order from `low` to below `high`. -/
structure Splits (L L' : ℕ → List ℕ) (low high : ℕ) : Prop where
  same : ∀ j, j < low ∨ high ≤ j → L' j = L j
  more : ∀ j, low ≤ j → j < high → ∃ x, L' j = x :: L j

theorem splits_refl (L : ℕ → List ℕ) (k : ℕ) : Splits L L k k :=
  ⟨fun _ _ => rfl, fun _ h1 h2 => by omega⟩

theorem Splits.head {x : ℕ} (hlow : low ≤ high)
    (h : Splits (update L high (x :: L high)) L' low high) :
    Splits L L' low (high + 1) := by
  refine ⟨fun j hj => ?_, fun j h1 h2 => ?_⟩
  · rw [h.same j (by omega), update_of_ne (by omega)]
  · rcases Nat.lt_succ_iff_lt_or_eq.mp h2 with h2 | rfl
    · obtain ⟨y, hy⟩ := h.more j h1 h2
      exact ⟨y, by rw [hy, update_of_ne (by omega)]⟩
    · exact ⟨x, by rw [h.same j (by omega), update_self]⟩

/-- Splitting into empty lists lists no two buddies. -/
theorem Splits.coalesced (h : Splits L L' low high) (hc : Coalesced L maxOrder)
    (hempty : ∀ j, low ≤ j → j < high → L j = []) :
    Coalesced L' maxOrder := by
  intro k hk q hq
  by_cases hin : low ≤ k ∧ k < high
  · obtain ⟨x, hx⟩ := h.more k hin.1 hin.2
    rw [hx, hempty k hin.1 hin.2, mem_singleton, mem_singleton] at hq
    omega
  · rw [h.same k (by omega)] at hq
    exact hc k hk q hq

/-- `expand` hands out the last part of the block it is given and lists the rest. -/
theorem expandLoop_spec (low high : ℕ) (h : Core s L ((q, high) :: held))
    (hlow : low ≤ high) (hidx : index.toNat = lo (q, high)) :
    ∃ L' q', Core (expandLoop low high s (s.first (q, high)) index (2 ^ high)).1 L'
        ((q', low) :: held) ∧
      (expandLoop low high s (s.first (q, high)) index (2 ^ high)).2 = s.first (q', low) ∧
      Frame s (expandLoop low high s (s.first (q, high)) index (2 ^ high)).1 ∧
      total (filed L' maxOrder) + 2 ^ low = total (filed L maxOrder) + 2 ^ high ∧
      Splits L L' low high := by
  induction high generalizing s L q index with
  | zero =>
    obtain rfl : low = 0 := by omega
    exact ⟨L, q, h, rfl, ⟨rfl, rfl, rfl⟩, rfl, splits_refl L 0⟩
  | succ high ih =>
    by_cases hgt : high + 1 > low
    · have hbad : s.badRange (s.first (q, high + 1)) = false := h.badRange_first (by simp)
      have hin := h.inside (q, high + 1) (by simp)
      -- the lower half goes on the list of order `high`
      have hfirst : s.first (q, high + 1) = s.first (2 * q, high) := by
        simp only [State.first, lo_left]
      have hpair : (index >>> (1 + high)).toNat = q := by
        have hx : index.toNat = 2 * q * 2 ^ high := by rw [hidx, ← lo_left]; rfl
        rw [toNat_pair_index hx]
        omega
      have hput := h.split.put
        (m := update s.map high (changeBit q (s.map high)))
        (fun j hj => update_of_ne hj _ _)
        (fun _ => by rw [update_self, Nat.mul_div_cancel_left q (by decide)])
      -- and the loop goes on with the upper half
      have hpage : s.first (q, high + 1) + 2 ^ high = s.first (2 * q + 1, high) := by
        rw [hfirst]
        simp only [State.first, ← hi_left, hi_eq]
        omega
      have hidx' : (index + BitVec.ofNat 32 (2 ^ high)).toNat = lo (2 * q + 1, high) := by
        have h1 := hi_left q high
        have h2 := hi_eq (2 * q, high)
        have h3 := hi_right q high
        have h4 := lo_lt_hi (2 * q + 1, high)
        have h5 := h.fits
        have h6 := h.wide
        have h7 := lo_left q high
        simp only at h2
        rw [toNat_add, toNat_ofNat, hidx,
          Nat.mod_eq_of_lt (by omega : 2 ^ high < 2 ^ 32), Nat.mod_eq_of_lt (by omega)]
        omega
      obtain ⟨L', q', h1, h2, h3, h4, h5⟩ := ih hput (by omega) hidx'
      have hstep : expandLoop low (high + 1) s (s.first (q, high + 1)) index (2 ^ (high + 1)) =
          expandLoop low high
            { s with
              links := listAdd s.links (.page (s.first (2 * q, high))) (.freeList high)
              map := update s.map high (changeBit q (s.map high)) }
            (s.first (2 * q + 1, high)) (index + BitVec.ofNat 32 (2 ^ high)) (2 ^ high) := by
        rw [expandLoop, if_pos hgt]
        have hsize : 2 ^ (high + 1) >>> 1 = 2 ^ high := by
          rw [Nat.shiftRight_eq_div_pow, pow_succ, pow_one, Nat.mul_div_cancel _ (by decide)]
        simp only [hbad, State.bugIf_false, hsize, State.memlistAdd, State.markUsed, hpair, hpage]
        rw [hfirst]
      rw [hstep]
      refine ⟨L', q', h1, h2, ⟨h3.offset, h3.size, h3.freePages⟩, ?_, h5.head (by omega)⟩
      have hin' : high < maxOrder := by omega
      rw [h4, total_filed_insert L hin', pow_succ]
      omega
    · obtain rfl : low = high + 1 := by omega
      refine ⟨L, q, ?_, ?_, ?_, rfl, splits_refl L _⟩
      · simpa [expandLoop] using h
      · simp [expandLoop]
      · simp only [expandLoop, gt_iff_lt, lt_self_iff_false, if_false]
        exact ⟨rfl, rfl, rfl⟩

/-- The block that is left over passes the last check of `expand`. -/
theorem expand_eq (h : Core s L ((q, high) :: held)) (hlow : low ≤ high)
    (hidx : index.toNat = lo (q, high)) :
    expand s (s.first (q, high)) index low high =
      expandLoop low high s (s.first (q, high)) index (2 ^ high) := by
  obtain ⟨L', q', h1, h2, h3, -⟩ := expandLoop_spec low high h hlow hidx
  have hbad := h1.badRange_first (b := (q', low)) (by simp)
  rw [h3.first, ← h2] at hbad
  rw [expand, Nat.one_shiftLeft, hbad]
  rfl

/-- `rmqueue` from order `curr` on: nothing if all those lists are empty, and
otherwise a block of the requested order. -/
theorem rmqueueLoop_spec (order n : ℕ) (h : Core s L held) {curr : ℕ}
    (hord : order ≤ curr) (hn : curr + n = maxOrder)
    (hbelow : ∀ k, order ≤ k → k < curr → L k = []) :
    ((∀ k, curr ≤ k → k < maxOrder → L k = []) ∧ rmqueueLoop order n s curr = (none, s)) ∨
      (∃ k, curr ≤ k ∧ k < maxOrder ∧ L k ≠ []) ∧
      ∃ L' q, Core (rmqueueLoop order n s curr).2 L' ((q, order) :: held) ∧
        (rmqueueLoop order n s curr).1 = some (s.first (q, order)) ∧
        Frame { s with freePages := s.freePages - (1 <<< order) } (rmqueueLoop order n s curr).2 ∧
        total (filed L' maxOrder) + 2 ^ order = total (filed L maxOrder) ∧
        (Coalesced L maxOrder → Coalesced L' maxOrder) := by
  induction n generalizing curr with
  | zero =>
    left
    exact ⟨fun k h1 h2 => by omega, rfl⟩
  | succ n ih =>
    have hring := h.rings.ring curr
    rcases hL : L curr with _ | ⟨q, qs⟩
    · -- the list of this order is empty: look one order up
      have hnext : s.links.next (.freeList curr) = .freeList curr := by
        rw [hring.next_head]
        simp [State.nodes, hL]
      have hstep : rmqueueLoop order (n + 1) s curr = rmqueueLoop order n s (curr + 1) := by
        simp [rmqueueLoop, hnext]
      rw [hstep]
      have hnext' : curr + 1 + n = maxOrder := by omega
      have hbelow' : ∀ k, order ≤ k → k < curr + 1 → L k = [] := by
        intro k hk1 hk2
        rcases Nat.lt_succ_iff_lt_or_eq.mp hk2 with hk | rfl
        · exact hbelow k hk1 hk
        · exact hL
      rcases ih (by omega) hnext' hbelow' with ⟨h1, h2⟩ | ⟨⟨k, hk1, hk2, hk3⟩, h2⟩
      · left
        refine ⟨?_, h2⟩
        intro k hk1 hk2
        rcases Nat.eq_or_lt_of_le hk1 with rfl | hk
        · exact hL
        · exact h1 k hk hk2
      · right
        exact ⟨⟨k, by omega, hk2, hk3⟩, h2⟩
    · right
      refine ⟨⟨curr, le_rfl, by omega, by simp [hL]⟩, ?_⟩
      have hcurr : curr < maxOrder := by omega
      have hnext : s.links.next (.freeList curr) = .page (s.first (q, curr)) := by
        rw [hring.next_head]
        simp [State.nodes, hL]
      have hmem : (q, curr) ∈ filed L maxOrder ++ held := by
        simp [mem_filed, hcurr, hL]
      have hidx := h.toNat_index hmem
      have hpair := toNat_pair_index (x := BitVec.ofNat 32 (s.first (q, curr)) -
        BitVec.ofNat 32 s.offset) hidx
      have hL0 : L curr = [] ++ q :: qs := hL
      have htake := h.take hcurr hL0
        (m := update s.map curr (changeBit (q / 2) (s.map curr)))
        (fun j hj => update_of_ne hj _ _) (fun _ => update_self _ _ _)
      obtain ⟨s2, hs2⟩ : ∃ s2 : State, s2 = { s with
          links := listRemove s.links (.page (s.first (q, curr)))
          map := update s.map curr (changeBit (q / 2) (s.map curr))
          freePages := s.freePages - (1 <<< order) } := ⟨_, rfl⟩
      have hcore : Core s2 (update L curr ([] ++ qs)) ((q, curr) :: held) := by
        subst hs2
        exact htake.of_same rfl rfl rfl rfl rfl rfl rfl (fun _ hi => hi) (fun _ => rfl)
      have hframe : Frame { s with freePages := s.freePages - (1 <<< order) } s2 := by
        subst hs2
        exact ⟨rfl, rfl, rfl⟩
      obtain ⟨L', q', h1, h2, h3, h4, h5⟩ := expandLoop_spec order curr hcore hord hidx
      rw [← expand_eq hcore hord hidx] at h1 h2 h3
      have hstep : rmqueueLoop order (n + 1) s curr =
          (let r := expand s2 (s2.first (q, curr))
            (BitVec.ofNat 32 (s.first (q, curr)) - BitVec.ofNat 32 s.offset) order curr
          let t := r.1.setPageCount r.2 1
          (some r.2, (t.bugIf (t.badRange r.2)).setPageCount r.2 1)) := by
        rw [hframe.first, rmqueueLoop, hs2]
        simp only [hnext, ne_eq, reduceCtorEq, not_false_eq_true, if_true, Node.entry,
          h.badRange_first hmem, State.bugIf_false, State.memlistDel, State.markUsed, hpair]
        rfl
      rw [hstep]
      generalize expand s2 (s2.first (q, curr))
        (BitVec.ofNat 32 (s.first (q, curr)) - BitVec.ofNat 32 s.offset) order curr = r at *
      have h6 := h1.setPageCount_one r.2
      have hbad : (r.1.setPageCount r.2 1).badRange r.2 = false := by
        have hb := h6.badRange_first (b := (q', order)) (by simp)
        have hfirst : (r.1.setPageCount r.2 1).first (q', order) = r.2 := by
          rw [h2, ← h3.first]
          rfl
        rwa [hfirst] at hb
      simp only [hbad, State.bugIf_false]
      refine ⟨L', q', h6.setPageCount_one r.2, ?_, ?_, ?_, fun hc => ?_⟩
      · rw [h2, hframe.first]
        rfl
      · exact ⟨h3.offset.trans hframe.offset, h3.size.trans hframe.size,
          h3.freePages.trans hframe.freePages⟩
      · rw [h4, total_filed_remove hcurr hL0]
        omega
      · refine h5.coalesced (hc.remove hL0) fun j hj1 hj2 => ?_
        rw [update_of_ne (by omega)]
        exact hbelow j hj1 hj2

/-- What `__free_pages_ok` does to the lists: starting with the block `(q, k)` in
the hand it merges upwards as far as the bitmaps say, and lists the result. -/
theorem freeLoop_spec (n : ℕ) {pageIdx : BitVec 32} (h : Core s L ((q, k) :: held))
    (hn : maxOrder ≤ k + n) (hidx : index.toNat = q / 2) (hpg : pageIdx.toNat = lo (q, k)) :
    ∃ L', Core ((freeLoop n s (maskOf k) k index pageIdx).1.memlistAdd
          (s.offset + (freeLoop n s (maskOf k) k index pageIdx).2.2.toNat)
          (freeLoop n s (maskOf k) k index pageIdx).2.1) L' held ∧
      Frame s (freeLoop n s (maskOf k) k index pageIdx).1 ∧
      total (filed L' maxOrder) = total (filed L maxOrder) + 2 ^ k ∧
      (Coalesced L maxOrder → Coalesced L' maxOrder) := by
  have hk : k < maxOrder := (h.inside (q, k) (by simp)).1
  induction n generalizing s L q k index pageIdx with
  | zero => omega
  | succ n ih =>
    -- the block stays as it is and is listed
    have hlist : ∀ m : ℕ → ByteMap, (∀ j, j ≠ k → m j = s.map j) →
        (k < maxOrder - 1 → m k = changeBit (q / 2) (s.map k)) →
        (k < maxOrder - 1 → q ^^^ 1 ∉ L k) →
        ∀ r : State × ℕ × BitVec 32, r = ({ s with map := m }, k, pageIdx) →
        ∃ L', Core (r.1.memlistAdd (s.offset + r.2.2.toNat) r.2.1) L' held ∧ Frame s r.1 ∧
          total (filed L' maxOrder) = total (filed L maxOrder) + 2 ^ k ∧
          (Coalesced L maxOrder → Coalesced L' maxOrder) := by
      rintro m hmo hmk hbuddy _ rfl
      refine ⟨update L k (q :: L k), ?_, ⟨rfl, rfl, rfl⟩, ?_,
        fun hc => hc.insert fun hk' => hbuddy (by omega)⟩
      · have := h.put hmo hmk
        simp only [hpg]
        exact this
      · rw [total_filed_insert L hk]
        omega
    by_cases htop : k = maxOrder - 1
    · refine hlist s.map (fun _ _ => rfl) (fun h => absurd h (by omega))
        (fun h => absurd h (by omega)) _ ?_
      rw [freeLoop, if_neg (not_not.mpr ((maskOf_add_top k hk).mpr htop))]
    · have hmask : maskOf k + (1 <<< (maxOrder - 1)) ≠ 0 :=
        fun h0 => htop ((maskOf_add_top k hk).mp h0)
      have hklt : k < maxOrder - 1 := by omega
      have hnb : decide (k ≥ maxOrder) = false := by simp [hk]
      set m : ℕ → ByteMap := update s.map k (changeBit (q / 2) (s.map k)) with hm
      have hmo : ∀ j, j ≠ k → m j = s.map j := fun j hj => update_of_ne hj _ _
      have hmk : m k = changeBit (q / 2) (s.map k) := update_self _ _ _
      by_cases hbit : bitAt (s.map k) (q / 2) = false
      · -- the buddy is not free
        refine hlist m hmo (fun _ => hmk) (fun hk' hmem => ?_) _ ?_
        · rw [h.bit_eq_of_buddy_mem hk' hmem] at hbit
          cases hbit
        have hz := (testAndChangeBit_fst_eq_zero (q / 2) (s.map k)).mpr hbit
        rw [freeLoop, if_pos hmask]
        simp only [hnb, State.bugIf_false, hidx, testAndChangeBit_snd, ← hm, hz, if_true]
      · -- the buddy is listed: take it off its list and merge
        have hbuddy : q ^^^ 1 ∈ L k := h.buddy_mem hklt (by simpa using hbit)
        obtain ⟨as, bs, hL⟩ := append_of_mem hbuddy
        have hhalf : (q ^^^ 1) / 2 = q / 2 := by
          rcases buddy_cases q with ⟨h1, h2⟩ | ⟨h1, h2⟩ <;> omega
        have htake := h.take hk hL hmo (fun _ => by rw [hhalf]; exact hmk)
        have hmerge := htake.merge_buddy (by omega)
        have hz : (testAndChangeBit (q / 2) (s.map k)).1 ≠ 0 :=
          fun h0 => hbit ((testAndChangeBit_fst_eq_zero _ _).mp h0)
        have hb1 : s.offset + (pageIdx ^^^ -maskOf k).toNat = s.first (q ^^^ 1, k) := by
          rw [toNat_xor_buddy (lt_trans hk (by decide)) hpg]
          rfl
        have hb2 : s.offset + pageIdx.toNat = s.first (q, k) := by rw [hpg]; rfl
        have hbad1 : s.badRange (s.first (q ^^^ 1, k)) = false :=
          h.badRange_first (by simp [mem_filed, hk, hbuddy])
        have hbad2 : s.badRange (s.first (q, k)) = false := h.badRange_first (by simp)
        have hpg' : (pageIdx &&& maskOf (k + 1)).toNat = lo (q / 2, k + 1) := by
          have hdiv : lo (q, k) / 2 ^ (k + 1) = q / 2 := by
            rw [lo, pow_succ, ← Nat.div_div_eq_div_mul, Nat.mul_div_cancel _ (Nat.two_pow_pos k)]
          rw [toNat_and_maskOf, hpg, hdiv]
          rfl
        have hidx' : (index >>> 1).toNat = q / 2 / 2 := by
          rw [toNat_ushiftRight, hidx, Nat.shiftRight_eq_div_pow, pow_one]
        obtain ⟨L', h1, h2, h3, h4⟩ := ih hmerge (by omega) hidx' hpg' (by omega)
        have hstep : freeLoop (n + 1) s (maskOf k) k index pageIdx =
            freeLoop n { s with
                links := listRemove s.links (.page (s.first (q ^^^ 1, k)))
                map := m } (maskOf (k + 1)) (k + 1) (index >>> 1) (pageIdx &&& maskOf (k + 1)) := by
          have hbm : ∀ x, State.badRange { s with map := m } x = s.badRange x := fun _ => rfl
          rw [freeLoop, if_pos hmask]
          simp only [hnb, State.bugIf_false, hidx, testAndChangeBit_snd, ← hm, hz, if_false, hb1,
            hb2, hbm, hbad1, hbad2, State.memlistDel, maskOf_succ]
        rw [hstep]
        refine ⟨L', h1, ⟨h2.offset, h2.size, h2.freePages⟩, ?_, fun hc => h4 (hc.remove hL)⟩
        rw [h3, total_filed_remove hk hL, pow_succ]
        omega

theorem rmqueue_spec (h : Core s L held) (hord : order < maxOrder) :
    ((∀ k, order ≤ k → k < maxOrder → L k = []) ∧ rmqueue s order = (none, s)) ∨
      (∃ k, order ≤ k ∧ k < maxOrder ∧ L k ≠ []) ∧
      ∃ L' q, Core (rmqueue s order).2 L' ((q, order) :: held) ∧
        (rmqueue s order).1 = some (s.first (q, order)) ∧
        Frame { s with freePages := s.freePages - (1 <<< order) } (rmqueue s order).2 ∧
        total (filed L' maxOrder) + 2 ^ order = total (filed L maxOrder) ∧
        (Coalesced L maxOrder → Coalesced L' maxOrder) :=
  rmqueueLoop_spec order (maxOrder - order) h le_rfl (by omega) fun k h1 h2 => by omega

/-- A block index has no bit below its order. -/
theorem and_not_maskOf_eq_zero (hx : x.toNat = q * 2 ^ k) :
    x &&& ~~~maskOf k = 0 := by
  have hself : x &&& maskOf k = x := by
    apply eq_of_toNat_eq
    rw [toNat_and_maskOf, hx, Nat.mul_div_cancel _ (Nat.two_pow_pos k)]
  rw [← hself, BitVec.and_assoc, BitVec.and_not_self]
  exact and_zero

/-- `__free_pages_ok` lists a held block, merged as far as possible. -/
theorem freePagesOk_spec (h : Core s L ((q, k) :: held)) :
    ∃ L', Core (freePagesOk s (s.first (q, k)) k) L' held ∧
      Frame { s with freePages := s.freePages - maskOf k } (freePagesOk s (s.first (q, k)) k) ∧
      total (filed L' maxOrder) = total (filed L maxOrder) + 2 ^ k ∧
      (Coalesced L maxOrder → Coalesced L' maxOrder) := by
  have hin := h.inside (q, k) (by simp)
  have hlt := lo_lt_hi (q, k)
  have hchecks : freePagesChecks s (s.first (q, k)) = s :=
    h.freePagesChecks_eq (by simp [State.first]) (by simp only [State.first]; omega)
  have hidx := h.toNat_index (b := (q, k)) (by simp)
  have hzero := and_not_maskOf_eq_zero hidx
  obtain ⟨s1, hs1⟩ : ∃ s1 : State, s1 =
      { resetPage s (s.first (q, k)) with freePages := s.freePages - maskOf k } := ⟨_, rfl⟩
  have hcore : Core s1 L ((q, k) :: held) := by
    subst hs1
    exact (h.resetPage _).of_same rfl rfl rfl rfl rfl rfl rfl (fun _ hi => hi) (fun _ => rfl)
  have hframe : Frame { s with freePages := s.freePages - maskOf k } s1 := by
    subst hs1
    exact ⟨rfl, rfl, rfl⟩
  have hloop := freeLoop_spec maxOrder hcore (by omega) (toNat_pair_index hidx) hidx
  generalize hr : freeLoop maxOrder s1 (maskOf k) k
      ((BitVec.ofNat 32 (s.first (q, k)) - BitVec.ofNat 32 s.offset) >>> (1 + k))
      (BitVec.ofNat 32 (s.first (q, k)) - BitVec.ofNat 32 s.offset) = r at hloop
  obtain ⟨L', h1, h2, h3, h4⟩ := hloop
  have hstep : freePagesOk s (s.first (q, k)) k =
      { r.1.memlistAdd (s1.offset + r.2.2.toNat) r.2.1 with
        memoryPressure := r.1.memoryPressure - 1 } := by
    have hoff : (resetPage s (s.first (q, k))).offset = s.offset := rfl
    have hfree : (resetPage s (s.first (q, k))).freePages = s.freePages := rfl
    have hm : (~~~0#32) <<< k = maskOf k := rfl
    rw [freePagesOk, ← hr, hs1]
    simp only [hchecks, hoff, hfree, hm, hzero, ne_eq, not_true_eq_false, decide_false,
      State.bugIf_false, State.memlistAdd]
  rw [hstep]
  refine ⟨L', ?_, ⟨h2.offset.trans hframe.offset, h2.size.trans hframe.size,
    h2.freePages.trans hframe.freePages⟩, h3, h4⟩
  exact h1.of_same rfl rfl rfl rfl rfl rfl rfl (fun _ hi => hi) (fun _ => rfl)

/-! ## Runs -/

/-- The invariant of a zone and its clients, with ghost lists `L` and `held` of blocks. -/
structure Inv (c : ZoneConfig) (s : Sys) (L : ℕ → List ℕ) (held : List Blk) : Prop where
  core : Core s.st L held
  offset : s.st.offset = c.offset
  size : s.st.size = c.size
  out : s.out.Perm (held.map (fun b => (c.offset + lo b, b.2)))
  freePages : s.st.freePages.toNat = total (filed L maxOrder)

/-- All listed blocks fit in the zone, so their pages fit in the counter. -/
theorem Core.total_lt (h : Core s L held) :
    total (filed L maxOrder) < 2 ^ 32 := by
  have h1 := total_le (pairwise_append.mp h.apart).1
    (fun b hb => (h.inside b (mem_append_left _ hb)).2)
  have h2 := h.fits
  have h3 := h.wide
  omega

theorem inv_boot (c : ZoneConfig) :
    Inv c c.boot (fun _ => []) ((range c.size).map (fun i => (i, 0))) where
  core :=
    { fits := c.fits
      wide := c.wide
      rings := by
        refine ⟨fun k => (Links.isRing_nil_iff _ _).mpr ⟨rfl, rfl⟩, ?_⟩
        intro i j hij y hy hy'
        simp only [State.nodes, map_nil, mem_singleton] at hy hy'
        rw [hy] at hy'
        exact hij (Node.freeList.inj hy')
      top := fun _ _ => rfl
      inside := by
        intro b hb
        rw [filed_empty, nil_append, List.mem_map] at hb
        obtain ⟨i, hi, rfl⟩ := hb
        rw [mem_range] at hi
        refine ⟨show 0 < maxOrder by decide, ?_⟩
        show (i + 1) * 2 ^ 0 ≤ c.size
        omega
      apart := by
        rw [filed_empty, nil_append, pairwise_map]
        refine pairwise_lt_range.imp ?_
        intro i j hij
        left
        simp only [hi, lo, pow_zero]
        omega
      bits := by
        intro k _ p
        simp [ZoneConfig.boot, freeAreaInitCore, bitAt]
      pages := by
        intro i h1 h2
        have hcount : (0 : BitVec 32).getLsbD 30 = false := by decide
        refine ⟨(Page.clean_iff _).mpr ⟨rfl, rfl, hcount, ?_⟩, if_pos ⟨h1, h2⟩⟩
        show ∀ i ∈ [3, 4, 5, 7, 9], (1#32 <<< pgReserved).getLsbD i = false
        decide
      bugs := rfl }
  offset := rfl
  size := rfl
  out := by
    have : c.boot.out = ((range c.size).map (fun i => ((i, 0) : Blk))).map
        (fun b => (c.offset + lo b, b.2)) := by
      simp [ZoneConfig.boot, bootBlocks, lo, comp_def]
    rw [this]
  freePages := by simp [ZoneConfig.boot, freeAreaInitCore]

/-- Giving back a block that a client holds keeps the invariant and lists its pages. -/
theorem Inv.free {s : Sys} (h : Inv c s L held) {x : ℕ}
    (hmem : (x, order) ∈ s.out) : ∃ L' held',
      Inv c ⟨freePagesOk s.st x order, s.out.erase (x, order)⟩ L' held' ∧
      total (filed L' maxOrder) = total (filed L maxOrder) + 2 ^ order ∧
      total held = 2 ^ order + total held' ∧
      (Coalesced L maxOrder → Coalesced L' maxOrder) := by
  have hmem' := h.out.mem_iff.mp hmem
  obtain ⟨⟨q, k⟩, hb, hx⟩ := List.mem_map.mp hmem'
  obtain ⟨rfl, rfl⟩ := Prod.mk.inj hx
  have hheld := perm_cons_erase hb
  have hcore := h.core.perm_held hheld
  obtain ⟨L', h1, h2, h3, h4⟩ := freePagesOk_spec hcore
  have hx' : c.offset + lo (q, k) = s.st.first (q, k) := by rw [State.first, h.offset]
  rw [hx'] at hmem ⊢
  have hk : k < 32 := lt_trans (h.core.inside (q, k) (by simp [hb])).1 (by decide)
  have hlt := h1.total_lt
  generalize freePagesOk s.st (s.st.first (q, k)) k = t at *
  have htotal : total held = 2 ^ k + total (held.erase (q, k)) :=
    (total_perm hheld).trans (total_cons _ _)
  refine ⟨L', held.erase (q, k), ⟨h1, h2.offset.trans h.offset, h2.size.trans h.size, ?_, ?_⟩,
    h3, htotal, h4⟩
  · have hp := h.out.trans (hheld.map _)
    rw [map_cons, hx'] at hp
    exact List.Perm.cons_inv ((perm_cons_erase hmem).symm.trans hp)
  · show t.freePages.toNat = _
    rw [h2.freePages]
    show (s.st.freePages - maskOf k).toNat = _
    rw [sub_eq_add_neg, neg_maskOf k hk, toNat_add, toNat_ofNat, h.freePages, h3,
      Nat.add_mod_mod, Nat.mod_eq_of_lt (by omega)]

/-- One call of a client keeps the invariant. -/
theorem inv_step {s s' : Sys} (h : Inv c s L held)
    (hs : Step s s') : ∃ L' held', Inv c s' L' held' ∧
      total (filed L' maxOrder) + total held' = total (filed L maxOrder) + total held ∧
      (Coalesced L maxOrder → Coalesced L' maxOrder) := by
  cases hs with
  | alloc order hord =>
    rcases rmqueue_spec h.core hord with ⟨_, hr⟩ | ⟨_, L', q, h1, h2, h3, h4, h5⟩
    · refine ⟨L, held, ?_, rfl, id⟩
      rw [hr]
      exact ⟨h.core, h.offset, h.size, h.out, h.freePages⟩
    · have htotal : total ((q, order) :: held) = 2 ^ order + total held := total_cons _ _
      refine ⟨L', (q, order) :: held, ⟨h1, h3.offset.trans h.offset, h3.size.trans h.size, ?_,
        ?_⟩, by omega, h5⟩
      · rw [h2, State.first, h.offset]
        exact h.out.cons _
      · have hlt := h.core.total_lt
        show (rmqueue s.st order).2.freePages.toNat = _
        rw [h3.freePages, Nat.one_shiftLeft]
        show (s.st.freePages - BitVec.ofNat 32 (2 ^ order)).toNat = _
        rw [toNat_sub_of_le, h.freePages, toNat_ofNat, Nat.mod_eq_of_lt (by omega)]
        · omega
        · rw [le_def, h.freePages, toNat_ofNat, Nat.mod_eq_of_lt (by omega)]
          omega
  | free x order hmem =>
    obtain ⟨L', held', h1, h2, h3, h4⟩ := h.free hmem
    exact ⟨L', held', h1, by omega, h4⟩

/-- Every state the clients can bring the zone into satisfies the invariant. -/
theorem inv_reachable {s : Sys} (hs : Relation.ReflTransGen Step c.boot s) :
    ∃ L held, Inv c s L held ∧ total (filed L maxOrder) + total held = c.size ∧
      Coalesced L maxOrder := by
  induction hs with
  | refl =>
    refine ⟨_, _, inv_boot c, ?_, ?_⟩
    · simp [total, comp_def]
    · intro k _ q hq
      cases hq.1
  | tail _ hstep ih =>
    obtain ⟨L, held, h, ht, hc⟩ := ih
    obtain ⟨L', held', h', ht', hc'⟩ := inv_step h hstep
    exact ⟨L', held', h', ht'.trans ht, hc' hc⟩

/-! ## The invariant in terms of pages -/

/-- Two blocks, each given by first page and order, have no page in common. -/
def PagesApart (a b : ℕ × ℕ) : Prop := a.1 + 2 ^ a.2 ≤ b.1 ∨ b.1 + 2 ^ b.2 ≤ a.1

/-- What holds of a zone with the pages `pages k` on `free_area[k].free_list`. -/
structure ZoneInvariant (c : ZoneConfig) (s : Sys) (pages : ℕ → List ℕ) : Prop where
  /-- the free lists are rings through exactly those pages -/
  lists : ∀ k < maxOrder, s.st.links.IsRing (.freeList k) ((pages k).map .page)
  /-- listed blocks are inside the zone and aligned -/
  aligned : ∀ k < maxOrder, ∀ x ∈ pages k,
    c.offset ≤ x ∧ x + 2 ^ k ≤ c.offset + c.size ∧ 2 ^ k ∣ x - c.offset
  /-- no page is in two listed or outstanding blocks -/
  disjoint : (filed pages maxOrder ++ s.out).Pairwise PagesApart
  /-- a bit is the exclusive or of its two buddies -/
  bits : ∀ k < maxOrder - 1, ∀ p, bitAt (s.st.map k) p =
    (decide (c.offset + 2 * p * 2 ^ k ∈ pages k) ^^
      decide (c.offset + (2 * p + 1) * 2 ^ k ∈ pages k))
  /-- the counter counts the listed pages -/
  freePages : s.st.freePages.toNat = ((range maxOrder).map (fun k => (pages k).length * 2 ^ k)).sum
  /-- no check has failed -/
  noBug : s.st.bugs = 0
  /-- `rmqueue` fails only for want of blocks -/
  rmqueueNull : ∀ order < maxOrder, ((rmqueue s.st order).1 = none ↔
    ∀ k, order ≤ k → k < maxOrder → pages k = [])
  /-- and then changes nothing -/
  rmqueueSame : ∀ order < maxOrder, (rmqueue s.st order).1 = none → (rmqueue s.st order).2 = s.st

/-- The pages on the lists, from the blocks on the lists. -/
def pagesOf (offset : ℕ) (L : ℕ → List ℕ) (k : ℕ) : List ℕ :=
  (L k).map (fun q => offset + lo (q, k))

theorem mem_pagesOf {offset : ℕ} :
    offset + q * 2 ^ k ∈ pagesOf offset L k ↔ q ∈ L k := by
  simp only [pagesOf, lo, List.mem_map]
  constructor
  · rintro ⟨q', hq', he⟩
    have : q' = q := Nat.eq_of_mul_eq_mul_right (Nat.two_pow_pos k) (by omega)
    exact this ▸ hq'
  · intro hq
    exact ⟨q, hq, rfl⟩

theorem filed_pagesOf (offset : ℕ) (L : ℕ → List ℕ) (n : ℕ) :
    filed (pagesOf offset L) n = (filed L n).map (fun b => (offset + lo b, b.2)) := by
  simp [filed, pagesOf, map_flatMap, comp_def]

theorem total_filed (L : ℕ → List ℕ) (n : ℕ) :
    total (filed L n) = ((range n).map (fun k => (L k).length * 2 ^ k)).sum := by
  induction n with
  | zero => rfl
  | succ n ih =>
    rw [range_succ, map_append, sum_append, ← ih]
    simp [filed, range_succ, total, comp_def]

theorem pagesApart_of_apart (offset : ℕ) {a b : Blk} (h : Apart a b) :
    PagesApart (offset + lo a, a.2) (offset + lo b, b.2) := by
  simp only [Apart, hi_eq] at h
  simp only [PagesApart]
  omega

theorem Inv.rmqueue_eq_none_iff {s : Sys} (h : Inv c s L held)
    (hord : order < maxOrder) :
    ((rmqueue s.st order).1 = none ↔ ∀ k, order ≤ k → k < maxOrder → L k = []) ∧
      ((rmqueue s.st order).1 = none → (rmqueue s.st order).2 = s.st) := by
  rcases rmqueue_spec h.core hord with ⟨hall, hr⟩ | ⟨⟨k, h1, h2, h3⟩, L', q, _, hr, _⟩
  · rw [hr]
    exact ⟨⟨fun _ => hall, fun _ => rfl⟩, fun _ => rfl⟩
  · rw [hr]
    refine ⟨⟨?_, fun hall => absurd (hall k h1 h2) h3⟩, ?_⟩ <;> (intro hn; cases hn)

theorem Inv.zoneInvariant {s : Sys}
    (h : Inv c s L held) : ZoneInvariant c s (pagesOf c.offset L) where
  lists := by
    intro k _
    have := h.core.rings.ring k
    simpa [State.nodes, State.first, h.offset, pagesOf, comp_def] using this
  aligned := by
    intro k hk x hx
    obtain ⟨q, hq, rfl⟩ := List.mem_map.mp hx
    have hin := (h.core.inside (q, k) (mem_append_left _ (mem_filed.mpr ⟨hk, hq⟩))).2
    rw [hi_eq, h.size] at hin
    simp only at hin
    refine ⟨by omega, by omega, ?_⟩
    rw [Nat.add_sub_cancel_left]
    exact Dvd.intro_left q rfl
  disjoint := by
    have hmap : (filed (pagesOf c.offset L) maxOrder ++ s.out).Perm
        ((filed L maxOrder ++ held).map (fun b => (c.offset + lo b, b.2))) := by
      rw [filed_pagesOf, map_append]
      exact h.out.append_left _
    refine (List.Perm.pairwise_iff (fun {_ _} hab => Or.symm hab) hmap).mpr ?_
    rw [pairwise_map]
    exact h.core.apart.imp (pagesApart_of_apart c.offset)
  bits := by
    intro k hk p
    rw [h.core.bits k hk p]
    simp only [mem_pagesOf]
  freePages := by
    rw [h.freePages, total_filed]
    simp [pagesOf]
  noBug := h.core.bugs
  rmqueueNull := by
    intro order hord
    rw [(h.rmqueue_eq_none_iff hord).1]
    simp [pagesOf]
  rmqueueSame := fun _ hord => (h.rmqueue_eq_none_iff hord).2

/-- **Buddy invariant.**  In every state that calls of `rmqueue` and
`__free_pages_ok` reach from boot, lists, bitmaps and counter agree, and no page is
handed out twice. -/
theorem zoneInvariant_reachable (c : ZoneConfig) (s : Sys)
    (hs : Relation.ReflTransGen Step c.boot s) : ∃ pages, ZoneInvariant c s pages := by
  obtain ⟨L, held, h, _⟩ := inv_reachable hs
  exact ⟨_, h.zoneInvariant⟩

/-- A zone of two pages: both are freed at boot and merge, and are then handed
out as one block. -/
theorem zoneInvariant_two_pages :
    let c : ZoneConfig := ⟨1, 5, 2, 7, fun _ => 0, by decide, by decide⟩
    ∃ s, Relation.ReflTransGen Step c.boot s ∧ s.out = [(5, 1)] ∧
      ∃ pages, ZoneInvariant c s pages := by
  intro c
  have h1 := Step.free c.boot 5 0 (by decide)
  have h2 := Step.free ⟨freePagesOk c.boot.st 5 0, [(6, 0)]⟩ 6 0 (by decide)
  have h3 := Step.alloc ⟨freePagesOk (freePagesOk c.boot.st 5 0) 6 0, []⟩ 1 (by decide)
  have hrun := ((Relation.ReflTransGen.single h1).tail h2).tail h3
  exact ⟨_, hrun, by decide +kernel, zoneInvariant_reachable c _ hrun⟩

end Buddy

end Yap
