/-
# Moving the break (`mm/mmap.c`, `sys_brk`)

`sys_brk` rounds the old and the new break up to pages, in 32 bits.  A shrinking heap is
unmapped; a growing one is mapped by `do_brk`, which first unmaps whatever is in its way, so
`find_vma_intersection` has to find that nothing is.

Mappings disappear in `zap_page_range`, so the calls of this function are written down
(`PageOps.logged`).
-/
import Yap.MunmapExact

namespace Yap

namespace Mmap

open Ranges List
open BitVec (lt_def eq_of_toNat_eq le_def toNat_sub_of_le toNat_add_of_lt)

variable {σ : Type}

/-! ## The call -/

/-- The fields of `mm_struct` that only `sys_brk` reads. -/
structure Heap where
  endCode : BitVec 32
  brk : BitVec 32
  deriving DecidableEq, Repr

/-- `find_vma_intersection`. -/
def findVmaIntersection (s : State σ) (m : ℕ) (start stop : BitVec 32) : Option ℕ × State σ :=
  let r := findVma s m start
  (r.1.filter fun p => !decide (stop ≤ (r.2.area p).vmStart), r.2)

/-- `vm_enough_memory`. -/
def vmEnoughMemory (_pages : BitVec 32) : Bool := true

/-- `sys_brk` at `set_brk:`. -/
def setBrk (s : State σ) (h : Heap) (brk : BitVec 32) : Option (State σ × Heap × BitVec 32) :=
  some (s, { h with brk := brk }, brk)

/-- `sys_brk` at `out:`. -/
def outBrk (s : State σ) (h : Heap) : Option (State σ × Heap × BitVec 32) := some (s, h, h.brk)

/-- `sys_brk` of a task whose address space is `m`.  `extra` and `vma` are what the two
allocations return. -/
def sysBrk (ops : PageOps σ) (s : State σ) (m : ℕ) (h : Heap) (brk : BitVec 32)
    (extra vma : Option ℕ) : Option (State σ × Heap × BitVec 32) :=
  if brk < h.endCode then outBrk s h
  else
    let newbrk := pageAlign brk
    let oldbrk := pageAlign h.brk
    if oldbrk = newbrk then setBrk s h brk
    else if brk ≤ h.brk then
      match doMunmap ops s m newbrk (oldbrk - newbrk) extra with
      | none => none
      | some (s, ret) => if ret = 0 then setBrk s h brk else outBrk s h
    else
      let r := findVmaIntersection s m oldbrk (newbrk + pageSize)
      if r.1.isSome then outBrk r.2 h
      else if !vmEnoughMemory ((newbrk - oldbrk) >>> 12) then outBrk r.2 h
      else
        match doBrk ops r.2 m oldbrk (newbrk - oldbrk) extra vma with
        | none => none
        | some (s, ret) => if ret ≠ oldbrk then outBrk s h else setBrk s h brk

/-! ## Rounding -/

/-- The break rounded up to a page, in all numbers. -/
def pageCeil (x : BitVec 32) : ℕ := (x.toNat + 4095) / 4096 * 4096

theorem toNat_pageAlign (x : BitVec 32) : (pageAlign x).toNat = pageCeil x % 2 ^ 32 := by
  have hsum : (x + BitVec.ofNat 32 (2 ^ 12) - 1).toNat = (x.toNat + 4095) % 2 ^ 32 := by
    have hone : (1 : BitVec 32).toNat = 1 := rfl
    rw [BitVec.toNat_sub, BitVec.toNat_add, BitVec.toNat_ofNat, hone]
    omega
  rw [pageAlign_eq, toNat_and_maskOf, hsum, pageCeil]
  omega

theorem pageCeil_le (x : BitVec 32) : pageCeil x ≤ 2 ^ 32 := by
  unfold pageCeil
  omega

theorem dvd_pageCeil (x : BitVec 32) : 4096 ∣ pageCeil x := Nat.dvd_mul_left _ _

variable {x y addr len flags stop : BitVec 32} {vma extra : Option ℕ} {p : ℕ}

theorem pageCeil_mono (h : x ≤ y) : pageCeil x ≤ pageCeil y := by
  rw [le_def] at h
  unfold pageCeil
  omega

theorem pageAlign_eq_self (h : 4096 ∣ x.toNat) : pageAlign x = x := by
  rw [pageAlign_eq]
  exact add_and_maskOf_of_dvd (by decide) h

/-! ## The log -/

/-- The calls of `zap_page_range`, with their address and size. -/
abbrev ZapLog := List (BitVec 32 × BitVec 32)

/-- The page operations, with the calls of `zap_page_range` written down. -/
def PageOps.logged (ops : PageOps σ) : PageOps (σ × ZapLog) where
  mmInit := fun g m => (ops.mmInit g.1 m).map fun g' => (g', g.2)
  zapPageRange := fun g m st size => (ops.zapPageRange g.1 m st size, (st, size) :: g.2)
  clearPageTables := fun g m first nr => (ops.clearPageTables g.1 m first nr, g.2)
  handleMmFault := fun g m vma addr write =>
    let r := ops.handleMmFault g.1 m vma addr write
    ((r.1, g.2), r.2)
  copyPageRange := fun g dst src vma =>
    let r := ops.copyPageRange g.1 dst src vma
    ((r.1, g.2), r.2)

/-- The state with an empty log. -/
def State.logged (s : State σ) : State (σ × ZapLog) := ⟨s.area, s.mm, (s.pages, [])⟩

/-- The page of the address `x` was taken away. -/
def Zapped (g : σ × ZapLog) (x : ℕ) : Prop := ∃ z ∈ g.2, z.1.toNat ≤ x ∧ x < z.1.toNat + z.2.toNat

section

variable {ops : PageOps σ} {s : State (σ × ZapLog)} {m : ℕ}

variable {r : State (σ × ZapLog) × BitVec 32}

theorem not_zapped_logged (s : State σ) (x : ℕ) : ¬ Zapped s.logged.pages x := by
  rintro ⟨z, hz, _⟩
  cases hz

theorem zapped_zap {g : σ × ZapLog} {st size : BitVec 32} {x : ℕ} :
    Zapped (ops.logged.zapPageRange g m st size) x ↔
      (st.toNat ≤ x ∧ x < st.toNat + size.toNat) ∨ Zapped g x := by
  simp [Zapped, PageOps.logged]

theorem presentLoop_log (m : ℕ) (vma : VmArea) (write : Bool) (stop : BitVec 32)
    (fuel : ℕ) (addr : BitVec 32) (g : σ × ZapLog) :
    (presentLoop ops.logged m vma write stop fuel addr g).2 = g.2 := by
  induction fuel generalizing addr g with
  | zero => rfl
  | succ fuel ih =>
    unfold presentLoop
    dsimp only
    split_ifs
    · rfl
    · exact ih _ _
    · rfl

theorem brkOut_log
    (h : brkOut ops.logged s m addr len flags = some r) : r.1.pages.2 = s.pages.2 := by
  unfold brkOut makePagesPresent at h
  dsimp only at h
  split_ifs at h
  · rw [Option.map_eq_some_iff] at h
    obtain ⟨s1, h, rfl⟩ := h
    split at h
    · cases h
    · cases h
      rw [presentLoop_log, findVma_pages]
      rfl
  · cases h
    rfl

theorem brkMap_log (h : brkMap ops.logged s m addr len vma = some r) : r.1.pages.2 = s.pages.2 := by
  have hfind : (findExpandable s m addr (brkFlags s m)).2.pages = s.pages :=
    findExpandable_pages s m addr (brkFlags s m)
  unfold brkMap at h
  dsimp only at h
  split at h
  · exact (brkOut_log h).trans (congrArg Prod.snd hfind)
  · split at h
    · cases h
      exact congrArg Prod.snd hfind
    · exact (brkOut_log h).trans (congrArg Prod.snd hfind)

theorem freePgtables_log (s : State (σ × ZapLog)) (m : ℕ) (prev : Option ℕ)
    (start stop : BitVec 32) :
    (freePgtables ops.logged s m prev start stop).pages.2 = s.pages.2 := by
  unfold freePgtables
  dsimp only
  split_ifs <;> rfl

end

/-! ## What `do_munmap` zaps -/

section

variable {s : State σ} {m p : ℕ}

/-- `unmap_fixup` writes no other area than the one it is about and the spare one. -/
theorem unmapFixup_frame {r : State σ × Option ℕ} (h : unmapFixup s m p addr len extra = some r) :
    r.1.pages = s.pages ∧ (∀ q, q ≠ p → q ∉ extra → r.1.area q = s.area q) ∧
      ∀ q ∈ r.2, q ∈ extra := by
  unfold unmapFixup at h
  dsimp only at h
  split_ifs at h
  · cases h
    exact ⟨rfl, fun _ _ _ => rfl, fun _ hq => hq⟩
  · cases h
    exact ⟨rfl, fun q hq _ => setArea_area_of_ne _ _ _ _ hq, fun _ hq => hq⟩
  · cases h
    exact ⟨rfl, fun q hq _ => setArea_area_of_ne _ _ _ _ hq, fun _ hq => hq⟩
  · cases extra with
    | none => cases h
    | some q' =>
      cases h
      refine ⟨rfl, fun q hq hq' => ?_, fun q hq => by cases hq⟩
      have hne : q ≠ q' := fun heq => hq' (congrArg some heq.symm)
      exact (setArea_area_of_ne _ _ _ _ hq).trans (setArea_area_of_ne _ _ _ _ hne)

end

section

variable {ops : PageOps σ} {s s' : State (σ × ZapLog)} {m p : ℕ}

/-- One round zaps the part of the area that is in the range. -/
theorem munmapArea_zapped {r : State (σ × ZapLog) × Option ℕ}
    (h : munmapArea ops.logged s m p addr stop extra = some r) (hlt : addr.toNat < stop.toNat)
    (hhi : addr.toNat ≤ hi s p) (hlo : lo s p < stop.toNat) (hle : lo s p ≤ hi s p) (x : ℕ) :
    Zapped r.1.pages x ↔ ((lo s p ≤ x ∧ x < hi s p) ∧ addr.toNat ≤ x ∧ x < stop.toNat) ∨
      Zapped s.pages x := by
  unfold munmapArea at h
  rw [(unmapFixup_frame h).1]
  refine zapped_zap.trans (or_congr_left ?_)
  unfold lo hi at *
  have hst := toNat_larger addr (s.area p).vmStart
  have hen := toNat_smaller (s.area p).vmEnd stop
  rw [toNat_sub_of_le (by rw [le_def, hst, hen]; omega), hst, hen]
  omega

/-- The loop zaps what is in the range of the areas that were taken off the list. -/
theorem munmapLoop_zapped (hlt : addr.toNat < stop.toNat) {free : List ℕ}
    {s : State (σ × ZapLog)} {extra : Option ℕ}
    (h : munmapLoop ops.logged m addr stop s free extra = some s') (hnd : free.Nodup)
    (hfresh : ∀ q ∈ extra, q ∉ free)
    (hrange : ∀ p ∈ free, addr.toNat ≤ hi s p ∧ lo s p < stop.toNat ∧ lo s p ≤ hi s p) (x : ℕ) :
    Zapped s'.pages x ↔ (Covers s free x ∧ addr.toNat ≤ x ∧ x < stop.toNat) ∨
      Zapped s.pages x := by
  induction free generalizing s extra with
  | nil =>
    cases h
    exact ⟨Or.inr, fun hx => hx.resolve_left fun hx' => covers_nil hx'.1⟩
  | cons p free ih =>
    unfold munmapLoop at h
    cases harea : munmapArea ops.logged s m p addr stop extra with
    | none =>
      rw [harea] at h
      cases h
    | some r =>
      rw [harea] at h
      have hframe := unmapFixup_frame harea
      obtain ⟨hp, hnd'⟩ := nodup_cons.mp hnd
      -- the areas that are still to come are as they were
      have hsame : ∀ q ∈ free, r.1.area q = s.area q := by
        intro q hq
        refine hframe.2.1 q ?_ fun hq' => hfresh q hq' (mem_cons_of_mem _ hq)
        rintro rfl
        exact hp hq
      have hnext := ih h hnd' (fun q hq hq' => hfresh q (hframe.2.2 q hq)
        (mem_cons_of_mem _ hq')) (fun q hq => by
          rw [hi, lo, hsame q hq]
          exact hrange q (mem_cons_of_mem _ hq))
      obtain ⟨hhi, hlo, hle⟩ := hrange p mem_cons_self
      rw [hnext, munmapArea_zapped harea hlt hhi hlo hle,
        covers_congr (fun _ => Iff.rfl) hsame x, covers_cons, ← or_assoc, ← or_and_right,
        or_comm (a := Covers s free x)]

end

/-! ## `do_munmap` for `sys_brk` -/

section

variable {s s' : State σ} {m p : ℕ}

theorem SameAreas.mapping (h : SameAreas s s' m) (x : ℕ) :
    Mmap.mapping s' m x = Mmap.mapping s m x := by
  have hfind : ((s.mm m).mmap.find? fun p => decide (lo s' p ≤ x ∧ x < hi s' p)) =
      (s.mm m).mmap.find? fun p => decide (lo s p ≤ x ∧ x < hi s p) := by
    rw [← head?_filter, ← head?_filter]
    refine congrArg List.head? (filter_congr fun p hp => ?_)
    rw [lo, hi, h.area p hp]
    rfl
  unfold Mmap.mapping
  rw [h.mmap, hfind]
  refine Option.map_congr fun p hp => attrs_congr (h.area p ?_) x
  exact mem_of_find?_eq_some hp

/-- A range that ends at the end of the address space ends at 0, and nothing is unmapped. -/
theorem doMunmap_wrapped (ops : PageOps σ) (hzero : pageAlign len ≠ 0)
    (hwrap : addr + pageAlign len = 0) :
    doMunmap ops s m addr len extra = some (s, 0) := by
  unfold doMunmap
  rw [if_neg hzero]
  cases (findVmaPrev s m addr).2 with
  | nil => rfl
  | cons p rest =>
    dsimp only
    have hle : (0 : BitVec 32) ≤ (s.area p).vmStart := Nat.zero_le _
    rw [hwrap, if_pos hle]

theorem unmapFixup_upper (extra : Option ℕ) (hstart : addr ≠ (s.area p).vmStart)
    (hstop : addr + len = (s.area p).vmEnd) :
    unmapFixup s m p addr len extra =
      some (insertVmStruct ((unaccount s (s.area p).vmMm (s.area p).vmFlags (len >>> 12)).setArea p
        { s.area p with vmEnd := addr }) m p, extra) := by
  unfold unmapFixup
  rw [if_neg fun h => hstart h.1, if_pos hstop]

/-- An area that ends where the range begins comes back as it was. -/
theorem munmapArea_touching (ops : PageOps σ) (extra : Option ℕ) (hend : (s.area p).vmEnd = addr)
    (hlo : lo s p < addr.toNat) (hlt : addr < stop) :
    ∃ s', munmapArea ops s m p addr stop extra = some (s', extra) ∧ s'.area = s.area ∧
      (s'.mm m).mmap = insertWhile (fun q => decide (lo s q ≤ lo s p)) p (s.mm m).mmap := by
  have hstart : ¬ addr < (s.area p).vmStart := by
    rw [lt_def]
    unfold lo at hlo
    omega
  have hne : addr ≠ (s.area p).vmStart := by
    intro heq
    rw [lo, ← heq] at hlo
    exact lt_irrefl _ hlo
  have hstop : addr + 0#32 = (s.area p).vmEnd := by rw [hend, BitVec.add_zero]
  unfold munmapArea
  dsimp only
  rw [if_neg hstart, hend, if_pos hlt, BitVec.sub_self]
  set s0 : State σ :=
    { s.setMm m { s.mm m with mapCount := (s.mm m).mapCount - 1 } with
      pages := ops.zapPageRange s.pages m addr 0#32 }
  have hfix := unmapFixup_upper (s := s0) (m := m) (p := p) extra hne hstop
  set s1 := unaccount s0 (s0.area p).vmMm (s0.area p).vmFlags (0#32 >>> 12) with hs1
  have hself : s1.setArea p { s0.area p with vmEnd := addr } = s1 := by
    refine setArea_eq_self _ _ _ ?_
    rw [← hend]
    rfl
  have hmm : (s1.mm m).mmap = (s.mm m).mmap := by
    have hmm0 : s0.mm m = { s.mm m with mapCount := (s.mm m).mapCount - 1 } := setMm_mm _ _ _
    rw [hs1, unaccount]
    by_cases hm : m = (s0.area p).vmMm
    · rw [← hm, setMm_mm, hmm0]
    · rw [setMm_mm_of_ne _ _ _ _ hm, hmm0]
  refine ⟨insertVmStruct s1 m p, ?_, rfl, ?_⟩
  · rw [← hself]
    exact hfix
  · rw [insertVmStruct_mmap, hmm]
    rfl

end

section

variable {s : State σ} {m : ℕ} {addr stop : BitVec 32}

/-- In a clear range only the area that touches it can be taken off the list. -/
theorem hit_of_clear (h : Shape s m []) (hclear : Clear s m addr.toNat stop.toNat) {rest : List ℕ}
    (hrest : (findVmaPrev s m addr).2 = p :: rest) (hp : lo s p < stop.toNat) :
    hi s p = addr.toNat ∧ ∀ r ∈ rest, stop.toNat ≤ lo s r := by
  have hsplit := findVmaPrev_append s m addr
  have hmem : ∀ r ∈ p :: rest, r ∈ (s.mm m).mmap := by
    intro r hr
    rw [← hsplit, hrest]
    exact mem_append_right _ hr
  have hge : ∀ r ∈ p :: rest, addr.toNat ≤ hi s r := by
    rw [← hrest]
    exact h.ordered.le_hi_of_mem_dropWhile
  have hord : Ordered (lo s) (hi s) (p :: rest) :=
    h.ordered.sublist (by rw [← hsplit, hrest]; exact sublist_append_right _ _)
  obtain ⟨hlt, hle, _⟩ := ordered_cons.mp hord
  have hend : hi s p = addr.toNat := by
    have := hclear p (hmem p mem_cons_self)
    have := hge p mem_cons_self
    omega
  refine ⟨hend, fun r hr => ?_⟩
  have hr' := hmem r (mem_cons_of_mem _ hr)
  have := hclear r hr'
  have := hle r hr
  have := h.ordered.lt r hr'
  omega

/-- Nothing is unmapped in a clear range: an area that touches it is taken off the list and
put back. -/
theorem unmapAreas_clear (ops : PageOps σ) (h : Shape s m [])
    (hclear : Clear s m addr.toNat stop.toNat) (hlt : addr < stop) {rest : List ℕ}
    (hrest : (findVmaPrev s m addr).2 = p :: rest) (hp : lo s p < stop.toNat) (q : ℕ) :
    ∃ s', unmapAreas ops s m addr stop (findVmaPrev s m addr).1 (findVmaPrev s m addr).2 q
      = some s' ∧ s'.area = s.area ∧ (s'.mm m).mmap = (s.mm m).mmap := by
  obtain ⟨hend, habove⟩ := hit_of_clear h hclear hrest hp
  have hsplit := findVmaPrev_append s m addr
  have hpre : ∀ r ∈ (findVmaPrev s m addr).1, hi s r < addr.toNat :=
    fun r hr => hi_lt_of_mem_findVmaPrev hr
  rw [hrest] at hsplit ⊢
  have hord := h.ordered
  rw [← hsplit] at hord
  have hplt := hord.lt p (mem_append_right _ mem_cons_self)
  have hpos : decide ((s.area p).vmStart < stop) = true := decide_eq_true hp
  obtain ⟨htake, hdrop⟩ :
      ((p :: rest).takeWhile fun p => decide ((s.area p).vmStart < stop)) = [p] ∧
        ((p :: rest).dropWhile fun p => decide ((s.area p).vmStart < stop)) = rest := by
    cases rest with
    | nil => simp [hpos]
    | cons r rest =>
      have hneg : decide ((s.area r).vmStart < stop) = false :=
        decide_eq_false (not_lt.mpr (habove r mem_cons_self))
      simp [hpos, hneg, -decide_eq_true_eq, -decide_eq_false_iff_not]
  unfold unmapAreas
  dsimp only
  rw [htake, hdrop, reverse_singleton]
  set s1 := s.setMm m
    { s.mm m with mmap := (findVmaPrev s m addr).1 ++ rest, mmapCache := none } with hs1
  obtain ⟨s', heq, harea, hmmap⟩ := munmapArea_touching (s := s1) (m := m) (p := p) ops (some q)
    (eq_of_toNat_eq hend) (show lo s p < addr.toNat by omega) hlt
  rw [munmapLoop, heq]
  refine ⟨freePgtables ops s' m _ addr stop, rfl, ?_, ?_⟩
  · rw [freePgtables_area]
    exact harea
  · rw [freePgtables_mm, hmmap, hs1, setMm_mm, ← hsplit]
    refine insertWhile_append (fun r hr => decide_eq_true ?_) (fun r hr => decide_eq_false ?_) p
    · have hr' := hpre r hr
      have := hord.lt r (mem_append_left _ hr)
      have := (pairwise_append.mp hord.pairwise).2.2 r hr p mem_cons_self
      show lo s r ≤ lo s p
      omega
    · have := habove r hr
      show ¬ lo s r ≤ lo s p
      omega

/-- **`do_munmap` of a clear range** leaves the list as it was, whatever it returns. -/
theorem doMunmap_clear (ops : PageOps σ) (h : Shape s m []) (haddr : 4096 ∣ addr.toNat)
    (hlen : addr.toNat + (pageAlign len).toNat < 2 ^ 32)
    (hclear : Clear s m addr.toNat (addr.toNat + (pageAlign len).toNat))
    (hfresh : ∀ q ∈ extra, q ∉ (s.mm m).mmap) :
    ∃ r, doMunmap ops s m addr len extra = some r ∧ (r.2 = 0 ∨ r.2 = -12 ∨ r.2 = -22) ∧
      Shape r.1 m [] ∧ SameAreas s r.1 m := by
  have hadd : (addr + pageAlign len).toNat = addr.toNat + (pageAlign len).toNat :=
    toNat_add_of_lt hlen
  obtain ⟨s', ret, heq, hret, herror, hcut, _⟩ := doMunmap_cut ops h haddr hlen hfresh
  have hsame : SameAreas s s' m := by
    rcases doMunmap_cases ops h extra hlen with
      ⟨e, _, heq', _⟩ | ⟨heq', _⟩ | ⟨hlt, q, p, rest, _, hrest, hp, heq'⟩
    · cases heq.symm.trans heq'
      exact sameAreas_refl s m
    · cases heq.symm.trans heq'
      exact sameAreas_refl s m
    · rw [← hadd] at hclear hp
      obtain ⟨s'', hun, harea, hmmap⟩ := unmapAreas_clear ops h hclear hlt hrest hp q
      rw [hun] at heq'
      cases heq.symm.trans heq'
      exact ⟨hmmap, fun p _ => by rw [harea]⟩
  refine ⟨(s', ret), heq, hret, ?_, hsame⟩
  by_cases hz : ret = 0
  · exact (hcut hz).2.shape
  · rw [herror hz]
    exact h

end

/-- What `do_munmap` zaps: the mapped part of the range, when it returns 0. -/
theorem doMunmap_zapped {ops : PageOps σ} {s : State (σ × ZapLog)} {m : ℕ}
    {r : State (σ × ZapLog) × ℤ} (h : Shape s m [])
    (hlen : addr.toNat + (pageAlign len).toNat < 2 ^ 32) (hfresh : ∀ q ∈ extra, q ∉ (s.mm m).mmap)
    (heq : doMunmap ops.logged s m addr len extra = some r) (x : ℕ) :
    Zapped r.1.pages x ↔ (r.2 = 0 ∧ Covers s (s.mm m).mmap x ∧ addr.toNat ≤ x ∧
      x < addr.toNat + (pageAlign len).toNat) ∨ Zapped s.pages x := by
  have hadd : (addr + pageAlign len).toNat = addr.toNat + (pageAlign len).toNat :=
    toNat_add_of_lt hlen
  rcases doMunmap_cases ops.logged h extra hlen with
    ⟨e, he, heq', _⟩ | ⟨heq', hclear⟩ | ⟨hlt, q, p, rest, hq, _, _, heq'⟩
  · cases heq.symm.trans heq'
    refine ⟨Or.inr, fun hx => hx.resolve_left fun hx' => ?_⟩
    omega
  · cases heq.symm.trans heq'
    refine ⟨Or.inr, fun hx => hx.resolve_left ?_⟩
    rintro ⟨_, ⟨p, hp, hpx⟩, hrange⟩
    have := hclear p hp
    omega
  · rw [lt_def, hadd] at hlt
    rw [← hadd] at hlt ⊢
    obtain ⟨s2, hun, hr⟩ := Option.map_eq_some_iff.mp (heq'.symm.trans heq)
    unfold unmapAreas at hun
    rw [Option.map_eq_some_iff] at hun
    obtain ⟨s', hloop, hfree⟩ := hun
    set stop := addr + pageAlign len with hstop
    obtain ⟨pre, hit, post, hpre, hhit, hpost, hsplit, hprelt, hhits, hpostge⟩ := h.split addr stop
    rw [hpre, hhit, hpost] at hloop
    have hord := h.ordered
    rw [hsplit] at hord
    have hhitmem : ∀ p ∈ hit, p ∈ (s.mm m).mmap := by
      intro p hp
      rw [hsplit]
      exact mem_append_right _ (mem_append_left _ hp)
    have hloop' := munmapLoop_zapped hlt hloop
      (nodup_reverse.mpr ((hord.sublist ((sublist_append_left hit post).trans
        (sublist_append_right _ _))).nodup))
      (fun r hr hmem => by
        cases hr
        exact hfresh q hq (hhitmem q (mem_reverse.mp hmem)))
      (fun p hp => by
        rw [mem_reverse] at hp
        exact ⟨(hhits p hp).1, (hhits p hp).2, (h.ordered.lt p (hhitmem p hp)).le⟩) x
    -- only the areas that are taken off have addresses in the range
    have hcov : Covers s hit x ∧ addr.toNat ≤ x ∧ x < stop.toNat ↔
        Covers s (s.mm m).mmap x ∧ addr.toNat ≤ x ∧ x < stop.toNat := by
      refine and_congr_left fun hx => ⟨?_, ?_⟩
      · rintro ⟨p, hp, hpx⟩
        exact ⟨p, hhitmem p hp, hpx⟩
      · rintro ⟨p, hp, hpx⟩
        rw [hsplit, mem_append, mem_append] at hp
        rcases hp with hp | hp | hp
        · have := hprelt p hp
          omega
        · exact ⟨p, hp, hpx⟩
        · have := hpostge p hp
          omega
    have hrev : Covers s hit.reverse x ↔ Covers s hit x :=
      covers_congr (fun _ => mem_reverse) (fun _ _ => rfl) x
    have hlog : Zapped r.1.pages x ↔ Zapped s'.pages x := by
      rw [Zapped, Zapped, ← hr, ← hfree, freePgtables_log]
    rw [hlog, hloop']
    refine or_congr_left ?_
    change (Covers s hit.reverse x ∧ _) ↔ _
    rw [hrev, hcov]
    exact ⟨fun hx => ⟨by rw [← hr], hx⟩, fun hx => hx.2⟩

/-! ## `do_brk` for `sys_brk` -/

section

variable {s s' : State σ} {m : ℕ} {addr : BitVec 32}

theorem Grown.mapping {addr stop x : ℕ} (h : Grown s s' m addr stop) (hs : Shape s m [])
    (hx : Covers s (s.mm m).mmap x) : Mmap.mapping s' m x = Mmap.mapping s m x := by
  obtain ⟨q, hq, hqx⟩ := (h.covers x).mpr (Or.inl hx)
  obtain ⟨p, hp, hpx⟩ := hx
  rw [h.shape.mapping_eq hq hqx, hs.mapping_eq hp hpx, h.same q hq p hp x hqx hpx]

end

/-- **`do_brk` in a clear range** zaps nothing; it fails and leaves the list alone, or it maps
the range. -/
theorem doBrk_clear {ops : PageOps σ} {s : State (σ × ZapLog)} {m : ℕ} (h : Shape s m [])
    (haddr : 4096 ∣ addr.toNat) (hlen4 : 4096 ∣ len.toNat) (hpos : 0 < len.toNat)
    (hlen : addr.toNat + len.toNat < 2 ^ 32)
    (hclear : Clear s m addr.toNat (addr.toNat + len.toNat))
    (hextra : ∀ q ∈ extra, q ∉ (s.mm m).mmap) (hvma : ∀ q ∈ vma, q ∉ (s.mm m).mmap) :
    ∃ s' r, doBrk ops.logged s m addr len extra vma = some (s', r) ∧
      (∀ x, Zapped s'.pages x → Zapped s.pages x) ∧
      (r ≠ addr ∧ SameAreas s s' m ∨
        r = addr ∧ Grown s s' m addr.toNat (addr.toNat + len.toNat)) := by
  have halign : pageAlign len = len := pageAlign_eq_self hlen4
  have hne : len ≠ 0 := by
    rintro rfl
    exact lt_irrefl _ hpos
  obtain ⟨⟨s1, ret⟩, heq, hret, hshape, hsame⟩ := doMunmap_clear ops.logged h haddr
    (by rw [halign]; exact hlen) (by rw [halign]; exact hclear) hextra
  have hzap : ∀ x, Zapped s1.pages x → Zapped s.pages x := by
    intro x hx
    have hz := (doMunmap_zapped h (by rw [halign]; exact hlen) hextra heq x).mp hx
    refine hz.resolve_left ?_
    rintro ⟨_, ⟨p, hp, hpx⟩, hrange⟩
    have := hclear p hp
    rw [halign] at hrange
    omega
  unfold doBrk
  rw [halign, if_neg hne, heq]
  dsimp only
  have herror : ∀ e : ℤ, e = -12 ∨ e = -22 → BitVec.ofInt 32 e ≠ addr :=
    fun e he => error_ne_page haddr he
  split_ifs with hr hcount
  · exact ⟨s1, _, rfl, hzap, Or.inl ⟨herror ret (hret.resolve_left hr), hsame⟩⟩
  · exact ⟨s1, _, rfl, hzap, Or.inl ⟨herror (-12) (Or.inl rfl), hsame⟩⟩
  · obtain ⟨s', r, heq', hcase⟩ := brkMap_spec ops.logged hshape haddr hlen4 hpos hlen
      (hsame.clear hclear) (fun q hq => by rw [hsame.mmap]; exact hvma q hq)
    refine ⟨s', r, heq', fun x hx => hzap x ?_, ?_⟩
    · rw [Zapped, brkMap_log heq'] at hx
      exact hx
    · rcases hcase with ⟨rfl, hre, _⟩ | ⟨rfl, hg, _⟩
      · exact Or.inl ⟨herror (-12) (Or.inl rfl), hsame.trans hre.sameAreas⟩
      · exact Or.inr ⟨rfl, hg.congr hsame (sameAreas_refl s' m) hg.shape⟩

/-! ## A break in the last page -/

section

variable {s : State σ} {m : ℕ}

/-- An area that ends at 0 is empty. -/
theorem not_ordered_of_hi_zero (hp : p ∈ (s.mm m).mmap) (hz : (s.area p).vmEnd = 0) :
    ¬ Ordered (lo s) (hi s) (s.mm m).mmap := by
  intro h
  have hlt := h.lt p hp
  rw [hi, hz] at hlt
  exact Nat.not_lt_zero _ hlt

theorem brkOut_keeps (ops : PageOps σ) {r : State σ × BitVec 32}
    (h : brkOut ops s m addr len flags = some r)
    (hcache : ∀ p ∈ (s.mm m).mmapCache, p ∈ (s.mm m).mmap) :
    r.1.area = s.area ∧ (r.1.mm m).mmap = (s.mm m).mmap := by
  by_cases hflags : flags &&& vmLocked ≠ 0
  · rw [brkOut_locked ops s m addr len hflags, Option.map_eq_some_iff] at h
    obtain ⟨s1, h, rfl⟩ := h
    have hmm : (accounted s m len).mm m = _ := setMm_mm s m _
    obtain ⟨hre, _⟩ := findVma_spec (by rw [hmm]; exact hcache) addr
    unfold makePagesPresent at h
    dsimp only at h
    split at h
    · cases h
    · cases h
      refine ⟨hre.area, hre.mmap.trans ?_⟩
      rw [hmm]
  · unfold brkOut at h
    rw [if_neg hflags] at h
    cases h
    refine ⟨rfl, ?_⟩
    rw [setMm_mm]

/-- When `do_brk` maps a range that ends at 0, an empty area is on the list, or the call does
not return. -/
theorem brkMap_wrapped (ops : PageOps σ) {r : State σ × BitVec 32} (h : Shape s m [])
    (hwrap : addr + len = 0) (hvma : (findExpandable s m addr (brkFlags s m)).1 ≠ none ∨ vma ≠ none)
    (heq : brkMap ops s m addr len vma = some r) :
    ¬ Ordered (lo r.1) (hi r.1) (r.1.mm m).mmap := by
  unfold brkMap at heq
  dsimp only at heq
  obtain ⟨hre, hfound⟩ := findExpandable_spec h.cache addr (brkFlags s m)
  set s1 := (findExpandable s m addr (brkFlags s m)).2 with hs1
  have hcache : ∀ p ∈ (s1.mm m).mmapCache, p ∈ (s1.mm m).mmap := (hre.shape h).cache
  cases hr : (findExpandable s m addr (brkFlags s m)).1 with
  | some p =>
    rw [hr] at heq
    obtain ⟨harea, hmmap⟩ := brkOut_keeps ops heq hcache
    refine not_ordered_of_hi_zero (p := p) ?_ ?_
    · rw [hmmap]
      exact hre.mmap ▸ (hfound p hr).1
    · rw [harea, setArea_area]
      exact hwrap
  | none =>
    rw [hr] at heq hvma
    cases vma with
    | none => exact absurd hvma (by simp)
    | some p =>
      obtain ⟨harea, hmmap⟩ := brkOut_keeps ops heq (by
        intro q hq
        rw [insertVmStruct_mmap, mem_insertWhile]
        refine Or.inr (hcache q ?_)
        simpa only [insertVmStruct, setMm_mm, setArea_mm] using hq)
      refine not_ordered_of_hi_zero (p := p) ?_ ?_
      · rw [hmmap, insertVmStruct_mmap, mem_insertWhile]
        exact Or.inl rfl
      · rw [harea]
        show ((s1.setArea p _).area p).vmEnd = 0
        rw [setArea_area]
        exact hwrap

/-- `do_brk` finds the area to extend when there is one. -/
theorem findExpandable_ne_none (h : Shape s m []) (addr flags : BitVec 32) :
    (findExpandable s m addr flags).1 ≠ none ↔
      ∃ p ∈ (s.mm m).mmap, (s.area p).vmEnd = addr ∧ (s.area p).vmFlags = flags := by
  obtain ⟨hre, hfound⟩ := findExpandable_spec h.cache addr flags
  constructor
  · intro hne
    obtain ⟨p, hp⟩ := Option.ne_none_iff_exists'.mp hne
    exact ⟨p, hfound p hp⟩
  · rintro ⟨p, hp, hend, hflags⟩
    have hlt := h.ordered.lt p hp
    have hhi : hi s p = addr.toNat := by rw [hi, hend]
    have haddr : addr ≠ 0 := by
      rintro rfl
      rw [hhi] at hlt
      exact Nat.not_lt_zero _ hlt
    have hpred : (addr - 1).toNat = addr.toNat - 1 :=
      toNat_sub_of_le (show (1 : BitVec 32).toNat ≤ addr.toNat by show 1 ≤ _; omega)
    have hcov := findVma_covering h.ordered h.cache hp
      (show lo s p ≤ (addr - 1).toNat by omega) (show (addr - 1).toNat < hi s p by omega)
    unfold findExpandable
    rw [if_pos haddr]
    dsimp only
    obtain ⟨hre', _⟩ := findVma_spec h.cache (addr - 1)
    rw [hcov, Option.filter_some, hre'.area, if_pos (decide_eq_true ⟨hend, hflags⟩)]
    exact Option.some_ne_none p

end

/-! ## `find_vma_intersection` -/

section

variable {s : State σ} {m : ℕ}

/-- **`find_vma_intersection`** finds an area exactly when the range is not clear. -/
theorem findVmaIntersection_eq_none (h : Shape s m []) (start stop : BitVec 32) :
    (findVmaIntersection s m start stop).1 = none ↔ Clear s m start.toNat stop.toNat := by
  obtain ⟨hre, hmem⟩ := findVma_spec h.cache start
  have hfst := findVma_fst h.ordered h.cache start
  have hsplit := takeWhile_append_dropWhile
    (p := fun p => decide ((s.area p).vmEnd ≤ start)) (l := (s.mm m).mmap)
  have hbelow : ∀ p ∈ (s.mm m).mmap.takeWhile fun p => decide ((s.area p).vmEnd ≤ start),
      hi s p ≤ start.toNat := by
    intro p hp
    have hp' := mem_takeWhile_imp hp
    exact of_decide_eq_true hp'
  have hnot := head?_dropWhile_not (fun p => decide ((s.area p).vmEnd ≤ start)) (s.mm m).mmap
  have hrest := h.ordered.sublist
    (dropWhile_sublist fun p => decide ((s.area p).vmEnd ≤ start))
  unfold findVmaIntersection
  dsimp only
  rw [hre.area, hfst]
  cases hd : (s.mm m).mmap.dropWhile fun p => decide ((s.area p).vmEnd ≤ start) with
  | nil =>
    refine ⟨fun _ p hp => Or.inl (hbelow p ?_), fun _ => rfl⟩
    rw [← hsplit, hd, append_nil] at hp
    exact hp
  | cons r rest =>
    rw [hd] at hnot hrest hsplit
    have hr : ¬ hi s r ≤ start.toNat := of_decide_eq_false hnot
    obtain ⟨hlt, hle, _⟩ := ordered_cons.mp hrest
    rw [head?_cons, Option.filter_some]
    constructor
    · intro hnone p hp
      have hstop : stop.toNat ≤ lo s r := by
        by_contra hnle
        have hlt' : ¬ stop ≤ (s.area r).vmStart := hnle
        rw [decide_eq_false hlt'] at hnone
        cases hnone
      rw [← hsplit, mem_append] at hp
      rcases hp with hp | hp
      · exact Or.inl (hbelow p hp)
      · right
        rcases mem_cons.mp hp with rfl | hp
        · exact hstop
        · have := hle p hp
          omega
    · intro hclear
      have hr' : r ∈ (s.mm m).mmap := by
        rw [← hsplit]
        exact mem_append_right _ mem_cons_self
      have hstop : stop ≤ (s.area r).vmStart := (hclear r hr').resolve_left hr
      rw [if_neg (by simpa using hstop)]

end

/-! ## The area cache -/

section

variable {s : State σ}

/-- The states that sequences of calls and of lookups lead to from `s₀`. -/
inductive Searched (ops : PageOps σ) (s₀ : State σ) : State σ → Prop where
  | refl : Searched ops s₀ s₀
  | step {s s' : State σ} (e : Event) : Searched ops s₀ s → e.Valid ops s →
      step ops s e = some s' → Searched ops s₀ s'
  | find {s : State σ} (m : ℕ) (addr : BitVec 32) : Searched ops s₀ s →
      Searched ops s₀ (findVma s m addr).2
  | intersect {s : State σ} (m : ℕ) (start stop : BitVec 32) : Searched ops s₀ s →
      Searched ops s₀ (findVmaIntersection s m start stop).2

theorem Reachable.searched {ops : PageOps σ} {s₀ : State σ} (h : Reachable ops s₀ s) :
    Searched ops s₀ s := by
  induction h with
  | refl => exact Searched.refl
  | step e _ he heq ih => exact ih.step e he heq

/-- A lookup keeps the invariant. -/
theorem Inv.findVma (h : Inv s) (m : ℕ) (addr : BitVec 32) : Inv (findVma s m addr).2 := by
  have hre := (findVma_spec (h.mm m).shape.cache addr).1
  refine h.of_touches hre.touches (hre.mmOk (h.mm m)) fun q hq => ?_
  cases hq

theorem inv_searched {ops : PageOps σ} {s₀ : State σ} (h0 : Inv s₀) (h : Searched ops s₀ s) :
    Inv s := by
  induction h with
  | refl => exact h0
  | step e _ he heq ih =>
    obtain ⟨s', heq', hinv⟩ := inv_step ops ih he
    rw [heq] at heq'
    rw [Option.some.inj heq']
    exact hinv
  | find m addr _ ih => exact ih.findVma m addr
  | intersect m start _ _ ih => exact ih.findVma m start

/-- **The area cache is transparent.**  Through every sequence of calls and of lookups,
`find_vma` returns the first area of the list that ends above the address, as it does without
a cached area. -/
theorem findVma_transparent (ops : PageOps σ) (s₀ s : State σ) (h₀ : Inv s₀)
    (h : Searched ops s₀ s) (m : ℕ) (addr : BitVec 32) :
    (findVma s m addr).1 = (s.mm m).mmap.find? (fun p => decide (addr < (s.area p).vmEnd)) ∧
      (findVma s m addr).1 =
        (findVma (s.setMm m { s.mm m with mmapCache := none }) m addr).1 := by
  have hshape := ((inv_searched h₀ h).mm m).shape
  have hwalk := findVma_fst hshape.ordered hshape.cache addr
  refine ⟨?_, ?_⟩
  · rw [hwalk, find?_eq_head?_dropWhile_not]
    simp only [← decide_not, BitVec.not_lt]
  · rw [hwalk, Mmap.findVma]
    simp only [setMm_mm]
    split
    · rename_i hp
      exact hp
    · rename_i hp
      exact hp

/-- The second area is cached when the first one is looked up. -/
theorem findVma_transparent_hole :
    (findVma (findVma holeState 0 0x10002000).2 0 0x10000000).1 = some 1 :=
  (findVma_transparent noPages emptyState _ inv_emptyState
    (Searched.find 0 0x10002000 reachable_holeState.searched) 0 0x10000000).1.trans
    (by decide +kernel)

end

end Mmap

end Yap
