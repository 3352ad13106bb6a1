/-
# The contract of `sys_brk` (`mm/mmap.c`)

The call refuses and leaves the list alone, or it moves the break and the pages between the two
breaks are all mapped, or all unmapped; the areas stay in order and nothing else is unmapped.

The sums `PAGE_ALIGN(brk)` and `newbrk + PAGE_SIZE` wrap for a break in the last two pages of
the address space.  `sysBrk_contract_iff` says for which calls the contract holds:

  * the new break is below the last two pages, and the old one below the last page;
  * at the upper bound, when the call is refused or finds nothing that it could destroy.
-/
import Yap.SysBrk

namespace Yap

namespace Mmap

open Ranges List
open BitVec (eq_of_toNat_eq le_def toNat_sub_of_le toNat_add_of_lt)

variable {σ : Type} {x y flags : BitVec 32} {vma extra : Option ℕ} {p : ℕ}

/-- What `sys_brk` promises for the result `r` of a call: either nothing moves, or the pages
between the two breaks are mapped (a growing heap) or unmapped (a shrinking one); the areas are
non-empty, sorted and disjoint, and every other mapping stays. -/
structure BrkContract (s : State (σ × ZapLog)) (m : ℕ) (h : Heap) (brk : BitVec 32)
    (r : State (σ × ZapLog) × Heap × BitVec 32) : Prop where
  moves : (r.2 = (h, h.brk) ∧ SameAreas s r.1 m) ∨
    (r.2 = ({ h with brk := brk }, brk) ∧
      (∀ x, pageCeil h.brk ≤ x → x < pageCeil brk → Covers r.1 (r.1.mm m).mmap x) ∧
      ∀ x, pageCeil brk ≤ x → x < pageCeil h.brk → ¬ Covers r.1 (r.1.mm m).mmap x)
  ordered : Ordered (lo r.1) (hi r.1) (r.1.mm m).mmap
  kept : ∀ x, Covers s (s.mm m).mmap x →
    ¬ (r.2.2 = brk ∧ pageCeil brk ≤ x ∧ x < pageCeil h.brk) →
    mapping r.1 m x = mapping s m x ∧ ¬ Zapped r.1.pages x

/-- The call returns, and keeps the contract. -/
def Contract (ops : PageOps σ) (s : State σ) (m : ℕ) (h : Heap) (brk : BitVec 32)
    (extra vma : Option ℕ) : Prop :=
  ∃ r, sysBrk ops.logged s.logged m h brk extra vma = some r ∧ BrkContract s.logged m h brk r

/-- `do_brk` up to the end of the address space is refused. -/
def Refused (s : State σ) (m : ℕ) (h : Heap) (vma : Option ℕ) : Prop :=
  ¬ Clear s m (pageCeil h.brk) 4096 ∨ maxMapCount < (s.mm m).mapCount ∨
    vma = none ∧ ∀ p ∈ (s.mm m).mmap,
      ¬ ((s.area p).vmEnd = pageAlign h.brk ∧ (s.area p).vmFlags = brkFlags s m)

/-- The calls that keep the contract: the break is refused or stays in its page; it shrinks from
below the last page, or nothing is mapped above it; it grows to below the last two pages, or up
to the last page where nothing is in the way, or it is refused. -/
def BrkOk (s : State σ) (m : ℕ) (h : Heap) (brk : BitVec 32) (extra vma : Option ℕ) : Prop :=
  brk < h.endCode ∨ pageCeil brk = pageCeil h.brk ∨
    (pageCeil brk < pageCeil h.brk ∧
      (pageCeil h.brk < 2 ^ 32 ∨ Clear s m (pageCeil brk) (2 ^ 32))) ∨
    (pageCeil h.brk < pageCeil brk ∧
      (pageCeil brk + 4096 < 2 ^ 32 ∨
        (pageCeil brk + 4096 = 2 ^ 32 ∧
          (Clear s m (pageCeil h.brk) (pageCeil brk) ∨ extra = none)) ∨
        (pageCeil brk = 2 ^ 32 ∧ 0 < pageCeil h.brk ∧ Refused s m h vma)))

section

variable {s : State (σ × ZapLog)} {m : ℕ} {h : Heap} {brk : BitVec 32}

theorem lt_of_pageCeil_lt (hlt : pageCeil x < pageCeil y) : x < y := by
  rw [← BitVec.not_le]
  intro hle
  have := pageCeil_mono hle
  omega

/-- A refused call keeps the contract. -/
theorem BrkContract.out {s' : State (σ × ZapLog)} (hs : Shape s m []) (hsame : SameAreas s s' m)
    (hzap : ∀ x, ¬ Zapped s'.pages x) : BrkContract s m h brk (s', h, h.brk) :=
  ⟨Or.inl ⟨rfl, hsame⟩, hsame.ordered hs.ordered, fun x _ _ => ⟨hsame.mapping x, hzap x⟩⟩

/-- A break that moves without any change of the areas. -/
theorem brkContract_same (hs : Shape s m []) (hzap : ∀ x, ¬ Zapped s.pages x) (h : Heap)
    (brk : BitVec 32) :
    BrkContract s m h brk (s, { h with brk := brk }, brk) ↔
      (pageCeil brk = pageCeil h.brk ∨
        pageCeil brk < pageCeil h.brk ∧ Clear s m (pageCeil brk) (pageCeil h.brk) ∨
        pageCeil h.brk < pageCeil brk ∧
          ∀ x, pageCeil h.brk ≤ x → x < pageCeil brk → Covers s (s.mm m).mmap x) := by
  have hclear : pageCeil brk < pageCeil h.brk → (Clear s m (pageCeil brk) (pageCeil h.brk) ↔
      ∀ x, pageCeil brk ≤ x → x < pageCeil h.brk → ¬ Covers s (s.mm m).mmap x) := by
    intro hlt
    constructor
    · rintro hc x h1 h2 ⟨p, hp, hpx⟩
      have := hc p hp
      omega
    · intro hno p hp
      by_contra hcon
      have hlt := hs.ordered.lt p hp
      have hx := hno (max (pageCeil brk) (lo s p)) (by omega) (by omega)
      exact hx ⟨p, hp, by omega⟩
  constructor
  · intro hc
    rcases hc.moves with ⟨heq, _⟩ | ⟨_, hgrow, hshrink⟩
    · have hbrk : brk = h.brk := congrArg Prod.snd heq
      rw [hbrk]
      exact Or.inl rfl
    · rcases Nat.lt_trichotomy (pageCeil brk) (pageCeil h.brk) with hlt | heq | hlt
      · exact Or.inr (Or.inl ⟨hlt, (hclear hlt).mpr hshrink⟩)
      · exact Or.inl heq
      · exact Or.inr (Or.inr ⟨hlt, hgrow⟩)
  · intro hc
    refine ⟨Or.inr ⟨rfl, fun x h1 h2 => ?_, fun x h1 h2 => ?_⟩, hs.ordered,
      fun x _ _ => ⟨rfl, hzap x⟩⟩
    · rcases hc with heq | ⟨hlt, _⟩ | ⟨_, hgrow⟩
      · omega
      · omega
      · exact hgrow x h1 h2
    · rcases hc with heq | ⟨hlt, hcl⟩ | ⟨hlt, _⟩
      · omega
      · exact (hclear hlt).mp hcl x h1 h2
      · omega

end

/-! ### The branches of the call -/

section

variable {ops : PageOps σ} {s : State (σ × ZapLog)} {m : ℕ} {h : Heap} {brk : BitVec 32}
  {extra vma : Option ℕ}

theorem toNat_pageAlign_of_lt (hx : pageCeil x < 2 ^ 32) :
    (pageAlign x).toNat = pageCeil x := by
  rw [toNat_pageAlign, Nat.mod_eq_of_lt hx]

theorem pageAlign_of_last (hx : pageCeil x = 2 ^ 32) : pageAlign x = 0 := by
  refine eq_of_toNat_eq ?_
  rw [toNat_pageAlign, hx]
  rfl

theorem pageAlign_ne (hlt : pageCeil x < pageCeil y)
    (h : pageCeil y < 2 ^ 32 ∨ 0 < pageCeil x) : pageAlign x ≠ pageAlign y := by
  intro heq
  have heq' := congrArg BitVec.toNat heq
  have := pageCeil_le y
  rw [toNat_pageAlign, toNat_pageAlign] at heq'
  omega

theorem toNat_pageAlign_sub (hlt : pageCeil x < pageCeil y) (hy : pageCeil y < 2 ^ 32) :
    (pageAlign y - pageAlign x).toNat = pageCeil y - pageCeil x := by
  have hx' := toNat_pageAlign_of_lt (hlt.trans hy)
  have hy' := toNat_pageAlign_of_lt hy
  rw [toNat_sub_of_le (by rw [le_def]; omega), hx', hy']

theorem dvd_pageAlign_sub (x y : BitVec 32) : 4096 ∣ (pageAlign y - pageAlign x).toNat := by
  have hx := dvd_pageAlign x
  have hy := dvd_pageAlign y
  rw [BitVec.toNat_sub]
  omega

/-- Where the range between the two breaks ends. -/
theorem toNat_pageAlign_stop (hlt : pageCeil x < pageCeil y) (hy : pageCeil y < 2 ^ 32) :
    (pageAlign x).toNat + (pageAlign (pageAlign y - pageAlign x)).toNat = pageCeil y := by
  rw [pageAlign_eq_self (dvd_pageAlign_sub x y), toNat_pageAlign_sub hlt hy,
    toNat_pageAlign_of_lt (hlt.trans hy)]
  omega

theorem pageAlign_sub_ne_zero (h : pageAlign x ≠ pageAlign y) :
    pageAlign y - pageAlign x ≠ 0 := by
  intro h0
  refine h ?_
  rw [← BitVec.sub_add_cancel (pageAlign y) (pageAlign x), h0]
  exact (BitVec.zero_add _).symm

/-- The break that shrinks: `do_munmap` decides. -/
theorem sysBrk_shrink (ops : PageOps σ) (s : State σ) (m : ℕ) (extra vma : Option ℕ)
    (hcode : ¬ brk < h.endCode) (hne : pageAlign h.brk ≠ pageAlign brk) (hle : brk ≤ h.brk)
    {r : State σ × ℤ}
    (hr : doMunmap ops s m (pageAlign brk) (pageAlign h.brk - pageAlign brk) extra = some r) :
    sysBrk ops s m h brk extra vma = if r.2 = 0 then setBrk r.1 h brk else outBrk r.1 h := by
  unfold sysBrk
  rw [if_neg hcode, if_neg hne, if_pos hle, hr]

/-- When the rounded break wraps, nothing is unmapped and the break moves. -/
theorem sysBrk_shrink_wrapped (hcode : ¬ brk < h.endCode) (hlt : pageCeil brk < pageCeil h.brk)
    (hold : pageCeil h.brk = 2 ^ 32) :
    sysBrk ops.logged s m h brk extra vma = some (s, { h with brk := brk }, brk) := by
  have hzero := pageAlign_of_last hold
  by_cases hne : pageAlign h.brk = pageAlign brk
  · unfold sysBrk
    rw [if_neg hcode, if_pos hne]
    rfl
  · have hlen := pageAlign_eq_self (dvd_pageAlign_sub brk h.brk)
    have hmun : doMunmap ops.logged s m (pageAlign brk) (pageAlign h.brk - pageAlign brk) extra =
        some (s, 0) := by
      refine doMunmap_wrapped ops.logged ?_ ?_
      · rw [hlen]
        exact pageAlign_sub_ne_zero (Ne.symm hne)
      · rw [hlen, BitVec.add_comm, BitVec.sub_add_cancel, hzero]
    rw [sysBrk_shrink ops.logged s m extra vma hcode hne (BitVec.le_of_lt (lt_of_pageCeil_lt hlt)) hmun]
    rfl

/-- Whether the break moves or not, the state is the one that `do_brk` has left. -/
theorem fst_of_done {r : State σ × BitVec 32} {r' : State σ × Heap × BitVec 32}
    (hr : (if r.2 ≠ x then outBrk r.1 h else setBrk r.1 h brk) = some r') : r'.1 = r.1 := by
  split_ifs at hr <;> cases hr <;> rfl

section

variable (hs : Shape s m []) (hzap : ∀ x, ¬ Zapped s.pages x)
  (hcode : ¬ brk < h.endCode)

include hs hzap hcode

/-- The break that grows: `find_vma_intersection` moves the cache and refuses, or `do_brk`
decides. -/
theorem sysBrk_grow (ops : PageOps σ) (extra vma : Option ℕ)
    (hne : pageAlign h.brk ≠ pageAlign brk) (hlt : pageCeil h.brk < pageCeil brk) :
    ∃ s₁, Recached s s₁ m ∧ s₁.pages = s.pages ∧ BrkContract s m h brk (s₁, h, h.brk) ∧
      sysBrk ops.logged s m h brk extra vma =
        if (findVmaIntersection s m (pageAlign h.brk) (pageAlign brk + pageSize)).1.isSome then
          outBrk s₁ h
        else
          (doBrk ops.logged s₁ m (pageAlign h.brk) (pageAlign brk - pageAlign h.brk) extra vma).bind
            fun r => if r.2 ≠ pageAlign h.brk then outBrk r.1 h else setBrk r.1 h brk := by
  have hre := (findVma_spec hs.cache (pageAlign h.brk)).1
  have hpages := findVma_pages s m (pageAlign h.brk)
  refine ⟨_, hre, hpages, BrkContract.out hs hre.sameAreas fun x => ?_, ?_⟩
  · rw [hpages]
    exact hzap x
  · unfold sysBrk
    rw [if_neg hcode, if_neg hne, if_neg (BitVec.not_le.mpr (lt_of_pageCeil_lt hlt))]
    cases hdo : doBrk ops.logged (findVma s m (pageAlign h.brk)).2 m (pageAlign h.brk)
        (pageAlign brk - pageAlign h.brk) extra vma <;> simp [findVmaIntersection, vmEnoughMemory, hdo]

section

variable (hextra : ∀ q ∈ extra, q ∉ (s.mm m).mmap)

include hextra

/-- Shrinking from below the last page. -/
theorem contract_shrink (hlt : pageCeil brk < pageCeil h.brk) (hold : pageCeil h.brk < 2 ^ 32) :
    ∃ r, sysBrk ops.logged s m h brk extra vma = some r ∧ BrkContract s m h brk r := by
  have hnew := toNat_pageAlign_of_lt (show pageCeil brk < 2 ^ 32 by omega)
  have hne : pageAlign h.brk ≠ pageAlign brk := (pageAlign_ne hlt (Or.inl hold)).symm
  have hstop := toNat_pageAlign_stop hlt hold
  have hbound := hstop.trans_lt hold
  obtain ⟨s', ret, heq, _, herror, hcut, _⟩ := doMunmap_cut ops.logged hs
    (dvd_pageAlign brk) hbound hextra
  have hzap' := doMunmap_zapped hs hbound hextra heq
  rw [hstop, hnew] at hcut hzap'
  rw [sysBrk_shrink ops.logged s m extra vma hcode hne (BitVec.le_of_lt (lt_of_pageCeil_lt hlt)) heq]
  by_cases hret : ret = 0
  · rw [if_pos hret]
    obtain ⟨hclear, hcut⟩ := hcut hret
    refine ⟨_, rfl, Or.inr ⟨rfl, fun x h1 h2 => by omega, fun x h1 h2 hx => ?_⟩,
      hcut.shape.ordered, fun x hx hout => ⟨?_, fun hx' => ?_⟩⟩
    · exact ((hcut.covers x).mp hx).2 ⟨h1, h2⟩
    · rw [hcut.mapping hs x, if_neg fun hin => hout ⟨rfl, hin⟩]
    · exact hzap x (((hzap' x).mp hx').resolve_left fun hin => hout ⟨rfl, hin.2.2⟩)
  · rw [if_neg hret, herror hret]
    exact ⟨_, rfl, BrkContract.out hs (sameAreas_refl s m) hzap⟩

/-- Growing where nothing is in the way. -/
theorem contract_grow (hvma : ∀ q ∈ vma, q ∉ (s.mm m).mmap) (hlt : pageCeil h.brk < pageCeil brk)
    (hnew : pageCeil brk < 2 ^ 32) (hclear : Clear s m (pageCeil h.brk) (pageCeil brk)) :
    ∃ r, sysBrk ops.logged s m h brk extra vma = some r ∧ BrkContract s m h brk r := by
  have hold := toNat_pageAlign_of_lt (show pageCeil h.brk < 2 ^ 32 by omega)
  have hlen := toNat_pageAlign_sub hlt hnew
  obtain ⟨s1, hre, hpages, hout, hbrk⟩ := sysBrk_grow hs hzap hcode ops extra vma
    (pageAlign_ne hlt (Or.inl hnew)) hlt
  rw [hbrk]
  have hsame := hre.sameAreas
  have hshape := hre.shape hs
  split_ifs with hsome
  · exact ⟨_, rfl, hout⟩
  have hstop : (pageAlign h.brk).toNat + (pageAlign brk - pageAlign h.brk).toNat =
      pageCeil brk := by
    omega
  obtain ⟨s', r, heq, hz, hcase⟩ := doBrk_clear hshape
    (dvd_pageAlign h.brk)
    (dvd_pageAlign_sub _ _) (show 0 < (pageAlign brk - pageAlign h.brk).toNat by omega) (by omega)
    (by rw [hstop, hold]; exact hsame.clear hclear)
    (fun q hq => by rw [hsame.mmap]; exact hextra q hq)
    (fun q hq => by rw [hsame.mmap]; exact hvma q hq)
  have hz' : ∀ x, ¬ Zapped s'.pages x := by
    intro x hx
    have hx' := hz x hx
    rw [hpages] at hx'
    exact hzap x hx'
  rw [heq, Option.bind_some]
  rcases hcase with ⟨hr, hsame'⟩ | ⟨hr, hg⟩
  · rw [if_pos hr]
    exact ⟨_, rfl, BrkContract.out hs (hsame.trans hsame') hz'⟩
  · rw [if_neg (not_not.mpr hr)]
    rw [hstop, hold] at hg
    refine ⟨_, rfl, Or.inr ⟨rfl, fun x h1 h2 => ?_, fun x h1 h2 => by omega⟩, hg.shape.ordered,
      fun x hx _ => ⟨?_, hz' x⟩⟩
    · exact (hg.covers x).mpr (Or.inr ⟨h1, h2⟩)
    · rw [hg.mapping hshape ((hsame.covers x).mpr hx), hsame.mapping x]

/-- Growing to below the last two pages: what is in the way is found. -/
theorem contract_grow_below
    (hvma : Clear s m (pageCeil h.brk) (pageCeil brk) → ∀ q ∈ vma, q ∉ (s.mm m).mmap)
    (hlt : pageCeil h.brk < pageCeil brk) (hnew : pageCeil brk + 4096 < 2 ^ 32) :
    ∃ r, sysBrk ops.logged s m h brk extra vma = some r ∧ BrkContract s m h brk r := by
  have hnew' := toNat_pageAlign_of_lt (show pageCeil brk < 2 ^ 32 by omega)
  have hold := toNat_pageAlign_of_lt (show pageCeil h.brk < 2 ^ 32 by omega)
  have hstop : (pageAlign brk + pageSize).toNat = pageCeil brk + 4096 := by
    have hsize := toNat_pageSize
    rw [toNat_add_of_lt (by rw [hnew', hsize]; exact hnew), hnew', hsize]
  have hfind := findVmaIntersection_eq_none hs (pageAlign h.brk) (pageAlign brk + pageSize)
  by_cases hnone : (findVmaIntersection s m (pageAlign h.brk) (pageAlign brk + pageSize)).1 = none
  · have hclear : Clear s m (pageCeil h.brk) (pageCeil brk) := by
      intro q hq
      have := hfind.mp hnone q hq
      omega
    exact contract_grow hs hzap hcode hextra (hvma hclear) hlt (by omega) hclear
  · obtain ⟨s1, -, -, hout, hbrk⟩ := sysBrk_grow hs hzap hcode ops extra vma
      (pageAlign_ne hlt (Or.inl (show pageCeil brk < 2 ^ 32 by omega))) hlt
    rw [hbrk, if_pos (Option.isSome_iff_ne_none.mpr hnone)]
    exact ⟨_, rfl, hout⟩

/-- Growing to the last page: the intersection test compares with 0 and finds nothing, and
`do_brk` unmaps what is in the way, unless it has no memory to do so. -/
theorem contract_grow_last (hlt : pageCeil h.brk < pageCeil brk) (hnew : pageCeil brk + 4096 = 2 ^ 32)
    (hfull : ¬ Clear s m (pageCeil h.brk) (pageCeil brk)) :
    (∃ r, sysBrk ops.logged s m h brk extra vma = some r ∧ BrkContract s m h brk r) ↔
      extra = none := by
  have hnew0 : pageCeil brk < 2 ^ 32 := by omega
  have hnew' := toNat_pageAlign_of_lt hnew0
  have hold := toNat_pageAlign_of_lt (hlt.trans hnew0)
  have hne := pageAlign_ne hlt (Or.inl hnew0)
  have hlen' := pageAlign_eq_self (dvd_pageAlign_sub h.brk brk)
  have hne0 := pageAlign_sub_ne_zero hne
  have hwrap : pageAlign brk + pageSize = 0 := by
    refine eq_of_toNat_eq ?_
    have hsize := toNat_pageSize
    rw [BitVec.toNat_add, hnew', hsize, hnew]
    rfl
  have hnone := (findVmaIntersection_eq_none hs (pageAlign h.brk) (pageAlign brk + pageSize)).mpr
    (by
      rw [hwrap]
      exact fun q _ => Or.inr (Nat.zero_le _))
  obtain ⟨s1, hre, -, hout, hbrk⟩ := sysBrk_grow hs hzap hcode ops extra vma hne hlt
  rw [hbrk, hnone, if_neg (by simp)]
  have hsame := hre.sameAreas
  have hshape := hre.shape hs
  have hstop := toNat_pageAlign_stop hlt hnew0
  have hbound := hstop.trans_lt hnew0
  have hextra1 : ∀ q ∈ extra, q ∉ (s1.mm m).mmap := by
    intro q hq
    rw [hsame.mmap]
    exact hextra q hq
  obtain ⟨s2, ret, heq, _⟩ := doMunmap_cut ops.logged hshape
    (dvd_pageAlign h.brk) hbound hextra1
  have hcases := doMunmap_cases ops.logged hshape extra hbound
  have hzapped := doMunmap_zapped hshape hbound hextra1 heq
  rw [hstop, hold] at hcases hzapped
  unfold doBrk
  rw [hlen', if_neg hne0, heq]
  dsimp only
  constructor
  · rintro ⟨r, hr, hc⟩
    by_contra hsome
    -- no area ends behind the last page, so `do_munmap` succeeds
    have hret : ret = 0 := by
      rcases hcases with ⟨_, _, _, h0 | h0 | ⟨p, hp, hph⟩⟩ | ⟨heq', _⟩ | ⟨_, _, _, _, _, _, _, heq'⟩
      · exact absurd (hlen'.symm.trans h0) hne0
      · exact absurd h0 hsome
      · have hdvd := (hshape.area p (Or.inr hp)).hi_aligned
        have hlt' : hi s1 p < 2 ^ 32 := (s1.area p).vmEnd.isLt
        omega
      · cases heq.symm.trans heq'
        rfl
      · obtain ⟨_, _, hr'⟩ := Option.map_eq_some_iff.mp (heq'.symm.trans heq)
        cases hr'
        rfl
    unfold Clear at hfull
    push Not at hfull
    obtain ⟨p, hp, hphi, hplo⟩ := hfull
    have hplt := hs.ordered.lt p hp
    have hcov : Covers s (s.mm m).mmap (max (pageCeil h.brk) (lo s p)) := ⟨p, hp, by omega⟩
    have hgone : Zapped s2.pages (max (pageCeil h.brk) (lo s p)) :=
      (hzapped _).mpr (Or.inl ⟨hret, (hsame.covers _).mpr hcov, by omega⟩)
    refine (hc.kept _ hcov fun hin => by omega).2 ?_
    -- the log only grows
    have hlog : r.1.pages.2 = s2.pages.2 := by
      rw [if_neg (not_not.mpr hret)] at hr
      obtain ⟨r', hr', hdone⟩ := Option.bind_eq_some_iff.mp hr
      rw [fst_of_done hdone]
      split_ifs at hr' with hcount
      · cases hr'
        rfl
      · exact brkMap_log hr'
    rw [Zapped, hlog]
    exact hgone
  · rintro rfl
    rcases hcases with ⟨e, hret, heq', _⟩ | ⟨_, hclear⟩ | ⟨_, q, _, _, hq, _⟩
    · cases heq.symm.trans heq'
      have hne' : ret ≠ 0 := by
        rintro rfl
        omega
      have herror : BitVec.ofInt 32 ret ≠ pageAlign h.brk :=
        error_ne_page (dvd_pageAlign h.brk) hret
      rw [if_pos hne', Option.bind_some, if_pos herror]
      exact ⟨_, rfl, hout⟩
    · refine absurd (fun p hp => ?_) hfull
      have hp' := hclear p (by rw [hsame.mmap]; exact hp)
      rw [hi, lo, hsame.area p hp] at hp'
      exact hp'
    · cases hq

end

/-- Growing into the last page: the new area would end at 0, so the call keeps the contract only
when it is refused. -/
theorem contract_grow_wrapped (hold : pageCeil h.brk < 2 ^ 32) (hpos : 0 < pageCeil h.brk)
    (hnew : pageCeil brk = 2 ^ 32) :
    (∃ r, sysBrk ops.logged s m h brk extra vma = some r ∧ BrkContract s m h brk r) ↔
      Refused s m h vma := by
  have hlt : pageCeil h.brk < pageCeil brk := by omega
  have hold' := toNat_pageAlign_of_lt hold
  have hzero := pageAlign_of_last hnew
  have hne := pageAlign_ne hlt (Or.inr hpos)
  have hne0 := pageAlign_sub_ne_zero hne
  have hlen := pageAlign_eq_self (dvd_pageAlign_sub h.brk brk)
  have hwrap : pageAlign h.brk + (pageAlign brk - pageAlign h.brk) = 0 := by
    rw [BitVec.add_comm, BitVec.sub_add_cancel, hzero]
  have hsize : (pageAlign brk + pageSize).toNat = 4096 := by
    rw [hzero]
    rfl
  have hfind := findVmaIntersection_eq_none hs (pageAlign h.brk) (pageAlign brk + pageSize)
  rw [hold', hsize] at hfind
  obtain ⟨s1, hre, hpages, hout, hbrk⟩ := sysBrk_grow hs hzap hcode ops extra vma hne hlt
  rw [hbrk]
  have hsame := hre.sameAreas
  have hshape := hre.shape hs
  have hcount : (s1.mm m).mapCount = (s.mm m).mapCount := by rw [hre.mm]
  have hflags : brkFlags s1 m = brkFlags s m := by rw [brkFlags, hre.mm, brkFlags]
  have herror : (-12 : BitVec 32) ≠ pageAlign h.brk :=
    error_ne_page (dvd_pageAlign h.brk) (Or.inl rfl)
  by_cases hclear : Clear s m (pageCeil h.brk) 4096
  swap
  · rw [if_pos (Option.isSome_iff_ne_none.mpr fun hn => hclear (hfind.mp hn))]
    exact ⟨fun _ => Or.inl hclear, fun _ => ⟨_, rfl, hout⟩⟩
  rw [hfind.mpr hclear, if_neg (by simp)]
  unfold doBrk
  rw [hlen, if_neg hne0, doMunmap_wrapped ops.logged (by rw [hlen]; exact hne0)
    (by rw [hlen]; exact hwrap)]
  dsimp only
  rw [if_neg (by decide), hcount]
  by_cases hmax : maxMapCount < (s.mm m).mapCount
  · rw [if_pos hmax, Option.bind_some, if_pos herror]
    exact ⟨fun _ => Or.inr (Or.inl hmax), fun _ => ⟨_, rfl, hout⟩⟩
  rw [if_neg hmax]
  -- the search for an area to extend only moves the cache
  obtain ⟨hre', _⟩ := findExpandable_spec hshape.cache (pageAlign h.brk) (brkFlags s1 m)
  have hexp := findExpandable_ne_none hshape (pageAlign h.brk) (brkFlags s1 m)
  have hexp' : (∃ p ∈ (s1.mm m).mmap, (s1.area p).vmEnd = pageAlign h.brk ∧
      (s1.area p).vmFlags = brkFlags s1 m) ↔ ¬ ∀ p ∈ (s.mm m).mmap,
      ¬ ((s.area p).vmEnd = pageAlign h.brk ∧ (s.area p).vmFlags = brkFlags s m) := by
    rw [hre.mmap, hre.area, hflags]
    push Not
    rfl
  rw [hexp'] at hexp
  by_cases hrefused : vma = none ∧ ∀ p ∈ (s.mm m).mmap,
      ¬ ((s.area p).vmEnd = pageAlign h.brk ∧ (s.area p).vmFlags = brkFlags s m)
  · refine ⟨fun _ => Or.inr (Or.inr hrefused), fun _ => ?_⟩
    have hnone : (findExpandable s1 m (pageAlign h.brk) (brkFlags s1 m)).1 = none := by
      by_contra hn
      exact hexp.mp hn hrefused.2
    unfold brkMap
    dsimp only
    rw [hnone, hrefused.1, Option.bind_some, if_pos herror]
    refine ⟨_, rfl, BrkContract.out hs (hsame.trans hre'.sameAreas) fun x => ?_⟩
    rw [findExpandable_pages, hpages]
    exact hzap x
  · refine ⟨?_, fun hr => absurd (hr.resolve_left (not_not.mpr hclear))
      (not_or.mpr ⟨hmax, hrefused⟩)⟩
    rintro ⟨r, hr, hc⟩
    exfalso
    have hmaps : (findExpandable s1 m (pageAlign h.brk) (brkFlags s1 m)).1 ≠ none ∨ vma ≠ none := by
      by_cases hv : vma = none
      · exact Or.inl (hexp.mpr fun hall => hrefused ⟨hv, hall⟩)
      · exact Or.inr hv
    obtain ⟨r', hmap, hdone⟩ := Option.bind_eq_some_iff.mp hr
    have hbad := brkMap_wrapped ops.logged hshape hwrap hmaps hmap
    rw [← fst_of_done hdone] at hbad
    exact hbad hc.ordered

end

end

/-- **The contract of `sys_brk`**, for every well-formed address space, every break and every
outcome of the allocations: the calls that keep it are those with `BrkOk`.  The records that the
allocations return are in no list when they are asked for, the second one after the unmapping. -/
theorem sysBrk_contract_iff (ops : PageOps σ) (s : State σ) (m : ℕ) (h : Heap) (brk : BitVec 32)
    (extra vma : Option ℕ) (hs : WellFormed s m) (hextra : ∀ q ∈ extra, q ∉ (s.mm m).mmap)
    (hvma : ∀ s' r, doMunmap ops s m (pageAlign h.brk) (pageAlign brk - pageAlign h.brk) extra =
      some (s', r) → ∀ q ∈ vma, q ∉ (s'.mm m).mmap) :
    Contract ops s m h brk extra vma ↔ BrkOk s m h brk extra vma := by
  have hwf : WellFormed s.logged m := ⟨hs.nonempty, hs.sorted, hs.aligned, hs.mm, hs.cache⟩
  have hshape := hwf.shape
  have hzap := not_zapped_logged s
  unfold Contract BrkOk
  by_cases hcode : brk < h.endCode
  · refine ⟨fun _ => Or.inl hcode, fun _ => ⟨(s.logged, h, h.brk), ?_, ?_⟩⟩
    · unfold sysBrk
      rw [if_pos hcode]
      rfl
    · exact BrkContract.out hshape (sameAreas_refl _ m) hzap
  rw [or_iff_right hcode]
  by_cases heq : pageCeil brk = pageCeil h.brk
  · refine ⟨fun _ => Or.inl heq, fun _ => ⟨(s.logged, { h with brk := brk }, brk), ?_,
      (brkContract_same hshape hzap h brk).mpr (Or.inl heq)⟩⟩
    have halign : pageAlign h.brk = pageAlign brk := by
      refine eq_of_toNat_eq ?_
      rw [toNat_pageAlign, toNat_pageAlign, heq]
    unfold sysBrk
    rw [if_neg hcode, if_pos halign]
    rfl
  rw [or_iff_right heq]
  rcases Nat.lt_or_gt_of_ne heq with hlt | hlt
  · -- the heap shrinks
    rw [or_iff_left fun hgt => absurd hlt (lt_asymm hgt.1), and_iff_right hlt]
    by_cases hold : pageCeil h.brk < 2 ^ 32
    · exact ⟨fun _ => Or.inl hold, fun _ => contract_shrink hshape hzap hcode hextra hlt hold⟩
    · have hold' : pageCeil h.brk = 2 ^ 32 := le_antisymm (pageCeil_le _) (not_lt.mp hold)
      rw [or_iff_right hold, sysBrk_shrink_wrapped hcode hlt hold']
      have hsame := brkContract_same hshape hzap h brk
      rw [or_iff_right heq, or_iff_left fun hgt => absurd hlt (lt_asymm hgt.1), and_iff_right hlt,
        hold'] at hsame
      rw [← show Clear s.logged m (pageCeil brk) (2 ^ 32) ↔ Clear s m (pageCeil brk) (2 ^ 32) from
        Iff.rfl, ← hsame]
      exact ⟨fun ⟨r, hr, hc⟩ => Option.some.inj hr ▸ hc, fun hc => ⟨_, rfl, hc⟩⟩
  · -- the heap grows
    rw [or_iff_right fun hgt => absurd hlt (lt_asymm hgt.1), and_iff_right hlt]
    have hfresh : pageCeil brk < 2 ^ 32 → Clear s m (pageCeil h.brk) (pageCeil brk) →
        ∀ q ∈ vma, q ∉ (s.mm m).mmap := by
      intro hnew hclear
      have hstop := toNat_pageAlign_stop hlt hnew
      obtain ⟨r, hr, _, _, hsame⟩ := doMunmap_clear ops hs.shape
        (dvd_pageAlign h.brk) (by rw [hstop]; exact hnew)
        (by rw [hstop, toNat_pageAlign_of_lt (hlt.trans hnew)]; exact hclear) hextra
      intro q hq
      rw [← hsame.mmap]
      exact hvma r.1 r.2 hr q hq
    have hdvd := dvd_pageCeil brk
    have hle := pageCeil_le brk
    rcases Nat.lt_trichotomy (pageCeil brk + 4096) (2 ^ 32) with hnew | hnew | hnew
    · exact ⟨fun _ => Or.inl hnew, fun _ => contract_grow_below hshape hzap hcode hextra
        (hfresh (by omega)) hlt hnew⟩
    · rw [or_iff_right (by omega), or_iff_left (by omega), and_iff_right hnew]
      by_cases hclear : Clear s m (pageCeil h.brk) (pageCeil brk)
      · exact ⟨fun _ => Or.inl hclear, fun _ => contract_grow hshape hzap hcode hextra
          (hfresh (by omega) hclear) hlt (by omega) hclear⟩
      · rw [or_iff_right hclear]
        exact contract_grow_last hshape hzap hcode hextra hlt hnew hclear
    · have hnew' : pageCeil brk = 2 ^ 32 := by omega
      rw [or_iff_right (by omega), or_iff_right (by omega), and_iff_right hnew']
      by_cases hpos : 0 < pageCeil h.brk
      · rw [and_iff_right hpos]
        exact contract_grow_wrapped hshape hzap hcode (by omega) hpos hnew'
      · -- both breaks are rounded to 0, and the page of the new one cannot be mapped
        refine ⟨fun ⟨r, hr, hc⟩ => ?_, fun hr => absurd hr.1 hpos⟩
        have hzero : pageAlign h.brk = pageAlign brk := by
          rw [pageAlign_of_last hnew']
          refine eq_of_toNat_eq ?_
          rw [toNat_pageAlign, show pageCeil h.brk = 0 by omega]
          rfl
        unfold sysBrk at hr
        rw [if_neg hcode, if_pos hzero] at hr
        cases hr
        rcases (brkContract_same hshape hzap h brk).mp hc with heq' | ⟨hlt', _⟩ | ⟨_, hcov⟩
        · exact absurd heq' heq
        · exact absurd hlt (lt_asymm hlt')
        · obtain ⟨p, _, _, hp⟩ := hcov (2 ^ 32 - 1) (by omega) (by omega)
          have hlast : hi s.logged p < 2 ^ 32 := (s.area p).vmEnd.isLt
          omega

/-- Page tables for which there is no frame left. -/
def outOfFrames : PageOps Unit := { noPages with handleMmFault := fun _ _ _ _ _ => ((), -1) }

/-- A heap of one page with a mapping above it. -/
def heapAndStack : State Unit where
  area := fun p =>
    if p = 1 then ⟨0, 0x10000, 0x11000, 0x00f, 0x2077, 0⟩
    else ⟨0, 0xbfffe000, 0xc0000000, 0x00f, 0x77, 0⟩
  mm := fun n => if n = 0 then ⟨[1, 2], none, 2, 3, 1, 0⟩ else ⟨[], none, 0, 0, 0, 0⟩
  pages := ()

/-- The heap of this address space. -/
def pageHeap : Heap := ⟨0x8000, 0x10800⟩

theorem wellFormed_heapAndStack : WellFormed heapAndStack 0 :=
  ⟨by decide +kernel, by decide +kernel, by decide +kernel, by decide +kernel, by decide +kernel⟩

/-- A break at the beginning of the last page is granted, and the mapping above the heap is
gone: `newbrk + PAGE_SIZE` is 0, so the intersection test finds nothing. -/
theorem brk_to_last_page_destroys :
    ((sysBrk outOfFrames heapAndStack 0 pageHeap 0xfffff000 (some 9) none).map fun r =>
      (r.2, (r.1.mm 0).mmap, (r.1.area 1).vmEnd)) =
      some ((⟨0x8000, 0xfffff000⟩, 0xfffff000), [1], 0xfffff000) ∧
    ¬ Contract outOfFrames heapAndStack 0 pageHeap 0xfffff000 (some 9) none := by
  refine ⟨by decide +kernel, fun hc => ?_⟩
  have hwf : WellFormed heapAndStack.logged 0 :=
    ⟨wellFormed_heapAndStack.nonempty, wellFormed_heapAndStack.sorted,
      wellFormed_heapAndStack.aligned, wellFormed_heapAndStack.mm, wellFormed_heapAndStack.cache⟩
  have hfull : ¬ Clear heapAndStack.logged 0 (pageCeil pageHeap.brk) (pageCeil 0xfffff000) := by
    intro hclear
    have hstack := hclear 2 (by decide +kernel)
    revert hstack
    decide +kernel
  have hnone := (contract_grow_last hwf.shape (not_zapped_logged _) (by decide +kernel)
    (by decide) (by decide) (by decide) hfull).mp hc
  cases hnone

/-- The break moves two pages up above three areas. -/
theorem sysBrk_contract_iff_threeAreas :
    Contract noPages threeAreas 0 ⟨0, 0xa000⟩ 0xb800 (some 9) (some 10) := by
  refine (sysBrk_contract_iff noPages threeAreas 0 ⟨0, 0xa000⟩ 0xb800 (some 9) (some 10)
    wellFormed_threeAreas (by decide +kernel) ?_).mpr ?_
  · intro s' r hr q hq
    have hlist : ((doMunmap noPages threeAreas 0 (pageAlign 0xa000)
        (pageAlign 0xb800 - pageAlign 0xa000) (some 9)).map fun r => (r.1.mm 0).mmap) =
        some [1, 2, 3] := by decide +kernel
    rw [show doMunmap noPages threeAreas 0 (pageAlign 0xa000)
      (pageAlign 0xb800 - pageAlign 0xa000) (some 9) = some (s', r) from hr] at hlist
    have hlist' : (s'.mm 0).mmap = [1, 2, 3] := Option.some.inj hlist
    cases hq
    rw [hlist']
    decide
  · exact Or.inr (Or.inr (Or.inr ⟨by decide, Or.inl (by decide)⟩))

end Mmap

end Yap
