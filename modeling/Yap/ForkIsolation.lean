/-
# Fork isolation (`proc/fork.c`)

The child of a fork has the areas and the pages of its parent and shares no frame with it
(`ForkIsolated`), if the parent's mappings are private and no walk strays.
-/
import Yap.ForkCopy

namespace Yap

namespace Paging

open Mmap Ranges List

variable {α : Type} {qs : List ℕ}

/-- An address space of private mappings: each section that an area reaches into is empty in
the kernel's directory, and has a table, nothing or the entry that `pmd_clear` leaves in that of
`m`; each page of an area is absent or has its own frame. -/
structure ForkSpace (M : Machine α) (A : ℕ → Prop) (s : State (Pages α)) (m : ℕ) : Prop where
  inv : Inv s
  pages : PagesOk M A s.pages
  cow : ∀ p ∈ (s.mm m).mmap, (s.area p).vmFlags &&& (vmShared ||| vmMaywrite) = vmMaywrite
  sections : ∀ x, Covers s (s.mm m).mmap x → M.tlbBase (x / 2 ^ 20) = 0 ∧
    (s.pages.pgd m (x / 2 ^ 20) = 0 ∨ s.pages.pgd m (x / 2 ^ 20) = setPmd 0 ∨
      ∃ t, HasTable M s.pages m (x / 2 ^ 20) t)
  stored : ∀ k t, Covers s (s.mm m).mmap (4096 * k) → HasTable M s.pages m (k / 256) t →
    Stored (s.pages.mem t (k % 256))
  inside : s.pages.fault = false

/-- None of these sections has been cleared: it has a table or nothing. -/
structure PrivateSpace (M : Machine α) (A : ℕ → Prop) (s : State (Pages α)) (m : ℕ) : Prop
    extends ForkSpace M A s m where
  uncleared : ∀ x, Covers s (s.mm m).mmap x → s.pages.pgd m (x / 2 ^ 20) ≠ setPmd 0

/-- The child `m'` has the areas and the pages of its parent `m`, and shares no frame. -/
structure ForkIsolated (M : Machine α) (s s' : State (Pages α)) (m m' : ℕ) (ret : ℤ) : Prop where
  ret : ret = 0
  inside : s'.pages.fault = false
  ranges : (s'.mm m').mmap.map (fun p => (lo s' p, hi s' p)) =
    (s.mm m).mmap.map fun p => (lo s p, hi s p)
  parent : ∀ k f, Maps M s'.pages m k f ↔ Maps M s.pages m k f
  kept : ∀ k f, Maps M s.pages m k f → s'.pages.mem f = s.pages.mem f
  present : ∀ k, (∃ f, Maps M s'.pages m' k f) ↔
    Covers s (s.mm m).mmap (4096 * k) ∧ ∃ f, Maps M s.pages m k f
  contents : ∀ k f f', Maps M s'.pages m k f → Maps M s'.pages m' k f' →
    s'.pages.mem f' = s'.pages.mem f
  separate : ∀ k k' f, Maps M s'.pages m k f → ¬ Maps M s'.pages m' k' f
  counted : ∀ k f, Maps M s'.pages m k f ∨ Maps M s'.pages m' k f → s'.pages.count f = 1

section

variable {M : Machine α} {A : ℕ → Prop} {s : State (Pages α)} {m m' : ℕ}

/-- The walk over an area without cleared sections can leave the directory only. -/
theorem PrivateSpace.leavesDirectory {p : ℕ} (h : PrivateSpace M A s m) (hp : p ∈ (s.mm m).mmap)
    (hs : Strays s.pages m (s.area p)) : LeavesDirectory s.pages m (s.area p).vmEnd :=
  hs.resolve_right fun ⟨x, hx1, hx2, hc⟩ => h.uncleared x ⟨p, hp, hx1, hx2⟩ hc

/-- A new directory has no tables, so that nothing has been copied yet. -/
theorem copying_mmInit {g₀ g : Pages α} (h : PagesOk M A g) (hne : m' ≠ m)
    (hinit : mmInit M g m' = some g₀) (hfault : g.fault = false) :
    Copying M (fun n => A n ∨ n = m') g₀ m m' (fun i => M.tlbBase i = 0) (fun _ => False) g₀ ∧
      g₀.pgd m = g.pgd m ∧ g₀.mem = g.mem := by
  rw [mmInit, Option.map_eq_some_iff] at hinit
  obtain ⟨a, hblock, rfl⟩ := hinit
  have hchild : ∀ i, (if m' = m' then M.tlbBase i else g.pgd m' i) = M.tlbBase i :=
    fun i => if_pos rfl
  set g₀ : Pages α := { g with
    free := a, pgd := fun n i => if n = m' then M.tlbBase i else g.pgd n i } with hg0
  have hpgd : ∀ n, n ≠ m' → g₀.pgd n = g.pgd n := by
    intro n hn
    funext i
    exact if_neg hn
  have hdir : ∀ i, g₀.pgd m' i = M.tlbBase i := hchild
  have hnone : ∀ i t, ¬ HasTable M g₀ m' i t := by
    intro i t ht
    have h0 := ht.ne_zero
    have hbad := ht.good
    rw [hdir] at h0 hbad
    exact (M.tlbBase_section i).elim h0 hbad
  have hless : ∀ x f, Holds M (fun n => A n ∨ n = m') g₀ x f → Holds M A g x f := by
    intro x f hx
    cases x with
    | table n i =>
      have hn : n ≠ m' := by
        rintro rfl
        exact hnone i f hx.2
      exact ⟨hx.1.resolve_right hn, hx.2.congr (by rw [hpgd n hn])⟩
    | page n k =>
      obtain ⟨hA, t, ht, he⟩ := hx
      have hn : n ≠ m' := by
        rintro rfl
        exact hnone _ t ht
      exact ⟨hA.resolve_right hn, t, ht.congr (by rw [hpgd n hn]), he⟩
  have hok : PagesOk M (fun n => A n ∨ n = m') g₀ :=
    ⟨h.held.mono hless (M.pool.free_after_block hblock), fun hx => h.used (hless _ _ hx),
      fun hp => h.free (M.pool.free_after_block hblock _ hp)⟩
  refine ⟨⟨hok, rfl, fun _ _ _ => rfl, ?_, fun _ _ hk => hk.elim, ?_, ?_, hfault⟩,
    hpgd m (Ne.symm hne), rfl⟩
  · rintro k f ⟨t, ht, _⟩
    exact absurd ht (hnone _ t)
  · intro i hi
    exact Or.inl ((hdir i).trans hi)
  · intro k hk _
    exact Or.inl ((hdir _).trans hk)

/-- The pages that `copy_mm` copies when its allocations succeed. -/
theorem copyMm_pages {g₀ : Pages α} (hok : MmOk s m) (hne : m' ≠ m)
    (hinit : mmInit M s.pages m' = some g₀) (hlen : (s.mm m).mmap.length ≤ qs.length)
    (hfresh : ∀ q ∈ qs, q ∉ (s.mm m).mmap) :
    (copyMm (pageOps M) s m' m (qs.map some)).1.pages = (copyAreas (pageOps M) m' m g₀
        ((s.mm m).mmap.map fun p => childArea m' (s.area p))).1 ∧
      (copyMm (pageOps M) s m' m (qs.map some)).2 = (copyAreas (pageOps M) m' m g₀
        ((s.mm m).mmap.map fun p => childArea m' (s.area p))).2 := by
  have hinit' : (pageOps M).mmInit (s.setMm m' (s.mm m)).pages m' = some g₀ := hinit
  unfold copyMm dupMmap
  simp only [hinit']
  rw [setMm_mm_of_ne _ _ _ _ (Ne.symm hne)]
  have hlist : ((s.setMm m' (s.mm m)).mm m).mmap = (s.mm m).mmap := by
    rw [setMm_mm_of_ne _ _ _ _ (Ne.symm hne)]
  rw [hlist]
  exact dupMmapLoop_pages (pageOps M) (fun p hp => (hok.usual p (Or.inr hp)).copied) hlen
    hfresh

theorem Maps.unique {g : Pages α} {f' : ℕ} (h : Maps M g m k f) (h' : Maps M g m k f') :
    f = f' := by
  obtain ⟨t, ht, he⟩ := h
  obtain ⟨t', ht', he'⟩ := h'
  rw [ht'.unique ht] at he'
  exact he.unique he'

theorem childArea_private {a : VmArea} (h : PrivateArea a) : PrivateArea (childArea m' a) := by
  refine ⟨?_, h.prot⟩
  show a.vmFlags &&& ~~~vmLocked &&& (vmShared ||| vmMaywrite) = vmMaywrite
  rw [BitVec.and_assoc]
  exact h.cow

/-- The pages of an area are the pages that its range covers. -/
theorem covers_page {l : List ℕ} (hl : ∀ p ∈ l, 4096 ∣ lo s p ∧ 4096 ∣ hi s p) :
    Covers s l (4096 * k) ↔
      ∃ a ∈ l.map fun p => childArea m' (s.area p), startOf a / 4096 ≤ k ∧ k < endOf a / 4096 := by
  constructor
  · rintro ⟨p, hp, h1, h2⟩
    have := hl p hp
    refine ⟨_, List.mem_map.mpr ⟨p, hp, rfl⟩, ?_⟩
    show (s.area p).vmStart.toNat / 4096 ≤ k ∧ k < (s.area p).vmEnd.toNat / 4096
    unfold lo hi at *
    omega
  · rintro ⟨a, ha, hk⟩
    obtain ⟨p, hp, rfl⟩ := List.mem_map.mp ha
    have := hl p hp
    refine ⟨p, hp, ?_⟩
    change (s.area p).vmStart.toNat / 4096 ≤ k ∧ k < (s.area p).vmEnd.toNat / 4096 at hk
    unfold lo hi at *
    omega

section

variable (hm : A m) (hne : m' ≠ m) (h : ForkSpace M A s m)
  (hlen : (s.mm m).mmap.length ≤ qs.length) (hfresh : ∀ q ∈ qs, q ∉ (s.mm m).mmap)
  (hinit : (M.pool.allocBlock s.pages.free).isSome)

include hm hne h hlen hfresh hinit

/-- `copy_mm` when there are records for the areas and a directory: there is no frame for a table,
the walk goes astray, or the pages of all areas are copied or one of them is shared. -/
theorem copyMm_walk :
    ∃ g₀, g₀.pgd m = s.pages.pgd m ∧ g₀.mem = s.pages.mem ∧ g₀.failed = s.pages.failed ∧
      WalkEnds (∃ p ∈ (s.mm m).mmap, Strays s.pages m (s.area p))
        (Walking M (fun n => A n ∨ n = m') g₀ m m' (fun i => M.tlbBase i = 0)
          fun k => Covers s (s.mm m).mmap (4096 * k))
        ((copyMm (pageOps M) s m' m (qs.map some)).1.pages,
          (copyMm (pageOps M) s m' m (qs.map some)).2) := by
  obtain ⟨a, hblock⟩ := Option.isSome_iff_exists.mp hinit
  obtain ⟨g₀, hinit'⟩ : ∃ g₀, mmInit M s.pages m' = some g₀ := by
    rw [mmInit, hblock]
    exact ⟨_, rfl⟩
  obtain ⟨hstart, hpgd, hmem⟩ := copying_mmInit h.pages hne hinit' h.inside
  obtain ⟨hpages, hret⟩ := copyMm_pages (h.inv.mm m) hne hinit' hlen hfresh
  have hshape := (h.inv.mm m).shape
  have haligned : ∀ p ∈ (s.mm m).mmap, 4096 ∣ lo s p ∧ 4096 ∣ hi s p := fun p hp =>
    ⟨(hshape.area p (Or.inr hp)).lo_aligned, (hshape.area p (Or.inr hp)).hi_aligned⟩
  have htable : ∀ i t, HasTable M g₀ m i t ↔ HasTable M s.pages m i t :=
    fun i t => hasTable_congr (by rw [hpgd])
  have hareas := (walkInv_walking (A := fun n => A n ∨ n = m') (Or.inl hm) (Or.inr rfl) hne).areas
    (Or.inl ⟨rfl, hstart⟩)
    (show Ordered startOf endOf ((s.mm m).mmap.map fun p => childArea m' (s.area p)) from
      ⟨pairwise_map.mpr hshape.ordered.pairwise,
        List.forall_mem_map.mpr hshape.ordered.lt⟩)
    (List.forall_mem_map.mpr fun p hp =>
      childArea_private ⟨h.cow p hp, ((h.inv.mm m).usual p (Or.inr hp)).prot⟩)
    (List.forall_mem_map.mpr haligned) (fun _ _ _ _ _ => id)
    (List.forall_mem_map.mpr fun p hp x hx1 hx2 => by
      rw [hpgd]
      simp only [htable]
      exact h.sections x ⟨p, hp, hx1, hx2⟩)
    (List.forall_mem_map.mpr fun p hp k t hk1 hk2 ht => by
      rw [hmem]
      refine h.stored k t ?_ ((htable _ t).mp ht)
      exact (covers_page haligned).mpr ⟨_, List.mem_map.mpr ⟨p, hp, rfl⟩, hk1, hk2⟩)
  have hleave : (∃ a ∈ (s.mm m).mmap.map fun p => childArea m' (s.area p), Strays g₀ m a) ↔
      ∃ p ∈ (s.mm m).mmap, Strays s.pages m (s.area p) := by
    unfold Strays LeavesDirectory LeavesTables
    rw [hpgd]
    simp only [mem_map, exists_exists_and_eq_and]
    rfl
  have hdone : (fun k => False ∨ ∃ a ∈ (s.mm m).mmap.map fun p => childArea m' (s.area p),
      startOf a / 4096 ≤ k ∧ k < endOf a / 4096) =
        fun k => Covers s (s.mm m).mmap (4096 * k) := by
    funext k
    rw [covers_page haligned, false_or]
  have hfailed : g₀.failed = s.pages.failed := by
    rw [mmInit, Option.map_eq_some_iff] at hinit'
    obtain ⟨b, _, rfl⟩ := hinit'
    rfl
  refine ⟨g₀, hpgd, hmem, hfailed, ?_⟩
  rw [hdone, hleave] at hareas
  rw [hpages, hret]
  exact hareas

end

/-- **Fork isolation.**  When every allocation of `copy_mm` succeeds, the child is an isolated
copy of its parent, unless an area reaches into the last section of the address space while the
parent has no table there, or into a section that has been cleared. -/
theorem fork_isolated_iff (M : Machine α) (A : ℕ → Prop) (s : State (Pages α)) (m m' : ℕ)
    (qs : List ℕ) (hm : A m) (hne : m' ≠ m) (h : ForkSpace M A s m) (hnodup : qs.Nodup)
    (hlen : (s.mm m).mmap.length ≤ qs.length) (hfresh : ∀ q ∈ qs, ∀ n, q ∉ (s.mm n).mmap)
    (hinit : (M.pool.allocBlock s.pages.free).isSome)
    (hfailed : (copyMm (pageOps M) s m' m (qs.map some)).1.pages.failed = false) :
    ForkIsolated M s (copyMm (pageOps M) s m' m (qs.map some)).1 m m'
        (copyMm (pageOps M) s m' m (qs.map some)).2 ↔
      ∀ p ∈ (s.mm m).mmap, ¬ Strays s.pages m (s.area p) := by
  obtain ⟨g₀, hpgd, hmem, _, hcases⟩ := copyMm_walk hm hne h hlen (fun q hq => hfresh q hq m) hinit
  have hmaps : ∀ k f, Maps M g₀ m k f ↔ Maps M s.pages m k f := fun k f => maps_congr hpgd hmem
  rcases hcases with ⟨_, hfail⟩ | ⟨⟨p, hp, hl⟩, hfault⟩ | ⟨hstay, hret, ⟨_, hcopied⟩ | ⟨hfail, _⟩⟩
  · rw [hfailed] at hfail
    cases hfail
  · refine iff_of_false (fun hiso => ?_) fun hstay => hstay p hp hl
    rw [hiso.inside] at hfault
    cases hfault
  · refine iff_of_true ?_ fun p hp hl => hstay ⟨p, hp, hl⟩
    have hfilter : (qs.map some).filterMap id = qs := by simp
    obtain ⟨_, C, hC⟩ := copyMm_spec (pageOps M) h.inv hne (by rw [hfilter]; exact hnodup)
      (by rw [hfilter]; exact hfresh) hret
    have hparent : ∀ k f, Maps M (copyMm (pageOps M) s m' m (qs.map some)).1.pages m k f ↔
        Maps M s.pages m k f := fun k f => hcopied.maps_parent.trans (hmaps k f)
    refine ⟨hret, hcopied.fault, ?_, hparent, fun k f hf => ?_, fun k => ⟨?_, ?_⟩, ?_, ?_, ?_⟩
    · rw [hC.mm]
      exact hC.ranges
    · rw [hcopied.frames (.page m k) f ⟨rfl, (hmaps k f).mpr hf⟩, hmem]
    · rintro ⟨f, hf⟩
      obtain ⟨hk, f₀, hf₀, _⟩ := hcopied.maps k f hf
      exact ⟨hk, f₀, (hmaps k f₀).mp hf₀⟩
    · rintro ⟨hk, f₀, hf₀⟩
      exact hcopied.has k f₀ hk ((hmaps k f₀).mpr hf₀)
    · intro k f f' hf hf'
      obtain ⟨_, f₀, hf₀, hsame⟩ := hcopied.maps k f' hf'
      have hf₁ := hcopied.maps_parent.mp hf
      rw [hsame, hf₀.unique hf₁, hcopied.frames (.page m k) f ⟨rfl, hf₁⟩]
    · intro k k' f hf hf'
      have hslot : Slot.page m k = .page m' k' :=
        hcopied.ok.held.unique ⟨Or.inl hm, hf⟩ ⟨Or.inr rfl, hf'⟩
      exact hne (Slot.page.inj hslot).1.symm
    · rintro k f (hf | hf)
      · exact (hcopied.ok.used (x := .page m k) ⟨Or.inl hm, hf⟩).1
      · exact (hcopied.ok.used (x := .page m' k) ⟨Or.inr rfl, hf⟩).1
  · rw [hfailed] at hfail
    cases hfail

end

/-- The task with one page is forked. -/
def forkedPage : State (Pages (List ℕ)) × ℤ :=
  copyMm (pageOps smallMachine) firstPage 1 0 [some 2]

theorem covers_firstPage {x : ℕ} (hx : Covers firstPage (firstPage.mm 0).mmap x) :
    x / 4096 = 0x10000 := by
  obtain ⟨p, hp, h1, h2⟩ := hx
  rw [firstPage_mmap, if_pos rfl, mem_singleton] at hp
  rw [hp] at h1 h2
  have hlo : lo firstPage 1 = 0x10000000 := by decide +kernel
  have hhi : hi firstPage 1 = 0x10001000 := by decide +kernel
  omega

theorem hasTable_firstPage : HasTable smallMachine firstPage.pages 0 0x100 0x30001 :=
  ⟨by decide, by decide +kernel, by decide +kernel, by decide⟩

theorem privateSpace_firstPage : PrivateSpace smallMachine (fun _ => True) firstPage 0 := by
  have hspace := spaceOk_run (spaceOk_of_empty (m := 0) (inv_of_empty fun _ => rfl)
    pagesOk_smallState rfl) trivial unusedRun_firstPage
  have htable : ∀ x, Covers firstPage (firstPage.mm 0).mmap x →
      HasTable smallMachine firstPage.pages 0 (x / 2 ^ 20) 0x30001 := by
    intro x hx
    have hpage := covers_firstPage hx
    rw [show x / 2 ^ 20 = 0x100 by omega]
    exact hasTable_firstPage
  refine ⟨⟨hspace.inv, hspace.pages, fun p hp => ?_,
    fun x hx => ⟨rfl, Or.inr (Or.inr ⟨_, htable x hx⟩)⟩, fun k t hk ht => ?_, by decide +kernel⟩,
    fun x hx => (htable x hx).ne_cleared⟩
  · rw [firstPage_mmap, if_pos rfl, mem_singleton] at hp
    rw [hp]
    decide +kernel
  · have hpage := covers_firstPage hk
    rw [show k / 256 = 0x100 by omega] at ht
    rw [ht.unique hasTable_firstPage, show k % 256 = 0 by omega]
    right
    decide +kernel

theorem fork_isolated_iff_first_page :
    ForkIsolated smallMachine firstPage forkedPage.1 0 1 forkedPage.2 := by
  refine (fork_isolated_iff smallMachine (fun _ => True) firstPage 0 1 [2] trivial (by decide)
    privateSpace_firstPage.toForkSpace (by decide) (by decide +kernel) (fun q hq n => ?_)
    (by decide +kernel) (by decide +kernel)).mpr fun p hp hl => ?_
  · rw [mem_singleton] at hq
    rw [hq, firstPage_mmap]
    split_ifs <;> decide
  · have hleave := privateSpace_firstPage.leavesDirectory hp hl
    rw [firstPage_mmap, if_pos rfl, mem_singleton] at hp
    rw [hp] at hleave
    exact absurd hleave.1 (by decide +kernel)

/-- A page at `0xfff00000` that is absent. -/
def lastSection : State (Pages (List ℕ)) where
  area := fun _ => ⟨0, 0xfff00000, 0xfff01000, 0x00f, 0x2077, 0⟩
  mm := fun n => if n = 0 then ⟨[1], none, 1, 1, 1, 0⟩ else ⟨[], none, 0, 0, 0, 0⟩
  pages := smallState.pages

theorem inv_lastSection : Inv lastSection := by
  have hlo : 4096 ∣ (0xfff00000 : BitVec 32).toNat := by decide
  have hhi : 4096 ∣ (0xfff01000 : BitVec 32).toNat := by decide
  have hcopied : (0x2077 : BitVec 32) &&& vmDontcopy = 0 := by decide
  have hdef : (0 : BitVec 32) &&& vmDontcopy = 0 := by decide
  have hprot : (0x00f : BitVec 32).toNat < 4096 := by decide
  refine ⟨fun n => ?_, fun n l hnl p hp hp' => ?_⟩
  · cases n with
    | zero =>
      refine ⟨⟨ordered_cons.mpr ⟨by decide, by simp, ordered_nil⟩, List.Pairwise.nil, by simp,
        by simp, fun _ _ => ⟨hlo, hhi, rfl⟩, ?_⟩, fun _ _ => ⟨hcopied, hprot⟩, hdef, rfl, rfl,
        rfl⟩
      intro p hp
      cases hp
    | succ n =>
      refine ⟨⟨ordered_nil, List.Pairwise.nil, by simp, by simp, ?_, ?_⟩, ?_, hdef, rfl, rfl, rfl⟩
      · rintro p (hp | hp) <;> cases hp
      · intro p hp
        cases hp
      · rintro p (hp | hp) <;> cases hp
  · -- only the address space 0 has areas
    cases n with
    | zero =>
      cases l with
      | zero => exact hnl rfl
      | succ l => cases hp'
    | succ n => cases hp

theorem privateSpace_lastSection : PrivateSpace smallMachine (fun _ => True) lastSection 0 := by
  have hcow : (0x2077 : BitVec 32) &&& (vmShared ||| vmMaywrite) = vmMaywrite := by decide
  exact ⟨⟨inv_lastSection, pagesOk_smallState, fun _ _ => hcow, fun _ _ => ⟨rfl, Or.inl rfl⟩,
    fun _ _ _ ht => absurd rfl ht.ne_zero, rfl⟩,
    fun _ _ => (by decide : (0 : BitVec 32) ≠ setPmd 0)⟩

/-- **The walk leaves the directory.**  One absent page in the last section: all allocations
succeed, and `copy_page_range` goes on behind the last entry of the parent's directory. -/
theorem last_section_not_isolated : PrivateSpace smallMachine (fun _ => True) lastSection 0 ∧
    (copyMm (pageOps smallMachine) lastSection 1 0 [some 2]).1.pages.failed = false ∧
    (copyMm (pageOps smallMachine) lastSection 1 0 [some 2]).1.pages.fault = true ∧
    ¬ ForkIsolated smallMachine lastSection (copyMm (pageOps smallMachine) lastSection 1 0
      [some 2]).1 0 1 (copyMm (pageOps smallMachine) lastSection 1 0 [some 2]).2 := by
  have hfault : (copyMm (pageOps smallMachine) lastSection 1 0 [some 2]).1.pages.fault = true := by
    decide +kernel
  refine ⟨privateSpace_lastSection, by decide +kernel, hfault, fun hiso => ?_⟩
  rw [hiso.inside] at hfault
  cases hfault

end Paging

end Yap
