/-
# The list with a new range: `do_brk` (`mm/mmap.c`)

`do_brk` unmaps the range, and then maps it as an area of its own or makes the area before it
longer.
-/
import Yap.MmapUnmap

namespace Yap

namespace Mmap

open Ranges List
open BitVec (lt_def eq_of_toNat_eq toNat_add_of_lt)

variable {σ : Type} {x q p : ℕ} {a : VmArea} {l : List ℕ} {extra : Option ℕ}
variable {len addr stop : BitVec 32} {C : ℕ → ℕ → Prop} {g g' : σ} {ops : PageOps σ}

section

variable {s s' : State σ} {m : ℕ} (ops)

/-- A state in which only the cache of `m` differs. -/
structure Recached (s s' : State σ) (m : ℕ) : Prop where
  area : s'.area = s.area
  other : ∀ n, n ≠ m → s'.mm n = s.mm n
  mm : s'.mm m = { s.mm m with mmapCache := (s'.mm m).mmapCache }
  cache : ∀ p ∈ (s'.mm m).mmapCache, p ∈ (s.mm m).mmap

theorem Recached.mmap (h : Recached s s' m) : (s'.mm m).mmap = (s.mm m).mmap := by rw [h.mm]

theorem Recached.touches (h : Recached s s' m) : Touches s s' m [] :=
  ⟨h.other, fun p _ => by rw [h.area], fun p hp => Or.inl (by rw [← h.mmap]; exact hp)⟩

theorem Recached.shape (h : Recached s s' m) {free : List ℕ} (hs : Shape s m free) :
    Shape s' m free :=
  hs.congr h.mmap h.cache fun p _ => by rw [h.area]

theorem Recached.mmOk (h : Recached s s' m) (hs : MmOk s m) : MmOk s' m :=
  hs.congr h.mm h.cache fun p _ => by rw [h.area]

/-- The list of `m` and its areas are as they were. -/
structure SameAreas (s s' : State σ) (m : ℕ) : Prop where
  mmap : (s'.mm m).mmap = (s.mm m).mmap
  area : ∀ p ∈ (s.mm m).mmap, s'.area p = s.area p

theorem sameAreas_refl (s : State σ) (m : ℕ) : SameAreas s s m := ⟨rfl, fun _ _ => rfl⟩

theorem SameAreas.trans {s'' : State σ} (h : SameAreas s s' m) (h' : SameAreas s' s'' m) :
    SameAreas s s'' m := by
  refine ⟨h'.mmap.trans h.mmap, fun p hp => ?_⟩
  rw [h'.area p (by rw [h.mmap]; exact hp), h.area p hp]

theorem Recached.sameAreas (h : Recached s s' m) : SameAreas s s' m :=
  ⟨h.mmap, fun p _ => by rw [h.area]⟩

theorem SameAreas.covers (h : SameAreas s s' m) (x : ℕ) :
    Covers s' (s'.mm m).mmap x ↔ Covers s (s.mm m).mmap x :=
  covers_congr (fun p => by rw [h.mmap]) h.area x

theorem SameAreas.clear (h : SameAreas s s' m) {addr stop : ℕ} (hc : Clear s m addr stop) :
    Clear s' m addr stop := by
  intro q hq
  rw [h.mmap] at hq
  rw [hi, lo, h.area q hq]
  exact hc q hq

theorem SameAreas.ordered (h : SameAreas s s' m) (ho : Ordered (lo s) (hi s) (s.mm m).mmap) :
    Ordered (lo s') (hi s') (s'.mm m).mmap := by
  rw [h.mmap]
  exact ho.congr (fun p hp => by rw [lo, h.area p hp, lo]) fun p hp => by rw [hi, h.area p hp, hi]

/-- The range `[addr, stop)` is mapped, and every address that was mapped has what it had. -/
structure Grown (s s' : State σ) (m addr stop : ℕ) : Prop where
  shape : Shape s' m []
  covers : ∀ x, Covers s' (s'.mm m).mmap x ↔ Covers s (s.mm m).mmap x ∨ addr ≤ x ∧ x < stop
  same : ∀ q ∈ (s'.mm m).mmap, ∀ p ∈ (s.mm m).mmap, ∀ x, lo s' q ≤ x ∧ x < hi s' q →
    lo s p ≤ x ∧ x < hi s p → attrs s' q x = attrs s p x

theorem Grown.congr {s₁ s₂ : State σ} {addr stop : ℕ} (h : Grown s₁ s₂ m addr stop)
    (h1 : SameAreas s s₁ m) (h2 : SameAreas s₂ s' m) (hs : Shape s' m []) :
    Grown s s' m addr stop := by
  refine ⟨hs, fun x => ?_, fun q hq p hp x hqx hpx => ?_⟩
  · rw [h2.covers x, h.covers x, h1.covers x]
  · rw [h2.mmap] at hq
    rw [lo, hi, h2.area q hq] at hqx
    rw [attrs_congr (h2.area q hq), h.same q hq p (by rw [h1.mmap]; exact hp) x hqx
      (by rw [lo, hi, h1.area p hp]; exact hpx)]
    exact attrs_congr (h1.area p hp) x

/-- `find_vma` returns an area of the list. -/
theorem findVma_spec (hcache : ∀ p ∈ (s.mm m).mmapCache, p ∈ (s.mm m).mmap) (addr : BitVec 32) :
    Recached s (findVma s m addr).2 m ∧ ∀ p ∈ (findVma s m addr).1, p ∈ (s.mm m).mmap := by
  have hself : Recached s s m := ⟨rfl, fun _ _ => rfl, rfl, hcache⟩
  have hcached : ∀ p ∈ (s.mm m).mmapCache, ∀ q ∈ some p, q ∈ (s.mm m).mmap := by
    intro p hp q hq
    rw [Option.mem_some_iff] at hq
    rw [← hq]
    exact hcache p hp
  unfold findVma
  dsimp only
  -- what the walk over the list finds
  cases hd : ((s.mm m).mmap.dropWhile fun p => decide ((s.area p).vmEnd ≤ addr)).head? with
  | none =>
    have hnone : ∀ p ∈ (none : Option ℕ), p ∈ (s.mm m).mmap := fun p hp => by cases hp
    split
    · rename_i p hp
      split_ifs
      · exact ⟨hself, hcached p hp⟩
      · exact ⟨hself, hnone⟩
    · exact ⟨hself, hnone⟩
  | some r =>
    have hr : r ∈ (s.mm m).mmap :=
      (dropWhile_sublist _).subset (mem_of_mem_head? hd)
    have hfound : ∀ p ∈ some r, p ∈ (s.mm m).mmap := by
      intro p hp
      rw [Option.mem_some_iff] at hp
      rw [← hp]
      exact hr
    have hre : Recached s (s.setMm m { s.mm m with mmapCache := some r }) m := by
      refine ⟨rfl, fun n hn => setMm_mm_of_ne _ _ _ _ hn, ?_, ?_⟩
      · simp only [setMm_mm]
      · simp only [setMm_mm]
        exact hfound
    split
    · rename_i p hp
      split_ifs
      · exact ⟨hself, hcached p hp⟩
      · exact ⟨hre, hfound⟩
    · exact ⟨hre, hfound⟩

theorem findVma_pages (s : State σ) (m : ℕ) (addr : BitVec 32) :
    (findVma s m addr).2.pages = s.pages := by
  unfold findVma
  dsimp only
  split
  · split_ifs
    · rfl
    · split <;> rfl
  · split <;> rfl

section

variable (hord : Ordered (lo s) (hi s) (s.mm m).mmap)

include hord

/-- The walk over the list stops at the area that contains `addr`. -/
theorem walk_covering (hp : p ∈ (s.mm m).mmap)
    (hlo : lo s p ≤ addr.toNat) (hhi : addr.toNat < hi s p) :
    ((s.mm m).mmap.dropWhile fun p => decide ((s.area p).vmEnd ≤ addr)).head? = some p := by
  have hsplit := takeWhile_append_dropWhile (p := fun p => decide ((s.area p).vmEnd ≤ addr))
    (l := (s.mm m).mmap)
  have hnot := head?_dropWhile_not (fun p => decide ((s.area p).vmEnd ≤ addr)) (s.mm m).mmap
  rw [← hsplit, mem_append] at hp
  have hp := hp.resolve_left fun htake => by
    have hle : (s.area p).vmEnd ≤ addr := by simpa using mem_takeWhile_imp htake
    exact Nat.not_le_of_lt hhi hle
  have hord := hord.sublist (dropWhile_sublist fun p => decide ((s.area p).vmEnd ≤ addr))
  cases hd : (s.mm m).mmap.dropWhile fun p => decide ((s.area p).vmEnd ≤ addr) with
  | nil =>
    rw [hd] at hp
    cases hp
  | cons q rest =>
    rw [hd] at hp hord hnot
    rcases mem_cons.mp hp with rfl | hp
    · rfl
    · have hle := (ordered_cons.mp hord).2.1 p hp
      have hq : ¬ hi s q ≤ addr.toNat := of_decide_eq_false hnot
      omega

/-- The cache of `find_vma` is a shortcut: the walk finds the same area. -/
theorem findVma_fst (hcache : ∀ p ∈ (s.mm m).mmapCache, p ∈ (s.mm m).mmap) (addr : BitVec 32) :
    (findVma s m addr).1 =
      ((s.mm m).mmap.dropWhile fun p => decide ((s.area p).vmEnd ≤ addr)).head? := by
  unfold findVma
  dsimp only
  split
  · rename_i q hq
    split_ifs with hin
    · exact (walk_covering hord (hcache q hq) hin.2 hin.1).symm
    · cases List.head? _ <;> rfl
  · cases List.head? _ <;> rfl

/-- `find_vma` finds the area that contains `addr`. -/
theorem findVma_covering
    (hcache : ∀ p ∈ (s.mm m).mmapCache, p ∈ (s.mm m).mmap) (hp : p ∈ (s.mm m).mmap)
    (hlo : lo s p ≤ addr.toNat) (hhi : addr.toNat < hi s p) :
    (findVma s m addr).1 = some p := by
  rw [findVma_fst hord hcache, walk_covering hord hp hlo hhi]

end

/-- The pages of `[addr, stop)` are made present, for writing, as pages of some area. -/
def Populated (ops : PageOps σ) (g g' : σ) (m : ℕ) (addr stop : BitVec 32) : Prop :=
  ∃ vma, vma.vmPageProt.toNat < 4096 ∧
    g' = presentLoop ops m vma true stop ((stop - addr).toNat / 4096 + 1) addr g

/-- The new pages are added to the counters of `m`. -/
def accounted (s : State σ) (m : ℕ) (len : BitVec 32) : State σ :=
  s.setMm m
    { s.mm m with
      totalVm := (s.mm m).totalVm + (len >>> 12)
      lockedVm := (s.mm m).lockedVm + (len >>> 12) }

variable {flags : BitVec 32} {n : ℕ} {vma : Option ℕ}

/-- `do_brk` at `out:` for a locked area. -/
theorem brkOut_locked (s : State σ) (m : ℕ) (addr len : BitVec 32)
    (hflags : flags &&& vmLocked ≠ 0) :
    brkOut ops s m addr len flags =
      (makePagesPresent ops (accounted s m len) m addr (addr + len)).map fun s => (s, addr) := by
  unfold brkOut accounted
  dsimp only
  rw [if_pos hflags]
  congr 2
  rw [State.mk.injEq]
  refine ⟨rfl, funext fun n => ?_, rfl⟩
  by_cases hn : n = m
  · rw [hn, setMm_mm, setMm_mm, setMm_mm]
  · rw [setMm_mm_of_ne _ _ _ _ hn, setMm_mm_of_ne _ _ _ _ hn, setMm_mm_of_ne _ _ _ _ hn]

/-- The areas of `m` are as usual, and all but `n` of their pages are counted. -/
structure Due (s : State σ) (m n : ℕ) : Prop where
  usual : ∀ p ∈ (s.mm m).mmap, Usual s p
  defFlags : (s.mm m).defFlags &&& vmDontcopy = 0
  count : (s.mm m).mapCount = (s.mm m).mmap.length
  total : ∃ t, (s.mm m).totalVm = BitVec.ofNat 32 t ∧
    pagesIn (fun _ => true) s (s.mm m).mmap = t + n
  locked : ∃ t, (s.mm m).lockedVm = BitVec.ofNat 32 t ∧ pagesIn isLocked s (s.mm m).mmap = t + n

/-- At `out:` the areas stay as they are, and the new pages are added to the counters. -/
theorem brkOut_spec (len : BitVec 32) (h : Shape s m [])
    (hflags : flags &&& vmLocked ≠ 0) (hp : p ∈ (s.mm m).mmap) (hlo : lo s p ≤ addr.toNat)
    (hhi : addr.toNat < hi s p) :
    ∃ s', brkOut ops s m addr len flags = some (s', addr) ∧ Shape s' m [] ∧ s'.area = s.area ∧
      (s'.mm m).mmap = (s.mm m).mmap ∧ (∀ n, n ≠ m → s'.mm n = s.mm n) ∧
      ((s.area p).vmFlags &&& vmWrite ≠ 0 → Due s m (len.toNat / 4096) →
        MmOk s' m ∧ Populated ops s.pages s'.pages m addr (addr + len)) := by
  rw [brkOut_locked ops s m addr len hflags]
  set s2 := accounted s m len
  have hmm : s2.mm m = _ := setMm_mm s m _
  have hmmap : (s2.mm m).mmap = (s.mm m).mmap := by rw [hmm]
  have hshape : Shape s2 m [] := h.congr hmmap (by rw [hmm]; exact h.cache) fun _ _ => rfl
  obtain ⟨hre, _⟩ := findVma_spec hshape.cache addr
  unfold makePagesPresent
  dsimp only
  rw [findVma_covering hshape.ordered hshape.cache (by rw [hmmap]; exact hp) hlo hhi]
  refine ⟨_, rfl, (hre.shape hshape).of_eq rfl rfl, hre.area, hre.mmap.trans hmmap,
    fun n hn => (hre.other n hn).trans (setMm_mm_of_ne _ _ _ _ hn), fun hwrite hdue => ?_⟩
  have hok : MmOk s2 m := by
    refine ⟨hshape, fun q hq => ?_, by rw [hmm]; exact hdue.defFlags, ?_, ?_, ?_⟩
    · rw [hmmap] at hq
      exact (hdue.usual q (hq.resolve_left not_mem_nil)).congr rfl
    · rw [hmm]
      simpa using hdue.count
    · obtain ⟨t, ht, hpages⟩ := hdue.total
      rw [hmm, pagesIn_nil, Nat.add_zero]
      show (s.mm m).totalVm + (len >>> 12) = _
      rw [ht]
      exact ofNat_add_shift len hpages
    · obtain ⟨t, ht, hpages⟩ := hdue.locked
      rw [hmm, pagesIn_nil, Nat.add_zero]
      show (s.mm m).lockedVm + (len >>> 12) = _
      rw [ht]
      exact ofNat_add_shift len hpages
  refine ⟨(hre.mmOk hok).of_eq rfl rfl, (findVma s2 m addr).2.area p, ?_, ?_⟩
  · rw [hre.area]
    exact (hdue.usual p hp).prot
  · dsimp only
    rw [findVma_pages, decide_eq_true (show _ ≠ _ by rw [hre.area]; exact hwrite)]
    rfl

theorem brkFlags_locked (s : State σ) (m : ℕ) : brkFlags s m &&& vmLocked ≠ 0 := by
  intro h
  have hbit := congrArg (fun x => x.getLsbD 13) h
  simp [brkFlags, vmLocked, vmMayAll, vmDataDefaultFlags] at hbit

theorem brkFlags_write (s : State σ) (m : ℕ) : brkFlags s m &&& vmWrite ≠ 0 := by
  intro h
  have hbit := congrArg (fun x => x.getLsbD 1) h
  simp [brkFlags, vmLocked, vmMayAll, vmDataDefaultFlags, vmWrite] at hbit

theorem protectionMap_lt (flags : BitVec 32) : (protectionMap flags).toNat < 4096 := by
  unfold protectionMap
  split <;> decide

theorem brkFlags_dontcopy (h : (s.mm m).defFlags &&& vmDontcopy = 0) :
    brkFlags s m &&& vmDontcopy = 0 := by
  have h1 : vmDataDefaultFlags &&& vmDontcopy = 0 := by decide
  have h2 : (vmMayAll ||| vmLocked) &&& vmDontcopy = 0 := by decide
  rw [brkFlags, BitVec.and_comm, BitVec.and_or_distrib_left, BitVec.and_or_distrib_left,
    BitVec.and_comm _ vmDataDefaultFlags, h1, BitVec.and_comm _ (s.mm m).defFlags, h,
    BitVec.and_comm, h2]
  rfl

theorem findExpandable_pages (s : State σ) (m : ℕ) (addr flags : BitVec 32) :
    (findExpandable s m addr flags).2.pages = s.pages := by
  unfold findExpandable
  split_ifs
  · exact findVma_pages _ _ _
  · rfl

theorem findExpandable_spec (hcache : ∀ p ∈ (s.mm m).mmapCache, p ∈ (s.mm m).mmap)
    (addr flags : BitVec 32) :
    Recached s (findExpandable s m addr flags).2 m ∧
      ∀ p ∈ (findExpandable s m addr flags).1,
        p ∈ (s.mm m).mmap ∧ (s.area p).vmEnd = addr ∧ (s.area p).vmFlags = flags := by
  unfold findExpandable
  split_ifs with h0
  · obtain ⟨hre, hmem⟩ := findVma_spec hcache (addr - 1)
    refine ⟨hre, fun p hp => ?_⟩
    rw [Option.mem_def, Option.filter_eq_some_iff, hre.area, decide_eq_true_eq] at hp
    exact ⟨hmem p hp.1, hp.2⟩
  · refine ⟨⟨rfl, fun _ _ => rfl, rfl, hcache⟩, ?_⟩
    intro p hp
    cases hp

theorem lo_extend (s : State σ) (p q : ℕ) (stop : BitVec 32) :
    lo (s.setArea p { s.area p with vmEnd := stop }) q = lo s q := by
  by_cases hq : q = p
  · rw [hq, lo, setArea_area, lo]
  · rw [lo, setArea_area_of_ne _ _ _ _ hq, lo]

theorem hi_extend (s : State σ) (p q : ℕ) (stop : BitVec 32) :
    hi (s.setArea p { s.area p with vmEnd := stop }) q = if q = p then stop.toNat else hi s q := by
  by_cases hq : q = p
  · rw [hq, hi, setArea_area, if_pos rfl]
  · rw [hi, setArea_area_of_ne _ _ _ _ hq, if_neg hq, hi]

/-- Extending the area at `p` into a clear range. -/
theorem Shape.extend (h : Shape s m []) (hend : (s.area p).vmEnd = addr) (hstop : 4096 ∣ stop.toNat)
    (hle : addr.toNat < stop.toNat) (hclear : Clear s m addr.toNat stop.toNat) :
    Shape (s.setArea p { s.area p with vmEnd := stop }) m [] := by
  have hend' : hi s p = addr.toNat := by rw [hi, hend]
  refine ⟨⟨h.ordered.pairwise.imp_of_mem ?_, ?_⟩, List.Pairwise.nil, ?_, ?_, ?_, h.cache⟩
  · intro a b ha hb hab
    rw [lo_extend, hi_extend]
    split_ifs with hap
    · -- what follows the area begins behind the clear range
      rw [hap] at hab
      have hb' := h.ordered.lt b hb
      rcases hclear b hb with h' | h' <;> omega
    · exact hab
  · intro a ha
    have hlt := h.ordered.lt a ha
    rw [lo_extend, hi_extend]
    split_ifs with hap
    · rw [hap] at hlt ⊢
      omega
    · exact hlt
  · intro q hq
    cases hq
  · intro q hq
    cases hq
  · intro q hq
    have hok := h.area q hq
    refine ⟨by rw [lo_extend]; exact hok.lo_aligned, ?_, ?_⟩
    · rw [hi_extend]
      split_ifs
      · exact hstop
      · exact hok.hi_aligned
    · by_cases hqp : q = p
      · rw [hqp] at hok ⊢
        rw [setArea_area]
        exact hok.mm
      · rw [setArea_area_of_ne _ _ _ _ hqp]
        exact hok.mm

/-- The area that `do_brk` extends reaches over the new range. -/
theorem grown_extend (h : Shape s m []) (hp : p ∈ (s.mm m).mmap) (hend : (s.area p).vmEnd = addr)
    (hstop : 4096 ∣ stop.toNat) (hlt : addr.toNat < stop.toNat)
    (hclear : Clear s m addr.toNat stop.toNat) :
    Grown s (s.setArea p { s.area p with vmEnd := stop }) m addr.toNat stop.toNat := by
  have hhi : hi s p = addr.toNat := by rw [hi, hend]
  have hplt := h.ordered.lt p hp
  have hshape := h.extend hend hstop hlt hclear
  set s' := s.setArea p { s.area p with vmEnd := stop }
  have hold : ∀ {q x}, lo s q ≤ x ∧ x < hi s q → lo s' q ≤ x ∧ x < hi s' q := by
    intro q x hqx
    rw [lo_extend, hi_extend]
    split_ifs with hqp
    · rw [hqp] at hqx ⊢
      omega
    · exact hqx
  refine ⟨hshape, fun x => ⟨?_, ?_⟩, ?_⟩
  · rintro ⟨q, hq, hqx⟩
    rw [lo_extend, hi_extend] at hqx
    split_ifs at hqx with hqp
    · rw [hqp] at hqx
      by_cases hx : x < addr.toNat
      · exact Or.inl ⟨p, hp, by omega⟩
      · exact Or.inr (by omega)
    · exact Or.inl ⟨q, hq, hqx⟩
  · rintro (⟨q, hq, hqx⟩ | hx)
    · exact ⟨q, hq, hold hqx⟩
    · refine ⟨p, hp, ?_⟩
      rw [lo_extend, hi_extend, if_pos rfl]
      omega
  · intro q hq r hr x hqx hrx
    rw [hshape.unique hq hr hqx (hold hrx)]
    by_cases hrp : r = p
    · rw [hrp, attrs, attrs, fileOffset, fileOffset, lo_extend, setArea_area]
    · exact attrs_congr (setArea_area_of_ne _ _ _ _ hrp) x

/-- A new area takes the new range. -/
theorem grown_insert {a : VmArea} (h : Shape s m []) (hp : p ∉ (s.mm m).mmap)
    (hlt : a.vmStart.toNat < a.vmEnd.toNat) (hclear : Clear s m a.vmStart.toNat a.vmEnd.toNat)
    (hok : AreaOk (s.setArea p a) m p) :
    Grown s (insertVmStruct (s.setArea p a) m p) m a.vmStart.toNat a.vmEnd.toNat := by
  set s' := s.setArea p a
  have hne : ∀ q ∈ (s.mm m).mmap, q ≠ p := by
    rintro q hq rfl
    exact hp hq
  have hsame : ∀ q ∈ (s.mm m).mmap, s'.area q = s.area q := fun q hq =>
    setArea_area_of_ne _ _ _ _ (hne q hq)
  have hpa : s'.area p = a := setArea_area _ _ _
  have hshape : Shape s' m [p] :=
    h.add hp not_mem_nil hlt (fun q hq => hclear q (hq.resolve_left not_mem_nil)) hok
  have hmem : ∀ q, q ∈ ((insertVmStruct s' m p).mm m).mmap ↔ q = p ∨ q ∈ (s.mm m).mmap := by
    intro q
    rw [insertVmStruct_mmap, mem_insertWhile]
    rfl
  refine ⟨hshape.insert, fun x => ⟨?_, ?_⟩, ?_⟩
  · rintro ⟨q, hq, hqx⟩
    change lo s' q ≤ x ∧ x < hi s' q at hqx
    rcases (hmem q).mp hq with rfl | hq
    · rw [lo, hi, hpa] at hqx
      exact Or.inr hqx
    · rw [lo, hi, hsame q hq] at hqx
      exact Or.inl ⟨q, hq, hqx⟩
  · rintro (⟨q, hq, hqx⟩ | hx)
    · refine ⟨q, (hmem q).mpr (Or.inr hq), ?_⟩
      change lo s' q ≤ x ∧ x < hi s' q
      rw [lo, hi, hsame q hq]
      exact hqx
    · refine ⟨p, (hmem p).mpr (Or.inl rfl), ?_⟩
      change lo s' p ≤ x ∧ x < hi s' p
      rw [lo, hi, hpa]
      exact hx
  · intro q hq r hr x hqx hrx
    change lo s' q ≤ x ∧ x < hi s' q at hqx
    rcases (hmem q).mp hq with rfl | hq
    · -- the new area is apart from the old ones
      rw [lo, hi, hpa] at hqx
      have := hclear r hr
      omega
    · rw [lo, hi, hsame q hq] at hqx
      rw [h.unique hq hr hqx hrx]
      exact attrs_congr (hsame r hr) x

/-- Pages that are new, in an area that grows or in a new area, are not counted yet. -/
theorem Loose.due {k : ℤ} (h : MmOk s m)
    (hlocked : isLocked flags = true)
    (hmm : s'.mm m = { s.mm m with mmap := (s'.mm m).mmap, mapCount := (s.mm m).mapCount + k })
    (hlen : ((s'.mm m).mmap.length : ℤ) = (s.mm m).mmap.length + k)
    (husual : ∀ p ∈ (s'.mm m).mmap, Usual s' p)
    (hpages : ∀ c : BitVec 32 → Bool, c flags = true →
      pagesIn c s' (s'.mm m).mmap = pagesIn c s (s.mm m).mmap + n) : Due s' m n := by
  obtain ⟨hcount, htotal, hlock⟩ := h.counts
  refine ⟨husual, by rw [hmm]; exact h.defFlags, ?_, ⟨_, ?_, hpages _ rfl⟩,
    ⟨_, ?_, hpages _ hlocked⟩⟩
  · rw [hlen, hmm]
    simpa using hcount
  · rw [hmm]
    simpa using htotal
  · rw [hmm]
    simpa using hlock

theorem Loose.due_extend (h : MmOk s m) (hp : p ∈ (s.mm m).mmap) (hend : (s.area p).vmEnd = addr)
    (hlocked : isLocked (s.area p).vmFlags = true) (haddr : 4096 ∣ addr.toNat)
    (hadd : (addr + len).toNat = addr.toNat + len.toNat) :
    Due (s.setArea p { s.area p with vmEnd := addr + len }) m (len.toNat / 4096) := by
  set s' := s.setArea p { s.area p with vmEnd := addr + len }
  have hpa : s'.area p = { s.area p with vmEnd := addr + len } := setArea_area _ _ _
  have hsame : ∀ q, q ≠ p → s'.area q = s.area q := fun q hq => setArea_area_of_ne _ _ _ _ hq
  refine h.due (k := 0) hlocked (by rw [add_zero]; rfl) (add_zero _).symm (fun q hq => ?_)
    fun c hc => ?_
  · have hq' := h.usual q (Or.inr hq)
    by_cases hqp : q = p
    · rw [hqp] at hq' ⊢
      exact ⟨by rw [hpa]; exact hq'.copied, by rw [hpa]; exact hq'.prot⟩
    · exact hq'.congr (hsame q hqp)
  · refine pagesIn_update h.shape.ordered.nodup hp (fun q _ hq => hsame q hq) ?_
    obtain ⟨i, hi'⟩ := (h.shape.area p (Or.inr hp)).lo_aligned
    have hlt := h.shape.ordered.lt p hp
    have hhi : hi s p = addr.toNat := by rw [hi, hend]
    have hhi' : hi s' p = addr.toNat + len.toNat := by rw [hi, hpa, hadd]
    rw [pagesOf, pagesOf, hpa, if_pos hc, if_pos hc, hhi, hhi', lo_extend]
    omega

theorem Loose.due_insert (h : MmOk s m) (hp : p ∉ (s.mm m).mmap)
    (husual : Usual (s.setArea p a) p) (hlocked : isLocked a.vmFlags = true)
    (hn : (a.vmEnd.toNat - a.vmStart.toNat) / 4096 = n) :
    Due (insertVmStruct (s.setArea p a) m p) m n := by
  set s' := insertVmStruct (s.setArea p a) m p
  have hpa : s'.area p = a := setArea_area _ _ _
  have hsame : ∀ q ∈ (s.mm m).mmap, s'.area q = s.area q := fun q hq =>
    setArea_area_of_ne _ _ _ _ fun heq => hp (heq ▸ hq)
  have hperm := insertVmStruct_perm (s.setArea p a) m p
  refine h.due hlocked (insertVmStruct_mm (s.setArea p a) m p) ?_ (fun q hq => ?_) fun c hc => ?_
  · rw [hperm.length_eq]
    simp
  · rcases mem_cons.mp (hperm.mem_iff.mp hq) with rfl | hq
    · exact husual.congr rfl
    · exact (h.usual q (Or.inr hq)).congr (hsame q hq)
  · rw [pagesIn_perm hperm, pagesIn_cons, setArea_mm, pagesIn_congr hsame, pagesOf, hi, lo, hpa,
      if_pos hc, hn, Nat.add_comm]

theorem touches_setArea : Touches s (s.setArea p a) m [p] :=
  ⟨fun _ _ => rfl, fun _ hq => setArea_area_of_ne _ _ _ _ (by simpa using hq), fun _ => Or.inl⟩

theorem touches_insert : Touches s (insertVmStruct (s.setArea p a) m p) m [p] := by
  refine ⟨fun n hn => ?_, fun q hq => ?_, fun q hq => ?_⟩
  · rw [insertVmStruct, setMm_mm_of_ne _ _ _ _ hn, setArea_mm]
  · exact setArea_area_of_ne _ _ _ _ (by simpa using hq)
  · rw [mem_singleton]
    exact (mem_cons.mp ((insertVmStruct_perm _ _ _).mem_iff.mp hq)).symm

/-- **`do_brk` in a clear range** fails and leaves the areas alone, or maps the range, in one area
that was on the list or is new. -/
theorem brkMap_spec (h : Shape s m [])
    (haddr : 4096 ∣ addr.toNat) (hlen4 : 4096 ∣ len.toNat) (hpos : 0 < len.toNat)
    (hlen : addr.toNat + len.toNat < 2 ^ 32)
    (hclear : Clear s m addr.toNat (addr.toNat + len.toNat))
    (hfresh : ∀ q ∈ vma, q ∉ (s.mm m).mmap) :
    ∃ s' r, brkMap ops s m addr len vma = some (s', r) ∧
      (r = -12 ∧ Recached s s' m ∧ s'.pages = s.pages ∨
        r = addr ∧ Grown s s' m addr.toNat (addr.toNat + len.toNat) ∧
        ∃ p, (p ∈ (s.mm m).mmap ∨ p ∈ vma) ∧ Touches s s' m [p] ∧
          (MmOk s m → MmOk s' m ∧ Populated ops s.pages s'.pages m addr (addr + len))) := by
  have hadd : (addr + len).toNat = addr.toNat + len.toNat := toNat_add_of_lt hlen
  have hstop4 : 4096 ∣ (addr + len).toNat := by
    rw [hadd]
    exact Nat.dvd_add haddr hlen4
  have hflags := brkFlags_locked s m
  have hlocked : isLocked (brkFlags s m) = true := decide_eq_true hflags
  unfold brkMap
  dsimp only
  set flags := brkFlags s m
  obtain ⟨hre, hfound⟩ := findExpandable_spec h.cache addr flags
  have hpages := findExpandable_pages s m addr flags
  set s1 := (findExpandable s m addr flags).2 with hs1
  have hsame := hre.sameAreas
  have hshape := hre.shape h
  have hclear1 : Clear s1 m addr.toNat (addr + len).toNat := by
    rw [hadd]
    exact hsame.clear hclear
  rw [← hadd]
  -- what `out:` does once the area at `p` has the range
  have hout : ∀ {s2 : State σ} {p : ℕ}, Grown s1 s2 m addr.toNat (addr + len).toNat →
      Touches s1 s2 m [p] → p ∈ (s2.mm m).mmap → lo s2 p ≤ addr.toNat →
      hi s2 p = (addr + len).toNat → (s2.area p).vmFlags = flags → s2.pages = s1.pages →
      (MmOk s1 m → Due s2 m (len.toNat / 4096)) →
      ∃ s', brkOut ops s2 m addr len flags = some (s', addr) ∧
        Grown s s' m addr.toNat (addr + len).toNat ∧ Touches s s' m [p] ∧
        (MmOk s m → MmOk s' m ∧ Populated ops s.pages s'.pages m addr (addr + len)) := by
    intro s2 p hg ht hp hlo hhi hpf hpg hdue
    obtain ⟨s', heq, hshape', harea, hmmap, hother, hok⟩ :=
      brkOut_spec ops len hg.shape hflags hp hlo (by omega)
    have htouch : Touches s2 s' m [] :=
      ⟨hother, fun q _ => by rw [harea], fun q hq => Or.inl (by rw [← hmmap]; exact hq)⟩
    refine ⟨s', heq, hg.congr hsame ⟨hmmap, fun q _ => by rw [harea]⟩ hshape',
      ((hre.touches.mono (nil_subset _)).trans ht (List.Subset.refl _)).trans htouch
        (nil_subset _), fun hmok => ?_⟩
    rw [← hpages, ← hpg]
    exact hok (by rw [hpf]; exact brkFlags_write s m) (hdue (hre.mmOk hmok))
  cases hr : (findExpandable s m addr flags).1 with
  | some p =>
    obtain ⟨hp, hend, hpf⟩ := hfound p hr
    have hp1 : p ∈ (s1.mm m).mmap := by
      rw [hre.mmap]
      exact hp
    rw [← hre.area] at hend hpf
    have hpa : (s1.setArea p { s1.area p with vmEnd := addr + len }).area p = _ :=
      setArea_area _ _ _
    obtain ⟨s', heq, hg, ht, hok⟩ :=
      hout (grown_extend hshape hp1 hend hstop4 (by omega) hclear1) touches_setArea hp1
        (by rw [lo_extend, ← hend]; exact (hshape.ordered.lt p hp1).le) (by rw [hi, hpa])
        (by rw [hpa]; exact hpf) rfl
        fun hmok => hmok.due_extend hp1 hend (by rw [hpf]; exact hlocked) haddr hadd
    exact ⟨s', addr, heq, Or.inr ⟨rfl, hg, p, Or.inl hp, ht, hok⟩⟩
  | none =>
    cases vma with
    | none => exact ⟨s1, -12, rfl, Or.inl ⟨rfl, hre, hpages⟩⟩
    | some p =>
      have hp1 : p ∉ (s1.mm m).mmap := by
        rw [hre.mmap]
        exact hfresh p rfl
      set a : VmArea := ⟨m, addr, addr + len, protectionMap flags, flags, 0⟩
      have hpa : (s1.setArea p a).area p = a := setArea_area _ _ _
      have hdef : MmOk s1 m → (s.mm m).defFlags &&& vmDontcopy = 0 := by
        intro hmok
        have hdef1 := hmok.defFlags
        rwa [hre.mm] at hdef1
      obtain ⟨s', heq, hg, ht, hok⟩ :=
        hout (grown_insert (a := a) hshape hp1 (show addr.toNat < (addr + len).toNat by omega)
            hclear1 ⟨by rw [lo, hpa]; exact haddr, by rw [hi, hpa]; exact hstop4, by rw [hpa]⟩)
          touches_insert ((insertVmStruct_perm _ _ _).mem_iff.mpr mem_cons_self)
          (congrArg (fun b => b.vmStart.toNat) hpa).le
          (congrArg (fun b => b.vmEnd.toNat) hpa) (congrArg VmArea.vmFlags hpa) rfl
          fun hmok => hmok.due_insert hp1
            ⟨by rw [hpa]; exact brkFlags_dontcopy (hdef hmok), by rw [hpa]; exact protectionMap_lt _⟩
            hlocked
            (show ((addr + len).toNat - addr.toNat) / 4096 = _ by rw [hadd, Nat.add_sub_cancel_left])
      exact ⟨s', addr, heq, Or.inr ⟨rfl, hg, p, Or.inr rfl, ht, hok⟩⟩

/-- An error code is not the address of a page. -/
theorem error_ne_page (haddr : 4096 ∣ addr.toNat) {e : ℤ}
    (he : e = -12 ∨ e = -22) : BitVec.ofInt 32 e ≠ addr := by
  rintro rfl
  rcases he with rfl | rfl <;> revert haddr <;> decide

/-- What `do_brk` does to the page tables when it returns `r`: the range is unmapped, and
populated if `r` is its address. -/
def BrkPages (ops : PageOps σ) (s s' : State σ) (m : ℕ) (addr len : BitVec 32)
    (extra : Option ℕ) (r : BitVec 32) : Prop :=
  (len = 0 ∧ s' = s) ∨ ∃ s₁ ret, doMunmap ops s m addr len extra = some (s₁, ret) ∧
    (r ≠ addr ∧ s'.pages = s₁.pages ∨ Populated ops s₁.pages s'.pages m addr (addr + len))

/-- **`do_brk` keeps the invariant.**  The record for the new area is free when it is asked
for, that is after the unmapping. -/
theorem doBrk_spec (h : Inv s) (haddr : 4096 ∣ addr.toNat)
    (hlen : addr.toNat + (pageAlign len).toNat < 2 ^ 32)
    (hextra : ∀ q ∈ extra, ∀ n, q ∉ (s.mm n).mmap)
    (hvma : ∀ s' r, doMunmap ops s m addr (pageAlign len) extra = some (s', r) →
      ∀ q ∈ vma, ∀ n, q ∉ (s'.mm n).mmap) :
    ∃ s' r, doBrk ops s m addr len extra vma = some (s', r) ∧ Inv s' ∧
      BrkPages ops s s' m addr (pageAlign len) extra r ∧
      ∀ x, Covers s' (s'.mm m).mmap x → Covers s (s.mm m).mmap x ∨
        r = addr ∧ addr.toNat ≤ x ∧ x < addr.toNat + (pageAlign len).toNat := by
  unfold doBrk
  by_cases hzero : pageAlign len = 0
  · rw [if_pos hzero]
    exact ⟨s, addr, rfl, h, Or.inl ⟨hzero, rfl⟩, fun _ hx => Or.inl hx⟩
  rw [if_neg hzero]
  obtain ⟨s1, r, heq, hinv, hclear, hret, hrec⟩ := doMunmap_spec (m := m) ops h haddr
    (show addr.toNat + (pageAlign (pageAlign len)).toNat < 2 ^ 32 by
      rw [pageAlign_pageAlign]; exact hlen) hextra
  have hless : ∀ x, Covers s1 (s1.mm m).mmap x → Covers s (s.mm m).mmap x := by
    intro x hx
    rcases hrec with rfl | hrec
    · exact hx
    · exact ((hrec.covers x).mp hx).1
  rw [heq]
  dsimp only
  have herror : ∀ e : ℤ, e = -12 ∨ e = -22 → BitVec.ofInt 32 e ≠ addr :=
    fun e he => error_ne_page haddr he
  split_ifs with hr hcount
  · exact ⟨s1, _, rfl, hinv, Or.inr ⟨s1, r, heq, Or.inl ⟨herror r (hret.resolve_left hr), rfl⟩⟩,
      fun x hx => Or.inl (hless x hx)⟩
  · exact ⟨s1, _, rfl, hinv, Or.inr ⟨s1, r, heq, Or.inl ⟨herror (-12) (Or.inl rfl), rfl⟩⟩,
      fun x hx => Or.inl (hless x hx)⟩
  · have hpos : 0 < (pageAlign len).toNat := by
      refine Nat.pos_of_ne_zero fun h0 => hzero (eq_of_toNat_eq ?_)
      rw [h0]
      rfl
    have hclear1 := hclear (not_not.mp hr)
    rw [pageAlign_pageAlign] at hclear1
    obtain ⟨s', r', heq', hcase⟩ := brkMap_spec ops (hinv.mm m).shape haddr (dvd_pageAlign len)
      hpos hlen hclear1 fun q hq => hvma s1 r heq q hq m
    rcases hcase with ⟨rfl, hre, hpages⟩ | ⟨rfl, hg, p, hfrom, htouch, hok⟩
    · refine ⟨s', -12, heq', ?_, Or.inr ⟨s1, r, heq, Or.inl ⟨herror (-12) (Or.inl rfl), hpages⟩⟩,
        fun x hx => Or.inl (hless x ((hre.sameAreas.covers x).mp hx))⟩
      exact hinv.of_touches hre.touches (hre.mmOk (hinv.mm m)) fun q hq => by cases hq
    · obtain ⟨hok, hpop⟩ := hok (hinv.mm m)
      refine ⟨s', r', heq', hinv.of_touches htouch hok fun q hq n hn => ?_,
        Or.inr ⟨s1, r, heq, Or.inr hpop⟩,
        fun x hx => ((hg.covers x).mp hx).imp (hless x) fun hx' => ⟨rfl, hx'⟩⟩
      rw [mem_singleton.mp hq]
      rcases hfrom with hp | hp
      · exact hinv.sep m n (Ne.symm hn) p hp
      · exact hvma s1 r heq p hp n

end

end Mmap

end Yap
