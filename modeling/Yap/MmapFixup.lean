/-
# Areas off the list: `unmap_fixup` (`mm/mmap.c`)

Inside `do_munmap` areas are off the list.  `Loose` is the invariant for an address space
whose areas are on its list or on a second one; the moves that `unmap_fixup` makes (drop an
area, trim it, insert it) are proved for it one by one.
-/
import Mathlib.Algebra.Order.Group.Nat
import Mathlib.Data.List.TakeWhile
import Yap.Masks
import Yap.Mmap

namespace Yap

namespace Mmap

open Ranges List
open BitVec (ofNat_add)

variable {σ : Type}

/-! ## Reading a changed state -/

section

variable (s : State σ) (p q m n : ℕ) (a : VmArea) (x : MmStruct)

@[simp] theorem setArea_mm : (s.setArea p a).mm = s.mm := rfl

@[simp] theorem setMm_area : (s.setMm m x).area = s.area := rfl

@[simp] theorem setArea_area : (s.setArea p a).area p = a := if_pos rfl

theorem setArea_area_of_ne (h : q ≠ p) : (s.setArea p a).area q = s.area q := if_neg h

theorem setArea_eq_self (h : s.area p = a) : s.setArea p a = s := by
  have harea : (s.setArea p a).area = s.area := by
    funext q
    by_cases hq : q = p
    · rw [hq, setArea_area, h]
    · exact setArea_area_of_ne s p q a hq
  exact congrArg (fun f => { s with area := f }) harea

@[simp] theorem setMm_mm : (s.setMm m x).mm m = x := if_pos rfl

theorem setMm_mm_of_ne (h : n ≠ m) : (s.setMm m x).mm n = s.mm n := if_neg h

end

/-- The first address of the area at `p`. -/
def lo (s : State σ) (p : ℕ) : ℕ := (s.area p).vmStart.toNat

/-- The address behind the area at `p`. -/
def hi (s : State σ) (p : ℕ) : ℕ := (s.area p).vmEnd.toNat

/-- The pages of the area at `p`, if its flags have `c`. -/
def pagesOf (c : BitVec 32 → Bool) (s : State σ) (p : ℕ) : ℕ :=
  if c (s.area p).vmFlags then (hi s p - lo s p) / 4096 else 0

/-- The pages of the areas in `l` whose flags have `c`. -/
def pagesIn (c : BitVec 32 → Bool) (s : State σ) (l : List ℕ) : ℕ := (l.map (pagesOf c s)).sum

/-- An area of `l` has the address `x`. -/
def Covers (s : State σ) (l : List ℕ) (x : ℕ) : Prop := ∃ p ∈ l, lo s p ≤ x ∧ x < hi s p

/-- The offset in its file, in pages, of the address `x` of the area at `p`. -/
def fileOffset (s : State σ) (p x : ℕ) : BitVec 32 :=
  BitVec.ofNat 32 ((x - lo s p) / 4096) + (s.area p).vmPgoff

/-- What the area at `p` gives to its address `x`: flags, protection and file offset. -/
def attrs (s : State σ) (p x : ℕ) : BitVec 32 × BitVec 32 × BitVec 32 :=
  ((s.area p).vmFlags, (s.area p).vmPageProt, fileOffset s p x)

/-- The flags have `VM_LOCKED`. -/
def isLocked (flags : BitVec 32) : Bool := decide (flags &&& vmLocked ≠ 0)

section

variable {c : BitVec 32 → Bool} {s s' : State σ} {l l' : List ℕ} {p : ℕ}

@[simp] theorem pagesIn_nil : pagesIn c s [] = 0 := rfl

@[simp] theorem pagesIn_cons : pagesIn c s (p :: l) = pagesOf c s p + pagesIn c s l := by
  simp [pagesIn]

theorem pagesIn_append : pagesIn c s (l ++ l') = pagesIn c s l + pagesIn c s l' := by
  simp [pagesIn]

theorem pagesIn_perm (h : l.Perm l') : pagesIn c s l = pagesIn c s l' := (h.map _).sum_eq

theorem pagesIn_congr (h : ∀ p ∈ l, s'.area p = s.area p) : pagesIn c s' l = pagesIn c s l := by
  unfold pagesIn
  rw [map_congr_left]
  intro p hp
  simp only [pagesOf, lo, hi, h p hp]

/-- One area of the list grows by `n` pages. -/
theorem pagesIn_update (hnd : l.Nodup) (hp : p ∈ l) (h : ∀ q ∈ l, q ≠ p → s'.area q = s.area q)
    {n : ℕ} (hn : pagesOf c s' p = pagesOf c s p + n) :
    pagesIn c s' l = pagesIn c s l + n := by
  have hperm := perm_cons_erase hp
  have hrest : pagesIn c s' (l.erase p) = pagesIn c s (l.erase p) := by
    refine pagesIn_congr fun q hq => ?_
    have hq' := (hnd.mem_erase_iff).mp hq
    exact h q hq'.2 hq'.1
  rw [pagesIn_perm hperm, pagesIn_perm hperm, pagesIn_cons, pagesIn_cons, hrest, hn]
  omega

end

/-! ## The invariant -/

/-- The area at `p` is page aligned and belongs to `m`. -/
structure AreaOk (s : State σ) (m p : ℕ) : Prop where
  lo_aligned : 4096 ∣ lo s p
  hi_aligned : 4096 ∣ hi s p
  mm : (s.area p).vmMm = m

/-- The area at `p` is copied by a fork, and its protection has bits of a table entry only. -/
structure Usual (s : State σ) (p : ℕ) : Prop where
  copied : (s.area p).vmFlags &&& vmDontcopy = 0
  prot : (s.area p).vmPageProt.toNat < 4096

/-- The areas of `m` are on its list, in order, or in `free`. -/
structure Shape (s : State σ) (m : ℕ) (free : List ℕ) : Prop where
  ordered : Ordered (lo s) (hi s) (s.mm m).mmap
  free_apart : free.Pairwise (Apart (lo s) (hi s))
  free_lt : ∀ p ∈ free, lo s p < hi s p
  apart : ∀ p ∈ free, ∀ q ∈ (s.mm m).mmap, Apart (lo s) (hi s) q p
  area : ∀ p, p ∈ free ∨ p ∈ (s.mm m).mmap → AreaOk s m p
  cache : ∀ p ∈ (s.mm m).mmapCache, p ∈ (s.mm m).mmap

/-- The counters of `m`. -/
structure Counts (s : State σ) (m : ℕ) (k : ℤ) (t l : ℕ) : Prop where
  count : (s.mm m).mapCount = k
  total : (s.mm m).totalVm = BitVec.ofNat 32 t
  locked : (s.mm m).lockedVm = BitVec.ofNat 32 l

/-- The areas of `m` are on its list or in `free`, and all of them are counted. -/
structure Loose (s : State σ) (m : ℕ) (free : List ℕ) : Prop where
  shape : Shape s m free
  usual : ∀ p, p ∈ free ∨ p ∈ (s.mm m).mmap → Usual s p
  defFlags : (s.mm m).defFlags &&& vmDontcopy = 0
  counts : Counts s m ((s.mm m).mmap.length + free.length)
    (pagesIn (fun _ => true) s (s.mm m).mmap + pagesIn (fun _ => true) s free)
    (pagesIn isLocked s (s.mm m).mmap + pagesIn isLocked s free)

/-- All areas of `m` are on its list. -/
abbrev MmOk (s : State σ) (m : ℕ) : Prop := Loose s m []

/-- The invariant of all address spaces. -/
structure Inv (s : State σ) : Prop where
  mm : ∀ m, MmOk s m
  sep : ∀ m n, m ≠ n → ∀ p ∈ (s.mm m).mmap, p ∉ (s.mm n).mmap

/-! ## Moves on the shape -/

variable {x t m q p : ℕ} {a : VmArea} {l : List ℕ} {extra : Option ℕ} {len addr stop : BitVec 32}

section

variable {s s' : State σ} {m p q : ℕ} {free : List ℕ}

theorem AreaOk.congr (h : AreaOk s m p) (ha : s'.area p = s.area p) : AreaOk s' m p := by
  obtain ⟨h1, h2, h3⟩ := h
  exact ⟨by rw [lo, ha]; exact h1, by rw [hi, ha]; exact h2, by rw [ha]; exact h3⟩

theorem Usual.congr (h : Usual s p) (ha : s'.area q = s.area p) : Usual s' q :=
  ⟨by rw [ha]; exact h.copied, by rw [ha]; exact h.prot⟩

theorem attrs_congr (ha : s'.area p = s.area p) (x : ℕ) : attrs s' p x = attrs s p x := by
  simp only [attrs, fileOffset, lo, ha]

theorem Usual.of_attrs (h : Usual s p) (ha : attrs s' q x = attrs s p x) : Usual s' q := by
  have hflags : (s'.area q).vmFlags = (s.area p).vmFlags := congrArg Prod.fst ha
  have hprot : (s'.area q).vmPageProt = (s.area p).vmPageProt :=
    congrArg (fun a => a.2.1) ha
  exact ⟨by rw [hflags]; exact h.copied, by rw [hprot]; exact h.prot⟩

/-- The shape depends on the list, the cache and the areas. -/
theorem Shape.congr (h : Shape s m free) (hl : (s'.mm m).mmap = (s.mm m).mmap)
    (hc : ∀ p ∈ (s'.mm m).mmapCache, p ∈ (s.mm m).mmap)
    (ha : ∀ p, p ∈ free ∨ p ∈ (s.mm m).mmap → s'.area p = s.area p) : Shape s' m free := by
  have hlo : ∀ p, p ∈ free ∨ p ∈ (s.mm m).mmap → lo s' p = lo s p := fun p hp => by
    rw [lo, ha p hp, lo]
  have hhi : ∀ p, p ∈ free ∨ p ∈ (s.mm m).mmap → hi s' p = hi s p := fun p hp => by
    rw [hi, ha p hp, hi]
  refine ⟨?_, ?_, ?_, ?_, ?_, ?_⟩
  · rw [hl]
    exact h.ordered.congr (fun a ha => hlo a (Or.inr ha)) (fun a ha => hhi a (Or.inr ha))
  · refine h.free_apart.imp_of_mem ?_
    intro a b ha hb hab
    rw [Apart, hlo a (Or.inl ha), hhi a (Or.inl ha), hlo b (Or.inl hb), hhi b (Or.inl hb)]
    exact hab
  · intro p hp
    rw [hlo p (Or.inl hp), hhi p (Or.inl hp)]
    exact h.free_lt p hp
  · intro p hp q hq
    rw [hl] at hq
    rw [Apart, hlo p (Or.inl hp), hhi p (Or.inl hp), hlo q (Or.inr hq), hhi q (Or.inr hq)]
    exact h.apart p hp q hq
  · intro p hp
    rw [hl] at hp
    exact (h.area p hp).congr (ha p hp)
  · rw [hl]
    exact hc

/-- An address space that differs in the cache only. -/
theorem Loose.congr (h : Loose s m free)
    (hmm : s'.mm m = { s.mm m with mmapCache := (s'.mm m).mmapCache })
    (hc : ∀ p ∈ (s'.mm m).mmapCache, p ∈ (s.mm m).mmap)
    (ha : ∀ p, p ∈ free ∨ p ∈ (s.mm m).mmap → s'.area p = s.area p) : Loose s' m free := by
  have hl : (s'.mm m).mmap = (s.mm m).mmap := by rw [hmm]
  have hpages : ∀ c, pagesIn c s' (s.mm m).mmap = pagesIn c s (s.mm m).mmap ∧
      pagesIn c s' free = pagesIn c s free := fun c =>
    ⟨pagesIn_congr fun p hp => ha p (Or.inr hp), pagesIn_congr fun p hp => ha p (Or.inl hp)⟩
  refine ⟨h.shape.congr hl hc ha, fun p hp => ?_, by rw [hmm]; exact h.defFlags, ?_⟩
  · rw [hl] at hp
    exact (h.usual p hp).congr (ha p hp)
  · obtain ⟨hcount, htotal, hlocked⟩ := h.counts
    rw [hl, (hpages _).1, (hpages _).2, (hpages _).1, (hpages _).2]
    exact ⟨by rw [hmm]; exact hcount, by rw [hmm]; exact htotal, by rw [hmm]; exact hlocked⟩

theorem Shape.not_mem (h : Shape s m free) (hp : p ∈ free) : p ∉ (s.mm m).mmap := by
  intro hmem
  have hlt := h.free_lt p hp
  rcases h.apart p hp p hmem with h' | h' <;> omega

theorem Shape.head_not_mem (h : Shape s m (p :: free)) : p ∉ free := by
  intro hp
  have := h.free_lt p mem_cons_self
  rcases (pairwise_cons.mp h.free_apart).1 p hp with h' | h' <;> omega

theorem Shape.drop (h : Shape s m (p :: free)) : Shape s m free :=
  ⟨h.ordered, h.free_apart.of_cons, fun q hq => h.free_lt q (mem_cons_of_mem _ hq),
    fun q hq => h.apart q (mem_cons_of_mem _ hq),
    fun q hq => h.area q (hq.imp_left (mem_cons_of_mem _)), h.cache⟩

/-- An area that is nowhere yet, and apart from all others. -/
theorem Shape.add (h : Shape s m free) (hl : p ∉ (s.mm m).mmap) (hf : p ∉ free)
    (hlt : a.vmStart.toNat < a.vmEnd.toNat) (hap : ∀ q, q ∈ free ∨ q ∈ (s.mm m).mmap →
      hi s q ≤ a.vmStart.toNat ∨ a.vmEnd.toNat ≤ lo s q)
    (hok : AreaOk (s.setArea p a) m p) : Shape (s.setArea p a) m (p :: free) := by
  have hne : ∀ q, q ∈ free ∨ q ∈ (s.mm m).mmap → q ≠ p := by
    rintro q hq rfl
    rcases hq with hq | hq
    · exact hf hq
    · exact hl hq
  have hold : Shape (s.setArea p a) m free :=
    h.congr rfl h.cache fun q hq => setArea_area_of_ne s p q a (hne q hq)
  have hlo : ∀ q, q ∈ free ∨ q ∈ (s.mm m).mmap → lo (s.setArea p a) q = lo s q := fun q hq => by
    rw [lo, setArea_area_of_ne s p q a (hne q hq), lo]
  have hhi : ∀ q, q ∈ free ∨ q ∈ (s.mm m).mmap → hi (s.setArea p a) q = hi s q := fun q hq => by
    rw [hi, setArea_area_of_ne s p q a (hne q hq), hi]
  have hlop : lo (s.setArea p a) p = a.vmStart.toNat := by rw [lo, setArea_area]
  have hhip : hi (s.setArea p a) p = a.vmEnd.toNat := by rw [hi, setArea_area]
  have hapart : ∀ q, q ∈ free ∨ q ∈ (s.mm m).mmap →
      Apart (lo (s.setArea p a)) (hi (s.setArea p a)) q p := by
    intro q hq
    rw [Apart, hlo q hq, hhi q hq, hlop, hhip]
    exact hap q hq
  refine ⟨hold.ordered, pairwise_cons.mpr ⟨fun q hq => (hapart q (Or.inl hq)).symm,
    hold.free_apart⟩, ?_, ?_, ?_, hold.cache⟩
  · intro q hq
    rcases mem_cons.mp hq with rfl | hq
    · rw [hlop, hhip]
      exact hlt
    · exact hold.free_lt q hq
  · intro q hq r hr
    rcases mem_cons.mp hq with rfl | hq
    · exact hapart r (Or.inr hr)
    · exact hold.apart q hq r hr
  · intro q hq
    rw [mem_cons, or_assoc] at hq
    rcases hq with rfl | hq
    · exact hok
    · exact hold.area q hq

/-- Replace an area that is off the list by a part of it. -/
theorem Shape.trim (h : Shape s m (p :: free)) (hlo : lo s p ≤ a.vmStart.toNat)
    (hhi : a.vmEnd.toNat ≤ hi s p) (hlt : a.vmStart.toNat < a.vmEnd.toNat)
    (hok : AreaOk (s.setArea p a) m p) : Shape (s.setArea p a) m (p :: free) := by
  have hfree := pairwise_cons.mp h.free_apart
  refine h.drop.add (h.not_mem mem_cons_self) h.head_not_mem hlt (fun q hq => ?_) hok
  have hap : Apart (lo s) (hi s) q p := by
    rcases hq with hq | hq
    · exact (hfree.1 q hq).symm
    · exact h.apart p mem_cons_self q hq
  rcases hap with hap | hap
  · exact Or.inl (by omega)
  · exact Or.inr (by omega)

theorem insertVmStruct_mmap (s : State σ) (m p : ℕ) :
    ((insertVmStruct s m p).mm m).mmap =
      insertWhile (fun q => decide (lo s q ≤ lo s p)) p (s.mm m).mmap := by
  rw [insertVmStruct, setMm_mm]
  congr 1

theorem insertVmStruct_perm (s : State σ) (m p : ℕ) :
    ((insertVmStruct s m p).mm m).mmap.Perm (p :: (s.mm m).mmap) := by
  rw [insertVmStruct_mmap]
  exact insertWhile_perm _ _ _

theorem insertVmStruct_mm (s : State σ) (m p : ℕ) : (insertVmStruct s m p).mm m =
    { s.mm m with
      mmap := ((insertVmStruct s m p).mm m).mmap, mapCount := (s.mm m).mapCount + 1 } := by
  rw [insertVmStruct, setMm_mm]

/-- `__insert_vm_struct` of an area that is off the list. -/
theorem Shape.insert (h : Shape s m (p :: free)) : Shape (insertVmStruct s m p) m free := by
  have hmem : ∀ q, q ∈ ((insertVmStruct s m p).mm m).mmap ↔ q = p ∨ q ∈ (s.mm m).mmap := by
    intro q
    rw [insertVmStruct_mmap, mem_insertWhile]
  have hfree := pairwise_cons.mp h.free_apart
  refine ⟨?_, hfree.2, fun q hq => h.free_lt q (mem_cons_of_mem _ hq), ?_, ?_, ?_⟩
  · rw [insertVmStruct_mmap]
    exact h.ordered.insertWhile (h.free_lt p mem_cons_self) (h.apart p mem_cons_self)
  · intro q hq r hr
    rcases (hmem r).mp hr with rfl | hr
    · exact hfree.1 q hq
    · exact h.apart q (mem_cons_of_mem _ hq) r hr
  · intro q hq
    rw [hmem] at hq
    have hq' : q ∈ p :: free ∨ q ∈ (s.mm m).mmap := by
      rw [mem_cons]
      tauto
    exact (h.area q hq').congr rfl
  · intro q hq
    rw [hmem]
    refine Or.inr (h.cache q ?_)
    simpa only [insertVmStruct, setMm_mm] using hq

end

/-! ## What an unmapping touches -/

/-- From `s` to `s'` only the address space `m` and the areas `t` change, and no others come
onto the list of `m`. -/
structure Touches (s s' : State σ) (m : ℕ) (t : List ℕ) : Prop where
  mm : ∀ n, n ≠ m → s'.mm n = s.mm n
  area : ∀ p, p ∉ t → s'.area p = s.area p
  mmap : ∀ p ∈ (s'.mm m).mmap, p ∈ (s.mm m).mmap ∨ p ∈ t

section

variable {s s' s'' : State σ} {m : ℕ} {t t' : List ℕ}

theorem Touches.trans (h : Touches s s' m t) (h' : Touches s' s'' m t') (ht : t' ⊆ t) :
    Touches s s'' m t := by
  refine ⟨fun n hn => (h'.mm n hn).trans (h.mm n hn), fun p hp => ?_, fun p hp => ?_⟩
  · rw [h'.area p (fun hp' => hp (ht hp')), h.area p hp]
  · rcases h'.mmap p hp with hp | hp
    · exact h.mmap p hp
    · exact Or.inr (ht hp)

theorem Touches.mono (h : Touches s s' m t) (ht : t ⊆ t') : Touches s s' m t' :=
  ⟨h.mm, fun p hp => h.area p (fun hp' => hp (ht hp')), fun p hp => (h.mmap p hp).imp_right (@ht p)⟩

/-- The other address spaces keep the invariant. -/
theorem Inv.of_touches (h : Inv s) (ht : Touches s s' m t) (hm : MmOk s' m)
    (hfresh : ∀ p ∈ t, ∀ n, n ≠ m → p ∉ (s.mm n).mmap) : Inv s' := by
  have hmem : ∀ p ∈ (s'.mm m).mmap, ∀ n, n ≠ m → p ∉ (s.mm n).mmap := by
    intro p hp n hn
    rcases ht.mmap p hp with hp | hp
    · exact h.sep m n (Ne.symm hn) p hp
    · exact hfresh p hp n hn
  refine ⟨fun n => ?_, fun n n' hnn p hp hp' => ?_⟩
  · by_cases hn : n = m
    · rw [hn]
      exact hm
    · have harea : ∀ p ∈ (s.mm n).mmap, s'.area p = s.area p := fun p hp =>
        ht.area p fun hpt => hfresh p hpt n hn hp
      refine (h.mm n).congr (by rw [ht.mm n hn]) ?_ fun p hp =>
        harea p (hp.resolve_left not_mem_nil)
      rw [ht.mm n hn]
      exact (h.mm n).shape.cache
  · by_cases hn : n = m
    · rw [hn] at hp hnn
      rw [ht.mm n' (Ne.symm hnn)] at hp'
      exact hmem p hp n' (Ne.symm hnn) hp'
    · rw [ht.mm n hn] at hp
      by_cases hn' : n' = m
      · rw [hn'] at hp'
        exact hmem p hp' n hn hp
      · rw [ht.mm n' hn'] at hp'
        exact h.sep n n' hnn p hp hp'

end

/-! ## Counting pages -/

/-- The pages of an aligned range are its length shifted. -/
theorem toNat_shift_page (x : BitVec 32) : (x >>> 12).toNat = x.toNat / 4096 := by
  rw [BitVec.toNat_ushiftRight, Nat.shiftRight_eq_div_pow]

theorem shift_page_eq (x : BitVec 32) : x >>> 12 = BitVec.ofNat 32 (x.toNat / 4096) := by
  rw [← toNat_shift_page, BitVec.ofNat_toNat, BitVec.setWidth_eq]

theorem ofNat_sub_shift {u : ℕ} (x : BitVec 32) (h : t = u + x.toNat / 4096) :
    BitVec.ofNat 32 t - (x >>> 12) = BitVec.ofNat 32 u := by
  rw [shift_page_eq, h, ofNat_add, BitVec.add_sub_cancel]

theorem ofNat_add_shift {u : ℕ} (x : BitVec 32) (h : u = t + x.toNat / 4096) :
    BitVec.ofNat 32 t + (x >>> 12) = BitVec.ofNat 32 u := by
  rw [shift_page_eq, h, ofNat_add]

@[simp] theorem unaccount_area (s : State σ) (m : ℕ) (flags n : BitVec 32) :
    (unaccount s m flags n).area = s.area := rfl

theorem Shape.unaccount {s : State σ} {free : List ℕ} (h : Shape s m free)
    (flags n : BitVec 32) : Shape (unaccount s m flags n) m free := by
  refine h.congr ?_ ?_ fun _ _ => rfl
  · rw [Mmap.unaccount, setMm_mm]
  · rw [Mmap.unaccount, setMm_mm]
    exact h.cache

/-! ## `unmap_fixup` -/

/-- What `unmap_fixup` does with the area at `p`, of which `len` bytes from `st` on go, the
part in `[addr, stop)`: the areas `ins` come back onto the list. -/
structure Fixed (s s' : State σ) (m p : ℕ) (addr stop st : ℕ) (len : BitVec 32)
    (free ins : List ℕ) : Prop where
  shape : Shape s' m free
  perm : (s'.mm m).mmap.Perm (ins ++ (s.mm m).mmap)
  count : (s'.mm m).mapCount = (s.mm m).mapCount + ins.length
  total : (s'.mm m).totalVm = (s.mm m).totalVm - (len >>> 12)
  locked : (s'.mm m).lockedVm =
    if isLocked (s.area p).vmFlags then (s.mm m).lockedVm - (len >>> 12) else (s.mm m).lockedVm
  area : ∀ q, q ∉ ins → s'.area q = s.area q
  other : ∀ n, n ≠ m → s'.mm n = s.mm n
  pages : ∀ c : BitVec 32 → Bool, pagesOf c s p =
    pagesIn c s' ins + if c (s.area p).vmFlags then len.toNat / 4096 else 0
  clear : ∀ q ∈ ins, hi s' q ≤ addr ∨ stop ≤ lo s' q
  covers : ∀ x, Covers s' ins x ↔
    (lo s p ≤ x ∧ x < hi s p) ∧ ¬ (st ≤ x ∧ x < st + len.toNat)
  same : ∀ q ∈ ins, ∀ x, lo s' q ≤ x → attrs s' q x = attrs s p x
  defFlags : (s'.mm m).defFlags = (s.mm m).defFlags
  pages_eq : s'.pages = s.pages

section

variable {s : State σ} {m p : ℕ} {addr stop st : ℕ} {len : BitVec 32} {free : List ℕ}

@[simp] theorem covers_nil : ¬ Covers s [] x := by
  rintro ⟨p, hp, _⟩
  cases hp

theorem covers_cons :
    Covers s (p :: l) x ↔ (lo s p ≤ x ∧ x < hi s p) ∨ Covers s l x := by
  simp [Covers]

theorem covers_append {l' : List ℕ} :
    Covers s (l ++ l') x ↔ Covers s l x ∨ Covers s l' x := by
  simp [Covers, or_and_right, exists_or]

theorem covers_congr {s' : State σ} {l' : List ℕ} (hl : ∀ p, p ∈ l ↔ p ∈ l')
    (h : ∀ p ∈ l', s'.area p = s.area p) (x : ℕ) : Covers s' l x ↔ Covers s l' x := by
  constructor
  · rintro ⟨p, hp, hx⟩
    rw [hl] at hp
    rw [lo, hi, h p hp] at hx
    exact ⟨p, hp, hx⟩
  · rintro ⟨p, hp, hx⟩
    rw [lo, hi, ← h p hp] at hx
    exact ⟨p, (hl p).mpr hp, hx⟩

theorem unaccount_locked (s : State σ) (m : ℕ) (flags n : BitVec 32) :
    ((unaccount s m flags n).mm m).lockedVm =
      if isLocked flags then (s.mm m).lockedVm - n else (s.mm m).lockedVm := by
  rw [unaccount, setMm_mm]
  simp only [isLocked, decide_eq_true_eq]

/-- The area `a` is a part of the area at `p`, outside of `[addr, stop)`. -/
structure Piece (s : State σ) (p addr stop : ℕ) (a : VmArea) : Prop where
  mm : a.vmMm = (s.area p).vmMm
  flags : a.vmFlags = (s.area p).vmFlags
  prot : a.vmPageProt = (s.area p).vmPageProt
  offset : ∀ x, a.vmStart.toNat ≤ x →
    BitVec.ofNat 32 ((x - a.vmStart.toNat) / 4096) + a.vmPgoff = fileOffset s p x
  lo : lo s p ≤ a.vmStart.toNat
  hi : a.vmEnd.toNat ≤ hi s p
  lt : a.vmStart.toNat < a.vmEnd.toNat
  lo_aligned : 4096 ∣ a.vmStart.toNat
  hi_aligned : 4096 ∣ a.vmEnd.toNat
  clear : a.vmEnd.toNat ≤ addr ∨ stop ≤ a.vmStart.toNat

theorem Piece.areaOk (h : Piece s p addr stop a) (hok : AreaOk s m p) {s₁ : State σ} :
    AreaOk (s₁.setArea q a) m q := by
  refine ⟨?_, ?_, ?_⟩
  · rw [Mmap.lo, setArea_area]
    exact h.lo_aligned
  · rw [Mmap.hi, setArea_area]
    exact h.hi_aligned
  · rw [setArea_area, h.mm]
    exact hok.mm

/-- The areas `ins` are parts of the area, and nothing else has changed but what is counted. -/
theorem fixed_of_pieces {s' : State σ} {ins : List ℕ} (hshape : Shape s' m free)
    (hperm : (s'.mm m).mmap.Perm (ins ++ (s.mm m).mmap))
    (hmm : s'.mm m = { (unaccount s m (s.area p).vmFlags (len >>> 12)).mm m with
      mmap := (s'.mm m).mmap, mapCount := (s.mm m).mapCount + ins.length })
    (hother : ∀ n, n ≠ m → s'.mm n = s.mm n) (harea : ∀ q, q ∉ ins → s'.area q = s.area q)
    (hpiece : ∀ q ∈ ins, Piece s p addr stop (s'.area q))
    (hlen : (hi s p - lo s p) / 4096 =
      (ins.map fun q => (hi s' q - lo s' q) / 4096).sum + len.toNat / 4096)
    (hcovers : ∀ x, Covers s' ins x ↔
      (lo s p ≤ x ∧ x < hi s p) ∧ ¬ (st ≤ x ∧ x < st + len.toNat))
    (hpages : s'.pages = s.pages) : Fixed s s' m p addr stop st len free ins := by
  refine ⟨hshape, hperm, ?_, ?_, ?_, harea, hother, fun c => ?_, fun q hq => (hpiece q hq).clear,
    hcovers, fun q hq x hx => ?_, ?_, hpages⟩
  · rw [hmm]
  · rw [hmm, unaccount, setMm_mm]
  · rw [hmm]
    exact unaccount_locked _ _ _ _
  · have hsum : pagesIn c s' ins = if c (s.area p).vmFlags then
        (ins.map fun q => (hi s' q - lo s' q) / 4096).sum else 0 := by
      have hmap : ins.map (pagesOf c s') = ins.map fun q =>
          if c (s.area p).vmFlags then (hi s' q - lo s' q) / 4096 else 0 := by
        refine map_congr_left fun q hq => ?_
        rw [pagesOf, (hpiece q hq).flags]
      rw [pagesIn, hmap]
      split_ifs <;> simp
    rw [hsum, pagesOf, hlen]
    split_ifs <;> rfl
  · rw [attrs, attrs, fileOffset, (hpiece q hq).flags, (hpiece q hq).prot,
      ← (hpiece q hq).offset x hx]
    rfl
  · rw [hmm, unaccount, setMm_mm]

/-- The whole area goes. -/
theorem fixed_whole (h : Shape s m (p :: free)) (hst : st = lo s p)
    (hlen : hi s p = lo s p + len.toNat) :
    Fixed s (unaccount s m (s.area p).vmFlags (len >>> 12)) m p addr stop st len free [] := by
  refine fixed_of_pieces (h.unaccount _ _).drop ?_ ?_ (fun n hn => setMm_mm_of_ne _ _ _ _ hn)
    (fun _ _ => rfl) (fun q hq => by cases hq) ?_ (fun x => ?_) rfl
  · rw [unaccount, setMm_mm]
    exact List.Perm.refl _
  · simp [unaccount]
  · rw [hlen, Nat.add_sub_cancel_left]
    exact (Nat.zero_add _).symm
  · refine iff_of_false covers_nil ?_
    omega

/-- A part `a` of the area stays. -/
theorem fixed_trim (h : Shape s m (p :: free)) (ha : Piece s p addr stop a)
    (hlen : (hi s p - lo s p) / 4096 =
      (a.vmEnd.toNat - a.vmStart.toNat) / 4096 + len.toNat / 4096)
    (hcovers : ∀ x, (a.vmStart.toNat ≤ x ∧ x < a.vmEnd.toNat) ↔
      (lo s p ≤ x ∧ x < hi s p) ∧ ¬ (st ≤ x ∧ x < st + len.toNat)) :
    Fixed s (insertVmStruct ((unaccount s m (s.area p).vmFlags (len >>> 12)).setArea p a) m p)
      m p addr stop st len free [p] := by
  have hok := h.area p (Or.inl mem_cons_self)
  set s1 := unaccount s m (s.area p).vmFlags (len >>> 12) with hs1
  set s' := insertVmStruct (s1.setArea p a) m p with hs'
  have harea : s'.area p = a := setArea_area _ _ _
  refine fixed_of_pieces ((h.unaccount _ _).trim ha.lo ha.hi ha.lt (ha.areaOk hok)).insert ?_ ?_
    (fun n hn => ?_) (fun q hq => setArea_area_of_ne _ _ _ _ (by simpa using hq)) ?_ ?_
    (fun x => ?_) rfl
  · refine (insertVmStruct_perm _ _ _).trans ?_
    rw [setArea_mm, hs1, unaccount, setMm_mm]
    exact List.Perm.refl _
  · rw [hs', insertVmStruct_mm, setArea_mm, hs1, unaccount, setMm_mm]
    rfl
  · rw [hs', insertVmStruct, setMm_mm_of_ne _ _ _ _ hn]
    exact setMm_mm_of_ne _ _ _ _ hn
  · rw [forall_mem_singleton, harea]
    exact ha
  · simp only [map_cons, map_nil, sum_cons, sum_nil, lo, hi, harea]
    exact hlen
  · rw [covers_cons, lo, hi, harea, ← hcovers x]
    exact or_iff_left covers_nil

theorem setArea_comm {b : VmArea} (s : State σ) (hqp : q ≠ p) :
    (s.setArea q b).setArea p a = (s.setArea p a).setArea q b := by
  unfold State.setArea
  congr 1
  funext r
  by_cases hp : r = p
  · subst hp
    simp [Ne.symm hqp]
  · simp [hp]

/-- A hole: `ap` and `aq` stay, the second at the new address `q`. -/
theorem fixed_hole {ap aq : VmArea} (h : Shape s m (p :: free)) (hq : q ∉ (s.mm m).mmap)
    (hq' : q ∉ p :: free) (hp : Piece s p addr stop ap) (hpq : Piece s p addr stop aq)
    (hlo : ap.vmStart.toNat = lo s p) (hhi : aq.vmEnd.toNat = hi s p)
    (hst : ap.vmEnd.toNat = st) (hen : aq.vmStart.toNat = st + len.toNat)
    (hlen : (hi s p - lo s p) / 4096 = (ap.vmEnd.toNat - lo s p) / 4096 +
      (hi s p - aq.vmStart.toNat) / 4096 + len.toNat / 4096) :
    Fixed s (insertVmStruct (insertVmStruct
        (((unaccount s m (s.area p).vmFlags (len >>> 12)).setArea q aq).setArea p ap) m q) m p)
      m p addr stop st len free [p, q] := by
  have hok := h.area p (Or.inl mem_cons_self)
  have hqp : q ≠ p := fun heq => hq' (by rw [heq]; exact mem_cons_self)
  rw [setArea_comm _ hqp]
  set s1 := (unaccount s m (s.area p).vmFlags (len >>> 12)).setArea p ap with hs1
  set s2 := s1.setArea q aq with hs2
  set s' := insertVmStruct (insertVmStruct s2 m q) m p with hs'
  have hmm1 : (s1.mm m).mmap = (s.mm m).mmap := by rw [hs1, setArea_mm, unaccount, setMm_mm]
  have hp1 : s1.area p = ap := setArea_area _ _ _
  have hother1 : ∀ r, r ≠ p → s1.area r = s.area r := fun r hr => setArea_area_of_ne _ _ _ _ hr
  have hp' : s'.area p = ap := (setArea_area_of_ne _ _ _ _ (Ne.symm hqp)).trans hp1
  have hq2 : s'.area q = aq := setArea_area _ _ _
  -- the first part replaces the area, the second is new
  have hshape : Shape s2 m (q :: p :: free) := by
    refine ((h.unaccount _ _).trim hp.lo hp.hi hp.lt (hp.areaOk hok)).add ?_ hq' hpq.lt
      (fun r hr => ?_) (hpq.areaOk hok)
    · rw [hmm1]
      exact hq
    · rw [hmm1] at hr
      by_cases hrp : r = p
      · left
        rw [hrp, hi, hp1]
        omega
      · have hap : Apart (lo s) (hi s) r p := by
          rcases hr with hr | hr
          · exact ((pairwise_cons.mp h.free_apart).1 r
              ((mem_cons.mp hr).resolve_left hrp)).symm
          · exact h.apart p mem_cons_self r hr
        have hlow := hpq.lo
        rw [hi, lo, hother1 r hrp]
        rcases hap with hap | hap
        · exact Or.inl (hap.trans hlow)
        · exact Or.inr (hhi.le.trans hap)
  refine fixed_of_pieces hshape.insert.insert ?_ ?_ (fun n hn => ?_) (fun r hr => ?_) ?_ ?_
    (fun x => ?_) rfl
  · refine (insertVmStruct_perm _ _ _).trans (List.Perm.cons p ?_)
    refine (insertVmStruct_perm _ _ _).trans ?_
    rw [hs2, setArea_mm, hmm1]
    exact List.Perm.refl _
  · rw [hs', insertVmStruct_mm, insertVmStruct_mm, hs2, setArea_mm, hs1, setArea_mm, unaccount,
      setMm_mm]
    simp [add_assoc]
  · rw [hs', insertVmStruct, setMm_mm_of_ne _ _ _ _ hn, insertVmStruct,
      setMm_mm_of_ne _ _ _ _ hn]
    exact setMm_mm_of_ne _ _ _ _ hn
  · rw [mem_cons, mem_singleton, not_or] at hr
    exact (setArea_area_of_ne _ _ _ _ hr.2).trans (hother1 r hr.1)
  · rw [forall_mem_cons, forall_mem_singleton, hp', hq2]
    exact ⟨hp, hpq⟩
  · simp only [map_cons, map_nil, sum_cons, sum_nil, lo, hi, hp', hq2]
    rw [hlo, hhi]
    exact hlen
  · have hnil : ¬ Covers s' [] x := covers_nil
    have hlt := hp.lt
    have hlt' := hpq.lt
    rw [covers_cons, covers_cons, or_iff_left hnil, lo, hi, lo, hi, hp', hq2]
    omega

/-- The file offsets of an area whose start moves by whole pages. -/
theorem offset_moved {start stop pgoff : BitVec 32} (hle : start.toNat ≤ stop.toNat)
    (hstart : 4096 ∣ start.toNat) (hstop : 4096 ∣ stop.toNat) (hx : stop.toNat ≤ x) :
    BitVec.ofNat 32 ((x - stop.toNat) / 4096) + (pgoff + ((stop - start) >>> 12)) =
      BitVec.ofNat 32 ((x - start.toNat) / 4096) + pgoff := by
  have hshift : (stop - start) >>> 12 = BitVec.ofNat 32 ((stop.toNat - start.toNat) / 4096) := by
    rw [shift_page_eq, BitVec.toNat_sub_of_le hle]
  have hsum : (x - start.toNat) / 4096 =
      (x - stop.toNat) / 4096 + (stop.toNat - start.toNat) / 4096 := by omega
  rw [hshift, hsum, ofNat_add, BitVec.add_comm pgoff, BitVec.add_assoc]

/-- `unmap_fixup` for a page-aligned part `[st, st + len)` of the area at `p`, where `st` is
the lower bound of the area or `addr`, and the end is the upper bound or `stop`. -/
theorem unmapFixup_spec {st : BitVec 32} (h : Shape s m (p :: free)) (hst : lo s p ≤ st.toNat)
    (hadd : (st + len).toNat = st.toNat + len.toNat) (hen : st.toNat + len.toNat ≤ hi s p)
    (hal : 4096 ∣ st.toNat) (hlen : 4096 ∣ len.toNat) (hleft : st.toNat = lo s p ∨ st.toNat = addr)
    (hright : st.toNat + len.toNat = hi s p ∨ st.toNat + len.toNat = stop)
    (hextra : lo s p < st.toNat → st.toNat + len.toNat < hi s p →
      ∃ q, extra = some q ∧ q ∉ (s.mm m).mmap ∧ q ∉ p :: free) :
    ∃ s' extra' ins, unmapFixup s m p st len extra = some (s', extra') ∧
      Fixed s s' m p addr stop st.toNat len free ins ∧ ins ⊆ p :: extra.toList ∧
      (extra' = extra ∧ ins ⊆ [p] ∨ lo s p < st.toNat ∧ st.toNat + len.toNat < hi s p) := by
  have hok := h.area p (Or.inl mem_cons_self)
  obtain ⟨j, hj⟩ := hok.hi_aligned
  obtain ⟨k, hk⟩ := hal
  obtain ⟨l, hl⟩ := hlen
  have hstart : st = (s.area p).vmStart ↔ st.toNat = lo s p := by
    rw [lo, BitVec.toNat_inj]
  have hend : st + len = (s.area p).vmEnd ↔ st.toNat + len.toNat = hi s p := by
    rw [hi, ← hadd, BitVec.toNat_inj]
  unfold unmapFixup
  simp only [hstart, hend, hok.mm]
  by_cases hs : st.toNat = lo s p
  · by_cases he : st.toNat + len.toNat = hi s p
    · rw [if_pos ⟨hs, he⟩]
      exact ⟨_, extra, [], rfl, fixed_whole h hs (by omega), by simp, Or.inl ⟨rfl, by simp⟩⟩
    · rw [if_neg (fun hand => he hand.2), if_neg he, if_pos hs]
      refine ⟨_, extra, [p], rfl, ?_, by simp, Or.inl ⟨rfl, by simp⟩⟩
      have hstop : lo s p ≤ (st + len).toNat := by omega
      have hstop4 : 4096 ∣ (st + len).toNat := ⟨k + l, by omega⟩
      refine fixed_trim h ⟨hok.mm.symm, rfl, rfl,
        fun x hx => offset_moved hstop hok.lo_aligned hstop4 hx, hstop, Nat.le_refl _, ?_, hstop4,
        hok.hi_aligned, ?_⟩ ?_ ?_
      all_goals simp only [hadd]
      · show st.toNat + len.toNat < hi s p
        omega
      · exact Or.inr (hright.resolve_left he).ge
      · show (hi s p - lo s p) / 4096 = (hi s p - (st.toNat + len.toNat)) / 4096 + _
        omega
      · intro x
        show (_ ∧ x < hi s p) ↔ _
        omega
  · by_cases he : st.toNat + len.toNat = hi s p
    · rw [if_neg (fun hand => hs hand.1), if_pos he]
      refine ⟨_, extra, [p], rfl, ?_, by simp, Or.inl ⟨rfl, by simp⟩⟩
      refine fixed_trim h ⟨hok.mm.symm, rfl, rfl, fun _ _ => rfl, Nat.le_refl _, ?_, ?_,
        hok.lo_aligned, ⟨k, hk⟩, Or.inl (hleft.resolve_left hs).le⟩ ?_ ?_
      · show st.toNat ≤ hi s p
        omega
      · show lo s p < st.toNat
        omega
      · show (hi s p - lo s p) / 4096 = (st.toNat - lo s p) / 4096 + _
        omega
      · intro x
        show (lo s p ≤ x ∧ x < st.toNat) ↔ _
        omega
    · obtain ⟨q, rfl, hq, hq'⟩ := hextra (by omega) (by omega)
      rw [if_neg (fun hand => hs hand.1), if_neg he, if_neg hs]
      refine ⟨_, none, [p, q], rfl, ?_, by simp, Or.inr (by omega)⟩
      have hstop : lo s p ≤ (st + len).toNat := by omega
      have hstop4 : 4096 ∣ (st + len).toNat := ⟨k + l, by omega⟩
      refine fixed_hole h hq hq' ⟨hok.mm.symm, rfl, rfl, fun _ _ => rfl, Nat.le_refl _, ?_, ?_,
        hok.lo_aligned, ⟨k, hk⟩, Or.inl (hleft.resolve_left hs).le⟩ ⟨hok.mm.symm, rfl, rfl,
        fun x hx => offset_moved hstop hok.lo_aligned hstop4 hx, hstop, Nat.le_refl _, ?_, hstop4,
        hok.hi_aligned, ?_⟩ rfl rfl rfl hadd ?_
      all_goals simp only [hadd]
      · show st.toNat ≤ hi s p
        omega
      · show lo s p < st.toNat
        omega
      · show st.toNat + len.toNat < hi s p
        omega
      · exact Or.inr (hright.resolve_left he).ge
      · omega

end

end Mmap

end Yap
