/-
# The slab invariant (`mm/slab.c`)

In every state of a cache the slab list is a run of full slabs followed by slabs with
free objects, of which the empty ones come last, and `firstnotfull` points at the
first slab with free objects.  The proof describes the list as `F ++ N` with `F` the
full and `N` the other slabs:

* `kmem_cache_alloc_one_tail` works on the first slab of `N` and may move the border
  between `F` and `N` behind it;
* `moveslab_partial` moves a slab from `F` to the front of `N`;
* `moveslab_free` moves a slab inside `N` to the end;
* `kmem_cache_grow` appends to `N`.

In a slab, the chain of free objects and the objects handed out partition the
indices below `num` (`SlabOk`).
-/
import Yap.Slab
import Yap.Threaded

namespace Yap

namespace Slab

open List
open Function (update_self update_of_ne)
open List (append_assoc)
open BitVec (toNat_ofNat eq_of_toNat_eq)
open Nat (mod_eq_of_lt)

/-! ## One slab -/

/-- First address of the pages of a slab. -/
def SlabT.base (t : SlabT) : ℕ := t.sMem - t.colouroff

/-- Address of object `i` of a slab. -/
def SlabT.obj (t : SlabT) (c : Cache) (i : BitVec 32) : ℕ := t.sMem + i.toNat * c.objsize

/-- A slab at address `a` whose free objects form the chain `ch`, while the objects
`out` are in use. -/
structure SlabOk (c : Cache) (t : SlabT) (pageSlab : ℕ → ℕ) (out : List ℕ) (a : ℕ)
    (ch : List (BitVec 32)) : Prop where
  chain : Chain t.bufctl bufctlEnd t.free ch
  nodup : ch.Nodup
  below : ∀ i ∈ ch, i.toNat < c.num
  count : ch.length + t.inuse.toNat = c.num
  objects : ∀ i : BitVec 32, i.toNat < c.num → (i ∈ ch ↔ t.obj c i ∉ out)
  base_le : t.colouroff ≤ t.sMem
  aligned : pageSize.toNat ∣ t.base
  inside : t.sMem + c.num * c.objsize ≤ t.base + c.span
  pages : ∀ p, t.base ≤ p * pageSize.toNat → p * pageSize.toNat < t.base + c.span → pageSlab p = a
  onSlab : c.offSlab = false → t.base ≤ a ∧ a < t.base + c.span

namespace SlabOk

variable {c : Cache} {t : SlabT} {pageSlab : ℕ → ℕ} {out : List ℕ} {a : ℕ} {ch : List (BitVec 32)}

variable {i : BitVec 32}

theorem obj_inj {j : BitVec 32} (h : t.obj c i = t.obj c j) : i = j := by
  apply eq_of_toNat_eq
  simp only [SlabT.obj] at h
  exact Nat.eq_of_mul_eq_mul_right c.objsize_pos (by omega)

/-- Objects lie in the pages of their slab. -/
theorem obj_mem (h : SlabOk c t pageSlab out a ch) (hi : i.toNat < c.num) :
    t.base ≤ t.obj c i ∧ t.obj c i < t.base + c.span := by
  have h1 := h.inside
  have h2 : (i.toNat + 1) * c.objsize ≤ c.num * c.objsize := Nat.mul_le_mul_right _ hi
  have h3 := c.objsize_pos
  rw [Nat.add_mul, Nat.one_mul] at h2
  simp only [SlabT.obj, SlabT.base] at *
  omega

/-- `GET_PAGE_SLAB(virt_to_page(objp))` is the slab of the object. -/
theorem pageSlab_obj (h : SlabOk c t pageSlab out a ch) (hi : i.toNat < c.num) :
    pageSlab (t.obj c i / pageSize.toNat) = a := by
  obtain ⟨h1, h2⟩ := h.obj_mem hi
  have hle := Nat.div_mul_le_self (t.obj c i) pageSize.toNat
  refine h.pages _ ?_ (by omega)
  obtain ⟨b, hb⟩ := h.aligned
  rw [hb, Nat.mul_comm]
  refine Nat.mul_le_mul_right _ ?_
  rw [Nat.le_div_iff_mul_le (by decide), Nat.mul_comm, ← hb]
  exact h1

/-- The index `kmem_cache_free_one` computes. -/
theorem objnr_eq :
    BitVec.ofNat 32 ((t.obj c i - t.sMem) / c.objsize) = i := by
  rw [SlabT.obj, Nat.add_sub_cancel_left, Nat.mul_div_cancel _ c.objsize_pos, BitVec.ofNat_toNat,
    BitVec.setWidth_eq]

theorem ne_end (hi : i.toNat < c.num) : i ≠ bufctlEnd := by
  rintro rfl
  have h1 := c.num_lt
  have h2 : bufctlEnd.toNat = 2 ^ 32 - 1 := rfl
  omega

/-- There are at most `num` different indices. -/
theorem length_le {l : List (BitVec 32)} {n : ℕ} (hnd : l.Nodup) (hlt : ∀ i ∈ l, i.toNat < n) :
    l.length ≤ n := by
  have hmap : (l.map BitVec.toNat).Nodup := hnd.map (fun _ _ h => eq_of_toNat_eq h)
  have hsub : l.map BitVec.toNat ⊆ range n := by
    intro x hx
    obtain ⟨i, hi, rfl⟩ := List.mem_map.mp hx
    exact mem_range.mpr (hlt i hi)
  simpa using (hmap.subperm hsub).length_le

/-- Changes elsewhere do not matter to a slab. -/
theorem frame (h : SlabOk c t pageSlab out a ch) {pageSlab' : ℕ → ℕ} {out' : List ℕ}
    (hp : ∀ p, t.base ≤ p * pageSize.toNat → p * pageSize.toNat < t.base + c.span →
      pageSlab' p = pageSlab p)
    (ho : ∀ o, t.base ≤ o → o < t.base + c.span → (o ∈ out' ↔ o ∈ out)) :
    SlabOk c t pageSlab' out' a ch where
  chain := h.chain
  nodup := h.nodup
  below := h.below
  count := h.count
  objects := by
    intro i hi
    obtain ⟨h1, h2⟩ := h.obj_mem hi
    rw [h.objects i hi, ho _ h1 h2]
  base_le := h.base_le
  aligned := h.aligned
  inside := h.inside
  pages := by
    intro p h1 h2
    rw [hp p h1 h2]
    exact h.pages p h1 h2
  onSlab := h.onSlab

/-- Handing out the first free object. -/
theorem pop {ch : List (BitVec 32)} (h : SlabOk c t pageSlab out a (i :: ch)) :
    t.free = i ∧ SlabOk c { t with inuse := t.inuse + 1, free := t.bufctl t.free } pageSlab
      (t.obj c i :: out) a ch := by
  obtain ⟨hnot, hnd⟩ := nodup_cons.mp h.nodup
  refine ⟨h.chain.1, ?_⟩
  refine
    { chain := h.chain.pop, nodup := hnd, below := fun j hj => h.below j (mem_cons_of_mem _ hj),
      count := ?_, objects := ?_, base_le := h.base_le, aligned := h.aligned, inside := h.inside,
      pages := h.pages, onSlab := h.onSlab }
  · have h1 := h.count
    have h2 := c.num_lt
    rw [length_cons] at h1
    show ch.length + (t.inuse + 1).toNat = c.num
    have h3 : (t.inuse + 1).toNat = t.inuse.toNat + 1 := by
      rw [BitVec.toNat_add, show (1 : BitVec 32).toNat = 1 from rfl, mod_eq_of_lt (by omega)]
    omega
  · intro j hj
    have hold := h.objects j hj
    show j ∈ ch ↔ t.obj c j ∉ t.obj c i :: out
    rw [mem_cons, not_or, ← hold, mem_cons]
    constructor
    · intro hjc
      refine ⟨?_, Or.inr hjc⟩
      intro he
      exact hnot (obj_inj he ▸ hjc)
    · rintro ⟨hne, rfl | hjc⟩
      · exact absurd rfl hne
      · exact hjc

/-- Taking an object back. -/
theorem push (h : SlabOk c t pageSlab out a ch) (hi : i.toNat < c.num) (ho : t.obj c i ∈ out)
    (hnd : out.Nodup) :
    SlabOk c { t with
        bufctl := Function.update t.bufctl i t.free
        free := i
        inuse := t.inuse - 1 } pageSlab (out.erase (t.obj c i)) a (i :: ch) := by
  have hnot : i ∉ ch := fun hic => (h.objects i hi).mp hic ho
  have hnd' : (i :: ch).Nodup := nodup_cons.mpr ⟨hnot, h.nodup⟩
  have hbelow : ∀ j ∈ i :: ch, j.toNat < c.num := by
    intro j hj
    rcases mem_cons.mp hj with rfl | hj
    · exact hi
    · exact h.below j hj
  refine
    { chain := h.chain.push hnot (ne_end hi), nodup := hnd', below := hbelow, count := ?_,
      objects := ?_, base_le := h.base_le, aligned := h.aligned, inside := h.inside,
      pages := h.pages, onSlab := h.onSlab }
  · have h1 := h.count
    have hle := length_le hnd' hbelow
    rw [length_cons] at hle
    have hpos : 0 < t.inuse.toNat := by omega
    have h2 : (t.inuse - 1).toNat = t.inuse.toNat - 1 := by
      rw [BitVec.toNat_sub_of_le (by rw [BitVec.le_def]; exact hpos)]
      rfl
    show (i :: ch).length + (t.inuse - 1).toNat = c.num
    rw [length_cons]
    omega
  · intro j hj
    show j ∈ i :: ch ↔ t.obj c j ∉ out.erase (t.obj c i)
    rw [hnd.mem_erase_iff, mem_cons, h.objects j hj]
    constructor
    · rintro (rfl | hj')
      · exact fun hh => hh.1 rfl
      · exact fun hh => hj' hh.2
    · intro hh
      by_cases hji : j = i
      · exact Or.inl hji
      · right
        intro hjo
        exact hh ⟨fun he => hji (obj_inj he), hjo⟩

end SlabOk

/-! ## All slabs of a cache -/

/-- Two slabs have no page in common. -/
def PagesApart (c : Cache) (t u : SlabT) : Prop :=
  t.base + c.span ≤ u.base ∨ u.base + c.span ≤ t.base

/-- The slabs at the addresses `M` are in order, do not overlap, and own the objects
`out`. -/
structure Body (c : Cache) (slab : ℕ → SlabT) (pageSlab : ℕ → ℕ) (out M : List ℕ) : Prop where
  slabs : ∀ a ∈ M, ∃ ch, SlabOk c (slab a) pageSlab out a ch
  apart : ∀ a ∈ M, ∀ b ∈ M, a ≠ b → PagesApart c (slab a) (slab b)
  known : ∀ o ∈ out, ∃ a ∈ M, ∃ i : BitVec 32, i.toNat < c.num ∧ o = (slab a).obj c i
  nodup : out.Nodup

namespace Body

variable {c : Cache} {slab : ℕ → SlabT} {pageSlab : ℕ → ℕ} {out M : List ℕ}

section

variable (h : Body c slab pageSlab out M)

include h

variable {a : ℕ} {ch : List (BitVec 32)} {i : BitVec 32} {t : SlabT}

theorem of_mem_iff {M' : List ℕ} (hm : ∀ a, a ∈ M' ↔ a ∈ M) :
    Body c slab pageSlab out M' where
  slabs := fun a ha => h.slabs a ((hm a).mp ha)
  apart := fun a ha b hb => h.apart a ((hm a).mp ha) b ((hm b).mp hb)
  known := by
    intro o ho
    obtain ⟨a, ha, i, hi, rfl⟩ := h.known o ho
    exact ⟨a, (hm a).mpr ha, i, hi, rfl⟩
  nodup := h.nodup

/-- One slab changes its bookkeeping, and with it objects in its own pages change hands. -/
theorem update (ha : a ∈ M) {out' : List ℕ} (hs : t.sMem = (slab a).sMem)
    (hc : t.colouroff = (slab a).colouroff) (hok : SlabOk c t pageSlab out' a ch) (hnd : out'.Nodup)
    (hsame : ∀ o, ¬ ((slab a).base ≤ o ∧ o < (slab a).base + c.span) → (o ∈ out' ↔ o ∈ out))
    (hown : ∀ o ∈ out', o ∈ out ∨ ∃ i : BitVec 32, i.toNat < c.num ∧ o = (slab a).obj c i) :
    Body c (Function.update slab a t) pageSlab out' M := by
  have hbase : ∀ b, (Function.update slab a t b).base = (slab b).base := by
    intro b
    by_cases hb : b = a
    · subst hb; simp [SlabT.base, hs, hc]
    · rw [update_of_ne hb]
  have hobj : ∀ b i, (Function.update slab a t b).obj c i = (slab b).obj c i := by
    intro b i
    by_cases hb : b = a
    · subst hb; simp [SlabT.obj, hs]
    · rw [update_of_ne hb]
  refine ⟨?_, ?_, ?_, hnd⟩
  · intro b hb
    by_cases hba : b = a
    · subst hba
      rw [update_self]
      exact ⟨ch, hok⟩
    · rw [update_of_ne hba]
      obtain ⟨ch', hch'⟩ := h.slabs b hb
      refine ⟨ch', hch'.frame (fun _ _ _ => rfl) ?_⟩
      intro o h1 h2
      refine hsame o ?_
      rcases h.apart a ha b hb (Ne.symm hba) with hap | hap <;> omega
  · intro b hb d hd hbd
    simp only [PagesApart, hbase]
    exact h.apart b hb d hd hbd
  · intro o ho
    rcases hown o ho with ho | ⟨i, hi, rfl⟩
    · obtain ⟨b, hb, i, hi, rfl⟩ := h.known o ho
      exact ⟨b, hb, i, hi, (hobj b i).symm⟩
    · exact ⟨a, ha, i, hi, (hobj a i).symm⟩

/-- `kmem_cache_alloc_one_tail` hands out a free object. -/
theorem alloc (ha : a ∈ M) (hok : SlabOk c (slab a) pageSlab out a (i :: ch)) :
    (slab a).obj c i ∉ out ∧
      Body c (Function.update slab a { slab a with
        inuse := (slab a).inuse + 1, free := (slab a).bufctl (slab a).free }) pageSlab
        ((slab a).obj c i :: out) M := by
  have hi : i.toNat < c.num := hok.below i mem_cons_self
  have hnew : (slab a).obj c i ∉ out := (hok.objects i hi).mp mem_cons_self
  refine ⟨hnew, h.update ha rfl rfl hok.pop.2 (nodup_cons.mpr ⟨hnew, h.nodup⟩) ?_ ?_⟩
  · intro o ho
    have hne : o ≠ (slab a).obj c i := by
      rintro rfl
      exact ho (hok.obj_mem hi)
    simp [hne]
  · intro o ho
    rcases mem_cons.mp ho with rfl | ho
    · exact Or.inr ⟨i, hi, rfl⟩
    · exact Or.inl ho

/-- `kmem_cache_free_one` takes an object back. -/
theorem free (ha : a ∈ M)
    (hi : i.toNat < c.num) (ho : (slab a).obj c i ∈ out) :
    Body c (Function.update slab a { slab a with
      bufctl := Function.update (slab a).bufctl i (slab a).free
      free := i
      inuse := (slab a).inuse - 1 }) pageSlab (out.erase ((slab a).obj c i)) M := by
  obtain ⟨ch, hch⟩ := h.slabs a ha
  refine h.update ha rfl rfl (hch.push hi ho h.nodup) (h.nodup.erase _) ?_ ?_
  · intro o hout
    have hne : o ≠ (slab a).obj c i := by
      rintro rfl
      exact hout (hch.obj_mem hi)
    rw [h.nodup.mem_erase_iff]
    simp [hne]
  · intro o ho'
    exact Or.inl (mem_of_mem_erase ho')

/-- The slab and index of an object in use. -/
theorem lookup {o : ℕ} (ho : o ∈ out) :
    ∃ a ∈ M, pageSlab (o / pageSize.toNat) = a ∧ ∃ i : BitVec 32, i.toNat < c.num ∧
      o = (slab a).obj c i := by
  obtain ⟨a, ha, i, hi, rfl⟩ := h.known o ho
  obtain ⟨ch, hch⟩ := h.slabs a ha
  exact ⟨a, ha, hch.pageSlab_obj hi, i, hi, rfl⟩

/-- `kmem_cache_grow` adds a slab in fresh pages. -/
theorem grow (ha : a ∉ M)
    {pageSlab' : ℕ → ℕ} (hok : SlabOk c t pageSlab' out a ch)
    (hfresh : ∀ b ∈ M, PagesApart c t (slab b))
    (hpages : ∀ p, ¬ (t.base ≤ p * pageSize.toNat ∧ p * pageSize.toNat < t.base + c.span) →
      pageSlab' p = pageSlab p) :
    Body c (Function.update slab a t) pageSlab' out (a :: M) := by
  have hother : ∀ b ∈ M, Function.update slab a t b = slab b := by
    intro b hb
    exact update_of_ne (ne_of_mem_of_not_mem hb ha) _ _
  refine ⟨?_, ?_, ?_, h.nodup⟩
  · intro b hb
    rcases mem_cons.mp hb with rfl | hb
    · rw [update_self]
      exact ⟨ch, hok⟩
    · rw [hother b hb]
      obtain ⟨ch', hch'⟩ := h.slabs b hb
      refine ⟨ch', hch'.frame ?_ (fun _ _ _ => Iff.rfl)⟩
      intro p h1 h2
      refine hpages p ?_
      rcases hfresh b hb with hap | hap <;> omega
  · intro b hb d hd hbd
    by_cases hba : b = a
    · have hdM : d ∈ M := (mem_cons.mp hd).resolve_left (fun h => hbd (hba.trans h.symm))
      rw [hba, update_self, hother d hdM]
      exact hfresh d hdM
    · have hbM : b ∈ M := (mem_cons.mp hb).resolve_left hba
      by_cases hda : d = a
      · rw [hda, update_self, hother b hbM]
        exact Or.symm (hfresh b hbM)
      · have hdM : d ∈ M := (mem_cons.mp hd).resolve_left hda
        rw [hother b hbM, hother d hdM]
        exact h.apart b hbM d hdM hbd
  · intro o ho
    obtain ⟨b, hb, i, hi, rfl⟩ := h.known o ho
    exact ⟨b, mem_cons_of_mem _ hb, i, hi, by rw [hother b hb]⟩

end

end Body

/-! ## The slab list -/

/-- The slabs `F` are full; the slabs `N` are not, and the empty ones among them come
last. -/
structure Counts (c : Cache) (slab : ℕ → SlabT) (F N : List ℕ) : Prop where
  full : ∀ a ∈ F, (slab a).inuse.toNat = c.num
  notFull : ∀ a ∈ N, (slab a).inuse.toNat < c.num
  emptyLast : N.Pairwise (fun a b => (slab a).inuse = 0 → (slab b).inuse = 0)

namespace Counts

variable {c : Cache} {slab : ℕ → SlabT} {F N : List ℕ} {a : ℕ}

/-- Slabs outside the lists do not matter. -/
theorem update (h : Counts c slab F N) (ha : a ∉ F ++ N) (t : SlabT) :
    Counts c (Function.update slab a t) F N := by
  have hsame : ∀ b, b ∈ F ++ N → Function.update slab a t b = slab b := by
    intro b hb
    exact update_of_ne (ne_of_mem_of_not_mem hb ha) _ _
  refine ⟨?_, ?_, ?_⟩
  · intro b hb
    rw [hsame b (mem_append_left _ hb)]
    exact h.full b hb
  · intro b hb
    rw [hsame b (mem_append_right _ hb)]
    exact h.notFull b hb
  · refine h.emptyLast.imp_of_mem ?_
    intro b d hb hd hbd
    rwa [hsame b (mem_append_right _ hb), hsame d (mem_append_right _ hd)]

theorem cons_iff : Counts c slab F (a :: N) ↔
    (slab a).inuse.toNat < c.num ∧ ((slab a).inuse = 0 → ∀ b ∈ N, (slab b).inuse = 0) ∧
      Counts c slab F N := by
  constructor
  · rintro ⟨h1, h2, h3⟩
    obtain ⟨h4, h5⟩ := pairwise_cons.mp h3
    exact ⟨h2 a mem_cons_self, fun h0 b hb => h4 b hb h0,
      h1, fun b hb => h2 b (mem_cons_of_mem _ hb), h5⟩
  · rintro ⟨h1, h2, h3⟩
    refine ⟨h3.full, ?_, pairwise_cons.mpr ⟨fun b hb h0 => h2 h0 b hb, h3.emptyLast⟩⟩
    intro b hb
    rcases mem_cons.mp hb with rfl | hb
    · exact h1
    · exact h3.notFull b hb

theorem full_iff {F₁ F₂ : List ℕ} : Counts c slab (F₁ ++ a :: F₂) N ↔
    (slab a).inuse.toNat = c.num ∧ Counts c slab (F₁ ++ F₂) N := by
  constructor
  · rintro ⟨h1, h2, h3⟩
    refine ⟨h1 a (by simp), ?_, h2, h3⟩
    intro b hb
    exact h1 b (perm_middle.mem_iff.mpr (mem_cons_of_mem _ hb))
  · rintro ⟨h1, h2⟩
    refine ⟨?_, h2.notFull, h2.emptyLast⟩
    intro b hb
    rcases mem_cons.mp (perm_middle.mem_iff.mp hb) with rfl | hb
    · exact h1
    · exact h2.full b hb

theorem remove {N₁ N₂ : List ℕ} (h : Counts c slab F (N₁ ++ a :: N₂)) :
    Counts c slab F (N₁ ++ N₂) := by
  have hsub : (N₁ ++ N₂).Sublist (N₁ ++ a :: N₂) := (sublist_cons_self a N₂).append_left N₁
  exact ⟨h.full, fun b hb => h.notFull b (hsub.subset hb), h.emptyLast.sublist hsub⟩

/-- An empty slab goes to the end. -/
theorem concat (h : Counts c slab F N) (h0 : (slab a).inuse = 0) : Counts c slab F (N ++ [a]) := by
  refine ⟨h.full, ?_, ?_⟩
  · intro b hb
    rcases mem_append.mp hb with hb | hb
    · exact h.notFull b hb
    · rw [mem_singleton.mp hb, h0]
      exact c.num_pos
  · refine pairwise_append.mpr ⟨h.emptyLast, pairwise_singleton _ _, ?_⟩
    intro b _ d hd _
    rw [mem_singleton.mp hd]
    exact h0

/-- A slab that keeps objects in use stays where it is. -/
theorem stay {N₁ N₂ : List ℕ} (h : Counts c slab F (N₁ ++ a :: N₂)) (ha : a ∉ F ++ (N₁ ++ N₂))
    {t : SlabT} (hold : N₁ = [] ∨ (slab a).inuse ≠ 0) (hnew : t.inuse ≠ 0)
    (hlt : t.inuse.toNat < c.num) : Counts c (Function.update slab a t) F (N₁ ++ a :: N₂) := by
  induction N₁ with
  | nil =>
    have hrest := (cons_iff.mp h).2.2
    refine cons_iff.mpr ⟨?_, ?_, hrest.update ha t⟩
    · rw [update_self]
      exact hlt
    · intro h0
      rw [update_self] at h0
      exact absurd h0 hnew
  | cons b N₁ ih =>
    obtain ⟨h1, h2, h3⟩ := cons_iff.mp h
    have hold' : (slab a).inuse ≠ 0 := hold.resolve_left (cons_ne_nil _ _)
    have hba : b ≠ a := by
      rintro rfl
      exact ha (by simp)
    have hrest := ih h3 (fun hm => ha (by simp only [mem_append, mem_cons] at hm ⊢; tauto))
      (Or.inr hold')
    refine cons_iff.mpr ⟨?_, ?_, hrest⟩
    · rw [update_of_ne hba]
      exact h1
    · intro h0
      rw [update_of_ne hba] at h0
      exact absurd (h2 h0 a (by simp)) hold'

end Counts

/-- The slab list is the full slabs `F` followed by the other slabs `N`. -/
structure Order (c : Cache) (s : State) (F N : List ℕ) : Prop where
  ring : s.links.IsRing .slabs (F.map .slab ++ N.map .slab)
  cursor : s.firstnotfull = (N.map .slab).headD .slabs
  counts : Counts c s.slab F N

namespace Order

variable {c : Cache} {s : State} {F N : List ℕ} {a : ℕ}

variable {N₁ N₂ : List ℕ} {t : SlabT}

theorem nodup (h : Order c s F N) : (F ++ N).Nodup := by
  have := (nodup_cons.mp h.ring.2).2
  rw [← map_append] at this
  exact List.Nodup.of_map _ this

/-- The first slab with free objects gives its last one away. -/
theorem alloc_full (h : Order c s F (a :: N)) (hfull : t.inuse.toNat = c.num) :
    Order c { s.setSlab a t with firstnotfull := s.links.next (.slab a) } (F ++ [a]) N := by
  have hring : s.links.IsRing .slabs ((F ++ [a]).map .slab ++ N.map .slab) := by
    have := h.ring
    rwa [map_cons, ← singleton_append, ← append_assoc, ← map_singleton,
      ← map_append] at this
  refine ⟨hring, ?_, ?_⟩
  · rw [← hring.next_getLastD]
    simp
  · have hnd := h.nodup
    rw [nodup_middle, nodup_cons] at hnd
    have hrest := (Counts.cons_iff.mp h.counts).2.2.update hnd.1 t
    show Counts c (Function.update s.slab a t) (F ++ [a]) N
    refine Counts.full_iff.mpr ⟨?_, by simpa using hrest⟩
    rw [update_self]
    exact hfull

/-- A slab that keeps objects in use stays where it is. -/
theorem stay (h : Order c s F (N₁ ++ a :: N₂))
    (hold : N₁ = [] ∨ (s.slab a).inuse ≠ 0) (hnew : t.inuse ≠ 0) (hlt : t.inuse.toNat < c.num) :
    Order c (s.setSlab a t) F (N₁ ++ a :: N₂) := by
  have hnd := h.nodup
  rw [← append_assoc, nodup_middle, nodup_cons, append_assoc] at hnd
  exact ⟨h.ring, h.cursor, h.counts.stay hnd.1 hold hnew hlt⟩

/-- A full slab gets an object back: it becomes the first slab with free objects. -/
theorem moveslabPartial {F₁ F₂ : List ℕ} (h : Order c s (F₁ ++ a :: F₂) N)
    (ht : t.inuse.toNat + 1 = c.num) :
    Order c (moveslabPartial (s.setSlab a t) a) (F₁ ++ F₂) (a :: N) := by
  have hnd := h.nodup
  rw [append_assoc, List.cons_append, nodup_middle, nodup_cons,
    ← append_assoc] at hnd
  have hring0 : s.links.IsRing .slabs
      (F₁.map Node.slab ++ Node.slab a :: (F₂.map Node.slab ++ N.map Node.slab)) := by
    have := h.ring
    rwa [map_append, map_cons, append_assoc, List.cons_append] at this
  have hcounts : Counts c (Function.update s.slab a t) (F₁ ++ F₂) (a :: N) := by
    have hrest := (Counts.full_iff.mp h.counts).2
    refine Counts.cons_iff.mpr ⟨?_, ?_, hrest.update hnd.1 t⟩
    · rw [update_self]
      omega
    · -- the slab is empty only if slabs have one object, and then the others are too
      intro h0 b hb
      rw [update_self] at h0
      rw [h0] at ht
      have hba : b ≠ a := by
        rintro rfl
        exact hnd.1 (mem_append_right _ hb)
      have hlt := hrest.notFull b hb
      have hz : (s.slab b).inuse.toNat = 0 := by
        rw [← ht] at hlt
        exact Nat.lt_one_iff.mp hlt
      rw [update_of_ne hba]
      exact eq_of_toNat_eq hz
  unfold Slab.moveslabPartial
  cases F₂ with
  | nil =>
    -- it was the last full slab: only the cursor moves
    have hnext : s.links.next (.slab a) = s.firstnotfull := by
      rw [h.cursor, hring0.rotate.next_head]
      cases N <;> rfl
    have hif : (s.setSlab a t).links.next (.slab a) = (s.setSlab a t).firstnotfull := hnext
    rw [if_pos hif]
    refine ⟨?_, rfl, hcounts⟩
    rw [append_nil]
    exact hring0
  | cons f F₂ =>
    have hnext : s.links.next (.slab a) = .slab f := hring0.rotate.next_head
    have hif : ¬ (s.setSlab a t).links.next (.slab a) = (s.setSlab a t).firstnotfull := by
      show ¬ s.links.next (.slab a) = s.firstnotfull
      rw [hnext, h.cursor]
      cases N with
      | nil => exact Node.noConfusion
      | cons n N =>
        intro he
        have hfn : f = n := Node.slab.inj he
        have hnd2 := (nodup_append.mp hnd.2).2.2 f (by simp) n (by simp)
        exact hnd2 hfn
    rw [if_neg hif]
    refine ⟨?_, rfl, hcounts⟩
    have hrem := hring0.remove_mem
    rw [← append_assoc, ← map_append] at hrem
    have hnot : Node.slab a ∉ Node.slabs :: ((F₁ ++ f :: F₂).map Node.slab ++ N.map Node.slab) := by
      rw [← map_append]
      simpa using hnd.1
    have hlink := hrem.link_before hnot
    rw [← h.cursor] at hlink
    exact hlink

/-- A slab whose last object in use comes back goes to the end of the list. -/
theorem moveslabFree (h : Order c s F (N₁ ++ a :: N₂))
    (ht : t.inuse = 0) : Order c (moveslabFree (s.setSlab a t) a) F (N₁ ++ N₂ ++ [a]) := by
  have hnd := h.nodup
  rw [← append_assoc, nodup_middle, nodup_cons, append_assoc] at hnd
  have hcounts : Counts c (Function.update s.slab a t) F (N₁ ++ N₂ ++ [a]) :=
    (h.counts.remove.update hnd.1 t).concat (by rw [update_self]; exact ht)
  have hring0 : s.links.IsRing .slabs
      ((F ++ N₁).map Node.slab ++ Node.slab a :: N₂.map Node.slab) := by
    have := h.ring
    rwa [map_append, map_cons, ← append_assoc, ← map_append] at this
  have hring : (listAddTail (listRemove s.links (.slab a)) (.slab a) .slabs).IsRing .slabs
      (F.map Node.slab ++ (N₁ ++ N₂ ++ [a]).map Node.slab) := by
    have hrem := hring0.remove_mem
    rw [← map_append] at hrem
    have hnot : Node.slab a ∉ Node.slabs :: (F ++ N₁ ++ N₂).map Node.slab := by
      rw [append_assoc]
      simpa using hnd.1
    have hlink := hrem.link_tail hnot
    have hlist : F.map Node.slab ++ (N₁ ++ N₂ ++ [a]).map Node.slab =
        (F ++ N₁ ++ N₂).map Node.slab ++ [Node.slab a] := by simp
    rw [hlist]
    exact hlink
  have hprev : s.links.prev s.firstnotfull = (F.map Node.slab).getLastD .slabs := by
    rw [h.cursor]
    exact h.ring.prev_headD
  unfold Slab.moveslabFree
  cases N₁ with
  | nil =>
    have hfirst : s.firstnotfull = .slab a := h.cursor
    simp only [State.setSlab, hfirst, if_true]
    rw [hfirst] at hprev
    refine ⟨hring, ?_, hcounts⟩
    rw [hprev]
    exact hring.next_getLastD
  | cons n N₁ =>
    have hfirst : s.firstnotfull = .slab n := h.cursor
    have hne : ¬ Node.slab n = Node.slab a := by
      intro he
      have : n = a := Node.slab.inj he
      exact hnd.1 (by simp [this])
    simp only [State.setSlab, hfirst, hne, if_false]
    exact ⟨hring, rfl, hcounts⟩

/-- A new slab is appended. -/
theorem grow (h : Order c s F N) (ha : a ∉ F ++ N) (ht : t.inuse = 0) {s' : State}
    (hl : s'.links = listAddTail s.links (.slab a) .slabs)
    (hs : s'.slab = Function.update s.slab a t)
    (hc : s'.firstnotfull = if s.firstnotfull = .slabs then .slab a else s.firstnotfull) :
    Order c s' F (N ++ [a]) := by
  refine ⟨?_, ?_, ?_⟩
  · have hnot : Node.slab a ∉ Node.slabs :: (F.map Node.slab ++ N.map Node.slab) := by
      simpa using ha
    have hlink := h.ring.link_tail hnot
    rw [hl, map_append, ← append_assoc]
    exact hlink
  · rw [hc, h.cursor]
    cases N with
    | nil => rfl
    | cons n N => rfl
  · rw [hs]
    exact (h.counts.update ha t).concat (by rw [update_self]; exact ht)

end Order

/-! ## A new slab -/

theorem initLoop_apply {n : ℕ} (hn : n ≤ 2 ^ 32) (f : BitVec 32 → BitVec 32) (i : BitVec 32) :
    initLoop n f i = if i.toNat < n then i + 1 else f i := by
  induction n with
  | zero => simp [initLoop]
  | succ n ih =>
    have hofNat : (BitVec.ofNat 32 n).toNat = n := by
      rw [toNat_ofNat, mod_eq_of_lt (by omega)]
    rw [initLoop]
    by_cases hi : i = BitVec.ofNat 32 n
    · subst hi
      rw [update_self, if_pos (by omega)]
    · have hne : i.toNat ≠ n := by
        intro h0
        apply hi
        apply eq_of_toNat_eq
        rw [hofNat, h0]
      rw [update_of_ne hi, ih (by omega)]
      by_cases hlt : i.toNat < n
      · rw [if_pos hlt, if_pos (by omega)]
      · rw [if_neg hlt, if_neg (by omega)]

/-- The indices from `k` on, `n` of them. -/
def indices (k n : ℕ) : List (BitVec 32) := (List.range' k n).map (BitVec.ofNat 32)

theorem mem_indices {k n : ℕ} (h : k + n ≤ 2 ^ 32) (i : BitVec 32) :
    i ∈ indices k n ↔ k ≤ i.toNat ∧ i.toNat < k + n := by
  simp only [indices, List.mem_map, mem_range'_1]
  constructor
  · rintro ⟨j, hj, rfl⟩
    rw [toNat_ofNat, mod_eq_of_lt (by omega)]
    exact hj
  · intro hi
    exact ⟨i.toNat, hi, by rw [BitVec.ofNat_toNat, BitVec.setWidth_eq]⟩

/-- After `kmem_cache_init_objs` the free chain visits all objects in order. -/
theorem chain_initObjs (c : Cache) (t : SlabT) (k m : ℕ) (h : k + (m + 1) = c.num) :
    Chain (kmemCacheInitObjs c t).bufctl bufctlEnd (BitVec.ofNat 32 k) (indices k (m + 1)) := by
  have hnum := c.num_lt
  have hk : (BitVec.ofNat 32 k).toNat = k := by
    rw [toNat_ofNat, mod_eq_of_lt (by omega)]
  have hend : BitVec.ofNat 32 k ≠ bufctlEnd := SlabOk.ne_end (c := c) (by omega)
  have hlast : (BitVec.ofNat 32 (c.num - 1)).toNat = c.num - 1 := by
    rw [toNat_ofNat, mod_eq_of_lt (by omega)]
  induction m generalizing k with
  | zero =>
    refine ⟨rfl, hend, ?_⟩
    show (kmemCacheInitObjs c t).bufctl (BitVec.ofNat 32 k) = bufctlEnd
    rw [show k = c.num - 1 by omega]
    exact update_self _ _ _
  | succ m ih =>
    refine ⟨rfl, hend, ?_⟩
    have hne : BitVec.ofNat 32 k ≠ BitVec.ofNat 32 (c.num - 1) := by
      intro he
      have := congrArg BitVec.toNat he
      omega
    have hnext : (kmemCacheInitObjs c t).bufctl (BitVec.ofNat 32 k) = BitVec.ofNat 32 (k + 1) := by
      have hinit : (kmemCacheInitObjs c t).bufctl (BitVec.ofNat 32 k) =
          initLoop c.num t.bufctl (BitVec.ofNat 32 k) := update_of_ne hne _ _
      rw [hinit, initLoop_apply (by omega), if_pos (by omega), BitVec.ofNat_add]
      rfl
    rw [hnext]
    have hk' : (BitVec.ofNat 32 (k + 1)).toNat = k + 1 := by
      rw [toNat_ofNat, mod_eq_of_lt (by omega)]
    exact ih (k + 1) (by omega) hk' (SlabOk.ne_end (c := c) (by omega))

theorem setPageSlab_apply (a n p : ℕ) (f : ℕ → ℕ) (q : ℕ) :
    setPageSlab a n p f q = if p ≤ q ∧ q < p + n then a else f q := by
  induction n generalizing p f with
  | zero => simp [setPageSlab]
  | succ n ih =>
    rw [setPageSlab, ih]
    by_cases hq : q = p
    · subst hq
      simp
    · rw [update_of_ne hq]
      by_cases h : p + 1 ≤ q ∧ q < p + 1 + n
      · rw [if_pos h, if_pos (by omega)]
      · rw [if_neg h, if_neg (by omega)]

variable {t : SlabT} {objp : ℕ} {out F N : List ℕ} {c : Cache} {s s' : State} {ans : Answers}

/-- The slab that `kmem_cache_grow` sets up in the pages at `objp`. -/
theorem slabOk_new (c : Cache) {a off : ℕ} (f : ℕ → ℕ) (halign : pageSize.toNat ∣ objp)
    (hin : t.inuse = 0) (hoff : t.colouroff = off) (hmem : t.sMem = objp + off)
    (hfit : off + c.num * c.objsize ≤ c.span) (hout : ∀ o ∈ out, ¬ (objp ≤ o ∧ o < objp + c.span))
    (ha : c.offSlab = false → objp ≤ a ∧ a < objp + c.span) :
    SlabOk c (kmemCacheInitObjs c t)
      (setPageSlab a (2 ^ c.gfporder) (objp / pageSize.toNat) f) out a (indices 0 c.num) := by
  have hnum := c.num_lt
  have hbase : (kmemCacheInitObjs c t).base = objp := by
    show t.sMem - t.colouroff = objp
    omega
  have hall : ∀ i : BitVec 32, i.toNat < c.num → i ∈ indices 0 c.num := by
    intro i hi
    rw [mem_indices (by omega)]
    omega
  refine
    { chain := ?_, nodup := ?_, below := ?_, count := ?_, objects := ?_, base_le := ?_,
      aligned := ?_, inside := ?_, pages := ?_, onSlab := ?_ }
  · have hpos := c.num_pos
    have := chain_initObjs c t 0 (c.num - 1) (by omega)
    rwa [show c.num - 1 + 1 = c.num by omega] at this
  · refine List.Nodup.map_on ?_ (nodup_range')
    intro x hx y hy hxy
    rw [mem_range'_1] at hx hy
    have := congrArg BitVec.toNat hxy
    rw [toNat_ofNat, toNat_ofNat, mod_eq_of_lt (by omega),
      mod_eq_of_lt (by omega)] at this
    exact this
  · intro i hi
    rw [mem_indices (by omega)] at hi
    omega
  · show (indices 0 c.num).length + t.inuse.toNat = c.num
    rw [hin]
    simp [indices]
  · intro i hi
    refine ⟨fun _ hmem' => ?_, fun _ => hall i hi⟩
    refine hout _ hmem' ?_
    have h2 : (i.toNat + 1) * c.objsize ≤ c.num * c.objsize := Nat.mul_le_mul_right _ hi
    have h3 := c.objsize_pos
    rw [Nat.add_mul, Nat.one_mul] at h2
    show objp ≤ t.sMem + i.toNat * c.objsize ∧ t.sMem + i.toNat * c.objsize < objp + c.span
    omega
  · show t.colouroff ≤ t.sMem
    omega
  · rw [hbase]
    exact halign
  · rw [hbase]
    show t.sMem + c.num * c.objsize ≤ objp + c.span
    omega
  · intro p h1 h2
    obtain ⟨b, rfl⟩ := halign
    have hdiv : pageSize.toNat * b / pageSize.toNat = b := Nat.mul_div_cancel_left _ (by decide)
    rw [setPageSlab_apply, hdiv, if_pos]
    simp only [Cache.span, toNat_pageSize] at *
    constructor
    · omega
    · have : p * 4096 < (b + 2 ^ c.gfporder) * 4096 := by
        omega
      exact Nat.lt_of_mul_lt_mul_right this
  · intro hoffSlab
    rw [hbase]
    exact ha hoffSlab

/-! ## What the functions do -/

/-- The cache invariant, with the full slabs `F`, the other slabs `N`, and the objects
`out` in use. -/
structure Inv (c : Cache) (s : State) (out F N : List ℕ) : Prop where
  order : Order c s F N
  body : Body c s.slab s.pageSlab out (F ++ N)
  colour : s.colourNext = 0 ∨ s.colourNext < c.colour

/-- The pages that `__get_free_pages` returns are not in any slab of the cache, and
neither is the management structure that `slabp_cache` returns. -/
structure FreshAnswers (c : Cache) (s : State) (ans : Answers) : Prop where
  aligned : ∀ objp, ans.pages = some objp → pageSize.toNat ∣ objp
  pages : ∀ objp, ans.pages = some objp → ∀ xs : List ℕ, s.links.IsRing .slabs (xs.map .slab) →
    ∀ a ∈ xs, objp + c.span ≤ (s.slab a).base ∨ (s.slab a).base + c.span ≤ objp
  mgmt : ∀ slabp, ans.mgmt = some slabp → ∀ xs : List ℕ, s.links.IsRing .slabs (xs.map .slab) →
    slabp ∉ xs

/-- What a grow that returns 0 leaves as it was. -/
structure Unchanged (s s' : State) : Prop where
  links : s'.links = s.links
  firstnotfull : s'.firstnotfull = s.firstnotfull
  slab : s'.slab = s.slab
  pageSlab : s'.pageSlab = s.pageSlab
  growing : s'.growing = s.growing

theorem Inv.of_unchanged (h : Inv c s out F N) (hu : Unchanged s s')
    (hc : s'.colourNext = 0 ∨ s'.colourNext < c.colour) :
    Inv c s' out F N := by
  refine ⟨⟨?_, ?_, ?_⟩, ?_, hc⟩
  · rw [hu.links]; exact h.order.ring
  · rw [hu.firstnotfull]; exact h.order.cursor
  · rw [hu.slab]; exact h.order.counts
  · rw [hu.slab, hu.pageSlab]; exact h.body

/-- A grow that fails half-way has only moved the colour on. -/
theorem unchanged_growFailed (c : Cache) (s : State) : Unchanged s (growFailed (growBegin c s)) :=
  ⟨rfl, rfl, rfl, rfl, add_sub_cancel_right _ _⟩

theorem colourNext_growBegin (c : Cache) (s : State) :
    (growBegin c s).colourNext = 0 ∨ (growBegin c s).colourNext < c.colour := by
  unfold growBegin
  by_cases h : s.colourNext + 1 ≥ c.colour
  · simp [h]
  · simp [h]
    omega

/-- `kmem_cache_slabmgmt` for fresh pages gives a slab that is not on the list. -/
theorem kmemCacheSlabmgmt_spec (h : Inv c s out F N) (hans : FreshAnswers c s ans) {slabp : ℕ}
    (hp : ans.pages = some objp)
    (hm : kmemCacheSlabmgmt c (growBegin c s) objp (s.colourNext * c.colourOff) ans.mgmt =
      some (slabp, t)) :
    slabp ∉ F ++ N ∧ t.inuse = 0 ∧ t.sMem = objp + t.colouroff ∧
      t.colouroff + c.num * c.objsize ≤ c.span ∧
      (c.offSlab = false → objp ≤ slabp ∧ slabp < objp + c.span) := by
  have hring : s.links.IsRing .slabs ((F ++ N).map .slab) := by
    rw [map_append]; exact h.order.ring
  have hfit := c.fits s.colourNext h.colour
  have hpos : 0 < c.num * c.objsize := Nat.mul_pos c.num_pos c.objsize_pos
  unfold kmemCacheSlabmgmt at hm
  by_cases hoff : c.offSlab = true
  · simp only [hoff, if_true, Nat.add_zero] at hm hfit
    obtain ⟨slabp', hmg, he⟩ := Option.map_eq_some_iff.mp hm
    obtain ⟨rfl, rfl⟩ := Prod.mk.inj he
    exact ⟨hans.mgmt _ hmg _ hring, rfl, rfl, hfit, fun hf => absurd hoff (by simp [hf])⟩
  · rw [Bool.not_eq_true] at hoff
    simp only [hoff, Bool.false_eq_true, if_false, Option.some.injEq] at hm hfit
    obtain ⟨rfl, rfl⟩ := Prod.mk.inj hm
    have hrange : objp ≤ objp + s.colourNext * c.colourOff ∧
        objp + s.colourNext * c.colourOff < objp + c.span := by
      unfold Cache.span
      omega
    refine ⟨?_, rfl, rfl, hfit, fun _ => hrange⟩
    -- the management structure lies in the new pages, that of a listed slab in its own
    intro hmem
    obtain ⟨ch, hch⟩ := h.body.slabs _ hmem
    have h1 := hch.onSlab hoff
    rcases hans.pages _ hp _ hring _ hmem with h2 | h2 <;> omega

/-- A slab in fresh pages becomes part of the cache. -/
theorem Inv.growActivate (h : Inv c s out F N) {slabp : ℕ} (halign : pageSize.toNat ∣ objp)
    (hapart : ∀ b ∈ F ++ N, objp + c.span ≤ (s.slab b).base ∨ (s.slab b).base + c.span ≤ objp)
    (hnot : slabp ∉ F ++ N) (hin : t.inuse = 0) (hmem : t.sMem = objp + t.colouroff)
    (hfit : t.colouroff + c.num * c.objsize ≤ c.span)
    (hslab : c.offSlab = false → objp ≤ slabp ∧ slabp < objp + c.span) :
    Inv c (growActivate c (growBegin c s) objp slabp t) out F (N ++ [slabp]) := by
  have hout : ∀ o ∈ out, ¬ (objp ≤ o ∧ o < objp + c.span) := by
    intro o ho
    obtain ⟨b, hb, i, hi, rfl⟩ := h.body.known o ho
    obtain ⟨ch, hch⟩ := h.body.slabs b hb
    have h1 := hch.obj_mem hi
    rcases hapart b hb with h2 | h2 <;> omega
  have hok := slabOk_new c s.pageSlab halign hin rfl hmem hfit hout hslab
  have hbase : (kmemCacheInitObjs c t).base = objp := by
    show t.sMem - t.colouroff = objp
    omega
  refine ⟨?_, ?_, colourNext_growBegin c s⟩
  · exact h.order.grow hnot (t := kmemCacheInitObjs c t) hin rfl rfl rfl
  · have hgrow := h.body.grow hnot hok ?_ ?_
    · refine hgrow.of_mem_iff ?_
      intro b
      simp only [mem_append, mem_cons, not_mem_nil, or_false]
      tauto
    · intro b hb
      rw [PagesApart, hbase]
      exact hapart b hb
    · intro p hp
      rw [setPageSlab_apply, if_neg]
      intro hq
      refine hp ?_
      rw [hbase]
      obtain ⟨b, rfl⟩ := halign
      rw [Nat.mul_div_cancel_left _ (by decide)] at hq
      have h1 : b * pageSize.toNat ≤ p * pageSize.toNat := Nat.mul_le_mul_right _ hq.1
      have h2 : p * pageSize.toNat < (b + 2 ^ c.gfporder) * pageSize.toNat :=
        Nat.mul_lt_mul_of_pos_right hq.2 (by decide)
      rw [Nat.add_mul] at h2
      unfold Cache.span
      rw [Nat.mul_comm pageSize.toNat b]
      exact ⟨h1, h2⟩

/-- **`kmem_cache_grow`.**  A failed grow changes nothing but the colour; a successful
one appends an empty slab. -/
theorem kmemCacheGrow_spec (h : Inv c s out F N) (flags : BitVec 32) (hans : FreshAnswers c s ans) :
    (∃ s', kmemCacheGrow c s flags ans = (false, s') ∧ Unchanged s s' ∧ Inv c s' out F N) ∨
      ∃ s' a, kmemCacheGrow c s flags ans = (true, s') ∧ Inv c s' out F (N ++ [a]) := by
  have hring : s.links.IsRing .slabs ((F ++ N).map .slab) := by
    rw [map_append]; exact h.order.ring
  have hfail : Inv c (growFailed (growBegin c s)) out F N :=
    h.of_unchanged (unchanged_growFailed c s) (colourNext_growBegin c s)
  unfold kmemCacheGrow
  by_cases hflag : flags &&& slabNoGrow ≠ 0
  · left
    exact ⟨s, if_pos hflag, ⟨rfl, rfl, rfl, rfl, rfl⟩, h⟩
  · rw [if_neg hflag]
    rcases hp : ans.pages with _ | objp
    · left
      exact ⟨_, rfl, unchanged_growFailed c s, hfail⟩
    · rcases hm : kmemCacheSlabmgmt c (growBegin c s) objp (s.colourNext * c.colourOff) ans.mgmt with
        _ | ⟨slabp, t⟩
      · left
        exact ⟨_, by simp only [hm], unchanged_growFailed c s, hfail⟩
      · right
        obtain ⟨hnot, hin, hmem, hfit, hslab⟩ := kmemCacheSlabmgmt_spec h hans hp hm
        refine ⟨growActivate c (growBegin c s) objp slabp t, slabp, by simp only [hm], ?_⟩
        exact h.growActivate (hans.aligned _ hp) (fun b hb => hans.pages _ hp _ hring b hb) hnot hin
          hmem hfit hslab

/-- `kmem_cache_alloc_one_tail` on the first slab with free objects. -/
theorem kmemCacheAllocOneTail_spec {a : ℕ} (h : Inv c s out F (a :: N)) :
    (kmemCacheAllocOneTail c s a).1 ∉ out ∧ ∃ F' N',
      Inv c (kmemCacheAllocOneTail c s a).2 ((kmemCacheAllocOneTail c s a).1 :: out) F' N' := by
  have hmem : a ∈ F ++ a :: N := by simp
  obtain ⟨ch, hch⟩ := h.body.slabs a hmem
  have hlt := h.order.counts.notFull a mem_cons_self
  have hcount := hch.count
  cases ch with
  | nil => rw [length_nil] at hcount; omega
  | cons i ch =>
    obtain ⟨hnew, hbody⟩ := h.body.alloc hmem hch
    obtain ⟨hfree, hpop⟩ := hch.pop
    have hobj : (kmemCacheAllocOneTail c s a).1 = (s.slab a).obj c i := by
      rw [← hfree]
      rfl
    rw [hobj]
    refine ⟨hnew, ?_⟩
    set t : SlabT := { s.slab a with
      inuse := (s.slab a).inuse + 1, free := (s.slab a).bufctl (s.slab a).free }
    have hinuse : ch.length + t.inuse.toNat = c.num := hpop.count
    rw [length_cons] at hcount
    by_cases hend : t.free = bufctlEnd
    · -- that was the last free object of the slab
      have hnil : ch = [] := hpop.chain.nil_iff.mp hend
      have hstep : (kmemCacheAllocOneTail c s a).2 =
          { s.setSlab a t with firstnotfull := s.links.next (.slab a) } := if_pos hend
      rw [hstep]
      rw [hnil, length_nil, Nat.zero_add] at hinuse
      refine ⟨F ++ [a], N, h.order.alloc_full hinuse, ?_, h.colour⟩
      exact hbody.of_mem_iff (fun b => by simp)
    · have hne : ch ≠ [] := fun h0 => hend (hpop.chain.nil_iff.mpr h0)
      have hpos : 0 < ch.length := length_pos_iff.mpr hne
      have hstep : (kmemCacheAllocOneTail c s a).2 = s.setSlab a t := if_neg hend
      rw [hstep]
      have hnz : t.inuse ≠ 0 := by
        intro h0
        rw [h0] at hinuse
        have hz : (0 : BitVec 32).toNat = 0 := rfl
        omega
      have hfront : Order c s F ([] ++ a :: N) := h.order
      exact ⟨F, a :: N, hfront.stay (Or.inl rfl) hnz (by omega), hbody, h.colour⟩

/-- **`kmem_cache_alloc`.**  It comes to an end; a failure changes nothing but the
colour, and an object that is returned was not in use. -/
theorem kmemCacheAlloc_spec (h : Inv c s out F N) (flags : BitVec 32)
    (hans : FreshAnswers c s ans) :
    ∃ r, kmemCacheAlloc c s flags ans = some r ∧ (r.1 = none → Unchanged s r.2) ∧
      (∀ o, r.1 = some o → o ∉ out) ∧ ∃ F' N', Inv c r.2 (r.1.toList ++ out) F' N' := by
  -- a slab with free objects settles the matter
  have hfind : ∀ (n : ℕ) (s : State) (F N : List ℕ) (a : ℕ), Inv c s out F (a :: N) →
      ∃ o s', kmemCacheAllocLoop c flags ans (n + 1) s = some (some o, s') ∧ o ∉ out ∧
        ∃ F' N', Inv c s' (o :: out) F' N' := by
    intro n s F N a h
    have hcur : s.firstnotfull = .slab a := h.order.cursor
    obtain ⟨h1, F', N', h2⟩ := kmemCacheAllocOneTail_spec h
    refine ⟨_, _, ?_, h1, F', N', h2⟩
    rw [kmemCacheAllocLoop, if_neg (by rw [hcur]; exact Node.noConfusion), hcur]
    rfl
  unfold kmemCacheAlloc
  cases N with
  | cons a N =>
    obtain ⟨o, s', h1, h2, F', N', h3⟩ := hfind 1 s F N a h
    refine ⟨(some o, s'), h1, by simp, ?_, F', N', h3⟩
    intro o' ho'
    rwa [← Option.some.inj ho']
  | nil =>
    have hcur : s.firstnotfull = .slabs := h.order.cursor
    rw [kmemCacheAllocLoop, if_pos hcur]
    rcases kmemCacheGrow_spec h flags hans with ⟨s', h1, h2, h3⟩ | ⟨s', a, h1, h2⟩
    · rw [h1]
      exact ⟨(none, s'), rfl, fun _ => h2, fun o ho => (nomatch ho), F, [], h3⟩
    · rw [h1]
      obtain ⟨o, s'', h3, h4, F', N', h5⟩ := hfind 0 s' F [] a h2
      refine ⟨(some o, s''), h3, by simp, ?_, F', N', h5⟩
      intro o' ho'
      rwa [← Option.some.inj ho']

/-- What relinking a slab leaves alone. -/
structure Relinked (s s' : State) : Prop where
  slab : s'.slab = s.slab
  pageSlab : s'.pageSlab = s.pageSlab
  colourNext : s'.colourNext = s.colourNext

theorem relinked_moveslabPartial (s : State) (a : ℕ) : Relinked s (moveslabPartial s a) := by
  unfold moveslabPartial
  simp only
  split_ifs <;> exact ⟨rfl, rfl, rfl⟩

theorem relinked_moveslabFree (s : State) (a : ℕ) : Relinked s (moveslabFree s a) := by
  unfold moveslabFree
  simp only
  split_ifs <;> exact ⟨rfl, rfl, rfl⟩

theorem Relinked.inv (hr : Relinked s s') (ho : Order c s' F N)
    (hb : Body c s.slab s.pageSlab out (F ++ N))
    (hc : s.colourNext = 0 ∨ s.colourNext < c.colour) : Inv c s' out F N :=
  ⟨ho, by rw [hr.slab, hr.pageSlab]; exact hb, by rw [hr.colourNext]; exact hc⟩

/-- **`kmem_cache_free_one`** of an object in use. -/
theorem kmemCacheFreeOne_spec (h : Inv c s out F N) {o : ℕ} (ho : o ∈ out) :
    ∃ F' N', Inv c (kmemCacheFreeOne c s o) (out.erase o) F' N' := by
  obtain ⟨a, ha, hpage, i, hi, rfl⟩ := h.body.lookup ho
  obtain ⟨ch, hch⟩ := h.body.slabs a ha
  have hbody := h.body.free ha hi ho
  have hcount := (hch.push hi ho h.body.nodup).count
  have hcount0 := hch.count
  set t : SlabT := { s.slab a with
    bufctl := Function.update (s.slab a).bufctl i (s.slab a).free
    free := i
    inuse := (s.slab a).inuse - 1 } with ht
  have hinuse : (s.slab a).inuse.toNat = t.inuse.toNat + 1 := by
    rw [length_cons] at hcount
    omega
  have hstep : kmemCacheFreeOne c s ((s.slab a).obj c i) =
      if (s.slab a).inuse = BitVec.ofNat 32 c.num then moveslabPartial (s.setSlab a t) a
      else if t.inuse = 0 then moveslabFree (s.setSlab a t) a
      else s.setSlab a t := by
    unfold kmemCacheFreeOne
    simp only [hpage, SlabOk.objnr_eq, ht]
  have hfull : (s.slab a).inuse = BitVec.ofNat 32 c.num ↔ (s.slab a).inuse.toNat = c.num := by
    have hn : (BitVec.ofNat 32 c.num).toNat = c.num := by
      rw [toNat_ofNat, mod_eq_of_lt c.num_lt]
    constructor
    · intro he
      rw [he, hn]
    · intro he
      apply eq_of_toNat_eq
      rw [hn, he]
  rw [hstep]
  rcases mem_append.mp ha with haF | haN
  · rw [if_pos (hfull.mpr (h.order.counts.full a haF))]
    obtain ⟨F1, F2, rfl⟩ := append_of_mem haF
    have hnum := h.order.counts.full a haF
    refine ⟨F1 ++ F2, a :: N, (relinked_moveslabPartial _ a).inv
      (h.order.moveslabPartial (t := t) (by omega)) ?_ h.colour⟩
    refine hbody.of_mem_iff (fun b => ?_)
    simp only [mem_append, mem_cons]
    tauto
  · have hlt := h.order.counts.notFull a haN
    rw [if_neg (fun he => by rw [hfull.mp he] at hlt; exact lt_irrefl _ hlt)]
    obtain ⟨N₁, N₂, rfl⟩ := append_of_mem haN
    split_ifs with h0
    · refine ⟨F, N₁ ++ N₂ ++ [a], (relinked_moveslabFree _ a).inv
        (h.order.moveslabFree h0) ?_ h.colour⟩
      refine hbody.of_mem_iff (fun b => ?_)
      simp only [mem_append, mem_cons, not_mem_nil, or_false]
      tauto
    · have hold : (s.slab a).inuse ≠ 0 := by
        intro he
        rw [he] at hinuse
        have hz : (0 : BitVec 32).toNat = 0 := rfl
        omega
      exact ⟨F, N₁ ++ a :: N₂, h.order.stay (Or.inr hold) h0 (by omega), hbody, h.colour⟩

/-! ## Runs -/

/-- A cache together with the objects its clients hold. -/
structure Sys where
  st : State
  out : List ℕ

/-- One call of a client: `kmem_cache_alloc`, with any flags and any answers of the
page allocator and of `slabp_cache` that are fresh, or `kmem_cache_free` of an object
the client holds. -/
inductive Step (c : Cache) : Sys → Sys → Prop
  | alloc (s : Sys) (flags : BitVec 32) (ans : Answers) (hans : FreshAnswers c s.st ans)
      (r : Option ℕ × State) (hr : kmemCacheAlloc c s.st flags ans = some r) :
      Step c s ⟨r.2, r.1.toList ++ s.out⟩
  | free (s : Sys) (o : ℕ) (ho : o ∈ s.out) :
      Step c s ⟨kmemCacheFreeOne c s.st o, s.out.erase o⟩

/-- A cache that `kmem_cache_create` has just set up. -/
def boot (slab : ℕ → SlabT) (pageSlab : ℕ → ℕ) : Sys := ⟨emptyState slab pageSlab, []⟩

theorem inv_boot (c : Cache) (slab : ℕ → SlabT) (pageSlab : ℕ → ℕ) :
    Inv c (boot slab pageSlab).st (boot slab pageSlab).out [] [] where
  order :=
    { ring := by
        have : (boot slab pageSlab).st.links =
            ({ next := id, prev := id } : Links Node).selfLink .slabs :=
          initListHead_eq_selfLink _ _
        rw [this]
        exact Links.isRing_selfLink _ _
      cursor := rfl
      counts := ⟨by simp, by simp, List.Pairwise.nil⟩ }
  body := ⟨by simp, by simp, fun _ ho => absurd ho not_mem_nil, nodup_nil⟩
  colour := Or.inl rfl

theorem inv_step {s s' : Sys} (h : Inv c s.st s.out F N)
    (hs : Step c s s') : ∃ F' N', Inv c s'.st s'.out F' N' := by
  cases hs with
  | alloc flags ans hans r hr =>
    obtain ⟨r', hr', _, _, hinv⟩ := kmemCacheAlloc_spec h flags hans
    rw [hr] at hr'
    rw [Option.some.inj hr']
    exact hinv
  | free o ho => exact kmemCacheFreeOne_spec h ho

theorem inv_reachable {slab : ℕ → SlabT} {pageSlab : ℕ → ℕ} {s : Sys}
    (hs : Relation.ReflTransGen (Step c) (boot slab pageSlab) s) :
    ∃ F N, Inv c s.st s.out F N := by
  induction hs with
  | refl => exact ⟨_, _, inv_boot c slab pageSlab⟩
  | tail _ hstep ih =>
    obtain ⟨F, N, h⟩ := ih
    exact inv_step h hstep

/-! ## The invariant in full -/

/-- What holds of a cache whose list consists of the slabs `full`, then `part`, then
`empty`. -/
structure CacheInvariant (c : Cache) (s : Sys) (full part empty : List ℕ) : Prop where
  list : s.st.links.IsRing .slabs ((full ++ (part ++ empty)).map .slab)
  isFull : ∀ a ∈ full, (s.st.slab a).inuse.toNat = c.num
  isPart : ∀ a ∈ part, 0 < (s.st.slab a).inuse.toNat ∧ (s.st.slab a).inuse.toNat < c.num
  isEmpty : ∀ a ∈ empty, (s.st.slab a).inuse.toNat = 0
  /-- `firstnotfull` is the first slab that is not full, or the list head -/
  cursor : s.st.firstnotfull = ((part ++ empty).map .slab).headD .slabs
  /-- the chain of each slab ends, and holds exactly the objects not handed out -/
  chains : ∀ a ∈ full ++ (part ++ empty), ∃ ch : List (BitVec 32),
    Chain (s.st.slab a).bufctl bufctlEnd (s.st.slab a).free ch ∧ ch.Nodup ∧
    (∀ i ∈ ch, i.toNat < c.num) ∧ ch.length = c.num - (s.st.slab a).inuse.toNat ∧
    ∀ i : BitVec 32, i.toNat < c.num → (i ∈ ch ↔ (s.st.slab a).obj c i ∉ s.out)
  /-- `GET_PAGE_SLAB` leads from an object in use to its slab -/
  owner : ∀ o ∈ s.out, s.st.pageSlab (o / pageSize.toNat) ∈ full ++ (part ++ empty) ∧
    ∃ i : BitVec 32, i.toNat < c.num ∧ o = (s.st.slab (s.st.pageSlab (o / pageSize.toNat))).obj c i
  /-- `kmem_cache_alloc` comes to an end and returns no object in use -/
  allocFresh : ∀ flags ans, FreshAnswers c s.st ans →
    ∃ r, kmemCacheAlloc c s.st flags ans = some r ∧ ∀ o, r.1 = some o → o ∉ s.out
  /-- a grow that fails leaves list, chains and `growing` alone -/
  growFailed : ∀ flags ans s', kmemCacheGrow c s.st flags ans = (false, s') → Unchanged s.st s'

theorem unchanged_of_kmemCacheGrow_false {flags : BitVec 32}
    (h : kmemCacheGrow c s flags ans = (false, s')) : Unchanged s s' := by
  unfold kmemCacheGrow at h
  by_cases hflag : flags &&& slabNoGrow ≠ 0
  · rw [if_pos hflag] at h
    obtain ⟨_, rfl⟩ := Prod.mk.inj h
    exact ⟨rfl, rfl, rfl, rfl, rfl⟩
  · rw [if_neg hflag] at h
    cases hp : ans.pages with
    | none =>
      rw [hp] at h
      obtain ⟨_, rfl⟩ := Prod.mk.inj h
      exact unchanged_growFailed c s
    | some objp =>
      rw [hp] at h
      cases hm : kmemCacheSlabmgmt c (growBegin c s) objp (s.colourNext * c.colourOff) ans.mgmt with
      | none =>
        simp only [hm] at h
        obtain ⟨_, rfl⟩ := Prod.mk.inj h
        exact unchanged_growFailed c s
      | some r =>
        simp only [hm] at h
        exact absurd (congrArg Prod.fst h) (by simp)

/-- The slabs that are not full are those in use followed by the empty ones. -/
theorem Counts.exists_split {slab : ℕ → SlabT}
    (h : Counts c slab F N) : ∃ part empty, N = part ++ empty ∧
      (∀ a ∈ part, (slab a).inuse ≠ 0) ∧ ∀ a ∈ empty, (slab a).inuse = 0 := by
  induction N with
  | nil => exact ⟨[], [], rfl, by simp, by simp⟩
  | cons a N ih =>
    obtain ⟨_, h2, h3⟩ := Counts.cons_iff.mp h
    by_cases ha : (slab a).inuse = 0
    · refine ⟨[], a :: N, rfl, by simp, ?_⟩
      intro b hb
      rcases mem_cons.mp hb with rfl | hb
      · exact ha
      · exact h2 ha b hb
    · obtain ⟨part, empty, rfl, h4, h5⟩ := ih h3
      refine ⟨a :: part, empty, rfl, ?_, h5⟩
      intro b hb
      rcases mem_cons.mp hb with rfl | hb
      · exact ha
      · exact h4 b hb

theorem Inv.cacheInvariant {s : Sys} (h : Inv c s.st s.out F N) :
    ∃ part empty, CacheInvariant c s F part empty := by
  obtain ⟨part, empty, rfl, hpart, hempty⟩ := h.order.counts.exists_split
  refine ⟨part, empty, ?_⟩
  refine
    { list := ?_, isFull := h.order.counts.full, isPart := ?_, isEmpty := ?_,
      cursor := h.order.cursor, chains := ?_, owner := ?_, allocFresh := ?_, growFailed := ?_ }
  · rw [map_append]
    exact h.order.ring
  · intro a ha
    refine ⟨?_, h.order.counts.notFull a (mem_append_left _ ha)⟩
    refine Nat.pos_of_ne_zero (fun h0 => hpart a ha ?_)
    exact eq_of_toNat_eq h0
  · intro a ha
    rw [hempty a ha]
    rfl
  · intro a ha
    obtain ⟨ch, hch⟩ := h.body.slabs a ha
    have hcount := hch.count
    exact ⟨ch, hch.chain, hch.nodup, hch.below, by omega, hch.objects⟩
  · intro o ho
    obtain ⟨a, ha, hpage, i, hi, hobj⟩ := h.body.lookup ho
    rw [hpage]
    exact ⟨ha, i, hi, hobj⟩
  · intro flags ans hans
    obtain ⟨r, hr, _, hnew, _⟩ := kmemCacheAlloc_spec h flags hans
    exact ⟨r, hr, hnew⟩
  · intro flags ans s' hs'
    exact unchanged_of_kmemCacheGrow_false hs'

/-- **Slab invariant.**  In every state that calls of `kmem_cache_alloc` and
`kmem_cache_free` reach, the slab list is in order and the chains hold exactly the
objects not handed out. -/
theorem cacheInvariant_reachable (c : Cache) (slab : ℕ → SlabT) (pageSlab : ℕ → ℕ) (s : Sys)
    (hs : Relation.ReflTransGen (Step c) (boot slab pageSlab) s) :
    ∃ full part empty, CacheInvariant c s full part empty := by
  obtain ⟨F, N, h⟩ := inv_reachable hs
  obtain ⟨part, empty, hinv⟩ := h.cacheInvariant
  exact ⟨F, part, empty, hinv⟩

/-- A cache of two objects per slab with its management off the slab. -/
def pairCache : Cache where
  objsize := 2048
  num := 2
  gfporder := 0
  colour := 0
  colourOff := 32
  offSlab := true
  objsize_pos := by decide
  num_pos := by decide
  num_lt := by decide
  fits := by
    rintro k (rfl | h)
    · decide
    · exact absurd h (Nat.not_lt_zero k)

/-- A newly created cache of pairs. -/
def pairBoot : Sys := boot (fun _ => ⟨0, 0, 0, 0, fun _ => 0⟩) (fun _ => 0)

/-- Both objects of a slab are handed out, and the first comes back. -/
theorem cacheInvariant_pair : ∃ s : Sys, Relation.ReflTransGen (Step pairCache) pairBoot s ∧
    s.out = [6144] ∧ ∃ full part empty, CacheInvariant pairCache s full part empty := by
  let fresh : Answers := ⟨some 4096, some 100⟩
  let none' : Answers := ⟨none, none⟩
  have hfresh : FreshAnswers pairCache pairBoot.st fresh := by
    have hnil : ∀ xs : List ℕ, pairBoot.st.links.IsRing .slabs (xs.map .slab) → xs = [] := by
      intro xs hxs
      have := hxs.unique (inv_boot pairCache _ _).order.ring
      simpa using this
    refine ⟨?_, ?_, ?_⟩
    · intro objp hp
      rw [← Option.some.inj hp]
      decide
    · intro objp _ xs hxs a ha
      rw [hnil xs hxs] at ha
      cases ha
    · intro slabp _ xs hxs
      rw [hnil xs hxs]
      exact not_mem_nil
  have hnone : ∀ s : State, FreshAnswers pairCache s none' := by
    intro s
    refine ⟨?_, ?_, ?_⟩ <;> (intro _ h; cases h)
  have hget : ∀ (o : Option (Option ℕ × State)) (d : Option ℕ × State), o.isSome →
      o = some (o.getD d) := by
    rintro (_ | r) d h
    · cases h
    · rfl
  let r1 := (kmemCacheAlloc pairCache pairBoot.st 0 fresh).getD (none, pairBoot.st)
  let r2 := (kmemCacheAlloc pairCache r1.2 0 none').getD (none, pairBoot.st)
  have h1 := Step.alloc pairBoot 0 fresh hfresh r1 (hget _ _ (by decide +kernel))
  have h2 := Step.alloc ⟨r1.2, r1.1.toList ++ pairBoot.out⟩ 0 none' (hnone _) r2
    (hget _ _ (by decide +kernel))
  have h3 := Step.free (c := pairCache) ⟨r2.2, r2.1.toList ++ (r1.1.toList ++ pairBoot.out)⟩ 4096
    (by decide +kernel)
  have hrun := ((Relation.ReflTransGen.single h1).tail h2).tail h3
  exact ⟨_, hrun, by decide +kernel, cacheInvariant_reachable pairCache _ _ _ hrun⟩

end Slab

end Yap
