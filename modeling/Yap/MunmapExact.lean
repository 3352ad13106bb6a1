/-
# Exact unmapping (`mm/mmap.c`)

An address space is for a program a partial map: an address has flags, a protection and an
offset in a file, or it has nothing.  `mapping` reads this map off the area list, for areas
with any flags, protections and offsets.

`do_munmap` erases a range from the map and changes nothing else (`doMunmap_exact`).  The areas
of the list are cut, moved to a temporary list and inserted again one by one; what holds of each
round (`Fixed`, `Unmapped`) is in the module on the invariant, and here it is read as a fact
about the map.
-/
import Yap.MmapInvariant

namespace Yap

namespace Mmap

open Ranges List

variable {σ : Type}

/-- The areas of `m` are sorted, disjoint and aligned, and the cache is one of them. -/
structure WellFormed (s : State σ) (m : ℕ) : Prop where
  nonempty : ∀ p ∈ (s.mm m).mmap, (s.area p).vmStart < (s.area p).vmEnd
  sorted : (s.mm m).mmap.Pairwise fun p q => (s.area p).vmEnd ≤ (s.area q).vmStart
  aligned : ∀ p ∈ (s.mm m).mmap,
    4096 ∣ (s.area p).vmStart.toNat ∧ 4096 ∣ (s.area p).vmEnd.toNat
  mm : ∀ p ∈ (s.mm m).mmap, (s.area p).vmMm = m
  cache : ∀ p ∈ (s.mm m).mmapCache, p ∈ (s.mm m).mmap

/-- What the address `x` has: flags, protection and file offset. -/
def mapping (s : State σ) (m x : ℕ) : Option (BitVec 32 × BitVec 32 × BitVec 32) :=
  ((s.mm m).mmap.find? fun p => decide (lo s p ≤ x ∧ x < hi s p)).map fun p => attrs s p x

section

variable {s s' : State σ} {m p x : ℕ} {free : List ℕ}

theorem WellFormed.shape (h : WellFormed s m) : Shape s m [] := by
  refine ⟨⟨h.sorted, h.nonempty⟩, List.Pairwise.nil, ?_, ?_, ?_, h.cache⟩
  · intro p hp
    cases hp
  · intro p hp
    cases hp
  · intro p hp
    have hp' := hp.resolve_left not_mem_nil
    exact ⟨(h.aligned p hp').1, (h.aligned p hp').2, h.mm p hp'⟩

theorem Shape.wellFormed (h : Shape s m free) : WellFormed s m :=
  ⟨h.ordered.lt, h.ordered.pairwise,
    fun p hp => ⟨(h.area p (Or.inr hp)).lo_aligned, (h.area p (Or.inr hp)).hi_aligned⟩,
    fun p hp => (h.area p (Or.inr hp)).mm, h.cache⟩

/-- The area that has an address is the one that `mapping` finds. -/
theorem Shape.mapping_eq (h : Shape s m free) (hp : p ∈ (s.mm m).mmap)
    (hx : lo s p ≤ x ∧ x < hi s p) : mapping s m x = some (attrs s p x) := by
  unfold mapping
  cases hfind : (s.mm m).mmap.find? fun p => decide (lo s p ≤ x ∧ x < hi s p) with
  | none =>
    rw [find?_eq_none] at hfind
    exact absurd (decide_eq_true hx) (hfind p hp)
  | some q =>
    have hq : lo s q ≤ x ∧ x < hi s q := by simpa using find?_some hfind
    rw [h.unique hp (mem_of_find?_eq_some hfind) hx hq]
    rfl

theorem mapping_eq_none : mapping s m x = none ↔ ¬ Covers s (s.mm m).mmap x := by
  unfold mapping
  rw [Option.map_eq_none_iff, find?_eq_none]
  constructor
  · rintro h ⟨p, hp, hx⟩
    exact h p hp (decide_eq_true hx)
  · intro h p hp hx
    exact h ⟨p, hp, of_decide_eq_true hx⟩

/-- Cutting a range out of the areas erases it from the map. -/
theorem Cut.mapping {addr stop : ℕ} (h : Cut s s' m addr stop) (hs : Shape s m []) (x : ℕ) :
    Mmap.mapping s' m x = if addr ≤ x ∧ x < stop then none else Mmap.mapping s m x := by
  have hcov := h.covers x
  split_ifs with hin
  · rw [mapping_eq_none, hcov]
    exact fun hx => hx.2 hin
  · by_cases hx : Covers s' (s'.mm m).mmap x
    · obtain ⟨p, hp, hpx⟩ := (hcov.mp hx).1
      obtain ⟨q, hq, hqx⟩ := hx
      rw [h.shape.mapping_eq hq hqx, hs.mapping_eq hp hpx, h.same q hq p hp x hqx hpx]
    · have hold : ¬ Covers s (s.mm m).mmap x := fun hold => hx (hcov.mpr ⟨hold, hin⟩)
      rw [mapping_eq_none.mpr hx, mapping_eq_none.mpr hold]

end

/-- **Exact unmapping.**  `do_munmap` of an aligned range that does not wrap returns; when it
returns 0, the range is erased from the map, every other address has what it had, and the list
and its cache are in order again; when it returns an error, nothing has changed. -/
theorem doMunmap_exact (ops : PageOps σ) (s : State σ) (m : ℕ) (addr len : BitVec 32)
    (extra : Option ℕ) (h : WellFormed s m) (haddr : 4096 ∣ addr.toNat)
    (hlen : addr.toNat + (pageAlign len).toNat < 2 ^ 32)
    (hfresh : ∀ q ∈ extra, q ∉ (s.mm m).mmap) :
    ∃ s' ret, doMunmap ops s m addr len extra = some (s', ret) ∧
      (ret = 0 → WellFormed s' m ∧
        (∀ x, Covers s' (s'.mm m).mmap x ↔ Covers s (s.mm m).mmap x ∧
          ¬ (addr.toNat ≤ x ∧ x < addr.toNat + (pageAlign len).toNat)) ∧
        (∀ x, mapping s' m x =
          if addr.toNat ≤ x ∧ x < addr.toNat + (pageAlign len).toNat then none
          else mapping s m x)) ∧
      (ret ≠ 0 → s' = s) := by
  obtain ⟨s', ret, heq, _, herror, hcut, _⟩ := doMunmap_cut ops h.shape haddr hlen hfresh
  refine ⟨s', ret, heq, fun hret => ?_, herror⟩
  obtain ⟨_, hcut⟩ := hcut hret
  exact ⟨hcut.shape.wellFormed, hcut.covers, fun x => hcut.mapping h.shape x⟩

/-- Two areas that touch and one that stands apart, of all kinds. -/
def threeAreas : State Unit where
  area := fun p =>
    if p = 1 then ⟨0, 0x1000, 0x3000, 0x00f, 0x2077, 0⟩
    else if p = 2 then ⟨0, 0x3000, 0x5000, 0x55f, 0x2000f, 7⟩
    else ⟨0, 0x6000, 0xa000, 0x003, 0, 3⟩
  mm := fun n => if n = 0 then ⟨[1, 2, 3], some 2, 0, 0, 0, 0⟩ else ⟨[], none, 0, 0, 0, 0⟩
  pages := ()

theorem wellFormed_threeAreas : WellFormed threeAreas 0 :=
  ⟨by decide +kernel, by decide +kernel, by decide +kernel, by decide +kernel, by decide +kernel⟩

/-- The range starts at the end of the first area, takes all of the second and ends inside the
third. -/
theorem doMunmap_exact_threeAreas :
    (doMunmap noPages threeAreas 0 0x3000 0x4000 (some 9)).map Prod.snd = some 0 ∧
    ∃ s' ret, doMunmap noPages threeAreas 0 0x3000 0x4000 (some 9) = some (s', ret) ∧
      (ret = 0 → WellFormed s' 0 ∧
        (∀ x, Covers s' (s'.mm 0).mmap x ↔ Covers threeAreas (threeAreas.mm 0).mmap x ∧
          ¬ ((0x3000 : BitVec 32).toNat ≤ x ∧
            x < (0x3000 : BitVec 32).toNat + (pageAlign 0x4000).toNat)) ∧
        (∀ x, mapping s' 0 x =
          if (0x3000 : BitVec 32).toNat ≤ x ∧
            x < (0x3000 : BitVec 32).toNat + (pageAlign 0x4000).toNat then none
          else mapping threeAreas 0 x)) ∧
      (ret ≠ 0 → s' = threeAreas) :=
  ⟨by decide +kernel, doMunmap_exact noPages threeAreas 0 0x3000 0x4000 (some 9)
    wellFormed_threeAreas (by decide) (by decide) (by decide +kernel)⟩

end Mmap

end Yap
