/-
# The list without a range: `do_munmap` (`mm/mmap.c`)

`do_munmap` takes every area that meets the range off the list, and `unmap_fixup` puts back what
is left of it.  After the call nothing of the list is in the range (`Clear`).
-/
import Yap.MmapFixup

namespace Yap

namespace Mmap

open Ranges List
open BitVec (lt_def eq_of_toNat_eq toNat_add_of_lt le_def)

variable {σ : Type} {x m p : ℕ} {l : List ℕ} {extra : Option ℕ} {len addr stop : BitVec 32}

/-- No area of `m` has a point in `[addr, stop)`. -/
def Clear (s : State σ) (m addr stop : ℕ) : Prop :=
  ∀ q ∈ (s.mm m).mmap, hi s q ≤ addr ∨ stop ≤ lo s q

/-- `[st, en)` is a page-aligned part of the area at `p`, inside `[addr, stop)`. -/
structure Part (s : State σ) (p addr stop st en : ℕ) : Prop where
  lo_le : lo s p ≤ st
  le_hi : en ≤ hi s p
  addr_le : addr ≤ st
  le_stop : en ≤ stop
  le : st ≤ en
  st_aligned : 4096 ∣ st
  en_aligned : 4096 ∣ en

/-- From `g` to `g'` the page tables change by zaps of ranges with `C`. -/
inductive Zaps (ops : PageOps σ) (m : ℕ) (C : ℕ → ℕ → Prop) : σ → σ → Prop where
  | refl (g : σ) : Zaps ops m C g g
  | zap {g g' : σ} (st size : BitVec 32) : C st.toNat (st.toNat + size.toNat) →
      Zaps ops m C (ops.zapPageRange g m st size) g' → Zaps ops m C g g'

variable {C C' : ℕ → ℕ → Prop} {g g' : σ} {ops : PageOps σ}

theorem Zaps.mono (h : Zaps ops m C g g')
    (hC : ∀ st en, C st en → C' st en) : Zaps ops m C' g g' := by
  induction h with
  | refl g => exact Zaps.refl g
  | zap st size hc _ ih => exact Zaps.zap st size (hC _ _ hc) ih

theorem Zaps.trans {g g' g'' : σ} (h : Zaps ops m C g g')
    (hC : ∀ st en, C st en → C' st en) (h' : Zaps ops m C' g' g'') :
    Zaps ops m C' g g'' := by
  induction h with
  | refl g => exact h'
  | zap st size hc _ ih => exact Zaps.zap st size (hC _ _ hc) (ih h')

theorem Part.congr {s s' : State σ} {addr stop st en : ℕ} (h : Part s p addr stop st en)
    (ha : s'.area p = s.area p) : Part s' p addr stop st en := by
  refine ⟨?_, ?_, h.addr_le, h.le_stop, h.le, h.st_aligned, h.en_aligned⟩
  · rw [lo, ha]
    exact h.lo_le
  · rw [hi, ha]
    exact h.le_hi

/-- What unmapping `[addr, stop)` does to the areas in `free`, which are off the list: the
rest of them comes back, and only `m` and the areas in `t` change. -/
structure Unmapped (ops : PageOps σ) (s s' : State σ) (m addr stop : ℕ) (free t : List ℕ) :
    Prop where
  clear : Clear s' m addr stop
  touches : Touches s s' m t
  keeps : ∀ p ∈ (s.mm m).mmap, p ∈ (s'.mm m).mmap ∧ s'.area p = s.area p
  covers : ∀ x, Covers s' (s'.mm m).mmap x ↔
    Covers s (s.mm m).mmap x ∨ Covers s free x ∧ ¬ (addr ≤ x ∧ x < stop)
  same : ∀ q ∈ (s'.mm m).mmap, ∀ x, lo s' q ≤ x → x < hi s' q →
    ∃ p, (p ∈ (s.mm m).mmap ∨ p ∈ free) ∧ (lo s p ≤ x ∧ x < hi s p) ∧ attrs s' q x = attrs s p x
  zaps : Zaps ops m (fun st en => ∃ p ∈ free, Part s p addr stop st en) s.pages s'.pages

section

variable {s s₀ s' : State σ} {m p : ℕ} {free ins : List ℕ} (ops)

/-- The counters follow `unmap_fixup`, which is entered with `map_count` one lower. -/
theorem Loose.fixed {addr stop st : ℕ} (h : Loose s m (p :: free)) (harea : s₀.area = s.area)
    (hmm : s₀.mm m = { s.mm m with mapCount := (s.mm m).mapCount - 1 })
    (hf : Fixed s₀ s' m p addr stop st len free ins)
    (hins : ∀ q ∈ ins, q ∉ (s.mm m).mmap ∧ q ∉ free) : Loose s' m free := by
  have hmmap : (s₀.mm m).mmap = (s.mm m).mmap := by rw [hmm]
  have hl : ∀ q ∈ (s.mm m).mmap, s'.area q = s.area q := fun q hq => by
    rw [hf.area q (fun hq' => (hins q hq').1 hq), harea]
  have hfree : ∀ q ∈ free, s'.area q = s.area q := fun q hq => by
    rw [hf.area q (fun hq' => (hins q hq').2 hq), harea]
  have hperm : (s'.mm m).mmap.Perm (ins ++ (s.mm m).mmap) := by
    have := hf.perm
    rwa [hmmap] at this
  -- the pages of the area are those that come back and those that go
  have hpages : ∀ c : BitVec 32 → Bool,
      pagesIn c s (s.mm m).mmap + pagesIn c s (p :: free) =
        pagesIn c s' (s'.mm m).mmap + pagesIn c s' free +
          if c (s.area p).vmFlags then len.toNat / 4096 else 0 := by
    intro c
    have hp := hf.pages c
    have hp' : pagesOf c s₀ p = pagesOf c s p := by simp only [pagesOf, lo, hi, harea]
    rw [hp', harea] at hp
    rw [pagesIn_perm hperm, pagesIn_append, pagesIn_congr hl, pagesIn_congr hfree, pagesIn_cons, hp]
    omega
  obtain ⟨hcount, htotal, hlocked⟩ := h.counts
  refine ⟨hf.shape, ?_, ?_, ?_, ?_, ?_⟩
  · rintro q (hq | hq)
    · exact (h.usual q (Or.inl (mem_cons_of_mem _ hq))).congr (hfree q hq)
    · rcases mem_append.mp (hperm.mem_iff.mp hq) with hq | hq
      · have hold : attrs s₀ p (lo s' q) = attrs s p (lo s' q) :=
          attrs_congr (by rw [harea]) _
        exact (h.usual p (Or.inl mem_cons_self)).of_attrs
          ((hf.same q hq (lo s' q) (le_refl _)).trans hold)
      · exact (h.usual q (Or.inr hq)).congr (hl q hq)
  · rw [hf.defFlags, hmm]
    exact h.defFlags
  · have hcount' := hf.count
    rw [hmm] at hcount'
    have hlen := hperm.length_eq
    rw [length_append] at hlen
    rw [length_cons] at hcount
    push_cast at *
    omega
  · have htotal' := hf.total
    rw [hmm] at htotal'
    rw [htotal', htotal]
    refine ofNat_sub_shift len ?_
    have := hpages fun _ => true
    rwa [if_pos rfl] at this
  · have hlocked' := hf.locked
    have hp := hpages isLocked
    rw [hmm, harea] at hlocked'
    rw [hlocked', hlocked]
    by_cases hflag : isLocked (s.area p).vmFlags
    · rw [if_pos hflag]
      rw [if_pos hflag] at hp
      exact ofNat_sub_shift len hp
    · rw [if_neg hflag]
      rw [if_neg hflag, Nat.add_zero] at hp
      rw [hp]

theorem toNat_smaller (x y : BitVec 32) : (if x < y then x else y).toNat = min x.toNat y.toNat := by
  split_ifs with h <;> rw [lt_def] at h <;> omega

theorem toNat_larger (x y : BitVec 32) : (if x < y then y else x).toNat = max x.toNat y.toNat := by
  split_ifs with h <;> rw [lt_def] at h <;> omega

/-- One round of the loop: the rest of the area at `p` goes back onto the list. -/
theorem munmapArea_spec (h : Shape s m (p :: free)) (haddr : 4096 ∣ addr.toNat)
    (hstop : 4096 ∣ stop.toNat) (hlt : addr.toNat < stop.toNat)
    (hclear : Clear s m addr.toNat stop.toNat) (hhi : addr.toNat ≤ hi s p)
    (hlo : lo s p < stop.toNat) (hfresh : ∀ q ∈ extra, q ∉ (s.mm m).mmap ∧ q ∉ p :: free)
    (hextra : extra ≠ none) :
    ∃ s' extra', munmapArea ops s m p addr stop extra = some (s', extra') ∧
      Shape s' m free ∧ (Loose s m (p :: free) → Loose s' m free) ∧
      Unmapped ops s s' m addr.toNat stop.toNat [p] (p :: extra.toList) ∧
      (extra' = extra ∧ (∀ q ∈ (s'.mm m).mmap, q = p ∨ q ∈ (s.mm m).mmap) ∨
        lo s p < addr.toNat ∧ stop.toNat < hi s p) := by
  have hok := h.area p (Or.inl mem_cons_self)
  have harea := h.free_lt p mem_cons_self
  set st := if addr < (s.area p).vmStart then (s.area p).vmStart else addr with hst
  set en := if (s.area p).vmEnd < stop then (s.area p).vmEnd else stop with hen
  have hst' : st.toNat = max addr.toNat (lo s p) := toNat_larger _ _
  have hen' : en.toNat = min (hi s p) stop.toNat := toNat_smaller _ _
  have hle : st.toNat ≤ en.toNat := by omega
  have hsize : (en - st).toNat = en.toNat - st.toNat := BitVec.toNat_sub_of_le hle
  have hadd : (st + (en - st)).toNat = st.toNat + (en - st).toNat := by
    rw [BitVec.add_comm, BitVec.sub_add_cancel]
    omega
  have hst4 : 4096 ∣ st.toNat := by
    rw [hst]
    split_ifs
    · exact hok.lo_aligned
    · exact haddr
  have hen4 : 4096 ∣ en.toNat := by
    rw [hen]
    split_ifs
    · exact hok.hi_aligned
    · exact hstop
  set s₀ : State σ :=
    { s.setMm m { s.mm m with mapCount := (s.mm m).mapCount - 1 } with
      pages := ops.zapPageRange s.pages m st (en - st) } with hs0
  have hmm : s₀.mm m = { s.mm m with mapCount := (s.mm m).mapCount - 1 } := setMm_mm _ _ _
  have hshape : Shape s₀ m (p :: free) := by
    refine h.congr ?_ ?_ fun _ _ => rfl
    · rw [hmm]
    · rw [hmm]
      exact h.cache
  obtain ⟨q, hq⟩ := Option.ne_none_iff_exists'.mp hextra
  have hq' := hfresh q (by rw [hq]; rfl)
  obtain ⟨s', extra', ins, heq, hf, hins, hcase⟩ :=
    unmapFixup_spec hshape (show lo s p ≤ st.toNat by omega) hadd
      (show st.toNat + (en - st).toNat ≤ hi s p by omega) hst4
      (by rw [hsize]; exact Nat.dvd_sub hen4 hst4)
      (show st.toNat = lo s p ∨ st.toNat = addr.toNat by omega)
      (show st.toNat + (en - st).toNat = hi s p ∨ st.toNat + (en - st).toNat = stop.toNat by omega)
      (fun _ _ => ⟨q, hq, by rw [hmm]; exact hq'.1, hq'.2⟩)
  have hins' : ∀ r ∈ ins, r ∉ (s.mm m).mmap ∧ r ∉ free := by
    intro r hr
    rcases mem_cons.mp (hins hr) with rfl | hr
    · exact ⟨h.not_mem mem_cons_self, h.head_not_mem⟩
    · obtain ⟨h1, h2⟩ := hfresh r (Option.mem_toList.mp hr)
      exact ⟨h1, fun h3 => h2 (mem_cons_of_mem _ h3)⟩
  have hpages : s'.pages = ops.zapPageRange s.pages m st (en - st) := hf.pages_eq
  have hperm : ∀ r, r ∈ (s'.mm m).mmap ↔ r ∈ ins ++ (s.mm m).mmap := by
    intro r
    have := hf.perm.mem_iff (a := r)
    rwa [hmm] at this
  have hmem : ∀ r ∈ (s'.mm m).mmap, r ∈ ins ∨ r ∈ (s.mm m).mmap :=
    fun r hr => mem_append.mp ((hperm r).mp hr)
  have hsame : ∀ r ∈ (s.mm m).mmap, s'.area r = s.area r := fun r hr =>
    hf.area r fun hr' => (hins' r hr').1 hr
  refine ⟨s', extra', heq, hf.shape,
    fun hloose => hloose.fixed (show s₀.area = s.area from rfl) hmm hf hins',
    ⟨?_, ⟨?_, ?_, ?_⟩, ?_, ?_, ?_, ?_⟩, ?_⟩
  · intro r hr
    rcases hmem r hr with hr | hr
    · exact hf.clear r hr
    · rw [hi, lo, hsame r hr]
      exact hclear r hr
  · intro n hn
    rw [hf.other n hn]
    exact setMm_mm_of_ne _ _ _ _ hn
  · intro r hr
    exact hf.area r fun hr' => hr (hins hr')
  · intro r hr
    exact (hmem r hr).symm.imp_right fun hr' => hins hr'
  · intro r hr
    exact ⟨(hperm r).mpr (mem_append_right _ hr), hsame r hr⟩
  · intro x
    have hcov := hf.covers x
    change _ ↔ (lo s p ≤ x ∧ x < hi s p) ∧ _ at hcov
    have hold := covers_congr (s := s) (fun r => Iff.rfl) hsame x
    have hnil : ¬ Covers s [] x := covers_nil
    rw [covers_congr hperm (fun _ _ => rfl) x, covers_append, hcov, hold, covers_cons,
      or_iff_left hnil, or_comm]
    -- inside the area the part that goes is the range
    refine or_congr_right (and_congr_right fun hx => not_congr ?_)
    omega
  · intro r hr x hlox hhix
    rcases hmem r hr with hr | hr
    · exact ⟨p, Or.inr (mem_singleton_self p), ((hf.covers x).mp ⟨r, hr, hlox, hhix⟩).1,
        hf.same r hr x hlox⟩
    · rw [lo, hsame r hr] at hlox
      rw [hi, hsame r hr] at hhix
      exact ⟨r, Or.inl hr, ⟨hlox, hhix⟩, attrs_congr (hsame r hr) x⟩
  · rw [hpages]
    refine Zaps.zap st (en - st) ⟨p, mem_singleton_self p, ?_⟩ (Zaps.refl _)
    have hsum : st.toNat + (en - st).toNat = en.toNat := by omega
    rw [hsum]
    exact ⟨by omega, by omega, by omega, by omega, hle, hst4, hen4⟩
  · rcases hcase with ⟨h1, h2⟩ | ⟨h1, h2⟩
    · exact Or.inl ⟨h1, fun r hr => (hmem r hr).imp_left fun hr' => mem_singleton.mp (h2 hr')⟩
    · right
      change lo s p < _ at h1
      change _ < hi s p at h2
      omega

/-- The loop brings back onto the list what is left of the areas that were taken off. -/
theorem munmapLoop_spec (haddr : 4096 ∣ addr.toNat) (hstop : 4096 ∣ stop.toNat)
    (hlt : addr.toNat < stop.toNat) {free : List ℕ} {s : State σ} {extra : Option ℕ}
    (h : Shape s m free) (hclear : Clear s m addr.toNat stop.toNat)
    (hrange : ∀ p ∈ free, addr.toNat ≤ hi s p ∧ lo s p < stop.toNat)
    (hfresh : ∀ q ∈ extra, q ∉ (s.mm m).mmap ∧ q ∉ free) (hextra : extra ≠ none ∨ free = []) :
    ∃ s', munmapLoop ops m addr stop s free extra = some s' ∧ Shape s' m [] ∧
      (Loose s m free → MmOk s' m) ∧
      Unmapped ops s s' m addr.toNat stop.toNat free (free ++ extra.toList) := by
  induction free generalizing s extra with
  | nil =>
    refine ⟨s, rfl, h, id, hclear, ⟨fun _ _ => rfl, fun _ _ => rfl, fun _ hp => Or.inl hp⟩,
      fun _ hp => ⟨hp, rfl⟩, ?_, ?_, Zaps.refl _⟩
    · intro x
      exact ⟨Or.inl, fun hx => hx.resolve_right fun hx' => covers_nil hx'.1⟩
    · intro q hq x hlox hhix
      exact ⟨q, Or.inl hq, ⟨hlox, hhix⟩, rfl⟩
  | cons p free ih =>
    have hextra' : extra ≠ none := hextra.resolve_right (cons_ne_nil _ _)
    obtain ⟨hhi, hlo⟩ := hrange p mem_cons_self
    obtain ⟨s1, extra1, heq, hshape, hloose, hun, hcase⟩ :=
      munmapArea_spec ops h haddr hstop hlt hclear hhi hlo hfresh hextra'
    have hfree := pairwise_cons.mp h.free_apart
    have hsame : ∀ r ∈ free, s1.area r = s.area r := by
      intro r hr
      refine hun.touches.area r fun hr' => ?_
      rcases mem_cons.mp hr' with rfl | hr'
      · exact h.head_not_mem hr
      · exact (hfresh r (Option.mem_toList.mp hr')).2 (mem_cons_of_mem _ hr)
    have hrange1 : ∀ r ∈ free, addr.toNat ≤ hi s1 r ∧ lo s1 r < stop.toNat := by
      intro r hr
      rw [hi, lo, hsame r hr]
      exact hrange r (mem_cons_of_mem _ hr)
    -- a hole takes the spare record, but then no other area is left
    have hnext : (∀ q ∈ extra1, q ∉ (s1.mm m).mmap ∧ q ∉ free) ∧ (extra1 ≠ none ∨ free = []) ∧
        extra1.toList ⊆ extra.toList ∨ free = [] := by
      rcases hcase with ⟨rfl, hmem⟩ | ⟨h1, h2⟩
      · refine Or.inl ⟨fun q hq => ?_, Or.inl hextra', List.Subset.refl _⟩
        obtain ⟨hq1, hq2⟩ := hfresh q hq
        rw [mem_cons, not_or] at hq2
        refine ⟨fun hq' => ?_, hq2.2⟩
        rcases hmem q hq' with hq' | hq'
        · exact hq2.1 hq'
        · exact hq1 hq'
      · right
        rw [eq_nil_iff_forall_not_mem]
        intro r hr
        obtain ⟨h3, h4⟩ := hrange r (mem_cons_of_mem _ hr)
        rcases hfree.1 r hr with h' | h' <;> omega
    rcases hnext with ⟨hfresh1, hextra1, hsub⟩ | rfl
    · obtain ⟨s', heq', hshape', hok, hun'⟩ := ih hshape hun.clear hrange1 hfresh1 hextra1
      refine ⟨s', by rw [munmapLoop, heq]; exact heq', hshape', fun hl => hok (hloose hl),
        hun'.clear, ?_, ?_, ?_, ?_, ?_⟩
      · refine (hun.touches.mono ?_).trans hun'.touches ?_
        · intro r hr
          simp only [mem_cons, mem_append] at hr ⊢
          exact hr.elim (fun h => Or.inl (Or.inl h)) Or.inr
        · intro r hr
          rw [mem_append] at hr
          rw [List.cons_append, mem_cons, mem_append]
          exact Or.inr (hr.imp_right fun hr' => hsub hr')
      · intro r hr
        obtain ⟨h1, h2⟩ := hun.keeps r hr
        obtain ⟨h3, h4⟩ := hun'.keeps r h1
        exact ⟨h3, h4.trans h2⟩
      · intro x
        have hfree' := covers_congr (s := s) (fun r => Iff.rfl) hsame x
        rw [hun'.covers x, hun.covers x, hfree', covers_cons, covers_cons,
          or_iff_left (covers_nil (s := s) (x := x))]
        rw [or_assoc, ← or_and_right]
      · intro q hq x hlox hhix
        obtain ⟨r, hr, hx, hattrs⟩ := hun'.same q hq x hlox hhix
        rcases hr with hr | hr
        · obtain ⟨t, ht, hx', hattrs'⟩ := hun.same r hr x hx.1 hx.2
          refine ⟨t, ht.imp_right fun ht' => ?_, hx', hattrs.trans hattrs'⟩
          rw [mem_singleton.mp ht']
          exact mem_cons_self
        · rw [lo, hi, hsame r hr] at hx
          exact ⟨r, Or.inr (mem_cons_of_mem _ hr), hx,
            hattrs.trans (attrs_congr (hsame r hr) x)⟩
      · refine hun.zaps.trans ?_ ?_
        · intro st en hpart
          obtain ⟨r, hr, hpart⟩ := hpart
          rw [mem_singleton.mp hr] at hpart
          exact ⟨p, mem_cons_self, hpart⟩
        · refine hun'.zaps.mono ?_
          rintro st en ⟨r, hr, hpart⟩
          refine ⟨r, mem_cons_of_mem _ hr, hpart.congr ?_⟩
          exact (hsame r hr).symm
    · exact ⟨s1, by rw [munmapLoop, heq]; rfl, hshape, hloose, hun⟩

theorem Shape.of_eq (h : Shape s m free) (ha : s'.area = s.area) (hm : s'.mm = s.mm) :
    Shape s' m free :=
  h.congr (by rw [hm]) (by rw [hm]; exact h.cache) fun p _ => by rw [ha]

theorem Loose.of_eq (h : Loose s m free) (ha : s'.area = s.area) (hm : s'.mm = s.mm) :
    Loose s' m free :=
  h.congr (by rw [hm]) (by rw [hm]; exact h.shape.cache) fun p _ => by rw [ha]

theorem pageAlign_eq (x : BitVec 32) :
    pageAlign x = (x + BitVec.ofNat 32 (2 ^ 12) - 1) &&& maskOf 12 := by
  have hmask : ~~~(pageSize - 1) = maskOf 12 := by decide
  rw [pageAlign, hmask]
  rfl

theorem dvd_pageAlign (x : BitVec 32) : 4096 ∣ (pageAlign x).toNat := by
  rw [pageAlign_eq]
  exact dvd_toNat_and_maskOf _ 12

theorem pageAlign_pageAlign (x : BitVec 32) : pageAlign (pageAlign x) = pageAlign x := by
  rw [pageAlign_eq (pageAlign x)]
  exact add_and_maskOf_of_dvd (by decide) (dvd_pageAlign x)

section

variable (ops : PageOps σ) (s : State σ) (m : ℕ) (prev : Option ℕ) (start stop : BitVec 32)

theorem freePgtables_area : (freePgtables ops s m prev start stop).area = s.area := by
  unfold freePgtables
  dsimp only
  split_ifs <;> rfl

theorem freePgtables_mm : (freePgtables ops s m prev start stop).mm = s.mm := by
  unfold freePgtables
  dsimp only
  split_ifs <;> rfl

end

/-- The areas between `pre` and `post` are off the list. -/
def offList (s : State σ) (m : ℕ) (pre post : List ℕ) : State σ :=
  s.setMm m { s.mm m with mmap := pre ++ post, mmapCache := none }

theorem offList_mm (pre post : List ℕ) : (offList s m pre post).mm m =
    { s.mm m with mmap := pre ++ post, mmapCache := none } := setMm_mm _ _ _

/-- Taking areas off the list. -/
theorem Shape.takeOff {pre hit post : List ℕ} (h : Shape s m [])
    (hl : (s.mm m).mmap = pre ++ (hit ++ post)) :
    Shape (offList s m pre post) m hit.reverse := by
  have hmm := offList_mm (s := s) (m := m) pre post
  have hord := h.ordered
  have hnd := hord.nodup
  have hmem : ∀ p, p ∈ (s.mm m).mmap ↔ p ∈ pre ∨ p ∈ hit ∨ p ∈ post := by
    intro p
    rw [hl, mem_append, mem_append]
  rw [hl] at hord hnd
  refine ⟨?_, ?_, ?_, ?_, ?_, ?_⟩
  · rw [hmm]
    exact hord.sublist (List.Sublist.append_left (sublist_append_right _ _) _)
  · rw [pairwise_reverse]
    have hhit := hord.sublist (List.Sublist.trans (sublist_append_left hit post)
      (sublist_append_right pre _))
    exact hhit.pairwise.imp fun hab => Or.inr hab
  · intro p hp
    rw [mem_reverse] at hp
    exact hord.lt p (mem_append_right _ (mem_append_left _ hp))
  · intro p hp q hq
    rw [mem_reverse] at hp
    rw [hmm, mem_append] at hq
    refine hord.apart ?_ (mem_append_right _ (mem_append_left _ hp)) ?_
    · rw [mem_append, mem_append]
      tauto
    · rintro rfl
      rw [nodup_append] at hnd
      obtain ⟨_, hnd, hpre⟩ := hnd
      rw [nodup_append] at hnd
      rcases hq with hq | hq
      · exact hpre q hq q (mem_append_left _ hp) rfl
      · exact hnd.2.2 q hp q hq rfl
  · intro p hp
    refine (h.area p (Or.inr ?_)).congr rfl
    rw [hmm, mem_reverse, mem_append] at hp
    rw [hmem]
    tauto
  · intro p hp
    rw [hmm] at hp
    cases hp

/-- Areas that are taken off the list stay counted. -/
theorem Loose.takeOff {pre hit post : List ℕ} (h : MmOk s m)
    (hl : (s.mm m).mmap = pre ++ (hit ++ post)) :
    Loose (offList s m pre post) m hit.reverse := by
  have hmm := offList_mm (s := s) (m := m) pre post
  have hperm : ((s.mm m).mmap).Perm ((pre ++ post) ++ hit.reverse) := by
    rw [hl, List.append_assoc]
    refine List.Perm.append_left pre ?_
    exact perm_append_comm.trans (List.Perm.append_left post (reverse_perm hit).symm)
  obtain ⟨hcount, htotal, hlocked⟩ := h.counts
  refine ⟨h.shape.takeOff hl, ?_, ?_, ?_, ?_, ?_⟩
  · intro p hp
    refine (h.usual p (Or.inr ?_)).congr rfl
    rw [hmm] at hp
    rw [hperm.mem_iff, mem_append]
    exact hp.symm
  · rw [hmm]
    exact h.defFlags
  · rw [hmm]
    show (s.mm m).mapCount = _
    rw [hcount, hperm.length_eq, length_append]
    simp
  · rw [hmm]
    show (s.mm m).totalVm = _
    rw [htotal, pagesIn_perm hperm, pagesIn_append, pagesIn_nil, Nat.add_zero]
    rfl
  · rw [hmm]
    show (s.mm m).lockedVm = _
    rw [hlocked, pagesIn_perm hperm, pagesIn_append, pagesIn_nil, Nat.add_zero]
    rfl

theorem findVmaPrev_append (s : State σ) (m : ℕ) (addr : BitVec 32) :
    (findVmaPrev s m addr).1 ++ (findVmaPrev s m addr).2 = (s.mm m).mmap :=
  takeWhile_append_dropWhile

theorem hi_lt_of_mem_findVmaPrev (hp : p ∈ (findVmaPrev s m addr).1) :
    hi s p < addr.toNat := by
  have h := mem_takeWhile_imp hp
  exact of_decide_eq_true h

/-- The areas below `[addr, stop)`, those that meet or touch it, and those above. -/
theorem Shape.split (h : Shape s m []) (addr stop : BitVec 32) : ∃ pre hit post,
    (findVmaPrev s m addr).1 = pre ∧
    (findVmaPrev s m addr).2.takeWhile (fun p => decide ((s.area p).vmStart < stop)) = hit ∧
    (findVmaPrev s m addr).2.dropWhile (fun p => decide ((s.area p).vmStart < stop)) = post ∧
    (s.mm m).mmap = pre ++ (hit ++ post) ∧ (∀ p ∈ pre, hi s p < addr.toNat) ∧
    (∀ p ∈ hit, addr.toNat ≤ hi s p ∧ lo s p < stop.toNat) ∧ ∀ p ∈ post, stop.toNat ≤ lo s p := by
  refine ⟨_, _, _, rfl, rfl, rfl, ?_, fun p hp => hi_lt_of_mem_findVmaPrev hp, fun p hp => ⟨?_, ?_⟩,
    (h.ordered.sublist (dropWhile_sublist _)).le_lo_of_mem_dropWhile⟩
  · rw [takeWhile_append_dropWhile, findVmaPrev_append]
  · exact h.ordered.le_hi_of_mem_dropWhile p ((takeWhile_sublist _).subset hp)
  · have hp' := mem_takeWhile_imp hp
    exact of_decide_eq_true hp'

/-- What `do_munmap` of `[addr, stop)` does: the areas are unmapped, which gives `s₁`, and the
tables that are not used any more are freed. -/
def Reclaimed (ops : PageOps σ) (s s' : State σ) (m : ℕ) (addr stop : BitVec 32) : Prop :=
  ∃ s₁ prev, s' = freePgtables ops s₁ m prev addr stop ∧ MmOk s₁ m ∧
    Clear s₁ m addr.toNat stop.toNat ∧
    (∀ p ∈ prev, p ∈ (s₁.mm m).mmap ∧ hi s₁ p ≤ addr.toNat) ∧
    (∀ x, Covers s₁ (s₁.mm m).mmap x ↔
      Covers s (s.mm m).mmap x ∧ ¬ (addr.toNat ≤ x ∧ x < stop.toNat)) ∧
    Zaps ops m (fun st en => ∃ p ∈ (s.mm m).mmap, lo s p < stop.toNat ∧
      Part s p addr.toNat stop.toNat st en) s.pages s₁.pages

/-- The unmapping of `[addr, stop)` is exact: the range is no longer covered, and every other
address has what it had. -/
structure Cut (s s' : State σ) (m addr stop : ℕ) : Prop where
  shape : Shape s' m []
  covers : ∀ x, Covers s' (s'.mm m).mmap x ↔
    Covers s (s.mm m).mmap x ∧ ¬ (addr ≤ x ∧ x < stop)
  same : ∀ q ∈ (s'.mm m).mmap, ∀ p ∈ (s.mm m).mmap, ∀ x, lo s' q ≤ x ∧ x < hi s' q →
    lo s p ≤ x ∧ x < hi s p → attrs s' q x = attrs s p x

/-- An address is in one area only. -/
theorem Shape.unique (h : Shape s m free) (hp : p ∈ (s.mm m).mmap) (hq : q ∈ (s.mm m).mmap)
    (hpx : lo s p ≤ x ∧ x < hi s p) (hqx : lo s q ≤ x ∧ x < hi s q) :
    p = q := by
  by_contra hne
  rcases h.ordered.apart hp hq hne with hap | hap <;> omega

/-- `do_munmap` from the first loop on. -/
theorem unmapAreas_spec (h : Shape s m []) (haddr : 4096 ∣ addr.toNat)
    (hstop : 4096 ∣ stop.toNat) (hlt : addr.toNat < stop.toNat) (hq : q ∉ (s.mm m).mmap) :
    ∃ s', unmapAreas ops s m addr stop (findVmaPrev s m addr).1 (findVmaPrev s m addr).2 q
        = some s' ∧
      Cut s s' m addr.toNat stop.toNat ∧ Clear s' m addr.toNat stop.toNat ∧
      Touches s s' m (q :: (s.mm m).mmap) ∧
      (MmOk s m → MmOk s' m ∧ Reclaimed ops s s' m addr stop) := by
  obtain ⟨pre, hit, post, hpre, hhit, hpost, hl, hprelt, hhits, hpostge⟩ := h.split addr stop
  unfold unmapAreas
  dsimp only
  rw [hpre, hhit, hpost, ← offList]
  have hmem : ∀ p, p ∈ (s.mm m).mmap ↔ p ∈ pre ∨ p ∈ hit ∨ p ∈ post := by
    intro p
    rw [hl, mem_append, mem_append]
  have hoff := h.takeOff hl
  set s1 := offList s m pre post with hs1
  have hmm : (s1.mm m).mmap = pre ++ post := by rw [hs1, offList_mm]
  have hclear : Clear s1 m addr.toNat stop.toNat := by
    intro p hp
    rw [hmm, mem_append] at hp
    rcases hp with hp | hp
    · exact Or.inl (hprelt p hp).le
    · exact Or.inr (hpostge p hp)
  have hrange : ∀ p ∈ hit.reverse, addr.toNat ≤ hi s1 p ∧ lo s1 p < stop.toNat := by
    intro p hp
    rw [mem_reverse] at hp
    exact hhits p hp
  have hfresh : ∀ r ∈ some q, r ∉ (s1.mm m).mmap ∧ r ∉ hit.reverse := by
    intro r hr
    rw [Option.mem_some_iff] at hr
    rw [← hr, hmm, mem_append, mem_reverse]
    rw [hmem] at hq
    tauto
  obtain ⟨s', heq, hshape, hok, hun⟩ := munmapLoop_spec ops haddr hstop hlt hoff hclear
    hrange hfresh (Or.inl (Option.some_ne_none q))
  have htouch1 : Touches s s1 m (q :: (s.mm m).mmap) := by
    refine ⟨fun n hn => setMm_mm_of_ne _ _ _ _ hn, fun _ _ => rfl, fun p hp => Or.inl ?_⟩
    rw [hmm, mem_append] at hp
    rw [hmem]
    tauto
  set s2 := freePgtables ops s' m pre.getLast? addr stop
  have harea : s2.area = s'.area := freePgtables_area _ _ _ _ _ _
  have hmm2 : s2.mm = s'.mm := freePgtables_mm _ _ _ _ _ _
  have hcovers : ∀ x, Covers s' (s'.mm m).mmap x ↔
      Covers s (s.mm m).mmap x ∧ ¬ (addr.toNat ≤ x ∧ x < stop.toNat) := by
    intro x
    have hrev : Covers s1 hit.reverse x ↔ Covers s hit x :=
      covers_congr (fun _ => mem_reverse) (fun _ _ => rfl) x
    have hrest' : Covers s1 (pre ++ post) x ↔ Covers s (pre ++ post) x :=
      covers_congr (fun _ => Iff.rfl) (fun _ _ => rfl) x
    -- the areas that have stayed on the list are outside of the range
    have hout : Covers s (pre ++ post) x → ¬ (addr.toNat ≤ x ∧ x < stop.toNat) := by
      rintro ⟨p, hp, hx⟩
      have hcl : hi s p ≤ addr.toNat ∨ stop.toNat ≤ lo s p := hclear p (by rw [hmm]; exact hp)
      omega
    rw [hun.covers x, hmm, hrev, hrest', hl]
    simp only [covers_append] at hout ⊢
    tauto
  refine ⟨s2, ?_, ⟨hshape.of_eq harea hmm2, ?_, ?_⟩, ?_, ?_, fun hmok => ?_⟩
  · rw [heq, Option.map_some]
  · intro x
    rw [hmm2, ← hcovers x]
    exact covers_congr (fun _ => Iff.rfl) (fun q _ => by rw [harea]) x
  · intro r hr p hp x hrx hpx
    rw [hmm2] at hr
    rw [lo, hi, harea] at hrx
    obtain ⟨p', hp', hpx', hattrs⟩ := hun.same r hr x hrx.1 hrx.2
    have hmem' : p' ∈ (s.mm m).mmap := by
      rw [hmm, mem_append, mem_reverse] at hp'
      rw [hmem]
      tauto
    have hsame : attrs s2 r x = attrs s' r x := attrs_congr (by rw [harea]) x
    rw [hsame, hattrs, h.unique hp hmem' hpx hpx']
    rfl
  · intro p hp
    rw [hmm2] at hp
    rw [hi, lo, harea]
    exact hun.clear p hp
  · have htouch' := htouch1.trans hun.touches ?_
    · exact ⟨fun n hn => by rw [hmm2]; exact htouch'.mm n hn,
        fun p hp => by rw [harea]; exact htouch'.area p hp,
        fun p hp => htouch'.mmap p (by rw [← hmm2]; exact hp)⟩
    · intro p hp
      rw [mem_append, mem_reverse, Option.toList_some, mem_singleton] at hp
      rw [mem_cons, hmem]
      tauto
  · have hmok' := hok (hmok.takeOff hl)
    refine ⟨hmok'.of_eq harea hmm2, s', pre.getLast?, rfl, hmok', hun.clear, ?_, hcovers, ?_⟩
    · intro p hp
      have hpre' : p ∈ pre := mem_of_getLast? hp
      have hmem' : p ∈ (s1.mm m).mmap := by
        rw [hmm]
        exact mem_append_left _ hpre'
      obtain ⟨h1, h2⟩ := hun.keeps p hmem'
      refine ⟨h1, ?_⟩
      rw [hi, h2]
      exact (hprelt p hpre').le
    · refine hun.zaps.mono ?_
      rintro st en ⟨p, hp, hpart⟩
      rw [mem_reverse] at hp
      refine ⟨p, ?_, (hhits p hp).2, hpart.congr rfl⟩
      rw [hmem]
      exact Or.inr (Or.inl hp)

/-- `do_munmap` takes the range from what is covered. -/
theorem Reclaimed.covers {ops : PageOps σ} (h : Reclaimed ops s s' m addr stop)
    (x : ℕ) : Covers s' (s'.mm m).mmap x ↔
      Covers s (s.mm m).mmap x ∧ ¬ (addr.toNat ≤ x ∧ x < stop.toNat) := by
  obtain ⟨s1, prev, rfl, _, _, _, hcov, _⟩ := h
  rw [freePgtables_mm, ← hcov x]
  exact covers_congr (fun _ => Iff.rfl) (fun q _ => by rw [freePgtables_area]) x

/-- Nothing has to go. -/
theorem cut_of_clear {addr stop : ℕ} (h : Shape s m []) (hclear : Clear s m addr stop) :
    Cut s s m addr stop := by
  refine ⟨h, fun x => ⟨fun hx => ⟨hx, ?_⟩, fun hx => hx.1⟩, ?_⟩
  · obtain ⟨p, hp, hpx⟩ := hx
    have := hclear p hp
    omega
  · intro q hq p hp x hqx hpx
    rw [h.unique hq hp hqx hpx]

/-- The ways in which `do_munmap` returns. -/
theorem doMunmap_cases (h : Shape s m []) (extra : Option ℕ)
    (hlen : addr.toNat + (pageAlign len).toNat < 2 ^ 32) :
    (∃ e, (e = -12 ∨ e = -22) ∧ doMunmap ops s m addr len extra = some (s, e) ∧
      (pageAlign len = 0 ∨ extra = none ∨
        ∃ p ∈ (s.mm m).mmap, addr.toNat + (pageAlign len).toNat < hi s p)) ∨
    (doMunmap ops s m addr len extra = some (s, 0) ∧
      Clear s m addr.toNat (addr.toNat + (pageAlign len).toNat)) ∨
    addr < addr + pageAlign len ∧ ∃ q p rest, extra = some q ∧
      (findVmaPrev s m addr).2 = p :: rest ∧ lo s p < addr.toNat + (pageAlign len).toNat ∧
      doMunmap ops s m addr len extra = (unmapAreas ops s m addr (addr + pageAlign len)
        (findVmaPrev s m addr).1 (findVmaPrev s m addr).2 q).map fun s => (s, 0) := by
  have hadd : (addr + pageAlign len).toNat = addr.toNat + (pageAlign len).toNat :=
    toNat_add_of_lt hlen
  have hsplit := findVmaPrev_append s m addr
  have hbelow : ∀ p ∈ (findVmaPrev s m addr).1, hi s p < addr.toNat :=
    fun p hp => hi_lt_of_mem_findVmaPrev hp
  unfold doMunmap
  by_cases hzero : pageAlign len = 0
  · rw [if_pos hzero]
    exact Or.inl ⟨-22, Or.inr rfl, rfl, Or.inl hzero⟩
  rw [if_neg hzero]
  cases hrest : (findVmaPrev s m addr).2 with
  | nil =>
    refine Or.inr (Or.inl ⟨rfl, fun p hp => Or.inl ?_⟩)
    rw [← hsplit, hrest, append_nil] at hp
    exact (hbelow p hp).le
  | cons p rest =>
    dsimp only
    split_ifs with habove hfull
    · refine Or.inr (Or.inl ⟨rfl, fun q hq => ?_⟩)
      rw [le_def, hadd] at habove
      rw [← hsplit, hrest, mem_append] at hq
      rcases hq with hq | hq
      · exact Or.inl (hbelow q hq).le
      · right
        have hord : Ordered (lo s) (hi s) (p :: rest) :=
          h.ordered.sublist (by rw [← hsplit, hrest]; exact sublist_append_right _ _)
        obtain ⟨hlt, hle, _⟩ := ordered_cons.mp hord
        rcases mem_cons.mp hq with rfl | hq
        · exact habove
        · have := hle q hq
          unfold lo hi at *
          omega
    · refine Or.inl ⟨-12, Or.inl rfl, rfl, Or.inr (Or.inr ⟨p, ?_, ?_⟩)⟩
      · rw [← hsplit, hrest]
        exact mem_append_right _ mem_cons_self
      · rw [← hadd]
        exact hfull.1.2
    · cases extra with
      | none => exact Or.inl ⟨-12, Or.inl rfl, rfl, Or.inr (Or.inl rfl)⟩
      | some q =>
        refine Or.inr (Or.inr ⟨?_, q, p, rest, rfl, rfl, ?_, rfl⟩)
        · have hpos : (pageAlign len).toNat ≠ 0 := fun h0 => hzero (eq_of_toNat_eq h0)
          rw [lt_def, hadd]
          omega
        · rw [le_def, hadd, not_le] at habove
          exact habove

/-- **`do_munmap`** on a list of areas: it changes nothing when it returns an error, and cuts
the range out of the areas when it returns 0. -/
theorem doMunmap_cut (h : Shape s m []) (haddr : 4096 ∣ addr.toNat)
    (hlen : addr.toNat + (pageAlign len).toNat < 2 ^ 32) (hfresh : ∀ q ∈ extra, q ∉ (s.mm m).mmap) :
    ∃ s' r, doMunmap ops s m addr len extra = some (s', r) ∧ (r = 0 ∨ r = -12 ∨ r = -22) ∧
      (r ≠ 0 → s' = s) ∧
      (r = 0 → Clear s' m addr.toNat (addr.toNat + (pageAlign len).toNat) ∧
        Cut s s' m addr.toNat (addr.toNat + (pageAlign len).toNat)) ∧
      (s' = s ∨ Touches s s' m (extra.toList ++ (s.mm m).mmap) ∧
        (MmOk s m → MmOk s' m ∧ Reclaimed ops s s' m addr (addr + pageAlign len))) := by
  have hadd : (addr + pageAlign len).toNat = addr.toNat + (pageAlign len).toNat :=
    toNat_add_of_lt hlen
  rcases doMunmap_cases ops h extra hlen with
    ⟨e, he, heq, _⟩ | ⟨heq, hclear⟩ | ⟨hlt, q, _, _, rfl, _, _, heq⟩
  · exact ⟨s, e, heq, Or.inr he, fun _ => rfl, fun h0 => by omega, Or.inl rfl⟩
  · exact ⟨s, 0, heq, Or.inl rfl, fun _ => rfl, fun _ => ⟨hclear, cut_of_clear h hclear⟩,
      Or.inl rfl⟩
  · obtain ⟨s', hun, hcut, hclear, htouch, hrec⟩ := unmapAreas_spec ops h haddr
      (by rw [hadd]; exact Nat.dvd_add haddr (dvd_pageAlign len)) hlt (hfresh q rfl)
    rw [hadd] at hcut hclear
    rw [hun] at heq
    exact ⟨s', 0, heq, Or.inl rfl, fun hr => absurd rfl hr, fun _ => ⟨hclear, hcut⟩,
      Or.inr ⟨htouch, hrec⟩⟩

/-- **`do_munmap` keeps the invariant**, and clears the range when it returns 0. -/
theorem doMunmap_spec (h : Inv s) (haddr : 4096 ∣ addr.toNat)
    (hlen : addr.toNat + (pageAlign len).toNat < 2 ^ 32)
    (hfresh : ∀ q ∈ extra, ∀ n, q ∉ (s.mm n).mmap) :
    ∃ s' r, doMunmap ops s m addr len extra = some (s', r) ∧ Inv s' ∧
      (r = 0 → Clear s' m addr.toNat (addr.toNat + (pageAlign len).toNat)) ∧
      (r = 0 ∨ r = -12 ∨ r = -22) ∧
      (s' = s ∨ Reclaimed ops s s' m addr (addr + pageAlign len)) := by
  obtain ⟨s', r, heq, hret, _, hcut, hcase⟩ := doMunmap_cut ops (h.mm m).shape haddr hlen
    (fun q hq => hfresh q hq m)
  refine ⟨s', r, heq, ?_, fun hr => (hcut hr).1, hret, ?_⟩
  · rcases hcase with rfl | ⟨htouch, hrec⟩
    · exact h
    · refine h.of_touches htouch (hrec (h.mm m)).1 fun p hp n hn => ?_
      rcases mem_append.mp hp with hp | hp
      · exact hfresh p (Option.mem_toList.mp hp) n
      · exact h.sep m n (Ne.symm hn) p hp
  · exact hcase.imp_right fun hrec => (hrec.2 (h.mm m)).2

end

end Mmap

end Yap
