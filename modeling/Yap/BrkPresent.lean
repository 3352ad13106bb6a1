/-
# What `do_brk` maps is present (`mm/mmap.c`, `mm/memory.c`)

`do_brk` populates the range it maps, but ignores whether that has worked.  A range that has
not been used before gets a frame for each page.  A page that has been unmapped does not: its
entry, or the directory entry of its section, has been cleared to something that is not zero.

`do_munmap` frees the tables that no area needs any more.  The bounds it computes from the
neighbouring areas are right (`freePgtablesBounds_spec`), so that every area keeps its tables.
-/
import Mathlib.Data.List.Basic
import Yap.PageTableInvariant

namespace Yap

namespace Paging

open Mmap Ranges List BitVec

variable {α : Type}

/-! ## The tables that `do_munmap` frees -/

variable {start stop addr : BitVec 32} {x k : ℕ}

section

variable {σ : Type} {s : State σ} {m : ℕ}

theorem dropWhile_ne_append {p : ℕ} {l r : List ℕ} (h : p ∉ l) :
    (l ++ p :: r).dropWhile (fun q => decide (q ≠ p)) = p :: r := by
  induction l with
  | nil => simp
  | cons a l ih =>
    have ha : a ≠ p := fun hap => h (by rw [hap]; exact mem_cons_self)
    rw [List.cons_append, dropWhile_cons, if_pos (decide_eq_true ha)]
    exact ih (fun hp => h (mem_cons_of_mem _ hp))

/-- The last of a list of areas ends last. -/
theorem hi_le_of_ordered {lo hi : ℕ → ℕ} {l : List ℕ} {r q : ℕ} (h : Ordered lo hi (l ++ [r]))
    (hq : q ∈ l ++ [r]) : hi q ≤ hi r := by
  rcases mem_append.mp hq with hq' | hq'
  · have h1 := (ordered_append.mp h).2.2 q hq' r (mem_singleton_self r)
    have h2 := h.lt r (by simp)
    omega
  · rw [mem_singleton.mp hq']

theorem toNat_sectionEnd (x : BitVec 32) :
    (x + pgdirSize - 1).toNat = (x.toNat + (2 ^ 20 - 1)) % 2 ^ 32 := by
  have h : x + pgdirSize - 1 = x + (pgdirSize - 1) := by
    rw [BitVec.sub_eq_add_neg, BitVec.sub_eq_add_neg, BitVec.add_assoc]
  have hones : (pgdirSize - 1).toNat = 2 ^ 20 - 1 := by decide
  rw [h, toNat_add, hones]

theorem toNat_sectionStart (x : BitVec 32) :
    (x &&& ~~~(pgdirSize - 1)).toNat = x.toNat / 2 ^ 20 * 2 ^ 20 := by
  have hmask : ~~~(pgdirSize - 1) = maskOf 20 := by decide
  rw [hmask, toNat_and_maskOf]

/-- What the bounds `b` of `free_pgtables` are: `e` is where the areas below the range end. -/
structure Bounds (s : State σ) (m : ℕ) (start stop : BitVec 32) (b : BitVec 32 × BitVec 32)
    (e : ℕ) : Prop where
  le : e ≤ start.toNat
  ends : ∀ q ∈ (s.mm m).mmap, hi s q ≤ start.toNat → hi s q ≤ e
  met : e ≠ 0 → Covers s (s.mm m).mmap (e - 1)
  first : b.1.toNat = if start.toNat / 2 ^ 20 * 2 ^ 20 < e then (e + (2 ^ 20 - 1)) % 2 ^ 32
    else start.toNat / 2 ^ 20 * 2 ^ 20
  last : b.2.toNat ≤ (stop + pgdirSize - 1).toNat
  next : ∀ q ∈ (s.mm m).mmap, start.toNat ≤ lo s q → b.2.toNat ≤ lo s q
  stops : b.2 = stop + pgdirSize - 1 ∨
    start.toNat ≤ b.2.toNat ∧ Covers s (s.mm m).mmap b.2.toNat

variable (hord : Ordered (lo s) (hi s) (s.mm m).mmap) (hlt : start.toNat < stop.toNat)
  (hclear : Clear s m start.toNat stop.toNat)

include hord

theorem covers_lo {q : ℕ} (hq : q ∈ (s.mm m).mmap) : Covers s (s.mm m).mmap (lo s q) :=
  ⟨q, hq, le_rfl, hord.lt q hq⟩

include hlt hclear

/-- The walk of `free_pgtables` from an area below `start`: it stops between the last area that
ends below the range and the first one behind it. -/
theorem freePgtablesWalk_spec {p : ℕ} (hp : p ∈ (s.mm m).mmap) (hhi : hi s p ≤ start.toNat) :
    ∃ e, Bounds s m start stop (freePgtablesWalk s m p start (start &&& ~~~(pgdirSize - 1))
      (stop + pgdirSize - 1)) e := by
  have hcov := fun q => covers_lo hord (q := q)
  obtain ⟨ahead, behind, hsplit⟩ := append_of_mem hp
  have hnot : p ∉ ahead := by
    have hnodup := hord.nodup
    rw [hsplit, nodup_append] at hnodup
    exact fun h => hnodup.2.2 p h p mem_cons_self rfl
  have hbehind : ((s.mm m).mmap.dropWhile (fun q => decide (q ≠ p))).tail = behind := by
    rw [hsplit, dropWhile_ne_append hnot, tail_cons]
  unfold freePgtablesWalk
  simp only [hbehind]
  set below := behind.takeWhile fun q => decide ((s.area q).vmStart < start)
  set above := behind.dropWhile fun q => decide ((s.area q).vmStart < start)
  have hparts : below ++ above = behind := takeWhile_append_dropWhile
  have hlist : (s.mm m).mmap = (ahead ++ p :: below) ++ above := by
    rw [hsplit, ← hparts]
    simp
  rw [hlist] at hord
  obtain ⟨hord1, hord2, _⟩ := ordered_append.mp hord
  have hlow : ∀ q ∈ below, lo s q < start.toNat := by
    intro q hq
    have h := mem_takeWhile_imp hq
    exact of_decide_eq_true h
  have hhigh : ∀ q ∈ above, start.toNat ≤ lo s q := by
    have hob : Ordered (lo s) (hi s) behind := by
      rw [← hparts]
      refine hord.sublist ?_
      simp
    exact hob.le_lo_of_mem_dropWhile
  have hends : ∀ q ∈ ahead ++ p :: below, hi s q ≤ start.toNat := by
    intro q hq
    rcases mem_append.mp hq with hq' | hq'
    · have h1 := (ordered_append.mp hord1).2.2 q hq' p mem_cons_self
      have h2 := hord1.lt p (by simp)
      omega
    · rcases mem_cons.mp hq' with rfl | hq'
      · exact hhi
      · have h1 := hlow q hq'
        have h2 := hclear q (by rw [hlist]; simp [hq'])
        omega
  have hside : ∀ q ∈ (s.mm m).mmap, q ∈ ahead ++ p :: below ∨ q ∈ above := by
    intro q hq
    rw [hlist] at hq
    exact mem_append.mp hq
  have hlast : ahead ++ p :: below = (ahead ++ (p :: below).dropLast) ++ [below.getLastD p] := by
    rw [List.append_assoc, ← getLast_eq_getLastD (cons_ne_nil p below), dropLast_append_getLast]
  set r := below.getLastD p
  have hr : r ∈ ahead ++ p :: below := by
    rw [hlast]
    simp
  have hrlt := hord1.lt r hr
  have hbehind' : ∀ q ∈ (s.mm m).mmap, start.toNat ≤ lo s q → q ∈ above := by
    intro q hq hle
    refine (hside q hq).resolve_left fun hq => ?_
    have h1 := hends q hq
    have h2 := hord1.lt q hq
    omega
  have hsame : (if start &&& ~~~(pgdirSize - 1) < (s.area r).vmEnd then
      (s.area r).vmEnd + pgdirSize - 1 else start &&& ~~~(pgdirSize - 1)).toNat =
      if start.toNat / 2 ^ 20 * 2 ^ 20 < hi s r then (hi s r + (2 ^ 20 - 1)) % 2 ^ 32
      else start.toNat / 2 ^ 20 * 2 ^ 20 := by
    rw [apply_ite BitVec.toNat, toNat_sectionEnd, ← toNat_sectionStart]
    rfl
  have hfar : ∀ q ∈ (s.mm m).mmap, hi s q ≤ start.toNat → hi s q ≤ hi s r := by
    intro q hq hle
    rcases hside q hq with hq | hq
    · rw [hlast] at hord1 hq
      exact hi_le_of_ordered hord1 hq
    · have h1 := hhigh q hq
      have h2 := hord2.lt q hq
      omega
  have hmet : Covers s (s.mm m).mmap (hi s r - 1) :=
    ⟨r, by rw [hlist]; exact mem_append_left _ hr, by omega, by omega⟩
  cases habv : above with
  | nil =>
    rw [habv] at hbehind'
    exact ⟨hi s r, hends r hr, hfar, fun _ => hmet, hsame, le_rfl,
      fun q hq hle => absurd (hbehind' q hq hle) not_mem_nil, Or.inl rfl⟩
  | cons next rest =>
    have hnext : next ∈ above := by rw [habv]; exact mem_cons_self
    have hmin := toNat_smaller (s.area next).vmStart (stop + pgdirSize - 1)
    simp only [head?_cons]
    refine ⟨hi s r, hends r hr, hfar, fun _ => hmet, hsame, ?_, fun q hq hle => ?_, ?_⟩
    · dsimp only
      rw [hmin]
      exact Nat.min_le_right _ _
    · dsimp only
      rw [hmin]
      refine (Nat.min_le_left _ _).trans ?_
      have hq' := hbehind' q hq hle
      rw [habv] at hq' hord2
      obtain ⟨h0, hrest, -⟩ := ordered_cons.mp hord2
      rcases mem_cons.mp hq' with rfl | hq'
      · exact le_rfl
      · have h1 := hrest q hq'
        unfold lo hi at *
        omega
    · dsimp only
      split_ifs
      · exact Or.inr ⟨hhigh next hnext, hcov next (by rw [hlist]; exact mem_append_right _ hnext)⟩
      · exact Or.inl rfl

variable {prev : Option ℕ} (hprev : ∀ p ∈ prev, p ∈ (s.mm m).mmap ∧ hi s p ≤ start.toNat)

include hprev

theorem freePgtablesBounds_bounds :
    ∃ e, Bounds s m start stop (freePgtablesBounds s m prev start stop) e := by
  unfold freePgtablesBounds
  cases prev with
  | some p => exact freePgtablesWalk_spec hord hlt hclear (hprev p rfl).1 (hprev p rfl).2
  | none =>
    cases hlist : (s.mm m).mmap with
    | nil =>
      have hnone : ∀ q, q ∉ (s.mm m).mmap := fun q => by rw [hlist]; exact not_mem_nil
      exact ⟨0, Nat.zero_le _, fun q hq => absurd hq (hnone q), fun h => absurd rfl h,
        by rw [toNat_sectionStart, if_neg (Nat.not_lt_zero _)], le_rfl,
        fun q hq => absurd hq (hnone q), Or.inl rfl⟩
    | cons p rest =>
      have hp : p ∈ (s.mm m).mmap := by rw [hlist]; exact mem_cons_self
      by_cases hend : start < (s.area p).vmEnd
      · -- all areas are behind the range
        have hbehind : ∀ q ∈ (s.mm m).mmap, lo s p ≤ lo s q ∧ start.toNat < hi s q := by
          have hend' : start.toNat < hi s p := hend
          intro q hq
          rw [hlist] at hord hq
          obtain ⟨-, hrest, -⟩ := ordered_cons.mp hord
          rcases mem_cons.mp hq with rfl | hq'
          · exact ⟨le_rfl, hend'⟩
          · have h1 := hrest q hq'
            have h2 := hord.lt q hq
            have h3 := hord.lt p mem_cons_self
            omega
        have hmin := toNat_smaller (s.area p).vmStart (stop + pgdirSize - 1)
        have hlo := hclear p hp
        have hlt' := (hbehind p hp).2
        simp only [if_pos hend]
        refine ⟨0, Nat.zero_le _, fun q hq hle => ?_, fun h => absurd rfl h,
          by rw [toNat_sectionStart, if_neg (Nat.not_lt_zero _)], ?_, fun q hq hle => ?_, ?_⟩
        · have h1 := (hbehind q hq).2
          omega
        · dsimp only
          rw [hmin]
          exact Nat.min_le_right _ _
        · dsimp only
          rw [hmin]
          exact (Nat.min_le_left _ _).trans (hbehind q hq).1
        · dsimp only
          split_ifs
          · exact Or.inr ⟨show start.toNat ≤ lo s p by omega, covers_lo hord hp⟩
          · exact Or.inl rfl
      · simp only [if_neg hend]
        rw [lt_def] at hend
        exact freePgtablesWalk_spec hord hlt hclear hp (by unfold hi; omega)

/-- **No section that `free_pgtables` clears has a point of an area.** -/
theorem freePgtablesBounds_spec {i : ℕ}
    (hi1 : (pgdIndex (freePgtablesBounds s m prev start stop).1).toNat ≤ i)
    (hi2 : i < (pgdIndex (freePgtablesBounds s m prev start stop).2).toNat)
    (hx : Covers s (s.mm m).mmap x) : x / 2 ^ 20 ≠ i := by
  obtain ⟨q, hq, hx1, hx2⟩ := hx
  obtain ⟨e, hb⟩ := freePgtablesBounds_bounds hord hlt hclear hprev
  have hle := hb.le
  have hfirst := hb.first
  have hlast := hb.last
  rw [toNat_sectionEnd] at hlast
  rw [toNat_pgdIndex] at hi1 hi2
  rcases hclear q hq with hq' | hq'
  · have hend := hb.ends q hq hq'
    by_cases hcut : start.toNat / 2 ^ 20 * 2 ^ 20 < e
    · -- when the end of the areas below wraps, so does the end of the range, and nothing is freed
      rw [if_pos hcut] at hfirst
      omega
    · rw [if_neg hcut] at hfirst
      omega
  · have hnext := hb.next q hq (by omega)
    omega

/-- Every section of the range without an area is between the bounds. -/
theorem freePgtablesBounds_complete (hend : stop.toNat + 2 ^ 20 ≤ 2 ^ 32) (hx1 : start.toNat ≤ x)
    (hx2 : x < stop.toNat) (hnone : ∀ y, Covers s (s.mm m).mmap y → y / 2 ^ 20 ≠ x / 2 ^ 20) :
    (pgdIndex (freePgtablesBounds s m prev start stop).1).toNat ≤ x / 2 ^ 20 ∧
      x / 2 ^ 20 < (pgdIndex (freePgtablesBounds s m prev start stop).2).toNat := by
  obtain ⟨e, hb⟩ := freePgtablesBounds_bounds hord hlt hclear hprev
  have hle := hb.le
  have hfirst := hb.first
  rw [toNat_pgdIndex, toNat_pgdIndex]
  constructor
  · by_cases hcut : start.toNat / 2 ^ 20 * 2 ^ 20 < e
    · have hne := hnone _ (hb.met (by omega))
      rw [if_pos hcut] at hfirst
      omega
    · rw [if_neg hcut] at hfirst
      omega
  · rcases hb.stops with hlast | ⟨hlo, hcov⟩
    · rw [hlast, toNat_sectionEnd]
      omega
    · have hne := hnone _ hcov
      obtain ⟨q, hq, h1, h2⟩ := hcov
      have h3 := hclear q hq
      omega

end

/-! ## What `do_munmap` does to the page tables -/

section

variable {M : Machine α} {A : ℕ → Prop} {s s' : State (Pages α)} {g g' : Pages α} {m : ℕ}

/-- Zaps of ranges that have tables. -/
theorem PagesOk.zaps {C : ℕ → ℕ → Prop} (h : PagesOk M A g) (hm : A m)
    (hz : Zaps (pageOps M) m C g g') (hC : ∀ st en, C st en → en < 2 ^ 32)
    (htab : ∀ st en x, C st en → st ≤ x → x < en → ∃ t, HasTable M g m (x / 2 ^ 20) t) :
    PagesOk M A g' ∧ Zapped M g g' ∧ ((∀ st en, C st en → en ≤ st) → g'.mem = g.mem) := by
  induction hz with
  | refl g => exact ⟨h, Zapped.refl g, fun _ => rfl⟩
  | zap st size hc _ ih =>
    obtain ⟨h1, h2, h3⟩ := h.zapPageRange hm (hC _ _ hc) (fun x => htab _ _ x hc)
    obtain ⟨h4, h5, h6⟩ := ih h1 fun st en x hc hx1 hx2 => by
      obtain ⟨t, ht⟩ := htab st en x hc hx1 hx2
      exact ⟨t, (h2.tables m _ t).mpr ht⟩
    refine ⟨h4, h2.trans h5, fun hnone => (h6 hnone).trans (h3 ?_)⟩
    have hle := hnone _ _ hc
    have hzero : size.toNat = 0 := by omega
    exact eq_of_toNat_eq hzero

/-- `free_pgtables` leaves the tables of the areas alone. -/
theorem PagesOk.freePgtables (h : PagesOk M A s.pages) (hm : A m) {prev : Option ℕ}
    (hord : Ordered (lo s) (hi s) (s.mm m).mmap) (hlt : start.toNat < stop.toNat)
    (hclear : Clear s m start.toNat stop.toNat)
    (hprev : ∀ p ∈ prev, p ∈ (s.mm m).mmap ∧ hi s p ≤ start.toNat) :
    PagesOk M A (freePgtables (pageOps M) s m prev start stop).pages ∧
      (∀ i, s.pages.pgd m i = 0 ∨ (∃ x, Covers s (s.mm m).mmap x ∧ x / 2 ^ 20 = i) →
        (freePgtables (pageOps M) s m prev start stop).pages.pgd m i = s.pages.pgd m i) ∧
      (freePgtables (pageOps M) s m prev start stop).pages.mem = s.pages.mem ∧
      (freePgtables (pageOps M) s m prev start stop).pages.failed = s.pages.failed := by
  have hbounds := fun i x => freePgtablesBounds_spec hord hlt hclear hprev (i := i) (x := x)
  unfold Mmap.freePgtables
  simp only
  generalize freePgtablesBounds s m prev start stop = b at *
  split_ifs with hb
  · have hle : (pgdIndex b.1).toNat ≤ (pgdIndex b.2).toNat := (lt_def.mp hb).le
    have hsub : (pgdIndex b.2 - pgdIndex b.1).toNat = (pgdIndex b.2).toNat - (pgdIndex b.1).toNat :=
      toNat_sub_of_le (le_def.mpr hle)
    have hend : (pgdIndex b.2).toNat ≤ 4096 := by
      have := b.2.isLt
      rw [toNat_pgdIndex]
      omega
    obtain ⟨h1, h2⟩ := h.clearTables hm
      (show (pgdIndex b.1).toNat + (pgdIndex b.2 - pgdIndex b.1).toNat ≤ 4096 by omega)
    refine ⟨h1, ?_, h2.mem, h2.failed⟩
    rintro i (h0 | ⟨x, hx, rfl⟩)
    · rw [h0]
      exact h2.empty i h0
    · apply h2.outside
      by_contra hin
      exact hbounds _ x (by omega) (by omega) hx rfl
  · exact ⟨h, fun _ _ => rfl, rfl, rfl⟩

/-- What `free_one_pmd` leaves of a directory entry: `pmd_clear` writes an empty one. -/
def cleared (d : BitVec 32) : BitVec 32 := if d = 0 then 0 else setPmd 0

theorem pgd_freeOnePmd (g : Pages α) (i j : ℕ) : (freeOnePmd M g m i).pgd m j =
    if j = i then cleared (g.pgd m j) else g.pgd m j := by
  have hset : (g.setDir m i (setPmd 0)).pgd m j = if j = i then setPmd 0 else g.pgd m j := by
    simp [Pages.setDir]
  unfold freeOnePmd cleared
  by_cases h0 : g.pgd m i = 0
  · rw [if_pos h0]
    split_ifs with hj hd
    · rw [hj, h0]
    · exact absurd (hj ▸ h0) hd
    · rfl
  · have hfree : ∀ a, (freePages M (g.setDir m i (setPmd 0)) a).pgd =
        (g.setDir m i (setPmd 0)).pgd := by
      intro a
      unfold freePages
      split_ifs
      · exact (freePage_frame M _ _).1
      · rfl
    rw [if_neg h0, apply_ite (Pages.pgd · m j), hfree, ite_self, hset]
    split_ifs with hj hd
    · exact absurd (hj ▸ hd) h0
    · rfl
    · rfl

theorem pgd_clearTables (n i j : ℕ) (g : Pages α) : (clearTables M m n i g).pgd m j =
    if i ≤ j ∧ j < i + n then cleared (g.pgd m j) else g.pgd m j := by
  induction n generalizing i g with
  | zero => rw [if_neg (by omega), clearTables]
  | succ n ih =>
    rw [clearTables, ih, pgd_freeOnePmd]
    split_ifs <;> first | rfl | omega

/-- **Reclaiming page tables.**  For every area list and range that no area meets, `free_pgtables`
leaves the directory entry of a section with a point of an area as it is; and when the end of the
range is 1 MB below the end of the address space, it clears that of every other section of the
range. -/
theorem freePgtables_sections (M : Machine α) {prev : Option ℕ}
    (hord : Ordered (lo s) (hi s) (s.mm m).mmap) (hlt : start.toNat < stop.toNat)
    (hclear : Clear s m start.toNat stop.toNat)
    (hprev : ∀ p ∈ prev, p ∈ (s.mm m).mmap ∧ hi s p ≤ start.toNat) :
    (∀ x, Covers s (s.mm m).mmap x →
      (freePgtables (pageOps M) s m prev start stop).pages.pgd m (x / 2 ^ 20) =
        s.pages.pgd m (x / 2 ^ 20)) ∧
    (stop.toNat + 2 ^ 20 ≤ 2 ^ 32 → ∀ x, start.toNat ≤ x → x < stop.toNat →
      (∀ y, Covers s (s.mm m).mmap y → y / 2 ^ 20 ≠ x / 2 ^ 20) →
      (freePgtables (pageOps M) s m prev start stop).pages.pgd m (x / 2 ^ 20) =
        cleared (s.pages.pgd m (x / 2 ^ 20))) := by
  have hsafe := fun i x => freePgtablesBounds_spec hord hlt hclear hprev (i := i) (x := x)
  have hall := fun x => freePgtablesBounds_complete hord hlt hclear hprev (x := x)
  unfold Mmap.freePgtables
  generalize freePgtablesBounds s m prev start stop = b at *
  have hpgd : (if pgdIndex b.1 < pgdIndex b.2 then { s with
      pages := (pageOps M).clearPageTables s.pages m (pgdIndex b.1) (pgdIndex b.2 - pgdIndex b.1) }
      else s).pages.pgd m = fun j =>
        if (pgdIndex b.1).toNat ≤ j ∧ j < (pgdIndex b.2).toNat then cleared (s.pages.pgd m j)
        else s.pages.pgd m j := by
    funext j
    by_cases hb : pgdIndex b.1 < pgdIndex b.2
    · rw [if_pos hb]
      refine (pgd_clearTables _ _ j _).trans ?_
      rw [toNat_sub_of_le (le_def.mpr (lt_def.mp hb).le), Nat.add_sub_cancel' (lt_def.mp hb).le]
    · rw [if_neg hb]
      rw [lt_def] at hb
      rw [if_neg (by omega)]
  rw [hpgd]
  constructor
  · intro x hx
    exact if_neg fun h => hsafe _ x h.1 h.2 hx rfl
  · intro hend x hx₁ hx₂ hnone
    exact if_pos (hall x hend hx₁ hx₂ hnone)

/-- An address space whose areas have their tables. -/
structure SpaceOk (M : Machine α) (A : ℕ → Prop) (m : ℕ) (s : State (Pages α)) : Prop where
  inv : Inv s
  pages : PagesOk M A s.pages
  tabled : ∀ x, Covers s (s.mm m).mmap x → ∃ t, HasTable M s.pages m (x / 2 ^ 20) t

/-- The page number `k` has never been mapped: its section is empty, or has a table for some
area with a zero for the page. -/
def Unused (M : Machine α) (s : State (Pages α)) (m k : ℕ) : Prop :=
  s.pages.pgd m (k / 256) = 0 ∨
    ∃ t, HasTable M s.pages m (k / 256) t ∧ s.pages.mem t (k % 256) = 0 ∧
      ∃ x, Covers s (s.mm m).mmap x ∧ x / 2 ^ 20 = k / 256

theorem clear_covers {addr stop : ℕ} (h : Clear s m addr stop)
    (hx : Covers s (s.mm m).mmap x) : ¬ (addr ≤ x ∧ x < stop) := by
  obtain ⟨p, hp, h1, h2⟩ := hx
  have := h p hp
  omega

/-- **`do_munmap` and the page tables.**  What is left of the areas keeps its tables; when the
range was clear, an unused page is still empty. -/
theorem SpaceOk.reclaimed (h : SpaceOk M A m s) (hm : A m) (hlt : addr.toNat < stop.toNat)
    (hr : Reclaimed (pageOps M) s s' m addr stop) :
    PagesOk M A s'.pages ∧ (∀ x, Covers s' (s'.mm m).mmap x →
      ∃ t, HasTable M s'.pages m (x / 2 ^ 20) t) ∧ s'.pages.failed = s.pages.failed ∧
    (Clear s m addr.toNat stop.toNat → ∀ k, Unused M s m k → Empty M s'.pages m k) := by
  have hcov := hr.covers
  obtain ⟨s1, prev, rfl, hok, hclear, hprev, hcov1, hzaps⟩ := hr
  obtain ⟨hpages, hzapped, hmem⟩ := h.pages.zaps hm hzaps
    (fun st en ⟨p, _, _, hpart⟩ => hpart.le_hi.trans_lt (s.area p).vmEnd.isLt)
    (fun st en x ⟨p, hp, _, hpart⟩ hx1 hx2 =>
      h.tabled x ⟨p, hp, hpart.lo_le.trans hx1, hx2.trans_le hpart.le_hi⟩)
  obtain ⟨hpages', hpgd, hmem', hfailed⟩ :=
    hpages.freePgtables hm hok.shape.ordered hlt hclear hprev
  have hkeep : ∀ x, Covers s1 (s1.mm m).mmap x → ∀ t, HasTable M s.pages m (x / 2 ^ 20) t →
      HasTable M (freePgtables (pageOps M) s1 m prev addr stop).pages m (x / 2 ^ 20) t := by
    intro x hx t ht
    exact ((hzapped.tables m _ t).mpr ht).congr (hpgd _ (Or.inr ⟨x, hx, rfl⟩))
  refine ⟨hpages', fun x hx => ?_, hfailed.trans hzapped.failed, fun hclear0 k hk => ?_⟩
  · obtain ⟨hx0, hx1⟩ := (hcov x).mp hx
    obtain ⟨t, ht⟩ := h.tabled x hx0
    exact ⟨t, hkeep x ((hcov1 x).mpr ⟨hx0, hx1⟩) t ht⟩
  · rcases hk with h0 | ⟨t, ht, hzero, x, hx, hxk⟩
    · left
      have h0' := hzapped.empty m _ h0
      rw [hpgd _ (Or.inl h0'), h0']
    · right
      refine ⟨t, ?_, ?_⟩
      · rw [← hxk] at ht ⊢
        exact hkeep x ((hcov1 x).mpr ⟨hx, clear_covers hclear0 hx⟩) t ht
      · -- every part of an area in the range is empty, so that no word has been written
        rw [hmem', hmem, hzero]
        rintro st en ⟨p, hp, _, hpart⟩
        have h1 := hclear0 p hp
        have h3 := hpart.le_hi
        have h4 := hpart.addr_le
        omega

/-! ## What `do_brk` does to the page tables -/

/-- The loop of `make_pages_present` over empty pages, by induction on the rounds left: it maps
all of them, or runs out of memory. -/
theorem PagesOk.presentLoop (h : PagesOk M A g) (hm : A m) {vma : VmArea}
    (hprot : vma.vmPageProt.toNat < 4096) (stop : BitVec 32) {n : ℕ} (haddr : 4096 ∣ addr.toNat)
    (hstop : 4096 ∣ stop.toNat) (hlt : addr.toNat < stop.toNat)
    (hn : stop.toNat ≤ addr.toNat + 4096 * n)
    (hempty : ∀ k, addr.toNat / 4096 ≤ k → k < stop.toNat / 4096 → Empty M g m k) :
    (Mmap.presentLoop (pageOps M) m vma true stop n addr g).failed = true ∨
      PagesOk M A (Mmap.presentLoop (pageOps M) m vma true stop n addr g) ∧
      Grown M A (fun l k => l = m ∧ addr.toNat / 4096 ≤ k ∧ k < stop.toNat / 4096) g
        (Mmap.presentLoop (pageOps M) m vma true stop n addr g) ∧
      ∀ k, addr.toNat / 4096 ≤ k → k < stop.toNat / 4096 →
        ∃ f, Maps M (Mmap.presentLoop (pageOps M) m vma true stop n addr g) m k f := by
  induction n generalizing addr g with
  | zero => omega
  | succ n ih =>
    have hpage := toNat_pageSize
    have hnext : (addr + pageSize).toNat = addr.toNat + 4096 := by
      rw [toNat_add_of_lt (by rw [hpage]; omega), hpage]
    have hstep : (pageOps M).handleMmFault g m vma addr true =
        Paging.handleMmFault M g m vma addr true := rfl
    have hfault := h.handleMmFault hm hprot (hempty _ le_rfl (by omega))
    simp only [Mmap.presentLoop, hstep]
    rcases hfault with ⟨hr, hfail⟩ | ⟨hr, h1, hgrown, f, hf⟩
    · rw [if_pos (by rw [hr]; decide)]
      exact Or.inl hfail
    · rw [if_neg (by rw [hr]; decide)]
      split_ifs with hgo
      · rw [lt_def, hnext] at hgo
        have hrest := ih h1 (show 4096 ∣ (addr + pageSize).toNat by rw [hnext]; omega)
          (by rw [hnext]; exact hgo) (by rw [hnext]; omega) (fun k hk1 hk2 => by
            exact hgrown.empty m k hm (fun hx => by omega) (hempty k (by omega) hk2))
        refine hrest.imp id fun ⟨h2, hgrown', hmaps⟩ => ⟨h2, ?_, ?_⟩
        · refine (hgrown.mono ?_).trans (hgrown'.mono ?_) (fun _ _ hx => hx)
          · rintro l k ⟨rfl, rfl⟩
            exact ⟨rfl, le_rfl, by omega⟩
          · rintro l k ⟨rfl, hk1, hk2⟩
            exact ⟨rfl, by omega, hk2⟩
        · intro k hk1 hk2
          by_cases hk : k = addr.toNat / 4096
          · rw [hk]
            exact ⟨f, hgrown'.maps m _ f hm hf⟩
          · exact hmaps k (by rw [hnext]; omega) hk2
      · -- the last page
        rw [lt_def, hnext] at hgo
        refine Or.inr ⟨h1, hgrown.mono ?_, fun k hk1 hk2 => ?_⟩
        · rintro l k ⟨rfl, rfl⟩
          exact ⟨rfl, le_rfl, by omega⟩
        · rw [show k = addr.toNat / 4096 by omega]
          exact ⟨f, hf⟩

/-- The page number `k` of `m` is mapped to a frame that is in use, once, and in no other
place. -/
def Owns (M : Machine α) (A : ℕ → Prop) (g : Pages α) (m k : ℕ) : Prop :=
  ∃ f, Maps M g m k f ∧ g.count f = 1 ∧ ¬ M.pool.free g.free f ∧
    ∀ x, Holds M A g x f → x = .page m k

theorem PagesOk.owns (h : PagesOk M A g) (hm : A m) {f : ℕ} (hf : Maps M g m k f) :
    Owns M A g m k := by
  have hx : Holds M A g (.page m k) f := ⟨hm, hf⟩
  exact ⟨f, hf, (h.used hx).1, h.held.not_free hx, fun x hx' => h.held.unique hx' hx⟩

/-- The range of a `do_brk` has not been used: it is clear of areas, and no page of it has ever
been mapped. -/
def BrkUnused (M : Machine α) (s : State (Pages α)) (m : ℕ) (addr len : BitVec 32) : Prop :=
  Clear s m addr.toNat (addr.toNat + (pageAlign len).toNat) ∧
    ∀ k, addr.toNat / 4096 ≤ k → k < (addr.toNat + (pageAlign len).toNat) / 4096 → Unused M s m k

/-- `do_munmap` keeps the tables of the areas. -/
theorem SpaceOk.munmap (h : SpaceOk M A m s) (hm : A m) {len : BitVec 32} {extra : Option ℕ}
    (hvalid : (Event.munmap m addr len extra).Valid (pageOps M) s) {r : ℤ}
    (heq : doMunmap (pageOps M) s m addr len extra = some (s', r)) :
    SpaceOk M A m s' ∧ s'.pages.failed = s.pages.failed ∧
    (Clear s m addr.toNat (addr.toNat + (pageAlign len).toNat) →
      (∀ k, Unused M s m k → Empty M s'.pages m k) ∧
      ∀ x, Covers s (s.mm m).mmap x → Covers s' (s'.mm m).mmap x) := by
  obtain ⟨haddr, hlen, hfresh⟩ := hvalid
  have hempty : ∀ k, Unused M s m k → Empty M s.pages m k :=
    fun k hk => hk.imp id fun ⟨t, ht, hz, _⟩ => ⟨t, ht, hz⟩
  by_cases hzero : pageAlign len = 0
  · unfold doMunmap at heq
    rw [if_pos hzero] at heq
    obtain ⟨rfl, _⟩ := Prod.mk.inj (Option.some.inj heq)
    exact ⟨h, rfl, fun _ => ⟨hempty, fun _ hx => hx⟩⟩
  obtain ⟨s1, r1, heq1, hinv, _, _, hrec⟩ := doMunmap_spec (pageOps M) h.inv haddr hlen hfresh
  rw [heq] at heq1
  obtain ⟨rfl, _⟩ := Prod.mk.inj (Option.some.inj heq1)
  rcases hrec with rfl | hrec
  · exact ⟨h, rfl, fun _ => ⟨hempty, fun _ hx => hx⟩⟩
  · have hadd : (addr + pageAlign len).toNat = addr.toNat + (pageAlign len).toNat :=
      toNat_add_of_lt hlen
    have hpos : (pageAlign len).toNat ≠ 0 := fun h0 => hzero (eq_of_toNat_eq h0)
    obtain ⟨h1, h2, h3, h4⟩ := h.reclaimed hm (by omega) hrec
    refine ⟨⟨hinv, h1, h2⟩, h3, fun hclear => ?_⟩
    rw [← hadd] at hclear
    exact ⟨h4 hclear, fun x hx => (hrec.covers x).mpr ⟨hx, clear_covers hclear hx⟩⟩

/-- **`do_brk` in an unused range**: when it returns the address and no allocation has failed,
every page of the range has its own frame. -/
theorem SpaceOk.brk (h : SpaceOk M A m s) (hm : A m) {len : BitVec 32} {extra vma : Option ℕ}
    (hvalid : (Event.brk m addr len extra vma).Valid (pageOps M) s)
    (hunused : BrkUnused M s m addr len) {r : BitVec 32}
    (heq : doBrk (pageOps M) s m addr len extra vma = some (s', r))
    (hfailed : s'.pages.failed = false) : SpaceOk M A m s' ∧
      (r = addr → ∀ k, addr.toNat / 4096 ≤ k →
        k < (addr.toNat + (pageAlign len).toNat) / 4096 → Owns M A s'.pages m k) := by
  obtain ⟨haddr, hlen, hextra, hvma⟩ := hvalid
  obtain ⟨hclear, hpages⟩ := hunused
  by_cases hzero : pageAlign len = 0
  · unfold doBrk at heq
    rw [if_pos hzero] at heq
    obtain ⟨rfl, _⟩ := Prod.mk.inj (Option.some.inj heq)
    refine ⟨h, fun _ k hk1 hk2 => ?_⟩
    rw [hzero] at hk2
    change k < addr.toNat / 4096 at hk2
    omega
  obtain ⟨s2, r2, heq2, hinv, hbrk, hcov⟩ := doBrk_spec (pageOps M) h.inv haddr hlen hextra hvma
  rw [heq] at heq2
  obtain ⟨rfl, rfl⟩ := Prod.mk.inj (Option.some.inj heq2)
  have hadd : (addr + pageAlign len).toNat = addr.toNat + (pageAlign len).toNat :=
    toNat_add_of_lt hlen
  have hpos : (pageAlign len).toNat ≠ 0 := fun h0 => hzero (eq_of_toNat_eq h0)
  obtain ⟨s1, ret, heq1, hpop⟩ := hbrk.resolve_left (fun hh => hzero hh.1)
  obtain ⟨h1, _, hclear1⟩ := h.munmap hm
    (show (Event.munmap m addr (pageAlign len) extra).Valid (pageOps M) s from
      ⟨haddr, by rw [pageAlign_pageAlign]; exact hlen, hextra⟩) heq1
  rw [pageAlign_pageAlign] at hclear1
  obtain ⟨hempty, hcov1⟩ := hclear1 hclear
  rcases hpop with ⟨hr, hsame⟩ | hpop
  · refine ⟨⟨hinv, ?_, fun x hx => ?_⟩, fun hr' => absurd hr' hr⟩
    · rw [hsame]
      exact h1.pages
    · rw [hsame]
      rcases hcov x hx with hx | ⟨hr', _⟩
      · exact h1.tabled x (hcov1 x hx)
      · exact absurd hr' hr
  · obtain ⟨area, hprot, hloop⟩ := hpop
    have hsub : (addr + pageAlign len - addr).toNat = (pageAlign len).toNat := by
      rw [toNat_sub_of_le (le_def.mpr (by omega)), hadd]
      omega
    have hloop' := h1.pages.presentLoop hm hprot (addr + pageAlign len) haddr
      (by rw [hadd]; exact Nat.dvd_add haddr (dvd_pageAlign len)) (by omega)
      (show (addr + pageAlign len).toNat ≤
        addr.toNat + 4096 * ((addr + pageAlign len - addr).toNat / 4096 + 1) by omega)
      (fun k hk1 hk2 => hempty k (hpages k hk1 (by rw [← hadd]; exact hk2)))
    rw [← hloop, hadd] at hloop'
    obtain ⟨h2, hgrown, hmaps⟩ := hloop'.resolve_left (by rw [hfailed]; decide)
    refine ⟨⟨hinv, h2, fun x hx => ?_⟩, fun _ k hk1 hk2 => ?_⟩
    · rcases hcov x hx with hx | ⟨_, hx1, hx2⟩
      · obtain ⟨t, ht⟩ := h1.tabled x (hcov1 x hx)
        exact ⟨t, hgrown.tables m _ t hm ht⟩
      · have hdvd := Nat.dvd_add haddr (dvd_pageAlign len)
        obtain ⟨f, t, ht, _⟩ := hmaps (x / 4096) (by omega) (by omega)
        rw [show x / 4096 / 256 = x / 2 ^ 20 by omega] at ht
        exact ⟨t, ht⟩
    · obtain ⟨f, hf⟩ := hmaps k hk1 hk2
      exact h2.owns hm hf

end

/-! ## Runs -/

/-- The states that calls of `do_brk` and `do_munmap` on `m` lead to from `s₀`, when every
`do_brk` is for an unused range and finds enough frames. -/
inductive UnusedRun (M : Machine α) (m : ℕ) (s₀ : State (Pages α)) : State (Pages α) → Prop where
  | refl : UnusedRun M m s₀ s₀
  | brk {s s' : State (Pages α)} {addr len r : BitVec 32} {extra vma : Option ℕ} :
      UnusedRun M m s₀ s → (Event.brk m addr len extra vma).Valid (pageOps M) s →
      BrkUnused M s m addr len → doBrk (pageOps M) s m addr len extra vma = some (s', r) →
      s'.pages.failed = false → UnusedRun M m s₀ s'
  | munmap {s s' : State (Pages α)} {addr len : BitVec 32} {r : ℤ} {extra : Option ℕ} :
      UnusedRun M m s₀ s → (Event.munmap m addr len extra).Valid (pageOps M) s →
      doMunmap (pageOps M) s m addr len extra = some (s', r) → UnusedRun M m s₀ s'

section

variable {M : Machine α} {A : ℕ → Prop} {s₀ s s' : State (Pages α)} {m : ℕ}

theorem spaceOk_run (h0 : SpaceOk M A m s₀) (hm : A m) (h : UnusedRun M m s₀ s) :
    SpaceOk M A m s := by
  induction h with
  | refl => exact h0
  | brk _ hvalid hunused heq hfailed ih => exact (ih.brk hm hvalid hunused heq hfailed).1
  | munmap _ hvalid heq ih => exact (ih.munmap hm hvalid heq).1

/-- An address space without areas. -/
theorem spaceOk_of_empty (hinv : Inv s) (hpages : PagesOk M A s.pages)
    (hnil : (s.mm m).mmap = []) : SpaceOk M A m s := by
  refine ⟨hinv, hpages, fun x hx => ?_⟩
  obtain ⟨p, hp, _⟩ := hx
  rw [hnil] at hp
  exact absurd hp not_mem_nil

/-- **Mapped means present.**  In a run on a new address space in which every `do_brk` is for a
range that has not been used before, each `do_brk` that returns its address has mapped every
page of the range to a frame of its own. -/
theorem brk_owns_frames (M : Machine α) (A : ℕ → Prop) (m : ℕ) (s₀ s s' : State (Pages α))
    (addr len : BitVec 32) (extra vma : Option ℕ) (hm : A m) (hinv : Inv s₀)
    (hpages : PagesOk M A s₀.pages) (hnil : (s₀.mm m).mmap = []) (hrun : UnusedRun M m s₀ s)
    (hvalid : (Event.brk m addr len extra vma).Valid (pageOps M) s)
    (hunused : BrkUnused M s m addr len)
    (heq : doBrk (pageOps M) s m addr len extra vma = some (s', addr))
    (hfailed : s'.pages.failed = false) (k : ℕ) (hk₁ : addr.toNat / 4096 ≤ k)
    (hk₂ : k < (addr.toNat + (pageAlign len).toNat) / 4096) : Owns M A s'.pages m k := by
  have hspace := spaceOk_run (spaceOk_of_empty hinv hpages hnil) hm hrun
  exact (hspace.brk hm hvalid hunused heq hfailed).2 rfl k hk₁ hk₂

end

/-! ### A small machine -/

/-- A machine with 16 frames and no kernel. -/
def smallMachine : Machine (List ℕ) where
  pool := listPool 4
  maxMapnr := 16
  reserved := fun _ => false
  tlbBase := fun _ => 0
  emptyZeroPage := 0x30000
  maxMapnr_le := by decide
  tlbBase_section := fun _ => Or.inl rfl

/-- Nothing is mapped. -/
def smallState : State (Pages (List ℕ)) where
  area := fun _ => ⟨0, 0, 0, 0, 0, 0⟩
  mm := fun _ => ⟨[], none, 0, 0, 0, 0⟩
  pages := ⟨fun _ _ => 0, fun _ _ => 0, fun _ => 0,
    [0x30001, 0x30002, 0x30003, 0x30004, 0x30005, 0x30006, 0x30007, 0x30008], false, false⟩

/-- One page in the section 256 and one in the section 261, with tables from the one to the
other. -/
def pagesApart : State (Pages (List ℕ)) where
  area := fun p => if p = 1 then ⟨0, 0x10000000, 0x10001000, 0, 0, 0⟩
    else ⟨0, 0x10500000, 0x10501000, 0, 0, 0⟩
  mm := fun _ => ⟨[1, 2], none, 0, 0, 0, 0⟩
  pages := { smallState.pages with
    pgd := fun _ i => if 256 ≤ i ∧ i ≤ 261 then setPmd (0x30000000 + 1024 * BitVec.ofNat 32 i)
      else 0 }

/-- The tables between the pages go, and those of the pages stay. -/
theorem freePgtables_sections_apart :
    let s := freePgtables (pageOps smallMachine) pagesApart 0 (some 1) 0x10001000 0x10500000
    s.pages.pgd 0 256 = 0x30040061 ∧ s.pages.pgd 0 258 = 0x61 ∧
      pagesApart.pages.pgd 0 258 = 0x30040861 ∧ s.pages.pgd 0 261 = 0x30041461 := by
  have hord : Ordered (lo pagesApart) (hi pagesApart) [1, 2] := by
    refine ⟨by decide, by decide⟩
  have hclear : Clear pagesApart 0 0x10001000 0x10500000 := by
    show ∀ q ∈ [1, 2], _
    decide
  have hlt : (0x10001000 : BitVec 32).toNat < (0x10500000 : BitVec 32).toNat := by decide
  have hprev : ∀ p ∈ some 1, p ∈ [1, 2] ∧ hi pagesApart p ≤ 0x10001000 := by decide
  obtain ⟨hkeep, hgo⟩ := freePgtables_sections smallMachine hord hlt hclear hprev
  refine ⟨(hkeep 0x10000000 ⟨1, by decide, by decide, by decide⟩).trans (by decide),
    (hgo (by decide) 0x10200000 (by decide) (by decide) ?_).trans (by decide), by decide,
    (hkeep 0x10500000 ⟨2, by decide, by decide, by decide⟩).trans (by decide)⟩
  rintro y ⟨p, hp, hy⟩
  have harea : ∀ p ∈ [1, 2], 261 * 2 ^ 20 ≤ lo pagesApart p ∨ hi pagesApart p ≤ 257 * 2 ^ 20 := by
    decide
  have := harea p hp
  omega

theorem pagesOk_smallState : PagesOk smallMachine (fun _ => True) smallState.pages := by
  have hnone : ∀ x f, ¬ Holds smallMachine (fun _ => True) smallState.pages x f := by
    intro x f hx
    cases x with
    | table m i => exact hx.2.ne_zero rfl
    | page m k =>
      obtain ⟨_, t, ht, _⟩ := hx
      exact ht.ne_zero rfl
  refine ⟨⟨fun hx => absurd hx (hnone _ _), fun hx => absurd hx (hnone _ _)⟩,
    fun hx => absurd hx (hnone _ _), fun {p} hp => ⟨?_, rfl⟩⟩
  have hall : ∀ q ∈ smallState.pages.free, validPage smallMachine q := by decide
  exact hall p hp

/-- A first page. -/
def firstPage : State (Pages (List ℕ)) :=
  ((doBrk (pageOps smallMachine) smallState 0 0x10000000 0x1000 none
    (some 1)).map Prod.fst).getD smallState

theorem firstPage_mmap (n : ℕ) : (firstPage.mm n).mmap = if n = 0 then [1] else [] := by
  cases n with
  | zero => decide +kernel
  | succ n => rfl

theorem unusedRun_firstPage : UnusedRun smallMachine 0 smallState firstPage := by
  have hvalid : (Event.brk 0 0x10000000 0x1000 none (some 1)).Valid (pageOps smallMachine)
      smallState := by
    refine ⟨by decide, by decide, ?_, ?_⟩
    · intro q hq
      cases hq
    · intro s' r heq q _ n
      have heq' : some (smallState, (0 : ℤ)) = some (s', r) := heq
      rw [Option.some.injEq, Prod.mk.injEq] at heq'
      rw [← heq'.1]
      exact not_mem_nil
  have hunused : BrkUnused smallMachine smallState 0 0x10000000 0x1000 := by
    refine ⟨?_, fun _ _ _ => Or.inl rfl⟩
    intro q hq
    cases hq
  have heq : doBrk (pageOps smallMachine) smallState 0 0x10000000 0x1000 none (some 1) =
      some (firstPage, 0x10000000) := rfl
  exact UnusedRun.brk .refl hvalid hunused heq (by decide +kernel)

/-- A second page in the same section. -/
def secondPage : State (Pages (List ℕ)) :=
  ((doBrk (pageOps smallMachine) firstPage 0 0x10010000 0x1000 none
    (some 2)).map Prod.fst).getD smallState

theorem brk_owns_frames_second_page :
    Owns smallMachine (fun _ => True) secondPage.pages 0 0x10010 := by
  refine brk_owns_frames smallMachine (fun _ => True) 0 smallState firstPage secondPage
    0x10010000 0x1000 none (some 2) trivial (inv_of_empty fun _ => rfl) pagesOk_smallState rfl
    unusedRun_firstPage ⟨by decide, by decide, ?_, ?_⟩ ⟨?_, ?_⟩ rfl (by decide +kernel) 0x10010
    (by decide) (by decide)
  · intro q hq
    cases hq
  · intro s' r heq q hq n
    have heq' : some (firstPage, (0 : ℤ)) = some (s', r) := heq
    rw [Option.some.injEq, Prod.mk.injEq] at heq'
    rw [Option.mem_some_iff] at hq
    rw [← heq'.1, ← hq, firstPage_mmap]
    split_ifs <;> decide
  · intro q hq
    rw [firstPage_mmap, if_pos rfl, mem_singleton] at hq
    rw [hq]
    left
    decide +kernel
  · intro k hk₁ hk₂
    have hk : k = 0x10010 := by
      have h1 : (0x10010000 : BitVec 32).toNat = 0x10010000 := by decide
      have h2 : (pageAlign 0x1000).toNat = 0x1000 := by decide
      omega
    rw [hk]
    right
    refine ⟨0x30001, ⟨by decide, by decide +kernel, by decide +kernel, by decide⟩,
      by decide +kernel, 0x10000000, ⟨1, ?_, by decide +kernel, by decide +kernel⟩, by decide⟩
    exact mem_singleton_self 1

/-- A page whose entry has been cleared. -/
theorem not_maps_of_clear {M : Machine α} {g : Pages α} {m t : ℕ}
    (hframe : pfn (g.pgd m (k / 256)) = t) (hclear : g.mem t (k % 256) = setPte 0) (f : ℕ) :
    ¬ Maps M g m k f := by
  rintro ⟨u, hu, he⟩
  rw [← hu.frame, hframe, hclear] at he
  exact not_entryMaps_clear he

/-- A page whose section has been cleared. -/
theorem not_maps_of_no_table {M : Machine α} {g : Pages α} {m : ℕ}
    (hclear : g.pgd m (k / 256) = setPmd 0) (f : ℕ) : ¬ Maps M g m k f := by
  rintro ⟨u, hu, _⟩
  exact not_hasTable_clear hclear hu

/-- **Unmapped pages stay absent.**  One of two pages is unmapped and mapped again: its entry
is the one that `zap_pte_range` has left, which maps no frame.  And one page is unmapped and
mapped again: its section has no table in a valid frame any more.  In both runs `do_brk` returns
the address, and there are free frames left. -/
theorem remapped_page_absent :
    (∃ s₁ s₂ s₃, doBrk (pageOps smallMachine) smallState 0 0x10000000 0x2000 none (some 1) =
        some (s₁, 0x10000000) ∧
      doMunmap (pageOps smallMachine) s₁ 0 0x10001000 0x1000 (some 2) = some (s₂, 0) ∧
      doBrk (pageOps smallMachine) s₂ 0 0x10001000 0x1000 (some 2) none =
        some (s₃, 0x10001000) ∧
      s₃.pages.failed = false ∧ s₃.pages.free ≠ [] ∧ s₃.pages.mem 0x30001 1 = 0xffe ∧
      ∀ f, ¬ Maps smallMachine s₃.pages 0 0x10001 f) ∧
    ∃ s₁ s₂ s₃, doBrk (pageOps smallMachine) smallState 0 0x10000000 0x1000 none (some 1) =
        some (s₁, 0x10000000) ∧
      doMunmap (pageOps smallMachine) s₁ 0 0x10000000 0x1000 (some 2) = some (s₂, 0) ∧
      doBrk (pageOps smallMachine) s₂ 0 0x10000000 0x1000 none (some 1) =
        some (s₃, 0x10000000) ∧
      s₃.pages.failed = false ∧ s₃.pages.free ≠ [] ∧ s₃.pages.pgd 0 0x100 = setPmd 0 ∧
      ∀ f, ¬ Maps smallMachine s₃.pages 0 0x10000 f := by
  refine ⟨⟨_, _, _, rfl, rfl, rfl, by decide +kernel, by decide +kernel, by decide +kernel, ?_⟩,
    ⟨_, _, _, rfl, rfl, rfl, by decide +kernel, by decide +kernel, by decide +kernel, ?_⟩⟩
  · exact not_maps_of_clear (t := 0x30001) (by decide +kernel) (by decide +kernel)
  · exact not_maps_of_no_table (by decide +kernel)

end Paging

end Yap
