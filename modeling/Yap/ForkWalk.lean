/-
# The walk of `copy_page_range` (`mm/memory.c`)

`copy_page_range` shares a page between parent and child, marks it, and makes the child fault
on it at once: `do_wp_page` sees two references and gives the child a copy.  What is left of
this is that the child has a frame of its own with the parent's contents (`copyOnePte_copy`).

The walk is right as long as it stays in the directory and its tables.  It leaves the directory
when an area reaches into the last section and the parent has no table there: the address wraps to
zero, which is below the end of the area.  It leaves the tables in a section that `free_pgtables`
has cleared, for the entry that is left there is not an empty one.
-/
import Yap.BrkPresent

namespace Yap

namespace Paging

open Mmap Ranges List

variable {α : Type}

/-! ## Failures stay -/

/-- Once something has gone wrong, it is recorded for good. -/
structure Sticky (g g' : Pages α) : Prop where
  failed : g.failed = true → g'.failed = true
  fault : g.fault = true → g'.fault = true

section

variable {M : Machine α} {g g' g'' : Pages α}

theorem Sticky.refl (g : Pages α) : Sticky g g := ⟨id, id⟩

theorem Sticky.trans (h : Sticky g g') (h' : Sticky g' g'') : Sticky g g'' :=
  ⟨fun hf => h'.failed (h.failed hf), fun hf => h'.fault (h.fault hf)⟩

theorem Sticky.of_eq (hfailed : g'.failed = g.failed) (hfault : g'.fault = g.fault) :
    Sticky g g' :=
  ⟨fun h => hfailed.trans h, fun h => hfault.trans h⟩

theorem sticky_freePage (M : Machine α) (g : Pages α) (p : ℕ) : Sticky g (freePage M g p) :=
  Sticky.of_eq (freePage_frame M g p).2.2.1 (freePage_frame M g p).2.2.2

theorem sticky_allocPage {p : ℕ} (h : allocPage M g = some (p, g')) : Sticky g g' :=
  Sticky.of_eq (allocPage_taken h).1.failed (allocPage_taken h).1.fault

theorem sticky_pteAlloc (M : Machine α) (g : Pages α) (m i : ℕ) :
    Sticky g (pteAlloc M g m i).1 := by
  unfold pteAlloc
  simp only
  split_ifs
  · cases halloc : allocPage M g with
    | none => exact ⟨fun _ => rfl, id⟩
    | some r => exact (sticky_allocPage halloc).trans (Sticky.of_eq rfl rfl)
  · exact Sticky.of_eq rfl rfl
  · exact Sticky.refl g

/-- A table that is found is no failure. -/
theorem pteAlloc_failed {m i t : ℕ} (h : (pteAlloc M g m i).2 = some t) :
    (pteAlloc M g m i).1.failed = g.failed := by
  unfold pteAlloc at h ⊢
  dsimp only at h ⊢
  split_ifs at h ⊢
  · cases halloc : allocPage M g with
    | none =>
      rw [halloc] at h
      cases h
    | some r => exact (allocPage_taken halloc).1.failed
  · rfl

section

variable (M : Machine α) (g : Pages α) (pgprot : BitVec 32) (t j : ℕ)

theorem sticky_doAnonymousPage
    (write : Bool) : Sticky g (doAnonymousPage M g pgprot t j write).1 := by
  unfold doAnonymousPage
  split_ifs
  · cases halloc : allocPage M g with
    | none => exact ⟨fun _ => rfl, id⟩
    | some r => exact (sticky_allocPage halloc).trans (Sticky.of_eq rfl rfl)
  · exact Sticky.of_eq rfl rfl

theorem sticky_copyPage
    (pte : BitVec 32) (old : ℕ) : Sticky g (copyPage M g pgprot t j pte old).1 := by
  unfold copyPage
  cases halloc : allocPage M g with
  | none => exact ⟨fun _ => rfl, id⟩
  | some r =>
    refine (sticky_allocPage halloc).trans ?_
    simp only
    split_ifs
    · refine Sticky.trans ?_ (sticky_freePage M _ old)
      exact Sticky.of_eq rfl rfl
    · exact sticky_freePage M r.2 r.1

theorem sticky_handlePteFault
    (write : Bool) : Sticky g (handlePteFault M g pgprot t j write).1 := by
  unfold handlePteFault doWpPage
  simp only
  split_ifs
  · exact sticky_doAnonymousPage M g pgprot t j _
  · exact Sticky.of_eq rfl rfl
  · exact sticky_copyPage M g pgprot t j _ _
  · exact Sticky.refl g
  · exact Sticky.of_eq rfl rfl

end

theorem sticky_handleMmFault (M : Machine α) (g : Pages α) (m : ℕ) (vma : VmArea)
    (address : BitVec 32) (write : Bool) : Sticky g (handleMmFault M g m vma address write).1 := by
  have hs := sticky_pteAlloc M g m (pgdIndex address).toNat
  unfold handleMmFault
  rcases hr : pteAlloc M g m (pgdIndex address).toNat with ⟨g₁, t⟩
  rw [hr] at hs
  cases t with
  | none => exact hs
  | some t => exact hs.trans (sticky_handlePteFault M g₁ _ t _ write)

theorem sticky_copyOnePte (M : Machine α) (g : Pages α) (dst : ℕ) (vma : VmArea)
    (address : BitVec 32) (ts td j : ℕ) : Sticky g (copyOnePte M g dst vma address ts td j) := by
  unfold copyOnePte
  simp only
  split_ifs
  all_goals first
    | exact Sticky.refl g
    | exact Sticky.of_eq rfl rfl
    | refine Sticky.trans ?_ (sticky_handleMmFault M _ dst vma address true)
      exact Sticky.of_eq rfl rfl

theorem sticky_copyPtes (M : Machine α) (dst : ℕ) (vma : VmArea) (ts td n : ℕ)
    (address : BitVec 32) (g : Pages α) : Sticky g (copyPtes M dst vma ts td n address g).1 := by
  induction n generalizing address g with
  | zero => exact Sticky.refl g
  | succ n ih =>
    have hs := sticky_copyOnePte M g dst vma address ts td (255 - n)
    simp only [copyPtes]
    split_ifs
    · exact hs
    · exact hs.trans (ih _ _)

theorem sticky_copySections (M : Machine α) (dst src : ℕ) (vma : VmArea) (n : ℕ)
    (address : BitVec 32) (g : Pages α) : Sticky g (copySections M dst src vma n address g).1 := by
  induction n generalizing address g with
  | zero => exact ⟨id, fun _ => rfl⟩
  | succ n ih =>
    simp only [copySections]
    by_cases hd : g.pgd src (4095 - n) = 0 ∨ pmdBad (g.pgd src (4095 - n))
    · rw [if_pos hd]
      have hs : Sticky g (if g.pgd src (4095 - n) = 0 then g
          else g.setDir src (4095 - n) (setPmd 0)) := by
        split_ifs
        · exact Sticky.refl g
        · exact Sticky.of_eq rfl rfl
      generalize (if g.pgd src (4095 - n) = 0 then g
        else g.setDir src (4095 - n) (setPmd 0)) = g₁ at hs
      split_ifs
      · exact hs
      · exact hs.trans (ih _ g₁)
    · rw [if_neg hd]
      have hs : Sticky g (if g.pgd dst (4095 - n) = 0 then pteAlloc M g dst (4095 - n)
          else (g, some 0)).1 := by
        split_ifs
        · exact sticky_pteAlloc M g dst _
        · exact Sticky.refl g
      rcases hr : (if g.pgd dst (4095 - n) = 0 then pteAlloc M g dst (4095 - n)
          else (g, some 0)) with ⟨g₁, t⟩
      rw [hr] at hs
      cases t with
      | none => exact hs
      | some t =>
        have hp := sticky_copyPtes M dst vma (pfn (pmdPage (g₁.pgd src (4095 - n))))
          (pfn (pmdPage (g₁.pgd dst (4095 - n)))) (256 - pteIndex address) address g₁
        rcases hr' : copyPtes M dst vma (pfn (pmdPage (g₁.pgd src (4095 - n))))
          (pfn (pmdPage (g₁.pgd dst (4095 - n)))) (256 - pteIndex address) address g₁ with ⟨g₂, a⟩
        rw [hr'] at hp
        simp only [hr']
        split_ifs
        · cases a with
          | none => exact hs.trans hp
          | some a => exact (hs.trans hp).trans (ih a g₂)
        · exact hs.trans ⟨id, fun _ => rfl⟩

end

/-! ## One page -/

/-- An entry as the code leaves it: zero, or stored by `set_pte`. -/
def Stored (e : BitVec 32) : Prop := e = 0 ∨ setPte e = e

theorem setPte_or (x y : BitVec 32) (h : y &&& ~~~0xfff#32 = 0#32) :
    setPte (x ||| y) = setPte x := by
  rw [setPte, setPte, BitVec.and_comm (x ||| y), BitVec.and_or_distrib_left, BitVec.and_comm _ y, h,
    BitVec.or_zero, BitVec.and_comm x]

/-- `VM_SHARED` is clear in a private area. -/
theorem and_vmShared {flags : BitVec 32}
    (hcow : flags &&& (vmShared ||| vmMaywrite) = vmMaywrite) : flags &&& vmShared = 0 := by
  have h : flags &&& vmShared = flags &&& (vmShared ||| vmMaywrite) &&& vmShared := by
    rw [BitVec.and_assoc]
    rfl
  rw [h, hcow]
  decide

section

variable {M : Machine α} {g g₁ : Pages α} {m' i j ts td f p : ℕ} {vma : VmArea}
  {address e : BitVec 32}

theorem Pages.ext {g g' : Pages α} (hpgd : g.pgd = g'.pgd) (hmem : g.mem = g'.mem)
    (hcount : g.count = g'.count) (hfree : g.free = g'.free) (hfailed : g.failed = g'.failed)
    (hfault : g.fault = g'.fault) : g = g' := by
  cases g
  cases g'
  simp only at hpgd hmem hcount hfree hfailed hfault
  rw [hpgd, hmem, hcount, hfree, hfailed, hfault]

theorem setWord_self (h : g.mem ts j = e) : g.setWord ts j e = g := by
  refine Pages.ext rfl ?_ rfl rfl rfl rfl
  funext u l
  show (if u = ts ∧ l = j then e else g.mem u l) = _
  split_ifs with hul
  · rw [hul.1, hul.2, h]
  · rfl

/-- The frame `f` is counted once more, for the entry `e` in the table `td`. -/
abbrev Pages.shared (g : Pages α) (f td j : ℕ) (e : BitVec 32) : Pages α :=
  (g.setCount f (g.count f + 1)).setWord td j e

/-- The pages of the area are copied when they are written, and its protection has bits of a
table entry only. -/
structure PrivateArea (vma : VmArea) : Prop where
  cow : vma.vmFlags &&& (vmShared ||| vmMaywrite) = vmMaywrite
  prot : vma.vmPageProt.toNat < 4096

/-- What `copy_one_pte` does with a present page, up to the fault. -/
theorem copyOnePte_present (he : g.mem ts j = e) (hself : setPte e = e) (hmaps : EntryMaps M e f)
    (hres : M.reserved f = false) (hcow : vma.vmFlags &&& (vmShared ||| vmMaywrite) = vmMaywrite) :
    copyOnePte M g m' vma address ts td j =
      (handleMmFault M (g.shared f td j e) m' vma address true).1 := by
  have hne : e ≠ 0 := fun h0 => not_entryMaps_zero (h0 ▸ hmaps)
  have hok : ¬ (¬ validPage M (pfn e) ∨ M.reserved (pfn e) = true) := by
    rw [hmaps.frame, hres]
    simp [hmaps.valid]
  have hprotect : setPte (pteWrprotect e) = e := by
    rw [pteWrprotect, setPte_or _ _ (by decide), hself]
  have hold : setPte (pteMkold e) = e := by
    rw [pteMkold, setPte_or _ _ (by decide), hself]
  unfold copyOnePte
  simp only [he, if_pos hcow, and_vmShared hcow, hprotect, setWord_self he]
  rw [if_neg hne, if_neg (not_not.mpr hmaps.present), if_neg hok, if_neg (not_not.mpr rfl), hold,
    hmaps.frame]

/-- A fault on the page that has just been shared goes to the copy in `do_wp_page`. -/
theorem handleMmFault_shared (hmaps : EntryMaps M e f) (hcount : g.count f = 1)
    (hu : HasTable M g m' i td) (hi : (pgdIndex address).toNat = i) (hj : pteIndex address = j) :
    handleMmFault M (g.shared f td j e) m' vma address true =
      copyPage M (g.shared f td j e) vma.vmPageProt td j e f := by
  have hword : (g.shared f td j e).mem td j = e := if_pos ⟨rfl, rfl⟩
  have htwo : (g.shared f td j e).count f ≠ 1 := by
    show (if f = f then g.count f + 1 else g.count f) ≠ 1
    rw [if_pos rfl, hcount]
    decide
  have hpgd : (g.shared f td j e).pgd m' i = g.pgd m' i := rfl
  have halloc : pteAlloc M (g.shared f td j e) m' i =
      (g.shared f td j e, some td) := by
    unfold pteAlloc
    simp only [hpgd]
    rw [if_neg hu.ne_zero, if_neg hu.good, pfn_pmdPage, hu.frame]
  unfold handleMmFault
  rw [hi, hj, halloc]
  unfold handlePteFault doWpPage
  simp only [hword, hmaps.frame]
  rw [if_neg (fun h => h.1 hmaps.present), if_pos trivial, if_neg (not_not.mpr hmaps.valid),
    if_neg htwo]

/-- The copy: a new frame with the contents of the old one, whose count is back at one. -/
theorem copyPage_shared (halloc : allocPage M g = some (p, g₁)) (hcount : g.count f = 1)
    (hres : M.reserved f = false) (hp : p ≠ td) (hpf : p ≠ f) (hf : f ≠ td) (pgprot : BitVec 32) :
    (copyPage M (g.shared f td j e) pgprot td j e f).1 =
      (g₁.setFrame p (g.mem f)).setWord td j
        (setPte (pteMkwrite (pteMkdirty (mkPte p pgprot)))) := by
  rw [allocPage, Option.map_eq_some_iff] at halloc
  obtain ⟨⟨q, a⟩, hq, heq⟩ := halloc
  obtain ⟨rfl, rfl⟩ := Prod.mk.inj heq
  set g2 := g.shared f td j e
  have halloc2 : allocPage M g2 = some (q, (({ g2 with free := a }).setCount q 1).setFrame q
      fun _ => 0) := by
    show (M.pool.alloc g.free).map _ = _
    rw [hq]
    rfl
  set g3 := (({ g2 with free := a }).setCount q 1).setFrame q fun _ => 0
  have hmem : ∀ u, u ≠ q → g3.mem u = g2.mem u := fun u hu => if_neg hu
  have hword : g3.mem td j = e := by
    rw [hmem td (Ne.symm hp)]
    exact if_pos ⟨rfl, rfl⟩
  have hold : g3.mem f = g.mem f := by
    rw [hmem f (Ne.symm hpf)]
    funext l
    exact if_neg (fun h => hf h.1)
  have htwo : g3.count f = 2 := by
    have h1 : g3.count f = g2.count f := if_neg (Ne.symm hpf)
    have h2 : g2.count f = g.count f + 1 := if_pos rfl
    rw [h1, h2, hcount]
    rfl
  unfold copyPage
  rw [halloc2]
  simp only
  rw [if_pos hword, hold]
  unfold freePage
  rw [hres, if_neg Bool.false_ne_true]
  rw [if_neg]
  · refine Pages.ext rfl ?_ ?_ rfl rfl rfl
    · funext u l
      show (if u = td ∧ l = j then _ else (if u = q then g.mem f else g3.mem u) l) =
        (if u = td ∧ l = j then _ else (if u = q then g.mem f else
          (if u = q then fun _ => 0 else g.mem u)) l)
      split_ifs with hul hu
      · rfl
      · rfl
      · rw [hmem u hu]
        exact if_neg hul
    · funext u
      show (if u = f then g3.count f - 1 else if u = q then 1 else
        if u = f then g.count f + 1 else g.count u) = if u = q then 1 else g.count u
      by_cases hu : u = f
      · rw [if_pos hu, htwo, hu, if_neg (Ne.symm hpf), hcount]
        rfl
      · rw [if_neg hu, if_neg hu]
  · show ¬ (if f = f then g3.count f - 1 else g3.count f) = 0
    rw [if_pos rfl, htwo]
    decide

/-- **One present page of a private area**: the child gets a copy in a new frame, or there is
none left and the frame stays shared. -/
theorem copyOnePte_copy (he : g.mem ts j = e) (hself : setPte e = e) (hmaps : EntryMaps M e f)
    (hcount : g.count f = 1) (hres : M.reserved f = false)
    (hcow : vma.vmFlags &&& (vmShared ||| vmMaywrite) = vmMaywrite)
    (hu : HasTable M g m' i td) (hi : (pgdIndex address).toNat = i) (hj : pteIndex address = j)
    (hf : f ≠ td) (hfree : ∀ p, M.pool.free g.free p → p ≠ td ∧ p ≠ f) :
    copyOnePte M g m' vma address ts td j =
        { g.shared f td j e with failed := true } ∨
      ∃ p g₁, allocPage M g = some (p, g₁) ∧ copyOnePte M g m' vma address ts td j =
        (g₁.setFrame p (g.mem f)).setWord td j
          (setPte (pteMkwrite (pteMkdirty (mkPte p vma.vmPageProt)))) := by
  rw [copyOnePte_present he hself hmaps hres hcow, handleMmFault_shared hmaps hcount hu hi hj]
  cases halloc : allocPage M g with
  | none =>
    left
    rw [allocPage, Option.map_eq_none_iff] at halloc
    have halloc' : allocPage M (g.shared f td j e) = none := by
      rw [allocPage]
      show (M.pool.alloc g.free).map _ = none
      rw [halloc]
      rfl
    unfold copyPage
    rw [halloc']
  | some r =>
    obtain ⟨p, g₁⟩ := r
    right
    obtain ⟨hp, hpf⟩ := hfree p (allocPage_taken halloc).1.was_free
    exact ⟨p, g₁, rfl, copyPage_shared halloc hcount hres hp hpf hf _⟩

/-- What `copy_one_pte` does with an entry that has no frame, and the entries that have one. -/
theorem copyOnePte_cases (he : g.mem ts j = e) (hstored : Stored e) :
    (e = 0 ∧ copyOnePte M g m' vma address ts td j = g) ∨
      ((∀ f, ¬ EntryMaps M e f) ∧ copyOnePte M g m' vma address ts td j = g.setWord td j e) ∨
      setPte e = e ∧ EntryMaps M e (pfn e) := by
  rcases hstored with h0 | hself
  · left
    refine ⟨h0, ?_⟩
    unfold copyOnePte
    simp only [he]
    rw [if_pos h0]
  right
  have hpresent : ptePresent e := by
    rw [← hself]
    exact ptePresent_setPte e
  have hne : e ≠ 0 := by
    rintro rfl
    exact hpresent rfl
  by_cases hvalid : validPage M (pfn e)
  · exact Or.inr ⟨hself, hpresent, rfl, hvalid⟩
  · left
    refine ⟨fun f hf => hvalid ?_, ?_⟩
    · rw [hf.frame]
      exact hf.valid
    · unfold copyOnePte
      simp only [he]
      rw [if_neg hne, if_neg (not_not.mpr hpresent), if_pos (Or.inl hvalid), hself]

end

/-! ## The walk -/

/-- The parent has no table in the last section, which the area reaches into. -/
def LeavesDirectory (g : Pages α) (m : ℕ) (stop : BitVec 32) : Prop :=
  4095 * 2 ^ 20 < stop.toNat ∧ g.pgd m 4095 = 0

/-- The parent's table for a section of the area has been given up. -/
def LeavesTables (g : Pages α) (m start stop : ℕ) : Prop :=
  ∃ x, start ≤ x ∧ x < stop ∧ g.pgd m (x / 2 ^ 20) = setPmd 0

/-- The walk over the area goes astray. -/
def Strays (g : Pages α) (m : ℕ) (vma : VmArea) : Prop :=
  LeavesDirectory g m vma.vmEnd ∨ LeavesTables g m vma.vmStart.toNat vma.vmEnd.toNat

/-- **How a walk ends**: there is no frame for a table, it has left the directory or its tables, or
it has done its pages and `I` holds. -/
def WalkEnds (leaves : Prop) (I : Pages α → Prop) (r : Pages α × ℤ) : Prop :=
  (r.2 ≠ 0 ∧ r.1.failed = true) ∨ leaves ∧ r.1.fault = true ∨ ¬ leaves ∧ r.2 = 0 ∧ I r.1

/-- `pte_alloc` has found no frame for the table of section `i`, or `m` has one and `I` holds. -/
def TableEnds (M : Machine α) (m i : ℕ) (I : Pages α → Prop) (r : Pages α × Option ℕ) : Prop :=
  (r.2 = none ∧ r.1.failed = true) ∨ (∃ t, r.2 = some t ∧ HasTable M r.1 m i t) ∧ I r.1

theorem tableEnds_pteAlloc {M : Machine α} {g : Pages α} {m i : ℕ} {I : Pages α → Prop}
    (h0 : g.pgd m i = 0) (h : ∀ p g₁, allocPage M g = some (p, g₁) →
      HasTable M (g₁.setDir m i (setPmd (pageAddress p))) m i p ∧
        I (g₁.setDir m i (setPmd (pageAddress p)))) : TableEnds M m i I (pteAlloc M g m i) := by
  unfold pteAlloc
  rw [if_pos h0]
  cases halloc : allocPage M g with
  | none => exact Or.inl ⟨rfl, rfl⟩
  | some r =>
    obtain ⟨hnew, hI⟩ := h r.1 r.2 halloc
    exact Or.inr ⟨⟨r.1, rfl, hnew⟩, hI⟩

/-- `I P g` is an invariant of the walk from `m` to `m'`, where the pages in `P` have been done:
it is kept by each round of the inner loop and by a new table for the child. -/
structure WalkInv (M : Machine α) (g₀ : Pages α) (m m' : ℕ) (S : ℕ → Prop)
    (I : (ℕ → Prop) → Pages α → Prop) : Prop where
  dir : ∀ {P : ℕ → Prop} {g : Pages α}, I P g → g.pgd m = g₀.pgd m
  skip : ∀ {P X : ℕ → Prop} {g : Pages α}, I P g → (∀ k, X k → ∀ f, ¬ Maps M g₀ m k f) →
    I (fun k => P k ∨ X k) g
  tables : ∀ {P : ℕ → Prop} {g : Pages α} {i : ℕ}, I P g → S i →
    g.pgd m' i = 0 ∨ ∃ t, HasTable M g m' i t
  newTable : ∀ {P : ℕ → Prop} {g : Pages α} {i : ℕ}, I P g → i < 4096 → g.pgd m' i = 0 →
    TableEnds M m' i (I P) (pteAlloc M g m' i)
  page : ∀ {P : ℕ → Prop} {g : Pages α} {vma : VmArea} {address : BitVec 32} {i j t u : ℕ},
    I P g → HasTable M g₀ m i t → HasTable M g m' i u → (pgdIndex address).toNat = i →
    pteIndex address = j → j < 256 → ¬ P (256 * i + j) → Stored (g₀.mem t j) → PrivateArea vma →
    HasTable M (copyOnePte M g m' vma address t u j) m' i u ∧
      I (fun k => P k ∨ k = 256 * i + j) (copyOnePte M g m' vma address t u j)

namespace WalkInv

variable {M : Machine α} {g₀ g : Pages α} {m m' i t u : ℕ} {S P X : ℕ → Prop}
  {I : (ℕ → Prop) → Pages α → Prop} {vma : VmArea} {address : BitVec 32} {n : ℕ}

theorem congr (h : I P g) (hPX : ∀ k, P k ↔ X k) : I X g := by
  have heq : P = X := by
    funext k
    exact propext (hPX k)
  rw [← heq]
  exact h

section

variable (hI : WalkInv M g₀ m m' S I) (h : I P g)

include hI h

/-- The loop over a table, by induction on the entries left: it does the pages from the address
to the end of the section or of the area. -/
theorem ptes (ht : HasTable M g₀ m i t)
    (hu : HasTable M g m' i u) (hcow : PrivateArea vma)
    (hend : 4096 ∣ vma.vmEnd.toNat) (haddr : address.toNat + 4096 * n = 2 ^ 20 * (i + 1))
    (hn : n ≤ 256) (hlt : address.toNat < vma.vmEnd.toNat)
    (hP : ∀ k, address.toNat / 4096 ≤ k → k < vma.vmEnd.toNat / 4096 → ¬ P k)
    (hstored : ∀ k, address.toNat / 4096 ≤ k → k < vma.vmEnd.toNat / 4096 → k / 256 = i →
      Stored (g₀.mem t (k % 256))) :
    I (fun k => P k ∨ address.toNat / 4096 ≤ k ∧ k < vma.vmEnd.toNat / 4096 ∧ k / 256 = i)
        (copyPtes M m' vma t u n address g).1 ∧
      (vma.vmEnd.toNat ≤ 2 ^ 20 * (i + 1) ∧ (copyPtes M m' vma t u n address g).2 = none ∨
        2 ^ 20 * (i + 1) < vma.vmEnd.toNat ∧
          ∃ a, (copyPtes M m' vma t u n address g).2 = some a ∧ a.toNat = 2 ^ 20 * (i + 1)) := by
  induction n generalizing address g P with
  | zero =>
    refine ⟨congr h fun k => ?_, Or.inr ⟨by omega, address, rfl, by omega⟩⟩
    constructor
    · exact Or.inl
    · rintro (hk | hk)
      · exact hk
      · omega
  | succ n ih =>
    have hi : (pgdIndex address).toNat = i := by
      rw [toNat_pgdIndex]
      omega
    have hj : pteIndex address = 255 - n := by
      rw [pteIndex_eq]
      omega
    have hk : 256 * i + (255 - n) = address.toNat / 4096 := by omega
    have hpage := toNat_pageSize
    have hnext : (address + pageSize).toNat = address.toNat + 4096 := by
      rw [BitVec.toNat_add_of_lt (by rw [hpage]; omega), hpage]
    have hstep := hI.page h ht hu hi hj (by omega) (hP _ (by omega) (by omega)) (by
      have := hstored (address.toNat / 4096) le_rfl (by omega) (by omega)
      rwa [show address.toNat / 4096 % 256 = 255 - n by omega] at this) hcow
    simp only [copyPtes]
    obtain ⟨hu1, h1⟩ := hstep
    by_cases hstop : vma.vmEnd ≤ address + pageSize
    · rw [if_pos hstop]
      rw [BitVec.le_def, hnext] at hstop
      refine ⟨congr h1 fun k => ?_, Or.inl ⟨by omega, rfl⟩⟩
      apply or_congr_right
      omega
    · rw [if_neg hstop]
      rw [BitVec.le_def, hnext] at hstop
      have hrest := ih h1 hu1
        (show (address + pageSize).toNat + 4096 * n = 2 ^ 20 * (i + 1) by omega) (by omega)
        (by omega) (fun k hk1 hk2 => by
          rintro (hk' | hk')
          · exact hP k (by omega) hk2 hk'
          · omega)
        (fun k hk1 hk2 hk3 => hstored k (by omega) hk2 hk3)
      obtain ⟨h2, hret⟩ := hrest
      refine ⟨congr h2 fun k => ?_, hret⟩
      rw [or_assoc]
      apply or_congr_right
      omega

/-- The child has, or gets, a table for a section in `S`. -/
theorem childTable (hi : i < 4096) (hS : S i) :
    (∃ g₁, (if g.pgd m' i = 0 then pteAlloc M g m' i else (g, some 0)) = (g₁, none) ∧
        g₁.failed = true) ∨
      ∃ g₁ v u, (if g.pgd m' i = 0 then pteAlloc M g m' i else (g, some 0)) = (g₁, some v) ∧
        HasTable M g₁ m' i u ∧ I P g₁ := by
  by_cases h0 : g.pgd m' i = 0
  · rw [if_pos h0]
    rcases hI.newTable h hi h0 with ⟨hnone, hfail⟩ | ⟨⟨t, hsome, ht⟩, h1⟩
    · exact Or.inl ⟨_, Prod.ext rfl hnone, hfail⟩
    · exact Or.inr ⟨_, t, t, Prod.ext rfl hsome, ht, h1⟩
  · rw [if_neg h0]
    obtain ⟨u, hu⟩ := (hI.tables h hS).resolve_left h0
    exact Or.inr ⟨g, 0, u, rfl, hu, h⟩

/-- What one round of the loop over the directory can do, with `n` sections left behind it: find
no frame for a table, go astray, or do the pages of the section and end or go on. -/
def SectionDone (M : Machine α) (g₀ : Pages α) (m m' : ℕ) (I : (ℕ → Prop) → Pages α → Prop)
    (P : ℕ → Prop) (vma : VmArea) (n : ℕ) (address : BitVec 32) (g : Pages α) : Prop :=
  ((copySections M m' m vma (n + 1) address g).2 ≠ 0 ∧
      (copySections M m' m vma (n + 1) address g).1.failed = true) ∨
    (n = 0 ∧ g₀.pgd m 4095 = 0 ∨ g₀.pgd m (4095 - n) = setPmd 0) ∧
      (copySections M m' m vma (n + 1) address g).1.fault = true ∨
    ∃ g', I (fun k => P k ∨
        address.toNat / 4096 ≤ k ∧ k < vma.vmEnd.toNat / 4096 ∧ k / 256 = 4095 - n) g' ∧
      ¬ (n = 0 ∧ g₀.pgd m 4095 = 0) ∧ g₀.pgd m (4095 - n) ≠ setPmd 0 ∧
      (vma.vmEnd.toNat ≤ 2 ^ 20 * (4095 - n + 1) ∧
          copySections M m' m vma (n + 1) address g = (g', 0) ∨
        2 ^ 20 * (4095 - n + 1) < vma.vmEnd.toNat ∧ ∃ a : BitVec 32,
          a.toNat = 2 ^ 20 * (4095 - n + 1) ∧
          copySections M m' m vma (n + 1) address g = copySections M m' m vma n a g')

/-- A section without a table is skipped. -/
theorem emptySection
    (hn : address.toNat / 2 ^ 20 + (n + 1) = 4096) (hlt : address.toNat < vma.vmEnd.toNat)
    (h0 : g₀.pgd m (4095 - n) = 0) : SectionDone M g₀ m m' I P vma n address g := by
  have hnext := toNat_nextSection address
  have hround : copySections M m' m vma (n + 1) address g =
      if vma.vmEnd ≤ nextSection address then (g, 0)
      else copySections M m' m vma n (nextSection address) g := by
    simp only [copySections]
    rw [hI.dir h, h0, if_pos (Or.inl rfl), if_pos rfl]
  have hskip : I (fun k => P k ∨
      address.toNat / 4096 ≤ k ∧ k < vma.vmEnd.toNat / 4096 ∧ k / 256 = 4095 - n) g := by
    refine hI.skip h ?_
    rintro k ⟨_, _, hk⟩ f ⟨t, ht, _⟩
    rw [hk] at ht
    exact ht.ne_zero h0
  have huncleared : g₀.pgd m (4095 - n) ≠ setPmd 0 := by
    rw [h0]
    decide
  right
  by_cases hstop : vma.vmEnd ≤ nextSection address
  · rw [if_pos hstop] at hround
    rw [BitVec.le_def, hnext] at hstop
    exact Or.inr ⟨g, hskip, by omega, huncleared, Or.inl ⟨by omega, hround⟩⟩
  · rw [if_neg hstop] at hround
    rw [BitVec.le_def, hnext] at hstop
    by_cases hlast : n = 0
    · -- the address has wrapped
      left
      subst hlast
      rw [hround]
      exact ⟨Or.inl ⟨rfl, h0⟩, rfl⟩
    · exact Or.inr ⟨g, hskip, fun hh => hlast hh.1, huncleared,
        Or.inr ⟨by omega, nextSection address, by omega, hround⟩⟩

/-- In a section that has been cleared the walk goes astray, if the child gets a table. -/
theorem clearedSection (hn : n < 4096) (hS : S (4095 - n)) (hc : g₀.pgd m (4095 - n) = setPmd 0) :
    SectionDone M g₀ m m' I P vma n address g := by
  have hbase : pfn (pmdPage (setPmd 0)) = 0 ∧ ¬ pmdBad (setPmd 0) ∧ setPmd 0 ≠ 0 := by decide
  have hinvalid : ¬ validPage M 0 := fun hv => absurd hv.1 (by decide)
  unfold SectionDone
  simp only [copySections]
  rw [hI.dir h, hc, if_neg fun hh => hh.elim hbase.2.2 hbase.2.1]
  rcases hI.childTable h (show 4095 - n < 4096 by omega) hS with
    ⟨g₁, heq, hfail⟩ | ⟨g₁, v, u, heq, -, h1⟩
  · rw [heq]
    exact Or.inl ⟨show (-12 : ℤ) ≠ 0 by decide, hfail⟩
  · rw [heq]
    simp only
    rw [hI.dir h1, hc, hbase.1, if_pos hinvalid]
    exact Or.inr (Or.inl ⟨Or.inr trivial, rfl⟩)

section

variable (hcow : PrivateArea vma) (hend : 4096 ∣ vma.vmEnd.toNat) (haligned : 4096 ∣ address.toNat)
  (hlt : address.toNat < vma.vmEnd.toNat)
  (hP : ∀ k, address.toNat / 4096 ≤ k → k < vma.vmEnd.toNat / 4096 → ¬ P k)

include hcow hend haligned hlt hP

/-- A section with a table: the child gets one too, and the pages are done. -/
theorem tableSection (hn : address.toNat / 2 ^ 20 + (n + 1) = 4096)
    (hS : S (4095 - n)) (ht : HasTable M g₀ m (4095 - n) t)
    (hstored : ∀ k, address.toNat / 4096 ≤ k → k < vma.vmEnd.toNat / 4096 → k / 256 = 4095 - n →
      Stored (g₀.mem t (k % 256))) : SectionDone M g₀ m m' I P vma n address g := by
  have hindex := pteIndex_eq address
  have hgood : ¬ (g.pgd m (4095 - n) = 0 ∨ pmdBad (g.pgd m (4095 - n))) := by
    rw [hI.dir h]
    exact fun hh => hh.elim ht.ne_zero ht.good
  have hstay : ¬ (n = 0 ∧ g₀.pgd m 4095 = 0) := by
    rintro ⟨rfl, h0⟩
    exact ht.ne_zero h0
  have huncleared := ht.ne_cleared
  unfold SectionDone
  simp only [copySections]
  rw [if_neg hgood]
  rcases hI.childTable h (show 4095 - n < 4096 by omega) hS with
    ⟨g₁, heq, hfail⟩ | ⟨g₁, v, u, heq, hu, h1⟩
  · rw [heq]
    exact Or.inl ⟨show (-12 : ℤ) ≠ 0 by decide, hfail⟩
  rw [heq]
  have hts : pfn (pmdPage (g₁.pgd m (4095 - n))) = t := by
    rw [pfn_pmdPage, hI.dir h1, ht.frame]
  have htd : pfn (pmdPage (g₁.pgd m' (4095 - n))) = u := by rw [pfn_pmdPage, hu.frame]
  simp only [hts, htd]
  rw [if_neg (not_not.mpr ht.valid)]
  have hloop := hI.ptes h1 ht hu hcow hend
    (show address.toNat + 4096 * (256 - pteIndex address) = 2 ^ 20 * (4095 - n + 1) by omega)
    (by omega) hlt hP hstored
  generalize copyPtes M m' vma t u (256 - pteIndex address) address g₁ = r at hloop
  obtain ⟨g₂, a⟩ := r
  right
  right
  rcases hloop with ⟨h2, ⟨hle, hret⟩ | ⟨hle, a', hret, ha⟩⟩
  · simp only at hret
    rw [hret]
    exact ⟨g₂, h2, hstay, huncleared, Or.inl ⟨hle, rfl⟩⟩
  · simp only at hret
    rw [hret]
    exact ⟨g₂, h2, hstay, huncleared, Or.inr ⟨hle, a', ha, rfl⟩⟩

/-- The loop over the directory, by induction on the sections left. -/
theorem sections (hn : address.toNat / 2 ^ 20 + n = 4096)
    (hsection : ∀ x, address.toNat ≤ x → x < vma.vmEnd.toNat → S (x / 2 ^ 20) ∧
      (g₀.pgd m (x / 2 ^ 20) = 0 ∨ g₀.pgd m (x / 2 ^ 20) = setPmd 0 ∨
        ∃ t, HasTable M g₀ m (x / 2 ^ 20) t))
    (hstored : ∀ k t, address.toNat / 4096 ≤ k → k < vma.vmEnd.toNat / 4096 →
      HasTable M g₀ m (k / 256) t → Stored (g₀.mem t (k % 256))) :
    WalkEnds (LeavesDirectory g₀ m vma.vmEnd ∨
        LeavesTables g₀ m address.toNat vma.vmEnd.toNat)
      (I fun k => P k ∨ address.toNat / 4096 ≤ k ∧ k < vma.vmEnd.toNat / 4096)
      (copySections M m' m vma n address g) := by
  induction n generalizing address g P with
  | zero =>
    omega
  | succ n ih =>
    have hi : 4095 - n = address.toNat / 2 ^ 20 := by omega
    obtain ⟨hS, hdir⟩ := hsection _ le_rfl hlt
    rw [← hi] at hS hdir
    have hround : SectionDone M g₀ m m' I P vma n address g := by
      rcases hdir with h0 | hc | ⟨t, ht⟩
      · exact hI.emptySection h hn hlt h0
      · exact hI.clearedSection h (by omega) hS hc
      · exact hI.tableSection h hcow hend haligned hlt hP hn hS ht
          (fun k hk1 hk2 hk3 => hstored k t hk1 hk2 (by rw [hk3]; exact ht))
    rcases hround with hfail | ⟨⟨rfl, h0⟩ | hc, hfault⟩ |
      ⟨g', h', hstay, huncleared, ⟨hle, hround⟩ | ⟨hle, a, ha, hround⟩⟩
    · exact Or.inl hfail
    · exact Or.inr (Or.inl ⟨Or.inl ⟨by omega, h0⟩, hfault⟩)
    · exact Or.inr (Or.inl ⟨Or.inr ⟨_, le_rfl, hlt, hi ▸ hc⟩, hfault⟩)
    · -- the area ends in this section
      rw [hround]
      refine Or.inr (Or.inr ⟨?_, rfl, congr h' fun k => ?_⟩)
      · rintro (⟨hlast, h0⟩ | ⟨x, hx1, hx2, hc⟩)
        · exact hstay ⟨by omega, h0⟩
        · rw [show x / 2 ^ 20 = 4095 - n by omega] at hc
          exact huncleared hc
      · apply or_congr_right
        omega
    · rw [hround]
      -- what is left of the area goes astray where the area does
      have hleaves : LeavesTables g₀ m a.toNat vma.vmEnd.toNat ↔
          LeavesTables g₀ m address.toNat vma.vmEnd.toNat := by
        refine ⟨fun ⟨x, hx1, hx2, hc⟩ => ⟨x, by omega, hx2, hc⟩, fun ⟨x, hx1, hx2, hc⟩ => ?_⟩
        refine ⟨x, ?_, hx2, hc⟩
        by_contra hlt'
        rw [show x / 2 ^ 20 = 4095 - n by omega] at hc
        exact huncleared hc
      have hrest := ih h' (show 4096 ∣ a.toNat by omega) (by omega)
        (fun k hk1 hk2 => by
          rintro (hk | hk)
          · exact hP k (by omega) hk2 hk
          · omega)
        (by omega)
        (fun x hx1 hx2 => hsection x (by omega) hx2)
        (fun k t hk1 hk2 => hstored k t (by omega) hk2)
      rw [hleaves] at hrest
      refine hrest.imp id (Or.imp id fun ⟨h1, h2, h3⟩ => ⟨h1, h2, congr h3 fun k => ?_⟩)
      rw [or_assoc]
      apply or_congr_right
      omega

end

end

end WalkInv

end Paging

end Yap
