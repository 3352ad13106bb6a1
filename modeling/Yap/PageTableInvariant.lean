/-
# Every frame is used once

The second-level tables and the pages of some address spaces are frames that the pool has
handed out.  `PagesOk` says that no frame stands in two places, that a frame in use is not
free and has one reference, and that the pool holds valid frames only.

The functions of `Yap.PageTable` are sequences of a few moves: take a frame from the pool, put
it into a directory or into a table, take it out, give it back.  Each move is proved once; a
frame on its way between the pool and a place is `Spare`.
-/
import Yap.MmapInvariant
import Yap.PageTable

namespace Yap

namespace Paging

open Mmap
open BitVec (toNat_add lt_def toNat_and toNat_sub_of_le le_def or_zero)
open Nat (mod_eq_of_lt mod_lt)

variable {α : Type}

/-! ## Entries -/

theorem pfn_eq (e : BitVec 32) : pfn e = e.toNat / 4096 := toNat_shift_page e

theorem pfn_or_low (x y : BitVec 32) (h : y >>> 12 = 0#32) : pfn (x ||| y) = pfn x := by
  rw [pfn, BitVec.ushiftRight_or_distrib, h, or_zero, pfn]

theorem pfn_and_high (x y : BitVec 32) (h : y >>> 12 = 0xfffff#32) : pfn (x &&& y) = pfn x := by
  have hones : (0xfffff#32).toNat = 2 ^ 20 - 1 := by decide
  rw [pfn, BitVec.ushiftRight_and_distrib, h, pfn, toNat_and, hones,
    Nat.and_two_pow_sub_one_eq_mod, toNat_shift_page]
  omega

theorem pfn_setPte (x : BitVec 32) : pfn (setPte x) = pfn x := by
  rw [setPte, pfn_or_low _ _ (by decide), pfn_or_low _ _ (by decide), pfn_or_low _ _ (by decide),
    pfn_or_low _ _ (by decide), pfn_and_high _ _ (by decide)]

theorem pfn_setPmd (x : BitVec 32) : pfn (setPmd x) = pfn x := by
  rw [setPmd, pfn_or_low _ _ (by decide), pfn_or_low _ _ (by decide), pfn_and_high _ _ (by decide)]

theorem pfn_pmdPage (d : BitVec 32) : pfn (pmdPage d) = pfn d := by
  rw [pmdPage, pfn_and_high _ _ (by decide), pfn_and_high _ _ (by decide)]

variable {p n : ℕ} {x : Slot} {size address : BitVec 32}

theorem pfn_pageAddress (hp : p < 2 ^ 20) : pfn (pageAddress p) = p := by
  rw [pfn_eq, pageAddress, BitVec.toNat_ofNat, mod_eq_of_lt (by omega)]
  omega

theorem pfn_mkPte {pgprot : BitVec 32} (hp : p < 2 ^ 20) (hprot : pgprot.toNat < 4096) :
    pfn (mkPte p pgprot) = p := by
  rw [pfn_eq, mkPte, toNat_add, pageAddress, BitVec.toNat_ofNat,
    mod_eq_of_lt (show p * 4096 < 2 ^ 32 by omega), mod_eq_of_lt (by omega)]
  omega

/-- What `set_pte` stores looks present, whatever is stored. -/
theorem ptePresent_setPte (x : BitVec 32) : ptePresent (setPte x) := by
  intro h
  have hbit := congrArg (fun v : BitVec 32 => v.getLsbD 1) h
  simp [setPte] at hbit

theorem not_pmdBad_setPmd (x : BitVec 32) : ¬ pmdBad (setPmd x) := by
  unfold pmdBad
  rw [not_not]
  have h : setPmd x &&& 2 = x &&& (~~~0x1ff#32 &&& 2) ||| ((0x60#32 ||| 1#32) &&& 2) := by
    rw [setPmd, BitVec.or_assoc, BitVec.and_comm, BitVec.and_or_distrib_left,
      BitVec.and_comm 2 (x &&& _), BitVec.and_assoc, BitVec.and_comm 2 (0x60#32 ||| 1#32)]
  rw [h]
  have h1 : ~~~0x1ff#32 &&& 2 = 0#32 := by decide
  have h2 : (0x60#32 ||| 1#32) &&& 2 = 0#32 := by decide
  rw [h1, h2, BitVec.and_zero, or_zero]
  rfl

theorem validPage.lt {M : Machine α} (h : validPage M p) : p < 2 ^ 20 := by
  have h1 := h.1
  have h2 := h.2
  have h3 := M.maxMapnr_le
  unfold physPfnOffset at h1 h2
  omega

theorem not_validPage_zero (M : Machine α) : ¬ validPage M 0 := by
  rintro ⟨h, _⟩
  exact absurd h (by decide)

/-! ## Who uses a frame -/

/-- The entry `i` of the directory of `m` points to the second-level table in the frame `t`. -/
structure HasTable (M : Machine α) (g : Pages α) (m i t : ℕ) : Prop where
  lt : i < 4096
  good : ¬ pmdBad (g.pgd m i)
  frame : pfn (g.pgd m i) = t
  valid : validPage M t

/-- The entry `e` of a table maps the frame `f`. -/
structure EntryMaps (M : Machine α) (e : BitVec 32) (f : ℕ) : Prop where
  present : ptePresent e
  frame : pfn e = f
  valid : validPage M f

/-- The places where a frame can be: a table for section `i`, or the page number `k`. -/
inductive Slot : Type where
  | table (m i : ℕ) : Slot
  | page (m k : ℕ) : Slot
  deriving DecidableEq

/-- The page number `k` of `m` is mapped to the frame `f`. -/
def Maps (M : Machine α) (g : Pages α) (m k f : ℕ) : Prop :=
  ∃ t, HasTable M g m (k / 256) t ∧ EntryMaps M (g.mem t (k % 256)) f

/-- The frame in each place, for the address spaces in `A`. -/
def Holds (M : Machine α) (A : ℕ → Prop) (g : Pages α) : Slot → ℕ → Prop
  | .table m i, t => A m ∧ HasTable M g m i t
  | .page m k, f => A m ∧ Maps M g m k f

/-- No frame of the address spaces in `A` is used twice. -/
structure PagesOk (M : Machine α) (A : ℕ → Prop) (g : Pages α) : Prop where
  held : M.pool.Held (Holds M A g) g.free
  used : ∀ {x f}, Holds M A g x f → g.count f = 1 ∧ M.reserved f = false
  free : ∀ {p}, M.pool.free g.free p → validPage M p ∧ M.reserved p = false

/-- The frame `p` is out of the pool and in no place yet. -/
structure Spare (M : Machine α) (A : ℕ → Prop) (g : Pages α) (p : ℕ) : Prop where
  not_free : ¬ M.pool.free g.free p
  out : ∀ x, ¬ Holds M A g x p
  count : g.count p = 1
  valid : validPage M p
  unreserved : M.reserved p = false

section

variable {M : Machine α} {A : ℕ → Prop} {g g' : Pages α} {m i j t p f : ℕ} {e : BitVec 32}

theorem HasTable.unique {t' : ℕ} (h : HasTable M g m i t) (h' : HasTable M g m i t') : t = t' :=
  h.frame.symm.trans h'.frame

theorem HasTable.ne_zero (h : HasTable M g m i t) : g.pgd m i ≠ 0 := by
  intro h0
  have hframe : 0 = t := by
    rw [← h.frame, h0]
    rfl
  exact not_validPage_zero M (hframe ▸ h.valid)

theorem HasTable.ne_cleared (h : HasTable M g m i t) : g.pgd m i ≠ setPmd 0 := by
  intro h0
  have hframe : 0 = t := by
    rw [← h.frame, h0]
    rfl
  exact not_validPage_zero M (hframe ▸ h.valid)

theorem HasTable.congr (h : HasTable M g m i t) (hpgd : g'.pgd m i = g.pgd m i) :
    HasTable M g' m i t := by
  refine ⟨h.lt, ?_, ?_, h.valid⟩
  · rw [hpgd]
    exact h.good
  · rw [hpgd]
    exact h.frame

theorem hasTable_congr (hpgd : g'.pgd m i = g.pgd m i) : HasTable M g' m i t ↔ HasTable M g m i t :=
  ⟨fun h => h.congr hpgd.symm, fun h => h.congr hpgd⟩

theorem EntryMaps.unique {f' : ℕ} (h : EntryMaps M e f) (h' : EntryMaps M e f') : f = f' :=
  h.frame.symm.trans h'.frame

theorem not_entryMaps_zero : ¬ EntryMaps M 0 f := fun h => h.present rfl

/-- A cleared entry maps nothing. -/
theorem not_entryMaps_clear : ¬ EntryMaps M (setPte 0) f := by
  intro h
  have hframe : 0 = f := by
    rw [← h.frame, pfn_setPte]
    rfl
  exact not_validPage_zero M (hframe ▸ h.valid)

/-- A cleared directory entry is no table. -/
theorem not_hasTable_clear (h : g.pgd m i = setPmd 0) : ¬ HasTable M g m i t := by
  intro ht
  have hframe : 0 = t := by
    rw [← ht.frame, h, pfn_setPmd]
    rfl
  exact not_validPage_zero M (hframe ▸ ht.valid)

/-- Only the directories and the words of tables decide who uses a frame. -/
theorem holds_congr (hpgd : ∀ m, A m → g'.pgd m = g.pgd m)
    (hmem : ∀ m i t, A m → HasTable M g m i t → ∀ j < 256, g'.mem t j = g.mem t j) :
    Holds M A g' = Holds M A g := by
  funext x f
  rw [eq_iff_iff]
  cases x with
  | table m i =>
    apply and_congr_right
    intro hm
    exact hasTable_congr (by rw [hpgd m hm])
  | page m k =>
    apply and_congr_right
    intro hm
    have hlt : k % 256 < 256 := mod_lt _ (by decide)
    constructor
    · rintro ⟨t, ht, he⟩
      have ht' : HasTable M g m (k / 256) t := ht.congr (by rw [hpgd m hm])
      rw [hmem m _ t hm ht' _ hlt] at he
      exact ⟨t, ht', he⟩
    · rintro ⟨t, ht, he⟩
      refine ⟨t, ht.congr (by rw [hpgd m hm]), ?_⟩
      rw [hmem m _ t hm ht _ hlt]
      exact he

/-! ## Moves -/

/-- Frames leave places. -/
theorem PagesOk.shrink (h : PagesOk M A g) (hfree : g'.free = g.free)
    (hcount : ∀ f, g'.count f = g.count f)
    (hH : ∀ x f, Holds M A g' x f → Holds M A g x f) : PagesOk M A g' where
  held := by
    refine h.held.mono hH fun q hq => ?_
    rw [hfree] at hq
    exact hq
  used := by
    intro x f hx
    rw [hcount]
    exact h.used (hH x f hx)
  free := by
    intro p hp
    rw [hfree] at hp
    exact h.free hp

/-- A frame that has left its place. -/
theorem PagesOk.spare (h : PagesOk M A g) (hx : Holds M A g x f) (hvalid : validPage M f)
    (hfree : g'.free = g.free) (hcount : ∀ f, g'.count f = g.count f)
    (hH : ∀ y q, Holds M A g' y q → Holds M A g y q) (hgone : ¬ Holds M A g' x f) :
    Spare M A g' f where
  not_free := by
    rw [hfree]
    exact h.held.not_free hx
  out := by
    intro y hy
    have hyx : y = x := h.held.unique (hH y f hy) hx
    rw [hyx] at hy
    exact hgone hy
  count := by
    rw [hcount]
    exact (h.used hx).1
  valid := hvalid
  unreserved := (h.used hx).2

/-- A spare frame is put into the place `x`. -/
theorem PagesOk.put (h : PagesOk M A g) (hp : Spare M A g p) (hfree : g'.free = g.free)
    (hcount : ∀ f, g'.count f = g.count f)
    (hH : ∀ y q, Holds M A g' y q → Holds M A g y q ∨ y = x ∧ q = p) : PagesOk M A g' where
  held := by
    rw [hfree]
    exact h.held.put hp.not_free hp.out hH
  used := by
    intro y q hy
    rw [hcount]
    rcases hH y q hy with hy | ⟨_, rfl⟩
    · exact h.used hy
    · exact ⟨hp.count, hp.unreserved⟩
  free := by
    intro q hq
    rw [hfree] at hq
    exact h.free hq

/-- What `alloc_pages` changes. -/
structure Taken (M : Machine α) (g g' : Pages α) (p : ℕ) : Prop where
  pgd : g'.pgd = g.pgd
  zero : ∀ j, g'.mem p j = 0
  mem : ∀ q, q ≠ p → g'.mem q = g.mem q
  count : ∀ q, q ≠ p → g'.count q = g.count q
  was_free : M.pool.free g.free p
  failed : g'.failed = g.failed
  fault : g'.fault = g.fault

theorem allocPage_taken (halloc : allocPage M g = some (p, g')) :
    Taken M g g' p ∧ g'.count p = 1 ∧ M.pool.alloc g.free = some (p, g'.free) := by
  rw [allocPage, Option.map_eq_some_iff] at halloc
  obtain ⟨⟨q, a⟩, hq, heq⟩ := halloc
  obtain ⟨rfl, rfl⟩ := Prod.mk.inj heq
  refine ⟨⟨rfl, fun j => ?_, fun r hr => if_neg hr, fun r hr => if_neg hr,
    M.pool.free_of_alloc hq, rfl, rfl⟩, if_pos rfl, hq⟩
  show (if q = q then fun _ => 0 else _) j = _
  rw [if_pos rfl]

section

variable (h : PagesOk M A g)

include h

/-- Clearing a free frame changes no table. -/
theorem PagesOk.mem_taken (htaken : Taken M g g' p) (hm : A m)
    (ht : HasTable M g m i t) : g'.mem t = g.mem t := by
  apply htaken.mem
  rintro rfl
  exact h.held.not_free (show Holds M A g (.table m i) t from ⟨hm, ht⟩) htaken.was_free

theorem PagesOk.holds_taken (htaken : Taken M g g' p) :
    Holds M A g' = Holds M A g := by
  refine holds_congr (fun m _ => by rw [htaken.pgd]) fun m i t hm ht j _ => ?_
  rw [h.mem_taken htaken hm ht]

/-- `alloc_pages` hands out a spare frame. -/
theorem PagesOk.alloc (halloc : allocPage M g = some (p, g')) :
    PagesOk M A g' ∧ Spare M A g' p := by
  obtain ⟨htaken, hone, hpool⟩ := allocPage_taken halloc
  obtain ⟨hheld, hnot, hout⟩ := h.held.alloc hpool
  have hsame := h.holds_taken htaken
  obtain ⟨hvalid, hres⟩ := h.free htaken.was_free
  refine ⟨⟨?_, ?_, ?_⟩, ⟨hnot, ?_, hone, hvalid, hres⟩⟩
  · rw [hsame]
    exact hheld
  · intro x f hx
    rw [hsame] at hx
    have hne : f ≠ p := by
      rintro rfl
      exact hout x hx
    rw [htaken.count f hne]
    exact h.used hx
  · intro q hq
    exact h.free ((M.pool.free_after_alloc hpool q).mp hq).1
  · rw [hsame]
    exact hout

/-- `__free_page` of a spare frame gives it back. -/
theorem PagesOk.freePage (hp : Spare M A g p) :
    PagesOk M A (freePage M g p) := by
  have hstate : Paging.freePage M g p =
      { g.setCount p (g.count p - 1) with free := M.pool.release g.free p } := by
    rw [Paging.freePage, hp.unreserved]
    have hzero : (g.setCount p (g.count p - 1)).count p = 0 := by
      show (if p = p then g.count p - 1 else g.count p) = 0
      rw [if_pos rfl, hp.count]
      rfl
    simp only [Bool.false_eq_true, if_false]
    rw [if_pos hzero]
    rfl
  have hsame : Holds M A (Paging.freePage M g p) = Holds M A g := by
    rw [hstate]
    exact holds_congr (fun _ _ => rfl) (fun _ _ _ _ _ _ _ => rfl)
  refine ⟨?_, ?_, ?_⟩
  · rw [hsame, hstate]
    exact h.held.release hp.out
  · intro x f hx
    rw [hsame] at hx
    have hne : f ≠ p := by
      rintro rfl
      exact hp.out x hx
    refine ⟨?_, (h.used hx).2⟩
    rw [hstate]
    show (if f = p then _ else g.count f) = 1
    rw [if_neg hne]
    exact (h.used hx).1
  · intro q hq
    rw [hstate] at hq
    rcases (M.pool.free_release g.free p q).mp hq with hq | rfl
    · exact h.free hq
    · exact ⟨hp.valid, hp.unreserved⟩

/-! ### Writing an entry of a table -/

section

variable (hm : A m) (ht : HasTable M g m i t)

include hm ht

/-- The words of two entries are different. -/
theorem PagesOk.setWord_word {k u : ℕ} (hn : A n) (hu : HasTable M g n (k / 256) u)
    (hne : Slot.page n k ≠ .page m (256 * i + j)) :
    (g.setWord t j e).mem u (k % 256) = g.mem u (k % 256) := by
  refine if_neg ?_
  rintro ⟨rfl, hk⟩
  have hslot : Slot.table n (k / 256) = .table m i :=
    h.held.unique (show Holds M A g (.table n (k / 256)) u from ⟨hn, hu⟩)
      (show Holds M A g (.table m i) u from ⟨hm, ht⟩)
  obtain ⟨rfl, hki⟩ := Slot.table.inj hslot
  apply hne
  congr 1
  omega

theorem PagesOk.holds_setWord
    (hj : j < 256) (e : BitVec 32) {q : ℕ} : Holds M A (g.setWord t j e) x q ↔
      x = .page m (256 * i + j) ∧ EntryMaps M e q ∨
        x ≠ .page m (256 * i + j) ∧ Holds M A g x q := by
  have htable : ∀ n l u, HasTable M (g.setWord t j e) n l u ↔ HasTable M g n l u :=
    fun n l u => hasTable_congr rfl
  cases x with
  | table n l =>
    simp only [Holds, htable, reduceCtorEq, false_and, false_or, ne_eq, not_false_eq_true, true_and]
  | page n k =>
    by_cases hx : Slot.page n k = .page m (256 * i + j)
    · obtain ⟨rfl, rfl⟩ := Slot.page.inj hx
      have hdiv : (256 * i + j) / 256 = i := by omega
      have hmod : (256 * i + j) % 256 = j := by omega
      simp only [Holds, Maps, htable, hdiv, hmod, true_and, ne_eq, not_true_eq_false, false_and,
        or_false]
      constructor
      · rintro ⟨_, u, hu, he⟩
        have hut : u = t := hu.unique ht
        rw [hut] at he
        simpa [Pages.setWord] using he
      · intro he
        refine ⟨hm, t, ht, ?_⟩
        simpa [Pages.setWord] using he
    · -- another entry: it is not the word written
      simp only [Holds, Maps, htable, hx, false_and, false_or, ne_eq, not_false_eq_true, true_and]
      apply and_congr_right
      intro hn
      apply exists_congr
      intro u
      apply and_congr_right
      intro hu
      rw [h.setWord_word hm ht hn hu hx]

/-- An entry is overwritten by one that maps nothing. -/
theorem PagesOk.clearWord (hj : j < 256)
    (he : ∀ q, ¬ EntryMaps M e q) : PagesOk M A (g.setWord t j e) ∧
      ∀ f, EntryMaps M (g.mem t j) f → Spare M A (g.setWord t j e) f := by
  have hless : ∀ x q, Holds M A (g.setWord t j e) x q → Holds M A g x q := by
    intro x q hx
    rcases (h.holds_setWord hm ht hj e).mp hx with ⟨_, hq⟩ | ⟨_, hx⟩
    · exact absurd hq (he q)
    · exact hx
  refine ⟨h.shrink rfl (fun _ => rfl) hless, fun f hf => ?_⟩
  have hold : Holds M A g (.page m (256 * i + j)) f := by
    refine ⟨hm, t, ?_, ?_⟩
    · rw [show (256 * i + j) / 256 = i by omega]
      exact ht
    · rw [show (256 * i + j) % 256 = j by omega]
      exact hf
  refine h.spare hold hf.valid rfl (fun _ => rfl) hless fun hx => ?_
  rcases (h.holds_setWord hm ht hj e).mp hx with ⟨_, hq⟩ | ⟨hne, _⟩
  · exact he f hq
  · exact hne rfl

/-- A spare frame is mapped. -/
theorem PagesOk.fillWord (hj : j < 256)
    (hp : Spare M A g p) (he : EntryMaps M e p) : PagesOk M A (g.setWord t j e) := by
  refine h.put (x := .page m (256 * i + j)) hp rfl (fun _ => rfl) fun x q hx => ?_
  rcases (h.holds_setWord hm ht hj e).mp hx with ⟨hx, hq⟩ | ⟨_, hx⟩
  · exact Or.inr ⟨hx, hq.unique he⟩
  · exact Or.inl hx

end

end

/-! ### Writing an entry of the directory -/

theorem setDir_pgd_of_ne {l : ℕ} (d : BitVec 32) (hne : ¬ (n = m ∧ l = i)) :
    (g.setDir m i d).pgd n l = g.pgd n l := if_neg hne

@[simp] theorem setDir_pgd (d : BitVec 32) : (g.setDir m i d).pgd m i = d := if_pos ⟨rfl, rfl⟩

/-- Outside the section written, all is as before. -/
theorem maps_setDir_of_ne {k : ℕ} {d : BitVec 32} (hne : ¬ (n = m ∧ k / 256 = i)) :
    Maps M (g.setDir m i d) n k f ↔ Maps M g n k f := by
  apply exists_congr
  intro u
  rw [hasTable_congr (setDir_pgd_of_ne d hne)]
  rfl

theorem hasTable_setDir (hi : i < 4096) (hp : validPage M p) :
    HasTable M (g.setDir m i (setPmd (pageAddress p))) m i p := by
  refine ⟨hi, ?_, ?_, hp⟩
  · rw [setDir_pgd]
    exact not_pmdBad_setPmd _
  · rw [setDir_pgd, pfn_setPmd, pfn_pageAddress hp.lt]

/-- An empty table is put into the directory. -/
theorem PagesOk.newTable (h : PagesOk M A g) (hi : i < 4096) (hp : Spare M A g p)
    (hzero : ∀ j < 256, g.mem p j = 0) :
    PagesOk M A (g.setDir m i (setPmd (pageAddress p))) ∧
      HasTable M (g.setDir m i (setPmd (pageAddress p))) m i p := by
  have hnew : HasTable M (g.setDir m i (setPmd (pageAddress p))) m i p := hasTable_setDir hi hp.valid
  refine ⟨h.put (x := .table m i) hp rfl (fun _ => rfl) fun y q hy => ?_, hnew⟩
  cases y with
  | table n l =>
    by_cases hne : n = m ∧ l = i
    · obtain ⟨rfl, rfl⟩ := hne
      exact Or.inr ⟨rfl, hy.2.unique hnew⟩
    · left
      exact ⟨hy.1, (hasTable_congr (setDir_pgd_of_ne _ hne)).mp hy.2⟩
  | page n k =>
    by_cases hne : n = m ∧ k / 256 = i
    · -- the new table is empty
      obtain ⟨rfl, rfl⟩ := hne
      obtain ⟨_, u, hu, he⟩ := hy
      rw [hu.unique hnew] at he
      have hword : (g.setDir n (k / 256) (setPmd (pageAddress p))).mem p (k % 256) = 0 :=
        hzero _ (mod_lt _ (by decide))
      rw [hword] at he
      exact absurd he not_entryMaps_zero
    · left
      exact ⟨hy.1, (maps_setDir_of_ne hne).mp hy.2⟩

/-- A directory entry is cleared. -/
theorem PagesOk.dropTable (h : PagesOk M A g) (hm : A m) :
    PagesOk M A (g.setDir m i (setPmd 0)) ∧
      ∀ t, HasTable M g m i t → Spare M A (g.setDir m i (setPmd 0)) t := by
  have hgone : ∀ t, ¬ HasTable M (g.setDir m i (setPmd 0)) m i t :=
    fun t => not_hasTable_clear (setDir_pgd _)
  have hless : ∀ x q, Holds M A (g.setDir m i (setPmd 0)) x q → Holds M A g x q := by
    intro x q hx
    cases x with
    | table n l =>
      by_cases hne : n = m ∧ l = i
      · obtain ⟨rfl, rfl⟩ := hne
        exact absurd hx.2 (hgone q)
      · exact ⟨hx.1, (hasTable_congr (setDir_pgd_of_ne _ hne)).mp hx.2⟩
    | page n k =>
      by_cases hne : n = m ∧ k / 256 = i
      · obtain ⟨rfl, rfl⟩ := hne
        obtain ⟨_, u, hu, _⟩ := hx
        exact absurd hu (hgone u)
      · exact ⟨hx.1, (maps_setDir_of_ne hne).mp hx.2⟩
  refine ⟨h.shrink rfl (fun _ => rfl) hless, fun t ht => ?_⟩
  have hold : Holds M A g (.table m i) t := ⟨hm, ht⟩
  exact h.spare hold ht.valid rfl (fun _ => rfl) hless (fun hx => hgone t hx.2)

end

/-! ## Addresses -/

theorem toNat_pgdIndex (a : BitVec 32) : (pgdIndex a).toNat = a.toNat / 2 ^ 20 := by
  rw [pgdIndex, BitVec.toNat_ushiftRight, Nat.shiftRight_eq_div_pow]

theorem pteIndex_eq (a : BitVec 32) : pteIndex a = a.toNat / 4096 % 256 := by
  have hones : (0xff : BitVec 32).toNat = 2 ^ 8 - 1 := by decide
  rw [pteIndex, toNat_and, hones, Nat.and_two_pow_sub_one_eq_mod, toNat_shift_page]

theorem toNat_and_pgdirSize (a : BitVec 32) : (a &&& (pgdirSize - 1)).toNat = a.toNat % 2 ^ 20 := by
  have hones : (pgdirSize - 1).toNat = 2 ^ 20 - 1 := by decide
  rw [toNat_and, hones, Nat.and_two_pow_sub_one_eq_mod]

theorem toNat_nextSection (a : BitVec 32) :
    (nextSection a).toNat = (a.toNat / 2 ^ 20 + 1) * 2 ^ 20 % 2 ^ 32 := by
  have hmask : ~~~(pgdirSize - 1) = maskOf 20 := by decide
  have hsize : pgdirSize.toNat = 2 ^ 20 := by decide
  rw [nextSection, hmask, toNat_and_maskOf, toNat_add, hsize]
  omega

/-! ## Zapping and clearing -/

section

variable {M : Machine α} {A : ℕ → Prop} {g g' g'' : Pages α} {m i j t p : ℕ}

/-- What zapping leaves alone: the tables, the empty directory entries, and whether something
has gone wrong. -/
structure Zapped (M : Machine α) (g g' : Pages α) : Prop where
  tables : ∀ m i t, HasTable M g' m i t ↔ HasTable M g m i t
  empty : ∀ m i, g.pgd m i = 0 → g'.pgd m i = 0
  failed : g'.failed = g.failed
  fault : g'.fault = g.fault

theorem Zapped.refl (g : Pages α) : Zapped M g g := ⟨fun _ _ _ => Iff.rfl, fun _ _ => id, rfl, rfl⟩

theorem Zapped.trans (h : Zapped M g g') (h' : Zapped M g' g'') : Zapped M g g'' :=
  ⟨fun m i t => (h'.tables m i t).trans (h.tables m i t),
    fun m i h0 => h'.empty m i (h.empty m i h0), h'.failed.trans h.failed, h'.fault.trans h.fault⟩

theorem Zapped.of_pgd (hpgd : g'.pgd = g.pgd) (hfailed : g'.failed = g.failed)
    (hfault : g'.fault = g.fault) : Zapped M g g' :=
  ⟨fun m i t => hasTable_congr (by rw [hpgd]), fun m i h0 => by rw [hpgd]; exact h0, hfailed,
    hfault⟩

theorem freePage_frame (M : Machine α) (g : Pages α) (p : ℕ) :
    (freePage M g p).pgd = g.pgd ∧ (freePage M g p).mem = g.mem ∧
      (freePage M g p).failed = g.failed ∧ (freePage M g p).fault = g.fault := by
  unfold freePage
  simp only
  split_ifs <;> exact ⟨rfl, rfl, rfl, rfl⟩

theorem freePte_frame (M : Machine α) (g : Pages α) (e : BitVec 32) :
    (freePte M g e).pgd = g.pgd ∧ (freePte M g e).mem = g.mem ∧
      (freePte M g e).failed = g.failed ∧ (freePte M g e).fault = g.fault := by
  unfold freePte
  split_ifs
  · exact ⟨rfl, rfl, rfl, rfl⟩
  · exact freePage_frame M g _
  · exact ⟨rfl, rfl, rfl, rfl⟩

theorem zapPte_zapped (M : Machine α) (g : Pages α) (t j : ℕ) : Zapped M g (zapPte M g t j) := by
  unfold zapPte
  simp only
  split_ifs
  · exact Zapped.of_pgd rfl rfl rfl
  · obtain ⟨h1, _, h2, h3⟩ := freePte_frame M (g.setWord t j (setPte 0)) (g.mem t j)
    exact Zapped.of_pgd h1 h2 h3

section

variable (h : PagesOk M A g) (hm : A m)

include h hm

/-- One round of `zap_pte_range`: the entry is cleared and its frame given back. -/
theorem PagesOk.zapPte (ht : HasTable M g m i t) (hj : j < 256) :
    PagesOk M A (zapPte M g t j) := by
  obtain ⟨hclear, hspare⟩ := h.clearWord hm ht hj (fun q => not_entryMaps_clear)
  unfold Paging.zapPte
  simp only
  split_ifs with hzero
  · exact hclear
  · unfold freePte
    split_ifs with hpresent hno
    · exact hclear
    · push Not at hno
      exact hclear.freePage (hspare _ ⟨hpresent, rfl, hno.1⟩)
    · exact hclear

/-- The loop of `zap_pte_range` inside a table. -/
theorem PagesOk.zapPtes (ht : HasTable M g m i t)
    (hn : j + n ≤ 256) : PagesOk M A (zapPtes M t n j g) ∧ Zapped M g (zapPtes M t n j g) := by
  induction n generalizing j g with
  | zero => exact ⟨h, Zapped.refl g⟩
  | succ n ih =>
    have hz := zapPte_zapped M g t j
    obtain ⟨h1, h2⟩ := ih (h.zapPte hm ht (by omega)) ((hz.tables m i t).mpr ht)
      (show j + 1 + n ≤ 256 by omega)
    exact ⟨h1, hz.trans h2⟩

omit h hm in
/-- `zap_pte_range` in numbers, for an offset in a section and a size that stays in it. -/
theorem zapPteRange_eq (M : Machine α) (g : Pages α) (m i : ℕ) {off : BitVec 32}
    (hoff : off.toNat < 2 ^ 20) (hsize : off.toNat + size.toNat ≤ 2 ^ 20) :
    zapPteRange M g m i off size =
      if g.pgd m i = 0 then g
      else if pmdBad (g.pgd m i) then g.setDir m i (setPmd 0)
      else zapPtes M (pfn (g.pgd m i)) (size.toNat / 4096) (off.toNat / 4096) g := by
  have hdir : pgdirSize.toNat = 2 ^ 20 := by decide
  have hoff' : (off &&& (pgdirSize - 1)).toNat = off.toNat := by
    rw [toNat_and_pgdirSize, mod_eq_of_lt hoff]
  have hnocut : ¬ pgdirSize < (off &&& (pgdirSize - 1)) + size := by
    rw [lt_def, hdir, toNat_add, hoff', mod_eq_of_lt (by omega)]
    omega
  have hindex : pteIndex off = off.toNat / 4096 := by
    rw [pteIndex_eq]
    omega
  unfold zapPteRange
  simp only
  rw [if_neg hnocut, pfn_pmdPage, toNat_shift_page, hindex]

omit h hm in
/-- `zap_pmd_range` in numbers: the entries of the section from the address on, as far as the
size goes. -/
theorem zapPmdRange_eq (M : Machine α) (g : Pages α) (m i : ℕ)
    (hsum : address.toNat % 2 ^ 20 + size.toNat < 2 ^ 32) :
    zapPmdRange M g m i address size =
      if g.pgd m i = 0 then g
      else if pmdBad (g.pgd m i) then g.setDir m i (setPmd 0)
      else zapPtes M (pfn (g.pgd m i)) (min (2 ^ 20 - address.toNat % 2 ^ 20) size.toNat / 4096)
        (address.toNat % 2 ^ 20 / 4096) g := by
  have hdir : pgdirSize.toNat = 2 ^ 20 := by decide
  have hoff := toNat_and_pgdirSize address
  unfold zapPmdRange
  generalize address &&& (pgdirSize - 1) = off at hoff
  have hadd : (off + size).toNat = address.toNat % 2 ^ 20 + size.toNat := by
    rw [toNat_add, hoff, mod_eq_of_lt hsum]
  -- the size that `zap_pte_range` is called with
  have hrest : ((if pgdirSize < off + size then pgdirSize else off + size) - off).toNat =
      min (2 ^ 20 - address.toNat % 2 ^ 20) size.toNat := by
    by_cases hbig : pgdirSize < off + size
    · rw [if_pos hbig]
      rw [lt_def, hdir, hadd] at hbig
      rw [toNat_sub_of_le (by rw [le_def, hoff, hdir]; omega), hdir, hoff]
      omega
    · rw [if_neg hbig]
      rw [lt_def, hdir, hadd] at hbig
      rw [toNat_sub_of_le (by rw [le_def, hadd, hoff]; omega), hadd, hoff]
      omega
  rw [zapPteRange_eq M g m i (by omega) (by omega), hrest, hoff]

/-- One section of `zap_page_range`: if pages are zapped, the section has a table. -/
theorem PagesOk.zapPmdRange (i : ℕ) (address size : BitVec 32)
    (hsum : address.toNat % 2 ^ 20 + size.toNat < 2 ^ 32)
    (htab : 0 < size.toNat → ∃ t, HasTable M g m i t) :
    PagesOk M A (zapPmdRange M g m i address size) ∧
      Zapped M g (zapPmdRange M g m i address size) ∧
      (size = 0 → (zapPmdRange M g m i address size).mem = g.mem) := by
  rw [zapPmdRange_eq M g m i hsum]
  split_ifs with h0 hbad
  · exact ⟨h, Zapped.refl g, fun _ => rfl⟩
  · -- a section of the kernel loses its entry
    refine ⟨(h.dropTable hm).1, ⟨fun n l t => ?_, fun n l hz => ?_, rfl, rfl⟩, fun _ => rfl⟩
    · by_cases hne : n = m ∧ l = i
      · obtain ⟨rfl, rfl⟩ := hne
        exact iff_of_false (not_hasTable_clear (setDir_pgd _)) (fun ht => ht.good hbad)
      · exact hasTable_congr (setDir_pgd_of_ne _ hne)
    · by_cases hne : n = m ∧ l = i
      · obtain ⟨rfl, rfl⟩ := hne
        exact absurd hz h0
      · rw [setDir_pgd_of_ne _ hne]
        exact hz
  · by_cases hpos : 0 < size.toNat
    · obtain ⟨t, ht⟩ := htab hpos
      rw [ht.frame]
      obtain ⟨h1, h2⟩ := h.zapPtes hm ht
        (show address.toNat % 2 ^ 20 / 4096 +
          min (2 ^ 20 - address.toNat % 2 ^ 20) size.toNat / 4096 ≤ 256 by omega)
      refine ⟨h1, h2, fun hz => ?_⟩
      rw [hz] at hpos
      exact absurd hpos (by decide)
    · have hnone : min (2 ^ 20 - address.toNat % 2 ^ 20) size.toNat / 4096 = 0 := by omega
      rw [hnone]
      exact ⟨h, Zapped.refl g, fun _ => rfl⟩

/-- The loop of `zap_page_range`, by induction on the sections left. -/
theorem PagesOk.zapSections (stop address : BitVec 32)
    (hn : address.toNat / 2 ^ 20 + n = 4096) (hle : address.toNat ≤ stop.toNat)
    (htab : ∀ x, address.toNat ≤ x → x < stop.toNat → ∃ t, HasTable M g m (x / 2 ^ 20) t) :
    PagesOk M A (zapSections M m stop n address g) ∧
      Zapped M g (zapSections M m stop n address g) ∧
      (address = stop → (zapSections M m stop n address g).mem = g.mem) := by
  induction n generalizing address g with
  | zero => exact ⟨h, Zapped.refl g, fun _ => rfl⟩
  | succ n ih =>
    have hsub : (stop - address).toNat = stop.toNat - address.toNat :=
      toNat_sub_of_le (le_def.mpr hle)
    have hindex : 4095 - n = address.toNat / 2 ^ 20 := by omega
    obtain ⟨h1, h2, h3⟩ := h.zapPmdRange hm (4095 - n) address (stop - address) (by omega)
      (fun hpos => by
        rw [hindex]
        exact htab _ le_rfl (by omega))
    have hnext := toNat_nextSection address
    rw [Paging.zapSections]
    split_ifs with hgo
    · obtain ⟨hne, hlt⟩ := hgo
      have hne' : (nextSection address).toNat ≠ 0 := by
        intro hz
        exact hne (BitVec.eq_of_toNat_eq hz)
      rw [lt_def] at hlt
      obtain ⟨h4, h5, _⟩ := ih h1 (nextSection address) (by omega) hlt.le
        (fun x hx1 hx2 => by
          obtain ⟨t, ht⟩ := htab x (by omega) hx2
          exact ⟨t, (h2.tables m _ t).mpr ht⟩)
      refine ⟨h4, h2.trans h5, fun heq => ?_⟩
      have : address.toNat = stop.toNat := congrArg BitVec.toNat heq
      omega
    · refine ⟨h1, h2, fun heq => h3 ?_⟩
      rw [heq]
      exact BitVec.sub_self stop

/-- **`zap_page_range`** over sections that have tables. -/
theorem PagesOk.zapPageRange (hlt : address.toNat + size.toNat < 2 ^ 32)
    (htab : ∀ x, address.toNat ≤ x → x < address.toNat + size.toNat →
      ∃ t, HasTable M g m (x / 2 ^ 20) t) :
    PagesOk M A (zapPageRange M g m address size) ∧
      Zapped M g (zapPageRange M g m address size) ∧
      (size = 0 → (zapPageRange M g m address size).mem = g.mem) := by
  have hadd : (address + size).toNat = address.toNat + size.toNat := BitVec.toNat_add_of_lt hlt
  have hn : address.toNat / 2 ^ 20 + (4096 - (pgdIndex address).toNat) = 4096 := by
    rw [toNat_pgdIndex]
    omega
  obtain ⟨h1, h2, h3⟩ := h.zapSections hm (address + size) address hn (by omega)
    (by rw [hadd]; exact htab)
  refine ⟨h1, h2, fun hz => h3 ?_⟩
  rw [hz]
  exact (BitVec.add_zero address).symm

/-- What `clear_page_tables` leaves alone: the other directory entries, those that are empty,
and all words of memory. -/
structure Cleared (m first n : ℕ) (g g' : Pages α) : Prop where
  other : ∀ k, k ≠ m → g'.pgd k = g.pgd k
  outside : ∀ i, i < first ∨ first + n ≤ i → g'.pgd m i = g.pgd m i
  empty : ∀ i, g.pgd m i = 0 → g'.pgd m i = 0
  mem : g'.mem = g.mem
  failed : g'.failed = g.failed
  fault : g'.fault = g.fault

/-- `free_one_pmd`. -/
theorem PagesOk.freeOnePmd (hi : i < 4096) :
    PagesOk M A (freeOnePmd M g m i) ∧ Cleared m i 1 g (freeOnePmd M g m i) := by
  obtain ⟨hdrop, hspare⟩ := h.dropTable hm (i := i)
  have hcleared : g.pgd m i ≠ 0 → Cleared m i 1 g (g.setDir m i (setPmd 0)) := by
    intro h0
    refine ⟨fun k hk => ?_, fun l hl => ?_, fun l hl => ?_, rfl, rfl, rfl⟩
    · funext l
      exact setDir_pgd_of_ne _ (fun hh => hk hh.1)
    · exact setDir_pgd_of_ne _ (fun hh => by have := hh.2; omega)
    · rw [setDir_pgd_of_ne _ (fun hh => h0 (by rw [← hh.2]; exact hl))]
      exact hl
  unfold Paging.freeOnePmd
  simp only
  split_ifs with h0 hbad
  · exact ⟨h, ⟨fun _ _ => rfl, fun _ _ => rfl, fun _ hz => hz, rfl, rfl, rfl⟩⟩
  · exact ⟨hdrop, hcleared h0⟩
  · unfold freePages
    rw [pfn_pmdPage]
    split_ifs with hvalid
    · have ht : HasTable M g m i (pfn (g.pgd m i)) := ⟨hi, hbad, rfl, hvalid⟩
      obtain ⟨h1, h2, h3, h4⟩ := freePage_frame M (g.setDir m i (setPmd 0)) (pfn (g.pgd m i))
      have hc := hcleared h0
      refine ⟨hdrop.freePage (hspare _ ht), ⟨?_, ?_, ?_, h2, h3, h4⟩⟩
      · rw [h1]
        exact hc.other
      · rw [h1]
        exact hc.outside
      · rw [h1]
        exact hc.empty
    · exact ⟨hdrop, hcleared h0⟩

/-- The loop of `clear_page_tables`. -/
theorem PagesOk.clearTables (hn : i + n ≤ 4096) :
    PagesOk M A (clearTables M m n i g) ∧ Cleared m i n g (clearTables M m n i g) := by
  induction n generalizing i g with
  | zero => exact ⟨h, ⟨fun _ _ => rfl, fun _ _ => rfl, fun _ hz => hz, rfl, rfl, rfl⟩⟩
  | succ n ih =>
    obtain ⟨h1, c1⟩ := h.freeOnePmd hm (show i < 4096 by omega)
    obtain ⟨h2, c2⟩ := ih h1 (show i + 1 + n ≤ 4096 by omega)
    refine ⟨h2, ⟨fun k hk => (c2.other k hk).trans (c1.other k hk), fun l hl => ?_,
      fun l hz => c2.empty l (c1.empty l hz), c2.mem.trans c1.mem, c2.failed.trans c1.failed,
      c2.fault.trans c1.fault⟩⟩
    exact (c2.outside l (by omega)).trans (c1.outside l (by omega))

end

end

/-! ## Faults -/

/-- Nothing has been mapped for the page number `k`: its section has no table, or a zero there. -/
def Empty (M : Machine α) (g : Pages α) (m k : ℕ) : Prop :=
  g.pgd m (k / 256) = 0 ∨ ∃ t, HasTable M g m (k / 256) t ∧ g.mem t (k % 256) = 0

/-- From `g` to `g'` tables and pages are added: what was mapped still is, and so is empty what
was, apart from the pages in `X`. -/
structure Grown (M : Machine α) (A : ℕ → Prop) (X : ℕ → ℕ → Prop) (g g' : Pages α) : Prop where
  tables : ∀ n i t, A n → HasTable M g n i t → HasTable M g' n i t
  maps : ∀ n k f, A n → Maps M g n k f → Maps M g' n k f
  empty : ∀ n k, A n → ¬ X n k → Empty M g n k → Empty M g' n k
  failed : g'.failed = g.failed
  fault : g'.fault = g.fault

section

variable {M : Machine α} {A : ℕ → Prop} {X Y : ℕ → ℕ → Prop} {g g' g'' : Pages α}
  {m i j t p : ℕ}

theorem Grown.trans (h : Grown M A X g g') (h' : Grown M A Y g' g'')
    (hX : ∀ n k, X n k → Y n k) : Grown M A Y g g'' where
  tables n i t hn ht := h'.tables n i t hn (h.tables n i t hn ht)
  maps n k f hn hf := h'.maps n k f hn (h.maps n k f hn hf)
  empty n k hn hk he := h'.empty n k hn hk (h.empty n k hn (fun hx => hk (hX n k hx)) he)
  failed := h'.failed.trans h.failed
  fault := h'.fault.trans h.fault

theorem Grown.mono (h : Grown M A X g g') (hX : ∀ n k, X n k → Y n k) : Grown M A Y g g' where
  tables := h.tables
  maps := h.maps
  empty n k hn hk he := h.empty n k hn (fun hx => hk (hX n k hx)) he
  failed := h.failed
  fault := h.fault

theorem PagesOk.grown_taken (h : PagesOk M A g) (htaken : Taken M g g' p) :
    Grown M A (fun _ _ => False) g g' where
  tables n i t _ ht := ht.congr (by rw [htaken.pgd])
  maps := by
    rintro n k f hn ⟨t, ht, he⟩
    refine ⟨t, ht.congr (by rw [htaken.pgd]), ?_⟩
    rw [h.mem_taken htaken hn ht]
    exact he
  empty := by
    rintro n k hn _ (h0 | ⟨t, ht, hz⟩)
    · left
      rw [htaken.pgd]
      exact h0
    · right
      refine ⟨t, ht.congr (by rw [htaken.pgd]), ?_⟩
      rw [h.mem_taken htaken hn ht]
      exact hz
  failed := htaken.failed
  fault := htaken.fault

/-- A new table in an empty directory entry. -/
theorem grown_newTable (h0 : g.pgd m i = 0) (hzero : ∀ j < 256, g.mem p j = 0)
    (hnew : HasTable M (g.setDir m i (setPmd (pageAddress p))) m i p) :
    Grown M A (fun _ _ => False) g (g.setDir m i (setPmd (pageAddress p))) where
  tables := by
    intro n l t _ ht
    refine ht.congr (setDir_pgd_of_ne _ ?_)
    rintro ⟨rfl, rfl⟩
    exact ht.ne_zero h0
  maps := by
    rintro n k f _ ⟨t, ht, he⟩
    refine ⟨t, ht.congr (setDir_pgd_of_ne _ ?_), he⟩
    rintro ⟨rfl, rfl⟩
    exact ht.ne_zero h0
  empty := by
    intro n k _ _ he
    by_cases hne : n = m ∧ k / 256 = i
    · obtain ⟨rfl, rfl⟩ := hne
      exact Or.inr ⟨p, hnew, hzero _ (mod_lt _ (by decide))⟩
    · rcases he with hz | ⟨t, ht, hz⟩
      · left
        rw [setDir_pgd_of_ne _ hne]
        exact hz
      · exact Or.inr ⟨t, ht.congr (setDir_pgd_of_ne _ hne), hz⟩
  failed := rfl
  fault := rfl

/-- An entry that was zero is written. -/
theorem PagesOk.grown_setWord (h : PagesOk M A g) (hm : A m) (ht : HasTable M g m i t)
    (hj : j < 256) (hz : g.mem t j = 0) (e : BitVec 32) :
    Grown M A (fun n k => n = m ∧ k = 256 * i + j) g (g.setWord t j e) where
  tables n l u _ hu := hu.congr rfl
  maps := by
    rintro n k f hn ⟨u, hu, he⟩
    have hne : Slot.page n k ≠ .page m (256 * i + j) := by
      intro heq
      obtain ⟨rfl, rfl⟩ := Slot.page.inj heq
      rw [show (256 * i + j) / 256 = i by omega] at hu
      rw [hu.unique ht, show (256 * i + j) % 256 = j by omega, hz] at he
      exact not_entryMaps_zero he
    refine ⟨u, hu.congr rfl, ?_⟩
    rw [h.setWord_word hm ht hn hu hne]
    exact he
  empty := by
    rintro n k hn hX (h0 | ⟨u, hu, hzero⟩)
    · exact Or.inl h0
    · right
      refine ⟨u, hu.congr rfl, ?_⟩
      have hne : Slot.page n k ≠ .page m (256 * i + j) := by
        intro heq
        exact hX (Slot.page.inj heq)
      rw [h.setWord_word hm ht hn hu hne]
      exact hzero
  failed := rfl
  fault := rfl

/-- The entry that a fault stores maps the new frame. -/
theorem entryMaps_new {pgprot : BitVec 32} (hp : validPage M p) (hprot : pgprot.toNat < 4096) :
    EntryMaps M (setPte (pteMkwrite (pteMkdirty (mkPte p pgprot)))) p := by
  refine ⟨ptePresent_setPte _, ?_, hp⟩
  rw [pfn_setPte, pteMkwrite, pfn_and_high _ _ (by decide), pteMkdirty,
    pfn_and_high _ _ (by decide), pfn_mkPte hp.lt hprot]

/-- `pte_alloc` of a section that has a table or nothing. -/
theorem PagesOk.pteAlloc (h : PagesOk M A g) (hi : i < 4096)
    (hdir : g.pgd m i = 0 ∨ ∃ t, HasTable M g m i t) :
    (∃ g', Paging.pteAlloc M g m i = (g', none) ∧ g'.failed = true) ∨
      ∃ g' t, Paging.pteAlloc M g m i = (g', some t) ∧ PagesOk M A g' ∧ HasTable M g' m i t ∧
        Grown M A (fun _ _ => False) g g' := by
  unfold Paging.pteAlloc
  by_cases h0 : g.pgd m i = 0
  · rw [if_pos h0]
    cases halloc : allocPage M g with
    | none => exact Or.inl ⟨_, rfl, rfl⟩
    | some r =>
      obtain ⟨p, g'⟩ := r
      right
      obtain ⟨h1, hspare⟩ := h.alloc halloc
      obtain ⟨htaken, _⟩ := allocPage_taken halloc
      have h0' : g'.pgd m i = 0 := by
        rw [htaken.pgd]
        exact h0
      obtain ⟨h2, hnew⟩ := h1.newTable hi hspare (fun j _ => htaken.zero j)
      exact ⟨_, p, rfl, h2, hnew,
        (h.grown_taken htaken).trans (grown_newTable h0' (fun j _ => htaken.zero j) hnew)
          (fun _ _ hx => hx)⟩
  · obtain ⟨t, ht⟩ := hdir.resolve_left h0
    rw [if_neg h0, if_neg ht.good, pfn_pmdPage, ht.frame]
    right
    exact ⟨g, t, rfl, h, ht, ⟨fun _ _ _ _ hh => hh, fun _ _ _ _ hh => hh, fun _ _ _ _ hh => hh,
      rfl, rfl⟩⟩

/-- **A write fault on an empty page** maps a frame, or runs out of memory. -/
theorem PagesOk.handleMmFault (h : PagesOk M A g) (hm : A m) {vma : VmArea}
    (hprot : vma.vmPageProt.toNat < 4096) (hempty : Empty M g m (address.toNat / 4096)) :
    (handleMmFault M g m vma address true).2 = -1 ∧
        (handleMmFault M g m vma address true).1.failed = true ∨
      (handleMmFault M g m vma address true).2 = 1 ∧
        PagesOk M A (handleMmFault M g m vma address true).1 ∧
        Grown M A (fun n k => n = m ∧ k = address.toNat / 4096) g
          (handleMmFault M g m vma address true).1 ∧
        ∃ f, Maps M (handleMmFault M g m vma address true).1 m (address.toNat / 4096) f := by
  have haddr := address.isLt
  have hi : (pgdIndex address).toNat = address.toNat / 4096 / 256 := by
    rw [toNat_pgdIndex]
    omega
  have hj : pteIndex address = address.toNat / 4096 % 256 := pteIndex_eq address
  have hjlt : address.toNat / 4096 % 256 < 256 := mod_lt _ (by decide)
  have hk : 256 * (address.toNat / 4096 / 256) + address.toNat / 4096 % 256 =
      address.toNat / 4096 := Nat.div_add_mod _ _
  have hlt : address.toNat / 4096 / 256 < 4096 := by omega
  unfold Paging.handleMmFault
  rw [hi, hj]
  generalize address.toNat / 4096 = k at *
  rcases h.pteAlloc (m := m) hlt
    (hempty.imp id (fun ⟨t, ht, _⟩ => ⟨t, ht⟩)) with ⟨g1, heq, hfail⟩ | ⟨g1, t, heq, h1, ht, hgrown⟩
  · rw [heq]
    exact Or.inl ⟨rfl, hfail⟩
  · rw [heq]
    -- the table that was there has a zero, and so has a new one
    have hzero : g1.mem t (k % 256) = 0 := by
      rcases hgrown.empty m k hm (fun hx => hx) hempty with h0 | ⟨u, hu, hz⟩
      · exact absurd h0 ht.ne_zero
      · rw [ht.unique hu]
        exact hz
    simp only [handlePteFault, doAnonymousPage, hzero, ptePresent]
    cases halloc : allocPage M g1 with
    | none => exact Or.inl ⟨rfl, rfl⟩
    | some r =>
      obtain ⟨p, g2⟩ := r
      right
      obtain ⟨h2, hspare⟩ := h1.alloc halloc
      obtain ⟨htaken, _⟩ := allocPage_taken halloc
      have hg2 := h1.grown_taken htaken
      have ht2 : HasTable M g2 m (k / 256) t := hg2.tables m _ t hm ht
      have hz2 : g2.mem t (k % 256) = 0 := by
        rw [h1.mem_taken htaken hm ht]
        exact hzero
      have hnew := entryMaps_new (M := M) hspare.valid hprot
      have h3 := h2.fillWord hm ht2 hjlt hspare hnew
      have hg3 := h2.grown_setWord hm ht2 hjlt hz2
        (setPte (pteMkwrite (pteMkdirty (mkPte p vma.vmPageProt))))
      rw [hk] at hg3
      refine ⟨rfl, h3, ((hgrown.trans hg2 (fun _ _ hx => hx)).trans hg3 (fun _ _ hx => hx.elim)),
        p, t, ht2.congr rfl, ?_⟩
      simpa [Pages.setWord] using hnew

end

end Paging

end Yap
