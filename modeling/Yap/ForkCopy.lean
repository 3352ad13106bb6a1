/-
# A fork copies the pages (`mm/memory.c`)

`Copying` is the invariant of the walk: the pages in `P` have been copied, and nothing of the
parent has changed.  `Sharing` is what is left of it after a page that could not be copied.
-/
import Yap.ForkWalk

namespace Yap

namespace Paging

open Mmap Ranges List

variable {α : Type} {x : Slot} {f k : ℕ} {qs : List ℕ}

/-! ## The pages that are copied -/

/-- Since `g₀` the pages of `m` in `P` have been copied to `m'`; in the sections in `S` the
other pages of `m'` are empty, and nothing of `m` has changed. -/
structure Copying (M : Machine α) (A : ℕ → Prop) (g₀ : Pages α) (m m' : ℕ) (S P : ℕ → Prop)
    (g : Pages α) : Prop where
  ok : PagesOk M A g
  dir : g.pgd m = g₀.pgd m
  frames : ∀ x f, Holds M (fun n => n = m) g₀ x f → g.mem f = g₀.mem f
  maps : ∀ k f, Maps M g m' k f → P k ∧ ∃ f₀, Maps M g₀ m k f₀ ∧ g.mem f = g₀.mem f₀
  has : ∀ k f₀, P k → Maps M g₀ m k f₀ → ∃ f, Maps M g m' k f
  tables : ∀ i, S i → g.pgd m' i = 0 ∨ ∃ t, HasTable M g m' i t
  blank : ∀ k, S (k / 256) → ¬ P k → Empty M g m' k
  fault : g.fault = false

section

variable {M : Machine α} {A : ℕ → Prop} {g₀ g g' : Pages α} {m m' i j t u p : ℕ}
  {S P X : ℕ → Prop} {e : BitVec 32}

/-- The tables and the pages of the parent are those of the start. -/
theorem holds_of_kept (hdir : g.pgd m = g₀.pgd m)
    (hframes : ∀ x f, Holds M (fun n => n = m) g₀ x f → g.mem f = g₀.mem f) :
    Holds M (fun n => n = m) g = Holds M (fun n => n = m) g₀ := by
  refine holds_congr (fun n hn => ?_) fun n i t hn ht j _ => ?_
  · rw [hn]
    exact hdir
  · rw [hframes (.table n i) t ⟨hn, ht⟩]

section

variable (h : Copying M A g₀ m m' S P g)

include h

theorem Copying.holds :
    Holds M (fun n => n = m) g = Holds M (fun n => n = m) g₀ := holds_of_kept h.dir h.frames

theorem Copying.holds_all (hm : A m)
    (hx : Holds M (fun n => n = m) g₀ x f) : Holds M A g x f := by
  rw [← h.holds] at hx
  cases x with
  | table n i => exact ⟨hx.1 ▸ hm, hx.2⟩
  | page n k => exact ⟨hx.1 ▸ hm, hx.2⟩

theorem Copying.maps_parent :
    Maps M g m k f ↔ Maps M g₀ m k f := by
  have hx := congrFun (congrFun h.holds (.page m k)) f
  simpa [Holds] using hx

/-- Pages that the parent does not have need no copy. -/
theorem Copying.skip (hnone : ∀ k, X k → ∀ f, ¬ Maps M g₀ m k f) :
    Copying M A g₀ m m' S (fun k => P k ∨ X k) g where
  ok := h.ok
  dir := h.dir
  frames := h.frames
  maps k f hf := ⟨Or.inl (h.maps k f hf).1, (h.maps k f hf).2⟩
  has := by
    rintro k f0 (hk | hk) hf
    · exact h.has k f0 hk hf
    · exact absurd hf (hnone k hk f0)
  tables := h.tables
  blank k hS hk := h.blank k hS (fun hP => hk (Or.inl hP))
  fault := h.fault

/-- A spare frame may get any contents. -/
theorem Copying.setSpare (hm : A m) (hm' : A m')
    (hok : PagesOk M A g') (hholds : Holds M A g' = Holds M A g) (hpgd : g'.pgd = g.pgd)
    (hmem : ∀ q, q ≠ p → g'.mem q = g.mem q) (hout : ∀ x, ¬ Holds M A g x p)
    (hfault : g'.fault = g.fault) : Copying M A g₀ m m' S P g' := by
  have hmaps : ∀ k f, Maps M g' m' k f ↔ Maps M g m' k f := by
    intro k f
    have hx := congrFun (congrFun hholds (.page m' k)) f
    simpa [Holds, hm'] using hx
  have hkeep : ∀ x f, Holds M A g x f → g'.mem f = g.mem f := by
    intro x f hx
    apply hmem
    rintro rfl
    exact hout x hx
  refine ⟨hok, by rw [hpgd]; exact h.dir, fun x f hx => ?_, fun k f hf => ?_, fun k f0 hk hf => ?_,
    fun i hS => ?_, fun k hS hk => ?_, hfault.trans h.fault⟩
  · rw [hkeep x f (h.holds_all hm hx)]
    exact h.frames x f hx
  · have hf' := (hmaps k f).mp hf
    rw [hkeep (.page m' k) f ⟨hm', hf'⟩]
    exact h.maps k f hf'
  · obtain ⟨f, hf'⟩ := h.has k f0 hk hf
    exact ⟨f, (hmaps k f).mpr hf'⟩
  · rw [hpgd]
    exact (h.tables i hS).imp id (Exists.imp fun _ ht => ht.congr (by rw [hpgd]))
  · rcases h.blank k hS hk with h0 | ⟨t, ht, hz⟩
    · left
      rw [hpgd]
      exact h0
    · right
      refine ⟨t, ht.congr (by rw [hpgd]), ?_⟩
      rw [hkeep (.table m' (k / 256)) t ⟨hm', ht⟩]
      exact hz

/-- A table of the child is no frame of the parent. -/
theorem Copying.ne_childTable (hm : A m) (hm' : A m') (hne : m' ≠ m)
    (hu : HasTable M g m' i u) (hx : Holds M (fun n => n = m) g₀ x f) : f ≠ u := by
  rintro rfl
  have heq : x = .table m' i := h.ok.held.unique (h.holds_all hm hx)
    (show Holds M A g (.table m' i) f from ⟨hm', hu⟩)
  rw [heq] at hx
  exact hne hx.1

end

theorem setWord_mem_of_ne (hf : f ≠ u) : (g.setWord u j e).mem f = g.mem f := by
  funext l
  exact if_neg (fun hl => hf hl.1)

/-- A spare frame is written. -/
theorem PagesOk.setFrame (h : PagesOk M A g) (hp : Spare M A g p) (c : ℕ → BitVec 32) :
    PagesOk M A (g.setFrame p c) ∧ Spare M A (g.setFrame p c) p ∧
      Holds M A (g.setFrame p c) = Holds M A g := by
  have hsame : Holds M A (g.setFrame p c) = Holds M A g := by
    refine holds_congr (fun _ _ => rfl) fun n i t hn ht j _ => ?_
    have hne : t ≠ p := by
      rintro rfl
      exact hp.out (.table n i) ⟨hn, ht⟩
    exact congrFun (if_neg hne) j
  refine ⟨h.shrink rfl (fun _ => rfl) fun x f hx => ?_, ⟨hp.not_free, ?_, hp.count, hp.valid,
    hp.unreserved⟩, hsame⟩
  · rw [hsame] at hx
    exact hx
  · rw [hsame]
    exact hp.out

/-- The entry of the child for the next page is written. -/
theorem Copying.write (h : Copying M A g₀ m m' S P g) (hm : A m) (hm' : A m') (hne : m' ≠ m)
    (hu : HasTable M g m' i u) (hj : j < 256) (hP : ¬ P (256 * i + j))
    (hok : PagesOk M A (g.setWord u j e))
    (hnew : ∀ f, EntryMaps M e f →
      f ≠ u ∧ ∃ f₀, Maps M g₀ m (256 * i + j) f₀ ∧ g.mem f = g₀.mem f₀)
    (hhas : ∀ f₀, Maps M g₀ m (256 * i + j) f₀ → ∃ f, EntryMaps M e f) :
    Copying M A g₀ m m' S (fun k => P k ∨ k = 256 * i + j) (g.setWord u j e) := by
  have hholds := fun x f => h.ok.holds_setWord hm' hu hj e (x := x) (q := f)
  refine ⟨hok, h.dir, fun x f hx => ?_, fun k f hf => ?_, fun k f₀ hk hf => ?_, fun l hS => ?_,
    fun k hS hk => ?_, h.fault⟩
  · rw [setWord_mem_of_ne (h.ne_childTable hm hm' hne hu hx)]
    exact h.frames x f hx
  · rcases (hholds (.page m' k) f).mp ⟨hm', hf⟩ with ⟨hk, he⟩ | ⟨hk, hf'⟩
    · obtain ⟨hfu, f₀, hf0, hmem⟩ := hnew f he
      rw [(Slot.page.inj hk).2, setWord_mem_of_ne hfu]
      exact ⟨Or.inr rfl, f₀, hf0, hmem⟩
    · obtain ⟨hPk, f₀, hf0, hmem⟩ := h.maps k f hf'.2
      refine ⟨Or.inl hPk, f₀, hf0, ?_⟩
      -- a page is not in the frame of the table
      have hfu : f ≠ u := by
        rintro rfl
        have heq := h.ok.held.unique hf' (show Holds M A g (.table m' i) f from ⟨hm', hu⟩)
        cases heq
      rw [setWord_mem_of_ne hfu]
      exact hmem
  · rcases hk with hk | rfl
    · obtain ⟨f, hf'⟩ := h.has k f₀ hk hf
      have hslot : Slot.page m' k ≠ .page m' (256 * i + j) := by
        intro heq
        rw [(Slot.page.inj heq).2] at hk
        exact hP hk
      exact ⟨f, ((hholds (.page m' k) f).mpr (Or.inr ⟨hslot, hm', hf'⟩)).2⟩
    · obtain ⟨f, he⟩ := hhas f₀ hf
      exact ⟨f, ((hholds (.page m' (256 * i + j)) f).mpr (Or.inl ⟨rfl, he⟩)).2⟩
  · exact (h.tables l hS).imp id (Exists.imp fun _ ht => ht.congr rfl)
  · push Not at hk
    rcases h.blank k hS hk.1 with h0 | ⟨t, ht, hz⟩
    · exact Or.inl h0
    · right
      refine ⟨t, ht.congr rfl, ?_⟩
      have hslot : Slot.page m' k ≠ .page m' (256 * i + j) := fun heq =>
        hk.2 (Slot.page.inj heq).2
      rw [h.ok.setWord_word hm' hu hm' ht hslot]
      exact hz

/-- The child gets a table for a section. -/
theorem Copying.newTable (h : Copying M A g₀ m m' S P g) (hm : A m) (hm' : A m') (hne : m' ≠ m)
    (hi : i < 4096) (h0 : g.pgd m' i = 0) :
    TableEnds M m' i (Copying M A g₀ m m' S P) (pteAlloc M g m' i) := by
  refine tableEnds_pteAlloc h0 fun p g₁ halloc => ?_
  obtain ⟨hok1, hspare⟩ := h.ok.alloc halloc
  obtain ⟨htaken, _⟩ := allocPage_taken halloc
  have hsame := h.ok.holds_taken htaken
  have h1 : Copying M A g₀ m m' S P g₁ := h.setSpare hm hm' hok1 hsame htaken.pgd htaken.mem
    (by rw [← hsame]; exact hspare.out) htaken.fault
  have hzero : ∀ j < 256, g₁.mem p j = 0 := fun j _ => htaken.zero j
  obtain ⟨hok2, hnew⟩ := hok1.newTable (m := m') hi hspare hzero
  have h0' : g₁.pgd m' i = 0 := by
    rw [htaken.pgd]
    exact h0
  have hgrown := grown_newTable (A := A) h0' hzero hnew
  refine ⟨hnew, hok2, ?_, h1.frames, fun k f hf => ?_, fun k f0 hk hf => ?_,
    fun l hS => ?_, fun k hS hk => hgrown.empty m' k hm' id (h1.blank k hS hk), h1.fault⟩
  · rw [← h1.dir]
    funext l
    exact setDir_pgd_of_ne _ (fun hl => hne hl.1.symm)
  · by_cases hk : k / 256 = i
    · -- the new table is empty
      obtain ⟨t, ht, he⟩ := hf
      rw [hk] at ht
      have hword : (g₁.setDir m' i (setPmd (pageAddress p))).mem p (k % 256) = 0 :=
        hzero _ (Nat.mod_lt _ (by decide))
      rw [ht.unique hnew, hword] at he
      exact absurd he not_entryMaps_zero
    · exact h1.maps k f ((maps_setDir_of_ne (fun hk' => hk hk'.2)).mp hf)
  · obtain ⟨f, hf'⟩ := h1.has k f0 hk hf
    exact ⟨f, hgrown.maps m' k f hm' hf'⟩
  · by_cases hl : l = i
    · right
      rw [hl]
      exact ⟨p, hnew⟩
    · have hpgd := setDir_pgd_of_ne (g := g₁) (setPmd (pageAddress p))
        (show ¬ (m' = m' ∧ l = i) from fun hh => hl hh.2)
      rw [hpgd]
      exact (h1.tables l hS).imp id (Exists.imp fun _ ht => ht.congr hpgd)

theorem maps_iff (ht : HasTable M g m i t) (hlt : j < 256) :
    Maps M g m (256 * i + j) f ↔ EntryMaps M (g.mem t j) f := by
  have hi : (256 * i + j) / 256 = i := by omega
  have hj : (256 * i + j) % 256 = j := by omega
  constructor
  · rintro ⟨t', ht', he⟩
    rw [hi] at ht'
    rw [ht'.unique ht, hj] at he
    exact he
  · intro he
    refine ⟨t, ?_, ?_⟩
    · rw [hi]
      exact ht
    · rw [hj]
      exact he

theorem maps_congr (hpgd : g'.pgd m = g.pgd m) (hmem : g'.mem = g.mem) :
    Maps M g' m k f ↔ Maps M g m k f := by
  unfold Maps
  rw [hmem]
  exact exists_congr fun t => and_congr_left' (hasTable_congr (by rw [hpgd]))

end

/-! ## A page that could not be copied -/

/-- The tables of `m` and of `m'`, and the pages of `m`. -/
def ParentHolds (M : Machine α) (g : Pages α) (m m' : ℕ) : Slot → ℕ → Prop
  | .table n i, t => (n = m ∨ n = m') ∧ HasTable M g n i t
  | .page n k, f => n = m ∧ Maps M g m k f

/-- Since `g₀` the pages of `m` in `P` have been done and one of them is shared with `m'`; nothing
of `m` has changed, apart from the counts of the frames that are shared. -/
structure Sharing (M : Machine α) (g₀ : Pages α) (m m' : ℕ) (S P : ℕ → Prop) (g : Pages α) :
    Prop where
  dir : g.pgd m = g₀.pgd m
  frames : ∀ x f, Holds M (fun n => n = m) g₀ x f → g.mem f = g₀.mem f
  held : M.pool.Held (ParentHolds M g m m') g.free
  free : ∀ p, M.pool.free g.free p → validPage M p
  unreserved : ∀ k f, Maps M g₀ m k f → M.reserved f = false
  count : ∀ k f, Maps M g₀ m k f → ¬ P k → g.count f = 1
  tables : ∀ i, S i → g.pgd m' i = 0 ∨ ∃ t, HasTable M g m' i t
  shared : ∃ k f, P k ∧ Maps M g₀ m k f ∧ Maps M g m' k f

section

variable {M : Machine α} {A : ℕ → Prop} {g₀ g g' : Pages α} {m m' i j t u p f : ℕ}
  {S P X : ℕ → Prop} {e : BitVec 32} {vma : VmArea} {address : BitVec 32}

section

variable (h : Sharing M g₀ m m' S P g)

include h

theorem Sharing.parentHolds (hx : Holds M (fun n => n = m) g₀ x f) : ParentHolds M g m m' x f := by
  rw [← holds_of_kept h.dir h.frames] at hx
  cases x with
  | table n i => exact ⟨Or.inl hx.1, hx.2⟩
  | page n k =>
    obtain ⟨rfl, hk⟩ := hx
    exact ⟨rfl, hk⟩

theorem Sharing.skip :
    Sharing M g₀ m m' S (fun k => P k ∨ X k) g where
  dir := h.dir
  frames := h.frames
  held := h.held
  free := h.free
  unreserved := h.unreserved
  count k f hf hk := h.count k f hf fun hP => hk (Or.inl hP)
  tables := h.tables
  shared := by
    obtain ⟨k, f, hk, hf⟩ := h.shared
    exact ⟨k, f, Or.inl hk, hf⟩

/-- A table of the child is no frame of the parent. -/
theorem Sharing.ne_childTable (hne : m' ≠ m)
    (hu : HasTable M g m' i u) (hx : Holds M (fun n => n = m) g₀ x f) : f ≠ u := by
  rintro rfl
  have heq : x = .table m' i :=
    h.held.unique (h.parentHolds hx) (show ParentHolds M g m m' (.table m' i) f from ⟨.inr rfl, hu⟩)
  rw [heq] at hx
  exact hne hx.1

/-- The entry of the child for the next page is written; frames that nobody holds may change. -/
theorem Sharing.write (hne : m' ≠ m) (hu : HasTable M g m' i u)
    (hP : ¬ P (256 * i + j)) (hpgd : g'.pgd = g.pgd)
    (hmem : ∀ x q, ParentHolds M g m m' x q → ∀ l, ¬ (q = u ∧ l = j) → g'.mem q l = g.mem q l)
    (hfree : ∀ q, M.pool.free g'.free q → M.pool.free g.free q)
    (hcount : ∀ k f, Maps M g₀ m k f → k ≠ 256 * i + j → g'.count f = g.count f) :
    Sharing M g₀ m m' S (fun k => P k ∨ k = 256 * i + j) g' := by
  have htable : ∀ n l v, HasTable M g' n l v ↔ HasTable M g n l v :=
    fun n l v => hasTable_congr (by rw [hpgd])
  have hframes : ∀ x f, Holds M (fun n => n = m) g₀ x f → g'.mem f = g₀.mem f := by
    intro x f hx
    rw [← h.frames x f hx]
    funext l
    exact hmem x f (h.parentHolds hx) l fun hl => h.ne_childTable hne hu hx hl.1
  have hdir : g'.pgd m = g₀.pgd m := by
    rw [hpgd]
    exact h.dir
  refine ⟨hdir, hframes, h.held.mono (fun x q hx => ?_) hfree, fun q hq => h.free q (hfree q hq),
    h.unreserved, fun k f hf hk => ?_, fun l hS => ?_, ?_⟩
  · cases x with
    | table n l => exact ⟨hx.1, (htable n l q).mp hx.2⟩
    | page n k =>
      have hx' : Holds M (fun n => n = m) g' (.page n k) q := ⟨hx.1, hx.1 ▸ hx.2⟩
      rw [holds_of_kept hdir hframes] at hx'
      exact h.parentHolds hx'
  · push Not at hk
    rw [hcount k f hf hk.2]
    exact h.count k f hf hk.1
  · rw [hpgd]
    exact (h.tables l hS).imp id (Exists.imp fun v hv => (htable m' l v).mpr hv)
  · obtain ⟨k, f, hk, hf, v, hv, he⟩ := h.shared
    refine ⟨k, f, Or.inl hk, hf, v, (htable m' _ v).mpr hv, ?_⟩
    rw [hmem (.table m' (k / 256)) v ⟨Or.inr rfl, hv⟩]
    · exact he
    · rintro ⟨rfl, hl⟩
      have hslot : Slot.table m' (k / 256) = .table m' i :=
        h.held.unique (show ParentHolds M g m m' _ v from ⟨Or.inr rfl, hv⟩)
          (show ParentHolds M g m m' _ v from ⟨Or.inr rfl, hu⟩)
      have hsec := (Slot.table.inj hslot).2
      apply hP
      rw [show 256 * i + j = k by omega]
      exact hk

/-- The child gets a table for a section. -/
theorem Sharing.newTable (hne : m' ≠ m) (hi : i < 4096) (h0 : g.pgd m' i = 0) :
    TableEnds M m' i (Sharing M g₀ m m' S P) (pteAlloc M g m' i) := by
  refine tableEnds_pteAlloc h0 fun p g₁ halloc => ?_
  obtain ⟨htaken, _, hpool⟩ := allocPage_taken halloc
  obtain ⟨hheld, hnot, hout⟩ := h.held.alloc hpool
  have hnew : HasTable M (g₁.setDir m' i (setPmd (pageAddress p))) m' i p :=
    hasTable_setDir hi (h.free p htaken.was_free)
  refine ⟨hnew, ?_⟩
  have hpgd : ∀ n l, ¬ (n = m' ∧ l = i) →
      (g₁.setDir m' i (setPmd (pageAddress p))).pgd n l = g.pgd n l := by
    intro n l hnl
    rw [setDir_pgd_of_ne _ hnl, htaken.pgd]
  have hdir : (g₁.setDir m' i (setPmd (pageAddress p))).pgd m = g₀.pgd m := by
    rw [← h.dir]
    funext l
    exact hpgd m l fun hl => hne hl.1.symm
  have hmem : ∀ x q, ParentHolds M g m m' x q → g₁.mem q = g.mem q := by
    intro x q hx
    apply htaken.mem
    rintro rfl
    exact hout x hx
  have hframes : ∀ x f, Holds M (fun n => n = m) g₀ x f → g₁.mem f = g₀.mem f := by
    intro x f hx
    rw [hmem x f (h.parentHolds hx), h.frames x f hx]
  refine ⟨hdir, hframes, hheld.put hnot hout (x := .table m' i) fun x q hx => ?_, fun q hq => ?_,
    h.unreserved, fun k f hf hk => ?_, fun l hS => ?_, ?_⟩
  · cases x with
    | table n l =>
      by_cases hnl : n = m' ∧ l = i
      · obtain ⟨rfl, rfl⟩ := hnl
        exact Or.inr ⟨rfl, hx.2.unique hnew⟩
      · exact Or.inl ⟨hx.1, (hasTable_congr (hpgd n l hnl)).mp hx.2⟩
    | page n k =>
      have hx' : Holds M (fun n => n = m) (g₁.setDir m' i (setPmd (pageAddress p))) (.page n k) q :=
        ⟨hx.1, hx.1 ▸ hx.2⟩
      rw [holds_of_kept hdir hframes] at hx'
      exact Or.inl (h.parentHolds hx')
  · exact h.free q ((M.pool.free_after_alloc hpool q).mp hq).1
  · have hfp : f ≠ p := by
      rintro rfl
      exact hout (.page m k) (h.parentHolds (x := .page m k) ⟨rfl, hf⟩)
    exact (htaken.count f hfp).trans (h.count k f hf hk)
  · by_cases hl : l = i
    · right
      rw [hl]
      exact ⟨p, hnew⟩
    · rw [hpgd m' l fun hh => hl hh.2]
      exact (h.tables l hS).imp id
        (Exists.imp fun v hv => hv.congr (hpgd m' l fun hh => hl hh.2))
  · obtain ⟨k, f, hk, hf, v, hv, he⟩ := h.shared
    have hl : k / 256 ≠ i := by
      intro hki
      rw [hki] at hv
      exact hv.ne_zero h0
    refine ⟨k, f, hk, hf, v, hv.congr (hpgd m' _ fun hh => hl hh.2), ?_⟩
    have hword : (g₁.setDir m' i (setPmd (pageAddress p))).mem v = g.mem v :=
      hmem (.table m' (k / 256)) v ⟨Or.inr rfl, hv⟩
    rw [hword]
    exact he

/-- **One round of the loop over a table** after a page could not be copied. -/
theorem Sharing.page (hne : m' ≠ m) (ht : HasTable M g₀ m i t)
    (hu : HasTable M g m' i u) (hi : (pgdIndex address).toNat = i) (hj : pteIndex address = j)
    (hlt : j < 256) (hP : ¬ P (256 * i + j)) (hstored : Stored (g₀.mem t j))
    (hcow : PrivateArea vma) :
    HasTable M (copyOnePte M g m' vma address t u j) m' i u ∧
      Sharing M g₀ m m' S (fun k => P k ∨ k = 256 * i + j)
        (copyOnePte M g m' vma address t u j) := by
  have hword : g.mem t j = g₀.mem t j := by rw [h.frames (.table m i) t ⟨rfl, ht⟩]
  have hset : ∀ x q, ParentHolds M g m m' x q → ∀ e l, ¬ (q = u ∧ l = j) →
      (g.setWord u j e).mem q l = g.mem q l := fun _ _ _ _ _ hl => if_neg hl
  rcases copyOnePte_cases hword hstored with ⟨h0, hsame⟩ | ⟨hinv, hsame⟩ | ⟨hself, hentry⟩
  · rw [hsame]
    exact ⟨hu, h.skip⟩
  · rw [hsame]
    exact ⟨hu.congr rfl, h.write hne hu hP rfl (fun x q hx => hset x q hx _) (fun _ hq => hq)
      fun _ _ _ _ => rfl⟩
  · have hx : Holds M (fun n => n = m) g₀ (.page m (256 * i + j)) (pfn (g₀.mem t j)) :=
      ⟨rfl, (maps_iff ht hlt).mpr hentry⟩
    have hheld := h.parentHolds hx
    have hpu : ParentHolds M g m m' (.table m' i) u := ⟨Or.inr rfl, hu⟩
    rcases copyOnePte_copy hword hself hentry (h.count _ _ hx.2 hP) (h.unreserved _ _ hx.2)
        hcow.cow hu hi hj (h.ne_childTable hne hu hx) (fun p hp =>
          ⟨fun heq => h.held.not_free hpu (heq ▸ hp),
            fun heq => h.held.not_free hheld (heq ▸ hp)⟩) with hsame | ⟨p, g₁, halloc, hsame⟩
    · rw [hsame]
      refine ⟨hu.congr rfl, h.write hne hu hP rfl (fun _ _ _ l hl => if_neg hl)
        (fun _ hq => hq) fun k f hf hk => if_neg ?_⟩
      -- two pages of the parent are in two frames
      rintro rfl
      have hslot := h.held.unique (h.parentHolds (x := .page m k) ⟨rfl, hf⟩) hheld
      exact hk (Slot.page.inj hslot).2
    · rw [hsame]
      obtain ⟨htaken, _, hpool⟩ := allocPage_taken halloc
      obtain ⟨_, _, hout⟩ := h.held.alloc hpool
      refine ⟨hu.congr (congrFun (congrFun htaken.pgd m') i), h.write hne hu hP htaken.pgd
        (fun x q hq l hl => ?_) (fun q hq => ((M.pool.free_after_alloc hpool q).mp hq).1)
        fun k f hf _ => htaken.count f ?_⟩
      · have hqp : q ≠ p := by
          rintro rfl
          exact hout x hq
        refine (if_neg hl).trans ?_
        exact congrFun ((if_neg hqp).trans (htaken.mem q hqp)) l
      · rintro rfl
        exact hout _ (h.parentHolds (x := .page m k) ⟨rfl, hf⟩)

end

/-- The page could not be copied. -/
theorem Copying.share (h : Copying M A g₀ m m' S P g) (hm : A m) (hm' : A m') (hne : m' ≠ m)
    (hu : HasTable M g m' i u) (hlt : j < 256) (hentry : EntryMaps M e f)
    (hf : Maps M g₀ m (256 * i + j) f) :
    Sharing M g₀ m m' S (fun k => P k ∨ k = 256 * i + j)
      { g.shared f u j e with failed := true } := by
  have hframes : ∀ x q, Holds M (fun n => n = m) g₀ x q →
      (g.setWord u j e).mem q = g₀.mem q := by
    intro x q hx
    rw [setWord_mem_of_ne (h.ne_childTable hm hm' hne hu hx)]
    exact h.frames x q hx
  have hmaps : ∀ n k q, Maps M
      { g.shared f u j e with failed := true } n k q ↔
        Maps M (g.setWord u j e) n k q := by
    intro n k q
    apply maps_congr
    · rfl
    · rfl
  refine ⟨h.dir, hframes, h.ok.held.mono (fun x q hx => ?_) (fun _ hq => hq),
    fun q hq => (h.ok.free hq).1, fun k q hq => ?_, fun k q hq hk => ?_,
    fun l hS => (h.tables l hS).imp id (Exists.imp fun _ ht => ht.congr rfl), ?_⟩
  · cases x with
    | table n l =>
      refine ⟨?_, hx.2.congr rfl⟩
      rcases hx.1 with rfl | rfl
      · exact hm
      · exact hm'
    | page n k =>
      obtain ⟨rfl, hk⟩ := hx
      have hx' : Holds M (fun l => l = n) (g.setWord u j e) (.page n k) q :=
        ⟨rfl, (hmaps n k q).mp hk⟩
      rw [holds_of_kept (show (g.setWord u j e).pgd n = g₀.pgd n from h.dir) hframes] at hx'
      exact h.holds_all hm hx'
  · exact (h.ok.used (h.holds_all hm (x := .page m k) ⟨rfl, hq⟩)).2
  · have hqf : q ≠ f := by
      rintro rfl
      have hslot := h.ok.held.unique (h.holds_all hm (x := .page m k) ⟨rfl, hq⟩)
        (h.holds_all hm (x := .page m (256 * i + j)) ⟨rfl, hf⟩)
      exact hk (Or.inr (Slot.page.inj hslot).2)
    refine (if_neg hqf).trans ?_
    exact (h.ok.used (h.holds_all hm (x := .page m k) ⟨rfl, hq⟩)).1
  · have hu' : HasTable M (g.setWord u j e) m' i u := hu.congr rfl
    have hword : (g.setWord u j e).mem u j = e := if_pos ⟨rfl, rfl⟩
    have hchild : Maps M (g.setWord u j e) m' (256 * i + j) f := by
      rw [maps_iff hu' hlt, hword]
      exact hentry
    exact ⟨256 * i + j, f, Or.inr rfl, hf, (hmaps _ _ _).mpr hchild⟩

/-- **One round of the loop over a table**: the page is copied, or stays shared. -/
theorem Copying.page (h : Copying M A g₀ m m' S P g) (hm : A m) (hm' : A m') (hne : m' ≠ m)
    (ht : HasTable M g₀ m i t) (hu : HasTable M g m' i u)
    (hi : (pgdIndex address).toNat = i) (hj : pteIndex address = j) (hlt : j < 256)
    (hP : ¬ P (256 * i + j)) (hstored : Stored (g₀.mem t j)) (hcow : PrivateArea vma) :
    HasTable M (copyOnePte M g m' vma address t u j) m' i u ∧
      ((copyOnePte M g m' vma address t u j).failed = g.failed ∧
          Copying M A g₀ m m' S (fun k => P k ∨ k = 256 * i + j)
            (copyOnePte M g m' vma address t u j) ∨
        (copyOnePte M g m' vma address t u j).failed = true ∧
          Sharing M g₀ m m' S (fun k => P k ∨ k = 256 * i + j)
            (copyOnePte M g m' vma address t u j)) := by
  have hword : g.mem t j = g₀.mem t j := by rw [h.frames (.table m i) t ⟨rfl, ht⟩]
  rcases copyOnePte_cases hword hstored with ⟨h0, hsame⟩ | ⟨hnone, hsame⟩ | ⟨hself, hentry⟩
  · -- the parent has no page
    rw [hsame]
    refine ⟨hu, Or.inl ⟨rfl, h.skip fun k hk f hf => ?_⟩⟩
    rw [hk, maps_iff ht hlt, h0] at hf
    exact not_entryMaps_zero hf
  · -- an entry without a frame is copied as it is
    rw [hsame]
    refine ⟨hu.congr rfl, Or.inl ⟨rfl, h.write hm hm' hne hu hlt hP
      (h.ok.clearWord hm' hu hlt hnone).1 (fun f hf => absurd hf (hnone f)) fun f0 hf => ?_⟩⟩
    exact absurd ((maps_iff ht hlt).mp hf) (hnone f0)
  · -- the parent has a page: the child gets a copy
    have hx0 : Holds M (fun n => n = m) g₀ (.page m (256 * i + j)) (pfn (g₀.mem t j)) :=
      ⟨rfl, (maps_iff ht hlt).mpr hentry⟩
    have hx := h.holds_all hm hx0
    have hxu : Holds M A g (.table m' i) u := ⟨hm', hu⟩
    obtain ⟨hcount, hres⟩ := h.ok.used hx
    rcases copyOnePte_copy hword hself hentry hcount hres hcow.cow hu hi hj
        (h.ne_childTable hm hm' hne hu hx0) (fun p hp =>
          ⟨fun heq => h.ok.held.not_free hxu (heq ▸ hp),
            fun heq => h.ok.held.not_free hx (heq ▸ hp)⟩) with hsame | ⟨p, g₁, halloc, heq⟩
    · rw [hsame]
      exact ⟨hu.congr rfl, Or.inr ⟨rfl, h.share hm hm' hne hu hlt hentry hx0.2⟩⟩
    · rw [heq]
      obtain ⟨hok1, hspare⟩ := h.ok.alloc halloc
      obtain ⟨htaken, _⟩ := allocPage_taken halloc
      obtain ⟨hok2, hspare2, hholds2⟩ := hok1.setFrame hspare (g.mem (pfn (g₀.mem t j)))
      have hholds := hholds2.trans (h.ok.holds_taken htaken)
      have h2 : Copying M A g₀ m m' S P (g₁.setFrame p (g.mem (pfn (g₀.mem t j)))) := by
        refine h.setSpare hm hm' hok2 hholds htaken.pgd (p := p) (fun q hq => ?_) ?_ htaken.fault
        · exact (if_neg hq).trans (htaken.mem q hq)
        · rw [← hholds]
          exact hspare2.out
      have hu2 : HasTable M (g₁.setFrame p (g.mem (pfn (g₀.mem t j)))) m' i u :=
        hu.congr (congrFun (congrFun htaken.pgd m') i)
      have hnew := entryMaps_new (M := M) hspare2.valid hcow.prot
      refine ⟨hu2.congr rfl, Or.inl ⟨htaken.failed, h2.write hm hm' hne hu2 hlt hP
        (hok2.fillWord hm' hu2 hlt hspare2 hnew) (fun f hf => ?_) fun f0 _ => ⟨p, hnew⟩⟩⟩
      rw [hf.unique hnew]
      refine ⟨?_, pfn (g₀.mem t j), hx0.2, ?_⟩
      · rintro rfl
        exact hspare2.out (.table m' i) ⟨hm', hu2⟩
      · exact (if_pos rfl).trans (h.frames _ _ hx0)

/-- **The invariant of the walk**: all pages so far have been copied and no allocation has failed,
or there was no frame for one of them, which is shared. -/
def Walking (M : Machine α) (A : ℕ → Prop) (g₀ : Pages α) (m m' : ℕ) (S P : ℕ → Prop)
    (g : Pages α) : Prop :=
  g.failed = g₀.failed ∧ Copying M A g₀ m m' S P g ∨
    g.failed = true ∧ Sharing M g₀ m m' S P g

theorem walkInv_walking (hm : A m) (hm' : A m') (hne : m' ≠ m) :
    WalkInv M g₀ m m' S (Walking M A g₀ m m' S) where
  dir h := h.elim (fun h => h.2.dir) fun h => h.2.dir
  skip h hnone := h.imp (fun h => ⟨h.1, h.2.skip hnone⟩) fun h => ⟨h.1, h.2.skip⟩
  tables h hS := h.elim (fun h => h.2.tables _ hS) fun h => h.2.tables _ hS
  newTable := by
    rintro P g i (⟨hok, h⟩ | ⟨hfail, h⟩) hi h0
    · refine (h.newTable hm hm' hne hi h0).imp id fun ⟨ht, h'⟩ => ⟨ht, Or.inl ⟨?_, h'⟩⟩
      obtain ⟨t, hsome, _⟩ := ht
      rw [pteAlloc_failed hsome, hok]
    · exact (h.newTable hne hi h0).imp id fun ⟨ht, h'⟩ =>
        ⟨ht, Or.inr ⟨(sticky_pteAlloc M g m' i).failed hfail, h'⟩⟩
  page := by
    rintro P g vma address i j t u (⟨hok, h⟩ | ⟨hfail, h⟩) ht hu hi hj hlt hP hstored hcow
    · obtain ⟨hu', h'⟩ := h.page hm hm' hne ht hu hi hj hlt hP hstored hcow
      exact ⟨hu', h'.imp (fun h' => ⟨h'.1.trans hok, h'.2⟩) id⟩
    · obtain ⟨hu', h'⟩ := h.page hne ht hu hi hj hlt hP hstored hcow
      exact ⟨hu', Or.inr ⟨(sticky_copyOnePte M g m' vma address t u j).failed hfail, h'⟩⟩

end

/-! ## All areas -/

/-- The area of the child, before its pages are copied. -/
def childArea (m' : ℕ) (a : VmArea) : VmArea :=
  { a with vmFlags := a.vmFlags &&& ~~~vmLocked, vmMm := m' }

/-- The calls of `copy_page_range` in the loop of `dup_mmap`. -/
def copyAreas {σ : Type} (ops : PageOps σ) (m' m : ℕ) : σ → List VmArea → σ × ℤ
  | g, [] => (g, 0)
  | g, a :: as =>
    let r := ops.copyPageRange g m' m a
    if r.2 ≠ 0 then r else copyAreas ops m' m r.1 as

/-- When every allocation of an area succeeds, `dup_mmap` copies the pages of all areas. -/
theorem dupMmapLoop_pages {σ : Type} (ops : PageOps σ) {m' m : ℕ} {ps : List ℕ} {s : State σ}
    (hcopy : ∀ p ∈ ps, (s.area p).vmFlags &&& vmDontcopy = 0) (hlen : ps.length ≤ qs.length)
    (hfresh : ∀ q ∈ qs, q ∉ ps) :
    (dupMmapLoop ops m' m s ps (qs.map some)).1.pages =
        (copyAreas ops m' m s.pages (ps.map fun p => childArea m' (s.area p))).1 ∧
      (dupMmapLoop ops m' m s ps (qs.map some)).2 =
        (copyAreas ops m' m s.pages (ps.map fun p => childArea m' (s.area p))).2 := by
  induction ps generalizing s qs with
  | nil => exact ⟨rfl, rfl⟩
  | cons p ps ih =>
    cases qs with
    | nil => simp at hlen
    | cons q qs =>
      have hp := hcopy p mem_cons_self
      simp only [map_cons, copyAreas]
      rw [dupMmapLoop, if_neg (not_not.mpr hp)]
      -- the copy of `p` is made at `q`, which is none of the areas to come
      have harea : ∀ r ∈ ps, (dupArea ops s m' m p q).1.area r = s.area r := by
        intro r hr
        refine setArea_area_of_ne _ _ _ _ ?_
        rintro rfl
        exact hfresh r mem_cons_self (mem_cons_of_mem _ hr)
      have hpages : (dupArea ops s m' m p q).1.pages =
          (ops.copyPageRange s.pages m' m (childArea m' (s.area p))).1 := rfl
      have hret : (dupArea ops s m' m p q).2 =
          (ops.copyPageRange s.pages m' m (childArea m' (s.area p))).2 := rfl
      simp only
      rw [hret]
      split_ifs with hr
      · exact ⟨hpages, hret⟩
      · have hrest := ih (s := (dupArea ops s m' m p q).1)
          (fun r hr => by rw [harea r hr]; exact hcopy r (mem_cons_of_mem _ hr))
          (show ps.length ≤ qs.length by simpa using hlen)
          (fun r hr hr' => hfresh r (mem_cons_of_mem _ hr) (mem_cons_of_mem _ hr'))
        have hmap : (ps.map fun r => childArea m' ((dupArea ops s m' m p q).1.area r)) =
            ps.map fun r => childArea m' (s.area r) := by
          refine map_congr_left fun r hr => ?_
          rw [harea r hr]
        rw [hmap, hpages] at hrest
        exact hrest

section

variable {M : Machine α} {g₀ g : Pages α} {m m' : ℕ} {S P : ℕ → Prop}

theorem sticky_copyAreas (M : Machine α) (m' m : ℕ) (g : Pages α) (as : List VmArea) :
    Sticky g (copyAreas (pageOps M) m' m g as).1 := by
  induction as generalizing g with
  | nil => exact Sticky.refl g
  | cons a as ih =>
    have hs : Sticky g ((pageOps M).copyPageRange g m' m a).1 := sticky_copySections M m' m a _ _ g
    simp only [copyAreas]
    split_ifs
    · exact hs
    · exact hs.trans (ih _)

/-- Where an area begins. -/
def startOf (a : VmArea) : ℕ := a.vmStart.toNat

/-- Where an area ends. -/
def endOf (a : VmArea) : ℕ := a.vmEnd.toNat

/-- **The loop of `dup_mmap`**, by induction on the areas: all pages of the areas are done, unless
there is no frame for a table or the walk over one of the areas goes astray. -/
theorem WalkInv.areas {I : (ℕ → Prop) → Pages α → Prop} (hI : WalkInv M g₀ m m' S I) (h : I P g)
    {as : List VmArea} (hord : Ordered startOf endOf as)
    (hcow : ∀ a ∈ as, PrivateArea a)
    (haligned : ∀ a ∈ as, 4096 ∣ startOf a ∧ 4096 ∣ endOf a)
    (hP : ∀ a ∈ as, ∀ k, startOf a / 4096 ≤ k → k < endOf a / 4096 → ¬ P k)
    (hsection : ∀ a ∈ as, ∀ x, startOf a ≤ x → x < endOf a → S (x / 2 ^ 20) ∧
      (g₀.pgd m (x / 2 ^ 20) = 0 ∨ g₀.pgd m (x / 2 ^ 20) = setPmd 0 ∨
        ∃ t, HasTable M g₀ m (x / 2 ^ 20) t))
    (hstored : ∀ a ∈ as, ∀ k t, startOf a / 4096 ≤ k → k < endOf a / 4096 →
      HasTable M g₀ m (k / 256) t → Stored (g₀.mem t (k % 256))) :
    WalkEnds (∃ a ∈ as, Strays g₀ m a)
      (I fun k => P k ∨ ∃ a ∈ as, startOf a / 4096 ≤ k ∧ k < endOf a / 4096)
      (copyAreas (pageOps M) m' m g as) := by
  induction as generalizing g P with
  | nil => exact Or.inr (Or.inr ⟨by simp, rfl, congr h (by simp)⟩)
  | cons a as ih =>
    obtain ⟨hlt, hbefore, hord'⟩ := ordered_cons.mp hord
    have ha : a ∈ a :: as := mem_cons_self
    have hmem : ∀ b ∈ as, b ∈ a :: as := fun b hb => mem_cons_of_mem _ hb
    have hindex := toNat_pgdIndex a.vmStart
    have hone := hI.sections h (hcow a ha) (haligned a ha).2 (haligned a ha).1 hlt (hP a ha)
      (show a.vmStart.toNat / 2 ^ 20 + (4096 - (pgdIndex a.vmStart).toNat) = 4096 by omega)
      (hsection a ha) (hstored a ha)
    have hrange : (pageOps M).copyPageRange g m' m a =
        copySections M m' m a (4096 - (pgdIndex a.vmStart).toNat) a.vmStart g := rfl
    simp only [copyAreas, hrange]
    generalize copySections M m' m a (4096 - (pgdIndex a.vmStart).toNat) a.vmStart g = r at hone
    obtain ⟨g1, ret⟩ := r
    rcases hone with ⟨hret, hfail⟩ | ⟨hleave, hfault⟩ | ⟨hstay, hret, h1⟩
    · left
      rw [if_pos hret]
      exact ⟨hret, hfail⟩
    · right
      left
      refine ⟨⟨a, ha, hleave⟩, ?_⟩
      split_ifs
      · exact hfault
      · exact (sticky_copyAreas M m' m g1 as).fault hfault
    · simp only at hret
      rw [if_neg (not_not.mpr hret)]
      have hrest := ih h1 hord' (fun b hb => hcow b (hmem b hb))
        (fun b hb => haligned b (hmem b hb)) (fun b hb k hk1 hk2 => by
          rintro (hk | hk)
          · exact hP b (hmem b hb) k hk1 hk2 hk
          · have := hbefore b hb
            unfold startOf endOf at *
            omega)
        (fun b hb => hsection b (hmem b hb)) (fun b hb => hstored b (hmem b hb))
      rcases hrest with hfail | ⟨⟨b, hb, hleave⟩, hfault⟩ | ⟨hstay', hret', h2⟩
      · exact Or.inl hfail
      · exact Or.inr (Or.inl ⟨⟨b, hmem b hb, hleave⟩, hfault⟩)
      · right
        right
        refine ⟨?_, hret', congr h2 fun k => ?_⟩
        · rintro ⟨b, hb, hleave⟩
          rcases mem_cons.mp hb with rfl | hb
          · exact hstay hleave
          · exact hstay' ⟨b, hb, hleave⟩
        · rw [or_assoc]
          apply or_congr_right
          constructor
          · rintro (hk | ⟨b, hb, hk⟩)
            · exact ⟨a, ha, hk⟩
            · exact ⟨b, hmem b hb, hk⟩
          · rintro ⟨b, hb, hk⟩
            rcases mem_cons.mp hb with rfl | hb
            · exact Or.inl hk
            · exact Or.inr ⟨b, hb, hk⟩

end

end Paging

end Yap
