/-
# History independence of the buddy allocator (`mm/page_alloc.c`)

`__free_pages_ok` merges a block with its buddy whenever both are free, so that no two free
buddies below the top order are ever listed, and `rmqueue` splits a block into orders whose
lists are empty.  Hence the free lists are determined by the set of free pages: they hold its
maximal aligned blocks, whatever calls have led there.  The free pages in turn are the pages
of the zone that no client holds.
-/
import Yap.BuddyInvariant

namespace Yap

namespace Buddy

open Blk List

/-- The pages `pages k` are the first pages of the blocks on `free_area[k].free_list`. -/
def FreeLists (s : State) (pages : ℕ → List ℕ) : Prop :=
  ∀ k < maxOrder, s.links.IsRing (.freeList k) ((pages k).map .page)

/-- The page `x` is in a listed block. -/
def FreePage (pages : ℕ → List ℕ) (x : ℕ) : Prop :=
  ∃ k < maxOrder, ∃ y ∈ pages k, y ≤ x ∧ x < y + 2 ^ k

/-- The page `x` is in a block that a client holds. -/
def HeldPage (s : Sys) (x : ℕ) : Prop := ∃ b ∈ s.out, b.1 ≤ x ∧ x < b.1 + 2 ^ b.2

/-- The first page of the block of order `k` around `y`, in a zone that begins at `offset`. -/
def alignDown (offset k y : ℕ) : ℕ := offset + (y - offset) / 2 ^ k * 2 ^ k

/-- `y` is the first page of an aligned block of order `k` all of whose pages have `F`, and
which is not half of such a block. -/
structure MaximalBlock (offset : ℕ) (F : ℕ → Prop) (k y : ℕ) : Prop where
  inside : offset ≤ y
  aligned : 2 ^ k ∣ y - offset
  free : ∀ x, y ≤ x → x < y + 2 ^ k → F x
  maximal : k + 1 < maxOrder →
    ∃ x, alignDown offset (k + 1) y ≤ x ∧ x < alignDown offset (k + 1) y + 2 ^ (k + 1) ∧ ¬ F x

section

variable {c : ZoneConfig} {s : Sys} {L : ℕ → List ℕ} {held : List Blk} {pages : ℕ → List ℕ}

/-- The free lists of a zone are the ghost lists of its invariant. -/
theorem Inv.pages_eq (h : Inv c s L held) (hp : FreeLists s.st pages) {k : ℕ}
    (hk : k < maxOrder) : pages k = pagesOf c.offset L k := by
  have hring := h.zoneInvariant.lists k hk
  have heq := (hp k hk).unique hring
  exact map_injective_iff.mpr (fun _ _ he => Node.page.inj he) heq

theorem Inv.freePage_iff (h : Inv c s L held) (hp : FreeLists s.st pages) {x : ℕ} :
    FreePage pages x ↔ c.offset ≤ x ∧ Filed L maxOrder (x - c.offset) := by
  constructor
  · rintro ⟨k, hk, y, hy, h1, h2⟩
    rw [h.pages_eq hp hk] at hy
    obtain ⟨q, hq, rfl⟩ := List.mem_map.mp hy
    refine ⟨by omega, (q, k), mem_filed.mpr ⟨hk, hq⟩, by omega, ?_⟩
    rw [hi_eq]
    simp only
    omega
  · rintro ⟨hle, ⟨q, k⟩, hb, h1, h2⟩
    obtain ⟨hk, hq⟩ := mem_filed.mp hb
    rw [hi_eq] at h2
    simp only at h2
    refine ⟨k, hk, c.offset + lo (q, k), ?_, by omega, by omega⟩
    rw [h.pages_eq hp hk]
    exact List.mem_map.mpr ⟨q, hq, rfl⟩

/-- **A page is free if and only if it is a page of the zone that no client holds.** -/
theorem Inv.freePage_iff_not_held (h : Inv c s L held)
    (ht : total (filed L maxOrder) + total held = c.size) (hp : FreeLists s.st pages) {x : ℕ} :
    FreePage pages x ↔ (c.offset ≤ x ∧ x < c.offset + c.size) ∧ ¬ HeldPage s x := by
  have hheld : c.offset ≤ x → (HeldPage s x ↔ ∃ b ∈ held, Has b (x - c.offset)) := by
    intro hx
    constructor
    · rintro ⟨b, hb, h1, h2⟩
      obtain ⟨a, ha, rfl⟩ := List.mem_map.mp (h.out.mem_iff.mp hb)
      refine ⟨a, ha, by omega, ?_⟩
      rw [hi_eq]
      simp only at h2
      omega
    · rintro ⟨a, ha, h1, h2⟩
      rw [hi_eq] at h2
      refine ⟨_, h.out.mem_iff.mpr (List.mem_map_of_mem ha), ?_, ?_⟩
      · simp only
        omega
      · simp only
        omega
  have hinside : ∀ b ∈ filed L maxOrder ++ held, hi b ≤ c.size := by
    intro b hb
    rw [← h.size]
    exact (h.core.inside b hb).2
  have htotal : total (filed L maxOrder ++ held) = c.size := by rw [total_append, ht]
  rw [h.freePage_iff hp]
  constructor
  · rintro ⟨hx, b, hb, hhas⟩
    have hle := hinside b (mem_append_left _ hb)
    refine ⟨⟨hx, ?_⟩, fun hh => ?_⟩
    · have := hhas.2
      omega
    · -- a listed and a held block are apart
      obtain ⟨a, ha, h3, h4⟩ := (hheld hx).mp hh
      obtain ⟨h1, h2⟩ := hhas
      rcases (pairwise_append.mp h.core.apart).2.2 b hb a ha with hap | hap <;> omega
  · rintro ⟨⟨hx, hlt⟩, hno⟩
    obtain ⟨b, hb, hhas⟩ := exists_has_of_total_eq h.core.apart hinside htotal
      (show x - c.offset < c.size by omega)
    rcases mem_append.mp hb with hb | hb
    · exact ⟨hx, b, hb, hhas⟩
    · exact absurd ((hheld hx).mpr ⟨b, hb, hhas⟩) hno

/-- The blocks of the zone, seen from its first page. -/
theorem maximalBlock_iff {offset q k : ℕ} {F : ℕ → Prop} (hk : k < maxOrder) :
    MaximalBlock offset F k (offset + q * 2 ^ k) ↔
      Maximal (fun z => F (offset + z)) maxOrder (q, k) := by
  have hhalf : q * 2 ^ k / 2 ^ (k + 1) = q / 2 := by
    rw [pow_succ, ← Nat.div_div_eq_div_mul, Nat.mul_div_cancel _ (Nat.two_pow_pos k)]
  have hparent : alignDown offset (k + 1) (offset + q * 2 ^ k) = offset + lo (q / 2, k + 1) := by
    rw [alignDown, Nat.add_sub_cancel_left, hhalf, lo]
  have hwithin : ∀ b : Blk, Within (fun z => F (offset + z)) b ↔
      ∀ x, offset + lo b ≤ x → x < offset + lo b + 2 ^ b.2 → F x := by
    intro b
    have hhi := hi_eq b
    constructor
    · intro hw x h1 h2
      have hFx : F (offset + (x - offset)) := hw (x - offset) ⟨by omega, by omega⟩
      rwa [Nat.add_sub_cancel' (by omega)] at hFx
    · rintro hF z ⟨h1, h2⟩
      exact hF (offset + z) (by omega) (by omega)
  constructor
  · rintro ⟨_, _, hfree, hmax⟩
    refine ⟨hk, (hwithin (q, k)).mpr hfree, fun hk' hw => ?_⟩
    obtain ⟨x, h1, h2, h3⟩ := hmax hk'
    rw [hparent] at h1 h2
    exact h3 ((hwithin _).mp hw x h1 h2)
  · rintro ⟨_, hw, hmax⟩
    refine ⟨Nat.le_add_right _ _, ?_, (hwithin (q, k)).mp hw, fun hk' => ?_⟩
    · rw [Nat.add_sub_cancel_left]
      exact Nat.dvd_mul_left _ _
    · have hnot := hmax hk'
      rw [hwithin] at hnot
      push Not at hnot
      obtain ⟨x, h1, h2, h3⟩ := hnot
      rw [hparent]
      exact ⟨x, h1, h2, h3⟩

/-- **The free lists hold the maximal blocks of the free pages.** -/
theorem Inv.mem_pages_iff (h : Inv c s L held) (hc : Coalesced L maxOrder)
    (hp : FreeLists s.st pages) {k y : ℕ} (hk : k < maxOrder) :
    y ∈ pages k ↔ MaximalBlock c.offset (FreePage pages) k y := by
  have hF : (fun z => FreePage pages (c.offset + z)) = Filed L maxOrder := by
    funext z
    rw [eq_iff_iff, h.freePage_iff hp, Nat.add_sub_cancel_left]
    exact and_iff_right (Nat.le_add_right _ _)
  have hfiled : ∀ q, q ∈ L k ↔ MaximalBlock c.offset (FreePage pages) k (c.offset + q * 2 ^ k) := by
    intro q
    rw [maximalBlock_iff hk, hF, ← hc.mem_filed_iff (pairwise_append.mp h.core.apart).1]
    rw [mem_filed]
    exact (and_iff_right hk).symm
  rw [h.pages_eq hp hk]
  constructor
  · intro hy
    obtain ⟨q, hq, rfl⟩ := List.mem_map.mp hy
    exact (hfiled q).mp hq
  · intro hy
    obtain ⟨q, hq⟩ := hy.aligned
    have hle := hy.inside
    have hy' : y = c.offset + q * 2 ^ k := by
      rw [Nat.mul_comm] at hq
      omega
    rw [hy'] at hy ⊢
    exact List.mem_map.mpr ⟨q, (hfiled q).mpr hy, rfl⟩

/-- No page is listed twice. -/
theorem Inv.nodup_pages (h : Inv c s L held) (hp : FreeLists s.st pages) {k : ℕ}
    (hk : k < maxOrder) : (pages k).Nodup := by
  rw [h.pages_eq hp hk]
  apply List.Nodup.map _ (h.core.nodup k)
  intro a b hab
  simp only [lo] at hab
  exact Nat.eq_of_mul_eq_mul_right (Nat.two_pow_pos k) (by omega)

end

/-- **History independence.**  Two runs from boot that end with the same free pages, or with
the same blocks in the hands of clients, end with the same blocks on each free list: the
maximal aligned blocks of the free pages. -/
theorem free_lists_history_independent (c : ZoneConfig) (s₁ s₂ : Sys)
    (h₁ : Relation.ReflTransGen Step c.boot s₁) (h₂ : Relation.ReflTransGen Step c.boot s₂)
    (pages₁ pages₂ : ℕ → List ℕ) (hp₁ : FreeLists s₁.st pages₁) (hp₂ : FreeLists s₂.st pages₂)
    (h : (∀ x, FreePage pages₁ x ↔ FreePage pages₂ x) ∨ s₁.out.Perm s₂.out) :
    ∀ k < maxOrder, (pages₁ k).Perm (pages₂ k) ∧
      ∀ y, y ∈ pages₁ k ↔ MaximalBlock c.offset (FreePage pages₁) k y := by
  obtain ⟨L₁, held₁, hinv₁, ht₁, hc₁⟩ := inv_reachable h₁
  obtain ⟨L₂, held₂, hinv₂, ht₂, hc₂⟩ := inv_reachable h₂
  have hfree : FreePage pages₁ = FreePage pages₂ := by
    funext x
    rw [eq_iff_iff]
    rcases h with h | h
    · exact h x
    · have hheld : HeldPage s₁ x ↔ HeldPage s₂ x := by
        simp only [HeldPage, h.mem_iff]
      rw [hinv₁.freePage_iff_not_held ht₁ hp₁, hinv₂.freePage_iff_not_held ht₂ hp₂, hheld]
  intro k hk
  refine ⟨?_, fun y => hinv₁.mem_pages_iff hc₁ hp₁ hk⟩
  rw [perm_ext_iff_of_nodup (hinv₁.nodup_pages hp₁ hk) (hinv₂.nodup_pages hp₂ hk)]
  intro y
  rw [hinv₁.mem_pages_iff hc₁ hp₁ hk, hinv₂.mem_pages_iff hc₂ hp₂ hk, hfree]

/-- Two pages are freed in either order. -/
theorem free_lists_two_pages :
    let c : ZoneConfig := ⟨1, 5, 2, 7, fun _ => 0, by decide, by decide⟩
    let s₁ : Sys := ⟨freePagesOk (freePagesOk c.boot.st 5 0) 6 0, []⟩
    let s₂ : Sys := ⟨freePagesOk (freePagesOk c.boot.st 6 0) 5 0, []⟩
    ∃ pages₁ pages₂, FreeLists s₁.st pages₁ ∧ FreeLists s₂.st pages₂ ∧
      ∀ k < maxOrder, (pages₁ k).Perm (pages₂ k) ∧
        ∀ y, y ∈ pages₁ k ↔ MaximalBlock c.offset (FreePage pages₁) k y := by
  intro c s₁ s₂
  have h₁ : Relation.ReflTransGen Step c.boot s₁ :=
    (Relation.ReflTransGen.single (Step.free c.boot 5 0 (by decide))).tail
      (Step.free ⟨freePagesOk c.boot.st 5 0, [(6, 0)]⟩ 6 0 (by decide))
  have h₂ : Relation.ReflTransGen Step c.boot s₂ :=
    (Relation.ReflTransGen.single (Step.free c.boot 6 0 (by decide))).tail
      (Step.free ⟨freePagesOk c.boot.st 6 0, [(5, 0)]⟩ 5 0 (by decide))
  obtain ⟨L₁, held₁, hinv₁, _⟩ := inv_reachable h₁
  obtain ⟨L₂, held₂, hinv₂, _⟩ := inv_reachable h₂
  have hp₁ : FreeLists s₁.st (pagesOf c.offset L₁) := hinv₁.zoneInvariant.lists
  have hp₂ : FreeLists s₂.st (pagesOf c.offset L₂) := hinv₂.zoneInvariant.lists
  exact ⟨_, _, hp₁, hp₂, free_lists_history_independent c s₁ s₂ h₁ h₂ _ _ hp₁ hp₂
    (Or.inr (List.Perm.refl _))⟩

end Buddy

end Yap
