/-
# Ordered lists of half-open ranges

A list whose elements stand for ranges `[lo a, hi a)`, none of them empty, each ending
before the next begins or where it begins.  The bounds are functions on the elements, so
the elements may be addresses of records that change.
-/
import Mathlib.Data.List.Pairwise
import Mathlib.Algebra.BigOperators.Group.List.Basic
import Mathlib.Algebra.GroupWithZero.Nat
import Mathlib.Order.Interval.Finset.Nat

namespace Yap

namespace Ranges

open List

section

variable {α : Type*} {lo hi lo' hi' : α → ℕ} {l : List α}

/-- The ranges of `l` are not empty and follow each other. -/
structure Ordered (lo hi : α → ℕ) (l : List α) : Prop where
  pairwise : l.Pairwise fun a b => hi a ≤ lo b
  lt : ∀ a ∈ l, lo a < hi a

/-- Two ranges without a common point. -/
def Apart (lo hi : α → ℕ) (a b : α) : Prop := hi a ≤ lo b ∨ hi b ≤ lo a

theorem Apart.symm {a b : α} (h : Apart lo hi a b) : Apart lo hi b a := Or.symm h

theorem ordered_nil : Ordered lo hi [] := ⟨List.Pairwise.nil, by simp⟩

theorem ordered_cons {a : α} :
    Ordered lo hi (a :: l) ↔ lo a < hi a ∧ (∀ b ∈ l, hi a ≤ lo b) ∧ Ordered lo hi l := by
  constructor
  · rintro ⟨hp, hlt⟩
    rw [pairwise_cons] at hp
    exact ⟨hlt a mem_cons_self, hp.1, hp.2, fun b hb => hlt b (mem_cons_of_mem _ hb)⟩
  · rintro ⟨ha, hb, hl⟩
    refine ⟨pairwise_cons.mpr ⟨hb, hl.pairwise⟩, fun b hmem => ?_⟩
    rcases mem_cons.mp hmem with rfl | hmem
    · exact ha
    · exact hl.lt b hmem

section

variable (h : Ordered lo hi l)

include h

variable {a x : α} {c : α → Bool} {f : α → ℕ} {l₁ l₂ : List α} {t : ℕ}

theorem Ordered.sublist {l' : List α} (hs : l'.Sublist l) :
    Ordered lo hi l' :=
  ⟨h.pairwise.sublist hs, fun a ha => h.lt a (hs.subset ha)⟩

theorem Ordered.congr (hlo : ∀ a ∈ l, lo' a = lo a)
    (hhi : ∀ a ∈ l, hi' a = hi a) : Ordered lo' hi' l := by
  refine ⟨h.pairwise.imp_of_mem ?_, ?_⟩
  · intro a b ha hb hab
    rw [hhi a ha, hlo b hb]
    exact hab
  · intro a ha
    rw [hlo a ha, hhi a ha]
    exact h.lt a ha

theorem Ordered.nodup : l.Nodup := by
  refine h.pairwise.imp_of_mem ?_
  rintro a b ha _ hab rfl
  have := h.lt a ha
  omega

/-- Distinct members of an ordered list have no common point. -/
theorem Ordered.apart {a b : α} (ha : a ∈ l) (hb : b ∈ l) (hab : a ≠ b) :
    Apart lo hi a b := by
  have hp : l.Pairwise (Apart lo hi) := h.pairwise.imp fun hab => Or.inl hab
  have : Std.Symm (Apart lo hi) := ⟨fun _ _ => Apart.symm⟩
  exact hp.forall ha hb hab

omit h in
theorem ordered_append :
    Ordered lo hi (l₁ ++ l₂) ↔
      Ordered lo hi l₁ ∧ Ordered lo hi l₂ ∧ ∀ a ∈ l₁, ∀ b ∈ l₂, hi a ≤ lo b := by
  constructor
  · intro h
    refine ⟨h.sublist (sublist_append_left _ _), h.sublist (sublist_append_right _ _), ?_⟩
    exact (pairwise_append.mp h.pairwise).2.2
  · rintro ⟨h1, h2, h⟩
    refine ⟨pairwise_append.mpr ⟨h1.pairwise, h2.pairwise, h⟩, fun a ha => ?_⟩
    rcases mem_append.mp ha with ha | ha
    · exact h1.lt a ha
    · exact h2.lt a ha

omit h in
/-- The order is a property of the bounds. -/
theorem ordered_map_iff :
    Ordered Prod.fst Prod.snd (l.map fun a => (lo a, hi a)) ↔ Ordered lo hi l := by
  constructor
  · rintro ⟨hp, hlt⟩
    refine ⟨pairwise_map.mp hp, fun a ha => ?_⟩
    exact hlt (lo a, hi a) (List.mem_map.mpr ⟨a, ha, rfl⟩)
  · rintro ⟨hp, hlt⟩
    refine ⟨pairwise_map.mpr hp, fun b hb => ?_⟩
    obtain ⟨a, ha, rfl⟩ := List.mem_map.mp hb
    exact hlt a ha

/-! ## Searching -/

omit h in
/-- Where a key does not decrease along a list, all elements behind the first with `t ≤ f a`
have it too. -/
theorem le_of_mem_dropWhile (h : l.Pairwise fun a b => f a ≤ f b) :
    ∀ a ∈ l.dropWhile (fun a => decide (f a < t)), t ≤ f a := by
  induction l with
  | nil => simp
  | cons c l ih =>
    obtain ⟨hc, hl⟩ := pairwise_cons.mp h
    intro a ha
    by_cases hct : f c < t
    · rw [dropWhile_cons_of_pos (by simpa using hct)] at ha
      exact ih hl a ha
    · rw [dropWhile_cons_of_neg (by simpa using hct)] at ha
      rcases mem_cons.mp ha with rfl | ha
      · omega
      · have := hc a ha
        omega

/-- Behind the first range that ends at `t` or later, all do. -/
theorem Ordered.le_hi_of_mem_dropWhile :
    ∀ a ∈ l.dropWhile (fun a => decide (hi a < t)), t ≤ hi a := by
  refine le_of_mem_dropWhile (h.pairwise.imp_of_mem fun _ hb hab => ?_)
  exact hab.trans (h.lt _ hb).le

/-- Behind the first range that begins at `t` or later, all do. -/
theorem Ordered.le_lo_of_mem_dropWhile :
    ∀ a ∈ l.dropWhile (fun a => decide (lo a < t)), t ≤ lo a := by
  refine le_of_mem_dropWhile (h.pairwise.imp_of_mem fun ha _ hab => ?_)
  exact (h.lt _ ha).le.trans hab

/-! ## Inserting -/

/-- Put `x` behind the first elements with `c`. -/
def insertWhile (c : α → Bool) (x : α) (l : List α) : List α :=
  l.takeWhile c ++ x :: l.dropWhile c

omit h in
theorem insertWhile_perm (c : α → Bool) (x : α) (l : List α) :
    (insertWhile c x l).Perm (x :: l) := by
  refine perm_middle.trans (List.Perm.cons x ?_)
  rw [takeWhile_append_dropWhile]

omit h in
theorem mem_insertWhile : a ∈ insertWhile c x l ↔ a = x ∨ a ∈ l := by
  rw [(insertWhile_perm c x l).mem_iff, mem_cons]

omit h in
theorem insertWhile_append (h1 : ∀ a ∈ l₁, c a = true)
    (h2 : ∀ a ∈ l₂, c a = false) (x : α) : insertWhile c x (l₁ ++ l₂) = l₁ ++ x :: l₂ := by
  rw [insertWhile, takeWhile_append_of_pos h1, dropWhile_append_of_pos h1]
  cases l₂ with
  | nil => rw [takeWhile_nil, dropWhile_nil, append_nil]
  | cons b l₂ =>
    have hb : ¬ c b = true := by simp [h2 b mem_cons_self]
    rw [takeWhile_cons_of_neg hb, dropWhile_cons_of_neg hb, append_nil]

/-- **Insertion by the lower bound** keeps an ordered list ordered. -/
theorem Ordered.insertWhile (hx : lo x < hi x)
    (hap : ∀ a ∈ l, Apart lo hi a x) :
    Ordered lo hi (insertWhile (fun a => decide (lo a ≤ lo x)) x l) := by
  induction l with
  | nil => exact ordered_cons.mpr ⟨hx, by simp, ordered_nil⟩
  | cons c l ih =>
    obtain ⟨hc0, hc, hl⟩ := ordered_cons.mp h
    have hap' : ∀ a ∈ l, Apart lo hi a x := fun a ha => hap a (mem_cons_of_mem _ ha)
    by_cases hcx : lo c ≤ lo x
    · have hcx' : hi c ≤ lo x := by
        rcases hap c mem_cons_self with hcx' | hcx'
        · exact hcx'
        · omega
      have hins := ih hl hap'
      rw [Ranges.insertWhile] at hins ⊢
      rw [takeWhile_cons_of_pos (by simpa using hcx),
        dropWhile_cons_of_pos (by simpa using hcx), List.cons_append, ordered_cons]
      refine ⟨hc0, fun b hb => ?_, hins⟩
      rcases mem_insertWhile.mp hb with rfl | hb
      · exact hcx'
      · exact hc b hb
    · have hxc : hi x ≤ lo c := by
        rcases hap c mem_cons_self with hxc | hxc
        · omega
        · exact hxc
      rw [Ranges.insertWhile, takeWhile_cons_of_neg (by simpa using hcx),
        dropWhile_cons_of_neg (by simpa using hcx), nil_append, ordered_cons]
      refine ⟨hx, fun b hb => ?_, h⟩
      rcases mem_cons.mp hb with rfl | hb
      · exact hxc
      · have := hc b hb
        omega

/-! ## Sizes -/

/-- Ordered ranges below `n` cover at most `n` points. -/
theorem Ordered.sum_le {n : ℕ} (hn : ∀ a ∈ l, hi a ≤ n)
    (hf : ∀ a ∈ l, f a ≤ hi a - lo a) : (l.map f).sum ≤ n := by
  suffices hb : ∀ b ≤ n, (∀ a ∈ l, b ≤ lo a) → (l.map f).sum ≤ n - b from
    hb 0 (Nat.zero_le n) fun a _ => Nat.zero_le _
  induction l with
  | nil => simp
  | cons c l ih =>
    obtain ⟨hc0, hc, hl⟩ := ordered_cons.mp h
    intro b hbn hb
    have hbc := hb c mem_cons_self
    have hcn := hn c mem_cons_self
    have hfc := hf c mem_cons_self
    have := ih hl (fun a ha => hn a (mem_cons_of_mem _ ha))
      (fun a ha => hf a (mem_cons_of_mem _ ha)) (hi c) hcn hc
    rw [map_cons, sum_cons]
    omega

end

/-- The points of ranges that are apart, counted. -/
theorem exists_card_eq_sum (h : l.Pairwise (Apart lo hi)) : ∃ s : Finset ℕ,
    (∀ x, x ∈ s ↔ ∃ a ∈ l, lo a ≤ x ∧ x < hi a) ∧ s.card = (l.map fun a => hi a - lo a).sum := by
  induction l with
  | nil => exact ⟨∅, by simp, rfl⟩
  | cons c l ih =>
    rw [pairwise_cons] at h
    obtain ⟨s, hs, hcard⟩ := ih h.2
    have hdis : Disjoint (Finset.Ico (lo c) (hi c)) s := by
      rw [Finset.disjoint_left]
      intro x hx hx'
      obtain ⟨a, ha, hax⟩ := (hs x).mp hx'
      rw [Finset.mem_Ico] at hx
      rcases h.1 a ha with h' | h' <;> omega
    refine ⟨Finset.Ico (lo c) (hi c) ∪ s, fun x => ?_, ?_⟩
    · rw [Finset.mem_union, Finset.mem_Ico, hs]
      simp
    · rw [Finset.card_union_of_disjoint hdis, Nat.card_Ico, hcard, map_cons, sum_cons]

/-- Ranges between `m` and `n` that are apart cover at most `n - m` points. -/
theorem sum_le_of_apart (h : l.Pairwise (Apart lo hi)) {m n : ℕ}
    (hl : ∀ a ∈ l, m ≤ lo a ∧ hi a ≤ n) : (l.map fun a => hi a - lo a).sum ≤ n - m := by
  obtain ⟨s, hs, hcard⟩ := exists_card_eq_sum h
  rw [← hcard, ← Nat.card_Ico]
  refine Finset.card_le_card fun x hx => ?_
  obtain ⟨a, ha, hax⟩ := (hs x).mp hx
  have := hl a ha
  rw [Finset.mem_Ico]
  omega

end

end Ranges

end Yap
