/-
# Binary blocks

General infrastructure for buddy systems.  The block `(q, k)` is the interval
`[q * 2 ^ k, (q + 1) * 2 ^ k)`: block number `q` among the aligned blocks of order
`k`.  The two halves of `(q, k + 1)` are `(2 * q, k)` and `(2 * q + 1, k)`.

* `Apart` is disjointness of two blocks; it is inherited by halves (`Apart.halves`)
  and by the whole (`Apart.whole`);
* `total_le`: pairwise disjoint blocks below `n` have total length at most `n`;
* `filed`: the blocks filed under their order in a family of lists, and what
  adding and removing one of them does (`filed_insert`, `filed_remove`);
* `Coalesced.mem_filed_iff`: when no two halves are filed together, the filed blocks are
  the maximal blocks of the set of their elements.
-/
import Mathlib

/-- A block: its number among the blocks of its order, and its order. -/
abbrev Blk := ℕ × ℕ

namespace Blk

open List Function

/-- First element of a block. -/
def lo (b : Blk) : ℕ := b.1 * 2 ^ b.2

/-- First element after a block. -/
def hi (b : Blk) : ℕ := (b.1 + 1) * 2 ^ b.2

/-- Two blocks share no element. -/
def Apart (a b : Blk) : Prop := hi a ≤ lo b ∨ hi b ≤ lo a

theorem lo_lt_hi (b : Blk) : lo b < hi b := by
  unfold lo hi
  have := Nat.two_pow_pos b.2
  nlinarith

theorem hi_eq (b : Blk) : hi b = lo b + 2 ^ b.2 := by
  unfold lo hi
  ring

variable {b : Blk} {q k x n : ℕ} {bs : List Blk}

theorem Apart.symm {a : Blk} (h : Apart a b) : Apart b a := Or.symm h

/-- A block is not apart from a block with the same first element. -/
theorem not_apart_of_lo_eq {a : Blk} (h : lo a = lo b) : ¬ Apart a b := by
  have h1 := lo_lt_hi a
  have h2 := lo_lt_hi b
  rintro (h | h) <;> omega

/-! ## Halves -/

theorem lo_left (q k : ℕ) : lo (2 * q, k) = lo (q, k + 1) := by
  simp only [lo]; ring

theorem hi_left (q k : ℕ) : hi (2 * q, k) = lo (2 * q + 1, k) := by
  simp only [lo, hi]

theorem hi_right (q k : ℕ) : hi (2 * q + 1, k) = hi (q, k + 1) := by
  simp only [hi]; ring

/-- The two halves of a block are apart. -/
theorem apart_halves (q k : ℕ) : Apart (2 * q, k) (2 * q + 1, k) :=
  Or.inl (hi_left q k).le

/-- What is apart from a block is apart from its halves. -/
theorem Apart.halves {c : Blk} (h : Apart (q, k + 1) c) :
    Apart (2 * q, k) c ∧ Apart (2 * q + 1, k) c := by
  have h1 := lo_left q k
  have h2 := hi_left q k
  have h3 := hi_right q k
  have h4 := lo_lt_hi (2 * q, k)
  have h5 := lo_lt_hi (2 * q + 1, k)
  unfold Apart at *
  omega

/-- What is apart from both halves is apart from the block. -/
theorem Apart.whole {c : Blk} (hl : Apart (2 * q, k) c)
    (hr : Apart (2 * q + 1, k) c) : Apart (q, k + 1) c := by
  have h1 := lo_left q k
  have h2 := hi_left q k
  have h3 := hi_right q k
  have h4 := lo_lt_hi c
  unfold Apart at *
  omega

/-! ## Total length -/

/-- Total length of a list of blocks. -/
def total (bs : List Blk) : ℕ := (bs.map (fun b => 2 ^ b.2)).sum

@[simp] theorem total_nil : total [] = 0 := rfl

@[simp] theorem total_cons (b : Blk) (bs : List Blk) :
    total (b :: bs) = 2 ^ b.2 + total bs := by
  simp [total]

theorem total_append (as bs : List Blk) : total (as ++ bs) = total as + total bs := by
  simp [total]

theorem total_perm {as : List Blk} (h : as.Perm bs) : total as = total bs :=
  (h.map _).sum_eq

/-- The element `x` is in the block `b`. -/
def Has (b : Blk) (x : ℕ) : Prop := lo b ≤ x ∧ x < hi b

theorem has_lo (b : Blk) : Has b (lo b) := ⟨le_rfl, lo_lt_hi b⟩

theorem has_of_half (h : Has (2 * q, k) x ∨ Has (2 * q + 1, k) x) : Has (q, k + 1) x := by
  have h1 := lo_left q k
  have h2 := hi_left q k
  have h3 := hi_right q k
  have h4 := lo_lt_hi (2 * q, k)
  have h5 := lo_lt_hi (2 * q + 1, k)
  unfold Has at *
  omega

/-- The elements of some blocks. -/
def elems (bs : List Blk) : Finset ℕ := bs.foldr (fun b s => Finset.Ico (lo b) (hi b) ∪ s) ∅

theorem elems_cons (b : Blk) (bs : List Blk) :
    elems (b :: bs) = Finset.Ico (lo b) (hi b) ∪ elems bs := rfl

theorem mem_elems : x ∈ elems bs ↔ ∃ b ∈ bs, Has b x := by
  induction bs with
  | nil => simp [elems]
  | cons b bs ih =>
    rw [elems_cons, Finset.mem_union, ih, Finset.mem_Ico]
    simp [Has]

/-- Disjoint blocks have as many elements as their total length. -/
theorem card_elems (hd : bs.Pairwise Apart) : (elems bs).card = total bs := by
  induction bs with
  | nil => rfl
  | cons b bs ih =>
    rw [pairwise_cons] at hd
    have hdis : Disjoint (Finset.Ico (lo b) (hi b)) (elems bs) := by
      rw [Finset.disjoint_left]
      intro x hx hx'
      obtain ⟨c, hc, h1, h2⟩ := mem_elems.mp hx'
      rw [Finset.mem_Ico] at hx
      rcases hd.1 c hc with h | h <;> omega
    rw [elems_cons, Finset.card_union_of_disjoint hdis, ih hd.2, Nat.card_Ico, total_cons, hi_eq,
      Nat.add_sub_cancel_left]

theorem elems_subset_range (hn : ∀ b ∈ bs, hi b ≤ n) :
    elems bs ⊆ Finset.range n := by
  intro x hx
  obtain ⟨b, hb, _, h2⟩ := mem_elems.mp hx
  exact Finset.mem_range.mpr (lt_of_lt_of_le h2 (hn b hb))

/-- Pairwise disjoint blocks inside `[0, n)` have total length at most `n`. -/
theorem total_le (hd : bs.Pairwise Apart) (hn : ∀ b ∈ bs, hi b ≤ n) : total bs ≤ n := by
  rw [← card_elems hd]
  simpa using Finset.card_le_card (elems_subset_range hn)

/-- Pairwise disjoint blocks of total length `n` inside `[0, n)` leave nothing out. -/
theorem exists_has_of_total_eq (hd : bs.Pairwise Apart) (hn : ∀ b ∈ bs, hi b ≤ n)
    (ht : total bs = n) (hx : x < n) : ∃ b ∈ bs, Has b x := by
  rw [← mem_elems]
  have hall : elems bs = Finset.range n := by
    apply Finset.eq_of_subset_of_card_le (elems_subset_range hn)
    rw [card_elems hd, ht, Finset.card_range]
  rw [hall]
  exact Finset.mem_range.mpr hx

/-! ## Blocks filed by order -/

/-- The blocks filed under the orders below `n`, where `L k` lists the block
numbers of order `k`. -/
def filed (L : ℕ → List ℕ) (n : ℕ) : List Blk :=
  (range n).flatMap (fun k => (L k).map (fun q => (q, k)))

@[simp] theorem filed_empty (n : ℕ) : filed (fun _ => []) n = [] := by
  simp [filed]

theorem mem_filed {L : ℕ → List ℕ} :
    b ∈ filed L n ↔ b.2 < n ∧ b.1 ∈ L b.2 := by
  obtain ⟨q, k⟩ := b
  simp only [filed, mem_flatMap, mem_range, List.mem_map, Prod.mk.injEq]
  constructor
  · rintro ⟨a, ha, q', hq', rfl, rfl⟩
    exact ⟨ha, hq'⟩
  · rintro ⟨hk, hq⟩
    exact ⟨k, hk, q, hq, rfl, rfl⟩

/-- Filing one more block. -/
theorem filed_insert (L : ℕ → List ℕ) (hk : k < n) (q : ℕ) :
    (filed (update L k (q :: L k)) n).Perm ((q, k) :: filed L n) := by
  induction n with
  | zero => omega
  | succ n ih =>
    have hsucc : ∀ M : ℕ → List ℕ,
        filed M (n + 1) = filed M n ++ (M n).map (fun q => (q, n)) := by
      intro M
      simp [filed, range_succ]
    rw [hsucc, hsucc]
    by_cases hkn : k = n
    · subst hkn
      have hsame : filed (update L k (q :: L k)) k = filed L k := by
        simp only [filed]
        apply flatMap_congr
        intro j hj
        rw [update_of_ne (by rw [mem_range] at hj; omega)]
      rw [hsame, update_self, map_cons]
      exact perm_middle
    · rw [update_of_ne (Ne.symm hkn)]
      exact (ih (by omega)).append_right _

/-- Taking a block out of the file. -/
theorem filed_remove {L : ℕ → List ℕ} (hk : k < n) {as bs : List ℕ} (hL : L k = as ++ q :: bs) :
    (filed L n).Perm ((q, k) :: filed (update L k (as ++ bs)) n) := by
  set L' := update L k (as ++ bs) with hL'
  have hins := filed_insert L' hk q
  have hperm : (filed L n).Perm (filed (update L' k (q :: L' k)) n) := by
    refine List.Perm.flatMap_left _ ?_
    intro j _
    by_cases hj : j = k
    · subst hj
      rw [update_self, hL, hL', update_self]
      exact perm_middle.map _
    · rw [update_of_ne hj, hL', update_of_ne hj]
  exact hperm.trans hins

theorem total_filed_insert (L : ℕ → List ℕ) (hk : k < n) (q : ℕ) :
    total (filed (update L k (q :: L k)) n) = 2 ^ k + total (filed L n) := by
  rw [total_perm (filed_insert L hk q), total_cons]

theorem total_filed_remove {L : ℕ → List ℕ} (hk : k < n) {as bs : List ℕ}
    (hL : L k = as ++ q :: bs) :
    total (filed L n) = 2 ^ k + total (filed (update L k (as ++ bs)) n) := by
  rw [total_perm (filed_remove hk hL), total_cons]

/-! ## Maximal blocks

Blocks that are filed so that no two halves of one block are filed together are determined by
the elements they have in common: a block is filed exactly if all its elements are, and the
block it is a half of has others.
-/

/-- No two halves of a block of order below `n` are both filed. -/
def Coalesced (L : ℕ → List ℕ) (n : ℕ) : Prop :=
  ∀ k, k + 1 < n → ∀ q, ¬ (2 * q ∈ L k ∧ 2 * q + 1 ∈ L k)

theorem Coalesced.remove {L : ℕ → List ℕ} {as bs : List ℕ} (h : Coalesced L n)
    (hL : L k = as ++ q :: bs) : Coalesced (update L k (as ++ bs)) n := by
  have hsub : ∀ j x, x ∈ update L k (as ++ bs) j → x ∈ L j := by
    intro j x hx
    by_cases hj : j = k
    · subst hj
      rw [update_self] at hx
      rw [hL]
      exact ((sublist_cons_self q bs).append_left as).subset hx
    · rwa [update_of_ne hj] at hx
  exact fun j hj r hr => h j hj r ⟨hsub j _ hr.1, hsub j _ hr.2⟩

/-- Filing a block whose other half is not filed. -/
theorem Coalesced.insert {L : ℕ → List ℕ} (h : Coalesced L n)
    (hq : k + 1 < n → q ^^^ 1 ∉ L k) : Coalesced (update L k (q :: L k)) n := by
  intro j hj r hr
  by_cases hjk : j = k
  · subst hjk
    rw [update_self, mem_cons, mem_cons] at hr
    have hne := hq hj
    have hxor : (2 * r) ^^^ 1 = 2 * r + 1 ∧ (2 * r + 1) ^^^ 1 = 2 * r := by
      constructor
      · exact Nat.xor_one_of_even ⟨r, by omega⟩
      · rw [Nat.xor_one_of_odd ⟨r, rfl⟩, Nat.add_sub_cancel]
    obtain ⟨hr1, hr2⟩ := hr
    rcases hr1 with hr1 | hr1
    · rcases hr2 with hr2 | hr2
      · omega
      · rw [← hr1, hxor.1] at hne
        exact hne hr2
    · rcases hr2 with hr2 | hr2
      · rw [← hr2, hxor.2] at hne
        exact hne hr1
      · exact h j hj r ⟨hr1, hr2⟩
  · rw [update_of_ne hjk] at hr
    exact h j hj r hr

/-- All elements of the block have `F`. -/
def Within (F : ℕ → Prop) (b : Blk) : Prop := ∀ x, Has b x → F x

/-- A block of order below `n` with `F` that is not half of a block of order below `n` with `F`. -/
def Maximal (F : ℕ → Prop) (n : ℕ) (b : Blk) : Prop :=
  b.2 < n ∧ Within F b ∧ (b.2 + 1 < n → ¬ Within F (b.1 / 2, b.2 + 1))

/-- A block of order at least `k` that meets `(q, k)` contains it. -/
theorem contains_of_has (hk : k ≤ b.2) (hb : Has b x) (hx : Has (q, k) x) :
    lo b ≤ lo (q, k) ∧ hi (q, k) ≤ hi b := by
  obtain ⟨r, j⟩ := b
  obtain ⟨d, rfl⟩ := Nat.exists_eq_add_of_le hk
  obtain ⟨h1, h2⟩ := hb
  obtain ⟨h3, h4⟩ := hx
  -- both ends of `b` are multiples of `2 ^ k`
  have hlo : lo (r, k + d) = r * 2 ^ d * 2 ^ k := by
    simp only [lo, pow_add]
    ring
  have hhi : hi (r, k + d) = (r + 1) * 2 ^ d * 2 ^ k := by
    simp only [hi, pow_add]
    ring
  rw [hlo] at h1 ⊢
  rw [hhi] at h2 ⊢
  simp only [lo, hi] at h3 h4 ⊢
  constructor
  · apply Nat.mul_le_mul_right
    exact Nat.lt_succ_iff.mp (Nat.lt_of_mul_lt_mul_right (lt_of_le_of_lt h1 h4))
  · apply Nat.mul_le_mul_right
    exact Nat.lt_of_mul_lt_mul_right (lt_of_le_of_lt h3 h2)

/-- A block of order `k` that contains a block of order `k` is that block. -/
theorem eq_of_contains {r : ℕ} (h1 : lo (r, k) ≤ lo (q, k)) (h2 : hi (q, k) ≤ hi (r, k)) :
    r = q := by
  have hpos := Nat.two_pow_pos k
  have hle := Nat.le_of_mul_le_mul_right h1 hpos
  have hge := Nat.le_of_mul_le_mul_right h2 hpos
  omega

section

variable {L : ℕ → List ℕ} {n : ℕ}

/-- The elements of the filed blocks. -/
def Filed (L : ℕ → List ℕ) (n : ℕ) (x : ℕ) : Prop := ∃ b ∈ filed L n, Has b x

/-- Under coalescing, a block with all its elements filed lies in one filed block. -/
theorem Coalesced.exists_contains (h : Coalesced L n) (hk : k < n)
    (hw : Within (Filed L n) (q, k)) :
    ∃ b ∈ filed L n, k ≤ b.2 ∧ lo b ≤ lo (q, k) ∧ hi (q, k) ≤ hi b := by
  induction k generalizing q with
  | zero =>
    obtain ⟨b, hb, hx⟩ := hw _ (has_lo (q, 0))
    exact ⟨b, hb, Nat.zero_le _, contains_of_has (Nat.zero_le _) hx (has_lo (q, 0))⟩
  | succ k ih =>
    have hl : Within (Filed L n) (2 * q, k) := by
      intro x hx
      exact hw x (has_of_half (Or.inl hx))
    have hr : Within (Filed L n) (2 * q + 1, k) := by
      intro x hx
      exact hw x (has_of_half (Or.inr hx))
    obtain ⟨a, ha, hka, ha1, ha2⟩ := ih (by omega) hl
    obtain ⟨b, hb, hkb, hb1, hb2⟩ := ih (by omega) hr
    have hasl := has_of_half (Or.inl (has_lo (2 * q, k)))
    have hasr := has_of_half (Or.inr (has_lo (2 * q + 1, k)))
    -- a filed block of a higher order around one half contains the other half too
    by_cases hka' : k + 1 ≤ a.2
    · have hhas : Has a (lo (2 * q, k)) := ⟨ha1, lt_of_lt_of_le (lo_lt_hi _) ha2⟩
      exact ⟨a, ha, hka', contains_of_has hka' hhas hasl⟩
    by_cases hkb' : k + 1 ≤ b.2
    · have hhas : Has b (lo (2 * q + 1, k)) := ⟨hb1, lt_of_lt_of_le (lo_lt_hi _) hb2⟩
      exact ⟨b, hb, hkb', contains_of_has hkb' hhas hasr⟩
    · -- otherwise both halves are filed
      obtain ⟨r, i⟩ := a
      obtain ⟨t, j⟩ := b
      obtain rfl : i = k := by simp only at hka hka'; omega
      obtain rfl : j = i := by simp only at hkb hkb'; omega
      obtain rfl := eq_of_contains ha1 ha2
      obtain rfl := eq_of_contains hb1 hb2
      exact absurd ⟨(mem_filed.mp ha).2, (mem_filed.mp hb).2⟩ (h j hk q)

/-- **The filed blocks are the maximal ones.** -/
theorem Coalesced.mem_filed_iff (h : Coalesced L n) (hd : (filed L n).Pairwise Apart) (b : Blk) :
    b ∈ filed L n ↔ Maximal (Filed L n) n b := by
  obtain ⟨q, k⟩ := b
  have hlo : lo (q / 2, k + 1) ≤ lo (q, k) ∧ hi (q, k) ≤ hi (q / 2, k + 1) := by
    simp only [lo, hi, pow_succ]
    have h1 : q / 2 * (2 ^ k * 2) = q / 2 * 2 * 2 ^ k := by ring
    have h2 : (q / 2 + 1) * (2 ^ k * 2) = (q / 2 + 1) * 2 * 2 ^ k := by ring
    rw [h1, h2]
    constructor <;> apply Nat.mul_le_mul_right <;> omega
  constructor
  · intro hb
    refine ⟨(mem_filed.mp hb).1, fun x hx => ⟨_, hb, hx⟩, fun hk hw => ?_⟩
    obtain ⟨c, hc, hkc, hc1, hc2⟩ := h.exists_contains hk hw
    simp only at hc1 hc2
    have hne : (q, k) ≠ c := by
      rintro rfl
      omega
    have hlt := lo_lt_hi (q, k)
    have hsymm : Std.Symm Apart := ⟨fun _ _ => Apart.symm⟩
    rcases hd.forall hb hc hne with hap | hap
    · omega
    · omega
  · rintro ⟨hk, hw, hmax⟩
    obtain ⟨⟨r, j⟩, hc, hkc, hc1, hc2⟩ := h.exists_contains hk hw
    rcases Nat.eq_or_lt_of_le hkc with heq | hlt
    · simp only at heq
      subst heq
      rw [← eq_of_contains hc1 hc2]
      exact hc
    · -- the parent is inside the same filed block
      have hj := (mem_filed.mp hc).1
      have hhas : Has (r, j) (lo (q, k)) := ⟨hc1, lt_of_lt_of_le (lo_lt_hi _) hc2⟩
      have hpar : Has (q / 2, k + 1) (lo (q, k)) :=
        ⟨hlo.1, lt_of_lt_of_le (lo_lt_hi _) hlo.2⟩
      obtain ⟨h1, h2⟩ := contains_of_has hlt hhas hpar
      refine absurd ?_ (hmax (by simp only at hlt hj ⊢; omega))
      intro x hx
      exact ⟨_, hc, h1.trans hx.1, lt_of_lt_of_le hx.2 h2⟩

end

end Blk
