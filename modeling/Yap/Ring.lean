/-
# Circular doubly linked lists

General infrastructure for intrusive circular lists: a heap of nodes with a
`next` and a `prev` link each, a predicate saying that the links form a ring
through a given sequence of nodes, and the two pointer surgeries on rings.

* `Links.link n a b` splices the node `n` between `a` and `b`;
* `Links.unlink n` closes the gap around `n`.

Every insertion and removal is first proved next to the head of a ring and then
moved anywhere by `IsRing.rotate`: a ring may be read off from any of its nodes.
-/
import Mathlib

/-- The two link fields of every node of a heap of list nodes. -/
@[ext] structure Links (α : Type*) where
  next : α → α
  prev : α → α

namespace Links

open List Function

variable {α : Type*}

/-! ## Segments and rings -/

/-- Following `next` from `a` visits exactly `xs` and arrives at `b`, and `prev`
is the way back. -/
def Seg (l : Links α) : α → List α → α → Prop
  | a, [], b => l.next a = b ∧ l.prev b = a
  | a, x :: xs, b => l.next a = x ∧ l.prev x = a ∧ Seg l x xs b

/-- `h` is the head of a circular list that visits `xs`, each node once. -/
def IsRing (l : Links α) (h : α) (xs : List α) : Prop :=
  l.Seg h xs h ∧ (h :: xs).Nodup

variable {a h y : α} {l l' : Links α} {xs ys : List α}

/-- A segment through `x` is two segments meeting at `x`. -/
theorem seg_append (l : Links α) (a b x : α) (xs ys : List α) :
    l.Seg a (xs ++ x :: ys) b ↔ l.Seg a xs x ∧ l.Seg x ys b := by
  induction xs generalizing a with
  | nil => simp [Seg, and_assoc]
  | cons y xs ih => simp [Seg, ih, and_assoc]

/-- A segment only depends on the links it follows. -/
theorem Seg.congr {a b : α} (h : l.Seg a xs b)
    (hn : ∀ y ∈ a :: xs, l'.next y = l.next y)
    (hp : ∀ y ∈ xs ++ [b], l'.prev y = l.prev y) : l'.Seg a xs b := by
  induction xs generalizing a with
  | nil =>
    obtain ⟨h1, h2⟩ := h
    exact ⟨by rw [hn a (by simp), h1], by rw [hp b (by simp), h2]⟩
  | cons x xs ih =>
    obtain ⟨h1, h2, h3⟩ := h
    refine ⟨by rw [hn a (by simp), h1], by rw [hp x (by simp), h2], ih h3 ?_ ?_⟩
    · intro y hy
      exact hn y (mem_cons_of_mem _ hy)
    · intro y hy
      exact hp y (by simpa using Or.inr (mem_append.mp hy))

/-- A ring only depends on the links of its own nodes. -/
theorem IsRing.congr (hr : l.IsRing h xs)
    (heq : ∀ y ∈ h :: xs, l'.next y = l.next y ∧ l'.prev y = l.prev y) :
    l'.IsRing h xs := by
  refine ⟨hr.1.congr (fun y hy => (heq y hy).1) ?_, hr.2⟩
  intro y hy
  refine (heq y ?_).2
  rcases mem_append.mp hy with hy | hy
  · exact mem_cons_of_mem _ hy
  · exact mem_cons.mpr (Or.inl (mem_singleton.mp hy))

/-- **Rotation.**  A ring may be read off from any of its nodes. -/
theorem IsRing.rotate (hr : l.IsRing h (xs ++ a :: ys)) : l.IsRing a (ys ++ h :: xs) := by
  obtain ⟨hs, hd⟩ := hr
  rw [seg_append] at hs
  refine ⟨(seg_append l a a h ys xs).mpr ⟨hs.2, hs.1⟩, ?_⟩
  show ((a :: ys) ++ (h :: xs)).Nodup
  exact nodup_append_comm.mp hd

/-- A ring, written down from behind one of its nodes and up to this node, may be written down
from behind any other. -/
theorem IsRing.rotate_to {c r : α} {ys as bs : List α} (hr : l.IsRing c ys)
    (h : ys ++ [c] = as ++ r :: bs) : l.IsRing r (bs ++ as) := by
  rcases eq_nil_or_concat' bs with rfl | ⟨bs', b, rfl⟩
  · obtain ⟨rfl, hc⟩ := append_inj' h rfl
    obtain rfl : c = r := by simpa using hc
    exact hr
  · rw [← List.cons_append, ← List.append_assoc] at h
    obtain ⟨rfl, hc⟩ := append_inj' h rfl
    obtain rfl : c = b := by simpa using hc
    rw [List.append_assoc, singleton_append]
    exact hr.rotate

/-! ## What the head sees -/

/-- The successor of the head is the first element, or the head itself. -/
theorem IsRing.next_head (hr : l.IsRing h xs) :
    l.next h = xs.headD h := by
  cases xs with
  | nil => exact hr.1.1
  | cons x xs => exact hr.1.1

/-- The head is its own successor exactly when the ring is empty. -/
theorem IsRing.next_head_eq_iff (hr : l.IsRing h xs) :
    l.next h = h ↔ xs = [] := by
  rw [hr.next_head]
  cases xs with
  | nil => simp
  | cons x xs =>
    have hne : h ≠ x := by
      rintro rfl
      exact (nodup_cons.mp hr.2).1 (by simp)
    simpa using hne.symm

/-- The predecessor of the head is the last element, or the head itself. -/
theorem IsRing.prev_head (hr : l.IsRing h xs) :
    l.prev h = xs.getLastD h := by
  rcases eq_nil_or_concat' xs with rfl | ⟨ys, y, rfl⟩
  · exact hr.1.2
  · have hs := (seg_append l h h y ys []).mp hr.1
    rw [hs.2.2, getLastD_concat]

/-- The successor of the last node of a first part is the first node of the rest. -/
theorem IsRing.next_getLastD
    (hr : l.IsRing h (xs ++ ys)) : l.next (xs.getLastD h) = ys.headD h := by
  rcases eq_nil_or_concat' xs with rfl | ⟨zs, z, rfl⟩
  · exact hr.next_head
  · rw [getLastD_concat]
    rw [List.append_assoc, singleton_append] at hr
    rw [hr.rotate.next_head]
    cases ys <;> rfl

/-- The predecessor of the first node of a rest is the last node of the first part. -/
theorem IsRing.prev_headD (hr : l.IsRing h (xs ++ ys)) : l.prev (ys.headD h) = xs.getLastD h := by
  cases ys with
  | nil =>
    rw [append_nil] at hr
    exact hr.prev_head
  | cons y ys =>
    rw [headD_cons, hr.rotate.prev_head]
    rcases eq_nil_or_concat' xs with rfl | ⟨zs, z, rfl⟩
    · simp
    · rw [getLastD_concat, ← List.cons_append, ← List.append_assoc, getLastD_concat]

/-- Links of ring nodes lead to ring nodes. -/
theorem IsRing.next_mem (hr : l.IsRing h xs) (hy : y ∈ h :: xs) : l.next y ∈ h :: xs := by
  rcases mem_cons.mp hy with rfl | hy
  · rw [hr.next_head]
    cases xs <;> simp
  · obtain ⟨as, bs, rfl⟩ := append_of_mem hy
    rw [hr.rotate.next_head]
    cases bs <;> simp

theorem IsRing.prev_mem (hr : l.IsRing h xs) (hy : y ∈ h :: xs) : l.prev y ∈ h :: xs := by
  -- read off the ring from `y`: the predecessor is then the last element
  have key : ∀ {g : α} {zs : List α}, l.IsRing g zs → l.prev g ∈ g :: zs := by
    intro g zs hg
    rw [hg.prev_head]
    rcases eq_nil_or_concat' zs with rfl | ⟨ys, z, rfl⟩
    · simp
    · rw [getLastD_concat]
      simp
  rcases mem_cons.mp hy with rfl | hy
  · exact key hr
  · obtain ⟨as, bs, rfl⟩ := append_of_mem hy
    have := key hr.rotate
    simp only [mem_cons, mem_append] at this ⊢
    tauto

/-- The links determine the sequence a ring visits. -/
theorem IsRing.unique (hx : l.IsRing h xs) (hy : l.IsRing h ys) : xs = ys := by
  have key : ∀ (as bs : List α) (a : α), l.Seg a as h → l.Seg a bs h →
      h ∉ as → h ∉ bs → as = bs := by
    intro as
    induction as with
    | nil =>
      intro bs a ha hb _ hnb
      cases bs with
      | nil => rfl
      | cons b bs =>
        have : b = h := hb.1.symm.trans ha.1
        exact absurd (this ▸ mem_cons_self) hnb
    | cons x as ih =>
      intro bs a ha hb hna hnb
      cases bs with
      | nil =>
        have : x = h := ha.1.symm.trans hb.1
        exact absurd (this ▸ mem_cons_self) hna
      | cons b bs =>
        obtain rfl : x = b := ha.1.symm.trans hb.1
        rw [ih bs x ha.2.2 hb.2.2 (fun hm => hna (mem_cons_of_mem _ hm))
          (fun hm => hnb (mem_cons_of_mem _ hm))]
  exact key xs ys h hx.1 hy.1 (nodup_cons.mp hx.2).1 (nodup_cons.mp hy.2).1

/-- A self-linked node is an empty ring. -/
theorem isRing_nil_iff (l : Links α) (h : α) :
    l.IsRing h [] ↔ l.next h = h ∧ l.prev h = h := by
  simp [IsRing, Seg]

/-! ## Pointer surgery -/

variable [DecidableEq α]

/-- `a->next = b`. -/
def setNext (l : Links α) (a b : α) : Links α := { l with next := update l.next a b }

/-- `a->prev = b`. -/
def setPrev (l : Links α) (a b : α) : Links α := { l with prev := update l.prev a b }

section

variable (l : Links α)

@[simp] theorem setNext_next (a b y : α) :
    (l.setNext a b).next y = if y = a then b else l.next y := by
  simp [setNext, update_apply]

@[simp] theorem setNext_prev (a b : α) : (l.setNext a b).prev = l.prev := rfl

@[simp] theorem setPrev_prev (a b y : α) :
    (l.setPrev a b).prev y = if y = a then b else l.prev y := by
  simp [setPrev, update_apply]

@[simp] theorem setPrev_next (a b : α) : (l.setPrev a b).next = l.next := rfl

/-- Splice `n` between the neighbours `a` and `b`. -/
def link (l : Links α) (n a b : α) : Links α :=
  (((l.setPrev b n).setNext n b).setPrev n a).setNext a n

/-- Close the gap around `n`; the links of `n` itself stay as they are. -/
def unlink (l : Links α) (n : α) : Links α :=
  (l.setPrev (l.next n) (l.prev n)).setNext (l.prev n) (l.next n)

/-- Make `n` a ring of its own. -/
def selfLink (l : Links α) (n : α) : Links α := (l.setNext n n).setPrev n n

theorem link_next (n a b y : α) :
    (l.link n a b).next y = if y = a then n else if y = n then b else l.next y := by
  simp [link]

theorem link_prev (n a b y : α) :
    (l.link n a b).prev y = if y = n then a else if y = b then n else l.prev y := by
  simp [link]

theorem unlink_next (n y : α) :
    (l.unlink n).next y = if y = l.prev n then l.next n else l.next y := by
  simp [unlink]

theorem unlink_prev (n y : α) :
    (l.unlink n).prev y = if y = l.next n then l.prev n else l.prev y := by
  simp [unlink]

theorem isRing_selfLink (n : α) : (l.selfLink n).IsRing n [] := by
  rw [isRing_nil_iff]
  simp [selfLink]

end

/-! ### Insertion -/

variable {a h n : α} {l : Links α} {xs ys : List α}

/-- Splicing a new node right after the head. -/
theorem IsRing.link_head (hr : l.IsRing h xs)
    (hn : n ∉ h :: xs) : (l.link n h (l.next h)).IsRing h (n :: xs) := by
  have hnh : n ≠ h := fun he => hn (he ▸ mem_cons_self)
  refine ⟨?_, ?_⟩
  · cases xs with
    | nil =>
      have hh : l.next h = h := hr.1.1
      simp [Seg, link_next, link_prev, hh, hnh, hnh.symm]
    | cons x xs =>
      have hx : l.next h = x := hr.1.1
      have hd := hr.2
      simp only [nodup_cons, mem_cons, not_or] at hd hn
      refine ⟨by simp [link_next], by simp [link_prev], ?_, ?_, hr.1.2.2.congr ?_ ?_⟩
      · simp [link_next, hnh, hx]
      · rw [link_prev, hx, if_neg (Ne.symm hn.2.1), if_pos rfl]
      · intro y hy
        have h1 : y ≠ h := by rintro rfl; simp_all
        have h2 : y ≠ n := by rintro rfl; simp_all
        rw [link_next, if_neg h1, if_neg h2]
      · intro y hy
        have h1 : y ≠ n := by rintro rfl; simp_all
        have h2 : y ≠ x := by rintro rfl; simp_all
        rw [link_prev, hx, if_neg h1, if_neg h2]
  · have hd := hr.2
    simp only [nodup_cons, mem_cons, not_or] at hd hn ⊢
    exact ⟨⟨Ne.symm hn.1, hd.1⟩, hn.2, hd.2⟩

/-- Splicing a new node right after an element of the ring. -/
theorem IsRing.link_after (hr : l.IsRing h (xs ++ a :: ys)) (hn : n ∉ h :: (xs ++ a :: ys)) :
    (l.link n a (l.next a)).IsRing h (xs ++ a :: n :: ys) := by
  have hn' : n ∉ a :: (ys ++ h :: xs) := by
    simp only [mem_cons, mem_append] at hn ⊢
    tauto
  have h1 : (l.link n a (l.next a)).IsRing a ((n :: ys) ++ h :: xs) := hr.rotate.link_head hn'
  exact h1.rotate

/-- Splicing a new node right after any node of the ring. -/
theorem IsRing.link_into {c a n : α} (hr : l.IsRing c ys)
    (ha : a ∈ ys ++ [c]) (hn : n ∉ ys ++ [c]) :
    ∃ as bs, ys = as ++ bs ∧ (l.link n a (l.next a)).IsRing c (as ++ n :: bs) := by
  have hn' : n ∉ c :: ys := fun h => hn ((perm_append_singleton c ys).mem_iff.mpr h)
  rcases mem_append.mp ha with ha | ha
  · obtain ⟨xs, zs, rfl⟩ := append_of_mem ha
    refine ⟨xs ++ [a], zs, by simp, ?_⟩
    rw [List.append_assoc, singleton_append]
    exact hr.link_after hn'
  · obtain rfl : a = c := mem_singleton.mp ha
    exact ⟨[], ys, rfl, hr.link_head hn'⟩

/-- Splicing a new node right before the head. -/
theorem IsRing.link_tail (hr : l.IsRing h xs)
    (hn : n ∉ h :: xs) : (l.link n (l.prev h) h).IsRing h (xs ++ [n]) := by
  rcases eq_nil_or_concat' xs with rfl | ⟨ys, a, rfl⟩
  · have hh := (isRing_nil_iff l h).mp hr
    have h1 := hr.link_head hn
    rw [hh.1] at h1
    rw [hh.2]
    exact h1
  · have hp : l.prev h = a := by rw [hr.prev_head, getLastD_concat]
    have hnx : l.next a = h := by
      have := hr.rotate.next_head
      simpa using this
    have h1 := hr.link_after hn
    rw [hnx] at h1
    rw [hp, List.append_assoc]
    exact h1

/-! ### Removal -/

/-- Insert in front of the first node of a rest. -/
theorem IsRing.link_before (hr : l.IsRing h (xs ++ ys)) (hn : n ∉ h :: (xs ++ ys)) :
    (l.link n (l.prev (ys.headD h)) (ys.headD h)).IsRing h (xs ++ n :: ys) := by
  cases ys with
  | nil =>
    rw [append_nil] at hr hn
    exact hr.link_tail hn
  | cons y ys =>
    have hn' : n ∉ y :: (ys ++ h :: xs) := by
      simp only [mem_cons, mem_append] at hn ⊢
      tauto
    have := hr.rotate.link_tail hn'
    rw [List.append_assoc, List.cons_append] at this
    have hback := this.rotate
    rwa [List.append_assoc, singleton_append] at hback

/-- Unlinking the first element. -/
theorem IsRing.unlink_head (hr : l.IsRing h (n :: xs)) : (l.unlink n).IsRing h xs := by
  have hp : l.prev n = h := hr.1.2.1
  have hd := hr.2
  simp only [nodup_cons, mem_cons, not_or] at hd
  refine ⟨?_, by simpa [nodup_cons] using ⟨hd.1.2, hd.2.2⟩⟩
  cases xs with
  | nil =>
    have hx : l.next n = h := hr.1.2.2.1
    exact ⟨by rw [unlink_next, hp, if_pos rfl, hx], by rw [unlink_prev, hx, if_pos rfl, hp]⟩
  | cons x xs =>
    have hx : l.next n = x := hr.1.2.2.1
    refine ⟨by rw [unlink_next, hp, if_pos rfl, hx], by rw [unlink_prev, hx, if_pos rfl, hp],
      hr.1.2.2.2.2.congr ?_ ?_⟩
    · intro y hy
      have h1 : y ≠ h := by rintro rfl; simp_all
      rw [unlink_next, hp, if_neg h1]
    · intro y hy
      have h1 : y ≠ x := by rintro rfl; simp_all
      rw [unlink_prev, hx, if_neg h1]

/-- Unlinking any element. -/
theorem IsRing.unlink_mem (hr : l.IsRing h (xs ++ n :: ys)) : (l.unlink n).IsRing h (xs ++ ys) := by
  rcases eq_nil_or_concat' xs with rfl | ⟨zs, a, rfl⟩
  · exact hr.unlink_head
  · -- read the ring off from the predecessor `a`, so that `n` comes first
    rw [List.append_assoc] at hr ⊢
    have h0 : l.IsRing h (zs ++ a :: (n :: ys)) := hr
    have h1 : l.IsRing a (n :: (ys ++ h :: zs)) := h0.rotate
    exact h1.unlink_head.rotate

/-- Unlinking followed by making the removed node its own ring. -/
theorem IsRing.remove_mem (hr : l.IsRing h (xs ++ n :: ys)) :
    ((l.unlink n).selfLink n).IsRing h (xs ++ ys) := by
  refine hr.unlink_mem.congr ?_
  intro y hy
  have hd := hr.2
  have hne : y ≠ n := by
    rintro rfl
    grind
  simp [selfLink, hne]

/-! ### Frames -/

/-- A ring that avoids `n`, `a` and `b` does not notice `link n a b`. -/
theorem IsRing.frame_link {h n a b : α} (hr : l.IsRing h xs)
    (hn : n ∉ h :: xs) (ha : a ∉ h :: xs) (hb : b ∉ h :: xs) :
    (l.link n a b).IsRing h xs := by
  refine hr.congr ?_
  intro y hy
  have h1 : y ≠ n := fun he => hn (he ▸ hy)
  have h2 : y ≠ a := fun he => ha (he ▸ hy)
  have h3 : y ≠ b := fun he => hb (he ▸ hy)
  simp [link_next, link_prev, h1, h2, h3]

/-- A ring that avoids `n` and its neighbours does not notice the removal of `n`. -/
theorem IsRing.frame_remove (hr : l.IsRing h xs)
    (hn : n ∉ h :: xs) (hnx : l.next n ∉ h :: xs) (hpv : l.prev n ∉ h :: xs) :
    ((l.unlink n).selfLink n).IsRing h xs := by
  refine hr.congr ?_
  intro y hy
  have h1 : y ≠ n := fun he => hn (he ▸ hy)
  have h2 : y ≠ l.next n := fun he => hnx (he ▸ hy)
  have h3 : y ≠ l.prev n := fun he => hpv (he ▸ hy)
  simp [selfLink, unlink_next, unlink_prev, h1, h2, h3]

/-! ## Families of disjoint rings -/

/-- A family of pairwise disjoint rings, one for each index. -/
structure Rings {ι : Type*} (l : Links α) (head : ι → α) (xs : ι → List α) : Prop where
  ring : ∀ i, l.IsRing (head i) (xs i)
  disj : ∀ i j, i ≠ j → ∀ y ∈ head i :: xs i, y ∉ head j :: xs j

namespace Rings

variable {ι : Type*} [DecidableEq ι] {l : Links α} {head : ι → α} {xs : ι → List α}

section

variable (hR : l.Rings head xs) (i : ι)

include hR

omit [DecidableEq α] in
/-- Disjointness survives a change of one ring that adds only nodes foreign to the others. -/
theorem disj_update (ys : List α)
    (hys : ∀ y ∈ ys, y ∈ xs i ∨ ∀ j, y ∉ head j :: xs j) :
    ∀ j k, j ≠ k → ∀ y ∈ head j :: update xs i ys j,
      y ∉ head k :: update xs i ys k := by
  have key : ∀ k, i ≠ k → ∀ y ∈ head i :: ys, y ∉ head k :: xs k := by
    intro k hik y hy
    rcases mem_cons.mp hy with rfl | hy
    · exact hR.disj i k hik _ mem_cons_self
    · rcases hys y hy with hx | hx
      · exact hR.disj i k hik y (mem_cons_of_mem _ hx)
      · exact hx k
  intro j k hjk y hy
  by_cases hj : j = i
  · subst hj
    rw [update_self] at hy
    rw [update_of_ne hjk.symm]
    exact key k hjk y hy
  · rw [update_of_ne hj] at hy
    by_cases hk : k = i
    · subst hk
      rw [update_self]
      intro hy'
      exact key j (Ne.symm hj) y hy' hy
    · rw [update_of_ne hk]
      exact hR.disj j k hjk y hy

omit [DecidableEq α] in
/-- **A change of one ring** that the other rings do not notice. -/
theorem of_update {l' : Links α} {ys : List α} (hring : l'.IsRing (head i) ys)
    (hframe : ∀ j, j ≠ i → l'.IsRing (head j) (xs j))
    (hys : ∀ y ∈ ys, y ∈ xs i ∨ ∀ j, y ∉ head j :: xs j) : l'.Rings head (update xs i ys) := by
  refine ⟨fun j => ?_, hR.disj_update i ys hys⟩
  by_cases hj : j = i
  · subst hj
    rw [update_self]
    exact hring
  · rw [update_of_ne hj]
    exact hframe j hj

/-- Insert a node foreign to the whole family between two nodes of one ring. -/
theorem of_link {a b n : α} {as bs : List α} (hsplit : xs i = as ++ bs)
    (ha : a ∈ head i :: xs i) (hb : b ∈ head i :: xs i) (hn : ∀ j, n ∉ head j :: xs j)
    (hring : (l.link n a b).IsRing (head i) (as ++ n :: bs)) :
    (l.link n a b).Rings head (update xs i (as ++ n :: bs)) := by
  refine hR.of_update i hring ?_ ?_
  · intro j hj
    exact (hR.ring j).frame_link (hn j) (hR.disj i j hj.symm a ha) (hR.disj i j hj.symm b hb)
  · intro y hy
    rw [hsplit]
    simp only [mem_append, mem_cons] at hy ⊢
    rcases hy with hy | rfl | hy
    · exact Or.inl (Or.inl hy)
    · exact Or.inr fun j => by simpa using hn j
    · exact Or.inl (Or.inr hy)

/-- Insert a node foreign to the whole family at the front of one ring. -/
theorem link_head {n : α} (hn : ∀ j, n ∉ head j :: xs j) :
    (l.link n (head i) (l.next (head i))).Rings head (update xs i (n :: xs i)) :=
  hR.of_link i (nil_append _).symm mem_cons_self ((hR.ring i).next_mem mem_cons_self) hn
    ((hR.ring i).link_head (hn i))

/-- Insert a node foreign to the whole family at the end of one ring. -/
theorem link_tail {n : α} (hn : ∀ j, n ∉ head j :: xs j) :
    (l.link n (l.prev (head i)) (head i)).Rings head (update xs i (xs i ++ [n])) :=
  hR.of_link i (append_nil _).symm ((hR.ring i).prev_mem mem_cons_self) mem_cons_self hn
    ((hR.ring i).link_tail (hn i))

/-- Insert a node foreign to the whole family right after any node of one ring. -/
theorem link_into {a n : α} (ha : a ∈ xs i ++ [head i])
    (hn : ∀ j, n ∉ head j :: xs j) :
    ∃ as bs, xs i = as ++ bs ∧
      (l.link n a (l.next a)).Rings head (update xs i (as ++ n :: bs)) := by
  have hperm := perm_append_singleton (head i) (xs i)
  have ha' : a ∈ head i :: xs i := hperm.mem_iff.mp ha
  have hn' : n ∉ xs i ++ [head i] := fun h => hn i (hperm.mem_iff.mp h)
  obtain ⟨as, bs, hsplit, hring⟩ := (hR.ring i).link_into ha hn'
  exact ⟨as, bs, hsplit, hR.of_link i hsplit ha' ((hR.ring i).next_mem ha') hn hring⟩

omit [DecidableEq α] in
/-- Read off one ring from another of its nodes. -/
theorem turn {r : α} {as bs : List α}
    (h : xs i ++ [head i] = as ++ r :: bs) :
    l.Rings (update head i r) (update xs i (bs ++ as)) := by
  -- the nodes of every ring are the same as before
  have hmem : ∀ j y, y ∈ update head i r j :: update xs i (bs ++ as) j ↔
      y ∈ head j :: xs j := by
    intro j y
    by_cases hj : j = i
    · subst hj
      have hy : y ∈ xs j ++ [head j] ↔ y ∈ as ++ r :: bs := by rw [h]
      simp only [mem_append, mem_cons, not_mem_nil, or_false] at hy
      simp only [update_self, mem_cons, mem_append]
      tauto
    · rw [update_of_ne hj, update_of_ne hj]
  refine ⟨?_, ?_⟩
  · intro j
    by_cases hj : j = i
    · subst hj
      rw [update_self, update_self]
      exact (hR.ring j).rotate_to h
    · rw [update_of_ne hj, update_of_ne hj]
      exact hR.ring j
  · intro j k hjk y hy
    rw [hmem] at hy ⊢
    exact hR.disj j k hjk y hy

/-- Take a node out of its ring. -/
theorem remove {n : α} {as bs : List α}
    (hi : xs i = as ++ n :: bs) :
    ((l.unlink n).selfLink n).Rings head (update xs i (as ++ bs)) := by
  have hmem : n ∈ head i :: xs i := by rw [hi]; simp
  refine hR.of_update i (IsRing.remove_mem (hi ▸ hR.ring i)) ?_ ?_
  · intro j hj
    exact (hR.ring j).frame_remove (hR.disj i j hj.symm n hmem)
      (hR.disj i j hj.symm _ ((hR.ring i).next_mem hmem))
      (hR.disj i j hj.symm _ ((hR.ring i).prev_mem hmem))
  · intro y hy
    left
    rw [hi]
    simp only [mem_append, mem_cons] at hy ⊢
    tauto

end

end Rings

end Links
