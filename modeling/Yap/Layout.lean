/-
# Where the nodes of a heap are

`Ring.lean` follows the nodes that are on a list.  A node of a record that comes and goes is not
always on one: it may be a ring of its own, ready to be linked in, or still have the null links of
fresh memory.  `Place` says which of these a node is in, and `Layout` that the links agree with a
given place for every node.

The rules follow one node through its life.  Linking takes a node that is on no list to a list;
removing takes any node to a ring of its own, wherever it was before; clearing takes it back to
null links.  Each changes the place of this one node and of no other.
-/
import Yap.Ring

/-- Where a node is: on the list with the given index, alone, with null links, or pinned because
it is the head of a list or the null node itself. -/
inductive Place (ι : Type*) where
  | on (i : ι)
  | loose
  | unset
  | pinned
  deriving DecidableEq

/-- On no list, and not pinned. -/
abbrev Place.Off {ι : Type*} (p : Place ι) : Prop := p = .loose ∨ p = .unset

namespace Links

open List
open Function (update_of_ne update_self update)

variable {α ι : Type*} {l : Links α} {head : ι → α} {null : α} {xs : ι → List α}
  {place : α → Place ι}

/-- The links agree with the places: the lists are disjoint rings through the nodes placed on
them, and the links of the other nodes are those of a node alone or of fresh memory. -/
structure Layout (l : Links α) (head : ι → α) (null : α) (xs : ι → List α) (place : α → Place ι) :
    Prop where
  rings : l.Rings head xs
  mem_iff : ∀ i n, n ∈ xs i ↔ place n = .on i
  loose : ∀ n, place n = .loose → l.IsRing n []
  unset : ∀ n, place n = .unset → l.next n = null ∧ l.prev n = null
  pinned : ∀ n, place n = .pinned ↔ n = null ∨ ∃ i, n = head i
  null : ∀ i, head i ≠ null

namespace Layout

section

variable (h : l.Layout head null xs place)

include h

/-- A node that is not pinned and is on no list. -/
theorem not_mem_ring {n : α} (hn : (place n).Off) (i : ι) : n ∉ head i :: xs i := by
  intro hmem
  rcases mem_cons.mp hmem with rfl | hmem
  · rw [(h.pinned (head i)).mpr (Or.inr ⟨i, rfl⟩)] at hn
    rcases hn with hn | hn <;> cases hn
  · rw [(h.mem_iff i n).mp hmem] at hn
    rcases hn with hn | hn <;> cases hn

theorem null_not_mem (i : ι) : null ∉ head i :: xs i := by
  intro hmem
  rcases mem_cons.mp hmem with heq | hmem
  · exact h.null i heq.symm
  · have hp := (h.pinned null).mpr (Or.inl rfl)
    rw [(h.mem_iff i null).mp hmem] at hp
    cases hp

/-- A node on a list is not its own neighbour. -/
theorem next_ne_self {n : α} {i : ι} (hn : place n = .on i) :
    l.next n ≠ n := by
  obtain ⟨as, bs, hsplit⟩ := append_of_mem ((h.mem_iff i n).mpr hn)
  have hring := h.rings.ring i
  rw [hsplit] at hring
  rw [ne_eq, hring.rotate.next_head_eq_iff]
  simp

/-- No other node has a link to a node that is on no list, but for the null node. -/
theorem links_ne {n m : α}
    (hn : (place n).Off) (hm : m ≠ n) (hnull : m ≠ null) :
    l.next m ≠ n ∧ l.prev m ≠ n := by
  have hring : ∀ i, m ∈ head i :: xs i → l.next m ≠ n ∧ l.prev m ≠ n := by
    intro i hmem
    have hout := h.not_mem_ring hn i
    exact ⟨fun he => hout (he ▸ (h.rings.ring i).next_mem hmem),
      fun he => hout (he ▸ (h.rings.ring i).prev_mem hmem)⟩
  cases hplace : place m with
  | on i => exact hring i (mem_cons_of_mem _ ((h.mem_iff i m).mpr hplace))
  | loose =>
    obtain ⟨hnext, hprev⟩ := (isRing_nil_iff l m).mp (h.loose m hplace)
    rw [hnext, hprev]
    exact ⟨hm, hm⟩
  | unset =>
    have hne : null ≠ n := by
      rintro rfl
      rw [(h.pinned null).mpr (Or.inl rfl)] at hn
      rcases hn with hn | hn <;> cases hn
    obtain ⟨hnext, hprev⟩ := h.unset m hplace
    rw [hnext, hprev]
    exact ⟨hne, hne⟩
  | pinned =>
    rcases (h.pinned m).mp hplace with heq | ⟨i, rfl⟩
    · exact absurd heq hnull
    · exact hring i mem_cons_self

end

variable [DecidableEq α]

section

variable (h : l.Layout head null xs place)

include h

variable {l' : Links α} {n : α} {p : Place ι}

/-- **One node moves.**  If the nodes that are on no list keep their links, but for `n`, and the
lists and the links of `n` are those of its new place, then all links agree with the places. -/
theorem put {xs' : ι → List α} (hn : place n ≠ .pinned) (hp : p ≠ .pinned) (hrings : l'.Rings head xs')
    (hmem : ∀ i m, m ∈ xs' i ↔ update place n p m = .on i)
    (heq : ∀ m, m ≠ n → (place m).Off →
      l'.next m = l.next m ∧ l'.prev m = l.prev m)
    (hloose : p = .loose → l'.IsRing n [])
    (hunset : p = .unset → l'.next n = null ∧ l'.prev n = null) :
    l'.Layout head null xs' (update place n p) := by
  refine ⟨hrings, hmem, ?_, ?_, ?_, h.null⟩
  · intro m hm
    by_cases hmn : m = n
    · subst hmn
      rw [update_self] at hm
      exact hloose hm
    · rw [update_of_ne hmn] at hm
      obtain ⟨hnext, hprev⟩ := heq m hmn (Or.inl hm)
      rw [isRing_nil_iff, hnext, hprev]
      exact (isRing_nil_iff l m).mp (h.loose m hm)
  · intro m hm
    by_cases hmn : m = n
    · subst hmn
      rw [update_self] at hm
      exact hunset hm
    · rw [update_of_ne hmn] at hm
      obtain ⟨hnext, hprev⟩ := heq m hmn (Or.inr hm)
      rw [hnext, hprev]
      exact h.unset m hm
  · intro m
    rw [← h.pinned]
    by_cases hmn : m = n
    · subst hmn
      rw [update_self]
      exact iff_of_false hp hn
    · rw [update_of_ne hmn]

/-- Give a node that is on no list the links of a node alone, or null links; no other node but
the null node changes. -/
theorem put_off (hn : (place n).Off) (hp : p.Off)
    (heq : ∀ m, m ≠ n → m ≠ null → l'.next m = l.next m ∧ l'.prev m = l.prev m)
    (hloose : p = .loose → l'.IsRing n [])
    (hunset : p = .unset → l'.next n = null ∧ l'.prev n = null) :
    l'.Layout head null xs (update place n p) := by
  have hsame : ∀ i, ∀ y ∈ head i :: xs i, l'.next y = l.next y ∧ l'.prev y = l.prev y := by
    intro i y hy
    refine heq y ?_ ?_
    · rintro rfl
      exact h.not_mem_ring hn i hy
    · rintro rfl
      exact h.null_not_mem i hy
  refine h.put ?_ ?_ ⟨fun i => (h.rings.ring i).congr (hsame i), h.rings.disj⟩ ?_ ?_ hloose hunset
  · rcases hn with hn | hn <;> rw [hn] <;> exact nofun
  · rcases hp with rfl | rfl <;> exact nofun
  · intro i m
    by_cases hm : m = n
    · subst hm
      rw [update_self]
      refine iff_of_false (fun hmem => h.not_mem_ring hn i (mem_cons_of_mem _ hmem)) ?_
      rcases hp with rfl | rfl <;> exact nofun
    · rw [update_of_ne hm, h.mem_iff]
  · intro m hm hplace
    refine heq m hm ?_
    rintro rfl
    rw [(h.pinned m).mpr (Or.inl rfl)] at hplace
    rcases hplace with hplace | hplace <;> cases hplace

/-- Make a node that is on no list a ring of its own. -/
theorem selfLink (hn : (place n).Off) :
    (l.selfLink n).Layout head null xs (update place n .loose) := by
  refine h.put_off hn (Or.inl rfl) ?_ (fun _ => isRing_selfLink l n) nofun
  intro m hm _
  simp [Links.selfLink, hm]

/-- Give a node that is on no list null links. -/
theorem clear (hn : (place n).Off) :
    ((l.setNext n null).setPrev n null).Layout head null xs (update place n .unset) := by
  refine h.put_off hn (Or.inr rfl) ?_ nofun fun _ => ⟨by simp, by simp⟩
  intro m hm _
  simp [hm]

end

variable [DecidableEq ι]

section

variable (h : l.Layout head null xs place)

include h

/-- Splice a node that is on no list between two neighbours of a ring. -/
theorem link (i : ι) {n a b : α} {ys : List α}
    (hn : (place n).Off) (ha : a ∈ head i :: xs i) (hb : b ∈ head i :: xs i)
    (hrings : (l.link n a b).Rings head (update xs i ys))
    (hys : ∀ m, m ∈ ys ↔ m = n ∨ m ∈ xs i) :
    (l.link n a b).Layout head null (update xs i ys)
      (update place n (.on i)) := by
  refine h.put ?_ nofun hrings ?_ ?_ nofun nofun
  · rcases hn with hn | hn <;> rw [hn] <;> exact nofun
  · intro j m
    by_cases hm : m = n
    · subst hm
      by_cases hj : j = i
      · subst hj
        simp [hys]
      · rw [update_of_ne hj]
        refine iff_of_false (fun hmem => ?_) (by simpa using Ne.symm hj)
        exact h.not_mem_ring hn j (mem_cons_of_mem _ hmem)
    · rw [update_of_ne hm, ← h.mem_iff]
      by_cases hj : j = i
      · subst hj
        simp [hys, hm]
      · rw [update_of_ne hj]
  · intro m hm hplace
    have hring := h.not_mem_ring hplace i
    have hma : m ≠ a := fun he => hring (he ▸ ha)
    have hmb : m ≠ b := fun he => hring (he ▸ hb)
    simp [link_next, link_prev, hm, hma, hmb]

theorem link_head (i : ι) {n : α} (hn : (place n).Off) :
    (l.link n (head i) (l.next (head i))).Layout head null
      (update xs i (n :: xs i)) (update place n (.on i)) :=
  h.link i hn mem_cons_self ((h.rings.ring i).next_mem mem_cons_self)
    (h.rings.link_head i (h.not_mem_ring hn)) fun _ => mem_cons

theorem link_tail (i : ι) {n : α} (hn : (place n).Off) :
    (l.link n (l.prev (head i)) (head i)).Layout head null
      (update xs i (xs i ++ [n])) (update place n (.on i)) :=
  h.link i hn ((h.rings.ring i).prev_mem mem_cons_self) mem_cons_self
    (h.rings.link_tail i (h.not_mem_ring hn)) fun m => by simp [or_comm]

/-- Take a node out of the list it is on. -/
theorem remove_on {n : α} {i : ι} (hn : place n = .on i) :
    ((l.unlink n).selfLink n).Layout head null (fun j => (xs j).erase n)
      (update place n .loose) := by
  obtain ⟨as, bs, hsplit⟩ := append_of_mem ((h.mem_iff i n).mpr hn)
  have hring := h.rings.ring i
  have hnodup : (as ++ n :: bs).Nodup := by
    rw [← hsplit]
    exact (nodup_cons.mp hring.2).2
  have hnas : n ∉ as := fun hmem =>
    (nodup_append.mp hnodup).2.2 n hmem n mem_cons_self rfl
  -- erasing the node changes the one list it is on
  have hxs : (fun j => (xs j).erase n) = update xs i (as ++ bs) := by
    funext j
    by_cases hj : j = i
    · subst hj
      rw [update_self, hsplit, erase_append_right _ hnas, erase_cons_head]
    · rw [update_of_ne hj, erase_of_not_mem]
      intro hmem
      have hon := (h.mem_iff j n).mp hmem
      rw [hn] at hon
      exact hj (Place.on.inj hon).symm
  have hmem : n ∈ head i :: xs i := mem_cons_of_mem _ ((h.mem_iff i n).mpr hn)
  refine h.put (by rw [hn]; exact nofun) nofun ?_ ?_ ?_ (fun _ => isRing_selfLink _ n) nofun
  · rw [hxs]
    exact h.rings.remove i hsplit
  · intro j m
    have hj := (nodup_cons.mp (h.rings.ring j).2).2
    rw [hj.mem_erase_iff, h.mem_iff]
    by_cases hm : m = n
    · subst hm
      simp
    · rw [update_of_ne hm]
      exact and_iff_right hm
  · intro m hm hplace
    have hout := h.not_mem_ring hplace i
    have hnext : m ≠ l.next n := fun he => hout (he ▸ hring.next_mem hmem)
    have hprev : m ≠ l.prev n := fun he => hout (he ▸ hring.prev_mem hmem)
    simp [Links.selfLink, unlink_next, unlink_prev, hm, hnext, hprev]

/-- **Removal.**  Wherever a node is, removing it takes it out of all lists and leaves it alone.
With null links, the removal writes to the null node and to nothing else. -/
theorem remove {n : α} (hn : place n ≠ .pinned) :
    ((l.unlink n).selfLink n).Layout head null (fun j => (xs j).erase n)
      (update place n .loose) := by
  -- off the lists, both neighbours are the node itself or the null node
  have hoff : (place n).Off →
      (∀ m, m ≠ n → m ≠ null → m ≠ l.next n ∧ m ≠ l.prev n) →
      ((l.unlink n).selfLink n).Layout head null (fun j => (xs j).erase n)
        (update place n .loose) := by
    intro hplace hne
    have hxs : (fun j => (xs j).erase n) = xs := by
      funext j
      exact erase_of_not_mem fun hmem =>
        h.not_mem_ring hplace j (mem_cons_of_mem _ hmem)
    rw [hxs]
    refine h.put_off hplace (Or.inl rfl) ?_ (fun _ => isRing_selfLink _ n) nofun
    intro m hm hnull
    obtain ⟨hnext, hprev⟩ := hne m hm hnull
    simp [Links.selfLink, unlink_next, unlink_prev, hm, hnext, hprev]
  cases hplace : place n with
  | on i => exact h.remove_on hplace
  | loose =>
    obtain ⟨hnext, hprev⟩ := (isRing_nil_iff l n).mp (h.loose n hplace)
    refine hoff (Or.inl hplace) ?_
    intro m hm _
    rw [hnext, hprev]
    exact ⟨hm, hm⟩
  | unset =>
    obtain ⟨hnext, hprev⟩ := h.unset n hplace
    refine hoff (Or.inr hplace) ?_
    intro m _ hnull
    rw [hnext, hprev]
    exact ⟨hnull, hnull⟩
  | pinned => exact absurd hplace hn

end

end Layout

end Links
