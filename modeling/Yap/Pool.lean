/-
# Pools of units

A supply of numbered units that are handed out one at a time, given back one at a time, or
taken out several at a time for good.  A pool is a state with these operations; what is free
in a state is a predicate, and the laws say how the operations change it.

The units that are out stand in slots.  `Held` says that none stands in two of them and that
none is free; it follows a unit from the pool into a slot and back.
-/
import Mathlib.Algebra.Order.Group.Nat

namespace Yap

open List

/-- A pool of units with states in `α`. -/
structure Pool (α : Type) where
  /-- the units that are free -/
  free : α → ℕ → Prop
  alloc : α → Option (ℕ × α)
  allocBlock : α → Option α
  release : α → ℕ → α
  free_of_alloc : ∀ {a a' : α} {p : ℕ}, alloc a = some (p, a') → free a p
  free_after_alloc : ∀ {a a' : α} {p : ℕ}, alloc a = some (p, a') →
    ∀ q, free a' q ↔ free a q ∧ q ≠ p
  free_after_block : ∀ {a a' : α}, allocBlock a = some a' → ∀ q, free a' q → free a q
  free_release : ∀ (a : α) (p q : ℕ), free (release a p) q ↔ free a q ∨ q = p

/-! ## Who holds a unit -/

/-- `H x p` says that the unit `p` stands in the slot `x`: each unit stands in one slot at
most, and is not free then. -/
structure Pool.Held {α ι : Type} (P : Pool α) (H : ι → ℕ → Prop) (a : α) : Prop where
  unique : ∀ {x y : ι} {p : ℕ}, H x p → H y p → x = y
  not_free : ∀ {x : ι} {p : ℕ}, H x p → ¬ P.free a p

namespace Pool.Held

variable {α ι : Type} {P : Pool α} {H H' : ι → ℕ → Prop} {a a' : α} {p : ℕ}

/-- Units leave slots, or the pool. -/
theorem mono (h : P.Held H a) (hH : ∀ x q, H' x q → H x q) (ha : ∀ q, P.free a' q → P.free a q) :
    P.Held H' a' :=
  ⟨fun hx hy => h.unique (hH _ _ hx) (hH _ _ hy),
    fun hx hq => h.not_free (hH _ _ hx) (ha _ hq)⟩

/-- A unit that is handed out stands in no slot yet. -/
theorem alloc (h : P.Held H a) (ha : P.alloc a = some (p, a')) :
    P.Held H a' ∧ ¬ P.free a' p ∧ ∀ x, ¬ H x p := by
  refine ⟨h.mono (fun _ _ hx => hx) fun q hq => ?_, fun hp => ?_, fun x hx => ?_⟩
  · exact ((P.free_after_alloc ha q).mp hq).1
  · exact ((P.free_after_alloc ha p).mp hp).2 rfl
  · exact h.not_free hx (P.free_of_alloc ha)

/-- A unit that is out of the pool and stands nowhere is put into the slot `x`. -/
theorem put (h : P.Held H a) (hp : ¬ P.free a p) (hout : ∀ y, ¬ H y p) {x : ι}
    (hH : ∀ y q, H' y q → H y q ∨ y = x ∧ q = p) : P.Held H' a := by
  refine ⟨fun {y z q} hy hz => ?_, fun {y q} hy hq => ?_⟩
  · rcases hH y q hy with hy | ⟨rfl, rfl⟩
    · rcases hH z q hz with hz | ⟨rfl, rfl⟩
      · exact h.unique hy hz
      · exact absurd hy (hout y)
    · rcases hH z _ hz with hz | ⟨rfl, _⟩
      · exact absurd hz (hout z)
      · rfl
  · rcases hH y q hy with hy | ⟨_, rfl⟩
    · exact h.not_free hy hq
    · exact hp hq

/-- A unit that stands nowhere is given back. -/
theorem release (h : P.Held H a) (hout : ∀ y, ¬ H y p) : P.Held H (P.release a p) := by
  refine ⟨h.unique, fun {y q} hy hq => ?_⟩
  rcases (P.free_release a p q).mp hq with hq | rfl
  · exact h.not_free hy hq
  · exact hout y hy

end Pool.Held

/-! ## Pools as lists -/

/-- The pool of the units in a list, which are handed out from its head; a block is `k` units. -/
def listPool (k : ℕ) : Pool (List ℕ) where
  free l p := p ∈ l
  alloc l :=
    match l with
    | [] => none
    | p :: l => some (p, l.filter (· ≠ p))
  allocBlock l := if k ≤ l.length then some (l.drop k) else none
  release l p := p :: l
  free_of_alloc := by
    intro a a' p h
    cases a with
    | nil => cases h
    | cons q l =>
      rw [Option.some.injEq, Prod.mk.injEq] at h
      rw [← h.1]
      exact mem_cons_self
  free_after_alloc := by
    intro a a' p h q
    cases a with
    | nil => cases h
    | cons r l =>
      rw [Option.some.injEq, Prod.mk.injEq] at h
      obtain ⟨rfl, rfl⟩ := h
      rw [mem_filter, mem_cons, decide_eq_true_eq]
      exact ⟨fun hq => ⟨Or.inr hq.1, hq.2⟩, fun hq => ⟨hq.1.resolve_left hq.2, hq.2⟩⟩
  free_after_block := by
    intro a a' h q hq
    split_ifs at h
    rw [← Option.some.inj h] at hq
    exact mem_of_mem_drop hq
  free_release := by
    intro a p q
    rw [mem_cons, or_comm]

end Yap
