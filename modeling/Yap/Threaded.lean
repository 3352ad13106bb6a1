/-
# Threaded lists

General infrastructure for lists threaded through an array: element `x` is followed
by `next x`, and the list ends at a sentinel `e`.  A free list kept inside an array of
slots is the usual example.

`Chain next e a xs` says that the list that starts at `a` visits exactly `xs`.  The
chain is determined by its start (`Chain.unique`); it changes by pushing and popping at
the front (`Chain.push`, `Chain.pop`), by hooking an element in at the end (`Chain.snoc`)
and by taking one out of the middle (`Chain.unlink`).
-/
import Mathlib

variable {α : Type*}

/-- From `a` on, `next` visits `xs` and then reaches the sentinel `e`. -/
def Chain (next : α → α) (e : α) : α → List α → Prop
  | a, [] => a = e
  | a, x :: xs => a = x ∧ x ≠ e ∧ Chain next e (next x) xs

namespace Chain

open List

variable {next next' : α → α} {e a : α} {xs ys : List α}

/-- A chain is empty exactly when it starts at the sentinel. -/
theorem nil_iff (h : Chain next e a xs) : a = e ↔ xs = [] := by
  cases xs with
  | nil => exact ⟨fun _ => rfl, fun _ => h⟩
  | cons x xs =>
    obtain ⟨rfl, hne, _⟩ := h
    simp [hne]

/-- A chain that does not start at the sentinel starts with its first element. -/
theorem eq_cons (h : Chain next e a xs) (ha : a ≠ e) :
    ∃ ys, xs = a :: ys ∧ Chain next e (next a) ys := by
  cases xs with
  | nil => exact absurd h ha
  | cons x ys =>
    obtain ⟨rfl, _, hys⟩ := h
    exact ⟨ys, rfl, hys⟩

/-- A chain only depends on the successors of its own elements. -/
theorem congr (h : Chain next e a xs) (heq : ∀ x ∈ xs, next' x = next x) :
    Chain next' e a xs := by
  induction xs generalizing a with
  | nil => exact h
  | cons x xs ih =>
    obtain ⟨rfl, hne, hxs⟩ := h
    refine ⟨rfl, hne, ?_⟩
    rw [heq a mem_cons_self]
    exact ih hxs (fun y hy => heq y (mem_cons_of_mem _ hy))

/-- The start determines the chain. -/
theorem unique (hx : Chain next e a xs) (hy : Chain next e a ys) : xs = ys := by
  induction xs generalizing a ys with
  | nil => exact ((hy.nil_iff).mp hx).symm
  | cons x xs ih =>
    obtain ⟨rfl, hne, hxs⟩ := hx
    obtain ⟨zs, rfl, hzs⟩ := hy.eq_cons hne
    rw [ih hxs hzs]

/-- A chain can be entered at any of its elements. -/
theorem drop_until {x : α} (h : Chain next e a (xs ++ x :: ys)) : Chain next e x (x :: ys) := by
  induction xs generalizing a with
  | nil =>
    obtain ⟨rfl, hne, hys⟩ := h
    exact ⟨rfl, hne, hys⟩
  | cons z zs ih => exact ih h.2.2

/-- A chain does not come back to an element: it would never end. -/
theorem nodup (h : Chain next e a xs) : xs.Nodup := by
  induction xs generalizing a with
  | nil => exact nodup_nil
  | cons x xs ih =>
    refine nodup_cons.mpr ⟨?_, ih h.2.2⟩
    intro hmem
    obtain ⟨l, r, rfl⟩ := append_of_mem hmem
    have hfront : Chain next e x (x :: (l ++ x :: r)) := ⟨rfl, h.2⟩
    have hback : Chain next e x (x :: r) := h.2.2.drop_until
    have hlen := congrArg List.length (hfront.unique hback)
    simp only [length_cons, length_append] at hlen
    omega

/-- Hook a new element in behind the last one. -/
theorem snoc {x y : α} (h : Chain next e a (xs ++ [y])) (hx : x ≠ e) (hy : next' y = x)
    (hend : next' x = e) (heq : ∀ z ∈ xs, next' z = next z) :
    Chain next' e a (xs ++ [y, x]) := by
  induction xs generalizing a with
  | nil =>
    obtain ⟨rfl, hne, _⟩ := h
    refine ⟨rfl, hne, ?_⟩
    rw [hy]
    exact ⟨rfl, hx, hend⟩
  | cons z zs ih =>
    obtain ⟨rfl, hne, hzs⟩ := h
    refine ⟨rfl, hne, ?_⟩
    rw [heq a mem_cons_self]
    exact ih hzs (fun w hw => heq w (mem_cons_of_mem _ hw))

/-- Take the first element off. -/
theorem pop {x : α} (h : Chain next e a (x :: xs)) : Chain next e (next a) xs := by
  obtain ⟨rfl, _, hxs⟩ := h
  exact hxs

/-- Take an element out behind its predecessor. -/
theorem unlink {x y : α} (h : Chain next e a (xs ++ y :: x :: ys)) (hy : next' y = next x)
    (hxs : ∀ z ∈ xs, next' z = next z) (hys : ∀ z ∈ ys, next' z = next z) :
    Chain next' e a (xs ++ y :: ys) := by
  induction xs generalizing a with
  | nil =>
    obtain ⟨rfl, hne, rfl, _, hrest⟩ := h
    refine ⟨rfl, hne, ?_⟩
    rw [hy]
    exact hrest.congr hys
  | cons z zs ih =>
    obtain ⟨rfl, hne, hzs⟩ := h
    refine ⟨rfl, hne, ?_⟩
    rw [hxs a mem_cons_self]
    exact ih hzs fun w hw => hxs w (mem_cons_of_mem _ hw)

variable [DecidableEq α]

/-- Put a new element in front. -/
theorem push (h : Chain next e a xs) {x : α} (hx : x ∉ xs) (he : x ≠ e) :
    Chain (Function.update next x a) e x (x :: xs) := by
  refine ⟨rfl, he, ?_⟩
  rw [Function.update_self]
  refine h.congr ?_
  intro y hy
  have hyx := ne_of_mem_of_not_mem hy hx
  exact Function.update_of_ne hyx _ _

end Chain
