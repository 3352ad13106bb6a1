/-
# Serving in turns

General facts about a list that is searched from its beginning and is then turned so that
what was found stands at its end.  Only the elements that can be found matter: they form a
queue whose first element goes to the back (`filter_turn`), whatever stands between them
(`filter_insert`).  A queue that is served as often as it is long has served each of its
elements once (`serve_length`).
-/
import Mathlib.Data.List.Basic

namespace RoundRobin

open List

variable {α : Type*}

/-- What the first `n` turns serve, when the element served goes to the back. -/
def serve : ℕ → List α → List α
  | 0, _ => []
  | _ + 1, [] => []
  | n + 1, x :: q => x :: serve n (q ++ [x])

theorem serve_append (q r : List α) : serve q.length (q ++ r) = q := by
  induction q generalizing r with
  | nil => cases r <;> rfl
  | cons x q ih =>
    simp only [length_cons, List.cons_append, serve]
    rw [List.append_assoc, ih]

/-- **One round.**  As many turns as the queue is long serve the queue. -/
theorem serve_length (q : List α) : serve q.length q = q := by
  simpa using serve_append q []

/-- The first element with `P` goes to the end of the list; in the queue of the elements with
`P`, this is the step from `r :: q` to `q ++ [r]`. -/
theorem filter_turn {P : α → Bool} {r : α} {as : List α} (has : ∀ x ∈ as, ¬ P x) (hr : P r)
    (bs : List α) :
    (as ++ r :: bs).filter P = r :: bs.filter P ∧
      ((bs ++ as) ++ [r]).filter P = bs.filter P ++ [r] := by
  have hnil : as.filter P = [] := filter_eq_nil_iff.mpr has
  constructor
  · rw [filter_append, hnil, filter_cons_of_pos hr, nil_append]
  · rw [filter_append, filter_append, hnil, append_nil,
      filter_cons_of_pos hr, filter_nil]

/-- A new element without `P` does not show in the queue. -/
theorem filter_insert {P : α → Bool} {n : α} (hn : ¬ P n) (as bs : List α) :
    (as ++ n :: bs).filter P = (as ++ bs).filter P := by
  rw [filter_append, filter_append, filter_cons_of_neg hn]

end RoundRobin
