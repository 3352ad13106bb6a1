/-
# The first match in a list

A search that walks over a list and takes the first element that passes a test often
tests less than it should.  `find?_eq_find?_iff` says when the coarse test finds what
the fine one would, and `find?_key_eq_some_iff` what the fine one finds when keys are
distinct.
-/
import Mathlib.Data.List.Basic

namespace FirstMatch

open List

/-- When `q` is finer than `p`, the first element with `p` is the first with `q` exactly
if every element that has only `p` stands behind one that has `q`. -/
theorem find?_eq_find?_iff {α : Type*} {p q : α → Bool} (l : List α)
    (hqp : ∀ x ∈ l, q x → p x) :
    l.find? p = l.find? q ↔
      ∀ pre x post, l = pre ++ x :: post → p x → ¬ q x → ∃ y ∈ pre, q y := by
  constructor
  · intro h pre x post hl hpx hqx
    -- if no element before `x` had `q`, the two searches would part at `x` at the latest
    by_contra hno
    push Not at hno
    cases hp : pre.find? p with
    | none =>
      have hx : l.find? p = some x := by simp [hl, hp, hpx]
      rw [h] at hx
      exact hqx (find?_some hx)
    | some y =>
      have hy : l.find? p = some y := by simp [hl, hp]
      have hmem := mem_of_find?_eq_some hp
      rw [h] at hy
      exact hno y hmem (find?_some hy)
  · induction l with
    | nil => intro _; rfl
    | cons x xs ih =>
      intro h
      by_cases hpx : p x
      · have hqx : q x := by
          by_contra hqx
          obtain ⟨y, hy, -⟩ := h [] x xs rfl hpx hqx
          exact absurd hy not_mem_nil
        rw [find?_cons_of_pos hpx, find?_cons_of_pos hqx]
      · have hqx : ¬ q x := fun hq => hpx (hqp x mem_cons_self hq)
        rw [find?_cons_of_neg hpx, find?_cons_of_neg hqx]
        apply ih (fun y hy => hqp y (mem_cons_of_mem _ hy))
        intro pre z post hl hpz hqz
        obtain ⟨y, hy, hqy⟩ := h (x :: pre) z post (by rw [hl]; rfl) hpz hqz
        rcases mem_cons.mp hy with rfl | hy
        · exact absurd hqy hqx
        · exact ⟨y, hy, hqy⟩

/-- In a list without two equal keys, the first element with a key is the only one. -/
theorem find?_key_eq_some_iff {α κ : Type*} [DecidableEq κ] (key : α → κ) {l : List α}
    (hl : l.Pairwise (fun x y => key x ≠ key y)) (k : κ) (x : α) :
    l.find? (fun y => key y = k) = some x ↔ x ∈ l ∧ key x = k := by
  induction hl with
  | nil => simp
  | @cons y ys hy _ ih =>
    by_cases hk : key y = k
    · rw [find?_cons_of_pos (by simpa using hk), Option.some_inj, mem_cons]
      constructor
      · rintro rfl
        exact ⟨Or.inl rfl, hk⟩
      · rintro ⟨rfl | hx, hxk⟩
        · rfl
        · exact absurd (hk.trans hxk.symm) (hy x hx)
    · rw [find?_cons_of_neg (by simpa using hk), ih, mem_cons]
      constructor
      · rintro ⟨hx, hxk⟩
        exact ⟨Or.inr hx, hxk⟩
      · rintro ⟨rfl | hx, hxk⟩
        · exact absurd hxk hk
        · exact ⟨hx, hxk⟩

end FirstMatch
