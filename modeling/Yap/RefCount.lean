/-
# Counting references

A finite set of places, each of which may refer to an object: `refs S e k` is the number of
places that refer to `k`.  The lemmas say how the number changes when one place is filled or
emptied and when places are added.
-/
import Mathlib.Data.Finset.Card

namespace Yap

namespace RefCount

open Function

variable {ι κ : Type*} [DecidableEq ι] [DecidableEq κ]

/-- The number of places in `S` that refer to `k`. -/
def refs (S : Finset ι) (e : ι → Option κ) (k : κ) : ℕ := (S.filter (fun p => e p = some k)).card

variable {S T : Finset ι} {e e' : ι → Option κ} {p : ι} {k f : κ}

omit [DecidableEq ι] in
theorem refs_eq_zero_iff : refs S e k = 0 ↔ ∀ p ∈ S, e p ≠ some k := by
  rw [refs, Finset.card_eq_zero, Finset.filter_eq_empty_iff]

/-- An empty place is filled. -/
theorem refs_fill (hp : p ∈ S) (h : e p = none) :
    refs S (update e p (some f)) k = refs S e k + if k = f then 1 else 0 := by
  have hold : p ∉ S.filter (fun q => e q = some k) := by
    rw [Finset.mem_filter, h]
    simp
  by_cases hk : k = f
  · have hset : S.filter (fun q => update e p (some f) q = some k) =
        insert p (S.filter (fun q => e q = some k)) := by
      ext q
      by_cases hq : q = p
      · subst hq
        simp [hp, hk]
      · simp [hq]
    rw [refs, hset, Finset.card_insert_of_notMem hold, if_pos hk, refs]
  · have hset : S.filter (fun q => update e p (some f) q = some k) =
        S.filter (fun q => e q = some k) := by
      ext q
      by_cases hq : q = p
      · subst hq
        simp [h, Ne.symm hk]
      · simp [hq]
    rw [refs, hset, if_neg hk, refs, Nat.add_zero]

/-- A place that refers to `f` is emptied. -/
theorem refs_empty (hp : p ∈ S) (h : e p = some f) :
    refs S (update e p none) k + (if k = f then 1 else 0) = refs S e k := by
  -- filling the place again gives back `e`
  have hback : e = update (update e p none) p (some f) := by
    rw [update_idem, ← h, update_eq_self]
  conv_rhs => rw [hback]
  rw [refs_fill hp (update_self _ _ _)]

omit [DecidableEq ι] in
theorem refs_congr (h : ∀ p ∈ S, e' p = e p) : refs S e' k = refs S e k := by
  rw [refs, refs]
  congr 1
  apply Finset.filter_congr
  intro p hp
  rw [h p hp]

omit [DecidableEq ι] in
/-- Places that refer to nothing do not count. -/
theorem refs_of_subset (hST : S ⊆ T) (h : ∀ p ∈ T, p ∉ S → e p = none) :
    refs T e k = refs S e k := by
  rw [refs, refs]
  congr 1
  apply Finset.Subset.antisymm
  · intro p hp
    rw [Finset.mem_filter] at hp ⊢
    refine ⟨?_, hp.2⟩
    by_contra hnot
    rw [h p hp.1 hnot] at hp
    cases hp.2
  · exact Finset.filter_subset_filter _ hST

omit [DecidableEq ι] in
/-- A new place that refers to `k` counts. -/
theorem refs_lt_of_subset (hST : S ⊆ T) (hp : p ∈ T) (hnot : p ∉ S) (h : e p = some k) :
    refs S e k < refs T e k := by
  apply Finset.card_lt_card
  rw [Finset.ssubset_iff_of_subset (Finset.filter_subset_filter _ hST)]
  exact ⟨p, Finset.mem_filter.mpr ⟨hp, h⟩, fun hmem => hnot (Finset.mem_filter.mp hmem).1⟩

end RefCount

end Yap
