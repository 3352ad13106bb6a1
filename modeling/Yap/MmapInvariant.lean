/-
# The area list stays sorted and counted

Over every sequence of `do_brk`, `do_munmap` and forks, the areas of an address space are
sorted, disjoint, page aligned and not empty, and `map_count`, `total_vm` and `locked_vm`
are what the areas say.
-/
import Yap.MmapBrk

namespace Yap

namespace Mmap

open Ranges List

variable {σ : Type} {x m p : ℕ} {extra : Option ℕ} {len addr : BitVec 32} {ops : PageOps σ}

/-! ## Forking -/

/-- From `s` the areas `D` of `m` have been copied to the areas `C` of the child `m'`. -/
structure Copied (s s' : State σ) (m' m : ℕ) (C D : List ℕ) : Prop where
  area : ∀ p, p ∉ C → s'.area p = s.area p
  other : ∀ n, n ≠ m' → s'.mm n = s.mm n
  mm : s'.mm m' =
    { s.mm m with mmap := C, mmapCache := none, mapCount := C.length, lockedVm := 0 }
  ranges : C.map (fun p => (lo s' p, hi s' p)) = D.map fun p => (lo s p, hi s p)
  child : ∀ q ∈ C, (s'.area q).vmMm = m' ∧ Usual s' q ∧
    isLocked (s'.area q).vmFlags = false

section

variable {s s' : State σ} {m' m p q : ℕ} {C D : List ℕ} (ops)

theorem Copied.dupArea (h : Copied s s' m' m C D) (hp : p ∉ C) (hq : q ∉ C)
    (husual : Usual s p) :
    Copied s (Mmap.dupArea ops s' m' m p q).1 m' m (C ++ [q]) (D ++ [p]) := by
  set s1 := (Mmap.dupArea ops s' m' m p q).1
  have hpa : s'.area p = s.area p := h.area p hp
  have hqa : s1.area q =
      { s.area p with vmFlags := (s.area p).vmFlags &&& ~~~vmLocked, vmMm := m' } := by
    show (s'.setArea q _).area q = _
    rw [setArea_area, hpa]
  have hsame : ∀ r, r ≠ q → s1.area r = s'.area r := fun r hr => setArea_area_of_ne _ _ _ _ hr
  have hC : ∀ r ∈ C, s1.area r = s'.area r := fun r hr => hsame r fun heq => hq (heq ▸ hr)
  refine ⟨?_, ?_, ?_, ?_, ?_⟩
  · intro r hr
    rw [mem_append, mem_singleton, not_or] at hr
    rw [hsame r hr.2, h.area r hr.1]
  · intro n hn
    exact (setMm_mm_of_ne _ _ _ _ hn).trans (h.other n hn)
  · show ((s'.setArea q _).setMm m' _).mm m' = _
    rw [setMm_mm, setArea_mm, h.mm, length_append, length_singleton]
    rfl
  · rw [map_append, map_append, ← h.ranges]
    congr 1
    · refine map_congr_left fun r hr => ?_
      rw [lo, hi, hC r hr, lo, hi]
    · simp only [map_cons, map_nil, lo, hi, hqa]
  · intro r hr
    rcases mem_append.mp hr with hr | hr
    · obtain ⟨h1, h2, h3⟩ := h.child r hr
      rw [hC r hr]
      exact ⟨h1, h2.congr (hC r hr), h3⟩
    · rw [mem_singleton.mp hr]
      refine ⟨by rw [hqa], ⟨?_, by rw [hqa]; exact husual.prot⟩, ?_⟩
      · rw [hqa]
        show (s.area p).vmFlags &&& ~~~vmLocked &&& vmDontcopy = 0
        rw [BitVec.and_assoc, BitVec.and_comm (~~~vmLocked), ← BitVec.and_assoc, husual.copied]
        exact BitVec.zero_and
      · rw [hqa]
        have hzero : ~~~vmLocked &&& vmLocked = 0 := by decide
        show decide ((s.area p).vmFlags &&& ~~~vmLocked &&& vmLocked ≠ 0) = false
        rw [BitVec.and_assoc, hzero]
        simp

/-- The loop of `dup_mmap`, when it returns 0. -/
theorem dupMmapLoop_spec (hm : ∀ p ∈ (s.mm m).mmap, Usual s p)
    {ps : List ℕ} {answers : List (Option ℕ)} {s₁ s' : State σ} {C D : List ℕ}
    (h : Copied s s₁ m' m C D) (hD : D ++ ps = (s.mm m).mmap)
    (hnd : (answers.filterMap id).Nodup)
    (hfresh : ∀ q ∈ C ++ answers.filterMap id, q ∉ (s.mm m).mmap)
    (hC : ∀ q ∈ answers.filterMap id, q ∉ C) (heq : dupMmapLoop ops m' m s₁ ps answers = (s', 0)) :
    ∃ C', Copied s s' m' m C' (s.mm m).mmap ∧ C' ⊆ C ++ answers.filterMap id := by
  induction ps generalizing answers s₁ C D with
  | nil =>
    rw [dupMmapLoop, Prod.mk.injEq] at heq
    rw [append_nil] at hD
    rw [← heq.1, ← hD]
    exact ⟨C, h, subset_append_left _ _⟩
  | cons p ps ih =>
    have hpm : p ∈ (s.mm m).mmap := by
      rw [← hD]
      exact mem_append_right _ mem_cons_self
    have hp : p ∉ C := fun hp => hfresh p (mem_append_left _ hp) hpm
    unfold dupMmapLoop at heq
    rw [h.area p hp, if_neg (not_not.mpr (hm p hpm).copied)] at heq
    cases answers with
    | nil => exact absurd (congrArg Prod.snd heq) (show ¬ (-12 : ℤ) = 0 by decide)
    | cons answer answers =>
      cases answer with
      | none => exact absurd (congrArg Prod.snd heq) (show ¬ (-12 : ℤ) = 0 by decide)
      | some q =>
        have hcons : (some q :: answers).filterMap id = q :: answers.filterMap id :=
          filterMap_cons_some rfl
        rw [hcons, nodup_cons] at hnd
        dsimp only at heq
        split_ifs at heq with hret
        · rw [heq] at hret
          exact absurd rfl hret
        · have hq : q ∉ C := hC q mem_cons_self
          obtain ⟨C', hcopied, hsub⟩ := ih (h.dupArea ops hp hq (hm p hpm))
            (by rw [List.append_assoc]; exact hD) hnd.2
            (by
              intro r hr
              refine hfresh r ?_
              rwa [List.append_assoc, singleton_append] at hr)
            (by
              intro r hr hr'
              rcases mem_append.mp hr' with hr' | hr'
              · exact hC r (mem_cons_of_mem _ hr) hr'
              · rw [mem_singleton.mp hr'] at hr
                exact hnd.1 hr) heq
          refine ⟨C', hcopied, ?_⟩
          rwa [hcons, ← singleton_append, ← List.append_assoc]

theorem pagesIn_eq_zero {c : BitVec 32 → Bool}
    (h : ∀ p ∈ l, c (s.area p).vmFlags = false) : pagesIn c s l = 0 := by
  rw [pagesIn, sum_eq_zero]
  intro n hn
  obtain ⟨p, hp, rfl⟩ := List.mem_map.mp hn
  rw [pagesOf, h p hp]
  rfl

/-- The total depends on the bounds only. -/
theorem pagesIn_true (l : List ℕ) :
    pagesIn (fun _ => true) s l =
      ((l.map fun p => (lo s p, hi s p)).map fun r => (r.2 - r.1) / 4096).sum := by
  rw [List.map_map]
  rfl

/-- The child of a fork has the areas of its parent, none of them locked. -/
theorem Copied.mmOk (h : Copied s s' m' m C (s.mm m).mmap) (hok : MmOk s m) : MmOk s' m' := by
  have hmm := h.mm
  obtain ⟨_, htotal, _⟩ := hok.counts
  refine ⟨⟨?_, List.Pairwise.nil, ?_, ?_, ?_, ?_⟩, ?_, ?_, ?_, ?_, ?_⟩
  · rw [hmm]
    rw [← ordered_map_iff, h.ranges, ordered_map_iff]
    exact hok.shape.ordered
  · intro p hp
    cases hp
  · intro p hp
    cases hp
  · intro q hq
    rw [hmm] at hq
    have hq' : q ∈ C := hq.resolve_left not_mem_nil
    have h1 := (h.child q hq').1
    have hr : (lo s' q, hi s' q) ∈ (s.mm m).mmap.map fun p => (lo s p, hi s p) := by
      rw [← h.ranges]
      exact List.mem_map.mpr ⟨q, hq', rfl⟩
    obtain ⟨p, hp, heq⟩ := List.mem_map.mp hr
    rw [Prod.mk.injEq] at heq
    have hp' := hok.shape.area p (Or.inr hp)
    exact ⟨by rw [← heq.1]; exact hp'.lo_aligned, by rw [← heq.2]; exact hp'.hi_aligned, h1⟩
  · rw [hmm]
    intro p hp
    cases hp
  · intro q hq
    rw [hmm] at hq
    exact (h.child q (hq.resolve_left not_mem_nil)).2.1
  · rw [hmm]
    exact hok.defFlags
  · rw [hmm]
    simp
  · rw [hmm, pagesIn_nil, Nat.add_zero, pagesIn_true]
    show (s.mm m).totalVm = BitVec.ofNat 32 ((C.map _).map _).sum
    rw [htotal, pagesIn_nil, Nat.add_zero, pagesIn_true, h.ranges]
  · rw [hmm, pagesIn_nil, Nat.add_zero, pagesIn_eq_zero fun q hq => (h.child q hq).2.2]
    rfl

/-- **A fork whose `dup_mmap` returns 0 keeps the invariant**, in the parent and the child. -/
theorem copyMm_spec (h : Inv s) {answers : List (Option ℕ)} (hne : m' ≠ m)
    (hnd : (answers.filterMap id).Nodup)
    (hfresh : ∀ q ∈ answers.filterMap id, ∀ n, q ∉ (s.mm n).mmap)
    (hret : (copyMm ops s m' m answers).2 = 0) :
    Inv (copyMm ops s m' m answers).1 ∧
      ∃ C, Copied s (copyMm ops s m' m answers).1 m' m C (s.mm m).mmap := by
  have hok := h.mm m
  unfold copyMm dupMmap at hret ⊢
  dsimp only at hret ⊢
  cases hinit : ops.mmInit (s.setMm m' (s.mm m)).pages m' with
  | none =>
    rw [hinit] at hret
    exact absurd hret (show ¬ (-12 : ℤ) = 0 by decide)
  | some pages =>
    rw [hinit] at hret
    dsimp only at hret ⊢
    set s1 : State σ := State.setMm { s.setMm m' (s.mm m) with pages := pages } m'
      { (s.setMm m' (s.mm m)).mm m' with
        lockedVm := 0, mmap := [], mmapCache := none, mapCount := 0 } with hs1
    have hstart : Copied s s1 m' m [] [] := by
      refine ⟨fun _ _ => rfl, fun n hn => ?_, ?_, rfl, fun q hq => by cases hq⟩
      · exact (setMm_mm_of_ne _ _ _ _ hn).trans (setMm_mm_of_ne _ _ _ _ hn)
      · rw [hs1, setMm_mm, setMm_mm]
        rfl
    have hlist : (s1.mm m).mmap = (s.mm m).mmap := by
      rw [hstart.other m (Ne.symm hne)]
    rw [hlist] at hret ⊢
    obtain ⟨C, hcopied, hsub⟩ := dupMmapLoop_spec ops
      (fun p hp => hok.usual p (Or.inr hp)) hstart (nil_append _) hnd
      (fun q hq => hfresh q hq m) (fun q _ => not_mem_nil)
      (Prod.ext rfl hret)
    refine ⟨?_, C, hcopied⟩
    refine h.of_touches (m := m') (t := C) ⟨hcopied.other, hcopied.area, fun p hp => Or.inr ?_⟩
      (hcopied.mmOk hok) fun q hq n _ => hfresh q (hsub hq) n
    rw [hcopied.mm] at hp
    exact hp

end

/-! ## Runs -/

/-- The arguments of a call: aligned, not wrapping, and the records that the allocator hands
out are in no list.  A fork gets a new `mm_struct`, and its `dup_mmap` returns 0. -/
def Event.Valid (ops : PageOps σ) (s : State σ) : Event → Prop
  | .brk m addr len extra vma =>
    4096 ∣ addr.toNat ∧ addr.toNat + (pageAlign len).toNat < 2 ^ 32 ∧
      (∀ q ∈ extra, ∀ n, q ∉ (s.mm n).mmap) ∧
      ∀ s' r, doMunmap ops s m addr (pageAlign len) extra = some (s', r) →
        ∀ q ∈ vma, ∀ n, q ∉ (s'.mm n).mmap
  | .munmap _ addr len extra =>
    4096 ∣ addr.toNat ∧ addr.toNat + (pageAlign len).toNat < 2 ^ 32 ∧
      ∀ q ∈ extra, ∀ n, q ∉ (s.mm n).mmap
  | .fork m m' answers =>
    m' ≠ m ∧ (s.mm m').mmap = [] ∧ (answers.filterMap id).Nodup ∧
      (∀ q ∈ answers.filterMap id, ∀ n, q ∉ (s.mm n).mmap) ∧ (copyMm ops s m' m answers).2 = 0

/-- The states that sequences of calls lead to from `s₀`. -/
inductive Reachable (ops : PageOps σ) (s₀ : State σ) : State σ → Prop where
  | refl : Reachable ops s₀ s₀
  | step {s s' : State σ} (e : Event) : Reachable ops s₀ s → e.Valid ops s →
      step ops s e = some s' → Reachable ops s₀ s'

variable {s : State σ} (ops)

/-- One call keeps the invariant, and does not write through a null pointer. -/
theorem inv_step (h : Inv s) {e : Event} (he : e.Valid ops s) :
    ∃ s', step ops s e = some s' ∧ Inv s' := by
  cases e with
  | brk m addr len extra vma =>
    obtain ⟨h1, h2, h3, h4⟩ := he
    obtain ⟨s', r, heq, hinv, _⟩ := doBrk_spec ops h h1 h2 h3 h4
    exact ⟨s', by rw [step, heq]; rfl, hinv⟩
  | munmap m addr len extra =>
    obtain ⟨h1, h2, h3⟩ := he
    obtain ⟨s', r, heq, hinv, _⟩ := doMunmap_spec (m := m) ops h h1 h2 h3
    exact ⟨s', by rw [step, heq]; rfl, hinv⟩
  | fork m m' answers =>
    obtain ⟨h1, _, h3, h4, h5⟩ := he
    exact ⟨_, rfl, (copyMm_spec ops h h1 h3 h4 h5).1⟩

theorem inv_reachable {s₀ s : State σ} (h0 : Inv s₀) (h : Reachable ops s₀ s) :
    Inv s := by
  induction h with
  | refl => exact h0
  | step e _ he heq ih =>
    obtain ⟨s', heq', hinv⟩ := inv_step ops ih he
    rw [heq] at heq'
    rw [Option.some.inj heq']
    exact hinv

/-- The area list of `m` as it should be. -/
structure AddressSpace (s : State σ) (m : ℕ) : Prop where
  sorted : (s.mm m).mmap.Pairwise fun p q => (s.area p).vmStart < (s.area q).vmStart
  nonempty : ∀ p ∈ (s.mm m).mmap, (s.area p).vmStart < (s.area p).vmEnd
  aligned : ∀ p ∈ (s.mm m).mmap,
    4096 ∣ (s.area p).vmStart.toNat ∧ 4096 ∣ (s.area p).vmEnd.toNat
  disjoint : (s.mm m).mmap.Pairwise fun p q => (s.area p).vmEnd ≤ (s.area q).vmStart
  map_count : (s.mm m).mapCount = (s.mm m).mmap.length
  total_vm : (s.mm m).totalVm.toNat =
    ((s.mm m).mmap.map fun p => ((s.area p).vmEnd.toNat - (s.area p).vmStart.toNat) / 4096).sum
  locked_vm : (s.mm m).lockedVm.toNat =
    ((s.mm m).mmap.map fun p => if (s.area p).vmFlags &&& vmLocked ≠ 0 then
      ((s.area p).vmEnd.toNat - (s.area p).vmStart.toNat) / 4096 else 0).sum
  copied : ∀ p ∈ (s.mm m).mmap, (s.area p).vmFlags &&& vmDontcopy = 0

/-- The counters do not overflow: the areas have less than `2^32` pages. -/
theorem toNat_ofNat_pagesIn (h : Ordered (lo s) (hi s) l)
    (c : BitVec 32 → Bool) : (BitVec.ofNat 32 (pagesIn c s l)).toNat = pagesIn c s l := by
  have hle : pagesIn c s l ≤ 2 ^ 32 - 1 := by
    refine h.sum_le (fun p _ => Nat.le_pred_of_lt (s.area p).vmEnd.isLt) fun p _ => ?_
    rw [pagesOf]
    split_ifs
    · exact Nat.div_le_self _ _
    · exact Nat.zero_le _
  rw [BitVec.toNat_ofNat, Nat.mod_eq_of_lt (by omega)]

theorem Loose.addressSpace (h : MmOk s m) : AddressSpace s m := by
  have hord := h.shape.ordered
  obtain ⟨hcount, htotal, hlocked⟩ := h.counts
  refine ⟨?_, ?_, ?_, ?_, ?_, ?_, ?_, ?_⟩
  · refine hord.pairwise.imp_of_mem fun {p q} hp _ hpq => ?_
    have hlt := hord.lt p hp
    rw [BitVec.lt_def]
    unfold lo hi at *
    omega
  · intro p hp
    exact hord.lt p hp
  · intro p hp
    have hok := h.shape.area p (Or.inr hp)
    exact ⟨hok.lo_aligned, hok.hi_aligned⟩
  · exact hord.pairwise
  · simpa using hcount
  · rw [htotal, pagesIn_nil, Nat.add_zero, toNat_ofNat_pagesIn hord]
    rfl
  · rw [hlocked, pagesIn_nil, Nat.add_zero, toNat_ofNat_pagesIn hord, pagesIn]
    congr 1
    refine map_congr_left fun p _ => ?_
    simp only [pagesOf, isLocked, decide_eq_true_eq, lo, hi]
  · intro p hp
    exact (h.usual p (Or.inr hp)).copied

/-- **The address-space invariant.**  From address spaces that satisfy the invariant, every
sequence of `do_brk`, `do_munmap` and successful forks, over any page tables and with any
failing allocations, leads to address spaces whose area lists are sorted, disjoint, aligned
and counted; and no call of it faults. -/
theorem addressSpace_reachable (ops : PageOps σ) (s₀ s : State σ) (h₀ : Inv s₀)
    (h : Reachable ops s₀ s) :
    (∀ m, AddressSpace s m) ∧ ∀ e : Event, e.Valid ops s → ∃ s', step ops s e = some s' := by
  have hinv := inv_reachable ops h₀ h
  refine ⟨fun m => (hinv.mm m).addressSpace, fun e he => ?_⟩
  obtain ⟨s', heq, _⟩ := inv_step ops hinv he
  exact ⟨s', heq⟩

/-- Address spaces as `mm_alloc` leaves them. -/
def emptyState : State Unit where
  area := fun _ => ⟨0, 0, 0, 0, 0, 0⟩
  mm := fun _ => ⟨[], none, 0, 0, 0, 0⟩
  pages := ()

theorem inv_of_empty (h : ∀ m, s.mm m = ⟨[], none, 0, 0, 0, 0⟩) : Inv s := by
  have hmmap : ∀ m p, p ∉ (s.mm m).mmap := by
    intro m p
    rw [h m]
    exact not_mem_nil
  have hnil : ∀ m, (s.mm m).mmap = [] := fun m => by rw [h m]
  refine ⟨fun m => ⟨⟨?_, List.Pairwise.nil, ?_, ?_, ?_, ?_⟩, ?_, ?_, ⟨?_, ?_, ?_⟩⟩, ?_⟩
  · rw [hnil]
    exact ordered_nil
  · intro p hp
    cases hp
  · intro p hp
    cases hp
  · rintro p (hp | hp)
    · cases hp
    · exact absurd hp (hmmap m p)
  · rw [h m]
    intro p hp
    cases hp
  · rintro p (hp | hp)
    · cases hp
    · exact absurd hp (hmmap m p)
  · rw [h m]
    decide
  · rw [h m]
    rfl
  · rw [h m]
    rfl
  · rw [h m]
    rfl
  · intro m n _ p hp
    exact absurd hp (hmmap m p)

theorem inv_emptyState : Inv emptyState := inv_of_empty fun _ => rfl

/-- Page tables without contents. -/
def noPages : PageOps Unit where
  mmInit := fun _ _ => some ()
  zapPageRange := fun _ _ _ _ => ()
  clearPageTables := fun _ _ _ _ => ()
  handleMmFault := fun _ _ _ _ _ => ((), 1)
  copyPageRange := fun _ _ _ _ => ((), 0)

/-- Three pages are mapped. -/
def threePages : Event := .brk 0 0x10000000 0x3000 none (some 1)

/-- The state with three pages. -/
def threePagesState : State Unit := (step noPages emptyState threePages).getD emptyState

/-- The page in the middle is unmapped. -/
def middlePage : Event := .munmap 0 0x10001000 0x1000 (some 2)

/-- The state with a hole. -/
def holeState : State Unit := (step noPages threePagesState middlePage).getD emptyState

theorem threePagesState_mmap (n : ℕ) : (threePagesState.mm n).mmap = if n = 0 then [1] else [] := by
  cases n with
  | zero => decide +kernel
  | succ n => rfl

theorem reachable_holeState : Reachable noPages emptyState holeState := by
  have h1 : Reachable noPages emptyState threePagesState := by
    refine Reachable.step threePages Reachable.refl ⟨by decide, by decide, ?_, ?_⟩ rfl
    · intro q hq
      cases hq
    · intro s' r heq q _ n
      have heq' : some (emptyState, (0 : ℤ)) = some (s', r) := heq
      rw [Option.some.injEq, Prod.mk.injEq] at heq'
      rw [← heq'.1]
      exact not_mem_nil
  refine Reachable.step middlePage h1 ⟨by decide, by decide, ?_⟩ rfl
  intro q hq n
  rw [Option.mem_some_iff] at hq
  rw [← hq, threePagesState_mmap]
  split_ifs <;> decide

/-- Unmapping the middle of three pages leaves two areas. -/
theorem addressSpace_hole : (holeState.mm 0).mmap = [1, 2] ∧ AddressSpace holeState 0 :=
  ⟨by decide +kernel,
    (addressSpace_reachable noPages emptyState holeState inv_emptyState reachable_holeState).1 0⟩

end Mmap

end Yap
