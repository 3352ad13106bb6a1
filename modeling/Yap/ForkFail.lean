/-
# A fork that fails (`proc/fork.c`, `proc/pcb.c`, `proc/prosser.c`)

`do_fork` takes a task slot, copies the address space of the caller and puts the child on the
ring of its priority.  Each of the allocations on the way can fail: the slot, the `mm_struct`,
the page directory, an area record, a second-level table, the frame for the copy of a page.  This
module asks what is left behind then.

* The slot is never given back: `alloc_pcb` only counts upwards, and `free_task_struct` frees
  pages, which the array `task_pcb` is not made of.  So the only failure without a trace is the
  one of `alloc_pcb` itself (`failed_fork_iff`).
* `copy_mm` puts the new `mm_struct` on the list of the parent before it looks at the result of
  `dup_mmap`, and `mmput` only prints.
* `copy_page_range` does not look at the result of the fault that copies a page, so a fork can
  return a pid with a page that the two address spaces share (`failed_fork_traces`).

The slots and the rings are those of `Yap.Sched`, the address spaces those of
`Yap.ForkIsolation`.
-/
import Yap.FileTable
import Yap.ForkIsolation
import Yap.Sched

namespace Yap

namespace Fork

open Mmap Paging Sched Function

variable {α : Type}

/-! ## The kernel -/

/-- What a fork changes: the tasks, the address spaces, the list of all address spaces, the
address space of each task, and the counter of `get_pid`. -/
structure Kernel (α : Type) where
  sched : Sched.State
  vm : Mmap.State (Pages α)
  /-- `mmlist` of each `mm_struct` -/
  mmlist : Links ℕ
  /-- `mm` of each task, `none` for a kernel thread -/
  taskMm : Pcb → Option ℕ
  /-- the static `pid` of `get_pid` -/
  forkPid : BitVec 32

/-- What the slab allocator answers: to `allocate_mm`, and for each area record. -/
structure Answers where
  mm : Option ℕ
  areas : List (Option ℕ)
  deriving DecidableEq, Repr

/-- Where the array `task_pcb` is: the page of each slot, which belongs to the kernel. -/
structure PcbPages (M : Machine α) where
  page : ℕ → ℕ
  reserved : ∀ i, validPage M (page i) → M.reserved (page i) = true

section

variable (M : Machine α)

/-- `__free_pages(page, order)`. -/
def freePagesOrder (g : Pages α) (p order : ℕ) : Pages α :=
  if M.reserved p then g
  else
    let g := g.setCount p (g.count p - 1)
    if g.count p = 0 then
      { g with free := (List.range (2 ^ order)).foldl (fun a i => M.pool.release a (p + i)) g.free }
    else g

/-- `free_task_struct(p)`, which frees two pages at the address of the slot. -/
def freeTaskStruct (P : PcbPages M) (K : Kernel α) (p : Pcb) : Kernel α :=
  match p with
  | .head _ => K
  | .pcb i =>
    if validPage M (P.page i) then
      { K with vm := { K.vm with pages := freePagesOrder M K.vm.pages (P.page i) 1 } }
    else K

/-- `copy_mm(clone_flags, tsk)` of the task `cur`. -/
def copyMm (K : Kernel α) (cur tsk : Pcb) (a : Answers) : Kernel α × ℤ :=
  let K := { K with taskMm := update K.taskMm tsk none }
  match K.taskMm cur with
  | none => (K, 0)
  | some oldmm =>
    match a.mm with
    | none => (K, -12)
    | some mm =>
      let l := (K.mmlist.setNext mm (K.mmlist.next oldmm)).setPrev mm (K.mmlist.prev oldmm)
      let r := Mmap.copyMm (pageOps M) K.vm mm oldmm a.areas
      match mmInit M K.vm.pages mm with
      | none => ({ K with vm := r.1, mmlist := l }, -12)
      | some _ =>
        let K := { K with vm := r.1, mmlist := listAdd (initListHead l mm) mm oldmm }
        -- `mmput` after a failure prints a line and does nothing
        if r.2 ≠ 0 then (K, r.2)
        else ({ K with taskMm := update K.taskMm tsk (some mm) }, 0)

/-- `*p = *current` and `get_pid`. -/
def dupTask (K : Kernel α) (cur p : Pcb) : Kernel α :=
  let s := K.sched
  { K with
    sched := { Sched.setTask s p { s.task cur with pid := K.forkPid } with
      links := (s.links.setNext p (s.links.next cur)).setPrev p (s.links.prev cur) }
    taskMm := update K.taskMm p (K.taskMm cur)
    forkPid := K.forkPid + 1 }

/-- The end of `do_fork`: the child gets its pid and joins the ring of its priority. -/
def startTask (K : Kernel α) (p : Pcb) : Kernel α × ℤ :=
  let s := K.sched
  let s' := { Sched.setTask s p { s.task p with pid := s.pid } with pid := s.pid + 1 }
  ({ K with sched := Sched.addTask s' (s'.task p).prio p }, s.pid.toInt)

/-- `do_fork` of the task `cur`. -/
def doFork (P : PcbPages M) (maxTaskNum : ℕ) (K : Kernel α) (cur : Pcb)
    (a : Answers) : Kernel α × ℤ :=
  match Sched.allocPcb maxTaskNum K.sched with
  | none => (K, -12)
  | some (p, s) =>
    let r := copyMm M (dupTask { K with sched := s } cur p) cur p a
    if r.2 ≠ 0 then (freeTaskStruct M P r.1 p, -12) else startTask r.1 p

/-! ## The properties -/

/-- An allocation in the fork fails: there is no slot, or there is an address space to copy and
no `mm_struct`, or the copy reports an error or records that there was no frame. -/
def AllocFails (maxTaskNum : ℕ) (K : Kernel α) (cur : Pcb) (a : Answers) : Prop :=
  maxTaskNum ≤ K.sched.curPcb ∨ ∃ m, K.taskMm cur = some m ∧
    (a.mm = none ∨ ∃ m', a.mm = some m' ∧
      ((Mmap.copyMm (pageOps M) K.vm m' m a.areas).2 ≠ 0 ∨
        (Mmap.copyMm (pageOps M) K.vm m' m a.areas).1.pages.failed = true))

/-- The fork was refused and there is no trace of it: the rings, the list of address spaces, the
areas, tables and frames of the parent and the number of free slots are those from before. -/
structure NoTrace (M : Machine α) (maxTaskNum : ℕ) (K K' : Kernel α) (cur : Pcb) (ret : ℤ) :
    Prop where
  negative : ret < 0
  rings : ∀ p t, On K'.sched p t ↔ On K.sched p t
  mmlist : ∀ m xs, K.mmlist.IsRing m xs → K'.mmlist.IsRing m xs
  areas : ∀ m ∈ K.taskMm cur, K'.vm.mm m = K.vm.mm m ∧
    ∀ p ∈ (K.vm.mm m).mmap, K'.vm.area p = K.vm.area p
  tables : ∀ m ∈ K.taskMm cur, K'.vm.pages.pgd m = K.vm.pages.pgd m ∧
    ∀ i t, HasTable M K.vm.pages m i t → K'.vm.pages.mem t = K.vm.pages.mem t
  counts : ∀ m ∈ K.taskMm cur, ∀ k f, Maps M K.vm.pages m k f →
    K'.vm.pages.count f = K.vm.pages.count f
  slots : maxTaskNum - K'.sched.curPcb = maxTaskNum - K.sched.curPcb

/-- The entry for the page number `k` of `m` permits writing. -/
def Writable (g : Pages α) (m k : ℕ) : Prop :=
  ∃ t, HasTable M g m (k / 256) t ∧ g.mem t (k % 256) &&& 0xff0 = 0xff0

/-- The tasks have a frame in common that one of them can write. -/
def SharesWritable (K : Kernel α) (cur child : Pcb) : Prop :=
  ∃ m m' k k' f, K.taskMm cur = some m ∧ K.taskMm child = some m' ∧
    Maps M K.vm.pages m k f ∧ Maps M K.vm.pages m' k' f ∧
    (Writable M K.vm.pages m k ∨ Writable M K.vm.pages m' k')

end

section

variable {M : Machine α} {P : PcbPages M} {maxTaskNum : ℕ} {K : Kernel α} {cur tsk : Pcb}
  {a : Answers}

theorem NoTrace.refl {ret : ℤ} (h : ret < 0) : NoTrace M maxTaskNum K K cur ret where
  negative := h
  rings _ _ := Iff.rfl
  mmlist _ _ := id
  areas _ _ := ⟨rfl, fun _ _ => rfl⟩
  tables _ _ := ⟨rfl, fun _ _ _ => rfl⟩
  counts _ _ _ _ _ := rfl
  slots := rfl

/-! ## What a fork leaves behind -/

/-- Freeing a page of the kernel does nothing. -/
theorem freeTaskStruct_eq (P : PcbPages M) (K : Kernel α) (p : Pcb) :
    freeTaskStruct M P K p = K := by
  cases p with
  | head q => rfl
  | pcb i =>
    simp only [freeTaskStruct, freePagesOrder]
    by_cases h : validPage M (P.page i)
    · rw [if_pos h, if_pos (P.reserved i h)]
    · rw [if_neg h]

theorem copyMm_sched (M : Machine α) (K : Kernel α) (cur tsk : Pcb) (a : Answers) :
    (copyMm M K cur tsk a).1.sched = K.sched := by
  unfold copyMm
  dsimp only
  split
  · rfl
  · split
    · rfl
    · split
      · rfl
      · split_ifs <;> rfl

/-- Without a slot nothing happens. -/
theorem doFork_of_full (h : maxTaskNum ≤ K.sched.curPcb) :
    doFork M P maxTaskNum K cur a = (K, -12) := by
  unfold doFork allocPcb
  rw [if_neg (Nat.not_lt.mpr h)]

/-- The call of `copy_mm` in a fork that has got a slot. -/
def copied (M : Machine α) (K : Kernel α) (cur : Pcb) (a : Answers) : Kernel α × ℤ :=
  copyMm M (dupTask { K with sched := { K.sched with curPcb := K.sched.curPcb + 1 } } cur
    (.pcb K.sched.curPcb)) cur (.pcb K.sched.curPcb) a

theorem doFork_of_lt (h : K.sched.curPcb < maxTaskNum) :
    doFork M P maxTaskNum K cur a =
      if (copied M K cur a).2 ≠ 0 then ((copied M K cur a).1, -12)
      else startTask (copied M K cur a).1 (.pcb K.sched.curPcb) := by
  unfold doFork allocPcb
  rw [if_pos h]
  dsimp only
  rw [freeTaskStruct_eq]
  rfl

/-- For the scheduler this is the fork of `Yap.Sched`; a child that is not started keeps the
number that `get_pid` gave it. -/
theorem doFork_sched (hcur : K.sched.current = some cur) (h : K.sched.curPcb < maxTaskNum) :
    (doFork M P maxTaskNum K cur a).1.sched =
      if (copied M K cur a).2 ≠ 0 then
        setTask (Sched.doFork maxTaskNum K.sched false) (.pcb K.sched.curPcb)
          { K.sched.task cur with pid := K.forkPid }
      else Sched.doFork maxTaskNum K.sched true := by
  have hcopy : (copied M K cur a).1.sched = _ := copyMm_sched M _ cur _ a
  rw [doFork_of_lt h]
  split_ifs
  · simp [hcopy, Sched.doFork, allocPcb, hcur, h, setTask, dupTask]
  · simp [hcopy, Sched.doFork, allocPcb, hcur, h, setTask, dupTask, startTask]

/-- The slot is taken whatever happens afterwards. -/
theorem doFork_curPcb (h : K.sched.curPcb < maxTaskNum) :
    (doFork M P maxTaskNum K cur a).1.sched.curPcb = K.sched.curPcb + 1 := by
  have hcopy : (copied M K cur a).1.sched = _ := copyMm_sched M _ cur _ a
  rw [doFork_of_lt h]
  split_ifs
  · exact congrArg Sched.State.curPcb hcopy
  · exact congrArg Sched.State.curPcb hcopy

/-- For the descriptors it is the fork of `Yap.FileTable`, which counts the slots too. -/
theorem doFork_fileTable {s : FileTable.State} (c : ℕ) (hs : s.curPcb = K.sched.curPcb) :
    (doFork M P FileTable.maxTaskNum K cur a).2 =
        (FileTable.doFork s c (copied M K cur a).2 K.sched.pid.toInt).1 ∧
      (doFork M P FileTable.maxTaskNum K cur a).1.sched.curPcb =
        (FileTable.doFork s c (copied M K cur a).2 K.sched.pid.toInt).2.curPcb := by
  unfold FileTable.doFork
  rw [hs]
  by_cases h : K.sched.curPcb < FileTable.maxTaskNum
  · rw [doFork_curPcb h, doFork_of_lt h, if_pos h]
    split_ifs
    · exact ⟨rfl, rfl⟩
    · exact ⟨congrArg (fun s => s.pid.toInt) (copyMm_sched M _ cur _ a), rfl⟩
  · rw [doFork_of_full (by omega), if_neg h]
    exact ⟨rfl, hs.symm⟩

/-- The copy of the address space `m` into `m'`, when it returns 0. -/
theorem copyMm_eq {m m' : ℕ} (hcur : cur ≠ tsk) (hm : K.taskMm cur = some m)
    (ha : a.mm = some m') (hret : (copyMm M K cur tsk a).2 = 0) :
    (mmInit M K.vm.pages m').isSome ∧ (Mmap.copyMm (pageOps M) K.vm m' m a.areas).2 = 0 ∧
      (copyMm M K cur tsk a).1.vm = (Mmap.copyMm (pageOps M) K.vm m' m a.areas).1 ∧
      (copyMm M K cur tsk a).1.taskMm cur = some m ∧
      (copyMm M K cur tsk a).1.taskMm tsk = some m' := by
  have hm' : (update K.taskMm tsk none) cur = some m := by
    rw [update_of_ne hcur, hm]
  unfold copyMm at hret ⊢
  simp only [hm', ha] at hret ⊢
  cases hinit : mmInit M K.vm.pages m' with
  | none =>
    simp only [hinit] at hret
    cases hret
  | some g0 =>
    simp only [hinit] at hret ⊢
    by_cases hzero : (Mmap.copyMm (pageOps M) K.vm m' m a.areas).2 ≠ 0
    · rw [if_pos hzero] at hret
      exact absurd hret hzero
    · rw [if_neg hzero]
      refine ⟨rfl, not_not.mp hzero, rfl, ?_, update_self _ _ _⟩
      exact (update_of_ne hcur _ _).trans hm'

end

/-- A task with an address space of private mappings forks, and there are an `mm_struct` and
records for the areas. -/
structure PrivateFork (M : Machine α) (A : ℕ → Prop) (K : Kernel α) (cur : Pcb) (a : Answers)
    (m m' : ℕ) : Prop where
  cur_ne : cur ≠ .pcb K.sched.curPcb
  mm : K.taskMm cur = some m
  answer : a.mm = some m'
  ne : m' ≠ m
  owner : A m
  space : PrivateSpace M A K.vm m
  unfailed : K.vm.pages.failed = false
  inside : ∀ p ∈ (K.vm.mm m).mmap, ¬ LeavesDirectory K.vm.pages m (K.vm.area p).vmEnd
  records : ∃ qs : List ℕ, a.areas = qs.map some ∧ (K.vm.mm m).mmap.length ≤ qs.length ∧
    ∀ q ∈ qs, q ∉ (K.vm.mm m).mmap

section

variable {M : Machine α} {P : PcbPages M} {maxTaskNum : ℕ} {K : Kernel α} {cur : Pcb}
  {a : Answers}

variable {A : ℕ → Prop} {m m' : ℕ}

/-- A fork that returns no negative value has a slot, and `copy_mm` has returned 0. -/
theorem copied_of_nonneg (hret : 0 ≤ (doFork M P maxTaskNum K cur a).2) :
    K.sched.curPcb < maxTaskNum ∧ (copied M K cur a).2 = 0 := by
  have hneg : ¬ (0 : ℤ) ≤ -12 := by decide
  by_cases h : K.sched.curPcb < maxTaskNum
  · refine ⟨h, ?_⟩
    rw [doFork_of_lt h] at hret
    by_contra hne
    rw [if_pos hne] at hret
    exact hneg hret
  · rw [doFork_of_full (Nat.le_of_not_lt h)] at hret
    exact absurd hret hneg

/-- What `set_pte` stores permits writing. -/
theorem setPte_writable (e : BitVec 32) : setPte e &&& 0xff0 = 0xff0 := by
  have hclear : ~~~0xfff#32 &&& 0xff0#32 = 0#32 := by decide
  have hset : (0xff0#32 ||| 4#32 ||| 8#32 ||| 2#32) &&& 0xff0#32 = 0xff0#32 := by decide
  have hsplit : setPte e = e &&& ~~~0xfff#32 ||| (0xff0#32 ||| 4#32 ||| 8#32 ||| 2#32) := by
    simp only [setPte, BitVec.or_assoc]
  rw [hsplit, BitVec.and_comm, BitVec.and_or_distrib_left, BitVec.and_comm 0xff0 (e &&& _),
    BitVec.and_assoc, BitVec.and_comm 0xff0 (_ ||| _)]
  exact (congrArg₂ _ (congrArg _ hclear) hset).trans (by simp)

/-- A page of the parent is writable. -/
theorem writable_of_maps {g : Pages α} {m k f : ℕ} (hf : Maps M g m k f)
    (hstored : ∀ t, HasTable M g m (k / 256) t → Stored (g.mem t (k % 256))) :
    Writable M g m k := by
  obtain ⟨t, ht, he⟩ := hf
  refine ⟨t, ht, ?_⟩
  rcases hstored t ht with h0 | hself
  · rw [h0] at he
    exact absurd he not_entryMaps_zero
  · rw [← hself]
    exact setPte_writable _

section

variable (h : PrivateFork M A K cur a m m')

include h

/-- What `copy_mm` has done in a fork that returns no negative value. -/
theorem PrivateFork.copied_eq (hret : (copied M K cur a).2 = 0) :
    (mmInit M K.vm.pages m').isSome ∧ (Mmap.copyMm (pageOps M) K.vm m' m a.areas).2 = 0 ∧
      (copied M K cur a).1.vm = (Mmap.copyMm (pageOps M) K.vm m' m a.areas).1 ∧
      (copied M K cur a).1.taskMm cur = some m ∧
      (copied M K cur a).1.taskMm (.pcb K.sched.curPcb) = some m' :=
  copyMm_eq h.cur_ne ((update_of_ne h.cur_ne _ _).trans h.mm) h.answer hret

/-- The only allocations that can have failed in such a fork are those of frames. -/
theorem PrivateFork.allocFails_iff (hlt : K.sched.curPcb < maxTaskNum)
    (hzero : (Mmap.copyMm (pageOps M) K.vm m' m a.areas).2 = 0) :
    AllocFails M maxTaskNum K cur a ↔
      (Mmap.copyMm (pageOps M) K.vm m' m a.areas).1.pages.failed = true := by
  constructor
  · rintro (hfull | ⟨n, hn, hcopy⟩)
    · omega
    · rw [h.mm, Option.some.injEq] at hn
      subst hn
      rcases hcopy with hnone | ⟨n', hn', hcopy⟩
      · rw [h.answer] at hnone
        cases hnone
      · rw [h.answer, Option.some.injEq] at hn'
        subst hn'
        exact hcopy.resolve_left (not_not.mpr hzero)
  · intro hfail
    exact Or.inr ⟨m, h.mm, Or.inr ⟨m', h.answer, Or.inr hfail⟩⟩

/-- The end of `do_fork` leaves the address spaces alone. -/
theorem PrivateFork.sharesWritable_eq (hlt : K.sched.curPcb < maxTaskNum)
    (hret : (copied M K cur a).2 = 0) :
    SharesWritable M (doFork M P maxTaskNum K cur a).1 cur (.pcb K.sched.curPcb) ↔
      ∃ k k' f, Maps M (copied M K cur a).1.vm.pages m k f ∧
        Maps M (copied M K cur a).1.vm.pages m' k' f ∧
        (Writable M (copied M K cur a).1.vm.pages m k ∨
          Writable M (copied M K cur a).1.vm.pages m' k') := by
  obtain ⟨_, _, _, hparent, hchild⟩ := h.copied_eq hret
  rw [doFork_of_lt hlt, if_neg (not_not.mpr hret)]
  constructor
  · rintro ⟨n, n', k, k', f, hn, hn', hf, hf', hw⟩
    have hm : some m = some n := hparent.symm.trans hn
    have hm' : some m' = some n' := hchild.symm.trans hn'
    rw [Option.some.injEq] at hm hm'
    subst hm hm'
    exact ⟨k, k', f, hf, hf', hw⟩
  · rintro ⟨k, k', f, hf, hf', hw⟩
    exact ⟨m, m', k, k', f, hparent, hchild, hf, hf', hw⟩

/-- **The child of a fork that returns a pid** shares a frame with its parent if and only if there
was no frame for the copy of a page. -/
theorem sharesWritable_iff (hret : 0 ≤ (doFork M P maxTaskNum K cur a).2) :
    SharesWritable M (doFork M P maxTaskNum K cur a).1 cur (.pcb K.sched.curPcb) ↔
      AllocFails M maxTaskNum K cur a := by
  obtain ⟨hlt, hcopied⟩ := copied_of_nonneg hret
  obtain ⟨qs, hareas, hlen, hfresh⟩ := h.records
  obtain ⟨hinit, hzero, hvm, _, _⟩ := h.copied_eq hcopied
  have hblock : (M.pool.allocBlock K.vm.pages.free).isSome := by
    rw [mmInit, Option.isSome_map] at hinit
    exact hinit
  rw [h.sharesWritable_eq hlt hcopied, h.allocFails_iff hlt hzero, hvm]
  rw [hareas] at hzero ⊢
  obtain ⟨g0, hpgd, hmem, hfailed, hcases⟩ :=
    copyMm_walk h.owner h.ne h.space.toForkSpace hlen hfresh hblock
  rcases hcases with ⟨hne, _⟩ | ⟨⟨p, hp, hl⟩, _⟩ | ⟨_, _, ⟨hok, hcopy⟩ | ⟨hfail, hshare⟩⟩
  · exact absurd hzero hne
  · exact absurd (h.space.leavesDirectory hp hl) (h.inside p hp)
  · -- every page has been copied: a frame stands in one place only
    rw [hok, hfailed, h.unfailed]
    refine ⟨?_, fun hfalse => absurd hfalse Bool.false_ne_true⟩
    rintro ⟨k, k', f, hf, hf', _⟩
    have hslot : Slot.page m k = .page m' k' :=
      hcopy.ok.held.unique ⟨Or.inl h.owner, hf⟩ ⟨Or.inr rfl, hf'⟩
    exact absurd (Slot.page.inj hslot).1.symm h.ne
  · -- one page has not: the parent can write it as before
    refine ⟨fun _ => hfail, fun _ => ?_⟩
    obtain ⟨k, f, hk, hf, hf'⟩ := hshare.shared
    have hparent : Holds M (fun n => n = m) g0 (.page m k) f := ⟨rfl, hf⟩
    rw [← holds_of_kept hshare.dir hshare.frames] at hparent
    refine ⟨k, k, f, hparent.2, hf', Or.inl (writable_of_maps hparent.2 fun t ht => ?_)⟩
    have ht0 : HasTable M g0 m (k / 256) t := ht.congr (by rw [hshare.dir])
    rw [hshare.frames (.table m (k / 256)) t ⟨rfl, ht0⟩, hmem]
    exact h.space.stored k t hk (ht0.congr (by rw [hpgd]))

end

end

/-- **A fork in which an allocation fails** leaves no trace if and only if there is no task slot:
every later failure costs a slot at least.  And when it returns a pid nevertheless, the child of a
task with private mappings shares a writable frame with its parent, which it does not when every
allocation succeeds. -/
theorem failed_fork_iff (M : Machine α) (P : PcbPages M) (maxTaskNum : ℕ) (K : Kernel α)
    (cur : Pcb) (a : Answers) :
    (AllocFails M maxTaskNum K cur a →
      (NoTrace M maxTaskNum K (doFork M P maxTaskNum K cur a).1 cur
            (doFork M P maxTaskNum K cur a).2 ∧
          (0 ≤ (doFork M P maxTaskNum K cur a).2 →
            ¬ SharesWritable M (doFork M P maxTaskNum K cur a).1 cur (.pcb K.sched.curPcb)) ↔
        maxTaskNum ≤ K.sched.curPcb)) ∧
    ∀ A m m', PrivateFork M A K cur a m m' → 0 ≤ (doFork M P maxTaskNum K cur a).2 →
      (¬ SharesWritable M (doFork M P maxTaskNum K cur a).1 cur (.pcb K.sched.curPcb) ↔
        ¬ AllocFails M maxTaskNum K cur a) := by
  refine ⟨fun _ => ⟨?_, fun hfull => ?_⟩, fun A m m' h hret =>
    not_congr (sharesWritable_iff h hret)⟩
  · rintro ⟨h, _⟩
    by_contra hlt
    have hslots := h.slots
    rw [doFork_curPcb (Nat.lt_of_not_le hlt)] at hslots
    omega
  · have hneg : ¬ (0 : ℤ) ≤ -12 := by decide
    rw [doFork_of_full hfull]
    exact ⟨NoTrace.refl (by decide : (-12 : ℤ) < 0), fun hret => absurd hret hneg⟩

/-! ### Three forks -/

/-- The task with one page, when there are only `n` free frames. -/
def shortPage (n : ℕ) : Mmap.State (Pages (List ℕ)) :=
  { firstPage with pages := { firstPage.pages with free := firstPage.pages.free.take n } }

/-- The task with one page is the first one. -/
def shortKernel (n : ℕ) : Kernel (List ℕ) where
  sched := Sched.act 128 Sched.osInit .createInitThread
  vm := shortPage n
  mmlist := ⟨id, id⟩
  taskMm := fun t => if t = .pcb 0 then some 0 else none
  forkPid := 0

/-- The array `task_pcb` is in none of the frames of the small machine. -/
def smallPcbs : PcbPages smallMachine where
  page := fun _ => 0
  reserved := fun _ h => absurd h (by decide)

/-- The fork, with an `mm_struct` and a record. -/
def shortFork (n : ℕ) : Kernel (List ℕ) × ℤ :=
  doFork smallMachine smallPcbs 128 (shortKernel n) (.pcb 0) ⟨some 1, [some 2]⟩

theorem privateSpace_shortPage (n : ℕ) :
    PrivateSpace smallMachine (fun _ => True) (shortPage n) 0 := by
  obtain ⟨⟨hinv, hpages, hcow, hsections, hstored, hfault⟩, huncleared⟩ := privateSpace_firstPage
  have hsame : ∀ m, Recached firstPage (shortPage n) m := fun m =>
    ⟨rfl, fun _ _ => rfl, rfl, (hinv.mm m).shape.cache⟩
  have hholds : Holds smallMachine (fun _ => True) (shortPage n).pages =
      Holds smallMachine (fun _ => True) firstPage.pages :=
    holds_congr (fun _ _ => rfl) fun _ _ _ _ _ _ _ => rfl
  have hfree : ∀ p ∈ (shortPage n).pages.free, p ∈ firstPage.pages.free :=
    fun p hp => List.mem_of_mem_take hp
  refine ⟨⟨⟨fun m => (hsame m).mmOk (hinv.mm m), hinv.sep⟩, ⟨?_, ?_, ?_⟩, hcow, fun x hx => ?_,
    fun k t hk ht => hstored k t hk (ht.congr rfl), hfault⟩, huncleared⟩
  · rw [hholds]
    exact hpages.held.mono (fun _ _ => id) hfree
  · rw [hholds]
    exact hpages.used
  · exact fun {p} hp => hpages.free (hfree p hp)
  · refine (hsections x hx).imp_right (Or.imp_right (Or.imp_right ?_))
    rintro ⟨t, ht⟩
    exact ⟨t, ht.congr rfl⟩

theorem privateFork_shortKernel (n : ℕ) : PrivateFork smallMachine (fun _ => True) (shortKernel n)
    (.pcb 0) ⟨some 1, [some 2]⟩ 0 1 where
  cur_ne := show Pcb.pcb 0 ≠ Pcb.pcb 1 by decide
  mm := rfl
  answer := rfl
  ne := by decide
  owner := trivial
  space := privateSpace_shortPage n
  unfailed := show firstPage.pages.failed = false by decide +kernel
  inside p hp hl := by
    change p ∈ (firstPage.mm 0).mmap at hp
    change LeavesDirectory firstPage.pages 0 (firstPage.area p).vmEnd at hl
    rw [firstPage_mmap, if_pos rfl, List.mem_singleton] at hp
    rw [hp] at hl
    exact absurd hl.1 (by decide +kernel)
  records := by
    change ∃ qs : List ℕ, [some 2] = qs.map some ∧ (firstPage.mm 0).mmap.length ≤ qs.length ∧
      ∀ q ∈ qs, q ∉ (firstPage.mm 0).mmap
    rw [firstPage_mmap, if_pos rfl]
    exact ⟨[2], rfl, by decide, by decide⟩

theorem failed_fork_iff_short :
    ¬ (NoTrace smallMachine 128 (shortKernel 4) (shortFork 4).1 (.pcb 0) (shortFork 4).2 ∧
        (0 ≤ (shortFork 4).2 →
          ¬ SharesWritable smallMachine (shortFork 4).1 (.pcb 0) (.pcb 1))) ∧
      0 ≤ (shortFork 6).2 ∧ ¬ SharesWritable smallMachine (shortFork 6).1 (.pcb 0) (.pcb 1) := by
  have hfails : AllocFails smallMachine 128 (shortKernel 4) (.pcb 0) ⟨some 1, [some 2]⟩ :=
    Or.inr ⟨0, rfl, Or.inr ⟨1, rfl, Or.inl (by decide +kernel)⟩⟩
  have hret : 0 ≤ (shortFork 6).2 := by decide +kernel
  refine ⟨fun h => ?_, hret, ?_⟩
  · have hfull : 128 ≤ (shortKernel 4).sched.curPcb :=
      ((failed_fork_iff smallMachine smallPcbs 128 (shortKernel 4) (.pcb 0)
        ⟨some 1, [some 2]⟩).1 hfails).mp h
    exact absurd hfull (by decide)
  · refine ((failed_fork_iff smallMachine smallPcbs 128 (shortKernel 6) (.pcb 0)
      ⟨some 1, [some 2]⟩).2 _ 0 1 (privateFork_shortKernel 6) hret).mpr ?_
    rintro (hfull | ⟨n, hn, hnone | ⟨n', hn', hne | hfail⟩⟩)
    · exact absurd hfull (by decide)
    · cases hnone
    · cases hn
      cases hn'
      exact absurd hne (by decide +kernel)
    · cases hn
      cases hn'
      exact absurd hfail (by decide +kernel)

/-- **Three forks that fail.**  Without an `mm_struct` a slot is lost.  Without a frame for the
second-level table the address space of the child stays on the list.  And without a frame for the
copy of the page the fork returns a pid, with the page writable for both. -/
theorem failed_fork_traces :
    ((doFork smallMachine smallPcbs 128 (shortKernel 6) (.pcb 0) ⟨none, []⟩).2 = -12 ∧
      (shortKernel 6).sched.curPcb = 1 ∧
      (doFork smallMachine smallPcbs 128 (shortKernel 6) (.pcb 0) ⟨none, []⟩).1.sched.curPcb = 2) ∧
    ((shortFork 4).2 = -12 ∧ (shortKernel 4).mmlist.IsRing 0 [] ∧
      (shortFork 4).1.mmlist.IsRing 0 [1]) ∧
    AllocFails smallMachine 128 (shortKernel 5) (.pcb 0) ⟨some 1, [some 2]⟩ ∧
      (shortFork 5).2 = 0 ∧ SharesWritable smallMachine (shortFork 5).1 (.pcb 0) (.pcb 1) := by
  have hret : (shortFork 5).2 = 0 := by decide +kernel
  have hfails : AllocFails smallMachine 128 (shortKernel 5) (.pcb 0) ⟨some 1, [some 2]⟩ :=
    Or.inr ⟨0, rfl, Or.inr ⟨1, rfl, Or.inr (by decide +kernel)⟩⟩
  refine ⟨⟨by decide +kernel, rfl, by decide +kernel⟩, ⟨by decide +kernel, ?_, ?_⟩, hfails, hret,
    (sharesWritable_iff (privateFork_shortKernel 5) hret.ge).mpr hfails⟩
  · exact ⟨⟨rfl, rfl⟩, by decide⟩
  · exact ⟨⟨by decide +kernel, by decide +kernel, by decide +kernel, by decide +kernel⟩, by decide⟩

end Fork

end Yap
