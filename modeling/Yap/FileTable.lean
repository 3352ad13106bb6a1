/-
# The open-file table (`fs/vfs.c`, `proc/proc.c`, `proc/fork.c`)

All open files are slots of one table `FILP`.  Each task has `NR_OPEN` descriptors, which
point to slots.  Three fields of a slot say whether it is in use: `get_empty_filp` asks for
`f_op`, sharing is counted in `f_count`, and a descriptor is readable if `f_inode` is set.
`sys_open`, `sys_close` and the functions that create tasks update them independently.

A call is one step.  What `open_namei` finds, and what a driver's own `open` returns, is
given with the call.
-/
import Yap.Headers
import Yap.RefCount
import Mathlib.Data.Finset.Prod
import Mathlib.Data.List.Find

namespace Yap

namespace FileTable

open List Function Option

/-- `NR_OPEN`. -/
def nrOpen : ℕ := 16

/-- `NR_FILEP`. -/
def nrFilep : ℕ := 32

/-- `MAX_TASK_NUM`. -/
def maxTaskNum : ℕ := 128

/-- The `open` member of a file system's or a driver's own operations: `NULL`, or a function
that leaves the file alone and returns a status. -/
structure DriverOps where
  openFn : Option ℤ
  deriving DecidableEq, Repr

/-- A `struct file_operations`: one of its own, or `def_chr_fops` and `def_blk_fops`, whose
`open` looks the device up. -/
inductive FileOps : Type where
  | own (ops : DriverOps) : FileOps
  | device (block : Bool) : FileOps
  deriving DecidableEq, Repr

/-- The fields of `struct inode` that `sys_open` uses: `i_op` with its `default_file_ops`,
and `i_dev`. -/
structure Inode where
  iOp : Option (Option FileOps)
  iDev : ℕ
  deriving DecidableEq, Repr

/-- `struct file`. -/
structure File where
  fMode : BitVec 32
  fPos : BitVec 32
  fFlags : BitVec 16
  fCount : BitVec 16
  fInode : Option Inode
  fOp : Option FileOps
  deriving DecidableEq, Repr

/-- What the word of a task structure behind the descriptors holds: the inode `pwd`, or a
file pointer that was written over it. -/
inductive Pwd : Type where
  | dir : Pwd
  | file (f : Option ℕ) : Pwd
  deriving DecidableEq, Repr

/-- The part of `struct task_struct` behind `filp`. -/
structure Task where
  filp : ℕ → Option ℕ
  pwd : Pwd

/-- The kernel's tables: the slots, the tasks that have been started, the registered devices
with their operations, and the counters of `alloc_pcb` and `alloc_stack`. -/
structure State where
  FILP : ℕ → File
  tasks : ℕ → Task
  nrTasks : ℕ
  devs : Bool → ℕ → Option DriverOps
  curPcb : ℕ
  curSp : ℕ

namespace State

/-- `current->filp[fd] = f`.  Behind the last descriptor lies `pwd`. -/
def setFilp (s : State) (cur fd : ℕ) (f : Option ℕ) : State :=
  let t := s.tasks cur
  let t := if fd < nrOpen then { t with filp := update t.filp fd f }
    else { t with pwd := .file f }
  { s with tasks := update s.tasks cur t }

/-- Writes to the slot `f`. -/
def setFile (s : State) (f : ℕ) (file : File) : State :=
  { s with FILP := update s.FILP f file }

end State

/-! ## Opening and closing -/

/-- `get_empty_filp()`. -/
def getEmptyFilp (s : State) : Option ℕ :=
  (range nrFilep).find? (fun i => (s.FILP i).fOp = none)

/-- The loop of `sys_open` over the descriptors: the first that is empty, or `NR_OPEN`. -/
def emptyFd (t : Task) : ℕ :=
  ((range nrOpen).find? (fun fd => t.filp fd = none)).getD nrOpen

/-- `f->f_op->open(inode, f)`, if there is one: the status, and `f->f_op` afterwards.
`chrdev_open` and `blkdev_open` replace it by the operations of the device. -/
def FileOps.callOpen (devs : Bool → ℕ → Option DriverOps) (inode : Inode) :
    FileOps → ℤ × FileOps
  | .own ops => (ops.openFn.getD 0, .own ops)
  | .device block =>
    match devs block inode.iDev with
    | none => (-ENODEV, .device block)
    | some ops => (ops.openFn.getD 0, .own ops)

/-- `sys_open(name, flag, mode)`, where `open_namei` returns `ret` and sets `file_inode`. -/
def sysOpen (s : State) (cur : ℕ) (flag mode : BitVec 32) (ret : ℤ) (fileInode : Option Inode) :
    ℤ × State :=
  let fd := emptyFd (s.tasks cur)
  if fd > nrOpen then (-EMFILE, s)
  else
    match getEmptyFilp s with
    | none => (-EMFILE, s)
    | some f =>
      let s := s.setFilp cur fd (some f)
      let file := { s.FILP f with
        fFlags := flag.truncate 16
        fMode := mode
        fCount := (s.FILP f).fCount + 1 }
      let failed := { file with fCount := file.fCount - 1 }
      match fileInode with
      | none => (ret, (s.setFilp cur fd none).setFile f failed)
      | some inode =>
        if ret ≠ 0 then (ret, (s.setFilp cur fd none).setFile f failed)
        else
          let file := { file with fInode := some inode, fPos := 0, fOp := inode.iOp.join }
          match inode.iOp.join with
          | none => (fd, s.setFile f file)
          | some ops =>
            let r := ops.callOpen s.devs inode
            let file := { file with fOp := some r.2 }
            if r.1 ≠ 0 then
              (r.1, (s.setFile f { file with fCount := file.fCount - 1 }).setFilp cur fd none)
            else (fd, s.setFile f file)

/-- `sys_close(fd)`.  No `close` operation of the kernel touches the file. -/
def sysClose (s : State) (cur fd : ℕ) : ℤ × State :=
  if fd ≥ nrOpen then (-EBADF, s)
  else
    match (s.tasks cur).filp fd with
    | none => (-EBADF, s)
    | some f =>
      let s := s.setFilp cur fd none
      let file := s.FILP f
      if file.fCount = 0 then (0, s)
      else (0, s.setFile f { file with fCount := file.fCount - 1, fInode := none })

/-! ## Creating tasks -/

/-- The new task gets copies of `filp` and `pwd` and is put on the run queue. -/
def addTask (s : State) (cur : ℕ) : State :=
  { s with tasks := update s.tasks s.nrTasks (s.tasks cur), nrTasks := s.nrTasks + 1 }

/-- What `kernel_thread` and `kernel_thread_prio` do to the tables. -/
def createThread (s : State) (cur : ℕ) : ℤ × State :=
  if s.curPcb < maxTaskNum then
    let s := { s with curPcb := s.curPcb + 1 }
    if s.curSp < maxTaskNum then (0, addTask { s with curSp := s.curSp + 1 } cur)
    else (-ENOMEM, s)
  else (-ENOMEM, s)

/-- `kernel_thread(f, args)`. -/
def kernelThread (s : State) (cur : ℕ) : ℤ × State := createThread s cur

/-- `kernel_thread_prio(f, args, prio)`. -/
def kernelThreadPrio (s : State) (cur : ℕ) : ℤ × State := createThread s cur

/-- `do_fork(…)`, with the result of `copy_mm` and the pid; `copy_files` does nothing. -/
def doFork (s : State) (cur : ℕ) (copyMm pid : ℤ) : ℤ × State :=
  if s.curPcb < maxTaskNum then
    let s := { s with curPcb := s.curPcb + 1 }
    if copyMm ≠ 0 then (-ENOMEM, s) else (pid, addTask s cur)
  else (-ENOMEM, s)

/-! ## Runs -/

/-- A call by the task `cur`. -/
inductive Op : Type where
  | sysOpen (cur : ℕ) (flag mode : BitVec 32) (ret : ℤ) (fileInode : Option Inode) : Op
  | sysClose (cur fd : ℕ) : Op
  | kernelThread (cur : ℕ) : Op
  | kernelThreadPrio (cur : ℕ) : Op
  | doFork (cur : ℕ) (copyMm pid : ℤ) : Op

/-- The task that makes the call. -/
def Op.cur : Op → ℕ
  | .sysOpen cur _ _ _ _ => cur
  | .sysClose cur _ => cur
  | .kernelThread cur => cur
  | .kernelThreadPrio cur => cur
  | .doFork cur _ _ => cur

def step (s : State) : Op → State
  | .sysOpen cur flag mode ret fileInode => (sysOpen s cur flag mode ret fileInode).2
  | .sysClose cur fd => (sysClose s cur fd).2
  | .kernelThread cur => (kernelThread s cur).2
  | .kernelThreadPrio cur => (kernelThreadPrio s cur).2
  | .doFork cur copyMm pid => (doFork s cur copyMm pid).2

/-- The descriptors of the tasks, as pairs of task and `fd`. -/
def places (s : State) : Finset (ℕ × ℕ) := Finset.range s.nrTasks ×ˢ Finset.range nrOpen

/-- The slot that a descriptor points to. -/
def entry (s : State) (p : ℕ × ℕ) : Option ℕ := (s.tasks p.1).filp p.2

/-- The number of descriptors that point to the slot `i`. -/
def refs (s : State) (i : ℕ) : ℕ := RefCount.refs (places s) (entry s) i

/-- The table invariant: `f_count` counts the descriptors of a slot, and a slot is empty for
`get_empty_filp` if and only if there are none. -/
structure TableOk (s : State) : Prop where
  counted : ∀ i < nrFilep, (s.FILP i).fCount.toNat = refs s i
  empty : ∀ i < nrFilep, (s.FILP i).fOp = none ↔ refs s i = 0

/-- The task has no open file. -/
def NoFiles (s : State) (cur : ℕ) : Prop := ∀ fd < nrOpen, (s.tasks cur).filp fd = none

/-- The calls that keep the invariant.  A file that is found must have operations and an
`open` that succeeds, and the caller must have a descriptor left for it; nothing is ever
closed; and only tasks without open files create tasks. -/
def StepOk (s : State) : Op → Prop
  | .sysOpen cur _ _ ret fileInode =>
    getEmptyFilp s = none ∨ ret ≠ 0 ∨ fileInode = none ∨
      ∃ inode ops, fileInode = some inode ∧ inode.iOp = some (some ops) ∧
        (ops.callOpen s.devs inode).1 = 0 ∧ ¬ ∀ fd < nrOpen, (s.tasks cur).filp fd ≠ none
  | .sysClose cur fd => nrOpen ≤ fd ∨ (s.tasks cur).filp fd = none
  | .kernelThread cur => maxTaskNum ≤ s.curPcb ∨ maxTaskNum ≤ s.curSp ∨ NoFiles s cur
  | .kernelThreadPrio cur => maxTaskNum ≤ s.curPcb ∨ maxTaskNum ≤ s.curSp ∨ NoFiles s cur
  | .doFork cur copyMm _ => maxTaskNum ≤ s.curPcb ∨ copyMm ≠ 0 ∨ NoFiles s cur

/-- The state at boot: no slot is in use and no descriptor is open. -/
structure Fresh (s : State) : Prop where
  files : ∀ i < nrFilep, (s.FILP i).fCount = 0 ∧ (s.FILP i).fOp = none
  tasks : ∀ t < s.nrTasks, NoFiles s t

/-- The states that calls which satisfy `StepOk` reach. -/
inductive Reaches (s₀ : State) : State → Prop
  | start : Reaches s₀ s₀
  | step {s : State} (h : Reaches s₀ s) (op : Op) (hcur : op.cur < s.nrTasks) (hok : StepOk s op) :
      Reaches s₀ (step s op)

/-! ## Slots and references -/

variable {s : State} {f cur fd : ℕ}

theorem getEmptyFilp_eq_some (h : getEmptyFilp s = some f) :
    f < nrFilep ∧ (s.FILP f).fOp = none := by
  have hop := find?_some h
  exact ⟨mem_range.mp (mem_of_find?_eq_some h), of_decide_eq_true hop⟩

theorem emptyFd_cases (t : Task) :
    (emptyFd t < nrOpen ∧ t.filp (emptyFd t) = none) ∨
      (emptyFd t = nrOpen ∧ ∀ fd < nrOpen, t.filp fd ≠ none) := by
  rw [emptyFd]
  cases h : (range nrOpen).find? (fun fd => t.filp fd = none) with
  | some fd =>
    left
    have hnone := find?_some h
    exact ⟨mem_range.mp (mem_of_find?_eq_some h), of_decide_eq_true hnone⟩
  | none =>
    right
    refine ⟨rfl, fun fd hfd => ?_⟩
    rw [find?_eq_none] at h
    have := h fd (mem_range.mpr hfd)
    simpa using this

theorem filp_emptyFd (t : Task) (h : emptyFd t < nrOpen) : t.filp (emptyFd t) = none := by
  rcases emptyFd_cases t with ⟨_, hnone⟩ | ⟨heq, _⟩
  · exact hnone
  · omega

theorem entry_setFilp (s : State) (hfd : fd < nrOpen) (f : Option ℕ) :
    entry (s.setFilp cur fd f) = update (entry s) (cur, fd) f := by
  funext p
  obtain ⟨t, d⟩ := p
  by_cases ht : t = cur
  · subst ht
    by_cases hd : d = fd
    · subst hd
      simp [entry, State.setFilp, hfd]
    · simp [entry, State.setFilp, hfd, hd]
  · simp [entry, State.setFilp, ht]

/-- The write behind the last descriptor changes none. -/
theorem entry_setFilp_beyond (s : State) (hfd : ¬ fd < nrOpen) (f : Option ℕ) :
    entry (s.setFilp cur fd f) = entry s := by
  funext p
  obtain ⟨t, d⟩ := p
  by_cases ht : t = cur
  · subst ht
    simp [entry, State.setFilp, hfd]
  · simp [entry, State.setFilp, ht]

theorem mem_places {t : ℕ} :
    (t, fd) ∈ places s ↔ t < s.nrTasks ∧ fd < nrOpen := by
  simp [places]

/-- A descriptor is set to an empty slot. -/
theorem refs_setFilp_some (hcur : cur < s.nrTasks) (hfd : fd < nrOpen)
    (h : (s.tasks cur).filp fd = none) (i : ℕ) :
    refs (s.setFilp cur fd (some f)) i = refs s i + if i = f then 1 else 0 := by
  rw [refs, entry_setFilp s hfd]
  exact RefCount.refs_fill (mem_places.mpr ⟨hcur, hfd⟩) h

/-- A descriptor is cleared. -/
theorem refs_setFilp_none (hcur : cur < s.nrTasks) (hfd : fd < nrOpen)
    (h : (s.tasks cur).filp fd = some f) (i : ℕ) :
    refs (s.setFilp cur fd none) i + (if i = f then 1 else 0) = refs s i := by
  rw [refs, entry_setFilp s hfd]
  exact RefCount.refs_empty (mem_places.mpr ⟨hcur, hfd⟩) h

/-- Setting an empty descriptor and clearing it again changes no reference. -/
theorem refs_setFilp_undone (s : State) (cur fd : ℕ) (f : Option ℕ)
    (h : fd < nrOpen → (s.tasks cur).filp fd = none) (i : ℕ) :
    refs ((s.setFilp cur fd f).setFilp cur fd none) i = refs s i := by
  by_cases hfd : fd < nrOpen
  · have hback : update (entry s) (cur, fd) none = entry s := by
      rw [← h hfd]
      exact update_eq_self (cur, fd) (entry s)
    rw [refs, entry_setFilp _ hfd, entry_setFilp _ hfd, update_idem, hback]
    rfl
  · rw [refs, entry_setFilp_beyond _ hfd, entry_setFilp_beyond _ hfd]
    rfl

/-- The references after the creation of a task, from the copied descriptors. -/
theorem entry_addTask (s : State) (cur : ℕ) {p : ℕ × ℕ} (hp : p ∈ places s) :
    entry (addTask s cur) p = entry s p := by
  have hne : p.1 ≠ s.nrTasks := by
    have := (mem_places.mp (show (p.1, p.2) ∈ places s from hp)).1
    omega
  simp [entry, addTask, hne]

theorem places_subset_addTask (s : State) (cur : ℕ) : places s ⊆ places (addTask s cur) := by
  intro p hp
  rw [mem_places] at hp ⊢
  exact ⟨Nat.lt_succ_of_lt hp.1, hp.2⟩

theorem entry_addTask_new (s : State) (cur fd : ℕ) :
    entry (addTask s cur) (s.nrTasks, fd) = (s.tasks cur).filp fd := by
  simp [entry, addTask]

/-- A task without open files passes on nothing. -/
theorem refs_addTask (h : NoFiles s cur) (i : ℕ) :
    refs (addTask s cur) i = refs s i := by
  rw [refs, RefCount.refs_of_subset (places_subset_addTask s cur)]
  · exact RefCount.refs_congr (fun p hp => entry_addTask s cur hp)
  · intro p hp hnot
    obtain ⟨t, fd⟩ := p
    rw [mem_places] at hp hnot
    have ht : t = s.nrTasks := by
      have : t < s.nrTasks + 1 := hp.1
      omega
    rw [ht, entry_addTask_new]
    exact h fd hp.2

/-- An inherited descriptor is one more reference. -/
theorem refs_lt_refs_addTask (hfd : fd < nrOpen)
    (h : (s.tasks cur).filp fd = some f) : refs s f < refs (addTask s cur) f := by
  have hcongr : refs s f = RefCount.refs (places s) (entry (addTask s cur)) f :=
    (RefCount.refs_congr (fun p hp => entry_addTask s cur hp)).symm
  rw [hcongr]
  apply RefCount.refs_lt_of_subset (places_subset_addTask s cur)
    (mem_places.mpr ⟨Nat.lt_succ_self s.nrTasks, hfd⟩)
  · intro hmem
    exact absurd (mem_places.mp hmem).1 (lt_irrefl _)
  · rw [entry_addTask_new, h]

/-! ## The invariant -/

/-- The table invariant, with what runs that satisfy `StepOk` keep in addition: no slot has two
descriptors, and descriptors point into the table. -/
structure Inv (s : State) : Prop where
  table : TableOk s
  single : ∀ i, refs s i ≤ 1
  within : ∀ i, nrFilep ≤ i → refs s i = 0

/-- Only the slots and the references matter. -/
theorem TableOk.congr {s' : State} (hfile : s'.FILP = s.FILP) (hrefs : ∀ i, refs s' i = refs s i) :
    TableOk s' ↔ TableOk s := by
  constructor
  · rintro ⟨h1, h2⟩
    rw [hfile] at h1 h2
    exact ⟨fun i hi => (h1 i hi).trans (hrefs i), fun i hi => (h2 i hi).trans (by rw [hrefs])⟩
  · rintro ⟨h1, h2⟩
    refine ⟨fun i hi => ?_, fun i hi => ?_⟩
    · rw [hfile, h1 i hi, hrefs]
    · rw [hfile, h2 i hi, hrefs]

/-- When one slot and the references to it change, the invariant is about that slot. -/
theorem TableOk.iff_slot {s' : State} (h : TableOk s) {file : File} (hf : f < nrFilep)
    (hfile : s'.FILP = update s.FILP f file) (hrefs : ∀ i, i ≠ f → refs s' i = refs s i) :
    TableOk s' ↔ file.fCount.toNat = refs s' f ∧ (file.fOp = none ↔ refs s' f = 0) := by
  constructor
  · rintro ⟨h1, h2⟩
    have h1 := h1 f hf
    have h2 := h2 f hf
    rw [hfile, update_self] at h1 h2
    exact ⟨h1, h2⟩
  · rintro ⟨h1, h2⟩
    refine ⟨fun i hi => ?_, fun i hi => ?_⟩
    · by_cases hif : i = f
      · rw [hfile, hif, update_self, h1]
      · rw [hfile, update_of_ne hif, h.counted i hi, hrefs i hif]
    · by_cases hif : i = f
      · rw [hfile, hif, update_self, h2]
      · rw [hfile, update_of_ne hif, h.empty i hi, hrefs i hif]

/-- `get_empty_filp` hands out the first slot that no descriptor points to. -/
theorem TableOk.getEmptyFilp_eq (h : TableOk s) :
    getEmptyFilp s = (range nrFilep).find? (fun i => refs s i = 0) := by
  apply find?_congr
  intro i hi
  rw [decide_eq_decide]
  exact h.empty i (mem_range.mp hi)

namespace Inv

variable {s : State} {cur : ℕ}

theorem congr (h : Inv s) {s' : State} (hfile : s'.FILP = s.FILP)
    (hrefs : ∀ i, refs s' i = refs s i) : Inv s' :=
  ⟨(TableOk.congr hfile hrefs).mpr h.table, fun i => (hrefs i).trans_le (h.single i),
    fun i hi => (hrefs i).trans (h.within i hi)⟩

variable {f : ℕ} {file : File}

section

variable (h : Inv s)

include h

/-- The slot that `get_empty_filp` finds has no descriptor and count zero. -/
theorem of_getEmptyFilp (hf : getEmptyFilp s = some f) :
    f < nrFilep ∧ refs s f = 0 ∧ (s.FILP f).fCount = 0 := by
  obtain ⟨hlt, hop⟩ := getEmptyFilp_eq_some hf
  have hrefs := (h.table.empty f hlt).mp hop
  refine ⟨hlt, hrefs, ?_⟩
  apply BitVec.eq_of_toNat_eq
  rw [h.table.counted f hlt, hrefs]
  rfl

/-- One slot changes, and is in order afterwards. -/
theorem slot {s' : State} (hf : f < nrFilep)
    (hfile : s'.FILP = update s.FILP f file) (hrefs : ∀ i, i ≠ f → refs s' i = refs s i)
    (hcount : file.fCount.toNat = refs s' f) (hop : file.fOp = none ↔ refs s' f = 0)
    (hle : refs s' f ≤ 1) : Inv s' where
  table := (h.table.iff_slot hf hfile hrefs).mpr ⟨hcount, hop⟩
  single := by
    intro i
    by_cases hif : i = f
    · rw [hif]
      exact hle
    · rw [hrefs i hif]
      exact h.single i
  within := by
    intro i hi
    rw [hrefs i (by omega)]
    exact h.within i hi

/-! ### `sys_open` -/

/-- The path is not found: the slot and the descriptor are given back. -/
theorem sysOpen_not_found (hf : getEmptyFilp s = some f) {flag mode : BitVec 32}
    {ret : ℤ} {fileInode : Option Inode}
    (hno : ret ≠ 0 ∨ fileInode = none) : Inv (sysOpen s cur flag mode ret fileInode).2 := by
  obtain ⟨hlt, hrefs, hcount⟩ := h.of_getEmptyFilp hf
  have hop := (getEmptyFilp_eq_some hf).2
  have hfd := emptyFd_cases (s.tasks cur)
  -- both failing branches leave the same state
  have hstate : (sysOpen s cur flag mode ret fileInode).2 =
      ((s.setFilp cur (emptyFd (s.tasks cur)) (some f)).setFilp cur (emptyFd (s.tasks cur))
        none).setFile f { s.FILP f with
          fFlags := flag.truncate 16
          fMode := mode
          fCount := (s.FILP f).fCount + 1 - 1 } := by
    rw [sysOpen]
    rw [if_neg (by omega), hf]
    cases fileInode with
    | none => rfl
    | some inode =>
      have hret : ret ≠ 0 := hno.resolve_right (by simp)
      simp only
      rw [if_pos hret]
      rfl
  have hundone := refs_setFilp_undone s cur (emptyFd (s.tasks cur)) (some f)
    (filp_emptyFd (s.tasks cur))
  rw [hstate]
  refine h.slot hlt rfl (fun i _ => hundone i) ?_ ?_ ?_
  · show ((s.FILP f).fCount + 1 - 1).toNat = _
    rw [hcount]
    exact ((hundone f).trans hrefs).symm
  · exact iff_of_true hop ((hundone f).trans hrefs)
  · exact ((hundone f).trans hrefs).trans_le (Nat.zero_le 1)

section

variable (hcur : cur < s.nrTasks)

include hcur

/-- The slot keeps its new count: in order if and only if there was a descriptor for it and it
has got operations. -/
theorem opened (hf : getEmptyFilp s = some f)
    (hcount : file.fCount = (s.FILP f).fCount + 1) :
    let s' := (s.setFilp cur (emptyFd (s.tasks cur)) (some f)).setFile f file
    (emptyFd (s.tasks cur) < nrOpen ∧ file.fOp ≠ none → Inv s') ∧
      (TableOk s' → emptyFd (s.tasks cur) < nrOpen ∧ file.fOp ≠ none) := by
  intro s'
  obtain ⟨hlt, hrefs, hzero⟩ := h.of_getEmptyFilp hf
  rw [hzero] at hcount
  have hone : file.fCount.toNat = 1 := by rw [hcount]; rfl
  by_cases hfd : emptyFd (s.tasks cur) < nrOpen
  · have hs' : ∀ i, refs s' i = refs s i + if i = f then 1 else 0 :=
      refs_setFilp_some hcur hfd (filp_emptyFd _ hfd)
    have hother : ∀ i, i ≠ f → refs s' i = refs s i := by
      intro i hi
      rw [hs', if_neg hi, Nat.add_zero]
    have hself : refs s' f = 1 := by rw [hs', if_pos rfl, hrefs]
    constructor
    · rintro ⟨_, hop⟩
      refine h.slot hlt rfl hother (hone.trans hself.symm) ?_ hself.le
      rw [hself]
      exact iff_of_false hop (by decide)
    · intro hok
      refine ⟨hfd, fun hop => ?_⟩
      have := ((h.table.iff_slot hlt rfl hother).mp hok).2.mp hop
      omega
  · -- the pointer has gone into `pwd`, where nothing counts it
    refine ⟨fun hh => absurd hh.1 hfd, fun hok => ?_⟩
    have hs' : ∀ i, refs s' i = refs s i := by
      intro i
      show RefCount.refs _ (entry (s.setFilp cur (emptyFd (s.tasks cur)) (some f))) i = _
      rw [entry_setFilp_beyond s hfd]
      rfl
    have := ((h.table.iff_slot hlt rfl (fun i _ => hs' i)).mp hok).1
    rw [hone, hs', hrefs] at this
    exact absurd this (by decide)

omit hcur in
/-- The operation `open` fails: the count is taken back but the operations stay. -/
theorem not_tableOk_open_failed (hf : getEmptyFilp s = some f) (hop : file.fOp ≠ none) :
    ¬ TableOk (((s.setFilp cur (emptyFd (s.tasks cur)) (some f)).setFile f file).setFilp cur
      (emptyFd (s.tasks cur)) none) := by
  obtain ⟨hlt, hrefs, _⟩ := h.of_getEmptyFilp hf
  generalize hs' : ((s.setFilp cur (emptyFd (s.tasks cur)) (some f)).setFile f file).setFilp cur
    (emptyFd (s.tasks cur)) none = s'
  have hfile : s'.FILP = update s.FILP f file := by rw [← hs']; rfl
  have hundone : ∀ i, refs s' i = refs s i := by
    intro i
    rw [← hs']
    exact refs_setFilp_undone s cur (emptyFd (s.tasks cur)) (some f) (filp_emptyFd _) i
  intro hok
  rw [h.table.iff_slot hlt hfile (fun i _ => hundone i)] at hok
  exact hop (hok.2.mpr ((hundone f).trans hrefs))

theorem sysOpen_spec (flag mode : BitVec 32) (ret : ℤ)
    (fileInode : Option Inode) :
    (StepOk s (.sysOpen cur flag mode ret fileInode) →
      Inv (sysOpen s cur flag mode ret fileInode).2) ∧
      (TableOk (sysOpen s cur flag mode ret fileInode).2 →
        StepOk s (.sysOpen cur flag mode ret fileInode)) := by
  have hle : ¬ emptyFd (s.tasks cur) > nrOpen := by
    rcases emptyFd_cases (s.tasks cur) with ⟨hlt, _⟩ | ⟨heq, _⟩ <;> omega
  have hfd : emptyFd (s.tasks cur) < nrOpen ↔ ¬ ∀ fd < nrOpen, (s.tasks cur).filp fd ≠ none := by
    rcases emptyFd_cases (s.tasks cur) with ⟨hlt, hnone⟩ | ⟨heq, hall⟩
    · exact iff_of_true hlt (fun hall => hall _ hlt hnone)
    · exact iff_of_false (by omega) (fun hno => hno hall)
  cases hf : getEmptyFilp s with
  | none =>
    have hsame : (sysOpen s cur flag mode ret fileInode).2 = s := by
      rw [sysOpen]
      rw [if_neg hle, hf]
    rw [hsame]
    exact ⟨fun _ => h, fun _ => Or.inl hf⟩
  | some f =>
    by_cases hno : ret ≠ 0 ∨ fileInode = none
    · refine ⟨fun _ => h.sysOpen_not_found hf hno, fun _ => Or.inr ?_⟩
      rcases hno with hret | hnone
      · exact Or.inl hret
      · exact Or.inr (Or.inl hnone)
    · push Not at hno
      obtain ⟨hret, hsome⟩ := hno
      obtain ⟨inode, rfl⟩ := ne_none_iff_exists'.mp hsome
      -- a file is found; the condition is about its operations and the descriptor
      have hcond : StepOk s (.sysOpen cur flag mode ret (some inode)) ↔
          ∃ ops, inode.iOp = some (some ops) ∧ (ops.callOpen s.devs inode).1 = 0 ∧
            emptyFd (s.tasks cur) < nrOpen := by
        rw [StepOk, hf, hfd]
        simp [hret]
      rw [hcond, sysOpen]
      rw [if_neg hle, hf]
      simp only
      rw [if_neg (not_not.mpr hret)]
      cases hops : inode.iOp.join with
      | none =>
        refine ⟨?_, fun hok => ?_⟩
        · rintro ⟨ops, hiop, _⟩
          rw [hiop] at hops
          cases hops
        · exact absurd rfl (((h.opened hcur hf rfl).2 hok).2)
      | some ops =>
        have hiop : inode.iOp = some (some ops) := join_eq_some_iff.mp hops
        have hdevs : (s.setFilp cur (emptyFd (s.tasks cur)) (some f)).devs = s.devs := rfl
        simp only [hdevs]
        by_cases hopen : (ops.callOpen s.devs inode).1 = 0
        · rw [if_neg (not_not.mpr hopen)]
          refine ⟨?_, fun hok => ?_⟩
          · rintro ⟨_, _, _, hlt⟩
            exact (h.opened hcur hf rfl).1 ⟨hlt, by simp⟩
          · exact ⟨ops, hiop, hopen, ((h.opened hcur hf rfl).2 hok).1⟩
        · rw [if_pos hopen]
          refine ⟨?_, fun hok => ?_⟩
          · rintro ⟨ops', hiop', hopen', _⟩
            rw [hiop] at hiop'
            cases hiop'
            exact absurd hopen' hopen
          · exact absurd hok (h.not_tableOk_open_failed hf (by simp))

/-! ### `sys_close` and the creation of tasks -/

theorem sysClose_spec (fd : ℕ) :
    (StepOk s (.sysClose cur fd) → Inv (sysClose s cur fd).2) ∧
      (TableOk (sysClose s cur fd).2 → StepOk s (.sysClose cur fd)) := by
  rw [sysClose]
  by_cases hfd : nrOpen ≤ fd
  · rw [if_pos hfd]
    exact ⟨fun _ => h, fun _ => Or.inl hfd⟩
  · rw [if_neg hfd]
    cases hf : (s.tasks cur).filp fd with
    | none => exact ⟨fun _ => h, fun _ => Or.inr hf⟩
    | some f =>
      -- the slot had this one descriptor, and `f_op` stays
      have hrefs := refs_setFilp_none hcur (by omega) hf
      have hself := hrefs f
      have hsingle := h.single f
      rw [if_pos rfl] at hself
      have hlt : f < nrFilep := by
        by_contra hge
        have := h.within f (by omega)
        omega
      have hcount : (s.FILP f).fCount ≠ 0 := by
        intro hzero
        have := h.table.counted f hlt
        rw [hzero] at this
        have : (0 : BitVec 16).toNat = 0 := rfl
        omega
      have hop : (s.FILP f).fOp ≠ none := by
        intro hnone
        have := (h.table.empty f hlt).mp hnone
        omega
      refine ⟨?_, fun hok => ?_⟩
      · rintro (hge | hnone)
        · exact absurd hge hfd
        · rw [hf] at hnone
          cases hnone
      · simp only at hok
        rw [if_neg (show (s.setFilp cur fd none |>.FILP f).fCount ≠ 0 from hcount)] at hok
        have hslot := ((h.table.iff_slot hlt rfl (fun i hi => ?_)).mp hok).2
        · exact absurd (hslot.mpr (show refs (s.setFilp cur fd none) f = 0 by omega)) hop
        · have := hrefs i
          rw [if_neg hi, Nat.add_zero] at this
          exact this

/-- A descriptor points into the table. -/
theorem filp_lt {fd : ℕ} (hfd : fd < nrOpen)
    (hf : (s.tasks cur).filp fd = some f) : f < nrFilep := by
  by_contra hge
  have hzero := RefCount.refs_eq_zero_iff.mp (h.within f (Nat.le_of_not_lt hge))
  exact hzero (cur, fd) (mem_places.mpr ⟨hcur, hfd⟩) hf

/-- A new task keeps the invariant if and only if it inherits no descriptor. -/
theorem addTask_spec :
    (NoFiles s cur → Inv (addTask s cur)) ∧ (TableOk (addTask s cur) → NoFiles s cur) := by
  refine ⟨fun hno => h.congr rfl (refs_addTask hno), fun hok fd hfd => ?_⟩
  cases hf : (s.tasks cur).filp fd with
  | none => rfl
  | some f =>
    have hmore := refs_lt_refs_addTask hfd hf
    have hlt := h.filp_lt hcur hfd hf
    have hcount : (s.FILP f).fCount.toNat = refs (addTask s cur) f := hok.counted f hlt
    rw [h.table.counted f hlt] at hcount
    omega

theorem createThread_spec :
    (maxTaskNum ≤ s.curPcb ∨ maxTaskNum ≤ s.curSp ∨ NoFiles s cur → Inv (createThread s cur).2) ∧
      (TableOk (createThread s cur).2 →
        maxTaskNum ≤ s.curPcb ∨ maxTaskNum ≤ s.curSp ∨ NoFiles s cur) := by
  rw [createThread]
  by_cases hpcb : s.curPcb < maxTaskNum
  · rw [if_pos hpcb]
    by_cases hsp : s.curSp < maxTaskNum
    · rw [if_pos hsp]
      have hcounters : Inv { s with curPcb := s.curPcb + 1, curSp := s.curSp + 1 } :=
        h.congr rfl (fun _ => rfl)
      have hspec := hcounters.addTask_spec hcur
      constructor
      · rintro (hge | hge | hno)
        · omega
        · omega
        · exact hspec.1 hno
      · exact fun hok => Or.inr (Or.inr (hspec.2 hok))
    · rw [if_neg hsp]
      exact ⟨fun _ => h.congr rfl (fun _ => rfl), fun _ => Or.inr (Or.inl (by omega))⟩
  · rw [if_neg hpcb]
    exact ⟨fun _ => h, fun _ => Or.inl (by omega)⟩

theorem doFork_spec (copyMm pid : ℤ) :
    (StepOk s (.doFork cur copyMm pid) → Inv (doFork s cur copyMm pid).2) ∧
      (TableOk (doFork s cur copyMm pid).2 → StepOk s (.doFork cur copyMm pid)) := by
  rw [doFork, StepOk]
  by_cases hpcb : s.curPcb < maxTaskNum
  · rw [if_pos hpcb]
    have hcounters : Inv { s with curPcb := s.curPcb + 1 } := h.congr rfl (fun _ => rfl)
    by_cases hmm : copyMm ≠ 0
    · rw [if_pos hmm]
      exact ⟨fun _ => hcounters, fun _ => Or.inr (Or.inl hmm)⟩
    · rw [if_neg hmm]
      have hspec := hcounters.addTask_spec hcur
      constructor
      · rintro (hge | hne | hno)
        · omega
        · exact absurd hne hmm
        · exact hspec.1 hno
      · exact fun hok => Or.inr (Or.inr (hspec.2 hok))
  · rw [if_neg hpcb]
    exact ⟨fun _ => h, fun _ => Or.inl (by omega)⟩

end

/-- One call: the invariant holds afterwards if and only if the call satisfies `StepOk`. -/
theorem step_spec (op : Op) (hcur : op.cur < s.nrTasks) :
    (StepOk s op → Inv (step s op)) ∧ (TableOk (step s op) → StepOk s op) := by
  cases op with
  | sysOpen cur flag mode ret fileInode => exact h.sysOpen_spec hcur flag mode ret fileInode
  | sysClose cur fd => exact h.sysClose_spec hcur fd
  | kernelThread cur => exact h.createThread_spec hcur
  | kernelThreadPrio cur => exact h.createThread_spec hcur
  | doFork cur copyMm pid => exact h.doFork_spec hcur copyMm pid

end

end Inv

theorem Fresh.inv (h : Fresh s) : Inv s := by
  have hrefs : ∀ i, refs s i = 0 := by
    intro i
    rw [refs, RefCount.refs_eq_zero_iff]
    rintro ⟨t, fd⟩ hp
    obtain ⟨ht, hfd⟩ := mem_places.mp hp
    rw [entry, h.tasks t ht fd hfd]
    exact some_ne_none i |>.symm
  refine ⟨⟨fun i hi => ?_, fun i hi => ?_⟩, fun i => ?_, fun i _ => hrefs i⟩
  · rw [(h.files i hi).1, hrefs]
    rfl
  · exact iff_of_true (h.files i hi).2 (hrefs i)
  · rw [hrefs]
    exact Nat.zero_le 1

theorem inv_reaches {s₀ : State} (h0 : Fresh s₀) (h : Reaches s₀ s) : Inv s := by
  induction h with
  | start => exact h0.inv
  | step _ op hcur hok ih => exact (ih.step_spec op hcur).1 hok

/-- **The open-file table.**  As long as files that are found have operations and open without
error, callers have a descriptor left, nothing is closed and no descriptor is inherited, the
table invariant holds and `get_empty_filp` hands out a slot without descriptors.  The first
call outside these conditions breaks the invariant. -/
theorem open_file_table (s₀ s : State) (h₀ : Fresh s₀) (h : Reaches s₀ s) :
    TableOk s ∧
      getEmptyFilp s = (range nrFilep).find? (fun i => refs s i = 0) ∧
      ∀ op : Op, op.cur < s.nrTasks → (TableOk (step s op) ↔ StepOk s op) := by
  have hinv := inv_reaches h₀ h
  refine ⟨hinv.table, hinv.table.getEmptyFilp_eq, fun op hcur => ?_⟩
  obtain ⟨h1, h2⟩ := hinv.step_spec op hcur
  exact ⟨h2, fun hok => (h1 hok).table⟩

/-! ## Runs that break the invariant -/

/-- One task and no open file. -/
def boot : State where
  FILP := fun _ => ⟨0, 0, 0, 0, none, none⟩
  tasks := fun _ => ⟨fun _ => none, .dir⟩
  nrTasks := 1
  devs := fun _ _ => none
  curPcb := 1
  curSp := 1

theorem fresh_boot : Fresh boot := ⟨fun _ _ => ⟨rfl, rfl⟩, fun _ _ _ _ => rfl⟩

/-- A file of a file system whose `open` returns 0. -/
def plainFile : Inode := ⟨some (some (.own ⟨some 0⟩)), 0⟩

/-- `sys_open` of `plainFile` by the first task. -/
def openPlain : Op := .sysOpen 0 0 0 0 (some plainFile)

/-- The file is opened by a task that has created another one before. -/
theorem open_file_table_two_tasks :
    let s := step (step boot (.kernelThread 0)) openPlain
    (TableOk s ∧ getEmptyFilp s = (range nrFilep).find? (fun i => refs s i = 0) ∧
      ∀ op : Op, op.cur < s.nrTasks → (TableOk (step s op) ↔ StepOk s op)) ∧ refs s 0 = 1 := by
  intro s
  have h : Reaches boot s := by
    refine .step (.step .start (.kernelThread 0) (by decide) ?_) openPlain (by decide) ?_
    · exact Or.inr (Or.inr (fun _ _ => rfl))
    · refine Or.inr (Or.inr (Or.inr ⟨plainFile, _, rfl, rfl, rfl, fun hall => ?_⟩))
      exact hall 0 (by decide) rfl
  exact ⟨open_file_table boot s fresh_boot h, by decide⟩

/-- The file is opened, and the descriptor is inherited: two descriptors, count one.  Or it is
opened and closed 32 times: then no slot is left, although no descriptor is open. -/
theorem inherited_not_counted_and_closed_not_freed :
    (let s := step (step boot openPlain) (.kernelThread 0);
      (s.FILP 0).fCount = 1 ∧ refs s 0 = 2) ∧
    (let s := (range 32).foldl (fun s _ => step (step s openPlain) (.sysClose 0 0)) boot;
      getEmptyFilp s = none ∧ (∀ i < nrFilep, refs s i = 0) ∧
        (sysOpen s 0 0 0 0 (some plainFile)).1 = -24) := by
  refine ⟨⟨by decide, by decide⟩, ?_⟩
  decide +kernel

end FileTable

end Yap
