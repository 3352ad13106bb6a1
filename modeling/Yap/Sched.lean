/-
# Choosing the next task (`proc/proc.c`, `proc/pcb.c`)

For every priority class there is a ring of pcbs: the head in `proc_list[prio]`, which has the
pid -1, and the tasks of the class.  `proc_list[prio].current` is a cursor on the ring.
`OS_GetNextReady` goes through the classes, most urgent first, and walks once around the ring,
from behind the cursor to the cursor; a `PROCESS_READY` task that it meets becomes the cursor.

The ring, written down in the order of that walk, is the list of `Visits`.  A call finds the
first task of this list that is ready and turns the list until this task stands at the end, so
that the ready tasks form a queue (`RoundRobin`): the first is returned and goes to the back.
`pcb_list_add` puts a new pcb somewhere into the list and leaves the order of the others.
-/
import Yap.Proc
import Yap.RoundRobin

namespace Yap

namespace Sched

open List Function

open Proc (processReady)

/-! ## State -/

/-- The priority classes, `PROCESS_PRIO_HIGHEST` to `PROCESS_PRIO_IDLE`. -/
inductive Prio : Type where
  | highest : Prio
  | high : Prio
  | normal : Prio
  | low : Prio
  | idle : Prio
  deriving DecidableEq, Repr

/-- The value of the enumerator; small is urgent. -/
def Prio.rank : Prio → ℕ
  | .highest => 0
  | .high => 1
  | .normal => 2
  | .low => 3
  | .idle => 4

/-- The values of `prio` in the loop up to `PROCESS_PRIO_BUTT`. -/
def Prio.all : List Prio := [.highest, .high, .normal, .low, .idle]

/-- A `struct task_struct`: `proc_list[p].head` or `task_pcb[i]`. -/
inductive Pcb : Type where
  | head (p : Prio) : Pcb
  | pcb (i : ℕ) : Pcb
  deriving DecidableEq, Repr

/-- `struct task_struct`, as far as scheduling is concerned. -/
structure TaskStruct where
  pid : BitVec 32
  state : BitVec 32
  prio : Prio
  deriving DecidableEq, Repr

structure State where
  task : Pcb → TaskStruct
  /-- `next` and `prev` -/
  links : Links Pcb
  /-- `proc_list[prio].current` -/
  cursor : Prio → Pcb
  /-- `current`, `NULL` at first -/
  current : Option Pcb
  oldTask : Option Pcb
  /-- the static `pid`, the next one to be given out -/
  pid : BitVec 32
  /-- `cur_pcb` of `alloc_pcb` -/
  curPcb : ℕ
  /-- `cur_sp` of `alloc_stack` -/
  curSp : ℕ

/-- After the loop of `OS_Init`; `task_pcb` is static and hence zero. -/
def osInit : State where
  task t := match t with
    | .head _ => ⟨-1, 0, .highest⟩
    | .pcb _ => ⟨0, 0, .highest⟩
  links := ⟨id, id⟩
  cursor := .head
  current := none
  oldTask := none
  pid := 0
  curPcb := 0
  curSp := 0

/-! ## New tasks -/

def setTask (s : State) (t : Pcb) (x : TaskStruct) : State :=
  { s with task := update s.task t x }

/-- `pcb_list_add(head, pcb)`, on the links. -/
def pcbListAdd (l : Links Pcb) (head pcb : Pcb) : Links Pcb :=
  let l := l.setNext pcb (l.next head)
  let l := l.setPrev pcb head
  let l := l.setPrev (l.next head) pcb
  l.setNext head pcb

/-- `pcb_list_add(&proc_list[prio].head, pcb)`. -/
def addTask (s : State) (prio : Prio) (pcb : Pcb) : State :=
  { s with links := pcbListAdd s.links (.head prio) pcb }

section

variable (maxTaskNum : ℕ)

section

variable (s : State)

/-- `alloc_pcb()`. -/
def allocPcb : Option (Pcb × State) :=
  if s.curPcb < maxTaskNum then some (.pcb s.curPcb, { s with curPcb := s.curPcb + 1 }) else none

/-- `alloc_stack()`. -/
def allocStack : Option State :=
  if s.curSp < maxTaskNum then some { s with curSp := s.curSp + 1 } else none

/-- `kernel_thread_prio(f, args, prio)`.  The state word is not assigned: a pcb is used only
once, and the array is zero. -/
def kernelThreadPrio (prio : Prio) : State :=
  match allocPcb maxTaskNum s with
  | none => s
  | some (pcb, s) =>
    match allocStack maxTaskNum s with
    | none => s
    | some s =>
      let s := setTask s pcb ⟨s.pid, (s.task pcb).state, prio⟩
      addTask { s with pid := s.pid + 1 } prio pcb

/-- `kernel_thread(f, args)`. -/
def kernelThread : State := kernelThreadPrio maxTaskNum s .normal

/-- `create_init_thread(f, args)`: the pid is 0, whatever the counter says. -/
def createInitThread : State :=
  match allocPcb maxTaskNum s with
  | none => s
  | some (pcb, s) =>
    let s := { s with current := some pcb }
    addTask (setTask s pcb ⟨0, (s.task pcb).state, .normal⟩) .normal pcb

/-- `do_fork`; `copied` tells whether `copy_mm`, `copy_thread` and `copy_files` succeed.
`*p = *current` copies the links, too. -/
def doFork (copied : Bool) : State :=
  match s.current, allocPcb maxTaskNum s with
  | some cur, some (p, s) =>
    let s := { setTask s p (s.task cur) with
      links := (s.links.setNext p (s.links.next cur)).setPrev p (s.links.prev cur) }
    if copied then
      let s := { setTask s p { s.task p with pid := s.pid } with pid := s.pid + 1 }
      addTask s (s.task p).prio p
    else s
  | _, _ => s

/-! ## The scheduler -/

/-- The test in the loop: not a head, and ready. -/
def State.takes (t : Pcb) : Bool :=
  (s.task t).pid ≠ -1 ∧ (s.task t).state = processReady

/-- The `do` loop on the ring of `prio`, for at most so many rounds; `none` if it goes on after
them.  The `continue` for a head leads to the test of the loop. -/
def scan (prio : Prio) : ℕ → Pcb → Option (Option Pcb)
  | 0, _ => none
  | rounds + 1, tmp =>
    let tmp := s.links.next tmp
    if s.takes tmp then some (some tmp)
    else if tmp ≠ s.cursor prio then scan prio rounds tmp
    else some none

/-- What `OS_GetNextReady` comes to: the task with the state after the call, or `panic()`, or
the rounds did not suffice. -/
inductive Next : Type where
  | found (t : Pcb) (s : State) : Next
  | noReady : Next
  | running : Next

/-- The loop over the classes. -/
def search (rounds : ℕ) : List Prio → Next
  | [] => .noReady
  | prio :: prios =>
    match scan s prio rounds (s.cursor prio) with
    | none => .running
    | some (some tmp) =>
      .found tmp { s with
        cursor := update s.cursor prio tmp, oldTask := s.current }
    | some none => search rounds prios

/-- `OS_GetNextReady()`.  There is a head and at most `cur_pcb` tasks on a ring, which bounds
the rounds of the inner loop (`search_of_urgent`). -/
def osGetNextReady : Next := search s (s.curPcb + 1) Prio.all

/-- `OS_IntSched` and `OS_Sched`: the choice, and the switch to the task. -/
def schedule : Next :=
  match osGetNextReady s with
  | .found t s => .found t { s with current := some t }
  | other => other

/-! ## Runs -/

/-- What happens between calls of the scheduler: new tasks, and assignments to state words. -/
inductive Op : Type where
  | createInitThread : Op
  | kernelThread : Op
  | kernelThreadPrio (prio : Prio) : Op
  | doFork (copied : Bool) : Op
  | setState (i : ℕ) (state : BitVec 32) : Op
  deriving DecidableEq, Repr

def act : Op → State
  | .createInitThread => createInitThread maxTaskNum s
  | .kernelThread => kernelThread maxTaskNum s
  | .kernelThreadPrio prio => kernelThreadPrio maxTaskNum s prio
  | .doFork copied => doFork maxTaskNum s copied
  | .setState i state => setTask s (.pcb i) { s.task (.pcb i) with state := state }

end

end

inductive Event : Type where
  | op (o : Op) : Event
  | schedule : Event
  deriving DecidableEq, Repr

/-- The states of a machine with room for `maxTaskNum` pcbs. -/
inductive Reaches (maxTaskNum : ℕ) : State → Prop where
  | init : Reaches maxTaskNum osInit
  | act {s : State} (o : Op) : Reaches maxTaskNum s → Reaches maxTaskNum (act maxTaskNum s o)
  | schedule {s s' : State} {t : Pcb} : Reaches maxTaskNum s → schedule s = .found t s' →
      Reaches maxTaskNum s'

/-- What the calls of the scheduler in a run return; `none` if one does not return. -/
def results (maxTaskNum : ℕ) : List Event → State → Option (List Pcb)
  | [], _ => some []
  | .op o :: es, s => results maxTaskNum es (act maxTaskNum s o)
  | .schedule :: es, s =>
    match schedule s with
    | .found t s => (results maxTaskNum es s).map (t :: ·)
    | _ => none

/-- The number of calls. -/
def calls (es : List Event) : ℕ := es.count .schedule

/-! ## What is asked of the choice -/

/-- `t` is on the ring of the class. -/
def On (s : State) (p : Prio) (t : Pcb) : Prop := ∃ xs, s.links.IsRing (.head p) xs ∧ t ∈ xs

/-- `t` is a ready task of the class. -/
def Ready (s : State) (p : Prio) (t : Pcb) : Prop := On s p t ∧ (s.task t).state = processReady

/-- The most urgent class that has a ready task. -/
def Urgent (s : State) (p : Prio) : Prop :=
  (∃ t, Ready s p t) ∧ ∀ q, q.rank < p.rank → ∀ t, ¬ Ready s q t

/-- At every call of the run the class is the most urgent one, and `ready` are its ready
tasks. -/
def Fixed (maxTaskNum : ℕ) (p : Prio) (ready : Finset Pcb) : List Event → State → Prop
  | [], _ => True
  | .op o :: es, s => Fixed maxTaskNum p ready es (act maxTaskNum s o)
  | .schedule :: es, s =>
    (Urgent s p ∧ ∀ t, Ready s p t ↔ t ∈ ready) ∧
      ∀ t s', schedule s = .found t s' → Fixed maxTaskNum p ready es s'

/-! ## The invariant -/

/-- The rings, read off from their cursors, and the pids. -/
structure Inv (maxTaskNum : ℕ) (s : State) (ys : Prio → List Pcb) : Prop where
  rings : s.links.Rings s.cursor ys
  head : ∀ p, .head p ∈ ys p ++ [s.cursor p]
  headPid : ∀ p, (s.task (.head p)).pid = -1
  tasks : ∀ p, ∀ t ∈ ys p ++ [s.cursor p], t ≠ .head p →
    (∃ i < s.curPcb, t = .pcb i) ∧ (s.task t).pid ≠ -1
  pid : s.pid.toNat ≤ s.curPcb
  room : s.curPcb ≤ maxTaskNum

/-- The order in which the loop visits the ring. -/
def order (s : State) (ys : Prio → List Pcb) (p : Prio) : List Pcb := ys p ++ [s.cursor p]

section

variable {maxTaskNum : ℕ} {s : State} {ys : Prio → List Pcb} {p : Prio} {t : Pcb}

theorem mem_order : t ∈ order s ys p ↔ t ∈ s.cursor p :: ys p := by
  simp [order, or_comm]

theorem on_iff_of_ring {xs : List Pcb} (hring : s.links.IsRing (.head p) xs) :
    On s p t ↔ t ∈ xs :=
  ⟨fun ⟨_, h, ht⟩ => h.unique hring ▸ ht, fun ht => ⟨xs, hring, ht⟩⟩

theorem inv_osInit : Inv maxTaskNum osInit fun _ => [] where
  rings := by
    refine ⟨fun p => (Links.isRing_nil_iff _ _).mpr ⟨rfl, rfl⟩, ?_⟩
    intro i j hij y hy
    rw [mem_singleton] at hy ⊢
    rw [hy]
    exact fun h => hij (Pcb.head.inj h)
  head p := mem_singleton_self _
  headPid p := rfl
  tasks p t ht hne := absurd (mem_singleton.mp ht) hne
  pid := le_rfl
  room := Nat.zero_le _

namespace Inv

section

variable (h : Inv maxTaskNum s ys)

include h

/-- A pcb that has not been given out is on no ring. -/
theorem fresh {i : ℕ} (hi : s.curPcb ≤ i) (p : Prio) :
    Pcb.pcb i ∉ s.cursor p :: ys p := by
  intro hmem
  obtain ⟨⟨j, hj, heq⟩, -⟩ := h.tasks p _ (mem_order.mpr hmem) (by simp)
  have := Pcb.pcb.inj heq
  omega

theorem nodup (p : Prio) : (order s ys p).Nodup :=
  nodup_append_comm.mp (h.rings.ring p).2

/-- A walk around a ring takes at most so many rounds. -/
theorem length_order_le (p : Prio) :
    (order s ys p).length ≤ s.curPcb + 1 := by
  have hsub : order s ys p ⊆ .head p :: (range s.curPcb).map .pcb := by
    intro t ht
    by_cases hne : t = .head p
    · exact hne ▸ mem_cons_self
    · obtain ⟨⟨i, hi, rfl⟩, -⟩ := h.tasks p t ht hne
      exact mem_cons_of_mem _ (List.mem_map.mpr ⟨i, mem_range.mpr hi, rfl⟩)
  simpa using ((h.nodup p).subperm hsub).length_le

/-- The tasks of a class are what its loop visits, without the head. -/
theorem on_iff : On s p t ↔ t ∈ order s ys p ∧ t ≠ .head p := by
  obtain ⟨as, bs, hsplit⟩ := append_of_mem (h.head p)
  have hring : s.links.IsRing (.head p) (bs ++ as) := (h.rings.ring p).rotate_to hsplit
  have hmem : t ∈ order s ys p ↔ t ∈ bs ++ as ∨ t = .head p := by
    unfold order
    rw [hsplit]
    simp only [mem_append, mem_cons]
    tauto
  have hnot : .head p ∉ bs ++ as := (nodup_cons.mp hring.2).1
  rw [hmem, on_iff_of_ring hring]
  constructor
  · intro ht
    exact ⟨.inl ht, fun he => hnot (he ▸ ht)⟩
  · rintro ⟨ht | ht, hne⟩
    · exact ht
    · exact absurd ht hne

/-- The test of the loop finds the ready tasks of the class. -/
theorem takes_iff (ht : t ∈ order s ys p) :
    s.takes t = true ↔ Ready s p t := by
  unfold State.takes Ready
  rw [h.on_iff, decide_eq_true_iff]
  constructor
  · rintro ⟨hpid, hstate⟩
    refine ⟨⟨ht, ?_⟩, hstate⟩
    rintro rfl
    exact hpid (h.headPid p)
  · rintro ⟨⟨-, hne⟩, hstate⟩
    exact ⟨(h.tasks p t ht hne).2, hstate⟩

theorem ready_mem (hr : Ready s p t) : t ∈ order s ys p :=
  (h.on_iff.mp hr.1).1

end

end Inv

/-! ## One call -/

/-- The loop, from any node on: it visits the rest of the ring and the cursor. -/
theorem scan_seg {a : Pcb} {zs : List Pcb} {rounds : ℕ}
    (hseg : s.links.Seg a zs (s.cursor p)) (hnot : s.cursor p ∉ zs) (hr : zs.length < rounds) :
    scan s p rounds a = some ((zs ++ [s.cursor p]).find? s.takes) := by
  induction zs generalizing a rounds with
  | nil =>
    obtain ⟨n, rfl⟩ := Nat.exists_eq_add_of_lt hr
    simp only [scan, hseg.1, nil_append, find?_singleton]
    by_cases ht : s.takes (s.cursor p)
    · rw [if_pos ht, if_pos ht]
    · rw [if_neg ht, if_neg ht, if_neg (not_not.mpr rfl)]
  | cons z zs ih =>
    obtain ⟨n, rfl⟩ := Nat.exists_eq_add_of_lt hr
    obtain ⟨hnext, -, hrest⟩ := hseg
    have hz : z ≠ s.cursor p := fun he => hnot (he ▸ mem_cons_self)
    simp only [scan, hnext, List.cons_append]
    by_cases ht : s.takes z
    · rw [if_pos ht, find?_cons_of_pos ht]
    · rw [if_neg ht, if_pos hz, find?_cons_of_neg ht]
      refine ih hrest (fun hm => hnot (mem_cons_of_mem _ hm)) ?_
      rw [length_cons]
      omega

section

variable (h : Inv maxTaskNum s ys)

include h

variable {s' : State}

/-- **The inner loop** ends and finds the first ready task of its class. -/
theorem scan_eq (p : Prio) :
    scan s p (s.curPcb + 1) (s.cursor p) = some ((order s ys p).find? s.takes) := by
  refine scan_seg (h.rings.ring p).1 (nodup_cons.mp (h.rings.ring p).2).1 ?_
  have := h.length_order_le p
  rw [order, length_append, length_singleton] at this
  omega

omit h in
/-- The classes before `p` in the loop are more urgent. -/
theorem Prio.all_split (p : Prio) :
    ∃ pre post, Prio.all = pre ++ p :: post ∧ ∀ q ∈ pre, q.rank < p.rank := by
  cases p
  · exact ⟨[], _, rfl, by decide⟩
  · exact ⟨[.highest], _, rfl, by decide⟩
  · exact ⟨[.highest, .high], _, rfl, by decide⟩
  · exact ⟨[.highest, .high, .normal], _, rfl, by decide⟩
  · exact ⟨[.highest, .high, .normal, .low], _, rfl, by decide⟩

theorem find?_eq_none_of_not_ready {q : Prio}
    (hq : ∀ t, ¬ Ready s q t) : (order s ys q).find? s.takes = none := by
  rw [find?_eq_none]
  intro t ht htakes
  exact hq t ((h.takes_iff ht).mp htakes)

/-- **The loop over the classes** comes to the most urgent class with a ready task. -/
theorem search_of_urgent (hp : Urgent s p) :
    ∃ t, (order s ys p).find? s.takes = some t ∧
      osGetNextReady s = .found t { s with
        cursor := update s.cursor p t, oldTask := s.current } := by
  obtain ⟨⟨u, hu⟩, hless⟩ := hp
  have hsome : ((order s ys p).find? s.takes).isSome := by
    rw [find?_isSome]
    exact ⟨u, h.ready_mem hu, (h.takes_iff (h.ready_mem hu)).mpr hu⟩
  obtain ⟨t, ht⟩ := Option.isSome_iff_exists.mp hsome
  refine ⟨t, ht, ?_⟩
  obtain ⟨pre, post, hall, hpre⟩ := Prio.all_split p
  unfold osGetNextReady
  rw [hall]
  clear hall
  -- the more urgent classes have no ready task, and the search passes them
  induction pre with
  | nil => simp only [nil_append, search, scan_eq h, ht]
  | cons q pre ih =>
    have hq := find?_eq_none_of_not_ready h (hless q (hpre q mem_cons_self))
    simp only [List.cons_append, search, scan_eq h, hq]
    exact ih fun r hr => hpre r (mem_cons_of_mem _ hr)

omit h in
theorem exists_urgent (h : ∃ p t, Ready s p t) : ∃ p, Urgent s p := by
  obtain ⟨p, hp, hmin⟩ := WellFounded.has_min (measure Prio.rank).wf {p | ∃ t, Ready s p t} h
  exact ⟨p, hp, fun q hq t ht => hmin q ⟨t, ht⟩ hq⟩

/-- The cursor moves to the task that was found. -/
theorem Inv.turn {as bs : List Pcb}
    (hsplit : order s ys p = as ++ t :: bs) (cur old : Option Pcb) :
    Inv maxTaskNum { s with
        cursor := update s.cursor p t, oldTask := old, current := cur }
      (update ys p (bs ++ as)) where
  rings := h.rings.turn p hsplit
  head q := by
    have := h.head q
    by_cases hq : q = p
    · subst hq
      rw [show ys q ++ [s.cursor q] = _ from hsplit] at this
      simp only [update_self, mem_append, mem_cons] at this ⊢
      tauto
    · rw [update_of_ne hq]
      simpa only [update_of_ne hq] using this
  headPid := h.headPid
  tasks q u hu hne := by
    refine h.tasks q u ?_ hne
    by_cases hq : q = p
    · subst hq
      rw [show ys q ++ [s.cursor q] = _ from hsplit]
      simp only [update_self, mem_append, mem_cons] at hu ⊢
      tauto
    · rw [update_of_ne hq] at hu
      simpa only [update_of_ne hq] using hu
  pid := h.pid
  room := h.room

/-! ## New tasks and the rings -/

omit h in
/-- `pcb_list_add` is the insertion behind the head, for a new pcb. -/
theorem pcbListAdd_eq {l : Links Pcb} {head n : Pcb} (h1 : n ≠ head) (h2 : n ≠ l.next head) :
    pcbListAdd l head n = l.link n head (l.next head) := by
  have h1' : head ≠ n := h1.symm
  refine Links.ext ?_ ?_
  · funext y
    simp only [pcbListAdd, Links.link_next, Links.setNext_next, Links.setPrev_next]
  · funext y
    simp only [pcbListAdd, Links.link_prev, Links.setNext_prev, Links.setPrev_prev,
      Links.setPrev_next, Links.setNext_next, if_neg h1']
    split_ifs with ha hb
    · exact absurd (hb.symm.trans ha) h2
    · rfl
    · rfl
    · rfl

/-- A pcb has been taken, and nothing but its fields has been written. -/
structure Taken (s s' : State) : Prop where
  links : ∀ y, y ≠ .pcb s.curPcb →
    s'.links.next y = s.links.next y ∧ s'.links.prev y = s.links.prev y
  task : ∀ y, y ≠ .pcb s.curPcb → s'.task y = s.task y
  cursor : s'.cursor = s.cursor
  count : s'.curPcb = s.curPcb + 1
  pid : s'.pid.toNat ≤ s.curPcb + 1

theorem Inv.taken (hroom : s.curPcb < maxTaskNum)
    (ht : Taken s s') : Inv maxTaskNum s' ys where
  rings := by
    rw [ht.cursor]
    refine ⟨fun p => (h.rings.ring p).congr ?_, h.rings.disj⟩
    intro y hy
    exact ht.links y fun he => h.fresh le_rfl p (he ▸ hy)
  head p := by
    rw [ht.cursor]
    exact h.head p
  headPid p := by
    rw [ht.task _ (by simp)]
    exact h.headPid p
  tasks p t hmem hne := by
    rw [ht.cursor] at hmem
    obtain ⟨⟨i, hi, rfl⟩, hpid⟩ := h.tasks p t hmem hne
    have hold : Pcb.pcb i ≠ .pcb s.curPcb := by
      intro he
      have := Pcb.pcb.inj he
      omega
    rw [ht.task _ hold, ht.count]
    exact ⟨⟨i, by omega, rfl⟩, hpid⟩
  pid := by
    rw [ht.count]
    exact ht.pid
  room := by
    rw [ht.count]
    omega

/-- A task that is on no ring joins a class. -/
theorem Inv.addTask {i : ℕ} (hi : i < s.curPcb)
    (hfresh : ∀ q, Pcb.pcb i ∉ s.cursor q :: ys q) (hpid : (s.task (.pcb i)).pid ≠ -1)
    (p : Prio) :
    ∃ as bs, ys p = as ++ bs ∧
      Inv maxTaskNum (addTask s p (.pcb i)) (update ys p (as ++ .pcb i :: bs)) := by
  have hhead := h.head p
  have hnext : s.links.next (.head p) ∈ s.cursor p :: ys p :=
    (h.rings.ring p).next_mem (mem_order.mp hhead)
  have hlinks : (Sched.addTask s p (.pcb i)).links = _ :=
    pcbListAdd_eq (by simp) fun he => hfresh p (he ▸ hnext)
  obtain ⟨as, bs, hsplit, hrings⟩ := h.rings.link_into p hhead hfresh
  refine ⟨as, bs, hsplit, ?_⟩
  have hmem : ∀ q t, t ∈ update ys p (as ++ .pcb i :: bs) q ++ [s.cursor q] →
      t = .pcb i ∨ t ∈ ys q ++ [s.cursor q] := by
    intro q t ht
    by_cases hq : q = p
    · subst hq
      rw [update_self] at ht
      rw [hsplit]
      simp only [mem_append, mem_cons] at ht ⊢
      tauto
    · rw [update_of_ne hq] at ht
      exact .inr ht
  exact {
    rings := hlinks ▸ hrings
    head := by
      intro q
      have := h.head q
      by_cases hq : q = p
      · subst hq
        rw [hsplit] at this
        rw [update_self]
        simp only [mem_append, mem_cons] at this ⊢
        tauto
      · rw [update_of_ne hq]
        exact this
    headPid := h.headPid
    tasks := by
      intro q t ht hne
      rcases hmem q t ht with rfl | ht
      · exact ⟨⟨i, hi, rfl⟩, hpid⟩
      · exact h.tasks q t ht hne
    pid := h.pid
    room := h.room }

/-- At most the pcb `n` has come in between. -/
def Grows (n : Pcb) (ys ys' : Prio → List Pcb) : Prop :=
  ∀ q, ys' q = ys q ∨ ∃ as bs, ys q = as ++ bs ∧ ys' q = as ++ n :: bs

omit h in
theorem Grows.refl (n : Pcb) (ys : Prio → List Pcb) : Grows n ys ys := fun _ => .inl rfl

/-- A new task with a pid other than -1 joins a class. -/
theorem Inv.joins (hroom : s.curPcb < maxTaskNum)
    (ht : Taken s s') (hpid : (s'.task (.pcb s.curPcb)).pid ≠ -1) (p : Prio) :
    ∃ ys', Inv maxTaskNum (Sched.addTask s' p (.pcb s.curPcb)) ys' ∧
      (Sched.addTask s' p (.pcb s.curPcb)).cursor = s.cursor ∧ Grows (.pcb s.curPcb) ys ys' := by
  have hfresh : ∀ q, Pcb.pcb s.curPcb ∉ s'.cursor q :: ys q := by
    rw [ht.cursor]
    exact h.fresh le_rfl
  obtain ⟨as, bs, hsplit, hinv⟩ :=
    (h.taken hroom ht).addTask (by rw [ht.count]; omega) hfresh hpid p
  refine ⟨_, hinv, ht.cursor, ?_⟩
  intro q
  by_cases hq : q = p
  · subst hq
    rw [update_self]
    exact .inr ⟨as, bs, hsplit, rfl⟩
  · rw [update_of_ne hq]
    exact .inl rfl

/-- The counter never gives out -1. -/
theorem Inv.pid_ne (hroom : s.curPcb < maxTaskNum)
    (hmax : maxTaskNum < 2 ^ 32) : s.pid ≠ -1 := by
  intro he
  have hle := h.pid
  have hval : (-1 : BitVec 32).toNat = 2 ^ 32 - 1 := rfl
  rw [he, hval] at hle
  omega

omit h in
theorem toNat_succ_le (x : BitVec 32) : (x + 1).toNat ≤ x.toNat + 1 := by
  exact Nat.mod_le _ _

/-- **One operation** leaves the cursors and puts at most one new pcb into one ring. -/
theorem inv_act (hmax : maxTaskNum < 2 ^ 32) (o : Op) :
    ∃ ys', Inv maxTaskNum (act maxTaskNum s o) ys' ∧
      (act maxTaskNum s o).cursor = s.cursor ∧ Grows (.pcb s.curPcb) ys ys' := by
  have hkernel : ∀ prio, ∃ ys', Inv maxTaskNum (kernelThreadPrio maxTaskNum s prio) ys' ∧
      (kernelThreadPrio maxTaskNum s prio).cursor = s.cursor ∧ Grows (.pcb s.curPcb) ys ys' := by
    intro prio
    unfold kernelThreadPrio allocPcb
    by_cases hroom : s.curPcb < maxTaskNum
    · rw [if_pos hroom]
      simp only [allocStack]
      by_cases hstack : s.curSp < maxTaskNum
      · rw [if_pos hstack]
        refine h.joins hroom ?_ ?_ prio
        · refine ⟨fun _ _ => ⟨rfl, rfl⟩, fun y hy => update_of_ne hy _ _, rfl, rfl, ?_⟩
          exact (toNat_succ_le s.pid).trans (Nat.succ_le_succ h.pid)
        · simp only [setTask, update_self]
          exact h.pid_ne hroom hmax
      · rw [if_neg hstack]
        refine ⟨ys, h.taken hroom ?_, rfl, .refl _ _⟩
        exact ⟨fun _ _ => ⟨rfl, rfl⟩, fun _ _ => rfl, rfl, rfl, h.pid.trans (Nat.le_succ _)⟩
    · rw [if_neg hroom]
      exact ⟨ys, h, rfl, .refl _ _⟩
  cases o with
  | createInitThread =>
    simp only [act, createInitThread, allocPcb]
    by_cases hroom : s.curPcb < maxTaskNum
    · rw [if_pos hroom]
      refine h.joins hroom ?_ ?_ .normal
      · exact ⟨fun _ _ => ⟨rfl, rfl⟩, fun y hy => update_of_ne hy _ _, rfl, rfl,
          h.pid.trans (Nat.le_succ _)⟩
      · simp only [setTask, update_self]
        decide
    · rw [if_neg hroom]
      exact ⟨ys, h, rfl, .refl _ _⟩
  | kernelThread => exact hkernel .normal
  | kernelThreadPrio prio => exact hkernel prio
  | doFork copied =>
    simp only [act, doFork, allocPcb]
    cases hcur : s.current with
    | none => exact ⟨ys, h, rfl, .refl _ _⟩
    | some cur =>
      by_cases hroom : s.curPcb < maxTaskNum
      · have hlinks : ∀ y, y ≠ .pcb s.curPcb →
            ((s.links.setNext (.pcb s.curPcb) (s.links.next cur)).setPrev (.pcb s.curPcb)
              (s.links.prev cur)).next y = s.links.next y ∧
            ((s.links.setNext (.pcb s.curPcb) (s.links.next cur)).setPrev (.pcb s.curPcb)
              (s.links.prev cur)).prev y = s.links.prev y := by
          intro y hy
          simp [hy]
        rw [if_pos hroom]
        simp only
        cases copied with
        | false =>
          refine ⟨ys, h.taken hroom ?_, rfl, .refl _ _⟩
          exact ⟨hlinks, fun y hy => update_of_ne hy _ _, rfl, rfl,
            h.pid.trans (Nat.le_succ _)⟩
        | true =>
          refine h.joins hroom ?_ ?_ _
          · refine ⟨hlinks, ?_, rfl, rfl, ?_⟩
            · intro y hy
              simp only [setTask, update_of_ne hy]
            · exact (toNat_succ_le s.pid).trans (Nat.succ_le_succ h.pid)
          · simp only [setTask, update_self]
            exact h.pid_ne hroom hmax
      · rw [if_neg hroom]
        exact ⟨ys, h, rfl, .refl _ _⟩
  | setState i state =>
    refine ⟨ys, ⟨h.rings, h.head, ?_, ?_, h.pid, h.room⟩, rfl, .refl _ _⟩
    · intro p
      exact h.headPid p
    · intro p t ht hne
      obtain ⟨hi, hpid⟩ := h.tasks p t ht hne
      refine ⟨hi, ?_⟩
      simp only [act, setTask]
      by_cases he : t = .pcb i
      · subst he
        rw [update_self]
        exact hpid
      · rw [update_of_ne he]
        exact hpid

/-! ## Calls of the scheduler -/

/-- The choice, in the order of the visits: the first ready task of the most urgent class. -/
theorem schedule_of_urgent (hp : Urgent s p) :
    ∃ t as bs, order s ys p = as ++ t :: bs ∧ s.takes t = true ∧ (∀ x ∈ as, ¬ s.takes x = true) ∧
      schedule s = .found t { s with
        cursor := update s.cursor p t, oldTask := s.current, current := some t } := by
  obtain ⟨t, hfind, hnext⟩ := search_of_urgent h hp
  obtain ⟨ht, as, bs, hsplit, has⟩ := find?_eq_some_iff_append.mp hfind
  refine ⟨t, as, bs, hsplit, ht, fun x hx => by simpa using has x hx, ?_⟩
  rw [schedule, hnext]

theorem schedule_of_not_ready (hno : ∀ p t, ¬ Ready s p t) :
    schedule s = .noReady := by
  have hscan : ∀ p, scan s p (s.curPcb + 1) (s.cursor p) = some none := by
    intro p
    rw [scan_eq h, find?_eq_none_of_not_ready h (hno p)]
  simp only [schedule, osGetNextReady, Prio.all, search, hscan]

theorem inv_schedule (hf : schedule s = .found t s') :
    ∃ ys', Inv maxTaskNum s' ys' := by
  by_cases hready : ∃ p t, Ready s p t
  · obtain ⟨p, hp⟩ := exists_urgent hready
    obtain ⟨u, as, bs, hsplit, -, -, hnext⟩ := schedule_of_urgent h hp
    rw [hnext] at hf
    obtain ⟨-, rfl⟩ := Next.found.inj hf
    exact ⟨_, h.turn hsplit _ _⟩
  · push Not at hready
    rw [schedule_of_not_ready h hready] at hf
    exact absurd hf (by simp)

omit h in
theorem exists_inv (hmax : maxTaskNum < 2 ^ 32) (hs : Reaches maxTaskNum s) :
    ∃ ys, Inv maxTaskNum s ys := by
  induction hs with
  | init => exact ⟨_, inv_osInit⟩
  | act o _ ih =>
    obtain ⟨ys, h⟩ := ih
    obtain ⟨ys', h', -⟩ := inv_act h hmax o
    exact ⟨ys', h'⟩
  | schedule _ hf ih =>
    obtain ⟨ys, h⟩ := ih
    exact inv_schedule h hf

/-! ## Turns -/

/-- A new task outside `ready` does not show among the tasks of `ready`. -/
theorem filter_order_act {ready : Finset Pcb}
    (hsub : ∀ t ∈ ready, t ∈ order s ys p) {ys' : Prio → List Pcb}
    (hcursor : s'.cursor = s.cursor) (hgrows : Grows (.pcb s.curPcb) ys ys') :
    (order s' ys' p).filter (· ∈ ready) = (order s ys p).filter (· ∈ ready) ∧
      ∀ t ∈ ready, t ∈ order s' ys' p := by
  have hnew : Pcb.pcb s.curPcb ∉ ready := fun hm =>
    h.fresh le_rfl p (mem_order.mp (hsub _ hm))
  unfold order at hsub ⊢
  rw [hcursor]
  rcases hgrows p with heq | ⟨as, bs, hsplit, heq⟩
  · rw [heq]
    exact ⟨rfl, hsub⟩
  · rw [hsplit] at hsub ⊢
    rw [heq, List.append_assoc, List.cons_append, List.append_assoc]
    refine ⟨RoundRobin.filter_insert (by simpa using hnew) _ _, ?_⟩
    intro t ht
    have := hsub t ht
    simp only [mem_append, mem_cons] at this ⊢
    tauto

end

/-- **Turns.**  While the ready tasks of the most urgent class stay the same, they are served
in turns, in the order in which the loop visits them. -/
theorem results_eq_serve (hmax : maxTaskNum < 2 ^ 32) {ready : Finset Pcb} (es : List Event)
    (h : Inv maxTaskNum s ys) (hsub : ∀ t ∈ ready, t ∈ order s ys p)
    (hfix : Fixed maxTaskNum p ready es s) :
    results maxTaskNum es s =
      some (RoundRobin.serve (calls es) ((order s ys p).filter (· ∈ ready))) := by
  induction es generalizing s ys with
  | nil => rfl
  | cons e es ih =>
    cases e with
    | op o =>
      obtain ⟨ys', h', hcursor, hgrows⟩ := inv_act h hmax o
      obtain ⟨hfilter, hsub'⟩ := filter_order_act h hsub hcursor hgrows
      have hcalls : calls (.op o :: es) = calls es := count_cons_of_ne (by simp)
      rw [hcalls, ← hfilter]
      exact ih h' hsub' hfix
    | schedule =>
      obtain ⟨⟨hurgent, hready⟩, hnext⟩ := hfix
      obtain ⟨t, as, bs, hsplit, ht, has, hfound⟩ := schedule_of_urgent h hurgent
      -- on this ring the loop looks for the members of `ready`
      have htakes : ∀ x ∈ order s ys p, s.takes x = true ↔ x ∈ ready := fun x hx =>
        (h.takes_iff hx).trans (hready x)
      have htr : t ∈ ready := (htakes t (by rw [hsplit]; simp)).mp ht
      have hasr : ∀ x ∈ as, ¬ decide (x ∈ ready) = true := by
        intro x hx hm
        exact has x hx ((htakes x (by rw [hsplit]; simp [hx])).mpr (by simpa using hm))
      obtain ⟨hbefore, hafter⟩ := RoundRobin.filter_turn hasr (decide_eq_true htr) bs
      have h' := h.turn hsplit (some t) s.current
      have horder : order { s with
            cursor := update s.cursor p t, oldTask := s.current, current := some t }
          (update ys p (bs ++ as)) p = (bs ++ as) ++ [t] := by
        simp [order]
      have hsub' : ∀ u ∈ ready, u ∈ (bs ++ as) ++ [t] := by
        intro u hu
        have := hsub u hu
        rw [hsplit] at this
        simp only [mem_append, mem_cons] at this ⊢
        tauto
      have hrest := ih h' (by rw [horder]; exact hsub') (hnext _ _ hfound)
      have hcalls : calls (.schedule :: es) = calls es + 1 := count_cons_self
      simp only [results, hfound]
      rw [hrest, horder, hafter, hcalls, hsplit, hbefore]
      rfl

end

/-- **The scheduler's choice.**  In every reachable state with a ready task, `OS_GetNextReady`
returns a ready task of the most urgent class that has one; it leaves all rings as they are and
all cursors on them.  As many calls as this class has ready tasks, with anything between them
that keeps these tasks and the class, return each of them once. -/
theorem osGetNextReady_fair {maxTaskNum : ℕ} (hmax : maxTaskNum < 2 ^ 32) {s : State}
    (hs : Reaches maxTaskNum s) :
    ((∃ p t, Ready s p t) → ∃ p t s', osGetNextReady s = .found t s' ∧ Urgent s p ∧
      Ready s p t ∧ (∀ q, t ≠ .head q) ∧ s'.cursor p = t ∧
      ∀ q, ∃ xs, s.links.IsRing (.head q) xs ∧ s'.links.IsRing (.head q) xs ∧
        s'.cursor q ∈ .head q :: xs) ∧
    ∀ p ready es, (∀ t, Ready s p t ↔ t ∈ ready) → Fixed maxTaskNum p ready es s →
      calls es = ready.card →
        ∃ ts, results maxTaskNum es s = some ts ∧ ts.Nodup ∧ ∀ t, t ∈ ts ↔ t ∈ ready := by
  obtain ⟨ys, h⟩ := exists_inv hmax hs
  refine ⟨?_, ?_⟩
  · intro hready
    obtain ⟨p, hp⟩ := exists_urgent hready
    obtain ⟨t, hfind, hnext⟩ := search_of_urgent h hp
    obtain ⟨ht, as, bs, hsplit, -⟩ := find?_eq_some_iff_append.mp hfind
    have hmem : t ∈ order s ys p := mem_of_find?_eq_some hfind
    have hrt : Ready s p t := (h.takes_iff hmem).mp ht
    obtain ⟨⟨i, -, rfl⟩, -⟩ := h.tasks p t hmem (h.on_iff.mp hrt.1).2
    refine ⟨p, _, _, hnext, hp, hrt, by simp, update_self .., ?_⟩
    intro q
    obtain ⟨cs, ds, hq⟩ := append_of_mem (h.head q)
    have hring : s.links.IsRing (.head q) (ds ++ cs) := (h.rings.ring q).rotate_to hq
    refine ⟨_, hring, hring, ?_⟩
    -- the cursor is a node of the ring, before and after the call
    have hnode : ∀ x ∈ order s ys q, x ∈ .head q :: (ds ++ cs) := by
      intro x hx
      rw [order, hq] at hx
      simp only [mem_append, mem_cons] at hx ⊢
      tauto
    by_cases hqp : q = p
    · subst hqp
      show update s.cursor q _ q ∈ _
      rw [update_self]
      exact hnode _ hmem
    · show update s.cursor p _ q ∈ _
      rw [update_of_ne hqp]
      exact hnode _ (mem_order.mpr mem_cons_self)
  · intro p ready es hready hfix hcalls
    have hsub : ∀ t ∈ ready, t ∈ order s ys p := fun t ht => h.ready_mem ((hready t).mpr ht)
    have hmem : ∀ t, t ∈ (order s ys p).filter (· ∈ ready) ↔ t ∈ ready := by
      intro t
      simp only [mem_filter, decide_eq_true_eq]
      exact and_iff_right_of_imp (hsub t)
    have hnodup : ((order s ys p).filter (· ∈ ready)).Nodup := (h.nodup p).filter _
    have hlen : ((order s ys p).filter (· ∈ ready)).length = calls es := by
      have hset : ((order s ys p).filter (· ∈ ready)).toFinset = ready := by
        ext t
        rw [List.mem_toFinset, hmem]
      rw [hcalls, ← toFinset_card_of_nodup hnodup, hset]
    refine ⟨_, results_eq_serve hmax es h hsub hfix, ?_⟩
    rw [← hlen, RoundRobin.serve_length]
    exact ⟨hnodup, hmem⟩

/-- The init task and a kernel thread, both ready. -/
def twoTasks : State := act 128 (act 128 osInit .createInitThread) .kernelThread

theorem reaches_twoTasks : Reaches 128 twoTasks :=
  .act .kernelThread (.act .createInitThread .init)

/-- A state with two ready tasks in the class `normal` and none in the classes above. -/
theorem urgent_of_two {s : State} (hnormal : s.links.IsRing (.head .normal) [.pcb 1, .pcb 0])
    (hhigh : s.links.IsRing (.head .high) []) (hhighest : s.links.IsRing (.head .highest) [])
    (h0 : (s.task (.pcb 0)).state = processReady) (h1 : (s.task (.pcb 1)).state = processReady) :
    Urgent s .normal ∧ ∀ t, Ready s .normal t ↔ t ∈ ({.pcb 0, .pcb 1} : Finset Pcb) := by
  have hready : ∀ t, Ready s .normal t ↔ t ∈ ({.pcb 0, .pcb 1} : Finset Pcb) := by
    intro t
    rw [Ready, on_iff_of_ring hnormal, Finset.mem_insert, Finset.mem_singleton, mem_cons,
      mem_singleton]
    constructor
    · rintro ⟨rfl | rfl, -⟩
      · exact .inr rfl
      · exact .inl rfl
    · rintro (rfl | rfl)
      · exact ⟨.inr rfl, h0⟩
      · exact ⟨.inl rfl, h1⟩
  refine ⟨⟨⟨.pcb 0, (hready _).mpr (by simp)⟩, ?_⟩, hready⟩
  intro q hq t ht
  cases q with
  | highest => exact absurd ((on_iff_of_ring hhighest).mp ht.1) not_mem_nil
  | high => exact absurd ((on_iff_of_ring hhigh).mp ht.1) not_mem_nil
  | normal | low | idle => exact absurd hq (by decide)

/-- Two calls with the creation of the idle task between them return both tasks. -/
theorem osGetNextReady_fair_twoTasks :
    ∃ ts, results 128 [.schedule, .op (.kernelThreadPrio .idle), .schedule] twoTasks = some ts ∧
      ts.Nodup ∧ ∀ t, t ∈ ts ↔ t ∈ ({.pcb 0, .pcb 1} : Finset Pcb) := by
  have hfirst := urgent_of_two (s := twoTasks) ⟨⟨rfl, rfl, rfl, rfl, rfl, rfl⟩, by decide⟩
    ⟨⟨rfl, rfl⟩, by decide⟩ ⟨⟨rfl, rfl⟩, by decide⟩ rfl rfl
  refine (osGetNextReady_fair (by decide) reaches_twoTasks).2 .normal _ _ hfirst.2 ?_ rfl
  refine ⟨hfirst, ?_⟩
  intro t s' hf
  obtain ⟨rfl, rfl⟩ := Next.found.inj hf
  refine ⟨urgent_of_two ⟨⟨rfl, rfl, rfl, rfl, rfl, rfl⟩, by decide⟩ ⟨⟨rfl, rfl⟩, by decide⟩
    ⟨⟨rfl, rfl⟩, by decide⟩ rfl rfl, ?_⟩
  intro t s' _
  trivial

end Sched

end Yap
