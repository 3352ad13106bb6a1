/-
# Sleeping, waiting and completing (`proc/proc.c`, `include/wait.h`)

Tasks with their state words, the sleep list, wait queues and completions.  A step is what
runs without interruption: a critical section of a task, one assignment to a state word, or
an interrupt.  The running task is the one that executes; after it has blocked, none does
until the scheduler picks a task that is `PROCESS_READY`.

A task inside `do_wait_for_common` is recorded with the completion it waits for; a wait
queue entry on `x->wq.task_list` is named by its task, `wq->priv`.
-/
import Yap.ListHead

namespace Yap

namespace Proc

open BitVec

/-! ## Constants -/

/-- `PROCESS_READY`. -/
def processReady : BitVec 32 := 0

/-- `PROCESS_SLEEP`. -/
def processSleepBit : BitVec 32 := 1

/-- `PROCESS_WAIT`. -/
def processWait : BitVec 32 := 2

/-- `PROCESS_WAIT_INTERRUPTIBLE`. -/
def processWaitInterruptible : BitVec 32 := 8

/-- `HZ`. -/
def hz : BitVec 32 := 100

/-! ## State -/

/-- `struct task_struct`, as far as sleeping and waiting are concerned. -/
structure TaskStruct where
  state : BitVec 32
  sleepTime : BitVec 32
  deriving DecidableEq, Repr

/-- The nodes of the sleep list: `sleep_proc_list_head` and the tasks. -/
inductive Node : Type where
  | head : Node
  | task (t : ℕ) : Node
  deriving DecidableEq, Repr

/-- `struct completion`. -/
structure Completion where
  done : BitVec 32
  waiters : List ℕ
  deriving DecidableEq, Repr

/-- The tasks and what they block on. -/
structure State where
  task : ℕ → TaskStruct
  /-- `next_sleep_proc` and `prev_sleep_proc` -/
  links : Links Node
  /-- `current`, while it executes -/
  running : Option ℕ
  /-- `wq->priv` of each wait queue -/
  priv : ℕ → Option ℕ
  completion : ℕ → Completion
  /-- the completion in whose `do_wait_for_common` a task is -/
  inside : ℕ → Option ℕ
  /-- where `wq.task_list` of its `do_wait_for_common` lies, on its stack -/
  wqAddr : ℕ → BitVec 32

/-- Write a task. -/
def setTask (s : State) (t : ℕ) (x : TaskStruct) : State :=
  { s with task := fun u => if u = t then x else s.task u }

/-- `set_task_state(t, state)`. -/
def setTaskState (s : State) (t : ℕ) (state : BitVec 32) : State :=
  setTask s t { s.task t with state := state }

variable {d : BitVec 32} {ok : State → Event → Prop} {s : State} {t : ℕ}

@[simp] theorem setTaskState_self (state : BitVec 32) :
    ((setTaskState s t state).task t).state = state := by
  simp [setTaskState, setTask]

theorem setTaskState_of_ne {t u : ℕ} (state : BitVec 32) (h : u ≠ t) :
    (setTaskState s t state).task u = s.task u := if_neg h

theorem toNat_sub_one (h : d ≠ 0) : (d - 1).toNat = d.toNat - 1 := by
  have hpos := toNat_pos_of_ne_zero h
  have hone : (1 : BitVec 32).toNat = 1 := rfl
  rw [toNat_sub_of_le (by rw [le_def]; omega), hone]

theorem toNat_add_one (h : d ≠ BitVec.allOnes 32) :
    (d + 1).toNat = d.toNat + 1 := by
  have hne : d.toNat ≠ 2 ^ 32 - 1 := fun h0 => h (eq_of_toNat_eq (by rw [h0]; rfl))
  have hone : (1 : BitVec 32).toNat = 1 := rfl
  rw [toNat_add, hone]
  omega

/-- The task has `PROCESS_SLEEP` set. -/
def Sleeping (s : State) (t : ℕ) : Prop := (s.task t).state &&& processSleepBit ≠ 0

instance (s : State) (t : ℕ) : Decidable (Sleeping s t) := inferInstanceAs (Decidable (_ ≠ _))

/-! ## The sleep list -/

/-- `add_current_to_sleep_list`, for the task `t`. -/
def addToSleepList (s : State) (t : ℕ) : State :=
  { s with links := s.links.link (.task t) .head (s.links.next .head) }

/-- `process_sleep` and `process_msleep` of the task `t`, up to the call of the scheduler. -/
def goToSleep (s : State) (t : ℕ) (ticks : BitVec 32) : State :=
  addToSleepList
    { setTask s t ⟨(s.task t).state ||| processSleepBit, ticks⟩ with running := none } t

/-- The `sleep_time` of `process_sleep(sec)`. -/
def sleepTicks (sec : BitVec 32) : BitVec 32 := sec * hz

/-- The `sleep_time` of `process_msleep(m)`. -/
def msleepTicks (m : BitVec 32) : BitVec 32 :=
  let n := m * hz / 1000
  if n = 0 then 1 else n

/-- `update_sleeping_proc` for one task. -/
def tickTask (s : State) (t : ℕ) : State :=
  let n := if 0 < (s.task t).sleepTime then (s.task t).sleepTime - 1 else (s.task t).sleepTime
  if n = 0 then
    { setTask s t ⟨(s.task t).state &&& ~~~processSleepBit, n⟩ with
      links := s.links.unlink (.task t) }
  else setTask s t ⟨(s.task t).state, n⟩

/-- The loop of `update_sleeping_proc` from a node on, with the tasks it visits. -/
def sweep : ℕ → State → Node → Option (State × List ℕ)
  | 0, _, _ => none
  | _ + 1, s, .head => some (s, [])
  | n + 1, s, .task t =>
    let s := tickTask s t
    (sweep n s (s.links.next (.task t))).map fun r => (r.1, t :: r.2)

/-- `update_sleeping_proc`, if its loop ends within `rounds` rounds. -/
def updateSleepingProc (rounds : ℕ) (s : State) : Option (State × List ℕ) :=
  sweep rounds s (s.links.next .head)

/-! ## Wait queues -/

section

variable (s : State)

/-- `prepare_to_wait(w, PROCESS_WAIT_INTERRUPTIBLE)` of the task `t`. -/
def prepareToWait (t w : ℕ) : State :=
  let s := { s with priv := fun v => if v = w then some t else s.priv v }
  setTaskState s t ((s.task t).state ||| processWaitInterruptible)

/-- The body that `finish_wait` and `__wake_up_interruptible` share. -/
def wakePriv (w : ℕ) : State :=
  match s.priv w with
  | none => s
  | some t => setTaskState s t processReady

/-- `finish_wait(w)`. -/
def finishWait (w : ℕ) : State := wakePriv s w

/-- `__wake_up_interruptible(w)`. -/
def wakeUpInterruptible (w : ℕ) : State := wakePriv s w

/-! ## Completions -/

/-- Write a completion. -/
def setCompletion (x : ℕ) (c : Completion) : State :=
  { s with completion := fun y => if y = x then c else s.completion y }

/-- Take a token and leave `do_wait_for_common`. -/
def takeToken (t x : ℕ) : State :=
  let c := s.completion x
  { setCompletion s x { c with done := c.done - 1 } with
    inside := fun u => if u = t then none else s.inside u }

/-- One round of the loop of `do_wait_for_common`, up to the call of the scheduler. -/
def block (t x : ℕ) : State :=
  { setTaskState s t processWait with
    running := none
    inside := fun u => if u = t then some x else s.inside u }

/-- Link the entry at `addr` and block. -/
def enter (t x : ℕ) (addr : BitVec 32) : State :=
  let c := s.completion x
  block { setCompletion s x { c with waiters := c.waiters ++ [t] } with
    wqAddr := fun u => if u = t then addr else s.wqAddr u } t x

/-- `wait_for_completion(x)` of the task `t`: take a token, or wait for one. -/
def waitForCompletion (t x : ℕ) (addr : BitVec 32) : State :=
  if (s.completion x).done ≠ 0 then takeToken s t x else enter s t x addr

/-- The task `t` runs again in the loop of `do_wait_for_common`. -/
def recheckCompletion (t x : ℕ) : State :=
  if (s.completion x).done ≠ 0 then takeToken s t x else block s t x

/-- `complete(x)`, when `list_del` returns. -/
def completed (x : ℕ) : State :=
  let c := s.completion x
  match c.waiters with
  | [] => setCompletion s x { c with done := c.done + 1 }
  | t :: rest => setTaskState (setCompletion s x ⟨c.done + 1, rest⟩) t processReady

/-- `complete(x)`: `list_del` checks the address of the first waiter's entry. -/
def complete (x : ℕ) : Option State :=
  if (s.completion x).waiters.head?.all fun t => checkAddr (s.wqAddr t) then some (completed s x)
  else none

/-! ## Runs -/

/-- The steps of the system. -/
inductive Event : Type where
  /-- the scheduler picks `t` -/
  | switch (t : ℕ)
  | processSleep (sec : BitVec 32)
  | processMsleep (m : BitVec 32)
  | clockTick (rounds : ℕ)
  | prepareToWait (w : ℕ)
  | finishWait (w : ℕ)
  | wakeUpInterruptible (w : ℕ)
  | waitForCompletion (x : ℕ) (addr : BitVec 32)
  | recheckCompletion
  | complete (x : ℕ)
  deriving DecidableEq, Repr

/-- The running task, if it is not inside `do_wait_for_common`. -/
def caller : Option ℕ := s.running.filter fun t => (s.inside t).isNone

/-- The running task inside `do_wait_for_common`, with the completion. -/
def resumed : Option (ℕ × ℕ) :=
  s.running.bind fun t => (s.inside t).map fun x => (t, x)

/-- One step; `none` if it is not possible or does not return, or if the sweep of the sleep list
does not end within the given rounds. -/
def step : Event → Option State
  | .switch t => if (s.task t).state = processReady then some { s with running := some t } else none
  | .processSleep sec => (caller s).map fun t => goToSleep s t (sleepTicks sec)
  | .processMsleep m => (caller s).map fun t => goToSleep s t (msleepTicks m)
  | .clockTick rounds => (updateSleepingProc rounds s).map Prod.fst
  | .prepareToWait w => (caller s).map fun t => prepareToWait s t w
  | .finishWait w => (caller s).map fun _ => finishWait s w
  | .wakeUpInterruptible w => some (wakeUpInterruptible s w)
  | .waitForCompletion x addr => (caller s).map fun t => waitForCompletion s t x addr
  | .recheckCompletion => (resumed s).map fun r => recheckCompletion s r.1 r.2
  | .complete x => complete s x

end

/-- What each step does. -/
inductive Does (s : State) : Event → State → Prop where
  | switch {t : ℕ} (hready : (s.task t).state = processReady) :
      Does s (.switch t) { s with running := some t }
  | processSleep {t : ℕ} {sec : BitVec 32} (ht : caller s = some t) :
      Does s (.processSleep sec) (goToSleep s t (sleepTicks sec))
  | processMsleep {t : ℕ} {m : BitVec 32} (ht : caller s = some t) :
      Does s (.processMsleep m) (goToSleep s t (msleepTicks m))
  | clockTick {rounds : ℕ} {r : State × List ℕ} (hr : updateSleepingProc rounds s = some r) :
      Does s (.clockTick rounds) r.1
  | prepareToWait {t w : ℕ} (ht : caller s = some t) :
      Does s (.prepareToWait w) (prepareToWait s t w)
  | finishWait {w : ℕ} : Does s (.finishWait w) (wakePriv s w)
  | wakeUpInterruptible {w : ℕ} : Does s (.wakeUpInterruptible w) (wakePriv s w)
  | takes {t x : ℕ} {addr : BitVec 32} (ht : caller s = some t) (hdone : (s.completion x).done ≠ 0) :
      Does s (.waitForCompletion x addr) (takeToken s t x)
  | enters {t x : ℕ} {addr : BitVec 32} (ht : caller s = some t) (hdone : (s.completion x).done = 0) :
      Does s (.waitForCompletion x addr) (enter s t x addr)
  | resumes {t x : ℕ} (hr : resumed s = some (t, x)) (hdone : (s.completion x).done ≠ 0) :
      Does s .recheckCompletion (takeToken s t x)
  | blocks {t x : ℕ} (hr : resumed s = some (t, x)) (hdone : (s.completion x).done = 0) :
      Does s .recheckCompletion (block s t x)
  | complete {x : ℕ} : Does s (.complete x) (completed s x)

theorem does_of_step {s' : State} {e : Event} (h : step s e = some s') : Does s e s' := by
  cases e with
  | switch t =>
    rw [step] at h
    split_ifs at h with hready
    rw [← Option.some.inj h]
    exact .switch hready
  | processSleep _ | processMsleep _ | clockTick _ | prepareToWait _ =>
    obtain ⟨t, ht, rfl⟩ := Option.map_eq_some_iff.mp h
    constructor
    exact ht
  | finishWait w =>
    obtain ⟨_, _, rfl⟩ := Option.map_eq_some_iff.mp h
    exact .finishWait
  | wakeUpInterruptible w =>
    rw [← Option.some.inj h]
    exact .wakeUpInterruptible
  | waitForCompletion x addr =>
    obtain ⟨t, ht, rfl⟩ := Option.map_eq_some_iff.mp h
    unfold waitForCompletion
    split_ifs with hdone
    · exact .takes ht hdone
    · exact .enters ht (not_not.mp hdone)
  | recheckCompletion =>
    obtain ⟨⟨t, x⟩, hr, rfl⟩ := Option.map_eq_some_iff.mp h
    unfold recheckCompletion
    split_ifs with hdone
    · exact .resumes hr hdone
    · exact .blocks hr (not_not.mp hdone)
  | complete x =>
    rw [step, complete] at h
    split_ifs at h
    rw [← Option.some.inj h]
    exact .complete

/-- The state that `OS_Init` leaves: no task has slept or waited. -/
def osInit : State where
  task := fun _ => ⟨processReady, 0⟩
  links := ⟨fun n => n, fun n => n⟩
  running := none
  priv := fun _ => none
  completion := fun _ => ⟨0, []⟩
  inside := fun _ => none
  wqAddr := fun _ => 0

/-- The states of runs from `OS_Init` on, all of whose steps have `ok`. -/
inductive Reaches (ok : State → Event → Prop) : State → Prop where
  | init : Reaches ok osInit
  | step {s s' : State} {e : Event} : Reaches ok s → ok s e → step s e = some s' → Reaches ok s'

theorem Reaches.mono {ok ok' : State → Event → Prop} (hok : ∀ s e, ok s e → ok' s e)
    (h : Reaches ok s) : Reaches ok' s := by
  induction h with
  | init => exact Reaches.init
  | step _ he hstep ih => exact ih.step (hok _ _ he) hstep

/-- The run of given steps, as long as each has `ok`. -/
def run (ok : State → Event → Prop) [∀ s e, Decidable (ok s e)] (s : State) (es : List Event) :
    Option State :=
  es.foldlM (fun s e => if ok s e then step s e else none) s

theorem reaches_run [∀ s e, Decidable (ok s e)] {es : List Event} {s s' : State}
    (h : Reaches ok s) (heq : run ok s es = some s') : Reaches ok s' := by
  induction es generalizing s with
  | nil =>
    rw [← Option.some.inj heq]
    exact h
  | cons e es ih =>
    rw [run, List.foldlM_cons, Option.bind_eq_bind, Option.bind_eq_some_iff] at heq
    obtain ⟨s1, h1, h2⟩ := heq
    split_ifs at h1 with hok
    exact ih (h.step hok h1) h2

end Proc

end Yap
