/-
# Wait queues (`include/wait.h`, `proc/proc.c`)

Any number of tasks execute `wait_event_interruptible(wq, condition)` on one wait queue.  A
task can be preempted between any two statements, but only tasks that are `PROCESS_READY` are
picked again.  A call of `wake_up_interruptible` is one step.

The queue has one slot, `wq->priv`, which every waiter overwrites.  As long as no task stores
itself there while another one is blocked, or is about to mark itself, the slot names whoever
is blocked, and the wake-up reaches it.  The first task that does is stored at the expense of
the other.
-/
import Yap.Proc

namespace Yap

namespace WaitQueue

open Proc List Option

/-! ## The macro -/

/-- Where a task is in `wait_event_interruptible`. -/
inductive Pc : Type where
  | out
  /-- `if (!(condition))` in front of the loop -/
  | test
  /-- `wq->priv = current` in `prepare_to_wait` -/
  | prepare
  /-- `current->state |= state` in `prepare_to_wait` -/
  | mark
  /-- `if ((condition)) break` -/
  | check
  /-- `OS_Sched()` -/
  | sched
  /-- `pcb = wq->priv` in `finish_wait` -/
  | finish
  /-- `pcb->state = PROCESS_READY` in `finish_wait` -/
  | ready (pcb : ℕ)
  | left
  deriving DecidableEq, Repr

/-- The tasks, where they are, and the condition. -/
structure State where
  proc : Proc.State
  pc : ℕ → Pc
  condition : Bool

/-- The task `t` goes on at `c`. -/
def State.goto (s : State) (t : ℕ) (c : Pc) : State :=
  { s with pc := fun u => if u = t then c else s.pc u }

/-- The first statement of `prepare_to_wait(w, ..)` of the task `t`. -/
def storePriv (s : Proc.State) (t w : ℕ) : Proc.State :=
  { s with priv := fun v => if v = w then some t else s.priv v }

/-- The second statement of `prepare_to_wait(.., PROCESS_WAIT_INTERRUPTIBLE)`. -/
def markWaiting (s : Proc.State) (t : ℕ) : Proc.State :=
  setTaskState s t ((s.task t).state ||| processWaitInterruptible)

/-- One statement of the task `t`. -/
def runTask (w : ℕ) (s : State) (t : ℕ) : State :=
  match s.pc t with
  | .out | .left => s.goto t .test
  | .test => s.goto t (if s.condition then .left else .prepare)
  | .prepare => { s.goto t .mark with proc := storePriv s.proc t w }
  | .mark => { s.goto t .check with proc := markWaiting s.proc t }
  | .check => s.goto t (if s.condition then .finish else .sched)
  | .sched => { s.goto t .prepare with proc := { s.proc with running := none } }
  | .finish =>
    match s.proc.priv w with
    | none => s.goto t .left
    | some pcb => s.goto t (.ready pcb)
  | .ready pcb => { s.goto t .left with proc := setTaskState s.proc pcb processReady }

/-- `wake_up_interruptible(w)`. -/
def wakeUp (w : ℕ) (s : State) : State := { s with proc := wakeUpInterruptible s.proc w }

/-! ## Runs -/

/-- The steps of the system. -/
inductive Event : Type where
  /-- the scheduler picks `t`, after a call or in an interrupt -/
  | switch (t : ℕ)
  /-- the running task executes one statement -/
  | run
  /-- the condition changes -/
  | setCondition (b : Bool)
  | wakeUp
  deriving DecidableEq, Repr

/-- One step; `none` if it is not possible. -/
def step (w : ℕ) (s : State) : Event → Option State
  | .switch t => (Proc.step s.proc (.switch t)).map fun p => { s with proc := p }
  | .run => s.proc.running.map (runTask w s)
  | .setCondition b => some { s with condition := b }
  | .wakeUp => some (wakeUp w s)

/-- No task is in the macro yet. -/
def init : State where
  proc := osInit
  pc := fun _ => .out
  condition := false

/-- The states of runs all of whose steps have `ok`. -/
inductive Reaches (w : ℕ) (ok : State → Event → Prop) : State → Prop where
  | init : Reaches w ok init
  | step {s s' : State} {e : Event} : Reaches w ok s → ok s e → step w s e = some s' →
      Reaches w ok s'

/-- The run of given steps. -/
def run (w : ℕ) (es : List Event) : Option State := es.foldlM (step w) init

theorem reaches_run {w : ℕ} {ok : State → Event → Prop} (es : List Event)
    (hok : ∀ s, ∀ e ∈ es, ok s e) {s s' : State} (h : Reaches w ok s)
    (heq : es.foldlM (step w) s = some s') : Reaches w ok s' := by
  induction es generalizing s with
  | nil =>
    rw [← some.inj heq]
    exact h
  | cons e es ih =>
    rw [foldlM_cons, bind_eq_bind, bind_eq_some_iff] at heq
    obtain ⟨s1, h1, h2⟩ := heq
    have hrest : ∀ s, ∀ e ∈ es, ok s e := fun s e he => hok s e (mem_cons_of_mem _ he)
    exact ih hrest (h.step (hok s e mem_cons_self) h1) h2

/-! ## Blocked tasks -/

/-- The task is in the loop of the macro, or in `finish_wait`. -/
def Inside (s : State) (t : ℕ) : Prop :=
  s.pc t ≠ .out ∧ s.pc t ≠ .test ∧ s.pc t ≠ .left

instance (s : State) (t : ℕ) : Decidable (Inside s t) := inferInstanceAs (Decidable (_ ∧ _))

/-- The task is `PROCESS_READY`. -/
def Ready (s : State) (t : ℕ) : Prop := (s.proc.task t).state = processReady

instance (s : State) (t : ℕ) : Decidable (Ready s t) := inferInstanceAs (Decidable (_ = _))

/-- The task is in the macro and does not run any more. -/
def Blocked (s : State) (t : ℕ) : Prop := Inside s t ∧ ¬ Ready s t

instance (s : State) (t : ℕ) : Decidable (Blocked s t) := inferInstanceAs (Decidable (_ ∧ _))

/-- No waiter is lost: whoever is blocked when the wake-up comes is ready after it, and
whoever has left the macro is ready. -/
structure NoneLost (w : ℕ) (s : State) : Prop where
  woken : ∀ t, Blocked s t → Ready (wakeUp w s) t
  left : ∀ t, s.pc t = .left → Ready s t

/-- A task stores itself in `wq->priv` only while no other task is blocked in the macro, or
stands between the two statements of `prepare_to_wait`. -/
def SlotFree (s : State) (e : Event) : Prop :=
  e = .run → ∀ t ∈ s.proc.running, s.pc t = .prepare →
    ∀ u, u ≠ t → ¬ Blocked s u ∧ s.pc u ≠ .mark

/-! ## The invariant -/

/-- The slot names the task that is blocked, or is about to mark itself. -/
structure Inv (w : ℕ) (s : State) : Prop where
  outside : ∀ t, ¬ Inside s t → Ready s t
  slot : ∀ t, Blocked s t → s.proc.priv w = some t
  mark : ∀ t, s.pc t = .mark → s.proc.priv w = some t
  ready : ∀ t pcb, s.pc t = .ready pcb → ¬ Ready s t → pcb = t

section

variable {w : ℕ} {s s' : State} {t u : ℕ} {c : Pc}

@[simp] theorem goto_self : (s.goto t c).pc t = c := if_pos rfl

theorem goto_of_ne (h : u ≠ t) : (s.goto t c).pc u = s.pc u := if_neg h

theorem inv_init : Inv w init := by
  refine ⟨fun t _ => rfl, ?_, ?_, ?_⟩
  · intro t h
    exact absurd rfl h.1.1
  · intro t h
    cases h
  · intro t pcb h
    cases h

section

variable (h : Inv w s)

include h

/-- A step of the task `t` leaves the others alone; it may take the slot from those that do not
need it. -/
theorem Inv.change (hself : (¬ Inside s' t → Ready s' t) ∧ (Blocked s' t → s'.proc.priv w = some t) ∧
      (s'.pc t = .mark → s'.proc.priv w = some t) ∧
      ∀ pcb, s'.pc t = .ready pcb → ¬ Ready s' t → pcb = t)
    (hother : ∀ u, u ≠ t → s'.pc u = s.pc u ∧ (s'.proc.task u).state = (s.proc.task u).state ∧
      (s'.proc.priv w = s.proc.priv w ∨ ¬ Blocked s u ∧ s.pc u ≠ .mark)) : Inv w s' := by
  have hat : ∀ u, (¬ Inside s' u → Ready s' u) ∧ (Blocked s' u → s'.proc.priv w = some u) ∧
      (s'.pc u = .mark → s'.proc.priv w = some u) ∧
      ∀ pcb, s'.pc u = .ready pcb → ¬ Ready s' u → pcb = u := by
    intro u
    by_cases hut : u = t
    · rw [hut]
      exact hself
    · obtain ⟨hpc, hstate, hpriv⟩ := hother u hut
      unfold Blocked Inside Ready
      rw [hpc, hstate]
      refine ⟨h.outside u, fun hb => ?_, fun hm => ?_, h.ready u⟩
      · exact (hpriv.resolve_right fun hn => hn.1 hb).trans (h.slot u hb)
      · exact (hpriv.resolve_right fun hn => hn.2 hm).trans (h.mark u hm)
  exact ⟨fun u => (hat u).1, fun u => (hat u).2.1, fun u => (hat u).2.2.1, fun u => (hat u).2.2.2⟩

/-- Moving a task that is ready, or stays inside, to a statement that assumes nothing. -/
theorem Inv.goto (hready : Ready s t ∨ s.proc.priv w = some t)
    (hout : (c = .out ∨ c = .test ∨ c = .left) → Ready s t) (hmark : c ≠ .mark)
    (hpcb : ∀ pcb, c = .ready pcb → ¬ Ready s t → pcb = t) : Inv w (s.goto t c) := by
  refine h.change (t := t) ⟨fun hu => ?_, fun hu => hready.resolve_left hu.2, fun hu => ?_,
    fun pcb hu hn => ?_⟩ fun u hu => ⟨goto_of_ne hu, rfl, Or.inl rfl⟩
  · apply hout
    by_contra hne
    rw [not_or, not_or] at hne
    exact hu (by rw [Inside, goto_self]; exact hne)
  · rw [goto_self] at hu
    exact absurd hu hmark
  · rw [goto_self] at hu
    exact hpcb pcb hu hn

/-- Readying a task keeps the invariant. -/
theorem Inv.readyTask (p : ℕ) :
    Inv w { s with proc := setTaskState s.proc p processReady } := by
  have hready : ∀ u, Ready s u →
      Ready { s with proc := setTaskState s.proc p processReady } u := by
    intro u hu
    by_cases hup : u = p
    · subst hup
      exact setTaskState_self _
    · show ((setTaskState s.proc p processReady).task u).state = _
      rw [setTaskState_of_ne _ hup]
      exact hu
  refine ⟨fun u hu => hready u (h.outside u hu), fun u hu => ?_, h.mark, fun u pcb hu hn => ?_⟩
  · exact h.slot u ⟨hu.1, fun hr => hu.2 (hready u hr)⟩
  · exact h.ready u pcb hu fun hr => hn (hready u hr)

/-- A task that is in the macro and not ready is the one in the slot. -/
theorem Inv.ready_or_slot (t : ℕ) : Ready s t ∨ s.proc.priv w = some t := by
  by_cases hr : Ready s t
  · exact Or.inl hr
  · by_cases hin : Inside s t
    · exact Or.inr (h.slot t ⟨hin, hr⟩)
    · exact Or.inl (h.outside t hin)

/-- `wq->priv = current`. -/
theorem Inv.storePriv (hfree : ∀ u, u ≠ t → ¬ Blocked s u ∧ s.pc u ≠ .mark) :
    Inv w { s.goto t .mark with proc := storePriv s.proc t w } := by
  have hpriv : (WaitQueue.storePriv s.proc t w).priv w = some t := if_pos rfl
  refine h.change (t := t) ⟨fun hu => ?_, fun _ => hpriv, fun _ => hpriv, fun pcb hu => ?_⟩
    fun u hu => ⟨goto_of_ne hu, rfl, Or.inr (hfree u hu)⟩
  · exact absurd (by simp [Inside, State.goto]) hu
  · rw [goto_self] at hu
    cases hu

/-- `current->state |= state`. -/
theorem Inv.markWaiting (hpc : s.pc t = .mark) :
    Inv w { s.goto t .check with proc := markWaiting s.proc t } := by
  have hpriv : s.proc.priv w = some t := h.mark t hpc
  have hne : ∀ u, u ≠ t → (WaitQueue.markWaiting s.proc t).task u = s.proc.task u :=
    fun u hu => setTaskState_of_ne _ hu
  refine h.change (t := t) ⟨fun hu => ?_, fun _ => hpriv, fun hu => ?_, fun pcb hu => ?_⟩
    fun u hu => ⟨goto_of_ne hu, congrArg TaskStruct.state (hne u hu), Or.inl rfl⟩
  · exact absurd (by simp [Inside, State.goto]) hu
  all_goals
    rw [goto_self] at hu
    cases hu

/-- One statement of a task keeps the invariant. -/
theorem Inv.runTask (hfree : s.pc t = .prepare → ∀ u, u ≠ t → ¬ Blocked s u ∧ s.pc u ≠ .mark) :
    Inv w (runTask w s t) := by
  have hor := h.ready_or_slot t
  have hout : ¬ Inside s t → Ready s t := h.outside t
  cases hpc : s.pc t with
  | out =>
    rw [WaitQueue.runTask, hpc]
    exact h.goto hor (fun _ => hout (by simp [Inside, hpc])) (by simp) (by simp)
  | test =>
    have hr : Ready s t := hout (by simp [Inside, hpc])
    rw [WaitQueue.runTask, hpc]
    exact h.goto hor (fun _ => hr) (by split_ifs <;> simp) fun _ _ hn => absurd hr hn
  | prepare =>
    rw [WaitQueue.runTask, hpc]
    exact h.storePriv (hfree hpc)
  | mark =>
    rw [WaitQueue.runTask, hpc]
    exact h.markWaiting hpc
  | check =>
    rw [WaitQueue.runTask, hpc]
    dsimp only
    split_ifs
    · exact h.goto hor (by simp) (by simp) (by simp)
    · exact h.goto hor (by simp) (by simp) (by simp)
  | sched =>
    rw [WaitQueue.runTask, hpc]
    obtain ⟨h1, h2, h3, h4⟩ := h.goto (c := .prepare) hor (by simp) (by simp) (by simp)
    exact ⟨h1, h2, h3, h4⟩
  | finish =>
    have hin : Inside s t := by simp [Inside, hpc]
    rw [WaitQueue.runTask, hpc]
    dsimp only
    cases hpriv : s.proc.priv w with
    | none =>
      have hr : Ready s t := hor.resolve_right (by rw [hpriv]; simp)
      exact h.goto hor (fun _ => hr) (by simp) (by simp)
    | some pcb =>
      refine h.goto hor (by simp) (by simp) fun p hp hn => ?_
      have hslot := h.slot t ⟨hin, hn⟩
      rw [hpriv] at hslot
      rw [← some.inj hslot]
      cases hp
      rfl
  | ready pcb =>
    rw [WaitQueue.runTask, hpc]
    have h' := h.readyTask pcb
    refine h'.goto (h'.ready_or_slot t) (fun _ => ?_) (by simp) (by simp)
    by_cases hp : t = pcb
    · subst hp
      exact setTaskState_self _
    · -- a task that readies another one is ready itself
      have hr : Ready s t := by
        by_contra hn
        exact hp (h.ready t pcb hpc hn).symm
      show ((setTaskState s.proc pcb processReady).task t).state = _
      rw [setTaskState_of_ne _ hp]
      exact hr
  | left =>
    rw [WaitQueue.runTask, hpc]
    exact h.goto hor (fun _ => hout (by simp [Inside, hpc])) (by simp) (by simp)

/-- The wake-up keeps the invariant. -/
theorem Inv.wakeUp : Inv w (wakeUp w s) := by
  rw [WaitQueue.wakeUp, wakeUpInterruptible, wakePriv]
  cases s.proc.priv w with
  | none => exact h
  | some p => exact h.readyTask p

theorem inv_step {e : Event} (he : SlotFree s e) (hs : step w s e = some s') :
    Inv w s' := by
  cases e with
  | switch t =>
    obtain ⟨p, hp, rfl⟩ := map_eq_some_iff.mp hs
    rw [Proc.step] at hp
    split_ifs at hp
    rw [← some.inj hp]
    exact ⟨h.outside, h.slot, h.mark, h.ready⟩
  | run =>
    obtain ⟨t, ht, rfl⟩ := map_eq_some_iff.mp hs
    exact h.runTask fun hpc => he rfl t ht hpc
  | setCondition b =>
    rw [← some.inj hs]
    exact ⟨h.outside, h.slot, h.mark, h.ready⟩
  | wakeUp =>
    rw [← some.inj hs]
    exact h.wakeUp

end

theorem inv_reaches (h : Reaches w SlotFree s) : Inv w s := by
  induction h with
  | init => exact inv_init
  | step _ he hs ih => exact inv_step ih he hs

/-- The wake-up readies the task in the slot. -/
theorem ready_wakeUp (h : s.proc.priv w = some t) : Ready (wakeUp w s) t := by
  rw [Ready, WaitQueue.wakeUp, wakeUpInterruptible, wakePriv, h]
  exact setTaskState_self _

/-- **No waiter is lost while the slot is free for whoever takes it.** -/
theorem noneLost_of_slotFree (h : Reaches w SlotFree s) : NoneLost w s := by
  have hinv := inv_reaches h
  constructor
  · intro t ht
    exact ready_wakeUp (hinv.slot t ht)
  · intro t ht
    exact hinv.outside t (by simp [Inside, ht])

/-! ## One waiter -/

/-- The scheduler picks no other task than `t`. -/
def OnlyTask (t : ℕ) (e : Event) : Prop := ∀ u, e = .switch u → u = t

/-- Only `t` has been in the macro. -/
structure Single (t : ℕ) (s : State) : Prop where
  running : ∀ u ∈ s.proc.running, u = t
  out : ∀ u, u ≠ t → s.pc u = .out

theorem runTask_pc_of_ne (h : u ≠ t) : (runTask w s t).pc u = s.pc u := by
  cases hpc : s.pc t <;> rw [runTask, hpc] <;> try exact goto_of_ne h
  -- `finish_wait` goes on in two ways
  cases s.proc.priv w <;> exact goto_of_ne h

theorem runTask_running (h : u ∈ (runTask w s t).proc.running) : u ∈ s.proc.running := by
  cases hpc : s.pc t <;> rw [runTask, hpc] at h <;> try exact h
  · -- `OS_Sched` gives up the processor
    cases h
  · cases hpriv : s.proc.priv w <;> rw [hpriv] at h <;> exact h

theorem single_step {e : Event} (h : Single t s) (he : OnlyTask t e)
    (hs : step w s e = some s') : Single t s' := by
  cases e with
  | switch v =>
    obtain ⟨p, hp, rfl⟩ := map_eq_some_iff.mp hs
    rw [Proc.step] at hp
    split_ifs at hp
    rw [← some.inj hp]
    refine ⟨fun u hu => ?_, h.out⟩
    rw [← some.inj hu]
    exact he v rfl
  | run =>
    obtain ⟨v, hv, rfl⟩ := map_eq_some_iff.mp hs
    have hvt := h.running v hv
    subst hvt
    refine ⟨fun u hu => h.running u (runTask_running hu), fun u hu => ?_⟩
    rw [runTask_pc_of_ne hu]
    exact h.out u hu
  | setCondition b =>
    rw [← some.inj hs]
    exact ⟨h.running, h.out⟩
  | wakeUp =>
    rw [← some.inj hs, wakeUp, wakeUpInterruptible, wakePriv]
    cases s.proc.priv w with
    | none => exact h
    | some p => exact ⟨h.running, h.out⟩

/-- A single waiter always finds the slot free. -/
theorem reaches_slotFree_of_single (h : Reaches w (fun _ e => OnlyTask t e) s) :
    Reaches w SlotFree s ∧ Single t s := by
  induction h with
  | init =>
    refine ⟨Reaches.init, ?_, fun u _ => rfl⟩
    intro u hu
    cases hu
  | step _ he hs ih =>
    obtain ⟨hreach, hsingle⟩ := ih
    refine ⟨hreach.step ?_ hs, single_step hsingle he hs⟩
    intro _ v hv _ u hu
    have hout := hsingle.out u (by rw [← hsingle.running v hv]; exact hu)
    exact ⟨fun hb => hb.1.1 hout, by rw [hout]; simp⟩

end

/-! ## A waiter that is stored over -/

/-- The statements of one task up to the call of the scheduler. -/
def goesToWait (t : ℕ) : List Event := [.switch t, .run, .run, .run, .run, .run, .run]

/-- One task waits, and the condition becomes true. -/
def oneWaiter : List Event := goesToWait 0 ++ [.setCondition true]

def oneWaiterState : State := (run 0 oneWaiter).getD init

theorem reaches_oneWaiterState : Reaches 0 SlotFree oneWaiterState := by
  apply (reaches_slotFree_of_single (t := 0) _).1
  apply reaches_run oneWaiter _ Reaches.init rfl
  intro s e he u hu
  subst hu
  simpa [oneWaiter, goesToWait] using he

theorem noneLost_oneWaiter : Blocked oneWaiterState 0 ∧ NoneLost 0 oneWaiterState :=
  ⟨by decide, noneLost_of_slotFree reaches_oneWaiterState⟩

/-- Two tasks wait, and the condition becomes true. -/
def twoWaiters : List Event := goesToWait 0 ++ goesToWait 1 ++ [.setCondition true]

def twoWaitersState : State := (run 0 twoWaiters).getD init

/-- **The second waiter takes the slot of the first**, which is still blocked after the
wake-up. -/
theorem second_waiter_takes_slot : Reaches 0 (fun _ _ => True) twoWaitersState ∧
    Blocked twoWaitersState 0 ∧ ¬ Ready (wakeUp 0 twoWaitersState) 0 := by
  refine ⟨?_, by decide, by decide⟩
  exact reaches_run twoWaiters (fun _ _ _ => trivial) Reaches.init rfl

end WaitQueue

end Yap
