/-
# The sleep list (`proc/proc.c`)

`update_sleeping_proc` is the only function that takes a task off the sleep list, and it
does so together with clearing `PROCESS_SLEEP`.  Three other functions overwrite the whole
state word of a task they find through a pointer: `finish_wait` and
`__wake_up_interruptible` through `wq->priv`, which keeps pointing at a task that has long
stopped waiting, and `complete`.  The list holds exactly the sleeping tasks as long as these
do not hit a sleeper (`Spares`), and not one step longer.
-/
import Yap.Proc

namespace Yap

namespace Proc

open List Option

/-- The sleep list is a circular list without repetitions of exactly the tasks that have
`PROCESS_SLEEP` set, and `update_sleeping_proc` visits each of them once and returns to the
head. -/
def SleepListOk (s : State) : Prop :=
  ∃ L : List ℕ, s.links.IsRing .head (L.map Node.task) ∧ (∀ t, t ∈ L ↔ Sleeping s t) ∧
    ∃ rounds s', updateSleepingProc rounds s = some (s', L)

/-- The steps that overwrite a state word do not hit a task with `PROCESS_SLEEP` set. -/
def Spares (s : State) : Event → Prop
  | .finishWait w => ∀ t ∈ s.priv w, ¬ Sleeping s t
  | .wakeUpInterruptible w => ∀ t ∈ s.priv w, ¬ Sleeping s t
  | .complete x => ∀ t ∈ (s.completion x).waiters.head?, ¬ Sleeping s t
  | _ => True

instance (s : State) : (e : Event) → Decidable (Spares s e)
  | .finishWait w => inferInstanceAs (Decidable (∀ t ∈ s.priv w, ¬ Sleeping s t))
  | .wakeUpInterruptible w => inferInstanceAs (Decidable (∀ t ∈ s.priv w, ¬ Sleeping s t))
  | .complete x =>
    inferInstanceAs (Decidable (∀ t ∈ (s.completion x).waiters.head?, ¬ Sleeping s t))
  | .switch _ | .processSleep _ | .processMsleep _ | .clockTick _ | .prepareToWait _
  | .waitForCompletion _ _ | .recheckCompletion => isTrue trivial

/-! ## State words -/

theorem or_sleep_ne_zero (x : BitVec 32) : (x ||| processSleepBit) &&& processSleepBit ≠ 0 := by
  intro h
  have hbit := congrArg (fun y => y.getLsbD 0) h
  simp [processSleepBit] at hbit

theorem and_not_sleep (x : BitVec 32) : x &&& ~~~processSleepBit &&& processSleepBit = 0 := by
  have hzero : ~~~processSleepBit &&& processSleepBit = 0 := by decide
  rw [BitVec.and_assoc, hzero]
  exact BitVec.and_zero

theorem or_wait_and_sleep (x : BitVec 32) :
    (x ||| processWaitInterruptible) &&& processSleepBit = x &&& processSleepBit := by
  have hzero : processWaitInterruptible &&& processSleepBit = 0 := by decide
  rw [BitVec.and_comm, BitVec.and_or_distrib_left, BitVec.and_comm _ processWaitInterruptible,
    hzero, BitVec.and_comm]
  exact BitVec.or_zero

section

variable {s : State} {t u : ℕ} {state : BitVec 32}

theorem sleeping_setTask {x : TaskStruct} :
    Sleeping (setTask s t x) u ↔
      if u = t then x.state &&& processSleepBit ≠ 0 else Sleeping s u := by
  unfold Sleeping setTask
  by_cases h : u = t <;> simp [h]

theorem sleeping_setTaskState :
    Sleeping (setTaskState s t state) u ↔
      if u = t then state &&& processSleepBit ≠ 0 else Sleeping s u :=
  sleeping_setTask

/-- Overwriting the state word of a task that does not sleep, with one that does not say so
either. -/
theorem sleeping_setTaskState_of_not (ht : ¬ Sleeping s t)
    (hstate : state &&& processSleepBit = 0) :
    Sleeping (setTaskState s t state) u ↔ Sleeping s u := by
  rw [sleeping_setTaskState]
  by_cases h : u = t
  · rw [if_pos h, h]
    exact ⟨fun hne => absurd hstate hne, fun hs => absurd hs ht⟩
  · rw [if_neg h]

end

/-! ## The sweep -/

/-- The sleep list is the ring of `L`, and `L` are the sleeping tasks. -/
def Sleepers (s : State) (L : List ℕ) : Prop :=
  s.links.IsRing .head (L.map Node.task) ∧ ∀ t, t ∈ L ↔ Sleeping s t

variable {s s' : State} {L : List ℕ} {t x : ℕ}

theorem Sleepers.nodup (h : Sleepers s L) : L.Nodup :=
  List.Nodup.of_map _ (nodup_cons.mp h.1.2).2

theorem Sleepers.congr (h : Sleepers s L) (hl : s'.links = s.links)
    (hs : ∀ t, Sleeping s' t ↔ Sleeping s t) : Sleepers s' L :=
  ⟨by rw [hl]; exact h.1, fun t => (h.2 t).trans (hs t).symm⟩

/-- What stays the same during a tick. -/
structure TickFrame (s s' : State) : Prop where
  running : s'.running = s.running
  priv : s'.priv = s.priv
  completion : s'.completion = s.completion
  inside : s'.inside = s.inside
  awake : ∀ t, ¬ Sleeping s t → ¬ Sleeping s' t

theorem TickFrame.trans {s'' : State} (h : TickFrame s s') (h' : TickFrame s' s'') :
    TickFrame s s'' :=
  ⟨h'.running.trans h.running, h'.priv.trans h.priv, h'.completion.trans h.completion,
    h'.inside.trans h.inside, fun t ht => h'.awake t (h.awake t ht)⟩

/-- One visit: the task stays on the list and asleep, or leaves both; the sweep goes on with
its old successor. -/
theorem tickTask_spec {A B : List ℕ} (h : Sleepers s (A ++ t :: B)) :
    (Sleepers (tickTask s t) (A ++ t :: B) ∨ Sleepers (tickTask s t) (A ++ B)) ∧
      TickFrame s (tickTask s t) ∧
      (tickTask s t).links.next (.task t) = (B.map Node.task).headD .head := by
  have hring := h.1
  rw [map_append, map_cons] at hring
  have hnext : s.links.next (.task t) = (B.map Node.task).headD .head := by
    have := hring.rotate.next_head
    rw [this]
    cases B <;> rfl
  have hprev : s.links.prev (.task t) ≠ .task t := by
    intro heq
    have hmem := hring.rotate.prev_head
    rw [heq] at hmem
    have hnd := hring.rotate.2
    have hne : B.map Node.task ++ Node.head :: A.map Node.task ≠ [] := by simp
    have hlast := getLast_mem hne
    rw [getLastD_eq_getLast?, getLast?_eq_some_getLast hne, getD_some] at hmem
    rw [← hmem] at hlast
    exact (nodup_cons.mp hnd).1 hlast
  have hnd := h.nodup
  have htA : t ∉ A ∧ t ∉ B := by
    rw [nodup_append] at hnd
    refine ⟨fun hA => hnd.2.2 t hA t mem_cons_self rfl, ?_⟩
    exact (nodup_cons.mp hnd.2.1).1
  unfold tickTask
  set n := if 0 < (s.task t).sleepTime then (s.task t).sleepTime - 1 else (s.task t).sleepTime
  by_cases hn : n = 0
  · rw [if_pos hn]
    have hsleep : ∀ u, Sleeping { setTask s t ⟨(s.task t).state &&& ~~~processSleepBit, n⟩ with
        links := s.links.unlink (.task t) } u ↔ u ≠ t ∧ Sleeping s u := by
      intro u
      refine sleeping_setTask.trans ?_
      by_cases hu : u = t
      · simp [hu, and_not_sleep]
      · simp [hu]
    refine ⟨Or.inr ⟨?_, fun u => ?_⟩, ⟨rfl, rfl, rfl, rfl, fun u hu => ?_⟩, ?_⟩
    · rw [map_append]
      exact hring.unlink_mem
    · rw [hsleep, ← h.2 u, mem_append, mem_append, mem_cons]
      by_cases hu : u = t
      · simp [hu, htA.1, htA.2]
      · simp [hu]
    · rw [hsleep]
      exact fun hand => hu hand.2
    · rw [Links.unlink_next, if_neg (Ne.symm hprev)]
      exact hnext
  · rw [if_neg hn]
    have hsame : ∀ u, Sleeping (setTask s t ⟨(s.task t).state, n⟩) u ↔ Sleeping s u := by
      intro u
      rw [sleeping_setTask]
      by_cases hu : u = t
      · rw [if_pos hu, hu]
        exact Iff.rfl
      · rw [if_neg hu]
    exact ⟨Or.inl (h.congr rfl hsame), ⟨rfl, rfl, rfl, rfl, fun u hu => (hsame u).not.mpr hu⟩, hnext⟩

/-- The sweep visits what is left of the list, in order, and ends at the head. -/
theorem sweep_spec {B A : List ℕ} {s : State} (h : Sleepers s (A ++ B)) :
    ∃ s' L', sweep (B.length + 1) s ((B.map Node.task).headD .head) = some (s', B) ∧
      Sleepers s' L' ∧ TickFrame s s' := by
  induction B generalizing A s with
  | nil => exact ⟨s, A ++ [], rfl, h, rfl, rfl, rfl, rfl, fun _ ht => ht⟩
  | cons t B ih =>
    obtain ⟨hcase, hframe, hnext⟩ := tickTask_spec h
    have hrest : ∃ A', Sleepers (tickTask s t) (A' ++ B) := by
      rcases hcase with hcase | hcase
      · exact ⟨A ++ [t], by rw [List.append_assoc]; exact hcase⟩
      · exact ⟨A, hcase⟩
    obtain ⟨A', hA'⟩ := hrest
    obtain ⟨s', L', heq, hs', hframe'⟩ := ih hA'
    refine ⟨s', L', ?_, hs', hframe.trans hframe'⟩
    show (sweep (B.length + 1) (tickTask s t) ((tickTask s t).links.next (.task t))).map _ = _
    rw [hnext, heq]
    rfl

/-- A sweep that ends does so however many rounds it is allowed. -/
theorem sweep_mono {n m : ℕ} {s : State} {a : Node} {r : State × List ℕ}
    (h : sweep n s a = some r) (hle : n ≤ m) : sweep m s a = some r := by
  induction n generalizing m s a r with
  | zero => cases h
  | succ n ih =>
    cases m with
    | zero => omega
    | succ m =>
      cases a with
      | head => exact h
      | task t =>
        rw [sweep, map_eq_some_iff] at h ⊢
        obtain ⟨r', hr', hr⟩ := h
        exact ⟨r', ih hr' (by omega), hr⟩

theorem updateSleepingProc_spec (h : Sleepers s L) :
    ∃ s' L', updateSleepingProc (L.length + 1) s = some (s', L) ∧ Sleepers s' L' ∧
      TickFrame s s' := by
  have hnext : s.links.next .head = (L.map Node.task).headD .head := h.1.next_head
  rw [updateSleepingProc, hnext]
  exact sweep_spec (A := []) h

/-- A tick that ends visits the sleeping tasks, however many rounds it is allowed. -/
theorem Sleepers.tick {rounds : ℕ} {r : State × List ℕ} (h : Sleepers s L)
    (hr : updateSleepingProc rounds s = some r) :
    r.2 = L ∧ (∃ L', Sleepers r.1 L') ∧ TickFrame s r.1 := by
  obtain ⟨s', L', heq, hL', hframe⟩ := updateSleepingProc_spec h
  have h1 := sweep_mono hr (Nat.le_max_left rounds (L.length + 1))
  have h2 := sweep_mono heq (Nat.le_max_right rounds (L.length + 1))
  rw [h1] at h2
  rw [some.inj h2]
  exact ⟨rfl, ⟨L', hL'⟩, hframe⟩

theorem Sleepers.sleepListOk (h : Sleepers s L) : SleepListOk s := by
  obtain ⟨s', _, heq, _, _⟩ := updateSleepingProc_spec h
  exact ⟨L, h.1, h.2, L.length + 1, s', heq⟩

theorem SleepListOk.sleepers (h : SleepListOk s) : ∃ L, Sleepers s L := by
  obtain ⟨L, hring, hmem, _⟩ := h
  exact ⟨L, hring, hmem⟩

/-! ## Steps -/

/-- The sleep list is as it should be, and the running task does not sleep. -/
def SleepInv (s : State) : Prop := SleepListOk s ∧ ∀ t ∈ s.running, ¬ Sleeping s t

theorem sleepInv_osInit : SleepInv osInit := by
  refine ⟨Sleepers.sleepListOk (L := []) ⟨?_, fun t => ?_⟩, ?_⟩
  · exact (Links.isRing_nil_iff _ _).mpr ⟨rfl, rfl⟩
  · simp [Sleeping, osInit, processReady]
  · intro t ht
    cases ht

theorem running_of_caller (h : caller s = some t) : t ∈ s.running := by
  rw [caller, filter_eq_some_iff] at h
  exact h.1

theorem running_of_resumed {r : ℕ × ℕ} (h : resumed s = some r) :
    r.1 ∈ s.running := by
  rw [resumed, bind_eq_some_iff] at h
  obtain ⟨t, ht, hr⟩ := h
  rw [map_eq_some_iff] at hr
  obtain ⟨x, _, rfl⟩ := hr
  exact ht

section

variable (h : SleepInv s)

include h

/-- A step that changes neither the list nor who sleeps. -/
theorem SleepInv.of_same (hl : s'.links = s.links)
    (hs : ∀ t, Sleeping s' t ↔ Sleeping s t)
    (hr : ∀ t ∈ s'.running, t ∈ s.running ∨ ¬ Sleeping s t) : SleepInv s' := by
  obtain ⟨L, hL⟩ := h.1.sleepers
  refine ⟨(hL.congr hl hs).sleepListOk, fun t ht => ?_⟩
  rw [hs]
  rcases hr t ht with ht | ht
  · exact h.2 t ht
  · exact ht

theorem sleepInv_wakePriv {w : ℕ}
    (hw : ∀ t ∈ s.priv w, ¬ Sleeping s t) : SleepInv (wakePriv s w) := by
  unfold wakePriv
  cases hp : s.priv w with
  | none => exact h
  | some t =>
    exact h.of_same rfl (fun u => sleeping_setTaskState_of_not (hw t hp) (by decide))
      fun u hu => Or.inl hu

/-- `process_sleep` of the running task puts it on the list. -/
theorem sleepInv_goToSleep {ticks : BitVec 32}
    (ht : t ∈ s.running) : SleepInv (goToSleep s t ticks) := by
  obtain ⟨L, hL⟩ := h.1.sleepers
  have hnot : t ∉ L := fun hmem => h.2 t ht ((hL.2 t).mp hmem)
  refine ⟨Sleepers.sleepListOk (L := t :: L) ⟨?_, fun u => ?_⟩, ?_⟩
  · refine hL.1.link_head ?_
    simp only [mem_cons, List.mem_map, not_or]
    refine ⟨by simp, ?_⟩
    rintro ⟨u, hu, heq⟩
    rw [Node.task.injEq] at heq
    exact hnot (heq ▸ hu)
  · rw [mem_cons, hL.2 u]
    refine Iff.trans ?_ sleeping_setTask.symm
    by_cases hut : u = t
    · rw [if_pos hut]
      exact ⟨fun _ => or_sleep_ne_zero _, fun _ => Or.inl hut⟩
    · simp [hut]
  · intro u hu
    cases hu

theorem sleepInv_prepareToWait {w : ℕ} :
    SleepInv (prepareToWait s t w) := by
  refine h.of_same rfl (fun u => ?_) fun u hu => Or.inl hu
  unfold prepareToWait
  rw [sleeping_setTaskState]
  by_cases hut : u = t
  · rw [if_pos hut, or_wait_and_sleep, hut]
    exact Iff.rfl
  · rw [if_neg hut]
    exact Iff.rfl

theorem sleepInv_takeToken :
    SleepInv (takeToken s t x) :=
  h.of_same rfl (fun _ => Iff.rfl) fun _ hu => Or.inl hu

theorem sleepInv_block (ht : t ∈ s.running) :
    SleepInv (block s t x) := by
  refine h.of_same rfl (fun u => ?_) fun u hu => ?_
  · exact sleeping_setTaskState_of_not (h.2 t ht) (by decide)
  · cases hu

theorem sleepInv_setCompletion {c : Completion} :
    SleepInv (setCompletion s x c) :=
  h.of_same rfl (fun _ => Iff.rfl) fun _ hu => Or.inl hu

/-- One step that spares the sleepers keeps the sleep list. -/
theorem sleepInv_step {e : Event} (he : Spares s e)
    (hstep : step s e = some s') : SleepInv s' := by
  cases does_of_step hstep with
  | switch hready =>
    refine h.of_same rfl (fun _ => Iff.rfl) fun u hu => Or.inr ?_
    rw [mem_some_iff] at hu
    rw [← hu, Sleeping, hready]
    decide
  | processSleep ht | processMsleep ht => exact sleepInv_goToSleep h (running_of_caller ht)
  | clockTick hr =>
    obtain ⟨L, hL⟩ := h.1.sleepers
    obtain ⟨_, ⟨L', hL'⟩, hframe⟩ := hL.tick hr
    refine ⟨hL'.sleepListOk, fun t ht => hframe.awake t (h.2 t ?_)⟩
    rw [← hframe.running]
    exact ht
  | prepareToWait ht => exact sleepInv_prepareToWait h
  | finishWait | wakeUpInterruptible => exact sleepInv_wakePriv h he
  | takes | resumes => exact sleepInv_takeToken h
  | enters ht =>
    refine sleepInv_block ?_ (running_of_caller ht)
    exact h.of_same rfl (fun _ => Iff.rfl) fun _ hu => Or.inl hu
  | blocks hr => exact sleepInv_block h (running_of_resumed hr)
  | @complete x =>
    unfold completed
    dsimp only
    cases hw : (s.completion x).waiters with
    | nil => exact sleepInv_setCompletion h
    | cons t rest =>
      have ht : ¬ Sleeping s t := he t (by rw [hw]; rfl)
      have hc : SleepInv (setCompletion s x ⟨(s.completion x).done + 1, rest⟩) :=
        sleepInv_setCompletion h
      exact hc.of_same rfl (fun u => sleeping_setTaskState_of_not ht (by decide))
        fun u hu => Or.inl hu

end

/-- Overwriting the state word of a sleeper leaves it on the list. -/
theorem not_sleepListOk_of_wake (h : SleepListOk s) (ht : Sleeping s t) (hl : s'.links = s.links)
    (ht' : ¬ Sleeping s' t) : ¬ SleepListOk s' := by
  intro h'
  obtain ⟨L, hL⟩ := h.sleepers
  obtain ⟨L', hL'⟩ := h'.sleepers
  have hring := hL'.1
  rw [hl] at hring
  have heq := hL.1.unique hring
  have hinj : Function.Injective Node.task := fun a b hab => Node.task.inj hab
  rw [List.map_inj_right fun a b hab => hinj hab] at heq
  rw [heq] at hL
  exact ht' ((hL'.2 t).mp ((hL.2 t).mpr ht))

theorem not_sleeping_setTaskState_ready (s : State) (t : ℕ) :
    ¬ Sleeping (setTaskState s t processReady) t := by
  rw [sleeping_setTaskState, if_pos rfl]
  decide

/-- A step that does not spare the sleepers breaks the sleep list. -/
theorem not_sleepListOk_of_not_spares {e : Event} (h : SleepListOk s) (he : ¬ Spares s e)
    (hstep : step s e = some s') : ¬ SleepListOk s' := by
  have hwake : ∀ w, (¬ ∀ t ∈ s.priv w, ¬ Sleeping s t) → ¬ SleepListOk (wakePriv s w) := by
    intro w hw
    push Not at hw
    obtain ⟨t, ht, hsleep⟩ := hw
    unfold wakePriv
    rw [mem_def.mp ht]
    exact not_sleepListOk_of_wake h hsleep rfl (not_sleeping_setTaskState_ready s t)
  cases does_of_step hstep with
  | @finishWait w | @wakeUpInterruptible w => exact hwake w he
  | @complete x =>
    unfold Spares at he
    push Not at he
    obtain ⟨t, ht, hsleep⟩ := he
    unfold completed
    dsimp only
    cases hw : (s.completion x).waiters with
    | nil =>
      rw [hw] at ht
      cases ht
    | cons u rest =>
      rw [hw, head?_cons, mem_some_iff] at ht
      rw [ht]
      exact not_sleepListOk_of_wake h hsleep rfl (not_sleeping_setTaskState_ready _ t)
  | _ => exact absurd trivial he

theorem sleepInv_reaches (h : Reaches Spares s) : SleepInv s := by
  induction h with
  | init => exact sleepInv_osInit
  | step _ he hstep ih => exact sleepInv_step ih he hstep

/-- **The sleep list.**  In every run whose steps spare the sleepers, the sleep list holds
exactly the sleeping tasks in every state; and the next step keeps it so if and only if it
spares them too. -/
theorem sleepListOk_of_spares (s : State) (h : Reaches Spares s) :
    SleepListOk s ∧ ∀ e s', step s e = some s' → (SleepListOk s' ↔ Spares s e) := by
  have hinv := sleepInv_reaches h
  refine ⟨hinv.1, fun e s' hstep => ⟨fun h' => ?_, fun he => (sleepInv_step hinv he hstep).1⟩⟩
  by_contra he
  exact not_sleepListOk_of_not_spares hinv.1 he hstep h'

/-- Task 1 waits on a queue, is woken and leaves it, and then sleeps for a second. -/
def waitThenSleep : List Event :=
  [.switch 1, .prepareToWait 0, .wakeUpInterruptible 0, .switch 1, .prepareToWait 0,
    .finishWait 0, .processSleep 1]

/-- The state in which task 1 sleeps and is still the `priv` of the queue. -/
def sleepsAfterWait : State := (run Spares osInit waitThenSleep).getD osInit

theorem reaches_sleepsAfterWait : Reaches Spares sleepsAfterWait := by
  have hsome : (run Spares osInit waitThenSleep).isSome = true := by decide +kernel
  obtain ⟨s, hs⟩ := isSome_iff_exists.mp hsome
  have heq : sleepsAfterWait = s := by rw [sleepsAfterWait, hs, getD_some]
  rw [heq]
  exact reaches_run Reaches.init hs

theorem sleepListOk_sleepsAfterWait :
    Sleeping sleepsAfterWait 1 ∧ SleepListOk sleepsAfterWait :=
  ⟨by decide +kernel, (sleepListOk_of_spares sleepsAfterWait reaches_sleepsAfterWait).1⟩

/-- A wake-up of the queue that task 1 left readies it in its sleep, and it stays on the
sleep list. -/
theorem stale_wake_up_breaks_sleep_list :
    Reaches (fun _ _ => True) sleepsAfterWait ∧
      step sleepsAfterWait (.wakeUpInterruptible 0)
        = some (wakeUpInterruptible sleepsAfterWait 0) ∧
      ¬ SleepListOk (wakeUpInterruptible sleepsAfterWait 0) := by
  have hstep : step sleepsAfterWait (.wakeUpInterruptible 0)
      = some (wakeUpInterruptible sleepsAfterWait 0) := rfl
  refine ⟨reaches_sleepsAfterWait.mono fun _ _ _ => trivial, hstep, ?_⟩
  refine not_sleepListOk_of_not_spares (sleepInv_reaches reaches_sleepsAfterWait).1 ?_ hstep
  decide +kernel

end Proc

end Yap
