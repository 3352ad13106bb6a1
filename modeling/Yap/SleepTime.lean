/-
# How long a task sleeps (`proc/proc.c`)

A tick takes one off the `sleep_time` of every sleeping task and wakes those at zero, so a task
sleeps for as many ticks as were written there, and for one if that was zero (`sleep_ticks`).
What is written there is computed in 32 bits, and `process_msleep` rounds down: a sleep can be
shorter than what was asked for (`sleep_long_enough_iff`).
-/
import Yap.SleepList

namespace Yap

namespace Proc

open List BitVec Option

/-! ## The ticks of a call -/

variable {rounds t : ℕ} {s s' : State} {x : TaskStruct}

theorem toNat_sleepTicks (sec : BitVec 32) :
    (sleepTicks sec).toNat = sec.toNat * 100 % 2 ^ 32 := toNat_mul _ _

theorem toNat_msleepTicks (m : BitVec 32) :
    (msleepTicks m).toNat = max 1 (m.toNat * 100 % 2 ^ 32 / 1000) := by
  have hn : (m * hz / 1000).toNat = m.toNat * 100 % 2 ^ 32 / 1000 := by
    rw [toNat_udiv, toNat_mul]
    rfl
  unfold msleepTicks
  dsimp only
  split_ifs with hzero
  · rw [hzero] at hn
    rw [← hn]
    rfl
  · have hne : (m * hz / 1000).toNat ≠ 0 := fun h => hzero (eq_of_toNat_eq h)
    rw [← hn, max_eq_right (Nat.one_le_iff_ne_zero.mpr hne)]

theorem goToSleep_sleepTime (s : State) (t : ℕ) (ticks : BitVec 32) :
    ((goToSleep s t ticks).task t).sleepTime = ticks := by
  simp [goToSleep, addToSleepList, setTask]

/-- A function of the product with `HZ` that falls where the product wraps is monotone up to `n`
only if no product wraps there. -/
theorem monotone_ticks_iff {f : BitVec 32 → BitVec 32}
    (hup : ∀ m m' : BitVec 32, m.toNat ≤ m'.toNat → m'.toNat * 100 < 2 ^ 32 → f m ≤ f m')
    (hwrap : f 42949673 < f 42949672) (n : BitVec 32) :
    (∀ m m', m ≤ m' → m' ≤ n → f m ≤ f m') ↔ n.toNat * 100 < 2 ^ 32 := by
  constructor
  · intro h
    by_contra hn
    have hle : (42949673 : BitVec 32) ≤ n := by
      show 42949673 ≤ n.toNat
      omega
    exact BitVec.not_le.mpr hwrap (h 42949672 42949673 (by decide) hle)
  · intro hn m m' hle hle'
    have hm' : m'.toNat ≤ n.toNat := hle'
    exact hup m m' hle (by omega)

/-- **Sleeps that are long enough**: those of whole ticks, or of less than one, whose product with
`HZ` does not wrap; and up to such an argument a longer sleep is not a shorter one. -/
theorem sleep_long_enough_iff (s : State) (t : ℕ) :
    (∀ m : BitVec 32, (m.toNat * hz.toNat + 999) / 1000 ≤
        ((goToSleep s t (msleepTicks m)).task t).sleepTime.toNat ↔
      m.toNat * hz.toNat < 2 ^ 32 ∧ (m.toNat < 10 ∨ 10 ∣ m.toNat)) ∧
    (∀ sec : BitVec 32,
      sec.toNat * hz.toNat ≤ ((goToSleep s t (sleepTicks sec)).task t).sleepTime.toNat ↔
        sec.toNat * hz.toNat < 2 ^ 32) ∧
    ∀ ticks ∈ [msleepTicks, sleepTicks], ∀ n : BitVec 32,
      (∀ m m', m ≤ m' → m' ≤ n → ((goToSleep s t (ticks m)).task t).sleepTime ≤
        ((goToSleep s t (ticks m')).task t).sleepTime) ↔ n.toNat * hz.toNat < 2 ^ 32 := by
  simp only [goToSleep_sleepTime, show hz.toNat = 100 from rfl]
  refine ⟨fun m => ?_, fun sec => ?_, fun ticks hticks => ?_⟩
  · rw [toNat_msleepTicks]
    by_cases hfits : m.toNat * 100 < 2 ^ 32
    · rw [Nat.mod_eq_of_lt hfits]
      omega
    · omega
  · rw [toNat_sleepTicks]
    omega
  · simp only [mem_cons, not_mem_nil, or_false] at hticks
    rcases hticks with rfl | rfl
    · refine monotone_ticks_iff (fun m m' hle hm' => ?_) (by decide)
      rw [le_def, toNat_msleepTicks, toNat_msleepTicks, Nat.mod_eq_of_lt (by omega),
        Nat.mod_eq_of_lt hm']
      omega
    · refine monotone_ticks_iff (fun m m' hle hm' => ?_) (by decide)
      rw [le_def, toNat_sleepTicks, toNat_sleepTicks, Nat.mod_eq_of_lt (by omega),
        Nat.mod_eq_of_lt hm']
      omega

/-- `process_msleep(11)` sleeps for one tick of ten milliseconds; 42949673 seconds are four ticks,
and fewer than those of one second less. -/
theorem short_sleeps :
    ((goToSleep osInit 0 (msleepTicks 11)).task 0).sleepTime = 1 ∧
      ((goToSleep osInit 0 (sleepTicks 42949673)).task 0).sleepTime = 4 ∧
      ((goToSleep osInit 0 (sleepTicks 42949672)).task 0).sleepTime = 4294967200 := by
  decide

/-! ## Ticks -/

/-- What a tick does to a sleeping task. -/
def ticked (x : TaskStruct) : TaskStruct :=
  let n := if 0 < x.sleepTime then x.sleepTime - 1 else x.sleepTime
  if n = 0 then ⟨x.state &&& ~~~processSleepBit, n⟩ else ⟨x.state, n⟩

/-- The ticks that a sleeping task still sleeps. -/
def left (x : TaskStruct) : ℕ := max 1 x.sleepTime.toNat

theorem tickTask_task (s : State) (t u : ℕ) :
    (tickTask s t).task u = if u = t then ticked (s.task t) else s.task u := by
  unfold tickTask ticked
  dsimp only
  split_ifs <;> simp [setTask, *]

theorem sweep_task {n : ℕ} {s s' : State} {a : Node} {L : List ℕ}
    (h : sweep n s a = some (s', L)) (hnodup : L.Nodup) (u : ℕ) :
    s'.task u = if u ∈ L then ticked (s.task u) else s.task u := by
  induction n generalizing s s' a L with
  | zero => cases h
  | succ n ih =>
    cases a with
    | head =>
      cases h
      simp
    | task t =>
      rw [sweep, map_eq_some_iff] at h
      obtain ⟨⟨s1, L1⟩, hsweep, heq⟩ := h
      obtain ⟨rfl, rfl⟩ := Prod.mk.inj heq
      obtain ⟨ht, hnodup⟩ := nodup_cons.mp hnodup
      rw [ih hsweep hnodup, tickTask_task]
      by_cases hu : u = t
      · simp [hu, ht]
      · simp [hu]

/-- **A tick** changes the sleeping tasks and no others. -/
theorem clockTick_task (h : SleepInv s)
    (hstep : step s (.clockTick rounds) = some s') (u : ℕ) :
    s'.task u = if Sleeping s u then ticked (s.task u) else s.task u := by
  obtain ⟨⟨s', L⟩, hr, rfl⟩ := map_eq_some_iff.mp hstep
  obtain ⟨L', hL⟩ := h.1.sleepers
  obtain ⟨rfl, -, -⟩ := hL.tick hr
  simp only [sweep_task hr hL.nodup u, hL.2 u]

/-- With more than one tick left a task sleeps on, with one tick less. -/
theorem ticked_of_left (h : 1 < left x) :
    (ticked x).state = x.state ∧ left (ticked x) + 1 = left x := by
  unfold left at h
  have hpos : 0 < x.sleepTime := by
    show 0 < x.sleepTime.toNat
    omega
  have hsub := toNat_sub_one (d := x.sleepTime) (by
    intro hzero
    rw [hzero] at h
    exact absurd h (by decide))
  have hne : x.sleepTime - 1 ≠ 0 := by
    intro hzero
    rw [hzero] at hsub
    change 0 = _ at hsub
    omega
  unfold ticked left
  rw [if_pos hpos, if_neg hne]
  refine ⟨rfl, ?_⟩
  rw [hsub]
  omega

/-- The last tick wakes it. -/
theorem ticked_of_left_one (h : left x = 1) :
    (ticked x).state = x.state &&& ~~~processSleepBit := by
  have hle : x.sleepTime.toNat ≤ 1 := by
    unfold left at h
    omega
  have hn : (if 0 < x.sleepTime then x.sleepTime - 1 else x.sleepTime) = 0 := by
    obtain hzero | hone : x.sleepTime = 0 ∨ x.sleepTime = 1 := by
      rcases Nat.le_one_iff_eq_zero_or_eq_one.mp hle with h0 | h1
      · exact Or.inl (eq_of_toNat_eq h0)
      · exact Or.inr (eq_of_toNat_eq h1)
    · rw [hzero]
      rfl
    · rw [hone]
      rfl
  unfold ticked
  rw [hn]
  rfl

theorem one_le_left (x : TaskStruct) : 1 ≤ left x := le_max_left _ _

/-- A tick wakes the sleeping tasks with one tick left, and changes no other state. -/
theorem clockTick_state (h : SleepInv s)
    (hstep : step s (.clockTick rounds) = some s') (u : ℕ) :
    (s'.task u).state =
      if Sleeping s u ∧ left (s.task u) = 1 then (s.task u).state &&& ~~~processSleepBit
      else (s.task u).state := by
  rw [clockTick_task h hstep u]
  by_cases hsleep : Sleeping s u
  · rw [if_pos hsleep]
    by_cases hone : left (s.task u) = 1
    · rw [if_pos ⟨hsleep, hone⟩, ticked_of_left_one hone]
    · have hle := one_le_left (s.task u)
      rw [if_neg fun hand => hone hand.2, (ticked_of_left (by omega)).1]
  · rw [if_neg hsleep, if_neg fun hand => hsleep hand.1]

/-! ## Runs in which tasks block by sleeping -/

/-- The steps of runs in which tasks block only in `process_sleep` and `process_msleep`. -/
def OnlySleeps : Event → Prop
  | .prepareToWait _ | .waitForCompletion _ _ => False
  | _ => True

instance : DecidablePred OnlySleeps
  | .prepareToWait _ | .waitForCompletion _ _ => isFalse id
  | .switch _ | .processSleep _ | .processMsleep _ | .clockTick _ | .finishWait _
  | .wakeUpInterruptible _ | .recheckCompletion | .complete _ => isTrue trivial

/-- Nobody waits on a queue or for a completion. -/
structure NoWaiters (s : State) : Prop where
  priv : ∀ w, s.priv w = none
  waiters : ∀ x, (s.completion x).waiters = []
  inside : ∀ t, s.inside t = none

/-- The number of ticks of a run. -/
def ticksIn (es : List Event) : ℕ := es.countP fun e => e matches .clockTick _

theorem goToSleep_task_of_ne {t u : ℕ} (ticks : BitVec 32) (h : u ≠ t) :
    (goToSleep s t ticks).task u = s.task u := if_neg h

/-- A step of such a run is a tick, or does nothing to the tasks that sleep. -/
theorem onlySleeps_cases {e : Event} (h : NoWaiters s) (hinv : SleepInv s)
    (he : OnlySleeps e) (hstep : step s e = some s') :
    NoWaiters s' ∧ SleepInv s' ∧ ((∃ rounds, e = .clockTick rounds) ∨
      ticksIn [e] = 0 ∧ ∀ t, Sleeping s t → s'.task t = s.task t) := by
  have hspares : Spares s e := by
    cases e <;> simp [Spares, h.priv, h.waiters]
  have hinv' := sleepInv_step hinv hspares hstep
  have hwake : ∀ w, wakePriv s w = s := fun w => by simp [wakePriv, h.priv w]
  have hrunning : ∀ {t u}, caller s = some t → Sleeping s u → u ≠ t := by
    rintro t u ht hu rfl
    exact hinv.2 u (running_of_caller ht) hu
  cases does_of_step hstep with
  | prepareToWait | takes | enters => exact he.elim
  | switch => exact ⟨⟨h.priv, h.waiters, h.inside⟩, hinv', .inr ⟨rfl, fun _ _ => rfl⟩⟩
  | processSleep ht | processMsleep ht =>
    exact ⟨⟨h.priv, h.waiters, h.inside⟩, hinv', .inr ⟨rfl, fun u hu =>
      goToSleep_task_of_ne _ (hrunning ht hu)⟩⟩
  | clockTick hr =>
    obtain ⟨L, hL⟩ := hinv.1.sleepers
    obtain ⟨-, -, hframe⟩ := hL.tick hr
    refine ⟨⟨?_, ?_, ?_⟩, hinv', .inl ⟨_, rfl⟩⟩
    · rw [hframe.priv]
      exact h.priv
    · rw [hframe.completion]
      exact h.waiters
    · rw [hframe.inside]
      exact h.inside
  | finishWait | wakeUpInterruptible =>
    rw [hwake]
    exact ⟨h, hinv, .inr ⟨rfl, fun _ _ => rfl⟩⟩
  | resumes hr | blocks hr => simp [resumed, h.inside] at hr
  | @complete x =>
    have heq : completed s x = setCompletion s x ⟨(s.completion x).done + 1, []⟩ := by
      simp [completed, h.waiters x]
    rw [heq] at hinv' ⊢
    refine ⟨⟨h.priv, fun y => ?_, h.inside⟩, hinv', .inr ⟨rfl, fun _ _ => rfl⟩⟩
    by_cases hy : y = x
    · simp [setCompletion, hy]
    · simp [setCompletion, hy, h.waiters y]

theorem noWaiters_reaches (h : Reaches (fun _ => OnlySleeps) s) :
    NoWaiters s ∧ SleepInv s := by
  induction h with
  | init => exact ⟨⟨fun _ => rfl, fun _ => rfl, fun _ => rfl⟩, sleepInv_osInit⟩
  | step _ he hstep ih =>
    obtain ⟨hno, hinv, -⟩ := onlySleeps_cases ih.1 ih.2 he hstep
    exact ⟨hno, hinv⟩

/-- A task sleeps through every run that has fewer ticks than it has left. -/
theorem sleeps_on {es : List Event} {s s' : State} (hno : NoWaiters s) (hinv : SleepInv s)
    (hsleep : Sleeping s t) (hrun : run (fun _ => OnlySleeps) s es = some s')
    (hlt : ticksIn es < left (s.task t)) :
    SleepInv s' ∧ Sleeping s' t ∧ left (s'.task t) + ticksIn es = left (s.task t) := by
  induction es generalizing s with
  | nil =>
    rw [← some.inj hrun]
    exact ⟨hinv, hsleep, rfl⟩
  | cons e es ih =>
    rw [run, foldlM_cons, bind_eq_bind, bind_eq_some_iff] at hrun
    obtain ⟨s1, hstep, hrun⟩ := hrun
    split_ifs at hstep with he
    obtain ⟨hno1, hinv1, htick | ⟨hzero, hsame⟩⟩ := onlySleeps_cases hno hinv he hstep
    · -- a tick, and not the last
      obtain ⟨rounds, rfl⟩ := htick
      have hcount : ticksIn (.clockTick rounds :: es) = ticksIn es + 1 :=
        countP_cons_of_pos rfl
      have htask := clockTick_task hinv hstep t
      rw [if_pos hsleep] at htask
      obtain ⟨hstate, hleft⟩ := ticked_of_left (x := s.task t) (by omega)
      rw [← htask] at hstate hleft
      have hsleep1 : Sleeping s1 t := by
        rw [Sleeping, hstate]
        exact hsleep
      obtain ⟨hinv', hsleep', heq⟩ := ih hno1 hinv1 hsleep1 hrun (by omega)
      exact ⟨hinv', hsleep', by omega⟩
    · have hcount : ticksIn ([e] ++ es) = ticksIn [e] + ticksIn es := countP_append
      rw [singleton_append] at hcount
      have htask := hsame t hsleep
      have hsleep1 : Sleeping s1 t := by
        rw [Sleeping, htask]
        exact hsleep
      rw [← htask] at hlt ⊢
      obtain ⟨hinv', hsleep', heq⟩ := ih hno1 hinv1 hsleep1 hrun (by omega)
      exact ⟨hinv', hsleep', by omega⟩

/-- **How long a task sleeps.**  In every run in which tasks block only by sleeping: a tick is
possible, it wakes the sleeping tasks with at most one tick left and changes no other state; and a
task that goes to sleep for `ticks` ticks sleeps in every state before the tick with that number,
which wakes it. -/
theorem sleep_ticks (s : State) (h : Reaches (fun _ => OnlySleeps) s) :
    (∃ rounds s', step s (.clockTick rounds) = some s') ∧
    (∀ rounds s', step s (.clockTick rounds) = some s' → ∀ u, (s'.task u).state =
      if Sleeping s u ∧ left (s.task u) = 1 then (s.task u).state &&& ~~~processSleepBit
      else (s.task u).state) ∧
    ∀ t ticks, caller s = some t → ∀ es s', run (fun _ => OnlySleeps) (goToSleep s t ticks) es =
      some s' → ticksIn es < max 1 ticks.toNat → Sleeping s' t ∧
        ∀ rounds s'', step s' (.clockTick rounds) = some s'' →
          (Sleeping s'' t ↔ ticksIn es + 1 < max 1 ticks.toNat) := by
  obtain ⟨hno, hinv⟩ := noWaiters_reaches h
  refine ⟨?_, fun rounds s' hstep u => ?_, fun t ticks ht es s' hrun hlt => ?_⟩
  · obtain ⟨L, hL⟩ := hinv.1.sleepers
    obtain ⟨s', _, heq, -, -⟩ := updateSleepingProc_spec hL
    exact ⟨L.length + 1, s', by rw [step, heq]; rfl⟩
  · exact clockTick_state hinv hstep u
  · have hsleep : Sleeping (goToSleep s t ticks) t := by
      refine sleeping_setTask.mpr ?_
      rw [if_pos rfl]
      exact or_sleep_ne_zero _
    have hno' : NoWaiters (goToSleep s t ticks) := ⟨hno.priv, hno.waiters, hno.inside⟩
    have hleft : left ((goToSleep s t ticks).task t) = max 1 ticks.toNat := by
      rw [left, goToSleep_sleepTime]
    rw [← hleft] at hlt ⊢
    obtain ⟨hinv', hsleep', heq⟩ := sleeps_on hno'
      (sleepInv_goToSleep hinv (running_of_caller ht)) hsleep hrun hlt
    refine ⟨hsleep', fun rounds s'' hstep => ?_⟩
    rw [Sleeping, clockTick_state hinv' hstep t]
    by_cases hone : left (s'.task t) = 1
    · rw [if_pos ⟨hsleep', hone⟩, and_not_sleep]
      exact ⟨fun hne => absurd rfl hne, fun hlt' => by omega⟩
    · rw [if_neg fun hand => hone hand.2]
      exact ⟨fun _ => by omega, fun _ => hsleep'⟩

/-- Task 1 goes to sleep for two ticks and still sleeps after the first. -/
theorem sleep_ticks_two :
    ∃ s s', step osInit (.switch 1) = some s ∧
      run (fun _ => OnlySleeps) (goToSleep s 1 2) [.clockTick 2] = some s' ∧ Sleeping s' 1 := by
  have hreach : Reaches (fun _ => OnlySleeps) { osInit with running := some 1 } :=
    Reaches.init.step (e := .switch 1) trivial rfl
  have hsleep := (sleep_ticks _ hreach).2.2 1 2 rfl [.clockTick 2] _ rfl (by decide)
  exact ⟨_, _, rfl, rfl, hsleep.1⟩

end Proc

end Yap
