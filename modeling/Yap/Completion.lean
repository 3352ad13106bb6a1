/-
# Completions (`proc/proc.c`)

`complete` takes the first waiter off the list and readies it, but the waiter checks
`done` again when it runs, and if it finds no token it blocks once more without linking
itself.  As long as every woken waiter finds a token, a blocked waiter is linked; the first
one that does not is stranded.  So is one whose entry `list_del` does not accept, because the
stack of the task is not in RAM: the `complete` that is to wake it never returns.
-/
import Yap.Proc

namespace Yap

namespace Proc

open List Option

/-- A task inside `do_wait_for_common` that is not ready is linked on the completion, with an
entry that `list_del` accepts. -/
def Linked (s : State) : Prop :=
  ∀ t x, s.inside t = some x → (s.task t).state ≠ processReady →
    t ∈ (s.completion x).waiters ∧ checkAddr (s.wqAddr t)

/-- The steps of tasks that use completions only. -/
def OnlyCompletions : Event → Prop
  | .switch _ => True
  | .waitForCompletion _ _ => True
  | .recheckCompletion => True
  | .complete _ => True
  | _ => False

instance (e : Event) : Decidable (OnlyCompletions e) := by
  cases e <;> unfold OnlyCompletions <;> infer_instance

/-- A waiter that runs again finds `done` different from 0, and one that is linked has its entry
in RAM. -/
def FindsToken (s : State) : Event → Prop
  | .switch _ => True
  | .waitForCompletion x addr => (s.completion x).done = 0 → checkAddr addr
  | .recheckCompletion => ∀ r ∈ resumed s, (s.completion r.2).done ≠ 0
  | .complete _ => True
  | _ => False

instance (s : State) (e : Event) : Decidable (FindsToken s e) := by
  cases e <;> unfold FindsToken <;> infer_instance

theorem onlyCompletions_of_findsToken {s : State} {e : Event} (h : FindsToken s e) :
    OnlyCompletions e := by
  cases e <;> trivial

/-! ## The invariant -/

/-- The waiters of a completion are the blocked tasks in its `do_wait_for_common`. -/
structure WaitInv (s : State) : Prop where
  linked : Linked s
  waiting : ∀ x, ∀ t ∈ (s.completion x).waiters,
    s.inside t = some x ∧ (s.task t).state ≠ processReady
  nodup : ∀ x, (s.completion x).waiters.Nodup
  ready : ∀ t ∈ s.running, (s.task t).state = processReady

theorem waitInv_osInit : WaitInv osInit := by
  refine ⟨?_, ?_, fun x => nodup_nil, ?_⟩
  · intro t x h
    cases h
  · intro x t h
    cases h
  · intro t h
    cases h

section

variable {s : State} {t u x y : ℕ} {addr : BitVec 32}

@[simp] theorem setCompletion_self (c : Completion) :
    (setCompletion s x c).completion x = c := if_pos rfl

theorem setCompletion_of_ne (c : Completion) (h : y ≠ x) :
    (setCompletion s x c).completion y = s.completion y := if_neg h

theorem caller_eq_some : caller s = some t ↔ s.running = some t ∧ s.inside t = none := by
  simp [caller, filter_eq_some_iff]

theorem resumed_eq_some : resumed s = some (t, x) ↔ s.running = some t ∧ s.inside t = some x := by
  simp [resumed, bind_eq_some_iff]

theorem waiters_enter (s : State) (t x y : ℕ) (addr : BitVec 32) :
    ((enter s t x addr).completion y).waiters =
      (s.completion y).waiters ++ if y = x then [t] else [] := by
  show ((setCompletion s x _).completion y).waiters = _
  by_cases hyx : y = x
  · rw [hyx, setCompletion_self, if_pos rfl]
  · rw [setCompletion_of_ne _ hyx, if_neg hyx, append_nil]

theorem done_enter (s : State) (t x y : ℕ) (addr : BitVec 32) :
    ((enter s t x addr).completion y).done = (s.completion y).done := by
  show ((setCompletion s x _).completion y).done = _
  by_cases hyx : y = x
  · rw [hyx, setCompletion_self]
  · rw [setCompletion_of_ne _ hyx]

theorem state_enter_of_ne (x : ℕ) (addr : BitVec 32) (h : u ≠ t) :
    (enter s t x addr).task u = s.task u :=
  setTaskState_of_ne _ h

theorem completed_frame (s : State) (x : ℕ) : (completed s x).inside = s.inside ∧
    (completed s x).running = s.running ∧ (completed s x).wqAddr = s.wqAddr := by
  unfold completed
  dsimp only
  split <;> exact ⟨rfl, rfl, rfl⟩

theorem completion_completed (s : State) (x y : ℕ) : (completed s x).completion y =
    if y = x then ⟨(s.completion x).done + 1, (s.completion x).waiters.tail⟩
    else s.completion y := by
  unfold completed
  dsimp only
  cases hw : (s.completion x).waiters <;> rfl

/-- `complete` readies the first waiter. -/
theorem state_completed (s : State) (x u : ℕ) : ((completed s x).task u).state =
    if u ∈ (s.completion x).waiters.head? then processReady else (s.task u).state := by
  unfold completed
  dsimp only
  cases (s.completion x).waiters with
  | nil => rfl
  | cons t rest =>
    have hhead : u ∈ (t :: rest).head? ↔ u = t := by simp [eq_comm]
    by_cases hut : u = t
    · rw [if_pos (hhead.mpr hut), hut, setTaskState_self]
    · rw [if_neg (mt hhead.mp hut), setTaskState_of_ne _ hut]
      rfl

/-- The entries of linked waiters can be removed. -/
theorem WaitInv.complete_eq (h : WaitInv s) (x : ℕ) : complete s x = some (completed s x) := by
  refine if_pos ?_
  cases hw : (s.completion x).waiters.head? with
  | none => rfl
  | some t =>
    obtain ⟨hin, hs⟩ := h.waiting x t (mem_of_mem_head? hw)
    exact (h.linked t x hin hs).2

/-- Taking a token changes no waiter, if the task is not one. -/
theorem waitInv_takeToken (h : WaitInv s) (ht : t ∈ s.running) : WaitInv (takeToken s t x) := by
  have hwaiters : ∀ y, ((takeToken s t x).completion y).waiters = (s.completion y).waiters := by
    intro y
    unfold takeToken
    by_cases hy : y = x
    · rw [hy]
      simp [setCompletion]
    · simp [setCompletion, hy]
  have hnot : ∀ y, t ∉ (s.completion y).waiters := fun y hmem => (h.waiting y t hmem).2 (h.ready t ht)
  refine ⟨fun u y hu hs => ?_, fun y u hu => ?_, fun y => ?_, h.ready⟩
  · rw [hwaiters]
    change (if u = t then none else s.inside u) = some y at hu
    split_ifs at hu
    exact h.linked u y hu hs
  · rw [hwaiters] at hu
    obtain ⟨h1, h2⟩ := h.waiting y u hu
    refine ⟨?_, h2⟩
    show (if u = t then none else s.inside u) = some y
    have hut : u ≠ t := by
      rintro rfl
      exact hnot y hu
    rw [if_neg hut]
    exact h1
  · rw [hwaiters]
    exact h.nodup y

/-- `wait_for_completion` without a token links the task and blocks it. -/
theorem waitInv_enter (h : WaitInv s) (hin : s.inside t = none) (haddr : checkAddr addr) :
    WaitInv (enter s t x addr) := by
  have hnot : ∀ y, t ∉ (s.completion y).waiters := by
    intro y hmem
    have := (h.waiting y t hmem).1
    rw [hin] at this
    cases this
  have hinside : ∀ u, (enter s t x addr).inside u = if u = t then some x else s.inside u :=
    fun u => rfl
  have hwq : ∀ u, (enter s t x addr).wqAddr u = if u = t then addr else s.wqAddr u := fun u => rfl
  have hstate : ((enter s t x addr).task t).state = processWait := setTaskState_self _
  refine ⟨fun u y hu hs => ?_, fun y u hu => ?_, fun y => ?_, ?_⟩
  · rw [waiters_enter, hwq]
    by_cases hut : u = t
    · rw [hinside, if_pos hut, some.injEq] at hu
      rw [if_pos hu.symm, if_pos hut, hut]
      exact ⟨mem_append_right _ (mem_singleton_self t), haddr⟩
    · rw [hinside, if_neg hut] at hu
      rw [state_enter_of_ne x addr hut] at hs
      rw [if_neg hut]
      exact (h.linked u y hu hs).imp_left (mem_append_left _)
  · rw [waiters_enter, mem_append] at hu
    rcases hu with hu | hu
    · have hut : u ≠ t := fun heq => hnot y (heq ▸ hu)
      rw [hinside, if_neg hut, state_enter_of_ne x addr hut]
      exact h.waiting y u hu
    · split_ifs at hu with hyx
      · rw [mem_singleton.mp hu, hinside, if_pos rfl, hstate, hyx]
        exact ⟨rfl, by decide⟩
      · cases hu
  · rw [waiters_enter]
    split_ifs
    · refine nodup_append.mpr ⟨h.nodup y, nodup_singleton t, ?_⟩
      intro a ha b hb heq
      rw [mem_singleton.mp hb] at heq
      exact hnot y (heq ▸ ha)
    · rw [append_nil]
      exact h.nodup y
  · intro u hu
    cases hu

theorem mem_of_mem_waiters_completed (hu : u ∈ ((completed s x).completion y).waiters) :
    u ∈ (s.completion y).waiters := by
  rw [completion_completed] at hu
  split_ifs at hu with hyx
  · rw [hyx]
    exact mem_of_mem_tail hu
  · exact hu

/-- `complete` takes the first waiter off the list and readies it. -/
theorem waitInv_completed (h : WaitInv s) : WaitInv (completed s x) := by
  obtain ⟨hinside, hrunning, hwq⟩ := completed_frame s x
  refine ⟨fun u y hu hs => ?_, fun y u hu => ?_, fun y => ?_, fun u hu => ?_⟩
  · rw [hinside] at hu
    rw [state_completed] at hs
    split_ifs at hs with hhead
    · exact absurd rfl hs
    · obtain ⟨hmem, haddr⟩ := h.linked u y hu hs
      rw [hwq]
      refine ⟨?_, haddr⟩
      rw [completion_completed]
      split_ifs with hyx
      · rw [hyx] at hmem
        cases hw : (s.completion x).waiters with
        | nil =>
          rw [hw] at hmem
          cases hmem
        | cons t rest =>
          rw [hw] at hmem hhead
          exact (mem_cons.mp hmem).resolve_left fun heq => hhead (heq ▸ rfl)
      · exact hmem
  · have hold := mem_of_mem_waiters_completed hu
    obtain ⟨h1, h2⟩ := h.waiting y u hold
    refine ⟨by rw [hinside]; exact h1, ?_⟩
    rw [state_completed, if_neg]
    · exact h2
    · -- the readied task waits for `x` only, and is no longer linked there
      intro hhead
      have hx := h.waiting x u (mem_of_mem_head? hhead)
      have hyx : y = x := some.inj (h1.symm.trans hx.1)
      rw [hyx, completion_completed, if_pos rfl] at hu
      have hnd := h.nodup x
      obtain ⟨rest, hw⟩ := head?_eq_some_iff.mp hhead
      rw [hw] at hu hnd
      exact (nodup_cons.mp hnd).1 hu
  · rw [completion_completed]
    split_ifs
    · exact (h.nodup x).tail
    · exact h.nodup y
  · rw [hrunning] at hu
    rw [state_completed]
    split_ifs
    · rfl
    · exact h.ready u hu

end

variable {s s' : State} {e : Event}

/-- One step keeps the invariant, if a waiter that runs again finds a token. -/
theorem waitInv_step (h : WaitInv s) (he : FindsToken s e)
    (hstep : step s e = some s') : WaitInv s' := by
  cases does_of_step hstep with
  | switch hready =>
    refine ⟨h.linked, h.waiting, h.nodup, fun u hu => ?_⟩
    rw [mem_some_iff] at hu
    rw [← hu]
    exact hready
  | takes ht => exact waitInv_takeToken h (caller_eq_some.mp ht).1
  | enters ht hdone => exact waitInv_enter h (caller_eq_some.mp ht).2 (he hdone)
  | resumes hr => exact waitInv_takeToken h (resumed_eq_some.mp hr).1
  | blocks hr hdone => exact absurd hdone (he _ hr)
  | complete => exact waitInv_completed h
  | _ => exact absurd he not_false

theorem waitInv_reaches (h : Reaches FindsToken s) : WaitInv s := by
  induction h with
  | init => exact waitInv_osInit
  | step _ he hstep ih => exact waitInv_step ih he hstep

/-- A waiter that runs again without a token is stranded. -/
theorem not_linked_of_no_token (h : WaitInv s) {t x : ℕ} (hr : resumed s = some (t, x))
    (hdone : (s.completion x).done = 0)
    (hstep : step s .recheckCompletion = some s') : ¬ Linked s' := by
  rw [step, hr, map_some, some.injEq] at hstep
  rw [recheckCompletion, if_neg (not_not.mpr hdone)] at hstep
  obtain ⟨hrun, hin⟩ := resumed_eq_some.mp hr
  intro hl
  rw [← hstep] at hl
  have hstate : ((block s t x).task t).state = processWait := setTaskState_self _
  have hinside : (block s t x).inside t = some x := if_pos rfl
  have hmem := (hl t x hinside (by rw [hstate]; decide)).1
  exact (h.waiting x t hmem).2 (h.ready t hrun)

/-- A waiter with its entry outside of the RAM is stranded. -/
theorem not_linked_of_addr {x : ℕ} {addr : BitVec 32} (hdone : (s.completion x).done = 0)
    (haddr : ¬ checkAddr addr) (hstep : step s (.waitForCompletion x addr) = some s') :
    ¬ Linked s' := by
  cases does_of_step hstep with
  | takes _ hne => exact absurd hdone hne
  | @enters t =>
    intro hl
    have hstate : ((enter s t x addr).task t).state = processWait := setTaskState_self _
    have hwq := (hl t x (if_pos rfl) (hstate ▸ by decide)).2
    exact haddr ((if_pos rfl : (enter s t x addr).wqAddr t = addr) ▸ hwq)

/-! ## Enough completions -/

/-- `n` calls of `complete(x)`. -/
def completes (x : ℕ) : ℕ → State → Option State
  | 0, s => some s
  | n + 1, s => (complete s x).bind (completes x n)

/-- As many calls of `complete` as there are waiters ready them all. -/
theorem ready_of_completes {x n : ℕ} {s : State} (h : WaitInv s)
    (hn : (s.completion x).waiters.length ≤ n) (t : ℕ) (ht : s.inside t = some x) :
    ∃ s', completes x n s = some s' ∧ (s'.task t).state = processReady := by
  induction n generalizing s with
  | zero =>
    refine ⟨s, rfl, ?_⟩
    by_contra hs
    have hmem := (h.linked t x ht hs).1
    rw [length_eq_zero_iff.mp (Nat.le_zero.mp hn)] at hmem
    cases hmem
  | succ n ih =>
    rw [completes, h.complete_eq, bind_some]
    refine ih (waitInv_completed h) ?_ (by rw [(completed_frame s x).1]; exact ht)
    rw [completion_completed, if_pos rfl, length_tail]
    omega

/-- Task 1 waits and is readied by `complete`; task 2 takes the token; task 1 runs. -/
def tokenTaken : List Event :=
  [.switch 1, .waitForCompletion 0 0x30001000, .complete 0, .switch 2,
    .waitForCompletion 0 0x30002000, .switch 1]

/-- The state in which task 1 is about to check `done` again. -/
def tokenTakenState : State := (run FindsToken osInit tokenTaken).getD osInit

theorem reaches_tokenTakenState : Reaches FindsToken tokenTakenState := by
  have hsome : (run FindsToken osInit tokenTaken).isSome = true := by decide +kernel
  obtain ⟨s, hs⟩ := isSome_iff_exists.mp hsome
  have heq : tokenTakenState = s := by rw [tokenTakenState, hs, getD_some]
  rw [heq]
  exact reaches_run Reaches.init hs

/-- The task inside `wait_for_completion` that a step runs, with the completion. -/
def waitsIn (s : State) : Event → Option (ℕ × ℕ)
  | .waitForCompletion x _ => (caller s).map fun t => (t, x)
  | .recheckCompletion => resumed s
  | _ => none

/-- The number of waits for `x` that return in a step: the task that runs in one is no longer
inside. -/
def returns (x : ℕ) (s : State) (e : Event) (s' : State) : ℕ :=
  if (waitsIn s e).any fun r => r.2 = x ∧ s'.inside r.1 = none then 1 else 0

/-- Runs from a state in which `x` is initialised, with the calls of `complete(x)` and the returned
waits for `x`. -/
inductive Counts (x : ℕ) : State → ℕ → ℕ → Prop where
  | init {s : State} : (s.completion x).done = 0 → Counts x s 0 0
  | step {s s' : State} {e : Event} {c r : ℕ} : Counts x s c r → step s e = some s' →
      Counts x s' (c + if e = .complete x then 1 else 0) (r + returns x s e s')

theorem sweep_completion {n : ℕ} {s : State} {a : Node} {r : State × List ℕ}
    (h : sweep n s a = some r) : r.1.completion = s.completion := by
  induction n generalizing s a r with
  | zero => cases h
  | succ n ih =>
    cases a with
    | head =>
      cases h
      rfl
    | task t =>
      rw [sweep, map_eq_some_iff] at h
      obtain ⟨r', hr', rfl⟩ := h
      refine (ih hr').trans ?_
      unfold tickTask
      dsimp only
      split_ifs <;> rfl

/-- What a step of a wait for `y` does to the tokens of `x`, whether the task returns or blocks. -/
theorem done_wait {t y : ℕ} (x : ℕ) (hw : waitsIn s e = some (t, y))
    (hs' : (s.completion y).done ≠ 0 ∧ s' = takeToken s t y ∨
      s'.inside t = some y ∧ (s'.completion x).done = (s.completion x).done) :
    returns x s e s' = 1 ∧ (s'.completion x).done.toNat + 1 = (s.completion x).done.toNat ∨
      returns x s e s' = 0 ∧ (s'.completion x).done = (s.completion x).done := by
  rcases hs' with ⟨hdone, rfl⟩ | ⟨hin, hsame⟩
  · by_cases hyx : y = x
    · subst hyx
      refine .inl ⟨by simp [returns, hw, takeToken], ?_⟩
      have hpos := BitVec.toNat_pos_of_ne_zero hdone
      simp only [takeToken, setCompletion_self, toNat_sub_one hdone]
      omega
    · refine .inr ⟨by simp [returns, hw, hyx], ?_⟩
      simp [takeToken, setCompletion_of_ne _ (Ne.symm hyx)]
  · exact .inr ⟨by simp [returns, hw, hin], hsame⟩

/-- **One step** adds the token of a call of `complete(x)`, takes the token of a wait that returns,
or does neither. -/
theorem done_step (x : ℕ) (hstep : step s e = some s') :
    e = .complete x ∧ returns x s e s' = 0 ∧
        (s'.completion x).done = (s.completion x).done + 1 ∨
      e ≠ .complete x ∧ (returns x s e s' = 1 ∧
          (s'.completion x).done.toNat + 1 = (s.completion x).done.toNat ∨
        returns x s e s' = 0 ∧ (s'.completion x).done = (s.completion x).done) := by
  cases does_of_step hstep with
  | @complete y =>
    by_cases hyx : y = x
    · subst hyx
      refine .inl ⟨rfl, rfl, ?_⟩
      rw [completion_completed, if_pos rfl]
    · refine .inr ⟨fun heq => hyx (Event.complete.inj heq), .inr ⟨rfl, ?_⟩⟩
      rw [completion_completed, if_neg (Ne.symm hyx)]
  | takes ht hdone =>
    exact .inr ⟨nofun, done_wait x (by rw [waitsIn, ht]; rfl) (.inl ⟨hdone, rfl⟩)⟩
  | enters ht =>
    exact .inr ⟨nofun, done_wait x (by rw [waitsIn, ht]; rfl)
      (.inr ⟨if_pos rfl, done_enter s _ _ x _⟩)⟩
  | resumes hr hdone => exact .inr ⟨nofun, done_wait x hr (.inl ⟨hdone, rfl⟩)⟩
  | blocks hr => exact .inr ⟨nofun, done_wait x hr (.inr ⟨if_pos rfl, rfl⟩)⟩
  | clockTick hr => exact .inr ⟨nofun, .inr ⟨rfl, by rw [sweep_completion hr]⟩⟩
  | switch | processSleep | processMsleep | prepareToWait =>
    exact .inr ⟨nofun, .inr ⟨rfl, rfl⟩⟩
  | finishWait | wakeUpInterruptible =>
    refine .inr ⟨nofun, .inr ⟨rfl, ?_⟩⟩
    unfold wakePriv
    split <;> rfl

/-- **Tokens are conserved.**  In every run with fewer than `2 ^ 32` calls of `complete(x)`, the
waits that have returned and `x->done` add up to these calls; and a wait that returns next finds a
token and takes it. -/
theorem tokens_conserved (x : ℕ) (s : State) (c r : ℕ) (h : Counts x s c r) (hc : c < 2 ^ 32) :
    r + (s.completion x).done.toNat = c ∧ ∀ e s', step s e = some s' → returns x s e s' ≠ 0 →
      (s'.completion x).done.toNat + 1 = (s.completion x).done.toNat ∧ r + 1 ≤ c := by
  have hsum : r + (s.completion x).done.toNat = c := by
    induction h with
    | init hdone =>
      rw [hdone]
      rfl
    | step _ hstep ih =>
      have hprev := ih (by omega)
      obtain ⟨rfl, hret, hdone⟩ | ⟨hne, ⟨hret, hdone⟩ | ⟨hret, hdone⟩⟩ := done_step x hstep
      · rw [if_pos rfl] at hc ⊢
        rw [hret, hdone, toNat_add_one]
        · omega
        · intro hones
          rw [hones, BitVec.toNat_allOnes] at hprev
          omega
      · rw [if_neg hne, hret]
        omega
      · rw [if_neg hne, hret, hdone]
        omega
  refine ⟨hsum, fun e s' hstep hreturns => ?_⟩
  obtain ⟨-, hret, -⟩ | ⟨-, ⟨-, hdone⟩ | ⟨hret, -⟩⟩ := done_step x hstep
  · exact absurd hret hreturns
  · exact ⟨hdone, by omega⟩
  · exact absurd hret hreturns

/-- Task 1 waits, one `complete` wakes it, and it returns: one call, one wait, no token left. -/
theorem tokens_conserved_one :
    ∃ s, Counts 0 s 1 1 ∧ 1 + (s.completion 0).done.toNat = 1 := by
  have h₁ := (Counts.init (x := 0) (s := osInit) rfl).step (e := .switch 1) rfl
  have h₂ := (h₁.step (e := .waitForCompletion 0 0x30001000) rfl).step (e := .complete 0) rfl
  have h₃ := (h₂.step (e := .switch 1) rfl).step (e := .recheckCompletion) rfl
  exact ⟨_, h₃, (tokens_conserved 0 _ 1 1 h₃ (by decide)).1⟩

end Proc

end Yap
