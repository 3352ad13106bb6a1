/-
# Messages between processes (`ipc/message.c`)

A process that sends to a process which does not wait for it is hooked into the queue of the
receiver (`q_sending`, threaded through `next_sending`) and blocks; a receiver takes the first
sender of its queue, or the one it asks for, or blocks.  Whoever comes second copies the message,
so a delivery happens in `msg_send` or in `msg_receive`.

The model follows the two functions pointer by pointer; the loops over a queue have fuel.  Each
call of `phys_copy` and each `msg_send` is written down (`Obs`).

`pid2proc` and `proc2pid` are not written yet in the source; they are a parameter with the
property they should have (`Pids`).
-/
import Yap.Threaded

namespace Yap

namespace Ipc

open List BitVec Function

/-! ## The processes -/

/-- `SENDING`. -/
def sending : BitVec 32 := 0x02

/-- `RECEIVING`. -/
def receiving : BitVec 32 := 0x04

/-- `ANY`. -/
def any : ℤ := 10

/-- `NO_TASK`. -/
def noTask : ℤ := 10

/-- `INTERRUPT`. -/
def interrupt : ℤ := -10

/-- `HARD_INT`. -/
def hardInt : ℤ := 1

/-- `SEND`, a function of `sys_sendrec`. -/
def send : ℤ := 1

/-- `RECEIVE`, a function of `sys_sendrec`. -/
def receive : ℤ := 2

/-- `MESSAGE`; the union `u` has 40 bytes. -/
structure Message where
  source : ℤ
  type : ℤ
  u : BitVec 320
  deriving DecidableEq, Repr

/-- `struct task_struct`, as far as messages are concerned.  A pointer is 0 when it is null. -/
structure Task where
  flags : BitVec 32
  pMsg : ℕ
  pRecvfrom : ℤ
  pSendto : ℤ
  qSending : ℕ
  nextSending : ℕ
  hasIntMsg : Bool
  deriving DecidableEq, Repr

/-- The processes and the messages in memory. -/
structure State where
  task : ℕ → Task
  mem : ℕ → Message

/-- Write a process. -/
def State.setTask (s : State) (p : ℕ) (t : Task) : State :=
  { s with task := update s.task p t }

/-- The process is blocked in `msg_send`. -/
def State.Sending (s : State) (p : ℕ) : Prop := (s.task p).flags &&& sending ≠ 0

/-- The process is blocked in `msg_receive`. -/
def State.Receiving (s : State) (p : ℕ) : Prop := (s.task p).flags &&& receiving ≠ 0

instance (s : State) (p : ℕ) : Decidable (s.Sending p) := inferInstanceAs (Decidable (_ ≠ _))

instance (s : State) (p : ℕ) : Decidable (s.Receiving p) := inferInstanceAs (Decidable (_ ≠ _))

/-- The table of processes: `pid2proc` and `proc2pid` are inverse to each other on the live
process ids. -/
structure Pids where
  live : ℤ → Prop
  pid2proc : ℤ → ℕ
  proc2pid : ℕ → ℤ
  pid2proc_ne : ∀ pid, live pid → pid2proc pid ≠ 0
  proc2pid_pid2proc : ∀ pid, live pid → proc2pid (pid2proc pid) = pid

/-- There is a live process at `p`. -/
def Pids.IsTask (T : Pids) (p : ℕ) : Prop := ∃ pid, T.live pid ∧ T.pid2proc pid = p

/-! ## The calls -/

/-- What can be seen of a call: a message is sent, or copied from its sender to its receiver. -/
inductive Obs : Type where
  | sent (src dst : ℕ) (msg : Message)
  | delivered (src dst : ℕ) (msg : Message)
  deriving DecidableEq, Repr

/-- `phys_copy` of one message. -/
def State.physCopy (s : State) (dst src : ℕ) : Option State :=
  if dst = 0 ∨ src = 0 then none
  else some { s with mem := update s.mem dst (s.mem src) }

/-- The loop of `msg_send` to the end of the queue. -/
def lastSending (s : State) : ℕ → ℕ → Option ℕ
  | 0, _ => none
  | fuel + 1, p =>
    if (s.task p).nextSending ≠ 0 then lastSending s fuel (s.task p).nextSending else some p

/-- The end of `msg_send` when the receiver is not waiting. -/
def enqueue (fuel : ℕ) (s : State) (sender pDest : ℕ) (dest : ℤ) (m : ℕ) : Option State :=
  let t := s.task sender
  let s := s.setTask sender { t with flags := t.flags ||| sending, pSendto := dest, pMsg := m }
  let linked :=
    if (s.task pDest).qSending ≠ 0 then
      (lastSending s fuel (s.task pDest).qSending).map fun p =>
        s.setTask p { s.task p with nextSending := sender }
    else some (s.setTask pDest { s.task pDest with qSending := sender })
  linked.map fun s => s.setTask sender { s.task sender with nextSending := 0 }

/-- `msg_send`. -/
def msgSend (T : Pids) (fuel : ℕ) (s : State) (sender : ℕ) (dest : ℤ) (m : ℕ) :
    Option (State × List Obs) :=
  let pDest := T.pid2proc dest
  let d := s.task pDest
  if pDest = 0 then none
  else if d.flags &&& receiving ≠ 0 ∧
      (d.pRecvfrom = T.proc2pid sender ∨ d.pRecvfrom = any) then
    (s.physCopy d.pMsg m).map fun s' =>
      (s'.setTask pDest
        { d with pMsg := 0, flags := d.flags &&& ~~~receiving, pRecvfrom := noTask },
        [.delivered sender pDest (s.mem m)])
  else (enqueue fuel s sender pDest dest m).map fun s => (s, [])

/-- The loop of `msg_receive` over the queue: the process with the id `src`, or 0, and the one
before it. -/
def findSending (T : Pids) (s : State) (src : ℤ) : ℕ → ℕ → ℕ → Option (ℕ × ℕ)
  | 0, _, _ => none
  | fuel + 1, prev, p =>
    if p = 0 then some (0, prev)
    else if T.proc2pid p = src then some (p, prev)
    else findSending T s src fuel p (s.task p).nextSending

/-- `msg_receive` takes `pFrom` out of the queue. -/
def dequeue (s : State) (me pFrom prev : ℕ) : Option State :=
  let next := (s.task pFrom).nextSending
  let unlinked :=
    if pFrom = (s.task me).qSending then some (s.setTask me { s.task me with qSending := next })
    else if prev = 0 then none
    else some (s.setTask prev { s.task prev with nextSending := next })
  unlinked.map fun s => s.setTask pFrom { s.task pFrom with nextSending := 0 }

/-- `msg_receive` once it is determined from which process the message is copied. -/
def fetch (s : State) (me pFrom prev m : ℕ) : Option (State × List Obs) :=
  match dequeue s me pFrom prev with
  | none => none
  | some s =>
    let f := s.task pFrom
    (s.physCopy m f.pMsg).map fun s' =>
      (s'.setTask pFrom { f with pMsg := 0, pSendto := noTask, flags := f.flags &&& ~~~sending },
        [.delivered pFrom me (s.mem f.pMsg)])

/-- `msg_receive` when nobody is sending. -/
def await (s : State) (me : ℕ) (recvfrom : ℤ) (m : ℕ) : State :=
  let t := s.task me
  s.setTask me { t with flags := t.flags ||| receiving, pMsg := m, pRecvfrom := recvfrom }

/-- `msg_receive`. -/
def msgReceive (T : Pids) (fuel : ℕ) (s : State) (me : ℕ) (src : ℤ) (m : ℕ) :
    Option (State × List Obs) :=
  let t := s.task me
  if t.hasIntMsg = true ∧ (src = any ∨ src = interrupt) then
    if m = 0 then none
    else
      let s := { s with mem := update s.mem m ⟨interrupt, hardInt, 0⟩ }
      some (s.setTask me { t with hasIntMsg := false }, [])
  else if src = any then
    if t.qSending ≠ 0 then fetch s me t.qSending 0 m else some (await s me any m, [])
  else
    let pFrom := T.pid2proc src
    if pFrom = 0 then none
    else if (s.task pFrom).flags &&& sending ≠ 0 ∧ (s.task pFrom).pSendto = T.proc2pid me then
      match findSending T s src fuel 0 t.qSending with
      | none => none
      | some (p, prev) => fetch s me (if p ≠ 0 then p else pFrom) prev m
    else some (await s me (T.proc2pid pFrom) m, [])

/-- `sys_sendrec`. -/
def sysSendrec (T : Pids) (fuel : ℕ) (s : State) (function srcDest : ℤ) (m p : ℕ) :
    Option (State × List Obs) :=
  if m = 0 then none
  else
    let s := { s with mem := update s.mem m { s.mem m with source := T.proc2pid p } }
    if function = send then msgSend T fuel s p srcDest m
    else if function = receive then msgReceive T fuel s p srcDest m
    else some (s, [])

/-! ## Runs -/

/-- A call, or a process that writes a message into its memory. -/
inductive Event : Type where
  | send (p : ℕ) (dest : ℤ) (m : ℕ)
  | receive (p : ℕ) (src : ℤ) (m : ℕ)
  | write (p m : ℕ) (msg : Message)
  deriving Repr

/-- One event, with what can be seen of it. -/
def step (T : Pids) (fuel : ℕ) (s : State) : Event → Option (State × List Obs)
  | .send p dest m => (msgSend T fuel s p dest m).map fun r =>
    (r.1, .sent p (T.pid2proc dest) (s.mem m) :: r.2)
  | .receive p src m => msgReceive T fuel s p src m
  | .write _ m msg => some ({ s with mem := update s.mem m msg }, [])

/-- The process at `p` is live and can run. -/
structure Runs (T : Pids) (s : State) (p : ℕ) : Prop where
  task : T.IsTask p
  not_sending : ¬ s.Sending p
  not_receiving : ¬ s.Receiving p

/-- A process that runs calls with a buffer, and names a live process other than itself. -/
def Event.Valid (T : Pids) (s : State) : Event → Prop
  | .send p dest m => Runs T s p ∧ T.live dest ∧ dest ≠ T.proc2pid p ∧ m ≠ 0
  | .receive p src m => Runs T s p ∧ (src = any ∨ T.live src ∧ src ≠ T.proc2pid p) ∧ m ≠ 0
  | .write p _ _ => Runs T s p

/-- The message in memory that an event overwrites: that of a receiver which is handed a message,
the one a message is received into, or the one that is written. -/
def Event.target (T : Pids) (s : State) : Event → Option ℕ
  | .send p dest _ =>
    let d := s.task (T.pid2proc dest)
    if d.flags &&& receiving ≠ 0 ∧ (d.pRecvfrom = T.proc2pid p ∨ d.pRecvfrom = any) then some d.pMsg
    else none
  | .receive me src m =>
    let f := s.task (T.pid2proc src)
    if if src = any then (s.task me).qSending ≠ 0
      else f.flags &&& sending ≠ 0 ∧ f.pSendto = T.proc2pid me then some m
    else none
  | .write _ m _ => some m

/-- The event does not overwrite the message of a process that is blocked in `msg_send`. -/
def Event.Spares (T : Pids) (s : State) (e : Event) : Prop :=
  ∀ q, T.IsTask q → s.Sending q → e.target T s ≠ some (s.task q).pMsg

/-- Events that satisfy `P` lead from `s₀` to `s`, and `h` is what can be seen of them. -/
inductive Run (T : Pids) (P : State → Event → Prop) (s₀ : State) : State → List Obs → Prop where
  | start : Run T P s₀ s₀ []
  | step {s s' : State} {h obs : List Obs} {e : Event} (fuel : ℕ) :
      Run T P s₀ s h → e.Valid T s → P s e → Ipc.step T fuel s e = some (s', obs) →
      Run T P s₀ s' (h ++ obs)

/-- No process waits and no interrupt message is pending. -/
structure Idle (T : Pids) (s : State) : Prop where
  flags : ∀ p, T.IsTask p → ¬ s.Sending p ∧ ¬ s.Receiving p
  queue : ∀ p, T.IsTask p → (s.task p).qSending = 0
  quiet : ∀ p, T.IsTask p → (s.task p).hasIntMsg = false

/-! ## Processes and flags -/

section

variable {T : Pids} {s : State} {p q : ℕ}

theorem Pids.IsTask.pid2proc (h : T.IsTask p) : T.pid2proc (T.proc2pid p) = p := by
  obtain ⟨pid, hlive, rfl⟩ := h
  rw [T.proc2pid_pid2proc pid hlive]

theorem Pids.IsTask.ne_zero (h : T.IsTask p) : p ≠ 0 := by
  obtain ⟨pid, hlive, rfl⟩ := h
  exact T.pid2proc_ne pid hlive

theorem Pids.isTask {pid : ℤ} (h : T.live pid) : T.IsTask (T.pid2proc pid) := ⟨pid, h, rfl⟩

theorem Pids.IsTask.eq_of_proc2pid (hp : T.IsTask p) (hq : T.IsTask q)
    (h : T.proc2pid p = T.proc2pid q) : p = q := by
  rw [← hp.pid2proc, h, hq.pid2proc]

@[simp] theorem setTask_task (s : State) (p q : ℕ) (t : Task) :
    (s.setTask p t).task q = if q = p then t else s.task q := by
  exact update_apply _ _ _ _

@[simp] theorem setTask_mem (s : State) (p : ℕ) (t : Task) : (s.setTask p t).mem = s.mem := rfl

/-- Setting the flag `a` sets it, and leaves a flag `b` without common bits alone. -/
theorem set_flag (f : BitVec 32) {a b : BitVec 32} (ha : a ≠ 0) (hab : b &&& a = 0#32) :
    (f ||| a) &&& a ≠ 0 ∧ (f ||| a) &&& b = f &&& b := by
  rw [BitVec.and_comm, and_or_distrib_left, BitVec.and_comm _ b,
    and_or_distrib_left, hab, or_zero, BitVec.and_self]
  exact ⟨fun h => ha (or_eq_zero_iff.mp h).2, BitVec.and_comm _ _⟩

theorem set_sending (f : BitVec 32) :
    (f ||| sending) &&& sending ≠ 0 ∧ (f ||| sending) &&& receiving = f &&& receiving :=
  set_flag f (by decide) (by decide)

theorem set_receiving (f : BitVec 32) :
    (f ||| receiving) &&& receiving ≠ 0 ∧ (f ||| receiving) &&& sending = f &&& sending :=
  set_flag f (by decide) (by decide)

theorem clear_sending (f : BitVec 32) :
    (f &&& ~~~sending) &&& sending = 0 ∧ (f &&& ~~~sending) &&& receiving = f &&& receiving := by
  rw [BitVec.and_assoc, BitVec.and_assoc, show ~~~sending &&& sending = 0#32 by decide,
    show ~~~sending &&& receiving = receiving by decide, and_zero]
  exact ⟨rfl, rfl⟩

theorem clear_receiving (f : BitVec 32) :
    (f &&& ~~~receiving) &&& receiving = 0 ∧ (f &&& ~~~receiving) &&& sending = f &&& sending := by
  rw [BitVec.and_assoc, BitVec.and_assoc, show ~~~receiving &&& receiving = 0#32 by decide,
    show ~~~receiving &&& sending = sending by decide, and_zero]
  exact ⟨rfl, rfl⟩

end

/-! ## The loops over a queue -/

section

variable {T : Pids} {s : State} {a x y : ℕ} {l r : List ℕ}

/-- The loop of `msg_send` ends at the last process of the queue. -/
theorem lastSending_chain (fuel : ℕ) (h : Chain (fun p => (s.task p).nextSending) 0 a (l ++ [y])) :
    lastSending s fuel a = if l.length < fuel then some y else none := by
  induction fuel generalizing l a with
  | zero => rw [if_neg (Nat.not_lt_zero _), lastSending]
  | succ n ih =>
    rw [lastSending]
    cases l with
    | nil =>
      obtain ⟨rfl, _, hend⟩ := h
      have hend' : (s.task a).nextSending = 0 := hend
      rw [if_neg (not_not.mpr hend'), length_nil, if_pos (Nat.succ_pos n)]
    | cons z l =>
      obtain ⟨rfl, _, hrest⟩ := h
      have hne : (s.task a).nextSending ≠ 0 := fun hz => by simpa using hrest.nil_iff.mp hz
      rw [if_pos hne, ih hrest, length_cons]
      simp only [Nat.add_lt_add_iff_right]

/-- The loop of `msg_receive` stops at the process with the id `src`, behind its predecessor. -/
theorem findSending_chain {src : ℤ} (hx : T.proc2pid x = src) {prev : ℕ} (fuel : ℕ)
    (h : Chain (fun p => (s.task p).nextSending) 0 a (l ++ x :: r))
    (hl : ∀ z ∈ l, T.proc2pid z ≠ src) : findSending T s src fuel prev a =
      if l.length < fuel then some (x, l.getLastD prev) else none := by
  induction fuel generalizing l a prev with
  | zero => rw [if_neg (Nat.not_lt_zero _), findSending]
  | succ n ih =>
    rw [findSending]
    cases l with
    | nil =>
      obtain ⟨rfl, hne, _⟩ := h
      rw [if_neg hne, if_pos hx, length_nil, if_pos (Nat.succ_pos n), getLastD_nil]
    | cons z l =>
      obtain ⟨rfl, hne, hrest⟩ := h
      rw [if_neg hne, if_neg (hl a mem_cons_self), ih hrest fun w hw => hl w (mem_cons_of_mem _ hw),
        getLastD_cons, length_cons]
      simp only [Nat.add_lt_add_iff_right]

end

/-! ## What a call does -/

/-- No process changes its queue, its place in one, its receiver or its interrupt message. -/
def SameLinks (s s' : State) : Prop :=
  ∀ q, (s'.task q).qSending = (s.task q).qSending ∧
    (s'.task q).nextSending = (s.task q).nextSending ∧
    (s'.task q).pSendto = (s.task q).pSendto ∧ (s'.task q).hasIntMsg = (s.task q).hasIntMsg

/-- `msg_send` to a receiver `d` that waits for the sender. -/
structure Handed (s s' : State) (d m : ℕ) : Prop where
  mem : s'.mem = update s.mem (s.task d).pMsg (s.mem m)
  sending : ∀ q, s'.Sending q ↔ s.Sending q
  receiving : ∀ q, s'.Receiving q ↔ s.Receiving q ∧ q ≠ d
  other : ∀ q, q ≠ d → s'.task q = s.task q
  links : SameLinks s s'

/-- `msg_send` that queues `p` for the receiver `d` behind `last`, or alone if that is 0. -/
structure Queued (s s' : State) (p d : ℕ) (dest : ℤ) (m last : ℕ) : Prop where
  mem : s'.mem = s.mem
  sending : ∀ q, s'.Sending q ↔ s.Sending q ∨ q = p
  receiving : ∀ q, s'.Receiving q ↔ s.Receiving q
  self : (s'.task p).pSendto = dest ∧ (s'.task p).pMsg = m
  other : ∀ q, q ≠ p → (s'.task q).pSendto = (s.task q).pSendto ∧
    (s'.task q).pMsg = (s.task q).pMsg
  quiet : ∀ q, (s'.task q).hasIntMsg = (s.task q).hasIntMsg
  queue : ∀ q, (s'.task q).qSending = if q = d ∧ last = 0 then p else (s.task q).qSending
  next : ∀ q, (s'.task q).nextSending =
    if q = p then 0 else if q = last ∧ last ≠ 0 then p else (s.task q).nextSending

/-- `msg_receive` of `me` that takes `x` out of the queue, behind `prev` or at its front if that
is 0. -/
structure Fetched (s s' : State) (me x prev m : ℕ) : Prop where
  mem : s'.mem = update s.mem m (s.mem (s.task x).pMsg)
  sending : ∀ q, s'.Sending q ↔ s.Sending q ∧ q ≠ x
  receiving : ∀ q, s'.Receiving q ↔ s.Receiving q
  other : ∀ q, q ≠ x → (s'.task q).pSendto = (s.task q).pSendto ∧
    (s'.task q).pMsg = (s.task q).pMsg
  quiet : ∀ q, (s'.task q).hasIntMsg = (s.task q).hasIntMsg
  queue : ∀ q, (s'.task q).qSending =
    if q = me ∧ prev = 0 then (s.task x).nextSending else (s.task q).qSending
  next : ∀ q, (s'.task q).nextSending =
    if q = x then 0
    else if q = prev ∧ prev ≠ 0 then (s.task x).nextSending else (s.task q).nextSending

/-- `msg_receive` of `me` that blocks. -/
structure Awaits (s s' : State) (me m : ℕ) : Prop where
  mem : s'.mem = s.mem
  sending : ∀ q, s'.Sending q ↔ s.Sending q
  receiving : ∀ q, s'.Receiving q ↔ s.Receiving q ∨ q = me
  self : (s'.task me).pMsg = m
  other : ∀ q, q ≠ me → s'.task q = s.task q
  links : SameLinks s s'

variable {s' : State} {l r : List ℕ} {me p fuel : ℕ} {e : Event} {msg : Message}

section

variable {s : State} {p d m x prev : ℕ}

theorem handed_setTask (s : State) (d m : ℕ) :
    Handed s ({ s with mem := update s.mem (s.task d).pMsg (s.mem m) }.setTask d
      { s.task d with
        pMsg := 0
        flags := (s.task d).flags &&& ~~~receiving
        pRecvfrom := noTask }) d m := by
  obtain ⟨hr, hsd⟩ := clear_receiving (s.task d).flags
  refine ⟨rfl, fun q => ?_, fun q => ?_, fun q hq => ?_, fun q => ?_⟩
  · unfold State.Sending
    by_cases hq : q = d
    · rw [setTask_task, if_pos hq, hsd, hq]
    · rw [setTask_task, if_neg hq]
  · unfold State.Receiving
    by_cases hq : q = d
    · rw [setTask_task, if_pos hq, hr]
      exact ⟨fun h => absurd rfl h, fun h => absurd hq h.2⟩
    · rw [setTask_task, if_neg hq]
      exact ⟨fun h => ⟨h, hq⟩, fun h => h.1⟩
  · rw [setTask_task, if_neg hq]
  · rw [setTask_task]
    split_ifs with hq
    · rw [hq]
      exact ⟨rfl, rfl, rfl, rfl⟩
    · exact ⟨rfl, rfl, rfl, rfl⟩

theorem awaits_await (s : State) (me : ℕ) (recvfrom : ℤ) (m : ℕ) :
    Awaits s (await s me recvfrom m) me m := by
  obtain ⟨hr, hs⟩ := set_receiving (s.task me).flags
  unfold await
  refine ⟨rfl, fun q => ?_, fun q => ?_, ?_, fun q hq => ?_, fun q => ?_⟩
  · unfold State.Sending
    by_cases hq : q = me
    · rw [setTask_task, if_pos hq, hs, hq]
    · rw [setTask_task, if_neg hq]
  · unfold State.Receiving
    by_cases hq : q = me
    · rw [setTask_task, if_pos hq]
      exact ⟨fun _ => Or.inr hq, fun _ => hr⟩
    · rw [setTask_task, if_neg hq]
      exact ⟨Or.inl, fun h => h.resolve_right hq⟩
  · rw [setTask_task, if_pos rfl]
  · rw [setTask_task, if_neg hq]
  · rw [setTask_task]
    split_ifs with hq
    · rw [hq]
      exact ⟨rfl, rfl, rfl, rfl⟩
    · exact ⟨rfl, rfl, rfl, rfl⟩

/-- The shape of the state after `enqueue`. -/
theorem queued_of_task {dest : ℤ} {last : ℕ} (hmem : s'.mem = s.mem) (hdp : d ≠ p)
    (hp : s'.task p = { s.task p with
      flags := (s.task p).flags ||| sending
      pSendto := dest
      pMsg := m
      nextSending := 0 }) (hq : ∀ q, q ≠ p → s'.task q = { s.task q with
      qSending := if q = d ∧ last = 0 then p else (s.task q).qSending
      nextSending := if q = last ∧ last ≠ 0 then p else (s.task q).nextSending }) :
    Queued s s' p d dest m last := by
  obtain ⟨hset, hkeep⟩ := set_sending (s.task p).flags
  refine ⟨hmem, fun q => ?_, fun q => ?_, by rw [hp]; exact ⟨rfl, rfl⟩, fun q hqp => ?_,
    fun q => ?_, fun q => ?_, fun q => ?_⟩
  · unfold State.Sending
    by_cases hqp : q = p
    · rw [hqp, hp]
      exact ⟨fun _ => Or.inr rfl, fun _ => hset⟩
    · rw [hq q hqp]
      exact ⟨Or.inl, fun h => h.resolve_right hqp⟩
  · unfold State.Receiving
    by_cases hqp : q = p
    · rw [hqp, hp, ← hkeep]
    · rw [hq q hqp]
  · rw [hq q hqp]
    exact ⟨rfl, rfl⟩
  · by_cases hqp : q = p
    · rw [hqp, hp]
    · rw [hq q hqp]
  · by_cases hqp : q = p
    · rw [hqp, hp, if_neg fun h => hdp h.1.symm]
    · rw [hq q hqp]
  · by_cases hqp : q = p
    · rw [if_pos hqp, hqp, hp]
    · rw [if_neg hqp, hq q hqp]

/-- `enqueue` behind the queue `l` of the receiver. -/
theorem enqueue_spec (dest : ℤ) (m : ℕ)
    (hchain : Chain (fun q => (s.task q).nextSending) 0 (s.task d).qSending l) (hp : p ∉ l)
    (hdp : d ≠ p) :
    ∃ s', (∀ fuel, enqueue fuel s p d dest m = if l.length ≤ fuel then some s' else none) ∧
      Queued s s' p d dest m (l.getLastD 0) := by
  set s1 := s.setTask p
    { s.task p with flags := (s.task p).flags ||| sending, pSendto := dest, pMsg := m } with hs1
  have hpp : s1.task p =
      { s.task p with flags := (s.task p).flags ||| sending, pSendto := dest, pMsg := m } := by
    rw [hs1, setTask_task, if_pos rfl]
  have hne : ∀ q, q ≠ p → s1.task q = s.task q := fun q hq => by
    rw [hs1, setTask_task, if_neg hq]
  have hnext : ∀ q, (s1.task q).nextSending = (s.task q).nextSending := by
    intro q
    by_cases hq : q = p
    · rw [hq, hpp]
    · rw [hne q hq]
  rcases eq_nil_or_concat l with rfl | ⟨l', y, rfl⟩
  · have hempty : (s1.task d).qSending = 0 := by
      rw [hne d hdp]
      exact hchain
    set s2 := s1.setTask d { s1.task d with qSending := p } with hs2
    refine ⟨s2.setTask p { s2.task p with nextSending := 0 }, fun fuel => ?_, ?_⟩
    · unfold enqueue
      dsimp only
      rw [if_neg (not_not.mpr hempty), length_nil, if_pos (Nat.zero_le fuel)]
      rfl
    · refine queued_of_task rfl hdp ?_ fun q hq => ?_
      · rw [setTask_task, if_pos rfl, hs2, setTask_task, if_neg hdp.symm, hpp]
      · rw [setTask_task, if_neg hq, hs2, setTask_task, getLastD_nil]
        by_cases hqd : q = d
        · rw [if_pos hqd, if_pos ⟨hqd, rfl⟩, if_neg fun h => h.2 rfl, hqd, hne d hdp]
        · rw [if_neg hqd, if_neg fun h => hqd h.1, if_neg fun h => h.2 rfl, hne q hq]
  · rw [concat_eq_append] at hchain hp ⊢
    have hyp : y ≠ p := by
      rintro rfl
      exact hp (mem_append_right _ (mem_singleton_self _))
    have hlast : (l' ++ [y]).getLastD 0 = y := by simp
    have hy0 : y ≠ 0 := by
      have := hchain.drop_until
      exact this.2.1
    have hqne : (s1.task d).qSending ≠ 0 := by
      rw [hne d hdp]
      intro hz
      have := hchain.nil_iff.mp hz
      simp at this
    have hchain1 : Chain (fun q => (s1.task q).nextSending) 0 (s1.task d).qSending (l' ++ [y]) := by
      rw [hne d hdp]
      exact hchain.congr fun q _ => hnext q
    rw [hlast]
    set s2 := s1.setTask y { s1.task y with nextSending := p } with hs2
    refine ⟨s2.setTask p { s2.task p with nextSending := 0 }, fun fuel => ?_, ?_⟩
    · unfold enqueue
      dsimp only
      rw [if_pos hqne, lastSending_chain fuel hchain1, length_append, length_singleton]
      simp only [Nat.succ_le_iff, apply_ite (Option.map _), Option.map_some, Option.map_none]
      rfl
    · refine queued_of_task rfl hdp ?_ fun q hq => ?_
      · rw [setTask_task, if_pos rfl, hs2, setTask_task, if_neg hyp.symm, hpp]
      · have hnone : ¬ (q = d ∧ y = 0) := fun h => hy0 h.2
        rw [setTask_task, if_neg hq, hs2, setTask_task, if_neg hnone]
        by_cases hqy : q = y
        · rw [if_pos hqy, if_pos ⟨hqy, hy0⟩, hqy, hne y hyp]
        · rw [if_neg hqy, if_neg fun h => hqy h.1, hne q hq]

/-- The shape of the state after `fetch`. -/
theorem fetched_of_task (hmem : s'.mem = update s.mem m (s.mem (s.task x).pMsg))
    (hmx : me ≠ x) (hx : s'.task x = { s.task x with
      flags := (s.task x).flags &&& ~~~sending
      pSendto := noTask
      pMsg := 0
      nextSending := 0 }) (hq : ∀ q, q ≠ x → s'.task q = { s.task q with
      qSending := if q = me ∧ prev = 0 then (s.task x).nextSending else (s.task q).qSending
      nextSending :=
        if q = prev ∧ prev ≠ 0 then (s.task x).nextSending else (s.task q).nextSending }) :
    Fetched s s' me x prev m := by
  obtain ⟨hclear, hkeep⟩ := clear_sending (s.task x).flags
  refine ⟨hmem, fun q => ?_, fun q => ?_, fun q hqx => ?_, fun q => ?_, fun q => ?_, fun q => ?_⟩
  · unfold State.Sending
    by_cases hqx : q = x
    · rw [hqx, hx]
      exact ⟨fun h => absurd hclear h, fun h => absurd rfl h.2⟩
    · rw [hq q hqx]
      exact ⟨fun h => ⟨h, hqx⟩, fun h => h.1⟩
  · unfold State.Receiving
    by_cases hqx : q = x
    · rw [hqx, hx, ← hkeep]
    · rw [hq q hqx]
  · rw [hq q hqx]
    exact ⟨rfl, rfl⟩
  · by_cases hqx : q = x
    · rw [hqx, hx]
    · rw [hq q hqx]
  · by_cases hqx : q = x
    · rw [hqx, hx, if_neg fun h => hmx h.1.symm]
    · rw [hq q hqx]
  · by_cases hqx : q = x
    · rw [if_pos hqx, hqx, hx]
    · rw [if_neg hqx, hq q hqx]

section

variable (hchain : Chain (fun q => (s.task q).nextSending) 0 (s.task me).qSending (l ++ x :: r))

include hchain

/-- `dequeue` of the process `x` of the queue `l ++ x :: r`. -/
theorem dequeue_spec (hmx : me ≠ x) :
    ∃ s', dequeue s me x (l.getLastD 0) = some s' ∧ s'.mem = s.mem ∧
      s'.task x = { s.task x with nextSending := 0 } ∧
      ∀ q, q ≠ x → s'.task q = { s.task q with
        qSending := if q = me ∧ l.getLastD 0 = 0 then (s.task x).nextSending
          else (s.task q).qSending
        nextSending := if q = l.getLastD 0 ∧ l.getLastD 0 ≠ 0 then (s.task x).nextSending
          else (s.task q).nextSending } := by
  rcases eq_nil_or_concat l with rfl | ⟨l', y, rfl⟩
  · -- the first of the queue
    have hhead : x = (s.task me).qSending := hchain.1.symm
    set s1 := s.setTask me { s.task me with qSending := (s.task x).nextSending } with hs1
    have hx1 : s1.task x = s.task x := by rw [hs1, setTask_task, if_neg hmx.symm]
    refine ⟨s1.setTask x { s1.task x with nextSending := 0 }, ?_, rfl, ?_, fun q hq => ?_⟩
    · unfold dequeue
      dsimp only
      rw [if_pos hhead]
      rfl
    · rw [setTask_task, if_pos rfl, hx1]
    · rw [setTask_task, if_neg hq, hs1, setTask_task, getLastD_nil]
      by_cases hqm : q = me
      · rw [if_pos hqm, if_pos ⟨hqm, rfl⟩, if_neg fun h => h.2 rfl, hqm]
      · rw [if_neg hqm, if_neg fun h => hqm h.1, if_neg fun h => h.2 rfl]
  · -- behind the process at `y`
    rw [concat_eq_append] at hchain ⊢
    have hnd := hchain.nodup
    have hlast : (l' ++ [y]).getLastD 0 = y := by simp
    have hy0 : y ≠ 0 := by
      rw [List.append_assoc] at hchain
      exact hchain.drop_until.2.1
    have hyx : y ≠ x := by
      rintro rfl
      rw [nodup_append] at hnd
      exact hnd.2.2 y (by simp) y mem_cons_self rfl
    have hhead : ¬ x = (s.task me).qSending := by
      intro hx
      rw [nodup_append] at hnd
      cases l' with
      | nil => exact hyx (hchain.1.symm.trans hx.symm)
      | cons z l'' =>
        exact hnd.2.2 z (by simp) x mem_cons_self (hchain.1.symm.trans hx.symm)
    rw [hlast]
    set s1 := s.setTask y { s.task y with nextSending := (s.task x).nextSending } with hs1
    have hx1 : s1.task x = s.task x := by rw [hs1, setTask_task, if_neg hyx.symm]
    refine ⟨s1.setTask x { s1.task x with nextSending := 0 }, ?_, rfl, ?_, fun q hq => ?_⟩
    · unfold dequeue
      dsimp only
      rw [if_neg hhead, if_neg hy0]
      rfl
    · rw [setTask_task, if_pos rfl, hx1]
    · have hnone : ¬ (q = me ∧ y = 0) := fun h => hy0 h.2
      rw [setTask_task, if_neg hq, hs1, setTask_task, if_neg hnone]
      by_cases hqy : q = y
      · rw [if_pos hqy, if_pos ⟨hqy, hy0⟩, hqy]
      · rw [if_neg hqy, if_neg fun h => hqy h.1]

/-- `fetch` of the process `x` of the queue `l ++ x :: r`. -/
theorem fetch_spec (hm : m ≠ 0) (hbuf : (s.task x).pMsg ≠ 0) (hmx : me ≠ x) :
    ∃ s', fetch s me x (l.getLastD 0) m =
        some (s', [.delivered x me (s.mem (s.task x).pMsg)]) ∧
      Fetched s s' me x (l.getLastD 0) m := by
  obtain ⟨s1, heq, hmem, hx, hq⟩ := dequeue_spec hchain hmx
  unfold fetch
  rw [heq]
  dsimp only
  rw [hx, State.physCopy, if_neg (by simp [hm, hbuf]), hmem]
  refine ⟨_, rfl, fetched_of_task (by rw [← hmem]; rfl) hmx ?_ fun q hqx => ?_⟩
  · rw [setTask_task, if_pos rfl]
  · rw [setTask_task, if_neg hqx]
    exact hq q hqx

end

end

end Ipc

end Yap
