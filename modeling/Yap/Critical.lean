/-
# Critical sections (`kernel/interrupt.c` and its users)

`enter_critical` and `exit_critical` count how deeply critical sections are nested; interrupts
stay off until the count is back at zero.  A function that returns from inside its critical
section leaves the count raised for good.

The functions looked at are those of `driver/timer.c`, `set_task_state`, `alloc_skbuff`, and
the receiving side of TCP and UDP.  What they do with a TCP socket is the model of `Yap.Tcp`.
A call that waits for data returns in a state in which the data is there.

The counter has 32 bits.  From its largest value `enter_critical` takes it to 0, where
`exit_critical` leaves it; the calls are looked at before it comes near.
-/
import Yap.TcpStream

namespace Yap

namespace Critical

open Tcp
open Option (some.inj)
open Function (update)

/-- `MAX_SKB_NUM`. -/
def maxSkbNum : ℕ := 5000

/-- An entry of the pool `SKB`: `use_flag`, and `data_buf` or `NULL`. -/
structure SkbSlot where
  useFlag : BitVec 32
  dataBuf : Option ℕ
  deriving DecidableEq, Repr

/-- A received datagram: `data_len`, and the bytes from `OFFSET_UDPDATA` on. -/
structure Datagram where
  dataLen : BitVec 16
  body : List Byte
  deriving DecidableEq, Repr

/-- The part of a UDP socket that `udp_recvfrom` uses. -/
structure UdpSock where
  flags : BitVec 32
  recvData : List Datagram
  deriving DecidableEq, Repr

/-- The kernel: the processor, with the counter of critical sections, and what the functions below
work on.
Timers, tasks and sockets are named by numbers. -/
structure Kernel where
  cpu : IrqMask.Cpu
  /-- the timers on `timer_list_head`, first to last -/
  timerList : List ℕ
  expires : ℕ → BitVec 32
  taskState : ℕ → BitVec 32
  skb : ℕ → SkbSlot
  tcp : ℕ → Sock
  udp : ℕ → UdpSock

namespace Kernel

/-- `enter_critical()`. -/
def enterCritical (k : Kernel) : Kernel := { k with cpu := k.cpu.enterCritical }

/-- `exit_critical()`. -/
def exitCritical (k : Kernel) : Kernel := { k with cpu := k.cpu.exitCritical }

/-- The TCP socket `isk`, on this processor. -/
def tcpSock (k : Kernel) (isk : ℕ) : Sock := { k.tcp isk with cpu := k.cpu }

/-- What a function has made of the TCP socket `isk` and of the processor. -/
def putTcpSock (k : Kernel) (isk : ℕ) (s : Sock) : Kernel :=
  { k with tcp := update k.tcp isk s, cpu := s.cpu }

end Kernel

open Kernel

/-! ## Timers -/

/-- `add_timer(timer)`, where `none` is `NULL`. -/
def addTimer (k : Kernel) : Option ℕ → ℤ × Kernel
  | none => (-EINVAL, k)
  | some timer =>
    let k := k.enterCritical
    -- the timer is there already: returns without `exit_critical`
    if timer ∈ k.timerList then (0, k)
    else (0, { k with timerList := k.timerList ++ [timer] }.exitCritical)

/-- `del_timer(timer)`.  A timer that is on no list is linked to itself. -/
def delTimer (k : Kernel) : Option ℕ → Kernel
  | none => k
  | some timer =>
    let k := k.enterCritical
    { k with timerList := k.timerList.erase timer }.exitCritical

/-- `mod_timer(timer, expires)`. -/
def modTimer (k : Kernel) (timer : Option ℕ) (expires : BitVec 32) : ℤ × Kernel :=
  match timer with
  | none => (-EINVAL, k)
  | some timer =>
    let k := k.enterCritical
    if timer ∈ k.timerList then
      (0, { k with expires := update k.expires timer expires }.exitCritical)
    else (-1, k.exitCritical)

/-- The list and the socket agree on whether its timer `a` is set. -/
def TimerOf (k : Kernel) (a : ℕ) (s : Sock) : Prop := a ∈ k.timerList ↔ s.timer.isSome = true

/-- `mod_timer` in the model of a socket is this one. -/
theorem TimerOf.modTimer {k : Kernel} {a : ℕ} {s : Sock} (h : TimerOf k a s)
    (expires : BitVec 32) : (modTimer k (some a) expires).1 = (s.modTimer expires).1 ∧
      TimerOf (modTimer k (some a) expires).2 a (s.modTimer expires).2 := by
  have hmem : a ∈ k.enterCritical.timerList ↔ s.timer.isSome = true := h
  unfold Critical.modTimer Sock.modTimer
  cases ht : s.timer with
  | none =>
    rw [ht] at hmem
    simp [hmem, TimerOf, ht, exitCritical]
  | some x =>
    rw [ht] at hmem
    simp [hmem, TimerOf, exitCritical]

theorem TimerOf.delTimer {k : Kernel} {a : ℕ} {s : Sock} (hnodup : k.timerList.Nodup) :
    TimerOf (delTimer k (some a)) a s.delTimer :=
  iff_of_false hnodup.not_mem_erase (by simp [Sock.delTimer])

/-! ## Tasks and buffers -/

/-- `set_task_state(task, state)`. -/
def setTaskState (k : Kernel) (task : ℕ) (state : BitVec 32) : Kernel :=
  let k := k.enterCritical
  { k with taskState := update k.taskState task state }.exitCritical

/-- The loop of `alloc_skbuff`: the first entry that is not in use. -/
def unusedSkb (k : Kernel) : Option ℕ :=
  (List.range maxSkbNum).find? (fun i => (k.skb i).useFlag = 0)

/-- `alloc_skbuff(len)`, where `kmalloc(len, GFP_KERNEL)` returns `dataBuf`. -/
def allocSkbuff (k : Kernel) (dataBuf : Option ℕ) : Option ℕ × Kernel :=
  match unusedSkb k with
  | none => (none, k)
  | some i =>
    let k := k.enterCritical
    match dataBuf with
    | none =>
      let slot := { k.skb i with dataBuf := none }
      (none, { k with skb := update k.skb i slot }.exitCritical)
    | some buf =>
      let slot : SkbSlot := { useFlag := 1, dataBuf := some buf }
      (some i, { k with skb := update k.skb i slot }.exitCritical)

/-! ## TCP and UDP -/

/-- `tcp_ack_handler(isk, tcph)`, with the header of `skb`. -/
def tcpAckHandler (k : Kernel) (isk : ℕ) (skb : SkBuff) : Kernel :=
  k.putTcpSock isk (Tcp.tcpAckHandler (k.tcpSock isk) skb)

/-- `tcp_seg_sort(isk, skb)`. -/
def tcpSegSort (k : Kernel) : Option ℕ → Option SkBuff → ℤ × Kernel
  | some isk, some skb =>
    let r := Tcp.tcpSegSort (k.tcpSock isk) skb
    (r.1, k.putTcpSock isk r.2)
  | _, _ => (-ENOTSOCK, k)

/-- `tcp_recv(isk, ubuf, len, nonblock, flags)`; `none` when it goes on waiting. -/
def tcpRecv (k : Kernel) (isk : Option ℕ) (ubuf : Bool) (len : ℕ) (nonblock : Bool) :
    Option (ℤ × List Byte × Kernel) :=
  match isk with
  | none => some (-EBADF, [], k)
  | some isk =>
    if ubuf = false then some (-14, [], k)
    else
      match Tcp.tcpRecv (k.tcpSock isk) len nonblock with
      | .wait => none
      | .err e => some (e, [], k)
      | .data bytes s => some (bytes.length, bytes, k.putTcpSock isk s)

/-- The copy loop of `udp_recvfrom`: the bytes copied, and `len_remain` at the end. -/
def recvfromLoop : List Datagram → ℤ → List Byte × ℤ
  | [], lenRemain => ([], lenRemain)
  | d :: rest, lenRemain =>
    if lenRemain ≥ d.dataLen.toNat then
      let r := recvfromLoop rest (lenRemain - d.dataLen.toNat)
      (d.body.take d.dataLen.toNat ++ r.1, r.2)
    else if lenRemain > 0 then (d.body.take lenRemain.toNat, 0)
    else recvfromLoop rest lenRemain

/-- `udp_recvfrom(isk, ubuf, len, noblock, flags, sin, addrlen)`; `none` when it goes on
waiting. -/
def udpRecvfrom (k : Kernel) (isk : Option ℕ) (ubuf : Bool) (len : ℤ) (noblock sin : Bool) :
    Option (ℤ × List Byte × Kernel) :=
  match isk with
  | none => some (-EBADF, [], k)
  | some isk =>
    let s := k.udp isk
    if ubuf = false then some (-14, [], k)
    else if sin = false then some (-EINVAL, [], k)
    -- `PACKET_RECVED`
    else if noblock && !s.flags.getLsbD 0 then some (-EAGAIN, [], k)
    else if s.recvData = [] then none
    else
      let k := k.enterCritical
      let r := recvfromLoop s.recvData len
      let k := { k with udp := update k.udp isk { s with recvData := [] } }
      some (len - r.2, r.1, k.exitCritical)

/-! ## The calls -/

/-- A call of one of the functions. -/
inductive Call : Type where
  | addTimer (timer : Option ℕ) : Call
  | delTimer (timer : Option ℕ) : Call
  | modTimer (timer : Option ℕ) (expires : BitVec 32) : Call
  | setTaskState (task : ℕ) (state : BitVec 32) : Call
  | allocSkbuff (dataBuf : Option ℕ) : Call
  | tcpAckHandler (isk : ℕ) (skb : SkBuff) : Call
  | tcpSegSort (isk : Option ℕ) (skb : Option SkBuff) : Call
  | tcpRecv (isk : Option ℕ) (ubuf : Bool) (len : ℕ) (nonblock : Bool) : Call
  | udpRecvfrom (isk : Option ℕ) (ubuf : Bool) (len : ℤ) (noblock sin : Bool) : Call

/-- The kernel when the call has returned; `none` when it goes on waiting. -/
def exec (k : Kernel) : Call → Option Kernel
  | .addTimer timer => some (addTimer k timer).2
  | .delTimer timer => some (delTimer k timer)
  | .modTimer timer expires => some (modTimer k timer expires).2
  | .setTaskState task state => some (setTaskState k task state)
  | .allocSkbuff dataBuf => some (allocSkbuff k dataBuf).2
  | .tcpAckHandler isk skb => some (tcpAckHandler k isk skb)
  | .tcpSegSort isk skb => some (tcpSegSort k isk skb).2
  | .tcpRecv isk ubuf len nonblock => (tcpRecv k isk ubuf len nonblock).map (fun r => r.2.2)
  | .udpRecvfrom isk ubuf len noblock sin =>
    (udpRecvfrom k isk ubuf len noblock sin).map (fun r => r.2.2)

/-- The calls that leave their critical section: all but `add_timer` of a timer that is on the
list, and `tcp_seg_sort` of a segment that is queued. -/
def Balanced (k : Kernel) : Call → Prop
  | .addTimer (some timer) => timer ∉ k.timerList
  | .tcpSegSort (some isk) (some skb) =>
    (k.tcp isk).ackSeq ≤ skb.seq → ¬ IsQueued (k.tcp isk) skb.seq
  | _ => True

/-! ## What the functions do to the counter -/

section

variable {k : Kernel} (hk : k.cpu.osIntNesting = 0) (hroom : k.cpu.cirticalLock < 0xffffff00)
include hk hroom

/-- Leaving the section restores the counter. -/
theorem cirticalLock_section :
    k.cpu.enterCritical.exitCritical.cirticalLock = k.cpu.cirticalLock :=
  (IrqMask.exitCritical_enterCritical hk (by bv_omega)).2

theorem addTimer_balanced_iff (timer : ℕ) :
    (addTimer k (some timer)).2.cpu.cirticalLock = k.cpu.cirticalLock ↔ timer ∉ k.timerList := by
  have hmem' : (timer ∈ k.enterCritical.timerList) = (timer ∈ k.timerList) := rfl
  rw [addTimer]
  simp only [hmem']
  by_cases hmem : timer ∈ k.timerList
  · rw [if_pos hmem]
    refine iff_of_false (fun heq => ?_) (not_not.mpr hmem)
    have hlock := (IrqMask.open_spec hk .critical).2.2.symm.trans heq
    simp at hlock
  · rw [if_neg hmem]
    exact iff_of_true (cirticalLock_section hk hroom) hmem

theorem modTimer_balanced (timer : ℕ) (expires : BitVec 32) :
    (modTimer k (some timer) expires).2.cpu.cirticalLock = k.cpu.cirticalLock := by
  rw [modTimer]
  split_ifs
  · exact cirticalLock_section hk hroom
  · exact cirticalLock_section hk hroom

theorem allocSkbuff_balanced (dataBuf : Option ℕ) :
    (allocSkbuff k dataBuf).2.cpu.cirticalLock = k.cpu.cirticalLock := by
  unfold allocSkbuff
  generalize unusedSkb k = found
  cases found with
  | none => rfl
  | some i =>
    -- both results of `kmalloc` leave the section
    cases dataBuf with
    | none => exact cirticalLock_section hk hroom
    | some buf => exact cirticalLock_section hk hroom

theorem udpRecvfrom_balanced {isk : Option ℕ} {ubuf noblock sin : Bool} {len : ℤ}
    {r : ℤ × List Byte × Kernel} (h : udpRecvfrom k isk ubuf len noblock sin = some r) :
    r.2.2.cpu.cirticalLock = k.cpu.cirticalLock := by
  cases isk with
  | none =>
    obtain rfl := some.inj h
    rfl
  | some isk =>
    rw [udpRecvfrom] at h
    split_ifs at h
    all_goals obtain rfl := some.inj h
    · rfl
    · rfl
    · rfl
    · exact cirticalLock_section hk hroom

end

/-! ## What TCP does to the counter -/

section

variable (s : Sock)

theorem cpu_modTimer (expires : BitVec 32) : (s.modTimer expires).2.cpu = s.cpu := by
  obtain ⟨_, heq, -⟩ := modTimer_writes s expires
  rw [heq]

theorem cpu_tcpSendAck (seq ackSeq : BitVec 32) (syn fin now : Bool) :
    (tcpSendAck s seq ackSeq syn fin now).2.cpu = s.cpu := by
  obtain ⟨_, _, _, _, _, heq⟩ := tcpSendAck_writes s seq ackSeq syn fin now
  rw [heq]

theorem cpu_tcpSendSyn : (tcpSendSyn s).2.cpu = s.cpu := by
  obtain ⟨_, _, _, _, heq⟩ := tcpSendSyn_writes s
  rw [heq]

theorem cpu_ackLoop (ts : List SkBuff) (ret : ℤ) : (ackLoop ts ret s).2.cpu = s.cpu := by
  induction ts generalizing ret s with
  | nil => rfl
  | cons t ts ih =>
    unfold ackLoop
    simp only
    split_ifs
    · exact cpu_tcpSendAck ..
    · exact cpu_tcpSendAck ..
    · exact (ih _ _).trans (cpu_tcpSendAck ..)

theorem cpu_timerSwitch : (timerSwitch s).cpu = s.cpu := by
  unfold timerSwitch
  split
  · rw [cpu_modTimer]
    split_ifs <;> rfl
  · have hsyn := cpu_tcpSendSyn { s with retries := s.retries - 1, timeout := s.ticks.setWidth 16 }
    simp only
    split_ifs
    · exact hsyn
    · exact (cpu_modTimer _ _).trans hsyn
    · exact (cpu_modTimer _ _).trans hsyn
    · rfl
  · obtain ⟨_, _, _, heq⟩ := tcpProcessSendWindow_writes s
    rw [cpu_modTimer, heq]
  · rw [cpu_modTimer]
    split_ifs <;> rfl
  · rw [cpu_modTimer]
    split_ifs <;> rfl
  · rw [cpu_modTimer]
    split_ifs <;> rfl
  · rw [cpu_modTimer]
  all_goals rfl

theorem cpu_drainAcks (n : ℕ) : (drainAcks n s).cpu = s.cpu := by
  induction n generalizing s with
  | zero => rfl
  | succ n ih =>
    unfold drainAcks
    split_ifs
    · rfl
    · obtain ⟨_, _, _, _, heq⟩ := sendDelayedAck_writes s
      rw [ih, tcpTimerEntry, cpu_timerSwitch, heq]

end

section

variable {s s' : Sock} (hs : s.cpu.osIntNesting = 0) (hroom : s.cpu.cirticalLock < 0xffffff00)
include hs hroom

/-- One section, or two after each other. -/
theorem cirticalLock_acknowledge (ts : List SkBuff) :
    (acknowledge ts s).2.cpu.cirticalLock = s.cpu.cirticalLock := by
  have hmax : s.cpu.cirticalLock ≠ 0xffffffff := by bv_omega
  obtain ⟨hnest, hlock⟩ := IrqMask.exitCritical_enterCritical hs hmax
  have hloop : (ackLoop ts 0 s.enterCritical).2.exitCritical.cpu =
      s.cpu.enterCritical.exitCritical := by
    rw [Sock.exitCritical, cpu_ackLoop]
    rfl
  unfold acknowledge
  simp only
  generalize (ackLoop ts 0 s.enterCritical).2.exitCritical = t at hloop ⊢
  split_ifs
  · show (drainAcks _ t.enterCritical).cpu.exitCritical.cirticalLock = _
    rw [cpu_drainAcks, Sock.enterCritical, hloop]
    rw [(IrqMask.exitCritical_enterCritical hnest (hlock ▸ hmax)).2, hlock]
  · rw [hloop, hlock]

/-- `tcp_seg_sort` leaves its critical section unless the segment is a duplicate. -/
theorem cirticalLock_tcpSegSort_iff (skb : SkBuff) :
    (Tcp.tcpSegSort s skb).2.cpu.cirticalLock = s.cpu.cirticalLock ↔
      (s.ackSeq ≤ skb.seq → ¬ IsQueued s skb.seq) := by
  rw [← isQueued_iff, Tcp.tcpSegSort]
  by_cases hold : skb.seq < s.ackSeq
  · rw [if_pos hold]
    exact iff_of_true rfl fun h => absurd hold (BitVec.not_lt.mpr h)
  · have hcrit : s.enterCritical.recvData = s.recvData := rfl
    rw [if_neg hold]
    simp only [hcrit]
    cases findSlot skb.seq s.recvData.reverse [] with
    | none =>
      refine iff_of_false (fun heq => ?_) (fun h => h (BitVec.not_lt.mp hold) rfl)
      have hlock := (IrqMask.open_spec hs .critical).2.2.symm.trans heq
      simp at hlock
    | some r =>
      refine iff_of_true ?_ (fun _ h => by cases h)
      obtain ⟨hnest, hlock⟩ := IrqMask.exitCritical_enterCritical hs (by bv_omega)
      refine (cirticalLock_acknowledge ?_ ?_ _).trans hlock
      · exact hnest
      · exact hlock.trans_lt hroom

theorem cirticalLock_tcpRecv {len : ℕ} {nonblock : Bool} {bytes : List Byte}
    (h : Tcp.tcpRecv s len nonblock = .data bytes s') :
    s'.cpu.cirticalLock = s.cpu.cirticalLock := by
  unfold Tcp.tcpRecv tcpRecvReady at h
  split_ifs at h
  obtain ⟨_, rfl⟩ := RecvResult.data.inj h
  exact (IrqMask.exitCritical_enterCritical hs (by bv_omega)).2

end

theorem tcpRecv_balanced {k : Kernel} (hk : k.cpu.osIntNesting = 0)
    (hroom : k.cpu.cirticalLock < 0xffffff00) {isk : Option ℕ} {ubuf : Bool}
    {len : ℕ} {nonblock : Bool} {r : ℤ × List Byte × Kernel}
    (h : tcpRecv k isk ubuf len nonblock = some r) :
    r.2.2.cpu.cirticalLock = k.cpu.cirticalLock := by
  cases isk with
  | none =>
    obtain rfl := some.inj h
    rfl
  | some isk =>
    rw [tcpRecv] at h
    by_cases hubuf : ubuf = false
    · simp only [hubuf, if_true] at h
      obtain rfl := some.inj h
      rfl
    · simp only [hubuf] at h
      cases hres : Tcp.tcpRecv (k.tcpSock isk) len nonblock with
      | wait =>
        rw [hres] at h
        cases h
      | err e =>
        rw [hres] at h
        obtain rfl := some.inj h
        rfl
      | data bytes s =>
        rw [hres] at h
        obtain rfl := some.inj h
        exact cirticalLock_tcpRecv (s := k.tcpSock isk) hk hroom hres

/-! ## The result -/

/-- **Critical sections.**  Outside interrupts, and as long as the counter does not wrap, a call
returns with the counter it found unless it adds a timer that is on the list or sorts in a segment
that is queued. -/
theorem critical_balanced_iff (k k' : Kernel) (hk : k.cpu.osIntNesting = 0)
    (hroom : k.cpu.cirticalLock < 0xffffff00) (c : Call) (h : exec k c = some k') :
    k'.cpu.cirticalLock = k.cpu.cirticalLock ↔ Balanced k c := by
  cases c with
  | addTimer timer =>
    obtain rfl := some.inj h
    cases timer with
    | none => exact iff_of_true rfl trivial
    | some timer => exact addTimer_balanced_iff hk hroom timer
  | delTimer timer =>
    obtain rfl := some.inj h
    refine iff_of_true ?_ trivial
    cases timer with
    | none => rfl
    | some timer => exact cirticalLock_section hk hroom
  | modTimer timer expires =>
    obtain rfl := some.inj h
    refine iff_of_true ?_ trivial
    cases timer with
    | none => rfl
    | some timer => exact modTimer_balanced hk hroom timer expires
  | setTaskState task state =>
    obtain rfl := some.inj h
    exact iff_of_true (cirticalLock_section hk hroom) trivial
  | allocSkbuff dataBuf =>
    obtain rfl := some.inj h
    exact iff_of_true (allocSkbuff_balanced hk hroom dataBuf) trivial
  | tcpAckHandler isk skb =>
    obtain rfl := some.inj h
    refine iff_of_true ?_ trivial
    obtain ⟨_, _, _, heq, -⟩ := tcpAckHandler_writes (k.tcpSock isk) skb
    rw [tcpAckHandler, heq]
    exact cirticalLock_section hk hroom
  | tcpSegSort isk skb =>
    obtain rfl := some.inj h
    cases isk with
    | none => exact iff_of_true rfl trivial
    | some isk =>
      cases skb with
      | none => exact iff_of_true rfl trivial
      | some skb => exact cirticalLock_tcpSegSort_iff (s := k.tcpSock isk) hk hroom skb
  | tcpRecv isk ubuf len nonblock =>
    refine iff_of_true ?_ trivial
    obtain ⟨r, hr, rfl⟩ := Option.map_eq_some_iff.mp h
    exact tcpRecv_balanced hk hroom hr
  | udpRecvfrom isk ubuf len noblock sin =>
    refine iff_of_true ?_ trivial
    obtain ⟨r, hr, rfl⟩ := Option.map_eq_some_iff.mp h
    exact udpRecvfrom_balanced hk hroom hr

/-- The kernel after boot, with one connection that has received nothing. -/
def bootKernel : Kernel where
  cpu := ⟨0, 0, 0⟩
  timerList := []
  expires := fun _ => 0
  taskState := fun _ => 0
  skb := fun _ => ⟨0, none⟩
  tcp := fun _ => blankSock
  udp := fun _ => ⟨0, []⟩

/-- A segment of one byte that comes before the one expected. -/
def oneByte : SkBuff := ⟨41, 5, 1, 0, 0, false, false, false, false, false, [7], 0⟩

/-- A timer is added for the first time. -/
theorem critical_balanced_first_timer :
    ((addTimer bootKernel (some 3)).2.cpu.cirticalLock = bootKernel.cpu.cirticalLock ↔
      Balanced bootKernel (.addTimer (some 3))) ∧ (3 : ℕ) ∉ bootKernel.timerList :=
  ⟨critical_balanced_iff bootKernel _ rfl (by decide) (.addTimer (some 3)) rfl, List.not_mem_nil⟩

/-- The second `add_timer` of a timer and the second arrival of a segment each return with the
counter raised.  From its largest value the counter does not come back. -/
theorem second_call_stays_critical :
    (let k₁ := (addTimer bootKernel (some 3)).2;
      k₁.cpu.cirticalLock = 0 ∧ (addTimer k₁ (some 3)).1 = 0 ∧
        (addTimer k₁ (some 3)).2.cpu.cirticalLock = 1) ∧
    (let k₁ := (tcpSegSort bootKernel (some 0) (some oneByte)).2;
      k₁.cpu.cirticalLock = 0 ∧ (tcpSegSort k₁ (some 0) (some oneByte)).1 = 0 ∧
        (tcpSegSort k₁ (some 0) (some oneByte)).2.cpu.cirticalLock = 1) ∧
    (setTaskState { bootKernel with cpu := ⟨0, 0xffffffff, 0⟩ } 0 0).cpu.cirticalLock = 0 := by
  decide +kernel

end Critical

end Yap
