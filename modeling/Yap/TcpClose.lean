/-
# The end of a connection (`net/inet/tcp.c`)

What a FIN of the peer does to a socket, and when the timer gives a socket up.

`FollowsRfc` says for each status what a FIN may lead to; `tcp_received_data_handler` keeps to it
only if the connection has not been closed from this side (`fin_follows_iff`).  After the switch of
`tcp_fin_handler` it sends a FIN of its own and sets `LAST_ACK`, in every status.

`tcp_if_timeout` takes the time since `isk->timeout`, a field of 16 bits, with the 32 bits of the
kernel's tick count.  `Punctual` says that it measures the time that has passed;
`punctual_iff` shows for which tick counts it does.
-/
import Yap.TcpHandshake

namespace Yap

namespace Tcp

/-! ## Closing -/

/-- `tcp_close(isk, timeout)`; `tcp_send_fin` is a stub that returns 0. -/
def tcpClose (s : Sock) : Sock :=
  match s.status with
  | .established | .synSent | .synRcvd =>
    { s with timeout := s.ticks.setWidth 16, status := .finWait1 }
  | .closed => { s with freed := true }
  | _ => s

/-- `tcp_received_data_handler(skb)` for the first socket of `active_queue` with the address of the
peer: without a SYN, `tcp_find_sock` gives it only the segments that have an ACK, and the others
are freed. -/
def receiveActive (mss : Option (BitVec 16)) (s : Sock) (skb : SkBuff) : Sock :=
  if skb.ack then (tcpReceive mss s skb).2 else s

/-- A FIN that has been handed to `ip_send`. -/
def Out.isFin : Out → Bool
  | .ack a => a.fin
  | .syn _ => false
  | .seg _ => false

/-- The number of FINs sent. -/
def Sock.fins (s : Sock) : ℕ := s.sent.countP Out.isFin

/-- What a FIN of the peer may do to the socket. -/
def FollowsRfc (skb : SkBuff) (s s' : Sock) : Prop :=
  match s.status with
  | .established => s'.status = .closeWait ∨ s'.status = .lastAck ∧ s'.fins = s.fins + 1
  | .finWait1 | .finWait2 =>
    (s'.status = .closing ∨ s'.status = .timeWait) ∧ s'.fins = s.fins
  | .closeWait | .lastAck | .timeWait =>
    s'.status = s.status ∧
      ∃ a : Ack, a.fin = false ∧ a.ackSeq = skb.seq + 1 ∧ s'.sent = s.sent ++ [.ack a]
  | _ => True

/-- A connection that may get a FIN. -/
def Status.synchronized : Status → Prop
  | .established | .finWait1 | .finWait2 | .closeWait | .lastAck | .timeWait => True
  | _ => False

/-- There is a buffer for the FIN: the first acknowledgement takes one answer if it gets no buffer,
and another one for `ip_send` if it does. -/
def finBuffer (answers : List ℤ) : Prop :=
  0 ≤ (if answers.headD 0 < 0 then answers.tail else answers.tail.tail).headD 0

section Fin

variable {s : Sock} {skb : SkBuff}

/-- **An acknowledgement that is sent at once**: it needs a buffer. -/
theorem tcpSendAck_now (s : Sock) (seq ackSeq : BitVec 32) (syn fin : Bool) :
    (tcpSendAck s seq ackSeq syn fin true).2.answers =
      (if s.answers.headD 0 < 0 then s.answers.tail else s.answers.tail.tail) ∧
    (tcpSendAck s seq ackSeq syn fin true).2.fins =
      s.fins + (if fin = true ∧ 0 ≤ s.answers.headD 0 then 1 else 0) := by
  unfold tcpSendAck
  rw [ask_eq]
  by_cases hlt : s.answers.headD 0 < 0
  · simp only [if_pos hlt]
    refine ⟨trivial, ?_⟩
    rw [if_neg (fun h => absurd h.2 (not_le.mpr hlt))]
    rfl
  · obtain ⟨w, hw⟩ := tcpSelectWindow_writes { s with answers := s.answers.tail }
    simp only [if_neg hlt, if_true, ask_eq, hw]
    refine ⟨trivial, ?_⟩
    unfold Sock.fins
    rw [List.countP_append]
    cases fin with
    | false => simp [Out.isFin]
    | true => rw [if_pos ⟨rfl, not_lt.mp hlt⟩]; rfl

theorem tcpAckHandler_keeps (s : Sock) (skb : SkBuff) :
    (tcpAckHandler s skb).sent = s.sent ∧ (tcpAckHandler s skb).answers = s.answers := by
  obtain ⟨_, _, _, heq, _⟩ := tcpAckHandler_writes s skb
  rw [heq]
  exact ⟨rfl, rfl⟩

theorem finSwitch_keeps (s : Sock) :
    (finSwitch s).sent = s.sent ∧ (finSwitch s).answers = s.answers := by
  obtain ⟨_, _, _, _, _, heq, _⟩ := finSwitch_writes s
  rw [heq]
  exact ⟨rfl, rfl⟩

/-- `tcp_fin_handler` acknowledges the FIN and sends none. -/
theorem tcpFinHandler_keeps (s : Sock) (skb : SkBuff) :
    (tcpFinHandler (tcpAckHandler s skb) skb).fins = s.fins ∧
      (tcpFinHandler (tcpAckHandler s skb) skb).answers =
        if s.answers.headD 0 < 0 then s.answers.tail else s.answers.tail.tail := by
  obtain ⟨hsent, hanswers⟩ := tcpAckHandler_keeps s skb
  obtain ⟨hans1, hfins1⟩ := tcpSendAck_now (tcpAckHandler s skb)
    (tcpAckHandler s skb).receivedAck (skb.seq + 1) false false
  -- the switch of `tcp_fin_handler` sends nothing and asks for nothing
  obtain ⟨hsent2, hans2⟩ := finSwitch_keeps (tcpSendAck (tcpAckHandler s skb)
    (tcpAckHandler s skb).receivedAck (skb.seq + 1) false false true).2
  constructor
  · unfold tcpFinHandler Sock.fins
    rw [hsent2]
    refine hfins1.trans ?_
    rw [if_neg (by simp), Nat.add_zero, Sock.fins, hsent]
  · rw [tcpFinHandler, hans2, hans1, hanswers]

/-- **What the code does with a FIN**: whatever the status is, it sends a FIN of its own and waits
for the acknowledgement. -/
theorem receiveConnected_fin (s : Sock) (hfin : skb.fin = true) (hrst : skb.rst = false)
    (hsyn : skb.syn = false) (hack : skb.ack = true) :
    (receiveConnected s skb).2.status = .lastAck ∧
      ((receiveConnected s skb).2.fins = s.fins + 1 ↔ finBuffer s.answers) := by
  obtain ⟨hbefore, hasked⟩ := tcpFinHandler_keeps s skb
  obtain ⟨r, hr⟩ : ∃ r, r = tcpFinHandler (tcpAckHandler s skb) skb := ⟨_, rfl⟩
  rw [← hr] at hbefore hasked
  have heq : receiveConnected s skb = (0,
      { (tcpSendAck { r with retries := tcpRetryTimes, timeout := r.ticks.setWidth 16 }
          r.receivedAck (skb.seq + 1) false true true).2 with status := .lastAck }) := by
    unfold receiveConnected
    simp [hr, hrst, hsyn, hack, hfin]
  obtain ⟨_, hfins⟩ := tcpSendAck_now
    { r with retries := tcpRetryTimes, timeout := r.ticks.setWidth 16 }
    r.receivedAck (skb.seq + 1) false true
  rw [heq]
  refine ⟨rfl, ?_⟩
  have hcount : r.fins + (if true = true ∧ 0 ≤ r.answers.headD 0 then 1 else 0) = s.fins + 1 ↔
      finBuffer s.answers := by
    rw [hbefore, hasked]
    unfold finBuffer
    split_ifs <;> simp_all
  rw [← hcount]
  exact Eq.congr_left hfins

/-- Nothing is sent in `LAST_ACK`. -/
theorem tcpReceive_lastAck (mss : Option (BitVec 16)) (skb : SkBuff) (hs : s.status = .lastAck) :
    (tcpReceive mss s skb).2 = tcpAckHandler s skb := by
  unfold tcpReceive receiveSwitch
  rw [hs]

theorem tcpReceive_connected (mss : Option (BitVec 16)) (skb : SkBuff)
    (hs : s.status.synchronized) (hne : s.status ≠ .lastAck) :
    tcpReceive mss s skb = receiveConnected s skb := by
  unfold tcpReceive receiveSwitch
  cases hst : s.status <;> simp_all [Status.synchronized]

end Fin

/-- **FIN.**  For every socket whose connection has been set up and every FIN without RST and SYN:
the socket goes where it has to go exactly if it was `ESTABLISHED`, the segment has an ACK, and
there is a buffer for the FIN. -/
theorem fin_follows_iff (mss : Option (BitVec 16)) (s : Sock) (skb : SkBuff)
    (hs : s.status.synchronized) (hfin : skb.fin = true) (hrst : skb.rst = false)
    (hsyn : skb.syn = false) :
    FollowsRfc skb s (receiveActive mss s skb) ↔
      s.status = .established ∧ skb.ack = true ∧ finBuffer s.answers := by
  by_cases hack : skb.ack = true
  · have hactive : receiveActive mss s skb = (tcpReceive mss s skb).2 := if_pos hack
    by_cases hlast : s.status = .lastAck
    · -- only the acknowledgement of our FIN counts here
      have hsent := (tcpAckHandler_keeps s skb).1
      rw [hactive, tcpReceive_lastAck mss skb hlast]
      unfold FollowsRfc
      simp [hlast, hsent]
    · obtain ⟨hstatus, hfins⟩ := receiveConnected_fin s hfin hrst hsyn hack
      rw [hactive, tcpReceive_connected mss skb hs hlast]
      unfold FollowsRfc
      cases hst : s.status with
      | established => simp [hstatus, hfins, hack]
      | finWait1 | finWait2 | closeWait | timeWait => simp [hstatus]
      | lastAck => exact absurd hst hlast
      | closed | listen | synSent | synRcvd | closing => exact absurd hs (by rw [hst]; exact id)
  · -- `tcp_find_sock` does not find the socket
    have hactive : receiveActive mss s skb = s := if_neg hack
    rw [hactive]
    unfold FollowsRfc
    cases hst : s.status with
    | established | finWait1 | finWait2 | closeWait | lastAck | timeWait => simp [hack]
    | closed | listen | synSent | synRcvd | closing => exact absurd hs (by rw [hst]; exact id)

/-- The sequence number lies in the window that has been offered. -/
def InWindow (s : Sock) (skb : SkBuff) : Prop := skb.seq - s.ackSeq < s.window.setWidth 32

/-- The FIN of the peer, behind its SYN with number 7. -/
def peerFin : SkBuff := { peerSegment 8 0x1235 false true with fin := true }

/-- A connection that the peer has opened. -/
def openSock : Sock := (tcpReceive none halfOpenSock (peerSegment 8 0x1235 false true)).2

/-- The FIN of the peer on that connection is answered with one FIN. -/
theorem fin_follows_iff_openSock : openSock.status = .established ∧ InWindow openSock peerFin ∧
    FollowsRfc peerFin openSock (receiveActive none openSock peerFin) := by
  have hopen : openSock.status = .established := by decide +kernel
  refine ⟨hopen, by unfold InWindow; decide +kernel, ?_⟩
  refine (fin_follows_iff none openSock peerFin ?_ rfl rfl rfl).mpr ⟨hopen, rfl, ?_⟩
  · rw [hopen]
    trivial
  · unfold finBuffer
    decide +kernel

/-- After `tcp_close` it ends in `LAST_ACK` with a FIN sent, and the same FIN once more is not
acknowledged. -/
theorem fin_after_close : (tcpClose openSock).status = .finWait1 ∧
    InWindow (tcpClose openSock) peerFin ∧
    (receiveActive none (tcpClose openSock) peerFin).status = .lastAck ∧
    (receiveActive none (tcpClose openSock) peerFin).fins = (tcpClose openSock).fins + 1 ∧
    ¬ FollowsRfc peerFin (tcpClose openSock) (receiveActive none (tcpClose openSock) peerFin) ∧
    (receiveActive none (receiveActive none openSock peerFin) peerFin).sent =
      (receiveActive none openSock peerFin).sent := by
  have hstatus : (tcpClose openSock).status = .finWait1 := by decide +kernel
  have hlast : (receiveActive none (tcpClose openSock) peerFin).status = .lastAck := by
    decide +kernel
  refine ⟨hstatus, by unfold InWindow; decide +kernel, hlast, by decide +kernel, ?_,
    by decide +kernel⟩
  unfold FollowsRfc
  rintro ⟨h | h, -⟩
  · exact absurd (hlast.symm.trans h) (by decide)
  · exact absurd (hlast.symm.trans h) (by decide)

/-! ## The timer -/

/-- The timer gives the socket up: it goes back to `LISTEN`, or it is freed. -/
def GivenUp (s s' : Sock) : Prop :=
  s.status ≠ .listen ∧ s'.status = .listen ∨ s.freed = false ∧ s'.freed = true

/-- **What the timer is for**, when `isk->timeout` was set at `t₀`: `tcp_if_timeout` tells whether
more than `time` has passed, in units of which a tick has `HZ`; and the timer gives no socket up
before the second tick. -/
structure Punctual (s : Sock) (t₀ : BitVec 32) : Prop where
  timeout : ∀ time : BitVec 32,
    tcpIfTimeout s time = true ↔ time.toNat < (s.ticks - t₀).toNat * 100
  firstTick : (s.ticks - t₀).toNat ≤ 1 → ¬ GivenUp s (tcpTimerEntry s)

/-- Fields that the timer looks at, and which sending leaves alone. -/
structure SameTimes (s s' : Sock) : Prop where
  status : s'.status = s.status
  ticks : s'.ticks = s.ticks
  timeout : s'.timeout = s.timeout
  retries : s'.retries = s.retries
  freed : s'.freed = s.freed

section Timer

variable {s s' s'' : Sock} {t₀ : BitVec 32}

theorem SameTimes.trans (h : SameTimes s s') (h' : SameTimes s' s'') : SameTimes s s'' :=
  ⟨h'.status.trans h.status, h'.ticks.trans h.ticks, h'.timeout.trans h.timeout,
    h'.retries.trans h.retries, h'.freed.trans h.freed⟩

theorem sameTimes_modTimer (s : Sock) (expires : BitVec 32) :
    SameTimes s (s.modTimer expires).2 := by
  obtain ⟨_, heq, _⟩ := modTimer_writes s expires
  rw [heq]
  exact ⟨rfl, rfl, rfl, rfl, rfl⟩

theorem sameTimes_sendDelayedAck (s : Sock) : SameTimes s (sendDelayedAck s) := by
  obtain ⟨_, _, _, _, heq⟩ := sendDelayedAck_writes s
  rw [heq]
  exact ⟨rfl, rfl, rfl, rfl, rfl⟩

theorem sameTimes_tcpProcessSendWindow (s : Sock) : SameTimes s (tcpProcessSendWindow s) := by
  obtain ⟨_, _, _, heq⟩ := tcpProcessSendWindow_writes s
  rw [heq]
  exact ⟨rfl, rfl, rfl, rfl, rfl⟩

theorem sameTimes_tcpSendSyn (s : Sock) : SameTimes s (tcpSendSyn s).2 := by
  obtain ⟨_, _, _, _, heq⟩ := tcpSendSyn_writes s
  rw [heq]
  exact ⟨rfl, rfl, rfl, rfl, rfl⟩

/-- The number that `tcp_if_timeout` compares: the upper half of `t₀` comes in. -/
theorem tcpIfTimeout_iff (h : s.timeout = t₀.setWidth 16) (time : BitVec 32) :
    tcpIfTimeout s time = true ↔
      time.toNat < ((s.ticks - t₀).toNat * 100 + 6553600 * (t₀.toNat / 2 ^ 16)) % 2 ^ 32 := by
  unfold tcpIfTimeout
  rw [decide_eq_true_iff, BitVec.lt_def, h, BitVec.toNat_mul, BitVec.toNat_sub, BitVec.toNat_sub,
    BitVec.toNat_setWidth, BitVec.toNat_setWidth]
  rw [show (100 : BitVec 32).toNat = 100 from rfl]
  have heq : (2 ^ 32 - t₀.toNat % 2 ^ 16 % 2 ^ 32 + s.ticks.toNat) % 2 ^ 32 * 100 % 2 ^ 32 =
      ((2 ^ 32 - t₀.toNat + s.ticks.toNat) % 2 ^ 32 * 100 + 6553600 * (t₀.toNat / 2 ^ 16)) %
        2 ^ 32 := by omega
  rw [heq]

/-- The upper half of `t₀` adds a multiple of `2 ^ 18`, and nothing if it is a multiple of
`2 ^ 14`. -/
theorem wrapped_eq_iff (e h : ℕ) :
    (e * 100 + 6553600 * h) % 2 ^ 32 = e * 100 ↔ e * 100 < 2 ^ 32 ∧ h % 2 ^ 14 = 0 := by
  omega

theorem wrapped_large {e h : ℕ} (he : e ≤ 1) (hh : h % 2 ^ 14 ≠ 0) :
    2 ^ 18 ≤ (e * 100 + 6553600 * h) % 2 ^ 32 := by
  have hmul : 6553600 * h % 2 ^ 32 = 2 ^ 18 * (25 * h % 2 ^ 14) := by
    rw [show 6553600 * h = 2 ^ 18 * (25 * h) by omega, show 2 ^ 32 = 2 ^ 18 * 2 ^ 14 by norm_num,
      Nat.mul_mod_mul_left]
  have hpos : 0 < 25 * h % 2 ^ 14 := by omega
  have hlt : 25 * h % 2 ^ 14 < 2 ^ 14 := Nat.mod_lt _ (by norm_num)
  rw [Nat.add_mod, hmul]
  rw [Nat.mod_eq_of_lt (show e * 100 < 2 ^ 32 by omega), Nat.mod_eq_of_lt (by omega)]
  omega

/-- **First tick.**  Within one tick, `tcp_if_timeout` tells nonsense exactly if the upper half of
`t₀` comes in. -/
theorem tcpIfTimeout_first (h : s.timeout = t₀.setWidth 16) (he : (s.ticks - t₀).toNat ≤ 1)
    {time : BitVec 32} (hlow : 100 ≤ time.toNat) (hhigh : time.toNat < 2 ^ 18) :
    tcpIfTimeout s time = true ↔ t₀.toNat / 2 ^ 16 % 2 ^ 14 ≠ 0 := by
  rw [tcpIfTimeout_iff h]
  constructor
  · intro hlt hzero
    rw [(wrapped_eq_iff _ _).mpr ⟨by omega, hzero⟩] at hlt
    omega
  · intro hne
    exact hhigh.trans_le (wrapped_large he hne)

/-- `tcp_if_timeout` measures time exactly if nothing wraps and nothing is cut off. -/
theorem timeout_iff (h : s.timeout = t₀.setWidth 16) :
    (∀ time : BitVec 32, tcpIfTimeout s time = true ↔ time.toNat < (s.ticks - t₀).toNat * 100) ↔
      (s.ticks - t₀).toNat * 100 < 2 ^ 32 ∧ t₀.toNat / 2 ^ 16 % 2 ^ 14 = 0 := by
  rw [← wrapped_eq_iff]
  constructor
  · intro hall
    have hlt := Nat.mod_lt ((s.ticks - t₀).toNat * 100 + 6553600 * (t₀.toNat / 2 ^ 16))
      (show 0 < 2 ^ 32 by norm_num)
    -- the smaller one of the two numbers, as a time to wait for, tells them apart
    have hmin : ∀ m < 2 ^ 32, (m < ((s.ticks - t₀).toNat * 100 +
        6553600 * (t₀.toNat / 2 ^ 16)) % 2 ^ 32 ↔ m < (s.ticks - t₀).toNat * 100) := by
      intro m hm
      have htime := (tcpIfTimeout_iff h (BitVec.ofNat 32 m)).symm.trans (hall (BitVec.ofNat 32 m))
      rwa [BitVec.toNat_ofNat, Nat.mod_eq_of_lt hm] at htime
    rcases lt_trichotomy (((s.ticks - t₀).toNat * 100 + 6553600 * (t₀.toNat / 2 ^ 16)) % 2 ^ 32)
      ((s.ticks - t₀).toNat * 100) with hlow | heq | hhigh
    · exact absurd ((hmin _ hlt).mpr hlow) (lt_irrefl _)
    · exact heq
    · exact absurd ((hmin _ (hhigh.trans hlt)).mp hhigh) (lt_irrefl _)
  · intro heq time
    rw [tcpIfTimeout_iff h, heq]

/-- The timer of a socket that connects may close it, but does not free it. -/
theorem timerSwitch_synSent (hs : s.status = .synSent) :
    (timerSwitch s).status ≠ .listen ∧ (timerSwitch s).freed = s.freed := by
  have hsyn := sameTimes_tcpSendSyn
    { s with retries := s.retries - 1, timeout := s.ticks.setWidth 16 }
  have hmod := hsyn.trans (sameTimes_modTimer _ 20)
  unfold timerSwitch
  rw [hs] at hsyn hmod ⊢
  by_cases hre : s.retries ≠ 0
  · simp only [if_pos hre]
    split_ifs
    · exact ⟨nofun, hsyn.freed⟩
    · exact ⟨nofun, hmod.freed⟩
    · rw [hmod.status, hmod.freed]
      exact ⟨nofun, rfl⟩
  · simp only [if_neg hre]
    exact ⟨nofun, rfl⟩

theorem timerSwitch_synRcvd (hs : s.status = .synRcvd) :
    timerSwitch s = ((if tcpIfTimeout s synRcvdHoldingTime = true
      then { s.delTimer with status := .listen, listening := true } else s).modTimer 1).2 := by
  unfold timerSwitch
  rw [hs]

/-- **What the timer does to a live socket**: it gives it up in `SYN_RCVD` after a timeout, in the
statuses that wait for an acknowledgement after a timeout without retries left, and in `TIME_WAIT`
at once. -/
theorem givenUp_iff (hfreed : s.freed = false) :
    GivenUp s (tcpTimerEntry s) ↔ s.status = .timeWait ∨
      s.status = .synRcvd ∧ tcpIfTimeout s synRcvdHoldingTime = true ∨
      (s.status = .finWait1 ∨ s.status = .closing ∨ s.status = .lastAck) ∧ s.retries = 0 ∧
        tcpIfTimeout s tcpFinWaitTime = true := by
  have hsame := sameTimes_sendDelayedAck s
  have htimeout : ∀ time, tcpIfTimeout (sendDelayedAck s) time = tcpIfTimeout s time := by
    intro time
    unfold tcpIfTimeout
    rw [hsame.ticks, hsame.timeout]
  have hstatus := hsame.status
  have hretries := hsame.retries
  have hlive := hsame.freed.trans hfreed
  unfold GivenUp tcpTimerEntry
  generalize sendDelayedAck s = t at htimeout hstatus hretries hlive
  cases hs : s.status with
  | closed | listen | finWait2 | closeWait =>
    rw [hs] at hstatus
    simp [timerSwitch, hstatus, hlive, hfreed]
  | synSent =>
    rw [hs] at hstatus
    obtain ⟨hst, hfr⟩ := timerSwitch_synSent hstatus
    rw [hfr, hlive]
    simp [hst]
  | established =>
    rw [hs] at hstatus
    have hafter := (sameTimes_tcpProcessSendWindow t).trans (sameTimes_modTimer _ 1)
    have heq : timerSwitch t = ((tcpProcessSendWindow t).modTimer 1).2 := by
      unfold timerSwitch
      rw [hstatus]
    rw [heq, hafter.status, hafter.freed, hstatus, hlive]
    simp
  | synRcvd =>
    rw [hs] at hstatus
    rw [timerSwitch_synRcvd hstatus, (sameTimes_modTimer _ 1).status, (sameTimes_modTimer _ 1).freed,
      htimeout]
    split_ifs with hto
    · simp [hto]
    · simp [hto, hstatus, hlive]
  | finWait1 | closing | lastAck =>
    rw [hs] at hstatus
    have heq : timerSwitch t = ((if tcpIfTimeout t tcpFinWaitTime = true then
        if t.retries = 0 then { t with errno := -ETIMEDOUT, status := .closed, freed := true }
        else { t with retries := t.retries - 1, timeout := t.ticks.setWidth 16 }
      else t).modTimer 1).2 := by
      unfold timerSwitch
      rw [hstatus]
    rw [heq, (sameTimes_modTimer _ 1).status, (sameTimes_modTimer _ 1).freed, htimeout, hretries]
    split_ifs with hto hre
    · simp [hto, hre, hfreed]
    · have hne : s.retries ≠ 0#16 := hre
      simp [hne, hstatus, hlive]
    · simp [hto, hstatus, hlive]
  | timeWait =>
    rw [hs] at hstatus
    have heq : timerSwitch t =
        ({ t with errno := 0, status := .closed, freed := true }.modTimer 1).2 := by
      unfold timerSwitch
      rw [hstatus]
    rw [heq, (sameTimes_modTimer _ 1).freed]
    simp [hfreed]

/-- The cases in which the timer gives a socket up within the first tick. -/
theorem givenUp_first_iff (h : s.timeout = t₀.setWidth 16) (he : (s.ticks - t₀).toNat ≤ 1)
    (hfreed : s.freed = false) :
    GivenUp s (tcpTimerEntry s) ↔ s.status = .timeWait ∨
      t₀.toNat / 2 ^ 16 % 2 ^ 14 ≠ 0 ∧ (s.status = .synRcvd ∨
        (s.status = .finWait1 ∨ s.status = .closing ∨ s.status = .lastAck) ∧ s.retries = 0) := by
  rw [givenUp_iff hfreed, tcpIfTimeout_first h he (by decide) (by decide),
    tcpIfTimeout_first h he (by decide) (by decide)]
  tauto

end Timer

/-- **Timeouts.**  For every live socket and every tick count `t₀` at which its `timeout` was set:
the timeout measures the time that has passed, and the timer gives the socket up in no first tick,
exactly if the time since `t₀` does not overflow and the upper half of `t₀` does not come in; and a
socket in `TIME_WAIT` must not be met in its first tick. -/
theorem punctual_iff (s : Sock) (t₀ : BitVec 32) (h : s.timeout = t₀.setWidth 16)
    (hfreed : s.freed = false) :
    Punctual s t₀ ↔ (s.ticks - t₀).toNat * 100 < 2 ^ 32 ∧ t₀.toNat / 2 ^ 16 % 2 ^ 14 = 0 ∧
      ((s.ticks - t₀).toNat ≤ 1 → s.status ≠ .timeWait) := by
  constructor
  · intro hp
    obtain ⟨hshort, hupper⟩ := (timeout_iff h).mp hp.timeout
    refine ⟨hshort, hupper, ?_⟩
    intro he hwait
    exact hp.firstTick he ((givenUp_first_iff h he hfreed).mpr (Or.inl hwait))
  · rintro ⟨hshort, hupper, hwait⟩
    refine ⟨(timeout_iff h).mpr ⟨hshort, hupper⟩, ?_⟩
    intro he hup
    rcases (givenUp_first_iff h he hfreed).mp hup with hw | ⟨hne, _⟩
    · exact hwait he hw
    · exact hne hupper

/-- A connection that `tcp_close` has closed from this side at tick 100, three ticks later. -/
theorem punctual_iff_closing : ∃ s : Sock,
    s = { tcpClose { openSock with ticks := 100 } with ticks := 103 } ∧ s.status = .finWait1 ∧
      Punctual s 100 := by
  refine ⟨_, rfl, by decide +kernel, ?_⟩
  refine (punctual_iff _ 100 (by decide +kernel) (by decide +kernel)).mpr ?_
  exact ⟨by decide +kernel, by decide, fun h => absurd h (by decide +kernel)⟩

/-- Eleven minutes after the start, at tick 65536, a SYN arrives; the next run of the timer, at the
next tick, drops the connection. -/
theorem dropped_at_once : ∃ s : Sock,
    s = { (tcpReceive none { listeningSock with ticks := 65536 }
        (peerSegment 7 0 true false)).2 with ticks := 65537 } ∧
      s.timeout = (65536 : BitVec 32).setWidth 16 ∧ s.status = .synRcvd ∧
      tcpIfTimeout s synRcvdHoldingTime = true ∧ (tcpTimerEntry s).status = .listen ∧
      ¬ Punctual s 65536 := by
  refine ⟨_, rfl, by decide +kernel, by decide +kernel, by decide +kernel, by decide +kernel, ?_⟩
  intro hp
  refine hp.firstTick (by decide +kernel) (Or.inl ⟨?_, by decide +kernel⟩)
  exact by decide +kernel

end Tcp

end Yap
