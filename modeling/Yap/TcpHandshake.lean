/-
# The TCP handshake (`net/inet/tcp.c`)

The arms of `tcp_received_data_handler` for `SYN_SENT`, `SYN_RCVD` and `LISTEN`, `tcp_connect`
up to its wait, and the header as `tcp_build_header` leaves it in the buffer.

Sequence numbers cross two boundaries, each at several places.  A number is turned into network
order once by `tcp_build_header`, and once more by `tcp_send_syn` before that.  And a SYN counts
as one number: `complete_establish` adds it on both paths, but on the active path `send_seq`
has been set to the peer's acknowledgement before, which counts it already.

The peer is any party that acknowledges the number it saw on the wire.
-/
import Yap.TcpDemux
import Yap.TcpSend

namespace Yap

namespace Tcp

open List

open Ip (htonl ntohl htons)

/-! ## The header -/

/-- The fields that `tcp_build_header` writes, as they lie in the buffer. -/
structure TcpHdr where
  source : BitVec 16
  dest : BitVec 16
  seq : BitVec 32
  ackSeq : BitVec 32
  window : BitVec 16
  ack : Bool
  syn : Bool
  fin : Bool
  deriving DecidableEq, Repr

/-- `tcp_build_header(skb, isk, source, dest, seq, ack_seq, ack, syn, fin)`. -/
def tcpBuildHeader (big : Bool) (s : Sock) (source dest : BitVec 16) (seq ackSeq : BitVec 32)
    (ack syn fin : Bool) : TcpHdr × Sock :=
  let s := tcpSelectWindow s
  (⟨source, dest, htonl big seq, htonl big ackSeq, htons big s.window, ack, syn, fin⟩, s)

/-- The number that the bytes of the field mean to whoever receives them. -/
def TcpHdr.wireSeq (big : Bool) (h : TcpHdr) : BitVec 32 := ntohl big h.seq

/-- Byte `k` of the swapped word is byte `3 - k`. -/
theorem getLsbD_bigLittleSwap32 (x : BitVec 32) (i : ℕ) (hi : i < 32) :
    (Ip.bigLittleSwap32 x).getLsbD i = x.getLsbD (8 * (3 - i / 8) + i % 8) := by
  unfold Ip.bigLittleSwap32
  interval_cases i <;> simp

theorem bigLittleSwap32_swap (x : BitVec 32) :
    Ip.bigLittleSwap32 (Ip.bigLittleSwap32 x) = x := by
  refine BitVec.eq_of_getLsbD_eq fun i hi => ?_
  rw [getLsbD_bigLittleSwap32 _ i hi, getLsbD_bigLittleSwap32 _ _ (by omega)]
  congr 1
  omega

/-- A number that is swapped once arrives. -/
theorem wireSeq_tcpBuildHeader (big : Bool) (s : Sock) (source dest : BitVec 16)
    (seq ackSeq : BitVec 32) (ack syn fin : Bool) :
    (tcpBuildHeader big s source dest seq ackSeq ack syn fin).1.wireSeq big = seq := by
  simp only [tcpBuildHeader, TcpHdr.wireSeq, htonl, ntohl]
  split_ifs
  · rfl
  · exact bigLittleSwap32_swap seq

/-- The header of `tcp_send_syn` carries the number that `tcpSendSyn` records: the initial
sequence number with its bytes in the wrong order. -/
theorem wireSeq_tcpSendSyn (s : Sock) (source dest : BitVec 16) :
    (tcpBuildHeader false s source dest (htonl false 0x1234) 0 false true false).1.wireSeq false =
      0x34120000 := by
  rw [wireSeq_tcpBuildHeader]
  decide

/-! ## The functions -/

/-- `complete_establish(isk)`; `rtt` and `rto` are read nowhere else. -/
def completeEstablish (s : Sock) : Sock :=
  { s with status := .established, sendSeq := s.sendSeq + 1, maxAckBacklog := 3 }

section

variable (mss : Option (BitVec 16))

/-- What `tcp_set_options` does to the fields here: `mss` is the option it finds, if any. -/
def setMss (s : Sock) : Sock :=
  match mss with
  | none => s
  | some mss => { s with mss := mss }

/-- `tcp_connect_request_handler(skb, isk, tcph)`. -/
def tcpConnectRequestHandler (s : Sock) (skb : SkBuff) : ℤ × Sock :=
  let s := { s with receivedAck := 0, sendSeq := 0x1234, ackSeq := skb.seq + 1 }
  let s := setMss mss s
  let s := { s with
    sendWindow := { s.sendWindow with totSize := skb.window.setWidth 32 }
    timer := some 3
    timeout := s.ticks.setWidth 16 }
  let (_, s) := tcpSendAck s s.sendSeq s.ackSeq true false false
  (0, { s with listening := false })

/-- The arm for `SYN_SENT`. -/
def receiveSynSent (s : Sock) (skb : SkBuff) : ℤ × Sock :=
  if skb.rst then (0, { s with errno := -ECONNRESET, status := .closed })
  else if !skb.syn || !skb.ack then (0, s)
  else
    let s := tcpAckHandler s skb
    let s := { s with sendSeq := skb.ackSeq, ackSeq := skb.seq + 1 }
    let (_, s) := tcpSendAck s s.sendSeq s.ackSeq false false true
    (0, completeEstablish (setMss mss s))

/-- The arm for `SYN_RCVD`; `tcp_reset` is a stub. -/
def receiveSynRcvd (s : Sock) (skb : SkBuff) : ℤ × Sock :=
  let s := tcpAckHandler s skb
  if skb.syn then (0, s) else (0, completeEstablish { s with status := .established })

/-- The arm for `LISTEN`. -/
def receiveListen (s : Sock) (skb : SkBuff) : ℤ × Sock :=
  if skb.rst || skb.ack then (0, s)
  else
    let (ret, s) := if skb.syn then tcpConnectRequestHandler mss s skb else (0, s)
    if ret = 0 then (ret, { s with status := .synRcvd }) else (ret, s)

/-- The three arms together. -/
def receiveHandshake (s : Sock) (skb : SkBuff) : ℤ × Sock :=
  match s.status with
  | .synSent => receiveSynSent mss s skb
  | .synRcvd => receiveSynRcvd s skb
  | .listen => receiveListen mss s skb
  | _ => (0, s)

/-- `tcp_received_data_handler(skb)` with all its arms, for the socket that `tcp_find_sock` has
returned. -/
def tcpReceive (s : Sock) (skb : SkBuff) : ℤ × Sock :=
  receiveSwitch (receiveHandshake mss) s skb

end

/-- `tcp_connect(isk, sin, addr_len)` up to its `wait_event`, once there is a route. -/
def tcpConnect (s : Sock) : ℤ × Sock :=
  let s := { s with retries := tcpRetryTimes }
  let (ret, s) := tcpSendSyn s
  if ret < 0 then (ret, s)
  else (0, { s with status := .synSent, timeout := s.ticks.setWidth 16, timer := some 10 })

/-- What `Yap.TcpDemux` says of the queue is about the same call: it answers as `tcp_connect` does
here when `tcp_send_syn` does. -/
theorem tcpConnect_demux (s : Sock) (big : Bool) (d : TcpDemux.State) (i : ℕ)
    (ip sinAddr : BitVec 32) (sinPort : BitVec 16) :
    (TcpDemux.tcpConnect big d i sinAddr sinPort
        ⟨some ip, (tcpSendSyn { s with retries := tcpRetryTimes }).1, 0⟩).1 =
      if (tcpConnect s).1 < 0 then some (tcpConnect s).1 else none := by
  by_cases h : (tcpSendSyn { s with retries := tcpRetryTimes }).1 < 0
  · simp [TcpDemux.tcpConnect, tcpConnect, h]
  · simp [TcpDemux.tcpConnect, tcpConnect, h]

/-! ## The peer -/

/-- The numbers of the SYNs that have gone out. -/
def wireSyns (sent : List Out) : List (BitVec 32) :=
  sent.filterMap fun o => match o with
    | .syn seq => some seq
    | .ack a => if a.syn then some a.seq else none
    | .seg _ => none

/-- A segment that `tcp_find_sock` gives to the socket, from a peer with the initial sequence
number `p` that acknowledges the SYN it has seen. -/
structure Conforms (p : BitVec 32) (s : Sock) (skb : SkBuff) : Prop where
  found : if s.status = .listen then skb.syn = true ∧ skb.ack = false else skb.ack = true
  isn : skb.syn = true → skb.seq = p
  acks : skb.ack = true → ∃ w ∈ wireSyns s.sent, skb.ackSeq = w + 1

/-- A send window that no segment has been in. -/
structure NoData (w : SlidingWindow) : Prop where
  used : w.usedSize = 0
  lists : w.wait = [] ∧ w.ready = [] ∧ w.waitAck = []
  ghosts : w.made = [] ∧ w.freed = [] ∧ w.moves = []

/-- A socket on which nothing has been sent. -/
structure Unused (s : Sock) : Prop where
  window : NoData s.sendWindow
  ackQueue : s.ackQueue = []
  sent : s.sent = []

/-- The states of a socket until it is connected: it begins with `tcp_connect`, or in `LISTEN`
as `tcp_accept` makes it; the timer runs and segments of the peer arrive. -/
inductive Connecting (p : BitVec 32) : Sock → Prop where
  | connect {s s' : Sock} : Unused s → s.status = .closed → tcpConnect s = (0, s') →
      Connecting p s'
  | listen {s : Sock} : Unused s → s.status = .listen → Connecting p s
  | timer {s : Sock} (ticks : BitVec 32) (answers : List ℤ) : Connecting p s →
      s.status ≠ .established →
      Connecting p (tcpTimerEntry { s with ticks := ticks, answers := answers })
  | arrive {s : Sock} {skb : SkBuff} (mss : Option (BitVec 16)) (answers : List ℤ) :
      Connecting p s → s.status ≠ .established → Conforms p s skb →
      Connecting p (tcpReceive mss { s with answers := answers } skb).2

/-- The two sides agree on the numbers: what this side sends next is what the peer, by its
acknowledgement, expects next; what this side expects next follows the peer's SYN; and the
first data segment goes out with that number. -/
structure Agreed (p : BitVec 32) (skb : SkBuff) (s : Sock) : Prop where
  sendSeq : s.sendSeq = skb.ackSeq
  ackSeq : s.ackSeq = p + 1
  first : ∀ (buf : List Byte) (answers : List ℤ) (ret : ℤ) (s' : Sock), buf.length < 2 ^ 31 →
    tcpSend { s with answers := answers } buf (BitVec.ofNat 32 buf.length) = some (ret, s') →
    ∀ seg ∈ s'.sendWindow.made.head?, ∀ (big : Bool) (source dest : BitVec 16),
      (tcpBuildHeader big s' source dest seg.sendSeq s'.ackSeq true false false).1.wireSeq big =
        skb.ackSeq

/-! ## What the steps keep -/

/-- All SYNs that have gone out, or are queued, have the number `n`. -/
structure SynsAre (n : BitVec 32) (sent : List Out) (ackQueue : List Ack) : Prop where
  sent : ∀ w ∈ wireSyns sent, w = n
  ackQueue : ∀ a ∈ ackQueue, a.syn = true → a.seq = n

variable {skb : SkBuff}

section

variable {n p : BitVec 32} {s s' s'' : Sock} {sent : List Out} {ackQueue : List Ack} {a : Ack}
  (mss : Option (BitVec 16))

theorem synsAre_nil (n : BitVec 32) : SynsAre n [] [] := ⟨by simp [wireSyns], by simp⟩

theorem SynsAre.send (h : SynsAre n sent ackQueue) {o : Out} (ho : ∀ w ∈ wireSyns [o], w = n) :
    SynsAre n (sent ++ [o]) ackQueue := by
  refine ⟨fun w hw => ?_, h.ackQueue⟩
  rw [wireSyns, filterMap_append, mem_append] at hw
  exact hw.elim (h.sent w) (ho w)

theorem SynsAre.queue (h : SynsAre n sent ackQueue) (ha : a.syn = true → a.seq = n) :
    SynsAre n sent (ackQueue ++ [a]) := by
  refine ⟨h.sent, fun b hb => ?_⟩
  rcases mem_append.mp hb with hb | hb
  · exact h.ackQueue b hb
  · rw [mem_singleton.mp hb]
    exact ha

theorem wireSyns_ack (ha : a.syn = true → a.seq = n) : ∀ w ∈ wireSyns [Out.ack a], w = n := by
  intro w hw
  cases hsyn : a.syn with
  | false => simp [wireSyns, hsyn] at hw
  | true =>
    simp only [wireSyns, filterMap_cons, hsyn, if_true, filterMap_nil,
      mem_singleton] at hw
    rw [hw]
    exact ha hsyn

/-- The handshake is where it was, and all SYNs still have the number `n`. -/
structure Still (n : BitVec 32) (s s' : Sock) : Prop where
  status : s'.status = s.status
  sendSeq : s'.sendSeq = s.sendSeq
  ackSeq : s'.ackSeq = s.ackSeq
  sendWindow : s'.sendWindow = s.sendWindow
  syns : SynsAre n s.sent s.ackQueue → SynsAre n s'.sent s'.ackQueue

theorem Still.trans (h : Still n s s') (h' : Still n s' s'') : Still n s s'' :=
  ⟨h'.status.trans h.status, h'.sendSeq.trans h.sendSeq, h'.ackSeq.trans h.ackSeq,
    h'.sendWindow.trans h.sendWindow, fun hn => h'.syns (h.syns hn)⟩

theorem Still.of_eq (hstatus : s'.status = s.status) (hsendSeq : s'.sendSeq = s.sendSeq)
    (hackSeq : s'.ackSeq = s.ackSeq) (hwindow : s'.sendWindow = s.sendWindow)
    (hsent : s'.sent = s.sent) (hqueue : s'.ackQueue = s.ackQueue) : Still n s s' := by
  refine ⟨hstatus, hsendSeq, hackSeq, hwindow, fun hn => ?_⟩
  rw [hsent, hqueue]
  exact hn

section

variable (n : BitVec 32) (s : Sock)

theorem still_ask : Still n s s.ask.2 := by
  unfold Sock.ask
  split <;> exact .of_eq rfl rfl rfl rfl rfl rfl

theorem still_modTimer (expires : BitVec 32) : Still n s (s.modTimer expires).2 := by
  unfold Sock.modTimer
  split <;> exact .of_eq rfl rfl rfl rfl rfl rfl

theorem still_tcpSelectWindow : Still n s (tcpSelectWindow s) := by
  unfold tcpSelectWindow
  split_ifs <;> exact .of_eq rfl rfl rfl rfl rfl rfl

theorem still_setMss : Still n s (setMss mss s) := by
  unfold setMss
  split <;> exact .of_eq rfl rfl rfl rfl rfl rfl

/-- A delayed acknowledgement goes out as it was queued. -/
theorem still_sendDelayedAck : Still n s (sendDelayedAck s) := by
  unfold sendDelayedAck
  split
  · exact .of_eq rfl rfl rfl rfl rfl rfl
  · rename_i a as hqueue
    have hask := still_ask n { s with ackQueue := as, ackBacklog := s.ackBacklog - 1 }
    refine ⟨hask.status, hask.sendSeq, hask.ackSeq, hask.sendWindow, fun hn => ?_⟩
    rw [hqueue] at hn
    have hn' : SynsAre n s.sent as :=
      ⟨hn.sent, fun b hb => hn.ackQueue b (mem_cons_of_mem _ hb)⟩
    exact ⟨(hn'.send (wireSyns_ack (hn.ackQueue a mem_cons_self))).sent,
      (hask.syns hn').ackQueue⟩

end

/-- An acknowledgement; one with SYN has to carry the number of the others. -/
theorem still_tcpSendAck (s : Sock) (seq ackSeq : BitVec 32) {syn : Bool} (fin now : Bool)
    (hsyn : syn = true → seq = n) : Still n s (tcpSendAck s seq ackSeq syn fin now).2 := by
  have h1 := still_ask n s
  have h2 := h1.trans (still_tcpSelectWindow n s.ask.2)
  unfold tcpSendAck
  simp only
  split_ifs
  · exact h1
  · have h3 := h2.trans (still_ask n _)
    refine ⟨h3.status, h3.sendSeq, h3.ackSeq, h3.sendWindow, fun hn => ?_⟩
    exact (h3.syns hn).send (wireSyns_ack hsyn)
  · refine ⟨h2.status, h2.sendSeq, h2.ackSeq, h2.sendWindow, fun hn => ?_⟩
    exact (h2.syns hn).queue hsyn

/-- Before there is data, an acknowledgement frees nothing. -/
theorem still_tcpAckHandler (n : BitVec 32) (skb : SkBuff)
    (hs : s.status = .synSent ∨ s.status = .synRcvd) (hw : s.sendWindow.waitAck = []) :
    Still n s (tcpAckHandler s skb) := by
  have hswitch : ackSwitch s skb = s := by
    unfold ackSwitch
    rcases hs with hs | hs <;> rw [hs]
  have hwindow := tcpAckHandler_sendWindow s skb
  rw [hw, ackSegments] at hwindow
  refine ⟨?_, ?_, ?_, hwindow, ?_⟩ <;>
    (simp only [tcpAckHandler, hswitch, Sock.exitCritical, Sock.enterCritical]; split_ifs)
  · rfl
  · rfl
  · rfl
  · rfl
  · rfl
  · rfl
  · exact id
  · exact id

/-! ## The invariant -/

/-- What holds while a connection is being made. -/
structure HandshakeInv (p : BitVec 32) (s : Sock) : Prop where
  status : s.status = .closed ∨ s.status = .listen ∨ s.status = .synSent ∨
    s.status = .synRcvd ∨ s.status = .established
  window : NoData s.sendWindow
  active : s.status = .synSent → SynsAre 0x34120000 s.sent s.ackQueue
  passive : s.status = .listen ∨ s.status = .synRcvd → SynsAre 0x1234 s.sent s.ackQueue
  numbers : s.status = .synRcvd → s.sendSeq = 0x1234 ∧ s.ackSeq = p + 1

theorem HandshakeInv.still (h : HandshakeInv p s) (hs : ∀ n, Still n s s') :
    HandshakeInv p s' := by
  have h0 := hs 0
  refine ⟨?_, ?_, ?_, ?_, ?_⟩
  · rw [h0.status]
    exact h.status
  · rw [h0.sendWindow]
    exact h.window
  · rw [h0.status]
    exact fun hst => (hs _).syns (h.active hst)
  · rw [h0.status]
    exact fun hst => (hs _).syns (h.passive hst)
  · rw [h0.status, h0.sendSeq, h0.ackSeq]
    exact h.numbers

theorem HandshakeInv.of_closed (hs : s.status = .closed) (hw : NoData s.sendWindow) :
    HandshakeInv p s := by
  refine ⟨Or.inl hs, hw, ?_, ?_, ?_⟩ <;> simp [hs]

theorem HandshakeInv.of_established (hs : s.status = .established) (hw : NoData s.sendWindow) :
    HandshakeInv p s := by
  refine ⟨by simp [hs], hw, ?_, ?_, ?_⟩ <;> simp [hs]

/-- `tcp_send_syn` sends the swapped number. -/
theorem tcpSendSyn_spec (s : Sock) : (tcpSendSyn s).2.status = s.status ∧
    (tcpSendSyn s).2.sendWindow = s.sendWindow ∧
    (SynsAre 0x34120000 s.sent s.ackQueue →
      SynsAre 0x34120000 (tcpSendSyn s).2.sent (tcpSendSyn s).2.ackQueue) := by
  have h1 := still_ask 0x34120000 s
  unfold tcpSendSyn
  simp only
  split_ifs
  · exact ⟨h1.status, h1.sendWindow, h1.syns⟩
  · have h2 := (still_tcpSelectWindow 0x34120000 { s.ask.2 with sendSeq := 0x1234 }).trans
      (still_ask 0x34120000 _)
    refine ⟨h2.status.trans h1.status, h2.sendWindow.trans h1.sendWindow, fun hn => ?_⟩
    exact (h2.syns (h1.syns hn)).send (by simp [wireSyns])

theorem HandshakeInv.of_synSent (hs : s.status = .synSent) (hw : NoData s.sendWindow)
    (hsyns : SynsAre 0x34120000 s.sent s.ackQueue) : HandshakeInv p s := by
  refine ⟨by simp [hs], hw, fun _ => hsyns, ?_, ?_⟩ <;> simp [hs]

section

variable (h : HandshakeInv p s)

include h

theorem HandshakeInv.tcpSendSyn (hs : s.status = .synSent) :
    HandshakeInv p (Tcp.tcpSendSyn s).2 := by
  obtain ⟨hstatus, hwindow, hsyns⟩ := tcpSendSyn_spec s
  refine .of_synSent (hstatus.trans hs) ?_ (hsyns (h.active hs))
  rw [hwindow]
  exact h.window

omit h in
theorem handshakeInv_tcpConnect (hu : Unused s) (hs : tcpConnect s = (0, s')) :
    HandshakeInv p s' := by
  obtain ⟨_, hwindow, hsyns⟩ := tcpSendSyn_spec { s with retries := tcpRetryTimes }
  unfold tcpConnect at hs
  simp only at hs
  split_ifs at hs with hret
  · rw [Prod.mk.injEq] at hs
    omega
  · obtain ⟨_, rfl⟩ := Prod.mk.inj hs
    refine ⟨by simp, ?_, fun _ => hsyns ?_, by simp, by simp⟩
    · rw [hwindow]
      exact hu.window
    · show SynsAre _ s.sent s.ackQueue
      rw [hu.sent, hu.ackQueue]
      exact synsAre_nil _

omit h in
theorem handshakeInv_listen (hu : Unused s) (hs : s.status = .listen) : HandshakeInv p s := by
  refine ⟨by simp [hs], hu.window, by simp [hs], fun _ => ?_, by simp [hs]⟩
  rw [hu.sent, hu.ackQueue]
  exact synsAre_nil _

/-- The timer repeats the SYN or gives up. -/
theorem HandshakeInv.timerSynSent (hs : s.status = .synSent) :
    HandshakeInv p (Tcp.timerSwitch s) := by
  have hretry : HandshakeInv p
      { s with retries := s.retries - 1, timeout := s.ticks.setWidth 16 } :=
    h.still fun n => .of_eq rfl rfl rfl rfl rfl rfl
  have hsend := hretry.tcpSendSyn hs
  have hmod := hsend.still fun n => still_modTimer n _ 20
  unfold Tcp.timerSwitch
  split
  case h_2 =>
    simp only
    split_ifs
    · exact .of_closed rfl hsend.window
    · exact .of_closed rfl hmod.window
    · exact hmod
    · exact .of_closed rfl h.window
  all_goals simp_all

/-- The timer gives a half-open connection up after a while. -/
theorem HandshakeInv.timerSynRcvd (hs : s.status = .synRcvd) :
    HandshakeInv p (Tcp.timerSwitch s) := by
  have hpassive := h.passive (Or.inr hs)
  unfold Tcp.timerSwitch
  split
  case h_1 =>
    refine HandshakeInv.still ?_ fun n => still_modTimer n _ 1
    split_ifs
    · exact ⟨by simp, h.window, by simp, fun _ => hpassive, by simp⟩
    · exact h
  all_goals simp_all

theorem HandshakeInv.timerSwitch (hne : s.status ≠ .established) :
    HandshakeInv p (Tcp.timerSwitch s) := by
  rcases h.status with hs | hs | hs | hs | hs
  · rw [Tcp.timerSwitch, hs]
    exact h
  · rw [Tcp.timerSwitch, hs]
    exact h
  · exact h.timerSynSent hs
  · exact h.timerSynRcvd hs
  · exact absurd hs hne

theorem HandshakeInv.tcpTimerEntry (hne : s.status ≠ .established) :
    HandshakeInv p (Tcp.tcpTimerEntry s) := by
  have hstill := fun n => still_sendDelayedAck n s
  exact (h.still hstill).timerSwitch ((hstill 0).status.trans_ne hne)

omit h in
/-- A SYN is answered with the number `0x1234`. -/
theorem tcpConnectRequestHandler_spec (s : Sock) (skb : SkBuff) :
    (tcpConnectRequestHandler mss s skb).1 = 0 ∧
    (tcpConnectRequestHandler mss s skb).2.sendSeq = 0x1234 ∧
    (tcpConnectRequestHandler mss s skb).2.ackSeq = skb.seq + 1 ∧
    (NoData s.sendWindow → NoData (tcpConnectRequestHandler mss s skb).2.sendWindow) ∧
    (SynsAre 0x1234 s.sent s.ackQueue →
      SynsAre 0x1234 (tcpConnectRequestHandler mss s skb).2.sent
        (tcpConnectRequestHandler mss s skb).2.ackQueue) := by
  have hmss := still_setMss mss 0x1234
    { s with receivedAck := 0, sendSeq := 0x1234, ackSeq := skb.seq + 1 }
  unfold tcpConnectRequestHandler
  simp only
  generalize hs1 : setMss mss
    { s with receivedAck := 0, sendSeq := 0x1234, ackSeq := skb.seq + 1 } = s1 at hmss
  have hack := still_tcpSendAck (n := 0x1234)
    { s1 with
      sendWindow := { s1.sendWindow with totSize := skb.window.setWidth 32 }
      timer := some 3
      timeout := s1.ticks.setWidth 16 } s1.sendSeq s1.ackSeq false false
    (fun _ : true = true => hmss.sendSeq)
  refine ⟨trivial, hack.sendSeq.trans hmss.sendSeq, hack.ackSeq.trans hmss.ackSeq, fun hw => ?_,
    fun hn => hack.syns (hmss.syns hn)⟩
  rw [hack.sendWindow, hmss.sendWindow]
  exact ⟨hw.used, hw.lists, hw.ghosts⟩

theorem HandshakeInv.receiveListen (hs : s.status = .listen) (hsyn : skb.syn = true)
    (hisn : skb.seq = p) : HandshakeInv p (Tcp.receiveListen mss s skb).2 := by
  obtain ⟨hret, hsendSeq, hackSeq, hwindow, hsyns⟩ := tcpConnectRequestHandler_spec mss s skb
  unfold Tcp.receiveListen
  simp only [hsyn, if_true, hret]
  split_ifs
  · exact h
  · exact ⟨by simp, hwindow h.window, by simp, fun _ => hsyns (h.passive (Or.inl hs)),
      fun _ => ⟨hsendSeq, by rw [← hisn]; exact hackSeq⟩⟩

theorem HandshakeInv.receiveSynRcvd
    (hs : s.status = .synRcvd) : HandshakeInv p (Tcp.receiveSynRcvd s skb).2 := by
  have hstill := h.still fun n => still_tcpAckHandler n skb (Or.inr hs) h.window.lists.2.2
  unfold Tcp.receiveSynRcvd
  split_ifs
  · exact hstill
  · exact .of_established rfl hstill.window

omit h in
/-- `SYN_SENT` with SYN and ACK: the numbers come from the segment, and `complete_establish`
adds one to `send_seq`. -/
theorem receiveSynSent_spec (hs : s.status = .synSent) (hw : NoData s.sendWindow)
    (hrst : skb.rst = false) (hsyn : skb.syn = true) (hack : skb.ack = true) :
    (receiveSynSent mss s skb).2.status = .established ∧
    (receiveSynSent mss s skb).2.sendSeq = skb.ackSeq + 1 ∧
    NoData (receiveSynSent mss s skb).2.sendWindow := by
  have h1 := still_tcpAckHandler 0 skb (Or.inl hs) hw.lists.2.2
  unfold receiveSynSent
  simp only [hrst, hsyn, hack, Bool.false_eq_true, if_false, Bool.not_true, Bool.or_self]
  generalize Tcp.tcpAckHandler s skb = s1 at h1
  have h2 := still_tcpSendAck (n := 0) { s1 with sendSeq := skb.ackSeq, ackSeq := skb.seq + 1 }
    skb.ackSeq (skb.seq + 1) false true (fun h : false = true => absurd h (by decide))
  have h3 := h2.trans (still_setMss mss 0 _)
  refine ⟨rfl, ?_, ?_⟩
  · show _ + 1 = _
    rw [h3.sendSeq]
  · show NoData (setMss mss _).sendWindow
    rw [h3.sendWindow]
    show NoData s1.sendWindow
    rw [h1.sendWindow]
    exact hw

theorem HandshakeInv.receiveSynSent (hs : s.status = .synSent) :
    HandshakeInv p (Tcp.receiveSynSent mss s skb).2 := by
  by_cases hrst : skb.rst = true
  · rw [Tcp.receiveSynSent, if_pos hrst]
    exact .of_closed rfl h.window
  · by_cases hboth : skb.syn = true ∧ skb.ack = true
    · obtain ⟨hstatus, _, hwindow⟩ :=
        receiveSynSent_spec mss hs h.window (by simpa using hrst) hboth.1 hboth.2
      exact .of_established hstatus hwindow
    · rw [Tcp.receiveSynSent, if_neg hrst, if_pos]
      · exact h
      · simpa [Bool.or_eq_true, imp_iff_not_or] using hboth

end

/-! ## Runs -/

section

variable {mss}

theorem tcpReceive_synSent (hs : s.status = .synSent) :
    tcpReceive mss s skb = receiveSynSent mss s skb := by
  rw [tcpReceive, receiveSwitch, hs]
  rw [receiveHandshake, hs]

theorem tcpReceive_synRcvd (hs : s.status = .synRcvd) :
    tcpReceive mss s skb = receiveSynRcvd s skb := by
  rw [tcpReceive, receiveSwitch, hs]
  rw [receiveHandshake, hs]

theorem tcpReceive_listen (hs : s.status = .listen) :
    tcpReceive mss s skb = receiveListen mss s skb := by
  rw [tcpReceive, receiveSwitch, hs]
  rw [receiveHandshake, hs]

theorem tcpReceive_closed (hs : s.status = .closed) :
    tcpReceive mss s skb = (0, s) := by
  rw [tcpReceive, receiveSwitch, hs]

end

theorem HandshakeInv.tcpReceive (h : HandshakeInv p s) (hne : s.status ≠ .established)
    (hc : Conforms p s skb) : HandshakeInv p (Tcp.tcpReceive mss s skb).2 := by
  rcases h.status with hs | hs | hs | hs | hs
  · rw [tcpReceive_closed hs]
    exact h
  · rw [tcpReceive_listen hs]
    have hfound := hc.found
    rw [if_pos hs] at hfound
    exact h.receiveListen mss hs hfound.1 (hc.isn hfound.1)
  · rw [tcpReceive_synSent hs]
    exact h.receiveSynSent mss hs
  · rw [tcpReceive_synRcvd hs]
    exact h.receiveSynRcvd hs
  · exact absurd hs hne

/-- **Run.** -/
theorem Connecting.inv (h : Connecting p s) : HandshakeInv p s := by
  induction h with
  | connect hu _ hs => exact handshakeInv_tcpConnect hu hs
  | listen hu hs => exact handshakeInv_listen hu hs
  | @timer s ticks answers _ hne ih =>
    have hstill : HandshakeInv p { s with ticks := ticks, answers := answers } :=
      ih.still fun n => .of_eq rfl rfl rfl rfl rfl rfl
    exact hstill.tcpTimerEntry hne
  | @arrive s skb mss answers _ hne hc ih =>
    have hstill : HandshakeInv p { s with answers := answers } :=
      ih.still fun n => .of_eq rfl rfl rfl rfl rfl rfl
    exact hstill.tcpReceive mss hne ⟨hc.found, hc.isn, hc.acks⟩

/-- The first segment that is made carries `send_seq`, and it is swapped once on its way. -/
theorem first_of_opened (ho : Opened s) {buf : List Byte} {answers : List ℤ} {ret : ℤ}
    (hlen : buf.length < 2 ^ 31)
    (hsend : tcpSend { s with answers := answers } buf (BitVec.ofNat 32 buf.length) =
      some (ret, s')) {seg : TcpSeg} (hseg : seg ∈ s'.sendWindow.made.head?) :
    seg.sendSeq = s.sendSeq := by
  have hled : Ledger s s' :=
    (ho.ledger.apply (e := .send buf answers) hlen hsend).1
  have hchain := hled.chain
  cases hmade : s'.sendWindow.made with
  | nil => rw [hmade] at hseg; cases hseg
  | cons t ts =>
    rw [hmade] at hseg hchain
    obtain rfl := Option.some.inj hseg
    exact hchain.1

/-- On the passive path the numbers agree. -/
theorem agreed_synRcvd (h : HandshakeInv p s) (hs : s.status = .synRcvd) (hc : Conforms p s skb)
    (hsyn : skb.syn = false) : Agreed p skb (receiveSynRcvd s skb).2 := by
  have hstill := still_tcpAckHandler 0x1234 skb (Or.inr hs) h.window.lists.2.2
  obtain ⟨hsendSeq, hackSeq⟩ := h.numbers hs
  have hfound := hc.found
  rw [if_neg (by simp [hs])] at hfound
  obtain ⟨w, hw, hackw⟩ := hc.acks hfound
  rw [(h.passive (Or.inr hs)).sent w hw] at hackw
  have heq : (receiveSynRcvd s skb).2 =
      completeEstablish { tcpAckHandler s skb with status := .established } := by
    rw [receiveSynRcvd]
    simp [hsyn]
  have hseq : (receiveSynRcvd s skb).2.sendSeq = skb.ackSeq := by
    rw [heq, hackw]
    show (tcpAckHandler s skb).sendSeq + 1 = _
    rw [hstill.sendSeq, hsendSeq]
  refine ⟨hseq, ?_, ?_⟩
  · rw [heq]
    show (tcpAckHandler s skb).ackSeq = _
    rw [hstill.ackSeq, hackSeq]
  · intro buf answers ret s' hlen hsend seg hseg big source dest
    have ho : Opened (receiveSynRcvd s skb).2 := by
      rw [heq]
      have hw : NoData (tcpAckHandler s skb).sendWindow := by
        rw [hstill.sendWindow]
        exact h.window
      exact ⟨rfl, hw.used, hw.lists, hw.ghosts⟩
    rw [wireSeq_tcpBuildHeader, first_of_opened ho hlen hsend hseg, hseq]

/-- On the active path `send_seq` is one too high. -/
theorem not_agreed_synSent (h : HandshakeInv p s) (hs : s.status = .synSent)
    (hest : (receiveSynSent mss s skb).2.status = .established) :
    ¬ Agreed p skb (receiveSynSent mss s skb).2 := by
  have hrst : skb.rst = false := by
    by_contra hrst
    rw [receiveSynSent, if_pos (by simpa using hrst)] at hest
    cases hest
  have hboth : skb.syn = true ∧ skb.ack = true := by
    by_contra hboth
    rw [receiveSynSent, if_neg (by simp [hrst]),
      if_pos (by simpa [Bool.or_eq_true, imp_iff_not_or] using hboth), hs] at hest
    cases hest
  obtain ⟨_, hseq, _⟩ := receiveSynSent_spec mss hs h.window hrst hboth.1 hboth.2
  intro hagreed
  have hone : skb.ackSeq + 1 = skb.ackSeq := hseq.symm.trans hagreed.sendSeq
  simp at hone

/-- A listening socket is not connected by its first segment. -/
theorem receiveListen_status (skb : SkBuff) (hs : s.status = .listen) :
    (receiveListen mss s skb).2.status ≠ .established := by
  have hret := (tcpConnectRequestHandler_spec mss s skb).1
  unfold receiveListen
  by_cases hdrop : (skb.rst || skb.ack) = true
  · rw [if_pos hdrop, hs]
    decide
  · rw [if_neg hdrop]
    cases skb.syn <;> simp [hret]

theorem agreed_iff_synRcvd (h : HandshakeInv p s) (hne : s.status ≠ .established)
    (hc : Conforms p s skb) (hest : (tcpReceive mss s skb).2.status = .established) :
    Agreed p skb (tcpReceive mss s skb).2 ↔ s.status = .synRcvd := by
  rcases h.status with hs | hs | hs | hs | hs
  · rw [tcpReceive_closed hs, hs] at hest
    cases hest
  · rw [tcpReceive_listen hs] at hest
    exact absurd hest (receiveListen_status mss skb hs)
  · rw [tcpReceive_synSent hs] at hest ⊢
    have hnot := not_agreed_synSent mss h hs hest
    exact iff_of_false hnot (by rw [hs]; decide)
  · rw [tcpReceive_synRcvd hs] at hest ⊢
    have hsyn : skb.syn = false := by
      by_contra hsyn
      have hstill := still_tcpAckHandler 0 skb (Or.inr hs) h.window.lists.2.2
      rw [receiveSynRcvd] at hest
      simp only [hsyn, if_true, hstill.status, hs] at hest
      cases hest
    exact iff_of_true (agreed_synRcvd h hs hc hsyn) hs
  · exact absurd hs hne

end

/-- **Handshake agreement.**  Whenever a segment of a conforming peer connects a socket, the
two sides agree on the numbers exactly when the socket was in `SYN_RCVD`. -/
theorem handshake_agrees_iff (p : BitVec 32) (s : Sock) (skb : SkBuff)
    (mss : Option (BitVec 16)) (answers : List ℤ) (h : Connecting p s)
    (hne : s.status ≠ .established) (hc : Conforms p s skb)
    (hest : (tcpReceive mss { s with answers := answers } skb).2.status = .established) :
    Agreed p skb (tcpReceive mss { s with answers := answers } skb).2 ↔ s.status = .synRcvd := by
  have hinv : HandshakeInv p { s with answers := answers } :=
    h.inv.still fun n => .of_eq rfl rfl rfl rfl rfl rfl
  exact agreed_iff_synRcvd mss hinv hne ⟨hc.found, hc.isn, hc.acks⟩ hest

/-- A new socket. -/
def newSock : Sock := { blankSock with status := .closed }

/-- A new socket that listens. -/
def listeningSock : Sock := { blankSock with status := .listen, listening := true }

theorem unused_newSock : Unused newSock := ⟨⟨rfl, ⟨rfl, rfl, rfl⟩, ⟨rfl, rfl, rfl⟩⟩, rfl, rfl⟩

theorem unused_listeningSock : Unused listeningSock :=
  ⟨⟨rfl, ⟨rfl, rfl, rfl⟩, ⟨rfl, rfl, rfl⟩⟩, rfl, rfl⟩

/-- A segment of the peer with the flags `syn` and `ack`. -/
def peerSegment (seq ackSeq : BitVec 32) (syn ack : Bool) : SkBuff :=
  { ackOf ackSeq 1000 with seq := seq, syn := syn, ack := ack }

/-- The listening socket after the SYN with number 7 and the timer that sends the answer. -/
def halfOpenSock : Sock :=
  tcpTimerEntry (tcpReceive (some 1460) listeningSock (peerSegment 7 0 true false)).2

theorem connecting_halfOpenSock : Connecting 7 halfOpenSock := by
  have hsyn : Conforms 7 listeningSock (peerSegment 7 0 true false) :=
    ⟨by decide, fun _ => rfl, fun h => absurd h (by decide)⟩
  have harrive := (Connecting.listen unused_listeningSock rfl).arrive (some 1460) [] (by decide)
    hsyn
  exact harrive.timer 0 [] (by decide)

/-- The passive path, from the SYN to the acknowledgement of `0x1234 + 1`. -/
theorem handshake_agrees_iff_passive : halfOpenSock.status = .synRcvd ∧
    Agreed 7 (peerSegment 8 0x1235 false true)
      (tcpReceive none halfOpenSock (peerSegment 8 0x1235 false true)).2 := by
  have hstatus : halfOpenSock.status = .synRcvd := by decide +kernel
  have hack : Conforms 7 halfOpenSock (peerSegment 8 0x1235 false true) :=
    ⟨by decide +kernel, fun h => absurd h (by decide), fun _ => ⟨0x1234, by decide +kernel, rfl⟩⟩
  exact ⟨hstatus, (handshake_agrees_iff 7 halfOpenSock _ none [] connecting_halfOpenSock
    (by rw [hstatus]; decide) hack (by decide +kernel)).mpr hstatus⟩

/-- The socket after `tcp_connect`. -/
def connectingSock : Sock := (tcpConnect newSock).2

/-- The active path: the SYN goes out with the number `0x34120000`, a peer that acknowledges it
expects `0x34120001` next, and `send_seq` ends up at `0x34120002`. -/
theorem active_path_one_off : Connecting 7 connectingSock ∧
    Conforms 7 connectingSock (peerSegment 7 0x34120001 true true) ∧
    (tcpReceive none connectingSock (peerSegment 7 0x34120001 true true)).2.status =
      .established ∧
    (tcpReceive none connectingSock (peerSegment 7 0x34120001 true true)).2.sendSeq =
      0x34120002 ∧
    ¬ Agreed 7 (peerSegment 7 0x34120001 true true)
      (tcpReceive none connectingSock (peerSegment 7 0x34120001 true true)).2 := by
  have hseq : (tcpReceive none connectingSock (peerSegment 7 0x34120001 true true)).2.sendSeq =
      0x34120002 := by decide +kernel
  refine ⟨.connect unused_newSock rfl (by decide +kernel), ?_, by decide +kernel, hseq, ?_⟩
  · exact ⟨by decide +kernel, fun _ => rfl, fun _ => ⟨0x34120000, by decide +kernel, rfl⟩⟩
  · intro h
    have heq := hseq.symm.trans h.sendSeq
    exact absurd heq (by decide)

end Tcp

end Yap
