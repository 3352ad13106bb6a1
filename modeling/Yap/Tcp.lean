/-
# TCP sockets: receiving, acknowledging, timing (`net/inet/tcp.c`)

The part of a TCP socket that data segments, acknowledgements and the timer work
on: the receive queue with `read_ptr` and `recv_data_len`, the expected sequence
number `ack_seq`, the queue of delayed acknowledgements and the send window.

Multi-byte header fields are in host order: every reader goes through `ntohl` or
`ntohs` first.  Calls whose result depends on the rest of the kernel
(`alloc_skbuff`, `ip_send`, `tcp_send_seg`) take it from the list `answers`, so that
a statement about all sockets is a statement about all such results; a negative
answer is a failure.
-/
import Yap.Bytes
import Yap.Headers
import Yap.IrqMask
import Mathlib

namespace Yap

namespace Tcp

/-- `enum { CLOSED, LISTEN, ... }`, the values of `isk->status`. -/
inductive Status : Type where
  | closed | listen | synSent | synRcvd | established | finWait1 | finWait2 | closeWait
  | closing | lastAck | timeWait
  deriving DecidableEq, Repr

/-- `SIZEOF_IPHDR`. -/
def sizeofIphdr : BitVec 16 := 20

def tcpRetryTimes : BitVec 16 := 10
def synRcvdHoldingTime : BitVec 32 := 1000
def tcpFinWaitTime : BitVec 32 := 500

/-- A received segment: the header fields that are read, and the bytes after the
TCP header. -/
structure SkBuff where
  totLen : BitVec 16
  doff : BitVec 4
  seq : BitVec 32
  ackSeq : BitVec 32
  window : BitVec 16
  fin : Bool
  syn : Bool
  rst : Bool
  ack : Bool
  urg : Bool
  body : List Byte
  /-- ghost: position of `body` in the peer's stream; no function reads it -/
  off : ℕ
  deriving DecidableEq, Repr

/-- A segment to be sent, `struct tcp_seg`. -/
structure TcpSeg where
  /-- the address of the buffer -/
  addr : ℕ
  /-- what the buffer holds -/
  data : List Byte
  sendSeq : BitVec 32
  len : BitVec 16
  expectedAck : BitVec 32
  deriving DecidableEq, Repr

/-- `struct sliding_window`. -/
structure SlidingWindow where
  totSize : BitVec 32
  usedSize : BitVec 32
  wait : List TcpSeg
  ready : List TcpSeg
  waitAck : List TcpSeg
  /-- ghost: the segments made so far, oldest first -/
  made : List TcpSeg := []
  /-- ghost: the segments given to `free_tcp_seg` -/
  freed : List TcpSeg := []
  /-- ghost: `used_size` after each move to `ready` -/
  moves : List (BitVec 32) := []
  deriving DecidableEq, Repr

/-- An acknowledgement as `tcp_send_ack` builds it. -/
structure Ack where
  seq : BitVec 32
  ackSeq : BitVec 32
  window : BitVec 16
  syn : Bool
  fin : Bool
  deriving DecidableEq, Repr

/-- What has been handed to `ip_send`. -/
inductive Out : Type where
  | ack (a : Ack) : Out
  | syn (seq : BitVec 32) : Out
  | seg (s : TcpSeg) : Out
  deriving DecidableEq, Repr

/-- `struct i_socket`, with the globals its functions use. -/
structure Sock where
  status : Status
  errno : ℤ
  flags : BitVec 32
  /-- `recv_data_head`, first to last -/
  recvData : List SkBuff
  recvDataLen : BitVec 32
  readPtr : BitVec 16
  ackSeq : BitVec 32
  sendSeq : BitVec 32
  receivedAck : BitVec 32
  ackQueue : List Ack
  ackBacklog : BitVec 8
  maxAckBacklog : BitVec 8
  /-- zero until an option of the peer gives it -/
  mss : BitVec 16 := 0
  window : BitVec 16
  sendWindow : SlidingWindow
  timeout : BitVec 16
  retries : BitVec 16
  /-- `isk->timer.expires` while the timer is on the timer list -/
  timer : Option (BitVec 32)
  /-- whether the socket has been moved back to `listen_queue` -/
  listening : Bool
  /-- whether `free_isock` has been called -/
  freed : Bool
  sent : List Out
  /-- `OS_Get_Kernel_Ticks()` -/
  ticks : BitVec 32
  cpu : IrqMask.Cpu
  answers : List ℤ
  deriving DecidableEq, Repr

namespace Sock

/-- The next result from outside; `0` once the list is used up. -/
def ask (s : Sock) : ℤ × Sock :=
  match s.answers with
  | [] => (0, s)
  | a :: as => (a, { s with answers := as })

/-- `enter_critical()`. -/
def enterCritical (s : Sock) : Sock := { s with cpu := s.cpu.enterCritical }

/-- `exit_critical()`. -/
def exitCritical (s : Sock) : Sock := { s with cpu := s.cpu.exitCritical }

/-- `mod_timer(&isk->timer, expires)`. -/
def modTimer (s : Sock) (expires : BitVec 32) : ℤ × Sock :=
  match s.timer with
  | none => (-1, s)
  | some _ => (0, { s with timer := some expires })

/-- `del_timer(&isk->timer)`. -/
def delTimer (s : Sock) : Sock := { s with timer := none }

/-- A socket in memory that `kmalloc` has cleared. -/
def zero : Sock where
  status := .closed
  errno := 0
  flags := 0
  recvData := []
  recvDataLen := 0
  readPtr := 0
  ackSeq := 0
  sendSeq := 0
  receivedAck := 0
  ackQueue := []
  ackBacklog := 0
  maxAckBacklog := 0
  window := 0
  sendWindow := { totSize := 0, usedSize := 0, wait := [], ready := [], waitAck := [] }
  timeout := 0
  retries := 0
  timer := none
  listening := false
  freed := false
  sent := []
  ticks := 0
  cpu := ⟨0, 0, 0⟩
  answers := []

end Sock

/-! ## Sending acknowledgements -/

/-- `tcp_select_window`, called by `tcp_build_header`. -/
def tcpSelectWindow (s : Sock) : Sock :=
  if s.window = 0 then { s with window := 4096 }
  else if s.window < 40960 then { s with window := s.window + 4096 }
  else s

/-- `tcp_send_ack(isk, tcph, seq, ack_seq, syn, fin, now)`. -/
def tcpSendAck (s : Sock) (seq ackSeq : BitVec 32) (syn fin now : Bool) : ℤ × Sock :=
  let (skb, s) := s.ask
  if skb < 0 then (-ENOMEM, s)
  else
    let s := tcpSelectWindow s
    let ack : Ack := { seq := seq, ackSeq := ackSeq, window := s.window, syn := syn, fin := fin }
    if now then
      let (ret, s) := s.ask
      (ret, { s with sent := s.sent ++ [Out.ack ack] })
    else (0, { s with ackQueue := s.ackQueue ++ [ack], ackBacklog := s.ackBacklog + 1 })

/-! ## The timer -/

/-- `tcp_if_timeout(isk, time)`. -/
def tcpIfTimeout (s : Sock) (time : BitVec 32) : Bool :=
  decide (time < (s.ticks - s.timeout.setWidth 32) * 100)

/-- First loop of `tcp_process_send_window`: from `wait` to `ready` as long as the
window has room. -/
def fillReady : List TcpSeg → SlidingWindow → SlidingWindow
  | [], w => { w with wait := [] }
  | seg :: rest, w =>
    if w.totSize - w.usedSize ≥ seg.len.setWidth 32 then
      fillReady rest { w with
        ready := w.ready ++ [seg]
        usedSize := w.usedSize + seg.len.setWidth 32
        moves := w.moves ++ [w.usedSize + seg.len.setWidth 32] }
    else { w with wait := seg :: rest }

/-- Second loop of `tcp_process_send_window`: transmit until `tcp_send_seg` fails. -/
def sendReady : List TcpSeg → Sock → Sock
  | [], s => { s with sendWindow := { s.sendWindow with ready := [] } }
  | seg :: rest, s =>
    let (ret, s) := s.ask
    if ret < 0 then { s with sendWindow := { s.sendWindow with ready := seg :: rest } }
    else
      let w := { s.sendWindow with waitAck := s.sendWindow.waitAck ++ [seg] }
      sendReady rest { s with sendWindow := w, sent := s.sent ++ [.seg seg] }

/-- `tcp_process_send_window`. -/
def tcpProcessSendWindow (s : Sock) : Sock :=
  -- `TCP_SEG_TIMEOUT_FLAG`
  if s.flags.getLsbD 0 then s
  else
    let s := { s with sendWindow := fillReady s.sendWindow.wait s.sendWindow }
    sendReady s.sendWindow.ready s

/-- `tcp_send_syn`; `tcp_generate_a_seq` returns `0x1234`. -/
def tcpSendSyn (s : Sock) : ℤ × Sock :=
  let (skb, s) := s.ask
  if skb < 0 then (-ENOMEM, s)
  else
    let s := { s with sendSeq := 0x1234 }
    let s := tcpSelectWindow s
    let (ret, s) := s.ask
    -- `tcp_build_header` swaps `htonl(seq)` once more
    (ret, { s with sent := s.sent ++ [.syn 0x34120000] })

/-- First part of `tcp_timer_entry`: send the oldest delayed acknowledgement. -/
def sendDelayedAck (s : Sock) : Sock :=
  match s.ackQueue with
  | [] => s
  | a :: as =>
    let s := { s with ackQueue := as, ackBacklog := s.ackBacklog - 1 }
    { s.ask.2 with sent := s.sent ++ [Out.ack a] }

/-- Second part of `tcp_timer_entry`: what is due in the present status. -/
def timerSwitch (s : Sock) : Sock :=
  match s.status with
  | .synRcvd =>
    let s := if tcpIfTimeout s synRcvdHoldingTime
      then { s.delTimer with status := .listen, listening := true } else s
    (s.modTimer 1).2
  | .synSent =>
    if s.retries ≠ 0 then
      let s := { s with retries := s.retries - 1, timeout := s.ticks.setWidth 16 }
      let (ret, s) := tcpSendSyn s
      if ret < 0 then { s.delTimer with status := .closed, errno := ret }
      else
        let (ret, s) := s.modTimer 20
        if ret < 0 then { s.delTimer with status := .closed, errno := ret } else s
    else { s.delTimer with errno := -ETIMEDOUT, status := .closed }
  | .established => ((tcpProcessSendWindow s).modTimer 1).2
  | .finWait1 | .closing | .lastAck =>
    let s := if tcpIfTimeout s tcpFinWaitTime then
        if s.retries = 0 then { s with errno := -ETIMEDOUT, status := .closed, freed := true }
        -- `tcp_send_fin` is a stub that returns 0
        else { s with retries := s.retries - 1, timeout := s.ticks.setWidth 16 }
      else s
    (s.modTimer 1).2
  | .timeWait => ({ s with errno := 0, status := .closed, freed := true }.modTimer 1).2
  | .closed | .listen | .finWait2 | .closeWait => s

/-- `tcp_timer_entry`. -/
def tcpTimerEntry (s : Sock) : Sock := timerSwitch (sendDelayedAck s)

/-- `while (!list_empty(&isk->ack_queue)) tcp_timer_entry(isk);`, for a queue of
length `n`. -/
def drainAcks : ℕ → Sock → Sock
  | 0, s => s
  | n + 1, s => if s.ackQueue = [] then s else drainAcks n (tcpTimerEntry s)

/-! ## Sorting a data segment into the queue -/

/-- `tcp_get_data_lenght`: an `unsigned short`. -/
def tcpGetDataLenght (skb : SkBuff) : BitVec 16 :=
  skb.totLen - sizeofIphdr - skb.doff.setWidth 16 * 4

/-- `tcp_get_ackseq`: the `int` length is not truncated to 16 bits. -/
def tcpGetAckseq (skb : SkBuff) : BitVec 32 :=
  skb.seq + (skb.totLen.setWidth 32 - sizeofIphdr.setWidth 32 - skb.doff.setWidth 32 * 4)

/-- The backward search of `tcp_seg_sort`: `front` is what is still to be looked at,
last segment first, `back` what has been passed.  `none` when the sequence number is
queued already. -/
def findSlot (seq : BitVec 32) : List SkBuff → List SkBuff → Option (List SkBuff × List SkBuff)
  | [], back => some ([], back)
  | t :: front, back =>
    if t.seq < seq then some (t :: front, back)
    else if seq = t.seq then none
    else findSlot seq front (t :: back)

/-- The acknowledging loop of `tcp_seg_sort`, from the new segment on. -/
def ackLoop : List SkBuff → ℤ → Sock → ℤ × Sock
  | [], ret, s => (ret, s)
  | t :: rest, _, s =>
    if s.ackSeq ≠ t.seq then tcpSendAck s s.sendSeq s.ackSeq false false true
    else
      let s := { s with ackSeq := tcpGetAckseq t }
      let (ret, s) := tcpSendAck s s.sendSeq s.ackSeq false false false
      if ret < 0 then (ret, s) else ackLoop rest ret s

/-- Second half of `tcp_seg_sort`: acknowledge from the new segment on, and flush
the delayed acknowledgements when there are too many. -/
def acknowledge (ts : List SkBuff) (s : Sock) : ℤ × Sock :=
  let (ret, s) := ackLoop ts 0 s.enterCritical
  let s := s.exitCritical
  if s.ackBacklog ≥ s.maxAckBacklog
  then (ret, (drainAcks s.ackQueue.length s.enterCritical).exitCritical)
  else (ret, s)

/-- `tcp_seg_sort(isk, skb)`. -/
def tcpSegSort (s : Sock) (skb : SkBuff) : ℤ × Sock :=
  if skb.seq < s.ackSeq then (0, s)
  else
    let s := s.enterCritical
    match findSlot skb.seq s.recvData.reverse [] with
    -- the segment is there already: returns without `exit_critical`
    | none => (0, s)
    | some (front, back) =>
      let s := { s with
        recvData := front.reverse ++ skb :: back
        recvDataLen := s.recvDataLen + (tcpGetDataLenght skb).setWidth 32 }
      acknowledge (skb :: back) s.exitCritical

/-! ## The receive handler -/

/-- `list_for_each` over `wait_ack` in `tcp_ack_handler`. -/
def ackSegments (received : BitVec 32) (window : BitVec 16) :
    List TcpSeg → SlidingWindow → SlidingWindow
  | [], w => w
  | seg :: rest, w =>
    if seg.expectedAck ≤ received then
      ackSegments received window rest { w with
        waitAck := w.waitAck.erase seg
        usedSize := w.usedSize - seg.len.setWidth 32
        totSize := window.setWidth 32
        freed := w.freed ++ [seg] }
    else ackSegments received window rest w

/-- The switch of `tcp_ack_handler`: our FIN may be acknowledged. -/
def ackSwitch (s : Sock) (skb : SkBuff) : Sock :=
  match s.status with
  | .lastAck =>
    if skb.ackSeq = s.sendSeq + 1 then { s with errno := -ECONNRESET, status := .closed } else s
  | .finWait1 =>
    if skb.ackSeq = s.sendSeq + 1
    then { s with timeout := s.ticks.setWidth 16, status := .finWait2 } else s
  | _ => s

/-- `tcp_ack_handler(isk, tcph)`; always returns 0. -/
def tcpAckHandler (s : Sock) (skb : SkBuff) : Sock :=
  let s := ackSwitch s skb
  let s := if s.receivedAck < skb.ackSeq then { s with receivedAck := skb.ackSeq } else s
  let s := s.enterCritical
  let s := { s with flags := s.flags &&& ~~~1 }
  let w := ackSegments skb.ackSeq skb.window s.sendWindow.waitAck s.sendWindow
  { s with sendWindow := w }.exitCritical

/-- The switch of `tcp_fin_handler`. -/
def finSwitch (s : Sock) : Sock :=
  match s.status with
  | .established => { s with status := .closeWait }
  | .finWait1 | .finWait2 =>
    let s := { s with
      retries := tcpRetryTimes, status := .timeWait, timeout := s.ticks.setWidth 16 }
    let (ret, s) := s.modTimer 20
    if ret < 0 then { s with freed := true } else s
  | _ => s

/-- `tcp_fin_handler(isk, tcph)`; always returns 0. -/
def tcpFinHandler (s : Sock) (skb : SkBuff) : Sock :=
  finSwitch (tcpSendAck s s.receivedAck (skb.seq + 1) false false true).2

/-- The arm of `tcp_received_data_handler` for `ESTABLISHED`, `CLOSE_WAIT`,
`FIN_WAIT_1`, `FIN_WAIT_2` and `TIME_WAIT`. -/
def receiveConnected (s : Sock) (skb : SkBuff) : ℤ × Sock :=
  if skb.rst || skb.syn then (0, { s with errno := -ECONNRESET, status := .closed })
  else
    let s := if skb.ack then tcpAckHandler s skb else s
    -- `tcp_urg_handler` is a stub that returns 0
    if skb.fin then
      let s := tcpFinHandler s skb
      let s := { s with retries := tcpRetryTimes, timeout := s.ticks.setWidth 16 }
      let (_, s) := tcpSendAck s s.receivedAck (skb.seq + 1) false true true
      (0, { s with status := .lastAck })
    else if (tcpGetDataLenght skb).toNat > 0 then tcpSegSort s skb
    else (0, s)

/-- The queues of sockets, `active_queue` and `listen_queue`. -/
inductive SockQueue : Type where
  | active | listen
  deriving DecidableEq, Repr

/-- The queue in which `tcp_find_sock` looks for the socket of a segment. -/
def searchedQueue (syn ack : Bool) : Option SockQueue :=
  if (syn && ack) || (!syn && ack) then some .active
  else if syn then some .listen
  else none

@[simp] theorem searchedQueue_true (syn : Bool) : searchedQueue syn true = some .active := by
  cases syn <;> rfl

/-- The queue of the socket is the one that is searched. -/
def Finds (s : Sock) (skb : SkBuff) : Prop :=
  searchedQueue skb.syn skb.ack = some (if s.status = .listen then .listen else .active)

instance (s : Sock) (skb : SkBuff) : Decidable (Finds s skb) := inferInstanceAs (Decidable (_ = _))

theorem finds_iff {s : Sock} (hs : s.status ≠ .listen) (skb : SkBuff) :
    Finds s skb ↔ skb.ack = true := by
  rw [Finds, if_neg hs]
  cases skb.ack with
  | true => simp
  | false => cases skb.syn <;> simp [searchedQueue]

/-- The switch of `tcp_received_data_handler`.  The arms of `SYN_SENT`, `SYN_RCVD` and `LISTEN`
are the parameter `handshake`. -/
def receiveSwitch (handshake : Sock → SkBuff → ℤ × Sock) (s : Sock) (skb : SkBuff) : ℤ × Sock :=
  match s.status with
  | .lastAck => (0, tcpAckHandler s skb)
  | .established | .closeWait | .finWait1 | .finWait2 | .timeWait => receiveConnected s skb
  | .synSent | .synRcvd | .listen => handshake s skb
  | .closed | .closing => (0, s)

/-- `tcp_received_data_handler(skb)` for the socket with the addresses of the segment. -/
def tcpReceivedDataHandler (handshake : Sock → SkBuff → ℤ × Sock) (s : Sock) (skb : SkBuff) :
    ℤ × Sock :=
  if Finds s skb then receiveSwitch handshake s skb else (-ENOTSOCK, s)

/-! ## Reading -/

/-- The copy loop of `tcp_recv`: with `remain` bytes of room left, the bytes copied,
the queue, `read_ptr` and the room at the end. -/
def recvLoop : List SkBuff → BitVec 16 → ℕ → List Byte × List SkBuff × BitVec 16 × ℕ
  | [], readPtr, remain => ([], [], readPtr, remain)
  | skb :: rest, readPtr, remain =>
    let src := skb.body.drop readPtr.toNat
    let skbDataRemain := (tcpGetDataLenght skb - readPtr).toNat
    if skbDataRemain ≤ remain then
      let r := recvLoop rest 0 (remain - skbDataRemain)
      (src.take skbDataRemain ++ r.1, r.2)
    else (src.take remain, skb :: rest, readPtr + BitVec.ofNat 16 remain, 0)

/-- What a call of `tcp_recv` comes to: it waits, fails, or returns bytes. -/
inductive RecvResult : Type where
  | wait : RecvResult
  | err (e : ℤ) : RecvResult
  | data (bytes : List Byte) (s : Sock) : RecvResult

/-- `tcp_recv` after its `wait_event`. -/
def tcpRecvReady (s : Sock) (len : ℕ) : RecvResult :=
  if s.recvDataLen = 0 then .wait
  else if s.errno ≠ 0 then .err s.errno
  else
    let s := s.enterCritical
    let (bytes, queue, readPtr, remain) := recvLoop s.recvData s.readPtr len
    let s := { s with recvData := queue, readPtr := readPtr }.exitCritical
    .data bytes { s with recvDataLen := s.recvDataLen - BitVec.ofNat 32 (len - remain) }

/-- `tcp_recv(isk, ubuf, len, nonblock, flags)`, for a socket and a buffer that exist. -/
def tcpRecv (s : Sock) (len : ℕ) (nonblock : Bool) : RecvResult :=
  if nonblock && !s.recvData.isEmpty then .err (-EAGAIN) else tcpRecvReady s len

end Tcp

end Yap
