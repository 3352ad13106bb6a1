/-
# UDP sockets (`net/inet/udp.c`)

A datagram that arrives is queued on the first socket with its port.  `udp_recvfrom` waits for
the queue to be non-empty, copies from all that is queued, and empties the queue.

What a program expects of a datagram socket is the abstract machine of `Event.Good` and
`Event.dueAfter`: a call takes the oldest datagram that is due, whatever the size of the
buffer.  The code agrees with it in those runs in which every call finds one datagram, asks
for no more than its payload, and already has the sender's address in `*sin`.
-/
import Yap.Bytes
import Yap.Critical

namespace Yap

namespace Udp

open Critical List Function

/-- `struct sockaddr_in`. -/
structure SockaddrIn where
  sinAddr : BitVec 32
  sinPort : BitVec 16
  deriving DecidableEq, Repr

/-- A received frame with a UDP header.  `body` is the memory from `OFFSET_UDPDATA` on, which
does not end where the buffer does. -/
structure Frame extends Datagram where
  /-- `iph->saddr` and `udph->source` -/
  sender : SockaddrIn
  /-- `ntohs(udph->dest)` -/
  dest : BitVec 16
  /-- `ntohs(udph->len)` -/
  len : BitVec 16
  behind : dataLen.toNat ≤ body.length ∧ len.toNat ≤ body.length
  deriving DecidableEq, Repr

namespace Frame

/-- The number of bytes the sender put into the datagram. -/
def payloadLen (skb : Frame) : ℕ := skb.len.toNat - 8

def payload (skb : Frame) : List Byte := skb.body.take skb.payloadLen

end Frame

/-- The fields of a `struct i_socket` that UDP uses. -/
structure ISocket where
  localPort : BitVec 16
  flags : BitVec 32
  errno : ℤ
  /-- `recv_data_head`, first to last -/
  recvData : List Frame
  deriving DecidableEq, Repr

/-- `find_udp_use_local_port(port)`: the place of the socket in `udp_queue`. -/
def findUdpUseLocalPort {α : Type} (localPort : α → BitVec 16) (udpQueue : List α)
    (port : BitVec 16) : Option ℕ :=
  udpQueue.findIdx? fun isk => localPort isk = port

section

variable (udpQueue : List ISocket)

/-- `udp_recv_callback(skb)`. -/
def udpRecvCallback (skb : Frame) : ℤ × List ISocket :=
  match findUdpUseLocalPort ISocket.localPort udpQueue skb.dest with
  | none => (-ENETUNREACH, udpQueue)
  | some i => (0, udpQueue.modify i fun isk =>
    { isk with errno := 0, recvData := isk.recvData ++ [skb] })

/-- What a call of `udp_recvfrom` comes to: its result, the bytes in `ubuf`, `*sin`, and the
sockets. -/
structure Received where
  ret : ℤ
  bytes : List Byte
  sin : Option SockaddrIn
  udpQueue : List ISocket
  deriving DecidableEq, Repr

/-- `udp_recvfrom(isk, ubuf, len, noblock, flags, sin, addrlen)` on the socket at `i`; `none`
when it goes on waiting. -/
def udpRecvfrom (i : ℕ) (ubuf : Bool) (len : ℤ) (noblock : Bool)
    (sin : Option SockaddrIn) : Option Received :=
  match udpQueue[i]? with
  | none => some ⟨-9, [], sin, udpQueue⟩
  | some isk =>
    if ubuf = false then some ⟨-14, [], sin, udpQueue⟩
    else if sin = none then some ⟨-22, [], sin, udpQueue⟩
    -- `PACKET_RECVED`
    else if noblock && !isk.flags.getLsbD 0 then some ⟨-11, [], sin, udpQueue⟩
    else if isk.recvData = [] then none
    else
      let r := recvfromLoop (isk.recvData.map Frame.toDatagram) len
      some ⟨len - r.2, r.1, sin, udpQueue.set i { isk with recvData := [] }⟩

/-- What is queued on the socket at `i`. -/
def queueOf (i : ℕ) : List Frame :=
  match udpQueue[i]? with
  | none => []
  | some isk => isk.recvData

/-- A call that can go on to the queue, and finds something there. -/
def Ready (i : ℕ) (ubuf noblock : Bool) (sin : Option SockaddrIn) :
    Prop :=
  ∃ isk, udpQueue[i]? = some isk ∧ ubuf = true ∧ sin ≠ none ∧
    ¬ (noblock && !isk.flags.getLsbD 0) ∧ isk.recvData ≠ []

/-! ## Runs -/

/-- A datagram arrives, or a call is made for `len` bytes. -/
inductive Event : Type where
  | arrive (skb : Frame) : Event
  | recvfrom (i : ℕ) (ubuf : Bool) (len : ℕ) (noblock : Bool) (sin : Option SockaddrIn) : Event

namespace Event

def after : Event → List ISocket
  | arrive skb => (udpRecvCallback udpQueue skb).2
  | recvfrom i ubuf len noblock sin =>
    match udpRecvfrom udpQueue i ubuf len noblock sin with
    | none => udpQueue
    | some r => r.udpQueue

/-- With `due i` the datagrams that have arrived at the socket `i` and have not been returned:
what is due after the event. -/
def dueAfter (due : ℕ → List Frame) : Event → ℕ → List Frame
  | arrive skb =>
    match findUdpUseLocalPort ISocket.localPort udpQueue skb.dest with
    | none => due
    | some i => update due i (due i ++ [skb])
  | recvfrom i ubuf len noblock sin =>
    match udpRecvfrom udpQueue i ubuf len noblock sin with
    | none => due
    | some r => if r.ret < 0 then due else update due i (due i).tail

/-- A successful call returns the oldest datagram that is due, cut to the buffer, with its
sender, and leaves the others queued. -/
def Good (due : ℕ → List Frame) : Event → Prop
  | arrive _ => True
  | recvfrom i ubuf len noblock sin =>
    ∀ r ∈ udpRecvfrom udpQueue i ubuf len noblock sin, 0 ≤ r.ret →
      ∃ skb rest, due i = skb :: rest ∧ r.ret = (min len skb.payloadLen : ℕ) ∧
        r.bytes = skb.payload.take len ∧ r.sin = some skb.sender ∧
        queueOf r.udpQueue i = rest

/-- The call, if it succeeds, finds one datagram; the buffer is no longer than the payload or
`data_len` is its length; and `*sin` is the sender already. -/
def Meets : Event → Prop
  | arrive _ => True
  | recvfrom i ubuf len noblock sin => Ready udpQueue i ubuf noblock sin →
      ∃ skb, queueOf udpQueue i = [skb] ∧
        min len skb.dataLen.toNat = min len skb.payloadLen ∧ sin = some skb.sender

end Event

end

/-- Every call of the run is good. -/
def Boundaries : List Event → List ISocket → (ℕ → List Frame) → Prop
  | [], _, _ => True
  | e :: es, q, due => e.Good q due ∧ Boundaries es (e.after q) (e.dueAfter q due)

/-- Every call of the run meets the condition in the state before it. -/
def AllMeet : List Event → List ISocket → Prop
  | [], _ => True
  | e :: es, q => e.Meets q ∧ AllMeet es (e.after q)

/-! ## One call -/

section

variable {q : List ISocket} {due : ℕ → List Frame} {i len : ℕ} {ubuf noblock : Bool}
  {sin : Option SockaddrIn} {e : Event}

/-- One datagram in the queue: `data_len` bytes are copied if there is room, whatever the
payload. -/
theorem recvfromLoop_single (d : Datagram) (len : ℕ) : recvfromLoop [d] len =
    (d.body.take (min len d.dataLen.toNat), (len : ℤ) - (min len d.dataLen.toNat : ℕ)) := by
  unfold recvfromLoop recvfromLoop
  by_cases hfull : d.dataLen.toNat ≤ len
  · rw [if_pos (by omega), Nat.min_eq_right hfull]
    simp
  · rw [if_neg (by omega), Nat.min_eq_left (by omega)]
    split_ifs with hpos
    · simp
    · have hzero : len = 0 := by omega
      simp [hzero]

theorem recvfromLoop_snd_le (ds : List Datagram) {lenRemain : ℤ} (h : 0 ≤ lenRemain) :
    (recvfromLoop ds lenRemain).2 ≤ lenRemain := by
  induction ds generalizing lenRemain with
  | nil => exact le_rfl
  | cons d ds ih =>
    unfold recvfromLoop
    split_ifs with hfull hpos
    · have hrest : (recvfromLoop ds (lenRemain - d.dataLen.toNat)).2 ≤
          lenRemain - d.dataLen.toNat := ih (by omega)
      simp only
      omega
    · exact h
    · exact ih h

theorem queueOf_eq {isk : ISocket} (h : q[i]? = some isk) : queueOf q i = isk.recvData := by
  unfold queueOf
  rw [h]

theorem queueOf_set {isk : ISocket} (h : q[i]? = some isk) (isk' : ISocket) (j : ℕ) :
    queueOf (q.set i isk') j = if j = i then isk'.recvData else queueOf q j := by
  have hlt : i < q.length := (List.getElem?_eq_some_iff.mp h).1
  unfold queueOf
  split_ifs with hj
  · rw [hj, getElem?_set_self hlt]
  · rw [getElem?_set_ne (Ne.symm hj)]

theorem failed {ret : ℤ} (hret : ret < 0) (q : List ISocket) (sin : Option SockaddrIn) :
    ∀ r ∈ some (Received.mk ret [] sin q), r.ret < 0 ∧ r.udpQueue = q := by
  rintro r hr
  cases hr
  exact ⟨hret, rfl⟩

/-- A call that is not ready fails or waits; one that is ready empties the queue. -/
theorem udpRecvfrom_cases (q : List ISocket) (i len : ℕ) (ubuf noblock : Bool)
    (sin : Option SockaddrIn) :
    (¬ Ready q i ubuf noblock sin ∧
      ∀ r ∈ udpRecvfrom q i ubuf len noblock sin, r.ret < 0 ∧ r.udpQueue = q) ∨
    (Ready q i ubuf noblock sin ∧ ∃ isk, q[i]? = some isk ∧ isk.recvData ≠ [] ∧
      udpRecvfrom q i ubuf len noblock sin =
        some ⟨len - (recvfromLoop (isk.recvData.map Frame.toDatagram) len).2,
          (recvfromLoop (isk.recvData.map Frame.toDatagram) len).1, sin,
          q.set i { isk with recvData := [] }⟩) := by
  unfold udpRecvfrom
  cases hisk : q[i]? with
  | none =>
    left
    refine ⟨?_, ?_⟩
    · rintro ⟨isk, hsome, _⟩
      rw [hisk] at hsome
      cases hsome
    · exact failed (by decide) q sin
  | some isk =>
    have hready : Ready q i ubuf noblock sin ↔ ubuf = true ∧ sin ≠ none ∧
        ¬ (noblock && !isk.flags.getLsbD 0) ∧ isk.recvData ≠ [] := by
      unfold Ready
      rw [hisk]
      simp
    rw [hready]
    simp only
    split_ifs with h1 h2 h3 h4
    · left
      exact ⟨fun h => by simp [h1] at h, failed (by decide) q sin⟩
    · left
      exact ⟨fun h => h.2.1 h2, failed (by decide) q sin⟩
    · left
      exact ⟨fun h => h.2.2.1 h3, failed (by decide) q sin⟩
    · left
      refine ⟨fun h => h.2.2.2 h4, ?_⟩
      rintro r hr
      cases hr
    · right
      exact ⟨⟨by simpa using h1, h2, h3, h4⟩, isk, rfl, h4, rfl⟩

section

variable (hdue : ∀ i, queueOf q i = due i)

include hdue

/-- **One call.**  When what is due is what is queued, a call is good exactly when it meets the
condition. -/
theorem good_recvfrom_iff :
    (Event.recvfrom i ubuf len noblock sin).Good q due ↔
      (Event.recvfrom i ubuf len noblock sin).Meets q := by
  rw [Event.Good, Event.Meets]
  rcases udpRecvfrom_cases q i len ubuf noblock sin with
    ⟨hnot, hfail⟩ | ⟨hready, isk, hisk, _, heq⟩
  · refine ⟨fun _ h => absurd h hnot, fun _ r hr h0 => ?_⟩
    have := (hfail r hr).1
    omega
  · have hqueue : queueOf (q.set i { isk with recvData := [] }) i = [] := by
      rw [queueOf_set hisk, if_pos rfl]
    rw [heq, ← hdue, queueOf_eq hisk]
    constructor
    · intro hgood _
      have hret := recvfromLoop_snd_le (isk.recvData.map Frame.toDatagram) (Int.natCast_nonneg len)
      obtain ⟨skb, rest, hdata, hlen, _, hsin, hrest⟩ := hgood _ rfl (Int.sub_nonneg.mpr hret)
      rw [hqueue] at hrest
      subst hrest
      refine ⟨skb, hdata, ?_, hsin⟩
      simp only [hdata, map_cons, map_nil, recvfromLoop_single] at hlen
      omega
    · intro hmeets r hr _
      obtain ⟨skb, hdata, hlen, hsin⟩ := hmeets hready
      obtain rfl := Option.some.inj hr
      refine ⟨skb, [], hdata, ?_, ?_, hsin, hqueue⟩
      · simp only [hdata, map_cons, map_nil, recvfromLoop_single]
        omega
      · simp only [hdata, map_cons, map_nil, recvfromLoop_single]
        rw [Frame.payload, take_take, hlen]

/-- A call that succeeds was ready, and the other way round. -/
theorem dueAfter_recvfrom (hgood : (Event.recvfrom i ubuf len noblock sin).Good q due) (j : ℕ) :
    queueOf ((Event.recvfrom i ubuf len noblock sin).after q) j =
      (Event.recvfrom i ubuf len noblock sin).dueAfter q due j := by
  rw [Event.after, Event.dueAfter]
  cases hcall : udpRecvfrom q i ubuf len noblock sin with
  | none => exact hdue j
  | some r =>
    simp only
    rcases udpRecvfrom_cases q i len ubuf noblock sin with
      ⟨_, hfail⟩ | ⟨_, isk, hisk, _, heq⟩
    · obtain ⟨hneg, hq⟩ := hfail r hcall
      rw [if_pos hneg, hq]
      exact hdue j
    · have hret := recvfromLoop_snd_le (isk.recvData.map Frame.toDatagram)
        (Int.natCast_nonneg len)
      rw [hcall, Option.some.injEq] at heq
      have hnonneg : 0 ≤ r.ret := by
        rw [heq]
        exact Int.sub_nonneg.mpr hret
      obtain ⟨skb, rest, hdata, _, _, _, hrest⟩ := hgood r hcall hnonneg
      rw [if_neg (not_lt.mpr hnonneg)]
      by_cases hj : j = i
      · rw [hj, hrest, update_self, hdata, tail_cons]
      · rw [update_of_ne hj, heq, queueOf_set hisk, if_neg hj]
        exact hdue j

theorem dueAfter_arrive (skb : Frame) (j : ℕ) :
    queueOf ((Event.arrive skb).after q) j = (Event.arrive skb).dueAfter q due j := by
  rw [Event.after, Event.dueAfter, udpRecvCallback]
  cases hfind : findUdpUseLocalPort ISocket.localPort q skb.dest with
  | none => exact hdue j
  | some i =>
    have hlt : i < q.length := (findIdx?_eq_some_iff_getElem.mp hfind).1
    simp only [queueOf, getElem?_modify]
    by_cases hj : j = i
    · rw [hj, update_self, ← hdue, queueOf_eq (List.getElem?_eq_getElem hlt)]
      simp [hlt]
    · rw [update_of_ne hj, ← hdue, queueOf]
      simp [Ne.symm hj]

/-- **Run.**  What is due is what is queued as long as every call is good. -/
theorem boundaries_iff {es : List Event} :
    Boundaries es q due ↔ AllMeet es q := by
  induction es generalizing q due with
  | nil => exact Iff.rfl
  | cons e es ih =>
    rw [Boundaries, AllMeet]
    cases e with
    | arrive skb => exact and_congr Iff.rfl (ih (dueAfter_arrive hdue skb))
    | recvfrom i ubuf len noblock sin =>
      rw [← good_recvfrom_iff hdue]
      exact and_congr_right fun hgood => ih (dueAfter_recvfrom hdue hgood)

end

end

/-- **Datagram boundaries.**  On sockets with empty queues, every successful call of a run
returns its own datagram, cut to the buffer, with its sender, and leaves the later ones
queued, exactly when every call that succeeds finds just one datagram, of which `data_len` and
the payload give the same number of bytes for this buffer, and has the sender in `*sin`. -/
theorem datagram_boundaries_iff (es : List Event) (q : List ISocket)
    (h : ∀ isk ∈ q, isk.recvData = []) : Boundaries es q (fun _ => []) ↔ AllMeet es q := by
  refine boundaries_iff fun i => ?_
  unfold queueOf
  cases hisk : q[i]? with
  | none => rfl
  | some isk => exact h isk (mem_of_getElem? hisk)

/-- A datagram of three bytes from port 53, in a frame without padding. -/
def threeBytes : Frame where
  dataLen := 45
  body := [1, 2, 3] ++ replicate 42 0
  sender := ⟨0x0a000001, 53⟩
  dest := 10000
  len := 11
  behind := by decide

/-- A socket bound to port 10000. -/
def oneSocket : List ISocket := [⟨10000, 0, 0, []⟩]

/-- A call for two bytes by a caller that knows the sender. -/
theorem datagram_boundaries_iff_two_of_three :
    Boundaries [.arrive threeBytes, .recvfrom 0 true 2 false (some ⟨0x0a000001, 53⟩)] oneSocket
        (fun _ => []) ∧
      (udpRecvfrom (udpRecvCallback oneSocket threeBytes).2 0 true 2 false
        (some ⟨0x0a000001, 53⟩)).map Received.bytes = some [1, 2] := by
  refine ⟨(datagram_boundaries_iff _ oneSocket (by decide)).mpr ⟨trivial, ?_, trivial⟩, by decide⟩
  intro _
  exact ⟨threeBytes, by decide +kernel, by decide, rfl⟩

/-- The sockets when the datagram has come twice. -/
def twoQueued : List ISocket :=
  (udpRecvCallback (udpRecvCallback oneSocket threeBytes).2 threeBytes).2

/-- Two datagrams are queued when a buffer of 100 bytes is passed: one call returns 90 bytes,
of which the first three are the first datagram, does not say who sent it, and drops the
second datagram. -/
theorem two_datagrams_one_call :
    (udpRecvfrom twoQueued 0 true 100 false (some ⟨0, 0⟩)).map
        (fun r => (r.ret, r.sin, r.udpQueue)) = some (90, some ⟨0, 0⟩, oneSocket) ∧
    ¬ Boundaries [.arrive threeBytes, .arrive threeBytes, .recvfrom 0 true 100 false (some ⟨0, 0⟩)]
      oneSocket (fun _ => []) := by
  have hcall : (udpRecvfrom twoQueued 0 true 100 false (some ⟨0, 0⟩)).map
      (fun r => (r.ret, r.sin, r.udpQueue)) = some (90, some ⟨0, 0⟩, oneSocket) := by
    decide +kernel
  refine ⟨hcall, fun h => ?_⟩
  obtain ⟨_, _, hgood, _⟩ := h
  obtain ⟨r, hr, hret⟩ := Option.map_eq_some_iff.mp hcall
  rw [Prod.mk.injEq, Prod.mk.injEq] at hret
  obtain ⟨skb, rest, hdue, _, _, _, hrest⟩ := hgood r hr (by rw [hret.1]; decide)
  -- two datagrams are due, and none is left
  rw [hret.2.2] at hrest
  subst hrest
  have hlen : 2 = [skb].length := congrArg List.length hdue
  simp at hlen

end Udp

end Yap
