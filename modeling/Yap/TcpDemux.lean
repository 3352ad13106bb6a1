/-
# Finding the socket of a segment (`net/inet/tcp.c`)

A TCP connection is named by four numbers, the local and the remote address and port,
and an incoming segment carries all four.  `tcp_find_sock` looks on `active_queue` for a
segment with ACK and on `listen_queue` for a bare SYN.  On `active_queue` it compares
the remote half only and returns the first socket that agrees, so the answer depends on
what else is open and in which order.

`tcpFindSock_owner_iff` says exactly when the answer is the right one: `tcp_connect` puts its
socket at the head of the queue, where it takes every segment of the peer, whichever connection it
is for.
-/
import Yap.FirstMatch
import Yap.IpFragment
import Yap.Tcp

namespace Yap

namespace TcpDemux

open Ip FirstMatch

/-! ## Sockets, segments and the queues -/

/-- Local address and port, remote address and port. -/
abbrev FourTuple := BitVec 32 × BitVec 16 × BitVec 32 × BitVec 16

/-- The addresses of a `struct i_socket`, in host order. -/
structure ISocket where
  localIp : BitVec 32
  localPort : BitVec 16
  remoteIp : BitVec 32
  remotePort : BitVec 16
  deriving DecidableEq, Repr

/-- The header fields `tcp_find_sock` reads, as they lie in the buffer. -/
structure Segment where
  saddr : BitVec 32
  daddr : BitVec 32
  source : BitVec 16
  dest : BitVec 16
  syn : Bool
  ack : Bool
  deriving DecidableEq, Repr

/-- The connection a socket belongs to. -/
def ISocket.fourTuple (k : ISocket) : FourTuple :=
  (k.localIp, k.localPort, k.remoteIp, k.remotePort)

section

variable (big : Bool)

/-- The connection a received segment belongs to: its destination is this side. -/
def Segment.fourTuple (seg : Segment) : FourTuple :=
  (ntohl big seg.daddr, ntohs big seg.dest, ntohl big seg.saddr, ntohs big seg.source)

/-- The sockets, the two queues from first to last, and the static `port` of
`tcp_get_an_unused_port`. -/
structure State where
  isk : ℕ → ISocket
  activeQueue : List ℕ
  listenQueue : List ℕ
  port : BitVec 16

/-- `isk->remote_ip == ntohl(iph->saddr) && isk->remote_port == ntohs(tcph->source)` -/
def remoteMatches (seg : Segment) (k : ISocket) : Bool :=
  k.remoteIp = ntohl big seg.saddr && k.remotePort = ntohs big seg.source

/-- `isk->local_ip == ntohl(iph->daddr) && isk->local_port == ntohs(tcph->dest)` -/
def localMatches (seg : Segment) (k : ISocket) : Bool :=
  k.localIp = ntohl big seg.daddr && k.localPort = ntohs big seg.dest

/-- `tcp_find_sock(skb, tcph)`; a null pointer is `none`. -/
def tcpFindSock (s : State) (skb : Option Segment) : Option ℕ :=
  match skb with
  | none => none
  | some seg =>
    match Tcp.searchedQueue seg.syn seg.ack with
    | some .active =>
      if s.activeQueue.isEmpty then none
      else s.activeQueue.find? (fun i => remoteMatches big seg (s.isk i))
    | some .listen =>
      if s.listenQueue.isEmpty then none
      else s.listenQueue.find? (fun i => localMatches big seg (s.isk i))
    | none => none

/-- `tcp_get_an_unused_port()`: the port and the state after it. -/
def tcpGetAnUnusedPort (s : State) : BitVec 16 × State := (s.port, { s with port := s.port + 1 })

/-- What `tcp_connect` gets from the functions it calls: the address of the device
`ip_route` finds, and the results of `tcp_send_syn` and `add_timer`. -/
structure Answers where
  route : Option (BitVec 32)
  sendSyn : ℤ
  addTimer : ℤ

/-- `tcp_connect(isk, sin, addr_len)` up to its `wait_event`.  The result is the value
it returns, `none` when the socket is on the queue and the task waits. -/
def tcpConnect (s : State) (i : ℕ) (sinAddr : BitVec 32) (sinPort : BitVec 16)
    (a : Answers) : Option ℤ × State :=
  let (port, s) := tcpGetAnUnusedPort s
  let k := { s.isk i with
    remoteIp := ntohl big sinAddr, remotePort := ntohs big sinPort, localPort := port }
  match a.route with
  | none => (some (-ENETUNREACH), { s with isk := Function.update s.isk i k })
  | some ip =>
    let s := { s with isk := Function.update s.isk i { k with localIp := ip } }
    if a.sendSyn < 0 then (some a.sendSyn, s)
    else if a.addTimer < 0 then (some a.addTimer, s)
    else (none, { s with activeQueue := i :: s.activeQueue })

end

/-! ## What is found -/

variable {big : Bool} {i : ℕ} {s : State} {seg : Segment}

theorem fourTuple_eq_iff {k : ISocket} :
    k.fourTuple = seg.fourTuple big ↔ localMatches big seg k ∧ remoteMatches big seg k := by
  simp [localMatches, remoteMatches, ISocket.fourTuple, Segment.fourTuple, and_assoc]

/-- For a segment with ACK the SYN bit makes no difference. -/
theorem tcpFindSock_of_ack (big : Bool) (s : State) (hack : seg.ack = true) :
    tcpFindSock big s (some seg) =
      s.activeQueue.find? (fun i => remoteMatches big seg (s.isk i)) := by
  unfold tcpFindSock
  cases hq : s.activeQueue with
  | nil => simp [hack]
  | cons i is => simp [hack]

/-- No two sockets on `active_queue` belong to the same connection. -/
def DistinctTuples (s : State) : Prop :=
  s.activeQueue.Pairwise (fun i j => (s.isk i).fourTuple ≠ (s.isk j).fourTuple)

instance (s : State) : Decidable (DistinctTuples s) := by
  unfold DistinctTuples
  infer_instance

/-- The answer is the socket of the segment's connection, and nothing when there is
none. -/
def FindsOwner (big : Bool) (s : State) (seg : Segment) : Prop :=
  ∀ i, tcpFindSock big s (some seg) = some i ↔
    i ∈ s.activeQueue ∧ (s.isk i).fourTuple = seg.fourTuple big

/-- Every socket that agrees with the segment in the remote half but not in the local
half stands behind the socket of the segment's connection. -/
def OwnerFirst (big : Bool) (s : State) (seg : Segment) : Prop :=
  ∀ pre i post, s.activeQueue = pre ++ i :: post →
    remoteMatches big seg (s.isk i) → ¬ localMatches big seg (s.isk i) →
      ∃ j ∈ pre, (s.isk j).fourTuple = seg.fourTuple big

/-- The connection at the head of the queue always gets its segments. -/
theorem ownerFirst_of_head {is : List ℕ}
    (hq : s.activeQueue = i :: is) (hi : (s.isk i).fourTuple = seg.fourTuple big) :
    OwnerFirst big s seg := by
  have hboth := fourTuple_eq_iff.mp hi
  intro pre j post hpre _ hl
  rw [hq] at hpre
  cases pre with
  | nil =>
    obtain ⟨rfl, -⟩ := List.cons.inj hpre
    exact absurd hboth.1 hl
  | cons k pre =>
    obtain ⟨rfl, -⟩ := List.cons.inj hpre
    exact ⟨i, by simp, hi⟩

/-- **When a segment reaches its connection.**  For every queue of distinct connections
and every segment with ACK. -/
theorem tcpFindSock_owner_iff (big : Bool) (s : State) (hs : DistinctTuples s) (seg : Segment)
    (hack : seg.ack = true) : FindsOwner big s seg ↔ OwnerFirst big s seg := by
  have howner : ∀ i, s.activeQueue.find?
      (fun i => decide ((s.isk i).fourTuple = seg.fourTuple big)) = some i ↔
        i ∈ s.activeQueue ∧ (s.isk i).fourTuple = seg.fourTuple big :=
    find?_key_eq_some_iff (fun i => (s.isk i).fourTuple) hs (seg.fourTuple big)
  have hfinds : FindsOwner big s seg ↔
      s.activeQueue.find? (fun i => remoteMatches big seg (s.isk i)) =
        s.activeQueue.find? (fun i => decide ((s.isk i).fourTuple = seg.fourTuple big)) := by
    rw [FindsOwner, tcpFindSock_of_ack big s hack, Option.ext_iff]
    simp only [howner]
  rw [hfinds, find?_eq_find?_iff]
  · simp only [decide_eq_true_eq]
    -- on a socket with the remote half, the local half decides the full comparison
    refine forall₃_congr fun pre i post => imp_congr_right fun _ => imp_congr_right fun hr => ?_
    rw [fourTuple_eq_iff, and_iff_left hr]
  · intro i _ hi
    exact (fourTuple_eq_iff.mp (of_decide_eq_true hi)).2

/-! ## Two connections to one peer -/

/-- The kernel after `tcp_init`, with no address in any socket. -/
def bootState : State where
  isk := fun _ => { localIp := 0, localPort := 0, remoteIp := 0, remotePort := 0 }
  activeQueue := []
  listenQueue := []
  port := 10002

/-- One device with address 192.168.1.2, and nothing fails. -/
def allWell : Answers := { route := some 0xc0a80102, sendSyn := 0, addTimer := 0 }

/-- Two `tcp_connect`s to port 8000 of 192.168.1.104, on sockets 0 and 1, both waiting. -/
def twoConnects : State :=
  let connect (s : State) (i : ℕ) :=
    (tcpConnect false s i (htonl false 0xc0a80168) (htons false 8000) allWell).2
  connect (connect bootState 0) 1

/-- A segment of the peer to the given local port. -/
def segmentTo (port : BitVec 16) : Segment where
  saddr := htonl false 0xc0a80168
  daddr := htonl false 0xc0a80102
  source := htons false 8000
  dest := htons false port
  syn := false
  ack := true

/-- A segment for the later of the two connections does reach it. -/
theorem tcpFindSock_owner_second :
    DistinctTuples twoConnects ∧ FindsOwner false twoConnects (segmentTo 10003) := by
  have hs : DistinctTuples twoConnects := by decide +kernel
  have hfirst : OwnerFirst false twoConnects (segmentTo 10003) :=
    ownerFirst_of_head (show twoConnects.activeQueue = 1 :: [0] by decide +kernel)
      (by decide +kernel)
  exact ⟨hs, (tcpFindSock_owner_iff false twoConnects hs (segmentTo 10003) rfl).mpr hfirst⟩

/-- The first connection's segment is handed to the second one. -/
theorem second_connect_takes_segments :
    DistinctTuples twoConnects ∧ 0 ∈ twoConnects.activeQueue ∧
      (twoConnects.isk 0).fourTuple = (segmentTo 10002).fourTuple false ∧
      tcpFindSock false twoConnects (some (segmentTo 10002)) = some 1 := by
  refine ⟨?_, ?_, ?_, ?_⟩ <;> decide +kernel

end TcpDemux

end Yap
