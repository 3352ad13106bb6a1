/-
# The receive path (`net/inet/eth.c` and what it calls, `net/netif.c`, `net/socket.c`)

A frame comes in by interrupt and is put on `netif_rx_queue`; `netif_rx_thread` takes it off and
calls `eth_recv`, which passes the buffer down: to the ARP code, to the fragment lists, to a
socket, or back to the device as an answer.  Nobody owns a buffer by type; each function hands it
on, links it to a queue or calls `free_skbuff`.

Buffers are their numbers in `SKB`.  Where they stand is a `Custody`; the rest of the state is what
the path reads to decide: the fragment slots, the ARP table, the devices, the sockets.  What
`kmalloc` and the driver answer comes from `Env`, in the order of the questions.

A result `none` means that the call does not return: `ip_fragment` has not come to its end in
`fuel` rounds, or the code goes through null links (of a slot that `free_frag_list` has cleared,
of a socket that `free_isock` has cleared) or outside the buffer it assembles.
-/
import Yap.Custody
import Yap.Arp
import Yap.TcpDemux
import Yap.FrameBounds
import Yap.Udp

namespace Yap

namespace EthRecv

open Ip (htons htonl ntohs ntohl)
open Arp (ArpTable Mac ETH_P_IP ETH_P_ARP ARP_REQ ARP_RSP)
open FrameBounds (Frame)
open Function (update)

/-! ## Frames -/

/-- Six bytes of the frame. -/
def macAt (f : Frame) (i : ℕ) : Mac := ⟨(List.range 6).map fun j => f.mem (i + j), by simp⟩

/-- `ntohs(iph->id)`. -/
def ipId (f : Frame) : BitVec 16 := f.half 18

/-- `iph->saddr`, as it lies in memory. -/
def ipSaddr (big : Bool) (f : Frame) : BitVec 32 := htonl big (f.word 26)

/-- The frame as an IP packet; its bytes end with the frame. -/
def ipSkb (big : Bool) (f : Frame) : Ip.SkBuff where
  iph := {
    version := f.mem 14
    tos := f.mem 15
    totLen := htons big f.totLen
    id := htons big (ipId f)
    fragOff := htons big f.fragOff
    ttl := f.mem 22
    protocol := f.protocol
    check := htons big (f.half 24)
    saddr := ipSaddr big f
    daddr := htonl big (f.word 30) }
  data := (List.range (f.n - Ip.offsetIpdata)).map fun i => f.mem (Ip.offsetIpdata + i)
  dataLen := BitVec.ofNat 16 f.n

/-- The header fields `tcp_find_sock` reads. -/
def tcpSegment (big : Bool) (f : Frame) : TcpDemux.Segment where
  saddr := ipSaddr big f
  daddr := htonl big (f.word 30)
  source := htons big (f.half 34)
  dest := htons big (f.half 36)
  syn := f.skb.syn
  ack := f.skb.ack

/-- A buffer that holds nothing. -/
def noFrame : Frame := ⟨0, fun _ => 0, by omega⟩

/-- What `ip_fragment_glue` makes: `data` from `OFFSET_IPDATA` on, and zeros before it. -/
def gluedFrame (data : List Byte) : Frame :=
  ⟨0, fun i => if i < Ip.offsetIpdata then 0 else data.getD (i - Ip.offsetIpdata) 0, by omega⟩

/-! ## The state -/

/-- `struct sk_buff`, without its links and `use_flag`. -/
structure Buf where
  frame : Frame
  dataLen : BitVec 16
  timeout : BitVec 32
  ndev : ℕ
  /-- `iph->daddr`, once `ip_send` has written it -/
  daddr : BitVec 32

/-- After `memset(skb, 0, sizeof (struct sk_buff))`. -/
def Buf.zero : Buf := ⟨noFrame, 0, 0, 0, 0⟩

/-- The list heads that a buffer can be linked to: `netif_rx_queue`, the heads in
`ip_frag_list_head`, `arp_send_q_head`, the `tx_queue` of a device, and the `recv_data_head` and
the `ack_queue` of a socket. -/
inductive Head : Type where
  | rx : Head
  | frag (k : Fin 32) : Head
  | arpSendQ : Head
  | txQueue (ndev : ℕ) : Head
  | recvData (isk : ℕ) : Head
  | ackQueue (isk : ℕ) : Head
  deriving DecidableEq, Repr

/-- `struct ipfrag`; what is linked to its head is in the queues. -/
abbrev IpFrag := Ip.FragSlot Unit

/-- The fields of `struct net_device` that are used here. -/
structure NetDevice where
  mtu : BitVec 16
  ip : BitVec 32

/-- What does not change: the byte order of the processor and the devices. -/
structure Net where
  big : Bool
  dev : ℕ → NetDevice

/-- What `hard_start_xmit` does with a buffer: its result, whether it calls `netif_stop_queue`,
and whether it has called `free_skbuff` when it returns. -/
structure Xmit where
  ret : ℤ
  stops : Bool
  frees : Bool

/-- The answers of the rest of the kernel: whether the `n`th question, a `kmalloc(len)`, finds
memory, what `hard_start_xmit` does when it is the `n`th, the results that the TCP code gets, the
maximum segment size `tcp_set_options` finds, and `OS_Get_Kernel_Ticks()`. -/
structure Env where
  kmalloc : ℕ → BitVec 16 → Bool
  xmit : ℕ → Xmit
  tcp : List ℤ
  mss : Option (BitVec 16)
  now : BitVec 32

/-- The state of the stack. -/
structure Stack extends Custody Head ℕ where
  buf : ℕ → Buf
  slot : Fin 32 → IpFrag
  table : ℕ → ArpTable
  /-- `net_device_head`, first to last -/
  devices : List ℕ
  /-- `__QUEUE_STATE_XOFF` of each device -/
  xoff : ℕ → Bool
  /-- the addresses of the sockets, `active_queue` and `listen_queue` -/
  demux : TcpDemux.State
  udpQueue : List ℕ
  sock : ℕ → Tcp.Sock
  /-- how many questions have been asked -/
  asked : ℕ

/-- Change one buffer. -/
def Stack.setBuf (s : Stack) (i : ℕ) (b : Buf) : Stack := { s with buf := update s.buf i b }

/-- Change one slot. -/
def Stack.setSlot (s : Stack) (k : Fin 32) (f : IpFrag) : Stack :=
  { s with slot := update s.slot k f }

/-! ## Buffers (`net/socket.c`) -/

/-- `MAX_SKB_NUM`; a proof that needs the number unfolds it. -/
@[irreducible]
def maxSkbNum : ℕ := 5000

/-- The first entry of `SKB` that is not in use. -/
def firstUnused (s : Stack) : Option ℕ := (List.range maxSkbNum).find? fun i => !s.used i

section

variable (net : Net) (env : Env) (fuel : ℕ)

section

variable (s : Stack)

/-- `alloc_skbuff(len)`. -/
def allocSkbuff (len : BitVec 16) : Option ℕ × Stack :=
  match firstUnused s with
  | none => (none, s)
  | some i =>
    let t := { s with asked := s.asked + 1 }
    if env.kmalloc s.asked len then
      (some i, { t with toCustody := s.acquire i, buf := update s.buf i Buf.zero })
    else (none, t)

/-- `free_skbuff(skb)`. -/
def freeSkbuff (i : ℕ) : Stack :=
  { s with toCustody := s.release i, buf := update s.buf i Buf.zero }

/-- `free_all_skb(head)`. -/
def freeAllSkb (h : Head) : Stack := (s.queue h).foldl freeSkbuff s

/-- `list_add_tail(&skb->list, head)`. -/
def listAddTail (h : Head) (i : ℕ) : Stack := { s with toCustody := s.append h i }

/-- `list_del(&skb->list)`. -/
def listDel (i : ℕ) : Stack := { s with toCustody := s.unlink i }

/-! ## Sending -/

/-- `ndev->hard_start_xmit(skb, ndev)`. -/
def hardStartXmit (ndev i : ℕ) : ℤ × Stack :=
  let x := env.xmit s.asked
  (x.ret, { s with
    toCustody := s.handOver i x.frees
    xoff := if x.stops then update s.xoff ndev true else s.xoff
    asked := s.asked + 1 })

/-- `netif_tx_queue(ndev, skb)`. -/
def netifTxQueue (ndev i : ℕ) : ℤ × Stack :=
  if s.xoff ndev then (0, listAddTail s (.txQueue ndev) i) else hardStartXmit env s ndev i

/-- `search_arp_table(ip)`. -/
def searchArpTable (ip : BitVec 32) : Option ℕ := Arp.searchArpTable ⟨s.table, []⟩ ip

/-- `add_arp_table(mac, ip, ndev)`, whose result is only printed. -/
def addArpTable (mac : Mac) (ip : BitVec 32) (ndev : ℕ) : Stack :=
  { s with table := (Arp.addArpTable ⟨s.table, []⟩ mac ip ndev).2.table }

/-- `arp_send_request(ip, ndev)`; what it writes into the buffer is `Arp.requestOut`. -/
def arpSendRequest (ndev : ℕ) : ℤ × Stack :=
  match allocSkbuff env s 128 with
  | (none, s) => (-ENOMEM, s)
  | (some j, s) => netifTxQueue env s ndev j

/-- `add_skb_to_arp_send_q(skb)`. -/
def addSkbToArpSendQ (i : ℕ) : Stack :=
  listAddTail (s.setBuf i { s.buf i with timeout := 20 }) .arpSendQ i

/-- `ip_do_send(skb, dest, proto, ndev)`. -/
def ipDoSend (i : ℕ) (dest : BitVec 32) (ndev : ℕ) : ℤ × Stack :=
  let s := s.setBuf i { s.buf i with ndev := ndev }
  match searchArpTable s dest with
  | none =>
    let r := arpSendRequest env s ndev
    if r.1 < 0 then r else (0, addSkbToArpSendQ r.2 i)
  | some _ => netifTxQueue env s ndev i

end

/-- The loop of `ip_fragment`, with `totalLen` bytes to go. -/
def ipFragmentLoop (env : Env) (i : ℕ) (dest : BitVec 32) (ndev : ℕ) (mtu : BitVec 16) :
    ℕ → BitVec 16 → Stack → Option (ℤ × Stack)
  | 0, _, _ => none
  | fuel + 1, totalLen, s =>
    if totalLen = 0 then some (0, freeSkbuff s i)
    else
      match allocSkbuff env s mtu with
      | (none, s) => some (-ENOMEM, freeSkbuff s i)
      | (some j, s) =>
        let n := Ip.ipDataLen mtu totalLen
        let s := s.setBuf j { s.buf j with dataLen := n + 34, daddr := dest }
        let r := ipDoSend env s j dest ndev
        if r.1 < 0 then some (- EIO, freeSkbuff r.2 i)
        else ipFragmentLoop env i dest ndev mtu fuel (totalLen - n) r.2

/-- `ip_send(skb, dest, proto)`. -/
def ipSend (s : Stack) (i : ℕ) (dest : BitVec 32) :
    Option (ℤ × Stack) :=
  match s.devices.head? with
  | none => some (-ENETUNREACH, s)
  | some ndev =>
    let s := s.setBuf i { s.buf i with ndev := ndev }
    let mtu := (net.dev ndev).mtu
    if mtu < (s.buf i).dataLen then
      ipFragmentLoop env i dest ndev mtu fuel ((s.buf i).dataLen - 14 - 20) s
    else
      let s := s.setBuf i { s.buf i with daddr := dest }
      some (ipDoSend env s i dest ndev)

/-! ## The protocols over IP -/

/-- `icmp_process(skb)`: whatever the type, the packet is sent back. -/
def icmpProcess (s : Stack) (i : ℕ) : Option Stack :=
  let f := (s.buf i).frame
  let s := s.setBuf i { s.buf i with dataLen := f.totLen + 14 }
  (ipSend net env fuel s i (ipSaddr net.big f)).map Prod.snd

/-- `udp_process(skb)`. -/
def udpProcess (s : Stack) (i : ℕ) : Stack :=
  let port := (s.buf i).frame.half 36
  match (Udp.findUdpUseLocalPort (fun k => (s.demux.isk k).localPort) s.udpQueue port).bind
      (s.udpQueue[·]?) with
  | none => freeSkbuff s i
  | some k => listAddTail s (.recvData k) i

/-- The socket `k`, with what is linked to its `recv_data_head`. -/
def Stack.isk (s : Stack) (k : ℕ) : Tcp.Sock :=
  { s.sock k with recvData := (s.queue (.recvData k)).map fun j => (s.buf j).frame.skb }

/-- The number of segments that `tcp_seg_sort` links the new one behind; `none` if the handler
does not get that far. -/
def linkBehind (isk : Tcp.Sock) (skb : Tcp.SkBuff) : Option ℕ :=
  if FrameBounds.Links isk skb then
    (Tcp.findSlot skb.seq isk.recvData.reverse []).map fun r => r.1.length
  else none

/-- The buffers that `free_isock(isk)` frees, and the queues it takes the socket off. -/
def freeIsock (s : Stack) (k : ℕ) : Stack :=
  { freeAllSkb (freeAllSkb s (.recvData k)) (.ackQueue k) with
    demux := { s.demux with
      activeQueue := s.demux.activeQueue.erase k
      listenQueue := s.demux.listenQueue.erase k } }

/-- `tcp_process(skb)`, in terms of what `Tcp.tcpReceive` does to the socket.  The buffers of the
acknowledgements it sends are steps of their own. -/
def tcpProcess (s : Stack) (i : ℕ) : Option Stack :=
  let f := (s.buf i).frame
  match TcpDemux.tcpFindSock net.big s.demux (some (tcpSegment net.big f)) with
  | none => some (freeSkbuff s i)
  | some k =>
    let isk := { s.isk k with answers := env.tcp, ticks := env.now, freed := false }
    let isk' := (Tcp.tcpReceive env.mss isk f.skb).2
    let t := { s with sock := update s.sock k isk' }
    match linkBehind isk f.skb with
    | some n =>
      -- `while (!list_empty(&isk->ack_queue))` reads the socket after `free_isock`
      if isk'.freed then none else some { t with toCustody := s.link (.recvData k) n i }
    | none => some (freeSkbuff (if isk'.freed then freeIsock t k else t) i)

def PROTO_ICMP : Byte := 0x01
def PROTO_UDP : Byte := 0x11
def PROTO_TCP : Byte := 0x06

section

variable (s : Stack)

/-- `ip_do_recv(skb)`. -/
def ipDoRecv (i : ℕ) : Option Stack :=
  let protocol := (s.buf i).frame.protocol
  if protocol = PROTO_ICMP then icmpProcess net env fuel s i
  else if protocol = PROTO_UDP then some (udpProcess s i)
  else if protocol = PROTO_TCP then tcpProcess net env s i
  else some (freeSkbuff s i)

/-! ## Fragments -/

/-- `add_frag_list(skb, iph)`: the slot taken, if one is unused. -/
def addFragList (i : ℕ) : Option (Option (Fin 32) × Stack) :=
  match Ip.searchFragList s.slot 0 with
  | none => some (none, s)
  | some k =>
    if (s.slot k).head.isSome then
      let f := { s.slot k with id := ipId (s.buf i).frame, timeout := env.now }
      some (some k, listAddTail (s.setSlot k f) (.frag k) i)
    else none

/-- `free_frag_list(frag_head)`. -/
def freeFragList (k : Fin 32) : Option Stack :=
  if (s.slot k).head.isSome then some ((freeAllSkb s (.frag k)).setSlot k .cleared) else none

/-- `ip_fragment_glue(frag_head)`. -/
def ipFragmentGlue (k : Fin 32) : Option Stack :=
  let len := (s.slot k).originalLen
  match allocSkbuff env s len with
  | (none, s) => freeFragList s k
  | (some j, s) =>
    let frags := (s.queue (.frag k)).map fun j => ipSkb net.big (s.buf j).frame
    -- a buffer shorter than the headers does not hold the header that `ip_do_recv` reads
    if len.toNat < Ip.offsetIpdata then none
    else
      match Ip.glueLoop net.big (Ip.allocSkbuff len).data frags with
      | none => none
      | some data =>
        let s := s.setBuf j { s.buf j with frame := gluedFrame data }
        (freeFragList s k).bind fun s => ipDoRecv net env fuel s j

/-- The second half of `ip_try_fragment_glue`, with the slot found. -/
def countAndGlue (k : Fin 32) (i : ℕ) : Option Stack :=
  let slot := (s.slot k).count net.big (ipSkb net.big (s.buf i).frame).iph
  let s := s.setSlot k slot
  if slot.currentLen = slot.originalLen then ipFragmentGlue net env fuel s k else some s

/-- `ip_try_fragment_glue(skb)`. -/
def ipTryFragmentGlue (i : ℕ) : Option Stack :=
  match Ip.searchFragList s.slot (ipId (s.buf i).frame) with
  | some k => countAndGlue net env fuel s k i
  | none =>
    match addFragList env s i with
    | none => none
    | some (none, s) => some (freeSkbuff s i)
    | some (some k, s) => countAndGlue net env fuel s k i

/-- `ip_recv(skb)`. -/
def ipRecv (i : ℕ) : Option Stack :=
  if (s.buf i).frame.IsFragment then ipTryFragmentGlue net env fuel s i
  else ipDoRecv net env fuel s i

/-! ## ARP -/

/-- `updata_arp_table(skb)`, for an IP packet. -/
def updataArpTable (i : ℕ) : Stack :=
  let f := (s.buf i).frame
  match searchArpTable s (ipSaddr net.big f) with
  | some _ => s
  | none => addArpTable s (macAt f 6) (ipSaddr net.big f) (s.buf i).ndev

end

/-- The loop of `arp_send_q`, over the buffers that are on the queue at first. -/
def arpSendQLoop (env : Env) : List ℕ → Stack → Stack
  | [], s => s
  | j :: list, s =>
    match searchArpTable s (s.buf j).daddr with
    | some a => arpSendQLoop env list (netifTxQueue env (listDel s j) (s.table a).ndev j).2
    | none =>
      let timeout := if (s.buf j).timeout ≠ 0 then (s.buf j).timeout - 1 else 0
      let s := s.setBuf j { s.buf j with timeout := timeout }
      arpSendQLoop env list (if timeout = 0 then freeSkbuff s j else s)

/-- `arp_send_q()`. -/
def arpSendQ (s : Stack) : Stack := arpSendQLoop env (s.queue .arpSendQ) s

/-- `arp_process(skb)`. -/
def arpProcess (s : Stack) (i : ℕ) : Stack :=
  let f := (s.buf i).frame
  let ndev := (s.buf i).ndev
  let type := f.half 20
  let learnt := addArpTable s (macAt f 22) (htonl net.big (f.word 28)) ndev
  if type = ARP_REQ then
    if f.word 38 = (net.dev ndev).ip then
      let s := learnt.setBuf i { s.buf i with dataLen := 42 }
      arpSendQ env (netifTxQueue env s ndev i).2
    else arpSendQ env (freeSkbuff learnt i)
  else if type = ARP_RSP then arpSendQ env (freeSkbuff learnt i)
  else freeSkbuff s i

/-! ## Receiving -/

/-- `eth_recv(skb)`; the result is not used. -/
def ethRecv (s : Stack) (i : ℕ) : Option Stack :=
  let proto := (s.buf i).frame.hProto
  if proto = ETH_P_IP then ipRecv net env fuel (updataArpTable net s i) i
  else if proto = ETH_P_ARP then some (arpProcess net env s i)
  else some (freeSkbuff s i)

/-! ## Runs -/

/-- `ip_timer_tick`. -/
def ipTimerTick (s : Stack) : Option Stack :=
  (List.finRange 32).foldlM
    (fun s k => if (s.slot k).Expired env.now then freeFragList s k else some s) s

/-- `netif_wake_queue(ndev)`. -/
def netifWakeQueue (s : Stack) (ndev : ℕ) : Stack :=
  let s := { s with xoff := update s.xoff ndev false }
  match s.queue (.txQueue ndev) with
  | [] => s
  | i :: _ => (hardStartXmit env s ndev i).2

end

/-- A buffer as `receivepacket` fills it. -/
def Buf.received (f : Frame) (ndev : ℕ) : Buf :=
  { Buf.zero with frame := f, dataLen := BitVec.ofNat 16 f.n, ndev := ndev }

/-- The stack after its start: no buffer is in use, no fragment and no address is known. -/
structure Booted (s : Stack) : Prop where
  used : ∀ i, s.used i = false
  queue : ∀ h, s.queue h = []
  slot : ∀ k, s.slot k = .unused ()
  table : ∀ a, (s.table a).ip = 0

/-- One step of the stack. -/
inductive Step (net : Net) : Stack → Stack → Prop
  /-- A frame arrives: `receivepacket` and `netif_rx`. -/
  | netifRx {s t : Stack} (env : Env) (f : Frame) (ndev : ℕ) {i : ℕ}
      (h : allocSkbuff env s (BitVec.ofNat 16 f.n) = (some i, t)) :
      Step net s (listAddTail (t.setBuf i (Buf.received f ndev)) .rx i)
  /-- `netif_rx_thread` takes the next buffer. -/
  | recv {s t : Stack} (env : Env) (fuel : ℕ) {i : ℕ} {rest : List ℕ}
      (hq : s.queue .rx = i :: rest) (h : ethRecv net env fuel (listDel s i) i = some t) :
      Step net s t
  | ipTick {s t : Stack} (env : Env) (h : ipTimerTick env s = some t) : Step net s t
  | arpTick {s : Stack} (env : Env) : Step net s (arpSendQ env s)
  /-- The device has sent a frame. -/
  | wake {s : Stack} (env : Env) (ndev : ℕ) : Step net s (netifWakeQueue env s ndev)
  /-- A reader frees the first `n` buffers of a socket. -/
  | read {s : Stack} (k n : ℕ) : Step net s (((s.queue (.recvData k)).take n).foldl freeSkbuff s)
  /-- A packet of this side is sent at once. -/
  | send {s t s' : Stack} (env : Env) (fuel : ℕ) (len : BitVec 16) (b : Buf) (dest : BitVec 32)
      {i : ℕ} {ret : ℤ} (h : allocSkbuff env s len = (some i, t))
      (h' : ipSend net env fuel (t.setBuf i b) i dest = some (ret, s')) : Step net s s'
  /-- An acknowledgement is delayed. -/
  | delay {s t : Stack} (env : Env) (len : BitVec 16) (b : Buf) (k : ℕ) {i : ℕ}
      (h : allocSkbuff env s len = (some i, t)) :
      Step net s (listAddTail (t.setBuf i b) (.ackQueue k) i)
  /-- A delayed acknowledgement is sent. -/
  | sendDelayed {s t : Stack} (env : Env) (fuel k : ℕ) (dest : BitVec 32) {i : ℕ} {rest : List ℕ}
      {ret : ℤ} (hq : s.queue (.ackQueue k) = i :: rest)
      (h : ipSend net env fuel (listDel s i) i dest = some (ret, t)) : Step net s t
  | close {s : Stack} (k : ℕ) : Step net s (freeIsock s k)
  /-- Sockets and devices come, go and change. -/
  | other {s : Stack} (devices : List ℕ) (demux : TcpDemux.State) (udpQueue : List ℕ)
      (sock : ℕ → Tcp.Sock) : Step net s
        { s with devices := devices, demux := demux, udpQueue := udpQueue, sock := sock }

/-- The states of a run. -/
inductive Reaches (net : Net) : Stack → Prop
  | boot {s : Stack} (h : Booted s) : Reaches net s
  | step {s s' : Stack} (h : Reaches net s) (hstep : Step net s s') : Reaches net s'

end EthRecv

end Yap
