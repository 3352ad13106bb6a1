/-
# Address resolution and the Ethernet header (`net/inet/arp.c`, `net/inet/ip.c`)

`ip_do_send` gives a datagram to the device at once if the ARP table knows the hardware
address of the destination.  If not, it sends an ARP request and puts the buffer on a
queue; `arp_send_q` transmits it when the address has been learnt, from an ARP packet or
from any IP packet of that host.

The two paths fill in the Ethernet header at different times.  `ip_do_send` writes all
three fields, `arp_send_q` writes `h_dest` only, so a deferred frame goes out with
whatever was in the buffer as source address and type.  `frame_agrees_iff` states this
for every frame of every run.  The table keeps the first announcement of each address for
ever, and an address of 0 marks its free entries (`arp_learning_iff`).
-/
import Yap.IpFragment

namespace Yap

namespace Arp

open Ip List Function Option

/-! ## Packets, devices and the table -/

/-- A hardware address. -/
abbrev Mac := { l : List Byte // l.length = 6 }

/-- `struct ethhdr`. -/
structure EthHdr where
  hDest : Mac
  hSource : Mac
  hProto : BitVec 16
  deriving DecidableEq

/-- `struct arp_hdr`, as it lies in memory. -/
structure ArpHdr where
  hwtype : BitVec 16
  protocol : BitVec 16
  hwlen : Byte
  protolen : Byte
  type : BitVec 16
  smac : Mac
  saddr : BitVec 32
  dmac : Mac
  daddr : BitVec 32
  deriving DecidableEq

/-- The fields of `struct net_device` that are used here. -/
structure NetDevice where
  macaddr : Mac
  ip : BitVec 32

/-- What does not change: the byte order of the processor and the devices. -/
structure Net where
  big : Bool
  dev : ℕ → NetDevice

/-- `struct arp_table`; `ndev` is the index of a device. -/
structure ArpTable where
  mac : Mac
  ip : BitVec 32
  ndev : ℕ
  deriving DecidableEq

/-- `MAX_ARP_TABLE_NUM`. -/
def maxArpTableNum : ℕ := 256

def ETH_P_IP : BitVec 16 := 0x0800
def ETH_P_ARP : BitVec 16 := 0x0806
def ARP_REQ : BitVec 16 := 1
def ARP_RSP : BitVec 16 := 2
def ARP_HW_TYPE_ETH : BitVec 16 := 1

/-- The thirty-two-bit word at an offset. -/
def load32 (big : Bool) (data : List Byte) (off : ℕ) : BitVec 32 :=
  let b (i : ℕ) := data.getD (off + i) 0
  if big then b 0 ++ b 1 ++ b 2 ++ b 3 else b 3 ++ b 2 ++ b 1 ++ b 0

/-- `iph->daddr`, behind fourteen bytes of Ethernet header. -/
def daddr (big : Bool) (data : List Byte) : BitVec 32 := load32 big data 30

/-- A datagram given to `ip_do_send`: the bytes of its buffer, with room for the Ethernet
header in front, and the device of its route. -/
structure Datagram where
  data : List Byte
  ndev : ℕ
  whole : 34 ≤ data.length

/-- The destination.  Every caller of `ip_do_send` has stored `dest->addr` in the header. -/
def Datagram.dest (big : Bool) (d : Datagram) : BitVec 32 := daddr big d.data

/-- A buffer on the queue; `origin` is the datagram it was made of, and nothing reads it. -/
structure SkBuff where
  data : List Byte
  timeout : BitVec 32
  ndev : ℕ
  origin : Datagram

/-- `ARP_TABLE` and `arp_send_q_head`. -/
structure State where
  table : ℕ → ArpTable
  sendQ : List SkBuff

/-- What is handed to `netif_tx_queue`: an ARP packet, or the frame of a datagram. -/
inductive Out : Type where
  | arp (ndev : ℕ) (eth : EthHdr) (arp : ArpHdr) : Out
  | ip (ndev : ℕ) (frame : List Byte) (origin : Datagram) : Out

/-! ## The table -/

/-- `search_arp_table(ip)`. -/
def searchArpTable (s : State) (ip : BitVec 32) : Option ℕ :=
  (range maxArpTableNum).find? (fun i => (s.table i).ip = ip)

/-- `add_arp_table(mac, ip, ndev)`.  A slot is free when its address is 0. -/
def addArpTable (s : State) (mac : Mac) (ip : BitVec 32) (ndev : ℕ) : ℤ × State :=
  if ip = 0 then (-EINVAL, s)
  else
    match searchArpTable s ip with
    | some _ => (0, s)
    | none =>
      match searchArpTable s 0 with
      | some i =>
        (0, { s with table := update s.table i { mac := mac, ip := ip, ndev := ndev } })
      | none => (-ENOMEM, s)

/-! ## Sending -/

section

variable (net : Net)

/-- The request that `arp_send_request(ip, ndev)` builds. -/
def requestOut (ip : BitVec 32) (ndev : ℕ) : Out :=
  let broadcast : Mac := ⟨replicate 6 0xff, rfl⟩
  let d := net.dev ndev
  .arp ndev
    { hDest := broadcast, hSource := d.macaddr, hProto := htons net.big ETH_P_ARP }
    { hwtype := htons net.big ARP_HW_TYPE_ETH
      protocol := htons net.big ETH_P_IP
      hwlen := 6
      protolen := 4
      type := htons net.big ARP_REQ
      smac := d.macaddr
      saddr := htonl net.big d.ip
      dmac := broadcast
      daddr := ip }

/-- `add_skb_to_arp_send_q(skb)`. -/
def addSkbToArpSendQ (s : State) (skb : SkBuff) : State :=
  { s with sendQ := s.sendQ ++ [{ skb with timeout := 20 }] }

/-- `ip_do_send(skb, dest, proto, ndev)`.  `alloc` says whether the buffer of an ARP
request can be allocated, `txRet` is what `netif_tx_queue` returns. -/
def ipDoSend (s : State) (skb : SkBuff) (dest : BitVec 32) (ndev : ℕ) (alloc : Bool)
    (txRet : ℤ) : State × ℤ × List Out :=
  let skb := { skb with ndev := ndev }
  match searchArpTable s dest with
  | none =>
    if !alloc then (s, -ENOMEM, [])
    else if txRet < 0 then (s, txRet, [requestOut net dest ndev])
    else (addSkbToArpSendQ s skb, 0, [requestOut net dest ndev])
  | some i =>
    let data := patch skb.data 0 (s.table i).mac.1
    let data := patch data 6 (net.dev skb.ndev).macaddr.1
    let data := patch data 12 (halfBytes net.big (htons net.big ETH_P_IP))
    (s, txRet, [.ip skb.ndev data skb.origin])

/-- The loop of `arp_send_q`: what stays on the queue and what is transmitted. -/
def sendQLoop (net : Net) (s : State) : List SkBuff → List SkBuff × List Out
  | [] => ([], [])
  | skb :: list =>
    match searchArpTable s (daddr net.big skb.data) with
    | some i =>
      let r := sendQLoop net s list
      (r.1, .ip (s.table i).ndev (patch skb.data 0 (s.table i).mac.1) skb.origin :: r.2)
    | none =>
      let timeout := if skb.timeout ≠ 0 then skb.timeout - 1 else skb.timeout
      let r := sendQLoop net s list
      -- `free_skbuff` takes the buffer off the queue
      if timeout = 0 then r else ({ skb with timeout := timeout } :: r.1, r.2)

/-- `arp_send_q()`. -/
def arpSendQ (s : State) : State × List Out :=
  let r := sendQLoop net s s.sendQ
  ({ s with sendQ := r.1 }, r.2)

/-- The reply to a request for the device's own address. -/
def replyOut (ndev : ℕ) (arp : ArpHdr) : Out :=
  let d := net.dev ndev
  .arp ndev
    { hDest := arp.smac, hSource := d.macaddr, hProto := htons net.big ETH_P_ARP }
    { arp with
      type := htons net.big ARP_RSP
      dmac := arp.smac
      smac := d.macaddr
      daddr := arp.saddr
      saddr := htonl net.big d.ip }

/-- `arp_process(skb)`, for a packet that came in through `ndev`. -/
def arpProcess (s : State) (ndev : ℕ) (arp : ArpHdr) : State × List Out :=
  if ntohs net.big arp.type = ARP_REQ then
    let s := (addArpTable s arp.smac arp.saddr ndev).2
    let reply := if ntohl net.big arp.daddr = (net.dev ndev).ip then [replyOut net ndev arp] else []
    let r := arpSendQ net s
    (r.1, reply ++ r.2)
  else if ntohs net.big arp.type = ARP_RSP then
    arpSendQ net (addArpTable s arp.smac arp.saddr ndev).2
  else (s, [])

/-- `updata_arp_table(skb)`, for an IP packet. -/
def updataArpTable (s : State) (hSource : Mac) (saddr : BitVec 32) (ndev : ℕ) : State :=
  match searchArpTable s saddr with
  | some _ => s
  | none => (addArpTable s hSource saddr ndev).2

/-! ## Runs -/

/-- A datagram is sent; an ARP or an IP packet comes in; the queue's timer goes off. -/
inductive Event : Type where
  | send (d : Datagram) (alloc : Bool) (txRet : ℤ) : Event
  | arp (ndev : ℕ) (arp : ArpHdr) : Event
  | ip (ndev : ℕ) (hSource : Mac) (saddr : BitVec 32) : Event
  | tick : Event

/-- One event: the state after it, and what was handed to `netif_tx_queue`. -/
def step (s : State) : Event → State × List Out
  | .send d alloc txRet =>
    let skb : SkBuff := { data := d.data, timeout := 0, ndev := d.ndev, origin := d }
    let r := ipDoSend net s skb (d.dest net.big) d.ndev alloc txRet
    (r.1, r.2.2)
  | .arp ndev arp => arpProcess net s ndev arp
  | .ip ndev hSource saddr => (updataArpTable s hSource saddr ndev, [])
  | .tick => arpSendQ net s

/-- After `arp_init`: an empty table and an empty queue. -/
def init : State where
  table := fun _ => { mac := ⟨replicate 6 0, rfl⟩, ip := 0, ndev := 0 }
  sendQ := []

/-- The states of a run. -/
inductive Reaches (net : Net) : State → Prop
  | init : Reaches net init
  | step {s : State} (h : Reaches net s) (ev : Event) : Reaches net (step net s ev).1

/-! ## The frame a datagram should become -/

/-- The frame with the given destination address. -/
def frameOf (mac : Mac) (d : Datagram) : List Byte :=
  mac.1 ++ (net.dev d.ndev).macaddr.1 ++ [0x08, 0x00] ++ d.data.drop 14

/-- The frame is addressed to the host that the table has for the destination, comes from
the device, is marked as IP and carries the datagram. -/
def Agrees (s : State) (frame : List Byte) (d : Datagram) : Prop :=
  ∃ i, searchArpTable s (d.dest net.big) = some i ∧ frame = frameOf net (s.table i).mac d

/-- The buffer holds the device's address and the IP type before it is sent. -/
def HeaderReady (d : Datagram) : Prop :=
  slice d.data 6 8 = (net.dev d.ndev).macaddr.1 ++ [0x08, 0x00]

/-- `htons(ETH_P_IP)` is stored as 08 00 on either kind of processor. -/
theorem halfBytes_htons (big : Bool) : halfBytes big (htons big ETH_P_IP) = [0x08, 0x00] := by
  cases big <;> decide

/-- What `arp_send_q` writes over a buffer. -/
theorem patch_dest (mac : Mac) (data : List Byte) : patch data 0 mac.1 = mac.1 ++ data.drop 6 := by
  have h : patch ([] ++ data) 0 mac.1 = [] ++ mac.1 ++ data.drop mac.1.length := patch_append rfl
  rw [mac.2] at h
  exact h

/-- What `ip_do_send` writes over a buffer. -/
theorem patch_header (net : Net) (mac : Mac) (d : Datagram) :
    patch (patch (patch d.data 0 mac.1) 6 (net.dev d.ndev).macaddr.1) 12
      (halfBytes net.big (htons net.big ETH_P_IP)) = frameOf net mac d := by
  rw [patch_dest, patch_append mac.2.symm, patch_append, halfBytes_htons, (net.dev d.ndev).macaddr.2,
    drop_drop, drop_drop]
  · rfl
  · rw [length_append, mac.2, (net.dev d.ndev).macaddr.2]

/-- A deferred frame is right exactly if the buffer's header was. -/
theorem patch_dest_eq_frameOf_iff (net : Net) (mac : Mac) (d : Datagram) :
    patch d.data 0 mac.1 = frameOf net mac d ↔ HeaderReady net d := by
  have hrest : d.data.drop 6 = slice d.data 6 8 ++ d.data.drop 14 := by
    have h := take_append_drop 8 (d.data.drop 6)
    rw [drop_drop] at h
    exact h.symm
  have hlen : (slice d.data 6 8).length = 8 := by
    apply length_slice
    have := d.whole
    omega
  rw [patch_dest, frameOf, List.append_assoc, List.append_assoc, append_cancel_left_eq,
    ← List.append_assoc, hrest, HeaderReady]
  constructor
  · intro h
    exact (append_inj h (by simp [hlen, (net.dev d.ndev).macaddr.2])).1
  · intro h
    rw [h]

/-! ## The two paths -/

/-- Every buffer on the queue is still as it was sent. -/
def QueueOk (s : State) : Prop := ∀ skb ∈ s.sendQ, skb.data = skb.origin.data

section Paths

variable {net : Net} {s : State}

variable {d : Datagram} {frame : List Byte} {ndev : ℕ}

@[simp] theorem addArpTable_sendQ (mac : Mac) (ip : BitVec 32) (ndev : ℕ) :
    (addArpTable s mac ip ndev).2.sendQ = s.sendQ := by
  unfold addArpTable
  split_ifs
  · rfl
  · cases searchArpTable s ip with
    | some i => rfl
    | none => cases searchArpTable s 0 <;> rfl

/-- What stays on the queue was there before. -/
theorem sendQLoop_kept (q : List SkBuff) :
    ∀ skb ∈ (sendQLoop net s q).1, ∃ skb' ∈ q, skb.data = skb'.data ∧ skb.origin = skb'.origin := by
  induction q with
  | nil => intro skb h; exact absurd h not_mem_nil
  | cons skb0 q ih =>
    intro skb h
    have hrest : skb ∈ (sendQLoop net s q).1 →
        ∃ skb' ∈ skb0 :: q, skb.data = skb'.data ∧ skb.origin = skb'.origin := by
      intro h
      obtain ⟨skb', hmem, heq⟩ := ih skb h
      exact ⟨skb', mem_cons_of_mem _ hmem, heq⟩
    rw [sendQLoop] at h
    cases hsearch : searchArpTable s (daddr net.big skb0.data) with
    | some i =>
      rw [hsearch] at h
      exact hrest h
    | none =>
      simp only [hsearch] at h
      by_cases hzero : (if skb0.timeout ≠ 0 then skb0.timeout - 1 else skb0.timeout) = 0
      · rw [if_pos hzero] at h
        exact hrest h
      · rw [if_neg hzero] at h
        rcases mem_cons.mp h with rfl | h
        · exact ⟨skb0, mem_cons_self, rfl, rfl⟩
        · exact hrest h

/-- What the queue transmits: a buffer whose destination is in the table, with that
hardware address written over its first six bytes. -/
theorem sendQLoop_out (q : List SkBuff)
    (h : Out.ip ndev frame d ∈ (sendQLoop net s q).2) :
    ∃ skb ∈ q, ∃ i, searchArpTable s (daddr net.big skb.data) = some i ∧
      frame = patch skb.data 0 (s.table i).mac.1 ∧ d = skb.origin := by
  induction q with
  | nil => exact absurd h not_mem_nil
  | cons skb0 q ih =>
    have hrest : Out.ip ndev frame d ∈ (sendQLoop net s q).2 →
        ∃ skb ∈ skb0 :: q, ∃ i, searchArpTable s (daddr net.big skb.data) = some i ∧
          frame = patch skb.data 0 (s.table i).mac.1 ∧ d = skb.origin := by
      intro h
      obtain ⟨skb, hmem, hskb⟩ := ih h
      exact ⟨skb, mem_cons_of_mem _ hmem, hskb⟩
    rw [sendQLoop] at h
    cases hsearch : searchArpTable s (daddr net.big skb0.data) with
    | some i =>
      simp only [hsearch, mem_cons] at h
      rcases h with h | h
      · injection h with _ hframe hd
        exact ⟨skb0, mem_cons_self, i, hsearch, hframe, hd⟩
      · exact hrest h
    | none =>
      simp only [hsearch] at h
      split_ifs at h <;> exact hrest h

/-- A frame from the queue of an intact state. -/
theorem arpSendQ_agrees_iff (hq : QueueOk s)
    (h : Out.ip ndev frame d ∈ (arpSendQ net s).2) :
    Agrees net (arpSendQ net s).1 frame d ↔ HeaderReady net d := by
  obtain ⟨skb, hmem, i, hsearch, rfl, rfl⟩ := sendQLoop_out _ h
  have hdata := hq skb hmem
  have htable : searchArpTable (arpSendQ net s).1 (skb.origin.dest net.big) = some i := by
    rw [Datagram.dest, ← hdata]
    exact hsearch
  rw [hdata, ← patch_dest_eq_frameOf_iff net (s.table i).mac]
  constructor
  · rintro ⟨j, hj, hframe⟩
    rw [htable] at hj
    obtain rfl := some.inj hj
    exact hframe
  · intro hframe
    exact ⟨i, htable, hframe⟩

theorem queueOk_arpSendQ (hq : QueueOk s) : QueueOk (arpSendQ net s).1 := by
  intro skb h
  obtain ⟨skb', hmem, hdata, horigin⟩ := sendQLoop_kept _ skb h
  rw [hdata, horigin]
  exact hq skb' hmem

theorem queueOk_addArpTable (hq : QueueOk s) (mac : Mac) (ip : BitVec 32) (ndev : ℕ) :
    QueueOk (addArpTable s mac ip ndev).2 := by
  rw [QueueOk, addArpTable_sendQ]
  exact hq

/-- A step keeps the queued buffers intact. -/
theorem queueOk_step (hq : QueueOk s) (ev : Event) : QueueOk (step net s ev).1 := by
  cases ev with
  | send d alloc txRet =>
    rw [step, ipDoSend]
    cases searchArpTable s (d.dest net.big) with
    | some i => exact hq
    | none =>
      split_ifs
      · exact hq
      · exact hq
      · intro skb h
        rcases mem_append.mp h with h | h
        · exact hq skb h
        · rw [mem_singleton.mp h]
  | arp ndev arp =>
    rw [step, arpProcess]
    split_ifs
    · exact queueOk_arpSendQ (queueOk_addArpTable hq _ _ _)
    · exact queueOk_arpSendQ (queueOk_addArpTable hq _ _ _)
    · exact queueOk_arpSendQ (queueOk_addArpTable hq _ _ _)
    · exact hq
  | ip ndev hSource saddr =>
    rw [step, updataArpTable]
    cases searchArpTable s saddr with
    | some i => exact hq
    | none => exact queueOk_addArpTable hq _ _ _
  | tick => exact queueOk_arpSendQ hq

theorem queueOk_of_reaches (h : Reaches net s) : QueueOk s := by
  induction h with
  | init =>
    intro skb h
    exact absurd h not_mem_nil
  | step _ ev ih => exact queueOk_step ih ev

end Paths

/-- **When the two paths agree.**  In every run, a frame that is handed over by its own
`ip_do_send` is always right, and one that comes from the queue is right exactly if the
buffer held source address and type when it was sent. -/
theorem frame_agrees_iff (net : Net) {s : State} (hs : Reaches net s) (ev : Event) {ndev : ℕ}
    {frame : List Byte} {d : Datagram} (h : Out.ip ndev frame d ∈ (step net s ev).2) :
    Agrees net (step net s ev).1 frame d ↔
      (∃ alloc txRet, ev = .send d alloc txRet) ∨ HeaderReady net d := by
  have hq := queueOk_of_reaches hs
  cases ev with
  | send d' alloc txRet =>
    rw [step, ipDoSend] at h ⊢
    cases hsearch : searchArpTable s (d'.dest net.big) with
    | none =>
      -- only the request goes out
      simp only [hsearch, requestOut] at h
      split_ifs at h <;> simp at h
    | some i =>
      simp only [hsearch, mem_singleton] at h ⊢
      injection h with _ hframe hd
      subst hd
      have hagrees : Agrees net s frame d := ⟨i, hsearch, by rw [hframe, patch_header]⟩
      exact iff_of_true hagrees (Or.inl ⟨alloc, txRet, rfl⟩)
  | arp ndev' arp =>
    have hadded := queueOk_addArpTable hq arp.smac arp.saddr ndev'
    have hqueue : Agrees net (step net s (.arp ndev' arp)).1 frame d ↔ HeaderReady net d := by
      rw [step, arpProcess] at h ⊢
      by_cases hreq : ntohs net.big arp.type = ARP_REQ
      · simp only [if_pos hreq, mem_append] at h ⊢
        rcases h with h | h
        · split_ifs at h <;> simp [replyOut] at h
        · exact arpSendQ_agrees_iff hadded h
      · by_cases hrsp : ntohs net.big arp.type = ARP_RSP
        · rw [if_neg hreq, if_pos hrsp] at h ⊢
          exact arpSendQ_agrees_iff hadded h
        · rw [if_neg hreq, if_neg hrsp] at h
          exact absurd h not_mem_nil
    rw [hqueue]
    simp
  | ip ndev' hSource saddr => exact absurd h not_mem_nil
  | tick =>
    rw [step, arpSendQ_agrees_iff hq h]
    simp

/-! ## A first packet to a new host -/

/-- One device, 00:01:02:03:04:05 with address 192.168.1.2, on a little-endian machine. -/
def oneDevice : Net where
  big := false
  dev := fun _ => { macaddr := ⟨[0, 1, 2, 3, 4, 5], rfl⟩, ip := 0xc0a80102 }

/-- A datagram of nothing but a header, to 192.168.1.104, in a buffer that starts with
the given fourteen bytes. -/
def datagramIn (eth : { l : List Byte // l.length = 14 }) : Datagram where
  data := eth.1 ++ [0x45, 0, 0, 20, 0, 1, 0, 0, 128, 17, 0, 0, 192, 168, 1, 2, 192, 168, 1, 104]
  ndev := 0
  whole := by simp [eth.2]

/-- The answer of 192.168.1.104 to the request. -/
def answer : ArpHdr where
  hwtype := 0x0100
  protocol := 0x0008
  hwlen := 6
  protolen := 4
  type := 0x0200
  smac := ⟨[6, 7, 8, 9, 10, 11], rfl⟩
  saddr := 0x6801a8c0
  dmac := ⟨[0, 1, 2, 3, 4, 5], rfl⟩
  daddr := 0x0201a8c0

/-- A cleared buffer, and one with the device's address and the type in place. -/
def cleared : Datagram := datagramIn ⟨replicate 14 0, rfl⟩
def filled : Datagram := datagramIn ⟨[0, 0, 0, 0, 0, 0, 0, 1, 2, 3, 4, 5, 8, 0], rfl⟩

/-- The state while the datagram waits for the answer. -/
def waiting (d : Datagram) : State := (step oneDevice init (.send d true 0)).1

theorem frame_agrees_filled :
    HeaderReady oneDevice filled ∧ ∃ frame,
      Out.ip 0 frame filled ∈ (step oneDevice (waiting filled) (.arp 0 answer)).2 ∧
      Agrees oneDevice (step oneDevice (waiting filled) (.arp 0 answer)).1 frame filled := by
  have hready : HeaderReady oneDevice filled := by
    unfold HeaderReady
    decide
  have hreach : Reaches oneDevice (waiting filled) := Reaches.step Reaches.init _
  have hout : Out.ip 0 (patch filled.data 0 [6, 7, 8, 9, 10, 11]) filled ∈
      (step oneDevice (waiting filled) (.arp 0 answer)).2 := by
    rw [show (step oneDevice (waiting filled) (.arp 0 answer)).2 =
      [Out.ip 0 (patch filled.data 0 [6, 7, 8, 9, 10, 11]) filled] by rfl]
    exact mem_singleton_self _
  exact ⟨hready, _, hout,
    (frame_agrees_iff oneDevice hreach (.arp 0 answer) hout).mpr (Or.inr hready)⟩

/-- A datagram in a cleared buffer goes out of the queue without source address and type;
sent once more, now that the host is known, it has both. -/
theorem deferred_frame_lacks_source :
    (step oneDevice (waiting cleared) (.arp 0 answer)).2 =
        [.ip 0 ([6, 7, 8, 9, 10, 11] ++ replicate 8 0 ++ cleared.data.drop 14) cleared] ∧
      (step oneDevice (step oneDevice (waiting cleared) (.arp 0 answer)).1
        (.send cleared true 0)).2 =
        [.ip 0 ([6, 7, 8, 9, 10, 11] ++ [0, 1, 2, 3, 4, 5, 8, 0] ++ cleared.data.drop 14)
          cleared] := by
  constructor <;> rfl

/-! ## What the table learns -/

/-- The entry an event announces: an ARP request or reply that of its sender, an IP packet that
of its source. -/
def announces : Event → Option ArpTable
  | .arp ndev arp =>
    if ntohs net.big arp.type = ARP_REQ ∨ ntohs net.big arp.type = ARP_RSP then
      some { mac := arp.smac, ip := arp.saddr, ndev := ndev }
    else none
  | .ip ndev hSource saddr => some { mac := hSource, ip := saddr, ndev := ndev }
  | .send _ _ _ | .tick => none

end

/-- Some entry of the table is free. -/
def HasFree (s : State) : Prop := ∃ i < maxArpTableNum, (s.table i).ip = 0

/-- The state after some events, the latest first. -/
def run (net : Net) : List Event → State
  | [] => init
  | ev :: past => (step net (run net past) ev).1

/-- The addresses learnt from these events: all that were announced while an entry was free, but
for 0.0.0.0. -/
def learned (net : Net) : List Event → Set (BitVec 32)
  | [] => ∅
  | ev :: past => learned net past ∪
      { ip | ip ≠ 0 ∧ HasFree (run net past) ∧ ∃ e ∈ announces net ev, e.ip = ip }

/-- `search_arp_table` finds the entry `e`. -/
def Finds (s : State) (e : ArpTable) : Prop :=
  ∃ i, searchArpTable s e.ip = some i ∧ s.table i = e

/-- No two entries are for one address, and those that are not free were learnt. -/
structure Faithful (table : ℕ → ArpTable) (known : Set (BitVec 32)) : Prop where
  distinct : ∀ i < maxArpTableNum, ∀ j < maxArpTableNum, (table i).ip ≠ 0 →
    (table i).ip = (table j).ip → i = j
  heard : ∀ i < maxArpTableNum, (table i).ip ≠ 0 → (table i).ip ∈ known
  nonzero : 0 ∉ known

section Learning

variable {net : Net} {s : State} {e : ArpTable} {ip : BitVec 32} {i : ℕ}

theorem searchArpTable_some (h : searchArpTable s ip = some i) :
    i < maxArpTableNum ∧ (s.table i).ip = ip := by
  have hip := find?_some h
  exact ⟨mem_range.mp (mem_of_find?_eq_some h), of_decide_eq_true hip⟩

theorem searchArpTable_none :
    searchArpTable s ip = none ↔ ∀ i < maxArpTableNum, (s.table i).ip ≠ ip := by
  simp [searchArpTable, find?_eq_none]

/-- An announcement is written to a free entry if its address is new; else nothing happens. -/
theorem addArpTable_table (s : State) (e : ArpTable) :
    (∃ i < maxArpTableNum, (s.table i).ip = 0 ∧ e.ip ≠ 0 ∧
        (∀ j < maxArpTableNum, (s.table j).ip ≠ e.ip) ∧
        (addArpTable s e.mac e.ip e.ndev).2.table = update s.table i e) ∨
      (addArpTable s e.mac e.ip e.ndev).2.table = s.table ∧
        (e.ip ≠ 0 → HasFree s → ∃ i < maxArpTableNum, (s.table i).ip = e.ip) := by
  unfold addArpTable
  split_ifs with hzero
  · exact Or.inr ⟨rfl, fun h => absurd hzero h⟩
  · cases hsearch : searchArpTable s e.ip with
    | some i => exact Or.inr ⟨rfl, fun _ _ => ⟨i, searchArpTable_some hsearch⟩⟩
    | none =>
      cases hfree : searchArpTable s 0 with
      | some i =>
        obtain ⟨hi, hip⟩ := searchArpTable_some hfree
        exact Or.inl ⟨i, hi, hip, hzero, searchArpTable_none.mp hsearch, rfl⟩
      | none =>
        refine Or.inr ⟨rfl, ?_⟩
        rintro - ⟨i, hi, hip⟩
        exact absurd hip (searchArpTable_none.mp hfree i hi)

/-- An event does to the table what its announcement does. -/
theorem step_table (net : Net) (s : State) (ev : Event) : (step net s ev).1.table =
    (announces net ev).elim s.table fun e => (addArpTable s e.mac e.ip e.ndev).2.table := by
  cases ev with
  | send d alloc txRet =>
    rw [step, ipDoSend]
    cases searchArpTable s (d.dest net.big) with
    | some i => rfl
    | none =>
      split_ifs <;> rfl
  | arp ndev arp =>
    rw [step, arpProcess, announces]
    by_cases hreq : ntohs net.big arp.type = ARP_REQ
    · rw [if_pos hreq, if_pos (Or.inl hreq)]
      rfl
    · by_cases hrsp : ntohs net.big arp.type = ARP_RSP
      · rw [if_neg hreq, if_pos hrsp, if_pos (Or.inr hrsp)]
        rfl
      · rw [if_neg hreq, if_neg hrsp, if_neg (not_or.mpr ⟨hreq, hrsp⟩)]
        rfl
  | ip ndev hSource saddr =>
    rw [step, updataArpTable]
    cases hsearch : searchArpTable s saddr with
    | none => rfl
    | some i =>
      -- `add_arp_table` would not have changed anything either
      show s.table = (addArpTable s hSource saddr ndev).2.table
      rw [addArpTable, hsearch]
      split_ifs <;> rfl
  | tick => rfl

theorem Faithful.update {table : ℕ → ArpTable} {known : Set (BitVec 32)} (h : Faithful table known)
    (hnew : ∀ j < maxArpTableNum, (table j).ip ≠ e.ip) (hknown : e.ip ∈ known) :
    Faithful (update table i e) known := by
  refine ⟨fun j hj k hk hne heq => ?_, fun j hj hne => ?_, h.nonzero⟩
  · simp only [update_apply] at hne heq
    split_ifs at hne heq with hji hki hki
    · rw [hji, hki]
    · exact absurd heq.symm (hnew k hk)
    · exact absurd heq (hnew j hj)
    · exact h.distinct j hj k hk hne heq
  · simp only [update_apply] at hne ⊢
    split_ifs at hne ⊢
    · exact hknown
    · exact h.heard j hj hne

/-- In every run the entries are apart, and each is of an address that was learnt. -/
theorem faithful_run (net : Net) (past : List Event) :
    Faithful (run net past).table (learned net past) := by
  induction past with
  | nil => exact ⟨fun i _ j _ h => absurd rfl h, fun i _ h => absurd rfl h, id⟩
  | cons ev past ih =>
    have hlater : Faithful (run net past).table (learned net (ev :: past)) := by
      refine ⟨ih.distinct, fun i hi h => Or.inl (ih.heard i hi h), ?_⟩
      rintro (h | ⟨h, -⟩)
      · exact ih.nonzero h
      · exact h rfl
    rw [run, step_table]
    cases hev : announces net ev with
    | none => exact hlater
    | some e =>
      rcases addArpTable_table (run net past) e with ⟨i, hi, hfree, he, hnew, hadd⟩ | ⟨hadd, -⟩
      · rw [elim_some, hadd]
        exact hlater.update hnew (Or.inr ⟨he, ⟨i, hi, hfree⟩, e, hev, rfl⟩)
      · rw [elim_some, hadd]
        exact hlater

/-- A search finds `e` if `e` is in the table and nothing else is there for its address. -/
theorem finds_iff (hd : ∀ i < maxArpTableNum, ∀ j < maxArpTableNum, (s.table i).ip ≠ 0 →
    (s.table i).ip = (s.table j).ip → i = j) (he : e.ip ≠ 0) (hi : i < maxArpTableNum)
    (hip : (s.table i).ip = e.ip) : Finds s e ↔ s.table i = e := by
  cases hsearch : searchArpTable s e.ip with
  | none => exact absurd hip (searchArpTable_none.mp hsearch i hi)
  | some j =>
    obtain ⟨hj, hjp⟩ := searchArpTable_some hsearch
    obtain rfl : i = j := hd i hi j hj (hip.trans_ne he) (hip.trans hjp.symm)
    rw [Finds, hsearch]
    constructor
    · rintro ⟨k, hk, h⟩
      rw [some.inj hk]
      exact h
    · intro h
      exact ⟨i, rfl, h⟩

end Learning

/-- **Learning.**  After every series of events: no two entries are for one address; a search for
an address that was not learnt finds nothing, except that 0.0.0.0 is found as long as an entry is
free; and while an entry is free, an announcement is found afterwards exactly when the entry for
its address, if there is one, says the same already. -/
theorem arp_learning_iff (net : Net) (past : List Event) :
    (∀ i < maxArpTableNum, ∀ j < maxArpTableNum, ((run net past).table i).ip ≠ 0 →
      ((run net past).table i).ip = ((run net past).table j).ip → i = j) ∧
    (∀ ip, (ip ∉ learned net past → searchArpTable (run net past) ip = none) ↔
      (ip = 0 → ¬ HasFree (run net past))) ∧
    ∀ ev e, announces net ev = some e → e.ip ≠ 0 → HasFree (run net past) →
      (Finds (run net (ev :: past)) e ↔ ∀ i < maxArpTableNum,
        ((run net past).table i).ip = e.ip → (run net past).table i = e) := by
  have hok := faithful_run net past
  refine ⟨hok.distinct, fun ip => ⟨?_, ?_⟩, fun ev e hev he hfree => ?_⟩
  · rintro hnone rfl ⟨i, hi, hip⟩
    exact searchArpTable_none.mp (hnone hok.nonzero) i hi hip
  · intro hzero hip
    rw [searchArpTable_none]
    rintro i hi rfl
    by_cases h0 : ((run net past).table i).ip = 0
    · exact hzero h0 ⟨i, hi, h0⟩
    · exact hip (hok.heard i hi h0)
  · have hdistinct := (faithful_run net (ev :: past)).distinct
    have htable := step_table net (run net past) ev
    rw [hev, elim_some] at htable
    rcases addArpTable_table (run net past) e with ⟨i, hi, -, -, hnew, hadd⟩ | ⟨hadd, hknown⟩
    · -- a new address
      have hentry : (run net (ev :: past)).table i = e := by
        rw [run, htable, hadd, update_self]
      rw [finds_iff hdistinct he hi (by rw [hentry])]
      exact iff_of_true hentry fun j hj hip => absurd hip (hnew j hj)
    · obtain ⟨i, hi, hip⟩ := hknown he hfree
      have hentry : (run net (ev :: past)).table = (run net past).table := htable.trans hadd
      rw [finds_iff hdistinct he hi (by rw [hentry, hip]), hentry]
      constructor
      · intro h j hj hjp
        rw [← hok.distinct i hi j hj (hip.trans_ne he) (hip.trans hjp.symm)]
        exact h
      · intro h
        exact h i hi hip

/-- A host that announces itself once more, with another hardware address, is found under its old
one; and 0.0.0.0 is found before anything was learnt. -/
theorem changed_address_lost :
    searchArpTable (run oneDevice []) 0 = some 0 ∧
    ∃ again : ArpHdr, again.saddr = answer.saddr ∧ again.smac ≠ answer.smac ∧
      searchArpTable (run oneDevice [.arp 0 again, .arp 0 answer]) again.saddr = some 0 ∧
      ((run oneDevice [.arp 0 again, .arp 0 answer]).table 0).mac = answer.smac :=
  ⟨rfl, { answer with smac := ⟨[6, 7, 8, 9, 10, 12], rfl⟩ }, rfl, by decide, rfl, rfl⟩

end Arp

end Yap
