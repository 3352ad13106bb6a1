/-
# Length fields of received frames (`net/inet/tcp.c`, `net/inet/icmp.c`)

A frame of `n` bytes carries lengths of its own: `tot_len` in the IP header and `doff` in the
TCP header.  The receive path takes the place and the length of the data from them, in 16-bit
arithmetic, and never compares them with `n`.

Every place where bytes are copied or summed under such a length leaves a `Span`.  Spans arise
when a segment is queued (what `tcp_get_data_off` and `tcp_get_data_lenght` say about it), when
`tcp_recv` copies from the queue, and when an ICMP packet is echoed.  The memory goes on behind
the frame, so a span that leaves the frame hands out what is there.

A run is about one connection and the frames that are sorted to it; `Event.other` is everything
that does not touch its receive queue.  Fragments make no span: the packet they are put together
to has a cleared header, and `ip_do_recv` frees it.
-/
import Yap.TcpHandshake

namespace Yap

namespace FrameBounds

open Tcp List

/-! ## Frames -/

/-- A received frame: `n` is `skb->data_len`, `mem` the memory from `skb->data_buf` on. -/
structure Frame where
  n : ℕ
  mem : ℕ → Byte
  n_lt : n < 2 ^ 16

namespace Frame

variable (f : Frame)

/-- Two bytes in network order. -/
def half (i : ℕ) : BitVec 16 := f.mem i ++ f.mem (i + 1)

/-- Four bytes in network order. -/
def word (i : ℕ) : BitVec 32 := f.half i ++ f.half (i + 2)

/-- `ntohs(eth->h_proto)`. -/
def hProto : BitVec 16 := f.half 12

/-- `ntohs(iph->tot_len)`. -/
def totLen : BitVec 16 := f.half 16

/-- `ntohs(iph->frag_off)`. -/
def fragOff : BitVec 16 := f.half 20

/-- `iph->protocol`. -/
def protocol : Byte := f.mem 23

/-- `tcph->doff`. -/
def doff : BitVec 4 := (f.mem 46).extractLsb' 4 4

/-- `tcp_get_data_off(skb) - skb->data_buf`. -/
def dataOff : ℕ := 34 + f.doff.toNat * 4

/-- The frame as a TCP segment; the body ends with the frame. -/
def skb : SkBuff where
  totLen := f.totLen
  doff := f.doff
  seq := f.word 38
  ackSeq := f.word 42
  window := f.half 48
  fin := (f.mem 47).getLsbD 0
  syn := (f.mem 47).getLsbD 1
  rst := (f.mem 47).getLsbD 2
  ack := (f.mem 47).getLsbD 4
  urg := (f.mem 47).getLsbD 5
  body := (range (f.n - f.dataOff)).map fun i => f.mem (f.dataOff + i)
  off := 0

/-- `tcp_get_data_lenght(skb)`. -/
def dataLen : BitVec 16 := tcpGetDataLenght f.skb

end Frame

/-- Bytes of a frame of `n` bytes that are copied or summed. -/
structure Span where
  n : ℕ
  start : ℕ
  count : ℕ
  deriving DecidableEq, Repr

/-- The span is in the frame. -/
def Span.Inside (r : Span) : Prop := r.count = 0 ∨ r.start + r.count ≤ r.n

instance (r : Span) : Decidable r.Inside := inferInstanceAs (Decidable (_ ∨ _))

namespace Frame

variable (f : Frame)

/-- The data of the segment, as the length fields give it. -/
def dataSpan : Span := ⟨f.n, f.dataOff, f.dataLen.toNat⟩

/-- `icmp_process` and `icmp_send`: the bytes under the checksum, and the `skb->data_len`
bytes that are sent. -/
def echoSpans : List Span :=
  let dataLen : BitVec 16 := f.totLen + 14
  let icmpLen : BitVec 16 := f.totLen - 20 - 8
  [⟨f.n, 34, (8 + icmpLen).toNat⟩, ⟨f.n, 0, dataLen.toNat⟩]

/-- The length fields stay in the frame: `hdr` is the size of what stands between the IP header
and the data. -/
def Fits (hdr : ℕ) : Prop := 20 + hdr ≤ f.totLen.toNat ∧ 14 + f.totLen.toNat ≤ f.n

theorem dataLen_toNat : f.dataLen.toNat =
    if 20 + f.doff.toNat * 4 ≤ f.totLen.toNat then f.totLen.toNat - (20 + f.doff.toNat * 4)
    else 2 ^ 16 + f.totLen.toNat - (20 + f.doff.toNat * 4) := by
  have h20 : sizeofIphdr.toNat = 20 := rfl
  have h4 : (4 : BitVec 16).toNat = 4 := rfl
  simp only [dataLen, tcpGetDataLenght, skb, BitVec.toNat_sub, BitVec.toNat_mul,
    BitVec.toNat_setWidth, h20, h4]
  split_ifs <;> omega

/-- The data of a segment that has any stays in the frame exactly when the fields fit: if
`tot_len` is too small, the difference wraps to more than any frame holds. -/
theorem dataSpan_inside_iff (hpos : 0 < f.dataLen.toNat) :
    f.dataSpan.Inside ↔ f.Fits (f.doff.toNat * 4) := by
  have hn := f.n_lt
  have hlen := f.dataLen_toNat
  unfold Span.Inside dataSpan Fits dataOff
  simp only
  split_ifs at hlen <;> omega

theorem echoSpans_inside_iff :
    (∀ r ∈ f.echoSpans, r.Inside) ↔ f.Fits 0 := by
  have hn := f.n_lt
  have hdata : (f.totLen + 14 : BitVec 16).toNat = (f.totLen.toNat + 14) % 2 ^ 16 := by
    rfl
  have hicmp : (8 + (f.totLen - 20 - 8) : BitVec 16).toNat =
      (f.totLen.toNat + (2 ^ 16 - 20)) % 2 ^ 16 := by
    have h8 : (8 : BitVec 16) + (f.totLen - 20 - 8) = f.totLen - 20 := by
      rw [BitVec.add_comm, BitVec.sub_add_cancel]
    have h20 : (20 : BitVec 16).toNat = 20 := rfl
    rw [h8, BitVec.toNat_sub, h20]
    omega
  unfold echoSpans Fits Span.Inside
  simp only [forall_mem_cons, not_mem_nil, false_imp_iff, implies_true, and_true, hdata,
    hicmp]
  omega

end Frame

/-! ## The connection -/

/-- A TCP connection, with the frames its queue is made of. -/
structure Conn where
  sock : Sock
  frames : List Frame

/-- The queue is made of the frames. -/
def Conn.Inv (c : Conn) : Prop := c.sock.recvData = c.frames.map Frame.skb

/-- The segment has data that `tcp_seg_sort` looks for a place for. -/
abbrev HasNews (s : Sock) (skb : SkBuff) : Prop :=
  (skb.rst = false ∧ skb.syn = false ∧ skb.fin = false) ∧
    0 < (tcpGetDataLenght skb).toNat ∧ ¬ skb.seq < s.ackSeq

/-- The socket that the segment leads to puts it on its queue. -/
def Links (s : Sock) (skb : SkBuff) : Prop :=
  s.status ∈ [.established, .closeWait, .finWait1, .finWait2, .timeWait] ∧ HasNews s skb ∧
    findSlot skb.seq s.recvData.reverse [] ≠ none

instance (s : Sock) (skb : SkBuff) : Decidable (Links s skb) := by
  unfold Links
  infer_instance

/-- The handler puts the segment on the queue. -/
def Queues (s : Sock) (skb : SkBuff) : Prop := Finds s skb ∧ Links s skb

instance (s : Sock) (skb : SkBuff) : Decidable (Queues s skb) :=
  inferInstanceAs (Decidable (_ ∧ _))

/-- The frames with the new one where `tcp_seg_sort` puts it. -/
def Conn.insert (c : Conn) (f : Frame) : List Frame :=
  match findSlot f.skb.seq c.sock.recvData.reverse [] with
  | some (front, _) => c.frames.take front.length ++ f :: c.frames.drop front.length
  | none => c.frames

/-- A TCP segment arrives. -/
def Conn.arrive (c : Conn) (f : Frame) (mss : Option (BitVec 16)) (answers : List ℤ) :
    Conn × List Span :=
  let s := (tcpReceivedDataHandler (receiveHandshake mss) { c.sock with answers := answers }
    f.skb).2
  if Queues c.sock f.skb then (⟨s, c.insert f⟩, [f.dataSpan]) else (⟨s, c.frames⟩, [])

/-- What the copy loop of `tcp_recv` copies. -/
def copies : List Frame → BitVec 16 → ℕ → List Span
  | [], _, _ => []
  | f :: rest, readPtr, remain =>
    let skbDataRemain := (f.dataLen - readPtr).toNat
    if skbDataRemain ≤ remain then
      ⟨f.n, f.dataOff + readPtr.toNat, skbDataRemain⟩ :: copies rest 0 (remain - skbDataRemain)
    else [⟨f.n, f.dataOff + readPtr.toNat, remain⟩]

/-- What it leaves in the queue. -/
def kept : List Frame → BitVec 16 → ℕ → List Frame
  | [], _, _ => []
  | f :: rest, readPtr, remain =>
    let skbDataRemain := (f.dataLen - readPtr).toNat
    if skbDataRemain ≤ remain then kept rest 0 (remain - skbDataRemain) else f :: rest

/-- A call of `tcp_recv` with a buffer of `len` bytes. -/
def Conn.recv (c : Conn) (len : ℕ) : Conn × List Span :=
  match tcpRecvReady c.sock len with
  | .data _ s => (⟨s, kept c.frames c.sock.readPtr len⟩, copies c.frames c.sock.readPtr len)
  | _ => (c, [])

/-- A frame arrives, a reader calls, or something happens to the socket that leaves the receive
queue alone. -/
inductive Event : Type where
  | frame (f : Frame) (mss : Option (BitVec 16)) (answers : List ℤ) : Event
  | recv (len : ℕ) : Event
  | other (s : Sock) : Event

/-- The test of `ip_recv`. -/
def Frame.IsFragment (f : Frame) : Prop :=
  f.fragOff &&& 0x2000 ≠ 0 ∨ f.fragOff &&& 0x1fff ≠ 0

instance (f : Frame) : Decidable f.IsFragment := inferInstanceAs (Decidable (_ ∨ _))

/-- What `eth_recv` makes of a frame: the echo of an ICMP packet, a segment for the connection,
or nothing that concerns it. -/
def Conn.ethRecv (c : Conn) (f : Frame) (mss : Option (BitVec 16)) (answers : List ℤ) :
    Conn × List Span :=
  if f.hProto ≠ 0x0800 ∨ f.IsFragment then (c, [])
  else if f.protocol = 1 then (c, f.echoSpans)
  else if f.protocol = 6 then c.arrive f mss answers
  else (c, [])

def Conn.step (c : Conn) : Event → Conn × List Span
  | .frame f mss answers => c.ethRecv f mss answers
  | .recv len => c.recv len
  | .other s => if s.rx = c.sock.rx then (⟨s, c.frames⟩, []) else (c, [])

/-- The state after a run. -/
def run : List Event → Conn → Conn
  | [], c => c
  | e :: es, c => run es (c.step e).1

/-- The spans of a run. -/
def spans : List Event → Conn → List Span
  | [], _ => []
  | e :: es, c => (c.step e).2 ++ spans es (c.step e).1

/-! ## The condition -/

/-- The length fields of an echoed packet and of a queued segment fit into the frame; a reader
that copies has `read_ptr` inside the first segment, or stays in its frame by chance. -/
def Conn.Meets (c : Conn) : Event → Prop
  | .frame f _ _ => f.hProto = 0x0800 → ¬ f.IsFragment →
      (f.protocol = 1 → f.Fits 0) ∧
        (f.protocol = 6 → Queues c.sock f.skb → f.Fits (f.doff.toNat * 4))
  | .recv len => c.sock.recvDataLen ≠ 0 → c.sock.errno = 0 → ∀ f ∈ c.frames.head?,
      len = 0 ∨ c.sock.readPtr ≤ f.dataLen ∨
        f.dataOff + c.sock.readPtr.toNat +
          min len (2 ^ 16 + f.dataLen.toNat - c.sock.readPtr.toNat) ≤ f.n
  | .other _ => True

/-- Every step of the run meets the condition in the state before it. -/
def AllMeet : List Event → Conn → Prop
  | [], _ => True
  | e :: es, c => c.Meets e ∧ AllMeet es (c.step e).1

/-! ## Copying from the queue -/

section

variable {f : Frame} {frames : List Frame} {c : Conn} {readPtr : BitVec 16} {len : ℕ}
  (mss : Option (BitVec 16))

theorem recvLoop_map (frames : List Frame) (readPtr : BitVec 16) (remain : ℕ) :
    (recvLoop (frames.map Frame.skb) readPtr remain).2.1 =
      (kept frames readPtr remain).map Frame.skb := by
  induction frames generalizing readPtr remain with
  | nil => rfl
  | cons f rest ih =>
    simp only [map_cons, recvLoop, kept]
    by_cases hle : (f.dataLen - readPtr).toNat ≤ remain
    · have hle' : (tcpGetDataLenght f.skb - readPtr).toNat ≤ remain := hle
      rw [if_pos hle, if_pos hle']
      exact ih _ _
    · have hle' : ¬ (tcpGetDataLenght f.skb - readPtr).toNat ≤ remain := hle
      rw [if_neg hle, if_neg hle']
      rfl

theorem kept_subset (frames : List Frame) (readPtr : BitVec 16) (remain : ℕ) :
    kept frames readPtr remain ⊆ frames := by
  induction frames generalizing readPtr remain with
  | nil => exact List.Subset.refl _
  | cons f rest ih =>
    simp only [kept]
    split_ifs
    · exact List.Subset.trans (ih _ _) (subset_cons_self _ _)
    · exact List.Subset.refl _

/-- Behind the first segment, copying starts at the beginning of each segment. -/
theorem copies_inside_of_zero (h : ∀ f ∈ frames, f.dataSpan.Inside) (len : ℕ) :
    ∀ r ∈ copies frames 0 len, r.Inside := by
  induction frames generalizing len with
  | nil => simp [copies]
  | cons f rest ih =>
    have hf : f.dataLen.toNat = 0 ∨ f.dataOff + f.dataLen.toNat ≤ f.n := h f mem_cons_self
    have hzero : (f.dataLen - 0).toNat = f.dataLen.toNat := by simp
    have h0 : (0 : BitVec 16).toNat = 0 := rfl
    simp only [copies, hzero, h0]
    split_ifs with hle
    · intro r hr
      rcases mem_cons.mp hr with rfl | hr
      · exact hf
      · exact ih (fun g hg => h g (mem_cons_of_mem _ hg)) _ r hr
    · intro r hr
      rw [mem_singleton.mp hr]
      show len = 0 ∨ f.dataOff + 0 + len ≤ f.n
      omega

/-- What `tcp_recv` copies stays in the frames exactly when this is so for the first one. -/
theorem copies_inside_iff (h : ∀ f ∈ frames, f.dataSpan.Inside) :
    (∀ r ∈ copies frames readPtr len, r.Inside) ↔ ∀ f ∈ frames.head?,
      len = 0 ∨ readPtr ≤ f.dataLen ∨
        f.dataOff + readPtr.toNat + min len (2 ^ 16 + f.dataLen.toNat - readPtr.toNat) ≤ f.n := by
  cases frames with
  | nil => simp [copies]
  | cons f rest =>
    have hf : f.dataLen.toNat = 0 ∨ f.dataOff + f.dataLen.toNat ≤ f.n := h f mem_cons_self
    have hrest := fun n => copies_inside_of_zero (fun g hg => h g (mem_cons_of_mem _ hg)) n
    have hsub : (f.dataLen - readPtr).toNat =
        if readPtr ≤ f.dataLen then f.dataLen.toNat - readPtr.toNat
        else 2 ^ 16 + f.dataLen.toNat - readPtr.toNat := by
      rw [BitVec.toNat_sub]
      split_ifs with hle
      · rw [BitVec.le_def] at hle
        omega
      · rw [BitVec.le_def] at hle
        omega
    have hhead : (∀ r ∈ copies (f :: rest) readPtr len, r.Inside) ↔
        (⟨f.n, f.dataOff + readPtr.toNat, min len (f.dataLen - readPtr).toNat⟩ : Span).Inside := by
      simp only [copies]
      split_ifs with hle
      · rw [forall_mem_cons, Nat.min_eq_right hle]
        exact and_iff_left (hrest _)
      · rw [forall_mem_singleton, Nat.min_eq_left (by omega)]
    rw [hhead, head?_cons]
    simp only [Option.mem_some_iff, forall_eq', Span.Inside, hsub, BitVec.le_def]
    split_ifs with hle <;> omega

/-! ## Arriving segments -/

theorem findSlot_append {seq : BitVec 32} {front back a b : List SkBuff}
    (h : findSlot seq front back = some (a, b)) : a.reverse ++ b = front.reverse ++ back := by
  induction front generalizing back with
  | nil =>
    obtain ⟨rfl, rfl⟩ := Prod.mk.inj (Option.some.inj h)
    rfl
  | cons t front ih =>
    unfold findSlot at h
    split_ifs at h
    · obtain ⟨rfl, rfl⟩ := Prod.mk.inj (Option.some.inj h)
      rfl
    · rw [ih h]
      simp

section

variable (s : Sock)

theorem rx_tcpSegSort (skb : SkBuff) : (tcpSegSort s skb).2.rx =
      if skb.seq < s.ackSeq then s.rx
      else match findSlot skb.seq s.recvData.reverse [] with
        | none => s.rx
        | some (front, back) => (front.reverse ++ skb :: back, s.readPtr) := by
  unfold tcpSegSort
  split_ifs
  · rfl
  · simp only [Sock.enterCritical]
    cases findSlot skb.seq s.recvData.reverse [] with
    | none => rfl
    | some p =>
      rw [(attends_acknowledge _ _).rx]
      rfl

/-- The queue after a segment has been sorted in, or not. -/
def sorted (skb : SkBuff) : List SkBuff × BitVec 16 :=
  match findSlot skb.seq s.recvData.reverse [] with
  | none => s.rx
  | some (front, back) => (front.reverse ++ skb :: back, s.readPtr)

theorem rx_setMss : (setMss mss s).rx = s.rx := by
  cases mss <;> rfl

/-- Segments of the handshake leave the receive queue alone. -/
theorem rx_receiveHandshake (skb : SkBuff) : (receiveHandshake mss s skb).2.rx = s.rx := by
  have hack := (attends_tcpAckHandler s skb).rx
  unfold receiveHandshake
  split
  · unfold receiveSynSent
    split_ifs
    · rfl
    · rfl
    · exact (rx_setMss mss _).trans ((attends_tcpSendAck ..).rx.trans hack)
  · unfold receiveSynRcvd
    split_ifs <;> exact hack
  · have hrequest : (tcpConnectRequestHandler mss s skb).2.rx = s.rx :=
      (attends_tcpSendAck ..).rx.trans (rx_setMss mss _)
    unfold receiveListen
    simp only
    by_cases hback : (skb.rst || skb.ack) = true
    · rw [if_pos hback]
    · rw [if_neg hback]
      by_cases hsyn : skb.syn = true
      · rw [if_pos hsyn]
        split_ifs <;> exact hrequest
      · rw [if_neg hsyn]
        rfl
  · rfl

theorem rx_receiveConnected (skb : SkBuff) :
    (receiveConnected s skb).2.rx = if HasNews s skb then sorted s skb else s.rx := by
  unfold receiveConnected
  by_cases hreset : (skb.rst || skb.syn) = true
  · rw [if_pos hreset, if_neg]
    · rfl
    · rintro ⟨⟨h1, h2, _⟩, _⟩
      simp [h1, h2] at hreset
  · rw [if_neg hreset]
    rw [Bool.or_eq_true, not_or, Bool.not_eq_true, Bool.not_eq_true] at hreset
    obtain ⟨hquiet, hack⟩ := attends_ack s skb
    generalize (if skb.ack then tcpAckHandler s skb else s) = t at *
    have hq : t.recvData = s.recvData := congrArg Prod.fst hquiet.rx
    have hp : t.readPtr = s.readPtr := congrArg Prod.snd hquiet.rx
    by_cases hfin : skb.fin = true
    · rw [if_pos hfin, if_neg (by simp [hfin])]
      show (tcpSendAck ..).2.rx = s.rx
      rw [(attends_tcpSendAck ..).rx]
      exact (attends_tcpFinHandler t skb).rx.trans hquiet.rx
    · rw [if_neg hfin]
      by_cases hlen : (tcpGetDataLenght skb).toNat > 0
      · rw [if_pos hlen, rx_tcpSegSort t skb, hack, hq, hp, hquiet.rx]
        by_cases hold : skb.seq < s.ackSeq
        · rw [if_pos hold, if_neg (by simp [hold])]
        · rw [if_neg hold, if_pos ⟨⟨hreset.1, hreset.2, by simpa using hfin⟩, hlen, hold⟩, sorted]
      · rw [if_neg hlen, if_neg fun h => hlen h.2.1]
        exact hquiet.rx

/-- In the states whose segments are examined for data the two conditions say the same: a
segment with no place in the queue is not put into it. -/
theorem ite_links (skb : SkBuff)
    (hs : s.status ∈ [.established, .closeWait, .finWait1, .finWait2, .timeWait]) :
    (if HasNews s skb then sorted s skb else s.rx) =
      if Links s skb then sorted s skb else s.rx := by
  by_cases hfind : findSlot skb.seq s.recvData.reverse [] = none
  · have hsame : sorted s skb = s.rx := by rw [sorted, hfind]
    rw [hsame, ite_self, ite_self]
  · have hiff : Links s skb ↔ HasNews s skb := ⟨fun h => h.2.1, fun h => ⟨hs, h, hfind⟩⟩
    simp only [hiff]

/-- What the switch over the states does to the receive queue. -/
theorem rx_tcpReceive (skb : SkBuff) :
    (tcpReceive mss s skb).2.rx = if Links s skb then sorted s skb else s.rx := by
  have hquiet : s.status ∉ [.established, .closeWait, .finWait1, .finWait2, .timeWait] →
      (if Links s skb then sorted s skb else s.rx) = s.rx := fun h => if_neg fun hq => h hq.1
  unfold tcpReceive receiveSwitch
  cases hst : s.status
  case listen | synSent | synRcvd =>
    rw [hquiet (by simp [hst])]
    exact rx_receiveHandshake mss s skb
  case lastAck =>
    rw [hquiet (by simp [hst])]
    exact (attends_tcpAckHandler s skb).rx
  case closed | closing =>
    rw [hquiet (by simp [hst])]
  all_goals
    rw [← ite_links s skb (by simp [hst])]
    exact rx_receiveConnected s skb

/-- What a segment does to the receive queue. -/
theorem rx_tcpReceivedDataHandler (skb : SkBuff) :
    (tcpReceivedDataHandler (receiveHandshake mss) s skb).2.rx =
      if Queues s skb then sorted s skb else s.rx := by
  have hswitch := rx_tcpReceive mss s skb
  unfold tcpReceivedDataHandler
  by_cases hfinds : Finds s skb
  · simp only [Queues, hfinds, true_and]
    exact hswitch
  · rw [if_neg hfinds, if_neg fun hq : Queues s skb => hfinds hq.1]

end

/-! ## The queue is made of the frames -/

theorem map_insert (h : c.Inv) (hq : Queues c.sock f.skb) :
    (sorted c.sock f.skb).1 = (c.insert f).map Frame.skb := by
  obtain ⟨p, hfind⟩ := Option.ne_none_iff_exists'.mp hq.2.2.2
  obtain ⟨front, back⟩ := p
  have hsplit : front.reverse ++ back = c.frames.map Frame.skb := by
    rw [findSlot_append hfind, reverse_reverse, append_nil]
    exact h
  have hlen : front.length = front.reverse.length := length_reverse.symm
  simp only [sorted, Conn.insert, hfind, map_append, map_cons, map_take,
    map_drop, ← hsplit]
  rw [hlen, take_left, drop_left]

theorem inv_arrive (h : c.Inv) (f : Frame) (answers : List ℤ) :
    (c.arrive f mss answers).1.Inv := by
  have hrx := congrArg Prod.fst
    (rx_tcpReceivedDataHandler mss { c.sock with answers := answers } f.skb)
  unfold Conn.arrive
  by_cases hq : Queues c.sock f.skb
  · rw [if_pos (show Queues { c.sock with answers := answers } f.skb from hq)] at hrx
    rw [if_pos hq]
    exact hrx.trans (map_insert h hq)
  · rw [if_neg (show ¬ Queues { c.sock with answers := answers } f.skb from hq)] at hrx
    rw [if_neg hq]
    exact hrx.trans h

/-- A call that copies. -/
theorem recv_of_ready (hlen : c.sock.recvDataLen ≠ 0) (herr : c.sock.errno = 0) (len : ℕ) :
    ∃ s, s.recvData = (recvLoop c.sock.recvData c.sock.readPtr len).2.1 ∧
      c.recv len = (⟨s, kept c.frames c.sock.readPtr len⟩, copies c.frames c.sock.readPtr len) := by
  unfold Conn.recv tcpRecvReady
  rw [if_neg hlen, if_neg (not_not.mpr herr)]
  exact ⟨_, rfl, rfl⟩

/-- A call that waits or fails. -/
theorem recv_of_not_ready (h : ¬ (c.sock.recvDataLen ≠ 0 ∧ c.sock.errno = 0)) (len : ℕ) :
    c.recv len = (c, []) := by
  unfold Conn.recv tcpRecvReady
  by_cases hlen : c.sock.recvDataLen = 0
  · rw [if_pos hlen]
  · rw [if_neg hlen, if_pos fun herr => h ⟨hlen, herr⟩]

theorem inv_step (h : c.Inv) (e : Event) : (c.step e).1.Inv := by
  cases e with
  | frame f mss answers =>
    show (c.ethRecv f mss answers).1.Inv
    unfold Conn.ethRecv
    split_ifs
    · exact h
    · exact h
    · exact inv_arrive mss h f answers
    · exact h
  | recv len =>
    show (c.recv len).1.Inv
    by_cases hready : c.sock.recvDataLen ≠ 0 ∧ c.sock.errno = 0
    · obtain ⟨s, hs, hrecv⟩ := recv_of_ready hready.1 hready.2 len
      rw [hrecv]
      show s.recvData = _
      rw [hs, show c.sock.recvData = _ from h]
      exact recvLoop_map _ _ _
    · rw [recv_of_not_ready hready]
      exact h
  | other s =>
    simp only [Conn.step]
    split_ifs with hs
    · exact (congrArg Prod.fst hs).trans h
    · exact h

theorem inv_run (h : c.Inv) (es : List Event) : (run es c).Inv := by
  induction es generalizing c with
  | nil => exact h
  | cons e es ih => exact ih (inv_step h e)

/-! ## One step -/

/-- The data of every queued segment is in its frame. -/
def Conn.Inside (c : Conn) : Prop := ∀ f ∈ c.frames, f.dataSpan.Inside

theorem mem_insert {g : Frame} (h : g ∈ c.insert f) : g = f ∨ g ∈ c.frames := by
  unfold Conn.insert at h
  split at h
  · rcases mem_append.mp h with h | h
    · exact .inr (mem_of_mem_take h)
    · rcases mem_cons.mp h with h | h
      · exact .inl h
      · exact .inr (mem_of_mem_drop h)
  · exact .inr h

theorem arrive_iff (f : Frame) (answers : List ℤ) :
    (∀ r ∈ (c.arrive f mss answers).2, r.Inside) ↔
      (Queues c.sock f.skb → f.Fits (f.doff.toNat * 4)) := by
  unfold Conn.arrive
  by_cases hq : Queues c.sock f.skb
  · rw [if_pos hq, forall_mem_singleton, f.dataSpan_inside_iff hq.2.2.1.2.1]
    exact (imp_iff_right hq).symm
  · rw [if_neg hq]
    exact iff_of_true (fun r hr => absurd hr not_mem_nil) (fun h => absurd h hq)

theorem ethRecv_iff (f : Frame) (answers : List ℤ) :
    (∀ r ∈ (c.ethRecv f mss answers).2, r.Inside) ↔ c.Meets (.frame f mss answers) := by
  have hnone : ∀ r ∈ ([] : List Span), r.Inside := fun r hr => absurd hr not_mem_nil
  simp only [Conn.Meets]
  unfold Conn.ethRecv
  by_cases hother : f.hProto ≠ 0x0800 ∨ f.IsFragment
  · rw [if_pos hother]
    refine iff_of_true hnone fun h1 h2 => ?_
    rcases hother with h | h
    · exact absurd h1 h
    · exact absurd h h2
  · rw [if_neg hother]
    obtain ⟨hip, hfrag⟩ := not_or.mp hother
    rw [imp_iff_right (not_not.mp hip), imp_iff_right hfrag]
    by_cases hicmp : f.protocol = 1
    · have htcp : ¬ f.protocol = 6 := by
        rw [hicmp]
        decide
      rw [if_pos hicmp, f.echoSpans_inside_iff]
      exact ⟨fun h => ⟨fun _ => h, fun h6 => absurd h6 htcp⟩, fun h => h.1 hicmp⟩
    · rw [if_neg hicmp]
      by_cases htcp : f.protocol = 6
      · rw [if_pos htcp, arrive_iff]
        exact ⟨fun h => ⟨fun h1 => absurd h1 hicmp, fun _ => h⟩, fun h => h.2 htcp⟩
      · rw [if_neg htcp]
        exact iff_of_true hnone ⟨fun h1 => absurd h1 hicmp, fun h6 => absurd h6 htcp⟩

/-- **One step.**  While the queued data is in the frames, the step stays in the frames exactly
when it meets the condition. -/
theorem step_iff (h : c.Inside) (e : Event) : (∀ r ∈ (c.step e).2, r.Inside) ↔ c.Meets e := by
  cases e with
  | frame f mss answers => exact ethRecv_iff mss f answers
  | recv len =>
    show (∀ r ∈ (c.recv len).2, r.Inside) ↔ (_ → _ → _)
    by_cases hready : c.sock.recvDataLen ≠ 0 ∧ c.sock.errno = 0
    · obtain ⟨s, -, hrecv⟩ := recv_of_ready hready.1 hready.2 len
      rw [hrecv, imp_iff_right hready.1, imp_iff_right hready.2]
      exact copies_inside_iff h
    · rw [recv_of_not_ready hready]
      exact iff_of_true (fun r hr => absurd hr not_mem_nil)
        fun h1 h2 => absurd ⟨h1, h2⟩ hready
  | other s =>
    simp only [Conn.step, Conn.Meets]
    split_ifs <;> simp

/-- A step that meets the condition keeps the queued data in the frames. -/
theorem inside_step (h : c.Inside) {e : Event} (hm : c.Meets e) : (c.step e).1.Inside := by
  cases e with
  | frame f mss answers =>
    have hspans := (ethRecv_iff mss f answers).mpr hm
    show (c.ethRecv f mss answers).1.Inside
    unfold Conn.ethRecv at hspans ⊢
    split_ifs at hspans ⊢
    · exact h
    · exact h
    · unfold Conn.arrive at hspans ⊢
      split_ifs at hspans ⊢
      · intro g hg
        rcases mem_insert hg with rfl | hg
        · exact hspans _ (mem_singleton_self _)
        · exact h g hg
      · exact h
    · exact h
  | recv len =>
    show (c.recv len).1.Inside
    by_cases hready : c.sock.recvDataLen ≠ 0 ∧ c.sock.errno = 0
    · obtain ⟨s, -, hrecv⟩ := recv_of_ready hready.1 hready.2 len
      rw [hrecv]
      exact fun g hg => h g (kept_subset _ _ _ hg)
    · rw [recv_of_not_ready hready]
      exact h
  | other s =>
    simp only [Conn.step]
    split_ifs <;> exact h

/-- **A run.** -/
theorem spans_iff (h : c.Inside) (es : List Event) :
    (∀ r ∈ spans es c, r.Inside) ↔ AllMeet es c := by
  induction es generalizing c with
  | nil => simp [spans, AllMeet]
  | cons e es ih =>
    simp only [spans, AllMeet]
    rw [forall_mem_append, step_iff h e]
    exact and_congr_right fun hm => ih (inside_step h hm)

end

/-! ## Whole runs -/

/-- An IP packet in a frame, with the total length its header claims. -/
def ipFrame (totLen : BitVec 16) (protocol : Byte) (payload : List Byte) : List Byte :=
  replicate 12 0 ++
    [8, 0, 0x45, 0, totLen.extractLsb' 8 8, totLen.extractLsb' 0 8, 0, 0, 0, 0, 64, protocol] ++
    replicate 10 0 ++ payload

/-- A TCP header of 20 bytes with the number 0 and no flag but `ACK`. -/
def plainHeader : List Byte := replicate 12 0 ++ [0x50, 0x10] ++ replicate 6 0

/-- The frame of an IP packet, with zeros behind it. -/
def frameOf (totLen : BitVec 16) (protocol : Byte) (payload : List Byte)
    (h : (ipFrame totLen protocol payload).length < 2 ^ 16) : Frame :=
  ⟨_, fun i => (ipFrame totLen protocol payload).getD i 0, h⟩

/-- A connection with an empty queue. -/
def openConn : Conn := ⟨blankSock, []⟩

/-- Five bytes arrive and are read in two calls, then an echo request of 8 bytes arrives. -/
def honestRun : List Event :=
  [.frame (frameOf 45 6 (plainHeader ++ [1, 2, 3, 4, 5]) (by decide)) none [], .recv 3, .recv 10,
    .frame (frameOf 28 1 (replicate 8 0) (by decide)) none []]

/-- The same two frames, with a total length of 1000 in each. -/
def claimedRun : List Event :=
  [.frame (frameOf 1000 6 (plainHeader ++ [1, 2, 3, 4, 5]) (by decide)) none [], .recv 512,
    .frame (frameOf 1000 1 (replicate 8 0) (by decide)) none []]

end FrameBounds

end Yap
