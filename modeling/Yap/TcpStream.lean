/-
# The TCP receive stream

A peer cuts a byte stream into segments, the network delivers them in any order and
any number of times, and the application reads with `tcp_recv`.  The bytes read are
a prefix of the stream as long as

* a segment that is not dropped as old (`seq < ack_seq`) has not been read to its
  end before, and its sequence number compares with those of the queued segments as
  their positions in the stream do, and
* `tcp_recv` does not read across a gap in the queue.

Neither is checked by the code: `tcp_recv` never looks at `ack_seq`, and all
comparisons are of plain unsigned numbers.  `tcp_recv_skips_a_byte` is a run of two
calls that delivers the second byte of a stream first.
-/
import Yap.Tcp

namespace Yap

namespace Tcp

open List

/-! ## The peer -/

/-- The header fields of an arriving segment that the peer and the network are free
to choose. -/
structure Hdr where
  doff : BitVec 4
  ackSeq : BitVec 32
  window : BitVec 16
  fin : Bool
  syn : Bool
  rst : Bool
  ack : Bool
  urg : Bool

/-- A peer: its stream, cut into segments, and the sequence number of its first
byte. -/
structure Peer where
  chunks : List (List Byte)
  first : BitVec 32
  nonempty : ∀ c ∈ chunks, c ≠ []

namespace Peer

/-- The stream. -/
def stream (p : Peer) : List Byte := p.chunks.flatten

/-- Position of segment `i` in the stream. -/
def off (p : Peer) (i : ℕ) : ℕ := ((p.chunks.take i).flatten).length

/-- Payload of segment `i`. -/
def chunk (p : Peer) (i : ℕ) : List Byte := p.chunks.getD i []

/-- Segment `i` as it arrives under the header `h`. -/
def skb (p : Peer) (i : ℕ) (h : Hdr) : SkBuff where
  totLen := BitVec.ofNat 16 (20 + h.doff.toNat * 4 + (p.chunk i).length)
  doff := h.doff
  seq := p.first + BitVec.ofNat 32 (p.off i)
  ackSeq := h.ackSeq
  window := h.window
  fin := h.fin
  syn := h.syn
  rst := h.rst
  ack := h.ack
  urg := h.urg
  body := p.chunk i
  off := p.off i

/-- A socket that has just become `ESTABLISHED` with this peer. -/
structure Fresh (p : Peer) (s : Sock) : Prop where
  status : s.status = .established
  errno : s.errno = 0
  recvData : s.recvData = []
  recvDataLen : s.recvDataLen = 0
  readPtr : s.readPtr = 0
  ackSeq : s.ackSeq = p.first

variable {i j : ℕ}

theorem off_succ (p : Peer) (hi : i < p.chunks.length) :
    p.off (i + 1) = p.off i + (p.chunk i).length := by
  rw [off, off, take_succ_eq_append_getElem hi, flatten_append, length_append]
  simp [chunk, hi]

theorem off_mono (p : Peer) (h : i ≤ j) : p.off i ≤ p.off j := by
  have : (p.chunks.take i).flatten <+: (p.chunks.take j).flatten := by
    rw [← take_append_drop i (p.chunks.take j), take_take, Nat.min_eq_left h,
      flatten_append]
    exact prefix_append _ _
  exact this.length_le

section

variable (p : Peer) (hi : i < p.chunks.length)

include hi

theorem chunk_length_pos : 0 < (p.chunk i).length := by
  have hmem : p.chunk i ∈ p.chunks := by
    simp [chunk, hi]
  exact length_pos_iff.mpr (p.nonempty _ hmem)

/-- Segments do not overlap. -/
theorem off_add_le (h : i < j) : p.off i + (p.chunk i).length ≤ p.off j := by
  rw [← p.off_succ hi]
  exact p.off_mono h

theorem chunk_prefix : p.chunk i <+: p.stream.drop (p.off i) := by
  have hs : p.stream = (p.chunks.take i).flatten ++ (p.chunks.drop i).flatten := by
    rw [stream, ← flatten_append, take_append_drop]
  rw [hs, off, drop_left, drop_eq_getElem_cons hi, flatten_cons]
  simp [chunk, hi]

end

end Peer

/-- The queue element `t` is segment `i` of the peer. -/
structure IsSegment (p : Peer) (t : SkBuff) (i : ℕ) : Prop where
  lt : i < p.chunks.length
  off : t.off = p.off i
  body : t.body = p.chunk i
  len : (tcpGetDataLenght t).toNat = t.body.length

variable {i d rp n : ℕ} {p : Peer} {t skb : SkBuff} {q : List SkBuff} {s : Sock} {bs : List Byte}

/-- A segment that fits a datagram has the right length field. -/
theorem isSegment_skb (p : Peer) (hi : i < p.chunks.length) (h : Hdr)
    (hfit : 20 + h.doff.toNat * 4 + (p.chunk i).length < 2 ^ 16) :
    IsSegment p (p.skb i h) i where
  lt := hi
  off := rfl
  body := rfl
  len := by
    have h20 : (20 : BitVec 16).toNat = 20 := rfl
    have h4 : (4 : BitVec 16).toNat = 4 := rfl
    simp only [tcpGetDataLenght, Peer.skb, sizeofIphdr, BitVec.toNat_sub, BitVec.toNat_mul,
      BitVec.toNat_setWidth, BitVec.toNat_ofNat, h20, h4]
    omega

/-! ## What leaves the receive queue alone -/

/-- The receive queue and the read position. -/
def Sock.rx (s : Sock) : List SkBuff × BitVec 16 := (s.recvData, s.readPtr)

/-- Past the handshake. -/
def Status.connected : Status → Bool
  | .listen | .synSent | .synRcvd => false
  | _ => true

/-- What a step that does not touch the receive queue keeps. -/
structure Quiet (s s' : Sock) : Prop where
  rx : s'.rx = s.rx
  connected : s.status.connected → s'.status.connected

namespace Quiet

theorem of_eq {s s' : Sock} (hq : s'.recvData = s.recvData) (hp : s'.readPtr = s.readPtr)
    (hs : s'.status = s.status) : Quiet s s' :=
  ⟨by simp [Sock.rx, hq, hp], by rw [hs]; exact id⟩

/-- A step that only ends the connection. -/
theorem of_connected {s s' : Sock} (hq : s'.recvData = s.recvData) (hp : s'.readPtr = s.readPtr)
    (hs : s'.status.connected) : Quiet s s' :=
  ⟨by simp [Sock.rx, hq, hp], fun _ => hs⟩

end Quiet

theorem ask_eq (s : Sock) :
    s.ask = (s.answers.headD 0, { s with answers := s.answers.tail }) := by
  unfold Sock.ask
  split
  · cases s
    simp_all
  · simp_all

/-! ### What the functions write -/

theorem modTimer_writes (s : Sock) (e : BitVec 32) :
    ∃ t, (s.modTimer e).2 = { s with timer := t } ∧ t.isSome = s.timer.isSome := by
  unfold Sock.modTimer
  split
  · exact ⟨_, rfl, rfl⟩
  · rename_i h
    exact ⟨_, rfl, by rw [h]; rfl⟩

theorem tcpSelectWindow_writes (s : Sock) : ∃ w, tcpSelectWindow s = { s with window := w } := by
  unfold tcpSelectWindow
  split_ifs <;> exact ⟨_, rfl⟩

theorem tcpSendAck_writes (s : Sock) (seq ackSeq : BitVec 32) (syn fin now : Bool) :
    ∃ w l q b as, (tcpSendAck s seq ackSeq syn fin now).2 =
      { s with window := w, sent := l, ackQueue := q, ackBacklog := b, answers := as } := by
  obtain ⟨w, hw⟩ := tcpSelectWindow_writes { s with answers := s.answers.tail }
  unfold tcpSendAck
  simp only [ask_eq, hw]
  split_ifs <;> exact ⟨_, _, _, _, _, rfl⟩

theorem tcpSendSyn_writes (s : Sock) : ∃ n w l as,
    (tcpSendSyn s).2 = { s with sendSeq := n, window := w, sent := l, answers := as } := by
  obtain ⟨w, hw⟩ := tcpSelectWindow_writes { s with answers := s.answers.tail, sendSeq := 0x1234 }
  unfold tcpSendSyn
  simp only [ask_eq, hw]
  split_ifs <;> exact ⟨_, _, _, _, rfl⟩

theorem sendDelayedAck_writes (s : Sock) : ∃ l q b as,
    sendDelayedAck s = { s with sent := l, ackQueue := q, ackBacklog := b, answers := as } := by
  unfold sendDelayedAck
  split
  · exact ⟨_, _, _, _, rfl⟩
  · simp only [ask_eq]
    exact ⟨_, _, _, _, rfl⟩

theorem sendReady_writes (segs : List TcpSeg) : ∀ s : Sock, ∃ w l as,
    sendReady segs s = { s with sendWindow := w, sent := l, answers := as } := by
  induction segs with
  | nil => exact fun s => ⟨_, _, _, rfl⟩
  | cons seg segs ih =>
    intro s
    unfold sendReady
    simp only [ask_eq]
    split_ifs
    · exact ⟨_, _, _, rfl⟩
    · obtain ⟨w, l, as, heq⟩ := ih _
      exact ⟨w, l, as, heq⟩

theorem tcpProcessSendWindow_writes (s : Sock) : ∃ w l as,
    tcpProcessSendWindow s = { s with sendWindow := w, sent := l, answers := as } := by
  unfold tcpProcessSendWindow
  split_ifs
  · exact ⟨_, _, _, rfl⟩
  · exact sendReady_writes _ { s with sendWindow := fillReady s.sendWindow.wait s.sendWindow }

/-! ### What acknowledging and the timer leave alone -/

/-- The receive queue stays as it is; past the handshake the connection stays there, and its timer
where it is. -/
structure Attends (s s' : Sock) : Prop where
  rx : s'.rx = s.rx
  connected : s.status.connected → s'.status.connected ∧ s'.timer.isSome = s.timer.isSome

namespace Attends

theorem refl (s : Sock) : Attends s s := ⟨rfl, fun h => ⟨h, rfl⟩⟩

theorem trans {s s' s'' : Sock} (h : Attends s s') (h' : Attends s' s'') : Attends s s'' := by
  refine ⟨h'.rx.trans h.rx, fun hs => ?_⟩
  obtain ⟨hs', ht'⟩ := h.connected hs
  obtain ⟨hs'', ht''⟩ := h'.connected hs'
  exact ⟨hs'', ht''.trans ht'⟩

theorem of_not_connected {s s' : Sock} (hs : s.status.connected = false) (hrx : s'.rx = s.rx) :
    Attends s s' :=
  ⟨hrx, fun h => absurd (hs.symm.trans h) nofun⟩

theorem quiet {s s' : Sock} (h : Attends s s') : Quiet s s' :=
  ⟨h.rx, fun hs => (h.connected hs).1⟩

end Attends

theorem attends_modTimer (s : Sock) (e : BitVec 32) : Attends s (s.modTimer e).2 := by
  obtain ⟨t, heq, ht⟩ := modTimer_writes s e
  rw [heq]
  exact ⟨rfl, fun hs => ⟨hs, ht⟩⟩

theorem attends_tcpSendAck (s : Sock) (seq ackSeq : BitVec 32) (syn fin now : Bool) :
    Attends s (tcpSendAck s seq ackSeq syn fin now).2 := by
  obtain ⟨_, _, _, _, _, heq⟩ := tcpSendAck_writes s seq ackSeq syn fin now
  rw [heq]
  exact ⟨rfl, fun hs => ⟨hs, rfl⟩⟩

theorem attends_ackLoop (ts : List SkBuff) (ret : ℤ) (s : Sock) :
    Attends s (ackLoop ts ret s).2 := by
  induction ts generalizing ret s with
  | nil => exact .refl s
  | cons t ts ih =>
    unfold ackLoop
    simp only
    have h : Attends s { s with ackSeq := tcpGetAckseq t } := ⟨rfl, fun hs => ⟨hs, rfl⟩⟩
    split_ifs
    · exact attends_tcpSendAck ..
    · exact h.trans (attends_tcpSendAck ..)
    · exact (h.trans (attends_tcpSendAck ..)).trans (ih _ _)

theorem attends_sendDelayedAck (s : Sock) : Attends s (sendDelayedAck s) := by
  obtain ⟨_, _, _, _, heq⟩ := sendDelayedAck_writes s
  rw [heq]
  exact ⟨rfl, fun hs => ⟨hs, rfl⟩⟩

theorem attends_timerSwitch (s : Sock) : Attends s (timerSwitch s) := by
  unfold timerSwitch
  cases h : s.status
  case synRcvd =>
    have hs : s.status.connected = false := by rw [h]; rfl
    refine Attends.trans ?_ (attends_modTimer _ _)
    split_ifs
    · exact .of_not_connected hs rfl
    · exact .refl s
  case synSent =>
    have hs : s.status.connected = false := by rw [h]; rfl
    have hsyn : Attends s (tcpSendSyn { s with
        retries := s.retries - 1, timeout := s.ticks.setWidth 16 }).2 := by
      obtain ⟨_, _, _, _, heq⟩ := tcpSendSyn_writes { s with
        retries := s.retries - 1, timeout := s.ticks.setWidth 16 }
      rw [heq]
      exact .of_not_connected hs rfl
    have htimer := hsyn.trans (attends_modTimer _ 20)
    rw [h] at hsyn htimer
    simp only
    split_ifs
    · exact .of_not_connected hs hsyn.rx
    · exact .of_not_connected hs htimer.rx
    · exact htimer
    · exact .of_not_connected hs rfl
  case established =>
    obtain ⟨_, _, _, heq⟩ := tcpProcessSendWindow_writes s
    refine Attends.trans ?_ (attends_modTimer _ _)
    rw [heq]
    exact ⟨rfl, fun hs => ⟨hs, rfl⟩⟩
  case finWait1 | closing | lastAck =>
    refine Attends.trans ?_ (attends_modTimer _ _)
    split_ifs
    · exact ⟨rfl, fun _ => ⟨rfl, rfl⟩⟩
    · exact ⟨rfl, fun _ => ⟨rfl, rfl⟩⟩
    · exact .refl s
  case timeWait =>
    refine Attends.trans ?_ (attends_modTimer _ _)
    exact ⟨rfl, fun _ => ⟨rfl, rfl⟩⟩
  all_goals exact .refl s

theorem attends_drainAcks (n : ℕ) (s : Sock) : Attends s (drainAcks n s) := by
  induction n generalizing s with
  | zero => exact .refl s
  | succ n ih =>
    unfold drainAcks
    split_ifs
    · exact .refl s
    · exact ((attends_sendDelayedAck s).trans (attends_timerSwitch _)).trans (ih _)

theorem attends_acknowledge (ts : List SkBuff) (s : Sock) : Attends s (acknowledge ts s).2 := by
  have hin : ∀ {t t' : Sock}, Attends t.enterCritical t' → Attends t t'.exitCritical :=
    fun h => ⟨h.rx, h.connected⟩
  have hloop := hin (attends_ackLoop ts 0 s.enterCritical)
  unfold acknowledge
  simp only
  split_ifs
  · exact hloop.trans (hin (attends_drainAcks _ _))
  · exact hloop

section

variable (s : Sock) (skb : SkBuff)

theorem ackSwitch_writes :
    ∃ e st t, ackSwitch s skb = { s with errno := e, status := st, timeout := t } ∧
      (s.status.connected → st.connected) := by
  unfold ackSwitch
  split
  · split_ifs
    · exact ⟨_, _, _, rfl, fun _ => rfl⟩
    · exact ⟨_, _, _, rfl, id⟩
  · split_ifs
    · exact ⟨_, _, _, rfl, fun _ => rfl⟩
    · exact ⟨_, _, _, rfl, id⟩
  · exact ⟨_, _, _, rfl, id⟩

/-- **What `tcp_ack_handler` writes.**  Every other field of the socket stays as it is. -/
theorem tcpAckHandler_writes :
    ∃ e st t, tcpAckHandler s skb =
      { s with
        errno := e, status := st, timeout := t
        receivedAck := if s.receivedAck < skb.ackSeq then skb.ackSeq else s.receivedAck
        flags := s.flags &&& ~~~1
        sendWindow := ackSegments skb.ackSeq skb.window s.sendWindow.waitAck s.sendWindow
        cpu := s.cpu.enterCritical.exitCritical } ∧
      (s.status.connected → st.connected) := by
  obtain ⟨e, st, t, hswitch, hconn⟩ := ackSwitch_writes s skb
  refine ⟨e, st, t, ?_, hconn⟩
  unfold tcpAckHandler
  rw [hswitch]
  by_cases h : s.receivedAck < skb.ackSeq
  · simp only [h, if_true]
    rfl
  · simp only [h, if_false]
    rfl

theorem attends_tcpAckHandler : Attends s (tcpAckHandler s skb) := by
  obtain ⟨_, _, _, heq, hconn⟩ := tcpAckHandler_writes s skb
  rw [heq]
  exact ⟨rfl, fun hs => ⟨hconn hs, rfl⟩⟩

/-- The acknowledgement in a segment does not change `ack_seq` either. -/
theorem attends_ack :
    Attends s (if skb.ack then tcpAckHandler s skb else s) ∧
      (if skb.ack then tcpAckHandler s skb else s).ackSeq = s.ackSeq := by
  split_ifs
  · obtain ⟨_, _, _, heq, -⟩ := tcpAckHandler_writes s skb
    exact ⟨attends_tcpAckHandler s skb, by rw [heq]⟩
  · exact ⟨.refl s, rfl⟩

theorem finSwitch_writes (s : Sock) : ∃ r st t tm f, finSwitch s =
    { s with retries := r, status := st, timeout := t, timer := tm, freed := f } ∧
      (s.status.connected → st.connected) ∧ tm.isSome = s.timer.isSome := by
  unfold finSwitch
  cases h : s.status
  case established => exact ⟨_, _, _, _, _, rfl, fun _ => rfl, rfl⟩
  case finWait1 | finWait2 =>
    obtain ⟨tm, heq, htm⟩ := modTimer_writes { s with
      retries := tcpRetryTimes, status := .timeWait, timeout := s.ticks.setWidth 16 } 20
    simp only [heq]
    split_ifs <;> exact ⟨_, _, _, _, _, rfl, fun _ => rfl, htm⟩
  all_goals exact ⟨_, _, _, _, _, rfl, fun hs => by rw [h]; exact hs, rfl⟩

theorem attends_tcpFinHandler : Attends s (tcpFinHandler s skb) := by
  refine (attends_tcpSendAck s s.receivedAck (skb.seq + 1) false false true).trans ?_
  obtain ⟨_, _, _, _, _, heq, hconn, htm⟩ := finSwitch_writes
    (tcpSendAck s s.receivedAck (skb.seq + 1) false false true).2
  rw [tcpFinHandler, heq]
  exact ⟨rfl, fun hs => ⟨hconn hs, htm⟩⟩

end

/-! ## The queue -/

/-- The receive queue when `d` bytes of the stream have been delivered and `rp` bytes
of the first queued segment have been read. -/
structure Queued (p : Peer) (d : ℕ) (q : List SkBuff) (rp : ℕ) : Prop where
  segs : ∀ t ∈ q, ∃ i, IsSegment p t i
  sorted : q.Pairwise (fun a b => a.off < b.off)
  /-- between two segments: what is queued is unread, and no segment straddles `d` -/
  between : rp = 0 → (∀ t ∈ q, d ≤ t.off) ∧
    ∀ i < p.chunks.length, p.off i + (p.chunk i).length ≤ d ∨ d ≤ p.off i
  /-- inside a segment: it is the first of the queue -/
  inside : 0 < rp → ∃ t r, q = t :: r ∧ t.off + rp = d ∧ rp < t.body.length

/-- Reading `n` bytes of the queue from stream position `pos` on meets no gap. -/
def ReadsInOrder : ℕ → List SkBuff → ℕ → Prop
  | _, [], _ => True
  | pos, t :: q, n =>
    n = 0 ∨ (t.off = pos ∧ ReadsInOrder (pos + t.body.length) q (n - t.body.length))

/-- The sequence number of `skb` compares with those of the queue as the positions do. -/
def ComparesAsStream (q : List SkBuff) (skb : SkBuff) : Prop :=
  ∀ t ∈ q, (t.seq < skb.seq ↔ t.off < skb.off) ∧ (t.seq = skb.seq ↔ t.off = skb.off)

theorem IsSegment.length_pos (h : IsSegment p t i) :
    0 < t.body.length := by
  rw [h.body]
  exact p.chunk_length_pos h.lt

/-- Segments at different positions do not overlap. -/
theorem IsSegment.end_le {u : SkBuff} {j : ℕ} (ht : IsSegment p t i) (hu : IsSegment p u j)
    (h : t.off < u.off) : t.off + t.body.length ≤ u.off := by
  rw [ht.off, ht.body, hu.off]
  rw [ht.off, hu.off] at h
  refine p.off_add_le ht.lt ?_
  by_contra hij
  exact absurd (p.off_mono (not_lt.mp hij)) (by omega)

/-- The backward search stops at a segment with the same number if the segments it passes
have larger ones. -/
theorem findSlot_eq_none_iff (seq : BitVec 32) (front back : List SkBuff) :
    findSlot seq front back = none ↔
      ∃ a t b, front = a ++ t :: b ∧ t.seq = seq ∧ ∀ u ∈ a, seq < u.seq := by
  induction front generalizing back with
  | nil => simp [findSlot]
  | cons t front ih =>
    unfold findSlot
    by_cases hlt : t.seq < seq
    · rw [if_pos hlt]
      refine iff_of_false (by simp) ?_
      rintro ⟨a, u, b, heq, hu, hall⟩
      rcases a with _ | ⟨v, a⟩
      · obtain ⟨rfl, -⟩ := List.cons.inj heq
        exact absurd hlt (hu ▸ BitVec.lt_irrefl _)
      · obtain ⟨rfl, -⟩ := List.cons.inj heq
        exact absurd (hall t mem_cons_self) (BitVec.lt_asymm hlt)
    · rw [if_neg hlt]
      by_cases heq : seq = t.seq
      · rw [if_pos heq]
        exact iff_of_true rfl ⟨[], t, front, rfl, heq.symm, by simp⟩
      · rw [if_neg heq, ih]
        have hgt : seq < t.seq := by bv_omega
        constructor
        · rintro ⟨a, u, b, rfl, hu, hall⟩
          exact ⟨t :: a, u, b, rfl, hu, by simpa using ⟨hgt, hall⟩⟩
        · rintro ⟨a, u, b, hsplit, hu, hall⟩
          rcases a with _ | ⟨v, a⟩
          · obtain ⟨rfl, -⟩ := List.cons.inj hsplit
            exact absurd hu.symm heq
          · obtain ⟨rfl, rfl⟩ := List.cons.inj hsplit
            exact ⟨a, u, b, rfl, hu, fun w hw => hall w (mem_cons_of_mem _ hw)⟩

/-- The search from the back of the queue meets a segment with this number. -/
def IsQueued (s : Sock) (seq : BitVec 32) : Prop :=
  ∃ front t back, s.recvData = front ++ t :: back ∧ t.seq = seq ∧ ∀ u ∈ back, seq < u.seq

theorem isQueued_iff (s : Sock) (seq : BitVec 32) :
    findSlot seq s.recvData.reverse [] = none ↔ IsQueued s seq := by
  rw [findSlot_eq_none_iff]
  constructor
  · rintro ⟨a, t, b, heq, ht, hall⟩
    refine ⟨b.reverse, t, a.reverse, ?_, ht, by simpa using hall⟩
    rw [← reverse_reverse s.recvData, heq]
    simp
  · rintro ⟨front, t, back, heq, ht, hall⟩
    exact ⟨back.reverse, t, front.reverse, by simp [heq], ht, by simpa using hall⟩

theorem findSlot_spec {front back : List SkBuff} (hcmp : ComparesAsStream front skb)
    (hs : front.reverse.Pairwise (fun a b => a.off < b.off)) (hb : ∀ t ∈ back, skb.off < t.off) :
    (findSlot skb.seq front back = none ∧ ∃ t ∈ front, t.off = skb.off) ∨
      ∃ f b, findSlot skb.seq front back = some (f, b) ∧
        f.reverse ++ b = front.reverse ++ back ∧ (∀ t ∈ f, t.off < skb.off) ∧
        ∀ t ∈ b, skb.off < t.off := by
  induction front generalizing back with
  | nil =>
    right
    exact ⟨[], back, rfl, rfl, by simp, hb⟩
  | cons t front ih =>
    obtain ⟨hlt, heq⟩ := hcmp t mem_cons_self
    rw [reverse_cons, pairwise_append] at hs
    by_cases h1 : t.seq < skb.seq
    · right
      refine ⟨t :: front, back, by simp [findSlot, h1], rfl, ?_, hb⟩
      intro u hu
      have htoff := hlt.mp h1
      rcases mem_cons.mp hu with rfl | hu
      · exact htoff
      · have := hs.2.2 u (by simpa using hu) t (by simp)
        omega
    · by_cases h2 : skb.seq = t.seq
      · left
        exact ⟨by simp [findSlot, h2], t, mem_cons_self, heq.mp h2.symm⟩
      · have hgt : skb.off < t.off := by
          have h3 := mt hlt.mpr h1
          have h4 := mt heq.mpr (fun h => h2 h.symm)
          omega
        have hb' : ∀ u ∈ t :: back, skb.off < u.off := by
          intro u hu
          rcases mem_cons.mp hu with rfl | hu
          · exact hgt
          · exact hb u hu
        have hstep : findSlot skb.seq (t :: front) back = findSlot skb.seq front (t :: back) := by
          simp [findSlot, h1, h2]
        rw [hstep]
        rcases ih (fun u hu => hcmp u (mem_cons_of_mem _ hu)) hs.1 hb' with
          ⟨h, u, hu, huo⟩ | ⟨f, b, h, hfb, hf, hb''⟩
        · left
          exact ⟨h, u, mem_cons_of_mem _ hu, huo⟩
        · right
          exact ⟨f, b, h, by simp [hfb], hf, hb''⟩

/-- Sorting a segment in keeps the queue in order. -/
theorem Queued.insert {f b : List SkBuff} (h : Queued p d (f.reverse ++ b) rp)
    (hseg : IsSegment p skb i) (hd : d < skb.off + skb.body.length) (hf : ∀ t ∈ f, t.off < skb.off)
    (hb : ∀ t ∈ b, skb.off < t.off) : Queued p d (f.reverse ++ skb :: b) rp where
  segs := by
    intro t ht
    rcases mem_append.mp ht with ht | ht
    · exact h.segs t (mem_append_left _ ht)
    · rcases mem_cons.mp ht with rfl | ht
      · exact ⟨i, hseg⟩
      · exact h.segs t (mem_append_right _ ht)
  sorted := by
    have hs := pairwise_append.mp h.sorted
    refine pairwise_append.mpr ⟨hs.1, pairwise_cons.mpr ⟨hb, hs.2.1⟩, ?_⟩
    intro t ht u hu
    rcases mem_cons.mp hu with rfl | hu
    · exact hf t (by simpa using ht)
    · exact hs.2.2 t ht u hu
  between := by
    intro hrp
    obtain ⟨hq, hcut⟩ := h.between hrp
    refine ⟨?_, hcut⟩
    have hskb : d ≤ skb.off := by
      rw [hseg.off, hseg.body] at hd
      rw [hseg.off]
      rcases hcut i hseg.lt with h1 | h1 <;> omega
    intro t ht
    rcases mem_append.mp ht with ht | ht
    · exact hq t (mem_append_left _ ht)
    · rcases mem_cons.mp ht with rfl | ht
      · exact hskb
      · exact hq t (mem_append_right _ ht)
  inside := by
    intro hrp
    obtain ⟨t, r, hq, hoff, hlt⟩ := h.inside hrp
    rcases hfr : f.reverse with _ | ⟨t', f'⟩
    · -- in front of a segment that is being read there is nothing left to read
      rw [hfr, nil_append] at hq
      have hmem : t ∈ b := by rw [hq]; exact mem_cons_self
      obtain ⟨j, hj⟩ := h.segs t (mem_append_right _ hmem)
      have := hseg.end_le hj (hb t hmem)
      omega
    · rw [hfr, List.cons_append] at hq
      obtain ⟨rfl, rfl⟩ := List.cons.inj hq
      exact ⟨t', f' ++ skb :: b, rfl, hoff, hlt⟩

/-- Two consecutive pieces of a list make one piece. -/
theorem append_prefix_drop {α : Type*} {xs a b : List α} (ha : a <+: xs.drop d)
    (hb : b <+: xs.drop (d + a.length)) : a ++ b <+: xs.drop d := by
  obtain ⟨c, hc⟩ := ha
  rw [← drop_drop, ← hc, drop_left] at hb
  rw [← hc]
  exact (prefix_append_right_inj a).mpr hb

/-- The rest of a segment, once `rp` of its bytes are read. -/
theorem IsSegment.rest_prefix (h : IsSegment p t i)
    (hd : t.off + rp = d) : t.body.drop rp <+: p.stream.drop d := by
  have := (p.chunk_prefix h.lt).drop rp
  rwa [drop_drop, ← h.body, ← h.off, hd] at this

/-- After a segment has been read to its end, the queue goes on between two segments. -/
theorem Queued.tail (h : Queued p d (t :: q) rp) : Queued p (t.off + t.body.length) q 0 where
  segs := fun u hu => h.segs u (mem_cons_of_mem _ hu)
  sorted := (pairwise_cons.mp h.sorted).2
  between := by
    intro _
    obtain ⟨i, hi⟩ := h.segs t mem_cons_self
    constructor
    · intro u hu
      obtain ⟨j, hj⟩ := h.segs u (mem_cons_of_mem _ hu)
      exact hi.end_le hj ((pairwise_cons.mp h.sorted).1 u hu)
    · intro j hj
      rw [hi.off, hi.body]
      rcases Nat.lt_trichotomy j i with hji | rfl | hij
      · left
        have := p.off_add_le hj hji
        omega
      · left; omega
      · right
        exact p.off_add_le hi.lt hij
  inside := fun h => absurd h (lt_irrefl 0)

/-- The loop of `tcp_recv` copies the whole rest of the first segment. -/
theorem recvLoop_whole {rp : BitVec 16}
    (hremain : (tcpGetDataLenght t - rp).toNat = t.body.length - rp.toNat)
    (hle : t.body.length - rp.toNat ≤ n) : recvLoop (t :: q) rp n =
      (t.body.drop rp.toNat ++ (recvLoop q 0 (n - (t.body.length - rp.toNat))).1,
        (recvLoop q 0 (n - (t.body.length - rp.toNat))).2) := by
  rw [recvLoop]
  simp only [hremain, if_pos hle]
  rw [take_of_length_le (by simp)]

/-- The room for the loop of `tcp_recv` ends inside the first segment. -/
theorem recvLoop_part {rp : BitVec 16}
    (hremain : (tcpGetDataLenght t - rp).toNat = t.body.length - rp.toNat)
    (hle : ¬ t.body.length - rp.toNat ≤ n) : recvLoop (t :: q) rp n =
      ((t.body.drop rp.toNat).take n, t :: q, rp + BitVec.ofNat 16 n, 0) := by
  rw [recvLoop]
  simp only [hremain, if_neg hle]

/-- What `tcp_recv` copies when it meets no gap. -/
theorem recvLoop_spec {rp : BitVec 16} (h : Queued p d q rp.toNat)
    (hin : ReadsInOrder (d - rp.toNat) q (rp.toNat + n)) :
    (recvLoop q rp n).1 <+: p.stream.drop d ∧
      Queued p (d + (recvLoop q rp n).1.length) (recvLoop q rp n).2.1
        (recvLoop q rp n).2.2.1.toNat := by
  induction q generalizing d n rp with
  | nil => exact ⟨ nil_prefix, h⟩
  | cons t q ih =>
    obtain ⟨i, hi⟩ := h.segs t mem_cons_self
    have hrp : rp.toNat < t.body.length := by
      rcases Nat.eq_zero_or_pos rp.toNat with h0 | h0
      · rw [h0]; exact hi.length_pos
      · obtain ⟨t', r, hq, _, hlt⟩ := h.inside h0
        rw [(List.cons.inj hq).1]
        exact hlt
    have hremain : (tcpGetDataLenght t - rp).toNat = t.body.length - rp.toNat := by
      rw [BitVec.toNat_sub_of_le (by rw [BitVec.le_def, hi.len]; omega), hi.len]
    have hpos : rp.toNat + n ≠ 0 → t.off + rp.toNat = d := by
      intro hn
      rcases hin with h0 | ⟨hoff, _⟩
      · exact absurd h0 hn
      · rcases Nat.eq_zero_or_pos rp.toNat with h0 | h0
        · omega
        · obtain ⟨t', r, hq, hd, _⟩ := h.inside h0
          rwa [← (List.cons.inj hq).1] at hd
    by_cases hle : t.body.length - rp.toNat ≤ n
    · -- the whole rest of the segment is copied
      have hd := hpos (by omega)
      have hin' : ReadsInOrder (t.off + t.body.length - (0 : BitVec 16).toNat) q
          ((0 : BitVec 16).toNat + (n - (t.body.length - rp.toNat))) := by
        rcases hin with h0 | ⟨hoff, hrest⟩
        · omega
        · have hz : (0 : BitVec 16).toNat = 0 := rfl
          rw [hz, Nat.zero_add, Nat.sub_zero, hoff]
          rwa [show n - (t.body.length - rp.toNat) = rp.toNat + n - t.body.length by omega]
      have htail : Queued p (t.off + t.body.length) q (0 : BitVec 16).toNat := h.tail
      obtain ⟨h1, h2⟩ := ih htail hin'
      have hlen : d + (t.body.drop rp.toNat).length = t.off + t.body.length := by
        rw [length_drop]; omega
      rw [recvLoop_whole hremain hle]
      refine ⟨append_prefix_drop (hi.rest_prefix hd) (by rw [hlen]; exact h1), ?_⟩
      rw [length_append, ← Nat.add_assoc, hlen]
      exact h2
    · -- the room ends inside the segment
      have hlt : rp.toNat + n < t.body.length := by omega
      have hsmall : t.body.length < 2 ^ 16 := by
        rw [← hi.len]; exact (tcpGetDataLenght t).isLt
      have hrp' : (rp + BitVec.ofNat 16 n).toNat = rp.toNat + n := by
        rw [BitVec.toNat_add, BitVec.toNat_ofNat, Nat.add_mod_mod, Nat.mod_eq_of_lt (by omega)]
      have hlen : ((t.body.drop rp.toNat).take n).length = n := by
        rw [length_take, length_drop]; omega
      rw [recvLoop_part hremain hle]
      simp only [hlen, hrp']
      rcases Nat.eq_zero_or_pos n with rfl | hn
      · exact ⟨by simp, h⟩
      · have hd := hpos (by omega)
        refine ⟨( take_prefix _ _).trans (hi.rest_prefix hd), h.segs, h.sorted, ?_, ?_⟩
        · intro h0; omega
        · intro _
          exact ⟨t, q, rfl, by omega, hlt⟩

/-! ## Runs -/

/-- A connection: the socket, and all bytes `tcp_recv` has returned so far. -/
structure Conn where
  sock : Sock
  delivered : List Byte

/-- A call of `tcp_recv` that has its data, errors and waits changing nothing. -/
def Conn.recv (c : Conn) (len : ℕ) : Conn :=
  match tcpRecvReady c.sock len with
  | .data bytes s => ⟨s, c.delivered ++ bytes⟩
  | _ => c

/-- The handler passes `skb` on to `tcp_data`. -/
def ReachesTcpData (s : Sock) (skb : SkBuff) : Prop :=
  s.status ∈ [.established, .closeWait, .finWait1, .finWait2, .timeWait] ∧
    skb.ack = true ∧ skb.rst = false ∧ skb.syn = false ∧ skb.fin = false

/-- The condition on an arriving segment: if it is queued at all, then it has not been
delivered to its end, and it is compared as the stream demands. -/
def ArrivesInOrder (c : Conn) (skb : SkBuff) : Prop :=
  ReachesTcpData c.sock skb → ¬ skb.seq < c.sock.ackSeq →
    c.delivered.length < skb.off + skb.body.length ∧ ComparesAsStream c.sock.recvData skb

/-- One event of a connection: a segment arrives (any segment of the peer, under any
header that fits a datagram, at any time, with any results of the calls the handler
makes), or the application reads. -/
inductive Event : Type where
  | arrive (i : ℕ) (h : Hdr) (ticks : BitVec 32) (answers : List ℤ) : Event
  | recv (len : ℕ) : Event

section

variable (handshake : Sock → SkBuff → ℤ × Sock) (p : Peer)

/-- The events that can happen. -/
def Event.Possible : Event → Prop
  | .arrive i h _ _ => i < p.chunks.length ∧ 20 + h.doff.toNat * 4 + (p.chunk i).length < 2 ^ 16
  | .recv _ => True

/-- What an event does. -/
def Event.apply : Event → Conn → Conn
  | .arrive i h ticks answers, c =>
    let s := { c.sock with ticks := ticks, answers := answers }
    ⟨(tcpReceivedDataHandler handshake s (p.skb i h)).2, c.delivered⟩
  | .recv len, c => c.recv len

/-- Segments arrive in an order the code can deal with, and reads stop at gaps. -/
def Event.InOrder : Event → Conn → Prop
  | .arrive i h _ _, c => ArrivesInOrder c (p.skb i h)
  | .recv len, c => ReadsInOrder (c.delivered.length - c.sock.readPtr.toNat) c.sock.recvData
      (c.sock.readPtr.toNat + len)

/-- Some event happens. -/
def Step (c c' : Conn) : Prop := ∃ e : Event, e.Possible p ∧ c' = e.apply handshake p c

/-- Some event happens that is in order. -/
def OrderedStep (c c' : Conn) : Prop :=
  ∃ e : Event, e.Possible p ∧ e.InOrder p c ∧ c' = e.apply handshake p c

end

/-- The invariant of a connection. -/
structure ConnInv (p : Peer) (c : Conn) : Prop where
  connected : c.sock.status.connected
  delivered : c.delivered <+: p.stream
  queued : Queued p c.delivered.length c.sock.recvData c.sock.readPtr.toNat

theorem connInv_fresh (h : p.Fresh s) : ConnInv p ⟨s, []⟩ where
  connected := by simp [h.status, Status.connected]
  delivered := nil_prefix
  queued := by
    rw [h.recvData, h.readPtr]
    exact
      { segs := fun _ ht => absurd ht not_mem_nil
        sorted := List.Pairwise.nil
        between := fun _ => ⟨fun _ ht => absurd ht not_mem_nil, fun i _ => Or.inr (Nat.zero_le _)⟩
        inside := fun h0 => absurd h0 (lt_irrefl 0) }

/-- A step that is quiet about the queue keeps the invariant. -/
theorem ConnInv.quiet {s' : Sock} (h : ConnInv p ⟨s, bs⟩)
    (hq : Quiet s s') : ConnInv p ⟨s', bs⟩ := by
  have hd : s'.recvData = s.recvData := congrArg Prod.fst hq.rx
  have hp : s'.readPtr = s.readPtr := congrArg Prod.snd hq.rx
  refine ⟨hq.connected h.connected, h.delivered, ?_⟩
  show Queued p bs.length s'.recvData s'.readPtr.toNat
  rw [hd, hp]
  exact h.queued

/-- `tcp_seg_sort` of a segment that arrives in order. -/
theorem connInv_tcpSegSort (h : ConnInv p ⟨s, bs⟩) (hseg : IsSegment p skb i)
    (hord : ¬ skb.seq < s.ackSeq → bs.length < skb.off + skb.body.length ∧
      ComparesAsStream s.recvData skb) : ConnInv p ⟨(tcpSegSort s skb).2, bs⟩ := by
  unfold tcpSegSort
  split_ifs with hold
  · exact h
  · obtain ⟨hd, hcmp⟩ := hord hold
    have hcmp' : ComparesAsStream s.recvData.reverse skb :=
      fun t ht => hcmp t (mem_reverse.mp ht)
    have hsorted : s.recvData.reverse.reverse.Pairwise (fun a b => a.off < b.off) := by
      rw [reverse_reverse]
      exact h.queued.sorted
    have hcrit : s.enterCritical.recvData = s.recvData := rfl
    simp only [hcrit]
    rcases findSlot_spec hcmp' hsorted (fun _ ht => absurd ht not_mem_nil) with
      ⟨hnone, _⟩ | ⟨f, b, hsome, hfb, hf, hb⟩
    · rw [hnone]
      exact h.quiet (.of_eq rfl rfl rfl)
    · rw [hsome]
      rw [reverse_reverse, append_nil] at hfb
      have hins : Queued p bs.length (f.reverse ++ skb :: b) s.readPtr.toNat := by
        refine Queued.insert ?_ hseg hd hf hb
        rw [hfb]
        exact h.queued
      have hnew : ConnInv p ⟨{ s.enterCritical with
          recvData := f.reverse ++ skb :: b
          recvDataLen := s.recvDataLen + (tcpGetDataLenght skb).setWidth 32 }.exitCritical, bs⟩ :=
        ⟨h.connected, h.delivered, hins⟩
      -- acknowledging does not touch the queue
      exact hnew.quiet (attends_acknowledge _ _).quiet

/-- A segment that arrives in order on a connection keeps the invariant. -/
theorem connInv_receiveConnected (h : ConnInv p ⟨s, bs⟩) (hseg : IsSegment p skb i)
    (hord : skb.rst = false → skb.syn = false → skb.fin = false → ¬ skb.seq < s.ackSeq →
      bs.length < skb.off + skb.body.length ∧ ComparesAsStream s.recvData skb) :
    ConnInv p ⟨(receiveConnected s skb).2, bs⟩ := by
  unfold receiveConnected
  by_cases hreset : (skb.rst || skb.syn) = true
  · rw [if_pos hreset]
    exact h.quiet (.of_connected rfl rfl rfl)
  · rw [if_neg hreset]
    rw [Bool.or_eq_true, not_or, Bool.not_eq_true, Bool.not_eq_true] at hreset
    obtain ⟨hattends, hack⟩ := attends_ack s skb
    generalize (if skb.ack then tcpAckHandler s skb else s) = t at *
    have hquiet := hattends.quiet
    have hq : t.recvData = s.recvData := congrArg Prod.fst hquiet.rx
    split_ifs with hfin hlen
    · refine ((h.quiet hquiet).quiet (attends_tcpFinHandler t skb).quiet).quiet
        (.of_connected ?_ ?_ rfl)
      · exact congrArg Prod.fst (attends_tcpSendAck ..).rx
      · exact congrArg Prod.snd (attends_tcpSendAck ..).rx
    · refine connInv_tcpSegSort (h.quiet hquiet) hseg ?_
      rw [hack, hq]
      exact hord hreset.1 hreset.2 (by simpa using hfin)
    · exact h.quiet hquiet

/-- The handler keeps the invariant when the segment arrives in order. -/
theorem connInv_handler (handshake : Sock → SkBuff → ℤ × Sock) (h : ConnInv p ⟨s, bs⟩)
    (hseg : IsSegment p skb i) (hord : ArrivesInOrder ⟨s, bs⟩ skb) :
    ConnInv p ⟨(tcpReceivedDataHandler handshake s skb).2, bs⟩ := by
  have hconn := h.connected
  unfold tcpReceivedDataHandler
  by_cases hfinds : Finds s skb
  · rw [if_pos hfinds, receiveSwitch]
    cases hst : s.status
    case listen | synSent | synRcvd => simp [hst, Status.connected] at hconn
    case lastAck => exact h.quiet (attends_tcpAckHandler s skb).quiet
    case closed | closing => exact h
    all_goals
      have hack := (finds_iff (by rw [hst]; decide) skb).mp hfinds
      refine connInv_receiveConnected h hseg ?_
      intro h1 h2 h3
      exact hord ⟨by simp [hst], hack, h1, h2, h3⟩
  · rw [if_neg hfinds]
    exact h

/-- A read that meets no gap keeps the invariant. -/
theorem connInv_recv {c : Conn} {len : ℕ} (h : ConnInv p c)
    (hin : ReadsInOrder (c.delivered.length - c.sock.readPtr.toNat) c.sock.recvData
      (c.sock.readPtr.toNat + len)) : ConnInv p (c.recv len) := by
  obtain ⟨hpre, hqueue⟩ := recvLoop_spec h.queued hin
  unfold Conn.recv tcpRecvReady
  split_ifs
  · exact h
  · exact h
  · refine ⟨h.connected, ?_, ?_⟩
    · have hall : c.delivered ++ (recvLoop c.sock.recvData c.sock.readPtr len).1 <+: p.stream := by
        simpa using append_prefix_drop (d := 0) (by simpa using h.delivered) (by simpa using hpre)
      exact hall
    · rw [← length_append] at hqueue
      exact hqueue

theorem connInv_step (handshake : Sock → SkBuff → ℤ × Sock) {c c' : Conn} (h : ConnInv p c)
    (hstep : OrderedStep handshake p c c') : ConnInv p c' := by
  obtain ⟨e, hposs, hord, rfl⟩ := hstep
  cases e with
  | arrive i hdr ticks answers =>
    have h' : ConnInv p ⟨{ c.sock with ticks := ticks, answers := answers }, c.delivered⟩ :=
      h.quiet (.of_eq rfl rfl rfl)
    exact connInv_handler handshake h' (isSegment_skb p hposs.1 hdr hposs.2) hord
  | recv len => exact connInv_recv h hord

/-- **The receive stream.**  In every run from `ESTABLISHED` in which segments arrive
in an order the code can deal with and reads stop at gaps, the bytes that `tcp_recv`
has returned are a prefix of the peer's stream. -/
theorem delivered_prefix_of_ordered (handshake : Sock → SkBuff → ℤ × Sock) (p : Peer) (s : Sock)
    (hs : p.Fresh s) (c : Conn)
    (hrun : Relation.ReflTransGen (OrderedStep handshake p) ⟨s, []⟩ c) :
    c.delivered <+: p.stream := by
  have hinv : ConnInv p c := by
    induction hrun with
    | refl => exact connInv_fresh hs
    | tail _ hstep ih => exact connInv_step handshake ih hstep
  exact hinv.delivered

/-- A socket without any history, `ESTABLISHED` and expecting sequence number 0. -/
def blankSock : Sock := { Sock.zero with status := .established, maxAckBacklog := 3 }

/-- A peer that sends the bytes 1 and 2 in two segments. -/
def twoBytePeer : Peer := ⟨[[1], [2]], 0, by decide⟩

/-- A header without options, and with no flag but `ACK`. -/
def plainHdr : Hdr := ⟨5, 0, 0, false, false, false, true, false⟩

theorem twoBytePeer_fresh : twoBytePeer.Fresh blankSock := ⟨rfl, rfl, rfl, rfl, rfl, rfl⟩

/-- The two segments arrive in the wrong order and are then read: all is well. -/
theorem delivered_prefix_two_segments : ∃ c : Conn, c.delivered = [1, 2] ∧
    Relation.ReflTransGen (OrderedStep (fun s _ => (0, s)) twoBytePeer) ⟨blankSock, []⟩ c ∧
    c.delivered <+: twoBytePeer.stream := by
  let hs : Sock → SkBuff → ℤ × Sock := fun s _ => (0, s)
  let c1 := (Event.arrive 1 plainHdr 0 []).apply hs twoBytePeer ⟨blankSock, []⟩
  let c2 := (Event.arrive 0 plainHdr 0 []).apply hs twoBytePeer c1
  let c3 := (Event.recv 2).apply hs twoBytePeer c2
  have h1 : OrderedStep hs twoBytePeer ⟨blankSock, []⟩ c1 :=
    ⟨.arrive 1 plainHdr 0 [], ⟨by decide, by decide⟩,
      fun _ _ => ⟨by decide, fun t ht => absurd ht not_mem_nil⟩, rfl⟩
  have h2 : OrderedStep hs twoBytePeer c1 c2 := by
    refine ⟨.arrive 0 plainHdr 0 [], ⟨by decide, by decide⟩, fun _ _ => ⟨by decide, ?_⟩, rfl⟩
    have hq : c1.sock.recvData = [twoBytePeer.skb 1 plainHdr] := by decide +kernel
    rw [hq]
    intro t ht
    rw [mem_singleton.mp ht]
    decide
  have h3 : OrderedStep hs twoBytePeer c2 c3 := by
    refine ⟨.recv 2, trivial, ?_, rfl⟩
    have hq : c2.sock.recvData = [twoBytePeer.skb 0 plainHdr, twoBytePeer.skb 1 plainHdr] := by
      decide +kernel
    have hp : c2.sock.readPtr = 0 := by decide +kernel
    rw [Event.InOrder, hq, hp]
    exact Or.inr ⟨rfl, Or.inr ⟨rfl, trivial⟩⟩
  have hrun := ((Relation.ReflTransGen.single h1).tail h2).tail h3
  exact ⟨c3, by decide +kernel, hrun,
    delivered_prefix_of_ordered hs twoBytePeer blankSock twoBytePeer_fresh c3 hrun⟩

/-- The second segment arrives first and is read at once: the application gets the
second byte of the stream and never the first. -/
theorem tcp_recv_skips_a_byte : ∃ c : Conn, twoBytePeer.Fresh blankSock ∧
    Relation.ReflTransGen (Step (fun s _ => (0, s)) twoBytePeer) ⟨blankSock, []⟩ c ∧
    c.delivered = [2] ∧ ¬ c.delivered <+: twoBytePeer.stream := by
  let hs : Sock → SkBuff → ℤ × Sock := fun s _ => (0, s)
  let c1 := (Event.arrive 1 plainHdr 0 []).apply hs twoBytePeer ⟨blankSock, []⟩
  let c2 := (Event.recv 1).apply hs twoBytePeer c1
  have h1 : Step hs twoBytePeer ⟨blankSock, []⟩ c1 :=
    ⟨.arrive 1 plainHdr 0 [], ⟨by decide, by decide⟩, rfl⟩
  have h2 : Step hs twoBytePeer c1 c2 := ⟨.recv 1, trivial, rfl⟩
  have hd : c2.delivered = [2] := by decide +kernel
  refine ⟨c2, twoBytePeer_fresh, (Relation.ReflTransGen.single h1).tail h2, hd, ?_⟩
  decide

end Tcp

end Yap
