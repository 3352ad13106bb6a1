/-
# Sending data: segments and the send window (`net/inet/tcp.c`)

`tcp_send` cuts a buffer into segments and puts each on `ready` or on `wait`;
`tcp_process_send_window` moves segments from `wait` to `ready` and from `ready` to `wait_ack`;
`tcp_ack_handler` frees those that the peer has got.

The `Ledger` says what all three keep: no segment is lost or doubled, the segments carry the
bytes of the calls in order, and `used_size` counts the segments in flight.  It counts them
exactly, not only modulo `2 ^ 32`, since the buffers of the segments are apart in memory.

The two admission tests are not the same.  `tcp_do_segment` compares a sum with `tot_size`;
`tcp_process_send_window` compares a difference, which wraps once an acknowledgement has made
the window smaller than what is in flight.
-/
import Yap.TcpStream
import Yap.Ranges

namespace Yap

namespace Tcp

open Ranges List Option
open List (append_assoc)
open BitVec (toNat_setWidth toNat_setWidth_of_le le_def ofNat_add eq_of_toNat_eq toNat_sub_of_le)
open Nat (mod_eq_of_lt)

/-! ## Cutting a buffer into segments -/

namespace SlidingWindow

/-- The segments that are in memory. -/
def live (w : SlidingWindow) : List TcpSeg := w.wait ++ w.ready ++ w.waitAck

/-- The memory `[addr, addr + len)` exists and is used by no segment. -/
def Vacant (w : SlidingWindow) (addr len : ℕ) : Prop :=
  0 < addr ∧ addr + len ≤ 2 ^ 32 ∧
    ∀ t ∈ w.live, addr + len ≤ t.addr ∨ t.addr + t.len.toNat ≤ addr

instance (w : SlidingWindow) (addr len : ℕ) : Decidable (w.Vacant addr len) :=
  inferInstanceAs (Decidable (_ ∧ _ ∧ _))

/-- The end of a round of `tcp_do_segment`: the new segment goes to `ready` or to `wait`. -/
def enqueue (w : SlidingWindow) (seg : TcpSeg) : SlidingWindow :=
  if w.usedSize + seg.len.setWidth 32 ≤ w.totSize then
    { w with
      made := w.made ++ [seg]
      ready := w.ready ++ [seg]
      usedSize := w.usedSize + seg.len.setWidth 32
      moves := w.moves ++ [w.usedSize + seg.len.setWidth 32] }
  else { w with made := w.made ++ [seg], wait := w.wait ++ [seg] }

end SlidingWindow

/-- `alloc_tcp_seg(len)`: the address of the buffer.  `kmalloc` answers with memory that is
not in use, or with `NULL`. -/
def allocTcpSeg (s : Sock) (len : BitVec 16) : Option ℕ × Sock :=
  let (p, s) := s.ask
  if s.sendWindow.Vacant p.toNat len.toNat then (some p.toNat, s) else (none, s)

/-- The length of the next segment. -/
def segLen (s : Sock) (len : BitVec 32) : BitVec 16 :=
  if len ≥ s.mss.setWidth 32 then s.mss else len.setWidth 16

/-- The next segment, with its buffer at `addr`. -/
def nextSeg (s : Sock) (buf : List Byte) (len : BitVec 32) (addr : ℕ) : TcpSeg where
  addr := addr
  data := buf.take (segLen s len).toNat
  sendSeq := s.sendSeq
  len := segLen s len
  expectedAck := s.sendSeq + (segLen s len).setWidth 32

/-- The loop of `tcp_do_segment`; `none` when it has not ended after `fuel` rounds. -/
def doSegment : ℕ → Sock → List Byte → BitVec 32 → Option (ℤ × Sock)
  | 0, _, _, _ => none
  | fuel + 1, s, buf, len =>
    if len = 0 then some (0, s)
    else
      match allocTcpSeg s (segLen s len) with
      | (none, s') => some (-ENOMEM, s')
      | (some addr, s') =>
        let seg := nextSeg s buf len addr
        doSegment fuel
          { s' with sendSeq := seg.expectedAck, sendWindow := s'.sendWindow.enqueue seg }
          (buf.drop seg.len.toNat) (len - seg.len.setWidth 32)

/-- `tcp_do_segment(isk, buf, len)`.  Every round takes at least one byte, or, when `mss` is
0, at least one answer of the allocator. -/
def tcpDoSegment (s : Sock) (buf : List Byte) (len : BitVec 32) : Option (ℤ × Sock) :=
  doSegment (len.toNat + s.answers.length + 1) s buf len

/-- `tcp_send(isk, buf, len, nonblock, flags)`, for a socket and a buffer that exist. -/
def tcpSend (s : Sock) (buf : List Byte) (len : BitVec 32) : Option (ℤ × Sock) :=
  if len = 0 then some (0, s) else tcpDoSegment s buf len

/-! ## The ledger -/

/-- The bytes in some segments, by their `len`. -/
def volume (l : List TcpSeg) : ℕ := (l.map fun t => t.len.toNat).sum

theorem volume_append (l m : List TcpSeg) : volume (l ++ m) = volume l + volume m := by
  simp [volume]

variable {l : List TcpSeg} {s₀ s : Sock} {w : SlidingWindow}

theorem volume_perm {m : List TcpSeg} (h : l.Perm m) : volume l = volume m :=
  (h.map _).sum_eq

/-- The segments follow each other in sequence numbers, from `seq` up to `stop`. -/
def Consecutive : BitVec 32 → List TcpSeg → BitVec 32 → Prop
  | seq, [], stop => seq = stop
  | seq, t :: ts, stop =>
    t.sendSeq = seq ∧ t.expectedAck = seq + t.len.setWidth 32 ∧
      Consecutive (seq + t.len.setWidth 32) ts stop

theorem consecutive_concat {seq stop : BitVec 32} {t : TcpSeg} (h : Consecutive seq l stop)
    (hseq : t.sendSeq = stop) (hack : t.expectedAck = stop + t.len.setWidth 32) :
    Consecutive seq (l ++ [t]) t.expectedAck := by
  induction l generalizing seq with
  | nil =>
    subst h
    exact ⟨hseq, hack, hack.symm⟩
  | cons u l ih => exact ⟨h.1, h.2.1, ih h.2.2⟩

/-- Where the buffer of a segment ends. -/
def TcpSeg.stop (t : TcpSeg) : ℕ := t.addr + t.len.toNat

/-- What holds of a socket `s` that began as `s₀`. -/
structure Ledger (s₀ s : Sock) : Prop where
  mss : s.mss = s₀.mss
  used : s.sendWindow.usedSize =
    BitVec.ofNat 32 (volume (s.sendWindow.ready ++ s.sendWindow.waitAck))
  parts : (s.sendWindow.live ++ s.sendWindow.freed).Perm s.sendWindow.made
  chain : Consecutive s₀.sendSeq s.sendWindow.made s.sendSeq
  sizes : ∀ t ∈ s.sendWindow.made,
    t.len ≤ s₀.mss ∧ (s₀.mss ≠ 0 → t.len ≠ 0) ∧ t.data.length = t.len.toNat
  apart : s.sendWindow.live.Pairwise (Apart TcpSeg.addr TcpSeg.stop)
  placed : ∀ t ∈ s.sendWindow.live, 0 < t.addr ∧ t.stop ≤ 2 ^ 32

/-- The memory of the machine bounds what the lists can hold. -/
theorem Ledger.volume_live_lt (h : Ledger s₀ s) :
    volume s.sendWindow.live < 2 ^ 32 := by
  have hsum := sum_le_of_apart h.apart h.placed
  have heq : (s.sendWindow.live.map fun t => t.stop - t.addr).sum = volume s.sendWindow.live := by
    simp only [TcpSeg.stop, Nat.add_sub_cancel_left, volume]
  omega

theorem SlidingWindow.volume_live (w : SlidingWindow) :
    volume w.live = volume w.wait + volume (w.ready ++ w.waitAck) := by
  rw [live, append_assoc, volume_append]

/-- `used_size` counts the segments in flight. -/
theorem Ledger.used_toNat (h : Ledger s₀ s) :
    s.sendWindow.usedSize.toNat = volume (s.sendWindow.ready ++ s.sendWindow.waitAck) := by
  have hlt := h.volume_live_lt
  rw [s.sendWindow.volume_live] at hlt
  rw [h.used, BitVec.toNat_ofNat]
  exact mod_eq_of_lt (by omega)

/-! ## Segments that change lists -/

/-- Segments have gone from list to list, or have been freed. -/
structure Moved (w w' : SlidingWindow) : Prop where
  made : w'.made = w.made
  parts : (w'.live ++ w'.freed).Perm (w.live ++ w.freed)
  live : w'.live.Subperm w.live
  used : w.usedSize = BitVec.ofNat 32 (volume (w.ready ++ w.waitAck)) →
    w'.usedSize = BitVec.ofNat 32 (volume (w'.ready ++ w'.waitAck))

theorem Moved.trans {w' w'' : SlidingWindow} (h : Moved w w') (h' : Moved w' w'') :
    Moved w w'' :=
  ⟨h'.made.trans h.made, h'.parts.trans h.parts, h'.live.trans h.live,
    fun hu => h'.used (h.used hu)⟩

/-- Nothing but such moves has happened to a socket. -/
structure Keeps (s s' : Sock) : Prop where
  moved : Moved s.sendWindow s'.sendWindow
  mss : s'.mss = s.mss
  sendSeq : s'.sendSeq = s.sendSeq

theorem Keeps.of_eq {s' : Sock} (hw : s'.sendWindow = s.sendWindow) (hmss : s'.mss = s.mss)
    (hseq : s'.sendSeq = s.sendSeq) : Keeps s s' := by
  refine ⟨?_, hmss, hseq⟩
  rw [hw]
  exact ⟨rfl, List.Perm.refl _, List.Subperm.refl _, id⟩

theorem Ledger.keeps {s' : Sock} (h : Ledger s₀ s) (hk : Keeps s s') : Ledger s₀ s' := by
  have hm := hk.moved
  refine ⟨hk.mss.trans h.mss, hm.used h.used, ?_, ?_, ?_, ?_, ?_⟩
  · rw [hm.made]
    exact hm.parts.trans h.parts
  · rw [hm.made, hk.sendSeq]
    exact h.chain
  · rw [hm.made]
    exact h.sizes
  · obtain ⟨l, hperm, hsub⟩ := hm.live
    have hl := h.apart.sublist hsub
    exact (hperm.pairwise_iff fun hab => hab.symm).mp hl
  · intro t ht
    exact h.placed t (hm.live.subset ht)

theorem setWidth_len (t : TcpSeg) : t.len.setWidth 32 = BitVec.ofNat 32 (volume [t]) := by
  apply eq_of_toNat_eq
  simp [volume]

/-- The first loop moves a part of the waiting list. -/
theorem fillReady_eq (l : List TcpSeg) (w : SlidingWindow) : ∃ l₁ l₂ moves, l = l₁ ++ l₂ ∧
    fillReady l w = { w with
      wait := l₂
      ready := w.ready ++ l₁
      usedSize := w.usedSize + BitVec.ofNat 32 (volume l₁)
      moves := w.moves ++ moves } := by
  induction l generalizing w with
  | nil => exact ⟨[], [], [], rfl, by simp [fillReady, volume]⟩
  | cons seg rest ih =>
    unfold fillReady
    split_ifs with hfits
    · obtain ⟨l₁, l₂, moves, hl, heq⟩ := ih { w with
        ready := w.ready ++ [seg]
        usedSize := w.usedSize + seg.len.setWidth 32
        moves := w.moves ++ [w.usedSize + seg.len.setWidth 32] }
      refine ⟨seg :: l₁, l₂, (w.usedSize + seg.len.setWidth 32) :: moves,
        by rw [hl, List.cons_append], ?_⟩
      have hvol : volume (seg :: l₁) = volume [seg] + volume l₁ := volume_append [seg] l₁
      rw [heq, hvol, ofNat_add, ← setWidth_len]
      simp [BitVec.add_assoc]
    · exact ⟨[], seg :: rest, [], rfl, by simp [volume]⟩

theorem moved_fillReady (w : SlidingWindow) : Moved w (fillReady w.wait w) := by
  obtain ⟨l1, l2, moves, hl, heq⟩ := fillReady_eq w.wait w
  have hlive : (l2 ++ (w.ready ++ l1) ++ w.waitAck).Perm w.live := by
    rw [SlidingWindow.live, hl]
    refine List.Perm.append_right _ ?_
    rw [← append_assoc]
    refine perm_append_comm.trans ?_
    rw [append_assoc]
  rw [heq]
  refine ⟨rfl, hlive.append_right _, hlive.subperm, fun hu => ?_⟩
  have hperm : (w.ready ++ l1 ++ w.waitAck).Perm (w.ready ++ w.waitAck ++ l1) := by
    rw [append_assoc, append_assoc]
    exact perm_append_comm.append_left _
  show w.usedSize + _ = _
  rw [hu, volume_perm hperm, volume_append _ l1, ofNat_add]

theorem ask_keeps (s : Sock) : s.ask.2.sendWindow = s.sendWindow ∧ s.ask.2.mss = s.mss ∧
    s.ask.2.sendSeq = s.sendSeq := by
  unfold Sock.ask
  split <;> exact ⟨rfl, rfl, rfl⟩

/-- The second loop moves the segments that could be transmitted. -/
theorem sendReady_eq (l : List TcpSeg) (s : Sock) : ∃ l₁ l₂, l = l₁ ++ l₂ ∧
    (sendReady l s).sendWindow = { s.sendWindow with
      ready := l₂, waitAck := s.sendWindow.waitAck ++ l₁ } ∧
    (sendReady l s).mss = s.mss ∧ (sendReady l s).sendSeq = s.sendSeq := by
  induction l generalizing s with
  | nil => exact ⟨[], [], rfl, by simp [sendReady], rfl, rfl⟩
  | cons seg rest ih =>
    obtain ⟨hw, hmss, hseq⟩ := ask_keeps s
    unfold sendReady
    simp only
    split_ifs with hfail
    · exact ⟨[], seg :: rest, rfl, by simp [hw], hmss, hseq⟩
    · obtain ⟨l₁, l₂, hl, heq, hmss', hseq'⟩ := ih { s.ask.2 with
        sendWindow := { s.ask.2.sendWindow with
          waitAck := s.ask.2.sendWindow.waitAck ++ [seg] }
        sent := s.ask.2.sent ++ [.seg seg] }
      refine ⟨seg :: l₁, l₂, by rw [hl, List.cons_append], ?_, hmss'.trans hmss,
        hseq'.trans hseq⟩
      rw [heq, hw]
      simp

theorem moved_sendReady (s : Sock) :
    Moved s.sendWindow (sendReady s.sendWindow.ready s).sendWindow := by
  obtain ⟨l1, l2, hl, heq, _⟩ := sendReady_eq s.sendWindow.ready s
  have hflight : (l2 ++ (s.sendWindow.waitAck ++ l1)).Perm
      (s.sendWindow.ready ++ s.sendWindow.waitAck) := by
    rw [hl, ← append_assoc]
    refine perm_append_comm.trans ?_
    rw [append_assoc]
  have hlive : (s.sendWindow.wait ++ l2 ++ (s.sendWindow.waitAck ++ l1)).Perm
      s.sendWindow.live := by
    rw [SlidingWindow.live, append_assoc, append_assoc]
    exact hflight.append_left _
  rw [heq]
  refine ⟨rfl, hlive.append_right _, hlive.subperm, fun hu => ?_⟩
  show s.sendWindow.usedSize = _
  rw [hu, volume_perm hflight]

theorem keeps_tcpProcessSendWindow (s : Sock) : Keeps s (tcpProcessSendWindow s) := by
  unfold tcpProcessSendWindow
  split_ifs
  · exact .of_eq rfl rfl rfl
  · have hfill := moved_fillReady s.sendWindow
    have hsend := moved_sendReady { s with sendWindow := fillReady s.sendWindow.wait s.sendWindow }
    obtain ⟨_, _, _, _, hmss, hseq⟩ := sendReady_eq (fillReady s.sendWindow.wait s.sendWindow).ready
      { s with sendWindow := fillReady s.sendWindow.wait s.sendWindow }
    exact ⟨hfill.trans hsend, hmss, hseq⟩

/-- An acknowledgement of `received` covers the segment. -/
def TcpSeg.got (received : BitVec 32) (t : TcpSeg) : Bool := decide (t.expectedAck ≤ received)

/-- The acknowledged segments leave `wait_ack`, the others stay in their order. -/
theorem ackSegments_eq (received : BitVec 32) (window : BitVec 16) (l kept : List TcpSeg)
    (w : SlidingWindow) (hw : w.waitAck = kept ++ l) (hkept : ∀ t ∈ kept, ¬ t.got received) :
    ∃ tot, ackSegments received window l w = { w with
      waitAck := kept ++ l.filter fun t => !t.got received
      usedSize := w.usedSize - BitVec.ofNat 32 (volume (l.filter (TcpSeg.got received)))
      totSize := tot
      freed := w.freed ++ l.filter (TcpSeg.got received) } := by
  induction l generalizing kept w with
  | nil => exact ⟨w.totSize, by simp [ackSegments, volume, ← hw]⟩
  | cons seg rest ih =>
    unfold ackSegments
    split_ifs with hack
    · have hgot : seg.got received = true := decide_eq_true hack
      have hnot : seg ∉ kept := fun hmem => hkept seg hmem hgot
      have herase : w.waitAck.erase seg = kept ++ rest := by
        rw [hw, erase_append_right _ hnot, erase_cons_head]
      obtain ⟨tot, heq⟩ := ih kept { w with
        waitAck := w.waitAck.erase seg
        usedSize := w.usedSize - seg.len.setWidth 32
        totSize := window.setWidth 32
        freed := w.freed ++ [seg] } herase hkept
      refine ⟨tot, ?_⟩
      have hvol : volume (seg :: rest.filter (TcpSeg.got received)) =
          volume [seg] + volume (rest.filter (TcpSeg.got received)) := volume_append [seg] _
      rw [heq, filter_cons_of_pos hgot, filter_cons_of_neg (by simp [hgot]), hvol,
        ofNat_add, ← setWidth_len]
      simp [sub_add_eq_sub_sub]
    · have hgot : seg.got received = false := decide_eq_false hack
      obtain ⟨tot, heq⟩ := ih (kept ++ [seg]) w (by rw [hw, append_assoc]; rfl)
        (fun t ht => by
          rcases mem_append.mp ht with ht | ht
          · exact hkept t ht
          · rw [mem_singleton.mp ht, hgot]
            exact Bool.false_ne_true)
      refine ⟨tot, ?_⟩
      rw [heq, filter_cons_of_neg (by simp [hgot]), filter_cons_of_pos (by simp [hgot]),
        append_assoc]
      rfl

theorem moved_ackSegments (received : BitVec 32) (window : BitVec 16) (w : SlidingWindow) :
    Moved w (ackSegments received window w.waitAck w) := by
  obtain ⟨tot, heq⟩ := ackSegments_eq received window w.waitAck [] w rfl (by simp)
  have hsplit : (w.waitAck.filter (fun t => !t.got received) ++
      w.waitAck.filter (TcpSeg.got received)).Perm w.waitAck :=
    perm_append_comm.trans (filter_append_perm (TcpSeg.got received) w.waitAck)
  rw [heq]
  refine ⟨rfl, ?_, ?_, fun hu => ?_⟩
  · show (w.wait ++ w.ready ++ _ ++ (w.freed ++ _)).Perm (w.wait ++ w.ready ++ w.waitAck ++ w.freed)
    rw [nil_append, append_assoc, append_assoc (w.wait ++ w.ready)]
    refine List.Perm.append_left _ ?_
    refine (List.Perm.append_left _ perm_append_comm).trans ?_
    rw [← append_assoc]
    exact hsplit.append_right _
  · exact (List.Sublist.append_left filter_sublist _).subperm
  · show w.usedSize - _ = _
    have hvol := volume_perm hsplit
    rw [volume_append] at hvol
    rw [hu, nil_append, volume_append, volume_append, ← hvol, ← Nat.add_assoc,
      ofNat_add (volume w.ready + _), BitVec.add_sub_cancel]

theorem tcpAckHandler_sendWindow (s : Sock) (skb : SkBuff) :
    (tcpAckHandler s skb).sendWindow =
      ackSegments skb.ackSeq skb.window s.sendWindow.waitAck s.sendWindow := by
  obtain ⟨_, _, _, heq, _⟩ := tcpAckHandler_writes s skb
  rw [heq]

theorem keeps_tcpAckHandler (s : Sock) (skb : SkBuff) : Keeps s (tcpAckHandler s skb) := by
  obtain ⟨_, _, _, heq, _⟩ := tcpAckHandler_writes s skb
  rw [heq]
  exact ⟨moved_ackSegments skb.ackSeq skb.window s.sendWindow, rfl, rfl⟩

/-! ## A new segment -/

/-- The new segment is on one of the two lists. -/
theorem live_enqueue (w : SlidingWindow) (seg : TcpSeg) :
    (w.enqueue seg).live.Perm (seg :: w.live) := by
  unfold SlidingWindow.enqueue SlidingWindow.live
  split_ifs
  · show (w.wait ++ (w.ready ++ [seg]) ++ w.waitAck).Perm _
    rw [← append_assoc, append_assoc _ [seg]]
    exact perm_middle
  · show (w.wait ++ [seg] ++ w.ready ++ w.waitAck).Perm _
    rw [append_assoc, append_assoc, append_assoc w.wait]
    exact perm_middle

theorem enqueue_made (w : SlidingWindow) (seg : TcpSeg) :
    (w.enqueue seg).made = w.made ++ [seg] ∧ (w.enqueue seg).freed = w.freed := by
  unfold SlidingWindow.enqueue
  split_ifs <;> exact ⟨rfl, rfl⟩

theorem enqueue_used (seg : TcpSeg)
    (hu : w.usedSize = BitVec.ofNat 32 (volume (w.ready ++ w.waitAck))) :
    (w.enqueue seg).usedSize =
      BitVec.ofNat 32 (volume ((w.enqueue seg).ready ++ (w.enqueue seg).waitAck)) := by
  unfold SlidingWindow.enqueue
  split_ifs
  · show w.usedSize + _ = BitVec.ofNat 32 (volume (w.ready ++ [seg] ++ w.waitAck))
    have hperm : (w.ready ++ [seg] ++ w.waitAck).Perm (w.ready ++ w.waitAck ++ [seg]) := by
      rw [append_assoc, append_assoc]
      exact perm_append_comm.append_left _
    rw [volume_perm hperm, volume_append _ [seg], ofNat_add, ← setWidth_len, hu]
  · exact hu

/-- What `tcp_do_segment` moves to `ready` stays within `tot_size`. -/
theorem moves_enqueue (w : SlidingWindow) (seg : TcpSeg) :
    (w.enqueue seg).totSize = w.totSize ∧
      ∃ l, (w.enqueue seg).moves = w.moves ++ l ∧ ∀ u ∈ l, u ≤ w.totSize := by
  unfold SlidingWindow.enqueue
  split_ifs with hfits
  · exact ⟨rfl, _, rfl, fun u hu => mem_singleton.mp hu ▸ hfits⟩
  · exact ⟨rfl, [], (append_nil _).symm, by simp⟩

theorem segLen_le (s : Sock) (len : BitVec 32) : (segLen s len).toNat ≤ len.toNat := by
  unfold segLen
  split_ifs with hmss
  · rw [ge_iff_le, le_def, toNat_setWidth] at hmss
    omega
  · rw [toNat_setWidth]
    exact Nat.mod_le _ _

theorem segLen_le_mss (s : Sock) (len : BitVec 32) : segLen s len ≤ s.mss := by
  unfold segLen
  split_ifs with hmss
  · exact BitVec.le_refl _
  · rw [ge_iff_le, le_def, toNat_setWidth] at hmss
    rw [le_def, toNat_setWidth]
    omega

theorem segLen_ne_zero {len : BitVec 32} (hlen : len ≠ 0) (hmss : s.mss ≠ 0) :
    segLen s len ≠ 0 := by
  unfold segLen
  split_ifs with hle
  · exact hmss
  · intro h0
    rw [ge_iff_le, le_def, toNat_setWidth] at hle
    have h0' := congrArg BitVec.toNat h0
    rw [toNat_setWidth, mod_eq_of_lt (by omega)] at h0'
    exact hlen (eq_of_toNat_eq h0')

/-- What is left of the length after a round is the length of what is left. -/
theorem length_rest {buf : List Byte} {len : BitVec 32} (hbuf : buf.length = len.toNat) :
    (buf.drop (segLen s len).toNat).length = (len - (segLen s len).setWidth 32).toNat := by
  have hle := segLen_le s len
  rw [length_drop, hbuf, toNat_sub_of_le, toNat_setWidth,
    mod_eq_of_lt (by omega)]
  exact hle

section

variable {s₀ s s' : Sock} {buf : List Byte} {len : BitVec 32} {addr fuel : ℕ} {ret : ℤ}

/-- The socket after a round of `tcp_do_segment`. -/
def afterRound (s s' : Sock) (buf : List Byte) (len : BitVec 32) (addr : ℕ) : Sock :=
  { s' with
    sendSeq := (nextSeg s buf len addr).expectedAck
    sendWindow := s'.sendWindow.enqueue (nextSeg s buf len addr) }

theorem allocTcpSeg_keeps (s : Sock) (n : BitVec 16) :
    (allocTcpSeg s n).2.sendWindow = s.sendWindow ∧ (allocTcpSeg s n).2.mss = s.mss ∧
      (allocTcpSeg s n).2.sendSeq = s.sendSeq := by
  have hask := ask_keeps s
  unfold allocTcpSeg
  simp only
  split_ifs <;> exact hask

theorem vacant_of_allocTcpSeg {n : BitVec 16} (h : (allocTcpSeg s n).1 = some addr) :
    s.sendWindow.Vacant addr n.toNat := by
  have hw := (ask_keeps s).1
  unfold allocTcpSeg at h
  simp only at h
  split_ifs at h with hv
  · rw [← some.inj h, ← hw]
    exact hv

theorem Ledger.afterRound (h : Ledger s₀ s) (hs' : (allocTcpSeg s (segLen s len)).2 = s')
    (haddr : (allocTcpSeg s (segLen s len)).1 = some addr) (hbuf : buf.length = len.toNat)
    (hlen : len ≠ 0) : Ledger s₀ (Tcp.afterRound s s' buf len addr) := by
  obtain ⟨hw, hmss, hseq⟩ := allocTcpSeg_keeps s (segLen s len)
  obtain ⟨hpos, hend, hfree⟩ := vacant_of_allocTcpSeg haddr
  rw [hs'] at hw hmss hseq
  obtain ⟨hmade, hfreed⟩ := enqueue_made s'.sendWindow (nextSeg s buf len addr)
  have hlive := live_enqueue s'.sendWindow (nextSeg s buf len addr)
  refine ⟨hmss.trans h.mss, enqueue_used _ (hw ▸ h.used), ?_, ?_, ?_, ?_, ?_⟩
  · simp only [Tcp.afterRound]
    rw [hmade, hfreed]
    refine (hlive.append_right _).trans ?_
    rw [hw]
    refine List.Perm.trans ?_ perm_append_comm
    exact List.Perm.cons _ h.parts
  · show Consecutive _ (s'.sendWindow.enqueue _).made _
    rw [hmade, hw]
    exact consecutive_concat h.chain rfl rfl
  · intro t ht
    replace ht : t ∈ (s'.sendWindow.enqueue _).made := ht
    rw [hmade, hw, mem_append, mem_singleton] at ht
    rcases ht with ht | rfl
    · exact h.sizes t ht
    · rw [← h.mss]
      refine ⟨segLen_le_mss s len, segLen_ne_zero hlen, ?_⟩
      show (buf.take (segLen s len).toNat).length = (segLen s len).toNat
      rw [length_take, hbuf, Nat.min_eq_left (segLen_le s len)]
  · show (s'.sendWindow.enqueue _).live.Pairwise _
    rw [hlive.pairwise_iff fun hab => hab.symm, hw, pairwise_cons]
    exact ⟨fun t ht => hfree t ht, h.apart⟩
  · intro t ht
    rcases mem_cons.mp (hlive.subset ht) with rfl | ht
    · exact ⟨hpos, hend⟩
    · rw [hw] at ht
      exact h.placed t ht

/-- What the loop of `tcp_do_segment` comes to: new segments with the bytes of the buffer, all
of them when it returns 0. -/
theorem Ledger.doSegment (h : Ledger s₀ s) (hbuf : buf.length = len.toNat)
    (heq : Tcp.doSegment fuel s buf len = some (ret, s')) : Ledger s₀ s' ∧
      (ret = 0 → s'.sendWindow.made.flatMap TcpSeg.data =
        s.sendWindow.made.flatMap TcpSeg.data ++ buf) ∧
      ∃ l, s'.sendWindow.moves = s.sendWindow.moves ++ l ∧ ∀ u ∈ l, u ≤ s.sendWindow.totSize := by
  have hnone : ∀ {w : SlidingWindow}, ∃ l, w.moves = w.moves ++ l ∧ ∀ u ∈ l, u ≤ w.totSize :=
    ⟨[], (append_nil _).symm, by simp⟩
  induction fuel generalizing s buf len with
  | zero => cases heq
  | succ fuel ih =>
    unfold Tcp.doSegment at heq
    by_cases hlen : len = 0
    · rw [if_pos hlen, some.injEq, Prod.mk.injEq] at heq
      have hnil : buf = [] := eq_nil_of_length_eq_zero (by rw [hbuf, hlen]; rfl)
      rw [← heq.2, hnil, append_nil]
      exact ⟨h, fun _ => rfl, hnone⟩
    · rw [if_neg hlen] at heq
      obtain ⟨hw, hmss, hseq⟩ := allocTcpSeg_keeps s (segLen s len)
      cases hcase : allocTcpSeg s (segLen s len) with
      | mk p s₁ =>
        rw [hcase] at heq hw hmss hseq
        cases p with
        | none =>
          rw [some.injEq, Prod.mk.injEq] at heq
          rw [← heq.1, ← heq.2, hw]
          exact ⟨h.keeps (.of_eq hw hmss hseq), fun h0 => absurd h0 (by decide), hnone⟩
        | some addr =>
          have hround : Ledger s₀ (Tcp.afterRound s s₁ buf len addr) :=
            h.afterRound (by rw [hcase]) (by rw [hcase]) hbuf hlen
          obtain ⟨hled, hdata, l, hmoves, hle⟩ := ih hround (length_rest hbuf) heq
          obtain ⟨hmade, _⟩ := enqueue_made s₁.sendWindow (nextSeg s buf len addr)
          refine ⟨hled, fun h0 => ?_, ?_⟩
          · rw [hdata h0]
            show (s₁.sendWindow.enqueue _).made.flatMap _ ++ _ = _
            rw [hmade, hw, flatMap_append, append_assoc]
            show _ ++ (buf.take _ ++ [] ++ buf.drop _) = _
            rw [append_nil, take_append_drop]
          · obtain ⟨htot, l0, hmoves0, hle0⟩ :=
              moves_enqueue s₁.sendWindow (nextSeg s buf len addr)
            rw [← hw]
            refine ⟨l0 ++ l, ?_, fun u hu => ?_⟩
            · rw [hmoves, ← append_assoc, ← hmoves0]
              rfl
            · rcases mem_append.mp hu with hu | hu
              · exact hle0 u hu
              · exact htot ▸ hle u hu

/-- With `mss ≥ 1` every round takes a byte, so the loop ends. -/
theorem doSegment_isSome (hmss : s.mss ≠ 0) (hfuel : len.toNat < fuel) :
    (doSegment fuel s buf len).isSome := by
  induction fuel generalizing s buf len with
  | zero => omega
  | succ fuel ih =>
    unfold Tcp.doSegment
    split_ifs with hlen
    · rfl
    · have hkeep := (allocTcpSeg_keeps s (segLen s len)).2.1
      cases hcase : allocTcpSeg s (segLen s len) with
      | mk p s1 =>
        rw [hcase] at hkeep
        cases p with
        | none => rfl
        | some addr =>
          refine ih (hkeep.trans_ne hmss) ?_
          have hne := segLen_ne_zero (s := s) hlen hmss
          have hle := segLen_le s len
          have hpos := BitVec.toNat_pos_of_ne_zero hne
          show (len - (segLen s len).setWidth 32).toNat < fuel
          rw [toNat_sub_of_le, toNat_setWidth_of_le (by decide)]
          · omega
          · rw [le_def, toNat_setWidth_of_le (by decide)]
            exact hle

end

/-! ## Runs -/

/-- What happens to a connected socket: a call of `tcp_send` with a buffer, a run of
`tcp_process_send_window`, an acknowledgement.  The first two get answers from the kernel. -/
inductive SendEvent : Type where
  | send (buf : List Byte) (answers : List ℤ) : SendEvent
  | process (answers : List ℤ) : SendEvent
  | ack (skb : SkBuff) : SendEvent

namespace SendEvent

def apply (s : Sock) : SendEvent → Option (ℤ × Sock)
  | send buf answers => tcpSend { s with answers := answers } buf (BitVec.ofNat 32 buf.length)
  | process answers => some (0, tcpProcessSendWindow { s with answers := answers })
  | ack skb => some (0, tcpAckHandler s skb)

/-- The bytes passed to `tcp_send`. -/
def bytes : SendEvent → List Byte
  | send buf _ => buf
  | process _ => []
  | ack _ => []

/-- The length of a buffer is an `int`. -/
def Fits (e : SendEvent) : Prop := e.bytes.length < 2 ^ 31

instance (e : SendEvent) : Decidable e.Fits := inferInstanceAs (Decidable (_ < _))

end SendEvent

/-- A run, up to its last state; `none` when a call does not return. -/
def runSends : List SendEvent → Sock → Option Sock
  | [], s => some s
  | e :: es, s => (e.apply s).bind fun r => runSends es r.2

/-- Every allocation of the run succeeds: no call returns an error. -/
def Granted : List SendEvent → Sock → Prop
  | [], _ => True
  | e :: es, s => ∀ r ∈ e.apply s, r.1 = 0 ∧ Granted es r.2

instance instDecidableGranted : (es : List SendEvent) → (s : Sock) → Decidable (Granted es s)
  | [], _ => isTrue trivial
  | e :: es, s =>
    match h : e.apply s with
    | none => isTrue fun r hr => nomatch h.symm.trans hr
    | some (ret, s') =>
      match decEq ret 0, instDecidableGranted es s' with
      | isTrue h0, isTrue hrest => isTrue fun r hr => by
          cases h.symm.trans hr
          exact ⟨h0, hrest⟩
      | isFalse h0, _ => isFalse fun hg => h0 (hg _ h).1
      | _, isFalse hrest => isFalse fun hg => hrest (hg _ h).2

/-- A socket that has just been connected: `kmalloc` has cleared it and `alloc_isocket` has
made its lists empty. -/
structure Opened (s : Sock) : Prop where
  status : s.status = .established
  used : s.sendWindow.usedSize = 0
  lists : s.sendWindow.wait = [] ∧ s.sendWindow.ready = [] ∧ s.sendWindow.waitAck = []
  ghosts : s.sendWindow.made = [] ∧ s.sendWindow.freed = [] ∧ s.sendWindow.moves = []

theorem Opened.ledger (h : Opened s) : Ledger s s := by
  obtain ⟨hwait, hready, hack⟩ := h.lists
  obtain ⟨hmade, hfreed, _⟩ := h.ghosts
  have hlive : s.sendWindow.live = [] := by
    rw [SlidingWindow.live, hwait, hready, hack]
    rfl
  refine ⟨rfl, ?_, ?_, ?_, ?_, ?_, ?_⟩
  · rw [h.used, hready, hack]
    rfl
  · rw [hlive, hfreed, hmade]
    exact List.Perm.refl _
  · rw [hmade]
    exact rfl
  · simp [hmade]
  · rw [hlive]
    exact List.Pairwise.nil
  · simp [hlive]

section

variable {s₀ s s' : Sock} {e : SendEvent} {es : List SendEvent} {ret : ℤ}

theorem length_of_fits {buf : List Byte} {answers : List ℤ}
    (hfits : (SendEvent.send buf answers).Fits) :
    buf.length = (BitVec.ofNat 32 buf.length).toNat := by
  rw [BitVec.toNat_ofNat, mod_eq_of_lt]
  exact lt_of_lt_of_le hfits (by decide)

/-- **Step.**  Whatever happens, the ledger stays in order; a call that returns 0 has made
segments of all its bytes. -/
theorem Ledger.apply (h : Ledger s₀ s) (hfits : e.Fits) (heq : e.apply s = some (ret, s')) :
    Ledger s₀ s' ∧ (ret = 0 → s'.sendWindow.made.flatMap TcpSeg.data =
      s.sendWindow.made.flatMap TcpSeg.data ++ e.bytes) := by
  cases e with
  | send buf answers =>
    have hbuf := length_of_fits hfits
    have hs : Ledger s₀ { s with answers := answers } := h.keeps (.of_eq rfl rfl rfl)
    simp only [SendEvent.apply, tcpSend] at heq
    split_ifs at heq with hlen
    · rw [some.injEq, Prod.mk.injEq] at heq
      have hnil : buf = [] := eq_nil_of_length_eq_zero (by rw [hbuf, hlen]; rfl)
      rw [← heq.2]
      exact ⟨hs, fun _ => by simp [SendEvent.bytes, hnil]⟩
    · obtain ⟨hled, hdata, _⟩ := hs.doSegment hbuf heq
      exact ⟨hled, hdata⟩
  | process answers =>
    rw [SendEvent.apply, some.injEq, Prod.mk.injEq] at heq
    have hs : Ledger s₀ { s with answers := answers } := h.keeps (.of_eq rfl rfl rfl)
    have hk := keeps_tcpProcessSendWindow { s with answers := answers }
    rw [← heq.2, hk.moved.made]
    exact ⟨hs.keeps hk, fun _ => (append_nil _).symm⟩
  | ack skb =>
    rw [SendEvent.apply, some.injEq, Prod.mk.injEq] at heq
    have hk := keeps_tcpAckHandler s skb
    rw [← heq.2, hk.moved.made]
    exact ⟨h.keeps hk, fun _ => (append_nil _).symm⟩

theorem apply_isSome (hmss : s.mss ≠ 0) : (e.apply s).isSome := by
  cases e with
  | send buf answers =>
    simp only [SendEvent.apply, tcpSend]
    split_ifs
    · rfl
    · exact doSegment_isSome hmss (by omega)
  | process answers => rfl
  | ack skb => rfl

/-- **Run.**  With an `mss` every call returns, and the ledger holds at the end. -/
theorem Ledger.runSends (h : Ledger s₀ s) (hmss : s₀.mss ≠ 0) (hfits : ∀ e ∈ es, e.Fits)
    (hg : Granted es s) : ∃ s', Tcp.runSends es s = some s' ∧ Ledger s₀ s' ∧
      s'.sendWindow.made.flatMap TcpSeg.data =
        s.sendWindow.made.flatMap TcpSeg.data ++ es.flatMap SendEvent.bytes := by
  induction es generalizing s with
  | nil => exact ⟨s, rfl, h, (append_nil _).symm⟩
  | cons e es ih =>
    obtain ⟨r, hr⟩ := isSome_iff_exists.mp (apply_isSome (e := e) (h.mss.trans_ne hmss))
    obtain ⟨hzero, hrest⟩ := hg r hr
    obtain ⟨hled, hdata⟩ := h.apply (hfits e mem_cons_self) hr
    obtain ⟨s', hrun, hled', hdata'⟩ :=
      ih hled (fun e he => hfits e (mem_cons_of_mem _ he)) hrest
    refine ⟨s', ?_, hled', ?_⟩
    · rw [Tcp.runSends, hr]
      exact hrun
    · rw [hdata', hdata hzero, append_assoc, flatMap_cons]

/-- **Send bookkeeping.**  In every run on a connected socket with `mss ≥ 1`, transmissions
failing as they like: `used_size` is the number of bytes on `ready` and `wait_ack`, every
segment made is on one of the three lists or has been freed, and the segments made carry the
bytes of the calls in order, in pieces of 1 to `mss` bytes with consecutive sequence numbers. -/
theorem send_bookkeeping (s₀ : Sock) (es : List SendEvent) (h₀ : Opened s₀) (hmss : s₀.mss ≠ 0)
    (hfits : ∀ e ∈ es, e.Fits) (hg : Granted es s₀) :
    ∃ s, runSends es s₀ = some s ∧
      s.sendWindow.usedSize.toNat = volume (s.sendWindow.ready ++ s.sendWindow.waitAck) ∧
      (s.sendWindow.wait ++ s.sendWindow.ready ++ s.sendWindow.waitAck ++
        s.sendWindow.freed).Perm s.sendWindow.made ∧
      Consecutive s₀.sendSeq s.sendWindow.made s.sendSeq ∧
      (∀ t ∈ s.sendWindow.made, 1 ≤ t.len.toNat ∧ t.len ≤ s₀.mss ∧
        t.data.length = t.len.toNat) ∧
      s.sendWindow.made.flatMap TcpSeg.data = es.flatMap SendEvent.bytes := by
  obtain ⟨s, hrun, hled, hdata⟩ := h₀.ledger.runSends hmss hfits hg
  refine ⟨s, hrun, hled.used_toNat, hled.parts, hled.chain, fun t ht => ?_, ?_⟩
  · obtain ⟨hle, hne, hlen⟩ := hled.sizes t ht
    exact ⟨BitVec.toNat_pos_of_ne_zero (hne hmss), hle, hlen⟩
  · rw [hdata, h₀.ghosts.1]
    rfl

end

/-- A connected socket with an `mss` of 2 and a window of 3 bytes. -/
def narrowSock : Sock := { blankSock with
  mss := 2
  sendWindow := { totSize := 3, usedSize := 0, wait := [], ready := [], waitAck := [] } }

theorem opened_narrowSock : Opened narrowSock := ⟨rfl, rfl, ⟨rfl, rfl, rfl⟩, ⟨rfl, rfl, rfl⟩⟩

/-- An acknowledgement of the bytes up to `seq`, with a window. -/
def ackOf (seq : BitVec 32) (window : BitVec 16) : SkBuff where
  totLen := 40
  doff := 5
  seq := 0
  ackSeq := seq
  window := window
  fin := false
  syn := false
  rst := false
  ack := true
  urg := false
  body := []
  off := 0

/-- Five bytes, of which the middle two have to wait and the last one overtakes them; the
second transmission fails; the first segment is acknowledged. -/
def fiveBytes : List SendEvent :=
  [.send [1, 2, 3, 4, 5] [100, 200, 300], .process [0, -1], .ack (ackOf 2 4), .process [0]]

theorem send_bookkeeping_fiveBytes : ∃ s, runSends fiveBytes narrowSock = some s ∧
    s.sendWindow.usedSize.toNat = volume (s.sendWindow.ready ++ s.sendWindow.waitAck) ∧
    (s.sendWindow.wait ++ s.sendWindow.ready ++ s.sendWindow.waitAck ++
      s.sendWindow.freed).Perm s.sendWindow.made ∧
    Consecutive narrowSock.sendSeq s.sendWindow.made s.sendSeq ∧
    (∀ t ∈ s.sendWindow.made, 1 ≤ t.len.toNat ∧ t.len ≤ narrowSock.mss ∧
      t.data.length = t.len.toNat) ∧
    s.sendWindow.made.flatMap TcpSeg.data = fiveBytes.flatMap SendEvent.bytes :=
  send_bookkeeping narrowSock fiveBytes opened_narrowSock (by decide) (by decide)
    (by decide +kernel)

/-! ## The peer's window

An acknowledgement stores its window in `tot_size` only if it removes a segment, so `tot_size` need
not be the window that the peer has advertised last. -/

/-- The window that the peer has advertised last, after the event. -/
def SendEvent.advertised (adv : BitVec 32) : SendEvent → BitVec 32
  | send _ _ => adv
  | process _ => adv
  | ack skb => skb.window.setWidth 32

/-- `P` holds of every step of the run, in the state before it and with the window that the peer
has advertised last. -/
def EveryStep (P : BitVec 32 → Sock → SendEvent → Prop) : List SendEvent → BitVec 32 → Sock → Prop
  | [], _, _ => True
  | e :: es, adv, s => P adv s e ∧ ∀ r ∈ e.apply s, EveryStep P es (e.advertised adv) r.2

/-- `used_size` after each move to `ready` between two states. -/
def newMoves (w w' : SlidingWindow) : List (BitVec 32) := w'.moves.drop w.moves.length

/-- The step keeps `used_size` within the window whenever it moves a segment to `ready`. -/
def WindowKept (adv : BitVec 32) (s : Sock) (e : SendEvent) : Prop :=
  ∀ r ∈ e.apply s, ∀ u ∈ newMoves s.sendWindow r.2.sendWindow, u ≤ adv

/-- `tcp_send` finds no more than the window that the peer has advertised last. -/
def SendCurrent (adv : BitVec 32) (s : Sock) : SendEvent → Prop
  | .send buf _ => buf ≠ [] → s.sendWindow.totSize ≤ adv
  | .process _ => True
  | .ack _ => True

instance instDecidableEveryStep {P : BitVec 32 → Sock → SendEvent → Prop}
    [∀ adv s e, Decidable (P adv s e)] :
    (es : List SendEvent) → (adv : BitVec 32) → (s : Sock) → Decidable (EveryStep P es adv s)
  | [], _, _ => isTrue trivial
  | e :: es, adv, _ =>
    have := instDecidableEveryStep (P := P) es (e.advertised adv)
    inferInstanceAs (Decidable (_ ∧ ∀ r ∈ _, _))

instance (adv : BitVec 32) (s : Sock) (e : SendEvent) : Decidable (WindowKept adv s e) :=
  decidable_of_iff (∀ r ∈ e.apply s, (newMoves s.sendWindow r.2.sendWindow).all (· ≤ adv))
    (by simp [WindowKept])

instance (adv : BitVec 32) (s : Sock) (e : SendEvent) : Decidable (SendCurrent adv s e) :=
  match e with
  | .send _ _ => inferInstanceAs (Decidable (_ → _))
  | .process _ => isTrue trivial
  | .ack _ => isTrue trivial

/-- Whatever segments at the front of `l` fit into `tot_size`, or find that `used_size` exceeds it,
fit into the window, too. -/
def SlidingWindow.FrontFits (w : SlidingWindow) (l : List TcpSeg) (adv : BitVec 32) : Prop :=
  ∀ pre, pre <+: l → pre ≠ [] →
    w.usedSize.toNat + volume pre ≤ w.totSize.toNat ∨ w.totSize < w.usedSize →
      w.usedSize.toNat + volume pre ≤ adv.toNat

/-- The condition on `tcp_process_send_window`. -/
def Roomy (adv : BitVec 32) (s : Sock) : SendEvent → Prop
  | .send _ _ => True
  | .process _ => s.flags.getLsbD 0 ∨ s.sendWindow.FrontFits s.sendWindow.wait adv
  | .ack _ => True

section

variable {s₀ s s' : Sock} {e : SendEvent} {es : List SendEvent} {adv : BitVec 32}

theorem newMoves_of_eq {w w' : SlidingWindow} {l : List (BitVec 32)}
    (h : w'.moves = w.moves ++ l) : newMoves w w' = l := by
  rw [newMoves, h, drop_left]

theorem newMoves_self (w : SlidingWindow) : newMoves w w = [] :=
  newMoves_of_eq (append_nil _).symm

/-- The test of `tcp_process_send_window` in numbers: the difference wraps once `used_size` exceeds
`tot_size`. -/
theorem fits_iff_of_lt (seg : TcpSeg) (hlt : w.usedSize.toNat + seg.len.toNat < 2 ^ 32) :
    w.totSize - w.usedSize ≥ seg.len.setWidth 32 ↔
      w.usedSize.toNat + seg.len.toNat ≤ w.totSize.toNat ∨ w.totSize < w.usedSize := by
  rw [ge_iff_le, le_def, toNat_setWidth_of_le (by decide), BitVec.toNat_sub, BitVec.lt_def]
  have := w.totSize.isLt
  omega

/-- A segment that is let through: it fits, and so do those behind it from there on. -/
theorem frontFits_cons_iff {seg : TcpSeg} {rest : List TcpSeg} {v : SlidingWindow}
    (hfits : w.usedSize.toNat + seg.len.toNat ≤ w.totSize.toNat ∨ w.totSize < w.usedSize)
    (hused : v.usedSize.toNat = w.usedSize.toNat + seg.len.toNat)
    (htot : v.totSize = w.totSize) :
    w.FrontFits (seg :: rest) adv ↔ v.usedSize ≤ adv ∧ v.FrontFits rest adv := by
  have hvol : ∀ pre, volume (seg :: pre) = seg.len.toNat + volume pre :=
    fun pre => volume_append [seg] pre
  have hzero : volume [] = 0 := rfl
  unfold SlidingWindow.FrontFits
  rw [BitVec.lt_def] at hfits ⊢
  rw [BitVec.lt_def, le_def, htot]
  constructor
  · intro h
    refine ⟨?_, fun pre hpre _ hadm => ?_⟩
    · have := h [seg] (by simp) (by simp) (by rw [hvol, hzero]; omega)
      rw [hvol, hzero] at this
      omega
    · have := h (seg :: pre) (cons_prefix_cons.mpr ⟨rfl, hpre⟩) (by simp) (by rw [hvol]; omega)
      rw [hvol] at this
      omega
  · rintro ⟨hfirst, hrest⟩ pre hpre hne hadm
    cases pre with
    | nil => exact absurd rfl hne
    | cons t pre =>
      obtain ⟨rfl, hpre'⟩ := cons_prefix_cons.mp hpre
      rw [hvol] at hadm ⊢
      by_cases hnil : pre = []
      · rw [hnil, hzero]
        omega
      · have := hrest pre hpre' hnil (by omega)
        omega

/-- What the first loop of `tcp_process_send_window` moves keeps within the window exactly if the
front of the list fits. -/
theorem moves_fillReady_iff (adv : BitVec 32) (hlt : w.usedSize.toNat + volume l < 2 ^ 32) :
    ∃ moves, (fillReady l w).moves = w.moves ++ moves ∧
      ((∀ u ∈ moves, u ≤ adv) ↔ w.FrontFits l adv) := by
  induction l generalizing w with
  | nil =>
    refine ⟨[], (append_nil _).symm, iff_of_true (by simp) fun pre hpre hne => ?_⟩
    exact absurd (prefix_nil.mp hpre) hne
  | cons seg rest ih =>
    have hvol : volume (seg :: rest) = seg.len.toNat + volume rest := volume_append [seg] rest
    have htest := fits_iff_of_lt (w := w) seg (by omega)
    unfold fillReady
    by_cases hfits : w.totSize - w.usedSize ≥ seg.len.setWidth 32
    · rw [if_pos hfits]
      have hused : (w.usedSize + seg.len.setWidth 32).toNat = w.usedSize.toNat + seg.len.toNat := by
        rw [BitVec.toNat_add, toNat_setWidth_of_le (by decide), mod_eq_of_lt (by omega)]
      set v : SlidingWindow := { w with
        ready := w.ready ++ [seg]
        usedSize := w.usedSize + seg.len.setWidth 32
        moves := w.moves ++ [w.usedSize + seg.len.setWidth 32] }
      obtain ⟨moves, heq, hiff⟩ := ih (w := v) (by rw [hused]; omega)
      refine ⟨v.usedSize :: moves, ?_, ?_⟩
      · rw [heq, append_assoc]
        rfl
      · rw [forall_mem_cons, hiff]
        exact (frontFits_cons_iff (v := v) (htest.mp hfits) hused rfl).symm
    · -- the first one does not fit, so no part of the front does
      rw [if_neg hfits]
      refine ⟨[], (append_nil _).symm, iff_of_true (by simp) fun pre hpre hne hadm => ?_⟩
      cases pre with
      | nil => exact absurd rfl hne
      | cons t pre =>
        obtain ⟨rfl, -⟩ := cons_prefix_cons.mp hpre
        have hpre' : volume (t :: pre) = t.len.toNat + volume pre := volume_append [t] pre
        refine absurd (htest.mpr (hadm.imp_left fun hle => ?_)) hfits
        omega

theorem moves_tcpProcessSendWindow (s : Sock) : (tcpProcessSendWindow s).sendWindow.moves =
    if s.flags.getLsbD 0 then s.sendWindow.moves
    else (fillReady s.sendWindow.wait s.sendWindow).moves := by
  unfold tcpProcessSendWindow
  split_ifs
  · rfl
  · obtain ⟨_, _, _, heq, _⟩ := sendReady_eq (fillReady s.sendWindow.wait s.sendWindow).ready
      { s with sendWindow := fillReady s.sendWindow.wait s.sendWindow }
    rw [heq]

/-- What is in flight and what waits fit into memory together. -/
theorem Ledger.used_add_lt (h : Ledger s₀ s) :
    s.sendWindow.usedSize.toNat + volume s.sendWindow.wait < 2 ^ 32 := by
  have hlt := h.volume_live_lt
  rw [s.sendWindow.volume_live, ← h.used_toNat] at hlt
  omega

/-- **Step.**  An event keeps within the window exactly when it is roomy. -/
theorem Ledger.windowKept_iff (h : Ledger s₀ s) (hfits : e.Fits) (hcur : SendCurrent adv s e) :
    WindowKept adv s e ↔ Roomy adv s e := by
  cases e with
  | send buf answers =>
    refine iff_of_true (fun r hr => ?_) trivial
    have hbuf := length_of_fits hfits
    have hs : Ledger s₀ { s with answers := answers } := h.keeps (.of_eq rfl rfl rfl)
    simp only [mem_def, SendEvent.apply, tcpSend] at hr
    split_ifs at hr with hlen
    · obtain rfl := some.inj hr
      simp [newMoves_self]
    · obtain ⟨-, -, l, hmoves, hle⟩ := hs.doSegment hbuf hr
      have hnew : newMoves s.sendWindow r.2.sendWindow = l := newMoves_of_eq hmoves
      rw [hnew]
      have hne : buf ≠ [] := by
        rintro rfl
        exact hlen rfl
      exact fun u hu => BitVec.le_trans (hle u hu) (hcur hne)
  | process answers =>
    have hmoves := moves_tcpProcessSendWindow { s with answers := answers }
    simp only [WindowKept, SendEvent.apply, mem_def, some.injEq, forall_eq', Roomy]
    by_cases hflag : s.flags.getLsbD 0
    · rw [if_pos hflag] at hmoves
      have hnew : newMoves s.sendWindow _ = [] :=
        newMoves_of_eq (hmoves.trans (append_nil s.sendWindow.moves).symm)
      rw [hnew]
      exact iff_of_true (by simp) (Or.inl hflag)
    · rw [if_neg hflag] at hmoves
      obtain ⟨moves, heq, hiff⟩ := moves_fillReady_iff adv h.used_add_lt
      have hnew : newMoves s.sendWindow _ = moves := newMoves_of_eq (hmoves.trans heq)
      rw [hnew, hiff]
      exact (or_iff_right hflag).symm
  | ack skb =>
    refine iff_of_true (fun r hr => ?_) trivial
    obtain rfl := some.inj hr
    obtain ⟨_, hack⟩ := ackSegments_eq skb.ackSeq skb.window s.sendWindow.waitAck [] s.sendWindow
      rfl (by simp)
    have hnew : newMoves s.sendWindow (tcpAckHandler s skb).sendWindow = [] :=
      newMoves_of_eq (by rw [tcpAckHandler_sendWindow, hack, append_nil])
    simp [hnew]

/-- **Run.** -/
theorem Ledger.everyStep_iff (h : Ledger s₀ s) (hfits : ∀ e ∈ es, e.Fits)
    (hcur : EveryStep SendCurrent es adv s) :
    EveryStep WindowKept es adv s ↔ EveryStep Roomy es adv s := by
  induction es generalizing s adv with
  | nil => exact Iff.rfl
  | cons e es ih =>
    have he := hfits e mem_cons_self
    refine and_congr (h.windowKept_iff he hcur.1) (forall₂_congr fun r hr => ?_)
    exact ih (h.apply he hr).1 (fun e he => hfits e (mem_cons_of_mem _ he)) (hcur.2 r hr)

/-- **The peer's window.**  In a run on a connected socket in which `tcp_send` never finds a window
larger than the one that the peer has advertised last, the segments put on `ready` keep `used_size`
within that window exactly when the waiting segments that `tcp_process_send_window` lets through
always fit. -/
theorem window_kept_iff (s₀ : Sock) (adv : BitVec 32) (es : List SendEvent) (h₀ : Opened s₀)
    (hfits : ∀ e ∈ es, e.Fits) (hcur : EveryStep SendCurrent es adv s₀) :
    EveryStep WindowKept es adv s₀ ↔ EveryStep Roomy es adv s₀ :=
  h₀.ledger.everyStep_iff hfits hcur

end

/-- All that is in flight is acknowledged as the peer closes its window. -/
def closingWindow : List SendEvent :=
  [.send [1, 2, 3, 4, 5] [100, 200, 300], .process [0, 0], .ack (ackOf 5 0), .process [0]]

theorem window_kept_iff_closingWindow :
    EveryStep SendCurrent closingWindow 3 narrowSock ∧
      EveryStep Roomy closingWindow 3 narrowSock := by
  have hcur : EveryStep SendCurrent closingWindow 3 narrowSock := by decide +kernel
  exact ⟨hcur, (window_kept_iff narrowSock 3 closingWindow opened_narrowSock (by decide) hcur).mp
    (by decide +kernel)⟩

/-- Two of three bytes in flight are acknowledged as the peer closes its window. -/
def shrinkingWindow : List SendEvent :=
  [.send [1, 2, 3, 4, 5] [100, 200, 300], .process [0, 0], .ack (ackOf 2 0), .process [0]]

/-- The two waiting bytes are moved to `ready` although the window is 0.  And an acknowledgement
that removes nothing does not make the window smaller: with a window of 1, three bytes are moved. -/
theorem window_overrun : Opened narrowSock ∧
    ((runSends shrinkingWindow narrowSock).map fun s =>
      (s.sendWindow.moves, s.sendWindow.totSize)) = some ([2, 3, 3], 0) ∧
    ¬ EveryStep WindowKept shrinkingWindow 3 narrowSock ∧
    ((runSends [.ack (ackOf 0 1), .send [1, 2, 3] [100, 200]] narrowSock).map fun s =>
      s.sendWindow.moves) = some [2, 3] ∧
    ¬ EveryStep WindowKept [.ack (ackOf 0 1), .send [1, 2, 3] [100, 200]] 3 narrowSock :=
  ⟨opened_narrowSock, by decide +kernel, by decide +kernel, by decide +kernel, by decide +kernel⟩

end Tcp

end Yap
