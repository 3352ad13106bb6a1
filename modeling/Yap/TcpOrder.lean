/-
# Sequence numbers on the sending side (`net/inet/tcp.c`)

Three questions about the segments a socket has sent or is going to send.

* Which of them does an acknowledgement cover?  `tcp_ack_handler` compares sequence numbers as
  unsigned integers, which is their order in sequence space as long as no wrap lies between the
  two (`ack_removes_exactly_iff`).
* What is left of a call of `tcp_send` that fails?  Everything that was done before the failure
  (`send_all_or_nothing_iff`).  Without an `mss` the loop does not end either.
* In which order are the segments sent?  `tcp_do_segment` looks at the free window but not at the
  waiting list, so that a short segment overtakes the longer ones that wait
  (`sent_in_order_of_patient`).
-/
import Yap.TcpHandshake
import Yap.Cyclic

namespace Yap

namespace Tcp

open Cyclic List BitVec Option

/-! ## Acknowledgements -/

/-- The segments occupy sequence numbers among the `n` from `b` on. -/
structure Outstanding (b : BitVec 32) (n : ℕ) (l : List TcpSeg) : Prop where
  short : n < 2 ^ 31
  inside : ∀ t ∈ l, ahead b t.sendSeq + t.len.toNat ≤ n
  ends : ∀ t ∈ l, t.expectedAck = t.sendSeq + t.len.setWidth 32

/-- The last byte of the segment precedes `a` in sequence space, as seen from `b`. -/
def TcpSeg.precedes (b a : BitVec 32) (t : TcpSeg) : Bool :=
  decide (ahead b t.sendSeq + t.len.toNat ≤ ahead b a)

variable {t : TcpSeg} {mss : ℕ} {len : BitVec 32} {buf : List Byte}

section

variable {b a : BitVec 32} {n : ℕ} {s : Sock} {skb : SkBuff}

theorem Outstanding.ahead_expectedAck {l : List TcpSeg} (h : Outstanding b n l)
    (ht : t ∈ l) : ahead b t.expectedAck = ahead b t.sendSeq + t.len.toNat := by
  have hin := h.inside t ht
  have hshort := h.short
  have hlen := toNat_setWidth_of_le (b := t.len) (show 16 ≤ 32 by decide)
  rw [h.ends t ht, ahead_add, hlen]
  omega

/-- The comparison of the code is right about a segment exactly when the sequence numbers do not
wrap between the end of the segment and the acknowledgement. -/
theorem Outstanding.got_eq_precedes_iff {l : List TcpSeg} (h : Outstanding b n l)
    (ht : t ∈ l) : t.got a = t.precedes b a ↔ (b ≤ t.expectedAck ↔ b ≤ a) := by
  rw [TcpSeg.got, TcpSeg.precedes, ← h.ahead_expectedAck ht, decide_eq_decide]
  exact le_iff_ahead_le_iff

theorem tcpAckHandler_waitAck (s : Sock) (skb : SkBuff) : (tcpAckHandler s skb).sendWindow.waitAck =
    s.sendWindow.waitAck.filter fun t => !t.got skb.ackSeq := by
  obtain ⟨tot, heq⟩ := ackSegments_eq skb.ackSeq skb.window s.sendWindow.waitAck [] s.sendWindow
    rfl (by simp)
  rw [tcpAckHandler_sendWindow, heq]
  rfl

theorem tcpAckHandler_receivedAck (s : Sock) (skb : SkBuff) : (tcpAckHandler s skb).receivedAck =
    if s.receivedAck < skb.ackSeq then skb.ackSeq else s.receivedAck := by
  obtain ⟨_, _, _, heq, _⟩ := tcpAckHandler_writes s skb
  rw [heq]

/-- The running maximum takes the value of the acknowledgement if it is not above it. -/
theorem receivedAck_eq_iff :
    (tcpAckHandler s skb).receivedAck = skb.ackSeq ↔ s.receivedAck ≤ skb.ackSeq := by
  rw [tcpAckHandler_receivedAck]
  split_ifs with hlt
  · exact ⟨fun _ => BitVec.le_of_lt hlt, fun _ => rfl⟩
  · constructor
    · intro heq
      rw [heq]
      exact BitVec.le_refl _
    · intro hle
      exact BitVec.le_antisymm hle (BitVec.not_lt.mp hlt)

end

/-- **Acknowledgements.**  For outstanding segments in fewer than `2 ^ 31` sequence numbers from
`b` on, an acknowledgement of `a` removes exactly those that precede `a`, and `received_ack`
becomes `a`, if and only if the sequence numbers do not wrap between `a` and the end of any of the
segments, and `received_ack` is not above `a` as a number. -/
theorem ack_removes_exactly_iff (s : Sock) (skb : SkBuff) (b : BitVec 32) (n : ℕ)
    (h : Outstanding b n s.sendWindow.waitAck) :
    (tcpAckHandler s skb).sendWindow.waitAck =
        (s.sendWindow.waitAck.filter fun t => !t.precedes b skb.ackSeq) ∧
      (tcpAckHandler s skb).receivedAck = skb.ackSeq ↔
    (∀ t ∈ s.sendWindow.waitAck, b ≤ t.expectedAck ↔ b ≤ skb.ackSeq) ∧
      s.receivedAck ≤ skb.ackSeq := by
  rw [tcpAckHandler_waitAck, receivedAck_eq_iff]
  refine and_congr_left' ⟨fun heq t ht => ?_, fun hside => ?_⟩
  · rw [← h.got_eq_precedes_iff ht, ← Bool.not_inj_iff, Bool.eq_iff_iff]
    have hmem := congrArg (t ∈ ·) heq
    simpa only [mem_filter, ht, true_and, eq_iff_iff] using hmem
  · refine filter_congr fun t ht => ?_
    rw [(h.got_eq_precedes_iff ht).mpr (hside t ht)]

/-- Two segments of 8 and 16 bytes from `seq` on, both of them sent. -/
def twoSent (seq received : BitVec 32) : Sock :=
  { blankSock with
    receivedAck := received
    sendWindow := { blankSock.sendWindow with
      waitAck := [⟨100, replicate 8 0, seq, 8, seq + 8⟩,
        ⟨200, replicate 16 0, seq + 8, 16, seq + 24⟩] } }

theorem outstanding_twoSent (seq received : BitVec 32) :
    Outstanding seq 24 (twoSent seq received).sendWindow.waitAck := by
  have hlen : (8 : BitVec 16).setWidth 32 = (8 : BitVec 32) := by decide
  have hlen' : (16 : BitVec 16).setWidth 32 = (16 : BitVec 32) := by decide
  have hend : seq + 24 = seq + 8 + (16 : BitVec 32) := by
    rw [BitVec.add_assoc]
    rfl
  have hzero : ahead seq seq = 0 := by simp [ahead]
  have height : ahead seq (seq + 8) = 8 := by
    rw [ahead_add (by rw [hzero]; decide), hzero]
    rfl
  refine ⟨by decide, fun t ht => ?_, fun t ht => ?_⟩ <;>
    simp only [twoSent, mem_cons, not_mem_nil, or_false] at ht <;>
    rcases ht with rfl | rfl
  · rw [hzero]
    show 0 + 8 ≤ 24
    decide
  · rw [height]
    show 8 + 16 ≤ 24
    decide
  · rw [hlen]
  · rw [hlen', hend]

theorem ack_removes_exactly_iff_twoSent :
    ((tcpAckHandler (twoSent 0 0) (ackOf 8 100)).sendWindow.waitAck =
        ((twoSent 0 0).sendWindow.waitAck.filter fun t => !t.precedes 0 8) ∧
      (tcpAckHandler (twoSent 0 0) (ackOf 8 100)).receivedAck = 8) ∧
    (twoSent 0 0).sendWindow.waitAck.filter (fun t => !t.precedes 0 8) =
      [⟨200, replicate 16 0, 8, 16, 24⟩] := by
  refine ⟨(ack_removes_exactly_iff (twoSent 0 0) (ackOf 8 100) 0 24
    (outstanding_twoSent 0 0)).mpr ⟨by decide, by decide⟩, by decide⟩

/-- **Across the wrap.**  The second of two segments ends behind the wrap.  The acknowledgement of
the first removes both.  And once the first is gone, the acknowledgement of the second leaves
`received_ack` where it is. -/
theorem ack_across_wrap :
    Outstanding 0xfffffff0 24 (twoSent 0xfffffff0 0).sendWindow.waitAck ∧
    (tcpAckHandler (twoSent 0xfffffff0 0) (ackOf 0xfffffff8 100)).sendWindow.waitAck = [] ∧
    ((twoSent 0xfffffff0 0).sendWindow.waitAck.filter
      fun t => !t.precedes 0xfffffff0 0xfffffff8).length = 1 ∧
    (tcpAckHandler (twoSent 0xfffffff0 0xfffffff8) (ackOf 8 100)).receivedAck = 0xfffffff8 ∧
    (tcpAckHandler (twoSent 0xfffffff0 0xfffffff8) (ackOf 8 100)).sendWindow.waitAck.length = 1 ∧
    (twoSent 0xfffffff0 0xfffffff8).sendWindow.waitAck.filter
      (fun t => !t.precedes 0xfffffff0 8) = [] :=
  ⟨outstanding_twoSent _ _, by decide, by decide, by decide, by decide, by decide⟩

/-! ## Calls that fail -/

/-- The sizes of the segments that `len` bytes are cut into. -/
def pieces (mss len : ℕ) : List ℕ :=
  List.replicate (len / mss) mss ++ if len % mss = 0 then [] else [len % mss]

/-- How many segments of at most `mss` bytes it takes: `len / mss`, rounded up. -/
def segments (s : Sock) (len : BitVec 32) : ℕ := (len.toNat + s.mss.toNat - 1) / s.mss.toNat

/-- The memory `[p, p + n)` exists and is apart from the blocks that are in use. -/
def Spare (used : List (ℕ × ℕ)) (p n : ℕ) : Prop :=
  0 < p ∧ p + n ≤ 2 ^ 32 ∧ ∀ u ∈ used, p + n ≤ u.1 ∨ u.1 + u.2 ≤ p

/-- The next answers of `kmalloc` are memory for pieces of these sizes. -/
def Supplied : List ℕ → List ℤ → List (ℕ × ℕ) → Prop
  | [], _, _ => True
  | n :: ns, answers, used =>
    Spare used (answers.headD 0).toNat n ∧
      Supplied ns answers.tail (((answers.headD 0).toNat, n) :: used)

instance (used : List (ℕ × ℕ)) (p n : ℕ) : Decidable (Spare used p n) :=
  inferInstanceAs (Decidable (_ ∧ _ ∧ _))

instance instDecidableSupplied : (ns : List ℕ) → (answers : List ℤ) → (used : List (ℕ × ℕ)) →
    Decidable (Supplied ns answers used)
  | [], _, _ => isTrue trivial
  | _ :: ns, answers, _ =>
    have := instDecidableSupplied ns answers.tail
    inferInstanceAs (Decidable (_ ∧ _))

/-- The memory that the segments of a window use. -/
def SlidingWindow.blocks (w : SlidingWindow) : List (ℕ × ℕ) :=
  w.live.map fun t => (t.addr, t.len.toNat)

/-- A call of `tcp_do_segment` ends after at most `segments` rounds, and if it returns `-ENOMEM`,
nothing has changed that a second call would repeat. -/
def AllOrNothing (s : Sock) (buf : List Byte) (len : BitVec 32) : Prop :=
  ∃ ret s', (∀ fuel, segments s len < fuel → doSegment fuel s buf len = some (ret, s')) ∧
    s'.sendWindow.made.length ≤ s.sendWindow.made.length + segments s len ∧
    (ret = -ENOMEM → s'.sendSeq = s.sendSeq ∧ s'.sendWindow.wait = s.sendWindow.wait ∧
      s'.sendWindow.ready = s.sendWindow.ready ∧ s'.sendWindow.waitAck = s.sendWindow.waitAck)

theorem pieces_of_eq_zero (hlen : len = 0) :
    pieces mss len.toNat = [] := by
  simp [hlen, pieces]

/-- Some bytes are cut off, and the rest is cut in the same way. -/
theorem pieces_eq_cons {len : ℕ} (hmss : 0 < mss) (hlen : 0 < len) :
    pieces mss len = min mss len :: pieces mss (len - min mss len) := by
  unfold pieces
  rcases Nat.lt_or_ge len mss with hlt | hge
  · rw [Nat.min_eq_right hlt.le, Nat.div_eq_of_lt hlt, Nat.mod_eq_of_lt hlt, if_neg (by omega),
      Nat.sub_self, Nat.zero_div, Nat.zero_mod, if_pos rfl]
    rfl
  · rw [Nat.min_eq_left hge, Nat.div_eq_sub_div hmss hge, Nat.mod_eq_sub_mod hge,
      List.replicate_succ, List.cons_append]

theorem length_pieces (hmss : 0 < mss) (len : ℕ) :
    (pieces mss len).length = (len + mss - 1) / mss := by
  have hsplit := Nat.div_add_mod len mss
  have hmod := Nat.mod_lt len hmss
  unfold pieces
  rw [length_append, length_replicate]
  split_ifs with hzero
  · have hsum : len + mss - 1 = mss * (len / mss) + (mss - 1) := by omega
    have hrest : (mss - 1) / mss = 0 := Nat.div_eq_of_lt (by omega)
    rw [hsum, Nat.mul_add_div hmss, hrest]
    rfl
  · have hsum : len + mss - 1 = mss * (len / mss + 1) + (len % mss - 1) := by
      rw [Nat.mul_add]
      omega
    have hrest : (len % mss - 1) / mss = 0 := Nat.div_eq_of_lt (by omega)
    rw [hsum, Nat.mul_add_div hmss, hrest]
    rfl

theorem supplied_congr {used used' : List (ℕ × ℕ)} (h : ∀ u, u ∈ used ↔ u ∈ used')
    (ns : List ℕ) (answers : List ℤ) :
    Supplied ns answers used ↔ Supplied ns answers used' := by
  induction ns generalizing answers used used' with
  | nil => exact Iff.rfl
  | cons n ns ih =>
    refine and_congr ?_ (ih (fun u => ?_) _)
    · simp only [Spare, h]
    · rw [mem_cons, mem_cons, h]

theorem vacant_iff_spare (w : SlidingWindow) (p n : ℕ) : w.Vacant p n ↔ Spare w.blocks p n := by
  simp only [SlidingWindow.Vacant, Spare, SlidingWindow.blocks, List.forall_mem_map]

section

variable {s s' : Sock} {buf : List Byte} {len : BitVec 32} {fuel : ℕ} {ret : ℤ}

theorem ask_spec (s : Sock) : s.ask.1 = s.answers.headD 0 ∧ s.ask.2.answers = s.answers.tail ∧
    s.ask.2.sent = s.sent := by
  rw [ask_eq]
  exact ⟨rfl, rfl, rfl⟩

/-- The address that `kmalloc` answers with. -/
def Sock.answer (s : Sock) : ℕ := (s.answers.headD 0).toNat

theorem allocTcpSeg_of_vacant {k : BitVec 16} (hv : s.sendWindow.Vacant s.answer k.toNat) :
    allocTcpSeg s k = (some s.answer, s.ask.2) := by
  simp only [allocTcpSeg, (ask_keeps s).1, (ask_spec s).1]
  exact if_pos hv

/-- One round of `tcp_do_segment`. -/
theorem doSegment_round (hlen : len ≠ 0) : doSegment (fuel + 1) s buf len =
    if s.sendWindow.Vacant s.answer (segLen s len).toNat then
      doSegment fuel (afterRound s s.ask.2 buf len s.answer) (buf.drop (segLen s len).toNat)
        (len - (segLen s len).setWidth 32)
    else some (-ENOMEM, s.ask.2) := by
  have hw := (ask_keeps s).1
  rw [doSegment, if_neg hlen]
  by_cases hv : s.sendWindow.Vacant s.answer (segLen s len).toNat
  · rw [if_pos hv, allocTcpSeg_of_vacant hv]
    rfl
  · have halloc : allocTcpSeg s (segLen s len) = (none, s.ask.2) := by
      simp only [allocTcpSeg, hw, (ask_spec s).1]
      exact if_neg hv
    rw [if_neg hv, halloc]

/-- What a round leaves for the next one. -/
theorem afterRound_eq (s : Sock) (buf : List Byte) (len : BitVec 32) (addr : ℕ) :
    (afterRound s s.ask.2 buf len addr).mss = s.mss ∧
    (afterRound s s.ask.2 buf len addr).answers = s.answers.tail ∧
    (afterRound s s.ask.2 buf len addr).sendWindow.made =
      s.sendWindow.made ++ [nextSeg s buf len addr] ∧
    ∀ u, u ∈ (afterRound s s.ask.2 buf len addr).sendWindow.blocks ↔
      u ∈ (addr, (segLen s len).toNat) :: s.sendWindow.blocks := by
  obtain ⟨hw, hmss, _⟩ := ask_keeps s
  have hlive := live_enqueue s.ask.2.sendWindow (nextSeg s buf len addr)
  refine ⟨hmss, (ask_spec s).2.1, ?_, fun u => ?_⟩
  · rw [← hw]
    exact (enqueue_made _ _).1
  · have hperm := hlive.map fun t : TcpSeg => (t.addr, t.len.toNat)
    refine hperm.mem_iff.trans ?_
    rw [hw]
    exact Iff.rfl

theorem segLen_toNat (s : Sock) (len : BitVec 32) :
    (segLen s len).toNat = min s.mss.toNat len.toNat := by
  unfold segLen
  split_ifs with hge
  all_goals rw [ge_iff_le, le_def, toNat_setWidth_of_le (by decide)] at hge
  · omega
  · rw [toNat_setWidth]
    omega

theorem rest_toNat (s : Sock) (len : BitVec 32) : (len - (segLen s len).setWidth 32).toNat =
    len.toNat - min s.mss.toNat len.toNat := by
  rw [toNat_sub_of_le, toNat_setWidth_of_le (by decide), segLen_toNat]
  exact segLen_le s len

/-- The pieces of a call, and those of the rest after its first round. -/
theorem pieces_round (hmss : s.mss ≠ 0) (hlen : len ≠ 0) :
    pieces s.mss.toNat len.toNat = (segLen s len).toNat ::
      pieces s.mss.toNat (len - (segLen s len).setWidth 32).toNat := by
  rw [rest_toNat, segLen_toNat]
  exact pieces_eq_cons (toNat_pos_of_ne_zero hmss) (toNat_pos_of_ne_zero hlen)

/-- The supply for a call: memory for its first piece, and a supply for the rest. -/
theorem supplied_round (buf : List Byte) (hmss : s.mss ≠ 0) (hlen : len ≠ 0) :
    Supplied (pieces s.mss.toNat len.toNat) s.answers s.sendWindow.blocks ↔
      s.sendWindow.Vacant s.answer (segLen s len).toNat ∧
      Supplied (pieces (afterRound s s.ask.2 buf len s.answer).mss.toNat
          (len - (segLen s len).setWidth 32).toNat)
        (afterRound s s.ask.2 buf len s.answer).answers
        (afterRound s s.ask.2 buf len s.answer).sendWindow.blocks := by
  obtain ⟨hmss', hans, _, hblocks⟩ := afterRound_eq s buf len s.answer
  rw [pieces_round hmss hlen, vacant_iff_spare, hmss', hans, supplied_congr hblocks]
  exact Iff.rfl

/-- With memory for every piece the call makes all of them and returns 0. -/
theorem doSegment_of_supplied (buf : List Byte) (hmss : s.mss ≠ 0)
    (hsup : Supplied (pieces s.mss.toNat len.toNat) s.answers s.sendWindow.blocks) :
    ∃ s', (∀ fuel, (pieces s.mss.toNat len.toNat).length < fuel →
        doSegment fuel s buf len = some (0, s')) ∧
      s'.sendWindow.made.length =
        s.sendWindow.made.length + (pieces s.mss.toNat len.toNat).length := by
  induction hk : (pieces s.mss.toNat len.toNat).length generalizing s buf len with
  | zero =>
    have hlen : len = 0 := by
      by_contra hne
      rw [pieces_round hmss hne] at hk
      cases hk
    refine ⟨s, fun fuel hfuel => ?_, rfl⟩
    obtain ⟨k, rfl⟩ := Nat.exists_eq_add_of_lt hfuel
    rw [Nat.zero_add, doSegment, if_pos hlen]
  | succ k ih =>
    have hlen : len ≠ 0 := by
      intro h0
      rw [pieces_of_eq_zero h0] at hk
      cases hk
    obtain ⟨hv, hrest⟩ := (supplied_round buf hmss hlen).mp hsup
    obtain ⟨hmss', _, hmade, _⟩ := afterRound_eq s buf len s.answer
    rw [pieces_round hmss hlen, length_cons, Nat.add_right_cancel_iff] at hk
    obtain ⟨s', hrun, hlength⟩ := ih (buf.drop (segLen s len).toNat) (hmss'.trans_ne hmss)
      hrest (by rw [hmss']; exact hk)
    refine ⟨s', fun fuel hfuel => ?_, ?_⟩
    · obtain ⟨j, rfl⟩ := Nat.exists_eq_add_of_lt hfuel
      rw [doSegment_round hlen, if_pos hv]
      exact hrun _ (by omega)
    · rw [hlength, hmade, length_append, length_singleton]
      omega

/-- A call that returns 0 has got memory for every piece. -/
theorem supplied_of_doSegment (hmss : s.mss ≠ 0) (hrun : doSegment fuel s buf len = some (0, s')) :
    Supplied (pieces s.mss.toNat len.toNat) s.answers s.sendWindow.blocks := by
  induction fuel generalizing s buf len with
  | zero => cases hrun
  | succ fuel ih =>
    by_cases hlen : len = 0
    · rw [pieces_of_eq_zero hlen]
      trivial
    · rw [doSegment_round hlen] at hrun
      split_ifs at hrun with hv
      · have hmss' := (afterRound_eq s buf len s.answer).1
        exact (supplied_round buf hmss hlen).mpr ⟨hv, ih (hmss'.trans_ne hmss) hrun⟩
      · cases hrun

/-- A call returns 0 or `-ENOMEM`, and frees nothing. -/
theorem doSegment_ret (hrun : doSegment fuel s buf len = some (ret, s')) :
    (ret = 0 ∨ ret = -ENOMEM) ∧ s.sendWindow.live.length ≤ s'.sendWindow.live.length := by
  induction fuel generalizing s buf len with
  | zero => cases hrun
  | succ fuel ih =>
    by_cases hlen : len = 0
    · rw [doSegment, if_pos hlen, some.injEq, Prod.mk.injEq] at hrun
      rw [← hrun.1, ← hrun.2]
      exact ⟨Or.inl rfl, le_rfl⟩
    · rw [doSegment_round hlen] at hrun
      split_ifs at hrun with hv
      · obtain ⟨hret, hle⟩ := ih hrun
        refine ⟨hret, le_trans ?_ hle⟩
        show _ ≤ (s.ask.2.sendWindow.enqueue _).live.length
        rw [(live_enqueue _ _).length_eq, (ask_keeps s).1, length_cons]
        exact Nat.le_succ _
      · rw [some.injEq, Prod.mk.injEq] at hrun
        rw [← hrun.1, ← hrun.2, (ask_keeps s).1]
        exact ⟨Or.inr rfl, le_rfl⟩

/-- Nothing happens in a call for which there is no memory at all. -/
theorem allOrNothing_of_not_vacant (hlen : len ≠ 0)
    (hv : ¬ s.sendWindow.Vacant s.answer (segLen s len).toNat) : AllOrNothing s buf len := by
  obtain ⟨hw, _, hseq⟩ := ask_keeps s
  refine ⟨-ENOMEM, s.ask.2, fun fuel hfuel => ?_, ?_, fun _ => ?_⟩
  · obtain ⟨j, rfl⟩ := Nat.exists_eq_add_of_lt hfuel
    rw [doSegment_round hlen, if_neg hv]
  · rw [hw]
    exact Nat.le_add_right _ _
  · rw [hw]
    exact ⟨hseq, rfl, rfl, rfl⟩

/-- A call that has made a segment cannot undo it. -/
theorem supplied_of_allOrNothing (hlen : len ≠ 0)
    (hv : s.sendWindow.Vacant s.answer (segLen s len).toNat) (h : AllOrNothing s buf len) :
    s.mss ≠ 0 ∧ Supplied (pieces s.mss.toNat len.toNat) s.answers s.sendWindow.blocks := by
  obtain ⟨ret, s', hrun, _, hundo⟩ := h
  have hmss : s.mss ≠ 0 := by
    intro h0
    have hsegs : segments s len = 0 := by
      rw [segments, h0]
      exact Nat.div_zero _
    have hone := hrun 1 (by omega)
    rw [doSegment_round hlen, if_pos hv] at hone
    cases hone
  refine ⟨hmss, ?_⟩
  have hlast := hrun (segments s len + 1) (Nat.lt_succ_self _)
  rcases (doSegment_ret hlast).1 with rfl | rfl
  · exact supplied_of_doSegment hmss hlast
  · obtain ⟨_, hwait, hready, hack⟩ := hundo rfl
    rw [doSegment_round hlen, if_pos hv] at hlast
    have hle := (doSegment_ret hlast).2
    replace hle : (s.ask.2.sendWindow.enqueue (nextSeg s buf len s.answer)).live.length ≤
      s'.sendWindow.live.length := hle
    rw [(live_enqueue _ _).length_eq, (ask_keeps s).1, length_cons] at hle
    simp only [SlidingWindow.live, hwait, hready, hack] at hle
    omega

end

/-- **Calls that fail.**  A call of `tcp_do_segment` for `len` bytes ends after at most
`len / mss` rounds, rounded up, and leaves nothing behind if it returns `-ENOMEM`, if and only if
there is no memory for its first segment, or there is an `mss` and memory for all of them. -/
theorem send_all_or_nothing_iff (s : Sock) (buf : List Byte) (len : BitVec 32) (hlen : len ≠ 0) :
    AllOrNothing s buf len ↔ ¬ s.sendWindow.Vacant s.answer (segLen s len).toNat ∨
      s.mss ≠ 0 ∧ Supplied (pieces s.mss.toNat len.toNat) s.answers s.sendWindow.blocks := by
  by_cases hv : s.sendWindow.Vacant s.answer (segLen s len).toNat
  · refine ⟨fun h => Or.inr (supplied_of_allOrNothing hlen hv h), ?_⟩
    rintro (hno | ⟨hmss, hsup⟩)
    · exact absurd hv hno
    · obtain ⟨s', hrun, hmade⟩ := doSegment_of_supplied buf hmss hsup
      have hmss' := toNat_pos_of_ne_zero hmss
      rw [length_pieces hmss'] at hrun hmade
      exact ⟨0, s', hrun, hmade.le, fun h0 => absurd h0 (by decide)⟩
  · exact ⟨fun _ => Or.inl hv, fun _ => allOrNothing_of_not_vacant hlen hv⟩

/-- The socket that a peer gets who announces `mss`, or nothing, in its SYN. -/
def openedSock (mss : Option (BitVec 16)) : Sock :=
  (tcpReceive none (tcpTimerEntry (tcpReceive mss listeningSock (peerSegment 7 0 true false)).2)
    (peerSegment 8 0x1235 false true)).2

theorem send_all_or_nothing_iff_supplied :
    (openedSock (some 2)).status = .established ∧
    AllOrNothing { openedSock (some 2) with answers := [100, 200, 300] } [1, 2, 3, 4, 5] 5 :=
  ⟨by decide +kernel, (send_all_or_nothing_iff _ _ _ (by decide)).mpr
    (Or.inr ⟨by decide +kernel, by decide +kernel⟩)⟩

/-- Without an `mss` there is no number of rounds after which the loop has ended. -/
theorem doSegment_of_mss_zero {s : Sock} {p fuel : ℕ} (hmss : s.mss = 0) (hlen : len ≠ 0)
    (hv : s.sendWindow.Vacant p 0)
    (hans : s.answers = List.replicate fuel (p : ℤ)) : doSegment fuel s buf len = none := by
  induction fuel generalizing s buf with
  | zero => rfl
  | succ fuel ih =>
    have hzero : segLen s len = 0 := by
      apply eq_of_toNat_eq
      rw [segLen_toNat, hmss]
      exact Nat.zero_min _
    have haddr : s.answer = p := by
      rw [Sock.answer, hans]
      rfl
    obtain ⟨hmss', hans', _, hblocks⟩ := afterRound_eq s buf len p
    rw [doSegment_round hlen, haddr, hzero]
    refine (if_pos hv).trans ?_
    rw [show len - (0 : BitVec 16).setWidth 32 = len by simp]
    refine ih (hmss'.trans hmss) ?_ ?_
    · -- a segment without bytes takes no memory from the next one
      rw [vacant_iff_spare] at hv ⊢
      refine ⟨hv.1, hv.2.1, fun u hu => ?_⟩
      rcases mem_cons.mp ((hblocks u).mp hu) with rfl | hu
      · exact Or.inl (Nat.le_refl p)
      · exact hv.2.2 u hu
    · rw [hans', hans]
      rfl

/-- **Two calls that go wrong.**  A peer that announces no `mss` gets a socket on which the loop
goes on for as long as there is memory.  And of five bytes, in segments of at most two, the first
two are queued when the call returns `-ENOMEM`. -/
theorem send_not_all_or_nothing :
    ((openedSock none).status = .established ∧ (openedSock none).mss = 0 ∧
      ∀ fuel, doSegment fuel { openedSock none with answers := List.replicate fuel 100 } [1] 1 =
        none) ∧
    (openedSock (some 2)).status = .established ∧
      ∃ s', tcpSend { openedSock (some 2) with answers := [100, 0] } [1, 2, 3, 4, 5] 5 =
          some (-ENOMEM, s') ∧
        s'.sendSeq = (openedSock (some 2)).sendSeq + 2 ∧ s'.sendWindow.ready.length = 1 := by
  refine ⟨⟨by decide +kernel, by decide +kernel, ?_⟩, by decide +kernel, ?_⟩
  · intro fuel
    refine doSegment_of_mss_zero (p := 100) ?_ (by decide) ?_ rfl
    · show (openedSock none).mss = 0
      decide +kernel
    · show (openedSock none).sendWindow.Vacant 100 0
      decide +kernel
  · exact ⟨_, rfl, by decide +kernel, by decide +kernel⟩

/-! ## The order of transmission -/

/-- The segment in an outgoing packet. -/
def Out.seg? : Out → Option TcpSeg
  | .seg t => some t
  | .ack _ | .syn _ => none

/-- The segments that have been sent. -/
def Sock.sentSegs (s : Sock) : List TcpSeg := s.sent.filterMap Out.seg?

/-- What the second loop of `tcp_process_send_window` passes to `tcp_send_seg`; the last one may be
refused. -/
def handed : List TcpSeg → List ℤ → List TcpSeg
  | [], _ => []
  | seg :: rest, answers =>
    seg :: if answers.headD 0 < 0 then [] else handed rest answers.tail

/-- What an event passes to `tcp_send_seg`. -/
def SendEvent.handed (s : Sock) : SendEvent → List TcpSeg
  | send _ _ => []
  | process answers =>
    if s.flags.getLsbD 0 then []
    else Tcp.handed (fillReady s.sendWindow.wait s.sendWindow).ready answers
  | ack _ => []

/-- What a run passes to `tcp_send_seg`. -/
def handedIn : List SendEvent → Sock → List TcpSeg
  | [], _ => []
  | e :: es, s =>
    match e.apply s with
    | none => e.handed s
    | some r => e.handed s ++ handedIn es r.2

/-- The free part of the window. -/
def SlidingWindow.room (w : SlidingWindow) : ℕ := w.totSize.toNat - w.usedSize.toNat

/-- When `n` bytes are cut, no piece is put on `ready` behind one that has to wait: either nothing
waits and the short piece at the end does not fit where a full one did not, or no piece fits. -/
def SlidingWindow.Patient (w : SlidingWindow) (mss n : ℕ) : Prop :=
  w.wait = [] ∧ (n % mss = 0 ∨ n / mss ≤ w.room / mss ∨ w.room % mss < n % mss) ∨
    ∀ p ∈ pieces mss n, w.room < p

instance (w : SlidingWindow) (mss n : ℕ) : Decidable (w.Patient mss n) :=
  inferInstanceAs (Decidable (_ ∧ _ ∨ _))

/-- A call of `tcp_send` overtakes nothing. -/
def SendEvent.Patient (s : Sock) : SendEvent → Prop
  | send buf _ => buf = [] ∨ s.mss ≠ 0 ∧ s.sendWindow.Patient s.mss.toNat buf.length
  | process _ => True
  | ack _ => True

instance (s : Sock) (e : SendEvent) : Decidable (e.Patient s) :=
  match e with
  | .send _ _ => inferInstanceAs (Decidable (_ ∨ _ ∧ _))
  | .process _ => isTrue trivial
  | .ack _ => isTrue trivial

/-- Every step of the run meets that condition in the state before it. -/
def AllPatient : List SendEvent → Sock → Prop
  | [], _ => True
  | e :: es, s => e.Patient s ∧ ∀ r ∈ e.apply s, AllPatient es r.2

instance instDecidableAllPatient : (es : List SendEvent) → (s : Sock) → Decidable (AllPatient es s)
  | [], _ => isTrue trivial
  | e :: es, s =>
    match h : e.apply s with
    | none => decidable_of_iff (e.Patient s) ⟨fun hp => ⟨hp, fun _ hr => nomatch h.symm.trans hr⟩,
        And.left⟩
    | some r =>
      have := instDecidableAllPatient es r.2
      decidable_of_iff (e.Patient s ∧ AllPatient es r.2) (and_congr_right fun _ =>
        ⟨fun hp _ hr => some.inj (h.symm.trans hr) ▸ hp, fun hp => hp r h⟩)

/-- The segments are in the order in which they were made: first those that have been sent, then
those on `ready`, then those on `wait`.  What has been passed to `tcp_send_seg` so far, `l`, is in
this order as well, and reaches up to the first one on `ready`. -/
structure Orderly (s : Sock) (l : List TcpSeg) : Prop where
  lists : s.sentSegs ++ s.sendWindow.ready ++ s.sendWindow.wait = s.sendWindow.made
  handed : l.Pairwise fun t u => t = u ∨ [t, u].Sublist s.sendWindow.made
  seen : ∀ t ∈ l, t ∈ s.sentSegs ++ s.sendWindow.ready.take 1
  sizes : ∀ t ∈ s.sendWindow.made, t.len ≠ 0

section

variable {s₀ s s' : Sock} {l : List TcpSeg} {w w' : SlidingWindow} {mss n : ℕ}

/-- A piece that fits leaves the others as they are. -/
theorem SlidingWindow.Patient.fits (h : w.Patient mss n) (hmss : 0 < mss) (hn : 0 < n)
    (hfits : min mss n ≤ w.room) (hwait : w'.wait = w.wait) (hroom : w'.room = w.room - min mss n) :
    w.wait = [] ∧ w'.Patient mss (n - min mss n) := by
  rcases h with ⟨hnil, hshort⟩ | hnone
  · refine ⟨hnil, Or.inl ⟨hwait.trans hnil, ?_⟩⟩
    rw [hroom]
    rcases Nat.lt_or_ge n mss with hlt | hge
    · left
      rw [Nat.min_eq_right hlt.le, Nat.sub_self, Nat.zero_mod]
    · rw [Nat.min_eq_left hge] at hfits ⊢
      rw [Nat.mod_eq_sub_mod hge, Nat.div_eq_sub_div hmss hge, Nat.mod_eq_sub_mod hfits,
        Nat.div_eq_sub_div hmss hfits] at hshort
      omega
  · have hfirst := hnone (min mss n) (by rw [pieces_eq_cons hmss hn]; exact mem_cons_self)
    omega

/-- Behind a piece that does not fit, none fits. -/
theorem SlidingWindow.Patient.waits (h : w.Patient mss n) (hmss : 0 < mss) (hn : 0 < n)
    (hfits : ¬ min mss n ≤ w.room) (hroom : w'.room = w.room) :
    w'.Patient mss (n - min mss n) := by
  right
  intro p hp
  rw [hroom]
  rcases h with ⟨_, hshort⟩ | hnone
  · rcases Nat.lt_or_ge n mss with hlt | hge
    · rw [Nat.min_eq_right hlt.le, Nat.sub_self] at hp
      simp [pieces] at hp
    · rw [Nat.min_eq_left hge] at hfits hp
      unfold pieces at hp
      rw [mem_append, mem_replicate] at hp
      rcases hp with hp | hp
      · omega
      · -- the short piece: the room is less than a full one
        rw [← Nat.mod_eq_sub_mod hge] at hp
        have hroom' : w.room < mss := by omega
        have hdiv : 0 < n / mss := Nat.div_pos hge hmss
        rw [Nat.div_eq_of_lt hroom', Nat.mod_eq_of_lt hroom'] at hshort
        split_ifs at hp with hzero
        · cases hp
        · rw [mem_singleton] at hp
          omega
  · exact hnone p (by rw [pieces_eq_cons hmss hn]; exact mem_cons_of_mem _ hp)

/-- A new segment goes to the end of the list it belongs to. -/
theorem Orderly.enqueue {seg : TcpSeg} (h : Orderly s l) (hlen : seg.len ≠ 0)
    (hwait : s.sendWindow.usedSize + seg.len.setWidth 32 ≤ s.sendWindow.totSize →
      s.sendWindow.wait = []) (hsent : s'.sent = s.sent)
    (hw : s'.sendWindow = s.sendWindow.enqueue seg) : Orderly s' l := by
  have hsegs : s'.sentSegs = s.sentSegs := by
    rw [Sock.sentSegs, hsent]
    rfl
  have hmade := (enqueue_made s.sendWindow seg).1
  have hready : s.sendWindow.ready <+: (s.sendWindow.enqueue seg).ready := by
    unfold SlidingWindow.enqueue
    split_ifs
    · exact prefix_append _ _
    · exact prefix_rfl
  refine ⟨?_, ?_, fun t ht => ?_, fun t ht => ?_⟩
  · rw [hsegs, hw, hmade, ← h.lists]
    unfold SlidingWindow.enqueue
    split_ifs with hfits
    · rw [hwait hfits]
      simp
    · simp
  · rw [hw, hmade]
    refine h.handed.imp fun htu => htu.imp_right fun hsub => ?_
    exact hsub.trans (sublist_append_left _ _)
  · rw [hsegs, hw]
    exact ((hready.take 1).sublist.append_left _).subset (h.seen t ht)
  · rw [hw, hmade, mem_append, mem_singleton] at ht
    rcases ht with ht | rfl
    · exact h.sizes t ht
    · exact hlen

/-- The admission test of `tcp_do_segment` in numbers.  The new segment is in memory beside those
in flight, so that the sum does not wrap. -/
theorem Ledger.fits_iff {s₁ : Sock} {addr : ℕ} (h : Ledger s₀ s)
    (hround : Ledger s₀ (Tcp.afterRound s s₁ buf len addr)) (hw : s₁.sendWindow = s.sendWindow)
    (hlen : segLen s len ≠ 0) :
    s.sendWindow.usedSize + (segLen s len).setWidth 32 ≤ s.sendWindow.totSize ↔
      (segLen s len).toNat ≤ s.sendWindow.room := by
  have hlt := hround.volume_live_lt
  replace hlt : volume (s₁.sendWindow.enqueue (nextSeg s buf len addr)).live < 2 ^ 32 := hlt
  have hvol : volume (nextSeg s buf len addr :: s.sendWindow.live) =
      (segLen s len).toNat + volume s.sendWindow.live := volume_append [nextSeg s buf len addr] _
  rw [volume_perm (live_enqueue _ _), hw, hvol, s.sendWindow.volume_live, ← h.used_toNat] at hlt
  have hpos := toNat_pos_of_ne_zero hlen
  rw [le_def, toNat_add, toNat_setWidth_of_le (by decide), Nat.mod_eq_of_lt (by omega),
    SlidingWindow.room]
  omega

/-- The room after a segment of `len` bytes has been put on one of the lists. -/
theorem room_enqueue {seg : TcpSeg}
    (hsum : w.usedSize + seg.len.setWidth 32 ≤ w.totSize ↔ seg.len.toNat ≤ w.room) :
    (w.enqueue seg).room =
      if seg.len.toNat ≤ w.room then w.room - seg.len.toNat else w.room := by
  unfold SlidingWindow.enqueue
  by_cases hfits : w.usedSize + seg.len.setWidth 32 ≤ w.totSize
  · have hle := hsum.mp hfits
    rw [if_pos hfits, if_pos hle]
    unfold SlidingWindow.room at hle ⊢
    show w.totSize.toNat - (w.usedSize + seg.len.setWidth 32).toNat = _
    rw [toNat_add, toNat_setWidth_of_le (by decide), Nat.mod_eq_of_lt (by omega)]
    omega
  · rw [if_neg hfits, if_neg (fun hle => hfits (hsum.mpr hle))]
    rfl

/-- A patient cut goes on patiently: what is put on `ready` finds nothing waiting. -/
theorem SlidingWindow.Patient.enqueue (seg : TcpSeg) (h : w.Patient mss n) (hmss : 0 < mss)
    (hn : 0 < n) (hlen : seg.len.toNat = min mss n)
    (hsum : w.usedSize + seg.len.setWidth 32 ≤ w.totSize ↔ seg.len.toNat ≤ w.room) :
    (w.usedSize + seg.len.setWidth 32 ≤ w.totSize → w.wait = []) ∧
      (w.enqueue seg).Patient mss (n - min mss n) := by
  have hroom := room_enqueue hsum
  rw [hlen] at hroom hsum
  by_cases hle : min mss n ≤ w.room
  · have hwait : (w.enqueue seg).wait = w.wait := by
      rw [SlidingWindow.enqueue, if_pos (hsum.mpr hle)]
    rw [if_pos hle] at hroom
    obtain ⟨hnil, hnext⟩ := h.fits hmss hn hle hwait hroom
    exact ⟨fun _ => hnil, hnext⟩
  · rw [if_neg hle] at hroom
    exact ⟨fun hfits => absurd (hsum.mp hfits) hle, h.waits hmss hn hle hroom⟩

section

variable (h : Orderly s l)

include h

/-- The order depends on four lists only. -/
theorem Orderly.congr (hsent : s'.sent = s.sent)
    (hready : s'.sendWindow.ready = s.sendWindow.ready)
    (hwait : s'.sendWindow.wait = s.sendWindow.wait)
    (hmade : s'.sendWindow.made = s.sendWindow.made) : Orderly s' l := by
  have hsegs : s'.sentSegs = s.sentSegs := by
    rw [Sock.sentSegs, hsent]
    rfl
  refine ⟨?_, ?_, ?_, ?_⟩
  · rw [hsegs, hready, hwait, hmade]
    exact h.lists
  · rw [hmade]
    exact h.handed
  · rw [hsegs, hready]
    exact h.seen
  · rw [hmade]
    exact h.sizes

/-- **The loop of `tcp_do_segment`** keeps the order if the bytes are cut patiently. -/
theorem Orderly.doSegment {fuel : ℕ} {ret : ℤ} (hled : Ledger s₀ s)
    (hmss : s.mss ≠ 0) (hpat : s.sendWindow.Patient s.mss.toNat len.toNat)
    (hbuf : buf.length = len.toNat)
    (heq : Tcp.doSegment fuel s buf len = some (ret, s')) : Orderly s' l := by
  induction fuel generalizing s buf len with
  | zero => cases heq
  | succ fuel ih =>
    by_cases hlen : len = 0
    · rw [Tcp.doSegment, if_pos hlen, some.injEq, Prod.mk.injEq] at heq
      rw [← heq.2]
      exact h
    rw [doSegment_round hlen] at heq
    obtain ⟨hw, hmss', _⟩ := ask_keeps s
    have hsent := (ask_spec s).2.2
    split_ifs at heq with hv
    · have halloc := allocTcpSeg_of_vacant hv
      have hround : Ledger s₀ (Tcp.afterRound s s.ask.2 buf len s.answer) :=
        hled.afterRound (by rw [halloc]) (by rw [halloc]) hbuf hlen
      have hne := segLen_ne_zero hlen hmss
      have hseg := segLen_toNat s len
      have hpos : (segLen s len).toNat ≠ 0 := fun h0 => hne (eq_of_toNat_eq h0)
      have hwin : (Tcp.afterRound s s.ask.2 buf len s.answer).sendWindow =
          s.sendWindow.enqueue (nextSeg s buf len s.answer) := by
        rw [← hw]
        rfl
      obtain ⟨hnil, hnext⟩ := hpat.enqueue (nextSeg s buf len s.answer) (by omega)
        (by omega) hseg (hled.fits_iff hround hw hne)
      rw [← rest_toNat, ← hwin] at hnext
      have hkeep : (Tcp.afterRound s s.ask.2 buf len s.answer).mss = s.mss := hmss'
      rw [← hkeep] at hnext hmss
      have horder : Orderly (Tcp.afterRound s s.ask.2 buf len s.answer) l :=
        h.enqueue hne hnil hsent hwin
      exact ih horder hround hmss hnext (length_rest hbuf) heq
    · rw [some.injEq, Prod.mk.injEq] at heq
      rw [← heq.2]
      exact h.congr hsent (by rw [hw]) (by rw [hw]) (by rw [hw])

omit h in
/-- The second loop of `tcp_process_send_window`: what is sent, what stays, and what was passed to
`tcp_send_seg`, which is one segment more if it was refused. -/
theorem sendReady_handed (segs : List TcpSeg) (s : Sock) : ∃ l₁ l₂ k, segs = l₁ ++ l₂ ∧ k ≤ 1 ∧
    (sendReady segs s).sentSegs = s.sentSegs ++ l₁ ∧
    (sendReady segs s).sendWindow = { s.sendWindow with
      ready := l₂, waitAck := s.sendWindow.waitAck ++ l₁ } ∧
    handed segs s.answers = l₁ ++ l₂.take k := by
  induction segs generalizing s with
  | nil =>
    refine ⟨[], [], 0, rfl, Nat.zero_le 1, ?_, ?_, rfl⟩
    · simp [sendReady, Sock.sentSegs]
    · simp [sendReady]
  | cons seg rest ih =>
    obtain ⟨hw, _, _⟩ := ask_keeps s
    obtain ⟨hret, hans, hsent⟩ := ask_spec s
    unfold sendReady handed
    simp only [hret]
    split_ifs with hfail
    · refine ⟨[], seg :: rest, 1, rfl, le_rfl, ?_, ?_, rfl⟩
      · simp [Sock.sentSegs, hsent]
      · simp [hw]
    · obtain ⟨l₁, l₂, k, hl, hk, hsegs, hwin, hhanded⟩ := ih { s.ask.2 with
        sendWindow := { s.ask.2.sendWindow with
          waitAck := s.ask.2.sendWindow.waitAck ++ [seg] }
        sent := s.ask.2.sent ++ [.seg seg] }
      refine ⟨seg :: l₁, l₂, k, by rw [hl, List.cons_append], hk, ?_, ?_, ?_⟩
      · rw [hsegs]
        simp [Sock.sentSegs, hsent, Out.seg?]
      · rw [hwin, hw]
        simp
      · rw [List.cons_append, ← hhanded, hans]

/-- Moving segments from `wait` to `ready` keeps the order. -/
theorem Orderly.fillReady :
    Orderly { s with sendWindow := fillReady s.sendWindow.wait s.sendWindow } l := by
  obtain ⟨l1, l2, moves, hl, heq⟩ := fillReady_eq s.sendWindow.wait s.sendWindow
  rw [heq]
  refine ⟨?_, h.handed, fun t ht => ?_, h.sizes⟩
  · show s.sentSegs ++ (s.sendWindow.ready ++ l1) ++ l2 = s.sendWindow.made
    rw [← h.lists, hl]
    simp
  · show t ∈ s.sentSegs ++ (s.sendWindow.ready ++ l1).take 1
    exact (((prefix_append _ l1).take 1).sublist.append_left _).subset (h.seen t ht)

/-- Of what has been seen and what is on `ready`, the former comes first. -/
theorem Orderly.seen_before {u : TcpSeg} (ht : t ∈ l)
    (hu : u ∈ s.sendWindow.ready) : t = u ∨ [t, u].Sublist s.sendWindow.made := by
  have hsub : (s.sentSegs ++ s.sendWindow.ready).Sublist s.sendWindow.made := by
    rw [← h.lists]
    exact sublist_append_left _ _
  rcases mem_append.mp (h.seen t ht) with hsent | hhead
  · refine Or.inr (List.Sublist.trans ?_ hsub)
    exact (singleton_sublist.mpr hsent).append (singleton_sublist.mpr hu)
  · cases hready : s.sendWindow.ready with
    | nil =>
      rw [hready] at hhead
      cases hhead
    | cons r rest =>
      rw [hready] at hhead hu hsub
      rw [take_succ_cons, take_zero, mem_singleton] at hhead
      rcases mem_cons.mp hu with hur | hur
      · exact Or.inl (hhead.trans hur.symm)
      · right
        have hpair : [r, u].Sublist (r :: rest) := (singleton_sublist.mpr hur).cons_cons r
        rw [hhead]
        exact (hpair.trans (sublist_append_right _ _)).trans hsub

/-- Sending from `ready` passes the segments on in their order. -/
theorem Orderly.sendReady : Orderly (sendReady s.sendWindow.ready s)
    (l ++ Tcp.handed s.sendWindow.ready s.answers) := by
  obtain ⟨l1, l2, k, hl, hk, hsegs, hwin, hhanded⟩ := sendReady_handed s.sendWindow.ready s
  have hlists := h.lists
  have hnew : (l1 ++ l2.take k).Sublist s.sendWindow.ready := by
    rw [hl]
    exact List.Sublist.append_left (take_sublist k l2) l1
  rw [hhanded]
  refine ⟨?_, ?_, fun t ht => ?_, ?_⟩
  · rw [hsegs, hwin]
    show s.sentSegs ++ l1 ++ l2 ++ s.sendWindow.wait = s.sendWindow.made
    rw [← hlists, hl]
    simp
  · rw [hwin]
    refine pairwise_append.mpr ⟨h.handed, ?_, fun t ht u hu => ?_⟩
    · rw [pairwise_iff_forall_sublist]
      intro t u htu
      right
      show [t, u].Sublist s.sendWindow.made
      rw [← hlists, List.append_assoc]
      exact ((htu.trans hnew).trans (sublist_append_left _ _)).trans
        (sublist_append_right _ _)
    · exact h.seen_before ht (hnew.subset hu)
  · rw [hsegs, hwin]
    show t ∈ s.sentSegs ++ l1 ++ l2.take 1
    have hfront : ∀ u ∈ s.sendWindow.ready.take 1, u ∈ l1 ++ l2.take 1 := by
      intro u hu
      rw [hl] at hu
      cases l1 with
      | nil => exact hu
      | cons r rest =>
        rw [List.cons_append, take_succ_cons, take_zero, mem_singleton] at hu
        rw [hu]
        exact mem_cons_self
    rw [List.append_assoc]
    rcases mem_append.mp ht with ht | ht
    · rcases mem_append.mp (h.seen t ht) with hmem | hmem
      · exact mem_append_left _ hmem
      · exact mem_append_right _ (hfront t hmem)
    · refine mem_append_right _ ?_
      rcases mem_append.mp ht with ht | ht
      · exact mem_append_left _ ht
      · exact mem_append_right _ ((take_subset_take_left l2 hk) ht)
  · rw [hwin]
    exact h.sizes

omit h in
theorem tcpAckHandler_sent (s : Sock) (skb : SkBuff) : (tcpAckHandler s skb).sent = s.sent := by
  obtain ⟨_, _, _, heq, _⟩ := tcpAckHandler_writes s skb
  rw [heq]

/-- **Step.**  An event of a patient run keeps the order. -/
theorem Orderly.apply {e : SendEvent} {ret : ℤ} (hled : Ledger s₀ s)
    (hfits : e.Fits) (hpat : e.Patient s) (heq : e.apply s = some (ret, s')) :
    Orderly s' (l ++ e.handed s) := by
  cases e with
  | send buf answers =>
    have hbuf := length_of_fits hfits
    have hs : Orderly { s with answers := answers } l := h.congr rfl rfl rfl rfl
    have hledger : Ledger s₀ { s with answers := answers } := hled.keeps (.of_eq rfl rfl rfl)
    simp only [SendEvent.apply, tcpSend] at heq
    rw [SendEvent.handed, append_nil]
    split_ifs at heq with hlen
    · rw [some.injEq, Prod.mk.injEq] at heq
      rw [← heq.2]
      exact hs
    · rcases hpat with hnil | ⟨hmss, hpat⟩
      · rw [hnil] at hlen
        exact absurd rfl hlen
      · rw [hbuf] at hpat
        exact hs.doSegment hledger hmss hpat hbuf heq
  | process answers =>
    rw [SendEvent.apply, some.injEq, Prod.mk.injEq] at heq
    have hs : Orderly { s with answers := answers } l := h.congr rfl rfl rfl rfl
    have hhanded : (SendEvent.process answers).handed s = if s.flags.getLsbD 0 then []
      else Tcp.handed (Tcp.fillReady s.sendWindow.wait s.sendWindow).ready answers := rfl
    rw [← heq.2, hhanded]
    unfold tcpProcessSendWindow
    by_cases hflag : s.flags.getLsbD 0
    · rw [if_pos hflag, if_pos hflag, append_nil]
      exact hs
    · rw [if_neg hflag, if_neg hflag]
      exact hs.fillReady.sendReady
  | ack skb =>
    rw [SendEvent.apply, some.injEq, Prod.mk.injEq] at heq
    obtain ⟨_, hack⟩ := ackSegments_eq skb.ackSeq skb.window s.sendWindow.waitAck [] s.sendWindow
      rfl (by simp)
    rw [← heq.2, SendEvent.handed, append_nil]
    refine h.congr (tcpAckHandler_sent s skb) ?_ ?_ ?_ <;> rw [tcpAckHandler_sendWindow, hack]

/-- **Run.** -/
theorem Orderly.runSends {es : List SendEvent} (hled : Ledger s₀ s)
    (hfits : ∀ e ∈ es, e.Fits) (hpat : AllPatient es s) (hrun : Tcp.runSends es s = some s') :
    Orderly s' (l ++ handedIn es s) ∧ Ledger s₀ s' := by
  induction es generalizing s l with
  | nil =>
    rw [← some.inj hrun, handedIn, append_nil]
    exact ⟨h, hled⟩
  | cons e es ih =>
    obtain ⟨r, hr, hrest⟩ := bind_eq_some_iff.mp hrun
    have he := hfits e mem_cons_self
    have hnext := ih (h.apply hled he hpat.1 hr) (hled.apply he hr).1
      (fun e he => hfits e (mem_cons_of_mem _ he)) (hpat.2 r hr) hrest
    rw [handedIn, hr, ← List.append_assoc]
    exact hnext

end

/-- Segments in a row have increasing sequence numbers, as long as these do not wrap. -/
theorem consecutive_increasing {seq stop : BitVec 32} {l : List TcpSeg} (h : Consecutive seq l stop)
    (hsizes : ∀ t ∈ l, t.len ≠ 0) (hwrap : seq.toNat + volume l < 2 ^ 32) :
    (∀ t ∈ l, seq.toNat ≤ t.sendSeq.toNat) ∧
      l.Pairwise fun t u => t.sendSeq.toNat < u.sendSeq.toNat := by
  induction l generalizing seq with
  | nil => exact ⟨fun t ht => absurd ht not_mem_nil, List.Pairwise.nil⟩
  | cons t l ih =>
    obtain ⟨hseq, _, hrest⟩ := h
    have hvol : volume (t :: l) = t.len.toNat + volume l := volume_append [t] l
    have hpos : t.len.toNat ≠ 0 := fun h0 =>
      hsizes t mem_cons_self (eq_of_toNat_eq h0)
    have hnext : (seq + t.len.setWidth 32).toNat = seq.toNat + t.len.toNat := by
      rw [toNat_add, toNat_setWidth]
      omega
    obtain ⟨hge, hpair⟩ := ih hrest (fun u hu => hsizes u (mem_cons_of_mem _ hu))
      (by omega)
    refine ⟨fun u hu => ?_, pairwise_cons.mpr ⟨fun u hu => ?_, hpair⟩⟩
    · rcases mem_cons.mp hu with rfl | hu
      · rw [hseq]
      · have := hge u hu
        omega
    · have := hge u hu
      rw [hseq]
      omega

end

/-- **First transmissions are in order.**  In every run on a connected socket whose sequence
numbers do not wrap, and in which each call of `tcp_send` is patient: no segment is sent or on
`ready` while an earlier one is on `wait`, and each segment passed to `tcp_send_seg` is the one
passed before or one with a larger sequence number. -/
theorem sent_in_order_of_patient (s₀ s : Sock) (es : List SendEvent) (h₀ : Opened s₀)
    (hsent : s₀.sentSegs = []) (hfits : ∀ e ∈ es, e.Fits) (hrun : runSends es s₀ = some s)
    (hpat : AllPatient es s₀) (hwrap : s₀.sendSeq.toNat + volume s.sendWindow.made < 2 ^ 32) :
    s.sentSegs ++ s.sendWindow.ready ++ s.sendWindow.wait = s.sendWindow.made ∧
      (s.sendWindow.made.Pairwise fun t u => t.sendSeq.toNat < u.sendSeq.toNat) ∧
      (handedIn es s₀).Pairwise fun t u => t = u ∨ t.sendSeq.toNat < u.sendSeq.toNat := by
  obtain ⟨hwait, hready, _⟩ := h₀.lists
  have hstart : Orderly s₀ [] := by
    refine ⟨?_, List.Pairwise.nil, fun t ht => absurd ht not_mem_nil, ?_⟩
    · rw [hsent, hwait, hready, h₀.ghosts.1]
      rfl
    · simp [h₀.ghosts.1]
  obtain ⟨horder, hled⟩ := hstart.runSends h₀.ledger hfits hpat hrun
  have hincr := (consecutive_increasing hled.chain horder.sizes hwrap).2
  refine ⟨horder.lists, hincr, horder.handed.imp fun htu => htu.imp_right fun hsub => ?_⟩
  exact pairwise_iff_forall_sublist.mp hincr hsub

/-- Four bytes, of which two have to wait, and one byte after their acknowledgement. -/
def patientRun : List SendEvent :=
  [.send [1, 2, 3, 4] [100, 200], .process [-1], .process [0], .ack (ackOf 2 3), .process [0],
    .ack (ackOf 4 3), .send [5] [100], .process [0]]

theorem sent_in_order_of_patient_patientRun : ∃ s, runSends patientRun narrowSock = some s ∧
    s.sentSegs ++ s.sendWindow.ready ++ s.sendWindow.wait = s.sendWindow.made ∧
    s.sentSegs.map TcpSeg.data = [[1, 2], [3, 4], [5]] ∧
    (handedIn patientRun narrowSock).map TcpSeg.data = [[1, 2], [1, 2], [3, 4], [5]] ∧
    (handedIn patientRun narrowSock).Pairwise fun t u =>
      t = u ∨ t.sendSeq.toNat < u.sendSeq.toNat := by
  obtain ⟨s, hs⟩ : ∃ s, runSends patientRun narrowSock = some s :=
    isSome_iff_exists.mp (by decide +kernel)
  have hmade : (runSends patientRun narrowSock).map (fun s => volume s.sendWindow.made) =
      some 5 := by decide +kernel
  have hdata : (runSends patientRun narrowSock).map (fun s => s.sentSegs.map TcpSeg.data) =
      some [[1, 2], [3, 4], [5]] := by decide +kernel
  rw [hs, map_some, some.injEq] at hmade hdata
  obtain ⟨hlists, _, hpair⟩ := sent_in_order_of_patient narrowSock s patientRun opened_narrowSock
    rfl (by decide) hs (by decide +kernel) (by rw [hmade]; decide)
  exact ⟨s, hs, hlists, hdata, by decide +kernel, hpair⟩

/-- **A segment that overtakes.**  Five bytes in segments of at most two, with a window of three:
the last byte is sent before the two in the middle. -/
theorem overtaking : Opened narrowSock ∧ narrowSock.sentSegs = [] ∧
    ∃ s, runSends [.send [1, 2, 3, 4, 5] [100, 200, 300], .process [0, 0]] narrowSock = some s ∧
      s.sentSegs.map TcpSeg.data = [[1, 2], [5]] ∧ s.sendWindow.wait.map TcpSeg.data = [[3, 4]] ∧
      s.sentSegs.map TcpSeg.sendSeq = [0, 4] ∧ s.sendWindow.wait.map TcpSeg.sendSeq = [2] :=
  ⟨opened_narrowSock, rfl, _, rfl, by decide +kernel, by decide +kernel, by decide +kernel,
    by decide +kernel⟩

end Tcp

end Yap
