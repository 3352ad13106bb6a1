/-
# TCP acknowledgements (`tcp_seg_sort`, `tcp_received_data_handler` in `net/inet/tcp.c`)

A segment that is sorted in is acknowledged from its own place on: as long as the queue goes on
without a gap, `ack_seq` moves to the end of the next segment.  This always reaches the end of what
has been received without a gap (`ackSeq_after_arrivals`), for a stream that does not wrap.

A segment that is not sorted in gets no answer, and that is not only what is out of the window: a
retransmission of data that has been acknowledged, or of data in the queue, is freed silently.
`answered_iff` says which segments are answered.

`made` counts the acknowledgements a socket has made so far, whether they are sent or still wait in
the queue of delayed ones.  A socket that the timer frees on the way is marked by `freed`; what
holds of its fields then is of no importance.
-/
import Yap.TcpStream

namespace Yap

namespace Tcp

open List
open BitVec (toNat_ofNat toNat_add eq_of_toNat_eq lt_def)

/-- The acknowledgement in an outgoing packet. -/
def Out.ack? : Out → Option Ack
  | .ack a => some a
  | .syn _ | .seg _ => none

/-- The acknowledgements that have been sent, and those that wait. -/
def Sock.made (s : Sock) : List Ack := s.sent.filterMap Out.ack? ++ s.ackQueue

/-- All the buffers that the acknowledging loop asks for are there, when it runs over `ts` with the
results `answers`; `ack_seq` is the value at its start. -/
def AllocsOk : List SkBuff → List ℤ → BitVec 32 → Prop
  | [], _, _ => True
  | t :: ts, answers, ackSeq =>
    0 ≤ answers.headD 0 ∧ (ackSeq = t.seq → AllocsOk ts answers.tail (tcpGetAckseq t))

/-- Where the acknowledging loop leaves `ack_seq`. -/
def walk : List SkBuff → BitVec 32 → BitVec 32
  | [], ackSeq => ackSeq
  | t :: ts, ackSeq => if ackSeq ≠ t.seq then ackSeq else walk ts (tcpGetAckseq t)

/-! ## What leaves the received data and the acknowledgements alone -/

/-- The receive queue with its length and `ack_seq` are the same, and no acknowledgement is made
or lost. -/
structure Steady (s s' : Sock) : Prop where
  recvData : s'.recvData = s.recvData
  recvDataLen : s'.recvDataLen = s.recvDataLen
  ackSeq : s'.ackSeq = s.ackSeq
  made : ∀ a, s'.made.count a = s.made.count a

namespace Steady

theorem refl (s : Sock) : Steady s s := ⟨rfl, rfl, rfl, fun _ => rfl⟩

theorem trans {s s' s'' : Sock} (h : Steady s s') (h' : Steady s' s'') : Steady s s'' :=
  ⟨h'.recvData.trans h.recvData, h'.recvDataLen.trans h.recvDataLen, h'.ackSeq.trans h.ackSeq,
    fun a => (h'.made a).trans (h.made a)⟩

theorem of_eq {s s' : Sock} (hdata : s'.recvData = s.recvData)
    (hlen : s'.recvDataLen = s.recvDataLen) (hack : s'.ackSeq = s.ackSeq)
    (hsent : s'.sent = s.sent) (hqueue : s'.ackQueue = s.ackQueue) : Steady s s' :=
  ⟨hdata, hlen, hack, fun a => by rw [Sock.made, Sock.made, hsent, hqueue]⟩

end Steady

section

variable (s : Sock)

theorem steady_ask : Steady s s.ask.2 := by
  rw [ask_eq]
  exact .of_eq rfl rfl rfl rfl rfl

theorem steady_enterCritical : Steady s s.enterCritical :=
  .of_eq rfl rfl rfl rfl rfl

theorem steady_exitCritical : Steady s s.exitCritical := .of_eq rfl rfl rfl rfl rfl

theorem steady_modTimer (e : BitVec 32) : Steady s (s.modTimer e).2 := by
  unfold Sock.modTimer
  split <;> exact .of_eq rfl rfl rfl rfl rfl

theorem steady_tcpSelectWindow : Steady s (tcpSelectWindow s) := by
  unfold tcpSelectWindow
  split_ifs <;> exact .of_eq rfl rfl rfl rfl rfl

/-- A packet that is no acknowledgement is sent. -/
theorem steady_send {o : Out} (ho : o.ack? = none) :
    Steady s { s with sent := s.sent ++ [o] } := by
  refine ⟨rfl, rfl, rfl, fun a => ?_⟩
  simp [Sock.made, ho]

theorem steady_sendReady (segs : List TcpSeg) (s : Sock) : Steady s (sendReady segs s) := by
  induction segs generalizing s with
  | nil => exact .of_eq rfl rfl rfl rfl rfl
  | cons seg segs ih =>
    unfold sendReady
    dsimp only
    split_ifs
    · exact (steady_ask s).trans (.of_eq rfl rfl rfl rfl rfl)
    · refine (steady_ask s).trans (Steady.trans ?_ (ih _))
      refine (steady_send _ (o := .seg seg) rfl).trans ?_
      exact .of_eq rfl rfl rfl rfl rfl

theorem steady_tcpProcessSendWindow : Steady s (tcpProcessSendWindow s) := by
  unfold tcpProcessSendWindow
  split_ifs
  · exact .refl s
  · refine Steady.trans ?_ (steady_sendReady _ _)
    exact .of_eq rfl rfl rfl rfl rfl

theorem steady_tcpSendSyn : Steady s (tcpSendSyn s).2 := by
  unfold tcpSendSyn
  dsimp only
  split_ifs
  · exact steady_ask s
  · refine (steady_ask s).trans (Steady.trans ?_ (steady_send _ rfl))
    refine Steady.trans ?_ (steady_ask _)
    refine Steady.trans ?_ (steady_tcpSelectWindow _)
    exact .of_eq rfl rfl rfl rfl rfl

/-- A delayed acknowledgement moves from the queue to what has been sent. -/
theorem steady_sendDelayedAck : Steady s (sendDelayedAck s) := by
  unfold sendDelayedAck
  cases hqueue : s.ackQueue with
  | nil => exact .refl s
  | cons a as =>
    simp only [ask_eq]
    refine ⟨rfl, rfl, rfl, fun b => ?_⟩
    simp only [Sock.made, hqueue, filterMap_append, filterMap_cons, filterMap_nil,
      Out.ack?, List.append_assoc, singleton_append]

theorem steady_timerSwitch : Steady s (timerSwitch s) := by
  unfold timerSwitch
  split
  · -- `SYN_RCVD`
    refine Steady.trans ?_ (steady_modTimer _ _)
    split_ifs
    · exact .of_eq rfl rfl rfl rfl rfl
    · exact .refl s
  · -- `SYN_SENT`
    have hretry : Steady s { s with
        retries := s.retries - 1, timeout := s.ticks.setWidth 16 } := .of_eq rfl rfl rfl rfl rfl
    have hsyn := hretry.trans (steady_tcpSendSyn _)
    have htimer := hsyn.trans (steady_modTimer _ 20)
    dsimp only
    split_ifs
    · exact hsyn.trans (.of_eq rfl rfl rfl rfl rfl)
    · exact htimer.trans (.of_eq rfl rfl rfl rfl rfl)
    · exact htimer
    · exact .of_eq rfl rfl rfl rfl rfl
  · -- `ESTABLISHED`
    exact (steady_tcpProcessSendWindow s).trans (steady_modTimer _ _)
  -- the states that wait for a `FIN` to be acknowledged
  iterate 3
    refine Steady.trans ?_ (steady_modTimer _ _)
    split_ifs
    · exact .of_eq rfl rfl rfl rfl rfl
    · exact .of_eq rfl rfl rfl rfl rfl
    · exact .refl s
  · -- `TIME_WAIT`
    refine Steady.trans ?_ (steady_modTimer _ _)
    exact .of_eq rfl rfl rfl rfl rfl
  all_goals exact .refl s

theorem steady_tcpTimerEntry : Steady s (tcpTimerEntry s) :=
  (steady_sendDelayedAck s).trans (steady_timerSwitch _)

theorem steady_drainAcks (n : ℕ) (s : Sock) : Steady s (drainAcks n s) := by
  induction n generalizing s with
  | zero => exact .refl s
  | succ n ih =>
    unfold drainAcks
    split_ifs
    · exact .refl s
    · exact (steady_tcpTimerEntry s).trans (ih _)

theorem steady_tcpAckHandler (skb : SkBuff) : Steady s (tcpAckHandler s skb) := by
  obtain ⟨_, _, _, heq, _⟩ := tcpAckHandler_writes s skb
  rw [heq]
  exact .of_eq rfl rfl rfl rfl rfl

theorem answers_tcpAckHandler (skb : SkBuff) :
    (tcpAckHandler s skb).answers = s.answers := by
  obtain ⟨_, _, _, heq, _⟩ := tcpAckHandler_writes s skb
  rw [heq]

/-! ## The acknowledging loop -/

/-- An acknowledgement with this number has been made between the two states. -/
def Acked (s s' : Sock) (ackSeq : BitVec 32) : Prop :=
  ∃ a : Ack, a.ackSeq = ackSeq ∧ s.made.count a < s'.made.count a

theorem count_one (a b : Ack) : [a].count b = if b = a then 1 else 0 := by
  by_cases h : b = a
  · subst h
    simp
  · rw [if_neg h]
    exact count_eq_zero.mpr (by simpa using h)

/-- With a buffer, `tcp_send_ack` makes one acknowledgement and leaves the received data alone. -/
theorem tcpSendAck_spec (seq ackSeq : BitVec 32) (syn fin now : Bool)
    (halloc : 0 ≤ s.answers.headD 0) :
    let r := tcpSendAck s seq ackSeq syn fin now
    (now = false → r.1 = 0 ∧ r.2.answers = s.answers.tail) ∧ r.2.recvData = s.recvData ∧
      r.2.recvDataLen = s.recvDataLen ∧ r.2.ackSeq = s.ackSeq ∧
      ∃ a : Ack, a.ackSeq = ackSeq ∧
        ∀ b, r.2.made.count b = s.made.count b + if b = a then 1 else 0 := by
  unfold tcpSendAck
  simp only [ask_eq, not_lt.mpr halloc, if_false]
  have hwindow := steady_tcpSelectWindow { s with answers := s.answers.tail }
  have hanswers : (tcpSelectWindow { s with answers := s.answers.tail }).answers =
      s.answers.tail := by
    unfold tcpSelectWindow
    split_ifs <;> rfl
  generalize tcpSelectWindow { s with answers := s.answers.tail } = t at hwindow hanswers
  have hmade : ∀ a, t.made.count a = s.made.count a := hwindow.made
  cases now with
  | true =>
    refine ⟨by simp, hwindow.recvData, hwindow.recvDataLen, hwindow.ackSeq,
      ⟨seq, ackSeq, t.window, syn, fin⟩, rfl, fun b => ?_⟩
    rw [← hmade b]
    simp only [if_true, Sock.made, filterMap_append, filterMap_cons,
      filterMap_nil, Out.ack?, count_append, count_one]
    omega
  | false =>
    refine ⟨fun _ => ⟨rfl, hanswers⟩, hwindow.recvData, hwindow.recvDataLen, hwindow.ackSeq,
      ⟨seq, ackSeq, t.window, syn, fin⟩, rfl, fun b => ?_⟩
    rw [← hmade b]
    simp only [Bool.false_eq_true, if_false, Sock.made, count_append, count_one]
    omega

end

variable {s s' : Sock} {skb : SkBuff} {p : Peer} {arrived : List ℕ}

/-- The loop goes on from a segment that is expected, once its acknowledgement is in the queue. -/
theorem ackLoop_next {t : SkBuff} (heq : s.ackSeq = t.seq) (halloc : 0 ≤ s.answers.headD 0)
    (ts : List SkBuff) (ret : ℤ) :
    ackLoop (t :: ts) ret s =
      ackLoop ts 0 (tcpSendAck { s with ackSeq := tcpGetAckseq t } s.sendSeq (tcpGetAckseq t)
        false false false).2 := by
  have hret := (tcpSendAck_spec { s with ackSeq := tcpGetAckseq t } s.sendSeq (tcpGetAckseq t)
    false false false halloc).1 rfl
  rw [ackLoop, if_neg (not_not.mpr heq)]
  dsimp only
  rw [hret.1, if_neg (lt_irrefl 0)]

theorem ackLoop_spec (ts : List SkBuff) (ret : ℤ) (s : Sock)
    (h : AllocsOk ts s.answers s.ackSeq) :
    let s' := (ackLoop ts ret s).2
    s'.recvData = s.recvData ∧ s'.recvDataLen = s.recvDataLen ∧
      s'.ackSeq = walk ts s.ackSeq ∧ (∀ a, s.made.count a ≤ s'.made.count a) ∧
      (ts ≠ [] → Acked s s' s'.ackSeq) := by
  induction ts generalizing ret s with
  | nil => exact ⟨rfl, rfl, rfl, fun _ => le_rfl, fun h => absurd rfl h⟩
  | cons t ts ih =>
    obtain ⟨halloc, hrest⟩ := h
    by_cases hgap : s.ackSeq ≠ t.seq
    · -- a gap: the number that is expected is sent at once
      obtain ⟨-, hdata, hlen, hack, a, ha, hcount⟩ :=
        tcpSendAck_spec s s.sendSeq s.ackSeq false false true halloc
      have hloop : ackLoop (t :: ts) ret s = tcpSendAck s s.sendSeq s.ackSeq false false true :=
        if_pos hgap
      rw [hloop, walk, if_pos hgap]
      refine ⟨hdata, hlen, hack, fun b => ?_, fun _ => ⟨a, ha.trans hack.symm, ?_⟩⟩
      · rw [hcount b]
        omega
      · rw [hcount a, if_pos rfl]
        omega
    · -- the next segment: `ack_seq` moves on, and the acknowledgement is delayed
      have heq : s.ackSeq = t.seq := not_not.mp hgap
      rw [ackLoop_next heq halloc, walk, if_neg hgap]
      obtain ⟨hret, hdata, hlen, hack, a, ha, hcount⟩ := tcpSendAck_spec
        { s with ackSeq := tcpGetAckseq t } s.sendSeq (tcpGetAckseq t) false false false halloc
      obtain ⟨-, hanswers⟩ := hret rfl
      generalize (tcpSendAck { s with ackSeq := tcpGetAckseq t } s.sendSeq (tcpGetAckseq t)
        false false false).2 = s2 at hdata hlen hack hcount hanswers
      change ∀ b, s2.made.count b = s.made.count b + _ at hcount
      dsimp only at hdata hlen hack hanswers
      have hmore : ∀ b, s.made.count b ≤ s2.made.count b := by
        intro b
        rw [hcount b]
        omega
      have halloc2 : AllocsOk ts s2.answers s2.ackSeq := by
        rw [hanswers, hack]
        exact hrest heq
      obtain ⟨hdata', hlen', hwalk, hcount', hlast⟩ := ih 0 s2 halloc2
      refine ⟨hdata'.trans hdata, hlen'.trans hlen, by rw [hwalk, hack],
        fun b => (hmore b).trans (hcount' b), fun _ => ?_⟩
      by_cases hnil : ts = []
      · subst hnil
        refine ⟨a, ha.trans hack.symm, ?_⟩
        change s.made.count a < s2.made.count a
        rw [hcount a, if_pos rfl]
        omega
      · obtain ⟨b, hb, hlt⟩ := hlast hnil
        exact ⟨b, hb, (hmore b).trans_lt hlt⟩

theorem acknowledge_spec (ts : List SkBuff) (s : Sock) (h : AllocsOk ts s.answers s.ackSeq) :
    let s' := (acknowledge ts s).2
    s'.recvData = s.recvData ∧ s'.recvDataLen = s.recvDataLen ∧
      s'.ackSeq = walk ts s.ackSeq ∧ (ts ≠ [] → Acked s s' s'.ackSeq) := by
  obtain ⟨hdata, hlen, hack, -, hlast⟩ := ackLoop_spec ts 0 s.enterCritical h
  have hsteady : Steady (ackLoop ts 0 s.enterCritical).2 (acknowledge ts s).2 := by
    unfold acknowledge
    dsimp only
    split_ifs
    · exact ((steady_exitCritical _).trans (steady_enterCritical _)).trans
        ((steady_drainAcks _ _).trans (steady_exitCritical _))
    · exact steady_exitCritical _
  refine ⟨hsteady.recvData.trans hdata, hsteady.recvDataLen.trans hlen,
    hsteady.ackSeq.trans hack, fun hne => ?_⟩
  obtain ⟨a, ha, hlt⟩ := hlast hne
  exact ⟨a, ha.trans hsteady.ackSeq.symm, by rw [hsteady.made]; exact hlt⟩

/-- The buffers are there when `skb` is sorted in. -/
def CanAck (s : Sock) (skb : SkBuff) : Prop :=
  ∀ front back, findSlot skb.seq s.recvData.reverse [] = some (front, back) →
    AllocsOk (skb :: back) s.answers s.ackSeq

/-- Where nothing fails, the buffers are there. -/
theorem allocsOk_nil (ts : List SkBuff) (ackSeq : BitVec 32) : AllocsOk ts [] ackSeq := by
  induction ts generalizing ackSeq with
  | nil => trivial
  | cons t ts ih => exact ⟨le_rfl, fun _ => ih _⟩

/-- A segment that has a place is sorted in and answered. -/
theorem tcpSegSort_of_slot (hcan : CanAck s skb) (hold : ¬ skb.seq < s.ackSeq)
    {front back : List SkBuff}
    (hslot : findSlot skb.seq s.recvData.reverse [] = some (front, back)) :
    let s' := (tcpSegSort s skb).2
    s'.recvData = front.reverse ++ skb :: back ∧
      s'.recvDataLen = s.recvDataLen + (tcpGetDataLenght skb).setWidth 32 ∧
      s'.ackSeq = walk (skb :: back) s.ackSeq ∧ Acked s s' s'.ackSeq := by
  have hcrit : s.enterCritical.recvData = s.recvData := rfl
  unfold tcpSegSort
  simp only [hold, if_false, hcrit, hslot]
  obtain ⟨hdata, hlen, hack, hlast⟩ := acknowledge_spec (skb :: back)
    ({ s.enterCritical with
      recvData := front.reverse ++ skb :: back
      recvDataLen := s.enterCritical.recvDataLen + (tcpGetDataLenght skb).setWidth 32 }.exitCritical)
    (hcan front back hslot)
  exact ⟨hdata, hlen, hack, hlast (cons_ne_nil _ _)⟩

/-! ## Which segments are answered -/

/-- The call has made an acknowledgement that carries the resulting `ack_seq`. -/
def Answered (s s' : Sock) : Prop := Acked s s' s'.ackSeq

/-- The buffers that the handler needs for its answer are there. -/
def BuffersOk (s : Sock) (skb : SkBuff) : Prop :=
  (skb.fin = true → 0 ≤ s.answers.headD 0) ∧ (skb.fin = false → CanAck s skb)

/-- The condition: `ACK`, no reset, and new data, that is, not acknowledged yet and not in the
queue.  (A segment with `FIN` is acknowledged by its own number.) -/
def HasNewData (s : Sock) (skb : SkBuff) : Prop :=
  skb.ack = true ∧ skb.rst = false ∧ skb.syn = false ∧ (skb.fin = true → skb.seq + 1 = s.ackSeq) ∧
    (skb.fin = false → s.ackSeq ≤ skb.seq ∧ ¬ IsQueued s skb.seq)

theorem not_answered_of_steady (h : Steady s s') : ¬ Answered s s' := by
  rintro ⟨a, -, hlt⟩
  rw [h.made] at hlt
  exact absurd hlt (lt_irrefl _)

theorem Answered.of_steady {s₁ : Sock} (h : Steady s s₁) :
    Answered s₁ s' ↔ Answered s s' := by
  unfold Answered Acked
  simp only [h.made]

theorem tcpSegSort_answered_iff (hcan : CanAck s skb) :
    Answered s (tcpSegSort s skb).2 ↔ s.ackSeq ≤ skb.seq ∧ ¬ IsQueued s skb.seq := by
  by_cases hold : skb.seq < s.ackSeq
  · refine iff_of_false ?_ fun h => absurd hold (BitVec.not_lt.mpr h.1)
    rw [tcpSegSort, if_pos hold]
    exact not_answered_of_steady (.refl s)
  · rw [← isQueued_iff]
    cases hslot : findSlot skb.seq s.recvData.reverse [] with
    | none =>
      refine iff_of_false ?_ fun h => h.2 rfl
      have hcrit : s.enterCritical.recvData = s.recvData := rfl
      unfold tcpSegSort
      simp only [hold, if_false, hcrit, hslot]
      exact not_answered_of_steady (steady_enterCritical s)
    | some r =>
      obtain ⟨-, -, -, hacked⟩ := tcpSegSort_of_slot hcan hold hslot
      exact iff_of_true hacked ⟨BitVec.not_lt.mp hold, by simp⟩

theorem steady_finSwitch (s : Sock) : Steady s (finSwitch s) := by
  obtain ⟨_, _, _, _, _, heq, _⟩ := finSwitch_writes s
  rw [heq]
  exact .of_eq rfl rfl rfl rfl rfl

/-- Without a buffer nothing happens; with one, an acknowledgement is made. -/
theorem tcpSendAck_cases (s : Sock) (seq ackSeq : BitVec 32) (syn fin now : Bool) :
    let s' := (tcpSendAck s seq ackSeq syn fin now).2
    s'.ackSeq = s.ackSeq ∧ ∃ a : Ack, a.ackSeq = ackSeq ∧ ∃ n ≤ 1,
      ∀ b, s'.made.count b = s.made.count b + if b = a then n else 0 := by
  by_cases halloc : 0 ≤ s.answers.headD 0
  · obtain ⟨-, -, -, hack, a, ha, hcount⟩ := tcpSendAck_spec s seq ackSeq syn fin now halloc
    exact ⟨hack, a, ha, 1, le_rfl, hcount⟩
  · have hsame : Steady s (tcpSendAck s seq ackSeq syn fin now).2 := by
      rw [tcpSendAck]
      simp only [ask_eq, not_le.mp halloc, if_true]
      exact .of_eq rfl rfl rfl rfl rfl
    refine ⟨hsame.ackSeq, ⟨seq, ackSeq, 0, syn, fin⟩, rfl, 0, Nat.zero_le 1, fun b => ?_⟩
    rw [hsame.made b, ite_self, Nat.add_zero]

/-- Both acknowledgements of a segment with `FIN` carry the number behind the segment's first. -/
theorem fin_answered_iff (halloc : 0 ≤ s.answers.headD 0) (hs' : s' = { tcpFinHandler s skb with
      retries := tcpRetryTimes, timeout := (tcpFinHandler s skb).ticks.setWidth 16 }) :
    Answered s { (tcpSendAck s' s'.receivedAck (skb.seq + 1) false true true).2 with
      status := .lastAck } ↔ skb.seq + 1 = s.ackSeq := by
  obtain ⟨-, -, -, hack1, a1, ha1, hcount1⟩ :=
    tcpSendAck_spec s s.receivedAck (skb.seq + 1) false false true halloc
  have hfirst : Steady (tcpSendAck s s.receivedAck (skb.seq + 1) false false true).2 s' := by
    rw [hs']
    exact (steady_finSwitch _).trans (.of_eq rfl rfl rfl rfl rfl)
  obtain ⟨hack2, a2, ha2, n, -, hcount2⟩ :=
    tcpSendAck_cases s' s'.receivedAck (skb.seq + 1) false true true
  have hlast : Steady (tcpSendAck s' s'.receivedAck (skb.seq + 1) false true true).2
      { (tcpSendAck s' s'.receivedAck (skb.seq + 1) false true true).2 with
        status := .lastAck } := .of_eq rfl rfl rfl rfl rfl
  unfold Answered Acked
  simp only [hlast.made, hcount2, hfirst.made, hcount1]
  rw [hlast.ackSeq, hack2, hfirst.ackSeq, hack1]
  constructor
  · rintro ⟨a, ha, hlt⟩
    by_cases h1 : a = a1
    · rw [← ha, h1, ha1]
    · by_cases h2 : a = a2
      · rw [← ha, h2, ha2]
      · rw [if_neg h1, if_neg h2] at hlt
        omega
  · intro heq
    refine ⟨a1, ha1.trans heq, ?_⟩
    rw [if_pos rfl]
    omega

/-- **Who is answered.**  A segment with data that reaches an `ESTABLISHED` socket is answered with
the resulting `ack_seq` exactly if it carries new data. -/
theorem answered_iff (handshake : Sock → SkBuff → ℤ × Sock) (s : Sock) (skb : SkBuff)
    (hstatus : s.status = .established) (hdata : 0 < (tcpGetDataLenght skb).toNat)
    (hbuffers : BuffersOk s skb) :
    Answered s (tcpReceivedDataHandler handshake s skb).2 ↔ HasNewData s skb := by
  have hfinds := finds_iff (s := s) (by rw [hstatus]; decide) skb
  unfold tcpReceivedDataHandler HasNewData
  by_cases hack : skb.ack = true
  · rw [if_pos (hfinds.mpr hack), receiveSwitch, hstatus]
    simp only [receiveConnected, hack, if_true, true_and]
    by_cases hreset : (skb.rst || skb.syn) = true
    · rw [if_pos hreset]
      refine iff_of_false (not_answered_of_steady (.of_eq rfl rfl rfl rfl rfl)) ?_
      rintro ⟨hrst, hsyn, -⟩
      simp [hrst, hsyn] at hreset
    · rw [if_neg hreset]
      rw [Bool.or_eq_true, not_or, Bool.not_eq_true, Bool.not_eq_true] at hreset
      -- the acknowledgement in the segment is dealt with first
      have hsteady := steady_tcpAckHandler s skb
      have hanswers := answers_tcpAckHandler s skb
      generalize tcpAckHandler s skb = t at hsteady hanswers
      simp only [hreset.1, hreset.2, true_and]
      rw [← Answered.of_steady hsteady]
      cases hfin : skb.fin with
      | true =>
        simp only [if_true, true_imp_iff, Bool.true_eq_false, false_imp_iff, and_true]
        rw [fin_answered_iff (hanswers ▸ hbuffers.1 hfin) rfl, hsteady.ackSeq]
      | false =>
        simp only [Bool.false_eq_true, if_false, false_imp_iff, true_and, true_imp_iff, hdata,
          if_true]
        have hcan : CanAck t skb := by
          unfold CanAck
          rw [hsteady.recvData, hanswers, hsteady.ackSeq]
          exact hbuffers.2 hfin
        rw [tcpSegSort_answered_iff hcan, IsQueued, IsQueued, hsteady.recvData, hsteady.ackSeq]
  · -- `tcp_find_sock` finds no socket
    rw [if_neg fun h => hack (hfinds.mp h)]
    exact iff_of_false (not_answered_of_steady (.refl s)) fun h => hack h.1

/-- The first byte of the stream arrives at a socket that waits for it. -/
theorem answered_iff_firstByte :
    Answered blankSock
      (tcpReceivedDataHandler (fun s _ => (0, s)) blankSock (twoBytePeer.skb 0 plainHdr)).2 := by
  refine (answered_iff _ blankSock (twoBytePeer.skb 0 plainHdr) rfl (by decide) ?_).mpr ?_
  · exact ⟨fun h => absurd h (by decide), fun _ _ _ _ => allocsOk_nil _ _⟩
  · refine ⟨rfl, rfl, rfl, fun h => absurd h (by decide), fun _ => ⟨by decide, ?_⟩⟩
    rintro ⟨front, t, back, heq, -⟩
    exact absurd heq (by simp [blankSock, Sock.zero])

/-- The byte has been acknowledged and the acknowledgement was lost: the byte comes again, and
there is no answer. -/
theorem retransmission_unanswered :
    (tcpReceivedDataHandler (fun s _ => (0, s)) { blankSock with ackSeq := 1 }
        (twoBytePeer.skb 0 plainHdr)).2 = { blankSock with ackSeq := 1 } ∧
      ¬ Answered { blankSock with ackSeq := 1 }
        (tcpReceivedDataHandler (fun s _ => (0, s)) { blankSock with ackSeq := 1 }
          (twoBytePeer.skb 0 plainHdr)).2 := by
  have hsame : (tcpReceivedDataHandler (fun s _ => (0, s)) { blankSock with ackSeq := 1 }
      (twoBytePeer.skb 0 plainHdr)).2 = { blankSock with ackSeq := 1 } := by decide
  refine ⟨hsame, ?_⟩
  rw [hsame]
  exact not_answered_of_steady (.refl _)

/-! ## Streams -/

/-- The stream ends before the sequence numbers wrap. -/
def Peer.FitsSeq (p : Peer) : Prop := p.first.toNat + p.stream.length ≤ 2 ^ 32

/-- Something happens to the receiving socket: segment `i` of the peer arrives at `tcp_seg_sort`,
or the timer runs; with any results of the calls they make. -/
inductive RxEvent : Type where
  | arrive (i : ℕ) (h : Hdr) (ticks : BitVec 32) (answers : List ℤ) : RxEvent
  | timer (ticks : BitVec 32) (answers : List ℤ) : RxEvent

namespace RxEvent

def apply (p : Peer) (s : Sock) : RxEvent → Sock
  | arrive i h ticks answers =>
    (tcpSegSort { s with ticks := ticks, answers := answers } (p.skb i h)).2
  | timer ticks answers => tcpTimerEntry { s with ticks := ticks, answers := answers }

/-- A segment of the peer, in a datagram; and the acknowledgements can be made. -/
def Possible (p : Peer) (s : Sock) : RxEvent → Prop
  | arrive i h _ answers => i < p.chunks.length ∧
      20 + h.doff.toNat * 4 + (p.chunk i).length < 2 ^ 16 ∧
      CanAck { s with answers := answers } (p.skb i h)
  | timer _ _ => True

/-- The segment that arrives. -/
def arrived? : RxEvent → Option ℕ
  | arrive i _ _ _ => some i
  | timer _ _ => none

end RxEvent

/-- All events of the run are possible in the states in which they happen. -/
def AllPossible (p : Peer) : List RxEvent → Sock → Prop
  | [], _ => True
  | e :: es, s => e.Possible p s ∧ AllPossible p es (e.apply p s)

/-- `n` segments of the stream have been received without a gap, and not the next one. -/
structure GapFree (p : Peer) (arrived : List ℕ) (n : ℕ) : Prop where
  le : n ≤ p.chunks.length
  all : ∀ i < n, i ∈ arrived
  gap : n < p.chunks.length → n ∉ arrived

namespace Peer

variable {i j : ℕ}

theorem off_lt_off (p : Peer) (hi : i < p.chunks.length) (h : i < j) :
    p.off i < p.off j := by
  have := p.off_add_le hi h
  have := p.chunk_length_pos hi
  omega

theorem off_injOn (p : Peer) (hi : i < p.chunks.length) (hj : j < p.chunks.length)
    (h : p.off i = p.off j) : i = j := by
  rcases lt_trichotomy i j with hlt | heq | hgt
  · exact absurd h (p.off_lt_off hi hlt).ne
  · exact heq
  · exact absurd h (p.off_lt_off hj hgt).ne'

theorem off_le_length (p : Peer) (hi : i ≤ p.chunks.length) :
    p.off i ≤ p.stream.length := by
  have h := p.off_mono hi
  have hall : p.off p.chunks.length = p.stream.length := by
    rw [off, stream, take_length]
  omega

theorem off_lt_length (p : Peer) (hi : i < p.chunks.length) :
    p.off i < p.stream.length := by
  have := p.off_lt_off hi (Nat.lt_succ_self i)
  have := p.off_le_length (Nat.succ_le_of_lt hi)
  omega

/-- The sequence number of a segment is its place in the stream. -/
theorem toNat_seq (p : Peer) (hp : p.FitsSeq) (hi : i < p.chunks.length) (h : Hdr) :
    (p.skb i h).seq.toNat = p.first.toNat + p.off i := by
  have hlt := p.off_lt_length hi
  unfold FitsSeq at hp
  simp only [skb, toNat_add, toNat_ofNat]
  omega

/-- The number that acknowledges segment `i`. -/
theorem tcpGetAckseq_skb (p : Peer) (hi : i < p.chunks.length) (h : Hdr)
    (hfit : 20 + h.doff.toNat * 4 + (p.chunk i).length < 2 ^ 16) :
    tcpGetAckseq (p.skb i h) = p.first + BitVec.ofNat 32 (p.off (i + 1)) := by
  have h20 : (20 : BitVec 16).toNat = 20 := rfl
  have h4 : (4 : BitVec 32).toNat = 4 := rfl
  rw [p.off_succ hi]
  apply eq_of_toNat_eq
  simp only [tcpGetAckseq, skb, sizeofIphdr, toNat_add, BitVec.toNat_sub, BitVec.toNat_mul,
    BitVec.toNat_setWidth, toNat_ofNat, h20, h4]
  omega

theorem length_skb (p : Peer) (hi : i < p.chunks.length) (h : Hdr)
    (hfit : 20 + h.doff.toNat * 4 + (p.chunk i).length < 2 ^ 16) :
    (tcpGetDataLenght (p.skb i h)).setWidth 32 = BitVec.ofNat 32 (p.skb i h).body.length := by
  have hlen := (isSegment_skb p hi h hfit).len
  apply eq_of_toNat_eq
  rw [BitVec.toNat_setWidth, toNat_ofNat, hlen]

end Peer

/-- The element `t` of the queue is segment `i`, as it has come. -/
structure IsArrived (p : Peer) (t : SkBuff) (i : ℕ) : Prop where
  lt : i < p.chunks.length
  off : t.off = p.off i
  seq : t.seq.toNat = p.first.toNat + p.off i
  ackSeq : tcpGetAckseq t = p.first + BitVec.ofNat 32 (p.off (i + 1))

theorem isArrived_skb (p : Peer) (hp : p.FitsSeq) {i : ℕ} (hi : i < p.chunks.length) (h : Hdr)
    (hfit : 20 + h.doff.toNat * 4 + (p.chunk i).length < 2 ^ 16) : IsArrived p (p.skb i h) i :=
  ⟨hi, rfl, p.toNat_seq hp hi h, p.tcpGetAckseq_skb hi h hfit⟩

section

variable {t u : SkBuff} {i j : ℕ} (hi : IsArrived p t i)

include hi

theorem IsArrived.unique (hj : IsArrived p t j) : i = j :=
  p.off_injOn hi.lt hj.lt (hi.off.symm.trans hj.off)

/-- Segments stand in the order of their places. -/
theorem IsArrived.lt_of_off (hj : IsArrived p u j) (h : t.off < u.off) : i < j := by
  by_contra hge
  have := p.off_mono (not_lt.mp hge)
  rw [hi.off, hj.off] at h
  omega

end

/-- The loop walks from segment to segment as long as there is no gap. -/
theorem walk_spec (hp : p.FitsSeq) {ts : List SkBuff} {m : ℕ} (hm : m ≤ p.chunks.length)
    (hseg : ∀ t ∈ ts, ∃ i, IsArrived p t i ∧ m ≤ i)
    (hsorted : ts.Pairwise fun t u => t.off < u.off) :
    ∃ n, m ≤ n ∧ n ≤ p.chunks.length ∧
      walk ts (p.first + BitVec.ofNat 32 (p.off m)) = p.first + BitVec.ofNat 32 (p.off n) ∧
      (∀ k, m ≤ k → k < n → ∃ t ∈ ts, IsArrived p t k) ∧ ∀ t ∈ ts, ¬ IsArrived p t n := by
  induction ts generalizing m with
  | nil => exact ⟨m, le_rfl, hm, rfl, fun k h1 h2 => absurd h2 (not_lt.mpr h1), by simp⟩
  | cons t ts ih =>
    obtain ⟨j, hj, hmj⟩ := hseg t mem_cons_self
    obtain ⟨hbehind, hsorted'⟩ := pairwise_cons.mp hsorted
    -- the expected number is that of `t` exactly if `t` is the next segment
    have hiff : p.first + BitVec.ofNat 32 (p.off m) = t.seq ↔ m = j := by
      have hoff := p.off_mono hmj
      have hlt := p.off_lt_length hj.lt
      have hbound : p.first.toNat + p.stream.length ≤ 2 ^ 32 := hp
      constructor
      · intro heq
        have h := congrArg BitVec.toNat heq
        rw [hj.seq, toNat_add, toNat_ofNat] at h
        refine p.off_injOn (lt_of_le_of_lt hmj hj.lt) hj.lt ?_
        omega
      · rintro rfl
        apply eq_of_toNat_eq
        rw [hj.seq, toNat_add, toNat_ofNat]
        omega
    unfold walk
    by_cases hnext : m = j
    · rw [if_neg (not_not.mpr (hiff.mpr hnext)), hj.ackSeq, ← hnext]
      subst hnext
      have hseg' : ∀ u ∈ ts, ∃ i, IsArrived p u i ∧ m + 1 ≤ i := by
        intro u hu
        obtain ⟨i, hi, -⟩ := hseg u (mem_cons_of_mem _ hu)
        exact ⟨i, hi, hj.lt_of_off hi (hbehind u hu)⟩
      obtain ⟨n, hmn, hn, hwalk, hall, hnot⟩ := ih hj.lt hseg' hsorted'
      refine ⟨n, by omega, hn, hwalk, fun k hk hkn => ?_, fun u hu => ?_⟩
      · by_cases hkm : k = m
        · subst hkm
          exact ⟨t, mem_cons_self, hj⟩
        · obtain ⟨u, hu, harr⟩ := hall k (by omega) hkn
          exact ⟨u, mem_cons_of_mem _ hu, harr⟩
      · rcases mem_cons.mp hu with rfl | hu
        · intro harr
          have := hj.unique harr
          omega
        · exact hnot u hu
    · rw [if_pos (mt hiff.mp hnext)]
      refine ⟨m, le_rfl, hm, rfl, fun k h1 h2 => absurd h2 (not_lt.mpr h1), fun u hu harr => ?_⟩
      rcases mem_cons.mp hu with rfl | hu
      · exact hnext (harr.unique hj)
      · have := hj.lt_of_off harr (hbehind u hu)
        omega

/-- What holds after the segments `arrived` have come, in whatever order and number. -/
structure RxInv (p : Peer) (arrived : List ℕ) (s : Sock) : Prop where
  segs : ∀ t ∈ s.recvData, ∃ i ∈ arrived, IsArrived p t i
  sorted : s.recvData.Pairwise fun t u => t.off < u.off
  all : ∀ i ∈ arrived, ∃ t ∈ s.recvData, IsArrived p t i
  len : s.recvDataLen = BitVec.ofNat 32 (s.recvData.map fun t => t.body.length).sum
  ack : ∃ n, GapFree p arrived n ∧ s.ackSeq = p.first + BitVec.ofNat 32 (p.off n)

namespace RxInv

variable {p : Peer} {arrived : List ℕ} {s s' : Sock}

variable {i : ℕ} {skb : SkBuff}

section

variable (h : RxInv p arrived s)

include h

theorem steady (hs : Steady s s') : RxInv p arrived s' := by
  refine ⟨?_, ?_, ?_, ?_, ?_⟩
  · rw [hs.recvData]
    exact h.segs
  · rw [hs.recvData]
    exact h.sorted
  · rw [hs.recvData]
    exact h.all
  · rw [hs.recvDataLen, hs.recvData]
    exact h.len
  · rw [hs.ackSeq]
    exact h.ack

/-- A segment that has come before comes again. -/
theorem again (hi : i ∈ arrived) :
    RxInv p (arrived ++ [i]) s := by
  have hmem : ∀ j, j ∈ arrived ++ [i] ↔ j ∈ arrived := by
    intro j
    simp only [mem_append, mem_singleton, or_iff_left_iff_imp]
    rintro rfl
    exact hi
  obtain ⟨n, hn, hack⟩ := h.ack
  refine ⟨fun t ht => ?_, h.sorted, fun j hj => h.all j ((hmem j).mp hj), h.len, n,
    ⟨hn.le, fun j hj => (hmem j).mpr (hn.all j hj), fun hlt => mt (hmem n).mp (hn.gap hlt)⟩, hack⟩
  obtain ⟨j, hj, harr⟩ := h.segs t ht
  exact ⟨j, (hmem j).mpr hj, harr⟩

/-- What is refused as old has come before. -/
theorem mem_of_old (harr : IsArrived p skb i) (hold : skb.seq < s.ackSeq) : i ∈ arrived := by
  obtain ⟨n, hn, hack⟩ := h.ack
  have hlt := lt_def.mp hold
  rw [harr.seq, hack, toNat_add, toNat_ofNat] at hlt
  refine hn.all i ?_
  by_contra hni
  have := p.off_mono (not_lt.mp hni)
  omega

/-- The segments of the queue compare by their numbers as by their places. -/
theorem comparesAsStream (harr : IsArrived p skb i) : ComparesAsStream s.recvData.reverse skb := by
  intro t ht
  obtain ⟨j, -, hj⟩ := h.segs t (mem_reverse.mp ht)
  rw [lt_def, ← BitVec.toNat_inj, hj.seq, harr.seq, hj.off, harr.off]
  omega

end

/-- A new segment is sorted in, and the loop reaches the end of what has come without a gap. -/
theorem insert (hp : p.FitsSeq) (h : RxInv p arrived s)
    (harr : IsArrived p skb i)
    (hlen : (tcpGetDataLenght skb).setWidth 32 = BitVec.ofNat 32 skb.body.length)
    {front back : List SkBuff} (hsplit : front.reverse ++ back = s.recvData)
    (hfront : ∀ t ∈ front, t.off < skb.off) (hback : ∀ t ∈ back, skb.off < t.off)
    (hdata : s'.recvData = front.reverse ++ skb :: back)
    (hdataLen : s'.recvDataLen = s.recvDataLen + (tcpGetDataLenght skb).setWidth 32)
    (hack : s'.ackSeq = walk (skb :: back) s.ackSeq) : RxInv p (arrived ++ [i]) s' := by
  have hmem : ∀ t, t ∈ s'.recvData ↔ t = skb ∨ t ∈ s.recvData := by
    intro t
    rw [hdata, ← hsplit]
    simp only [mem_append, mem_cons]
    tauto
  have hsorted := pairwise_append.mp (hsplit ▸ h.sorted)
  have hnew : i ∉ arrived := by
    intro hi
    obtain ⟨t, ht, htarr⟩ := h.all i hi
    have hoff : t.off = skb.off := htarr.off.trans harr.off.symm
    rw [← hsplit] at ht
    rcases mem_append.mp ht with ht | ht
    · exact absurd hoff (hfront t (mem_reverse.mp ht)).ne
    · exact absurd hoff (hback t ht).ne'
  refine ⟨fun t ht => ?_, ?_, fun j hj => ?_, ?_, ?_⟩
  · rcases (hmem t).mp ht with rfl | ht
    · exact ⟨i, by simp, harr⟩
    · obtain ⟨j, hj, hjarr⟩ := h.segs t ht
      exact ⟨j, mem_append_left _ hj, hjarr⟩
  · rw [hdata]
    refine pairwise_append.mpr
      ⟨hsorted.1, pairwise_cons.mpr ⟨hback, hsorted.2.1⟩, fun t ht u hu => ?_⟩
    rcases mem_cons.mp hu with rfl | hu
    · exact hfront t (mem_reverse.mp ht)
    · exact hsorted.2.2 t ht u hu
  · rcases mem_append.mp hj with hj | hj
    · obtain ⟨t, ht, htarr⟩ := h.all j hj
      exact ⟨t, (hmem t).mpr (.inr ht), htarr⟩
    · rw [mem_singleton.mp hj]
      exact ⟨skb, (hmem skb).mpr (.inl rfl), harr⟩
  · rw [hdataLen, h.len, hlen, ← BitVec.ofNat_add, hdata, ← hsplit]
    simp only [map_append, map_cons, sum_append, sum_cons]
    congr 1
    omega
  · obtain ⟨n, hn, hackn⟩ := h.ack
    have hin : n ≤ i := not_lt.mp fun hlt => hnew (hn.all i hlt)
    -- the elements from the new one on are segments from `n` on
    have hseg : ∀ t ∈ skb :: back, ∃ j, IsArrived p t j ∧ n ≤ j := by
      intro t ht
      rcases mem_cons.mp ht with rfl | ht
      · exact ⟨i, harr, hin⟩
      · obtain ⟨j, -, hjarr⟩ := h.segs t (hsplit ▸ mem_append_right _ ht)
        have := harr.lt_of_off hjarr (hback t ht)
        exact ⟨j, hjarr, by omega⟩
    obtain ⟨m, hnm, hm, hwalk, hreached, hstop⟩ := walk_spec hp hn.le hseg
      (pairwise_cons.mpr ⟨hback, hsorted.2.1⟩)
    refine ⟨m, ⟨hm, fun k hk => ?_, fun hmlt hmarr => ?_⟩, by rw [hack, hackn, hwalk]⟩
    · by_cases hkn : k < n
      · exact mem_append_left _ (hn.all k hkn)
      · obtain ⟨t, ht, htarr⟩ := hreached k (not_lt.mp hkn) hk
        rcases mem_cons.mp ht with rfl | ht
        · rw [htarr.unique harr]
          simp
        · obtain ⟨j, hj, hjarr⟩ := h.segs t (hsplit ▸ mem_append_right _ ht)
          rw [htarr.unique hjarr]
          exact mem_append_left _ hj
    · rcases mem_append.mp hmarr with hmarr | hmarr
      · obtain ⟨t, ht, htarr⟩ := h.all m hmarr
        rw [← hsplit] at ht
        rcases mem_append.mp ht with ht | ht
        · -- in front of the new segment lies only what has been passed
          have hmi := htarr.lt_of_off harr (hfront t (mem_reverse.mp ht))
          by_cases hmn : m = n
          · rw [hmn] at hmarr hmlt
            exact hn.gap hmlt hmarr
          · obtain ⟨u, hu, huarr⟩ := hreached n le_rfl (by omega)
            rcases mem_cons.mp hu with rfl | hu
            · have := huarr.unique harr
              omega
            · have := harr.lt_of_off huarr (hback u hu)
              omega
        · exact hstop t (mem_cons_of_mem _ ht) htarr
      · rw [mem_singleton.mp hmarr] at hstop
        exact hstop skb mem_cons_self harr

end RxInv

/-- One arrival. -/
theorem rxInv_tcpSegSort (hp : p.FitsSeq) (h : RxInv p arrived s) {i : ℕ} (harr : IsArrived p skb i)
    (hlen : (tcpGetDataLenght skb).setWidth 32 = BitVec.ofNat 32 skb.body.length)
    (hcan : CanAck s skb) : RxInv p (arrived ++ [i]) (tcpSegSort s skb).2 := by
  by_cases hold : skb.seq < s.ackSeq
  · rw [tcpSegSort, if_pos hold]
    exact h.again (h.mem_of_old harr hold)
  · have hsorted : s.recvData.reverse.reverse.Pairwise (fun a b => a.off < b.off) := by
      rw [reverse_reverse]
      exact h.sorted
    rcases findSlot_spec (h.comparesAsStream harr) hsorted
        (fun _ ht => absurd ht not_mem_nil) with
      ⟨hnone, t, ht, hoff⟩ | ⟨front, back, hslot, hsplit, hfront, hback⟩
    · obtain ⟨j, hj, hjarr⟩ := h.segs t (mem_reverse.mp ht)
      have hij : i = j := p.off_injOn harr.lt hjarr.lt
        (by rw [← harr.off, ← hjarr.off, hoff])
      have hcrit : s.enterCritical.recvData = s.recvData := rfl
      unfold tcpSegSort
      simp only [hold, if_false, hcrit, hnone]
      exact (h.again (hij ▸ hj)).steady (steady_enterCritical s)
    · rw [reverse_reverse, append_nil] at hsplit
      obtain ⟨hdata, hdataLen, hack, -⟩ := tcpSegSort_of_slot hcan hold hslot
      exact h.insert hp harr hlen hsplit hfront hback hdata hdataLen hack

theorem rxInv_apply (hp : p.FitsSeq) (h : RxInv p arrived s) {e : RxEvent} (he : e.Possible p s) :
    RxInv p (arrived ++ e.arrived?.toList) (e.apply p s) := by
  cases e with
  | arrive i hdr ticks answers =>
    obtain ⟨hi, hfit, hcan⟩ := he
    have hsame : Steady s { s with ticks := ticks, answers := answers } :=
      .of_eq rfl rfl rfl rfl rfl
    exact rxInv_tcpSegSort hp (h.steady hsame) (isArrived_skb p hp hi hdr hfit)
      (p.length_skb hi hdr hfit) hcan
  | timer ticks answers =>
    have hsame : Steady s { s with ticks := ticks, answers := answers } :=
      .of_eq rfl rfl rfl rfl rfl
    have harrived : (RxEvent.timer ticks answers).arrived?.toList = [] := rfl
    rw [harrived, append_nil]
    exact h.steady (hsame.trans (steady_tcpTimerEntry _))

theorem rxInv_run (hp : p.FitsSeq) (es : List RxEvent) (h : RxInv p arrived s)
    (hes : AllPossible p es s) :
    RxInv p (arrived ++ es.filterMap RxEvent.arrived?) (es.foldl (RxEvent.apply p) s) := by
  induction es generalizing arrived s with
  | nil => simpa using h
  | cons e es ih =>
    obtain ⟨he, hes⟩ := hes
    have hnext := ih (rxInv_apply hp h he) hes
    cases harr : e.arrived? with
    | none => simpa [harr] using hnext
    | some i => simpa [harr] using hnext

/-- **The receive queue.**  Whatever segments of the stream have arrived, in any order and any
number of times: the queue is in strict order, `recv_data_len` is the sum of its payloads, and
`ack_seq` is the end of the longest part of the stream that has come without a gap. -/
theorem ackSeq_after_arrivals (p : Peer) (hp : p.FitsSeq) (s : Sock) (hempty : s.recvData = [])
    (hlen : s.recvDataLen = 0) (hack : s.ackSeq = p.first) (es : List RxEvent)
    (hes : AllPossible p es s) :
    let s' := es.foldl (RxEvent.apply p) s
    (s'.recvData.Pairwise fun t u => t.seq < u.seq) ∧
      s'.recvDataLen = BitVec.ofNat 32 (s'.recvData.map fun t => t.body.length).sum ∧
      ∃ n, GapFree p (es.filterMap RxEvent.arrived?) n ∧
        s'.ackSeq = p.first + BitVec.ofNat 32 (p.off n) := by
  have hinit : RxInv p [] s :=
    ⟨by simp [hempty], by simp [hempty], by simp, by simp [hempty, hlen],
      0, ⟨Nat.zero_le _, by simp, by simp⟩, by simp [hack, Peer.off]⟩
  have h := rxInv_run hp es hinit hes
  rw [nil_append] at h
  refine ⟨?_, h.len, h.ack⟩
  refine h.sorted.imp_of_mem fun {t u} ht hu htu => ?_
  obtain ⟨i, -, hi⟩ := h.segs t ht
  obtain ⟨j, -, hj⟩ := h.segs u hu
  rw [lt_def, hi.seq, hj.seq]
  rw [hi.off, hj.off] at htu
  omega

/-- The second byte comes before the first, and then once more. -/
theorem ackSeq_after_two_bytes :
    ∃ n, GapFree twoBytePeer [1, 0, 1] n ∧
      ([RxEvent.arrive 1 plainHdr 0 [], .arrive 0 plainHdr 0 [], .arrive 1 plainHdr 0 []].foldl
        (RxEvent.apply twoBytePeer) blankSock).ackSeq =
          twoBytePeer.first + BitVec.ofNat 32 (twoBytePeer.off n) :=
  (ackSeq_after_arrivals twoBytePeer (by unfold Peer.FitsSeq; decide) blankSock rfl rfl rfl
    [.arrive 1 plainHdr 0 [], .arrive 0 plainHdr 0 [], .arrive 1 plainHdr 0 []]
    ⟨⟨by decide, by decide, fun _ _ _ => allocsOk_nil _ _⟩,
      ⟨by decide, by decide, fun _ _ _ => allocsOk_nil _ _⟩,
      ⟨by decide, by decide, fun _ _ _ => allocsOk_nil _ _⟩, trivial⟩).2.2

end Tcp

end Yap
