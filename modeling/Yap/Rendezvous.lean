/-
# Rendezvous of messages (`ipc/message.c`)

What the observations of a run say is compared with an abstract view of the system:

* `waiting h d`, the senders that wait for `d` in the order in which they sent, is the queue in
  memory (`Rendezvous.chain`);
* what a process has delivered is the beginning of what it has sent (`Rendezvous.order`), with
  the contents if no step writes the buffer of a process that waits with a message
  (`rendezvous_of_run`); another process that receives into that buffer does
  (`shared_buffer_modifies`).
-/
import Yap.Ipc

namespace Yap

namespace Ipc

open List BitVec Function

variable {s' : State} {l r : List ℕ} {me p fuel : ℕ} {e : Event} {msg : Message}

/-! ## The abstract view -/

/-- What an observation does to the list of those that wait for `d`. -/
def waitStep (d : ℕ) (l : List ℕ) : Obs → List ℕ
  | .sent src dst _ => if dst = d then l ++ [src] else l
  | .delivered src dst _ => if dst = d then l.erase src else l

/-- The processes whose message for `d` was sent and not delivered, in the order of sending. -/
def waiting (h : List Obs) (d : ℕ) : List ℕ := h.foldl (waitStep d) []

/-- The message that an observation says `p` has sent, with its receiver. -/
def Obs.sentBy (p : ℕ) : Obs → Option (ℕ × Message)
  | .sent src dst msg => if src = p then some (dst, msg) else none
  | .delivered _ _ _ => none

/-- The message of `p` that an observation says was delivered, with its receiver. -/
def Obs.deliveredFrom (p : ℕ) : Obs → Option (ℕ × Message)
  | .sent _ _ _ => none
  | .delivered src dst msg => if src = p then some (dst, msg) else none

/-- The messages that `p` has sent, with their receivers. -/
def sentBy (h : List Obs) (p : ℕ) : List (ℕ × Message) := h.filterMap (Obs.sentBy p)

/-- The messages of `p` that were delivered, with their receivers. -/
def deliveredFrom (h : List Obs) (p : ℕ) : List (ℕ × Message) := h.filterMap (Obs.deliveredFrom p)

/-- The message that `p` waits to hand over. -/
def pending (T : Pids) (s : State) (p : ℕ) : List (ℕ × Message) :=
  if s.Sending p then [(T.pid2proc (s.task p).pSendto, s.mem (s.task p).pMsg)] else []

/-! ## Observations -/

section

variable {h : List Obs} {p q d : ℕ} {msg : Message}

theorem waiting_append (h obs : List Obs) (d : ℕ) :
    waiting (h ++ obs) d = obs.foldl (waitStep d) (waiting h d) := foldl_append

theorem waiting_sent : waiting (h ++ [.sent p d msg]) q =
    if d = q then waiting h q ++ [p] else waiting h q := waiting_append h _ q

theorem waiting_delivered : waiting (h ++ [.delivered p d msg]) q =
    if d = q then (waiting h q).erase p else waiting h q := waiting_append h _ q

theorem sentBy_append (h obs : List Obs) (p : ℕ) :
    sentBy (h ++ obs) p = sentBy h p ++ sentBy obs p := filterMap_append

theorem deliveredFrom_append (h obs : List Obs) (p : ℕ) :
    deliveredFrom (h ++ obs) p = deliveredFrom h p ++ deliveredFrom obs p := filterMap_append

@[simp] theorem sentBy_nil : sentBy [] p = [] := rfl

@[simp] theorem sentBy_sent : sentBy (.sent q d msg :: h) p =
    if q = p then (d, msg) :: sentBy h p else sentBy h p := by
  unfold sentBy
  by_cases hq : q = p <;> simp [Obs.sentBy, hq]

@[simp] theorem sentBy_delivered : sentBy (.delivered q d msg :: h) p = sentBy h p := rfl

@[simp] theorem deliveredFrom_nil : deliveredFrom [] p = [] := rfl

@[simp] theorem deliveredFrom_sent : deliveredFrom (.sent q d msg :: h) p = deliveredFrom h p := rfl

@[simp] theorem deliveredFrom_delivered : deliveredFrom (.delivered q d msg :: h) p =
    if q = p then (d, msg) :: deliveredFrom h p else deliveredFrom h p := by
  unfold deliveredFrom
  by_cases hq : q = p <;> simp [Obs.deliveredFrom, hq]

/-- A message that is handed over at once leaves no one waiting. -/
theorem waiting_direct (hp : p ∉ waiting h d) :
    waiting (h ++ [.sent p d msg, .delivered p d msg]) q = waiting h q := by
  rw [waiting_append]
  by_cases hq : d = q
  · rw [hq] at hp
    simp [waitStep, hq, erase_append_right _ hp]
  · simp [waitStep, hq]

end

/-! ## The invariant -/

/-- The queues in memory are the abstract ones, and flags, buffers and queues fit together. -/
structure Inv (T : Pids) (s : State) (h : List Obs) : Prop where
  chain : ∀ d, T.IsTask d →
    Chain (fun q => (s.task q).nextSending) 0 (s.task d).qSending (waiting h d)
  mem_waiting : ∀ d, T.IsTask d → ∀ q, q ∈ waiting h d ↔
    T.IsTask q ∧ s.Sending q ∧ (s.task q).pSendto = T.proc2pid d
  exclusive : ∀ q, T.IsTask q → ¬ (s.Sending q ∧ s.Receiving q)
  buffer : ∀ q, T.IsTask q → s.Sending q ∨ s.Receiving q → (s.task q).pMsg ≠ 0
  sendto : ∀ q, T.IsTask q → s.Sending q → T.live (s.task q).pSendto
  quiet : ∀ q, T.IsTask q → (s.task q).hasIntMsg = false

/-- What an event can do to a state of the invariant. -/
inductive Move (T : Pids) (s : State) (h : List Obs) : Event → State → List Obs → Prop where
  | handed {p m : ℕ} {dest : ℤ} {s' : State} :
      Handed s s' (T.pid2proc dest) m → s.Receiving (T.pid2proc dest) →
      (Event.send p dest m).target T s = some (s.task (T.pid2proc dest)).pMsg →
      Move T s h (.send p dest m) s'
        [.sent p (T.pid2proc dest) (s.mem m), .delivered p (T.pid2proc dest) (s.mem m)]
  | queued {p m : ℕ} {dest : ℤ} {s' : State} :
      Queued s s' p (T.pid2proc dest) dest m ((waiting h (T.pid2proc dest)).getLastD 0) →
      Move T s h (.send p dest m) s' [.sent p (T.pid2proc dest) (s.mem m)]
  | fetched {me m x : ℕ} {src : ℤ} {l r : List ℕ} {s' : State} :
      waiting h me = l ++ x :: r → (src = any → l = []) → Fetched s s' me x (l.getLastD 0) m →
      (Event.receive me src m).target T s = some m →
      Move T s h (.receive me src m) s' [.delivered x me (s.mem (s.task x).pMsg)]
  | awaits {me m : ℕ} {src : ℤ} {s' : State} :
      (src = any → waiting h me = []) → Awaits s s' me m → Move T s h (.receive me src m) s' []
  | wrote {p m : ℕ} {msg : Message} :
      Move T s h (.write p m msg) { s with mem := update s.mem m msg } []

section

variable {T : Pids} {s s' : State} {h obs : List Obs} {p d m x : ℕ}

theorem Inv.not_mem_waiting (hinv : Inv T s h) (hd : T.IsTask d) (hp : ¬ s.Sending p) :
    p ∉ waiting h d := fun hmem => hp ((hinv.mem_waiting d hd p).mp hmem).2.1

theorem getLastD_mem (hl : l.getLastD 0 ≠ 0) : l.getLastD 0 ∈ l := by
  cases l with
  | nil => exact absurd rfl hl
  | cons a l =>
    rw [getLastD_cons]
    exact getLastD_mem_cons

/-- A process waits for one receiver only. -/
theorem Inv.waiting_unique {e : ℕ} (hinv : Inv T s h) (hd : T.IsTask d) (he : T.IsTask e)
    (hpd : p ∈ waiting h d) (hpe : p ∈ waiting h e) : d = e := by
  refine hd.eq_of_proc2pid he ?_
  rw [← ((hinv.mem_waiting d hd p).mp hpd).2.2, ((hinv.mem_waiting e he p).mp hpe).2.2]

/-- `msg_send` on a state of the invariant. -/
theorem msgSend_move {dest : ℤ} (hinv : Inv T s h) (hp : Runs T s p) (hdest : T.live dest)
    (hne : dest ≠ T.proc2pid p) (hm : m ≠ 0) :
    ∃ n s' obs, (∀ fuel, step T fuel s (.send p dest m) =
        if n ≤ fuel then some (s', obs) else none) ∧ Move T s h (.send p dest m) s' obs := by
  have hd := T.isTask hdest
  have hd0 := hd.ne_zero
  by_cases hrecv : (s.task (T.pid2proc dest)).flags &&& receiving ≠ 0 ∧
      ((s.task (T.pid2proc dest)).pRecvfrom = T.proc2pid p ∨
        (s.task (T.pid2proc dest)).pRecvfrom = any)
  · have hbuf := hinv.buffer _ hd (Or.inr hrecv.1)
    refine ⟨0, _, _, fun fuel => ?_, Move.handed (handed_setTask s _ m) hrecv.1 (if_pos hrecv)⟩
    unfold step msgSend
    dsimp only
    rw [if_neg hd0, if_pos hrecv, State.physCopy, if_neg (by simp [hbuf, hm]),
      if_pos (Nat.zero_le fuel)]
    rfl
  · have hdp : T.pid2proc dest ≠ p := by
      intro heq
      refine hne ?_
      rw [← heq, T.proc2pid_pid2proc dest hdest]
    obtain ⟨s', heq, hq⟩ := enqueue_spec dest m (hinv.chain _ hd)
      (hinv.not_mem_waiting hd hp.not_sending) hdp
    refine ⟨(waiting h (T.pid2proc dest)).length, s', _, fun fuel => ?_, Move.queued hq⟩
    unfold step msgSend
    dsimp only
    rw [if_neg hd0, if_neg hrecv, heq fuel]
    split_ifs <;> rfl

/-- `msg_receive` on a state of the invariant. -/
theorem msgReceive_move {src : ℤ} (hinv : Inv T s h) (hme : Runs T s me)
    (hsrc : src = any ∨ T.live src ∧ src ≠ T.proc2pid me) (hm : m ≠ 0) :
    ∃ n s' obs, (∀ fuel, step T fuel s (.receive me src m) =
        if n ≤ fuel then some (s', obs) else none) ∧ Move T s h (.receive me src m) s' obs := by
  have htask := hme.task
  have hchain := hinv.chain me htask
  have hquiet : ¬ ((s.task me).hasIntMsg = true ∧ (src = any ∨ src = interrupt)) := by
    rw [hinv.quiet me htask]
    simp
  have hself : me ∉ waiting h me := hinv.not_mem_waiting htask hme.not_sending
  -- a process of the queue can be fetched
  have hfetch : ∀ {l r : List ℕ} {x : ℕ}, waiting h me = l ++ x :: r → ∃ s',
      fetch s me x (l.getLastD 0) m = some (s', [.delivered x me (s.mem (s.task x).pMsg)]) ∧
      Fetched s s' me x (l.getLastD 0) m := by
    intro l r x hw
    have hx : x ∈ waiting h me := hw ▸ mem_append_cons_self
    obtain ⟨hxt, hxs, _⟩ := (hinv.mem_waiting me htask x).mp hx
    rw [hw] at hchain
    refine fetch_spec hchain hm (hinv.buffer x hxt (Or.inl hxs)) ?_
    rintro rfl
    exact hself hx
  by_cases hany : src = any
  · by_cases hq : (s.task me).qSending ≠ 0
    · obtain ⟨r, hw, _⟩ := hchain.eq_cons hq
      obtain ⟨s', heq, hf⟩ := hfetch (l := []) hw
      refine ⟨0, s', _, fun fuel => ?_, Move.fetched (l := []) hw (fun _ => rfl) hf ?_⟩
      swap
      · exact if_pos ((if_pos hany).mpr hq)
      unfold step msgReceive
      dsimp only
      rw [if_neg hquiet, if_pos hany, if_pos hq, if_pos (Nat.zero_le fuel)]
      exact heq
    · have hw : waiting h me = [] := hchain.nil_iff.mp (not_not.mp hq)
      refine ⟨0, _, _, fun fuel => ?_, Move.awaits (fun _ => hw) (awaits_await s me any m)⟩
      unfold step msgReceive
      dsimp only
      rw [if_neg hquiet, if_pos hany, if_neg hq, if_pos (Nat.zero_le fuel)]
  · obtain ⟨hlive, _⟩ := hsrc.resolve_left hany
    have hfrom := T.isTask hlive
    by_cases hsend : (s.task (T.pid2proc src)).flags &&& sending ≠ 0 ∧
        (s.task (T.pid2proc src)).pSendto = T.proc2pid me
    · have hmem : T.pid2proc src ∈ waiting h me :=
        (hinv.mem_waiting me htask _).mpr ⟨hfrom, hsend.1, hsend.2⟩
      obtain ⟨l, r, hw⟩ := append_of_mem hmem
      obtain ⟨s', heq, hf⟩ := hfetch hw
      have hpid : T.proc2pid (T.pid2proc src) = src := T.proc2pid_pid2proc src hlive
      rw [hw] at hchain
      have hnot : ∀ z ∈ l, T.proc2pid z ≠ src := by
        intro z hz hzs
        have hzw : z ∈ waiting h me := by
          rw [hw]
          exact mem_append_left _ hz
        have hzt := ((hinv.mem_waiting me htask z).mp hzw).1
        have hzx : z = T.pid2proc src := by rw [← hzs, hzt.pid2proc]
        exact (nodup_append.mp hchain.nodup).2.2 z hz _ mem_cons_self hzx
      refine ⟨l.length + 1, s', _, fun fuel => ?_, Move.fetched hw (fun h => absurd h hany) hf ?_⟩
      swap
      · exact if_pos ((if_neg hany).mpr hsend)
      unfold step msgReceive
      dsimp only
      rw [if_neg hquiet, if_neg hany, if_neg hfrom.ne_zero, if_pos hsend,
        findSending_chain hpid fuel hchain hnot]
      simp only [Nat.succ_le_iff]
      split_ifs
      · dsimp only
        rw [if_pos hfrom.ne_zero]
        exact heq
      · rfl
    · refine ⟨0, _, _, fun fuel => ?_,
        Move.awaits (fun h => absurd h hany) (awaits_await s me (T.proc2pid (T.pid2proc src)) m)⟩
      unfold step msgReceive
      dsimp only
      rw [if_neg hquiet, if_neg hany, if_neg hfrom.ne_zero, if_neg hsend,
        if_pos (Nat.zero_le fuel)]

/-- **Every event of a process that runs comes to an end**, in one of five ways. -/
theorem step_move (hinv : Inv T s h) (he : e.Valid T s) :
    ∃ n s' obs, (∀ fuel, step T fuel s e = if n ≤ fuel then some (s', obs) else none) ∧
      Move T s h e s' obs := by
  cases e with
  | send p dest m => exact msgSend_move hinv he.1 he.2.1 he.2.2.1 he.2.2.2
  | receive me src m => exact msgReceive_move hinv he.1 he.2.1 he.2.2
  | write p m msg => exact ⟨0, _, _, fun fuel => (if_pos (Nat.zero_le fuel)).symm, Move.wrote⟩

end

/-! ## What one event preserves -/

section

variable {T : Pids} {s s' : State} {h obs : List Obs} {p d m x : ℕ}

/-- A process that waits after an event has a buffer: the one it had, or the one of the event. -/
theorem Move.buffer (hinv : Inv T s h) (hv : e.Valid T s) (hmove : Move T s h e s' obs) (q : ℕ)
    (hq : T.IsTask q) (hf : s'.Sending q ∨ s'.Receiving q) : (s'.task q).pMsg ≠ 0 := by
  have hold := hinv.buffer
  cases hmove with
  | @handed p m dest _ hs hrecv _ =>
    have hqd : q ≠ T.pid2proc dest := by
      rintro rfl
      rcases hf with hf | hf
      · exact hinv.exclusive _ hq ⟨(hs.sending _).mp hf, hrecv⟩
      · exact ((hs.receiving _).mp hf).2 rfl
    rw [hs.other q hqd]
    exact hold q hq (hf.imp (hs.sending q).mp fun hr => ((hs.receiving q).mp hr).1)
  | @queued p m dest _ hs =>
    by_cases hqp : q = p
    · rw [hqp, hs.self.2]
      exact hv.2.2.2
    · rw [(hs.other q hqp).2]
      exact hold q hq (hf.imp (fun hsq => ((hs.sending q).mp hsq).resolve_right hqp)
        (hs.receiving q).mp)
  | @fetched me m x src l r _ hw _ hs _ =>
    have hx : x ∈ waiting h me := hw ▸ mem_append_cons_self
    have hqx : q ≠ x := by
      rintro rfl
      rcases hf with hf | hf
      · exact ((hs.sending q).mp hf).2 rfl
      · exact hinv.exclusive q hq
          ⟨((hinv.mem_waiting me hv.1.task q).mp hx).2.1, (hs.receiving q).mp hf⟩
    rw [(hs.other q hqx).2]
    exact hold q hq (hf.imp (fun hsq => ((hs.sending q).mp hsq).1) (hs.receiving q).mp)
  | @awaits me m src _ _ hs =>
    by_cases hqm : q = me
    · rw [hqm, hs.self]
      exact hv.2.2
    · rw [hs.other q hqm]
      exact hold q hq (hf.imp (hs.sending q).mp fun hr =>
        ((hs.receiving q).mp hr).resolve_right hqm)
  | wrote => exact hold q hq hf

section

variable (hinv : Inv T s h)
  (hbuf : ∀ q, T.IsTask q → s'.Sending q ∨ s'.Receiving q → (s'.task q).pMsg ≠ 0)

include hinv hbuf

/-- An event after which the queues are as before. -/
theorem Inv.same_queues {h' : List Obs} (hw : ∀ e, waiting h' e = waiting h e)
    (hsend : ∀ q, s'.Sending q ↔ s.Sending q)
    (hlinks : SameLinks s s') (hexcl : ∀ q, T.IsTask q → s.Sending q → ¬ s'.Receiving q) :
    Inv T s' h' := by
  refine ⟨fun e he => ?_, fun e he q => ?_, fun q hq hboth => ?_, hbuf, fun q hq hsq => ?_,
    fun q hq => ?_⟩
  · rw [hw, (hlinks e).1]
    exact (hinv.chain e he).congr fun z _ => (hlinks z).2.1
  · rw [hw, hinv.mem_waiting e he, hsend, (hlinks q).2.2.1]
  · exact hexcl q hq ((hsend q).mp hboth.1) hboth.2
  · rw [(hlinks q).2.2.1]
    exact hinv.sendto q hq ((hsend q).mp hsq)
  · rw [(hlinks q).2.2.2]
    exact hinv.quiet q hq

theorem Inv.queued {dest : ℤ} (hp : Runs T s p) (hdest : T.live dest)
    (hs : Queued s s' p (T.pid2proc dest) dest m ((waiting h (T.pid2proc dest)).getLastD 0)) :
    Inv T s' (h ++ [.sent p (T.pid2proc dest) msg]) := by
  have hd := T.isTask hdest
  have hpid : T.proc2pid (T.pid2proc dest) = dest := T.proc2pid_pid2proc dest hdest
  set d := T.pid2proc dest
  have hpw : ∀ e, T.IsTask e → p ∉ waiting h e := fun e he =>
    hinv.not_mem_waiting he hp.not_sending
  have hlast : ∀ e, T.IsTask e → e ≠ d → ∀ z ∈ waiting h e,
      ¬ (z = (waiting h d).getLastD 0 ∧ (waiting h d).getLastD 0 ≠ 0) := by
    rintro e he hed z hz ⟨hzl, hl0⟩
    refine hed (hinv.waiting_unique he hd hz ?_)
    rw [hzl]
    exact getLastD_mem hl0
  refine ⟨fun e he => ?_, fun e he q => ?_, fun q hq hboth => ?_, hbuf, fun q hq hsq => ?_,
    fun q hq => ?_⟩
  · rw [waiting_sent]
    by_cases hed : e = d
    · rw [if_pos hed.symm, hed]
      have hchain := hinv.chain d hd
      have hnd := hchain.nodup
      rcases eq_nil_or_concat (waiting h d) with hw | ⟨l, y, hw⟩
      · -- the queue was empty
        have hq : (s'.task d).qSending = p := by
          rw [hs.queue, if_pos ⟨rfl, by rw [hw]; rfl⟩]
        have hpn : (s'.task p).nextSending = 0 := by rw [hs.next, if_pos rfl]
        rw [hw, hq, nil_append]
        exact ⟨rfl, hp.task.ne_zero, hpn⟩
      · rw [concat_eq_append] at hw
        have hpd := hpw d hd
        rw [hw] at hchain hnd hpd ⊢
        have hyl : (l ++ [y]).getLastD 0 = y := by simp
        have hy0 : y ≠ 0 := hchain.drop_until.2.1
        have hyp : y ≠ p := by
          rintro rfl
          exact hpd (by simp)
        have hq : (s'.task d).qSending = (s.task d).qSending := by
          rw [hs.queue, hw, hyl, if_neg fun h => hy0 h.2]
        rw [hq, List.append_assoc]
        refine hchain.snoc hp.task.ne_zero ?_ ?_ fun z hz => ?_
        · show (s'.task y).nextSending = p
          rw [hs.next, hw, hyl, if_neg hyp, if_pos ⟨rfl, hy0⟩]
        · show (s'.task p).nextSending = 0
          rw [hs.next, if_pos rfl]
        · show (s'.task z).nextSending = (s.task z).nextSending
          have hzp : z ≠ p := by
            rintro rfl
            exact hpd (mem_append_left _ hz)
          have hzy : z ≠ y := fun heq =>
            (nodup_append.mp hnd).2.2 z hz y (mem_singleton_self y) heq
          rw [hs.next, hw, hyl, if_neg hzp, if_neg fun h => hzy h.1]
    · rw [if_neg fun heq => hed heq.symm, hs.queue, if_neg fun h => hed h.1]
      refine (hinv.chain e he).congr fun z hz => ?_
      have hzp : z ≠ p := by
        rintro rfl
        exact hpw e he hz
      show (s'.task z).nextSending = _
      rw [hs.next, if_neg hzp, if_neg (hlast e he hed z hz)]
  · rw [waiting_sent, hs.sending]
    by_cases hqp : q = p
    · rw [hqp, hs.self.1]
      by_cases hed : d = e
      · rw [if_pos hed, ← hed]
        exact ⟨fun _ => ⟨hp.task, Or.inr rfl, hpid.symm⟩, fun _ => by simp⟩
      · rw [if_neg hed]
        refine ⟨fun hmem => absurd hmem (hpw e he), fun hmem => absurd ?_ hed⟩
        exact hd.eq_of_proc2pid he (hpid.trans hmem.2.2)
    · rw [(hs.other q hqp).1, or_iff_left hqp, ← hinv.mem_waiting e he]
      by_cases hed : d = e
      · rw [if_pos hed, mem_append, mem_singleton, or_iff_left hqp]
      · rw [if_neg hed]
  · have hr := (hs.receiving q).mp hboth.2
    rcases (hs.sending q).mp hboth.1 with hsq | rfl
    · exact hinv.exclusive q hq ⟨hsq, hr⟩
    · exact hp.not_receiving hr
  · by_cases hqp : q = p
    · rw [hqp, hs.self.1]
      exact hdest
    · rw [(hs.other q hqp).1]
      exact hinv.sendto q hq (((hs.sending q).mp hsq).resolve_right hqp)
  · rw [hs.quiet]
    exact hinv.quiet q hq

theorem Inv.fetched (hme : T.IsTask me) (hw : waiting h me = l ++ x :: r)
    (hs : Fetched s s' me x (l.getLastD 0) m) : Inv T s' (h ++ [.delivered x me msg]) := by
  have hchain := hinv.chain me hme
  have hnd := hchain.nodup
  have hxw : x ∈ waiting h me := hw ▸ mem_append_cons_self
  -- the processes whose links change are in this queue only
  have hother : ∀ e, T.IsTask e → e ≠ me → ∀ z ∈ waiting h e,
      z ≠ x ∧ ¬ (z = l.getLastD 0 ∧ l.getLastD 0 ≠ 0) := by
    intro e he hem z hz
    refine ⟨?_, ?_⟩
    · rintro rfl
      exact hem (hinv.waiting_unique he hme hz hxw)
    · rintro ⟨hzl, hl0⟩
      refine hem (hinv.waiting_unique he hme hz ?_)
      rw [hw, hzl]
      exact mem_append_left _ (getLastD_mem hl0)
  rw [hw] at hchain hnd
  have hxl : x ∉ l := fun hx =>
    (nodup_append.mp hnd).2.2 x hx x mem_cons_self rfl
  have hxr : x ∉ r := (nodup_cons.mp (nodup_append.mp hnd).2.1).1
  have herase : (l ++ x :: r).erase x = l ++ r := by
    rw [erase_append_right _ hxl, erase_cons_head]
  refine ⟨fun e he => ?_, fun e he q => ?_, fun q hq hboth => ?_, hbuf, fun q hq hsq => ?_,
    fun q hq => ?_⟩
  · rw [waiting_delivered]
    by_cases hem : e = me
    · rw [if_pos hem.symm, hem, hw, herase]
      rcases eq_nil_or_concat l with rfl | ⟨l', y, rfl⟩
      · -- `x` was the first
        have hq : (s'.task me).qSending = (s.task x).nextSending := by
          rw [hs.queue, if_pos ⟨rfl, rfl⟩]
        rw [hq, nil_append]
        have hx : (s.task me).qSending = x := hchain.1
        refine (hx ▸ hchain.pop).congr fun z hz => ?_
        have hzx : z ≠ x := fun heq => hxr (heq ▸ hz)
        show (s'.task z).nextSending = _
        rw [hs.next, if_neg hzx, if_neg fun h => h.2 rfl]
      · rw [concat_eq_append] at hchain hnd hxl hs hother ⊢
        have hyl : (l' ++ [y]).getLastD 0 = y := by simp
        rw [hyl] at hs
        rw [List.append_assoc, singleton_append] at hchain ⊢
        rw [List.append_assoc, singleton_append] at hnd
        have hy0 : y ≠ 0 := hchain.drop_until.2.1
        have hyx : y ≠ x := fun heq => hxl (by simp [heq])
        have hq : (s'.task me).qSending = (s.task me).qSending := by
          rw [hs.queue, if_neg fun h => hy0 h.2]
        have hyl' : y ∉ l' := fun hy =>
          (nodup_append.mp hnd).2.2 y hy y mem_cons_self rfl
        have hyr : y ∉ r := fun hy =>
          (nodup_cons.mp (nodup_append.mp hnd).2.1).1 (mem_cons_of_mem _ hy)
        have hsame : ∀ z, z ≠ x → z ≠ y → (s'.task z).nextSending = (s.task z).nextSending := by
          intro z hzx hzy
          rw [hs.next, if_neg hzx, if_neg fun h => hzy h.1]
        rw [hq]
        refine hchain.unlink ?_ (fun z hz => hsame z ?_ ?_) fun z hz => hsame z ?_ ?_
        · show (s'.task y).nextSending = (s.task x).nextSending
          rw [hs.next, if_neg hyx, if_pos ⟨rfl, hy0⟩]
        · exact fun heq => hxl (mem_append_left _ (heq ▸ hz))
        · exact fun heq => hyl' (heq ▸ hz)
        · exact fun heq => hxr (heq ▸ hz)
        · exact fun heq => hyr (heq ▸ hz)
    · rw [if_neg fun heq => hem heq.symm, hs.queue, if_neg fun h => hem h.1]
      refine (hinv.chain e he).congr fun z hz => ?_
      show (s'.task z).nextSending = _
      rw [hs.next, if_neg (hother e he hem z hz).1, if_neg (hother e he hem z hz).2]
  · rw [waiting_delivered, hs.sending]
    by_cases hqx : q = x
    · rw [hqx]
      refine ⟨fun hmem => absurd hmem ?_, fun hmem => absurd rfl hmem.2.1.2⟩
      by_cases hem : me = e
      · rw [if_pos hem, ← hem, hw, herase, mem_append]
        exact fun hx => hx.elim hxl hxr
      · rw [if_neg hem]
        exact fun hx => hem (hinv.waiting_unique hme he hxw hx)
    · rw [(hs.other q hqx).1, and_iff_left hqx, ← hinv.mem_waiting e he]
      by_cases hem : me = e
      · rw [if_pos hem, mem_erase_of_ne hqx]
      · rw [if_neg hem]
  · exact hinv.exclusive q hq ⟨((hs.sending q).mp hboth.1).1, (hs.receiving q).mp hboth.2⟩
  · obtain ⟨hsq, hqx⟩ := (hs.sending q).mp hsq
    rw [(hs.other q hqx).1]
    exact hinv.sendto q hq hsq
  · rw [hs.quiet]
    exact hinv.quiet q hq

end

/-- **One event preserves the invariant.** -/
theorem Inv.move (hinv : Inv T s h) (he : e.Valid T s) (hmove : Move T s h e s' obs) :
    Inv T s' (h ++ obs) := by
  have hbuf := hmove.buffer hinv he
  cases hmove with
  | handed hs _ _ =>
    refine hinv.same_queues hbuf (fun _ => ?_) hs.sending hs.links fun q hq hsq hr => ?_
    · exact waiting_direct (hinv.not_mem_waiting (T.isTask he.2.1) he.1.not_sending)
    · exact hinv.exclusive q hq ⟨hsq, ((hs.receiving q).mp hr).1⟩
  | queued hs => exact hinv.queued hbuf he.1 he.2.1 hs
  | fetched hw _ hs _ => exact hinv.fetched hbuf he.1.task hw hs
  | awaits _ hs =>
    rw [append_nil]
    refine hinv.same_queues hbuf (fun _ => rfl) hs.sending hs.links fun q hq hsq hr => ?_
    rcases (hs.receiving q).mp hr with hr | rfl
    · exact hinv.exclusive q hq ⟨hsq, hr⟩
    · exact he.1.not_sending hsq
  | wrote =>
    rw [append_nil]
    exact ⟨hinv.chain, hinv.mem_waiting, hinv.exclusive, hinv.buffer, hinv.sendto, hinv.quiet⟩

end

/-! ## Order and contents -/

/-- What `p` has sent is what was delivered and what is pending, as far as `v` can see. -/
def Order {γ : Type} (v : ℕ × Message → γ) (T : Pids) (s : State) (h : List Obs) : Prop :=
  ∀ p, T.IsTask p → (sentBy h p).map v = (deliveredFrom h p).map v ++ (pending T s p).map v

section

variable {γ : Type} {v : ℕ × Message → γ} {T : Pids} {s s' : State} {h obs : List Obs}

theorem pending_of_not_sending (hp : ¬ s.Sending p) : pending T s p = [] := if_neg hp

theorem pending_of_sending (hp : s.Sending p) :
    pending T s p = [(T.pid2proc (s.task p).pSendto, s.mem (s.task p).pMsg)] := if_pos hp

/-- A process that sends before and after the event, with the same receiver and buffer. -/
theorem pending_congr (hs : s'.Sending p ↔ s.Sending p)
    (hto : s.Sending p → (s'.task p).pSendto = (s.task p).pSendto)
    (hmsg : s.Sending p → (s'.task p).pMsg = (s.task p).pMsg)
    (hmem : s.Sending p → v (T.pid2proc (s.task p).pSendto, s'.mem (s.task p).pMsg) =
      v (T.pid2proc (s.task p).pSendto, s.mem (s.task p).pMsg)) :
    (pending T s' p).map v = (pending T s p).map v := by
  by_cases hp : s.Sending p
  · rw [pending_of_sending hp, pending_of_sending (hs.mpr hp), map_singleton,
      map_singleton, hto hp, hmsg hp, hmem hp]
  · rw [pending_of_not_sending hp, pending_of_not_sending fun hp' => hp (hs.mp hp')]

/-- One event keeps the order, if no message that is pending changes under the view. -/
theorem Order.move (ho : Order v T s h) (hinv : Inv T s h) (he : e.Valid T s)
    (hmove : Move T s h e s' obs) (hmem : ∀ q, T.IsTask q → s.Sending q →
      v (T.pid2proc (s.task q).pSendto, s'.mem (s.task q).pMsg) =
        v (T.pid2proc (s.task q).pSendto, s.mem (s.task q).pMsg)) :
    Order v T s' (h ++ obs) := by
  intro q hq
  rw [sentBy_append, deliveredFrom_append, map_append, map_append, ho q hq]
  cases hmove with
  | @handed p m dest _ hs hrecv _ =>
    have hpend : (pending T s' q).map v = (pending T s q).map v := by
      refine pending_congr (hs.sending q) (fun _ => (hs.links q).2.2.1) (fun hsq => ?_)
        (hmem q hq)
      have hqd : q ≠ T.pid2proc dest := by
        rintro rfl
        exact hinv.exclusive _ hq ⟨hsq, hrecv⟩
      rw [hs.other q hqd]
    rw [hpend]
    by_cases hqp : p = q
    · have hnone : pending T s q = [] := pending_of_not_sending (hqp ▸ he.1.not_sending)
      simp [hnone, hqp]
    · simp [hqp]
  | @queued p m dest _ hs =>
    by_cases hqp : p = q
    · have hsend : s'.Sending q := (hs.sending q).mpr (Or.inr hqp.symm)
      have hnone : pending T s q = [] := pending_of_not_sending (hqp ▸ he.1.not_sending)
      rw [hnone, pending_of_sending hsend, ← hqp, hs.self.1, hs.self.2, hs.mem]
      simp
    · have hpend : (pending T s' q).map v = (pending T s q).map v := by
        refine pending_congr ?_ (fun _ => (hs.other q (Ne.symm hqp)).1)
          (fun _ => (hs.other q (Ne.symm hqp)).2) (hmem q hq)
        rw [hs.sending, or_iff_left (Ne.symm hqp)]
      rw [hpend]
      simp [hqp]
  | @fetched me m x src l r _ hw _ hs _ =>
    have hx : x ∈ waiting h me := hw ▸ mem_append_cons_self
    obtain ⟨hxt, hxs, hxto⟩ := (hinv.mem_waiting me he.1.task x).mp hx
    by_cases hqx : x = q
    · have hnone : pending T s' q = [] :=
        pending_of_not_sending fun hsq => ((hs.sending q).mp hsq).2 hqx.symm
      rw [hnone, ← hqx, pending_of_sending hxs, hxto, he.1.task.pid2proc]
      simp
    · have hpend : (pending T s' q).map v = (pending T s q).map v := by
        refine pending_congr ?_ (fun _ => (hs.other q (Ne.symm hqx)).1)
          (fun _ => (hs.other q (Ne.symm hqx)).2) (hmem q hq)
        rw [hs.sending, and_iff_left (Ne.symm hqx)]
      rw [hpend]
      simp [hqx]
  | @awaits me m src _ _ hs =>
    have hpend : (pending T s' q).map v = (pending T s q).map v := by
      refine pending_congr (hs.sending q) (fun _ => (hs.links q).2.2.1) (fun hsq => ?_)
        (hmem q hq)
      have hqm : q ≠ me := by
        rintro rfl
        exact he.1.not_sending hsq
      rw [hs.other q hqm]
    rw [hpend]
    simp
  | @wrote p m msg =>
    have hpend : (pending T { s with mem := update s.mem m msg } q).map v =
        (pending T s q).map v :=
      pending_congr Iff.rfl (fun _ => rfl) (fun _ => rfl) (hmem q hq)
    rw [hpend]
    simp

end

/-! ## Runs -/

section

variable {T : Pids} {P : State → Event → Prop} {s₀ s s' : State} {h obs : List Obs} {e : Event}

/-- An event overwrites no other message than its target. -/
theorem Move.mem_eq {a : ℕ} (hmove : Move T s h e s' obs) (ha : e.target T s ≠ some a) :
    s'.mem a = s.mem a := by
  cases hmove with
  | handed hs _ htarget =>
    rw [hs.mem]
    refine update_of_ne (fun heq => ha ?_) _ _
    rw [heq, htarget]
  | queued hs => rw [hs.mem]
  | fetched _ _ hs htarget =>
    rw [hs.mem]
    refine update_of_ne (fun heq => ha ?_) _ _
    rw [heq, htarget]
  | awaits _ hs => rw [hs.mem]
  | wrote => exact update_of_ne (fun heq => ha (congrArg some heq.symm)) _ _

/-- In the beginning nobody waits. -/
theorem Idle.inv (h0 : Idle T s₀) : Inv T s₀ [] := by
  constructor
  · intro d hd
    exact h0.queue d hd
  · intro d hd q
    constructor
    · intro hq
      cases hq
    · intro hq
      exact absurd hq.2.1 (h0.flags q hq.1).1
  · intro q hq hboth
    exact (h0.flags q hq).1 hboth.1
  · intro q hq hf
    exact absurd hf (not_or.mpr (h0.flags q hq))
  · intro q hq hsq
    exact absurd hsq (h0.flags q hq).1
  · exact h0.quiet

theorem Idle.order {γ : Type} (v : ℕ × Message → γ) (h0 : Idle T s₀) : Order v T s₀ [] := by
  intro q hq
  rw [pending_of_not_sending (h0.flags q hq).1]
  rfl

/-- The event that a run takes is a move. -/
theorem move_of_step (hinv : Inv T s h) (he : e.Valid T s)
    (hstep : step T fuel s e = some (s', obs)) : Move T s h e s' obs := by
  obtain ⟨n, s'', obs'', hall, hmove⟩ := step_move hinv he
  rw [hall] at hstep
  split_ifs at hstep
  cases hstep
  exact hmove

/-- **The invariant holds in every state of a run**, and the messages of a process are delivered
in the order in which they were sent, with their contents if every event spares those that wait. -/
theorem inv_run (h0 : Idle T s₀) (hrun : Run T P s₀ s h) :
    Inv T s h ∧ Order Prod.fst T s h ∧ ((∀ s e, P s e → e.Spares T s) → Order id T s h) := by
  induction hrun with
  | start => exact ⟨h0.inv, h0.order _, fun _ => h0.order _⟩
  | @step s s' h obs e fuel _ he hP hstep ih =>
    obtain ⟨hinv, horder, hintact⟩ := ih
    have hmove := move_of_step hinv he hstep
    refine ⟨hinv.move he hmove, horder.move hinv he hmove fun _ _ _ => rfl, fun hspares => ?_⟩
    refine (hintact hspares).move hinv he hmove fun q hq hsq => ?_
    rw [hmove.mem_eq (hspares s e hP q hq hsq)]

theorem Order.initial {γ : Type} {v : ℕ × Message → γ} (ho : Order v T s h)
    (hp : T.IsTask p) : (deliveredFrom h p).map v <+: (sentBy h p).map v := by
  rw [ho p hp]
  exact prefix_append _ _

end

/-- The rendezvous of all processes in one state: the queue of `d` is finite, without
repetitions and consists of the processes that send to `d`, in the order in which they sent; a
process waits for one thing only, with a buffer; and the `i`-th message of a process that is
delivered goes where its `i`-th message was sent to. -/
structure Rendezvous (T : Pids) (s : State) (h : List Obs) : Prop extends Inv T s h where
  nodup : ∀ d, T.IsTask d → (waiting h d).Nodup
  order : ∀ q, T.IsTask q → (deliveredFrom h q).map Prod.fst <+: (sentBy h q).map Prod.fst

/-- **Rendezvous of messages.**  In every state that any number of processes can reach with
`msg_send` and `msg_receive`: the queues, flags and buffers fit together; each delivered message
of a process is the next one it has sent, unchanged where every step spares the messages of the
processes that wait; every further call comes to an end; and a receive from `ANY` takes the message
of the process that has waited longest. -/
theorem rendezvous_of_run (T : Pids) (P : State → Event → Prop) (s₀ s : State) (h : List Obs)
    (h₀ : Idle T s₀) (hrun : Run T P s₀ s h) :
    Rendezvous T s h ∧
    ((∀ s e, P s e → e.Spares T s) → ∀ q, T.IsTask q → deliveredFrom h q <+: sentBy h q) ∧
    (∀ e : Event, e.Valid T s → ∃ n s' obs, ∀ fuel, n ≤ fuel →
      step T fuel s e = some (s', obs)) ∧
    ∀ me m fuel s' obs x r, (Event.receive me any m).Valid T s →
      step T fuel s (.receive me any m) = some (s', obs) → waiting h me = x :: r →
      ∃ msg, obs = [.delivered x me msg] := by
  obtain ⟨hinv, horder, hintact⟩ := inv_run h₀ hrun
  refine ⟨⟨hinv, fun d hd => (hinv.chain d hd).nodup, fun q hq => horder.initial hq⟩, ?_, ?_, ?_⟩
  · intro hspares q hq
    have hinitial := (hintact hspares).initial hq
    rwa [List.map_id, List.map_id] at hinitial
  · intro e he
    obtain ⟨n, s', obs, hstep, _⟩ := step_move hinv he
    exact ⟨n, s', obs, fun fuel hfuel => (hstep fuel).trans (if_pos hfuel)⟩
  · intro me m fuel s' obs x r he hstep hw
    have hmove := move_of_step hinv he hstep
    cases hmove with
    | @fetched _ _ y _ l r' _ hw' hany _ _ =>
      rw [hany rfl, nil_append, hw] at hw'
      cases hw'
      exact ⟨_, rfl⟩
    | awaits hnone _ =>
      rw [hnone rfl] at hw
      cases hw

/-! ## Four processes -/

/-- Four processes with the ids 1 to 4. -/
def fourPids : Pids where
  live pid := 1 ≤ pid ∧ pid ≤ 4
  pid2proc := Int.toNat
  proc2pid p := p
  pid2proc_ne := by
    intro pid h
    omega
  proc2pid_pid2proc := by
    intro pid h
    omega

/-- They are idle, and the message at the address `a` has the type `a`. -/
def fourIdle : State where
  task _ := ⟨0, 0, noTask, noTask, 0, 0, false⟩
  mem a := ⟨0, a, 0⟩

theorem fourIdle_idle : Idle fourPids fourIdle := by
  constructor
  · intro p _
    have h : ¬ fourIdle.Sending 0 ∧ ¬ fourIdle.Receiving 0 := by decide
    exact h
  · intro p _
    rfl
  · intro p _
    rfl

theorem isTask_fourPids (p : ℕ) : fourPids.IsTask p ↔ 1 ≤ p ∧ p ≤ 4 := by
  constructor
  · rintro ⟨pid, hlive, rfl⟩
    change 1 ≤ pid.toNat ∧ pid.toNat ≤ 4
    have h : 1 ≤ pid ∧ pid ≤ 4 := hlive
    omega
  · intro h
    refine ⟨p, ?_, rfl⟩
    change (1 : ℤ) ≤ p ∧ (p : ℤ) ≤ 4
    omega

instance (pid : ℤ) : Decidable (fourPids.live pid) :=
  inferInstanceAs (Decidable (1 ≤ pid ∧ pid ≤ 4))

instance (s : State) (p : ℕ) : Decidable (Runs fourPids s p) :=
  decidable_of_iff ((1 ≤ p ∧ p ≤ 4) ∧ ¬ s.Sending p ∧ ¬ s.Receiving p)
    ⟨fun h => ⟨(isTask_fourPids p).mpr h.1, h.2.1, h.2.2⟩,
      fun h => ⟨(isTask_fourPids p).mp h.task, h.not_sending, h.not_receiving⟩⟩

instance (s : State) (e : Event) : Decidable (e.Valid fourPids s) :=
  match e with
  | .send _ _ _ => inferInstanceAs (Decidable (_ ∧ _))
  | .receive _ _ _ => inferInstanceAs (Decidable (_ ∧ _))
  | .write p _ _ => inferInstanceAs (Decidable (Runs fourPids s p))

instance (s : State) (e : Event) : Decidable (e.Spares fourPids s) :=
  decidable_of_iff (∀ q ∈ range' 1 4, s.Sending q → e.target fourPids s ≠ some (s.task q).pMsg) (by
    simp only [Event.Spares, isTask_fourPids, mem_range'_1]
    exact forall_congr' fun q => imp_congr_left (and_congr_right fun _ => Nat.lt_succ_iff))

/-- The processes 2 and 3 send to the process 1, which receives from anybody: the message of the
process 2 comes first. -/
theorem rendezvous_of_run_fourPids : ∃ s h,
    Run fourPids (fun s e => e.Spares fourPids s) fourIdle s h ∧ Rendezvous fourPids s h ∧
      deliveredFrom h 2 <+: sentBy h 2 ∧
      deliveredFrom h 2 = [(1, ⟨0, 20, 0⟩)] ∧ waiting h 1 = [3] := by
  have hstart : Run fourPids (fun s e => e.Spares fourPids s) fourIdle fourIdle [] := .start
  have hrun := ((hstart.step 3
    (e := .send 2 1 20) (by decide) (by decide) rfl).step 3
    (e := .send 3 1 30) (by decide) (by decide) rfl).step 3
    (e := .receive 1 any 10) (by decide) (by decide) rfl
  obtain ⟨hr, hintact, -, -⟩ := rendezvous_of_run _ _ _ _ _ fourIdle_idle hrun
  exact ⟨_, _, hrun, hr, hintact (fun _ _ h => h) 2 ((isTask_fourPids 2).mpr (by decide)), rfl, rfl⟩

/-- **A shared buffer.**  The process 2 waits with the buffer 20, and the process 4 receives into
the same buffer: the message of the process 2 that is delivered is the one of the process 3. -/
theorem shared_buffer_modifies : ∃ T s₀ s h, Idle T s₀ ∧ Run T (fun _ _ => True) s₀ s h ∧
    ∃ q, T.IsTask q ∧ ¬ deliveredFrom h q <+: sentBy h q := by
  have hstart : Run fourPids (fun _ _ => True) fourIdle fourIdle [] := .start
  have hrun := (((hstart.step 3
    (e := .send 2 1 20) (by decide) trivial rfl).step 3
    (e := .receive 4 any 20) (by decide) trivial rfl).step 3
    (e := .send 3 4 30) (by decide) trivial rfl).step 3
    (e := .receive 1 any 10) (by decide) trivial rfl
  exact ⟨_, _, _, _, fourIdle_idle, hrun, 2, (isTask_fourPids 2).mpr (by decide), by decide⟩

/-! ## `sys_sendrec` -/

/-- A call of `sys_sendrec` is a write of the caller into its own buffer, which sets the source,
followed by the call that it asks for. -/
theorem sysSendrec_step {T : Pids} {s : State} {m : ℕ} {function srcDest : ℤ} (hm : m ≠ 0)
    (he : function = send ∧ e = .send p srcDest m ∨
      function = receive ∧ e = .receive p srcDest m) :
    ∃ s₁, step T fuel s (.write p m { s.mem m with source := T.proc2pid p }) = some (s₁, []) ∧
      (s₁.mem m).source = T.proc2pid p ∧
      (sysSendrec T fuel s function srcDest m p).map Prod.fst = (step T fuel s₁ e).map Prod.fst := by
  refine ⟨_, rfl, ?_, ?_⟩
  · dsimp only
    rw [update_self]
  · unfold sysSendrec
    rw [if_neg hm]
    rcases he with ⟨rfl, rfl⟩ | ⟨rfl, rfl⟩
    · rw [step, if_pos rfl, Option.map_map]
      rfl
    · rw [step, if_neg (by decide), if_pos rfl]

end Ipc

end Yap
