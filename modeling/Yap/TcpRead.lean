/-
# Reading in pieces (`tcp_recv` in `net/inet/tcp.c`)

A reader does not see the segments in the receive queue.  It sees a queue of bytes: those of the
segments one after another, without the `read_ptr` bytes of the first segment that it has got
already (`Sock.unread`).  A call of `tcp_recv` takes the first `len` of them, or all that are left
(`Readable.recv`), so that a sequence of calls gets the same bytes whatever its lengths are
(`reads_compose`).

`freedBy` notes the buffers that the loop of `tcp_recv` gives to `free_skbuff`, which also takes
them off the queue.  These are the buffers that have been read to their end, and no others.
-/
import Yap.TcpStream

namespace Yap

namespace Tcp

open List BitVec

/-! ## The queue of bytes -/

/-- The bytes that have arrived and have not been read. -/
def Sock.unread (s : Sock) : List Byte := (s.recvData.flatMap SkBuff.body).drop s.readPtr.toNat

/-- `read_ptr` is inside the first segment, and 0 if there is none. -/
def InHead : List SkBuff → ℕ → Prop
  | [], readPtr => readPtr = 0
  | t :: _, readPtr => readPtr < t.body.length

/-- Every segment has a payload, as long as its header says. -/
def Payloads (q : List SkBuff) : Prop :=
  ∀ t ∈ q, t.body ≠ [] ∧ (tcpGetDataLenght t).toNat = t.body.length

/-- A receive queue of segments with payloads, on a socket without an error. -/
structure Readable (s : Sock) : Prop where
  errno : s.errno = 0
  payloads : Payloads s.recvData
  inHead : InHead s.recvData s.readPtr.toNat
  count : s.recvDataLen.toNat = s.unread.length

/-- The buffers that the loop of `tcp_recv` frees. -/
def freedBy : List SkBuff → BitVec 16 → ℕ → List SkBuff
  | [], _, _ => []
  | skb :: rest, readPtr, remain =>
    let skbDataRemain := (tcpGetDataLenght skb - readPtr).toNat
    if skbDataRemain ≤ remain then skb :: freedBy rest 0 (remain - skbDataRemain) else []

/-- The buffers whose payload lies within the first `n` bytes of the queue. -/
def consumed : ℕ → List SkBuff → List SkBuff
  | _, [] => []
  | n, t :: q => if t.body.length ≤ n then t :: consumed (n - t.body.length) q else []

section

variable {q : List SkBuff} {t : SkBuff} {rp : BitVec 16} {n : ℕ}

theorem Payloads.tail (h : Payloads (t :: q)) : Payloads q := fun u hu =>
  h u (mem_cons_of_mem _ hu)

/-- The next segment is read from its beginning. -/
theorem Payloads.inHead (h : Payloads q) : InHead q (0 : BitVec 16).toNat := by
  cases q with
  | nil => rfl
  | cons t q => exact length_pos_iff.mpr (h t mem_cons_self).1

/-- What is left of the first segment. -/
theorem Payloads.remain (h : Payloads (t :: q)) (hin : InHead (t :: q) rp.toNat) :
    (tcpGetDataLenght t - rp).toNat = t.body.length - rp.toNat := by
  have hlen := (h t mem_cons_self).2
  have hlt : rp.toNat < t.body.length := hin
  rw [toNat_sub_of_le (by rw [le_def, hlen]; omega), hlen]

/-- **The loop of `tcp_recv`** takes `n` bytes off the queue of bytes. -/
theorem recvLoop_unread (h : Payloads q) (hin : InHead q rp.toNat) (n : ℕ) :
    (recvLoop q rp n).1 = ((q.flatMap SkBuff.body).drop rp.toNat).take n ∧
    ((recvLoop q rp n).2.1.flatMap SkBuff.body).drop (recvLoop q rp n).2.2.1.toNat =
      ((q.flatMap SkBuff.body).drop rp.toNat).drop n ∧
    InHead (recvLoop q rp n).2.1 (recvLoop q rp n).2.2.1.toNat ∧
    (recvLoop q rp n).2.2.2 = n - ((q.flatMap SkBuff.body).drop rp.toNat).length := by
  induction q generalizing rp n with
  | nil =>
    refine ⟨?_, ?_, hin, ?_⟩
    · simp [recvLoop]
    · simp [recvLoop]
    · simp [recvLoop]
  | cons t q ih =>
    have hlt : rp.toNat < t.body.length := hin
    have hremain := h.remain hin
    have hdrop : ((t :: q).flatMap SkBuff.body).drop rp.toNat =
        t.body.drop rp.toNat ++ q.flatMap SkBuff.body := by
      rw [flatMap_cons, drop_append_of_le_length hlt.le]
    have hlen : (t.body.drop rp.toNat).length = t.body.length - rp.toNat := length_drop
    rw [hdrop]
    by_cases hle : t.body.length - rp.toNat ≤ n
    · -- the whole rest of the segment is copied
      obtain ⟨hbytes, hrest, hin', hroom⟩ := ih h.tail h.tail.inHead
        (n - (t.body.length - rp.toNat))
      rw [recvLoop_whole hremain hle]
      have hzero : (0 : BitVec 16).toNat = 0 := rfl
      rw [hzero, drop_zero] at hbytes hrest hroom
      refine ⟨?_, ?_, hin', ?_⟩
      · rw [hbytes, take_append, hlen, take_of_length_le (hlen.trans_le hle)]
      · rw [hrest, drop_append, hlen, drop_of_length_le (hlen.trans_le hle),
          nil_append]
      · rw [hroom, length_append, hlen]
        omega
    · -- the room ends inside the segment
      have hsmall : t.body.length < 2 ^ 16 := by
        rw [← (h t mem_cons_self).2]
        exact (tcpGetDataLenght t).isLt
      have hrp : (rp + BitVec.ofNat 16 n).toNat = rp.toNat + n := by
        rw [toNat_add, toNat_ofNat, Nat.add_mod_mod, Nat.mod_eq_of_lt (by omega)]
      rw [recvLoop_part hremain hle]
      refine ⟨?_, ?_, ?_, ?_⟩
      · rw [take_append_of_le_length (by omega)]
      · simp only [hrp]
        rw [← drop_drop, hdrop]
      · show (rp + BitVec.ofNat 16 n).toNat < t.body.length
        omega
      · show 0 = _
        rw [length_append, hlen]
        omega

/-- The buffers that lie within `n` bytes have `n` bytes at most. -/
theorem length_consumed_le (n : ℕ) (q : List SkBuff) :
    ((consumed n q).flatMap SkBuff.body).length ≤ n := by
  induction q generalizing n with
  | nil => exact Nat.zero_le n
  | cons t q ih =>
    unfold consumed
    split_ifs with hle
    · have := ih (n - t.body.length)
      rw [flatMap_cons, length_append]
      omega
    · exact Nat.zero_le n

theorem consumed_of_le (h : t.body.length ≤ n) (q : List SkBuff) :
    consumed n (t :: q) = t :: consumed (n - t.body.length) q := if_pos h

theorem consumed_of_not_le (h : ¬ t.body.length ≤ n) (q : List SkBuff) :
    consumed n (t :: q) = [] := if_neg h

/-- The buffers that are freed are those that have been read to their end, and they leave the
queue. -/
theorem freedBy_eq (h : Payloads q) (hin : InHead q rp.toNat) (n : ℕ) :
    freedBy q rp n = consumed (rp.toNat + n) q ∧ freedBy q rp n ++ (recvLoop q rp n).2.1 = q := by
  induction q generalizing rp n with
  | nil => exact ⟨rfl, rfl⟩
  | cons t q ih =>
    have hlt : rp.toNat < t.body.length := hin
    have hremain := h.remain hin
    unfold freedBy
    simp only [hremain]
    by_cases hle : t.body.length - rp.toNat ≤ n
    · obtain ⟨hfreed, hqueue⟩ := ih h.tail h.tail.inHead (n - (t.body.length - rp.toNat))
      rw [if_pos hle, consumed_of_le (by omega), recvLoop_whole hremain hle]
      refine ⟨?_, ?_⟩
      · have hzero : (0 : BitVec 16).toNat = 0 := rfl
        rw [hfreed, hzero, show 0 + (n - (t.body.length - rp.toNat)) =
          rp.toNat + n - t.body.length by omega]
      · rw [List.cons_append, hqueue]
    · rw [if_neg hle, consumed_of_not_le (by omega), recvLoop_part hremain hle]
      exact ⟨rfl, rfl⟩

/-- Reading `m` bytes more: the buffers behind those that are gone already. -/
theorem consumed_add (n m : ℕ) (q r : List SkBuff) (hq : consumed n q ++ r = q) :
    consumed (n + m) q =
      consumed n q ++ consumed (n - ((consumed n q).flatMap SkBuff.body).length + m) r := by
  induction q generalizing n with
  | nil =>
    obtain ⟨_, hr⟩ := append_eq_nil_iff.mp hq
    rw [hr]
    rfl
  | cons t q ih =>
    by_cases hle : t.body.length ≤ n
    · rw [consumed_of_le hle, List.cons_append, List.cons.injEq] at hq
      have hstep := ih (n - t.body.length) hq.2
      rw [consumed_of_le hle, consumed_of_le (by omega), List.cons_append, flatMap_cons,
        length_append, ← Nat.sub_sub, ← hstep,
        show n + m - t.body.length = n - t.body.length + m by omega]
    · rw [consumed_of_not_le hle, nil_append] at hq
      rw [consumed_of_not_le hle, nil_append, hq]
      rfl

end

/-! ## Calls -/

/-- What a call gives: the value that it returns, the bytes in the buffer of the caller, and the
buffers that it frees. -/
structure RecvOut where
  ret : ℕ
  bytes : List Byte
  freed : List SkBuff
  deriving DecidableEq, Repr

/-- What a call of `tcp_recv` gives once it does not have to wait. -/
def recvOut (s : Sock) (len : ℕ) : RecvOut where
  ret := len - (recvLoop s.recvData s.readPtr len).2.2.2
  bytes := (recvLoop s.recvData s.readPtr len).1
  freed := freedBy s.recvData s.readPtr len

/-- Blocking calls of `tcp_recv` with these lengths, one after another; none of them has to wait. -/
inductive Reads : Sock → List ℕ → List RecvOut → Sock → Prop where
  | nil {s : Sock} : Reads s [] [] s
  | cons {s s₁ s' : Sock} {len : ℕ} {lens : List ℕ} {outs : List RecvOut} :
      tcpRecv s len false = .data (recvOut s len).bytes s₁ → Reads s₁ lens outs s' →
      Reads s (len :: lens) (recvOut s len :: outs) s'

/-- What calls with these lengths return when there are `n` bytes: each the smaller one of its
length and what is left. -/
def returns : ℕ → List ℕ → List ℕ
  | _, [] => []
  | n, len :: lens => min len n :: returns (n - len) lens

section

variable {s s' : Sock}

/-- **Call.**  A call takes `len` bytes off the queue of bytes, or all that are left. -/
theorem Readable.recv (h : Readable s) (hpos : 0 < s.recvDataLen.toNat) (len : ℕ) :
    ∃ s', tcpRecv s len false = .data (recvOut s len).bytes s' ∧ Readable s' ∧
      s'.unread = s.unread.drop len ∧ (recvOut s len).ret = min len s.unread.length ∧
      (recvOut s len).bytes = s.unread.take len ∧
      (recvOut s len).freed = consumed (s.readPtr.toNat + len) s.recvData ∧
      (recvOut s len).freed ++ s'.recvData = s.recvData := by
  obtain ⟨hbytes, hrest, hin, hroom⟩ := recvLoop_unread h.payloads h.inHead len
  obtain ⟨hfreed, hqueue⟩ := freedBy_eq h.payloads h.inHead len
  have hne : s.recvDataLen ≠ 0 := by
    intro h0
    rw [h0] at hpos
    exact absurd hpos (by decide)
  have hret : len - (recvLoop s.recvData s.readPtr len).2.2.2 = min len s.unread.length := by
    rw [hroom, Sock.unread]
    omega
  have hcall : tcpRecv s len false = .data (recvLoop s.recvData s.readPtr len).1 { s with
      recvData := (recvLoop s.recvData s.readPtr len).2.1
      readPtr := (recvLoop s.recvData s.readPtr len).2.2.1
      recvDataLen := s.recvDataLen -
        BitVec.ofNat 32 (len - (recvLoop s.recvData s.readPtr len).2.2.2)
      cpu := s.cpu.enterCritical.exitCritical } := by
    simp only [tcpRecv, Bool.false_and, Bool.false_eq_true, if_false, tcpRecvReady]
    rw [if_neg hne, if_neg (not_not.mpr h.errno)]
    rfl
  refine ⟨_, hcall, ⟨h.errno, ?_, hin, ?_⟩, hrest, hret, hbytes, hfreed, hqueue⟩
  · intro t ht
    refine h.payloads t ?_
    rw [← hqueue]
    exact mem_append_right _ ht
  · have hcount := h.count
    show (s.recvDataLen - BitVec.ofNat 32 (len - _)).toNat = (Sock.unread _).length
    rw [Sock.unread, hrest, hret, length_drop, ← Sock.unread]
    have hmin : (BitVec.ofNat 32 (min len s.unread.length)).toNat = min len s.unread.length := by
      rw [toNat_ofNat, Nat.mod_eq_of_lt]
      omega
    rw [toNat_sub_of_le (by rw [le_def, hmin]; omega), hmin, hcount]
    omega

/-- Behind freed buffers, `read_ptr` is what has been read of the next one. -/
theorem readPtr_after {len : ℕ} {freed : List SkBuff} (h' : Readable s')
    (hrest : s'.unread = s.unread.drop len) (hqueue : freed ++ s'.recvData = s.recvData)
    (hfreed : (freed.flatMap SkBuff.body).length ≤ s.readPtr.toNat + len)
    (hne : s'.recvData ≠ []) :
    s'.readPtr.toNat = s.readPtr.toNat + len - (freed.flatMap SkBuff.body).length := by
  have hlt : s'.readPtr.toNat < (s'.recvData.flatMap SkBuff.body).length := by
    have hin := h'.inHead
    cases hq : s'.recvData with
    | nil => exact absurd hq hne
    | cons t q =>
      rw [hq] at hin
      rw [flatMap_cons, length_append]
      exact Nat.lt_add_right _ hin
  have hlen := congrArg List.length hrest
  simp only [Sock.unread, length_drop] at hlen
  rw [← hqueue, flatMap_append, length_append] at hlen
  omega

/-- The first segment has not been read to its end. -/
theorem Readable.consumed_readPtr (h : Readable s) : consumed s.readPtr.toNat s.recvData = [] := by
  have hin := h.inHead
  cases hq : s.recvData with
  | nil => rfl
  | cons t q =>
    rw [hq] at hin
    exact consumed_of_not_le (Nat.not_le.mpr hin) q

/-- The buffers that are read to their end by a first read and by later ones. -/
theorem consumed_after {len : ℕ} (h' : Readable s') (hrest : s'.unread = s.unread.drop len)
    (hqueue : consumed (s.readPtr.toNat + len) s.recvData ++ s'.recvData = s.recvData) (m : ℕ) :
    consumed (s.readPtr.toNat + len + m) s.recvData =
      consumed (s.readPtr.toNat + len) s.recvData ++
        consumed (s'.readPtr.toNat + m) s'.recvData := by
  rw [consumed_add _ m _ _ hqueue]
  by_cases hne : s'.recvData = []
  · rw [hne]
    rfl
  · rw [readPtr_after h' hrest hqueue (length_consumed_le _ _) hne]

end

/-- **Partial reads compose.**  For every queue of segments with payloads and all calls of
`tcp_recv` that are made while `recv_data_len` is not 0: each call returns the smaller one of its
length and of the bytes left; together they get the first bytes of the queue, as many as they ask
for; `read_ptr` and `recv_data_len` tell what is left; and the buffers that have been read to their
end are freed, the others stay. -/
theorem reads_compose (s : Sock) (lens : List ℕ) (h : Readable s)
    (hcalls : ∀ k < lens.length, (lens.take k).sum < s.recvDataLen.toNat) :
    ∃ outs s', Reads s lens outs s' ∧
      outs.flatMap RecvOut.bytes = s.unread.take lens.sum ∧
      (outs.flatMap RecvOut.bytes).length = min lens.sum s.unread.length ∧
      outs.map RecvOut.ret = returns s.unread.length lens ∧
      Readable s' ∧ s'.unread = s.unread.drop lens.sum ∧
      outs.flatMap RecvOut.freed = consumed (s.readPtr.toNat + lens.sum) s.recvData ∧
      outs.flatMap RecvOut.freed ++ s'.recvData = s.recvData := by
  induction lens generalizing s with
  | nil =>
    refine ⟨[], s, .nil, rfl, (Nat.zero_min _).symm, rfl, h, rfl, ?_, rfl⟩
    rw [sum_nil, Nat.add_zero, flatMap_nil, h.consumed_readPtr]
  | cons len lens ih =>
    obtain ⟨s₁, hcall, h₁, hrest₁, hret₁, hbytes₁, hfreed₁, hqueue₁⟩ :=
      h.recv (hcalls 0 (Nat.succ_pos _)) len
    -- the later calls see a queue without the bytes of the first one
    have hcalls₁ : ∀ k < lens.length, (lens.take k).sum < s₁.recvDataLen.toNat := by
      intro k hk
      have hbefore := hcalls (k + 1) (Nat.succ_lt_succ hk)
      rw [take_succ_cons, sum_cons, h.count] at hbefore
      rw [h₁.count, hrest₁, length_drop]
      omega
    obtain ⟨outs, s', hreads, hbytes, _, hrets, h', hrest, hfreed, hqueue⟩ := ih s₁ h₁ hcalls₁
    have hall : (recvOut s len :: outs).flatMap RecvOut.bytes =
        s.unread.take (len :: lens).sum := by
      rw [flatMap_cons, hbytes₁, hbytes, hrest₁, sum_cons, take_add]
    refine ⟨recvOut s len :: outs, s', .cons hcall hreads, hall, ?_, ?_, h', ?_, ?_, ?_⟩
    · rw [hall, length_take]
    · rw [map_cons, hret₁, hrets, hrest₁, length_drop]
      rfl
    · rw [hrest, hrest₁, drop_drop, sum_cons]
    · rw [flatMap_cons, hfreed, hfreed₁, sum_cons, ← Nat.add_assoc]
      rw [hfreed₁] at hqueue₁
      exact (consumed_after h₁ hrest₁ hqueue₁ lens.sum).symm
    · rw [flatMap_cons, List.append_assoc, hqueue, hqueue₁]

/-- A segment of three bytes, the first of which has been read, and one of two bytes. -/
def readingSock : Sock := { blankSock with
  recvData := [⟨43, 5, 0, 0, 0, false, false, false, true, false, [1, 2, 3], 0⟩,
    ⟨42, 5, 3, 0, 0, false, false, false, true, false, [4, 5], 3⟩]
  readPtr := 1
  recvDataLen := 4 }

/-- Reading them in calls for one, two and nine bytes. -/
theorem reads_compose_readingSock : Readable readingSock ∧ ∃ outs s',
    Reads readingSock [1, 2, 9] outs s' ∧ outs.flatMap RecvOut.bytes = [2, 3, 4, 5] ∧
      outs.map RecvOut.ret = [1, 2, 1] ∧ outs.flatMap RecvOut.freed = readingSock.recvData := by
  have hread : Readable readingSock :=
    ⟨rfl, by unfold Payloads; decide, by show 1 < 3; decide, rfl⟩
  obtain ⟨outs, s', hreads, hbytes, _, hrets, _, _, hfreed, _⟩ :=
    reads_compose readingSock [1, 2, 9] hread (by decide)
  exact ⟨hread, outs, s', hreads, hbytes, hrets, hfreed⟩

end Tcp

end Yap
