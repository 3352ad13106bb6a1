/-
# The transmit path (`net/netif.c`, `driver/net/DM9000.c`)

The DM9000 holds two frames: the one on the wire and one that has been written to its
memory.  `DM9000_sendPcket` starts a frame at once when the chip is idle, and otherwise
loads it, keeps its length in `queue_pkt_len` and stops the queue; from then on
`netif_tx_queue` collects buffers in `ndev->tx_queue`.  `dm9000_tx_done` starts the loaded
frame and wakes the queue, which loads the next buffer from inside the interrupt.

The chip is modelled by its transmit memory and by what it puts on the wire when the start
bit is set: as many bytes as `TXPLH` and `TXPLL` say, from the oldest frame in its memory.
`transmit_fifo` is the result: whatever the order of submissions and interrupts, the wire
carries the submitted frames, each once, in order and with its own length.
-/
import Yap.Bytes
import Yap.ListHead
import Yap.Bitops

namespace Yap

namespace TxQueue

open List BitVec

/-- `&ndev->tx_queue`, `&skb->list`, and the null pointer. -/
inductive Node : Type where
  | txQueue : Node
  | list (skb : ℕ) : Node
  | null : Node
  deriving DecidableEq, Repr

/-- `list_entry(list, struct sk_buff, list)`; the head of the queue is no buffer and is
read as buffer `0`. -/
def Node.entry : Node → ℕ
  | .list i => i
  | .txQueue => 0
  | .null => 0

/-- The fields of `struct sk_buff` that the transmit path uses. -/
structure SkBuff where
  useFlag : Bool
  dataBuf : List Byte
  dataLen : BitVec 16
  deriving DecidableEq, Repr

/-- Bytes and their number, as they go over the wire. -/
structure Frame where
  bytes : List Byte
  len : BitVec 16
  deriving DecidableEq, Repr

/-- The frame a buffer stands for. -/
def SkBuff.frame (skb : SkBuff) : Frame where
  bytes := (range skb.dataLen.toNat).map (fun i => skb.dataBuf.getD i 0)
  len := skb.dataLen

/-- The driver, the device and its queue. -/
structure State where
  /-- the words from `&ndev->state` on -/
  state : WordMap
  links : Links Node
  skb : ℕ → SkBuff
  txPktCnt : BitVec 32
  queuePktLen : BitVec 32
  txplh : Byte
  txpll : Byte
  /-- the frames in the chip's transmit memory that have not been started -/
  sram : List (List Byte)
  /-- what has been put on the wire -/
  started : List Frame
  /-- how many transmissions have ended -/
  ended : ℕ
  /-- what has been given to `netif_tx_queue` -/
  submitted : List Frame
  /-- how often `NETDEV_TX_BUSY` was returned -/
  busy : ℕ

/-- `__QUEUE_STATE_XOFF`. -/
def queueStateXoff : ℕ := 0

def NETDEV_TX_OK : ℤ := 0
def NETDEV_TX_BUSY : ℤ := 1

/-! ## The functions -/

/-- `dm9000_reg_write(DM9000_TCR, 0x01)`: the chip sends the oldest frame in its memory. -/
def startTransmit (s : State) : State :=
  let len := s.txplh ++ s.txpll
  { s with
    started := s.started ++ [{ bytes := (s.sram.headD []).take len.toNat, len := len }]
    sram := s.sram.tail }

/-- The length registers are written and transmission is started. -/
def programTransmit (s : State) (len : BitVec 32) : State :=
  startTransmit { s with
    txplh := ((len >>> 8) &&& 0x0ff).setWidth 8
    txpll := (len &&& 0x0ff).setWidth 8 }

/-- `for (i = 0; i < len; i += 2) DM_CMD = datas[i] | (datas[i+1] << 8);`, the bytes that
reach the chip. -/
def writeData (datas : ℕ → Byte) (len : ℕ) : List Byte :=
  (range ((len + 1) / 2)).flatMap (fun k => [datas (2 * k), datas (2 * k + 1)])

/-- `netif_stop_queue(ndev)`. -/
def netifStopQueue (s : State) : State := { s with state := setBit queueStateXoff s.state }

/-- `free_skbuff(skb)`. -/
def freeSkbuff (s : State) (i : ℕ) : State :=
  let links := listRemove s.links (.list i)
  { s with
    links := (links.setNext (.list i) .null).setPrev (.list i) .null
    skb := Function.update s.skb i { useFlag := false, dataBuf := [], dataLen := 0 } }

/-- `DM9000_sendPcket(skb, ndev)`. -/
def dm9000SendPcket (s : State) (i : ℕ) : ℤ × State :=
  let datas := fun j => (s.skb i).dataBuf.getD j 0
  let len : BitVec 32 := (s.skb i).dataLen.setWidth 32
  if s.txPktCnt > 1 then (NETDEV_TX_BUSY, { s with busy := s.busy + 1 })
  else
    let s := { s with txPktCnt := s.txPktCnt + 1, sram := s.sram ++ [writeData datas len.toNat] }
    let s := if s.txPktCnt = 1 then programTransmit s len
      else netifStopQueue { s with queuePktLen := len }
    (NETDEV_TX_OK, freeSkbuff s i)

/-- `__netif_schedule(ndev)`. -/
def netifSchedule (s : State) : State :=
  if listEmpty s.links .txQueue then s
  else if testBit queueStateXoff s.state then s
  else (dm9000SendPcket s (s.links.next .txQueue).entry).2

/-- `netif_wake_queue(ndev)`. -/
def netifWakeQueue (s : State) : State :=
  netifSchedule { s with state := clearBit queueStateXoff s.state }

/-- `netif_tx_queue(ndev, skb)`. -/
def netifTxQueue (s : State) (i : ℕ) : ℤ × State :=
  if testBit queueStateXoff s.state then
    (0, { s with links := listAddTail s.links (.list i) .txQueue })
  else dm9000SendPcket s i

/-- `DM9000_NSR` says that a transmission has ended: `TX1END` or `TX2END`. -/
def txEnd (nsr : BitVec 16) : Bool := nsr &&& ((1 <<< 2) ||| (1 <<< 3)) ≠ 0

/-- `dm9000_tx_done(ndev)` when the status register reads `nsr`. -/
def dm9000TxDone (s : State) (nsr : BitVec 16) : State :=
  if txEnd nsr then
    let s := { s with txPktCnt := s.txPktCnt - 1, ended := s.ended + 1 }
    let s := if s.txPktCnt > 0 then programTransmit s s.queuePktLen else s
    netifWakeQueue s
  else s

/-! ## Runs -/

/-- A buffer is taken (`alloc_skbuff`) and filled. -/
def takeSkbuff (s : State) (i : ℕ) (dataBuf : List Byte) (dataLen : BitVec 16) : State :=
  { s with
    links := initListHead s.links (.list i)
    skb := Function.update s.skb i { useFlag := true, dataBuf := dataBuf, dataLen := dataLen } }

/-- A buffer is taken, filled and submitted. -/
def submit (s : State) (i : ℕ) (dataBuf : List Byte) (dataLen : BitVec 16) : State :=
  let s := takeSkbuff s i dataBuf dataLen
  (netifTxQueue { s with submitted := s.submitted ++ [(s.skb i).frame] } i).2

/-- A submission, or a transmit-done interrupt; the end of a transmission is only
signalled while one is going on. -/
inductive Step : State → State → Prop
  | submit (s : State) (i : ℕ) (dataBuf : List Byte) (dataLen : BitVec 16)
      (h : (s.skb i).useFlag = false) : Step s (submit s i dataBuf dataLen)
  | txDone (s : State) (nsr : BitVec 16) (h : txEnd nsr → s.ended < s.started.length) :
      Step s (dm9000TxDone s nsr)

/-- The device after initialisation, with all buffers free. -/
def init : State where
  state := fun _ => 0
  links := { next := fun x => if x = .txQueue then .txQueue else .null
             prev := fun x => if x = .txQueue then .txQueue else .null }
  skb := fun _ => { useFlag := false, dataBuf := [], dataLen := 0 }
  txPktCnt := 0
  queuePktLen := 0
  txplh := 0
  txpll := 0
  sram := []
  started := []
  ended := 0
  submitted := []
  busy := 0

/-- The states of a run. -/
def Reaches (s : State) : Prop := Relation.ReflTransGen Step init s

/-! ## Lengths and bytes -/

/-- The two length registers together hold the length of a frame. -/
theorem programmed_len (len : BitVec 16) :
    (((len.setWidth 32 >>> 8) &&& 0x0ff#32).setWidth 8 ++
      (len.setWidth 32 &&& 0x0ff#32).setWidth 8 : BitVec 16) = len := by
  have hff : ∀ j < 8, (0xff#32).getLsbD j = true := by decide
  apply eq_of_getLsbD_eq
  intro i hi
  rw [getLsbD_append]
  by_cases h : i < 8
  · rw [if_pos h]
    simp only [getLsbD_setWidth, getLsbD_and, hff i h, h, decide_true, Bool.true_and,
      Bool.and_true, show i < 32 by omega]
  · rw [if_neg h]
    simp only [getLsbD_setWidth, getLsbD_and, getLsbD_ushiftRight,
      hff (i - 8) (by omega), show i - 8 < 8 by omega, show 8 + (i - 8) = i by omega, decide_true,
      Bool.true_and, Bool.and_true, show i < 32 by omega]

/-- The chip gets the data in order, two bytes at a time. -/
theorem flatMap_pairs (datas : ℕ → Byte) (n : ℕ) :
    (range n).flatMap (fun k => [datas (2 * k), datas (2 * k + 1)]) =
      (range (2 * n)).map datas := by
  induction n with
  | zero => rfl
  | succ n ih =>
    rw [range_succ, flatMap_append, ih, show 2 * (n + 1) = 2 * n + 1 + 1 by omega,
      range_succ, range_succ]
    simp

/-- Of what was written, the first `len` bytes are the frame's. -/
theorem take_writeData (datas : ℕ → Byte) (len : ℕ) :
    (writeData datas len).take len = (range len).map datas := by
  rw [writeData, flatMap_pairs, ← map_take, take_range, Nat.min_eq_left (by omega)]

variable {s : State} {loaded : List Frame} {q : List ℕ} {i : ℕ}

/-- Starting a frame with its own length puts that frame on the wire. -/
theorem programTransmit_eq {f : Frame} {e : List Byte} (hsram : s.sram = [e])
    (he : e.take f.len.toNat = f.bytes) :
    ∃ h l, programTransmit s (f.len.setWidth 32) =
      { s with txplh := h, txpll := l, started := s.started ++ [f], sram := [] } := by
  refine ⟨((f.len.setWidth 32 >>> 8) &&& 0x0ff#32).setWidth 8,
    (f.len.setWidth 32 &&& 0x0ff#32).setWidth 8, ?_⟩
  have hlen : ((f.len.setWidth 32 >>> 8) &&& 0x0ff).setWidth 8 ++
      (f.len.setWidth 32 &&& 0x0ff).setWidth 8 = f.len := programmed_len f.len
  unfold programTransmit startTransmit
  simp only [hsram, headD_cons, tail_cons]
  rw [hlen, he]
  rfl

/-! ## The queue's links -/

section Queue

variable {s : State} {q : List ℕ} {i : ℕ}

/-- Writing the links of a node disturbs no ring that it is not on. -/
theorem isRing_set_of_not_mem {l : Links Node} {h n : Node} {xs : List Node}
    (hr : l.IsRing h xs) (hn : n ∉ h :: xs) (a : Node) :
    ((l.setNext n a).setPrev n a).IsRing h xs := by
  refine hr.congr ?_
  intro y hy
  have hne := ne_of_mem_of_not_mem hy hn
  simp [hne]

theorem list_not_mem (hi : i ∉ q) : Node.list i ∉ Node.txQueue :: q.map Node.list := by
  simp [hi]

/-- Freeing the first buffer of the queue takes it off. -/
theorem freeSkbuff_ring_head (hr : s.links.IsRing .txQueue ((i :: q).map Node.list)) :
    (freeSkbuff s i).links.IsRing .txQueue (q.map Node.list) := by
  have hremoved : (listRemove s.links (.list i)).IsRing .txQueue (q.map Node.list) := by
    have h : s.links.IsRing .txQueue ([] ++ Node.list i :: q.map Node.list) := hr
    exact h.remove_mem
  have hi : i ∉ q := by
    have hnodup := (nodup_cons.mp hr.2).2.of_map
    exact (nodup_cons.mp hnodup).1
  exact isRing_set_of_not_mem hremoved (list_not_mem hi) .null

/-- Freeing a buffer that is on no list leaves the queue alone. -/
theorem freeSkbuff_ring (hr : s.links.IsRing .txQueue (q.map Node.list)) (hi : i ∉ q)
    (hself : s.links.IsRing (.list i) []) :
    (freeSkbuff s i).links.IsRing .txQueue (q.map Node.list) := by
  obtain ⟨hnext, hprev⟩ := (Links.isRing_nil_iff _ _).mp hself
  have hmem := list_not_mem hi
  have hremoved : (listRemove s.links (.list i)).IsRing .txQueue (q.map Node.list) :=
    hr.frame_remove hmem (by rwa [hnext]) (by rwa [hprev])
  exact isRing_set_of_not_mem hremoved hmem .null

theorem freeSkbuff_skb_of_ne {j : ℕ} (h : j ≠ i) : (freeSkbuff s i).skb j = s.skb j :=
  Function.update_of_ne h _ _

/-- Freeing a buffer keeps the frames of the others. -/
theorem frames_freeSkbuff (hi : i ∉ q) :
    q.map (fun j => ((freeSkbuff s i).skb j).frame) = q.map (fun j => (s.skb j).frame) := by
  apply map_congr_left
  intro j hj
  have hji := ne_of_mem_of_not_mem hj hi
  rw [freeSkbuff_skb_of_ne hji]

end Queue

/-! ## Handing a frame to the chip -/

section Send

variable {s : State} (i : ℕ)

/-- The data written for a buffer begin with its frame. -/
theorem take_written : (writeData (fun j => (s.skb i).dataBuf.getD j 0)
    ((s.skb i).dataLen.setWidth 32).toNat).take (s.skb i).frame.len.toNat =
      (s.skb i).frame.bytes := by
  have hlen : ((s.skb i).dataLen.setWidth 32).toNat = (s.skb i).dataLen.toNat :=
    toNat_setWidth_of_le (by decide)
  exact take_writeData _ _

/-- An idle chip starts the frame. -/
theorem sendPcket_idle (hcnt : s.txPktCnt = 0) (hsram : s.sram = []) :
    ∃ h l, dm9000SendPcket s i = (NETDEV_TX_OK, freeSkbuff { s with
      txPktCnt := 1, txplh := h, txpll := l, started := s.started ++ [(s.skb i).frame]
      sram := [] } i) := by
  obtain ⟨h, l, hprogram⟩ := programTransmit_eq (f := (s.skb i).frame)
    (s := { s with txPktCnt := 1, sram := [writeData (fun j => (s.skb i).dataBuf.getD j 0)
      ((s.skb i).dataLen.setWidth 32).toNat] }) rfl (take_written i)
  refine ⟨h, l, ?_⟩
  have hroom : ¬ (0 : BitVec 32) > 1 := by decide
  rw [dm9000SendPcket, hcnt, if_neg hroom, hsram]
  exact congrArg (fun t => (NETDEV_TX_OK, freeSkbuff t i)) hprogram

/-- A chip with a frame on the wire loads the next one, and the queue is stopped. -/
theorem sendPcket_sending (hcnt : s.txPktCnt = 1) (hsram : s.sram = []) :
    ∃ e, e.take (s.skb i).frame.len.toNat = (s.skb i).frame.bytes ∧
      dm9000SendPcket s i = (NETDEV_TX_OK, freeSkbuff { s with
        txPktCnt := 2, sram := [e], queuePktLen := (s.skb i).frame.len.setWidth 32
        state := setBit queueStateXoff s.state } i) := by
  refine ⟨_, take_written i, ?_⟩
  have hroom : ¬ (1 : BitVec 32) > 1 := by decide
  rw [dm9000SendPcket, hcnt, if_neg hroom, hsram]
  rfl

end Send

/-! ## The invariant -/

/-- The states of the chip, with the loaded frame and the queue: idle; a frame on the
wire; a frame on the wire and one loaded.  Only the last one stops the queue. -/
inductive Mode (s : State) : List Frame → List ℕ → Prop
  | idle : s.ended = s.started.length → s.txPktCnt = 0 →
      testBit queueStateXoff s.state = false → s.sram = [] → Mode s [] []
  | sending : s.ended + 1 = s.started.length → s.txPktCnt = 1 →
      testBit queueStateXoff s.state = false → s.sram = [] → Mode s [] []
  | full {f : Frame} {e : List Byte} {q : List ℕ} : s.ended + 1 = s.started.length →
      s.txPktCnt = 2 → testBit queueStateXoff s.state = true → s.sram = [e] →
      e.take f.len.toNat = f.bytes → s.queuePktLen = f.len.setWidth 32 → Mode s [f] q

/-- The queue's ring holds `q`, and what was submitted is what was started, then the
loaded frame, then the queue. -/
structure Inv (s : State) (loaded : List Frame) (q : List ℕ) : Prop where
  mode : Mode s loaded q
  ring : s.links.IsRing .txQueue (q.map Node.list)
  used : ∀ i ∈ q, (s.skb i).useFlag = true
  order : s.submitted = s.started ++ loaded ++ q.map (fun i => (s.skb i).frame)
  busy : s.busy = 0

theorem inv_init : Inv init [] [] where
  mode := .idle rfl rfl (by decide) rfl
  ring := by
    rw [map_nil, Links.isRing_nil_iff]
    exact ⟨rfl, rfl⟩
  used := by simp
  order := rfl
  busy := rfl

/-- Taking a buffer that is not in use leaves everything in order. -/
theorem Inv.takeSkbuff (h : Inv s loaded q) (hi : i ∉ q) (dataBuf : List Byte)
    (dataLen : BitVec 16) :
    Inv (takeSkbuff s i dataBuf dataLen) loaded q := by
  have hkeep : ∀ j ∈ q, (TxQueue.takeSkbuff s i dataBuf dataLen).skb j = s.skb j := by
    intro j hj
    apply Function.update_of_ne
    rintro rfl
    exact hi hj
  refine ⟨?_, isRing_set_of_not_mem h.ring (list_not_mem hi) (.list i), ?_, ?_, h.busy⟩
  · cases h.mode with
    | idle h1 h2 h3 h4 => exact .idle h1 h2 h3 h4
    | sending h1 h2 h3 h4 => exact .sending h1 h2 h3 h4
    | full h1 h2 h3 h4 h5 h6 => exact .full h1 h2 h3 h4 h5 h6
  · intro j hj
    rw [hkeep j hj]
    exact h.used j hj
  · have hframes : q.map (fun j => ((TxQueue.takeSkbuff s i dataBuf dataLen).skb j).frame) =
        q.map (fun j => (s.skb j).frame) := by
      apply map_congr_left
      intro j hj
      rw [hkeep j hj]
    rw [hframes]
    exact h.order

/-- A submission goes on the wire, into the chip or on the queue. -/
theorem inv_netifTxQueue (h : Inv s loaded q) (hi : i ∉ q) (hself : s.links.IsRing (.list i) [])
    (hused : (s.skb i).useFlag = true) :
    ∃ loaded' q', Inv (netifTxQueue { s with
      submitted := s.submitted ++ [(s.skb i).frame] } i).2 loaded' q' := by
  have horder := h.order
  rw [netifTxQueue]
  cases h.mode with
  | idle hended hcnt hxoff hsram =>
    simp only [hxoff, Bool.false_eq_true, if_false]
    obtain ⟨h', l', hsend⟩ := sendPcket_idle
      (s := { s with submitted := s.submitted ++ [(s.skb i).frame] }) i hcnt hsram
    rw [hsend]
    refine ⟨[], [], .sending ?_ rfl hxoff rfl, freeSkbuff_ring h.ring hi hself, by simp, ?_,
      h.busy⟩
    · simp [freeSkbuff, hended]
    · simp [freeSkbuff, horder]
  | sending hended hcnt hxoff hsram =>
    simp only [hxoff, Bool.false_eq_true, if_false]
    obtain ⟨e, he, hsend⟩ := sendPcket_sending
      (s := { s with submitted := s.submitted ++ [(s.skb i).frame] }) i hcnt hsram
    rw [hsend]
    refine ⟨[_], [], .full hended rfl (testBit_setBit _ _) rfl he rfl,
      freeSkbuff_ring h.ring hi hself, by simp, ?_, h.busy⟩
    simp [freeSkbuff, horder]
  | @full f e _ hended hcnt hxoff hsram he hlen =>
    simp only [hxoff, if_true]
    refine ⟨[f], q ++ [i], .full hended hcnt hxoff hsram he hlen, ?_, ?_, ?_, h.busy⟩
    · rw [map_append]
      exact h.ring.link_tail (list_not_mem hi)
    · intro j hj
      rcases mem_append.mp hj with hj | hj
      · exact h.used j hj
      · rw [mem_singleton.mp hj]
        exact hused
    · simp [horder]

theorem inv_submit (h : Inv s loaded q) (hi : (s.skb i).useFlag = false) (dataBuf : List Byte)
    (dataLen : BitVec 16) :
    ∃ loaded' q', Inv (submit s i dataBuf dataLen) loaded' q' := by
  have hiq : i ∉ q := by
    intro hmem
    rw [h.used i hmem] at hi
    exact absurd hi (by decide)
  apply inv_netifTxQueue (h.takeSkbuff hiq dataBuf dataLen) hiq
  · exact Links.isRing_selfLink _ _
  · simp [takeSkbuff]

/-- Waking the queue with room in the chip loads its first buffer. -/
theorem inv_netifWakeQueue (hended : s.ended + 1 = s.started.length) (hcnt : s.txPktCnt = 1)
    (hsram : s.sram = []) (hring : s.links.IsRing .txQueue (q.map Node.list))
    (hused : ∀ i ∈ q, (s.skb i).useFlag = true)
    (horder : s.submitted = s.started ++ q.map (fun i => (s.skb i).frame)) (hbusy : s.busy = 0) :
    (∃ loaded' q', Inv (netifWakeQueue s) loaded' q') ∧
      (netifWakeQueue s).started = s.started ∧ (netifWakeQueue s).submitted = s.submitted := by
  rw [netifWakeQueue, netifSchedule]
  cases q with
  | nil =>
    have hempty : listEmpty s.links .txQueue = true :=
      decide_eq_true (hring.next_head_eq_iff.mpr rfl)
    rw [if_pos hempty]
    exact ⟨⟨[], [], .sending hended hcnt (testBit_clearBit _ _) hsram, hring, hused,
      by simpa using horder, hbusy⟩, rfl, rfl⟩
  | cons i q =>
    have hnext : s.links.next .txQueue = .list i := hring.next_head
    have hempty : ¬ listEmpty s.links .txQueue = true := by
      rw [listEmpty, hnext]
      simp
    have hiq : i ∉ q := by
      have hnodup := (nodup_cons.mp hring.2).2.of_map
      exact (nodup_cons.mp hnodup).1
    obtain ⟨e, he, hsend⟩ := sendPcket_sending
      (s := { s with state := clearBit queueStateXoff s.state }) i hcnt hsram
    simp only [if_neg hempty, testBit_clearBit, Bool.false_eq_true, if_false, hnext, Node.entry,
      hsend]
    refine ⟨⟨[_], q, .full hended rfl (testBit_setBit _ _) rfl he rfl, freeSkbuff_ring_head hring,
      ?_, ?_, hbusy⟩, rfl, rfl⟩
    · intro j hj
      have hji := ne_of_mem_of_not_mem hj hiq
      rw [freeSkbuff_skb_of_ne hji]
      exact hused j (mem_cons_of_mem _ hj)
    · rw [frames_freeSkbuff hiq]
      exact horder.trans (by simp [freeSkbuff])

/-- The end of a transmission starts the loaded frame and loads the next one. -/
theorem inv_txDone (h : Inv s loaded q) {nsr : BitVec 16} (hend : txEnd nsr)
    (houtstanding : s.ended < s.started.length) :
    (∃ loaded' q', Inv (dm9000TxDone s nsr) loaded' q') ∧
      (dm9000TxDone s nsr).started = s.started ++ loaded ∧
      (dm9000TxDone s nsr).submitted = s.submitted := by
  have horder := h.order
  rw [dm9000TxDone, if_pos hend]
  cases h.mode with
  | idle hended _ _ _ => omega
  | sending hended hcnt hxoff hsram =>
    -- the chip runs idle, and there is nothing on the queue
    have hempty : listEmpty s.links .txQueue = true :=
      decide_eq_true (h.ring.next_head_eq_iff.mpr rfl)
    have hzero : ¬ (1 : BitVec 32) - 1 > 0 := by decide
    simp only [hcnt, if_neg hzero, netifWakeQueue, netifSchedule, hempty, if_true]
    refine ⟨⟨[], [], .idle hended rfl (testBit_clearBit _ _) hsram, h.ring, h.used, horder,
      h.busy⟩, ?_, trivial⟩
    exact (append_nil _).symm
  | @full f e _ hended hcnt hxoff hsram he hlen =>
    have hpos : (2 : BitVec 32) - 1 > 0 := by decide
    obtain ⟨h', l', hprogram⟩ := programTransmit_eq (f := f) (e := e)
      (s := { s with txPktCnt := 2 - 1, ended := s.ended + 1, queuePktLen := f.len.setWidth 32 })
      hsram he
    simp only [hcnt, if_pos hpos, hlen, hprogram]
    refine inv_netifWakeQueue ?_ rfl rfl h.ring h.used ?_ h.busy
    · simp [← hended]
    · simp [horder]

theorem inv_reaches (h : Reaches s) : ∃ loaded q, Inv s loaded q := by
  induction h with
  | refl => exact ⟨[], [], inv_init⟩
  | tail _ hstep ih =>
    obtain ⟨loaded, q, hinv⟩ := ih
    cases hstep with
    | submit i dataBuf dataLen hi => exact inv_submit hinv hi dataBuf dataLen
    | txDone nsr hnsr =>
      by_cases hend : txEnd nsr
      · exact (inv_txDone hinv hend (hnsr hend)).1
      · rw [dm9000TxDone, if_neg hend]
        exact ⟨loaded, q, hinv⟩

/-- As long as a frame waits, one is on the wire. -/
theorem Mode.outstanding (h : Mode s loaded q) :
    loaded ++ q.map (fun i => (s.skb i).frame) = [] ∨ s.ended < s.started.length := by
  cases h with
  | idle => exact Or.inl rfl
  | sending hended => exact Or.inr (by omega)
  | full hended => exact Or.inr (by omega)

/-- **The transmit queue is first in, first out, and loses nothing.**  In every state of
every run: the counter is at most 2, the queue is stopped exactly when it is 2 and holds
buffers only then, the driver has never refused one, and the frames started are the
submitted ones up to those that wait, bytes and programmed lengths; while one waits, a
transmission is going on. -/
theorem transmit_fifo {s : State} (h : Reaches s) :
    s.txPktCnt ≤ 2 ∧ (testBit queueStateXoff s.state = true ↔ s.txPktCnt = 2) ∧
      (listEmpty s.links .txQueue = false → testBit queueStateXoff s.state = true) ∧
      s.busy = 0 ∧
      ∃ waiting, s.submitted = s.started ++ waiting ∧
        (waiting = [] ∨ s.ended < s.started.length) := by
  obtain ⟨loaded, q, hinv⟩ := inv_reaches h
  have hempty : listEmpty s.links .txQueue = decide (q = []) := by
    rw [listEmpty, decide_eq_decide, hinv.ring.next_head_eq_iff, map_eq_nil_iff]
  have hwaiting : ∃ waiting, s.submitted = s.started ++ waiting ∧
      (waiting = [] ∨ s.ended < s.started.length) :=
    ⟨_, by rw [hinv.order, List.append_assoc], hinv.mode.outstanding⟩
  refine ⟨?_, ?_, ?_, hinv.busy, hwaiting⟩
  · cases hinv.mode with
    | idle _ hcnt => rw [hcnt]; decide
    | sending _ hcnt => rw [hcnt]; decide
    | full _ hcnt => rw [hcnt]; decide
  · cases hinv.mode with
    | idle _ hcnt hxoff => rw [hcnt, hxoff]; decide
    | sending _ hcnt hxoff => rw [hcnt, hxoff]; decide
    | full _ hcnt hxoff => rw [hcnt, hxoff]; decide
  · cases hinv.mode with
    | idle => intro hq; rw [hempty] at hq; exact absurd hq (by simp)
    | sending => intro hq; rw [hempty] at hq; exact absurd hq (by simp)
    | full _ _ hxoff => exact fun _ => hxoff

/-- Three frames of one byte are submitted at once, then the first one ends. -/
def threeFrames : State :=
  dm9000TxDone (submit (submit (submit init 0 [10] 1) 1 [11] 1) 2 [12] 1) 4

theorem reaches_threeFrames : Reaches threeFrames := by
  have h0 : Reaches init := Relation.ReflTransGen.refl
  have h1 : Reaches (submit init 0 [10] 1) := h0.tail (.submit _ 0 _ _ (by decide))
  have h2 : Reaches (submit (submit init 0 [10] 1) 1 [11] 1) :=
    h1.tail (.submit _ 1 _ _ (by decide))
  have h3 : Reaches (submit (submit (submit init 0 [10] 1) 1 [11] 1) 2 [12] 1) :=
    h2.tail (.submit _ 2 _ _ (by decide))
  exact h3.tail (.txDone _ 4 (by decide))

theorem transmit_fifo_threeFrames :
    threeFrames.started = [⟨[10], 1⟩, ⟨[11], 1⟩] ∧ threeFrames.busy = 0 ∧
      ∃ waiting, threeFrames.submitted = threeFrames.started ++ waiting ∧
        (waiting = [] ∨ threeFrames.ended < threeFrames.started.length) := by
  have h := transmit_fifo reaches_threeFrames
  exact ⟨by decide, h.2.2.2.1, h.2.2.2.2⟩

/-- Interrupts alone bring every submitted frame on the wire, `n` of them for `n` frames
that wait. -/
theorem wire_drains (n : ℕ) (h : Inv s loaded q) (hn : s.submitted.length = s.started.length + n) :
    ∃ s', Relation.ReflTransGen Step s s' ∧ s'.started = s.submitted := by
  induction n generalizing s loaded q with
  | zero =>
    have horder := h.order
    rw [List.append_assoc] at horder
    have hlen := congrArg List.length horder
    rw [length_append] at hlen
    have hnone := eq_nil_of_length_eq_zero (show
      (loaded ++ q.map (fun i => (s.skb i).frame)).length = 0 by omega)
    rw [hnone, append_nil] at horder
    exact ⟨s, Relation.ReflTransGen.refl, horder.symm⟩
  | succ n ih =>
    -- something waits, so a frame is loaded
    have horder := congrArg List.length h.order
    have hloaded : loaded.length = 1 ∧ s.ended < s.started.length := by
      cases h.mode with
      | idle => simp at horder; omega
      | sending => simp at horder; omega
      | full hended => exact ⟨rfl, by omega⟩
    obtain ⟨⟨loaded', q', hinv⟩, hstarted, hsubmitted⟩ :=
      inv_txDone h (show txEnd 4 by decide) hloaded.2
    obtain ⟨s', hrun, hs'⟩ := ih hinv (by
      rw [hstarted, hsubmitted, length_append]
      omega)
    refine ⟨s', Relation.ReflTransGen.head (.txDone s 4 (fun _ => hloaded.2)) hrun, ?_⟩
    rw [hs', hsubmitted]

end TxQueue

end Yap
