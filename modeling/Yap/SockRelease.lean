/-
# Freeing a socket (`net/inet/inet_socket.c`, `driver/timer.c`, `net/inet/tcp.c`)

A socket has two list nodes: `isk->list`, for `active_queue` and `listen_queue`, and the node of
its timer, for the timer list.  `free_isock` takes both out of whatever they are on, frees the
buffers that are queued, clears the memory and gives it back.

Three things decide whether that is right.  `alloc_isocket` initialises `isk->list` but not the
timer, so that `del_timer` is only sound once `add_timer` has been called.  `tcp_connect` links
`isk->list` without looking whether it is linked already.  And no function frees the segments that
wait in the send window.

The state is the links of all nodes, as `lib/list.c` leaves them, with the sockets at their
addresses; what the calls do to the fields of a socket is the model of `Tcp.lean`.  `Place` of
`Layout.lean` is the abstract state over it: it says for each node where it is, and `Wired` says
how this follows from the state of the socket.
-/
import Yap.Layout
import Yap.ListHead
import Yap.TcpClose

namespace Yap

namespace SockRelease

open Tcp Option
open Function (update_self update_of_ne update_eq_self update_idem update)

/-! ## The state -/

/-- The lists that nodes of sockets are on. -/
inductive Queue : Type where
  | active | listen | timers
  deriving DecidableEq, Repr

/-- The `struct list_head`s: `NULL`, the heads of the lists, the two nodes of the socket at an
address, and the timers of other parts of the kernel. -/
inductive Node : Type where
  | null
  | head (q : Queue)
  | list (a : ℕ)
  | timer (a : ℕ)
  | other (k : ℕ)
  deriving DecidableEq, Repr

/-- The links, the sockets at their addresses, and the timers of others that run. -/
structure Net where
  links : Links Node
  isk : ℕ → Option Sock
  /-- ghost: `add_timer` has been called for the socket since it was allocated -/
  armed : ℕ → Bool
  others : ℕ → Bool

/-- What a call sees of the state when it works on one socket. -/
structure View where
  links : Links Node
  isk : Sock
  armed : Bool

/-- The socket at address `a` is as the call leaves it. -/
def Net.put (σ : Net) (a : ℕ) (v : View) : Net where
  links := v.links
  isk := update σ.isk a (some v.isk)
  armed := update σ.armed a v.armed
  others := σ.others

/-- After `tcp_init` and `timer_list_init`; other static memory is zero. -/
def boot : Net where
  links := ⟨fun n => match n with | .head q => .head q | _ => .null,
    fun n => match n with | .head q => .head q | _ => .null⟩
  isk := fun _ => none
  armed := fun _ => false
  others := fun _ => false

/-! ## Timers and sockets -/

/-- `memset(node, 0, sizeof(struct list_head))`. -/
def clear (l : Links Node) (n : Node) : Links Node := (l.setNext n .null).setPrev n .null

/-- `add_timer(&isk->timer)`: nothing happens if the timer is on the list. -/
def addTimer (l : Links Node) (a : ℕ) (s : Sock) : Links Node :=
  if s.timer.isSome then l else listAddTail l (.timer a) (.head .timers)

/-- `del_timer(&isk->timer)`. -/
def delTimer (l : Links Node) (a : ℕ) : Links Node :=
  initListHead (listRemove l (.timer a)) (.timer a)

/-- `alloc_isocket()`, when `kmalloc` returns `a`. -/
def allocIsocket (l : Links Node) (a : ℕ) : Links Node :=
  initListHead (clear (clear l (.list a)) (.timer a)) (.list a)

/-- `free_all_skb(head)`: the buffers that are given to `free_skbuff`. -/
def freeAllSkb {β : Type} : List β → List β
  | [] => []
  | skb :: rest => skb :: freeAllSkb rest

/-- What has been given to `free_skbuff` and to `free_tcp_seg`. -/
structure Freed where
  recvData : List SkBuff
  ackQueue : List Ack
  segs : List TcpSeg

/-- `free_isock(isk)`.  Nothing is ever queued on `send_data_head`, and `free_tcp_seg` is not
called. -/
def freeIsock (σ : Net) (a : ℕ) (s : Sock) : Net × Freed :=
  let l := listRemove σ.links (.list a)
  let recvData := if s.recvData.isEmpty then [] else freeAllSkb s.recvData
  let ackQueue := if s.ackQueue.isEmpty then [] else freeAllSkb s.ackQueue
  let l := delTimer l a
  let l := clear (clear l (.list a)) (.timer a)
  (⟨l, update σ.isk a none, σ.armed, σ.others⟩, ⟨recvData, ackQueue, []⟩)

/-! ## The calls -/

/-- What a call finds outside of the socket. -/
structure Env where
  ticks : BitVec 32
  cpu : IrqMask.Cpu
  answers : List ℤ

def Env.under (e : Env) (s : Sock) : Sock :=
  { s with ticks := e.ticks, cpu := e.cpu, answers := e.answers }

/-- What happens to a socket that exists.  `tcp_bind` writes only the local address. -/
inductive Call : Type where
  /-- `tcp_listen` -/
  | listen
  /-- `tcp_connect` up to its `wait_event`; whether `ip_route` finds a device -/
  | connect (route : Bool)
  /-- `tcp_connect` after its `wait_event` -/
  | connected
  /-- `tcp_received_data_handler`, for a segment that `tcp_find_sock` gives to the socket -/
  | receive (mss : Option (BitVec 16)) (skb : SkBuff)
  /-- `tcp_timer_entry`, from the timer list -/
  | timer
  | send (buf : List Byte) (len : BitVec 32)
  | recv (len : ℕ) (nonblock : Bool)
  | close

/-- `tcp_listen`. -/
def tcpListen (s : Sock) : Sock := if s.status ≠ .closed then s else { s with status := .listen }

/-- `tcp_connect` up to its `wait_event`. -/
def connectView (a : ℕ) (route : Bool) (v : View) : View :=
  if route then
    let r := tcpConnect v.isk
    if r.1 < 0 then { v with isk := r.2 }
    else ⟨listAdd (addTimer v.links a v.isk) (.list a) (.head .active), r.2, true⟩
  -- `-ENETUNREACH`
  else v

/-- `tcp_connect` after its `wait_event`. -/
def connectedView (a : ℕ) (v : View) : View :=
  if v.isk.errno ≠ 0 then { v with links := listRemove v.links (.list a) } else v

/-- The segments that `tcp_connect_request_handler` is called for. -/
def IsRequest (s : Sock) (skb : SkBuff) : Prop :=
  s.status = .listen ∧ skb.rst = false ∧ skb.ack = false ∧ skb.syn = true

instance (s : Sock) (skb : SkBuff) : Decidable (IsRequest s skb) :=
  inferInstanceAs (Decidable (_ ∧ _ ∧ _ ∧ _))

/-- `tcp_received_data_handler`.  Only `tcp_connect_request_handler` changes links; the timer
entries that `tcp_seg_sort` runs do so in no status in which data arrives. -/
def receiveView (a : ℕ) (mss : Option (BitVec 16)) (skb : SkBuff) (v : View) : View :=
  let s := (tcpReceive mss v.isk skb).2
  if IsRequest v.isk skb then
    let l := addTimer v.links a v.isk
    ⟨listAddTail (listRemove l (.list a)) (.list a) (.head .active), s, true⟩
  else { v with isk := s }

/-- `tcp_timer_entry`; `free_isock` is a step of its own. -/
def timerView (a : ℕ) (v : View) : View :=
  let s := sendDelayedAck v.isk
  let s' := timerSwitch s
  match s.status with
  | .synRcvd =>
    if tcpIfTimeout s synRcvdHoldingTime then
      let l := delTimer v.links a
      { v with links := listAddTail (listRemove l (.list a)) (.list a) (.head .listen), isk := s' }
    else { v with isk := s' }
  | .synSent =>
    if s.retries ≠ 0 then
      let r := tcpSendSyn { s with retries := s.retries - 1, timeout := s.ticks.setWidth 16 }
      if r.1 < 0 then { v with links := delTimer v.links a, isk := s' }
      else if (r.2.modTimer 20).1 < 0 then { v with links := delTimer v.links a, isk := s' }
      else { v with isk := s' }
    else { v with links := delTimer v.links a, isk := s' }
  | _ => { v with isk := s' }

/-- The socket after `tcp_recv`. -/
def recvSock (s : Sock) (len : ℕ) (nonblock : Bool) : Sock :=
  match tcpRecv s len nonblock with
  | .wait => s
  | .err _ => s
  | .data _ s' => s'

/-- What a call does; `none` if it is not made, or does not return. -/
def Call.view (a : ℕ) (v : View) : Call → Option View
  | .listen => some { v with isk := tcpListen v.isk }
  | .connect route => some (connectView a route v)
  | .connected => if v.isk.status ≠ .synSent then some (connectedView a v) else none
  | .receive mss skb => some (receiveView a mss skb v)
  | .timer => if v.isk.timer.isSome then some (timerView a v) else none
  | .send buf len => (tcpSend v.isk buf len).map fun r => { v with isk := r.2 }
  | .recv len nonblock => some { v with isk := recvSock v.isk len nonblock }
  | .close => some { v with isk := tcpClose v.isk }

/-- The new socket of `tcp_accept`. -/
def acceptedSock (s : Sock) : Sock :=
  { Sock.zero with
    mss := s.mss, window := s.window, retries := s.retries, status := s.status, listening := true }

/-- What happens to the sockets. -/
inductive Event : Type where
  /-- `inet_socket`, with memory at `a`; whether there is a protocol for the type -/
  | socket (a : ℕ) (known : Bool)
  /-- `tcp_accept` on the socket at `a`, with memory at `b` -/
  | accept (a b : ℕ)
  | call (a : ℕ) (e : Env) (c : Call)
  /-- `free_isock`, at the end of the call that has asked for it -/
  | free (a : ℕ)
  /-- another part of the kernel calls `add_timer` -/
  | other (k : ℕ)

/-- What an event does to the state; `none` if it cannot happen. -/
def Net.apply (σ : Net) : Event → Option Net
  | .socket a known =>
    match σ.isk a with
    | some _ => none
    | none => some (σ.put a ⟨allocIsocket σ.links a, { Sock.zero with freed := !known }, false⟩)
  | .accept a b =>
    match σ.isk a, σ.isk b with
    | some s, none =>
      let l := listAddTail (allocIsocket σ.links b) (.list b) (.head .listen)
      some (σ.put b ⟨l, acceptedSock s, false⟩)
    | _, _ => none
  | .call a e c =>
    match σ.isk a with
    | some s =>
      if s.freed then none
      else (c.view a ⟨σ.links, e.under s, σ.armed a⟩).map (σ.put a)
    | none => none
  | .free a =>
    match σ.isk a with
    | some s => if s.freed then some (freeIsock σ a s).1 else none
    | none => none
  | .other k =>
    if σ.others k then some σ
    else some { σ with
      links := listAddTail σ.links (.other k) (.head .timers)
      others := update σ.others k true }

/-- The state after a sequence of events. -/
def run : List Event → Net → Option Net
  | [], σ => some σ
  | e :: es, σ => (σ.apply e).bind (run es)

/-! ## What freeing is for -/

/-- The node has been initialised, by `INIT_LIST_HEAD` or by being linked. -/
def Initialised (l : Links Node) (n : Node) : Prop := l.next n ≠ .null ∧ l.prev n ≠ .null

/-- **Freeing releases exactly what the socket owns.** -/
structure Releases (σ : Net) (a : ℕ) (s : Sock) : Prop where
  /-- each `list_del` is on an initialised node -/
  initialised : Initialised σ.links (.list a) ∧
    Initialised (listRemove σ.links (.list a)) (.timer a)
  /-- every list loses the two nodes, and nothing else -/
  lists : ∀ q ys, σ.links.IsRing (.head q) ys →
    (freeIsock σ a s).1.links.IsRing (.head q) ((ys.erase (.list a)).erase (.timer a))
  /-- no link leads to them any more -/
  unlinked : ∀ n, n ≠ .null → n ≠ .list a → n ≠ .timer a →
    ∀ m, m = .list a ∨ m = .timer a →
      (freeIsock σ a s).1.links.next n ≠ m ∧ (freeIsock σ a s).1.links.prev n ≠ m
  /-- a node of others that is on no list stays as it is -/
  alone : ∀ n, n ≠ .null → n ≠ .list a → n ≠ .timer a → σ.links.IsRing n [] →
    (freeIsock σ a s).1.links.IsRing n []
  /-- the buffers are freed, each once -/
  buffers : (freeIsock σ a s).2.recvData = s.recvData ∧ (freeIsock σ a s).2.ackQueue = s.ackQueue
  /-- the segments are freed, each once -/
  segs : (freeIsock σ a s).2.segs.Perm s.sendWindow.live
  /-- the other sockets, and the fields of their timers, are as before -/
  others : ∀ b, b ≠ a → (freeIsock σ a s).1.isk b = σ.isk b

/-- The events of an application that connects a socket only when it is on no list. -/
def Orderly (σ : Net) : Event → Prop
  | .call a _ (.connect _) => listEmpty σ.links (.list a) = true
  | _ => True

/-- All events are orderly, each in the state it happens in. -/
def OrderlyRun : List Event → Net → Prop
  | [], _ => True
  | e :: es, σ => Orderly σ e ∧ ∀ τ, σ.apply e = some τ → OrderlyRun es τ

/-! ## What leaves the timer on its list, or off it -/

section Timer

variable (s : Sock)

variable {buf : List Byte} {len : BitVec 32} {r : ℤ × Sock}

@[simp] theorem modTimer_isSome (expires : BitVec 32) :
    (s.modTimer expires).2.timer.isSome = s.timer.isSome := by
  obtain ⟨_, heq, htimer⟩ := modTimer_writes s expires
  rw [heq, htimer]

@[simp] theorem tcpSendAck_timer (seq ackSeq : BitVec 32) (syn fin now : Bool) :
    (tcpSendAck s seq ackSeq syn fin now).2.timer = s.timer := by
  obtain ⟨_, _, _, _, _, heq⟩ := tcpSendAck_writes s seq ackSeq syn fin now
  rw [heq]

theorem tcpSendSyn_timer : (tcpSendSyn s).2.timer = s.timer := by
  obtain ⟨_, _, _, _, heq⟩ := tcpSendSyn_writes s
  rw [heq]

@[simp] theorem tcpAckHandler_timer (skb : SkBuff) : (tcpAckHandler s skb).timer = s.timer := by
  obtain ⟨_, _, _, heq, _⟩ := tcpAckHandler_writes s skb
  rw [heq]

theorem tcpSegSort_isSome (skb : SkBuff) (hs : s.status.connected) :
    (tcpSegSort s skb).2.timer.isSome = s.timer.isSome := by
  unfold tcpSegSort
  split_ifs
  · rfl
  · simp only
    split
    · rfl
    · refine ((attends_acknowledge _ _).connected ?_).2
      exact hs

theorem receiveConnected_isSome (skb : SkBuff) (hs : s.status.connected) :
    (receiveConnected s skb).2.timer.isSome = s.timer.isSome := by
  -- the acknowledgement is handled first, if there is one
  have hack := (attends_ack s skb).1
  unfold receiveConnected
  generalize (if skb.ack = true then tcpAckHandler s skb else s) = t at hack
  obtain ⟨hconn, htimer⟩ := hack.connected hs
  split_ifs
  · rfl
  · simpa [htimer] using ((attends_tcpFinHandler t skb).connected hconn).2
  · rw [← htimer]
    exact tcpSegSort_isSome t skb hconn
  · exact htimer

@[simp] theorem setMss_timer (mss : Option (BitVec 16)) : (setMss mss s).timer = s.timer := by
  cases mss <;> rfl

theorem receiveListen_isSome (mss : Option (BitVec 16)) (skb : SkBuff) (hs : s.status = .listen) :
    (receiveListen mss s skb).2.timer.isSome =
      if IsRequest s skb then true else s.timer.isSome := by
  unfold receiveListen
  by_cases hout : (skb.rst || skb.ack) = true
  · have hno : ¬ IsRequest s skb := by
      rintro ⟨-, hrst, hack, -⟩
      rw [hrst, hack] at hout
      cases hout
    rw [if_pos hout, if_neg hno]
  · rw [if_neg hout]
    rw [Bool.or_eq_true, not_or, Bool.not_eq_true, Bool.not_eq_true] at hout
    cases hsyn : skb.syn with
    | true =>
      have hyes : IsRequest s skb := ⟨hs, hout.1, hout.2, hsyn⟩
      rw [if_pos hyes]
      simp [tcpConnectRequestHandler]
    | false =>
      have hno : ¬ IsRequest s skb := by
        rintro ⟨-, -, -, hreq⟩
        exact absurd (hsyn.symm.trans hreq) nofun
      simp [hno]

/-- **A segment and the timer**: a connection request starts it; no other segment adds it to the
timer list or takes it off. -/
theorem tcpReceive_isSome (mss : Option (BitVec 16)) (skb : SkBuff) :
    (tcpReceive mss s skb).2.timer.isSome =
      if IsRequest s skb then true else s.timer.isSome := by
  -- a request comes to a listening socket only
  have hreq : s.status ≠ .listen → ¬ IsRequest s skb := fun hne h => hne h.1
  unfold tcpReceive receiveSwitch
  cases hs : s.status
  case listen =>
    simp only [receiveHandshake, hs]
    exact receiveListen_isSome s mss skb hs
  all_goals rw [if_neg (hreq (by rw [hs]; decide))]
  case established | closeWait | finWait1 | finWait2 | timeWait =>
    exact receiveConnected_isSome s skb (by rw [hs]; rfl)
  case lastAck => simp
  case synSent =>
    simp only [receiveHandshake, hs, receiveSynSent]
    split_ifs <;> simp [completeEstablish]
  case synRcvd =>
    simp only [receiveHandshake, hs, receiveSynRcvd]
    split_ifs <;> simp [completeEstablish]

theorem allocTcpSeg_timer (len : BitVec 16) : (allocTcpSeg s len).2.timer = s.timer := by
  unfold allocTcpSeg
  simp only [ask_eq]
  split_ifs <;> rfl

theorem doSegment_timer {fuel : ℕ}
    (h : doSegment fuel s buf len = some r) : r.2.timer = s.timer := by
  induction fuel generalizing s buf len with
  | zero => cases h
  | succ fuel ih =>
    unfold doSegment at h
    have halloc := allocTcpSeg_timer s (segLen s len)
    split_ifs at h with hlen
    · obtain rfl := some.inj h
      rfl
    · generalize allocTcpSeg s (segLen s len) = p at h halloc
      obtain ⟨addr, s'⟩ := p
      cases addr with
      | none =>
        obtain rfl := some.inj h
        exact halloc
      | some addr => exact (ih _ h).trans halloc

theorem tcpSend_timer (h : tcpSend s buf len = some r) : r.2.timer = s.timer := by
  unfold tcpSend at h
  split_ifs at h
  · obtain rfl := some.inj h
    rfl
  · exact doSegment_timer s h

theorem recvSock_timer (len : ℕ) (nonblock : Bool) : (recvSock s len nonblock).timer = s.timer := by
  unfold recvSock tcpRecv tcpRecvReady
  split_ifs <;> rfl

theorem tcpClose_timer : (tcpClose s).timer = s.timer := by
  unfold tcpClose
  cases s.status <;> rfl

theorem tcpConnect_timer : (tcpConnect s).1 < 0 ∧ (tcpConnect s).2.timer = s.timer ∨
    ¬ (tcpConnect s).1 < 0 ∧ (tcpConnect s).2.timer = some 10 := by
  unfold tcpConnect
  simp only
  split_ifs with hret
  · exact Or.inl ⟨hret, tcpSendSyn_timer _⟩
  · exact Or.inr ⟨lt_irrefl 0, rfl⟩

end Timer

/-! ## Where the nodes are -/

/-- The links agree with the places. -/
def Lays (l : Links Node) (place : Node → Place Queue) : Prop :=
  ∃ xs, l.Layout Node.head .null xs place

section Lays

variable {l : Links Node} {place : Node → Place Queue} {n : Node}

section

variable (h : Lays l place)

include h

theorem Lays.listAdd (q : Queue) (hn : (place n).Off) :
    Lays (listAdd l n (.head q)) (update place n (.on q)) := by
  obtain ⟨xs, h⟩ := h
  exact ⟨_, h.link_head q hn⟩

theorem Lays.listAddTail (q : Queue) (hn : (place n).Off) :
    Lays (listAddTail l n (.head q)) (update place n (.on q)) := by
  obtain ⟨xs, h⟩ := h
  exact ⟨_, h.link_tail q hn⟩

theorem Lays.listRemove (hn : place n ≠ .pinned) :
    Lays (listRemove l n) (update place n .loose) := by
  obtain ⟨xs, h⟩ := h
  exact ⟨_, h.remove hn⟩

theorem Lays.initListHead (hn : (place n).Off) :
    Lays (initListHead l n) (update place n .loose) := by
  obtain ⟨xs, h⟩ := h
  exact ⟨xs, h.selfLink hn⟩

theorem Lays.clear (hn : (place n).Off) :
    Lays (clear l n) (update place n .unset) := by
  obtain ⟨xs, h⟩ := h
  exact ⟨xs, h.clear hn⟩

theorem Lays.delTimer {a : ℕ} (hn : place (.timer a) ≠ .pinned) :
    Lays (delTimer l a) (update place (.timer a) .loose) := by
  have hinit := (h.listRemove hn).initListHead (n := .timer a) (by simp [Place.Off])
  rwa [update_idem] at hinit

end

end Lays

/-- The place of a socket's timer. -/
def timerPlace (s : Sock) (armed : Bool) : Place Queue :=
  if s.timer.isSome then .on .timers else if armed then .loose else .unset

/-- Where the nodes of the socket at `a` are. -/
structure Placed (place : Node → Place Queue) (a : ℕ) (s : Sock) (armed : Bool) : Prop where
  list : place (.list a) = .on .active ∨ place (.list a) = .on .listen ∨ place (.list a) = .loose
  timer : place (.timer a) = timerPlace s armed
  armed : s.timer.isSome → armed = true

/-- **The state and the links**: the nodes of every socket are where its fields say, and memory
that is no socket is clear. -/
structure Wired (σ : Net) (place : Node → Place Queue) : Prop where
  lays : Lays σ.links place
  live : ∀ a s, σ.isk a = some s → Placed place a s (σ.armed a)
  dead : ∀ a, σ.isk a = none → place (.list a) = .unset ∧ place (.timer a) = .unset
  others : ∀ k, place (.other k) = if σ.others k then .on .timers else .unset

/-- Only the nodes of the socket at `a` have changed their places. -/
def Moves (a : ℕ) (place place' : Node → Place Queue) : Prop :=
  ∀ n, n ≠ .list a → n ≠ .timer a → place' n = place n

/-- What a call on the socket at `a` leaves: links that agree with places, in which the other
nodes are where they were and the nodes of the socket where its fields say. -/
def Advances (a : ℕ) (place : Node → Place Queue) (v : View) : Prop :=
  ∃ place', Moves a place place' ∧ Lays v.links place' ∧ Placed place' a v.isk v.armed

theorem wired_boot : Wired boot
    (fun n => match n with | .null => .pinned | .head _ => .pinned | _ => .unset) := by
  refine ⟨⟨fun _ => [], ?_⟩, nofun, fun a _ => ⟨rfl, rfl⟩, fun k => rfl⟩
  constructor
  · refine ⟨fun q => (Links.isRing_nil_iff _ _).mpr ⟨rfl, rfl⟩, ?_⟩
    intro i j hij y hy hy'
    rw [List.mem_singleton] at hy hy'
    exact hij (Node.head.inj (hy.symm.trans hy'))
  · intro i n
    cases n <;> simp
  · intro n
    cases n <;> simp
  · intro n
    cases n <;> simp [boot]
  · intro n
    cases n <;> simp
  · exact fun i => nofun

section Wired

variable {σ : Net} {place place' : Node → Place Queue} {a : ℕ} {s s' : Sock} {v : View}
  {l : Links Node} {armed : Bool}

theorem Moves.trans {place'' : Node → Place Queue} (h : Moves a place place')
    (h' : Moves a place' place'') : Moves a place place'' :=
  fun n hl ht => (h' n hl ht).trans (h n hl ht)

section

variable (place : Node → Place Queue)

theorem moves_list (a : ℕ) (p : Place Queue) :
    Moves a place (update place (.list a) p) :=
  fun _ hl _ => update_of_ne hl _ _

theorem moves_timer (a : ℕ) (p : Place Queue) :
    Moves a place (update place (.timer a) p) :=
  fun _ _ ht => update_of_ne ht _ _

theorem update_timer_list (a b : ℕ) (p : Place Queue) :
    update place (.timer a) p (.list b) = place (.list b) :=
  update_of_ne (show Node.list b ≠ Node.timer a from nofun) _ _

theorem update_list_timer (a b : ℕ) (p : Place Queue) :
    update place (.list a) p (.timer b) = place (.timer b) :=
  update_of_ne (show Node.timer b ≠ Node.list a from nofun) _ _

end

theorem Placed.list_ne (h : Placed place a s armed) : place (.list a) ≠ .pinned := by
  rcases h.list with h | h | h <;> rw [h] <;> exact nofun

theorem Placed.timer_ne (h : Placed place a s armed) : place (.timer a) ≠ .pinned := by
  rw [h.timer, timerPlace]
  split_ifs <;> exact nofun

/-- Only the socket at `a` has changed. -/
theorem Wired.change {τ : Net} (h : Wired σ place) (hmoves : Moves a place place')
    (hlays : Lays τ.links place')
    (hsame : ∀ b, b ≠ a → τ.isk b = σ.isk b ∧ τ.armed b = σ.armed b)
    (hothers : τ.others = σ.others)
    (hlive : ∀ s, τ.isk a = some s → Placed place' a s (τ.armed a))
    (hdead : τ.isk a = none → place' (.list a) = .unset ∧ place' (.timer a) = .unset) :
    Wired τ place' := by
  have hother : ∀ b, b ≠ a → place' (.list b) = place (.list b) ∧
      place' (.timer b) = place (.timer b) := by
    intro b hb
    exact ⟨hmoves _ (by simpa using hb) nofun, hmoves _ nofun (by simpa using hb)⟩
  refine ⟨hlays, ?_, ?_, ?_⟩
  · intro b s hs
    by_cases hb : b = a
    · subst hb
      exact hlive s hs
    · obtain ⟨hlist, htimer⟩ := hother b hb
      rw [(hsame b hb).1] at hs
      have hold := h.live b s hs
      rw [(hsame b hb).2]
      exact ⟨by rw [hlist]; exact hold.list, by rw [htimer]; exact hold.timer, hold.armed⟩
  · intro b hs
    by_cases hb : b = a
    · subst hb
      exact hdead hs
    · obtain ⟨hlist, htimer⟩ := hother b hb
      rw [(hsame b hb).1] at hs
      rw [hlist, htimer]
      exact h.dead b hs
  · intro k
    rw [hmoves (.other k) nofun nofun, hothers]
    exact h.others k

/-- The call has changed the socket at `a` and no other. -/
theorem Wired.put (h : Wired σ place) (hv : Advances a place v) :
    ∃ place', Wired (σ.put a v) place' := by
  obtain ⟨place', hmoves, hlays, hplaced⟩ := hv
  refine ⟨place', h.change hmoves hlays ?_ rfl ?_ ?_⟩
  · intro b hb
    exact ⟨update_of_ne hb _ _, update_of_ne hb _ _⟩
  · intro s hs
    have hself : (σ.put a v).isk a = some v.isk := update_self a _ _
    obtain rfl := some.inj (hself.symm.trans hs)
    have harmed : (σ.put a v).armed a = v.armed := update_self a _ _
    rw [harmed]
    exact hplaced
  · intro hs
    have hself : (σ.put a v).isk a = some v.isk := update_self a _ _
    cases hself.symm.trans hs

/-! ## The calls keep it -/

/-- A call that changes no links. -/
theorem advances_same (hl : Lays l place)
    (h : Placed place a s armed) (ht : s'.timer.isSome = s.timer.isSome) :
    Advances a place ⟨l, s', armed⟩ := by
  refine ⟨place, fun _ _ _ => rfl, hl, h.list, ?_, ?_⟩
  · rw [h.timer, timerPlace, timerPlace, ht]
  · rw [ht]
    exact h.armed

/-- `add_timer` puts the timer on the list, or finds it there. -/
theorem lays_addTimer (hl : Lays l place)
    (h : Placed place a s armed) :
    Lays (addTimer l a s) (update place (.timer a) (.on .timers)) := by
  have htimer := h.timer
  unfold timerPlace at htimer
  unfold addTimer
  split_ifs at htimer ⊢ with hon harmed
  · rw [← htimer, update_eq_self]
    exact hl
  · exact hl.listAddTail .timers (Or.inl htimer)
  · exact hl.listAddTail .timers (Or.inr htimer)

section

variable (hl : Lays v.links place) (h : Placed place a v.isk v.armed)

include hl h

/-- `tcp_connect` on a socket that is on no list. -/
theorem advances_connectView (hloose : place (.list a) = .loose) (route : Bool) :
    Advances a place (connectView a route v) := by
  unfold connectView
  rcases tcpConnect_timer v.isk with ⟨hret, htimer⟩ | ⟨hret, htimer⟩
  · rw [if_pos hret]
    split_ifs
    · exact advances_same hl h (by rw [htimer])
    · exact advances_same hl h rfl
  · rw [if_neg hret]
    split_ifs
    · have hadd := (lays_addTimer hl h).listAdd .active (n := .list a)
        (Or.inl (by rw [update_timer_list, hloose]))
      refine ⟨_, (moves_timer place a _).trans (moves_list _ a _), hadd, ?_, ?_, fun _ => rfl⟩
      · rw [update_self]
        exact Or.inl rfl
      · rw [update_list_timer, update_self, timerPlace, htimer]
        rfl
    · exact advances_same hl h rfl

theorem advances_connectedView :
    Advances a place (connectedView a v) := by
  unfold connectedView
  split_ifs
  · refine ⟨_, moves_list place a .loose, hl.listRemove h.list_ne, ?_, ?_, h.armed⟩
    · rw [update_self]
      exact Or.inr (Or.inr rfl)
    · rw [update_list_timer]
      exact h.timer
  · exact advances_same hl h rfl

theorem advances_receiveView
    (mss : Option (BitVec 16)) (skb : SkBuff) : Advances a place (receiveView a mss skb v) := by
  have htimer := tcpReceive_isSome v.isk mss skb
  unfold receiveView
  split_ifs at htimer ⊢ with hreq
  · -- `add_timer`, `list_del`, `list_add_tail`
    have hlist : update place (.timer a) (.on .timers) (.list a) ≠ .pinned := by
      exact h.list_ne
    have hdel := (lays_addTimer hl h).listRemove hlist
    have hadd := hdel.listAddTail .active (n := .list a) (Or.inl (update_self ..))
    refine ⟨_, (moves_timer place a _).trans ((moves_list _ a _).trans (moves_list _ a _)), hadd,
      ?_, ?_, fun _ => rfl⟩
    · rw [update_self]
      exact Or.inl rfl
    · rw [update_list_timer, update_list_timer, update_self, timerPlace, htimer]
      rfl
  · exact advances_same hl h htimer

end

/-- `del_timer` on a timer that runs. -/
theorem Placed.delTimer (h : Placed place a s armed) (harmed : armed = true)
    (hoff : s'.timer.isSome = false) :
    Placed (update place (.timer a) .loose) a s' armed := by
  refine ⟨?_, ?_, fun _ => harmed⟩
  · rw [update_timer_list]
    exact h.list
  · rw [update_self, timerPlace, hoff, harmed]
    rfl

section

variable (hl : Lays l place) (h : Placed place a s armed) (harmed : armed = true)

include hl h harmed

theorem advances_delTimer
    (hoff : s'.timer.isSome = false) : Advances a place ⟨delTimer l a, s', armed⟩ :=
  ⟨_, moves_timer place a .loose, hl.delTimer h.timer_ne, h.delTimer harmed hoff⟩

/-- In `SYN_RCVD`, the timer entry ends by moving the socket back to `listen_queue`, or leaves the
lists alone. -/
theorem advances_synRcvd (hs : s.status = .synRcvd) :
    Advances a place (if tcpIfTimeout s synRcvdHoldingTime then
        ⟨listAddTail (listRemove (delTimer l a) (.list a)) (.list a) (.head .listen), timerSwitch s,
          armed⟩
      else ⟨l, timerSwitch s, armed⟩) := by
  have heq := timerSwitch_synRcvd hs
  split_ifs at heq ⊢ with htimeout
  · have hoff : (timerSwitch s).timer.isSome = false := by
      rw [heq, modTimer_isSome]
      rfl
    have hplaced := h.delTimer harmed hoff
    have hdel := (hl.delTimer h.timer_ne).listRemove hplaced.list_ne
    have hadd := hdel.listAddTail .listen (n := .list a) (Or.inl (update_self ..))
    refine ⟨_, (moves_timer place a _).trans ((moves_list _ a _).trans (moves_list _ a _)), hadd,
      ?_, ?_, hplaced.armed⟩
    · rw [update_self]
      exact Or.inr (Or.inl rfl)
    · rw [update_list_timer, update_list_timer]
      exact hplaced.timer
  · refine advances_same hl h ?_
    rw [heq, modTimer_isSome]

/-- In `SYN_SENT`, the timer entry deletes the timer when it gives up. -/
theorem advances_synSent (hs : s.status = .synSent) (s₁ : Sock)
    (hs1 : s₁ = { s with
      status := .synSent, retries := s.retries - 1, timeout := s.ticks.setWidth 16 }) :
    Advances a place (if s.retries ≠ 0 then
        if (tcpSendSyn s₁).1 < 0 then ⟨delTimer l a, timerSwitch s, armed⟩
        else if ((tcpSendSyn s₁).2.modTimer 20).1 < 0 then ⟨delTimer l a, timerSwitch s, armed⟩
        else ⟨l, timerSwitch s, armed⟩
      else ⟨delTimer l a, timerSwitch s, armed⟩) := by
  have heq : timerSwitch s = if s.retries ≠ 0 then
      if (tcpSendSyn s₁).1 < 0
      then { (tcpSendSyn s₁).2.delTimer with status := .closed, errno := (tcpSendSyn s₁).1 }
      else if ((tcpSendSyn s₁).2.modTimer 20).1 < 0
      then { ((tcpSendSyn s₁).2.modTimer 20).2.delTimer with
        status := .closed, errno := ((tcpSendSyn s₁).2.modTimer 20).1 }
      else ((tcpSendSyn s₁).2.modTimer 20).2
      else { s.delTimer with errno := -ETIMEDOUT, status := .closed } := by
    unfold timerSwitch
    rw [hs, hs1]
  split_ifs at heq ⊢
  · exact advances_delTimer hl h harmed (by rw [heq]; rfl)
  · exact advances_delTimer hl h harmed (by rw [heq]; rfl)
  · refine advances_same hl h ?_
    rw [heq, modTimer_isSome, tcpSendSyn_timer, hs1]
  · exact advances_delTimer hl h harmed (by rw [heq]; rfl)

end

theorem advances_timerView (hl : Lays v.links place) (h : Placed place a v.isk v.armed)
    (hon : v.isk.timer.isSome) : Advances a place (timerView a v) := by
  have harmed := h.armed hon
  have hplaced : Placed place a (sendDelayedAck v.isk) v.armed := by
    obtain ⟨_, _, _, _, heq⟩ := sendDelayedAck_writes v.isk
    rw [heq]
    exact ⟨h.list, h.timer, fun _ => harmed⟩
  unfold timerView
  generalize sendDelayedAck v.isk = t at hplaced
  simp only
  cases hs : t.status
  case synRcvd => exact advances_synRcvd hl hplaced harmed hs
  case synSent => exact advances_synSent hl hplaced harmed hs _ rfl
  case listen =>
    refine advances_same hl hplaced ?_
    unfold timerSwitch
    rw [hs]
  all_goals exact advances_same hl hplaced ((attends_timerSwitch t).connected (by rw [hs]; rfl)).2

/-- Every call but a second `tcp_connect` keeps the nodes where the fields of the socket say. -/
theorem advances_view {v' : View} {c : Call} (hl : Lays v.links place)
    (h : Placed place a v.isk v.armed)
    (hc : ∀ route, c = .connect route → place (.list a) = .loose) (hv : c.view a v = some v') :
    Advances a place v' := by
  cases c with
  | listen =>
    obtain rfl := some.inj hv
    refine advances_same hl h ?_
    unfold tcpListen
    split_ifs <;> rfl
  | connect route =>
    obtain rfl := some.inj hv
    exact advances_connectView hl h (hc route rfl) route
  | connected =>
    obtain ⟨-, hv⟩ := ite_none_right_eq_some.mp hv
    obtain rfl := some.inj hv
    exact advances_connectedView hl h
  | receive mss skb =>
    obtain rfl := some.inj hv
    exact advances_receiveView hl h mss skb
  | timer =>
    obtain ⟨hon, hv⟩ := ite_none_right_eq_some.mp hv
    obtain rfl := some.inj hv
    exact advances_timerView hl h hon
  | send buf len =>
    obtain ⟨r, hr, rfl⟩ := map_eq_some_iff.mp hv
    exact advances_same hl h (by rw [tcpSend_timer v.isk hr])
  | recv len nonblock =>
    obtain rfl := some.inj hv
    exact advances_same hl h (by rw [recvSock_timer])
  | close =>
    obtain rfl := some.inj hv
    exact advances_same hl h (by rw [tcpClose_timer])

/-! ## Allocating and freeing keep it -/

section

variable (hl : Lays l place) (hdead : place (.list a) = .unset ∧ place (.timer a) = .unset)

include hl hdead

/-- The nodes of a new socket: one alone, the other with null links. -/
theorem lays_allocIsocket :
    Lays (allocIsocket l a) (update place (.list a) .loose) := by
  have hlist := hl.clear (Or.inr hdead.1)
  rw [← hdead.1, update_eq_self] at hlist
  have htimer := hlist.clear (Or.inr hdead.2)
  rw [← hdead.2, update_eq_self] at htimer
  exact htimer.initListHead (Or.inr hdead.1)

theorem advances_socket (hs : s.timer = none) :
    Advances a place ⟨allocIsocket l a, s, false⟩ := by
  refine ⟨_, moves_list place a .loose, lays_allocIsocket hl hdead, ?_, ?_, ?_⟩
  · rw [update_self]
    exact Or.inr (Or.inr rfl)
  · rw [update_list_timer, hdead.2, timerPlace, hs]
    rfl
  · rw [hs]
    exact nofun

theorem advances_accept (hs : s.timer = none) :
    Advances a place ⟨listAddTail (allocIsocket l a) (.list a) (.head .listen), s, false⟩ := by
  have hadd := (lays_allocIsocket hl hdead).listAddTail .listen (n := .list a)
    (Or.inl (update_self ..))
  refine ⟨_, (moves_list place a _).trans (moves_list _ a _), hadd, ?_, ?_, ?_⟩
  · rw [update_self]
    exact Or.inr (Or.inl rfl)
  · rw [update_list_timer, update_list_timer, hdead.2, timerPlace, hs]
    rfl
  · rw [hs]
    exact nofun

end

/-- **Freeing, on the links**: every list loses the two nodes, which are cleared. -/
theorem layout_freeIsock {xs : Queue → List Node} (hl : σ.links.Layout Node.head .null xs place)
    (h : Placed place a s armed) :
    (freeIsock σ a s).1.links.Layout Node.head .null
      (fun q => ((xs q).erase (.list a)).erase (.timer a))
      (update (update place (.list a) .unset) (.timer a) .unset) := by
  have hlist := hl.remove h.list_ne
  have htimer := hlist.remove (n := .timer a) (by rw [update_list_timer]; exact h.timer_ne)
  have hinit := htimer.selfLink (n := .timer a) (Or.inl (update_self ..))
  rw [update_idem] at hinit
  have hclear := hinit.clear (n := .list a)
    (Or.inl (by rw [update_timer_list, update_self]))
  have hboth := hclear.clear (n := .timer a)
    (Or.inl (by rw [update_list_timer, update_self]))
  have hplace : update (update (update (update place (.list a)
      .loose) (.timer a) .loose) (.list a) .unset) (.timer a) .unset =
      update (update place (.list a) .unset) (.timer a) .unset := by
    funext n
    simp only [Function.update_apply]
    split_ifs <;> rfl
  rw [hplace] at hboth
  exact hboth

section

variable (h : Wired σ place)

include h

theorem Wired.free (hs : σ.isk a = some s) :
    ∃ place', Wired (freeIsock σ a s).1 place' := by
  obtain ⟨xs, hl⟩ := h.lays
  refine ⟨_, h.change (a := a) ((moves_list place a _).trans (moves_timer _ a _))
    ⟨_, layout_freeIsock hl (h.live a s hs)⟩ ?_ rfl ?_ ?_⟩
  · intro b hb
    exact ⟨update_of_ne hb _ _, rfl⟩
  · intro t ht
    have hnone : (freeIsock σ a s).1.isk a = none := update_self a _ _
    cases hnone.symm.trans ht
  · intro _
    exact ⟨by rw [update_timer_list, update_self], update_self ..⟩

/-- Another part of the kernel starts a timer of its own. -/
theorem Wired.other {k : ℕ} (hk : σ.others k = false) :
    ∃ place', Wired { σ with
      links := listAddTail σ.links (.other k) (.head .timers)
      others := update σ.others k true } place' := by
  have hunset : place (.other k) = .unset := by
    rw [h.others k, hk]
    rfl
  refine ⟨_, h.lays.listAddTail .timers (Or.inr hunset), ?_, ?_, ?_⟩
  · intro b s hs
    have hold := h.live b s hs
    refine ⟨?_, ?_, hold.armed⟩
    · rw [update_of_ne (show Node.list b ≠ Node.other k from nofun)]
      exact hold.list
    · rw [update_of_ne (show Node.timer b ≠ Node.other k from nofun)]
      exact hold.timer
  · intro b hs
    rw [update_of_ne (show Node.list b ≠ Node.other k from nofun),
      update_of_ne (show Node.timer b ≠ Node.other k from nofun)]
    exact h.dead b hs
  · intro j
    by_cases hj : j = k
    · subst hj
      simp
    · rw [update_of_ne (show Node.other j ≠ Node.other k by simpa using hj), h.others j]
      simp [hj]

/-- `list_empty` finds out that a socket is on no list. -/
theorem Wired.loose (hs : σ.isk a = some s)
    (hempty : listEmpty σ.links (.list a) = true) : place (.list a) = .loose := by
  obtain ⟨xs, hl⟩ := h.lays
  have hself : σ.links.next (.list a) = .list a := of_decide_eq_true hempty
  rcases (h.live a s hs).list with hon | hon | hloose
  · exact absurd hself (hl.next_ne_self hon)
  · exact absurd hself (hl.next_ne_self hon)
  · exact hloose

/-- **Step.**  Every orderly event keeps the links and the fields in agreement. -/
theorem Wired.apply {τ : Net} {e : Event} (he : Orderly σ e)
    (hstep : σ.apply e = some τ) : ∃ place', Wired τ place' := by
  cases e with
  | socket a known =>
    simp only [Net.apply] at hstep
    split at hstep
    case h_1 => cases hstep
    case h_2 hs =>
      obtain rfl := some.inj hstep
      exact h.put (advances_socket h.lays (h.dead a hs) rfl)
  | accept a b =>
    simp only [Net.apply] at hstep
    split at hstep
    case h_1 s _ hb =>
      obtain rfl := some.inj hstep
      exact h.put (advances_accept h.lays (h.dead b hb) rfl)
    case h_2 => cases hstep
  | call a env c =>
    simp only [Net.apply] at hstep
    split at hstep
    case h_1 s hs =>
      obtain ⟨-, hstep⟩ := ite_none_left_eq_some.mp hstep
      obtain ⟨v', hv, rfl⟩ := map_eq_some_iff.mp hstep
      have hlive := h.live a s hs
      refine h.put (advances_view h.lays ⟨hlive.list, hlive.timer, hlive.armed⟩ ?_ hv)
      rintro route rfl
      exact h.loose hs he
    case h_2 => cases hstep
  | free a =>
    simp only [Net.apply] at hstep
    split at hstep
    case h_1 s hs =>
      obtain ⟨-, hstep⟩ := ite_none_right_eq_some.mp hstep
      obtain rfl := some.inj hstep
      exact h.free hs
    case h_2 => cases hstep
  | other k =>
    simp only [Net.apply] at hstep
    split_ifs at hstep with hk
    · obtain rfl := some.inj hstep
      exact ⟨place, h⟩
    · obtain rfl := some.inj hstep
      exact h.other (Bool.eq_false_iff.mpr hk)

/-- **Run.**  So does every orderly sequence of events. -/
theorem Wired.run {es : List Event} {τ : Net} (hes : OrderlyRun es σ)
    (hrun : run es σ = some τ) : ∃ place', Wired τ place' := by
  induction es generalizing σ place with
  | nil =>
    obtain rfl := some.inj hrun
    exact ⟨place, h⟩
  | cons e es ih =>
    obtain ⟨ρ, hstep, hrest⟩ := bind_eq_some_iff.mp hrun
    obtain ⟨place', h'⟩ := h.apply hes.1 hstep
    exact ih h' (hes.2 ρ hstep) hrest

end

/-! ## When freeing is right -/

variable {n : Node} {xs : Queue → List Node}

theorem freeAllSkb_eq {β : Type} (xs : List β) : freeAllSkb xs = xs := by
  induction xs with
  | nil => rfl
  | cons x xs ih => rw [freeAllSkb, ih]

theorem freeIsock_buffers (σ : Net) (a : ℕ) (s : Sock) :
    (freeIsock σ a s).2.recvData = s.recvData ∧ (freeIsock σ a s).2.ackQueue = s.ackQueue := by
  have hfree : ∀ {β : Type} (xs : List β), (if xs.isEmpty then [] else freeAllSkb xs) = xs := by
    intro β xs
    cases xs with
    | nil => rfl
    | cons x xs => exact freeAllSkb_eq (x :: xs)
  exact ⟨hfree s.recvData, hfree s.ackQueue⟩

/-- A node on a list, or alone, is initialised. -/
theorem initialised_iff (hl : l.Layout Node.head .null xs place) (hn : place n ≠ .pinned) :
    Initialised l n ↔ place n ≠ .unset := by
  constructor
  · intro h hunset
    exact h.1 (hl.unset n hunset).1
  · intro hset
    cases hplace : place n with
    | on q =>
      have hmem := List.mem_cons_of_mem (Node.head q) ((hl.mem_iff q n).mpr hplace)
      have hring := hl.rings.ring q
      exact ⟨fun he => hl.null_not_mem q (he ▸ hring.next_mem hmem),
        fun he => hl.null_not_mem q (he ▸ hring.prev_mem hmem)⟩
    | loose =>
      obtain ⟨hnext, hprev⟩ := (Links.isRing_nil_iff l n).mp (hl.loose n hplace)
      have hne : n ≠ .null := by
        rintro rfl
        exact hn ((hl.pinned .null).mpr (Or.inl rfl))
      exact ⟨by rw [hnext]; exact hne, by rw [hprev]; exact hne⟩
    | unset => exact absurd hplace hset
    | pinned => exact absurd hplace hn

/-- The timer is initialised once it has been added to the timer list. -/
theorem Placed.timer_unset_iff (h : Placed place a s armed) :
    place (.timer a) ≠ .unset ↔ armed = true := by
  rw [h.timer, timerPlace]
  split_ifs with hon harmed
  · exact iff_of_true nofun (h.armed hon)
  · exact iff_of_true nofun harmed
  · exact iff_of_false (fun hne => hne rfl) harmed

/-- The two `list_del`s of `free_isock` are on initialised nodes exactly if the timer has been
added to the timer list before. -/
theorem Wired.initialised_iff (h : Wired σ place) (hs : σ.isk a = some s) :
    (Initialised σ.links (.list a) ∧ Initialised (listRemove σ.links (.list a)) (.timer a)) ↔
      σ.armed a = true := by
  obtain ⟨xs, hl⟩ := h.lays
  have hlive := h.live a s hs
  have hlist : Initialised σ.links (.list a) := by
    rw [SockRelease.initialised_iff hl hlive.list_ne]
    rcases hlive.list with h | h | h <;> rw [h] <;> exact nofun
  have htimer := SockRelease.initialised_iff (n := .timer a) (hl.remove hlive.list_ne)
    (by rw [update_list_timer]; exact hlive.timer_ne)
  rw [update_list_timer, hlive.timer_unset_iff] at htimer
  exact (and_iff_right hlist).trans htimer

/-- A node that is alone, or the head of an empty list, stays so. -/
theorem alone_freeIsock (hl : σ.links.Layout Node.head .null xs place)
    (h : Placed place a s armed) (hnull : n ≠ .null) (hlist : n ≠ .list a)
    (htimer : n ≠ .timer a) (hn : σ.links.IsRing n []) : (freeIsock σ a s).1.links.IsRing n [] := by
  have hfree := layout_freeIsock hl h
  have hplace : update (update place (.list a) .unset) (.timer a) .unset n =
      place n := by
    rw [update_of_ne htimer, update_of_ne hlist]
  cases hp : place n with
  | on q =>
    have hself := ((Links.isRing_nil_iff _ _).mp hn).1
    exact absurd hself (hl.next_ne_self hp)
  | loose => exact hfree.loose n (hplace.trans hp)
  | unset =>
    have hself := ((Links.isRing_nil_iff _ _).mp hn).1
    exact absurd ((hl.unset n hp).1.symm.trans hself).symm hnull
  | pinned =>
    rcases (hl.pinned n).mp hp with heq | ⟨q, rfl⟩
    · exact absurd heq hnull
    · have hring := hfree.rings.ring q
      rw [(hl.rings.ring q).unique hn] at hring
      exact hring

/-- **When freeing is right**, in a state whose links and fields agree. -/
theorem Wired.releases_iff (h : Wired σ place) (hs : σ.isk a = some s) :
    Releases σ a s ↔ σ.armed a = true ∧ s.sendWindow.live = [] := by
  have hlive := h.live a s hs
  have hinit := h.initialised_iff hs
  obtain ⟨xs, hl⟩ := h.lays
  have hfree := layout_freeIsock hl hlive
  constructor
  · intro hr
    exact ⟨hinit.mp hr.initialised, List.nil_perm.mp hr.segs⟩
  · rintro ⟨harmed, hempty⟩
    refine ⟨hinit.mpr harmed, ?_, ?_, ?_, freeIsock_buffers σ a s, ?_, ?_⟩
    · intro q ys hys
      rw [hys.unique (hl.rings.ring q)]
      exact hfree.rings.ring q
    · intro n hnull hlist htimer m hm
      rcases hm with rfl | rfl
      · exact hfree.links_ne (Or.inr (by rw [update_timer_list, update_self])) hlist hnull
      · exact hfree.links_ne (Or.inr (update_self ..)) htimer hnull
    · intro n hnull hlist htimer hn
      exact alone_freeIsock hl hlive hnull hlist htimer hn
    · rw [hempty]
      exact List.Perm.refl []
    · intro b hb
      exact update_of_ne hb _ _

end Wired

/-- **When freeing is right.**  In every run in which `tcp_connect` is called only for sockets that
are on no list, freeing a socket releases exactly what it owns if and only if its timer has been
started before and no segment is left in its send window. -/
theorem freeing_releases_iff {es : List Event} {σ : Net} {a : ℕ} {s : Sock}
    (hes : OrderlyRun es boot) (hrun : run es boot = some σ) (hs : σ.isk a = some s) :
    Releases σ a s ↔ σ.armed a = true ∧ s.sendWindow.live = [] := by
  obtain ⟨place, h⟩ := wired_boot.run hes hrun
  exact h.releases_iff hs

/-- Nothing outside of the sockets: the clock stands and every request is granted. -/
def calm : Env := ⟨0, ⟨0, 0, 0⟩, []⟩

/-- A new socket sends its SYN. -/
def connecting : List Event := [.socket 0 true, .call 0 calm (.connect true)]

/-- Look at the socket at address 0 after a run. -/
def look {β : Type} (es : List Event) (f : Net → Sock → β) : Option β :=
  (run es boot).bind fun σ => (σ.isk 0).map (f σ)

theorem look_eq_some {β : Type} {es : List Event} {f : Net → Sock → β} {b : β}
    (h : look es f = some b) : ∃ σ s, run es boot = some σ ∧ σ.isk 0 = some s ∧ f σ s = b := by
  obtain ⟨σ, hrun, h⟩ := bind_eq_some_iff.mp h
  obtain ⟨s, hs, h⟩ := map_eq_some_iff.mp h
  exact ⟨σ, s, hrun, hs, h⟩

theorem freeing_releases_connecting : ∃ σ s, OrderlyRun connecting boot ∧
    run connecting boot = some σ ∧ σ.isk 0 = some s ∧ Releases σ 0 s := by
  have horderly : OrderlyRun connecting boot := by
    refine ⟨trivial, fun τ hτ => ⟨?_, fun _ _ => trivial⟩⟩
    obtain rfl := some.inj hτ
    rfl
  obtain ⟨σ, s, hrun, hs, hlook⟩ : ∃ σ s, run connecting boot = some σ ∧ σ.isk 0 = some s ∧
      (σ.armed 0, s.sendWindow.live) = (true, []) := look_eq_some (by decide +kernel)
  obtain ⟨harmed, hlive⟩ := Prod.mk.inj hlook
  exact ⟨σ, s, horderly, hrun, hs, (freeing_releases_iff horderly hrun hs).mpr ⟨harmed, hlive⟩⟩

/-- A connection with two bytes that are not acknowledged when the peer resets it. -/
def resetWithData : List Event :=
  connecting ++
    [.call 0 calm (.receive (some 536) (peerSegment 7 0x34120001 true true)),
      .call 0 { calm with answers := [4096] } (.send [1, 2] 2),
      .call 0 calm (.receive none { peerSegment 8 0x34120001 false true with rst := true }),
      .call 0 calm .close]

/-- A socket that is connected a second time, and reset. -/
def connectedTwice : List Event :=
  connecting ++
    [.call 0 calm (.receive none (peerSegment 7 0x34120001 true true)),
      .call 0 calm (.connect true),
      .call 0 calm (.receive none { peerSegment 8 0x34120001 false true with rst := true }),
      .call 0 calm .connected,
      .call 0 calm .close]

/-- `tcp_close` calls `free_isock`, and that goes wrong: for a new socket, whose timer has null
links; for a socket with data in its send window, which is not freed; and for a socket that has
been connected twice, to which `active_queue` still leads. -/
theorem freeing_goes_wrong :
    (∃ σ s, run [.socket 0 true, .call 0 calm .close] boot = some σ ∧ σ.isk 0 = some s ∧
      s.freed = true ∧ ¬ Releases σ 0 s) ∧
    (∃ σ s, run resetWithData boot = some σ ∧ σ.isk 0 = some s ∧ s.freed = true ∧
      ¬ Releases σ 0 s) ∧
    ∃ σ s, run connectedTwice boot = some σ ∧ σ.isk 0 = some s ∧ s.freed = true ∧
      ¬ Releases σ 0 s := by
  refine ⟨?_, ?_, ?_⟩
  · obtain ⟨σ, s, hrun, hs, hlook⟩ : ∃ σ s,
        run [.socket 0 true, .call 0 calm .close] boot = some σ ∧ σ.isk 0 = some s ∧
        (s.freed, (listRemove σ.links (.list 0)).next (.timer 0)) = (true, .null) :=
      look_eq_some (by decide +kernel)
    obtain ⟨hfreed, hnull⟩ := Prod.mk.inj hlook
    exact ⟨σ, s, hrun, hs, hfreed, fun h => h.initialised.2.1 hnull⟩
  · obtain ⟨σ, s, hrun, hs, hlook⟩ : ∃ σ s, run resetWithData boot = some σ ∧
        σ.isk 0 = some s ∧ (s.freed, s.sendWindow.live.length) = (true, 1) :=
      look_eq_some (by decide +kernel)
    obtain ⟨hfreed, hlen⟩ := Prod.mk.inj hlook
    exact ⟨σ, s, hrun, hs, hfreed, fun h => absurd (h.segs.length_eq.trans hlen) nofun⟩
  · obtain ⟨σ, s, hrun, hs, hlook⟩ : ∃ σ s, run connectedTwice boot = some σ ∧
        σ.isk 0 = some s ∧
        (s.freed, (freeIsock σ 0 s).1.links.next (.head .active)) = (true, .list 0) :=
      look_eq_some (by decide +kernel)
    obtain ⟨hfreed, hnext⟩ := Prod.mk.inj hlook
    refine ⟨σ, s, hrun, hs, hfreed, fun h => ?_⟩
    exact (h.unlinked (.head .active) nofun nofun nofun (.list 0) (Or.inl rfl)).1 hnext

end SockRelease

end Yap
