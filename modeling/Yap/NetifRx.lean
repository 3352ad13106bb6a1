/-
# The receive queue (`net/netif.c`)

Interrupts append frames to `netif_rx_queue` (`netif_rx`) while `netif_rx_thread` takes them
out: it keeps the node behind the frame that it unlinks in a local variable over the call of
`eth_recv`, and that node may be the head of the queue.  A step of the thread is one statement,
or the critical section; a call of `netif_rx` is one step.

What `eth_recv` does to the link fields of the frames it was given, and of the buffers it
links elsewhere, is arbitrary (`Event.write`).
-/
import Yap.ListHead

namespace Yap

namespace NetifRx

open List

/-- A node of the queue: `netif_rx_queue` itself, or the `list` field of a buffer. -/
abbrev Node : Type := Option ℕ

/-- Where `netif_rx_thread` is, with its local variables. -/
inductive Pc : Type where
  /-- `wait_event_interruptible` -/
  | wait
  /-- `list = netif_rx_queue.next` -/
  | first
  /-- `while (list != &netif_rx_queue)` -/
  | test (list : Node)
  /-- the critical section -/
  | unlink (skb : ℕ)
  /-- `eth_recv(skb)` -/
  | call (skb : ℕ) (list : Node)
  /-- inside `eth_recv` -/
  | recv (list : Node)
  deriving DecidableEq, Repr

/-- The links, the thread, and what has come in and was handed on. -/
structure State where
  links : Links Node
  pc : Pc
  passed : List ℕ
  arrived : List ℕ

/-- One step of the thread. -/
def thread (s : State) : State :=
  match s.pc with
  | .wait => if listEmpty s.links none then s else { s with pc := .first }
  | .first => { s with pc := .test (s.links.next none) }
  | .test none => { s with pc := .wait }
  | .test (some skb) => { s with pc := .unlink skb }
  | .unlink skb =>
    { s with links := listRemove s.links (some skb), pc := .call skb (s.links.next (some skb)) }
  | .call skb list => { s with pc := .recv list, passed := s.passed ++ [skb] }
  | .recv list => { s with pc := .test list }

/-- `netif_rx(skb)`. -/
def netifRx (s : State) (skb : ℕ) : State :=
  { s with links := listAddTail s.links (some skb) none, arrived := s.arrived ++ [skb] }

/-- The steps of the system. -/
inductive Event : Type where
  | thread
  | netifRx (skb : ℕ)
  /-- `eth_recv` writes link fields -/
  | write (links : Links Node)

/-- One step. -/
def step (s : State) : Event → State
  | .thread => thread s
  | .netifRx skb => netifRx s skb
  | .write links => { s with links := links }

/-- The frame that is unlinked and not yet passed to `eth_recv`. -/
def Pc.held : Pc → List ℕ
  | .call skb _ => [skb]
  | _ => []

/-- The frames that came in and are not yet passed on. -/
def State.live (s : State) : List ℕ := s.arrived.drop s.passed.length

/-- A frame comes in a buffer that is not live; `eth_recv`, while it runs, leaves the queue and
the buffers on it alone. -/
def Event.Valid (s : State) : Event → Prop
  | .thread => True
  | .netifRx skb => skb ∉ s.live
  | .write links => (∃ list, s.pc = .recv list) ∧ ∀ y ∈ none :: s.live.map some,
      links.next y = s.links.next y ∧ links.prev y = s.links.prev y

/-- `netif_init` has run. -/
def init (links : Links Node) : State := ⟨initListHead links none, .wait, [], []⟩

/-- The states of all runs. -/
inductive Reaches : State → Prop where
  | init (links : Links Node) : Reaches (init links)
  | step {s : State} (e : Event) : Reaches s → e.Valid s → Reaches (step s e)

/-- The node that the thread goes on with. -/
def Pc.saved : Pc → Node
  | .unlink skb => some skb
  | .test list | .call _ list | .recv list => list
  | .wait | .first => none

/-- The queue holds `q`, and the thread goes on with its first node or with the head. -/
structure Inv (s : State) (q : List ℕ) : Prop where
  ring : s.links.IsRing none (q.map some)
  order : s.passed ++ s.pc.held ++ q = s.arrived
  saved : s.pc.saved = none ∨ s.pc.saved = q.head?

section

variable {s : State} {links : Links Node} {q : List ℕ} {skb : ℕ}

theorem next_head (h : links.IsRing none (q.map some)) : links.next none = q.head? := by
  rw [h.next_head]
  cases q <;> rfl

/-- The critical section: the node behind the first one is the first one afterwards. -/
theorem next_first (h : links.IsRing none ((skb :: q).map some)) :
    links.next (some skb) = q.head? := by
  cases q <;> exact h.1.2.2.1

theorem Inv.thread (h : Inv s q) : ∃ q', Inv (thread s) q' := by
  obtain ⟨links, pc, passed, arrived⟩ := s
  obtain ⟨hring, horder, hsaved⟩ := h
  cases pc with
  | wait =>
    unfold NetifRx.thread
    dsimp only
    split_ifs
    · exact ⟨q, hring, horder, hsaved⟩
    · exact ⟨q, hring, horder, Or.inl rfl⟩
  | first => exact ⟨q, hring, horder, Or.inr (next_head hring)⟩
  | test list =>
    cases list with
    | none => exact ⟨q, hring, horder, Or.inl rfl⟩
    | some skb => exact ⟨q, hring, horder, hsaved⟩
  | unlink skb =>
    obtain ⟨q', rfl⟩ := head?_eq_some_iff.mp (hsaved.resolve_left (by simp [Pc.saved])).symm
    have hfirst : links.IsRing none ([] ++ some skb :: q'.map some) := hring
    refine ⟨q', hfirst.remove_mem, ?_, Or.inr (next_first hring)⟩
    simpa [Pc.held, NetifRx.thread] using horder
  | call skb list => exact ⟨q, hring, by simpa [Pc.held, NetifRx.thread] using horder, hsaved⟩
  | recv list => exact ⟨q, hring, horder, hsaved⟩

/-- A frame comes in behind the others; if there are none, the thread goes on with the head. -/
theorem Inv.netifRx (h : Inv s q) (hnew : skb ∉ s.live) :
    Inv (netifRx s skb) (q ++ [skb]) := by
  obtain ⟨hring, horder, hsaved⟩ := h
  rw [State.live, ← horder, List.append_assoc, drop_left, mem_append, not_or] at hnew
  refine ⟨?_, ?_, ?_⟩
  · rw [map_append]
    exact hring.link_tail (by simpa using hnew.2)
  · show s.passed ++ s.pc.held ++ (q ++ [skb]) = s.arrived ++ [skb]
    rw [← horder, List.append_assoc _ q]
  · show s.pc.saved = none ∨ s.pc.saved = _
    cases q with
    | nil => exact Or.inl (or_self_iff.mp hsaved)
    | cons b q => exact hsaved

theorem inv_step {e : Event} (h : Inv s q) (he : e.Valid s) : ∃ q', Inv (step s e) q' := by
  cases e with
  | thread => exact h.thread
  | netifRx skb => exact ⟨_, h.netifRx he⟩
  | write links =>
    obtain ⟨⟨list, hpc⟩, hsame⟩ := he
    rw [State.live, ← h.order, List.append_assoc, drop_left, hpc] at hsame
    exact ⟨q, h.ring.congr hsame, h.order, h.saved⟩

end

/-- **Receive queue hand-off.**  In every run, the frames passed to `eth_recv`, the one being
unlinked and the contents of `netif_rx_queue`, which is a well-formed list, are the frames that
came in, in their order. -/
theorem handOff (s : State) (h : Reaches s) : ∃ q : List ℕ,
    s.links.IsRing none (q.map some) ∧ s.passed ++ s.pc.held ++ q = s.arrived := by
  have hinv : ∃ q, Inv s q := by
    induction h with
    | init => exact ⟨[], (Links.isRing_nil_iff _ _).mpr ⟨rfl, rfl⟩, rfl, Or.inl rfl⟩
    | step e _ he ih =>
      obtain ⟨q, hq⟩ := ih
      exact inv_step hq he
  obtain ⟨q, hring, horder, _⟩ := hinv
  exact ⟨q, hring, horder⟩

/-- The second frame comes in while `eth_recv` runs on the last one. -/
def lateFrame : State := step (([.netifRx 1, .thread, .thread, .thread, .thread, .thread] :
  List Event).foldl step (init ⟨id, id⟩)) (.netifRx 2)

theorem handOff_lateFrame : lateFrame.pc = .recv none ∧ ∃ q : List ℕ,
    lateFrame.links.IsRing none (q.map some) ∧
      lateFrame.passed ++ lateFrame.pc.held ++ q = lateFrame.arrived := by
  refine ⟨rfl, handOff lateFrame ?_⟩
  refine (((((((Reaches.init _).step (.netifRx 1) ?_).step .thread trivial).step .thread
    trivial).step .thread trivial).step .thread trivial).step .thread trivial).step (.netifRx 2) ?_
  · exact not_mem_nil
  · exact not_mem_nil

end NetifRx

end Yap
