/-
# What becomes of a received buffer (`net/inet/eth.c` and what it calls)

Two questions about `eth_recv`.  The first is about all buffers: in every state of every run a
buffer is linked to one list head at most, once, and only while it is in use (`sound_reaches`).
So the buffer that `netif_rx_thread` takes off `netif_rx_queue` is in nobody else's hands.

The second is about that buffer: when `eth_recv` returns it should be freed, with the driver, or
on one of the queues.  `ethRecv_conserves_iff` says when it is.  It is lost in two places.
`ip_try_fragment_glue` links the first fragment of a datagram and forgets every later one; and
`ip_send` returns an error without freeing the packet, when there is no device and when the ARP
request for an echo reply cannot be sent.

Every function comes with what it does to the fate of a buffer it works on and with the fact that
it leaves the fate of the others alone, so the paths through `eth_recv` are put together without
looking into the functions again.
-/
import Yap.EthRecv

namespace Yap

namespace EthRecv

open List
open Option (some.inj some.injEq)

open Ip (htons htonl)
open Arp (ETH_P_IP ETH_P_ARP ARP_REQ ARP_RSP)
open FrameBounds (Frame)

/-! ## The statement -/

/-- The queues where a received buffer may end. -/
def Head.Receives : Head → Prop
  | .rx | .ackQueue _ => False
  | .frag _ | .arpSendQ | .txQueue _ | .recvData _ => True

/-- From `s` to `s'` the buffer has been released once by `free_skbuff`, or handed to the driver
once, or it is linked to one queue, once. -/
def Conserved (s s' : Stack) (i : ℕ) : Prop :=
  (s'.released.count i = s.released.count i + 1 ∧ s'.handed.count i = s.handed.count i ∧
    ∀ h, i ∉ s'.queue h) ∨
  (s'.released.count i = s.released.count i ∧ s'.handed.count i = s.handed.count i + 1 ∧
    ∀ h, i ∉ s'.queue h) ∨
  (s'.released.count i = s.released.count i ∧ s'.handed.count i = s.handed.count i ∧
    ∃ h, h.Receives ∧ (s'.queue h).count i = 1 ∧ ∀ h', h' ≠ h → i ∉ s'.queue h')

/-- An ARP request can be sent: there is a buffer and memory for it, and the device takes it. -/
def RequestSent (env : Env) (s : Stack) (ndev : ℕ) : Prop :=
  firstUnused s ≠ none ∧ env.kmalloc s.asked 128 = true ∧
    (s.xoff ndev = true ∨ 0 ≤ (env.xmit (s.asked + 1)).ret)

/-- The echo of the packet in `i` gets away: there is a device, and the packet is cut into
fragments, or its sender is in the ARP table or finds a free place there, or it can be asked for
its address. -/
def EchoSent (net : Net) (env : Env) (s : Stack) (i : ℕ) : Prop :=
  ∃ ndev, s.devices.head? = some ndev ∧
    ((net.dev ndev).mtu < (s.buf i).frame.totLen + 14 ∨
      searchArpTable s (ipSaddr net.big (s.buf i).frame) ≠ none ∨ searchArpTable s 0 ≠ none ∨
      RequestSent env s ndev)

/-- A fragment is the first of its datagram, and the echo of an ICMP packet gets away. -/
def Meets (net : Net) (env : Env) (s : Stack) (i : ℕ) : Prop :=
  (s.buf i).frame.hProto = ETH_P_IP →
    ((s.buf i).frame.IsFragment → Ip.searchFragList s.slot (ipId (s.buf i).frame) = none) ∧
      (¬ (s.buf i).frame.IsFragment → (s.buf i).frame.protocol = PROTO_ICMP →
        EchoSent net env s i)

/-! ## Where a buffer lands -/

/-- The buffer is freed, handed to the driver, or linked to a queue. -/
def Lands (v v' : Fate Head) : Prop :=
  v' = v.release ∨ (∃ back, v' = v.handOver back) ∨ ∃ h, h.Receives ∧ v' = v.link h

/-- The buffer lands if `p` holds, and is left alone if not. -/
def Decides (p : Prop) (v v' : Fate Head) : Prop := (p → Lands v v') ∧ (¬ p → v' = v)

variable {len mtu : BitVec 16} {dest : BitVec 32} {ndev : ℕ} {k : Fin 32}

section

variable {net : Net} {env : Env} {fuel : ℕ} {s s' t : Stack} {i j : ℕ}

theorem not_mem_of_on_eq_zero {h : Head} (hon : (s.fate i).on h = 0) : i ∉ s.queue h :=
  count_eq_zero.mp hon

theorem Held.not_mem (hi : (s.fate i).Held) (h : Head) : i ∉ s.queue h :=
  not_mem_of_on_eq_zero (hi.2 h)

theorem conserved_of_lands (hi : (s.fate i).Held) (h : Lands (s.fate i) (s'.fate i)) :
    Conserved s s' i := by
  rcases h with h | ⟨back, h⟩ | ⟨h', hr, h⟩
  · refine Or.inl ⟨congrArg Fate.released h, congrArg Fate.handed h, fun h' => ?_⟩
    apply not_mem_of_on_eq_zero
    rw [h]
    exact hi.release_on h'
  · have hreleased : (s'.fate i).released = (s.fate i).released := by
      rw [h]
      cases back <;> rfl
    have hhanded : (s'.fate i).handed = (s.fate i).handed + 1 := congrArg Fate.handed h
    refine Or.inr (Or.inl ⟨hreleased, hhanded, fun h' => ?_⟩)
    apply not_mem_of_on_eq_zero
    rw [h]
    exact hi.handOver_on back h'
  · refine Or.inr (Or.inr ⟨congrArg Fate.released h, congrArg Fate.handed h, h', hr, ?_, ?_⟩)
    · have hon := congrFun (congrArg Fate.on h) h'
      rw [Fate.link_on_self, hi.2 h'] at hon
      exact hon
    · intro h'' hne
      apply not_mem_of_on_eq_zero
      rw [h, Fate.link_on_of_ne hne]
      exact hi.2 h''

/-- A buffer that is held and stays so is lost. -/
theorem not_conserved_of_eq (hi : (s.fate i).Held) (h : s'.fate i = s.fate i) :
    ¬ Conserved s s' i := by
  have hreleased : s'.released.count i = s.released.count i := congrArg Fate.released h
  have hhanded : s'.handed.count i = s.handed.count i := congrArg Fate.handed h
  rintro (⟨hr, -⟩ | ⟨-, hh, -⟩ | ⟨-, -, h', -, hone, -⟩)
  · omega
  · omega
  · have hzero : (s'.queue h').count i = 0 := (congrFun (congrArg Fate.on h) h').trans (hi.2 h')
    omega

/-! ## Buffers -/

theorem used_of_firstUnused (h : firstUnused s = some j) : s.used j = false := by
  have hj := find?_some h
  simpa using hj

/-- What `alloc_skbuff` does to the buffers. -/
theorem allocSkbuff_cases (env : Env) (s : Stack) (len : BitVec 16) :
    ((allocSkbuff env s len).1 = none ∧ (allocSkbuff env s len).2.toCustody = s.toCustody) ∨
      ∃ j, (allocSkbuff env s len).1 = some j ∧ s.used j = false ∧
        (allocSkbuff env s len).2.toCustody = s.acquire j := by
  unfold allocSkbuff
  cases hfirst : firstUnused s with
  | none => exact Or.inl ⟨rfl, rfl⟩
  | some j =>
    split_ifs
    · exact Or.inr ⟨j, rfl, used_of_firstUnused hfirst, rfl⟩
    · exact Or.inl ⟨rfl, rfl⟩

theorem toCustody_of_alloc (h : allocSkbuff env s len = (some j, t)) :
    s.used j = false ∧ t.toCustody = s.acquire j := by
  rcases allocSkbuff_cases env s len with ⟨hnone, -⟩ | ⟨j', hj', hused, hcust⟩
  · rw [h] at hnone
    exact absurd hnone (by simp)
  · rw [h] at hj' hcust
    obtain rfl := some.inj hj'
    exact ⟨hused, hcust⟩

theorem toCustody_of_alloc_none (h : allocSkbuff env s len = (none, t)) :
    t.toCustody = s.toCustody := by
  rcases allocSkbuff_cases env s len with ⟨-, hcust⟩ | ⟨j, hj, -, -⟩
  · rw [h] at hcust
    exact hcust
  · rw [h] at hj
    exact absurd hj (by simp)

/-- The buffer that is allocated is not one in use, and those in use keep their fate. -/
theorem fate_acquire_of_used (hcust : t.toCustody = s.acquire j) (hj : s.used j = false)
    (hi : s.used i = true) : i ≠ j ∧ t.fate i = s.fate i := by
  have hne : i ≠ j := by
    rintro rfl
    rw [hj] at hi
    exact Bool.noConfusion hi
  refine ⟨hne, ?_⟩
  rw [hcust, Custody.fate_acquire, if_neg hne]

theorem ne_of_alloc (h : allocSkbuff env s len = (some j, t)) (hi : s.used i = true) : i ≠ j :=
  (fate_acquire_of_used (toCustody_of_alloc h).2 (toCustody_of_alloc h).1 hi).1

theorem fate_of_alloc (h : allocSkbuff env s len = (some j, t))
    (hi : s.used i = true) : t.fate i = s.fate i :=
  (fate_acquire_of_used (toCustody_of_alloc h).2 (toCustody_of_alloc h).1 hi).2

theorem fate_of_alloc_none (h : allocSkbuff env s len = (none, t)) :
    t.fate i = s.fate i := by
  rw [toCustody_of_alloc_none h]

theorem toCustody_foldl_freeSkbuff (bs : List ℕ) (s : Stack) :
    (bs.foldl freeSkbuff s).toCustody = s.releaseAll bs := by
  induction bs generalizing s with
  | nil => rfl
  | cons b bs ih => exact ih (freeSkbuff s b)

theorem fate_freeSkbuff_self : (freeSkbuff s i).fate i = (s.fate i).release := by
  rw [freeSkbuff, Custody.fate_release, if_pos rfl]

theorem fate_freeSkbuff_of_ne (h : i ≠ j) : (freeSkbuff s j).fate i = s.fate i := by
  rw [freeSkbuff, Custody.fate_release, if_neg h]

theorem fate_freeAllSkb {h : Head} (hi : i ∉ s.queue h) :
    (freeAllSkb s h).fate i = s.fate i := by
  rw [freeAllSkb, toCustody_foldl_freeSkbuff, Custody.fate_releaseAll_of_notMem _ hi]

theorem fate_listAddTail_self (h : Head) : (listAddTail s h i).fate i = (s.fate i).link h := by
  rw [listAddTail, Custody.fate_append, if_pos rfl]

theorem fate_listAddTail_of_ne (h : Head) (hne : i ≠ j) :
    (listAddTail s h j).fate i = s.fate i := by
  rw [listAddTail, Custody.fate_append, if_neg hne]

/-! ## Sending -/

theorem fate_netifTxQueue_self (env : Env) (s : Stack) (ndev i : ℕ) :
    (netifTxQueue env s ndev i).2.fate i = (s.fate i).link (.txQueue ndev) ∨
      ∃ back, (netifTxQueue env s ndev i).2.fate i = (s.fate i).handOver back := by
  unfold netifTxQueue hardStartXmit
  split_ifs
  · exact Or.inl (fate_listAddTail_self _)
  · refine Or.inr ⟨(env.xmit s.asked).frees, ?_⟩
    rw [Custody.fate_handOver, if_pos rfl]

theorem lands_netifTxQueue (env : Env) (s : Stack) (ndev i : ℕ) :
    Lands (s.fate i) ((netifTxQueue env s ndev i).2.fate i) := by
  rcases fate_netifTxQueue_self env s ndev i with h | h
  · exact Or.inr (Or.inr ⟨.txQueue ndev, trivial, h⟩)
  · exact Or.inr (Or.inl h)

theorem fate_netifTxQueue_of_ne (env : Env) (s : Stack) (ndev : ℕ) (h : i ≠ j) :
    (netifTxQueue env s ndev j).2.fate i = s.fate i := by
  unfold netifTxQueue hardStartXmit
  split_ifs
  · exact fate_listAddTail_of_ne _ h
  · simp only
    rw [Custody.fate_handOver, if_neg h]

theorem fate_arpSendRequest (ndev : ℕ) (hi : s.used i = true) :
    (arpSendRequest env s ndev).2.fate i = s.fate i := by
  unfold arpSendRequest
  rcases halloc : allocSkbuff env s 128 with ⟨j, t⟩
  cases j with
  | none => exact fate_of_alloc_none halloc
  | some j =>
    rw [fate_netifTxQueue_of_ne _ _ _ (ne_of_alloc halloc hi), fate_of_alloc halloc hi]

/-- The result of `arp_send_request`. -/
theorem arpSendRequest_nonneg_iff (env : Env) (s : Stack) (ndev : ℕ) :
    ¬ (arpSendRequest env s ndev).1 < 0 ↔ RequestSent env s ndev := by
  unfold arpSendRequest allocSkbuff RequestSent
  cases hfirst : firstUnused s with
  | none => simp [ENOMEM]
  | some j =>
    by_cases hmem : env.kmalloc s.asked 128 = true
    · simp only [hmem, if_true, netifTxQueue]
      by_cases hxoff : s.xoff ndev = true
      · simp [hxoff]
      · simp [hxoff, hardStartXmit]
    · simp only [hmem]
      simp [ENOMEM]

theorem fate_ipDoSend_of_ne (dest : BitVec 32) (ndev : ℕ) (h : i ≠ j) (hi : s.used i = true) :
    (ipDoSend env s j dest ndev).2.fate i = s.fate i := by
  unfold ipDoSend
  simp only
  -- nothing but the record of the buffer is different in `t`
  set t := s.setBuf j { s.buf j with ndev := ndev }
  have hfate : t.fate i = s.fate i := rfl
  have hused : t.used i = true := hi
  have hreq : (arpSendRequest env t ndev).2.fate i = t.fate i := fate_arpSendRequest ndev hused
  cases searchArpTable t dest with
  | none =>
    split_ifs
    · exact hreq
    · exact (fate_listAddTail_of_ne (s := Stack.setBuf _ j _) _ h).trans hreq
  | some a => exact fate_netifTxQueue_of_ne _ _ _ h

/-- Where `ip_do_send` can find or ask for the address, the buffer gets away; where it cannot,
the buffer is left as it was. -/
theorem ipDoSend_spec (env : Env) (dest : BitVec 32) (ndev : ℕ) (hi : s.used i = true) :
    Decides (searchArpTable s dest ≠ none ∨ RequestSent env s ndev) (s.fate i)
      ((ipDoSend env s i dest ndev).2.fate i) := by
  unfold ipDoSend Decides
  simp only
  set t := s.setBuf i { s.buf i with ndev := ndev }
  have hfate : t.fate i = s.fate i := rfl
  have hused : t.used i = true := hi
  have htable : searchArpTable t dest = searchArpTable s dest := rfl
  have hsent : RequestSent env t ndev ↔ RequestSent env s ndev := Iff.rfl
  have hreq : (arpSendRequest env t ndev).2.fate i = t.fate i := fate_arpSendRequest ndev hused
  rw [← hfate, ← htable, ← hsent, ← arpSendRequest_nonneg_iff]
  cases searchArpTable t dest with
  | none =>
    simp only [ne_eq, not_true_eq_false, false_or, not_not]
    split_ifs with hneg
    · exact ⟨fun h => absurd hneg h, fun _ => hreq⟩
    · refine ⟨fun _ => Or.inr (Or.inr ⟨.arpSendQ, trivial, ?_⟩), fun h => absurd h hneg⟩
      rw [← hreq]
      exact fate_listAddTail_self (s := Stack.setBuf _ i _) _
  | some a =>
    refine ⟨fun _ => lands_netifTxQueue env t ndev i, fun h => absurd ?_ h⟩
    exact Or.inl (by simp)

section

variable (hs : s.Sound)

include hs

theorem sound_of_alloc {o : Option ℕ}
    (h : allocSkbuff env s len = (o, t)) : t.Sound := by
  cases o with
  | none =>
    rw [toCustody_of_alloc_none h]
    exact hs
  | some j =>
    rw [(toCustody_of_alloc h).2]
    exact hs.acquire

theorem held_of_alloc (h : allocSkbuff env s len = (some j, t)) :
    (t.fate j).Held := by
  obtain ⟨hused, hcust⟩ := toCustody_of_alloc h
  rw [hcust]
  exact hs.held_of_unused hused

theorem sound_freeSkbuff (i : ℕ) : (freeSkbuff s i).Sound := hs.release

theorem sound_foldl_freeSkbuff (bs : List ℕ) : (bs.foldl freeSkbuff s).Sound := by
  rw [toCustody_foldl_freeSkbuff]
  exact hs.releaseAll bs

theorem sound_listAddTail (hi : (s.fate i).Held) (h : Head) :
    (listAddTail s h i).Sound := hs.link hi h _

theorem sound_netifTxQueue (hi : (s.fate i).Held) (ndev : ℕ) :
    (netifTxQueue env s ndev i).2.Sound := by
  unfold netifTxQueue
  split_ifs
  · exact sound_listAddTail hs hi _
  · exact hs.handOver _

theorem sound_arpSendRequest (ndev : ℕ) : (arpSendRequest env s ndev).2.Sound := by
  unfold arpSendRequest
  rcases halloc : allocSkbuff env s 128 with ⟨j, t⟩
  cases j with
  | none => exact sound_of_alloc hs halloc
  | some j => exact sound_netifTxQueue (sound_of_alloc hs halloc) (held_of_alloc hs halloc) ndev

theorem sound_ipDoSend (hi : (s.fate i).Held) (dest : BitVec 32) (ndev : ℕ) :
    (ipDoSend env s i dest ndev).2.Sound := by
  unfold ipDoSend
  simp only
  set t := s.setBuf i { s.buf i with ndev := ndev }
  have hts : t.Sound := hs
  have hti : (t.fate i).Held := hi
  have hreq : (arpSendRequest env t ndev).2.Sound := sound_arpSendRequest hts ndev
  have hreqi : ((arpSendRequest env t ndev).2.fate i).Held := by
    rw [fate_arpSendRequest ndev hti.1]
    exact hti
  cases searchArpTable t dest with
  | none =>
    split_ifs
    · exact hreq
    · exact sound_listAddTail (s := Stack.setBuf _ i _) hreq hreqi _
  | some a => exact sound_netifTxQueue hts hti ndev

end

/-- However the loop of `ip_fragment` ends, the buffer it cuts up is freed, and was left alone
until then. -/
theorem ipFragmentLoop_spec {r : ℤ × Stack} {totalLen : BitVec 16} (hi : s.used i = true)
    (h : ipFragmentLoop env i dest ndev mtu fuel totalLen s = some r) :
    ∃ t, r.2 = freeSkbuff t i ∧ t.fate i = s.fate i ∧ (s.Sound → t.Sound) := by
  induction fuel generalizing totalLen s with
  | zero => exact absurd h (by simp [ipFragmentLoop])
  | succ fuel ih =>
    unfold ipFragmentLoop at h
    split_ifs at h with h0
    · exact ⟨s, congrArg Prod.snd (some.inj h).symm, rfl, id⟩
    · rcases halloc : allocSkbuff env s mtu with ⟨j, t⟩
      rw [halloc] at h
      cases j with
      | none =>
        exact ⟨t, congrArg Prod.snd (some.inj h).symm, fate_of_alloc_none halloc,
          fun hs => sound_of_alloc hs halloc⟩
      | some j =>
        have hne := ne_of_alloc halloc hi
        have hti := fate_of_alloc halloc hi
        have htj : s.Sound → t.Sound ∧ (t.fate j).Held := fun hs =>
          ⟨sound_of_alloc hs halloc, held_of_alloc hs halloc⟩
        simp only at h
        set u := t.setBuf j { t.buf j with
          dataLen := Ip.ipDataLen mtu totalLen + 34, daddr := dest }
        have hui : u.fate i = s.fate i := hti
        have hus : s.Sound → u.Sound ∧ (u.fate j).Held := htj
        have hsend : (ipDoSend env u j dest ndev).2.fate i = s.fate i :=
          (fate_ipDoSend_of_ne dest ndev hne ((congrArg Fate.used hui).trans hi)).trans hui
        have hsound : s.Sound → (ipDoSend env u j dest ndev).2.Sound := fun hs =>
          sound_ipDoSend (hus hs).1 (hus hs).2 dest ndev
        split_ifs at h
        · exact ⟨_, congrArg Prod.snd (some.inj h).symm, hsend, hsound⟩
        · obtain ⟨v, hv, hfate, hvs⟩ := ih ((congrArg Fate.used hsend).trans hi) h
          exact ⟨v, hv, hfate.trans hsend, fun hs => hvs (hsound hs)⟩

/-- `ip_send` finds a device, and cuts the packet up or finds the address of its destination. -/
def Routed (net : Net) (env : Env) (s : Stack) (i : ℕ) (dest : BitVec 32) : Prop :=
  ∃ ndev, s.devices.head? = some ndev ∧
    ((net.dev ndev).mtu < (s.buf i).dataLen ∨ searchArpTable s dest ≠ none ∨
      RequestSent env s ndev)

theorem ipSend_spec {r : ℤ × Stack} (hi : s.used i = true)
    (h : ipSend net env fuel s i dest = some r) :
    Decides (Routed net env s i dest) (s.fate i) (r.2.fate i) := by
  unfold ipSend at h
  unfold Routed Decides
  cases hdev : s.devices.head? with
  | none =>
    rw [hdev] at h
    rw [← some.inj h]
    refine ⟨?_, fun _ => rfl⟩
    rintro ⟨ndev, hndev, -⟩
    exact absurd hndev (by simp)
  | some ndev =>
    simp only [hdev] at h
    simp only [some.injEq, exists_eq_left']
    set t := s.setBuf i { s.buf i with ndev := ndev } with ht
    have hlen : (t.buf i).dataLen = (s.buf i).dataLen := by simp [ht, Stack.setBuf]
    by_cases hmtu : (net.dev ndev).mtu < (s.buf i).dataLen
    · rw [if_pos (hlen ▸ hmtu)] at h
      obtain ⟨u, hu, hfate, -⟩ := ipFragmentLoop_spec (s := t) hi h
      refine ⟨fun _ => Or.inl ?_, fun hnot => absurd (Or.inl hmtu) hnot⟩
      rw [hu, fate_freeSkbuff_self, hfate]
      rfl
    · rw [if_neg (hlen ▸ hmtu)] at h
      set u := t.setBuf i { t.buf i with daddr := dest }
      obtain ⟨hyes, hno⟩ := ipDoSend_spec env dest ndev (i := i) (s := u) hi
      rw [some.inj h] at hyes hno
      exact ⟨fun hor => hyes (hor.resolve_left hmtu), fun hnot => hno fun hor => hnot (Or.inr hor)⟩

/-! ## The protocols over IP -/

theorem icmpProcess_spec (hi : s.used i = true) (h : icmpProcess net env fuel s i = some s') :
    Decides (Routed net env (s.setBuf i { s.buf i with dataLen := (s.buf i).frame.totLen + 14 }) i
      (ipSaddr net.big (s.buf i).frame)) (s.fate i) (s'.fate i) := by
  unfold icmpProcess at h
  obtain ⟨r, hr, rfl⟩ := Option.map_eq_some_iff.mp h
  exact ipSend_spec (s := s.setBuf i { s.buf i with dataLen := (s.buf i).frame.totLen + 14 }) hi hr

theorem lands_udpProcess (s : Stack) (i : ℕ) : Lands (s.fate i) ((udpProcess s i).fate i) := by
  unfold udpProcess
  simp only
  split
  · exact Or.inl fate_freeSkbuff_self
  · exact Or.inr (Or.inr ⟨.recvData _, trivial, fate_listAddTail_self _⟩)

theorem fate_freeIsock (hi : (s.fate i).Held) (k : ℕ) : (freeIsock s k).fate i = s.fate i := by
  have hfirst : (freeAllSkb s (.recvData k)).fate i = s.fate i := fate_freeAllSkb (Held.not_mem hi _)
  have hheld : ((freeAllSkb s (.recvData k)).fate i).Held := by
    rw [hfirst]
    exact hi
  exact (fate_freeAllSkb (Held.not_mem hheld _)).trans hfirst

/-- `linkBehind` is where the TCP code puts the segment. -/
theorem recvData_tcpReceive (mss : Option (BitVec 16)) (isk : Tcp.Sock) (skb : Tcp.SkBuff) :
    (Tcp.tcpReceive mss isk skb).2.recvData =
      match linkBehind isk skb with
      | none => isk.recvData
      | some n => isk.recvData.take n ++ skb :: isk.recvData.drop n := by
  have hrx := congrArg Prod.fst (FrameBounds.rx_tcpReceive mss isk skb)
  unfold linkBehind
  by_cases hlinks : FrameBounds.Links isk skb
  · rw [if_pos hlinks] at hrx ⊢
    obtain ⟨⟨front, back⟩, hfind⟩ := Option.ne_none_iff_exists'.mp hlinks.2.2
    have hsplit : front.reverse ++ back = isk.recvData := by
      rw [FrameBounds.findSlot_append hfind, reverse_reverse, append_nil]
    have hlen : front.length = front.reverse.length := length_reverse.symm
    rw [FrameBounds.sorted, hfind] at hrx
    simp only [hfind, Option.map_some]
    rw [← hsplit, hlen, take_left, drop_left]
    exact hrx
  · rw [if_neg hlinks] at hrx ⊢
    exact hrx

/-- The queue of buffers stays the queue of the TCP model. -/
theorem recvData_isk_link {k n : ℕ} {isk : Tcp.Sock}
    (hlink : linkBehind isk (s.buf i).frame.skb = some n) (hisk : isk.recvData = (s.isk k).recvData)
    (mss : Option (BitVec 16)) :
    (Stack.isk { s with toCustody := s.link (.recvData k) n i } k).recvData =
      (Tcp.tcpReceive mss isk (s.buf i).frame.skb).2.recvData := by
  rw [recvData_tcpReceive, hlink, hisk]
  simp [Stack.isk, Custody.link, map_take, map_drop]

/-- What `tcp_process` does with the buffer: it is linked to a socket, or freed. -/
theorem tcpProcess_cases (h : tcpProcess net env s i = some s') :
    (∃ k n, s'.toCustody = s.link (.recvData k) n i) ∨
      ∃ t, s'.toCustody = (freeSkbuff t i).toCustody ∧
        (t.toCustody = s.toCustody ∨ ∃ u k, u.toCustody = s.toCustody ∧ t = freeIsock u k) := by
  unfold tcpProcess at h
  simp only at h
  cases hsock : TcpDemux.tcpFindSock net.big s.demux (some (tcpSegment net.big (s.buf i).frame)) with
  | none =>
    rw [hsock] at h
    rw [← some.inj h]
    exact Or.inr ⟨s, rfl, Or.inl rfl⟩
  | some k =>
    simp only [hsock] at h
    split at h
    · split_ifs at h
      rw [← some.inj h]
      exact Or.inl ⟨k, _, rfl⟩
    · rw [← some.inj h]
      refine Or.inr ⟨_, rfl, ?_⟩
      split_ifs
      · refine Or.inr ⟨_, k, ?_, rfl⟩
        rfl
      · exact Or.inl rfl

theorem lands_tcpProcess (hi : (s.fate i).Held) (h : tcpProcess net env s i = some s') :
    Lands (s.fate i) (s'.fate i) := by
  rcases tcpProcess_cases h with ⟨k, n, hlink⟩ | ⟨t, hfree, ht⟩
  · refine Or.inr (Or.inr ⟨.recvData k, trivial, ?_⟩)
    rw [hlink, Custody.fate_link, if_pos rfl]
  · left
    rw [hfree, fate_freeSkbuff_self]
    rcases ht with ht | ⟨u, k, hu, rfl⟩
    · rw [ht]
    · rw [fate_freeIsock (by rw [hu]; exact hi), hu]

/-! ## Fragments -/

theorem fate_freeFragList_of_notMem (hi : i ∉ s.queue (.frag k))
    (h : freeFragList s k = some s') : s'.fate i = s.fate i := by
  unfold freeFragList at h
  split_ifs at h
  rw [← some.inj h]
  exact fate_freeAllSkb hi

theorem fate_freeFragList_of_count (hi : (s.queue (.frag k)).count i = 1)
    (h : freeFragList s k = some s') : s'.fate i = (s.fate i).release := by
  unfold freeFragList at h
  split_ifs at h
  have hall : (freeAllSkb s (.frag k)).fate i = (s.fate i).release := by
    rw [freeAllSkb, toCustody_foldl_freeSkbuff, Custody.fate_releaseAll_of_count_eq_one _ hi]
  rw [← some.inj h]
  exact hall

/-- Freeing buffers makes no protocol number. -/
theorem protocol_foldl_freeSkbuff (bs : List ℕ) (h : (s.buf j).frame.protocol = 0) :
    ((bs.foldl freeSkbuff s).buf j).frame.protocol = 0 := by
  induction bs generalizing s with
  | nil => exact h
  | cons b bs ih =>
    refine ih ?_
    by_cases hj : j = b
    · subst hj
      simp [freeSkbuff, Buf.zero, noFrame, Frame.protocol]
    · simpa [freeSkbuff, hj] using h

theorem protocol_freeFragList (h : freeFragList s k = some s')
    (hj : (s.buf j).frame.protocol = 0) : (s'.buf j).frame.protocol = 0 := by
  unfold freeFragList at h
  split_ifs at h
  rw [← some.inj h]
  exact protocol_foldl_freeSkbuff _ hj

/-- The datagram that `ip_fragment_glue` puts together has no protocol, and is freed. -/
theorem ipDoRecv_of_protocol (h : (s.buf j).frame.protocol = 0) :
    ipDoRecv net env fuel s j = some (freeSkbuff s j) := by
  unfold ipDoRecv
  simp [h, PROTO_ICMP, PROTO_UDP, PROTO_TCP]

/-- What `ip_fragment_glue` comes to: the list is freed, and so is the buffer it has allocated,
if it has. -/
theorem ipFragmentGlue_spec (h : ipFragmentGlue net env fuel s k = some s') :
    ∃ t u, freeFragList t k = some u ∧
      ((t.toCustody = s.toCustody ∧ s' = u) ∨
        ∃ j, s.used j = false ∧ t.toCustody = s.acquire j ∧ s' = freeSkbuff u j) := by
  unfold ipFragmentGlue at h
  simp only at h
  rcases halloc : allocSkbuff env s (s.slot k).originalLen with ⟨j, t⟩
  rw [halloc] at h
  cases j with
  | none => exact ⟨t, s', h, Or.inl ⟨toCustody_of_alloc_none halloc, rfl⟩⟩
  | some j =>
    obtain ⟨hused, hcust⟩ := toCustody_of_alloc halloc
    simp only at h
    split_ifs at h
    split at h
    · exact absurd h (by simp)
    · rename_i data _
      obtain ⟨u, hfree, hrecv⟩ := Option.bind_eq_some_iff.mp h
      have hzero : ((t.setBuf j { t.buf j with frame := gluedFrame data }).buf j).frame.protocol
          = 0 := by
        simp [Stack.setBuf, gluedFrame, Frame.protocol, Ip.offsetIpdata]
      rw [ipDoRecv_of_protocol (protocol_freeFragList hfree hzero)] at hrecv
      exact ⟨_, u, hfree, Or.inr ⟨j, hused, hcust, (some.inj hrecv).symm⟩⟩

/-- To a buffer in use `ip_fragment_glue` does what `free_frag_list` does. -/
theorem fate_ipFragmentGlue (hi : s.used i = true)
    (h : ipFragmentGlue net env fuel s k = some s') :
    ∃ t u, freeFragList t k = some u ∧ t.fate i = s.fate i ∧ s'.fate i = u.fate i := by
  obtain ⟨t, u, hfree, ⟨hcust, rfl⟩ | ⟨j, hj, hcust, rfl⟩⟩ := ipFragmentGlue_spec h
  · exact ⟨t, s', hfree, by rw [hcust], rfl⟩
  · obtain ⟨hne, hti⟩ := fate_acquire_of_used hcust hj hi
    exact ⟨t, u, hfree, hti, fate_freeSkbuff_of_ne hne⟩

theorem fate_ipFragmentGlue_of_held (hi : (s.fate i).Held)
    (h : ipFragmentGlue net env fuel s k = some s') : s'.fate i = s.fate i := by
  obtain ⟨t, u, hfree, ht, hu⟩ := fate_ipFragmentGlue hi.1 h
  rw [hu, fate_freeFragList_of_notMem (Held.not_mem (ht ▸ hi) _) hfree, ht]

theorem fate_ipFragmentGlue_of_count (hi : s.used i = true) (hone : (s.fate i).on (.frag k) = 1)
    (h : ipFragmentGlue net env fuel s k = some s') :
    s'.fate i = (s.fate i).release := by
  obtain ⟨t, u, hfree, ht, hu⟩ := fate_ipFragmentGlue hi h
  rw [← ht] at hone
  rw [hu, fate_freeFragList_of_count hone hfree, ht]

theorem countAndGlue_cases (h : countAndGlue net env fuel s k j = some s') :
    ∃ f, ipFragmentGlue net env fuel (s.setSlot k f) k = some s' ∨ s' = s.setSlot k f := by
  unfold countAndGlue at h
  simp only at h
  split_ifs at h
  · exact ⟨_, Or.inl h⟩
  · exact ⟨_, Or.inr (some.inj h).symm⟩

/-- A fragment whose datagram is known already is neither linked nor freed. -/
theorem fate_countAndGlue_of_held (hi : (s.fate i).Held)
    (h : countAndGlue net env fuel s k j = some s') : s'.fate i = s.fate i := by
  obtain ⟨f, hglue | rfl⟩ := countAndGlue_cases h
  · exact fate_ipFragmentGlue_of_held (s := s.setSlot k f) hi hglue
  · rfl

/-- The first fragment is linked, and freed with its list if the datagram is complete. -/
theorem lands_countAndGlue (hi : (s.fate i).Held) (ht : t.fate i = (s.fate i).link (.frag k))
    (h : countAndGlue net env fuel t k i = some s') :
    Lands (s.fate i) (s'.fate i) := by
  have hone : (t.fate i).on (.frag k) = 1 := by
    rw [ht, Fate.link_on_self, hi.2]
  have hused : t.used i = true := (congrArg Fate.used ht).trans hi.1
  obtain ⟨f, hglue | rfl⟩ := countAndGlue_cases h
  · left
    have hrel : s'.fate i = (t.fate i).release :=
      fate_ipFragmentGlue_of_count (s := t.setSlot k f) hused hone hglue
    rw [hrel, ht, hi.release_link]
  · exact Or.inr (Or.inr ⟨.frag k, trivial, ht⟩)

/-- What `ip_try_fragment_glue` does with a fragment: it is counted for the datagram that is
known, freed for want of a slot, or the first of a new list. -/
theorem ipTryFragmentGlue_cases (h : ipTryFragmentGlue net env fuel s i = some s') :
    (Ip.searchFragList s.slot (ipId (s.buf i).frame) ≠ none ∧
        ∃ k, countAndGlue net env fuel s k i = some s') ∨
      Ip.searchFragList s.slot (ipId (s.buf i).frame) = none ∧ (s' = freeSkbuff s i ∨
        ∃ k f, countAndGlue net env fuel (listAddTail (s.setSlot k f) (.frag k) i) k i =
          some s') := by
  unfold ipTryFragmentGlue addFragList at h
  cases hsearch : Ip.searchFragList s.slot (ipId (s.buf i).frame) with
  | some k =>
    rw [hsearch] at h
    exact Or.inl ⟨by simp, k, h⟩
  | none =>
    rw [hsearch] at h
    refine Or.inr ⟨rfl, ?_⟩
    cases hfree : Ip.searchFragList s.slot 0 with
    | none =>
      simp only [hfree, some.injEq] at h
      exact Or.inl h.symm
    | some k =>
      simp only [hfree] at h
      by_cases hlinked : (s.slot k).head.isSome = true
      · simp only [hlinked, if_true] at h
        exact Or.inr ⟨k, _, h⟩
      · simp only [hlinked] at h
        exact absurd h (by simp)

theorem ipTryFragmentGlue_spec (hi : (s.fate i).Held)
    (h : ipTryFragmentGlue net env fuel s i = some s') :
    Decides (Ip.searchFragList s.slot (ipId (s.buf i).frame) = none) (s.fate i) (s'.fate i) := by
  rcases ipTryFragmentGlue_cases h with ⟨hne, k, hcount⟩ | ⟨hnone, hlands⟩
  · exact ⟨fun hnone => absurd hnone hne, fun _ => fate_countAndGlue_of_held hi hcount⟩
  · refine ⟨fun _ => ?_, fun hne => absurd hnone hne⟩
    rcases hlands with rfl | ⟨k, f, hcount⟩
    · exact Or.inl fate_freeSkbuff_self
    · exact lands_countAndGlue hi (fate_listAddTail_self (s := s.setSlot k f) (.frag k)) hcount

/-! ## ARP -/

/-- One round of `arp_send_q` touches the buffer it looks at only, which is on the queue. -/
theorem arpSendQLoop_cons (env : Env) (j : ℕ) (list : List ℕ) (s : Stack) :
    ∃ t, arpSendQLoop env (j :: list) s = arpSendQLoop env list t ∧
      (∀ i, i ≠ j → t.fate i = s.fate i) ∧ (s.Sound → j ∈ s.queue .arpSendQ → t.Sound) := by
  rw [arpSendQLoop]
  cases searchArpTable s (s.buf j).daddr with
  | some a =>
    refine ⟨_, rfl, fun i hne => ?_, fun hs hj =>
      sound_netifTxQueue (s := listDel s j) hs.unlink (hs.held_of_mem hj) _⟩
    rw [fate_netifTxQueue_of_ne _ _ _ hne, listDel, Custody.fate_unlink, if_neg hne]
  | none =>
    simp only
    generalize (if (s.buf j).timeout ≠ 0 then (s.buf j).timeout - 1 else 0) = timeout
    split_ifs
    · exact ⟨_, rfl, fun i hne => fate_freeSkbuff_of_ne (s := s.setBuf j _) hne,
        fun hs _ => sound_freeSkbuff (s := s.setBuf j _) hs j⟩
    · exact ⟨_, rfl, fun _ _ => rfl, fun hs _ => hs⟩

/-- The queue's loop does not touch a buffer that is not on the queue. -/
theorem fate_arpSendQLoop (list : List ℕ) (hi : i ∉ list) :
    (arpSendQLoop env list s).fate i = s.fate i := by
  induction list generalizing s with
  | nil => rfl
  | cons j list ih =>
    obtain ⟨t, hround, hfate, -⟩ := arpSendQLoop_cons env j list s
    rw [hround, ih fun h => hi (mem_cons_of_mem _ h),
      hfate i fun h => hi (h ▸ mem_cons_self)]

/-- A buffer that has landed elsewhere is not touched by `arp_send_q`. -/
theorem lands_arpSendQ {v : Fate Head} (h : Lands v (s.fate i))
    (hq : (s.fate i).on .arpSendQ = 0) : Lands v ((arpSendQ env s).fate i) := by
  rw [arpSendQ, fate_arpSendQLoop _ (not_mem_of_on_eq_zero hq)]
  exact h

theorem lands_freed_arpSendQ (hi : (s.fate i).Held) (ht : t.fate i = s.fate i) :
    Lands (s.fate i) ((arpSendQ env (freeSkbuff t i)).fate i) := by
  have hfate : (freeSkbuff t i).fate i = (s.fate i).release := by
    rw [fate_freeSkbuff_self, ht]
  refine lands_arpSendQ (Or.inl hfate) ?_
  rw [hfate]
  exact hi.release_on _

theorem lands_sent_arpSendQ (ndev : ℕ) (hi : (s.fate i).Held) (ht : t.fate i = s.fate i) :
    Lands (s.fate i) ((arpSendQ env (netifTxQueue env t ndev i).2).fate i) := by
  have hlands := lands_netifTxQueue env t ndev i
  rw [ht] at hlands
  refine lands_arpSendQ hlands ?_
  rcases fate_netifTxQueue_self env t ndev i with h | ⟨back, h⟩
  · rw [h, ht, Fate.link_on_of_ne (by simp)]
    exact hi.2 _
  · rw [h, ht]
    exact hi.handOver_on back _

theorem lands_arpProcess (hi : (s.fate i).Held) :
    Lands (s.fate i) ((arpProcess net env s i).fate i) := by
  unfold arpProcess
  simp only
  split_ifs
  · exact lands_sent_arpSendQ _ hi rfl
  · exact lands_freed_arpSendQ hi rfl
  · exact lands_freed_arpSendQ hi rfl
  · exact Or.inl fate_freeSkbuff_self

/-- After `add_arp_table` an address is found, unless it was unknown and the table is full. -/
theorem searchArpTable_addArpTable (s : Stack) (mac : Arp.Mac) (ip : BitVec 32) (ndev : ℕ) :
    searchArpTable (addArpTable s mac ip ndev) ip ≠ none ↔
      searchArpTable s ip ≠ none ∨ searchArpTable s 0 ≠ none := by
  unfold addArpTable Arp.addArpTable searchArpTable
  by_cases h0 : ip = 0
  · simp [h0]
  rw [if_neg h0]
  cases hip : Arp.searchArpTable ⟨s.table, []⟩ ip with
  | some a => simp [hip]
  | none =>
    cases hfree : Arp.searchArpTable ⟨s.table, []⟩ 0 with
    | none => simp [hip]
    | some a =>
      simp only [ne_eq, not_true_eq_false, reduceCtorEq, not_false_eq_true, or_true, iff_true]
      -- the place that was free holds the address now
      intro hnone
      have hmem : a ∈ range Arp.maxArpTableNum := mem_of_find?_eq_some hfree
      have hat := find?_eq_none.mp hnone a hmem
      simp at hat

/-- What `updata_arp_table` does: the sender of the packet is found afterwards, unless the table
is full. -/
theorem updataArpTable_spec (net : Net) (s : Stack) (i : ℕ) :
    (∃ table, updataArpTable net s i = { s with table := table }) ∧
      (searchArpTable (updataArpTable net s i) (ipSaddr net.big (s.buf i).frame) ≠ none ↔
        searchArpTable s (ipSaddr net.big (s.buf i).frame) ≠ none ∨ searchArpTable s 0 ≠ none) := by
  unfold updataArpTable
  simp only
  cases hsearch : searchArpTable s (ipSaddr net.big (s.buf i).frame) with
  | some a => exact ⟨⟨s.table, rfl⟩, by simp [hsearch]⟩
  | none =>
    have hadd := searchArpTable_addArpTable s (macAt (s.buf i).frame 6)
      (ipSaddr net.big (s.buf i).frame) (s.buf i).ndev
    rw [hsearch] at hadd
    exact ⟨⟨_, rfl⟩, hadd⟩

/-! ## `eth_recv` -/

theorem Decides.conserved_iff {p : Prop} (h : Decides p (s.fate i) (s'.fate i))
    (hi : (s.fate i).Held) : Conserved s s' i ↔ p := by
  constructor
  · intro hcons
    by_contra hp
    exact not_conserved_of_eq hi (h.2 hp) hcons
  · intro hp
    exact conserved_of_lands hi (h.1 hp)

/-- The echo, after the sender's address has been learnt. -/
theorem routed_iff_echoSent {table : ℕ → Arp.ArpTable}
    (hknown : searchArpTable { s with table := table } (ipSaddr net.big (s.buf i).frame) ≠ none ↔
      searchArpTable s (ipSaddr net.big (s.buf i).frame) ≠ none ∨ searchArpTable s 0 ≠ none) :
    Routed net env (Stack.setBuf { s with table := table } i
        { s.buf i with dataLen := (s.buf i).frame.totLen + 14 }) i
        (ipSaddr net.big (s.buf i).frame) ↔ EchoSent net env s i := by
  set t := Stack.setBuf { s with table := table } i
    { s.buf i with dataLen := (s.buf i).frame.totLen + 14 } with ht
  have hlen : (t.buf i).dataLen = (s.buf i).frame.totLen + 14 := by simp [ht, Stack.setBuf]
  have hsearch : searchArpTable t (ipSaddr net.big (s.buf i).frame) ≠ none ↔
    searchArpTable s (ipSaddr net.big (s.buf i).frame) ≠ none ∨ searchArpTable s 0 ≠ none := hknown
  have hsent : ∀ ndev, RequestSent env t ndev ↔ RequestSent env s ndev := fun _ => Iff.rfl
  have hdev : t.devices = s.devices := rfl
  unfold Routed EchoSent
  rw [hdev, hlen, hsearch]
  simp only [hsent, or_assoc]

/-- Whatever the frame and the state: a buffer that is in use and on no queue is conserved by
`eth_recv` exactly if the condition holds. -/
theorem conserved_iff_of_held (hi : (s.fate i).Held) (h : ethRecv net env fuel s i = some s') :
    Conserved s s' i ↔ Meets net env s i := by
  unfold ethRecv at h
  unfold Meets
  by_cases hip : (s.buf i).frame.hProto = ETH_P_IP
  · rw [if_pos hip] at h
    obtain ⟨⟨table, htable⟩, hknown⟩ := updataArpTable_spec net s i
    rw [htable] at h hknown
    unfold ipRecv at h
    simp only [hip, true_imp_iff]
    by_cases hfrag : (s.buf i).frame.IsFragment
    · rw [if_pos hfrag] at h
      have hspec := ipTryFragmentGlue_spec (s := { s with table := table }) hi h
      simp only [hfrag, true_imp_iff, not_true_eq_false, false_imp_iff, and_true]
      exact hspec.conserved_iff hi
    · rw [if_neg hfrag] at h
      unfold ipDoRecv at h
      simp only [hfrag, false_imp_iff, not_false_eq_true, true_imp_iff, true_and]
      by_cases hicmp : (s.buf i).frame.protocol = PROTO_ICMP
      · simp only [hicmp, if_true] at h
        simp only [hicmp, true_imp_iff]
        have hspec := icmpProcess_spec (s := { s with table := table }) hi.1 h
        rw [← routed_iff_echoSent hknown]
        exact hspec.conserved_iff hi
      · simp only [hicmp, if_false] at h
        simp only [hicmp, false_imp_iff, iff_true]
        refine conserved_of_lands hi ?_
        split_ifs at h
        · rw [← some.inj h]
          exact lands_udpProcess _ _
        · exact lands_tcpProcess (s := { s with table := table }) hi h
        · rw [← some.inj h]
          exact Or.inl fate_freeSkbuff_self
  · rw [if_neg hip] at h
    simp only [hip, false_imp_iff, iff_true]
    refine conserved_of_lands hi ?_
    split_ifs at h
    · rw [← some.inj h]
      exact lands_arpProcess hi
    · rw [← some.inj h]
      exact Or.inl fate_freeSkbuff_self

/-! ## No buffer is on two queues -/

section

variable (hs : s.Sound)

include hs

theorem sound_freeIsock (k : ℕ) : (freeIsock s k).Sound :=
  sound_foldl_freeSkbuff (sound_foldl_freeSkbuff hs _) _

theorem sound_freeFragList (h : freeFragList s k = some s') : s'.Sound := by
  unfold freeFragList at h
  split_ifs at h
  rw [← some.inj h]
  exact sound_foldl_freeSkbuff hs _

theorem sound_ipFragmentGlue (h : ipFragmentGlue net env fuel s k = some s') : s'.Sound := by
  obtain ⟨t, u, hfree, ⟨hcust, rfl⟩ | ⟨j, -, hcust, rfl⟩⟩ := ipFragmentGlue_spec h
  · refine sound_freeFragList ?_ hfree
    rw [hcust]
    exact hs
  · refine sound_freeSkbuff (sound_freeFragList ?_ hfree) j
    rw [hcust]
    exact hs.acquire

theorem sound_countAndGlue (h : countAndGlue net env fuel s k j = some s') : s'.Sound := by
  obtain ⟨f, hglue | rfl⟩ := countAndGlue_cases h
  · exact sound_ipFragmentGlue (s := s.setSlot k f) hs hglue
  · exact hs

variable (hi : (s.fate i).Held)

include hi

theorem sound_ipSend {r : ℤ × Stack} (h : ipSend net env fuel s i dest = some r) : r.2.Sound := by
  unfold ipSend at h
  cases hdev : s.devices.head? with
  | none =>
    rw [hdev] at h
    rw [← some.inj h]
    exact hs
  | some ndev =>
    simp only [hdev] at h
    set t := s.setBuf i { s.buf i with ndev := ndev }
    have hts : t.Sound := hs
    have hti : (t.fate i).Held := hi
    split_ifs at h
    · obtain ⟨u, hu, -, hus⟩ := ipFragmentLoop_spec hti.1 h
      rw [hu]
      exact sound_freeSkbuff (hus hts) i
    · rw [← some.inj h]
      exact sound_ipDoSend (s := t.setBuf i _) hts hti dest ndev

theorem sound_tcpProcess (h : tcpProcess net env s i = some s') : s'.Sound := by
  rcases tcpProcess_cases h with ⟨k, n, hlink⟩ | ⟨t, hfree, ht⟩
  · rw [hlink]
    exact hs.link hi _ _
  · rw [hfree]
    refine sound_freeSkbuff ?_ i
    rcases ht with ht | ⟨u, k, hu, rfl⟩
    · rwa [ht]
    · exact sound_freeIsock (by rwa [hu]) k

theorem sound_ipDoRecv (h : ipDoRecv net env fuel s i = some s') : s'.Sound := by
  unfold ipDoRecv at h
  simp only at h
  split_ifs at h
  · obtain ⟨r, hr, rfl⟩ := Option.map_eq_some_iff.mp h
    exact sound_ipSend (s := s.setBuf i _) hs hi hr
  · rw [← some.inj h, udpProcess]
    split
    · exact sound_freeSkbuff hs i
    · exact sound_listAddTail hs hi _
  · exact sound_tcpProcess hs hi h
  · rw [← some.inj h]
    exact sound_freeSkbuff hs i

theorem sound_ipTryFragmentGlue
    (h : ipTryFragmentGlue net env fuel s i = some s') : s'.Sound := by
  rcases ipTryFragmentGlue_cases h with ⟨_, k, hcount⟩ | ⟨_, rfl | ⟨k, f, hcount⟩⟩
  · exact sound_countAndGlue hs hcount
  · exact sound_freeSkbuff hs i
  · exact sound_countAndGlue (sound_listAddTail (s := s.setSlot k f) hs hi _) hcount

end

/-- The buffers that `arp_send_q` still has to look at are on the queue. -/
theorem sound_arpSendQLoop (list : List ℕ) (hs : s.Sound) (hnodup : list.Nodup)
    (hlist : ∀ j ∈ list, j ∈ s.queue .arpSendQ) : (arpSendQLoop env list s).Sound := by
  induction list generalizing s with
  | nil => exact hs
  | cons j list ih =>
    obtain ⟨hj, hrest⟩ := nodup_cons.mp hnodup
    obtain ⟨t, hround, hfate, hsound⟩ := arpSendQLoop_cons env j list s
    rw [hround]
    refine ih (hsound hs (hlist j mem_cons_self)) hrest fun i hi => ?_
    -- the round leaves the fate of the others alone, so that they stay on the queue
    have hne : i ≠ j := fun h => hj (h ▸ hi)
    have hon := congrFun (congrArg Fate.on (hfate i hne)) .arpSendQ
    apply count_pos_iff.mp
    rw [show (t.queue .arpSendQ).count i = (s.queue .arpSendQ).count i from hon]
    exact count_pos_iff.mpr (hlist i (mem_cons_of_mem _ hi))

theorem sound_arpSendQ (hs : s.Sound) : (arpSendQ env s).Sound := by
  refine sound_arpSendQLoop _ hs ?_ fun j hj => hj
  rw [nodup_iff_count_le_one]
  exact fun j => (hs j).once .arpSendQ

theorem sound_arpProcess (hs : s.Sound) (hi : (s.fate i).Held) :
    (arpProcess net env s i).Sound := by
  unfold arpProcess
  simp only
  split_ifs
  · refine sound_arpSendQ (sound_netifTxQueue ?_ ?_ _)
    · exact hs
    · exact hi
  · exact sound_arpSendQ (sound_freeSkbuff hs i)
  · exact sound_arpSendQ (sound_freeSkbuff hs i)
  · exact sound_freeSkbuff hs i

theorem sound_ethRecv (hs : s.Sound) (hi : (s.fate i).Held)
    (h : ethRecv net env fuel s i = some s') : s'.Sound := by
  unfold ethRecv at h
  simp only at h
  split_ifs at h
  · obtain ⟨⟨table, htable⟩, -⟩ := updataArpTable_spec net s i
    rw [htable] at h
    unfold ipRecv at h
    split_ifs at h
    · exact sound_ipTryFragmentGlue (s := { s with table := table }) hs hi h
    · exact sound_ipDoRecv (s := { s with table := table }) hs hi h
  · rw [← some.inj h]
    exact sound_arpProcess hs hi
  · rw [← some.inj h]
    exact sound_freeSkbuff hs i

theorem sound_ipTimerTick (hs : s.Sound) (h : ipTimerTick env s = some s') : s'.Sound := by
  unfold ipTimerTick at h
  generalize List.finRange 32 = slots at h
  induction slots generalizing s with
  | nil =>
    rw [← some.inj h]
    exact hs
  | cons k slots ih =>
    rw [foldlM_cons] at h
    obtain ⟨t, ht, hrest⟩ := Option.bind_eq_some_iff.mp h
    refine ih ?_ hrest
    split_ifs at ht
    · exact sound_freeFragList hs ht
    · rw [← some.inj ht]
      exact hs

theorem sound_netifWakeQueue (hs : s.Sound) (ndev : ℕ) : (netifWakeQueue env s ndev).Sound := by
  unfold netifWakeQueue
  simp only
  split
  · exact hs
  · exact hs.handOver _

theorem sound_booted (h : Booted s) : s.Sound := by
  intro i
  apply Fate.sound_of_on_eq_zero
  intro h'
  show (s.queue h').count i = 0
  rw [h.queue h', count_nil]

/-- One step of the stack. -/
theorem sound_step (hs : s.Sound) (h : Step net s s') : s'.Sound := by
  cases h with
  | netifRx env f ndev halloc =>
    have hts := sound_of_alloc hs halloc
    have hti := held_of_alloc hs halloc
    exact sound_listAddTail (s := Stack.setBuf _ _ _) hts hti _
  | recv env fuel hq h =>
    refine sound_ethRecv (s := listDel s _) hs.unlink (hs.held_of_mem (h := .rx) ?_) h
    rw [hq]
    exact mem_cons_self
  | ipTick env h => exact sound_ipTimerTick hs h
  | arpTick env => exact sound_arpSendQ hs
  | wake env ndev => exact sound_netifWakeQueue hs ndev
  | read k n => exact sound_foldl_freeSkbuff hs _
  | send env fuel len b dest halloc h =>
    have hts := sound_of_alloc hs halloc
    have hti := held_of_alloc hs halloc
    exact sound_ipSend (s := Stack.setBuf _ _ b) hts hti h
  | delay env len b k halloc =>
    have hts := sound_of_alloc hs halloc
    have hti := held_of_alloc hs halloc
    exact sound_listAddTail (s := Stack.setBuf _ _ b) hts hti _
  | sendDelayed env fuel k dest hq h =>
    refine sound_ipSend (s := listDel s _) hs.unlink (hs.held_of_mem (h := .ackQueue k) ?_) h
    rw [hq]
    exact mem_cons_self
  | close k => exact sound_freeIsock hs k
  | other devices demux udpQueue sock => exact hs

/-- **In every state of every run** each buffer is linked to one list head at most, once, and
only while it is in use. -/
theorem sound_reaches (h : Reaches net s) : s.Sound := by
  induction h with
  | boot h => exact sound_booted h
  | step _ hstep ih => exact sound_step ih hstep

end

/-! ## A datagram in two fragments -/

/-- One kind of device, on a little-endian processor. -/
def oneCard : Net := ⟨false, fun _ => ⟨1514, 0xc0a80102⟩⟩

/-- Memory and the driver never fail. -/
def calm : Env where
  kmalloc := fun _ _ => true
  xmit := fun _ => ⟨0, false, true⟩
  tcp := []
  mss := none
  now := 0

/-- A fragment of datagram 7 with eight bytes of payload; `hi` and `lo` are the bytes of
`frag_off`. -/
def fragment (hi lo : Byte) : Frame where
  n := 42
  mem := fun a =>
    if a = 12 then 0x08 else if a = 14 then 0x45 else if a = 17 then 28 else if a = 19 then 7
    else if a = 20 then hi else if a = 21 then lo else if a = 23 then 0x11 else 0
  n_lt := by omega

/-- The stack after its start, with one device. -/
def bootStack : Stack where
  used := fun _ => false
  queue := fun _ => []
  released := []
  handed := []
  buf := fun _ => Buf.zero
  slot := fun _ => .unused ()
  table := Arp.init.table
  devices := [0]
  xoff := fun _ => false
  demux := TcpDemux.bootState
  udpQueue := []
  sock := fun _ => Tcp.newSock
  asked := 0

/-- The frame is put on `netif_rx_queue`. -/
def arrive (s : Stack) (f : Frame) : Stack :=
  match allocSkbuff calm s (BitVec.ofNat 16 f.n) with
  | (some i, t) => listAddTail (t.setBuf i (Buf.received f 0)) .rx i
  | (none, t) => t

/-- The first fragment has arrived. -/
def oneFragment : Stack := arrive bootStack (fragment 0x20 0x00)

/-- The first fragment has been received, and the second one has arrived. -/
def twoFragments : Stack :=
  arrive ((ethRecv oneCard calm 0 (listDel oneFragment 0) 0).getD oneFragment) (fragment 0x00 0x01)

theorem reaches_arrive {net : Net} {s : Stack} {i : ℕ} (hs : Reaches net s)
    (hi : firstUnused s = some i) (f : Frame) : Reaches net (arrive s f) := by
  have halloc : allocSkbuff calm s (BitVec.ofNat 16 f.n) =
      (some i, (allocSkbuff calm s (BitVec.ofNat 16 f.n)).2) := by
    simp [allocSkbuff, hi, calm]
  unfold arrive
  rw [halloc]
  exact hs.step (.netifRx calm f 0 halloc)

theorem reaches_oneFragment : Reaches oneCard oneFragment := by
  have hboot : Booted bootStack := ⟨fun _ => rfl, fun _ => rfl, fun _ => rfl, fun _ => rfl⟩
  exact reaches_arrive (i := 0) (.boot hboot) (by decide +kernel) _

theorem isSome_ethRecv_oneFragment :
    (ethRecv oneCard calm 0 (listDel oneFragment 0) 0).isSome = true := by
  decide +kernel

theorem reaches_twoFragments : Reaches oneCard twoFragments := by
  obtain ⟨s, hs⟩ := Option.isSome_iff_exists.mp isSome_ethRecv_oneFragment
  have hfirst : firstUnused
      ((ethRecv oneCard calm 0 (listDel oneFragment 0) 0).getD oneFragment) = some 1 := by
    decide +kernel
  unfold twoFragments
  rw [hs, Option.getD_some] at hfirst ⊢
  have hq : oneFragment.queue .rx = [0] := by decide +kernel
  exact reaches_arrive (reaches_oneFragment.step (.recv calm 0 hq hs)) hfirst _

end EthRecv

end Yap
