/-
# IP fragmentation and reassembly (`net/inet/ip.c`)

The sender cuts a datagram that is longer than the device's mtu into fragments
(`ip_fragment`); the receiver keeps a table of 32 slots, one for each datagram under
reassembly, and hands a datagram to `ip_do_recv` when a slot is complete.

Header fields are kept as they lie in memory, so every read through `ntohs` is visible;
`big` says whether the processor is big endian.  A buffer is its header and its bytes
from `OFFSET_IPDATA` to the end of the allocation.  A result `none` is an access outside
a buffer, or through the null links that `free_frag_list` leaves in a slot.

`glued_header_zero` is the reason why reassembly does not invert fragmentation:
`ip_fragment_glue` never writes the header of the buffer it allocates.
-/
import Yap.Bytes
import Yap.Headers
import Mathlib.Data.List.Perm.Basic
import Mathlib.Data.List.FinRange
import Mathlib.Algebra.Order.Group.Nat

namespace Yap

namespace Ip

open List BitVec Option

/-! ## Headers and buffers -/

/-- `BigLittleSwap16`. -/
def bigLittleSwap16 (x : BitVec 16) : BitVec 16 := (x >>> 8) ||| (x <<< 8)

section

variable (big : Bool)

/-- `htons`. -/
def htons (h : BitVec 16) : BitVec 16 := if big then h else bigLittleSwap16 h

/-- `ntohs`. -/
def ntohs (n : BitVec 16) : BitVec 16 := if big then n else bigLittleSwap16 n

/-- `BigLittleSwap32`. -/
def bigLittleSwap32 (x : BitVec 32) : BitVec 32 :=
  ((x &&& 0xff000000) >>> 24) ||| ((x &&& 0x00ff0000) >>> 8) |||
    ((x &&& 0x0000ff00) <<< 8) ||| ((x &&& 0x000000ff) <<< 24)

/-- `htonl`. -/
def htonl (h : BitVec 32) : BitVec 32 := if big then h else bigLittleSwap32 h

/-- `ntohl`. -/
def ntohl (n : BitVec 32) : BitVec 32 := if big then n else bigLittleSwap32 n

/-- `OFFSET_IPDATA`: an Ethernet header and an IP header. -/
def offsetIpdata : ℕ := 34

/-- `SIZEOF_IPHDR`. -/
def sizeofIphdr : ℕ := 20

/-- `IP_MF`. -/
def ipMF : BitVec 16 := 0x2000

/-- `IP_FRAG_MASK`, on sixteen bits. -/
def ipFragMask : BitVec 16 := 0x1fff

/-- `struct iphdr`. -/
structure IpHdr where
  version : BitVec 8
  tos : BitVec 8
  totLen : BitVec 16
  id : BitVec 16
  fragOff : BitVec 16
  ttl : BitVec 8
  protocol : BitVec 8
  check : BitVec 16
  saddr : BitVec 32
  daddr : BitVec 32
  deriving DecidableEq, Repr

/-- The header of a buffer that `kmalloc` has just cleared. -/
def IpHdr.zero : IpHdr := ⟨0, 0, 0, 0, 0, 0, 0, 0, 0, 0⟩

/-- The bytes of a header. -/
def IpHdr.bytes (h : IpHdr) : List Byte :=
  [h.version, h.tos] ++ halfBytes big h.totLen ++ halfBytes big h.id ++ halfBytes big h.fragOff ++
    [h.ttl, h.protocol] ++ halfBytes big h.check ++ wordBytes big h.saddr ++ wordBytes big h.daddr

/-- `tmp->value`, of the next two bytes. -/
def checkPtr (a b : Byte) : BitVec 16 := if big then a ++ b else b ++ a

/-- The loop of `__inet_chksum`.  A last single byte would be read together with the byte behind
the buffer. -/
def inetChksumLoop (big : Bool) : List Byte → BitVec 32 → Option (BitVec 32)
  | [], cksum => some cksum
  | [_], _ => none
  | a :: b :: rest, cksum => inetChksumLoop big rest (cksum + (checkPtr big a b).setWidth 32)

/-- `__inet_chksum(buffer, size)`, for the bytes of the buffer. -/
def inetChksum (buffer : List Byte) : Option (BitVec 16) :=
  (inetChksumLoop big buffer 0).map fun cksum : BitVec 32 =>
    let cksum := (cksum >>> 16) + (cksum &&& 0xffff)
    let cksum := cksum + (cksum >>> 16)
    (~~~cksum).setWidth 16

/-- `iph->check = 0; iph->check = __inet_chksum(iph, SIZEOF_IPHDR)`.  The header has an even number
of bytes, so there is a result. -/
def IpHdr.checked (h : IpHdr) : IpHdr :=
  { h with check := (inetChksum big (IpHdr.bytes big { h with check := 0 })).getD 0 }

/-- `struct sk_buff`: the IP header, the bytes behind it, and `data_len`. -/
structure SkBuff where
  iph : IpHdr
  data : List Byte
  dataLen : BitVec 16
  deriving DecidableEq, Repr

/-- The buffer of `alloc_skbuff(len)`, all of whose bytes are zero. -/
def allocSkbuff (len : BitVec 16) : SkBuff :=
  ⟨IpHdr.zero, replicate (len.toNat - offsetIpdata) 0, 0⟩

/-- `memcpy(dest + off, src, n)`, inside both buffers. -/
def memcpy (dest : List Byte) (off : ℕ) (src : List Byte) (n : ℕ) : Option (List Byte) :=
  if off + n ≤ dest.length ∧ n ≤ src.length then
    some (dest.take off ++ src.take n ++ dest.drop (off + n))
  else none

/-- The IP payload of a datagram: what follows the header, up to the length the header
gives. -/
def ipPayload (skb : SkBuff) : List Byte :=
  skb.data.take ((ntohs big skb.iph.totLen).toNat - sizeofIphdr)

/-! ## Sending -/

/-- What `ip_send` reads of the device. -/
structure NetDevice where
  mtu : BitVec 16
  /-- `htonl(ndev->ip)` -/
  saddr : BitVec 32

/-- `ip_data_len`: the bytes of payload in the next fragment. -/
def ipDataLen (mtu totalLen : BitVec 16) : BitVec 16 :=
  let n : BitVec 16 := ((mtu.setWidth 32 - 34) / 8).setWidth 16 * 8
  if totalLen < n then totalLen else n

/-- The header of the fragment at `fragoff` with `n` bytes of payload, `left` bytes to
follow, before the checksum is taken. -/
def fragmentFields (ndev : NetDevice) (daddr : BitVec 32) (proto : BitVec 8)
    (id fragoff n left : BitVec 16) : IpHdr where
  version := 0x45
  tos := 0
  totLen := htons big (n + 20)
  id := htons big id
  fragOff := if left ≠ 0 then htons big ((fragoff >>> 3) ||| ipMF) else htons big (fragoff >>> 3)
  ttl := 128
  protocol := proto
  check := 0
  saddr := ndev.saddr
  daddr := daddr

/-- The header of a fragment. -/
def fragmentHeader (ndev : NetDevice) (daddr : BitVec 32) (proto : BitVec 8)
    (id fragoff n left : BitVec 16) : IpHdr :=
  (fragmentFields big ndev daddr proto id fragoff n left).checked big

/-- The loop of `ip_fragment`: the buffers handed to `ip_do_send`, and the result.
`alloc` says in turn whether `alloc_skbuff` succeeds, `send` what `ip_do_send` returns. -/
def ipFragmentLoop (big : Bool) (skb : SkBuff) (daddr : BitVec 32) (proto : BitVec 8)
    (ndev : NetDevice) (id : BitVec 16) :
    ℕ → BitVec 16 → BitVec 16 → List Bool → List ℤ → Option (List SkBuff × ℤ)
  | 0, _, _, _, _ => none
  | fuel + 1, totalLen, fragoff, alloc, send =>
    if totalLen = 0 then some ([], 0)
    else if alloc.headD true = false then some ([], -ENOMEM)
    else
      let n := ipDataLen ndev.mtu totalLen
      match memcpy (allocSkbuff ndev.mtu).data 0 (skb.data.drop fragoff.toNat) n.toNat with
      | none => none
      | some data =>
        let left := totalLen - n
        let skbnew : SkBuff := ⟨fragmentHeader big ndev daddr proto id fragoff n left, data, n + 34⟩
        if send.headD 0 < 0 then some ([skbnew], - EIO)
        else
          match ipFragmentLoop big skb daddr proto ndev id fuel left (fragoff + n)
              alloc.tail send.tail with
          | none => none
          | some (frags, ret) => some (skbnew :: frags, ret)

/-- `ip_fragment`.  `id` is `ip_data_id` after its increment. -/
def ipFragment (skb : SkBuff) (daddr : BitVec 32) (proto : BitVec 8)
    (ndev : NetDevice) (id : BitVec 16) (alloc : List Bool) (send : List ℤ) :
    Option (List SkBuff × ℤ) :=
  let totalLen := skb.dataLen - 14 - 20
  ipFragmentLoop big skb daddr proto ndev id (totalLen.toNat + 1) totalLen 0 alloc send

/-- `ip_send`, for a destination with a route: the buffers handed to `ip_do_send`. -/
def ipSend (skb : SkBuff) (daddr : BitVec 32) (proto : BitVec 8)
    (ndev : NetDevice) (ipDataId : BitVec 16) (alloc : List Bool) (send : List ℤ) :
    Option (List SkBuff × ℤ) :=
  let id := ipDataId + 1
  if ndev.mtu < skb.dataLen then ipFragment big skb daddr proto ndev id alloc send
  else
    -- `frag_off` is left as the caller has it
    let iph : IpHdr :=
      { fragmentFields big ndev daddr proto id 0 (skb.dataLen - 34) 0 with
        fragOff := skb.iph.fragOff }
    some ([{ skb with iph := iph.checked big }], send.headD 0)

/-! ## Receiving -/

/-- `IP_FRAG_LIFETIME`. -/
def ipFragLifetime : BitVec 32 := 100

/-- `struct ipfrag`.  The list is `none` when its links are null. -/
structure FragSlot (α : Type) where
  id : BitVec 16
  head : Option α
  currentLen : BitVec 16
  originalLen : BitVec 16
  timeout : BitVec 32
  deriving DecidableEq, Repr

namespace FragSlot

variable {α : Type}

/-- A slot after `ip_init`, with an empty list. -/
def unused (nil : α) : FragSlot α := ⟨0, some nil, 0, 0, 0⟩

/-- A slot after `memset(frag_head, 0, sizeof (struct ipfrag))`. -/
def cleared : FragSlot α := ⟨0, none, 0, 0, 0⟩

/-- The lengths `ip_try_fragment_glue` adds up in a slot. -/
def count (iph : IpHdr) (f : FragSlot α) : FragSlot α :=
  let fragOff := ntohs big iph.fragOff
  { f with
    currentLen := f.currentLen + iph.totLen
    originalLen :=
      if fragOff &&& ipMF = 0 then (fragOff &&& ipFragMask) + iph.totLen else f.originalLen }

/-- The test of `ip_timer_tick`. -/
def Expired (now : BitVec 32) (f : FragSlot α) : Prop :=
  f.id ≠ 0 ∧ ipFragLifetime < now - f.timeout

instance (now : BitVec 32) (f : FragSlot α) : Decidable (f.Expired now) :=
  inferInstanceAs (Decidable (_ ∧ _))

end FragSlot

/-- `search_frag_list`. -/
def searchFragList {α : Type} (slot : Fin 32 → FragSlot α) (id : BitVec 16) : Option (Fin 32) :=
  (List.finRange 32).find? fun i => (slot i).id = id

/-- A slot with the buffers that are linked to it. -/
abbrev IpFrag := FragSlot (List SkBuff)

/-- `ip_frag_list_head`, and the buffers `ip_do_recv` was called with. -/
structure State where
  slot : Fin 32 → IpFrag
  calls : List SkBuff

/-- The state `ip_init` leaves. -/
def ipInit : State := ⟨fun _ => .unused [], []⟩

/-- Change one slot. -/
def State.set (s : State) (i : Fin 32) (f : IpFrag) : State :=
  { s with slot := fun j => if j = i then f else s.slot j }

/-- `list_add_tail(&skb->list, &ip_frag_list_head[i].head)` and the other fields
`add_frag_list` writes. -/
def FragSlot.first (now : BitVec 32) (skb : SkBuff) (f : IpFrag) : Option IpFrag :=
  f.head.map fun l =>
    { f with id := ntohs big skb.iph.id, head := some (l ++ [skb]), timeout := now }

/-- `add_frag_list`: the slot taken, if one is unused. -/
def addFragList (now : BitVec 32) (s : State) (skb : SkBuff) :
    Option (State × Option (Fin 32)) :=
  match searchFragList s.slot 0 with
  | none => some (s, none)
  | some i => ((s.slot i).first big now skb).map fun f => (s.set i f, some i)

/-- `free_frag_list`. -/
def freeFragList (s : State) (i : Fin 32) : Option State :=
  (s.slot i).head.map fun _ => s.set i .cleared

/-- `ip_do_recv`, up to the protocol it dispatches to. -/
def ipDoRecv (s : State) (skb : SkBuff) : State := { s with calls := s.calls ++ [skb] }

/-- The copying loop of `ip_fragment_glue`. -/
def glueLoop (big : Bool) : List Byte → List SkBuff → Option (List Byte)
  | data, [] => some data
  | data, frag :: frags =>
    match memcpy data (ntohs big frag.iph.fragOff &&& ipFragMask).toNat frag.data
        frag.iph.totLen.toNat with
    | none => none
    | some data => glueLoop big data frags

/-- `ip_fragment_glue`.  `alloc` says whether `alloc_skbuff` succeeds.  A buffer shorter than
the headers does not hold the header that `ip_do_recv` reads. -/
def ipFragmentGlue (big alloc : Bool) (s : State) (i : Fin 32) : Option State :=
  let f := s.slot i
  if alloc = false then freeFragList s i
  else if f.originalLen.toNat < offsetIpdata then none
  else
    let skb := allocSkbuff f.originalLen
    match f.head.bind (glueLoop big skb.data), freeFragList s i with
    | some data, some s => some (ipDoRecv s { skb with data := data })
    | _, _ => none

/-- The second half of `ip_try_fragment_glue`, with the slot found. -/
def countAndGlue (big alloc : Bool) (s : State) (i : Fin 32) (skb : SkBuff) : Option State :=
  let f := (s.slot i).count big skb.iph
  if f.currentLen = f.originalLen then ipFragmentGlue big alloc (s.set i f) i
  else some (s.set i f)

/-- `ip_try_fragment_glue`. -/
def ipTryFragmentGlue (big alloc : Bool) (now : BitVec 32) (s : State) (skb : SkBuff) :
    Option State :=
  match searchFragList s.slot (ntohs big skb.iph.id) with
  | some i => countAndGlue big alloc s i skb
  | none =>
    match addFragList big now s skb with
    | none => none
    | some (s, none) => some s
    | some (s, some i) => countAndGlue big alloc s i skb

/-- The test of `ip_recv`: a fragment of a longer datagram. -/
def IpHdr.IsFragment (h : IpHdr) : Prop :=
  ntohs big h.fragOff &&& ipMF ≠ 0 ∨ ntohs big h.fragOff &&& ipFragMask ≠ 0

end

instance (big : Bool) (h : IpHdr) : Decidable (h.IsFragment big) :=
  inferInstanceAs (Decidable (_ ∨ _))

/-- `ip_recv`. -/
def ipRecv (big alloc : Bool) (now : BitVec 32) (s : State) (skb : SkBuff) : Option State :=
  if skb.iph.IsFragment big then ipTryFragmentGlue big alloc now s skb
  else some (ipDoRecv s skb)

/-- What `ip_timer_tick` does to one slot. -/
def tickSlot (now : BitVec 32) (s : State) (i : Fin 32) : Option State :=
  if (s.slot i).Expired now then freeFragList s i else some s

/-- `ip_timer_tick`: free the slots that are older than their lifetime. -/
def ipTimerTick (now : BitVec 32) (s : State) : Option State :=
  (List.finRange 32).foldlM (tickSlot now) s

/-- What reaches the receiver. -/
inductive Event : Type where
  | recv (alloc : Bool) (now : BitVec 32) (skb : SkBuff)
  | tick (now : BitVec 32)
  deriving Repr

/-- The buffer that arrives, if one does. -/
def Event.arrival : Event → Option SkBuff
  | .recv _ _ skb => some skb
  | .tick _ => none

/-- One step of the receiver. -/
def step (big : Bool) (s : State) : Event → Option State
  | .recv alloc now skb => ipRecv big alloc now s skb
  | .tick now => ipTimerTick now s

/-- A run of the receiver. -/
def run (big : Bool) (s : State) (es : List Event) : Option State := es.foldlM (step big) s

/-! ## Every fragment is recognised as one -/

@[simp] theorem bigLittleSwap16_bigLittleSwap16 (x : BitVec 16) :
    bigLittleSwap16 (bigLittleSwap16 x) = x := by
  ext i hi
  simp only [bigLittleSwap16, getElem_or, getElem_ushiftRight,
    getElem_shiftLeft, getLsbD_or, getLsbD_ushiftRight,
    getLsbD_shiftLeft]
  have hhigh : x.getLsbD (8 + (8 + i)) = false := getLsbD_of_ge x _ (by omega)
  by_cases h : i < 8
  · simp [h, hhigh, show 8 + i < 16 by omega, ← getLsbD_eq_getElem]
  · have h8 : 8 + (i - 8) = i := by omega
    simp [h, hhigh, show i - 8 < 8 by omega, h8, ← getLsbD_eq_getElem]

@[simp] theorem ntohs_htons (big : Bool) (x : BitVec 16) : ntohs big (htons big x) = x := by
  cases big <;> simp [ntohs, htons]

/-- A fragment with more to follow carries `IP_MF`; the last one has an offset, unless it
is the first as well. -/
theorem isFragment_fragmentHeader (big : Bool) (ndev : NetDevice) (daddr : BitVec 32)
    (proto : BitVec 8) (id fragoff n left : BitVec 16)
    (h : left ≠ 0 ∨ 8 ≤ fragoff.toNat) :
    (fragmentHeader big ndev daddr proto id fragoff n left).IsFragment big := by
  unfold IpHdr.IsFragment fragmentHeader IpHdr.checked fragmentFields
  by_cases hleft : left = 0
  · right
    have hoff := h.resolve_left (fun hne => hne hleft)
    simp only [ne_eq, hleft, not_true_eq_false, if_false, ntohs_htons]
    intro h0
    have hand := congrArg BitVec.toNat h0
    have hmask : ipFragMask.toNat = 2 ^ 13 - 1 := rfl
    rw [toNat_and, toNat_ushiftRight, hmask, Nat.and_two_pow_sub_one_eq_mod,
      Nat.shiftRight_eq_div_pow, Nat.mod_eq_of_lt (by omega)] at hand
    have hzero : (0 : BitVec 16).toNat = 0 := rfl
    omega
  · left
    simp only [ne_eq, hleft, not_false_eq_true, if_true, ntohs_htons]
    intro h0
    have hbit := congrArg (fun x => x.getLsbD 13) h0
    simp [ipMF] at hbit

/-- `ip_data_len`: all that is left, or as many eights as the mtu has room for. -/
theorem ipDataLen_toNat {mtu : BitVec 16} (totalLen : BitVec 16) (hmtu : 42 ≤ mtu.toNat) :
    (ipDataLen mtu totalLen).toNat = min totalLen.toNat ((mtu.toNat - 34) / 8 * 8) := by
  have h34 : (34 : BitVec 32).toNat = 34 := rfl
  have h8 : (8 : BitVec 32).toNat = 8 := rfl
  have h8' : (8 : BitVec 16).toNat = 8 := rfl
  have hn : (((mtu.setWidth 32 - 34) / 8).setWidth 16 * 8 : BitVec 16).toNat
      = (mtu.toNat - 34) / 8 * 8 := by
    rw [toNat_mul, toNat_setWidth, toNat_udiv, toNat_sub,
      toNat_setWidth, h34, h8, h8', Nat.mod_eq_of_lt (show mtu.toNat < 2 ^ 32 by omega)]
    omega
  unfold ipDataLen
  simp only [lt_def, hn]
  split_ifs with hif
  · omega
  · simp only [hn]
    omega

/-- `ip_data_len` for an mtu that leaves room for eight bytes. -/
theorem ipDataLen_bounds {mtu : BitVec 16} (totalLen : BitVec 16) (hmtu : 42 ≤ mtu.toNat) :
    (ipDataLen mtu totalLen).toNat ≤ totalLen.toNat ∧
      (totalLen.toNat ≤ mtu.toNat - 34 ∨
        8 ≤ (ipDataLen mtu totalLen).toNat ∧ (ipDataLen mtu totalLen).toNat < totalLen.toNat) ∧
      ((ipDataLen mtu totalLen).toNat = totalLen.toNat ∨ 8 ≤ (ipDataLen mtu totalLen).toNat) := by
  rw [ipDataLen_toNat totalLen hmtu]
  omega

variable {big alloc : Bool} {skb : SkBuff} {s s' : State} {i : Fin 32} {now : BitVec 32}

variable {daddr : BitVec 32} {es : List Event} {frags : List SkBuff} {id : BitVec 16}
  {ndev : NetDevice} {proto : BitVec 8}

/-- **The fragments of `ip_fragment` are fragments**: none of them is taken for a whole
datagram.  The induction keeps that the loop is past the first eight bytes, or that more
than one fragment is left. -/
theorem isFragment_of_mem_loop (hmtu : 42 ≤ ndev.mtu.toNat)
    {fuel : ℕ} {totalLen fragoff : BitVec 16} {alloc : List Bool} {send : List ℤ}
    {frags : List SkBuff} {ret : ℤ} (hsum : fragoff.toNat + totalLen.toNat < 2 ^ 16)
    (hpast : 8 ≤ fragoff.toNat ∨ ndev.mtu.toNat - 34 < totalLen.toNat)
    (h : ipFragmentLoop big skb daddr proto ndev id fuel totalLen fragoff alloc send
      = some (frags, ret)) : ∀ f ∈ frags, f.iph.IsFragment big := by
  induction fuel generalizing totalLen fragoff alloc send frags ret with
  | zero => simp [ipFragmentLoop] at h
  | succ fuel ih =>
    obtain ⟨hle, hmore, hprog⟩ := ipDataLen_bounds totalLen hmtu
    rw [ipFragmentLoop] at h
    by_cases h0 : totalLen = 0
    · simp_all
    by_cases halloc : alloc.headD true = false
    · simp_all
    rw [if_neg h0, if_neg halloc] at h
    set n := ipDataLen ndev.mtu totalLen
    have hleft : (totalLen - n).toNat = totalLen.toNat - n.toNat := by
      rw [toNat_sub]
      omega
    have hoff : (fragoff + n).toNat = fragoff.toNat + n.toNat := by
      rw [toNat_add]
      omega
    have hfrag : (fragmentHeader big ndev daddr proto id fragoff n
        (totalLen - n)).IsFragment big := by
      refine isFragment_fragmentHeader big ndev daddr proto id fragoff n _ ?_
      rcases hpast with hpast | hpast
      · exact Or.inr hpast
      · refine Or.inl fun hz => ?_
        have hz' : (totalLen - n).toNat = 0 := by rw [hz]; rfl
        omega
    dsimp only at h
    split at h
    · simp at h
    split_ifs at h with hsend
    · simp only [some.injEq, Prod.mk.injEq] at h
      intro f hf
      rw [← h.1, mem_singleton] at hf
      rw [hf]
      exact hfrag
    · split at h
      · simp at h
      rename_i rest ret' hrec
      simp only [some.injEq, Prod.mk.injEq] at h
      intro f hf
      rw [← h.1, mem_cons] at hf
      rcases hf with hf | hf
      · rw [hf]
        exact hfrag
      · refine ih ?_ ?_ hrec f hf
        · omega
        · omega

/-- `total_len`: what `data_len` counts without the two headers. -/
theorem toNat_total_len {dataLen : BitVec 16} (h : 34 ≤ dataLen.toNat) :
    (dataLen - 14 - 20).toNat = dataLen.toNat - 34 := by
  have h14 : (14 : BitVec 16).toNat = 14 := rfl
  have h20 : (20 : BitVec 16).toNat = 20 := rfl
  rw [toNat_sub, toNat_sub, h14, h20]
  omega

/-- The buffers `ip_send` transmits for a datagram that is longer than the mtu. -/
theorem isFragment_of_mem_ipSend {alloc : List Bool} {send : List ℤ} {ret : ℤ}
    (hmtu : 42 ≤ ndev.mtu.toNat) (hlen : ndev.mtu < skb.dataLen)
    (h : ipSend big skb daddr proto ndev id alloc send = some (frags, ret)) :
    ∀ f ∈ frags, f.iph.IsFragment big := by
  rw [ipSend, if_pos hlen, ipFragment] at h
  rw [lt_def] at hlen
  have htotal := toNat_total_len (show 34 ≤ skb.dataLen.toNat by omega)
  have hzero : (0 : BitVec 16).toNat = 0 := rfl
  refine isFragment_of_mem_loop hmtu ?_ ?_ h
  · omega
  · omega

/-! ## What the receiver hands on -/

/-- Every buffer handed to `ip_do_recv` so far has an empty header. -/
def Headerless (s : State) : Prop := ∀ d ∈ s.calls, d.iph = IpHdr.zero

@[simp] theorem calls_set (s : State) (i : Fin 32) (f : IpFrag) : (s.set i f).calls = s.calls :=
  rfl

theorem calls_freeFragList (h : freeFragList s i = some s') :
    s'.calls = s.calls := by
  unfold freeFragList at h
  cases hh : (s.slot i).head with
  | none => simp [hh] at h
  | some l =>
    simp only [hh, map_some, some.injEq] at h
    rw [← h, calls_set]

theorem calls_addFragList {r : Option (Fin 32)} (h : addFragList big now s skb = some (s', r)) :
    s'.calls = s.calls := by
  unfold addFragList at h
  split at h
  · simp only [some.injEq, Prod.mk.injEq] at h
    rw [h.1]
  · rename_i i _
    cases hf : (s.slot i).first big now skb with
    | none => simp [hf] at h
    | some f =>
      simp only [hf, map_some, some.injEq, Prod.mk.injEq] at h
      rw [← h.1, calls_set]

/-- **The glued datagram has no header**: `ip_fragment_glue` copies only behind
`OFFSET_IPDATA`, so the header keeps the zeros of the allocation. -/
theorem glued_header_zero (hs : Headerless s)
    (h : ipFragmentGlue big alloc s i = some s') : Headerless s' := by
  unfold ipFragmentGlue at h
  dsimp only at h
  split_ifs at h
  · rw [Headerless, calls_freeFragList h]
    exact hs
  · split at h
    · rename_i data s1 _ hfree
      rw [some.injEq] at h
      rw [← h, Headerless, ipDoRecv, calls_freeFragList hfree]
      intro d hd
      rcases mem_append.mp hd with hd | hd
      · exact hs d hd
      · rw [mem_singleton.mp hd]
        rfl
    · simp at h

theorem headerless_countAndGlue (hs : Headerless s)
    (h : countAndGlue big alloc s i skb = some s') : Headerless s' := by
  unfold countAndGlue at h
  dsimp only at h
  split_ifs at h
  · refine glued_header_zero ?_ h
    exact hs
  · rw [some.injEq] at h
    rw [← h]
    exact hs

theorem headerless_ipTryFragmentGlue (hs : Headerless s)
    (h : ipTryFragmentGlue big alloc now s skb = some s') :
    Headerless s' := by
  unfold ipTryFragmentGlue at h
  split at h
  · exact headerless_countAndGlue hs h
  · split at h
    · simp at h
    · rename_i s1 hadd
      rw [some.injEq] at h
      rw [← h, Headerless, calls_addFragList hadd]
      exact hs
    · rename_i s1 i hadd
      refine headerless_countAndGlue ?_ h
      rw [Headerless, calls_addFragList hadd]
      exact hs

theorem calls_ipTimerTick (h : ipTimerTick now s = some s') :
    s'.calls = s.calls := by
  unfold ipTimerTick at h
  generalize List.finRange 32 = is at h
  induction is generalizing s with
  | nil =>
    rw [← some.inj h]
  | cons i is ih =>
    rw [foldlM_cons, bind_eq_bind, bind_eq_some_iff] at h
    obtain ⟨s1, h1, h2⟩ := h
    rw [ih h2]
    unfold tickSlot at h1
    split_ifs at h1
    · exact calls_freeFragList h1
    · rw [← some.inj h1]

/-- One step hands on no header, unless a whole datagram arrives. -/
theorem headerless_step {e : Event} (hs : Headerless s)
    (he : ∀ skb ∈ e.arrival, skb.iph.IsFragment big) (h : step big s e = some s') :
    Headerless s' := by
  cases e with
  | recv alloc now skb =>
    rw [step, ipRecv, if_pos (he skb rfl)] at h
    exact headerless_ipTryFragmentGlue hs h
  | tick now =>
    rw [Headerless, calls_ipTimerTick h]
    exact hs

theorem headerless_run (hs : Headerless s)
    (hes : ∀ skb ∈ es.filterMap Event.arrival, skb.iph.IsFragment big)
    (h : run big s es = some s') : Headerless s' := by
  induction es generalizing s with
  | nil =>
    rw [← some.inj h]
    exact hs
  | cons e es ih =>
    rw [run, foldlM_cons, bind_eq_bind, bind_eq_some_iff] at h
    obtain ⟨s1, h1, h2⟩ := h
    have hhead : ∀ skb ∈ e.arrival, skb.iph.IsFragment big := by
      intro skb hskb
      exact hes skb (mem_filterMap.mpr ⟨e, mem_cons_self, hskb⟩)
    refine ih (headerless_step hs hhead h1) (fun skb hskb => hes skb ?_) h2
    obtain ⟨e', he', hskb'⟩ := mem_filterMap.mp hskb
    exact mem_filterMap.mpr ⟨e', mem_cons_of_mem _ he', hskb'⟩

/-- A buffer without a header has no payload. -/
theorem ipPayload_headerless (big : Bool) {d : SkBuff} (h : d.iph = IpHdr.zero) :
    ipPayload big d = [] := by
  rw [ipPayload, h]
  cases big <;> rfl

/-! ## Reassembly -/

/-- The datagram `payload` with identification `id` has been reassembled: the receiver
made no access outside its buffers, called `ip_do_recv` once, with this payload, and
released the slot. -/
def Reassembled (big : Bool) (id : BitVec 16) (payload : List Byte) (r : Option State) : Prop :=
  ∃ s, r = some s ∧ (∃ d, s.calls = [d] ∧ ipPayload big d = payload) ∧ ∀ i, (s.slot i).id ≠ id

/-- A received buffer carries a transmitted one: the same header and the same bytes, in a
buffer of any length. -/
def Carries (frag skb : SkBuff) : Prop :=
  skb.iph = frag.iph ∧ frag.data.take (frag.dataLen.toNat - offsetIpdata) <+: skb.data

/-- The buffers that arrive carry the fragments `frags`, each once, in any order. -/
def Delivers (frags : List SkBuff) (es : List Event) : Prop :=
  ∃ l, l.Perm frags ∧ List.Forall₂ Carries l (es.filterMap Event.arrival)

theorem exists_carried {l skbs : List SkBuff} (h : List.Forall₂ Carries l skbs) :
    ∀ skb ∈ skbs, ∃ f ∈ l, Carries f skb := by
  induction h with
  | nil =>
    intro skb hskb
    cases hskb
  | cons hcarry _ ih =>
    intro skb hskb
    rcases mem_cons.mp hskb with rfl | hskb
    · exact ⟨_, mem_cons_self, hcarry⟩
    · obtain ⟨f, hf, hc⟩ := ih skb hskb
      exact ⟨f, mem_cons_of_mem _ hf, hc⟩

theorem Delivers.isFragment (h : Delivers frags es)
    (hf : ∀ f ∈ frags, f.iph.IsFragment big) :
    ∀ skb ∈ es.filterMap Event.arrival, skb.iph.IsFragment big := by
  obtain ⟨l, hperm, hall⟩ := h
  intro skb hskb
  obtain ⟨f, hmem, hcarry⟩ := exists_carried hall skb hskb
  rw [hcarry.1]
  exact hf f (hperm.mem_iff.mp hmem)

/-- **Reassembly never succeeds**: whatever `ip_send` cuts into fragments, and in whatever
order, with whatever timing and from whatever table they are received, the receiver does
not hand the payload on. -/
theorem not_reassembled (big : Bool) (skb : SkBuff) (daddr : BitVec 32) (proto : BitVec 8)
    (ndev : NetDevice) (ipDataId : BitVec 16) (alloc : List Bool) (send : List ℤ)
    (frags : List SkBuff) (ret : ℤ) (table : State) (es : List Event)
    (hmtu : 42 ≤ ndev.mtu.toNat) (hlen : ndev.mtu < skb.dataLen)
    (hbuf : skb.dataLen.toNat ≤ offsetIpdata + skb.data.length)
    (hsend : ipSend big skb daddr proto ndev ipDataId alloc send = some (frags, ret))
    (htable : table.calls = []) (hes : Delivers frags es) :
    ¬ Reassembled big (ipDataId + 1) (skb.data.take (skb.dataLen.toNat - offsetIpdata))
      (run big table es) := by
  rintro ⟨s, hrun, ⟨d, hcalls, hpayload⟩, -⟩
  have hstart : Headerless table := by
    intro d hd
    rw [htable] at hd
    cases hd
  have hfrag := hes.isFragment (isFragment_of_mem_ipSend hmtu hlen hsend)
  have hzero : d.iph = IpHdr.zero :=
    headerless_run hstart hfrag hrun d (by rw [hcalls]; exact mem_singleton_self d)
  rw [ipPayload_headerless big hzero] at hpayload
  have hempty := congrArg List.length hpayload
  rw [lt_def] at hlen
  rw [length_nil, length_take] at hempty
  unfold offsetIpdata at hbuf hempty
  omega

/-- A datagram with sixteen bytes of payload, on a device with the smallest mtu. -/
def sixteenBytes : SkBuff :=
  ⟨IpHdr.zero, (range 16).map (BitVec.ofNat 8), 50⟩

/-- A device with an mtu of 42 bytes. -/
def smallDevice : NetDevice := ⟨42, 0⟩

/-- The two fragments of `sixteenBytes`. -/
def sixteenBytesFrags : List SkBuff :=
  ((ipSend false sixteenBytes 0 0x11 smallDevice 1000 [] []).getD ([], 0)).1

/-- The two fragments arrive in order. -/
def sixteenBytesArrive : List Event := sixteenBytesFrags.map (Event.recv true 0)

theorem delivers_sixteenBytes : Delivers sixteenBytesFrags sixteenBytesArrive := by
  refine ⟨sixteenBytesFrags, List.Perm.refl _, ?_⟩
  have harrive : sixteenBytesArrive.filterMap Event.arrival = sixteenBytesFrags := by
    decide +kernel
  rw [harrive, forall₂_same]
  intro f _
  exact ⟨rfl, take_prefix _ _⟩

theorem not_reassembled_sixteenBytes :
    ¬ Reassembled false (1000 + 1)
      (sixteenBytes.data.take (sixteenBytes.dataLen.toNat - offsetIpdata))
      (run false ipInit sixteenBytesArrive) :=
  not_reassembled false sixteenBytes 0 0x11 smallDevice 1000 [] [] sixteenBytesFrags 0 ipInit
    sixteenBytesArrive (by decide) (by decide) (by decide) (by decide +kernel) rfl
    delivers_sixteenBytes

/-- Two fragments of eight bytes arrive in order at a little-endian receiver: the lengths it
adds up never meet, and `ip_do_recv` is not called at all. -/
theorem two_fragments_not_glued :
    ipSend false sixteenBytes 0 0x11 smallDevice 1000 [] [] = some (sixteenBytesFrags, 0) ∧
      sixteenBytesFrags.length = 2 ∧
      (run false ipInit sixteenBytesArrive).map State.calls = some [] ∧
      ¬ Reassembled false (1000 + 1) sixteenBytes.data (run false ipInit sixteenBytesArrive) := by
  have hcalls : (run false ipInit sixteenBytesArrive).map State.calls = some [] := by
    decide +kernel
  refine ⟨by decide +kernel, by decide +kernel, hcalls, ?_⟩
  rintro ⟨s, hrun, ⟨d, hd, -⟩, -⟩
  rw [hrun, map_some, some.injEq, hd] at hcalls
  cases hcalls

end Ip

end Yap
