/-
# The fragments of a datagram (`ip_fragment` in `net/inet/ip.c`, `__inet_chksum` in `inet.c`)

`Fragments` says what a datagram cut into fragments is: headers that agree, lengths that fit in the
mtu, offsets that count the payload before, `IP_MF` on all but the last, and checksums that verify.
`ip_fragment` makes such a list of every payload (`fragments_ipFragment`).

The checksum is the last thing that `ip_fragment` writes into a header; it is taken over the twenty
bytes of the header with a zero in its place (`verifies_checked`).
-/
import Mathlib.Tactic.IntervalCases
import Yap.IpFragment
import Yap.OnesComplement

namespace Yap

namespace Ip

open OnesComplement List BitVec

/-! ## The checksum -/

/-- The sum that the loop computes. -/
def hostSum (big : Bool) (l : List Byte) : ℕ := if big then bigSum l else littleSum l

section Checksum

variable {big : Bool} {l m : List Byte}

theorem append_toNat (a b : Byte) : (a ++ b).toNat = 256 * a.toNat + b.toNat := by
  rw [toNat_append, ← Nat.shiftLeft_add_eq_or_of_lt b.isLt, Nat.shiftLeft_eq, Nat.mul_comm]

theorem toNat_checkPtr (big : Bool) (a b : Byte) : (checkPtr big a b).toNat =
    if big then 256 * a.toNat + b.toNat else 256 * b.toNat + a.toNat := by
  cases big with
  | true => exact append_toNat a b
  | false => exact append_toNat b a

theorem hostSum_cons_cons (a b : Byte) (l : List Byte) :
    hostSum big (a :: b :: l) = (checkPtr big a b).toNat + hostSum big l := by
  rw [toNat_checkPtr]
  cases big with
  | true => rfl
  | false =>
    show a.toNat + 256 * b.toNat + littleSum l = 256 * b.toNat + a.toNat + littleSum l
    omega

theorem hostSum_append (h : l.length % 2 = 0) (m : List Byte) :
    hostSum big (l ++ m) = hostSum big l + hostSum big m := by
  induction l using bigSum.induct with
  | case1 =>
    have h0 : hostSum big [] = 0 := by cases big <;> rfl
    rw [h0, Nat.zero_add, nil_append]
  | case2 a => exact absurd h (by simp)
  | case3 a b l ih =>
    have hl : l.length % 2 = 0 := by
      rw [length_cons, length_cons] at h
      omega
    rw [List.cons_append, List.cons_append, hostSum_cons_cons, hostSum_cons_cons, ih hl,
      Nat.add_assoc]

theorem hostSum_le (big : Bool) (l : List Byte) : hostSum big l ≤ 65535 * ((l.length + 1) / 2) := by
  induction l using bigSum.induct with
  | case1 => cases big <;> exact Nat.zero_le _
  | case2 a =>
    have ha := a.isLt
    simp only [hostSum, bigSum, littleSum, length_cons, length_nil]
    split_ifs <;> omega
  | case3 a b l ih =>
    have hab := (checkPtr big a b).isLt
    rw [hostSum_cons_cons, length_cons, length_cons]
    omega

/-- The byte order of the machine may be used to verify. -/
theorem verifies_iff_hostSum (big : Bool) (l : List Byte) :
    Verifies l ↔ 0 < hostSum big l ∧ hostSum big l % 65535 = 0 := by
  cases big with
  | true => exact Iff.rfl
  | false => exact verifies_iff_littleSum l

/-- An `unsigned short` counts as its value. -/
theorem hostSum_halfBytes (v : BitVec 16) : hostSum big (halfBytes big v) = v.toNat := by
  have hv : 256 * (v.extractLsb' 8 8).toNat + (v.extractLsb' 0 8).toNat = v.toNat := by
    simp only [extractLsb'_toNat, Nat.shiftRight_eq_div_pow]
    omega
  cases big with
  | true =>
    show 256 * (v.extractLsb' 8 8).toNat + (v.extractLsb' 0 8).toNat + 0 = v.toNat
    omega
  | false =>
    show (v.extractLsb' 0 8).toNat + 256 * (v.extractLsb' 8 8).toNat + 0 = v.toNat
    omega

/-- **The loop of the checksum** adds up the words of the buffer. -/
theorem inetChksumLoop_spec (big : Bool) (heven : l.length % 2 = 0) (cksum : BitVec 32)
    (hsmall : cksum.toNat + hostSum big l < 2 ^ 32) :
    ∃ c, inetChksumLoop big l cksum = some c ∧ c.toNat = cksum.toNat + hostSum big l := by
  induction l using bigSum.induct generalizing cksum with
  | case1 =>
    refine ⟨cksum, rfl, ?_⟩
    cases big <;> rfl
  | case2 a => exact absurd heven (by simp)
  | case3 a b l ih =>
    rw [hostSum_cons_cons] at hsmall ⊢
    have hnext : (cksum + (checkPtr big a b).setWidth 32).toNat =
        cksum.toNat + (checkPtr big a b).toNat := by
      rw [toNat_add, toNat_setWidth_of_le (by decide), Nat.mod_eq_of_lt (by omega)]
    obtain ⟨c, hloop, hc⟩ := ih (by simp only [length_cons] at heven; omega)
      (cksum + (checkPtr big a b).setWidth 32) (by omega)
    exact ⟨c, hloop, by omega⟩

/-- `__inet_chksum` is the complement of the folded sum. -/
theorem inetChksum_spec (big : Bool) (heven : l.length % 2 = 0) (hshort : l.length ≤ 2 ^ 16) :
    ∃ c, inetChksum big l = some c ∧ c.toNat = 65535 - fold (hostSum big l) := by
  have hle := hostSum_le big l
  have hlt : hostSum big l < 2 ^ 32 := by omega
  obtain ⟨s, hloop, hs⟩ := inetChksumLoop_spec big heven 0 (by simpa using hlt)
  rw [show (0 : BitVec 32).toNat = 0 from rfl, Nat.zero_add] at hs
  refine ⟨_, by rw [inetChksum, hloop]; rfl, ?_⟩
  have hmask : (s &&& 0xffff).toNat = s.toNat % 2 ^ 16 := by
    exact Nat.and_two_pow_sub_one_eq_mod s.toNat 16
  have hhalves : ((s >>> 16) + (s &&& 0xffff)).toNat = s.toNat / 2 ^ 16 + s.toNat % 2 ^ 16 := by
    rw [toNat_add, hmask, toNat_ushiftRight, Nat.shiftRight_eq_div_pow,
      Nat.mod_eq_of_lt (by omega)]
  have hcarry : ∀ t : BitVec 32, t.toNat < 2 ^ 17 →
      ((~~~(t + (t >>> 16))).setWidth 16 : BitVec 16).toNat =
        65535 - (t.toNat + t.toNat / 2 ^ 16) % 2 ^ 16 := by
    intro t ht
    rw [toNat_setWidth, toNat_not, toNat_add, toNat_ushiftRight,
      Nat.shiftRight_eq_div_pow]
    omega
  refine (hcarry _ (by rw [hhalves]; omega)).trans ?_
  rw [hhalves, hs]
  rfl

/-- **The checksum verifies**: it makes the words of the header add up to zero. -/
theorem verifies_checked (big : Bool) (h : IpHdr) : Verifies ((h.checked big).bytes big) := by
  -- the bytes before and behind the checksum
  obtain ⟨l, m, hl, hm, hbytes⟩ : ∃ l m : List Byte, l.length = 10 ∧ m.length = 8 ∧
      ∀ c, IpHdr.bytes big { h with check := c } = l ++ (halfBytes big c ++ m) := by
    refine ⟨[h.version, h.tos] ++ halfBytes big h.totLen ++ halfBytes big h.id ++
      halfBytes big h.fragOff ++ [h.ttl, h.protocol],
      wordBytes big h.saddr ++ wordBytes big h.daddr, ?_, ?_, ?_⟩
    · cases big <;> rfl
    · cases big <;> rfl
    · intro c
      simp [IpHdr.bytes]
  have hhalf : ∀ c : BitVec 16, (halfBytes big c).length = 2 := by
    intro c
    cases big <;> rfl
  have hsum : ∀ c : BitVec 16, hostSum big (l ++ (halfBytes big c ++ m)) =
      hostSum big l + (c.toNat + hostSum big m) := by
    intro c
    rw [hostSum_append (by omega), hostSum_append (by rw [hhalf]), hostSum_halfBytes]
  have hlength : (l ++ (halfBytes big 0 ++ m)).length = 20 := by
    rw [length_append, length_append, hhalf, hl, hm]
  obtain ⟨c, hc, hval⟩ := inetChksum_spec big
    (show (l ++ (halfBytes big 0 ++ m)).length % 2 = 0 by omega) (by omega)
  have hle := hostSum_le big (l ++ (halfBytes big 0 ++ m))
  have hzero : (0 : BitVec 16).toNat = 0 := rfl
  have hadd := add_complement_fold
    (show hostSum big (l ++ (halfBytes big 0 ++ m)) < 2 ^ 32 by omega)
  rw [← hval] at hadd
  have htotal : hostSum big (l ++ (halfBytes big c ++ m)) =
      hostSum big (l ++ (halfBytes big 0 ++ m)) + c.toNat := by
    rw [hsum, hsum]
    omega
  rw [← htotal] at hadd
  rw [IpHdr.checked, hbytes, hbytes, hc, Option.getD_some]
  exact (verifies_iff_hostSum big _).mpr hadd

end Checksum

/-! ## Fragments -/

/-- More fragments follow. -/
def IpHdr.MoreFragments (big : Bool) (h : IpHdr) : Prop := ntohs big h.fragOff &&& ipMF ≠ 0

/-- A fragment whose payload starts at byte `off` of the datagram. -/
structure FragmentAt (big : Bool) (ndev : NetDevice) (daddr : BitVec 32) (proto : BitVec 8)
    (id : BitVec 16) (off : ℕ) (f : SkBuff) : Prop where
  fits : f.dataLen.toNat ≤ ndev.mtu.toNat
  dataLen : f.dataLen.toNat = offsetIpdata + (ipPayload big f).length
  totLen : (ntohs big f.iph.totLen).toNat = sizeofIphdr + (ipPayload big f).length
  id : ntohs big f.iph.id = id
  saddr : f.iph.saddr = ndev.saddr
  daddr : f.iph.daddr = daddr
  protocol : f.iph.protocol = proto
  offset : off = 8 * (ntohs big f.iph.fragOff &&& ipFragMask).toNat
  check : Verifies (f.iph.bytes big)

/-- **The fragments of a datagram**, from byte `off` on: `bytes` is the rest of the payload. -/
inductive Fragments (big : Bool) (ndev : NetDevice) (daddr : BitVec 32) (proto : BitVec 8)
    (id : BitVec 16) : ℕ → List Byte → List SkBuff → Prop
  | last {off : ℕ} {f : SkBuff} : FragmentAt big ndev daddr proto id off f →
      ¬ f.iph.MoreFragments big → Fragments big ndev daddr proto id off (ipPayload big f) [f]
  | more {off : ℕ} {f : SkBuff} {bytes : List Byte} {frags : List SkBuff} :
      FragmentAt big ndev daddr proto id off f → f.iph.MoreFragments big →
      8 ∣ (ipPayload big f).length →
      Fragments big ndev daddr proto id (off + (ipPayload big f).length) bytes frags →
      Fragments big ndev daddr proto id off (ipPayload big f ++ bytes) (f :: frags)

section

variable {big : Bool} {ndev : NetDevice} {daddr : BitVec 32} {proto : BitVec 8} {id : BitVec 16}

variable {bytes : List Byte} {frags : List SkBuff} {off : ℕ}

theorem Fragments.concat (h : Fragments big ndev daddr proto id off bytes frags) :
    frags.flatMap (ipPayload big) = bytes := by
  induction h with
  | last _ _ => exact flatMap_singleton _ _
  | more _ _ _ _ ih => rw [flatMap_cons, ih]

/-- The offset field of a header, and its flag. -/
theorem fragmentHeader_fragOff (big : Bool) (ndev : NetDevice) (daddr : BitVec 32)
    (proto : BitVec 8) (id fragoff n left : BitVec 16) :
    (ntohs big (fragmentHeader big ndev daddr proto id fragoff n left).fragOff &&& ipFragMask) =
        fragoff >>> 3 ∧
      ((fragmentHeader big ndev daddr proto id fragoff n left).MoreFragments big ↔ left ≠ 0) := by
  have hmask : (fragoff >>> 3 ||| ipMF) &&& ipFragMask = fragoff >>> 3 := by
    ext i hi
    interval_cases i <;> simp [ipMF, ipFragMask]
  have hmask' : fragoff >>> 3 &&& ipFragMask = fragoff >>> 3 := by
    ext i hi
    interval_cases i <;> simp [ipFragMask]
  have hflag : (fragoff >>> 3 ||| ipMF) &&& ipMF ≠ 0 := by
    intro h0
    have hbit := congrArg (fun x => x.getLsbD 13) h0
    simp [ipMF] at hbit
  have hflag' : fragoff >>> 3 &&& ipMF = 0 := by
    ext i hi
    interval_cases i <;> simp [ipMF]
  unfold IpHdr.MoreFragments fragmentHeader IpHdr.checked fragmentFields
  by_cases hleft : left = 0
  · simp [hleft, hmask', hflag']
  · simp only [ne_eq, hleft, not_false_eq_true, if_true, ntohs_htons]
    exact ⟨hmask, iff_of_true hflag trivial⟩

/-- **One fragment.**  The buffer that a round of the loop fills in. -/
theorem fragmentAt_round (big : Bool) (daddr : BitVec 32) (proto : BitVec 8)
    (id left : BitVec 16) {fragoff n : BitVec 16} {data : List Byte}
    (hmtu : 42 ≤ ndev.mtu.toNat) (hfits : n.toNat ≤ ndev.mtu.toNat - 34)
    (hdata : n.toNat ≤ data.length) (hoff : fragoff.toNat % 8 = 0) :
    let f : SkBuff := ⟨fragmentHeader big ndev daddr proto id fragoff n left, data, n + 34⟩
    ipPayload big f = data.take n.toNat ∧ FragmentAt big ndev daddr proto id fragoff.toNat f := by
  intro f
  have h20 : (n + 20).toNat = n.toNat + 20 := by
    rw [toNat_add, show (20 : BitVec 16).toNat = 20 from rfl, Nat.mod_eq_of_lt (by omega)]
  have h34 : (n + 34).toNat = n.toNat + 34 := by
    rw [toNat_add, show (34 : BitVec 16).toNat = 34 from rfl, Nat.mod_eq_of_lt (by omega)]
  have htot : (ntohs big f.iph.totLen).toNat = n.toNat + 20 := by
    show (ntohs big (htons big (n + 20))).toNat = _
    rw [ntohs_htons, h20]
  have hpay : ipPayload big f = data.take n.toNat := by
    rw [ipPayload, htot, sizeofIphdr, Nat.add_sub_cancel]
  have hlen : (ipPayload big f).length = n.toNat := by
    rw [hpay, length_take, Nat.min_eq_left hdata]
  have hfrag := (fragmentHeader_fragOff big ndev daddr proto id fragoff n left).1
  refine ⟨hpay, ?_⟩
  constructor
  case fits =>
    show (n + 34).toNat ≤ ndev.mtu.toNat
    omega
  case dataLen =>
    show (n + 34).toNat = 34 + _
    omega
  case totLen =>
    rw [htot, hlen, sizeofIphdr, Nat.add_comm]
  case id => exact ntohs_htons big id
  case saddr => rfl
  case daddr => rfl
  case protocol => rfl
  case offset =>
    show _ = 8 * (ntohs big (fragmentHeader big ndev daddr proto id fragoff n left).fragOff &&&
      ipFragMask).toNat
    rw [hfrag, toNat_ushiftRight, Nat.shiftRight_eq_div_pow]
    omega
  case check => exact verifies_checked big _

/-- Copying to the start of a buffer. -/
theorem memcpy_start {dest src : List Byte} {n : ℕ} (hdest : n ≤ dest.length)
    (hsrc : n ≤ src.length) :
    ∃ data, memcpy dest 0 src n = some data ∧ data.take n = src.take n ∧ n ≤ data.length := by
  refine ⟨dest.take 0 ++ src.take n ++ dest.drop (0 + n), if_pos ⟨by omega, hsrc⟩, ?_, ?_⟩
  · rw [take_zero, nil_append, take_append_of_le_length
      (by rw [length_take]; omega), take_take, Nat.min_self]
  · rw [take_zero, nil_append, length_append, length_take]
    omega

theorem headD_alloc {alloc : List Bool} (h : ∀ b ∈ alloc, b = true) :
    ¬ alloc.headD true = false := by
  cases alloc with
  | nil => simp
  | cons b l => simp [h b mem_cons_self]

theorem headD_send {send : List ℤ} (h : ∀ r ∈ send, 0 ≤ r) : ¬ send.headD 0 < 0 := by
  cases send with
  | nil => simp
  | cons r l => exact not_lt.mpr (h r mem_cons_self)

section

variable (big : Bool) (skb : SkBuff) (daddr : BitVec 32) (proto : BitVec 8) (id : BitVec 16)

/-- **The loop of `ip_fragment`** cuts what is left of the payload into fragments, or reports that
a buffer could not be had or sent.  The induction is on the fuel; the offset stays a multiple of 8
as long as something is left. -/
theorem fragments_loop (hmtu : 42 ≤ ndev.mtu.toNat) (fuel : ℕ) (totalLen fragoff : BitVec 16)
    (alloc : List Bool) (send : List ℤ) (hfuel : totalLen.toNat < fuel) (hpos : 0 < totalLen.toNat)
    (hoff : fragoff.toNat % 8 = 0) (hsum : fragoff.toNat + totalLen.toNat < 2 ^ 16)
    (hbuf : fragoff.toNat + totalLen.toNat ≤ skb.data.length) :
    ∃ frags ret, ipFragmentLoop big skb daddr proto ndev id fuel totalLen fragoff alloc send =
        some (frags, ret) ∧
      (ret < 0 ∧ ¬ ((∀ b ∈ alloc, b = true) ∧ ∀ r ∈ send, 0 ≤ r) ∨
        ret = 0 ∧ Fragments big ndev daddr proto id fragoff.toNat
          ((skb.data.drop fragoff.toNat).take totalLen.toNat) frags) := by
  induction fuel generalizing totalLen fragoff alloc send with
  | zero => exact absurd hfuel (Nat.not_lt_zero _)
  | succ fuel ih =>
    have hne : totalLen ≠ 0 := fun h => by
      rw [h] at hpos
      exact absurd hpos (by decide)
    rw [ipFragmentLoop, if_neg hne]
    by_cases halloc : alloc.headD true = false
    · rw [if_pos halloc]
      exact ⟨_, _, rfl, Or.inl ⟨by decide, fun h => headD_alloc h.1 halloc⟩⟩
    rw [if_neg halloc]
    have hlen := ipDataLen_toNat totalLen hmtu
    set n := ipDataLen ndev.mtu totalLen
    have hzero : (0 : BitVec 16).toNat = 0 := rfl
    have hleft : (totalLen - n).toNat = totalLen.toNat - n.toNat := by
      rw [toNat_sub_of_le (by rw [le_def]; omega)]
    obtain ⟨data, hcopy, hdata, hroom⟩ := memcpy_start
      (show n.toNat ≤ (allocSkbuff ndev.mtu).data.length by
        simp only [allocSkbuff, length_replicate, offsetIpdata]
        omega)
      (show n.toNat ≤ (skb.data.drop fragoff.toNat).length by
        rw [length_drop]
        omega)
    simp only [hcopy]
    by_cases hsend : send.headD 0 < 0
    · rw [if_pos hsend]
      exact ⟨_, _, rfl, Or.inl ⟨by decide, fun h => headD_send h.2 hsend⟩⟩
    rw [if_neg hsend]
    obtain ⟨hpay, hfrag⟩ := fragmentAt_round big daddr proto id (totalLen - n) hmtu
      (show n.toNat ≤ ndev.mtu.toNat - 34 by omega) hroom hoff
    have hmore := (fragmentHeader_fragOff big ndev daddr proto id fragoff n (totalLen - n)).2
    rw [hdata] at hpay
    by_cases hlast : n.toNat = totalLen.toNat
    · -- the last fragment
      have hnone : totalLen - n = 0 := eq_of_toNat_eq (by rw [hleft, hzero]; omega)
      obtain ⟨k, rfl⟩ : ∃ k, fuel = k + 1 := ⟨fuel - 1, by omega⟩
      rw [hnone] at hfrag hmore hpay ⊢
      refine ⟨_, _, rfl, Or.inr ⟨rfl, ?_⟩⟩
      rw [← hlast, ← hpay]
      exact .last hfrag (fun h => hmore.mp h rfl)
    · have hnext := toNat_add_of_lt (x := fragoff) (y := n) (by omega)
      obtain ⟨frags, ret, hloop, hret⟩ := ih (totalLen - n) (fragoff + n) alloc.tail send.tail
        (by omega) (by omega) (by omega) (by omega) (by omega)
      rw [hloop]
      refine ⟨_, _, rfl, ?_⟩
      rcases hret with ⟨hneg, hnot⟩ | ⟨hret, hfrags⟩
      · refine Or.inl ⟨hneg, fun h => hnot ⟨fun b hb => ?_, fun r hr => ?_⟩⟩
        · exact h.1 b (mem_of_mem_tail hb)
        · exact h.2 r (mem_of_mem_tail hr)
      refine Or.inr ⟨hret, ?_⟩
      have hsize : ((skb.data.drop fragoff.toNat).take n.toNat).length = n.toNat := by
        rw [length_take, length_drop]
        omega
      have hsplit : (skb.data.drop fragoff.toNat).take totalLen.toNat =
          (skb.data.drop fragoff.toNat).take n.toNat ++
            (skb.data.drop (fragoff.toNat + n.toNat)).take (totalLen.toNat - n.toNat) := by
        rw [← drop_drop, ← take_add]
        congr 1
        omega
      rw [hnext, hleft] at hfrags
      rw [hsplit, ← hpay]
      refine .more hfrag (hmore.mpr fun h => ?_) ?_ ?_
      · rw [h, hzero] at hleft
        omega
      · rw [hpay, hsize]
        omega
      · rw [hpay, hsize]
        exact hfrags

/-- `ip_fragment` sends the fragments of the payload, or reports an error. -/
theorem ipFragment_cases (alloc : List Bool) (send : List ℤ) (hmtu : 42 ≤ ndev.mtu.toNat)
    (hlen : offsetIpdata < skb.dataLen.toNat)
    (hbuf : skb.dataLen.toNat ≤ offsetIpdata + skb.data.length) :
    ∃ frags ret, ipFragment big skb daddr proto ndev id alloc send = some (frags, ret) ∧
      (ret < 0 ∧ ¬ ((∀ b ∈ alloc, b = true) ∧ ∀ r ∈ send, 0 ≤ r) ∨
        ret = 0 ∧ Fragments big ndev daddr proto id 0
          (skb.data.take (skb.dataLen.toNat - offsetIpdata)) frags) := by
  unfold offsetIpdata at hlen hbuf ⊢
  have htotal := toNat_total_len hlen.le
  have hzero : (0 : BitVec 16).toNat = 0 := rfl
  have hloop := fragments_loop big skb daddr proto id hmtu
    ((skb.dataLen - 14 - 20).toNat + 1) (skb.dataLen - 14 - 20) 0 alloc send (by omega) (by omega)
    (by rw [hzero]) (by omega) (by omega)
  rw [← htotal]
  exact hloop

end

end

/-- **Fragmentation.**  For every payload and every mtu that has room for eight bytes of it, if the
buffers can be had and sent, `ip_fragment` returns, and what it has sent are the fragments of the
payload, with the next number of `ip_data_id`. -/
theorem fragments_ipFragment (big : Bool) (skb : SkBuff) (daddr : BitVec 32) (proto : BitVec 8)
    (ndev : NetDevice) (ipDataId : BitVec 16) (alloc : List Bool) (send : List ℤ)
    (hmtu : 42 ≤ ndev.mtu.toNat) (hlen : offsetIpdata < skb.dataLen.toNat)
    (hbuf : skb.dataLen.toNat ≤ offsetIpdata + skb.data.length)
    (halloc : ∀ b ∈ alloc, b = true) (hsend : ∀ r ∈ send, 0 ≤ r) :
    ∃ frags, ipFragment big skb daddr proto ndev (ipDataId + 1) alloc send = some (frags, 0) ∧
      Fragments big ndev daddr proto (ipDataId + 1) 0
        (skb.data.take (skb.dataLen.toNat - offsetIpdata)) frags ∧
      frags.flatMap (ipPayload big) = skb.data.take (skb.dataLen.toNat - offsetIpdata) := by
  obtain ⟨frags, ret, hcall, ⟨_, hnot⟩ | ⟨rfl, hfrags⟩⟩ :=
    ipFragment_cases big skb daddr proto (ipDataId + 1) alloc send hmtu hlen hbuf
  · exact absurd ⟨halloc, hsend⟩ hnot
  · exact ⟨frags, hcall, hfrags, hfrags.concat⟩

/-- Sixteen bytes through an mtu of 42. -/
theorem fragments_sixteenBytes : ∃ frags,
    ipFragment false sixteenBytes 0 0x11 smallDevice (1000 + 1) [] [] = some (frags, 0) ∧
      Fragments false smallDevice 0 0x11 (1000 + 1) 0 sixteenBytes.data frags := by
  obtain ⟨frags, hcall, hfrags, _⟩ := fragments_ipFragment false sixteenBytes 0 0x11 smallDevice
    1000 [] [] (by decide) (by decide) (by decide) (by decide) (by decide)
  exact ⟨frags, hcall, hfrags⟩

end Ip

end Yap
