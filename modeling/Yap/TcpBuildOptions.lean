/-
# Options that are written and read back (`net/inet/tcp.c`)

`tcp_build_options` writes packed words with padding, and `tcp_set_options` walks over bytes.  They
meet at `Item`, what a sender puts in a header: the builder leaves the bytes of a list of items
(`tcpBuildOptions_wrote`), whatever the timestamps are, and the walk over the bytes of properly
encoded items ends behind the last one and takes over what each of them says
(`setOptionsLoop_items`).

`struct i_socket` keeps `window_shift` in a wider field; all that is ever stored there is a byte.
-/
import Mathlib.Tactic.IntervalCases
import Yap.TcpOptions

namespace Yap

namespace TcpOptions

open Ip List BitVec

def TCPOPT_TIMESTAMP : Byte := 8

def TCPOLEN_MSS : Byte := 4
def TCPOLEN_WINDOW : Byte := 3
def TCPOLEN_SACK_PERM : Byte := 2
def TCPOLEN_TIMESTAMP : Byte := 10

/-! ## The function -/

/-- `p->value = v`, for a packed `unsigned int`. -/
def storeWord (big : Bool) (mem : Memory) (p : ℕ) (v : BitVec 32) : Memory := fun o =>
  if p ≤ o ∧ o < p + 4 then v.extractLsb' (8 * (if big then 3 - (o - p) else o - p)) 8 else mem o

/-- The memory from `tcph` on, and the local variables of `tcp_build_options`. -/
structure Build where
  mem : Memory
  ptr : ℕ
  doff : ℕ

/-- `ptr->value = htonl(v); ptr++;`. -/
def Build.put (big : Bool) (v : BitVec 32) (b : Build) : Build :=
  { b with mem := storeWord big b.mem b.ptr (htonl big v), ptr := b.ptr + 4 }

/-- `(a << 24) | (b << 16) | (c << 8) | d`. -/
def packed (a b c : Byte) (d : BitVec 32) : BitVec 32 :=
  a.setWidth 32 <<< 24 ||| b.setWidth 32 <<< 16 ||| c.setWidth 32 <<< 8 ||| d

/-- `if (if_mss)`. -/
def buildMss (big ifMss : Bool) (mss : BitVec 32) (b : Build) : Build :=
  if ifMss then
    let b := b.put big
      (TCPOPT_MSS.setWidth 32 <<< 24 ||| TCPOLEN_MSS.setWidth 32 <<< 16 ||| mss)
    { b with doff := b.doff + 4 }
  else b

/-- `if (if_ts) … else if (if_sack) …`. -/
def buildTimestamp (big ifTs ifSack : Bool) (tstamp tsRecent : BitVec 32) (b : Build) : Build :=
  if ifTs then
    let b :=
      if ifSack then
        b.put big (packed TCPOPT_SACK_PERM TCPOLEN_SACK_PERM TCPOPT_TIMESTAMP
          (TCPOLEN_TIMESTAMP.setWidth 32))
      else
        b.put big (packed TCPOPT_NOP TCPOPT_NOP TCPOPT_TIMESTAMP (TCPOLEN_TIMESTAMP.setWidth 32))
    let b := b.put big tstamp
    let b := b.put big tsRecent
    { b with doff := b.doff + 12 }
  else if ifSack then
    let b := b.put big
      (packed TCPOPT_NOP TCPOPT_NOP TCPOPT_SACK_PERM (TCPOLEN_SACK_PERM.setWidth 32))
    { b with doff := b.doff + 4 }
  else b

/-- `if (if_wscale)`. -/
def buildWscale (big ifWscale : Bool) (wacale : BitVec 32) (b : Build) : Build :=
  if ifWscale then
    let b := b.put big (packed TCPOPT_NOP TCPOPT_WINDOW TCPOLEN_WINDOW wacale)
    { b with doff := b.doff + 4 }
  else b

/-- `tcp_build_options`: the memory that it leaves, and `tcph->doff`. -/
def tcpBuildOptions (big : Bool) (mem : Memory) (ifMss : Bool) (mss : BitVec 32)
    (ifTs ifSack ifWscale : Bool) (wacale tstamp tsRecent : BitVec 32) : Memory × BitVec 4 :=
  let b : Build := { mem := mem, ptr := sizeofTcphdr, doff := sizeofTcphdr }
  let b := buildMss big ifMss mss b
  let b := buildTimestamp big ifTs ifSack tstamp tsRecent b
  let b := buildWscale big ifWscale wacale b
  (b.mem, BitVec.ofNat 4 (b.doff / 4))

/-! ## Walking over items -/

/-- What an item tells the receiver. -/
def Item.apply (isk : Negotiated) : Item → Negotiated
  | .nop => isk
  | .opt code data =>
    if code = TCPOPT_MSS then { isk with mss := data.getD 0 0 ++ data.getD 1 0 }
    else if code = TCPOPT_SACK_PERM then { isk with sack := true }
    else if code = TCPOPT_WINDOW then { isk with windowShift := data.getD 0 0 }
    else isk

section Walk

variable {big : Bool} {mem : Memory} {st : Loop} {p n : ℕ}

theorem bytesAt_add (mem : Memory) (p n m : ℕ) :
    bytesAt mem p (n + m) = bytesAt mem p n ++ bytesAt mem (p + n) m := by
  simp [bytesAt, range_add, Nat.add_assoc, Function.comp_def]

/-- A piece of memory that is made of two pieces. -/
theorem bytesAt_eq_append {bs cs : List Byte} (h : bytesAt mem p n = bs ++ cs) :
    n = bs.length + cs.length ∧ bytesAt mem p bs.length = bs ∧
      bytesAt mem (p + bs.length) (n - bs.length) = cs := by
  have hlen := congrArg List.length h
  rw [length_bytesAt, length_append] at hlen
  rw [hlen, bytesAt_add] at h
  obtain ⟨hbs, hcs⟩ := append_inj h (length_bytesAt mem p bs.length)
  refine ⟨hlen, hbs, ?_⟩
  rw [hlen, Nat.add_sub_cancel_left, hcs]

/-- Two bytes in network order, read as a number of the machine. -/
theorem ntohs_halfword (big : Bool) (mem : Memory) (p : ℕ) :
    ntohs big (halfword big mem p) = mem p ++ mem (p + 1) := by
  cases big with
  | true => rfl
  | false =>
    show bigLittleSwap16 (mem (p + 1) ++ mem p) = mem p ++ mem (p + 1)
    apply eq_of_getLsbD_eq
    intro i hi
    simp only [bigLittleSwap16, getLsbD_or, getLsbD_ushiftRight,
      getLsbD_shiftLeft]
    rw [getLsbD_append, getLsbD_append, getLsbD_append]
    interval_cases i <;> simp

/-- The `switch` takes over what the option says. -/
theorem setOption_isk {code : Byte} {data : List Byte}
    (hdata : bytesAt mem st.ptr data.length = data) (hpay : payload code ≤ data.length) :
    (setOption big mem code st).isk = Item.apply st.isk (.opt code data) := by
  have hget : ∀ i < data.length, data.getD i 0 = mem (st.ptr + i) := by
    intro i hi
    rw [← hdata]
    simp [bytesAt, hi]
  unfold setOption Item.apply
  by_cases hmss : code = TCPOPT_MSS
  · have htwo : 2 ≤ data.length := by
      rw [payload, if_pos hmss] at hpay
      exact hpay
    simp only [if_pos hmss, hget 0 (by omega), hget 1 (by omega), ntohs_halfword, Nat.add_zero]
  · by_cases hsack : code = TCPOPT_SACK_PERM
    · simp only [if_neg hmss, if_pos hsack]
    · by_cases hwin : code = TCPOPT_WINDOW
      · have hone : 1 ≤ data.length := by
          rw [payload, if_neg hmss, if_pos hwin] at hpay
          exact hpay
        simp only [if_neg hmss, if_neg hsack, if_pos hwin, hget 0 (by omega), Nat.add_zero]
      · simp only [if_neg hmss, if_neg hsack, if_neg hwin]

/-- **The walk over properly encoded items** ends behind the last of them, and takes over what they
say, in their order. -/
theorem setOptionsLoop_items (items : List Item) (hitems : ∀ x ∈ items, x.Valid) (st : Loop)
    (hpos : 0 ≤ st.length)
    (hst : bytesAt mem st.ptr st.length.toNat = items.flatMap Item.encode) :
    ∃ fuel st', setOptionsLoop big mem (fuel + 1) st = some st' ∧
      st'.ptr = st.ptr + st.length.toNat ∧ st'.length = 0 ∧
      st'.isk = items.foldl Item.apply st.isk := by
  induction items generalizing st with
  | nil =>
    have hlen := congrArg List.length hst
    rw [length_bytesAt, flatMap_nil, length_nil] at hlen
    refine ⟨0, st, setOptionsLoop_done 0 (by omega), ?_, by omega, rfl⟩
    rw [hlen, Nat.add_zero]
  | cons x xs ih =>
    have hxs := fun y hy => hitems y (mem_cons_of_mem x hy)
    rw [flatMap_cons] at hst
    obtain ⟨hlen, hx, hrest⟩ := bytesAt_eq_append hst
    cases x with
    | nop =>
      have hone : (Item.encode .nop).length = 1 := rfl
      rw [hone] at hlen hx hrest
      have hnop : mem st.ptr = TCPOPT_NOP := head_eq_of_cons_eq hx
      obtain ⟨fuel, st', hrun, hptr, hzero, hisk⟩ := ih hxs
        { st.readNext with length := st.length - 1 } (show 0 ≤ st.length - 1 by omega) (by
          rw [← hrest, show st.length.toNat - 1 = (st.length - 1).toNat by omega]
          rfl)
      refine ⟨fuel, st', ?_, ?_, hzero, hisk⟩
      · rw [setOptionsLoop_nop fuel (by omega) hnop, hrun]
      · rw [hptr]
        show st.ptr + 1 + (st.length - 1).toNat = _
        omega
    | opt code data =>
      obtain ⟨heol, hnop, hsize, hpay⟩ := hitems _ mem_cons_self
      have hnat : (BitVec.ofNat 8 (data.length + 2)).toNat = data.length + 2 := by
        exact Nat.mod_eq_of_lt hsize
      have htwo : (Item.encode (.opt code data)).length = data.length + 2 := rfl
      rw [htwo] at hlen hx hrest
      rw [bytesAt_succ, bytesAt_succ, Item.encode, List.cons.injEq, List.cons.injEq] at hx
      obtain ⟨hcode, hsz, hdata⟩ := hx
      have hafter : (afterOption big mem st).isk = Item.apply st.isk (.opt code data) := by
        show (setOption big mem (mem st.ptr) st.read.readNext.readNext).isk = _
        rw [hcode]
        exact setOption_isk hdata hpay
      have hptr : (afterOption big mem st).ptr = st.ptr + (data.length + 2) := by
        rw [← hnat, ← hsz]
        rfl
      have hleft : (afterOption big mem st).length = st.length - (data.length + 2 : ℕ) := by
        rw [← hnat, ← hsz]
        rfl
      obtain ⟨fuel, st', hrun, hptr', hzero, hisk⟩ := ih hxs (afterOption big mem st)
        (by rw [hleft]; omega) (by
          rw [← hrest, hptr, hleft,
            show st.length.toNat - (data.length + 2) =
              (st.length - (data.length + 2 : ℕ)).toNat by omega])
      refine ⟨fuel + 1, st', ?_, ?_, hzero, ?_⟩
      · rw [setOptionsLoop_opt _ (by omega) (hcode ▸ heol) (hcode ▸ hnop), hrun]
      · rw [hptr', hptr, hleft]
        omega
      · rw [hisk, hafter, foldl_cons]

end Walk

/-! ## The bytes of the builder -/

/-- What `tcp_build_options` puts in a header, as items: the `mss`. -/
def mssItems (ifMss : Bool) (mss : BitVec 16) : List Item :=
  if ifMss then [.opt TCPOPT_MSS [mss.extractLsb' 8 8, mss.extractLsb' 0 8]] else []

/-- The timestamps, with the SACK option or with padding before them, or the SACK option alone. -/
def timestampItems (ifTs ifSack : Bool) (tstamp tsRecent : BitVec 32) : List Item :=
  if ifTs then
    (if ifSack then [.opt TCPOPT_SACK_PERM []] else [.nop, .nop]) ++
      [.opt TCPOPT_TIMESTAMP (wordBytes true tstamp ++ wordBytes true tsRecent)]
  else if ifSack then [.nop, .nop, .opt TCPOPT_SACK_PERM []] else []

/-- The window scale. -/
def wscaleItems (ifWscale : Bool) (wscale : Byte) : List Item :=
  if ifWscale then [.nop, .opt TCPOPT_WINDOW [wscale]] else []

/-- The bytes behind the fixed header are those of these items. -/
structure Build.Wrote (b : Build) (items : List Item) : Prop where
  ptr : b.ptr = sizeofTcphdr + (items.flatMap Item.encode).length
  doff : b.doff = b.ptr
  bytes : bytesAt b.mem sizeofTcphdr (b.ptr - sizeofTcphdr) = items.flatMap Item.encode

section Bytes

variable {big : Bool} {b : Build} {items : List Item}

theorem packed_bytes (a b c d : Byte) :
    wordBytes true (packed a b c (d.setWidth 32)) = [a, b, c, d] := by
  have h3 : (packed a b c (d.setWidth 32)).extractLsb' 24 8 = a := by
    ext i hi
    interval_cases i <;> simp [packed]
  have h2 : (packed a b c (d.setWidth 32)).extractLsb' 16 8 = b := by
    ext i hi
    interval_cases i <;> simp [packed]
  have h1 : (packed a b c (d.setWidth 32)).extractLsb' 8 8 = c := by
    ext i hi
    interval_cases i <;> simp [packed]
  have h0 : (packed a b c (d.setWidth 32)).extractLsb' 0 8 = d := by
    ext i hi
    interval_cases i <;> simp [packed]
  rw [wordBytes, h3, h2, h1, h0, if_pos rfl]

/-- The word of the `mss` option. -/
theorem packed_mss (a b : Byte) (mss : BitVec 16) :
    a.setWidth 32 <<< 24 ||| b.setWidth 32 <<< 16 ||| mss.setWidth 32 =
      packed a b (mss.extractLsb' 8 8) ((mss.extractLsb' 0 8).setWidth 32) := by
  ext i hi
  simp [packed]
  interval_cases i <;> simp

theorem extract_append_extract (mss : BitVec 16) :
    mss.extractLsb' 8 8 ++ mss.extractLsb' 0 8 = mss := by
  apply eq_of_getLsbD_eq
  intro i hi
  rw [getLsbD_append]
  interval_cases i <;> simp

theorem bigLittleSwap32_bytes (v : BitVec 32) :
    (bigLittleSwap32 v).extractLsb' 0 8 = v.extractLsb' 24 8 ∧
      (bigLittleSwap32 v).extractLsb' 8 8 = v.extractLsb' 16 8 ∧
      (bigLittleSwap32 v).extractLsb' 16 8 = v.extractLsb' 8 8 ∧
      (bigLittleSwap32 v).extractLsb' 24 8 = v.extractLsb' 0 8 := by
  refine ⟨?_, ?_, ?_, ?_⟩ <;>
  · ext i hi
    interval_cases i <;> simp [bigLittleSwap32]

/-- `htonl` stores in network order on both kinds of machine. -/
theorem bytesAt_storeWord (big : Bool) (mem : Memory) (p : ℕ) (v : BitVec 32) :
    bytesAt (storeWord big mem p (htonl big v)) p 4 = wordBytes true v := by
  obtain ⟨h0, h1, h2, h3⟩ := bigLittleSwap32_bytes v
  cases big with
  | true => simp [bytesAt, range_succ, storeWord, htonl, wordBytes]
  | false => simp [bytesAt, range_succ, storeWord, htonl, wordBytes, h0, h1, h2, h3]

/-- A store changes nothing before it. -/
theorem bytesAt_storeWord_before (big : Bool) (mem : Memory) (p n : ℕ) (v : BitVec 32) :
    bytesAt (storeWord big mem (p + n) v) p n = bytesAt mem p n := by
  apply map_congr_left
  intro i hi
  have hlt := mem_range.mp hi
  exact if_neg (by omega)

/-- **Step.**  A word is written behind the bytes that are there. -/
theorem Build.put_bytes (v : BitVec 32) (h : sizeofTcphdr ≤ b.ptr) :
    bytesAt (b.put big v).mem sizeofTcphdr ((b.put big v).ptr - sizeofTcphdr) =
      bytesAt b.mem sizeofTcphdr (b.ptr - sizeofTcphdr) ++ wordBytes true v := by
  obtain ⟨n, hn⟩ : ∃ n, b.ptr = sizeofTcphdr + n := ⟨b.ptr - sizeofTcphdr, by omega⟩
  simp only [Build.put, hn]
  rw [Nat.add_sub_cancel_left, show sizeofTcphdr + n + 4 - sizeofTcphdr = n + 4 by omega,
    bytesAt_add, bytesAt_storeWord_before, bytesAt_storeWord]

/-- The words of a block, written one after another. -/
def Build.puts (big : Bool) (ws : List (BitVec 32)) (b : Build) : Build :=
  ws.foldl (fun b w => b.put big w) b

theorem Build.puts_ptr (ws : List (BitVec 32)) (b : Build) :
    (b.puts big ws).ptr = b.ptr + 4 * ws.length := by
  induction ws generalizing b with
  | nil => rfl
  | cons w ws ih =>
    rw [show b.puts big (w :: ws) = (b.put big w).puts big ws from rfl, ih, length_cons]
    show b.ptr + 4 + 4 * ws.length = _
    omega

theorem Build.puts_bytes (ws : List (BitVec 32)) (b : Build) (h : sizeofTcphdr ≤ b.ptr) :
    bytesAt (b.puts big ws).mem sizeofTcphdr ((b.puts big ws).ptr - sizeofTcphdr) =
      bytesAt b.mem sizeofTcphdr (b.ptr - sizeofTcphdr) ++ ws.flatMap (wordBytes true) := by
  induction ws generalizing b with
  | nil => exact (append_nil _).symm
  | cons w ws ih =>
    rw [show b.puts big (w :: ws) = (b.put big w).puts big ws from rfl,
      ih (b.put big w) (Nat.le_add_right_of_le h), Build.put_bytes w h, List.append_assoc,
      flatMap_cons]

/-- A block whose words have the bytes of further items. -/
theorem Build.Wrote.puts (h : b.Wrote items) (ws : List (BitVec 32)) {xs : List Item}
    (hws : ws.flatMap (wordBytes true) = xs.flatMap Item.encode) :
    ({ b.puts big ws with doff := b.doff + 4 * ws.length } : Build).Wrote (items ++ xs) := by
  have hptr := h.ptr
  have hlen : (xs.flatMap Item.encode).length = 4 * ws.length := by
    rw [← hws, length_flatMap]
    simp [wordBytes, Nat.mul_comm]
  refine ⟨?_, ?_, ?_⟩
  · rw [flatMap_append, length_append, hlen, ← Nat.add_assoc, ← hptr]
    exact Build.puts_ptr ws b
  · rw [Build.puts_ptr, h.doff]
  · rw [flatMap_append, ← hws, ← h.bytes]
    exact Build.puts_bytes ws b (by omega)

theorem Build.Wrote.mss (h : b.Wrote items) (big ifMss : Bool) (mss : BitVec 16) :
    (buildMss big ifMss (mss.setWidth 32) b).Wrote (items ++ mssItems ifMss mss) := by
  cases ifMss with
  | false => simpa [buildMss, mssItems] using h
  | true =>
    refine h.puts [_] ?_
    rw [packed_mss, flatMap_cons, packed_bytes]
    rfl

theorem Build.Wrote.timestamp (h : b.Wrote items) (big ifTs ifSack : Bool)
    (tstamp tsRecent : BitVec 32) :
    (buildTimestamp big ifTs ifSack tstamp tsRecent b).Wrote
      (items ++ timestampItems ifTs ifSack tstamp tsRecent) := by
  cases ifTs with
  | false =>
    cases ifSack with
    | false => simpa [buildTimestamp, timestampItems] using h
    | true =>
      refine h.puts [_] ?_
      rw [flatMap_cons, packed_bytes]
      rfl
  | true =>
    cases ifSack
    all_goals
      refine h.puts [_, tstamp, tsRecent] ?_
      rw [flatMap_cons, packed_bytes]
      rfl

theorem Build.Wrote.wscale (h : b.Wrote items) (big ifWscale : Bool) (wscale : Byte) :
    (buildWscale big ifWscale (wscale.setWidth 32) b).Wrote
      (items ++ wscaleItems ifWscale wscale) := by
  cases ifWscale with
  | false => simpa [buildWscale, wscaleItems] using h
  | true =>
    refine h.puts [_] ?_
    rw [flatMap_cons, packed_bytes]
    rfl

end Bytes

/-! ## The round trip -/

/-- The items of a whole header. -/
def builtItems (ifMss : Bool) (mss : BitVec 16) (ifTs ifSack ifWscale : Bool) (wscale : Byte)
    (tstamp tsRecent : BitVec 32) : List Item :=
  mssItems ifMss mss ++ timestampItems ifTs ifSack tstamp tsRecent ++ wscaleItems ifWscale wscale

section RoundTrip

variable (big : Bool) (mem : Memory) (ifMss ifTs ifSack ifWscale : Bool) (mss : BitVec 16)
  (wscale : Byte) (tstamp tsRecent : BitVec 32) (isk : Negotiated)

theorem builtItems_valid :
    ∀ x ∈ builtItems ifMss mss ifTs ifSack ifWscale wscale tstamp tsRecent, x.Valid := by
  have hmss : ∀ x ∈ mssItems ifMss mss, x.Valid := by
    cases ifMss with
    | false => simp [mssItems]
    | true =>
      simp only [mssItems, if_true, forall_mem_singleton, Item.Valid, length_cons]
      decide
  have hts : ∀ x ∈ timestampItems ifTs ifSack tstamp tsRecent, x.Valid := by
    cases ifTs <;> cases ifSack <;>
      simp [timestampItems, Item.Valid, payload, wordBytes] <;> decide
  have hws : ∀ x ∈ wscaleItems ifWscale wscale, x.Valid := by
    cases ifWscale with
    | false => simp [wscaleItems]
    | true =>
      refine forall_mem_cons.mpr ⟨trivial, forall_mem_singleton.mpr ?_⟩
      simp only [Item.Valid, length_cons]
      decide
  intro x hx
  rcases mem_append.mp hx with hx | hx
  · rcases mem_append.mp hx with hx | hx
    · exact hmss x hx
    · exact hts x hx
  · exact hws x hx

/-- The bytes of the items fill whole words, and at most five of them. -/
theorem builtItems_length : ∃ n ≤ 5,
    ((builtItems ifMss mss ifTs ifSack ifWscale wscale tstamp tsRecent).flatMap
      Item.encode).length = 4 * n := by
  have hmss : ((mssItems ifMss mss).flatMap Item.encode).length = if ifMss then 4 else 0 := by
    cases ifMss <;> rfl
  have hts : ((timestampItems ifTs ifSack tstamp tsRecent).flatMap Item.encode).length =
      if ifTs then 12 else if ifSack then 4 else 0 := by
    cases ifTs <;> cases ifSack <;> rfl
  have hws : ((wscaleItems ifWscale wscale).flatMap Item.encode).length =
      if ifWscale then 4 else 0 := by
    cases ifWscale <;> rfl
  refine ⟨(if ifMss then 1 else 0) + (if ifTs then 3 else if ifSack then 1 else 0) +
    (if ifWscale then 1 else 0), ?_, ?_⟩
  · split_ifs <;> omega
  · rw [builtItems, flatMap_append, flatMap_append, length_append,
      length_append, hmss, hts, hws]
    split_ifs <;> rfl

/-- **What the builder leaves**: the bytes of the items, up to `doff * 4`. -/
theorem tcpBuildOptions_wrote :
    let h := tcpBuildOptions big mem ifMss (mss.setWidth 32) ifTs ifSack ifWscale
      (wscale.setWidth 32) tstamp tsRecent
    optionBytes h.1 h.2 =
        (builtItems ifMss mss ifTs ifSack ifWscale wscale tstamp tsRecent).flatMap Item.encode ∧
      sizeofTcphdr ≤ h.2.toNat * 4 ∧ h.2.toNat * 4 ≤ 40 := by
  intro h
  have hnil : ({ mem := mem, ptr := sizeofTcphdr, doff := sizeofTcphdr } : Build).Wrote [] :=
    ⟨rfl, rfl, rfl⟩
  have hwrote := ((hnil.mss big ifMss mss).timestamp big ifTs ifSack tstamp tsRecent).wscale big
    ifWscale wscale
  rw [nil_append] at hwrote
  change Build.Wrote _ (builtItems ifMss mss ifTs ifSack ifWscale wscale tstamp tsRecent) at hwrote
  obtain ⟨n, hle, hn⟩ := builtItems_length ifMss ifTs ifSack ifWscale mss wscale tstamp tsRecent
  have hptr := hwrote.ptr
  rw [hn] at hptr
  have hdoff : h.2.toNat = 5 + n := by
    show (BitVec.ofNat 4 (Build.doff _ / 4)).toNat = 5 + n
    rw [hwrote.doff, hptr, toNat_ofNat, sizeofTcphdr]
    omega
  have hend : h.2.toNat * 4 = sizeofTcphdr + 4 * n := by
    rw [hdoff, sizeofTcphdr]
    omega
  refine ⟨?_, by omega, ?_⟩
  · rw [← hwrote.bytes, optionBytes, hend, hptr]
    rfl
  · rw [hdoff]
    omega

/-- What the items say, taken together. -/
theorem builtItems_apply :
    (builtItems ifMss mss ifTs ifSack ifWscale wscale tstamp tsRecent).foldl Item.apply isk =
      { mss := if ifMss then mss else isk.mss
        sack := if ifSack then true else isk.sack
        windowShift := if ifWscale then wscale else isk.windowShift } := by
  have hmss : (mssItems ifMss mss).foldl Item.apply isk =
      { isk with mss := if ifMss then mss else isk.mss } := by
    cases ifMss with
    | false => rfl
    | true =>
      show { isk with mss := mss.extractLsb' 8 8 ++ mss.extractLsb' 0 8 } = _
      rw [extract_append_extract]
      rfl
  have hts : ∀ isk : Negotiated, (timestampItems ifTs ifSack tstamp tsRecent).foldl Item.apply isk =
      { isk with sack := if ifSack then true else isk.sack } := by
    intro isk
    cases ifTs <;> cases ifSack <;> rfl
  have hws : ∀ isk : Negotiated, (wscaleItems ifWscale wscale).foldl Item.apply isk =
      { isk with windowShift := if ifWscale then wscale else isk.windowShift } := by
    intro isk
    cases ifWscale <;> rfl
  rw [builtItems, foldl_append, foldl_append, hmss, hts, hws]

end RoundTrip

/-- **Round trip of the options.**  For all switches and all values, `tcp_set_options` ends exactly
at the end of the header that `tcp_build_options` has written, and takes over the options that are
there, and nothing else. -/
theorem tcpSetOptions_tcpBuildOptions (big : Bool) (mem : Memory)
    (ifMss ifTs ifSack ifWscale : Bool) (mss : BitVec 16) (wscale : Byte)
    (tstamp tsRecent : BitVec 32) (isk : Negotiated) :
    let h := tcpBuildOptions big mem ifMss (mss.setWidth 32) ifTs ifSack ifWscale
      (wscale.setWidth 32) tstamp tsRecent
    h.2.toNat * 4 ≤ 60 ∧
      ∃ fuel st, tcpSetOptions big h.1 h.2 isk fuel = some st ∧
        st.ptr = h.2.toNat * 4 ∧ st.length = 0 ∧
        st.isk.mss = (if ifMss then mss else isk.mss) ∧
        st.isk.sack = (if ifSack then true else isk.sack) ∧
        st.isk.windowShift = (if ifWscale then wscale else isk.windowShift) := by
  intro h
  obtain ⟨hbytes, hlow, hhigh⟩ := tcpBuildOptions_wrote big mem ifMss ifTs ifSack ifWscale mss
    wscale tstamp tsRecent
  change optionBytes h.1 h.2 = _ at hbytes
  change sizeofTcphdr ≤ h.2.toNat * 4 at hlow
  change h.2.toNat * 4 ≤ 40 at hhigh
  have hlen : ((h.2.toNat * 4 : ℕ) - (sizeofTcphdr : ℤ)).toNat = h.2.toNat * 4 - sizeofTcphdr := by
    omega
  obtain ⟨fuel, st, hrun, hptr, hzero, hisk⟩ := setOptionsLoop_items
    (builtItems ifMss mss ifTs ifSack ifWscale wscale tstamp tsRecent)
    (builtItems_valid ifMss ifTs ifSack ifWscale mss wscale tstamp tsRecent)
    { ptr := sizeofTcphdr, length := (h.2.toNat * 4 : ℕ) - (sizeofTcphdr : ℤ), isk := isk
      reads := [] }
    (by simp only; omega) (by rw [hlen, ← hbytes, optionBytes])
  rw [builtItems_apply] at hisk
  refine ⟨by omega, fuel + 1, st, hrun, ?_, hzero, ?_, ?_, ?_⟩
  · rw [hptr, hlen]
    exact Nat.add_sub_cancel' hlow
  · rw [hisk]
  · rw [hisk]
  · rw [hisk]

end TcpOptions

end Yap
