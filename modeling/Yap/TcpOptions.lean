/-
# Parsing the options of a TCP header (`net/inet/tcp.c`)

`tcp_set_options` walks over the bytes between the fixed header and `doff * 4`.  It moves
by the size byte of each option, which comes from the network and is not checked.  The
model keeps `ptr` and `length` as the code has them, and notes every offset that is read
through `ptr`; offsets are counted from `tcph`.  A loop that may not end runs on fuel, and
ends when some amount of fuel is enough.

`Options` is the grammar of the byte strings on which the walk ends and stays inside the
header; `tcpSetOptions_total_iff` shows that it is exact.
-/
import Yap.IpFragment

namespace Yap

namespace TcpOptions

open Ip List

/-- `sizeof (struct tcphdr)`. -/
def sizeofTcphdr : ℕ := 20

def TCPOPT_EOL : Byte := 0
def TCPOPT_NOP : Byte := 1
def TCPOPT_MSS : Byte := 2
def TCPOPT_WINDOW : Byte := 3
def TCPOPT_SACK_PERM : Byte := 4

/-- The fields of `struct i_socket` that options set. -/
structure Negotiated where
  mss : BitVec 16
  sack : Bool
  windowShift : Byte
  deriving DecidableEq, Repr

/-- The local variables of `tcp_set_options`, the socket, and the offsets read so far,
latest first. -/
structure Loop where
  ptr : ℕ
  length : ℤ
  isk : Negotiated
  reads : List ℕ
  deriving DecidableEq, Repr

/-- The bytes from `tcph` on. -/
abbrev Memory := ℕ → Byte

/-! ## The function -/

/-- `*ptr` leaves a trace. -/
def Loop.read (st : Loop) : Loop := { st with reads := st.ptr :: st.reads }

/-- `*ptr++`, without the value. -/
def Loop.readNext (st : Loop) : Loop := { st with ptr := st.ptr + 1, reads := st.ptr :: st.reads }

/-- `*(unsigned short *)ptr`. -/
def halfword (big : Bool) (mem : Memory) (p : ℕ) : BitVec 16 :=
  if big then mem p ++ mem (p + 1) else mem (p + 1) ++ mem p

/-- `while (length > 0 && *ptr == TCPOPT_NOP) { length--; ptr++; }`, with `length` as the
number of rounds left. -/
def skipNops (mem : Memory) : ℕ → Loop → Loop
  | 0, st => st
  | n + 1, st =>
    if mem st.ptr = TCPOPT_NOP then
      skipNops mem n { st.readNext with length := st.length - 1 }
    else st.read

section

variable (big : Bool) (mem : Memory)

/-- The `switch` for a code other than `TCPOPT_EOL`. -/
def setOption (code : Byte) (st : Loop) : Loop :=
  if code = TCPOPT_MSS then
    { st with
      isk := { st.isk with mss := ntohs big (halfword big mem st.ptr) }
      reads := (st.ptr + 1) :: st.ptr :: st.reads }
  else if code = TCPOPT_SACK_PERM then { st with isk := { st.isk with sack := true } }
  else if code = TCPOPT_WINDOW then
    { st.read with isk := { st.isk with windowShift := mem st.ptr } }
  else st

/-- The outer loop; `none` when the fuel is used up. -/
def setOptionsLoop : ℕ → Loop → Option Loop
  | 0, _ => none
  | fuel + 1, st =>
    if st.length > 0 then
      let st := skipNops mem st.length.toNat st
      if st.length = 0 then some st
      else
        let optCode := mem st.ptr
        let st := st.readNext
        let optSize := mem st.ptr
        let st := st.readNext
        if optCode = TCPOPT_EOL then some st
        else
          let st := setOption big mem optCode st
          setOptionsLoop fuel
            { st with ptr := st.ptr + optSize.toNat - 2, length := st.length - optSize.toNat }
    else some st

/-- `tcp_set_options(isk, skb)`. -/
def tcpSetOptions (doff : BitVec 4) (isk : Negotiated) (fuel : ℕ) : Option Loop :=
  setOptionsLoop big mem fuel
    { ptr := sizeofTcphdr, length := (doff.toNat * 4 : ℕ) - (sizeofTcphdr : ℤ), isk := isk
      reads := [] }

/-- The function returns, and what it read through `ptr` lies inside the header. -/
def Total (doff : BitVec 4) (isk : Negotiated) : Prop :=
  ∃ fuel st, tcpSetOptions big mem doff isk fuel = some st ∧ ∀ o ∈ st.reads, o < doff.toNat * 4

end

/-! ## The grammar -/

/-- How many bytes after the size byte the `switch` reads. -/
def payload (code : Byte) : ℕ :=
  if code = TCPOPT_MSS then 2 else if code = TCPOPT_WINDOW then 1 else 0

/-- The byte strings that are parsed inside their bounds.  The size byte is read even
for `TCPOPT_EOL`, and an option may claim any size but zero. -/
inductive Options : List Byte → Prop
  | nil : Options []
  | nop {bs : List Byte} : Options bs → Options (TCPOPT_NOP :: bs)
  | eol {b : Byte} {bs : List Byte} : Options (TCPOPT_EOL :: b :: bs)
  | opt {code size : Byte} {bs : List Byte} : code ≠ TCPOPT_EOL → code ≠ TCPOPT_NOP →
      size ≠ 0 → payload code ≤ bs.length → Options ((code :: size :: bs).drop size.toNat) →
      Options (code :: size :: bs)

section

variable (mem : Memory)

/-- `n` bytes of memory from `p` on. -/
def bytesAt (p n : ℕ) : List Byte := (range n).map (fun i => mem (p + i))

/-- The option bytes of a header. -/
def optionBytes (doff : BitVec 4) : List Byte :=
  bytesAt mem sizeofTcphdr (doff.toNat * 4 - sizeofTcphdr)

@[simp] theorem bytesAt_zero (p : ℕ) : bytesAt mem p 0 = [] := rfl

@[simp] theorem length_bytesAt (p n : ℕ) : (bytesAt mem p n).length = n := by
  simp [bytesAt]

theorem bytesAt_succ (p n : ℕ) : bytesAt mem p (n + 1) = mem p :: bytesAt mem (p + 1) n := by
  simp [bytesAt, range_succ_eq_map, Nat.add_assoc, Nat.add_comm 1]

theorem drop_bytesAt (k p n : ℕ) : (bytesAt mem p n).drop k = bytesAt mem (p + k) (n - k) := by
  induction k generalizing p n with
  | zero => simp
  | succ k ih =>
    cases n with
    | zero => simp
    | succ n =>
      rw [bytesAt_succ, drop_succ_cons, ih]
      congr 1 <;> omega

end

/-- A non-empty rest, taken apart. -/
theorem bytesAt_eq_cons {mem : Memory} {st : Loop} {b : Byte} {bs : List Byte}
    (h : b :: bs = bytesAt mem st.ptr st.length.toNat) :
    ∃ n : ℕ, st.length.toNat = n + 1 ∧ 0 < st.length ∧ b = mem st.ptr ∧
      bs = bytesAt mem (st.ptr + 1) n := by
  have hlen := congrArg List.length h
  rw [length_bytesAt, length_cons] at hlen
  rw [← hlen, bytesAt_succ] at h
  obtain ⟨hb, hbs⟩ := List.cons.inj h
  exact ⟨bs.length, hlen.symm, by omega, hb, hbs⟩

/-! ## One round -/

/-- The state at the start of the next round, after an option of the given size. -/
def afterOption (big : Bool) (mem : Memory) (st : Loop) : Loop :=
  let st' := setOption big mem (mem st.ptr) (st.read.readNext.readNext)
  { st' with
    ptr := st.ptr + (mem (st.ptr + 1)).toNat
    length := st.length - (mem (st.ptr + 1)).toNat }

section

variable (big : Bool) (mem : Memory) (code : Byte) (st : Loop)

@[simp] theorem setOption_ptr :
    (setOption big mem code st).ptr = st.ptr := by
  unfold setOption Loop.read
  split_ifs <;> rfl

@[simp] theorem setOption_length :
    (setOption big mem code st).length = st.length := by
  unfold setOption Loop.read
  split_ifs <;> rfl

/-- The `switch` reads the option's payload. -/
theorem setOption_reads (o : ℕ) :
    o ∈ (setOption big mem code st).reads ↔
      o ∈ st.reads ∨ st.ptr ≤ o ∧ o < st.ptr + payload code := by
  unfold setOption payload Loop.read
  by_cases hmss : code = TCPOPT_MSS
  · have htwo : (o = st.ptr + 1 ∨ o = st.ptr) ↔ st.ptr ≤ o ∧ o < st.ptr + 2 := by omega
    simp only [hmss, if_true, mem_cons]
    rw [← htwo, ← or_assoc]
    exact or_comm
  · by_cases hwin : code = TCPOPT_WINDOW
    · have hsack : code ≠ TCPOPT_SACK_PERM := by rw [hwin]; decide
      have hone : o = st.ptr ↔ st.ptr ≤ o ∧ o < st.ptr + 1 := by omega
      rw [if_neg hmss, if_neg hsack, if_pos hwin, if_neg hmss, if_pos hwin, mem_cons, hone]
      exact or_comm
    · have hnone : ¬ (st.ptr ≤ o ∧ o < st.ptr + 0) := by omega
      rw [if_neg hmss, if_neg hwin, if_neg hmss, if_neg hwin]
      split_ifs <;> exact (or_iff_left hnone).symm

end

section Round

variable {big : Bool} {mem : Memory} {st : Loop}

theorem setOptionsLoop_done (fuel : ℕ) (h : st.length ≤ 0) :
    setOptionsLoop big mem (fuel + 1) st = some st := by
  rw [setOptionsLoop, if_neg (by omega)]

/-- A NOP is skipped inside a round. -/
theorem setOptionsLoop_nop (fuel : ℕ) (h : 0 < st.length) (hnop : mem st.ptr = TCPOPT_NOP) :
    setOptionsLoop big mem (fuel + 1) st =
      setOptionsLoop big mem (fuel + 1) { st.readNext with length := st.length - 1 } := by
  obtain ⟨n, hn⟩ : ∃ n : ℕ, st.length = n + 1 := ⟨st.length.toNat - 1, by omega⟩
  have hskip : skipNops mem st.length.toNat st =
      skipNops mem n { st.readNext with length := st.length - 1 } := by
    rw [show st.length.toNat = n + 1 by omega, skipNops, if_pos hnop]
  rw [setOptionsLoop, if_pos h, hskip]
  rcases Nat.eq_zero_or_pos n with rfl | hpos
  · -- it was the last byte: both sides stop here
    have hzero : st.length - 1 = 0 := by omega
    rw [skipNops, setOptionsLoop_done _ (le_of_eq hzero)]
    exact if_pos hzero
  · rw [setOptionsLoop.eq_def big mem (fuel + 1)]
    simp only
    rw [if_pos (show st.length - 1 > 0 by omega), show (st.length - 1).toNat = n by omega]

theorem skipNops_of_ne (h : 0 < st.length) (hnop : mem st.ptr ≠ TCPOPT_NOP) :
    skipNops mem st.length.toNat st = st.read := by
  obtain ⟨n, hn⟩ : ∃ n : ℕ, st.length.toNat = n + 1 := ⟨st.length.toNat - 1, by omega⟩
  rw [hn, skipNops, if_neg hnop]

theorem setOptionsLoop_eol (fuel : ℕ) (h : 0 < st.length) (heol : mem st.ptr = TCPOPT_EOL) :
    setOptionsLoop big mem (fuel + 1) st = some st.read.readNext.readNext := by
  have hnop : mem st.ptr ≠ TCPOPT_NOP := by rw [heol]; decide
  rw [setOptionsLoop, if_pos h, skipNops_of_ne h hnop]
  have hlen : st.read.length ≠ 0 := ne_of_gt h
  rw [if_neg hlen]
  exact if_pos heol

theorem setOptionsLoop_opt (fuel : ℕ) (h : 0 < st.length) (heol : mem st.ptr ≠ TCPOPT_EOL)
    (hnop : mem st.ptr ≠ TCPOPT_NOP) :
    setOptionsLoop big mem (fuel + 1) st =
      setOptionsLoop big mem fuel (afterOption big mem st) := by
  rw [setOptionsLoop, if_pos h, skipNops_of_ne h hnop]
  have hlen : st.read.length ≠ 0 := ne_of_gt h
  rw [if_neg hlen]
  refine (if_neg heol).trans ?_
  simp only [afterOption, setOption_ptr, setOption_length, Loop.read, Loop.readNext]
  rw [show st.ptr + 1 + 1 + (mem (st.ptr + 1)).toNat - 2 = st.ptr + (mem (st.ptr + 1)).toNat by
    omega]

/-- What an option reads: its code (twice), its size and its payload. -/
theorem afterOption_reads (o : ℕ) :
    o ∈ (afterOption big mem st).reads ↔
      o ∈ st.reads ∨ st.ptr ≤ o ∧ o < st.ptr + 2 + payload (mem st.ptr) := by
  have h := setOption_reads big mem (mem st.ptr) (st.read.readNext.readNext) o
  refine h.trans ?_
  simp only [Loop.read, Loop.readNext, mem_cons]
  by_cases hmem : o ∈ st.reads
  · simp [hmem]
  · simp only [hmem, or_false, false_or]
    omega

end Round

/-! ## The whole walk -/

/-- What has been read stays on record. -/
theorem setOptionsLoop_reads {big : Bool} {mem : Memory} {st' : Loop} (fuel n : ℕ) :
    ∀ st : Loop, st.length.toNat = n → setOptionsLoop big mem fuel st = some st' →
      ∀ o ∈ st.reads, o ∈ st'.reads := by
  -- on the fuel, and within a round on the bytes left, for the NOPs
  induction fuel generalizing n with
  | zero => intro st _ h; exact absurd h (by simp [setOptionsLoop])
  | succ fuel ihf =>
    induction n with
    | zero =>
      intro st hn h o ho
      rw [setOptionsLoop_done _ (by omega)] at h
      exact Option.some.inj h ▸ ho
    | succ n ihn =>
      intro st hn h o ho
      have hpos : 0 < st.length := by omega
      by_cases hnop : mem st.ptr = TCPOPT_NOP
      · rw [setOptionsLoop_nop _ hpos hnop] at h
        exact ihn _ (show (st.length - 1).toNat = n by omega) h o (mem_cons_of_mem _ ho)
      · by_cases heol : mem st.ptr = TCPOPT_EOL
        · rw [setOptionsLoop_eol _ hpos heol] at h
          obtain rfl := Option.some.inj h
          simp [Loop.read, Loop.readNext, ho]
        · rw [setOptionsLoop_opt _ hpos heol hnop] at h
          exact ihf _ _ rfl h o ((afterOption_reads o).mpr (Or.inl ho))

/-- On the grammar the walk ends, and reads only the bytes it is given. -/
theorem setOptionsLoop_of_options (big : Bool) (mem : Memory) {bs : List Byte} (hbs : Options bs) :
    ∀ st : Loop, bs = bytesAt mem st.ptr st.length.toNat →
      ∃ fuel st', setOptionsLoop big mem (fuel + 1) st = some st' ∧
        ∀ o ∈ st'.reads, o ∈ st.reads ∨ 0 < st.length ∧ o < st.ptr + st.length.toNat := by
  induction hbs with
  | nil =>
    intro st hst
    have hlen := congrArg List.length hst
    rw [length_bytesAt, length_nil] at hlen
    exact ⟨0, st, setOptionsLoop_done 0 (by omega), fun o ho => Or.inl ho⟩
  | @nop bs _ ih =>
    intro st hst
    obtain ⟨n, hn, hpos, hhead, htail⟩ := bytesAt_eq_cons hst
    obtain ⟨fuel, st', hrun, hreads⟩ := ih { st.readNext with length := st.length - 1 }
      (by rw [htail, show (st.length - 1).toNat = n by omega]; rfl)
    refine ⟨fuel, st', by rw [setOptionsLoop_nop fuel hpos hhead.symm, hrun], ?_⟩
    intro o ho
    rcases hreads o ho with h | h
    · rcases mem_cons.mp h with rfl | h
      · right; omega
      · left; exact h
    · right
      simp only [Loop.readNext] at h
      omega
  | @eol b bs =>
    intro st hst
    obtain ⟨n, hn, hpos, hhead, htail⟩ := bytesAt_eq_cons hst
    refine ⟨0, _, setOptionsLoop_eol 0 hpos hhead.symm, ?_⟩
    have hlen := congrArg List.length htail
    rw [length_bytesAt, length_cons] at hlen
    intro o ho
    simp only [Loop.read, Loop.readNext, mem_cons] at ho
    rcases ho with rfl | rfl | rfl | h
    · right; omega
    · right; omega
    · right; omega
    · left; exact h
  | @opt code size bs heol hnop _ hpay _ ih =>
    intro st hst
    obtain ⟨n, hn, hpos, hhead, htail⟩ := bytesAt_eq_cons hst
    obtain ⟨k, rfl⟩ : ∃ k, n = k + 1 := by
      have hlen := congrArg List.length htail
      rw [length_bytesAt, length_cons] at hlen
      exact ⟨bs.length, hlen.symm⟩
    rw [bytesAt_succ] at htail
    obtain ⟨hsize, hrest⟩ := List.cons.inj htail
    have hk : bs.length = k := by rw [hrest, length_bytesAt]
    obtain ⟨fuel, st', hrun, hreads⟩ := ih (afterOption big mem st) (by
      rw [hst, drop_bytesAt, hsize]
      simp only [afterOption]
      congr 1
      omega)
    subst hhead
    refine ⟨fuel + 1, st', by rw [setOptionsLoop_opt _ hpos heol hnop, hrun], ?_⟩
    intro o ho
    rcases hreads o ho with h | h
    · rcases (afterOption_reads o).mp h with h | h
      · left; exact h
      · right; omega
    · right
      simp only [afterOption] at h
      omega

/-- A walk that ends without leaving its bytes has read a string of the grammar. -/
theorem options_of_setOptionsLoop (big : Bool) (mem : Memory) (stop : ℕ) {st' : Loop}
    (hin : ∀ o ∈ st'.reads, o < stop) (fuel n : ℕ) :
    ∀ st : Loop, st.length.toNat = n → (st.ptr + st.length = stop) →
      setOptionsLoop big mem fuel st = some st' → Options (bytesAt mem st.ptr n) := by
  induction fuel generalizing n with
  | zero => intro st _ _ h; exact absurd h (by simp [setOptionsLoop])
  | succ fuel ihf =>
    induction n with
    | zero => intro st _ _ _; exact Options.nil
    | succ n ihn =>
      intro st hn hstop h
      have hpos : 0 < st.length := by omega
      rw [bytesAt_succ]
      by_cases hnop : mem st.ptr = TCPOPT_NOP
      · rw [setOptionsLoop_nop _ hpos hnop] at h
        rw [hnop]
        apply Options.nop
        exact ihn { st.readNext with length := st.length - 1 }
          (show (st.length - 1).toNat = n by omega)
          (by simp only [Loop.readNext]; push_cast; omega) h
      · -- the size byte is read, so at least two bytes are left
        have htwo : st.ptr + 1 < stop := by
          by_cases heol : mem st.ptr = TCPOPT_EOL
          · rw [setOptionsLoop_eol _ hpos heol] at h
            obtain rfl := Option.some.inj h
            apply hin
            simp [Loop.read, Loop.readNext]
          · rw [setOptionsLoop_opt _ hpos heol hnop] at h
            exact hin _ (setOptionsLoop_reads _ _ _ rfl h _
              ((afterOption_reads _).mpr (Or.inr (by omega))))
        obtain ⟨k, rfl⟩ : ∃ k, n = k + 1 := ⟨n - 1, by omega⟩
        rw [bytesAt_succ]
        by_cases heol : mem st.ptr = TCPOPT_EOL
        · rw [heol]
          exact Options.eol
        · rw [setOptionsLoop_opt _ hpos heol hnop] at h
          have hrest : Options ((bytesAt mem st.ptr (k + 1 + 1)).drop (mem (st.ptr + 1)).toNat) := by
            rw [drop_bytesAt]
            by_cases hover : (k + 1 + 1 : ℕ) ≤ (mem (st.ptr + 1)).toNat
            · rw [Nat.sub_eq_zero_of_le hover]
              exact Options.nil
            · exact ihf _ (afterOption big mem st)
                (by simp only [afterOption]; omega) (by simp only [afterOption]; omega) h
          rw [bytesAt_succ, bytesAt_succ] at hrest
          by_cases hsize : mem (st.ptr + 1) = 0
          · -- size zero: the next round starts at the same byte
            simpa [hsize] using hrest
          · apply Options.opt heol hnop hsize _ hrest
            rw [length_bytesAt]
            by_contra hpay
            have hlast := hin (st.ptr + 1 + payload (mem st.ptr))
              (setOptionsLoop_reads _ _ _ rfl h _ ((afterOption_reads _).mpr (Or.inr (by omega))))
            omega

/-- **When parsing is total.**  For every header and every content of its option bytes,
`tcp_set_options` returns after finitely many rounds and reads inside the header exactly
if the options follow the grammar. -/
theorem tcpSetOptions_total_iff (big : Bool) (mem : Memory) (doff : BitVec 4)
    (isk : Negotiated) : Total big mem doff isk ↔ Options (optionBytes mem doff) := by
  constructor
  · rintro ⟨fuel, st, hrun, hin⟩
    by_cases hdoff : sizeofTcphdr ≤ doff.toNat * 4
    · exact options_of_setOptionsLoop big mem (doff.toNat * 4) hin fuel _ _
        (by simp only; omega) (by simp only; omega) hrun
    · rw [optionBytes, Nat.sub_eq_zero_of_le (by omega)]
      exact Options.nil
  · intro h
    obtain ⟨fuel, st, hrun, hin⟩ := setOptionsLoop_of_options big mem h
      { ptr := sizeofTcphdr, length := (doff.toNat * 4 : ℕ) - (sizeofTcphdr : ℤ), isk := isk
        reads := [] } (by rw [optionBytes]; congr 1; simp only; omega)
    refine ⟨fuel + 1, st, hrun, ?_⟩
    intro o ho
    rcases hin o ho with hnil | hlt
    · exact absurd hnil not_mem_nil
    · simp only at hlt
      omega

/-! ## Senders that keep to the format, and those that do not -/

/-- What a sender puts in a header: padding, or an option with its data. -/
inductive Item : Type where
  | nop : Item
  | opt (code : Byte) (data : List Byte) : Item

/-- The bytes of an item; the size counts the code and itself. -/
def Item.encode : Item → List Byte
  | .nop => [TCPOPT_NOP]
  | .opt code data => code :: BitVec.ofNat 8 (data.length + 2) :: data

/-- The code is no padding, the size fits its byte, and an option that has a value
carries it. -/
def Item.Valid : Item → Prop
  | .nop => True
  | .opt code data => code ≠ TCPOPT_EOL ∧ code ≠ TCPOPT_NOP ∧ data.length + 2 < 256 ∧
      payload code ≤ data.length

/-- An option of size zero is parsed again and again. -/
theorem setOptionsLoop_zero_size (big : Bool) (mem : Memory) (fuel : ℕ) (st : Loop)
    (hpos : 0 < st.length) (heol : mem st.ptr ≠ TCPOPT_EOL) (hnop : mem st.ptr ≠ TCPOPT_NOP)
    (hzero : mem (st.ptr + 1) = 0) : setOptionsLoop big mem fuel st = none := by
  induction fuel generalizing st with
  | zero => rfl
  | succ fuel ih =>
    have hptr : (afterOption big mem st).ptr = st.ptr := by simp [afterOption, hzero]
    have hlen : (afterOption big mem st).length = st.length := by simp [afterOption, hzero]
    rw [setOptionsLoop_opt fuel hpos heol hnop]
    apply ih
    · rw [hlen]; exact hpos
    · rw [hptr]; exact heol
    · rw [hptr]; exact hnop
    · rw [hptr]; exact hzero

/-- A header whose four option bytes are the given ones; the segment's data are zeros. -/
def headerWith (b₀ b₁ b₂ b₃ : Byte) : Memory := fun o =>
  if o = 20 then b₀ else if o = 21 then b₁ else if o = 22 then b₂ else if o = 23 then b₃ else 0

/-- Nothing negotiated. -/
def fresh : Negotiated := { mss := 0, sack := false, windowShift := 0 }

/-- A timestamp option of size zero is parsed for ever, and an end-of-options byte in the
last position makes the parser read the byte after the header. -/
theorem zero_size_never_ends :
    ¬ Total false (headerWith 8 0 0 0) 6 fresh ∧
      ∃ st, tcpSetOptions false (headerWith 1 1 1 0) 6 fresh 1 = some st ∧ 24 ∈ st.reads := by
  refine ⟨?_, ?_⟩
  · rintro ⟨fuel, st, hrun, -⟩
    rw [tcpSetOptions, setOptionsLoop_zero_size] at hrun
    · exact absurd hrun (by simp)
    all_goals decide
  · refine ⟨_, rfl, ?_⟩
    decide

end TcpOptions

end Yap
