/-
# The layout of slabs (`mm/slab.c`)

`kmem_cache_create` fixes the layout of all slabs of a cache: the size of an object, the order
of the pages, the number of objects, where the management structure is, and the colours.  All
of this is 32-bit arithmetic: rounding sizes, the loop of `kmem_cache_estimate` that fills a
slab, the loop over the page orders around it, and the move of the management structure into
what is left over.

The loops run for at most `rounds` rounds here; enough rounds give the result.  The decrement
of `gfporder` at order 0 would wrap around, and the result of the sizing is then `wrapped`.
-/
import Yap.Slab
import Yap.Masks

namespace Yap

namespace SlabLayout

open List BitVec Option
open Slab (l1CacheBytes l1CacheAlign sizeofSlab sizeofBufctl slabSize)

/-! ## Constants -/

/-- `BYTES_PER_WORD`. -/
def bytesPerWord : BitVec 32 := 4

/-- `MAX_OBJ_ORDER`. -/
def maxObjOrder : BitVec 32 := 5

/-- `MAX_GFP_ORDER`. -/
def maxGfpOrder : BitVec 32 := 5

/-- `SLAB_LIMIT`. -/
def slabLimit : BitVec 32 := 0xfffffffe

/-- `SLAB_NO_REAP`. -/
def slabNoReap : BitVec 32 := 0x00001000

/-- `SLAB_HWCACHE_ALIGN`. -/
def slabHwcacheAlign : BitVec 32 := 0x00002000

/-- `SLAB_CACHE_DMA`. -/
def slabCacheDma : BitVec 32 := 0x00004000

/-- `CREATE_MASK`. -/
def createMask : BitVec 32 := slabHwcacheAlign ||| slabNoReap ||| slabCacheDma

/-- `CFLGS_OFF_SLAB`. -/
def cflgsOffSlab : BitVec 32 := 0x00010000

/-- `CFLGS_OPTIMIZE`. -/
def cflgsOptimize : BitVec 32 := 0x00020000

/-! ## Caches -/

/-- The fields of `kmem_cache_t` that make the layout.  `slabp_cache` is a general cache, named
by its place in `cache_sizes`. -/
structure KmemCache where
  objsize : BitVec 32
  flags : BitVec 32
  num : BitVec 32
  gfporder : BitVec 32
  colour : BitVec 32
  colourOff : BitVec 32
  slabpCache : Option ℕ
  deriving DecidableEq, Repr

/-- `OFF_SLAB(cachep)`. -/
def KmemCache.offSlab (c : KmemCache) : Bool := c.flags &&& cflgsOffSlab ≠ 0

/-- The static variables: `cache_sizes` without the entry that ends it, each size with
`cs_cachep`. -/
structure Globals where
  slabBreakGfpOrder : BitVec 32
  offslabLimit : BitVec 32
  cacheSizes : List (BitVec 32 × Option KmemCache)
  deriving DecidableEq, Repr

/-- `kmem_find_general_cachep(size, 0)`. -/
def kmemFindGeneralCachep (g : Globals) (size : BitVec 32) : Option ℕ :=
  let i := g.cacheSizes.findIdx fun e => size ≤ e.1
  (g.cacheSizes[i]?.bind Prod.snd).map fun _ => i

/-! ## Estimating -/

/-- The loop of `kmem_cache_estimate`. -/
def estimateLoop (size base extra wastage : BitVec 32) : ℕ → BitVec 32 → Option (BitVec 32)
  | 0, _ => none
  | rounds + 1, i =>
    if i * size + l1CacheAlign (base + i * extra) ≤ wastage then
      estimateLoop size base extra wastage rounds (i + 1)
    else some i

/-- `kmem_cache_estimate(gfporder, size, flags, &left_over, &num)`: `left_over` and `num`. -/
def kmemCacheEstimate (rounds : ℕ) (gfporder size flags : BitVec 32) :
    Option (BitVec 32 × BitVec 32) :=
  let wastage := pageSize <<< gfporder
  let base := if flags &&& cflgsOffSlab = 0 then sizeofSlab else 0
  let extra := if flags &&& cflgsOffSlab = 0 then sizeofBufctl else 0
  (estimateLoop size base extra wastage rounds 0).map fun i =>
    let i := if BitVec.slt 0 i then i - 1 else i
    let i := if i > slabLimit then slabLimit else i
    (wastage - i * size - l1CacheAlign (base + i * extra), i)

/-- What the loop over the page orders comes to. -/
inductive Sizing : Type where
  | done (gfporder leftOver num : BitVec 32) : Sizing
  | wrapped : Sizing
  | running : Sizing
  deriving DecidableEq, Repr

/-- The loop over the page orders. -/
def sizing (estimateRounds : ℕ) (g : Globals) (size flags : BitVec 32) :
    ℕ → BitVec 32 → Bool → Sizing
  | 0, _, _ => .running
  | rounds + 1, gfporder, breakFlag =>
    match kmemCacheEstimate estimateRounds gfporder size flags with
    | none => .running
    | some (leftOver, num) =>
      if breakFlag then .done gfporder leftOver num
      else if gfporder ≥ maxGfpOrder then .done gfporder leftOver num
      else if num = 0 then sizing estimateRounds g size flags rounds (gfporder + 1) false
      else if flags &&& cflgsOffSlab ≠ 0 ∧ num > g.offslabLimit then
        if gfporder = 0 then .wrapped
        else sizing estimateRounds g size flags rounds (gfporder - 1) true
      else if gfporder ≥ g.slabBreakGfpOrder then .done gfporder leftOver num
      else if leftOver * 8 ≤ pageSize <<< gfporder then .done gfporder leftOver num
      else sizing estimateRounds g size flags rounds (gfporder + 1) false

/-! ## Creating a cache -/

/-- `size` in terms of words. -/
def wordAlign (size : BitVec 32) : BitVec 32 :=
  if size &&& (bytesPerWord - 1) ≠ 0 then
    (size + (bytesPerWord - 1)) &&& ~~~(bytesPerWord - 1)
  else size

/-- `while (size < align / 2) align /= 2;` -/
def shrinkAlign (size : BitVec 32) : ℕ → BitVec 32 → Option (BitVec 32)
  | 0, _ => none
  | rounds + 1, align =>
    if size < align / 2 then shrinkAlign size rounds (align / 2) else some align

/-- The colour offset and the remaining fields. -/
def initFields (g : Globals) (size offset align flags gfporder leftOver num : BitVec 32) :
    KmemCache :=
  let offset := (offset + (align - 1)) &&& ~~~(align - 1)
  let offset := if offset = 0 then l1CacheBytes else offset
  let flags := if gfporder = 0 ∧ flags &&& cflgsOffSlab = 0 then flags ||| cflgsOptimize else flags
  { objsize := size
    flags := flags
    num := num
    gfporder := gfporder
    colour := leftOver / offset
    colourOff := offset
    slabpCache :=
      if flags &&& cflgsOffSlab ≠ 0 then
        kmemFindGeneralCachep g (slabSize num)
      else none }

/-- What `kmem_cache_create` does behind the loop, for `num` other than 0: the management
structure is moved into the slab if what is left over suffices. -/
def finish (g : Globals) (size offset align flags gfporder leftOver num : BitVec 32) :
    KmemCache :=
  if flags &&& cflgsOffSlab ≠ 0 ∧ leftOver ≥ slabSize num then
    initFields g size offset align (flags &&& ~~~cflgsOffSlab) gfporder
      (leftOver - slabSize num) num
  else initFields g size offset align flags gfporder leftOver num

/-- What `kmem_cache_create` comes to. -/
inductive Created : Type where
  | cache (c : Option KmemCache) : Created
  | wrapped : Created
  | running : Created
  deriving DecidableEq, Repr

/-- `kmem_cache_create(name, size, offset, flags, ctor, dtor)`; `alloc` tells whether
`kmem_cache_alloc(&cache_cache)` gives an object. -/
def kmemCacheCreate (rounds : ℕ) (g : Globals) (alloc : Bool) (size offset flags : BitVec 32) :
    Created :=
  if alloc then
    let size := wordAlign size
    let flags := if size ≥ pageSize >>> 3 then flags ||| cflgsOffSlab else flags
    let hw := flags &&& slabHwcacheAlign ≠ 0
    match if hw then shrinkAlign size rounds l1CacheBytes else some bytesPerWord with
    | none => .running
    | some align =>
      let size := if hw then (size + align - 1) &&& ~~~(align - 1) else size
      match sizing rounds g size flags rounds 0 false with
      | .running => .running
      | .wrapped => .wrapped
      | .done gfporder leftOver num =>
        if num = 0 then .cache none
        else .cache (some (finish g size offset align flags gfporder leftOver num))
  else .cache none

/-- The sanity checks on `size` and `offset`. -/
def Sane (size offset : BitVec 32) : Prop :=
  ¬ size < bytesPerWord ∧ ¬ size > (1#32 <<< maxObjOrder) * pageSize ∧ ¬ offset > size

instance (size offset : BitVec 32) : Decidable (Sane size offset) :=
  inferInstanceAs (Decidable (_ ∧ _ ∧ _))

/-! ## The general caches -/

/-- The sizes in `cache_sizes`. -/
def csSizes : List (BitVec 32) :=
  [32, 64, 128, 256, 512, 1024, 2048, 4096, 8192, 16384, 32768, 65536, 131072]

/-- The loop of `kmem_cache_sizes_init` over the sizes from number `i` on; `alloc` as above, for
each call.  `BUG()` does nothing, and a cache that is `NULL` is read: `none`. -/
def sizesLoop (rounds : ℕ) (alloc : ℕ → Bool) : ℕ → List (BitVec 32) → Globals → Option Globals
  | _, [], g => some g
  | i, size :: sizes, g =>
    match kmemCacheCreate rounds g (alloc i) size 0 slabHwcacheAlign with
    | .cache (some c) =>
      sizesLoop rounds alloc (i + 1) sizes { g with
        cacheSizes := g.cacheSizes.set i (size, some c)
        offslabLimit := if c.offSlab then g.offslabLimit else (size - sizeofSlab) / 2 }
    | _ => none

/-- `kmem_cache_sizes_init()`. -/
def kmemCacheSizesInit (rounds : ℕ) (numPhyspages : BitVec 32) (alloc : ℕ → Bool) :
    Option Globals :=
  sizesLoop rounds alloc 0 csSizes
    { slabBreakGfpOrder := if numPhyspages > (32 <<< 20) >>> 12 then 2 else 1
      offslabLimit := 0
      cacheSizes := csSizes.map fun size => (size, none) }

/-! ## Slabs -/

/-- The values of `colour_next`: 0 from the `memset`, then what `kmem_cache_grow` makes of it. -/
inductive ColourNext (c : KmemCache) : BitVec 32 → Prop where
  | zero : ColourNext c 0
  | grow {k : BitVec 32} : ColourNext c k →
      ColourNext c (if k + 1 ≥ c.colour then 0 else k + 1)

/-- `kmem_cache_slabmgmt` with the offset that `kmem_cache_grow` computes: the addresses of the
management structure and of the first object.  `outside` is the object from `slabp_cache`. -/
def kmemCacheSlabmgmt (c : KmemCache) (objp outside : ℕ) (colourNext : BitVec 32) : ℕ × ℕ :=
  let colourOff := colourNext * c.colourOff
  if c.offSlab then (outside, objp + colourOff.toNat)
  else (objp + colourOff.toNat,
    objp + (colourOff + slabSize c.num).toNat)

/-! ## Rounding -/

/-- `x + (2^k - 1) & ~(2^k - 1)`. -/
theorem toNat_roundUp (x align : BitVec 32) (k : ℕ) (hmask : ~~~(align - 1) = maskOf k)
    (hlow : (align - 1).toNat = 2 ^ k - 1) (h : x.toNat + (2 ^ k - 1) < 2 ^ 32) :
    ((x + (align - 1)) &&& ~~~(align - 1)).toNat = (x.toNat + (2 ^ k - 1)) / 2 ^ k * 2 ^ k := by
  rw [hmask, toNat_and_maskOf, toNat_add, hlow, Nat.mod_eq_of_lt h]

theorem toNat_l1CacheAlign {x : BitVec 32} (h : x.toNat + 31 < 2 ^ 32) :
    (l1CacheAlign x).toNat = (x.toNat + 31) / 32 * 32 :=
  toNat_roundUp x l1CacheBytes 5 (by decide) rfl h

variable {size flags num k : BitVec 32} {off : Bool} {o rounds left i : ℕ} {g : Globals}
  {c : KmemCache}

theorem wordAlign_spec (h : size.toNat ≤ 131072) :
    size.toNat ≤ (wordAlign size).toNat ∧ (wordAlign size).toNat < size.toNat + 4 ∧
      (wordAlign size).toNat % 4 = 0 := by
  unfold wordAlign
  split_ifs with hlow
  · rw [toNat_roundUp size bytesPerWord 2 (by decide) rfl (by omega)]
    omega
  · have hmod : (size &&& (bytesPerWord - 1)).toNat = size.toNat % 4 := by
      exact Nat.and_two_pow_sub_one_eq_mod _ 2
    rw [not_not.mp hlow] at hmod
    have hzero : (0 : BitVec 32).toNat = 0 := rfl
    omega

/-! ## Estimates -/

/-- The bytes of the management structure in a slab of `n` objects. -/
def mgmtSize (off : Bool) (n : ℕ) : ℕ := if off then 0 else (n * 4 + 24 + 31) / 32 * 32

/-- The bytes that `n` objects need. -/
def need (off : Bool) (size n : ℕ) : ℕ := n * size + mgmtSize off n

/-- No step of the loop wraps around. -/
theorem toNat_need (size i : BitVec 32) {base extra : BitVec 32}
    (hbase : base = if off then 0 else sizeofSlab)
    (hextra : extra = if off then 0 else sizeofBufctl) (hi : i.toNat < 2 ^ 20)
    (hfit : i.toNat * size.toNat < 2 ^ 20) :
    (i * size).toNat = i.toNat * size.toNat ∧
      (l1CacheAlign (base + i * extra)).toNat = mgmtSize off i.toNat ∧
      (i * size + l1CacheAlign (base + i * extra)).toNat = need off size.toNat i.toNat := by
  have hmul := toNat_mul_of_lt (x := i) (y := size) (by omega)
  have halign : (l1CacheAlign (base + i * extra)).toNat = mgmtSize off i.toNat := by
    subst hbase hextra
    cases off
    · have h4 : sizeofBufctl.toNat = 4 := rfl
      have h24 : sizeofSlab.toNat = 24 := rfl
      have hsum : (sizeofSlab + i * sizeofBufctl).toNat = i.toNat * 4 + 24 := by
        rw [toNat_add, toNat_mul, h4, h24]
        omega
      simp only [Bool.false_eq_true, if_false, mgmtSize]
      rw [toNat_l1CacheAlign (by omega), hsum]
    · simp only [if_true, mgmtSize]
      rw [show (0 : BitVec 32) + i * 0 = 0 by simp]
      rfl
  refine ⟨hmul, halign, ?_⟩
  have hm : mgmtSize off i.toNat ≤ i.toNat * 4 + 55 := by
    cases off <;> simp only [mgmtSize, Bool.false_eq_true, if_false, if_true] <;> omega
  rw [toNat_add, hmul, halign, need]
  omega

/-- **The loop** stops at the first number of objects that does not fit. -/
theorem estimateLoop_spec {base extra : BitVec 32} (hbase : base = if off then 0 else sizeofSlab)
    (hextra : extra = if off then 0 else sizeofBufctl)
    (hsize : 4 ≤ size.toNat ∧ size.toNat ≤ 131072) (wastage : BitVec 32)
    (hw : wastage.toNat ≤ 131072) (rounds : ℕ) (i : BitVec 32)
    (hrounds : 2 ^ 15 + 2 < rounds + i.toNat)
    (hi : i.toNat = 0 ∨ need off size.toNat (i.toNat - 1) ≤ wastage.toNat) :
    ∃ j, estimateLoop size base extra wastage rounds i = some j ∧
      (j.toNat = 0 ∨ need off size.toNat (j.toNat - 1) ≤ wastage.toNat) ∧
      wastage.toNat < need off size.toNat j.toNat ∧ j.toNat ≤ 2 ^ 15 + 1 := by
  -- `need` is at least four bytes for each object, so the loop cannot come this far
  have hbound : ∀ n, need off size.toNat n ≤ wastage.toNat → n ≤ 2 ^ 15 := by
    intro n hn
    have h1 : n * 4 ≤ n * size.toNat := Nat.mul_le_mul_left n hsize.1
    unfold need at hn
    omega
  have hsmall : i.toNat ≤ 2 ^ 15 + 1 := by
    rcases hi with hi | hi
    · omega
    · have := hbound _ hi
      omega
  induction rounds generalizing i with
  | zero => omega
  | succ rounds ih =>
    have hfit : i.toNat * size.toNat < 2 ^ 20 := by
      rcases hi with hi | hi
      · rw [hi]
        omega
      · by_cases hzero : i.toNat = 0
        · rw [hzero]
          omega
        · obtain ⟨n, hn⟩ : ∃ n, i.toNat = n + 1 := ⟨i.toNat - 1, by omega⟩
          rw [hn, Nat.add_sub_cancel, need] at hi
          rw [hn, Nat.succ_mul]
          omega
    obtain ⟨-, -, hneed⟩ := toNat_need size i hbase hextra (by omega) hfit
    simp only [estimateLoop]
    by_cases hle : i * size + l1CacheAlign (base + i * extra) ≤ wastage
    · rw [if_pos hle]
      rw [le_def, hneed] at hle
      have hone : (1 : BitVec 32).toNat = 1 := rfl
      have hnext : (i + 1).toNat = i.toNat + 1 := by
        rw [toNat_add, hone]
        omega
      have := hbound _ hle
      refine ih _ (by omega) (.inr ?_) (by omega)
      rw [hnext, Nat.add_sub_cancel]
      exact hle
    · rw [if_neg hle]
      rw [le_def, hneed] at hle
      exact ⟨i, rfl, hi, by omega, hsmall⟩

/-- `PAGE_SIZE << gfporder`. -/
theorem toNat_span {o : BitVec 32} (ho : o.toNat ≤ 5) :
    (pageSize <<< o).toNat = 4096 * 2 ^ o.toNat := by
  have h4096 : pageSize.toNat = 4096 := rfl
  have hpow : 2 ^ o.toNat ≤ 2 ^ 5 := Nat.pow_le_pow_right (by decide) ho
  rw [shiftLeft_eq', toNat_shiftLeft, h4096, Nat.shiftLeft_eq, Nat.mod_eq_of_lt]
  omega

theorem span_le (ho : o ≤ 5) : 4096 ≤ 4096 * 2 ^ o ∧ 4096 * 2 ^ o ≤ 131072 := by
  have h1 : 2 ^ 0 ≤ 2 ^ o := Nat.pow_le_pow_right (by decide) (Nat.zero_le _)
  have h2 : 2 ^ o ≤ 2 ^ 5 := Nat.pow_le_pow_right (by decide) ho
  omega

/-- A slab of `num` objects that is as full as it gets, with what is left over. -/
structure Filled (off : Bool) (size o left num : ℕ) : Prop where
  total : need off size num + left = 4096 * 2 ^ o
  full : 4096 * 2 ^ o < need off size (num + 1)

/-- **`kmem_cache_estimate`** fills the slab. -/
theorem estimate_spec (o size flags : BitVec 32) (ho : o.toNat ≤ 5)
    (hsize : 4 ≤ size.toNat ∧ size.toNat ≤ 131072) (hrounds : 2 ^ 15 + 2 < rounds) :
    ∃ left num, kmemCacheEstimate rounds o size flags = some (left, num) ∧
      Filled (flags &&& cflgsOffSlab ≠ 0) size.toNat o.toNat left.toNat num.toNat ∧
      num.toNat ≤ 2 ^ 15 := by
  obtain ⟨off, hoff⟩ : ∃ off : Bool, decide (flags &&& cflgsOffSlab ≠ 0) = off := ⟨_, rfl⟩
  have hbase : (if flags &&& cflgsOffSlab = 0 then sizeofSlab else 0) =
      if off then 0 else sizeofSlab := by
    rw [← hoff]
    by_cases h : flags &&& cflgsOffSlab = 0 <;> simp [h]
  have hextra : (if flags &&& cflgsOffSlab = 0 then sizeofBufctl else 0) =
      if off then 0 else sizeofBufctl := by
    rw [← hoff]
    by_cases h : flags &&& cflgsOffSlab = 0 <;> simp [h]
  have hspan := toNat_span ho
  have hle := span_le ho
  have hzero : (0 : BitVec 32).toNat = 0 := rfl
  obtain ⟨j, hloop, hfits, hfull, hj⟩ := estimateLoop_spec hbase hextra hsize (pageSize <<< o)
    (by omega) rounds 0 (by omega) (.inl hzero)
  rw [hspan] at hfits hfull
  -- even an empty slab fits, so that the loop has gone one too far
  have hpos : j.toNat ≠ 0 := by
    intro he
    rw [he, need] at hfull
    have : mgmtSize off 0 ≤ 32 := by cases off <;> decide
    omega
  have hslt : BitVec.slt 0 j = true := by
    have hint : j.toInt = j.toNat := toInt_eq_toNat_of_lt (by omega)
    rw [slt_eq_decide, hint, decide_eq_true_iff]
    show (0 : ℤ) < j.toNat
    omega
  have hnum : (j - 1).toNat = j.toNat - 1 := by
    have hone : (1 : BitVec 32).toNat = 1 := rfl
    rw [toNat_sub, hone]
    omega
  have hlimit : ¬ j - 1 > slabLimit := by
    have hval : slabLimit.toNat = 2 ^ 32 - 2 := rfl
    rw [gt_iff_lt, lt_def, hval]
    omega
  have hle' : need off size.toNat (j.toNat - 1) ≤ 4096 * 2 ^ o.toNat := hfits.resolve_left hpos
  have hprod : (j.toNat - 1) * size.toNat ≤ 131072 := by
    unfold need at hle'
    omega
  obtain ⟨hmul, halign, -⟩ := toNat_need size (j - 1) hbase hextra (by omega)
    (by rw [hnum]; omega)
  rw [hnum] at hmul halign
  refine ⟨pageSize <<< o - (j - 1) * size - l1CacheAlign
    ((if flags &&& cflgsOffSlab = 0 then sizeofSlab else 0) +
      (j - 1) * if flags &&& cflgsOffSlab = 0 then sizeofBufctl else 0), j - 1, ?_, ⟨?_, ?_⟩,
    by omega⟩
  · simp only [kmemCacheEstimate, hloop, map_some, if_pos hslt, if_neg hlimit]
  · rw [hnum, hoff, toNat_sub, toNat_sub, hmul, halign, hspan]
    unfold need at hle' ⊢
    omega
  · rw [hnum, hoff, Nat.sub_add_cancel (by omega)]
    exact hfull

/-! ## The page order -/

/-- What the loop over the orders may rely on: the limit for off-slab structures, if they come
into question, and the order from which on it takes what it gets. -/
structure Settled (g : Globals) (off : Bool) : Prop where
  limit : off = true → 116 ≤ g.offslabLimit.toNat
  order : g.slabBreakGfpOrder.toNat = 1 ∨ g.slabBreakGfpOrder.toNat = 2

/-- A result of the loop. -/
structure Sized (off : Bool) (size o left num : ℕ) : Prop where
  filled : Filled off size o left num
  order : o ≤ 5
  pos : num ≠ 0
  few : off = true → num ≤ 32
  num_le : num ≤ 2 ^ 15

theorem Filled.num_le_of_off {size num : ℕ} (h : Filled true size o left num) :
    num * size ≤ 4096 * 2 ^ o ∧ 4096 * 2 ^ o < (num + 1) * size := by
  have h1 := h.total
  have h2 := h.full
  simp only [need, mgmtSize, if_true] at h1 h2
  omega

/-- If no object fits, the objects are larger than the slab; small ones fit a page. -/
theorem Filled.lt_of_zero {size : ℕ} (h : Filled off size o left 0)
    (hkind : if off then 512 ≤ size else size ≤ 512) (ho : o ≤ 5) : 4096 * 2 ^ o < size := by
  cases off with
  | false =>
    have h2 := h.full
    have := span_le ho
    simp only [need, mgmtSize, Bool.false_eq_true, if_false] at h2 hkind
    omega
  | true =>
    have := h.num_le_of_off.2
    omega

/-- Large objects are few, when the order is small or the next smaller order is too small. -/
theorem Filled.few {size num : ℕ} (h : Filled true size o left num) (hsize : 512 ≤ size)
    (hbefore : o ≤ 2 ∨ 4096 * 2 ^ (o - 1) < size) : num ≤ 32 := by
  obtain ⟨hle, -⟩ := h.num_le_of_off
  by_cases ho : o ≤ 2
  · have hpow : 2 ^ o ≤ 2 ^ 2 := Nat.pow_le_pow_right (by decide) ho
    have hmul : num * 512 ≤ num * size := Nat.mul_le_mul_left num hsize
    omega
  · obtain ⟨m, rfl⟩ : ∃ m, o = m + 1 := ⟨o - 1, by omega⟩
    have hlt := hbefore.resolve_left ho
    rw [Nat.add_sub_cancel] at hlt
    by_contra hmany
    have hmul : 2 * size ≤ num * size := Nat.mul_le_mul_right size (by omega)
    omega

/-- **The loop** ends with a slab that has objects, without ever going back in the order.  On
the way, either the order is small or no object fits the order before. -/
theorem sizing_spec (hoff : decide (flags &&& cflgsOffSlab ≠ 0) = off) (hg : Settled g off)
    (hsize : 4 ≤ size.toNat ∧ size.toNat ≤ 131072)
    (hkind : if off then 512 ≤ size.toNat else size.toNat ≤ 512) {est : ℕ} (hest : 2 ^ 15 + 2 < est)
    (rounds : ℕ) (o : BitVec 32) (ho : o.toNat ≤ 5) (hrounds : 5 < rounds + o.toNat)
    (hbefore : o.toNat ≤ 2 ∨ 4096 * 2 ^ (o.toNat - 1) < size.toNat) :
    ∃ o' left num, sizing est g size flags rounds o false = .done o' left num ∧
      Sized off size.toNat o'.toNat left.toNat num.toNat := by
  induction rounds generalizing o with
  | zero => omega
  | succ rounds ih =>
    obtain ⟨left, num, hestimate, hfilled, hnum⟩ :=
      estimate_spec o size flags ho hsize hest
    rw [hoff] at hfilled
    have hone : (1 : BitVec 32).toNat = 1 := rfl
    have hfive : maxGfpOrder.toNat = 5 := rfl
    have hnext : (o + 1).toNat = o.toNat + 1 := by
      rw [toNat_add, hone]
      omega
    -- a slab of this order has at most 32 objects, if they are large
    have hfew : off = true → num.toNat ≤ 32 := by
      rintro rfl
      exact hfilled.few (by simpa using hkind) hbefore
    have hlarge : num.toNat = 0 → 4096 * 2 ^ o.toNat < size.toNat := by
      intro h
      rw [h] at hfilled
      exact hfilled.lt_of_zero hkind ho
    have hdone : num.toNat ≠ 0 → Sized off size.toNat o.toNat left.toNat num.toNat :=
      fun h => ⟨hfilled, ho, h, hfew, hnum⟩
    simp only [sizing, hestimate]
    rw [if_neg (by simp)]
    by_cases hmax : o ≥ maxGfpOrder
    · rw [if_pos hmax]
      refine ⟨o, left, num, rfl, hdone fun h => ?_⟩
      rw [ge_iff_le, le_def, hfive] at hmax
      have hlt := hlarge h
      rw [show o.toNat = 5 by omega] at hlt
      omega
    · rw [if_neg hmax]
      rw [ge_iff_le, le_def, hfive] at hmax
      by_cases hzero : num = 0
      · rw [if_pos hzero]
        refine ih (o + 1) (by omega) (by omega) (.inr ?_)
        rw [hnext, Nat.add_sub_cancel]
        exact hlarge (by rw [hzero]; rfl)
      · have hpos : num.toNat ≠ 0 := fun h => hzero (eq_of_toNat_eq h)
        rw [if_neg hzero, if_neg]
        · by_cases hbreak : o ≥ g.slabBreakGfpOrder
          · rw [if_pos hbreak]
            exact ⟨o, left, num, rfl, hdone hpos⟩
          · rw [if_neg hbreak]
            by_cases hfrag : left * 8 ≤ pageSize <<< o
            · rw [if_pos hfrag]
              exact ⟨o, left, num, rfl, hdone hpos⟩
            · rw [if_neg hfrag]
              rw [ge_iff_le, le_def] at hbreak
              have horder := hg.order
              exact ih (o + 1) (by omega) (by omega) (.inl (by omega))
        · rintro ⟨hbit, hmany⟩
          have htrue : off = true := by
            rw [← hoff, decide_eq_true_iff]
            exact hbit
          have h1 := hfew htrue
          have h2 := hg.limit htrue
          rw [gt_iff_lt, lt_def] at hmany
          omega

/-! ## What is returned -/

/-- A layout: the objects, the management structure and all colours fit into the pages. -/
structure Laid (c : KmemCache) : Prop where
  objsize_pos : 0 < c.objsize.toNat
  num_pos : c.num.toNat ≠ 0
  num_le : c.num.toNat ≤ 2 ^ 15
  order : c.gfporder.toNat ≤ 5
  colourOff_pos : 0 < c.colourOff.toNat
  fits : c.colour.toNat * c.colourOff.toNat + need c.offSlab c.objsize.toNat c.num.toNat ≤
    4096 * 2 ^ c.gfporder.toNat

/-- The alignments. -/
structure IsAlign (align : BitVec 32) (k : ℕ) : Prop where
  mask : ~~~(align - 1) = maskOf k
  low : (align - 1).toNat = 2 ^ k - 1
  le : k ≤ 5

theorem isAlign_bytesPerWord : IsAlign bytesPerWord 2 := ⟨by decide, rfl, by decide⟩

/-- The loop over the alignments. -/
theorem shrinkAlign_spec (hsize : 4 ≤ size.toNat) (hrounds : 2 < rounds) :
    ∃ align k, shrinkAlign size rounds l1CacheBytes = some align ∧ IsAlign align k := by
  obtain ⟨n, rfl⟩ : ∃ n, rounds = n + 3 := ⟨rounds - 3, by omega⟩
  simp only [shrinkAlign]
  split_ifs with h1 h2 h3
  · -- a fourth round would ask for less than a word
    have hval : (l1CacheBytes / 2 / 2 / 2).toNat = 4 := rfl
    rw [lt_def, hval] at h3
    omega
  · exact ⟨_, 3, rfl, by decide, rfl, by decide⟩
  · exact ⟨_, 4, rfl, by decide, rfl, by decide⟩
  · exact ⟨_, 5, rfl, by decide, rfl, by decide⟩

/-! ### Flags -/

theorem or_and_of_disjoint {a b : BitVec 32} (h : a &&& b = 0) (f : BitVec 32) :
    (f ||| a) &&& b = f &&& b := by
  rw [and_or_distrib_right, h]
  exact or_zero

theorem set_offSlab (f : BitVec 32) : (f ||| cflgsOffSlab) &&& cflgsOffSlab ≠ 0 := by
  intro h
  rw [and_or_distrib_right, BitVec.and_self] at h
  have hself : ((f &&& cflgsOffSlab) ||| cflgsOffSlab).getLsbD 16 = true := by
    rw [getLsbD_or, show cflgsOffSlab.getLsbD 16 = true from rfl, Bool.or_true]
  rw [h] at hself
  exact absurd hself (by decide)

theorem clear_offSlab (f : BitVec 32) : (f &&& ~~~cflgsOffSlab) &&& cflgsOffSlab = 0 := by
  rw [BitVec.and_assoc]
  have hnone : ~~~cflgsOffSlab &&& cflgsOffSlab = 0 := by decide
  exact and_zero

/-- The flags of a caller leave the internal flag alone. -/
theorem offSlab_of_createMask (h : flags &&& ~~~createMask = 0) :
    flags &&& cflgsOffSlab = 0 := by
  have hsub : cflgsOffSlab = ~~~createMask &&& cflgsOffSlab := by decide
  rw [hsub, ← BitVec.and_assoc, h]
  exact zero_and

/-! ### Behind the loop -/

theorem toNat_slabSize (h : num.toNat ≤ 2 ^ 15) :
    (slabSize num).toNat = mgmtSize false num.toNat := by
  have h4 : sizeofBufctl.toNat = 4 := rfl
  have h24 : sizeofSlab.toNat = 24 := rfl
  have hsum : (num * sizeofBufctl + sizeofSlab).toNat = num.toNat * 4 + 24 := by
    rw [toNat_add, toNat_mul, h4, h24]
    omega
  rw [slabSize, toNat_l1CacheAlign (by omega), hsum]
  rfl

/-- The colour offset is not 0. -/
theorem colourOff_pos (offset align : BitVec 32) :
    0 < (if (offset + (align - 1)) &&& ~~~(align - 1) = 0 then l1CacheBytes
      else (offset + (align - 1)) &&& ~~~(align - 1)).toNat := by
  split_ifs with h
  · decide
  · rw [Nat.pos_iff_ne_zero]
    exact fun h0 => h (eq_of_toNat_eq h0)

/-- The fields, when what is left over is right. -/
theorem initFields_spec (g : Globals) {o left : BitVec 32} (offset align : BitVec 32)
    (hoff : decide (flags &&& cflgsOffSlab ≠ 0) = off) (hsize : 0 < size.toNat) (ho : o.toNat ≤ 5)
    (hnum : num.toNat ≠ 0 ∧ num.toNat ≤ 2 ^ 15)
    (htotal : need off size.toNat num.toNat + left.toNat = 4096 * 2 ^ o.toNat) :
    Laid (initFields g size offset align flags o left num) ∧
      (initFields g size offset align flags o left num).offSlab = off ∧
      (off = true → (initFields g size offset align flags o left num).slabpCache =
        kmemFindGeneralCachep g (slabSize num)) := by
  -- the flag `CFLGS_OPTIMIZE` does not matter here
  have hbit : ∀ f, (if o = 0 ∧ flags &&& cflgsOffSlab = 0 then flags ||| cflgsOptimize
      else flags) = f → f &&& cflgsOffSlab = flags &&& cflgsOffSlab := by
    rintro f rfl
    split_ifs
    · exact or_and_of_disjoint (by decide) flags
    · rfl
  have hoffSlab : (initFields g size offset align flags o left num).offSlab = off := by
    rw [← hoff, KmemCache.offSlab, initFields]
    simp only [hbit _ rfl]
  have hpos := colourOff_pos offset align
  refine ⟨⟨hsize, hnum.1, hnum.2, ho, hpos, ?_⟩, hoffSlab, ?_⟩
  · rw [hoffSlab]
    simp only [initFields]
    rw [toNat_udiv]
    have hdiv := Nat.div_mul_le_self left.toNat
      (if (offset + (align - 1)) &&& ~~~(align - 1) = 0 then l1CacheBytes
        else (offset + (align - 1)) &&& ~~~(align - 1)).toNat
    omega
  · intro htrue
    have hne : flags &&& cflgsOffSlab ≠ 0 := by simpa [htrue] using hoff
    simp only [initFields, hbit _ rfl, if_pos hne]

/-- The size, the number and the order stay as the loop left them. -/
theorem finish_fields (g : Globals) (size offset align flags o left num : BitVec 32) :
    (finish g size offset align flags o left num).objsize = size ∧
      (finish g size offset align flags o left num).num = num ∧
      (finish g size offset align flags o left num).gfporder = o := by
  unfold finish
  split_ifs <;> exact ⟨rfl, rfl, rfl⟩

/-- **Behind the loop.**  The move keeps the sum; the structure stays outside only if it has to. -/
theorem finish_spec (g : Globals) {o left : BitVec 32} (offset align : BitVec 32)
    (hoff : decide (flags &&& cflgsOffSlab ≠ 0) = off) (hsize : 0 < size.toNat)
    (hs : Sized off size.toNat o.toNat left.toNat num.toNat) :
    Laid (finish g size offset align flags o left num) ∧
      ((finish g size offset align flags o left num).offSlab = true ↔
        off = true ∧ left.toNat < mgmtSize false num.toNat) ∧
      ((finish g size offset align flags o left num).offSlab = true →
        (finish g size offset align flags o left num).slabpCache =
          kmemFindGeneralCachep g (slabSize num)) := by
  have hslab := toNat_slabSize hs.num_le
  have hnum : num.toNat ≠ 0 ∧ num.toNat ≤ 2 ^ 15 := ⟨hs.pos, hs.num_le⟩
  have htotal := hs.filled.total
  unfold finish
  by_cases hmove : flags &&& cflgsOffSlab ≠ 0 ∧ left ≥ slabSize num
  · rw [if_pos hmove]
    obtain rfl : off = true := by
      rw [← hoff, decide_eq_true_iff]
      exact hmove.1
    have hge := hmove.2
    rw [ge_iff_le, le_def, hslab] at hge
    have hrest : (left - slabSize num).toNat = left.toNat - mgmtSize false num.toNat := by
      rw [toNat_sub, hslab]
      omega
    obtain ⟨h1, h2, h3⟩ := initFields_spec g offset align
      (decide_eq_false (not_not.mpr (clear_offSlab flags))) hsize hs.order hnum (by
        rw [hrest]
        simp only [need, mgmtSize, if_true] at htotal
        unfold need
        omega)
    rw [h2]
    exact ⟨h1, by simp; omega, by simp⟩
  · rw [if_neg hmove]
    obtain ⟨h1, h2, h3⟩ := initFields_spec g offset align hoff hsize hs.order hnum htotal
    rw [h2]
    refine ⟨h1, ⟨fun htrue => ⟨htrue, ?_⟩, fun h => h.1⟩, h3⟩
    have hne : flags &&& cflgsOffSlab ≠ 0 := by simpa [htrue] using hoff
    have hlt : ¬ left ≥ slabSize num := fun hge => hmove ⟨hne, hge⟩
    rw [ge_iff_le, le_def, hslab] at hlt
    omega

/-! ### The whole function -/

/-- The size after both roundings. -/
theorem objsize_spec {w align : BitVec 32} {k : ℕ} (ha : IsAlign align k)
    (hw : 4 ≤ w.toNat ∧ w.toNat ≤ 131072) :
    w.toNat ≤ ((w + align - 1) &&& ~~~(align - 1)).toNat ∧
      ((w + align - 1) &&& ~~~(align - 1)).toNat ≤ 131072 ∧
      (w.toNat < 512 → ((w + align - 1) &&& ~~~(align - 1)).toNat ≤ 512) ∧
      (w.toNat % 32 = 0 → ((w + align - 1) &&& ~~~(align - 1)).toNat = w.toNat) := by
  have hassoc : w + align - 1 = w + (align - 1) := by
    rw [BitVec.sub_eq_add_neg, BitVec.sub_eq_add_neg, BitVec.add_assoc]
  have hpow : 2 ^ k ≤ 2 ^ 5 := Nat.pow_le_pow_right (by decide) ha.le
  rw [hassoc, toNat_roundUp w align k ha.mask ha.low (by omega)]
  have hle := ha.le
  interval_cases k <;> omega

/-- What `kmem_cache_create` returns. -/
structure Result (g : Globals) (size : BitVec 32) (c : KmemCache) : Prop where
  laid : Laid c
  objsize : size.toNat ≤ c.objsize.toNat
  aligned : size.toNat % 32 = 0 → c.objsize.toNat = size.toNat
  /-- the structure is outside only for large objects, which are few -/
  large : c.offSlab = true → 508 < size.toNat ∧ c.num.toNat ≤ 32
  slabpCache : c.offSlab = true →
    c.slabpCache = kmemFindGeneralCachep g (slabSize c.num)
  /-- large objects that fill the pages have their structure outside -/
  outside : 512 ≤ size.toNat → c.objsize.toNat ∣ 4096 * 2 ^ c.gfporder.toNat → c.offSlab = true

/-- **`kmem_cache_create`** returns a cache with a layout, if it gets the memory for it. -/
theorem kmemCacheCreate_spec {offset : BitVec 32} (hsane : Sane size offset)
    (hflags : flags &&& ~~~createMask = 0) (hg : Settled g (decide (512 ≤ (wordAlign size).toNat)))
    (hrounds : 2 ^ 15 + 2 < rounds) :
    ∃ c, kmemCacheCreate rounds g true size offset flags = .cache (some c) ∧ Result g size c := by
  have hsize : 4 ≤ size.toNat ∧ size.toNat ≤ 131072 ∧ offset.toNat ≤ size.toNat := by
    obtain ⟨h1, h2, h3⟩ := hsane
    have e1 : bytesPerWord.toNat = 4 := rfl
    have e2 : ((1#32 <<< maxObjOrder) * pageSize).toNat = 131072 := by decide
    rw [lt_def, e1] at h1
    rw [gt_iff_lt, lt_def, e2] at h2
    rw [gt_iff_lt, lt_def] at h3
    omega
  obtain ⟨hw1, hw2, hw3⟩ := wordAlign_spec hsize.2.1
  have hw : 4 ≤ (wordAlign size).toNat ∧ (wordAlign size).toNat ≤ 131072 := by omega
  obtain ⟨w, hweq⟩ : ∃ w, wordAlign size = w := ⟨_, rfl⟩
  rw [hweq] at hw1 hw2 hw3 hw hg
  obtain ⟨off, hoffeq⟩ : ∃ off, decide (512 ≤ w.toNat) = off := ⟨_, rfl⟩
  rw [hoffeq] at hg
  -- the flags after the decision where the structure is
  obtain ⟨f, hf⟩ : ∃ f, (if w ≥ pageSize >>> 3 then flags ||| cflgsOffSlab else flags) = f :=
    ⟨_, rfl⟩
  have hfoff : decide (f &&& cflgsOffSlab ≠ 0) = off := by
    have h512 : (pageSize >>> 3).toNat = 512 := rfl
    rw [← hf, ← hoffeq]
    by_cases hlarge : w ≥ pageSize >>> 3
    · rw [if_pos hlarge]
      rw [ge_iff_le, le_def, h512] at hlarge
      rw [decide_eq_true (set_offSlab flags), decide_eq_true hlarge]
    · rw [if_neg hlarge]
      rw [ge_iff_le, le_def, h512] at hlarge
      rw [decide_eq_false (not_not.mpr (offSlab_of_createMask hflags)), decide_eq_false hlarge]
  -- the alignment and the final size
  obtain ⟨align, k, halign, ha⟩ : ∃ align k,
      (if f &&& slabHwcacheAlign ≠ 0 then shrinkAlign w rounds l1CacheBytes
        else some bytesPerWord) = some align ∧ IsAlign align k := by
    split_ifs
    · exact shrinkAlign_spec hw.1 (by omega)
    · exact ⟨_, 2, rfl, isAlign_bytesPerWord⟩
  obtain ⟨z, hz⟩ : ∃ z, (if f &&& slabHwcacheAlign ≠ 0 then (w + align - 1) &&& ~~~(align - 1)
      else w) = z := ⟨_, rfl⟩
  have hzle : w.toNat ≤ z.toNat ∧ z.toNat ≤ 131072 ∧ (w.toNat < 512 → z.toNat ≤ 512) ∧
      (w.toNat % 32 = 0 → z.toNat = w.toNat) := by
    rw [← hz]
    split_ifs
    · exact objsize_spec ha hw
    · exact ⟨le_rfl, hw.2, le_of_lt, fun _ => rfl⟩
  have hkind : if off then 512 ≤ z.toNat else z.toNat ≤ 512 := by
    rw [← hoffeq]
    by_cases hlarge : 512 ≤ w.toNat
    · rw [decide_eq_true hlarge, if_pos rfl]
      omega
    · rw [decide_eq_false hlarge, if_neg (by simp)]
      exact hzle.2.2.1 (by omega)
  have hzero : (0 : BitVec 32).toNat = 0 := rfl
  obtain ⟨o, left, num, hsizing, hs⟩ := sizing_spec hfoff hg (by omega) hkind hrounds rounds 0
    (by omega) (by omega) (.inl (by omega))
  obtain ⟨hlaid, hoffSlab, hslabp⟩ := finish_spec g offset align hfoff (by omega) hs
  obtain ⟨hobj, hnum, horder⟩ := finish_fields g z offset align f o left num
  have hnum0 : num ≠ 0 := fun h => hs.pos (by rw [h]; rfl)
  refine ⟨finish g z offset align f o left num, ?_, hlaid, ?_, ?_, ?_, ?_, ?_⟩
  · unfold kmemCacheCreate
    rw [if_pos rfl]
    simp only [hweq, hf, halign, hz, hsizing, if_neg hnum0]
  · rw [hobj]
    omega
  · intro h32
    rw [hobj, hzle.2.2.2 (by omega)]
    omega
  · intro h
    obtain ⟨htrue, -⟩ := hoffSlab.mp h
    have hlarge : 512 ≤ w.toNat := by simpa [htrue] using hoffeq
    rw [hnum]
    exact ⟨by omega, hs.few htrue⟩
  · intro h
    rw [hnum]
    exact hslabp h
  · intro hlarge hdvd
    rw [hobj, horder] at hdvd
    have htrue : off = true := by
      rw [← hoffeq, decide_eq_true_iff]
      omega
    subst htrue
    -- nothing is left over when the objects fill the pages
    have htotal := hs.filled.total
    have hlt := hs.filled.num_le_of_off.2
    simp only [need, mgmtSize, if_true] at htotal
    have hdvd' : z.toNat ∣ left.toNat := by
      have hsum : z.toNat ∣ num.toNat * z.toNat + left.toNat := by
        rw [show num.toNat * z.toNat + left.toNat = 4096 * 2 ^ o.toNat by omega]
        exact hdvd
      exact (Nat.dvd_add_right (Nat.dvd_mul_left _ _)).mp hsum
    have hzero' : left.toNat = 0 := by
      refine Nat.eq_zero_of_dvd_of_lt hdvd' ?_
      have hsucc : (num.toNat + 1) * z.toNat = num.toNat * z.toNat + z.toNat := Nat.succ_mul _ _
      omega
    rw [hoffSlab]
    refine ⟨rfl, ?_⟩
    rw [hzero', mgmtSize, if_neg (by simp)]
    omega

/-! ## After `kmem_cache_sizes_init` -/

theorem csSizes_get (hi : i < 13) :
    csSizes.drop i = BitVec.ofNat 32 (2 ^ (i + 5)) :: csSizes.drop (i + 1) := by
  interval_cases i <;> rfl

theorem toNat_csSize (hi : i < 13) : (BitVec.ofNat 32 (2 ^ (i + 5))).toNat = 2 ^ (i + 5) :=
  Nat.mod_eq_of_lt (Nat.pow_lt_pow_right (by decide) (by omega))

/-- The first `i` general caches exist. -/
structure Inited (i : ℕ) (g : Globals) : Prop where
  order : g.slabBreakGfpOrder.toNat = 1 ∨ g.slabBreakGfpOrder.toNat = 2
  length : g.cacheSizes.length = 13
  /-- `size-256` is the last one whose management structure is in the slab -/
  limit : 4 ≤ i → g.offslabLimit.toNat = 116
  cache : ∀ j < i, ∃ c, g.cacheSizes[j]? = some (BitVec.ofNat 32 (2 ^ (j + 5)), some c) ∧
    2 ^ (j + 5) ≤ c.objsize.toNat

/-- The next general cache. -/
theorem create_general (hi : i < 13) (h : Inited i g) (hrounds : 2 ^ 15 + 2 < rounds) :
    ∃ c, kmemCacheCreate rounds g true (BitVec.ofNat 32 (2 ^ (i + 5))) 0 slabHwcacheAlign =
        .cache (some c) ∧ 2 ^ (i + 5) ≤ c.objsize.toNat ∧ (c.offSlab = true ↔ 4 ≤ i) := by
  have hnat := toNat_csSize hi
  obtain ⟨size, hsize⟩ : ∃ size, BitVec.ofNat 32 (2 ^ (i + 5)) = size := ⟨_, rfl⟩
  rw [hsize] at hnat ⊢
  have hdvd : size.toNat % 32 = 0 := by
    rw [hnat, Nat.pow_add]
    omega
  have hle : 2 ^ (i + 5) ≤ 2 ^ 17 := Nat.pow_le_pow_right (by decide) (by omega)
  have hge : 2 ^ 5 ≤ 2 ^ (i + 5) := Nat.pow_le_pow_right (by decide) (by omega)
  have h512 : 512 ≤ 2 ^ (i + 5) ↔ 4 ≤ i := by
    rw [show 512 = 2 ^ 9 from rfl, Nat.pow_le_pow_iff_right (by decide)]
    omega
  have hsmall : 508 < 2 ^ (i + 5) → 4 ≤ i := by
    intro hlt
    by_contra hlow
    omega
  have hsane : Sane size 0 := by
    have e1 : bytesPerWord.toNat = 4 := rfl
    have e2 : ((1#32 <<< maxObjOrder) * pageSize).toNat = 131072 := by decide
    have e3 : (0 : BitVec 32).toNat = 0 := rfl
    unfold Sane
    rw [gt_iff_lt, gt_iff_lt, lt_def, lt_def, lt_def, e1, e2, e3]
    omega
  have hword := wordAlign_spec (show size.toNat ≤ 131072 by omega)
  have hset : Settled g (decide (512 ≤ (wordAlign size).toNat)) := by
    refine ⟨fun hlarge => ?_, h.order⟩
    rw [decide_eq_true_iff] at hlarge
    rw [h.limit (h512.mp (by omega))]
  have hflags : slabHwcacheAlign &&& ~~~createMask = 0 := by decide
  obtain ⟨c, hc, hr⟩ := kmemCacheCreate_spec hsane hflags hset hrounds
  refine ⟨c, hc, hnat ▸ hr.objsize, ?_, ?_⟩
  · intro hoff
    exact hsmall (hnat ▸ (hr.large hoff).1)
  · intro hlarge
    refine hr.outside (by rw [hnat]; exact h512.mpr hlarge) ?_
    -- one object fits, and both sizes are powers of two
    rw [hr.aligned hdvd, hnat, show 4096 = 2 ^ 12 from rfl, ← Nat.pow_add]
    refine Nat.pow_dvd_pow 2 ?_
    have hfits := hr.laid.fits
    have hpos := hr.laid.num_pos
    have hmul : 1 * c.objsize.toNat ≤ c.num.toNat * c.objsize.toNat :=
      Nat.mul_le_mul_right _ (by omega)
    rw [← Nat.pow_le_pow_iff_right (show 1 < 2 by decide), ← hnat, ← hr.aligned hdvd, Nat.pow_add]
    unfold need at hfits
    omega

theorem sizesLoop_spec (hrounds : 2 ^ 15 + 2 < rounds) {alloc : ℕ → Bool} {n : ℕ} (hi : i + n = 13)
    {g' : Globals} (h : Inited i g)
    (hloop : sizesLoop rounds alloc i (csSizes.drop i) g = some g') : Inited 13 g' := by
  induction n generalizing i g with
  | zero =>
    obtain rfl : i = 13 := by omega
    obtain rfl : g = g' := some.inj hloop
    exact h
  | succ n ih =>
    have hi' : i < 13 := by omega
    rw [csSizes_get hi', sizesLoop] at hloop
    obtain ⟨c, hc, hobj, hoff⟩ := create_general hi' h hrounds
    cases halloc : alloc i with
    | false =>
      rw [halloc, show kmemCacheCreate rounds g false _ _ _ = .cache none from rfl] at hloop
      exact absurd hloop (by simp)
    | true =>
      rw [halloc, hc] at hloop
      have hsum : i + 1 + n = 13 := by omega
      refine ih hsum ?_ hloop
      refine ⟨h.order, ?_, ?_, ?_⟩
      · rw [length_set]
        exact h.length
      · intro hle
        show (if c.offSlab = true then _ else _ : BitVec 32).toNat = 116
        by_cases hlarge : 4 ≤ i
        · rw [if_pos (hoff.mpr hlarge)]
          exact h.limit hlarge
        · obtain rfl : i = 3 := by omega
          rw [if_neg fun ht => hlarge (hoff.mp ht)]
          rfl
      · intro j hj
        by_cases hji : j = i
        · subst hji
          refine ⟨c, ?_, hobj⟩
          rw [getElem?_set_self (by rw [h.length]; exact hi')]
        · obtain ⟨d, hd, hle⟩ := h.cache j (by omega)
          refine ⟨d, ?_, hle⟩
          rw [getElem?_set_ne (Ne.symm hji)]
          exact hd

theorem inited_of_sizesInit (hrounds : 2 ^ 15 + 2 < rounds) {numPhyspages : BitVec 32}
    {alloc : ℕ → Bool}
    (hg : kmemCacheSizesInit rounds numPhyspages alloc = some g) : Inited 13 g := by
  refine sizesLoop_spec hrounds (i := 0) (n := 13) rfl ⟨?_, rfl, ?_, ?_⟩ hg
  · simp only
    split_ifs
    · exact .inr rfl
    · exact .inl rfl
  · intro h
    omega
  · intro j hj
    omega

/-- A general cache has room for every management structure. -/
theorem find_general (h : Inited 13 g) (hsize : size.toNat ≤ 131072) :
    ∃ i sz d, kmemFindGeneralCachep g size = some i ∧ g.cacheSizes[i]? = some (sz, some d) ∧
      size.toNat ≤ d.objsize.toNat := by
  obtain ⟨last, hlast, -⟩ := h.cache 12 (by decide)
  have hmem : ∃ e ∈ g.cacheSizes, decide (size ≤ e.1) = true := by
    refine ⟨_, mem_of_getElem? hlast, ?_⟩
    rw [decide_eq_true_iff, le_def]
    exact hsize
  have hlt := findIdx_lt_length_of_exists hmem
  have hp := findIdx_getElem (w := hlt)
  rw [h.length] at hlt
  obtain ⟨d, hd, hle⟩ := h.cache _ hlt
  refine ⟨_, _, d, ?_, hd, ?_⟩
  · simp only [kmemFindGeneralCachep, hd, bind_some, map_some]
  · have hget := (List.getElem?_eq_some_iff.mp hd).2
    rw [hget, decide_eq_true_iff, le_def, toNat_csSize hlt] at hp
    omega

/-! ## Colours and slabs -/

theorem colourNext_lt (h : ColourNext c k) :
    k.toNat = 0 ∨ k.toNat < c.colour.toNat := by
  induction h with
  | zero => exact .inl rfl
  | grow _ _ =>
    split_ifs with hge
    · exact .inl rfl
    · rw [ge_iff_le, le_def] at hge
      exact .inr (by omega)

/-- The offset that `kmem_cache_grow` computes, within the colours. -/
theorem Laid.toNat_offset (h : Laid c) (hk : ColourNext c k) :
    (k * c.colourOff).toNat + need c.offSlab c.objsize.toNat c.num.toNat ≤
      4096 * 2 ^ c.gfporder.toNat := by
  have hfits := h.fits
  have hspan := span_le h.order
  have hle : k.toNat * c.colourOff.toNat ≤ c.colour.toNat * c.colourOff.toNat := by
    refine Nat.mul_le_mul_right _ ?_
    rcases colourNext_lt hk with h0 | hlt <;> omega
  rw [toNat_mul_of_lt (by omega)]
  omega

/-- With the management structure in the slab the offset is still a word. -/
theorem Laid.toNat_offset_add (h : Laid c) (hk : ColourNext c k) (hoff : c.offSlab = false) :
    (k * c.colourOff + slabSize c.num).toNat =
      (k * c.colourOff).toNat + (slabSize c.num).toNat := by
  have hle := h.toNat_offset hk
  have hspan := span_le h.order
  rw [need, hoff, ← toNat_slabSize h.num_le] at hle
  rw [toNat_add, Nat.mod_eq_of_lt (by omega)]

/-- Every layout is one that the allocator can work with. -/
def Laid.toCache (h : Laid c) : Slab.Cache where
  objsize := c.objsize.toNat
  num := c.num.toNat
  gfporder := c.gfporder.toNat
  colour := c.colour.toNat
  colourOff := c.colourOff.toNat
  offSlab := c.offSlab
  objsize_pos := h.objsize_pos
  num_pos := Nat.pos_of_ne_zero h.num_pos
  num_lt := c.num.isLt
  fits := by
    intro k hk
    have hfits := h.fits
    have hle : k * c.colourOff.toNat ≤ c.colour.toNat * c.colourOff.toNat := by
      refine Nat.mul_le_mul_right _ ?_
      rcases hk with rfl | hlt <;> omega
    rw [ofNat_toNat, setWidth_eq, toNat_slabSize h.num_le, toNat_pageSize,
      Nat.mul_comm (2 ^ _)]
    unfold need mgmtSize at *
    split_ifs at * <;> omega

/-- There `kmem_cache_slabmgmt` is that of the allocator. -/
theorem Laid.slabmgmt_eq (h : Laid c) (hk : ColourNext c k) (s : Slab.State) (objp outside : ℕ) :
    (Slab.kmemCacheSlabmgmt h.toCache s objp (k * c.colourOff).toNat (some outside)).map
      (fun r => (r.1, r.2.sMem)) = some (kmemCacheSlabmgmt c objp outside k) := by
  unfold Slab.kmemCacheSlabmgmt kmemCacheSlabmgmt
  cases hoff : c.offSlab with
  | true => simp [toCache, hoff]
  | false => simp [toCache, hoff, h.toNat_offset_add hk hoff]

/-- A slab of the cache at the address `objp` with the colour `k`: the objects are in the pages
and apart from each other, and a management structure in the slab ends before them. -/
structure SlabOk (c : KmemCache) (objp outside : ℕ) (k : BitVec 32) : Prop where
  fits : (k * c.colourOff).toNat + (if c.offSlab then 0 else (slabSize c.num).toNat) +
    c.num.toNat * c.objsize.toNat ≤ (pageSize <<< c.gfporder).toNat
  mgmt : c.offSlab = false → (kmemCacheSlabmgmt c objp outside k).1 + sizeofSlab.toNat +
    c.num.toNat * sizeofBufctl.toNat ≤ (kmemCacheSlabmgmt c objp outside k).2
  inside : ∀ i < c.num.toNat,
    objp ≤ (kmemCacheSlabmgmt c objp outside k).2 + i * c.objsize.toNat ∧
      (kmemCacheSlabmgmt c objp outside k).2 + i * c.objsize.toNat + c.objsize.toNat ≤
        objp + (pageSize <<< c.gfporder).toNat
  apart : ∀ i j, i < j → (kmemCacheSlabmgmt c objp outside k).2 + i * c.objsize.toNat +
    c.objsize.toNat ≤ (kmemCacheSlabmgmt c objp outside k).2 + j * c.objsize.toNat

theorem Laid.slabOk (h : Laid c) (objp outside : ℕ)
    (hk : ColourNext c k) : SlabOk c objp outside k := by
  have hle := h.toNat_offset hk
  have hspan := toNat_span h.order
  have hsize := toNat_slabSize h.num_le
  have h24 : sizeofSlab.toNat = 24 := rfl
  have h4 : sizeofBufctl.toNat = 4 := rfl
  have hobj : ∀ i < c.num.toNat, i * c.objsize.toNat + c.objsize.toNat ≤
      c.num.toNat * c.objsize.toNat := by
    intro i hi
    rw [← Nat.succ_mul]
    exact Nat.mul_le_mul_right _ hi
  have hapart : ∀ i j, i < j →
      i * c.objsize.toNat + c.objsize.toNat ≤ j * c.objsize.toNat := by
    intro i j hij
    rw [← Nat.succ_mul]
    exact Nat.mul_le_mul_right _ hij
  unfold need at hle
  cases hoff : c.offSlab with
  | false =>
    rw [hoff] at hle
    have hend := h.toNat_offset_add hk hoff
    rw [hsize] at hend
    have hmgmt : 24 + c.num.toNat * 4 ≤ mgmtSize false c.num.toNat := by
      rw [mgmtSize, if_neg (by simp)]
      omega
    refine ⟨?_, ?_, ?_, ?_⟩
    · rw [hoff, hspan, hsize, if_neg (by simp)]
      omega
    · intro _
      simp only [kmemCacheSlabmgmt, hoff, Bool.false_eq_true, if_false, hend, h24, h4]
      omega
    · intro i hi
      have := hobj i hi
      simp only [kmemCacheSlabmgmt, hoff, Bool.false_eq_true, if_false, hend, hspan]
      omega
    · intro i j hij
      have := hapart i j hij
      omega
  | true =>
    refine ⟨?_, ?_, ?_, ?_⟩
    · rw [hoff, hspan, if_pos rfl]
      omega
    · intro hfalse
      rw [hoff] at hfalse
      exact absurd hfalse (by simp)
    · intro i hi
      have := hobj i hi
      simp only [kmemCacheSlabmgmt, hoff, if_true, hspan]
      omega
    · intro i j hij
      have := hapart i j hij
      omega

/-- **Slab layout.**  After `kmem_cache_sizes_init`, `kmem_cache_create` ends for every size,
offset and flags that pass its checks, without a step below order 0.  A cache that it returns
has an object size that is large enough, at least one object, at every colour a slab that is
well laid out, and room for the management structure in its `slabp_cache`. -/
theorem kmemCacheCreate_layout {rounds : ℕ} (hrounds : 2 ^ 15 + 2 < rounds)
    {numPhyspages : BitVec 32} {alloc : ℕ → Bool} {g : Globals}
    (hg : kmemCacheSizesInit rounds numPhyspages alloc = some g) {size offset flags : BitVec 32}
    (hsane : Sane size offset) (hflags : flags &&& ~~~createMask = 0) (mem : Bool) :
    ∃ r, kmemCacheCreate rounds g mem size offset flags = .cache r ∧ ∀ c, r = some c →
      1 ≤ c.num.toNat ∧ size.toNat ≤ c.objsize.toNat ∧ c.gfporder.toNat ≤ 5 ∧
      (∀ objp outside k, ColourNext c k → SlabOk c objp outside k) ∧
      (c.offSlab = true → ∃ i sz d, c.slabpCache = some i ∧
        g.cacheSizes[i]? = some (sz, some d) ∧
        sizeofSlab.toNat + c.num.toNat * sizeofBufctl.toNat ≤ d.objsize.toNat) := by
  cases mem with
  | false => exact ⟨none, rfl, fun c hc => absurd hc (by simp)⟩
  | true =>
    have hi := inited_of_sizesInit hrounds hg
    have hset : Settled g (decide (512 ≤ (wordAlign size).toNat)) :=
      ⟨fun _ => (hi.limit (by decide)).ge, hi.order⟩
    obtain ⟨c, hc, hr⟩ := kmemCacheCreate_spec hsane hflags hset hrounds
    refine ⟨some c, hc, ?_⟩
    rintro c' heq
    obtain rfl := some.inj heq
    refine ⟨Nat.pos_of_ne_zero hr.laid.num_pos, hr.objsize, hr.laid.order,
      fun objp outside k hk => hr.laid.slabOk objp outside hk, ?_⟩
    intro hoff
    have hsize := toNat_slabSize hr.laid.num_le
    have hfew := (hr.large hoff).2
    rw [mgmtSize, if_neg (by simp)] at hsize
    obtain ⟨i, sz, d, hfind, hget, hle⟩ := find_general hi
      (show (slabSize c.num).toNat ≤ 131072 by omega)
    refine ⟨i, sz, d, (hr.slabpCache hoff).trans hfind, hget, ?_⟩
    show 24 + c.num.toNat * 4 ≤ d.objsize.toNat
    omega

/-- The state after `kmem_cache_sizes_init` on a machine with 64 MB. -/
def initialized : Option Globals := kmemCacheSizesInit 40000 16384 fun _ => true

/-- The cache for objects of 700 bytes. -/
def cache700 : Option Created :=
  initialized.map fun g => kmemCacheCreate 40000 g true 700 0 slabHwcacheAlign

/-- It has eleven objects on two pages, eleven colours, and its management structure has moved
into what is left over. -/
theorem kmemCacheCreate_layout_700 :
    ∃ c : KmemCache, cache700 = some (.cache (some c)) ∧
      c.num = 11 ∧ c.gfporder = 1 ∧ c.colour = 11 ∧ c.offSlab = false ∧
      ∀ objp outside k, ColourNext c k → SlabOk c objp outside k := by
  have hval : cache700 = some (.cache (some ⟨704, 0x2000, 11, 1, 11, 32, none⟩)) := by
    decide +kernel
  obtain ⟨g, hg, hcreate⟩ := map_eq_some_iff.mp hval
  obtain ⟨r, hr, hlaid⟩ := kmemCacheCreate_layout (by decide) hg
    (show Sane 700 0 by decide) (show slabHwcacheAlign &&& ~~~createMask = 0 by decide) true
  refine ⟨_, hval, rfl, rfl, rfl, by decide, ?_⟩
  rw [hcreate] at hr
  exact (hlaid _ (Created.cache.inj hr).symm).2.2.2.1

end SlabLayout

end Yap
