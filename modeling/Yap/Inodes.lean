/-
# Inodes in memory (`fs/inode.c`)

`iget` looks an inode number up in the list of the super block and takes a reference.  An inode
that is not there is allocated, cleared, linked and filled in by `read_inode`, which writes
`i_mode` and `i_size`.  There is one inode for a number, and its `i_count`, an `int`, is the
number of calls until it overflows.
-/
import Mathlib.Tactic
import Yap.FirstMatch

namespace Yap

namespace Inodes

open List Function

/-- `struct inode`, as far as it is set here. -/
structure Inode where
  iDev : BitVec 32
  iIno : BitVec 32
  iSize : BitVec 32
  iSb : ℕ
  iMode : BitVec 32
  iCount : BitVec 32
  iFlags : BitVec 16

/-- The inodes, and the `inode_list` of the super block. -/
structure State where
  inode : ℕ → Inode
  inodeList : List ℕ

/-- A call of `iget(sb, ino, NULL, NULL)`, what `kmalloc` returns to it, and the `i_mode` and
`i_size` that `read_inode` leaves in a new inode. -/
structure Call where
  ino : BitVec 32
  alloc : Option ℕ
  iMode : BitVec 32
  iSize : BitVec 32

-- the super block and its `s_dev`
variable (sb : ℕ) (sDev : BitVec 32)

/-- `find_inode(sb, ino, &sb->inode_list, NULL, NULL)`. -/
def findInode (s : State) (ino : BitVec 32) : Option ℕ :=
  s.inodeList.find? fun i => (s.inode i).iIno = ino ∧ (s.inode i).iSb = sb

/-- `__iget(inode)`, which increments in both of its branches. -/
def incIget (s : State) (i : ℕ) : State :=
  { s with inode := update s.inode i { s.inode i with iCount := (s.inode i).iCount + 1 } }

/-- `get_new_inode`; `destroy_inode` does nothing. -/
def getNewInode (s : State) (c : Call) : Option ℕ × State :=
  match c.alloc, findInode sb s c.ino with
  | none, _ => (none, s)
  | some _, some old => (some old, incIget s old)
  | some i, none =>
    (some i, ⟨update s.inode i ⟨sDev, c.ino, c.iSize, sb, c.iMode, 1, 0⟩, i :: s.inodeList⟩)

/-- `iget(sb, ino, NULL, NULL)`. -/
def iget (s : State) (c : Call) : Option ℕ × State :=
  match findInode sb s c.ino with
  | some i => (some i, incIget s i)
  | none => getNewInode sb sDev s c

/-- The states that calls lead to, with the numbers for which they succeeded.  `kmalloc` returns
nothing that is in use. -/
inductive Reaches : List (BitVec 32) → State → Prop where
  | init (inode : ℕ → Inode) : Reaches [] ⟨inode, []⟩
  | iget {got : List (BitVec 32)} {s : State} (c : Call) : Reaches got s →
      (∀ i ∈ c.alloc, i ∉ s.inodeList) →
      Reaches (if (iget sb sDev s c).1.isSome then c.ino :: got else got) (iget sb sDev s c).2

/-- One inode for a number, which `iget` returns, and whose `i_count` is the number of calls. -/
structure Identity (got : List (BitVec 32)) (s : State) : Prop where
  unique : (s.inodeList.map fun i => (s.inode i).iIno).Nodup
  found : ∀ c, ∀ i ∈ s.inodeList, (s.inode i).iIno = c.ino → (iget sb sDev s c).1 = some i
  count : ∀ i ∈ s.inodeList, (s.inode i).iCount.toInt = got.count (s.inode i).iIno

/-- What the calls keep: the inodes of a number that has been got are on the list once. -/
structure Inv (got : List (BitVec 32)) (s : State) : Prop where
  inode : ∀ i ∈ s.inodeList, (s.inode i).iSb = sb ∧
    (s.inode i).iCount = BitVec.ofNat 32 (got.count (s.inode i).iIno)
  unique : (s.inodeList.map fun i => (s.inode i).iIno).Nodup
  got : ∀ ino ∈ got, ∃ i ∈ s.inodeList, (s.inode i).iIno = ino

variable {sb sDev} {got : List (BitVec 32)} {s : State} {i j : ℕ} {ino : BitVec 32}

/-- The numbers are different, so that the search has one inode to find. -/
theorem findInode_eq_some (h : Inv sb got s) :
    findInode sb s ino = some i ↔ i ∈ s.inodeList ∧ (s.inode i).iIno = ino := by
  have hkeys : s.inodeList.Pairwise fun i j =>
      ((s.inode i).iIno, (s.inode i).iSb) ≠ ((s.inode j).iIno, (s.inode j).iSb) :=
    (pairwise_map.mp h.unique).imp fun hne heq => hne (Prod.mk.inj heq).1
  have hfind := FirstMatch.find?_key_eq_some_iff _ hkeys (ino, sb) i
  simp only [Prod.mk.injEq] at hfind
  rw [findInode, hfind]
  constructor
  · rintro ⟨hi, hino, _⟩
    exact ⟨hi, hino⟩
  · rintro ⟨hi, hino⟩
    exact ⟨hi, hino, (h.inode i hi).1⟩

theorem incIget_inode (s : State) (i j : ℕ) : (incIget s i).inode j =
    { s.inode j with iCount := (s.inode j).iCount + if j = i then 1 else 0 } := by
  show update s.inode i _ j = _
  rw [update_apply]
  split_ifs with hj
  · rw [hj]
  · simp

/-- A reference is taken. -/
theorem Inv.inc (h : Inv sb got s) (hi : i ∈ s.inodeList) :
    Inv sb ((s.inode i).iIno :: got) (incIget s i) := by
  refine ⟨fun j hj => ?_, ?_, ?_⟩
  · have hiff : (s.inode i).iIno = (s.inode j).iIno ↔ j = i :=
      ⟨fun he => inj_on_of_nodup_map h.unique hj hi he.symm, fun he => by rw [he]⟩
    rw [incIget_inode]
    refine ⟨(h.inode j hj).1, ?_⟩
    simp only [(h.inode j hj).2, count_cons, beq_iff_eq, hiff, BitVec.ofNat_add]
    split_ifs <;> rfl
  · simp only [incIget_inode]
    exact h.unique
  · simp only [incIget_inode, forall_mem_cons]
    exact ⟨⟨i, hi, rfl⟩, h.got⟩

/-- A new inode is linked. -/
theorem Inv.new (h : Inv sb got s) (hf : findInode sb s ino = none) (hi : i ∉ s.inodeList)
    {x : Inode} (hsb : x.iSb = sb) (hino : x.iIno = ino) (hcount : x.iCount = 1) :
    Inv sb (ino :: got) ⟨update s.inode i x, i :: s.inodeList⟩ := by
  have hold : ∀ j ∈ s.inodeList, update s.inode i x j = s.inode j := by
    intro j hj
    exact update_of_ne (ne_of_mem_of_not_mem hj hi) _ _
  have hno : ∀ j ∈ s.inodeList, (s.inode j).iIno ≠ ino := by
    intro j hj he
    rw [(findInode_eq_some h).mpr ⟨hj, he⟩] at hf
    cases hf
  refine ⟨forall_mem_cons.mpr ⟨?_, fun j hj => ?_⟩, ?_, forall_mem_cons.mpr ⟨?_, fun n hn => ?_⟩⟩
  · have hzero : got.count ino = 0 := by
      rw [count_eq_zero]
      intro hmem
      obtain ⟨j, hj, he⟩ := h.got ino hmem
      exact hno j hj he
    simp [hsb, hino, hcount, hzero]
  · -- the calls for the other numbers are as many as before
    simp only [hold j hj, count_cons_of_ne (hno j hj).symm]
    exact h.inode j hj
  · have hmap : s.inodeList.map (fun j => (update s.inode i x j).iIno) =
        s.inodeList.map fun j => (s.inode j).iIno :=
      map_congr_left fun j hj => congrArg Inode.iIno (hold j hj)
    simp only [map_cons, hmap, nodup_cons, update_self, hino, List.mem_map, not_exists, not_and]
    exact ⟨hno, h.unique⟩
  · exact ⟨i, mem_cons_self, (congrArg Inode.iIno (update_self _ _ _)).trans hino⟩
  · obtain ⟨j, hj, he⟩ := h.got n hn
    exact ⟨j, mem_cons_of_mem _ hj, (congrArg Inode.iIno (hold j hj)).trans he⟩

theorem inv_reaches (h : Reaches sb sDev got s) : Inv sb got s := by
  induction h with
  | init inode => exact ⟨by simp, by simp, by simp⟩
  | @iget got s c _ hfresh ih =>
    rw [Inodes.iget]
    cases hf : findInode sb s c.ino with
    | some i =>
      obtain ⟨hi, hino⟩ := (findInode_eq_some ih).mp hf
      simp only [← hino]
      exact ih.inc hi
    | none =>
      simp only [getNewInode, hf]
      cases ha : c.alloc with
      | none => exact ih
      | some i => exact ih.new hf (hfresh i ha) rfl rfl rfl

theorem toInt_ofNat_iff (n : ℕ) : (BitVec.ofNat 32 n).toInt = n ↔ n < 2 ^ 31 := by
  rw [BitVec.toInt_eq_toNat_cond, BitVec.toNat_ofNat]
  split_ifs <;> omega

/-- **Inode identity** holds as long as no number has been got `2 ^ 31` times. -/
theorem identity_iff (sb : ℕ) (sDev : BitVec 32) (got : List (BitVec 32)) (s : State)
    (h : Reaches sb sDev got s) :
    Identity sb sDev got s ↔ ∀ ino, got.count ino < 2 ^ 31 := by
  have hinv := inv_reaches h
  constructor
  · intro hid ino
    by_cases hmem : ino ∈ got
    · obtain ⟨i, hi, rfl⟩ := hinv.got ino hmem
      rw [← toInt_ofNat_iff, ← (hinv.inode i hi).2]
      exact hid.count i hi
    · rw [count_eq_zero_of_not_mem hmem]
      decide
  · intro hlt
    refine ⟨hinv.unique, fun c i hi hino => ?_, fun i hi => ?_⟩
    · rw [iget, (findInode_eq_some hinv).mpr ⟨hi, hino⟩]
    · rw [(hinv.inode i hi).2]
      exact (toInt_ofNat_iff _).mpr (hlt _)

/-- The number 7 is got `n + 1` times; only the first call finds memory. -/
theorem reaches_replicate (n : ℕ) : ∃ s, Reaches 0 0 (replicate (n + 1) 7) s := by
  induction n with
  | zero =>
    exact ⟨_, .iget ⟨7, some 0, 0, 0⟩ (.init fun _ => ⟨0, 0, 0, 0, 0, 0, 0⟩) (by simp)⟩
  | succ n ih =>
    obtain ⟨s, hs⟩ := ih
    obtain ⟨i, hi, hino⟩ := (inv_reaches hs).got 7 mem_cons_self
    have hnext := Reaches.iget ⟨7, none, 0, 0⟩ hs (by simp)
    rw [iget, (findInode_eq_some (inv_reaches hs)).mpr ⟨hi, hino⟩] at hnext
    exact ⟨_, hnext⟩

theorem identity_iff_twice : ∃ s, Reaches 0 0 [7, 7] s ∧ Identity 0 0 [7, 7] s := by
  obtain ⟨s, hs⟩ := reaches_replicate 1
  exact ⟨s, hs, (identity_iff 0 0 [7, 7] s hs).mpr fun ino =>
    lt_of_le_of_lt (count_le_length) (by decide)⟩

/-- **`i_count` overflows** when a number has been got `2 ^ 31` times. -/
theorem iCount_overflows : ∃ s, Reaches 0 0 (replicate (2 ^ 31) 7) s ∧
    ¬ Identity 0 0 (replicate (2 ^ 31) 7) s := by
  obtain ⟨s, hs⟩ := reaches_replicate (2 ^ 31 - 1)
  refine ⟨s, hs, fun hid => ?_⟩
  obtain ⟨i, hi, hino⟩ := (inv_reaches hs).got 7 (mem_replicate.mpr ⟨by decide, rfl⟩)
  have hcount := hid.count i hi
  rw [((inv_reaches hs).inode i hi).2, hino, count_replicate_self, count_replicate_self]
    at hcount
  exact absurd hcount (by decide)

end Inodes

end Yap
