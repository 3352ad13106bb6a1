/-
# Directories of ramfs (`fs/ramfs.c`, `lib/lib.c`)

A ramfs directory is a singly linked list of `struct ramfs_inode`, each with a name field
of sixteen bytes.  `ramfs_create`, `ramfs_mkdir` and `ramfs_mknod` refuse a name that is
there already and hook a new node in at the end; `ramfs_lookup` walks the list.  They
should behave as a finite map from names to inodes.

Names are compared by `strncmp` over the length of the name that is looked for, so a
name also matches every entry it is a prefix of.  They are stored by a `memcpy` of that
length, which runs over the fields behind a field of sixteen bytes.  A node is modelled as
it lies in memory, so that both are visible; `smashed` is set by a copy that leaves the
node altogether.

The walks run on fuel: a copy can overwrite the links.
-/
import Yap.Headers
import Yap.Threaded
import Yap.FirstMatch
import Yap.Ramfs

namespace Yap

namespace RamfsDir

open FirstMatch List Option
open Function (update)

/-- A pointer; `0` is `NULL`. -/
abbrev Addr := BitVec 32

/-! ## Nodes in memory -/

/-- `struct ramfs_inode`: the name field, then seven words. -/
structure Node where
  name : List Byte
  startAddr : BitVec 32
  size : BitVec 32
  parent : Addr
  child : Addr
  next : Addr
  prev : Addr
  inode : Addr
  deriving DecidableEq, Repr

/-- `RAMFS_NAME_LEN`. -/
def ramfsNameLen : ℕ := 16

/-- `sizeof (struct ramfs_inode)`. -/
def sizeofNode : ℕ := 44

/-- `memset(child, 0, sizeof (*child))`. -/
def Node.zero : Node := ⟨replicate ramfsNameLen 0, 0, 0, 0, 0, 0, 0, 0⟩

/-- The bytes of a node. -/
def Node.image (c : Node) : List Byte :=
  c.name ++ [c.startAddr, c.size, c.parent, c.child, c.next, c.prev, c.inode].flatMap (wordBytes false)

/-- A word after bytes have been copied over its beginning. -/
def overwrite (w : BitVec 32) : List Byte → BitVec 32
  | [] => w
  | [b₀] => w.extractLsb' 8 24 ++ b₀
  | [b₀, b₁] => w.extractLsb' 16 16 ++ b₁ ++ b₀
  | [b₀, b₁, b₂] => w.extractLsb' 24 8 ++ b₂ ++ b₁ ++ b₀
  | b₀ :: b₁ :: b₂ :: b₃ :: _ => b₃ ++ b₂ ++ b₁ ++ b₀

/-- `memcpy(child->name, name, namelen)`, inside the node. -/
def Node.memcpyName (c : Node) (name : List Byte) : Node where
  name := name.take ramfsNameLen ++ c.name.drop name.length
  startAddr := overwrite c.startAddr (name.drop 16)
  size := overwrite c.size (name.drop 20)
  parent := overwrite c.parent (name.drop 24)
  child := overwrite c.child (name.drop 28)
  next := overwrite c.next (name.drop 32)
  prev := overwrite c.prev (name.drop 36)
  inode := overwrite c.inode (name.drop 40)

/-- The values of `inode->i_op`. -/
inductive InodeOperations : Type where
  | null | ramfs | chrdev | blkdev
  deriving DecidableEq, Repr

/-- The fields of `struct inode` that are set when it is made. -/
structure Inode where
  iMode : BitVec 32
  iDev : BitVec 32
  iOp : InodeOperations
  iWhat : Addr
  deriving DecidableEq, Repr

/-- Nodes and inodes by address; `beyond a` are the bytes behind the node at `a`. -/
structure State where
  node : Addr → Node
  inode : Addr → Inode
  beyond : Addr → ℕ → Byte
  smashed : Bool

namespace State

/-- An assignment to fields of the node at `a`. -/
def modify (s : State) (a : Addr) (f : Node → Node) : State :=
  { s with node := update s.node a (f (s.node a)) }

/-- An assignment to the inode at `a`. -/
def setInode (s : State) (a : Addr) (i : Inode) : State :=
  { s with inode := update s.inode a i }

/-- `memcpy(child->name, name, namelen)`. -/
def memcpyName (s : State) (a : Addr) (name : List Byte) : State :=
  { s.modify a (fun c => c.memcpyName name) with
    smashed := s.smashed || decide (sizeofNode < name.length) }

/-- The byte `child->name[i]`, for any `i`. -/
def nameByte (s : State) (a : Addr) (i : ℕ) : Byte :=
  (s.node a).image.getD i (s.beyond a (i - sizeofNode))

end State

/-! ## The functions -/

/-- The loop of `strncmp`, at position `i` with `n` characters to go. -/
def strncmpLoop (s₁ s₂ : ℕ → Byte) : ℕ → ℕ → ℤ
  | 0, _ => 0
  | n + 1, i =>
    if s₁ i ≠ 0 ∧ s₂ i ≠ 0 ∧ s₁ i = s₂ i then strncmpLoop s₁ s₂ n (i + 1)
    else (s₁ i).toNat - (s₂ i).toNat

/-- `strncmp(s1, s2, n)` for two pointers that are not null. -/
def strncmp (s₁ s₂ : ℕ → Byte) (n : ℕ) : ℤ := strncmpLoop s₁ s₂ n 0

/-- `strncmp(child->name, name, namelen) == 0` -/
def State.nameMatches (s : State) (name : List Byte) (child : Addr) : Bool :=
  strncmp (s.nameByte child) (fun i => name.getD i 0) name.length = 0

/-- The loop of `ramfs_travel_child`; `none` when the fuel is used up. -/
def travelLoop (s : State) (name : List Byte) : ℕ → Addr → Option Addr
  | 0, _ => none
  | fuel + 1, child =>
    if child = 0 then some 0
    else if s.nameMatches name child then some child
    else travelLoop s name fuel (s.node child).next

section

variable (fuel : ℕ)

/-- `ramfs_travel_child(parent, name, namelen)`. -/
def ramfsTravelChild (s : State) (parent : Addr) (name : List Byte) : Option Addr :=
  if parent = 0 then some 0 else travelLoop s name fuel (s.node parent).child

/-- `ramfs_lookup(dir, name, namelen, res_inode)`: the result and what is stored in
`*res_inode`. -/
def ramfsLookup (s : State) (dir : Addr) (name : List Byte) :
    Option (ℤ × Option Addr) :=
  (ramfsTravelChild fuel s (s.inode dir).iWhat name).map fun child =>
    if child = 0 then (-1, none) else (0, some (s.node child).inode)

/-- `while (tmp->next != NULL) tmp = tmp->next;` -/
def lastLoop (s : State) : ℕ → Addr → Option Addr
  | 0, _ => none
  | fuel + 1, tmp => if (s.node tmp).next ≠ 0 then lastLoop s fuel (s.node tmp).next else some tmp

/-- `ramfs_add_node(parent, child)`. -/
def ramfsAddNode (s : State) (parent child : Addr) : Option (State × ℤ) :=
  if (s.node parent).child = 0 then
    some (s.modify parent (fun p => { p with child := child }), 0)
  else
    (lastLoop s fuel (s.node parent).child).map fun tmp =>
      let s := s.modify tmp (fun c => { c with next := child })
      (s.modify child (fun c => { c with prev := tmp, next := 0 }), 0)

/-- What the three `kmalloc`s of an operation return. -/
structure Allocs where
  child : Addr
  inode : Addr
  startAddr : Addr
  deriving DecidableEq, Repr

/-- `S_IFMT`, `S_IFBLK`, `S_IFDIR`, `S_IFCHR`. -/
def sIfmt : BitVec 32 := 0o170000
def sIfblk : BitVec 32 := 0o060000
def sIfdir : BitVec 32 := 0o040000
def sIfchr : BitVec 32 := 0o020000

section

variable (s : State) (dir : Addr) (name : List Byte)

/-- What `ramfs_create` and `ramfs_mkdir` do, which differ in `i_mode` only. -/
def makeNode (iMode : BitVec 32) (a : Allocs) : Option (State × ℤ) :=
  let parent := (s.inode dir).iWhat
  if parent = 0 then some (s, -1)
  else
    match ramfsTravelChild fuel s parent name with
    | none => none
    | some child =>
      if child ≠ 0 then some (s, -1)
      else if a.child = 0 then some (s, -1)
      else
        let s := s.modify a.child (fun _ => Node.zero)
        if a.inode = 0 then some (s, -1)
        else
          let s := s.memcpyName a.child name
          let s := s.modify a.child (fun c => { c with inode := a.inode })
          let s := s.setInode a.inode
            { iMode := iMode, iDev := (s.inode dir).iDev, iOp := .ramfs, iWhat := a.child }
          let s := s.modify a.child (fun c =>
            { c with startAddr := a.startAddr, size := Ramfs.ramfsDefaultFileLen })
          ramfsAddNode fuel s parent a.child

/-- `ramfs_create(dir, name, namelen, mode, res_inode)`; `*res_inode` is `a.inode`. -/
def ramfsCreate (a : Allocs) : Option (State × ℤ) :=
  makeNode fuel s dir name 0 a

/-- `ramfs_mkdir(dir, name, namelen, mode)`. -/
def ramfsMkdir (mode : BitVec 32) (a : Allocs) : Option (State × ℤ) :=
  makeNode fuel s dir name ((mode &&& ~~~sIfmt) ||| sIfdir) a

/-- `ramfs_mknod(dir, name, namelen, mode, dev_num)`.  It copies the name first and gives
the node no contents. -/
def ramfsMknod (mode devNum : BitVec 32) (a : Allocs) : Option (State × ℤ) :=
  if dir = 0 then some (s, -ENOENT)
  else
    let parent := (s.inode dir).iWhat
    if parent = 0 then some (s, -ENOENT)
    else
      match ramfsTravelChild fuel s parent name with
      | none => none
      | some child =>
        if child ≠ 0 then some (s, -EBUSY)
        else if a.child = 0 then some (s, -ENOSPC)
        else
          let s := s.modify a.child (fun _ => Node.zero)
          let s := s.memcpyName a.child name
          if a.inode = 0 then some (s, -ENOSPC)
          else
            let iOp : InodeOperations :=
              if mode &&& sIfmt = sIfchr then .chrdev
              else if mode &&& sIfmt = sIfblk then .blkdev
              else .null
            let s := s.setInode a.inode
              { iMode := mode, iDev := devNum, iOp := iOp, iWhat := a.child }
            let s := s.modify a.child (fun c => { c with inode := a.inode })
            ramfsAddNode fuel s parent a.child

/-! ## Runs, and the map they should refine -/

/-- A file name: not empty, without zero bytes and slashes. -/
structure Name where
  bytes : List Byte
  ne_nil : bytes ≠ []
  chars : ∀ b ∈ bytes, b ≠ 0 ∧ b ≠ 0x2f
  deriving DecidableEq

/-- The operations that make an entry. -/
inductive Op : Type where
  | create : Op
  | mkdir (mode : BitVec 32) : Op
  | mknod (mode devNum : BitVec 32) : Op
  deriving DecidableEq, Repr

/-- A call with its name, and for an entry to be made what the allocator answers. -/
inductive Event : Type where
  | make (op : Op) (name : Name) (a : Allocs) : Event
  | lookup (name : Name) : Event
  deriving DecidableEq

/-- What the caller sees: the inode of the new entry, the inode found, or an error. -/
inductive Obs : Type where
  | made (inode : Addr) : Obs
  | found (inode : Addr) : Obs
  | failed : Obs
  deriving DecidableEq, Repr

/-- The call of an operation. -/
def callOp (a : Allocs) : Op → Option (State × ℤ)
  | .create => ramfsCreate fuel s dir name a
  | .mkdir mode => ramfsMkdir fuel s dir name mode a
  | .mknod mode devNum => ramfsMknod fuel s dir name mode devNum a

end

/-- One call on the directory `dir`. -/
def step (dir : Addr) (s : State) : Event → Option (State × Obs)
  | .make op name a =>
    (callOp fuel s dir name.bytes a op).map fun r =>
      (r.1, if r.2 = 0 then .made a.inode else .failed)
  | .lookup name =>
    (ramfsLookup fuel s dir name.bytes).map fun r => (s, (r.2.map .found).getD .failed)

end

/-- A sequence of calls: the state after them and what was seen. -/
def run (fuel : ℕ) (dir : Addr) : State → List Event → Option (State × List Obs)
  | s, [] => some (s, [])
  | s, ev :: evs => (step fuel dir s ev).bind fun r =>
    (run fuel dir r.1 evs).map fun q => (q.1, r.2 :: q.2)

/-- A finite map from names to inodes. -/
abbrev Dir := Name → Option Addr

/-- The same call on a map. -/
def specStep (m : Dir) : Event → Dir × Obs
  | .make _ name a =>
    match m name with
    | some _ => (m, .failed)
    | none => (update m name (some a.inode), .made a.inode)
  | .lookup name => (m, ((m name).map .found).getD .failed)

/-- The same calls on a map. -/
def specRun : Dir → List Event → List Obs
  | _, [] => []
  | m, ev :: evs => (specStep m ev).2 :: specRun (specStep m ev).1 evs

/-! ## Comparing names -/

/-- Against a string without zero bytes, `strncmp` decides equality of `n` characters. -/
theorem strncmpLoop_eq_zero_iff (s₁ s₂ : ℕ → Byte) (n : ℕ) :
    ∀ i, (∀ j, j < n → s₂ (i + j) ≠ 0) →
      (strncmpLoop s₁ s₂ n i = 0 ↔ ∀ j, j < n → s₁ (i + j) = s₂ (i + j)) := by
  induction n with
  | zero => intro i _; simp [strncmpLoop]
  | succ n ih =>
    intro i hne
    have hne0 : s₂ i ≠ 0 := hne 0 (Nat.succ_pos n)
    rw [strncmpLoop]
    by_cases heq : s₁ i = s₂ i
    · rw [if_pos ⟨heq ▸ hne0, hne0, heq⟩, ih (i + 1)]
      · constructor
        · intro h j hj
          cases j with
          | zero => exact heq
          | succ j =>
            have := h j (by omega)
            rwa [Nat.add_assoc, Nat.add_comm 1 j] at this
        · intro h j hj
          rw [Nat.add_assoc, Nat.add_comm 1 j]
          exact h (j + 1) (by omega)
      · intro j hj
        rw [Nat.add_assoc, Nat.add_comm 1 j]
        exact hne (j + 1) (by omega)
    · rw [if_neg (fun h => heq h.2.2)]
      constructor
      · intro h
        exact absurd (BitVec.eq_of_toNat_eq (by omega)) heq
      · intro h
        exact absurd (h 0 (Nat.succ_pos n)) heq

/-- The name field of an entry: the name, filled up with zeros. -/
def pad (name : List Byte) : List Byte := name ++ replicate (ramfsNameLen - name.length) 0

theorem getD_pad (name : List Byte) (i : ℕ) : (pad name).getD i 0 = name.getD i 0 := by
  by_cases hi : i < name.length
  · rw [pad, getD_append _ _ _ _ hi]
  · rw [pad, getD_append_right _ _ _ _ (by omega), getD_eq_default name _ (by omega)]
    rcases Nat.lt_or_ge (i - name.length) (ramfsNameLen - name.length) with h | h
    · exact getD_replicate 0 h
    · exact getD_eq_default _ _ (by simpa using h)

variable {s : State} {a parent dir : Addr} {name : List Byte} {n m : Name} {es : List Entry}
  {fuel : ℕ} {e : Entry}

/-- Inside the field, `child->name[i]` is the padded name. -/
theorem nameByte_of_pad (hfield : (s.node a).name = pad name) (hlen : name.length ≤ ramfsNameLen)
    {i : ℕ} (hi : i < ramfsNameLen) : s.nameByte a i = name.getD i 0 := by
  have hpad : i < (pad name).length := by
    rw [pad, length_append, length_replicate]
    omega
  rw [← getD_pad, State.nameByte, Node.image, hfield, getD_append _ _ _ _ hpad]
  rw [getD_eq_getElem _ _ hpad, getD_eq_getElem _ _ hpad]

theorem getD_ne_zero (n : Name) {i : ℕ} (hi : i < n.bytes.length) : n.bytes.getD i 0 ≠ 0 := by
  rw [getD_eq_getElem _ _ hi]
  exact (n.chars _ (getElem_mem hi)).1

/-- Two strings that agree as far as the first one goes. -/
theorem prefix_iff_getD {l l' : List Byte} (hlen : l.length ≤ l'.length) :
    l <+: l' ↔ ∀ i, i < l.length → l'.getD i 0 = l.getD i 0 := by
  rw [prefix_iff_getElem?]
  constructor
  · intro h i hi
    rw [getD_eq_getElem?_getD, h i hi, getD_eq_getElem _ _ hi, getD_some]
  · intro h i hi
    have := h i hi
    rw [getD_eq_getElem _ _ hi, getD_eq_getElem _ _ (by omega)] at this
    rw [List.getElem?_eq_getElem (by omega), this]

/-- A name that matches an entry: the entry's name starts with it, or it goes on behind a
name that fills its field. -/
def Meets (n m : Name) : Prop :=
  n.bytes <+: m.bytes ∨ m.bytes.length = ramfsNameLen ∧ m.bytes <+: n.bytes

theorem nameMatches_iff (s : State) (n : Name) (a : Addr) :
    s.nameMatches n.bytes a ↔ ∀ i, i < n.bytes.length → s.nameByte a i = n.bytes.getD i 0 := by
  rw [State.nameMatches, decide_eq_true_eq, strncmp, strncmpLoop_eq_zero_iff]
  · simp only [Nat.zero_add]
  · intro j hj
    rw [Nat.zero_add]
    exact getD_ne_zero n hj

section

variable (hfield : (s.node a).name = pad m.bytes) (hlen : m.bytes.length ≤ ramfsNameLen)

include hfield hlen

/-- What matches at all. -/
theorem meets_of_nameMatches (h : s.nameMatches n.bytes a) : Meets n m := by
  rw [nameMatches_iff] at h
  have hchar : ∀ i, i < n.bytes.length → i < ramfsNameLen →
      m.bytes.getD i 0 = n.bytes.getD i 0 := by
    intro i hi hi'
    rw [← nameByte_of_pad hfield hlen hi', h i hi]
  rcases Nat.lt_or_ge m.bytes.length n.bytes.length with hlt | hge
  · -- the longer name would meet a padding zero if the field had one
    right
    have hfull : m.bytes.length = ramfsNameLen := by
      by_contra hne
      have hzero := hchar m.bytes.length hlt (by omega)
      rw [getD_eq_default _ _ le_rfl] at hzero
      exact getD_ne_zero n hlt hzero.symm
    refine ⟨hfull, (prefix_iff_getD (by omega)).mpr ?_⟩
    intro i hi
    exact (hchar i (by omega) (by omega)).symm
  · left
    rw [prefix_iff_getD hge]
    intro i hi
    exact hchar i hi (by omega)

/-- Every beginning of an entry's name matches it. -/
theorem nameMatches_of_prefix (h : n.bytes <+: m.bytes) : s.nameMatches n.bytes a := by
  have hle := h.length_le
  rw [nameMatches_iff]
  intro i hi
  rw [nameByte_of_pad hfield hlen (by omega)]
  exact (prefix_iff_getD hle).mp h i hi

end

/-! ## Walking over the list -/

section Walk

variable {s : State} {xs : List Addr} {a : Addr}

/-- With fuel for every entry, `ramfs_travel_child` finds the first match. -/
theorem travelLoop_eq (name : List Byte) (h : Chain (fun x => (s.node x).next) 0 a xs) (fuel : ℕ)
    (hfuel : xs.length < fuel) :
    travelLoop s name fuel a = some ((xs.find? (s.nameMatches name)).getD 0) := by
  induction xs generalizing a fuel with
  | nil =>
    obtain ⟨n, rfl⟩ := Nat.exists_eq_add_of_lt hfuel
    have ha : a = 0 := h
    rw [travelLoop, if_pos ha]
    rfl
  | cons x xs ih =>
    obtain ⟨rfl, hne, hxs⟩ := h
    obtain ⟨n, rfl⟩ := Nat.exists_eq_add_of_lt hfuel
    rw [travelLoop, if_neg hne]
    by_cases hm : s.nameMatches name a
    · rw [if_pos hm, find?_cons_of_pos hm, getD_some]
    · rw [if_neg hm, find?_cons_of_neg hm]
      exact ih hxs _ (by simp; omega)

/-- With fuel for every entry, the walk to the end finds the last one. -/
theorem lastLoop_eq {y : Addr} (h : Chain (fun x => (s.node x).next) 0 a (xs ++ [y])) (fuel : ℕ)
    (hfuel : xs.length < fuel) : lastLoop s fuel a = some y := by
  induction xs generalizing a fuel with
  | nil =>
    obtain ⟨n, rfl⟩ := Nat.exists_eq_add_of_lt hfuel
    obtain ⟨rfl, -, hend⟩ := h
    have hnext : (s.node a).next = 0 := hend
    rw [lastLoop, if_neg (not_not_intro hnext)]
  | cons x xs ih =>
    obtain ⟨rfl, -, hxs⟩ := h
    obtain ⟨n, rfl⟩ := Nat.exists_eq_add_of_lt hfuel
    have hnext : (s.node a).next ≠ 0 := by
      intro h0
      have := hxs.nil_iff.mp h0
      simp at this
    rw [lastLoop, if_pos hnext]
    exact ih hxs _ (by simp; omega)

end Walk

/-! ## What a directory holds -/

/-- An entry: where its node is, its name and its inode. -/
structure Entry where
  addr : Addr
  name : Name
  inode : Addr

/-- The map a list of entries stands for. -/
def dirMap (es : List Entry) : Dir := fun n => (es.find? (fun e => e.name = n)).map Entry.inode

/-- The directory `dir` with the node `parent` holds the entries `es`, in this order.  No
name is a beginning of the name of an entry before it. -/
structure DirOk (dir parent : Addr) (s : State) (es : List Entry) : Prop where
  dir_ne : dir ≠ 0
  what : (s.inode dir).iWhat = parent
  parent_ne : parent ≠ 0
  chain : Chain (fun x => (s.node x).next) 0 (s.node parent).child (es.map Entry.addr)
  parent_not_mem : parent ∉ es.map Entry.addr
  field : ∀ e ∈ es, (s.node e.addr).name = pad e.name.bytes
  inode : ∀ e ∈ es, (s.node e.addr).inode = e.inode
  short : ∀ e ∈ es, e.name.bytes.length ≤ ramfsNameLen
  order : es.Pairwise (fun e e' => ¬ e'.name.bytes <+: e.name.bytes)

/-- A name that can be told from all others in the directory: it is there, or it matches
no entry. -/
def Clear (m : Dir) (n : Name) : Prop := (m n).isSome ∨ ∀ k, (m k).isSome → ¬ Meets n k

theorem isSome_dirMap :
    (dirMap es n).isSome ↔ ∃ e ∈ es, e.name = n := by
  rw [dirMap, isSome_map, find?_isSome]
  simp only [decide_eq_true_eq]

/-- A name of at most sixteen bytes matches an entry it is a beginning of, and no other. -/
theorem Meets.prefix_of_le (h : Meets n m) (hn : n.bytes.length ≤ ramfsNameLen) :
    n.bytes <+: m.bytes := by
  rcases h with h | ⟨hlen, h⟩
  · exact h
  · have heq : m.bytes = n.bytes := h.eq_of_length_le (by omega)
    rw [heq]

section Holds

variable {dir parent : Addr} {s : State} {es : List Entry}

section

variable (h : DirOk dir parent s es) (hn : Clear (dirMap es) n)

include h hn

/-- For a clear name the first match is the entry of that name. -/
theorem DirOk.find?_eq :
    (es.map Entry.addr).find? (s.nameMatches n.bytes) =
      (es.find? (fun e => e.name = n)).map Entry.addr := by
  rw [find?_map]
  congr 1
  rw [find?_eq_find?_iff]
  · intro pre e post hes hp hq
    have he : e ∈ es := by rw [hes]; simp
    have hmeets : Meets n e.name := meets_of_nameMatches (h.field e he) (h.short e he) hp
    rcases hn with hsome | hnone
    · -- the entry of that name stands first, for it is a beginning of `e`'s
      obtain ⟨e', he', rfl⟩ := isSome_dirMap.mp hsome
      have hprefix := hmeets.prefix_of_le (h.short e' he')
      rw [hes, mem_append, mem_cons] at he'
      rcases he' with hpre | rfl | hpost
      · exact ⟨e', hpre, by simp⟩
      · exact absurd (decide_eq_true rfl) hq
      · have horder := h.order
        rw [hes, pairwise_append, pairwise_cons] at horder
        exact absurd hprefix (horder.2.1.1 e' hpost)
    · exact absurd hmeets (hnone e.name (isSome_dirMap.mpr ⟨e, he, rfl⟩))
  · intro e he hq
    obtain rfl : e.name = n := of_decide_eq_true hq
    exact nameMatches_of_prefix (h.field e he) (h.short e he) prefix_rfl

/-- What `ramfs_travel_child` returns for a clear name. -/
theorem DirOk.travel (hfuel : es.length < fuel) :
    ramfsTravelChild fuel s parent n.bytes =
      some (((es.find? (fun e => e.name = n)).map Entry.addr).getD 0) := by
  rw [ramfsTravelChild, if_neg h.parent_ne,
    travelLoop_eq n.bytes h.chain fuel (by rwa [length_map]), h.find?_eq hn]

omit h hn in
theorem DirOk.addr_ne (h : DirOk dir parent s es) (he : e ∈ es) : e.addr ≠ 0 := by
  obtain ⟨l, r, hes⟩ := append_of_mem (List.mem_map_of_mem (f := Entry.addr) he)
  have hchain := h.chain
  rw [hes] at hchain
  exact hchain.drop_until.2.1

/-- `ramfs_lookup` of a clear name reads the map. -/
theorem DirOk.lookup (hfuel : es.length < fuel) :
    step fuel dir s (.lookup n) = some (s, (specStep (dirMap es) (.lookup n)).2) := by
  rw [step, ramfsLookup, h.what, h.travel hn hfuel, specStep, dirMap]
  cases hfind : es.find? (fun e => e.name = n) with
  | none => rfl
  | some e =>
    have he := mem_of_find?_eq_some hfind
    have hne : e.addr ≠ 0#32 := h.addr_ne he
    simp [hne, h.inode e he]

end

end Holds

/-! ## Making an entry -/

section Modify

variable (s : State) (a : Addr) (f : Node → Node)

@[simp] theorem modify_node_self : (s.modify a f).node a = f (s.node a) := by
  simp [State.modify]

theorem modify_node_of_ne {x : Addr} (h : x ≠ a) : (s.modify a f).node x = s.node x := by
  simp [State.modify, h]

end Modify

/-- A name that fits is stored as it is, and nothing else of a fresh node is touched. -/
theorem memcpyName_zero (h : name.length ≤ ramfsNameLen) :
    Node.zero.memcpyName name = { Node.zero with name := pad name } := by
  have hdrop : ∀ k, 16 ≤ k → name.drop k = [] := by
    intro k hk
    apply drop_eq_nil_of_le
    simp only [ramfsNameLen] at h
    omega
  simp only [Node.memcpyName, Node.zero, hdrop 16 le_rfl, hdrop 20 (by omega),
    hdrop 24 (by omega), hdrop 28 (by omega), hdrop 32 (by omega), hdrop 36 (by omega),
    hdrop 40 (by omega), overwrite, take_of_length_le h, drop_replicate, pad]

/-- The state in which an operation calls `ramfs_add_node`: the new node is filled in, and
every other node is as before. -/
structure Prepared (s s₁ : State) (a : Allocs) (name : List Byte) : Prop where
  name : (s₁.node a.child).name = pad name
  inode : (s₁.node a.child).inode = a.inode
  next : (s₁.node a.child).next = 0
  others : ∀ x, x ≠ a.child → s₁.node x = s.node x
  inodes : ∀ x, x ≠ a.inode → s₁.inode x = s.inode x
  smashed : s₁.smashed = s.smashed

/-- A zeroed node with the name copied in and further fields set, and an inode. -/
def prepare (s : State) (a : Allocs) (name : List Byte) (fill : Node → Node) (v : Inode) : State :=
  (((s.modify a.child (fun _ => Node.zero)).memcpyName a.child name).modify a.child fill).setInode
    a.inode v

theorem prepared_prepare (s : State) (a : Allocs) (fill : Node → Node) (v : Inode)
    (hlen : name.length ≤ ramfsNameLen) (hname : ∀ c, (fill c).name = c.name)
    (hnext : ∀ c, (fill c).next = c.next) (hinode : ∀ c, (fill c).inode = a.inode) :
    Prepared s (prepare s a name fill v) a name := by
  have hnode : (prepare s a name fill v).node a.child = fill (Node.zero.memcpyName name) := by
    simp [prepare, State.setInode, State.memcpyName]
  constructor
  · rw [hnode, hname, memcpyName_zero hlen]
  · rw [hnode, hinode]
  · rw [hnode, hnext, memcpyName_zero hlen]
    rfl
  · intro x hx
    simp [prepare, State.setInode, State.memcpyName, State.modify, hx]
  · intro x hx
    simp [prepare, State.setInode, State.memcpyName, State.modify, hx]
  · have hfits : decide (sizeofNode < name.length) = false := by
      simp only [sizeofNode, ramfsNameLen] at hlen ⊢
      exact decide_eq_false (by omega)
    simp [prepare, State.setInode, State.memcpyName, State.modify, hfits]

section Call

variable {fuel : ℕ} {s : State} {dir : Addr} {name : List Byte} {a : Allocs}

/-- A name that is found is refused, and nothing is changed. -/
theorem callOp_refused (hdir : dir ≠ 0) (hparent : (s.inode dir).iWhat ≠ 0) {c : Addr}
    (hfound : ramfsTravelChild fuel s (s.inode dir).iWhat name = some c) (hc : c ≠ 0) (op : Op) :
    ∃ r, r ≠ 0 ∧ callOp fuel s dir name a op = some (s, r) := by
  cases op with
  | create =>
    refine ⟨-1, by decide, ?_⟩
    simp only [callOp, ramfsCreate, makeNode, hfound, if_neg hparent, if_pos hc]
  | mkdir mode =>
    refine ⟨-1, by decide, ?_⟩
    simp only [callOp, ramfsMkdir, makeNode, hfound, if_neg hparent, if_pos hc]
  | mknod mode devNum =>
    refine ⟨-EBUSY, by decide, ?_⟩
    simp only [callOp, ramfsMknod, hfound, if_neg hdir, if_neg hparent, if_pos hc]

variable (hparent : (s.inode dir).iWhat ≠ 0)
  (hfound : ramfsTravelChild fuel s (s.inode dir).iWhat name = some 0)
  (hlen : name.length ≤ ramfsNameLen) (hchild : a.child ≠ 0) (hinode : a.inode ≠ 0)

include hparent hfound hlen hchild hinode

theorem makeNode_prepared (iMode : BitVec 32) : ∃ s₁, Prepared s s₁ a name ∧
    makeNode fuel s dir name iMode a = ramfsAddNode fuel s₁ (s.inode dir).iWhat a.child := by
  refine ⟨_, prepared_prepare s a (fun c : Node => { c with
    inode := a.inode, startAddr := a.startAddr, size := Ramfs.ramfsDefaultFileLen })
    { iMode := iMode, iDev := (s.inode dir).iDev, iOp := .ramfs, iWhat := a.child } hlen
    (fun _ => rfl) (fun _ => rfl) (fun _ => rfl), ?_⟩
  simp only [makeNode, hfound, if_neg hparent, if_neg hchild, if_neg hinode, ne_eq,
    not_true_eq_false, if_false]
  simp [prepare, State.modify, State.setInode, State.memcpyName]

/-- A name that is not found, and fits, is filed under a new node. -/
theorem callOp_prepared (hdir : dir ≠ 0) (op : Op) :
    ∃ s₁, Prepared s s₁ a name ∧
      callOp fuel s dir name a op = ramfsAddNode fuel s₁ (s.inode dir).iWhat a.child := by
  cases op with
  | create => exact makeNode_prepared hparent hfound hlen hchild hinode _
  | mkdir mode => exact makeNode_prepared hparent hfound hlen hchild hinode _
  | mknod mode devNum =>
    refine ⟨_, prepared_prepare s a (fun c : Node => { c with inode := a.inode })
      { iMode := mode, iDev := devNum
        iOp := if mode &&& sIfmt = sIfchr then .chrdev
          else if mode &&& sIfmt = sIfblk then .blkdev else .null
        iWhat := a.child } hlen (fun _ => rfl) (fun _ => rfl) (fun _ => rfl), ?_⟩
    simp only [callOp, ramfsMknod, hfound, if_neg hdir, if_neg hparent, if_neg hchild,
      if_neg hinode, ne_eq, not_true_eq_false, if_false]
    simp [prepare, State.modify, State.setInode, State.memcpyName]

end Call

/-- What `ramfs_add_node` changes in a node: links, never names or inodes. -/
structure Linked (s₁ s₂ : State) : Prop where
  name : ∀ x, (s₂.node x).name = (s₁.node x).name
  inode : ∀ x, (s₂.node x).inode = (s₁.node x).inode
  inodes : s₂.inode = s₁.inode
  smashed : s₂.smashed = s₁.smashed

theorem linked_modify (s : State) (a : Addr) (f : Node → Node) (hname : ∀ c, (f c).name = c.name)
    (hinode : ∀ c, (f c).inode = c.inode) : Linked s (s.modify a f) := by
  constructor
  · intro x
    by_cases hx : x = a
    · rw [hx, modify_node_self, hname]
    · rw [modify_node_of_ne s a f hx]
  · intro x
    by_cases hx : x = a
    · rw [hx, modify_node_self, hinode]
    · rw [modify_node_of_ne s a f hx]
  · rfl
  · rfl

theorem Linked.trans {s₁ s₂ s₃ : State} (h : Linked s₁ s₂) (h' : Linked s₂ s₃) :
    Linked s₁ s₃ where
  name x := (h'.name x).trans (h.name x)
  inode x := (h'.inode x).trans (h.inode x)
  inodes := h'.inodes.trans h.inodes
  smashed := h'.smashed.trans h.smashed

/-- `ramfs_add_node` hooks a node that is in no list in behind the last one. -/
theorem ramfsAddNode_spec {child : Addr} {xs : List Addr}
    (h : Chain (fun x => (s.node x).next) 0 (s.node parent).child xs) (hparent : parent ∉ xs)
    (hne : child ≠ parent) (hchild : child ∉ xs) (hzero : child ≠ 0)
    (hnext : (s.node child).next = 0) (hfuel : xs.length < fuel) :
    ∃ s', ramfsAddNode fuel s parent child = some (s', 0) ∧ Linked s s' ∧
      Chain (fun x => (s'.node x).next) 0 (s'.node parent).child (xs ++ [child]) := by
  rcases eq_nil_or_concat xs with rfl | ⟨ys, y, rfl⟩
  · -- the first entry
    have hempty : (s.node parent).child = 0 := h
    refine ⟨s.modify parent (fun p => { p with child := child }),
      by rw [ramfsAddNode, if_pos hempty],
      linked_modify s parent _ (fun _ => rfl) (fun _ => rfl), ?_⟩
    refine ⟨by rw [modify_node_self], hzero, ?_⟩
    simp only [modify_node_of_ne s parent _ hne]
    exact hnext
  · rw [concat_eq_append] at *
    have hlast : lastLoop s fuel (s.node parent).child = some y :=
      lastLoop_eq h fuel (by simp at hfuel; omega)
    have hfirst : (s.node parent).child ≠ 0 := by
      intro h0
      have := h.nil_iff.mp h0
      simp at this
    have hy : y ≠ child := by rintro rfl; simp at hchild
    have hpy : parent ≠ y := by rintro rfl; simp at hparent
    have hnodup := h.nodup
    refine ⟨(s.modify y (fun c => { c with next := child })).modify child
      (fun c => { c with prev := y, next := 0 }),
      by rw [ramfsAddNode, if_neg hfirst, hlast]; rfl,
      (linked_modify s y (fun c => { c with next := child }) (fun _ => rfl) (fun _ => rfl)).trans
        (linked_modify _ child _ (fun _ => rfl) (fun _ => rfl)), ?_⟩
    rw [List.append_assoc, modify_node_of_ne _ child _ hne.symm, modify_node_of_ne s y _ hpy]
    refine h.snoc hzero ?_ ?_ ?_
    · simp only [modify_node_of_ne _ child _ hy, modify_node_self]
    · simp only [modify_node_self]
    · intro z hz
      have hzy : z ≠ y := by
        rintro rfl
        exact (disjoint_of_nodup_append hnodup) hz (mem_singleton_self z)
      have hzc : z ≠ child := by
        rintro rfl
        simp [hz] at hchild
      simp only [modify_node_of_ne _ child _ hzc, modify_node_of_ne s y _ hzy]

/-- The map after a new entry has been added at the end. -/
theorem dirMap_snoc (h : dirMap es e.name = none) :
    dirMap (es ++ [e]) = update (dirMap es) e.name (some e.inode) := by
  funext n
  have hnone : es.find? (fun x => x.name = e.name) = none := by
    simpa [dirMap] using h
  by_cases hn : n = e.name
  · subst hn
    simp [dirMap, hnone]
  · rw [Function.update_of_ne hn, dirMap, dirMap, find?_append,
      find?_cons_of_neg (by simpa using Ne.symm hn), find?_nil, or_none]

section Make

variable {dir parent : Addr} {s : State} {es : List Entry} {n : Name} {a : Allocs}

/-- A new entry keeps the directory in order. -/
theorem DirOk.snoc (h : DirOk dir parent s es) {s₁ s' : State} (hprep : Prepared s s₁ a n.bytes)
    (hlink : Linked s₁ s')
    (hchain : Chain (fun x => (s'.node x).next) 0 (s'.node parent).child
      (es.map Entry.addr ++ [a.child]))
    (hlen : n.bytes.length ≤ ramfsNameLen) (hnew : ∀ e ∈ es, ¬ n.bytes <+: e.name.bytes)
    (hchild : a.child ∉ es.map Entry.addr) (hparent : a.child ≠ parent) (hdir : a.inode ≠ dir) :
    DirOk dir parent s' (es ++ [⟨a.child, n, a.inode⟩]) := by
  have hother : ∀ e ∈ es, s₁.node e.addr = s.node e.addr := by
    intro e he
    apply hprep.others
    intro heq
    exact hchild (heq ▸ List.mem_map_of_mem he)
  constructor
  · exact h.dir_ne
  · rw [hlink.inodes, hprep.inodes dir hdir.symm, h.what]
  · exact h.parent_ne
  · rw [map_append]
    exact hchain
  · rw [map_append, mem_append, not_or]
    exact ⟨h.parent_not_mem, by simpa using hparent.symm⟩
  · intro e he
    rw [hlink.name]
    rcases mem_append.mp he with he | he
    · rw [hother e he, h.field e he]
    · obtain rfl := mem_singleton.mp he
      exact hprep.name
  · intro e he
    rw [hlink.inode]
    rcases mem_append.mp he with he | he
    · rw [hother e he, h.inode e he]
    · obtain rfl := mem_singleton.mp he
      exact hprep.inode
  · intro e he
    rcases mem_append.mp he with he | he
    · exact h.short e he
    · obtain rfl := mem_singleton.mp he
      exact hlen
  · rw [pairwise_append]
    refine ⟨h.order, pairwise_singleton _ _, ?_⟩
    intro e he e' he'
    obtain rfl := mem_singleton.mp he'
    exact hnew e he

/-- Making an entry under a clear name that fits does what it does to the map. -/
theorem DirOk.make (h : DirOk dir parent s es) (hn : Clear (dirMap es) n)
    (hlen : n.bytes.length ≤ ramfsNameLen) (hzero : a.child ≠ 0) (hinode : a.inode ≠ 0)
    (hchild : a.child ∉ es.map Entry.addr) (hparent : a.child ≠ parent) (hdir : a.inode ≠ dir)
    (op : Op) (hfuel : es.length < fuel) :
    ∃ s' es', step fuel dir s (.make op n a) = some (s', (specStep (dirMap es) (.make op n a)).2) ∧
      DirOk dir parent s' es' ∧ dirMap es' = (specStep (dirMap es) (.make op n a)).1 ∧
      s'.smashed = s.smashed ∧ (es' = es ∨ es' = es ++ [⟨a.child, n, a.inode⟩]) := by
  have hwhat : (s.inode dir).iWhat ≠ 0 := by rw [h.what]; exact h.parent_ne
  have htravel := h.travel hn hfuel
  rw [← h.what] at htravel
  cases hmap : dirMap es n with
  | some i =>
    -- the name is there: refused
    obtain ⟨e, hfind, -⟩ := map_eq_some_iff.mp hmap
    have he := mem_of_find?_eq_some hfind
    rw [hfind] at htravel
    obtain ⟨r, hr, hcall⟩ := callOp_refused h.dir_ne hwhat htravel (h.addr_ne he) op
    refine ⟨s, es, ?_, h, ?_, rfl, Or.inl rfl⟩
    · rw [step, hcall]
      simp [specStep, hmap, hr]
    · simp [specStep, hmap]
  | none =>
    have hfind : es.find? (fun e => e.name = n) = none := map_eq_none_iff.mp hmap
    rw [hfind] at htravel
    obtain ⟨s1, hprep, hcall⟩ := callOp_prepared hwhat htravel hlen hzero hinode h.dir_ne op
    rw [h.what] at hcall
    have hother : ∀ x ∈ es.map Entry.addr, (s1.node x).next = (s.node x).next := by
      intro x hx
      rw [hprep.others x (fun heq => hchild (heq ▸ hx))]
    have hchain : Chain (fun x => (s1.node x).next) 0 (s1.node parent).child
        (es.map Entry.addr) := by
      rw [hprep.others parent hparent.symm]
      exact h.chain.congr hother
    obtain ⟨s', hadd, hlink, hchain'⟩ := ramfsAddNode_spec hchain h.parent_not_mem hparent hchild
      hzero hprep.next (by rwa [length_map])
    have hnew : ∀ e ∈ es, ¬ n.bytes <+: e.name.bytes := by
      intro e he hprefix
      rcases hn with hsome | hnone
      · rw [hmap] at hsome
        exact absurd hsome (by simp)
      · exact hnone e.name (isSome_dirMap.mpr ⟨e, he, rfl⟩) (Or.inl hprefix)
    refine ⟨s', es ++ [⟨a.child, n, a.inode⟩], ?_,
      h.snoc hprep hlink hchain' hlen hnew hchild hparent hdir, ?_, ?_, Or.inr rfl⟩
    · rw [step, hcall, hadd]
      simp [specStep, hmap]
    · rw [dirMap_snoc hmap]
      simp [specStep, hmap]
    · rw [hlink.smashed, hprep.smashed]

end Make

/-! ## Whole runs -/

/-- The node an event would allocate. -/
def Event.child : Event → Option Addr
  | .make _ _ a => some a.child
  | .lookup _ => none

/-- Allocations succeed and return memory that is not in use. -/
structure AllocsOk (dir parent : Addr) (evs : List Event) : Prop where
  ne_zero : ∀ op n a, Event.make op n a ∈ evs → a.child ≠ 0 ∧ a.inode ≠ 0
  unused : ∀ op n a, Event.make op n a ∈ evs → a.child ≠ parent ∧ a.inode ≠ dir
  nodup : (evs.filterMap Event.child).Nodup

/-- The name can be told from the others, and one that is to be stored fits. -/
def EventOk (m : Dir) : Event → Prop
  | .make _ n _ => n.bytes.length ≤ ramfsNameLen ∧ Clear m n
  | .lookup n => Clear m n

/-- Every event of a run meets the condition in the state it meets. -/
def EventsOk : Dir → List Event → Prop
  | _, [] => True
  | m, ev :: evs => EventOk m ev ∧ EventsOk (specStep m ev).1 evs

/-- A directory that has just been made. -/
structure EmptyDir (dir parent : Addr) (s : State) : Prop where
  dir_ne : dir ≠ 0
  what : (s.inode dir).iWhat = parent
  parent_ne : parent ≠ 0
  empty : (s.node parent).child = 0

theorem dirOk_of_empty (h : EmptyDir dir parent s) :
    DirOk dir parent s [] where
  dir_ne := h.dir_ne
  what := h.what
  parent_ne := h.parent_ne
  chain := h.empty
  parent_not_mem := not_mem_nil
  field := by simp
  inode := by simp
  short := by simp
  order := List.Pairwise.nil

/-- A run from a directory with entries. -/
theorem run_refines (fuel : ℕ) (evs : List Event) (s : State) (es : List Entry)
    (h : DirOk dir parent s es) (hallocs : AllocsOk dir parent evs)
    (hfresh : ∀ x ∈ evs.filterMap Event.child, x ∉ es.map Entry.addr)
    (hok : EventsOk (dirMap es) evs) (hfuel : es.length + evs.length < fuel) :
    ∃ s', run fuel dir s evs = some (s', specRun (dirMap es) evs) ∧ s'.smashed = s.smashed := by
  induction evs generalizing s es with
  | nil => exact ⟨s, rfl, rfl⟩
  | cons ev evs ih =>
    rw [length_cons] at hfuel
    have hnodup := hallocs.nodup
    have hrest : AllocsOk dir parent evs := by
      refine ⟨fun op n a hm => hallocs.ne_zero op n a (mem_cons_of_mem _ hm),
        fun op n a hm => hallocs.unused op n a (mem_cons_of_mem _ hm), ?_⟩
      rw [filterMap_cons] at hnodup
      split at hnodup
      · exact hnodup
      · exact (nodup_cons.mp hnodup).2
    obtain ⟨hev, hevs⟩ := hok
    cases ev with
    | lookup n =>
      obtain ⟨s', hrun, hsmashed⟩ := ih s es h hrest hfresh hevs (by omega)
      refine ⟨s', ?_, hsmashed⟩
      rw [run, h.lookup hev (by omega), bind_some, hrun]
      rfl
    | make op n a =>
      have hzero := hallocs.ne_zero op n a mem_cons_self
      have hunused := hallocs.unused op n a mem_cons_self
      have hchild : a.child ∉ es.map Entry.addr := hfresh a.child (by simp [Event.child])
      obtain ⟨s1, es1, hstep, h1, hmap, hsmashed1, hes1⟩ := h.make hev.2 hev.1 hzero.1 hzero.2
        hchild hunused.1 hunused.2 op (show es.length < fuel by omega)
      have hlen : es1.length ≤ es.length + 1 := by
        rcases hes1 with rfl | rfl <;> simp
      have haddr : ∀ x ∈ es1.map Entry.addr, x ∈ es.map Entry.addr ∨ x = a.child := by
        intro x hx
        rcases hes1 with rfl | rfl
        · exact Or.inl hx
        · simpa using hx
      obtain ⟨s', hrun, hsmashed⟩ := ih s1 es1 h1 hrest
        (by
          intro x hx hmem
          rcases haddr x hmem with hold | rfl
          · exact hfresh x (by simp [Event.child, hx]) hold
          · rw [filterMap_cons_some (show Event.child (.make op n a) = some a.child from rfl)]
              at hnodup
            exact (nodup_cons.mp hnodup).1 hx)
        (by rw [hmap]; exact hevs) (by omega)
      refine ⟨s', ?_, hsmashed.trans hsmashed1⟩
      rw [run, hstep, bind_some, hrun, hmap]
      rfl

/-- **A directory refines a finite map**, in every run from an empty directory whose names
can be told apart and fit their field: every call returns, with the outcome it has on the
map, and no copy leaves a node. -/
theorem ramfs_dir_refines_map {dir parent : Addr} (s : State) (hs : EmptyDir dir parent s)
    (evs : List Event) (hallocs : AllocsOk dir parent evs) (hok : EventsOk (fun _ => none) evs)
    (fuel : ℕ) (hfuel : evs.length < fuel) :
    ∃ s', run fuel dir s evs = some (s', specRun (fun _ => none) evs) ∧
      s'.smashed = s.smashed := by
  exact run_refines fuel evs s [] (dirOk_of_empty hs) hallocs (fun _ _ => not_mem_nil) hok
    (by simpa using hfuel)

/-- A file name of letters. -/
def abc : Name := ⟨[0x61, 0x62, 0x63], by decide, by decide⟩
def abd : Name := ⟨[0x61, 0x62, 0x64], by decide, by decide⟩
def ab : Name := ⟨[0x61, 0x62], by decide, by decide⟩
def seventeen : Name := ⟨replicate 17 0x61, by decide, by decide⟩

/-- An empty directory: its inode at 4, its node at 8. -/
def emptyDir : State where
  node := fun _ => Node.zero
  inode := fun a => { iMode := 0, iDev := 0, iOp := .ramfs, iWhat := if a = 4 then 8 else 0 }
  beyond := fun _ _ => 0
  smashed := false

/-- The `k`-th allocation of a node, an inode and a file. -/
def allocsAt (k : BitVec 32) : Allocs := ⟨0x1000 + 256 * k, 0x1040 + 256 * k, 0x1080 + 256 * k⟩

/-- Two files and a lookup of each. -/
def twoFiles : List Event :=
  [.make .create abc (allocsAt 0), .make .create abd (allocsAt 1), .lookup abc, .lookup abd]

theorem ramfs_dir_refines_map_twoFiles :
    ∃ s', run 5 4 emptyDir twoFiles = some (s',
      [.made 0x1040, .made 0x1140, .found 0x1040, .found 0x1140]) ∧ s'.smashed = false := by
  have hs : EmptyDir 4 8 emptyDir := ⟨by decide, by decide, by decide, by decide⟩
  have hallocs : AllocsOk 4 8 twoFiles := by
    refine ⟨?_, ?_, by decide⟩
    all_goals
      intro op n a h
      simp [twoFiles, allocsAt] at h
      rcases h with ⟨-, -, rfl⟩ | ⟨-, -, rfl⟩ <;> decide
  have hok : EventsOk (fun _ => none) twoFiles := by
    refine ⟨⟨by decide, Or.inr (by simp)⟩, ⟨by decide, Or.inr ?_⟩, Or.inl (by decide),
      Or.inl (by decide), trivial⟩
    intro k hk
    have habc : k = abc := by
      by_contra hne
      simp [specStep, Function.update_of_ne hne] at hk
    subst habc
    unfold Meets
    decide
  exact ramfs_dir_refines_map emptyDir hs twoFiles hallocs hok 5 (by decide)

/-! ## Names that are beginnings of others -/

/-- Every name that an entry's name begins with is found, whether it is there or not, and
cannot be made. -/
theorem DirOk.beginning_found (h : DirOk dir parent s es) (he : e ∈ es)
    (hn : n.bytes <+: e.name.bytes) (hfuel : es.length < fuel) (op : Op) (a : Allocs) :
    (∃ i, step fuel dir s (.lookup n) = some (s, .found i)) ∧
      step fuel dir s (.make op n a) = some (s, .failed) := by
  obtain ⟨c, hc⟩ : ∃ c, (es.map Entry.addr).find? (s.nameMatches n.bytes) = some c := by
    rw [← isSome_iff_exists, find?_isSome]
    exact ⟨e.addr, List.mem_map_of_mem he,
      nameMatches_of_prefix (h.field e he) (h.short e he) hn⟩
  have htravel : ramfsTravelChild fuel s (s.inode dir).iWhat n.bytes = some c := by
    rw [h.what, ramfsTravelChild, if_neg h.parent_ne,
      travelLoop_eq n.bytes h.chain fuel (by rwa [length_map]), hc, getD_some]
  have hne : c ≠ 0 := by
    obtain ⟨e', he', rfl⟩ := List.mem_map.mp (mem_of_find?_eq_some hc)
    exact h.addr_ne he'
  constructor
  · refine ⟨(s.node c).inode, ?_⟩
    simp only [step, ramfsLookup, htravel, map_some, if_neg hne, getD_some]
  · have hwhat : (s.inode dir).iWhat ≠ 0 := by rw [h.what]; exact h.parent_ne
    obtain ⟨r, hr, hcall⟩ := callOp_refused h.dir_ne hwhat htravel hne (a := a) op
    rw [step, hcall, map_some, if_neg hr]

/-- With "abc" in the directory, "ab" is found and cannot be made; and a device node with
a name of seventeen bytes has its last byte in `start_addr`. -/
theorem beginning_of_name_is_found :
    (run 9 4 emptyDir [.make .create abc (allocsAt 0), .lookup ab,
        .make .create ab (allocsAt 1)]).map Prod.snd =
      some [.made 0x1040, .found 0x1040, .failed] ∧
    specRun (fun _ => none) [.make .create abc (allocsAt 0), .lookup ab,
        .make .create ab (allocsAt 1)] = [.made 0x1040, .failed, .made 0x1140] ∧
    (run 9 4 emptyDir [.make (.mknod 0 0) seventeen (allocsAt 0)]).map
        (fun r => (r.1.node 0x1000).startAddr) = some 0x61 := by
  refine ⟨?_, ?_, ?_⟩ <;> decide +kernel

end RamfsDir

end Yap
