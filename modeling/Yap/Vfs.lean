/-
# Path walking (`fs/vfs.c`, `fs/ramfs.c`)

`dir_namei` reads a path character by character, looks each component up in the directory reached
so far, crosses to a mounted file system and takes a reference of what it reaches.

Without `..` this is a fold over the components that a slash ends (`dirNamei_eq_fold`).

`lookup` answers `..` itself in the task's root only.  Elsewhere it asks the file system for an
entry of that name: in the directory itself if its inode has no super block, and else in the
directory that the super block of the mounted root covers.  `ramfs_lookup` answers with the first
entry whose name begins with two dots, and `ramfs_mkdir` makes none.  `parent_resolves_iff` says
when `p/c/..` leads back to where `p` leads.
-/
import Yap.RamfsDir

namespace Yap

namespace Vfs

open List

/-- `struct inode`, as far as it is read here.  `iOp` says which file system's `lookup` the inode
has, if any. -/
structure Inode where
  iOp : Option ℕ
  iSb : Option ℕ
  iMount : Option ℕ
  iCount : BitVec 32

structure SuperBlock where
  sCovered : Option ℕ
  sMounted : Option ℕ

/-- The inodes, the table `super_blocks`, and `current->root` and `current->pwd`. -/
structure State where
  inode : ℕ → Inode
  superBlocks : ℕ → SuperBlock
  root : ℕ
  pwd : ℕ

/-- Why a call does not go on: an error is returned, or it is lost behind a null pointer or in a
list without end. -/
inductive Stop where
  | error (e : ℤ)
  | fault
  deriving DecidableEq

/-- Calls change the state also when they fail. -/
abbrev M := EStateM Stop State

def State.setInode (s : State) (i : ℕ) (v : Inode) : State :=
  { s with inode := Function.update s.inode i v }

/-- `atomic_inc(&inode->i_count)`. -/
def atomicInc (i : ℕ) : M Unit :=
  modify fun s => s.setInode i { s.inode i with iCount := (s.inode i).iCount + 1 }

def dots : List Char := ['.', '.']

section

-- what the `lookup` of each file system does
variable (ops : ℕ → ℕ → List Char → M ℕ)

/-- The directory that `lookup` asks for `..` in place of `dir`, which is not the root. -/
def covered (dir : ℕ) : M ℕ := do
  let s ← get
  match (s.inode dir).iSb with
  | none => return dir
  | some sb =>
    match (s.superBlocks sb).sMounted with
    | none => throw .fault
    | some mounted =>
      match (s.inode mounted).iSb with
      | none => throw .fault
      | some sb =>
        match (s.superBlocks sb).sCovered with
        | none => throw (.error (-ENOENT))
        | some dir =>
          atomicInc dir
          return dir

/-- The end of `lookup`: a name is looked up by the file system, the empty one is `dir`. -/
def search (dir : ℕ) (name : List Char) : M ℕ := do
  match ((← get).inode dir).iOp with
  | none => throw (.error (-ENOTDIR))
  | some op => if name = [] then return dir else ops op dir name

/-- `lookup(dir, name, len, result)`, for a directory that is there. -/
def lookup (dir : ℕ) (name : List Char) : M ℕ := do
  if name = dots then
    if dir = (← get).root then return dir
    let dir ← covered dir
    search ops dir name
  else search ops dir name

/-- `if (base->i_mount) base = base->i_mount; atomic_inc(&base->i_count);` -/
def cross (inode : ℕ) : M ℕ := do
  let base := ((← get).inode inode).iMount.getD inode
  atomicInc base
  return base

/-- `if (!base->i_op || !base->i_op->lookup) return -ENOTDIR;` -/
def isDirectory (base : ℕ) : M Unit := do
  if ((← get).inode base).iOp = none then throw (.error (-ENOTDIR))

/-- `while (1)` of `dir_namei`: `thisname` and `len` delimit the component that is being read. -/
def dirNameiLoop : List Char → List Char → ℕ → ℕ → M (ℕ × List Char × ℕ)
  | [], thisname, len, base => do
    isDirectory base
    return (base, thisname, len)
  | c :: pathname, thisname, len, base =>
    if c = '/' then do
      let inode ← lookup ops base (thisname.take len)
      let base ← cross inode
      dirNameiLoop pathname pathname 0 base
    else dirNameiLoop pathname thisname (len + 1) base

/-- Where `dir_namei` begins. -/
def start (base : Option ℕ) (pathname : List Char) : M ℕ := do
  let s ← get
  if base = none then atomicInc s.pwd
  if pathname.head? = some '/' then
    atomicInc s.root
    return s.root
  return base.getD s.pwd

/-- `if (*pathname == '/') pathname++;` -/
def relative : List Char → List Char
  | '/' :: pathname => pathname
  | pathname => pathname

/-- `dir_namei(pathname, namelen, name, base, res_inode)`: the directory, `name` and `namelen`. -/
def dirNamei (pathname : List Char) (base : Option ℕ) : M (ℕ × List Char × ℕ) := do
  let base ← start base pathname
  dirNameiLoop ops (relative pathname) (relative pathname) 0 base

/-! ## Paths without `..` -/

/-- One component: the directory's lookup, then the mount. -/
def enter (dir : ℕ) (name : List Char) : M ℕ := search ops dir name >>= cross

/-- The same through `lookup`, which knows `..`. -/
def step (dir : ℕ) (name : List Char) : M ℕ := lookup ops dir name >>= cross

/-- The fold over the components that a slash ends; what is left is the name. -/
def walk (into : ℕ → List Char → M ℕ) (base : ℕ) (comps : List (List Char)) :
    M (ℕ × List Char × ℕ) := do
  let dir ← comps.dropLast.foldlM into base
  isDirectory dir
  return (dir, comps.getLast?.getD [], (comps.getLast?.getD []).length)

theorem splitOn_slash_ne_nil (l : List Char) : l.splitOn '/' ≠ [] := splitOnP_ne_nil _ _

theorem modifyHead_self (l : List (List Char)) : l.modifyHead (fun x => x) = l := by
  cases l <;> rfl

/-- The loop in the middle of a component: `acc` is what has been read of it. -/
theorem dirNameiLoop_eq_walk (rest acc : List Char) (base : ℕ) :
    dirNameiLoop ops rest (acc ++ rest) acc.length base =
      walk (step ops) base ((rest.splitOn '/').modifyHead (acc ++ ·)) := by
  induction rest generalizing acc base with
  | nil => simp [dirNameiLoop, walk]
  | cons c rest ih =>
    rw [dirNameiLoop]
    by_cases hc : c = '/'
    · have hsplit : ((c :: rest).splitOn '/').modifyHead (acc ++ ·) = acc :: rest.splitOn '/' := by
        rw [hc, splitOn, splitOnP_cons_eq_if_modifyHead]
        simp [splitOn]
      have hrest : ∀ base, dirNameiLoop ops rest rest 0 base =
          walk (step ops) base (rest.splitOn '/') := by
        intro base
        simpa [modifyHead_self] using ih [] base
      obtain ⟨x, l, hl⟩ := exists_cons_of_ne_nil (splitOn_slash_ne_nil rest)
      rw [if_pos hc, take_left, hsplit, walk, dropLast_cons_of_ne_nil (splitOn_slash_ne_nil rest),
        foldlM_cons]
      simp only [hrest, walk, step, bind_assoc, hl, getLast?_cons_cons]
    · have hsplit : ((c :: rest).splitOn '/').modifyHead (acc ++ ·) =
          (rest.splitOn '/').modifyHead (acc ++ [c] ++ ·) := by
        rw [splitOn, splitOnP_cons_eq_if_modifyHead, if_neg (by simpa using hc), modifyHead_modifyHead]
        simp [splitOn, Function.comp_def]
      have h := ih (acc ++ [c]) base
      rw [append_assoc, singleton_append, length_append, length_singleton] at h
      rw [if_neg hc, hsplit, h]

/-- On every path, `dir_namei` is a fold of `lookup`. -/
theorem dirNamei_eq_walk (pathname : List Char) (base : Option ℕ) :
    dirNamei ops pathname base = start base pathname >>= fun base =>
      walk (step ops) base ((relative pathname).splitOn '/') := by
  unfold dirNamei
  congr 1
  funext base
  simpa [modifyHead_self] using dirNameiLoop_eq_walk ops (relative pathname) [] base

theorem splitOn_relative (pathname : List Char) :
    ∃ pre, pathname.splitOn '/' = pre ++ (relative pathname).splitOn '/' := by
  unfold relative
  split
  · exact ⟨[[]], by simp [splitOn, splitOnP_cons_eq_if_modifyHead]⟩
  · exact ⟨[], rfl⟩

/-- **Path walking is a fold.**  If no component that a slash ends is `..`, `dir_namei` starts at
the root or at the base, enters the components one by one, and returns the directory reached with
the characters behind the last slash. -/
theorem dirNamei_eq_fold (pathname : List Char) (base : Option ℕ)
    (hdots : dots ∉ (pathname.splitOn '/').dropLast) :
    dirNamei ops pathname base = start base pathname >>= fun base =>
      walk (enter ops) base ((relative pathname).splitOn '/') := by
  have hfold : ∀ (comps : List (List Char)) (base : ℕ), dots ∉ comps →
      comps.foldlM (step ops) base =
        comps.foldlM (enter ops) base := by
    intro comps
    induction comps with
    | nil => exact fun _ _ => rfl
    | cons name comps ih =>
      intro base hnot
      have hname : name ≠ dots := fun h => hnot (h ▸ mem_cons_self)
      have hlookup : lookup ops base name = search ops base name := if_neg hname
      have hrest := fun base => ih base fun h => hnot (mem_cons_of_mem _ h)
      simp only [foldlM_cons, hrest, step, hlookup, enter]
  obtain ⟨pre, hpre⟩ := splitOn_relative pathname
  rw [hpre, dropLast_append_of_ne_nil (splitOn_slash_ne_nil _)] at hdots
  rw [dirNamei_eq_walk]
  congr 1
  funext base
  rw [walk, walk, hfold _ _ fun h => hdots (mem_append_right _ h)]

end

/-- A root with the directory `a`, and in it `b`. -/
def twoDirs : ℕ → ℕ → List Char → M ℕ
  | _, 0, ['a'] => pure 1
  | _, 1, ['b'] => pure 2
  | _, _, _ => throw (.error (-1))

def fresh : State where
  inode := fun _ => ⟨some 0, none, none, 0⟩
  superBlocks := fun _ => ⟨none, none⟩
  root := 0
  pwd := 0

/-- The path `/a//b`. -/
theorem dirNamei_eq_fold_slashes : dirNamei twoDirs ['/', 'a', '/', '/', 'b'] none =
    start none ['/', 'a', '/', '/', 'b'] >>= fun base =>
      walk (enter twoDirs) base [['a'], [], ['b']] :=
  dirNamei_eq_fold twoDirs _ none (by decide)

/-! ## `ramfs_lookup` -/

/-- The bytes of a name. -/
def nameBytes (name : List Char) : List Byte := name.map fun c => BitVec.ofNat 8 c.toNat

/-- `ramfs_lookup` as the `lookup` of an inode, for inodes numbered by their addresses. -/
def ramfsLookup (fuel : ℕ) (r : RamfsDir.State) (dir : ℕ) (name : List Char) : M ℕ :=
  match RamfsDir.ramfsLookup fuel r (BitVec.ofNat 32 dir) (nameBytes name) with
  | some (_, some inode) => if inode = 0 then throw .fault else return inode.toNat
  | some (ret, none) => throw (.error ret)
  | none => throw .fault

/-- The nodes of the directory `dir`, in the order of its list. -/
def Entries (r : RamfsDir.State) (dir : ℕ) (xs : List RamfsDir.Addr) : Prop :=
  if (r.inode (BitVec.ofNat 32 dir)).iWhat = 0 then xs = []
  else Chain (fun x => (r.node x).next) 0 (r.node (r.inode (BitVec.ofNat 32 dir)).iWhat).child xs

/-- The name of the node begins with two dots. -/
def DotDot (r : RamfsDir.State) (x : RamfsDir.Addr) : Prop :=
  r.nameByte x 0 = 0x2e ∧ r.nameByte x 1 = 0x2e

instance (r : RamfsDir.State) (x : RamfsDir.Addr) : Decidable (DotDot r x) :=
  inferInstanceAs (Decidable (_ ∧ _))

def dotsName : RamfsDir.Name := ⟨[0x2e, 0x2e], by decide, by decide⟩

/-- `strncmp` compares two characters. -/
theorem nameMatches_dots (r : RamfsDir.State) :
    r.nameMatches (nameBytes dots) = fun x => decide (DotDot r x) := by
  funext x
  have hname : nameBytes dots = dotsName.bytes := by decide
  rw [hname, Bool.eq_iff_iff, RamfsDir.nameMatches_iff, decide_eq_true_eq]
  constructor
  · intro h
    exact ⟨h 0 (by decide), h 1 (by decide)⟩
  · rintro ⟨h0, h1⟩ i hi
    have hi : i < 2 := hi
    interval_cases i
    · exact h0
    · exact h1

variable {r : RamfsDir.State} {xs : List RamfsDir.Addr} {fuel dir x : ℕ} {s s' : State}

/-- A node of the list is not null. -/
theorem Entries.ne_zero {n : RamfsDir.Addr} (h : Entries r dir xs) (hn : n ∈ xs) : n ≠ 0 := by
  unfold Entries at h
  split_ifs at h
  · subst h
    exact absurd hn not_mem_nil
  · obtain ⟨pre, post, rfl⟩ := append_of_mem hn
    exact h.drop_until.2.1

/-- `ramfs_travel_child` finds the first entry that begins with two dots. -/
theorem Entries.travel (h : Entries r dir xs) (hfuel : xs.length < fuel) :
    RamfsDir.ramfsTravelChild fuel r (r.inode (BitVec.ofNat 32 dir)).iWhat (nameBytes dots) =
      some ((xs.find? (DotDot r ·)).getD 0) := by
  unfold Entries at h
  unfold RamfsDir.ramfsTravelChild
  split_ifs at h ⊢
  · rw [h]
    rfl
  · rw [RamfsDir.travelLoop_eq _ h fuel hfuel, nameMatches_dots]

/-- What stands in the first entry that begins with two dots. -/
def dotsEntry (r : RamfsDir.State) (xs : List RamfsDir.Addr) : Option ℕ := do
  let n ← xs.find? (DotDot r ·)
  if (r.node n).inode = 0 then none else some (r.node n).inode.toNat

@[simp]
theorem pure_eq_ok {α : Type} {a b : α} :
    (pure a : M α) s = .ok b s' ↔ a = b ∧ s' = s := by
  simp [pure, EStateM.pure, eq_comm]

@[simp]
theorem throw_ne_ok {α : Type} {e : Stop} {b : α} : (throw e : M α) s ≠ .ok b s' := nofun

/-- `ramfs_lookup` answers to `..` with that entry. -/
theorem ramfsLookup_dots_iff (h : Entries r dir xs) (hfuel : xs.length < fuel) :
    ramfsLookup fuel r dir dots s = .ok x s' ↔ dotsEntry r xs = some x ∧ s' = s := by
  unfold ramfsLookup RamfsDir.ramfsLookup dotsEntry
  rw [h.travel hfuel]
  cases hfind : xs.find? (DotDot r ·) with
  | none => simp
  | some n =>
    have hn : n ≠ 0 := h.ne_zero (mem_of_find?_eq_some hfind)
    simp only [Option.getD_some, Option.map_some, if_neg hn, Option.bind_eq_bind, Option.bind_some]
    split_ifs <;> simp

/-! ## Where `..` is asked -/

/-- The directory in which `lookup` asks for `..` of `e`. -/
def asked (s : State) (e : ℕ) : Option ℕ :=
  match (s.inode e).iSb with
  | none => some e
  | some sb => do
    let mounted ← (s.superBlocks sb).sMounted
    let sb ← (s.inode mounted).iSb
    (s.superBlocks sb).sCovered

/-- The two states differ in reference counts only. -/
def SameTree (s s' : State) : Prop :=
  ∀ i, (s'.inode i).iOp = (s.inode i).iOp ∧ (s'.inode i).iMount = (s.inode i).iMount

theorem SameTree.refl (s : State) : SameTree s s := fun _ => ⟨rfl, rfl⟩

theorem sameTree_setInode (s : State) (i : ℕ) (n : BitVec 32) :
    SameTree s (s.setInode i { s.inode i with iCount := n }) := by
  intro j
  show (Function.update s.inode i _ j).iOp = _ ∧ (Function.update s.inode i _ j).iMount = _
  rw [Function.update_apply]
  split_ifs with hj
  · rw [hj]
    exact ⟨rfl, rfl⟩
  · exact ⟨rfl, rfl⟩

theorem bind_eq_ok {α β : Type} {x : M α} {f : α → M β} {b : β} {s s'' : State} :
    (x >>= f) s = .ok b s'' ↔ ∃ a s', x s = .ok a s' ∧ f a s' = .ok b s'' := by
  show EStateM.bind x f s = _ ↔ _
  unfold EStateM.bind
  cases x s <;> simp

theorem bind_of_ok {α β : Type} {x : M α} {a : α} {s s' : State} (h : x s = .ok a s')
    (f : α → M β) : (x >>= f) s = f a s' := by
  show EStateM.bind x f s = _
  rw [EStateM.bind, h]

theorem isDirectory_eq (dir : ℕ) (s : State) : isDirectory dir s =
    if (s.inode dir).iOp = none then .error (.error (-ENOTDIR)) s else .ok () s := by
  show (if (s.inode dir).iOp = none then throw _ else pure () : M Unit) s = _
  split_ifs <;> rfl

/-- `lookup` asks in one directory, and takes a reference of it if it is another one. -/
theorem covered_eq_ok_iff (e : ℕ) (s : State) : ∃ t, SameTree s t ∧
    ∀ a s', covered e s = .ok a s' ↔ asked s e = some a ∧ s' = t := by
  rw [covered, bind_of_ok (rfl : (get : M State) s = .ok s s)]
  unfold asked
  cases (s.inode e).iSb with
  | none => exact ⟨s, .refl s, fun a s' => by simp⟩
  | some sb =>
    cases hm : (s.superBlocks sb).sMounted with
    | none => exact ⟨s, .refl s, fun a s' => by simp [hm]⟩
    | some m =>
      cases hsb : (s.inode m).iSb with
      | none => exact ⟨s, .refl s, fun a s' => by simp [hm, hsb]⟩
      | some sb' =>
        cases ha : (s.superBlocks sb').sCovered with
        | none => exact ⟨s, .refl s, fun a s' => by simp [hm, hsb, ha]⟩
        | some a =>
          refine ⟨_, sameTree_setInode s a ((s.inode a).iCount + 1), fun b s' => ?_⟩
          simp only [hm, hsb, ha]
          rw [bind_of_ok (rfl : atomicInc a s = .ok () _), pure_eq_ok]
          simp [hsb, ha]

theorem cross_eq_ok_iff (x : ℕ) (s : State) : ∃ t, SameTree s t ∧
    ∀ y s', cross x s = .ok y s' ↔ (s.inode x).iMount.getD x = y ∧ s' = t :=
  ⟨_, sameTree_setInode s _ _, fun _ _ => pure_eq_ok⟩

/-! ## Going up -/

section

variable {ops : ℕ → ℕ → List Char → M ℕ} {entries : ℕ → List RamfsDir.Addr} {e d : ℕ}

/-- The directory in which `..` of `e` is asked has these entries, and `ramfs_lookup`. -/
def AsksRamfs (ops : ℕ → ℕ → List Char → M ℕ) (fuel : ℕ) (r : RamfsDir.State)
    (entries : ℕ → List RamfsDir.Addr) (s : State) (e : ℕ) : Prop :=
  ∀ a, asked s e = some a → Entries r a (entries a) ∧ (entries a).length < fuel ∧
    ∀ op, (s.inode a).iOp = some op → ops op = ramfsLookup fuel r

/-- What `..` of `e` is: the root is its own parent, and elsewhere it is the first entry that begins
with two dots where it is asked. -/
def parentOf (r : RamfsDir.State) (entries : ℕ → List RamfsDir.Addr) (s : State) (e : ℕ) :
    Option ℕ :=
  if e = s.root then some e
  else do
    let a ← asked s e
    let _ ← (s.inode a).iOp
    dotsEntry r (entries a)

theorem lookup_root (s : State) : lookup ops s.root dots s = .ok s.root s := by
  rw [lookup, if_pos rfl, bind_of_ok (rfl : (get : M State) s = .ok s s), if_pos rfl]
  rfl

/-- `lookup` answers to `..` with the parent. -/
theorem lookup_dots_iff (h : AsksRamfs ops fuel r entries s e) : ∃ t, SameTree s t ∧
    ∀ x s', lookup ops e dots s = .ok x s' ↔ parentOf r entries s e = some x ∧ s' = t := by
  rw [lookup, if_pos rfl, bind_of_ok (rfl : (get : M State) s = .ok s s)]
  unfold parentOf
  by_cases hroot : e = s.root
  · rw [if_pos hroot, if_pos hroot]
    exact ⟨s, .refl s, fun x s' => by simp⟩
  · rw [if_neg hroot, if_neg hroot]
    obtain ⟨t, hsame, hcov⟩ := covered_eq_ok_iff e s
    refine ⟨t, hsame, fun x s' => ?_⟩
    cases ha : asked s e with
    | none => simp [bind_eq_ok, hcov, ha]
    | some a =>
      obtain ⟨hentries, hfuel, hops⟩ := h a ha
      rw [bind_of_ok ((hcov a t).mpr ⟨ha, rfl⟩), search,
        bind_of_ok (rfl : (get : M State) t = .ok t t), (hsame a).1]
      cases hop : (s.inode a).iOp with
      | none => simp [hop]
      | some op =>
        simp only [hops op hop, Option.bind_eq_bind, Option.bind_some, hop]
        exact ramfsLookup_dots_iff hentries hfuel

/-- What stands behind `p/` does not change how `p` is read. -/
theorem splitOn_behind (base : Option ℕ) (p : List Char) :
    ∃ pre, ∀ x, start base (p ++ '/' :: x) = start base (p ++ ['/']) ∧
      (relative (p ++ '/' :: x)).splitOn '/' = pre ++ x.splitOn '/' := by
  have hsplit : ∀ l x : List Char, (l ++ '/' :: x).splitOn '/' =
      l.splitOn '/' ++ x.splitOn '/' := fun l x => splitOnP_append_cons l x (by decide)
  cases p with
  | nil => exact ⟨[], fun x => ⟨rfl, rfl⟩⟩
  | cons a p =>
    by_cases ha : a = '/'
    · subst ha
      exact ⟨p.splitOn '/', fun x => ⟨rfl, hsplit p x⟩⟩
    · refine ⟨(a :: p).splitOn '/', fun x => ⟨rfl, ?_⟩⟩
      have hrel : relative (a :: p ++ '/' :: x) = a :: p ++ '/' :: x := by
        simp [relative, ha]
      rw [hrel, hsplit]

/-- **Going up again.**  From the directory `d` that the path `p` leads to, and `e` that the name
`c` leads to from there, `p/c/..` leads to `d` if and only if `d` is the parent of `e`, or is
mounted there. -/
theorem parent_resolves_iff {s s₁ s₂ : State} {base : Option ℕ} {p c : List Char}
    (hp : dirNamei ops (p ++ ['/']) base s = .ok (d, [], 0) s₁) (hc : '/' ∉ c) (hne : c ≠ dots)
    (he : enter ops d c s₁ = .ok e s₂) (hram : AsksRamfs ops fuel r entries s₂ e) :
    ((∃ s', dirNamei ops (p ++ '/' :: (c ++ '/' :: (dots ++ ['/']))) base s = .ok (d, [], 0) s') ↔
      (s₂.inode d).iOp ≠ none ∧
        ∃ x, parentOf r entries s₂ e = some x ∧ (s₂.inode x).iMount.getD x = d) ∧
    ∀ s, lookup ops s.root dots s = .ok s.root s := by
  obtain ⟨pre, hpre⟩ := splitOn_behind base p
  obtain ⟨-, hshort⟩ := hpre []
  obtain ⟨hstart, hlong⟩ := hpre (c ++ '/' :: (dots ++ ['/']))
  have hcomps : (c ++ '/' :: (dots ++ ['/'])).splitOn '/' = [c, dots, []] := by
    have hmem : ∀ x ∈ c, (x == '/') = false :=
      fun x hx => beq_false_of_ne fun h => hc (h ▸ hx)
    rw [splitOn, splitOnP_append_cons_of_forall_mem hmem '/' rfl]
    rfl
  have hc' : step ops d c s₁ = .ok e s₂ := by
    rw [step, lookup, if_neg hne]
    exact he
  refine ⟨?_, lookup_root⟩
  -- the walk along `p` ends at `d`
  rw [dirNamei_eq_walk, hshort, bind_eq_ok] at hp
  obtain ⟨b, t, hb, hp⟩ := hp
  rw [walk, dropLast_append_of_ne_nil (by simp), splitOn_nil, dropLast_singleton, append_nil,
    bind_eq_ok] at hp
  obtain ⟨d', t', hd, hp⟩ := hp
  rw [bind_eq_ok] at hp
  obtain ⟨_, t'', hdir, hp⟩ := hp
  obtain ⟨rfl, rfl⟩ : d' = d ∧ t'' = s₁ := by simpa [pure, EStateM.pure] using hp
  rw [isDirectory_eq] at hdir
  split_ifs at hdir
  cases hdir
  -- from there `c` leads to `e`, and `..` where the file system says
  rw [dirNamei_eq_walk, hstart, hlong, hcomps, bind_of_ok hb, walk,
    dropLast_append_of_ne_nil (by simp), foldlM_append, bind_assoc, bind_of_ok hd]
  simp only [dropLast, foldlM_cons, foldlM_nil, bind_assoc, pure_bind]
  rw [bind_of_ok hc']
  obtain ⟨t, hsame, hup⟩ := lookup_dots_iff hram
  simp only [step, bind_assoc, bind_eq_ok, hup, isDirectory_eq, pure_eq_ok, Prod.mk.injEq]
  constructor
  · rintro ⟨-, x, _, ⟨hx, rfl⟩, y, t', hy, _, _, hdir, ⟨rfl, -⟩, -⟩
    obtain ⟨_, hsame', hcross⟩ := cross_eq_ok_iff x _
    obtain ⟨hmount, rfl⟩ := (hcross _ _).mp hy
    split_ifs at hdir with hnone
    rw [(hsame' _).1, (hsame _).1] at hnone
    rw [(hsame _).2] at hmount
    exact ⟨hnone, x, hx, hmount⟩
  · rintro ⟨hop, x, hx, hmount⟩
    obtain ⟨t', hsame', hcross⟩ := cross_eq_ok_iff x t
    rw [← (hsame _).1, ← (hsame' _).1] at hop
    rw [← (hsame _).2] at hmount
    exact ⟨t', x, t, ⟨hx, rfl⟩, _, t', (hcross _ _).mpr ⟨hmount, rfl⟩, (), t', if_neg hop,
      ⟨rfl, by simp, by simp⟩, rfl⟩

end

/-- A root with the directory `a`, and in it `b`. -/
def tree : RamfsDir.State :=
  let mkdir s dir name k :=
    ((RamfsDir.ramfsMkdir 9 s dir name 0 (RamfsDir.allocsAt k)).map Prod.fst).getD s
  mkdir (mkdir RamfsDir.emptyDir 4 [0x61] 0) 0x1040 [0x62] 1

/-- The same with `b` renamed, and turned into the root. -/
def treeUp : RamfsDir.State :=
  tree.modify 0x1100 fun c => { c.memcpyName [0x2e, 0x2e] with inode := 4 }

def atRoot : State := { fresh with root := 4, pwd := 4 }

/-- A directory with an entry `..` that is its parent. -/
theorem parent_resolves_iff_entry : ∃ s', dirNamei (fun _ => ramfsLookup 9 treeUp)
    ['/', 'a', '/', '.', '.', '/'] none atRoot = .ok (4, [], 0) s' := by
  have hentries : Entries treeUp 0x1040 [0x1100] := by
    rw [Entries, if_neg (by decide)]
    exact ⟨by decide, by decide, rfl⟩
  -- `a` has no super block, so `..` is asked there
  have hasks : ∀ s : State, (s.inode 0x1040).iSb = none →
      AsksRamfs (fun _ => ramfsLookup 9 treeUp) 9 treeUp (fun _ => [0x1100]) s 0x1040 := by
    intro s hsb a ha
    rw [asked, hsb] at ha
    cases ha
    exact ⟨hentries, by decide, fun _ _ => rfl⟩
  refine ((parent_resolves_iff (p := []) (c := ['a']) rfl (by decide) (by decide) rfl
    (hasks _ rfl)).1).mpr ⟨nofun, 4, rfl, rfl⟩

/-- **`/a/b/..` is not `/a`.** -/
theorem parent_unknown : ∃ s₁ s₂,
    dirNamei (fun _ => ramfsLookup 9 tree) ['/', 'a', '/'] none atRoot = .ok (0x1040, [], 0) s₁ ∧
    dirNamei (fun _ => ramfsLookup 9 tree) ['/', 'a', '/', 'b', '/', '.', '.', '/'] none atRoot =
      .error (.error (-1)) s₂ :=
  ⟨_, _, rfl, rfl⟩

end Vfs

end Yap
