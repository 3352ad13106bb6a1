/-
# The socket table (`net/socket.c`, `net/inet/inet_socket.c`)

A socket is an entry of the table `sockets`, reached through a slot of `FILP` and a descriptor of
the task.  `sys_socket` and `sys_accept` take one entry of each, in this order, and then the memory
of the protocol; every step can fail.

What is undone after a failure differs.  `sock_free_fd` gives the slot and the descriptor back, but
`sock_free` is empty, so the entry of `sockets` stays taken.  `failures_clean_iff` says which calls
leave no trace when they fail.

The tables of files and tasks are those of `FileTable`.  `filpIndices` records with which index
`current->filp` has been used.
-/
import Yap.FileTable

namespace Yap

namespace Sockets

open List Option

open FileTable (nrOpen nrFilep File FileOps Inode Task getEmptyFilp emptyFd)

/-- `MAX_SOCKETS`. -/
def maxSockets : ℕ := 128

/-- `MAX_PROTO`. -/
def maxProto : ℕ := 16

/-- `socket_state`. -/
inductive SocketState : Type where
  | free | unconnected | connecting | connected | disconnecting
  deriving DecidableEq, Repr

/-- `struct socket`; `data` and `inode` are addresses, `ops` is an index into `family_ops`. -/
structure Socket where
  fd : ℤ
  type : ℤ
  state : SocketState
  flags : BitVec 32
  ops : Option ℕ
  data : Option ℕ
  inode : Option ℕ
  deriving DecidableEq, Repr

structure State where
  tables : FileTable.State
  /-- the task that is running -/
  cur : ℕ
  /-- the address in `f_inode` of each slot -/
  ino : ℕ → Option ℕ
  sockets : ℕ → Socket
  /-- `family_ops[i]->family` -/
  familyOps : ℕ → Option ℤ
  /-- `inet_protos[i]->proto` -/
  inetProtos : List (Option ℤ)
  /-- the indices with which `current->filp` has been used -/
  filpIndices : List ℕ

/-- What a call gets from the rest of the kernel: the inode of `get_empty_inode`, the memory of
`alloc_isocket`, and the `errno` of an accepted connection, `none` if no client ever connects. -/
structure Answers where
  inode : Option ℕ
  isk : Option ℕ
  errno : Option ℤ

/-! ## Descriptors -/

/-- What a word at `current->filp[fd]` points to. -/
inductive FilpWord : Type where
  | null : FilpWord
  | file (f : ℕ) : FilpWord
  | inode : FilpWord
  deriving DecidableEq, Repr

def FilpWord.ofFile : Option ℕ → FilpWord
  | none => .null
  | some f => .file f

/-- The value of `current->filp[fd]`.  Behind the last descriptor lies `pwd`. -/
def filpWord (s : State) (fd : ℕ) : FilpWord :=
  if fd < nrOpen then .ofFile ((s.tables.tasks s.cur).filp fd)
  else
    match (s.tables.tasks s.cur).pwd with
    | .dir => .inode
    | .file f => .ofFile f

/-- `current->filp[fd]`. -/
def readFilp (s : State) (fd : ℕ) : FilpWord × State :=
  (filpWord s fd, { s with filpIndices := s.filpIndices ++ [fd] })

/-- `current->filp[fd] = f`. -/
def writeFilp (s : State) (fd : ℕ) (f : Option ℕ) : State :=
  { s with tables := s.tables.setFilp s.cur fd f, filpIndices := s.filpIndices ++ [fd] }

/-- Writes to the slot `f`; `ino` is the address for `f_inode`. -/
def State.setFile (s : State) (f : ℕ) (file : File) (ino : Option ℕ) : State :=
  { s with tables := s.tables.setFile f file, ino := Function.update s.ino f ino }

def State.setSocket (s : State) (k : ℕ) (sock : Socket) : State :=
  { s with sockets := Function.update s.sockets k sock }

/-- `for (; fd < NR_OPEN; fd++) if (!current->filp[fd]) break;`, with `n` descriptors to go. -/
def fdLoop : ℕ → ℕ → State → ℕ × State
  | 0, fd, s => (fd, s)
  | n + 1, fd, s =>
    let r := readFilp s fd
    if r.1 = .null then (fd, r.2) else fdLoop n (fd + 1) r.2

/-! ## Taking entries -/

/-- `sock_alloc()`, where `get_empty_inode` returns `inode`. -/
def sockAlloc (s : State) (inode : Option ℕ) : Option ℕ × State :=
  match (range maxSockets).find? fun k => (s.sockets k).state = .free with
  | none => (none, s)
  | some k =>
    let sock := { s.sockets k with
      state := .unconnected, flags := 0, ops := none, data := none, inode := inode }
    match inode with
    | none => (none, s.setSocket k { sock with state := .free })
    | some _ => (some k, s.setSocket k sock)

/-- The inode of a socket: `i_op` is null. -/
def socketInode : Inode := ⟨none, 0⟩

/-- `&socket_file_ops`, which has no `open`. -/
def socketFileOps : FileOps := .own ⟨none⟩

/-- `sock_alloc_fd(sock)`. -/
def sockAllocFd (s : State) (k : ℕ) : ℤ × State :=
  let inode := (s.sockets k).inode
  match getEmptyFilp s.tables with
  | none => (-EAGAIN, s)
  | some f =>
    let r := fdLoop nrOpen 0 s
    if r.1 = nrOpen then
      (-EAGAIN, r.2.setFile f { r.2.tables.FILP f with fCount := 0 } (r.2.ino f))
    else
      let s := writeFilp r.2 r.1 (some f)
      (r.1, s.setFile f
        { fMode := 3, fPos := 0, fFlags := 0, fCount := 1
          fInode := inode.map fun _ => socketInode, fOp := some socketFileOps } inode)

/-- After `memset(file, 0, sizeof (struct file))`. -/
def zeroFile : File := ⟨0, 0, 0, 0, none, none⟩

/-- `sock_free_fd(sock)`. -/
def sockFreeFd (s : State) (k : ℕ) : State :=
  let fd := (s.sockets k).fd.toNat
  let r := readFilp s fd
  let s := match r.1 with
    | .file f => r.2.setFile f zeroFile none
    -- no slot of `FILP`; the descriptor is one that `sock_alloc_fd` has found, so this is dead
    | .null | .inode => r.2
  writeFilp s fd none

/-- `inet_get_opt(type)`: whether there is such a protocol.  For a null entry it reads the word at
address 0, which is an instruction of the kernel and no type. -/
def inetGetOpt : List (Option ℤ) → ℤ → Bool
  | [], _ => false
  | none :: protos, type => inetGetOpt protos type
  | some proto :: protos, type => if proto = type then true else inetGetOpt protos type

/-- `inet_socket(sock, protocol)`. -/
def inetSocket (s : State) (k : ℕ) (isk : Option ℕ) : ℤ × State :=
  match isk with
  | none => (-EAGAIN, s)
  | some _ =>
    let s := s.setSocket k { s.sockets k with data := isk }
    -- without a protocol `free_isock(isk)`
    if inetGetOpt s.inetProtos (s.sockets k).type then (0, s) else (-EINVAL, s)

/-- `SOCK_STREAM`, `SOCK_DGRAM`, `SOCK_SEQPACKET`, `SOCK_RAW` and `SOCK_PACKET`. -/
def sockTypes : List ℤ := [1, 2, 5, 3, 10]

/-- The loop of `sys_socket` over the families. -/
def findFamily (s : State) (family : ℤ) : Option ℕ :=
  (range maxProto).find? fun i => s.familyOps i = some family

/-- `sys_socket(family, type, protocol)`. -/
def sysSocket (s : State) (family type protocol : ℤ) (a : Answers) : ℤ × State :=
  match findFamily s family with
  | none => (-EINVAL, s)
  | some i =>
    if type ∉ sockTypes ∨ protocol < 0 then (-EINVAL, s)
    else
      match sockAlloc s a.inode with
      | (none, s) => (-EAGAIN, s)
      | (some k, s) =>
        let s := s.setSocket k { s.sockets k with type := type, ops := some i }
        let r := sockAllocFd s k
        -- `sock_free(sock)` does nothing
        if r.1 < 0 then (-EINVAL, r.2)
        else
          let s := r.2.setSocket k { r.2.sockets k with fd := r.1 }
          let ret := inetSocket s k a.isk
          if ret.1 < 0 then (ret.1, sockFreeFd ret.2 k) else (r.1, ret.2)

/-! ## Accepting -/

/-- `socki_lookup(inode)`. -/
def sockiLookup (s : State) (inode : Option ℕ) : Option ℕ :=
  (range maxSockets).find? fun k =>
    (s.sockets k).state ≠ .free ∧ (s.sockets k).inode = inode

/-- `sockfd_lookup(fd, pfile)`. -/
def sockfdLookup (s : State) (fd : BitVec 32) : Option ℕ × State :=
  if fd.toInt < 0 ∨ fd.toInt ≥ nrOpen then (none, s)
  else
    let r := readFilp s fd.toNat
    match r.1 with
    | .file f => (sockiLookup s (s.ino f), r.2)
    | .null | .inode => (none, r.2)

/-- `inet_accept(sock, newsock, addrlen)`; the result is `none` if the call does not return. -/
def inetAccept (s : State) (k new : ℕ) (a : Answers) : Option ℤ × State :=
  if (s.sockets k).data = none then (some (-EBADF), s)
  else
    match a.isk with
    | none => (some (-EBADF), s)
    -- sleeps until the connection is `ESTABLISHED`
    | some _ => (a.errno, s.setSocket new { s.sockets new with data := a.isk })

/-- The part of `sys_accept` that follows the search for the listening socket `k`. -/
def acceptOn (s : State) (k : ℕ) (a : Answers) : Option ℤ × State :=
  if (s.sockets k).state ≠ .unconnected then (some (-EINVAL), s)
  -- `SO_ACCEPTCON`
  else if (s.sockets k).flags.getLsbD 16 = false then (some (-EINVAL), s)
  else
    match sockAlloc s a.inode with
    | (none, s) => (some (-EAGAIN), s)
    | (some new, s) =>
      let s := s.setSocket new { s.sockets new with
        type := (s.sockets k).type, ops := (s.sockets k).ops, data := (s.sockets k).data }
      match inetAccept s k new a with
      | (none, s) => (none, s)
      | (some ret, s) =>
        if ret < 0 then (some ret, s)
        else
          let r := sockAllocFd s new
          if r.1 < 0 then (some (-EINVAL), r.2) else (some r.1, r.2)

/-- `sys_accept(fd, upeer_sockaddr, upeer_addrlen)`. -/
def sysAccept (s : State) (fd : BitVec 32) (a : Answers) : Option ℤ × State :=
  if fd.toInt < 0 ∨ fd.toInt ≥ nrOpen then (some (-EBADF), s)
  else
    let r := readFilp s fd.toNat
    if r.1 = .null then (some (-EBADF), r.2)
    else
      match sockfdLookup r.2 fd with
      | (none, s) => (some (-ENOTSOCK), s)
      | (some k, s) => acceptOn s k a

/-! ## What a failure leaves behind -/

/-- The free slots and the free descriptors are the same. -/
structure FilesClean (s s' : State) : Prop where
  files : ∀ f < nrFilep, (s'.tables.FILP f).fOp = none ↔ (s.tables.FILP f).fOp = none
  fds : ∀ fd < nrOpen, (s'.tables.tasks s.cur).filp fd = none ↔
    (s.tables.tasks s.cur).filp fd = none

/-- The free entries of the three tables are the same. -/
structure Clean (s s' : State) : Prop extends FilesClean s s' where
  sockets : ∀ k < maxSockets, (s'.sockets k).state = .free ↔ (s.sockets k).state = .free

/-- A call by the task `cur`. -/
inductive Call : Type where
  | socket (cur : ℕ) (family type protocol : ℤ) (a : Answers) : Call
  | accept (cur : ℕ) (fd : BitVec 32) (a : Answers) : Call

namespace Call

def cur : Call → ℕ
  | socket cur _ _ _ _ => cur
  | accept cur _ _ => cur

/-- The result and the state after the call. -/
def run (s : State) (c : Call) : Option ℤ × State :=
  let s := { s with cur := c.cur }
  match c with
  | socket _ family type protocol a =>
    let r := sysSocket s family type protocol a
    (some r.1, r.2)
  | accept _ fd a => sysAccept s fd a

/-- If the call fails, the free entries are the same as before. -/
def FailsCleanly (s : State) (c : Call) : Prop :=
  ∀ r, (c.run s).1 = some r → r < 0 → Clean { s with cur := c.cur } (c.run s).2

/-- A slot of `FILP` and a descriptor of the task are free. -/
def HasFile (s : State) (cur : ℕ) : Prop :=
  getEmptyFilp s.tables ≠ none ∧ emptyFd (s.tables.tasks cur) < nrOpen

/-- The call gets an entry of `sockets`. -/
def GetsSocket (s : State) (a : Answers) : Prop :=
  (∃ k < maxSockets, (s.sockets k).state = .free) ∧ a.inode ≠ none

/-- The descriptor is that of a listening socket `k`. -/
def ListensOn (s : State) (cur : ℕ) (fd : BitVec 32) (k : ℕ) : Prop :=
  0 ≤ fd.toInt ∧ fd.toInt < nrOpen ∧
    (∃ f, (s.tables.tasks cur).filp fd.toNat = some f ∧ sockiLookup s (s.ino f) = some k) ∧
    (s.sockets k).state = .unconnected ∧ (s.sockets k).flags.getLsbD 16 = true

/-- `accept` has what `inet_accept` needs, and a client that connects leaves no error and finds a
slot and a descriptor. -/
def CanAccept (s : State) (cur k : ℕ) (a : Answers) : Prop :=
  (s.sockets k).data ≠ none ∧ a.isk ≠ none ∧ ∀ e ∈ a.errno, 0 ≤ e ∧ HasFile s cur

/-- A call that gets an entry of `sockets` gets all the rest, too: a slot, a descriptor, and
what the protocol needs. -/
def Meets (s : State) : Call → Prop
  | socket cur family type protocol a =>
    findFamily s family ≠ none → type ∈ sockTypes → 0 ≤ protocol → GetsSocket s a →
      HasFile s cur ∧ a.isk ≠ none ∧ inetGetOpt s.inetProtos type = true
  | accept cur fd a => ∀ k, ListensOn s cur fd k → GetsSocket s a → CanAccept s cur k a

end Call

/-- Every call of the run that fails fails cleanly. -/
def FailuresClean : List Call → State → Prop
  | [], _ => True
  | c :: cs, s => c.FailsCleanly s ∧ FailuresClean cs (c.run s).2

/-- Every call of the run meets the condition in the state before it. -/
def AllMeet : List Call → State → Prop
  | [], _ => True
  | c :: cs, s => c.Meets s ∧ AllMeet cs (c.run s).2

section

variable {s s' : State} {k f : ℕ} {a : Answers}

theorem filesClean_of_tables (h : s'.tables = s.tables) : FilesClean s s' :=
  ⟨fun f _ => by rw [h], fun fd _ => by rw [h]⟩

theorem FilesClean.of_eq {s₁ : State} (h : FilesClean s₁ s') (htables : s₁.tables = s.tables)
    (hcur : s₁.cur = s.cur) : FilesClean s s' := by
  obtain ⟨hfiles, hfds⟩ := h
  rw [htables] at hfiles hfds
  rw [hcur] at hfds
  exact ⟨hfiles, hfds⟩

theorem Clean.refl (s : State) : Clean s s := ⟨filesClean_of_tables rfl, fun _ _ => Iff.rfl⟩

theorem fdLoop_succ (n fd : ℕ) (s : State) : fdLoop (n + 1) fd s =
    if filpWord s fd = .null then (fd, (readFilp s fd).2)
    else fdLoop n (fd + 1) (readFilp s fd).2 := rfl

/-- The search for a descriptor changes nothing but the record. -/
theorem fdLoop_snd (n fd : ℕ) (s : State) : ∃ l : List ℕ,
    (∀ i ∈ l, i < fd + n) ∧ (fdLoop n fd s).2 = { s with filpIndices := s.filpIndices ++ l } := by
  induction n generalizing fd s with
  | zero => exact ⟨[], by simp, by simp [fdLoop]⟩
  | succ n ih =>
    rw [fdLoop_succ]
    split_ifs
    · exact ⟨[fd], by simp, rfl⟩
    · obtain ⟨l, hl, heq⟩ := ih (fd + 1) (readFilp s fd).2
      refine ⟨fd :: l, fun i hi => ?_, ?_⟩
      · rcases mem_cons.mp hi with rfl | hi
        · omega
        · have := hl i hi
          omega
      · rw [heq]
        simp [readFilp]

theorem fdLoop_fst (n fd : ℕ) (s : State) : (fdLoop n fd s).1 =
    ((List.range' fd n).find? fun i => filpWord s i = .null).getD (fd + n) := by
  induction n generalizing fd s with
  | zero => simp [fdLoop]
  | succ n ih =>
    rw [fdLoop_succ, range'_succ]
    by_cases hnull : filpWord s fd = .null
    · rw [if_pos hnull, find?_cons_of_pos (by simpa using hnull), getD_some]
    · rw [if_neg hnull, find?_cons_of_neg (by simpa using hnull), ih]
      -- the record is not read
      have hsame : (fun i => decide (filpWord (readFilp s fd).2 i = .null)) =
          fun i => decide (filpWord s i = .null) := rfl
      rw [hsame, show fd + 1 + n = fd + (n + 1) by omega]

theorem filpWord_eq_null_iff {fd : ℕ} (hfd : fd < nrOpen) :
    filpWord s fd = .null ↔ (s.tables.tasks s.cur).filp fd = none := by
  rw [filpWord, if_pos hfd]
  cases (s.tables.tasks s.cur).filp fd <;> simp [FilpWord.ofFile]

/-- The loop is that of `FileTable`. -/
theorem fdLoop_eq_emptyFd (s : State) :
    (fdLoop nrOpen 0 s).1 = emptyFd (s.tables.tasks s.cur) := by
  rw [fdLoop_fst, emptyFd, ← range_eq_range', Nat.zero_add]
  congr 1
  apply find?_congr
  intro fd hfd
  rw [decide_eq_decide]
  exact filpWord_eq_null_iff (mem_range.mp hfd)

theorem emptyFd_le (t : Task) : emptyFd t ≤ nrOpen := by
  rcases FileTable.emptyFd_cases t with h | h <;> omega

/-- A call that finds no entry leaves none behind. -/
theorem sockAlloc_of_not_gets (h : ¬ Call.GetsSocket s a) :
    ∃ s', sockAlloc s a.inode = (none, s') ∧ Clean s s' := by
  unfold sockAlloc
  cases hfind : (range maxSockets).find? fun k => (s.sockets k).state = .free with
  | none => exact ⟨s, rfl, Clean.refl s⟩
  | some k =>
    have hk : k < maxSockets := mem_range.mp (mem_of_find?_eq_some hfind)
    have hfree : (s.sockets k).state = .free := by simpa using find?_some hfind
    have hnone : a.inode = none := by
      by_contra hne
      exact h ⟨⟨k, hk, hfree⟩, hne⟩
    simp only [hnone]
    refine ⟨_, rfl, filesClean_of_tables rfl, fun j _ => ?_⟩
    by_cases hj : j = k
    · subst hj
      simp [State.setSocket, hfree]
    · simp [State.setSocket, hj]

/-- The entry that a call takes was free. -/
theorem sockAlloc_of_gets (h : Call.GetsSocket s a) : ∃ k sock, k < maxSockets ∧
    (s.sockets k).state = .free ∧ sock.state = .unconnected ∧
      sockAlloc s a.inode = (some k, s.setSocket k sock) := by
  obtain ⟨⟨k0, hk0, hfree0⟩, hinode⟩ := h
  obtain ⟨addr, haddr⟩ := ne_none_iff_exists'.mp hinode
  unfold sockAlloc
  cases hfind : (range maxSockets).find? fun k => (s.sockets k).state = .free with
  | none =>
    have := find?_eq_none.mp hfind k0 (mem_range.mpr hk0)
    exact absurd hfree0 (by simpa using this)
  | some k =>
    have hk : k < maxSockets := mem_range.mp (mem_of_find?_eq_some hfind)
    have hfree : (s.sockets k).state = .free := by simpa using find?_some hfind
    simp only [haddr]
    exact ⟨k, _, hk, hfree, rfl, rfl⟩

section

variable (s : State) (k : ℕ)

/-- All that `sock_alloc_fd` can do, where `fd` is the descriptor that the loop has found. -/
theorem sockAllocFd_cases : ∃ l,
    let s₀ := { s with filpIndices := s.filpIndices ++ l }
    (fdLoop nrOpen 0 s).2 = s₀ ∧
    let fd := emptyFd (s.tables.tasks s.cur)
    (¬ Call.HasFile s s.cur ∧ ∃ s', sockAllocFd s k = (-EAGAIN, s') ∧
      (s' = s ∨ ∃ f, s' = s₀.setFile f { s₀.tables.FILP f with fCount := 0 } (s₀.ino f))) ∨
    Call.HasFile s s.cur ∧ ∃ f file, getEmptyFilp s.tables = some f ∧
      sockAllocFd s k = ((fd : ℤ), (writeFilp s₀ fd (some f)).setFile f file (s.sockets k).inode) := by
  obtain ⟨l, -, hloop⟩ := fdLoop_snd nrOpen 0 s
  have hle := emptyFd_le (s.tables.tasks s.cur)
  refine ⟨l, hloop, ?_⟩
  rw [← hloop]
  unfold sockAllocFd Call.HasFile
  cases hfilp : getEmptyFilp s.tables with
  | none => exact .inl ⟨fun h => h.1 rfl, s, rfl, .inl rfl⟩
  | some f =>
    simp only [fdLoop_eq_emptyFd]
    by_cases hfull : emptyFd (s.tables.tasks s.cur) = nrOpen
    · rw [if_pos hfull]
      exact .inl ⟨fun h => h.2.ne hfull, _, rfl, .inr ⟨f, rfl⟩⟩
    · rw [if_neg hfull]
      exact .inr ⟨⟨some_ne_none f, by omega⟩, f, _, rfl, rfl⟩

/-- `sock_alloc_fd` fails exactly if there is no slot or no descriptor; it does not touch the
sockets. -/
theorem sockAllocFd_spec :
    ((sockAllocFd s k).1 < 0 ↔ ¬ Call.HasFile s s.cur) ∧
      (sockAllocFd s k).2.sockets = s.sockets ∧ (sockAllocFd s k).2.cur = s.cur ∧
      (sockAllocFd s k).2.inetProtos = s.inetProtos := by
  obtain ⟨l, -, hcases⟩ := sockAllocFd_cases s k
  rcases hcases with ⟨hnot, s', heq, rfl | ⟨f, rfl⟩⟩ | ⟨hfile, f, file, -, heq⟩
  · simp [heq, hnot, EAGAIN]
  · simp [heq, hnot, EAGAIN, State.setFile]
  · simp [heq, hfile, State.setFile, writeFilp]

theorem sockets_sockFreeFd : (sockFreeFd s k).sockets = s.sockets := by
  unfold sockFreeFd
  simp only [readFilp, writeFilp]
  cases filpWord s (s.sockets k).fd.toNat <;> rfl

/-- What `inet_socket` returns, and that the socket keeps its state. -/
theorem inetSocket_spec (isk : Option ℕ) :
    ((inetSocket s k isk).1 < 0 ↔
      isk = none ∨ inetGetOpt s.inetProtos (s.sockets k).type = false) ∧
    ((inetSocket s k isk).2.sockets k).state = (s.sockets k).state := by
  unfold inetSocket
  cases isk with
  | none => simp [EAGAIN]
  | some addr =>
    simp only [State.setSocket, Function.update_self]
    cases inetGetOpt s.inetProtos (s.sockets k).type <;> simp [EINVAL]

/-! ### Slots and descriptors

The slot and the descriptor are given back on every path, so `sockets` is the only table that
failures use up. -/

/-- A failing `sock_alloc_fd` has taken nothing. -/
theorem filesClean_sockAllocFd (h : (sockAllocFd s k).1 < 0) :
    FilesClean s (sockAllocFd s k).2 := by
  obtain ⟨l, -, hcases⟩ := sockAllocFd_cases s k
  rcases hcases with ⟨-, s', heq, rfl | ⟨f, rfl⟩⟩ | ⟨-, f, file, -, heq⟩
  · rw [heq]
    exact filesClean_of_tables rfl
  · rw [heq]
    refine ⟨fun g _ => ?_, fun _ _ => Iff.rfl⟩
    by_cases hg : g = f
    · subst hg
      simp [State.setFile, FileTable.State.setFile]
    · simp [State.setFile, FileTable.State.setFile, hg]
  · rw [heq] at h
    exact absurd h (by simp)

end

/-- `sock_free_fd` gives back what `sock_alloc_fd` has taken. -/
theorem filesClean_sockFreeFd {s₂ : State} (hok : ¬ (sockAllocFd s k).1 < 0)
    (htables : s₂.tables = (sockAllocFd s k).2.tables) (hcur : s₂.cur = s.cur)
    (hfd : (s₂.sockets k).fd = (sockAllocFd s k).1) : FilesClean s (sockFreeFd s₂ k) := by
  obtain ⟨l, -, hcases⟩ := sockAllocFd_cases s k
  rcases hcases with ⟨-, s', heq, -⟩ | ⟨⟨-, hlt⟩, f, file, hfilp, heq⟩
  · rw [heq] at hok
    exact absurd (show -EAGAIN < 0 by decide) hok
  · have hfree : (s.tables.FILP f).fOp = none := (FileTable.getEmptyFilp_eq_some hfilp).2
    have hempty := FileTable.filp_emptyFd _ hlt
    rw [heq] at htables hfd
    generalize emptyFd (s.tables.tasks s.cur) = fd at *
    simp only [State.setFile, FileTable.State.setFile, writeFilp, FileTable.State.setFilp, hlt,
      if_true] at htables
    have hword : filpWord s₂ fd = .file f := by
      rw [filpWord, if_pos hlt, htables, hcur]
      simp [FilpWord.ofFile]
    have hresult : (sockFreeFd s₂ k).tables =
        (s₂.tables.setFile f zeroFile).setFilp s.cur fd none := by
      unfold sockFreeFd
      simp only [hfd, Int.toNat_natCast, readFilp, hword, writeFilp, State.setFile, hcur]
    simp only [htables, FileTable.State.setFile, FileTable.State.setFilp, hlt, if_true] at hresult
    constructor
    · intro g _
      rw [hresult]
      by_cases hg : g = f
      · simp [hg, hfree, zeroFile]
      · simp [hg]
    · intro d _
      rw [hresult]
      by_cases hd : d = fd
      · simp [hd, hempty]
      · simp [hd]

theorem inetSocket_frame (s : State) (k : ℕ) (isk : Option ℕ) :
    (inetSocket s k isk).2.tables = s.tables ∧ (inetSocket s k isk).2.cur = s.cur ∧
      ((inetSocket s k isk).2.sockets k).fd = (s.sockets k).fd := by
  unfold inetSocket
  cases isk with
  | none => exact ⟨rfl, rfl, rfl⟩
  | some addr =>
    simp only [State.setSocket, Function.update_self]
    cases inetGetOpt s.inetProtos (s.sockets k).type <;> simp

/-! ### The calls -/

/-- What a call leaves behind, from `s` to `s'`, if it `gets` an entry of `sockets`, and if it gets
all the rest. -/
structure Outcome (s s' : State) (fails gets rest : Prop) : Prop where
  files : fails → FilesClean s s'
  early : ¬ gets → fails ∧ Clean s s'
  taken : gets → ¬ rest → fails ∧
    ∃ k < maxSockets, (s.sockets k).state = .free ∧ (s'.sockets k).state ≠ .free
  kept : gets → rest → ¬ fails

namespace Outcome

variable {fails gets rest : Prop}

theorem of_not_gets (hgets : ¬ gets) (hfails : fails) (hclean : Clean s s') :
    Outcome s s' fails gets rest :=
  ⟨fun _ => hclean.toFilesClean, fun _ => ⟨hfails, hclean⟩, fun h => absurd h hgets,
    fun h => absurd h hgets⟩

theorem of_taken (hgets : gets) (hrest : ¬ rest) (hfails : fails) (hfiles : FilesClean s s')
    (hk : k < maxSockets) (hfree : (s.sockets k).state = .free)
    (htaken : (s'.sockets k).state = .unconnected) : Outcome s s' fails gets rest := by
  refine ⟨fun _ => hfiles, fun h => absurd hgets h, fun _ _ => ⟨hfails, k, hk, hfree, ?_⟩,
    fun _ h => absurd h hrest⟩
  rw [htaken]
  decide

theorem of_kept (hgets : gets) (hrest : rest) (hfails : ¬ fails) : Outcome s s' fails gets rest :=
  ⟨fun h => absurd h hfails, fun h => absurd hgets h, fun _ h => absurd hrest h,
    fun _ _ => hfails⟩

/-- Once an entry is taken, only a call that gets all the rest does not leave it behind. -/
theorem clean_iff (h : Outcome s s' fails gets rest) : (fails → Clean s s') ↔ (gets → rest) := by
  constructor
  · intro hclean hgets
    by_contra hrest
    obtain ⟨hfails, k, hk, hfree, htaken⟩ := h.taken hgets hrest
    exact htaken (((hclean hfails).sockets k hk).mpr hfree)
  · intro hgets hfails
    by_cases hg : gets
    · exact absurd hfails (h.kept hg (hgets hg))
    · exact (h.early hg).2

/-- A call that does not get all it needs fails. -/
theorem fails_of_not_rest (h : Outcome s s' fails gets rest) (hrest : ¬ rest) : fails := by
  by_cases hg : gets
  · exact (h.taken hg hrest).1
  · exact (h.early hg).1

end Outcome

section

variable (s : State)

/-- `sys_socket` gets an entry of `sockets`. -/
def SocketGets (family type protocol : ℤ) (a : Answers) : Prop :=
  findFamily s family ≠ none ∧ type ∈ sockTypes ∧ 0 ≤ protocol ∧ Call.GetsSocket s a

theorem sysSocket_outcome (family type protocol : ℤ) (a : Answers) :
    Outcome s (sysSocket s family type protocol a).2
      ((sysSocket s family type protocol a).1 < 0) (SocketGets s family type protocol a)
      (Call.HasFile s s.cur ∧ a.isk ≠ none ∧ inetGetOpt s.inetProtos type = true) := by
  have hinval : -EINVAL < 0 := by decide
  cases hfam : findFamily s family with
  | none =>
    simp only [sysSocket, hfam]
    exact .of_not_gets (fun h => h.1 hfam) hinval (Clean.refl s)
  | some i =>
    by_cases hargs : type ∉ sockTypes ∨ protocol < 0
    · simp only [sysSocket, hfam, hargs, if_true]
      refine .of_not_gets (fun h => ?_) hinval (Clean.refl s)
      exact hargs.elim (fun hnot => hnot h.2.1) fun hneg => not_le.mpr hneg h.2.2.1
    · simp only [sysSocket, hfam, hargs, if_false]
      obtain ⟨htype, hproto⟩ := not_or.mp hargs
      by_cases hgets : Call.GetsSocket s a
      · have hall : SocketGets s family type protocol a :=
          ⟨by rw [hfam]; exact some_ne_none i, not_not.mp htype, not_lt.mp hproto, hgets⟩
        obtain ⟨k, sock, hk, hfree, hsock, halloc⟩ := sockAlloc_of_gets hgets
        rw [halloc]
        dsimp only
        set s1 := (s.setSocket k sock).setSocket k
          { (s.setSocket k sock).sockets k with type := type, ops := some i } with hs1
        have hstate1 : (s1.sockets k).state = .unconnected := by
          simp [hs1, State.setSocket, hsock]
        have htype1 : (s1.sockets k).type = type := by simp [hs1, State.setSocket]
        have hfile1 : Call.HasFile s1 s1.cur ↔ Call.HasFile s s.cur := Iff.rfl
        have htables1 : s1.tables = s.tables := rfl
        have hcur1 : s1.cur = s.cur := rfl
        have hprotos1 : s1.inetProtos = s.inetProtos := rfl
        obtain ⟨hneg, hsockets, hcurFd, hprotos⟩ := sockAllocFd_spec s1 k
        by_cases hlt : (sockAllocFd s1 k).1 < 0
        · rw [if_pos hlt]
          refine .of_taken hall (fun h => hneg.mp hlt (hfile1.mpr h.1)) hinval
            ((filesClean_sockAllocFd s1 k hlt).of_eq htables1 hcur1) hk hfree ?_
          rw [hsockets, hstate1]
        · rw [if_neg hlt]
          have hyes : Call.HasFile s s.cur := hfile1.mp (not_not.mp fun h => hlt (hneg.mpr h))
          set s2 := (sockAllocFd s1 k).2.setSocket k
            { (sockAllocFd s1 k).2.sockets k with fd := (sockAllocFd s1 k).1 } with hs2
          have hstate2 : (s2.sockets k).state = .unconnected := by
            simp [hs2, State.setSocket, hsockets, hstate1]
          have htype2 : (s2.sockets k).type = type := by
            simp [hs2, State.setSocket, hsockets, htype1]
          have hfd2 : (s2.sockets k).fd = (sockAllocFd s1 k).1 := by
            simp [hs2, State.setSocket]
          have htables2 : s2.tables = (sockAllocFd s1 k).2.tables := rfl
          have hcur2 : s2.cur = s1.cur := hcurFd
          have hprotos2 : s2.inetProtos = s.inetProtos := hprotos.trans hprotos1
          obtain ⟨hret, hkeep⟩ := inetSocket_spec s2 k a.isk
          obtain ⟨htables3, hcur3, hfd3⟩ := inetSocket_frame s2 k a.isk
          rw [htype2, hprotos2] at hret
          generalize inetSocket s2 k a.isk = r at hret hkeep htables3 hcur3 hfd3
          obtain ⟨ret, s3⟩ := r
          by_cases hfail : ret < 0
          · rw [if_pos hfail]
            refine .of_taken hall (fun h => ?_) hfail
              ((filesClean_sockFreeFd hlt (htables3.trans htables2) (hcur3.trans hcur2)
                (hfd3.trans hfd2)).of_eq htables1 hcur1) hk hfree ?_
            · exact (hret.mp hfail).elim h.2.1 (ne_false_of_eq_true h.2.2)
            · rw [sockets_sockFreeFd, hkeep, hstate2]
          · rw [if_neg hfail]
            -- the protocol has what it needs if it does not report an error
            obtain ⟨hisk, hopt⟩ := not_or.mp fun h => hfail (hret.mpr h)
            exact .of_kept hall ⟨hyes, hisk, eq_true_of_ne_false hopt⟩ hlt
      · obtain ⟨s', halloc, hclean⟩ := sockAlloc_of_not_gets hgets
        rw [halloc]
        exact .of_not_gets (fun h => hgets h.2.2.2) (show -EAGAIN < 0 by decide) hclean

/-- What `inet_accept` returns, and that the new socket keeps its state. -/
theorem inetAccept_spec (k new : ℕ) (a : Answers) :
    ((inetAccept s k new a).1 = if (s.sockets k).data = none ∨ a.isk = none then some (-EBADF)
      else a.errno) ∧
      ((inetAccept s k new a).2.sockets new).state = (s.sockets new).state ∧
      (inetAccept s k new a).2.tables = s.tables ∧ (inetAccept s k new a).2.cur = s.cur := by
  unfold inetAccept
  by_cases hdata : (s.sockets k).data = none
  · simp [hdata]
  · cases a.isk with
    | none => simp [hdata]
    | some addr => simp [hdata, State.setSocket]

/-- `accept` gets an entry of `sockets`. -/
def AcceptGets (k : ℕ) (a : Answers) : Prop :=
  (s.sockets k).state = .unconnected ∧ (s.sockets k).flags.getLsbD 16 = true ∧
    Call.GetsSocket s a

/-- `accept` sleeps, and no client connects. -/
def WaitsOn (k : ℕ) (a : Answers) : Prop :=
  AcceptGets s k a ∧ (s.sockets k).data ≠ none ∧ a.isk ≠ none ∧ a.errno = none

/-- The entry for a new connection, likewise; and when the call does not return. -/
theorem acceptOn_outcome (k : ℕ) (a : Answers) :
    Outcome s (acceptOn s k a).2 (∃ r, (acceptOn s k a).1 = some r ∧ r < 0) (AcceptGets s k a)
      (Call.CanAccept s s.cur k a) ∧
    ((acceptOn s k a).1 = none ↔ WaitsOn s k a) := by
  have hinval : -EINVAL < 0 := by decide
  -- a call that reports an error does not sleep
  have hawake : ∀ {r : ℤ}, ¬ AcceptGets s k a → (some r = none ↔ WaitsOn s k a) :=
    fun h => iff_of_false (some_ne_none _) fun hwait => h hwait.1
  unfold acceptOn
  by_cases hstate : (s.sockets k).state = .unconnected
  · rw [if_neg (not_not.mpr hstate)]
    by_cases hflags : (s.sockets k).flags.getLsbD 16 = true
    · rw [if_neg (by rw [hflags]; exact Bool.true_eq_false_eq_False)]
      by_cases hgets : Call.GetsSocket s a
      · obtain ⟨new, sock, hnew, hfree, hsock, halloc⟩ := sockAlloc_of_gets hgets
        have hall : AcceptGets s k a := ⟨hstate, hflags, hgets⟩
        have hne : k ≠ new := by
          rintro rfl
          rw [hstate] at hfree
          cases hfree
        rw [halloc]
        dsimp only
        set s1 := (s.setSocket new sock).setSocket new _ with hs1
        have hstate1 : (s1.sockets new).state = .unconnected := by
          simp [hs1, State.setSocket, hsock]
        have hdata1 : (s1.sockets k).data = (s.sockets k).data := by
          simp [hs1, State.setSocket, hne]
        have htables1 : s1.tables = s.tables := rfl
        have hcur1 : s1.cur = s.cur := rfl
        obtain ⟨hret, hkeep, htables, hcur⟩ := inetAccept_spec s1 k new a
        rw [hdata1] at hret
        generalize inetAccept s1 k new a = r at hret hkeep htables hcur
        obtain ⟨ret, s2⟩ := r
        have hstate2 : (s2.sockets new).state = .unconnected := hkeep.trans hstate1
        have htables2 := htables.trans htables1
        have hcur2 := hcur.trans hcur1
        by_cases hlost : (s.sockets k).data = none ∨ a.isk = none
        · rw [if_pos hlost] at hret
          subst hret
          refine ⟨.of_taken hall (fun h => hlost.elim h.1 h.2.1) ⟨_, rfl, by decide⟩
            (filesClean_of_tables htables2) hnew hfree hstate2, ?_⟩
          exact iff_of_false (some_ne_none _) fun h => hlost.elim h.2.1 h.2.2.1
        · rw [if_neg hlost] at hret
          obtain ⟨hdata, hisk⟩ := not_or.mp hlost
          subst hret
          cases herrno : a.errno with
          | none =>
            refine ⟨.of_kept hall ⟨hdata, hisk, fun e he => ?_⟩ (by simp), ?_⟩
            · rw [herrno] at he
              cases he
            · exact iff_of_true rfl ⟨hall, hdata, hisk, herrno⟩
          | some e =>
            have hno : ∀ {r : ℤ}, (some r = none ↔ WaitsOn s k a) := fun {r} =>
              iff_of_false (some_ne_none r) fun h => some_ne_none e (herrno.symm.trans h.2.2.2)
            by_cases hfail : e < 0
            · simp only [hfail, if_true]
              refine ⟨.of_taken hall (fun h => ?_) ⟨e, rfl, hfail⟩ (filesClean_of_tables htables2)
                hnew hfree hstate2, hno⟩
              exact not_lt.mpr (h.2.2 e herrno).1 hfail
            · simp only [hfail, if_false]
              obtain ⟨hneg, hsockets, -, -⟩ := sockAllocFd_spec s2 new
              rw [Call.HasFile, htables2, hcur2] at hneg
              by_cases hlt : (sockAllocFd s2 new).1 < 0
              · rw [if_pos hlt]
                refine ⟨.of_taken hall (fun h => hneg.mp hlt (h.2.2 e herrno).2) ⟨_, rfl, hinval⟩
                  ((filesClean_sockAllocFd s2 new hlt).of_eq htables2 hcur2) hnew hfree ?_, hno⟩
                rw [hsockets, hstate2]
              · rw [if_neg hlt]
                refine ⟨.of_kept hall ⟨hdata, hisk, fun e' he' => ?_⟩ ?_, hno⟩
                · cases herrno.symm.trans he'
                  exact ⟨not_lt.mp hfail, not_not.mp fun h => hlt (hneg.mpr h)⟩
                · rintro ⟨r, hr, hneg'⟩
                  cases hr
                  exact hlt hneg'
      · obtain ⟨s', halloc, hclean⟩ := sockAlloc_of_not_gets hgets
        rw [halloc]
        have hnot : ¬ AcceptGets s k a := fun h => hgets h.2.2
        exact ⟨.of_not_gets hnot ⟨_, rfl, by decide⟩ hclean, hawake hnot⟩
    · rw [if_pos (Bool.eq_false_iff.mpr hflags)]
      have hnot : ¬ AcceptGets s k a := fun h => hflags h.2.1
      exact ⟨.of_not_gets hnot ⟨_, rfl, hinval⟩ (Clean.refl s), hawake hnot⟩
  · rw [if_pos hstate]
    have hnot : ¬ AcceptGets s k a := fun h => hstate h.1
    exact ⟨.of_not_gets hnot ⟨_, rfl, hinval⟩ (Clean.refl s), hawake hnot⟩

/-- Reading a descriptor adds to the record only. -/
theorem clean_readFilp_iff (fd : ℕ) : Clean (readFilp s fd).2 s' ↔ Clean s s' :=
  ⟨fun h => ⟨⟨h.files, h.fds⟩, h.sockets⟩, fun h => ⟨⟨h.files, h.fds⟩, h.sockets⟩⟩

theorem clean_readFilp (fd : ℕ) : Clean s (readFilp s fd).2 :=
  (clean_readFilp_iff s fd).mp (Clean.refl _)

end

/-- A descriptor in range, as a signed and as an unsigned number. -/
theorem toNat_lt_of_toInt {fd : BitVec 32} (hnonneg : 0 ≤ fd.toInt) (hlt : fd.toInt < nrOpen) :
    fd.toNat < nrOpen := by
  rw [BitVec.toInt_eq_toNat_cond] at hnonneg hlt
  split_ifs at hnonneg hlt <;> omega

/-- What `sys_accept` does with a descriptor in range. -/
theorem sysAccept_eq {fd : BitVec 32} (hnonneg : 0 ≤ fd.toInt) (hlt : fd.toInt < nrOpen)
    (a : Answers) : sysAccept s fd a =
      match (s.tables.tasks s.cur).filp fd.toNat with
      | none => (some (-EBADF), (readFilp s fd.toNat).2)
      | some f =>
        let s' := (readFilp (readFilp s fd.toNat).2 fd.toNat).2
        match sockiLookup s (s.ino f) with
        | none => (some (-ENOTSOCK), s')
        | some k => acceptOn s' k a := by
  have hrange : ¬ (fd.toInt < 0 ∨ fd.toInt ≥ nrOpen) := by omega
  have hfd := toNat_lt_of_toInt hnonneg hlt
  have hword : (readFilp s fd.toNat).1 = .ofFile ((s.tables.tasks s.cur).filp fd.toNat) :=
    if_pos hfd
  have hword' : (readFilp (readFilp s fd.toNat).2 fd.toNat).1 =
      .ofFile ((s.tables.tasks s.cur).filp fd.toNat) := if_pos hfd
  simp only [sysAccept, hrange, if_false, hword, sockfdLookup, hword']
  cases (s.tables.tasks s.cur).filp fd.toNat with
  | none => rfl
  | some f =>
    have hsame : sockiLookup (readFilp s fd.toNat).2 ((readFilp s fd.toNat).2.ino f) =
        sockiLookup s (s.ino f) := rfl
    simp only [FilpWord.ofFile, reduceCtorEq, if_false, hsame]
    cases sockiLookup s (s.ino f) <;> rfl

/-- A failing `sys_accept` is clean exactly if it `Meets`, and never keeps a file. -/
theorem sysAccept_spec (s : State) (fd : BitVec 32) (a : Answers) :
    (((∃ r, (sysAccept s fd a).1 = some r ∧ r < 0) → Clean s (sysAccept s fd a).2) ↔
      Call.Meets s (.accept s.cur fd a)) ∧
    ((∃ r, (sysAccept s fd a).1 = some r ∧ r < 0) → FilesClean s (sysAccept s fd a).2) := by
  by_cases hrange : fd.toInt < 0 ∨ fd.toInt ≥ nrOpen
  · have hsame : (sysAccept s fd a).2 = s := by
      simp [sysAccept, hrange]
    rw [hsame]
    refine ⟨⟨fun _ k hk => ?_, fun _ _ => Clean.refl s⟩, fun _ => filesClean_of_tables rfl⟩
    rcases hrange with h | h
    · exact absurd h (not_lt.mpr hk.1)
    · exact absurd h (not_le.mpr hk.2.1)
  · obtain ⟨hnonneg, hlt⟩ := not_or.mp hrange
    rw [not_lt] at hnonneg
    rw [ge_iff_le, not_le] at hlt
    rw [sysAccept_eq hnonneg hlt]
    cases hfilp : (s.tables.tasks s.cur).filp fd.toNat with
    | none =>
      refine ⟨⟨fun _ k hk => ?_, fun _ _ => clean_readFilp s _⟩, fun _ => filesClean_of_tables rfl⟩
      obtain ⟨-, -, ⟨f, hf, -⟩, -⟩ := hk
      rw [hfilp] at hf
      cases hf
    | some f =>
      -- the socket of the descriptor is the one found here
      have hfound : ∀ {k}, (∃ f', some f = some f' ∧ sockiLookup s (s.ino f') = some k) →
          sockiLookup s (s.ino f) = some k := by
        rintro k ⟨f', hf', hlook'⟩
        cases hf'
        exact hlook'
      cases hlook : sockiLookup s (s.ino f) with
      | none =>
        simp only [hlook]
        refine ⟨⟨fun _ k hk => ?_, fun _ _ => ?_⟩, fun _ => filesClean_of_tables rfl⟩
        · have hnone := hfound (hfilp ▸ hk.2.2.1)
          rw [hlook] at hnone
          cases hnone
        · exact (clean_readFilp_iff s _).mp (clean_readFilp _ _)
      | some k =>
        simp only [hlook, ← clean_readFilp_iff s fd.toNat]
        simp only [← clean_readFilp_iff (readFilp s fd.toNat).2 fd.toNat]
        have hout := (acceptOn_outcome (readFilp (readFilp s fd.toNat).2 fd.toNat).2 k a).1
        refine ⟨?_, fun h => (hout.files h).of_eq rfl rfl⟩
        rw [hout.clean_iff]
        constructor
        · intro h k' hk' hgets
          have hsame := hfound (hfilp ▸ hk'.2.2.1)
          rw [hlook] at hsame
          cases hsame
          exact h ⟨hk'.2.2.2.1, hk'.2.2.2.2, hgets⟩
        · rintro h ⟨hstate, hflags, hgets⟩
          exact h k ⟨hnonneg, hlt, ⟨f, hfilp, hlook⟩, hstate, hflags⟩ hgets

/-- A failing call leaves no slot and no descriptor taken. -/
theorem filesClean_run (s : State) (c : Call) (r : ℤ) (hr : (c.run s).1 = some r) (hneg : r < 0) :
    FilesClean { s with cur := c.cur } (c.run s).2 := by
  cases c with
  | socket cur family type protocol a =>
    refine (sysSocket_outcome { s with cur := cur } family type protocol a).files ?_
    cases hr
    exact hneg
  | accept cur fd a => exact (sysAccept_spec { s with cur := cur } fd a).2 ⟨r, hr, hneg⟩

/-! ### Calls and runs -/

/-- **One call.** -/
theorem failsCleanly_iff (s : State) (c : Call) : c.FailsCleanly s ↔ c.Meets s := by
  cases c with
  | socket cur family type protocol a =>
    have h := (sysSocket_outcome { s with cur := cur } family type protocol a).clean_iff
    rw [SocketGets, and_imp, and_imp, and_imp] at h
    unfold Call.FailsCleanly
    simp only [Call.run, some.injEq, forall_eq']
    exact h
  | accept cur fd a =>
    have h := (sysAccept_spec { s with cur := cur } fd a).1
    simp only [exists_imp, and_imp] at h
    exact h

/-- **Whole runs.**  The failures of a run leave no trace exactly if every call that gets an entry
of `sockets` gets all the rest. -/
theorem failures_clean_iff (cs : List Call) (s : State) :
    FailuresClean cs s ↔ AllMeet cs s := by
  induction cs generalizing s with
  | nil => exact Iff.rfl
  | cons c cs ih =>
    unfold FailuresClean AllMeet
    rw [failsCleanly_iff, ih]

/-- After boot: the family `AF_INET`, its protocols, and no socket. -/
def boot : State :=
  { tables := ⟨fun _ => zeroFile, fun _ => ⟨fun _ => none, .dir⟩, 1, fun _ _ => none, 0, 0⟩
    cur := 0
    ino := fun _ => none
    sockets := fun _ => ⟨0, 0, .free, 0, none, none, none⟩
    familyOps := fun i => if i = 0 then some 2 else none
    inetProtos := [some 1, some 2, none]
    filpIndices := [] }

/-- With no memory for the `i_socket` the call fails, and its entry stays taken. -/
theorem failed_socket_stays :
    (sysSocket boot 2 1 0 ⟨some 0, none, none⟩).1 = -EAGAIN ∧
      (boot.sockets 0).state = .free ∧
      ((sysSocket boot 2 1 0 ⟨some 0, none, none⟩).2.sockets 0).state = .unconnected ∧
      ¬ FailuresClean [.socket 0 2 1 0 ⟨some 0, none, none⟩] boot := by
  refine ⟨by decide, by decide, by decide, ?_⟩
  intro h
  exact absurd ((h.1 (-EAGAIN) (by decide) (by decide)).sockets 0 (by decide)) (by decide)

end

end Sockets

end Yap
