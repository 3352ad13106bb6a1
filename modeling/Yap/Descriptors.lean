/-
# The bounds of `current->filp` (`fs/vfs.c`, `net/socket.c`)

A task structure holds `NR_OPEN` descriptors, and `pwd` lies right behind them.  Every call that
takes or returns a descriptor has its own test for the bound.  Most say `fd >= NR_OPEN`; `sys_open`,
`sys_ioctl` and `sys_bind` say `fd > NR_OPEN`, and let the index of `pwd` through.

`contract_iff` says exactly which calls keep to the descriptors and refuse what they have to
refuse:

  * `sys_open` on a full table writes to `pwd`, unless there is no slot of `FILP` either;
  * `sys_ioctl` and `sys_bind` read `pwd` when they are given `NR_OPEN`;
  * `sys_accept` on a full table sleeps for a client before it looks for a descriptor;
  * the others always keep to the descriptors.
-/
import Yap.Sockets

namespace Yap

namespace Descriptors

open FileTable (nrOpen nrFilep File FileOps Inode Task getEmptyFilp emptyFd)

open Sockets

/-! ## The calls of `fs/vfs.c` -/

/-- `sys_open(name, flag, mode)`, where `open_namei` returns `ret` and sets `file_inode` to an
inode and its address. -/
def sysOpen (s : State) (flag mode : BitVec 32) (ret : ℤ) (fileInode : Option (ℕ × Inode)) :
    ℤ × State :=
  let r := fdLoop nrOpen 0 s
  let fd := r.1
  let s := r.2
  if fd > nrOpen then (-EMFILE, s)
  else
    match getEmptyFilp s.tables with
    | none => (-EMFILE, s)
    | some f =>
      let s := writeFilp s fd (some f)
      let file := { s.tables.FILP f with
        fFlags := flag.truncate 16
        fMode := mode
        fCount := (s.tables.FILP f).fCount + 1 }
      let failed := { file with fCount := file.fCount - 1 }
      match fileInode with
      | none => (ret, (writeFilp s fd none).setFile f failed (s.ino f))
      | some (addr, inode) =>
        if ret ≠ 0 then (ret, (writeFilp s fd none).setFile f failed (s.ino f))
        else
          let file := { file with fInode := some inode, fPos := 0, fOp := inode.iOp.join }
          match inode.iOp.join with
          | none => (fd, s.setFile f file (some addr))
          | some ops =>
            let r := ops.callOpen s.tables.devs inode
            let file := { file with fOp := some r.2 }
            if r.1 ≠ 0 then
              (r.1, writeFilp
                (s.setFile f { file with fCount := file.fCount - 1 } (some addr)) fd none)
            else (fd, s.setFile f file (some addr))

/-- `sock_close(inode, file)`.  For the inode of a file that is not a socket, the search finds
nothing. -/
def sockClose (s : State) (inode : Option ℕ) : State :=
  match inode with
  | none => s
  | some _ =>
    match sockiLookup s inode with
    | none => s
    | some k => s.setSocket k { s.sockets k with state := .free }

/-- `sys_close(fd)`.  The `close` of the sockets is the only one that changes anything. -/
def sysClose (s : State) (fd : BitVec 32) : ℤ × State :=
  if fd.toNat ≥ nrOpen then (-EBADF, s)
  else
    let r := readFilp s fd.toNat
    match r.1 with
    | .file f =>
      let s := writeFilp r.2 fd.toNat none
      let file := s.tables.FILP f
      if file.fCount = 0 then (0, s)
      else
        let s := if file.fOp = some socketFileOps then sockClose s (s.ino f) else s
        (0, s.setFile f { file with fCount := file.fCount - 1, fInode := none } none)
    | .null | .inode => (-EBADF, r.2)

/-- `sys_read(fd, buf, count)`; `answer` is what `f_op->read` returns, `none` if it does not
return. -/
def sysRead (s : State) (fd : BitVec 32) (answer : Option ℤ) : Option ℤ × State :=
  if fd.toNat ≥ nrOpen then (some (-EBADF), s)
  else
    let r := readFilp s fd.toNat
    match r.1 with
    | .file f =>
      if (r.2.tables.FILP f).fInode = none then (some (-EBADF), r.2)
      else
        match (r.2.tables.FILP f).fOp with
        | none => (none, r.2)
        | some _ => (answer, r.2)
    | .null | .inode => (some (-EBADF), r.2)

/-- `sys_ioctl(fd, cmd, arg)`; `answer` is what `f_op->ioctl` returns, or `-EINVAL` if there is no
such operation. -/
def sysIoctl (s : State) (fd : BitVec 32) (answer : Option ℤ) : Option ℤ × State :=
  if fd.toNat > nrOpen then (some (-EBADF), s)
  else
    let r := readFilp s fd.toNat
    match r.1 with
    | .null => (some (-EBADF), r.2)
    | .file f =>
      match (r.2.tables.FILP f).fOp with
      | none => (some (-EINVAL), r.2)
      | some _ => (answer, r.2)
    -- an inode that is taken for a file
    | .inode => (answer, r.2)

/-- `sys_bind(fd, umyaddr, addrlen)`; `answer` is what `sock->ops->bind` returns. -/
def sysBind (s : State) (fd : BitVec 32) (answer : Option ℤ) : Option ℤ × State :=
  if fd.toInt < 0 ∨ fd.toInt > nrOpen then (some (-EBADF), s)
  else
    let r := readFilp s fd.toNat
    if r.1 = .null then (some (-EBADF), r.2)
    else
      match sockfdLookup r.2 fd with
      | (none, s) => (some (-ENOTSOCK), s)
      | (some _, s) => (answer, s)

/-- A system call of the running task. -/
inductive SysCall : Type where
  | open (flag mode : BitVec 32) (ret : ℤ) (fileInode : Option (ℕ × Inode)) : SysCall
  | close (fd : BitVec 32) : SysCall
  | read (fd : BitVec 32) (answer : Option ℤ) : SysCall
  | ioctl (fd : BitVec 32) (answer : Option ℤ) : SysCall
  | bind (fd : BitVec 32) (answer : Option ℤ) : SysCall
  | accept (fd : BitVec 32) (a : Answers) : SysCall
  | socket (family type protocol : ℤ) (a : Answers) : SysCall

namespace SysCall

/-- The result, `none` if the call does not return, and the state after the call. -/
def run (s : State) : SysCall → Option ℤ × State
  | .open flag mode ret fileInode =>
    let r := sysOpen s flag mode ret fileInode
    (some r.1, r.2)
  | .close fd =>
    let r := sysClose s fd
    (some r.1, r.2)
  | .read fd answer => sysRead s fd answer
  | .ioctl fd answer => sysIoctl s fd answer
  | .bind fd answer => sysBind s fd answer
  | .accept fd a => sysAccept s fd a
  | .socket family type protocol a =>
    let r := sysSocket s family type protocol a
    (some r.1, r.2)

end SysCall

/-! ## The contract -/

/-- Between the two states the task has used descriptors only, and its `pwd` is the same. -/
def Within (s s' : State) : Prop :=
  (∃ l : List ℕ, s'.filpIndices = s.filpIndices ++ l ∧ ∀ i ∈ l, i < nrOpen) ∧
    s'.cur = s.cur ∧ (s'.tables.tasks s.cur).pwd = (s.tables.tasks s.cur).pwd

/-- No descriptor is left. -/
def Full (s : State) : Prop := ∀ fd < nrOpen, (s.tables.tasks s.cur).filp fd ≠ none

/-- The descriptor is out of range, or not open.  (The calls of `fs/vfs.c` take it as unsigned, so
that a negative one is far beyond the range.) -/
def BadFd (s : State) (fd : BitVec 32) : Prop :=
  fd.toInt < 0 ∨ fd.toInt ≥ nrOpen ∨ (s.tables.tasks s.cur).filp fd.toNat = none

/-- `sys_accept` sleeps, and no client connects. -/
def Waits (s : State) (fd : BitVec 32) (a : Answers) : Prop :=
  ∃ k, Call.ListensOn s s.cur fd k ∧ WaitsOn s k a

namespace SysCall

/-- The call has to be refused. -/
def Refused (s : State) : SysCall → Prop
  | .open _ _ _ _ => Full s
  | .close fd => BadFd s fd
  | .read fd _ => BadFd s fd
  | .ioctl fd _ => BadFd s fd
  | .bind fd _ => BadFd s fd
  | .accept fd _ => BadFd s fd ∨ Full s
  | .socket _ _ _ _ => Full s

/-- The call keeps to the descriptors, and returns an error if it has to be refused. -/
structure Contract (s : State) (c : SysCall) : Prop where
  within : Within s (c.run s).2
  refused : c.Refused s → ∃ r, (c.run s).1 = some r ∧ r < 0

/-- The condition: the index of `pwd` is not let through, and a full table is not found out behind
a client that never connects. -/
def Meets (s : State) : SysCall → Prop
  | .open _ _ _ _ => Full s → getEmptyFilp s.tables = none
  | .ioctl fd _ => fd.toInt ≠ nrOpen
  | .bind fd _ => fd.toInt ≠ nrOpen
  | .accept fd a => Full s → ¬ Waits s fd a
  | .close _ | .read _ _ | .socket _ _ _ _ => True

end SysCall

section

variable {s s' s'' : State} {fd : BitVec 32}

/-! ## Keeping to the descriptors -/

theorem Within.refl (s : State) : Within s s := ⟨⟨[], by simp, by simp⟩, rfl, rfl⟩

theorem Within.trans (h : Within s s') (h' : Within s' s'') : Within s s'' := by
  obtain ⟨⟨l, hl, hlt⟩, hcur, hpwd⟩ := h
  obtain ⟨⟨l', hl', hlt'⟩, hcur', hpwd'⟩ := h'
  refine ⟨⟨l ++ l', by rw [hl', hl, List.append_assoc], fun i hi => ?_⟩, hcur'.trans hcur, ?_⟩
  · rcases List.mem_append.mp hi with h | h
    · exact hlt i h
    · exact hlt' i h
  · rw [← hpwd, ← hcur, hpwd']

/-- A step that uses no descriptor. -/
theorem Within.of_eq (hlog : s'.filpIndices = s.filpIndices) (hcur : s'.cur = s.cur)
    (htasks : s'.tables.tasks = s.tables.tasks) : Within s s' :=
  ⟨⟨[], by simp [hlog], by simp⟩, hcur, by rw [htasks]⟩

theorem within_readFilp {i : ℕ} (hi : i < nrOpen) : Within s (readFilp s i).2 :=
  ⟨⟨[i], rfl, by simpa using hi⟩, rfl, rfl⟩

theorem within_writeFilp {i : ℕ} (hi : i < nrOpen) (f : Option ℕ) : Within s (writeFilp s i f) := by
  refine ⟨⟨[i], rfl, by simpa using hi⟩, rfl, ?_⟩
  simp [writeFilp, FileTable.State.setFilp, hi]

theorem within_setFile (s : State) (f : ℕ) (file : File) (ino : Option ℕ) :
    Within s (s.setFile f file ino) := .of_eq rfl rfl rfl

theorem within_setSocket (s : State) (k : ℕ) (sock : Socket) : Within s (s.setSocket k sock) :=
  .of_eq rfl rfl rfl

/-- The search reads the descriptors and stops before `pwd`. -/
theorem within_fdLoop (s : State) : Within s (fdLoop nrOpen 0 s).2 := by
  obtain ⟨l, hlt, heq⟩ := fdLoop_snd nrOpen 0 s
  rw [heq]
  exact ⟨⟨l, rfl, by simpa using hlt⟩, rfl, rfl⟩

/-- A use of the index of `pwd` shows in the record. -/
theorem not_within {l : List ℕ} (h : s'.filpIndices = s.filpIndices ++ l) (hmem : nrOpen ∈ l) :
    ¬ Within s s' := by
  rintro ⟨⟨l', hl', hlt⟩, -⟩
  rw [h, List.append_cancel_left_eq] at hl'
  subst hl'
  exact absurd (hlt nrOpen hmem) (lt_irrefl _)

theorem within_sockAlloc (s : State) (inode : Option ℕ) : Within s (sockAlloc s inode).2 := by
  unfold sockAlloc
  cases (List.range maxSockets).find? fun k => (s.sockets k).state = .free with
  | none => exact .refl s
  | some k =>
    cases inode with
    | none => exact within_setSocket s k _
    | some addr => exact within_setSocket s k _

theorem within_sockAllocFd (s : State) (k : ℕ) : Within s (sockAllocFd s k).2 := by
  obtain ⟨l, hl, hcases⟩ := sockAllocFd_cases s k
  have hloop := hl ▸ within_fdLoop s
  rcases hcases with ⟨-, s', heq, rfl | ⟨f, rfl⟩⟩ | ⟨⟨-, hlt⟩, f, file, -, heq⟩
  · rw [heq]
    exact .refl _
  · rw [heq]
    exact hloop.trans (within_setFile _ _ _ _)
  · rw [heq]
    exact (hloop.trans (within_writeFilp hlt _)).trans (within_setFile _ _ _ _)

/-- What `sock_alloc_fd` returns is a descriptor. -/
theorem sockAllocFd_lt (s : State) (k : ℕ) : (sockAllocFd s k).1 < nrOpen := by
  obtain ⟨l, -, hcases⟩ := sockAllocFd_cases s k
  rcases hcases with ⟨-, s', heq, -⟩ | ⟨⟨-, hlt⟩, f, file, -, heq⟩
  · rw [heq]
    exact show -EAGAIN < (nrOpen : ℤ) by decide
  · rw [heq]
    exact Int.ofNat_lt.mpr hlt

/-- The index is the `fd` that the socket holds. -/
theorem within_sockFreeFd {k : ℕ} (h : (s.sockets k).fd < nrOpen) : Within s (sockFreeFd s k) := by
  have hlt : (s.sockets k).fd.toNat < nrOpen := by
    have : 0 < nrOpen := by decide
    omega
  unfold sockFreeFd
  cases hword : (readFilp s (s.sockets k).fd.toNat).1 with
  | null =>
    simp only [hword]
    exact (within_readFilp hlt).trans (within_writeFilp hlt _)
  | inode =>
    simp only [hword]
    exact (within_readFilp hlt).trans (within_writeFilp hlt _)
  | file f =>
    simp only [hword]
    exact ((within_readFilp hlt).trans (within_setFile _ f _ _)).trans (within_writeFilp hlt _)

theorem within_inetSocket (s : State) (k : ℕ) (isk : Option ℕ) :
    Within s (inetSocket s k isk).2 := by
  unfold inetSocket
  cases isk with
  | none => exact .refl s
  | some addr =>
    dsimp only
    generalize inetGetOpt (s.setSocket k _).inetProtos _ = found
    cases found <;> exact within_setSocket s k _

theorem within_sysSocket (s : State) (family type protocol : ℤ) (a : Answers) :
    Within s (sysSocket s family type protocol a).2 := by
  unfold sysSocket
  cases findFamily s family with
  | none => exact .refl s
  | some i =>
    split_ifs with hargs
    · exact .refl s
    · have halloc := within_sockAlloc s a.inode
      generalize sockAlloc s a.inode = r at halloc
      obtain ⟨k, s1⟩ := r
      cases k with
      | none => exact halloc
      | some k =>
        dsimp only at halloc ⊢
        set s2 := s1.setSocket k { s1.sockets k with type := type, ops := some i }
        have h2 : Within s s2 := halloc.trans (within_setSocket _ _ _)
        have h3 : Within s (sockAllocFd s2 k).2 := h2.trans (within_sockAllocFd s2 k)
        have hlt := sockAllocFd_lt s2 k
        by_cases hneg : (sockAllocFd s2 k).1 < 0
        · rw [if_pos hneg]
          exact h3
        · rw [if_neg hneg]
          set s4 := (sockAllocFd s2 k).2.setSocket k
            { (sockAllocFd s2 k).2.sockets k with fd := (sockAllocFd s2 k).1 } with hs4
          have h4 : Within s s4 := h3.trans (within_setSocket _ _ _)
          have hfd4 : (s4.sockets k).fd = (sockAllocFd s2 k).1 := by
            simp [hs4, State.setSocket]
          have h5 : Within s (inetSocket s4 k a.isk).2 := h4.trans (within_inetSocket _ _ _)
          obtain ⟨-, -, hfd5⟩ := inetSocket_frame s4 k a.isk
          generalize inetSocket s4 k a.isk = r at h5 hfd5
          obtain ⟨ret, s5⟩ := r
          dsimp only at h5 hfd5 ⊢
          split_ifs with hfail
          · refine h5.trans (within_sockFreeFd ?_)
            rw [hfd5, hfd4]
            exact hlt
          · exact h5

theorem toInt_eq_of_toNat_le (h : fd.toNat ≤ nrOpen) : fd.toInt = fd.toNat := by
  have : nrOpen = 16 := rfl
  rw [BitVec.toInt_eq_toNat_cond, if_pos (by omega)]

theorem within_acceptOn (s : State) (k : ℕ) (a : Answers) : Within s (acceptOn s k a).2 := by
  unfold acceptOn
  split_ifs with hstate hflags
  · exact .refl s
  · exact .refl s
  · have halloc := within_sockAlloc s a.inode
    generalize sockAlloc s a.inode = r at halloc
    obtain ⟨new, s1⟩ := r
    cases new with
    | none => exact halloc
    | some new =>
      dsimp only at halloc ⊢
      set s2 := s1.setSocket new _
      have h2 : Within s s2 := halloc.trans (within_setSocket _ _ _)
      have h3 : Within s2 (inetAccept s2 k new a).2 := by
        unfold inetAccept
        split_ifs with hdata
        · exact .refl _
        · cases a.isk with
          | none => exact .refl _
          | some addr => exact within_setSocket _ _ _
      have h4 := h2.trans h3
      generalize inetAccept s2 k new a = r at h4
      obtain ⟨ret, s3⟩ := r
      cases ret with
      | none => exact h4
      | some ret =>
        dsimp only at h4 ⊢
        split_ifs
        · exact h4
        · exact h4.trans (within_sockAllocFd _ _)
        · exact h4.trans (within_sockAllocFd _ _)

theorem within_sysAccept (s : State) (fd : BitVec 32) (a : Answers) :
    Within s (sysAccept s fd a).2 := by
  by_cases hrange : fd.toInt < 0 ∨ fd.toInt ≥ nrOpen
  · have hsame : (sysAccept s fd a).2 = s := by
      simp [sysAccept, hrange]
    rw [hsame]
    exact .refl s
  · obtain ⟨hnonneg, hlt⟩ := not_or.mp hrange
    have hfd := toNat_lt_of_toInt (not_lt.mp hnonneg) (not_le.mp hlt)
    rw [sysAccept_eq (not_lt.mp hnonneg) (not_le.mp hlt)]
    have hread : Within s (readFilp (readFilp s fd.toNat).2 fd.toNat).2 :=
      (within_readFilp hfd).trans (within_readFilp hfd)
    cases (s.tables.tasks s.cur).filp fd.toNat with
    | none => exact within_readFilp hfd
    | some f =>
      dsimp only
      cases sockiLookup s (s.ino f) with
      | none => exact hread
      | some k => exact hread.trans (within_acceptOn _ k a)

theorem within_sockClose (s : State) (inode : Option ℕ) : Within s (sockClose s inode) := by
  unfold sockClose
  cases inode with
  | none => exact .refl s
  | some addr =>
    cases sockiLookup s (some addr) with
    | none => exact .refl s
    | some k => exact within_setSocket s k _

/-- `sys_close` checks its argument against `NR_OPEN`. -/
theorem within_sysClose (s : State) (fd : BitVec 32) : Within s (sysClose s fd).2 := by
  unfold sysClose
  split_ifs with hrange
  · exact .refl s
  · have hfd := not_le.mp hrange
    cases hword : (readFilp s fd.toNat).1 with
    | null =>
      simp only [hword]
      exact within_readFilp hfd
    | inode =>
      simp only [hword]
      exact within_readFilp hfd
    | file f =>
      simp only [hword]
      have hclear := (within_readFilp (s := s) hfd).trans (within_writeFilp hfd none)
      split_ifs
      · exact hclear
      · exact (hclear.trans (within_sockClose _ _)).trans (within_setFile _ _ _ _)
      · exact hclear.trans (within_setFile _ _ _ _)

/-! ## What is refused -/

theorem full_iff (s : State) : Full s ↔ emptyFd (s.tables.tasks s.cur) = nrOpen := by
  rcases FileTable.emptyFd_cases (s.tables.tasks s.cur) with ⟨hlt, hnone⟩ | ⟨heq, hall⟩
  · constructor
    · intro h
      exact absurd hnone (h _ hlt)
    · intro h
      omega
  · exact ⟨fun _ => heq, fun _ => hall⟩

theorem not_hasFile_of_full (h : Full s) : ¬ Call.HasFile s s.cur :=
  fun hfile => absurd hfile.2 ((full_iff s).mp h).not_lt

theorem sysSocket_of_full (h : Full s) (family type protocol : ℤ) (a : Answers) :
    (sysSocket s family type protocol a).1 < 0 :=
  (sysSocket_outcome s family type protocol a).fails_of_not_rest
    fun hrest => not_hasFile_of_full h hrest.1

/-- On a full table every call that returns has failed. -/
theorem acceptOn_of_full (h : Full s) {k : ℕ} {a : Answers} (hwait : ¬ WaitsOn s k a) :
    ∃ r, (acceptOn s k a).1 = some r ∧ r < 0 := by
  obtain ⟨hout, -⟩ := acceptOn_outcome s k a
  by_cases hgets : AcceptGets s k a
  · refine (hout.taken hgets fun hrest => ?_).1
    cases herrno : a.errno with
    | none => exact hwait ⟨hgets, hrest.1, hrest.2.1, herrno⟩
    | some e => exact not_hasFile_of_full h (hrest.2.2 e herrno).2
  · exact (hout.early hgets).1

theorem not_badFd {f : ℕ} (hnonneg : ¬ fd.toInt < 0) (hlt : ¬ fd.toInt ≥ nrOpen)
    (hfilp : (s.tables.tasks s.cur).filp fd.toNat = some f) : ¬ BadFd s fd := by
  rintro (h | h | h)
  · exact hnonneg h
  · exact hlt h
  · rw [hfilp] at h
    cases h

theorem sysAccept_of_refused (h : BadFd s fd ∨ Full s) {a : Answers} (hwait : ¬ Waits s fd a) :
    ∃ r, (sysAccept s fd a).1 = some r ∧ r < 0 := by
  by_cases hrange : fd.toInt < 0 ∨ fd.toInt ≥ nrOpen
  · rw [sysAccept, if_pos hrange]
    exact ⟨_, rfl, by decide⟩
  · obtain ⟨hnonneg, hlt⟩ := not_or.mp hrange
    rw [sysAccept_eq (not_lt.mp hnonneg) (not_le.mp hlt)]
    cases hfilp : (s.tables.tasks s.cur).filp fd.toNat with
    | none => exact ⟨_, rfl, by decide⟩
    | some f =>
      dsimp only
      cases hlook : sockiLookup s (s.ino f) with
      | none => exact ⟨_, rfl, by decide⟩
      | some k =>
        have hfull : Full (readFilp (readFilp s fd.toNat).2 fd.toNat).2 :=
          h.resolve_left (not_badFd hnonneg hlt hfilp)
        refine acceptOn_of_full hfull fun hw => hwait ⟨k, ?_, hw⟩
        exact ⟨not_lt.mp hnonneg, not_le.mp hlt, ⟨f, hfilp, hlook⟩, hw.1.1, hw.1.2.1⟩

/-- A call that sleeps for ever returns nothing. -/
theorem sysAccept_of_waits {a : Answers} (h : Waits s fd a) : (sysAccept s fd a).1 = none := by
  obtain ⟨k, ⟨hnonneg, hlt, ⟨f, hfilp, hlook⟩, -⟩, hwait⟩ := h
  rw [sysAccept_eq hnonneg hlt, hfilp]
  simp only [hlook]
  exact (acceptOn_outcome _ k a).2.mpr hwait

theorem contract_accept_iff (s : State) (fd : BitVec 32) (a : Answers) :
    (SysCall.accept fd a).Contract s ↔ (Full s → ¬ Waits s fd a) := by
  constructor
  · intro h hfull hwait
    obtain ⟨r, hr, -⟩ := h.refused (.inr hfull)
    exact Option.some_ne_none r (hr.symm.trans (sysAccept_of_waits hwait))
  · intro h
    refine ⟨within_sysAccept s fd a, fun hrefused => sysAccept_of_refused hrefused fun hwait => ?_⟩
    rcases hrefused with hbad | hfull
    · obtain ⟨k, ⟨hnonneg, hlt, ⟨f, hfilp, -⟩, -⟩, -⟩ := hwait
      exact not_badFd (not_lt.mpr hnonneg) (not_le.mpr hlt) hfilp hbad
    · exact h hfull hwait

theorem badFd_iff (s : State) (fd : BitVec 32) :
    BadFd s fd ↔ fd.toNat ≥ nrOpen ∨ (s.tables.tasks s.cur).filp fd.toNat = none := by
  by_cases hfd : fd.toNat < nrOpen
  · have := toInt_eq_of_toNat_le hfd.le
    have hneg : ¬ fd.toInt < 0 := by omega
    have hge : ¬ fd.toInt ≥ nrOpen := by omega
    have hge' : ¬ fd.toNat ≥ nrOpen := by omega
    simp only [BadFd, hneg, hge, hge', false_or]
  · have hbad : BadFd s fd := by
      by_contra h
      simp only [BadFd, not_or, not_lt, not_le] at h
      exact hfd (toNat_lt_of_toInt h.1 h.2.1)
    exact ⟨fun _ => .inl (not_lt.mp hfd), fun _ => hbad⟩

theorem readFilp_of_badFd (h : BadFd s fd) (hfd : fd.toNat < nrOpen) :
    (readFilp s fd.toNat).1 = .null := by
  rcases (badFd_iff s fd).mp h with hge | hnone
  · omega
  · exact (filpWord_eq_null_iff hfd).mpr hnone

/-- A call that refuses every descriptor out of its range. -/
theorem contract_of_refuses {c : SysCall} (h : c.run s = (some (-EBADF), s)) : c.Contract s := by
  refine ⟨?_, fun _ => ?_⟩
  · rw [h]
    exact .refl s
  · rw [h]
    exact ⟨_, rfl, by decide⟩

/-- A call that reads the descriptor once, and refuses it if it is not open. -/
theorem contract_of_reads {c : SysCall} (hrefused : c.Refused s → BadFd s fd)
    (hfd : fd.toNat < nrOpen) (hreads : (c.run s).2 = (readFilp s fd.toNat).2)
    (hnull : (readFilp s fd.toNat).1 = .null → (c.run s).1 = some (-EBADF)) : c.Contract s := by
  refine ⟨?_, fun h => ⟨_, hnull (readFilp_of_badFd (hrefused h) hfd), by decide⟩⟩
  rw [hreads]
  exact within_readFilp hfd

section

variable (s : State) (fd : BitVec 32)

theorem contract_close : (SysCall.close fd).Contract s := by
  refine ⟨within_sysClose s fd, fun h => ⟨_, rfl, ?_⟩⟩
  have hneg : -EBADF < 0 := by decide
  unfold sysClose
  split_ifs with hrange
  · exact hneg
  · simp only [readFilp_of_badFd h (not_le.mp hrange)]
    exact hneg

theorem contract_read (answer : Option ℤ) :
    (SysCall.read fd answer).Contract s := by
  by_cases hrange : fd.toNat ≥ nrOpen
  · exact contract_of_refuses (if_pos hrange)
  · refine contract_of_reads id (not_le.mp hrange) ?_ fun hnull => ?_
    · rw [SysCall.run, sysRead, if_neg hrange]
      generalize readFilp s fd.toNat = r
      obtain ⟨word, s1⟩ := r
      cases word with
      | null => rfl
      | inode => rfl
      | file f =>
        dsimp only
        split_ifs
        · rfl
        · cases (s1.tables.FILP f).fOp <;> rfl
    · rw [SysCall.run, sysRead, if_neg hrange]
      simp only [hnull]

/-- With `fd == NR_OPEN` the record shows the index of `pwd`. -/
theorem ioctl_reads (answer : Option ℤ) (h : fd.toNat ≤ nrOpen) :
    (sysIoctl s fd answer).2 = (readFilp s fd.toNat).2 := by
  rw [sysIoctl, if_neg (not_lt.mpr h)]
  generalize readFilp s fd.toNat = r
  obtain ⟨word, s1⟩ := r
  cases word with
  | null => rfl
  | inode => rfl
  | file f =>
    dsimp only
    cases (s1.tables.FILP f).fOp <;> rfl

theorem contract_ioctl_iff (answer : Option ℤ) :
    (SysCall.ioctl fd answer).Contract s ↔ fd.toInt ≠ nrOpen := by
  by_cases hbeyond : fd.toNat > nrOpen
  · refine iff_of_true (contract_of_refuses (if_pos hbeyond)) ?_
    rw [BitVec.toInt_eq_toNat_cond]
    split_ifs <;> omega
  · have hle := not_lt.mp hbeyond
    have hreads := ioctl_reads s fd answer hle
    have hint := toInt_eq_of_toNat_le hle
    by_cases hlt : fd.toNat < nrOpen
    · refine iff_of_true (contract_of_reads id hlt hreads fun hnull => ?_) (by omega)
      rw [SysCall.run, sysIoctl, if_neg hbeyond]
      simp only [hnull]
    · have heq : fd.toNat = nrOpen := by omega
      refine iff_of_false (fun h => ?_) (by omega)
      refine not_within (l := [nrOpen]) ?_ (by simp) h.within
      rw [SysCall.run, hreads, heq]
      rfl

theorem contract_bind_iff (answer : Option ℤ) :
    (SysCall.bind fd answer).Contract s ↔ fd.toInt ≠ nrOpen := by
  by_cases hbeyond : fd.toInt < 0 ∨ fd.toInt > nrOpen
  · exact iff_of_true (contract_of_refuses (if_pos hbeyond)) (by omega)
  · by_cases heq : fd.toInt = nrOpen
    · refine iff_of_false (fun h => ?_) (not_not.mpr heq)
      have hnat : fd.toNat = nrOpen := by
        rw [BitVec.toInt_eq_toNat_cond] at heq
        split_ifs at heq <;> omega
      refine not_within (l := [nrOpen]) ?_ (by simp) h.within
      change (sysBind s fd answer).2.filpIndices = _
      rw [sysBind, if_neg hbeyond, hnat]
      -- `sockfd_lookup` has the right test, and finds nothing
      have hlook : sockfdLookup (readFilp s nrOpen).2 fd = (none, (readFilp s nrOpen).2) :=
        if_pos (.inr heq.ge)
      dsimp only
      split_ifs
      · rfl
      · rw [hlook]
        rfl
    · obtain ⟨hnonneg, hle⟩ := not_or.mp hbeyond
      have hlt : fd.toInt < nrOpen := by omega
      have hfd := toNat_lt_of_toInt (not_lt.mp hnonneg) hlt
      refine iff_of_true ⟨?_, fun h => ?_⟩ heq
      · change Within s (sysBind s fd answer).2
        rw [sysBind, if_neg hbeyond]
        have hread : Within s (readFilp s fd.toNat).2 := within_readFilp hfd
        have hlook : Within s (sockfdLookup (readFilp s fd.toNat).2 fd).2 := by
          rw [sockfdLookup, if_neg (by omega)]
          have hagain := hread.trans (within_readFilp hfd)
          generalize readFilp (readFilp s fd.toNat).2 fd.toNat = r at hagain
          obtain ⟨word, s1⟩ := r
          cases word <;> exact hagain
        dsimp only
        split_ifs
        · exact hread
        · generalize sockfdLookup (readFilp s fd.toNat).2 fd = r at hlook
          obtain ⟨k, s1⟩ := r
          cases k <;> exact hlook
      · change ∃ r, (sysBind s fd answer).1 = some r ∧ r < 0
        rw [sysBind, if_neg hbeyond]
        simp only [readFilp_of_badFd h hfd, if_true]
        exact ⟨_, rfl, by decide⟩

end

/-! ## Opening -/

section

variable (s : State) (flag mode : BitVec 32) (ret : ℤ) (fileInode : Option (ℕ × Inode))

theorem tables_sockClose (s : State) (inode : Option ℕ) : (sockClose s inode).tables = s.tables := by
  unfold sockClose
  cases inode with
  | none => rfl
  | some addr => cases sockiLookup s (some addr) <;> rfl

/-- On the tables `sys_close` is that of `FileTable`. -/
theorem sysClose_tables (s : State) (fd : BitVec 32) :
    (sysClose s fd).1 = (FileTable.sysClose s.tables s.cur fd.toNat).1 ∧
      (sysClose s fd).2.tables = (FileTable.sysClose s.tables s.cur fd.toNat).2 := by
  unfold sysClose FileTable.sysClose
  by_cases hfd : fd.toNat ≥ nrOpen
  · rw [if_pos hfd, if_pos hfd]
    exact ⟨rfl, rfl⟩
  · rw [if_neg hfd, if_neg hfd]
    have hword : (readFilp s fd.toNat).1 = .ofFile ((s.tables.tasks s.cur).filp fd.toNat) :=
      if_pos (not_le.mp hfd)
    simp only [hword]
    cases (s.tables.tasks s.cur).filp fd.toNat with
    | none => exact ⟨rfl, rfl⟩
    | some f =>
      have hclear : (writeFilp (readFilp s fd.toNat).2 fd.toNat none).tables =
          s.tables.setFilp s.cur fd.toNat none := rfl
      simp only [FilpWord.ofFile, hclear]
      by_cases hcount : ((s.tables.setFilp s.cur fd.toNat none).FILP f).fCount = 0
      · rw [if_pos hcount, if_pos hcount]
        exact ⟨rfl, hclear⟩
      · rw [if_neg hcount, if_neg hcount]
        refine ⟨rfl, ?_⟩
        dsimp only [State.setFile]
        split_ifs
        · rw [tables_sockClose, hclear]
        · rw [hclear]

/-- The call is that of `FileTable`, with the record of the indices added. -/
theorem sysOpen_tables :
    (sysOpen s flag mode ret fileInode).1 =
        (FileTable.sysOpen s.tables s.cur flag mode ret (fileInode.map Prod.snd)).1 ∧
      (sysOpen s flag mode ret fileInode).2.tables =
        (FileTable.sysOpen s.tables s.cur flag mode ret (fileInode.map Prod.snd)).2 := by
  obtain ⟨l, -, hloop⟩ := fdLoop_snd nrOpen 0 s
  unfold sysOpen FileTable.sysOpen
  simp only [hloop, fdLoop_eq_emptyFd]
  have hnot : ¬ emptyFd (s.tables.tasks s.cur) > nrOpen := not_lt.mpr (emptyFd_le _)
  rw [if_neg hnot, if_neg hnot]
  cases getEmptyFilp s.tables with
  | none => exact ⟨rfl, rfl⟩
  | some f =>
    rcases fileInode with _ | ⟨addr, inode⟩
    · exact ⟨rfl, rfl⟩
    · dsimp only [Option.map_some]
      by_cases hret : ret ≠ 0
      · rw [if_pos hret, if_pos hret]
        exact ⟨rfl, rfl⟩
      · rw [if_neg hret, if_neg hret]
        cases inode.iOp.join with
        | none => exact ⟨rfl, rfl⟩
        | some ops =>
          dsimp only
          split_ifs with hopen hopen'
          · exact ⟨rfl, rfl⟩
          · exact absurd hopen hopen'
          · exact absurd (by assumption) hopen
          · exact ⟨rfl, rfl⟩

/-- Everything that `sys_open` can do, where `fd` is the descriptor that the loop has found. -/
theorem sysOpen_cases :
    let s₀ := (fdLoop nrOpen 0 s).2
    let fd := emptyFd (s.tables.tasks s.cur)
    let s' := (sysOpen s flag mode ret fileInode).2
    (getEmptyFilp s.tables = none ∧ (sysOpen s flag mode ret fileInode).1 = -EMFILE ∧ s' = s₀) ∨
      ∃ f file ino, getEmptyFilp s.tables = some f ∧
        (s' = (writeFilp s₀ fd (some f)).setFile f file ino ∨
          s' = (writeFilp (writeFilp s₀ fd (some f)) fd none).setFile f file ino ∨
          s' = writeFilp ((writeFilp s₀ fd (some f)).setFile f file ino) fd none) := by
  obtain ⟨l, -, hloop⟩ := fdLoop_snd nrOpen 0 s
  have hnot : ¬ emptyFd (s.tables.tasks s.cur) > nrOpen := not_lt.mpr (emptyFd_le _)
  unfold sysOpen
  simp only [hloop, fdLoop_eq_emptyFd, hnot, if_false]
  cases hfilp : getEmptyFilp s.tables with
  | none => exact .inl ⟨rfl, rfl, rfl⟩
  | some f =>
    right
    rcases fileInode with _ | ⟨addr, inode⟩
    · exact ⟨f, _, _, rfl, .inr (.inl rfl)⟩
    · dsimp only
      by_cases hret : ret ≠ 0
      · rw [if_pos hret]
        exact ⟨f, _, _, rfl, .inr (.inl rfl)⟩
      · rw [if_neg hret]
        cases inode.iOp.join with
        | none => exact ⟨f, _, _, rfl, .inl rfl⟩
        | some ops =>
          dsimp only
          split_ifs with hopen
          · exact ⟨f, _, _, rfl, .inr (.inr rfl)⟩
          · exact ⟨f, _, _, rfl, .inl rfl⟩

/-- A slot that is found is written to the descriptor of the loop. -/
theorem sysOpen_record (h : getEmptyFilp s.tables ≠ none) : ∃ l : List ℕ,
      (sysOpen s flag mode ret fileInode).2.filpIndices = s.filpIndices ++ l ∧
        emptyFd (s.tables.tasks s.cur) ∈ l := by
  obtain ⟨l, -, hloop⟩ := fdLoop_snd nrOpen 0 s
  have hcases := sysOpen_cases s flag mode ret fileInode
  simp only [hloop] at hcases
  rcases hcases with ⟨hnone, -⟩ | ⟨f, file, ino, -, heq | heq | heq⟩
  · exact absurd hnone h
  all_goals
    rw [heq]
    simp only [State.setFile, writeFilp, List.append_assoc]
    exact ⟨_, rfl, by simp⟩

theorem within_sysOpen
    (h : getEmptyFilp s.tables = none ∨ emptyFd (s.tables.tasks s.cur) < nrOpen) :
    Within s (sysOpen s flag mode ret fileInode).2 := by
  have hloop := within_fdLoop s
  rcases sysOpen_cases s flag mode ret fileInode with
    ⟨-, -, heq⟩ | ⟨f, file, ino, hsome, hcases⟩
  · rw [heq]
    exact hloop
  · -- there is a slot, so the descriptor is one of the task
    have hlt : emptyFd (s.tables.tasks s.cur) < nrOpen := by
      rcases h with hnone | hlt
      · rw [hnone] at hsome
        cases hsome
      · exact hlt
    have hwrite := hloop.trans (within_writeFilp hlt (some f))
    rcases hcases with heq | heq | heq
    · rw [heq]
      exact hwrite.trans (within_setFile _ _ _ _)
    · rw [heq]
      exact (hwrite.trans (within_writeFilp hlt none)).trans (within_setFile _ _ _ _)
    · rw [heq]
      exact (hwrite.trans (within_setFile _ _ _ _)).trans (within_writeFilp hlt none)

theorem contract_open_iff :
    (SysCall.open flag mode ret fileInode).Contract s ↔
      (Full s → getEmptyFilp s.tables = none) := by
  have hle := emptyFd_le (s.tables.tasks s.cur)
  constructor
  · intro h hfull
    by_contra hsome
    obtain ⟨l, hl, hmem⟩ := sysOpen_record s flag mode ret fileInode hsome
    rw [(full_iff s).mp hfull] at hmem
    exact not_within hl hmem h.within
  · intro h
    constructor
    · refine within_sysOpen s flag mode ret fileInode ?_
      by_cases hfull : Full s
      · exact .inl (h hfull)
      · have := mt (full_iff s).mpr hfull
        exact .inr (by omega)
    · intro hfull
      rcases sysOpen_cases s flag mode ret fileInode with ⟨-, heq, -⟩ | ⟨f, _, _, hsome, -⟩
      · exact ⟨_, rfl, by rw [heq]; decide⟩
      · rw [h hfull] at hsome
        cases hsome

end

/-! ## All calls -/

/-- **The bounds.**  A call keeps to the descriptors of the task and refuses what it has to
refuse, exactly if the index of `pwd` is not let through and the call comes back at all. -/
theorem contract_iff (s : State) (c : SysCall) : c.Contract s ↔ c.Meets s := by
  cases c with
  | «open» flag mode ret fileInode => exact contract_open_iff s flag mode ret fileInode
  | close fd => exact iff_of_true (contract_close s fd) trivial
  | read fd answer => exact iff_of_true (contract_read s fd answer) trivial
  | ioctl fd answer => exact contract_ioctl_iff s fd answer
  | bind fd answer => exact contract_bind_iff s fd answer
  | accept fd a => exact contract_accept_iff s fd a
  | socket family type protocol a =>
    exact iff_of_true ⟨within_sysSocket s family type protocol a,
      fun h => ⟨_, rfl, sysSocket_of_full h family type protocol a⟩⟩ trivial

/-- A task whose descriptors are all open on the slot 0. -/
def fullTask : State :=
  { boot with
    tables := { boot.tables with
      FILP := fun f => if f = 0 then ⟨0, 0, 0, 16, some socketInode, some socketFileOps⟩ else zeroFile
      tasks := fun _ => ⟨fun _ => some 0, .dir⟩ } }

/-- The seventeenth `sys_open` succeeds, returns `NR_OPEN` and has overwritten `pwd`. -/
theorem open_overwrites_pwd :
    (sysOpen fullTask 0 0 0 (some (0, ⟨none, 0⟩))).1 = nrOpen ∧
      ((sysOpen fullTask 0 0 0 (some (0, ⟨none, 0⟩))).2.tables.tasks 0).pwd = .file (some 1) ∧
      ¬ (SysCall.open 0 0 0 (some (0, ⟨none, 0⟩))).Contract fullTask := by
  refine ⟨by decide, by decide, fun h => ?_⟩
  obtain ⟨-, -, hpwd⟩ := h.within
  exact absurd hpwd (by decide)

end

end Descriptors

end Yap
