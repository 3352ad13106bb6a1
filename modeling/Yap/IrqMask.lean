/-
# The interrupt mask (`kernel/interrupt.c`, `proc/spinlock.c`, `arch/arm/s3c24xx_irq.c`)

Three kinds of regions keep interrupts away, and they share one bit of the status register:

  * `enter_critical` and `exit_critical` count how deeply they are nested;
  * `local_irq_save` and `local_irq_restore` put back what was there before;
  * `spin_lock_irq` and `spin_unlock_irq` set the bit and clear it, whatever was there.

A region that clears the bit at its end may lie inside another one, which is then open without
protection.  `masked_iff` says for which programs this does not happen, for every way of nesting
the regions.
-/
import Mathlib.Data.List.Count
import Mathlib.Tactic

namespace Yap

namespace IrqMask

open List BitVec

/-- The status register of the processor, the counter of critical sections, and `OSIntNesting`. -/
structure Cpu where
  cpsr : BitVec 32
  cirticalLock : BitVec 32
  osIntNesting : BitVec 32
  deriving DecidableEq, Repr

namespace Cpu

variable (c : Cpu)

/-- The `I` bit. -/
def masked : Bool := c.cpsr.getLsbD 7

/-- `enable_irq()`. -/
def enableIrq : Cpu := { c with cpsr := c.cpsr &&& ~~~(0x80 : BitVec 32) }

/-- `disable_irq()`. -/
def disableIrq : Cpu := { c with cpsr := c.cpsr ||| (0x80 : BitVec 32) }

/-- `kernel_enable_irq()`. -/
def kernelEnableIrq : Cpu := if c.osIntNesting > 0 then c else c.enableIrq

/-- `kernel_disable_irq()`. -/
def kernelDisableIrq : Cpu := if c.osIntNesting > 0 then c else c.disableIrq

/-- `enter_critical()`. -/
def enterCritical : Cpu :=
  if c.osIntNesting > 0 then c
  else disableIrq { c with cirticalLock := c.cirticalLock + 1 }

/-- `exit_critical()`. -/
def exitCritical : Cpu :=
  if c.osIntNesting > 0 then c
  else
    let c := if c.cirticalLock > 0 then { c with cirticalLock := c.cirticalLock - 1 } else c
    if c.cirticalLock ≠ 0 then c else c.enableIrq

/-- `arch_local_irq_save()`: the register before, and the state after. -/
def archLocalIrqSave : BitVec 32 × Cpu := (c.cpsr, c.disableIrq)

/-- `arch_local_irq_restore(flags)`. -/
def archLocalIrqRestore (flags : BitVec 32) : Cpu := { c with cpsr := flags }

/-- `raw_spin_lock_irq(lock)`.  On this processor the lock itself is a plain store, and the count
of `preempt_disable` does not touch the mask. -/
def rawSpinLockIrq : Cpu := c.kernelDisableIrq

/-- `raw_spin_unlock_irq(lock)`. -/
def rawSpinUnlockIrq : Cpu := c.kernelEnableIrq

end Cpu

/-! ## Programs -/

/-- The three kinds of regions. -/
inductive Region : Type where
  | critical
  | irqSave
  | spinLockIrq
  deriving DecidableEq, Repr

/-- What starts the region: the flags that are saved, if the region saves any, and the state. -/
def Region.open : Region → Cpu → BitVec 32 × Cpu
  | critical, c => (0, c.enterCritical)
  | irqSave, c => c.archLocalIrqSave
  | spinLockIrq, c => (0, c.rawSpinLockIrq)

/-- What ends the region. -/
def Region.close (flags : BitVec 32) : Region → Cpu → Cpu
  | critical, c => c.exitCritical
  | irqSave, c => c.archLocalIrqRestore flags
  | spinLockIrq, c => c.rawSpinUnlockIrq

/-- A properly nested program: regions one after another, each with a program inside. -/
inductive Prog : Type where
  | done : Prog
  | seq (r : Region) (body rest : Prog) : Prog
  deriving DecidableEq, Repr

namespace Prog

def exec : Prog → Cpu → Cpu
  | done, c => c
  | seq r body rest, c =>
    let start := r.open c
    exec rest (r.close start.1 (exec body start.2))

/-- The state at every point of the program, after the start and after the end of each region,
with the number of regions that are open there; `depth` are open around the program. -/
def points : Prog → ℕ → Cpu → List (ℕ × Cpu)
  | done, _, _ => []
  | seq r body rest, depth, c =>
    let start := r.open c
    let after := r.close start.1 (exec body start.2)
    ((depth + 1, start.2) :: points body (depth + 1) start.2) ++
      (depth, after) :: points rest depth after

/-- The regions of the program, each with those that are open around it. -/
def regions : Prog → List Region → List (Region × List Region)
  | done, _ => []
  | seq r body rest, around => (r, around) :: (regions body (r :: around) ++ regions rest around)

end Prog

/-- Interrupts are masked where a region is open, and only there. -/
def Protected (p : Prog) (depth : ℕ) (c : Cpu) : Prop :=
  ∀ pt ∈ p.points depth c, pt.2.masked = true ↔ 0 < pt.1

/-- A region of this kind may lie inside the regions `around`: one that restores the mask may lie
anywhere, a critical section inside a critical section, and everything at the top.  (The counter
has 32 bits.) -/
def Region.MayLie (around : List Region) : Region → Prop
  | irqSave => True
  | spinLockIrq => around = []
  | critical => around = [] ∨ critical ∈ around ∧ around.count critical + 1 < 2 ^ 32

section

variable {c c' : Cpu} {around : List Region} {p : Prog}

/-! ## The operations in task context -/

@[simp] theorem masked_enableIrq (c : Cpu) : c.enableIrq.masked = false := by
  simp [Cpu.masked, Cpu.enableIrq]

@[simp] theorem masked_disableIrq (c : Cpu) : c.disableIrq.masked = true := by
  simp [Cpu.masked, Cpu.disableIrq]

@[simp] theorem osIntNesting_enableIrq (c : Cpu) :
    c.enableIrq.osIntNesting = c.osIntNesting := rfl

@[simp] theorem osIntNesting_disableIrq (c : Cpu) :
    c.disableIrq.osIntNesting = c.osIntNesting := rfl

@[simp] theorem cirticalLock_enableIrq (c : Cpu) :
    c.enableIrq.cirticalLock = c.cirticalLock := rfl

@[simp] theorem cirticalLock_disableIrq (c : Cpu) :
    c.disableIrq.cirticalLock = c.cirticalLock := rfl

section

variable (hctx : c.osIntNesting = 0)

include hctx

/-- Every region starts with interrupts masked. -/
theorem open_spec (r : Region) :
    (r.open c).2.masked = true ∧ (r.open c).2.osIntNesting = 0 ∧
      (r.open c).2.cirticalLock = c.cirticalLock + if r = .critical then 1 else 0 := by
  cases r with
  | critical => simp [Region.open, Cpu.enterCritical, hctx]
  | irqSave => simp [Region.open, Cpu.archLocalIrqSave, hctx]
  | spinLockIrq => simp [Region.open, Cpu.rawSpinLockIrq, Cpu.kernelDisableIrq, hctx]

theorem close_spinLockIrq (flags : BitVec 32) :
    (Region.spinLockIrq.close flags c).masked = false ∧
      (Region.spinLockIrq.close flags c).cirticalLock = c.cirticalLock := by
  simp [Region.close, Cpu.rawSpinUnlockIrq, Cpu.kernelEnableIrq, hctx]

/-- The end of a critical section that was counted as the outermost one. -/
theorem close_critical_enables (h : c.cirticalLock = 0 ∨ c.cirticalLock = 1) (flags : BitVec 32) :
    (Region.critical.close flags c).masked = false ∧
      (Region.critical.close flags c).cirticalLock = 0 := by
  rcases h with h | h <;> simp [Region.close, Cpu.exitCritical, hctx, h]

/-- The end of a critical section that was counted as an inner one. -/
theorem close_critical_keeps (h : ¬ (c.cirticalLock = 0 ∨ c.cirticalLock = 1)) (flags : BitVec 32) :
    (Region.critical.close flags c).masked = c.masked ∧
      (Region.critical.close flags c).cirticalLock = c.cirticalLock - 1 := by
  have hpos : c.cirticalLock > 0 := by bv_omega
  have hne : c.cirticalLock - 1 ≠ 0 := by bv_omega
  simp only [Region.close, Cpu.exitCritical, hctx, gt_iff_lt, hpos, if_true, ne_eq, hne,
    not_false_eq_true]
  exact ⟨rfl, rfl⟩

/-- A critical section with nothing inside.  The largest count wraps to 0, and stays there. -/
theorem exitCritical_enterCritical (h : c.cirticalLock ≠ 0xffffffff) :
    c.enterCritical.exitCritical.osIntNesting = 0 ∧
      c.enterCritical.exitCritical.cirticalLock = c.cirticalLock := by
  have hpos : c.cirticalLock + 1 > 0 := by bv_omega
  simp only [Cpu.enterCritical, hctx, Cpu.exitCritical, gt_iff_lt, BitVec.lt_irrefl, if_false,
    cirticalLock_disableIrq, osIntNesting_disableIrq, hpos, if_true, BitVec.add_sub_cancel]
  split_ifs
  · exact ⟨rfl, rfl⟩
  · exact ⟨rfl, rfl⟩

end

variable {body : Prog} {depth : ℕ} {r : Region}

theorem osIntNesting_close (flags : BitVec 32) (r : Region) (c : Cpu) :
    (r.close flags c).osIntNesting = c.osIntNesting := by
  cases r with
  | critical =>
    simp only [Region.close, Cpu.exitCritical]
    split_ifs <;> rfl
  | irqSave => rfl
  | spinLockIrq =>
    simp only [Region.close, Cpu.rawSpinUnlockIrq, Cpu.kernelEnableIrq]
    split_ifs <;> rfl

theorem osIntNesting_exec (p : Prog) (hctx : c.osIntNesting = 0) :
    (p.exec c).osIntNesting = 0 := by
  induction p generalizing c with
  | done => exact hctx
  | seq r body rest ihbody ihrest =>
    refine ihrest ?_
    rw [osIntNesting_close]
    exact ihbody (open_spec hctx r).2.1

/-! ## The counter -/

/-- If interrupts are masked throughout, the counter is as before: a critical section that leaves
another value behind has cleared the mask. -/
theorem cirticalLock_exec (p : Prog) (depth : ℕ) (hctx : c.osIntNesting = 0)
    (h : ∀ pt ∈ p.points depth c, pt.2.masked = true) :
    (p.exec c).cirticalLock = c.cirticalLock := by
  induction p generalizing c depth with
  | done => rfl
  | seq r body rest ihbody ihrest =>
    obtain ⟨-, hnest, hcount⟩ := open_spec hctx r
    simp only [Prog.points, mem_append, mem_cons] at h
    have hbody := ihbody (depth + 1) hnest fun pt hpt => h pt (.inl (.inr hpt))
    have hend := h _ (.inr (.inl rfl))
    have hnest' := osIntNesting_exec body hnest
    have hafter : (r.close (r.open c).1 (body.exec (r.open c).2)).cirticalLock =
        c.cirticalLock := by
      cases r with
      | irqSave => simpa [Region.close, Cpu.archLocalIrqRestore] using hbody.trans hcount
      | spinLockIrq => exact absurd hend (by simp [(close_spinLockIrq hnest' _).1])
      | critical =>
        rw [if_pos rfl] at hcount
        by_cases houter : (body.exec (Region.critical.open c).2).cirticalLock = 0 ∨
            (body.exec (Region.critical.open c).2).cirticalLock = 1
        · exact absurd hend (by simp [(close_critical_enables hnest' houter _).1])
        · rw [(close_critical_keeps hnest' houter _).2, hbody, hcount, BitVec.add_sub_cancel]
    rw [Prog.exec, ihrest depth (by rw [osIntNesting_close]; exact hnest')
      fun pt hpt => h pt (.inr (.inr hpt)), hafter]

/-! ## Programs -/

/-- The state is what the open regions call for. -/
structure Matches (around : List Region) (c : Cpu) : Prop where
  nesting : c.osIntNesting = 0
  masked : c.masked = true ↔ 0 < around.length
  count : c.cirticalLock = BitVec.ofNat 32 (around.count .critical)
  small : around.count .critical < 2 ^ 32

theorem Matches.open_iff (h : Matches around c) (r : Region) :
    Matches (r :: around) (r.open c).2 ↔ (r :: around).count .critical < 2 ^ 32 := by
  obtain ⟨hmask, hnest, hcount⟩ := open_spec h.nesting r
  refine ⟨fun hm => hm.small, fun hsmall => ⟨hnest, by simp [hmask], ?_, hsmall⟩⟩
  rw [hcount, h.count, count_cons]
  cases r <;> simp [ofNat_add]

theorem count_lt_of_mayLie (hsmall : around.count .critical < 2 ^ 32)
    (h : r.MayLie around) : (r :: around).count .critical < 2 ^ 32 := by
  cases r with
  | irqSave => simpa using hsmall
  | spinLockIrq => simpa using hsmall
  | critical =>
    rw [count_cons_self]
    rcases h with rfl | ⟨-, hlt⟩
    · simp
    · exact hlt

/-- The end of a region leaves what the regions around it call for. -/
theorem Matches.close (h : Matches around c) (hlie : r.MayLie around)
    (h' : Matches (r :: around) c') : Matches around (r.close (r.open c).1 c') := by
  have hnest : (r.close (r.open c).1 c').osIntNesting = 0 := by
    rw [osIntNesting_close]
    exact h'.nesting
  have hcount := h'.count
  cases r with
  | irqSave =>
    exact ⟨hnest, h.masked, hcount, h.small⟩
  | spinLockIrq =>
    obtain ⟨hmask, hlock⟩ := close_spinLockIrq h'.nesting (Region.spinLockIrq.open c).1
    have hnil : around = [] := hlie
    subst hnil
    exact ⟨hnest, by simp [hmask], hlock.trans hcount, h.small⟩
  | critical =>
    have hlt := count_lt_of_mayLie h.small hlie
    rw [count_cons_self] at hcount hlt
    by_cases hin : Region.critical ∈ around
    · have hpos : 0 < around.count .critical := count_pos_iff.mpr hin
      have hinner : ¬ (c'.cirticalLock = 0 ∨ c'.cirticalLock = 1) := by
        rw [hcount]
        rintro (heq | heq)
        · have := congrArg BitVec.toNat heq
          simp only [toNat_ofNat, Nat.mod_eq_of_lt hlt] at this
          simp at this
        · have := congrArg BitVec.toNat heq
          simp at this
          omega
      obtain ⟨hmask, hlock⟩ := close_critical_keeps h'.nesting hinner (Region.critical.open c).1
      refine ⟨hnest, ?_, ?_, h.small⟩
      · rw [hmask, h'.masked]
        simp [length_pos_of_mem hin]
      · rw [hlock, hcount, ofNat_add]
        exact BitVec.add_sub_cancel _ _
    · have hnil : around = [] := by
        rcases hlie with hnil | ⟨hin', -⟩
        · exact hnil
        · exact absurd hin' hin
      subst hnil
      obtain ⟨hmask, hlock⟩ := close_critical_enables h'.nesting (.inr hcount)
        (Region.critical.open c).1
      exact ⟨hnest, by simp [hmask], by simp [hlock], h.small⟩

theorem le_of_mem_points {pt : ℕ × Cpu} (h : pt ∈ p.points depth c) :
    depth ≤ pt.1 := by
  induction p generalizing depth c with
  | done => simp [Prog.points] at h
  | seq r body rest ihbody ihrest =>
    simp only [Prog.points, mem_append, mem_cons] at h
    rcases h with (rfl | h) | rfl | h
    · exact Nat.le_succ depth
    · exact (Nat.le_succ depth).trans (ihbody h)
    · exact le_rfl
    · exact ihrest h

theorem protected_seq_iff {body rest : Prog}
    (hctx : c.osIntNesting = 0) : Protected (.seq r body rest) depth c ↔
      Protected body (depth + 1) (r.open c).2 ∧
        ((r.close (r.open c).1 (body.exec (r.open c).2)).masked = true ↔ 0 < depth) ∧
        Protected rest depth (r.close (r.open c).1 (body.exec (r.open c).2)) := by
  have hstart := (open_spec hctx r).1
  simp only [Protected, Prog.points, mem_append, mem_cons]
  constructor
  · intro h
    have hend := h (depth, r.close (r.open c).1 (body.exec (r.open c).2)) (.inr (.inl rfl))
    exact ⟨fun pt hpt => h pt (.inl (.inr hpt)), hend, fun pt hpt => h pt (.inr (.inr hpt))⟩
  · rintro ⟨hbody, hend, hrest⟩ pt ((rfl | hpt) | rfl | hpt)
    · simp [hstart]
    · exact hbody pt hpt
    · exact hend
    · exact hrest pt hpt

/-- A region that must not lie where it lies clears the mask too early. -/
theorem mayLie_of_protected (h : Matches around c)
    (hbody : Protected body (around.length + 1) (r.open c).2)
    (hend : (r.close (r.open c).1 (body.exec (r.open c).2)).masked = true ↔ 0 < around.length) :
    r.MayLie around := by
  obtain ⟨-, hnest, hcount⟩ := open_spec h.nesting r
  have hnest' := osIntNesting_exec body hnest
  have hnil : ¬ 0 < around.length → around = [] := by
    intro hlen
    exact length_eq_zero_iff.mp (by omega)
  cases r with
  | irqSave => trivial
  | spinLockIrq =>
    apply hnil
    rw [← hend, (close_spinLockIrq hnest' _).1]
    simp
  | critical =>
    -- inside the region all is masked, so that its end finds the counter as its start left it
    have hlock : (body.exec (Region.critical.open c).2).cirticalLock =
        BitVec.ofNat 32 (around.count .critical) + 1 := by
      rw [cirticalLock_exec body _ hnest
        fun pt hpt => (hbody pt hpt).mpr (by have := le_of_mem_points hpt; omega), hcount, h.count]
      rfl
    by_cases houter : (body.exec (Region.critical.open c).2).cirticalLock = 0 ∨
        (body.exec (Region.critical.open c).2).cirticalLock = 1
    · left
      apply hnil
      rw [← hend, (close_critical_enables hnest' houter _).1]
      simp
    · right
      rw [hlock] at houter
      have hsmall := h.small
      have hpos : around.count .critical ≠ 0 := by
        intro hzero
        rw [hzero] at houter
        exact houter (.inr rfl)
      have hnot : around.count .critical + 1 ≠ 2 ^ 32 := by
        intro heq
        refine houter (.inl ?_)
        rw [show (1 : BitVec 32) = BitVec.ofNat 32 1 from rfl, ← ofNat_add, heq]
        decide
      exact ⟨count_pos_iff.mp (Nat.pos_of_ne_zero hpos), by omega⟩

/-- A program inside the regions `around`. -/
theorem protected_iff (p : Prog) (h : Matches around c) :
    (Protected p around.length c ↔ ∀ x ∈ p.regions around, x.1.MayLie x.2) ∧
      ((∀ x ∈ p.regions around, x.1.MayLie x.2) → Matches around (p.exec c)) := by
  induction p generalizing around c with
  | done => exact ⟨by simp [Protected, Prog.points, Prog.regions], fun _ => h⟩
  | seq r body rest ihbody ihrest =>
    have hregions : (∀ x ∈ (Prog.seq r body rest).regions around, x.1.MayLie x.2) ↔
        r.MayLie around ∧ (∀ x ∈ body.regions (r :: around), x.1.MayLie x.2) ∧
          ∀ x ∈ rest.regions around, x.1.MayLie x.2 := by
      simp only [Prog.regions, forall_mem_cons, forall_mem_append]
    rw [hregions, protected_seq_iff h.nesting]
    -- what is left once the region itself is where it may lie
    have hstep : r.MayLie around →
        (Protected body (around.length + 1) (r.open c).2 ↔
          ∀ x ∈ body.regions (r :: around), x.1.MayLie x.2) ∧
        ((∀ x ∈ body.regions (r :: around), x.1.MayLie x.2) →
          Matches around (r.close (r.open c).1 (body.exec (r.open c).2))) := by
      intro hlie
      have hopen := (h.open_iff r).mpr (count_lt_of_mayLie h.small hlie)
      obtain ⟨hiff, hmatches⟩ := ihbody hopen
      exact ⟨hiff, fun hall => h.close hlie (hmatches hall)⟩
    constructor
    · constructor
      · rintro ⟨hbody, hend, hrest⟩
        have hlie := mayLie_of_protected h hbody hend
        obtain ⟨hiff, hafter⟩ := hstep hlie
        have hall := hiff.mp hbody
        exact ⟨hlie, hall, (ihrest (hafter hall)).1.mp hrest⟩
      · rintro ⟨hlie, hall, hrest⟩
        obtain ⟨hiff, hafter⟩ := hstep hlie
        exact ⟨hiff.mpr hall, (hafter hall).masked, (ihrest (hafter hall)).1.mpr hrest⟩
    · rintro ⟨hlie, hall, hrest⟩
      exact (ihrest ((hstep hlie).2 hall)).2 hrest

/-- **The mask.**  Started in task context with interrupts enabled, a program has interrupts masked
exactly where a region is open, if and only if all its regions lie where they may. -/
theorem masked_iff (p : Prog) (c : Cpu) (hctx : c.osIntNesting = 0) (hlock : c.cirticalLock = 0)
    (henabled : c.masked = false) :
    (∀ pt ∈ p.points 0 c, pt.2.masked = true ↔ 0 < pt.1) ↔
      ∀ x ∈ p.regions [], x.1.MayLie x.2 := by
  have h : Matches [] c := ⟨hctx, by simp [henabled], hlock, by simp⟩
  exact (protected_iff p h).1

/-- Supervisor mode, with interrupts enabled. -/
def enabled : Cpu := ⟨0x13, 0, 0⟩

/-- A critical section inside a region that saves the mask, inside a critical section. -/
theorem masked_iff_mixed :
    (Prog.points (.seq .critical (.seq .irqSave (.seq .critical .done .done) .done) .done) 0
      enabled).all (fun pt => pt.2.masked == decide (0 < pt.1)) = true := by
  have hregions : ∀ x ∈ Prog.regions (.seq .critical (.seq .irqSave
      (.seq .critical .done .done) .done) .done) [], x.1.MayLie x.2 := by
    simp [Prog.regions, Region.MayLie]
  have hmasked := (masked_iff _ enabled rfl rfl rfl).mpr hregions
  rw [List.all_eq_true]
  intro pt hpt
  rw [beq_iff_eq, Bool.eq_iff_iff, hmasked pt hpt, decide_eq_true_iff]

/-- `do_wait_for_common` calls `set_current_state`, a critical section, while it holds a
`spin_lock_irq`; after that the lock is held with interrupts enabled. -/
theorem critical_in_spinLock_unmasks :
    (1, (Region.critical.close 0 (Region.critical.open (Region.spinLockIrq.open enabled).2).2)) ∈
        Prog.points (.seq .spinLockIrq (.seq .critical .done .done) .done) 0 enabled ∧
      (Region.critical.close 0
        (Region.critical.open (Region.spinLockIrq.open enabled).2).2).masked = false := by
  decide

end

end IrqMask

end Yap
