/-
# Devices and drivers on a bus (`driver/device.c`)

A bus has a list of devices and a list of drivers.  `driver_register` walks over the devices and
`device_register` over the drivers; where the bus finds a match, the device's `driver` field is set
and the device is probed.  A field that is set should name a registered driver whose probe has
succeeded.

It does not always.  `driver_register` binds every device that matches, also one that has a driver
already, and when a probe fails it returns with the field set although the driver is not put on the
list.  `driver_unregister` clears the field of every device that matches, whoever it belongs to.
`runOk_iff` says which runs are free of this.
-/
import Yap.Headers
import Mathlib.Data.List.Basic
import Mathlib.Logic.Function.Basic
import Mathlib.Tactic

namespace Yap

namespace DeviceBind

open List Function Option

/-- `struct bus_type` and the `probe` fields of the drivers: the match function, if there is one,
and whether there are probe functions. -/
structure Bus where
  busMatch : Option (ℕ → ℕ → Bool)
  busProbe : Bool
  drvProbe : ℕ → Bool

/-- `bus->match(dev, drv)`. -/
def Bus.hasMatch (b : Bus) (dev drv : ℕ) : Prop := b.busMatch.any (fun m => m dev drv) = true

instance (b : Bus) (dev drv : ℕ) : Decidable (b.hasMatch dev drv) :=
  inferInstanceAs (Decidable (_ = true))

/-- `bus->probe || drv->probe`. -/
def Bus.canProbe (b : Bus) (drv : ℕ) : Prop := b.busProbe = true ∨ b.drvProbe drv = true

instance (b : Bus) (drv : ℕ) : Decidable (b.canProbe drv) :=
  inferInstanceAs (Decidable (_ ∨ _))

/-- The lists of the bus, the `driver` fields, and whether the `list` field of an object that is in
no list points to itself (otherwise it is null).  `lastProbe` records the last probe of a device:
the driver and what it returned. -/
structure State where
  devs : List ℕ
  drvs : List ℕ
  driver : ℕ → Option ℕ
  devInit : ℕ → Bool
  drvInit : ℕ → Bool
  lastProbe : ℕ → Option (ℕ × ℤ)

namespace State

/-- `dev->driver = drv`. -/
def setDriver (s : State) (dev : ℕ) (drv : Option ℕ) : State :=
  { s with driver := update s.driver dev drv }

/-- A probe of `dev` by `drv` that returns `ret`. -/
def probed (s : State) (dev drv : ℕ) (ret : ℤ) : State :=
  { s with lastProbe := update s.lastProbe dev (some (drv, ret)) }

end State

/-- `list_add_tail`.  A node that is in the list already cuts off what follows it, or is linked to
itself and keeps the walks from ending; then there is no result. -/
def listAddTail (l : List ℕ) (x : ℕ) : Option (List ℕ) :=
  if x ∈ l then none else some (l ++ [x])

/-- `list_del`.  A node that is in no list is left alone if it points to itself, and is a fault if
its pointers are null. -/
def listDel (l : List ℕ) (init : Bool) (x : ℕ) : Option (List ℕ) :=
  if x ∈ l then some (l.erase x) else if init then some l else none

/-! ## The calls -/

/-- The loop of `driver_register`, with the value of `ret`; `probe dev` is what the probe of `dev`
returns.  The flag says that the loop has returned. -/
def probeLoop (b : Bus) (drv : ℕ) (probe : ℕ → ℤ) : List ℕ → ℤ → State → (ℤ × Bool) × State
  | [], ret, s => ((ret, false), s)
  | dev :: devs, ret, s =>
    if b.hasMatch dev drv then
      let s := s.setDriver dev (some drv)
      if b.canProbe drv then
        let s := s.probed dev drv (probe dev)
        if probe dev < 0 then ((probe dev, true), s)
        else probeLoop b drv probe devs (probe dev) s
      else ((-EINVAL, true), s)
    else probeLoop b drv probe devs ret s

/-- `driver_register(drv)`; there is no result if the list is broken. -/
def driverRegister (b : Bus) (s : State) (drv : Option ℕ) (probe : ℕ → ℤ) : Option (ℤ × State) :=
  match drv with
  | none => some (-EINVAL, s)
  | some drv =>
    if b.busMatch.isNone then some (-EINVAL, s)
    else if ¬ b.canProbe drv then some (-EINVAL, s)
    else
      match probeLoop b drv probe s.devs 0 s with
      | ((ret, true), s) => some (ret, s)
      | ((ret, false), s) => (listAddTail s.drvs drv).map fun drvs => (ret, { s with drvs := drvs })

/-- The loop of `driver_unregister`.  The `remove` functions do not touch the lists. -/
def unbindLoop (b : Bus) (drv : ℕ) : List ℕ → State → State
  | [], s => s
  | dev :: devs, s =>
    unbindLoop b drv devs (if b.hasMatch dev drv then s.setDriver dev none else s)

/-- `driver_unregister(drv)`. -/
def driverUnregister (b : Bus) (s : State) (drv : Option ℕ) : Option (ℤ × State) :=
  match drv with
  | none => some (-EINVAL, s)
  | some drv =>
    let s := unbindLoop b drv s.devs s
    (listDel s.drvs (s.drvInit drv) drv).map fun drvs =>
      (0, { s with drvs := drvs, drvInit := update s.drvInit drv true })

/-- The loop of `device_register`: only the first driver that matches is tried, and the probe
returns `ret`. -/
def bindFirst (b : Bus) (s : State) (dev : ℕ) (ret : ℤ) : ℤ × State :=
  match s.drvs.find? fun drv => b.hasMatch dev drv with
  | none => (0, s)
  | some drv =>
    let s := s.setDriver dev (some drv)
    if b.canProbe drv then (ret, s.probed dev drv ret) else (0, s)

/-- `device_register(dev)`. -/
def deviceRegister (b : Bus) (s : State) (dev : Option ℕ) (ret : ℤ) : Option (ℤ × State) :=
  match dev with
  | none => some (-EINVAL, s)
  | some dev =>
    if b.busMatch.isNone then some (-EINVAL, s)
    else
      let r := bindFirst b s dev ret
      if r.1 < 0 then some (r.1, r.2.setDriver dev none)
      else (listAddTail r.2.devs dev).map fun devs => (r.1, { r.2 with devs := devs })

/-- `device_unregister(dev)`. -/
def deviceUnregister (s : State) (dev : Option ℕ) : Option (ℤ × State) :=
  match dev with
  | none => some (-EINVAL, s)
  | some dev =>
    let s := s.setDriver dev none
    (listDel s.devs (s.devInit dev) dev).map fun devs =>
      (0, { s with devs := devs, devInit := update s.devInit dev true })

/-- One call, with what the probes return. -/
inductive Op : Type where
  | driverRegister (drv : Option ℕ) (probe : ℕ → ℤ) : Op
  | driverUnregister (drv : Option ℕ) : Op
  | deviceRegister (dev : Option ℕ) (ret : ℤ) : Op
  | deviceUnregister (dev : Option ℕ) : Op

def step (b : Bus) (s : State) : Op → Option (ℤ × State)
  | .driverRegister drv probe => DeviceBind.driverRegister b s drv probe
  | .driverUnregister drv => DeviceBind.driverUnregister b s drv
  | .deviceRegister dev ret => DeviceBind.deviceRegister b s dev ret
  | .deviceUnregister dev => DeviceBind.deviceUnregister s dev

/-! ## The binding -/

/-- **The invariant.**  The driver of a registered device is registered, the bus matches the two,
and the last probe of the device was by this driver and has succeeded. -/
def Bound (b : Bus) (s : State) : Prop :=
  ∀ dev ∈ s.devs, ∀ drv, s.driver dev = some drv →
    drv ∈ s.drvs ∧ b.hasMatch dev drv ∧ ∃ ret, s.lastProbe dev = some (drv, ret) ∧ 0 ≤ ret

/-- A further driver leaves the devices alone that are bound; a driver that goes unbinds its own
devices and no other. -/
def Op.Keeps (s s' : State) : Op → Prop
  | .driverRegister _ _ => ∀ dev ∈ s.devs, s.driver dev ≠ none → s'.driver dev = s.driver dev
  | .driverUnregister (some drv) => ∀ dev ∈ s.devs,
      s'.driver dev = if s.driver dev = some drv then none else s.driver dev
  | .driverUnregister none | .deviceRegister _ _ | .deviceUnregister _ => True

/-- Every call of the run leaves the lists whole, the devices bound as they should be, and the
bindings of the others alone. -/
def RunOk (b : Bus) : List Op → State → Prop
  | [], _ => True
  | op :: ops, s => ∃ ret s', step b s op = some (ret, s') ∧ Bound b s' ∧ op.Keeps s s' ∧
      RunOk b ops s'

/-- The condition on a call: a new driver matches only devices that have none, and all its probes
succeed; a driver that goes matches no device of another; and no object is linked twice. -/
def Op.Meets (b : Bus) (s : State) : Op → Prop
  | .driverRegister (some drv) probe => b.busMatch ≠ none → b.canProbe drv →
      drv ∉ s.drvs ∧ ∀ dev ∈ s.devs, b.hasMatch dev drv → s.driver dev = none ∧ 0 ≤ probe dev
  | .driverUnregister (some drv) => (drv ∈ s.drvs ∨ s.drvInit drv = true) ∧
      ∀ dev ∈ s.devs, b.hasMatch dev drv → s.driver dev = some drv ∨ s.driver dev = none
  | .deviceRegister (some dev) ret => b.busMatch ≠ none → dev ∈ s.devs →
      (∃ drv ∈ s.drvs, b.hasMatch dev drv) ∧ ret < 0
  | .deviceUnregister (some dev) => dev ∈ s.devs ∨ s.devInit dev = true
  | .driverRegister none _ | .driverUnregister none | .deviceRegister none _
  | .deviceUnregister none => True

/-- Every call of the run meets the condition in the state before it. -/
def AllMeet (b : Bus) : List Op → State → Prop
  | [], _ => True
  | op :: ops, s => op.Meets b s ∧ ∀ ret s', step b s op = some (ret, s') → AllMeet b ops s'

/-- Nothing is registered. -/
def init (devInit drvInit : ℕ → Bool) : State :=
  ⟨[], [], fun _ => none, devInit, drvInit, fun _ => none⟩

section

variable {b : Bus} {s s' : State} {drv dev : ℕ} {probe : ℕ → ℤ}

/-! ## The loops -/

/-- The devices of `l` that match have been probed by `drv`, with success. -/
structure AllProbed (b : Bus) (drv : ℕ) (probe : ℕ → ℤ) (l : List ℕ) (s s' : State) : Prop where
  devs : s'.devs = s.devs
  drvs : s'.drvs = s.drvs
  driver : ∀ dev, s'.driver dev = if dev ∈ l ∧ b.hasMatch dev drv then some drv else s.driver dev
  lastProbe : ∀ dev, s'.lastProbe dev =
    if dev ∈ l ∧ b.hasMatch dev drv then some (drv, probe dev) else s.lastProbe dev

/-- The probe of `dev` has failed. -/
structure Failed (b : Bus) (drv : ℕ) (probe : ℕ → ℤ) (l : List ℕ) (s s' : State) : Prop where
  devs : s'.devs = s.devs
  drvs : s'.drvs = s.drvs
  failed : ∃ dev ∈ l, b.hasMatch dev drv ∧ probe dev < 0 ∧ s'.driver dev = some drv ∧
    s'.lastProbe dev = some (drv, probe dev)

/-- What a loop writes for the devices that match, one after the other. -/
theorem ite_mem_cons {α : Type} (g f : ℕ → α) (d : ℕ) (l : List ℕ) :
    (if d ∈ dev :: l ∧ b.hasMatch d drv then g d else f d) = if d ∈ l ∧ b.hasMatch d drv then g d
      else (if b.hasMatch dev drv then update f dev (g dev) else f) d := by
  by_cases hd : d = dev
  · subst hd
    by_cases hm : b.hasMatch d drv <;> simp [hm]
  · by_cases hm : b.hasMatch dev drv <;> simp [hd, hm]

theorem probeLoop_of_nonneg (hprobe : b.canProbe drv) (l : List ℕ)
    (h : ∀ dev ∈ l, b.hasMatch dev drv → 0 ≤ probe dev) (ret : ℤ) (s : State) :
    (probeLoop b drv probe l ret s).1.2 = false ∧
      AllProbed b drv probe l s (probeLoop b drv probe l ret s).2 := by
  induction l generalizing ret s with
  | nil => exact ⟨rfl, rfl, rfl, by simp [probeLoop], by simp [probeLoop]⟩
  | cons dev l ih =>
    have hrest : ∀ dev ∈ l, b.hasMatch dev drv → 0 ≤ probe dev :=
      fun d hd => h d (mem_cons_of_mem _ hd)
    unfold probeLoop
    by_cases hmatch : b.hasMatch dev drv
    · have hnonneg : ¬ probe dev < 0 := not_lt.mpr (h dev mem_cons_self hmatch)
      simp only [hmatch, hprobe, hnonneg, if_true, if_false]
      obtain ⟨hflag, hall⟩ := ih hrest (probe dev)
        ((s.setDriver dev (some drv)).probed dev drv (probe dev))
      refine ⟨hflag, hall.devs, hall.drvs, fun d => ?_, fun d => ?_⟩
      · rw [hall.driver, ite_mem_cons (fun _ => some drv), if_pos hmatch]
        rfl
      · rw [hall.lastProbe, ite_mem_cons (fun d => some (drv, probe d)), if_pos hmatch]
        rfl
    · simp only [hmatch, if_false]
      obtain ⟨hflag, hall⟩ := ih hrest ret s
      refine ⟨hflag, hall.devs, hall.drvs, fun d => ?_, fun d => ?_⟩
      · rw [hall.driver, ite_mem_cons (fun _ => some drv), if_neg hmatch]
      · rw [hall.lastProbe, ite_mem_cons (fun d => some (drv, probe d)), if_neg hmatch]

/-- The first device whose probe fails ends the loop, and keeps the driver in its field. -/
theorem probeLoop_of_failing (hprobe : b.canProbe drv) (l : List ℕ)
    (h : ∃ dev ∈ l, b.hasMatch dev drv ∧ probe dev < 0) (ret : ℤ) (s : State) :
    (probeLoop b drv probe l ret s).1.2 = true ∧
      Failed b drv probe l s (probeLoop b drv probe l ret s).2 := by
  induction l generalizing ret s with
  | nil => simp at h
  | cons dev l ih =>
    unfold probeLoop
    by_cases hfail : b.hasMatch dev drv ∧ probe dev < 0
    · simp only [hfail, hprobe, if_true]
      refine ⟨trivial, rfl, rfl, dev, mem_cons_self, hfail.1, hfail.2, ?_, ?_⟩
      · simp [State.probed, State.setDriver]
      · simp [State.probed]
    · have hrest := (exists_mem_cons_iff _ _ _).mp h |>.resolve_left hfail
      by_cases hmatch : b.hasMatch dev drv
      · have hneg : ¬ probe dev < 0 := fun hneg => hfail ⟨hmatch, hneg⟩
        simp only [hmatch, hprobe, hneg, if_true, if_false]
        obtain ⟨hflag, hfailed⟩ := ih hrest (probe dev)
          ((s.setDriver dev (some drv)).probed dev drv (probe dev))
        obtain ⟨d', hd', hfailed'⟩ := hfailed.failed
        exact ⟨hflag, hfailed.devs, hfailed.drvs, d', mem_cons_of_mem _ hd', hfailed'⟩
      · simp only [hmatch, if_false]
        obtain ⟨hflag, hfailed⟩ := ih hrest ret s
        obtain ⟨d', hd', hfailed'⟩ := hfailed.failed
        exact ⟨hflag, hfailed.devs, hfailed.drvs, d', mem_cons_of_mem _ hd', hfailed'⟩

theorem unbindLoop_eq (l : List ℕ) (s : State) : unbindLoop b drv l s =
    { s with driver := fun dev => if dev ∈ l ∧ b.hasMatch dev drv then none else s.driver dev } := by
  induction l generalizing s with
  | nil => simp [unbindLoop]
  | cons dev l ih =>
    rw [unbindLoop, ih]
    have hif : (if b.hasMatch dev drv then s.setDriver dev none else s) = { s with
        driver := (if b.hasMatch dev drv then update s.driver dev none else s.driver) } := by
      split_ifs <;> rfl
    rw [hif]
    congr 1
    funext d
    exact (ite_mem_cons (fun _ => none) s.driver d l).symm

theorem listDel_of_linked {l : List ℕ} {init : Bool} {x : ℕ} (h : x ∈ l ∨ init = true) :
    ∃ l', listDel l init x = some l' ∧ (∀ y ∈ l, y ≠ x → y ∈ l') ∧ ∀ y ∈ l', y ∈ l := by
  unfold listDel
  split_ifs with hmem hinit
  · exact ⟨_, rfl, fun d hd hne => (mem_erase_of_ne hne).mpr hd,
      fun d hd => mem_of_mem_erase hd⟩
  · exact ⟨_, rfl, fun d hd _ => hd, fun d hd => hd⟩
  · exact absurd h (by simp [hmem, hinit])

theorem linked_of_listDel {l l' : List ℕ} {init : Bool} {x : ℕ} (h : listDel l init x = some l') :
    x ∈ l ∨ init = true := by
  unfold listDel at h
  split_ifs at h with hmem hinit
  · exact .inl hmem
  · exact .inr hinit

/-! ## One call -/

/-- What holds between the calls of a good run. -/
structure Inv (b : Bus) (s : State) : Prop where
  bound : Bound b s
  canProbe : ∀ drv ∈ s.drvs, b.canProbe drv
  unbound : ∀ dev, dev ∉ s.devs → s.driver dev = none

theorem inv_init (b : Bus) (devInit drvInit : ℕ → Bool) : Inv b (init devInit drvInit) :=
  ⟨by simp [Bound, init], by simp [init], by simp [init]⟩

section

variable (hinv : Inv b s)

include hinv

variable {op : Op} {ret : ℤ}

/-- Only `dev` changes, and is without a driver then or bound as it should be. -/
theorem Inv.change (hdrvs : s'.drvs = s.drvs)
    (hother : ∀ d, d ≠ dev → s'.driver d = s.driver d ∧ s'.lastProbe d = s.lastProbe d ∧
      (d ∈ s'.devs ↔ d ∈ s.devs))
    (hdev : s'.driver dev = none ∨ dev ∈ s'.devs ∧ ∃ drv ∈ s.drvs, b.hasMatch dev drv ∧
      s'.driver dev = some drv ∧ ∃ ret, s'.lastProbe dev = some (drv, ret) ∧ 0 ≤ ret) :
    Inv b s' := by
  refine ⟨fun d hd e he => ?_, by rw [hdrvs]; exact hinv.canProbe, fun d hd => ?_⟩
  · rw [hdrvs]
    by_cases hne : d = dev
    · rw [hne] at he ⊢
      rcases hdev with hnone | ⟨-, drv, hdrv, hm, hdriver, hlast⟩
      · rw [hnone] at he
        cases he
      · rw [hdriver] at he
        cases he
        exact ⟨hdrv, hm, hlast⟩
    · obtain ⟨h1, h2, h3⟩ := hother d hne
      rw [h1] at he
      rw [h2]
      exact hinv.bound d (h3.mp hd) e he
  · by_cases hne : d = dev
    · rw [hne] at hd ⊢
      exact hdev.resolve_right fun h => hd h.1
    · obtain ⟨h1, -, h3⟩ := hother d hne
      rw [h1]
      exact hinv.unbound d fun hmem => hd (h3.mpr hmem)

theorem driverRegister_of_meets (h : (Op.driverRegister (some drv) probe).Meets b s) : ∃ ret s',
      driverRegister b s (some drv) probe = some (ret, s') ∧ Inv b s' ∧
        (Op.driverRegister (some drv) probe).Keeps s s' := by
  unfold driverRegister
  by_cases hmatch : b.busMatch.isNone = true
  · exact ⟨_, s, if_pos hmatch, hinv, fun _ _ _ => rfl⟩
  · by_cases hprobe : b.canProbe drv
    · obtain ⟨hfresh, hdevs⟩ := h (by simpa using hmatch) hprobe
      obtain ⟨hflag, hall⟩ := probeLoop_of_nonneg hprobe s.devs
        (fun dev hdev hm => (hdevs dev hdev hm).2) 0 s
      simp only [hmatch, hprobe, not_true_eq_false, if_false]
      generalize probeLoop b drv probe s.devs 0 s = r at hflag hall
      obtain ⟨⟨ret, flag⟩, s1⟩ := r
      subst hflag
      have hadd : listAddTail s1.drvs drv = some (s1.drvs ++ [drv]) := by
        rw [listAddTail, if_neg (hall.drvs ▸ hfresh)]
      simp only [hadd, map_some]
      refine ⟨_, _, rfl, ⟨?_, ?_, ?_⟩, ?_⟩
      · intro dev hdev d hd
        rw [show ({ s1 with drvs := s1.drvs ++ [drv] } : State).devs = s.devs from hall.devs] at hdev
        rw [hall.driver] at hd
        rw [hall.lastProbe, hall.drvs]
        by_cases hm : dev ∈ s.devs ∧ b.hasMatch dev drv
        · rw [if_pos hm] at hd ⊢
          cases hd
          exact ⟨by simp, hm.2, _, rfl, (hdevs dev hm.1 hm.2).2⟩
        · rw [if_neg hm] at hd ⊢
          obtain ⟨hmem, hmatch, hlast⟩ := hinv.bound dev hdev d hd
          exact ⟨mem_append_left _ hmem, hmatch, hlast⟩
      · intro d hd
        rcases mem_append.mp hd with hd | hd
        · exact hinv.canProbe d (hall.drvs ▸ hd)
        · rw [mem_singleton.mp hd]
          exact hprobe
      · intro dev hdev
        have hdev' : dev ∉ s.devs := hall.devs ▸ hdev
        rw [hall.driver, if_neg (fun h => hdev' h.1)]
        exact hinv.unbound dev hdev'
      · intro dev hdev hbound
        rw [hall.driver, if_neg]
        exact fun hm => hbound (hdevs dev hm.1 hm.2).1
    · refine ⟨-EINVAL, s, ?_, hinv, fun _ _ _ => rfl⟩
      simp only [hmatch, hprobe, not_false_eq_true, if_true, Bool.false_eq_true, if_false]

/-- A device that is bound already is bound anew, and one whose probe fails is left with a driver
that it must not have. -/
theorem meets_of_driverRegister
    (h : driverRegister b s (some drv) probe = some (ret, s')) (hbound : Bound b s')
    (hkeeps : (Op.driverRegister (some drv) probe).Keeps s s') :
    (Op.driverRegister (some drv) probe).Meets b s := by
  intro hmatch hprobe
  have hsome : ¬ b.busMatch.isNone = true := by simpa using hmatch
  unfold driverRegister at h
  simp only [hsome, hprobe, not_true_eq_false, if_false] at h
  -- no probe fails: the device would have a driver whose last probe has failed
  have hnonneg : ∀ dev ∈ s.devs, b.hasMatch dev drv → 0 ≤ probe dev := by
    by_contra hnot
    push Not at hnot
    obtain ⟨hflag, hfailed⟩ := probeLoop_of_failing hprobe s.devs hnot 0 s
    generalize probeLoop b drv probe s.devs 0 s = r at h hflag hfailed
    obtain ⟨⟨ret, flag⟩, s1⟩ := r
    subst hflag
    cases h
    obtain ⟨dev, hdev, -, hneg, hdriver, hlast⟩ := hfailed.failed
    obtain ⟨-, -, ret', hlast', hret'⟩ := hbound dev (hfailed.devs ▸ hdev) drv hdriver
    rw [hlast] at hlast'
    cases hlast'
    omega
  obtain ⟨hflag, hall⟩ := probeLoop_of_nonneg hprobe s.devs hnonneg 0 s
  generalize probeLoop b drv probe s.devs 0 s = r at h hflag hall
  obtain ⟨⟨ret, flag⟩, s1⟩ := r
  subst hflag
  obtain ⟨drvs, hadd, heq⟩ := map_eq_some_iff.mp h
  cases heq
  have hfresh : drv ∉ s.drvs := by
    intro hmem
    rw [listAddTail, if_pos (hall.drvs ▸ hmem)] at hadd
    cases hadd
  refine ⟨hfresh, fun dev hdev hm => ⟨?_, hnonneg dev hdev hm⟩⟩
  by_contra hne
  have hsame := hkeeps dev hdev hne
  rw [hall.driver, if_pos ⟨hdev, hm⟩] at hsame
  exact hfresh (hinv.bound dev hdev drv hsame.symm).1

theorem driverUnregister_of_meets (h : (Op.driverUnregister (some drv)).Meets b s) : ∃ ret s',
      driverUnregister b s (some drv) = some (ret, s') ∧ Inv b s' ∧
        (Op.driverUnregister (some drv)).Keeps s s' := by
  obtain ⟨hlinked, hdevs⟩ := h
  obtain ⟨drvs, hdel, hkept, hold⟩ := listDel_of_linked hlinked
  -- the devices that are unbound are those of `drv`
  have hdriver : ∀ dev ∈ s.devs,
      (if dev ∈ s.devs ∧ b.hasMatch dev drv then none else s.driver dev) =
        if s.driver dev = some drv then none else s.driver dev := by
    intro dev hdev
    by_cases hm : b.hasMatch dev drv
    · rw [if_pos ⟨hdev, hm⟩]
      rcases hdevs dev hdev hm with hown | hnone
      · rw [if_pos hown]
      · rw [hnone]
        simp
    · rw [if_neg (fun h => hm h.2), if_neg]
      exact fun hown => hm (hinv.bound dev hdev drv hown).2.1
  unfold driverUnregister
  simp only [unbindLoop_eq, hdel, map_some]
  refine ⟨_, _, rfl, ⟨?_, ?_, ?_⟩, hdriver⟩
  · intro dev hdev d hd
    dsimp only at hdev hd ⊢
    rw [hdriver dev hdev] at hd
    split_ifs at hd with hown
    obtain ⟨hmem, hmatch, hlast⟩ := hinv.bound dev hdev d hd
    refine ⟨hkept d hmem ?_, hmatch, hlast⟩
    rintro rfl
    exact hown hd
  · intro d hd
    exact hinv.canProbe d (hold d hd)
  · intro dev hdev
    dsimp only at hdev ⊢
    rw [if_neg (fun h => hdev h.1)]
    exact hinv.unbound dev hdev

omit hinv in
theorem meets_of_driverUnregister (h : driverUnregister b s (some drv) = some (ret, s'))
    (hkeeps : (Op.driverUnregister (some drv)).Keeps s s') :
    (Op.driverUnregister (some drv)).Meets b s := by
  unfold driverUnregister at h
  simp only [unbindLoop_eq] at h
  obtain ⟨drvs, hdel, heq⟩ := map_eq_some_iff.mp h
  cases heq
  refine ⟨linked_of_listDel hdel, fun dev hdev hm => ?_⟩
  have hthis := hkeeps dev hdev
  dsimp only at hthis
  rw [if_pos ⟨hdev, hm⟩] at hthis
  split_ifs at hthis with hown
  · exact .inl hown
  · exact .inr hthis.symm

/-- Both ways out of the loop of `device_register`. -/
theorem bindFirst_cases (dev : ℕ) (ret : ℤ) :
    ((∀ drv ∈ s.drvs, ¬ b.hasMatch dev drv) ∧ bindFirst b s dev ret = (0, s)) ∨
      ∃ drv ∈ s.drvs, b.hasMatch dev drv ∧
        bindFirst b s dev ret = (ret, (s.setDriver dev (some drv)).probed dev drv ret) := by
  unfold bindFirst
  cases hfind : s.drvs.find? fun drv => b.hasMatch dev drv with
  | none =>
    refine .inl ⟨fun drv hdrv => ?_, rfl⟩
    simpa using find?_eq_none.mp hfind drv hdrv
  | some drv =>
    have hmem := mem_of_find?_eq_some hfind
    refine .inr ⟨drv, hmem, by simpa using find?_some hfind, ?_⟩
    exact if_pos (hinv.canProbe drv hmem)

theorem deviceRegister_of_meets (h : (Op.deviceRegister (some dev) ret).Meets b s) : ∃ ret' s',
      deviceRegister b s (some dev) ret = some (ret', s') ∧ Inv b s' := by
  unfold deviceRegister
  by_cases hmatch : b.busMatch.isNone = true
  · exact ⟨_, s, if_pos hmatch, hinv⟩
  · have hmeets := h (by simpa using hmatch)
    simp only [hmatch, Bool.false_eq_true, if_false]
    rcases bindFirst_cases hinv dev ret with ⟨hno, heq⟩ | ⟨drv, hdrv, hm, heq⟩
    · have hfresh : dev ∉ s.devs := by
        intro hmem
        obtain ⟨⟨drv, hdrv, hm⟩, -⟩ := hmeets hmem
        exact hno drv hdrv hm
      simp only [heq, lt_irrefl, if_false, listAddTail, hfresh, map_some]
      refine ⟨_, _, rfl, hinv.change rfl (fun d hd => ⟨rfl, rfl, ?_⟩)
        (.inl (hinv.unbound dev hfresh))⟩
      simp [hd]
    · simp only [heq]
      have hother : ∀ d, d ≠ dev →
          ((s.setDriver dev (some drv)).probed dev drv ret).driver d = s.driver d ∧
          ((s.setDriver dev (some drv)).probed dev drv ret).lastProbe d = s.lastProbe d :=
        fun d hd => ⟨update_of_ne hd _ _, update_of_ne hd _ _⟩
      by_cases hneg : ret < 0
      · simp only [hneg, if_true]
        refine ⟨_, _, rfl, hinv.change rfl (fun d hd => ⟨?_, (hother d hd).2, Iff.rfl⟩)
          (.inl (update_self _ _ _))⟩
        exact (update_of_ne hd _ _).trans (hother d hd).1
      · have hfresh : dev ∉ s.devs := fun hmem => hneg (hmeets hmem).2
        have hadd : listAddTail ((s.setDriver dev (some drv)).probed dev drv ret).devs dev =
            some (s.devs ++ [dev]) := if_neg hfresh
        simp only [hneg, if_false, hadd, map_some]
        refine ⟨_, _, rfl, hinv.change rfl (fun d hd => ⟨(hother d hd).1, (hother d hd).2, ?_⟩)
          (.inr ⟨by simp, drv, hdrv, hm, update_self _ _ _, ret,
            update_self _ _ _, not_lt.mp hneg⟩)⟩
        simp [hd]

/-- A device that is linked already may only come back if its probe fails. -/
theorem meets_of_deviceRegister {ret ret' : ℤ}
    (h : deviceRegister b s (some dev) ret = some (ret', s')) :
    (Op.deviceRegister (some dev) ret).Meets b s := by
  intro hmatch hmem
  have hsome : ¬ b.busMatch.isNone = true := by simpa using hmatch
  unfold deviceRegister at h
  simp only [hsome, Bool.false_eq_true, if_false] at h
  rcases bindFirst_cases hinv dev ret with ⟨-, heq⟩ | ⟨drv, hdrv, hm, heq⟩
  · simp [heq, listAddTail, hmem] at h
  · refine ⟨⟨drv, hdrv, hm⟩, ?_⟩
    by_contra hneg
    have hadd : listAddTail ((s.setDriver dev (some drv)).probed dev drv ret).devs dev = none :=
      if_pos hmem
    simp [heq, hneg, hadd] at h

theorem deviceUnregister_of_meets (h : (Op.deviceUnregister (some dev)).Meets b s) : ∃ ret s',
      deviceUnregister s (some dev) = some (ret, s') ∧ Inv b s' := by
  obtain ⟨devs, hdel, hkept, hold⟩ := listDel_of_linked h
  unfold deviceUnregister
  simp only [State.setDriver, hdel, map_some]
  exact ⟨_, _, rfl, hinv.change rfl
    (fun d hd => ⟨update_of_ne hd _ _, rfl, hold d, fun hmem => hkept d hmem hd⟩)
    (.inl (update_self _ _ _))⟩

omit hinv in
theorem meets_of_deviceUnregister (h : deviceUnregister s (some dev) = some (ret, s')) :
    (Op.deviceUnregister (some dev)).Meets b s := by
  obtain ⟨devs, hdel, -⟩ := map_eq_some_iff.mp h
  exact linked_of_listDel hdel

/-- A call that meets the condition keeps everything in order. -/
theorem step_of_meets (h : op.Meets b s) :
    ∃ ret s', step b s op = some (ret, s') ∧ Inv b s' ∧ op.Keeps s s' := by
  cases op with
  | driverRegister drv probe =>
    cases drv with
    | none => exact ⟨_, s, rfl, hinv, fun _ _ _ => rfl⟩
    | some drv => exact driverRegister_of_meets hinv h
  | driverUnregister drv =>
    cases drv with
    | none => exact ⟨_, s, rfl, hinv, trivial⟩
    | some drv => exact driverUnregister_of_meets hinv h
  | deviceRegister dev ret =>
    cases dev with
    | none => exact ⟨_, s, rfl, hinv, trivial⟩
    | some dev =>
      obtain ⟨ret', s', hstep, hinv'⟩ := deviceRegister_of_meets hinv h
      exact ⟨ret', s', hstep, hinv', trivial⟩
  | deviceUnregister dev =>
    cases dev with
    | none => exact ⟨_, s, rfl, hinv, trivial⟩
    | some dev =>
      obtain ⟨ret, s', hstep, hinv'⟩ := deviceUnregister_of_meets hinv h
      exact ⟨ret, s', hstep, hinv', trivial⟩

/-- A call that keeps everything in order meets the condition. -/
theorem meets_of_step (h : step b s op = some (ret, s'))
    (hbound : Bound b s') (hkeeps : op.Keeps s s') : op.Meets b s := by
  cases op with
  | driverRegister drv probe =>
    cases drv with
    | none => trivial
    | some drv => exact meets_of_driverRegister hinv h hbound hkeeps
  | driverUnregister drv =>
    cases drv with
    | none => trivial
    | some drv => exact meets_of_driverUnregister h hkeeps
  | deviceRegister dev ret =>
    cases dev with
    | none => trivial
    | some dev => exact meets_of_deviceRegister hinv h
  | deviceUnregister dev =>
    cases dev with
    | none => trivial
    | some dev => exact meets_of_deviceUnregister h

end

/-! ## Whole runs -/

theorem runOk_iff_of_inv (ops : List Op) (hinv : Inv b s) :
    RunOk b ops s ↔ AllMeet b ops s := by
  induction ops generalizing s with
  | nil => exact Iff.rfl
  | cons op ops ih =>
    constructor
    · rintro ⟨ret, s', hstep, hbound, hkeeps, hrest⟩
      have hmeets := meets_of_step hinv hstep hbound hkeeps
      refine ⟨hmeets, fun ret1 s1 hstep1 => ?_⟩
      obtain ⟨ret2, s2, hstep2, hinv2, -⟩ := step_of_meets hinv hmeets
      rw [hstep] at hstep1 hstep2
      cases hstep1
      cases hstep2
      exact (ih hinv2).mp hrest
    · rintro ⟨hmeets, hrest⟩
      obtain ⟨ret, s', hstep, hinv', hkeeps⟩ := step_of_meets hinv hmeets
      exact ⟨ret, s', hstep, hinv'.bound, hkeeps, (ih hinv').mpr (hrest ret s' hstep)⟩

/-- **Runs of the bus.**  From the empty bus, every state of a run has its devices bound as they
should be, and every call leaves the bindings of others alone, exactly if every call meets the
condition. -/
theorem runOk_iff (b : Bus) (ops : List Op) (devInit drvInit : ℕ → Bool) :
    RunOk b ops (init devInit drvInit) ↔ AllMeet b ops (init devInit drvInit) :=
  runOk_iff_of_inv ops (inv_init b devInit drvInit)

/-- A bus on which everything matches. -/
def matchAll : Bus := ⟨some fun _ _ => true, false, fun _ => true⟩

/-- No object has been initialised. -/
def empty : State := init (fun _ => false) fun _ => false

/-- A device is registered and two drivers come, whose probes succeed: the second takes the device
over from the first. -/
theorem second_driver_rebinds :
    ¬ RunOk matchAll [.deviceRegister (some 0) 0, .driverRegister (some 1) fun _ => 0,
      .driverRegister (some 2) fun _ => 0] empty := by
  rintro ⟨_, s₁, h₁, -, -, _, s₂, h₂, -, -, _, s₃, h₃, -, hkeeps, -⟩
  cases h₁
  cases h₂
  cases h₃
  exact absurd (hkeeps 0 (by decide) (by decide)) (by decide)

/-- A driver whose probe fails is not registered, but stays in the field of the device. -/
example : ¬ RunOk matchAll [.deviceRegister (some 0) 0, .driverRegister (some 1) fun _ => -19]
    empty := by
  rintro ⟨_, s₁, h₁, -, -, _, s₂, h₂, hbound, -, -⟩
  cases h₁
  cases h₂
  exact absurd (hbound 0 (by decide) 1 (by decide)).1 (by decide)

end

end DeviceBind

end Yap
