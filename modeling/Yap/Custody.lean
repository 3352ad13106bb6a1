/-
# Buffers and the queues they stand in

Buffers are taken into use and given back.  A buffer in use stands in a queue, or in none while
somebody works on it.  It is given back by `release`, or it is handed over to another party, who
may give it back at once.

What has become of one buffer is its `Fate`.  Every operation changes the fate of one buffer:
`fate_release`, `fate_link` and the others say how, and that all other buffers keep theirs.
`Custody.Sound` is what the operations preserve: a buffer stands in one queue at most, once, and
only while it is in use.
-/
import Mathlib.Data.List.Count
import Mathlib.Logic.Function.Basic

namespace Yap

open List
open Function (update)

/-! ## The fate of one buffer -/

/-- What has become of one buffer, for queues named by `H`. -/
@[ext]
structure Fate (H : Type*) where
  used : Bool
  /-- how often it stands in each queue -/
  on : H → ℕ
  /-- how often it has been given back -/
  released : ℕ
  /-- how often it has been handed over -/
  handed : ℕ

namespace Fate

variable {H : Type*} [DecidableEq H] (v : Fate H)

def acquire : Fate H := { v with used := true }

def unlink : Fate H := { v with on := fun h => v.on h - 1 }

def link (h : H) : Fate H := { v with on := update v.on h (v.on h + 1) }

def release : Fate H :=
  { v.unlink with used := false, released := v.released + 1 }

/-- `back` says whether the other party has given the buffer back already. -/
def handOver (back : Bool) : Fate H :=
  { (if back then { v.unlink with used := false } else v) with handed := v.handed + 1 }

/-- The buffer is in use and stands in no queue. -/
def Held : Prop := v.used = true ∧ ∀ h, v.on h = 0

/-- The buffer stands in one queue at most, once, and only while it is in use. -/
structure Sound (v : Fate H) : Prop where
  used : ∀ h, 0 < v.on h → v.used = true
  once : ∀ h, v.on h ≤ 1
  unique : ∀ h h', 0 < v.on h → 0 < v.on h' → h = h'

variable {v}

omit [DecidableEq H] in
theorem Held.unlink_eq (hv : v.Held) : v.unlink = v := by
  have hon : (fun h => v.on h - 1) = v.on := funext fun h => by rw [hv.2 h]
  rw [unlink, hon]

omit [DecidableEq H] in
theorem Held.release_on (hv : v.Held) (h : H) : v.release.on h = 0 := by
  rw [release, hv.unlink_eq]
  exact hv.2 h

omit [DecidableEq H] in
theorem Held.handOver_on (hv : v.Held) (back : Bool) (h : H) : (v.handOver back).on h = 0 := by
  cases back with
  | true =>
    simp only [handOver, if_true, hv.unlink_eq]
    exact hv.2 h
  | false => exact hv.2 h

theorem link_on_self (h : H) : (v.link h).on h = v.on h + 1 := Function.update_self _ _ _

theorem link_on_of_ne {h h' : H} (hne : h' ≠ h) : (v.link h).on h' = v.on h' :=
  Function.update_of_ne hne _ _

/-- Given back from the only queue it has been linked to. -/
theorem Held.release_link (hv : v.Held) (h : H) : (v.link h).release = v.release := by
  have hon : (fun h' => (v.link h).on h' - 1) = fun h' => v.on h' - 1 := by
    funext h'
    by_cases hh : h' = h
    · rw [hh, link_on_self, hv.2 h]
    · rw [link_on_of_ne hh]
  simp only [release, unlink, hon]
  rfl

omit [DecidableEq H] in
theorem Sound.unlink_on (hv : v.Sound) (h : H) : v.unlink.on h = 0 := by
  have honce := hv.once h
  simp only [unlink]
  omega

omit [DecidableEq H] in
/-- A buffer that is taken off its queue is held. -/
theorem Sound.held_unlink (hv : v.Sound) {h : H} (hpos : 0 < v.on h) : v.unlink.Held :=
  ⟨hv.used h hpos, hv.unlink_on⟩

omit [DecidableEq H] in
theorem sound_of_on_eq_zero (h : ∀ h, v.on h = 0) : v.Sound := by
  refine ⟨fun h' hpos => ?_, fun h' => ?_, fun h' _ hpos => ?_⟩
  · rw [h h'] at hpos
    exact absurd hpos (Nat.lt_irrefl 0)
  · rw [h h']
    exact Nat.zero_le 1
  · rw [h h'] at hpos
    exact absurd hpos (Nat.lt_irrefl 0)

omit [DecidableEq H] in
theorem Sound.release (hv : v.Sound) : v.release.Sound := sound_of_on_eq_zero hv.unlink_on

omit [DecidableEq H] in
theorem Sound.unlink (hv : v.Sound) : v.unlink.Sound := sound_of_on_eq_zero hv.unlink_on

omit [DecidableEq H] in
theorem Sound.acquire (hv : v.Sound) : v.acquire.Sound := ⟨fun _ _ => rfl, hv.once, hv.unique⟩

omit [DecidableEq H] in
theorem Sound.handOver (hv : v.Sound) (back : Bool) : (v.handOver back).Sound := by
  cases back with
  | true => exact sound_of_on_eq_zero hv.unlink_on
  | false => exact ⟨hv.used, hv.once, hv.unique⟩

theorem Held.link (hv : v.Held) (h : H) : (v.link h).Sound := by
  have hself : (v.link h).on h = 1 := by rw [link_on_self, hv.2 h]
  have hother : ∀ h', 0 < (v.link h).on h' → h' = h := by
    intro h' hpos
    by_contra hne
    rw [link_on_of_ne hne, hv.2 h'] at hpos
    exact absurd hpos (Nat.lt_irrefl 0)
  refine ⟨fun _ _ => hv.1, fun h' => ?_, fun h1 h2 hpos1 hpos2 => ?_⟩
  · by_cases hh : h' = h
    · rw [hh]
      exact Nat.le_of_eq hself
    · rw [link_on_of_ne hh, hv.2 h']
      exact Nat.zero_le 1
  · rw [hother h1 hpos1, hother h2 hpos2]

end Fate

/-! ## All buffers -/

/-- Which buffers are in use, where they stand, and two records of what has happened. -/
structure Custody (H B : Type*) where
  used : B → Bool
  queue : H → List B
  /-- the buffers given back so far -/
  released : List B
  /-- the buffers handed over so far -/
  handed : List B

namespace Custody

variable {H B : Type*} [DecidableEq H] [DecidableEq B] (l : Custody H B)

def acquire (b : B) : Custody H B :=
  { l with used := update l.used b true }

/-- Take the buffer off the queue it stands in. -/
def unlink (b : B) : Custody H B :=
  { l with queue := fun h => (l.queue h).erase b }

/-- Put the buffer into a queue behind the first `n`. -/
def link (h : H) (n : ℕ) (b : B) : Custody H B :=
  { l with queue := update l.queue h ((l.queue h).take n ++ b :: (l.queue h).drop n) }

/-- Put the buffer at the end of a queue. -/
def append (h : H) (b : B) : Custody H B := l.link h (l.queue h).length b

def release (b : B) : Custody H B :=
  { l.unlink b with used := update l.used b false, released := l.released ++ [b] }

/-- `back` says whether the other party has given the buffer back already. -/
def handOver (b : B) (back : Bool) : Custody H B :=
  { (if back then { l.unlink b with used := update l.used b false } else l) with
    handed := l.handed ++ [b] }

/-- Give back several buffers, one after the other. -/
def releaseAll (bs : List B) : Custody H B := bs.foldl release l

def fate (b : B) : Fate H where
  used := l.used b
  on := fun h => (l.queue h).count b
  released := l.released.count b
  handed := l.handed.count b

variable {l} {a b : B}

omit [DecidableEq H] in
theorem fate_acquire : (l.acquire a).fate b = if b = a then (l.fate b).acquire else l.fate b := by
  by_cases hb : b = a
  · simp [fate, acquire, Fate.acquire, hb]
  · simp [fate, acquire, hb]

omit [DecidableEq H] in
theorem fate_unlink : (l.unlink a).fate b = if b = a then (l.fate b).unlink else l.fate b := by
  by_cases hb : b = a
  · simp [fate, unlink, Fate.unlink, hb]
  · simp [fate, unlink, hb]

theorem fate_link (h : H) (n : ℕ) :
    (l.link h n a).fate b = if b = a then (l.fate b).link h else l.fate b := by
  have hcount : ((l.link h n a).queue h).count b =
      (l.queue h).count b + if b = a then 1 else 0 := by
    conv_rhs => rw [← take_append_drop n (l.queue h)]
    simp only [link, Function.update_self, count_append, count_cons, beq_iff_eq,
      eq_comm (a := a)]
    omega
  have hother : ∀ h', h' ≠ h → (l.link h n a).queue h' = l.queue h' :=
    fun h' hne => Function.update_of_ne hne _ _
  have hon : (fun h' => ((l.link h n a).queue h').count b) =
      if b = a then ((l.fate b).link h).on else (l.fate b).on := by
    funext h'
    by_cases hh : h' = h
    · subst hh
      rw [hcount]
      split_ifs
      · rw [Fate.link_on_self]
        rfl
      · rfl
    · rw [hother h' hh]
      split_ifs
      · rw [Fate.link_on_of_ne hh]
        rfl
      · rfl
  by_cases hb : b = a
  · rw [if_pos hb] at hon ⊢
    exact Fate.ext rfl hon rfl rfl
  · rw [if_neg hb] at hon ⊢
    exact Fate.ext rfl hon rfl rfl

theorem fate_append (h : H) :
    (l.append h a).fate b = if b = a then (l.fate b).link h else l.fate b := fate_link h _

omit [DecidableEq H] in
theorem fate_release : (l.release a).fate b = if b = a then (l.fate b).release else l.fate b := by
  by_cases hb : b = a
  · simp [fate, release, unlink, Fate.release, Fate.unlink, hb]
  · have hne : ¬ a = b := fun h => hb h.symm
    simp [fate, release, unlink, hb, hne]

omit [DecidableEq H] in
theorem fate_handOver (back : Bool) : (l.handOver a back).fate b =
    if b = a then (l.fate b).handOver back else l.fate b := by
  by_cases hb : b = a
  · cases back <;> simp [fate, handOver, unlink, Fate.handOver, Fate.unlink, hb]
  · have hne : ¬ a = b := fun h => hb h.symm
    cases back <;> simp [fate, handOver, unlink, hb, hne]

omit [DecidableEq H] in
/-- A buffer that is not among those given back keeps its fate. -/
theorem fate_releaseAll_of_notMem (bs : List B) (h : b ∉ bs) :
    (l.releaseAll bs).fate b = l.fate b := by
  induction bs generalizing l with
  | nil => rfl
  | cons a bs ih =>
    obtain ⟨hne, hmem⟩ := not_or.mp (fun hor => h (mem_cons.mpr hor))
    rw [releaseAll, foldl_cons, ← releaseAll, ih hmem, fate_release, if_neg hne]

omit [DecidableEq H] in
/-- A buffer that is among them once is given back once. -/
theorem fate_releaseAll_of_count_eq_one (bs : List B) (h : bs.count b = 1) :
    (l.releaseAll bs).fate b = (l.fate b).release := by
  induction bs generalizing l with
  | nil => simp at h
  | cons a bs ih =>
    rw [releaseAll, foldl_cons, ← releaseAll]
    by_cases hb : b = a
    · subst hb
      have hrest : b ∉ bs := by
        rw [count_cons_self] at h
        exact count_eq_zero.mp (by omega)
      rw [fate_releaseAll_of_notMem bs hrest, fate_release, if_pos rfl]
    · rw [count_cons_of_ne (Ne.symm hb)] at h
      rw [ih h, fate_release, if_neg hb]

/-! ## Soundness -/

/-- Every buffer stands in one queue at most, once, and only while it is in use. -/
def Sound (l : Custody H B) : Prop := ∀ b, (l.fate b).Sound

namespace Sound

variable {l' : Custody H B}

section

variable (hl : l.Sound)

include hl

omit [DecidableEq H] in
/-- One buffer changes, the others keep their fate. -/
theorem of_ite {v : B → Fate H} (h : ∀ b, l'.fate b = if b = a then v b else l.fate b)
    (ha : (v a).Sound) : l'.Sound := by
  intro b
  rw [h b]
  split_ifs with hb
  · rw [hb]
    exact ha
  · exact hl b

omit [DecidableEq H] in
theorem acquire : (l.acquire a).Sound :=
  hl.of_ite (fun _ => fate_acquire) (hl a).acquire

omit [DecidableEq H] in
theorem unlink : (l.unlink a).Sound := hl.of_ite (fun _ => fate_unlink) (hl a).unlink

omit [DecidableEq H] in
theorem release : (l.release a).Sound :=
  hl.of_ite (fun _ => fate_release) (hl a).release

omit [DecidableEq H] in
theorem handOver (back : Bool) : (l.handOver a back).Sound :=
  hl.of_ite (fun _ => fate_handOver back) ((hl a).handOver back)

theorem link (ha : (l.fate a).Held) (h : H) (n : ℕ) : (l.link h n a).Sound :=
  hl.of_ite (fun _ => fate_link h n) (ha.link h)

omit [DecidableEq H] in
theorem releaseAll (bs : List B) : (l.releaseAll bs).Sound := by
  induction bs generalizing l with
  | nil => exact hl
  | cons b bs ih => exact ih hl.release

omit [DecidableEq H] in
/-- A buffer is taken off the queue it stands in. -/
theorem held_of_mem {h : H} (hb : b ∈ l.queue h) : ((l.unlink b).fate b).Held := by
  rw [fate_unlink, if_pos rfl]
  exact (hl b).held_unlink (count_pos_iff.mpr hb)

omit [DecidableEq H] in
/-- A buffer that was not in use is taken into use. -/
theorem held_of_unused (hb : l.used b = false) : ((l.acquire b).fate b).Held := by
  rw [fate_acquire, if_pos rfl]
  refine ⟨rfl, fun h => ?_⟩
  by_contra hne
  have hused : l.used b = true := (hl b).used h (Nat.pos_of_ne_zero hne)
  rw [hb] at hused
  exact Bool.noConfusion hused

end

end Sound

end Custody

end Yap
