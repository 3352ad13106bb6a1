/-
# The table of fragments (`net/inet/ip.c`)

What the 32 slots are for: a slot is unused, with an empty list and no lengths, or it belongs to one
datagram, stores its id, and its list holds the buffers that have arrived for it (`TableOk`).  The
buffers that have arrived are a ghost, `Tracked.got`.

The code keeps this up only as long as every fragment is the first one of a new datagram and no slot
is ever released (`Orderly`): a later fragment is counted but not put on the list, and
`free_frag_list` clears the slot together with the links of its list.  `table_of_orderly` shows that
the table is right in every state that orderly steps reach, and that from there on exactly the
orderly steps keep it so.
-/
import Yap.IpFragment

namespace Yap

namespace Ip

open List Option

/-! ## What a table is -/

/-- A slot that can take a new datagram. -/
structure FragSlot.Unused (f : IpFrag) : Prop where
  id : f.id = 0
  head : f.head = some []
  currentLen : f.currentLen = 0
  originalLen : f.originalLen = 0

/-- A slot that belongs to a datagram for which the buffers `l` have arrived. -/
structure FragSlot.Holds (f : IpFrag) (l : List SkBuff) : Prop where
  id : f.id ≠ 0
  head : f.head = some l

/-- The table, and the buffers that have arrived for each datagram in flight. -/
structure Tracked where
  table : State
  got : BitVec 16 → List SkBuff

/-- After `ip_init`. -/
def Tracked.init : Tracked := ⟨ipInit, fun _ => []⟩

/-- A datagram is in flight if a slot has its id. -/
def State.InFlight (s : State) (id : BitVec 16) : Prop := ∃ i, (s.slot i).id = id

instance (s : State) (id : BitVec 16) : Decidable (s.InFlight id) :=
  inferInstanceAs (Decidable (∃ i, (s.slot i).id = id))

/-- The fragments with this id that an event brings. -/
def Event.fragments (big : Bool) (id : BitVec 16) : Event → List SkBuff
  | .recv _ _ skb => if skb.iph.IsFragment big ∧ ntohs big skb.iph.id = id then [skb] else []
  | .tick _ => []

/-- A step, with the buffers that have arrived for the datagrams in flight after it. -/
def Tracked.step (big : Bool) (t : Tracked) (e : Event) : Option Tracked :=
  (Ip.step big t.table e).map fun s =>
    ⟨s, fun id => if s.InFlight id then t.got id ++ e.fragments big id else []⟩

/-- **The table is right.** -/
structure TableOk (t : Tracked) : Prop where
  slots : ∀ i, (t.table.slot i).Unused ∨ (t.table.slot i).Holds (t.got (t.table.slot i).id)
  distinct : ∀ i j, (t.table.slot i).id ≠ 0 → (t.table.slot i).id = (t.table.slot j).id → i = j
  idle : ∀ id, ¬ t.table.InFlight id → t.got id = []

/-- What `ip_try_fragment_glue` finds with `search_frag_list` is in use. -/
def SearchesUsed (big : Bool) (s : State) : Event → Prop
  | .recv _ _ skb => skb.iph.IsFragment big →
      ∀ i, searchFragList s.slot (ntohs big skb.iph.id) = some i → (s.slot i).id ≠ 0
  | .tick _ => True

/-- A step that keeps the table right. -/
def Keeps (big : Bool) (t : Tracked) (e : Event) : Prop :=
  SearchesUsed big t.table e ∧ ∃ t', t.step big e = some t' ∧ TableOk t'

/-- The steps the table is made for: a fragment that arrives has an id that no slot has, and if it
gets a slot it is not taken for a whole datagram; the timer finds nothing that is too old. -/
def Orderly (big : Bool) (s : State) : Event → Prop
  | .recv _ _ skb => skb.iph.IsFragment big →
      ¬ s.InFlight (ntohs big skb.iph.id) ∧
        (s.InFlight 0 → skb.iph.totLen ≠ 0 ∨ ntohs big skb.iph.fragOff &&& ipMF = 0)
  | .tick now => ∀ i, (s.slot i).id ≠ 0 → ¬ ipFragLifetime < now - (s.slot i).timeout

/-- The states that orderly steps reach. -/
inductive OrderlyRun (big : Bool) : Tracked → Prop
  | init : OrderlyRun big Tracked.init
  | step {t t' : Tracked} {e : Event} : OrderlyRun big t → Orderly big t.table e →
      t.step big e = some t' → OrderlyRun big t'

/-! ## Searching and releasing -/

section

variable {big alloc : Bool} {now : BitVec 32} {s s' : State} {t t' : Tracked} {i j : Fin 32}
  {f : IpFrag} {skb : SkBuff} {e : Event} {id : BitVec 16}

theorem searchFragList_some (h : searchFragList s.slot id = some i) : (s.slot i).id = id := by
  simpa using find?_some h

theorem searchFragList_none : searchFragList s.slot id = none ↔ ¬ s.InFlight id := by
  unfold searchFragList State.InFlight
  rw [find?_eq_none]
  simp

theorem slot_set_self (s : State) (i : Fin 32) (f : IpFrag) : (s.set i f).slot i = f := if_pos rfl

theorem slot_set_of_ne (s : State) (f : IpFrag) (h : j ≠ i) : (s.set i f).slot j = s.slot j :=
  if_neg h

/-- A cleared slot is neither unused nor in use. -/
theorem TableOk.slot_ne_cleared (h : TableOk t) (i : Fin 32) :
    t.table.slot i ≠ FragSlot.cleared := by
  intro hc
  rcases h.slots i with hu | hh
  · rw [hc] at hu
    exact absurd hu.head (by simp [FragSlot.cleared])
  · rw [hc] at hh
    exact hh.id rfl

theorem freeFragList_slot (h : freeFragList s i = some s') : s'.slot i = FragSlot.cleared := by
  obtain ⟨_, _, rfl⟩ := map_eq_some_iff.mp h
  exact slot_set_self s i _

/-- A datagram that is taken to be complete leaves a cleared slot behind. -/
theorem ipFragmentGlue_slot (h : ipFragmentGlue big alloc s i = some s') :
    s'.slot i = FragSlot.cleared := by
  unfold ipFragmentGlue at h
  simp only at h
  split_ifs at h
  · exact freeFragList_slot h
  · split at h
    · rename_i data s1 _ hfree
      rw [← some.inj h]
      show s1.slot i = _
      exact freeFragList_slot hfree
    · exact absurd h (by simp)

/-- The timer leaves a cleared slot alone. -/
theorem tickSlots_cleared {is : List (Fin 32)} (h : is.foldlM (tickSlot now) s = some s')
    (hc : s.slot i = FragSlot.cleared) : s'.slot i = FragSlot.cleared := by
  induction is generalizing s with
  | nil =>
    rw [← some.inj h]
    exact hc
  | cons j is ih =>
    rw [foldlM_cons, bind_eq_bind, bind_eq_some_iff] at h
    obtain ⟨s1, h1, h2⟩ := h
    refine ih h2 ?_
    unfold tickSlot at h1
    split_ifs at h1 with hold
    · by_cases hij : i = j
      · rw [hij]
        exact freeFragList_slot h1
      · obtain ⟨_, _, rfl⟩ := map_eq_some_iff.mp h1
        rw [slot_set_of_ne _ _ hij, hc]
    · rw [← some.inj h1]
      exact hc

/-- **A slot that is too old is cleared.** -/
theorem tickSlots_old {is : List (Fin 32)} (h : is.foldlM (tickSlot now) s = some s')
    (hi : i ∈ is) (hid : (s.slot i).id ≠ 0)
    (hold : ipFragLifetime < now - (s.slot i).timeout) : s'.slot i = FragSlot.cleared := by
  induction is generalizing s with
  | nil => cases hi
  | cons j is ih =>
    rw [foldlM_cons, bind_eq_bind, bind_eq_some_iff] at h
    obtain ⟨s1, h1, h2⟩ := h
    by_cases hij : i = j
    · rw [← hij, tickSlot, if_pos ⟨hid, hold⟩] at h1
      exact tickSlots_cleared h2 (freeFragList_slot h1)
    · have hmem : i ∈ is := (mem_cons.mp hi).resolve_left hij
      have hsame : s1.slot i = s.slot i := by
        unfold tickSlot at h1
        split_ifs at h1
        · obtain ⟨_, _, rfl⟩ := map_eq_some_iff.mp h1
          exact slot_set_of_ne _ _ hij
        · rw [← some.inj h1]
      exact ih h2 hmem (by rw [hsame]; exact hid) (by rw [hsame]; exact hold)

/-- Nothing is too old: the timer changes nothing. -/
theorem ipTimerTick_fresh
    (h : ∀ i, (s.slot i).id ≠ 0 → ¬ ipFragLifetime < now - (s.slot i).timeout) :
    ipTimerTick now s = some s := by
  show (List.finRange 32).foldlM (tickSlot now) s = some s
  generalize List.finRange 32 = is
  induction is with
  | nil => rfl
  | cons i is ih =>
    rw [foldlM_cons, tickSlot, if_neg (fun hold => h i hold.1 hold.2)]
    exact ih

/-! ## Fragments -/

theorem ipRecv_fragment (hf : skb.iph.IsFragment big) :
    ipRecv big alloc now s skb = ipTryFragmentGlue big alloc now s skb := if_pos hf

/-- A fragment whose id is found is counted. -/
theorem ipTryFragmentGlue_found (h : searchFragList s.slot (ntohs big skb.iph.id) = some i) :
    ipTryFragmentGlue big alloc now s skb = countAndGlue big alloc s i skb := by
  unfold ipTryFragmentGlue
  rw [h]

/-- A fragment of a new datagram, when the table is full. -/
theorem ipTryFragmentGlue_full (h : ¬ s.InFlight (ntohs big skb.iph.id)) (h0 : ¬ s.InFlight 0) :
    ipTryFragmentGlue big alloc now s skb = some s := by
  unfold ipTryFragmentGlue addFragList
  rw [searchFragList_none.mpr h, searchFragList_none.mpr h0]

/-- The slot that a first fragment takes, with its lengths. -/
def FragSlot.start (big : Bool) (now : BitVec 32) (skb : SkBuff) (f : IpFrag) : IpFrag :=
  ({ f with id := ntohs big skb.iph.id, head := some [skb], timeout := now } : IpFrag).count big skb.iph

/-- A fragment of a new datagram, when there is an unused slot. -/
theorem ipTryFragmentGlue_new (h : ¬ s.InFlight (ntohs big skb.iph.id))
    (h0 : searchFragList s.slot 0 = some i) (hu : (s.slot i).Unused) :
    ipTryFragmentGlue big alloc now s skb =
      if ((s.slot i).start big now skb).currentLen = ((s.slot i).start big now skb).originalLen
      then ipFragmentGlue big alloc (s.set i ((s.slot i).start big now skb)) i
      else some (s.set i ((s.slot i).start big now skb)) := by
  have hfirst : (s.slot i).first big now skb = some { s.slot i with
      id := ntohs big skb.iph.id, head := some [skb], timeout := now } := by
    rw [FragSlot.first, hu.head]
    rfl
  have hset : ∀ f g : IpFrag, (s.set i f).set i g = s.set i g := by
    intro f g
    unfold State.set
    congr 1
    funext j
    by_cases hj : j = i
    · simp [hj]
    · simp [hj]
  unfold ipTryFragmentGlue addFragList
  rw [searchFragList_none.mpr h, h0]
  simp only [hfirst, map_some, countAndGlue, slot_set_self, hset]
  rfl

/-- A first fragment is taken for a whole datagram exactly if its length is zero and more are to
follow. -/
theorem start_complete_iff (hf : skb.iph.IsFragment big) (hu : f.Unused) :
    (f.start big now skb).currentLen = (f.start big now skb).originalLen ↔
      skb.iph.totLen = 0 ∧ ntohs big skb.iph.fragOff &&& ipMF ≠ 0 := by
  unfold FragSlot.start FragSlot.count
  have hzero : 0 + skb.iph.totLen = skb.iph.totLen := BitVec.zero_add _
  simp only [hu.currentLen, hu.originalLen, hzero]
  by_cases hmf : ntohs big skb.iph.fragOff &&& ipMF = 0
  · have hoff : ntohs big skb.iph.fragOff &&& ipFragMask ≠ 0 := hf.resolve_left (fun h => h hmf)
    rw [if_pos hmf]
    constructor
    · intro h
      exact absurd (by simpa using h.symm) hoff
    · rintro ⟨_, h⟩
      exact absurd hmf h
  · rw [if_neg hmf]
    exact ⟨fun h => ⟨h, hmf⟩, fun h => h.1⟩

/-! ## Steps -/

section

variable (h : TableOk t)

include h

/-- A step that changes no slot, and brings nothing for a datagram in flight. -/
theorem TableOk.of_same_slots (hstep : Ip.step big t.table e = some s')
    (hslot : s'.slot = t.table.slot)
    (hnone : ∀ id, t.table.InFlight id → e.fragments big id = []) :
    ∃ t', t.step big e = some t' ∧ TableOk t' := by
  have hflight : ∀ id, s'.InFlight id ↔ t.table.InFlight id := by
    intro id
    unfold State.InFlight
    rw [hslot]
  have hgot : (fun id => if s'.InFlight id then t.got id ++ e.fragments big id else []) =
      t.got := by
    funext id
    by_cases hid : t.table.InFlight id
    · rw [if_pos ((hflight id).mpr hid), hnone id hid, append_nil]
    · rw [if_neg (fun hin => hid ((hflight id).mp hin)), h.idle id hid]
  refine ⟨⟨s', t.got⟩, ?_, ⟨?_, ?_, ?_⟩⟩
  · rw [Tracked.step, hstep, map_some, hgot]
  · simp only [hslot]
    exact h.slots
  · simp only [hslot]
    exact h.distinct
  · intro id hid
    exact h.idle id (fun hin => hid ((hflight id).mpr hin))

/-- The tick of the timer. -/
theorem keeps_tick_iff :
    Keeps big t (.tick now) ↔ Orderly big t.table (.tick now) := by
  constructor
  · rintro ⟨-, t', hstep, hok⟩ i hid hold
    obtain ⟨s', htick, rfl⟩ := map_eq_some_iff.mp hstep
    exact hok.slot_ne_cleared i (tickSlots_old htick (mem_finRange i) hid hold)
  · intro ho
    refine ⟨trivial, h.of_same_slots (ipTimerTick_fresh ho) rfl ?_⟩
    intro id _
    rfl

/-- A datagram that is no fragment. -/
theorem keeps_whole (hf : ¬ skb.iph.IsFragment big) :
    Keeps big t (.recv alloc now skb) := by
  refine ⟨fun hfrag => absurd hfrag hf, h.of_same_slots (if_neg hf) rfl ?_⟩
  intro id _
  exact if_neg (fun hfrag => hf hfrag.1)

/-- **A fragment of a datagram in flight** breaks the table: it is not put on the list, and if it
completes the datagram the slot is cleared. -/
theorem not_keeps_later (hf : skb.iph.IsFragment big)
    (hin : t.table.InFlight (ntohs big skb.iph.id)) : ¬ Keeps big t (.recv alloc now skb) := by
  rintro ⟨hused, t', hstep, hok⟩
  obtain ⟨i, hi⟩ : ∃ i, searchFragList t.table.slot (ntohs big skb.iph.id) = some i :=
    ne_none_iff_exists'.mp (fun hn => searchFragList_none.mp hn hin)
  have hid := searchFragList_some hi
  have hne := hused hf i hi
  have hholds := (h.slots i).resolve_left (fun hu => hne hu.id)
  obtain ⟨s', hcall, rfl⟩ := map_eq_some_iff.mp hstep
  have hcount : countAndGlue big alloc t.table i skb = some s' := by
    rw [← ipTryFragmentGlue_found hi, ← ipRecv_fragment hf]
    exact hcall
  unfold countAndGlue at hcount
  simp only at hcount
  split_ifs at hcount with hdone
  · exact hok.slot_ne_cleared i (ipFragmentGlue_slot hcount)
  · obtain rfl := some.inj hcount
    have hslot := slot_set_self t.table i ((t.table.slot i).count big skb.iph)
    have hholds' := (hok.slots i).resolve_left (fun hu => hne (by
      have hz := hu.id
      simp only [hslot] at hz
      exact hz))
    have hhead := hholds'.head
    simp only [hslot] at hhead
    have hflight : (t.table.set i ((t.table.slot i).count big skb.iph)).InFlight
        ((t.table.slot i).count big skb.iph).id := ⟨i, by rw [hslot]⟩
    rw [if_pos hflight] at hhead
    have harrived : (Event.recv alloc now skb).fragments big (t.table.slot i).id = [skb] :=
      if_pos ⟨hf, hid.symm⟩
    have hlist := hholds.head.symm.trans hhead
    change some _ = some (t.got (t.table.slot i).id ++
      Event.fragments big (t.table.slot i).id _) at hlist
    rw [harrived, some.injEq] at hlist
    exact absurd hlist (by simp)

section

variable (hf : skb.iph.IsFragment big) (hin : ¬ t.table.InFlight (ntohs big skb.iph.id))

include hf hin

/-- A first fragment that gets a slot and leaves it open. -/
theorem TableOk.start (hu : (t.table.slot i).Unused)
    (hcall : Ip.step big t.table (.recv alloc now skb) =
      some (t.table.set i ((t.table.slot i).start big now skb))) :
    ∃ t', t.step big (.recv alloc now skb) = some t' ∧ TableOk t' := by
  set f := (t.table.slot i).start big now skb
  have hid : f.id = ntohs big skb.iph.id := rfl
  have hne : f.id ≠ 0 := by
    intro h0
    exact hin ⟨i, by rw [hu.id, ← hid, h0]⟩
  have hother : ∀ j ≠ i, (t.table.slot j).id ≠ f.id := by
    intro j _ hj
    exact hin ⟨j, hj⟩
  have harrived : ∀ id, (Event.recv alloc now skb).fragments big id =
      if id = f.id then [skb] else [] := by
    intro id
    by_cases hidf : id = f.id
    · rw [if_pos hidf]
      exact if_pos ⟨hf, by rw [hidf, hid]⟩
    · rw [if_neg hidf]
      exact if_neg (fun hfrag => hidf (by rw [hid, hfrag.2]))
  have hself := slot_set_self t.table i f
  refine ⟨_, by rw [Tracked.step, hcall]; rfl, ⟨?_, ?_, ?_⟩⟩
  · intro j
    by_cases hj : j = i
    · -- the new datagram has this buffer
      right
      have hflight : (t.table.set i f).InFlight f.id := ⟨i, by rw [hself]⟩
      simp only [hj, hself]
      refine ⟨hne, ?_⟩
      rw [if_pos hflight, harrived, if_pos rfl, h.idle f.id hin]
      rfl
    · have hsame := slot_set_of_ne t.table f hj
      have hflight : (t.table.set i f).InFlight (t.table.slot j).id := ⟨j, by rw [hsame]⟩
      simp only [hsame]
      rw [if_pos hflight, harrived, if_neg (hother j hj), append_nil]
      exact h.slots j
  · intro j k hj hjk
    by_cases hji : j = i
    · by_cases hki : k = i
      · rw [hji, hki]
      · rw [hji, hself, slot_set_of_ne _ _ hki] at hjk
        exact absurd hjk.symm (hother k hki)
    · rw [slot_set_of_ne _ _ hji] at hj hjk
      by_cases hki : k = i
      · rw [hki, hself] at hjk
        exact absurd hjk (hother j hji)
      · rw [slot_set_of_ne _ _ hki] at hjk
        exact h.distinct j k hj hjk
  · intro id hid
    exact if_neg hid

/-- **A fragment of a new datagram** keeps the table right unless it gets a slot and is taken for a
whole datagram. -/
theorem keeps_new_iff :
    Keeps big t (.recv alloc now skb) ↔
      (t.table.InFlight 0 → skb.iph.totLen ≠ 0 ∨ ntohs big skb.iph.fragOff &&& ipMF = 0) := by
  have hused : SearchesUsed big t.table (.recv alloc now skb) := by
    intro _ i hi
    exact absurd ⟨i, searchFragList_some hi⟩ hin
  by_cases h0 : t.table.InFlight 0
  · obtain ⟨i, hi⟩ : ∃ i, searchFragList t.table.slot 0 = some i :=
      ne_none_iff_exists'.mp (fun hn => searchFragList_none.mp hn h0)
    have hid := searchFragList_some hi
    have hu := (h.slots i).resolve_right (fun hh => hh.id hid)
    have hcall : Ip.step big t.table (.recv alloc now skb) = _ :=
      (ipRecv_fragment hf).trans (ipTryFragmentGlue_new hin hi hu)
    constructor
    · rintro ⟨-, t', hstep, hok⟩ -
      by_contra hdone
      push Not at hdone
      obtain ⟨s', hs', rfl⟩ := map_eq_some_iff.mp hstep
      rw [hcall, if_pos ((start_complete_iff hf hu).mpr hdone)] at hs'
      exact hok.slot_ne_cleared i (ipFragmentGlue_slot hs')
    · intro hmore
      rw [if_neg (fun hc => by
        have hdone := (start_complete_iff hf hu).mp hc
        rcases hmore h0 with hm | hm
        · exact hm hdone.1
        · exact hdone.2 hm)] at hcall
      exact ⟨hused, h.start hf hin hu hcall⟩
  · have hcall : Ip.step big t.table (.recv alloc now skb) = some t.table :=
      (ipRecv_fragment hf).trans (ipTryFragmentGlue_full hin h0)
    refine iff_of_true ⟨hused, h.of_same_slots hcall rfl ?_⟩ (fun h => absurd h h0)
    intro id hflight
    refine if_neg ?_
    rintro ⟨-, rfl⟩
    exact hin hflight

end

/-- **Step.**  From a right table, exactly the orderly steps lead to a right table. -/
theorem keeps_iff_orderly (e : Event) :
    Keeps big t e ↔ Orderly big t.table e := by
  cases e with
  | tick now => exact keeps_tick_iff h
  | recv alloc now skb =>
    by_cases hf : skb.iph.IsFragment big
    · by_cases hin : t.table.InFlight (ntohs big skb.iph.id)
      · exact iff_of_false (not_keeps_later h hf hin) (fun ho => (ho hf).1 hin)
      · rw [keeps_new_iff h hf hin]
        exact ⟨fun hm _ => ⟨hin, hm⟩, fun ho => (ho hf).2⟩
    · exact iff_of_true (keeps_whole h hf) (fun hfrag => absurd hfrag hf)

end

theorem tableOk_init : TableOk Tracked.init := by
  refine ⟨fun i => Or.inl ⟨rfl, rfl, rfl, rfl⟩, fun i j hid _ => absurd rfl hid, fun _ _ => rfl⟩

/-- **Run.**  Orderly steps keep the table right. -/
theorem OrderlyRun.tableOk (h : OrderlyRun big t) : TableOk t := by
  induction h with
  | init => exact tableOk_init
  | step _ ho hstep ih =>
    obtain ⟨-, t', hstep', hok⟩ := (keeps_iff_orderly ih _).mpr ho
    rw [hstep, some.injEq] at hstep'
    rw [hstep']
    exact hok

end

/-- **The table of fragments.**  In every state that orderly steps reach, the table is right, and
every unused slot can take a new datagram; and from there exactly the orderly steps keep it
right, the search for a slot included. -/
theorem table_of_orderly (big : Bool) (t : Tracked) (h : OrderlyRun big t) :
    TableOk t ∧
      (∀ i now skb, (t.table.slot i).id = 0 → ((t.table.slot i).first big now skb).isSome) ∧
      ∀ e, Keeps big t e ↔ Orderly big t.table e := by
  have hok := h.tableOk
  refine ⟨hok, ?_, keeps_iff_orderly hok⟩
  intro i now skb hid
  have hu := (hok.slots i).resolve_right (fun hh => hh.id hid)
  rw [FragSlot.first, hu.head]
  rfl

/-- The first of the two fragments of `sixteenBytes`. -/
def firstFragment : SkBuff := sixteenBytesFrags.headD ⟨IpHdr.zero, [], 0⟩

/-- The second one. -/
def secondFragment : SkBuff := sixteenBytesFrags.getLastD ⟨IpHdr.zero, [], 0⟩

theorem orderly_firstFragment : Orderly false ipInit (.recv true 0 firstFragment) := by
  intro _
  exact ⟨by decide +kernel, fun _ => Or.inl (by decide +kernel)⟩

/-- The first fragment has arrived. -/
theorem table_of_orderly_first : ∃ t, OrderlyRun false t ∧
    Tracked.init.step false (.recv true 0 firstFragment) = some t ∧ TableOk t := by
  obtain ⟨-, t, hstep, -⟩ := (keeps_iff_orderly tableOk_init _).mpr orderly_firstFragment
  have hrun : OrderlyRun false t := .step .init orderly_firstFragment hstep
  exact ⟨t, hrun, hstep, (table_of_orderly false t hrun).1⟩

/-- Then the second fragment breaks the table, and so does a fragment with the id 0, and the timer
when the first one is too old; the slot that the timer has cleared cannot be used again. -/
theorem fragment_table_breaks : ∃ t, OrderlyRun false t ∧
    Tracked.init.step false (.recv true 0 firstFragment) = some t ∧
    ¬ Keeps false t (.recv true 0 secondFragment) ∧
    ¬ Keeps false t
      (.recv true 0 { firstFragment with iph := { firstFragment.iph with id := 0 } }) ∧
    ¬ Keeps false t (.tick 200) ∧
    run false ipInit [.recv true 0 firstFragment, .tick 200, .recv true 200 firstFragment] =
      none := by
  obtain ⟨-, t, hstep, hok⟩ := (keeps_iff_orderly tableOk_init _).mpr orderly_firstFragment
  obtain ⟨s, hs, rfl⟩ := map_eq_some_iff.mp hstep
  change Ip.step false ipInit _ = some s at hs
  have hslots : s.slot 0 = ⟨1001, some [firstFragment], 7168, 0, 0⟩ ∧ (s.slot 1).id = 0 := by
    have hmap : (Ip.step false ipInit (.recv true 0 firstFragment)).map
        (fun s => (s.slot 0, (s.slot 1).id)) =
        some (⟨1001, some [firstFragment], 7168, 0, 0⟩, 0) := by decide +kernel
    rw [hs, map_some, some.injEq, Prod.mk.injEq] at hmap
    exact hmap
  refine ⟨_, .step .init orderly_firstFragment hstep, hstep, ?_, ?_, ?_, ?_⟩
  · refine not_keeps_later hok (by decide +kernel) ⟨0, ?_⟩
    rw [hslots.1]
    decide +kernel
  · refine not_keeps_later hok (by decide +kernel) ⟨1, ?_⟩
    rw [hslots.2]
    rfl
  · intro hk
    refine (keeps_tick_iff hok).mp hk 0 ?_ ?_
    · rw [hslots.1]
      decide
    · rw [hslots.1]
      decide
  · exact isNone_iff_eq_none.mp (by decide +kernel)

end Ip

end Yap
