/-
# `struct list_head` (`lib/list.c`)

The kernel's intrusive lists, as the statements of `lib/list.c` rewrite the two
link fields.  Every function is one of the two surgeries of `Ring.lean`, so the
ring rules apply to it by name:

* `listAdd` and `listAddTail` splice a node in (`Links.link`);
* `listRemove` closes the gap and leaves the entry self-linked.

`list_del` first tests the address of the entry: outside of the RAM, as on the stack of a task at
`0x80000000`, it never returns (`listDel`).  The lists of the other modules are of nodes in RAM.

`ListCall` is a call, and runs of calls keep the layout of `Layout.lean`.
-/
import Yap.Layout

namespace Yap

variable {α : Type*} [DecidableEq α]

/-- `INIT_LIST_HEAD(list)`. -/
def initListHead (l : Links α) (list : α) : Links α :=
  (l.setNext list list).setPrev list list

/-- `__list_add(new_lst, prev, next)`. -/
def listAddBetween (l : Links α) (newLst prev next : α) : Links α :=
  (((l.setPrev next newLst).setNext newLst next).setPrev newLst prev).setNext prev newLst

/-- `list_add(new_lst, head)`. -/
def listAdd (l : Links α) (newLst head : α) : Links α :=
  listAddBetween l newLst head (l.next head)

/-- `list_add_tail(new_lst, head)`. -/
def listAddTail (l : Links α) (newLst head : α) : Links α :=
  listAddBetween l newLst (l.prev head) head

/-- `__list_del(prev, next)`. -/
def listDelBetween (l : Links α) (prev next : α) : Links α :=
  (l.setPrev next prev).setNext prev next

/-- `check_addr(addr)` returns. -/
def checkAddr (addr : BitVec 32) : Bool :=
  addr ≠ 0 ∧ addr &&& 0x30000000 ≠ 0 ∧ addr &&& 0xc0000000 = 0

/-- `list_del(entry)` behind `check_addr`. -/
def listRemove (l : Links α) (entry : α) : Links α :=
  ((listDelBetween l (l.prev entry) (l.next entry)).setNext entry entry).setPrev entry entry

/-- `list_del(entry)`, for a node at `addr entry`. -/
def listDel (addr : α → BitVec 32) (l : Links α) (entry : α) : Option (Links α) :=
  if checkAddr (addr entry) then some (listRemove l entry) else none

/-- `list_empty(head)`. -/
def listEmpty (l : Links α) (head : α) : Bool := l.next head = head

theorem listAdd_eq_link (l : Links α) (n h : α) : listAdd l n h = l.link n h (l.next h) := rfl

theorem listRemove_eq_remove (l : Links α) (n : α) : listRemove l n = (l.unlink n).selfLink n := rfl

theorem initListHead_eq_selfLink (l : Links α) (n : α) : initListHead l n = l.selfLink n := rfl

/-- A node that has been removed may be removed again. -/
theorem listRemove_listRemove (l : Links α) (n : α) :
    listRemove (listRemove l n) n = listRemove l n := by
  have hnext : (listRemove l n).next n = n := by simp [listRemove]
  have hprev : (listRemove l n).prev n = n := by simp [listRemove]
  generalize listRemove l n = l' at hnext hprev
  ext y
  · by_cases hy : y = n <;> simp [listRemove, listDelBetween, hnext, hprev, hy]
  · by_cases hy : y = n <;> simp [listRemove, listDelBetween, hnext, hprev, hy]

/-! ## Sequences of calls -/

/-- A collection of lists: what they visit, and where each node is. -/
structure Lists (ι α : Type*) where
  list : ι → List α
  place : α → Place ι

/-- A call for a node, on the list `i` or on the list it is on. -/
inductive ListCall (ι α : Type*) where
  | add (n : α) (i : ι)
  | addTail (n : α) (i : ι)
  | del (n : α)

namespace ListCall

open Function

section

variable {ι : Type*} [DecidableEq ι] {l : Links α} {head : ι → α} {null : α} {c : Lists ι α}
  {addr : α → BitVec 32}

/-- The call. -/
def exec (addr : α → BitVec 32) (head : ι → α) (l : Links α) : ListCall ι α → Option (Links α)
  | add n i => some (listAdd l n (head i))
  | addTail n i => some (listAddTail l n (head i))
  | del n => listDel addr l n

/-- What the call is for: to insert first, to insert last, to remove. -/
def apply (c : Lists ι α) : ListCall ι α → Lists ι α
  | add n i => ⟨update c.list i (n :: c.list i), update c.place n (.on i)⟩
  | addTail n i => ⟨update c.list i (c.list i ++ [n]), update c.place n (.on i)⟩
  | del n => ⟨fun i => (c.list i).erase n, update c.place n .loose⟩

/-- A self-linked node is inserted; a node is removed from a list or once more. -/
def Valid (c : Lists ι α) : ListCall ι α → Prop
  | add n _ => c.place n = .loose
  | addTail n _ => c.place n = .loose
  | del n => c.place n = .loose ∨ ∃ i, c.place n = .on i

/-- Every call of a sequence is valid when it is made. -/
def ValidRun (c : Lists ι α) : List (ListCall ι α) → Prop
  | [] => True
  | call :: calls => call.Valid c ∧ ValidRun (call.apply c) calls

/-- A call with nodes in RAM returns, and does what it is for. -/
theorem layout_exec (h : l.Layout head null c.list c.place) {call : ListCall ι α}
    (hv : call.Valid c) (hram : ∀ n, call = del n → checkAddr (addr n)) :
    ∃ l', call.exec addr head l = some l' ∧
      l'.Layout head null (call.apply c).list (call.apply c).place := by
  cases call with
  | add n i => exact ⟨_, rfl, h.link_head i (Or.inl hv)⟩
  | addTail n i => exact ⟨_, rfl, h.link_tail i (Or.inl hv)⟩
  | del n =>
    refine ⟨_, if_pos (hram n rfl), h.remove ?_⟩
    rcases hv with hv | ⟨i, hv⟩ <;> rw [hv] <;> exact nofun

/-- **List discipline.**  Every sequence of calls that remove nodes in RAM returns, and through all
of it the links are those of disjoint rings and of self-linked nodes; each call inserts or removes
its operand and leaves the other lists as they are; and to remove a node twice is to remove it
once. -/
theorem layout_run (addr : α → BitVec 32) (calls : List (ListCall ι α)) (l : Links α)
    (head : ι → α) (null : α) (c : Lists ι α) (h : l.Layout head null c.list c.place)
    (hv : ValidRun c calls) (hram : ∀ n, del n ∈ calls → checkAddr (addr n)) :
    ∃ l', calls.foldlM (exec addr head) l = some l' ∧
      l'.Layout head null (calls.foldl apply c).list (calls.foldl apply c).place ∧
      ∀ n, (listDel addr l' n).bind (listDel addr · n) = listDel addr l' n := by
  induction calls generalizing l c with
  | nil =>
    refine ⟨l, rfl, h, fun n => ?_⟩
    unfold listDel
    split_ifs with hn
    · rw [Option.bind_some, listRemove_listRemove]
    · rfl
  | cons call calls ih =>
    obtain ⟨l₁, heq, h₁⟩ := layout_exec h hv.1 fun n hn => hram n (hn ▸ List.mem_cons_self)
    obtain ⟨l', hrun, hl'⟩ := ih l₁ _ h₁ hv.2 fun n hn => hram n (List.mem_cons_of_mem _ hn)
    exact ⟨l', by rw [List.foldlM_cons, heq]; exact hrun, hl'⟩

end

/-- An empty list at 0; 1 is the null node. -/
def nobody : Lists Unit ℕ := ⟨fun _ => [], fun n => if n ≤ 1 then .pinned else .loose⟩

theorem layout_nobody :
    (⟨id, id⟩ : Links ℕ).Layout (fun _ => 0) 1 nobody.list nobody.place := by
  refine ⟨⟨?_, ?_⟩, ?_, ?_, ?_, ?_, ?_⟩
  all_goals simp [nobody, Links.isRing_nil_iff]
  all_goals grind

/-- Two nodes are inserted in a list and one is removed twice. -/
theorem layout_run_oneList : ∃ l' : Links ℕ,
    [add 2 (), addTail 3 (), del 2, del 2].foldlM
      (exec (fun _ => 0x30001000) fun _ => 0) ⟨id, id⟩ = some l' ∧ l'.IsRing 0 [3] := by
  obtain ⟨l', hrun, hl', -⟩ := layout_run (fun _ => 0x30001000)
    [add 2 (), addTail 3 (), del 2, del 2] _ _ 1 nobody layout_nobody (by
      simp [ValidRun, Valid, apply, nobody]) fun _ _ => by decide
  exact ⟨l', hrun, hl'.rings.ring ()⟩

/-- **A node on a stack.**  It is inserted, and `list_del` of it never returns. -/
theorem stack_node_not_removed :
    (⟨id, id⟩ : Links ℕ).Layout (fun _ => 0) 1 nobody.list nobody.place ∧
      ValidRun nobody [add 2 (), del 2] ∧
      [add 2 (), del 2].foldlM (exec (fun _ => 0x80001f00) fun _ => 0) (⟨id, id⟩ : Links ℕ) =
        none :=
  ⟨layout_nobody, by simp [ValidRun, Valid, apply, nobody], rfl⟩

end ListCall

end Yap
