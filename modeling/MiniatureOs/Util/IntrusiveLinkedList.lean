import MiniatureOs.Lib.Chain
import MiniatureOs.Lib.Checked
import MiniatureOs.Memory.Pointer

/-! # The intrusive doubly linked list

`util/intrusive_linked_list/src/lib.rs`. The nodes lie outside the list, so a list is
modelled with the memory of all nodes. `pop_front` unlinks the new first node from its
successor, where `pop_back` does the same to the new last one: the link back to the node
that was taken stays, and the chain is cut behind its new head.
-/

namespace MiniatureOs

open LinkChain

structure ListNode where
  next : Option NonNull
  prev : Option NonNull
  deriving DecidableEq, Repr

/-- `ListNode::new`. -/
def ListNode.new : ListNode :=
  ⟨none, none⟩

/-- `IntrusiveLinkedList`, with the memory that the nodes are in. -/
structure IntrusiveLinkedList where
  head : Option NonNull
  tail : Option NonNull
  len : Nat
  nodes : NonNull → ListNode

namespace IntrusiveLinkedList

/-- `IntrusiveLinkedList::new`, before any node was linked. -/
def new : IntrusiveLinkedList :=
  ⟨none, none, 0, fun _ => .new⟩

/-- `ListNode::get_next` of the node. -/
def next (list : IntrusiveLinkedList) (node : NonNull) : Option NonNull :=
  (list.nodes node).next

/-- `ListNode::get_prev` of the node. -/
def prev (list : IntrusiveLinkedList) (node : NonNull) : Option NonNull :=
  (list.nodes node).prev

/-- `ListNode::set_next` of the node. -/
def setNext (list : IntrusiveLinkedList) (node : NonNull) (next : Option NonNull) :
    IntrusiveLinkedList :=
  { list with nodes := Function.update list.nodes node { list.nodes node with next := next } }

/-- `ListNode::set_prev` of the node. -/
def setPrev (list : IntrusiveLinkedList) (node : NonNull) (prev : Option NonNull) :
    IntrusiveLinkedList :=
  { list with nodes := Function.update list.nodes node { list.nodes node with prev := prev } }

/-- The links of `push_front`. -/
def linkFront (list : IntrusiveLinkedList) (new : NonNull) : IntrusiveLinkedList :=
  match list.head with
  | some head => { (list.setNext new (some head)).setPrev head (some new) with head := some new }
  | none => { list with head := some new, tail := some new }

def pushFront (list : IntrusiveLinkedList) (new : NonNull) : Checked IntrusiveLinkedList := do
  let len ← Checked.add 64 list.len 1
  return { list.linkFront new with len := len }

/-- The links of `push_back`. -/
def linkBack (list : IntrusiveLinkedList) (new : NonNull) : IntrusiveLinkedList :=
  match list.tail with
  | some tail => { (list.setNext tail (some new)).setPrev new (some tail) with tail := some new }
  | none => { list with head := some new, tail := some new }

def pushBack (list : IntrusiveLinkedList) (new : NonNull) : Checked IntrusiveLinkedList := do
  let len ← Checked.add 64 list.len 1
  return { list.linkBack new with len := len }

/-- The links of `pop_front` for two different ends: the new head loses its `next`. -/
def unlinkFront (list : IntrusiveLinkedList) (head : NonNull) : IntrusiveLinkedList :=
  match list.next head with
  | some next => { list.setNext next none with head := some next }
  | none => { list with head := none }

def popFront (list : IntrusiveLinkedList) : Checked (Option NonNull × IntrusiveLinkedList) :=
  match list.head with
  | some head => do
      let tail ← Checked.unwrap list.tail
      let unlinked := if head = tail then { list with head := none, tail := none }
        else list.unlinkFront head
      let len ← Checked.sub list.len 1
      return (some head, { unlinked with len := len })
  | none => return (none, list)

/-- The links of `pop_back` for two different ends. -/
def unlinkBack (list : IntrusiveLinkedList) (tail : NonNull) : IntrusiveLinkedList :=
  match list.prev tail with
  | some prev => { list.setNext prev none with tail := some prev }
  | none => { list with tail := none }

def popBack (list : IntrusiveLinkedList) : Checked (Option NonNull × IntrusiveLinkedList) :=
  match list.tail with
  | some tail => do
      let head ← Checked.unwrap list.head
      let unlinked := if head = tail then { list with head := none, tail := none }
        else list.unlinkBack tail
      let len ← Checked.sub list.len 1
      return (some tail, { unlinked with len := len })
  | none => return (none, list)

def isEmpty (list : IntrusiveLinkedList) : Bool :=
  list.head.isNone

/-- A list is given by its ends, its length and the links of the nodes. -/
theorem eq_of_links {first second : IntrusiveLinkedList} (hhead : first.head = second.head)
    (htail : first.tail = second.tail) (hlen : first.len = second.len)
    (hnext : first.next = second.next) (hprev : first.prev = second.prev) : first = second := by
  have hnodes : first.nodes = second.nodes := by
    funext node
    have hnext := congrFun hnext node
    have hprev := congrFun hprev node
    unfold next at hnext
    unfold prev at hprev
    cases hfirst : first.nodes node
    cases hsecond : second.nodes node
    simp_all
  cases first
  cases second
  simp_all

section Links

variable (list : IntrusiveLinkedList) (node : NonNull) (link : Option NonNull)

@[simp] theorem next_setNext :
    (list.setNext node link).next = Function.update list.next node link := by
  funext other
  by_cases h : other = node
  · simp [next, setNext, h]
  · simp [next, setNext, h]

@[simp] theorem prev_setNext : (list.setNext node link).prev = list.prev := by
  funext other
  by_cases h : other = node
  · simp [prev, setNext, h]
  · simp [prev, setNext, h]

@[simp] theorem next_setPrev : (list.setPrev node link).next = list.next := by
  funext other
  by_cases h : other = node
  · simp [next, setPrev, h]
  · simp [next, setPrev, h]

@[simp] theorem prev_setPrev :
    (list.setPrev node link).prev = Function.update list.prev node link := by
  funext other
  by_cases h : other = node
  · simp [prev, setPrev, h]
  · simp [prev, setPrev, h]

end Links

end IntrusiveLinkedList

end MiniatureOs
