import MiniatureOs.Heap.Buddy
import MiniatureOs.Lib.ByteMemory
import MiniatureOs.Memory.Pointer

/-! # The buddy heap with its lists in memory

`kernel/src/allocator/buddy_allocator.rs` once more, now down to the links. The array
holds the heads of the lists only. A header stands at the address of its chunk, first
the link to the next chunk and then the size, inside the memory that the heap hands
out: what a caller writes into a block replaces what stood there.
-/

namespace MiniatureOs

/-! ## Chunks -/

namespace Chunk

/-- The field `next` of the chunk at the pointer. Proofs follow the links and never look at
the bytes of a link again. -/
@[irreducible] def nextAt (m : ByteMemory) (chunk : NonNull) : Option NonNull :=
  NonNull.ofWord (m.readWord chunk.address)

def setNextAt (m : ByteMemory) (address : Nat) (next : Option NonNull) : ByteMemory :=
  m.writeWord address (NonNull.toWord next)

/-- The field `size` of the chunk at the address. -/
def sizeAt (m : ByteMemory) (address : Nat) : Nat := (m.readWord (address + 8)).toNat

/-- `Chunk::new_at_address`. -/
def newAtAddress (m : ByteMemory) (address size : Nat) : ByteMemory :=
  let m := m.writeWord (address + 8) (BitVec.ofNat 64 size)
  setNextAt m address none

end Chunk

/-! ## Linked lists -/

/-- `LinkedList`, with the memory that its chunks are in. -/
structure ThreadedList where
  head : Option NonNull
  memory : ByteMemory

namespace ThreadedList

/-- `LinkedList::push_front`. -/
def pushFront (list : ThreadedList) (block : Nat) : Checked ThreadedList := do
  let memory := Chunk.setNextAt list.memory block list.head
  let head ← Checked.unwrap (NonNull.new block)
  return ⟨some head, memory⟩

/-- `LinkedList::pop_front`: the link is taken out of the chunk. -/
def popFront (list : ThreadedList) : Option NonNull × ThreadedList :=
  match list.head with
  | some block =>
      let head := Chunk.nextAt list.memory block
      (some block, ⟨head, Chunk.setNextAt list.memory block.address none⟩)
  | none => (none, list)

/-- `LinkedList::is_empty`. -/
def isEmpty (list : ThreadedList) : Bool := list.head.isNone

def unlink (list : ThreadedList) (lastChunk next : Option NonNull) : ThreadedList :=
  match lastChunk with
  | some last => { list with memory := Chunk.setNextAt list.memory last.address next }
  | none => { list with head := next }

/-- The loop of `LinkedList::remove`; `none` when the fuel is used up. The removed chunk
keeps its link. -/
def removeLoop (list : ThreadedList) (start : Nat) :
    Nat → Option NonNull → Option NonNull → Option (Option NonNull × ThreadedList)
  | 0, _, _ => none
  | _ + 1, _, none => some (none, list)
  | fuel + 1, lastChunk, some node =>
      if node.address = start then
        some (some node, list.unlink lastChunk (Chunk.nextAt list.memory node))
      else removeLoop list start fuel (some node) (Chunk.nextAt list.memory node)

/-- `LinkedList::remove`. There are fewer than `2 ^ 64` pointers, so that only a walk in
circles uses up the fuel; the source never returns from it. -/
def remove (list : ThreadedList) (start : Nat) : Option (Option NonNull × ThreadedList) :=
  list.removeLoop start (2 ^ 64) none list.head

end ThreadedList

/-! ## The allocator -/

/-- `BuddyAllocator`, with the memory that the chunks of its lists are in. -/
structure ThreadedAllocator where
  buddies : Vector (Option NonNull) maxOrder
  memory : ByteMemory

namespace ThreadedAllocator

def new (memory : ByteMemory) : ThreadedAllocator := ⟨Vector.replicate maxOrder none, memory⟩

/-- `self.buddies[cls].head`, `None` outside the array. -/
def head (t : ThreadedAllocator) (cls : Nat) : Option NonNull := t.buddies[cls]?.getD none

def list (t : ThreadedAllocator) (cls : Nat) : ThreadedList := ⟨t.head cls, t.memory⟩

def setList (t : ThreadedAllocator) (cls : Nat) (list : ThreadedList) : ThreadedAllocator :=
  ⟨t.buddies.setIfInBounds cls list.head, list.memory⟩

/-- `Chunk::new_at_address`. -/
def newAtAddress (t : ThreadedAllocator) (address size : Nat) : ThreadedAllocator :=
  { t with memory := Chunk.newAtAddress t.memory address size }

/-- `self.buddies[cls].push_front(block)`. -/
def pushFront (t : ThreadedAllocator) (cls block : Nat) : Checked ThreadedAllocator :=
  if cls < maxOrder then do
    let list ← (t.list cls).pushFront block
    return t.setList cls list
  else .error .outOfBounds

/-- `self.buddies[cls].pop_front()`. -/
def popFront (t : ThreadedAllocator) (cls : Nat) :
    Checked (Option NonNull × ThreadedAllocator) :=
  if cls < maxOrder then
    let (chunk, list) := (t.list cls).popFront
    .ok (chunk, t.setList cls list)
  else .error .outOfBounds

/-- `self.buddies[cls].remove(start)`; `none` when the walk does not end. -/
def remove (t : ThreadedAllocator) (cls start : Nat) :
    Checked (Option (Option NonNull × ThreadedAllocator)) :=
  if cls < maxOrder then
    .ok (((t.list cls).remove start).map fun (chunk, list) => (chunk, t.setList cls list))
  else .error .outOfBounds

/-! ### Adding a region -/

def addRegionLoop : Nat → ThreadedAllocator → Nat → Nat → Checked ThreadedAllocator
  | 0, t, _, _ => .ok t
  | fuel + 1, t, currentStart, stop =>
      if currentStart < stop then do
        let size := BuddyAllocator.chunkSize currentStart stop
        let t := t.newAtAddress currentStart size
        let t ← t.pushFront (Bits.trailingZeros 64 size) currentStart
        let currentStart ← Checked.add 64 currentStart size
        addRegionLoop fuel t currentStart stop
      else .ok t

/-- `BuddyAllocator::add_region`. -/
def addRegion (t : ThreadedAllocator) (start stop : Nat) : Checked ThreadedAllocator := do
  Checked.assert (start ≤ stop) "start <= end"
  addRegionLoop (stop - start) t start stop

/-- `BuddyAllocator::init`. -/
def init (t : ThreadedAllocator) (start size : Nat) : Checked ThreadedAllocator := do
  let stop ← Checked.add 64 start size
  t.addRegion start stop

/-! ### Allocation -/

def firstNonEmpty (t : ThreadedAllocator) (cls : Nat) : Option Nat :=
  (List.range' cls (maxOrder - cls)).find? fun i => !(t.list i).isEmpty

/-- The loop over `(class + 1..class + 1 + count).rev()`, with the flag of the abstract
model. Both halves get a header of their own before they are pushed. -/
def splitLoop (cls : Nat) : Nat → ThreadedAllocator → Checked (Bool × ThreadedAllocator)
  | 0, t => .ok (true, t)
  | count + 1, t => do
      let (popped, t) ← t.popFront (cls + count + 1)
      match popped with
      | none => return (false, t)
      | some chunk =>
          let size := 2 ^ (cls + count)
          let t := t.newAtAddress chunk.address size
          let t ← t.pushFront (cls + count) chunk.address
          let address ← Checked.add 64 chunk.address size
          let t := t.newAtAddress address size
          let t ← t.pushFront (cls + count) address
          splitLoop cls count t

/-- `BuddyAllocator::alloc`. -/
def alloc (t : ThreadedAllocator) (layout : Layout) :
    Checked (Option NonNull × ThreadedAllocator) := do
  match t.firstNonEmpty layout.cls with
  | none => t.popFront layout.cls
  | some i =>
      let (split, t) ← splitLoop layout.cls (i - layout.cls) t
      if split then t.popFront layout.cls else return (none, t)

/-! ### Deallocation -/

/-- The merge loop of `dealloc`; `none` when the walk over a list does not end. -/
def deallocLoop : Nat → ThreadedAllocator → Region → Nat → Checked (Option ThreadedAllocator)
  | 0, t, _, _ => .ok (some t)
  | fuel + 1, t, region, currentClass =>
      if currentClass < maxOrder then do
        let buddyStart := region.start ^^^ 2 ^ currentClass
        match ← t.remove currentClass buddyStart with
        | none => return none
        | some (some _, t) =>
            let size ← Checked.mul 64 region.size 2
            deallocLoop fuel t ⟨min region.start buddyStart, size⟩ (currentClass + 1)
        | some (none, t) =>
            let t := t.newAtAddress region.start region.size
            let t ← t.pushFront currentClass region.start
            return some t
      else .ok (some t)

/-- `BuddyAllocator::dealloc`: the size is what the header says. -/
def dealloc (t : ThreadedAllocator) (chunk : NonNull) : Checked (Option ThreadedAllocator) :=
  let size := Chunk.sizeAt t.memory chunk.address
  deallocLoop maxOrder t ⟨chunk.address, size⟩ (Bits.trailingZeros 64 size)

/-! ### The global allocator -/

/-- `GlobalAlloc::alloc`. -/
def globalAlloc (t : ThreadedAllocator) (layout : Layout) :
    Checked (Nat × ThreadedAllocator) := do
  let (chunk, t) ← t.alloc layout
  let chunk ← Checked.expect "Allocator ran out of memory" chunk
  return (chunk.address, t)

/-- `GlobalAlloc::dealloc`: a header takes the place of the first bytes of the block. -/
def globalDealloc (t : ThreadedAllocator) (ptr : Nat) (layout : Layout) :
    Checked (Option ThreadedAllocator) := do
  let t := t.newAtAddress ptr layout.alignLayoutSize
  let chunk ← Checked.unwrap (NonNull.new ptr)
  t.dealloc chunk

end ThreadedAllocator

/-! ## Runs of the heap -/

def LiveBlock.Holds (b : LiveBlock) (address : Nat) : Prop :=
  b.ptr ≤ address ∧ address < b.ptr + b.layout.alignLayoutSize

instance (b : LiveBlock) (address : Nat) : Decidable (b.Holds address) :=
  inferInstanceAs (Decidable (_ ∧ _))

structure ThreadedHeap where
  allocator : ThreadedAllocator
  live : List LiveBlock

/-- What happens to the heap: a call, or a caller writes a byte of a block it holds. -/
inductive ThreadedOp where
  | call (op : HeapOp)
  | write (address : Nat) (byte : UInt8)

def ThreadedOp.calls (ops : List ThreadedOp) : List HeapOp :=
  ops.filterMap fun op =>
    match op with
    | .call op => some op
    | .write _ _ => none

namespace ThreadedHeap

/-- The heap after `init` on a memory with any contents, if it returns. -/
def boot (region : HeapRegion) (memory : ByteMemory) : Option ThreadedHeap :=
  match (ThreadedAllocator.new memory).init region.start region.size with
  | .ok t => some ⟨t, []⟩
  | .error _ => none

def call (heap : ThreadedHeap) : HeapOp → Option ThreadedHeap
  | .alloc layout =>
      match heap.allocator.globalAlloc layout with
      | .ok (ptr, t) => some ⟨t, ⟨ptr, layout⟩ :: heap.live⟩
      | .error _ => none
  | .dealloc block =>
      if block ∈ heap.live then
        match heap.allocator.globalDealloc block.ptr block.layout with
        | .ok (some t) => some ⟨t, heap.live.erase block⟩
        | .ok none => none
        | .error _ => none
      else none

def write (heap : ThreadedHeap) (address : Nat) (byte : UInt8) : Option ThreadedHeap :=
  if ∃ b ∈ heap.live, b.Holds address then
    let memory := Function.update heap.allocator.memory address byte
    some { heap with allocator := { heap.allocator with memory := memory } }
  else none

def step (heap : ThreadedHeap) : ThreadedOp → Option ThreadedHeap
  | .call op => heap.call op
  | .write address byte => heap.write address byte

def after (region : HeapRegion) (memory : ByteMemory) (ops : List ThreadedOp) :
    Option ThreadedHeap :=
  (boot region memory).bind (ops.foldlM step)

end ThreadedHeap

end MiniatureOs
