import MiniatureOs.Lib.Bits
import MiniatureOs.Lib.Dyadic
import MiniatureOs.Memory.Region

/-! # The buddy heap

`kernel/src/allocator/buddy_allocator.rs`. A free chunk is a header at its own
address; the lists threaded through those headers are modelled as lists of
chunks, front first (`Heap/Threaded.lean` has the headers themselves). Every
index into the array of lists is checked as the source's is, and every address
sum carries its overflow check.
-/

namespace MiniatureOs

def maxOrder : Nat := 20

/-- `Chunk`, with the address of its header as `start`. -/
@[ext] structure Chunk where
  start : Nat
  size : Nat
  deriving Repr, DecidableEq

/-- `BuddyAllocator::min_size`: the size of a header. -/
def minSize : Nat := 16

/-! ## Linked lists -/

abbrev LinkedList := List Chunk

namespace LinkedList

/-- `LinkedList::push_front`, with the `NonNull` check of the node. -/
def pushFront (list : LinkedList) (block : Chunk) : Checked LinkedList :=
  if block.start = 0 then .error .unwrapNone else .ok (block :: list)

def popFront : LinkedList → Option Chunk × LinkedList
  | [] => (none, [])
  | chunk :: rest => (some chunk, rest)

/-- `LinkedList::remove`: unlink the first node at address `start`. -/
def remove (start : Nat) : LinkedList → Option Chunk × LinkedList
  | [] => (none, [])
  | node :: rest =>
      if node.start = start then (some node, rest)
      else
        let (found, rest) := remove start rest
        (found, node :: rest)

theorem remove_some {start : Nat} {list rest : LinkedList} {chunk : Chunk}
    (h : remove start list = (some chunk, rest)) :
    chunk.start = start ∧ list.Perm (chunk :: rest) := by
  induction list generalizing rest with
  | nil => simp [remove] at h
  | cons node tail ih =>
      by_cases hnode : node.start = start
      · obtain ⟨rfl, rfl⟩ : node = chunk ∧ tail = rest := by simpa [remove, hnode] using h
        exact ⟨hnode, List.Perm.refl _⟩
      · obtain ⟨hfound, rfl⟩ : (remove start tail).1 = some chunk ∧
            node :: (remove start tail).2 = rest := by simpa [remove, hnode] using h
        obtain ⟨hstart, hperm⟩ := ih (Prod.ext hfound rfl)
        exact ⟨hstart, (hperm.cons node).trans (List.Perm.swap _ _ _)⟩

theorem remove_none {start : Nat} {list rest : LinkedList}
    (h : remove start list = (none, rest)) :
    rest = list ∧ ∀ chunk ∈ list, chunk.start ≠ start := by
  induction list generalizing rest with
  | nil => simpa [remove, eq_comm] using h
  | cons node tail ih =>
      by_cases hnode : node.start = start
      · simp [remove, hnode] at h
      · obtain ⟨hfound, rfl⟩ : (remove start tail).1 = none ∧
            node :: (remove start tail).2 = rest := by simpa [remove, hnode] using h
        obtain ⟨hrest, habsent⟩ := ih (Prod.ext hfound rfl)
        exact ⟨congrArg (node :: ·) hrest, List.forall_mem_cons.mpr ⟨hnode, habsent⟩⟩

theorem remove_of_absent {start : Nat} {list : LinkedList}
    (h : ∀ chunk ∈ list, chunk.start ≠ start) : remove start list = (none, list) := by
  induction list with
  | nil => rfl
  | cons node tail ih =>
      obtain ⟨hnode, htail⟩ := List.forall_mem_cons.mp h
      rw [remove, if_neg hnode, ih htail]

theorem remove_append {before behind : LinkedList} {chunk : Chunk}
    (h : ∀ other ∈ before, other.start ≠ chunk.start) :
    remove chunk.start (before ++ chunk :: behind) = (some chunk, before ++ behind) := by
  induction before with
  | nil => exact if_pos rfl
  | cons node tail ih =>
      obtain ⟨hnode, htail⟩ := List.forall_mem_cons.mp h
      rw [List.cons_append, remove, if_neg hnode, ih htail]
      rfl

end LinkedList

/-! ## The allocator -/

structure BuddyAllocator where
  buddies : Vector LinkedList maxOrder

namespace BuddyAllocator

def new : BuddyAllocator := ⟨Vector.replicate maxOrder []⟩

def list (a : BuddyAllocator) (cls : Nat) : LinkedList := a.buddies[cls]?.getD []

def setList (a : BuddyAllocator) (cls : Nat) (list : LinkedList) : BuddyAllocator :=
  ⟨a.buddies.setIfInBounds cls list⟩

/-- `self.buddies[cls].push_front(chunk)`. -/
def pushFront (a : BuddyAllocator) (cls : Nat) (chunk : Chunk) : Checked BuddyAllocator :=
  if cls < maxOrder then do
    let list ← (a.list cls).pushFront chunk
    return a.setList cls list
  else .error .outOfBounds

/-- `self.buddies[cls].pop_front()`. -/
def popFront (a : BuddyAllocator) (cls : Nat) : Checked (Option Chunk × BuddyAllocator) :=
  if cls < maxOrder then
    let (chunk, list) := (a.list cls).popFront
    .ok (chunk, a.setList cls list)
  else .error .outOfBounds

/-- `self.buddies[cls].remove(start)`. -/
def remove (a : BuddyAllocator) (cls start : Nat) : Checked (Option Chunk × BuddyAllocator) :=
  if cls < maxOrder then
    let (chunk, list) := (a.list cls).remove start
    .ok (chunk, a.setList cls list)
  else .error .outOfBounds

/-! ### Adding a region -/

/-- The size of the next chunk of `add_region`. -/
def chunkSize (currentStart stop : Nat) : Nat :=
  let lowbit := if 0 < currentStart then Bits.lowBit 64 currentStart else 64
  min (min lowbit (Bits.previousPowerOfTwo (stop - currentStart))) (2 ^ (maxOrder - 1))

def addRegionLoop : Nat → BuddyAllocator → Nat → Nat → Checked BuddyAllocator
  | 0, a, _, _ => .ok a
  | fuel + 1, a, currentStart, stop =>
      if currentStart < stop then do
        let size := chunkSize currentStart stop
        let a ← a.pushFront (Bits.trailingZeros 64 size) ⟨currentStart, size⟩
        let currentStart ← Checked.add 64 currentStart size
        addRegionLoop fuel a currentStart stop
      else .ok a

/-- `BuddyAllocator::add_region`. Every chunk has at least one byte, so as many
iterations as there are bytes are enough. -/
def addRegion (a : BuddyAllocator) (start stop : Nat) : Checked BuddyAllocator := do
  Checked.assert (start ≤ stop) "start <= end"
  addRegionLoop (stop - start) a start stop

/-- `BuddyAllocator::init`. -/
def init (a : BuddyAllocator) (start size : Nat) : Checked BuddyAllocator := do
  let stop ← Checked.add 64 start size
  a.addRegion start stop

/-- A round of the loop in `init_from_memory_map`. The end passed on is the address of
the last byte of the region, while `add_region` takes the address behind it. -/
def addMemoryRegion (a : BuddyAllocator) (region : PhysicalMemoryRegion) :
    Checked BuddyAllocator :=
  if !MemoryRegion.isUsable region then
    return a
  else do
    let regionEnd ← MemoryRegion.endAddress region
    let stop ← Checked.sub regionEnd 1
    a.addRegion region.start stop

/-- `BuddyAllocator::init_from_memory_map`. -/
def initFromMemoryMap (a : BuddyAllocator) (memoryMap : List PhysicalMemoryRegion) :
    Checked BuddyAllocator :=
  memoryMap.foldlM addMemoryRegion a

end BuddyAllocator

/-! ## Layouts -/

/-- `core::alloc::Layout`: a power of two alignment, and a size that does not
exceed `isize::MAX` when rounded up to it. -/
structure Layout where
  size : Nat
  align : Nat
  align_two_pow : ∃ k < 64, align = 2 ^ k
  rounded_le : (size + align - 1) / align * align ≤ 2 ^ 63 - 1
  deriving DecidableEq

namespace Layout

/-- `BuddyAllocator::align_layout_size`. -/
def alignLayoutSize (layout : Layout) : Nat :=
  max (Bits.nextPowerOfTwo layout.size) (max layout.align minSize)

/-- The class of the list that serves the layout. -/
def cls (layout : Layout) : Nat := Bits.trailingZeros 64 layout.alignLayoutSize

end Layout

namespace BuddyAllocator

/-! ### Allocation -/

/-- The first list from `cls` on that is not empty. -/
def firstNonEmpty (a : BuddyAllocator) (cls : Nat) : Option Nat :=
  (List.range' cls (maxOrder - cls)).find? fun i => !(a.list i).isEmpty

/-- The loop over `(class + 1..class + 1 + count).rev()`: split the front chunk
of each list into two chunks of the list below. The flag is false when a list
turned out to be empty and the source returns `None` from inside the loop. -/
def splitLoop (cls : Nat) : Nat → BuddyAllocator → Checked (Bool × BuddyAllocator)
  | 0, a => .ok (true, a)
  | count + 1, a => do
      let (popped, a) ← a.popFront (cls + count + 1)
      match popped with
      | none => return (false, a)
      | some chunk =>
          let size := 2 ^ (cls + count)
          let a ← a.pushFront (cls + count) ⟨chunk.start, size⟩
          let address ← Checked.add 64 chunk.start size
          let a ← a.pushFront (cls + count) ⟨address, size⟩
          splitLoop cls count a

/-- `BuddyAllocator::alloc`. -/
def alloc (a : BuddyAllocator) (layout : Layout) :
    Checked (Option Chunk × BuddyAllocator) := do
  match a.firstNonEmpty layout.cls with
  | none => a.popFront layout.cls
  | some i =>
      let (split, a) ← splitLoop layout.cls (i - layout.cls) a
      if split then a.popFront layout.cls else return (none, a)

/-! ### Deallocation -/

/-- The merge loop of `dealloc`; a class outside the array ends it. -/
def deallocLoop : Nat → BuddyAllocator → Region → Nat → Checked BuddyAllocator
  | 0, a, _, _ => .ok a
  | fuel + 1, a, region, currentClass =>
      if currentClass < maxOrder then do
        let buddyStart := region.start ^^^ 2 ^ currentClass
        let (found, a) ← a.remove currentClass buddyStart
        match found with
        | some _ =>
            let size ← Checked.mul 64 region.size 2
            deallocLoop fuel a ⟨min region.start buddyStart, size⟩ (currentClass + 1)
        | none => a.pushFront currentClass ⟨region.start, region.size⟩
      else .ok a

/-- `BuddyAllocator::dealloc`. -/
def dealloc (a : BuddyAllocator) (chunk : Chunk) : Checked BuddyAllocator :=
  deallocLoop maxOrder a ⟨chunk.start, chunk.size⟩ (Bits.trailingZeros 64 chunk.size)

/-! ### The global allocator -/

/-- `GlobalAlloc::alloc`. -/
def globalAlloc (a : BuddyAllocator) (layout : Layout) : Checked (Nat × BuddyAllocator) := do
  let (chunk, a) ← a.alloc layout
  let chunk ← Checked.expect "Allocator ran out of memory" chunk
  return (chunk.start, a)

/-- `GlobalAlloc::dealloc`. -/
def globalDealloc (a : BuddyAllocator) (ptr : Nat) (layout : Layout) : Checked BuddyAllocator :=
  a.dealloc ⟨ptr, layout.alignLayoutSize⟩

end BuddyAllocator

/-! ## Runs of the heap -/

structure HeapRegion where
  start : Nat
  size : Nat
  start_pos : 0 < start
  start_aligned : start % minSize = 0
  size_aligned : size % minSize = 0

structure LiveBlock where
  ptr : Nat
  layout : Layout
  deriving DecidableEq

structure Heap where
  allocator : BuddyAllocator
  live : List LiveBlock

inductive HeapOp where
  | alloc (layout : Layout)
  | dealloc (block : LiveBlock)

namespace Heap

/-- The heap after `init`, if it returns. -/
def boot (region : HeapRegion) : Option Heap :=
  match BuddyAllocator.new.init region.start region.size with
  | .ok a => some ⟨a, []⟩
  | .error _ => none

/-- One call that returns; only a live block is given back, with its layout. -/
def step (heap : Heap) : HeapOp → Option Heap
  | .alloc layout =>
      match heap.allocator.globalAlloc layout with
      | .ok (ptr, a) => some ⟨a, ⟨ptr, layout⟩ :: heap.live⟩
      | .error _ => none
  | .dealloc block =>
      if block ∈ heap.live then
        match heap.allocator.globalDealloc block.ptr block.layout with
        | .ok a => some ⟨a, heap.live.erase block⟩
        | .error _ => none
      else none

def after (region : HeapRegion) (ops : List HeapOp) : Option Heap :=
  (boot region).bind (ops.foldlM step)

end Heap

end MiniatureOs
