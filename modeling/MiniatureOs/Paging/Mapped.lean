import MiniatureOs.Frames.Bump
import MiniatureOs.Lib.ByteMemory
import MiniatureOs.Paging.Entry

/-! # The mapped page table

`x86_64/src/paging/mapped_page_table.rs`. Tables are pages of memory at the
addresses that `frame_to_virtual` gives their frames, and a reference to a table
is its address. The two page sizes differ in the number of levels above the entry
and in the flags stored there; the rest of `map_to`, `unmap` and `translate` is
the same code and is written once.
-/

namespace MiniatureOs

class PageTableFrameMapping (P : Type) where
  frameToVirtual : P → PhysicalFrame .size4KiB → Checked Nat

/-- `PhysicalOffset` of `offset_page_table.rs`. -/
structure PhysicalOffset where
  offset : Nat

instance : PageTableFrameMapping PhysicalOffset where
  frameToVirtual mapping frame := Checked.add 64 mapping.offset frame.address

structure Machine (A : Type) where
  memory : ByteMemory
  allocator : A

/-- `MappedPageTable`, with the address of the table behind `pml4t`; a table is
aligned to its size. -/
structure MappedPageTable (P : Type) where
  mapping : P
  pml4t : Nat
  aligned : pml4t % 4096 = 0

inductive MappingError where
  | frameAllocationFailed
  | pageAlreadyMapped
  deriving DecidableEq, Repr

inductive UnmappingError where
  | pageNotMapped
  deriving DecidableEq, Repr

inductive TranslationError where
  | notMapped
  deriving DecidableEq, Repr

structure TlbFlusher (S : PageSize) where
  page : Page S
  deriving DecidableEq

def entryAddress (table : Nat) (i : Fin 512) : Nat :=
  table + 8 * i

def tableEntry (m : ByteMemory) (table : Nat) (i : Fin 512) : PageTableEntry :=
  m.readWord (entryAddress table i)

/-- `PageTable::initialize_empty_at_address`. -/
def initializeEmptyAtAddress (m : ByteMemory) (address : Nat) : Checked ByteMemory := do
  Checked.assert (address % 4096 == 0) "Address must be properly aligned"
  return m.fill address 4096 0

variable {P A : Type} [PageTableFrameMapping P] [FrameAllocator A]

open PageTableFrameMapping

/-- `get_or_allocate_pagetable` for the entry at address `entry`. -/
def getOrAllocatePagetable (mapping : P) (entry : Nat) (flags : PageTableEntryFlags)
    (s : Machine A) : Checked (Option Nat × Machine A) :=
  let pte : PageTableEntry := s.memory.readWord entry
  if PageTableEntry.isUnused pte then do
    let (frame, allocator) ← FrameAllocator.allocateFrame s.allocator
    match frame with
    | none => return (none, { s with allocator })
    | some frame =>
        let memory := s.memory.writeWord entry (PageTableEntry.setAddress frame.address flags)
        let address ← frameToVirtual mapping frame
        let memory ← initializeEmptyAtAddress memory address
        return (some address, { memory, allocator })
  else if !flags.isEmpty && !(PageTableEntry.flags pte).contains flags then do
    let pte := PageTableEntry.addFlags pte flags
    let address ← frameToVirtual mapping (PageTableEntry.physicalFrame pte)
    return (some address, { s with memory := s.memory.writeWord entry pte })
  else do
    let address ← frameToVirtual mapping (PageTableEntry.physicalFrame pte)
    return (some address, s)

def getPagetable (mapping : P) (pte : PageTableEntry) : Checked (Option Nat) :=
  if PageTableEntry.isUnused pte then return none
  else do
    let address ← frameToVirtual mapping (PageTableEntry.physicalFrame pte)
    return some address

/-- The calls of `get_or_allocate_pagetable` down a path of indices, left at the
first that returns `None`. -/
def getOrAllocatePagetables (mapping : P) (flags : PageTableEntryFlags) :
    Nat → List (Fin 512) → Machine A → Checked (Option Nat × Machine A)
  | table, [], s => return (some table, s)
  | table, i :: path, s => do
      let (next, s) ← getOrAllocatePagetable mapping (entryAddress table i) flags s
      match next with
      | none => return (none, s)
      | some next => getOrAllocatePagetables mapping flags next path s

/-- The calls of `get_pagetable` down a path of indices. -/
def getPagetables (mapping : P) (m : ByteMemory) :
    Nat → List (Fin 512) → Checked (Option Nat)
  | table, [] => return some table
  | table, i :: path => do
      match ← getPagetable mapping (tableEntry m table i) with
      | none => return none
      | some next => getPagetables mapping m next path

variable {S : PageSize}

def Page.tablePath : {S : PageSize} → Page S → List (Fin 512)
  | .size4KiB, page => [l4Index page.address, l3Index page.address, l2Index page.address]
  | .size2MiB, page => [l4Index page.address, l3Index page.address]

def Page.leafIndex : {S : PageSize} → Page S → Fin 512
  | .size4KiB, page => l1Index page.address
  | .size2MiB, page => l2Index page.address

/-- The flags stored for a page: those of a large page get `HUGE_PAGE`. -/
def PageSize.leafFlags (S : PageSize) (flags : PageTableEntryFlags) : PageTableEntryFlags :=
  match S with
  | .size4KiB => flags
  | .size2MiB => flags ||| .hugePage

def parentFlags : PageTableEntryFlags :=
  .present ||| .writable ||| .userAccessible

namespace MappedPageTable

def mapTo (table : MappedPageTable P) (frame : PhysicalFrame S) (page : Page S)
    (flags : PageTableEntryFlags) (s : Machine A) :
    Checked (Except MappingError (TlbFlusher S) × Machine A) := do
  let (last, s) ←
    getOrAllocatePagetables table.mapping parentFlags table.pml4t page.tablePath s
  match last with
  | none => return (.error .frameAllocationFailed, s)
  | some last =>
      if PageTableEntry.isPresent (tableEntry s.memory last page.leafIndex) then
        return (.error .pageAlreadyMapped, s)
      else
        let entry := PageTableEntry.setAddress frame.address (S.leafFlags flags)
        let memory := s.memory.writeWord (entryAddress last page.leafIndex) entry
        return (.ok ⟨page⟩, { s with memory })

def identityMap (table : MappedPageTable P) (frame : PhysicalFrame S)
    (flags : PageTableEntryFlags) (s : Machine A) :
    Checked (Except MappingError (TlbFlusher S) × Machine A) :=
  table.mapTo frame (.containingAddress S frame.address) flags s

/-- `unmap`. The entry is cleared before its address is read for the result. -/
def unmap (table : MappedPageTable P) (page : Page S) (m : ByteMemory) :
    Checked (Except UnmappingError (PhysicalFrame S × TlbFlusher S) × ByteMemory) := do
  let last ← Checked.unwrap (← getPagetables table.mapping m table.pml4t page.tablePath)
  let pte := tableEntry m last page.leafIndex
  if !(PageTableEntry.flags pte).contains .present then
    return (.error .pageNotMapped, m)
  else
    let m := m.writeWord (entryAddress last page.leafIndex) PageTableEntry.unused
    let pte := tableEntry m last page.leafIndex
    return (.ok (.containingAddress S (PageTableEntry.address pte), ⟨page⟩), m)

def translate (table : MappedPageTable P) (page : Page S) (m : ByteMemory) :
    Checked (Except TranslationError (PhysicalFrame S × PageTableEntryFlags)) := do
  match ← getPagetables table.mapping m table.pml4t page.tablePath with
  | none => return .error .notMapped
  | some last =>
      let pte := tableEntry m last page.leafIndex
      if PageTableEntry.isPresent pte then
        return .ok (.containingAddress S (PageTableEntry.address pte), PageTableEntry.flags pte)
      else
        return .error .notMapped

end MappedPageTable

end MiniatureOs
