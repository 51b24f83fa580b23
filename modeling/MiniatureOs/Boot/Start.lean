import MiniatureOs.Boot.Gdt
import MiniatureOs.Boot.MemoryMap
import MiniatureOs.Elf.Loader

/-! # Stage 4

`bootloader/x86_64/bios/stage4/src/main.rs`: the last stage loads the kernel, builds
its page table, and hands over. Stage 4 runs with physical memory at its own
addresses. Setting up interrupts and the control registers changes neither memory
nor the allocator.
-/

namespace MiniatureOs

open MemoryRegion PageTableFrameMapping

def kernelVirtualBase : Nat := 0xffffffff80000000
def kernelStackTop : Nat := 0xffffffff00000000
def kernelStackSize : Nat := 128 * 1024
def physicalMemoryOffset : Nat := 10 * 1024 ^ 4

/-- The fields of `BiosInfo` that stage 4 reads, with the slice behind the address and
size of the memory map. The framebuffer is only passed on. -/
structure BiosInfo where
  kernel : PhysicalMemoryRegion
  lastPhysicalAddress : Nat
  memoryMap : List E820MemoryRegion

/-- `BootInfo`, with the slice behind `memory_regions`. -/
structure BootInfo where
  kernel : PhysicalMemoryRegion
  memoryRegions : List PhysicalMemoryRegion
  physicalMemoryOffset : Nat
  deriving DecidableEq, Repr

/-- What the build of stage 4 fixes: the ELF library, the address of `context_switch`,
and the bytes of a `BootInfo`, whose fields the compiler may order as it likes. -/
structure Stage4Build where
  parseElf : List UInt8 → Option ElfBinary
  contextSwitch : Nat
  bootInfoBytes : BootInfo → List UInt8

/-- The size of `BootInfo`: two regions of 24 and 40 bytes, a slice and a word. -/
def bootInfoSize : Nat := 88

def physicalMemoryRegionSize : Nat := 24

/-- The bytes of a `PhysicalMemoryRegion`, without the padding behind its type. -/
def PhysicalMemoryRegion.toBytes (region : PhysicalMemoryRegion) : List UInt8 :=
  toLittleEndian 8 region.start ++ toLittleEndian 8 region.size ++
    toLittleEndian 4 (match region.typ with | .reserved => 0 | .free => 1 | .used => 2)

/-- The arguments of `context_switch`, and what the kernel finds. -/
structure HandOver where
  pageTable : Nat
  stackTop : Nat
  entryPoint : Nat
  bootInfoFrame : PhysicalFrame .size4KiB
  bootInfo : BootInfo
  machine : Machine (BumpFrameAllocator E820MemoryRegion)

section Steps

variable {P A : Type} [PageTableFrameMapping P] [FrameAllocator A]

/-- A round of the loop in `allocate_and_map_stack`. -/
def mapStackPage (table : MappedPageTable P) (page : Page .size4KiB) (s : Machine A) :
    Checked (Machine A) := do
  let (frame, s) ← expectFrame "Failed to allocate frame for stack" s
  table.expectMapTo "Failed to map stack page" frame page
    (.present ||| .writable ||| .noExecute) s

def allocateAndMapStack (table : MappedPageTable P) (s : Machine A) :
    Checked (Nat × Machine A) := do
  let endPage := Page.containingAddress .size4KiB kernelStackTop
  let startAddress ← Checked.sub kernelStackTop kernelStackSize
  let startPage := Page.containingAddress .size4KiB startAddress
  let s ← startPage.forRange endPage (mapStackPage table) s
  let guardAddress ← checkedSub startPage.address 4096
  let guardPage := Page.containingAddress .size4KiB guardAddress
  Checked.assert (guardPage != startPage) "assertion failed: guard_page != start_page"
  let (frame, s) ← expectFrame "Failed to allocate frame for guard page" s
  let s ← table.expectMapTo "Failed to map guard page" frame guardPage .none s
  return (endPage.address, s)

/-- `identity_map(...).expect(message)`. -/
def MappedPageTable.expectIdentityMap (table : MappedPageTable P) (message : String)
    (frame : PhysicalFrame .size4KiB) (flags : PageTableEntryFlags) (s : Machine A) :
    Checked (Machine A) := do
  let (result, s) ← table.identityMap frame flags s
  let _ ← expectOk message result
  return s

def identityMapContextSwitchFunction (build : Stage4Build) (table : MappedPageTable P)
    (s : Machine A) : Checked (Machine A) :=
  table.expectIdentityMap "Identify mapping failed"
    (.containingAddress .size4KiB build.contextSwitch) .present s

def initializeAndMapGdt (table : MappedPageTable P) (s : Machine A) : Checked (Machine A) := do
  let (frame, s) ← expectFrame "Failed to allocate gdt frame" s
  let (_, gdt) ← GlobalDescriptorTable.new.addEntry (← SegmentDescriptor.kernelCodeSegment)
  let (_, gdt) ← gdt.addEntry (← SegmentDescriptor.kernelDataSegment)
  let memory := s.memory.store frame.address gdt.toBytes
  table.expectIdentityMap "Identity mapping gdt failed" frame .present { s with memory }

def storeRegions (address : Nat) (regions : List PhysicalMemoryRegion) (m : ByteMemory) :
    ByteMemory :=
  regions.zipIdx.foldl
    (fun m (region, idx) => m.store (address + idx * physicalMemoryRegionSize) region.toBytes) m

def allocateAndMapBootInfo (build : Stage4Build) (info : BiosInfo) (table : MappedPageTable P)
    (s : Machine A) : Checked (PhysicalFrame .size4KiB × BootInfo × Machine A) := do
  let (frame, s) ← expectFrame "Failed to allocate frame for boot info" s
  let memoryMap ← buildMemoryMap info.memoryMap frame
  let memoryRegions := memoryMap.filterMap id
  let combinedSize := bootInfoSize + memoryRegions.length * physicalMemoryRegionSize
  Checked.assert (combinedSize ≤ 4096) "Required memory for boot info is bigger than page size"
  let memory := storeRegions (frame.address + bootInfoSize) memoryRegions s.memory
  let bootInfo : BootInfo := ⟨info.kernel, memoryRegions, physicalMemoryOffset⟩
  let memory := memory.store frame.address (build.bootInfoBytes bootInfo)
  let s ← table.expectMapTo "Failed to map boot info" frame
    (.containingAddress .size4KiB frame.address) .present { s with memory }
  return (frame, bootInfo, s)

/-- A round of the loop in `map_complete_physical_memory_space_into_kernel`. -/
def mapPhysicalFrame (table : MappedPageTable P) (offset : Nat) (frame : PhysicalFrame .size2MiB)
    (s : Machine A) : Checked (Machine A) := do
  let address ← Checked.add 64 offset frame.address
  table.expectMapTo "Failed to map all of RAM to kernel space" frame
    (.containingAddress .size2MiB address) (.present ||| .writable ||| .noExecute) s

def mapCompletePhysicalMemorySpaceIntoKernel (table : MappedPageTable P)
    (highestPhysicalAddress offset : Nat) (s : Machine A) : Checked (Machine A) := do
  Checked.assert (offset % PageSize.size2MiB.size == 0)
    "assertion failed: offset.as_u64() % alignment == 0"
  (PhysicalFrame.containingAddress .size2MiB 0).forRange
    (.containingAddress .size2MiB highestPhysicalAddress) (mapPhysicalFrame table offset) s

end Steps

/-- The allocator that stage 4 takes its frames from: it begins behind the last frame
that the earlier stages wrote to. -/
def stage4Allocator (info : BiosInfo) : Checked (BumpFrameAllocator E820MemoryRegion) := do
  let nextFreeFrame ←
    (PhysicalFrame.containingAddress .size4KiB info.lastPhysicalAddress).add 1
  BumpFrameAllocator.newStartingAt nextFreeFrame info.memoryMap

/-- The part of `start` before the boot information is allocated. -/
def prepareKernel (build : Stage4Build) (info : BiosInfo)
    (s : Machine (BumpFrameAllocator E820MemoryRegion)) :
    Checked (MappedPageTable PhysicalOffset × Nat × Nat ×
      Machine (BumpFrameAllocator E820MemoryRegion)) := do
  let (frame, s) ← expectFrame "Failed to allocate frame for kernel page table" s
  let memory ← initializeEmptyAtAddress s.memory frame.address
  let table : MappedPageTable PhysicalOffset := ⟨⟨0⟩, frame.address, frame.aligned⟩
  let loader : KernelLoader PhysicalOffset := ⟨kernelVirtualBase, info.kernel.start, table⟩
  let elf ← Checked.expect "Unable to parse kernel elf"
    (build.parseElf (memory.bytes info.kernel.start info.kernel.size))
  let (entryPoint, s) ← loader.loadKernel elf { s with memory }
  let (stackTop, s) ← allocateAndMapStack table s
  let s ← identityMapContextSwitchFunction build table s
  let s ← initializeAndMapGdt table s
  return (table, entryPoint, stackTop, s)

/-- `start`, up to the call of `context_switch`. -/
def Stage4.start (build : Stage4Build) (info : BiosInfo) (memory : ByteMemory) :
    Checked HandOver := do
  let allocator ← stage4Allocator info
  let (table, entryPoint, stackTop, s) ← prepareKernel build info { memory, allocator }
  let (bootInfoFrame, bootInfo, s) ← allocateAndMapBootInfo build info table s
  let maxPhysicalAddress ← s.allocator.maxPhysicalAddress
  let machine ← mapCompletePhysicalMemorySpaceIntoKernel table maxPhysicalAddress
    physicalMemoryOffset s
  return { pageTable := table.pml4t, stackTop, entryPoint, bootInfoFrame, bootInfo, machine }

end MiniatureOs
