import MiniatureOs.Memory.Range
import MiniatureOs.Paging.Mapped

/-! # The kernel loader

`bootloader/x86_64/bios/stage4/src/elf.rs`. The image of the kernel lies in
memory already; the loader maps the segments of the file in place, copies the page
in which zeroed memory begins, and adds zeroed pages behind it. Physical memory is
visible at its own addresses, so the pointers of the source are addresses of the
memory model. The program headers and relocation entries come from the ELF parser.
-/

namespace MiniatureOs

structure ProgramHeader where
  offset : Nat
  virtualAddr : Nat
  fileSize : Nat
  memSize : Nat
  isExecute : Bool
  isWrite : Bool
  deriving DecidableEq, Repr

inductive RelocationTypes where
  | relative
  | unhandled (name : String)
  deriving DecidableEq, Repr

inductive RelocationType where
  | x86_64 (typ : RelocationTypes)
  | x86
  deriving DecidableEq, Repr

structure RelocationEntry where
  rtype : RelocationType
  offset : Nat
  addend : Option Nat
  deriving DecidableEq, Repr

/-- The arguments of `tls`. -/
structure TlsRegion where
  start : Nat
  totalSize : Nat
  deriving DecidableEq, Repr

structure ElfBinary where
  headers : List ProgramHeader
  tls : List TlsRegion
  relocations : List RelocationEntry
  entryPoint : Nat
  deriving DecidableEq, Repr

/-- `KernelLoader`, with the start of the image from the BIOS information. -/
structure KernelLoader (P : Type) where
  virtualBase : Nat
  kernelStart : Nat
  pageTable : MappedPageTable P

/-- `Result::expect`. -/
def expectOk {ε α : Type} (message : String) : Except ε α → Checked α
  | .ok value => .ok value
  | .error _ => .error (.message message)

/-- `Sub<u64>` of the address types. -/
def checkedSub (a b : Nat) : Checked Nat :=
  Checked.unwrap (if b ≤ a then some (a - b) else none)

/-- `Sub<PhysicalFrame> for PhysicalFrame`. -/
def PhysicalFrame.distance {S : PageSize} (frame other : PhysicalFrame S) : Checked Nat := do
  let bytes ← Checked.sub frame.address other.address
  return bytes / S.size

variable {P A : Type} [PageTableFrameMapping P] [FrameAllocator A]

/-- `allocate_frame().expect(message)`. -/
def expectFrame (message : String) (s : Machine A) :
    Checked (PhysicalFrame .size4KiB × Machine A) := do
  let (frame, allocator) ← FrameAllocator.allocateFrame s.allocator
  let frame ← Checked.expect message frame
  return (frame, { s with allocator })

/-- `map_to(...).expect(message)`; whether the TLB is flushed is not modelled. -/
def MappedPageTable.expectMapTo {S : PageSize} (table : MappedPageTable P) (message : String)
    (frame : PhysicalFrame S) (page : Page S) (flags : PageTableEntryFlags) (s : Machine A) :
    Checked (Machine A) := do
  let (result, s) ← table.mapTo frame page flags s
  let _ ← expectOk message result
  return s

def copied : PageTableEntryFlags := .bit9

/-- The flags that `allocate` gives the pages of a segment. -/
def ProgramHeader.pageFlags (header : ProgramHeader) : PageTableEntryFlags :=
  let flags := PageTableEntryFlags.present
  let flags := if !header.isExecute then flags ||| .noExecute else flags
  if header.isWrite then flags ||| .writable else flags

namespace KernelLoader

def makeMutable (loader : KernelLoader P) (page : Page .size4KiB) (s : Machine A) :
    Checked (PhysicalFrame .size4KiB × Machine A) := do
  let translated ← loader.pageTable.translate page s.memory
  let (frame, flags) ← expectOk "Make mutable translation failed" translated
  if flags.contains copied then
    return (frame, s)
  else
    let (newFrame, s) ← expectFrame "Failed to allocate frame for make_mut" s
    let memory := s.memory.copy newFrame.address 4096 s.memory frame.address
    let (unmapped, memory) ← loader.pageTable.unmap page memory
    let _ ← expectOk "Failed to unmap page in make_mutable" unmapped
    let s ← loader.pageTable.expectMapTo "make mut: failed to map page to new frame" newFrame
      page (flags ||| copied) { s with memory }
    return (newFrame, s)

def mapFrame (loader : KernelLoader P) (startFrame : PhysicalFrame .size4KiB)
    (startPage : Page .size4KiB) (flags : PageTableEntryFlags) (frame : PhysicalFrame .size4KiB)
    (s : Machine A) : Checked (Machine A) := do
  let frameOffset ← frame.distance startFrame
  let page ← startPage.add frameOffset
  loader.pageTable.expectMapTo "Failed to map section" frame page flags s

def mapSection (loader : KernelLoader P) (startFrame endFrame : PhysicalFrame .size4KiB)
    (startPage : Page .size4KiB) (flags : PageTableEntryFlags) (s : Machine A) :
    Checked (Machine A) :=
  startFrame.forRange endFrame (loader.mapFrame startFrame startPage flags) s

/-- The part of the page with the last byte of the file that lies behind it is
zeroed in a copy of its frame. -/
def zeroTail (loader : KernelLoader P) (zeroStart : Nat) (s : Machine A) :
    Checked (Machine A) := do
  let dataBytesBeforeZero := zeroStart % 4096
  if dataBytesBeforeZero ≠ 0 then
    let last ← checkedSub zeroStart 1
    let (lastFrame, s) ← loader.makeMutable (.containingAddress .size4KiB last) s
    let memory := s.memory.fill (lastFrame.address + dataBytesBeforeZero)
      (4096 - dataBytesBeforeZero) 0
    return { s with memory }
  else
    return s

def mapZeroedFrame (loader : KernelLoader P) (flags : PageTableEntryFlags)
    (page : Page .size4KiB) (s : Machine A) : Checked (Machine A) := do
  let (frame, s) ← expectFrame "Failed to allocate frame for .bss" s
  let memory := s.memory.fill frame.address 4096 0
  loader.pageTable.expectMapTo "Failed to map .bss section" frame page flags { s with memory }

def mapBss (loader : KernelLoader P) (startPage endPage : Page .size4KiB)
    (flags : PageTableEntryFlags) (s : Machine A) : Checked (Machine A) :=
  startPage.forRange endPage (loader.mapZeroedFrame flags) s

/-- One round of the loop in `allocate`; the first sum is made for the message it
prints. -/
def allocateHeader (loader : KernelLoader P) (header : ProgramHeader) (s : Machine A) :
    Checked (Machine A) := do
  let _ ← Checked.add 64 header.virtualAddr loader.virtualBase
  let physicalStart ← Checked.add 64 loader.kernelStart header.offset
  let physicalEnd ← Checked.add 64 physicalStart header.fileSize
  let physicalLast ← checkedSub physicalEnd 1
  let virtualStart ← Checked.add 64 loader.virtualBase header.virtualAddr
  let s ← loader.mapSection (.containingAddress .size4KiB physicalStart)
    (.containingAddress .size4KiB physicalLast) (.containingAddress .size4KiB virtualStart)
    header.pageFlags s
  if header.memSize > header.fileSize then
    let zeroStart ← Checked.add 64 virtualStart header.fileSize
    let zeroEnd ← Checked.add 64 virtualStart header.memSize
    let s ← loader.zeroTail zeroStart s
    let bssStart ← alignUp zeroStart 4096
    let bssLast ← checkedSub zeroEnd 1
    loader.mapBss (.containingAddress .size4KiB bssStart) (.containingAddress .size4KiB bssLast)
      header.pageFlags s
  else
    return s

def allocate (loader : KernelLoader P) (headers : List ProgramHeader) (s : Machine A) :
    Checked (Machine A) :=
  headers.foldlM (fun s header => loader.allocateHeader header s) s

/-! ## Relocations -/

/-- A round of the loop in `handle_relative_relocation`: the part of the value that
lies on one page. The state is the memory and the number of bytes written. -/
def relocatePage (loader : KernelLoader P) (valueBytes : List UInt8)
    (virtualAddress valueEnd : Nat) (page : Page .size4KiB) (state : ByteMemory × Nat) :
    Checked (ByteMemory × Nat) := do
  let (memory, bytesWritten) := state
  let translated ← loader.pageTable.translate page memory
  let (frame, _) ← expectOk "Relative relocation: Failed to translate to frame" translated
  let offset := if virtualAddress > page.address then virtualAddress - page.address else 0
  let pageEnd ← page.endAddress
  let bytesToWrite ←
    if valueEnd > pageEnd then checkedSub pageEnd virtualAddress
    else Checked.sub valueBytes.length bytesWritten
  let address ← Checked.add 64 frame.address offset
  if bytesWritten + bytesToWrite ≤ valueBytes.length then
    let writeSlice := (valueBytes.drop bytesWritten).take bytesToWrite
    return (memory.store address writeSlice, bytesWritten + bytesToWrite)
  else
    throw .outOfBounds

def handleRelativeRelocation (loader : KernelLoader P) (entry : RelocationEntry)
    (m : ByteMemory) : Checked ByteMemory := do
  let addend ← Checked.expect "Relative relocation: addend value = None" entry.addend
  let value ← Checked.add 64 loader.virtualBase addend
  let valueBytes := toLittleEndian 8 value
  let virtualAddress ← Checked.add 64 loader.virtualBase entry.offset
  let valueEnd ← Checked.add 64 virtualAddress valueBytes.length
  let startPage := Page.containingAddress .size4KiB virtualAddress
  let endPage := Page.containingAddress .size4KiB valueEnd
  let (m, _) ← startPage.forRange endPage
    (loader.relocatePage valueBytes virtualAddress valueEnd) (m, 0)
  return m

def relocate (loader : KernelLoader P) (entry : RelocationEntry) (m : ByteMemory) :
    Checked ByteMemory :=
  match entry.rtype with
  | .x86_64 .relative => loader.handleRelativeRelocation entry m
  | .x86_64 (.unhandled name) => throw (.message ("Unhandled relocation type: " ++ name))
  | .x86 => throw (.message "Expected x86_64 relocation type but got x86 relocation type")

/-- `tls`, which only prints; the end of the region is computed for that. -/
def tls (region : TlsRegion) : Checked Unit := do
  let _ ← Checked.add 64 region.start region.totalSize

/-- `load_kernel`: the ELF library passes the loadable headers to `allocate`, then
reports the thread-local region, then passes the relocations one by one. -/
def loadKernel (loader : KernelLoader P) (elf : ElfBinary) (s : Machine A) :
    Checked (Nat × Machine A) := do
  let s ← loader.allocate elf.headers s
  elf.tls.forM tls
  let memory ← elf.relocations.foldlM (fun m entry => loader.relocate entry m) s.memory
  let entryPoint ← Checked.add 64 loader.virtualBase elf.entryPoint
  return (entryPoint, { s with memory })

end KernelLoader

end MiniatureOs
