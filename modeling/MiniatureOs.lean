import MiniatureOs.Lib.Bits
import MiniatureOs.Lib.Checked
import MiniatureOs.Lib.Dyadic
import MiniatureOs.Memory.Address
import MiniatureOs.Memory.Region
import MiniatureOs.Frames.Bump
import MiniatureOs.Frames.Contract
import MiniatureOs.Frames.StartingAt
import MiniatureOs.Heap.Buddy
import MiniatureOs.Heap.Blocks
import MiniatureOs.Heap.Safety
import MiniatureOs.Heap.Conservation
import MiniatureOs.Heap.History
import MiniatureOs.Disk.Access
import MiniatureOs.Disk.Lawful
import MiniatureOs.Disk.Transfers
import MiniatureOs.Fat.Volume
import MiniatureOs.Fat.Load
import MiniatureOs.Fat.Geometry
import MiniatureOs.Fat.LoadCorrect
import MiniatureOs.Fat.Walk
import MiniatureOs.Lib.Packing
import MiniatureOs.Fat.Entries
import MiniatureOs.Fat.Format
import MiniatureOs.Lib.Chunks
import MiniatureOs.Lib.Utf16
import MiniatureOs.Fat.Directory
import MiniatureOs.Fat.RootDir
import MiniatureOs.Fat.LongName
import MiniatureOs.Fat.Arithmetic
import MiniatureOs.Lib.RadixTree
import MiniatureOs.Paging.Entry
import MiniatureOs.Paging.Mapped
import MiniatureOs.Paging.Separation
import MiniatureOs.Paging.Refinement
import MiniatureOs.Elf.Loader
import MiniatureOs.Elf.Segments
import MiniatureOs.Elf.Header
import MiniatureOs.Elf.Returns
import MiniatureOs.Boot.Physical
import MiniatureOs.Elf.Correct
import MiniatureOs.Boot.Gdt
import MiniatureOs.Boot.E820
import MiniatureOs.Boot.MemoryMap
import MiniatureOs.Boot.Start
import MiniatureOs.Boot.Allocations
import MiniatureOs.Boot.HandOff
import MiniatureOs.Heap.Complete
import MiniatureOs.Heap.Reachable
import MiniatureOs.Heap.Seeding
import MiniatureOs.Paging.Unmap
import MiniatureOs.Boot.MapCorrect
import MiniatureOs.Lib.Chain
import MiniatureOs.Util.IntrusiveLinkedList
import MiniatureOs.Util.Deque
import MiniatureOs.Lib.StackMachine
import MiniatureOs.Interrupts.Wrapper
import MiniatureOs.Lib.Transitions
import MiniatureOs.Interrupts.Locks
import MiniatureOs.Elf.Relocation
import MiniatureOs.Paging.Slots
import MiniatureOs.Paging.Conflicts
import MiniatureOs.Heap.Backed
import MiniatureOs.Boot.Vesa
import MiniatureOs.Boot.Framebuffer
import MiniatureOs.Lib.Iterator
import MiniatureOs.Memory.Iteration
import MiniatureOs.Boot.Descriptors
import MiniatureOs.Memory.Pointer
import MiniatureOs.Heap.Threaded
import MiniatureOs.Heap.ThreadedLists
import MiniatureOs.Heap.ThreadedCalls
import MiniatureOs.Heap.ThreadedRuns
import MiniatureOs.Sync.Mutex
import MiniatureOs.Heap.Locked
import MiniatureOs.Sync.Serial
import MiniatureOs.Interrupts.Selectors
import MiniatureOs.Lib.Stored
import MiniatureOs.Interrupts.Tables
import MiniatureOs.Interrupts.Delivery
import MiniatureOs.Interrupts.Pic
import MiniatureOs.Interrupts.Service
import MiniatureOs.Paging.Walk
import MiniatureOs.Boot.LongMode
import MiniatureOs.Elf.Placement
import MiniatureOs.Elf.Image
import MiniatureOs.Boot.AddressSpace
import MiniatureOs.Boot.KernelSpace
import MiniatureOs.Boot.ContextSwitch
import MiniatureOs.Boot.KernelInit
