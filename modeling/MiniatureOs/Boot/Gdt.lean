import MiniatureOs.Lib.BitField
import MiniatureOs.Lib.ByteMemory

/-! # The global descriptor table

`x86_64/src/gdt.rs`: segment descriptors of the user kind and of task state segments,
and the tables that stage 4 and the kernel build. Fields of descriptors are set with the
`bit_field` crate, which panics when a value does not fit its field.
-/

namespace MiniatureOs

abbrev SegmentDescriptorFlags := BitVec 64

namespace SegmentDescriptorFlags

def accessed : SegmentDescriptorFlags := 1#64 <<< 40
def readWrite : SegmentDescriptorFlags := 1#64 <<< 41
def conforming : SegmentDescriptorFlags := 1#64 <<< 42
def executable : SegmentDescriptorFlags := 1#64 <<< 43
def userSegment : SegmentDescriptorFlags := 1#64 <<< 44
def present : SegmentDescriptorFlags := 1#64 <<< 47
def longMode : SegmentDescriptorFlags := 1#64 <<< 53
def protectedMode : SegmentDescriptorFlags := 1#64 <<< 54
def granularity : SegmentDescriptorFlags := 1#64 <<< 55

def all : SegmentDescriptorFlags :=
  accessed ||| readWrite ||| conforming ||| executable ||| userSegment ||| present ||| longMode |||
    protectedMode ||| granularity

end SegmentDescriptorFlags

inductive SystemSegmentType where
  | ldt
  | tssAvailable
  | tssBusy
  deriving Repr, DecidableEq

def SystemSegmentType.toBits : SystemSegmentType → BitVec 64
  | .ldt => 0x2
  | .tssAvailable => 0x9
  | .tssBusy => 0xb

inductive PrivilegeLevel where
  | ring0
  | ring1
  | ring2
  | ring3
  deriving Repr, DecidableEq

def PrivilegeLevel.toBits : PrivilegeLevel → BitVec 16
  | .ring0 => 0
  | .ring1 => 1
  | .ring2 => 2
  | .ring3 => 3

/-- `From<u8> for PrivilegeLevel`. -/
def PrivilegeLevel.fromByte : Nat → Checked PrivilegeLevel
  | 0 => .ok .ring0
  | 1 => .ok .ring1
  | 2 => .ok .ring2
  | 3 => .ok .ring3
  | _ => .error (.message "Invalid privilege level")

/-- The size of `TaskStateSegment`, packed to 4 bytes: two tables of stack addresses between
reserved words, and the offset of the I/O map. -/
def taskStateSegmentSize : Nat := 4 + 3 * 8 + 8 + 7 * 8 + 8 + 2 + 2

/-- `SegmentDescriptor`: a `UserSegment` or a `SystemSegment`. -/
inductive SegmentDescriptor where
  | user (word : BitVec 64)
  | system (low high : BitVec 64)
  deriving Repr, DecidableEq

namespace SegmentDescriptor

open SegmentDescriptorFlags BitField

/-! The fields of a descriptor, and the parts of an address that go into them. -/

def limitLowBits : Range 64 := bits 0 15
def baseLowBits : Range 64 := bits 16 39
def typeBits : Range 64 := bits 40 43
def limitHighBits : Range 64 := bits 48 51
def baseHighBits : Range 64 := bits 56 63
def baseUpperBits : Range 64 := bits 0 31
def addressLowBits : Range 64 := bits 0 23
def addressHighBits : Range 64 := bits 24 31
def addressUpperBits : Range 64 := bits 32 63

def newUser (flags : SegmentDescriptorFlags) (limit base : BitVec 32) :
    Checked SegmentDescriptor := do
  let limitLow := limit &&& 0xffff
  let limitHigh := (limit >>> 16) &&& 0xf
  let baseLow := base &&& 0xffffff
  let baseHigh := (base >>> 24) &&& 0xff
  let desc := flags
  let desc ←
    if base ≠ 0 then do
      let desc ← setBits desc baseLowBits (baseLow.setWidth 64)
      setBits desc baseHighBits (baseHigh.setWidth 64)
    else pure desc
  let desc ← setBits desc limitLowBits (limitLow.setWidth 64)
  let desc ← setBits desc limitHighBits (limitHigh.setWidth 64)
  return .user desc

/-- `new_tss_segment`, for the address of the segment. -/
def newTssSegment (ptr : BitVec 64) : Checked SegmentDescriptor := do
  let low := present
  let low ← setBits low baseLowBits (getBits ptr addressLowBits)
  let low ← setBits low baseHighBits (getBits ptr addressHighBits)
  let high ← setBits 0 baseUpperBits (getBits ptr addressUpperBits)
  let low ← setBits low limitLowBits (BitVec.ofNat 64 (taskStateSegmentSize - 1))
  let low ← setBits low typeBits SystemSegmentType.tssAvailable.toBits
  return .system low high

def descriptorPrivilegeLevel (descriptor : SegmentDescriptor) : Checked PrivilegeLevel :=
  let valueLow : BitVec 64 := match descriptor with
    | .user word => word
    | .system low _ => low
  PrivilegeLevel.fromByte ((valueLow >>> 45) &&& 0b11).toNat

def protectedModeCodeSegment : Checked SegmentDescriptor :=
  newUser (readWrite ||| executable ||| present ||| userSegment ||| protectedMode |||
    granularity ||| accessed) 0xfffff 0

def protectedModeDataSegment : Checked SegmentDescriptor :=
  newUser (readWrite ||| present ||| userSegment ||| protectedMode ||| granularity |||
    accessed) 0xfffff 0

def longModeCodeSegment : Checked SegmentDescriptor :=
  newUser (readWrite ||| executable ||| present ||| userSegment ||| longMode ||| accessed |||
    granularity) 0 0

def longModeDataSegment : Checked SegmentDescriptor :=
  newUser (readWrite ||| present ||| userSegment ||| accessed ||| granularity) 0 0

def kernelCodeSegment : Checked SegmentDescriptor := longModeCodeSegment

def kernelDataSegment : Checked SegmentDescriptor := longModeDataSegment

def kernelCode : BitVec 64 := 0x00a09b0000000000

def kernelData : BitVec 64 := 0x0080930000000000

theorem kernelCodeSegment_eq : kernelCodeSegment = .ok (.user kernelCode) := by decide

theorem kernelDataSegment_eq : kernelDataSegment = .ok (.user kernelData) := by decide

end SegmentDescriptor

abbrev SegmentSelector := BitVec 16

/-- `SegmentSelector::new`. -/
def SegmentSelector.new (idx : BitVec 16) (rpl : PrivilegeLevel) : SegmentSelector :=
  idx <<< 3 ||| rpl.toBits

/-- `GlobalDescriptorTable`: eight entries, and the number of those in use. -/
structure GlobalDescriptorTable where
  entries : List (BitVec 64)
  size : Nat
  deriving DecidableEq

namespace GlobalDescriptorTable

/-- `new`: the first entry stays null. -/
def new : GlobalDescriptorTable :=
  ⟨List.replicate 8 0, 1⟩

def push (table : GlobalDescriptorTable) (value : BitVec 64) : Checked GlobalDescriptorTable :=
  if table.size < table.entries.length then
    .ok ⟨table.entries.set table.size value, table.size + 1⟩
  else
    .error (.message "GDT full")

/-- `add_entry`; `push` returns the index that it filled, which was the size. -/
def addEntry (table : GlobalDescriptorTable) (entry : SegmentDescriptor) :
    Checked (SegmentSelector × GlobalDescriptorTable) := do
  let idx := table.size
  let table ← match entry with
    | .user word => table.push word
    | .system low high => do
        let table ← table.push low
        table.push high
  let level ← entry.descriptorPrivilegeLevel
  return (.new (BitVec.ofNat 16 idx) level, table)

def toBytes (table : GlobalDescriptorTable) : List UInt8 :=
  table.entries.flatMap (fun entry => toLittleEndian 8 entry.toNat) ++ toLittleEndian 8 table.size

end GlobalDescriptorTable

end MiniatureOs
