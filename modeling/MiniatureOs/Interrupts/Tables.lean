import Mathlib.Data.Fintype.Option
import MiniatureOs.Interrupts.Selectors
import MiniatureOs.Lib.Stored

/-! # Gates and the task state segment

`x86_64/src/idt.rs` and `x86_64/src/tss.rs`: the structures that the processor reads when
it delivers an interrupt, as they lie in memory. The bits of the options of a gate are set
one field at a time by chained calls.
-/

namespace MiniatureOs

/-! ## Options -/

abbrev InterruptDescriptorOptions := BitVec 16

namespace InterruptDescriptorOptions

/-- `InterruptDescriptorOptions::default`: an interrupt gate that is not present. -/
def default : InterruptDescriptorOptions := 0xe#16 <<< 8

/-! The fields of the options. -/

def stackIndexBits : BitField.Range 16 := BitField.bits 0 2
def levelBits : BitField.Range 16 := BitField.bits 13 14

def setPresent (options : InterruptDescriptorOptions) (present : Bool) :
    InterruptDescriptorOptions :=
  BitField.setBit options 15 present

def disableInterrupts (options : InterruptDescriptorOptions) (disable : Bool) :
    InterruptDescriptorOptions :=
  BitField.setBit options 8 (!disable)

def setPrivilegeLevel (options : InterruptDescriptorOptions) (level : PrivilegeLevel) :
    Checked InterruptDescriptorOptions :=
  BitField.setBits options levelBits level.toBits

/-- `set_interrupt_stack_index`. The hardware counts the stacks from one. -/
def setInterruptStackIndex (options : InterruptDescriptorOptions) (index : Nat) :
    Checked InterruptDescriptorOptions := do
  let value ← Checked.add 16 index 1
  BitField.setBits options stackIndexBits (BitVec.ofNat 16 value)

end InterruptDescriptorOptions

inductive OptionsCall where
  | setPresent (present : Bool)
  | disableInterrupts (disable : Bool)
  | setPrivilegeLevel (level : PrivilegeLevel)
  | setInterruptStackIndex (index : Nat)
  deriving DecidableEq

def OptionsCall.apply : OptionsCall → InterruptDescriptorOptions →
    Checked InterruptDescriptorOptions
  | .setPresent present, options => .ok (options.setPresent present)
  | .disableInterrupts disable, options => .ok (options.disableInterrupts disable)
  | .setPrivilegeLevel level, options => options.setPrivilegeLevel level
  | .setInterruptStackIndex index, options => options.setInterruptStackIndex index

def applyAll : List OptionsCall → InterruptDescriptorOptions → Checked InterruptDescriptorOptions
  | [], options => .ok options
  | call :: calls, options => do
      let options ← call.apply options
      applyAll calls options

structure GateOptions where
  present : Bool
  keepsInterrupts : Bool
  level : PrivilegeLevel
  stack : Option (Fin 7)
  deriving DecidableEq

namespace GateOptions

/-- The bits of the options. The type is that of a trap gate when interrupts stay enabled. -/
def encode (o : GateOptions) : InterruptDescriptorOptions :=
  (if o.present then 0x8000 else 0) ||| o.level.toBits <<< 13 |||
    (if o.keepsInterrupts then 0xf00 else 0xe00) |||
    match o.stack with
    | none => 0
    | some index => BitVec.ofNat 16 (index + 1)

def set (o : GateOptions) : OptionsCall → Checked GateOptions
  | .setPresent present => .ok { o with present }
  | .disableInterrupts disable => .ok { o with keepsInterrupts := !disable }
  | .setPrivilegeLevel level => .ok { o with level }
  | .setInterruptStackIndex index =>
      if h : index < 7 then .ok { o with stack := some ⟨index, h⟩ }
      else if index + 1 < 2 ^ 16 then .error (.assertion "value does not fit into bit range")
      else .error .overflow

def setAll : List OptionsCall → GateOptions → Checked GateOptions
  | [], o => .ok o
  | call :: calls, o => do
      let o ← o.set call
      setAll calls o

def missing : GateOptions := ⟨false, false, .ring0, none⟩

end GateOptions

/-! ## Gates -/

structure InterruptDescriptor where
  pointerLow : BitVec 16
  segmentSelector : SegmentSelector
  options : InterruptDescriptorOptions
  pointerMiddle : BitVec 16
  pointerHigh : BitVec 32
  reserved : BitVec 32
  deriving DecidableEq

namespace InterruptDescriptor

/-- `InterruptDescriptor::missing`. -/
def missing : InterruptDescriptor :=
  ⟨0, .new 0 .ring0, InterruptDescriptorOptions.default, 0, 0, 0⟩

/-- `set_handler_function`, for the code segment that `CS::read` returns. -/
def setHandlerFunction (gate : InterruptDescriptor) (handler : BitVec 64) (cs : SegmentSelector) :
    InterruptDescriptor :=
  { gate with
    pointerLow := handler.setWidth 16
    pointerMiddle := (handler >>> 16).setWidth 16
    pointerHigh := (handler >>> 32).setWidth 32
    segmentSelector := cs
    options := gate.options.setPresent true }

def toBytes (gate : InterruptDescriptor) : List UInt8 :=
  toLittleEndian 2 gate.pointerLow.toNat ++ (toLittleEndian 2 gate.segmentSelector.toNat ++
    (toLittleEndian 2 gate.options.toNat ++ (toLittleEndian 2 gate.pointerMiddle.toNat ++
      (toLittleEndian 4 gate.pointerHigh.toNat ++ toLittleEndian 4 gate.reserved.toNat))))

@[simp] theorem toBytes_length (gate : InterruptDescriptor) : gate.toBytes.length = 16 := by
  simp [toBytes]

end InterruptDescriptor

structure Gate where
  pointer : Nat
  selector : SegmentSelector
  stack : BitVec 3
  kind : BitVec 5
  privilege : BitVec 2
  present : Bool
  deriving DecidableEq

namespace Gate

def decode (low : Nat) (selector : SegmentSelector) (options : BitVec 16) (middle high : Nat) :
    Gate where
  pointer := low + 2 ^ 16 * middle + 2 ^ 32 * high
  selector := selector
  stack := options.extractLsb' 0 3
  kind := options.extractLsb' 8 5
  privilege := options.extractLsb' 13 2
  present := options.getLsbD 15

def read (m : ByteMemory) (address : Nat) : Gate :=
  decode (m.readField address 2) (BitVec.ofNat 16 (m.readField (address + 2) 2))
    (BitVec.ofNat 16 (m.readField (address + 4) 2)) (m.readField (address + 6) 2)
    (m.readField (address + 8) 4)

end Gate

def InterruptDescriptor.gate (gate : InterruptDescriptor) : Gate :=
  .decode gate.pointerLow.toNat gate.segmentSelector gate.options gate.pointerMiddle.toNat
    gate.pointerHigh.toNat

theorem Gate.read_of_contains {m : ByteMemory} {address : Nat} {gate : InterruptDescriptor}
    (h : m.Contains address gate.toBytes) : read m address = gate.gate := by
  simp only [InterruptDescriptor.toBytes, ByteMemory.contains_append, toLittleEndian_length,
    Nat.add_assoc, Nat.reduceAdd] at h
  obtain ⟨hlow, hselector, hoptions, hmiddle, hhigh, _⟩ := h
  rw [read, hlow.readField gate.pointerLow.isLt, hselector.readField gate.segmentSelector.isLt,
    hoptions.readField gate.options.isLt, hmiddle.readField gate.pointerMiddle.isLt,
    hhigh.readField gate.pointerHigh.isLt, BitVec.ofNat_toNat, BitVec.ofNat_toNat,
    BitVec.setWidth_eq, BitVec.setWidth_eq]
  rfl

theorem Gate.read_congr {m m' : ByteMemory} {address : Nat}
    (h : ∀ x, address ≤ x → x < address + 16 → m' x = m x) : read m' address = read m address := by
  have hfield : ∀ offset length, offset + length ≤ 16 →
      m'.readField (address + offset) length = m.readField (address + offset) length := by
    intro offset length hle
    have hbytes : m'.bytes (address + offset) length = m.bytes (address + offset) length :=
      ByteMemory.bytes_eq_iff.mpr fun i hi => h _ (by omega) (by omega)
    rw [ByteMemory.readField, ByteMemory.readField, hbytes]
  have hfirst := hfield 0 2 (by decide)
  rw [Nat.add_zero] at hfirst
  rw [read, read, hfirst, hfield 2 2 (by decide), hfield 4 2 (by decide), hfield 6 2 (by decide),
    hfield 8 4 (by decide)]

/-! ## What a chain of calls sets -/

namespace GateOptions

variable {o o' : GateOptions} {calls : List OptionsCall}

/-- The processor reads the fields back. -/
theorem decode_encode (o : GateOptions) (low : Nat) (selector : SegmentSelector)
    (middle high : Nat) :
    Gate.decode low selector o.encode middle high =
      { pointer := low + 2 ^ 16 * middle + 2 ^ 32 * high
        selector := selector
        stack := match o.stack with
          | none => 0
          | some index => BitVec.ofNat 3 (index + 1)
        kind := if o.keepsInterrupts then 0xf else 0xe
        privilege := o.level.toBits.extractLsb' 0 2
        present := o.present } := by
  obtain ⟨present, keepsInterrupts, level, stack⟩ := o
  have hstack : ∀ (present keepsInterrupts : Bool) (stack : Option (Fin 7)),
      (encode ⟨present, keepsInterrupts, level, stack⟩).extractLsb' 0 3 =
        match stack with
        | none => 0
        | some index => BitVec.ofNat 3 (index + 1) := by
    cases level <;> decide
  have hkind : ∀ (present keepsInterrupts : Bool) (stack : Option (Fin 7)),
      (encode ⟨present, keepsInterrupts, level, stack⟩).extractLsb' 8 5 =
        if keepsInterrupts then 0xf else 0xe := by
    cases level <;> decide
  have hprivilege : ∀ (present keepsInterrupts : Bool) (stack : Option (Fin 7)),
      (encode ⟨present, keepsInterrupts, level, stack⟩).extractLsb' 13 2 =
        level.toBits.extractLsb' 0 2 := by
    cases level <;> decide
  have hpresent : ∀ (present keepsInterrupts : Bool) (stack : Option (Fin 7)),
      (encode ⟨present, keepsInterrupts, level, stack⟩).getLsbD 15 = present := by
    cases level <;> decide
  rw [Gate.decode, hstack, hkind, hprivilege, hpresent]

theorem apply_encode (o : GateOptions) (call : OptionsCall) :
    call.apply o.encode = (o.set call).map encode := by
  obtain ⟨present, keepsInterrupts, level, stack⟩ := o
  cases call with
  | setPresent value =>
      have hset : ∀ (value present keepsInterrupts : Bool) (stack : Option (Fin 7)),
          (encode ⟨present, keepsInterrupts, level, stack⟩).setPresent value =
            encode ⟨value, keepsInterrupts, level, stack⟩ := by
        cases level <;> decide
      exact congrArg Except.ok (hset value present keepsInterrupts stack)
  | disableInterrupts disable =>
      have hset : ∀ (disable present keepsInterrupts : Bool) (stack : Option (Fin 7)),
          (encode ⟨present, keepsInterrupts, level, stack⟩).disableInterrupts disable =
            encode ⟨present, !disable, level, stack⟩ := by
        cases level <;> decide
      exact congrArg Except.ok (hset disable present keepsInterrupts stack)
  | setPrivilegeLevel value =>
      have hset : ∀ (present keepsInterrupts : Bool) (stack : Option (Fin 7)),
          (encode ⟨present, keepsInterrupts, level, stack⟩).setPrivilegeLevel value =
            .ok (encode ⟨present, keepsInterrupts, value, stack⟩) := by
        cases level <;> cases value <;> decide
      exact hset present keepsInterrupts stack
  | setInterruptStackIndex index =>
      rw [OptionsCall.apply, InterruptDescriptorOptions.setInterruptStackIndex, set]
      by_cases hindex : index < 7
      · have hset : ∀ (index : Fin 7) (present keepsInterrupts : Bool) (stack : Option (Fin 7)),
            BitField.setBits (encode ⟨present, keepsInterrupts, level, stack⟩)
              InterruptDescriptorOptions.stackIndexBits (BitVec.ofNat 16 (index + 1)) =
              .ok (encode ⟨present, keepsInterrupts, level, some index⟩) := by
          cases level <;> decide
        rw [dif_pos hindex, Checked.add_of_lt (by omega), Checked.ok_bind]
        exact hset ⟨index, hindex⟩ present keepsInterrupts stack
      · rw [dif_neg hindex]
        by_cases hfits : index + 1 < 2 ^ 16
        · have hlarge : ¬ (BitVec.ofNat 16 (index + 1)).toNat <
              2 ^ InterruptDescriptorOptions.stackIndexBits.length := by
            rw [BitVec.toNat_ofNat, Nat.mod_eq_of_lt hfits]
            change ¬ index + 1 < 2 ^ 3
            omega
          rw [if_pos hfits, Checked.add_of_lt hfits, Checked.ok_bind, BitField.setBits,
            decide_eq_false hlarge]
          rfl
        · rw [if_neg hfits, Checked.add, if_neg hfits]
          rfl

/-- The bits are set as the fields are, whatever calls are chained. -/
theorem applyAll_encode (calls : List OptionsCall) (o : GateOptions) :
    applyAll calls o.encode = (o.setAll calls).map encode := by
  induction calls generalizing o with
  | nil => rfl
  | cons call calls ih =>
      rw [applyAll, setAll, apply_encode]
      cases o.set call with
      | error panic => rfl
      | ok o' => exact ih o'

end GateOptions

namespace InterruptDescriptor

/-- The address of the handler is put together again. -/
theorem pointer_split (handler : BitVec 64) :
    (handler.setWidth 16).toNat + 2 ^ 16 * ((handler >>> 16).setWidth 16).toNat +
      2 ^ 32 * ((handler >>> 32).setWidth 32).toNat = handler.toNat := by
  have hlt := handler.isLt
  simp only [BitVec.toNat_setWidth, BitVec.toNat_ushiftRight, Nat.shiftRight_eq_div_pow]
  omega

/-- A gate with the given options, once its handler is set. -/
theorem gate_setHandlerFunction (gate : InterruptDescriptor) (handler : BitVec 64)
    (cs : SegmentSelector) (o : GateOptions) :
    InterruptDescriptor.gate { gate.setHandlerFunction handler cs with options := o.encode } =
      { pointer := handler.toNat
        selector := cs
        stack := match o.stack with
          | none => 0
          | some index => BitVec.ofNat 3 (index + 1)
        kind := if o.keepsInterrupts then 0xf else 0xe
        privilege := o.level.toBits.extractLsb' 0 2
        present := o.present } := by
  rw [InterruptDescriptor.gate, GateOptions.decode_encode, ← pointer_split handler]
  rfl

theorem options_setHandlerFunction (handler : BitVec 64) (cs : SegmentSelector) :
    (missing.setHandlerFunction handler cs).options =
      GateOptions.encode { GateOptions.missing with present := true } := by
  have hset : InterruptDescriptorOptions.default.setPresent true =
      GateOptions.encode { GateOptions.missing with present := true } := by decide
  exact hset

/-- A new gate with a handler and a chain of calls panics where a call sets a stack that the
segment does not have. Otherwise the processor reads the handler, the code segment and what
the calls have set last, wherever the gate lies. -/
theorem read_chained (handler : BitVec 64) (cs : SegmentSelector) (calls : List OptionsCall) :
    applyAll calls (missing.setHandlerFunction handler cs).options =
      (GateOptions.setAll calls { GateOptions.missing with present := true }).map
        GateOptions.encode ∧
    ∀ (o : GateOptions) (m : ByteMemory) (address : Nat),
      Gate.read (m.store address
        { missing.setHandlerFunction handler cs with options := o.encode }.toBytes) address =
        { pointer := handler.toNat
          selector := cs
          stack := match o.stack with
            | none => 0
            | some index => BitVec.ofNat 3 (index + 1)
          kind := if o.keepsInterrupts then 0xf else 0xe
          privilege := o.level.toBits.extractLsb' 0 2
          present := o.present } := by
  constructor
  · rw [options_setHandlerFunction]
    exact GateOptions.applyAll_encode calls _
  · intro o m address
    rw [Gate.read_of_contains (ByteMemory.contains_store m address _)]
    exact gate_setHandlerFunction missing handler cs o

end InterruptDescriptor

/-! ## The interrupt descriptor table -/

/-- The fields of `InterruptDescriptorTable`. -/
inductive IdtField where
  | divideError
  | debug
  | nonMaskableInterrupt
  | breakpoint
  | overflow
  | boundRangeExceeded
  | invalidOpcode
  | deviceNotAvailable
  | doubleFault
  | coprocessorSegmentOverrun
  | invalidTss
  | segmentNotPresent
  | stackSegmentFault
  | generalProtectionFault
  | pageFault
  | reserved1
  | x87FloatingPoint
  | alignmentCheck
  | machineCheck
  | simdFloatingPoint
  | virtualization
  | controlProtectionException
  | reserved2
  | hypervisorInjectionException
  | vmmCommunicationException
  | securityException
  | reserved3
  | interrupts
  deriving DecidableEq, Repr

namespace IdtField

/-- The fields in the order of `repr(C)`. -/
def all : List IdtField :=
  [.divideError, .debug, .nonMaskableInterrupt, .breakpoint, .overflow, .boundRangeExceeded,
    .invalidOpcode, .deviceNotAvailable, .doubleFault, .coprocessorSegmentOverrun, .invalidTss,
    .segmentNotPresent, .stackSegmentFault, .generalProtectionFault, .pageFault, .reserved1,
    .x87FloatingPoint, .alignmentCheck, .machineCheck, .simdFloatingPoint, .virtualization,
    .controlProtectionException, .reserved2, .hypervisorInjectionException,
    .vmmCommunicationException, .securityException, .reserved3, .interrupts]

def length : IdtField → Nat
  | .reserved2 => 6
  | .interrupts => 256 - 32
  | _ => 1

def first (field : IdtField) : Nat :=
  ((all.takeWhile (· ≠ field)).map length).sum

end IdtField

/-- `InterruptDescriptorTable`, gate by gate. -/
structure InterruptDescriptorTable where
  gates : Nat → InterruptDescriptor

namespace InterruptDescriptorTable

def count : Nat := (IdtField.all.map IdtField.length).sum

/-- The assertion on the size of the structure. -/
example : count = 256 := by decide

/-- `InterruptDescriptorTable::default`. -/
def default : InterruptDescriptorTable := ⟨fun _ => .missing⟩

def toBytes (table : InterruptDescriptorTable) : List UInt8 :=
  (List.range count).flatMap fun vector => (table.gates vector).toBytes

/-- The operand of `lidt` in `load`, for the address of the table. -/
def descriptor (address : Nat) : TableRegister :=
  ⟨(count * 16 - 1) % 2 ^ 16, address⟩

theorem toBytes_length (table : InterruptDescriptorTable) : table.toBytes.length = 4096 := by
  rw [toBytes, List.length_flatMap]
  simp only [InterruptDescriptor.toBytes_length, List.map_const', List.sum_replicate_nat,
    List.length_range]
  decide

theorem read_of_contains {m : ByteMemory} {address vector : Nat}
    {table : InterruptDescriptorTable} (h : m.Contains address table.toBytes)
    (hvector : vector < 256) :
    Gate.read m (address + 16 * vector) = (table.gates vector).gate := by
  have hlength : vector < (List.range count).length := by
    rw [List.length_range]
    exact hvector
  have hentry := h.entry (fun _ => InterruptDescriptor.toBytes_length _) hlength
  rw [List.getElem_range] at hentry
  exact Gate.read_of_contains hentry

end InterruptDescriptorTable

/-! ## The task state segment -/

structure TaskStateSegment where
  privilegeStackTable : Vector (BitVec 64) 3
  interruptStackTable : Vector (BitVec 64) 7
  iomapBase : BitVec 16

namespace TaskStateSegment

/-- `TaskStateSegment::new`. -/
def new : TaskStateSegment :=
  ⟨Vector.replicate 3 0, Vector.replicate 7 0, BitVec.ofNat 16 taskStateSegmentSize⟩

def addressBytes (addresses : List (BitVec 64)) : List UInt8 :=
  addresses.flatMap fun address => toLittleEndian 8 address.toNat

def toBytes (tss : TaskStateSegment) : List UInt8 :=
  toLittleEndian 4 0 ++ (addressBytes tss.privilegeStackTable.toList ++ (toLittleEndian 8 0 ++
    (addressBytes tss.interruptStackTable.toList ++ (toLittleEndian 8 0 ++
      (toLittleEndian 2 0 ++ toLittleEndian 2 tss.iomapBase.toNat)))))

theorem addressBytes_length (addresses : List (BitVec 64)) :
    (addressBytes addresses).length = 8 * addresses.length := by
  rw [addressBytes, List.length_flatMap]
  simp only [toLittleEndian_length, List.map_const', List.sum_replicate_nat]
  omega

theorem toBytes_length (tss : TaskStateSegment) : tss.toBytes.length = taskStateSegmentSize := by
  simp [toBytes, addressBytes_length, taskStateSegmentSize]

def interruptStackOffset : Nat := 36

theorem readWord_of_contains {m : ByteMemory} {address : Nat} {tss : TaskStateSegment}
    (h : m.Contains address tss.toBytes) (index : Fin 7) :
    m.readWord (address + interruptStackOffset + 8 * index) = tss.interruptStackTable[index] := by
  simp only [toBytes, ByteMemory.contains_append, toLittleEndian_length, addressBytes_length,
    Vector.length_toList, Nat.add_assoc, Nat.reduceAdd, Nat.reduceMul] at h
  obtain ⟨_, _, _, htable, _⟩ := h
  have hindex : index.val < tss.interruptStackTable.toList.length := by
    rw [Vector.length_toList]
    exact index.isLt
  have hentry := htable.entry (fun _ => toLittleEndian_length 8 _) hindex
  have hword := hentry.readWord
  rw [Vector.getElem_toList] at hword
  exact hword

end TaskStateSegment

end MiniatureOs
