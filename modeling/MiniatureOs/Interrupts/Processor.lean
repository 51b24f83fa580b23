import MiniatureOs.Interrupts.Tables
import MiniatureOs.Interrupts.Wrapper
import MiniatureOs.Paging.Entry

/-! # The processor

What the processor does with the tables. It loads the segment registers from the global
descriptor table, and it delivers an exception or an interrupt through the gate of its
vector, the code segment of the gate and, for a gate with a stack, the task state segment.
The frame is pushed before the handler starts. An attempt that fails raises an exception of
its own, which is delivered in its turn or turned into a double fault; a double fault that
cannot be delivered shuts the processor down.
-/

namespace MiniatureOs

open StackMachine

/-- The general registers and memory, the registers that delivery depends on, and which pages
can be read and written. The task register has the descriptor that was loaded. -/
structure Processor where
  cpu : Cpu
  rip : BitVec 64
  rflags : BitVec 64
  cs : SegmentSelector
  ds : SegmentSelector
  es : SegmentSelector
  ss : SegmentSelector
  gdtr : TableRegister
  idtr : TableRegister
  taskRegister : Option SystemFields
  readable : Nat → Bool
  writable : Nat → Bool

inductive Fault where
  | invalidTss
  | segmentNotPresent
  | stackSegment
  | generalProtection
  | page
  deriving DecidableEq, Repr

def Fault.vector : Fault → Nat
  | .invalidTss => 10
  | .segmentNotPresent => 11
  | .stackSegment => 12
  | .generalProtection => 13
  | .page => 14

def ensure (condition : Prop) [Decidable condition] (fault : Fault) : Except Fault Unit :=
  if condition then .ok () else .error fault

theorem ensure_of {condition : Prop} [Decidable condition] {fault : Fault} (h : condition) :
    ensure condition fault = .ok () :=
  if_pos h

def IsKernelCode (word : BitVec 64) : Prop :=
  word &&& SegmentDescriptorFlags.executable ≠ 0 ∧ word &&& SegmentDescriptorFlags.longMode ≠ 0 ∧
    word &&& SegmentDescriptorFlags.protectedMode = 0 ∧ word.extractLsb' 45 2 = 0

def IsWritableData (word : BitVec 64) : Prop :=
  word &&& SegmentDescriptorFlags.executable = 0 ∧ word &&& SegmentDescriptorFlags.readWrite ≠ 0 ∧
    word.extractLsb' 45 2 = 0

instance (word : BitVec 64) : Decidable (IsKernelCode word) :=
  inferInstanceAs (Decidable (_ ∧ _))

instance (word : BitVec 64) : Decidable (IsWritableData word) :=
  inferInstanceAs (Decidable (_ ∧ _))

namespace Processor

def memory (p : Processor) : ByteMemory := p.cpu.memory.flat

def rsp (p : Processor) : BitVec 64 := p.cpu.regs .rsp

def interruptFlag (p : Processor) : Bool := p.rflags.getLsbD 9

def Readable (p : Processor) (address length : Nat) : Prop :=
  ∀ i < length, p.readable ((address + i) / 4096) = true

def Writable (p : Processor) (address length : Nat) : Prop :=
  ∀ i < length, p.writable ((address + i) / 4096) = true

instance (p : Processor) (address length : Nat) : Decidable (p.Readable address length) :=
  inferInstanceAs (Decidable (∀ i < length, _))

instance (p : Processor) (address length : Nat) : Decidable (p.Writable address length) :=
  inferInstanceAs (Decidable (∀ i < length, _))

/-! ## The stack -/

def CanonicalWord (address : BitVec 64) : Prop :=
  Canonical address.toNat ∧ Canonical (address.toNat + 7)

instance (address : BitVec 64) : Decidable (CanonicalWord address) :=
  inferInstanceAs (Decidable (_ ∧ _))

def canPush (p : Processor) (address : BitVec 64) : Except Fault Unit := do
  ensure (CanonicalWord address) .stackSegment
  ensure (p.Writable address.toNat 8) .page

def canPushWords (p : Processor) (rsp : BitVec 64) : Nat → Except Fault Unit
  | 0 => .ok ()
  | count + 1 => do
      p.canPush (rsp - 8)
      p.canPushWords (rsp - 8) count

/-! ## Segments -/

def readEntry (p : Processor) (index : Nat) : Except Fault (BitVec 64) := do
  ensure (index * 8 + 7 ≤ p.gdtr.limit) .generalProtection
  ensure (p.Readable (p.gdtr.base + index * 8) 8) .page
  return p.memory.readWord (p.gdtr.base + index * 8)

def loadSegment (p : Processor) (condition : BitVec 64 → Prop) [DecidablePred condition]
    (missing : Fault) (selector : SegmentSelector) : Except Fault Unit := do
  ensure (selector.index ≠ 0) .generalProtection
  let word ← p.readEntry selector.index
  ensure (word &&& SegmentDescriptorFlags.userSegment ≠ 0 ∧ condition word) .generalProtection
  ensure (word &&& SegmentDescriptorFlags.present ≠ 0) missing

/-- `CS::write`: the selector and the address behind `retfq` are pushed, and `retfq` takes
them off the stack again. -/
def writeCs (p : Processor) (label : BitVec 64) (selector : SegmentSelector) :
    Except Fault Processor := do
  p.canPushWords p.rsp 2
  let pushed := p.cpu.pushAll [selector.setWidth 64, label]
  let cs := (pushed.memory.readWord (pushed.regs .rsp + 8)).setWidth 16
  loadSegment { p with cpu := pushed } IsKernelCode .segmentNotPresent cs
  return { p with
    cpu := pushed.set .rsp (pushed.regs .rsp + 16)
    rip := pushed.memory.readWord (pushed.regs .rsp)
    cs }

/-- `DS::write`, for a data segment. -/
def writeDs (p : Processor) (selector : SegmentSelector) : Except Fault Processor := do
  p.loadSegment IsWritableData .segmentNotPresent selector
  return { p with ds := selector }

/-- `ES::write`, for a data segment. -/
def writeEs (p : Processor) (selector : SegmentSelector) : Except Fault Processor := do
  p.loadSegment IsWritableData .segmentNotPresent selector
  return { p with es := selector }

/-- `SS::write`. -/
def writeSs (p : Processor) (selector : SegmentSelector) : Except Fault Processor := do
  p.loadSegment IsWritableData .stackSegment selector
  return { p with ss := selector }

/-- `TaskStateSegment::load`: the segment has to be available, and its descriptor is marked
busy. -/
def ltr (p : Processor) (selector : SegmentSelector) : Except Fault Processor := do
  ensure (selector.index ≠ 0) .generalProtection
  let low ← p.readEntry selector.index
  let high ← p.readEntry (selector.index + 1)
  let fields := decodeSystem low high
  ensure (fields.userSegment = false ∧ fields.kind = 0x9) .generalProtection
  ensure (fields.present = true) .segmentNotPresent
  let address := p.gdtr.base + selector.index * 8
  ensure (p.Writable address 8) .page
  return { p with
    cpu.memory := p.cpu.memory.writeWord (BitVec.ofNat 64 address) (low ||| 1#64 <<< 41)
    taskRegister := some fields }

/-! ## Delivery -/

def interrupt (p : Processor) (stack : BitVec 64) (errorCode : Option (BitVec 64)) : Interrupt where
  cpu := p.cpu
  stack := stack
  instructionPointer := p.rip
  codeSegment := p.cs.setWidth 64
  cpuFlags := p.rflags
  stackSegment := p.ss.setWidth 64
  errorCode := errorCode

/-- The flags that a handler starts with: trap, nested task, resume and virtual mode are
cleared, and so is the interrupt flag but for a trap gate. -/
def handlerFlags (rflags : BitVec 64) (trapGate : Bool) : BitVec 64 :=
  if trapGate then rflags &&& ~~~0x34100 else rflags &&& ~~~0x34300

def enter (p : Processor) (stack : BitVec 64) (errorCode : Option (BitVec 64)) (rip : BitVec 64)
    (cs : SegmentSelector) (trapGate : Bool) : Processor :=
  { p with
    cpu := (p.interrupt stack errorCode).delivered
    rip
    cs
    rflags := handlerFlags p.rflags trapGate }

def gateStack (p : Processor) (gate : Gate) : Except Fault (BitVec 64) :=
  if gate.stack = 0 then .ok p.rsp
  else
    let offset := TaskStateSegment.interruptStackOffset + 8 * (gate.stack.toNat - 1)
    match p.taskRegister with
    | none => .error .invalidTss
    | some fields => do
        ensure (offset + 7 ≤ fields.limit.toNat) .invalidTss
        ensure (p.Readable (fields.base.toNat + offset) 8) .page
        return p.memory.readWord (fields.base.toNat + offset)

/-- One attempt to deliver through the gate of a vector. When a word of the frame cannot be
pushed, none is. -/
def deliver (p : Processor) (vector : Nat) (errorCode : Option (BitVec 64)) :
    Except Fault Processor := do
  ensure (vector * 16 + 15 ≤ p.idtr.limit) .generalProtection
  ensure (p.Readable (p.idtr.base + 16 * vector) 16) .page
  let gate := Gate.read p.memory (p.idtr.base + 16 * vector)
  ensure (gate.kind = 0xe ∨ gate.kind = 0xf) .generalProtection
  ensure (gate.present = true) .segmentNotPresent
  p.loadSegment IsKernelCode .segmentNotPresent gate.selector
  let stack ← p.gateStack gate
  ensure (Canonical gate.pointer) .generalProtection
  p.canPushWords (p.interrupt stack errorCode).top (5 + errorCode.toList.length)
  return p.enter stack errorCode (BitVec.ofNat 64 gate.pointer) gate.selector (gate.kind = 0xf)

end Processor

inductive DeliveryEvent where
  | exception (vector : Nat)
  | interrupt (vector : Nat)
  deriving DecidableEq, Repr

namespace DeliveryEvent

def vector : DeliveryEvent → Nat
  | .exception vector | .interrupt vector => vector

/-- Exceptions have the vectors below 32, and interrupts those from there on. -/
def Valid : DeliveryEvent → Prop
  | .exception vector => vector < 32
  | .interrupt vector => 32 ≤ vector ∧ vector < 256

theorem Valid.vector_lt {event : DeliveryEvent} (h : event.Valid) : event.vector < 256 := by
  cases event with
  | exception vector => exact Nat.lt_trans h (by decide)
  | interrupt vector => exact h.2

def errorCodeVectors : List Nat := [8, 10, 11, 12, 13, 14, 17, 21, 29, 30]

def errorCode (codes : Nat → BitVec 64) : DeliveryEvent → Option (BitVec 64)
  | .exception vector => if vector ∈ errorCodeVectors then some (codes vector) else none
  | .interrupt _ => none

end DeliveryEvent

inductive Severity where
  | benign
  | contributory
  | pageFault
  | doubleFault
  deriving DecidableEq, Repr

def DeliveryEvent.severity : DeliveryEvent → Severity
  | .interrupt _ => .benign
  | .exception vector =>
      if vector = 8 then .doubleFault
      else if vector ∈ [14, 20] then .pageFault
      else if vector ∈ [0, 10, 11, 12, 13, 21] then .contributory
      else .benign

inductive Outcome where
  | entered (p : Processor)
  | shutdown

namespace Processor

/-- A double fault, after which nothing else is tried. Its error code is zero. -/
def raiseDoubleFault (p : Processor) : Outcome :=
  match p.deliver 8 (some 0) with
  | .ok entered => .entered entered
  | .error _ => .shutdown

def raisePageFault (p : Processor) (codes : Nat → BitVec 64) : Outcome :=
  match p.deliver 14 (some (codes 14)) with
  | .ok entered => .entered entered
  | .error _ => p.raiseDoubleFault

/-- A contributory exception during the delivery of a benign event. -/
def raiseContributory (p : Processor) (codes : Nat → BitVec 64) (fault : Fault) : Outcome :=
  match p.deliver fault.vector (some (codes fault.vector)) with
  | .ok entered => .entered entered
  | .error .page => p.raisePageFault codes
  | .error _ => p.raiseDoubleFault

def raise (p : Processor) (codes : Nat → BitVec 64) (event : DeliveryEvent) : Outcome :=
  match p.deliver event.vector (event.errorCode codes) with
  | .ok entered => .entered entered
  | .error fault =>
      match event.severity, fault with
      | .doubleFault, _ => .shutdown
      | .pageFault, _ => p.raiseDoubleFault
      | .contributory, .page => p.raisePageFault codes
      | .contributory, _ => p.raiseDoubleFault
      | .benign, .page => p.raisePageFault codes
      | .benign, fault => p.raiseContributory codes fault

/-! ## Frames that fit -/

variable {p : Processor} {address rsp : BitVec 64}

def Pushable (p : Processor) (address : BitVec 64) : Prop :=
  CanonicalWord address ∧ p.Writable address.toNat 8

instance (p : Processor) (address : BitVec 64) : Decidable (p.Pushable address) :=
  inferInstanceAs (Decidable (_ ∧ _))

theorem canPush_of_pushable (h : p.Pushable address) : p.canPush address = .ok () := by
  rw [canPush, ensure_of h.1, ensure_of h.2]
  rfl

theorem canPush_of_not_pushable (h : ¬ p.Pushable address) :
    ∃ fault, p.canPush address = .error fault ∧ (fault = .stackSegment ∨ fault = .page) := by
  by_cases hcanonical : CanonicalWord address
  · have hwritable : ¬ p.Writable address.toNat 8 := fun hw => h ⟨hcanonical, hw⟩
    refine ⟨.page, ?_, Or.inr rfl⟩
    rw [canPush, ensure_of hcanonical, ensure, if_neg hwritable]
    rfl
  · refine ⟨.stackSegment, ?_, Or.inl rfl⟩
    rw [canPush, ensure, if_neg hcanonical]
    rfl

def Fits (p : Processor) (rsp : BitVec 64) (count : Nat) : Prop :=
  ∀ i < count, p.Pushable (rsp - BitVec.ofNat 64 (8 * (i + 1)))

instance (p : Processor) (rsp : BitVec 64) (count : Nat) : Decidable (p.Fits rsp count) :=
  inferInstanceAs (Decidable (∀ i < count, _))

theorem fits_succ {count : Nat} :
    p.Fits rsp (count + 1) ↔ p.Pushable (rsp - 8) ∧ p.Fits (rsp - 8) count := by
  have hnext : ∀ i : Nat, rsp - 8 - BitVec.ofNat 64 (8 * (i + 1)) =
      rsp - BitVec.ofNat 64 (8 * (i + 1 + 1)) := by
    intro i
    bv_omega
  constructor
  · intro h
    refine ⟨h 0 (Nat.succ_pos _), fun i hi => ?_⟩
    rw [hnext]
    exact h (i + 1) (Nat.succ_lt_succ hi)
  · rintro ⟨hfirst, hrest⟩ i hi
    cases i with
    | zero => exact hfirst
    | succ i =>
        rw [← hnext]
        exact hrest i (Nat.lt_of_succ_lt_succ hi)

theorem canPushWords_of_fits {count : Nat} (h : p.Fits rsp count) :
    p.canPushWords rsp count = .ok () := by
  induction count generalizing rsp with
  | zero => rfl
  | succ count ih =>
      obtain ⟨hfirst, hrest⟩ := fits_succ.mp h
      rw [canPushWords, canPush_of_pushable hfirst]
      exact ih hrest

theorem canPushWords_of_not_fits {count : Nat} (h : ¬ p.Fits rsp count) :
    ∃ fault, p.canPushWords rsp count = .error fault ∧
      (fault = .stackSegment ∨ fault = .page) := by
  induction count generalizing rsp with
  | zero => exact absurd (fun i hi => absurd hi (Nat.not_lt_zero i)) h
  | succ count ih =>
      by_cases hfirst : p.Pushable (rsp - 8)
      · have hrest : ¬ p.Fits (rsp - 8) count := fun hr => h (fits_succ.mpr ⟨hfirst, hr⟩)
        obtain ⟨fault, hrun, hkind⟩ := ih hrest
        refine ⟨fault, ?_, hkind⟩
        rw [canPushWords, canPush_of_pushable hfirst]
        exact hrun
      · obtain ⟨fault, hrun, hkind⟩ := canPush_of_not_pushable hfirst
        refine ⟨fault, ?_, hkind⟩
        rw [canPushWords, hrun]
        rfl

/-- The two words from an address that is aligned to 16 bytes on lie in one page. -/
theorem pushable_next_iff (haligned : address.toNat % 16 = 0) :
    p.Pushable (address + 8) ↔ p.Pushable address := by
  have hlt := address.isLt
  have hnext : (address + 8).toNat = address.toNat + 8 := by bv_omega
  have hpage : ∀ i < 8, (address.toNat + 8 + i) / 4096 = address.toNat / 4096 := by
    intro i hi
    omega
  have hpage' : ∀ i < 8, (address.toNat + i) / 4096 = address.toNat / 4096 := by
    intro i hi
    omega
  have hwritable : p.Writable (address.toNat + 8) 8 ↔ p.Writable address.toNat 8 := by
    constructor
    · intro h i hi
      rw [hpage' i hi, ← hpage i hi]
      exact h i hi
    · intro h i hi
      rw [hpage i hi, ← hpage' i hi]
      exact h i hi
  have hcanonical : CanonicalWord (address + 8) ↔ CanonicalWord address := by
    unfold CanonicalWord Canonical
    rw [hnext]
    omega
  rw [Pushable, Pushable, hcanonical, hnext, hwritable]

/-- An error code fits whenever the rest of the frame does. -/
theorem fits_six_iff (haligned : rsp.toNat % 16 = 0) : p.Fits rsp 6 ↔ p.Fits rsp 5 := by
  constructor
  · intro h i hi
    exact h i (Nat.lt_succ_of_lt hi)
  · intro h i hi
    by_cases hlast : i < 5
    · exact h i hlast
    · have hlast' : i = 5 := by omega
      have hbelow : (rsp - 48).toNat % 16 = 0 := by bv_omega
      have hword : rsp - 48 + 8 = rsp - BitVec.ofNat 64 (8 * (4 + 1)) := by bv_omega
      rw [hlast']
      apply (pushable_next_iff hbelow).mp
      rw [hword]
      exact h 4 (by decide)

theorem fits_frame_iff (p : Processor) (stack : BitVec 64) (errorCode : Option (BitVec 64)) :
    p.Fits (p.interrupt stack errorCode).top (5 + errorCode.toList.length) ↔
      p.Fits (p.interrupt stack none).top 5 := by
  cases errorCode with
  | none => exact Iff.rfl
  | some code => exact fits_six_iff (p.interrupt stack none).top_aligned

def FrameFits (p : Processor) : Prop := p.Fits (p.interrupt p.rsp none).top 5

instance (p : Processor) : Decidable p.FrameFits := inferInstanceAs (Decidable (p.Fits _ _))

end Processor

end MiniatureOs
