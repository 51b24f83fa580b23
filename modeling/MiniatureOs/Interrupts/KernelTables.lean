import MiniatureOs.Interrupts.Processor

/-! # The tables of the kernel

`init` of `kernel/src/interrupts/mod.rs` builds the task state segment, the global and the
interrupt descriptor table in the statics of the kernel, loads them and enables interrupts.
-/

namespace MiniatureOs

open StackMachine

/-! ## The tables of the kernel -/

/-- The handlers of `kernel/src/interrupts/mod.rs` that have a gate. -/
inductive Handler where
  | divideByZero
  | debug
  | nonMaskableInterrupt
  | breakpoint
  | invalidOpcode
  | deviceNotAvailable
  | invalidTss
  | segmentNotPresent
  | stackSegmentFault
  | pageFault
  | alignmentCheck
  | doubleFault
  | timerInterrupt
  | keyboardInterrupt
  deriving DecidableEq, Repr

namespace Handler

/-- The handlers that are passed to `handler_with_error_code!`. -/
def takesErrorCode : Handler → Bool
  | .invalidTss | .segmentNotPresent | .stackSegmentFault | .pageFault | .alignmentCheck
  | .doubleFault => true
  | _ => false

def wrapper (handler : Handler) : List Instruction :=
  if handler.takesErrorCode then handlerWithErrorCode else handlerWithoutErrorCode

end Handler

def doubleFaultStackSize : Nat := 4096 * 5

def doubleFaultIstIdx : Nat := 0

structure GateSetting where
  field : IdtField
  index : Nat
  handler : Handler
  calls : List OptionsCall
  deriving DecidableEq

def GateSetting.vector (setting : GateSetting) : Nat := setting.field.first + setting.index

/-- The addresses of the statics, of the wrappers of the handlers and of the label in
`CS::write`. -/
structure KernelStatics where
  gdt : Nat
  idt : Nat
  tss : BitVec 64
  stack : Nat
  handler : Handler → BitVec 64
  label : BitVec 64
  handler_injective : Function.Injective handler
  handler_canonical : ∀ h, Canonical (handler h).toNat
  gdt_fits : gdt + 72 ≤ 2 ^ 64
  idt_fits : idt + 4096 ≤ 2 ^ 64
  tss_fits : tss.toNat + taskStateSegmentSize ≤ 2 ^ 64
  stack_canonical : stack + doubleFaultStackSize ≤ 2 ^ 47 ∨
    2 ^ 64 - 2 ^ 47 ≤ stack ∧ stack + doubleFaultStackSize < 2 ^ 64
  gdt_apart_idt : gdt + 72 ≤ idt ∨ idt + 4096 ≤ gdt
  gdt_apart_tss : gdt + 72 ≤ tss.toNat ∨ tss.toNat + taskStateSegmentSize ≤ gdt
  idt_apart_tss : idt + 4096 ≤ tss.toNat ∨ tss.toNat + taskStateSegmentSize ≤ idt
  stack_apart_gdt : stack + doubleFaultStackSize ≤ gdt ∨ gdt + 72 ≤ stack
  stack_apart_idt : stack + doubleFaultStackSize ≤ idt ∨ idt + 4096 ≤ stack
  stack_apart_tss : stack + doubleFaultStackSize ≤ tss.toNat ∨
    tss.toNat + taskStateSegmentSize ≤ stack

namespace KernelStatics

/-- The static `TSS`. -/
def taskStateSegment (k : KernelStatics) : Checked TaskStateSegment := do
  let stackEnd ← Checked.add 64 k.stack doubleFaultStackSize
  return { TaskStateSegment.new with
    interruptStackTable :=
      TaskStateSegment.new.interruptStackTable.set doubleFaultIstIdx (BitVec.ofNat 64 stackEnd) }

/-- The static `GDT`: the table and the selectors of the task state segment, of the code and
of the data. -/
def globalDescriptorTable (k : KernelStatics) :
    Checked (GlobalDescriptorTable × SegmentSelector × SegmentSelector × SegmentSelector) := do
  let (tssSelector, table) ←
    GlobalDescriptorTable.new.addEntry (← SegmentDescriptor.newTssSegment k.tss)
  let (codeSelector, table) ← table.addEntry (← SegmentDescriptor.kernelCodeSegment)
  let (dataSelector, table) ← table.addEntry (← SegmentDescriptor.kernelDataSegment)
  return (table, tssSelector, codeSelector, dataSelector)

/-- The gates that the static `IDT` sets, in their order. -/
def gateList : List GateSetting :=
  [⟨.divideError, 0, .divideByZero, []⟩,
    ⟨.debug, 0, .debug, []⟩,
    ⟨.nonMaskableInterrupt, 0, .nonMaskableInterrupt, []⟩,
    ⟨.breakpoint, 0, .breakpoint, []⟩,
    ⟨.invalidOpcode, 0, .invalidOpcode, []⟩,
    ⟨.deviceNotAvailable, 0, .deviceNotAvailable, []⟩,
    ⟨.invalidTss, 0, .invalidTss, []⟩,
    ⟨.segmentNotPresent, 0, .segmentNotPresent, []⟩,
    ⟨.stackSegmentFault, 0, .stackSegmentFault, []⟩,
    ⟨.pageFault, 0, .pageFault, []⟩,
    ⟨.alignmentCheck, 0, .alignmentCheck, []⟩,
    ⟨.doubleFault, 0, .doubleFault, [.setInterruptStackIndex doubleFaultIstIdx]⟩,
    ⟨.interrupts, 0, .timerInterrupt, []⟩,
    ⟨.interrupts, 1, .keyboardInterrupt, []⟩]

def setGate (k : KernelStatics) (cs : SegmentSelector) (table : InterruptDescriptorTable)
    (setting : GateSetting) : Checked InterruptDescriptorTable := do
  let gate := (table.gates setting.vector).setHandlerFunction (k.handler setting.handler) cs
  let options ← applyAll setting.calls gate.options
  return ⟨Function.update table.gates setting.vector { gate with options }⟩

def setGates (k : KernelStatics) (cs : SegmentSelector) :
    List GateSetting → InterruptDescriptorTable → Checked InterruptDescriptorTable
  | [], table => .ok table
  | setting :: settings, table => do
      let table ← k.setGate cs table setting
      k.setGates cs settings table

/-- The static `IDT`, for the code segment at the time it is first used. -/
def interruptDescriptorTable (k : KernelStatics) (cs : SegmentSelector) :
    Checked InterruptDescriptorTable :=
  k.setGates cs gateList .default

/-- The segment registers and the task register in `init`. -/
def loadSegments (k : KernelStatics) (p : Processor) (tss code data : SegmentSelector) :
    Except Fault Processor := do
  let p ← p.writeCs k.label code
  let p ← p.writeDs data
  let p ← p.writeEs data
  let p ← p.writeSs data
  p.ltr tss

/-- A static is written; its pages are taken to be writable. -/
def storeStatic (p : Processor) (address : Nat) (data : List UInt8) : Processor :=
  { p with cpu.memory := p.cpu.memory.store (BitVec.ofNat 64 address) data }

/-- `init`, but for the interrupt controllers. The statics are written when they are first
used, `TSS` by the initialiser of `GDT`. -/
def init (k : KernelStatics) (p : Processor) : Checked (Except Fault Processor) := do
  let tss ← k.taskStateSegment
  let p := storeStatic p k.tss.toNat tss.toBytes
  let (table, tssSelector, codeSelector, dataSelector) ← k.globalDescriptorTable
  let p := storeStatic p k.gdt table.toBytes
  let gdtr ← table.descriptor k.gdt
  match k.loadSegments { p with gdtr } tssSelector codeSelector dataSelector with
  | .error fault => return .error fault
  | .ok p => do
      let idt ← k.interruptDescriptorTable p.cs
      return .ok { storeStatic p k.idt idt.toBytes with
        idtr := InterruptDescriptorTable.descriptor k.idt
        rflags := p.rflags ||| 1#64 <<< 9 }

/-! ## What the initialisers build -/

variable {k : KernelStatics} {p p' : Processor} {m m' : ByteMemory}

def stackEnd (k : KernelStatics) : BitVec 64 := BitVec.ofNat 64 (k.stack + doubleFaultStackSize)

theorem taskStateSegment_ok (k : KernelStatics) : ∃ tss, k.taskStateSegment = .ok tss ∧
    tss.interruptStackTable[0] = k.stackEnd := by
  have hfits : k.stack + doubleFaultStackSize < 2 ^ 64 := by
    have hcanonical := k.stack_canonical
    omega
  rw [taskStateSegment, Checked.add_of_lt hfits, Checked.ok_bind]
  exact ⟨_, rfl, rfl⟩

def gdtWords (k : KernelStatics) : List (BitVec 64) :=
  [0, SegmentDescriptor.tssLow k.tss, SegmentDescriptor.tssHigh k.tss,
    SegmentDescriptor.kernelCode, SegmentDescriptor.kernelData, 0, 0, 0]

theorem addEntry_user {table table' : GlobalDescriptorTable} {word : BitVec 64}
    {selector : SegmentSelector}
    (hlevel : SegmentDescriptor.descriptorPrivilegeLevel (.user word) = .ok .ring0)
    (hpush : table.push word = .ok table')
    (hselector : .new (BitVec.ofNat 16 table.size) .ring0 = selector) :
    table.addEntry (.user word) = .ok (selector, table') := by
  simp only [GlobalDescriptorTable.addEntry, hpush, hlevel, hselector, Checked.ok_bind,
    Checked.pure_eq_ok]

theorem globalDescriptorTable_ok (k : KernelStatics) :
    k.globalDescriptorTable = .ok (⟨k.gdtWords, 5⟩, 0x8, 0x18, 0x20) := by
  let low := SegmentDescriptor.tssLow k.tss
  let high := SegmentDescriptor.tssHigh k.tss
  let code := SegmentDescriptor.kernelCode
  have htss : GlobalDescriptorTable.new.addEntry (.system low high) =
      .ok (0x8, ⟨[0, low, high, 0, 0, 0, 0, 0], 3⟩) := by
    rw [GlobalDescriptorTable.addEntry, SegmentDescriptor.descriptorPrivilegeLevel_tss k.tss]
    rfl
  have hlevel : SegmentDescriptor.descriptorPrivilegeLevel (.user code) = .ok .ring0 := by decide
  have hcode : GlobalDescriptorTable.addEntry ⟨[0, low, high, 0, 0, 0, 0, 0], 3⟩ (.user code) =
      .ok (0x18, ⟨[0, low, high, code, 0, 0, 0, 0], 4⟩) :=
    addEntry_user hlevel rfl (show SegmentSelector.new 3#16 .ring0 = 0x18 from rfl)
  have hdata : GlobalDescriptorTable.addEntry ⟨[0, low, high, code, 0, 0, 0, 0], 4⟩
      (.user SegmentDescriptor.kernelData) = .ok (0x20, ⟨k.gdtWords, 5⟩) :=
    addEntry_user (by decide) rfl (show SegmentSelector.new 4#16 .ring0 = 0x20 from rfl)
  rw [globalDescriptorTable, SegmentDescriptor.newTssSegment_eq, Checked.ok_bind, htss,
    Checked.ok_bind, SegmentDescriptor.kernelCodeSegment_eq,
    SegmentDescriptor.kernelDataSegment_eq]
  simp only [code] at hcode hdata
  simp only [hcode, hdata, Checked.ok_bind, Checked.pure_eq_ok]

def handled : GateOptions := { GateOptions.missing with present := true }

theorem setGate_ok (cs : SegmentSelector) {table : InterruptDescriptorTable}
    {setting : GateSetting} {o : GateOptions} (hmissing : table.gates setting.vector = .missing)
    (ho : handled.setAll setting.calls = .ok o) :
    k.setGate cs table setting = .ok ⟨Function.update table.gates setting.vector
      { InterruptDescriptor.missing.setHandlerFunction (k.handler setting.handler) cs with
        options := o.encode }⟩ := by
  rw [setGate, hmissing]
  simp only [InterruptDescriptor.options_setHandlerFunction, GateOptions.applyAll_encode]
  rw [show GateOptions.setAll setting.calls { GateOptions.missing with present := true } =
    .ok o from ho]
  rfl

/-- Gates with vectors of their own are set independently of each other. -/
theorem setGates_ok (cs : SegmentSelector) (settings : List GateSetting)
    (table : InterruptDescriptorTable) (hnodup : (settings.map GateSetting.vector).Nodup)
    (hmissing : ∀ setting ∈ settings, table.gates setting.vector = .missing)
    (hcalls : ∀ setting ∈ settings, ∃ o, handled.setAll setting.calls = .ok o) :
    ∃ table', k.setGates cs settings table = .ok table' ∧ ∀ vector,
      match settings.find? (·.vector = vector) with
      | none => table'.gates vector = table.gates vector
      | some setting => ∃ o, handled.setAll setting.calls = .ok o ∧ table'.gates vector =
          { InterruptDescriptor.missing.setHandlerFunction (k.handler setting.handler) cs with
            options := o.encode } := by
  induction settings generalizing table with
  | nil => exact ⟨table, rfl, fun _ => rfl⟩
  | cons setting settings ih =>
      rw [List.map_cons, List.nodup_cons] at hnodup
      obtain ⟨o, ho⟩ := hcalls setting List.mem_cons_self
      let gate : InterruptDescriptor :=
        { InterruptDescriptor.missing.setHandlerFunction (k.handler setting.handler) cs with
          options := o.encode }
      let table₁ : InterruptDescriptorTable := ⟨Function.update table.gates setting.vector gate⟩
      have hset : k.setGate cs table setting = .ok table₁ :=
        setGate_ok cs (hmissing setting List.mem_cons_self) ho
      have hother : ∀ other ∈ settings, other.vector ≠ setting.vector := by
        intro other hmem heq
        exact hnodup.1 (heq ▸ List.mem_map_of_mem hmem)
      obtain ⟨table', hrun, hgates⟩ := ih table₁ hnodup.2
        (fun other hmem => by
          rw [show table₁.gates other.vector = table.gates other.vector from
            Function.update_of_ne (hother other hmem) _ _]
          exact hmissing other (List.mem_cons_of_mem _ hmem))
        (fun other hmem => hcalls other (List.mem_cons_of_mem _ hmem))
      refine ⟨table', ?_, fun vector => ?_⟩
      · rw [setGates, hset]
        exact hrun
      · have hvector := hgates vector
        by_cases heq : setting.vector = vector
        · have hnone : settings.find? (·.vector = vector) = none := by
            rw [List.find?_eq_none]
            intro other hmem
            simpa [heq] using hother other hmem
          rw [hnone] at hvector
          rw [List.find?_cons_of_pos (by simpa using heq)]
          refine ⟨o, ho, ?_⟩
          rw [show table'.gates vector = table₁.gates vector from hvector, ← heq]
          exact Function.update_self _ _ _
        · rw [List.find?_cons_of_neg (by simpa using heq)]
          cases hfind : settings.find? (·.vector = vector) with
          | none =>
              rw [hfind] at hvector
              exact Eq.trans hvector (Function.update_of_ne (Ne.symm heq) _ _)
          | some other =>
              rw [hfind] at hvector
              exact hvector

/-! ## The tables in memory -/

def codeSelector : SegmentSelector := 0x18

def expectedGate (k : KernelStatics) (vector : Nat) : Gate :=
  match gateList.find? (·.vector = vector) with
  | none => ⟨0, 0, 0, 0xe, 0, false⟩
  | some setting => ⟨(k.handler setting.handler).toNat, codeSelector,
      if setting.handler = .doubleFault then 1 else 0, 0xe, 0, true⟩

structure Tables (k : KernelStatics) (m : ByteMemory) : Prop where
  code : m.readWord (k.gdt + 3 * 8) = SegmentDescriptor.kernelCode
  stack : m.readWord (k.tss.toNat + TaskStateSegment.interruptStackOffset) = k.stackEnd
  gates : ∀ vector < 256, Gate.read m (k.idt + 16 * vector) = k.expectedGate vector

structure Loaded (k : KernelStatics) (p : Processor) : Prop where
  gdtr : p.gdtr = ⟨39, k.gdt⟩
  idtr : p.idtr = ⟨4095, k.idt⟩
  taskRegister : p.taskRegister =
    some ⟨BitVec.ofNat 20 (taskStateSegmentSize - 1), k.tss, 0x9, false, 0, true, 0, 0⟩

def InTables (k : KernelStatics) (x : Nat) : Prop :=
  (k.gdt ≤ x ∧ x < k.gdt + 72) ∨ (k.idt ≤ x ∧ x < k.idt + 4096) ∨
    (k.tss.toNat ≤ x ∧ x < k.tss.toNat + taskStateSegmentSize)

def SameTables (k : KernelStatics) (m m' : ByteMemory) : Prop :=
  ∀ x, k.InTables x → m' x = m x

structure Accessible (k : KernelStatics) (p : Processor) : Prop where
  tables : ∀ x, k.InTables x → p.readable (x / 4096) = true
  stack : ∀ x, k.stack ≤ x → x < k.stack + doubleFaultStackSize → p.writable (x / 4096) = true

/-- Some words below a stack pointer, and none of the tables among them. -/
def StackApart (k : KernelStatics) (rsp : BitVec 64) (count : Nat) : Prop :=
  ∀ x, k.InTables x → ∀ i < 8 * count,
    BitVec.ofNat 64 x ≠ rsp - BitVec.ofNat 64 (8 * count) + BitVec.ofNat 64 i

theorem InTables.lt {x : Nat} (h : k.InTables x) : x < 2 ^ 64 := by
  have hgdt := k.gdt_fits
  have hidt := k.idt_fits
  have htss := k.tss_fits
  unfold InTables at h
  omega

theorem Tables.congr (h : Tables k m) (hsame : k.SameTables m m') : Tables k m' where
  code := by
    rw [← h.code]
    exact ByteMemory.readWord_congr fun x _ _ => hsame x (Or.inl (by omega))
  stack := by
    rw [← h.stack]
    refine ByteMemory.readWord_congr fun x hle hlt => hsame x (Or.inr (Or.inr ?_))
    simp only [TaskStateSegment.interruptStackOffset] at hle hlt
    simp only [taskStateSegmentSize]
    omega
  gates := by
    intro vector hvector
    rw [← h.gates vector hvector]
    exact Gate.read_congr fun x _ _ => hsame x (Or.inr (Or.inl (by omega)))

/-- The chained calls set a stack for double faults only. -/
theorem setAll_gateList : ∀ setting ∈ gateList, handled.setAll setting.calls =
    .ok ⟨true, false, .ring0, if setting.handler = .doubleFault then some 0 else none⟩ := by
  decide

theorem interruptDescriptorTable_ok (k : KernelStatics) : ∃ table,
    k.interruptDescriptorTable codeSelector = .ok table ∧
      ∀ vector, (table.gates vector).gate = k.expectedGate vector := by
  obtain ⟨table, hrun, hgates⟩ := k.setGates_ok codeSelector gateList .default (by decide)
    (fun _ _ => rfl) (fun setting hmem => ⟨_, setAll_gateList setting hmem⟩)
  refine ⟨table, hrun, fun vector => ?_⟩
  have hvector := hgates vector
  rw [expectedGate]
  cases hfind : gateList.find? (·.vector = vector) with
  | none =>
      rw [hfind] at hvector
      have hmissing : InterruptDescriptor.missing.gate = ⟨0, 0, 0, 0xe, 0, false⟩ := by decide
      rw [show table.gates vector = .missing from hvector]
      exact hmissing
  | some setting =>
      rw [hfind] at hvector
      obtain ⟨o, ho, hgate⟩ := hvector
      rw [setAll_gateList setting (List.mem_of_find?_eq_some hfind)] at ho
      cases ho
      rw [hgate, InterruptDescriptor.gate_setHandlerFunction]
      by_cases hdouble : setting.handler = .doubleFault
      · simp only [hdouble, if_true]
        rfl
      · simp only [hdouble, if_false]
        rfl

/-! ## `init` -/

theorem readEntry_ok {index : Nat} (hgdtr : p.gdtr = ⟨39, k.gdt⟩)
    (hreadable : ∀ x, k.InTables x → p.readable (x / 4096) = true) (hlt : index < 5) :
    p.readEntry index = .ok (p.memory.readWord (k.gdt + index * 8)) := by
  have hlimit : index * 8 + 7 ≤ p.gdtr.limit := by
    rw [hgdtr]
    simp only
    omega
  have hread : p.Readable (p.gdtr.base + index * 8) 8 := by
    intro i hi
    rw [hgdtr]
    exact hreadable _ (Or.inl ⟨by simp only; omega, by simp only; omega⟩)
  rw [Processor.readEntry, ensure_of hlimit, ensure_of hread, hgdtr]
  rfl

theorem loadSegment_ok {condition : BitVec 64 → Prop} [DecidablePred condition]
    {selector : SegmentSelector} {missing : Fault} {word : BitVec 64} (hindex : selector.index ≠ 0)
    (hread : p.readEntry selector.index = .ok word)
    (hcondition : word &&& SegmentDescriptorFlags.userSegment ≠ 0 ∧ condition word)
    (hpresent : word &&& SegmentDescriptorFlags.present ≠ 0) :
    p.loadSegment condition missing selector = .ok () := by
  rw [Processor.loadSegment, ensure_of hindex, hread]
  simp only [bind, Except.bind, ensure_of hcondition, ensure_of hpresent]

theorem writeCs_ok {label : BitVec 64} {selector : SegmentSelector} (hfits : p.Fits p.rsp 2)
    (hload : Processor.loadSegment { p with cpu := p.cpu.pushAll [selector.setWidth 64, label] }
      IsKernelCode .segmentNotPresent selector = .ok ()) :
    p.writeCs label selector = .ok { p with
      cpu := (p.cpu.pushAll [selector.setWidth 64, label]).set .rsp p.rsp
      rip := label
      cs := selector } := by
  have hempty : HasStack p.cpu [] := trivial
  have hstack : HasStack (p.cpu.pushAll [selector.setWidth 64, label])
      [label, selector.setWidth 64] := hempty.pushAll (by simp)
  have hpointer := p.cpu.pushAll_rsp [selector.setWidth 64, label]
  have hrsp : (p.cpu.pushAll [selector.setWidth 64, label]).regs .rsp + 16 = p.rsp := by
    rw [hpointer]
    exact BitVec.sub_add_cancel _ _
  have hcs : ((p.cpu.pushAll [selector.setWidth 64, label]).memory.readWord
      ((p.cpu.pushAll [selector.setWidth 64, label]).regs .rsp + 8)).setWidth 16 = selector := by
    rw [hstack.2.1]
    simp
  rw [Processor.writeCs, Processor.canPushWords_of_fits hfits]
  simp only [bind, Except.bind, hcs, hload, hrsp, hstack.1]
  rfl

/-- What `init` needs: it can use the statics, and its stack has room for two words that are
not in the tables. -/
structure Ready (k : KernelStatics) (p : Processor) : Prop where
  accessible : k.Accessible p
  writable : ∀ x, k.InTables x → p.writable (x / 4096) = true
  fits : p.Fits p.rsp 2
  apart : k.StackApart p.rsp 2

structure GdtLoaded (k : KernelStatics) (p : Processor) : Prop where
  gdtr : p.gdtr = ⟨39, k.gdt⟩
  tssLow : p.memory.readWord (k.gdt + 1 * 8) = SegmentDescriptor.tssLow k.tss
  tssHigh : p.memory.readWord (k.gdt + 2 * 8) = SegmentDescriptor.tssHigh k.tss
  code : p.memory.readWord (k.gdt + 3 * 8) = SegmentDescriptor.kernelCode
  data : p.memory.readWord (k.gdt + 4 * 8) = SegmentDescriptor.kernelData

theorem GdtLoaded.congr (h : k.GdtLoaded p) (hgdtr : p'.gdtr = p.gdtr)
    (hsame : k.SameTables p.memory p'.memory) : k.GdtLoaded p' := by
  have hword : ∀ i < 5, p'.memory.readWord (k.gdt + i * 8) = p.memory.readWord (k.gdt + i * 8) :=
    fun i hi => ByteMemory.readWord_congr fun x _ _ => hsame x (Or.inl (by omega))
  exact ⟨hgdtr.trans h.gdtr, (hword 1 (by decide)).trans h.tssLow,
    (hword 2 (by decide)).trans h.tssHigh, (hword 3 (by decide)).trans h.code,
    (hword 4 (by decide)).trans h.data⟩

theorem GdtLoaded.loadCode (h : k.GdtLoaded p)
    (hreadable : ∀ x, k.InTables x → p.readable (x / 4096) = true) :
    p.loadSegment IsKernelCode .segmentNotPresent 0x18 = .ok () := by
  have hread := readEntry_ok h.gdtr hreadable (show SegmentSelector.index 0x18 < 5 by decide)
  rw [show SegmentSelector.index 0x18 = 3 by decide, h.code] at hread
  exact loadSegment_ok (by decide) hread (by decide) (by decide)

theorem GdtLoaded.loadData (h : k.GdtLoaded p)
    (hreadable : ∀ x, k.InTables x → p.readable (x / 4096) = true) (missing : Fault) :
    p.loadSegment IsWritableData missing 0x20 = .ok () := by
  have hread := readEntry_ok h.gdtr hreadable (show SegmentSelector.index 0x20 < 5 by decide)
  rw [show SegmentSelector.index 0x20 = 4 by decide, h.data] at hread
  exact loadSegment_ok (by decide) hread (by decide) (by decide)

/-- The descriptor of the task state segment is available, and marked busy. -/
theorem GdtLoaded.ltr (h : k.GdtLoaded p)
    (hreadable : ∀ x, k.InTables x → p.readable (x / 4096) = true)
    (hwritable : ∀ x, k.InTables x → p.writable (x / 4096) = true) : p.ltr 0x8 =
      .ok { p with
        cpu.memory := p.cpu.memory.writeWord (BitVec.ofNat 64 (k.gdt + 1 * 8))
          (SegmentDescriptor.tssLow k.tss ||| 1#64 <<< 41)
        taskRegister := some
          ⟨BitVec.ofNat 20 (taskStateSegmentSize - 1), k.tss, 0x9, false, 0, true, 0, 0⟩ } := by
  have hindex : SegmentSelector.index 0x8 = 1 := by decide
  have hlow := readEntry_ok h.gdtr hreadable (show 1 < 5 by decide)
  have hhigh := readEntry_ok h.gdtr hreadable (show 1 + 1 < 5 by decide)
  rw [h.tssLow] at hlow
  rw [h.tssHigh] at hhigh
  have hbusy : p.Writable (p.gdtr.base + 1 * 8) 8 := by
    intro i hi
    rw [h.gdtr]
    exact hwritable _ (Or.inl ⟨by simp only; omega, by simp only; omega⟩)
  rw [h.gdtr] at hbusy
  have hnonzero : (1 : Nat) ≠ 0 := by decide
  rw [Processor.ltr, hindex, ensure_of hnonzero]
  simp only [bind, Except.bind, hlow, hhigh, SegmentDescriptor.decodeSystem_tss, h.gdtr,
    ensure_of hbusy]
  rfl

theorem memory_pushAll {words : List (BitVec 64)} {cpu : Cpu}
    (hapart : k.StackApart (cpu.regs .rsp) words.length) :
    k.SameTables cpu.memory.flat (cpu.pushAll words).memory.flat :=
  fun x hx => cpu.pushAll_outside fun i hi => hapart x hx i hi

/-- The selectors are loaded, and of the tables only the descriptor of the task state segment
changes. -/
theorem GdtLoaded.loadSegments (h : k.GdtLoaded p) (hready : k.Ready p) :
    ∃ p', k.loadSegments p 0x8 0x18 0x20 = .ok p' ∧ p'.cs = codeSelector ∧ p'.rsp = p.rsp ∧
      p'.gdtr = p.gdtr ∧ p'.readable = p.readable ∧ p'.writable = p.writable ∧
      p'.taskRegister =
        some ⟨BitVec.ofNat 20 (taskStateSegmentSize - 1), k.tss, 0x9, false, 0, true, 0, 0⟩ ∧
      ∀ x, k.InTables x → ¬ (k.gdt + 1 * 8 ≤ x ∧ x < k.gdt + 1 * 8 + 8) →
        p'.memory x = p.memory x := by
  have hreadable := hready.accessible.tables
  let pushed := p.cpu.pushAll [BitVec.setWidth 64 0x18#16, k.label]
  have hsame : k.SameTables p.memory pushed.memory.flat := memory_pushAll hready.apart
  let p₁ : Processor := { p with cpu := pushed.set .rsp p.rsp, rip := k.label, cs := 0x18 }
  let p₂ : Processor := { p₁ with ds := 0x20 }
  let p₃ : Processor := { p₂ with es := 0x20 }
  let p₄ : Processor := { p₃ with ss := 0x20 }
  have hcs : p.writeCs k.label 0x18 = .ok p₁ := by
    have hpushed : k.GdtLoaded { p with cpu := pushed } := h.congr rfl hsame
    exact writeCs_ok hready.fits (hpushed.loadCode hreadable)
  -- the other loads change no more than a selector
  have h₁ : k.GdtLoaded p₁ := h.congr rfl hsame
  have h₂ : k.GdtLoaded p₂ := h.congr rfl hsame
  have h₃ : k.GdtLoaded p₃ := h.congr rfl hsame
  have h₄ : k.GdtLoaded p₄ := h.congr rfl hsame
  have hds : p₁.writeDs 0x20 = .ok p₂ := by
    rw [Processor.writeDs, h₁.loadData hreadable]
    rfl
  have hes : p₂.writeEs 0x20 = .ok p₃ := by
    rw [Processor.writeEs, h₂.loadData hreadable]
    rfl
  have hss : p₃.writeSs 0x20 = .ok p₄ := by
    rw [Processor.writeSs, h₃.loadData hreadable]
    rfl
  have hrun : k.loadSegments p 0x8 0x18 0x20 = p₄.ltr 0x8 := by
    simp only [KernelStatics.loadSegments, hcs, hds, hes, hss, bind, Except.bind]
  rw [hrun, h₄.ltr hreadable hready.writable]
  have hrsp : (pushed.set .rsp p.rsp).regs .rsp = p.rsp := Cpu.set_self _ _ _
  refine ⟨_, rfl, rfl, hrsp, rfl, rfl, rfl, rfl, fun x hx hout => ?_⟩
  have hfits := k.gdt_fits
  refine Eq.trans ?_ (hsame x hx)
  exact WrappedMemory.flat_writeWord_outside (by omega) hx.lt hout

structure Operational (k : KernelStatics) (p : Processor) : Prop where
  loaded : Loaded k p
  tables : Tables k p.memory
  accessible : k.Accessible p

theorem storeStatic_outside {address x : Nat} {data : List UInt8}
    (hfits : address + data.length ≤ 2 ^ 64) (hx : x < 2 ^ 64)
    (h : ¬ (address ≤ x ∧ x < address + data.length)) :
    (storeStatic p address data).memory x = p.memory x :=
  WrappedMemory.flat_store_outside hfits hx h

theorem readWord_storeStatic_gdt {i : Nat} (hi : i < 8) :
    (storeStatic p k.gdt (GlobalDescriptorTable.mk k.gdtWords 5).toBytes).memory.readWord
      (k.gdt + i * 8) = k.gdtWords.get ⟨i, hi⟩ := by
  have hcontains : (storeStatic p k.gdt
      (GlobalDescriptorTable.mk k.gdtWords 5).toBytes).memory.Contains k.gdt
      (k.gdtWords.flatMap fun entry => toLittleEndian 8 entry.toNat) :=
    (ByteMemory.contains_append.mp (WrappedMemory.contains_flat_store k.gdt_fits)).1
  have hentry := hcontains.entry (fun _ => toLittleEndian_length 8 _)
    (show i < k.gdtWords.length from hi)
  rw [Nat.mul_comm i 8]
  exact hentry.readWord

theorem readWord_storeStatic_tss (k : KernelStatics) (p : Processor) (tss : TaskStateSegment) :
    (storeStatic p k.tss.toNat tss.toBytes).memory.readWord
      (k.tss.toNat + TaskStateSegment.interruptStackOffset) = tss.interruptStackTable[0] :=
  TaskStateSegment.readWord_of_contains
    (WrappedMemory.contains_flat_store (by rw [tss.toBytes_length]; exact k.tss_fits)) 0

/-- `init` returns to a stack as it was, with the tables in memory, the registers loaded and
interrupts enabled. -/
theorem init_ok (h : k.Ready p) : ∃ p', k.init p = .ok (.ok p') ∧ k.Operational p' ∧
    p'.interruptFlag = true ∧ p'.rsp = p.rsp := by
  obtain ⟨tss, htss, hstack⟩ := k.taskStateSegment_ok
  obtain ⟨idt, hidt, hgates⟩ := k.interruptDescriptorTable_ok
  let table : GlobalDescriptorTable := ⟨k.gdtWords, 5⟩
  let p₁ := storeStatic p k.tss.toNat tss.toBytes
  let p₂ := storeStatic p₁ k.gdt table.toBytes
  have hlength : table.toBytes.length = 72 := rfl
  have hgdtFits := k.gdt_fits
  have hidtFits := k.idt_fits
  have htssFits := k.tss_fits
  have hgdt : k.GdtLoaded { p₂ with gdtr := ⟨39, k.gdt⟩ } :=
    ⟨rfl, readWord_storeStatic_gdt (by decide), readWord_storeStatic_gdt (by decide),
      readWord_storeStatic_gdt (by decide), readWord_storeStatic_gdt (by decide)⟩
  have hready : k.Ready { p₂ with gdtr := ⟨39, k.gdt⟩ } :=
    ⟨⟨h.accessible.tables, h.accessible.stack⟩, h.writable, h.fits, h.apart⟩
  obtain ⟨p₃, hload, hcs, hrsp, hgdtr, hreadable, hwritable, htask, hsame⟩ :=
    hgdt.loadSegments hready
  have hapart₁ := k.gdt_apart_idt
  have hapart₂ := k.gdt_apart_tss
  have hapart₃ := k.idt_apart_tss
  -- behind the stores of the first two tables, only the busy bit and the gates are written
  have hrest : ∀ x, k.InTables x → ¬ (k.idt ≤ x ∧ x < k.idt + 4096) →
      ¬ (k.gdt + 1 * 8 ≤ x ∧ x < k.gdt + 1 * 8 + 8) →
      (storeStatic p₃ k.idt idt.toBytes).memory x = p₂.memory x := by
    intro x hx hidt hbusy
    refine Eq.trans ?_ (hsame x hx hbusy)
    exact storeStatic_outside (by rw [idt.toBytes_length]; exact hidtFits) hx.lt
      (by rw [idt.toBytes_length]; exact hidt)
  refine ⟨{ storeStatic p₃ k.idt idt.toBytes with
    idtr := InterruptDescriptorTable.descriptor k.idt
    rflags := p₃.rflags ||| 1#64 <<< 9 }, ?_, ⟨⟨hgdtr, rfl, htask⟩, ⟨?_, ?_, ?_⟩, ?_, ?_⟩, ?_, hrsp⟩
  · have hdescriptor : GlobalDescriptorTable.descriptor ⟨k.gdtWords, 5⟩ k.gdt =
        .ok ⟨39, k.gdt⟩ := rfl
    rw [init, htss, Checked.ok_bind, k.globalDescriptorTable_ok, Checked.ok_bind]
    simp only [p₂, p₁, table] at hload
    simp only [hdescriptor, Checked.ok_bind, hload, hcs, hidt, Checked.pure_eq_ok]
  · refine Eq.trans ?_ hgdt.code
    exact ByteMemory.readWord_congr fun x _ _ => hrest x (Or.inl (by omega)) (by omega) (by omega)
  · refine Eq.trans ?_ ((k.readWord_storeStatic_tss p tss).trans hstack)
    refine ByteMemory.readWord_congr fun x hle hlt => ?_
    simp only [TaskStateSegment.interruptStackOffset] at hle hlt
    simp only [taskStateSegmentSize] at hapart₂ hapart₃ htssFits
    refine (hrest x (Or.inr (Or.inr ?_)) (by omega) (by omega)).trans
      (storeStatic_outside hgdtFits (by omega) (by rw [hlength]; omega))
    simp only [taskStateSegmentSize]
    omega
  · intro vector hvector
    rw [← hgates vector]
    exact InterruptDescriptorTable.read_of_contains
      (WrappedMemory.contains_flat_store (by rw [idt.toBytes_length]; exact hidtFits)) hvector
  · exact fun x hx => (congrFun hreadable _).trans (h.accessible.tables x hx)
  · exact fun x hle hlt => (congrFun hwritable _).trans (h.accessible.stack x hle hlt)
  · simp only [Processor.interruptFlag, BitVec.getLsbD_or]
    simp

end KernelStatics

end MiniatureOs
