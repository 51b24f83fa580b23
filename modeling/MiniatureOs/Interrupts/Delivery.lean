import MiniatureOs.Interrupts.KernelTables

/-! # Delivery of interrupts

Behind `init` every exception and every interrupt finds a handler. Only the gate for double
faults has a stack of its own, so where the frame does not fit on the stack of the running
code, that is the handler which is entered.
-/

namespace MiniatureOs

open StackMachine

namespace KernelStatics

variable {k : KernelStatics} {p : Processor} {errorCode : Option (BitVec 64)}
  {codes : Nat → BitVec 64} {event : DeliveryEvent} {setting : GateSetting} {vector : Nat}

/-! ## What is delivered -/

def stackOf (k : KernelStatics) (p : Processor) (handler : Handler) : BitVec 64 :=
  if handler = .doubleFault then k.stackEnd else p.rsp

def enter (k : KernelStatics) (p : Processor) (handler : Handler)
    (errorCode : Option (BitVec 64)) : Processor :=
  p.enter (k.stackOf p handler) errorCode (k.handler handler) codeSelector false

/-- The handler of an event whose frame fits. A vector without a gate raises another
exception: a benign event ends in the handler for missing segments, and the others in that
for double faults. -/
def handlerOf (event : DeliveryEvent) : Handler :=
  match gateList.find? (·.vector = event.vector) with
  | some setting => setting.handler
  | none => if event.severity = .benign then .segmentNotPresent else .doubleFault

theorem Operational.loadSegment (h : k.Operational p) :
    p.loadSegment IsKernelCode .segmentNotPresent codeSelector = .ok () := by
  have hread := readEntry_ok h.loaded.gdtr h.accessible.tables
    (show codeSelector.index < 5 by decide)
  rw [show codeSelector.index = 3 by decide, h.tables.code] at hread
  exact loadSegment_ok (by decide) hread (by decide) (by decide)

theorem Operational.gateStack (h : k.Operational p) {gate : Gate} {handler : Handler}
    (hgate : gate.stack = if handler = .doubleFault then 1 else 0) :
    p.gateStack gate = .ok (k.stackOf p handler) := by
  rw [Processor.gateStack, stackOf]
  by_cases hdouble : handler = .doubleFault
  · have hlimit : TaskStateSegment.interruptStackOffset + 8 * ((1 : BitVec 3).toNat - 1) + 7 ≤
        (BitVec.ofNat 20 (taskStateSegmentSize - 1)).toNat := by decide
    have hread : p.Readable (k.tss.toNat + (TaskStateSegment.interruptStackOffset +
        8 * ((1 : BitVec 3).toNat - 1))) 8 := by
      intro i hi
      refine h.accessible.tables _ (Or.inr (Or.inr ?_))
      simp only [TaskStateSegment.interruptStackOffset, taskStateSegmentSize]
      change _ ≤ k.tss.toNat + (36 + 0) + i ∧ k.tss.toNat + (36 + 0) + i < _
      omega
    rw [if_pos hdouble] at hgate ⊢
    rw [hgate, if_neg (by decide), h.loaded.taskRegister]
    simp only [ensure_of hlimit, ensure_of hread]
    exact congrArg Except.ok h.tables.stack
  · rw [if_neg hdouble] at hgate ⊢
    rw [if_pos hgate]

theorem Operational.deliver (h : k.Operational p) (hvector : vector < 256) :
    p.deliver vector errorCode =
      match gateList.find? (·.vector = vector) with
      | none => .error .segmentNotPresent
      | some setting => do
          p.canPushWords (p.interrupt (k.stackOf p setting.handler) errorCode).top
            (5 + errorCode.toList.length)
          return k.enter p setting.handler errorCode := by
  have hlimit : vector * 16 + 15 ≤ p.idtr.limit := by
    rw [h.loaded.idtr]
    simp only
    omega
  have hread : p.Readable (p.idtr.base + 16 * vector) 16 := by
    intro i hi
    rw [h.loaded.idtr]
    exact h.accessible.tables _ (Or.inr (Or.inl ⟨by simp only; omega, by simp only; omega⟩))
  have hgate : Gate.read p.memory (p.idtr.base + 16 * vector) = k.expectedGate vector := by
    rw [h.loaded.idtr]
    exact h.tables.gates vector hvector
  rw [Processor.deliver, ensure_of hlimit, ensure_of hread, hgate, expectedGate]
  cases gateList.find? (·.vector = vector) with
  | none => rfl
  | some setting =>
      have hcanonical := k.handler_canonical setting.handler
      have hstack : p.gateStack ⟨(k.handler setting.handler).toNat, codeSelector,
          if setting.handler = .doubleFault then 1 else 0, 0xe, 0, true⟩ =
          .ok (k.stackOf p setting.handler) := h.gateStack rfl
      simp only [bind, Except.bind, ensure_of, h.loadSegment, hstack,
        ensure_of hcanonical, BitVec.ofNat_toNat, BitVec.setWidth_eq]
      rfl

theorem top_stackEnd (k : KernelStatics) (p : Processor) :
    (p.interrupt k.stackEnd none).top.toNat =
      k.stack + doubleFaultStackSize - (k.stack + doubleFaultStackSize) % 16 := by
  have hcanonical := k.stack_canonical
  have hend : k.stackEnd.toNat = k.stack + doubleFaultStackSize := by
    rw [stackEnd, BitVec.toNat_ofNat]
    omega
  rw [Interrupt.top_toNat, ← hend]
  rfl

theorem Operational.fits_stackEnd (h : k.Operational p) :
    p.Fits (p.interrupt k.stackEnd none).top 5 := by
  have hcanonical := k.stack_canonical
  have htop := k.top_stackEnd p
  simp only [doubleFaultStackSize] at hcanonical htop
  intro i hi
  have haddress : ((p.interrupt k.stackEnd none).top - BitVec.ofNat 64 (8 * (i + 1))).toNat =
      (p.interrupt k.stackEnd none).top.toNat - 8 * (i + 1) := by
    bv_omega
  refine ⟨?_, fun j hj => h.accessible.stack _ ?_ ?_⟩
  · unfold Processor.CanonicalWord Canonical
    omega
  · omega
  · simp only [doubleFaultStackSize]
    omega

theorem Operational.deliver_ok (h : k.Operational p) (hvector : vector < 256)
    (hfind : gateList.find? (·.vector = vector) = some setting)
    (hfits : setting.handler = .doubleFault ∨ p.FrameFits) :
    p.deliver vector errorCode = .ok (k.enter p setting.handler errorCode) := by
  have hroom : p.Fits (p.interrupt (k.stackOf p setting.handler) errorCode).top
      (5 + errorCode.toList.length) := by
    rw [Processor.fits_frame_iff]
    by_cases hdouble : setting.handler = .doubleFault
    · rw [stackOf, if_pos hdouble]
      exact h.fits_stackEnd
    · rw [stackOf, if_neg hdouble]
      exact hfits.resolve_left hdouble
  rw [h.deliver hvector, hfind]
  simp only [Processor.canPushWords_of_fits hroom]
  rfl

theorem Operational.deliver_error (h : k.Operational p) (hvector : vector < 256)
    (hfind : gateList.find? (·.vector = vector) = some setting)
    (hdouble : setting.handler ≠ .doubleFault) (hfits : ¬ p.FrameFits) :
    ∃ fault, p.deliver vector errorCode = .error fault ∧
      (fault = .stackSegment ∨ fault = .page) := by
  have hroom : ¬ p.Fits (p.interrupt (k.stackOf p setting.handler) errorCode).top
      (5 + errorCode.toList.length) := by
    rw [Processor.fits_frame_iff, stackOf, if_neg hdouble]
    exact hfits
  obtain ⟨fault, hrun, hkind⟩ := Processor.canPushWords_of_not_fits hroom
  refine ⟨fault, ?_, hkind⟩
  rw [h.deliver hvector, hfind]
  simp only [hrun]
  rfl

theorem Operational.raiseDoubleFault (h : k.Operational p) :
    p.raiseDoubleFault = .entered (k.enter p .doubleFault (some 0)) := by
  have hfind : gateList.find? (·.vector = 8) =
      some ⟨.doubleFault, 0, .doubleFault, [.setInterruptStackIndex doubleFaultIstIdx]⟩ := by
    decide
  rw [Processor.raiseDoubleFault, h.deliver_ok (by decide) hfind (Or.inl rfl)]

/-! Without room for a frame, a second exception ends as a double fault. -/

theorem Operational.raisePageFault (h : k.Operational p) (hfits : ¬ p.FrameFits) :
    p.raisePageFault codes = .entered (k.enter p .doubleFault (some 0)) := by
  have hfind : gateList.find? (·.vector = 14) = some ⟨.pageFault, 0, .pageFault, []⟩ := by decide
  obtain ⟨fault, hrun, -⟩ : ∃ fault, p.deliver 14 (some (codes 14)) = .error fault ∧ _ :=
    h.deliver_error (by decide) hfind (by decide) hfits
  rw [Processor.raisePageFault, hrun]
  exact h.raiseDoubleFault

theorem Operational.raiseContributory (h : k.Operational p) (hfits : ¬ p.FrameFits) {fault : Fault}
    (hfault : fault = .stackSegment ∨ fault = .segmentNotPresent) :
    p.raiseContributory codes fault = .entered (k.enter p .doubleFault (some 0)) := by
  have hfind : ∃ setting : GateSetting,
      gateList.find? (·.vector = fault.vector) = some setting ∧
        setting.handler ≠ .doubleFault := by
    rcases hfault with rfl | rfl
    · exact ⟨⟨.stackSegmentFault, 0, .stackSegmentFault, []⟩, by decide, by decide⟩
    · exact ⟨⟨.segmentNotPresent, 0, .segmentNotPresent, []⟩, by decide, by decide⟩
  obtain ⟨setting, hfind, hdouble⟩ := hfind
  have hvector : fault.vector < 256 := by cases fault <;> decide
  obtain ⟨second, hrun, hsecond⟩ :
      ∃ second, p.deliver fault.vector (some (codes fault.vector)) = .error second ∧
        (second = .stackSegment ∨ second = .page) :=
    h.deliver_error hvector hfind hdouble hfits
  rw [Processor.raiseContributory, hrun]
  rcases hsecond with rfl | rfl
  · exact h.raiseDoubleFault
  · exact h.raisePageFault hfits

def entersHandler (p : Processor) (event : DeliveryEvent) : Handler :=
  if p.FrameFits then handlerOf event else .doubleFault

/-- The gates of the exceptions that push an error code are those of the handlers that take
one. -/
theorem isSome_errorCode (hvalid : event.Valid)
    (hfind : gateList.find? (·.vector = event.vector) = some setting) :
    (event.errorCode codes).isSome = setting.handler.takesErrorCode := by
  have hmem := List.mem_of_find?_eq_some hfind
  have hvector : setting.vector = event.vector := by
    simpa using List.find?_some hfind
  have hcodes : ∀ setting ∈ gateList, setting.handler.takesErrorCode =
      decide (setting.vector ∈ DeliveryEvent.errorCodeVectors) := by decide
  rw [hcodes setting hmem, hvector]
  cases event with
  | exception vector =>
      simp only [DeliveryEvent.errorCode, DeliveryEvent.vector]
      split <;> simp_all
  | interrupt vector =>
      have hlarge : ∀ other ∈ DeliveryEvent.errorCodeVectors, other < 32 := by decide
      have hnot : vector ∉ DeliveryEvent.errorCodeVectors := fun hin =>
        absurd (hlarge vector hin) (Nat.not_lt.mpr hvalid.1)
      simp [DeliveryEvent.errorCode, DeliveryEvent.vector, hnot]

/-- Only the double fault has no second chance, and its gate was set. -/
theorem severity_ne_doubleFault
    (hgate : ∀ setting, gateList.find? (·.vector = event.vector) = some setting →
      setting.handler ≠ .doubleFault) : event.severity ≠ .doubleFault := by
  cases event with
  | interrupt vector => exact Severity.noConfusion
  | exception vector =>
      intro hsevere
      have height : vector = 8 := by
        rw [DeliveryEvent.severity] at hsevere
        split at hsevere
        · assumption
        · split at hsevere
          · cases hsevere
          · split at hsevere <;> cases hsevere
      rw [height] at hgate
      exact hgate ⟨.doubleFault, 0, .doubleFault, [.setInterruptStackIndex doubleFaultIstIdx]⟩
        (by decide) rfl

/-- An event whose frame cannot be pushed ends as a double fault. -/
theorem Operational.raise_of_not_fits (h : k.Operational p) (hvector : event.vector < 256)
    (hfind : gateList.find? (·.vector = event.vector) = some setting)
    (hdouble : setting.handler ≠ .doubleFault) (hfits : ¬ p.FrameFits) :
    p.raise codes event = .entered (k.enter p .doubleFault (some 0)) := by
  have hsevere : event.severity ≠ .doubleFault := by
    refine severity_ne_doubleFault fun other hother => ?_
    rwa [← Option.some.inj (hfind.symm.trans hother)]
  obtain ⟨fault, hrun, hfault⟩ :
      ∃ fault, p.deliver event.vector (event.errorCode codes) = .error fault ∧
        (fault = .stackSegment ∨ fault = .page) :=
    h.deliver_error hvector hfind hdouble hfits
  rw [Processor.raise, hrun]
  cases hseverity : event.severity with
  | doubleFault => exact absurd hseverity hsevere
  | pageFault => exact h.raiseDoubleFault
  | contributory =>
      rcases hfault with rfl | rfl
      · exact h.raiseDoubleFault
      · exact h.raisePageFault hfits
  | benign =>
      rcases hfault with rfl | rfl
      · exact h.raiseContributory hfits (Or.inl rfl)
      · exact h.raisePageFault hfits

theorem Operational.raise_of_no_gate (h : k.Operational p) (hvector : event.vector < 256)
    (hfind : gateList.find? (·.vector = event.vector) = none) : ∃ errorCode,
    p.raise codes event = .entered (k.enter p (entersHandler p event) (some errorCode)) := by
  have hrun : p.deliver event.vector (event.errorCode codes) = .error .segmentNotPresent := by
    rw [h.deliver hvector, hfind]
  have hsevere : event.severity ≠ .doubleFault := by
    refine severity_ne_doubleFault fun other hother => ?_
    rw [hfind] at hother
    cases hother
  have hgate : gateList.find? (·.vector = 11) =
      some ⟨.segmentNotPresent, 0, .segmentNotPresent, []⟩ := by decide
  rw [Processor.raise, hrun, entersHandler, handlerOf, hfind]
  cases hseverity : event.severity with
  | doubleFault => exact absurd hseverity hsevere
  | pageFault => exact ⟨0, by simp [h.raiseDoubleFault]⟩
  | contributory => exact ⟨0, by simp [h.raiseDoubleFault]⟩
  | benign =>
      by_cases hfits : p.FrameFits
      · have hsecond : p.raiseContributory codes .segmentNotPresent =
            .entered (k.enter p .segmentNotPresent (some (codes 11))) := by
          rw [Processor.raiseContributory, Fault.vector,
            h.deliver_ok (by decide) hgate (Or.inr hfits)]
        refine ⟨codes 11, ?_⟩
        rw [if_pos hfits]
        exact hsecond
      · refine ⟨0, ?_⟩
        rw [if_neg hfits]
        exact h.raiseContributory hfits (Or.inr rfl)

theorem Operational.raise (h : k.Operational p) (hvalid : event.Valid) : ∃ errorCode,
    p.raise codes event = .entered (k.enter p (entersHandler p event) errorCode) ∧
      errorCode.isSome = (entersHandler p event).takesErrorCode := by
  have hvector := hvalid.vector_lt
  cases hfind : gateList.find? (·.vector = event.vector) with
  | some setting =>
      have hhandler : handlerOf event = setting.handler := by rw [handlerOf, hfind]
      by_cases hdouble : setting.handler = .doubleFault ∨ p.FrameFits
      · have henters : entersHandler p event = setting.handler := by
          rw [entersHandler, hhandler]
          split
          · rfl
          · exact (hdouble.resolve_right ‹_›).symm
        refine ⟨event.errorCode codes, ?_, ?_⟩
        · rw [Processor.raise, h.deliver_ok hvector hfind hdouble, henters]
        · rw [henters]
          exact isSome_errorCode hvalid hfind
      · obtain ⟨hother, hfits⟩ := not_or.mp hdouble
        rw [entersHandler, if_neg hfits]
        exact ⟨some 0, h.raise_of_not_fits hvector hfind hother hfits, rfl⟩
  | none =>
      obtain ⟨errorCode, hraise⟩ : ∃ errorCode, p.raise codes event =
          .entered (k.enter p (entersHandler p event) (some errorCode)) :=
        h.raise_of_no_gate hvector hfind
      refine ⟨some errorCode, hraise, ?_⟩
      rw [entersHandler, handlerOf, hfind]
      simp only
      split
      · split <;> rfl
      · rfl

/-- A later state: the registers and the tables are as they were, and the pages can still be
used. -/
structure Later (k : KernelStatics) (p q : Processor) : Prop where
  gdtr : q.gdtr = p.gdtr
  idtr : q.idtr = p.idtr
  taskRegister : q.taskRegister = p.taskRegister
  tables : k.SameTables p.memory q.memory
  accessible : k.Accessible q

/-! The frame keeps the tables. -/

/-- The frame of an interrupt would not be pushed over the tables. -/
def FrameApart (k : KernelStatics) (p : Processor) : Prop :=
  k.StackApart (p.interrupt p.rsp none).top 6

theorem stackApart_stackEnd (k : KernelStatics) (p : Processor) :
    k.StackApart (p.interrupt k.stackEnd none).top 6 := by
  have hcanonical := k.stack_canonical
  have hgdt := k.stack_apart_gdt
  have hidt := k.stack_apart_idt
  have htss := k.stack_apart_tss
  have htop := k.top_stackEnd p
  intro x hx i hi heq
  have hlt := hx.lt
  have hnat := congrArg BitVec.toNat heq
  simp only [doubleFaultStackSize] at *
  unfold InTables at hx
  have haddress : ((p.interrupt k.stackEnd none).top - BitVec.ofNat 64 (8 * 6) +
      BitVec.ofNat 64 i).toNat = (p.interrupt k.stackEnd none).top.toNat - 48 + i := by
    bv_omega
  rw [haddress, BitVec.toNat_ofNat, Nat.mod_eq_of_lt hlt] at hnat
  omega

theorem FrameApart.stackOf (h : k.FrameApart p) (handler : Handler) :
    k.StackApart (p.interrupt (k.stackOf p handler) none).top 6 := by
  rw [KernelStatics.stackOf]
  split
  · exact k.stackApart_stackEnd p
  · exact h

theorem StackApart.frame {stack : BitVec 64} (h : k.StackApart (p.interrupt stack none).top 6)
    (errorCode : Option (BitVec 64)) :
    k.StackApart (p.interrupt stack errorCode).top (5 + errorCode.toList.length) := by
  cases errorCode with
  | some code => exact h
  | none =>
      intro x hx i hi heq
      rw [Option.toList_none, List.length_nil] at hi heq
      refine h x hx (i + 8) (by omega) (heq.trans ?_)
      change (p.interrupt stack none).top - BitVec.ofNat 64 40 + BitVec.ofNat 64 i =
        (p.interrupt stack none).top - BitVec.ofNat 64 48 + BitVec.ofNat 64 (i + 8)
      bv_omega

theorem FrameApart.sameTables_enter (h : k.FrameApart p) (handler : Handler) :
    k.SameTables p.memory (k.enter p handler errorCode).memory :=
  fun x hx => Interrupt.delivered_outside _ fun i hi =>
    (h.stackOf handler).frame errorCode x hx i hi

theorem Operational.later {q : Processor} (h : k.Operational p) (hlater : k.Later p q) :
    k.Operational q where
  loaded := ⟨hlater.gdtr.trans h.loaded.gdtr, hlater.idtr.trans h.loaded.idtr,
    hlater.taskRegister.trans h.loaded.taskRegister⟩
  tables := h.tables.congr hlater.tables
  accessible := hlater.accessible

/-- Once `init` has returned, every exception and every interrupt enters the wrapper that
expects its frame. That of the event's handler is entered when the frame fits on the stack,
and otherwise that for double faults, on the stack of its own. Nothing shuts the processor
down. -/
theorem init_delivers (k : KernelStatics) (p : Processor) (h : k.Ready p) :
    ∃ p', k.init p = .ok (.ok p') ∧ p'.interruptFlag = true ∧ p'.rsp = p.rsp ∧
      ∀ q, k.Later p' q → ∀ (codes : Nat → BitVec 64) (event : DeliveryEvent), event.Valid →
        ∃ errorCode,
          q.raise codes event = .entered (k.enter q (entersHandler q event) errorCode) ∧
          (q.interrupt (k.stackOf q (entersHandler q event)) errorCode).code =
            (entersHandler q event).wrapper := by
  obtain ⟨p', hinit, hoperational, hflag, hrsp⟩ := init_ok h
  refine ⟨p', hinit, hflag, hrsp, fun q hlater codes event hvalid => ?_⟩
  obtain ⟨errorCode, hraise, hcode⟩ := (hoperational.later hlater).raise hvalid
  refine ⟨errorCode, hraise, ?_⟩
  rw [Handler.wrapper, ← hcode]
  cases errorCode <;> rfl

def pagedStatics : KernelStatics where
  gdt := 0x1000
  idt := 0x2000
  tss := 0x4000
  stack := 0x5000
  handler := fun handler => BitVec.ofNat 64 (0x10000 + 0x100 * handler.ctorIdx)
  label := 0x11000
  handler_injective := by
    intro handler handler' heq
    cases handler <;> cases handler' <;> first | rfl | (revert heq; decide)
  handler_canonical := by
    intro handler
    cases handler <;> decide
  gdt_fits := by decide
  idt_fits := by decide
  tss_fits := by decide
  stack_canonical := Or.inl (by decide)
  gdt_apart_idt := Or.inl (by decide)
  gdt_apart_tss := Or.inl (by decide)
  idt_apart_tss := Or.inl (by decide)
  stack_apart_gdt := Or.inr (by decide)
  stack_apart_idt := Or.inr (by decide)
  stack_apart_tss := Or.inr (by decide)

/-- A guard page below the stack of the kernel, which starts at `0x25000`. -/
def guardedPages (page : Nat) : Bool := page != 0x20

def guardedProcessor : Processor where
  cpu := ⟨fun register => if register = .rsp then 0x25000 else 0, fun _ => 0⟩
  rip := 0x10f00
  rflags := 0x2
  cs := 0
  ds := 0
  es := 0
  ss := 0
  gdtr := ⟨0, 0⟩
  idtr := ⟨0, 0⟩
  taskRegister := none
  readable := guardedPages
  writable := guardedPages

theorem pagedStatics_lt {x : Nat} (h : pagedStatics.InTables x) : x < 0x5000 := by
  change (0x1000 ≤ x ∧ x < 0x1000 + 72) ∨ (0x2000 ≤ x ∧ x < 0x2000 + 4096) ∨
    (0x4000 ≤ x ∧ x < 0x4000 + 104) at h
  omega

theorem guardedPages_of_lt {x : Nat} (h : x < 0x20000) : guardedPages (x / 4096) = true := by
  have hne : x / 4096 ≠ 0x20 := by omega
  simpa [guardedPages] using hne

theorem accessible_guarded {p : Processor} (hreadable : p.readable = guardedPages)
    (hwritable : p.writable = guardedPages) : pagedStatics.Accessible p where
  tables := by
    intro x hx
    have hlt := pagedStatics_lt hx
    rw [hreadable]
    exact guardedPages_of_lt (by omega)
  stack := by
    intro x hle hlt
    rw [hwritable]
    change x < 0x5000 + 0x5000 at hlt
    exact guardedPages_of_lt (by omega)

theorem stackApart_paged {rsp : BitVec 64} {count : Nat} (h : 0x5000 + 8 * count ≤ rsp.toNat) :
    pagedStatics.StackApart rsp count := by
  intro x hx i hi
  have hlt := pagedStatics_lt hx
  have hrsp := rsp.isLt
  bv_omega

theorem ready_guarded : pagedStatics.Ready guardedProcessor where
  accessible := accessible_guarded rfl rfl
  writable := by
    intro x hx
    have hlt := pagedStatics_lt hx
    exact guardedPages_of_lt (by omega)
  fits := by decide
  apart := stackApart_paged (by decide)

/-- The stack has grown down to the guard page: a page fault ends as a double fault. -/
theorem init_delivers_overflow : ∃ (p' q : Processor) (errorCode : Option (BitVec 64)),
    pagedStatics.init guardedProcessor = .ok (.ok p') ∧ q.rsp = 0x21008 ∧
      handlerOf (.exception 14) = .pageFault ∧
      q.raise (fun _ => 2) (.exception 14) =
        .entered (pagedStatics.enter q .doubleFault errorCode) := by
  obtain ⟨p', hinit, -, -, hdelivers⟩ := init_delivers pagedStatics guardedProcessor ready_guarded
  let q : Processor := { p' with
    cpu := p'.cpu.set .rsp 0x21008
    readable := guardedPages
    writable := guardedPages }
  have hrsp : q.rsp = 0x21008 := Cpu.set_self _ _ _
  have hlater : pagedStatics.Later p' q :=
    ⟨rfl, rfl, rfl, fun _ _ => rfl, accessible_guarded rfl rfl⟩
  have hfull : ¬ q.FrameFits := by
    intro hfits
    rw [Processor.FrameFits, hrsp] at hfits
    have htop : (q.interrupt 0x21008 none).top = 0x21000 := by
      change (0x21008 : BitVec 64) &&& 0xFFFFFFFFFFFFFFF0 = 0x21000
      decide
    have hguard := (hfits 0 (by decide)).2 0 (by decide)
    rw [htop, show q.writable = guardedPages from rfl] at hguard
    exact absurd hguard (by decide)
  obtain ⟨errorCode, hraise, -⟩ := hdelivers q hlater (fun _ => 2) (.exception 14)
    (by decide : 14 < 32)
  rw [entersHandler, if_neg hfull] at hraise
  exact ⟨p', q, errorCode, hinit, hrsp, by decide, hraise⟩

/-- A general protection fault, which has no gate, ends as a double fault, and an interrupt
of a line that has none as a missing segment. -/
example : handlerOf (.exception 13) = .doubleFault ∧
    handlerOf (.interrupt 0x27) = .segmentNotPresent ∧
    handlerOf (.interrupt 0x21) = .keyboardInterrupt := by
  decide

end KernelStatics

end MiniatureOs
