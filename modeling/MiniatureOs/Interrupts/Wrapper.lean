import MiniatureOs.Lib.StackMachine

/-! # The code around interrupt handlers

`handler_with_error_code!` and `handler_without_error_code!` of `x86_64/src/interrupts.rs`.
Both save the scratch registers, pass the address of the frame that the processor pushed
to the handler and restore the registers before `iretq`. The registers are popped in the
order in which they were pushed, so they come back in reverse.
-/

namespace MiniatureOs

open StackMachine

def pushScratchRegisters : List Instruction :=
  [.push .rax, .push .rcx, .push .rdx, .push .rsi, .push .rdi, .push .r8, .push .r9, .push .r10,
    .push .r11]

def popScratchRegisters : List Instruction :=
  [.pop .rax, .pop .rcx, .pop .rdx, .pop .rsi, .pop .rdi, .pop .r8, .pop .r9, .pop .r10,
    .pop .r11]

def handlerWithErrorCode : List Instruction :=
  pushScratchRegisters ++
    [.load .rsi .rsp (9 * 8), .mov .rdi .rsp, .add .rdi (10 * 8), .sub .rsp 8, .call,
      .add .rsp 8] ++
    popScratchRegisters ++ [.add .rsp 8, .iretq]

def handlerWithoutErrorCode : List Instruction :=
  pushScratchRegisters ++ [.mov .rdi .rsp, .add .rdi (9 * 8), .call] ++
    popScratchRegisters ++ [.iretq]

/-- An interrupt: the state that it meets, the stack that the processor delivers it on (that
of the interrupted code or one of the interrupt stack table), the words of the frame
that are no general registers, and the error code of an exception that has one. -/
structure Interrupt where
  cpu : Cpu
  stack : BitVec 64
  instructionPointer : BitVec 64
  codeSegment : BitVec 64
  cpuFlags : BitVec 64
  stackSegment : BitVec 64
  errorCode : Option (BitVec 64)

namespace Interrupt

/-- The processor aligns the stack before it pushes. -/
def top (interrupt : Interrupt) : BitVec 64 :=
  interrupt.stack &&& 0xFFFFFFFFFFFFFFF0

/-- `ExceptionStackFrame`, the lowest address first. -/
def frame (interrupt : Interrupt) : List (BitVec 64) :=
  [interrupt.instructionPointer, interrupt.codeSegment, interrupt.cpuFlags,
    interrupt.cpu.regs .rsp, interrupt.stackSegment]

def frameAddress (interrupt : Interrupt) : BitVec 64 :=
  interrupt.top - 40

def pushFrame (interrupt : Interrupt) : Cpu :=
  (interrupt.cpu.set .rsp interrupt.top).pushAll interrupt.frame.reverse

def delivered (interrupt : Interrupt) : Cpu :=
  match interrupt.errorCode with
  | some errorCode => interrupt.pushFrame.push errorCode
  | none => interrupt.pushFrame

def code (interrupt : Interrupt) : List Instruction :=
  match interrupt.errorCode with
  | some _ => handlerWithErrorCode
  | none => handlerWithoutErrorCode

end Interrupt

def scratchRegisters : List Register :=
  [.rax, .rcx, .rdx, .rsi, .rdi, .r8, .r9, .r10, .r11]

/-- The handler gets the frame and the error code on an aligned stack, and the code gets
to `iretq` with the frame on the stack and the scratch registers as they were. -/
structure Transparent (interrupt : Interrupt) (handler : Cpu → Cpu) (returnAddress : BitVec 64) :
    Prop where
  call : ∃ cpu,
    stateAt handler returnAddress .call interrupt.delivered interrupt.code = some cpu ∧
      cpu.regs .rdi = interrupt.frameAddress ∧
      (∀ errorCode, interrupt.errorCode = some errorCode → cpu.regs .rsi = errorCode) ∧
      (cpu.regs .rsp).toNat % 16 = 0
  iretq : ∃ cpu,
    stateAt handler returnAddress .iretq interrupt.delivered interrupt.code = some cpu ∧
      (∀ register ∈ scratchRegisters, cpu.regs register = interrupt.cpu.regs register) ∧
      cpu.regs .rsp = interrupt.frameAddress ∧ HasStack cpu interrupt.frame

/-- The handler keeps to the calling convention in the state that the code calls it in. -/
def HandlerObeysAbi (interrupt : Interrupt) (handler : Cpu → Cpu) (returnAddress : BitVec 64) :
    Prop :=
  ∀ cpu, stateAt handler returnAddress .call interrupt.delivered interrupt.code = some cpu →
    ObeysAbi interrupt.top (cpu.push returnAddress) (handler (cpu.push returnAddress))

/-! ## The state at the first instruction -/

variable {interrupt : Interrupt} {handler : Cpu → Cpu} {returnAddress : BitVec 64}

theorem Interrupt.top_toNat (interrupt : Interrupt) :
    interrupt.top.toNat = interrupt.stack.toNat - interrupt.stack.toNat % 16 := by
  have hshift : interrupt.top = (interrupt.stack >>> 4) <<< 4 := by
    have hmask : ∀ i < 64, (0xFFFFFFFFFFFFFFF0 : BitVec 64).getLsbD i = decide (4 ≤ i) := by decide
    apply BitVec.eq_of_getLsbD_eq
    intro i hi
    rw [Interrupt.top, BitVec.getLsbD_and, hmask i hi, BitVec.getLsbD_shiftLeft,
      BitVec.getLsbD_ushiftRight]
    by_cases hlow : i < 4
    · simp [hlow]
    · have hle : 4 ≤ i := by omega
      rw [Nat.add_sub_cancel' hle]
      simp [hi, hlow, hle]
  have hlt := interrupt.stack.isLt
  rw [hshift, BitVec.toNat_shiftLeft, BitVec.toNat_ushiftRight, Nat.shiftRight_eq_div_pow,
    Nat.shiftLeft_eq]
  omega

theorem Interrupt.top_aligned (interrupt : Interrupt) : interrupt.top.toNat % 16 = 0 := by
  rw [interrupt.top_toNat]
  omega

theorem Interrupt.pushFrame_stack (interrupt : Interrupt) :
    HasStack interrupt.pushFrame interrupt.frame := by
  have hempty : HasStack (interrupt.cpu.set .rsp interrupt.top) [] := trivial
  have hfit : 8 * (interrupt.frame.reverse.length + 0) ≤ 2 ^ 64 := by simp [Interrupt.frame]
  have hpushed := hempty.pushAll hfit
  rw [List.reverse_reverse, List.append_nil] at hpushed
  exact hpushed

theorem Interrupt.pushFrame_rsp (interrupt : Interrupt) :
    interrupt.pushFrame.regs .rsp = interrupt.frameAddress := by
  rw [Interrupt.pushFrame, Cpu.pushAll_rsp, Cpu.set_self]
  rfl

theorem Interrupt.pushFrame_of_ne (interrupt : Interrupt) {register : Register}
    (h : register ≠ .rsp) : interrupt.pushFrame.regs register = interrupt.cpu.regs register := by
  rw [Interrupt.pushFrame, Cpu.pushAll_of_ne _ _ h, Cpu.set_of_ne _ _ h]

/-! ## The run of the code -/

namespace Interrupt

theorem delivered_stack (interrupt : Interrupt) :
    HasStack interrupt.delivered (interrupt.errorCode.toList ++ interrupt.frame) := by
  unfold delivered
  cases interrupt.errorCode with
  | none => exact interrupt.pushFrame_stack
  | some errorCode => exact interrupt.pushFrame_stack.push (by simp [frame])

theorem delivered_rsp (interrupt : Interrupt) :
    interrupt.delivered.regs .rsp =
      interrupt.frameAddress - BitVec.ofNat 64 (8 * interrupt.errorCode.toList.length) := by
  unfold delivered
  cases interrupt.errorCode with
  | none => simp [pushFrame_rsp]
  | some errorCode => simp [pushFrame_rsp]

theorem delivered_outside (interrupt : Interrupt) {x : BitVec 64}
    (h : ∀ i < 8 * (5 + interrupt.errorCode.toList.length), x ≠ interrupt.top -
      BitVec.ofNat 64 (8 * (5 + interrupt.errorCode.toList.length)) + BitVec.ofNat 64 i) :
    interrupt.delivered.memory x = interrupt.cpu.memory x := by
  have hpushes : interrupt.delivered = (interrupt.cpu.set .rsp interrupt.top).pushAll
      (interrupt.frame.reverse ++ interrupt.errorCode.toList) := by
    unfold delivered
    cases interrupt.errorCode with
    | none => rw [Option.toList_none, List.append_nil, pushFrame]
    | some errorCode =>
        rw [Cpu.pushAll, List.foldl_append, pushFrame]
        rfl
  have hlength : (interrupt.frame.reverse ++ interrupt.errorCode.toList).length =
      5 + interrupt.errorCode.toList.length := by
    rw [List.length_append, List.length_reverse]
    rfl
  rw [hpushes]
  refine Cpu.pushAll_outside _ ?_
  rw [Cpu.set_self, hlength]
  exact h

theorem delivered_of_ne (interrupt : Interrupt) {register : Register} (h : register ≠ .rsp) :
    interrupt.delivered.regs register = interrupt.cpu.regs register := by
  unfold delivered
  cases interrupt.errorCode with
  | none => exact interrupt.pushFrame_of_ne h
  | some errorCode => exact (Cpu.push_of_ne _ _ h).trans (interrupt.pushFrame_of_ne h)

def saved (interrupt : Interrupt) : List (BitVec 64) :=
  scratchRegisters.map interrupt.cpu.regs

def entered (interrupt : Interrupt) : Cpu :=
  interrupt.delivered.pushAll interrupt.saved

theorem run_pushScratchRegisters (interrupt : Interrupt) :
    run handler returnAddress interrupt.delivered pushScratchRegisters =
      some interrupt.entered := by
  have hsaved : scratchRegisters.map interrupt.delivered.regs = interrupt.saved := by
    refine List.map_congr_left fun register hregister => interrupt.delivered_of_ne ?_
    intro heq
    rw [heq] at hregister
    exact absurd hregister (by decide)
  have hrsp : .rsp ∉ scratchRegisters := by decide
  have hrun : run handler returnAddress interrupt.delivered (scratchRegisters.map .push) = _ :=
    run_push hrsp
  rw [hsaved] at hrun
  exact hrun

theorem entered_stack (interrupt : Interrupt) :
    HasStack interrupt.entered
      (interrupt.saved.reverse ++ (interrupt.errorCode.toList ++ interrupt.frame)) := by
  apply interrupt.delivered_stack.pushAll
  unfold saved
  cases interrupt.errorCode with
  | none => simp [scratchRegisters, frame]
  | some errorCode => simp [scratchRegisters, frame]

theorem entered_rsp (interrupt : Interrupt) :
    interrupt.entered.regs .rsp = interrupt.frameAddress -
      BitVec.ofNat 64 (8 * interrupt.errorCode.toList.length) - 72 := by
  rw [entered, Cpu.pushAll_rsp, delivered_rsp]
  rfl

theorem run_popScratchRegisters (interrupt : Interrupt) {cpu : Cpu} {rest : List (BitVec 64)}
    (h : HasStack cpu (interrupt.saved.reverse ++ rest)) :
    ∃ cpu', run handler returnAddress cpu popScratchRegisters = some cpu' ∧
      HasStack cpu' rest ∧ cpu'.regs .rsp = cpu.regs .rsp + 72 ∧
      scratchRegisters.map cpu'.regs = interrupt.saved.reverse := by
  have hrsp : .rsp ∉ scratchRegisters := by decide
  have hnodup : scratchRegisters.Nodup := by decide
  have hlength : interrupt.saved.reverse.length = scratchRegisters.length := by
    rw [List.length_reverse, saved, List.length_map]
  obtain ⟨cpu', hrun, hstack, hpointer, hwords, _⟩ := run_pop hrsp hnodup hlength h
  exact ⟨cpu', hrun, hstack, hpointer, hwords⟩

end Interrupt

structure AtCall (interrupt : Interrupt) (padding : List (BitVec 64)) (cpu : Cpu) : Prop where
  rdi : cpu.regs .rdi = interrupt.frameAddress
  rsi : ∀ errorCode, interrupt.errorCode = some errorCode → cpu.regs .rsi = errorCode
  rsp : cpu.regs .rsp = interrupt.frameAddress -
    BitVec.ofNat 64 (8 * (padding.length + (9 + interrupt.errorCode.toList.length)))
  stack : HasStack cpu (padding ++
    (interrupt.saved.reverse ++ (interrupt.errorCode.toList ++ interrupt.frame)))

theorem run_frame_argument (cpu : Cpu) (amount : Nat) :
    run handler returnAddress cpu [.mov .rdi .rsp, .add .rdi amount] =
      some (cpu.set .rdi (cpu.regs .rsp + BitVec.ofNat 64 amount)) := by
  change some ((cpu.set .rdi (cpu.regs .rsp)).set .rdi _) = _
  rw [Cpu.set_set, Cpu.set_self]

theorem exists_atCall_without_error_code (herror : interrupt.errorCode = none) :
    ∃ cpu, run handler returnAddress interrupt.delivered
        (pushScratchRegisters ++ [.mov .rdi .rsp, .add .rdi (9 * 8)]) = some cpu ∧
      AtCall interrupt [] cpu := by
  have hrsp := interrupt.entered_rsp
  have hstack := interrupt.entered_stack
  rw [herror, Option.toList_none, List.length_nil] at hrsp
  refine ⟨_, (run_append interrupt.run_pushScratchRegisters).trans (run_frame_argument _ _), ?_⟩
  generalize interrupt.entered = entered at hstack hrsp
  refine ⟨?_, by simp [herror], ?_, hstack.set (by decide)⟩
  · rw [Cpu.set_self, hrsp]
    bv_omega
  · rw [Cpu.set_of_ne _ _ (by decide), hrsp, herror, Option.toList_none]
    simp only [List.length_nil]
    bv_omega

theorem run_error_arguments (cpu : Cpu) {errorCode : BitVec 64}
    (hword : cpu.memory.readWord (cpu.regs .rsp + BitVec.ofNat 64 (9 * 8)) = errorCode) :
    ∃ cpu', run handler returnAddress cpu
        [.load .rsi .rsp (9 * 8), .mov .rdi .rsp, .add .rdi (10 * 8), .sub .rsp 8] =
          some (cpu'.set .rsp (cpu'.regs .rsp - 8)) ∧
      cpu'.regs .rsi = errorCode ∧ cpu'.regs .rdi = cpu.regs .rsp + 80 ∧
      cpu'.regs .rsp = cpu.regs .rsp ∧ ∀ words, HasStack cpu words → HasStack cpu' words := by
  have hload : step handler returnAddress cpu (.load .rsi .rsp (9 * 8)) =
      some (cpu.set .rsi errorCode) := by
    rw [← hword]
    rfl
  have hargument : run handler returnAddress (cpu.set .rsi errorCode)
      [.mov .rdi .rsp, .add .rdi (10 * 8)] = _ := run_frame_argument _ _
  refine ⟨_, (run_cons hload).trans (run_append hargument), ?_, ?_, ?_, ?_⟩
  · rw [Cpu.set_of_ne _ _ (by decide), Cpu.set_self]
  · rw [Cpu.set_self, Cpu.set_of_ne _ _ (by decide)]
    rfl
  · rw [Cpu.set_of_ne _ _ (by decide), Cpu.set_of_ne _ _ (by decide)]
  · intro words hstack
    exact (hstack.set (by decide)).set (by decide)

theorem exists_atCall_with_error_code {errorCode : BitVec 64}
    (herror : interrupt.errorCode = some errorCode) :
    ∃ cpu word, run handler returnAddress interrupt.delivered
        (pushScratchRegisters ++
          [.load .rsi .rsp (9 * 8), .mov .rdi .rsp, .add .rdi (10 * 8), .sub .rsp 8]) =
          some cpu ∧
      AtCall interrupt [word] cpu := by
  have hrsp := interrupt.entered_rsp
  have hstack := interrupt.entered_stack
  have hpush : run handler returnAddress interrupt.delivered pushScratchRegisters = _ :=
    interrupt.run_pushScratchRegisters
  rw [run_append hpush]
  generalize interrupt.entered = entered at hstack hrsp
  -- the error code lies behind the nine saved words
  have hword : entered.memory.readWord (entered.regs .rsp + BitVec.ofNat 64 (9 * 8)) =
      errorCode := by
    rw [herror] at hstack
    exact hstack.readWord_behind
  obtain ⟨argued, hrun, hrsi, hrdi, hrsp', hkept⟩ := run_error_arguments entered hword
  rw [hrsp, herror, Option.toList_some, List.length_singleton] at hrdi hrsp'
  refine ⟨_, _, hrun, ?_, ?_, ?_, (hkept _ hstack).reserve⟩
  · rw [Cpu.set_of_ne _ _ (by decide), hrdi]
    bv_omega
  · intro other hother
    rw [Cpu.set_of_ne _ _ (by decide), hrsi]
    exact Option.some.inj (herror.symm.trans hother)
  · rw [Cpu.set_self, hrsp', herror, Option.toList_some, List.length_singleton,
      List.length_singleton]
    bv_omega

theorem exists_stateAt_call (interrupt : Interrupt) (handler : Cpu → Cpu)
    (returnAddress : BitVec 64) :
    ∃ cpu padding,
      stateAt handler returnAddress .call interrupt.delivered interrupt.code = some cpu ∧
        padding.length = interrupt.errorCode.toList.length ∧ AtCall interrupt padding cpu := by
  unfold Interrupt.code
  cases herror : interrupt.errorCode with
  | none =>
      obtain ⟨cpu, hrun, hatCall⟩ := exists_atCall_without_error_code herror
      exact ⟨cpu, [], stateAt_of_run (by decide) hrun, rfl, hatCall⟩
  | some errorCode =>
      obtain ⟨cpu, word, hrun, hatCall⟩ := exists_atCall_with_error_code herror
      exact ⟨cpu, [word], stateAt_of_run (by decide) hrun, rfl, hatCall⟩

theorem AtCall.aligned {cpu : Cpu} {padding : List (BitVec 64)}
    (h : AtCall interrupt padding cpu)
    (hpadding : padding.length = interrupt.errorCode.toList.length) :
    (cpu.regs .rsp).toNat % 16 = 0 := by
  have htop := interrupt.top_aligned
  rw [h.rsp, hpadding, Interrupt.frameAddress]
  cases interrupt.errorCode with
  | none =>
      rw [Option.toList_none, List.length_nil]
      bv_omega
  | some errorCode =>
      rw [Option.toList_some, List.length_singleton]
      bv_omega

theorem AtCall.returns {cpu : Cpu} {padding : List (BitVec 64)}
    (h : AtCall interrupt padding cpu) (hpadding : padding.length ≤ 1)
    (hhandler : ObeysAbi interrupt.top (cpu.push returnAddress)
      (handler (cpu.push returnAddress))) :
    ∃ cpu', step handler returnAddress cpu .call = some cpu' ∧
      HasStack cpu' (padding ++
        (interrupt.saved.reverse ++ (interrupt.errorCode.toList ++ interrupt.frame))) ∧
      cpu'.regs .rsp = cpu.regs .rsp := by
  have hlength : (padding ++ (interrupt.saved.reverse ++
      (interrupt.errorCode.toList ++ interrupt.frame))).length =
      padding.length + (9 + interrupt.errorCode.toList.length) + 5 := by
    simp only [List.length_append, List.length_reverse, Interrupt.saved, List.length_map,
      Interrupt.frame, scratchRegisters, List.length_cons, List.length_nil]
    omega
  have hcode : interrupt.errorCode.toList.length ≤ 1 := by
    cases interrupt.errorCode <;> simp
  apply step_call h.stack hhandler
  · rw [hlength]
    omega
  · rw [hlength, h.rsp, Interrupt.frameAddress]
    bv_omega

structure Ran (interrupt : Interrupt) (handler : Cpu → Cpu) (returnAddress : BitVec 64)
    (atCall atIretq : Cpu) : Prop where
  call : stateAt handler returnAddress .call interrupt.delivered interrupt.code = some atCall
  rdi : atCall.regs .rdi = interrupt.frameAddress
  rsi : ∀ errorCode, interrupt.errorCode = some errorCode → atCall.regs .rsi = errorCode
  aligned : (atCall.regs .rsp).toNat % 16 = 0
  iretq : stateAt handler returnAddress .iretq interrupt.delivered interrupt.code = some atIretq
  scratch : scratchRegisters.map atIretq.regs = interrupt.saved.reverse
  rsp : atIretq.regs .rsp = interrupt.frameAddress
  stack : HasStack atIretq interrupt.frame

theorem exists_ran_without_error_code (herror : interrupt.errorCode = none)
    (hhandler : HandlerObeysAbi interrupt handler returnAddress) :
    ∃ atCall atIretq, Ran interrupt handler returnAddress atCall atIretq := by
  obtain ⟨atCall, hbefore, hatCall⟩ := exists_atCall_without_error_code herror
  have hcode : interrupt.code = handlerWithoutErrorCode := by
    rw [Interrupt.code, herror]
  have hstate : stateAt handler returnAddress .call interrupt.delivered interrupt.code =
      some atCall := by
    rw [hcode]
    exact stateAt_of_run (by decide) hbefore
  obtain ⟨returned, hcall, hreturned, hrsp⟩ := hatCall.returns (by decide) (hhandler _ hstate)
  obtain ⟨restored, hpops, hstack, hrsp', hwords⟩ := interrupt.run_popScratchRegisters hreturned
  have hrun : run handler returnAddress interrupt.delivered
      (pushScratchRegisters ++ [.mov .rdi .rsp, .add .rdi (9 * 8)] ++
        .call :: popScratchRegisters) = some restored := by
    rw [run_append hbefore, run_cons hcall, hpops]
  rw [herror] at hstack
  refine ⟨atCall, restored, hstate, hatCall.rdi, hatCall.rsi, hatCall.aligned ?_, ?_, hwords, ?_,
    hstack⟩
  · rw [herror]
    rfl
  · rw [hcode]
    exact stateAt_of_run (by decide) hrun
  · rw [hrsp', hrsp, hatCall.rsp, herror, Option.toList_none]
    simp only [List.length_nil]
    bv_omega

theorem exists_ran_with_error_code {errorCode : BitVec 64}
    (herror : interrupt.errorCode = some errorCode)
    (hhandler : HandlerObeysAbi interrupt handler returnAddress) :
    ∃ atCall atIretq, Ran interrupt handler returnAddress atCall atIretq := by
  obtain ⟨atCall, word, hbefore, hatCall⟩ := exists_atCall_with_error_code herror
  have hcode : interrupt.code = handlerWithErrorCode := by
    rw [Interrupt.code, herror]
  have hstate : stateAt handler returnAddress .call interrupt.delivered interrupt.code =
      some atCall := by
    have hsplit : handlerWithErrorCode = pushScratchRegisters ++
        [.load .rsi .rsp (9 * 8), .mov .rdi .rsp, .add .rdi (10 * 8), .sub .rsp 8] ++
        .call :: .add .rsp 8 :: (popScratchRegisters ++ [.add .rsp 8, .iretq]) := rfl
    rw [hcode, hsplit]
    exact stateAt_of_run (by decide) hbefore
  obtain ⟨returned, hcall, hreturned, hrsp⟩ := hatCall.returns (by simp) (hhandler _ hstate)
  have hskip : step handler returnAddress returned (.add .rsp 8) =
      some (returned.set .rsp (returned.regs .rsp + 8)) := rfl
  obtain ⟨restored, hpops, hstack, hrsp', hwords⟩ :=
    interrupt.run_popScratchRegisters hreturned.drop
  rw [Cpu.set_self] at hrsp'
  have hrun : run handler returnAddress interrupt.delivered
      (pushScratchRegisters ++
        [.load .rsi .rsp (9 * 8), .mov .rdi .rsp, .add .rdi (10 * 8), .sub .rsp 8] ++
        (.call :: .add .rsp 8 :: (popScratchRegisters ++ [.add .rsp 8]))) =
      some (restored.set .rsp (restored.regs .rsp + 8)) := by
    rw [run_append hbefore, run_cons hcall, run_cons hskip, run_append hpops]
    rfl
  rw [herror] at hstack
  refine ⟨atCall, _, hstate, hatCall.rdi, hatCall.rsi, hatCall.aligned ?_, ?_, ?_, ?_,
    hstack.drop⟩
  · rw [herror]
    rfl
  · have hsplit : handlerWithErrorCode = pushScratchRegisters ++
        [.load .rsi .rsp (9 * 8), .mov .rdi .rsp, .add .rdi (10 * 8), .sub .rsp 8] ++
        (.call :: .add .rsp 8 :: (popScratchRegisters ++ [.add .rsp 8])) ++ [.iretq] := rfl
    rw [hcode, hsplit]
    exact stateAt_of_run (by decide) hrun
  · rw [← hwords]
    refine List.map_congr_left fun register hregister => Cpu.set_of_ne _ _ ?_
    intro heq
    rw [heq] at hregister
    exact absurd hregister (by decide)
  · rw [Cpu.set_self, hrsp', hrsp, hatCall.rsp, herror, Option.toList_some,
      List.length_singleton, List.length_singleton]
    bv_omega

/-- The registers that are exchanged hold the same words. -/
def ExchangeFixes (cpu : Cpu) : Prop :=
  cpu.regs .rax = cpu.regs .r11 ∧ cpu.regs .rcx = cpu.regs .r10 ∧
    cpu.regs .rdx = cpu.regs .r9 ∧ cpu.regs .rsi = cpu.regs .r8

theorem Interrupt.saved_reverse_iff (interrupt : Interrupt) :
    interrupt.saved.reverse = interrupt.saved ↔ ExchangeFixes interrupt.cpu := by
  simp only [Interrupt.saved, scratchRegisters, ExchangeFixes, List.map_cons, List.map_nil,
    List.reverse_cons, List.reverse_nil, List.nil_append, List.cons_append, List.cons.injEq,
    and_true, true_and]
  constructor
  · intro h
    exact ⟨h.1.symm, h.2.1.symm, h.2.2.1.symm, h.2.2.2.1.symm⟩
  · intro h
    exact ⟨h.1.symm, h.2.1.symm, h.2.2.1.symm, h.2.2.2.symm, h.2.2.2, h.2.2.1, h.2.1, h.1⟩

theorem Ran.transparent_iff_exchangeFixes {atCall atIretq : Cpu}
    (h : Ran interrupt handler returnAddress atCall atIretq) :
    Transparent interrupt handler returnAddress ↔ ExchangeFixes interrupt.cpu := by
  rw [← interrupt.saved_reverse_iff, ← h.scratch, Interrupt.saved]
  constructor
  · intro htransparent
    obtain ⟨cpu, hstate, hsame, _⟩ := htransparent.iretq
    obtain rfl := Option.some.inj (h.iretq.symm.trans hstate)
    exact List.map_congr_left hsame
  · intro hsame
    exact ⟨⟨atCall, h.call, h.rdi, h.rsi, h.aligned⟩,
      ⟨atIretq, h.iretq, List.map_inj_left.mp hsame, h.rsp, h.stack⟩⟩

/-- For every handler that keeps to the calling convention, the code is transparent exactly
to code that has the same words in the registers that it exchanges. -/
theorem transparent_iff
    (hhandler : HandlerObeysAbi interrupt handler returnAddress) :
    Transparent interrupt handler returnAddress ↔ ExchangeFixes interrupt.cpu := by
  cases herror : interrupt.errorCode with
  | none =>
      obtain ⟨_, _, hran⟩ := exists_ran_without_error_code herror hhandler
      exact hran.transparent_iff_exchangeFixes
  | some errorCode =>
      obtain ⟨_, _, hran⟩ := exists_ran_with_error_code herror hhandler
      exact hran.transparent_iff_exchangeFixes

/-! ## A handler that uses its stack -/

/-- A handler that saves its arguments below its stack pointer and leaves a word of its own
in every scratch register. -/
def spillArguments (cpu : Cpu) : Cpu where
  regs := fun register => if register ∈ scratchRegisters then 0xdead else cpu.regs register
  memory := (cpu.memory.writeWord (cpu.regs .rsp - 8) (cpu.regs .rdi)).writeWord
    (cpu.regs .rsp - 16) (cpu.regs .rsi)

theorem obeysAbi_spillArguments {top : BitVec 64} {cpu : Cpu}
    (h : (top - cpu.regs .rsp).toNat ≤ 2 ^ 64 - 16) :
    ObeysAbi top cpu (spillArguments cpu) where
  saved := by
    intro register hregister
    have hnot : register ∉ scratchRegisters := by
      revert register
      decide
    exact if_neg hnot
  stack := by
    intro address haddress
    refine (WrappedMemory.writeWord_outside ?_).trans (WrappedMemory.writeWord_outside ?_)
    · intro i hi heq
      rw [heq] at haddress
      bv_omega
    · intro i hi heq
      rw [heq] at haddress
      bv_omega

theorem handlerObeysAbi_spillArguments (interrupt : Interrupt) (returnAddress : BitVec 64) :
    HandlerObeysAbi interrupt spillArguments returnAddress := by
  intro cpu hstate
  obtain ⟨atCall, padding, hstate', hpadding, hatCall⟩ :=
    exists_stateAt_call interrupt spillArguments returnAddress
  obtain rfl := Option.some.inj (hstate.symm.trans hstate')
  apply obeysAbi_spillArguments
  have hcode : interrupt.errorCode.toList.length ≤ 1 := by
    cases interrupt.errorCode <;> simp
  rw [Cpu.push_rsp, hatCall.rsp, Interrupt.frameAddress]
  bv_omega

def interruptOf (regs : Register → BitVec 64) (errorCode : Option (BitVec 64)) : Interrupt where
  cpu := ⟨regs, fun _ => 0⟩
  stack := regs .rsp
  instructionPointer := 0x401000
  codeSegment := 8
  cpuFlags := 0x202
  stackSegment := 0x10
  errorCode := errorCode

/-- Registers that the exchange leaves as they are, and a stack pointer that the processor
has to align. -/
def mirroredRegisters : Register → BitVec 64
  | .rax | .r11 => 1
  | .rcx | .r10 => 2
  | .rdx | .r9 => 3
  | .rsi | .r8 => 4
  | .rdi => 5
  | .rsp => 0x7ff8
  | _ => 6

theorem transparent_mirroredRegisters :
    Transparent (interruptOf mirroredRegisters none) spillArguments 0x401020 ∧
      Transparent (interruptOf mirroredRegisters (some 2)) spillArguments 0x401020 :=
  ⟨(transparent_iff (handlerObeysAbi_spillArguments _ _)).mpr ⟨rfl, rfl, rfl, rfl⟩,
    (transparent_iff (handlerObeysAbi_spillArguments _ _)).mpr ⟨rfl, rfl, rfl, rfl⟩⟩

/-- With another word in `rax`, that word comes back in `r11`. -/
theorem not_transparent_rax :
    HandlerObeysAbi (interruptOf (Function.update mirroredRegisters .rax 7) none) spillArguments
        0x401020 ∧
      ¬ Transparent (interruptOf (Function.update mirroredRegisters .rax 7) none) spillArguments
        0x401020 := by
  refine ⟨handlerObeysAbi_spillArguments _ _, ?_⟩
  have habi := handlerObeysAbi_spillArguments
    (interruptOf (Function.update mirroredRegisters .rax 7) none) 0x401020
  obtain ⟨atCall, atIretq, hran⟩ := exists_ran_without_error_code rfl habi
  rw [hran.transparent_iff_exchangeFixes]
  intro hfixes
  exact absurd hfixes.1 (by decide)

end MiniatureOs
