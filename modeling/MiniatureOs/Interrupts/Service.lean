import MiniatureOs.Interrupts.Pic

/-! # Interrupts in service

The processor, the interrupt controllers and the handlers together, from `init` of
`kernel/src/interrupts/mod.rs` on. Devices raise their lines at any time, the running code
may do anything but change the tables and the interrupt flag, and exceptions may come in
between. The handlers of the timer and of the keyboard notify the controllers before they
return; most of the others never return.
-/

namespace MiniatureOs

open StackMachine

/-! ## Steps -/

namespace Handler

/-- `as_remapped_idt_number`, for the handlers that notify the controllers. -/
def irqNumber : Handler → Option Nat
  | .timerInterrupt => some (0 + 0x20)
  | .keyboardInterrupt => some (1 + 0x20)
  | _ => none

def returns : Handler → Bool
  | .debug | .nonMaskableInterrupt | .breakpoint | .deviceNotAvailable | .timerInterrupt
  | .keyboardInterrupt => true
  | _ => false

end Handler

structure HandlerFrame where
  event : DeliveryEvent
  handler : Handler
  interrupted : Processor
  notified : Bool

structure InterruptMachine where
  processor : Processor
  pics : Pics
  frames : List HandlerFrame

/-- `iretq`, with the frame on the stack as it was pushed. -/
def Processor.iretq (p interrupted : Processor) : Processor :=
  { p with
    cpu := p.cpu.set .rsp interrupted.rsp
    rip := interrupted.rip
    rflags := interrupted.rflags
    cs := interrupted.cs
    ss := interrupted.ss }

namespace InterruptMachine

def enter (s : InterruptMachine) (k : KernelStatics) (pics : Pics) (event : DeliveryEvent)
    (handler : Handler) (errorCode : Option (BitVec 64)) : InterruptMachine where
  processor := k.enter s.processor handler errorCode
  pics := pics
  frames := ⟨event, handler, s.processor, false⟩ :: s.frames

inductive Step (k : KernelStatics) (s : InterruptMachine) : InterruptMachine → Prop
  | line (line : Fin 16) (hdevice : line ≠ 2) : Step k s { s with pics := s.pics.raise line }
  | run (p : Processor) (hlater : k.Later s.processor p)
      (hflag : p.interruptFlag = s.processor.interruptFlag) : Step k s { s with processor := p }
  | interrupt {vector : Nat} {pics : Pics} {codes : Nat → BitVec 64} {handler : Handler}
      {errorCode : Option (BitVec 64)} (hflag : s.processor.interruptFlag = true)
      (hack : s.pics.acknowledge = some (vector, pics)) (hapart : k.FrameApart s.processor)
      (hraise : s.processor.raise codes (.interrupt vector) =
        .entered (k.enter s.processor handler errorCode)) :
      Step k s (s.enter k pics (.interrupt vector) handler errorCode)
  | exception {vector : Nat} {codes : Nat → BitVec 64} {handler : Handler}
      {errorCode : Option (BitVec 64)} (hvector : vector < 32)
      (hapart : k.FrameApart s.processor)
      (hraise : s.processor.raise codes (.exception vector) =
        .entered (k.enter s.processor handler errorCode)) :
      Step k s (s.enter k s.pics (.exception vector) handler errorCode)
  | notify {frame : HandlerFrame} {frames : List HandlerFrame} {irqNumber : Nat}
      (hframes : s.frames = frame :: frames) (hirq : frame.handler.irqNumber = some irqNumber)
      (hnotified : frame.notified = false) :
      Step k s { s with
        pics := ChainedPics.new.notifyEndOfInterrupt irqNumber s.pics
        frames := { frame with notified := true } :: frames }
  | iretq {frame : HandlerFrame} {frames : List HandlerFrame}
      (hframes : s.frames = frame :: frames) (hreturns : frame.handler.returns = true)
      (hdone : frame.handler.irqNumber ≠ none → frame.notified = true) :
      Step k s { s with processor := s.processor.iretq frame.interrupted, frames := frames }

/-- The kernel behind `init`, for the state of the controllers that the firmware left. -/
def start (p : Processor) (pics : Pics) : InterruptMachine :=
  ⟨p, ChainedPics.new.init 0x20 (0x20 + 8) pics, []⟩

def Reachable (k : KernelStatics) (p : Processor) (pics : Pics) : InterruptMachine → Prop :=
  Relation.ReflTransGen (Step k) (start p pics)

/-! ## The invariant -/

/-- Interrupts are enabled only outside of the handlers. -/
def Nested : List HandlerFrame → Bool → Prop
  | [], flag => flag = true
  | frame :: frames, flag => flag = false ∧ Nested frames frame.interrupted.interruptFlag

def keeps (frame : HandlerFrame) : Option Nat :=
  match frame.event with
  | .interrupt vector => if frame.notified then none else some vector
  | .exception _ => none

structure Entered (frame : HandlerFrame) : Prop where
  handler : frame.handler = KernelStatics.handlerOf frame.event ∨ frame.handler = .doubleFault
  interrupt : ∀ vector, frame.event = .interrupt vector →
    frame.interrupted.interruptFlag = true ∧ ∃ line : Fin 16, vector = 0x20 + line
  exception : ∀ vector, frame.event = .exception vector → vector < 32

/-- The handlers that run keep at most one line in service, and the controllers serve it. -/
structure Served (masterMask slaveMask : BitVec 8) (k : KernelStatics) (s : InterruptMachine) :
    Prop where
  operational : k.Operational s.processor
  remapped : s.pics.Remapped masterMask slaveMask
  nested : Nested s.frames s.processor.interruptFlag
  entered : ∀ frame ∈ s.frames, Entered frame
  serving : ∃ served, s.frames.filterMap keeps = served.toList ∧ s.pics.Serving served

variable {k : KernelStatics} {s s' : InterruptMachine} {masterMask slaveMask : BitVec 8}
  {frame : HandlerFrame} {frames : List HandlerFrame} {event : DeliveryEvent} {handler : Handler}
  {errorCode : Option (BitVec 64)} {codes : Nat → BitVec 64}

theorem enter_injective {p : Processor} {handler' : Handler} {errorCode' : Option (BitVec 64)}
    (h : k.enter p handler errorCode = k.enter p handler' errorCode') : handler = handler' :=
  k.handler_injective (congrArg Processor.rip h)

/-- The handler that is entered is that of the event, or that for double faults. -/
theorem Served.handler_eq (h : Served masterMask slaveMask k s) (hvalid : event.Valid)
    (hraise : s.processor.raise codes event =
      .entered (k.enter s.processor handler errorCode)) :
    handler = KernelStatics.handlerOf event ∨ handler = .doubleFault := by
  obtain ⟨errorCode', henters, -⟩ := h.operational.raise hvalid
  rw [hraise] at henters
  rw [enter_injective (Outcome.entered.inj henters), KernelStatics.entersHandler]
  split
  · exact Or.inl rfl
  · exact Or.inr rfl

theorem Nested.frames_eq_nil {flag : Bool} (h : Nested frames flag) (hflag : flag = true) :
    frames = [] := by
  cases frames with
  | nil => rfl
  | cons frame frames =>
      rw [h.1] at hflag
      cases hflag

theorem interruptFlag_enter (k : KernelStatics) (p : Processor) (handler : Handler)
    (errorCode : Option (BitVec 64)) : (k.enter p handler errorCode).interruptFlag = false := by
  have hflags : (k.enter p handler errorCode).rflags = p.rflags &&& ~~~0x34300 := rfl
  rw [Processor.interruptFlag, hflags, BitVec.getLsbD_and]
  exact Bool.and_false _

/-- The handler of an interrupt is one of three. -/
theorem handlerOf_line : ∀ line : Fin 16, KernelStatics.handlerOf (.interrupt (0x20 + line)) ∈
    [Handler.timerInterrupt, .keyboardInterrupt, .segmentNotPresent] := by
  decide

/-- No exception enters a handler that notifies the controllers. -/
theorem irqNumber_exception : ∀ vector < 32,
    (KernelStatics.handlerOf (.exception vector)).irqNumber = none := by
  decide

/-! ## Every step keeps it -/

theorem remapped_raise {pics : Pics} (h : pics.Remapped masterMask slaveMask) (line : Fin 16) :
    (pics.raise line).Remapped masterMask slaveMask := by
  rw [Pics.raise]
  split <;> exact ⟨h.masterStage, h.slaveStage, h.masterOffset, h.slaveOffset, h.masterCascade,
    h.slaveCascade, h.masterMask, h.slaveMask⟩

theorem remapped_serveLine {pics : Pics} (h : pics.Remapped masterMask slaveMask)
    (line : Fin 16) : (pics.serveLine line).Remapped masterMask slaveMask := by
  rw [Pics.serveLine]
  split <;> exact ⟨h.masterStage, h.slaveStage, h.masterOffset, h.slaveOffset, h.masterCascade,
    h.slaveCascade, h.masterMask, h.slaveMask⟩

theorem serving_raise {pics : Pics} {served : Option Nat} (h : pics.Serving served)
    (line : Fin 16) : (pics.raise line).Serving served := by
  have hmaster : (pics.raise line).master.inService = pics.master.inService := by
    rw [Pics.raise]
    split <;> rfl
  have hslave : (pics.raise line).slave.inService = pics.slave.inService := by
    rw [Pics.raise]
    split <;> rfl
  cases served with
  | none => exact ⟨hmaster.trans h.1, hslave.trans h.2⟩
  | some vector =>
      obtain ⟨served, hvector, hserving⟩ := h
      refine ⟨served, hvector, ?_⟩
      rw [hmaster, hslave]
      exact hserving

/-- The tables are not written when a handler is entered. -/
theorem Served.operational_enter (h : Served masterMask slaveMask k s)
    (hapart : k.FrameApart s.processor) :
    k.Operational (k.enter s.processor handler errorCode) :=
  h.operational.later ⟨rfl, rfl, rfl, hapart.sameTables_enter handler,
    h.operational.accessible.tables, h.operational.accessible.stack⟩

theorem Served.nested_enter (h : Served masterMask slaveMask k s) (pics : Pics) :
    Nested (s.enter k pics event handler errorCode).frames
      (s.enter k pics event handler errorCode).processor.interruptFlag :=
  ⟨interruptFlag_enter k s.processor handler errorCode, h.nested⟩

theorem Served.interrupt (h : Served masterMask slaveMask k s) {vector : Nat} {pics : Pics}
    (hflag : s.processor.interruptFlag = true) (hack : s.pics.acknowledge = some (vector, pics))
    (hapart : k.FrameApart s.processor)
    (hraise : s.processor.raise codes (.interrupt vector) =
      .entered (k.enter s.processor handler errorCode)) :
    Served masterMask slaveMask k (s.enter k pics (.interrupt vector) handler errorCode) := by
  obtain ⟨line, -, hvector, -, -, rfl⟩ := h.remapped.acknowledge_spec hack
  have hline := line.isLt
  have hvalid : (DeliveryEvent.interrupt vector).Valid := by
    change 32 ≤ vector ∧ vector < 256
    omega
  have hhandler := h.handler_eq hvalid hraise
  have hframes := h.nested.frames_eq_nil hflag
  obtain ⟨served, hserved, hserving⟩ := h.serving
  -- nothing was in service, since no handler was running
  have hnone : served = none := by
    rw [hframes] at hserved
    cases served with
    | none => rfl
    | some _ => cases hserved
  rw [hnone] at hserving
  refine ⟨h.operational_enter hapart, remapped_serveLine h.remapped line, h.nested_enter _, ?_,
    some vector, ?_, ?_⟩
  · intro frame hframe
    cases List.mem_cons.mp hframe with
    | inl heq =>
        rw [heq]
        refine ⟨hhandler, fun other hother => ?_, fun other hother => (by cases hother)⟩
        cases hother
        exact ⟨hflag, line, hvector⟩
    | inr hmem => exact h.entered frame hmem
  · rw [enter, hframes]
    rfl
  · rw [hvector]
    exact hserving.serveLine line

theorem Served.exception (h : Served masterMask slaveMask k s) {vector : Nat}
    (hvector : vector < 32) (hapart : k.FrameApart s.processor)
    (hraise : s.processor.raise codes (.exception vector) =
      .entered (k.enter s.processor handler errorCode)) :
    Served masterMask slaveMask k (s.enter k s.pics (.exception vector) handler errorCode) := by
  have hvalid : (DeliveryEvent.exception vector).Valid := hvector
  have hhandler := h.handler_eq hvalid hraise
  refine ⟨h.operational_enter hapart, h.remapped, h.nested_enter _, ?_, h.serving⟩
  intro frame hframe
  cases List.mem_cons.mp hframe with
  | inl heq =>
      rw [heq]
      refine ⟨hhandler, fun other hother => (by cases hother), fun other hother => ?_⟩
      cases hother
      exact hvector
  | inr hmem => exact h.entered frame hmem

/-- The handler that notifies the controllers was entered by an interrupt, and is the only
one that runs. -/
theorem Served.notifies (h : Served masterMask slaveMask k s) (hframes : s.frames = frame :: frames)
    (hirq : frame.handler.irqNumber ≠ none) :
    frames = [] ∧ ∃ vector, frame.event = .interrupt vector := by
  have hentered := h.entered frame (by rw [hframes]; exact List.mem_cons_self)
  have hhandler : frame.handler = KernelStatics.handlerOf frame.event := by
    refine hentered.handler.resolve_right fun hdouble => hirq ?_
    rw [hdouble]
    rfl
  have hnested := h.nested
  rw [hframes] at hnested
  cases hevent : frame.event with
  | exception vector =>
      have hnone := irqNumber_exception vector (hentered.exception vector hevent)
      rw [hhandler, hevent] at hirq
      exact absurd hnone hirq
  | interrupt vector =>
      exact ⟨hnested.2.frames_eq_nil (hentered.interrupt vector hevent).1, vector, rfl⟩

theorem Served.notified_pics (h : Served masterMask slaveMask k s) {irqNumber : Nat}
    (hirq : handler.irqNumber = some irqNumber) :
    ChainedPics.new.notifyEndOfInterrupt irqNumber s.pics =
      ⟨{ s.pics.master with inService := 0 }, { s.pics.slave with inService := 0 }⟩ := by
  obtain ⟨served, -, hserving⟩ := h.serving
  have hlarge : 0x8 ≤ irqNumber := by
    cases hhandler : handler <;> rw [hhandler] at hirq <;> cases hirq <;> decide
  exact hserving.notifyEndOfInterrupt hlarge

theorem Served.notify (h : Served masterMask slaveMask k s) {irqNumber : Nat}
    (hframes : s.frames = frame :: frames) (hirq : frame.handler.irqNumber = some irqNumber) :
    Served masterMask slaveMask k { s with
      pics := ChainedPics.new.notifyEndOfInterrupt irqNumber s.pics
      frames := { frame with notified := true } :: frames } := by
  obtain ⟨hrest, vector, hevent⟩ := h.notifies hframes (by rw [hirq]; simp)
  have hnested := h.nested
  rw [hframes] at hnested
  have hentered := h.entered frame (by rw [hframes]; exact List.mem_cons_self)
  rw [h.notified_pics hirq, hrest]
  refine ⟨h.operational, ⟨h.remapped.masterStage, h.remapped.slaveStage,
    h.remapped.masterOffset, h.remapped.slaveOffset, h.remapped.masterCascade,
    h.remapped.slaveCascade, h.remapped.masterMask, h.remapped.slaveMask⟩,
    ⟨hnested.1, hrest ▸ hnested.2⟩, ?_, none, ?_, ⟨rfl, rfl⟩⟩
  · intro other hother
    cases List.mem_singleton.mp hother
    exact ⟨hentered.handler, hentered.interrupt, hentered.exception⟩
  · simp [keeps, hevent]

theorem Served.iretq (h : Served masterMask slaveMask k s) (hframes : s.frames = frame :: frames)
    (hreturns : frame.handler.returns = true)
    (hdone : frame.handler.irqNumber ≠ none → frame.notified = true) :
    Served masterMask slaveMask k
      { s with processor := s.processor.iretq frame.interrupted, frames := frames } := by
  have hentered := h.entered frame (by rw [hframes]; exact List.mem_cons_self)
  have hnested := h.nested
  rw [hframes] at hnested
  obtain ⟨served, hserved, hserving⟩ := h.serving
  -- a handler that returns keeps nothing in service
  have hkeeps : keeps frame = none := by
    cases hevent : frame.event with
    | exception vector => simp only [keeps, hevent]
    | interrupt vector =>
        obtain ⟨-, line, hline⟩ := hentered.interrupt vector hevent
        have hthree := handlerOf_line line
        have hhandler : frame.handler = KernelStatics.handlerOf frame.event := by
          refine hentered.handler.resolve_right fun hdouble => ?_
          rw [hdouble] at hreturns
          cases hreturns
        rw [← hline, ← hevent, ← hhandler] at hthree
        have hirq : frame.handler.irqNumber ≠ none := by
          revert hreturns
          simp only [List.mem_cons, List.not_mem_nil, or_false] at hthree
          rcases hthree with heq | heq | heq <;> rw [heq] <;> decide
        simp only [keeps, hevent, hdone hirq, if_true]
  have hlater : k.Later s.processor (s.processor.iretq frame.interrupted) :=
    ⟨rfl, rfl, rfl, fun _ _ => rfl, h.operational.accessible.tables,
      h.operational.accessible.stack⟩
  refine ⟨h.operational.later hlater, h.remapped, hnested.2, ?_, served, ?_, hserving⟩
  · intro other hother
    exact h.entered other (by rw [hframes]; exact List.mem_cons_of_mem _ hother)
  · rw [hframes, List.filterMap_cons_none hkeeps] at hserved
    exact hserved

theorem Served.step (h : Served masterMask slaveMask k s) (hstep : Step k s s') :
    Served masterMask slaveMask k s' := by
  cases hstep with
  | line line hdevice =>
      obtain ⟨served, hserved, hserving⟩ := h.serving
      exact ⟨h.operational, remapped_raise h.remapped line, h.nested, h.entered, served,
        hserved, serving_raise hserving line⟩
  | run p hlater hflag =>
      exact ⟨h.operational.later hlater, h.remapped, hflag ▸ h.nested, h.entered, h.serving⟩
  | interrupt hflag hack hapart hraise => exact h.interrupt hflag hack hapart hraise
  | exception hvector hapart hraise => exact h.exception hvector hapart hraise
  | notify hframes hirq hnotified => exact h.notify hframes hirq
  | iretq hframes hreturns hdone => exact h.iretq hframes hreturns hdone

theorem Served.of_reachable {p p' : Processor} {pics : Pics} (hready : k.Ready p)
    (hinit : k.init p = .ok (.ok p')) (hmaster : pics.master.inService = 0)
    (hslave : pics.slave.inService = 0) (h : Reachable k p' pics s) :
    Served pics.master.mask pics.slave.mask k s := by
  induction h with
  | refl =>
      obtain ⟨q, hq, hoperational, hflag, -⟩ := KernelStatics.init_ok hready
      obtain rfl : q = p' := Except.ok.inj (Except.ok.inj (hq.symm.trans hinit))
      have hinService := ChainedPics.inService_init pics
      exact ⟨hoperational, ChainedPics.remapped_init pics, hflag,
        fun frame hframe => absurd hframe List.not_mem_nil, none, rfl,
        hinService.1.trans hmaster, hinService.2.trans hslave⟩
  | tail _ hstep ih => exact ih.step hstep

/-! ## Handlers that return, and handlers that do not -/

/-- A handler notifies the controllers, if it does at all and has not yet done so. The lines
that ask still do. -/
theorem Served.notified (h : Served masterMask slaveMask k s)
    (hframes : s.frames = frame :: frames) :
    ∃ s' frame', Relation.ReflTransGen (Step k) s s' ∧ Served masterMask slaveMask k s' ∧
      s'.frames = frame' :: frames ∧ frame'.handler = frame.handler ∧
      (frame'.handler.irqNumber ≠ none → frame'.notified = true) ∧
      ∀ line, s'.pics.Requested line ↔ s.pics.Requested line := by
  cases hirq : frame.handler.irqNumber with
  | none =>
      exact ⟨s, frame, .refl, h, hframes, rfl, fun hne => absurd hirq hne, fun _ => Iff.rfl⟩
  | some irqNumber =>
      cases hnotified : frame.notified with
      | true => exact ⟨s, frame, .refl, h, hframes, rfl, fun _ => hnotified, fun _ => Iff.rfl⟩
      | false =>
          refine ⟨_, _, .single (.notify hframes hirq hnotified), h.notify hframes hirq, rfl, rfl,
            fun _ => rfl, fun line => ?_⟩
          rw [h.notified_pics hirq]
          exact Iff.rfl

/-- A handler that never returns stays on the stack. -/
theorem Step.stuck (hstep : Step k s s')
    (h : ∃ frame ∈ s.frames, frame.handler.returns = false) :
    ∃ frame ∈ s'.frames, frame.handler.returns = false := by
  obtain ⟨stuck, hmem, hstuck⟩ := h
  cases hstep with
  | line line hdevice => exact ⟨stuck, hmem, hstuck⟩
  | run p hlater hflag => exact ⟨stuck, hmem, hstuck⟩
  | interrupt hflag hack hapart hraise => exact ⟨stuck, List.mem_cons_of_mem _ hmem, hstuck⟩
  | exception hvector hapart hraise => exact ⟨stuck, List.mem_cons_of_mem _ hmem, hstuck⟩
  | @notify frame frames irqNumber hframes hirq hnotified =>
      rw [hframes] at hmem
      cases List.mem_cons.mp hmem with
      | inl heq =>
          rw [heq] at hstuck
          exact ⟨{ frame with notified := true }, List.mem_cons_self, hstuck⟩
      | inr hrest => exact ⟨stuck, List.mem_cons_of_mem _ hrest, hstuck⟩
  | @iretq frame frames hframes hreturns hdone =>
      rw [hframes] at hmem
      cases List.mem_cons.mp hmem with
      | inl heq =>
          rw [heq, hreturns] at hstuck
          cases hstuck
      | inr hrest => exact ⟨stuck, hrest, hstuck⟩

/-- Behind a handler that never returns, interrupts stay disabled. -/
theorem Served.stuck (h : Served masterMask slaveMask k s)
    (hstuck : ∃ frame ∈ s.frames, frame.handler.returns = false)
    (hrun : Relation.ReflTransGen (Step k) s s') : s'.processor.interruptFlag = false := by
  have hlater : Served masterMask slaveMask k s' ∧
      ∃ frame ∈ s'.frames, frame.handler.returns = false := by
    induction hrun with
    | refl => exact ⟨h, hstuck⟩
    | tail _ hstep ih => exact ⟨ih.1.step hstep, hstep.stuck ih.2⟩
  obtain ⟨hserved, frame, hmem, -⟩ := hlater
  by_contra hflag
  rw [hserved.nested.frames_eq_nil (Bool.eq_true_of_not_eq_false hflag)] at hmem
  cases hmem

/-! ## Every reachable state -/

theorem Served.idle (h : Served masterMask slaveMask k s)
    (hflag : s.processor.interruptFlag = true) :
    s.frames = [] ∧ s.pics.master.inService = 0 ∧ s.pics.slave.inService = 0 := by
  have hframes := h.nested.frames_eq_nil hflag
  obtain ⟨served, hkept, hserving⟩ := h.serving
  rw [hframes] at hkept
  cases served with
  | none => exact ⟨hframes, hserving⟩
  | some vector => cases hkept

theorem Served.delivered (h : Served masterMask slaveMask k s)
    (hflag : s.processor.interruptFlag = true) (hapart : k.FrameApart s.processor)
    {line : Fin 16} (hdevice : line ≠ 2) (hrequested : s.pics.Requested line)
    (hunmasked : ¬ s.pics.Masked line) :
    ∃ (other : Fin 16) (errorCode : Option (BitVec 64)), s.pics.Requested other ∧
      ¬ s.pics.Masked other ∧
      Step k s (s.enter k (s.pics.serveLine other) (.interrupt (0x20 + other))
        (KernelStatics.entersHandler s.processor (.interrupt (0x20 + other))) errorCode) := by
  obtain ⟨-, hmaster, hslave⟩ := h.idle hflag
  obtain ⟨vector, pics, hack⟩ := h.remapped.acknowledge_of_idle hmaster hslave hdevice
    hrequested hunmasked
  obtain ⟨other, -, rfl, hother, hopen, rfl⟩ := h.remapped.acknowledge_spec hack
  have hvalid : (DeliveryEvent.interrupt (0x20 + other)).Valid := by
    have hbound := other.isLt
    change 32 ≤ 0x20 + other.val ∧ 0x20 + other.val < 256
    omega
  obtain ⟨errorCode, hraise, -⟩ :
      ∃ errorCode, s.processor.raise (fun _ => 0) (.interrupt (0x20 + other)) =
        .entered (k.enter s.processor
          (KernelStatics.entersHandler s.processor (.interrupt (0x20 + other))) errorCode) ∧ _ :=
    h.operational.raise hvalid
  exact ⟨other, errorCode, hother, hopen, .interrupt hflag hack hapart hraise⟩

end InterruptMachine

end MiniatureOs
