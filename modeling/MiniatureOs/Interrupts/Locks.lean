import Mathlib.Logic.Function.Basic
import MiniatureOs.Lib.Transitions

/-! # Interrupts and spin locks

The mainline of the kernel after `interrupts::init` prints, and the timer and the keyboard
interrupt it. `_print` of `x86_64/src/print.rs` holds the lock of the serial port with
interrupts enabled, and so do the handlers of `kernel/src/interrupts/mod.rs` with
interrupts disabled by the gate. A handler that is delivered while the mainline holds the
lock spins on it for ever.
-/

namespace MiniatureOs

open Transitions

/-- The mutexes: `SERIAL` and `PICS`. -/
inductive MutexName where
  | serial
  | pics
  deriving DecidableEq, Repr

inductive Action where
  | lock (mutex : MutexName)
  | send (data : UInt8)
  | readPort (port : Nat)
  | notifyEndOfInterrupt (irqNumber : Nat)
  | unlock (mutex : MutexName)
  deriving DecidableEq, Repr

/-- The byte that `SerialPort::write_str` sends for a character. -/
def serialByte (c : Char) : UInt8 :=
  if c.toNat < 0x80 then UInt8.ofNat c.toNat else 0x2e

/-- `_print`: the guard is dropped behind the write. -/
def print (text : List Char) : List Action :=
  .lock .serial :: (text.map fun c => .send (serialByte c)) ++ [.unlock .serial]

def println (text : List Char) : List Action :=
  print (text ++ ['\n'])

/-- `PICS.lock().notify_end_of_interrupt(..)`. -/
def notifyPics (irqNumber : Nat) : List Action :=
  [.lock .pics, .notifyEndOfInterrupt irqNumber, .unlock .pics]

def timerInterruptHandler : List Action :=
  print ['.'] ++ notifyPics 0x20

/-- `keyboard_interrupt_handler`, for the scancode that it reads. -/
def keyboardInterruptHandler (scancode : UInt8) : List Action :=
  .readPort 0x60 :: print (Nat.toDigits 10 scancode.toNat) ++ notifyPics 0x21

/-- `InterruptIndex`, with what the device has ready. -/
inductive Irq where
  | timer
  | keyboard (scancode : UInt8)
  deriving DecidableEq, Repr

def Irq.handler : Irq → List Action
  | .timer => timerInterruptHandler
  | .keyboard scancode => keyboardInterruptHandler scancode

/-- The locks, the interrupt flag, what the running code has left to do, and the code it
interrupted with the flag that `iretq` restores, the latest first. -/
structure Kernel where
  lockStatus : MutexName → Bool
  interruptFlag : Bool
  code : List Action
  interrupted : List (List Action × Bool)
  sent : List UInt8

/-- Behind `interrupts::init`. -/
def Kernel.initial : Kernel :=
  ⟨fun _ => false, true, [], [], []⟩

inductive Event where
  | println (text : List Char)
  | execute
  | interrupt (irq : Irq)
  | iretq
  deriving DecidableEq, Repr

/-- One action. A lock is taken by a round of `compare_exchange`, or the round is wasted. -/
def Kernel.execute (kernel : Kernel) (rest : List Action) : Action → Kernel
  | .lock mutex =>
      if kernel.lockStatus mutex = true then kernel
      else { kernel with lockStatus := Function.update kernel.lockStatus mutex true, code := rest }
  | .send data => { kernel with code := rest, sent := kernel.sent ++ [data] }
  | .readPort _ | .notifyEndOfInterrupt _ => { kernel with code := rest }
  | .unlock mutex =>
      { kernel with lockStatus := Function.update kernel.lockStatus mutex false, code := rest }

/-- The mainline prints when it is idle, the running code executes, an interrupt is delivered
through a gate that clears the flag, and a finished handler returns. -/
def Kernel.step (kernel : Kernel) : Event → Option Kernel
  | .println text =>
      if kernel.code = [] ∧ kernel.interrupted = [] then
        some { kernel with code := MiniatureOs.println text }
      else none
  | .execute =>
      match kernel.code with
      | action :: rest => some (kernel.execute rest action)
      | [] => none
  | .interrupt irq =>
      if kernel.interruptFlag = true then
        some { kernel with
          interruptFlag := false
          code := irq.handler
          interrupted := (kernel.code, kernel.interruptFlag) :: kernel.interrupted }
      else none
  | .iretq =>
      match kernel.code, kernel.interrupted with
      | [], (code, interruptFlag) :: interrupted =>
          some { kernel with interruptFlag, code, interrupted }
      | _, _ => none

/-- The code releases the mutex before it takes it, so it holds it. -/
def holds (mutex : MutexName) : List Action → Bool
  | [] => false
  | .unlock other :: rest => if other = mutex then true else holds mutex rest
  | .lock other :: rest => if other = mutex then false else holds mutex rest
  | .send _ :: rest | .readPort _ :: rest | .notifyEndOfInterrupt _ :: rest => holds mutex rest

/-- The running code spins on a mutex that code it interrupted holds. -/
def Deadlocked (kernel : Kernel) : Prop :=
  ∃ mutex rest, kernel.code = .lock mutex :: rest ∧ kernel.lockStatus mutex = true ∧
    ∃ suspended ∈ kernel.interrupted, holds mutex suspended.1 = true

/-- Interrupts are delivered only while `SERIAL` is free. -/
def SerialFree (kernel : Kernel) : Event → Prop
  | .interrupt _ => kernel.lockStatus .serial = false
  | .println _ | .execute | .iretq => True

/-! ## Code that releases what it takes -/

/-- The code holds the given mutex, takes one at a time and ends with none. -/
def Balanced : Option MutexName → List Action → Prop
  | held, [] => held = none
  | held, .lock mutex :: rest => held = none ∧ Balanced (some mutex) rest
  | held, .unlock mutex :: rest => held = some mutex ∧ Balanced none rest
  | held, .send _ :: rest | held, .readPort _ :: rest
  | held, .notifyEndOfInterrupt _ :: rest => Balanced held rest

variable {held : Option MutexName} {mutex : MutexName} {code rest : List Action}
  {kernel kernel' : Kernel}

/-- Balanced code that holds a mutex releases it, and holds no other. -/
theorem Balanced.holds_iff (h : Balanced held code) :
    holds mutex code = true ↔ held = some mutex := by
  induction code generalizing held with
  | nil =>
      rw [show held = none from h]
      simp [holds]
  | cons action code ih =>
      cases action with
      | lock other =>
          obtain ⟨rfl, h⟩ := h
          by_cases hother : other = mutex
          · simp [holds, hother]
          · simp [holds, hother, ih h]
      | unlock other =>
          obtain ⟨rfl, h⟩ := h
          by_cases hother : other = mutex
          · simp [holds, hother]
          · simp [holds, hother, ih h]
      | send data => exact ih h
      | readPort port => exact ih h
      | notifyEndOfInterrupt irqNumber => exact ih h

theorem unlock_mem_of_holds (h : holds mutex code = true) : .unlock mutex ∈ code := by
  induction code with
  | nil => cases h
  | cons action code ih =>
      cases action with
      | unlock other =>
          by_cases hother : other = mutex
          · rw [hother]
            exact List.mem_cons_self
          · rw [holds, if_neg hother] at h
            exact List.mem_cons_of_mem _ (ih h)
      | lock other =>
          by_cases hother : other = mutex
          · rw [holds, if_pos hother] at h
            cases h
          · rw [holds, if_neg hother] at h
            exact List.mem_cons_of_mem _ (ih h)
      | send data => exact List.mem_cons_of_mem _ (ih h)
      | readPort port => exact List.mem_cons_of_mem _ (ih h)
      | notifyEndOfInterrupt irqNumber => exact List.mem_cons_of_mem _ (ih h)

theorem balanced_print (text : List Char) (h : Balanced none rest) :
    Balanced none (print text ++ rest) := by
  refine ⟨rfl, ?_⟩
  induction text with
  | nil => exact ⟨rfl, h⟩
  | cons c text ih => exact ih

theorem balanced_notifyPics (irqNumber : Nat) : Balanced none (notifyPics irqNumber) :=
  ⟨rfl, rfl, rfl⟩

theorem Irq.balanced_handler (irq : Irq) : Balanced none irq.handler := by
  cases irq with
  | timer => exact balanced_print _ (balanced_notifyPics _)
  | keyboard scancode => exact balanced_print _ (balanced_notifyPics _)

/-- Code of the mainline releases no other mutex than `SERIAL`. -/
def OnlySerial (code : List Action) : Prop :=
  ∀ mutex, .unlock mutex ∈ code → mutex = .serial

theorem onlySerial_print (text : List Char) : OnlySerial (print text) := by
  intro mutex hmem
  simpa [print] using hmem

/-! ## The invariant -/

/-- The running code holds the mutexes that are locked. It is the mainline, or a handler with
interrupts disabled that met the mainline without a mutex. -/
structure Lawful (kernel : Kernel) : Prop where
  running : ∃ held, Balanced held kernel.code ∧
    ∀ mutex, kernel.lockStatus mutex = true ↔ held = some mutex
  suspended : (kernel.interrupted = [] ∧ OnlySerial kernel.code) ∨
    (kernel.interruptFlag = false ∧ ∃ mainline, kernel.interrupted = [mainline] ∧
      Balanced none mainline.1 ∧ OnlySerial mainline.1)

theorem lawful_initial : Lawful .initial where
  running := ⟨none, rfl, by simp [Kernel.initial]⟩
  suspended := Or.inl ⟨rfl, by simp [OnlySerial, Kernel.initial]⟩

theorem Lawful.not_deadlocked (h : Lawful kernel) : ¬ Deadlocked kernel := by
  intro hdeadlocked
  obtain ⟨mutex, rest, hcode, hlocked, _⟩ := hdeadlocked
  obtain ⟨held, hbalanced, hlocks⟩ := h.running
  rw [hcode] at hbalanced
  rw [hlocks, hbalanced.1] at hlocked
  cases hlocked

@[simp] theorem Kernel.execute_interrupted (kernel : Kernel) (rest : List Action)
    (action : Action) : (kernel.execute rest action).interrupted = kernel.interrupted := by
  cases action with
  | lock mutex =>
      rw [Kernel.execute]
      split <;> rfl
  | send data => rfl
  | readPort port => rfl
  | notifyEndOfInterrupt irqNumber => rfl
  | unlock mutex => rfl

@[simp] theorem Kernel.execute_interruptFlag (kernel : Kernel) (rest : List Action)
    (action : Action) : (kernel.execute rest action).interruptFlag = kernel.interruptFlag := by
  cases action with
  | lock mutex =>
      rw [Kernel.execute]
      split <;> rfl
  | send data => rfl
  | readPort port => rfl
  | notifyEndOfInterrupt irqNumber => rfl
  | unlock mutex => rfl

/-- An action of balanced code does not spin, and leaves the mutexes locked that the code
behind it holds. -/
theorem Kernel.execute_balanced {action : Action} (hbalanced : Balanced held (action :: rest))
    (hlocks : ∀ mutex, kernel.lockStatus mutex = true ↔ held = some mutex) :
    (kernel.execute rest action).code = rest ∧ ∃ held', Balanced held' rest ∧
      ∀ mutex, (kernel.execute rest action).lockStatus mutex = true ↔ held' = some mutex := by
  cases action with
  | lock mutex =>
      obtain ⟨rfl, hbalanced⟩ := hbalanced
      have hfree : ¬ kernel.lockStatus mutex = true := by simp [hlocks]
      rw [Kernel.execute, if_neg hfree]
      refine ⟨rfl, some mutex, hbalanced, fun other => ?_⟩
      by_cases hother : other = mutex
      · simp [hother]
      · simp [hother, hlocks, Ne.symm hother]
  | unlock mutex =>
      obtain ⟨rfl, hbalanced⟩ := hbalanced
      refine ⟨rfl, none, hbalanced, fun other => ?_⟩
      by_cases hother : other = mutex
      · simp [Kernel.execute, hother]
      · simp [Kernel.execute, hother, hlocks, Ne.symm hother]
  | send data => exact ⟨rfl, held, hbalanced, hlocks⟩
  | readPort port => exact ⟨rfl, held, hbalanced, hlocks⟩
  | notifyEndOfInterrupt irqNumber => exact ⟨rfl, held, hbalanced, hlocks⟩

theorem Lawful.execute {action : Action} (h : Lawful kernel)
    (hcode : kernel.code = action :: rest) : Lawful (kernel.execute rest action) := by
  obtain ⟨held, hbalanced, hlocks⟩ := h.running
  rw [hcode] at hbalanced
  obtain ⟨hrest, hrunning⟩ := Kernel.execute_balanced hbalanced hlocks
  constructor
  · rw [hrest]
    exact hrunning
  · rw [hrest, Kernel.execute_interrupted, Kernel.execute_interruptFlag]
    cases h.suspended with
    | inl hmainline =>
        refine Or.inl ⟨hmainline.1, fun mutex hmem => hmainline.2 mutex ?_⟩
        rw [hcode]
        exact List.mem_cons_of_mem _ hmem
    | inr hhandler => exact Or.inr hhandler

/-- A handler that is delivered while `SERIAL` is free meets the mainline without a mutex. -/
theorem Lawful.interrupt {irq : Irq} (h : Lawful kernel) (hflag : kernel.interruptFlag = true)
    (hfree : kernel.lockStatus .serial = false) :
    Lawful { kernel with
      interruptFlag := false
      code := irq.handler
      interrupted := (kernel.code, kernel.interruptFlag) :: kernel.interrupted } := by
  obtain ⟨held, hbalanced, hlocks⟩ := h.running
  cases h.suspended with
  | inr hhandler =>
      rw [hflag] at hhandler
      cases hhandler.1
  | inl hmainline =>
      have hnone : held = none := by
        cases held with
        | none => rfl
        | some mutex =>
            have hlocked := (hlocks mutex).mpr rfl
            have hunlock := unlock_mem_of_holds (hbalanced.holds_iff.mpr rfl)
            rw [hmainline.2 mutex hunlock, hfree] at hlocked
            cases hlocked
      subst hnone
      exact ⟨⟨none, irq.balanced_handler, hlocks⟩,
        Or.inr ⟨rfl, _, by rw [hmainline.1], hbalanced, hmainline.2⟩⟩

theorem Lawful.step {event : Event} (h : Lawful kernel) (hallowed : SerialFree kernel event)
    (hstep : kernel.step event = some kernel') : Lawful kernel' := by
  obtain ⟨held, hbalanced, hlocks⟩ := h.running
  cases event with
  | println text =>
      rw [Kernel.step] at hstep
      split at hstep
      next hidle =>
        obtain rfl := Option.some.inj hstep
        rw [hidle.1] at hbalanced
        obtain rfl : held = none := hbalanced
        refine ⟨⟨none, ?_, hlocks⟩, Or.inl ⟨hidle.2, onlySerial_print _⟩⟩
        have hprint := balanced_print (text ++ ['\n']) (show Balanced none [] from rfl)
        rw [List.append_nil] at hprint
        exact hprint
      next => cases hstep
  | execute =>
      rw [Kernel.step] at hstep
      cases hcode : kernel.code with
      | nil => rw [hcode] at hstep; cases hstep
      | cons action rest =>
          rw [hcode] at hstep
          obtain rfl := Option.some.inj hstep
          exact h.execute hcode
  | interrupt irq =>
      rw [Kernel.step] at hstep
      split at hstep
      next hflag =>
        obtain rfl := Option.some.inj hstep
        exact h.interrupt hflag hallowed
      next => cases hstep
  | iretq =>
      rw [Kernel.step] at hstep
      split at hstep
      next code flag interrupted hcode hinterrupted =>
        obtain rfl := Option.some.inj hstep
        rw [hcode] at hbalanced
        obtain rfl : held = none := hbalanced
        cases h.suspended with
        | inl hmainline =>
            rw [hinterrupted] at hmainline
            cases hmainline.1
        | inr hhandler =>
            obtain ⟨_, mainline, heq, hmain, honly⟩ := hhandler
            rw [hinterrupted] at heq
            obtain ⟨rfl, rfl⟩ := List.cons.inj heq
            exact ⟨⟨none, hmain, hlocks⟩, Or.inl ⟨rfl, honly⟩⟩
      next => cases hstep

theorem lawful_of_reaches (h : Reaches Kernel.step SerialFree .initial kernel) : Lawful kernel :=
  h.invariant lawful_initial fun _ _ _ hlawful hallowed hstep => hlawful.step hallowed hstep

/-- In every run that delivers interrupts only while `SERIAL` is free, no handler spins on a
mutex that the code it interrupted holds. -/
theorem not_deadlocked_of_reaches (h : Reaches Kernel.step SerialFree .initial kernel) :
    ¬ Deadlocked kernel :=
  (lawful_of_reaches h).not_deadlocked

/-- A `println!` is over and the next one has not taken the lock yet when the timer interrupts
it; the handler then holds the lock. -/
theorem not_deadlocked_timer_between_println :
    ∃ kernel, Reaches Kernel.step SerialFree .initial kernel ∧ kernel.sent = [0x61, 0x0a] ∧
      kernel.interrupted = [(println ['b'], true)] ∧ kernel.lockStatus .serial = true ∧
      ¬ Deadlocked kernel := by
  have hstart : Reaches Kernel.step SerialFree .initial .initial := .refl
  have hfirst := hstart.tail (show SerialFree _ (.println ['a']) from trivial) rfl
  have hlocked := hfirst.tail (show SerialFree _ .execute from trivial) rfl
  have hsent := hlocked.tail (show SerialFree _ .execute from trivial) rfl
  have hline := hsent.tail (show SerialFree _ .execute from trivial) rfl
  have hunlocked := hline.tail (show SerialFree _ .execute from trivial) rfl
  have hsecond := hunlocked.tail (show SerialFree _ (.println ['b']) from trivial) rfl
  have hdelivered := hsecond.tail (show SerialFree _ (.interrupt .timer) from rfl) rfl
  have hreach := hdelivered.tail (show SerialFree _ .execute from trivial) rfl
  exact ⟨_, hreach, rfl, rfl, rfl, not_deadlocked_of_reaches hreach⟩

/-- The timer interrupts a `println!` that holds the lock. -/
theorem deadlocked_timer_in_println :
    ∃ kernel, Reaches Kernel.step (fun _ _ => True) .initial kernel ∧ Deadlocked kernel := by
  let printing : Kernel := { Kernel.initial with code := println ['a'] }
  let locked := printing.execute (println ['a']).tail (.lock .serial)
  have hprinting : Reaches Kernel.step (fun _ _ => True) .initial printing :=
    Reaches.refl.tail trivial (show Kernel.initial.step (.println ['a']) = _ from rfl)
  have hlocked : Reaches Kernel.step (fun _ _ => True) .initial locked :=
    hprinting.tail trivial (show printing.step .execute = _ from rfl)
  refine ⟨_, hlocked.tail trivial (show locked.step (.interrupt .timer) = some _ from rfl), ?_⟩
  exact ⟨.serial, timerInterruptHandler.tail, rfl, rfl, _, List.mem_cons_self, rfl⟩

/-! ## The condition is exact -/

/-- Code that spins with interrupts disabled never gets any further. -/
theorem step_of_spinning {event : Event} (hcode : kernel.code = .lock mutex :: rest)
    (hlocked : kernel.lockStatus mutex = true) (hflag : kernel.interruptFlag = false)
    (hstep : kernel.step event = some kernel') : kernel' = kernel := by
  cases event with
  | println text => simp [Kernel.step, hcode] at hstep
  | execute =>
      rw [Kernel.step, hcode] at hstep
      rw [← Option.some.inj hstep]
      exact if_pos hlocked
  | interrupt irq => simp [Kernel.step, hflag] at hstep
  | iretq => simp [Kernel.step, hcode] at hstep

/-- An interrupt that is delivered while `SERIAL` is locked ends in a handler that spins for
ever. -/
theorem deadlocks_of_interrupt {irq : Irq}
    (h : Reaches Kernel.step SerialFree .initial kernel)
    (hlocked : kernel.lockStatus .serial = true)
    (hstep : kernel.step (.interrupt irq) = some kernel') :
    ∃ stuck, Reaches Kernel.step (fun _ event => event = .execute) kernel' stuck ∧
      Deadlocked stuck ∧ ∀ event after, stuck.step event = some after → after = stuck := by
  obtain ⟨held, hbalanced, hlocks⟩ := (lawful_of_reaches h).running
  have hholds : holds .serial kernel.code = true :=
    hbalanced.holds_iff.mpr ((hlocks .serial).mp hlocked)
  rw [Kernel.step] at hstep
  split at hstep
  next hflag =>
    obtain rfl := Option.some.inj hstep
    -- the handler gets to the lock, the one of the keyboard behind the read of the port
    have hspins : ∀ rest, ∀ stuck : Kernel, stuck.code = .lock .serial :: rest →
        stuck.lockStatus = kernel.lockStatus → stuck.interruptFlag = false →
        stuck.interrupted = (kernel.code, kernel.interruptFlag) :: kernel.interrupted →
        Deadlocked stuck ∧ ∀ event after, stuck.step event = some after → after = stuck := by
      intro rest stuck hcode hstatus hflag hinterrupted
      rw [← hstatus] at hlocked
      refine ⟨⟨.serial, rest, hcode, hlocked, (kernel.code, kernel.interruptFlag), ?_, hholds⟩, ?_⟩
      · rw [hinterrupted]
        exact List.mem_cons_self
      · intro event after hstep
        exact step_of_spinning hcode hlocked hflag hstep
    cases irq with
    | timer => exact ⟨_, .refl, hspins _ _ rfl rfl rfl rfl⟩
    | keyboard scancode =>
        exact ⟨_, Reaches.refl.tail rfl rfl, hspins _ _ rfl rfl rfl rfl⟩
  next => cases hstep

end MiniatureOs
