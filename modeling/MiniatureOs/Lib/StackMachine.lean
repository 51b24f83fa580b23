import Mathlib.Logic.Function.Basic
import MiniatureOs.Lib.ByteMemory

/-! # A processor with its stack in memory

The general registers of a 64-bit processor, a memory whose addresses wrap around, and
the instructions that move words between the two over the stack. A stack is described by
the words from the stack pointer on. Pushes put the pushed words in front of them, in
reverse, and pops take them off again, so a sequence of pops that names the registers in
the order of the pushes hands out the words in reverse. A called function that keeps to
the calling convention leaves the stack above its stack pointer as it is.
-/

namespace StackMachine

inductive Register where
  | rax | rcx | rdx | rbx | rsp | rbp | rsi | rdi
  | r8 | r9 | r10 | r11 | r12 | r13 | r14 | r15
  deriving DecidableEq, Repr

structure Cpu where
  regs : Register → BitVec 64
  memory : WrappedMemory 64

inductive Instruction where
  | push (source : Register)
  | pop (target : Register)
  | mov (target source : Register)
  | load (target base : Register) (offset : Nat)
  | add (target : Register) (amount : Nat)
  | sub (target : Register) (amount : Nat)
  | call
  | iretq
  deriving DecidableEq, Repr

namespace Cpu

def set (cpu : Cpu) (register : Register) (word : BitVec 64) : Cpu :=
  { cpu with regs := Function.update cpu.regs register word }

def push (cpu : Cpu) (word : BitVec 64) : Cpu where
  regs := Function.update cpu.regs .rsp (cpu.regs .rsp - 8)
  memory := cpu.memory.writeWord (cpu.regs .rsp - 8) word

def pop (cpu : Cpu) (target : Register) : Cpu :=
  (cpu.set .rsp (cpu.regs .rsp + 8)).set target (cpu.memory.readWord (cpu.regs .rsp))

@[simp] theorem set_memory (cpu : Cpu) (register : Register) (word : BitVec 64) :
    (cpu.set register word).memory = cpu.memory := rfl

@[simp] theorem set_self (cpu : Cpu) (register : Register) (word : BitVec 64) :
    (cpu.set register word).regs register = word := by
  simp [set]

theorem set_of_ne (cpu : Cpu) {register other : Register} (word : BitVec 64)
    (h : other ≠ register) : (cpu.set register word).regs other = cpu.regs other := by
  simp [set, h]

@[simp] theorem set_set (cpu : Cpu) (register : Register) (first second : BitVec 64) :
    (cpu.set register first).set register second = cpu.set register second := by
  simp [set]

@[simp] theorem push_rsp (cpu : Cpu) (word : BitVec 64) :
    (cpu.push word).regs .rsp = cpu.regs .rsp - 8 := by
  simp [push]

theorem push_of_ne (cpu : Cpu) {other : Register} (word : BitVec 64) (h : other ≠ .rsp) :
    (cpu.push word).regs other = cpu.regs other := by
  simp [push, h]

def pushAll (cpu : Cpu) (words : List (BitVec 64)) : Cpu :=
  words.foldl push cpu

theorem pushAll_rsp (cpu : Cpu) (words : List (BitVec 64)) :
    (cpu.pushAll words).regs .rsp = cpu.regs .rsp - BitVec.ofNat 64 (8 * words.length) := by
  induction words generalizing cpu with
  | nil => simp [pushAll]
  | cons word words ih =>
      change ((cpu.push word).pushAll words).regs .rsp = _
      rw [ih, push_rsp, List.length_cons]
      bv_omega

theorem pushAll_of_ne (cpu : Cpu) (words : List (BitVec 64)) {other : Register}
    (h : other ≠ .rsp) : (cpu.pushAll words).regs other = cpu.regs other := by
  induction words generalizing cpu with
  | nil => rfl
  | cons word words ih =>
      change ((cpu.push word).pushAll words).regs other = _
      rw [ih, push_of_ne cpu word h]

/-- Pushes write nowhere but below the stack pointer. -/
theorem pushAll_outside (cpu : Cpu) {words : List (BitVec 64)} {x : BitVec 64}
    (h : ∀ i < 8 * words.length,
      x ≠ cpu.regs .rsp - BitVec.ofNat 64 (8 * words.length) + BitVec.ofNat 64 i) :
    (cpu.pushAll words).memory x = cpu.memory x := by
  induction words generalizing cpu with
  | nil => rfl
  | cons word words ih =>
      have hpointer : cpu.regs .rsp - BitVec.ofNat 64 (8 * (word :: words).length) =
          cpu.regs .rsp - 8 - BitVec.ofNat 64 (8 * words.length) := by
        rw [List.length_cons]
        bv_omega
      have hlength : 8 * (word :: words).length = 8 * words.length + 8 := rfl
      rw [hpointer, hlength] at h
      change ((cpu.push word).pushAll words).memory x = _
      have hrest : ((cpu.push word).pushAll words).memory x = (cpu.push word).memory x := by
        refine ih _ fun i hi heq => h i (by omega) ?_
        rw [heq, push_rsp]
      rw [hrest]
      refine WrappedMemory.writeWord_outside fun i hi heq => h (8 * words.length + i) (by omega) ?_
      rw [heq, BitVec.ofNat_add, ← BitVec.add_assoc, BitVec.sub_add_cancel]

end Cpu

/-! ## The words on the stack -/

def StackIs (memory : WrappedMemory 64) (pointer : BitVec 64) : List (BitVec 64) → Prop
  | [] => True
  | word :: words => memory.readWord pointer = word ∧ StackIs memory (pointer + 8) words

variable {memory memory' : WrappedMemory 64} {pointer word : BitVec 64}
  {words rest : List (BitVec 64)} {cpu cpu' : Cpu}

theorem StackIs.congr (h : StackIs memory pointer words)
    (hkept : ∀ i < 8 * words.length,
      memory' (pointer + BitVec.ofNat 64 i) = memory (pointer + BitVec.ofNat 64 i)) :
    StackIs memory' pointer words := by
  induction words generalizing pointer with
  | nil => trivial
  | cons word words ih =>
      rw [List.length_cons] at hkept
      refine ⟨?_, ih h.2 ?_⟩
      · rw [← h.1]
        exact WrappedMemory.readWord_congr fun i hi => hkept i (by omega)
      · intro i hi
        have haddress : pointer + 8 + BitVec.ofNat 64 i = pointer + BitVec.ofNat 64 (8 + i) := by
          rw [BitVec.ofNat_add, BitVec.add_assoc]
          rfl
        rw [haddress]
        exact hkept (8 + i) (by omega)

theorem StackIs.append (h : StackIs memory pointer (words ++ rest)) :
    StackIs memory (pointer + BitVec.ofNat 64 (8 * words.length)) rest := by
  induction words generalizing pointer with
  | nil => simpa using h
  | cons word words ih =>
      have haddress : pointer + BitVec.ofNat 64 (8 * (word :: words).length) =
          pointer + 8 + BitVec.ofNat 64 (8 * words.length) := by
        rw [List.length_cons, Nat.mul_succ, Nat.add_comm, BitVec.ofNat_add, ← BitVec.add_assoc]
        rfl
      rw [haddress]
      exact ih h.2

theorem StackIs.write (h : StackIs memory pointer words)
    (hfit : 8 * (words.length + 1) ≤ 2 ^ 64) :
    StackIs (memory.writeWord (pointer - 8) word) (pointer - 8) (word :: words) := by
  refine ⟨WrappedMemory.readWord_writeWord _ _ _ (by decide), ?_⟩
  rw [BitVec.sub_add_cancel]
  refine h.congr fun i hi => WrappedMemory.writeWord_outside fun j hj => ?_
  bv_omega

/-! ## Execution -/

section Execution

-- the effect of the called function up to its return instruction, and the address that a
-- call pushes
variable (callee : Cpu → Cpu) (returnAddress : BitVec 64)

/-- One instruction. A call runs the called function and its return instruction, which
comes back to the code only at the pushed address; `iretq` leaves the code. -/
def step (cpu : Cpu) : Instruction → Option Cpu
  | .push source => some (cpu.push (cpu.regs source))
  | .pop target => some (cpu.pop target)
  | .mov target source => some (cpu.set target (cpu.regs source))
  | .load target base offset =>
      some (cpu.set target (cpu.memory.readWord (cpu.regs base + BitVec.ofNat 64 offset)))
  | .add target amount => some (cpu.set target (cpu.regs target + BitVec.ofNat 64 amount))
  | .sub target amount => some (cpu.set target (cpu.regs target - BitVec.ofNat 64 amount))
  | .call =>
      let returned := callee (cpu.push returnAddress)
      if returned.memory.readWord (returned.regs .rsp) = returnAddress then
        some (returned.set .rsp (returned.regs .rsp + 8))
      else none
  | .iretq => none

def run (cpu : Cpu) (code : List Instruction) : Option Cpu :=
  code.foldlM (step callee returnAddress) cpu

/-- The state in which the code gets to an instruction for the first time. -/
def stateAt (target : Instruction) : Cpu → List Instruction → Option Cpu
  | _, [] => none
  | cpu, instruction :: code =>
      if instruction = target then some cpu
      else (step callee returnAddress cpu instruction).bind (stateAt target · code)

variable {callee returnAddress}

theorem run_cons {instruction : Instruction} {code : List Instruction}
    (h : step callee returnAddress cpu instruction = some cpu') :
    run callee returnAddress cpu (instruction :: code) = run callee returnAddress cpu' code := by
  unfold run
  rw [List.foldlM_cons, h]
  rfl

theorem run_append {first second : List Instruction}
    (h : run callee returnAddress cpu first = some cpu') :
    run callee returnAddress cpu (first ++ second) = run callee returnAddress cpu' second := by
  unfold run at h ⊢
  rw [List.foldlM_append, h]
  rfl

theorem stateAt_of_run {target : Instruction} {before after : List Instruction}
    (hbefore : target ∉ before) (h : run callee returnAddress cpu before = some cpu') :
    stateAt callee returnAddress target cpu (before ++ target :: after) = some cpu' := by
  induction before generalizing cpu with
  | nil =>
      obtain rfl := Option.some.inj h
      exact if_pos rfl
  | cons instruction before ih =>
      obtain ⟨hne, hrest⟩ := not_or.mp (mt List.mem_cons.mpr hbefore)
      unfold run at h
      rw [List.foldlM_cons] at h
      cases hstep : step callee returnAddress cpu instruction with
      | none => rw [hstep] at h; cases h
      | some next =>
          rw [hstep] at h
          rw [List.cons_append, stateAt, if_neg (Ne.symm hne), hstep]
          exact ih hrest h

def HasStack (cpu : Cpu) (words : List (BitVec 64)) : Prop :=
  StackIs cpu.memory (cpu.regs .rsp) words

/-- A word behind others is read relative to the stack pointer. -/
theorem HasStack.readWord_behind (h : HasStack cpu (words ++ word :: rest)) :
    cpu.memory.readWord (cpu.regs .rsp + BitVec.ofNat 64 (8 * words.length)) = word :=
  (StackIs.append h).1

theorem HasStack.push (h : HasStack cpu words) (hfit : 8 * (words.length + 1) ≤ 2 ^ 64) :
    HasStack (cpu.push word) (word :: words) := by
  unfold HasStack
  rw [Cpu.push_rsp]
  exact h.write hfit

theorem HasStack.pushAll {pushed : List (BitVec 64)} (h : HasStack cpu words)
    (hfit : 8 * (pushed.length + words.length) ≤ 2 ^ 64) :
    HasStack (cpu.pushAll pushed) (pushed.reverse ++ words) := by
  induction pushed generalizing cpu words with
  | nil => exact h
  | cons word pushed ih =>
      rw [List.length_cons] at hfit
      have hpushed : HasStack (cpu.push word) (word :: words) := h.push (by omega)
      have hrest : 8 * (pushed.length + (word :: words).length) ≤ 2 ^ 64 := by
        rw [List.length_cons]
        omega
      rw [List.reverse_cons, List.append_assoc]
      exact ih hpushed hrest

theorem HasStack.set {register : Register} (h : HasStack cpu words) (hne : register ≠ .rsp) :
    HasStack (cpu.set register word) words := by
  unfold HasStack
  rw [Cpu.set_of_ne _ _ (Ne.symm hne)]
  exact h

/-- A word is dropped by an addition to the stack pointer. -/
theorem HasStack.drop (h : HasStack cpu (word :: words)) :
    HasStack (cpu.set .rsp (cpu.regs .rsp + 8)) words := by
  unfold HasStack
  rw [Cpu.set_self]
  exact h.2

/-- A subtraction from the stack pointer reserves a word. -/
theorem HasStack.reserve (h : HasStack cpu words) :
    HasStack (cpu.set .rsp (cpu.regs .rsp - 8))
      (cpu.memory.readWord (cpu.regs .rsp - 8) :: words) := by
  unfold HasStack
  rw [Cpu.set_self]
  refine ⟨rfl, ?_⟩
  rw [BitVec.sub_add_cancel]
  exact h

theorem run_push {registers : List Register} (hrsp : .rsp ∉ registers) :
    run callee returnAddress cpu (registers.map .push) =
      some (cpu.pushAll (registers.map cpu.regs)) := by
  induction registers generalizing cpu with
  | nil => rfl
  | cons register registers ih =>
      obtain ⟨hne, hrest⟩ := not_or.mp (mt List.mem_cons.mpr hrsp)
      have hsame : registers.map (cpu.push (cpu.regs register)).regs = registers.map cpu.regs :=
        List.map_congr_left fun other hother => cpu.push_of_ne _ fun heq => hrest (heq ▸ hother)
      change run callee returnAddress (cpu.push (cpu.regs register)) (registers.map .push) = _
      rw [ih hrest, hsame]
      rfl

/-- Pops hand out the words in the order in which they lie on the stack. -/
theorem run_pop {registers : List Register} (hrsp : .rsp ∉ registers)
    (hnodup : registers.Nodup) (hlength : words.length = registers.length)
    (h : HasStack cpu (words ++ rest)) :
    ∃ cpu', run callee returnAddress cpu (registers.map .pop) = some cpu' ∧
      HasStack cpu' rest ∧
      cpu'.regs .rsp = cpu.regs .rsp + BitVec.ofNat 64 (8 * registers.length) ∧
      registers.map cpu'.regs = words ∧
      ∀ register, register ≠ .rsp → register ∉ registers →
        cpu'.regs register = cpu.regs register := by
  induction registers generalizing cpu words with
  | nil =>
      obtain rfl := List.eq_nil_of_length_eq_zero hlength
      exact ⟨cpu, rfl, h, by simp, rfl, fun _ _ _ => rfl⟩
  | cons register registers ih =>
      obtain ⟨hne, hrest⟩ := not_or.mp (mt List.mem_cons.mpr hrsp)
      obtain ⟨hnot, hnodup⟩ := List.nodup_cons.mp hnodup
      cases words with
      | nil => cases hlength
      | cons word words =>
          have hpointer : (cpu.pop register).regs .rsp = cpu.regs .rsp + 8 := by
            rw [Cpu.pop, Cpu.set_of_ne _ _ hne, Cpu.set_self]
          have hpopped : HasStack (cpu.pop register) (words ++ rest) := by
            unfold HasStack
            rw [hpointer]
            exact h.2
          obtain ⟨cpu', hrun, hstack, hpointer', hwords, hkept⟩ :=
            ih hrest hnodup (Nat.succ.inj hlength) hpopped
          refine ⟨cpu', hrun, hstack, ?_, ?_, ?_⟩
          · rw [hpointer', hpointer, List.length_cons]
            bv_omega
          · rw [List.map_cons, hwords, hkept register (Ne.symm hne) hnot, Cpu.pop, Cpu.set_self,
              h.1]
          · intro other hother hmem
            obtain ⟨hne', hmem'⟩ := not_or.mp (mt List.mem_cons.mpr hmem)
            rw [hkept other hother hmem', Cpu.pop, Cpu.set_of_ne _ _ hne',
              Cpu.set_of_ne _ _ hother]

/-! ## The calling convention -/

def calleeSaved : List Register :=
  [.rbx, .rbp, .rsp, .r12, .r13, .r14, .r15]

/-- What a function may change up to its return instruction: not the registers above, and
not the memory from its stack pointer up to the top of the stack. -/
structure ObeysAbi (top : BitVec 64) (before after : Cpu) : Prop where
  saved : ∀ register ∈ calleeSaved, after.regs register = before.regs register
  stack : ∀ address, (address - before.regs .rsp).toNat < (top - before.regs .rsp).toNat →
    after.memory address = before.memory address

theorem HasStack.of_obeysAbi {top : BitVec 64} (h : HasStack cpu words)
    (habi : ObeysAbi top cpu cpu') (hfit : 8 * words.length < 2 ^ 64)
    (htop : top = cpu.regs .rsp + BitVec.ofNat 64 (8 * words.length)) :
    HasStack cpu' words := by
  unfold HasStack at h ⊢
  rw [habi.saved .rsp (by decide)]
  refine h.congr fun i hi => habi.stack _ ?_
  rw [htop]
  bv_omega

/-- A call comes back with the stack as it was, if the called function keeps to the
convention in the state that it is called in. -/
theorem step_call {top : BitVec 64} (h : HasStack cpu words)
    (hcallee : ObeysAbi top (cpu.push returnAddress) (callee (cpu.push returnAddress)))
    (hfit : 8 * (words.length + 1) < 2 ^ 64)
    (htop : top = cpu.regs .rsp + BitVec.ofNat 64 (8 * words.length)) :
    ∃ cpu', step callee returnAddress cpu .call = some cpu' ∧ HasStack cpu' words ∧
      cpu'.regs .rsp = cpu.regs .rsp := by
  have hpushed : HasStack (cpu.push returnAddress) (returnAddress :: words) :=
    h.push (Nat.le_of_lt hfit)
  have hreturned := hpushed.of_obeysAbi hcallee hfit (by
    rw [htop, Cpu.push_rsp, List.length_cons]
    bv_omega)
  have hpointer := hcallee.saved .rsp (by decide)
  rw [Cpu.push_rsp] at hpointer
  unfold step
  generalize callee (cpu.push returnAddress) = returned at hreturned hpointer
  have hback : returned.memory.readWord (returned.regs .rsp) = returnAddress := hreturned.1
  have hrsp : (returned.set .rsp (returned.regs .rsp + 8)).regs .rsp = cpu.regs .rsp := by
    rw [Cpu.set_self, hpointer, BitVec.sub_add_cancel]
  exact ⟨returned.set .rsp (returned.regs .rsp + 8), if_pos hback, hreturned.drop, hrsp⟩

end Execution

end StackMachine
