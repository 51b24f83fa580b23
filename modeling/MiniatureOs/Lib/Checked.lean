import Mathlib.Algebra.Ring.Parity
import Mathlib.Data.List.Basic
import Mathlib.Tactic.Common

/-! # Computations that can panic

Rust code built with overflow checks either returns or stops with a panic. A
`Checked` value records which, so that arithmetic overflow, a failed assertion
and an `unwrap` of `None` stay visible in every statement about a run. The
inversion lemmas below peel a successful computation into its successful parts.
-/

inductive Panic where
  | overflow
  | divideByZero
  | outOfBounds
  | unwrapNone
  | assertion (message : String)
  | message (text : String)
  deriving Repr, DecidableEq

abbrev Checked (α : Type _) := Except Panic α

namespace Checked

/-! ## Fixed-width arithmetic -/

/-- Addition of `width`-bit unsigned integers with the overflow check on. -/
def add (width a b : Nat) : Checked Nat :=
  if a + b < 2 ^ width then .ok (a + b) else .error .overflow

def sub (a b : Nat) : Checked Nat :=
  if b ≤ a then .ok (a - b) else .error .overflow

/-- Multiplication of `width`-bit unsigned integers with the overflow check on. -/
def mul (width a b : Nat) : Checked Nat :=
  if a * b < 2 ^ width then .ok (a * b) else .error .overflow

def div (a b : Nat) : Checked Nat :=
  if b = 0 then .error .divideByZero else .ok (a / b)

def mod (a b : Nat) : Checked Nat :=
  if b = 0 then .error .divideByZero else .ok (a % b)

/-- `Option::expect`: the message is the panic's. -/
def expect {α : Type _} (message : String) : Option α → Checked α
  | some value => .ok value
  | none => .error (.message message)

/-- `Option::unwrap`. -/
def unwrap {α : Type _} : Option α → Checked α
  | some value => .ok value
  | none => .error .unwrapNone

/-- `assert!` with its message. -/
def assert (condition : Bool) (message : String) : Checked Unit :=
  if condition then .ok () else .error (.assertion message)

theorem add_eq_ok {width a b c : Nat} :
    add width a b = .ok c ↔ a + b < 2 ^ width ∧ c = a + b := by
  by_cases h : a + b < 2 ^ width
  · simp [add, h, eq_comm]
  · simp [add, h]

theorem sub_eq_ok {a b c : Nat} : sub a b = .ok c ↔ b ≤ a ∧ c = a - b := by
  by_cases h : b ≤ a
  · simp [sub, h, eq_comm]
  · simp [sub, h]

theorem mul_eq_ok {width a b c : Nat} :
    mul width a b = .ok c ↔ a * b < 2 ^ width ∧ c = a * b := by
  by_cases h : a * b < 2 ^ width
  · simp [mul, h, eq_comm]
  · simp [mul, h]

theorem div_eq_ok {a b c : Nat} : div a b = .ok c ↔ 0 < b ∧ c = a / b := by
  by_cases h : b = 0
  · simp [div, h]
  · simp [div, h, Nat.pos_of_ne_zero h, eq_comm]

theorem add_of_lt {width a b : Nat} (h : a + b < 2 ^ width) :
    add width a b = .ok (a + b) := by
  simp [add, h]

theorem sub_of_le {a b : Nat} (h : b ≤ a) : sub a b = .ok (a - b) := by
  simp [sub, h]

theorem mul_of_lt {width a b : Nat} (h : a * b < 2 ^ width) :
    mul width a b = .ok (a * b) := by
  simp [mul, h]

theorem div_of_pos {a b : Nat} (h : 0 < b) : div a b = .ok (a / b) := by
  simp [div, Nat.ne_of_gt h]

theorem mod_of_pos {a b : Nat} (h : 0 < b) : mod a b = .ok (a % b) := by
  simp [mod, Nat.ne_of_gt h]

theorem expect_eq_ok {α : Type _} {message : String} {o : Option α} {a : α} :
    expect message o = .ok a ↔ o = some a := by
  cases o <;> simp [expect]

theorem unwrap_eq_ok {α : Type _} {o : Option α} {a : α} :
    unwrap o = .ok a ↔ o = some a := by
  cases o <;> simp [unwrap]

theorem assert_eq_ok {condition : Bool} {message : String} {u : Unit} :
    assert condition message = .ok u ↔ condition = true := by
  cases condition <;> simp [assert]

/-! ## Sequencing -/

/-- A sequence returns exactly when both parts return. -/
theorem bind_eq_ok {α β : Type _} {x : Checked α} {f : α → Checked β} {b : β} :
    (x >>= f) = .ok b ↔ ∃ a, x = .ok a ∧ f a = .ok b := by
  cases x <;> simp [bind, Except.bind]

@[simp] theorem ok_bind {α β : Type _} (a : α) (f : α → Checked β) :
    ((Except.ok a : Checked α) >>= f) = f a := rfl

@[simp] theorem error_bind {α β : Type _} (e : Panic) (f : α → Checked β) :
    ((Except.error e : Checked α) >>= f) = .error e := rfl

@[simp] theorem pure_eq_ok {α : Type _} (a : α) : (pure a : Checked α) = .ok a := rfl

/-- A run is a return when what it computes of its result is known. -/
theorem exists_of_toOption {α β : Type _} {x : Checked α} {f : α → β} {b : β}
    (h : x.toOption.map f = some b) : ∃ a, x = .ok a ∧ f a = b := by
  cases x with
  | error panic => cases h
  | ok a => exact ⟨a, rfl, Option.some.inj h⟩

/-! ## Two computations in lockstep -/

section Lockstep

variable {α β γ δ : Type _} {R : α → β → Prop} {S : γ → δ → Prop} {x : Checked α} {y : Checked β}

/-- Both computations stop with the same panic, or both return, and the results are
related. -/
inductive Lockstep (R : α → β → Prop) : Checked α → Checked β → Prop
  | panics (panic : Panic) : Lockstep R (.error panic) (.error panic)
  | returns {a : α} {b : β} (h : R a b) : Lockstep R (.ok a) (.ok b)

theorem Lockstep.outcomes (h : Lockstep R x y) :
    (∃ panic, x = .error panic ∧ y = .error panic) ∨ ∃ a b, x = .ok a ∧ y = .ok b ∧ R a b := by
  cases h with
  | panics panic => exact .inl ⟨panic, rfl, rfl⟩
  | returns hR => exact .inr ⟨_, _, rfl, rfl, hR⟩

/-- Related results may be assumed to be results of the two first parts. -/
theorem Lockstep.bind {f : α → Checked γ} {g : β → Checked δ} (h : Lockstep R x y)
    (hrest : ∀ a b, x = .ok a → y = .ok b → R a b → Lockstep S (f a) (g b)) :
    Lockstep S (x >>= f) (y >>= g) := by
  cases h with
  | panics panic => exact .panics panic
  | returns hR => exact hrest _ _ rfl rfl hR

/-- A first part that both computations share. -/
theorem Lockstep.bind_same {f : α → Checked γ} {g : α → Checked δ}
    (hrest : ∀ a, x = .ok a → Lockstep S (f a) (g a)) : Lockstep S (x >>= f) (x >>= g) := by
  cases x with
  | error panic => exact .panics panic
  | ok a => exact hrest a rfl

/-- A part that only the left computation goes on with. -/
theorem Lockstep.bind_left {S : γ → β → Prop} {f : α → Checked γ} (h : Lockstep R x y)
    (hrest : ∀ a b, R a b → Lockstep S (f a) (.ok b)) : Lockstep S (x >>= f) y := by
  cases h with
  | panics panic => exact .panics panic
  | returns hR => exact hrest _ _ hR

end Lockstep

end Checked
