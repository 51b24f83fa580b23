import Mathlib.Algebra.Ring.Parity
import Mathlib.Tactic.Common

/-! # Transition systems with events

A system takes a step on an event, or refuses it. The states that are reached by steps
whose events meet a condition are described by what such a step preserves.
-/

namespace Transitions

variable {σ ε : Type _} {step : σ → ε → Option σ} {allowed : σ → ε → Prop} {s t : σ}

inductive Reaches (step : σ → ε → Option σ) (allowed : σ → ε → Prop) (s : σ) : σ → Prop where
  | refl : Reaches step allowed s s
  | tail {t u : σ} {event : ε} (hreach : Reaches step allowed s t) (hallowed : allowed t event)
      (hstep : step t event = some u) : Reaches step allowed s u

/-- What every allowed step preserves holds in every state reached. -/
theorem Reaches.invariant {P : σ → Prop} (h : Reaches step allowed s t) (hs : P s)
    (hpreserved : ∀ t event u, P t → allowed t event → step t event = some u → P u) : P t := by
  induction h with
  | refl => exact hs
  | tail _ hallowed hstep ih => exact hpreserved _ _ _ ih hallowed hstep

end Transitions
