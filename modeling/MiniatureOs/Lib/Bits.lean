import Mathlib.Algebra.Ring.Parity
import Mathlib.Data.Nat.Bitwise
import Mathlib.Data.Nat.Factorization.Basic

/-! # Powers of two in a machine word

The bit counting operations of a fixed-width unsigned integer, on naturals below
`2 ^ width`: trailing zeros, the lowest set bit as `n & (!n + 1)`, and the powers
of two next below and next above.
-/

namespace Bits

/-- The number of zero bits below the lowest set bit, `width` for zero. -/
def trailingZeros : Nat → Nat → Nat
  | 0, _ => 0
  | width + 1, n => if n % 2 = 1 then 0 else trailingZeros width (n / 2) + 1

/-- `n & (!n + 1)` for a positive word. -/
def lowBit (width n : Nat) : Nat := n &&& (2 ^ width - n)

/-- The largest power of two that is at most a positive number. -/
def previousPowerOfTwo (n : Nat) : Nat := 2 ^ Nat.log2 n

/-- The smallest power of two that is at least the number. -/
def nextPowerOfTwo (n : Nat) : Nat := if n ≤ 1 then 1 else 2 ^ (Nat.log2 (n - 1) + 1)

@[simp] theorem trailingZeros_two_pow {width c : Nat} (h : c ≤ width) :
    trailingZeros width (2 ^ c) = c := by
  induction width generalizing c with
  | zero =>
      rw [Nat.le_zero.mp h]
      rfl
  | succ width ih =>
      cases c with
      | zero => rfl
      | succ c =>
          have heven : 2 ^ (c + 1) % 2 = 0 := by rw [Nat.pow_succ, Nat.mul_mod_left]
          have hhalf : 2 ^ (c + 1) / 2 = 2 ^ c := by
            rw [Nat.pow_succ, Nat.mul_div_cancel _ (by decide)]
          simp [trailingZeros, heven, hhalf, ih (Nat.le_of_succ_le_succ h)]

/-! ## The lowest set bit -/

/-- A number and its complement share no bit. -/
theorem and_complement (width q : Nat) : q &&& (2 ^ width - (q + 1)) = 0 := by
  rcases Nat.lt_or_ge q (2 ^ width) with hlt | hge
  · apply Nat.eq_of_testBit_eq
    intro i
    rw [Nat.testBit_and, Nat.testBit_two_pow_sub_succ hlt, Nat.zero_testBit]
    cases q.testBit i <;> simp
  · rw [Nat.sub_eq_zero_of_le (Nat.le_succ_of_le hge), Nat.and_zero]

theorem lowBit_of_odd {width m : Nat} (hodd : Odd m) (hlt : m < 2 ^ (width + 1)) :
    lowBit (width + 1) m = 1 := by
  obtain ⟨q, rfl⟩ := hodd
  have hpow : 2 ^ (width + 1) = 2 * 2 ^ width := by rw [Nat.pow_succ, Nat.mul_comm]
  have hother : 2 ^ (width + 1) - (2 * q + 1) = 2 * (2 ^ width - (q + 1)) + 1 := by omega
  have hdiv : lowBit (width + 1) (2 * q + 1) / 2 = 0 := by
    rw [lowBit, hother, Nat.and_div_two, show (2 * q + 1) / 2 = q by omega,
      show (2 * (2 ^ width - (q + 1)) + 1) / 2 = 2 ^ width - (q + 1) by omega, and_complement]
  have hmod : lowBit (width + 1) (2 * q + 1) % 2 = 1 := by
    rw [lowBit, hother, Nat.and_mod_two_eq_one]
    omega
  omega

theorem lowBit_mul_two_pow (width t m : Nat) :
    lowBit (width + t) (2 ^ t * m) = 2 ^ t * lowBit width m := by
  have hpos := Nat.two_pow_pos t
  have hother : 2 ^ (width + t) - 2 ^ t * m = 2 ^ t * (2 ^ width - m) := by
    rw [Nat.pow_add, Nat.mul_sub, Nat.mul_comm]
  have hdiv : lowBit (width + t) (2 ^ t * m) / 2 ^ t = lowBit width m := by
    rw [lowBit, hother, Nat.and_div_two_pow, Nat.mul_div_cancel_left _ hpos,
      Nat.mul_div_cancel_left _ hpos, lowBit]
  have hmod : lowBit (width + t) (2 ^ t * m) % 2 ^ t = 0 := by
    rw [lowBit, Nat.and_mod_two_pow, Nat.mul_mod_right, Nat.zero_and]
  have hsplit := Nat.div_add_mod (lowBit (width + t) (2 ^ t * m)) (2 ^ t)
  rw [hdiv, hmod, Nat.add_zero] at hsplit
  exact hsplit.symm

/-- The lowest set bit is the largest power of two that divides the word. -/
theorem lowBit_spec {width n : Nat} (hpos : 0 < n) (hlt : n < 2 ^ width) :
    ∃ t, lowBit width n = 2 ^ t ∧ 2 ^ t ∣ n ∧ ¬ 2 ^ (t + 1) ∣ n := by
  obtain ⟨t, m, hodd, rfl⟩ := Nat.exists_eq_two_pow_mul_odd (Nat.ne_of_gt hpos)
  have hmpos : 0 < m := hodd.pos
  have hle : 2 ^ t ≤ 2 ^ t * m := Nat.le_mul_of_pos_right _ hmpos
  have ht : t < width := (Nat.pow_lt_pow_iff_right (by decide)).mp (Nat.lt_of_le_of_lt hle hlt)
  obtain ⟨k, rfl⟩ : ∃ k, width = (k + 1) + t := ⟨width - t - 1, by omega⟩
  have hm : m < 2 ^ (k + 1) := by
    rw [Nat.pow_add, Nat.mul_comm (2 ^ (k + 1))] at hlt
    exact Nat.lt_of_mul_lt_mul_left hlt
  refine ⟨t, ?_, Nat.dvd_mul_right _ _, ?_⟩
  · rw [lowBit_mul_two_pow, lowBit_of_odd hodd hm, Nat.mul_one]
  · rw [Nat.pow_succ, Nat.mul_dvd_mul_iff_left (Nat.two_pow_pos t)]
    intro hdvd
    exact (Nat.not_even_iff_odd.mpr hodd) (even_iff_two_dvd.mpr hdvd)

/-! ## The next powers of two -/

theorem previousPowerOfTwo_le {n : Nat} (h : 0 < n) : previousPowerOfTwo n ≤ n :=
  Nat.log2_self_le (Nat.ne_of_gt h)

theorem lt_two_mul_previousPowerOfTwo (n : Nat) : n < 2 * previousPowerOfTwo n := by
  have h := @Nat.lt_log2_self n
  rw [Nat.pow_succ] at h
  unfold previousPowerOfTwo
  omega

theorem two_pow_min (a b : Nat) : 2 ^ min a b = min (2 ^ a) (2 ^ b) := by
  rcases Nat.le_total a b with h | h
  · rw [Nat.min_eq_left h, Nat.min_eq_left (Nat.pow_le_pow_right (by decide) h)]
  · rw [Nat.min_eq_right h, Nat.min_eq_right (Nat.pow_le_pow_right (by decide) h)]

theorem two_pow_max (a b : Nat) : 2 ^ max a b = max (2 ^ a) (2 ^ b) := by
  rcases Nat.le_total a b with h | h
  · rw [Nat.max_eq_right h, Nat.max_eq_right (Nat.pow_le_pow_right (by decide) h)]
  · rw [Nat.max_eq_left h, Nat.max_eq_left (Nat.pow_le_pow_right (by decide) h)]

theorem nextPowerOfTwo_two_pow (n : Nat) : ∃ c, nextPowerOfTwo n = 2 ^ c := by
  unfold nextPowerOfTwo
  split
  · exact ⟨0, rfl⟩
  · exact ⟨_, rfl⟩

theorem le_nextPowerOfTwo (n : Nat) : n ≤ nextPowerOfTwo n := by
  unfold nextPowerOfTwo
  split
  · assumption
  · have := @Nat.lt_log2_self (n - 1)
    omega

theorem nextPowerOfTwo_le {n c : Nat} (h : n ≤ 2 ^ c) : nextPowerOfTwo n ≤ 2 ^ c := by
  unfold nextPowerOfTwo
  split
  · exact Nat.two_pow_pos c
  · have hlog : Nat.log2 (n - 1) < c := (Nat.log2_lt (by omega)).mpr (by omega)
    exact Nat.pow_le_pow_right (by decide) hlog

end Bits
