import MiniatureOs.Lib.Checked

/-! # Fields of a word

Reading and replacing a range of the bits of a word, for words of any width. A range that
leaves the word is no range, so the only thing left to check when a field is replaced is
that the new value fits. A word is given bit by bit: a field that is replaced has the bits of
the value, and every other bit is as it was.
-/

namespace BitField

structure Range (w : Nat) where
  low : Nat
  length : Nat
  pos : 0 < length
  inside : low + length ≤ w

def bits {w : Nat} (low high : Nat) (hle : low ≤ high := by decide)
    (hlt : high < w := by decide) : Range w where
  low := low
  length := high + 1 - low
  pos := by omega
  inside := by omega

variable {w : Nat}

structure Range.Spans (range : Range w) (low length : Nat) : Prop where
  low : range.low = low
  length : range.length = length

def setBit (word : BitVec w) (bit : Fin w) (value : Bool) : BitVec w :=
  if value then word ||| 1#w <<< bit.val else word &&& ~~~(1#w <<< bit.val)

def getBits (word : BitVec w) (range : Range w) : BitVec w :=
  (word >>> range.low) &&& BitVec.ofNat w (2 ^ range.length - 1)

def replace (word : BitVec w) (range : Range w) (value : BitVec w) : BitVec w :=
  (word &&& ~~~(BitVec.ofNat w (2 ^ range.length - 1) <<< range.low)) ||| (value <<< range.low)

def setBits (word : BitVec w) (range : Range w) (value : BitVec w) : Checked (BitVec w) := do
  Checked.assert (decide (value.toNat < 2 ^ range.length)) "value does not fit into bit range"
  return replace word range value

variable {word value source : BitVec w} {range target : Range w} {low length start i : Nat}

theorem setBits_of_lt (word : BitVec w) (h : value.toNat < 2 ^ range.length) :
    setBits word range value = .ok (replace word range value) := by
  rw [setBits, decide_eq_true h]
  rfl

theorem getLsbD_ones (w length i : Nat) :
    (BitVec.ofNat w (2 ^ length - 1)).getLsbD i = (decide (i < w) && decide (i < length)) := by
  rw [BitVec.getLsbD_ofNat, Nat.testBit_two_pow_sub_one]

theorem getLsbD_of_toNat_lt (h : value.toNat < 2 ^ length) (hi : length ≤ i) :
    value.getLsbD i = false := by
  rw [← BitVec.testBit_toNat]
  exact Nat.testBit_lt_two_pow (Nat.lt_of_lt_of_le h (Nat.pow_le_pow_right (by decide) hi))

theorem getLsbD_getBits (word : BitVec w) (range : Range w) (i : Nat) :
    (getBits word range).getLsbD i =
      (decide (i < range.length) && word.getLsbD (range.low + i)) := by
  have hinside := range.inside
  rw [getBits, BitVec.getLsbD_and, BitVec.getLsbD_ushiftRight, getLsbD_ones, Bool.and_comm]
  by_cases hi : i < range.length
  · have hwidth : i < w := by omega
    simp [hi, hwidth]
  · simp [hi]

theorem toNat_getBits_lt (word : BitVec w) (range : Range w) :
    (getBits word range).toNat < 2 ^ range.length := by
  rw [getBits, BitVec.toNat_and, BitVec.toNat_ofNat]
  have hle := Nat.mod_le (2 ^ range.length - 1) (2 ^ w)
  have hpos := Nat.two_pow_pos range.length
  have hand := @Nat.and_le_right (word >>> range.low).toNat ((2 ^ range.length - 1) % 2 ^ w)
  omega

/-- A value that fits replaces its field and leaves all others. -/
theorem getLsbD_replace (word : BitVec w) (hspans : range.Spans low length)
    (h : value.toNat < 2 ^ length) (hi : i < w) :
    (replace word range value).getLsbD i =
      if low ≤ i ∧ i < low + length then value.getLsbD (i - low) else word.getLsbD i := by
  have hwidth : i - low < w := by omega
  simp only [replace, hspans.low, hspans.length, BitVec.getLsbD_or, BitVec.getLsbD_and,
    BitVec.getLsbD_not, BitVec.getLsbD_shiftLeft, getLsbD_ones, hi, hwidth, decide_true,
    Bool.true_and]
  by_cases hlow : i < low
  · have hout : ¬ (low ≤ i ∧ i < low + length) := by omega
    simp [hlow, hout]
  · by_cases hhigh : i < low + length
    · have hin : low ≤ i ∧ i < low + length := by omega
      have hsub : i - low < length := by omega
      simp [hlow, hin, hsub]
    · have hout : ¬ (low ≤ i ∧ i < low + length) := by omega
      have hbeyond : length ≤ i - low := by omega
      have hsub : ¬ i - low < length := by omega
      simp [hlow, hout, hsub, getLsbD_of_toNat_lt h hbeyond]

/-- A field that takes a field of another word. -/
theorem getLsbD_replace_getBits (word : BitVec w) (htarget : target.Spans low length)
    (hrange : range.Spans start length) (hi : i < w) :
    (replace word target (getBits source range)).getLsbD i =
      if low ≤ i ∧ i < low + length then source.getLsbD (start + (i - low))
      else word.getLsbD i := by
  have hfits : (getBits source range).toNat < 2 ^ length := by
    rw [← hrange.length]
    exact toNat_getBits_lt source range
  rw [getLsbD_replace word htarget hfits hi]
  by_cases hin : low ≤ i ∧ i < low + length
  · have hsub : i - low < length := by omega
    rw [if_pos hin, if_pos hin, getLsbD_getBits, hrange.low, hrange.length, decide_eq_true hsub,
      Bool.true_and]
  · rw [if_neg hin, if_neg hin]

end BitField
