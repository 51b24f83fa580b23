import MiniatureOs.Boot.Gdt

/-! # Segment descriptors read back

The processor's layout of segment descriptors, and that the encoders of `gdt.rs` lose
nothing. A word is given bit by bit: every bit of a descriptor belongs to one field, and
each `set_bits` only changes the bits of its own.
-/

namespace MiniatureOs

open BitField SegmentDescriptor

/-! ## Fields of a word -/

theorem getLsbD_masked {value mask : BitVec 32} {length : Nat} (j : Nat)
    (hmask : mask = BitVec.ofNat 32 (2 ^ length - 1)) :
    ((value &&& mask).setWidth 64).getLsbD j = (decide (j < length) && value.getLsbD j) := by
  rw [hmask, BitVec.getLsbD_setWidth, BitVec.getLsbD_and, getLsbD_ones]
  by_cases hj : j < 32
  · have hwidth : j < 64 := by omega
    simp [hj, hwidth, Bool.and_comm]
  · simp [BitVec.getLsbD_of_ge value j (by omega)]

theorem toNat_masked_lt (value : BitVec 32) {mask : BitVec 32} {length : Nat}
    (hmask : mask = BitVec.ofNat 32 (2 ^ length - 1)) :
    ((value &&& mask).setWidth 64).toNat < 2 ^ length := by
  rw [hmask, BitVec.toNat_setWidth, BitVec.toNat_and, BitVec.toNat_ofNat]
  have hpos := Nat.two_pow_pos length
  have hmod := Nat.mod_le (2 ^ length - 1) (2 ^ 32)
  have hand := @Nat.and_le_right value.toNat ((2 ^ length - 1) % 2 ^ 32)
  have hwide := Nat.mod_le (value.toNat &&& (2 ^ length - 1) % 2 ^ 32) (2 ^ 64)
  omega

theorem getLsbD_replace_masked {word : BitVec 64} {value mask : BitVec 32} {range : Range 64}
    {low length i : Nat} (hspans : range.Spans low length)
    (hmask : mask = BitVec.ofNat 32 (2 ^ length - 1)) (hi : i < 64) :
    (replace word range ((value &&& mask).setWidth 64)).getLsbD i =
      if low ≤ i ∧ i < low + length then value.getLsbD (i - low) else word.getLsbD i := by
  rw [getLsbD_replace word hspans (toNat_masked_lt value hmask) hi]
  by_cases hin : low ≤ i ∧ i < low + length
  · have hsub : i - low < length := by omega
    rw [if_pos hin, if_pos hin, getLsbD_masked (i - low) hmask, decide_eq_true hsub, Bool.true_and]
  · rw [if_neg hin, if_neg hin]

/-! The fields of a descriptor, as numbers. -/

theorem spans_limitLowBits : limitLowBits.Spans 0 16 := ⟨rfl, rfl⟩
theorem spans_baseLowBits : baseLowBits.Spans 16 24 := ⟨rfl, rfl⟩
theorem spans_typeBits : typeBits.Spans 40 4 := ⟨rfl, rfl⟩
theorem spans_limitHighBits : limitHighBits.Spans 48 4 := ⟨rfl, rfl⟩
theorem spans_baseHighBits : baseHighBits.Spans 56 8 := ⟨rfl, rfl⟩

theorem getLsbD_parts (upper lower : BitVec 64) (high low n m i : Nat) :
    (upper.extractLsb' high n ++ lower.extractLsb' low m).getLsbD i =
      if i < m then lower.getLsbD (low + i)
      else (decide (i - m < n) && upper.getLsbD (high + (i - m))) := by
  rw [BitVec.getLsbD_append, BitVec.getLsbD_extractLsb', BitVec.getLsbD_extractLsb']
  by_cases hi : i < m
  · rw [if_pos hi, if_pos hi, decide_eq_true hi, Bool.true_and]
  · rw [if_neg hi, if_neg hi]

/-! ## The layout of user segments -/

@[ext] structure UserFields where
  flags : BitVec 64
  limit : BitVec 32
  base : BitVec 32
  deriving DecidableEq

def flagBits : BitVec 64 := (0xff#64 <<< 40) ||| (0xf#64 <<< 52)

/-- Limit in bits 0-15 and 48-51, base in bits 16-39 and 56-63. -/
def decodeUser (word : BitVec 64) : UserFields where
  flags := word &&& flagBits
  limit := (word.extractLsb' 48 4 ++ word.extractLsb' 0 16).setWidth 32
  base := word.extractLsb' 56 8 ++ word.extractLsb' 16 24

def SegmentDescriptorFlags.Declared (flags : SegmentDescriptorFlags) : Prop :=
  flags &&& ~~~SegmentDescriptorFlags.all = 0

instance (flags : SegmentDescriptorFlags) : Decidable flags.Declared :=
  inferInstanceAs (Decidable (_ = _))

theorem getLsbD_flagBits :
    ∀ i < 64, flagBits.getLsbD i = decide (40 ≤ i ∧ i < 48 ∨ 52 ≤ i ∧ i < 56) := by
  decide

theorem getLsbD_all_imp : ∀ i < 64, SegmentDescriptorFlags.all.getLsbD i = true →
    40 ≤ i ∧ i < 48 ∨ 52 ≤ i ∧ i < 56 := by
  decide

/-- The declared flags stay clear of the limit and the base. -/
theorem SegmentDescriptorFlags.Declared.getLsbD {flags : SegmentDescriptorFlags}
    (h : flags.Declared) {i : Nat} (hi : i < 64) (hfield : ¬ (40 ≤ i ∧ i < 48 ∨ 52 ≤ i ∧ i < 56)) :
    BitVec.getLsbD flags i = false := by
  have hbit := congrArg (BitVec.getLsbD · i) h
  simp only [BitVec.getLsbD_and, BitVec.getLsbD_not, hi, decide_true, Bool.true_and] at hbit
  cases hall : SegmentDescriptorFlags.all.getLsbD i with
  | true => exact absurd (getLsbD_all_imp i hi hall) hfield
  | false =>
      rw [hall] at hbit
      simpa using hbit

section User

variable {flags : SegmentDescriptorFlags} {limit base : BitVec 32}

def baseWord (flags : SegmentDescriptorFlags) (base : BitVec 32) : BitVec 64 :=
  if base ≠ 0 then
    replace (replace flags baseLowBits ((base &&& 0xffffff).setWidth 64)) baseHighBits
      (((base >>> 24) &&& 0xff).setWidth 64)
  else flags

def userWord (flags : SegmentDescriptorFlags) (limit base : BitVec 32) : BitVec 64 :=
  replace (replace (baseWord flags base) limitLowBits ((limit &&& 0xffff).setWidth 64))
    limitHighBits (((limit >>> 16) &&& 0xf).setWidth 64)

/-- Every value fits its field. -/
theorem newUser_eq (flags : SegmentDescriptorFlags) (limit base : BitVec 32) :
    SegmentDescriptor.newUser flags limit base = .ok (.user (userWord flags limit base)) := by
  have hlimitLow : ∀ word : BitVec 64,
      setBits word limitLowBits ((limit &&& 0xffff).setWidth 64) = .ok _ := fun word =>
    setBits_of_lt word (toNat_masked_lt limit rfl)
  have hlimitHigh : ∀ word : BitVec 64,
      setBits word limitHighBits (((limit >>> 16) &&& 0xf).setWidth 64) = .ok _ := fun word =>
    setBits_of_lt word (toNat_masked_lt _ rfl)
  have hbaseLow : ∀ word : BitVec 64,
      setBits word baseLowBits ((base &&& 0xffffff).setWidth 64) = .ok _ := fun word =>
    setBits_of_lt word (toNat_masked_lt base rfl)
  have hbaseHigh : ∀ word : BitVec 64,
      setBits word baseHighBits (((base >>> 24) &&& 0xff).setWidth 64) = .ok _ := fun word =>
    setBits_of_lt word (toNat_masked_lt _ rfl)
  rw [SegmentDescriptor.newUser, userWord, baseWord]
  by_cases hzero : base ≠ 0
  · simp only [if_pos hzero, hbaseLow, hbaseHigh, hlimitLow, hlimitHigh, Checked.ok_bind,
      Checked.pure_eq_ok]
  · simp only [if_neg hzero, hlimitLow, hlimitHigh, Checked.ok_bind, Checked.pure_eq_ok]

/-- Nothing is written for a base of zero, whose bits are clear already. -/
theorem getLsbD_baseWord (hflags : flags.Declared) {i : Nat} (hi : i < 64) :
    (baseWord flags base).getLsbD i =
      if 16 ≤ i ∧ i < 40 then base.getLsbD (i - 16)
      else if 56 ≤ i then base.getLsbD (24 + (i - 56))
      else BitVec.getLsbD flags i := by
  rw [baseWord]
  by_cases hzero : base = 0
  · have hbase : ∀ j, base.getLsbD j = false := by
      intro j
      rw [hzero]
      exact BitVec.getLsbD_zero
    rw [if_neg (not_not.mpr hzero), hbase, hbase]
    split
    · exact hflags.getLsbD hi (by omega)
    · split
      · exact hflags.getLsbD hi (by omega)
      · rfl
  · have hlow : (0xffffff : BitVec 32) = BitVec.ofNat 32 (2 ^ 24 - 1) := rfl
    have hhigh : (0xff : BitVec 32) = BitVec.ofNat 32 (2 ^ 8 - 1) := rfl
    rw [if_pos hzero, getLsbD_replace_masked spans_baseHighBits hhigh hi,
      getLsbD_replace_masked spans_baseLowBits hlow hi, BitVec.getLsbD_ushiftRight]
    by_cases hhigh : 56 ≤ i
    · have hlow : ¬ (16 ≤ i ∧ i < 40) := by omega
      have hin : 56 ≤ i ∧ i < 56 + 8 := by omega
      rw [if_pos hin, if_neg hlow, if_pos hhigh]
    · have hout : ¬ (56 ≤ i ∧ i < 56 + 8) := by omega
      rw [if_neg hout, if_neg hhigh]

/-- Every bit of a user segment belongs to the limit, the base or the flags. -/
theorem getLsbD_userWord (hflags : flags.Declared) {i : Nat} (hi : i < 64) :
    (userWord flags limit base).getLsbD i =
      if i < 16 then limit.getLsbD i
      else if i < 40 then base.getLsbD (i - 16)
      else if 48 ≤ i ∧ i < 52 then limit.getLsbD (16 + (i - 48))
      else if 56 ≤ i then base.getLsbD (24 + (i - 56))
      else BitVec.getLsbD flags i := by
  have hlow : (0xffff : BitVec 32) = BitVec.ofNat 32 (2 ^ 16 - 1) := rfl
  have hhigh : (0xf : BitVec 32) = BitVec.ofNat 32 (2 ^ 4 - 1) := rfl
  rw [userWord, getLsbD_replace_masked spans_limitHighBits hhigh hi,
    getLsbD_replace_masked spans_limitLowBits hlow hi, getLsbD_baseWord hflags hi,
    BitVec.getLsbD_ushiftRight]
  by_cases hlimit : i < 16
  · rw [if_neg (by omega), if_pos (by omega), if_pos hlimit, Nat.sub_zero]
  · rw [if_neg hlimit, if_neg (show ¬ (0 ≤ i ∧ i < 0 + 16) by omega)]
    by_cases hbase : i < 40
    · rw [if_neg (by omega), if_pos (by omega), if_pos hbase]
    · rw [if_neg hbase, if_neg (show ¬ (16 ≤ i ∧ i < 40) by omega)]

theorem decodeUser_flags (hflags : flags.Declared) :
    (decodeUser (userWord flags limit base)).flags = flags := by
  apply BitVec.eq_of_getLsbD_eq
  intro i hi
  rw [decodeUser, BitVec.getLsbD_and, getLsbD_flagBits i hi, getLsbD_userWord hflags hi]
  by_cases hfield : 40 ≤ i ∧ i < 48 ∨ 52 ≤ i ∧ i < 56
  · rw [if_neg (by omega), if_neg (by omega), if_neg (by omega), if_neg (by omega),
      decide_eq_true hfield, Bool.and_true]
  · rw [decide_eq_false hfield, Bool.and_false, hflags.getLsbD hi hfield]

theorem decodeUser_limit (hflags : flags.Declared) (hlimit : limit.toNat < 2 ^ 20) :
    (decodeUser (userWord flags limit base)).limit = limit := by
  apply BitVec.eq_of_getLsbD_eq
  intro i hi
  rw [decodeUser, BitVec.getLsbD_setWidth, decide_eq_true hi, Bool.true_and, getLsbD_parts]
  by_cases hlow : i < 16
  · rw [if_pos hlow, getLsbD_userWord hflags (by omega), if_pos (by omega), Nat.zero_add]
  · rw [if_neg hlow]
    by_cases hhigh : i < 20
    · have hplace : 16 + (48 + (i - 16) - 48) = i := by omega
      rw [decide_eq_true (show i - 16 < 4 by omega), Bool.true_and,
        getLsbD_userWord hflags (by omega), if_neg (by omega), if_neg (by omega),
        if_pos (by omega), hplace]
    · rw [decide_eq_false (show ¬ i - 16 < 4 by omega), Bool.false_and, ← BitVec.testBit_toNat,
        Nat.testBit_lt_two_pow]
      exact Nat.lt_of_lt_of_le hlimit (Nat.pow_le_pow_right (by decide) (by omega))

theorem decodeUser_base (hflags : flags.Declared) :
    (decodeUser (userWord flags limit base)).base = base := by
  apply BitVec.eq_of_getLsbD_eq
  intro i hi
  rw [decodeUser, getLsbD_parts]
  by_cases hlow : i < 24
  · have hplace : 16 + i - 16 = i := by omega
    rw [if_pos hlow, getLsbD_userWord hflags (by omega), if_neg (by omega), if_pos (by omega),
      hplace]
  · have hplace : 24 + (56 + (i - 24) - 56) = i := by omega
    rw [if_neg hlow, decide_eq_true (show i - 24 < 8 by omega), Bool.true_and,
      getLsbD_userWord hflags (by omega), if_neg (by omega), if_neg (by omega), if_neg (by omega),
      if_pos (by omega), hplace]

theorem decodeUser_userWord (hflags : flags.Declared) (hlimit : limit.toNat < 2 ^ 20) :
    decodeUser (userWord flags limit base) = ⟨flags, limit, base⟩ :=
  UserFields.ext (decodeUser_flags hflags) (decodeUser_limit hflags hlimit)
    (decodeUser_base hflags)

end User

/-! ## The layout of system segments -/

@[ext] structure SystemFields where
  limit : BitVec 20
  base : BitVec 64
  kind : BitVec 4
  userSegment : Bool
  privilege : BitVec 2
  present : Bool
  flags : BitVec 4
  reserved : BitVec 32
  deriving DecidableEq

def decodeSystem (low high : BitVec 64) : SystemFields where
  limit := low.extractLsb' 48 4 ++ low.extractLsb' 0 16
  base := high.extractLsb' 0 32 ++ (low.extractLsb' 56 8 ++ low.extractLsb' 16 24)
  kind := low.extractLsb' 40 4
  userSegment := low.getLsbD 44
  privilege := low.extractLsb' 45 2
  present := low.getLsbD 47
  flags := low.extractLsb' 52 4
  reserved := high.extractLsb' 32 32

namespace SegmentDescriptor

def systemFields : SegmentDescriptor → Option SystemFields
  | .user _ => none
  | .system low high => some (decodeSystem low high)

def tssLow (ptr : BitVec 64) : BitVec 64 :=
  replace (replace (replace (replace SegmentDescriptorFlags.present baseLowBits
    (getBits ptr addressLowBits)) baseHighBits (getBits ptr addressHighBits)) limitLowBits
    (BitVec.ofNat 64 (taskStateSegmentSize - 1))) typeBits
    SystemSegmentType.tssAvailable.toBits

def tssHigh (ptr : BitVec 64) : BitVec 64 := replace 0 baseUpperBits (getBits ptr addressUpperBits)

theorem newTssSegment_eq (ptr : BitVec 64) :
    newTssSegment ptr = .ok (.system (tssLow ptr) (tssHigh ptr)) := by
  have hlimit : (BitVec.ofNat 64 (taskStateSegmentSize - 1)).toNat <
      2 ^ limitLowBits.length := by decide
  have hkind : SystemSegmentType.tssAvailable.toBits.toNat < 2 ^ typeBits.length := by
    decide
  -- a part of the address has as many bits as its field
  have hbaseLow : ∀ word : BitVec 64,
      setBits word baseLowBits (getBits ptr addressLowBits) = .ok _ := fun word =>
    setBits_of_lt word (toNat_getBits_lt ptr addressLowBits)
  have hbaseHigh : ∀ word : BitVec 64,
      setBits word baseHighBits (getBits ptr addressHighBits) = .ok _ := fun word =>
    setBits_of_lt word (toNat_getBits_lt ptr addressHighBits)
  have hhigh : setBits 0 baseUpperBits (getBits ptr addressUpperBits) = .ok _ :=
    setBits_of_lt 0 (toNat_getBits_lt ptr addressUpperBits)
  simp only [newTssSegment, hbaseLow, hbaseHigh, hhigh, setBits_of_lt _ hlimit,
    setBits_of_lt _ hkind, Checked.ok_bind, Checked.pure_eq_ok]
  rfl

theorem getLsbD_present :
    ∀ i < 64, BitVec.getLsbD SegmentDescriptorFlags.present i = decide (i = 47) := by
  decide

/-- Every bit of the lower word belongs to the limit, the address, the type or is constant. -/
theorem getLsbD_tssLow (ptr : BitVec 64) {i : Nat} (hi : i < 64) :
    (tssLow ptr).getLsbD i =
      if i < 16 then (BitVec.ofNat 64 (taskStateSegmentSize - 1)).getLsbD i
      else if i < 40 then ptr.getLsbD (i - 16)
      else if i < 44 then SystemSegmentType.tssAvailable.toBits.getLsbD (i - 40)
      else if 56 ≤ i then ptr.getLsbD (24 + (i - 56))
      else decide (i = 47) := by
  have hlow : addressLowBits.Spans 0 24 := ⟨rfl, rfl⟩
  have hhigh : addressHighBits.Spans 24 8 := ⟨rfl, rfl⟩
  rw [tssLow, getLsbD_replace _ spans_typeBits (by decide) hi,
    getLsbD_replace _ spans_limitLowBits (by decide) hi,
    getLsbD_replace_getBits _ spans_baseHighBits hhigh hi,
    getLsbD_replace_getBits _ spans_baseLowBits hlow hi, getLsbD_present i hi]
  by_cases hlimit : i < 16
  · rw [if_neg (by omega), if_pos (by omega), if_pos hlimit, Nat.sub_zero]
  · rw [if_neg hlimit, if_neg (show ¬ (0 ≤ i ∧ i < 0 + 16) by omega)]
    by_cases hbase : i < 40
    · rw [if_neg (by omega), if_neg (by omega), if_pos (by omega), if_pos hbase, Nat.zero_add]
    · rw [if_neg hbase]
      by_cases hkind : i < 44
      · rw [if_pos (by omega), if_pos hkind]
      · rw [if_neg (by omega), if_neg hkind]
        by_cases hhigh : 56 ≤ i
        · rw [if_pos (by omega), if_pos hhigh]
        · rw [if_neg (by omega), if_neg hhigh, if_neg (by omega)]

theorem getLsbD_tssHigh (ptr : BitVec 64) {i : Nat} (hi : i < 64) :
    (tssHigh ptr).getLsbD i = if i < 32 then ptr.getLsbD (32 + i) else false := by
  have hupper : baseUpperBits.Spans 0 32 := ⟨rfl, rfl⟩
  have haddress : addressUpperBits.Spans 32 32 := ⟨rfl, rfl⟩
  rw [tssHigh, getLsbD_replace_getBits _ hupper haddress hi]
  by_cases hlow : i < 32
  · rw [if_pos (by omega), if_pos hlow, Nat.sub_zero]
  · rw [if_neg (by omega), if_neg hlow]
    exact BitVec.getLsbD_zero

theorem decodeSystem_base (ptr : BitVec 64) :
    (decodeSystem (tssLow ptr) (tssHigh ptr)).base = ptr := by
  apply BitVec.eq_of_getLsbD_eq
  intro i hi
  have hsplit : (decodeSystem (tssLow ptr) (tssHigh ptr)).base.getLsbD i =
      if i < 32 then ((tssLow ptr).extractLsb' 56 8 ++ (tssLow ptr).extractLsb' 16 24).getLsbD i
      else ((tssHigh ptr).extractLsb' 0 32).getLsbD (i - 32) := BitVec.getLsbD_append
  rw [hsplit, getLsbD_parts, BitVec.getLsbD_extractLsb']
  by_cases hhigh : i < 32
  · rw [if_pos hhigh]
    by_cases hlow : i < 24
    · have hplace : 16 + i - 16 = i := by omega
      rw [if_pos hlow, getLsbD_tssLow ptr (by omega), if_neg (by omega), if_pos (by omega), hplace]
    · have hplace : 24 + (56 + (i - 24) - 56) = i := by omega
      rw [if_neg hlow, decide_eq_true (show i - 24 < 8 by omega), Bool.true_and,
        getLsbD_tssLow ptr (by omega), if_neg (by omega), if_neg (by omega), if_neg (by omega),
        if_pos (by omega), hplace]
  · have hplace : 32 + (0 + (i - 32)) = i := by omega
    rw [if_neg hhigh, decide_eq_true (show i - 32 < 32 by omega), Bool.true_and,
      getLsbD_tssHigh ptr (by omega), if_pos (by omega), hplace]

theorem decodeSystem_limit (ptr : BitVec 64) :
    (decodeSystem (tssLow ptr) (tssHigh ptr)).limit =
      BitVec.ofNat 20 (taskStateSegmentSize - 1) := by
  have hbits : ∀ i < 20, (BitVec.ofNat 20 (taskStateSegmentSize - 1)).getLsbD i =
      if i < 16 then (BitVec.ofNat 64 (taskStateSegmentSize - 1)).getLsbD i else false := by
    decide
  apply BitVec.eq_of_getLsbD_eq
  intro i hi
  rw [hbits i hi, decodeSystem, getLsbD_parts]
  by_cases hlow : i < 16
  · rw [if_pos hlow, if_pos hlow, getLsbD_tssLow ptr (by omega), if_pos (by omega), Nat.zero_add]
  · rw [if_neg hlow, if_neg hlow, getLsbD_tssLow ptr (by omega), if_neg (by omega),
      if_neg (by omega), if_neg (by omega), if_neg (by omega),
      decide_eq_false (show ¬ 48 + (i - 16) = 47 by omega), Bool.and_false]

/-- Between the type and the upper part of the address only the present bit is set. -/
theorem getLsbD_tssLow_constant (ptr : BitVec 64) {i : Nat} (hlow : 44 ≤ i) (hhigh : i < 56) :
    (tssLow ptr).getLsbD i = decide (i = 47) := by
  rw [getLsbD_tssLow ptr (by omega), if_neg (by omega), if_neg (by omega), if_neg (by omega),
    if_neg (by omega)]

theorem decodeSystem_kind (ptr : BitVec 64) :
    (decodeSystem (tssLow ptr) (tssHigh ptr)).kind = 0x9 := by
  have hbits : ∀ i < 4, (0x9 : BitVec 4).getLsbD i =
      SystemSegmentType.tssAvailable.toBits.getLsbD i := by
    decide
  apply BitVec.eq_of_getLsbD_eq
  intro i hi
  have hplace : 40 + i - 40 = i := by omega
  rw [hbits i hi, decodeSystem, BitVec.getLsbD_extractLsb', decide_eq_true hi, Bool.true_and,
    getLsbD_tssLow ptr (by omega), if_neg (by omega), if_neg (by omega), if_pos (by omega), hplace]

theorem extract_eq_zero {word : BitVec 64} {low length : Nat}
    (h : ∀ i < length, word.getLsbD (low + i) = false) : word.extractLsb' low length = 0 := by
  apply BitVec.eq_of_getLsbD_eq
  intro i hi
  rw [BitVec.getLsbD_extractLsb', h i hi, Bool.and_false]
  exact BitVec.getLsbD_zero.symm

theorem extract_tssLow_constant (ptr : BitVec 64) {low length : Nat} (hlow : 44 ≤ low)
    (hhigh : low + length ≤ 56) (hpresent : ∀ i < length, low + i ≠ 47) :
    (tssLow ptr).extractLsb' low length = 0 := by
  apply extract_eq_zero
  intro i hi
  rw [getLsbD_tssLow_constant ptr (by omega) (by omega)]
  exact decide_eq_false (hpresent i hi)

theorem decodeSystem_tss (ptr : BitVec 64) : decodeSystem (tssLow ptr) (tssHigh ptr) =
    ⟨BitVec.ofNat 20 (taskStateSegmentSize - 1), ptr, 0x9, false, 0, true, 0, 0⟩ := by
  apply SystemFields.ext
  · exact decodeSystem_limit ptr
  · exact decodeSystem_base ptr
  · exact decodeSystem_kind ptr
  · exact getLsbD_tssLow_constant ptr (by decide) (by decide)
  · exact extract_tssLow_constant ptr (by decide) (by decide) (by decide)
  · exact getLsbD_tssLow_constant ptr (by decide) (by decide)
  · exact extract_tssLow_constant ptr (by decide) (by decide) (by decide)
  · apply extract_eq_zero
    intro i hi
    rw [getLsbD_tssHigh ptr (by omega), if_neg (by omega)]

theorem descriptorPrivilegeLevel_tss (ptr : BitVec 64) :
    descriptorPrivilegeLevel (.system (tssLow ptr) (tssHigh ptr)) = .ok .ring0 := by
  have hzero : (tssLow ptr >>> 45) &&& 0b11 = 0 := by
    apply BitVec.eq_of_getLsbD_eq
    intro i hi
    rw [BitVec.getLsbD_and, BitVec.getLsbD_ushiftRight]
    have hmask : ∀ i < 64, (0b11 : BitVec 64).getLsbD i = decide (i < 2) := by decide
    rw [hmask i hi]
    by_cases hlow : i < 2
    · rw [getLsbD_tssLow_constant ptr (by omega) (by omega),
        decide_eq_false (show ¬ 45 + i = 47 by omega), Bool.false_and]
      exact BitVec.getLsbD_zero.symm
    · rw [decide_eq_false hlow, Bool.and_false]
      exact BitVec.getLsbD_zero.symm
  rw [descriptorPrivilegeLevel]
  simp only [hzero]
  rfl

end SegmentDescriptor

/-! ## Nothing is lost -/

open SegmentDescriptor

structure LosslessDescriptors : Prop where
  user : ∀ (flags : SegmentDescriptorFlags) (limit base : BitVec 32), flags.Declared →
    limit.toNat < 2 ^ 20 → ∃ word, newUser flags limit base = .ok (.user word) ∧
      decodeUser word = ⟨flags, limit, base⟩
  user_injective : ∀ (flags flags' : SegmentDescriptorFlags) (limit limit' base base' : BitVec 32),
    flags.Declared → flags'.Declared → limit.toNat < 2 ^ 20 → limit'.toNat < 2 ^ 20 →
      newUser flags limit base = newUser flags' limit' base' →
        flags = flags' ∧ limit = limit' ∧ base = base'
  tss : ∀ ptr, (newTssSegment ptr).map systemFields =
    .ok (some ⟨BitVec.ofNat 20 (taskStateSegmentSize - 1), ptr, 0x9, false, 0, true, 0, 0⟩)
  tss_privilege : ∀ ptr, newTssSegment ptr >>= descriptorPrivilegeLevel = .ok .ring0
  tss_injective : Function.Injective newTssSegment

theorem losslessDescriptors : LosslessDescriptors := by
  refine ⟨?_, ?_, ?_, ?_, ?_⟩
  · intro flags limit base hflags hlimit
    exact ⟨_, newUser_eq flags limit base, decodeUser_userWord hflags hlimit⟩
  · intro flags flags' limit limit' base base' hflags hflags' hlimit hlimit' heq
    rw [newUser_eq, newUser_eq] at heq
    have hfields := congrArg decodeUser (SegmentDescriptor.user.inj (Except.ok.inj heq))
    rw [decodeUser_userWord hflags hlimit, decodeUser_userWord hflags' hlimit'] at hfields
    exact UserFields.mk.inj hfields
  · intro ptr
    rw [newTssSegment_eq, Except.map, systemFields, decodeSystem_tss]
  · intro ptr
    rw [newTssSegment_eq, Checked.ok_bind, descriptorPrivilegeLevel_tss]
  · intro ptr ptr' heq
    rw [newTssSegment_eq, newTssSegment_eq] at heq
    obtain ⟨hlow, hhigh⟩ := SegmentDescriptor.system.inj (Except.ok.inj heq)
    rw [← decodeSystem_base ptr, ← decodeSystem_base ptr', hlow, hhigh]

/-- The segments of protected mode span the whole of the 4 GiB. -/
example : (decodeUser (userWord SegmentDescriptorFlags.all 0xfffff 0)).limit = 0xfffff := by
  decide

end MiniatureOs
