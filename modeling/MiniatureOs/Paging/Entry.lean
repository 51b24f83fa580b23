import MiniatureOs.Memory.Address

/-! # Page table entries

`PageTableEntryFlags` and `PageTableEntry` of `x86_64/src/paging/mod.rs`, and the
index split of a virtual address in `x86_64/src/memory.rs`. An entry is a word:
bits 12 to 47 hold an address, and the flags are the bits below 12 and from 52 on.
-/

namespace MiniatureOs

def allFlags : BitVec 64 := 0xfff0000000000fff#64

@[ext] structure PageTableEntryFlags where
  bits : BitVec 64
  known : bits &&& allFlags = bits
  deriving DecidableEq, Repr

namespace PageTableEntryFlags

def none : PageTableEntryFlags := ⟨0, by decide⟩
def present : PageTableEntryFlags := ⟨1, by decide⟩
def writable : PageTableEntryFlags := ⟨1 <<< 1, by decide⟩
def userAccessible : PageTableEntryFlags := ⟨1 <<< 2, by decide⟩
def hugePage : PageTableEntryFlags := ⟨1 <<< 7, by decide⟩
def bit9 : PageTableEntryFlags := ⟨1 <<< 9, by decide⟩
def noExecute : PageTableEntryFlags := ⟨1 <<< 63, by decide⟩

instance : OrOp PageTableEntryFlags where
  or a b := ⟨a.bits ||| b.bits, by
    rw [BitVec.and_comm, BitVec.and_or_distrib_left, BitVec.and_comm, a.known, BitVec.and_comm,
      b.known]⟩

def contains (flags other : PageTableEntryFlags) : Bool :=
  flags.bits &&& other.bits == other.bits

def isEmpty (flags : PageTableEntryFlags) : Bool :=
  flags.bits == 0

def fromBitsTruncate (bits : BitVec 64) : PageTableEntryFlags :=
  ⟨bits &&& allFlags, by rw [BitVec.and_assoc, BitVec.and_self]⟩

end PageTableEntryFlags

abbrev PageTableEntry := BitVec 64

namespace PageTableEntry

def isPresent (entry : PageTableEntry) : Bool :=
  entry &&& PageTableEntryFlags.present.bits != 0

def isUnused (entry : PageTableEntry) : Bool :=
  entry == 0

/-- `address`: `get_bits(12..48) << 12`. -/
def address (entry : PageTableEntry) : Nat :=
  (entry.extractLsb' 12 36).toNat <<< 12

def physicalFrame (entry : PageTableEntry) : PhysicalFrame .size4KiB :=
  .containingAddress .size4KiB (address entry)

/-- The entry `set_address` stores. -/
def setAddress (address : Nat) (flags : PageTableEntryFlags) : PageTableEntry :=
  BitVec.ofNat 64 address ||| flags.bits

def flags (entry : PageTableEntry) : PageTableEntryFlags :=
  .fromBitsTruncate entry

def addFlags (entry : PageTableEntry) (flags : PageTableEntryFlags) : PageTableEntry :=
  entry ||| flags.bits

/-- The entry `set_unused` stores. -/
def unused : PageTableEntry := 0

end PageTableEntry

/-! ## The index split -/

/-- `l4_index`: bits 39 to 47. -/
def l4Index (address : Nat) : Fin 512 := ⟨address / 2 ^ 39 % 512, Nat.mod_lt _ (by decide)⟩

/-- `l3_index`: bits 30 to 38. -/
def l3Index (address : Nat) : Fin 512 := ⟨address / 2 ^ 30 % 512, Nat.mod_lt _ (by decide)⟩

/-- `l2_index`: bits 21 to 29. -/
def l2Index (address : Nat) : Fin 512 := ⟨address / 2 ^ 21 % 512, Nat.mod_lt _ (by decide)⟩

/-- `l1_index`: bits 12 to 20. -/
def l1Index (address : Nat) : Fin 512 := ⟨address / 2 ^ 12 % 512, Nat.mod_lt _ (by decide)⟩

/-- Bits 48 to 63 repeat bit 47. -/
def Canonical (address : Nat) : Prop :=
  address < 2 ^ 47 ∨ 2 ^ 64 - 2 ^ 47 ≤ address ∧ address < 2 ^ 64

instance (address : Nat) : Decidable (Canonical address) :=
  inferInstanceAs (Decidable (_ ∨ _))

theorem eq_of_canonical {a b : Nat} (ha : Canonical a) (hb : Canonical b)
    (h : a % 2 ^ 48 = b % 2 ^ 48) : a = b := by
  unfold Canonical at ha hb
  omega

/-- The 2 MiB slot of an address: bits 21 to 47. -/
def slotOf (address : Nat) : Nat := address / 2 ^ 21 % 2 ^ 27

theorem slotOf_eq (address : Nat) :
    slotOf address = (l4Index address).val * 2 ^ 18 + (l3Index address).val * 2 ^ 9 +
      (l2Index address).val := by
  unfold slotOf l4Index l3Index l2Index
  simp only
  omega

/-! ## Decoding what was encoded -/

theorem allFlags_getLsbD {i : Nat} (h : i < 64) :
    allFlags.getLsbD i = decide (i < 12 ∨ 52 ≤ i) := by
  have hall : ∀ i < 64, allFlags.getLsbD i = decide (i < 12 ∨ 52 ≤ i) := by decide
  exact hall i h

namespace PageTableEntryFlags

theorem bits_getLsbD {flags : PageTableEntryFlags} {i : Nat} (hle : 12 ≤ i) (hlt : i < 52) :
    flags.bits.getLsbD i = false := by
  have hbit := congrArg (BitVec.getLsbD · i) flags.known
  have hout : ¬ (i < 12 ∨ 52 ≤ i) := by omega
  simp only [BitVec.getLsbD_and, allFlags_getLsbD (show i < 64 by omega), hout, decide_false,
    Bool.and_false] at hbit
  exact hbit.symm

end PageTableEntryFlags

theorem and_one_eq_zero_or_one (word : BitVec 64) :
    word.getLsbD 0 = false ∧ word &&& 1 = 0 ∨ word.getLsbD 0 = true ∧ word &&& 1 = 1 := by
  have hand : word &&& 1 = (BitVec.ofBool (word.getLsbD 0)).setWidth 64 :=
    BitVec.and_one_eq_setWidth_ofBool_getLsbD
  rw [hand]
  cases word.getLsbD 0 <;> decide

namespace PageTableEntry

theorem isPresent_eq (entry : PageTableEntry) : isPresent entry = entry.getLsbD 0 := by
  unfold isPresent PageTableEntryFlags.present
  rcases and_one_eq_zero_or_one entry with ⟨hbit, hand⟩ | ⟨hbit, hand⟩
  · rw [hbit, hand]
    rfl
  · rw [hbit, hand]
    rfl

theorem contains_present_eq (flags : PageTableEntryFlags) :
    flags.contains .present = flags.bits.getLsbD 0 := by
  unfold PageTableEntryFlags.contains PageTableEntryFlags.present
  rcases and_one_eq_zero_or_one flags.bits with ⟨hbit, hand⟩ | ⟨hbit, hand⟩
  · rw [hbit, hand]
    rfl
  · rw [hbit, hand]
    rfl

theorem contains_present_flags (entry : PageTableEntry) :
    (flags entry).contains .present = isPresent entry := by
  have hflag : allFlags.getLsbD 0 = true := by decide
  rw [contains_present_eq, isPresent_eq, flags, PageTableEntryFlags.fromBitsTruncate,
    BitVec.getLsbD_and, hflag, Bool.and_true]

variable {addr : Nat} {entryFlags : PageTableEntryFlags}

theorem ofNat_getLsbD (haligned : addr % 4096 = 0) (hlt : addr < 2 ^ 48) {i : Nat}
    (h : i < 12 ∨ 48 ≤ i) : (BitVec.ofNat 64 addr).getLsbD i = false := by
  rw [BitVec.getLsbD_ofNat, Bool.and_eq_false_iff]
  right
  rcases h with hlow | hhigh
  · obtain ⟨q, rfl⟩ := Nat.dvd_of_mod_eq_zero haligned
    rw [show 4096 = 2 ^ 12 from rfl, Nat.testBit_two_pow_mul]
    simp [Nat.not_le.mpr hlow]
  · exact Nat.testBit_lt_two_pow (Nat.lt_of_lt_of_le hlt (Nat.pow_le_pow_right (by omega) hhigh))

/-- An address of at most 48 bits that starts a frame is read back. -/
theorem address_setAddress (haligned : addr % 4096 = 0) (hlt : addr < 2 ^ 48) :
    address (setAddress addr entryFlags) = addr := by
  have hflags : entryFlags.bits.extractLsb' 12 36 = 0#36 := by
    refine BitVec.eq_of_getLsbD_eq fun i hi => ?_
    rw [BitVec.getLsbD_extractLsb', entryFlags.bits_getLsbD (by omega) (by omega)]
    simp
  have haddr : ((BitVec.ofNat 64 addr).extractLsb' 12 36).toNat = addr / 4096 := by
    rw [BitVec.extractLsb'_toNat, BitVec.toNat_ofNat, Nat.shiftRight_eq_div_pow]
    omega
  rw [address, setAddress, BitVec.extractLsb'_or, hflags, BitVec.or_zero, haddr,
    Nat.shiftLeft_eq]
  omega

theorem flags_setAddress (haligned : addr % 4096 = 0) (hlt : addr < 2 ^ 48) :
    flags (setAddress addr entryFlags) = entryFlags := by
  ext1
  have haddr : BitVec.ofNat 64 addr &&& allFlags = 0#64 := by
    refine BitVec.eq_of_getLsbD_eq fun i hi => ?_
    rw [BitVec.getLsbD_and, allFlags_getLsbD hi]
    by_cases hflag : i < 12 ∨ 52 ≤ i
    · rw [ofNat_getLsbD haligned hlt (by omega)]
      simp
    · simp [hflag]
  have hsplit : (BitVec.ofNat 64 addr ||| entryFlags.bits) &&& allFlags =
      BitVec.ofNat 64 addr &&& allFlags ||| entryFlags.bits &&& allFlags := by
    rw [BitVec.and_comm, BitVec.and_or_distrib_left, BitVec.and_comm allFlags,
      BitVec.and_comm allFlags]
  change (BitVec.ofNat 64 addr ||| entryFlags.bits) &&& allFlags = entryFlags.bits
  rw [hsplit, haddr, entryFlags.known, BitVec.zero_or]

theorem isPresent_setAddress (haligned : addr % 4096 = 0) (hlt : addr < 2 ^ 48) :
    isPresent (setAddress addr entryFlags) = entryFlags.contains .present := by
  rw [isPresent_eq, contains_present_eq, setAddress, BitVec.getLsbD_or,
    ofNat_getLsbD haligned hlt (by omega), Bool.false_or]

end PageTableEntry

end MiniatureOs
