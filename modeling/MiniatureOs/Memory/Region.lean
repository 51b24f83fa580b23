import MiniatureOs.Memory.Address

/-! # Memory regions

The region types of `x86_64/src/memory.rs` and of the E820 map in
`bios/common/src/lib.rs`. The three implementations of the `MemoryRegion` trait
compute `end` and `contains` by the same expressions, so these are defined once
over the trait's accessors. `contains` is inclusive at the upper end and only
computes the end of a region that starts low enough.
-/

namespace MiniatureOs

/-- `MemoryRegion`: the accessors, with the laws of a plain record. -/
class MemoryRegion (D : Type) where
  start : D → Nat
  size : D → Nat
  isUsable : D → Bool
  setStart : D → Nat → D
  setSize : D → Nat → D
  start_setStart : ∀ r s, start (setStart r s) = s
  size_setStart : ∀ r s, size (setStart r s) = size r
  isUsable_setStart : ∀ r s, isUsable (setStart r s) = isUsable r
  setStart_start : ∀ r, setStart r (start r) = r
  start_setSize : ∀ r s, start (setSize r s) = start r
  size_setSize : ∀ r s, size (setSize r s) = s

namespace MemoryRegion

attribute [simp] start_setStart size_setStart isUsable_setStart setStart_start
  start_setSize size_setSize

variable {D : Type} [MemoryRegion D]

/-- `MemoryRegion::end`. -/
def endAddress (region : D) : Checked Nat :=
  Checked.add 64 (start region) (size region)

/-- `MemoryRegion::contains`; `&&` computes the end only after the first test. -/
def contains (region : D) (address : Nat) : Checked Bool :=
  if start region ≤ address then do
    let last ← endAddress region
    return decide (address ≤ last)
  else return false

def Holds (region : D) (byte : Nat) : Prop :=
  start region ≤ byte ∧ byte < start region + size region

/-- The inclusive interval that `contains` tests. -/
def Reaches (region : D) (address : Nat) : Prop :=
  start region ≤ address ∧ address ≤ start region + size region

instance (region : D) (byte : Nat) : Decidable (Holds region byte) :=
  inferInstanceAs (Decidable (_ ∧ _))

instance (region : D) (address : Nat) : Decidable (Reaches region address) :=
  inferInstanceAs (Decidable (_ ∧ _))

def Fits (region : D) : Prop :=
  start region + size region < 2 ^ 64

instance (region : D) : Decidable (Fits region) :=
  inferInstanceAs (Decidable (_ < _))

def PageAligned (region : D) : Prop :=
  start region % 0x1000 = 0 ∧ size region % 0x1000 = 0

instance (region : D) : Decidable (PageAligned region) :=
  inferInstanceAs (Decidable (_ ∧ _))

theorem endAddress_eq_ok {region : D} {last : Nat} :
    endAddress region = .ok last ↔ Fits region ∧ last = start region + size region :=
  Checked.add_eq_ok

theorem endAddress_of_fits {region : D} (h : Fits region) :
    endAddress region = .ok (start region + size region) :=
  Checked.add_of_lt h

theorem endAddress_of_not_fits {region : D} (h : ¬ Fits region) :
    endAddress region = .error .overflow :=
  if_neg h

/-- `contains` returns `true` exactly on the inclusive interval of a region
whose end is representable. -/
theorem contains_eq_true {region : D} {address : Nat} :
    contains region address = .ok true ↔ Fits region ∧ Reaches region address := by
  unfold contains Reaches
  by_cases hstart : start region ≤ address
  · by_cases hfits : Fits region
    · simp [hstart, hfits, endAddress_of_fits hfits]
    · simp [hstart, hfits, endAddress_of_not_fits hfits]
  · simp [hstart]

theorem contains_eq_false {region : D} {address : Nat} :
    contains region address = .ok false ↔
      address < start region ∨ (Fits region ∧ start region + size region < address) := by
  unfold contains
  by_cases hstart : start region ≤ address
  · have hlow : ¬ address < start region := by omega
    by_cases hfits : Fits region
    · simp [hstart, hlow, hfits, endAddress_of_fits hfits]
    · simp [hstart, hlow, hfits, endAddress_of_not_fits hfits]
  · have hlow : address < start region := by omega
    simp [hstart, hlow]

end MemoryRegion

/-! ## The three implementations -/

/-- `Region`, used by the heap for a chunk in flight. -/
@[ext] structure Region where
  start : Nat
  size : Nat
  deriving Repr, DecidableEq

instance : MemoryRegion Region where
  start := Region.start
  size := Region.size
  isUsable _ := true
  setStart r s := { r with start := s }
  setSize r s := { r with size := s }
  start_setStart _ _ := rfl
  size_setStart _ _ := rfl
  isUsable_setStart _ _ := rfl
  setStart_start _ := rfl
  start_setSize _ _ := rfl
  size_setSize _ _ := rfl

inductive PhysicalMemoryRegionType where
  | reserved
  | free
  | used
  deriving Repr, DecidableEq

/-- `PhysicalMemoryRegion`, the entries of the map handed to the kernel. -/
@[ext] structure PhysicalMemoryRegion where
  start : Nat
  size : Nat
  typ : PhysicalMemoryRegionType
  deriving Repr, DecidableEq

instance : MemoryRegion PhysicalMemoryRegion where
  start := PhysicalMemoryRegion.start
  size := PhysicalMemoryRegion.size
  isUsable r := r.typ == .free
  setStart r s := { r with start := s }
  setSize r s := { r with size := s }
  start_setStart _ _ := rfl
  size_setStart _ _ := rfl
  isUsable_setStart _ _ := rfl
  setStart_start _ := rfl
  start_setSize _ _ := rfl
  size_setSize _ _ := rfl

inductive E820MemoryRegionType where
  | none
  | normal
  | reserved
  | acpiReclaimable
  | acpiNvs
  | unusable
  deriving Repr, DecidableEq

/-- `E820MemoryRegion`, one descriptor reported by the BIOS. -/
@[ext] structure E820MemoryRegion where
  start : Nat
  size : Nat
  typ : E820MemoryRegionType
  acpiExtendedAttributes : Nat
  deriving Repr, DecidableEq

instance : MemoryRegion E820MemoryRegion where
  start := E820MemoryRegion.start
  size := E820MemoryRegion.size
  isUsable r := r.typ == .normal
  setStart r s := { r with start := s }
  setSize r s := { r with size := s }
  start_setStart _ _ := rfl
  size_setStart _ _ := rfl
  isUsable_setStart _ _ := rfl
  setStart_start _ := rfl
  start_setSize _ _ := rfl
  size_setSize _ _ := rfl

/-- `Into<PhysicalMemoryRegionType> for E820MemoryRegionType`. -/
def E820MemoryRegionType.toPhysical : E820MemoryRegionType → PhysicalMemoryRegionType
  | .normal => .free
  | _ => .reserved

/-- `Into<PhysicalMemoryRegion> for E820MemoryRegion`. -/
def E820MemoryRegion.toPhysical (region : E820MemoryRegion) : PhysicalMemoryRegion :=
  ⟨region.start, region.size, region.typ.toPhysical⟩

end MiniatureOs
