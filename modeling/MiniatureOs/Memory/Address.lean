import MiniatureOs.Lib.Checked

/-! # Addresses, frames and pages

`x86_64/src/memory.rs`: the two page sizes, physical frames and virtual pages.
An address is a natural number below `2 ^ 64` wherever it comes out of checked
arithmetic. A frame or page carries the alignment that every constructor of the
source establishes, so an unaligned one cannot be built.
-/

namespace MiniatureOs

inductive PageSize where
  | size4KiB
  | size2MiB
  deriving Repr, DecidableEq

def PageSize.size : PageSize → Nat
  | .size4KiB => 0x1000
  | .size2MiB => 0x200000

theorem PageSize.size_pos (S : PageSize) : 0 < S.size := by
  cases S <;> decide

/-- `align_down`: for a power of two, clearing the low bits is subtracting the
remainder. -/
def alignDown (address align : Nat) : Nat :=
  address - address % align

/-- `align_up`, whose intermediate sum is checked. -/
def alignUp (address align : Nat) : Checked Nat := do
  let sum ← Checked.add 64 address align
  return alignDown (sum - 1) align

theorem alignDown_le (address align : Nat) : alignDown address align ≤ address :=
  Nat.sub_le _ _

theorem lt_alignDown_add {address align : Nat} (h : 0 < align) :
    address < alignDown address align + align := by
  have hmod := Nat.mod_lt address h
  have hle := Nat.mod_le address align
  unfold alignDown
  omega

theorem alignDown_mod (address align : Nat) : alignDown address align % align = 0 := by
  unfold alignDown
  exact Nat.sub_mod_eq_zero_of_mod_eq (Nat.mod_mod address align).symm

theorem alignDown_of_mod {address align : Nat} (h : address % align = 0) :
    alignDown address align = address := by
  simp [alignDown, h]

@[ext] structure PhysicalFrame (S : PageSize) where
  address : Nat
  aligned : address % S.size = 0
  deriving DecidableEq

@[ext] structure Page (S : PageSize) where
  address : Nat
  aligned : address % S.size = 0
  deriving DecidableEq

namespace PhysicalFrame

variable {S : PageSize}

/-- `PhysicalFrame::containing_address`. -/
def containingAddress (S : PageSize) (address : Nat) : PhysicalFrame S :=
  ⟨alignDown address S.size, alignDown_mod _ _⟩

/-- `PhysicalFrame::end`. -/
def endAddress (frame : PhysicalFrame S) : Checked Nat :=
  Checked.add 64 frame.address S.size

/-- `Add<u64> for PhysicalFrame`: the address sum, aligned down again. -/
def add (frame : PhysicalFrame S) (n : Nat) : Checked (PhysicalFrame S) := do
  let distance ← Checked.mul 64 n S.size
  let address ← Checked.add 64 frame.address distance
  return containingAddress S address

@[simp] theorem containingAddress_address (address : Nat) :
    (containingAddress S address).address = alignDown address S.size := rfl

theorem containingAddress_self (frame : PhysicalFrame S) :
    containingAddress S frame.address = frame := by
  ext
  exact alignDown_of_mod frame.aligned

theorem address_mod (frame : PhysicalFrame S) :
    frame.address % 4096 = 0 := by
  have hmod := frame.aligned
  cases S with
  | size4KiB => exact hmod
  | size2MiB =>
      simp only [PageSize.size] at hmod
      omega

end PhysicalFrame

namespace Page

variable {S : PageSize}

/-- `Page::containing_address`. -/
def containingAddress (S : PageSize) (address : Nat) : Page S :=
  ⟨alignDown address S.size, alignDown_mod _ _⟩

/-- `Page::end`. -/
def endAddress (page : Page S) : Checked Nat :=
  Checked.add 64 page.address S.size

/-- `Add<u64> for Page`: the address sum, aligned down again. -/
def add (page : Page S) (n : Nat) : Checked (Page S) := do
  let distance ← Checked.mul 64 n S.size
  let address ← Checked.add 64 page.address distance
  return containingAddress S address

@[simp] theorem containingAddress_address (address : Nat) :
    (containingAddress S address).address = alignDown address S.size := rfl

end Page

end MiniatureOs
