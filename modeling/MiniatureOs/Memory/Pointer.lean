import Mathlib.Data.List.Nodup
import Mathlib.Data.List.Perm.Subperm
import MiniatureOs.Lib.ByteMemory

/-! # Pointers that are not null

`core::ptr::NonNull`, without the type it points to. An `Option<NonNull<T>>` takes one
word of memory: the address, or zero for `None`.
-/

namespace MiniatureOs

@[ext] structure NonNull where
  address : Nat
  ne_zero : address ≠ 0
  lt : address < 2 ^ 64
  deriving DecidableEq, Repr

namespace NonNull

/-- `NonNull::new`. -/
def new (address : Nat) : Option NonNull :=
  if h : address ≠ 0 ∧ address < 2 ^ 64 then some ⟨address, h.1, h.2⟩ else none

theorem new_of_pos {address : Nat} (hpos : 0 < address) (hlt : address < 2 ^ 64) :
    new address = some ⟨address, Nat.ne_of_gt hpos, hlt⟩ :=
  dif_pos ⟨Nat.ne_of_gt hpos, hlt⟩

@[simp] theorem new_address (pointer : NonNull) : new pointer.address = some pointer :=
  dif_pos ⟨pointer.ne_zero, pointer.lt⟩

/-- The word that an `Option<NonNull<T>>` is stored as. -/
def toWord : Option NonNull → BitVec 64
  | none => 0
  | some pointer => BitVec.ofNat 64 pointer.address

/-- The `Option<NonNull<T>>` that a word stores. -/
def ofWord (word : BitVec 64) : Option NonNull :=
  new word.toNat

@[simp] theorem ofWord_toWord (pointer : Option NonNull) : ofWord (toWord pointer) = pointer := by
  cases pointer with
  | none => rfl
  | some pointer =>
      have hword : (BitVec.ofNat 64 pointer.address).toNat = pointer.address := by
        rw [BitVec.toNat_ofNat, Nat.mod_eq_of_lt pointer.lt]
      rw [toWord, ofWord, hword, new_address]

/-- Distinct pointers have distinct addresses, so there are fewer than `2 ^ 64`. -/
theorem length_lt_of_nodup {pointers : List NonNull} (hnodup : pointers.Nodup) :
    pointers.length < 2 ^ 64 := by
  have haddresses : (pointers.map address).Nodup := hnodup.map fun _ _ heq => NonNull.ext heq
  have hsubset : pointers.map address ⊆ List.range' 1 (2 ^ 64 - 1) := by
    intro address haddress
    obtain ⟨pointer, _, rfl⟩ := List.mem_map.mp haddress
    rw [List.mem_range'_1]
    have hne := pointer.ne_zero
    have hlt := pointer.lt
    omega
  have hle := (haddresses.subperm hsubset).length_le
  rw [List.length_map, List.length_range'] at hle
  omega

end NonNull

end MiniatureOs
