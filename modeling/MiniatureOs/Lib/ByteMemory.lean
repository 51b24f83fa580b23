import Mathlib.Algebra.Ring.Parity
import Mathlib.Data.List.Basic
import Mathlib.Tactic.Common

/-! # Byte-addressed memory

A memory gives every address a byte. A block copy replaces an interval by the
bytes of a source, and two copies that meet end to end are one copy. Words are
stored lowest byte first, and words that do not overlap do not affect each other.
Where pointers wrap around, a memory is indexed by bit vectors and a store of a
list of bytes wraps with them.
-/

abbrev ByteMemory := Nat → UInt8

namespace ByteMemory

def bytes (m : ByteMemory) (address length : Nat) : List UInt8 :=
  (List.range length).map fun i => m (address + i)

/-- Overwrite the `length` bytes at `target` with the bytes of `source` from
`origin` on. -/
def copy (m : ByteMemory) (target length : Nat) (source : ByteMemory) (origin : Nat) :
    ByteMemory :=
  fun x => if target ≤ x ∧ x < target + length then source (origin + (x - target)) else m x

@[simp] theorem bytes_length (m : ByteMemory) (address length : Nat) :
    (m.bytes address length).length = length := by
  simp [bytes]

theorem bytes_eq_iff {m m' : ByteMemory} {address address' length : Nat} :
    m.bytes address length = m'.bytes address' length ↔
      ∀ i < length, m (address + i) = m' (address' + i) := by
  simp [bytes]

theorem bytes_add (m : ByteMemory) (address n k : Nat) :
    m.bytes address (n + k) = m.bytes address n ++ m.bytes (address + n) k := by
  simp [bytes, List.range_add, Nat.add_assoc]

theorem bytes_slice (m : ByteMemory) (address : Nat) {length i n : Nat} (h : i + n ≤ length) :
    ((m.bytes address length).drop i).take n = m.bytes (address + i) n := by
  obtain ⟨rest, rfl⟩ := Nat.exists_eq_add_of_le h
  rw [bytes_add, bytes_add, List.append_assoc, List.drop_left' (bytes_length _ _ _),
    List.take_left' (bytes_length _ _ _)]

theorem copy_inside {m source : ByteMemory} {target length origin i : Nat} (h : i < length) :
    m.copy target length source origin (target + i) = source (origin + i) := by
  have hin : target ≤ target + i ∧ target + i < target + length := by omega
  simp [copy, hin]

theorem copy_outside {m source : ByteMemory} {target length origin x : Nat}
    (h : ¬ (target ≤ x ∧ x < target + length)) : m.copy target length source origin x = m x :=
  if_neg h

@[simp] theorem copy_zero (m source : ByteMemory) (target origin : Nat) :
    m.copy target 0 source origin = m := by
  funext x
  exact copy_outside (by omega)

theorem bytes_copy (m source : ByteMemory) (target length origin : Nat) :
    (m.copy target length source origin).bytes target length = source.bytes origin length :=
  bytes_eq_iff.mpr fun _ hi => copy_inside hi

theorem copy_copy (m source : ByteMemory) (target n k origin : Nat) :
    (m.copy target n source origin).copy (target + n) k source (origin + n) =
      m.copy target (n + k) source origin := by
  funext x
  unfold copy
  by_cases hsecond : target + n ≤ x ∧ x < target + n + k
  · have hboth : target ≤ x ∧ x < target + (n + k) := by omega
    rw [if_pos hsecond, if_pos hboth]
    congr 1
    omega
  · rw [if_neg hsecond]
    by_cases hfirst : target ≤ x ∧ x < target + n
    · have hboth : target ≤ x ∧ x < target + (n + k) := by omega
      rw [if_pos hfirst, if_pos hboth]
    · have hnone : ¬ (target ≤ x ∧ x < target + (n + k)) := by omega
      rw [if_neg hfirst, if_neg hnone]

end ByteMemory

def ofLittleEndian : List UInt8 → Nat
  | [] => 0
  | b :: rest => b.toNat + 256 * ofLittleEndian rest

/-- The lowest `length` digits of a number to base 256, lowest first. -/
def toLittleEndian : Nat → Nat → List UInt8
  | 0, _ => []
  | length + 1, n => UInt8.ofNat n :: toLittleEndian length (n / 256)

@[simp] theorem toLittleEndian_length (length n : Nat) :
    (toLittleEndian length n).length = length := by
  induction length generalizing n with
  | zero => rfl
  | succ length ih => simp [toLittleEndian, ih]

theorem ofLittleEndian_toLittleEndian {length n : Nat} (h : n < 256 ^ length) :
    ofLittleEndian (toLittleEndian length n) = n := by
  induction length generalizing n with
  | zero =>
      have hzero : n = 0 := by simpa using h
      simp [toLittleEndian, ofLittleEndian, hzero]
  | succ length ih =>
      have hdiv : n / 256 < 256 ^ length := by
        rw [Nat.pow_succ] at h
        exact Nat.div_lt_of_lt_mul (by omega)
      have hlow : (UInt8.ofNat n).toNat = n % 256 := UInt8.toNat_ofNat'
      simp only [toLittleEndian, ofLittleEndian, ih hdiv, hlow]
      omega

theorem ofLittleEndian_replicate_zero (length : Nat) :
    ofLittleEndian (List.replicate length 0) = 0 := by
  induction length with
  | zero => rfl
  | succ length ih => simp [List.replicate_succ, ofLittleEndian, ih]

namespace ByteMemory

/-! ## Stores -/

/-- Write the bytes at `address` and after it. -/
def store (m : ByteMemory) (address : Nat) (data : List UInt8) : ByteMemory :=
  fun x => if address ≤ x then data[x - address]?.getD (m x) else m x

def fill (m : ByteMemory) (address length : Nat) (b : UInt8) : ByteMemory :=
  fun x => if address ≤ x ∧ x < address + length then b else m x

theorem store_inside {m : ByteMemory} {address i : Nat} {data : List UInt8}
    (h : i < data.length) : m.store address data (address + i) = data[i] := by
  simp [store, h]

theorem store_outside {m : ByteMemory} {address x : Nat} {data : List UInt8}
    (h : ¬ (address ≤ x ∧ x < address + data.length)) : m.store address data x = m x := by
  by_cases hle : address ≤ x
  · have hnone : data[x - address]? = none := List.getElem?_eq_none (by omega)
    simp [store, hnone]
  · simp [store, hle]

@[simp] theorem store_nil (m : ByteMemory) (address : Nat) : m.store address [] = m := by
  funext x
  exact store_outside (by simp)

theorem bytes_store (m : ByteMemory) (address : Nat) (data : List UInt8) :
    (m.store address data).bytes address data.length = data := by
  refine List.ext_getElem (bytes_length _ _ _) fun i _ hi => ?_
  simp only [bytes, List.getElem_map, List.getElem_range]
  exact store_inside hi

theorem fill_inside {m : ByteMemory} {address length x : Nat} {b : UInt8} (hle : address ≤ x)
    (hlt : x < address + length) : m.fill address length b x = b :=
  if_pos ⟨hle, hlt⟩

theorem fill_outside {m : ByteMemory} {address length x : Nat} {b : UInt8}
    (h : ¬ (address ≤ x ∧ x < address + length)) : m.fill address length b x = m x :=
  if_neg h

/-! ## Words of 64 bits -/

def readWord (m : ByteMemory) (address : Nat) : BitVec 64 :=
  BitVec.ofNat 64 (ofLittleEndian (m.bytes address 8))

def writeWord (m : ByteMemory) (address : Nat) (word : BitVec 64) : ByteMemory :=
  m.store address (toLittleEndian 8 word.toNat)

theorem readWord_congr {m m' : ByteMemory} {address : Nat}
    (h : ∀ x, address ≤ x → x < address + 8 → m x = m' x) :
    m.readWord address = m'.readWord address := by
  have hbytes : m.bytes address 8 = m'.bytes address 8 :=
    bytes_eq_iff.mpr fun i hi => h (address + i) (by omega) (by omega)
  rw [readWord, readWord, hbytes]

theorem readWord_writeWord (m : ByteMemory) (address : Nat) (word : BitVec 64) :
    (m.writeWord address word).readWord address = word := by
  have hbytes := bytes_store m address (toLittleEndian 8 word.toNat)
  rw [toLittleEndian_length] at hbytes
  rw [readWord, writeWord, hbytes, ofLittleEndian_toLittleEndian word.isLt]
  simp

theorem writeWord_outside {m : ByteMemory} {address x : Nat} {word : BitVec 64}
    (h : ¬ (address ≤ x ∧ x < address + 8)) : m.writeWord address word x = m x :=
  store_outside (by rwa [toLittleEndian_length])

theorem readWord_writeWord_of_disjoint (m : ByteMemory) {address other : Nat}
    (word : BitVec 64) (h : other + 8 ≤ address ∨ address + 8 ≤ other) :
    (m.writeWord address word).readWord other = m.readWord other :=
  readWord_congr fun _ _ _ => writeWord_outside (by omega)

theorem bytes_store_part (m : ByteMemory) (address : Nat) (front part back : List UInt8) :
    (m.store address (front ++ part ++ back)).bytes (address + front.length) part.length =
      part := by
  have hfits : front.length + part.length ≤ (front ++ part ++ back).length := by
    simp only [List.length_append]
    omega
  rw [← bytes_slice _ _ hfits, bytes_store, List.append_assoc, List.drop_left, List.take_left]

theorem readWord_store_part (m : ByteMemory) (address : Nat) (front back : List UInt8)
    (word : BitVec 64) :
    (m.store address (front ++ toLittleEndian 8 word.toNat ++ back)).readWord
      (address + front.length) = word := by
  have hbytes := bytes_store_part m address front (toLittleEndian 8 word.toNat) back
  rw [toLittleEndian_length] at hbytes
  rw [readWord, hbytes, ofLittleEndian_toLittleEndian word.isLt]
  simp

theorem readWord_of_zero {m : ByteMemory} {address : Nat}
    (h : ∀ x, address ≤ x → x < address + 8 → m x = 0) : m.readWord address = 0 := by
  have hbytes : m.bytes address 8 = List.replicate 8 0 := by
    refine List.ext_getElem (by simp) fun i hi _ => ?_
    rw [bytes_length] at hi
    simp only [bytes, List.getElem_map, List.getElem_range, List.getElem_replicate]
    exact h (address + i) (by omega) (by omega)
  rw [readWord, hbytes, ofLittleEndian_replicate_zero]
  rfl

/-! ## Memory from an address on -/

def lower (address : Nat) (m : ByteMemory) : ByteMemory := fun i => m (address + i)

theorem readWord_lower (m : ByteMemory) (address i : Nat) :
    (m.lower address).readWord i = m.readWord (address + i) := by
  have hbytes : (m.lower address).bytes i 8 = m.bytes (address + i) 8 :=
    bytes_eq_iff.mpr fun j _ => congrArg m (Nat.add_assoc address i j).symm
  rw [readWord, readWord, hbytes]

end ByteMemory

/-! ## Memory with wrapping pointers -/

abbrev WrappedMemory (w : Nat) := BitVec w → UInt8

namespace WrappedMemory

variable {w : Nat}

/-- Write the bytes at `pointer` and after it, around the end of the address
space if need be. -/
def store (m : WrappedMemory w) (pointer : BitVec w) (bytes : List UInt8) : WrappedMemory w :=
  fun x => bytes[(x - pointer).toNat]?.getD (m x)

@[simp] theorem store_nil (m : WrappedMemory w) (pointer : BitVec w) : m.store pointer [] = m :=
  rfl

theorem store_inside {m : WrappedMemory w} {pointer : BitVec w} {bytes : List UInt8} {i : Nat}
    (hlt : i < bytes.length) (hfit : bytes.length ≤ 2 ^ w) :
    m.store pointer bytes (pointer + BitVec.ofNat w i) = bytes[i] := by
  have hi : (pointer + BitVec.ofNat w i - pointer).toNat = i := by
    rw [BitVec.add_comm, BitVec.add_sub_cancel, BitVec.toNat_ofNat,
      Nat.mod_eq_of_lt (Nat.lt_of_lt_of_le hlt hfit)]
  unfold store
  rw [hi, List.getElem?_eq_getElem hlt, Option.getD_some]

theorem store_outside {m : WrappedMemory w} {pointer : BitVec w} {bytes : List UInt8}
    {x : BitVec w} (h : ∀ i < bytes.length, x ≠ pointer + BitVec.ofNat w i) :
    m.store pointer bytes x = m x := by
  have hle : bytes.length ≤ (x - pointer).toNat := by
    by_contra hlt
    refine h (x - pointer).toNat (Nat.lt_of_not_le hlt) ?_
    rw [BitVec.ofNat_toNat, BitVec.setWidth_eq, BitVec.add_comm, BitVec.sub_add_cancel]
  rw [store, List.getElem?_eq_none hle]
  rfl

theorem sub_add_toNat (x pointer : BitVec w) {n : Nat} (hn : n < 2 ^ w) :
    (x - (pointer + BitVec.ofNat w n)).toNat =
      if n ≤ (x - pointer).toNat then (x - pointer).toNat - n
      else 2 ^ w - n + (x - pointer).toNat := by
  have hx := (x - pointer).isLt
  have hsub : x - (pointer + BitVec.ofNat w n) = x - pointer - BitVec.ofNat w n := by
    simp only [BitVec.sub_eq_add_neg, BitVec.neg_add, BitVec.add_assoc]
  rw [hsub, BitVec.toNat_sub, BitVec.toNat_ofNat, Nat.mod_eq_of_lt hn]
  split
  next hle =>
    rw [show 2 ^ w - n + (x - pointer).toNat = (x - pointer).toNat - n + 2 ^ w by omega,
      Nat.add_mod_right, Nat.mod_eq_of_lt (by omega)]
  next hgt => exact Nat.mod_eq_of_lt (by omega)

/-- A store right behind a store is a store of both lists. -/
theorem store_store (m : WrappedMemory w) (pointer : BitVec w) {first second : List UInt8}
    (hfit : first.length + second.length ≤ 2 ^ w) :
    (m.store pointer first).store (pointer + BitVec.ofNat w first.length) second =
      m.store pointer (first ++ second) := by
  cases second with
  | nil => simp
  | cons b rest =>
      have hlength : (b :: rest).length = rest.length + 1 := List.length_cons
      funext x
      simp only [store, sub_add_toNat x pointer (show first.length < 2 ^ w by omega)]
      by_cases hle : first.length ≤ (x - pointer).toNat
      · have hnone : first[(x - pointer).toNat]? = none := List.getElem?_eq_none hle
        rw [if_pos hle, List.getElem?_append_right hle, hnone]
        rfl
      · have hnone : (b :: rest)[2 ^ w - first.length + (x - pointer).toNat]? = none :=
          List.getElem?_eq_none (by omega)
        rw [if_neg hle, List.getElem?_append_left (by omega), hnone]
        rfl

def readWord (m : WrappedMemory w) (pointer : BitVec w) : BitVec 64 :=
  BitVec.ofNat 64 (ofLittleEndian ((List.range 8).map fun i => m (pointer + BitVec.ofNat w i)))

def writeWord (m : WrappedMemory w) (pointer : BitVec w) (word : BitVec 64) : WrappedMemory w :=
  m.store pointer (toLittleEndian 8 word.toNat)

theorem readWord_congr {m m' : WrappedMemory w} {pointer : BitVec w}
    (h : ∀ i < 8, m (pointer + BitVec.ofNat w i) = m' (pointer + BitVec.ofNat w i)) :
    m.readWord pointer = m'.readWord pointer := by
  have hbytes : (List.range 8).map (fun i => m (pointer + BitVec.ofNat w i)) =
      (List.range 8).map fun i => m' (pointer + BitVec.ofNat w i) :=
    List.map_congr_left fun i hi => h i (List.mem_range.mp hi)
  rw [readWord, readWord, hbytes]

theorem readWord_writeWord (m : WrappedMemory w) (pointer : BitVec w) (word : BitVec 64)
    (hfit : 8 ≤ 2 ^ w) : (m.writeWord pointer word).readWord pointer = word := by
  have hbytes : ((List.range 8).map fun i =>
      m.writeWord pointer word (pointer + BitVec.ofNat w i)) = toLittleEndian 8 word.toNat := by
    refine List.ext_getElem (by simp) fun i hi hi' => ?_
    rw [List.getElem_map, List.getElem_range, writeWord]
    exact store_inside hi' (by rwa [toLittleEndian_length])
  rw [readWord, hbytes, ofLittleEndian_toLittleEndian word.isLt, BitVec.ofNat_toNat,
    BitVec.setWidth_eq]

theorem writeWord_outside {m : WrappedMemory w} {pointer x : BitVec w} {word : BitVec 64}
    (h : ∀ i < 8, x ≠ pointer + BitVec.ofNat w i) : m.writeWord pointer word x = m x :=
  store_outside (by rwa [toLittleEndian_length])

end WrappedMemory
