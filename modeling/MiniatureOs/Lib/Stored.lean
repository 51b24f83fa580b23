import MiniatureOs.Lib.ByteMemory

/-! # Data in memory

A memory contains a list of bytes at an address when it has them there one after the other.
Containing two lists in a row is containing the first, and the second behind it; so a record
is read field by field, and an array entry by entry. What is stored elsewhere changes none
of it. A memory with wrapping pointers is read in the same way below the end of its address
space.
-/

namespace ByteMemory

variable {m m' : ByteMemory} {address other : Nat} {data data' : List UInt8}

def Contains (m : ByteMemory) (address : Nat) (data : List UInt8) : Prop :=
  m.bytes address data.length = data

theorem contains_store (m : ByteMemory) (address : Nat) (data : List UInt8) :
    (m.store address data).Contains address data :=
  bytes_store m address data

theorem contains_append : m.Contains address (data ++ data') ↔
    m.Contains address data ∧ m.Contains (address + data.length) data' := by
  have hlength : (m.bytes address data.length).length = data.length := bytes_length _ _ _
  rw [Contains, List.length_append, bytes_add]
  constructor
  · intro h
    exact List.append_inj h hlength
  · rintro ⟨hfirst, hsecond⟩
    rw [hfirst, hsecond]

theorem Contains.congr (h : m.Contains address data)
    (hsame : ∀ x, address ≤ x → x < address + data.length → m' x = m x) :
    m'.Contains address data := by
  have hbytes : m'.bytes address data.length = m.bytes address data.length :=
    bytes_eq_iff.mpr fun i hi => hsame (address + i) (by omega) (by omega)
  exact hbytes.trans h

theorem Contains.store (h : m.Contains address data)
    (hapart : address + data.length ≤ other ∨ other + data'.length ≤ address) :
    (m.store other data').Contains address data :=
  h.congr fun _ _ _ => store_outside (by omega)

/-! ## Fields -/

def readField (m : ByteMemory) (address length : Nat) : Nat :=
  ofLittleEndian (m.bytes address length)

theorem Contains.readField {length value : Nat}
    (h : m.Contains address (toLittleEndian length value)) (hlt : value < 256 ^ length) :
    m.readField address length = value := by
  rw [Contains, toLittleEndian_length] at h
  rw [ByteMemory.readField, h, ofLittleEndian_toLittleEndian hlt]

theorem Contains.readWord {word : BitVec 64}
    (h : m.Contains address (toLittleEndian 8 word.toNat)) : m.readWord address = word := by
  have hfield : m.readField address 8 = word.toNat := h.readField word.isLt
  rw [ByteMemory.readField] at hfield
  rw [ByteMemory.readWord, hfield, BitVec.ofNat_toNat, BitVec.setWidth_eq]

/-! ## Writes of words -/

def writeWords (m : ByteMemory) : List (Nat × BitVec 64) → ByteMemory
  | [] => m
  | (address, word) :: writes => (m.writeWord address word).writeWords writes

theorem writeWords_append (m : ByteMemory) (writes writes' : List (Nat × BitVec 64)) :
    m.writeWords (writes ++ writes') = (m.writeWords writes).writeWords writes' := by
  induction writes generalizing m with
  | nil => rfl
  | cons first writes ih => exact ih _

theorem writeWords_outside {writes : List (Nat × BitVec 64)} {x : Nat}
    (h : ∀ write ∈ writes, ¬ (write.1 ≤ x ∧ x < write.1 + 8)) : m.writeWords writes x = m x := by
  induction writes generalizing m with
  | nil => rfl
  | cons first writes ih =>
      rw [writeWords, ih fun write hmem => h write (List.mem_cons_of_mem _ hmem)]
      exact writeWord_outside (h first List.mem_cons_self)

theorem readWord_writeWords_of_not_mem {writes : List (Nat × BitVec 64)}
    (haligned : ∀ write ∈ writes, write.1 % 8 = 0) (haddress : address % 8 = 0)
    (h : ∀ write ∈ writes, write.1 ≠ address) :
    (m.writeWords writes).readWord address = m.readWord address := by
  refine readWord_congr fun x hle hlt => writeWords_outside fun write hmem hin => ?_
  have hwrite := haligned write hmem
  have hne := h write hmem
  omega

theorem readWord_writeWords_of_mem {writes : List (Nat × BitVec 64)} {word : BitVec 64}
    (haligned : ∀ write ∈ writes, write.1 % 8 = 0) (haddress : address % 8 = 0)
    (hmem : (address, word) ∈ writes)
    (hone : ∀ write ∈ writes, write.1 = address → write.2 = word) :
    (m.writeWords writes).readWord address = word := by
  induction writes generalizing m with
  | nil => cases hmem
  | cons first writes ih =>
      have haligned' : ∀ write ∈ writes, write.1 % 8 = 0 := fun write hwrite =>
        haligned write (List.mem_cons_of_mem _ hwrite)
      have hone' : ∀ write ∈ writes, write.1 = address → write.2 = word := fun write hwrite =>
        hone write (List.mem_cons_of_mem _ hwrite)
      rw [writeWords]
      by_cases hlater : (address, word) ∈ writes
      · exact ih haligned' hlater hone'
      · -- the write in front is the last one to the address
        have hfirst : first = (address, word) := by
          cases List.mem_cons.mp hmem with
          | inl heq => exact heq.symm
          | inr hin => exact absurd hin hlater
        have hnone : ∀ write ∈ writes, write.1 ≠ address := by
          intro write hwrite heq
          have hword := hone' write hwrite heq
          exact hlater (heq ▸ hword ▸ hwrite)
        rw [readWord_writeWords_of_not_mem haligned' haddress hnone, hfirst, readWord_writeWord]

/-! ## Arrays -/

/-- The entry number `i` of an array lies behind `i` entries. -/
theorem Contains.entry {α : Type _} {encode : α → List UInt8} {size : Nat} {entries : List α}
    (h : m.Contains address (entries.flatMap encode)) (hsize : ∀ a, (encode a).length = size)
    {i : Nat} (hi : i < entries.length) :
    m.Contains (address + size * i) (encode entries[i]) := by
  have hfront : ((entries.take i).flatMap encode).length = size * i := by
    rw [List.length_flatMap, List.map_congr_left fun a _ => hsize a, List.map_const',
      List.sum_replicate_nat, List.length_take_of_le (Nat.le_of_lt hi), Nat.mul_comm]
  have hsplit : entries.flatMap encode = (entries.take i).flatMap encode ++
      (encode entries[i] ++ (entries.drop (i + 1)).flatMap encode) := by
    rw [← List.flatMap_cons, ← List.drop_eq_getElem_cons hi, ← List.flatMap_append,
      List.take_append_drop]
  rw [hsplit] at h
  have hbehind := (contains_append.mp h).2
  rw [hfront] at hbehind
  exact (contains_append.mp hbehind).1

end ByteMemory

/-! ## Wrapping pointers -/

namespace WrappedMemory

variable {w : Nat} {m : WrappedMemory w} {address x : Nat} {data : List UInt8} {word : BitVec 64}

/-- The memory by numbers, around and around. -/
def flat (m : WrappedMemory w) : ByteMemory := fun x => m (BitVec.ofNat w x)

theorem contains_flat_store (hfits : address + data.length ≤ 2 ^ w) :
    (m.store (BitVec.ofNat w address) data).flat.Contains address data := by
  refine List.ext_getElem (by simp) fun i hi hi' => ?_
  have hadd : BitVec.ofNat w (address + i) = BitVec.ofNat w address + BitVec.ofNat w i :=
    BitVec.ofNat_add _ _
  simp only [ByteMemory.bytes, List.getElem_map, List.getElem_range, flat, hadd]
  exact store_inside hi' (by omega)

theorem flat_store_outside (hfits : address + data.length ≤ 2 ^ w) (hx : x < 2 ^ w)
    (hout : ¬ (address ≤ x ∧ x < address + data.length)) :
    (m.store (BitVec.ofNat w address) data).flat x = m.flat x := by
  refine store_outside fun i hi heq => hout ?_
  have hnat := congrArg BitVec.toNat heq
  rw [← BitVec.ofNat_add, BitVec.toNat_ofNat, BitVec.toNat_ofNat, Nat.mod_eq_of_lt hx,
    Nat.mod_eq_of_lt (by omega)] at hnat
  omega

theorem flat_writeWord_outside (hfits : address + 8 ≤ 2 ^ w) (hx : x < 2 ^ w)
    (hout : ¬ (address ≤ x ∧ x < address + 8)) :
    (m.writeWord (BitVec.ofNat w address) word).flat x = m.flat x :=
  flat_store_outside (by rwa [toLittleEndian_length]) hx (by rwa [toLittleEndian_length])

end WrappedMemory
