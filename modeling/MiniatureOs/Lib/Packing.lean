import MiniatureOs.Lib.ByteMemory

/-! # Numbers packed into bytes

A list of bytes is one number, lowest byte first, and a slice of the list is a
window of its bits. Cells of a fixed width are packed into a number the same way,
lowest cell first, so a cell is a window as well.
-/

theorem ofLittleEndian_append (xs ys : List UInt8) :
    ofLittleEndian (xs ++ ys) = ofLittleEndian xs + 256 ^ xs.length * ofLittleEndian ys := by
  induction xs with
  | nil => simp [ofLittleEndian]
  | cons b rest ih =>
      simp only [List.cons_append, ofLittleEndian, ih, List.length_cons, Nat.pow_succ,
        Nat.mul_add, Nat.mul_comm (256 ^ rest.length) 256, Nat.mul_assoc, Nat.add_assoc]

theorem ofLittleEndian_lt (xs : List UInt8) : ofLittleEndian xs < 256 ^ xs.length := by
  induction xs with
  | nil => simp [ofLittleEndian]
  | cons b rest ih =>
      have hb : b.toNat < 256 := b.toNat_lt
      simp only [ofLittleEndian, List.length_cons, Nat.pow_succ]
      omega

/-- A slice of the bytes is a window of the number. -/
theorem ofLittleEndian_slice {xs : List UInt8} {i n : Nat} (h : i + n ≤ xs.length) :
    ofLittleEndian ((xs.drop i).take n) = ofLittleEndian xs / 256 ^ i % 256 ^ n := by
  have hfront : (xs.take i).length = i := List.length_take_of_le (by omega)
  have hslice : ((xs.drop i).take n).length = n :=
    List.length_take_of_le (by rw [List.length_drop]; omega)
  have hsplit : xs = xs.take i ++ ((xs.drop i).take n ++ (xs.drop i).drop n) := by
    rw [List.take_append_drop, List.take_append_drop]
  have hlow := ofLittleEndian_lt (xs.take i)
  have hmiddle := ofLittleEndian_lt ((xs.drop i).take n)
  rw [hfront] at hlow
  rw [hslice] at hmiddle
  conv_rhs => rw [hsplit]
  rw [ofLittleEndian_append, ofLittleEndian_append, hfront, hslice,
    Nat.add_mul_div_left _ _ (Nat.pow_pos (by decide)), Nat.div_eq_of_lt hlow, Nat.zero_add,
    Nat.add_mul_mod_self_left, Nat.mod_eq_of_lt hmiddle]

/-- The number whose digits to base `2 ^ width` are the cells, lowest first. -/
def packCells (width : Nat) : List Nat → Nat
  | [] => 0
  | cell :: rest => cell + 2 ^ width * packCells width rest

theorem packCells_window {width : Nat} {cells : List Nat} (hlt : ∀ cell ∈ cells, cell < 2 ^ width)
    {i : Nat} (hi : i < cells.length) :
    packCells width cells / 2 ^ (width * i) % 2 ^ width = cells.get ⟨i, hi⟩ := by
  induction cells generalizing i with
  | nil => simp at hi
  | cons cell rest ih =>
      have hcell : cell < 2 ^ width := hlt cell List.mem_cons_self
      cases i with
      | zero =>
          rw [Nat.mul_zero, Nat.pow_zero, Nat.div_one, packCells, Nat.add_mul_mod_self_left,
            Nat.mod_eq_of_lt hcell]
          rfl
      | succ i =>
          have hrest : i < rest.length := by simpa using hi
          rw [Nat.mul_succ, Nat.add_comm, Nat.pow_add, ← Nat.div_div_eq_div_mul, packCells,
            Nat.add_mul_div_left _ _ (Nat.two_pow_pos width), Nat.div_eq_of_lt hcell,
            Nat.zero_add, ih (fun c hc => hlt c (List.mem_cons_of_mem _ hc)) hrest]
          rfl

/-- Cells of whole bytes are stored one after the other. -/
theorem ofLittleEndian_flatMap {length : Nat} {cells : List Nat}
    (hlt : ∀ cell ∈ cells, cell < 256 ^ length) :
    ofLittleEndian (cells.flatMap (toLittleEndian length)) = packCells (8 * length) cells := by
  induction cells with
  | nil => rfl
  | cons cell rest ih =>
      rw [List.flatMap_cons, ofLittleEndian_append, toLittleEndian_length,
        ofLittleEndian_toLittleEndian (hlt cell List.mem_cons_self),
        ih fun c hc => hlt c (List.mem_cons_of_mem _ hc), packCells, Nat.pow_mul]
