import Mathlib.Data.List.TakeWhile
import MiniatureOs.Fat.RootDir
import MiniatureOs.Lib.Packing

/-! # Long file names

A long name is stored as UTF-16 in pieces of 13 units, one in each slot in front of
the 8.3 slot, the last piece first. `DirectoryEntry::parse` decodes the slots one by
one and puts their characters together as they are stored, so it returns the name
exactly when its pieces spell it backwards as well.
-/

namespace MiniatureOs

/-! ## The encoding -/

def vfatSlot (order checksum : UInt8) (units : List Nat) : List UInt8 :=
  [order] ++ ((units.take 5).flatMap (toLittleEndian 2) ++ ([0x0F, 0, checksum] ++
    (((units.drop 5).take 6).flatMap (toLittleEndian 2) ++ ([0, 0] ++
      (units.drop 11).flatMap (toLittleEndian 2)))))

/-- A shorter piece is ended by a zero and filled up. -/
def padUnits (piece : List Nat) : List Nat :=
  if piece.length < 13 then piece ++ 0 :: List.replicate (12 - piece.length) 0xFFFF else piece

/-- The sequence number of a slot, marked in the last one. -/
def slotOrder (count i : Nat) : UInt8 :=
  UInt8.ofNat (if i + 1 = count then i + 1 + 0x40 else i + 1)

/-- The slots of a name in the order in which they are stored. -/
def longNameSlots (checksum : UInt8) (name : List Char) : List (List UInt8) :=
  let pieces := chunks 13 (Utf16.encode name)
  (pieces.zipIdx.map fun p =>
    vfatSlot (slotOrder pieces.length p.2) checksum (padUnits p.1)).reverse

/-! ## A slot read back -/

theorem flatMap_toLittleEndian_length (units : List Nat) :
    (units.flatMap (toLittleEndian 2)).length = 2 * units.length := by
  induction units with
  | nil => rfl
  | cons u rest ih =>
      rw [List.flatMap_cons, List.length_append, toLittleEndian_length, ih, List.length_cons]
      omega

theorem map_chunks_toLittleEndian {units : List Nat} (hunits : ∀ u ∈ units, u < 0x10000) :
    (chunks 2 (units.flatMap (toLittleEndian 2))).map ofLittleEndian = units := by
  have hpieces : ∀ piece ∈ units.map (toLittleEndian 2), piece.length = 2 := by
    intro piece hmem
    obtain ⟨u, _, rfl⟩ := List.mem_map.mp hmem
    exact toLittleEndian_length 2 u
  rw [List.flatMap_def, chunks_flatten (by decide) hpieces, List.map_map]
  conv_rhs => rw [← List.map_id units]
  apply List.map_congr_left
  intro u hu
  exact ofLittleEndian_toLittleEndian (hunits u hu)

theorem padUnits_length {piece : List Nat} (h : piece.length ≤ 13) :
    (padUnits piece).length = 13 := by
  unfold padUnits
  split
  · rw [List.length_append, List.length_cons, List.length_replicate]
    omega
  · omega

theorem takeWhile_padUnits {piece : List Nat} (h : ∀ u ∈ piece, u ≠ 0) :
    (padUnits piece).takeWhile (· ≠ 0) = piece := by
  have hall : ∀ u ∈ piece, decide (u ≠ 0) = true := fun u hu => decide_eq_true (h u hu)
  unfold padUnits
  split
  · rw [List.takeWhile_append_of_pos hall]
    simp
  · exact List.takeWhile_eq_self_iff.mpr hall

section Slot

variable {order checksum : UInt8} {units : List Nat}

theorem vfatSlot_length (h : units.length = 13) : (vfatSlot order checksum units).length = 32 := by
  simp only [vfatSlot, List.length_append, flatMap_toLittleEndian_length, List.length_take,
    List.length_drop, h, List.length_cons, List.length_nil]
  decide

theorem slotByte_vfatSlot (h : units.length = 13) :
    slotByte (vfatSlot order checksum units) 0 = order ∧
      slotByte (vfatSlot order checksum units) 11 = FileAttributes.longFileName := by
  have hfirst : ((units.take 5).flatMap (toLittleEndian 2)).length = 10 := by
    rw [flatMap_toLittleEndian_length, List.length_take, h]
    decide
  refine ⟨rfl, ?_⟩
  simp only [slotByte, vfatSlot, List.singleton_append, List.getElem?_cons_succ]
  rw [List.getElem?_append_right (by omega), hfirst]
  rfl

theorem slotName_vfatSlot (h : units.length = 13) (hunits : ∀ u ∈ units, u < 0x10000) :
    slotName (vfatSlot order checksum units) =
      Utf16.decodeLossy (units.takeWhile (· ≠ 0)) := by
  have h₁ : ((units.take 5).flatMap (toLittleEndian 2)).length = 10 := by
    rw [flatMap_toLittleEndian_length, List.length_take, h]
    decide
  have h₂ : (((units.drop 5).take 6).flatMap (toLittleEndian 2)).length = 12 := by
    rw [flatMap_toLittleEndian_length, List.length_take, List.length_drop, h]
    decide
  have h₃ : ((units.drop 11).flatMap (toLittleEndian 2)).length = 4 := by
    rw [flatMap_toLittleEndian_length, List.length_drop, h]
  have horder : [order].length = 1 := rfl
  have hattr : [0x0F, 0, checksum].length = 3 := rfl
  have hzero : [(0 : UInt8), 0].length = 2 := rfl
  have hpart₁ : ((vfatSlot order checksum units).drop 1).take 10 =
      (units.take 5).flatMap (toLittleEndian 2) := by
    rw [vfatSlot, List.drop_left' horder, List.take_left' h₁]
  have hpart₂ : ((vfatSlot order checksum units).drop 14).take 12 =
      ((units.drop 5).take 6).flatMap (toLittleEndian 2) := by
    rw [vfatSlot, show 14 = 1 + (10 + 3) by decide, ← List.drop_drop, List.drop_left' horder,
      ← List.drop_drop, List.drop_left' h₁, List.drop_left' hattr, List.take_left' h₂]
  have hpart₃ : ((vfatSlot order checksum units).drop 28).take 4 =
      (units.drop 11).flatMap (toLittleEndian 2) := by
    rw [vfatSlot, show 28 = 1 + (10 + (3 + (12 + 2))) by decide, ← List.drop_drop,
      List.drop_left' horder, ← List.drop_drop, List.drop_left' h₁, ← List.drop_drop,
      List.drop_left' hattr, ← List.drop_drop, List.drop_left' h₂, List.drop_left' hzero,
      List.take_of_length_le (Nat.le_of_eq h₃)]
  have hsplit : units.take 5 ++ (units.drop 5).take 6 ++ units.drop 11 = units := by
    rw [List.append_assoc, show units.drop 11 = (units.drop 5).drop 6 by rw [List.drop_drop],
      List.take_append_drop, List.take_append_drop]
  have hlt : ∀ part : List Nat, part ⊆ units → ∀ u ∈ part, u < 0x10000 :=
    fun part hpart u hu => hunits u (hpart hu)
  rw [slotName, hpart₁, hpart₂, hpart₃, DirectoryEntry.nameUnits, List.map_append, List.map_append,
    map_chunks_toLittleEndian (hlt _ (List.take_subset _ _)),
    map_chunks_toLittleEndian (hlt _ (List.Subset.trans (List.take_subset _ _)
      (List.drop_subset _ _))),
    map_chunks_toLittleEndian (hlt _ (List.drop_subset _ _)), hsplit]

end Slot

theorem slotName_piece {order checksum : UInt8} {piece : List Nat} (hlength : piece.length ≤ 13)
    (hunits : ∀ u ∈ piece, u < 0x10000) (hnul : ∀ u ∈ piece, u ≠ 0) :
    slotName (vfatSlot order checksum (padUnits piece)) = Utf16.decodeLossy piece := by
  have hpadded : ∀ u ∈ padUnits piece, u < 0x10000 := by
    intro u hu
    unfold padUnits at hu
    split at hu
    · cases List.mem_append.mp hu with
      | inl hmem => exact hunits u hmem
      | inr hmem =>
          cases List.mem_cons.mp hmem with
          | inl hzero => omega
          | inr hfill => have := List.eq_of_mem_replicate hfill; omega
    · exact hunits u hu
  rw [slotName_vfatSlot (padUnits_length hlength) hpadded, takeWhile_padUnits hnul]

/-! ## The slots of a name -/

section Name

variable {name : List Char} {checksum : UInt8}

theorem chunks_length_le {units : List Nat} (h : units.length ≤ 255) :
    (chunks 13 units).length ≤ 20 := by
  rw [chunks, List.length_map, List.length_range]
  omega

theorem slotOrder_live {count i : Nat} (hi : i < count) (hcount : count ≤ 20) :
    slotOrder count i ≠ 0 ∧ slotOrder count i ≠ 0xe5 := by
  have hall : ∀ count < 21, ∀ i < count, slotOrder count i ≠ 0 ∧ slotOrder count i ≠ 0xe5 := by
    decide
  exact hall count (by omega) i hi

theorem mem_longNameSlots {slot : List UInt8} (h : slot ∈ longNameSlots checksum name) :
    ∃ piece ∈ chunks 13 (Utf16.encode name), ∃ i < (chunks 13 (Utf16.encode name)).length,
      slot = vfatSlot (slotOrder (chunks 13 (Utf16.encode name)).length i) checksum
        (padUnits piece) := by
  obtain ⟨p, hp, rfl⟩ := List.mem_map.mp (List.mem_reverse.mp h)
  have hindex := List.mem_zipIdx hp
  refine ⟨p.1, List.fst_mem_of_mem_zipIdx hp, p.2, by omega, rfl⟩

theorem longNameSlots_live (h : (Utf16.encode name).length ≤ 255) {slot : List UInt8}
    (hslot : slot ∈ longNameSlots checksum name) :
    slot.length = 32 ∧ slotKind slot = .longName := by
  obtain ⟨piece, hpiece, i, hi, rfl⟩ := mem_longNameSlots hslot
  have hlength := padUnits_length (length_of_mem_chunks (by decide) hpiece).2
  obtain ⟨horder, hattr⟩ := @slotByte_vfatSlot
    (slotOrder (chunks 13 (Utf16.encode name)).length i) checksum _ hlength
  have hlive := slotOrder_live hi (chunks_length_le h)
  refine ⟨vfatSlot_length hlength, slotKind_eq_longName.mpr ?_⟩
  rw [horder]
  exact ⟨hlive.1, hlive.2, hattr⟩

theorem longNameSlots_length :
    (longNameSlots checksum name).length = (chunks 13 (Utf16.encode name)).length := by
  rw [longNameSlots, List.length_reverse, List.length_map, List.length_zipIdx]

/-- The characters of the slots are the decoded pieces, the last piece first. -/
theorem flatMap_slotName_longNameSlots (hnul : '\x00' ∉ name) :
    (longNameSlots checksum name).flatMap slotName =
      (chunks 13 (Utf16.encode name)).reverse.flatMap Utf16.decodeLossy := by
  have hzero : 0 ∉ Utf16.encode name := fun h => hnul (Utf16.zero_mem_encode.mp h)
  have hnames : (longNameSlots checksum name).map slotName =
      (chunks 13 (Utf16.encode name)).reverse.map Utf16.decodeLossy := by
    rw [longNameSlots, List.map_reverse, List.map_reverse, List.map_map]
    congr 1
    conv_rhs => rw [← List.zipIdx_map_fst 0 (chunks 13 (Utf16.encode name)), List.map_map]
    apply List.map_congr_left
    intro p hp
    have hpiece := List.fst_mem_of_mem_zipIdx hp
    have hmem : ∀ u ∈ p.1, u ∈ Utf16.encode name := fun u =>
      mem_of_mem_chunks (by decide) hpiece
    exact slotName_piece (length_of_mem_chunks (by decide) hpiece).2
      (fun u hu => Utf16.lt_of_mem_encode (hmem u hu))
      (fun u hu hu0 => hzero (hu0 ▸ hmem u hu))
  rw [List.flatMap_def, hnames, ← List.flatMap_def]

end Name

/-! ## Round trip -/

/-- The name encoded in front of an 8.3 slot is parsed as one group that answers to
this name and no other, with the data of the 8.3 slot. -/
def RoundTrips (name : List Char) (checksum : UInt8) (short : List UInt8)
    (rest : List (List UInt8)) : Prop :=
  ∃ entry, DirectoryEntry.parse (longNameSlots checksum name ++ short :: rest).flatten =
      .ok (.ok (((longNameSlots checksum name).length + 1) * 32, .longNameDirEntry entry)) ∧
    (∀ other, DirectoryEntry.eqName (.longNameDirEntry entry) other = true ↔ other = name) ∧
    DirectoryEntry.firstCluster (.longNameDirEntry entry) = (slotFile short).1 ∧
    DirectoryEntry.fileSize (.longNameDirEntry entry) = (slotFile short).2 ∧
    DirectoryEntry.isDir (.longNameDirEntry entry) =
      FileAttributes.isSet (slotByte short 11) FileAttributes.directory

theorem takeWhile_nameArray {cs : List Char} (h : '\x00' ∉ cs) :
    (nameArray cs).takeWhile (· ≠ '\x00') = cs := by
  have hall : ∀ c ∈ cs, decide (c ≠ '\x00') = true := by
    intro c hc
    apply decide_eq_true
    intro hzero
    exact h (hzero ▸ hc)
  rw [nameArray, List.takeWhile_append_of_pos hall, List.takeWhile_replicate]
  simp

section RoundTrip

variable {name : List Char} {short : List UInt8} {rest : List (List UInt8)}

theorem nul_not_mem_stored (hnul : '\x00' ∉ name) :
    '\x00' ∉ (chunks 13 (Utf16.encode name)).reverse.flatMap Utf16.decodeLossy := by
  intro hmem
  obtain ⟨piece, hpiece, hchar⟩ := List.mem_flatMap.mp hmem
  have hpiece := List.mem_reverse.mp hpiece
  have hunits : ∀ u ∈ piece, u ∈ Utf16.encode name := fun u => mem_of_mem_chunks (by decide) hpiece
  have hkept := (Utf16.encode_decodeLossy_sublist
    fun u hu => Utf16.lt_of_mem_encode (hunits u hu)).subset (Utf16.zero_mem_encode.mpr hchar)
  exact hnul (Utf16.zero_mem_encode.mp (hunits 0 hkept))

theorem length_stored_le (name : List Char) :
    ((chunks 13 (Utf16.encode name)).reverse.flatMap Utf16.decodeLossy).length ≤
      (Utf16.encode name).length := by
  have hpieces : ∀ pieces : List (List Nat),
      (pieces.flatMap Utf16.decodeLossy).length ≤ pieces.flatten.length := by
    intro pieces
    induction pieces with
    | nil => exact Nat.le_refl 0
    | cons piece rest ih =>
        rw [List.flatMap_cons, List.flatten_cons, List.length_append, List.length_append]
        exact Nat.add_le_add Utf16.length_decodeLossy_le ih
  have hperm := (List.reverse_perm (chunks 13 (Utf16.encode name))).flatten.length_eq
  rw [flatten_chunks (by decide)] at hperm
  rw [← hperm]
  exact hpieces _

/-- A group is parsed as a whole and has the decoded pieces as its name, as they are
stored. -/
theorem parse_longNameSlots (hpos : 1 ≤ (Utf16.encode name).length)
    (hlength : (Utf16.encode name).length ≤ 255) (hnul : '\x00' ∉ name) (checksum : UInt8)
    (hshort : short.length = 32) (hattr : slotByte short 11 ≠ FileAttributes.longFileName)
    (hrest : ∀ slot ∈ rest, slot.length = 32) :
    DirectoryEntry.parse (longNameSlots checksum name ++ short :: rest).flatten =
      .ok (.ok (((longNameSlots checksum name).length + 1) * 32, .longNameDirEntry
        ⟨nameArray ((chunks 13 (Utf16.encode name)).reverse.flatMap Utf16.decodeLossy),
          (slotFile short).1, slotByte short 11, (slotFile short).2⟩)) := by
  have hlive : ∀ slot ∈ longNameSlots checksum name, _ := fun slot => longNameSlots_live hlength
  have hfit : ((longNameSlots checksum name).flatMap slotName).length ≤ 255 := by
    rw [flatMap_slotName_longNameSlots hnul]
    exact Nat.le_trans (length_stored_le name) hlength
  have hgroup := @DirectoryEntry.longNameLoop_group short [] 0 (longNameSlots checksum name)
    (fun slot h => (hlive slot h).1)
    (fun slot h => (slotKind_eq_longName.mp (hlive slot h).2).2.2) hshort hattr
    (Nat.zero_le 255) rest
  rw [List.length_nil, Nat.zero_add, if_pos hfit, List.nil_append,
    flatMap_slotName_longNameSlots hnul, Nat.zero_add] at hgroup
  have hslots : ∀ slot ∈ longNameSlots checksum name ++ short :: rest, slot.length = 32 := by
    intro slot h
    cases List.mem_append.mp h with
    | inl hmem => exact (hlive slot hmem).1
    | inr hmem =>
        cases List.mem_cons.mp hmem with
        | inl heq => rw [heq]; exact hshort
        | inr htail => exact hrest slot htail
  cases hsplit : longNameSlots checksum name with
  | nil =>
      have hcount := @longNameSlots_length name checksum
      rw [hsplit, chunks, List.length_map, List.length_range, List.length_nil] at hcount
      omega
  | cons slot slots =>
      rw [hsplit] at hlive hslots hgroup
      have hcons : ∀ s ∈ slot :: (slots ++ short :: rest), s.length = 32 := hslots
      rw [List.cons_append, DirectoryEntry.parse_longName hcons
        (hlive slot List.mem_cons_self).2, List.length_nil, ← List.cons_append, hgroup]
      simp only [Checked.ok_bind, Checked.assert, Checked.pure_eq_ok,
        DirectoryEntry.normalEntrySize]
      rw [if_pos (by simp)]
      rfl

/-- The characters of the parsed name are those of the name. -/
theorem roundTrips_iff_stored (hpos : 1 ≤ (Utf16.encode name).length)
    (hlength : (Utf16.encode name).length ≤ 255) (hnul : '\x00' ∉ name) (checksum : UInt8)
    (hshort : short.length = 32) (hattr : slotByte short 11 ≠ FileAttributes.longFileName)
    (hrest : ∀ slot ∈ rest, slot.length = 32) :
    RoundTrips name checksum short rest ↔
      (chunks 13 (Utf16.encode name)).reverse.flatMap Utf16.decodeLossy = name := by
  have hparse := parse_longNameSlots hpos hlength hnul checksum hshort hattr hrest
  have hname := takeWhile_nameArray (nul_not_mem_stored hnul)
  constructor
  · rintro ⟨entry, hentry, heq, _⟩
    rw [hparse] at hentry
    cases hentry
    apply (heq _).mp
    simp only [DirectoryEntry.eqName, hname, decide_true]
  · intro hstored
    rw [hstored] at hparse hname
    refine ⟨_, hparse, fun other => ?_, rfl, rfl, rfl⟩
    simp only [DirectoryEntry.eqName, hname, decide_eq_true_eq]
    exact eq_comm

end RoundTrip

/-- A name round-trips exactly when its pieces read backwards spell it and no
surrogate pair is cut between two pieces. -/
theorem roundTrips_iff (name : List Char) (hpos : 1 ≤ (Utf16.encode name).length)
    (hlength : (Utf16.encode name).length ≤ 255) (hnul : '\x00' ∉ name) (checksum : UInt8)
    (short : List UInt8) (hshort : short.length = 32)
    (hattr : slotByte short 11 ≠ FileAttributes.longFileName) (rest : List (List UInt8))
    (hrest : ∀ slot ∈ rest, slot.length = 32) :
    RoundTrips name checksum short rest ↔
      (chunks 13 (Utf16.encode name)).reverse.flatten = Utf16.encode name ∧
        ∀ piece ∈ chunks 13 (Utf16.encode name), ∀ u, piece.head? = some u → ¬ Utf16.IsLow u := by
  rw [roundTrips_iff_stored hpos hlength hnul checksum hshort hattr hrest]
  exact Utf16.flatMap_decodeLossy_eq_iff (flatten_chunks (by decide) _)
    (fun piece h => (length_of_mem_chunks (by decide) h).1) (List.reverse_perm _)

def stageName : List Char := ['s', 't', 'a', 'g', 'e', '3']

def repeatedName : List Char := List.replicate 26 'a'

theorem roundTrips_repeatedName : RoundTrips repeatedName 0x5A stageSlot [deletedSlot] :=
  (roundTrips_iff repeatedName (by decide) (by decide) (by decide) 0x5A stageSlot
    (by decide) (by decide) [deletedSlot] (by decide)).mpr (by
      have hchunks : chunks 13 (Utf16.encode repeatedName) =
          List.replicate 2 (List.replicate 13 97) := by decide
      rw [hchunks]
      refine ⟨by decide, fun piece hpiece u hu => ?_⟩
      rw [List.eq_of_mem_replicate hpiece] at hu
      obtain rfl := Option.some.inj hu
      decide)

def configName : List Char :=
  ['c', 'o', 'n', 'f', 'i', 'g', 'u', 'r', 'a', 't', 'i', 'o', 'n', '.', 't', 'x', 't']

/-- The second piece of a longer name comes out first. -/
theorem not_roundTrips_two_pieces :
    ¬ RoundTrips configName 0x5A stageSlot [] := by
  rw [roundTrips_iff_stored (by decide) (by decide) (by decide) 0x5A (by decide) (by decide)
    (by simp)]
  decide

end MiniatureOs
